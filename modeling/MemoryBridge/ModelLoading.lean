import MemoryBridge.Foundations.Once
import MemoryBridge.Server

/-!
# Loading the embedding model (`_embed`, `_hf_model_cached`)

The model is loaded by the first call that embeds, or by the thread that `_maybe_preload_model`
starts, under a lock of its own and with a second look at `_model` inside. Before the import, which
reads `HF_HUB_OFFLINE` once and for all, `_embed` decides whether to set it. `model_loaded_once` is
what the lock is for, whatever the threads do and however often loading fails; `offline_decided`
is what the order of the steps is for.
-/

namespace MemoryBridge

open PyText

/-! ## The cache of models -/

/-- `os.environ` -/
abbrev Environ : Type := String → Option String

/-- `os.environ.setdefault(k, v)` -/
def Environ.setdefault (environ : Environ) (k v : String) : Environ :=
  fun k' => if k' = k then some ((environ k).getD v) else environ k'

/-- What the file system answers about directories. It may raise an `OSError`. -/
structure Directories where
  isDir : String → Except Unit Bool
  iterdir : String → Except Unit (List String)

/-- `Path(a) / b` -/
def joinPath (a b : String) : String := if a = "" then b else a ++ "/" ++ b

/-- The directory of the hub, `home` being that of the user. -/
def hubDir (home : String) (environ : Environ) : String :=
  (environ "HF_HUB_CACHE").getD
    (joinPath ((environ "HF_HOME").getD (joinPath (joinPath home ".cache") "huggingface")) "hub")

/-- `_hf_model_cached` -/
def hfModelCached (home : String) (environ : Environ) (files : Directories) (modelId : String) :
    Bool :=
  let model := joinPath (hubDir home environ) ("models--" ++ replaceChar '/' "--" modelId)
  let snapshots := joinPath model "snapshots"
  match files.isDir snapshots, files.iterdir snapshots with
  | .ok true, .ok entries => !entries.isEmpty
  | _, _ => false

/-! ## Loading -/

/-- What `huggingface_hub` read of `HF_HUB_OFFLINE` when it was imported, and what
`_hf_model_cached` had said before. -/
structure HubImport where
  offline : Option String
  cached : Bool

/-- The process, for those who load a model. -/
structure LoadEnv where
  environ : Environ
  hub : Option HubImport

/-- Where `_embed` is between its second look at `_model` and the assignment. -/
inductive LoadStep
  | enabled
  | cached
  | offline
  | imports (cached : Bool)
  | construct

/-- What the outside answers to a step of loading: the file system, how far an import comes, and
whether the model can be constructed. -/
structure Outside (M : Type) where
  files : Directories
  hubImported : Bool
  imports : Except PyExc Unit
  model : Except PyExc M

/-- The import of `sentence_transformers`, which imports `huggingface_hub` at its first time. -/
def LoadEnv.importHub (e : LoadEnv) (cached : Bool) : LoadEnv :=
  { e with hub := e.hub.or (some ⟨e.environ "HF_HUB_OFFLINE", cached⟩) }

variable {M : Type}

/-- The body of `_embed` under `_model_lock`, `_model` being `None`. -/
def loadModel (cfg : Config) (home : String) : Once.Maker LoadEnv LoadStep (Outside M) M PyExc where
  start := .enabled
  step e l o :=
    match l with
    | .enabled =>
      if cfg.embeddingsEnabled then (e, .more .cached)
      else (e, .raised (.toolError ("semantic search is disabled on this server " ++
        "(MCP_EMBEDDINGS=off); use memory_list with a key prefix instead")))
    | .cached =>
      if hfModelCached home e.environ o.files "sentence-transformers/all-MiniLM-L6-v2" then
        (e, .more .offline)
      else (e, .more (.imports false))
    | .offline =>
      ({ e with environ := e.environ.setdefault "HF_HUB_OFFLINE" "1" }, .more (.imports true))
    | .imports cached =>
      match o.imports with
      | .ok () => (e.importHub cached, .more .construct)
      | .error x => (if o.hubImported then e.importHub cached else e, .raised x)
    | .construct =>
      match o.model with
      | .ok m => (e, .ready m)
      | .error x => (e, .raised x)

/-- How many steps of loading are left. -/
def LoadStep.left : LoadStep → ℕ
  | .enabled => 4
  | .cached => 3
  | .offline => 2
  | .imports _ => 1
  | .construct => 0

theorem loadModel_left {cfg : Config} {home : String} (e : LoadEnv) (l : LoadStep) (o : Outside M)
    (l' : LoadStep) (h : ((loadModel cfg home).step e l o).2 = .more l') : l'.left < l.left := by
  cases l with
  | enabled =>
    simp only [loadModel] at h
    split at h <;> cases h
    decide
  | cached =>
    simp only [loadModel] at h
    split at h <;> cases h <;> decide
  | offline =>
    cases h
    decide
  | imports c =>
    simp only [loadModel] at h
    split at h <;> cases h
    exact Nat.zero_lt_one
  | construct =>
    simp only [loadModel] at h
    split at h <;> cases h

/-- What loading may have done to a process whose variables were `environ`: `HF_HUB_OFFLINE` alone
may have changed, from unset to `1`, and the import, if it was made, has read a value that was
decided before: that of the operator, or `1` if there is none and the model was found. -/
structure Decided (environ : Environ) (e : LoadEnv) : Prop where
  other : ∀ k, k ≠ "HF_HUB_OFFLINE" → e.environ k = environ k
  kept : ∀ v, environ "HF_HUB_OFFLINE" = some v → e.environ "HF_HUB_OFFLINE" = some v
  offline : e.environ "HF_HUB_OFFLINE" = environ "HF_HUB_OFFLINE" ∨
    e.environ "HF_HUB_OFFLINE" = some "1"
  hub : ∀ h, e.hub = some h →
    (environ "HF_HUB_OFFLINE" = none → h.cached = true → h.offline = some "1") ∧
    ∀ v, environ "HF_HUB_OFFLINE" = some v → h.offline = some v

/-- What is known of the variable at a step of loading. -/
def AtStep (e : LoadEnv) : LoadStep → Prop
  | .imports true => (e.environ "HF_HUB_OFFLINE").isSome
  | _ => True

variable {cfg : Config} {home : String} {environ : Environ}

/-- The import reads what was decided. -/
theorem Decided.importHub {e : LoadEnv} (h : Decided environ e) {cached : Bool}
    (hat : AtStep e (.imports cached)) : Decided environ (e.importHub cached) where
  other := h.other
  kept := h.kept
  offline := h.offline
  hub i hi := by
    cases hh : e.hub with
    | some j =>
      rw [LoadEnv.importHub, hh] at hi
      obtain rfl := Option.some.inj hi
      exact h.hub j hh
    | none =>
      rw [LoadEnv.importHub, hh] at hi
      obtain rfl := Option.some.inj hi
      refine ⟨fun hv hc => ?_, h.kept⟩
      obtain rfl : cached = true := hc
      rcases h.offline with hsame | hone
      · have hset : (e.environ "HF_HUB_OFFLINE").isSome := hat
        rw [hsame, hv] at hset
        cases hset
      · exact hone

/-- **One step of loading.** -/
theorem Decided.step {e : LoadEnv} {l : LoadStep} (o : Outside M) (h : Decided environ e)
    (hat : AtStep e l) :
    Decided environ ((loadModel (M := M) cfg home).step e l o).1 ∧
      ∀ l', ((loadModel (M := M) cfg home).step e l o).2 = .more l' →
        AtStep ((loadModel (M := M) cfg home).step e l o).1 l' := by
  cases l with
  | enabled =>
    simp only [loadModel]
    split
    · exact ⟨h, by rintro l' ⟨⟩; trivial⟩
    · exact ⟨h, nofun⟩
  | cached =>
    simp only [loadModel]
    split <;> exact ⟨h, by rintro l' ⟨⟩; trivial⟩
  | offline =>
    refine ⟨⟨fun k hk => ?_, fun v hv => ?_, ?_, h.hub⟩, ?_⟩
    · exact (if_neg hk).trans (h.other k hk)
    · show some ((e.environ "HF_HUB_OFFLINE").getD "1") = some v
      rw [h.kept v hv]
      rfl
    · show some ((e.environ "HF_HUB_OFFLINE").getD "1") = _ ∨
        some ((e.environ "HF_HUB_OFFLINE").getD "1") = _
      cases hv : e.environ "HF_HUB_OFFLINE" with
      | none => exact .inr rfl
      | some v =>
        have := h.offline
        rwa [hv] at this
    · rintro l' ⟨⟩
      rfl
  | imports cached =>
    simp only [loadModel]
    split
    · exact ⟨h.importHub hat, by rintro l' ⟨⟩; trivial⟩
    · refine ⟨?_, nofun⟩
      split
      · exact h.importHub hat
      · exact h
  | construct =>
    simp only [loadModel]
    split <;> exact ⟨h, nofun⟩

section Runs

variable {T : Type} [DecidableEq T] {s : Once.State T LoadEnv LoadStep M PyExc}

/-- **Offline or online is decided before the import.** In every reachable state of the threads that
embed: only `HF_HUB_OFFLINE` may have changed, from unset to `1`; and if `huggingface_hub` has been
imported, it read the operator's value of that variable wherever there is one, and otherwise `1` if
the check before had found the model in the cache. -/
theorem offline_decided
    (h : Once.Reach (loadModel cfg home) (.initial ⟨environ, none⟩) s) : Decided environ s.env := by
  have hstart : Decided environ ⟨environ, none⟩ := ⟨fun _ _ => rfl, fun _ => id, .inl rfl, nofun⟩
  exact (Once.Reach.env (K := loadModel cfg home) (J := AtStep) hstart (fun _ _ => trivial)
    (fun _ _ o hP hat => hP.step o hat) h).1

/-- A model that is in the cache, and imports that work. -/
def readyOutside : Outside ℕ := ⟨⟨fun _ => .ok true, fun _ => .ok ["1"]⟩, true, .ok (), .ok 7⟩

/-- Two threads that want the model: the second one waits for the first, and then finds it. -/
def loadRun : List (Bool × Once.Move (Outside ℕ)) :=
  [(false, .call), (false, .look), (true, .call), (true, .look), (false, .acquire),
    (false, .lookAgain), (false, .make readyOutside), (false, .make readyOutside),
    (false, .make readyOutside), (false, .make readyOutside), (false, .make readyOutside),
    (false, .release), (true, .acquire), (true, .lookAgain), (true, .release), (true, .use)]

/-- The process that starts without `HF_HUB_OFFLINE`, after the run. -/
def loadSample : Option (Once.State Bool LoadEnv LoadStep ℕ PyExc) :=
  (Once.State.initial ⟨fun _ => none, none⟩).exec (loadModel .default "/home/u") loadRun

theorem offline_decided_sample :
    ∃ s, loadSample = some s ∧ Decided (fun _ => none) s.env ∧
      s.env.hub.map HubImport.offline = some (some "1") := by
  have hsome : loadSample.isSome := by decide +kernel
  have himport : loadSample.map (fun s => s.env.hub.map HubImport.offline) =
    some (some (some "1")) := by decide +kernel
  obtain ⟨s, hs⟩ := Option.isSome_iff_exists.1 hsome
  rw [hs] at himport
  exact ⟨s, hs, offline_decided (Once.reach_of_exec hs), Option.some.inj himport⟩

/-- With embeddings off there is no step after the first. -/
theorem loadModel_disabled (hoff : cfg.embeddingsEnabled = false) (home : String) (e : LoadEnv)
    (l : LoadStep) (o : Outside M) (hl : l = .enabled) :
    ∃ x, (loadModel cfg home).step e l o = (e, .raised x) := by
  subst hl
  refine ⟨_, if_neg ?_⟩
  rw [hoff]
  exact Bool.false_ne_true

/-- Where embeddings are on and the outside provides a model, no step of loading raises. -/
theorem loadModel_works (hon : cfg.embeddingsEnabled = true) (home : String) {o : Outside M} {m : M}
    (hi : o.imports = .ok ()) (hm : o.model = .ok m) : Once.Works (loadModel cfg home) o := by
  intro e l x
  cases l with
  | enabled =>
    simp only [loadModel]
    rw [if_pos hon]
    nofun
  | cached =>
    simp only [loadModel]
    split <;> nofun
  | offline => nofun
  | imports c =>
    simp only [loadModel, hi]
    nofun
  | construct =>
    simp only [loadModel, hm]
    nofun

/-- **The model is loaded once.** However many threads embed, in every reachable state: at most one
of them is loading; at most one load has come to an end, and whoever got a model got that one; with
`MCP_EMBEDDINGS=off` nothing was imported and nothing loaded. A model that was loaded stays. And a
thread that embeds can always come to an end, whatever the others hold: if it has not failed, it
gets a model as soon as the outside provides one, also after loads that failed. -/
theorem model_loaded_once
    (h : Once.Reach (loadModel cfg home) (.initial ⟨environ, none⟩) s) :
    (∀ t u l l', s.phase t = .making l → s.phase u = .making l' → t = u) ∧
    s.made.length ≤ 1 ∧
    (∀ t m, s.phase t = .done (.ok m) → ∃ u, s.made = [(u, m)]) ∧
    (cfg.embeddingsEnabled = false → s.made = [] ∧ s.env = ⟨environ, none⟩) ∧
    (∀ m s', s.cell = some m → Once.Reach (loadModel cfg home) s s' → s'.cell = some m) ∧
    ∀ t (o : Outside M), s.phase t ≠ .idle → ∃ s' r, Once.Reach (loadModel cfg home) s s' ∧
      s'.phase t = .done r ∧ (cfg.embeddingsEnabled = true → o.imports = .ok () →
        ∀ m, o.model = .ok m → ¬(s.phase t).Failed → ∃ m', r = .ok m') := by
  have hs := Once.Reach.sound h
  have hmade : s.made.length ≤ 1 := by
    have := congrArg List.length hs.made
    rw [List.length_map] at this
    rw [this]
    cases s.cell <;> simp
  refine ⟨fun t u l l' ht hu => ?_, hmade, fun t m ht => ?_, fun hoff => ?_,
    fun m s' hm hs' => (hs'.cell hs hm).2, fun t o ht => ?_⟩
  · by_contra hne
    exact hs.alone (hu ▸ trivial : (s.phase u).Inside) hne (ht ▸ trivial)
  · have hc := hs.phase t
    rw [ht] at hc
    have hsnd := hs.made
    rw [show s.cell = some m from hc] at hsnd
    match hm : s.made, hsnd with
    | [(u, m')], hsnd => exact ⟨u, by simp_all⟩
  · have hstep (e : LoadEnv) (l : LoadStep) (o : Outside M) (hP : e = ⟨environ, none⟩)
        (hl : l = .enabled) : ((loadModel (M := M) cfg home).step e l o).1 = ⟨environ, none⟩ ∧
        ∀ l', ((loadModel (M := M) cfg home).step e l o).2 = .more l' → l' = .enabled := by
      obtain ⟨x, hx⟩ := loadModel_disabled hoff home e l o hl
      rw [hx]
      exact ⟨hP, nofun⟩
    have henv := Once.Reach.env (K := loadModel cfg home) (P := fun e => e = ⟨environ, none⟩)
      (J := fun _ l => l = .enabled) rfl (fun _ _ => rfl) hstep h
    refine ⟨List.eq_nil_iff_forall_not_mem.2 fun x hx => ?_, henv.1⟩
    obtain ⟨e, l, o, -, hl, hready⟩ := Once.Reach.made (K := loadModel cfg home)
      (P := fun e => e = ⟨environ, none⟩) (J := fun _ l => l = .enabled) rfl (fun _ _ => rfl) hstep
      h (t := x.1) (m := x.2) hx
    obtain ⟨y, hy⟩ := loadModel_disabled hoff home e l o hl
    rw [hy] at hready
    cases hready
  · obtain ⟨s', r, hs', hr, hok⟩ := hs.canEnd (fun e l o => loadModel_left e l o) o ht
    exact ⟨s', r, hs', hr, fun hon hi m hm hf => hok (loadModel_works hon home hi hm) hf⟩

theorem model_loaded_once_sample :
    ∃ s, loadSample = some s ∧ s.made.length ≤ 1 ∧ s.made = [(false, 7)] := by
  have hsome : loadSample.isSome := by decide +kernel
  have hmade : loadSample.map (fun s => s.made) = some [(false, 7)] := by decide +kernel
  obtain ⟨s, hs⟩ := Option.isSome_iff_exists.1 hsome
  rw [hs] at hmade
  exact ⟨s, hs, (model_loaded_once (Once.reach_of_exec hs)).2.1, Option.some.inj hmade⟩

end Runs

end MemoryBridge
