import MemoryBridge.AuditTrail
import MemoryBridge.Foundations.DerivedTable

/-!
# The table of embeddings

`fact_embeddings` is derived from `facts`: a row holds the embedding of the current text of its fact
(`Fresh`). Every transaction keeps that but one, the `memory_set` of a process with
`MCP_EMBEDDINGS=off` that overwrites a fact whose embedding is stored (`Outdates`). So in a run the
embeddings are always fresh exactly if no such write is committed, and then `memory_search` scores
each fact by the value it has.
-/

open SingleWriter

namespace MemoryBridge

variable {S : Type} {rt : Runtime S}

/-! ## Fresh embeddings -/

/-- Each row of `fact_embeddings` belongs to a fact and holds the embedding of its current text. -/
def Fresh (rt : Runtime S) (d : Db) : Prop :=
  Derived (fun key (f : Fact) => rt.embed (factText key f.value)) d.facts d.embeddings

/-- The condition of a `memory_set` holds: the key is free, or it has the expected value. -/
def Admits (key : String) (expectedValue : Option String) (requireAbsent : Bool) (d : Db) : Prop :=
  if requireAbsent then key ∉ d.facts
  else ∀ expected, expectedValue = some expected →
    (d.facts.lookup key).map Fact.value = some expected

/-- The call overwrites a fact whose embedding is stored, in a process that does not embed, with a
text that has another embedding. -/
def Outdates (rt : Runtime S) (cfg : Config) (d : Db) : Call → Prop
  | .memorySet key value _ expectedValue requireAbsent =>
    cfg.embeddingsEnabled = false ∧ Admits key expectedValue requireAbsent d ∧
      ∃ e, d.embeddings.lookup key = some e ∧ e ≠ rt.embed (factText key value)
  | _ => False

theorem wrote_eq_none_iff {key : String} {f : Fact} {expectedValue : Option String}
    {requireAbsent : Bool} {d : Db} :
    (wrote rt key f expectedValue requireAbsent d).2 = none ↔
      Admits key expectedValue requireAbsent d := by
  unfold wrote Admits
  cases requireAbsent with
  | true => by_cases hk : key ∈ d.facts <;> simp [hk]
  | false =>
    cases expectedValue with
    | none => simp
    | some expected =>
      by_cases hv : (d.facts.lookup key).map Fact.value = some expected
      · simp [hv]
      · simp only [Bool.false_eq_true, if_false, if_neg hv, reduceCtorEq, false_iff]
        exact fun h => hv (h expected rfl)

/-- A `memory_set` takes effect where its condition holds. -/
theorem SetTo.admits_iff {key value cid : String} {expectedValue : Option String}
    {requireAbsent : Bool} {embedding : Option (List UInt8)} {t₁ t₂ : Instant} {b w : Db}
    {casFailure : Option String}
    (hs : SetTo rt key value cid expectedValue requireAbsent embedding t₁ t₂ b w casFailure) :
    casFailure = none ↔ Admits key expectedValue requireAbsent b := by
  rw [hs.1]
  exact wrote_eq_none_iff

section Tools

variable [LinearOrder S] {cfg : Config} {ctx : Context} {c : Call} {h : List (Obs Db Instant)}
  {b w : Db}

/-- What the transaction of a tool does to the embeddings. -/
theorem Own.fresh_iff (ho : Own rt cfg ctx c h b w) (hb : Fresh rt b) :
    Fresh rt w ↔ ¬Outdates rt cfg b c := by
  have hlogs : ∀ {ts cid action : String} {key value : Option String} {d : Db},
      Logged rt ts cid action key value d w → (Fresh rt w ↔ Fresh rt d) := by
    intro ts cid action key value d hl
    unfold Fresh
    rw [hl.facts, hl.embeddings]
  cases ho with
  | @memorySet key value cid claimed expectedValue requireAbsent t₁ t₂ _ _ casFailure _ _ hs =>
    rcases hs.cases with ⟨hnone, hl⟩ | ⟨failure, hfail, hl⟩
    · have hadmits := hs.admits_iff.1 hnone
      rw [hlogs hl]
      cases he : cfg.embeddingsEnabled with
      | true =>
        refine iff_of_true ?_ fun h => by simp [Outdates, he] at h
        rw [embeddingOf, if_pos he]
        exact hb.insert_insert key _
      | false =>
        rw [embeddingOf, if_neg (by simp [he])]
        refine (hb.insert_iff key _).trans ?_
        simp [Outdates, he, hadmits]
    · refine (hlogs hl).trans (iff_of_true hb ?_)
      rintro ⟨-, hadmits, -⟩
      rw [hs.admits_iff.2 hadmits] at hfail
      cases hfail
  | memoryGet _ _ _ hl => exact (hlogs hl).trans (iff_of_true hb id)
  | memorySearch _ _ _ hl => exact (hlogs hl).trans (iff_of_true hb id)
  | memoryDelete _ _ hl => exact (hlogs hl).trans (iff_of_true (hb.erase_erase _) id)
  | lockHold _ _ hl => exact (hlogs hl).trans (iff_of_true hb id)

/-- What a commit does to the embeddings. -/
theorem Commits.fresh_iff (hc : Commits rt cfg ctx c h b w) (hb : Fresh rt b) :
    Fresh rt w ↔ (selectEvents w ≠ selectEvents b → ¬Outdates rt cfg b c) := by
  rcases hc with ⟨d, -, -, hm⟩ | ⟨q, h', -, -, ho⟩
  · rcases hm with ⟨-, rfl⟩ | hm
    · simp [hb]
    · refine iff_of_true ?_ fun hev => absurd hm.events.1 hev
      unfold Fresh
      rw [hm.tables.1, hm.tables.2]
      exact hb
  · rw [ho.fresh_iff hb]
    obtain ⟨r, hrows, -⟩ := ho.rows
    simp [selectEvents, hrows]

end Tools

/-! ## Search -/

theorem mem_selectJoin {d : Db} {r : SearchRow} : r ∈ selectJoin rt d ↔
    d.facts.lookup r.key = some r.fact ∧ d.embeddings.lookup r.key = some r.embedding := by
  rw [selectJoin, (rt.scan_perm _).mem_iff, List.mem_filterMap]
  constructor
  · rintro ⟨⟨key, f⟩, hf, he⟩
    obtain ⟨e, he', rfl⟩ := Option.map_eq_some_iff.1 he
    exact ⟨AList.mem_lookup_iff.2 hf, he'⟩
  · rintro ⟨hf, he⟩
    exact ⟨⟨r.key, r.fact⟩, AList.mem_lookup_iff.1 hf, by rw [he]; rfl⟩

section Search

variable [LinearOrder S]

/-- A hit is a row of the join, with its score. -/
theorem mem_hits {d : Db} {query : String} {topK : ℤ} {x : S × SearchRow}
    (hx : x ∈ hits rt query topK d) : x.2 ∈ selectJoin rt d ∧
      x.1 = rt.dot (rt.embed query) x.2.embedding := by
  have hx := List.mem_of_mem_take hx
  rw [ranked, List.mem_insertionSort] at hx
  obtain ⟨r, hr, rfl⟩ := List.mem_map.1 hx
  exact ⟨hr, rfl⟩

/-- From fresh embeddings, each hit is scored by the value that its fact has. -/
theorem Fresh.hits {d : Db} (hd : Fresh rt d) {query : String} {topK : ℤ} {x : S × SearchRow}
    (hx : x ∈ hits rt query topK d) : d.facts.lookup x.2.key = some x.2.fact ∧
      x.1 = rt.dot (rt.embed query) (rt.embed (factText x.2.key x.2.fact.value)) := by
  obtain ⟨hr, hscore⟩ := mem_hits hx
  obtain ⟨hf, he⟩ := mem_selectJoin.1 hr
  obtain ⟨f, hf', heq⟩ := hd _ _ he
  rw [hf, Option.some.injEq] at hf'
  exact ⟨hf, by rw [hscore, heq, ← hf']⟩

variable {ι : Type} [DecidableEq ι] {cfg : ι → Config} {d₀ : Db}
  {t : List (Entry ι (Context × Call) Db Instant PyExc String)}

/-- A `memory_search` answers from the store that it reads last, and then does what `Answers`
says. -/
theorem search_reply (ht : TraceOk (serversSpec rt cfg) d₀ t) {p : ι} {n : ℕ} {ctx : Context}
    {query text : String} {topK : ℤ}
    (hr : .reply p n (ctx, .memorySearch query topK) (.ok text) ∈ t) :
    ∃ t₁ t₂, t = t₁ ++ .obs p n (ctx, .memorySearch query topK) (.read (contents d₀ t₁)) :: t₂ ∧
      Opened rt (history t₁ p n) ∧ Answers rt (cfg p) ctx (.memorySearch query topK)
        (.read (contents d₀ t₁) :: history t₂ p n) (.ok text) := by
  obtain ⟨_, ⟨r', ⟨q, h', hq, rfl, hres⟩, hrr⟩, hread⟩ := ht.reply_read hr
  rcases hres with ha | ⟨-, e, -, rfl⟩
  · obtain ⟨d, rest, rfl⟩ : ∃ d rest, h' = .read d :: rest := by
      cases ha <;> exact ⟨_, _, rfl⟩
    obtain ⟨t₁, t₂, rfl, rfl, rfl, rfl⟩ := hread q d rest rfl
    have hok : r' = .ok text := by
      cases r' with
      | ok a => rw [Except.ok.inj hrr]
      | error e => cases hrr
    exact ⟨t₁, t₂, rfl, hq, hok ▸ ha⟩
  · cases hrr

end Search

/-! ## Runs -/

section Runs

variable [LinearOrder S] {ι : Type}

/-- No commit of the trace that logs an event is a write that outdates an embedding. -/
def NeverOutdated (rt : Runtime S) (cfg : ι → Config)
    (t : List (Entry ι (Context × Call) Db Instant PyExc String)) : Prop :=
  ∀ p n c b w, .obs p n c (.commit b w) ∈ t → selectEvents w ≠ selectEvents b →
    ¬Outdates rt (cfg p) b c.2

variable [DecidableEq ι] {cfg : ι → Config}
  {s₀ s : Sys ι (Context × Call) Db Instant Failure Bool PyExc String}

/-- **When embeddings never go stale.** In a run over a store that starts empty, the embeddings of
all committed states are fresh exactly if no process without embeddings commits a write over a fact
whose embedding is stored. Then whatever `memory_search` answers, it scored each fact by the value
that the fact had when the search read the store. -/
theorem embeddings_fresh_iff (h₀ : s₀.Init) (hd : s₀.db = .empty ∨ s₀.db = .opened)
    (h : Reach (servers rt cfg) s₀ s) :
    ((∀ t₁, t₁ <+: s.trace → Fresh rt (contents s₀.db t₁)) ↔ NeverOutdated rt cfg s.trace) ∧
    (NeverOutdated rt cfg s.trace → ∀ p n ctx query topK text,
      .reply p n (ctx, .memorySearch query topK) (.ok text) ∈ s.trace →
      ∃ t₁ t₂, s.trace = t₁ ++
          .obs p n (ctx, .memorySearch query topK) (.read (contents s₀.db t₁)) :: t₂ ∧
        ((selectJoin rt (contents s₀.db t₁) = [] ∧ text = "(no searchable facts stored yet)") ∨
          text = PyText.join "\n"
            ((hits rt query topK (contents s₀.db t₁)).map (searchLine rt))) ∧
        ∀ x ∈ hits rt query topK (contents s₀.db t₁),
          (contents s₀.db t₁).facts.lookup x.2.key = some x.2.fact ∧
          x.1 = rt.dot (rt.embed query) (rt.embed (factText x.2.key x.2.fact.value))) := by
  have g := Reach.good (meets cfg) h₀ h
  have hfresh₀ : Fresh rt s₀.db := by
    rcases hd with hd | hd <;> rw [hd] <;> exact Derived.empty _
  have hiff : (∀ t₁, t₁ <+: s.trace → Fresh rt (contents s₀.db t₁)) ↔
      NeverOutdated rt cfg s.trace :=
    TraceOk.always_iff (I := Fresh rt) (G := fun p (c : Context × Call) b w =>
      selectEvents w ≠ selectEvents b → ¬Outdates rt (cfg p) b c.2)
      (fun _ _ _ _ _ => Commits.fresh_iff) hfresh₀ g.trace
  refine ⟨hiff, fun hcond p n ctx query topK text hr => ?_⟩
  obtain ⟨t₁, t₂, ht, -, ha⟩ := search_reply g.trace hr
  refine ⟨t₁, t₂, ht, ?_, fun x hx => (hiff.2 hcond t₁ ⟨_, ht.symm⟩).hits hx⟩
  generalize hh : history t₂ p n = rest at ha
  cases ha with
  | memorySearch _ _ hhits _ => exact .inr (by rw [hhits])
  | memorySearchEmpty _ hempty => exact .inl ⟨hempty, rfl⟩

end Runs

/-! ## A lean process beside one that embeds -/

/-- A runtime that knows the digests of three events: alice sets the key, bob sets it again, and the
first value is searched. -/
def mixedRuntime : Runtime ℕ := .tabulated
  [("[\"mcp-memory-events-v1\"," ++
      "\"0000000000000000000000000000000000000000000000000000000000000000\"," ++
      "1,\"2026-01-01T00:00:00.000Z\",\"alice\",\"set\",\"k\",\"v\"]",
    "e18f19e17df63efbab99132989a1f719da3016b0d4fa335418bda5fb0c23212f"),
  ("[\"mcp-memory-events-v1\"," ++
      "\"e18f19e17df63efbab99132989a1f719da3016b0d4fa335418bda5fb0c23212f\"," ++
      "2,\"2026-01-01T00:00:00.000Z\",\"bob\",\"set\",\"k\",\"w\"]",
    "8d731b66c227b8f48e7b8729167d8b0800c26b66c429d7867ad79320e8c57965"),
  ("[\"mcp-memory-events-v1\"," ++
      "\"8d731b66c227b8f48e7b8729167d8b0800c26b66c429d7867ad79320e8c57965\"," ++
      "3,\"2026-01-01T00:00:00.000Z\",\"anonymous\",\"search\",\"k\"," ++
      "\"query='k: v' score=1.000\"]",
    "3190a679a487110d4c4ce334273bb0870367ed7fd1fbd4ce72e4b39983d2bf00")]

/-- Process `true` embeds, process `false` does not. -/
abbrev mixedEmbeddings : Clients Bool (Context × Call) Db Instant Failure Bool PyExc String :=
  servers mixedRuntime fun b => { Config.default with embeddingsEnabled := b }

/-- Alice sets the key on one process, then bob on the other. -/
def setTurns (first second : Bool) : List (Sys.Turn Bool (Context × Call) Instant) :=
  [⟨first, some (⟨none⟩, .memorySet "k" "v" (some "alice") none false), .newYear, 40⟩,
    ⟨second, some (⟨none⟩, .memorySet "k" "w" (some "bob") none false), .newYear, 40⟩]

/-- A search for the first value, on the process that embeds. -/
def searchTurn : Sys.Turn Bool (Context × Call) Instant :=
  ⟨true, some (⟨none⟩, .memorySearch "k: v" 3), .newYear, 40⟩

/-- A commit whose base has no embeddings. -/
def commitsOnNone : Entry Bool (Context × Call) Db Instant PyExc String → Bool
  | .obs _ _ _ (.commit b _) => b.embeddings.entries.isEmpty
  | _ => true

/-- The lean process writes first: the embedding of the second value is stored. -/
theorem embeddings_fresh_iff_sample :
    ∃ s : Sys Bool (Context × Call) Db Instant Failure Bool PyExc String,
      (s.db.facts.lookup "k").map Fact.value = some "w" ∧
      s.db.embeddings.lookup "k" = some (mixedRuntime.embed (factText "k" "w")) ∧
      ∀ t₁, t₁ <+: s.trace → Fresh mixedRuntime (contents .empty t₁) := by
  have h : (((Sys.initial .empty false).turns mixedEmbeddings (setTurns false true)).map fun s =>
      ((s.db.facts.lookup "k").map Fact.value, s.db.embeddings.lookup "k",
        s.trace.all commitsOnNone)) =
      some (some "w", some (mixedRuntime.embed (factText "k" "w")), true) := by
    decide +kernel
  obtain ⟨s, hs, hv⟩ := Option.map_eq_some_iff.1 h
  obtain ⟨hvalue, hrest⟩ := Prod.mk.inj hv
  obtain ⟨hembedding, hall⟩ := Prod.mk.inj hrest
  refine ⟨s, hvalue, hembedding, (embeddings_fresh_iff (Sys.initial_init _ _) (.inl rfl)
    (Sys.reach_of_turns (fun _ _ _ _ => trivial) hs)).1.2 ?_⟩
  rintro p n ⟨ctx, c⟩ b w hm - ho
  have hnone : b.embeddings.entries = [] := List.isEmpty_iff.1 (List.all_eq_true.1 hall _ hm)
  cases c with
  | memorySet key value claimed expectedValue requireAbsent =>
    obtain ⟨-, -, e, he, -⟩ := ho
    have hmem := AList.mem_lookup_iff.1 (Option.mem_def.2 he)
    rw [hnone] at hmem
    cases hmem
  | _ => exact ho

/-- **A stale embedding.** The process that embeds writes first: the store keeps the embedding of
the value that bob overwrote, and a search scores the new value as if it were the old one. -/
theorem embedding_stale :
    ∃ s : Sys Bool (Context × Call) Db Instant Failure Bool PyExc String,
      Reach mixedEmbeddings (.initial .empty false) s ∧
      (s.db.facts.lookup "k").map Fact.value = some "w" ∧
      s.db.embeddings.lookup "k" = some (mixedRuntime.embed (factText "k" "v")) ∧
      ¬Fresh mixedRuntime s.db ∧
      .reply true 2 (⟨none⟩, .memorySearch "k: v" 3)
        (.ok "k = w  (cosine 1.000, source: bob)") ∈ s.trace := by
  have h : (((Sys.initial .empty false).turns mixedEmbeddings
      (setTurns true false ++ [searchTurn])).map fun s =>
        ((s.db.facts.lookup "k").map Fact.value, s.db.embeddings.lookup "k",
          returned s.trace true 2 (⟨none⟩, .memorySearch "k: v" 3))) =
      some (some "w", some (mixedRuntime.embed (factText "k" "v")),
        some "k = w  (cosine 1.000, source: bob)") := by
    decide +kernel
  obtain ⟨s, hs, hv⟩ := Option.map_eq_some_iff.1 h
  obtain ⟨hvalue, hrest⟩ := Prod.mk.inj hv
  obtain ⟨hembedding, hreturned⟩ := Prod.mk.inj hrest
  refine ⟨s, Sys.reach_of_turns (fun _ _ _ _ => trivial) hs, hvalue, hembedding, fun hfresh => ?_,
    reply_mem_of_returned hreturned⟩
  obtain ⟨f, hf, he⟩ := hfresh _ _ hembedding
  rw [hf, Option.map_some, Option.some.injEq] at hvalue
  have he : mixedRuntime.embed (factText "k" "v") =
    mixedRuntime.embed (factText "k" f.value) := he
  rw [hvalue] at he
  exact absurd he (by decide +kernel)

end MemoryBridge
