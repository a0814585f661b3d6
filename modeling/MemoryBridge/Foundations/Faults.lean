import Mathlib.Init

/-!
# Programs whose steps may fail

A step of a program either goes, or its environment makes it fail, or the process dies in it. What
an interrupted step leaves behind is the step's own business: it depends on the damage that the
environment chooses. A program that has died runs nothing more, not even its cleanup.

`wpAmong` is the weakest precondition over the fates of the steps that a condition allows, and `wp`
the one over all fates. Their rules are one for each way to build a program.
-/

namespace Faults

/-- What the environment does at a step. -/
inductive Fate (ε δ : Type)
  | go
  | fail (e : ε) (damage : δ)
  | crash (damage : δ)

inductive Outcome (ε α : Type)
  | ok (a : α)
  | raised (e : ε)
  | crashed

/-- A program over states `σ`, run with the fates of its steps. Past the end of the fates every step
goes. The fates that were not used are returned. -/
def Faulty (σ ε δ α : Type) : Type :=
  List (Fate ε δ) → σ → Outcome ε α × σ × List (Fate ε δ)

variable {σ ε δ α β : Type}

namespace Faulty

def ret (a : α) : Faulty σ ε δ α := fun fates s => (.ok a, s, fates)

def bind (m : Faulty σ ε δ α) (f : α → Faulty σ ε δ β) : Faulty σ ε δ β := fun fates s =>
  match m fates s with
  | (.ok a, s', rest) => f a rest s'
  | (.raised e, s', rest) => (.raised e, s', rest)
  | (.crashed, s', rest) => (.crashed, s', rest)

instance : Monad (Faulty σ ε δ) where
  pure := ret
  bind := bind

def raise (e : ε) : Faulty σ ε δ α := fun fates s => (.raised e, s, fates)

def ofExcept : Except ε α → Faulty σ ε δ α
  | .ok a => ret a
  | .error e => raise e

/-- A look at the state that cannot fail. -/
def look (f : σ → α) : Faulty σ ε δ α := fun fates s => (.ok (f s), s, fates)

/-- A step. Interrupted, it leaves what `torn` says. -/
def step (run : σ → Except ε (α × σ)) (torn : δ → σ → σ) : Faulty σ ε δ α := fun fates s =>
  match fates with
  | .fail e d :: rest => (.raised e, torn d s, rest)
  | .crash d :: rest => (.crashed, torn d s, rest)
  | [] | .go :: _ =>
    match run s with
    | .ok (a, s') => (.ok a, s', fates.tail)
    | .error e => (.raised e, s, fates.tail)

/-- A step that changes nothing. -/
def query (f : σ → Except ε α) : Faulty σ ε δ α :=
  step (fun s => (f s).map fun a => (a, s)) fun _ s => s

/-- `try: m finally: cleanup` -/
def ensuring (m : Faulty σ ε δ α) (cleanup : Faulty σ ε δ Unit) : Faulty σ ε δ α := fun fates s =>
  match m fates s with
  | (.crashed, s', rest) => (.crashed, s', rest)
  | (.ok a, s', rest) => (cleanup >>= fun _ => ret a) rest s'
  | (.raised e, s', rest) => (cleanup >>= fun _ => raise e) rest s'

/-- `try: m except handled as e: ...`, with the exception that was caught as a value. -/
def attempt (handled : ε → Bool) (m : Faulty σ ε δ α) : Faulty σ ε δ (Except ε α) := fun fates s =>
  match m fates s with
  | (.crashed, s', rest) => (.crashed, s', rest)
  | (.ok a, s', rest) => (.ok (.ok a), s', rest)
  | (.raised e, s', rest) =>
    if handled e then (.ok (.error e), s', rest) else (.raised e, s', rest)

/-! ## Weakest preconditions -/

/-- A postcondition for each of the ways in which a program ends. -/
structure Post (σ ε α : Type) where
  ok : α → σ → Prop
  raised : ε → σ → Prop
  crashed : σ → Prop

def Post.Holds (Q : Post σ ε α) : Outcome ε α → σ → Prop
  | .ok a, s => Q.ok a s
  | .raised e, s => Q.raised e s
  | .crashed, s => Q.crashed s

/-- If the environment chooses among the fates `A`, then `m` started in `s` ends in `Q`, and the
fates that it leaves are among `A`. -/
def wpAmong (A : Fate ε δ → Prop) (m : Faulty σ ε δ α) (s : σ) (Q : Post σ ε α) : Prop :=
  ∀ fates, (∀ f ∈ fates, A f) → Q.Holds (m fates s).1 (m fates s).2.1 ∧ ∀ f ∈ (m fates s).2.2, A f

/-- Whatever happens at its steps, `m` started in `s` ends in `Q`. -/
def wp (m : Faulty σ ε δ α) (s : σ) (Q : Post σ ε α) : Prop :=
  ∀ fates, Q.Holds (m fates s).1 (m fates s).2.1

variable {m : Faulty σ ε δ α} {s : σ} {Q : Post σ ε α}

theorem wp_iff_wpAmong : m.wp s Q ↔ m.wpAmong (fun _ => True) s Q := by
  simp [wp, wpAmong]

section Among

variable {A : Fate ε δ → Prop}

theorem wpAmong_mono {Q' : Post σ ε α} (h : m.wpAmong A s Q) (hok : ∀ a s, Q.ok a s → Q'.ok a s)
    (hraised : ∀ e s, Q.raised e s → Q'.raised e s) (hcrashed : ∀ s, Q.crashed s → Q'.crashed s) :
    m.wpAmong A s Q' := by
  intro fates hA
  refine (h fates hA).imp_left ?_
  cases (m fates s).1 with
  | ok a => exact hok a _
  | raised e => exact hraised e _
  | crashed => exact hcrashed _

theorem wpAmong_pure {a : α} (h : Q.ok a s) : (pure a : Faulty σ ε δ α).wpAmong A s Q :=
  fun _ hA => ⟨h, hA⟩

theorem wpAmong_raise {e : ε} (h : Q.raised e s) : (raise e : Faulty σ ε δ α).wpAmong A s Q :=
  fun _ hA => ⟨h, hA⟩

theorem wpAmong_look {f : σ → α} (h : Q.ok (f s) s) : (look f : Faulty σ ε δ α).wpAmong A s Q :=
  fun _ hA => ⟨h, hA⟩

theorem wpAmong_bind {f : α → Faulty σ ε δ β} {Q : Post σ ε β}
    (h : m.wpAmong A s ⟨fun a s' => (f a).wpAmong A s' Q, Q.raised, Q.crashed⟩) :
    (m >>= f).wpAmong A s Q := by
  intro fates hA
  have := h fates hA
  revert this
  show _ → Q.Holds (bind m f fates s).1 (bind m f fates s).2.1 ∧ ∀ f' ∈ (bind m f fates s).2.2, A f'
  rw [bind]
  rcases m fates s with ⟨a | e | _, s', rest⟩ <;> intro h
  · exact h.1 rest h.2
  · exact h
  · exact h

theorem wpAmong_step {run : σ → Except ε (α × σ)} {torn : δ → σ → σ}
    (hok : ∀ a s', run s = .ok (a, s') → Q.ok a s')
    (herror : ∀ e, run s = .error e → Q.raised e s)
    (hfail : ∀ e d, A (.fail e d) → Q.raised e (torn d s))
    (hcrash : ∀ d, A (.crash d) → Q.crashed (torn d s)) :
    (step run torn).wpAmong A s Q := by
  intro fates hA
  have htail : ∀ f ∈ fates.tail, A f := fun f hf => hA f (List.mem_of_mem_tail hf)
  have hrun : ∀ out : Outcome ε α × σ × List (Fate ε δ),
      out = (match run s with
        | .ok (a, s') => (.ok a, s', fates.tail)
        | .error e => (.raised e, s, fates.tail)) →
      Q.Holds out.1 out.2.1 ∧ ∀ f ∈ out.2.2, A f := by
    rintro out rfl
    cases hr : run s with
    | ok r => exact ⟨hok r.1 r.2 hr, htail⟩
    | error e => exact ⟨herror e hr, htail⟩
  rcases fates with _ | ⟨_ | ⟨e, d⟩ | ⟨d⟩, rest⟩
  · exact hrun _ rfl
  · exact hrun _ rfl
  · exact ⟨hfail e d (hA _ (.head _)), fun f hf => hA f (.tail _ hf)⟩
  · exact ⟨hcrash d (hA _ (.head _)), fun f hf => hA f (.tail _ hf)⟩

theorem wpAmong_query {f : σ → Except ε α} (hok : ∀ a, f s = .ok a → Q.ok a s)
    (herror : ∀ e, f s = .error e → Q.raised e s)
    (hfail : ∀ e d, A (.fail e d) → Q.raised e s) (hcrash : ∀ d, A (.crash d) → Q.crashed s) :
    (query f : Faulty σ ε δ α).wpAmong A s Q := by
  refine wpAmong_step (fun a s' h => ?_) (fun e h => ?_) hfail hcrash
  · cases hf : f s with
    | ok a' =>
      obtain ⟨rfl, rfl⟩ : a' = a ∧ s = s' := by simpa [hf, Except.map] using h
      exact hok _ hf
    | error e => simp [hf, Except.map] at h
  · cases hf : f s with
    | ok a => simp [hf, Except.map] at h
    | error e' =>
      obtain rfl : e' = e := by simpa [hf, Except.map] using h
      exact herror _ hf

/-- A cleanup that fails hides what came before it. -/
theorem wpAmong_ensuring {cleanup : Faulty σ ε δ Unit}
    (h : m.wpAmong A s
      { ok := fun a s' => cleanup.wpAmong A s' ⟨fun _ s'' => Q.ok a s'', Q.raised, Q.crashed⟩
        raised := fun e s' =>
          cleanup.wpAmong A s' ⟨fun _ s'' => Q.raised e s'', Q.raised, Q.crashed⟩
        crashed := Q.crashed }) :
    (m.ensuring cleanup).wpAmong A s Q := by
  intro fates hA
  have := h fates hA
  revert this
  rw [ensuring]
  rcases m fates s with ⟨a | e | _, s', rest⟩ <;> rintro ⟨h, hrest⟩
  · have hc : cleanup.wpAmong A s' ⟨fun _ s'' => Q.ok a s'', Q.raised, Q.crashed⟩ := h
    have hb : (cleanup >>= fun _ => ret a).wpAmong A s' Q := wpAmong_bind
      (wpAmong_mono hc (fun _ _ hq => wpAmong_pure hq) (fun _ _ hq => hq) fun _ hq => hq)
    exact hb rest hrest
  · have hc : cleanup.wpAmong A s' ⟨fun _ s'' => Q.raised e s'', Q.raised, Q.crashed⟩ := h
    have hb : (cleanup >>= fun _ => (raise e : Faulty σ ε δ α)).wpAmong A s' Q := wpAmong_bind
      (wpAmong_mono hc (fun _ _ hq => wpAmong_raise hq) (fun _ _ hq => hq) fun _ hq => hq)
    exact hb rest hrest
  · exact ⟨h, hrest⟩

/-- What is handled is a result; the rest is raised on. -/
theorem wpAmong_attempt {handled : ε → Bool} {Q : Post σ ε (Except ε α)}
    (h : m.wpAmong A s
      { ok := fun a s' => Q.ok (.ok a) s'
        raised := fun e s' => if handled e then Q.ok (.error e) s' else Q.raised e s'
        crashed := Q.crashed }) :
    (m.attempt handled).wpAmong A s Q := by
  intro fates hA
  have := h fates hA
  revert this
  rw [attempt]
  rcases m fates s with ⟨a | e | _, s', rest⟩ <;> rintro ⟨h, hrest⟩
  · exact ⟨h, hrest⟩
  · have h : if handled e then Q.ok (.error e) s' else Q.raised e s' := h
    simp only
    split at h
    case isTrue he =>
      rw [if_pos he]
      exact ⟨h, hrest⟩
    case isFalse he =>
      rw [if_neg he]
      exact ⟨h, hrest⟩
  · exact ⟨h, hrest⟩

end Among

theorem wp_mono {Q' : Post σ ε α} (h : m.wp s Q) (hok : ∀ a s, Q.ok a s → Q'.ok a s)
    (hraised : ∀ e s, Q.raised e s → Q'.raised e s) (hcrashed : ∀ s, Q.crashed s → Q'.crashed s) :
    m.wp s Q' :=
  wp_iff_wpAmong.2 (wpAmong_mono (wp_iff_wpAmong.1 h) hok hraised hcrashed)

theorem wp_pure {a : α} (h : Q.ok a s) : (pure a : Faulty σ ε δ α).wp s Q := fun _ => h

theorem wp_raise {e : ε} (h : Q.raised e s) : (raise e : Faulty σ ε δ α).wp s Q := fun _ => h

theorem wp_bind {f : α → Faulty σ ε δ β} {Q : Post σ ε β}
    (h : m.wp s ⟨fun a s' => (f a).wp s' Q, Q.raised, Q.crashed⟩) : (m >>= f).wp s Q := by
  simp only [wp_iff_wpAmong] at h ⊢
  exact wpAmong_bind h

theorem wp_step {run : σ → Except ε (α × σ)} {torn : δ → σ → σ}
    (hok : ∀ a s', run s = .ok (a, s') → Q.ok a s')
    (herror : ∀ e, run s = .error e → Q.raised e s)
    (htorn : ∀ d, (∀ e, Q.raised e (torn d s)) ∧ Q.crashed (torn d s)) :
    (step run torn).wp s Q :=
  wp_iff_wpAmong.2 (wpAmong_step hok herror (fun e d _ => (htorn d).1 e) fun d _ => (htorn d).2)

theorem wp_query {f : σ → Except ε α} (hok : ∀ a, f s = .ok a → Q.ok a s)
    (hraised : ∀ e, Q.raised e s) (hcrashed : Q.crashed s) :
    (query f : Faulty σ ε δ α).wp s Q :=
  wp_iff_wpAmong.2
    (wpAmong_query hok (fun e _ => hraised e) (fun e _ _ => hraised e) fun _ _ => hcrashed)

/-- A cleanup that fails hides what came before it. -/
theorem wp_ensuring {cleanup : Faulty σ ε δ Unit}
    (h : m.wp s
      { ok := fun a s' => cleanup.wp s' ⟨fun _ s'' => Q.ok a s'', Q.raised, Q.crashed⟩
        raised := fun e s' => cleanup.wp s' ⟨fun _ s'' => Q.raised e s'', Q.raised, Q.crashed⟩
        crashed := Q.crashed }) :
    (m.ensuring cleanup).wp s Q := by
  simp only [wp_iff_wpAmong] at h ⊢
  exact wpAmong_ensuring h

/-! ## Where an exception comes from -/

section Inversion

variable {fates left rest : List (Fate ε δ)} {e : ε} {a : α} {s₁ s' : σ}

theorem bind_of_ok {f : α → Faulty σ ε δ β} (h : m fates s = (.ok a, s₁, left)) :
    (m >>= f) fates s = f a left s₁ := by
  show Faulty.bind m f fates s = _
  rw [Faulty.bind, h]

/-- A sequence raises in its first part or, after that, in its second. -/
theorem bind_raised {f : α → Faulty σ ε δ β} (h : (m >>= f) fates s = (.raised e, s', rest)) :
    m fates s = (.raised e, s', rest) ∨
      ∃ a s₁ left, m fates s = (.ok a, s₁, left) ∧ f a left s₁ = (.raised e, s', rest) := by
  have h : Faulty.bind m f fates s = (.raised e, s', rest) := h
  rw [Faulty.bind] at h
  rcases hm : m fates s with ⟨a | e' | _, s₁, left⟩ <;> rw [hm] at h
  · exact .inr ⟨a, s₁, left, rfl, h⟩
  · obtain ⟨rfl, rfl, rfl⟩ : e' = e ∧ s₁ = s' ∧ left = rest := by simpa using h
    exact .inl rfl
  · cases h

/-- If `try: m finally: cleanup` raises, then the cleanup has raised after a body that returned, or
the body has raised and the cleanup has ended in the state that is left. -/
theorem ensuring_raised {cleanup : Faulty σ ε δ Unit}
    (h : m.ensuring cleanup fates s = (.raised e, s', rest)) :
    (∃ a s₁ left, m fates s = (.ok a, s₁, left) ∧ cleanup left s₁ = (.raised e, s', rest)) ∨
      ∃ e' s₁ left, m fates s = (.raised e', s₁, left) ∧ (cleanup left s₁).2 = (s', rest) := by
  rw [ensuring] at h
  rcases hm : m fates s with ⟨a | e' | _, s₁, left⟩ <;> rw [hm] at h
  · rcases bind_raised h with hc | ⟨_, _, _, -, hret⟩
    · exact .inl ⟨a, s₁, left, rfl, hc⟩
    · cases hret
  · refine .inr ⟨e', s₁, left, rfl, ?_⟩
    rcases bind_raised h with hc | ⟨_, _, _, hc, hraise⟩
    · rw [hc]
    · rw [hc]
      exact congrArg Prod.snd hraise
  · cases h

end Inversion

/-! ## Programs that raise nothing themselves -/

/-- What `m` raises is what its environment has chosen. -/
structure Tame (m : Faulty σ ε δ α) : Prop where
  rest : ∀ fates s, (m fates s).2.2 <:+ fates
  raised : ∀ fates s e, (m fates s).1 = .raised e → ∃ d, .fail e d ∈ fates

theorem Tame.step {run : σ → Except ε (α × σ)} {torn : δ → σ → σ}
    (h : ∀ s, ∃ r, run s = .ok r) : (step run torn).Tame where
  rest fates s := by
    obtain ⟨r, hr⟩ := h s
    rcases fates with _ | ⟨_ | ⟨e, d⟩ | ⟨d⟩, rest⟩
    · rw [Faulty.step, hr]
      exact List.suffix_refl _
    · rw [Faulty.step, hr]
      exact List.suffix_cons _ _
    · exact List.suffix_cons _ _
    · exact List.suffix_cons _ _
  raised fates s e he := by
    obtain ⟨r, hr⟩ := h s
    rcases fates with _ | ⟨_ | ⟨e', d⟩ | ⟨d⟩, rest⟩
    · rw [Faulty.step, hr] at he
      cases he
    · rw [Faulty.step, hr] at he
      cases he
    · cases he
      exact ⟨d, .head _⟩
    · cases he

theorem Tame.bind {f : α → Faulty σ ε δ β} (hm : m.Tame) (hf : ∀ a, (f a).Tame) :
    (m >>= f).Tame where
  rest fates s := by
    have hrest := hm.rest fates s
    revert hrest
    show _ → (Faulty.bind m f fates s).2.2 <:+ fates
    rw [Faulty.bind]
    rcases m fates s with ⟨a | e | _, s', rest⟩ <;> intro hrest
    · exact ((hf a).rest rest s').trans hrest
    · exact hrest
    · exact hrest
  raised fates s e := by
    have hrest := hm.rest fates s
    have hraised := hm.raised fates s e
    revert hrest hraised
    show _ → _ → (Faulty.bind m f fates s).1 = .raised e → _
    rw [Faulty.bind]
    rcases m fates s with ⟨a | e' | _, s', rest⟩ <;> intro hrest hraised he
    · obtain ⟨d, hd⟩ := (hf a).raised rest s' e he
      exact ⟨d, hrest.subset hd⟩
    · cases he
      exact hraised rfl
    · cases he

/-! ## Runs without a fault -/

/-- If none of its first steps is interrupted, `m` returns `a` in `s'` and uses up their fates. -/
def Runs (m : Faulty σ ε δ α) (s : σ) (a : α) (s' : σ) : Prop :=
  ∃ n, ∀ fates, (∀ f ∈ fates.take n, f = .go) → m fates s = (.ok a, s', fates.drop n)

variable {a : α} {s' : σ}

theorem Runs.nil (h : m.Runs s a s') : m [] s = (.ok a, s', []) := by
  obtain ⟨n, h⟩ := h
  simpa using h []

/-- It can leave any fates to what comes after it. -/
theorem Runs.exists_fates (h : m.Runs s a s') (l : List (Fate ε δ)) :
    ∃ fates, m fates s = (.ok a, s', l) := by
  obtain ⟨n, h⟩ := h
  have hlen : (List.replicate n (Fate.go : Fate ε δ)).length = n := List.length_replicate
  have hrun := h (List.replicate n .go ++ l) (by
    rw [List.take_left' hlen]
    exact fun f hf => List.eq_of_mem_replicate hf)
  rw [List.drop_left' hlen] at hrun
  exact ⟨_, hrun⟩

/-- Fates without an interruption, part by part. -/
theorem go_take_add {fates : List (Fate ε δ)} {n k : Nat}
    (h : ∀ f ∈ fates.take (n + k), f = .go) :
    (∀ f ∈ fates.take n, f = .go) ∧ ∀ f ∈ (fates.drop n).take k, f = .go := by
  rw [List.take_add] at h
  exact ⟨fun f hf => h f (List.mem_append_left _ hf), fun f hf => h f (List.mem_append_right _ hf)⟩

theorem Runs.pure : (pure a : Faulty σ ε δ α).Runs s a s := ⟨0, fun _ _ => rfl⟩

theorem Runs.look {f : σ → α} : (look f : Faulty σ ε δ α).Runs s (f s) s := ⟨0, fun _ _ => rfl⟩

theorem Runs.bind {f : α → Faulty σ ε δ β} {b : β} {s'' : σ} (hm : m.Runs s a s')
    (hf : (f a).Runs s' b s'') : (m >>= f).Runs s b s'' := by
  obtain ⟨n, hm⟩ := hm
  obtain ⟨k, hf⟩ := hf
  refine ⟨n + k, fun fates h => ?_⟩
  obtain ⟨hhead, htail⟩ := go_take_add h
  show Faulty.bind m f fates s = _
  rw [Faulty.bind, hm fates hhead]
  simp only
  rw [hf _ htail, List.drop_drop]

/-- A program after one that runs can be given any fates. -/
theorem Runs.exists_bind {f : α → Faulty σ ε δ β} (hm : m.Runs s a s')
    (l : List (Fate ε δ)) : ∃ fates, (m >>= f) fates s = f a l s' := by
  obtain ⟨fates, hrun⟩ := hm.exists_fates l
  refine ⟨fates, ?_⟩
  show Faulty.bind m f _ s = _
  rw [Faulty.bind, hrun]

theorem Runs.step {run : σ → Except ε (α × σ)} {torn : δ → σ → σ} (h : run s = .ok (a, s')) :
    (step run torn).Runs s a s' := by
  refine ⟨1, fun fates hf => ?_⟩
  rcases fates with _ | ⟨_ | _ | _, rest⟩
  · rw [Faulty.step, h]; rfl
  · rw [Faulty.step, h]; rfl
  · cases hf _ (.head _)
  · cases hf _ (.head _)

theorem Runs.query {f : σ → Except ε α} (h : f s = .ok a) :
    (query f : Faulty σ ε δ α).Runs s a s := .step (by rw [h]; rfl)

theorem Runs.ensuring {cleanup : Faulty σ ε δ Unit} {s'' : σ} (hm : m.Runs s a s')
    (hc : cleanup.Runs s' () s'') : (m.ensuring cleanup).Runs s a s'' := by
  obtain ⟨n, hm⟩ := hm
  obtain ⟨k, hc⟩ := hc
  refine ⟨n + k, fun fates h => ?_⟩
  obtain ⟨hhead, htail⟩ := go_take_add h
  rw [Faulty.ensuring, hm fates hhead]
  simp only
  show Faulty.bind cleanup _ _ _ = _
  rw [Faulty.bind, hc _ htail]
  simp only [ret, List.drop_drop]

/-- The cleanup is interrupted after a body that returned. -/
theorem Runs.ensuring_fail {cleanup : Faulty σ ε δ Unit} {l : List (Fate ε δ)} {e : ε} {s'' : σ}
    (hm : m.Runs s a s') (hc : cleanup l s' = (.raised e, s'', [])) :
    ∃ fates, m.ensuring cleanup fates s = (.raised e, s'', []) := by
  obtain ⟨fates, hrun⟩ := hm.exists_fates l
  refine ⟨fates, ?_⟩
  rw [Faulty.ensuring, hrun]
  simp only
  show Faulty.bind cleanup _ _ _ = _
  rw [Faulty.bind, hc]

end Faulty

end Faults
