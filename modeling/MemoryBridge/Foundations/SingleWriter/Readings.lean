import MemoryBridge.Foundations.SingleWriter.Soundness

/-!
# Clock readings and their places in a trace

All clients read one clock, each reading is an entry of the trace. What has the time of a reading
may be committed much later, after commits of others. The lemmas find the first and the last reading
of a call in the trace (`reading_first`, `reading_last`), and show that nothing is committed between
the last lock that a call takes and its commit (`TraceOk.locked`).
-/

namespace SingleWriter

variable {ι κ σ τ ε μ ξ α : Type}

/-- The clock reading that an observation is. -/
def Obs.reading : Obs σ τ → Option τ
  | .clock x => some x
  | _ => none

/-- The clock readings of a call, in order. -/
def readings (h : List (Obs σ τ)) : List τ := h.filterMap Obs.reading

@[simp] theorem readings_nil : readings ([] : List (Obs σ τ)) = [] := rfl

@[simp] theorem readings_append (h h' : List (Obs σ τ)) :
    readings (h ++ h') = readings h ++ readings h' := List.filterMap_append

/-- The clock readings of all clients, in the order of the trace. -/
def clockReadings (t : List (Entry ι κ σ τ ξ α)) : List τ :=
  t.filterMap fun
    | .obs _ _ _ (.clock x) => some x
    | _ => none

theorem clockReadings_append (t t' : List (Entry ι κ σ τ ξ α)) :
    clockReadings (t ++ t') = clockReadings t ++ clockReadings t' := List.filterMap_append

theorem mem_clockReadings {t : List (Entry ι κ σ τ ξ α)} {x : τ} :
    x ∈ clockReadings t ↔ ∃ p n c, .obs p n c (.clock x) ∈ t := by
  simp only [clockReadings, List.mem_filterMap]
  constructor
  · rintro ⟨e, he, hx⟩
    split at hx
    case h_1 p n c x' =>
      obtain rfl := Option.some.inj hx
      exact ⟨p, n, c, he⟩
    case h_2 => cases hx
  · rintro ⟨p, n, c, he⟩
    exact ⟨_, he, rfl⟩

/-- Some entry of the trace has the property, after the entries before it. -/
def Somewhere (P : List (Entry ι κ σ τ ξ α) → Entry ι κ σ τ ξ α → Prop)
    (t : List (Entry ι κ σ τ ξ α)) : Prop :=
  ∃ t₁ e t₂, t = t₁ ++ e :: t₂ ∧ P t₁ e

theorem somewhere_snoc {P : List (Entry ι κ σ τ ξ α) → Entry ι κ σ τ ξ α → Prop}
    {t : List (Entry ι κ σ τ ξ α)} {e : Entry ι κ σ τ ξ α} :
    Somewhere P (t ++ [e]) ↔ Somewhere P t ∨ P t e := by
  constructor
  · rintro ⟨t₁, e', t₂, ht, hP⟩
    rcases List.eq_nil_or_concat t₂ with rfl | ⟨t₂, e₂, rfl⟩
    · obtain ⟨rfl, he⟩ := List.append_inj' ht rfl
      obtain rfl := (List.cons.inj he).1
      exact .inr hP
    · rw [List.concat_eq_append, ← List.cons_append, ← List.append_assoc] at ht
      exact .inl ⟨t₁, e', t₂, (List.append_inj' ht rfl).1, hP⟩
  · rintro (⟨t₁, e', t₂, rfl, hP⟩ | hP)
    · exact ⟨t₁, e', t₂ ++ [e], by simp, hP⟩
    · exact ⟨t, e, [], rfl, hP⟩

variable [DecidableEq ι] {t : List (Entry ι κ σ τ ξ α)} {p : ι} {n : ℕ} {x : τ}

/-- Where a call reads the clock. -/
theorem readings_eq_append_cons {l l' : List τ} (h : readings (history t p n) = l ++ x :: l') :
    ∃ t₁ c t₂, t = t₁ ++ .obs p n c (.clock x) :: t₂ ∧ readings (history t₁ p n) = l ∧
      readings (history t₂ p n) = l' := by
  obtain ⟨h₁, h', hh, rfl, h''⟩ := List.filterMap_eq_append_iff.1 h
  obtain ⟨h₂, o, h₃, rfl, hnone, ho, rfl⟩ := List.filterMap_eq_cons_iff.1 h''
  have ho : o = .clock x := by
    cases o with
    | clock y => rw [Option.some.inj ho]
    | _ => cases ho
  subst ho
  rw [← List.append_assoc] at hh
  obtain ⟨t₁, c, t₂, rfl, ht₁, ht₂⟩ := history_eq_append_cons hh
  refine ⟨t₁, c, t₂, rfl, ?_, by rw [ht₂]; rfl⟩
  have h₂ : readings h₂ = [] := List.filterMap_eq_nil_iff.2 hnone
  rw [ht₁, readings_append, h₂, List.append_nil]
  rfl

/-- The first clock reading of a call. -/
theorem reading_first : (readings (history t p n)).head? = some x ↔
    ∃ t₁ c t₂, t = t₁ ++ .obs p n c (.clock x) :: t₂ ∧ readings (history t₁ p n) = [] := by
  constructor
  · intro h
    obtain ⟨l, hl⟩ := List.head?_eq_some_iff.1 h
    obtain ⟨t₁, c, t₂, ht, h₁, -⟩ := readings_eq_append_cons (l := []) hl
    exact ⟨t₁, c, t₂, ht, h₁⟩
  · rintro ⟨t₁, c, t₂, rfl, h₁⟩
    rw [← List.singleton_append, history_append, history_append, readings_append, readings_append,
      h₁]
    simp [history, readings, Obs.reading]

/-- The last clock reading of a call. -/
theorem reading_last : (readings (history t p n)).getLast? = some x ↔
    ∃ t₁ c t₂, t = t₁ ++ .obs p n c (.clock x) :: t₂ ∧ readings (history t₂ p n) = [] := by
  constructor
  · intro h
    obtain ⟨l, hl⟩ := List.getLast?_eq_some_iff.1 h
    obtain ⟨t₁, c, t₂, ht, -, h₂⟩ := readings_eq_append_cons hl
    exact ⟨t₁, c, t₂, ht, h₂⟩
  · rintro ⟨t₁, c, t₂, rfl, h₂⟩
    rw [← List.singleton_append, history_append, history_append, readings_append, readings_append,
      h₂]
    simp [history, readings, Obs.reading]

theorem mem_clockReadings_of_history (h : x ∈ readings (history t p n)) : x ∈ clockReadings t := by
  obtain ⟨l, l', hl⟩ := List.append_of_mem h
  obtain ⟨t₁, c, t₂, rfl, -⟩ := readings_eq_append_cons hl
  exact mem_clockReadings.2 ⟨p, n, c, by simp⟩

/-- Nothing is committed between the last lock of a call and its commit. -/
theorem TraceOk.locked {S : Spec ι κ σ τ ξ α} {d₀ : σ} {c : κ} {b w d : σ}
    (h : TraceOk S d₀ (t ++ [.obs p n c (.commit b w)])) {h₁ h₂ : List (Obs σ τ)}
    (hh : history t p n = h₁ ++ .lock d :: h₂) (hlast : ∀ d', .lock d' ∉ h₂) :
    ∃ t₁ c' t₂, t = t₁ ++ .obs p n c' (.lock d) :: t₂ ∧ history t₁ p n = h₁ ∧
      history t₂ p n = h₂ ∧ NoCommit t₂ := by
  obtain ⟨t₁, c', t₂, rfl, hh₁, hh₂⟩ := history_eq_append_cons hh
  refine ⟨t₁, c', t₂, rfl, hh₁, hh₂, ?_⟩
  obtain ⟨-, -, u, v, huv, hno⟩ := h.last.seen
  rcases List.append_eq_append_iff.1 huv with ⟨a, rfl, ha⟩ | ⟨a, rfl, ha⟩
  · -- the lock with which the transaction of the commit began does not come later
    cases a with
    | nil =>
      obtain ⟨-, rfl⟩ := List.cons.inj ha
      exact hno
    | cons e a =>
      obtain ⟨-, rfl⟩ := List.cons.inj ha
      refine absurd ?_ (hlast b)
      rw [← hh₂]
      exact mem_history.2 ⟨c, List.mem_append_right a (List.mem_cons_self ..)⟩
  · cases a with
    | nil =>
      obtain ⟨-, rfl⟩ := List.cons.inj ha
      exact hno
    | cons e a =>
      obtain ⟨-, rfl⟩ := List.cons.inj ha
      exact fun e he => hno e (by simp [he])

end SingleWriter
