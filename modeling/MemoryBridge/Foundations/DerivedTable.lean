import Mathlib.Data.List.AList

/-!
# Tables derived from a table

A second table keeps, for some of the keys of a first one, a value computed from the row of the key
there, such as an index or a cache. `Derived` says that it does, and the lemmas say which changes
keep it: two that go together, an insertion into both tables and an erasure from both, and an
insertion into the first alone exactly if the second holds nothing else for the key already
(`Derived.insert_iff`). `Mirrors` says that it does so for every key; the changes that go together
keep that too.
-/

variable {α β γ : Type}

/-- Each row of `u` is computed by `g` from the row of its key in `t`. -/
def Derived [DecidableEq α] (g : α → β → γ) (t : AList fun _ : α => β) (u : AList fun _ : α => γ) :
    Prop :=
  ∀ k e, u.lookup k = some e → ∃ v, t.lookup k = some v ∧ e = g k v

namespace Derived

variable [DecidableEq α] {g : α → β → γ} {t : AList fun _ : α => β} {u : AList fun _ : α => γ}

theorem empty (t : AList fun _ : α => β) : Derived g t ∅ := fun k e h => by
  rw [AList.lookup_empty] at h
  cases h

theorem insert_insert (h : Derived g t u) (k : α) (v : β) :
    Derived g (t.insert k v) (u.insert k (g k v)) := by
  intro k' e he
  by_cases hk : k' = k
  · subst hk
    rw [AList.lookup_insert, Option.some.injEq] at he
    exact ⟨v, AList.lookup_insert t, he.symm⟩
  · rw [AList.lookup_insert_ne hk] at he ⊢
    exact h k' e he

theorem erase_erase (h : Derived g t u) (k : α) : Derived g (t.erase k) (u.erase k) := by
  intro k' e he
  by_cases hk : k' = k
  · subst hk
    rw [AList.lookup_erase] at he
    cases he
  · rw [AList.lookup_erase_ne hk] at he ⊢
    exact h k' e he

/-- Inserting into the first table alone. -/
theorem insert_iff (h : Derived g t u) (k : α) (v : β) :
    Derived g (t.insert k v) u ↔ ∀ e, u.lookup k = some e → e = g k v := by
  constructor
  · intro h' e he
    obtain ⟨v', hv, heq⟩ := h' k e he
    rw [AList.lookup_insert, Option.some.injEq] at hv
    rw [heq, hv]
  · intro hk k' e he
    by_cases hkk : k' = k
    · subst hkk
      exact ⟨v, AList.lookup_insert t, hk e he⟩
    · rw [AList.lookup_insert_ne hkk]
      exact h k' e he

end Derived

/-- `u` holds what `g` computes for every key of `t`, and nothing else. -/
def Mirrors [DecidableEq α] (g : α → β → γ) (t : AList fun _ : α => β) (u : AList fun _ : α => γ) :
    Prop :=
  ∀ k, u.lookup k = (t.lookup k).map (g k)

namespace Mirrors

variable [DecidableEq α] {g : α → β → γ} {t : AList fun _ : α => β} {u : AList fun _ : α => γ}

theorem empty (g : α → β → γ) : Mirrors g (∅ : AList fun _ : α => β) ∅ := fun k => by
  rw [AList.lookup_empty, AList.lookup_empty]
  rfl

theorem derived (h : Mirrors g t u) : Derived g t u := fun k e he => by
  rw [h k] at he
  obtain ⟨v, hv, rfl⟩ := Option.map_eq_some_iff.1 he
  exact ⟨v, hv, rfl⟩

theorem mem (h : Mirrors g t u) {k : α} (hk : k ∈ t) : k ∈ u := by
  rw [← AList.lookup_isSome] at hk ⊢
  rw [h k, Option.isSome_map]
  exact hk

theorem insert_insert (h : Mirrors g t u) (k : α) (v : β) :
    Mirrors g (t.insert k v) (u.insert k (g k v)) := by
  intro k'
  by_cases hk : k' = k
  · subst hk
    rw [AList.lookup_insert, AList.lookup_insert]
    rfl
  · rw [AList.lookup_insert_ne hk, AList.lookup_insert_ne hk]
    exact h k'

theorem erase_erase (h : Mirrors g t u) (k : α) : Mirrors g (t.erase k) (u.erase k) := by
  intro k'
  by_cases hk : k' = k
  · subst hk
    rw [AList.lookup_erase, AList.lookup_erase]
    rfl
  · rw [AList.lookup_erase_ne hk, AList.lookup_erase_ne hk]
    exact h k'

end Mirrors
