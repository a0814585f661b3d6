import Mathlib.Data.List.Sort

/-!
# The best of a list

A list is ranked by a score: sorted, best first, and cut. `Best` says what the result is without
saying how it was found: as many elements as asked for, if there are so many, in nonincreasing
score, and no element that was left out has a higher score than one that was not. `Best.map` and
`Best.perm` carry it to a list of other elements and to another order, as of the rows of a table and
of the records they stand for.
-/

namespace Ranking

variable {α β S : Type} [LinearOrder S]

/-- The elements with their scores, best first; those of one score stay in their order. -/
def ranking (score : α → S) (l : List α) : List (S × α) :=
  (l.map fun a => (score a, a)).insertionSort fun x y => y.1 ≤ x.1

/-- `top` holds the best `k` elements of `l`, or all, with their scores. -/
structure Best (score : α → S) (l : List α) (k : ℕ) (top : List (S × α)) : Prop where
  length : top.length = min l.length k
  subperm : (top.map Prod.snd).Subperm l
  scored : ∀ x ∈ top, x.1 = score x.2
  sorted : top.Pairwise fun x y => y.1 ≤ x.1
  rest : ∀ a ∈ l, a ∉ top.map Prod.snd → ∀ x ∈ top, score a ≤ x.1

variable {score : α → S} {l : List α}

theorem ranking_perm (score : α → S) (l : List α) :
    (ranking score l).Perm (l.map fun a => (score a, a)) :=
  List.perm_insertionSort _ _

theorem mem_ranking {x : S × α} : x ∈ ranking score l ↔ x.2 ∈ l ∧ x.1 = score x.2 := by
  rw [(ranking_perm score l).mem_iff, List.mem_map]
  constructor
  · rintro ⟨a, ha, rfl⟩
    exact ⟨ha, rfl⟩
  · rintro ⟨ha, hs⟩
    exact ⟨x.2, ha, by rw [← hs]⟩

theorem ranking_sorted (score : α → S) (l : List α) :
    (ranking score l).Pairwise fun x y => y.1 ≤ x.1 := by
  have : Std.Total fun x y : S × α => y.1 ≤ x.1 := ⟨fun x y => le_total y.1 x.1⟩
  have : IsTrans (S × α) fun x y => y.1 ≤ x.1 := ⟨fun _ _ _ h h' => h'.trans h⟩
  exact List.pairwise_insertionSort _ _

/-- **Sorting and cutting finds the best.** -/
theorem best_take_ranking (score : α → S) (l : List α) (k : ℕ) :
    Best score l k ((ranking score l).take k) where
  length := by
    rw [List.length_take, (ranking_perm score l).length_eq, List.length_map, Nat.min_comm]
  subperm := by
    have hperm : ((ranking score l).map Prod.snd).Perm l := by
      have := (ranking_perm score l).map Prod.snd
      rwa [List.map_map, List.map_id'' (f := Prod.snd ∘ fun a => (score a, a)) fun _ => rfl] at this
    exact ((List.take_sublist k _).map Prod.snd).subperm.trans hperm.subperm
  scored x hx := (mem_ranking.1 (List.mem_of_mem_take hx)).2
  sorted := (ranking_sorted score l).sublist (List.take_sublist k _)
  rest a ha hout x hx := by
    have hmem : (score a, a) ∈ ranking score l := mem_ranking.2 ⟨ha, rfl⟩
    rw [← List.take_append_drop k (ranking score l), List.mem_append] at hmem
    -- it was left out, so it is behind the cut
    rcases hmem with hmem | hmem
    · exact absurd (List.mem_map.2 ⟨_, hmem, rfl⟩) hout
    · exact (ranking_sorted score l).rel_of_mem_take_of_mem_drop hx hmem

namespace Best

variable {k : ℕ} {top : List (S × α)}

/-- What is best does not depend on the order of the list. -/
theorem perm (h : Best score l k top) {l' : List α} (hp : l.Perm l') : Best score l' k top where
  length := by rw [h.length, hp.length_eq]
  subperm := h.subperm.trans hp.subperm
  scored := h.scored
  sorted := h.sorted
  rest a ha := h.rest a (hp.mem_iff.2 ha)

/-- What tells the elements of the list apart tells those found apart. -/
theorem nodup_map (h : Best score l k top) {f : α → β} (hl : (l.map f).Nodup) :
    (top.map fun x => f x.2).Nodup := by
  obtain ⟨l', hp, hs⟩ := h.subperm
  have hnodup := ((hp.map f).nodup_iff).1 ((hs.map f).nodup hl)
  rwa [List.map_map] at hnodup

/-- Elements that stand for others with the same scores. -/
theorem map (h : Best score l k top) {score' : β → S} {g : α → β}
    (hg : ∀ a ∈ l, score' (g a) = score a) :
    Best score' (l.map g) k (top.map fun x => (x.1, g x.2)) where
  length := by rw [List.length_map, List.length_map, h.length]
  subperm := by
    obtain ⟨l', hp, hs⟩ := h.subperm
    refine ⟨l'.map g, ?_, hs.map g⟩
    have := hp.map g
    rwa [List.map_map] at this ⊢
  scored := by
    intro y hy
    obtain ⟨x, hx, rfl⟩ := List.mem_map.1 hy
    rw [hg x.2 (h.subperm.subset (List.mem_map_of_mem hx))]
    exact h.scored x hx
  sorted := List.pairwise_map.2 h.sorted
  rest b hb hout y hy := by
    obtain ⟨a, ha, rfl⟩ := List.mem_map.1 hb
    obtain ⟨x, hx, rfl⟩ := List.mem_map.1 hy
    rw [hg a ha]
    refine h.rest a ha (fun hm => hout ?_) x hx
    obtain ⟨z, hz, rfl⟩ := List.mem_map.1 hm
    exact List.mem_map.2 ⟨_, List.mem_map_of_mem hz, rfl⟩

end Best

end Ranking
