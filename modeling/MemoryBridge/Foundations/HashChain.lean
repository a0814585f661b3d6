import Mathlib.Data.List.Induction
import Mathlib.Tactic.Common

/-!
# Hash chains

A hash chain is a list of links, each with an event, the hash of its predecessor (the genesis value
`g` for the first) and its own hash, which digests both. Where the digest has no collision on what
the chains at hand digest and does not yield `g` there, the last hash determines the whole chain
(`eq_of_head_eq`), a chain built only from hashes that occur in another one is a prefix of it
(`prefix_of_hash_mem`), and so is one whose last hash occurs there (`prefix_iff_head_mem`).
-/

namespace HashChain

variable {E H : Type*}

/-- An event with its two hashes. -/
structure Link (E H : Type*) where
  event : E
  prev : H
  hash : H

variable (d : H → E → H)

/-- The links form a chain that starts after the hash `p`. -/
def Chained : H → List (Link E H) → Prop
  | _, [] => True
  | p, l :: ls => l.prev = p ∧ l.hash = d p l.event ∧ Chained l.hash ls

/-- The last hash, `p` if there is no link. -/
def head (p : H) (ls : List (Link E H)) : H := ls.foldl (fun _ l => l.hash) p

variable {d} {p g : H} {l : Link E H} {ls ls' : List (Link E H)}

@[simp] theorem head_nil : head p ([] : List (Link E H)) = p := rfl

@[simp] theorem head_cons : head p (l :: ls) = head l.hash ls := rfl

@[simp] theorem head_append_singleton : head p (ls ++ [l]) = l.hash := by
  simp [head]

@[simp] theorem chained_nil : Chained d p [] := trivial

theorem chained_append :
    Chained d p (ls ++ ls') ↔ Chained d p ls ∧ Chained d (head p ls) ls' := by
  induction ls generalizing p with
  | nil => simp
  | cons l ls ih => simp only [List.cons_append, Chained, ih, head_cons, and_assoc]

theorem chained_append_singleton :
    Chained d p (ls ++ [l]) ↔
      Chained d p ls ∧ l.prev = head p ls ∧ l.hash = d (head p ls) l.event := by
  rw [chained_append]
  simp [Chained]

/-- What the links digest. -/
def inputs (ls : List (Link E H)) : List (H × E) := ls.map fun l => (l.prev, l.event)

/-- The digest has no collision on the inputs `S` and does not yield `g` on them. -/
structure CollisionFree (d : H → E → H) (g : H) (S : List (H × E)) : Prop where
  inj : ∀ x ∈ S, ∀ y ∈ S, d x.1 x.2 = d y.1 y.2 → x = y
  ne : ∀ x ∈ S, d x.1 x.2 ≠ g

theorem CollisionFree.mono {S S' : List (H × E)} (h : CollisionFree d g S) (hS : S' ⊆ S) :
    CollisionFree d g S' :=
  ⟨fun x hx y hy => h.inj x (hS hx) y (hS hy), fun x hx => h.ne x (hS hx)⟩

/-- In a chain every hash is the digest of what its link digests. -/
theorem Chained.hash_eq (h : Chained d p ls) (hl : l ∈ ls) : l.hash = d l.prev l.event := by
  induction ls generalizing p with
  | nil => cases hl
  | cons m ms ih =>
    obtain ⟨rfl, hh, ht⟩ := h
    rcases List.mem_cons.1 hl with rfl | hl
    · exact hh
    · exact ih ht hl

/-- **The last hash determines the chain.** -/
theorem eq_of_head_eq (hc : CollisionFree d g (inputs ls ++ inputs ls')) (h : Chained d g ls)
    (h' : Chained d g ls') (hh : head g ls = head g ls') : ls = ls' := by
  induction ls using List.reverseRecOn generalizing ls' with
  | nil =>
    rcases List.eq_nil_or_concat ls' with rfl | ⟨ms, m, rfl⟩
    · rfl
    · -- a chain with a link does not end in the genesis value
      rw [List.concat_eq_append] at hc h' hh
      have hm := h'.hash_eq (l := m) (by simp)
      rw [head_nil, head_append_singleton, hm] at hh
      exact absurd hh.symm (hc.ne (m.prev, m.event) (by simp [inputs]))
  | append_singleton ls l ih =>
    have hl := h.hash_eq (l := l) (by simp)
    rcases List.eq_nil_or_concat ls' with rfl | ⟨ms, m, rfl⟩
    · rw [head_nil, head_append_singleton, hl] at hh
      exact absurd hh (hc.ne (l.prev, l.event) (by simp [inputs]))
    · rw [List.concat_eq_append] at hc h' hh ⊢
      have hm := h'.hash_eq (l := m) (by simp)
      rw [head_append_singleton, head_append_singleton] at hh
      have hlm := hc.inj (l.prev, l.event) (by simp [inputs]) (m.prev, m.event)
        (by simp [inputs]) (by rw [← hl, ← hm, hh])
      obtain ⟨hprev, hevent⟩ := Prod.mk.inj hlm
      obtain ⟨h₁, hp, -⟩ := chained_append_singleton.1 h
      obtain ⟨h₁', hp', -⟩ := chained_append_singleton.1 h'
      have hpre : ls = ms := by
        refine ih (hc.mono fun x hx => ?_) h₁ h₁' (by rw [← hp, ← hp', hprev])
        simp only [inputs, List.map_append, List.mem_append] at hx ⊢
        tauto
      have hlink : l = m := by
        cases l
        cases m
        simp_all
      rw [hpre, hlink]

/-- **A chain whose hashes all occur in another one is a prefix of it.** -/
theorem prefix_of_hash_mem (hc : CollisionFree d g (inputs ls ++ inputs ls'))
    (h : Chained d g ls) (h' : Chained d g ls')
    (hm : ∀ l' ∈ ls', ∃ l ∈ ls, l.hash = l'.hash) : ls' <+: ls := by
  induction ls' using List.reverseRecOn with
  | nil => exact List.nil_prefix
  | append_singleton ls' l' ih =>
    obtain ⟨h₁, hp', -⟩ := chained_append_singleton.1 h'
    -- `l'` is a link of `ls`
    obtain ⟨l, hl, hh⟩ := hm l' (by simp)
    have hlink : l = l' := by
      have he := hc.inj (l.prev, l.event) (List.mem_append_left _ (List.mem_map_of_mem hl))
        (l'.prev, l'.event) (by simp [inputs])
        (by rw [← h.hash_eq hl, ← h'.hash_eq (l := l') (by simp), hh])
      obtain ⟨hprev, hevent⟩ := Prod.mk.inj he
      cases l
      cases l'
      simp_all
    subst hlink
    -- and what stands before it there has the same head as what stands before it here
    obtain ⟨a, b, rfl⟩ := List.append_of_mem hl
    obtain ⟨ha, hp, -⟩ := chained_append.1 h
    have hab : a = ls' := by
      refine eq_of_head_eq (hc.mono fun x hx => ?_) ha h₁ (hp.symm.trans hp')
      simp only [inputs, List.map_append, List.mem_append] at hx ⊢
      tauto
    subst hab
    exact ⟨b, by simp⟩

/-- **One chain goes on where another one stops if and only if it contains its last hash.** -/
theorem prefix_iff_head_mem (hc : CollisionFree d g (inputs ls ++ inputs ls')) (h : Chained d g ls)
    (h' : Chained d g ls') : ls <+: ls' ↔ ls = [] ∨ ∃ l' ∈ ls', l'.hash = head g ls := by
  constructor
  · rintro ⟨t, rfl⟩
    rcases List.eq_nil_or_concat ls with rfl | ⟨ms, m, rfl⟩
    · exact .inl rfl
    · exact .inr ⟨m, by simp, by simp⟩
  · rintro (rfl | ⟨l', hl', hh⟩)
    · exact List.nil_prefix
    · obtain ⟨a, b, rfl⟩ := List.append_of_mem hl'
      have hsplit : a ++ l' :: b = (a ++ [l']) ++ b := by simp
      rw [hsplit] at hc h' ⊢
      have ha := (chained_append.1 h').1
      have heq : ls = a ++ [l'] := by
        refine eq_of_head_eq (hc.mono fun x hx => ?_) h ha (by rw [head_append_singleton, hh])
        simp only [inputs, List.map_append, List.mem_append] at hx ⊢
        tauto
      rw [heq]
      exact List.prefix_append _ _

end HashChain
