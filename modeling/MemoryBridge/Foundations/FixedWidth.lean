import Mathlib.Algebra.Order.Ring.Nat
import Mathlib.Data.Char
import Mathlib.Data.List.Lex
import Mathlib.Tactic.Positivity

/-!
# Numbers of fixed width

A number that is written with a fixed count of decimal digits sorts, as a text, like the number
itself (`digits_lt`). So does a row of such numbers and fixed separators, from its first field on
(`digits_append_le`), also where its end is cut off (`take_le_take`).
-/

namespace FixedWidth

/-- The last `k` decimal digits of `n`. -/
def digits : ℕ → ℕ → List Char
  | 0, _ => []
  | k + 1, n => digits k (n / 10) ++ [(n % 10).digitChar]

@[simp] theorem length_digits (k n : ℕ) : (digits k n).length = k := by
  induction k generalizing n with
  | zero => rfl
  | succ k ih => simp [digits, ih]

/-- The digits of a number, filled with zeros. -/
theorem replicate_append_toDigits {k n : ℕ} (hn : n < 10 ^ (k + 1)) :
    List.replicate (k + 1 - (Nat.toDigits 10 n).length) '0' ++ Nat.toDigits 10 n =
      digits (k + 1) n := by
  induction k generalizing n with
  | zero =>
    have hn : n < 10 := by simpa using hn
    simp [Nat.toDigits_of_lt_base hn, digits, Nat.mod_eq_of_lt hn]
  | succ k ih =>
    rcases Nat.lt_or_ge n 10 with hs | hs
    · have hzero := ih (n := 0) (by positivity)
      rw [Nat.toDigits_zero, List.length_singleton] at hzero
      rw [digits, Nat.toDigits_of_lt_base hs, Nat.mod_eq_of_lt hs, Nat.div_eq_of_lt hs, ← hzero,
        List.length_singleton, ← List.replicate_succ']
      simp
    · have hq : n / 10 < 10 ^ (k + 1) := by
        rw [Nat.div_lt_iff_lt_mul (by decide), ← pow_succ]
        exact hn
      rw [digits, ← ih hq, Nat.toDigits_of_base_le (by decide) hs, List.length_append,
        List.length_singleton, Nat.add_sub_add_right, List.append_assoc]

/-! ## Order -/

variable {α : Type} [LinearOrder α]

/-- Rows sort by their first field, then by the others. -/
theorem cons_le_cons_iff {c c' : α} {a b : List α} :
    c :: a ≤ c' :: b ↔ c < c' ∨ c = c' ∧ a ≤ b := by
  have hab : a ≤ b ↔ ¬b < a := not_lt.symm
  rw [← not_lt, List.cons_lt_cons_iff, hab]
  rcases lt_trichotomy c c' with h | rfl | h
  · simp [h, h.not_gt, h.ne']
  · simp
  · simp [h, h.not_gt, h.ne']

/-- Texts of one length that differ keep their order, whatever follows them. -/
theorem append_lt_append {a b : List α} (hl : a.length = b.length) (h : a < b) (x y : List α) :
    a ++ x < b ++ y := by
  induction a generalizing b with
  | nil =>
    obtain rfl := List.length_eq_zero_iff.1 hl.symm
    exact absurd h (List.lt_irrefl _)
  | cons c a ih =>
    cases b with
    | nil => cases hl
    | cons c' b =>
      rcases List.cons_lt_cons_iff.1 h with hc | ⟨rfl, htail⟩
      · exact List.cons_lt_cons_iff.2 (.inl hc)
      · exact List.cons_lt_cons_iff.2 (.inr ⟨rfl, ih (Nat.succ.inj hl) htail⟩)

theorem append_le_append {a b : List α} (hl : a.length = b.length) (h : a ≤ b) (x : List α) :
    a ++ x ≤ b ++ x := by
  rcases h.lt_or_eq with h | rfl
  · exact (append_lt_append hl h x x).le
  · exact le_rfl

/-- A text that sorts before another still does when both are cut off at one place. -/
theorem take_le_take {a b : List α} (h : a ≤ b) (k : ℕ) : a.take k ≤ b.take k := by
  induction k generalizing a b with
  | zero => exact le_rfl
  | succ k ih =>
    cases a with
    | nil =>
      rw [List.take_nil]
      exact not_lt.1 (List.not_lt_nil _)
    | cons c a =>
      cases b with
      | nil => exact absurd h (not_le.2 (List.nil_lt_cons c a))
      | cons c' b => exact cons_le_cons_iff.2 ((cons_le_cons_iff.1 h).imp_right (.imp_right ih))

theorem digitChar_lt {n m : ℕ} (h : n < m) (hm : m < 10) : n.digitChar < m.digitChar := by
  have key : ∀ m < 10, ∀ n < m, n.digitChar < m.digitChar := by decide
  exact key m hm n h

/-- Numbers of one width sort like their texts. -/
theorem digits_lt {k n m : ℕ} (h : n < m) (hm : m < 10 ^ k) : digits k n < digits k m := by
  induction k generalizing n m with
  | zero => omega
  | succ k ih =>
    have hq : m / 10 < 10 ^ k := by
      rw [Nat.div_lt_iff_lt_mul (by decide), ← pow_succ]
      exact hm
    rcases Nat.lt_or_ge (n / 10) (m / 10) with hlt | hge
    · exact append_lt_append (by simp) (ih hlt hq) _ _
    · have heq : n / 10 = m / 10 := by omega
      have hmod : n % 10 < m % 10 := by omega
      rw [digits, digits, heq]
      exact List.append_left_lt
        (List.cons_lt_cons_iff.2 (.inl (digitChar_lt hmod (Nat.mod_lt _ (by decide)))))

/-- A row of fields sorts by its first field, then by the others. -/
theorem digits_append_le {k n m : ℕ} {x y : List Char} (hm : m < 10 ^ k)
    (h : n < m ∨ n = m ∧ x ≤ y) : digits k n ++ x ≤ digits k m ++ y := by
  rcases h with h | ⟨rfl, h⟩
  · exact (append_lt_append (by simp) (digits_lt h hm) x y).le
  · rcases h.lt_or_eq with h | rfl
    · exact le_of_lt (List.append_left_lt h)
    · exact le_rfl

end FixedWidth
