import Mathlib.Tactic.Common

/-!
# Python text

The functions of Python's `str` that a program's messages go through: `repr`, `str.splitlines`,
`str.split`, right alignment, `in`. A `str` is a sequence of code points, here a `String`; the
functions work on its characters. Which characters beyond ASCII `repr` shows as they are depends on
the Unicode tables of the interpreter, which are a parameter (`Unicode`).
-/

namespace PyText

/-- The characters at which `str.splitlines` ends a line. -/
def isLineBreak (c : Char) : Bool :=
  c == '\n' || c == '\r' || c == '\x0b' || c == '\x0c' || c == '\x1c' || c == '\x1d' ||
    c == '\x1e' || c == '\u0085' || c == '\u2028' || c == '\u2029'

/-- The characters at which `str.split` separates words. -/
def isSpace (c : Char) : Bool :=
  c == ' ' || c == '\t' || isLineBreak c || c == '\x1f' || c == '\u00a0' || c == '\u1680' ||
    ('\u2000' ≤ c && c ≤ '\u200a') || c == '\u202f' || c == '\u205f' || c == '\u3000'

/-- `str.isprintable` of the characters beyond ASCII: the line breaks among them are control
characters or separators and are not printable. -/
structure Unicode where
  printable : Char → Bool
  lineBreak : ∀ c, isLineBreak c = true → printable c = false

/-! ## `repr` -/

/-- `k` hexadecimal digits, in lower case. -/
def hexDigits : ℕ → ℕ → List Char
  | 0, _ => []
  | k + 1, n => hexDigits k (n / 16) ++ [(n % 16).digitChar]

/-- The quote that `repr` chooses. -/
def quoteOf (s : List Char) : Char := if '\'' ∈ s ∧ '"' ∉ s then '"' else '\''

/-- One character inside the quotes `q`. -/
def reprChar (U : Unicode) (q c : Char) : List Char :=
  if c = q ∨ c = '\\' then ['\\', c]
  else if c = '\t' then ['\\', 't']
  else if c = '\n' then ['\\', 'n']
  else if c = '\r' then ['\\', 'r']
  else if c < ' ' ∨ c = '\x7f' then '\\' :: 'x' :: hexDigits 2 c.toNat
  else if c < '\x7f' then [c]
  else if U.printable c then [c]
  else if c.toNat ≤ 0xff then '\\' :: 'x' :: hexDigits 2 c.toNat
  else if c.toNat ≤ 0xffff then '\\' :: 'u' :: hexDigits 4 c.toNat
  else '\\' :: 'U' :: hexDigits 8 c.toNat

def reprChars (U : Unicode) (s : List Char) : List Char :=
  quoteOf s :: s.flatMap (reprChar U (quoteOf s)) ++ [quoteOf s]

/-- `repr(s)` -/
def repr (U : Unicode) (s : String) : String := String.ofList (reprChars U s.toList)

/-- `repr` of a string or `None`. -/
def reprOption (U : Unicode) : Option String → String
  | some s => repr U s
  | none => "None"

@[simp] theorem length_hexDigits (k n : ℕ) : (hexDigits k n).length = k := by
  induction k generalizing n with
  | zero => rfl
  | succ k ih => simp [hexDigits, ih]

theorem length_reprChar (U : Unicode) (q c : Char) :
    1 ≤ (reprChar U q c).length ∧ (reprChar U q c).length ≤ 10 := by
  unfold reprChar
  repeat' split
  all_goals simp

theorem length_flatMap_reprChar (U : Unicode) (q : Char) (s : List Char) :
    s.length ≤ (s.flatMap (reprChar U q)).length ∧
      (s.flatMap (reprChar U q)).length ≤ 10 * s.length := by
  induction s with
  | nil => simp
  | cons c s ih =>
    have := length_reprChar U q c
    simp only [List.flatMap_cons, List.length_append, List.length_cons]
    omega

/-- `repr` writes at most ten characters for each one, and two quotes. -/
theorem length_repr_le (U : Unicode) (s : String) : (repr U s).length ≤ 10 * s.length + 2 := by
  have := (length_flatMap_reprChar U (quoteOf s.toList) s.toList).2
  simp only [repr, reprChars, String.length_ofList, List.length_append, List.length_cons,
    List.length_nil, String.length_toList] at this ⊢
  omega

/-- `repr` writes at least one character for each one. -/
theorem le_length_repr (U : Unicode) (s : String) : s.length ≤ (repr U s).length := by
  have := (length_flatMap_reprChar U (quoteOf s.toList) s.toList).1
  simp only [repr, reprChars, String.length_ofList, List.length_append, List.length_cons,
    List.length_nil, String.length_toList] at this ⊢
  omega

/-- No character ends a line. -/
def Unbroken (t : List Char) : Prop := ∀ c ∈ t, isLineBreak c = false

instance (t : List Char) : Decidable (Unbroken t) := List.decidableBAll _ t

@[simp] theorem unbroken_nil : Unbroken [] := by simp [Unbroken]

@[simp] theorem unbroken_cons {c : Char} {t : List Char} :
    Unbroken (c :: t) ↔ isLineBreak c = false ∧ Unbroken t := List.forall_mem_cons

@[simp] theorem unbroken_append {t t' : List Char} :
    Unbroken (t ++ t') ↔ Unbroken t ∧ Unbroken t' := List.forall_mem_append

theorem digitChar_not_break : ∀ n < 16, isLineBreak n.digitChar = false := by decide

theorem unbroken_hexDigits (k n : ℕ) : Unbroken (hexDigits k n) := by
  induction k generalizing n with
  | zero => simp [hexDigits]
  | succ k ih =>
    rw [hexDigits, unbroken_append]
    exact ⟨ih _, by simpa using digitChar_not_break _ (Nat.mod_lt n (by decide))⟩

theorem quoteOf_not_break (s : List Char) : isLineBreak (quoteOf s) = false := by
  unfold quoteOf
  split <;> decide

/-- A character of printable ASCII ends no line. -/
theorem isLineBreak_of_ascii {c : Char} (h₁ : ' ' ≤ c) (h₂ : c < '\x7f') :
    isLineBreak c = false := by
  simp only [isLineBreak, Bool.or_eq_false_iff, beq_eq_false_iff_ne]
  refine ⟨⟨⟨⟨⟨⟨⟨⟨⟨?_, ?_⟩, ?_⟩, ?_⟩, ?_⟩, ?_⟩, ?_⟩, ?_⟩, ?_⟩, ?_⟩ <;> rintro rfl <;>
    revert h₁ h₂ <;> decide

theorem unbroken_reprChar (U : Unicode) {q : Char} (hq : isLineBreak q = false) (c : Char) :
    Unbroken (reprChar U q c) := by
  unfold reprChar
  split_ifs with h₁ h₂ h₃ h₄ h₅ h₆ h₇
  · rcases h₁ with rfl | rfl
    · simpa [hq] using (by decide : isLineBreak '\\' = false)
    · decide
  · decide
  · decide
  · decide
  · have hstart : isLineBreak '\\' = false ∧ isLineBreak 'x' = false := by decide
    simpa [unbroken_hexDigits] using hstart
  · rw [not_or] at h₅
    simpa using isLineBreak_of_ascii (Char.not_lt.1 h₅.1) h₆
  · cases hb : isLineBreak c with
    | false => simpa using hb
    | true => simp [U.lineBreak c hb] at h₇
  · have hstart : isLineBreak '\\' = false ∧ isLineBreak 'x' = false := by decide
    simpa [unbroken_hexDigits] using hstart
  · have hstart : isLineBreak '\\' = false ∧ isLineBreak 'u' = false := by decide
    simpa [unbroken_hexDigits] using hstart
  · have hstart : isLineBreak '\\' = false ∧ isLineBreak 'U' = false := by decide
    simpa [unbroken_hexDigits] using hstart

/-- `repr` writes on one line. -/
theorem unbroken_repr (U : Unicode) (s : String) : Unbroken (repr U s).toList := by
  have hq := quoteOf_not_break s.toList
  simp only [repr, String.toList_ofList, reprChars, List.cons_append, unbroken_cons,
    unbroken_append, unbroken_nil, and_true]
  refine ⟨hq, fun c hc => ?_, hq⟩
  obtain ⟨x, -, hx⟩ := List.mem_flatMap.1 hc
  exact unbroken_reprChar U hq x c hx

/-! ## Lines -/

/-- The lines of a text, `acc` being what the current line holds already, in reverse. A line break
at the very end does not begin another line. -/
def linesFrom : List Char → List Char → List (List Char)
  | acc, [] => if acc = [] then [] else [acc.reverse]
  | acc, '\r' :: '\n' :: t => acc.reverse :: linesFrom [] t
  | acc, c :: t => if isLineBreak c then acc.reverse :: linesFrom [] t else linesFrom (c :: acc) t

/-- `s.splitlines()` -/
def splitlines (t : List Char) : List (List Char) := linesFrom [] t

theorem linesFrom_cons {c : Char} {t : List Char} (h : ¬(c = '\r' ∧ ∃ t', t = '\n' :: t'))
    (acc : List Char) : linesFrom acc (c :: t) =
      if isLineBreak c then acc.reverse :: linesFrom [] t else linesFrom (c :: acc) t := by
  rw [linesFrom]
  rintro t' rfl rfl
  exact h ⟨rfl, t', rfl⟩

theorem linesFrom_newline (acc t : List Char) :
    linesFrom acc ('\n' :: t) = acc.reverse :: linesFrom [] t :=
  (linesFrom_cons (by simp) acc).trans (if_pos (by decide))

theorem linesFrom_ne_nil {acc t : List Char} (h : acc ≠ [] ∨ t ≠ []) : linesFrom acc t ≠ [] := by
  fun_induction linesFrom acc t with
  | case1 => simp at h
  | case2 => simp
  | case3 => simp
  | case4 => simp
  | case5 acc c t _ _ ih => exact ih (.inl (by simp))

/-- What follows a newline begins a line of its own. -/
theorem linesFrom_append_newline (acc a r : List Char) :
    linesFrom acc (a ++ '\n' :: r) = linesFrom acc (a ++ ['\n']) ++ linesFrom [] r := by
  fun_induction linesFrom acc a with
  | case1 => simp [linesFrom_newline, linesFrom]
  | case2 acc hacc => simp [linesFrom_newline, linesFrom]
  | case3 acc t ih => simp [linesFrom, ih]
  | case4 acc c t hne hb ih =>
    by_cases hc : c = '\r' ∧ t = []
    · obtain ⟨rfl, rfl⟩ := hc
      simp [linesFrom]
    · have hcr : ∀ r', ¬(c = '\r' ∧ ∃ t', t ++ '\n' :: r' = '\n' :: t') := by
        rintro r' ⟨rfl, t', ht'⟩
        cases t with
        | nil => exact hc ⟨rfl, rfl⟩
        | cons x t =>
          obtain ⟨rfl, -⟩ := List.cons.inj ht'
          exact hne t rfl rfl
      rw [List.cons_append, List.cons_append, linesFrom_cons (hcr r), linesFrom_cons (hcr []),
        if_pos hb, if_pos hb, ih, List.cons_append]
  | case5 acc c t hne hb ih =>
    have hcr : ∀ r', ¬(c = '\r' ∧ ∃ t', t ++ '\n' :: r' = '\n' :: t') := by
      rintro r' ⟨rfl, -⟩
      exact hb (by decide)
    rw [List.cons_append, List.cons_append, linesFrom_cons (hcr r), linesFrom_cons (hcr []),
      if_neg hb, if_neg hb, ih]

theorem splitlines_append_newline (a r : List Char) :
    splitlines (a ++ '\n' :: r) = splitlines (a ++ ['\n']) ++ splitlines r :=
  linesFrom_append_newline [] a r

/-- A line of the text so far goes on as long as no line break comes. -/
theorem linesFrom_unbroken {u : List Char} (hu : Unbroken u) (acc r : List Char) :
    linesFrom acc (u ++ r) = linesFrom (u.reverse ++ acc) r := by
  induction u generalizing acc with
  | nil => rfl
  | cons c u ih =>
    obtain ⟨hc, hu⟩ := unbroken_cons.1 hu
    have hcr : ¬(c = '\r' ∧ ∃ t', u ++ r = '\n' :: t') := by
      rintro ⟨rfl, -⟩
      exact absurd hc (by decide)
    rw [List.cons_append, linesFrom_cons hcr, if_neg (by simp [hc]), ih hu]
    simp

/-- What may end a line: nothing, at the end of a text, or a line break. -/
def Terminator (e : List Char) : Prop :=
  e = [] ∨ (∃ c, isLineBreak c = true ∧ e = [c]) ∨ e = ['\r', '\n']

/-- The text is one line. -/
def OneLine (t : List Char) : Prop := ∃ u e, t = u ++ e ∧ Unbroken u ∧ Terminator e

theorem OneLine.of_unbroken {t : List Char} (h : Unbroken t) : OneLine t :=
  ⟨t, [], by simp, h, .inl rfl⟩

theorem OneLine.of_unbroken_newline {t : List Char} (h : Unbroken t) : OneLine (t ++ ['\n']) :=
  ⟨t, ['\n'], rfl, h, .inr (.inl ⟨_, by decide, rfl⟩)⟩

theorem splitlines_terminated {u e : List Char} (hu : Unbroken u) (he : Terminator e)
    (hne : u ++ e ≠ []) : splitlines (u ++ e) = [u] := by
  rw [splitlines, linesFrom_unbroken hu]
  rcases he with rfl | ⟨c, hc, rfl⟩ | rfl
  · have : u ≠ [] := by simpa using hne
    simp [linesFrom, this]
  · rw [linesFrom_cons (by simp), if_pos hc]
    simp [linesFrom]
  · simp [linesFrom]

/-- A text is unbroken, or has a first line break. -/
theorem unbroken_or_exists_break (t : List Char) :
    Unbroken t ∨ ∃ u c r, t = u ++ c :: r ∧ Unbroken u ∧ isLineBreak c = true := by
  induction t with
  | nil => exact .inl (by simp)
  | cons c t ih =>
    cases hc : isLineBreak c with
    | true => exact .inr ⟨[], c, t, rfl, by simp, hc⟩
    | false =>
      rcases ih with h | ⟨u, c', r, rfl, hu, hc'⟩
      · exact .inl (unbroken_cons.2 ⟨hc, h⟩)
      · exact .inr ⟨c :: u, c', r, rfl, unbroken_cons.2 ⟨hc, hu⟩, hc'⟩

/-- `str.splitlines` finds one line exactly in a text that is one. -/
theorem splitlines_length_eq_one {t : List Char} (ht : t ≠ []) :
    (splitlines t).length = 1 ↔ OneLine t := by
  constructor
  · intro h
    rcases unbroken_or_exists_break t with hu | ⟨u, c, r, rfl, hu, hc⟩
    · exact .of_unbroken hu
    · rw [splitlines, linesFrom_unbroken hu] at h
      by_cases hcr : c = '\r' ∧ ∃ r', r = '\n' :: r'
      · obtain ⟨rfl, r', rfl⟩ := hcr
        by_cases hr : r' = []
        · exact ⟨u, _, by rw [hr], hu, .inr (.inr rfl)⟩
        · have : 0 < (linesFrom [] r').length :=
            List.length_pos_iff.2 (linesFrom_ne_nil (.inr hr))
          simp only [linesFrom, List.length_cons] at h
          omega
      · rw [linesFrom_cons hcr, if_pos hc, List.length_cons] at h
        by_cases hr : r = []
        · exact ⟨u, _, by rw [hr], hu, .inr (.inl ⟨c, hc, rfl⟩)⟩
        · have : 0 < (linesFrom [] r).length := List.length_pos_iff.2 (linesFrom_ne_nil (.inr hr))
          omega
  · rintro ⟨u, e, rfl, hu, he⟩
    rw [splitlines_terminated hu he ht]
    rfl

/-- An unbroken beginning does not change whether a text is one line. -/
theorem oneLine_append {u t : List Char} (hu : Unbroken u) : OneLine (u ++ t) ↔ OneLine t := by
  constructor
  · rintro ⟨v, e, heq, hv, he⟩
    rcases List.append_eq_append_iff.1 heq with ⟨a, rfl, rfl⟩ | ⟨a, rfl, rfl⟩
    · exact ⟨a, e, rfl, (unbroken_append.1 hv).2, he⟩
    · -- the beginning is unbroken, so it reaches into no terminator
      obtain ⟨-, ha⟩ := unbroken_append.1 hu
      rcases he with he | ⟨c, hc, he⟩ | he
      · obtain ⟨-, rfl⟩ := List.append_eq_nil_iff.1 he
        exact .of_unbroken (by simp)
      · cases a with
        | nil => exact ⟨[], t, rfl, by simp, .inr (.inl ⟨c, hc, he⟩)⟩
        | cons x a =>
          obtain ⟨rfl, -⟩ := List.cons.inj he
          rw [(unbroken_cons.1 ha).1] at hc
          cases hc
      · cases a with
        | nil => exact ⟨[], t, rfl, by simp, .inr (.inr he)⟩
        | cons x a =>
          obtain ⟨rfl, -⟩ := List.cons.inj he
          exact absurd (unbroken_cons.1 ha).1 (by decide)
  · rintro ⟨v, e, rfl, hv, he⟩
    exact ⟨u ++ v, e, by simp, unbroken_append.2 ⟨hu, hv⟩, he⟩

/-! ## Words -/

/-- The words of a text, `acc` being what the current word holds already, in reverse. -/
def wordsFrom : List Char → List Char → List (List Char)
  | acc, [] => if acc = [] then [] else [acc.reverse]
  | acc, c :: t =>
    if isSpace c then
      if acc = [] then wordsFrom [] t else acc.reverse :: wordsFrom [] t
    else wordsFrom (c :: acc) t

/-- `s.split()` -/
def split (t : List Char) : List (List Char) := wordsFrom [] t

/-- A word: not empty, and without white space. -/
def Solid (t : List Char) : Prop := t ≠ [] ∧ ∀ c ∈ t, isSpace c = false

theorem wordsFrom_solid {a : List Char} (ha : ∀ c ∈ a, isSpace c = false) (acc r : List Char) :
    wordsFrom acc (a ++ r) = wordsFrom (a.reverse ++ acc) r := by
  induction a generalizing acc with
  | nil => rfl
  | cons c a ih =>
    have hc : isSpace c = false := ha c (by simp)
    rw [List.cons_append, wordsFrom, if_neg (by simp [hc]),
      ih fun x hx => ha x (List.mem_cons_of_mem _ hx)]
    simp

/-- Blanks before a word. -/
theorem split_blanks (k : ℕ) (t : List Char) : split (List.replicate k ' ' ++ t) = split t := by
  induction k with
  | zero => rfl
  | succ k ih =>
    rw [List.replicate_succ, List.cons_append, split, wordsFrom, if_pos (by decide), if_pos rfl]
    exact ih

/-- A word, and a blank after it. -/
theorem split_solid {a : List Char} (ha : Solid a) (t : List Char) :
    split (a ++ ' ' :: t) = a :: split t := by
  rw [split, wordsFrom_solid ha.2, List.append_nil, wordsFrom, if_pos (by decide),
    if_neg (by simpa using ha.1), List.reverse_reverse]
  rfl

/-- Printable ASCII but for the blank. -/
theorem isSpace_of_graphic {c : Char} (h₁ : 32 < c.toNat) (h₂ : c.toNat < 127) :
    isSpace c = false := by
  have hle : ∀ a b : Char, a ≤ b → a.toNat ≤ b.toNat := fun a b h => h
  have hb : isLineBreak c = false :=
    isLineBreak_of_ascii (show ' '.toNat ≤ c.toNat from Nat.le_of_lt h₁) h₂
  refine Bool.eq_false_iff.2 fun h => ?_
  simp only [isSpace, hb, Bool.or_false, Bool.or_eq_true, Bool.and_eq_true, beq_iff_eq,
    decide_eq_true_eq] at h
  rcases h with (((((((h | h) | h) | h) | h) | ⟨h, -⟩) | h) | h) | h
  all_goals first
    | (subst h; revert h₁ h₂; decide)
    | skip
  have := hle _ _ h
  simp only [Char.reduceToNat] at this
  omega

theorem isSpace_of_isAlphanum {c : Char} (h : c.isAlphanum = true) : isSpace c = false := by
  delta Char.isAlphanum Char.isAlpha Char.isUpper Char.isLower Char.isDigit at h
  simp only [Bool.or_eq_true, Bool.and_eq_true, decide_eq_true_eq, ge_iff_le,
    UInt32.le_iff_toNat_le, Char.reduceVal, UInt32.reduceToNat, Char.toNat_val] at h
  exact isSpace_of_graphic (by omega) (by omega)

theorem Solid.unbroken {t : List Char} (h : Solid t) : Unbroken t := by
  intro c hc
  have := h.2 c hc
  simp only [isSpace, Bool.or_eq_false_iff] at this
  tauto


/-! ## Other functions -/

/-- `f"{s:>k}"` -/
def rjust (k : ℕ) (s : String) : String :=
  String.ofList (List.replicate (k - s.length) ' ' ++ s.toList)

/-- `needle in s` -/
def contains (needle s : String) : Bool := s.toList.tails.any needle.toList.isPrefixOf

/-- `sep.join(l)` -/
def join (sep : String) (l : List String) : String :=
  String.ofList (List.intercalate sep.toList (l.map String.toList))

theorem toList_join_cons (sep a b : String) (l : List String) :
    (join sep (a :: b :: l)).toList = a.toList ++ sep.toList ++ (join sep (b :: l)).toList := by
  simp [join, List.intercalate]

theorem join_append {sep : String} {l m : List String} (hl : l ≠ []) (hm : m ≠ []) :
    join sep (l ++ m) = join sep l ++ sep ++ join sep m := by
  have heq (l : List String) : join sep l = sep.intercalate l := by
    rw [join, ← String.toList_intercalate, String.ofList_toList]
  rw [heq, heq, heq, String.intercalate_append_of_ne_nil hl hm]

/-- `s.replace(c, r)` for a `c` of one character. -/
def replaceChar (c : Char) (r s : String) : String :=
  String.ofList (s.toList.flatMap fun x => if x = c then r.toList else [x])

/-- The digits of `n`, filled with zeros on the left to `k` of them. -/
def zfill (k n : ℕ) : String :=
  String.ofList (List.replicate (k - (toString n).length) '0' ++ (toString n).toList)

theorem zfill_solid (k n : ℕ) : ∀ c ∈ (zfill k n).toList, isSpace c = false := by
  intro c hc
  rw [zfill, String.toList_ofList] at hc
  rcases List.mem_append.1 hc with hc | hc
  · obtain rfl := List.eq_of_mem_replicate hc
    decide
  · have hc : c ∈ n.repr.toList := hc
    rw [Nat.toList_repr] at hc
    have hd := Nat.isDigit_of_mem_toDigits (by decide) (by decide) hc
    exact isSpace_of_isAlphanum (by simp [Char.isAlphanum, hd])

/-- `repr` of a `bytes`. -/
def reprBytes (b : List UInt8) : String :=
  let chars := b.map fun x => Char.ofNat x.toNat
  let q := quoteOf chars
  String.ofList ('b' :: q :: chars.flatMap (fun c =>
    if c = q ∨ c = '\\' then ['\\', c]
    else if c = '\t' then ['\\', 't']
    else if c = '\n' then ['\\', 'n']
    else if c = '\r' then ['\\', 'r']
    else if c < ' ' ∨ '\x7f' ≤ c then '\\' :: 'x' :: hexDigits 2 c.toNat
    else [c]) ++ [q])

end PyText
