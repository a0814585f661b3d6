import Mathlib.Data.Int.Notation
import Mathlib.Tactic.Common
import Std.Data.String.ToInt

/-!
# Compact ASCII JSON arrays

The encoding of a flat JSON array of nulls, integers and strings, with no blanks between its parts
and every character outside printable ASCII escaped, those beyond the basic plane as a surrogate
pair. `dumps_injective`: the encoding is injective, so a digest of it commits to the array. The
reader `readChar` of one escaped character is what makes strings decodable; the other parts end
before the separator that follows them. `dumps_ascii`: every character written is ASCII.
-/

namespace AsciiJson

/-- An element of the array. -/
inductive Atom
  | null
  | int (n : ℤ)
  | str (s : String)
  deriving DecidableEq

/-! ## Characters -/

/-- Four hexadecimal digits, in lower case. -/
def hex4 (n : ℕ) : List Char :=
  [(n / 4096 % 16).digitChar, (n / 256 % 16).digitChar, (n / 16 % 16).digitChar,
    (n % 16).digitChar]

def unicodeEscape (n : ℕ) : List Char := '\\' :: 'u' :: hex4 n

/-- One character inside a string. -/
def escapeChar (c : Char) : List Char :=
  if c = '"' then ['\\', '"']
  else if c = '\\' then ['\\', '\\']
  else if c = '\x08' then ['\\', 'b']
  else if c = '\x0c' then ['\\', 'f']
  else if c = '\n' then ['\\', 'n']
  else if c = '\r' then ['\\', 'r']
  else if c = '\t' then ['\\', 't']
  else if ' ' ≤ c ∧ c ≤ '~' then [c]
  else if c.toNat < 0x10000 then unicodeEscape c.toNat
  else
    -- a surrogate pair
    unicodeEscape (0xd800 + (c.toNat - 0x10000) / 1024) ++
      unicodeEscape (0xdc00 + (c.toNat - 0x10000) % 1024)

def hexVal (c : Char) : ℕ := if c.isDigit then c.toNat - 48 else c.toNat - 87

def unit (a b c d : Char) : ℕ := hexVal a * 4096 + hexVal b * 256 + hexVal c * 16 + hexVal d

/-- The code point of a surrogate pair. -/
def fromPair (hi lo : ℕ) : ℕ := 0x10000 + (hi - 0xd800) * 1024 + (lo - 0xdc00)

/-- Read one escaped character, and what follows it. -/
def readChar : List Char → Option (Char × List Char)
  | '\\' :: 'u' :: a :: b :: c :: d :: rest =>
    if 0xd800 ≤ unit a b c d ∧ unit a b c d < 0xdc00 then
      match rest with
      | '\\' :: 'u' :: a' :: b' :: c' :: d' :: rest' =>
        some (Char.ofNat (fromPair (unit a b c d) (unit a' b' c' d')), rest')
      | _ => none
    else some (Char.ofNat (unit a b c d), rest)
  | '\\' :: 'b' :: rest => some ('\x08', rest)
  | '\\' :: 'f' :: rest => some ('\x0c', rest)
  | '\\' :: 'n' :: rest => some ('\n', rest)
  | '\\' :: 'r' :: rest => some ('\r', rest)
  | '\\' :: 't' :: rest => some ('\t', rest)
  | '\\' :: c :: rest => some (c, rest)
  | c :: rest => some (c, rest)
  | [] => none

theorem hexVal_digitChar : ∀ n < 16, hexVal n.digitChar = n := by decide

theorem unit_hex4 {n : ℕ} (h : n < 65536) :
    unit (n / 4096 % 16).digitChar (n / 256 % 16).digitChar (n / 16 % 16).digitChar
      (n % 16).digitChar = n := by
  simp only [unit, hexVal_digitChar _ (Nat.mod_lt _ (by decide : 16 > 0))]
  omega

/-- A code point is no surrogate. -/
theorem toNat_valid (c : Char) :
    c.toNat < 0xd800 ∨ (0xdfff < c.toNat ∧ c.toNat < 0x110000) := c.valid

theorem readChar_unicodeEscape {n : ℕ} (h : n < 65536) (hs : ¬(0xd800 ≤ n ∧ n < 0xdc00))
    (r : List Char) : readChar (unicodeEscape n ++ r) = some (Char.ofNat n, r) := by
  simp only [unicodeEscape, hex4, List.cons_append, List.nil_append, readChar, unit_hex4 h]
  rw [if_neg hs]

theorem readChar_pair {hi lo : ℕ} (hh : 0xd800 ≤ hi ∧ hi < 0xdc00) (hl : lo < 65536)
    (r : List Char) :
    readChar (unicodeEscape hi ++ unicodeEscape lo ++ r) =
      some (Char.ofNat (fromPair hi lo), r) := by
  simp only [unicodeEscape, hex4, List.cons_append, List.nil_append, readChar,
    unit_hex4 (show hi < 65536 by omega), unit_hex4 hl]
  rw [if_pos hh]

theorem readChar_of_ne {c : Char} (h : c ≠ '\\') (r : List Char) :
    readChar (c :: r) = some (c, r) := by
  unfold readChar
  split <;> simp_all

/-- The forms of an escaped character: a letter or itself after a backslash, itself, its code, the
codes of its surrogate pair. -/
inductive Escapes (c : Char) : List Char → Prop
  | letter (e : Char) (hread : ∀ r, readChar ('\\' :: e :: r) = some (c, r)) (he : e.toNat < 128) :
    Escapes c ['\\', e]
  | plain (hquote : c ≠ '"') (hslash : c ≠ '\\') (hle : c ≤ '~') : Escapes c [c]
  | code (h : c.toNat < 0x10000) : Escapes c (unicodeEscape c.toNat)
  | pair (h : 0x10000 ≤ c.toNat) :
    Escapes c (unicodeEscape (0xd800 + (c.toNat - 0x10000) / 1024) ++
      unicodeEscape (0xdc00 + (c.toNat - 0x10000) % 1024))

theorem escapes_escapeChar (c : Char) : Escapes c (escapeChar c) := by
  unfold escapeChar
  by_cases hquote : c = '"'
  · rw [if_pos hquote]
    exact .letter '"' (fun _ => by rw [hquote]; rfl) (by decide)
  rw [if_neg hquote]
  by_cases hslash : c = '\\'
  · rw [if_pos hslash]
    exact .letter '\\' (fun _ => by rw [hslash]; rfl) (by decide)
  rw [if_neg hslash]
  by_cases hb : c = '\x08'
  · rw [if_pos hb]
    exact .letter 'b' (fun _ => by rw [hb]; rfl) (by decide)
  rw [if_neg hb]
  by_cases hf : c = '\x0c'
  · rw [if_pos hf]
    exact .letter 'f' (fun _ => by rw [hf]; rfl) (by decide)
  rw [if_neg hf]
  by_cases hn : c = '\n'
  · rw [if_pos hn]
    exact .letter 'n' (fun _ => by rw [hn]; rfl) (by decide)
  rw [if_neg hn]
  by_cases hr : c = '\r'
  · rw [if_pos hr]
    exact .letter 'r' (fun _ => by rw [hr]; rfl) (by decide)
  rw [if_neg hr]
  by_cases ht : c = '\t'
  · rw [if_pos ht]
    exact .letter 't' (fun _ => by rw [ht]; rfl) (by decide)
  rw [if_neg ht]
  by_cases hp : ' ' ≤ c ∧ c ≤ '~'
  · rw [if_pos hp]
    exact .plain hquote hslash hp.2
  rw [if_neg hp]
  by_cases h : c.toNat < 0x10000
  · rw [if_pos h]
    exact .code h
  · rw [if_neg h]
    exact .pair (by omega)

/-- Reading undoes escaping. -/
theorem readChar_escapeChar (c : Char) (r : List Char) :
    readChar (escapeChar c ++ r) = some (c, r) := by
  have hv := toNat_valid c
  have h := escapes_escapeChar c
  generalize escapeChar c = l at h
  cases h with
  | letter e hread => exact hread r
  | plain _ hslash => exact readChar_of_ne hslash r
  | code h => rw [readChar_unicodeEscape h (by omega), Char.ofNat_toNat]
  | pair h =>
    have hp : fromPair (0xd800 + (c.toNat - 0x10000) / 1024)
        (0xdc00 + (c.toNat - 0x10000) % 1024) = c.toNat := by
      unfold fromPair
      omega
    rw [readChar_pair (by omega) (by omega), hp, Char.ofNat_toNat]

/-- An escaped character does not begin with the closing quote. -/
theorem escapeChar_append_ne (c : Char) (r r' : List Char) : escapeChar c ++ r ≠ '"' :: r' := by
  have h := escapes_escapeChar c
  generalize escapeChar c = l at h
  cases h with
  | letter => simp
  | plain hquote => simp [hquote]
  | code => simp [unicodeEscape]
  | pair => simp [unicodeEscape]

/-! ## Strings -/

def escapeChars (cs : List Char) : List Char := cs.flatMap escapeChar

/-- A string ends at the first quote that is not part of an escape. -/
theorem escapeChars_append_inj {cs cs' r r' : List Char}
    (h : escapeChars cs ++ '"' :: r = escapeChars cs' ++ '"' :: r') : cs = cs' ∧ r = r' := by
  induction cs generalizing cs' with
  | nil =>
    cases cs' with
    | nil => simpa [escapeChars] using h
    | cons c' cs' =>
      simp only [escapeChars, List.flatMap_nil, List.nil_append, List.flatMap_cons,
        List.append_assoc] at h
      exact absurd h.symm (escapeChar_append_ne _ _ _)
  | cons c cs ih =>
    cases cs' with
    | nil =>
      simp only [escapeChars, List.flatMap_nil, List.nil_append, List.flatMap_cons,
        List.append_assoc] at h
      exact absurd h (escapeChar_append_ne _ _ _)
    | cons c' cs' =>
      simp only [escapeChars, List.flatMap_cons, List.append_assoc] at h
      have hr := congrArg readChar h
      rw [readChar_escapeChar, readChar_escapeChar] at hr
      simp only [Option.some.injEq, Prod.mk.injEq] at hr
      obtain ⟨rfl, ht⟩ := hr
      obtain ⟨rfl, rfl⟩ := ih ht
      exact ⟨rfl, rfl⟩

/-! ## Elements and arrays -/

def encodeAtom : Atom → List Char
  | .null => "null".toList
  | .int n => n.repr.toList
  | .str s => '"' :: escapeChars s.toList ++ ['"']

/-- The elements with commas between them, and the closing bracket. -/
def encodeRest : List Atom → List Char
  | [] => [']']
  | [a] => encodeAtom a ++ [']']
  | a :: b :: l => encodeAtom a ++ ',' :: encodeRest (b :: l)

def dumps (l : List Atom) : List Char := '[' :: encodeRest l

/-- What follows an element. -/
def IsSep (c : Char) : Prop := c = ',' ∨ c = ']'

/-- The characters of a decimal integer. -/
def IsDecimal (c : Char) : Prop := c.isDigit = true ∨ c = '-'

theorem isDecimal_of_mem_repr {n : ℤ} {c : Char} (h : c ∈ n.repr.toList) : IsDecimal c := by
  have hnat : ∀ m : ℕ, c ∈ m.repr.toList → IsDecimal c := fun m hm => by
    rw [Nat.toList_repr] at hm
    exact .inl (Nat.isDigit_of_mem_toDigits (by decide) (by decide) hm)
  cases n with
  | ofNat m => exact hnat m h
  | negSucc m =>
    simp only [Int.repr, String.toList_append, List.mem_append] at h
    rcases h with h | h
    · exact .inr (by simpa using h)
    · exact hnat _ h

theorem repr_ne_nil (n : ℤ) : n.repr.toList ≠ [] := by
  cases n with
  | ofNat m =>
    simp only [Int.repr, Nat.toList_repr]
    exact Nat.toDigits_ne_nil
  | negSucc m => simp [Int.repr]

theorem not_isDecimal_of_isSep {c : Char} (h : IsSep c) : ¬IsDecimal c := by
  rcases h with rfl | rfl <;> simp [IsDecimal]

/-- Decimal digits end where a character that is none follows. -/
theorem append_sep_inj {l l' r r' : List Char} {s s' : Char} (hl : ∀ c ∈ l, IsDecimal c)
    (hl' : ∀ c ∈ l', IsDecimal c) (hs : IsSep s) (hs' : IsSep s')
    (h : l ++ s :: r = l' ++ s' :: r') : l = l' ∧ s = s' ∧ r = r' := by
  induction l generalizing l' with
  | nil =>
    cases l' with
    | nil => simpa using h
    | cons c l' =>
      obtain ⟨rfl, -⟩ := List.cons.inj h
      exact absurd (hl' _ (by simp)) (not_isDecimal_of_isSep hs)
  | cons c l ih =>
    cases l' with
    | nil =>
      obtain ⟨rfl, -⟩ := List.cons.inj h
      exact absurd (hl _ (by simp)) (not_isDecimal_of_isSep hs')
    | cons c' l' =>
      obtain ⟨rfl, ht⟩ := List.cons.inj h
      obtain ⟨rfl, hr⟩ := ih (fun c hc => hl c (List.mem_cons_of_mem _ hc))
        (fun c hc => hl' c (List.mem_cons_of_mem _ hc)) ht
      exact ⟨rfl, hr⟩

/-- The first character of an element tells its kind. -/
theorem head_encodeAtom (a : Atom) : ∃ c l, encodeAtom a = c :: l ∧
    match a with
    | .null => c = 'n'
    | .int _ => IsDecimal c
    | .str _ => c = '"' := by
  cases a with
  | null => exact ⟨'n', ['u', 'l', 'l'], rfl, rfl⟩
  | int n =>
    obtain ⟨c, l, h⟩ := List.exists_cons_of_ne_nil (repr_ne_nil n)
    exact ⟨c, l, h, isDecimal_of_mem_repr (n := n) (by simp [h])⟩
  | str s => exact ⟨'"', _, rfl, rfl⟩

theorem encodeAtom_append_inj {a a' : Atom} {s s' : Char} {r r' : List Char} (hs : IsSep s)
    (hs' : IsSep s') (h : encodeAtom a ++ s :: r = encodeAtom a' ++ s' :: r') :
    a = a' ∧ s = s' ∧ r = r' := by
  have hn : ¬IsDecimal 'n' := by simp [IsDecimal]
  have hq : ¬IsDecimal '"' := by simp [IsDecimal]
  obtain ⟨c, l, hc, hk⟩ := head_encodeAtom a
  obtain ⟨c', l', hc', hk'⟩ := head_encodeAtom a'
  -- the first characters agree, so the kinds do
  have hcc : c = c' := by
    rw [hc, hc'] at h
    exact (List.cons.inj h).1
  subst hcc
  cases a <;> cases a' <;> simp only at hk hk'
  case null.null =>
    obtain ⟨hss, hrr⟩ := List.cons.inj (List.append_cancel_left h)
    exact ⟨rfl, hss, hrr⟩
  case null.int => exact absurd (hk ▸ hk') hn
  case null.str => exact absurd (hk.symm.trans hk') (by decide)
  case int.null => exact absurd (hk' ▸ hk) hn
  case int.int n n' =>
    obtain ⟨he, hr⟩ := append_sep_inj (fun _ => isDecimal_of_mem_repr)
      (fun _ => isDecimal_of_mem_repr) hs hs' h
    exact ⟨congrArg Atom.int (Int.repr_injective (String.toList_inj.1 he)), hr⟩
  case int.str => exact absurd (hk' ▸ hk) hq
  case str.null => exact absurd (hk.symm.trans hk') (by decide)
  case str.int => exact absurd (hk ▸ hk') hq
  case str.str t t' =>
    simp only [encodeAtom, List.cons_append, List.append_assoc, List.nil_append,
      List.cons.injEq, true_and] at h
    obtain ⟨he, hr⟩ := escapeChars_append_inj h
    obtain ⟨hss, hrr⟩ := List.cons.inj hr
    exact ⟨congrArg Atom.str (String.toList_inj.1 he), hss, hrr⟩

/-- An element does not begin with the closing bracket. -/
theorem encodeAtom_append_ne (a : Atom) (r r' : List Char) : encodeAtom a ++ r ≠ ']' :: r' := by
  obtain ⟨c, l, hc, hk⟩ := head_encodeAtom a
  rw [hc]
  intro h
  obtain ⟨rfl, -⟩ := List.cons.inj h
  cases a with
  | null => exact absurd hk (by decide : ']' ≠ 'n')
  | int n => exact not_isDecimal_of_isSep (.inr rfl) hk
  | str s => exact absurd hk (by decide : ']' ≠ '"')

/-- The encoding of a nonempty rest: its first element, a separator, and the further rest. -/
theorem encodeRest_cons (a : Atom) (l : List Atom) : ∃ s r, IsSep s ∧
    encodeRest (a :: l) = encodeAtom a ++ s :: r ∧
    (l = [] → s = ']') ∧ (l ≠ [] → s = ',' ∧ r = encodeRest l) := by
  cases l with
  | nil => exact ⟨']', [], .inr rfl, rfl, fun _ => rfl, fun h => absurd rfl h⟩
  | cons b l => exact ⟨',', _, .inl rfl, rfl, fun h => by simp at h, fun _ => ⟨rfl, rfl⟩⟩

theorem encodeRest_injective {l l' : List Atom} (h : encodeRest l = encodeRest l') : l = l' := by
  induction l generalizing l' with
  | nil =>
    cases l' with
    | nil => rfl
    | cons a' l' =>
      obtain ⟨s', r', -, he', -⟩ := encodeRest_cons a' l'
      rw [he'] at h
      exact absurd h.symm (encodeAtom_append_ne _ _ _)
  | cons a l ih =>
    obtain ⟨s, r, hs, he, hend, hmore⟩ := encodeRest_cons a l
    cases l' with
    | nil =>
      rw [he] at h
      exact absurd h (encodeAtom_append_ne _ _ _)
    | cons a' l' =>
      obtain ⟨s', r', hs', he', hend', hmore'⟩ := encodeRest_cons a' l'
      rw [he, he'] at h
      obtain ⟨rfl, rfl, rfl⟩ := encodeAtom_append_inj hs hs' h
      rcases eq_or_ne l [] with rfl | hl
      · rcases eq_or_ne l' [] with rfl | hl'
        · rfl
        · exact absurd ((hend rfl).symm.trans (hmore' hl').1) (by decide)
      · rcases eq_or_ne l' [] with rfl | hl'
        · exact absurd ((hend' rfl).symm.trans (hmore hl).1) (by decide)
        · rw [ih ((hmore hl).2.symm.trans (hmore' hl').2)]

/-- **The encoding is injective.** -/
theorem dumps_injective {l l' : List Atom} (h : dumps l = dumps l') : l = l' :=
  encodeRest_injective (List.cons.inj h).2

/-! ## ASCII -/

theorem digitChar_ascii : ∀ n < 16, n.digitChar.toNat < 128 := by decide

theorem unicodeEscape_ascii (n : ℕ) : ∀ c ∈ unicodeEscape n, c.toNat < 128 := by
  have h (m : ℕ) : (m % 16).digitChar.toNat < 128 :=
    digitChar_ascii _ (Nat.mod_lt _ (by decide))
  simp only [unicodeEscape, hex4, List.mem_cons, List.not_mem_nil, or_false]
  rintro c (rfl | rfl | rfl | rfl | rfl | rfl)
  · decide
  · decide
  all_goals exact h _

/-- The byte of an ASCII character has its number. -/
theorem toNat_asciiByte {c : Char} (h : c.toNat < 128) : (UInt8.ofNat c.toNat).toNat = c.toNat := by
  rw [UInt8.toNat_ofNat']
  omega

/-- ASCII texts with the same bytes are the same. -/
theorem eq_of_bytes_eq {l l' : List Char} (hl : ∀ c ∈ l, c.toNat < 128)
    (hl' : ∀ c ∈ l', c.toNat < 128)
    (h : l.map (fun c => UInt8.ofNat c.toNat) = l'.map fun c => UInt8.ofNat c.toNat) : l = l' := by
  induction l generalizing l' with
  | nil => exact (List.map_eq_nil_iff.1 h.symm).symm
  | cons c l ih =>
    cases l' with
    | nil => cases h
    | cons c' l' =>
      obtain ⟨hc, ht⟩ := List.cons.inj h
      have hn := congrArg UInt8.toNat hc
      rw [toNat_asciiByte (hl c (by simp)), toNat_asciiByte (hl' c' (by simp))] at hn
      have hcc : c = c' := by rw [← Char.ofNat_toNat c, hn, Char.ofNat_toNat]
      rw [hcc, ih (fun x hx => hl x (by simp [hx])) (fun x hx => hl' x (by simp [hx])) ht]

theorem escapeChar_ascii (c : Char) : ∀ x ∈ escapeChar c, x.toNat < 128 := by
  have h := escapes_escapeChar c
  generalize escapeChar c = l at h
  cases h with
  | letter e _ he => simp [he]
  | plain _ _ hle =>
    intro x hx
    obtain rfl := List.mem_singleton.1 hx
    have : x.toNat ≤ 126 := hle
    omega
  | code => exact unicodeEscape_ascii _
  | pair =>
    intro x hx
    rcases List.mem_append.1 hx with hx | hx <;> exact unicodeEscape_ascii _ x hx

theorem encodeAtom_ascii (a : Atom) : ∀ c ∈ encodeAtom a, c.toNat < 128 := by
  cases a with
  | null => simp [encodeAtom]
  | int n =>
    intro c hc
    rcases isDecimal_of_mem_repr hc with h | rfl
    · have : c.toNat ≤ 57 := (Char.isDigit_iff_toNat.1 h).2
      omega
    · decide
  | str s =>
    intro c hc
    simp only [encodeAtom, List.cons_append, List.mem_cons, List.mem_append, escapeChars,
      List.mem_flatMap, List.not_mem_nil, or_false] at hc
    rcases hc with rfl | ⟨x, -, hx⟩ | rfl
    · decide
    · exact escapeChar_ascii x c hx
    · decide

theorem encodeRest_ascii (l : List Atom) : ∀ c ∈ encodeRest l, c.toNat < 128 := by
  induction l with
  | nil => simp [encodeRest]
  | cons a l ih =>
    intro c hc
    cases l with
    | nil =>
      rcases List.mem_append.1 hc with hc | hc
      · exact encodeAtom_ascii a c hc
      · obtain rfl := List.mem_singleton.1 hc
        decide
    | cons b l =>
      rcases List.mem_append.1 hc with hc | hc
      · exact encodeAtom_ascii a c hc
      · rcases List.mem_cons.1 hc with rfl | hc
        · decide
        · exact ih c hc

/-- Every character written is ASCII. -/
theorem dumps_ascii (l : List Atom) : ∀ c ∈ dumps l, c.toNat < 128 := by
  intro c hc
  rcases List.mem_cons.1 hc with rfl | hc
  · decide
  · exact encodeRest_ascii l c hc

end AsciiJson
