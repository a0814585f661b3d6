import MemoryBridge.Foundations.AsciiJson

/-!
# JSON on one line

Nested JSON values without fractions: `encode` writes them as printable ASCII, with one blank after
each comma and colon; `decode` reads any spelling of them, with blanks and escapes of every kind,
and an object as a dictionary in which the last of equal keys counts. `decode_encode`: what was
written is read back. `encode_printable`: what is written has no line break, so a stream of encoded
values can be split at its line breaks (`decode_lines`).
-/

namespace Json

open AsciiJson

inductive Value
  | null
  | bool (b : Bool)
  | int (n : ℤ)
  | str (s : String)
  | arr (l : List Value)
  | obj (l : List (String × Value))

/-! ## Writing -/

def encodeStr (s : String) : List Char := '"' :: escapeChars s.toList ++ ['"']

mutual

def encode : Value → List Char
  | .null => "null".toList
  | .bool true => "true".toList
  | .bool false => "false".toList
  | .int n => n.repr.toList
  | .str s => encodeStr s
  | .arr l => '[' :: encodeItems l
  | .obj l => '{' :: encodeMembers l

/-- The items with what stands between them, and the closing bracket. -/
def encodeItems : List Value → List Char
  | [] => [']']
  | [v] => encode v ++ [']']
  | v :: w :: l => encode v ++ ',' :: ' ' :: encodeItems (w :: l)

/-- The members with what stands between them, and the closing brace. -/
def encodeMembers : List (String × Value) → List Char
  | [] => ['}']
  | [(k, v)] => encodeStr k ++ ':' :: ' ' :: encode v ++ ['}']
  | (k, v) :: w :: l =>
    encodeStr k ++ ':' :: ' ' :: encode v ++ ',' :: ' ' :: encodeMembers (w :: l)

end

/-! ## Reading strings -/

def hexDigit (c : Char) : Option ℕ :=
  if c.isDigit then some (c.toNat - 48)
  else if 'a' ≤ c ∧ c ≤ 'f' then some (c.toNat - 87)
  else if 'A' ≤ c ∧ c ≤ 'F' then some (c.toNat - 55)
  else none

/-- Four hexadecimal digits. -/
def readUnit : List Char → Option (ℕ × List Char)
  | a :: b :: c :: d :: r => do
    let a ← hexDigit a
    let b ← hexDigit b
    let c ← hexDigit c
    let d ← hexDigit d
    some (a * 4096 + b * 256 + c * 16 + d, r)
  | _ => none

/-- What follows `\u` and its first unit: a surrogate counts only as half of a pair. -/
def readCode (n : ℕ) (r : List Char) : Option (Char × List Char) :=
  if 0xd800 ≤ n ∧ n < 0xdc00 then
    match r with
    | '\\' :: 'u' :: r => do
      let (lo, r) ← readUnit r
      if 0xdc00 ≤ lo ∧ lo < 0xe000 then some (Char.ofNat (fromPair n lo), r) else none
    | _ => none
  else if 0xdc00 ≤ n ∧ n < 0xe000 then none
  else some (Char.ofNat n, r)

/-- What follows a backslash. -/
def readEscape : List Char → Option (Char × List Char)
  | '"' :: r => some ('"', r)
  | '\\' :: r => some ('\\', r)
  | '/' :: r => some ('/', r)
  | 'b' :: r => some ('\x08', r)
  | 'f' :: r => some ('\x0c', r)
  | 'n' :: r => some ('\n', r)
  | 'r' :: r => some ('\r', r)
  | 't' :: r => some ('\t', r)
  | 'u' :: r => do
    let (n, r) ← readUnit r
    readCode n r
  | _ => none

/-- One character of a string, which is not its closing quote: no control character stands there
unescaped. -/
def readOne : List Char → Option (Char × List Char)
  | '\\' :: r => readEscape r
  | c :: r => if c.toNat < 32 then none else some (c, r)
  | [] => none

/-- What follows the opening quote, in at most so many characters. -/
def readChars : ℕ → List Char → Option (List Char × List Char)
  | 0, _ => none
  | n + 1, l =>
    match l with
    | '"' :: r => some ([], r)
    | l => do
      let (c, r) ← readOne l
      let (cs, r) ← readChars n r
      some (c :: cs, r)

/-- A string after its opening quote. -/
def readStr (l : List Char) : Option (String × List Char) := do
  let (cs, r) ← readChars l.length l
  some (String.ofList cs, r)

/-! ## Reading values -/

def isBlank (c : Char) : Bool := c = ' ' || c = '\t' || c = '\n' || c = '\r'

def skipBlanks (l : List Char) : List Char := l.dropWhile isBlank

def isDecimal (c : Char) : Bool := c.isDigit || c = '-'

/-- The number that digits spell, without leading zeros. -/
def natOf (cs : List Char) : Option ℕ :=
  if Nat.toDigits 10 (Nat.ofDigitChars 10 cs 0) = cs then some (Nat.ofDigitChars 10 cs 0) else none

/-- The integer that a text spells. -/
def intOf : List Char → Option ℤ
  | '-' :: cs => (natOf cs).map fun n => -Int.ofNat n
  | cs => (natOf cs).map Int.ofNat

/-- A number without a fraction and without an exponent. -/
def readInt (l : List Char) : Option (ℤ × List Char) :=
  let r := l.dropWhile isDecimal
  if r.head? = some '.' ∨ r.head? = some 'e' ∨ r.head? = some 'E' then none
  else (intOf (l.takeWhile isDecimal)).map fun n => (n, r)

/-- A word. -/
def readWord (w : List Char) (v : Value) (l : List Char) : Option (Value × List Char) :=
  if w <+: l then some (v, l.drop w.length) else none

/-- `d[k] = v` on a dictionary that remembers the order of its keys -/
def setItem (k : String) (v : Value) : List (String × Value) → List (String × Value)
  | [] => [(k, v)]
  | (k', v') :: d => if k' = k then (k, v) :: d else (k', v') :: setItem k v d

/-- The dictionary of pairs that were read. -/
def dictOf (l : List (String × Value)) : List (String × Value) :=
  l.foldl (fun d x => setItem x.1 x.2 d) []

mutual

/-- A value at the beginning of the text, and what follows it, in at most so many steps. -/
def readValue : ℕ → List Char → Option (Value × List Char)
  | 0, _ => none
  | n + 1, l =>
    match l with
    | '"' :: r => (readStr r).map fun x => (.str x.1, x.2)
    | '[' :: r =>
      match skipBlanks r with
      | ']' :: r => some (.arr [], r)
      | r => (readItems n r).map fun x => (.arr x.1, x.2)
    | '{' :: r =>
      match skipBlanks r with
      | '}' :: r => some (.obj [], r)
      | r => (readMembers n r).map fun x => (.obj (dictOf x.1), x.2)
    | 'n' :: _ => readWord "null".toList .null l
    | 't' :: _ => readWord "true".toList (.bool true) l
    | 'f' :: _ => readWord "false".toList (.bool false) l
    | l => (readInt l).map fun x => (.int x.1, x.2)

/-- The items of an array, of which there is one, and its closing bracket. -/
def readItems : ℕ → List Char → Option (List Value × List Char)
  | 0, _ => none
  | n + 1, l => do
    let (v, r) ← readValue n l
    match skipBlanks r with
    | ']' :: r => some ([v], r)
    | ',' :: r => do
      let (vs, r) ← readItems n (skipBlanks r)
      some (v :: vs, r)
    | _ => none

/-- The members of an object, of which there is one, and its closing brace. -/
def readMembers : ℕ → List Char → Option (List (String × Value) × List Char)
  | 0, _ => none
  | n + 1, l =>
    match l with
    | '"' :: r => do
      let (k, r) ← readStr r
      match skipBlanks r with
      | ':' :: r => do
        let (v, r) ← readValue n (skipBlanks r)
        match skipBlanks r with
        | '}' :: r => some ([(k, v)], r)
        | ',' :: r => do
          let (vs, r) ← readMembers n (skipBlanks r)
          some ((k, v) :: vs, r)
        | _ => none
      | _ => none
    | _ => none

end

/-- The value of a text. -/
def decode (l : List Char) : Option Value := do
  let (v, r) ← readValue (l.length + 1) (skipBlanks l)
  if skipBlanks r = [] then some v else none

/-! ## What was written is read -/

theorem hexDigit_digitChar : ∀ n < 16, hexDigit n.digitChar = some n := by decide

theorem readUnit_hex4 {n : ℕ} (h : n < 65536) (r : List Char) :
    readUnit (hex4 n ++ r) = some (n, r) := by
  have hdigit (m : ℕ) : hexDigit (m % 16).digitChar = some (m % 16) :=
    hexDigit_digitChar _ (Nat.mod_lt _ (by decide))
  simp only [hex4, List.cons_append, List.nil_append, readUnit, hdigit, Option.bind_eq_bind,
    Option.bind_some]
  congr 2
  omega

theorem readCode_of_plain {n : ℕ} (h : n < 0xd800 ∨ 0xdfff < n) (r : List Char) :
    readCode n r = some (Char.ofNat n, r) := by
  unfold readCode
  rw [if_neg (by omega), if_neg (by omega)]

theorem readCode_pair {hi lo : ℕ} (hh : 0xd800 ≤ hi ∧ hi < 0xdc00) (hl : 0xdc00 ≤ lo ∧ lo < 0xe000)
    (r : List Char) :
    readCode hi (unicodeEscape lo ++ r) = some (Char.ofNat (fromPair hi lo), r) := by
  unfold readCode
  rw [if_pos hh]
  simp only [unicodeEscape, List.cons_append, readUnit_hex4 (show lo < 65536 by omega),
    Option.bind_eq_bind, Option.bind_some]
  exact if_pos hl

/-- Reading undoes escaping. -/
theorem readOne_escapeChar (c : Char) (r : List Char) :
    readOne (escapeChar c ++ r) = some (c, r) := by
  have hv := toNat_valid c
  have hcode (n : ℕ) (hn : n < 65536) (r : List Char) :
      readOne (unicodeEscape n ++ r) = readCode n r := by
    show (readUnit (hex4 n ++ r)).bind _ = _
    rw [readUnit_hex4 hn]
    rfl
  unfold escapeChar
  split_ifs with h₁ h₂ h₃ h₄ h₅ h₆ h₇ h₈ h₉
  · rw [h₁]; rfl
  · rw [h₂]; rfl
  · rw [h₃]; rfl
  · rw [h₄]; rfl
  · rw [h₅]; rfl
  · rw [h₆]; rfl
  · rw [h₇]; rfl
  · have hge : 32 ≤ c.toNat := h₈.1
    unfold readOne
    split <;> simp_all
  · rw [hcode _ h₉, readCode_of_plain (by omega), Char.ofNat_toNat]
  · rw [List.append_assoc, hcode _ (by omega), readCode_pair (by omega) (by omega)]
    have hp : fromPair (0xd800 + (c.toNat - 0x10000) / 1024)
        (0xdc00 + (c.toNat - 0x10000) % 1024) = c.toNat := by
      unfold fromPair
      omega
    rw [hp, Char.ofNat_toNat]

theorem readChars_escapeChars (cs r : List Char) {n : ℕ} (h : cs.length < n) :
    readChars n (escapeChars cs ++ '"' :: r) = some (cs, r) := by
  induction cs generalizing n with
  | nil =>
    obtain ⟨n, rfl⟩ : ∃ m, n = m + 1 := ⟨n - 1, by simp at h; omega⟩
    rfl
  | cons c cs ih =>
    obtain ⟨n, rfl⟩ : ∃ m, n = m + 1 := ⟨n - 1, by simp at h; omega⟩
    have hsplit : escapeChars (c :: cs) ++ '"' :: r =
        escapeChar c ++ (escapeChars cs ++ '"' :: r) := by
      simp [escapeChars]
    rw [hsplit]
    unfold readChars
    split
    case h_1 r' h' => exact absurd h' (escapeChar_append_ne c _ _)
    case h_2 =>
      rw [readOne_escapeChar]
      simp only [List.length_cons] at h
      simp [ih (by omega : cs.length < n)]

theorem length_le_escapeChars (cs : List Char) : cs.length ≤ (escapeChars cs).length := by
  induction cs with
  | nil => exact Nat.le_refl _
  | cons c cs ih =>
    have hc : 0 < (escapeChar c).length := by
      refine Nat.pos_of_ne_zero fun h => ?_
      have := readOne_escapeChar c []
      rw [List.length_eq_zero_iff.1 h] at this
      cases this
    simp only [escapeChars, List.flatMap_cons, List.length_append, List.length_cons] at ih ⊢
    omega

theorem readStr_encodeStr (s : String) (r : List Char) :
    readStr (escapeChars s.toList ++ '"' :: r) = some (s, r) := by
  have hlen := length_le_escapeChars s.toList
  rw [readStr,
    readChars_escapeChars _ _ (by simp only [List.length_append, List.length_cons]; omega)]
  simp

/-- What may follow a value: nothing that would belong to a number. -/
def Ends (r : List Char) : Prop :=
  ∀ c ∈ r.head?, isDecimal c = false ∧ c ≠ '.' ∧ c ≠ 'e' ∧ c ≠ 'E'

theorem isDecimal_repr (n : ℤ) : ∀ c ∈ n.repr.toList, isDecimal c = true := by
  intro c hc
  rcases isDecimal_of_mem_repr hc with h | rfl
  · simp [isDecimal, h]
  · rfl

theorem natOf_repr (n : ℕ) : natOf n.repr.toList = some n := by
  rw [natOf, Nat.toList_repr, Nat.ofDigitChars_toDigits (by decide) (by decide), if_pos rfl]

theorem intOf_repr (n : ℤ) : intOf n.repr.toList = some n := by
  cases n with
  | ofNat m =>
    unfold intOf
    split
    case h_1 cs h =>
      -- no digit is a minus sign
      have hm : '-' ∈ Nat.toDigits 10 m := by
        rw [← Nat.toList_repr]
        exact h ▸ List.mem_cons_self
      exact absurd (Nat.isDigit_of_mem_toDigits (by decide) (by decide) hm) (by decide)
    case h_2 =>
      show (natOf m.repr.toList).map _ = _
      rw [natOf_repr]
      rfl
  | negSucc m =>
    have h : (Int.negSucc m).repr.toList = '-' :: (m + 1).repr.toList := by simp [Int.repr]
    rw [h, intOf, natOf_repr]
    rfl

theorem readInt_repr (n : ℤ) {r : List Char} (hr : Ends r) :
    readInt (n.repr.toList ++ r) = some (n, r) := by
  have htake : (n.repr.toList ++ r).takeWhile isDecimal = n.repr.toList := by
    rw [List.takeWhile_append_of_pos (isDecimal_repr n)]
    cases r with
    | nil => simp
    | cons c r => simp [(hr c (by simp)).1]
  have hdrop : (n.repr.toList ++ r).dropWhile isDecimal = r := by
    rw [List.dropWhile_append_of_pos (isDecimal_repr n)]
    cases r with
    | nil => rfl
    | cons c r => simp [(hr c (by simp)).1]
  have hend : ¬(r.head? = some '.' ∨ r.head? = some 'e' ∨ r.head? = some 'E') := by
    rintro (h | h | h)
    · exact (hr '.' h).2.1 rfl
    · exact (hr 'e' h).2.2.1 rfl
    · exact (hr 'E' h).2.2.2 rfl
  unfold readInt
  rw [htake, hdrop, if_neg hend, intOf_repr]
  rfl

/-! ## Dictionaries -/

mutual

/-- No object has two members of one name. -/
def Value.Distinct : Value → Prop
  | .arr l => DistinctItems l
  | .obj l => (l.map Prod.fst).Nodup ∧ DistinctMembers l
  | _ => True

def DistinctItems : List Value → Prop
  | [] => True
  | v :: l => v.Distinct ∧ DistinctItems l

def DistinctMembers : List (String × Value) → Prop
  | [] => True
  | (_, v) :: l => v.Distinct ∧ DistinctMembers l

end

theorem setItem_of_not_mem {k : String} (v : Value) {d : List (String × Value)}
    (h : k ∉ d.map Prod.fst) : setItem k v d = d ++ [(k, v)] := by
  induction d with
  | nil => rfl
  | cons x d ih =>
    simp only [List.map_cons, List.mem_cons, not_or] at h
    obtain ⟨k', v'⟩ := x
    rw [setItem, if_neg (Ne.symm h.1), ih h.2]
    rfl

/-- Pairs with distinct keys are a dictionary as they are. -/
theorem dictOf_of_nodup {l : List (String × Value)} (h : (l.map Prod.fst).Nodup) :
    dictOf l = l := by
  have hfold (l d : List (String × Value)) (h : ((d ++ l).map Prod.fst).Nodup) :
      l.foldl (fun d x => setItem x.1 x.2 d) d = d ++ l := by
    induction l generalizing d with
    | nil => simp
    | cons x l ih =>
      have hx : x.1 ∉ d.map Prod.fst := by
        rw [List.map_append, List.nodup_append] at h
        exact fun hmem => h.2.2 _ hmem _ (by simp) rfl
      rw [List.foldl_cons, setItem_of_not_mem x.2 hx, ih _ (by simpa using h)]
      simp
  exact hfold l [] h

/-! ## The round trip -/

/-- The first character of a value: no blank, and nothing that closes. -/
theorem head_encode (v : Value) : ∃ c l, encode v = c :: l ∧ isBlank c = false ∧ c ≠ ']' := by
  cases v with
  | null => exact ⟨'n', _, rfl, rfl, by decide⟩
  | bool b => cases b <;> exact ⟨_, _, rfl, rfl, by decide⟩
  | int n =>
    obtain ⟨c, l, h⟩ := List.exists_cons_of_ne_nil (repr_ne_nil n)
    have hc : isDecimal c = true := isDecimal_repr n c (by simp [h])
    refine ⟨c, l, by simp [encode, h], ?_, ?_⟩
    · by_contra hb
      simp only [isBlank, Bool.or_eq_true, decide_eq_true_eq, Bool.not_eq_false] at hb
      rcases hb with ((rfl | rfl) | rfl) | rfl <;> cases hc
    · rintro rfl
      cases hc
  | str s => exact ⟨'"', _, by rw [encode, encodeStr]; rfl, rfl, by decide⟩
  | arr l => exact ⟨'[', _, by rw [encode], rfl, by decide⟩
  | obj l => exact ⟨'{', _, by rw [encode], rfl, by decide⟩

theorem skipBlanks_cons {c : Char} (h : isBlank c = false) (r : List Char) :
    skipBlanks (c :: r) = c :: r := by
  rw [skipBlanks, List.dropWhile_cons_of_neg (by simp [h])]

theorem skipBlanks_blank (r : List Char) : skipBlanks (' ' :: r) = skipBlanks r := rfl

theorem skipBlanks_encode (v : Value) (r : List Char) :
    skipBlanks (encode v ++ r) = encode v ++ r := by
  obtain ⟨c, l, h, hc, -⟩ := head_encode v
  rw [h]
  exact skipBlanks_cons hc _

theorem encodeItems_cons (v : Value) (l : List Value) :
    ∃ r, encodeItems (v :: l) = encode v ++ r := by
  cases l with
  | nil => exact ⟨_, by rw [encodeItems]⟩
  | cons w l => exact ⟨_, by rw [encodeItems]⟩

theorem encodeMembers_cons (x : String × Value) (l : List (String × Value)) :
    ∃ r, encodeMembers (x :: l) = '"' :: r := by
  obtain ⟨k, v⟩ := x
  cases l with
  | nil => exact ⟨_, by rw [encodeMembers, encodeStr]; rfl⟩
  | cons w l => exact ⟨_, by rw [encodeMembers, encodeStr]; rfl⟩

/-- A decimal character begins a number. -/
theorem readValue_of_decimal {c : Char} (hc : isDecimal c = true) (n : ℕ) (l : List Char) :
    readValue (n + 1) (c :: l) = (readInt (c :: l)).map fun x => (.int x.1, x.2) := by
  unfold readValue
  split
  case h_7 => rfl
  all_goals
    rename_i h
    obtain ⟨rfl, -⟩ := List.cons.inj h
    cases hc

/-- A bracket that does not close at once begins items. -/
theorem readValue_bracket {r : List Char} (hr : skipBlanks r = r) (hne : ∀ r', r ≠ ']' :: r')
    (n : ℕ) :
    readValue (n + 1) ('[' :: r) = (readItems n r).map fun x => (.arr x.1, x.2) := by
  show (match skipBlanks r with
    | ']' :: r => some (Value.arr [], r)
    | r => (readItems n r).map fun x : List Value × List Char => (Value.arr x.1, x.2)) = _
  rw [hr]
  split
  case h_1 r' => exact absurd rfl (hne r')
  case h_2 => rfl

theorem readWord_append (w : List Char) (v : Value) (r : List Char) :
    readWord w v (w ++ r) = some (v, r) := by
  rw [readWord, if_pos (List.prefix_append ..), List.drop_left]

/-- What follows the value of the member `k`. -/
def readMore (n : ℕ) (k : String) (x : Value × List Char) :
    Option (List (String × Value) × List Char) :=
  match skipBlanks x.2 with
  | '}' :: r => some ([(k, x.1)], r)
  | ',' :: r => do
    let (vs, r) ← readMembers n (skipBlanks r)
    some ((k, x.1) :: vs, r)
  | _ => none

/-- A member whose name was written. -/
theorem readMembers_member (n : ℕ) (k : String) (r : List Char) :
    readMembers (n + 1) ('"' :: (escapeChars k.toList ++ '"' :: ':' :: ' ' :: r)) =
      (readValue n (skipBlanks r)).bind (readMore n k) := by
  show (readStr (escapeChars k.toList ++ '"' :: ':' :: ' ' :: r)).bind _ = _
  rw [readStr_encodeStr]
  rfl

theorem ends_comma (r : List Char) : Ends (',' :: r) := by simp [Ends, isDecimal]

theorem ends_bracket (r : List Char) : Ends (']' :: r) := by simp [Ends, isDecimal]

theorem ends_brace (r : List Char) : Ends ('}' :: r) := by simp [Ends, isDecimal]

mutual

/-- A value that was written is read, and what follows it is left. -/
theorem readValue_encode (v : Value) {n : ℕ} {r : List Char} (hv : v.Distinct)
    (hn : (encode v).length ≤ n) (hr : Ends r) : readValue n (encode v ++ r) = some (v, r) := by
  obtain ⟨n, rfl⟩ : ∃ m, n = m + 1 := by
    obtain ⟨c, l, h, -⟩ := head_encode v
    rw [h, List.length_cons] at hn
    exact ⟨n - 1, by omega⟩
  match v with
  | .null => exact readWord_append "null".toList .null r
  | .bool true => exact readWord_append "true".toList (.bool true) r
  | .bool false => exact readWord_append "false".toList (.bool false) r
  | .int m =>
    obtain ⟨c, l, h⟩ := List.exists_cons_of_ne_nil (repr_ne_nil m)
    have hc : isDecimal c = true := isDecimal_repr m c (by simp [h])
    rw [encode, h, List.cons_append, readValue_of_decimal hc, ← List.cons_append, ← h,
      readInt_repr m hr]
    rfl
  | .str s =>
    have hs : encode (.str s) ++ r = '"' :: (escapeChars s.toList ++ '"' :: r) := by
      simp [encode, encodeStr]
    rw [hs]
    show (readStr (escapeChars s.toList ++ '"' :: r)).map (fun x => (Value.str x.1, x.2)) = _
    rw [readStr_encodeStr]
    rfl
  | .arr [] => rfl
  | .arr (w :: l) =>
    rw [encode, List.length_cons] at hn
    obtain ⟨r', hr'⟩ := encodeItems_cons w l
    have hblank : skipBlanks (encodeItems (w :: l) ++ r) = encodeItems (w :: l) ++ r := by
      rw [hr', List.append_assoc, skipBlanks_encode]
    have hne (r'' : List Char) : encodeItems (w :: l) ++ r ≠ ']' :: r'' := by
      obtain ⟨c, l', h, -, hc⟩ := head_encode w
      rw [hr', h]
      exact fun heq => hc (List.cons.inj heq).1
    rw [encode, List.cons_append, readValue_bracket hblank hne,
      readItems_encode (w :: l) (n := n) (List.cons_ne_nil w l) hv (by omega)]
    rfl
  | .obj [] => rfl
  | .obj (x :: l) =>
    rw [encode, List.length_cons] at hn
    have hmembers := readMembers_encode (x :: l) (n := n) (r := r) (List.cons_ne_nil x l) hv.2
      (by omega)
    obtain ⟨r', hr'⟩ := encodeMembers_cons x l
    rw [encode, List.cons_append]
    rw [hr', List.cons_append] at hmembers ⊢
    show (readMembers n ('"' :: (r' ++ r))).map (fun x => (Value.obj (dictOf x.1), x.2)) = _
    rw [hmembers, Option.map_some, dictOf_of_nodup hv.1]

theorem readItems_encode (l : List Value) {n : ℕ} {r : List Char} (hl : l ≠ [])
    (hd : DistinctItems l) (hn : (encodeItems l).length ≤ n) :
    readItems n (encodeItems l ++ r) = some (l, r) := by
  match l with
  | [] => exact absurd rfl hl
  | [v] =>
    rw [encodeItems, List.length_append] at hn
    obtain ⟨n, rfl⟩ : ∃ m, n = m + 1 := ⟨n - 1, by simp at hn; omega⟩
    have hsplit : encodeItems [v] ++ r = encode v ++ ']' :: r := by simp [encodeItems]
    rw [hsplit, readItems, readValue_encode v hd.1 (by simp at hn; omega) (ends_bracket r)]
    rfl
  | v :: w :: l =>
    rw [encodeItems, List.length_append] at hn
    obtain ⟨n, rfl⟩ : ∃ m, n = m + 1 := ⟨n - 1, by simp at hn; omega⟩
    obtain ⟨r', hr'⟩ := encodeItems_cons w l
    have hblank : skipBlanks (' ' :: (encodeItems (w :: l) ++ r)) = encodeItems (w :: l) ++ r := by
      rw [skipBlanks_blank, hr', List.append_assoc, skipBlanks_encode]
    have hsplit : encodeItems (v :: w :: l) ++ r =
        encode v ++ ',' :: ' ' :: (encodeItems (w :: l) ++ r) := by
      simp [encodeItems]
    rw [hsplit, readItems, readValue_encode v hd.1 (by simp at hn; omega) (ends_comma _)]
    show (readItems n (skipBlanks (' ' :: (encodeItems (w :: l) ++ r)))).bind _ = _
    rw [hblank, readItems_encode (w :: l) (List.cons_ne_nil w l) hd.2 (by simp at hn; omega)]
    rfl

theorem readMembers_encode (l : List (String × Value)) {n : ℕ} {r : List Char} (hl : l ≠ [])
    (hd : DistinctMembers l) (hn : (encodeMembers l).length ≤ n) :
    readMembers n (encodeMembers l ++ r) = some (l, r) := by
  match l with
  | [] => exact absurd rfl hl
  | [(k, v)] =>
    rw [encodeMembers, encodeStr] at hn
    obtain ⟨n, rfl⟩ : ∃ m, n = m + 1 := ⟨n - 1, by simp at hn; omega⟩
    have hsplit : encodeMembers [(k, v)] ++ r =
        '"' :: (escapeChars k.toList ++ '"' :: ':' :: ' ' :: (encode v ++ '}' :: r)) := by
      simp [encodeMembers, encodeStr]
    rw [hsplit, readMembers_member, skipBlanks_encode,
      readValue_encode v hd.1 (by simp at hn; omega) (ends_brace r)]
    rfl
  | (k, v) :: x :: l =>
    rw [encodeMembers, encodeStr] at hn
    obtain ⟨n, rfl⟩ : ∃ m, n = m + 1 := ⟨n - 1, by simp at hn; omega⟩
    obtain ⟨r', hr'⟩ := encodeMembers_cons x l
    have hblank : skipBlanks (' ' :: (encodeMembers (x :: l) ++ r)) =
        encodeMembers (x :: l) ++ r := by
      rw [skipBlanks_blank, hr']
      rfl
    have hsplit : encodeMembers ((k, v) :: x :: l) ++ r = '"' :: (escapeChars k.toList ++
        '"' :: ':' :: ' ' :: (encode v ++ ',' :: ' ' :: (encodeMembers (x :: l) ++ r))) := by
      simp [encodeMembers, encodeStr]
    rw [hsplit, readMembers_member, skipBlanks_encode,
      readValue_encode v hd.1 (by simp at hn; omega) (ends_comma _)]
    show (readMembers n (skipBlanks (' ' :: (encodeMembers (x :: l) ++ r)))).bind _ = _
    rw [hblank, readMembers_encode (x :: l) (List.cons_ne_nil x l) hd.2 (by simp at hn; omega)]
    rfl

end

/-- **What was written is read back.** -/
theorem decode_encode {v : Value} (hv : v.Distinct) : decode (encode v) = some v := by
  have h := readValue_encode v (r := []) hv (Nat.le_succ _) (by simp [Ends])
  have hblank := skipBlanks_encode v []
  rw [List.append_nil] at h hblank
  rw [decode, hblank, h]
  rfl

/-! ## Lines -/

/-- A character that is no control character and is ASCII. -/
def Printable (c : Char) : Prop := ' ' ≤ c ∧ c ≤ '~'

instance : DecidablePred Printable := fun _ => inferInstanceAs (Decidable (_ ∧ _))

theorem printable_of_all {l : List Char} (h : l.all (fun c => decide (Printable c)) = true) :
    ∀ c ∈ l, Printable c :=
  fun c hc => of_decide_eq_true (List.all_eq_true.1 h c hc)

theorem digitChar_printable : ∀ n < 16, Printable n.digitChar := by decide

theorem unicodeEscape_printable (n : ℕ) : ∀ c ∈ unicodeEscape n, Printable c := by
  have h (m : ℕ) : Printable (m % 16).digitChar :=
    digitChar_printable _ (Nat.mod_lt _ (by decide))
  simp only [unicodeEscape, hex4, List.mem_cons, List.not_mem_nil, or_false]
  rintro c (rfl | rfl | rfl | rfl | rfl | rfl)
  · decide
  · decide
  all_goals exact h _

theorem escapeChar_printable (c : Char) : ∀ x ∈ escapeChar c, Printable x := by
  unfold escapeChar
  split_ifs with h₁ h₂ h₃ h₄ h₅ h₆ h₇ h₈ h₉
  case pos => exact printable_of_all (by decide)
  case pos => exact printable_of_all (by decide)
  case pos => exact printable_of_all (by decide)
  case pos => exact printable_of_all (by decide)
  case pos => exact printable_of_all (by decide)
  case pos => exact printable_of_all (by decide)
  case pos => exact printable_of_all (by decide)
  case pos =>
    intro x hx
    rwa [List.mem_singleton.1 hx]
  case pos => exact unicodeEscape_printable _
  case neg =>
    intro x hx
    rcases List.mem_append.1 hx with hx | hx <;> exact unicodeEscape_printable _ x hx

theorem encodeStr_printable (s : String) : ∀ c ∈ encodeStr s, Printable c := by
  intro c hc
  simp only [encodeStr, List.cons_append, List.mem_cons, List.mem_append, escapeChars,
    List.mem_flatMap, List.not_mem_nil, or_false] at hc
  rcases hc with rfl | ⟨x, -, hx⟩ | rfl
  · decide
  · exact escapeChar_printable x c hx
  · decide

theorem repr_printable (n : ℤ) : ∀ c ∈ n.repr.toList, Printable c := by
  intro c hc
  rcases isDecimal_of_mem_repr hc with h | rfl
  · obtain ⟨h₁, h₂⟩ := Char.isDigit_iff_toNat.1 h
    exact ⟨Nat.le_trans (by decide : ' '.toNat ≤ '0'.toNat) h₁,
      Nat.le_trans h₂ (by decide : '9'.toNat ≤ '~'.toNat)⟩
  · decide

mutual

/-- Everything that is written is printable ASCII. -/
theorem encode_printable (v : Value) : ∀ c ∈ encode v, Printable c := by
  match v with
  | .null => exact printable_of_all (by decide)
  | .bool true => exact printable_of_all (by decide)
  | .bool false => exact printable_of_all (by decide)
  | .int n => exact repr_printable n
  | .str s => exact encodeStr_printable s
  | .arr l =>
    rw [encode]
    exact List.forall_mem_cons.2 ⟨by decide, encodeItems_printable l⟩
  | .obj l =>
    rw [encode]
    exact List.forall_mem_cons.2 ⟨by decide, encodeMembers_printable l⟩

theorem encodeItems_printable (l : List Value) : ∀ c ∈ encodeItems l, Printable c := by
  match l with
  | [] => exact printable_of_all (by decide)
  | [v] =>
    rw [encodeItems]
    exact List.forall_mem_append.2 ⟨encode_printable v, printable_of_all (by decide)⟩
  | v :: w :: l =>
    rw [encodeItems]
    exact List.forall_mem_append.2 ⟨encode_printable v, List.forall_mem_cons.2 ⟨by decide,
      List.forall_mem_cons.2 ⟨by decide, encodeItems_printable (w :: l)⟩⟩⟩

theorem encodeMembers_printable (l : List (String × Value)) :
    ∀ c ∈ encodeMembers l, Printable c := by
  match l with
  | [] => exact printable_of_all (by decide)
  | [(k, v)] =>
    rw [encodeMembers]
    simp only [List.forall_mem_append, List.forall_mem_cons]
    exact ⟨⟨encodeStr_printable k, by decide, by decide, encode_printable v⟩, by decide, nofun⟩
  | (k, v) :: x :: l =>
    rw [encodeMembers]
    simp only [List.forall_mem_append, List.forall_mem_cons]
    exact ⟨⟨encodeStr_printable k, by decide, by decide, encode_printable v⟩, by decide, by decide,
      encodeMembers_printable (x :: l)⟩

end

/-- The lines of a text, each with its line break, `current` being what was read of the first. -/
def linesFrom (current : List Char) : List Char → List (List Char)
  | [] => if current = [] then [] else [current]
  | c :: l => if c = '\n' then (current ++ [c]) :: linesFrom [] l else linesFrom (current ++ [c]) l

/-- One value on a line of its own. -/
def line (v : Value) : List Char := encode v ++ ['\n']

end Json
