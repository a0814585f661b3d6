import MemoryBridge.Calls
import Mathlib.Data.List.Infix
import Mathlib.Data.List.TakeWhile
import Mathlib.Data.String.Basic

/-!
# Listing by prefix

`memory_list` escapes its prefix and matches it with LIKE, and the escaping is right: the pattern
matches the keys that start with the prefix letter by letter (`likeMatch_listPattern`). But LIKE
takes the letters of ASCII for the same in either case, and U+FFFD to U+FFFF for one character,
reads the pattern and the key up to their first NUL, and refuses patterns of more than 50000 bytes.
So the rows are those of the facts whose key starts with the prefix exactly if no key only looks as
if it did (`ListsExactly`).
-/

open SingleWriter

namespace MemoryBridge

open PyText

/-! ## The pattern -/

/-- The characters that have a meaning in a pattern. -/
def isSpecial (c : Char) : Bool := c == '\\' || c == '%' || c == '_'

/-- A character of the prefix, as the pattern has it. -/
def escaped (c : Char) : List Char := if isSpecial c then ['\\', c] else [c]

/-- The three replacements escape each character by itself. -/
theorem toList_listPattern (start : String) :
    (listPattern start).toList = start.toList.flatMap escaped ++ ['%'] := by
  have hchain (c : Char) :
      (((if c = '\\' then "\\\\".toList else [c]).flatMap fun x =>
        if x = '%' then "\\%".toList else [x]).flatMap fun x =>
          if x = '_' then "\\_".toList else [x]) = escaped c := by
    by_cases h₁ : c = '\\'
    · subst h₁; rfl
    by_cases h₂ : c = '%'
    · subst h₂; rfl
    by_cases h₃ : c = '_'
    · subst h₃; rfl
    simp [h₁, h₂, h₃, escaped, isSpecial]
  simp only [listPattern, replaceChar, String.toList_append, String.toList_ofList,
    List.flatMap_assoc]
  congr 1
  refine List.flatMap_congr fun c _ => ?_
  rw [← hchain c, List.flatMap_assoc]

/-- The bytes of the pattern: those of the prefix, a backslash for each special character, the
final `%`. -/
theorem utf8ByteSize_listPattern (start : String) :
    (listPattern start).utf8ByteSize =
      start.utf8ByteSize + start.toList.countP isSpecial + 1 := by
  have hsize (l : List Char) :
      (String.ofList l).utf8ByteSize = (l.map Char.utf8Size).sum := by
    induction l with
    | nil => rfl
    | cons c l ih =>
      have hcons : String.ofList (c :: l) = String.singleton c ++ String.ofList l := by
        rw [String.singleton_eq_ofList, ← String.ofList_append]
        rfl
      rw [hcons, String.utf8ByteSize_append, String.utf8ByteSize_singleton, ih, List.map_cons,
        List.sum_cons]
  have hescaped (l : List Char) : ((l.flatMap escaped).map Char.utf8Size).sum =
      (l.map Char.utf8Size).sum + l.countP isSpecial := by
    induction l with
    | nil => rfl
    | cons c l ih =>
      rw [List.flatMap_cons, List.map_append, List.sum_append, ih, List.map_cons, List.sum_cons,
        List.countP_cons, escaped]
      have hback : '\\'.utf8Size = 1 := by decide
      split <;> simp [hback] <;> omega
  have hpercent : '%'.utf8Size = 1 := by decide
  rw [← String.ofList_toList (s := listPattern start), toList_listPattern, hsize, List.map_append,
    List.sum_append, hescaped, ← hsize, String.ofList_toList]
  simp [hpercent]

/-! ## Matching -/

/-- The texts that LIKE takes for the same. -/
def Alike : List Char → List Char → Prop := List.Forall₂ fun a b => sameLetter a b = true

theorem Alike.refl (l : List Char) : Alike l l :=
  List.forall₂_same.2 fun c _ => by simp [sameLetter]

/-- One character of the prefix is matched by one of the key. -/
theorem likeMatch_escaped_append (c : Char) (p : List Char) :
    ∀ s, likeMatch (escaped c ++ p) s = true ↔
      ∃ x s', s = x :: s' ∧ sameLetter c x = true ∧ likeMatch p s' = true := by
  intro s
  by_cases hc : isSpecial c = true
  · rw [escaped, if_pos hc]
    cases s with
    | nil => simp [likeMatch]
    | cons x s => simp [likeMatch]
  · have hne : c ≠ '\\' ∧ c ≠ '%' ∧ c ≠ '_' := by simpa [isSpecial, and_assoc] using hc
    rw [escaped, if_neg hc]
    cases s with
    | nil => simp [likeMatch, hne]
    | cons x s => simp [likeMatch, hne]

theorem likeMatch_flatMap_escaped (l p s : List Char) :
    likeMatch (l.flatMap escaped ++ p) s = true ↔
      ∃ s₁ s₂, s = s₁ ++ s₂ ∧ Alike l s₁ ∧ likeMatch p s₂ = true := by
  induction l generalizing s with
  | nil => simp [Alike]
  | cons c l ih =>
    rw [List.flatMap_cons, List.append_assoc, likeMatch_escaped_append]
    constructor
    · rintro ⟨x, s', rfl, hx, hs⟩
      obtain ⟨s₁, s₂, rfl, hl, hp⟩ := (ih s').1 hs
      exact ⟨x :: s₁, s₂, rfl, .cons hx hl, hp⟩
    · rintro ⟨s₁, s₂, rfl, hl, hp⟩
      cases hl with
      | cons hx hl => exact ⟨_, _, rfl, hx, (ih _).2 ⟨_, _, rfl, hl, hp⟩⟩

/-- A final `%` matches any rest. -/
theorem likeMatch_percent (s : List Char) : likeMatch ['%'] s = true := by
  rw [likeMatch, List.any_eq_true]
  exact ⟨[], (List.mem_tails _ _).2 List.nil_suffix, rfl⟩

/-- The key looks as if it started with `start`: letters of ASCII may differ in their case,
characters that SQLite reads as the same may differ, and the key ends at its first NUL. If `start`
has a NUL, too, there is nothing after it in the pattern, and the key has to end where `start`
does. -/
def LooksLike (start key : String) : Prop :=
  if '\x00' ∈ start.toList then Alike (cString start) (cString key)
  else ∃ s₁, s₁ <+: cString key ∧ Alike start.toList s₁

theorem cString_listPattern (start : String) :
    cString (listPattern start) =
      if '\x00' ∈ start.toList then (cString start).flatMap escaped
      else start.toList.flatMap escaped ++ ['%'] := by
  unfold cString
  rw [toList_listPattern]
  have hescaped (c : Char) (hc : c ≠ '\x00') : ∀ x ∈ escaped c, x ≠ '\x00' := by
    intro x hx
    unfold escaped at hx
    split at hx
    · rcases List.mem_cons.1 hx with rfl | hx
      · decide
      · rwa [List.mem_singleton.1 hx]
    · rwa [List.mem_singleton.1 hx]
  generalize start.toList = l
  induction l with
  | nil => rfl
  | cons c l ih =>
    by_cases hc : c = '\x00'
    · subst hc
      simp [escaped, isSpecial]
    · have hne : '\x00' ≠ c := Ne.symm hc
      rw [List.flatMap_cons, List.append_assoc,
        List.takeWhile_append_of_pos (by simpa using hescaped c hc), ih]
      by_cases hl : '\x00' ∈ l <;> simp [hl, hne, hc]

/-- **What `memory_list` matches.** -/
theorem likeMatch_listPattern (start key : String) :
    likeMatch (cString (listPattern start)) (cString key) = true ↔ LooksLike start key := by
  unfold LooksLike
  rw [cString_listPattern]
  split
  · rw [← List.append_nil ((cString start).flatMap escaped), likeMatch_flatMap_escaped]
    constructor
    · rintro ⟨s₁, s₂, hs, hl, hp⟩
      obtain rfl : s₂ = [] := by simpa [likeMatch] using hp
      rwa [hs, List.append_nil]
    · exact fun hl => ⟨_, [], (List.append_nil _).symm, hl, rfl⟩
  · rw [likeMatch_flatMap_escaped]
    constructor
    · rintro ⟨s₁, s₂, hs, hl, -⟩
      exact ⟨s₁, ⟨s₂, hs.symm⟩, hl⟩
    · rintro ⟨s₁, ⟨s₂, hs⟩, hl⟩
      exact ⟨s₁, s₂, hs.symm, hl, likeMatch_percent s₂⟩

/-- `key.startswith(start)` -/
def StartsWith (start key : String) : Prop := start.toList <+: key.toList

/-- The keys that start with the prefix are matched. -/
theorem StartsWith.looksLike {start key : String} (h : StartsWith start key) :
    LooksLike start key := by
  obtain ⟨rest, hkey⟩ := h
  unfold LooksLike cString
  rw [← hkey]
  split
  case isTrue hnul =>
    rw [List.takeWhile_append, if_neg]
    · exact Alike.refl _
    · intro hlen
      have hall := List.takeWhile_eq_self_iff.1
        ((List.takeWhile_prefix _).eq_of_length hlen) _ hnul
      simp at hall
  case isFalse hnul =>
    refine ⟨start.toList, ?_, Alike.refl _⟩
    rw [List.takeWhile_append_of_pos fun c hc => by
      simpa using fun h : c = '\x00' => hnul (h ▸ hc)]
    exact List.prefix_append _ _

/-! ## The rows -/

/-- `memory_list` lists exactly the facts whose key starts with the prefix, each once, in the order
of their keys. -/
def ListsExactly (d : Db) (start : String) : Prop :=
  ∃ rows, selectLike (listPattern start) d = .ok rows ∧
    (∀ key f, (key, f) ∈ rows ↔ d.facts.lookup key = some f ∧ StartsWith start key) ∧
    (rows.map Prod.fst).Pairwise (· < ·)

/-- Rows sorted by keys that are all different. -/
theorem pairwise_sorted {α : Type} {rows : List (String × α)} (h : (rows.map Prod.fst).Nodup) :
    ((rows.insertionSort fun a b => a.1 ≤ b.1).map Prod.fst).Pairwise (· < ·) := by
  have : Std.Total fun a b : String × α => a.1 ≤ b.1 := ⟨fun a b => le_total a.1 b.1⟩
  have : IsTrans (String × α) fun a b => a.1 ≤ b.1 := ⟨fun _ _ _ => le_trans⟩
  have hle := List.pairwise_insertionSort (fun a b : String × α => a.1 ≤ b.1) rows
  have hne : ((rows.insertionSort fun a b => a.1 ≤ b.1).map Prod.fst).Nodup :=
    ((List.perm_insertionSort _ rows).map Prod.fst).nodup_iff.2 h
  exact (List.pairwise_map.2 hle).imp₂ (fun _ _ => lt_of_le_of_ne) hne

/-- The rows of the facts whose key looks as if it started with the prefix, in the order of their
keys, if SQLite accepts the pattern. -/
theorem selectLike_eq_ok {d : Db} {start : String} {rows : List (String × Fact)}
    (h : selectLike (listPattern start) d = .ok rows) :
    (∀ key f, (key, f) ∈ rows ↔ d.facts.lookup key = some f ∧ LooksLike start key) ∧
      (rows.map Prod.fst).Pairwise (· < ·) := by
  unfold selectLike at h
  simp only at h
  split at h
  · cases h
  · obtain rfl := Except.ok.inj h
    constructor
    · intro key f
      rw [List.mem_insertionSort, List.mem_filter, likeMatch_listPattern]
      refine and_congr_left fun _ => ?_
      rw [← Option.mem_def, AList.mem_lookup_iff, List.mem_map]
      constructor
      · rintro ⟨r, hr, heq⟩
        obtain ⟨rfl, rfl⟩ := Prod.mk.inj heq
        exact hr
      · exact fun hr => ⟨_, hr, rfl⟩
    · refine pairwise_sorted ((List.filter_sublist.map _).nodup ?_)
      rw [List.map_map]
      exact d.facts.nodupKeys

/-- SQLite accepts the pattern, or there is no row to match it against. -/
def Accepted (d : Db) (start : String) : Prop :=
  (∀ key, key ∉ d.facts) ∨ start.utf8ByteSize + start.toList.countP isSpecial + 1 ≤ 50000

theorem selectLike_isOk_iff {d : Db} {start : String} :
    (∃ rows, selectLike (listPattern start) d = .ok rows) ↔ Accepted d start := by
  have hempty : d.facts.entries.map (fun r => (r.1, r.2)) = [] ↔ ∀ key, key ∉ d.facts := by
    rw [List.map_eq_nil_iff, ← List.map_eq_nil_iff (f := Sigma.fst), List.eq_nil_iff_forall_not_mem]
    rfl
  unfold selectLike Accepted
  rw [← utf8ByteSize_listPattern, ← hempty]
  simp only
  split
  case isTrue h =>
    refine iff_of_false (fun ⟨_, hr⟩ => by cases hr) fun hor => ?_
    exact hor.elim h.1 fun hle => absurd h.2 (by omega)
  case isFalse h =>
    refine iff_of_true ⟨_, rfl⟩ ?_
    by_cases hr : d.facts.entries.map (fun r => (r.1, r.2)) = []
    · exact .inl hr
    · exact .inr (Nat.le_of_not_lt fun hlt => h ⟨hr, hlt⟩)

theorem listsExactly_iff (d : Db) (start : String) : ListsExactly d start ↔
    Accepted d start ∧ ∀ key ∈ d.facts, LooksLike start key → StartsWith start key := by
  constructor
  · rintro ⟨rows, hrows, hmem, -⟩
    refine ⟨selectLike_isOk_iff.1 ⟨rows, hrows⟩, fun key hkey hlike => ?_⟩
    obtain ⟨f, hf⟩ := Option.isSome_iff_exists.1 (AList.lookup_isSome.2 hkey)
    exact ((hmem key f).1 (((selectLike_eq_ok hrows).1 key f).2 ⟨hf, hlike⟩)).2
  · rintro ⟨haccepted, hexact⟩
    obtain ⟨rows, hrows⟩ := selectLike_isOk_iff.2 haccepted
    obtain ⟨hmem, hsorted⟩ := selectLike_eq_ok hrows
    refine ⟨rows, hrows, fun key f => (hmem key f).trans (and_congr_right fun hf => ?_), hsorted⟩
    have hkey : key ∈ d.facts := AList.lookup_isSome.1 (by rw [hf]; rfl)
    exact ⟨hexact key hkey, StartsWith.looksLike⟩

/-! ## The call -/

/-- An answer of `memory_list` shows the rows of the store that the call has read. -/
theorem list_reply {S : Type} [LinearOrder S] {rt : Runtime S} {ι : Type} [DecidableEq ι]
    {cfg : ι → Config} {d₀ : Db} {t : List (Entry ι (Context × Call) Db Instant PyExc String)}
    (ht : TraceOk (serversSpec rt cfg) d₀ t) {p : ι} {n : ℕ} {ctx : Context} {start text : String}
    (hr : .reply p n (ctx, .memoryList start) (.ok text) ∈ t) :
    ∃ t₁ rows, ReadsAt d₀ t p n (ctx, .memoryList start) t₁ ∧
      selectLike (listPattern start) (contents d₀ t₁) = .ok rows ∧
      text = listAnswer rt start rows := by
  obtain ⟨_, ⟨r', ⟨q, h', hq, rfl, hres⟩, hrr⟩, hreads⟩ := ht.reply_reads hr
  rcases hres with ha | ⟨-, e, -, rfl⟩
  · cases ha with
    | @memoryList _ d =>
      obtain ⟨t₁, hat, rfl⟩ := hreads d (by simp)
      cases hrows : selectLike (listPattern start) (contents d₀ t₁) with
      | error e =>
        rw [hrows] at hrr
        cases hrr
      | ok rows =>
        rw [hrows] at hrr
        exact ⟨t₁, rows, hat, hrows, Except.ok.inj hrr⟩
  · cases hrr

/-- **When a listing is exact.** The rows of `memory_list` are those of the facts whose key starts
with the prefix exactly if SQLite accepts the pattern and every key that looks as if it started with
the prefix does. A call that returns shows the rows of one committed state, which it has read. -/
theorem list_exact_iff (start : String) :
    (∀ d : Db, ListsExactly d start ↔
      Accepted d start ∧ ∀ key ∈ d.facts, LooksLike start key → StartsWith start key) ∧
    ∀ {S : Type} [LinearOrder S] {rt : Runtime S} {ι : Type} [DecidableEq ι] {cfg : ι → Config}
      {s₀ s : Sys ι (Context × Call) Db Instant Failure Bool PyExc String},
      s₀.Init → Reach (servers rt cfg) s₀ s →
      ∀ p n ctx text, .reply p n (ctx, .memoryList start) (.ok text) ∈ s.trace →
        ∃ t₁ rows, ReadsAt s₀.db s.trace p n (ctx, .memoryList start) t₁ ∧
          selectLike (listPattern start) (contents s₀.db t₁) = .ok rows ∧
          text = listAnswer rt start rows :=
  ⟨fun d => listsExactly_iff d start,
    fun h₀ h _ _ _ _ hr => list_reply (Reach.good (meets _) h₀ h).trace hr⟩

/-! ## Two stores -/

/-- A store with facts under these keys. -/
def storeOf (keys : List String) : Db :=
  { Db.empty with
    facts := keys.foldr (fun key t => t.insert key ⟨"v", "alice", "2026-01-01T00:00:00.000Z"⟩) ∅ }

/-- A prefix full of special characters, among keys that it would match without the escaping. -/
theorem list_exact_iff_sample :
    ListsExactly (storeOf ["100%_\\x", "100%_\\", "100ab\\", "1000"]) "100%_\\" := by
  refine ((list_exact_iff _).1 _).2 ⟨.inr (by decide +kernel), fun key hkey hlike => ?_⟩
  rw [← likeMatch_listPattern] at hlike
  have hkeys : key ∈ ["100%_\\x", "100%_\\", "100ab\\", "1000"] := hkey
  simp only [List.mem_cons, List.not_mem_nil, or_false] at hkeys
  unfold StartsWith
  rcases hkeys with rfl | rfl | rfl | rfl
  · decide
  · decide
  · exact absurd hlike (by decide +kernel)
  · exact absurd hlike (by decide +kernel)

/-- **A listing that ignores case.** The prefix `User` lists the fact under `user/theme`. -/
theorem list_ignores_case : ¬ListsExactly (storeOf ["user/theme"]) "User" := by
  rintro ⟨rows, hrows, hmem, -⟩
  have hlike : LooksLike "User" "user/theme" :=
    (likeMatch_listPattern _ _).1 (by decide +kernel)
  have hstarts : StartsWith "User" "user/theme" :=
    ((hmem _ _).1 (((selectLike_eq_ok hrows).1 "user/theme" _).2 ⟨rfl, hlike⟩)).2
  unfold StartsWith at hstarts
  exact absurd hstarts (by decide)

end MemoryBridge
