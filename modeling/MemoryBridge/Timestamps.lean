import MemoryBridge.Embeddings
import MemoryBridge.Foundations.FixedWidth
import MemoryBridge.Foundations.SingleWriter.Readings
import MemoryBridge.Linearization
import Mathlib.Data.String.Basic

/-!
# Timestamps

All servers read one clock that never goes back. `memory_set`, as far as its event goes, and
`memory_delete` read it under the writer lock. The other tools that log, and `memory_set` for the
row of the fact, read it before they wait for the lock. So their times are out of order exactly if
others overtake them while they wait (`timestamps_ordered_iff`).
-/

open SingleWriter

namespace MemoryBridge

/-! ## The order of timestamps -/

/-- The fields of a clock reading, from the year on. -/
def Instant.fields (t : Instant) : List ℕ :=
  [t.year, t.month, t.day, t.hour, t.minute, t.second, t.microsecond]

/-- Clock readings are ordered by the time that they show. -/
instance : Preorder Instant := Preorder.lift Instant.fields

instance : DecidableLE Instant := fun t t' => inferInstanceAs (Decidable (t.fields ≤ t'.fields))

open FixedWidth in
theorem toList_zfill {k n : ℕ} (hk : 0 < k) (hn : n < 10 ^ k) :
    (PyText.zfill k n).toList = digits k n := by
  obtain ⟨k, rfl⟩ := Nat.exists_eq_succ_of_ne_zero hk.ne'
  have hlength : (toString n).length = (Nat.toDigits 10 n).length := by
    rw [← String.length_toList, Nat.toString_eq_repr, Nat.toList_repr]
  rw [PyText.zfill, String.toList_ofList, hlength, Nat.toString_eq_repr, Nat.toList_repr]
  exact replicate_append_toDigits hn

namespace Instant

open FixedWidth

theorem toList_strftime (t : Instant) : t.strftime.toList =
    digits 4 t.year ++ '-' :: (digits 2 t.month ++ '-' :: (digits 2 t.day ++ 'T' ::
      (digits 2 t.hour ++ ':' :: (digits 2 t.minute ++ ':' :: (digits 2 t.second ++ '.' ::
        (digits 6 t.microsecond ++ [])))))) := by
  obtain ⟨-, hy, -, hm, -, hd, hh, hmin, hs, hus⟩ := t.valid
  simp only [strftime, String.toList_append,
    toList_zfill (by decide : 0 < 4) (by omega : t.year < 10 ^ 4),
    toList_zfill (by decide : 0 < 2) (by omega : t.month < 10 ^ 2),
    toList_zfill (by decide : 0 < 2) (by omega : t.day < 10 ^ 2),
    toList_zfill (by decide : 0 < 2) (by omega : t.hour < 10 ^ 2),
    toList_zfill (by decide : 0 < 2) (by omega : t.minute < 10 ^ 2),
    toList_zfill (by decide : 0 < 2) (by omega : t.second < 10 ^ 2),
    toList_zfill (by decide : 0 < 6) (by omega : t.microsecond < 10 ^ 6)]
  simp

theorem strftime_le {t t' : Instant} (h : t ≤ t') : t.strftime.toList ≤ t'.strftime.toList := by
  obtain ⟨-, hy, -, hm, -, hd, hh, hmin, hs, hus⟩ := t'.valid
  have h : t.fields ≤ t'.fields := h
  simp only [fields, cons_le_cons_iff] at h
  rw [toList_strftime, toList_strftime]
  -- field by field, as long as the earlier ones agree
  refine digits_append_le (by omega) (h.imp_right (.imp_right fun h => List.cons_le_cons _ ?_))
  refine digits_append_le (by omega) (h.imp_right (.imp_right fun h => List.cons_le_cons _ ?_))
  refine digits_append_le (by omega) (h.imp_right (.imp_right fun h => List.cons_le_cons _ ?_))
  refine digits_append_le (by omega) (h.imp_right (.imp_right fun h => List.cons_le_cons _ ?_))
  refine digits_append_le (by omega) (h.imp_right (.imp_right fun h => List.cons_le_cons _ ?_))
  refine digits_append_le (by omega) (h.imp_right (.imp_right fun h => List.cons_le_cons _ ?_))
  exact digits_append_le (by omega) (h.imp_right (.imp_right fun _ => le_rfl))

/-- The texts of clock readings sort like the readings. -/
theorem text_le {t t' : Instant} (h : t ≤ t') : t.text ≤ t'.text := by
  have hlength : ∀ t : Instant, t.strftime.toList.length = 26 := by
    intro t
    rw [toList_strftime]
    simp
  rw [String.le_iff_toList_le]
  simp only [text, String.toList_append, String.toList_ofList, ← String.length_toList, hlength]
  refine append_le_append ?_ (take_le_take (strftime_le h) _) _
  rw [List.length_take, List.length_take, hlength, hlength]

end Instant

/-- Both are texts, and the first is not after the second. -/
def Cell.NotAfter : Cell → Cell → Prop
  | .text s, .text s' => s ≤ s'
  | _, _ => False

/-- The timestamps of the events do not decrease in id order. -/
def Ordered (d : Db) : Prop :=
  (selectEvents d).Pairwise fun e e' => e.timestamp.NotAfter e'.timestamp

instance : DecidableRel Cell.NotAfter := fun
  | .text s, .text s' => inferInstanceAs (Decidable (s ≤ s'))
  | .null, _ => isFalse id
  | .blob _, _ => isFalse id
  | .text _, .null => isFalse id
  | .text _, .blob _ => isFalse id

instance : DecidablePred Ordered := fun _ => inferInstanceAs (Decidable (List.Pairwise _ _))

/-- No timestamp of the contents is after a clock reading of this kind. -/
structure Before (X : Instant → Prop) (d : Db) : Prop where
  events : ∀ e ∈ selectEvents d, ∀ x, X x → e.timestamp.NotAfter (.text x.text)
  facts : ∀ k f, d.facts.lookup k = some f → ∀ x, X x → f.updatedAt ≤ x.text

/-! ## What a commit stamps -/

section Calls

variable {S : Type} [LinearOrder S] {rt : Runtime S} {cfg : Config} {ctx : Context} {c : Call}
  {h : List (Obs Db Instant)} {b w : Db}

/-- The tool reads the clock for its event before it waits for the lock. -/
def Call.StampsEarly : Call → Prop
  | .memoryGet _ _ => True
  | .memorySearch _ _ => True
  | .lockHold _ => True
  | _ => False

/-- An event has the time of the last clock reading before its commit. -/
theorem Own.stamped (ho : Own rt cfg ctx c h b w) :
    ∃ x e, (readings h).getLast? = some x ∧
      MemoryBridge.selectEvents w = MemoryBridge.selectEvents b ++ [e] ∧
      e.timestamp = .text (Instant.text x) := by
  cases ho with
  | @memorySet _ _ _ _ _ _ t₁ t₂ _ _ _ _ _ hs =>
    rcases hs.cases with ⟨-, hl⟩ | ⟨_, -, hl⟩
    · have he := hl.events
      rw [stored_events] at he
      exact ⟨t₂, _, rfl, he, rfl⟩
    · exact ⟨t₂, _, rfl, hl.events, rfl⟩
  | memoryGet _ _ _ hl => exact ⟨_, _, rfl, hl.events, rfl⟩
  | memorySearch _ _ _ hl => exact ⟨_, _, rfl, hl.events, rfl⟩
  | memoryDelete _ _ hl => exact ⟨_, _, rfl, hl.events, rfl⟩
  | lockHold _ _ hl => exact ⟨_, _, rfl, hl.events, rfl⟩

/-- The tools that do not stamp early read the clock for their event under the lock. -/
theorem Own.stamped_locked (ho : Own rt cfg ctx c h b w) (hc : ¬c.StampsEarly) :
    ∃ h₁ x, h = h₁ ++ [.lock b, .clock x] := by
  cases ho with
  | memorySet => exact ⟨[.clock _], _, rfl⟩
  | memoryDelete => exact ⟨[], _, rfl⟩
  | memoryGet => exact absurd trivial hc
  | memorySearch => exact absurd trivial hc
  | lockHold => exact absurd trivial hc

/-- A `memory_set` that takes effect writes the fact with the time of its first clock reading. -/
theorem Own.fact_of_admits {key value : String} {claimed expectedValue : Option String}
    {requireAbsent : Bool}
    (ho : Own rt cfg ctx (.memorySet key value claimed expectedValue requireAbsent) h b w)
    (hadmits : Admits key expectedValue requireAbsent b) :
    ∃ x f, (readings h).head? = some x ∧ w.facts.lookup key = some f ∧ f.updatedAt = x.text := by
  cases ho with
  | @memorySet _ _ cid _ _ _ t₁ t₂ _ _ _ _ _ hs =>
    rcases hs.cases with ⟨-, hl⟩ | ⟨why, rfl, -⟩
    · refine ⟨t₁, ⟨value, cid, t₁.text⟩, rfl, ?_, rfl⟩
      rw [hl.facts, stored_facts]
      exact AList.lookup_insert _
    · cases hs.admits_iff.2 hadmits

/-- The facts after a commit are those before it, except for one that a `memory_set` has written. -/
theorem Own.fact_cases {k : String} {f : Fact} (ho : Own rt cfg ctx c h b w)
    (hk : w.facts.lookup k = some f) :
    b.facts.lookup k = some f ∨ ∃ value claimed expectedValue requireAbsent x,
      c = .memorySet k value claimed expectedValue requireAbsent ∧
      Admits k expectedValue requireAbsent b ∧ (readings h).head? = some x ∧
      f.updatedAt = x.text := by
  cases ho with
  | @memorySet key value cid claimed expectedValue requireAbsent t₁ _ _ _ _ _ _ hs =>
    rcases hs.cases with ⟨hnone, hl⟩ | ⟨_, -, hl⟩
    · rw [hl.facts] at hk
      rcases lookup_stored hk with ⟨rfl, rfl⟩ | hk
      · exact .inr ⟨_, _, _, _, t₁, rfl, hs.admits_iff.1 hnone, rfl, rfl⟩
      · exact .inl hk
    · rw [hl.facts] at hk
      exact .inl hk
  | memoryGet _ _ _ hl => exact .inl (by rwa [hl.facts] at hk)
  | memorySearch _ _ _ hl => exact .inl (by rwa [hl.facts] at hk)
  | memoryDelete _ _ hl =>
    rw [hl.facts] at hk
    exact .inl (lookup_erased hk)
  | lockHold _ _ hl => exact .inl (by rwa [hl.facts] at hk)

omit [LinearOrder S] in
theorem Opened.readings {q : List (Obs Db Instant)} (hq : Opened rt q) :
    SingleWriter.readings q = [] := by
  cases hq <;> rfl

/-- A commit stamps at most one event and one fact, with the last and the first clock reading of its
call, or it is that of a migration. -/
theorem Commits.stamps (hc : Commits rt cfg ctx c h b w) :
    (readings h = [] ∧ selectEvents w = selectEvents b ∧ w.facts = b.facts) ∨
      ∃ h', Own rt cfg ctx c h' b w ∧ readings h = readings h' ∧
        ∃ q, h = q ++ h' := by
  rcases hc with ⟨d, rfl, -, hm⟩ | ⟨q, h', hq, rfl, ho⟩
  · refine .inl ⟨rfl, ?_⟩
    rcases hm with ⟨-, rfl⟩ | hm
    · exact ⟨rfl, rfl⟩
    · exact ⟨hm.events.1, hm.tables.1⟩
  · exact .inr ⟨h', ho, by rw [readings_append, hq.readings, List.nil_append], q, rfl⟩

end Calls

/-! ## Overtaken calls -/

section Runs

variable {ι : Type} [DecidableEq ι]

/-- The entry is the commit of a call that read the clock for its event before it waited for the
lock; since then others have committed an event with a later timestamp. -/
def EventOvertaken (d₀ : Db) (t : List (Entry ι (Context × Call) Db Instant PyExc String)) :
    Entry ι (Context × Call) Db Instant PyExc String → Prop
  | .obs p n c (.commit b _) => c.2.StampsEarly ∧ ∃ t₁ c' x t₂,
      t = t₁ ++ .obs p n c' (.clock x) :: t₂ ∧ readings (history t₂ p n) = [] ∧
      ∃ e ∈ (selectEvents b).drop (selectEvents (contents d₀ t₁)).length,
        ¬e.timestamp.NotAfter (.text x.text)
  | _ => False

/-- The entry is the commit of a `memory_set` that takes effect; since it read the clock for its
row, others have written the fact that it replaces, with a later time. -/
def FactOvertaken (d₀ : Db) (t : List (Entry ι (Context × Call) Db Instant PyExc String)) :
    Entry ι (Context × Call) Db Instant PyExc String → Prop
  | .obs p n c (.commit b _) => ∃ key value claimed expectedValue requireAbsent,
      c.2 = .memorySet key value claimed expectedValue requireAbsent ∧
      Admits key expectedValue requireAbsent b ∧ ∃ t₁ c' x t₂ f,
        t = t₁ ++ .obs p n c' (.clock x) :: t₂ ∧ readings (history t₁ p n) = [] ∧
        b.facts.lookup key = some f ∧ (contents d₀ t₁).facts.lookup key ≠ some f ∧
        ¬f.updatedAt ≤ x.text
  | _ => False

variable {S : Type} [LinearOrder S] {rt : Runtime S} {cfg : ι → Config} {d₀ : Db}
  {t : List (Entry ι (Context × Call) Db Instant PyExc String)} {X : Instant → Prop}
  {p : ι} {n : ℕ} {ctx : Context} {c : Call} {b w : Db}

theorem not_eventOvertaken {e : Entry ι (Context × Call) Db Instant PyExc String}
    (he : e.committed = none) : ¬EventOvertaken d₀ t e := by
  unfold EventOvertaken
  split
  · cases he
  · exact id

theorem not_factOvertaken {e : Entry ι (Context × Call) Db Instant PyExc String}
    (he : e.committed = none) : ¬FactOvertaken d₀ t e := by
  unfold FactOvertaken
  split
  · cases he
  · exact id

/-- A timestamp of the contents is from the start, or of an earlier clock reading. -/
theorem before_contents (hd : Before X d₀) (ht : TraceOk (serversSpec rt cfg) d₀ t) :
    Before (fun x => X x ∧ ∀ y ∈ clockReadings t, y ≤ x) (contents d₀ t) := by
  refine TraceOk.induction
    (P := fun t => Before (fun x => X x ∧ ∀ y ∈ clockReadings t, y ≤ x) (contents d₀ t))
    ⟨fun e he x hx => hd.events e he x hx.1, fun k f hk x hx => hd.facts k f hk x hx.1⟩ ?_ ht
  intro t e ht he ih
  have hlater : ∀ x, (X x ∧ ∀ y ∈ clockReadings (t ++ [e]), y ≤ x) →
      X x ∧ ∀ y ∈ clockReadings t, y ≤ x := by
    rintro x ⟨hx, hy⟩
    refine ⟨hx, fun y hm => hy y ?_⟩
    rw [clockReadings_append]
    exact List.mem_append_left _ hm
  have hkeep : Before (fun x => X x ∧ ∀ y ∈ clockReadings (t ++ [e]), y ≤ x) (contents d₀ t) :=
    ⟨fun e he x hx => ih.events e he x (hlater x hx),
      fun k f hk x hx => ih.facts k f hk x (hlater x hx)⟩
  rcases he.commit_cases with he | ⟨p, n, ⟨ctx, c⟩, w, rfl, hc⟩
  · rw [contents_keep he]
    exact hkeep
  · rw [contents_commit]
    have hstamp : ∀ x, x ∈ readings (history t p n) → ∀ y, (X y ∧ ∀ z ∈ clockReadings (t ++
        [.obs p n (ctx, c) (.commit (contents d₀ t) w)]), z ≤ y) → x.text ≤ y.text :=
      fun x hx y hy => Instant.text_le ((hlater y hy).2 x (mem_clockReadings_of_history hx))
    rcases hc.stamps with ⟨-, hev, hfacts⟩ | ⟨h', ho, hreadings, -⟩
    · constructor
      · rw [hev]
        exact hkeep.events
      · rw [hfacts]
        exact hkeep.facts
    · obtain ⟨x, e, hx, he, hts⟩ := ho.stamped
      rw [← hreadings] at hx
      constructor
      · intro e' he' y hy
        rw [he] at he'
        rcases List.mem_append.1 he' with he' | he'
        · exact hkeep.events e' he' y hy
        · rw [List.mem_singleton.1 he', hts]
          exact hstamp x (List.mem_of_getLast? hx) y hy
      · intro k f hk y hy
        rcases ho.fact_cases hk with hk | ⟨_, _, _, _, x, -, -, hx, hf⟩
        · exact hkeep.facts k f hk y hy
        · rw [← hreadings] at hx
          rw [hf]
          exact hstamp x (List.mem_of_head? hx) y hy

/-- The place of the reading that stamps an event: the tools that do not stamp early have the lock
already. -/
theorem Own.reading_place {h' q : List (Obs Db Instant)} {x : Instant}
    (ht : TraceOk (serversSpec rt cfg) d₀ (t ++ [.obs p n (ctx, c) (.commit b w)]))
    (ho : Own rt (cfg p) ctx c h' b w) (hh : history t p n = q ++ h')
    (hx : (readings (history t p n)).getLast? = some x) :
    ∃ t₁ c' t₂, t = t₁ ++ .obs p n c' (.clock x) :: t₂ ∧ readings (history t₂ p n) = [] ∧
      (c.StampsEarly ∨ contents d₀ t₁ = b) := by
  by_cases hc : c.StampsEarly
  · obtain ⟨t₁, c', t₂, rfl, h₂⟩ := reading_last.1 hx
    exact ⟨t₁, c', t₂, rfl, h₂, .inl hc⟩
  · obtain ⟨h₁, y, rfl⟩ := ho.stamped_locked hc
    have hlast : readings (history t p n) = readings (q ++ h₁) ++ [y] := by
      rw [hh, ← List.append_assoc, readings_append]
      rfl
    rw [hlast, List.getLast?_concat] at hx
    obtain rfl := Option.some.inj hx
    have hlock : history t p n = (q ++ h₁) ++ .lock b :: [.clock y] := by
      rw [hh, List.append_assoc]
    obtain ⟨u, c', v, rfl, -, hv, hno⟩ := ht.locked hlock (by simp)
    have hv : history v p n = [] ++ .clock y :: [] := hv
    obtain ⟨v₁, c'', v₂, rfl, h₁', h₂⟩ := history_eq_append_cons hv
    refine ⟨u ++ .obs p n c' (.lock b) :: v₁, c'', v₂, by simp, by rw [h₂]; rfl, .inr ?_⟩
    have hlock : b = contents d₀ u :=
      (ht.of_append u (.obs p n c' (.lock b)) _ rfl).seen
    have hv₁ : NoCommit v₁ := fun e he => hno e (List.mem_append_left _ he)
    show contents d₀ (u ++ .obs p n c' (.lock b) :: v₁) = b
    rw [contents_append, contents_cons, hv₁.contents]
    exact hlock.symm

/-- What was there when the clock was read is not later than the reading. -/
theorem before_reading (hd : Before X d₀) (ht : TraceOk (serversSpec rt cfg) d₀ t)
    (hclock : (clockReadings t).Pairwise (· ≤ ·)) (hX : ∀ x ∈ clockReadings t, X x)
    {t₁ t₂ : List (Entry ι (Context × Call) Db Instant PyExc String)} {c' : Context × Call}
    {x : Instant} (heq : t = t₁ ++ .obs p n c' (.clock x) :: t₂) :
    Before (· = x) (contents d₀ t₁) := by
  subst heq
  have hb := before_contents hd ht.of_append
  have hx : X x ∧ ∀ y ∈ clockReadings t₁, y ≤ x := by
    refine ⟨hX x (mem_clockReadings.2 ⟨p, n, c', by simp⟩), fun y hy => ?_⟩
    rw [clockReadings_append] at hclock
    exact (List.pairwise_append.1 hclock).2.2 y hy x (mem_clockReadings.2 ⟨p, n, c', by simp⟩)
  constructor
  · rintro e he _ rfl
    exact hb.events e he _ hx
  · rintro k f hf _ rfl
    exact hb.facts k f hf _ hx

/-- **Events, one commit.** The events stay in order exactly if the call was not overtaken. -/
theorem ordered_commit_iff (hd : Before X d₀)
    (ht : TraceOk (serversSpec rt cfg) d₀ (t ++ [.obs p n (ctx, c) (.commit b w)]))
    (hclock : (clockReadings t).Pairwise (· ≤ ·)) (hX : ∀ x ∈ clockReadings t, X x) :
    Ordered w ↔ Ordered b ∧ ¬EventOvertaken d₀ t (.obs p n (ctx, c) (.commit b w)) := by
  obtain ⟨rfl, hc, -⟩ := ht.last.seen
  have ht' := ht.of_append
  rcases hc.stamps with ⟨hnone, hev, -⟩ | ⟨h', ho, hreadings, q, hh⟩
  · -- the commit of a migration stamps nothing
    unfold Ordered
    rw [hev]
    refine (and_iff_left ?_).symm
    rintro ⟨-, t₁, c', x, t₂, heq, h₂, -⟩
    have hx : (readings (history t p n)).getLast? = some x :=
      reading_last.2 ⟨t₁, c', t₂, heq, h₂⟩
    rw [hnone] at hx
    cases hx
  · obtain ⟨x, e, hx, he, hts⟩ := ho.stamped
    rw [← hreadings] at hx
    have hsplit : Ordered w ↔ Ordered (contents d₀ t) ∧
        ∀ e' ∈ selectEvents (contents d₀ t), e'.timestamp.NotAfter (.text x.text) := by
      unfold Ordered
      rw [he, List.pairwise_append]
      simp [hts]
    rw [hsplit]
    refine and_congr_right fun _ => ⟨?_, fun hnot e' he' => ?_⟩
    · rintro hall ⟨-, t₁, c', y, t₂, heq, h₂, e', he', hafter⟩
      have hy : (readings (history t p n)).getLast? = some y :=
        reading_last.2 ⟨t₁, c', t₂, heq, h₂⟩
      obtain rfl := Option.some.inj (hx.symm.trans hy)
      exact hafter (hall e' (List.mem_of_mem_drop he'))
    · obtain ⟨t₁, c', t₂, heq, h₂, hplace⟩ := ho.reading_place ht hh hx
      have hold := (before_reading hd ht' hclock hX heq).events
      rcases hplace with hearly | hplace
      · obtain ⟨rest, hrest⟩ :=
          selectEvents_prefix ht' ⟨_, heq.symm⟩ (List.prefix_rfl (l := t))
        rw [← hrest] at he'
        rcases List.mem_append.1 he' with he' | he'
        · exact hold e' he' x rfl
        · by_contra hafter
          refine hnot ⟨hearly, t₁, c', x, t₂, heq, h₂, e', ?_, hafter⟩
          rw [← hrest, List.drop_left]
          exact he'
      · rw [← hplace] at he'
        exact hold e' he' x rfl

/-- **Facts, one commit.** No fact gets an earlier time exactly if the call was not overtaken. -/
theorem replaced_commit_iff (hd : Before X d₀)
    (ht : TraceOk (serversSpec rt cfg) d₀ (t ++ [.obs p n (ctx, c) (.commit b w)]))
    (hclock : (clockReadings t).Pairwise (· ≤ ·)) (hX : ∀ x ∈ clockReadings t, X x) :
    (∀ k f f', b.facts.lookup k = some f → w.facts.lookup k = some f' →
      f.updatedAt ≤ f'.updatedAt) ↔
      ¬FactOvertaken d₀ t (.obs p n (ctx, c) (.commit b w)) := by
  obtain ⟨rfl, hc, -⟩ := ht.last.seen
  have ht' := ht.of_append
  constructor
  · rintro hall ⟨key, _, _, _, _, rfl, hadmits, t₁, c', x, t₂, f, heq, h₁, hf, -, hafter⟩
    have hx : (readings (history t p n)).head? = some x := reading_first.2 ⟨t₁, c', t₂, heq, h₁⟩
    rcases hc.stamps with ⟨hnone, -⟩ | ⟨h', ho, hreadings, -⟩
    · rw [hnone] at hx
      cases hx
    · obtain ⟨y, f', hy, hf', hupdated⟩ := ho.fact_of_admits hadmits
      rw [← hreadings] at hy
      obtain rfl := Option.some.inj (hx.symm.trans hy)
      exact hafter (hupdated ▸ hall key f f' hf hf')
  · intro hnot k f f' hf hf'
    have hsame : (contents d₀ t).facts.lookup k = some f' → f.updatedAt ≤ f'.updatedAt := by
      intro hk
      rw [Option.some.inj (hf.symm.trans hk)]
    rcases hc.stamps with ⟨-, -, hfacts⟩ | ⟨h', ho, hreadings, -⟩
    · exact hsame (hfacts ▸ hf')
    · rcases ho.fact_cases hf' with hk | ⟨_, _, _, _, x, rfl, hadmits, hx, hupdated⟩
      · exact hsame hk
      · rw [← hreadings] at hx
        obtain ⟨t₁, c', t₂, heq, h₁⟩ := reading_first.1 hx
        rw [hupdated]
        by_contra hafter
        refine hnot ⟨k, _, _, _, _, rfl, hadmits, t₁, c', x, t₂, f, heq, h₁, hf,
          fun hold => hafter ?_, hafter⟩
        exact (before_reading hd ht' hclock hX heq).facts k f hold x rfl

/-- **Events, a run.** -/
theorem ordered_contents_iff (hd : Before X d₀) (hordered : Ordered d₀)
    (ht : TraceOk (serversSpec rt cfg) d₀ t) (hclock : (clockReadings t).Pairwise (· ≤ ·))
    (hX : ∀ x ∈ clockReadings t, X x) :
    Ordered (contents d₀ t) ↔ ¬Somewhere (EventOvertaken d₀) t := by
  refine TraceOk.induction (P := fun t => (clockReadings t).Pairwise (· ≤ ·) →
    (∀ x ∈ clockReadings t, X x) → (Ordered (contents d₀ t) ↔ ¬Somewhere (EventOvertaken d₀) t))
    (fun _ _ => iff_of_true hordered ?_) ?_ ht hclock hX
  · rintro ⟨t₁, e, t₂, heq, -⟩
    simp at heq
  · intro t e ht he ih hclock hX
    rw [clockReadings_append] at hclock hX
    have hclock' := (List.pairwise_append.1 hclock).1
    have hX' := fun x hx => hX x (List.mem_append_left _ hx)
    rw [somewhere_snoc, not_or, ← ih hclock' hX']
    rcases he.commit_cases with hn | ⟨p, n, ⟨ctx, c⟩, w, rfl, -⟩
    · rw [contents_keep hn]
      exact (and_iff_left (not_eventOvertaken hn)).symm
    · rw [contents_commit]
      exact ordered_commit_iff hd (ht.snoc he) hclock' hX'

/-- **Facts, a run.** -/
theorem replaced_contents_iff (hd : Before X d₀) (ht : TraceOk (serversSpec rt cfg) d₀ t)
    (hclock : (clockReadings t).Pairwise (· ≤ ·)) (hX : ∀ x ∈ clockReadings t, X x) :
    (∀ p n c b w, .obs p n c (.commit b w) ∈ t → ∀ k f f', b.facts.lookup k = some f →
      w.facts.lookup k = some f' → f.updatedAt ≤ f'.updatedAt) ↔
      ¬Somewhere (FactOvertaken d₀) t := by
  have hstep : ∀ t₁ p n ctx c b w t₂, t = t₁ ++ .obs p n (ctx, c) (.commit b w) :: t₂ →
      ((∀ k f f', b.facts.lookup k = some f → w.facts.lookup k = some f' →
        f.updatedAt ≤ f'.updatedAt) ↔
        ¬FactOvertaken d₀ t₁ (.obs p n (ctx, c) (.commit b w))) := by
    rintro t₁ p n ctx c b w t₂ rfl
    rw [clockReadings_append] at hclock hX
    rw [← List.singleton_append, ← List.append_assoc] at ht
    exact replaced_commit_iff hd ht.of_append (List.pairwise_append.1 hclock).1
      fun x hx => hX x (List.mem_append_left _ hx)
  constructor
  · rintro hall ⟨t₁, e, t₂, heq, hover⟩
    rcases e.committed_cases with hn | ⟨p, n, ⟨ctx, c⟩, b, w, rfl⟩
    · exact not_factOvertaken hn hover
    · exact (hstep t₁ p n ctx c b w t₂ heq).1 (hall p n (ctx, c) b w (by simp [heq])) hover
  · rintro hnot p n ⟨ctx, c⟩ b w hm
    obtain ⟨t₁, t₂, heq⟩ := List.append_of_mem hm
    exact (hstep t₁ p n ctx c b w t₂ heq).2 fun hover => hnot ⟨t₁, _, t₂, heq, hover⟩

variable {s₀ s : Sys ι (Context × Call) Db Instant Failure Bool PyExc String}

/-- **When timestamps follow the commit order.** Servers that read one clock which never goes back,
over a store with no later timestamps. The events are in order exactly if no `memory_get`,
`memory_search` or `lock_hold` was overtaken between its clock reading and its lock, and a fact is
never replaced by one with an earlier time exactly if no `memory_set` was. -/
theorem timestamps_ordered_iff (h₀ : s₀.Init) (h : Reach (servers rt cfg) s₀ s)
    (hclock : (clockReadings s.trace).Pairwise (· ≤ ·)) (hordered : Ordered s₀.db)
    (hd : Before (· ∈ clockReadings s.trace) s₀.db) :
    (Ordered s.db ↔ ¬Somewhere (EventOvertaken s₀.db) s.trace) ∧
      ((∀ p n c b w, .obs p n c (.commit b w) ∈ s.trace → ∀ k f f', b.facts.lookup k = some f →
        w.facts.lookup k = some f' → f.updatedAt ≤ f'.updatedAt) ↔
        ¬Somewhere (FactOvertaken s₀.db) s.trace) := by
  have g := Reach.good (meets cfg) h₀ h
  refine ⟨?_, replaced_contents_iff hd g.trace hclock fun x hx => hx⟩
  rw [g.db]
  exact ordered_contents_iff hd hordered g.trace hclock fun x hx => hx

end Runs

/-! ## A write and a read that wait -/

/-- The first milliseconds of a year. -/
def Instant.early (ms : Fin 1000) : Instant := ⟨2026, 1, 1, 0, 0, 0, 1000 * ms, by omega⟩

/-- The first server has read the clock for a write, and later for the event of a read, when the
second one writes the key. -/
def waitingTurns : List (Sys.Turn ℕ (Context × Call) Instant) :=
  [⟨0, some (⟨none⟩, .memorySet "k" "a" none none false), .early 0, 8⟩,
    ⟨1, some (⟨none⟩, .memorySet "k" "b" none none false), .early 1, 40⟩,
    ⟨0, none, .early 1, 40⟩,
    ⟨0, some (⟨none⟩, .memoryGet "k" false), .early 1, 5⟩,
    ⟨1, some (⟨none⟩, .memorySet "k" "c" none none false), .early 2, 40⟩,
    ⟨0, none, .early 2, 40⟩]

/-- The entry is a commit that replaces the fact of `k` by one with an earlier time. -/
def setsBack (k : String) {ι : Type} : Entry ι (Context × Call) Db Instant PyExc String → Bool
  | .obs _ _ _ (.commit b w) => (b.facts.lookup k).any fun f => (w.facts.lookup k).any fun f' =>
      !decide (f.updatedAt ≤ f'.updatedAt)
  | _ => false

/-- The run of these turns. -/
theorem waiting_run : ∃ s : Sys ℕ (Context × Call) Db Instant Failure Bool PyExc String,
    Reach sampleServers (.initial .opened false) s ∧
    (clockReadings s.trace).Pairwise (· ≤ ·) ∧ ¬Ordered s.db ∧
    s.trace.any (setsBack "k") = true := by
  have h : (((Sys.initial .opened false).turns sampleServers waitingTurns).map fun s =>
      (decide ((clockReadings s.trace).Pairwise (· ≤ ·)), decide (Ordered s.db),
        s.trace.any (setsBack "k"))) = some (true, false, true) := by
    decide +kernel
  obtain ⟨s, hs, hv⟩ := Option.map_eq_some_iff.1 h
  obtain ⟨hclock, hrest⟩ := Prod.mk.inj hv
  obtain ⟨hordered, hback⟩ := Prod.mk.inj hrest
  exact ⟨s, Sys.reach_of_turns (fun _ _ _ _ => trivial) hs, of_decide_eq_true hclock,
    of_decide_eq_false hordered, hback⟩

/-- The read of this run was overtaken. -/
theorem timestamps_ordered_iff_sample :
    ∃ s : Sys ℕ (Context × Call) Db Instant Failure Bool PyExc String,
      Reach sampleServers (.initial .opened false) s ∧
      Somewhere (EventOvertaken .opened) s.trace := by
  obtain ⟨s, hs, hclock, hordered, -⟩ := waiting_run
  refine ⟨s, hs, ?_⟩
  by_contra hnot
  have hstart : Ordered .opened := List.Pairwise.nil
  have hd : Before (· ∈ clockReadings s.trace) .opened :=
    ⟨fun e he => absurd he List.not_mem_nil, fun k f hf => by cases hf⟩
  have hmain := timestamps_ordered_iff (Sys.initial_init Db.opened false) hs hclock hstart hd
  exact hordered (hmain.1.2 hnot)

/-- **Timestamps out of order.** On a clock that never goes back, the event of the read has an
earlier time than the one before it, and the first write sets the time of the fact back. -/
theorem timestamps_out_of_order :
    ∃ s : Sys ℕ (Context × Call) Db Instant Failure Bool PyExc String,
      Reach sampleServers (.initial .opened false) s ∧
      (clockReadings s.trace).Pairwise (· ≤ ·) ∧ ¬Ordered s.db ∧
      ∃ p n c b w f f', .obs p n c (.commit b w) ∈ s.trace ∧ b.facts.lookup "k" = some f ∧
        w.facts.lookup "k" = some f' ∧ ¬f.updatedAt ≤ f'.updatedAt := by
  obtain ⟨s, hs, hclock, hordered, hback⟩ := waiting_run
  refine ⟨s, hs, hclock, hordered, ?_⟩
  obtain ⟨e, he, hb⟩ := List.any_eq_true.1 hback
  unfold setsBack at hb
  split at hb
  case h_1 p n c b w =>
    obtain ⟨f, hf, hb⟩ := (Option.any_eq_true _ _).1 hb
    obtain ⟨f', hf', hb⟩ := (Option.any_eq_true _ _).1 hb
    exact ⟨p, n, c, b, w, f, f', he, hf, hf', by simpa using hb⟩
  case h_2 => cases hb

end MemoryBridge
