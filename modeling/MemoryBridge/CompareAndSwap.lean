import MemoryBridge.Linearization

/-!
# Compare-and-swap loses no update

Clients that change the fact of a key only by attempts to replace a value `v` by `f v`, each under
the condition that the key still has the value `v`. Whatever they have read before, and however
stale it is, an attempt that takes effect replaces the value that the key has at that place in the
commit order. So after `m` of them the key has the value `f^[m] v₀`, and the log has one 'set' event
for each (`swaps_compose`).
-/

open SingleWriter

namespace MemoryBridge

/-! ## In the specification -/

/-- The write leaves the fact of `k` alone, or is an attempt to replace a value `v` by `f v`. -/
def Write.SwapsOnly (k : String) (f : String → String) : Write → Prop
  | .set key value mode => key = k → ∃ v, mode = .expecting v ∧ value = f v
  | .delete key => key ≠ k

/-- The write is one of the attempts on `k`. -/
def Write.attempts (k : String) : Write → Bool
  | .set key _ (.expecting _) => key = k
  | _ => false

namespace Shared

/-- The values that the log says were written to `k`, in order. -/
def setValues (k : String) (s : Shared) : List Cell :=
  (s.log.filter fun l => l.action = .text "set" ∧ l.key = .text k).map LogLine.value

variable {U : PyText.Unicode} {k : String} {f : String → String}

/-- One write: the value of `k` is replaced by its image under `f` exactly if the write is an
attempt on `k` that takes effect, and then the log says so. -/
theorem apply_swaps (s : Shared) (cid : String) {x : Write} (hx : x.SwapsOnly k f) {v₀ : String}
    (hv : (s.facts k).map Prod.fst = some v₀) :
    if x.attempts k && (s.apply U cid x).2.isOk then
      ((s.apply U cid x).1.facts k).map Prod.fst = some (f v₀) ∧
        (s.apply U cid x).1.setValues k = s.setValues k ++ [.text (f v₀)]
    else ((s.apply U cid x).1.facts k).map Prod.fst = some v₀ ∧
      (s.apply U cid x).1.setValues k = s.setValues k := by
  obtain ⟨⟨current, source⟩, hk, rfl⟩ := Option.map_eq_some_iff.1 hv
  cases x with
  | delete key =>
    have hne : k ≠ key := fun h => hx h.symm
    simp [apply, Write.attempts, setValues, hne, hk]
  | set key value mode =>
    by_cases hkey : key = k
    · subst hkey
      obtain ⟨v, rfl, rfl⟩ := hx rfl
      by_cases hc : current = v
      · subst hc
        simp [apply, refusal, hk, Write.attempts, setValues, Except.isOk, Except.toBool]
      · simp [apply, refusal, hk, hc, Write.attempts, setValues, Except.isOk, Except.toBool]
    · have hne : k ≠ key := fun h => hkey h.symm
      have hattempts : (Write.set key value mode).attempts k = false := by
        cases mode <;> simp [Write.attempts, hkey]
      rw [hattempts]
      simp only [Bool.false_and, Bool.false_eq_true, if_false, apply]
      cases s.refusal U key mode with
      | none => simp [setValues, hkey, hne, hk]
      | some why => simp [setValues, hk]

end Shared

/-! ## Attempts in a run -/

/-- The call leaves the fact of `k` alone, or is an attempt to replace a value `v` by `f v`. -/
def Call.SwapsOnly (k : String) (f : String → String) : Call → Prop
  | .memorySet key value _ expectedValue requireAbsent =>
    key = k → requireAbsent = false ∧ ∃ v, expectedValue = some v ∧ value = f v
  | .memoryDelete key _ => key ≠ k
  | _ => True

/-- The call is an attempt on `k`, and its commit of `w` over `b` adds its 'set' event. -/
def Call.swaps (k : String) (b w : Db) : Call → Bool
  | .memorySet key _ _ (some _) false =>
    key = k && ((selectEvents w).drop (selectEvents b).length).any fun e => e.action = .text "set"
  | _ => false

/-- The attempts on `k` that have committed successfully, in the order of their commits. -/
def swapped {ι : Type} (k : String) (t : List (Entry ι (Context × Call) Db Instant PyExc String)) :
    List (ι × ℕ) :=
  t.filterMap fun
    | .obs p n (_, c) (.commit b w) => if c.swaps k b w then some (p, n) else none
    | _ => none

/-- The values of the 'set' events of `k`, in id order. -/
def setValues (k : String) (d : Db) : List Cell :=
  ((selectEvents d).filter fun e => e.action = .text "set" ∧ e.key = .text k).map Event.value

theorem shared_setValues (k : String) (d : Db) : (shared d).setValues k = setValues k d := by
  simp only [Shared.setValues, shared, setValues]
  induction selectEvents d with
  | nil => rfl
  | cons e l ih =>
    by_cases he : e.action = .text "set"
    · have hline : e.line = some ⟨e.clientId, e.action, e.key, e.value⟩ := if_pos (.inl he)
      rw [List.filterMap_cons_some hline, List.filter_cons, List.filter_cons]
      split <;> simp_all
    · have hline : ∀ x ∈ e.line, x.action = e.action := by
        intro x hx
        unfold Event.line at hx
        split at hx
        · obtain rfl := Option.some.inj hx
          rfl
        · cases hx
      rw [List.filter_cons_of_neg (by simp [he]), ← ih]
      cases hl : e.line with
      | none => rw [List.filterMap_cons_none hl]
      | some x =>
        rw [List.filterMap_cons_some hl, List.filter_cons_of_neg (by simp [hline x hl, he])]

section Calls

variable {S : Type} [LinearOrder S] {rt : Runtime S} {cfg : Config} {ctx : Context} {c : Call}
  {h : List (Obs Db Instant)} {b w : Db} {k : String} {f : String → String}

theorem Call.swaps_of_events {c : Call} (he : selectEvents w = selectEvents b) :
    c.swaps k b w = false := by
  unfold Call.swaps
  split
  · simp [he]
  · rfl

/-- A call that swaps only does so in the specification. -/
theorem Call.SwapsOnly.write {cid : String} {x : Write} (hc : c.SwapsOnly k f)
    (hx : writeOf cfg ctx c = some (cid, x)) : x.SwapsOnly k f := by
  cases c with
  | memorySet key value claimed expectedValue requireAbsent =>
    obtain ⟨_, -, hx⟩ := Option.map_eq_some_iff.1 hx
    obtain ⟨-, rfl⟩ := Prod.mk.inj hx
    intro hkey
    obtain ⟨rfl, v, rfl, rfl⟩ := hc hkey
    exact ⟨v, rfl, rfl⟩
  | memoryDelete key claimed =>
    obtain ⟨_, -, hx⟩ := Option.map_eq_some_iff.1 hx
    obtain ⟨-, rfl⟩ := Prod.mk.inj hx
    exact hc
  | _ => cases hx

omit [LinearOrder S] in
/-- The transaction of `memory_set` adds a 'set' event exactly if it is not refused. -/
theorem SetTo.swaps {key value cid v : String} {claimed : Option String}
    {embedding : Option (List UInt8)} {t₁ t₂ : Instant} {casFailure : Option String}
    (hs : SetTo rt key value cid (some v) false embedding t₁ t₂ b w casFailure) :
    (Call.memorySet key value claimed (some v) false).swaps k b w =
      (decide (key = k) && casFailure.isNone) := by
  rcases hs.cases with ⟨rfl, hl⟩ | ⟨why, rfl, hl⟩
  · have he := hl.events
    rw [stored_events] at he
    change _ = selectEvents b ++ _ at he
    simp [Call.swaps, he, nextEvent]
  · simp [Call.swaps, hl.events, nextEvent]

/-- The commit of a call is that of a successful attempt exactly if the call is one in the
specification. -/
theorem Own.swaps {cid : String} {x : Write} (ho : Own rt cfg ctx c h b w)
    (hx : writeOf cfg ctx c = some (cid, x)) :
    c.swaps k b w = (x.attempts k && ((shared b).apply rt.unicode cid x).2.isOk) := by
  cases ho with
  | @memorySet key value cid' claimed expectedValue requireAbsent _ _ _ _ casFailure hcid _ hs =>
    simp only [writeOf, hcid, Except.toOption, Option.map_some, Option.some.injEq,
      Prod.mk.injEq] at hx
    obtain ⟨rfl, rfl⟩ := hx
    rw [hs.apply]
    cases requireAbsent with
    | true => cases expectedValue <;> rfl
    | false =>
      cases expectedValue with
      | none => rfl
      | some v =>
        rw [hs.swaps]
        cases casFailure <;> rfl
  | memoryDelete hcid =>
    simp only [writeOf, hcid, Except.toOption, Option.map_some, Option.some.injEq,
      Prod.mk.injEq] at hx
    obtain ⟨-, rfl⟩ := hx
    rfl
  | memoryGet => cases hx
  | memorySearch => cases hx
  | lockHold => cases hx

/-- The other tools make no attempts. -/
theorem Own.not_swaps (ho : Own rt cfg ctx c h b w) (hx : writeOf cfg ctx c = none) :
    c.swaps k b w = false := by
  cases ho with
  | memorySet hcid => simp [writeOf, hcid, Except.toOption] at hx
  | _ => rfl

/-- An attempt that answers has committed, successfully exactly if the answer is no error. -/
theorem Answers.swaps {key value v : String} {claimed : Option String} {r : Except PyExc String}
    (ha : Answers rt cfg ctx (.memorySet key value claimed (some v) false) h r) :
    ∃ b w, (∀ b' w', .commit b' w' ∈ h ↔ b' = b ∧ w' = w) ∧
      (Call.memorySet key value claimed (some v) false).swaps k b w =
        (decide (key = k) && (r.mapError (guardError cfg)).isOk) := by
  cases ha with
  | @memorySet _ _ _ _ _ _ _ _ b w casFailure _ _ hs =>
    refine ⟨b, w, by simp, ?_⟩
    rw [hs.swaps]
    cases casFailure <;> rfl

/-- What `m` successful attempts turn the contents `d₀`, in which `k` has the value `v₀`, into. -/
structure SwappedTo (k : String) (f : String → String) (v₀ : String) (d₀ : Db) (m : ℕ) (d : Db) :
    Prop where
  value : (d.facts.lookup k).map Fact.value = some (f^[m] v₀)
  events : setValues k d = setValues k d₀ ++ (List.range m).map fun i => .text (f^[i + 1] v₀)

/-- **One commit** of a call that may be an attempt. -/
theorem Commits.swapped {v₀ : String} {d₀ : Db} {m : ℕ} (hc : Commits rt cfg ctx c h b w)
    (honly : c.SwapsOnly k f) (hb : SwappedTo k f v₀ d₀ m b) :
    SwappedTo k f v₀ d₀ (if c.swaps k b w then m + 1 else m) w := by
  have hvalue : ∀ d : Db, ((shared d).facts k).map Prod.fst =
      (d.facts.lookup k).map Fact.value := by
    intro d
    simp only [shared, Option.map_map]
    rfl
  have hsame : shared w = shared b → SwappedTo k f v₀ d₀ m w := by
    intro hs
    constructor
    · rw [← hvalue, hs, hvalue, hb.value]
    · rw [← shared_setValues, hs, shared_setValues, hb.events]
  rcases hc with ⟨d, -, -, hm⟩ | ⟨q, h', -, -, ho⟩
  · rw [Call.swaps_of_events hm.shared.2]
    exact hsame hm.shared.1
  · cases hx : writeOf cfg ctx c with
    | none =>
      rw [ho.not_swaps hx]
      exact hsame (ho.shared_eq hx)
    | some x =>
      have happly := Shared.apply_swaps (U := rt.unicode) (shared b) x.1 (honly.write hx)
        ((hvalue b).trans hb.value)
      rw [← ho.apply hx, hvalue, shared_setValues, shared_setValues, ← ho.swaps hx] at happly
      cases hs : c.swaps k b w with
      | false =>
        simp only [hs, Bool.false_eq_true, if_false] at happly ⊢
        exact ⟨happly.1, happly.2.trans hb.events⟩
      | true =>
        simp only [hs, if_true, ← Function.iterate_succ_apply'] at happly ⊢
        refine ⟨happly.1, ?_⟩
        rw [happly.2, hb.events, List.range_succ, List.map_append, List.append_assoc]
        rfl

end Calls

/-! ## Runs -/

section Runs

variable {S : Type} [LinearOrder S] {rt : Runtime S} {ι : Type} [DecidableEq ι] {cfg : ι → Config}
  {d₀ : Db} {t : List (Entry ι (Context × Call) Db Instant PyExc String)} {k v₀ : String}
  {f : String → String} {s₀ s : Sys ι (Context × Call) Db Instant Failure Bool PyExc String}

/-- Server processes whose clients write to `k` only by attempts to replace a value `v` by `f v`. -/
def swapServers (rt : Runtime S) (cfg : ι → Config) (k : String) (f : String → String) :
    Clients ι (Context × Call) Db Instant Failure Bool PyExc String :=
  { servers rt cfg with may := fun _ c => c.2.SwapsOnly k f }

omit [DecidableEq ι] in
theorem swapped_append (t t' : List (Entry ι (Context × Call) Db Instant PyExc String)) :
    swapped k (t ++ t') = swapped k t ++ swapped k t' := List.filterMap_append

omit [DecidableEq ι] in
theorem mem_swapped {p : ι} {n : ℕ} :
    (p, n) ∈ swapped k t ↔
      ∃ ctx c b w, .obs p n (ctx, c) (.commit b w) ∈ t ∧ c.swaps k b w = true := by
  simp only [swapped, List.mem_filterMap]
  constructor
  · rintro ⟨e, he, hs⟩
    split at hs
    case h_1 p' n' ctx c b w =>
      split_ifs at hs with hc
      obtain ⟨rfl, rfl⟩ := Prod.mk.inj (Option.some.inj hs)
      exact ⟨ctx, c, b, w, he, hc⟩
    case h_2 => cases hs
  · rintro ⟨ctx, c, b, w, he, hc⟩
    exact ⟨_, he, if_pos hc⟩

omit [DecidableEq ι] in
theorem swapped_keep {e : Entry ι (Context × Call) Db Instant PyExc String}
    (he : e.committed = none) : swapped k [e] = [] := by
  refine List.eq_nil_iff_forall_not_mem.2 fun ⟨p, n⟩ hm => ?_
  obtain ⟨ctx, c, b, w, hm, -⟩ := mem_swapped.1 hm
  rw [← List.mem_singleton.1 hm] at he
  cases he

/-- A committed attempt is among the committed writes. -/
theorem swapped_sublist (ht : TraceOk (serversSpec rt cfg) d₀ t) :
    (swapped k t).Sublist ((linearization cfg t).map fun y => (y.1, y.2.1)) := by
  refine TraceOk.induction
    (P := fun t => (swapped k t).Sublist ((linearization cfg t).map fun y => (y.1, y.2.1)))
    (List.nil_sublist _) ?_ ht
  intro t e ht he ih
  rw [swapped_append, linearization, List.filterMap_append, List.map_append]
  refine ih.append ?_
  rcases he.commit_cases with he | ⟨p, n, ⟨ctx, c⟩, w, rfl, hc⟩
  · rw [swapped_keep he]
    exact List.nil_sublist _
  · cases hs : c.swaps k (contents d₀ t) w with
    | false => simp [swapped, hs]
    | true =>
      rcases hc with ⟨d, -, -, hm⟩ | ⟨q, h', -, -, ho⟩
      · simp [Call.swaps_of_events hm.shared.2] at hs
      · obtain ⟨e, he⟩ := ho.selectEvents
        cases hx : writeOf (cfg p) ctx c with
        | none => simp [ho.not_swaps hx] at hs
        | some x => simp [swapped, effect, hs, he, hx]

/-- **A run.** The value of the key and its 'set' events follow from the number of committed
attempts. -/
theorem swappedTo_contents (hv : (d₀.facts.lookup k).map Fact.value = some v₀)
    (ht : TraceOk ((serversSpec rt cfg).among fun _ c => c.2.SwapsOnly k f) d₀ t) :
    SwappedTo k f v₀ d₀ (swapped k t).length (contents d₀ t) := by
  refine TraceOk.induction
    (P := fun t => SwappedTo k f v₀ d₀ (swapped k t).length (contents d₀ t))
    ⟨hv, by simp [swapped]⟩ ?_ ht
  intro t e ht he ih
  rw [swapped_append, List.length_append]
  rcases he.commit_cases with he | ⟨p, n, ⟨ctx, c⟩, w, rfl, honly, hc⟩
  · rw [swapped_keep he, contents_keep he]
    exact ih
  · have hw := hc.swapped honly ih
    rw [contents_commit]
    cases hs : c.swaps k (contents d₀ t) w <;> simpa [swapped, hs] using hw

/-- An attempt has committed successfully exactly if it is answered without an error, once it is
answered. -/
theorem mem_swapped_iff (ht : TraceOk (serversSpec rt cfg) d₀ t) {p : ι} {n : ℕ} {ctx : Context}
    {value v : String} {claimed : Option String} {r : Except PyExc String}
    (hr : .reply p n (ctx, .memorySet k value claimed (some v) false) r ∈ t) :
    (p, n) ∈ swapped k t ↔ ∃ a, r = .ok a := by
  obtain ⟨t₁, t₂, rfl, ht₁, ⟨r', ⟨q, h', hq, hh, hres⟩, rfl⟩, hsame, hlast⟩ := ht.reply hr
  rw [mem_swapped]
  constructor
  · rintro ⟨ctx', c', b, w, hlate, hs⟩
    -- its commit comes before the reply
    have he := hlast _ _ hlate
    obtain ⟨rfl, rfl⟩ := Prod.mk.inj (hsame _ _ he)
    have hm : .commit b w ∈ history t₁ p n := mem_history.2 ⟨_, he⟩
    rw [hh] at hm
    rcases List.mem_append.1 hm with hm | hm
    · simp [Call.swaps_of_events (hq.selectEvents hm)] at hs
    · rcases hres with ha | ⟨hquiet, -⟩
      · obtain ⟨b', w', hcommit, hswaps⟩ := ha.swaps
        obtain ⟨rfl, rfl⟩ := (hcommit b w).1 hm
        rw [hswaps] at hs
        cases hr' : r'.mapError (guardError (cfg p)) with
        | ok a => exact ⟨a, rfl⟩
        | error e => simp [hr', Except.isOk, Except.toBool] at hs
      · exact absurd hm (hquiet b w)
  · rintro ⟨a, ha'⟩
    rcases hres with ha | ⟨-, e, -, rfl⟩
    · obtain ⟨b, w, hcommit, hswaps⟩ := ha.swaps
      obtain ⟨c', hc'⟩ := mem_history.1 (hh ▸ List.mem_append_right q ((hcommit b w).2 ⟨rfl, rfl⟩))
      obtain rfl := hsame c' _ hc'
      refine ⟨_, _, b, w, List.mem_append_left _ hc', ?_⟩
      rw [hswaps, ha']
      simp [Except.isOk, Except.toBool]
    · cases ha'

/-- **Compare-and-swap loses no update.** The clients of any number of servers write to `k` only by
attempts to replace a value `v` by `f v`, and it has the value `v₀` at first. Once `m` attempts have
committed successfully, in whatever interleaving, its value is `f^[m] v₀`, and the 'set' events of
`k` since then carry `f v₀`, `f (f v₀)` and so on. An attempt commits successfully at most once,
and exactly if it is not answered with an error. -/
theorem swaps_compose (h₀ : s₀.Init) (hv : (s₀.db.facts.lookup k).map Fact.value = some v₀)
    (h : Reach (swapServers rt cfg k f) s₀ s) :
    (s.db.facts.lookup k).map Fact.value = some (f^[(swapped k s.trace).length] v₀) ∧
      setValues k s.db = setValues k s₀.db ++
        (List.range (swapped k s.trace).length).map (fun i => .text (f^[i + 1] v₀)) ∧
      (swapped k s.trace).Nodup ∧
      ∀ p n ctx value claimed v r,
        .reply p n (ctx, .memorySet k value claimed (some v) false) r ∈ s.trace →
        ((p, n) ∈ swapped k s.trace ↔ ∃ a, r = .ok a) := by
  have g := Reach.good ((meets cfg).among fun _ _ _ => trivial) h₀ h
  have ht := g.trace.of_among
  have hs := swappedTo_contents hv g.trace
  rw [← g.db] at hs
  exact ⟨hs.value, hs.events, (linearization_nodup ht).sublist (swapped_sublist ht),
    fun p n ctx value claimed v r hr => mem_swapped_iff ht hr⟩

/-- Two servers read the same value. The attempt of the first one succeeds, that of the second one
is stale, and its next one succeeds. -/
def swapTurns : List (Sys.Turn ℕ (Context × Call) Instant) :=
  [⟨0, some (⟨none⟩, .memoryGet "k" false), .newYear, 40⟩,
    ⟨1, some (⟨none⟩, .memoryGet "k" false), .newYear, 40⟩,
    ⟨0, some (⟨none⟩, .memorySet "k" "v+" none (some "v") false), .newYear, 40⟩,
    ⟨1, some (⟨none⟩, .memorySet "k" "v+" none (some "v") false), .newYear, 40⟩,
    ⟨1, some (⟨none⟩, .memorySet "k" "v++" none (some "v+") false), .newYear, 40⟩]

theorem swaps_compose_sample :
    ∃ s : Sys ℕ (Context × Call) Db Instant Failure Bool PyExc String,
      swapped "k" s.trace = [(0, 2), (1, 3)] ∧
      (s.db.facts.lookup "k").map Fact.value = some "v++" ∧
      setValues "k" s.db = [.text "v+", .text "v++"] := by
  have h : (((Sys.initial (.oneFact "k" "v") false).turns
      (swapServers Audit.sampleRuntime
        (fun _ => { Config.default with embeddingsEnabled := false }) "k" fun v => v ++ "+")
      swapTurns).map fun s => swapped "k" s.trace) = some [(0, 2), (1, 3)] := by
    decide +kernel
  obtain ⟨s, hs, hv⟩ := Option.map_eq_some_iff.1 h
  have hmay : ∀ x ∈ swapTurns, ∀ c ∈ x.call, c.2.SwapsOnly "k" fun v => v ++ "+" := by
    simp [swapTurns, Call.SwapsOnly]
  have hmain := swaps_compose (Sys.initial_init (.oneFact "k" "v") false) rfl
    (Sys.reach_of_turns hmay hs)
  rw [hv] at hmain
  exact ⟨s, hv, hmain.1, hmain.2.1⟩

end Runs

end MemoryBridge
