import MemoryBridge.AuditTrail

/-!
# `memory_set` and `memory_delete` are linearizable

`Shared` is the store as the callers of the two tools understand it: the value and source of each
key, and the list of what was written, refused and deleted. `Shared.apply` carries out one call at
once. The committed calls of a run, in the order of their commits (`linearization`), applied one at
a time, lead to the committed store and give every reply (`writes_linearizable`).
-/

open SingleWriter

namespace MemoryBridge

/-! ## The atomic specification -/

/-- A line of the log without its id and timestamp. -/
structure LogLine where
  clientId : Cell
  action : Cell
  key : Cell
  value : Cell
  deriving DecidableEq

/-- The store, for those who write to it. -/
structure Shared where
  facts : String → Option (String × String)
  log : List LogLine

/-- When a `memory_set` writes. -/
inductive Mode
  | always
  | expecting (value : String)
  | absent

inductive Write
  | set (key value : String) (mode : Mode)
  | delete (key : String)

namespace Shared

variable (U : PyText.Unicode)

/-- Why a `memory_set` is refused, if it is. -/
def refusal (s : Shared) (key : String) : Mode → Option String
  | .always => none
  | .expecting value =>
    match s.facts key with
    | some (current, _) =>
      if current = value then none
      else some ("expected " ++ PyText.repr U value ++ ", actual is " ++ PyText.repr U current)
    | none => some ("expected " ++ PyText.repr U value ++ ", actual is " ++ "None")
  | .absent =>
    match s.facts key with
    | some (current, _) => some ("key already exists (current value: " ++ current ++ ")")
    | none => none

/-- One call of client `cid`, at once: the store after it, and its reply. -/
def apply (cid : String) (s : Shared) : Write → Shared × Except PyExc String
  | .set key value mode =>
    match s.refusal U key mode with
    | none =>
      (⟨Function.update s.facts key (some (value, cid)),
        s.log ++ [⟨.text cid, .text "set", .text key, .text value⟩]⟩,
      .ok ("set " ++ PyText.repr U key ++ " (from " ++ cid ++ ")"))
    | some why =>
      (⟨s.facts, s.log ++ [⟨.text cid, .text "cas_fail", .text key, .text why⟩]⟩,
      .error (.toolError ("CAS failed for " ++ PyText.repr U key ++ ": " ++ why)))
  | .delete key =>
    (⟨Function.update s.facts key none,
      s.log ++ [⟨.text cid, .text "delete", .text key, .null⟩]⟩,
    .ok (if (s.facts key).isSome then "deleted " ++ PyText.repr U key ++ " (from " ++ cid ++ ")"
      else "nothing to delete for " ++ PyText.repr U key ++ " (logged from " ++ cid ++ ")"))

/-- Calls one at a time: the store after them, and their replies. -/
def run (s : Shared) : List (String × Write) → Shared × List (Except PyExc String)
  | [] => (s, [])
  | (cid, x) :: rest =>
    (((s.apply U cid x).1.run rest).1, (s.apply U cid x).2 :: ((s.apply U cid x).1.run rest).2)

variable {U}

theorem run_append (s : Shared) (l l' : List (String × Write)) :
    s.run U (l ++ l') =
      (((s.run U l).1.run U l').1, (s.run U l).2 ++ ((s.run U l).1.run U l').2) := by
  induction l generalizing s with
  | nil => rfl
  | cons x l ih => simp only [List.cons_append, run, ih]

theorem run_length (s : Shared) (l : List (String × Write)) : (s.run U l).2.length = l.length := by
  induction l generalizing s with
  | nil => rfl
  | cons x l ih => simp only [run, List.length_cons, ih]

/-- A compare-and-swap succeeds exactly on the value that the key has. -/
theorem apply_expecting (s : Shared) (cid key value expected : String) :
    (∃ m, (s.apply U cid (.set key value (.expecting expected))).2 = .ok m) ↔
      ∃ source, s.facts key = some (expected, source) := by
  simp only [apply, refusal]
  cases hk : s.facts key with
  | none => simp
  | some f =>
    obtain ⟨current, source⟩ := f
    by_cases hc : current = expected <;> simp [hc]

/-- A create-only write succeeds exactly where there is no fact. -/
theorem apply_absent (s : Shared) (cid key value : String) :
    (∃ m, (s.apply U cid (.set key value .absent)).2 = .ok m) ↔ s.facts key = none := by
  simp only [apply, refusal]
  cases hk : s.facts key <;> simp

/-- A refusal names the value that the key has. -/
theorem apply_refused {s : Shared} {key current source : String} (cid value : String)
    (hk : s.facts key = some (current, source)) :
    (s.apply U cid (.set key value .absent)).2 = .error (.toolError ("CAS failed for " ++
      PyText.repr U key ++ ": " ++ ("key already exists (current value: " ++ current ++ ")"))) ∧
    ∀ expected, expected ≠ current →
      (s.apply U cid (.set key value (.expecting expected))).2 = .error (.toolError
        ("CAS failed for " ++ PyText.repr U key ++ ": " ++ ("expected " ++
          PyText.repr U expected ++ ", actual is " ++ PyText.repr U current))) := by
  refine ⟨by simp [apply, refusal, hk], fun expected hne => ?_⟩
  simp [apply, refusal, hk, hne.symm]

end Shared

/-! ## The store as the specification sees it -/

/-- The line that an event is, if it is about a write. -/
def Event.line (e : Event) : Option LogLine :=
  if e.action = .text "set" ∨ e.action = .text "cas_fail" ∨ e.action = .text "delete" then
    some ⟨e.clientId, e.action, e.key, e.value⟩
  else none

def shared (d : Db) : Shared where
  facts k := (d.facts.lookup k).map fun f => (f.value, f.sourceClient)
  log := (selectEvents d).filterMap Event.line

/-- The mode that the two arguments of `memory_set` choose. -/
def modeOf (expectedValue : Option String) (requireAbsent : Bool) : Mode :=
  if requireAbsent then .absent
  else
    match expectedValue with
    | some v => .expecting v
    | none => .always

/-- The client and the write of a call, if it is one of the two tools and has an identity. -/
def writeOf (cfg : Config) (ctx : Context) : Call → Option (String × Write)
  | .memorySet key value claimed expectedValue requireAbsent =>
    (clientId cfg ctx claimed).toOption.map fun cid =>
      (cid, .set key value (modeOf expectedValue requireAbsent))
  | .memoryDelete key claimed =>
    (clientId cfg ctx claimed).toOption.map fun cid => (cid, .delete key)
  | _ => none

variable {S : Type} {rt : Runtime S}

theorem shared_eq {s s' : Shared} (hf : s'.facts = s.facts) (hl : s'.log = s.log) : s = s' := by
  cases s
  cases s'
  simp_all

theorem shared_stored (key : String) (embedding : Option (List UInt8)) (d : Db) :
    (shared (stored key embedding d)).facts = (shared d).facts := by
  cases embedding <;> rfl

theorem shared_insert (d : Db) (key : String) (f : Fact) :
    (shared { d with facts := d.facts.insert key f }).facts =
      Function.update (shared d).facts key (some (f.value, f.sourceClient)) := by
  funext k
  by_cases hk : k = key
  · subst hk
    simp [shared]
  · simp [shared, hk]

theorem shared_erase (d : Db) (key : String) :
    (shared (erased key d)).facts = Function.update (shared d).facts key none := by
  funext k
  by_cases hk : k = key
  · subst hk
    simp [shared, erased]
  · simp [shared, erased, hk]

/-- What a log entry is for the specification. -/
theorem Logged.shared {ts cid action : String} {key value : Option String} {d w : Db}
    (hl : Logged rt ts cid action key value d w) :
    (MemoryBridge.shared w).facts = (MemoryBridge.shared d).facts ∧
      (MemoryBridge.shared w).log = (MemoryBridge.shared d).log ++
        (Event.line (nextEvent ts cid action key value d)).toList := by
  refine ⟨by simp [MemoryBridge.shared, hl.facts], ?_⟩
  show (selectEvents w).filterMap Event.line = _
  rw [hl.events, List.filterMap_append]
  cases hn : Event.line (nextEvent ts cid action key value d) <;> simp [hn, MemoryBridge.shared]

/-- The conditional write refuses exactly where the specification does, and for the same reason. -/
theorem wrote_eq (key : String) (f : Fact) (expectedValue : Option String) (requireAbsent : Bool)
    (d : Db) :
    wrote rt key f expectedValue requireAbsent d =
      match (shared d).refusal rt.unicode key (modeOf expectedValue requireAbsent) with
      | none => ({ d with facts := d.facts.insert key f }, none)
      | some why => (d, some why) := by
  have hfacts : (shared d).facts key =
    (d.facts.lookup key).map fun f => (f.value, f.sourceClient) := rfl
  cases requireAbsent with
  | true =>
    simp only [wrote, modeOf, if_true, Shared.refusal, hfacts]
    cases hk : d.facts.lookup key with
    | none =>
      exact if_neg (AList.lookup_eq_none.1 hk)
    | some g =>
      have hm : key ∈ d.facts := AList.lookup_isSome.1 (by rw [hk]; rfl)
      rw [if_pos hm, selectFact, hk]
      rfl
  | false =>
    cases expectedValue with
    | none => rfl
    | some expected =>
      simp only [wrote, modeOf, Bool.false_eq_true, if_false, Shared.refusal, hfacts]
      cases hk : d.facts.lookup key with
      | none =>
        simp only [Option.map_none, reduceCtorEq, if_false, selectFact, hk, expectedFailure,
          PyText.reprOption]
      | some g =>
        simp only [Option.map_some, Option.some.injEq, selectFact, hk, expectedFailure,
          PyText.reprOption]
        split <;> rfl

/-- The transaction of `memory_set` is the specified write. -/
theorem SetTo.apply {key value cid : String} {expectedValue : Option String} {requireAbsent : Bool}
    {embedding : Option (List UInt8)} {t₁ t₂ : Instant} {b w : Db} {casFailure : Option String}
    (h : SetTo rt key value cid expectedValue requireAbsent embedding t₁ t₂ b w casFailure) :
    (shared b).apply rt.unicode cid (.set key value (modeOf expectedValue requireAbsent)) =
      (shared w, setAnswer rt key cid casFailure) := by
  obtain ⟨hf, hr⟩ := h
  rw [wrote_eq] at hf hr
  unfold Shared.apply
  cases hwhy : (shared b).refusal rt.unicode key (modeOf expectedValue requireAbsent) with
  | none =>
    simp only [hwhy] at hf hr ⊢
    subst hf
    obtain ⟨hfacts, hlog⟩ := Logged.shared hr
    refine Prod.ext (shared_eq ?_ ?_) rfl
    · rw [hfacts]
      exact (shared_stored ..).trans (shared_insert ..)
    · rw [hlog]
      show (selectEvents (stored ..)).filterMap Event.line ++ _ = _
      rw [stored_events]
      rfl
  | some why =>
    simp only [hwhy] at hf hr ⊢
    subst hf
    obtain ⟨hfacts, hlog⟩ := Logged.shared hr
    exact Prod.ext (shared_eq hfacts hlog) rfl

/-- The transaction of `memory_delete` is the specified deletion. -/
theorem apply_delete {key cid ts : String} {b w : Db}
    (hl : Logged rt ts cid "delete" (some key) none (erased key b) w) :
    (shared b).apply rt.unicode cid (.delete key) =
      (shared w, .ok (deleteAnswer rt key cid (if key ∈ b.facts then 1 else 0))) := by
  obtain ⟨hfacts, hlog⟩ := Logged.shared hl
  refine Prod.ext (shared_eq (hfacts.trans (shared_erase ..)) hlog) ?_
  have hk : ((shared b).facts key).isSome = (b.facts.lookup key).isSome := by simp [shared]
  simp only [Shared.apply, deleteAnswer, hk]
  by_cases hm : key ∈ b.facts
  · rw [if_pos (AList.lookup_isSome.2 hm), if_pos hm]
    rfl
  · have hn : ¬(b.facts.lookup key).isSome = true := fun h => hm (AList.lookup_isSome.1 h)
    rw [if_neg hn, if_neg hm]
    rfl

/-- Opening the database changes nothing that writers see. -/
theorem Migrates.shared {b w : Db} (hm : Migrates rt b w) :
    MemoryBridge.shared w = MemoryBridge.shared b ∧ selectEvents w = selectEvents b := by
  rcases hm with ⟨-, rfl⟩ | hm
  · exact ⟨rfl, rfl⟩
  · refine ⟨?_, hm.events.1⟩
    simp only [MemoryBridge.shared, hm.events.1, hm.tables.1]

/-- The commit that opens the database adds no event. -/
theorem Opened.selectEvents {b w : Db} {q : List (Obs Db Instant)} (hq : Opened rt q)
    (hm : .commit b w ∈ q) : MemoryBridge.selectEvents w = MemoryBridge.selectEvents b := by
  cases hq with
  | already => simp at hm
  | sealed => simp at hm
  | migrated _ hmig =>
    simp only [List.mem_cons, reduceCtorEq, Obs.commit.injEq, List.not_mem_nil, or_false,
      false_or] at hm
    obtain ⟨rfl, rfl⟩ := hm
    exact hmig.shared.2

/-! ## Committed calls -/

section Calls

variable [LinearOrder S] {cfg : Config} {ctx : Context} {c : Call} {h : List (Obs Db Instant)}
  {b w : Db} {cid : String} {x : Write}

/-- An own transaction does what the specification says of its call. -/
theorem Own.apply (ho : Own rt cfg ctx c h b w) (hx : writeOf cfg ctx c = some (cid, x)) :
    shared w = ((shared b).apply rt.unicode cid x).1 := by
  cases ho with
  | memorySet hcid _ hs =>
    simp only [writeOf, hcid, Except.toOption, Option.map_some, Option.some.injEq,
      Prod.mk.injEq] at hx
    obtain ⟨rfl, rfl⟩ := hx
    rw [hs.apply]
  | memoryDelete hcid _ hl =>
    simp only [writeOf, hcid, Except.toOption, Option.map_some, Option.some.injEq,
      Prod.mk.injEq] at hx
    obtain ⟨rfl, rfl⟩ := hx
    rw [apply_delete hl]
  | memoryGet => cases hx
  | memorySearch => cases hx
  | lockHold => cases hx

/-- The transactions of the other tools are not seen by writers. -/
theorem Own.shared_eq (ho : Own rt cfg ctx c h b w) (hx : writeOf cfg ctx c = none) :
    shared w = shared b := by
  have key : ∀ {ts cid action : String} {key value : Option String},
      Logged rt ts cid action key value b w → action ≠ "set" → action ≠ "cas_fail" →
      action ≠ "delete" → shared w = shared b := by
    intro ts cid action key value hl h₁ h₂ h₃
    obtain ⟨hf, hlog⟩ := Logged.shared hl
    have hline : Event.line (nextEvent ts cid action key value b) = none := by
      simp [Event.line, nextEvent, h₁, h₂, h₃]
    rw [hline, Option.toList_none, List.append_nil] at hlog
    exact MemoryBridge.shared_eq hf.symm hlog.symm
  cases ho with
  | memorySet hcid => simp [writeOf, hcid, Except.toOption] at hx
  | memoryDelete hcid => simp [writeOf, hcid, Except.toOption] at hx
  | memoryGet _ _ _ hl => exact key hl (by decide) (by decide) (by decide)
  | memorySearch _ _ _ hl => exact key hl (by decide) (by decide) (by decide)
  | lockHold _ _ hl => exact key hl (by decide) (by decide) (by decide)

/-- An own transaction adds one event. -/
theorem Own.selectEvents (ho : Own rt cfg ctx c h b w) :
    ∃ e, MemoryBridge.selectEvents w = MemoryBridge.selectEvents b ++ [e] := by
  obtain ⟨r, hrows, -⟩ := ho.rows
  exact ⟨r.event, by simp [MemoryBridge.selectEvents, hrows]⟩

theorem Own.quiet (ho : Own rt cfg ctx c h b w) : Quiet h := by
  cases ho <;> simp

/-- What a call answers to a write is what the specification replies, and it has committed it. -/
theorem Answers.apply {r : Except PyExc String} (ha : Answers rt cfg ctx c h r)
    (hx : writeOf cfg ctx c = some (cid, x)) :
    ∃ b w, .commit b w ∈ h ∧ (selectEvents b).length < (selectEvents w).length ∧
      r = ((shared b).apply rt.unicode cid x).2 ∧ r.mapError (guardError cfg) = r := by
  cases ha with
  | @memorySet _ _ _ _ _ _ _ _ b w _ hcid hv hs =>
    obtain ⟨e, he⟩ := (Own.memorySet hcid hv hs).selectEvents
    simp only [writeOf, hcid, Except.toOption, Option.map_some, Option.some.injEq,
      Prod.mk.injEq] at hx
    obtain ⟨rfl, rfl⟩ := hx
    refine ⟨b, w, by simp, by simp [he], by rw [hs.apply], ?_⟩
    unfold setAnswer
    split <;> rfl
  | @memoryDelete _ _ _ _ b w hcid hv hl =>
    obtain ⟨e, he⟩ := (Own.memoryDelete hcid hv hl).selectEvents
    simp only [writeOf, hcid, Except.toOption, Option.map_some, Option.some.injEq,
      Prod.mk.injEq] at hx
    obtain ⟨rfl, rfl⟩ := hx
    exact ⟨b, w, by simp, by simp [he], by rw [apply_delete hl], rfl⟩
  | memoryGet => cases hx
  | memoryGetUnlogged => cases hx
  | memoryList => cases hx
  | memorySearch => cases hx
  | memorySearchEmpty => cases hx
  | memoryHistory => cases hx
  | lockHold => cases hx

end Calls

/-- The write that an entry of the trace carries out: the commit, by a call of one of the two tools,
of a transaction that adds an event. -/
def effect {ι : Type} (cfg : ι → Config) :
    Entry ι (Context × Call) Db Instant PyExc String → Option (ι × ℕ × String × Write)
  | .obs p n (ctx, c) (.commit b w) =>
    if (selectEvents b).length < (selectEvents w).length then
      (writeOf (cfg p) ctx c).map fun x => (p, n, x)
    else none
  | _ => none

/-- The writes of a trace in the order of their commits, with the client, the number of the call,
and who is named as the writer. -/
def linearization {ι : Type} (cfg : ι → Config)
    (t : List (Entry ι (Context × Call) Db Instant PyExc String)) :
    List (ι × ℕ × String × Write) :=
  t.filterMap (effect cfg)

theorem effect_eq_some {ι : Type} {cfg : ι → Config}
    {e : Entry ι (Context × Call) Db Instant PyExc String}
    {y : ι × ℕ × String × Write} (h : effect cfg e = some y) :
    ∃ ctx c b w, e = .obs y.1 y.2.1 (ctx, c) (.commit b w) ∧
      (selectEvents b).length < (selectEvents w).length ∧
      writeOf (cfg y.1) ctx c = some y.2.2 := by
  unfold effect at h
  split at h
  case h_2 => cases h
  case h_1 p n ctx c b w =>
    split at h
    case isFalse => cases h
    case isTrue hlt =>
      obtain ⟨x, hx, rfl⟩ := Option.map_eq_some_iff.1 h
      exact ⟨ctx, c, b, w, rfl, hlt, hx⟩

theorem effect_eq_none {ι : Type} {cfg : ι → Config}
    {e : Entry ι (Context × Call) Db Instant PyExc String} (he : e.committed = none) :
    effect cfg e = none := by
  refine Option.eq_none_iff_forall_ne_some.2 fun y hy => ?_
  obtain ⟨ctx, c, b, w, rfl, -, -⟩ := effect_eq_some hy
  cases he

theorem linearization_keep {ι : Type} {cfg : ι → Config}
    {e : Entry ι (Context × Call) Db Instant PyExc String} (he : effect cfg e = none)
    (t : List (Entry ι (Context × Call) Db Instant PyExc String)) :
    linearization cfg (t ++ [e]) = linearization cfg t := by
  rw [linearization, List.filterMap_append, List.filterMap_cons_none he]
  exact List.append_nil _

theorem linearization_snoc {ι : Type} {cfg : ι → Config}
    {e : Entry ι (Context × Call) Db Instant PyExc String} {y : ι × ℕ × String × Write}
    (he : effect cfg e = some y) (t : List (Entry ι (Context × Call) Db Instant PyExc String)) :
    linearization cfg (t ++ [e]) = linearization cfg t ++ [y] := by
  rw [linearization, List.filterMap_append, List.filterMap_cons_some he]
  rfl

section Runs

variable [LinearOrder S] {ι : Type} [DecidableEq ι] {cfg : ι → Config} {d₀ : Db}
  {t : List (Entry ι (Context × Call) Db Instant PyExc String)}
  {s₀ s : Sys ι (Context × Call) Db Instant Failure Bool PyExc String}

/-- Before a commit, its call has committed nothing that adds an event. -/
theorem Commits.first {cfg : Config} {ctx : Context} {c : Call} {h : List (Obs Db Instant)}
    {b w b' w' : Db} (hc : Commits rt cfg ctx c h b w) (hm : .commit b' w' ∈ h) :
    selectEvents w' = selectEvents b' := by
  rcases hc with ⟨d, rfl, -⟩ | ⟨q, h', hq, rfl, ho⟩
  · simp at hm
  · rcases List.mem_append.1 hm with hm | hm
    · exact hq.selectEvents hm
    · exact absurd hm (ho.quiet b' w')

/-- The log only grows. -/
theorem selectEvents_prefix {t₁ t₂ : List (Entry ι (Context × Call) Db Instant PyExc String)}
    (ht : TraceOk (serversSpec rt cfg) d₀ t) (h₁ : t₁ <+: t₂) (h₂ : t₂ <+: t) :
    selectEvents (contents d₀ t₁) <+: selectEvents (contents d₀ t₂) := by
  obtain ⟨x, rfl⟩ := h₁
  obtain ⟨y, rfl⟩ := h₂
  refine TraceOk.related (I := fun _ => True)
    (R := fun b w => selectEvents b <+: selectEvents w) (fun _ => List.prefix_rfl)
    (fun _ _ _ => List.IsPrefix.trans) (fun _ _ _ _ _ _ _ => trivial) ?_ trivial ht.of_append
  intro p c h b w hc _
  rcases hc with ⟨d, -, -, hm⟩ | ⟨q, h', -, -, ho⟩
  · exact hm.shared.2 ▸ List.prefix_rfl
  · obtain ⟨e, he⟩ := ho.selectEvents
    exact ⟨[e], he.symm⟩

/-- **Commit order.** The committed store is what the specification makes of the committed
writes. -/
theorem shared_contents (ht : TraceOk (serversSpec rt cfg) d₀ t) :
    shared (contents d₀ t) =
      ((shared d₀).run rt.unicode ((linearization cfg t).map fun y => y.2.2)).1 := by
  refine TraceOk.induction (P := fun t => shared (contents d₀ t) =
    ((shared d₀).run rt.unicode ((linearization cfg t).map fun y => y.2.2)).1) rfl ?_ ht
  intro t e ht he ih
  rcases he.commit_cases with he | ⟨p, n, ⟨ctx, c⟩, w, rfl, hc⟩
  · rw [contents_keep he, linearization_keep (effect_eq_none he)]
    exact ih
  rw [contents_commit]
  rcases hc with ⟨d, -, -, hm⟩ | ⟨q, h', -, -, ho⟩
  · have heff : effect cfg (.obs p n (ctx, c) (.commit (contents d₀ t) w)) = none :=
      if_neg (by simp [hm.shared.2])
    rw [linearization_keep heff, ← ih]
    exact hm.shared.1
  · obtain ⟨ev, hev⟩ := ho.selectEvents
    have hlt : (selectEvents (contents d₀ t)).length < (selectEvents w).length := by simp [hev]
    cases hx : writeOf (cfg p) ctx c with
    | none =>
      have heff : effect cfg (.obs p n (ctx, c) (.commit (contents d₀ t) w)) = none := by
        simp [effect, hx]
      rw [linearization_keep heff, ← ih]
      exact ho.shared_eq hx
    | some y =>
      have heff : effect cfg (.obs p n (ctx, c) (.commit (contents d₀ t) w)) =
          some (p, n, y) := by
        simp [effect, hx, hlt]
      rw [linearization_snoc heff, List.map_append, Shared.run_append, ← ih]
      exact ho.apply hx

/-- A call is carried out at most once. -/
theorem linearization_nodup (ht : TraceOk (serversSpec rt cfg) d₀ t) :
    ((linearization cfg t).map fun y => (y.1, y.2.1)).Nodup := by
  refine TraceOk.induction (P := fun t => ((linearization cfg t).map fun y => (y.1, y.2.1)).Nodup)
    List.nodup_nil ?_ ht
  intro t e ht he ih
  rw [linearization, List.filterMap_append, List.map_append, List.nodup_append]
  refine ⟨ih, ?_, ?_⟩
  · cases he : effect cfg e <;> simp [he]
  · rintro a ha a' ha' rfl
    obtain ⟨y, hy, rfl⟩ := List.mem_map.1 ha
    obtain ⟨y', hy', heq⟩ := List.mem_map.1 ha'
    obtain ⟨e₁, he₁, heff₁⟩ := List.mem_filterMap.1 hy
    obtain ⟨e₂, he₂, heff₂⟩ := List.mem_filterMap.1 hy'
    obtain rfl := List.mem_singleton.1 he₂
    obtain ⟨ctx, c, b, w, rfl, hlt, -⟩ := effect_eq_some heff₁
    obtain ⟨ctx', c', b', w', rfl, -, -⟩ := effect_eq_some heff₂
    obtain ⟨h₁, h₂⟩ := Prod.mk.inj heq
    obtain ⟨-, hc, -⟩ := he.seen
    rw [h₁, h₂] at hc
    have := Commits.first hc (mem_history.2 ⟨_, he₁⟩)
    rw [this] at hlt
    omega

/-- A commit opens the database, which no writer sees, or carries out its call: one event is added,
and a write is in the list and does what the specification says. -/
theorem carried_out {t₁ t₂ : List (Entry ι (Context × Call) Db Instant PyExc String)} {p : ι}
    {n : ℕ}
    {ctx : Context} {c : Call} {b w : Db}
    (ht : TraceOk (serversSpec rt cfg) d₀ (t₁ ++ .obs p n (ctx, c) (.commit b w) :: t₂)) :
    (OpeningCommit rt (history t₁ p n) b w ∧ selectEvents w = selectEvents b ∧
      shared w = shared b) ∨
    ((∃ e, selectEvents w = selectEvents b ++ [e]) ∧
      (∀ x, writeOf (cfg p) ctx c = some x →
        (p, n, x) ∈ linearization cfg (t₁ ++ .obs p n (ctx, c) (.commit b w) :: t₂) ∧
          shared w = ((shared b).apply rt.unicode x.1 x.2).1) ∧
      (writeOf (cfg p) ctx c = none → shared w = shared b)) := by
  obtain ⟨-, hc, -⟩ := (ht t₁ _ t₂ rfl).seen
  rcases hc with hopen | ⟨q, h', -, -, ho⟩
  · refine .inl ⟨hopen, ?_⟩
    obtain ⟨d, -, -, hm⟩ := hopen
    exact ⟨hm.shared.2, hm.shared.1⟩
  · obtain ⟨e, he⟩ := ho.selectEvents
    refine .inr ⟨⟨e, he⟩, fun x hx => ⟨?_, ho.apply hx⟩, ho.shared_eq⟩
    refine List.mem_filterMap.2 ⟨.obs p n (ctx, c) (.commit b w), by simp, ?_⟩
    simp [effect, hx, he]

/-- The reply of a write that was carried out is the specification's at its place; any other is an
error, and no refusal. -/
theorem reply_of_write (ht : TraceOk (serversSpec rt cfg) d₀ t) {p : ι} {n : ℕ} {ctx : Context}
    {c : Call} {r : Except PyExc String} {x : String × Write} (hr : .reply p n (ctx, c) r ∈ t)
    (hx : writeOf (cfg p) ctx c = some x) :
    (∃ i : ℕ, (linearization cfg t)[i]? = some (p, n, x) ∧
      ((shared d₀).run rt.unicode ((linearization cfg t).map fun y => y.2.2)).2[i]? = some r) ∨
      ((∀ x', (p, n, x') ∉ linearization cfg t) ∧ ∃ e, NoVerdict e ∧ r = .error e) := by
  obtain ⟨t₁, t₂, rfl, ht₁, ⟨r', ⟨q, h', hq, hh, hres⟩, rfl⟩, hsame, hlast⟩ := ht.reply hr
  rcases hres with ha | ⟨hquiet, e, he, rfl⟩
  · obtain ⟨b, w, hm, hlt, hr', hguard⟩ := ha.apply hx
    -- the commit of the call, at its place in the trace
    obtain ⟨c', hc'⟩ := mem_history.1 (hh ▸ List.mem_append_right q hm)
    obtain rfl := hsame c' _ hc'
    obtain ⟨u, v, rfl, hu, rfl, -⟩ := ht₁.commit hc'
    have heff : effect cfg (.obs p n (ctx, c) (.commit (contents d₀ u) w)) = some (p, n, x) := by
      simp [effect, hx, hlt]
    refine .inl ⟨(linearization cfg u).length, ?_, ?_⟩
    · simp [linearization, List.filterMap_append, List.filterMap_cons_some heff]
    · rw [hguard, hr', shared_contents hu]
      simp only [linearization, List.filterMap_append, List.filterMap_cons_some heff,
        List.append_assoc, List.cons_append, List.map_append, List.map_cons, Shared.run_append,
        Shared.run]
      rw [List.getElem?_append_right (by simp [Shared.run_length])]
      simp [Shared.run_length]
  · refine .inr ⟨fun x' hx' => ?_, _, guardError_noVerdict he, rfl⟩
    obtain ⟨e', he', heff⟩ := List.mem_filterMap.1 hx'
    obtain ⟨ctx', c', b, w, rfl, hlt, -⟩ := effect_eq_some heff
    have hm := mem_history.2 ⟨_, hlast _ _ he'⟩
    rw [hh] at hm
    rcases List.mem_append.1 hm with hm | hm
    · rw [hq.selectEvents hm] at hlt
      omega
    · exact hquiet _ _ hm

/-- **The committed writes are linearizable in commit order.** The store and the log are those of
the atomic specification run on the committed `memory_set` and `memory_delete` calls one at a time,
each call being carried out at most once. Every commit but that of an opening adds exactly one
event, and a write that commits is carried out. Every reply is the specification's at the place of
its call; a call that is not carried out replies with an error, which is never the refusal of a
write. -/
theorem writes_linearizable (h₀ : s₀.Init) (h : Reach (servers rt cfg) s₀ s) :
    shared s.db =
      ((shared s₀.db).run rt.unicode ((linearization cfg s.trace).map fun y => y.2.2)).1 ∧
    ((linearization cfg s.trace).map fun y => (y.1, y.2.1)).Nodup ∧
    (∀ t₁ t₂ p n ctx c b w, s.trace = t₁ ++ .obs p n (ctx, c) (.commit b w) :: t₂ →
      (OpeningCommit rt (history t₁ p n) b w ∧ selectEvents w = selectEvents b ∧
        shared w = shared b) ∨
      ((∃ e, selectEvents w = selectEvents b ++ [e]) ∧
        (∀ x, writeOf (cfg p) ctx c = some x → (p, n, x) ∈ linearization cfg s.trace ∧
          shared w = ((shared b).apply rt.unicode x.1 x.2).1) ∧
        (writeOf (cfg p) ctx c = none → shared w = shared b))) ∧
    (∀ p n ctx c r x, .reply p n (ctx, c) r ∈ s.trace → writeOf (cfg p) ctx c = some x →
      (∃ i : ℕ, (linearization cfg s.trace)[i]? = some (p, n, x) ∧
        ((shared s₀.db).run rt.unicode
          ((linearization cfg s.trace).map fun y => y.2.2)).2[i]? = some r) ∨
        ((∀ x', (p, n, x') ∉ linearization cfg s.trace) ∧ ∃ e, ¬e.IsVerdict ∧ r = .error e)) ∧
    ∀ (a : Shared) (cid key value : String),
      ((∃ m, (a.apply rt.unicode cid (.set key value .absent)).2 = .ok m) ↔ a.facts key = none) ∧
      (∀ expected,
        (∃ m, (a.apply rt.unicode cid (.set key value (.expecting expected))).2 = .ok m) ↔
        ∃ source, a.facts key = some (expected, source)) ∧
      ∀ current source, a.facts key = some (current, source) →
        (a.apply rt.unicode cid (.set key value .absent)).2 = .error (.toolError
          ("CAS failed for " ++ PyText.repr rt.unicode key ++ ": " ++
            ("key already exists (current value: " ++ current ++ ")"))) ∧
        ∀ expected, expected ≠ current →
          (a.apply rt.unicode cid (.set key value (.expecting expected))).2 = .error (.toolError
            ("CAS failed for " ++ PyText.repr rt.unicode key ++ ": " ++ ("expected " ++
              PyText.repr rt.unicode expected ++ ", actual is " ++
                PyText.repr rt.unicode current))) := by
  have g := Reach.good (meets cfg) h₀ h
  refine ⟨?_, linearization_nodup g.trace, fun t₁ t₂ p n ctx c b w ht => ?_,
    fun p n ctx c r x hr hx => reply_of_write g.trace hr hx,
    fun a cid key value => ⟨a.apply_absent cid key value, a.apply_expecting cid key value,
      fun current source hk => Shared.apply_refused cid value hk⟩⟩
  · rw [g.db]
    exact shared_contents g.trace
  · have htrace := g.trace
    rw [ht] at htrace ⊢
    exact carried_out htrace

/-- In the run of two servers the create-only write of bob is refused: it is in the list, its reply
is the specification's at its place, and its event is in the log. -/
theorem writes_linearizable_sample :
    ∃ s : Sys ℕ (Context × Call) Db Instant Failure Bool PyExc String,
      (shared s.db).log = [⟨.text "alice", .text "set", .text "k", .text "v"⟩,
        ⟨.text "bob", .text "cas_fail", .text "k",
          .text "key already exists (current value: v)"⟩] ∧
      shared s.db = ((shared Db.empty).run Audit.sampleRuntime.unicode
        ((linearization (fun _ => { Config.default with embeddingsEnabled := false })
          s.trace).map fun y => y.2.2)).1 ∧
      ∃ i : ℕ, (linearization (fun _ => { Config.default with embeddingsEnabled := false })
          s.trace)[i]? = some (1, 1, "bob", .set "k" "w" .absent) ∧
        ((shared Db.empty).run Audit.sampleRuntime.unicode
          ((linearization (fun _ => { Config.default with embeddingsEnabled := false })
            s.trace).map fun y => y.2.2)).2[i]? = some (.error (.toolError
              "CAS failed for 'k': key already exists (current value: v)")) := by
  have h : (((Sys.initial .empty false).turns sampleServers refusedTurns).map fun s =>
      ((shared s.db).log, answered s.trace 1 1 refusedCall)) =
      some ([⟨.text "alice", .text "set", .text "k", .text "v"⟩,
        ⟨.text "bob", .text "cas_fail", .text "k",
          .text "key already exists (current value: v)"⟩],
        some (.error (.toolError
          "CAS failed for 'k': key already exists (current value: v)"))) := by
    decide +kernel
  obtain ⟨s, hs, hv⟩ := Option.map_eq_some_iff.1 h
  obtain ⟨hlog, hans⟩ := Prod.mk.inj hv
  obtain ⟨hshared, -, -, hreply, -⟩ := writes_linearizable (Sys.initial_init .empty false)
    (Sys.reach_of_turns (fun _ _ _ _ => trivial) hs)
  refine ⟨s, hlog, hshared, ?_⟩
  rcases hreply 1 1 _ _ _ _ (reply_mem_of_answered hans) rfl with hi | ⟨-, e, he, hr⟩
  · exact hi
  · refine absurd ?_ he
    rw [← Except.error.inj hr]
    exact .inl (by decide)

end Runs

end MemoryBridge
