import MemoryBridge.CompareAndSwap

/-!
# Create-only writes have one winner

`memory_set` with `require_absent` lets the primary key decide: the conflict is the failure signal,
so no time passes between a look and a write. Where the clients of any number of servers write to a
key by such calls only, the first one in commit order wins: it is answered with success, alone, and
every other that is carried out is refused with the value of the winner (`creates_won_once`).
-/

open SingleWriter

namespace MemoryBridge

/-! ## In the specification -/

/-- The write leaves the fact of `k` alone, or creates it. -/
def Write.CreatesOnly (k : String) : Write → Prop
  | .set key _ mode => key = k → mode = .absent
  | .delete key => key ≠ k

/-- The value with which the write would create `k`. -/
def Write.creates (k : String) : Write → Option String
  | .set key value .absent => if key = k then some value else none
  | _ => none

/-- The first write that would create `k`: its value and its client. -/
def firstCreate (k : String) (l : List (String × Write)) : Option (String × String) :=
  l.findSome? fun y => (y.2.creates k).map fun v => (v, y.1)

/-- How a create-only write of `k` is answered where it finds the fact `current`, or none. -/
def createAnswer (U : PyText.Unicode) (k cid : String) :
    Option (String × String) → Except PyExc String
  | none => .ok ("set " ++ PyText.repr U k ++ " (from " ++ cid ++ ")")
  | some (current, _) => .error (.toolError ("CAS failed for " ++ PyText.repr U k ++ ": " ++
      ("key already exists (current value: " ++ current ++ ")")))

namespace Shared

variable {U : PyText.Unicode} {k : String}

/-- A write that does not create `k` leaves it alone. -/
theorem apply_of_creates_none (s : Shared) (cid : String) {x : Write} (hx : x.CreatesOnly k)
    (hc : x.creates k = none) :
    (s.apply U cid x).1.facts k = s.facts k ∧ (s.apply U cid x).1.setValues k = s.setValues k := by
  cases x with
  | delete key =>
    have hne : k ≠ key := fun h => hx h.symm
    simp [apply, setValues, hne]
  | set key value mode =>
    have hkey : key ≠ k := by
      intro hkey
      obtain rfl := hx hkey
      simp [Write.creates, hkey] at hc
    simp only [apply]
    cases s.refusal U key mode with
    | none => simp [setValues, hkey, hkey.symm]
    | some why => simp [setValues]

/-- A write that would create `k` does where there is no fact, and is answered accordingly. -/
theorem apply_of_creates (s : Shared) (cid : String) {x : Write} {v : String}
    (hc : x.creates k = some v) :
    (s.apply U cid x).1.facts k = (s.facts k).or (some (v, cid)) ∧
      (s.apply U cid x).1.setValues k =
        s.setValues k ++ (if (s.facts k).isSome then [] else [.text v]) ∧
      (s.apply U cid x).2 = createAnswer U k cid (s.facts k) := by
  match x, hc with
  | .set key value .absent, hc =>
    simp only [Write.creates, Option.ite_none_right_eq_some, Option.some.injEq] at hc
    obtain ⟨rfl, rfl⟩ := hc
    cases hk : s.facts key with
    | none => simp [apply, refusal, hk, setValues, createAnswer]
    | some f => simp [apply, refusal, hk, setValues, createAnswer]

/-- Writes one at a time: the first that would create `k` does, where there was no fact, and every
such write is answered as the fact before it says. -/
theorem run_creates (s : Shared) {l : List (String × Write)} (hl : ∀ y ∈ l, y.2.CreatesOnly k) :
    (s.run U l).1.facts k = (s.facts k).or (firstCreate k l) ∧
      (s.run U l).1.setValues k = s.setValues k ++
        (if (s.facts k).isSome then [] else ((firstCreate k l).map fun f => .text f.1).toList) ∧
      ∀ (i : ℕ) (y : String × Write) (v : String), l[i]? = some y → y.2.creates k = some v →
        (s.run U l).2[i]? =
          some (createAnswer U k y.1 ((s.facts k).or (firstCreate k (l.take i)))) := by
  induction l generalizing s with
  | nil => simp [run, firstCreate]
  | cons y l ih =>
    obtain ⟨cid, x⟩ := y
    obtain ⟨ihf, ihv, ihr⟩ := ih (s.apply U cid x).1 fun y hy => hl y (List.mem_cons_of_mem _ hy)
    cases hc : x.creates k with
    | none =>
      obtain ⟨hf, hv⟩ := s.apply_of_creates_none (U := U) cid (hl (cid, x) (by simp)) hc
      have hskip (l : List (String × Write)) : firstCreate k ((cid, x) :: l) = firstCreate k l := by
        simp [firstCreate, hc]
      rw [hf] at ihf ihv ihr
      rw [hv] at ihv
      refine ⟨by rw [hskip]; exact ihf, by rw [hskip]; exact ihv, fun i y v hi hy => ?_⟩
      cases i with
      | zero =>
        obtain rfl := Option.some.inj hi
        rw [hc] at hy
        cases hy
      | succ i =>
        rw [List.take_succ_cons, hskip]
        exact ihr i y v hi hy
    | some v₀ =>
      obtain ⟨hf, hv, hans⟩ := s.apply_of_creates (U := U) cid hc
      have hfirst (l : List (String × Write)) :
          firstCreate k ((cid, x) :: l) = some (v₀, cid) := by
        simp [firstCreate, hc]
      have hsome : ((s.facts k).or (some (v₀, cid))).isSome := by cases s.facts k <;> rfl
      have hor (z : Option (String × String)) :
          ((s.facts k).or (some (v₀, cid))).or z = (s.facts k).or (some (v₀, cid)) := by
        cases s.facts k <;> rfl
      rw [hf, hor] at ihf
      rw [hf, if_pos hsome, List.append_nil, hv] at ihv
      refine ⟨by rw [hfirst]; exact ihf, by rw [hfirst]; exact ihv, fun i y v hi hy => ?_⟩
      cases i with
      | zero =>
        obtain rfl := Option.some.inj hi
        simp [run, firstCreate, hans]
      | succ i =>
        rw [List.take_succ_cons, hfirst, ← hor (firstCreate k (l.take i)), ← hf]
        exact ihr i y v hi hy

end Shared

/-! ## In a run -/

/-- The call leaves the fact of `k` alone, or is a create-only write of it. -/
def Call.CreatesOnly (k : String) : Call → Prop
  | .memorySet key _ _ _ requireAbsent => key = k → requireAbsent = true
  | .memoryDelete key _ => key ≠ k
  | _ => True

theorem Call.CreatesOnly.write {cfg : Config} {ctx : Context} {c : Call} {k cid : String}
    {x : Write}
    (hc : c.CreatesOnly k) (hx : writeOf cfg ctx c = some (cid, x)) : x.CreatesOnly k := by
  cases c with
  | memorySet key value claimed expectedValue requireAbsent =>
    obtain ⟨_, -, hx⟩ := Option.map_eq_some_iff.1 hx
    obtain ⟨-, rfl⟩ := Prod.mk.inj hx
    intro hkey
    obtain rfl := hc hkey
    rfl
  | memoryDelete key claimed =>
    obtain ⟨_, -, hx⟩ := Option.map_eq_some_iff.1 hx
    obtain ⟨-, rfl⟩ := Prod.mk.inj hx
    exact hc
  | _ => cases hx

/-- Server processes whose clients write to `k` by create-only calls. -/
def creators {S : Type} [LinearOrder S] {ι : Type} (rt : Runtime S) (cfg : ι → Config)
    (k : String) :
    Clients ι (Context × Call) Db Instant Failure Bool PyExc String :=
  { servers rt cfg with may := fun _ c => c.2.CreatesOnly k }

/-- The call that created `k`: the client, the number of its call, who is named, and the value. -/
def winner {ι : Type} (k : String) (l : List (ι × ℕ × String × Write)) :
    Option (ι × ℕ × String × String) :=
  l.findSome? fun y => (y.2.2.2.creates k).map fun v => (y.1, y.2.1, y.2.2.1, v)

section Runs

variable {S : Type} [LinearOrder S] {rt : Runtime S} {ι : Type} [DecidableEq ι] {cfg : ι → Config}
  {d₀ : Db} {t : List (Entry ι (Context × Call) Db Instant PyExc String)} {k : String}
  {s₀ s : Sys ι (Context × Call) Db Instant Failure Bool PyExc String}

omit [DecidableEq ι] in
theorem firstCreate_eq (l : List (ι × ℕ × String × Write)) :
    firstCreate k (l.map fun y => y.2.2) = (winner k l).map fun w => (w.2.2.2, w.2.2.1) := by
  induction l with
  | nil => rfl
  | cons y l ih =>
    cases hc : y.2.2.2.creates k with
    | none => simpa [firstCreate, winner, hc] using ih
    | some v => simp [firstCreate, winner, hc]

/-- Every committed write leaves the fact of `k` alone or creates it. -/
theorem linearization_creates
    (ht : TraceOk ((serversSpec rt cfg).among fun _ c => c.2.CreatesOnly k) d₀ t) :
    ∀ y ∈ linearization cfg t, y.2.2.2.CreatesOnly k := by
  refine TraceOk.induction
    (P := fun t => ∀ y ∈ linearization cfg t, y.2.2.2.CreatesOnly k) nofun ?_ ht
  intro t e _ he ih
  cases heff : effect cfg e with
  | none => rwa [linearization_keep heff]
  | some y =>
    obtain ⟨ctx, c, b, w, rfl, -, hx⟩ := effect_eq_some heff
    rw [linearization_snoc heff]
    intro y' hy'
    rcases List.mem_append.1 hy' with hy' | hy'
    · exact ih y' hy'
    · obtain rfl := List.mem_singleton.1 hy'
      obtain ⟨-, hc, -⟩ := he.seen
      exact hc.1.write hx

omit [DecidableEq ι] in
theorem winner_append (l l' : List (ι × ℕ × String × Write)) :
    winner k (l ++ l') = (winner k l).or (winner k l') := List.findSome?_append

omit [DecidableEq ι] in
/-- The winner is the call at a place before which nothing creates `k`. -/
theorem winner_eq_some {l : List (ι × ℕ × String × Write)} {w : ι × ℕ × String × String}
    (h : winner k l = some w) :
    ∃ i x, l[i]? = some (w.1, w.2.1, w.2.2.1, x) ∧ x.creates k = some w.2.2.2 ∧
      winner k (l.take i) = none := by
  induction l with
  | nil => cases h
  | cons y l ih =>
    cases hc : y.2.2.2.creates k with
    | none =>
      obtain ⟨i, x, hi, hx, hnone⟩ := ih (by simpa [winner, hc] using h)
      exact ⟨i + 1, x, hi, hx, by simpa [winner, hc] using hnone⟩
    | some v =>
      obtain rfl : (y.1, y.2.1, y.2.2.1, v) = w := by simpa [winner, hc] using h
      exact ⟨0, y.2.2.2, rfl, hc, rfl⟩

omit [DecidableEq ι] in
theorem winner_of_take {l : List (ι × ℕ × String × Write)} {i : ℕ} {y : ι × ℕ × String × Write}
    {v : String} (hi : l[i]? = some y) (hy : y.2.2.2.creates k = some v)
    (hnone : winner k (l.take i) = none) : winner k l = some (y.1, y.2.1, y.2.2.1, v) := by
  obtain ⟨hlt, rfl⟩ := List.getElem?_eq_some_iff.1 hi
  conv_lhs => rw [← List.take_append_drop i l, ← List.getElem_cons_drop hlt]
  rw [winner_append, hnone, Option.none_or, winner, List.findSome?_cons, hy]
  rfl

/-- The reply of a create-only call that was carried out, and of one that was not. -/
theorem reply_of_create
    (ht : TraceOk ((serversSpec rt cfg).among fun _ c => c.2.CreatesOnly k) d₀ t)
    (hv : d₀.facts.lookup k = none) {p : ι} {n : ℕ} {ctx : Context} {value : String}
    {claimed : Option String} {r : Except PyExc String}
    (hr : .reply p n (ctx, .memorySet k value claimed none true) r ∈ t) :
    (∃ (i : ℕ) (cid : String), (linearization cfg t)[i]? = some (p, n, cid, .set k value .absent) ∧
      r = createAnswer rt.unicode k cid
        ((winner k ((linearization cfg t).take i)).map fun w => (w.2.2.2, w.2.2.1))) ∨
      ((∀ x, (p, n, x) ∉ linearization cfg t) ∧ ∃ e, NoVerdict e ∧ r = .error e) := by
  cases hcid : clientId (cfg p) ctx claimed with
  | error e =>
    have hx : writeOf (cfg p) ctx (.memorySet k value claimed none true) = none := by
      simp [writeOf, hcid, Except.toOption]
    obtain ⟨t₁, t₂, rfl, ht₁, ⟨r', ⟨q, h', hq, hh, hres⟩, rfl⟩, hsame, hlast⟩ :=
      ht.of_among.reply hr
    refine .inr ⟨fun x hx' => ?_, ?_⟩
    · obtain ⟨e', he', heff⟩ := List.mem_filterMap.1 hx'
      obtain ⟨ctx', c', b, w, rfl, -, hw⟩ := effect_eq_some heff
      obtain ⟨rfl, rfl⟩ := Prod.mk.inj (hsame _ _ (hlast _ _ he'))
      rw [hx] at hw
      cases hw
    · rcases hres with ha | ⟨-, e, he, rfl⟩
      · cases ha with
        | memorySet hcid' => rw [hcid] at hcid'; cases hcid'
      · exact ⟨_, guardError_noVerdict he, rfl⟩
  | ok cid =>
    have hx : writeOf (cfg p) ctx (.memorySet k value claimed none true) =
        some (cid, .set k value .absent) := by
      simp [writeOf, hcid, Except.toOption, modeOf]
    rcases reply_of_write ht.of_among hr hx with ⟨i, hi, hrun⟩ | hno
    swap
    · exact .inr hno
    refine .inl ⟨i, cid, hi, ?_⟩
    have hnone : (shared d₀).facts k = none := by simp [shared, hv]
    have hcreates : ∀ y ∈ (linearization cfg t).map fun y => y.2.2, y.2.CreatesOnly k := by
      intro y hy
      obtain ⟨z, hz, rfl⟩ := List.mem_map.1 hy
      exact linearization_creates ht z hz
    have hans := (Shared.run_creates (U := rt.unicode) (shared d₀) hcreates).2.2 i
      (cid, .set k value .absent) value (by rw [List.getElem?_map, hi]; rfl)
      (by simp [Write.creates])
    rw [hrun, hnone, Option.none_or, ← List.map_take, firstCreate_eq] at hans
    exact Option.some.inj hans

/-- A create-only call whose own transaction commits is in the list. -/
theorem created_carried_out {t₁ t₂ : List (Entry ι (Context × Call) Db Instant PyExc String)}
    {p : ι}
    {n : ℕ} {ctx : Context} {value : String} {claimed : Option String} {b w : Db}
    (ht : TraceOk ((serversSpec rt cfg).among fun _ c => c.2.CreatesOnly k) d₀
      (t₁ ++ .obs p n (ctx, .memorySet k value claimed none true) (.commit b w) :: t₂)) :
    OpeningCommit rt (history t₁ p n) b w ∨ ∃ cid, (p, n, cid, .set k value .absent) ∈
      linearization cfg
        (t₁ ++ .obs p n (ctx, .memorySet k value claimed none true) (.commit b w) :: t₂) := by
  obtain ⟨-, hc, -⟩ := (ht.of_among t₁ _ t₂ rfl).seen
  rcases hc with hopen | ⟨q, h', -, -, ho⟩
  · exact .inl hopen
  obtain ⟨e, he⟩ := ho.selectEvents
  cases ho with
  | @memorySet _ _ cid _ _ _ _ _ _ _ _ hcid _ _ =>
    refine .inr ⟨cid, List.mem_filterMap.2 ⟨.obs p n (ctx, .memorySet k value claimed none true)
      (.commit b w), by simp, ?_⟩⟩
    simp [effect, writeOf, hcid, Except.toOption, modeOf, he]

/-- **Create-only writes race safely.** The clients of any number of servers write to `k` by
create-only calls, and it has no fact at first. In every reachable state there is no fact of `k` and
no call has won, or exactly one has: the fact is its value under its name, with one 'set' event
since the start, and stays so for good. A create-only call of `k` that commits, and not for an
opening, is carried out. It is answered with success exactly if it is the winner; any other that is
carried out is refused with the value of the winner, and no other is refused. -/
theorem creates_won_once (h₀ : s₀.Init) (hv : s₀.db.facts.lookup k = none)
    (h : Reach (creators rt cfg k) s₀ s) :
    ((s.db.facts.lookup k).map fun f => (f.value, f.sourceClient)) =
      (winner k (linearization cfg s.trace)).map (fun w => (w.2.2.2, w.2.2.1)) ∧
    setValues k s.db = setValues k s₀.db ++
      ((winner k (linearization cfg s.trace)).map fun w => .text w.2.2.2).toList ∧
    (∀ s' w, Reach (creators rt cfg k) s s' → winner k (linearization cfg s.trace) = some w →
      winner k (linearization cfg s'.trace) = some w) ∧
    (∀ t₁ t₂ p n ctx value claimed b w, s.trace = t₁ ++
        .obs p n (ctx, .memorySet k value claimed none true) (.commit b w) :: t₂ →
      OpeningCommit rt (history t₁ p n) b w ∨
        ∃ cid, (p, n, cid, .set k value .absent) ∈ linearization cfg s.trace) ∧
    ∀ p n ctx value claimed r, .reply p n (ctx, .memorySet k value claimed none true) r ∈ s.trace →
      ((∃ a, r = .ok a) ↔
        ∃ cid, winner k (linearization cfg s.trace) = some (p, n, cid, value)) ∧
      (∀ cid x w, (p, n, cid, x) ∈ linearization cfg s.trace →
        winner k (linearization cfg s.trace) = some w → (w.1, w.2.1) ≠ (p, n) →
          r = .error (.toolError ("CAS failed for " ++ PyText.repr rt.unicode k ++ ": " ++
            ("key already exists (current value: " ++ w.2.2.2 ++ ")")))) ∧
      ∀ e, r = .error e → e.IsVerdict → ∃ cid w,
        (p, n, cid, .set k value .absent) ∈ linearization cfg s.trace ∧
          winner k (linearization cfg s.trace) = some w ∧ (w.1, w.2.1) ≠ (p, n) := by
  have g := Reach.good ((meets cfg).among fun _ _ _ => trivial) h₀ h
  have ht := g.trace
  have hnone : (shared s₀.db).facts k = none := by simp [shared, hv]
  have hcreates : ∀ y ∈ (linearization cfg s.trace).map fun y => y.2.2, y.2.CreatesOnly k := by
    intro y hy
    obtain ⟨z, hz, rfl⟩ := List.mem_map.1 hy
    exact linearization_creates ht z hz
  have hcontents := shared_contents ht.of_among
  rw [← g.db] at hcontents
  obtain ⟨hf, hs, -⟩ := Shared.run_creates (U := rt.unicode) (shared s₀.db) hcreates
  rw [← hcontents, hnone, Option.none_or, firstCreate_eq] at hf
  rw [← hcontents, hnone, shared_setValues, shared_setValues, firstCreate_eq] at hs
  refine ⟨hf, ?_, fun s' w hs' hw => ?_, fun t₁ t₂ p n ctx value claimed b w htr => ?_,
    fun p n ctx value claimed r hr => ?_⟩
  · rw [hs]
    cases winner k (linearization cfg s.trace) <;> rfl
  · obtain ⟨t, ht'⟩ := hs'.trace_prefix
    rw [← ht', linearization, List.filterMap_append, winner_append, ← linearization, hw]
    rfl
  · have htrace := ht
    rw [htr] at htrace ⊢
    exact created_carried_out htrace
  have hnodup := linearization_nodup ht.of_among
  -- two places of one call are the same
  have hplace {i j : ℕ} {y z : ι × ℕ × String × Write}
      (hi : (linearization cfg s.trace)[i]? = some y)
      (hj : (linearization cfg s.trace)[j]? = some z)
      (hyz : (y.1, y.2.1) = (z.1, z.2.1)) : i = j := by
    have hlt := (List.getElem?_eq_some_iff.1 hi).1
    refine (List.getElem?_inj (by simpa using hlt) hnodup).1 ?_
    rw [List.getElem?_map, List.getElem?_map, hi, hj]
    exact congrArg some hyz
  rcases reply_of_create ht hv hr with ⟨i, cid, hi, rfl⟩ | ⟨hno, e, hverdict, rfl⟩
  · have hy : (Write.set k value .absent).creates k = some value := if_pos rfl
    cases hw : winner k ((linearization cfg s.trace).take i) with
    | none =>
      have hwin := winner_of_take hi hy hw
      refine ⟨iff_of_true ⟨_, rfl⟩ ⟨cid, hwin⟩, fun cid' x w _ hw' hne => absurd ?_ hne,
        fun e he => by cases he⟩
      rw [hwin] at hw'
      rw [← Option.some.inj hw']
    | some w₀ =>
      -- the winner stands before this call
      have hfirst : winner k (linearization cfg s.trace) = some w₀ := by
        rw [← List.take_append_drop i (linearization cfg s.trace), winner_append, hw]
        rfl
      obtain ⟨j, x₀, hj, -, -⟩ := winner_eq_some hw
      obtain ⟨hji, hj⟩ : j < i ∧ (linearization cfg s.trace)[j]? = _ := by
        rw [List.getElem?_take] at hj
        split at hj
        case isTrue hji => exact ⟨hji, hj⟩
        case isFalse => cases hj
      have hne : (w₀.1, w₀.2.1) ≠ (p, n) := fun heq => hji.ne (hplace hj hi heq)
      refine ⟨iff_of_false (by simp [createAnswer]) ?_, fun cid' x w _ hw' _ => ?_,
        fun e _ _ => ⟨cid, w₀, List.mem_of_getElem? hi, hfirst, hne⟩⟩
      · rintro ⟨cid', hw'⟩
        rw [hfirst] at hw'
        exact hne (by rw [Option.some.inj hw'])
      · rw [hfirst] at hw'
        obtain rfl := Option.some.inj hw'
        rfl
  · refine ⟨iff_of_false (by simp) ?_, fun cid x w hx => absurd hx (hno _), fun e' he' hv' => ?_⟩
    swap
    · obtain rfl := Except.error.inj he'
      exact absurd hv' hverdict
    rintro ⟨cid, hw⟩
    obtain ⟨i, x, hi, -, -⟩ := winner_eq_some hw
    exact hno _ (List.mem_of_getElem? hi)

/-- Two servers that create the same key: the second one is waiting for the lock when the first
commits. -/
def createTurns : List (Sys.Turn ℕ (Context × Call) Instant) :=
  [⟨1, some (⟨none⟩, .memorySet "k" "w" (some "bob") none true), .newYear, 14⟩,
    ⟨0, some (⟨none⟩, .memorySet "k" "v" (some "alice") none true), .newYear, 40⟩,
    ⟨1, none, .newYear, 40⟩]

theorem creates_won_once_sample :
    ∃ s : Sys ℕ (Context × Call) Db Instant Failure Bool PyExc String,
      ((linearization (fun _ => { Config.default with embeddingsEnabled := false }) s.trace).map
        fun y => (y.1, y.2.1)) = [(0, 1), (1, 1)] ∧
      ((s.db.facts.lookup "k").map fun f => (f.value, f.sourceClient)) = some ("v", "alice") := by
  have h : (((Sys.initial .empty false).turns
      (creators Audit.sampleRuntime
        (fun _ => { Config.default with embeddingsEnabled := false }) "k") createTurns).map fun s =>
      (((linearization (fun _ => { Config.default with embeddingsEnabled := false }) s.trace).map
        fun y => (y.1, y.2.1)),
        (winner "k" (linearization (fun _ => { Config.default with embeddingsEnabled := false })
          s.trace)).map fun w => (w.2.2.2, w.2.2.1))) =
      some ([(0, 1), (1, 1)], some ("v", "alice")) := by
    decide +kernel
  obtain ⟨s, hs, hv⟩ := Option.map_eq_some_iff.1 h
  have hmay : ∀ x ∈ createTurns, ∀ c ∈ x.call, c.2.CreatesOnly "k" := by
    simp [createTurns, Call.CreatesOnly]
  have hmain := creates_won_once (Sys.initial_init .empty false) rfl (Sys.reach_of_turns hmay hs)
  obtain ⟨hl, hw⟩ := Prod.mk.inj hv
  exact ⟨s, hl, hmain.1.trans hw⟩

end Runs

end MemoryBridge
