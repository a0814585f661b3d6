import MemoryBridge.Foundations.SingleWriter.RealTime
import MemoryBridge.Linearization

/-!
# Worker threads (`_SERVER_LOCK`)

The SDK runs the tool calls of a process on worker threads, and these share the one connection of
the process. `_tool_guard` takes `_SERVER_LOCK` around the guarded function alone: `memory_set`
settles its client before, the translation of lock errors comes after, and answers are given outside
the lock, in any order. `threads_refine`: to the database this is a process that makes one call at a
time. `threads_linearizable`: the writes that commit are linearizable in an order that respects when
calls were made and answered on their threads.
-/

open SingleWriter

namespace MemoryBridge

variable {S : Type} [LinearOrder S] (rt : Runtime S) (cfg : Config)

/-! ## The parts of a call -/

/-- The error of a call that does not come to the lock of the server. -/
def unguarded (ctx : Context) : Call → Option PyExc
  | .memorySet _ _ claimed _ _ =>
    match clientId cfg ctx claimed with
    | .ok _ => none
    | .error e => some e
  | .lockHold _ =>
    if cfg.enableDemoTools then none else some (.toolError "Unknown tool: lock_hold")
  | _ => none

/-- The function that `_tool_guard` wraps: what a call does under the lock of the server. -/
def guardedFn (ctx : Context) : Call → Py String
  | .memorySet key value claimed expectedValue requireAbsent => do
    let cid ← Prog.ofExcept (clientId cfg ctx claimed)
    guardedSet rt cfg key value cid expectedValue requireAbsent
  | .memoryGet key includeEvents => memoryGet rt cfg key ctx includeEvents
  | .memoryList start => memoryList rt start
  | .memorySearch query topK => memorySearch rt cfg query ctx topK
  | .memoryHistory key includeReads => memoryHistory rt key includeReads
  | .memoryDelete key claimed => memoryDelete rt cfg key ctx claimed
  | .lockHold seconds => lockHold rt cfg ctx seconds

/-- Server processes with worker threads. -/
def workers {ι : Type} (cfg : ι → Config) :
    Workers ι (Context × Call) Db Instant Failure Bool PyExc String where
  refuse p c := (unguarded (cfg p) c.1 c.2).map .error
  body p c := guardedFn rt (cfg p) c.1 c.2
  after p _ r := r.mapError (guardError (cfg p))
  boot := false

variable {rt cfg}

/-- What is raised before the lock is no verdict on the store. -/
theorem unguarded_noVerdict {ctx : Context} {c : Call} {e : PyExc}
    (h : unguarded cfg ctx c = some e) : NoVerdict e := by
  cases c with
  | memorySet key value claimed expectedValue requireAbsent =>
    cases hc : clientId cfg ctx claimed with
    | ok cid => simp [unguarded, hc] at h
    | error e' =>
      obtain rfl : e' = e := by simpa [unguarded, hc] using h
      exact clientId_noVerdict hc
  | lockHold seconds =>
    unfold unguarded at h
    split_ifs at h
    cases h
    exact noVerdict_toolError (by decide) (by decide)
  | memoryGet => cases h
  | memoryList => cases h
  | memorySearch => cases h
  | memoryHistory => cases h
  | memoryDelete => cases h

/-- The guard changes nothing but the error. -/
theorem toolGuard_eq (fn : Py String) :
    toolGuard cfg fn = fn.mapResult (Except.mapError (guardError cfg)) := by
  induction fn with
  | ret a => rfl
  | raise e => rfl
  | op o k ih => exact congrArg (Prog.op o) (funext ih)

/-- A call that comes to the lock is its guarded function, up to the error. -/
theorem tool_eq {ctx : Context} {c : Call} (h : unguarded cfg ctx c = none) :
    tool rt cfg ctx c = (guardedFn rt cfg ctx c).mapResult (Except.mapError (guardError cfg)) := by
  cases c with
  | memorySet key value claimed expectedValue requireAbsent =>
    rw [tool, memorySet, guardedFn]
    cases hc : clientId cfg ctx claimed with
    | error e => simp [unguarded, hc] at h
    | ok cid => exact toolGuard_eq _
  | lockHold seconds =>
    rw [tool, guardedFn]
    by_cases hdemo : cfg.enableDemoTools = true
    · rw [if_pos hdemo, toolGuard_eq]
    · simp [unguarded, hdemo] at h
  | memoryGet => exact toolGuard_eq _
  | memoryList => exact toolGuard_eq _
  | memorySearch => exact toolGuard_eq _
  | memoryHistory => exact toolGuard_eq _
  | memoryDelete => exact toolGuard_eq _

variable (rt) in
/-- The processes that make one call at a time make the calls of the worker threads. -/
theorem workers_sequential {ι : Type} (cfg : ι → Config) :
    (workers rt cfg).Sequential (servers rt cfg) where
  may _ _ _ := trivial
  code p c h := tool_eq (by simpa [workers] using h)
  boot := rfl

/-! ## Runs -/

/-- A mark of a worker thread of a server process. -/
abbrev ServerMark (ι θ : Type) : Type := Mark ι θ (Context × Call) Db Instant PyExc String

/-- The write that a mark carries out: its call, the number of the call under the lock of the
server, who is named as the writer, and what is written. -/
def writeMark {ι θ : Type} (cfg : ι → Config) :
    ServerMark ι θ → Option (Ticket ι θ (Context × Call) × ℕ × String × Write)
  | .obs x n (.commit b w) =>
    if (selectEvents b).length < (selectEvents w).length then
      (writeOf (cfg x.client) x.call.1 x.call.2).map fun y => (x, n, y)
    else none
  | _ => none

/-- The writes of a run in the order of their commits. -/
def committedWrites {ι θ : Type} (cfg : ι → Config) (t : List (ServerMark ι θ)) :
    List (Ticket ι θ (Context × Call) × ℕ × String × Write) :=
  t.filterMap (writeMark cfg)

section Marks

variable {ι θ : Type} {cfg : ι → Config} {t : List (ServerMark ι θ)}

theorem writeMark_eq_some {e : ServerMark ι θ}
    {z : Ticket ι θ (Context × Call) × ℕ × String × Write} (h : writeMark cfg e = some z) :
    (∃ b w, e = .obs z.1 z.2.1 (.commit b w)) ∧
      writeOf (cfg z.1.client) z.1.call.1 z.1.call.2 = some z.2.2 := by
  unfold writeMark at h
  split at h
  case h_2 => cases h
  case h_1 x n b w =>
    split at h
    case isFalse => cases h
    case isTrue =>
      obtain ⟨y, hy, rfl⟩ := Option.map_eq_some_iff.1 h
      exact ⟨⟨b, w, rfl⟩, hy⟩

/-- A committed write is made by a call that took the lock of the server. -/
theorem acquired_of_write (h : InOrder (workers rt cfg) t)
    {z : Ticket ι θ (Context × Call) × ℕ × String × Write} (hz : z ∈ committedWrites cfg t) :
    .acquire z.1 z.2.1 ∈ t ∧ writeOf (cfg z.1.client) z.1.call.1 z.1.call.2 = some z.2.2 := by
  obtain ⟨e, he, heff⟩ := List.mem_filterMap.1 hz
  obtain ⟨⟨b, w, rfl⟩, hw⟩ := writeMark_eq_some heff
  exact ⟨h.acquired_of_obs he, hw⟩

/-- They are those of the processes that make one call at a time. -/
theorem linearization_entries (t : List (ServerMark ι θ)) :
    linearization cfg (entries t) =
      (committedWrites cfg t).map fun z => (z.1.client, z.2) := by
  rw [linearization, entries, List.filterMap_filterMap, committedWrites, List.map_filterMap]
  refine List.filterMap_congr fun e _ => ?_
  cases e with
  | invoke x => rfl
  | acquire x n => rfl
  | release x n r => rfl
  | respond x n r => rfl
  | obs x n o =>
    cases o with
    | clock t => rfl
    | read d => rfl
    | lock d => rfl
    | commit b w =>
      obtain ⟨p, i, m, ctx, c⟩ := x
      simp only [Mark.entry, Option.bind_some, effect, writeMark]
      split
      case isTrue =>
        rw [Option.map_map]
        rfl
      case isFalse => rfl

/-- A call carries out at most one write. -/
theorem committedWrites_nodup (h : InOrder (workers rt cfg) t)
    (hn : ((linearization cfg (entries t)).map fun y => (y.1, y.2.1)).Nodup) :
    ((committedWrites cfg t).map Prod.fst).Nodup := by
  rw [linearization_entries, List.map_map] at hn
  refine List.pairwise_map.2
    ((List.pairwise_map.1 hn).imp_of_mem fun {z z'} hz hz' hne heq => hne ?_)
  have hz := (acquired_of_write h hz).1
  have hz' := (acquired_of_write h hz').1
  have hnum : z.2.1 = z'.2.1 := (h.acquire_inj hz hz').2 heq
  simp only [Function.comp_apply, heq, hnum]

end Marks

/-! ## A run of two threads -/

/-- Worker threads without embeddings, otherwise with default settings. -/
abbrev sampleWorkers : Workers ℕ (Context × Call) Db Instant Failure Bool PyExc String :=
  workers Audit.sampleRuntime fun _ => { Config.default with embeddingsEnabled := false }

/-- One thread is inside its write when another one is called to delete the key. -/
def sampleThreads : List (Pool.Turn ℕ ℕ (Context × Call) Instant) :=
  [⟨0, 0, some (⟨none⟩, .memorySet "k" "v" (some "alice") none false), .newYear, 12⟩,
    ⟨0, 1, some (⟨none⟩, .memoryDelete "k" (some "bob")), .newYear, 0⟩,
    ⟨0, 0, none, .newYear, 40⟩, ⟨0, 1, none, .newYear, 40⟩]

/-- The thread that waits, and the two events of this run. -/
theorem sample_threads : ∃ s₁ s₂ : Pool ℕ ℕ (Context × Call) Db Instant Failure Bool PyExc String,
    Pool.Reach sampleWorkers (.initial .empty false) s₁ ∧ s₁.place 0 1 ≠ .idle ∧
      Pool.Reach sampleWorkers (.initial .empty false) s₂ ∧
      s₂.db.events.rows = [Audit.sampleSet, Audit.sampleDelete] := by
  have h₁ : (((Pool.initial .empty false).turns sampleWorkers (sampleThreads.take 2)).map fun s =>
      (s.next sampleWorkers 0 1 .newYear).isSome) = some true := by
    decide +kernel
  have h₂ : (((Pool.initial .empty false).turns sampleWorkers sampleThreads).map fun s =>
      s.db.events.rows) = some [Audit.sampleSet, Audit.sampleDelete] := by
    decide +kernel
  obtain ⟨s₁, hs₁, hv₁⟩ := Option.map_eq_some_iff.1 h₁
  obtain ⟨s₂, hs₂, hv₂⟩ := Option.map_eq_some_iff.1 h₂
  refine ⟨s₁, s₂, Pool.reach_of_turns hs₁, fun hidle => ?_, Pool.reach_of_turns hs₂, hv₂⟩
  rw [Pool.next, hidle] at hv₁
  cases hv₁

/-! ## Every run -/

section Runs

variable {ι θ : Type} [DecidableEq ι] [DecidableEq θ] {cfg : ι → Config} {d : Db}
  {s : Pool ι θ (Context × Call) Db Instant Failure Bool PyExc String}

/-- **Worker threads behave like one.** In every run of server processes with any number of worker
threads, at most one thread of a process is inside the lock of the server, and what the database
sees is a run of processes that make one call at a time. -/
theorem threads_refine (h : Pool.Reach (workers rt cfg) (.initial d false) s) :
    (∀ p i j n m c c' k k', s.place p i = .inside n c k → s.place p j = .inside m c' k' → i = j) ∧
    Reach (servers rt cfg) (.initial d false) (s.sys (workers rt cfg)) ∧
    (s.sys (workers rt cfg)).db = s.db ∧
    (s.sys (workers rt cfg)).trace = entries s.trace := by
  refine ⟨fun p i j n m c c' k k' hi hj => ?_, Pool.reach_sys (workers_sequential rt cfg) h, rfl,
    rfl⟩
  have hx := Pool.Reach.exclusive h p
  exact Option.some.inj ((hx.inside i n c k hi).1.symm.trans (hx.inside j m c' k' hj).1)

/-- In the run of two threads, the delete waits for the write. -/
theorem threads_refine_sample :
    ∃ s : Pool ℕ ℕ (Context × Call) Db Instant Failure Bool PyExc String,
      s.db.events.rows = [Audit.sampleSet, Audit.sampleDelete] ∧
      Reach (servers Audit.sampleRuntime
        fun _ => { Config.default with embeddingsEnabled := false })
        (.initial .empty false) (s.sys sampleWorkers) := by
  obtain ⟨-, s, -, -, hs, hrows⟩ := sample_threads
  exact ⟨s, hrows, (threads_refine hs).2.1⟩

/-- **No worker thread waits for ever.** In every reachable state, a call that was made and is not
answered can be answered by steps of the threads of its own process, whoever is inside the lock of
the server and whichever process holds that of the database. The database may have to refuse. -/
theorem threads_answerable (h : Pool.Reach (workers rt cfg) (.initial d false) s) {p : ι} {i : θ}
    (hp : s.place p i ≠ .idle) :
    ∃ c s' n r, Relation.ReflTransGen (Pool.StepOf (workers rt cfg) p) s s' ∧
      .respond (s.ticket p i c) n r ∈ s'.trace := by
  have : Nonempty Instant := ⟨.newYear⟩
  have : Nonempty Failure := ⟨.operational ""⟩
  exact Pool.Reach.answerable h hp

/-- The thread that waits in the run of two threads is answered. -/
theorem threads_answerable_sample :
    ∃ s : Pool ℕ ℕ (Context × Call) Db Instant Failure Bool PyExc String,
      s.place 0 1 ≠ .idle ∧ ∃ c s' n r, Relation.ReflTransGen (Pool.StepOf sampleWorkers 0) s s' ∧
        .respond (s.ticket 0 1 c) n r ∈ s'.trace := by
  obtain ⟨s, -, hs, hp, -, -⟩ := sample_threads
  exact ⟨s, hp, threads_answerable hs hp⟩

/-- The answer to a write is the specification's at its place in the order, or an error, and no
refusal, if it commits nothing. -/
theorem answer_of_write (h : Pool.Reach (workers rt cfg) (.initial d false) s)
    {x : Ticket ι θ (Context × Call)} {n : Option ℕ} {r : Except PyExc String}
    (hr : .respond x n r ∈ s.trace) {y : String × Write}
    (hy : writeOf (cfg x.client) x.call.1 x.call.2 = some y) :
    (∃ i m : ℕ, (committedWrites cfg s.trace)[i]? = some (x, m, y) ∧
      ((shared d).run rt.unicode ((committedWrites cfg s.trace).map fun z => z.2.2)).2[i]? =
        some r) ∨
      ((∀ z ∈ committedWrites cfg s.trace, z.1 ≠ x) ∧ ∃ e, NoVerdict e ∧ r = .error e) := by
  have ho := Pool.Reach.ordered h
  cases n with
  | none =>
    -- refused calls do not come to the lock
    have href := ho.refused hr
    refine .inr ⟨fun z hz hzx => ?_, ?_⟩
    · obtain rfl := hzx
      rw [ho.not_refused (acquired_of_write ho hz).1] at href
      cases href
    · obtain ⟨e, hun, he⟩ := Option.map_eq_some_iff.1 href
      exact ⟨e, unguarded_noVerdict hun, he.symm⟩
  | some n =>
    have g := Reach.good (meets cfg) (Sys.initial_init d false)
      (Pool.reach_sys (workers_sequential rt cfg) h)
    have hacq := ho.acquired (ho.released hr)
    rcases reply_of_write g.trace (ho.answered hr) hy with ⟨i, hi, hres⟩ | ⟨hnone, he⟩
    · have hi' : (linearization cfg (entries s.trace))[i]? = some (x.client, n, y) := hi
      have hres' : ((shared d).run rt.unicode
          ((linearization cfg (entries s.trace)).map fun y => y.2.2)).2[i]? = some r := hres
      rw [linearization_entries, List.getElem?_map] at hi'
      obtain ⟨⟨x', m, y'⟩, hz, heq⟩ := Option.map_eq_some_iff.1 hi'
      obtain ⟨hc, rfl, rfl⟩ : x'.client = x.client ∧ m = n ∧ y' = y := by simpa using heq
      -- the number under the lock is that of one call
      have hz' := (acquired_of_write ho (List.mem_of_getElem? hz)).1
      obtain rfl := (ho.acquire_inj hz' hacq).1 hc rfl
      refine .inl ⟨i, m, hz, ?_⟩
      rw [linearization_entries, List.map_map] at hres'
      exact hres'
    · refine .inr ⟨fun z hz hzx => ?_, he⟩
      obtain ⟨ha, hw⟩ := acquired_of_write ho hz
      subst hzx
      have hnum := (ho.acquire_inj ha hacq).2 rfl
      refine hnone z.2.2 ?_
      show (z.1.client, n, z.2.2) ∈ linearization cfg (entries s.trace)
      rw [linearization_entries, ← hnum]
      exact List.mem_map_of_mem (f := fun z => (z.1.client, z.2)) hz

/-- **Writes are linearizable in real time.** In every run of server processes with any number of
worker threads, the store and the log are those of the atomic specification run on the committed
writes one at a time, each call being carried out at most once. Every commit but that of an opening
adds exactly one event, and a write that commits is carried out. Every answer given on a thread is
the specification's at the place of its call, or an error, which is never the refusal of a write, if
the call commits nothing. Where a call is answered before another one is made, its write comes
first. -/
theorem threads_linearizable (h : Pool.Reach (workers rt cfg) (.initial d false) s) :
    shared s.db =
      ((shared d).run rt.unicode ((committedWrites cfg s.trace).map fun z => z.2.2)).1 ∧
    ((committedWrites cfg s.trace).map Prod.fst).Nodup ∧
    (∀ t₁ t₂ x n b w, s.trace = t₁ ++ .obs x n (.commit b w) :: t₂ →
      (OpeningCommit rt (history (entries t₁) x.client n) b w ∧ selectEvents w = selectEvents b ∧
        shared w = shared b) ∨
      ((∃ e, selectEvents w = selectEvents b ++ [e]) ∧
        (∀ y, writeOf (cfg x.client) x.call.1 x.call.2 = some y →
          (x, n, y) ∈ committedWrites cfg s.trace ∧
            shared w = ((shared b).apply rt.unicode y.1 y.2).1) ∧
        (writeOf (cfg x.client) x.call.1 x.call.2 = none → shared w = shared b))) ∧
    (∀ x n r y, .respond x n r ∈ s.trace →
      writeOf (cfg x.client) x.call.1 x.call.2 = some y →
      (∃ i m : ℕ, (committedWrites cfg s.trace)[i]? = some (x, m, y) ∧
        ((shared d).run rt.unicode ((committedWrites cfg s.trace).map fun z => z.2.2)).2[i]? =
          some r) ∨
        ((∀ z ∈ committedWrites cfg s.trace, z.1 ≠ x) ∧ ∃ e, ¬e.IsVerdict ∧ r = .error e)) ∧
    ∀ t₁ t₂ x n r y, s.trace = t₁ ++ t₂ → .respond x n r ∈ t₁ → .invoke y ∉ t₁ →
      ∃ l₁ l₂, committedWrites cfg s.trace = l₁ ++ l₂ ∧ (∀ z ∈ l₂, z.1 ≠ x) ∧
        ∀ z ∈ l₁, z.1 ≠ y := by
  have ho := Pool.Reach.ordered h
  have g := Reach.good (meets cfg) (Sys.initial_init d false)
    (Pool.reach_sys (workers_sequential rt cfg) h)
  have htrace : (s.sys (workers rt cfg)).trace = entries s.trace := rfl
  refine ⟨?_, committedWrites_nodup ho (linearization_nodup g.trace),
    fun t₁ t₂ x n b w ht => ?_, fun x n r y hr hy => answer_of_write h hr hy,
    fun t₁ t₂ x n r y ht hx hy => ?_⟩
  · have hdb := shared_contents g.trace
    rw [← g.db, htrace, linearization_entries, List.map_map] at hdb
    exact hdb
  · have hentries := g.trace
    rw [htrace, ht, entries_append] at hentries
    rcases carried_out hentries with hopen | ⟨⟨e, he⟩, hw, hnone⟩
    · exact .inl hopen
    · refine .inr ⟨⟨e, he⟩, fun y hy => ⟨?_, (hw y hy).2⟩, hnone⟩
      rw [ht]
      refine List.mem_filterMap.2 ⟨.obs x n (.commit b w), by simp, ?_⟩
      simp [writeMark, hy, he]
  · rw [ht] at ho ⊢
    refine ⟨committedWrites cfg t₁, committedWrites cfg t₂, List.filterMap_append,
      fun z hz => ?_, fun z hz => ?_⟩
    · obtain ⟨e, he, heff⟩ := List.mem_filterMap.1 hz
      obtain ⟨⟨b, w, rfl⟩, -⟩ := writeMark_eq_some heff
      exact ho.after_respond hx he
    · obtain ⟨e, he, heff⟩ := List.mem_filterMap.1 hz
      obtain ⟨⟨b, w, rfl⟩, -⟩ := writeMark_eq_some heff
      exact ho.before_invoke hy he

/-- In the run of two threads, the specification leaves no fact and has both lines in its log. -/
theorem threads_linearizable_sample :
    ∃ s : Pool ℕ ℕ (Context × Call) Db Instant Failure Bool PyExc String,
      s.db.events.rows = [Audit.sampleSet, Audit.sampleDelete] ∧
      shared s.db = ((shared Db.empty).run Audit.sampleRuntime.unicode
        ((committedWrites (fun _ => { Config.default with embeddingsEnabled := false })
          s.trace).map fun z => z.2.2)).1 := by
  obtain ⟨-, s, -, -, hs, hrows⟩ := sample_threads
  exact ⟨s, hrows, (threads_linearizable hs).1⟩

end Runs

end MemoryBridge
