import MemoryBridge.AuditTrail
import MemoryBridge.Foundations.SingleWriter.Relabel

/-!
# Traced calls (`_tool_guard` with `MCP_DEBUG_LOG`)

With `MCP_DEBUG_LOG` set, the guard of a tool appends to the file that it names, after the tool has
returned and in the handlers of exceptions. The first of these writes stands inside the `try`, after
the transaction of the tool is committed: what it raises reaches the handlers, which write once more
and raise. `tracing_unobserved_iff` compares every run with the untraced run of the same schedule:
the contents are the same, and the replies are if each guarded call that is answered could make its
first write.

The trace file is a file of its own. What its lines say is read by nobody here.
-/

open SingleWriter

namespace MemoryBridge

variable {S : Type} [LinearOrder S] (rt : Runtime S) (cfg : Config)

/-! ## The guard -/

/-- What becomes of the writes of a call to the trace file. -/
inductive DebugLog
  /-- `MCP_DEBUG_LOG` is not set: there are none. -/
  | unset
  /-- What its first write raises, and its second one, `none` where they succeed. -/
  | file (first second : Option PyExc)
  deriving DecidableEq

namespace DebugLog

def first : DebugLog → Option PyExc
  | unset => none
  | file first _ => first

def second : DebugLog → Option PyExc
  | unset => none
  | file _ second => second

end DebugLog

/-- An exception on its way out of a call: the tool raised it, or a write to the trace file. -/
inductive Raised
  | tool (e : PyExc)
  | trace (e : PyExc)
  deriving DecidableEq

abbrev TracedPy (α : Type) : Type := Prog Db Instant Failure Bool Raised α

/-- `with open(debug_path, "a", encoding="utf-8") as f: f.write(...)` -/
def writeTrace : Option PyExc → TracedPy Unit
  | none => pure ()
  | some e => Prog.raise (.trace e)

/-- The handlers of `_tool_guard`. An exception of the trace file comes from the first write. -/
def guardHandler (log : DebugLog) : Raised → TracedPy String
  | .tool e => do
    writeTrace log.first
    Prog.raise (.tool (guardError cfg e))
  | .trace e => do
    writeTrace log.second
    Prog.raise (.trace (guardError cfg e))

/-- `_tool_guard` -/
def toolGuardTraced (log : DebugLog) (fn : Py String) : TracedPy String :=
  Prog.tryCatch
    (do
      let result ← fn.mapResult (Except.mapError .tool)
      writeTrace log.first
      pure result)
    (guardHandler cfg log)

/-- The program of a tool call, with the guard that traces it. `memory_set` settles its client
before it calls the guarded function. -/
def toolTraced (log : DebugLog) (ctx : Context) : Call → TracedPy String
  | .memorySet key value claimed expectedValue requireAbsent => do
    let cid ← Prog.ofExcept ((clientId cfg ctx claimed).mapError .tool)
    toolGuardTraced cfg log (guardedSet rt cfg key value cid expectedValue requireAbsent)
  | .memoryGet key includeEvents => toolGuardTraced cfg log (memoryGet rt cfg key ctx includeEvents)
  | .memoryList start => toolGuardTraced cfg log (memoryList rt start)
  | .memorySearch query topK => toolGuardTraced cfg log (memorySearch rt cfg query ctx topK)
  | .memoryHistory key includeReads =>
    toolGuardTraced cfg log (memoryHistory rt key includeReads)
  | .memoryDelete key claimed => toolGuardTraced cfg log (memoryDelete rt cfg key ctx claimed)
  | .lockHold seconds =>
    if cfg.enableDemoTools then toolGuardTraced cfg log (lockHold rt cfg ctx seconds)
    else Prog.raise (.tool (.toolError "Unknown tool: lock_hold"))

/-! ## Its results -/

/-- What the guard makes of the result that a call has without tracing. -/
def DebugLog.outcome (log : DebugLog) (r : Except PyExc String) : Except Raised String :=
  match log.first, r with
  | none, r => r.mapError .tool
  | some e, .ok _ => .error (.trace (log.second.getD (guardError cfg e)))
  | some e, .error _ => .error (.trace e)

/-- Tracing changes nothing exactly if the first write succeeds. -/
theorem DebugLog.outcome_eq_iff {log : DebugLog} {r : Except PyExc String} :
    log.outcome cfg r = r.mapError .tool ↔ log.first = none := by
  unfold DebugLog.outcome
  cases log.first with
  | none => simp
  | some e => cases r <;> simp [Except.mapError]

/-- The guard that traces is the guard, up to the result. -/
theorem toolGuardTraced_eq (log : DebugLog) (fn : Py String) :
    toolGuardTraced cfg log fn = (toolGuard cfg fn).mapResult (log.outcome cfg) := by
  induction fn with
  | ret a =>
    show Prog.tryCatch (writeTrace log.first >>= fun _ => pure a) (guardHandler cfg log) =
      Prog.ofExcept (log.outcome cfg (.ok a))
    unfold DebugLog.outcome
    cases log.first with
    | none => rfl
    | some e =>
      show (writeTrace log.second >>= fun _ => Prog.raise (.trace (guardError cfg e))) = _
      cases log.second <;> rfl
  | raise e =>
    show (writeTrace log.first >>= fun _ => Prog.raise (.tool (guardError cfg e))) =
      Prog.ofExcept (log.outcome cfg (.error (guardError cfg e)))
    unfold DebugLog.outcome
    cases log.first <;> rfl
  | op o k ih => exact congrArg (Prog.op o) (funext ih)

/-- The call reaches the guard. -/
def Guarded (ctx : Context) : Call → Prop
  | .memorySet _ _ claimed _ _ => (clientId cfg ctx claimed).isOk = true
  | .lockHold _ => cfg.enableDemoTools = true
  | _ => True

instance (ctx : Context) : DecidablePred (Guarded cfg ctx)
  | .memorySet .. | .lockHold _ => inferInstanceAs (Decidable (_ = true))
  | .memoryGet .. | .memoryList _ | .memorySearch .. | .memoryHistory .. | .memoryDelete .. =>
    inferInstanceAs (Decidable True)

/-- What tracing makes of the result of a call. -/
def callOutcome (log : DebugLog) (ctx : Context) (c : Call)
    (r : Except PyExc String) : Except Raised String :=
  if Guarded cfg ctx c then log.outcome cfg r else r.mapError .tool

theorem callOutcome_eq_iff {log : DebugLog} {ctx : Context} {c : Call} {r : Except PyExc String} :
    callOutcome cfg log ctx c r = r.mapError .tool ↔ (Guarded cfg ctx c → log.first = none) := by
  unfold callOutcome
  split
  case isTrue hg => rw [DebugLog.outcome_eq_iff, forall_prop_of_true hg]
  case isFalse hg => exact iff_of_true rfl fun h => absurd h hg

/-- A traced call is the call, up to its result. -/
theorem toolTraced_eq (log : DebugLog) (ctx : Context) (c : Call) :
    toolTraced rt cfg log ctx c = (tool rt cfg ctx c).mapResult (callOutcome cfg log ctx c) := by
  have hguarded (hg : Guarded cfg ctx c) (fn : Py String) : toolGuardTraced cfg log fn =
      (toolGuard cfg fn).mapResult (callOutcome cfg log ctx c) := by
    have hout : callOutcome cfg log ctx c = log.outcome cfg := funext fun r => if_pos hg
    rw [toolGuardTraced_eq, hout]
  have hout (hg : ¬Guarded cfg ctx c) (e : PyExc) :
      callOutcome cfg log ctx c (.error e) = .error (.tool e) := if_neg hg
  cases c with
  | memorySet key value claimed expectedValue requireAbsent =>
    rw [toolTraced, tool, memorySet]
    cases hc : clientId cfg ctx claimed with
    | error e =>
      have hg : ¬Guarded cfg ctx (.memorySet key value claimed expectedValue requireAbsent) := by
        simp [Guarded, hc, Except.isOk, Except.toBool]
      exact (congrArg Prog.ofExcept (hout hg e)).symm
    | ok cid => exact hguarded (by simp [Guarded, hc, Except.isOk, Except.toBool]) _
  | lockHold seconds =>
    rw [toolTraced, tool]
    by_cases hdemo : cfg.enableDemoTools = true
    · rw [if_pos hdemo, if_pos hdemo]
      exact hguarded hdemo _
    · rw [if_neg hdemo, if_neg hdemo]
      exact (congrArg Prog.ofExcept (hout hdemo _)).symm
  | memoryGet => exact hguarded trivial _
  | memoryList => exact hguarded trivial _
  | memorySearch => exact hguarded trivial _
  | memoryHistory => exact hguarded trivial _
  | memoryDelete => exact hguarded trivial _

/-! ## Runs -/

/-- A call of a context, and what becomes of its trace. -/
abbrev TracedCall : Type := (Context × Call) × DebugLog

section Servers

variable {ι : Type} (cfg : ι → Config)

/-- The servers, whose guards trace. -/
def tracedServers : Clients ι TracedCall Db Instant Failure Bool Raised String where
  code p c := toolTraced rt (cfg p) c.2 c.1.1 c.1.2
  may _ _ := True
  boot := false

/-- The untraced servers, their calls named as those of the traced ones. -/
def namedServers : Clients ι TracedCall Db Instant Failure Bool PyExc String where
  code p c := tool rt (cfg p) c.1.1 c.1.2
  may _ _ := True
  boot := false

variable [DecidableEq ι]

/-- **When tracing is only an observer.** A schedule leads to the same contents with the traces as
without them. The replies are the same exactly if, in every answered call that reaches the guard,
`MCP_DEBUG_LOG` is not set or the first write to the trace file succeeds. -/
theorem tracing_unobserved_iff (d : Db) (l : List (ι × Move TracedCall Instant Failure)) :
    ((Sys.initial d false).exec (tracedServers rt cfg) l).map Sys.db =
        ((Sys.initial d false).exec (servers rt cfg) (Sys.relabelMoves Prod.fst l)).map Sys.db ∧
      ∀ s s₀, (Sys.initial d false).exec (tracedServers rt cfg) l = some s →
        (Sys.initial d false).exec (servers rt cfg) (Sys.relabelMoves Prod.fst l) = some s₀ →
        (replies s.trace =
            (replies s₀.trace).map (Prod.map id (Prod.map id (Except.mapError .tool))) ↔
          ∀ p n ctx c log r, .reply p n ((ctx, c), log) r ∈ s.trace →
            Guarded (cfg p) ctx c → log.first = none) := by
  -- both runs are images of the run of the untraced servers under the names of the traced ones
  have hcode (p : ι) (c : TracedCall) : (tracedServers rt cfg).code p (id c) =
      ((namedServers rt cfg).code p c).mapResult (callOutcome (cfg p) c.2 c.1.1 c.1.2) :=
    toolTraced_eq rt (cfg p) c.2 c.1.1 c.1.2
  have htraced := Sys.exec_recast hcode rfl l (.initial d false)
  have hname (p : ι) (c : TracedCall) :
      (servers rt cfg).code p c.1 = (namedServers rt cfg).code p c := rfl
  have hplain := Sys.exec_relabel hname rfl l (.initial d false)
  rw [Sys.relabelMoves_id, Sys.recast_initial] at htraced
  rw [Sys.relabel_eq_recast, Sys.recast_initial, ← Sys.relabel_eq_recast] at hplain
  rw [htraced, hplain]
  cases (Sys.initial d false).exec (namedServers rt cfg) l with
  | none => exact ⟨rfl, by simp⟩
  | some s' =>
    refine ⟨rfl, ?_⟩
    rintro _ _ ⟨⟩ ⟨⟩
    rw [Sys.recast, Sys.relabel, replies_relabel, replies_recast_eq_iff]
    simp only [callOutcome_eq_iff]
    constructor
    · intro h p n ctx c log r hm
      obtain ⟨e, he, hr⟩ := List.mem_map.1 hm
      cases e with
      | obs => cases hr
      | reply q m c' r' =>
        cases hr
        exact h _ _ _ _ he
    · rintro h p n ⟨⟨ctx, c⟩, log⟩ r hm
      exact h p n ctx c log _ (List.mem_map_of_mem hm)

end Servers

/-! ## A write of alice -/

/-- The settings of her server. -/
def traceConfig : Config :=
  { Config.default with embeddingsEnabled := false, defaultClientId := "alice" }

/-- She sets the key. -/
def traceSchedule (log : DebugLog) : List (Unit × Move TracedCall Instant Failure) :=
  ((), .start ((⟨none⟩, .memorySet "k" "v" none none false), log)) ::
    ([.go, .go, .go, .go, .go, .go, .go, .time .newYear, .go, .go, .time .newYear, .go, .go, .go,
      .go, .go].map fun ch => ((), .operate ch)) ++ [((), .finish)]

/-- The run of her server. -/
def traceRun (log : DebugLog) :
    Option (Sys Unit TracedCall Db Instant Failure Bool Raised String) :=
  (Sys.initial Db.opened false).exec (tracedServers Audit.sampleRuntime fun _ => traceConfig)
    (traceSchedule log)

/-- The run of the same schedule without tracing. -/
def plainRun (log : DebugLog) :
    Option (Sys Unit (Context × Call) Db Instant Failure Bool PyExc String) :=
  (Sys.initial Db.opened false).exec (servers Audit.sampleRuntime fun _ => traceConfig)
    (Sys.relabelMoves Prod.fst (traceSchedule log))

theorem plainRun_eq (log : DebugLog) :
    (plainRun log).map (fun s => (s.db.events.rows, replies s.trace)) =
      some ([Audit.sampleSet], [((), 1, .ok "set 'k' (from alice)")]) := by
  have h : (plainRun .unset).map (fun s => (s.db.events.rows, replies s.trace)) =
      some ([Audit.sampleSet], [((), 1, .ok "set 'k' (from alice)")]) := by
    decide +kernel
  exact h

/-- Tracing to a file that can be written is not observed. -/
theorem tracing_unobserved_iff_sample :
    ∃ s s₀, traceRun (.file none none) = some s ∧ plainRun (.file none none) = some s₀ ∧
      replies s.trace =
        (replies s₀.trace).map (Prod.map id (Prod.map id (Except.mapError .tool))) := by
  obtain ⟨-, hiff⟩ := tracing_unobserved_iff Audit.sampleRuntime (fun _ : Unit => traceConfig)
    Db.opened (traceSchedule (.file none none))
  obtain ⟨s₀, h₀, -⟩ := Option.map_eq_some_iff.1 (plainRun_eq (.file none none))
  have h : (traceRun (.file none none)).map (fun s => s.trace.all fun e => e.call.2.first.isNone) =
      some true := by
    decide +kernel
  obtain ⟨s, hs, hall⟩ := Option.map_eq_some_iff.1 h
  refine ⟨s, s₀, hs, h₀, (hiff s s₀ hs h₀).2 fun p n ctx c log r hm _ => ?_⟩
  exact Option.isNone_iff_eq_none.1 (List.all_eq_true.1 hall _ hm)

/-- The directory of the trace file does not exist. -/
def noTraceFile : PyExc :=
  .other "FileNotFoundError" "[Errno 2] No such file or directory: 'logs/trace.txt'"

/-- **A committed write that is reported as failed.** The fact of alice is stored, and her call
raises what `open` raises for the trace file. -/
theorem committed_write_reported_failed :
    ∃ s s₀, traceRun (.file (some noTraceFile) (some noTraceFile)) = some s ∧
      plainRun (.file (some noTraceFile) (some noTraceFile)) = some s₀ ∧
      s.db.events.rows = [Audit.sampleSet] ∧
      replies s₀.trace = [((), 1, .ok "set 'k' (from alice)")] ∧
      replies s.trace = [((), 1, .error (.trace noTraceFile))] ∧
      replies s.trace ≠
        (replies s₀.trace).map (Prod.map id (Prod.map id (Except.mapError .tool))) := by
  obtain ⟨s₀, h₀, hv₀⟩ := Option.map_eq_some_iff.1
    (plainRun_eq (.file (some noTraceFile) (some noTraceFile)))
  have h : (traceRun (.file (some noTraceFile) (some noTraceFile))).map
      (fun s => (s.db.events.rows, replies s.trace)) =
      some ([Audit.sampleSet], [((), 1, .error (.trace noTraceFile))]) := by
    decide +kernel
  obtain ⟨s, hs, hv⟩ := Option.map_eq_some_iff.1 h
  obtain ⟨hrows, hrep⟩ := Prod.mk.inj hv
  obtain ⟨-, hrep₀⟩ := Prod.mk.inj hv₀
  refine ⟨s, s₀, hs, h₀, hrows, hrep₀, hrep, ?_⟩
  rw [hrep, hrep₀]
  decide

end MemoryBridge
