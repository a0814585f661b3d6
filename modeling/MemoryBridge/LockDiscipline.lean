import MemoryBridge.Foundations.SingleWriter.Assertions
import MemoryBridge.Calls

/-!
# Who holds the writer lock, and what for

The engine gives the writer lock to whoever changes data, until that transaction ends. The tools use
it sparingly: the embedding model runs before the transaction (`_guarded_set`), `append` begins one
only if none is open, every `with db:` commits what it has locked or rolls back, and the tools that
only read run no transaction at all. `Disciplined` says so for one operation, `tool_disciplined` for
each tool, `lock_discipline` for every moment of every run. `reads_never_wait` is what the readers
gain from it.
-/

open SingleWriter

namespace MemoryBridge

variable {S : Type} {rt : Runtime S} {cfg : Config} {ctx : Context}

/-- The call sleeps while it holds the lock: that is its purpose. -/
def Call.sleeps : Call → Bool
  | .lockHold _ => true
  | _ => false

/-- The call writes nothing, not even an event. -/
def Call.reads (cfg : Config) : Call → Bool
  | .memoryList _ => true
  | .memoryHistory .. => true
  | .memoryGet .. => !cfg.logReads
  | _ => false

/-- What must hold of the connection before an operation. -/
def Orderly (sleeps : Bool) : Op Db Bool → Conn Db → Prop
  | .call, c => sleeps = false → c.locked = false
  | .beginImmediate, c => c = .idle
  | .select, c => c ≠ .deferred
  | .execute _, c => c ≠ .deferred
  | .commit, c => c.locked = true
  | _, _ => True

/-- What must hold before an operation of a call that sleeps or not and reads only or not. -/
structure Disciplined (sleeps reads : Bool) (o : Op Db Bool) (c : Conn Db) (opened : Bool) :
    Prop where
  orderly : Orderly sleeps o c
  reading : reads = true → opened = true → c = .idle ∧ o.Reading

/-- Inside a transaction: what succeeds holds the lock. -/
def Held {α : Type} (m : Bool) (r : Except PyExc α) (c : Conn Db) (m' : Bool) : Prop :=
  m' = m ∧ ∀ a, r = .ok a → c.locked = true

/-- Released of a transaction. -/
def Released (m : Bool) {α : Type} (_ : Except PyExc α) (c : Conn Db) (m' : Bool) : Prop :=
  c = .idle ∧ m' = m

namespace Disciplined

section Parts

variable {α : Type} {sl rd m : Bool} {c : Conn Db}

/-- An operation that a call makes only if it writes, or while it opens the connection. -/
theorem writing (hw : rd = true → m = false) {o : Op Db Bool} (h : Orderly sl o c) :
    Disciplined sl rd o c m :=
  ⟨h, fun hr hm => absurd ((hw hr).symm.trans hm) Bool.false_ne_true⟩

theorem not_reads {P : Prop} (hrd : rd = false) (hr : rd = true) : P :=
  absurd (hrd.symm.trans hr) Bool.false_ne_true

theorem ne_deferred (hc : c.locked = true) : c ≠ .deferred := by
  rintro rfl
  cases hc

theorem idle_ne_deferred : (Conn.idle : Conn Db) ≠ .deferred := nofun

/-- What follows a step outside of a transaction. -/
theorem released_bind {β : Type} {p : Py α} {f : α → Py β}
    (hp : p.during (Disciplined sl rd) (Released m) .idle m)
    (hf : ∀ a, (f a).during (Disciplined sl rd) (Released m) .idle m) :
    (p >>= f).during (Disciplined sl rd) (Released m) .idle m := by
  refine Prog.during_bind.2 (Prog.during_mono hp fun r c' m' hr => ?_)
  obtain ⟨rfl, rfl⟩ := hr
  cases r with
  | error e => exact ⟨rfl, rfl⟩
  | ok a => exact hf a

/-- A statement that reads, outside of a transaction. -/
theorem released_select (q : Db → α) :
    (Py.select q).during (Disciplined sl rd) (Released m) .idle m :=
  Prog.during_select ⟨idle_ne_deferred, fun _ _ => ⟨rfl, trivial⟩⟩ (fun _ => ⟨rfl, rfl⟩)
    fun _ => ⟨⟨rfl, rfl⟩, rfl, rfl⟩

/-- A result that is already there, outside of a transaction. -/
theorem released_ofExcept (r : Except PyExc α) :
    (Prog.ofExcept r : Py α).during (Disciplined sl rd) (Released m) .idle m :=
  (Prog.during_ofExcept r).2 ⟨rfl, rfl⟩

theorem released_ret (a : α) : (pure a : Py α).during (Disciplined sl rd) (Released m) .idle m :=
  ⟨rfl, rfl⟩

theorem released_foreign : Py.foreign.during (Disciplined sl rd) (Released m) .idle m :=
  Prog.during_call ⟨fun _ => rfl, fun _ _ => ⟨rfl, trivial⟩⟩ ⟨rfl, rfl⟩ fun _ => ⟨rfl, rfl⟩

/-- `with db:` around what takes the lock. -/
theorem withDb (hw : rd = true → m = false) {body : Py α}
    (h : body.during (Disciplined sl rd) (Held m) c m) :
    (Py.withDb body).during (Disciplined sl rd) (Released m) c m := by
  refine Prog.during_transaction (Prog.during_mono h fun r c m' hr => ?_)
  obtain ⟨rfl, hlocked⟩ := hr
  cases r with
  | error e => exact ⟨writing hw trivial, rfl, rfl⟩
  | ok a =>
    exact ⟨writing hw (hlocked a rfl), fun _ => writing hw trivial, ⟨rfl, rfl⟩, fun _ => ⟨rfl, rfl⟩⟩

/-- A statement that reads, under the lock. -/
theorem select (hw : rd = true → m = false) (hc : c.locked = true) (q : Db → α) :
    (Py.select q).during (Disciplined sl rd) (Held m) c m :=
  Prog.during_select (writing hw (ne_deferred hc)) (fun _ => ⟨rfl, fun _ _ => hc⟩)
    fun _ => ⟨⟨rfl, nofun⟩, ⟨rfl, nofun⟩⟩

/-- A statement that changes data, outside of a transaction or under the lock. -/
theorem execute (hw : rd = true → m = false) (hc : c ≠ .deferred) (u : Stmt α) :
    (Py.execute u).during (Disciplined sl rd) (Held m) c m :=
  Prog.during_execute (writing hw hc) (fun _ _ _ => ⟨rfl, fun _ _ => rfl⟩) fun _ _ => ⟨rfl, nofun⟩

/-- What follows a step inside a transaction. -/
theorem bind {β : Type} {p : Py α} {f : α → Py β}
    (hp : p.during (Disciplined sl rd) (Held m) c m)
    (hf : ∀ a c', c'.locked = true → (f a).during (Disciplined sl rd) (Held m) c' m) :
    (p >>= f).during (Disciplined sl rd) (Held m) c m := by
  refine Prog.during_bind.2 (Prog.during_mono hp fun r c' m' hr => ?_)
  obtain ⟨rfl, hlocked⟩ := hr
  cases r with
  | error e => exact ⟨rfl, nofun⟩
  | ok a => exact hf a c' (hlocked a rfl)

theorem ret (hc : c.locked = true) (a : α) :
    (pure a : Py α).during (Disciplined sl rd) (Held m) c m := ⟨rfl, fun _ _ => hc⟩

/-- A result that is already there, under the lock. -/
theorem ofExcept (hc : c.locked = true) (r : Except PyExc α) :
    (Prog.ofExcept r : Py α).during (Disciplined sl rd) (Held m) c m :=
  (Prog.during_ofExcept r).2 ⟨rfl, fun _ _ => hc⟩

/-- A transaction begins. -/
theorem begins (hw : rd = true → m = false) :
    (Prog.beginImmediate Failure.exc : Py Unit).during (Disciplined sl rd) (Held m) .idle m :=
  Prog.during_beginImmediate (writing hw rfl) (fun _ => ⟨rfl, fun _ _ => rfl⟩) fun _ => ⟨rfl, nofun⟩

theorem sealRows (hw : rd = true → m = false) (hc : c.locked = true) (previous : Cell)
    (rows : List Event) :
    (Audit.sealRows rt previous rows).during (Disciplined sl rd) (Held m) c m := by
  induction rows generalizing previous c with
  | nil => exact ret hc ()
  | cons event rest ih =>
    exact bind (ofExcept hc _) fun _ _ hc =>
      bind (execute hw (ne_deferred hc) _) fun _ _ hc => ih hc _

theorem migrate (hw : rd = true → m = false) :
    (Audit.migrate rt).during (Disciplined sl rd) (Released m) .idle m := by
  refine released_bind (released_select _) fun sealed => ?_
  split
  case isTrue => exact released_ret ()
  case isFalse =>
    refine withDb hw (bind (begins hw) fun _ c hc => bind (select hw hc _) fun sealed c hc => ?_)
    split
    case isTrue => exact ret hc ()
    case isFalse =>
      refine bind (execute hw (ne_deferred hc) _) fun _ _ hc => ?_
      refine bind (execute hw (ne_deferred hc) _) fun _ _ hc => ?_
      refine bind (select hw hc _) fun _ _ hc => ?_
      exact bind (sealRows hw hc _ _) fun _ _ hc => execute hw (ne_deferred hc) _

/-- `_db()` on the open connection. -/
theorem db_open {Q : Except PyExc Unit → Conn Db → Bool → Prop} (hr : rd = true → c = .idle)
    (hQ : Q (.ok ()) c true) :
    (db rt).during (Disciplined sl rd) Q c true :=
  Prog.during_bind.2 (Prog.during_getMem ⟨trivial, fun h _ => ⟨hr h, trivial⟩⟩ hQ)

/-- `_db()` at the start of a call, and what follows on the open connection. -/
theorem db_bind {f : Unit → Py α}
    (hf : (f ()).during (Disciplined sl rd) (Released true) .idle true) :
    (db rt >>= f).during (Disciplined sl rd) (fun _ conn _ => conn = .idle) .idle m := by
  have hf := Prog.during_mono hf fun (_ : Except PyExc α) _ _ (h : Released true _ _ _) => h.1
  refine Prog.during_bind.2 ?_
  cases m with
  | true => exact db_open (fun _ => rfl) hf
  | false =>
    have hforeign {Q : Except PyExc Unit → Conn Db → Bool → Prop} (hok : Q (.ok ()) .idle false)
        (hf : ∀ x : Failure, Q (.error x.exc) .idle false) :
        Py.foreign.during (Disciplined sl rd) Q .idle false :=
      Prog.during_call (writing (fun _ => rfl) fun _ => rfl) hok hf
    refine Prog.during_bind.2 (Prog.during_getMem (writing (fun _ => rfl) trivial) ?_)
    refine Prog.during_bind.2 (hforeign ?_ fun _ => rfl)
    refine Prog.during_bind.2 (Prog.during_tryCatch.2 ?_)
    -- an exception of the initialization closes the connection
    have hclose (e : PyExc) {Q : Except PyExc Unit → Conn Db → Bool → Prop}
        (hQ : Q (.error e) .idle false) :
        (Prog.rollbackRaise e : Py Unit).during (Disciplined sl rd) Q .idle false :=
      Prog.during_rollbackRaise (writing (fun _ => rfl) trivial) hQ
    refine Prog.during_bind.2 (hforeign ?_ fun _ => hclose _ rfl)
    refine Prog.during_bind.2 (hforeign ?_ fun _ => hclose _ rfl)
    refine Prog.during_bind.2 (hforeign ?_ fun _ => hclose _ rfl)
    refine Prog.during_mono (migrate fun _ => rfl) fun r c m hr => ?_
    obtain ⟨rfl, rfl⟩ := hr
    cases r with
    | error e => exact hclose _ rfl
    | ok u => exact Prog.during_putMem (writing (fun _ => rfl) trivial) hf

theorem appendLocked (hw : rd = true → m = false) (hc : c.locked = true)
    (timestamp cid action : String) (key value : Option String) :
    (Audit.appendLocked rt timestamp cid action key value).during (Disciplined sl rd) (Held m) c
      m := by
  refine bind (select hw hc _) fun _ _ hc => bind (select hw hc _) fun _ _ hc => ?_
  exact bind (ofExcept hc _) fun _ _ hc => execute hw (ne_deferred hc) _

/-- `_log` begins a transaction if none is open. -/
theorem log (hrd : rd = false) (hc : c = .idle ∨ c.locked = true) (cid action : String)
    (key value : Option String) :
    (log rt cid action key value).during (Disciplined sl rd) (Held true) c true := by
  have hw : rd = true → true = false := not_reads hrd
  refine Prog.during_bind.2 (db_open (not_reads hrd) ?_)
  refine Prog.during_bind.2 (Prog.during_now (writing hw trivial) fun t => ?_)
  refine Prog.during_bind.2 (Prog.during_inTransaction (writing hw trivial) ?_)
  rcases hc with rfl | hc
  · exact bind (begins hw) fun _ _ hc => appendLocked hw hc ..
  · cases c with
    | writer b w => exact appendLocked (c := .writer b w) hw rfl ..
    | idle => cases hc
    | deferred => cases hc

theorem logUnder (hrd : rd = false) (action : String) (key value : Option String) :
    (logUnder rt cfg ctx action key value).during (Disciplined sl rd) (Released true) .idle
      true := by
  refine Prog.during_bind.2
    (db_open (fun _ => rfl) (withDb (not_reads hrd) (Prog.during_bind.2 ?_)))
  refine (Prog.during_ofExcept _).2 ?_
  cases clientId cfg ctx none with
  | error e => exact ⟨rfl, nofun⟩
  | ok cid => exact log hrd (.inl rfl) ..

/-- The conditional write: a constraint that fails leaves the lock with the call, every other
failure ends its transaction. -/
theorem writeFact (hw : rd = true → true = false) (key value cid : String)
    (expectedValue : Option String) (requireAbsent : Bool) :
    (writeFact rt key value cid expectedValue requireAbsent).during (Disciplined sl rd) (Held true)
      .idle true := by
  have hnow {Q : Except PyExc Instant → Conn Db → Bool → Prop} (hQ : ∀ t, Q (.ok t) .idle true) :
      (Prog.now : Py Instant).during (Disciplined sl rd) Q .idle true :=
    Prog.during_now (writing hw trivial) hQ
  unfold MemoryBridge.writeFact
  split
  case isTrue =>
    refine Prog.during_bind.2 (hnow fun t => Prog.during_tryCatch.2 ?_)
    refine Prog.during_bind.2 (Prog.during_execute (writing hw idle_ne_deferred) (fun r b w => ?_)
      fun x c' => ?_)
    · cases r with
      | ok u => exact ⟨rfl, fun _ _ => rfl⟩
      | error e =>
        cases e with
        | integrityError msg =>
          exact bind (c := .writer b w) (select hw rfl _) fun _ _ hc => ret hc _
        | _ => exact ⟨rfl, nofun⟩
    · cases x <;> exact ⟨rfl, nofun⟩
  case isFalse =>
    split
    case h_1 expected =>
      refine Prog.during_bind.2 (hnow fun t => ?_)
      refine bind (execute hw idle_ne_deferred _) fun rowcount c hc => ?_
      split
      case isTrue => exact bind (select hw hc _) fun _ _ hc => ret hc _
      case isFalse => exact ret hc _
    case h_2 =>
      refine Prog.during_bind.2 (hnow fun t => ?_)
      exact bind (execute hw idle_ne_deferred _) fun _ _ hc => ret hc _

theorem recordWrite (hrd : rd = false) (hc : c.locked = true) (key value cid : String)
    (embedding : Option (List UInt8)) (casFailure : Option String) :
    (recordWrite rt key value cid embedding casFailure).during (Disciplined sl rd) (Held true) c
      true := by
  have hw : rd = true → true = false := not_reads hrd
  cases casFailure with
  | some casFailure => exact log hrd (.inr hc) ..
  | none =>
    cases embedding with
    | none => exact bind (ret hc ()) fun _ _ hc => log hrd (.inr hc) ..
    | some v =>
      exact bind (execute hw (ne_deferred hc) _) fun _ _ hc => log hrd (.inr hc) ..

theorem setTransaction (hrd : rd = false) (key value cid : String) (expectedValue : Option String)
    (requireAbsent : Bool) (embedding : Option (List UInt8)) :
    (setTransaction rt key value cid expectedValue requireAbsent embedding).during
      (Disciplined sl rd) (Released true) .idle true := by
  have hw : rd = true → true = false := not_reads hrd
  refine withDb hw (bind (writeFact hw ..) fun casFailure _ hc => ?_)
  exact bind (recordWrite hrd hc ..) fun _ _ hc => ret hc _

theorem deleteTransaction (hrd : rd = false) (key cid : String) :
    (deleteTransaction rt key cid).during (Disciplined sl rd) (Released true) .idle true := by
  have hw : rd = true → true = false := not_reads hrd
  refine withDb hw (bind (execute hw idle_ne_deferred _) fun rowcount _ hc => ?_)
  refine bind (execute hw (ne_deferred hc) _) fun _ _ hc => ?_
  exact bind (log hrd (.inr hc) ..) fun _ _ hc => ret hc _

/-- The one transaction that runs foreign code under the lock. -/
theorem holdTransaction (hrd : rd = false) (cid : String) :
    (holdTransaction rt cid).during (Disciplined true rd) (Released true) .idle true := by
  have hw : rd = true → true = false := not_reads hrd
  refine withDb hw (bind (log hrd (.inl rfl) ..) fun _ _ hc => ?_)
  exact Prog.during_call (writing hw nofun) ⟨rfl, fun _ _ => hc⟩ fun _ => ⟨rfl, nofun⟩

theorem showFact (key : String) (includeEvents : Bool) (row : Option Fact) :
    (showFact rt key includeEvents row).during (Disciplined sl rd) (Released true) .idle true := by
  cases row with
  | none => exact ⟨rfl, rfl⟩
  | some f =>
    cases includeEvents with
    | true =>
      exact Prog.during_bind.2
        (db_open (fun _ => rfl) (released_bind (released_select _) fun rows => released_ret _))
    | false => exact released_ret _

end Parts

end Disciplined

/-! ## Calls in which something fails -/

/-- An exception that `_guarded_set` does not handle. -/
def Uncaught (e : PyExc) : Prop := ∀ msg, e ≠ .integrityError msg

theorem Failure.uncaught (x : Failure) : Uncaught x.exc := by
  cases x <;> simp [Uncaught, Failure.exc]

namespace FailsFast

open Prog

section Parts

variable {α : Type}

theorem foreign : Py.foreign.failsFast Uncaught := failsFast_call Failure.uncaught

theorem select (q : Db → α) : (Py.select q).failsFast Uncaught :=
  failsFast_select Failure.uncaught q

theorem execute (u : Stmt α) : (Py.execute u).failsFast Uncaught :=
  failsFast_execute Failure.uncaught u

theorem withDb {body : Py α} (h : body.failsFast Uncaught) : (Py.withDb body).failsFast Uncaught :=
  failsFast_transaction Failure.uncaught h

theorem runIf (b : Bool) {p : Py Unit} (h : p.failsFast Uncaught) :
    (Py.runIf b p).failsFast Uncaught := by
  unfold Py.runIf
  split
  · exact h
  · trivial

theorem raises (r : Except PyExc α) {β : Type} {f : α → Py β}
    (h : ∀ a, (f a).failsFast Uncaught) : (ofExcept r >>= f).failsFast Uncaught :=
  failsFast_bind (failsFast_ofExcept r) h

theorem sealRows (previous : Cell) (rows : List Event) :
    (Audit.sealRows rt previous rows).failsFast Uncaught := by
  induction rows generalizing previous with
  | nil => trivial
  | cons event rest ih => exact raises _ fun _ => failsFast_bind (execute _) fun _ => ih _

theorem migrate : (Audit.migrate rt).failsFast Uncaught := by
  refine failsFast_bind (select _) fun sealed => ?_
  split
  case isTrue => trivial
  case isFalse =>
    refine withDb (failsFast_bind (failsFast_beginImmediate Failure.uncaught) fun _ =>
      failsFast_bind (select _) fun sealed => ?_)
    split
    case isTrue => trivial
    case isFalse =>
      exact failsFast_bind (execute _) fun _ => failsFast_bind (execute _) fun _ =>
        failsFast_bind (select _) fun _ => failsFast_bind (sealRows _ _) fun _ => execute _

theorem db : (db rt).failsFast Uncaught := by
  refine failsFast_bind failsFast_getMem fun opened => ?_
  split
  case isTrue => trivial
  case isFalse =>
    have hinit : (initializeDb rt).failsFast Uncaught :=
      failsFast_bind foreign fun _ => failsFast_bind foreign fun _ =>
        failsFast_bind foreign fun _ => migrate
    exact failsFast_bind foreign fun _ => failsFast_bind
      (failsFast_tryCatch hinit failsFast_rollbackRaise fun _ he => givesUp_rollbackRaise he)
      fun _ => failsFast_putMem true

theorem log (cid action : String) (key value : Option String) :
    (log rt cid action key value).failsFast Uncaught := by
  refine failsFast_bind db fun _ => failsFast_bind failsFast_now fun t =>
    failsFast_bind failsFast_inTransaction fun inside =>
    failsFast_bind (runIf _ (failsFast_beginImmediate Failure.uncaught)) fun _ => ?_
  exact failsFast_bind (select _) fun _ => failsFast_bind (select _) fun _ =>
    raises _ fun _ => execute _

theorem logUnder (action : String) (key value : Option String) :
    (logUnder rt cfg ctx action key value).failsFast Uncaught :=
  failsFast_bind db fun _ => withDb (raises _ fun _ => log ..)

/-- The one exception that is handled is that of a constraint, which is no failure. -/
theorem writeFact (key value cid : String) (expectedValue : Option String) (requireAbsent : Bool) :
    (writeFact rt key value cid expectedValue requireAbsent).failsFast Uncaught := by
  unfold MemoryBridge.writeFact
  split
  case isTrue =>
    refine failsFast_bind failsFast_now fun t => failsFast_tryCatch
      (failsFast_bind (execute _) fun _ => trivial) (fun e => ?_) fun e he => ?_
    · cases e with
      | integrityError msg => exact failsFast_bind (select _) fun _ => trivial
      | _ => trivial
    · cases e with
      | integrityError msg => exact absurd rfl (he msg)
      | _ => exact he
  case isFalse =>
    split
    case h_1 expected =>
      refine failsFast_bind failsFast_now fun t => failsFast_bind (execute _) fun rowcount => ?_
      split
      case isTrue => exact failsFast_bind (select _) fun _ => trivial
      case isFalse => trivial
    case h_2 =>
      exact failsFast_bind failsFast_now fun t => failsFast_bind (execute _) fun _ => trivial

theorem setTransaction (key value cid : String) (expectedValue : Option String)
    (requireAbsent : Bool) (embedding : Option (List UInt8)) :
    (setTransaction rt key value cid expectedValue requireAbsent embedding).failsFast
      Uncaught := by
  refine withDb (failsFast_bind (writeFact ..) fun casFailure => ?_)
  refine failsFast_bind ?_ fun _ => trivial
  cases casFailure with
  | some casFailure => exact log ..
  | none =>
    cases embedding with
    | none => exact log ..
    | some v => exact failsFast_bind (execute _) fun _ => log ..

theorem showFact (key : String) (includeEvents : Bool) (row : Option Fact) :
    (showFact rt key includeEvents row).failsFast Uncaught := by
  cases row with
  | none => trivial
  | some f =>
    cases includeEvents with
    | true => exact failsFast_bind db fun _ => failsFast_bind (select _) fun _ => trivial
    | false => trivial

theorem toolGuard {t : Py String} (h : t.failsFast Uncaught) :
    (toolGuard cfg t).failsFast Uncaught := by
  refine failsFast_tryCatch h (fun _ => trivial) fun e he => ?_
  show Uncaught (guardError cfg e)
  unfold guardError
  split
  · split <;> simp [Uncaught]
  · exact he

end Parts

/-- **Whatever fails in a tool, the tool gives up.** -/
theorem tool [LinearOrder S] (c : Call) : (tool rt cfg ctx c).failsFast Uncaught := by
  cases c with
  | memorySet key value claimed expectedValue requireAbsent =>
    refine raises _ fun cid => toolGuard ?_
    unfold guardedSet
    split
    case isTrue => trivial
    case isFalse =>
      exact raises _ fun _ => failsFast_bind db fun _ => failsFast_bind (runIf _ foreign) fun _ =>
        failsFast_bind (setTransaction ..) fun _ => failsFast_ofExcept _
  | memoryGet key includeEvents =>
    exact toolGuard (raises _ fun _ => failsFast_bind db fun _ =>
      failsFast_bind (select _) fun row =>
      failsFast_bind (runIf _ (logUnder ..)) fun _ => showFact ..)
  | memoryList start =>
    refine toolGuard (failsFast_bind db fun _ => failsFast_bind (select _) fun rows =>
      raises _ fun rows => ?_)
    split <;> trivial
  | memorySearch query topK =>
    refine toolGuard ?_
    unfold memorySearch
    split
    case isTrue => trivial
    case isFalse =>
      refine failsFast_bind db fun _ => failsFast_bind (select _) fun rows => ?_
      split
      case isTrue => trivial
      case isFalse =>
        refine failsFast_bind foreign fun _ => ?_
        unfold showHits
        split
        case h_1 => trivial
        case h_2 => exact failsFast_bind (logUnder ..) fun _ => trivial
  | memoryHistory key includeReads =>
    exact toolGuard (failsFast_bind db fun _ => failsFast_bind (select _) fun rows =>
      failsFast_ofExcept _)
  | memoryDelete key claimed =>
    refine toolGuard (raises _ fun cid => raises _ fun _ => failsFast_bind db fun _ =>
      failsFast_bind (withDb ?_) fun _ => trivial)
    exact failsFast_bind (execute _) fun _ => failsFast_bind (execute _) fun _ =>
      failsFast_bind (log ..) fun _ => trivial
  | lockHold seconds =>
    show (if cfg.enableDemoTools then MemoryBridge.toolGuard cfg (lockHold rt cfg ctx seconds)
      else Py.raise (.toolError "Unknown tool: lock_hold")).failsFast _
    split
    case isTrue =>
      exact toolGuard (raises _ fun cid => failsFast_bind db fun _ =>
        failsFast_bind (withDb (failsFast_bind (log ..) fun _ => foreign)) fun _ => trivial)
    case isFalse => trivial

end FailsFast

/-! ## The tools -/

variable [LinearOrder S]

open Disciplined in
/-- **Every tool is disciplined**, on a connection that is open or not. -/
theorem tool_disciplined (c : Call) (m : Bool) :
    (tool rt cfg ctx c).during (Disciplined c.sleeps (c.reads cfg)) (fun _ conn _ => conn = .idle)
      .idle m := by
  have guard {t : Py String} {A : Op Db Bool → Conn Db → Bool → Prop}
      (ht : t.during A (fun _ conn _ => conn = .idle) .idle m) :
      (toolGuard cfg t).during A (fun _ conn _ => conn = .idle) .idle m := by
    refine Prog.during_tryCatch.2 (Prog.during_mono ht fun r conn _ hr => ?_)
    cases r <;> exact hr
  have raises {α : Type} (r : Except PyExc α) {f : α → Py String} {sl rd : Bool}
      (hf : ∀ a, r = .ok a →
        (f a).during (Disciplined sl rd) (fun _ conn _ => conn = .idle) .idle m) :
      (Prog.ofExcept r >>= f).during (Disciplined sl rd) (fun _ conn _ => conn = .idle) .idle
        m := by
    refine Prog.during_bind.2 ((Prog.during_ofExcept _).2 ?_)
    cases r with
    | error e => rfl
    | ok a => exact hf a rfl
  cases c with
  | memorySet key value claimed expectedValue requireAbsent =>
    refine raises _ fun cid _ => guard ?_
    unfold guardedSet
    split
    case isTrue => rfl
    case isFalse =>
      refine raises _ fun _ _ => db_bind ?_
      refine released_bind ?_ fun _ =>
        released_bind (Disciplined.setTransaction rfl ..) fun _ => released_ofExcept _
      unfold Py.runIf
      split
      · exact released_foreign
      · exact released_ret ()
  | memoryGet key includeEvents =>
    refine guard (raises _ fun _ _ => db_bind (released_bind (released_select _) fun row => ?_))
    refine released_bind ?_ fun _ => Disciplined.showFact ..
    unfold Py.runIf
    split
    case isTrue hlog => exact Disciplined.logUnder (by simp [Call.reads, hlog]) ..
    case isFalse => exact released_ret ()
  | memoryList start =>
    refine guard (db_bind (released_bind (released_select _) fun rows => ?_))
    refine released_bind (released_ofExcept _) fun rows => ?_
    split <;> exact released_ret _
  | memorySearch query topK =>
    refine guard ?_
    unfold memorySearch
    split
    case isTrue => rfl
    case isFalse =>
      refine db_bind (released_bind (released_select _) fun rows => ?_)
      split
      case isTrue => exact released_ret _
      case isFalse =>
        refine released_bind released_foreign fun _ => ?_
        unfold showHits
        split
        case h_1 => exact ⟨rfl, rfl⟩
        case h_2 => exact released_bind (Disciplined.logUnder rfl ..) fun _ => released_ret _
  | memoryHistory key includeReads =>
    exact guard (db_bind (released_bind (released_select _) fun rows => released_ofExcept _))
  | memoryDelete key claimed =>
    refine guard (raises _ fun cid _ => raises _ fun _ _ => db_bind ?_)
    exact released_bind (Disciplined.deleteTransaction rfl ..) fun rowcount => released_ret _
  | lockHold seconds =>
    show (if cfg.enableDemoTools then toolGuard cfg (lockHold rt cfg ctx seconds)
      else Py.raise (.toolError "Unknown tool: lock_hold")).during _ _ _ _
    split
    case isTrue =>
      refine guard (raises _ fun cid _ => db_bind ?_)
      exact released_bind (Disciplined.holdTransaction rfl ..) fun _ => released_ret _
    case isFalse => rfl

variable {ι : Type} [DecidableEq ι] {cfg : ι → Config}
  {s₀ s : Sys ι (Context × Call) Db Instant Failure Bool PyExc String} {p : ι}

theorem servers_during (h₀ : s₀.Init) (h : Reach (servers rt cfg) s₀ s) (p : ι) :
    (s.procs p).During fun c => Disciplined c.2.sleeps (c.2.reads (cfg p)) :=
  Reach.during (K := servers rt cfg)
    (A := fun p c => Disciplined c.2.sleeps (c.2.reads (cfg p)))
    (fun _ c m _ => tool_disciplined c.2 m) h₀ h p

/-- A process between two calls holds nothing. -/
theorem between_calls (h₀ : s₀.Init) (h : Reach (servers rt cfg) s₀ s)
    (hj : (s.procs p).job = none) : s.lock ≠ some p ∧ (s.procs p).conn = .idle := by
  have hd := servers_during h₀ h p
  unfold Proc.During at hd
  rw [hj] at hd
  refine ⟨fun hl => ?_, hd⟩
  have hlocked := ((Reach.good (meets cfg) h₀ h).lock p).1 hl
  rw [hd] at hlocked
  cases hlocked

/-- **The writer lock is held for statements only.** In every reachable state, for whatever a
process does next: if it is foreign code (the embedding model, the file system), the process does
not hold the lock, unless the call is `lock_hold`; a transaction begins only where none is open; if
it fails, the call makes no other statement, it only rolls back and raises; no statement is made in
an open transaction without the lock; a commit is made by the holder of the lock; and a call that
only reads, on an open connection, neither holds the lock nor asks for it. A process between two
calls holds nothing. -/
theorem lock_discipline (h₀ : s₀.Init) (h : Reach (servers rt cfg) s₀ s) :
    ((s.procs p).job = none → s.lock ≠ some p ∧ (s.procs p).conn = .idle) ∧
    ∀ ctx c o k, (s.procs p).job = some ((ctx, c), .op o k) →
      (o = .call → c.sleeps = false → s.lock ≠ some p) ∧
      (o = .beginImmediate → (s.procs p).conn = .idle) ∧
      (∀ x, o.Failed x → (k x).givesUp Uncaught) ∧
      ((o = .select ∨ ∃ u, o = .execute u) → (s.procs p).conn ≠ .deferred) ∧
      (o = .commit → s.lock = some p) ∧
      (c.reads (cfg p) = true → (s.procs p).mem = true → s.lock ≠ some p ∧ o.Reading) := by
  have hd := servers_during h₀ h p
  have hlock := (Reach.good (meets cfg) h₀ h).lock p
  have hfree (hc : (s.procs p).conn.locked = false) : s.lock ≠ some p := fun hl =>
    Bool.false_ne_true (hc.symm.trans (hlock.1 hl))
  refine ⟨between_calls h₀ h, fun ctx c o k hj => ?_⟩
  unfold Proc.During at hd
  rw [hj] at hd
  obtain ⟨⟨horder, hreads⟩, -⟩ := hd
  refine ⟨?_, ?_, Reach.failsFast (fun _ _ => FailsFast.tool _) h₀ h hj, ?_, ?_, fun hr hm => ?_⟩
  · rintro rfl hs
    exact hfree (horder hs)
  · rintro rfl
    exact horder
  · rintro (rfl | ⟨u, rfl⟩)
    · exact horder
    · exact horder
  · rintro rfl
    exact hlock.2 horder
  · obtain ⟨hidle, ho⟩ := hreads hr hm
    exact ⟨hfree (hidle ▸ rfl), ho⟩

/-- The first server sets the key for alice; the second is deleting it for bob, and has the lock. -/
def lockedTurns : List (Sys.Turn ℕ (Context × Call) Instant) :=
  [⟨0, some (⟨none⟩, .memorySet "k" "v" (some "alice") none false), .newYear, 40⟩,
    ⟨1, some (⟨none⟩, .memoryDelete "k" (some "bob")), .newYear, 10⟩]

theorem locked_run : ∃ s, Reach sampleServers (.initial .empty false) s ∧ s.lock = some 1 ∧
    (s.procs 0).mem = true ∧ (s.procs 0).job.isNone ∧
    (selectLike (listPattern "") s.db).toOption.map (List.map Prod.fst) = some ["k"] := by
  have h : (((Sys.initial .empty false).turns sampleServers lockedTurns).map fun s =>
      (s.lock, (s.procs 0).mem, (s.procs 0).job.isNone,
        (selectLike (listPattern "") s.db).toOption.map (List.map Prod.fst))) =
      some (some 1, true, true, some ["k"]) := by
    decide +kernel
  obtain ⟨s, hs, hv⟩ := Option.map_eq_some_iff.1 h
  simp only [Prod.mk.injEq] at hv
  exact ⟨s, Sys.reach_of_turns (fun _ _ _ _ => trivial) hs, hv⟩

theorem lock_discipline_sample : ∃ s, Reach sampleServers (.initial .empty false) s ∧
    s.lock = some 1 ∧ (s.procs 0).conn = .idle := by
  obtain ⟨s, hs, hl, -, hj, -⟩ := locked_run
  exact ⟨s, hs, hl,
    ((lock_discipline (Sys.initial_init _ _) hs).1 (Option.isNone_iff_eq_none.1 hj)).2⟩

/-! ## Readers -/

/-- What `memory_get` shows of the contents `d`. -/
def getAnswer (rt : Runtime S) (key : String) (includeEvents : Bool) (d : Db) :
    Except PyExc String :=
  match selectFact key d with
  | none => .error (.toolError ("no fact for key " ++ PyText.repr rt.unicode key))
  | some f =>
    .ok (if includeEvents then factLine key f ++ "\nevents:\n" ++
        PyText.join "\n" ((eventsOf key writeActions d).map getLine)
      else factLine key f)

/-- What a call that only reads is for: a function of the contents. -/
def readAnswer (rt : Runtime S) (cfg : Config) : Call → Db → Option (Except PyExc String)
  | .memoryList start, d => some ((selectLike (listPattern start) d).map (listAnswer rt start))
  | .memoryHistory key includeReads, d =>
    some (historyText rt key (eventsOf key (historyActions includeReads) d))
  | .memoryGet key includeEvents, d =>
    if cfg.logReads then none
    else some ((validate cfg key none).bind fun _ => getAnswer rt key includeEvents d)
  | _, _ => none

omit [LinearOrder S] in
theorem reads_of_readAnswer {cfg : Config} {c : Call} {d : Db} {a : Except PyExc String}
    (ha : readAnswer rt cfg c d = some a) : c.reads cfg = true := by
  cases c with
  | memoryGet key includeEvents =>
    simp only [readAnswer] at ha
    split at ha
    case isTrue => cases ha
    case isFalse hlog => simp [Call.reads, hlog]
  | memoryList => rfl
  | memoryHistory => rfl
  | _ => cases ha

/-- On an open connection the tool computes this function. -/
theorem alone_of_readAnswer {cfg : Config} {c : Call} {d : Db} {a : Except PyExc String}
    (ctx : Context) (t : Instant) (ha : readAnswer rt cfg c d = some a) :
    (tool rt cfg ctx c).alone t d .idle true =
      some ⟨a.mapError (guardError cfg), d, .idle, true⟩ := by
  have guard {p : Py String} (hp : p.alone t d .idle true = some ⟨a, d, .idle, true⟩) :
      (toolGuard cfg p).alone t d .idle true =
        some ⟨a.mapError (guardError cfg), d, .idle, true⟩ := by
    rw [toolGuard, Prog.alone_tryCatch, hp]
    cases a <;> rfl
  cases c with
  | memoryList start =>
    obtain rfl := Option.some.inj ha
    refine guard ?_
    show (Prog.ofExcept (selectLike (listPattern start) d) >>= fun rows : List (String × Fact) =>
      (if rows = [] then pure ("(no facts matching prefix " ++ PyText.repr rt.unicode start ++ ")")
        else pure (PyText.join "\n" (rows.map fun r =>
          r.1 ++ " = " ++ r.2.value ++ "  (source: " ++ r.2.sourceClient ++ ")")) :
        Py String)).alone t d .idle true = _
    cases selectLike (listPattern start) d with
    | error e => rfl
    | ok rows =>
      unfold Except.map listAnswer
      simp only [Prog.ofExcept, Prog.ret_bind]
      split <;> rfl
  | memoryHistory key includeReads =>
    obtain rfl := Option.some.inj ha
    exact guard (Prog.alone_ofExcept _)
  | memoryGet key includeEvents =>
    simp only [readAnswer] at ha
    split at ha
    case isTrue => cases ha
    case isFalse hlog =>
      obtain rfl := Option.some.inj ha
      refine guard ?_
      unfold memoryGet
      cases validate cfg key none with
      | error e => rfl
      | ok u =>
        show (Py.runIf cfg.logReads (logUnder rt cfg ctx "get" (some key) none) >>= fun _ =>
          showFact rt key includeEvents (selectFact key d)).alone t d .idle true = _
        rw [Py.runIf, if_neg hlog]
        show (showFact rt key includeEvents (selectFact key d)).alone t d .idle true =
          some ⟨getAnswer rt key includeEvents d, d, .idle, true⟩
        unfold getAnswer
        cases selectFact key d with
        | none => rfl
        | some f => cases includeEvents <;> rfl
  | memorySet => cases ha
  | memorySearch => cases ha
  | memoryDelete => cases ha
  | lockHold => cases ha

/-- **Readers wait for nobody, and nobody for them.** In every reachable state of the servers,
whichever process holds the writer lock: a process with an open connection can complete
`memory_list`, `memory_history`, and `memory_get` without read logging by its own steps alone, from
any place in such a call. Made now, the call answers with what is committed, and it leaves the
contents, the lock and the other processes as they are. -/
theorem reads_never_wait (h₀ : s₀.Init) (h : Reach (servers rt cfg) s₀ s)
    (hopen : (s.procs p).mem = true) :
    (∀ ctx c k, (s.procs p).job = some ((ctx, c), k) → c.reads (cfg p) = true →
      ∃ s' r, OwnSteps (servers rt cfg) p s s' ∧ Beside p s s' ∧ (s'.procs p).job = none ∧
        .reply p (s.procs p).count (ctx, c) r ∈ s'.trace) ∧
    ∀ ctx c a, (s.procs p).job = none → readAnswer rt (cfg p) c s.db = some a →
      ∃ s', OwnSteps (servers rt cfg) p s s' ∧ Beside p s s' ∧ (s'.procs p).job = none ∧
        .reply p ((s.procs p).count + 1) (ctx, c) (a.mapError (guardError (cfg p))) ∈ s'.trace := by
  have hreading {c : Call} (hc : c.reads (cfg p) = true) (o : Op Db Bool)
      (ho : Disciplined c.sleeps (c.reads (cfg p)) o .idle true) : o.Reading :=
    (ho.reading hc rfl).2
  have hlock := (Reach.good (meets cfg) h₀ h).lock p
  constructor
  · intro ctx c k hj hc
    have hd := servers_during h₀ h p
    unfold Proc.During at hd
    rw [hj] at hd
    have hidle : (s.procs p).conn = .idle := by
      cases k with
      | ret r => exact hd
      | raise e => exact hd
      | op o k => exact (hd.1.reading hc hopen).1
    have hl : s.lock ≠ some p := fun hl => by
      have := hlock.1 hl
      rw [hidle] at this
      cases this
    have hk := hd
    rw [hidle] at hk
    obtain ⟨s', r, hs', hb, hn, hr, -⟩ := reach_of_reading (K := servers rt cfg) .newYear
      (by rw [hopen]; exact hreading hc) hj hidle hl hk
    exact ⟨s', r, hs', hb, hn, hr⟩
  · intro ctx c a hj ha
    have hc := reads_of_readAnswer ha
    obtain ⟨hl, hidle⟩ := between_calls h₀ h hj
    obtain ⟨s', r, hs', hb, hn, hr, halone⟩ := reach_of_reading_call (K := servers rt cfg)
      (c := (ctx, c)) .newYear (by rw [hopen]; exact hreading hc) trivial hj hidle hl
      (tool_disciplined c _)
    rw [hopen] at halone
    have hcode := (alone_of_readAnswer ctx .newYear ha).symm.trans halone
    obtain rfl : r = a.mapError (guardError (cfg p)) :=
      (congrArg Final.result (Option.some.inj hcode)).symm
    exact ⟨s', hs', hb, hn, hr⟩

/-- While the second server holds the lock, the first lists the key that is being deleted. -/
theorem reads_never_wait_sample : ∃ s s' rows, Reach sampleServers (.initial .empty false) s ∧
    s.lock = some 1 ∧ OwnSteps sampleServers 0 s s' ∧ s'.lock = some 1 ∧
    rows.map Prod.fst = ["k"] ∧ .reply 0 ((s.procs 0).count + 1) (⟨none⟩, .memoryList "")
      (.ok (listAnswer Audit.sampleRuntime "" rows)) ∈ s'.trace := by
  obtain ⟨s, hs, hl, hopen, hj, hrows⟩ := locked_run
  obtain ⟨rows, hrows, hkeys⟩ := Option.map_eq_some_iff.1 hrows
  have hrows : selectLike (listPattern "") s.db = .ok rows := by
    cases h : selectLike (listPattern "") s.db with
    | error e => rw [h] at hrows; cases hrows
    | ok rows' => rw [h] at hrows; rw [Option.some.inj hrows]
  have ha : readAnswer Audit.sampleRuntime { Config.default with embeddingsEnabled := false }
      (.memoryList "") s.db = some (.ok (listAnswer Audit.sampleRuntime "" rows)) := by
    rw [readAnswer, hrows]
    rfl
  obtain ⟨s', hs', hb, -, hr⟩ := (reads_never_wait (Sys.initial_init _ _) hs hopen).2 ⟨none⟩ _ _
    (Option.isNone_iff_eq_none.1 hj) ha
  exact ⟨s, s', rows, hs, hl, hs', hb.lock.trans hl, hkeys, hr⟩

end MemoryBridge
