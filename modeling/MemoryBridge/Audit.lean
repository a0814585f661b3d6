import MemoryBridge.Foundations.AsciiJson
import MemoryBridge.Runtime

/-!
# The audit log (`server/audit.py`)

The digest of an event, the migration that seals the events of a legacy store, the append that every
tool goes through, and the verification of the chain.
-/

open SingleWriter

namespace MemoryBridge.Audit

variable {S : Type} (rt : Runtime S)

/-- `GENESIS` -/
def genesis : String := String.ofList (List.replicate 64 '0')

/-! ## The digest -/

/-- The JSON value of a column; `json.dumps` has none for bytes. -/
def atom : Cell → Option AsciiJson.Atom
  | .null => some .null
  | .text s => some (.str s)
  | .blob _ => none

/-- The JSON values of an event. -/
def atoms (e : Event) : Option (List AsciiJson.Atom) := do
  let timestamp ← atom e.timestamp
  let clientId ← atom e.clientId
  let action ← atom e.action
  let key ← atom e.key
  let value ← atom e.value
  pure [.int e.id, timestamp, clientId, action, key, value]

/-- The text that `_digest` hashes. -/
def payload (previous : Cell) (e : Event) : Except PyExc (List Char) :=
  match atom previous, atoms e with
  | some p, some as => .ok (AsciiJson.dumps (.str "mcp-memory-events-v1" :: p :: as))
  | _, _ => .error (.typeError "Object of type bytes is not JSON serializable")

/-- `_digest` -/
def digest (previous : Cell) (e : Event) : Except PyExc String :=
  (payload previous e).map rt.sha256

/-! ## Migration -/

/-- The loop of `migrate`: one `UPDATE` for each row. -/
def sealRows : Cell → List Event → Py Unit
  | _, [] => pure ()
  | previous, event :: rest => do
    let d ← Prog.ofExcept (digest rt previous event)
    Py.execute (updateHashes event.id previous (.text d))
    sealRows (.text d) rest

/-- Seal legacy events once, under the same SQLite writer lock as appends. -/
def migrate : Py Unit := do
  let sealed ← Py.select hasChain
  if sealed then pure () else
    Py.withDb do
      Prog.beginImmediate Failure.exc
      let sealed ← Py.select hasChain
      if sealed then pure () else do
        Py.execute addPrevHashColumn
        Py.execute addEventHashColumn
        let rows ← Py.select selectEvents
        sealRows rt (.text genesis) rows
        Py.execute createTrigger

/-! ## Append -/

/-- The hash that the next event follows: `tail[0] if tail else GENESIS`. -/
def tailHash (tail : Option EventRow) : Cell :=
  match tail with
  | some row => row.eventHash
  | none => .text genesis

/-- The id of the next event: `sequence[0] + 1 if sequence else 1`. -/
def nextId (sequence : Option ℤ) : ℤ :=
  match sequence with
  | some seq => seq + 1
  | none => 1

/-- The statements of `append` under the lock. -/
def appendLocked (timestamp clientId action : String) (key value : Option String) : Py Unit := do
  let tail ← Py.select selectTail
  let previous := tailHash tail
  let sequence ← Py.select selectSequence
  let event : Event :=
    ⟨nextId sequence, .text timestamp, .text clientId, .text action, .ofOption key, .ofOption value⟩
  let d ← Prog.ofExcept (digest rt previous event)
  Py.execute (insertEvent ⟨event, previous, .text d⟩)

/-- Append under the writer lock. The caller owns commit and rollback. -/
def append (timestamp clientId action : String) (key value : Option String) : Py Unit := do
  let inside ← Prog.inTransaction
  Py.runIf (!inside) (Prog.beginImmediate Failure.exc)
  appendLocked rt timestamp clientId action key value

/-! ## Verification -/

/-- The loop of `verify`. -/
def verifyRows : String → ℕ → List EventRow → Except PyExc (ℕ × String)
  | previous, count, [] => .ok (count, previous)
  | previous, count, row :: rest => do
    let d ← digest rt (.text previous) row.event
    if row.prevHash ≠ .text previous ∨ row.eventHash ≠ .text d then
      .error (.valueError ("audit chain mismatch at event " ++ toString row.event.id))
    else verifyRows d (count + 1) rest

/-- Verify one consistent snapshot and return its event count and head. -/
def verify (d : Db) (expectedHead : Option String) : Except PyExc (ℕ × String) :=
  if ¬hasChain d then
    .error (.valueError "audit chain missing; open the database with the upgraded server first")
  else do
    let (count, previous) ← verifyRows rt genesis 0 d.events.rows
    match expectedHead with
    | some head =>
      if previous ≠ head then
        .error (.valueError ("audit head mismatch: expected " ++ head ++ ", found " ++ previous))
      else .ok (count, previous)
    | none => .ok (count, previous)

end MemoryBridge.Audit
