import MemoryBridge.Foundations.PyText
import MemoryBridge.Foundations.SingleWriter.Program
import MemoryBridge.Store
import Mathlib.Order.Defs.LinearOrder

/-!
# What the server runs on

The functions outside the repository that the server calls are the fields of `Runtime`: SHA-256, the
Unicode tables of the interpreter, the embedding model and its arithmetic, the order in which SQLite
returns the rows of a join. The server itself is a program (`Py`) over the store: it reads a clock,
runs statements that may fail, and keeps one bit between its calls, whether its connection is open.
-/

open SingleWriter

namespace MemoryBridge

/-- A row of the join that `memory_search` reads. -/
structure SearchRow where
  key : String
  fact : Fact
  embedding : List UInt8

/-- The functions outside the repository. Scores are of a type `S`. -/
structure Runtime (S : Type) where
  /-- `hashlib.sha256(...).hexdigest()` of an ASCII text -/
  sha256 : List Char → String
  unicode : PyText.Unicode
  /-- The bytes of the normalized vector of a text: the model is a fixed function. -/
  embed : String → List UInt8
  /-- `float(np.dot(...))` of two vectors, given by their bytes -/
  dot : List UInt8 → List UInt8 → S
  /-- `f"{score:.3f}"` -/
  fmt3 : S → String
  fmt3_unbroken : ∀ x, PyText.Unbroken (fmt3 x).toList
  /-- The order in which the rows of a join arrive. -/
  scan : List SearchRow → List SearchRow
  scan_perm : ∀ l, (scan l).Perm l

/-- A runtime for concrete runs, with the digests that they need: nothing beyond ASCII is printable,
texts are embedded by their own bytes, and different vectors are orthogonal. -/
def Runtime.tabulated (digests : List (String × String)) : Runtime ℕ where
  sha256 l := ((digests.find? fun d => d.1 = String.ofList l).map Prod.snd).getD ""
  unicode := ⟨fun _ => false, fun _ _ => rfl⟩
  embed s := s.toList.map fun c => UInt8.ofNat c.toNat
  dot v w := if v = w then 1 else 0
  fmt3 x := if x = 0 then "0.000" else "1.000"
  fmt3_unbroken x := by split <;> decide
  scan l := l
  scan_perm _ := .refl _

/-- A reading of the UTC clock. -/
structure Instant where
  year : ℕ
  month : ℕ
  day : ℕ
  hour : ℕ
  minute : ℕ
  second : ℕ
  microsecond : ℕ
  valid : 1000 ≤ year ∧ year < 10000 ∧ 1 ≤ month ∧ month ≤ 12 ∧ 1 ≤ day ∧ day ≤ 31 ∧ hour < 24 ∧
    minute < 60 ∧ second < 60 ∧ microsecond < 1000000
  deriving DecidableEq

open PyText in
/-- `strftime("%Y-%m-%dT%H:%M:%S.%f")` -/
def Instant.strftime (t : Instant) : String :=
  zfill 4 t.year ++ "-" ++ zfill 2 t.month ++ "-" ++ zfill 2 t.day ++ "T" ++ zfill 2 t.hour ++
    ":" ++ zfill 2 t.minute ++ ":" ++ zfill 2 t.second ++ "." ++ zfill 6 t.microsecond

/-- `_now()`: the text without its last three digits, and a `Z`. -/
def Instant.text (t : Instant) : String :=
  String.ofList (t.strftime.toList.take (t.strftime.length - 3)) ++ "Z"

def Instant.newYear : Instant := ⟨2026, 1, 1, 0, 0, 0, 0, by decide⟩

/-- A failure that does not come from a constraint: of the engine (a timeout at the lock, a full
disk) or of foreign code. -/
inductive Failure
  | operational (msg : String)
  | other (name msg : String)
  deriving DecidableEq, Repr

/-- The exception it arrives as. -/
def Failure.exc : Failure → PyExc
  | operational msg => .operationalError msg
  | other name msg => .other name msg

/-- A program of the server. -/
abbrev Py (α : Type) : Type := Prog Db Instant Failure Bool PyExc α

namespace Py

variable {α : Type}

def raise (e : PyExc) : Py α := Prog.raise e

/-- A statement that reads. -/
def select (q : Db → α) : Py α := Prog.select Failure.exc q

/-- A statement that changes data. -/
def execute (u : Stmt α) : Py α := Prog.execute Failure.exc u

/-- `with db:` -/
def withDb (body : Py α) : Py α := Prog.transaction Failure.exc body

/-- `if c: p` -/
def runIf (c : Bool) (p : Py Unit) : Py Unit := if c then p else pure ()

/-- Foreign code that does not touch the store and may fail. -/
def foreign : Py Unit := Prog.call Failure.exc

end Py

end MemoryBridge
