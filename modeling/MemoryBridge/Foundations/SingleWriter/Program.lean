import Mathlib.Tactic.Common

/-!
# Programs over a database with one writer

A client of a transactional database is a tree of operations: each operation asks the outside (the
database engine, the clock, foreign code) for an answer and the tree continues with it. Statements
of the engine may fail, so their answers carry an error of type `ε`; the program itself may raise
exceptions of a second type `ξ`, of which the engine knows nothing.

The types are those of the client: `σ` the contents of the database, `τ` the readings of the clock,
`ε` the failures of the engine, `μ` the memory the client keeps between its calls, `ξ` its
exceptions. What the operations do is fixed in `Semantics`, how the programs of several clients
interleave in `System`.
-/

namespace SingleWriter

variable {σ τ ε μ ξ ξ' α β γ : Type}

/-- One operation of a client. -/
inductive Op (σ μ : Type) : Type
  /-- Read the clock. -/
  | now
  /-- Run foreign code that does not touch the database. -/
  | call
  /-- Read the client's own memory. -/
  | getMem
  /-- Replace the client's own memory. -/
  | putMem (m : μ)
  /-- Ask the connection whether a transaction is open. -/
  | inTransaction
  /-- `BEGIN IMMEDIATE`. -/
  | beginImmediate
  /-- A reading statement. -/
  | select
  /-- A data-changing statement, which turns the contents `d` into `u d`. -/
  | execute (u : σ → σ)
  | commit
  | rollback

/-- The answer to an operation. A reading statement is answered with the contents it sees, a
data-changing one with the contents before it, from which its row count can be computed. -/
abbrev Op.Answer (τ ε : Type) : Op σ μ → Type
  | .now => τ
  | .call => Except ε Unit
  | .getMem => μ
  | .putMem _ => Unit
  | .inTransaction => Bool
  | .beginImmediate => Except ε Unit
  | .select => Except ε σ
  | .execute _ => Except ε σ
  | .commit => Except ε Unit
  | .rollback => Unit

/-- A program: it returns, raises, or runs an operation and continues with its answer. -/
inductive Prog (σ τ ε μ ξ α : Type) : Type
  | ret (a : α)
  | raise (e : ξ)
  | op (o : Op σ μ) (k : o.Answer τ ε → Prog σ τ ε μ ξ α)

namespace Prog

/-- Sequencing: an exception skips the rest. -/
def bind : Prog σ τ ε μ ξ α → (α → Prog σ τ ε μ ξ β) → Prog σ τ ε μ ξ β
  | ret a, f => f a
  | raise e, _ => raise e
  | op o k, f => op o fun x => (k x).bind f

instance : Monad (Prog σ τ ε μ ξ) where
  pure := ret
  bind := bind

/-- `try: p` / `except: h`, where `h` receives every exception. -/
def tryCatch : Prog σ τ ε μ ξ α → (ξ → Prog σ τ ε μ ξ α) → Prog σ τ ε μ ξ α
  | ret a, _ => ret a
  | raise e, h => h e
  | op o k, h => op o fun x => (k x).tryCatch h

@[simp] theorem pure_eq (a : α) : (pure a : Prog σ τ ε μ ξ α) = ret a := rfl

@[simp] theorem ret_bind (a : α) (f : α → Prog σ τ ε μ ξ β) : ret a >>= f = f a := rfl

@[simp] theorem raise_bind (e : ξ) (f : α → Prog σ τ ε μ ξ β) :
    (raise e : Prog σ τ ε μ ξ α) >>= f = raise e := rfl

@[simp] theorem op_bind (o : Op σ μ) (k : o.Answer τ ε → Prog σ τ ε μ ξ α)
    (f : α → Prog σ τ ε μ ξ β) : op o k >>= f = op o fun x => k x >>= f := rfl

theorem bind_ret (p : Prog σ τ ε μ ξ α) : p >>= ret = p := by
  induction p with
  | ret a => rfl
  | raise e => rfl
  | op o k ih => rw [op_bind]; exact congrArg _ (funext ih)

theorem bind_assoc (p : Prog σ τ ε μ ξ α) (f : α → Prog σ τ ε μ ξ β) (g : β → Prog σ τ ε μ ξ γ) :
    p >>= f >>= g = p >>= fun a => f a >>= g := by
  induction p with
  | ret a => rfl
  | raise e => rfl
  | op o k ih => simp only [op_bind]; exact congrArg _ (funext ih)

instance : LawfulMonad (Prog σ τ ε μ ξ) :=
  LawfulMonad.mk' _ bind_ret (fun _ _ => rfl) bind_assoc

/-! ## The operations as programs -/

/-- A result that is already there. -/
def ofExcept : Except ξ α → Prog σ τ ε μ ξ α
  | .ok a => ret a
  | .error e => raise e

/-- The same operations, with another result. -/
def mapResult (g : Except ξ α → Except ξ' β) : Prog σ τ ε μ ξ α → Prog σ τ ε μ ξ' β
  | ret a => ofExcept (g (.ok a))
  | raise e => ofExcept (g (.error e))
  | op o k => op o fun x => (k x).mapResult g

theorem mapResult_id (p : Prog σ τ ε μ ξ α) : p.mapResult (fun r => r) = p := by
  induction p with
  | ret a => rfl
  | raise e => rfl
  | op o k ih => exact congrArg (op o) (funext ih)

/-- The answer of a fallible operation, its failure turned into an exception by `f`. -/
def ofAnswer (f : ε → ξ) (x : Except ε α) : Prog σ τ ε μ ξ α := ofExcept (x.mapError f)

def now : Prog σ τ ε μ ξ τ := op .now ret

def call (f : ε → ξ) : Prog σ τ ε μ ξ Unit := op .call (ofAnswer f)

def getMem : Prog σ τ ε μ ξ μ := op .getMem ret

def putMem (m : μ) : Prog σ τ ε μ ξ Unit := op (.putMem m) ret

def inTransaction : Prog σ τ ε μ ξ Bool := op .inTransaction ret

def beginImmediate (f : ε → ξ) : Prog σ τ ε μ ξ Unit := op .beginImmediate (ofAnswer f)

/-- A reading statement with the query `q`. -/
def select (f : ε → ξ) (q : σ → α) : Prog σ τ ε μ ξ α :=
  op .select fun x => ofAnswer f (x.map q)

/-- The contents after a data-changing statement `u`: one that fails its constraint changes
nothing. -/
def applied (u : σ → Except ξ (σ × α)) (d : σ) : σ :=
  match u d with
  | .ok (d', _) => d'
  | .error _ => d

/-- The result of a data-changing statement `u` on the contents `d`. -/
def result (u : σ → Except ξ (σ × α)) (d : σ) : Except ξ α := (u d).map Prod.snd

/-- A data-changing statement: `u` gives the new contents and the statement's result, or the error
of the constraint it fails. -/
def execute (f : ε → ξ) (u : σ → Except ξ (σ × α)) : Prog σ τ ε μ ξ α :=
  op (.execute (applied u)) fun x =>
    match x with
    | .ok d => ofExcept (result u d)
    | .error e => raise (f e)

def commit (f : ε → ξ) : Prog σ τ ε μ ξ Unit := op .commit (ofAnswer f)

def rollback : Prog σ τ ε μ ξ Unit := op .rollback ret

/-- Roll back, then raise. -/
def rollbackRaise (e : ξ) : Prog σ τ ε μ ξ α := do
  rollback
  raise e

/-- The body as one transaction: commit at its end, roll back on an exception of the body or of
the commit itself. -/
def transaction (f : ε → ξ) (body : Prog σ τ ε μ ξ α) : Prog σ τ ε μ ξ α :=
  tryCatch
    (do
      let a ← body
      commit f
      pure a)
    rollbackRaise

end Prog

end SingleWriter
