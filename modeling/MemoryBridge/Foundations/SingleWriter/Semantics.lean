import MemoryBridge.Foundations.SingleWriter.Program

/-!
# What one operation does

`Op.run` is the engine's answer to one operation of one client, as a function of the committed
contents, of whether no other client holds the writer lock, and of a choice of the environment
(whether the statement succeeds, what the clock shows). It fixes the locking discipline: the lock
is taken by `BEGIN IMMEDIATE` or by the first data-changing statement of a transaction, whether or
not that statement changes a row or fails its constraint, and is kept until commit or rollback. The
holder works on its own copy; readers outside a transaction see the committed contents.
-/

namespace SingleWriter

variable {σ τ ε μ ξ α β : Type}

/-- The state of a connection. -/
inductive Conn (σ : Type) : Type
  /-- No transaction is open. -/
  | idle
  /-- A transaction was begun but no statement has taken the lock. -/
  | deferred
  /-- The lock is held since the committed contents were `base`; `work` is the copy changed. -/
  | writer (base work : σ)

/-- A transaction is open. -/
def Conn.inTransaction : Conn σ → Bool
  | idle => false
  | deferred => true
  | writer _ _ => true

/-- The writer lock is held. -/
def Conn.locked : Conn σ → Bool
  | writer _ _ => true
  | _ => false

/-- Nobody commits while the lock is held: the base of its holder is what is committed. -/
def Conn.Coherent (db : σ) : Conn σ → Prop
  | writer base _ => base = db
  | _ => True

/-- What the environment decides about one operation. -/
inductive Choice (τ ε : Type) : Type
  /-- It succeeds. -/
  | go
  /-- The clock shows `t`. -/
  | time (t : τ)
  /-- It fails and leaves the transaction as it is. -/
  | fail (e : ε)
  /-- It fails and the engine rolls the transaction back by itself. -/
  | abort (e : ε)

/-- What an operation does that matters outside its own transaction. -/
inductive Obs (σ τ : Type) : Type
  /-- The clock was read. -/
  | clock (t : τ)
  /-- The committed contents `d` were read outside a transaction. -/
  | read (d : σ)
  /-- The lock was taken when the committed contents were `d`. -/
  | lock (d : σ)
  /-- A transaction that began at `base` was committed as `work`. -/
  | commit (base work : σ)

/-- The effect of one operation: its answer, the client's connection and memory, the committed
contents, and what was observed. -/
structure Outcome (τ ε : Type) (o : Op σ μ) : Type where
  ans : o.Answer τ ε
  conn : Conn σ
  mem : μ
  db : σ
  obs : Option (Obs σ τ) := none

/-- The outcome of operation `o`, if the choice applies to it and, where it needs the lock, the
lock is free. -/
def Op.run (db : σ) (free : Bool) (c : Conn σ) (m : μ) :
    (o : Op σ μ) → Choice τ ε → Option (Outcome τ ε o)
  | .now, .time t => some ⟨t, c, m, db, some (.clock t)⟩
  | .call, .go => some ⟨.ok (), c, m, db, none⟩
  | .call, .fail e => some ⟨.error e, c, m, db, none⟩
  | .getMem, .go => some ⟨m, c, m, db, none⟩
  | .putMem m', .go => some ⟨(), c, m', db, none⟩
  | .inTransaction, .go => some ⟨c.inTransaction, c, m, db, none⟩
  | .beginImmediate, .go =>
    match c, free with
    | .idle, true => some ⟨.ok (), .writer db db, m, db, some (.lock db)⟩
    | _, _ => none
  | .beginImmediate, .fail e => some ⟨.error e, c, m, db, none⟩
  | .select, .go =>
    match c with
    | .writer _ w => some ⟨.ok w, c, m, db, none⟩
    | _ => some ⟨.ok db, c, m, db, some (.read db)⟩
  | .select, .fail e => some ⟨.error e, c, m, db, none⟩
  | .select, .abort e => some ⟨.error e, .idle, m, db, none⟩
  | .execute u, .go =>
    match c, free with
    | .writer b w, _ => some ⟨.ok w, .writer b (u w), m, db, none⟩
    | _, true => some ⟨.ok db, .writer db (u db), m, db, some (.lock db)⟩
    | _, false => none
  | .execute _, .fail e =>
    match c with
    | .idle => some ⟨.error e, .deferred, m, db, none⟩
    | _ => some ⟨.error e, c, m, db, none⟩
  | .execute _, .abort e => some ⟨.error e, .idle, m, db, none⟩
  | .commit, .go =>
    match c with
    | .writer b w => some ⟨.ok (), .idle, m, w, some (.commit b w)⟩
    | _ => some ⟨.ok (), .idle, m, db, none⟩
  | .commit, .fail e => some ⟨.error e, c, m, db, none⟩
  | .commit, .abort e => some ⟨.error e, .idle, m, db, none⟩
  | .rollback, .go => some ⟨(), .idle, m, db, none⟩
  | _, _ => none

/-- A commit is of the working copy and ends the transaction; it is the only operation that changes
the committed contents. -/
theorem Op.run_db {db : σ} {free : Bool} {c : Conn σ} {m : μ} {o : Op σ μ} {ch : Choice τ ε}
    {out : Outcome τ ε o} (h : o.run db free c m ch = some out) :
    (out.db = db ∧ ∀ b w, out.obs ≠ some (.commit b w)) ∨
      ∃ b w, c = .writer b w ∧ out.obs = some (.commit b w) ∧ out.db = w ∧ out.conn = .idle := by
  cases o <;> cases ch <;> simp only [Op.run, reduceCtorEq] at h <;>
    (try split at h) <;> simp_all <;> subst h <;> simp

/-- The lock is held afterwards only if it was held before, or it was free and is taken now, and
then the working copy starts from what is committed. -/
theorem Op.run_conn {db : σ} {free : Bool} {c : Conn σ} {m : μ} {o : Op σ μ} {ch : Choice τ ε}
    {out : Outcome τ ε o} (h : o.run db free c m ch = some out) {b w : σ}
    (hw : out.conn = .writer b w) :
    (∃ w', c = .writer b w') ∨ (free = true ∧ b = db ∧ out.obs = some (.lock b)) := by
  cases o <;> cases ch <;> simp only [Op.run, reduceCtorEq] at h <;>
    (try split at h) <;> simp_all <;> subst h <;> simp_all

/-- What is read, and what is there when the lock is taken, are the committed contents. -/
theorem Op.run_obs {db : σ} {free : Bool} {c : Conn σ} {m : μ} {o : Op σ μ} {ch : Choice τ ε}
    {out : Outcome τ ε o} (h : o.run db free c m ch = some out) {d : σ}
    (hd : out.obs = some (.read d) ∨ out.obs = some (.lock d)) : d = db := by
  cases o <;> cases ch <;> simp only [Op.run, reduceCtorEq] at h <;>
    (try split at h) <;> simp_all <;> subst h <;> simp_all

end SingleWriter
