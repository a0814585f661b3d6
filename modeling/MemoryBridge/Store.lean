import Mathlib.Data.Int.Order.Basic
import Mathlib.Data.List.AList

/-!
# The SQLite store

The contents of the database file: the tables `facts`, `fact_embeddings` and `events`, the counter
that SQLite keeps for the AUTOINCREMENT ids of `events`, and the part of the schema that a migration
changes (the two hash columns and the trigger). Each SQL statement that changes data is a function
from contents to contents and a result, or the exception that `sqlite3` raises for it.

A table that has not been created is an empty one here: a server creates its tables before it runs
any statement on them.
-/

namespace MemoryBridge

/-- The Python exceptions that the server raises or lets through, with their messages. -/
inductive PyExc
  | toolError (msg : String)
  | operationalError (msg : String)
  | integrityError (msg : String)
  | valueError (msg : String)
  | typeError (msg : String)
  | overflowError (msg : String)
  | other (name msg : String)
  deriving DecidableEq, Repr

/-- A value of a TEXT column. A BLOB is kept as it is by the affinity of the column. -/
inductive Cell
  | null
  | text (s : String)
  | blob (b : List UInt8)
  deriving DecidableEq, Repr

/-- The value bound for a Python `str | None`. -/
def Cell.ofOption : Option String → Cell
  | some s => text s
  | none => null

/-- A row of `facts` below its key. -/
structure Fact where
  value : String
  sourceClient : String
  updatedAt : String
  deriving DecidableEq, Repr

/-- The columns `EVENT_FIELDS` of a row of `events`. -/
structure Event where
  id : ℤ
  timestamp : Cell
  clientId : Cell
  action : Cell
  key : Cell
  value : Cell
  deriving DecidableEq, Repr

/-- A row of `events`. -/
structure EventRow where
  event : Event
  prevHash : Cell
  eventHash : Cell
  deriving DecidableEq, Repr

/-- The table `events` in the order of its primary key, with its row `seq` of `sqlite_sequence`,
which is never below an id of the table. -/
structure EventTable where
  rows : List EventRow
  seq : Option ℤ
  sorted : rows.Pairwise fun r r' => r.event.id < r'.event.id
  bounded : ∀ r ∈ rows, ∃ s, seq = some s ∧ r.event.id ≤ s
  deriving DecidableEq

namespace EventTable

def empty : EventTable := ⟨[], none, .nil, by simp⟩

variable (t : EventTable)

/-- The counter after a row with this id is inserted. -/
def seqAfter (id : ℤ) : ℤ := max (t.seq.getD 0) id

/-- A row with an id of its own, unless the id is taken. -/
def insert (r : EventRow) : Option EventTable :=
  if h : ∀ r' ∈ t.rows, r'.event.id ≠ r.event.id then
    some
      { rows := t.rows.filter (·.event.id < r.event.id) ++
          r :: t.rows.filter (r.event.id < ·.event.id)
        seq := some (t.seqAfter r.event.id)
        sorted := by
          refine List.pairwise_append.2 ⟨t.sorted.filter _, List.pairwise_cons.2
            ⟨fun r' h' => by simpa using (List.mem_filter.1 h').2, t.sorted.filter _⟩, ?_⟩
          intro r₁ h₁ r₂ h₂
          have h₁ : r₁.event.id < r.event.id := by simpa using (List.mem_filter.1 h₁).2
          rcases List.mem_cons.1 h₂ with rfl | h₂
          · exact h₁
          · have h₂ : r.event.id < r₂.event.id := by simpa using (List.mem_filter.1 h₂).2
            omega
        bounded := by
          intro r' h'
          refine ⟨_, rfl, ?_⟩
          have hold : r' ∈ t.rows → r'.event.id ≤ t.seqAfter r.event.id := by
            intro hr
            obtain ⟨s, hs, hle⟩ := t.bounded r' hr
            simp only [seqAfter, hs, Option.getD_some]
            omega
          rcases List.mem_append.1 h' with h' | h'
          · exact hold (List.mem_filter.1 h').1
          · rcases List.mem_cons.1 h' with rfl | h'
            · exact Int.le_max_right _ _
            · exact hold (List.mem_filter.1 h').1 }
  else none

/-- The hash columns of every row replaced. -/
def rehash (f : EventRow → Cell × Cell) : EventTable where
  rows := t.rows.map fun r => ⟨r.event, (f r).1, (f r).2⟩
  seq := t.seq
  sorted := List.pairwise_map.2 t.sorted
  bounded := by
    intro r hr
    obtain ⟨r', hr', rfl⟩ := List.mem_map.1 hr
    exact t.bounded r' hr'

@[simp] theorem rehash_events (f : EventRow → Cell × Cell) :
    (t.rehash f).rows.map EventRow.event = t.rows.map EventRow.event := by
  simp [rehash]

theorem rehash_rehash (f g : EventRow → Cell × Cell) :
    (t.rehash f).rehash g = t.rehash fun r => g ⟨r.event, (f r).1, (f r).2⟩ := by
  simp [rehash]

/-- The largest id of the table. -/
def maxRowid : Option ℤ := t.rows.getLast?.map (·.event.id)

/-- The id that AUTOINCREMENT gives to the next row. -/
def autoId : ℤ := max (t.seq.getD 0) (t.maxRowid.getD 0) + 1

/-- A row whose id is above the counter is the last one. -/
theorem insert_eq {r : EventRow} (h : t.seq.getD 0 < r.event.id) :
    ∃ t', t.insert r = some t' ∧ t'.rows = t.rows ++ [r] ∧ t'.seq = some r.event.id := by
  have hlt : ∀ r' ∈ t.rows, r'.event.id < r.event.id := by
    intro r' hr'
    obtain ⟨s, hs, hle⟩ := t.bounded r' hr'
    simp only [hs, Option.getD_some] at h
    omega
  rw [insert, dif_pos fun r' hr' => Int.ne_of_lt (hlt r' hr')]
  refine ⟨_, rfl, ?_, ?_⟩
  · have h₁ : t.rows.filter (·.event.id < r.event.id) = t.rows :=
      List.filter_eq_self.2 fun r' hr' => by simpa using hlt r' hr'
    have h₂ : t.rows.filter (r.event.id < ·.event.id) = [] :=
      List.filter_eq_nil_iff.2 fun r' hr' => by simpa using Int.le_of_lt (hlt r' hr')
    show t.rows.filter _ ++ r :: t.rows.filter _ = _
    rw [h₁, h₂]
  · simp only [seqAfter, Int.max_eq_right (Int.le_of_lt h)]

end EventTable

/-- The contents of the database. -/
structure Db where
  facts : AList fun _ : String => Fact
  embeddings : AList fun _ : String => List UInt8
  events : EventTable
  /-- The column `events.prev_hash` exists. -/
  prevHashColumn : Bool
  /-- The column `events.event_hash` exists. -/
  eventHashColumn : Bool
  /-- The trigger `events_require_hash` exists. -/
  requireHash : Bool
  deriving DecidableEq

/-- A store whose tables were created and hold nothing, before its migration. -/
def Db.empty : Db := ⟨∅, ∅, .empty, false, false, false⟩

/-- A data-changing statement. -/
abbrev Stmt (α : Type) : Type := Db → Except PyExc (Db × α)

/-! ## Statements on `facts` and `fact_embeddings` -/

/-- `INSERT INTO facts (key, value, source_client, updated_at) VALUES (?, ?, ?, ?)` -/
def insertFact (key : String) (f : Fact) : Stmt Unit := fun d =>
  if key ∈ d.facts then .error (.integrityError "UNIQUE constraint failed: facts.key")
  else .ok ({ d with facts := d.facts.insert key f }, ())

/-- The same with `ON CONFLICT(key) DO UPDATE` of the other columns. -/
def upsertFact (key : String) (f : Fact) : Stmt Unit := fun d =>
  .ok ({ d with facts := d.facts.insert key f }, ())

/-- `UPDATE facts SET value=?, source_client=?, updated_at=? WHERE key=? AND value=?`, with its row
count. -/
def updateFact (key expected : String) (f : Fact) : Stmt ℕ := fun d =>
  if (d.facts.lookup key).map Fact.value = some expected then
    .ok ({ d with facts := d.facts.insert key f }, 1)
  else .ok (d, 0)

/-- `SELECT ... FROM facts WHERE key = ?` -/
def selectFact (key : String) (d : Db) : Option Fact := d.facts.lookup key

/-- `DELETE FROM facts WHERE key = ?`, with its row count. -/
def deleteFact (key : String) : Stmt ℕ := fun d =>
  .ok ({ d with facts := d.facts.erase key }, if key ∈ d.facts then 1 else 0)

/-- `INSERT INTO fact_embeddings (key, embedding) VALUES (?, ?) ON CONFLICT(key) DO UPDATE` -/
def upsertEmbedding (key : String) (embedding : List UInt8) : Stmt Unit := fun d =>
  .ok ({ d with embeddings := d.embeddings.insert key embedding }, ())

/-- `DELETE FROM fact_embeddings WHERE key = ?` -/
def deleteEmbedding (key : String) : Stmt Unit := fun d =>
  .ok ({ d with embeddings := d.embeddings.erase key }, ())

/-- The tables of facts and embeddings. -/
abbrev Tables : Type := (AList fun _ : String => Fact) × (AList fun _ : String => List UInt8)

def Db.tables (d : Db) : Tables := (d.facts, d.embeddings)

def Db.withTables (d : Db) (x : Tables) : Db := { d with facts := x.1, embeddings := x.2 }

/-- Any statement on these two tables. -/
def changeTables (u : Tables → Except PyExc Tables) : Stmt Unit := fun d =>
  (u d.tables).map fun x => (d.withTables x, ())

/-! ## Statements on `events` -/

/-- The largest integer that SQLite stores, `2 ^ 63 - 1`. -/
def maxInteger : ℤ := 9223372036854775807

/-- A row for `events`, past the checks on its columns: the trigger refuses it without its hashes,
the primary key refuses an id that is taken. -/
def insertRow (r : EventRow) : Stmt Unit := fun d =>
  if d.requireHash ∧ (r.prevHash = .null ∨ r.eventHash = .null) then
    .error (.integrityError "event hashes required")
  else
    match d.events.insert r with
    | some t => .ok ({ d with events := t }, ())
    | none => .error (.integrityError "UNIQUE constraint failed: events.id")

/-- `INSERT INTO events (EVENT_FIELDS, prev_hash, event_hash) VALUES (?, ?, ?, ?, ?, ?, ?, ?)` -/
def insertEvent (r : EventRow) : Stmt Unit := fun d =>
  if ¬d.prevHashColumn then
    .error (.operationalError "table events has no column named prev_hash")
  else if ¬d.eventHashColumn then
    .error (.operationalError "table events has no column named event_hash")
  else if maxInteger < r.event.id then
    .error (.overflowError "Python int too large to convert to SQLite INTEGER")
  else insertRow r d

/-- `INSERT INTO events (timestamp, client_id, action, key, value) VALUES (?, ?, ?, ?, ?)`, as an
older server writes it: AUTOINCREMENT gives the id, until there is none left, and the hashes are
NULL, if the columns exist. -/
def insertLegacyEvent (timestamp clientId action : String) (key value : Option String) :
    Stmt Unit := fun d =>
  if ¬d.requireHash ∧ maxInteger < d.events.autoId then
    .error (.operationalError "database or disk is full")
  else
    insertRow
      ⟨⟨d.events.autoId, .text timestamp, .text clientId, .text action, .ofOption key,
        .ofOption value⟩, .null, .null⟩ d

/-- `ALTER TABLE events ADD COLUMN prev_hash TEXT` -/
def addPrevHashColumn : Stmt Unit := fun d =>
  if d.prevHashColumn then .error (.operationalError "duplicate column name: prev_hash")
  else .ok ({ d with
    events := d.events.rehash fun r => (.null, r.eventHash)
    prevHashColumn := true }, ())

/-- `ALTER TABLE events ADD COLUMN event_hash TEXT` -/
def addEventHashColumn : Stmt Unit := fun d =>
  if d.eventHashColumn then .error (.operationalError "duplicate column name: event_hash")
  else .ok ({ d with
    events := d.events.rehash fun r => (r.prevHash, .null)
    eventHashColumn := true }, ())

/-- `UPDATE events SET prev_hash=?, event_hash=? WHERE id=?` -/
def updateHashes (id : ℤ) (prevHash eventHash : Cell) : Stmt Unit := fun d =>
  if ¬d.prevHashColumn then .error (.operationalError "no such column: prev_hash")
  else if ¬d.eventHashColumn then .error (.operationalError "no such column: event_hash")
  else .ok ({ d with
    events := d.events.rehash fun r =>
      if r.event.id = id then (prevHash, eventHash) else (r.prevHash, r.eventHash) }, ())

/-- `CREATE TRIGGER events_require_hash BEFORE INSERT ON events` -/
def createTrigger : Stmt Unit := fun d =>
  if d.requireHash then .error (.operationalError "trigger events_require_hash already exists")
  else .ok ({ d with requireHash := true }, ())

/-- `SELECT ... FROM events ORDER BY id DESC LIMIT 1` -/
def selectTail (d : Db) : Option EventRow := d.events.rows.getLast?

/-- `SELECT seq FROM sqlite_sequence WHERE name='events'` -/
def selectSequence (d : Db) : Option ℤ := d.events.seq

/-- `SELECT EVENT_FIELDS FROM events ORDER BY id` -/
def selectEvents (d : Db) : List Event := d.events.rows.map EventRow.event

/-- `{"prev_hash", "event_hash"} <= {...}` over the columns of `events`. -/
def hasChain (d : Db) : Bool := d.prevHashColumn && d.eventHashColumn

end MemoryBridge
