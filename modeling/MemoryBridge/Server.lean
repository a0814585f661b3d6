import MemoryBridge.Audit
import Mathlib.Data.List.Sort

/-!
# The memory server (`server/memory_server.py`)

The configuration of a server process, its helpers, and its tools, each a program over the store.
The server lock serializes the tool calls of one process: a process runs one call at a time. The
trace file of `MCP_DEBUG_LOG` is not set.
-/

open SingleWriter

namespace MemoryBridge

open PyText

/-! ## Configuration and requests -/

/-- The settings of a server process. -/
structure Config where
  busyTimeoutMs : ℤ
  defaultClientId : String
  embeddingsEnabled : Bool
  maxKeyLen : ℤ
  maxValueLen : ℤ
  logReads : Bool
  transport : String
  authClientsFile : String
  enableDemoTools : Bool

/-- The settings when no environment variable is set. -/
def Config.default : Config :=
  { busyTimeoutMs := 5000, defaultClientId := "anonymous", embeddingsEnabled := true
    maxKeyLen := 256, maxValueLen := 16384, logReads := true, transport := "stdio"
    authClientsFile := "", enableDemoTools := false }

/-- The `user` of a request scope. -/
inductive User
  | authenticatedUser (token clientId : String)
  | other
  deriving DecidableEq

abbrev Bytes : Type := List UInt8

/-- An ASGI scope: its type, its headers, its `user`, and its other entries. -/
structure Scope where
  type : String
  headers : List (Bytes × Bytes)
  user : Option User
  entries : List (String × String)
  deriving DecidableEq

/-- What the SDK passes to a tool as its `Context`: the scope of the request, if there is one. -/
structure Context where
  request : Option Scope
  deriving DecidableEq

/-! ## Helpers -/

variable {S : Type} (rt : Runtime S) (cfg : Config)

/-- `_validate` -/
def validate (key : String) (value : Option String) : Except PyExc Unit :=
  if key = "" ∨ cfg.maxKeyLen < key.length then
    .error (.toolError ("key must be 1.." ++ toString cfg.maxKeyLen ++ " characters (got " ++
      toString key.length ++ ")"))
  else
    match value with
    | some v =>
      if cfg.maxValueLen < v.length then
        .error (.toolError ("value exceeds " ++ toString cfg.maxValueLen ++ " characters (got " ++
          toString v.length ++ "); this store is for facts, not documents"))
      else .ok ()
    | none => .ok ()

/-- `_initialize_db`: the pragmas, the `CREATE TABLE IF NOT EXISTS` script, the migration. -/
def initializeDb : Py Unit := do
  Py.foreign
  Py.foreign
  Py.foreign
  Audit.migrate rt

/-- `_db()`: open the connection on its first use; a connection that cannot be initialized is
closed. -/
def db : Py Unit := do
  let opened ← Prog.getMem
  if opened then pure () else do
    Py.foreign
    Prog.tryCatch (initializeDb rt) Prog.rollbackRaise
    Prog.putMem true

/-- `_client_id` -/
def clientId (ctx : Context) (claimed : Option String) : Except PyExc String :=
  if cfg.transport = "http" ∧ cfg.authClientsFile ≠ "" then
    match ctx.request.bind Scope.user with
    | some (.authenticatedUser _ clientId) => .ok clientId
    | _ => .error (.toolError "authenticated client identity unavailable")
  else
    match claimed with
    | some c => .ok (if c = "" then cfg.defaultClientId else c)
    | none => .ok cfg.defaultClientId

/-- `_log` -/
def log (clientId action : String) (key value : Option String) : Py Unit := do
  db rt
  let t ← Prog.now
  Audit.append rt t.text clientId action key value

/-- `with _db(): _log(_client_id(ctx), ...)` -/
def logUnder (ctx : Context) (action : String) (key value : Option String) : Py Unit := do
  db rt
  Py.withDb do
    let cid ← Prog.ofExcept (clientId cfg ctx none)
    log rt cid action key value

/-- The translation of lock errors in `_tool_guard`. -/
def guardError : PyExc → PyExc
  | .operationalError msg =>
    if contains "locked" msg ∨ contains "busy" msg then
      .toolError ("database is locked (busy_timeout=" ++ toString cfg.busyTimeoutMs ++ "ms): " ++
        msg ++ ". Another client holds the write lock; retry with backoff.")
    else .operationalError msg
  | e => e

/-- `_tool_guard` -/
def toolGuard (tool : Py String) : Py String :=
  Prog.tryCatch tool fun e => Py.raise (guardError cfg e)

/-! ## `memory_set` -/

/-- The text that is embedded for a fact. -/
def factText (key value : String) : String := key ++ ": " ++ value

/-- The answer of a create-only write that found the key. -/
def existsFailure (current : Option Fact) : String :=
  "key already exists (current value: " ++ (match current with
    | some f => f.value
    | none => "<unknown>") ++ ")"

/-- The answer of a compare-and-swap that did not match. -/
def expectedFailure (expected : String) (current : Option Fact) : String :=
  "expected " ++ repr rt.unicode expected ++ ", actual is " ++
    reprOption rt.unicode (current.map Fact.value)

/-- The conditional write of `_guarded_set`, in its three modes: `none` when the fact was written,
otherwise the reason why it was not. -/
def writeFact (key value cid : String) (expectedValue : Option String) (requireAbsent : Bool) :
    Py (Option String) :=
  if requireAbsent then do
    let t ← Prog.now
    Prog.tryCatch
      (do
        Py.execute (insertFact key ⟨value, cid, t.text⟩)
        pure none)
      fun
        | .integrityError _ => do
          let current ← Py.select (selectFact key)
          pure (some (existsFailure current))
        | e => Py.raise e
  else
    match expectedValue with
    | some expected => do
      let t ← Prog.now
      let rowcount ← Py.execute (updateFact key expected ⟨value, cid, t.text⟩)
      if rowcount = 0 then do
        let current ← Py.select (selectFact key)
        pure (some (expectedFailure rt expected current))
      else pure none
    | none => do
      let t ← Prog.now
      Py.execute (upsertFact key ⟨value, cid, t.text⟩)
      pure none

/-- `if embedding is not None`: the row of the fact in `fact_embeddings`. -/
def storeEmbedding (key : String) : Option (List UInt8) → Py Unit
  | some embedding => Py.execute (upsertEmbedding key embedding)
  | none => pure ()

/-- What `_guarded_set` records after the conditional write. -/
def recordWrite (key value cid : String) (embedding : Option (List UInt8)) :
    Option String → Py Unit
  | none => do
    storeEmbedding key embedding
    log rt cid "set" (some key) (some value)
  | some casFailure => log rt cid "cas_fail" (some key) (some casFailure)

/-- The transaction of `_guarded_set`. -/
def setTransaction (key value cid : String) (expectedValue : Option String) (requireAbsent : Bool)
    (embedding : Option (List UInt8)) : Py (Option String) :=
  Py.withDb do
    let casFailure ← writeFact rt key value cid expectedValue requireAbsent
    recordWrite rt key value cid embedding casFailure
    pure casFailure

/-- The embedding that `_guarded_set` stores, if the process embeds. -/
def embeddingOf (key value : String) : Option (List UInt8) :=
  if cfg.embeddingsEnabled then some (rt.embed (factText key value)) else none

/-- The answer of `_guarded_set` after its transaction. -/
def setAnswer (key cid : String) (casFailure : Option String) : Except PyExc String :=
  match casFailure with
  | some failure =>
    .error (.toolError ("CAS failed for " ++ repr rt.unicode key ++ ": " ++ failure))
  | none => .ok ("set " ++ repr rt.unicode key ++ " (from " ++ cid ++ ")")

/-- `_guarded_set`, below its guard. -/
def guardedSet (key value cid : String) (expectedValue : Option String) (requireAbsent : Bool) :
    Py String :=
  if requireAbsent ∧ expectedValue ≠ none then
    Py.raise (.toolError "require_absent and expected_value are mutually exclusive")
  else do
    Prog.ofExcept (validate cfg key (some value))
    db rt
    -- the model runs before the write transaction
    Py.runIf cfg.embeddingsEnabled Py.foreign
    let casFailure ← setTransaction rt key value cid expectedValue requireAbsent
      (embeddingOf rt cfg key value)
    Prog.ofExcept (setAnswer rt key cid casFailure)

/-- Store a fact. -/
def memorySet (key value : String) (ctx : Context) (claimed expectedValue : Option String)
    (requireAbsent : Bool) : Py String := do
  let cid ← Prog.ofExcept (clientId cfg ctx claimed)
  toolGuard cfg (guardedSet rt cfg key value cid expectedValue requireAbsent)

/-! ## `memory_get` -/

/-- `str` of a column of `events`. -/
def cellText : Cell → String
  | .null => "None"
  | .text s => s
  | .blob b => reprBytes b

/-- The events of `key` with one of the actions, in id order. -/
def eventsOf (key : String) (actions : List String) (d : Db) : List Event :=
  (selectEvents d).filter fun e => e.key = .text key ∧ ∃ a ∈ actions, e.action = .text a

/-- The actions that change a fact, or tried to. -/
def writeActions : List String := ["set", "delete", "cas_fail"]

/-- A line of `memory_get` below `events:`. -/
def getLine (e : Event) : String :=
  "  " ++ cellText e.timestamp ++ " " ++ cellText e.clientId ++ " " ++ cellText e.action ++ ": " ++
    cellText e.value

/-- The first line of `memory_get`. -/
def factLine (key : String) (f : Fact) : String :=
  key ++ " = " ++ f.value ++ "  (source: " ++ f.sourceClient ++ ", updated: " ++ f.updatedAt ++ ")"

/-- What `memory_get` answers for the row it read. -/
def showFact (key : String) (includeEvents : Bool) : Option Fact → Py String
  | none => Py.raise (.toolError ("no fact for key " ++ repr rt.unicode key))
  | some f =>
    if includeEvents then do
      db rt
      let rows ← Py.select (eventsOf key writeActions)
      pure (factLine key f ++ "\nevents:\n" ++ join "\n" (rows.map getLine))
    else pure (factLine key f)

/-- Fetch a fact by exact key. -/
def memoryGet (key : String) (ctx : Context) (includeEvents : Bool) : Py String := do
  Prog.ofExcept (validate cfg key none)
  db rt
  let row ← Py.select (selectFact key)
  Py.runIf cfg.logReads (logUnder rt cfg ctx "get" (some key) none)
  showFact rt key includeEvents row

/-! ## `memory_list` -/

/-- SQLite reads the operands of LIKE as C strings. -/
def cString (s : String) : List Char := s.toList.takeWhile (· ≠ '\x00')

/-- SQLite's decoder of UTF-8 gives U+FFFD for these two. -/
def utf8Read (c : Char) : Char := if c = '\uFFFE' ∨ c = '\uFFFF' then '\uFFFD' else c

/-- The characters that LIKE takes for the same: those that are read as the same, and letters of
ASCII in either case. -/
def sameLetter (a b : Char) : Bool :=
  utf8Read a == utf8Read b || (a.toNat < 128 && b.toNat < 128 && a.toLower == b.toLower)

/-- LIKE with ESCAPE '\': a pattern against a string. -/
def likeMatch : List Char → List Char → Bool
  | [], s => s.isEmpty
  | '%' :: p, s => s.tails.any (likeMatch p)
  | '\\' :: c :: p, x :: s => sameLetter c x && likeMatch p s
  | ['\\'], _ => false
  | '_' :: p, _ :: s => likeMatch p s
  | c :: p, x :: s => sameLetter c x && likeMatch p s
  | _ :: _, [] => false

/-- The pattern that `memory_list` builds. -/
def listPattern (start : String) : String :=
  replaceChar '_' "\\_" (replaceChar '%' "\\%" (replaceChar '\\' "\\\\" start)) ++ "%"

/-- `SELECT ... FROM facts WHERE key LIKE ? ESCAPE '\' ORDER BY key`; SQLite refuses patterns
longer than 50000 bytes when it evaluates them. -/
def selectLike (pattern : String) (d : Db) : Except PyExc (List (String × Fact)) :=
  let rows := d.facts.entries.map fun r => (r.1, r.2)
  if rows ≠ [] ∧ 50000 < pattern.utf8ByteSize then
    .error (.operationalError "LIKE or GLOB pattern too complex")
  else
    .ok ((rows.filter fun r => likeMatch (cString pattern) (cString r.1)).insertionSort
      fun a b => a.1 ≤ b.1)

/-- List facts whose key starts with a prefix. -/
def memoryList (start : String) : Py String := do
  db rt
  let rows ← Py.select (selectLike (listPattern start))
  let rows ← Prog.ofExcept rows
  if rows = [] then pure ("(no facts matching prefix " ++ repr rt.unicode start ++ ")")
  else pure (join "\n" (rows.map fun r =>
    r.1 ++ " = " ++ r.2.value ++ "  (source: " ++ r.2.sourceClient ++ ")"))

/-! ## `memory_search` -/

/-- `SELECT ... FROM facts f JOIN fact_embeddings e ON e.key = f.key` -/
def selectJoin (d : Db) : List SearchRow :=
  rt.scan (d.facts.entries.filterMap fun r =>
    (d.embeddings.lookup r.1).map fun e => ⟨r.1, r.2, e⟩)

/-- The rows with their scores, best first; rows of one score stay in their order. -/
def ranked [LinearOrder S] (query : String) (rows : List SearchRow) : List (S × SearchRow) :=
  (rows.map fun r => (rt.dot (rt.embed query) r.embedding, r)).insertionSort fun a b => b.1 ≤ a.1

/-- What a search logs as its value. -/
def searchText (query : String) (score : S) : String :=
  "query=" ++ repr rt.unicode query ++ " score=" ++ rt.fmt3 score

/-- A line of `memory_search`. -/
def searchLine (r : S × SearchRow) : String :=
  r.2.key ++ " = " ++ r.2.fact.value ++ "  (cosine " ++ rt.fmt3 r.1 ++ ", source: " ++
    r.2.fact.sourceClient ++ ")"

/-- Log the best of the rows that `memory_search` found, and show them. -/
def showHits (query : String) (ctx : Context) : List (S × SearchRow) → Py String
  | [] => Py.raise (.other "IndexError" "list index out of range")
  | best :: others => do
    logUnder rt cfg ctx "search" (some best.2.key) (some (searchText rt query best.1))
    pure (join "\n" ((best :: others).map (searchLine rt)))

/-- Find facts by meaning. -/
def memorySearch [LinearOrder S] (query : String) (ctx : Context) (topK : ℤ) : Py String :=
  if ¬cfg.embeddingsEnabled then
    Py.raise (.toolError ("semantic search is disabled on this server (MCP_EMBEDDINGS=off); " ++
      "use memory_list with a key prefix instead"))
  else do
    db rt
    let rows ← Py.select (selectJoin rt)
    if rows.isEmpty then pure "(no searchable facts stored yet)" else do
      Py.foreign
      showHits rt cfg query ctx ((ranked rt query rows).take (max 1 topK).toNat)

/-! ## `memory_history` -/

/-- `f"{cell:>k}"`: only text has the format. -/
def cellRjust (k : ℕ) : Cell → Except PyExc String
  | .text s => .ok (rjust k s)
  | .null => .error (.typeError "unsupported format string passed to NoneType.__format__")
  | .blob _ => .error (.typeError "unsupported format string passed to bytes.__format__")

/-- A line of `memory_history`. -/
def historyLine (e : Event) : Except PyExc String := do
  let clientId ← cellRjust 14 e.clientId
  let action ← cellRjust 6 e.action
  pure (cellText e.timestamp ++ " " ++ clientId ++ " " ++ action ++ ": " ++ cellText e.value)

/-- The actions that `memory_history` shows. -/
def historyActions (includeReads : Bool) : List String :=
  if includeReads then ["set", "get", "delete", "search", "cas_fail"] else writeActions

/-- What `memory_history` answers for its rows. -/
def historyText (key : String) (rows : List Event) : Except PyExc String :=
  if rows = [] then .ok ("(no recorded history for key " ++ repr rt.unicode key ++ ")")
  else (rows.mapM historyLine).map (join "\n")

/-- Full audit trail for one key. -/
def memoryHistory (key : String) (includeReads : Bool) : Py String := do
  db rt
  let rows ← Py.select (eventsOf key (historyActions includeReads))
  Prog.ofExcept (historyText rt key rows)

/-! ## `memory_delete` and `lock_hold` -/

/-- The answer of `memory_delete`. -/
def deleteAnswer (key cid : String) (rowcount : ℕ) : String :=
  if rowcount = 0 then
    "nothing to delete for " ++ repr rt.unicode key ++ " (logged from " ++ cid ++ ")"
  else "deleted " ++ repr rt.unicode key ++ " (from " ++ cid ++ ")"

/-- The transaction of `memory_delete`, with the row count of the first statement. -/
def deleteTransaction (key cid : String) : Py ℕ :=
  Py.withDb do
    let rowcount ← Py.execute (deleteFact key)
    Py.execute (deleteEmbedding key)
    log rt cid "delete" (some key) none
    pure rowcount

/-- Delete a fact by key. -/
def memoryDelete (key : String) (ctx : Context) (claimed : Option String) : Py String := do
  let cid ← Prog.ofExcept (clientId cfg ctx claimed)
  Prog.ofExcept (validate cfg key none)
  db rt
  let rowcount ← deleteTransaction rt key cid
  pure (deleteAnswer rt key cid rowcount)

/-- The transaction of `lock_hold`: `time.sleep` refuses some values. -/
def holdTransaction (cid : String) : Py Unit :=
  Py.withDb do
    log rt cid "demo-lock-hold" none none
    Py.foreign

/-- `[demo]` Hold the write lock for `seconds`, then commit. -/
def lockHold (ctx : Context) (seconds : String) : Py String := do
  let cid ← Prog.ofExcept (clientId cfg ctx none)
  db rt
  holdTransaction rt cid
  pure ("held the write lock for " ++ seconds ++ "s (client " ++ repr rt.unicode cid ++ ")")

/-! ## Tool calls -/

/-- A tool call with its arguments. -/
inductive Call
  | memorySet (key value : String) (clientId expectedValue : Option String) (requireAbsent : Bool)
  | memoryGet (key : String) (includeEvents : Bool)
  | memoryList (start : String)
  | memorySearch (query : String) (topK : ℤ)
  | memoryHistory (key : String) (includeReads : Bool)
  | memoryDelete (key : String) (clientId : Option String)
  | lockHold (seconds : String)
  deriving DecidableEq

/-- The program of a tool call. `lock_hold` is registered with `MCP_ENABLE_DEMO_TOOLS` only. -/
def tool [LinearOrder S] (ctx : Context) : Call → Py String
  | .memorySet key value claimed expectedValue requireAbsent =>
    memorySet rt cfg key value ctx claimed expectedValue requireAbsent
  | .memoryGet key includeEvents => toolGuard cfg (memoryGet rt cfg key ctx includeEvents)
  | .memoryList start => toolGuard cfg (memoryList rt start)
  | .memorySearch query topK => toolGuard cfg (memorySearch rt cfg query ctx topK)
  | .memoryHistory key includeReads => toolGuard cfg (memoryHistory rt key includeReads)
  | .memoryDelete key claimed => toolGuard cfg (memoryDelete rt cfg key ctx claimed)
  | .lockHold seconds =>
    if cfg.enableDemoTools then toolGuard cfg (lockHold rt cfg ctx seconds)
    else Py.raise (.toolError "Unknown tool: lock_hold")

end MemoryBridge
