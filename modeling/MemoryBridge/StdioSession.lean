import MemoryBridge.HttpSession

/-!
# A session over stdio (`RawMCPClient`)

Over stdio the client and the server take turns on two pipes that also carry traffic of the server's
own. The session here records what the client writes and reads, in the order in which its methods do
it, and `Dialogue` says which records the protocol allows: one request waits at a time, and what the
client writes besides is what it owes for the message that it has just read.
-/

namespace MemoryBridge.RawClient

/-- A write to the server's stdin, or a read of what it has written. -/
inductive StdioEvent
  | wrote (message : Dict)
  /-- The write fails. -/
  | lost (message : Dict)
  | read (msg : Dict)
  /-- `_recv` raises. -/
  | failed

inductive Signal
  | terminate
  | kill

/-- A client, its server process, and what went over the pipes. -/
structure StdioSession where
  client : Client
  protocolVersion : String
  /-- `self.proc.stdin.closed` -/
  closed : Bool
  /-- The versions that `initialize` warned of. -/
  warnings : List Value
  /-- Whether the process is seen to have ended. -/
  ended : Bool
  /-- Whether the next `proc.wait`s see it end in time. Past the end they do. -/
  waits : List Bool
  signals : List Signal
  /-- What was written and read, the last first. -/
  history : List StdioEvent

namespace StdioSession

/-! ## The client -/

/-- `RawMCPClient.__init__` -/
def started (client : Client) (protocolVersion : String) (waits : List Bool) : StdioSession where
  client := client
  protocolVersion := protocolVersion
  closed := false
  warnings := []
  ended := false
  waits := waits
  signals := []
  history := []

/-- `_send`: a closed file refuses a write with a `ValueError`, which is not caught. -/
def send (x : StdioSession) (message : Dict) : Except Exc Unit × StdioSession :=
  if x.closed then (.error .valueError, { x with history := .lost message :: x.history })
  else
    match x.client.send message with
    | (.ok (), c) => (.ok (), { x with client := c, history := .wrote message :: x.history })
    | (.error e, c) => (.error e, { x with client := c, history := .lost message :: x.history })

/-- The session that has this left in the queue. -/
def took (x : StdioSession) (rest : List Reception) (e : StdioEvent) : StdioSession :=
  { x with client := { x.client with stdout := rest }, history := e :: x.history }

/-- `_recv`, of this queue -/
def recv (x : StdioSession) (timeout : ℚ) (queue : List Reception) :
    Except Exc Dict × StdioSession :=
  match RawClient.recv timeout queue with
  | (.ok msg, rest) => (.ok msg, x.took rest (.read msg))
  | (.error e, rest) => (.error e, x.took rest .failed)

/-- The loop of `_request`, over what the queue gives. -/
def await (requestId : ℕ) (timeout : ℚ) :
    List Reception → StdioSession → Except Exc Value × StdioSession
  | [], x =>
    let (r, x) := x.recv timeout []
    (r.map .dict, x)
  | item :: rest, x =>
    match x.recv timeout (item :: rest) with
    | (.error e, x) => (.error e, x)
    | (.ok msg, x) =>
      if ¬msg.has "id" then
        await requestId timeout rest
          { x with client := { x.client with notifications := x.client.notifications ++ [msg] } }
      else if ¬(msg.get "id" .none).IsInt requestId then
        if msg.has "method" then
          match x.send (methodNotFound msg) with
          | (.error e, x) => (.error e, x)
          | (.ok (), x) => await requestId timeout rest x
        else await requestId timeout rest x
      else if msg.has "error" then (.error (mcpError msg), x)
      else (.ok (msg.get "result" (.dict [])), x)

/-- `_request` -/
def request (x : StdioSession) (q : Request) : Except Exc Value × StdioSession :=
  let requestId := x.client.nextId
  match { x with client := { x.client with nextId := requestId + 1 } }.send
      (q.message requestId) with
  | (.error e, x) => (.error e, x)
  | (.ok (), x) =>
    await requestId (q.timeout.getD x.client.defaultTimeout) x.client.stdout x

/-- Recording changes nothing: while its stdin is open, a session waits like its client. -/
theorem await_client {n : ℕ} {timeout : ℚ} {queue : List Reception} {x : StdioSession} {c : Client}
    (hx : x.closed = false) (hc : x.client = { c with stdout := queue }) :
    RawClient.await n timeout queue c =
      ((await n timeout queue x).1, (await n timeout queue x).2.client) := by
  by_cases ht : timeout < 0
  · rw [RawClient.await_of_neg ht]
    cases queue <;> simp [await, recv, took, recv_of_neg ht, hc, Except.map]
  induction queue generalizing x c with
  | nil =>
    rw [RawClient.await_nil ht, await, recv, RawClient.recv, if_neg ht]
    simp [took, recvItem, hc, Except.map]
  | cons item rest ih =>
    rw [await_cons ht, await, recv, recv_cons ht]
    cases recvItem timeout item with
    | error e => simp [took, hc]
    | ok msg =>
      simp only [Client.turn, took, hc]
      by_cases hid : ¬msg.has "id"
      · rw [if_pos hid, if_pos hid]
        exact ih hx rfl
      · rw [if_neg hid, if_neg hid]
        by_cases hn : ¬(msg.get "id" .none).IsInt n
        · rw [if_pos hn, if_pos hn]
          by_cases hm : msg.has "method"
          · rw [if_pos hm, if_pos hm, send, if_neg (by simp [hx]), Client.send, Client.send]
            by_cases hs : c.stdin.headD true
            · rw [if_pos hs, if_pos hs]
              exact ih hx rfl
            · rw [if_neg hs, if_neg hs]
          · rw [if_neg hm, if_neg hm]
            exact ih hx rfl
        · rw [if_neg hn, if_neg hn]
          split_ifs <;> rfl

/-- While its stdin is open, a request of a session is one of its client. -/
theorem request_client {x : StdioSession} (hx : x.closed = false) (q : Request) :
    x.client.request q = ((x.request q).1, (x.request q).2.client) := by
  rw [Client.request, request, send, if_neg (by simp [hx]), Client.send]
  by_cases hs : x.client.stdin.headD true
  · rw [if_pos hs]
    exact await_client hx rfl
  · rw [if_neg hs]

/-- The request of `initialize`. -/
def initializeRequest (protocolVersion : String) : Request :=
  ⟨"initialize", some [("protocolVersion", .str protocolVersion), ("capabilities", .dict []),
    ("clientInfo", .dict [("name", .str "raw-scratch-client"), ("version", .str "0.1.0")])],
    some 15⟩

/-- The notification of `initialize`. -/
def initialized : Dict :=
  [("jsonrpc", .str "2.0"), ("method", .str "notifications/initialized"), ("params", .dict [])]

/-- `k in v`, of a dictionary. -/
def hasKey (k : String) : Value → Bool
  | .dict d => Dict.has d k
  | _ => false

/-- The warning of `initialize`, for another version than the one it offered. -/
def warn (x : StdioSession) (version : Value) : StdioSession :=
  match version with
  | .str s => if s = x.protocolVersion then x else { x with warnings := x.warnings ++ [version] }
  | _ => { x with warnings := x.warnings ++ [version] }

/-- `initialize` -/
def initializeSession (x : StdioSession) : Except Exc Value × StdioSession :=
  match x.request (initializeRequest x.protocolVersion) with
  | (.error e, x) => (.error e, x)
  | (.ok result, x) =>
    match result.get "protocolVersion" .none with
    | .error e => (.error e, x)
    | .ok version =>
      let x := x.warn version
      if ¬hasKey "serverInfo" result then
        (.error (.mcpError (.number (-32602)) (.str "initialize result missing serverInfo") result),
          x)
      else
        match x.send initialized with
        | (.error e, x) => (.error e, x)
        | (.ok (), x) => (.ok result, x)

@[simp] theorem send_stdout (x : StdioSession) (message : Dict) :
    (x.send message).2.client.stdout = x.client.stdout := by
  unfold send Client.send
  split
  · rfl
  · split_ifs <;> rfl

/-- A message that is received is the first in the queue. -/
theorem recv_stdout {x y : StdioSession} {timeout : ℚ} {item : Reception} {rest : List Reception}
    {msg : Dict} (h : x.recv timeout (item :: rest) = (.ok msg, y)) : y.client.stdout = rest := by
  by_cases ht : timeout < 0
  · rw [recv, recv_of_neg ht] at h
    cases h
  · rw [recv, recv_cons ht] at h
    revert h
    cases recvItem timeout item with
    | error e => exact fun h => by cases h
    | ok msg' =>
      intro h
      obtain rfl := (Prod.mk.inj h).2
      rfl

theorem recv_nil (x : StdioSession) (timeout : ℚ) :
    ∃ e, x.recv timeout [] = (.error e, x.took [] .failed) := by
  by_cases ht : timeout < 0
  · exact ⟨.valueError, by rw [recv, recv_of_neg ht]⟩
  · exact ⟨.connectionError (.noMessage timeout),
      by simp [recv, RawClient.recv, if_neg ht, recvItem]⟩

/-- A result takes at least one message from the queue. -/
theorem await_shortens {n : ℕ} {timeout : ℚ} {queue : List Reception} {x x' : StdioSession}
    {v : Value} (h : await n timeout queue x = (.ok v, x')) :
    x'.client.stdout.length < queue.length := by
  induction queue generalizing x with
  | nil =>
    obtain ⟨e, hr⟩ := x.recv_nil timeout
    rw [await, hr] at h
    cases h
  | cons item rest ih =>
    rw [await] at h
    rcases hr : x.recv timeout (item :: rest) with ⟨e | msg, y⟩
    · rw [hr] at h
      cases h
    · have hy : y.client.stdout = rest := recv_stdout hr
      rw [hr] at h
      simp only at h
      by_cases hid : ¬msg.has "id"
      · rw [if_pos hid] at h
        exact Nat.lt_succ_of_lt (ih h)
      · rw [if_neg hid] at h
        by_cases hn : ¬(msg.get "id" .none).IsInt n
        · rw [if_pos hn] at h
          by_cases hm : msg.has "method"
          · rw [if_pos hm] at h
            rcases hs : y.send (methodNotFound msg) with ⟨e | _, z⟩
            · rw [hs] at h
              cases h
            · rw [hs] at h
              exact Nat.lt_succ_of_lt (ih h)
          · rw [if_neg hm] at h
            exact Nat.lt_succ_of_lt (ih h)
        · rw [if_neg hn] at h
          by_cases he : msg.has "error"
          · rw [if_pos he] at h
            cases h
          · rw [if_neg he] at h
            obtain ⟨-, rfl⟩ := Prod.mk.inj h
            rw [hy]
            exact Nat.lt_succ_self _

theorem request_shortens {x x' : StdioSession} {q : Request} {v : Value}
    (h : x.request q = (.ok v, x')) : x'.client.stdout.length < x.client.stdout.length := by
  rw [request] at h
  rcases hs : send _ (q.message x.client.nextId) with ⟨e | _, y⟩
  · rw [hs] at h
    cases h
  · have hy : y.client.stdout = x.client.stdout := by
      rw [← send_stdout { x with client := { x.client with nextId := x.client.nextId + 1 } }, hs]
    rw [hs] at h
    exact hy ▸ await_shortens h

/-- What `list_tools` takes from a page: the tools so far, and the next cursor. -/
def page (tools : List Value) (result : Value) : Except Exc (List Value × Value) := do
  let more ← result.get "tools" (.list [])
  let tools ← extend tools more
  let cursor ← result.get "nextCursor" .none
  pure (tools, cursor)

/-- The loop of `list_tools`, which ends because a page is read from what the server writes. -/
def listLoop (x : StdioSession) (tools : List Value) (cursor : Value) :
    Except Exc (List Value) × StdioSession :=
  match _h : x.request ⟨"tools/list", some (cursorParams cursor), none⟩ with
  | (.error e, x') => (.error e, x')
  | (.ok result, x') =>
    match page tools result with
    | .error e => (.error e, x')
    | .ok (tools, cursor) =>
      if ¬cursor.truthy then (.ok tools, x') else x'.listLoop tools cursor
termination_by x.client.stdout.length
decreasing_by exact request_shortens _h

/-- `list_tools` -/
def listTools (x : StdioSession) : Except Exc (List Value) × StdioSession :=
  x.listLoop [] .none

/-- `call_tool` -/
def callTool (x : StdioSession) (name : String) (arguments : Dict) :
    Except Exc Value × StdioSession :=
  x.request ⟨"tools/call", some [("name", .str name), ("arguments", .dict arguments)], none⟩

/-- `self.proc.wait`, with a timeout -/
def wait (x : StdioSession) : Bool × StdioSession :=
  if x.ended then (true, x)
  else (x.waits.headD true, { x with ended := x.waits.headD true, waits := x.waits.tail })

/-- `close`, which raises where the process outlives even the last signal: false. -/
def close (x : StdioSession) : Bool × StdioSession :=
  match { x with closed := true }.wait with
  | (true, x) => (true, x)
  | (false, x) =>
    match { x with signals := x.signals ++ [Signal.terminate] }.wait with
    | (true, x) => (true, x)
    | (false, x) => { x with signals := x.signals ++ [Signal.kill] }.wait

/-- The methods of the client. -/
inductive Operation
  | initializeSession
  | listTools
  | callTool (name : String) (arguments : Dict)
  | close

/-- A method is called. -/
def perform (x : StdioSession) : Operation → StdioSession
  | .initializeSession => x.initializeSession.2
  | .listTools => x.listTools.2
  | .callTool name arguments => (x.callTool name arguments).2
  | .close => x.close.2

/-- The session after calls whose exceptions are caught. -/
def after (x : StdioSession) (operations : List Operation) : StdioSession :=
  operations.foldl perform x

end StdioSession

/-! ## The protocol -/

/-- The message that is written. -/
def StdioEvent.written : StdioEvent → Option Dict
  | wrote message | lost message => some message
  | read _ | failed => none

/-- A request of the client. -/
def IsCall (message : Dict) : Prop := message.has "method" ∧ message.has "id"

instance : DecidablePred IsCall := fun _ => inferInstanceAs (Decidable (_ ∧ _))

instance (e : StdioEvent) : Decidable (∃ m, e.written = some m ∧ IsCall m) :=
  match h : e.written with
  | some m => decidable_of_iff (IsCall m) (by simp)
  | none => .isFalse (by simp)

/-- The number of requests. -/
def requests (history : List StdioEvent) : ℕ :=
  history.countP fun e => ∃ m, e.written = some m ∧ IsCall m

/-- The request that waits. -/
def pending : List StdioEvent → Option Dict
  | [] => none
  | .wrote message :: earlier => if IsCall message then some message else pending earlier
  | .lost _ :: _ | .failed :: _ => none
  | .read msg :: earlier => if HasId (requests earlier) msg then none else pending earlier

/-- The server accepts the handshake. -/
def Accepts (msg : Dict) : Prop :=
  ¬msg.has "error" ∧ StdioSession.hasKey "serverInfo" (msg.get "result" (.dict []))

instance : DecidablePred Accepts := fun _ => inferInstanceAs (Decidable (_ ∧ _))

/-- What the client owes for a message, read while a request waits. -/
def reply (call : Dict) (n : ℕ) (msg : Dict) : Option Dict :=
  if HasId n msg then
    if methodOf call = some "initialize" ∧ Accepts msg then some StdioSession.initialized else none
  else if IsServerRequest msg then some (methodNotFound msg) else none

/-- What the client owes for the message that it has just read. -/
def owed : List StdioEvent → Option Dict
  | .read msg :: earlier => (pending earlier).bind fun call => reply call (requests earlier) msg
  | _ => none

/-- The protocol allows this event after the earlier ones. -/
structure StdioEvent.Follows (earlier : List StdioEvent) (e : StdioEvent) : Prop where
  /-- One request waits at a time. Requests are numbered 1, 2, 3, … -/
  call : ∀ m, e.written = some m → IsCall m →
    pending earlier = none ∧ m.get "id" .none = .number (requests earlier + 1 : ℕ)
  /-- The client reads while a request waits. -/
  read : e.written = none → pending earlier ≠ none
  /-- Besides requests it writes what it owes, at once. -/
  reply : ∀ m, owed earlier = some m ↔ e.written = some m ∧ ¬IsCall m

/-- Every event follows the earlier ones. -/
def Dialogue : List StdioEvent → Prop
  | [] => True
  | e :: earlier => e.Follows earlier ∧ Dialogue earlier

/-- What the client writes besides requests, or tries to. -/
def replies : List StdioEvent → List Dict
  | [] => []
  | e :: earlier => replies earlier ++ (e.written.filter fun m => ¬IsCall m).toList

/-- The messages that went to the server. -/
def wroteMessages : List StdioEvent → List Dict
  | [] => []
  | .wrote message :: earlier => wroteMessages earlier ++ [message]
  | .lost _ :: earlier | .read _ :: earlier | .failed :: earlier => wroteMessages earlier

/-- The messages that came from the server. -/
def readMessages : List StdioEvent → List Dict
  | [] => []
  | .read msg :: earlier => readMessages earlier ++ [msg]
  | .wrote _ :: earlier | .lost _ :: earlier | .failed :: earlier => readMessages earlier

/-- The message in what the queue gives. -/
def Reception.message : Reception → Option Dict
  | .line msg => if msg.has "_framing_error" then none else some msg
  | .silence | .eof => none

end MemoryBridge.RawClient
