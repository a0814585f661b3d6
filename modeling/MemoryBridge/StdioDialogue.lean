import MemoryBridge.StdioSession

/-!
# Every session over stdio follows the protocol

An event follows the earlier ones, a request leaves its session with what is due to its outcome, and
each method with nothing. `stdio_conversation` is about every sequence of calls of the client, each
of which may raise, with whatever objects the server writes and whenever a pipe breaks.
-/

namespace MemoryBridge.RawClient

/-! ## One event -/

section Events

variable {history : List StdioEvent} {m msg : Dict} {e : StdioEvent}

theorem requests_cons (e : StdioEvent) (history : List StdioEvent) :
    requests (e :: history) =
      requests history + if ∃ m, e.written = some m ∧ IsCall m then 1 else 0 := by
  rw [requests, List.countP_cons]
  simp [requests]

theorem requests_call (hw : e.written = some m) (hm : IsCall m) :
    requests (e :: history) = requests history + 1 := by
  rw [requests_cons, if_pos ⟨m, hw, hm⟩]

theorem requests_other (h : ∀ m, e.written = some m → ¬IsCall m) :
    requests (e :: history) = requests history := by
  rw [requests_cons, if_neg fun ⟨m, hw, hm⟩ => h m hw hm]
  rfl

theorem requests_reply (hw : e.written = some m) (hm : ¬IsCall m) :
    requests (e :: history) = requests history := by
  refine requests_other fun m' hw' => ?_
  obtain rfl := Option.some.inj (hw.symm.trans hw')
  exact hm

@[simp] theorem requests_read (msg : Dict) (history : List StdioEvent) :
    requests (.read msg :: history) = requests history :=
  requests_other (by simp [StdioEvent.written])

@[simp] theorem requests_failed (history : List StdioEvent) :
    requests (.failed :: history) = requests history :=
  requests_other (by simp [StdioEvent.written])

theorem isCall_message (q : Request) (n : ℕ) : IsCall (q.message n) := by
  simp [IsCall, Request.message, Dict.has, List.lookup_cons]

theorem not_isCall_methodNotFound (msg : Dict) : ¬IsCall (methodNotFound msg) := by
  simp [IsCall, methodNotFound, Dict.has, List.lookup_cons]

theorem not_isCall_initialized : ¬IsCall StdioSession.initialized := by decide

/-- What is owed is no request. -/
theorem not_isCall_of_owed (h : owed history = some m) : ¬IsCall m := by
  cases history with
  | nil => cases h
  | cons e earlier =>
    cases e with
    | read msg =>
      obtain ⟨call, -, hreply⟩ := Option.bind_eq_some_iff.1 h
      rw [reply] at hreply
      split_ifs at hreply
      · obtain rfl := Option.some.inj hreply
        exact not_isCall_initialized
      · obtain rfl := Option.some.inj hreply
        exact not_isCall_methodNotFound msg
    | wrote _ | lost _ | failed => cases h

/-- A request follows where none waits and nothing is owed. -/
theorem follows_call (hw : e.written = some m) (hm : IsCall m)
    (hid : m.get "id" .none = .number (requests history + 1 : ℕ)) (hp : pending history = none)
    (ho : owed history = none) : e.Follows history := by
  constructor
  · intro m' hw' _
    obtain rfl := Option.some.inj (hw.symm.trans hw')
    exact ⟨hp, hid⟩
  · intro hn
    rw [hw] at hn
    cases hn
  · intro m'
    rw [ho]
    refine iff_of_false (by simp) ?_
    rintro ⟨hw', hm'⟩
    obtain rfl := Option.some.inj (hw.symm.trans hw')
    exact hm' hm

/-- What is owed follows. -/
theorem follows_owed (hw : e.written = some m) (ho : owed history = some m) :
    e.Follows history := by
  have hm : ¬IsCall m := not_isCall_of_owed ho
  constructor
  · intro m' hw' hm'
    obtain rfl := Option.some.inj (hw.symm.trans hw')
    exact absurd hm' hm
  · intro hn
    rw [hw] at hn
    cases hn
  · intro m'
    rw [ho, hw]
    exact ⟨fun h => ⟨h, Option.some.inj h ▸ hm⟩, And.left⟩

/-- A read follows where a request waits and nothing is owed. -/
theorem follows_read (hw : e.written = none) (hp : pending history ≠ none)
    (ho : owed history = none) : e.Follows history := by
  constructor
  · intro m hm
    rw [hw] at hm
    cases hm
  · exact fun _ => hp
  · intro m
    rw [ho, hw]
    simp

end Events

namespace StdioSession

/-! ## What the pipes carry -/

/-- The session that has read a message, and stashed it where it has no id. -/
def heard (x : StdioSession) (rest : List Reception) (msg : Dict) : StdioSession :=
  { x with
    client := { x.client with
      stdout := rest
      notifications := x.client.notifications ++ [msg].filter fun msg => decide ¬msg.has "id" }
    history := .read msg :: x.history }

/-- A message is recvItem, or none is lost. -/
theorem recv_cases (x : StdioSession) (timeout : ℚ) (item : Reception) (rest : List Reception) :
    (∃ msg, item.message = some msg ∧
        x.recv timeout (item :: rest) = (.ok msg, x.took rest (.read msg))) ∨
      ∃ e left, x.recv timeout (item :: rest) = (.error e, x.took left .failed) ∧
        (item :: rest).filterMap Reception.message = left.filterMap Reception.message := by
  by_cases ht : timeout < 0
  · exact .inr ⟨.valueError, item :: rest, by rw [recv, recv_of_neg ht], rfl⟩
  rw [recv, recv_cons ht]
  cases item with
  | silence | eof => exact .inr ⟨_, rest, rfl, List.filterMap_cons_none rfl⟩
  | line msg =>
    by_cases hf : msg.has "_framing_error"
    · refine .inr ⟨.connectionError (.badFraming (msg.get "_framing_error" .none)), rest, ?_,
        List.filterMap_cons_none (if_pos hf)⟩
      simp [recvItem, hf]
    · refine .inl ⟨msg, if_neg hf, ?_⟩
      simp [recvItem, hf]

theorem send_cases (x : StdioSession) (message : Dict) :
    ∃ stdin, x.send message = (.ok (), { x with
          client := { x.client with stdin := stdin, sent := x.client.sent ++ [message] }
          history := .wrote message :: x.history }) ∨
      ∃ e, x.send message = (.error e, { x with
          client := { x.client with stdin := stdin }
          history := .lost message :: x.history }) := by
  unfold send Client.send
  by_cases hc : x.closed
  · exact ⟨x.client.stdin, .inr ⟨.valueError, by rw [if_pos hc]⟩⟩
  · rw [if_neg hc]
    by_cases hs : x.client.stdin.headD true
    · exact ⟨x.client.stdin.tail, .inl (by rw [if_pos hs])⟩
    · exact ⟨x.client.stdin.tail, .inr ⟨.connectionError .stdinClosed, by rw [if_neg hs]⟩⟩

/-- The client's own records agree with what went over the pipes, out of a queue. -/
structure Recorded (queue : List Reception) (x : StdioSession) : Prop where
  dialogue : Dialogue x.history
  sent : x.client.sent = wroteMessages x.history
  /-- What has no id is stashed, and nothing else. -/
  stashed : x.client.notifications =
    (readMessages x.history).filter fun msg => decide ¬msg.has "id"
  /-- No message is lost or read twice. -/
  taken : queue.filterMap Reception.message =
    readMessages x.history ++ x.client.stdout.filterMap Reception.message

/-- Request `n` waits. -/
structure Waiting (queue : List Reception) (n : ℕ) (call : Dict) (x : StdioSession) : Prop
    extends Recorded queue x where
  nextId : x.client.nextId = n + 1
  requests : requests x.history = n
  pending : pending x.history = some call
  settled : owed x.history = none

/-- What the client owes for the outcome of a request. -/
def due (call : Dict) : Except Exc Value → Option Dict
  | .ok v =>
    if methodOf call = some "initialize" ∧ hasKey "serverInfo" v then some initialized else none
  | .error _ => none

/-- A request has come to `r`. -/
structure Concluded (queue : List Reception) (call : Dict) (r : Except Exc Value)
    (x : StdioSession) : Prop extends Recorded queue x where
  nextId : x.client.nextId = RawClient.requests x.history + 1
  pending : pending x.history = none
  due : owed x.history = due call r

/-- Between two calls: no request waits and nothing is owed. -/
structure Idle (queue : List Reception) (x : StdioSession) : Prop extends Recorded queue x where
  nextId : x.client.nextId = RawClient.requests x.history + 1
  pending : pending x.history = none
  settled : owed x.history = none

section Steps

variable {queue rest : List Reception} {n : ℕ} {call m msg : Dict} {x : StdioSession}

theorem Recorded.wrote (h : Recorded queue x) (hf : StdioEvent.Follows x.history (.wrote m))
    (stdin : List Bool) : Recorded queue { x with
      client := { x.client with stdin := stdin, sent := x.client.sent ++ [m] }
      history := .wrote m :: x.history } where
  dialogue := ⟨hf, h.dialogue⟩
  sent := by simp [wroteMessages, h.sent]
  stashed := h.stashed
  taken := h.taken

theorem Recorded.lost (h : Recorded queue x) (hf : StdioEvent.Follows x.history (.lost m))
    (stdin : List Bool) : Recorded queue { x with
      client := { x.client with stdin := stdin }
      history := .lost m :: x.history } where
  dialogue := ⟨hf, h.dialogue⟩
  sent := h.sent
  stashed := h.stashed
  taken := h.taken

/-- A message is read, and stashed where it has no id. -/
theorem Recorded.read (h : Recorded queue x) (hf : StdioEvent.Follows x.history (.read msg))
    {item : Reception} (hitem : item.message = some msg) (hx : x.client.stdout = item :: rest) :
    Recorded queue (x.heard rest msg) where
  dialogue := ⟨hf, h.dialogue⟩
  sent := h.sent
  stashed := by simp only [heard, readMessages, List.filter_append, h.stashed]
  taken := by
    rw [h.taken, hx, List.filterMap_cons, hitem]
    simp [heard, readMessages]

theorem Recorded.failed (h : Recorded queue x) (hf : StdioEvent.Follows x.history .failed)
    (hrest : x.client.stdout.filterMap Reception.message = rest.filterMap Reception.message) :
    Recorded queue (x.took rest .failed) where
  dialogue := ⟨hf, h.dialogue⟩
  sent := h.sent
  stashed := h.stashed
  taken := h.taken.trans (by rw [hrest]; rfl)

/-! ## One request -/

namespace Waiting

variable {timeout : ℚ} {item : Reception}

theorem pending_ne_none (h : Waiting queue n call x) : RawClient.pending x.history ≠ none := by
  rw [h.pending]
  exact Option.some_ne_none call

theorem failed (h : Waiting queue n call x) (e : Exc)
    (hrest : x.client.stdout.filterMap Reception.message = rest.filterMap Reception.message) :
    Concluded queue call (.error e) (x.took rest .failed) where
  toRecorded := h.toRecorded.failed (follows_read rfl h.pending_ne_none h.settled) hrest
  nextId := by
    rw [took, requests_failed, h.requests]
    exact h.nextId
  pending := rfl
  due := rfl

theorem read (h : Waiting queue n call x) (hitem : item.message = some msg)
    (hx : x.client.stdout = item :: rest) : Recorded queue (x.heard rest msg) :=
  h.toRecorded.read (follows_read rfl h.pending_ne_none h.settled) hitem hx

theorem owed_read (h : Waiting queue n call x) :
    owed (.read msg :: x.history) = reply call n msg := by
  rw [owed, h.pending, h.requests]
  rfl

/-- A message that asks nothing of the client is passed over. -/
theorem pass (h : Waiting queue n call x) (hitem : item.message = some msg)
    (hx : x.client.stdout = item :: rest) (hn : ¬HasId n msg) (hm : ¬IsServerRequest msg) :
    Waiting queue n call (x.heard rest msg) where
  toRecorded := h.read hitem hx
  nextId := h.nextId
  requests := (requests_read msg x.history).trans h.requests
  pending := by
    rw [heard, RawClient.pending, h.requests, if_neg hn, h.pending]
  settled := by
    rw [heard, h.owed_read, reply, if_neg hn, if_neg hm]

/-- A request of the server is refused. -/
theorem refuse (h : Waiting queue n call x) (hitem : item.message = some msg)
    (hx : x.client.stdout = item :: rest) (hn : ¬HasId n msg) (hm : IsServerRequest msg) :
    (∃ y, (x.heard rest msg).send (methodNotFound msg) = (.ok (), y) ∧ Waiting queue n call y ∧
        y.client.stdout = rest) ∨
      ∃ e y, (x.heard rest msg).send (methodNotFound msg) = (.error e, y) ∧
        Concluded queue call (.error e) y := by
  have howed : owed (x.heard rest msg).history = some (methodNotFound msg) := by
    rw [heard, h.owed_read, reply, if_neg hn, if_pos hm]
  have hcall : ¬IsCall (methodNotFound msg) := not_isCall_methodNotFound msg
  have hpending : RawClient.pending (x.heard rest msg).history = some call := by
    rw [heard, RawClient.pending, h.requests, if_neg hn, h.pending]
  have hrequests : RawClient.requests (x.heard rest msg).history = n :=
    (requests_read msg x.history).trans h.requests
  obtain ⟨stdin, hs | ⟨e, hs⟩⟩ := (x.heard rest msg).send_cases (methodNotFound msg)
  · refine .inl ⟨_, hs, ⟨(h.read hitem hx).wrote (follows_owed rfl howed) stdin, h.nextId, ?_, ?_,
      rfl⟩, rfl⟩
    · rw [requests_reply rfl hcall, hrequests]
    · rw [RawClient.pending, if_neg hcall, hpending]
  · refine .inr ⟨e, _, hs, (h.read hitem hx).lost (follows_owed rfl howed) stdin, ?_, rfl, rfl⟩
    rw [requests_reply rfl hcall, hrequests]
    exact h.nextId

/-- A message with the id of the request ends its wait. -/
theorem conclude (h : Waiting queue n call x) (hitem : item.message = some msg)
    (hx : x.client.stdout = item :: rest) (hn : HasId n msg) :
    Concluded queue call (if msg.has "error" then .error (mcpError msg)
      else .ok (msg.get "result" (.dict []))) (x.heard rest msg) where
  toRecorded := h.read hitem hx
  nextId := by
    rw [heard, requests_read, h.requests]
    exact h.nextId
  pending := by
    rw [heard, RawClient.pending, h.requests, if_pos hn]
  due := by
    rw [heard, h.owed_read, reply, if_pos hn]
    by_cases he : msg.has "error"
    · rw [if_pos he, if_neg fun h => h.2.1 he]
      rfl
    · rw [if_neg he, due]
      simp [Accepts, he]

/-- The wait of a request ends with its outcome, and what the client still owes is due to that. -/
theorem await (h : Waiting queue n call x) (timeout : ℚ) :
    Concluded queue call (await n timeout x.client.stdout x).1
      (await n timeout x.client.stdout x).2 := by
  generalize hl : x.client.stdout = l
  induction l generalizing x with
  | nil =>
    obtain ⟨e, hr⟩ := x.recv_nil timeout
    rw [StdioSession.await, hr]
    exact h.failed e (by rw [hl])
  | cons item rest ih =>
    rw [StdioSession.await]
    obtain ⟨msg, hitem, hr⟩ | ⟨e, left, hr, hleft⟩ := x.recv_cases timeout item rest
    · rw [hr]
      simp only
      by_cases hid : ¬msg.has "id"
      · have hheard : x.heard rest msg = { x.took rest (.read msg) with
            client := { (x.took rest (.read msg)).client with
              notifications := (x.took rest (.read msg)).client.notifications ++ [msg] } } := by
          simp [heard, took, hid]
        have hn : ¬HasId n msg := fun hn => hid hn.has_id
        rw [if_pos hid, ← hheard]
        exact ih (h.pass hitem hl hn fun hm => hid hm.2) rfl
      · have hheard : x.heard rest msg = x.took rest (.read msg) := by
          simp [heard, took, not_not.1 hid]
        rw [if_neg hid, ← hheard]
        by_cases hn : ¬HasId n msg
        · rw [if_pos (show ¬(msg.get "id" .none).IsInt n from hn)]
          by_cases hm : msg.has "method"
          · rw [if_pos hm]
            obtain ⟨y, hs, hy, hrest⟩ | ⟨e, y, hs, hy⟩ :=
              h.refuse hitem hl hn ⟨hm, not_not.1 hid⟩
            · rw [hs]
              exact ih hy hrest
            · rw [hs]
              exact hy
          · rw [if_neg hm]
            exact ih (h.pass hitem hl hn fun hm' => hm hm'.1) rfl
        · rw [if_neg (show ¬¬(msg.get "id" .none).IsInt n from hn)]
          have hc := h.conclude hitem hl (not_not.1 hn)
          by_cases he : msg.has "error"
          · rw [if_pos he] at hc ⊢
            exact hc
          · rw [if_neg he] at hc ⊢
            exact hc
    · rw [hr]
      exact h.failed e (by rw [hl, hleft])

end Waiting

/-! ## One method -/

namespace Concluded

variable {r : Except Exc Value}

theorem idle (h : Concluded queue call r x) (hdue : StdioSession.due call r = none) :
    Idle queue x :=
  ⟨h.toRecorded, h.nextId, h.pending, h.due.trans hdue⟩

theorem warn (h : Concluded queue call r x) (version : Value) :
    Concluded queue call r (x.warn version) := by
  unfold StdioSession.warn
  split
  · split_ifs
    · exact h
    · exact ⟨⟨h.dialogue, h.sent, h.stashed, h.taken⟩, h.nextId, h.pending, h.due⟩
  · exact ⟨⟨h.dialogue, h.sent, h.stashed, h.taken⟩, h.nextId, h.pending, h.due⟩

/-- The notification is owed, and pays the debt. -/
theorem notify (h : Concluded queue call r x) (hdue : StdioSession.due call r = some initialized) :
    Idle queue (x.send initialized).2 := by
  have howed : owed x.history = some initialized := h.due.trans hdue
  obtain ⟨stdin, hs | ⟨e, hs⟩⟩ := x.send_cases initialized
  · rw [hs]
    refine ⟨h.toRecorded.wrote (follows_owed rfl howed) stdin, ?_, ?_, rfl⟩
    · rw [requests_reply rfl not_isCall_initialized]
      exact h.nextId
    · rw [RawClient.pending, if_neg not_isCall_initialized, h.pending]
  · rw [hs]
    refine ⟨h.toRecorded.lost (follows_owed rfl howed) stdin, ?_, rfl, rfl⟩
    rw [requests_reply rfl not_isCall_initialized]
    exact h.nextId

end Concluded

theorem wait_cases (x : StdioSession) :
    ∃ ended waits, x.wait = (ended, { x with ended := ended, waits := waits }) := by
  by_cases h : x.ended
  · refine ⟨true, x.waits, ?_⟩
    rw [wait, if_pos h, ← h]
  · exact ⟨x.waits.headD true, x.waits.tail, by rw [wait, if_neg h]⟩

/-- `close` writes nothing and reads nothing. -/
theorem close_spec (x : StdioSession) : x.close.2.client = x.client ∧
    x.close.2.history = x.history ∧ x.close.2.closed = true := by
  rw [close]
  obtain ⟨_ | _, waits, h₁⟩ := wait_cases { x with closed := true }
  · rw [h₁]
    simp only
    obtain ⟨_ | _, waits, h₂⟩ := wait_cases { x with
      closed := true, ended := false, waits := waits, signals := x.signals ++ [Signal.terminate] }
    · rw [h₂]
      simp only
      obtain ⟨ended, waits, h₃⟩ := wait_cases { x with
        closed := true, ended := false, waits := waits
        signals := x.signals ++ [Signal.terminate] ++ [Signal.kill] }
      rw [h₃]
      exact ⟨rfl, rfl, rfl⟩
    · rw [h₂]
      exact ⟨rfl, rfl, rfl⟩
  · rw [h₁]
    exact ⟨rfl, rfl, rfl⟩

theorem due_of_not_hasKey {v : Value} (hv : ¬hasKey "serverInfo" v) : due call (.ok v) = none :=
  if_neg fun h => hv h.2

namespace Idle

theorem request (h : Idle queue x) (q : Request) :
    Concluded queue (q.message x.client.nextId) (x.request q).1 (x.request q).2 := by
  have hcall : IsCall (q.message x.client.nextId) := isCall_message q x.client.nextId
  have hid : (q.message x.client.nextId).get "id" .none =
      .number (requests x.history + 1 : ℕ) := by
    rw [get_id_message, h.nextId]
  have hx : Recorded queue { x with client := { x.client with nextId := x.client.nextId + 1 } } :=
    ⟨h.dialogue, h.sent, h.stashed, h.taken⟩
  rw [StdioSession.request]
  obtain ⟨stdin, hs | ⟨e, hs⟩⟩ :=
    send_cases { x with client := { x.client with nextId := x.client.nextId + 1 } }
      (q.message x.client.nextId)
  · rw [hs]
    refine Waiting.await ⟨hx.wrote (follows_call rfl hcall hid h.pending h.settled) stdin, rfl, ?_,
      if_pos hcall, rfl⟩ _
    rw [requests_call rfl hcall, h.nextId]
  · rw [hs]
    refine ⟨hx.lost (follows_call rfl hcall hid h.pending h.settled) stdin, ?_, rfl, rfl⟩
    rw [requests_call rfl hcall, ← h.nextId]

/-- Of other requests than `initialize` nothing is owed. -/
theorem request_other (h : Idle queue x) {q : Request} (hq : q.method ≠ "initialize") :
    Idle queue (x.request q).2 := by
  refine (h.request q).idle ?_
  cases (x.request q).1 with
  | error e => rfl
  | ok v =>
    refine if_neg fun h => hq ?_
    rw [methodOf_message] at h
    exact Option.some.inj h.1

theorem callTool (h : Idle queue x) (name : String) (arguments : Dict) :
    Idle queue (x.callTool name arguments).2 :=
  h.request_other (by simp)

theorem request_eq (h : Idle queue x) {q : Request} (hq : q.method ≠ "initialize")
    {r : Except Exc Value} {x' : StdioSession} (hr : x.request q = (r, x')) : Idle queue x' := by
  have hx' := h.request_other hq
  rwa [hr] at hx'

theorem listLoop (h : Idle queue x) (tools : List Value) (cursor : Value) :
    Idle queue (x.listLoop tools cursor).2 := by
  fun_induction StdioSession.listLoop x tools cursor with
  | case1 x _ cursor e x' hr => exact h.request_eq (by simp) hr
  | case2 x _ cursor result x' hr => exact h.request_eq (by simp) hr
  | case3 x _ cursor result x' hr => exact h.request_eq (by simp) hr
  | case4 x _ cursor result x' hr tools cursor' _ _ ih => exact ih (h.request_eq (by simp) hr)

/-- The notification follows the answer that accepts the handshake, and no other. -/
theorem initializeSession (h : Idle queue x) : Idle queue x.initializeSession.2 := by
  have hc := h.request (initializeRequest x.protocolVersion)
  have hmethod : methodOf ((initializeRequest x.protocolVersion).message x.client.nextId) =
      some "initialize" := methodOf_message _ _
  rw [StdioSession.initializeSession]
  rcases hr : x.request (initializeRequest x.protocolVersion) with ⟨e | result, y⟩
  · rw [hr] at hc
    exact hc.idle rfl
  · rw [hr] at hc
    cases result with
    | dict d =>
      have hw := hc.warn (Dict.get d "protocolVersion" .none)
      simp only [Value.get]
      by_cases hk : hasKey "serverInfo" (.dict d)
      · have hn := hw.notify (if_pos ⟨hmethod, hk⟩)
        rw [if_neg (not_not.2 hk)]
        revert hn
        rcases send _ initialized with ⟨_ | _, z⟩ <;> exact id
      · rw [if_pos hk]
        exact hw.idle (due_of_not_hasKey hk)
    | none | bool _ | number _ | str _ | list _ =>
      exact hc.idle (due_of_not_hasKey (by simp [hasKey]))

theorem close (h : Idle queue x) : Idle queue x.close.2 := by
  obtain ⟨hclient, hhistory, -⟩ := close_spec x
  constructor
  · exact ⟨hhistory ▸ h.dialogue, by rw [hclient, hhistory, h.sent],
      by rw [hclient, hhistory, h.stashed], by rw [hclient, hhistory, h.taken]⟩
  · rw [hclient, hhistory, h.nextId]
  · rw [hhistory, h.pending]
  · rw [hhistory, h.settled]

theorem perform (h : Idle queue x) (operation : Operation) : Idle queue (x.perform operation) := by
  cases operation with
  | initializeSession => exact h.initializeSession
  | listTools => exact h.listLoop [] .none
  | callTool name arguments => exact h.callTool name arguments
  | close => exact h.close

theorem after (h : Idle queue x) (operations : List Operation) :
    Idle queue (x.after operations) := by
  induction operations generalizing x with
  | nil => exact h
  | cons operation operations ih => exact ih (h.perform operation)

end Idle

/-! ## After `close` -/

/-- The stdin of the server is closed, with these messages written. -/
structure Shut (sent : List Dict) (x : StdioSession) : Prop where
  closed : x.closed = true
  sent : x.client.sent = sent

namespace Shut

variable {sent : List Dict}

theorem send (h : Shut sent x) (message : Dict) :
    ∃ y, x.send message = (.error .valueError, y) ∧ Shut sent y :=
  ⟨_, if_pos h.closed, h.closed, h.sent⟩

theorem request (h : Shut sent x) (q : Request) :
    ∃ y, x.request q = (.error .valueError, y) ∧ Shut sent y := by
  obtain ⟨y, hs, hy⟩ := send (x := { x with client := { x.client with
    nextId := x.client.nextId + 1 } }) ⟨h.closed, h.sent⟩ (q.message x.client.nextId)
  exact ⟨y, by rw [StdioSession.request, hs], hy⟩

/-- Once `close` was called, each method of the protocol raises before it writes. -/
theorem perform (h : Shut sent x) (operation : Operation) : Shut sent (x.perform operation) := by
  cases operation with
  | initializeSession =>
    obtain ⟨y, hr, hy⟩ := h.request (initializeRequest x.protocolVersion)
    rw [StdioSession.perform, StdioSession.initializeSession, hr]
    exact hy
  | listTools =>
    obtain ⟨y, hr, hy⟩ := h.request ⟨"tools/list", some (cursorParams .none), none⟩
    have hlist : x.listTools = (.error .valueError, y) := by
      rw [listTools, StdioSession.listLoop]
      split
      · rename_i hr'
        obtain ⟨he, rfl⟩ := Prod.mk.inj (hr.symm.trans hr')
        rw [Except.error.inj he]
      · rename_i hr'
        cases hr.symm.trans hr'
    rw [StdioSession.perform, hlist]
    exact hy
  | callTool name arguments =>
    obtain ⟨y, hr, hy⟩ := h.request
      ⟨"tools/call", some [("name", .str name), ("arguments", .dict arguments)], none⟩
    rw [StdioSession.perform, StdioSession.callTool, hr]
    exact hy
  | close =>
    obtain ⟨hclient, -, hclosed⟩ := close_spec x
    exact ⟨hclosed, (congrArg Client.sent hclient).trans h.sent⟩

theorem after (h : Shut sent x) (operations : List Operation) :
    Shut sent (x.after operations) := by
  induction operations generalizing x with
  | nil => exact h
  | cons operation operations ih => exact ih (h.perform operation)

end Shut

end Steps

end StdioSession

end MemoryBridge.RawClient
