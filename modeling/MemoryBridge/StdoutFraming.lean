import MemoryBridge.Foundations.PyText
import MemoryBridge.RawClient

/-!
# What is read from stdout (`_read_loop`, `_recv`)

The reader thread puts one item on the queue for each line of the server: the value that the line
encodes, or a dict with the key `_framing_error` if it is no JSON; and `None` when it ends. `_recv`
tells these apart by value, and the loop of `_request` applies `in` and `.get` to whatever was
parsed: a line `null` is the end of stdout, and other values that are no objects are stashed or make
an operator raise. `junk_reported_iff` says for which output every line that is no object is
reported as bad framing. On objects the loop is the one of `RawClient` (`awaitValue_eq`).
-/

namespace MemoryBridge.RawClient

open PyText

/-! ## The reader -/

/-- What the server does to its stdout. -/
inductive Emission
  | line (text : String)
  /-- It writes nothing for longer than the client waits. -/
  | pause
  | close

/-- What `json.loads` does with a line. -/
inductive Loaded
  | value (v : Value)
  /-- It raises `JSONDecodeError`, whose text this is. -/
  | decodeError (exc : String)
  /-- It raises another exception: of an integer with too many digits, or too deep a nesting. -/
  | raised

/-- The line is a JSON object. -/
def Loaded.IsObject (l : Loaded) : Prop := ∃ d, l = .value (.dict d)

/-- `{"_framing_error": f"unparseable line: {line!r} ({exc})"}` -/
def framingError (U : Unicode) (line exc : String) : Dict :=
  [("_framing_error", .str ("unparseable line: " ++ repr U line ++ " (" ++ exc ++ ")"))]

/-- `_read_loop`: what the reads of the queue give, `none` where nothing arrives before the
timeout. The `None` at the end is put there for the end of stdout and for any exception. -/
def readLoop (loads : String → Loaded) (U : Unicode) : List Emission → List (Option Value)
  | [] => []
  | .pause :: rest => none :: readLoop loads U rest
  | .close :: _ => [some .none]
  | .line text :: rest =>
    match loads text with
    | .value v => some v :: readLoop loads U rest
    | .decodeError exc => some (.dict (framingError U text exc)) :: readLoop loads U rest
    | .raised => [some .none]

/-! ## The client -/

/-- `k in v` -/
def Value.contains (k : String) : Value → Except Exc Bool
  | .dict d => .ok (Dict.has d k)
  | .list l => .ok (l.any fun | .str s => s == k | _ => false)
  | .str s => .ok (PyText.contains k s)
  | .none | .bool _ | .number _ => .error .typeError

/-- What `_recv` makes of what the queue gives. `msg['_framing_error']` refuses what is no dict. -/
def recvItemValue (timeout : ℚ) : Option Value → Except Exc Value
  | none => .error (.connectionError (.noMessage timeout))
  | some .none => .error (.connectionError .stdoutClosed)
  | some msg => do
    let framed ← msg.contains "_framing_error"
    if framed then
      match msg with
      | .dict d => .error (.connectionError (.badFraming (Dict.get d "_framing_error" .none)))
      | _ => .error .typeError
    else .ok msg

/-- `_recv`, and what it leaves in the queue, which refuses a negative timeout before it gives
anything. -/
def recvValue (timeout : ℚ) (queue : List (Option Value)) :
    Except Exc Value × List (Option Value) :=
  if timeout < 0 then (.error .valueError, queue)
  else (recvItemValue timeout (queue.headD none), queue.tail)

/-- A client that reads values. -/
structure LineClient where
  /-- What `_id_counter` gives next. -/
  nextId : ℕ
  defaultTimeout : ℚ
  notifications : List Value
  /-- The messages written to the server. -/
  sent : List Dict
  /-- Whether the next writes to the server's stdin go through. Past the end they do. -/
  stdin : List Bool

namespace LineClient

/-- `_send` -/
def send (c : LineClient) (message : Dict) : Except Exc Unit × LineClient :=
  if c.stdin.headD true then
    (.ok (), { c with stdin := c.stdin.tail, sent := c.sent ++ [message] })
  else (.error (.connectionError .stdinClosed), { c with stdin := c.stdin.tail })

/-- What one turn of the loop of `_request` comes to. -/
inductive Turn
  | done (r : Except Exc Value) (c : LineClient)
  | wait (c : LineClient)

/-- A turn of that loop, with a value that was received. -/
def turn (c : LineClient) (requestId : ℕ) (msg : Value) : Turn :=
  match msg.contains "id" with
  | .error e => .done (.error e) c
  | .ok false => .wait { c with notifications := c.notifications ++ [msg] }
  | .ok true =>
    match msg with
    | .dict d =>
      if ¬(Dict.get d "id" .none).IsInt requestId then
        if Dict.has d "method" then
          match c.send (methodNotFound d) with
          | (.error e, c') => .done (.error e) c'
          | (.ok (), c') => .wait c'
        else .wait c
      else if Dict.has d "error" then .done (.error (mcpError d)) c
      else .done (.ok (Dict.get d "result" (.dict []))) c
    | _ => .done (.error .attributeError) c

/-- The loop of `_request`, with what is left of the queue. -/
def await (requestId : ℕ) (timeout : ℚ) :
    List (Option Value) → LineClient → Except Exc Value × LineClient × List (Option Value)
  | [], c =>
    let (r, left) := recvValue timeout []
    (r, c, left)
  | item :: rest, c =>
    match recvValue timeout (item :: rest) with
    | (.error e, left) => (.error e, c, left)
    | (.ok msg, _) =>
      match c.turn requestId msg with
      | .done r c' => (r, c', rest)
      | .wait c' => await requestId timeout rest c'

/-- With a negative timeout the first read raises. -/
theorem await_of_neg {timeout : ℚ} (ht : timeout < 0) (requestId : ℕ)
    (queue : List (Option Value)) (c : LineClient) :
    c.await requestId timeout queue = (.error .valueError, c, queue) := by
  cases queue <;> simp only [await, recvValue, if_pos ht]

theorem await_nil {timeout : ℚ} (ht : ¬timeout < 0) (requestId : ℕ) (c : LineClient) :
    c.await requestId timeout [] = (.error (.connectionError (.noMessage timeout)), c, []) := by
  simp only [await, recvValue, if_neg ht, List.headD_nil, recvItemValue, List.tail_nil]

/-- The loop turns until it is done. -/
theorem await_cons {timeout : ℚ} (ht : ¬timeout < 0) (requestId : ℕ) (item : Option Value)
    (rest : List (Option Value)) (c : LineClient) : c.await requestId timeout (item :: rest) =
      match recvItemValue timeout item with
      | .error e => (.error e, c, rest)
      | .ok msg =>
        match c.turn requestId msg with
        | .done r c' => (r, c', rest)
        | .wait c' => c'.await requestId timeout rest := by
  rw [await, recvValue, if_neg ht]
  simp only [List.headD_cons, List.tail_cons]
  cases recvItemValue timeout item <;> rfl

/-- `_request`, with this queue. -/
def request (c : LineClient) (q : Request) (queue : List (Option Value)) :
    Except Exc Value × LineClient × List (Option Value) :=
  let requestId := c.nextId
  match { c with nextId := requestId + 1 }.send (q.message requestId) with
  | (.error e, c') => (.error e, c', queue)
  | (.ok (), c') => await requestId (q.timeout.getD c.defaultTimeout) queue c'

/-- The client that has sent its next request. -/
def requested (c : LineClient) (q : Request) : LineClient :=
  { c with
    nextId := c.nextId + 1
    sent := c.sent ++ [q.message c.nextId]
    stdin := c.stdin.tail }

theorem request_eq (c : LineClient) (q : Request) (queue : List (Option Value)) :
    c.request q queue = if c.stdin.headD true then
      (c.requested q).await c.nextId (q.timeout.getD c.defaultTimeout) queue
    else (.error (.connectionError .stdinClosed),
      { c with nextId := c.nextId + 1, stdin := c.stdin.tail }, queue) := by
  by_cases h : c.stdin.headD true <;> simp only [request, send, h] <;> rfl

/-- The client after an object that is passed over: a notification is stashed, a request of the
server is answered. -/
def pass (c : LineClient) (d : Dict) : LineClient :=
  if ¬Dict.has d "id" then { c with notifications := c.notifications ++ [.dict d] }
  else if Dict.has d "method" then
    { c with stdin := c.stdin.tail, sent := c.sent ++ [methodNotFound d] }
  else c

end LineClient

/-! ## While a request waits -/

/-- An object that request `n` is not waiting for and is not taken for, and whose reply goes
through. -/
structure Passes (n : ℕ) (c : LineClient) (d : Dict) : Prop where
  unmarked : ¬Dict.has d "_framing_error"
  other : ¬HasId n d
  written : IsServerRequest d → c.stdin.headD true

/-- While request `n` waits, the client `c` reads objects that are passed over, and is `c'` when it
comes to the rest of the output. -/
inductive Reads (loads : String → Loaded) (n : ℕ) :
    LineClient → List Emission → LineClient → List Emission → Prop
  | here {c : LineClient} {es : List Emission} : Reads loads n c es c es
  | object {c c' : LineClient} {d : Dict} {text : String} {es es' : List Emission} :
      loads text = .value (.dict d) → Passes n c d → Reads loads n (c.pass d) es c' es' →
      Reads loads n c (.line text :: es) c' es'

/-- The next request is sent and waits, until it comes to the rest of the output. -/
def LineClient.Meets (loads : String → Loaded) (c : LineClient) (q : Request) (es : List Emission)
    (c' : LineClient) (rest : List Emission) : Prop :=
  c.stdin.headD true ∧ ¬q.timeout.getD c.defaultTimeout < 0 ∧
    Reads loads c.nextId (c.requested q) es c' rest

/-- Junk is reported: the first line that is no object, met while the request waits, is bad framing
and nothing else, and stdout is closed only where it ends. -/
structure Reported (loads : String → Loaded) (U : Unicode) (c : LineClient) (q : Request)
    (es : List Emission) : Prop where
  junk : ∀ c' line rest, c.Meets loads q es c' (.line line :: rest) → ¬(loads line).IsObject →
    (∃ text, (c.request q (readLoop loads U es)).1 = .error (.connectionError (.badFraming text))) ∧
      (c.request q (readLoop loads U es)).2.1.notifications = c'.notifications
  closed : (c.request q (readLoop loads U es)).1 = .error (.connectionError .stdoutClosed) →
    ∃ c' rest, c.Meets loads q es c' (.close :: rest)

section Wait

variable {loads : String → Loaded} {U : Unicode} {n : ℕ} {t : ℚ} {c c' : LineClient} {d : Dict}
  {es es' : List Emission}

theorem recvItemValue_dict (h : ¬Dict.has d "_framing_error") :
    recvItemValue t (some (.dict d)) = .ok (.dict d) := by
  simp [recvItemValue, Value.contains, bind, Except.bind, h]

theorem recvItemValue_marked (h : Dict.has d "_framing_error") :
    recvItemValue t (some (.dict d)) =
      .error (.connectionError (.badFraming (Dict.get d "_framing_error" .none))) := by
  simp [recvItemValue, Value.contains, bind, Except.bind, h]

theorem Passes.turn (h : Passes n c d) : c.turn n (.dict d) = .wait (c.pass d) := by
  have hother : ¬(Dict.get d "id" .none).IsInt n := h.other
  rw [LineClient.turn, LineClient.pass]
  by_cases hid : Dict.has d "id"
  · simp only [Value.contains, hid, not_true_eq_false, if_false, hother, not_false_eq_true, if_true]
    by_cases hm : Dict.has d "method"
    · rw [if_pos hm, if_pos hm, LineClient.send, if_pos (h.written ⟨hm, hid⟩)]
    · rw [if_neg hm, if_neg hm]
  · simp only [Value.contains, Bool.eq_false_iff.2 hid, if_true, Bool.false_eq_true,
      not_false_eq_true]

/-- The wait goes on where the reading comes to. -/
theorem Reads.await (ht : ¬t < 0) (h : Reads loads n c es c' es') :
    c.await n t (readLoop loads U es) = c'.await n t (readLoop loads U es') := by
  induction h with
  | here => rfl
  | object hl hp _ ih =>
    rw [readLoop, hl, LineClient.await_cons ht, recvItemValue_dict hp.unmarked]
    simp only [hp.turn]
    exact ih

/-- The client that a turn leaves. -/
def LineClient.Turn.client : LineClient.Turn → LineClient
  | done _ c => c
  | wait c => c

theorem turn_notifications (n : ℕ) (c : LineClient) (msg : Value) :
    c.notifications <+: (c.turn n msg).client.notifications := by
  have hsend (message : Dict) : (c.send message).2.notifications = c.notifications := by
    rw [LineClient.send]
    split <;> rfl
  unfold LineClient.turn
  cases msg.contains "id" with
  | error e => exact List.prefix_rfl
  | ok found =>
    cases found with
    | false => exact List.prefix_append _ _
    | true =>
      cases msg with
      | dict d =>
        simp only
        split
        · split
          · have h := hsend (methodNotFound d)
            revert h
            rcases c.send (methodNotFound d) with ⟨_ | _, c'⟩ <;> intro h <;>
              exact h ▸ List.prefix_rfl
          · exact List.prefix_rfl
        · split <;> exact List.prefix_rfl
      | _ => exact List.prefix_rfl

/-- What is stashed stays stashed. -/
theorem notifications_kept (queue : List (Option Value)) (c : LineClient) :
    c.notifications <+: (c.await n t queue).2.1.notifications := by
  by_cases ht : t < 0
  · simp only [LineClient.await_of_neg ht, List.prefix_rfl]
  induction queue generalizing c with
  | nil => simp only [LineClient.await_nil ht, List.prefix_rfl]
  | cons item rest ih =>
    rw [LineClient.await_cons ht]
    cases recvItemValue t item with
    | error e => exact List.prefix_rfl
    | ok msg =>
      have hturn := turn_notifications n c msg
      simp only
      cases hc : c.turn n msg with
      | done r c' =>
        rw [hc] at hturn
        exact hturn
      | wait c' =>
        rw [hc] at hturn
        exact hturn.trans (ih c')

/-! ## The first line that is no object -/

/-- A line that is no JSON is reported. -/
theorem await_decodeError (ht : ¬t < 0) {line exc : String} (h : loads line = .decodeError exc) :
    c.await n t (readLoop loads U (.line line :: es)) =
      (.error (.connectionError (.badFraming
        (.str ("unparseable line: " ++ repr U line ++ " (" ++ exc ++ ")")))), c,
        readLoop loads U es) := by
  have hmark : Dict.has (framingError U line exc) "_framing_error" := rfl
  rw [readLoop, h, LineClient.await_cons ht, recvItemValue_marked hmark]
  rfl

/-- A string or a list is stashed, or the operators raise. -/
theorem await_sequence (ht : ¬t < 0) {v : Value} {framed found : Bool}
    {queue : List (Option Value)}
    (hrecv : recvItemValue t (some v) = if framed then .error .typeError else .ok v)
    (hturn : c.turn n v = if found then .done (.error .attributeError) c
      else .wait { c with notifications := c.notifications ++ [v] }) :
    (∀ text, (c.await n t (some v :: queue)).1 ≠ .error (.connectionError (.badFraming text))) ∨
      c.notifications ++ [v] <+: (c.await n t (some v :: queue)).2.1.notifications := by
  rw [LineClient.await_cons ht, hrecv]
  cases framed with
  | true => exact .inl fun text => by simp
  | false =>
    simp only [Bool.false_eq_true, if_false, hturn]
    cases found with
    | true => exact .inl fun text => by simp
    | false =>
      simp only [Bool.false_eq_true, if_false]
      exact .inr (notifications_kept queue
        { c with notifications := c.notifications ++ [v] })

/-- A value that is no object is not reported, or it is stashed. -/
theorem await_value (ht : ¬t < 0) {v : Value} (hv : ∀ d, v ≠ .dict d)
    (queue : List (Option Value)) :
    (∀ text, (c.await n t (some v :: queue)).1 ≠ .error (.connectionError (.badFraming text))) ∨
      c.notifications ++ [v] <+: (c.await n t (some v :: queue)).2.1.notifications := by
  cases v with
  | dict d => exact absurd rfl (hv d)
  | none => exact .inl fun text => by simp [LineClient.await_cons ht, recvItemValue]
  | bool b =>
    exact .inl fun text => by
      simp [LineClient.await_cons ht, recvItemValue, Value.contains, bind, Except.bind]
  | number q =>
    exact .inl fun text => by
      simp [LineClient.await_cons ht, recvItemValue, Value.contains, bind, Except.bind]
  | str s =>
    obtain ⟨framed, hframed⟩ : ∃ b, (Value.str s).contains "_framing_error" = .ok b := ⟨_, rfl⟩
    obtain ⟨found, hfound⟩ : ∃ b, (Value.str s).contains "id" = .ok b := ⟨_, rfl⟩
    have hrecv : recvItemValue t (some (.str s)) =
        if framed then .error .typeError else .ok (.str s) := by
      simp only [recvItemValue, hframed, bind, Except.bind]
    have hturn : c.turn n (.str s) = if found then .done (.error .attributeError) c
        else .wait { c with notifications := c.notifications ++ [.str s] } := by
      cases found <;> simp [LineClient.turn, hfound]
    exact await_sequence ht hrecv hturn
  | list l =>
    obtain ⟨framed, hframed⟩ : ∃ b, (Value.list l).contains "_framing_error" = .ok b := ⟨_, rfl⟩
    obtain ⟨found, hfound⟩ : ∃ b, (Value.list l).contains "id" = .ok b := ⟨_, rfl⟩
    have hrecv : recvItemValue t (some (.list l)) =
        if framed then .error .typeError else .ok (.list l) := by
      simp only [recvItemValue, hframed, bind, Except.bind]
    have hturn : c.turn n (.list l) = if found then .done (.error .attributeError) c
        else .wait { c with notifications := c.notifications ++ [.list l] } := by
      cases found <;> simp [LineClient.turn, hfound]
    exact await_sequence ht hrecv hturn

/-- **The first line that is no object** is reported exactly if it is no JSON. -/
theorem await_junk_iff (ht : ¬t < 0) {line : String} (h : ¬(loads line).IsObject) :
    ((∃ text, (c.await n t (readLoop loads U (.line line :: es))).1 =
          .error (.connectionError (.badFraming text))) ∧
        (c.await n t (readLoop loads U (.line line :: es))).2.1.notifications = c.notifications) ↔
      ∃ exc, loads line = .decodeError exc := by
  constructor
  · rintro ⟨⟨text, hr⟩, hn⟩
    cases hl : loads line with
    | decodeError exc => exact ⟨exc, rfl⟩
    | raised =>
      rw [readLoop, hl] at hr
      simp [LineClient.await_cons ht, recvItemValue] at hr
    | value v =>
      have hv (d : Dict) : v ≠ .dict d := fun hd => h ⟨d, by rw [hl, hd]⟩
      rw [readLoop, hl] at hr hn
      rcases await_value (c := c) (n := n) ht hv (readLoop loads U es) with hbad | hpre
      · exact absurd hr (hbad text)
      · have hlen := hpre.length_le
        rw [hn, List.length_append, List.length_singleton] at hlen
        omega
  · rintro ⟨exc, hl⟩
    rw [await_decodeError ht hl]
    exact ⟨⟨_, rfl⟩, rfl⟩

/-- An object that is not passed over does not look like the end of stdout. -/
theorem not_closed_of_not_passes (ht : ¬t < 0) (h : ¬Passes n c d) (queue : List (Option Value)) :
    (c.await n t (some (.dict d) :: queue)).1 ≠ .error (.connectionError .stdoutClosed) := by
  rw [LineClient.await_cons ht]
  by_cases hmark : Dict.has d "_framing_error"
  · rw [recvItemValue_marked hmark]
    simp
  · rw [recvItemValue_dict hmark]
    by_cases hn : HasId n d
    · have hid : (Value.dict d).contains "id" = .ok true := congrArg Except.ok hn.has_id
      have hmcp : mcpError d ≠ .connectionError .stdoutClosed := by
        rw [mcpError]
        split <;> simp
      have heq : (Dict.get d "id" .none).IsInt n := hn
      simp only [LineClient.turn, hid, heq, not_true_eq_false, if_false]
      by_cases herr : Dict.has d "error" <;> simp [herr, hmcp]
    · -- the reply to a request of the server cannot be written
      obtain ⟨hr, hb⟩ : IsServerRequest d ∧ ¬c.stdin.headD true = true := by
        by_contra hnot
        exact h ⟨hmark, hn, fun hr => by_contra fun hb => hnot ⟨hr, hb⟩⟩
      have hid : (Value.dict d).contains "id" = .ok true := congrArg Except.ok hr.2
      have hne : ¬(Dict.get d "id" .none).IsInt n := hn
      have hm : Dict.has d "method" = true := hr.1
      simp only [LineClient.turn, hid, hne, not_false_eq_true, if_true, hm, LineClient.send, hb]
      simp

/-- **Where stdout is found closed**: where it ends, or where a line is that is neither an object
nor refused as no JSON. -/
theorem closed_cases (ht : ¬t < 0) (es : List Emission) (c : LineClient)
    (h : (c.await n t (readLoop loads U es)).1 = .error (.connectionError .stdoutClosed)) :
    (∃ c' rest, Reads loads n c es c' (.close :: rest)) ∨
      ∃ c' line rest, Reads loads n c es c' (.line line :: rest) ∧ ¬(loads line).IsObject ∧
        ¬∃ exc, loads line = .decodeError exc := by
  induction es generalizing c with
  | nil => simp [readLoop, LineClient.await_nil ht] at h
  | cons e es ih =>
    cases e with
    | pause => simp [readLoop, LineClient.await_cons ht, recvItemValue] at h
    | close => exact .inl ⟨c, es, .here⟩
    | line line =>
      by_cases hobj : (loads line).IsObject
      · obtain ⟨d, hd⟩ := hobj
        by_cases hp : Passes n c d
        · rw [(Reads.object hd hp .here).await ht] at h
          rcases ih (c.pass d) h with ⟨c', rest, hr⟩ | ⟨c', line', rest, hr, hnot⟩
          · exact .inl ⟨c', rest, .object hd hp hr⟩
          · exact .inr ⟨c', line', rest, .object hd hp hr, hnot⟩
        · rw [readLoop, hd] at h
          exact absurd h (not_closed_of_not_passes ht hp _)
      · by_cases hexc : ∃ exc, loads line = .decodeError exc
        · obtain ⟨exc, hexc⟩ := hexc
          rw [await_decodeError ht hexc] at h
          simp at h
        · exact .inr ⟨c, line, es, .here, hobj, hexc⟩

/-- **When junk is reported.** The first line that is no JSON object, met while the request waits,
is reported as bad framing, and nothing else is taken for it or for the end of stdout, exactly if
`json.loads` raises `JSONDecodeError` on it. -/
theorem junk_reported_iff (loads : String → Loaded) (U : Unicode) (c : LineClient) (q : Request)
    (es : List Emission) :
    Reported loads U c q es ↔
      ∀ c' line rest, c.Meets loads q es c' (.line line :: rest) → ¬(loads line).IsObject →
        ∃ exc, loads line = .decodeError exc := by
  by_cases hsend : c.stdin.headD true = true
  · have hrequest (queue : List (Option Value)) : c.request q queue =
        (c.requested q).await c.nextId (q.timeout.getD c.defaultTimeout) queue := by
      rw [LineClient.request_eq, if_pos hsend]
    by_cases ht : q.timeout.getD c.defaultTimeout < 0
    · -- nothing is read
      refine iff_of_true ⟨fun c' line rest h => absurd ht h.2.1, fun hclosed => ?_⟩
        fun c' line rest h => absurd ht h.2.1
      rw [hrequest, LineClient.await_of_neg ht] at hclosed
      simp at hclosed
    constructor
    · rintro ⟨hjunk, -⟩ c' line rest ⟨-, -, hreads⟩ hobj
      have h := hjunk c' line rest ⟨hsend, ht, hreads⟩ hobj
      rw [hrequest, hreads.await ht] at h
      exact (await_junk_iff ht hobj).1 h
    · intro hall
      refine ⟨?_, fun hclosed => ?_⟩
      · rintro c' line rest ⟨-, -, hreads⟩ hobj
        rw [hrequest, hreads.await ht]
        exact (await_junk_iff ht hobj).2 (hall c' line rest ⟨hsend, ht, hreads⟩ hobj)
      · rw [hrequest] at hclosed
        rcases closed_cases ht es _ hclosed with
          ⟨c', rest, hreads⟩ | ⟨c', line, rest, hreads, hobj, hn⟩
        · exact ⟨c', rest, hsend, ht, hreads⟩
        · exact absurd (hall c' line rest ⟨hsend, ht, hreads⟩ hobj) hn
  · -- the request is not sent, and nothing is read
    refine iff_of_true ⟨fun c' line rest h => absurd h.1 hsend, fun hclosed => ?_⟩
      fun c' line rest h => absurd h.1 hsend
    rw [LineClient.request_eq, if_neg hsend] at hclosed
    simp at hclosed

end Wait

/-! ## Lines that are no objects -/

/-- `json.loads` on some lines; the others are no JSON. -/
def sampleLoads (text : String) : Loaded :=
  if text = "null\n" then .value .none
  else if text = "5\n" then .value (.number 5)
  else if text = "\"hello\"\n" then .value (.str "hello")
  else .decodeError "Expecting value: line 1 column 1 (char 0)"

/-- What a first request comes to, if the server writes this line. -/
def afterLine (text : String) : Except Exc Value × LineClient × List (Option Value) :=
  (⟨1, 45, [], [], []⟩ : LineClient).request listTools
    (readLoop sampleLoads ⟨fun _ => false, fun _ _ => rfl⟩ [.line text])

/-- **Junk that is not reported.** A line `null` is taken for the end of stdout, on a number an
operator raises, and a string is stashed as a notification. -/
theorem junk_not_reported :
    (afterLine "null\n").1 = .error (.connectionError .stdoutClosed) ∧
      (afterLine "5\n").1 = .error .typeError ∧
      (afterLine "\"hello\"\n").2.1.notifications = [.str "hello"] ∧
      ¬Reported sampleLoads ⟨fun _ => false, fun _ _ => rfl⟩ ⟨1, 45, [], [], []⟩ listTools
        [.line "null\n"] := by
  have hnull : (afterLine "null\n").1 = .error (.connectionError .stdoutClosed) := rfl
  refine ⟨hnull, rfl, rfl, fun h => ?_⟩
  have hobj : ¬(sampleLoads "null\n").IsObject := by
    rintro ⟨d, hd⟩
    have hvalue : sampleLoads "null\n" = .value .none := rfl
    rw [hvalue] at hd
    simp at hd
  obtain ⟨⟨text, hbad⟩, -⟩ := h.junk _ "null\n" [] ⟨rfl, by decide, .here⟩ hobj
  have heq := hnull.symm.trans hbad
  simp at heq

/-! ## The loop on objects -/

/-- The item on the queue that a reception is. -/
def Reception.item : Reception → Option Value
  | line d => some (.dict d)
  | silence => none
  | eof => some .none

/-- A client whose notifications are objects. -/
def Client.lines (c : Client) : LineClient :=
  ⟨c.nextId, c.defaultTimeout, c.notifications.map .dict, c.sent, c.stdin⟩

/-- A turn with an object is the turn of `RawClient`. -/
theorem turn_lines (n : ℕ) (c : Client) (d : Dict) : c.lines.turn n (.dict d) =
    match c.turn n d with
    | .done r c' => .done r c'.lines
    | .wait c' => .wait c'.lines := by
  have hsend (message : Dict) :
      c.lines.send message = ((c.send message).1, (c.send message).2.lines) := by
    have hstdin : c.lines.stdin = c.stdin := rfl
    rw [LineClient.send, Client.send, hstdin]
    by_cases h : c.stdin.headD true
    · rw [if_pos h, if_pos h]
      rfl
    · rw [if_neg h, if_neg h]
      rfl
  unfold LineClient.turn Client.turn
  by_cases hid : d.has "id"
  · have hcontains : (Value.dict d).contains "id" = .ok true := congrArg Except.ok hid
    simp only [hcontains, hid, not_true_eq_false, if_false]
    split
    · split
      · rw [hsend]
        rcases c.send (methodNotFound d) with ⟨_ | _, c'⟩ <;> rfl
      · rfl
    · split <;> rfl
  · have hcontains : (Value.dict d).contains "id" = .ok false :=
      congrArg Except.ok (Bool.eq_false_iff.2 hid)
    simp only [hcontains, hid, Bool.false_eq_true, not_false_eq_true, if_true]
    simp [Client.lines]

/-- **On objects the loop is that of `RawClient`.** -/
theorem awaitValue_eq (n : ℕ) (t : ℚ) (queue : List Reception) (c : Client) :
    c.lines.await n t (queue.map Reception.item) =
      ((await n t queue c).1, (await n t queue c).2.lines,
        (await n t queue c).2.stdout.map Reception.item) := by
  by_cases ht : t < 0
  · rw [LineClient.await_of_neg ht, await_of_neg ht]
    rfl
  induction queue generalizing c with
  | nil =>
    rw [List.map_nil, LineClient.await_nil ht, await_nil ht]
    rfl
  | cons item rest ih =>
    have hrecv : recvItemValue t item.item = (recvItem t item).map .dict := by
      cases item with
      | line d =>
        rw [Reception.item, recvItem]
        by_cases h : d.has "_framing_error"
        · rw [recvItemValue_marked h, if_pos h]
          rfl
        · rw [recvItemValue_dict h, if_neg h]
          rfl
      | silence => rfl
      | eof => rfl
    rw [List.map_cons, LineClient.await_cons ht, await_cons ht, hrecv]
    cases recvItem t item with
    | error e => rfl
    | ok d =>
      simp only [Except.map, turn_lines]
      cases c.turn n d with
      | done r c' => rfl
      | wait c' => exact ih c'

end MemoryBridge.RawClient
