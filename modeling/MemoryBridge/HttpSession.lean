import MemoryBridge.StdoutFraming
import MemoryBridge.ToolListing

/-!
# A session over HTTP (`RawHTTPMCPClient`)

Over HTTP the session is a header: the server issues `Mcp-Session-Id` in its answer to `initialize`,
and the client echoes it. `http_conversation` is about every sequence of calls of the client, each
of which may raise, with any server: what goes over the wire follows the protocol of sessions.
-/

namespace MemoryBridge.RawClient

/-! ## The transport -/

inductive HttpRequest
  | post (p : Post)
  | delete (headers : List (String × String))

def HttpRequest.headers : HttpRequest → List (String × String)
  | post p => p.headers
  | delete headers => headers

/-- What `urlopen` comes to. -/
inductive HttpResponse
  /-- A response, with its body if that is UTF-8. -/
  | ok (status : ℕ) (headers : List (String × String)) (body : Option String)
  /-- An `HTTPError`, whose body is decoded with replacements. -/
  | httpError (status : ℕ) (headers : List (String × String)) (body : String)
  | urlError

structure Exchange where
  request : HttpRequest
  response : HttpResponse

/-- What the client raises. -/
inductive HttpExc
  | client (e : Exc)
  /-- `server issued no Mcp-Session-Id at initialize` -/
  | noSession
  /-- The body of a response is not UTF-8. -/
  | unicodeDecodeError
  /-- `json.loads` raises another exception than `JSONDecodeError`. -/
  | loads

/-! ## The client -/

/-- `{k.lower(): v for k, v in headers}`: of equal names the last one is found. -/
def lowered (headers : List (String × String)) : List (String × String) :=
  (headers.map fun h => (h.1.toLower, h.2)).reverse

/-- `url.rstrip("/")` -/
def rstripSlash (url : String) : String :=
  String.ofList (url.toList.reverse.dropWhile (· = '/')).reverse

section Client

variable {ρ : Type} (loads : String → Loaded) (serve : ρ → HttpRequest → HttpResponse × ρ)

/-- The end of `_post`: the body, parsed or as text. -/
def parsed (status : ℕ) (headers : List (String × String)) (body : String) :
    Except HttpExc (ℕ × Value × List (String × String)) :=
  match loads body with
  | .value v => .ok (status, v, lowered headers)
  | .decodeError _ => .ok (status, .str body, lowered headers)
  | .raised => .error .loads

/-- What `_post` returns. -/
def received : HttpResponse → Except HttpExc (ℕ × Value × List (String × String))
  | .ok status headers (some body) => parsed loads status headers body
  | .ok _ _ none => .error .unicodeDecodeError
  | .httpError status headers body => parsed loads status headers body
  | .urlError => .error (.client .urlError)

/-- A client, a server, and what they exchanged. -/
structure HttpSession (ρ : Type) where
  client : HttpClient
  protocolVersion : String
  exchanges : List Exchange
  server : ρ

namespace HttpSession

/-- `RawHTTPMCPClient.__init__` -/
def started (url token protocolVersion : String) (server : ρ) : HttpSession ρ where
  client := ⟨rstripSlash url, token, none, 1, []⟩
  protocolVersion := protocolVersion
  exchanges := []
  server := server

/-- The server gets a request and answers it. -/
def exchange (x : HttpSession ρ) (request : HttpRequest) : HttpResponse × HttpSession ρ :=
  let (response, server) := serve x.server request
  (response, { x with exchanges := x.exchanges ++ [⟨request, response⟩], server := server })

/-- `_post` -/
def post (x : HttpSession ρ) (message : Dict) :
    Except HttpExc (ℕ × Value × List (String × String)) × HttpSession ρ :=
  let (response, x) :=
    { x with client := x.client.post message }.exchange serve (.post ⟨x.client.headers, message⟩)
  (received loads response, x)

/-- The message of a request is posted, under the next id. -/
def call (x : HttpSession ρ) (q : Request) :
    Except HttpExc (ℕ × Value × List (String × String)) × HttpSession ρ :=
  let requestId := x.client.nextId
  { x with client := { x.client with nextId := requestId + 1 } }.post loads serve
    (q.message requestId)

/-- `_request` -/
def request (x : HttpSession ρ) (q : Request) : Except HttpExc Value × HttpSession ρ :=
  match x.call loads serve q with
  | (.error e, x) => (.error e, x)
  | (.ok (status, resp, _), x) => ((x.client.outcome (some (status, resp))).mapError .client, x)

/-- The request of `initialize`. -/
def initializeRequest (protocolVersion : String) : Request :=
  ⟨"initialize", some [("protocolVersion", .str protocolVersion), ("capabilities", .dict []),
    ("clientInfo", .dict [("name", .str "raw-http-client"), ("version", .str "0.1.0")])], none⟩

/-- The session that an answer to `initialize` issues, and its result. -/
def admitted (status : ℕ) (headers : List (String × String)) :
    Value → Except HttpExc (String × Value)
  | .dict resp =>
    if status ≠ 200 ∨ Dict.has resp "error" then
      .error (.client (.mcpError (.number status)
        (.str ("initialize failed (HTTP " ++ toString status ++ ")"))
        (Dict.get resp "error" .none)))
    else
      match headers.lookup "mcp-session-id" with
      | none => .error .noSession
      | some session =>
        if session = "" then .error .noSession
        else .ok (session, Dict.get resp "result" (.dict []))
  | _ => .error (.client (.mcpError (.number status)
      (.str ("initialize failed (HTTP " ++ toString status ++ ")")) .none))

/-- The notification of `initialize`. -/
def initialized : Dict :=
  [("jsonrpc", .str "2.0"), ("method", .str "notifications/initialized"), ("params", .dict [])]

/-- `initialize` -/
def initializeSession (x : HttpSession ρ) : Except HttpExc Value × HttpSession ρ :=
  match x.call loads serve (initializeRequest x.protocolVersion) with
  | (.error e, x) => (.error e, x)
  | (.ok (status, resp, headers), x) =>
    match admitted status headers resp with
    | .error e => (.error e, x)
    | .ok (session, result) =>
      let (reply, x) :=
        { x with client := { x.client with sessionId := some session } }.post loads serve
          initialized
      (reply.map fun _ => result, x)

/-- `list_tools` -/
def listTools (x : HttpSession ρ) : Except HttpExc Value × HttpSession ρ :=
  let (r, x) := x.request loads serve ⟨"tools/list", none, none⟩
  (r.bind fun result => (result.get "tools" (.list [])).mapError .client, x)

/-- `call_tool` -/
def callTool (x : HttpSession ρ) (name : String) (arguments : Dict) :
    Except HttpExc Value × HttpSession ρ :=
  x.request loads serve
    ⟨"tools/call", some [("name", .str name), ("arguments", .dict arguments)], none⟩

/-- `close`, where an `HTTPError` is as good as a response. -/
def close (x : HttpSession ρ) : Except HttpExc Value × HttpSession ρ :=
  match x.client.sessionId with
  | none => (.ok .none, x)
  | some session =>
    if session = "" then (.ok .none, x)
    else
      match x.exchange serve (.delete x.client.headers) with
      | (.urlError, x) => (.error (.client .urlError), x)
      | (_, x) => (.ok .none, x)

end HttpSession

/-- The methods of the client. -/
inductive Operation
  | initializeSession
  | listTools
  | callTool (name : String) (arguments : Dict)
  | close

/-- A method is called. -/
def HttpSession.perform (x : HttpSession ρ) :
    Operation → Except HttpExc Value × HttpSession ρ
  | .initializeSession => x.initializeSession loads serve
  | .listTools => x.listTools loads serve
  | .callTool name arguments => x.callTool loads serve name arguments
  | .close => x.close serve

/-- The session after calls whose exceptions are caught. -/
def HttpSession.after (x : HttpSession ρ) (operations : List Operation) : HttpSession ρ :=
  operations.foldl (fun x operation => (x.perform loads serve operation).2) x

end Client

/-! ## The protocol -/

/-- The method of a message. -/
def methodOf (message : Dict) : Option String :=
  match message.lookup "method" with
  | some (.str method) => some method
  | _ => none

namespace Exchange

variable (loads : String → Loaded)

/-- The session that the server issues: in an answer to `initialize` of status 200 that is no
error. -/
def issued (e : Exchange) : Option String :=
  match e.request, received loads e.response with
  | .post p, .ok (status, .dict resp, headers) =>
    if methodOf p.message = some "initialize" ∧ status = 200 ∧ ¬Dict.has resp "error" then
      (headers.lookup "mcp-session-id").filter (· ≠ "")
    else none
  | _, _ => none

/-- The notification that a session is initialized. -/
def IsInitialized (e : Exchange) : Prop :=
  match e.request with
  | .post p => methodOf p.message = some "notifications/initialized"
  | .delete _ => False

instance : DecidablePred IsInitialized
  | ⟨.post p, _⟩ => inferInstanceAs (Decidable (methodOf p.message = _))
  | ⟨.delete _, _⟩ => inferInstanceAs (Decidable False)

/-- Any other message. -/
def IsCall (e : Exchange) : Prop :=
  match e.request with
  | .post p => methodOf p.message ≠ some "notifications/initialized"
  | .delete _ => False

instance : DecidablePred IsCall
  | ⟨.post p, _⟩ => inferInstanceAs (Decidable (methodOf p.message ≠ _))
  | ⟨.delete _, _⟩ => inferInstanceAs (Decidable False)

/-- The message that is posted. -/
def message (e : Exchange) : Dict :=
  match e.request with
  | .post p => p.message
  | .delete _ => []

end Exchange

section Protocol

variable (loads : String → Loaded)

/-- The session of which the server told the client last. -/
def lastIssued (exchanges : List Exchange) : Option String :=
  (exchanges.filterMap (Exchange.issued loads)).getLast?

/-- The number of calls. -/
def calls (exchanges : List Exchange) : ℕ := exchanges.countP fun e => e.IsCall

/-- The protocol allows this exchange after the earlier ones. -/
structure Exchange.Follows (token : String) (earlier : List Exchange) (e : Exchange) : Prop where
  bearer : e.request.headers.lookup "Authorization" = some ("Bearer " ++ token)
  /-- It belongs to the session that was issued last. -/
  session : e.request.headers.lookup "Mcp-Session-Id" = lastIssued loads earlier
  /-- Calls are numbered 1, 2, 3, … -/
  numbered : e.IsCall → e.message.get "id" .none = .number (calls earlier + 1 : ℕ)
  /-- The notification stands after the answer that issues a session, and nothing else does. -/
  initialized : e.IsInitialized ↔ ∃ l f, earlier = l ++ [f] ∧ (f.issued loads).isSome
  /-- A session is deleted only if there is one. -/
  deleted : ∀ headers, e.request = .delete headers → (lastIssued loads earlier).isSome

/-- Every exchange follows the earlier ones. -/
def Conversation (token : String) (exchanges : List Exchange) : Prop :=
  ∀ earlier e later, exchanges = earlier ++ e :: later → e.Follows loads token earlier

variable {loads}

theorem lastIssued_append_none {l : List Exchange} {e : Exchange} (h : e.issued loads = none) :
    lastIssued loads (l ++ [e]) = lastIssued loads l := by
  rw [lastIssued, List.filterMap_append]
  simp [h, lastIssued]

theorem lastIssued_append_some {l : List Exchange} {e : Exchange} {session : String}
    (h : e.issued loads = some session) : lastIssued loads (l ++ [e]) = some session := by
  rw [lastIssued, List.filterMap_append]
  simp [h]

/-- No empty session is issued. -/
theorem issued_ne_empty {e : Exchange} {session : String} (h : e.issued loads = some session) :
    session ≠ "" := by
  unfold Exchange.issued at h
  split at h
  · split_ifs at h
    simpa using (Option.filter_eq_some_iff.1 h).2
  · cases h

theorem lastIssued_ne_empty {l : List Exchange} {session : String}
    (h : lastIssued loads l = some session) : session ≠ "" := by
  obtain ⟨e, -, he⟩ := List.mem_filterMap.1 (List.mem_of_getLast? h)
  exact issued_ne_empty he

theorem calls_append (l : List Exchange) (e : Exchange) :
    calls (l ++ [e]) = calls l + if e.IsCall then 1 else 0 := by
  rw [calls, List.countP_append, List.countP_singleton]
  simp [calls]

variable {token : String}

theorem conversation_nil : Conversation loads token [] := by
  intro earlier e later h
  simp at h

theorem Conversation.snoc {l : List Exchange} {e : Exchange} (h : Conversation loads token l)
    (he : e.Follows loads token l) : Conversation loads token (l ++ [e]) := by
  intro earlier f later hsplit
  rcases List.eq_nil_or_concat later with rfl | ⟨later, g, rfl⟩
  · obtain ⟨rfl, hef⟩ := List.append_inj' hsplit rfl
    obtain rfl := List.singleton_inj.1 hef
    exact he
  · have hcut : l ++ [e] = (earlier ++ f :: later) ++ [g] := by simpa using hsplit
    obtain ⟨rfl, -⟩ := List.append_inj' hcut rfl
    exact h earlier f later rfl

end Protocol

/-! ## The headers -/

theorem headers_authorization (c : HttpClient) :
    c.headers.lookup "Authorization" = some ("Bearer " ++ c.token) := by
  simp [HttpClient.headers]

theorem headers_session {c : HttpClient} (h : c.sessionId ≠ some "") :
    c.headers.lookup "Mcp-Session-Id" = c.sessionId := by
  unfold HttpClient.headers
  cases hs : c.sessionId with
  | none => simp [List.lookup_cons]
  | some session =>
    have hne : session ≠ "" := fun h' => h (by rw [hs, h'])
    simp [List.lookup_cons, hne]

/-! ## One call -/

section Calls

variable {ρ : Type} {loads : String → Loaded} {serve : ρ → HttpRequest → HttpResponse × ρ}
  {token : String}

/-- What the protocol says of a client between two calls: it knows the session that was issued last,
and has told the server. -/
structure HttpSession.Regular (loads : String → Loaded) (token : String) (x : HttpSession ρ) :
    Prop where
  bearer : x.client.token = token
  conversation : Conversation loads token x.exchanges
  session : x.client.sessionId = lastIssued loads x.exchanges
  nextId : x.client.nextId = calls x.exchanges + 1
  settled : ∀ l f, x.exchanges = l ++ [f] → f.issued loads = none

theorem methodOf_message (q : Request) (n : ℕ) : methodOf (q.message n) = some q.method := by
  simp [methodOf, Request.message, List.lookup_cons]

theorem get_id_message (q : Request) (n : ℕ) : (q.message n).get "id" .none = .number n := by
  simp [Request.message, Dict.get, List.lookup_cons]

/-- Only an answer to `initialize` issues a session. -/
theorem issued_of_post {e : Exchange} {p : Post} (hp : e.request = .post p)
    (hm : methodOf p.message ≠ some "initialize") : e.issued loads = none := by
  rw [Exchange.issued, hp]
  cases received loads e.response with
  | error err => rfl
  | ok reply =>
    obtain ⟨status, resp, headers⟩ := reply
    cases resp with
    | dict resp => exact if_neg fun h => hm h.1
    | _ => rfl

theorem issued_of_delete {e : Exchange} {headers : List (String × String)}
    (he : e.request = .delete headers) : e.issued loads = none := by
  rw [Exchange.issued, he]

variable (loads) in
/-- What the answer to `initialize` issues is what the client admits. -/
theorem issued_eq_admitted {e : Exchange} {p : Post} (hp : e.request = .post p)
    (hm : methodOf p.message = some "initialize") :
    e.issued loads = match received loads e.response with
      | .error _ => none
      | .ok (status, resp, headers) =>
        (HttpSession.admitted status headers resp).toOption.map Prod.fst := by
  rw [Exchange.issued, hp]
  cases received loads e.response with
  | error err => rfl
  | ok reply =>
    obtain ⟨status, resp, headers⟩ := reply
    cases resp with
    | dict resp =>
      simp only [HttpSession.admitted]
      by_cases hbad : status ≠ 200 ∨ Dict.has resp "error"
      · rw [if_pos hbad, if_neg fun h => hbad.elim (· h.2.1) h.2.2]
        rfl
      · rw [if_neg hbad, if_pos ⟨hm, by simpa using hbad⟩]
        cases headers.lookup "mcp-session-id" with
        | none => rfl
        | some session =>
          by_cases hempty : session = ""
          · simp [hempty, Option.filter, Except.toOption]
          · simp [hempty, Option.filter, Except.toOption]
    | _ => rfl

namespace HttpSession.Regular

variable {x : HttpSession ρ}

theorem ne_empty (h : x.Regular loads token) : x.client.sessionId ≠ some "" := by
  intro hs
  exact lastIssued_ne_empty (h.session.symm.trans hs) rfl

variable (serve) in
/-- A call numbers its message and follows the protocol. -/
theorem call (h : x.Regular loads token) {q : Request}
    (hq : q.method ≠ "notifications/initialized") :
    ∃ e x', x.call loads serve q = (received loads e.response, x') ∧
      e.request = .post ⟨x.client.headers, q.message x.client.nextId⟩ ∧ e.IsCall ∧
      e.Follows loads token x.exchanges ∧ x'.exchanges = x.exchanges ++ [e] ∧
      x'.client.token = token ∧ x'.client.sessionId = x.client.sessionId ∧
      x'.client.nextId = x.client.nextId + 1 := by
  let p : Post := ⟨x.client.headers, q.message x.client.nextId⟩
  let e : Exchange := ⟨.post p, (serve x.server (.post p)).1⟩
  have hmethod : methodOf p.message ≠ some "notifications/initialized" := by
    rw [methodOf_message]
    exact fun h => hq (Option.some.inj h)
  refine ⟨e, _, rfl, rfl, hmethod, ?_, rfl, h.bearer, rfl, rfl⟩
  constructor
  · rw [← h.bearer]
    exact headers_authorization x.client
  · rw [← h.session]
    exact headers_session h.ne_empty
  · intro _
    rw [← h.nextId]
    exact get_id_message q x.client.nextId
  · refine iff_of_false hmethod ?_
    rintro ⟨l, f, hl, hf⟩
    rw [h.settled l f hl] at hf
    cases hf
  · exact fun _ h => nomatch h

/-- A call that issues no session leaves the client regular. -/
theorem extend (h : x.Regular loads token) {e : Exchange} (hcall : e.IsCall)
    (hfollows : e.Follows loads token x.exchanges) (hissued : e.issued loads = none)
    {x' : HttpSession ρ} (hexchanges : x'.exchanges = x.exchanges ++ [e])
    (htoken : x'.client.token = token) (hsession : x'.client.sessionId = x.client.sessionId)
    (hnext : x'.client.nextId = x.client.nextId + 1) : x'.Regular loads token := by
  constructor
  · exact htoken
  · rw [hexchanges]
    exact h.conversation.snoc hfollows
  · rw [hsession, hexchanges, lastIssued_append_none hissued, h.session]
  · rw [hnext, hexchanges, calls_append, if_pos hcall, h.nextId]
  · intro l f hl
    rw [hexchanges] at hl
    obtain ⟨-, hef⟩ := List.append_inj' hl rfl
    rwa [← List.singleton_inj.1 hef]

theorem request (h : x.Regular loads token) {q : Request}
    (hq : q.method ≠ "notifications/initialized") (hinit : q.method ≠ "initialize") :
    (x.request loads serve q).2.Regular loads token := by
  obtain ⟨e, x', hrun, hpost, hcall, hfollows, hexchanges, htoken, hsession, hnext⟩ :=
    h.call serve hq
  have hissued : e.issued loads = none := issued_of_post hpost (by simpa [methodOf_message])
  have hregular := h.extend hcall hfollows hissued hexchanges htoken hsession hnext
  rw [HttpSession.request, hrun]
  cases received loads e.response with
  | error err => exact hregular
  | ok reply => exact hregular

theorem listTools (h : x.Regular loads token) :
    (x.listTools loads serve).2.Regular loads token :=
  h.request (q := ⟨"tools/list", none, none⟩) (by decide) (by decide)

theorem callTool (h : x.Regular loads token) (name : String) (arguments : Dict) :
    (x.callTool loads serve name arguments).2.Regular loads token :=
  h.request (q := ⟨"tools/call", some [("name", .str name), ("arguments", .dict arguments)], none⟩)
    (by simp) (by simp)

/-- The notification follows the answer that issued the session. -/
theorem notify (h : x.Regular loads token) {e : Exchange} (hcall : e.IsCall)
    (hfollows : e.Follows loads token x.exchanges) {session : String}
    (hissued : e.issued loads = some session) {x' : HttpSession ρ}
    (hexchanges : x'.exchanges = x.exchanges ++ [e]) (htoken : x'.client.token = token)
    (hsession : x'.client.sessionId = some session)
    (hnext : x'.client.nextId = x.client.nextId + 1) :
    (x'.post loads serve HttpSession.initialized).2.Regular loads token := by
  have hlast : lastIssued loads x'.exchanges = some session := by
    rw [hexchanges, lastIssued_append_some hissued]
  have hne : x'.client.sessionId ≠ some "" := by
    rw [hsession]
    exact fun h => issued_ne_empty hissued (Option.some.inj h)
  let p : Post := ⟨x'.client.headers, HttpSession.initialized⟩
  let f : Exchange := ⟨.post p, (serve x'.server (.post p)).1⟩
  have hmethod : methodOf p.message = some "notifications/initialized" := rfl
  have hfcall : ¬f.IsCall := fun hf => hf hmethod
  have hfissued : f.issued loads = none := issued_of_post rfl (by rw [hmethod]; decide)
  have hff : f.Follows loads token x'.exchanges := by
    constructor
    · rw [← htoken]
      exact headers_authorization x'.client
    · rw [hlast, ← hsession]
      exact headers_session hne
    · exact fun hf => absurd hf hfcall
    · exact iff_of_true hmethod ⟨x.exchanges, e, hexchanges, by rw [hissued]; rfl⟩
    · exact fun _ h => nomatch h
  have hconv : Conversation loads token x'.exchanges := by
    rw [hexchanges]
    exact h.conversation.snoc hfollows
  constructor
  · exact htoken
  · exact hconv.snoc hff
  · show x'.client.sessionId = lastIssued loads (x'.exchanges ++ [f])
    rw [lastIssued_append_none hfissued, hlast, hsession]
  · show x'.client.nextId = calls (x'.exchanges ++ [f]) + 1
    rw [calls_append, if_neg hfcall, hexchanges, calls_append, if_pos hcall, hnext, h.nextId]
  · intro l g hl
    obtain ⟨-, hfg⟩ := List.append_inj' hl rfl
    rwa [← List.singleton_inj.1 hfg]

theorem initializeSession (h : x.Regular loads token) :
    (x.initializeSession loads serve).2.Regular loads token := by
  obtain ⟨e, x', hrun, hpost, hcall, hfollows, hexchanges, htoken, hsession, hnext⟩ :=
    h.call serve (q := HttpSession.initializeRequest x.protocolVersion) (by
      simp [HttpSession.initializeRequest])
  have hadmit := issued_eq_admitted loads hpost (methodOf_message _ _)
  rw [HttpSession.initializeSession, hrun]
  cases hr : received loads e.response with
  | error err =>
    rw [hr] at hadmit
    exact h.extend hcall hfollows hadmit hexchanges htoken hsession hnext
  | ok reply =>
    obtain ⟨status, resp, headers⟩ := reply
    rw [hr] at hadmit
    simp only at hadmit ⊢
    cases ha : HttpSession.admitted status headers resp with
    | error err =>
      rw [ha] at hadmit
      exact h.extend hcall hfollows hadmit hexchanges htoken hsession hnext
    | ok admission =>
      rw [ha] at hadmit
      let x'' : HttpSession ρ :=
        { x' with client := { x'.client with sessionId := some admission.1 } }
      have hexchanges' : x''.exchanges = x.exchanges ++ [e] := hexchanges
      exact h.notify hcall hfollows hadmit hexchanges' htoken rfl hnext

theorem close (h : x.Regular loads token) : (x.close serve).2.Regular loads token := by
  unfold HttpSession.close
  cases hs : x.client.sessionId with
  | none => exact h
  | some session =>
    by_cases hempty : session = ""
    · simp only [if_pos hempty]
      exact h
    · simp only [if_neg hempty]
      let e : Exchange := ⟨.delete x.client.headers, (serve x.server (.delete x.client.headers)).1⟩
      have hissued : e.issued loads = none := issued_of_delete rfl
      have hcall : ¬e.IsCall := id
      have hfollows : e.Follows loads token x.exchanges := by
        constructor
        · rw [← h.bearer]
          exact headers_authorization x.client
        · rw [← h.session]
          exact headers_session h.ne_empty
        · exact fun he => absurd he hcall
        · refine iff_of_false id ?_
          rintro ⟨l, f, hl, hf⟩
          rw [h.settled l f hl] at hf
          cases hf
        · intro _ _
          rw [← h.session, hs]
          rfl
      have hregular : (x.exchange serve (.delete x.client.headers)).2.Regular loads token := by
        constructor
        · exact h.bearer
        · exact h.conversation.snoc hfollows
        · show x.client.sessionId = lastIssued loads (x.exchanges ++ [e])
          rw [lastIssued_append_none hissued, h.session]
        · show x.client.nextId = calls (x.exchanges ++ [e]) + 1
          rw [calls_append, if_neg hcall, h.nextId]
        · intro l f hl
          obtain ⟨-, hef⟩ := List.append_inj' hl rfl
          rwa [← List.singleton_inj.1 hef]
      revert hregular
      rcases x.exchange serve (.delete x.client.headers) with ⟨_ | _ | _, x'⟩ <;> exact id

theorem perform (h : x.Regular loads token) (operation : Operation) :
    (x.perform loads serve operation).2.Regular loads token := by
  cases operation with
  | initializeSession => exact h.initializeSession
  | listTools => exact h.listTools
  | callTool name arguments => exact h.callTool name arguments
  | close => exact h.close

theorem after (h : x.Regular loads token) (operations : List Operation) :
    (x.after loads serve operations).Regular loads token := by
  induction operations generalizing x with
  | nil => exact h
  | cons operation operations ih => exact ih (h.perform operation)

end HttpSession.Regular

theorem regular_started (url token protocolVersion : String) (server : ρ) :
    (HttpSession.started url token protocolVersion server).Regular loads token :=
  ⟨rfl, conversation_nil, rfl, rfl, by simp [HttpSession.started]⟩

/-- **What goes over the wire.** Whatever methods are called, in any order, whatever the server
answers and whichever calls raise: every request carries the token, and the session that the server
issued last; the messages are numbered 1, 2, 3, …; each answer that issues a session is followed by
one notification, and no session is deleted that was not issued. -/
theorem http_conversation (loads : String → Loaded) (serve : ρ → HttpRequest → HttpResponse × ρ)
    (url token protocolVersion : String) (server : ρ) (operations : List Operation) :
    Conversation loads token
        ((HttpSession.started url token protocolVersion server).after loads serve
          operations).exchanges ∧
      ∀ l f, ((HttpSession.started url token protocolVersion server).after loads serve
        operations).exchanges = l ++ [f] → f.issued loads = none :=
  have h := (regular_started url token protocolVersion server).after operations
  ⟨h.conversation, h.settled⟩

/-! ## What the server sees -/

/-- A request of a client with this token. -/
def HttpRequest.Bears (token : String) (r : HttpRequest) : Prop :=
  ∃ c : HttpClient, c.token = token ∧ r.headers = c.headers

/-- A client with this token, and a property of its server and of what was exchanged. -/
def HttpSession.Keeps (token : String) (P : List Exchange → ρ → Prop) (x : HttpSession ρ) : Prop :=
  x.client.token = token ∧ P x.exchanges x.server

/-- A server keeps the property when it answers a client with this token. -/
def Serves (serve : ρ → HttpRequest → HttpResponse × ρ) (token : String)
    (P : List Exchange → ρ → Prop) : Prop :=
  ∀ es s r, r.Bears token → P es s → P (es ++ [⟨r, (serve s r).1⟩]) (serve s r).2

variable {P : List Exchange → ρ → Prop}

namespace HttpSession.Keeps

variable {x : HttpSession ρ}

theorem exchange (h : x.Keeps token P) (hserve : Serves serve token P) {r : HttpRequest}
    (hr : r.headers = x.client.headers) : (x.exchange serve r).2.Keeps token P :=
  ⟨h.1, hserve _ _ _ ⟨x.client, h.1, hr⟩ h.2⟩

variable (loads) in
theorem post (h : x.Keeps token P) (hserve : Serves serve token P) (message : Dict) :
    (x.post loads serve message).2.Keeps token P :=
  exchange (x := { x with client := x.client.post message }) h hserve rfl

theorem request (h : x.Keeps token P) (hserve : Serves serve token P) (q : Request) :
    (x.request loads serve q).2.Keeps token P := by
  have hcall : (x.call loads serve q).2.Keeps token P :=
    post loads (x := { x with client := { x.client with nextId := x.client.nextId + 1 } }) h
      hserve _
  revert hcall
  unfold HttpSession.request
  rcases x.call loads serve q with ⟨_ | _, x'⟩ <;> exact id

theorem initializeSession (h : x.Keeps token P) (hserve : Serves serve token P) :
    (x.initializeSession loads serve).2.Keeps token P := by
  have hcall : (x.call loads serve (initializeRequest x.protocolVersion)).2.Keeps token P :=
    post loads (x := { x with client := { x.client with nextId := x.client.nextId + 1 } }) h
      hserve _
  revert hcall
  unfold HttpSession.initializeSession
  rcases x.call loads serve (initializeRequest x.protocolVersion) with
    ⟨_ | ⟨status, resp, headers⟩, x'⟩
  · exact id
  · intro hcall
    simp only
    cases admitted status headers resp with
    | error e => exact hcall
    | ok admission =>
      have hnew : HttpSession.Keeps token P
          { x' with client := { x'.client with sessionId := some admission.1 } } := hcall
      exact hnew.post loads hserve initialized

theorem close (h : x.Keeps token P) (hserve : Serves serve token P) :
    (x.close serve).2.Keeps token P := by
  have hdelete := h.exchange hserve (r := .delete x.client.headers) rfl
  revert hdelete
  unfold HttpSession.close
  cases x.client.sessionId with
  | none => exact fun _ => h
  | some session =>
    by_cases hempty : session = ""
    · simp only [if_pos hempty]
      exact fun _ => h
    · simp only [if_neg hempty]
      rcases x.exchange serve (.delete x.client.headers) with ⟨_ | _ | _, x'⟩ <;> exact id

/-- What every request of this client keeps is kept by its methods. -/
theorem after (h : x.Keeps token P) (hserve : Serves serve token P)
    (operations : List Operation) : (x.after loads serve operations).Keeps token P := by
  induction operations generalizing x with
  | nil => exact h
  | cons operation operations ih =>
    refine ih (x := (x.perform loads serve operation).2) ?_
    cases operation with
    | initializeSession => exact h.initializeSession hserve
    | listTools => exact h.request hserve _
    | callTool name arguments => exact h.request hserve _
    | close => exact h.close hserve

end HttpSession.Keeps

end Calls

end MemoryBridge.RawClient
