import MemoryBridge.RawClient

/-!
# The list of tools, over both transports (`list_tools`)

A server that pages its tools answers `tools/list` with a page and a cursor for the next one.
`RawMCPClient` follows the cursors, `RawHTTPMCPClient` makes one request. Both are run here against
the same server: whatever else it writes while a request waits, the first client returns all pages
in their order and asks for each one once (`listTools_stdio`). `list_tools_agree_iff` says for which
servers the second one does.
-/

namespace MemoryBridge.RawClient

/-! ## Values -/

/-- `bool(v)` -/
def Value.truthy : Value → Bool
  | none => false
  | bool b => b
  | number q => q ≠ 0
  | str s => s ≠ ""
  | list l => !l.isEmpty
  | dict d => !d.isEmpty

/-- `v.get(k, default)` -/
def Value.get (v : Value) (k : String) (default : Value) : Except Exc Value :=
  match v with
  | dict d => .ok (Dict.get d k default)
  | _ => .error .attributeError

/-- `tools.extend(v)` -/
def extend (tools : List Value) : Value → Except Exc (List Value)
  | .list l => .ok (tools ++ l)
  | .dict d => .ok (tools ++ d.map fun kv => .str kv.1)
  | .str s => .ok (tools ++ s.toList.map fun c => .str c.toString)
  | .none | .bool _ | .number _ => .error .typeError

/-! ## A server -/

/-- The params of a request message. -/
def paramsOf (message : Dict) : Dict :=
  match message.get "params" .none with
  | .dict d => d
  | _ => []

/-- The response with this result. -/
def response (id : Value) (result : Dict) : Dict :=
  [("jsonrpc", .str "2.0"), ("id", id), ("result", .dict result)]

/-- A server that answers `tools/list`, with states of type `ρ`. -/
structure ToolServer (ρ : Type) where
  /-- The page for these params. -/
  page : ρ → Dict → Dict
  next : ρ → Dict → ρ
  /-- What it writes over stdio between a request and its response. -/
  traffic : ρ → Dict → List Dict
  passed : ∀ s q n, ∀ m ∈ traffic s (Request.message q n), WellFormed m ∧ ¬HasId n m

namespace ToolServer

variable {ρ : Type} (srv : ToolServer ρ)

/-- Its response to a request message. -/
def answer (s : ρ) (message : Dict) : Dict :=
  response (message.get "id" .none) (srv.page s (paramsOf message))

/-- What it writes over stdio for a request message. -/
def written (s : ρ) (message : Dict) : List Reception :=
  (srv.traffic s message ++ [srv.answer s message]).map .line

end ToolServer

/-! ## `RawMCPClient.list_tools` -/

section Stdio

variable {ρ : Type} (srv : ToolServer ρ)

/-- A request to a server that runs: what it writes in answer is read after what is in the queue. -/
def Client.exchange (c : Client) (q : Request) (s : ρ) : Except Exc Value × Client × ρ :=
  if c.stdin.headD true then
    let message := q.message c.nextId
    let (r, c') := { c with stdout := c.stdout ++ srv.written s message }.request q
    (r, c', srv.next s (paramsOf message))
  else
    let (r, c') := c.request q
    (r, c', s)

/-- `{"cursor": cursor} if cursor else {}` -/
def cursorParams (cursor : Value) : Dict := if cursor.truthy then [("cursor", cursor)] else []

/-- The loop of `list_tools`, for at most so many requests. -/
def Client.listLoop :
    ℕ → List Value → Value → Client → ρ → Option (Except Exc (List Value) × Client × ρ)
  | 0, _, _, _, _ => none
  | fuel + 1, tools, cursor, c, s =>
    let (r, c, s) := c.exchange srv ⟨"tools/list", some (cursorParams cursor), none⟩ s
    let page : Except Exc (List Value × Value) := do
      let result ← r
      let more ← result.get "tools" (.list [])
      let tools ← extend tools more
      let cursor ← result.get "nextCursor" .none
      pure (tools, cursor)
    match page with
    | .error e => some (.error e, c, s)
    | .ok (tools, cursor) =>
      if ¬cursor.truthy then some (.ok tools, c, s) else listLoop fuel tools cursor c s

/-- `list_tools` -/
def Client.listTools (fuel : ℕ) (c : Client) (s : ρ) :
    Option (Except Exc (List Value) × Client × ρ) :=
  c.listLoop srv fuel [] .none s

end Stdio

/-! ## `RawHTTPMCPClient` -/

/-- A POST: its headers and the message in its body. -/
structure Post where
  headers : List (String × String)
  message : Dict

structure HttpClient where
  url : String
  token : String
  sessionId : Option String
  /-- What `_id_counter` gives next. -/
  nextId : ℕ
  posted : List Post

namespace HttpClient

/-- `_headers` -/
def headers (c : HttpClient) : List (String × String) :=
  [("Authorization", "Bearer " ++ c.token), ("Content-Type", "application/json"),
      ("Accept", "application/json")] ++
    match c.sessionId with
    | some id => if id ≠ "" then [("Mcp-Session-Id", id)] else []
    | none => []

/-- `_post`: the client after it, and the message that the endpoint gets. -/
def post (c : HttpClient) (message : Dict) : HttpClient :=
  { c with posted := c.posted ++ [⟨c.headers, message⟩] }

/-- `_request`, after `_post` has returned a status and a body, parsed or as text. -/
def outcome (c : HttpClient) : Option (ℕ × Value) → Except Exc Value
  | none => .error .urlError
  | some (status, .dict resp) =>
    if status = 401 then
      .error (.mcpError (.number (-32001)) (.str "unauthorized (401): token missing/invalid")
        (Dict.get resp "error" .none))
    else if 400 ≤ status then .error (.connectionError (.httpStatus status c.url (.dict resp)))
    else if Dict.has resp "error" then .error (mcpError resp)
    else .ok (Dict.get resp "result" (.dict []))
  | some (status, resp) => .error (.connectionError (.nonJson status c.url resp))

variable {ρ : Type}

/-- `_request`, to an endpoint that answers messages. -/
def request (endpoint : ρ → Dict → Option (ℕ × Value) × ρ) (c : HttpClient) (q : Request) (s : ρ) :
    Except Exc Value × HttpClient × ρ :=
  let message := q.message c.nextId
  let c' := { c with nextId := c.nextId + 1 }.post message
  let (reply, s') := endpoint s message
  (c'.outcome reply, c', s')

/-- `list_tools` -/
def listTools (endpoint : ρ → Dict → Option (ℕ × Value) × ρ) (c : HttpClient) (s : ρ) :
    Except Exc Value × HttpClient × ρ :=
  let (r, c, s) := c.request endpoint ⟨"tools/list", none, none⟩ s
  (r >>= fun result => result.get "tools" (.list []), c, s)

end HttpClient

/-- The server behind an HTTP endpoint. -/
def ToolServer.endpoint {ρ : Type} (srv : ToolServer ρ) (s : ρ) (message : Dict) :
    Option (ℕ × Value) × ρ :=
  (some (200, .dict (srv.answer s message)), srv.next s (paramsOf message))

/-! ## Chains of pages -/

/-- A page: the params that ask for it, and its tools. -/
structure Page where
  params : Dict
  tools : List Value

section Listing

variable {ρ : Type} {srv : ToolServer ρ}

/-- From state `s` on, the answers to `params`, and to each cursor that an answer gives, are a
finite chain of pages. -/
inductive Chain (srv : ToolServer ρ) : ρ → Dict → List Page → Prop
  | last {s : ρ} {params : Dict} {tools : List Value} :
      (srv.page s params).get "tools" (.list []) = .list tools →
      ((srv.page s params).get "nextCursor" .none).truthy = false →
      Chain srv s params [⟨params, tools⟩]
  | link {s : ρ} {params : Dict} {tools : List Value} {cursor : Value} {pages : List Page} :
      (srv.page s params).get "tools" (.list []) = .list tools →
      (srv.page s params).get "nextCursor" .none = cursor → cursor.truthy = true →
      Chain srv (srv.next s params) [("cursor", cursor)] pages →
      Chain srv s params (⟨params, tools⟩ :: pages)

/-- The requests for the pages, in order, from the id `n` on. -/
def listRequests : ℕ → List Page → List Dict
  | _, [] => []
  | n, page :: pages =>
    Request.message ⟨"tools/list", some page.params, none⟩ n :: listRequests (n + 1) pages

@[simp] theorem listRequests_length (n : ℕ) (pages : List Page) :
    (listRequests n pages).length = pages.length := by
  induction pages generalizing n with
  | nil => rfl
  | cons page pages ih => simp [listRequests, ih]

/-- The messages that are requests. -/
def requestsOf (messages : List Dict) : List Dict := messages.filter (·.has "method")

/-- A listing is complete: it returned the tools of all pages, in order, after it asked for each
page once, with the cursor of the page before. -/
structure Complete (pages : List Page) (firstId : ℕ) (r : Except Exc Value)
    (before after : List Dict) : Prop where
  tools : r = .ok (.list (pages.flatMap Page.tools))
  requests : requestsOf after = requestsOf before ++ listRequests firstId pages

/-! ## Over stdio -/

/-- The writes of the client go through, and nothing in its queue carries its next id. The queue
accepts its timeout. -/
structure Client.Attached (c : Client) : Prop where
  timeout : ¬c.defaultTimeout < 0
  stdin : ∀ b ∈ c.stdin, b = true
  stdout : ∃ seen : List Dict, c.stdout = seen.map .line ∧
    ∀ m ∈ seen, WellFormed m ∧ ¬HasId c.nextId m

theorem headD_of_stdin {c : Client} (h : ∀ b ∈ c.stdin, b = true) : c.stdin.headD true = true := by
  cases hs : c.stdin with
  | nil => rfl
  | cons b l => exact h b (by simp [hs])

/-- Messages that do not carry its id are passed over by the wait. -/
theorem await_passOver {n : ℕ} {timeout : ℚ} {seen : List Dict} {tail : List Reception}
    {c : Client} (ht : ¬timeout < 0) (hstdin : ∀ b ∈ c.stdin, b = true)
    (hseen : ∀ m ∈ seen, WellFormed m ∧ ¬HasId n m) :
    await n timeout (seen.map .line ++ tail) c = await n timeout tail (c.passOver seen) := by
  induction seen generalizing c with
  | nil => rw [passOver_nil]; rfl
  | cons m seen ih =>
    obtain ⟨hwf, hid⟩ := hseen m (by simp)
    have hp : PassedOver n c m := ⟨fun _ => hid, fun _ => headD_of_stdin hstdin⟩
    have hstdin' : ∀ b ∈ (c.passOver [m]).stdin, b = true :=
      fun b hb => hstdin b (List.mem_of_mem_drop hb)
    rw [List.map_cons, List.cons_append, hp.await ht hwf,
      ih hstdin' fun m' hm' => hseen m' (List.mem_cons_of_mem _ hm'), ← passOver_cons]

theorem wellFormed_response (n : ℕ) (result : Dict) : WellFormed (response (.number n) result) := by
  constructor <;> simp [response, Dict.has, List.lookup_cons]

theorem paramsOf_message (q : Request) (n : ℕ) : paramsOf (q.message n) = q.params.getD [] := by
  simp [paramsOf, Request.message, Dict.get, List.lookup_cons]

theorem id_message (q : Request) (n : ℕ) : (q.message n).get "id" .none = .number n := by
  simp [Request.message, Dict.get, List.lookup_cons]

theorem requestsOf_append (l l' : List Dict) :
    requestsOf (l ++ l') = requestsOf l ++ requestsOf l' := List.filter_append l l'

theorem requestsOf_message (q : Request) (n : ℕ) :
    requestsOf [q.message n] = [q.message n] := by
  simp [requestsOf, Request.message, Dict.has, List.lookup_cons]

/-- What is written while a client passes messages over are no requests. -/
theorem requestsOf_replies (seen : List Dict) : requestsOf (seen.map methodNotFound) = [] := by
  simp [requestsOf, methodNotFound, Dict.has]

/-- A request whose response is the last message in the queue. -/
theorem request_of_response {c : Client} {q : Request} {seen : List Dict} {result : Dict}
    (ht : ¬q.timeout.getD c.defaultTimeout < 0) (hstdin : ∀ b ∈ c.stdin, b = true)
    (hseen : ∀ m ∈ seen, WellFormed m ∧ ¬HasId c.nextId m)
    (hqueue : c.stdout = seen.map .line ++ [.line (response (.number c.nextId) result)]) :
    c.request q =
      (.ok (.dict result), { (c.requested q).passOver seen with stdout := [] }) := by
  have hresp : HasId c.nextId (response (.number c.nextId) result) := by
    simp [HasId, response, Dict.get, List.lookup_cons, Value.IsInt]
  have hid : (response (.number c.nextId) result).has "id" := by
    simp [response, Dict.has, List.lookup_cons]
  have hstdin' : ∀ b ∈ (c.requested q).stdin, b = true :=
    fun b hb => hstdin b (List.mem_of_mem_tail hb)
  rw [request_eq, if_pos (headD_of_stdin hstdin), hqueue, await_passOver ht hstdin' hseen,
    await_of_hasId ht (wellFormed_response _ _) hid hresp]
  simp [response, Dict.has, Dict.get, List.lookup_cons]

/-- **One exchange.** The client gets the page that the server has for its params. -/
theorem Client.Attached.exchange {c : Client} (hc : c.Attached) (q : Request)
    (ht : ¬q.timeout.getD c.defaultTimeout < 0) (s : ρ) :
    ∃ c', c.exchange srv q s =
        (.ok (.dict (srv.page s (q.params.getD []))), c', srv.next s (q.params.getD [])) ∧
      c'.Attached ∧ c'.nextId = c.nextId + 1 ∧
      requestsOf c'.sent = requestsOf c.sent ++ [q.message c.nextId] := by
  obtain ⟨stale, hstale, hstaleId⟩ := hc.stdout
  have hseen : ∀ m ∈ stale ++ srv.traffic s (q.message c.nextId),
      WellFormed m ∧ ¬HasId c.nextId m := by
    intro m hm
    rcases List.mem_append.1 hm with hm | hm
    · exact hstaleId m hm
    · exact srv.passed s q c.nextId m hm
  have hqueue : c.stdout ++ srv.written s (q.message c.nextId) =
      (stale ++ srv.traffic s (q.message c.nextId)).map .line ++
        [.line (response (.number c.nextId) (srv.page s (q.params.getD [])))] := by
    rw [hstale, ToolServer.written, ToolServer.answer, id_message, paramsOf_message]
    simp
  have hrequest := @request_of_response
    { c with stdout := c.stdout ++ srv.written s (q.message c.nextId) } q _ _ ht hc.stdin hseen
    hqueue
  have hreplies (seen : List Dict) :
      requestsOf (c.sent ++ [q.message c.nextId] ++ (serverRequests seen).map methodNotFound) =
        requestsOf c.sent ++ [q.message c.nextId] := by
    rw [requestsOf_append, requestsOf_append, requestsOf_replies, requestsOf_message,
      List.append_nil]
  refine ⟨(({ c with stdout := c.stdout ++ srv.written s (q.message c.nextId) } :
    Client).request q).2, ?_, ?_⟩
  · rw [Client.exchange, if_pos (headD_of_stdin hc.stdin)]
    simp only [hrequest, paramsOf_message]
  · rw [hrequest]
    exact ⟨⟨hc.timeout, fun b hb => hc.stdin b (List.mem_of_mem_tail (List.mem_of_mem_drop hb)),
      [], rfl,
      by simp⟩, rfl, hreplies _⟩

theorem cursorParams_of_truthy {cursor : Value} (h : cursor.truthy = true) :
    cursorParams cursor = [("cursor", cursor)] := if_pos h

/-- **One page.** The loop adds the tools of the page that it asked for, and ends or goes on with
the cursor of that page. -/
theorem Client.Attached.listLoop_succ {c : Client} (hc : c.Attached) (fuel : ℕ)
    (tools more : List Value) (cursor : Value) (s : ρ)
    (hmore : (srv.page s (cursorParams cursor)).get "tools" (.list []) = .list more) :
    ∃ c', c'.Attached ∧ c'.nextId = c.nextId + 1 ∧
      requestsOf c'.sent = requestsOf c.sent ++
        [Request.message ⟨"tools/list", some (cursorParams cursor), none⟩ c.nextId] ∧
      c.listLoop srv (fuel + 1) tools cursor s =
        (let cursor' := (srv.page s (cursorParams cursor)).get "nextCursor" .none
        if ¬cursor'.truthy then
          some (.ok (tools ++ more), c', srv.next s (cursorParams cursor))
        else
          c'.listLoop srv fuel (tools ++ more) cursor' (srv.next s (cursorParams cursor))) := by
  obtain ⟨c', hex, hc', hid, hsent⟩ := @Client.Attached.exchange ρ srv c hc
    ⟨"tools/list", some (cursorParams cursor), none⟩ hc.timeout s
  refine ⟨c', hc', hid, hsent, ?_⟩
  rw [Client.listLoop, hex]
  simp only [Option.getD_some, bind, Except.bind, Value.get, hmore, extend, pure, Except.pure]

/-- The loop collects the pages of a chain. -/
theorem Chain.listLoop {s : ρ} {params : Dict} {pages : List Page} (h : Chain srv s params pages)
    {c : Client} (hc : c.Attached) {cursor : Value} (hcursor : cursorParams cursor = params)
    (tools : List Value) {fuel : ℕ} (hfuel : pages.length ≤ fuel) :
    ∃ c' s', c.listLoop srv fuel tools cursor s =
        some (.ok (tools ++ pages.flatMap Page.tools), c', s') ∧
      requestsOf c'.sent = requestsOf c.sent ++ listRequests c.nextId pages := by
  induction h generalizing c cursor tools fuel with
  | @last s params more hmore hend =>
    obtain ⟨fuel, rfl⟩ : ∃ k, fuel = k + 1 := ⟨fuel - 1, by simp at hfuel; omega⟩
    subst hcursor
    obtain ⟨c', -, -, hsent, hloop⟩ := hc.listLoop_succ fuel tools more cursor s hmore
    refine ⟨c', srv.next s (cursorParams cursor), ?_, hsent⟩
    rw [hloop]
    simp [hend]
  | @link s params more cursor' pages hmore hnext htruthy _ ih =>
    obtain ⟨fuel, rfl⟩ : ∃ k, fuel = k + 1 := ⟨fuel - 1, by simp at hfuel; omega⟩
    subst hcursor
    obtain ⟨c₁, hc₁, hid, hsent, hloop⟩ := hc.listLoop_succ fuel tools more cursor s hmore
    have hlen : pages.length ≤ fuel := by simpa using hfuel
    obtain ⟨c', s', hrest, hrequests⟩ :=
      ih hc₁ (cursorParams_of_truthy htruthy) (tools ++ more) hlen
    refine ⟨c', s', ?_, ?_⟩
    · rw [hloop, hnext]
      simp [htruthy, hrest]
    · rw [hrequests, hsent, hid, listRequests, List.append_assoc]
      rfl

/-- **`RawMCPClient.list_tools` is complete**, for every chain of pages. -/
theorem Chain.listTools {s : ρ} {pages : List Page} (h : Chain srv s [] pages) {c : Client}
    (hc : c.Attached) {fuel : ℕ} (hfuel : pages.length ≤ fuel) :
    ∃ r c' s', c.listTools srv fuel s = some (r, c', s') ∧
      Complete pages c.nextId (r.map .list) c.sent c'.sent := by
  have hfirst : cursorParams .none = [] := rfl
  obtain ⟨c', s', hloop, hsent⟩ := h.listLoop hc hfirst [] hfuel
  exact ⟨_, c', s', hloop, rfl, hsent⟩

/-! ## Over HTTP -/

theorem Chain.head {s : ρ} {params : Dict} {pages : List Page} (h : Chain srv s params pages) :
    ∃ tools rest, pages = ⟨params, tools⟩ :: rest ∧
      (srv.page s params).get "tools" (.list []) = .list tools := by
  cases h with
  | last hmore => exact ⟨_, _, rfl, hmore⟩
  | link hmore => exact ⟨_, _, rfl, hmore⟩

/-- The second client gets the first page, with one request. -/
theorem Chain.listTools_http {s : ρ} {pages : List Page} (h : Chain srv s [] pages)
    (c : HttpClient) : ∃ tools rest, pages = ⟨[], tools⟩ :: rest ∧
      (c.listTools srv.endpoint s).1 = .ok (.list tools) ∧
      (c.listTools srv.endpoint s).2.1.posted.map Post.message =
        c.posted.map Post.message ++ [Request.message ⟨"tools/list", none, none⟩ c.nextId] := by
  obtain ⟨tools, rest, hpages, hmore⟩ := h.head
  refine ⟨tools, rest, hpages, ?_, ?_⟩
  · have hreply (c' : HttpClient) (id : Value) :
        c'.outcome (some (200, .dict (response id (srv.page s [])))) =
          .ok (.dict (srv.page s [])) := by
      simp [HttpClient.outcome, response, Dict.has, Dict.get, List.lookup_cons]
    rw [HttpClient.listTools, HttpClient.request, ToolServer.endpoint, ToolServer.answer,
      paramsOf_message]
    simp only [Option.getD_none, hreply]
    show Value.get (.dict (srv.page s [])) "tools" (.list []) = _
    rw [Value.get, hmore]
  · simp [HttpClient.listTools, HttpClient.request, HttpClient.post]

/-- **When both clients list the same tools.** For every server whose pages form a chain,
`RawMCPClient.list_tools` is complete. `RawHTTPMCPClient.list_tools` is exactly if the chain has one
page. -/
theorem list_tools_agree_iff {s : ρ} {pages : List Page} (hchain : Chain srv s [] pages)
    {c : Client} (hc : c.Attached) (http : HttpClient) :
    (∀ fuel, pages.length ≤ fuel → ∃ r c' s', c.listTools srv fuel s = some (r, c', s') ∧
      Complete pages c.nextId (r.map .list) c.sent c'.sent) ∧
    (Complete pages http.nextId (http.listTools srv.endpoint s).1 (http.posted.map Post.message)
        ((http.listTools srv.endpoint s).2.1.posted.map Post.message) ↔ pages.length = 1) := by
  refine ⟨fun fuel hfuel => hchain.listTools hc hfuel, ?_⟩
  obtain ⟨tools, rest, rfl, htools, hposted⟩ := hchain.listTools_http http
  constructor
  · intro h
    -- one request was posted, and one is due for each page
    have hrequests := h.requests
    rw [hposted, requestsOf_append, requestsOf_message] at hrequests
    simpa using (congrArg List.length (List.append_cancel_left hrequests)).symm
  · intro hone
    obtain rfl : rest = [] := by simpa using hone
    refine ⟨by rw [htools]; simp, ?_⟩
    rw [hposted, requestsOf_append, requestsOf_message]
    rfl

end Listing

/-! ## Two tools -/

/-- `{"name": name}` -/
def namedTool (name : String) : Value := .dict [("name", .str name)]

/-- A server that lists `echo`, and `add` on another page if it gives a cursor for it. Before each
response it writes a notification. -/
def echoServer (cursor : Value) : ToolServer Unit where
  page _ params :=
    if params.has "cursor" then [("tools", .list [namedTool "add"])]
    else [("tools", .list [namedTool "echo"]), ("nextCursor", cursor)]
  next _ _ := ()
  traffic _ _ := [notification "notifications/message"]
  passed _ _ _ m hm := by
    obtain rfl := List.mem_singleton.1 hm
    exact ⟨wellFormed_notification _, by simp [HasId, notification, Dict.get, List.lookup_cons,
      Value.IsInt]⟩

/-- An HTTP client in a session. -/
def sessionClient : HttpClient := ⟨"http://localhost:8000/mcp", "token", some "session", 2, []⟩

theorem started_attached : (Client.started 45 [] []).Attached :=
  ⟨by decide, by simp [Client.started], [], rfl, by simp⟩

/-- With one page both clients list all tools. -/
theorem list_tools_agree_iff_sample :
    (∃ r c' s', (Client.started 45 [] []).listTools (echoServer .none) 1 () = some (r, c', s') ∧
      Complete [⟨[], [namedTool "echo"]⟩] 1 (r.map .list) [] c'.sent) ∧
    Complete [⟨[], [namedTool "echo"]⟩] 2
      (sessionClient.listTools (echoServer .none).endpoint ()).1 []
      ((sessionClient.listTools (echoServer .none).endpoint ()).2.1.posted.map Post.message) := by
  have hchain : Chain (echoServer .none) () [] [⟨[], [namedTool "echo"]⟩] := .last rfl rfl
  obtain ⟨hstdio, hhttp⟩ := list_tools_agree_iff hchain started_attached sessionClient
  exact ⟨hstdio 1 le_rfl, hhttp.2 rfl⟩

/-- **A page that is not asked for.** The server has two pages. The HTTP client returns the first
one. -/
theorem second_page_not_listed :
    Chain (echoServer (.str "2")) () []
        [⟨[], [namedTool "echo"]⟩, ⟨[("cursor", .str "2")], [namedTool "add"]⟩] ∧
      ((Client.started 45 [] []).listTools (echoServer (.str "2")) 2 ()).map Prod.fst =
        some (.ok [namedTool "echo", namedTool "add"]) ∧
      (sessionClient.listTools (echoServer (.str "2")).endpoint ()).1 =
        .ok (.list [namedTool "echo"]) ∧
      ¬Complete [⟨[], [namedTool "echo"]⟩, ⟨[("cursor", .str "2")], [namedTool "add"]⟩] 2
        (sessionClient.listTools (echoServer (.str "2")).endpoint ()).1 []
        ((sessionClient.listTools (echoServer (.str "2")).endpoint ()).2.1.posted.map
          Post.message) := by
  have hchain : Chain (echoServer (.str "2")) () []
      [⟨[], [namedTool "echo"]⟩, ⟨[("cursor", .str "2")], [namedTool "add"]⟩] :=
    .link rfl rfl rfl (.last rfl rfl)
  obtain ⟨tools, rest, hpages, hhttp, -⟩ := hchain.listTools_http sessionClient
  obtain rfl : [namedTool "echo"] = tools := congrArg Page.tools (List.cons.inj hpages).1
  refine ⟨hchain, ?_, hhttp, fun hall => ?_⟩
  · obtain ⟨r, c', s', hrun, hstdio⟩ := hchain.listTools started_attached le_rfl
    rw [show 2 = [(⟨[], [namedTool "echo"]⟩ : Page),
      ⟨[("cursor", .str "2")], [namedTool "add"]⟩].length from rfl, hrun]
    cases r with
    | error e => cases hstdio.tools
    | ok l =>
      have hl : Value.list l = .list [namedTool "echo", namedTool "add"] :=
        Except.ok.inj hstdio.tools
      rw [Value.list.inj hl]
      rfl
  · have htools := hall.tools
    rw [hhttp] at htools
    have hlist := Value.list.inj (Except.ok.inj htools)
    simp at hlist

end MemoryBridge.RawClient
