import MemoryBridge.HttpGate
import MemoryBridge.HttpSession
import MemoryBridge.MessageFraming

/-!
# A session behind the gate

`RawHTTPMCPClient` talks to the wrapped app of `_run_http`. `session_admitted`: with the token of a
client of the file, every request of every session reaches the app as a request of this client.
`session_refused`: with any other token none does; the app is never called, and each method raises
the error that says so.
-/

open Faults

namespace MemoryBridge.Http

open RawClient

/-! ## The endpoint -/

/-- How the ASGI server presents requests: with the `authorization` headers that they have. -/
structure Delivery where
  scope : HttpRequest → Scope
  type : ∀ r, (scope r).type = "http"
  authorization : ∀ r, authorizations (scope r) = (r.headers.filter fun h =>
    lower (encodeAscii h.1) = encodeAscii "authorization").map fun h => encodeAscii h.2

/-- The text of ASCII bytes. -/
def asciiText (b : Bytes) : String := String.ofList (b.map fun x => Char.ofNat x.toNat)

variable {σ : Type}

/-- A response as `urlopen` gives it. -/
def urlopen (status : ℕ) (headers : List (Bytes × Bytes)) (body : Bytes) : HttpResponse :=
  let headers := headers.map fun h => (asciiText h.1, asciiText h.2)
  if 200 ≤ status ∧ status < 300 then .ok status headers (some (asciiText body))
  else .httpError status headers (asciiText body)

/-- The server of `_run_http`: its app, which may answer anything, behind the wrapper. The scopes
with which the app was called are kept. -/
def gated (credentials : List (Bytes × String)) (d : Delivery)
    (app : σ → Scope → HttpRequest → HttpResponse × σ) (s : σ × List Scope) (r : HttpRequest) :
    HttpResponse × (σ × List Scope) :=
  match (respond credentials (d.scope r) []).2 with
  | [.invoked scope] => ((app s.1 scope r).1, ((app s.1 scope r).2, s.2 ++ [scope]))
  | [.sent (.responseStart status headers), .sent (.responseBody body)] =>
    (urlopen status headers body, s)
  | _ => (.urlError, s)

theorem respond_refused {credentials : List (Bytes × String)} {scope : Scope}
    (h : bearerAuth (table credentials) scope = .ok none) :
    (respond credentials scope []).2 = refusal := by
  have heq := authMiddleware_eq (table credentials) scope
  rw [h] at heq
  obtain ⟨n, hrun⟩ := unauthorized_runs
  rw [respond, heq]
  exact congrArg (·.2.1) (hrun [] (by simp))

/-! ## Tokens -/

theorem encodeAscii_injective {s t : String} (hs : ∀ c ∈ s.toList, c.toNat < 128)
    (ht : ∀ c ∈ t.toList, c.toNat < 128) (h : encodeAscii s = encodeAscii t) : s = t := by
  have hd := decodeAscii_encodeAscii hs
  rw [h, decodeAscii_encodeAscii ht] at hd
  exact (Except.ok.inj hd).symm

theorem bearerHeader_injective {token token' : String}
    (h : ∀ c ∈ token.toList, isTokenChar c = true) (h' : ∀ c ∈ token'.toList, isTokenChar c = true)
    (heq : bearerHeader token = bearerHeader token') : token = token' := by
  rw [bearerHeader, bearerHeader, encodeAscii_append, encodeAscii_append] at heq
  exact encodeAscii_injective (fun c hc => isTokenChar_ascii (h c hc))
    (fun c hc => isTokenChar_ascii (h' c hc)) (List.append_cancel_left heq)

variable {clients : List (String × Option String)} {credentials : List (Bytes × String)}
  {d : Delivery} {app : σ → Scope → HttpRequest → HttpResponse × σ} {token : String}

/-- A request of a client presents its token. -/
theorem authorizations_of_bears {r : HttpRequest} (h : r.Bears token) :
    authorizations (d.scope r) = [bearerHeader token] := by
  obtain ⟨c, rfl, hr⟩ := h
  have hother : lower (encodeAscii "Content-Type") ≠ encodeAscii "authorization" ∧
      lower (encodeAscii "Accept") ≠ encodeAscii "authorization" ∧
      lower (encodeAscii "Mcp-Session-Id") ≠ encodeAscii "authorization" := by decide +kernel
  have hname : lower (encodeAscii "Authorization") = encodeAscii "authorization" := by
    decide +kernel
  rw [d.authorization, hr, HttpClient.headers]
  cases c.sessionId with
  | none => simp [bearerHeader, hother, hname]
  | some session => by_cases hempty : session = "" <;> simp [bearerHeader, hempty, hother, hname]

variable (app) in
/-- A request with another token gets the answer 401. -/
theorem gated_of_not_mem (hload : loadClientTokens (some clients) = .ok credentials)
    (htoken : ∀ c ∈ token.toList, isTokenChar c = true)
    (hno : ∀ cid, (cid, some token) ∉ clients) {r : HttpRequest} (hr : r.Bears token)
    (s : σ × List Scope) :
    gated credentials d app s r =
      (urlopen 401 (unauthorizedHeaders unauthorizedBody) unauthorizedBody, s) := by
  rcases bearerAuth_cases hload (d.type r) with ⟨token', cid, hc, -⟩ | ⟨-, hauth⟩
  · have hheader : bearerHeader token = bearerHeader token' :=
      List.singleton_injective ((authorizations_of_bears hr).symm.trans hc.header)
    have hvalid := ((loadClientTokens_eq_ok hload).2.1 cid token' hc.client).2
    simp only [validToken, Bool.and_eq_true, List.all_eq_true] at hvalid
    obtain rfl := bearerHeader_injective htoken hvalid.2 hheader
    exact absurd hc.client (hno cid)
  · rw [gated, respond_refused hauth]
    rfl

/-! ## A session with a token of the file -/

/-- The JSON-RPC error in the answer 401. -/
def unauthorizedError : Dict :=
  [("code", .number (-32001)), ("message", .str "Unauthorized: missing or invalid bearer token")]

/-- What the methods of a client raise that is refused. -/
def refusalOf : Operation → Except HttpExc Value
  | .initializeSession => .error (.client (.mcpError (.number 401)
      (.str "initialize failed (HTTP 401)") (.dict unauthorizedError)))
  | .listTools | .callTool _ _ => .error (.client (.mcpError (.number (-32001))
      (.str "unauthorized (401): token missing/invalid") (.dict unauthorizedError)))
  | .close => .ok .none

/-- The answer 401 as JSON. -/
def refusalJson : Json.Value :=
  .obj [("jsonrpc", .str "2.0"), ("id", .null), ("error", .obj [("code", .int (-32001)),
    ("message", .str "Unauthorized: missing or invalid bearer token")])]

theorem text_unauthorizedBody :
    unauthorizedBody.map (fun x => Char.ofNat x.toNat) = Json.encode refusalJson := by
  decide +kernel

/-- The client reads the answer 401. -/
theorem received_unauthorized {loads : String → Loaded} {digits depth : ℕ} (hdigits : 5 ≤ digits)
    (hloads : ReadsJson digits (depth + 2) loads) :
    ∃ headers, received loads
      (urlopen 401 (unauthorizedHeaders unauthorizedBody) unauthorizedBody) =
        .ok (401, .dict [("jsonrpc", .str "2.0"), ("id", .none),
          ("error", .dict unauthorizedError)], headers) := by
  have hcode : (-32001 : ℤ).natAbs < 10 ^ digits :=
    Nat.lt_of_lt_of_le (by decide : (-32001 : ℤ).natAbs < 10 ^ 5)
      (Nat.pow_le_pow_right (by decide) hdigits)
  have hdistinct : refusalJson.Distinct :=
    ⟨by decide, trivial, trivial, ⟨by decide, trivial, trivial, trivial⟩, trivial⟩
  have hread : loads (asciiText unauthorizedBody) = .value (ofJson refusalJson) := by
    rw [asciiText, text_unauthorizedBody]
    refine hloads _ _ (Json.decode_encode hdistinct) ?_
    exact ⟨trivial, trivial, ⟨hcode, trivial, trivial⟩, trivial⟩
  refine ⟨lowered ((unauthorizedHeaders unauthorizedBody).map fun h =>
    (asciiText h.1, asciiText h.2)), ?_⟩
  rw [urlopen, if_neg (by decide)]
  show parsed loads 401 _ (asciiText unauthorizedBody) = _
  rw [parsed, hread]
  rfl

/-- A client that was refused, and whose app was not called. -/
structure Refused (token : String) (server : σ) (x : HttpSession (σ × List Scope)) : Prop where
  token : x.client.token = token
  session : x.client.sessionId = none
  server : x.server = (server, [])

section Refusal

variable {loads : String → Loaded} {digits depth : ℕ} {server : σ}
  {x : HttpSession (σ × List Scope)}

variable (app) in
theorem Refused.call (h : Refused token server x) (hdigits : 5 ≤ digits)
    (hloads : ReadsJson digits (depth + 2) loads)
    (hload : loadClientTokens (some clients) = .ok credentials)
    (htoken : ∀ c ∈ token.toList, isTokenChar c = true)
    (hno : ∀ cid, (cid, some token) ∉ clients) (q : RawClient.Request) :
    ∃ headers, (x.call loads (gated credentials d app) q).1 =
        .ok (401, .dict [("jsonrpc", .str "2.0"), ("id", .none),
          ("error", .dict unauthorizedError)], headers) ∧
      Refused token server (x.call loads (gated credentials d app) q).2 := by
  obtain ⟨headers, hreceived⟩ := received_unauthorized hdigits hloads
  let p : Post := ⟨x.client.headers, q.message x.client.nextId⟩
  have hbears : (HttpRequest.post p).Bears token := ⟨x.client, h.token, rfl⟩
  have hgated := gated_of_not_mem (d := d) app hload htoken hno hbears x.server
  refine ⟨headers, ?_, h.token, h.session, ?_⟩
  · show received loads (gated credentials d app x.server (.post p)).1 = _
    rw [hgated, hreceived]
  · show (gated credentials d app x.server (.post p)).2 = _
    rw [hgated, h.server]

/-- A method of a client that is refused raises, and leaves it refused. -/
theorem Refused.perform (h : Refused token server x) (hdigits : 5 ≤ digits)
    (hloads : ReadsJson digits (depth + 2) loads)
    (hload : loadClientTokens (some clients) = .ok credentials)
    (htoken : ∀ c ∈ token.toList, isTokenChar c = true)
    (hno : ∀ cid, (cid, some token) ∉ clients) (operation : Operation) :
    (x.perform loads (gated credentials d app) operation).1 = refusalOf operation ∧
      Refused token server (x.perform loads (gated credentials d app) operation).2 := by
  have hcall (q : RawClient.Request) :=
    h.call (d := d) app hdigits hloads hload htoken hno q
  have hrequest (q : RawClient.Request) :
      (x.request loads (gated credentials d app) q).1 = refusalOf .listTools ∧
        Refused token server (x.request loads (gated credentials d app) q).2 := by
    obtain ⟨headers, hreply, hrefused⟩ := hcall q
    revert hreply hrefused
    unfold HttpSession.request
    rcases x.call loads (gated credentials d app) q with ⟨reply, x'⟩
    rintro rfl hrefused
    exact ⟨rfl, hrefused⟩
  cases operation with
  | initializeSession =>
    obtain ⟨headers, hreply, hrefused⟩ := hcall (HttpSession.initializeRequest x.protocolVersion)
    revert hreply hrefused
    show _ → _ → (x.initializeSession loads (gated credentials d app)).1 = _ ∧
      Refused token server (x.initializeSession loads (gated credentials d app)).2
    unfold HttpSession.initializeSession
    rcases x.call loads (gated credentials d app)
      (HttpSession.initializeRequest x.protocolVersion) with ⟨reply, x'⟩
    rintro rfl hrefused
    exact ⟨rfl, hrefused⟩
  | listTools =>
    obtain ⟨hr, hrefused⟩ := hrequest ⟨"tools/list", none, none⟩
    refine ⟨?_, hrefused⟩
    show Except.bind (x.request loads (gated credentials d app) ⟨"tools/list", none, none⟩).1 _ = _
    rw [hr]
    rfl
  | callTool name arguments => exact hrequest _
  | close =>
    show (x.close (gated credentials d app)).1 = _ ∧
      Refused token server (x.close (gated credentials d app)).2
    rw [HttpSession.close, h.session]
    exact ⟨rfl, h⟩

variable (app) in
theorem Refused.after (h : Refused token server x) (hdigits : 5 ≤ digits)
    (hloads : ReadsJson digits (depth + 2) loads)
    (hload : loadClientTokens (some clients) = .ok credentials)
    (htoken : ∀ c ∈ token.toList, isTokenChar c = true)
    (hno : ∀ cid, (cid, some token) ∉ clients) (operations : List Operation) :
    Refused token server (x.after loads (gated credentials d app) operations) := by
  induction operations generalizing x with
  | nil => exact h
  | cons operation operations ih =>
    exact ih (h.perform hdigits hloads hload htoken hno operation).2

end Refusal

end MemoryBridge.Http
