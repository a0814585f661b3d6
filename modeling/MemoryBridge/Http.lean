import MemoryBridge.Foundations.Faults
import MemoryBridge.Server

/-!
# HTTP requests with per-client credentials (`_load_client_tokens`, `_bearer_auth_asgi`)

A client file maps client ids to bearer tokens. The wrapper of the ASGI app compares the one
`authorization` header of a request with the credentials of the file and passes the request on with
the client of the matching token as the `user` of its scope, or answers 401. The scope it builds is
the one that the `Context` of the tool shows.

`bearerAuth` is the decision of the wrapper alone; `authMiddleware` is the coroutine, whose every
`await` may raise.
-/

open SingleWriter Faults

namespace MemoryBridge.Http

/-! ## The client file -/

/-- `[a-zA-Z0-9._-]` -/
def isIdChar (c : Char) : Bool := c.isAlphanum || c == '.' || c == '_' || c == '-'

/-- `re.fullmatch(r"[a-zA-Z0-9._-]{1,64}", client_id)` -/
def validId (s : String) : Bool := 1 ≤ s.length && s.length ≤ 64 && s.toList.all isIdChar

/-- `[A-Za-z0-9._~+/=-]` -/
def isTokenChar (c : Char) : Bool :=
  c.isAlphanum || c == '.' || c == '_' || c == '~' || c == '+' || c == '/' || c == '=' || c == '-'

/-- `re.fullmatch(r"[A-Za-z0-9._~+/=-]{32,}", token)` -/
def validToken (s : String) : Bool := 32 ≤ s.length && s.toList.all isTokenChar

/-- `s.encode("ascii")` of a text of ASCII characters. -/
def encodeAscii (s : String) : Bytes := s.toList.map fun c => UInt8.ofNat c.toNat

/-- `b.decode("ascii")` -/
def decodeAscii (b : Bytes) : Except PyExc String :=
  if b.all (· < 128) then .ok (String.ofList (b.map fun x => Char.ofNat x.toNat))
  else .error (.other "UnicodeDecodeError" "ordinal not in range(128)")

/-- `f"Bearer {token}".encode("ascii")` -/
def bearerHeader (token : String) : Bytes := encodeAscii ("Bearer " ++ token)

/-- The loop of `_load_client_tokens` over the members of the object, whose values are strings or
something else (`none`). -/
def loadClients (credentials : List (Bytes × String)) :
    List (String × Option String) → Except PyExc (List (Bytes × String))
  | [] => .ok credentials
  | (clientId, token) :: rest =>
    if ¬validId clientId then
      .error (.valueError ("client IDs must be 1-64 ASCII letters, digits, dots, underscores " ++
        "or hyphens"))
    else
      match token with
      | none => .error (.valueError "tokens must have at least 32 bearer-token characters")
      | some token =>
        if ¬validToken token then
          .error (.valueError "tokens must have at least 32 bearer-token characters")
        else if bearerHeader token ∈ credentials.map Prod.fst then
          .error (.valueError "each client must have a unique token")
        else loadClients (credentials ++ [(bearerHeader token, clientId)]) rest

/-- `_load_client_tokens` of a JSON text: `none` is one that is no object. -/
def loadClientTokens : Option (List (String × Option String)) →
    Except PyExc (List (Bytes × String))
  | none => .error (.valueError
      "expected a nonempty JSON object mapping client IDs to tokens")
  | some [] => .error (.valueError
      "expected a nonempty JSON object mapping client IDs to tokens")
  | some clients => loadClients [] clients

/-! ## The wrapper -/

/-- `b.lower()` -/
def lower (b : Bytes) : Bytes := b.map fun x => if 65 ≤ x ∧ x ≤ 90 then x + 32 else x

/-- The values of the headers named `authorization`. -/
def authorizations (scope : Scope) : List Bytes :=
  (scope.headers.filter fun h => lower h.1 = encodeAscii "authorization").map Prod.snd

/-- The clients whose credential the request presents; a credential without a client is the shared
token. -/
def matching (credentials : List (Bytes × Option String)) (scope : Scope) :
    List (Option String) :=
  match authorizations scope with
  | [header] => (credentials.filter fun c => c.1 = header).map Prod.snd
  | _ => []

/-- What `_bearer_auth_asgi` does with a request: it calls the app with a scope, or answers 401
(`none`). -/
def bearerAuth (credentials : List (Bytes × Option String)) (scope : Scope) :
    Except PyExc (Option Scope) :=
  if scope.type ≠ "http" then .ok (some scope)
  else
    match matching credentials scope with
    | [] => .ok none
    | none :: _ => .ok (some scope)
    | some clientId :: _ => do
      let token ← decodeAscii (((authorizations scope).headD []).drop 7)
      pure (some { scope with user := some (.authenticatedUser token clientId) })

/-! ## Its run -/

/-- What the wrapper sends to the client. -/
inductive Message
  /-- `http.response.start` -/
  | responseStart (status : ℕ) (headers : List (Bytes × Bytes))
  /-- `http.response.body` -/
  | responseBody (body : Bytes)
  deriving DecidableEq

/-- What comes of a request: a call of the wrapped app, or a message. -/
inductive Event
  | invoked (scope : Scope)
  | sent (message : Message)
  deriving DecidableEq

/-- A coroutine, over what has come of the request so far. -/
abbrev Asgi (α : Type) : Type := Faulty (List Event) PyExc Bool α

/-- `await app(scope, receive, send)`. An app that raises has been called. -/
def app (scope : Scope) : Asgi Unit :=
  .step (fun l => .ok ((), l ++ [.invoked scope])) fun _ l => l ++ [.invoked scope]

/-- `await send(message)`. The message may be out when it raises. -/
def send (message : Message) : Asgi Unit :=
  .step (fun l => .ok ((), l ++ [.sent message]))
    fun out l => if out then l ++ [.sent message] else l

/-- The JSON-RPC error of a request without a valid token. -/
def unauthorizedBody : Bytes :=
  encodeAscii ("\x7b\"jsonrpc\": \"2.0\", \"id\": null, \"error\": \x7b\"code\": -32001, " ++
    "\"message\": \"Unauthorized: missing or invalid bearer token\"\x7d\x7d")

/-- The headers of an answer with this body. -/
def unauthorizedHeaders (body : Bytes) : List (Bytes × Bytes) :=
  [(encodeAscii "content-type", encodeAscii "application/json"),
    (encodeAscii "www-authenticate", encodeAscii "Bearer"),
    (encodeAscii "content-length", encodeAscii (toString body.length))]

/-- The answer to a request without a valid token. -/
def unauthorized : Asgi Unit := do
  let body := unauthorizedBody
  send (.responseStart 401 (unauthorizedHeaders body))
  send (.responseBody body)

/-- `_auth_middleware` -/
def authMiddleware (credentials : List (Bytes × Option String)) (scope : Scope) : Asgi Unit :=
  if scope.type ≠ "http" then app scope
  else
    match matching credentials scope with
    | [] => unauthorized
    | none :: _ => app scope
    | some clientId :: _ => do
      let token ← .ofExcept (decodeAscii (((authorizations scope).headD []).drop 7))
      app { scope with user := some (.authenticatedUser token clientId) }

/-! ## A tool call in a request -/

/-- A tool call that arrives in an HTTP request. -/
def request {S : Type} [LinearOrder S] (rt : Runtime S) (cfg : Config)
    (credentials : List (Bytes × Option String)) (scope : Scope) (call : Call) : Py String :=
  match bearerAuth credentials scope with
  | .ok (some scope') => tool rt cfg ⟨some scope'⟩ call
  | .ok none => Py.raise (.other "HTTPError" "401")
  | .error e => Py.raise e

end MemoryBridge.Http
