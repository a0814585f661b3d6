import MemoryBridge.GatedSession
import MemoryBridge.TamperReport
import Mathlib.Data.List.DropRight

/-!
# The start of the HTTP server (`_run_http`)

The server needs exactly one source of credentials: a token that all clients share, or a file with a
token for each client. With any other configuration it does not start. `http_fails_closed` says when
it listens, and that no HTTP request then reaches the app without a token of that configuration.
-/

open Faults

namespace MemoryBridge.Http

open RawClient

/-! ## Settings -/

/-- What the server takes from its environment. -/
structure Settings where
  /-- `TRANSPORT` -/
  transport : String
  /-- `HTTP_HOST` -/
  httpHost : String
  /-- `HTTP_PORT` -/
  httpPort : ℤ
  /-- `AUTH_TOKEN`, empty if it is not set -/
  authToken : String
  /-- `AUTH_CLIENTS_FILE`, empty if it is not set -/
  authClientsFile : String
  /-- `MCP_ALLOWED_HOSTS`, empty if it is not set -/
  allowedHosts : String

/-- `h.strip()` -/
def strip (h : String) : String :=
  String.ofList ((h.toList.dropWhile PyText.isSpace).rdropWhile PyText.isSpace)

/-- `PUBLIC_HOSTS` -/
def Settings.publicHosts (s : Settings) : List String :=
  ((s.allowedHosts.splitOn ",").map strip).filter (· ≠ "")

/-! ## Credentials -/

/-- `s.encode("latin-1")` -/
def encodeLatin1 (s : String) : Except PyExc Bytes :=
  if s.toList.all (·.toNat < 256) then .ok (s.toList.map fun c => UInt8.ofNat c.toNat)
  else .error (.other "UnicodeEncodeError" "ordinal not in range(256)")

/-- The members of an object as `_load_client_tokens` looks at them. -/
def clientsOf : Value → Option (List (String × Option String))
  | .dict d => some (d.map fun m => (m.1, match m.2 with
    | .str token => some token
    | _ => none))
  | _ => none

variable (s : Settings) (readText : String → Except PyExc String)
  (loads : String → Except PyExc Value)

/-- The credentials of the configuration. `readText` is `Path.read_text`, `loads` is
`json.loads`. -/
def configuredCredentials : Except PyExc (List (Bytes × Option String)) :=
  if s.authClientsFile ≠ "" then do
    let text ← readText s.authClientsFile
    let clients ← loads text
    let credentials ← loadClientTokens (clientsOf clients)
    pure (table credentials)
  else do
    let header ← encodeLatin1 ("Bearer " ++ s.authToken)
    pure [(header, none)]

/-! ## The start -/

/-- `OSError` and `ValueError` with the classes below them, where `PyExc` has no constructor for
them. -/
def configurationErrors : List String :=
  ["OSError", "BlockingIOError", "ChildProcessError", "ConnectionError", "BrokenPipeError",
    "ConnectionAbortedError", "ConnectionRefusedError", "ConnectionResetError", "FileExistsError",
    "FileNotFoundError", "InterruptedError", "IsADirectoryError", "NotADirectoryError",
    "PermissionError", "ProcessLookupError", "TimeoutError", "UnsupportedOperation",
    "UnicodeError", "UnicodeDecodeError", "UnicodeEncodeError", "UnicodeTranslateError",
    "JSONDecodeError"]

/-- `except (OSError, ValueError)` -/
def isConfigurationError : PyExc → Bool
  | .valueError _ => true
  | .other name _ => decide (name ∈ configurationErrors)
  | _ => false

/-- What `uvicorn` serves: the wrapped app behind the check of the `Host` header. -/
structure Served where
  credentials : List (Bytes × Option String)
  allowedHosts : List String
  allowedOrigins : List String
  host : String
  port : ℤ

/-- How the server starts. -/
inductive Startup
  | stdio
  | http (served : Served)
  /-- `sys.exit(2)` -/
  | refused (message : String)
  /-- An exception that nothing catches. -/
  | raised (e : PyExc)

/-- `_run_http` -/
def runHttp : Startup :=
  if decide (s.authToken ≠ "") = decide (s.authClientsFile ≠ "") then
    .refused ("refusing to start: MCP_TRANSPORT=http requires exactly one of " ++
      "MCP_AUTH_TOKEN or MCP_AUTH_CLIENTS_FILE")
  else
    match configuredCredentials s readText loads with
    | .error e =>
      if isConfigurationError e then
        .refused ("refusing to start: invalid HTTP auth configuration (" ++ Admin.text e ++ ")")
      else .raised e
    | .ok credentials =>
      .http
        { credentials := credentials
          allowedHosts := ["127.0.0.1:*", "localhost:*", "[::1]:*"] ++ s.publicHosts
          allowedOrigins := ["http://127.0.0.1:*", "http://localhost:*", "http://[::1]:*"] ++
            s.publicHosts.map fun h => "https://" ++ h
          host := s.httpHost
          port := s.httpPort }

/-- The end of the program, which chooses the transport. -/
def start : Startup :=
  if s.transport = "http" then runHttp s readText loads else .stdio

/-! ## Configurations -/

/-- A shared token that a header can hold. -/
structure SharedToken (s : Settings) : Prop where
  token : s.authToken ≠ ""
  file : s.authClientsFile = ""
  latin1 : ∀ c ∈ s.authToken.toList, c.toNat < 256

/-- A client file: valid ids and tokens, no token twice. -/
structure ClientFile (clients : List (String × String)) : Prop where
  token : s.authToken = ""
  file : s.authClientsFile ≠ ""
  read : ∃ text v, readText s.authClientsFile = .ok text ∧ loads text = .ok v ∧
    clientsOf v = some (clients.map fun c => (c.1, some c.2))
  nonempty : clients ≠ []
  valid : ∀ c ∈ clients, validId c.1 = true ∧ validToken c.2 = true
  distinct : (clients.map Prod.snd).Nodup

variable {s readText loads}

theorem validToken_chars {token : String} (h : validToken token = true) :
    ∀ c ∈ token.toList, isTokenChar c = true := by
  simp only [validToken, Bool.and_eq_true, List.all_eq_true] at h
  exact h.2

/-- What the loop makes of a client file that it accepts, and which files it accepts. -/
theorem loadClients_eq_ok_iff {credentials credentials' : List (Bytes × String)}
    {members : List (String × Option String)} :
    loadClients credentials members = .ok credentials' ↔
      ∃ clients : List (String × String), members = clients.map (fun c => (c.1, some c.2)) ∧
        (∀ c ∈ clients, validId c.1 = true ∧ validToken c.2 = true) ∧
        (clients.map Prod.snd).Nodup ∧
        (∀ c ∈ clients, bearerHeader c.2 ∉ credentials.map Prod.fst) ∧
        credentials' = credentials ++ clients.map fun c => (bearerHeader c.2, c.1) := by
  induction members generalizing credentials with
  | nil =>
    rw [loadClients, Except.ok.injEq]
    constructor
    · rintro rfl
      exact ⟨[], by simp⟩
    · rintro ⟨clients, hnil, -, -, -, rfl⟩
      obtain rfl := List.map_eq_nil_iff.1 hnil.symm
      simp
  | cons m rest ih =>
    obtain ⟨cid, token⟩ := m
    unfold loadClients
    constructor
    · intro h
      split_ifs at h with hid
      cases token with
      | none => cases h
      | some token =>
        simp only at h
        split_ifs at h with htoken hdup
        obtain ⟨clients, rfl, hvalid, hnodup, hfresh, rfl⟩ := ih.1 h
        refine ⟨(cid, token) :: clients, rfl, ?_, ?_, ?_, by simp⟩
        · rintro c (_ | ⟨_, hc⟩)
          · exact ⟨by simpa using hid, by simpa using htoken⟩
          · exact hvalid c hc
        · rw [List.map_cons, List.nodup_cons]
          refine ⟨fun hmem => ?_, hnodup⟩
          obtain ⟨c, hc, heq⟩ := List.mem_map.1 hmem
          exact hfresh c hc (by simp [heq])
        · rintro c (_ | ⟨_, hc⟩)
          · exact hdup
          · exact fun hmem => hfresh c hc (by simp [hmem])
    · rintro ⟨clients, hmembers, hvalid, hnodup, hfresh, rfl⟩
      obtain ⟨⟨cid', token'⟩, clients, rfl, hhead, hrest⟩ := List.map_eq_cons_iff.1 hmembers.symm
      obtain ⟨rfl, rfl⟩ := Prod.mk.inj hhead
      obtain ⟨hid, htoken⟩ := hvalid _ (.head _)
      rw [List.map_cons, List.nodup_cons] at hnodup
      rw [if_neg (not_not.2 hid)]
      simp only
      rw [if_neg (not_not.2 htoken), if_neg (hfresh _ (.head _))]
      refine ih.2 ⟨clients, hrest.symm, fun c hc => hvalid c (.tail _ hc), hnodup.2,
        fun c hc hmem => ?_, by simp⟩
      rw [List.map_append, List.mem_append, List.map_singleton, List.mem_singleton] at hmem
      rcases hmem with hmem | heq
      · exact hfresh c (.tail _ hc) hmem
      · have hsame := bearerHeader_injective (validToken_chars (hvalid c (.tail _ hc)).2)
          (validToken_chars htoken) heq
        exact hnodup.1 (hsame ▸ List.mem_map_of_mem hc)

theorem loadClientTokens_of_valid {clients : List (String × String)} (hne : clients ≠ [])
    (hvalid : ∀ c ∈ clients, validId c.1 = true ∧ validToken c.2 = true)
    (hnodup : (clients.map Prod.snd).Nodup) :
    loadClientTokens (some (clients.map fun c => (c.1, some c.2))) =
      .ok (clients.map fun c => (bearerHeader c.2, c.1)) := by
  have hload : loadClients [] (clients.map fun c => (c.1, some c.2)) =
      .ok (clients.map fun c => (bearerHeader c.2, c.1)) :=
    loadClients_eq_ok_iff.2 ⟨clients, rfl, hvalid, hnodup, by simp, by simp⟩
  cases clients with
  | nil => exact absurd rfl hne
  | cons c rest => exact hload

/-- The credentials that a server with this configuration has. -/
inductive Configured (s : Settings) (readText : String → Except PyExc String)
    (loads : String → Except PyExc Value) : List (Bytes × Option String) → Prop
  | shared (h : SharedToken s) : Configured s readText loads [(bearerHeader s.authToken, none)]
  | clients {clients : List (String × String)} (h : ClientFile s readText loads clients) :
      Configured s readText loads (table (clients.map fun c => (bearerHeader c.2, c.1)))

/-- The app may see this request, as `scope'`. -/
inductive Admitted (s : Settings) (readText : String → Except PyExc String)
    (loads : String → Except PyExc Value) (scope : Scope) : Scope → Prop
  | shared (h : SharedToken s) (header : authorizations scope = [bearerHeader s.authToken]) :
      Admitted s readText loads scope scope
  | client {clients : List (String × String)} (h : ClientFile s readText loads clients)
      {cid token : String} (hclient : (cid, token) ∈ clients)
      (header : authorizations scope = [bearerHeader token]) :
      Admitted s readText loads scope
        { scope with user := some (.authenticatedUser token cid) }

/-- There is one list of clients in a file. -/
theorem ClientFile.unique {clients clients' : List (String × String)}
    (h : ClientFile s readText loads clients) (h' : ClientFile s readText loads clients') :
    clients' = clients := by
  obtain ⟨text, v, htext, hv, hclients⟩ := h.read
  obtain ⟨text', v', htext', hv', hclients'⟩ := h'.read
  obtain rfl := Except.ok.inj (htext.symm.trans htext')
  obtain rfl := Except.ok.inj (hv.symm.trans hv')
  have hmap := Option.some.inj (hclients'.symm.trans hclients)
  refine List.map_injective_iff.2 (fun c c' hc => ?_) hmap
  obtain ⟨hcid, htoken⟩ := Prod.mk.inj hc
  exact Prod.ext hcid (Option.some.inj htoken)

theorem ClientFile.loaded {clients : List (String × String)}
    (h : ClientFile s readText loads clients) :
    loadClientTokens (some (clients.map fun c => (c.1, some c.2))) =
      .ok (clients.map fun c => (bearerHeader c.2, c.1)) :=
  loadClientTokens_of_valid h.nonempty h.valid h.distinct

/-- With a client file, the requests that are admitted are those that carry a token of it. -/
theorem ClientFile.admitted_iff {clients : List (String × String)}
    (h : ClientFile s readText loads clients) {scope scope' : Scope} :
    Admitted s readText loads scope scope' ↔ ∃ token cid,
      Carries (clients.map fun c => (c.1, some c.2)) scope token cid ∧
        scope' = { scope with user := some (.authenticatedUser token cid) } := by
  constructor
  · rintro (⟨hshared, -⟩ | @⟨clients', hfile, cid, token, hclient, header⟩)
    · exact absurd h.token hshared.token
    · obtain rfl := h.unique hfile
      exact ⟨token, cid, ⟨header, List.mem_map.2 ⟨_, hclient, rfl⟩⟩, rfl⟩
  · rintro ⟨token, cid, ⟨header, hmem⟩, rfl⟩
    obtain ⟨c, hc, heq⟩ := List.mem_map.1 hmem
    obtain ⟨rfl, htoken⟩ := Prod.mk.inj heq
    obtain rfl := Option.some.inj htoken
    exact .client h hc header

/-- What the wrapper decides with configured credentials. -/
theorem Configured.bearerAuth_cases {credentials : List (Bytes × Option String)}
    (h : Configured s readText loads credentials) {scope : Scope} (ht : scope.type = "http") :
    (∃ scope', (∀ x, Admitted s readText loads scope x ↔ x = scope') ∧
      bearerAuth credentials scope = .ok (some scope')) ∨
    (∀ x, ¬Admitted s readText loads scope x) ∧ bearerAuth credentials scope = .ok none := by
  cases h with
  | shared h =>
    have hadmitted (x : Scope) : Admitted s readText loads scope x ↔
        authorizations scope = [bearerHeader s.authToken] ∧ x = scope := by
      constructor
      · rintro (⟨-, header⟩ | ⟨hfile, -, -⟩)
        · exact ⟨header, rfl⟩
        · exact absurd hfile.token h.token
      · rintro ⟨header, rfl⟩
        exact .shared h header
    unfold Http.bearerAuth matching
    rw [if_neg (not_not.2 ht)]
    by_cases header : authorizations scope = [bearerHeader s.authToken]
    · refine .inl ⟨scope, fun x => by simp [hadmitted, header], ?_⟩
      simp [header]
    · refine .inr ⟨fun x => by simp [hadmitted, header], ?_⟩
      rcases hauths : authorizations scope with _ | ⟨y, _ | ⟨z, rest⟩⟩
      · rfl
      · have hne : ¬bearerHeader s.authToken = y := by
          rintro rfl
          exact header hauths
        simp [hne]
      · rfl
  | @clients clients h =>
    rcases Http.bearerAuth_cases h.loaded ht with ⟨token, cid, hc, hauth⟩ | ⟨hno, hauth⟩
    · refine .inl ⟨_, fun x => ?_, hauth⟩
      rw [h.admitted_iff]
      constructor
      · rintro ⟨token', cid', hc', rfl⟩
        obtain ⟨rfl, rfl⟩ := hc.unique h.loaded hc'
        rfl
      · rintro rfl
        exact ⟨token, cid, hc, rfl⟩
    · refine .inr ⟨fun x hx => ?_, hauth⟩
      obtain ⟨token, cid, hc, -⟩ := h.admitted_iff.1 hx
      exact hno ⟨token, cid, hc⟩

/-- Without credentials the server does not start. -/
example : start ⟨"http", "127.0.0.1", 8000, "", "", ""⟩ (fun _ => .ok "") (fun _ => .ok .none) =
    .refused ("refusing to start: MCP_TRANSPORT=http requires exactly one of " ++
      "MCP_AUTH_TOKEN or MCP_AUTH_CLIENTS_FILE") := rfl

end MemoryBridge.Http
