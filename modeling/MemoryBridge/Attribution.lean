import MemoryBridge.AuditTrail
import MemoryBridge.Foundations.SingleWriter.Relabel
import MemoryBridge.HttpGate

/-!
# Attribution in per-client HTTP mode

Where every client has a token of its own, who did something is decided by the token of the request.
The `client_id` that a caller passes to a tool changes neither what is stored nor what anybody is
answered: the program of the request does not depend on it (`request_unclaimed`), so runs that
differ in it only are the same run. And what a call commits carries the client of its token
(`Own.attributed`).
-/

open SingleWriter

namespace MemoryBridge

variable {S : Type} {rt : Runtime S}

/-! ## Whom a transaction names -/

section Own

variable [LinearOrder S] {cfg : Config} {ctx : Context} {c : Call} {h : List (Obs Db Instant)}
  {b w : Db}

/-- The event that a tool logs, and any fact that it writes, name the client of `_client_id`. -/
theorem Own.attributed (ho : Own rt cfg ctx c h b w) :
    ∃ claimed cid, clientId cfg ctx claimed = .ok cid ∧
      (∃ e, selectEvents w = selectEvents b ++ [e] ∧ e.clientId = .text cid) ∧
      ∀ k f, w.facts.lookup k = some f → b.facts.lookup k = some f ∨ f.sourceClient = cid := by
  -- a transaction that only logs
  have hlogs : ∀ {ts cid action : String} {key value : Option String},
      Logged rt ts cid action key value b w →
      (∃ e, selectEvents w = selectEvents b ++ [e] ∧ e.clientId = .text cid) ∧
        ∀ k f, w.facts.lookup k = some f → b.facts.lookup k = some f ∨ f.sourceClient = cid := by
    intro ts cid action key value hl
    exact ⟨⟨_, hl.events, rfl⟩, fun k f hf => .inl (by rwa [hl.facts] at hf)⟩
  cases ho with
  | memorySet hcid _ hs =>
    refine ⟨_, _, hcid, ?_⟩
    rcases hs.cases with ⟨-, hl⟩ | ⟨failure, -, hl⟩
    · refine ⟨⟨_, by rw [hl.events, stored_events]; rfl, rfl⟩, fun k f hf => ?_⟩
      rw [hl.facts] at hf
      rcases lookup_stored hf with ⟨-, rfl⟩ | hf
      · exact .inr rfl
      · exact .inl hf
    · exact hlogs hl
  | memoryGet _ hcid _ hl => exact ⟨_, _, hcid, hlogs hl⟩
  | memorySearch _ hcid _ hl => exact ⟨_, _, hcid, hlogs hl⟩
  | memoryDelete hcid _ hl =>
    refine ⟨_, _, hcid, ⟨_, hl.events, rfl⟩, fun k f hf => .inl ?_⟩
    rw [hl.facts] at hf
    exact lookup_erased hf
  | lockHold _ hcid hl => exact ⟨_, _, hcid, hlogs hl⟩

end Own

/-- The call without the client that its caller claims to be. -/
def Call.unclaimed : Call → Call
  | .memorySet key value _ expectedValue requireAbsent =>
    .memorySet key value none expectedValue requireAbsent
  | .memoryDelete key _ => .memoryDelete key none
  | c => c

namespace Http

/-! ## Processes in per-client HTTP mode -/

/-- A server process in per-client HTTP mode, with the client file that it has loaded. -/
structure PerClient where
  config : Config
  clients : List (String × Option String)
  credentials : List (Bytes × String)
  http : config.transport = "http"
  file : config.authClientsFile ≠ ""
  loaded : loadClientTokens (some clients) = .ok credentials

namespace PerClient

variable (srv : PerClient)

/-- The request presents a token of the client file, which is configured for `cid` and for nobody
else. -/
def Presents (scope : Scope) (cid : String) : Prop :=
  ∃ token, authorizations scope = [bearerHeader token] ∧ (cid, some token) ∈ srv.clients ∧
    validId cid = true ∧ ∀ cid', (cid', some token) ∈ srv.clients → cid' = cid

variable {srv}

/-- The wrapper passes an HTTP request on only with the client of the token it presents. -/
theorem bearerAuth_eq_ok {scope scope' : Scope} (ht : scope.type = "http")
    (h : bearerAuth (table srv.credentials) scope = .ok (some scope')) :
    ∃ token cid, scope'.user = some (.authenticatedUser token cid) ∧ srv.Presents scope cid := by
  rcases bearerAuth_cases srv.loaded ht with ⟨token, cid, hc, heq⟩ | ⟨-, heq⟩
  · obtain rfl := Option.some.inj (Except.ok.inj (heq.symm.trans h))
    have hid := ((loadClientTokens_eq_ok srv.loaded).2.1 cid token hc.client).1
    exact ⟨token, cid, rfl, token, hc.header, hc.client, hid, fun cid' hm =>
      (hc.unique srv.loaded ⟨hc.header, hm⟩).2⟩
  · cases heq.symm.trans h

/-- In this mode, what the caller claims is not looked at. -/
theorem clientId_claimed (ctx : Context) (claimed : Option String) :
    clientId srv.config ctx claimed = clientId srv.config ctx none := by
  unfold clientId
  rw [if_pos ⟨srv.http, srv.file⟩, if_pos ⟨srv.http, srv.file⟩]

theorem clientId_eq_ok {scope : Scope} {token cid cid' : String} {claimed : Option String}
    (hu : scope.user = some (.authenticatedUser token cid))
    (h : clientId srv.config ⟨some scope⟩ claimed = .ok cid') : cid' = cid := by
  unfold clientId at h
  rw [if_pos ⟨srv.http, srv.file⟩] at h
  simp only [Option.bind_some, hu, Except.ok.injEq] at h
  exact h.symm

/-- The program of a request does not depend on whom its caller claims to be. -/
theorem request_unclaimed [LinearOrder S] (scope : Scope) (c : Call) :
    request rt srv.config (table srv.credentials) scope c.unclaimed =
      request rt srv.config (table srv.credentials) scope c := by
  have htool : ∀ ctx, tool rt srv.config ctx c.unclaimed = tool rt srv.config ctx c := by
    intro ctx
    cases c with
    | memorySet key value claimed expectedValue requireAbsent =>
      simp only [Call.unclaimed, tool, memorySet, clientId_claimed ctx claimed]
    | memoryDelete key claimed =>
      simp only [Call.unclaimed, tool, memoryDelete, clientId_claimed ctx claimed]
    | _ => rfl
  simp only [request, htool]

end PerClient

/-! ## Servers in per-client HTTP mode -/

section Servers

variable [LinearOrder S] {ι : Type}

/-- Server processes that share a database, each with its own configuration and client file. Their
calls arrive in HTTP requests. -/
def httpServers (rt : Runtime S) (srv : ι → PerClient) :
    Clients ι (Scope × Call) Db Instant Failure Bool PyExc String where
  code p c := request rt (srv p).config (table (srv p).credentials) c.1 c.2
  may _ c := c.1.type = "http"
  boot := false

/-- What their calls do: as a tool call with the scope that the wrapper builds, or nothing. -/
def httpSpec (rt : Runtime S) (srv : ι → PerClient) :
    Spec ι (Scope × Call) Db Instant PyExc String where
  commits p c h b w := ∃ scope token cid, scope.user = some (.authenticatedUser token cid) ∧
    (srv p).Presents c.1 cid ∧ Commits rt (srv p).config ⟨some scope⟩ c.2 h b w
  replies p c h r :=
    (∃ scope token cid, scope.user = some (.authenticatedUser token cid) ∧
      (srv p).Presents c.1 cid ∧ Replies rt (srv p).config ⟨some scope⟩ c.2 h r) ∨
    (h = [] ∧ ∃ e, r = .error e)

theorem http_meets (srv : ι → PerClient) : Meets (httpServers rt srv) (httpSpec rt srv) := by
  rintro p ⟨scope, c⟩ m ht
  show (request rt (srv p).config (table (srv p).credentials) scope c).wp _ _ _
  unfold request
  split
  case h_1 scope' hauth =>
    obtain ⟨token, cid, hu, hp⟩ := PerClient.bearerAuth_eq_ok ht hauth
    exact Prog.wp_weaken (fun h b w hc => ⟨scope', token, cid, hu, hp, hc⟩)
      (fun r l hr => ⟨hr.1, .inl ⟨scope', token, cid, hu, hp, hr.2⟩⟩)
      (meets (fun p => (srv p).config) p (⟨some scope'⟩, c) m trivial)
  case h_2 => exact ⟨rfl, .inr ⟨rfl, _, rfl⟩⟩
  case h_3 => exact ⟨rfl, .inr ⟨rfl, _, rfl⟩⟩

variable [DecidableEq ι]

/-- **Attribution cannot be influenced by callers.** Schedules that differ only in the `client_id`
arguments lead to the same store and the same replies; and whatever a call commits names the client
that is configured for the token of its request. -/
theorem attribution_of_credentials (rt : Runtime S) (srv : ι → PerClient) :
    (∀ (s₀ s₁ : Sys ι (Scope × Call) Db Instant Failure Bool PyExc String)
      (l₁ l₂ : List (ι × Move (Scope × Call) Instant Failure)),
      Sys.relabelMoves (Prod.map id Call.unclaimed) l₁ =
        Sys.relabelMoves (Prod.map id Call.unclaimed) l₂ →
      s₀.exec (httpServers rt srv) l₁ = some s₁ →
      ∃ s₂, s₀.exec (httpServers rt srv) l₂ = some s₂ ∧ s₂.db = s₁.db ∧
        replies s₂.trace = replies s₁.trace) ∧
    ∀ s₀ s : Sys ι (Scope × Call) Db Instant Failure Bool PyExc String,
      s₀.Init → Reach (httpServers rt srv) s₀ s →
      ∀ p n scope c b w, .obs p n (scope, c) (.commit b w) ∈ s.trace →
        (selectEvents w = selectEvents b ∧ w.facts = b.facts) ∨
        ∃ cid, (srv p).Presents scope cid ∧
          (∃ e, selectEvents w = selectEvents b ++ [e] ∧ e.clientId = .text cid) ∧
          ∀ k f, w.facts.lookup k = some f → b.facts.lookup k = some f ∨ f.sourceClient = cid := by
  constructor
  · intro s₀ s₁ l₁ l₂ hl h₁
    exact Sys.exec_eq (fun p c => PerClient.request_unclaimed c.1 c.2) hl h₁
  · intro s₀ s h₀ h p n scope c b w hm
    have g := Reach.good (http_meets srv) h₀ h
    obtain ⟨t₁, t₂, -, -, -, scope', token, cid, hu, hp, hc⟩ := g.trace.commit hm
    rcases hc with ⟨d, -, -, hmig⟩ | ⟨q, h', -, -, ho⟩
    · refine .inl ?_
      rcases hmig with ⟨-, rfl⟩ | hmig
      · exact ⟨rfl, rfl⟩
      · exact ⟨hmig.events.1, hmig.tables.1⟩
    · obtain ⟨claimed, cid', hcid, hev, hfacts⟩ := ho.attributed
      obtain rfl := PerClient.clientId_eq_ok hu hcid
      exact .inr ⟨cid', hp, hev, hfacts⟩

end Servers

/-! ## A request of alice -/

/-- A server that knows the tokens of alice and bob. -/
def sampleServer : PerClient where
  config := { Config.default with
    embeddingsEnabled := false, transport := "http", authClientsFile := "clients.json" }
  clients := [("alice", some sampleToken), ("bob", some "fedcba9876543210fedcba9876543210")]
  credentials := [(bearerHeader sampleToken, "alice"),
    (bearerHeader "fedcba9876543210fedcba9876543210", "bob")]
  http := rfl
  file := by decide
  loaded := by decide +kernel

/-- She sets the key, and claims to be somebody. -/
def sampleSchedule (claimed : Option String) :
    List (Unit × Move (Scope × Call) Instant Failure) :=
  ((), .start (sampleScope, .memorySet "k" "v" claimed none false)) ::
    ([.go, .go, .go, .go, .go, .go, .go, .time .newYear, .go, .go, .time .newYear, .go, .go, .go,
      .go, .go].map fun ch => ((), .operate ch)) ++ [((), .finish)]

/-- The commit of her write. -/
def sampleCommit : Entry Unit (Scope × Call) Db Instant PyExc String → Bool
  | .obs _ n c (.commit b w) =>
    n == 1 && decide (c.1 = sampleScope) && b.events.rows.isEmpty && !w.events.rows.isEmpty
  | _ => false

/-- Whoever she claims to be, the event names alice. -/
theorem attribution_of_credentials_sample :
    ∃ s₁ s₂ : Sys Unit (Scope × Call) Db Instant Failure Bool PyExc String,
      s₁.db.events.rows = [Audit.sampleSet] ∧ s₂.db = s₁.db ∧
      replies s₂.trace = replies s₁.trace ∧
      ∃ b w cid, sampleServer.Presents sampleScope cid ∧
        ∃ e, selectEvents w = selectEvents b ++ [e] ∧ e.clientId = .text cid := by
  have h : (((Sys.initial .opened false).exec
      (httpServers Audit.sampleRuntime fun _ : Unit => sampleServer)
      (sampleSchedule (some "mallory"))).map fun s =>
        (s.db.events.rows, s.trace.any sampleCommit)) = some ([Audit.sampleSet], true) := by
    decide +kernel
  obtain ⟨s₁, h₁, hv⟩ := Option.map_eq_some_iff.1 h
  obtain ⟨hrows, hany⟩ := Prod.mk.inj hv
  obtain ⟨e, he, hcom⟩ := List.any_eq_true.1 hany
  have main := attribution_of_credentials Audit.sampleRuntime fun _ : Unit => sampleServer
  obtain ⟨s₂, h₂, hdb, hrep⟩ := main.1 (Sys.initial .opened false) s₁
    (sampleSchedule (some "mallory")) (sampleSchedule none) rfl h₁
  refine ⟨s₁, s₂, hrows, hdb, hrep, ?_⟩
  unfold sampleCommit at hcom
  split at hcom
  case h_2 => cases hcom
  case h_1 p n c b w =>
    obtain ⟨scope, c⟩ := c
    simp only [Bool.and_eq_true, beq_iff_eq, decide_eq_true_eq, List.isEmpty_iff,
      Bool.not_eq_true', List.isEmpty_eq_false_iff] at hcom
    obtain ⟨⟨⟨rfl, rfl⟩, hb⟩, hw⟩ := hcom
    have hreach : Reach (httpServers Audit.sampleRuntime fun _ : Unit => sampleServer)
        (Sys.initial .opened false) s₁ := by
      refine Sys.reach_of_exec (fun x hx c hc => ?_) h₁
      rcases List.mem_append.1 hx with hx | hx
      · rcases List.mem_cons.1 hx with rfl | hx
        · cases hc
          rfl
        · obtain ⟨ch, -, rfl⟩ := List.mem_map.1 hx
          cases hc
      · obtain rfl := List.mem_singleton.1 hx
        cases hc
    rcases main.2 _ s₁ (Sys.initial_init _ _) hreach _ _ _ _ _ _ he with ⟨hev, -⟩ |
      ⟨cid, hp, hev, -⟩
    · simp [selectEvents, hb, hw] at hev
    · exact ⟨b, w, cid, hp, hev⟩

end Http

end MemoryBridge
