import MemoryBridge.Http

/-!
# The HTTP gate

The wrapper of `_bearer_auth_asgi` with the credentials of a client file. A request gets through to
the app if and only if it has one `authorization` header and that is the token of a client
(`gate_exact`); this depends on what the loader of the file checks. The tokens are ASCII, so they
can be decoded, and no two are the same, so the client is determined.
-/

open Faults

namespace MemoryBridge.Http

/-! ## ASCII -/

theorem isTokenChar_ascii {c : Char} (h : isTokenChar c = true) : c.toNat < 128 := by
  simp only [isTokenChar, Bool.or_eq_true, beq_iff_eq] at h
  have halnum : c.isAlphanum = true → c.toNat < 128 := by
    intro ha
    delta Char.isAlphanum Char.isAlpha Char.isUpper Char.isLower Char.isDigit at ha
    simp only [Bool.or_eq_true, Bool.and_eq_true, decide_eq_true_eq, UInt32.le_iff_toNat_le] at ha
    rcases ha with (h | h) | h <;> exact lt_of_le_of_lt h.2 (by decide)
  rcases h with ((((((h | rfl) | rfl) | rfl) | rfl) | rfl) | rfl) | rfl
  · exact halnum h
  all_goals decide

theorem encodeAscii_append (s t : String) :
    encodeAscii (s ++ t) = encodeAscii s ++ encodeAscii t := by
  simp [encodeAscii]

theorem decodeAscii_encodeAscii {s : String} (h : ∀ c ∈ s.toList, c.toNat < 128) :
    decodeAscii (encodeAscii s) = .ok s := by
  have hbyte : ∀ c ∈ s.toList, (UInt8.ofNat c.toNat).toNat = c.toNat := by
    intro c hc
    have := h c hc
    rw [UInt8.toNat_ofNat']
    omega
  have hall : (encodeAscii s).all (· < 128) = true := by
    rw [List.all_eq_true]
    intro x hx
    obtain ⟨c, hc, rfl⟩ := List.mem_map.1 hx
    rw [decide_eq_true_eq, UInt8.lt_iff_toNat_lt, hbyte c hc]
    exact h c hc
  have hmap : (encodeAscii s).map (fun x => Char.ofNat x.toNat) = s.toList := by
    rw [encodeAscii, List.map_map]
    refine (List.map_congr_left fun c hc => ?_).trans (List.map_id _)
    simp only [Function.comp_apply, hbyte c hc, Char.ofNat_toNat, id]
  rw [decodeAscii, if_pos hall, hmap, String.ofList_toList]

/-- The token can be read back from its header. -/
theorem decode_bearerHeader {token : String} (h : validToken token = true) :
    decodeAscii ((bearerHeader token).drop 7) = .ok token := by
  have hdrop : (bearerHeader token).drop 7 = encodeAscii token := by
    rw [bearerHeader, encodeAscii_append]
    exact List.drop_left' (by decide)
  rw [hdrop]
  refine decodeAscii_encodeAscii fun c hc => isTokenChar_ascii ?_
  simp only [validToken, Bool.and_eq_true, List.all_eq_true] at h
  exact h.2 c hc

/-! ## Client files -/

variable {clients : List (String × Option String)}

/-- What a client file that is accepted holds, and the credentials made of it: each client has a
valid id and token, and no two have the same token. -/
theorem loadClients_eq_ok {credentials credentials' : List (Bytes × String)}
    (h : loadClients credentials clients = .ok credentials')
    (hn : (credentials.map Prod.fst).Nodup) :
    (credentials'.map Prod.fst).Nodup ∧
      (∀ cid token, (cid, some token) ∈ clients → validId cid = true ∧ validToken token = true) ∧
      ∀ header cid, (header, cid) ∈ credentials' ↔ (header, cid) ∈ credentials ∨
        ∃ token, (cid, some token) ∈ clients ∧ header = bearerHeader token := by
  induction clients generalizing credentials with
  | nil =>
    obtain rfl := Except.ok.inj h
    exact ⟨hn, by simp, by simp⟩
  | cons x rest ih =>
    obtain ⟨cid, token⟩ := x
    unfold loadClients at h
    split_ifs at h with hid
    cases token with
    | none => cases h
    | some token =>
      simp only at h
      split_ifs at h with htoken hdup
      have hn' : ((credentials ++ [(bearerHeader token, cid)]).map Prod.fst).Nodup := by
        rw [List.map_append, List.map_singleton, List.nodup_append]
        refine ⟨hn, by simp, fun a ha b hb => ?_⟩
        rintro rfl
        rw [List.mem_singleton.1 hb] at ha
        exact hdup ha
      obtain ⟨hnodup, hvalid, hmem⟩ := ih h hn'
      refine ⟨hnodup, fun cid' token' hm => ?_, fun header cid' => ?_⟩
      · rcases List.mem_cons.1 hm with hm | hm
        · obtain ⟨rfl, ht⟩ := Prod.mk.inj hm
          obtain rfl := Option.some.inj ht
          exact ⟨by simpa using hid, by simpa using htoken⟩
        · exact hvalid cid' token' hm
      · rw [hmem, List.mem_append, List.mem_singleton, Prod.mk.injEq, or_assoc]
        refine or_congr_right ?_
        constructor
        · rintro (⟨rfl, rfl⟩ | ⟨token', hm, hh⟩)
          · exact ⟨token, by simp, rfl⟩
          · exact ⟨token', List.mem_cons_of_mem _ hm, hh⟩
        · rintro ⟨token', hm, hh⟩
          rcases List.mem_cons.1 hm with hm | hm
          · obtain ⟨rfl, ht⟩ := Prod.mk.inj hm
            exact .inl ⟨Option.some.inj ht ▸ hh, rfl⟩
          · exact .inr ⟨token', hm, hh⟩

variable {credentials : List (Bytes × String)}

theorem loadClientTokens_eq_ok (h : loadClientTokens (some clients) = .ok credentials) :
    (credentials.map Prod.fst).Nodup ∧
      (∀ cid token, (cid, some token) ∈ clients → validId cid = true ∧ validToken token = true) ∧
      ∀ header cid, (header, cid) ∈ credentials ↔
        ∃ token, (cid, some token) ∈ clients ∧ header = bearerHeader token := by
  unfold loadClientTokens at h
  split at h
  case h_1 => cases h
  case h_2 => cases h
  case h_3 clients' hne heq =>
    obtain rfl := Option.some.inj heq
    simpa using loadClients_eq_ok h (by simp)

/-- The request has one `authorization` header, which is the token of a client of the file. -/
structure Carries (clients : List (String × Option String)) (scope : Scope) (token cid : String) :
    Prop where
  header : authorizations scope = [bearerHeader token]
  client : (cid, some token) ∈ clients

/-- It carries one token, and there is one client of that token. -/
theorem Carries.unique {scope : Scope} {token token' cid cid' : String}
    (h : Carries clients scope token cid)
    (hload : loadClientTokens (some clients) = .ok credentials)
    (h' : Carries clients scope token' cid') : token' = token ∧ cid' = cid := by
  obtain ⟨hnodup, hvalid, hmem⟩ := loadClientTokens_eq_ok hload
  have hheader : bearerHeader token' = bearerHeader token :=
    List.singleton_injective (h'.header.symm.trans h.header)
  have htoken : token' = token := by
    have hd := decode_bearerHeader (hvalid _ _ h'.client).2
    rw [hheader, decode_bearerHeader (hvalid _ _ h.client).2] at hd
    exact (Except.ok.inj hd).symm
  have heq := List.inj_on_of_nodup_map hnodup ((hmem _ _).2 ⟨token', h'.client, rfl⟩)
    ((hmem _ _).2 ⟨token, h.client, rfl⟩) hheader
  exact ⟨htoken, congrArg Prod.snd heq⟩

/-! ## The decision -/

/-- The credentials of a file, as the wrapper takes them. -/
def table (credentials : List (Bytes × String)) : List (Bytes × Option String) :=
  credentials.map fun c => (c.1, some c.2)

theorem mem_matching {scope : Scope} {x : Option String} :
    x ∈ matching (table credentials) scope ↔ ∃ header cid, x = some cid ∧
      authorizations scope = [header] ∧ (header, cid) ∈ credentials := by
  unfold matching table
  split
  case h_1 header hh =>
    simp only [List.mem_map, List.mem_filter, decide_eq_true_eq, hh, List.cons.injEq, and_true]
    constructor
    · rintro ⟨_, ⟨⟨c, hc, rfl⟩, rfl⟩, rfl⟩
      exact ⟨c.1, c.2, rfl, rfl, hc⟩
    · rintro ⟨_, cid, rfl, rfl, hc⟩
      exact ⟨_, ⟨⟨_, hc, rfl⟩, rfl⟩, rfl⟩
  case h_2 hne =>
    simp only [List.not_mem_nil, false_iff]
    rintro ⟨header, cid, -, hh, -⟩
    exact hne _ hh

/-- What the wrapper decides on an HTTP request. -/
theorem bearerAuth_cases (hload : loadClientTokens (some clients) = .ok credentials)
    {scope : Scope} (ht : scope.type = "http") :
    (∃ token cid, Carries clients scope token cid ∧
      bearerAuth (table credentials) scope =
        .ok (some { scope with user := some (.authenticatedUser token cid) })) ∨
    (¬∃ token cid, Carries clients scope token cid) ∧
      bearerAuth (table credentials) scope = .ok none := by
  obtain ⟨-, hvalid, hmem⟩ := loadClientTokens_eq_ok hload
  unfold bearerAuth
  rw [if_neg (not_not.2 ht)]
  split
  case h_1 hm =>
    refine .inr ⟨?_, rfl⟩
    rintro ⟨token, cid, hc⟩
    have : some cid ∈ matching (table credentials) scope :=
      mem_matching.2 ⟨_, cid, rfl, hc.header, (hmem _ _).2 ⟨token, hc.client, rfl⟩⟩
    rw [hm] at this
    cases this
  case h_2 hm =>
    obtain ⟨_, _, hx, -⟩ := mem_matching.1 (hm ▸ List.mem_cons_self)
    cases hx
  case h_3 cid rest hm =>
    obtain ⟨header, cid', hx, hh, hc⟩ := mem_matching.1 (hm ▸ List.mem_cons_self)
    obtain rfl := Option.some.inj hx
    obtain ⟨token, hclient, rfl⟩ := (hmem _ _).1 hc
    refine .inl ⟨token, cid, ⟨hh, hclient⟩, ?_⟩
    rw [hh, List.headD_cons, decode_bearerHeader (hvalid _ _ hclient).2]
    rfl

/-- The coroutine does what was decided. -/
theorem authMiddleware_eq (credentials : List (Bytes × Option String)) (scope : Scope) :
    authMiddleware credentials scope =
      match bearerAuth credentials scope with
      | .ok (some scope') => app scope'
      | .ok none => unauthorized
      | .error e => .raise e := by
  unfold authMiddleware bearerAuth
  split_ifs with ht
  · rfl
  · rcases matching credentials scope with _ | ⟨_ | cid, rest⟩
    · rfl
    · rfl
    · cases decodeAscii (((authorizations scope).headD []).drop 7) <;> rfl

/-! ## The run -/

theorem app_events (scope : Scope) (fates : List (Fate PyExc Bool)) :
    (app scope fates []).2.1 = [.invoked scope] := by
  rcases fates with _ | ⟨_ | _ | _, rest⟩ <;> rfl

theorem app_tame (scope : Scope) : (app scope).Tame := .step fun _ => ⟨_, rfl⟩

theorem send_tame (message : Message) : (send message).Tame := .step fun _ => ⟨_, rfl⟩

theorem unauthorized_tame : unauthorized.Tame := (send_tame _).bind fun _ => send_tame _

/-- The messages of the answer 401. -/
def refusal : List Event :=
  [.sent (.responseStart 401 (unauthorizedHeaders unauthorizedBody)),
    .sent (.responseBody unauthorizedBody)]

theorem unauthorized_runs : unauthorized.Runs [] () refusal :=
  (Faulty.Runs.step rfl).bind (.step rfl)

/-- An answer that is interrupted is the beginning of one. -/
theorem unauthorized_events (fates : List (Fate PyExc Bool)) :
    (unauthorized fates []).2.1 <+: refusal := by
  -- after the first message, the second is out or not
  have hsecond : (send (.responseBody unauthorizedBody)).wp (refusal.take 1)
      ⟨fun _ l => l <+: refusal, fun _ l => l <+: refusal, fun l => l <+: refusal⟩ := by
    refine Faulty.wp_step (fun a l h => ?_) (fun _ h => by cases h) fun d => ?_
    · cases h
      exact List.prefix_refl _
    · cases d
      · exact ⟨fun _ => List.take_prefix 1 refusal, List.take_prefix 1 refusal⟩
      · exact ⟨fun _ => List.prefix_refl _, List.prefix_refl _⟩
  have hall : unauthorized.wp []
      ⟨fun _ l => l <+: refusal, fun _ l => l <+: refusal, fun l => l <+: refusal⟩ := by
    refine Faulty.wp_bind (Faulty.wp_step (fun a l h => ?_) (fun _ h => by cases h) fun d => ?_)
    · cases h
      exact hsecond
    · cases d
      · exact ⟨fun _ => List.nil_prefix, List.nil_prefix⟩
      · exact ⟨fun _ => List.take_prefix 1 refusal, List.take_prefix 1 refusal⟩
  have := hall fates
  revert this
  cases (unauthorized fates []).1 <;> exact id

/-! ## The gate -/

/-- What comes of a request, and how the wrapper ends. -/
def respond (credentials : List (Bytes × String)) (scope : Scope)
    (fates : List (Fate PyExc Bool)) : Outcome PyExc Unit × List Event :=
  let r := authMiddleware (table credentials) scope fates []
  (r.1, r.2.1)

/-- **The gate admits the configured credentials and nothing else.** Let a client file be loaded and
a request be an HTTP request. Whatever fails on the way, the app is called if and only if the
request carries the token of a client. Then this client is the only one, the app is called once, and
the scope it gets differs from that of the request in the `user`, which is the client. Otherwise
nothing but an answer 401 is sent, whole if nothing fails, whose content length is that of its body.
The wrapper itself raises nothing. -/
theorem gate_exact {clients : List (String × Option String)}
    {credentials : List (Bytes × String)}
    (hload : loadClientTokens (some clients) = .ok credentials) (scope : Scope)
    (ht : scope.type = "http") :
    (∀ fates, (∃ scope', .invoked scope' ∈ (respond credentials scope fates).2) ↔
      ∃ token cid, Carries clients scope token cid) ∧
    (∀ token cid, Carries clients scope token cid →
      (∀ token' cid', Carries clients scope token' cid' → token' = token ∧ cid' = cid) ∧
      ∀ fates, (respond credentials scope fates).2 =
        [.invoked { scope with user := some (.authenticatedUser token cid) }]) ∧
    ((¬∃ token cid, Carries clients scope token cid) →
      ∃ headers body,
        (headers.filter fun h => lower h.1 = encodeAscii "content-length") =
          [(encodeAscii "content-length", encodeAscii (toString body.length))] ∧
        (∀ fates, (respond credentials scope fates).2 <+:
          [.sent (.responseStart 401 headers), .sent (.responseBody body)]) ∧
        ∀ fates, (∀ f ∈ fates, f = .go) → (respond credentials scope fates).2 =
          [.sent (.responseStart 401 headers), .sent (.responseBody body)]) ∧
    ∀ fates e, (respond credentials scope fates).1 = .raised e → ∃ d, .fail e d ∈ fates := by
  have heq := authMiddleware_eq (table credentials) scope
  unfold respond
  simp only
  rcases bearerAuth_cases hload ht with ⟨token, cid, hc, hauth⟩ | ⟨hno, hauth⟩
  · simp only [hauth] at heq
    rw [heq]
    refine ⟨fun fates => ⟨fun _ => ⟨token, cid, hc⟩, fun _ => ?_⟩, fun token' cid' hc' => ?_,
      fun hno => absurd ⟨token, cid, hc⟩ hno, fun fates e => (app_tame _).raised fates [] e⟩
    · exact ⟨_, by rw [app_events]; exact .head _⟩
    · obtain ⟨rfl, rfl⟩ := hc.unique hload hc'
      exact ⟨fun _ _ hc'' => hc.unique hload hc'', fun fates => app_events _ fates⟩
  · simp only [hauth] at heq
    rw [heq]
    refine ⟨fun fates => ⟨?_, fun h => absurd h hno⟩,
      fun token cid hc => absurd ⟨token, cid, hc⟩ hno,
      fun _ => ⟨unauthorizedHeaders unauthorizedBody, unauthorizedBody, by decide +kernel,
        unauthorized_events, fun fates hgo => ?_⟩,
      fun fates e => unauthorized_tame.raised fates [] e⟩
    · rintro ⟨scope', hs⟩
      have := (unauthorized_events fates).subset hs
      simp [refusal] at this
    · obtain ⟨n, hrun⟩ := unauthorized_runs
      rw [hrun fates fun f hf => hgo f (List.mem_of_mem_take hf)]
      rfl

/-! ## A request of alice -/

def sampleToken : String := "0123456789abcdef0123456789abcdef"

/-- A request with her token. -/
def sampleScope : Scope where
  type := "http"
  headers := [(encodeAscii "Authorization", bearerHeader sampleToken)]
  user := none
  entries := []

/-- A request that has it twice, and a user. -/
def twiceScope : Scope where
  type := "http"
  headers := [(encodeAscii "authorization", bearerHeader sampleToken),
    (encodeAscii "AUTHORIZATION", bearerHeader sampleToken)]
  user := some .other
  entries := []

/-- The first gets through as alice, the second does not. -/
theorem gate_exact_sample :
    ∃ credentials, loadClientTokens (some [("alice", some sampleToken)]) = .ok credentials ∧
      (respond credentials sampleScope []).2 =
        [.invoked { sampleScope with user := some (.authenticatedUser sampleToken "alice") }] ∧
      ∀ fates scope', .invoked scope' ∉ (respond credentials twiceScope fates).2 := by
  have hload : loadClientTokens (some [("alice", some sampleToken)]) =
      .ok [(bearerHeader sampleToken, "alice")] := by decide +kernel
  refine ⟨_, hload, ?_, fun fates scope' hs => ?_⟩
  · exact ((gate_exact hload sampleScope rfl).2.1 sampleToken "alice" ⟨rfl, .head _⟩).2 []
  · obtain ⟨token, cid, hc⟩ := ((gate_exact hload twiceScope rfl).1 fates).1 ⟨scope', hs⟩
    have hlen : (authorizations twiceScope).length = 2 := by decide +kernel
    rw [hc.header] at hlen
    cases hlen

end MemoryBridge.Http
