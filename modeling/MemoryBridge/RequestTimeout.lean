import MemoryBridge.RawClient
import Mathlib.Algebra.Order.Ring.Rat
import Mathlib.Tactic.Linarith

/-!
# How long a request waits (`deadline_timeout`)

Each turn of the loop of `_request` reads the queue with the full timeout, so every message that is
not the response starts the wait anew. `awaitTimed` is the loop on messages that arrive one after
the other, with the time that passes; handling them takes none. `request_bounded_iff` says on which
arrivals the timeout bounds the whole wait.
-/

namespace MemoryBridge.RawClient

/-! ## Arrivals -/

/-- A message, and the time from the one before, or from the request, to its arrival. -/
structure Arrival where
  delay : ℚ
  msg : Dict
  nonneg : 0 ≤ delay
  wellFormed : WellFormed msg

/-- The messages that arrive within `t`. -/
def within : ℚ → List Arrival → List Dict
  | _, [] => []
  | t, a :: rest => if a.delay ≤ t then a.msg :: within (t - a.delay) rest else []

/-- How a request ends, and how long it has waited. -/
structure TimedOutcome where
  result : Except Exc Value
  client : Client
  waited : ℚ

/-- The same after another wait. -/
def TimedOutcome.later (o : TimedOutcome) (d : ℚ) : TimedOutcome :=
  { o with waited := d + o.waited }

/-- The loop of `_request` on arrivals, the last of which is followed by silence. -/
def awaitTimed (requestId : ℕ) (timeout : ℚ) : List Arrival → Client → TimedOutcome
  | arrivals, c =>
    if timeout < 0 then ⟨.error .valueError, c, 0⟩
    else
      match arrivals with
      | [] => ⟨.error (.connectionError (.noMessage timeout)), c, timeout⟩
      | a :: rest =>
        if timeout < a.delay then ⟨.error (.connectionError (.noMessage timeout)), c, timeout⟩
        else
          match recvItem timeout (.line a.msg) with
          | .error e => ⟨.error e, c, a.delay⟩
          | .ok msg =>
            match c.turn requestId msg with
            | .done r c' => ⟨r, c', a.delay⟩
            | .wait c' => (awaitTimed requestId timeout rest c').later a.delay

/-- `_request` on arrivals. -/
def Client.requestTimed (c : Client) (q : Request) (arrivals : List Arrival) : TimedOutcome :=
  let requestId := c.nextId
  match { c with nextId := requestId + 1 }.send (q.message requestId) with
  | (.error e, c') => ⟨.error e, c', 0⟩
  | (.ok (), c') => awaitTimed requestId (q.timeout.getD c.defaultTimeout) arrivals c'

/-! ## When the timeout bounds the wait -/

/-- The response to request `n` arrives within `t`. -/
def ResponseWithin (n : ℕ) (t : ℚ) (arrivals : List Arrival) : Prop :=
  ∃ m ∈ within t arrivals, IsResponse m ∧ HasId n m

/-- A request of the server with the id `n` arrives within `t`. -/
def ClashWithin (n : ℕ) (t : ℚ) (arrivals : List Arrival) : Prop :=
  ∃ m ∈ within t arrivals, IsServerRequest m ∧ HasId n m

/-- Among the messages, and before any with the id `n`, there is a request of the server to which
the reply cannot be written. -/
def Breaks (n : ℕ) (c : Client) (messages : List Dict) : Prop :=
  ∃ seen m later, messages = seen ++ m :: later ∧ (∀ x ∈ seen, ¬HasId n x) ∧ IsServerRequest m ∧
    ¬HasId n m ∧ (c.stdin.drop (serverRequests seen).length).headD true = false

/-- The wait is bounded by `t`: unless the response arrives within `t`, there is a
`ConnectionError`, after no more than `t`. -/
def Bounded (n : ℕ) (t : ℚ) (arrivals : List Arrival) (o : TimedOutcome) : Prop :=
  ¬ResponseWithin n t arrivals →
    (∃ cause, o.result = .error (.connectionError cause)) ∧ o.waited ≤ t

section Wait

variable {n : ℕ} {t b : ℚ} {c : Client} {a : Arrival} {rest : List Arrival}

theorem within_of_le (h : a.delay ≤ t) :
    within t (a :: rest) = a.msg :: within (t - a.delay) rest := if_pos h

theorem within_of_lt (h : t < a.delay) : within t (a :: rest) = [] := if_neg (not_le.2 h)

theorem awaitTimed_nil (ht : 0 ≤ t) :
    awaitTimed n t [] c = ⟨.error (.connectionError (.noMessage t)), c, t⟩ := by
  rw [awaitTimed, if_neg (not_lt.2 ht)]

theorem awaitTimed_of_lt (ht : 0 ≤ t) (h : t < a.delay) :
    awaitTimed n t (a :: rest) c = ⟨.error (.connectionError (.noMessage t)), c, t⟩ := by
  rw [awaitTimed, if_neg (not_lt.2 ht)]
  exact if_pos h

/-- A message that arrives in time is handled by a turn of the loop. -/
theorem awaitTimed_of_le (ht : 0 ≤ t) (h : a.delay ≤ t) :
    awaitTimed n t (a :: rest) c =
      match c.turn n a.msg with
      | .done r c' => ⟨r, c', a.delay⟩
      | .wait c' => (awaitTimed n t rest c').later a.delay := by
  rw [awaitTimed, if_neg (not_lt.2 ht)]
  simp only [if_neg (not_lt.2 h), recvItem_line a.wellFormed]

/-- What a read of the queue gives, when this is the next arrival. -/
def Arrival.reception (t : ℚ) (a : Arrival) : Reception :=
  if a.delay ≤ t then .line a.msg else .silence

/-- The timed loop is the loop on what its reads give. -/
theorem awaitTimed_result (ht : 0 ≤ t) (arrivals : List Arrival) (c : Client) :
    (awaitTimed n t arrivals c).result = (await n t (arrivals.map (Arrival.reception t)) c).1 := by
  induction arrivals generalizing c with
  | nil => rw [awaitTimed_nil ht, List.map_nil, await_nil (not_lt.2 ht)]
  | cons a rest ih =>
    rw [List.map_cons, await_cons (not_lt.2 ht), Arrival.reception]
    by_cases h : a.delay ≤ t
    · rw [awaitTimed_of_le ht h, if_pos h, recvItem_line a.wellFormed]
      simp only
      cases c.turn n a.msg with
      | done r c' => rfl
      | wait c' => exact ih c'
    · rw [awaitTimed_of_lt ht (not_le.1 h), if_neg h]
      rfl

theorem waited_nonneg (ht : 0 ≤ t) (arrivals : List Arrival) (c : Client) :
    0 ≤ (awaitTimed n t arrivals c).waited := by
  induction arrivals generalizing c with
  | nil => rwa [awaitTimed_nil ht]
  | cons a rest ih =>
    by_cases h : a.delay ≤ t
    · rw [awaitTimed_of_le ht h]
      cases c.turn n a.msg with
      | done r c' => exact a.nonneg
      | wait c' => exact add_nonneg a.nonneg (ih c')
    · rwa [awaitTimed_of_lt ht (not_le.1 h)]

theorem PassedOver.breaks_cons_iff {msg : Dict} {messages : List Dict} (hp : PassedOver n c msg) :
    Breaks n c (msg :: messages) ↔ Breaks n (c.passOver [msg]) messages := by
  have hid : ¬HasId n msg := fun h => hp.other h.has_id h
  have hdrop (seen : List Dict) : c.stdin.drop (serverRequests (msg :: seen)).length =
      (c.passOver [msg]).stdin.drop (serverRequests seen).length := by
    have hsplit : msg :: seen = [msg] ++ seen := rfl
    rw [Client.passOver, List.drop_drop, serverRequests, serverRequests, serverRequests, hsplit,
      List.filter_append, List.length_append]
  constructor
  · rintro ⟨seen, m, later, hm, hseen, hr, hn, hb⟩
    cases seen with
    | nil =>
      obtain ⟨rfl, rfl⟩ := List.cons.inj hm
      have hwritten := hp.written hr
      have hhead : c.stdin.headD true = false := hb
      rw [hhead] at hwritten
      cases hwritten
    | cons x seen =>
      obtain ⟨rfl, rfl⟩ := List.cons.inj hm
      exact ⟨seen, m, later, rfl, fun y hy => hseen y (.tail _ hy), hr, hn, hdrop seen ▸ hb⟩
  · rintro ⟨seen, m, later, rfl, hseen, hr, hn, hb⟩
    refine ⟨msg :: seen, m, later, rfl, ?_, hr, hn, (hdrop seen).symm ▸ hb⟩
    intro y hy
    rcases List.mem_cons.1 hy with rfl | hy
    · exact hid
    · exact hseen y hy

theorem not_breaks_nil : ¬Breaks n c [] := by
  rintro ⟨seen, m, later, h, -⟩
  simp at h

/-- A message with the id comes before any that could break the wait. -/
theorem not_breaks_of_hasId {msg : Dict} {messages : List Dict} (h : HasId n msg) :
    ¬Breaks n c (msg :: messages) := by
  rintro ⟨seen, m, later, hm, hseen, -, hn, -⟩
  cases seen with
  | nil =>
    obtain ⟨rfl, rfl⟩ := List.cons.inj hm
    exact hn h
  | cons x seen =>
    obtain ⟨rfl, rfl⟩ := List.cons.inj hm
    exact hseen _ (.head _) h

/-- What must hold of the arrivals, with `b` left of the time: the response arrives or a reply
cannot be written in that time; or no time has passed, none passes before the messages that arrive
within the timeout, and no request of the server among them carries the id. -/
def InTime (n : ℕ) (t b : ℚ) (c : Client) (arrivals : List Arrival) : Prop :=
  ResponseWithin n b arrivals ∨ Breaks n c (within b arrivals) ∨
    (b = t ∧ ¬ClashWithin n t arrivals ∧ within t arrivals = within 0 arrivals)

theorem not_responseWithin {arrivals : List Arrival} (h : within b arrivals = []) :
    ¬ResponseWithin n b arrivals := by
  rintro ⟨m, hm, -⟩
  rw [h] at hm
  cases hm

/-- Where nothing arrives in the time that is left, all of the timeout must be left. -/
theorem inTime_of_nil {arrivals : List Arrival} (h : within b arrivals = []) :
    InTime n t b c arrivals ↔
      b = t ∧ ¬ClashWithin n t arrivals ∧ within t arrivals = within 0 arrivals := by
  rw [InTime, or_iff_right (not_responseWithin h), h, or_iff_right not_breaks_nil]

/-- A read that times out. -/
theorem silence_bounded_iff {arrivals : List Arrival} (hbt : b ≤ t)
    (h : within t arrivals = []) (hb : within b arrivals = []) (h₀ : within 0 arrivals = []) :
    Bounded n b arrivals ⟨.error (.connectionError (.noMessage t)), c, t⟩ ↔
      InTime n t b c arrivals := by
  have hclash : ¬ClashWithin n t arrivals := by
    rintro ⟨m, hm, -⟩
    rw [h] at hm
    cases hm
  rw [inTime_of_nil hb, Bounded, forall_prop_of_true (not_responseWithin hb)]
  exact ⟨fun hle => ⟨le_antisymm hbt hle.2, hclash, h.trans h₀.symm⟩,
    fun heq => ⟨⟨_, rfl⟩, heq.1.ge⟩⟩

/-- A message with the id ends the wait, and not with a `ConnectionError`. -/
theorem hasId_bounded_iff (hid : HasId n a.msg) (hat : a.delay ≤ t) :
    Bounded n b (a :: rest) ⟨if a.msg.has "error" then .error (mcpError a.msg)
        else .ok (a.msg.get "result" (.dict [])), c, a.delay⟩ ↔
      InTime n t b c (a :: rest) := by
  have hmcp (cause : ConnectionFailure) : mcpError a.msg ≠ .connectionError cause := by
    rw [mcpError]
    split <;> simp
  constructor
  · intro h
    by_contra hnot
    obtain ⟨⟨cause, hcause⟩, -⟩ := h fun hresp => hnot (.inl hresp)
    split at hcause
    · exact hmcp cause (Except.error.inj hcause)
    · cases hcause
  · rintro (hresp | hbreaks | ⟨rfl, hclash, -⟩) hnot
    · exact absurd hresp hnot
    · by_cases hab : a.delay ≤ b
      · rw [within_of_le hab] at hbreaks
        exact absurd hbreaks (not_breaks_of_hasId hid)
      · rw [within_of_lt (not_le.1 hab)] at hbreaks
        exact absurd hbreaks not_breaks_nil
    · have hmem : a.msg ∈ within b (a :: rest) := by
        rw [within_of_le hat]
        exact .head _
      rcases a.wellFormed.kinds with hk | hk | hk
      · exact absurd hid.has_id hk.2
      · exact absurd ⟨_, hmem, hk, hid⟩ hclash
      · exact absurd ⟨_, hmem, hk, hid⟩ hnot

/-- A reply that cannot be written ends the wait when the request arrives. -/
theorem broken_bounded_iff {c' : Client} (hr : IsServerRequest a.msg) (hn : ¬HasId n a.msg)
    (hbroken : c.stdin.headD true = false) (hat : a.delay ≤ t) :
    Bounded n b (a :: rest) ⟨.error (.connectionError .stdinClosed), c', a.delay⟩ ↔
      InTime n t b c (a :: rest) := by
  by_cases hab : a.delay ≤ b
  · refine iff_of_true (fun _ => ⟨⟨_, rfl⟩, hab⟩) (.inr (.inl ?_))
    exact ⟨[], a.msg, within (b - a.delay) rest, within_of_le hab, by simp, hr, hn, hbroken⟩
  · have hnil : within b (a :: rest) = [] := within_of_lt (not_le.1 hab)
    rw [inTime_of_nil hnil, Bounded, forall_prop_of_true (not_responseWithin hnil)]
    refine iff_of_false (fun h => hab h.2) ?_
    rintro ⟨rfl, -⟩
    exact hab hat

theorem PassedOver.responseWithin_cons_iff (hp : PassedOver n c a.msg) (hab : a.delay ≤ b) :
    ResponseWithin n b (a :: rest) ↔ ResponseWithin n (b - a.delay) rest := by
  have hid : ¬HasId n a.msg := fun h => hp.other h.has_id h
  rw [ResponseWithin, within_of_le hab]
  simp [ResponseWithin, hid]

/-- A message that is passed over takes its delay from the time that is left. -/
theorem PassedOver.bounded_cons_iff (hp : PassedOver n c a.msg) (hab : a.delay ≤ b)
    (o : TimedOutcome) :
    Bounded n b (a :: rest) (o.later a.delay) ↔ Bounded n (b - a.delay) rest o := by
  have hwaited : (o.later a.delay).waited ≤ b ↔ o.waited ≤ b - a.delay := le_sub_iff_add_le'.symm
  rw [Bounded, Bounded, hp.responseWithin_cons_iff hab, hwaited]
  rfl

theorem PassedOver.inTime_cons_iff (hp : PassedOver n c a.msg) (hab : a.delay ≤ b) (hbt : b ≤ t) :
    InTime n t b c (a :: rest) ↔ InTime n t (b - a.delay) (c.passOver [a.msg]) rest := by
  have hid : ¬HasId n a.msg := fun h => hp.other h.has_id h
  have hclash : ClashWithin n t (a :: rest) ↔ ClashWithin n (t - a.delay) rest := by
    rw [ClashWithin, within_of_le (hab.trans hbt)]
    simp [ClashWithin, hid]
  rw [InTime, InTime, hp.responseWithin_cons_iff hab, hclash, within_of_le hab,
    hp.breaks_cons_iff, within_of_le (hab.trans hbt)]
  rcases a.nonneg.eq_or_lt with hzero | hpos
  · rw [within_of_le hzero.ge, ← hzero]
    simp
  · -- time has passed
    rw [within_of_lt hpos]
    have hlt : b - a.delay ≠ t := by
      intro h
      linarith
    simp [hlt]

/-- **The wait, with `b` left of the time.** -/
theorem awaitTimed_bounded_iff (ht : 0 ≤ t) (arrivals : List Arrival) (c : Client) (hb : 0 ≤ b)
    (hbt : b ≤ t) :
    Bounded n b arrivals (awaitTimed n t arrivals c) ↔ InTime n t b c arrivals := by
  induction arrivals generalizing c b with
  | nil =>
    rw [awaitTimed_nil ht]
    exact silence_bounded_iff hbt rfl rfl rfl
  | cons a rest ih =>
    by_cases hat : a.delay ≤ t
    · rw [awaitTimed_of_le ht hat]
      rcases message_cases n c a.msg with hid | ⟨hr, hn, hbroken⟩ | hp
      · simp only [turn_of_hasId hid.has_id hid]
        exact hasId_bounded_iff hid hat
      · simp only [turn_of_broken hr hn hbroken]
        exact broken_bounded_iff hr hn hbroken hat
      · simp only [hp.turn a.wellFormed]
        by_cases hab : a.delay ≤ b
        · have hbt' : b - a.delay ≤ t := by linarith [a.nonneg]
          rw [hp.inTime_cons_iff hab hbt, hp.bounded_cons_iff hab]
          exact ih (c.passOver [a.msg]) (sub_nonneg.2 hab) hbt'
        · -- the message comes too late, and whatever follows it
          have hnil : within b (a :: rest) = [] := within_of_lt (not_le.1 hab)
          have hwaited := waited_nonneg (n := n) ht rest (c.passOver [a.msg])
          rw [inTime_of_nil hnil, Bounded, forall_prop_of_true (not_responseWithin hnil)]
          refine iff_of_false (fun h => ?_) ?_
          · have hle : a.delay + (awaitTimed n t rest (c.passOver [a.msg])).waited ≤ b := h.2
            linarith
          · rintro ⟨rfl, -⟩
            exact hab hat
    · have hlt := not_le.1 hat
      rw [awaitTimed_of_lt ht hlt]
      exact silence_bounded_iff hbt (within_of_lt hlt) (within_of_lt (hbt.trans_lt hlt))
        (within_of_lt (ht.trans_lt hlt))

/-- With a negative timeout the first read raises. -/
theorem awaitTimed_of_neg (ht : t < 0) (arrivals : List Arrival) :
    awaitTimed n t arrivals c = ⟨.error .valueError, c, 0⟩ := by
  cases arrivals <;> rw [awaitTimed, if_pos ht]

theorem requestTimed_eq (c : Client) (q : Request) (arrivals : List Arrival) :
    c.requestTimed q arrivals = if c.stdin.headD true then
      awaitTimed c.nextId (q.timeout.getD c.defaultTimeout) arrivals (c.requested q)
    else ⟨.error (.connectionError .stdinClosed),
      { c with nextId := c.nextId + 1, stdin := c.stdin.tail }, 0⟩ := by
  by_cases h : c.stdin.headD true <;> simp only [Client.requestTimed, Client.send, h] <;> rfl

/-- **When the timeout bounds the wait.** A request that times out does so within its timeout `t`
exactly if `t` is not negative and one of these holds: the request cannot be sent; the response
arrives within `t`; a reply to the server cannot be written within `t`; or whatever arrives within
`t` is there at once, and no request of the server among it carries the id. -/
theorem request_bounded_iff (c : Client) (q : Request) (arrivals : List Arrival) :
    Bounded c.nextId (q.timeout.getD c.defaultTimeout) arrivals (c.requestTimed q arrivals) ↔
      0 ≤ q.timeout.getD c.defaultTimeout ∧
        (c.stdin.headD true = false ∨
          ResponseWithin c.nextId (q.timeout.getD c.defaultTimeout) arrivals ∨
          Breaks c.nextId (c.requested q)
            (within (q.timeout.getD c.defaultTimeout) arrivals) ∨
          (¬ClashWithin c.nextId (q.timeout.getD c.defaultTimeout) arrivals ∧
            within (q.timeout.getD c.defaultTimeout) arrivals = within 0 arrivals)) := by
  rw [requestTimed_eq]
  generalize q.timeout.getD c.defaultTimeout = t
  rcases lt_or_ge t 0 with ht | ht
  · have hnil : within t arrivals = [] := by
      cases arrivals with
      | nil => rfl
      | cons a rest => exact within_of_lt (ht.trans_le a.nonneg)
    rw [Bounded, forall_prop_of_true (not_responseWithin hnil)]
    refine iff_of_false ?_ fun h => ht.not_ge h.1
    rintro ⟨⟨cause, hcause⟩, hle⟩
    split at hcause
    · rw [awaitTimed_of_neg ht] at hcause
      cases hcause
    · rename_i hsend
      rw [if_neg hsend] at hle
      exact ht.not_ge hle
  · rw [and_iff_right ht]
    by_cases hsend : c.stdin.headD true = true
    · rw [if_pos hsend, awaitTimed_bounded_iff ht arrivals _ ht le_rfl, InTime, hsend]
      simp
    · rw [if_neg hsend]
      exact iff_of_true (fun _ => ⟨⟨_, rfl⟩, ht⟩) (.inl (by simpa using hsend))

end Wait

/-! ## A server that sends notifications -/

/-- A notification one and a half seconds after the request or the message before. -/
def lateNotification : Arrival :=
  ⟨3 / 2, notification "notifications/message", by norm_num, wellFormed_notification _⟩

/-- A request with the timeout of the test, two seconds. -/
def shortRequest : Request := ⟨"initialize", none, some 2⟩

/-- **A wait of three and a half seconds**, with a timeout of two: a notification starts it anew. -/
theorem notification_extends_wait :
    ((Client.started 2 [] []).requestTimed shortRequest [lateNotification]).waited = 7 / 2 ∧
      ¬Bounded 1 2 [lateNotification]
        ((Client.started 2 [] []).requestTimed shortRequest [lateNotification]) := by
  have hwaited : ((Client.started 2 [] []).requestTimed shortRequest [lateNotification]).waited =
      7 / 2 := by
    decide +kernel
  refine ⟨hwaited, fun h => ?_⟩
  have hnone : ¬ResponseWithin 1 2 [lateNotification] := by
    rintro ⟨m, hm, hresp, -⟩
    rw [within_of_le (by decide +kernel), within, List.mem_singleton] at hm
    subst hm
    exact hresp.1 (by decide)
  have hle := (h hnone).2
  rw [hwaited] at hle
  norm_num at hle

end MemoryBridge.RawClient
