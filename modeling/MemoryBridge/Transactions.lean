import MemoryBridge.AuditChain
import MemoryBridge.Foundations.SingleWriter.Rules
import MemoryBridge.Server

/-!
# What the transactions of the server do

For each piece of the server that runs inside a transaction, the change it makes to the contents it
finds when it holds the lock, and the rule that its program makes that change or fails. `Logged` is
the append of one event, `Migrated` the migration of a legacy store, `SetTo` the transaction of
`memory_set`.
-/

open SingleWriter

namespace MemoryBridge

variable {S : Type} {rt : Runtime S} {C : CommitSpec Db Instant} {α : Type}

/-- The exception tells what the store holds: a write was refused, or a key has no fact. -/
def PyExc.IsVerdict : PyExc → Prop
  | .toolError msg =>
    "CAS failed for ".toList <+: msg.toList ∨ "no fact for key ".toList <+: msg.toList
  | _ => False

/-- What a call raises when it does not get to its answer. -/
abbrev NoVerdict (e : PyExc) : Prop := ¬e.IsVerdict

theorem noVerdict_exc (x : Failure) : NoVerdict x.exc := by
  cases x <;> exact id

/-- The verdicts are told from the other messages by their first letter. -/
theorem noVerdict_toolError {msg : String} (hC : msg.toList.head? ≠ some 'C')
    (hn : msg.toList.head? ≠ some 'n') : NoVerdict (.toolError msg) := by
  rintro (⟨l, hl⟩ | ⟨l, hl⟩)
  · exact hC (by rw [← hl]; rfl)
  · exact hn (by rw [← hl]; rfl)

/-- What the failures of the engine and of foreign code are not. -/
def NotIntegrity (e : PyExc) : Prop := ∀ msg, e ≠ .integrityError msg

theorem notIntegrity_exc (x : Failure) : NotIntegrity x.exc := by
  cases x <;> simp [NotIntegrity, Failure.exc]

theorem wp_runIf {c : Bool} {p : Py Unit} {l : Local Db Instant Bool}
    {Q : Post Db Instant Bool PyExc Unit} (hp : c = true → p.wp C l Q)
    (hn : c = false → Q (.ok ()) l) : (Py.runIf c p).wp C l Q := by
  cases c with
  | true => exact hp rfl
  | false => exact hn rfl

theorem clientId_noVerdict {cfg : Config} {ctx : Context} {claimed : Option String} {e : PyExc}
    (h : clientId cfg ctx claimed = .error e) : NoVerdict e := by
  unfold clientId at h
  split at h <;> split at h <;> cases h
  exact noVerdict_toolError (by decide) (by decide)

/-! ## Append -/

theorem digest_noVerdict {previous : Cell} {x : Event} {e : PyExc}
    (h : Audit.digest rt previous x = .error e) : NoVerdict e := by
  unfold Audit.digest Audit.payload at h
  split at h <;> cases h
  exact id

theorem insertEvent_noVerdict {r : EventRow} {d : Db} {e : PyExc}
    (h : insertEvent r d = .error e) : NoVerdict e := by
  unfold insertEvent insertRow at h
  split_ifs at h <;> try (cases h; exact id)
  split at h <;> cases h
  exact id

/-- The event that `append` adds to the contents `d`. -/
def nextEvent (timestamp clientId action : String) (key value : Option String) (d : Db) : Event :=
  ⟨Audit.nextId d.events.seq, .text timestamp, .text clientId, .text action, .ofOption key,
    .ofOption value⟩

/-- `append` turns the contents `d` into `d'`. -/
def Logged (rt : Runtime S) (timestamp clientId action : String) (key value : Option String)
    (d d' : Db) : Prop :=
  ∃ s, Audit.digest rt (Audit.tailHash (selectTail d))
      (nextEvent timestamp clientId action key value d) = .ok s ∧
    insertEvent ⟨nextEvent timestamp clientId action key value d, Audit.tailHash (selectTail d),
      .text s⟩ d = .ok (d', ())

section Append

variable {timestamp clientId action : String} {key value : Option String} {d d' b w : Db} {m : Bool}
  {h : List (Obs Db Instant)} {Q : Post Db Instant Bool PyExc Unit}

/-- What an insertion of an event does if it succeeds. -/
theorem insertEvent_eq_ok {r : EventRow} (hr : insertEvent r d = .ok (d', ())) :
    d.prevHashColumn = true ∧ d.eventHashColumn = true ∧ r.event.id ≤ maxInteger ∧
      ¬(d.requireHash = true ∧ (r.prevHash = .null ∨ r.eventHash = .null)) ∧
      ∃ t, d.events.insert r = some t ∧ d' = { d with events := t } := by
  unfold insertEvent insertRow at hr
  split_ifs at hr with h₁ h₂ h₃ h₄
  split at hr
  case h_2 => cases hr
  case h_1 t ht =>
    refine ⟨by simpa using h₁, by simpa using h₂, Int.not_lt.1 h₃, h₄, t, ht, ?_⟩
    simpa using hr.symm

theorem lt_nextId (d : Db) : d.events.seq.getD 0 < Audit.nextId d.events.seq := by
  cases d.events.seq with
  | none => simp [Audit.nextId]
  | some s => exact Int.lt_succ s

/-- One event is added at the end, with the hash of its predecessor and its own; nothing else
changes but the counter. -/
theorem Logged.spec (hl : Logged rt timestamp clientId action key value d d') :
    ∃ s t, Audit.digest rt (Audit.tailHash (selectTail d))
        (nextEvent timestamp clientId action key value d) = .ok s ∧
      d' = { d with events := t } ∧
      t.rows = d.events.rows ++ [⟨nextEvent timestamp clientId action key value d,
        Audit.tailHash (selectTail d), .text s⟩] ∧
      t.seq = some (Audit.nextId d.events.seq) ∧ hasChain d = true ∧
      Audit.nextId d.events.seq ≤ maxInteger := by
  obtain ⟨s, hs, hi⟩ := hl
  obtain ⟨hp, he, hid, -, t, ht, rfl⟩ := insertEvent_eq_ok hi
  obtain ⟨t', ht', hrows, hseq⟩ := d.events.insert_eq (r := ⟨nextEvent timestamp clientId action key
    value d, Audit.tailHash (selectTail d), .text s⟩) (lt_nextId d)
  obtain rfl : t = t' := Option.some.inj (ht.symm.trans ht')
  exact ⟨s, t, hs, rfl, hrows, hseq, by simp [hasChain, hp, he], hid⟩

theorem Logged.facts (hl : Logged rt timestamp clientId action key value d d') :
    d'.facts = d.facts := by
  obtain ⟨s, t, -, rfl, -⟩ := hl.spec
  rfl

theorem Logged.embeddings (hl : Logged rt timestamp clientId action key value d d') :
    d'.embeddings = d.embeddings := by
  obtain ⟨s, t, -, rfl, -⟩ := hl.spec
  rfl

theorem Logged.hasChain (hl : Logged rt timestamp clientId action key value d d') :
    MemoryBridge.hasChain d = true ∧ MemoryBridge.hasChain d' = true := by
  obtain ⟨s, t, -, rfl, -, -, hc, -⟩ := hl.spec
  exact ⟨hc, hc⟩

/-- The events are those before, and the one logged. -/
theorem Logged.events (hl : Logged rt timestamp clientId action key value d d') :
    selectEvents d' = selectEvents d ++ [nextEvent timestamp clientId action key value d] := by
  obtain ⟨s, t, -, rfl, hrows, -⟩ := hl.spec
  simp [selectEvents, hrows]

/-- A chain stays one. -/
theorem Logged.chained (hl : Logged rt timestamp clientId action key value d d')
    (hd : Audit.Chained rt d) : Audit.Chained rt d' := by
  obtain ⟨s, t, hs, rfl, hrows, -, hc, -⟩ := hl.spec
  refine ⟨hc, ?_⟩
  show Audit.ChainFrom rt _ t.rows
  rw [hrows, Audit.chainFrom_append_singleton, Audit.headFrom_eq_tailHash]
  exact ⟨hd.2, rfl, s, hs, rfl⟩

theorem wp_appendLocked (hQ : Aborts NoVerdict h Q)
    (hok : ∀ w', Logged rt timestamp clientId action key value w w' →
      Q (.ok ()) ⟨.writer b w', m, h⟩) :
    (Audit.appendLocked rt timestamp clientId action key value).wp C ⟨.writer b w, m, h⟩ Q := by
  refine Prog.wp_bind.2 (Prog.wp_select_writer noVerdict_exc (hQ.andThen _) ?_)
  refine Prog.wp_bind.2 (Prog.wp_select_writer noVerdict_exc (hQ.andThen _) ?_)
  refine Prog.wp_bind.2 ((Prog.wp_ofExcept _).2 ?_)
  show Prog.andThen C _ Q (Audit.digest rt (Audit.tailHash (selectTail w))
    (nextEvent timestamp clientId action key value w)) _
  cases hd : Audit.digest rt (Audit.tailHash (selectTail w))
      (nextEvent timestamp clientId action key value w) with
  | error e => exact hQ.here (digest_noVerdict hd) _ _
  | ok s =>
    exact Prog.wp_execute_writer noVerdict_exc hQ (fun w' _ hi => hok w' ⟨s, hd, hi⟩)
      fun _ he => hQ.here (insertEvent_noVerdict he) _ _

/-- `append` in a transaction that holds the lock. -/
theorem wp_append_writer (hQ : Aborts NoVerdict h Q)
    (hok : ∀ w', Logged rt timestamp clientId action key value w w' →
      Q (.ok ()) ⟨.writer b w', m, h⟩) :
    (Audit.append rt timestamp clientId action key value).wp C ⟨.writer b w, m, h⟩ Q := by
  refine Prog.wp_bind.2 (Prog.wp_inTransaction ?_)
  refine Prog.wp_bind.2 (wp_runIf (fun hc => by cases hc) fun _ => ?_)
  exact wp_appendLocked hQ hok

/-- `append` outside a transaction takes the lock itself. -/
theorem wp_append_idle (hQ : Aborts NoVerdict h Q)
    (hok : ∀ b w', Logged rt timestamp clientId action key value b w' →
      Q (.ok ()) ⟨.writer b w', m, h ++ [.lock b]⟩) :
    (Audit.append rt timestamp clientId action key value).wp C ⟨.idle, m, h⟩ Q := by
  refine Prog.wp_bind.2 (Prog.wp_inTransaction ?_)
  refine Prog.wp_bind.2 (wp_runIf (fun _ => ?_) fun hc => by cases hc)
  refine Prog.wp_beginImmediate noVerdict_exc ((hQ.andThen _).fails) fun b => ?_
  exact wp_appendLocked (hQ.quiet (by simp)) (hok b)

end Append

/-! ## Migration -/

/-- Only the hash columns of `events` may differ. -/
def Rehashed (d d' : Db) : Prop := ∃ f, d' = { d with events := d.events.rehash f }

theorem Rehashed.refl (d : Db) : Rehashed d d :=
  ⟨fun r => (r.prevHash, r.eventHash), by simp [EventTable.rehash]⟩

theorem Rehashed.trans {d d' d'' : Db} (h : Rehashed d d') (h' : Rehashed d' d'') :
    Rehashed d d'' := by
  obtain ⟨f, rfl⟩ := h
  obtain ⟨g, rfl⟩ := h'
  exact ⟨_, by rw [EventTable.rehash_rehash]⟩

theorem Rehashed.events {d d' : Db} (h : Rehashed d d') : selectEvents d' = selectEvents d := by
  obtain ⟨f, rfl⟩ := h
  exact d.events.rehash_events f

/-- A migration turns the contents `b`, whose events have no hashes, into `w`: the columns and the
trigger are added and the events are sealed. -/
structure Migrated (rt : Runtime S) (b w : Db) : Prop where
  legacy : b.prevHashColumn = false ∧ b.eventHashColumn = false ∧ b.requireHash = false
  rehashed : Rehashed { b with
    prevHashColumn := true, eventHashColumn := true, requireHash := true } w
  chained : Audit.Chained rt w

/-- What the transaction of `migrate` does: nothing if another process has sealed the store since
the first check. -/
def Migrates (rt : Runtime S) (b w : Db) : Prop :=
  (hasChain b = true ∧ w = b) ∨ Migrated rt b w

section Migrate

variable {b w : Db} {m : Bool} {h : List (Obs Db Instant)} {Q : Post Db Instant Bool PyExc Unit}

theorem updateHashes_noVerdict {id : ℤ} {p q : Cell} {d : Db} {e : PyExc}
    (h : updateHashes id p q d = .error e) : NoVerdict e := by
  unfold updateHashes at h
  split_ifs at h <;> cases h <;> exact not_false

/-- One `UPDATE` of the loop: the first row that is not sealed yet gets its hashes. -/
theorem updateHashes_eq_ok {id : ℤ} {p q : Cell} {w' : Db} {sealed rest : List EventRow}
    {r : EventRow} (hu : updateHashes id p q w = .ok (w', ()))
    (hrows : w.events.rows = sealed ++ r :: rest) (hid : r.event.id = id) :
    Rehashed w w' ∧ w'.events.rows = sealed ++ ⟨r.event, p, q⟩ :: rest := by
  unfold updateHashes at hu
  split_ifs at hu
  obtain rfl : _ = w' := congrArg Prod.fst (Except.ok.inj hu)
  refine ⟨⟨_, rfl⟩, ?_⟩
  have hs := w.events.sorted
  rw [hrows, List.pairwise_append, List.pairwise_cons] at hs
  obtain ⟨-, ⟨hafter, -⟩, hbefore⟩ := hs
  -- the other rows have other ids
  have hkeep : ∀ l : List EventRow, (∀ r' ∈ l, r'.event.id ≠ id) →
      l.map (fun r' => (⟨r'.event, (if r'.event.id = id then (p, q) else
        (r'.prevHash, r'.eventHash)).1, (if r'.event.id = id then (p, q) else
        (r'.prevHash, r'.eventHash)).2⟩ : EventRow)) = l := by
    intro l hl
    refine (List.map_congr_left fun r' hr' => ?_).trans (List.map_id l)
    rw [if_neg (hl r' hr')]
    rfl
  show w.events.rows.map _ = _
  rw [hrows, List.map_append, List.map_cons, hkeep sealed, hkeep rest]
  · simp only [if_pos hid]
  · intro r' hr'
    have := hafter r' hr'
    omega
  · intro r' hr'
    have := hbefore r' hr' r (by simp)
    omega

/-- The loop seals the rows that are left, after those sealed already. -/
theorem wp_sealRows (hQ : Aborts NoVerdict h Q)
    (hok : ∀ w', Rehashed w w' → Audit.ChainFrom rt (.text Audit.genesis) w'.events.rows →
      Q (.ok ()) ⟨.writer b w', m, h⟩)
    {sealed rest : List EventRow} (hrows : w.events.rows = sealed ++ rest)
    (hs : Audit.ChainFrom rt (.text Audit.genesis) sealed) :
    (Audit.sealRows rt (Audit.headFrom (.text Audit.genesis) sealed)
      (rest.map EventRow.event)).wp C ⟨.writer b w, m, h⟩ Q := by
  induction rest generalizing w sealed with
  | nil =>
    refine hok w (.refl w) ?_
    rwa [hrows, List.append_nil]
  | cons r rest ih =>
    refine Prog.wp_bind.2 ((Prog.wp_ofExcept _).2 ?_)
    cases hd : Audit.digest rt (Audit.headFrom (.text Audit.genesis) sealed) r.event with
    | error e => exact hQ.here (digest_noVerdict hd) _ _
    | ok s =>
      refine Prog.wp_bind.2 (Prog.wp_execute_writer noVerdict_exc (hQ.andThen _)
        (fun w' _ hu => ?_) fun e he => hQ.here (updateHashes_noVerdict he) _ _)
      obtain ⟨hre, hrows'⟩ := updateHashes_eq_ok hu hrows rfl
      have hhead : Audit.headFrom (.text Audit.genesis)
          (sealed ++ [⟨r.event, Audit.headFrom (.text Audit.genesis) sealed, .text s⟩]) =
          .text s := by
        simp [Audit.headFrom, EventRow.link, HashChain.head]
      show (Audit.sealRows rt (.text s) (rest.map EventRow.event)).wp C _ Q
      rw [← hhead]
      refine ih (fun w'' h'' hc => hok w'' (hre.trans h'') hc) ?_ ?_
      · rw [hrows']
        simp
      · exact Audit.chainFrom_append_singleton.2 ⟨hs, rfl, s, hd, rfl⟩

theorem addPrevHashColumn_eq_ok {d d' : Db} (h : addPrevHashColumn d = .ok (d', ())) :
    d.prevHashColumn = false ∧ d' = { d with
      events := d.events.rehash fun r => (.null, r.eventHash), prevHashColumn := true } := by
  unfold addPrevHashColumn at h
  split_ifs at h with hp
  exact ⟨by simpa using hp, (congrArg Prod.fst (Except.ok.inj h)).symm⟩

theorem addEventHashColumn_eq_ok {d d' : Db} (h : addEventHashColumn d = .ok (d', ())) :
    d.eventHashColumn = false ∧ d' = { d with
      events := d.events.rehash fun r => (r.prevHash, .null), eventHashColumn := true } := by
  unfold addEventHashColumn at h
  split_ifs at h with he
  exact ⟨by simpa using he, (congrArg Prod.fst (Except.ok.inj h)).symm⟩

theorem createTrigger_eq_ok {d d' : Db} (h : createTrigger d = .ok (d', ())) :
    d.requireHash = false ∧ d' = { d with requireHash := true } := by
  unfold createTrigger at h
  split_ifs at h with ht
  exact ⟨by simpa using ht, (congrArg Prod.fst (Except.ok.inj h)).symm⟩

theorem addPrevHashColumn_noVerdict {d : Db} {e : PyExc} (h : addPrevHashColumn d = .error e) :
    NoVerdict e := by
  unfold addPrevHashColumn at h
  split_ifs at h
  cases h
  exact id

theorem addEventHashColumn_noVerdict {d : Db} {e : PyExc} (h : addEventHashColumn d = .error e) :
    NoVerdict e := by
  unfold addEventHashColumn at h
  split_ifs at h
  cases h
  exact id

theorem createTrigger_noVerdict {d : Db} {e : PyExc} (h : createTrigger d = .error e) :
    NoVerdict e := by
  unfold createTrigger at h
  split_ifs at h
  cases h
  exact id

/-- The statements of `migrate` under the lock, after both checks found no chain. -/
theorem migrated_of_statements {b w₁ w₂ w₃ w₄ : Db} (h₁ : addPrevHashColumn b = .ok (w₁, ()))
    (h₂ : addEventHashColumn w₁ = .ok (w₂, ())) (h₃ : Rehashed w₂ w₃)
    (hc : Audit.ChainFrom rt (.text Audit.genesis) w₃.events.rows)
    (h₄ : createTrigger w₃ = .ok (w₄, ())) : Migrated rt b w₄ := by
  obtain ⟨hp, rfl⟩ := addPrevHashColumn_eq_ok h₁
  obtain ⟨he, rfl⟩ := addEventHashColumn_eq_ok h₂
  obtain ⟨f, rfl⟩ := h₃
  obtain ⟨ht, rfl⟩ := createTrigger_eq_ok h₄
  refine ⟨⟨hp, he, ht⟩, ?_, rfl, hc⟩
  simp only [EventTable.rehash_rehash]
  exact ⟨_, rfl⟩

/-- `migrate` at the start of a call. -/
theorem wp_migrate (hC : ∀ d b w, hasChain d = false → Migrates rt b w →
      C (h ++ [.read d, .lock b]) b w)
    (hQ : Fails NoVerdict h Q)
    (hsealed : ∀ d, hasChain d = true → Q (.ok ()) ⟨.idle, m, h ++ [.read d]⟩)
    (hmigrated : ∀ d b w, hasChain d = false → Migrates rt b w →
      Q (.ok ()) ⟨.idle, m, h ++ [.read d, .lock b, .commit b w]⟩) :
    (Audit.migrate rt).wp C ⟨.idle, m, h⟩ Q := by
  refine Prog.wp_bind.2 (Prog.wp_select_idle noVerdict_exc (hQ.andThen _) fun d => ?_)
  cases hd : hasChain d with
  | true => exact hsealed d hd
  | false =>
    refine Prog.wp_transaction ?_
    have hA : Aborts NoVerdict (h ++ [.read d]) (Prog.inTransactionPost C Failure.exc Q) :=
      (hQ.quiet (by simp)).inTransaction
    -- what is left to show of the transaction, once its body has made its change
    have hend : ∀ b w, Migrates rt b w → Prog.inTransactionPost C Failure.exc Q (.ok ())
        ⟨.writer b w, m, h ++ [.read d] ++ [.lock b]⟩ := by
      intro b w hw
      refine ⟨by simpa using hC d b w hd hw, by simpa using hmigrated d b w hd hw, fun x => ?_⟩
      exact (hQ.quiet (q := [.read d]) (by simp)).quiet (q := [.lock b]) (by simp) |>.here
        (noVerdict_exc x) m
    refine Prog.wp_bind.2 (Prog.wp_beginImmediate noVerdict_exc (hA.andThen _).fails
      fun b => ?_)
    have hA := hA.quiet (q := [.lock b]) (by simp)
    refine Prog.wp_bind.2 (Prog.wp_select_writer noVerdict_exc (hA.andThen _) ?_)
    cases hb : hasChain b with
    | true => exact hend b b (.inl ⟨hb, rfl⟩)
    | false =>
      refine Prog.wp_bind.2 (Prog.wp_execute_writer noVerdict_exc (hA.andThen _)
        (fun w₁ _ h₁ => ?_) fun e he => hA.here (addPrevHashColumn_noVerdict he) _ _)
      refine Prog.wp_bind.2 (Prog.wp_execute_writer noVerdict_exc (hA.andThen _)
        (fun w₂ _ h₂ => ?_) fun e he => hA.here (addEventHashColumn_noVerdict he) _ _)
      refine Prog.wp_bind.2 (Prog.wp_select_writer noVerdict_exc (hA.andThen _) ?_)
      refine Prog.wp_bind.2 (wp_sealRows (hA.andThen _) (fun w₃ h₃ hc => ?_)
        (List.nil_append _).symm Audit.chainFrom_nil)
      exact Prog.wp_execute_writer noVerdict_exc hA
        (fun w₄ _ h₄ => hend b w₄ (.inr (migrated_of_statements h₁ h₂ h₃ hc h₄)))
        fun e he => hA.here (createTrigger_noVerdict he) _ _

end Migrate

/-! ## Opening the database -/

/-- What a call has done so far when `_db()` returns: nothing if the connection was open, otherwise
the check of `migrate`, and its transaction if there was no chain. -/
inductive Opened (rt : Runtime S) : List (Obs Db Instant) → Prop
  | already : Opened rt []
  | sealed {d : Db} : hasChain d = true → Opened rt [.read d]
  | migrated {d b w : Db} : hasChain d = false → Migrates rt b w →
      Opened rt [.read d, .lock b, .commit b w]

/-- A commit of the transaction of `migrate`, the first of its call. -/
def OpeningCommit (rt : Runtime S) : CommitSpec Db Instant := fun h b w =>
  ∃ d, h = [.read d, .lock b] ∧ hasChain d = false ∧ Migrates rt b w

section Open

variable {c : Conn Db} {m : Bool} {h : List (Obs Db Instant)} {Q : Post Db Instant Bool PyExc Unit}

/-- The connection being open, `_db()` does nothing. -/
theorem wp_db_open (hok : Q (.ok ()) ⟨c, true, h⟩) : (db rt).wp C ⟨c, true, h⟩ Q :=
  Prog.wp_bind.2 (Prog.wp_getMem hok)

/-- `_db()` at the start of a call. -/
theorem wp_db (hC : ∀ h b w, OpeningCommit rt h b w → C h b w) (hQ : Fails NoVerdict [] Q)
    (hok : ∀ q, Opened rt q → Q (.ok ()) ⟨.idle, true, q⟩) : (db rt).wp C ⟨.idle, m, []⟩ Q := by
  refine Prog.wp_bind.2 (Prog.wp_getMem ?_)
  cases m with
  | true => exact hok [] .already
  | false =>
    refine Prog.wp_bind.2 (Prog.wp_call noVerdict_exc (hQ.andThen _) ?_)
    refine Prog.wp_bind.2 (Prog.wp_tryCatch.2 ?_)
    -- an exception of the initialization closes the connection
    have hF : Fails NoVerdict [] (Prog.orElse C (fun e => (Prog.rollbackRaise e : Py Unit))
        (Prog.andThen C (fun _ : Unit => (Prog.putMem true : Py Unit)) Q)) := by
      intro e m q he hq
      exact Prog.wp_rollbackRaise (hQ e m q he hq)
    have hput : ∀ q, Opened rt q → (Prog.putMem true : Py Unit).wp C ⟨.idle, false, q⟩ Q :=
      fun q hq => Prog.wp_putMem (hok q hq)
    refine Prog.wp_bind.2 (Prog.wp_call noVerdict_exc (hF.andThen _) ?_)
    refine Prog.wp_bind.2 (Prog.wp_call noVerdict_exc (hF.andThen _) ?_)
    refine Prog.wp_bind.2 (Prog.wp_call noVerdict_exc (hF.andThen _) ?_)
    refine wp_migrate (fun d b w hd hw => hC _ b w ⟨d, rfl, hd, hw⟩) hF (fun d hd => ?_)
      fun d b w hd hw => ?_
    · exact hput _ (.sealed hd)
    · exact hput _ (.migrated hd hw)

/-- `_log` on the open connection, in a transaction that holds the lock. -/
theorem wp_log_writer {cid action : String} {key value : Option String} {b w : Db}
    (hQ : Aborts NoVerdict h Q)
    (hok : ∀ t w', Logged rt (Instant.text t) cid action key value w w' →
      Q (.ok ()) ⟨.writer b w', true, h ++ [.clock t]⟩) :
    (log rt cid action key value).wp C ⟨.writer b w, true, h⟩ Q := by
  refine Prog.wp_bind.2 (wp_db_open ?_)
  refine Prog.wp_bind.2 (Prog.wp_now fun t => ?_)
  exact wp_append_writer (hQ.quiet (by simp)) (hok t)

/-- `_log` on the open connection, outside a transaction. -/
theorem wp_log_idle {cid action : String} {key value : Option String} (hQ : Aborts NoVerdict h Q)
    (hok : ∀ t b w, Logged rt (Instant.text t) cid action key value b w →
      Q (.ok ()) ⟨.writer b w, true, h ++ [.clock t] ++ [.lock b]⟩) :
    (log rt cid action key value).wp C ⟨.idle, true, h⟩ Q := by
  refine Prog.wp_bind.2 (wp_db_open ?_)
  refine Prog.wp_bind.2 (Prog.wp_now fun t => ?_)
  exact wp_append_idle (hQ.quiet (by simp)) (hok t)

/-- `with _db(): _log(_client_id(ctx), ...)` -/
theorem wp_logUnder {cfg : Config} {ctx : Context} {action : String} {key value : Option String}
    (hQ : Fails NoVerdict h Q)
    (hC : ∀ cid t b w, clientId cfg ctx none = .ok cid →
      Logged rt (Instant.text t) cid action key value b w → C (h ++ [.clock t, .lock b]) b w)
    (hok : ∀ cid t b w, clientId cfg ctx none = .ok cid →
      Logged rt (Instant.text t) cid action key value b w →
      Q (.ok ()) ⟨.idle, true, h ++ [.clock t, .lock b, .commit b w]⟩) :
    (logUnder rt cfg ctx action key value).wp C ⟨.idle, true, h⟩ Q := by
  refine Prog.wp_bind.2 (wp_db_open ?_)
  refine Prog.wp_transaction ?_
  have hA : Aborts NoVerdict h (Prog.inTransactionPost C Failure.exc Q) := hQ.inTransaction
  refine Prog.wp_bind.2 ((Prog.wp_ofExcept _).2 ?_)
  cases hcid : clientId cfg ctx none with
  | error e => exact hA.here (clientId_noVerdict hcid) _ _
  | ok cid =>
    refine wp_log_idle hA fun t b w hl => ?_
    refine ⟨by simpa using hC cid t b w hcid hl, by simpa using hok cid t b w hcid hl, fun x => ?_⟩
    exact (hQ.quiet (q := [.clock t]) (by simp)).quiet (q := [.lock b]) (by simp) |>.here
      (noVerdict_exc x) _

end Open

/-! ## The transaction of `memory_set` -/

/-- The conditional write of a fact: the contents after it, and the reason if it was refused. -/
def wrote (rt : Runtime S) (key : String) (f : Fact) (expectedValue : Option String)
    (requireAbsent : Bool) (d : Db) : Db × Option String :=
  if requireAbsent then
    if key ∈ d.facts then (d, some (existsFailure (selectFact key d)))
    else ({ d with facts := d.facts.insert key f }, none)
  else
    match expectedValue with
    | some expected =>
      if (d.facts.lookup key).map Fact.value = some expected then
        ({ d with facts := d.facts.insert key f }, none)
      else (d, some (expectedFailure rt expected (selectFact key d)))
    | none => ({ d with facts := d.facts.insert key f }, none)

/-- The row of `fact_embeddings` written. -/
def stored (key : String) (embedding : Option (List UInt8)) (d : Db) : Db :=
  match embedding with
  | some e => { d with embeddings := d.embeddings.insert key e }
  | none => d

/-- The record of a conditional write turns the contents `d` into `w`. -/
def Recorded (rt : Runtime S) (timestamp key value cid : String) (embedding : Option (List UInt8))
    (casFailure : Option String) (d w : Db) : Prop :=
  match casFailure with
  | none => Logged rt timestamp cid "set" (some key) (some value) (stored key embedding d) w
  | some failure => Logged rt timestamp cid "cas_fail" (some key) (some failure) d w

/-- The transaction of `memory_set`, with the clock readings before its two writes, turns `b` into
`w` and has this outcome. -/
def SetTo (rt : Runtime S) (key value cid : String) (expectedValue : Option String)
    (requireAbsent : Bool) (embedding : Option (List UInt8)) (t₁ t₂ : Instant) (b w : Db)
    (casFailure : Option String) : Prop :=
  casFailure = (wrote rt key ⟨value, cid, t₁.text⟩ expectedValue requireAbsent b).2 ∧
    Recorded rt t₂.text key value cid embedding casFailure
      (wrote rt key ⟨value, cid, t₁.text⟩ expectedValue requireAbsent b).1 w

section Set

variable {key value cid : String} {expectedValue : Option String} {requireAbsent : Bool}
  {embedding : Option (List UInt8)} {m : Bool} {h : List (Obs Db Instant)} {b w : Db}

theorem wp_recordWrite {Q : Post Db Instant Bool PyExc Unit} {casFailure : Option String}
    (hQ : Aborts NoVerdict h Q)
    (hok : ∀ t w', Recorded rt (Instant.text t) key value cid embedding casFailure w w' →
      Q (.ok ()) ⟨.writer b w', true, h ++ [.clock t]⟩) :
    (recordWrite rt key value cid embedding casFailure).wp C ⟨.writer b w, true, h⟩ Q := by
  cases casFailure with
  | some failure => exact wp_log_writer hQ hok
  | none =>
    refine Prog.wp_bind.2 ?_
    cases embedding with
    | none => exact wp_log_writer hQ hok
    | some e =>
      refine Prog.wp_execute_writer noVerdict_exc (hQ.andThen _) (fun w' _ hu => ?_)
        fun e he => by cases he
      obtain rfl : _ = w' := congrArg Prod.fst (Except.ok.inj hu)
      exact wp_log_writer hQ hok

/-- The conditional write takes the lock in each of its modes, also when it fails its constraint or
changes no row. -/
theorem wp_writeFact {Q : Post Db Instant Bool PyExc (Option String)} (hQ : Aborts NoVerdict h Q)
    (hok : ∀ t b,
      Q (.ok (wrote rt key ⟨value, cid, Instant.text t⟩ expectedValue requireAbsent b).2)
      ⟨.writer b (wrote rt key ⟨value, cid, Instant.text t⟩ expectedValue requireAbsent b).1, m,
        h ++ [.clock t, .lock b]⟩) :
    (writeFact rt key value cid expectedValue requireAbsent).wp C ⟨.idle, m, h⟩ Q := by
  unfold writeFact
  cases requireAbsent with
  | true =>
    refine Prog.wp_bind.2 (Prog.wp_now fun t => ?_)
    refine Prog.wp_tryCatch.2 (Prog.wp_bind.2 ?_)
    have hA := hQ.quiet (q := [.clock t]) (by simp)
    have hok := hok t
    refine Prog.wp_execute_idle (E := fun e => NotIntegrity e ∧ NoVerdict e)
      (fun x => ⟨notIntegrity_exc x, noVerdict_exc x⟩) ?_ (fun b w' _ hu => ?_) fun b e hu => ?_
    · -- the engine's own failures are not integrity errors, so they are not caught
      intro e c m q he hq
      have hr := hA e c m q he.2 hq
      cases e with
      | integrityError msg => exact absurd rfl (he.1 msg)
      | _ => exact hr
    · unfold insertFact at hu
      split_ifs at hu with hk
      obtain rfl : _ = w' := congrArg Prod.fst (Except.ok.inj hu)
      have := hok b
      simp only [wrote, if_true, if_neg hk] at this
      simpa using this
    · unfold insertFact at hu
      split_ifs at hu with hk
      obtain rfl := Except.error.inj hu
      refine Prog.wp_bind.2 (Prog.wp_select_writer noVerdict_exc
        ((hA.quiet (by simp)).andThen _) ?_)
      have := hok b
      simp only [wrote, if_true, if_pos hk] at this
      simpa using this
  | false =>
    cases expectedValue with
    | some expected =>
      refine Prog.wp_bind.2 (Prog.wp_now fun t => ?_)
      have hA := hQ.quiet (q := [.clock t]) (by simp)
      have hok := hok t
      refine Prog.wp_bind.2 (Prog.wp_execute_idle noVerdict_exc (hA.andThen _)
        (fun b w' n hu => ?_) fun b e hu => ?_)
      · have := hok b
        unfold updateFact at hu
        split_ifs at hu with hv
        · obtain ⟨rfl, rfl⟩ := Prod.mk.inj (Except.ok.inj hu)
          simp only [wrote, Bool.false_eq_true, if_false, if_pos hv] at this
          simpa using this
        · obtain ⟨rfl, rfl⟩ := Prod.mk.inj (Except.ok.inj hu)
          refine Prog.wp_bind.2 (Prog.wp_select_writer noVerdict_exc
            ((hA.quiet (by simp)).andThen _) ?_)
          simp only [wrote, Bool.false_eq_true, if_false, if_neg hv] at this
          simpa using this
      · unfold updateFact at hu
        split_ifs at hu
    | none =>
      refine Prog.wp_bind.2 (Prog.wp_now fun t => ?_)
      have hA := hQ.quiet (q := [.clock t]) (by simp)
      refine Prog.wp_bind.2 (Prog.wp_execute_idle noVerdict_exc (hA.andThen _)
        (fun b w' n hu => ?_) fun b e hu => by cases hu)
      obtain rfl : _ = w' := congrArg Prod.fst (Except.ok.inj hu)
      have := hok t b
      simp only [wrote, Bool.false_eq_true, if_false] at this
      simpa using this

theorem wp_setTransaction {Q : Post Db Instant Bool PyExc (Option String)}
    (hQ : Fails NoVerdict h Q)
    (hC : ∀ t₁ b t₂ w failure,
      SetTo rt key value cid expectedValue requireAbsent embedding t₁ t₂ b w failure →
        C (h ++ [.clock t₁, .lock b, .clock t₂]) b w)
    (hok : ∀ t₁ b t₂ w failure,
      SetTo rt key value cid expectedValue requireAbsent embedding t₁ t₂ b w failure →
        Q (.ok failure) ⟨.idle, true, h ++ [.clock t₁, .lock b, .clock t₂, .commit b w]⟩) :
    (setTransaction rt key value cid expectedValue requireAbsent embedding).wp C
      ⟨.idle, true, h⟩ Q := by
  refine Prog.wp_transaction ?_
  have hA : Aborts NoVerdict h (Prog.inTransactionPost C Failure.exc Q) := hQ.inTransaction
  refine Prog.wp_bind.2 (wp_writeFact (hA.andThen _) fun t₁ b => ?_)
  have hA := hA.quiet (q := [.clock t₁, .lock b]) (by simp)
  refine Prog.wp_bind.2 (wp_recordWrite (hA.andThen _) fun t₂ w hw => ?_)
  have hset : SetTo rt key value cid expectedValue requireAbsent embedding t₁ t₂ b w _ :=
    ⟨rfl, hw⟩
  refine ⟨by simpa using hC t₁ b t₂ w _ hset, by simpa using hok t₁ b t₂ w _ hset, fun x => ?_⟩
  exact (hQ.quiet (q := [.clock t₁, .lock b]) (by simp)).quiet (q := [.clock t₂]) (by simp)
    |>.here (noVerdict_exc x) _

end Set

/-! ## The transactions of `memory_delete` and `lock_hold` -/

/-- The contents after the data-changing statements of `memory_delete`. -/
def erased (key : String) (d : Db) : Db :=
  { d with facts := d.facts.erase key, embeddings := d.embeddings.erase key }

section Delete

variable {key cid : String} {m : Bool} {h : List (Obs Db Instant)}

theorem wp_deleteTransaction {Q : Post Db Instant Bool PyExc ℕ} (hQ : Fails NoVerdict h Q)
    (hC : ∀ b t w, Logged rt (Instant.text t) cid "delete" (some key) none (erased key b) w →
      C (h ++ [.lock b, .clock t]) b w)
    (hok : ∀ b t w, Logged rt (Instant.text t) cid "delete" (some key) none (erased key b) w →
      Q (.ok (if key ∈ b.facts then 1 else 0))
        ⟨.idle, true, h ++ [.lock b, .clock t, .commit b w]⟩) :
    (deleteTransaction rt key cid).wp C ⟨.idle, true, h⟩ Q := by
  refine Prog.wp_transaction ?_
  have hA : Aborts NoVerdict h (Prog.inTransactionPost C Failure.exc Q) := hQ.inTransaction
  refine Prog.wp_bind.2 (Prog.wp_execute_idle noVerdict_exc (hA.andThen _)
    (fun b w₁ n h₁ => ?_) fun b e h₁ => by cases h₁)
  obtain ⟨rfl, rfl⟩ := Prod.mk.inj (Except.ok.inj h₁)
  have hA := hA.quiet (q := [.lock b]) (by simp)
  refine Prog.wp_bind.2 (Prog.wp_execute_writer noVerdict_exc (hA.andThen _)
    (fun w₂ _ h₂ => ?_) fun e h₂ => by cases h₂)
  obtain rfl : _ = w₂ := congrArg Prod.fst (Except.ok.inj h₂)
  refine Prog.wp_bind.2 (wp_log_writer (hA.andThen _) fun t w hw => ?_)
  refine ⟨by simpa using hC b t w hw, by simpa using hok b t w hw, fun x => ?_⟩
  exact (hQ.quiet (q := [.lock b]) (by simp)).quiet (q := [.clock t]) (by simp) |>.here
    (noVerdict_exc x) _

theorem wp_holdTransaction {Q : Post Db Instant Bool PyExc Unit} (hQ : Fails NoVerdict h Q)
    (hC : ∀ t b w, Logged rt (Instant.text t) cid "demo-lock-hold" none none b w →
      C (h ++ [.clock t, .lock b]) b w)
    (hok : ∀ t b w, Logged rt (Instant.text t) cid "demo-lock-hold" none none b w →
      Q (.ok ()) ⟨.idle, true, h ++ [.clock t, .lock b, .commit b w]⟩) :
    (holdTransaction rt cid).wp C ⟨.idle, true, h⟩ Q := by
  refine Prog.wp_transaction ?_
  have hA : Aborts NoVerdict h (Prog.inTransactionPost C Failure.exc Q) := hQ.inTransaction
  refine Prog.wp_bind.2 (wp_log_idle (hA.andThen _) fun t b w hw => ?_)
  have hF := (hQ.quiet (q := [.clock t]) (by simp)).quiet (q := [.lock b]) (by simp)
  refine Prog.wp_call_writer noVerdict_exc hF.inTransaction ?_
  exact ⟨by simpa using hC t b w hw, by simpa using hok t b w hw,
    fun x => hF.here (noVerdict_exc x) _⟩

end Delete

/-! ## The answer of `memory_get` -/

/-- What `memory_get` answers for the row it read, and what it does for that. -/
inductive Shows (rt : Runtime S) (key : String) : Bool → Option Fact → List (Obs Db Instant) →
    Except PyExc String → Prop
  | missing {includeEvents : Bool} : Shows rt key includeEvents none []
      (.error (.toolError ("no fact for key " ++ PyText.repr rt.unicode key)))
  | fact {f : Fact} : Shows rt key false (some f) [] (.ok (factLine key f))
  | events {f : Fact} {d : Db} : Shows rt key true (some f) [.read d]
      (.ok (factLine key f ++ "\nevents:\n" ++
        PyText.join "\n" ((eventsOf key writeActions d).map getLine)))
  | failed {f : Fact} (x : Failure) : Shows rt key true (some f) [] (.error x.exc)

theorem Shows.quiet {key : String} {includeEvents : Bool} {row : Option Fact}
    {q : List (Obs Db Instant)} {r : Except PyExc String} (h : Shows rt key includeEvents row q r) :
    Quiet q := by
  cases h <;> simp

/-- `memory_get` after its log entry, if it logs. -/
theorem wp_showFact {Q : Post Db Instant Bool PyExc String}
    {key : String} {includeEvents : Bool} {row : Option Fact} {h : List (Obs Db Instant)}
    (hok : ∀ q r, Shows rt key includeEvents row q r → Q r ⟨.idle, true, h ++ q⟩) :
    (showFact rt key includeEvents row).wp C ⟨.idle, true, h⟩ Q := by
  have hnil : ∀ r, Shows rt key includeEvents row [] r → Q r ⟨.idle, true, h⟩ := fun r hr => by
    simpa using hok [] r hr
  cases row with
  | none => exact hnil _ .missing
  | some f =>
    cases includeEvents with
    | false => exact hnil _ .fact
    | true =>
      refine Prog.wp_bind.2 (wp_db_open ?_)
      exact Prog.wp_bind.2 (Prog.wp_select_outcomes (fun x => hnil _ (.failed x))
        fun d => hok _ _ .events)

end MemoryBridge
