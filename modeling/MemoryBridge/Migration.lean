import MemoryBridge.AuditTrail
import MemoryBridge.Foundations.SingleWriter.Solo

/-!
# The migration of a legacy store

A legacy store has events without hashes, and servers of the older version may still write to it
while upgraded ones open it. `Migrating` says what holds in every state of such a run: one migration
takes effect, it seals the events committed before it, and a transaction of an older server either
comes before it or fails. The argument is one case analysis of what a commit can be, `MixedCommit`,
from a store that is either legacy or sealed.
-/

open SingleWriter

namespace MemoryBridge

variable {S : Type} {rt : Runtime S}

/-! ## Older servers -/

/-- A transaction of an older server: any statements on its tables, then one event. -/
structure OldTransaction where
  statements : List (Tables → Except PyExc Tables)
  timestamp : String
  clientId : String
  action : String
  key : Option String
  value : Option String

namespace OldTransaction

def runStatements : List (Tables → Except PyExc Tables) → Py Unit
  | [] => pure ()
  | u :: rest => do
    Py.execute (changeTables u)
    runStatements rest

/-- The program of the transaction. -/
def run (o : OldTransaction) : Py String :=
  Py.withDb do
    runStatements o.statements
    Py.execute (insertLegacyEvent o.timestamp o.clientId o.action o.key o.value)
    pure ""

/-- The event that the transaction adds to the contents `d`. -/
def event (o : OldTransaction) (d : Db) : Event :=
  ⟨d.events.autoId, .text o.timestamp, .text o.clientId, .text o.action, .ofOption o.key,
    .ofOption o.value⟩

/-- The transaction turns `b` into `w`. -/
def Commit (o : OldTransaction) (b w : Db) : Prop :=
  ∃ x, o.statements.foldlM (fun y u => u y) b.tables = .ok x ∧
    insertLegacyEvent o.timestamp o.clientId o.action o.key o.value (b.withTables x) = .ok (w, ())

/-- Any exception. -/
abbrev AnyExc : PyExc → Prop := fun _ => True

section Rules

variable {C : CommitSpec Db Instant} {o : OldTransaction} {m : Bool} {h : List (Obs Db Instant)}
  {b w : Db}

theorem changeTables_eq_ok {u : Tables → Except PyExc Tables} {d d' : Db}
    (hu : changeTables u d = .ok (d', ())) : ∃ x, u d.tables = .ok x ∧ d' = d.withTables x := by
  unfold changeTables at hu
  cases hx : u d.tables with
  | error e => simp [hx, Except.map] at hu
  | ok x => exact ⟨x, rfl, by simpa [hx, Except.map] using hu.symm⟩

theorem wp_runStatements {Q : Post Db Instant Bool PyExc Unit} (hQ : Aborts AnyExc h Q)
    (us : List (Tables → Except PyExc Tables))
    (hok : ∀ x, us.foldlM (fun y u => u y) w.tables = .ok x →
      Q (.ok ()) ⟨.writer b (w.withTables x), m, h⟩) :
    (runStatements us).wp C ⟨.writer b w, m, h⟩ Q := by
  induction us generalizing w with
  | nil => exact hok w.tables rfl
  | cons u us ih =>
    refine Prog.wp_bind.2 (Prog.wp_execute_writer (fun _ => trivial) (hQ.andThen _)
      (fun w' _ hu => ?_) fun e _ => hQ.here trivial _ _)
    obtain ⟨y, hy, rfl⟩ := changeTables_eq_ok hu
    refine ih fun x hx => hok x ?_
    rw [List.foldlM_cons, hy]
    exact hx

/-- The transaction commits what it is meant to, or fails and commits nothing. -/
theorem wp_run {Q : Post Db Instant Bool PyExc String} (hQ : Fails AnyExc h Q)
    (hC : ∀ b w, o.Commit b w → C (h ++ [.lock b]) b w)
    (hok : ∀ b w, o.Commit b w → Q (.ok "") ⟨.idle, m, h ++ [.lock b, .commit b w]⟩) :
    o.run.wp C ⟨.idle, m, h⟩ Q := by
  refine Prog.wp_transaction ?_
  have hA : Aborts AnyExc h (Prog.inTransactionPost C Failure.exc Q) := hQ.inTransaction
  have hend : ∀ b w, o.Commit b w → Prog.inTransactionPost C Failure.exc Q (.ok "")
      ⟨.writer b w, m, h ++ [.lock b]⟩ := by
    intro b w hw
    refine ⟨hC b w hw, by simpa using hok b w hw, fun x => ?_⟩
    exact (hQ.quiet (q := [.lock b]) (by simp)).here trivial m
  cases hs : o.statements with
  | nil =>
    -- the insertion is the first statement and takes the lock
    show (Py.execute (insertLegacyEvent o.timestamp o.clientId o.action o.key o.value) >>=
      fun _ => pure "").wp C ⟨.idle, m, h⟩ (Prog.inTransactionPost C Failure.exc Q)
    refine Prog.wp_bind.2 (Prog.wp_execute_idle (fun _ => trivial) (hA.andThen _)
      (fun b w _ hw => ?_) fun b e _ => ?_)
    · exact hend b w ⟨b.tables, by rw [hs]; rfl, hw⟩
    · exact (hA.quiet (q := [.lock b]) (by simp)).here trivial _ _
  | cons u us =>
    refine Prog.wp_bind.2 (Prog.wp_bind.2 (Prog.wp_execute_idle (fun _ => trivial)
      ((hA.andThen _).andThen _) (fun b w hu' hu => ?_) fun b e _ => ?_))
    · obtain ⟨y, hy, rfl⟩ := changeTables_eq_ok hu
      have hA := hA.quiet (q := [.lock b]) (by simp)
      refine wp_runStatements (hA.andThen _) us fun x hx => ?_
      refine Prog.wp_bind.2 (Prog.wp_execute_writer (fun _ => trivial) (hA.andThen _)
        (fun w _ hw => ?_) fun e _ => hA.here trivial _ _)
      refine hend b w ⟨x, ?_, hw⟩
      rw [hs, List.foldlM_cons, hy]
      exact hx
    · exact (hA.quiet (q := [.lock b]) (by simp)).here trivial _ _

end Rules

/-- What the transaction does if it commits: there is no trigger, and one event is added at the
end. -/
theorem Commit.spec {o : OldTransaction} {b w : Db} (h : o.Commit b w) :
    b.requireHash = false ∧ selectEvents w = selectEvents b ++ [o.event b] ∧
      w.prevHashColumn = b.prevHashColumn ∧ w.eventHashColumn = b.eventHashColumn ∧
      w.requireHash = b.requireHash := by
  obtain ⟨x, -, hw⟩ := h
  unfold insertLegacyEvent insertRow at hw
  split_ifs at hw with hfull htrig
  have hb : b.requireHash = false := by simpa [Db.withTables] using htrig
  split at hw
  case h_2 => cases hw
  case h_1 t ht =>
    obtain rfl : _ = w := congrArg Prod.fst (Except.ok.inj hw)
    have hlt : b.events.seq.getD 0 < b.events.autoId := by
      unfold EventTable.autoId
      omega
    obtain ⟨t', ht', hrows, -⟩ := b.events.insert_eq (r := ⟨o.event b, .null, .null⟩) hlt
    obtain rfl : t = t' := Option.some.inj (ht.symm.trans ht')
    exact ⟨hb, by simp [selectEvents, hrows], rfl, rfl, rfl⟩

end OldTransaction

/-! ## Servers of both versions -/

section Servers

variable [LinearOrder S] {ι : Type}

/-- Upgraded servers, each under its own configuration, and older ones. -/
def mixedServers (rt : Runtime S) (cfg : ι → Config) (upgraded : ι → Bool) :
    Clients ι (Context × Call ⊕ OldTransaction) Db Instant Failure Bool PyExc String where
  code
    | p, .inl c => tool rt (cfg p) c.1 c.2
    | _, .inr o => o.run
  may
    | p, .inl _ => upgraded p = true
    | p, .inr _ => upgraded p = false
  boot := false

/-- What their calls do. -/
def mixedSpec (rt : Runtime S) (cfg : ι → Config) :
    Spec ι (Context × Call ⊕ OldTransaction) Db Instant PyExc String where
  commits
    | p, .inl c => Commits rt (cfg p) c.1 c.2
    | _, .inr o => fun h b w => h = [.lock b] ∧ o.Commit b w
  replies
    | p, .inl c => Replies rt (cfg p) c.1 c.2
    | _, .inr o => fun h r =>
      (∃ b w, h = [.lock b, .commit b w] ∧ o.Commit b w ∧ r = .ok "") ∨
        (Quiet h ∧ ∃ e, r = .error e)

theorem mixed_meets (cfg : ι → Config) (upgraded : ι → Bool) :
    Meets (mixedServers rt cfg upgraded) (mixedSpec rt cfg) := by
  rintro p (c | o) m -
  · exact meets cfg p c m trivial
  · refine OldTransaction.wp_run ?_ (fun b w hw => ⟨rfl, hw⟩) fun b w hw => ?_
    · intro e m q _ hq
      exact ⟨rfl, .inr ⟨hq, e, rfl⟩⟩
    · exact ⟨rfl, .inl ⟨b, w, rfl, hw, rfl⟩⟩

end Servers

/-! ## Legacy and sealed stores -/

/-- A store from before the upgrade: no hash column, no trigger. -/
structure Legacy (d : Db) : Prop where
  prevHash : d.prevHashColumn = false
  eventHash : d.eventHashColumn = false
  requireHash : d.requireHash = false

theorem Legacy.hasChain {d : Db} (h : Legacy d) : MemoryBridge.hasChain d = false := by
  simp [MemoryBridge.hasChain, h.prevHash]

/-- A store after its migration: every event is in the chain, and the trigger refuses others. -/
structure Sealed (rt : Runtime S) (d : Db) : Prop where
  chained : Audit.Chained rt d
  requireHash : d.requireHash = true

/-- Nothing between the two is ever committed. -/
def Whole (rt : Runtime S) (d : Db) : Prop := Legacy d ∨ Sealed rt d

theorem Whole.of_not_hasChain {d : Db} (h : Whole rt d) (hc : hasChain d = false) : Legacy d := by
  refine h.resolve_right fun hs => ?_
  rw [hs.chained.1] at hc
  cases hc

theorem Whole.of_hasChain {d : Db} (h : Whole rt d) (hc : hasChain d = true) : Sealed rt d := by
  refine h.resolve_left fun hl => ?_
  rw [hl.hasChain] at hc
  cases hc

section Commits

variable {b w : Db}

theorem Migrated.sealed (hm : Migrated rt b w) : Sealed rt w := by
  obtain ⟨f, hf⟩ := hm.rehashed
  exact ⟨hm.chained, by rw [hf]⟩

theorem Own.sealed [LinearOrder S] {cfg : Config} {ctx : Context} {c : Call}
    {h : List (Obs Db Instant)} (ho : Own rt cfg ctx c h b w) (hb : Sealed rt b) : Sealed rt w := by
  refine ⟨ho.chained hb.chained, ?_⟩
  obtain ⟨d, ts, cid, action, key, value, hl, hd⟩ := ho.logged
  obtain ⟨s, t, -, rfl, -⟩ := hl.spec
  have hr : d.requireHash = b.requireHash := by rw [hd]
  exact hr.trans hb.requireHash

/-- What a commit can be: a transaction of an older server on a legacy store, the migration, or a
transaction on a sealed store. -/
inductive MixedCommit (rt : Runtime S) : Context × Call ⊕ OldTransaction → Db → Db → Prop
  | old {o : OldTransaction} {b w : Db} :
      Legacy b → o.Commit b w → Legacy w → MixedCommit rt (.inr o) b w
  | migration {c : Context × Call} {b w : Db} :
      Legacy b → Migrated rt b w → MixedCommit rt (.inl c) b w
  | tool {c : Context × Call} {b w : Db} :
      Sealed rt b → Sealed rt w → b.events.rows <+: w.events.rows → MixedCommit rt (.inl c) b w

theorem mixedCommit [LinearOrder S] {ι : Type} {cfg : ι → Config} {p : ι}
    {c : Context × Call ⊕ OldTransaction} {h : List (Obs Db Instant)} (hb : Whole rt b)
    (hc : (mixedSpec rt cfg).commits p c h b w) : MixedCommit rt c b w := by
  cases c with
  | inl c =>
    rcases hc with ⟨d, -, -, ⟨hb', rfl⟩ | hm⟩ | ⟨q, h', -, -, ho⟩
    · have hs := hb.of_hasChain hb'
      exact .tool hs hs List.prefix_rfl
    · exact .migration (hb.of_not_hasChain hm.not_hasChain) hm
    · have hs := hb.of_hasChain ho.hasChain.1
      obtain ⟨r, hrows, -⟩ := ho.rows
      exact .tool hs (ho.sealed hs) (hrows ▸ List.prefix_append _ _)
  | inr o =>
    obtain ⟨-, hw⟩ := hc
    obtain ⟨hr, -, hp, he, hr'⟩ := hw.spec
    have hl : Legacy b := by
      refine hb.resolve_right fun hs => ?_
      rw [hs.requireHash] at hr
      cases hr
    exact .old hl hw ⟨hp.trans hl.prevHash, he.trans hl.eventHash, hr'.trans hr⟩

theorem MixedCommit.whole {c : Context × Call ⊕ OldTransaction} (h : MixedCommit rt c b w) :
    Whole rt w := by
  cases h with
  | old _ _ hw => exact .inl hw
  | migration _ hm => exact .inr hm.sealed
  | tool _ hw _ => exact .inr hw

/-- The events committed so far stay, unchanged but for their hashes. -/
theorem MixedCommit.events {c : Context × Call ⊕ OldTransaction} (h : MixedCommit rt c b w) :
    selectEvents b <+: selectEvents w := by
  cases h with
  | old _ hw _ =>
    rw [hw.spec.2.1]
    exact List.prefix_append _ _
  | migration _ hm => exact hm.events.1 ▸ List.prefix_rfl
  | tool _ _ hp => exact hp.map _

theorem MixedCommit.hasChain {c : Context × Call ⊕ OldTransaction} (h : MixedCommit rt c b w)
    (hb : MemoryBridge.hasChain b = true) : MemoryBridge.hasChain w = true := by
  cases h with
  | old hl _ _ => rw [hl.hasChain] at hb; cases hb
  | migration _ hm => exact hm.chained.1
  | tool _ hw _ => exact hw.chained.1

end Commits

/-! ## Migrating again -/

section Retry

variable {d b w : Db} {t : Instant} {m : Bool}

/-- An event without blobs: `_digest` has a text for it. -/
def Encodable (e : Event) : Prop := (Audit.atoms e).isSome

theorem digest_of_encodable (rt : Runtime S) {p : String} {e : Event} (he : Encodable e) :
    ∃ s, Audit.digest rt (.text p) e = .ok s := by
  obtain ⟨as, has⟩ := Option.isSome_iff_exists.1 he
  exact ⟨_, by simp only [Audit.digest, Audit.payload, Audit.atom, has]; rfl⟩

theorem alone_sealRows (rt : Runtime S) (t : Instant) (d b : Db) (m : Bool) {p : String}
    {es : List Event} (hw : hasChain w = true)
    (he : ∀ e ∈ es, Encodable e) :
    ∃ w', Rehashed w w' ∧ (Audit.sealRows rt (.text p) es).alone t d (.writer b w) m =
      some ⟨.ok (), d, .writer b w', m⟩ := by
  induction es generalizing w p with
  | nil => exact ⟨w, .refl w, rfl⟩
  | cons e es ih =>
    obtain ⟨s, hs⟩ := digest_of_encodable rt (he e (by simp)) (p := p)
    obtain ⟨hp, heh⟩ := Bool.and_eq_true_iff.1 hw
    obtain ⟨w₁, hw₁, hu⟩ : ∃ w₁, Rehashed w w₁ ∧
        updateHashes e.id (.text p) (.text s) w = .ok (w₁, ()) :=
      ⟨_, ⟨_, rfl⟩, by rw [updateHashes, if_neg (by simp [hp]), if_neg (by simp [heh])]⟩
    have hc₁ : hasChain w₁ = true := by
      obtain ⟨f, rfl⟩ := hw₁
      exact hw
    obtain ⟨w', hw', hrest⟩ := ih hc₁ (fun e' he' => he e' (List.mem_cons_of_mem _ he')) (p := s)
    refine ⟨w', hw₁.trans hw', ?_⟩
    unfold Audit.sealRows
    rw [hs]
    refine (Prog.alone_bind_of_ok (Prog.alone_ofExcept _)).trans ?_
    exact (Prog.alone_bind_of_ok (Prog.alone_execute_writer hu)).trans hrest

/-- Undisturbed, `migrate` seals a legacy store and keeps its contents. -/
theorem alone_migrate (rt : Runtime S) (t : Instant) (m : Bool) (hd : Legacy d)
    (he : ∀ e ∈ selectEvents d, Encodable e) :
    ∃ w, hasChain w = true ∧ selectEvents w = selectEvents d ∧ w.tables = d.tables ∧
      (Audit.migrate rt).alone t d .idle m = some ⟨.ok (), w, .idle, m⟩ := by
  -- the two new columns
  obtain ⟨w₁, h₁⟩ : ∃ w₁, addPrevHashColumn d = .ok (w₁, ()) :=
    ⟨_, by rw [addPrevHashColumn, if_neg (by simp [hd.prevHash])]⟩
  obtain ⟨-, hw₁⟩ := addPrevHashColumn_eq_ok h₁
  obtain ⟨w₂, h₂⟩ : ∃ w₂, addEventHashColumn w₁ = .ok (w₂, ()) :=
    ⟨_, by rw [addEventHashColumn, if_neg (by simp [hw₁, hd.eventHash])]⟩
  obtain ⟨-, hw₂⟩ := addEventHashColumn_eq_ok h₂
  have hc₂ : hasChain w₂ = true := by rw [hw₂, hw₁]; rfl
  have hev₂ : selectEvents w₂ = selectEvents d := by
    rw [hw₂, hw₁]
    exact (EventTable.rehash_events _ _).trans (EventTable.rehash_events _ _)
  have htab₂ : w₂.tables = d.tables := by rw [hw₂, hw₁]; rfl
  -- the loop and the trigger
  obtain ⟨w₃, hw₃, hseal⟩ := alone_sealRows rt t d d m hc₂
    (hev₂ ▸ he : ∀ e ∈ selectEvents w₂, Encodable e)
  obtain ⟨w₄, h₄⟩ : ∃ w₄, createTrigger w₃ = .ok (w₄, ()) := by
    obtain ⟨f, rfl⟩ := hw₃
    exact ⟨_, by rw [createTrigger, if_neg (by simp [hw₂, hw₁, hd.requireHash])]⟩
  obtain ⟨-, hw₄⟩ := createTrigger_eq_ok h₄
  refine ⟨w₄, ?_, ?_, ?_, ?_⟩
  · obtain ⟨f, rfl⟩ := hw₃
    rw [hw₄]
    exact hc₂
  · rw [hw₄]
    exact hw₃.events.trans hev₂
  · obtain ⟨f, rfl⟩ := hw₃
    rw [hw₄]
    exact htab₂
  · refine (Prog.alone_bind_of_ok (Prog.alone_select_idle _)).trans ?_
    rw [hd.hasChain]
    refine Prog.alone_transaction (b := d) ?_
    refine (Prog.alone_bind_of_ok Prog.alone_beginImmediate).trans ?_
    refine (Prog.alone_bind_of_ok (Prog.alone_select_writer _)).trans ?_
    rw [hd.hasChain]
    refine (Prog.alone_bind_of_ok (Prog.alone_execute_writer h₁)).trans ?_
    refine (Prog.alone_bind_of_ok (Prog.alone_execute_writer h₂)).trans ?_
    refine (Prog.alone_bind_of_ok (Prog.alone_select_writer _)).trans ?_
    exact (Prog.alone_bind_of_ok hseal).trans (Prog.alone_execute_writer h₄)

/-- So does a first tool call, whatever it answers. -/
theorem alone_tool [LinearOrder S] (rt : Runtime S) (t : Instant) (cfg : Config) (ctx : Context)
    (hd : Legacy d) (he : ∀ e ∈ selectEvents d, Encodable e) :
    ∃ x, (tool rt cfg ctx (.memoryHistory "" false)).alone t d .idle false = some x ∧
      hasChain x.db = true ∧ selectEvents x.db = selectEvents d ∧ x.db.tables = d.tables := by
  obtain ⟨w, hc, hev, htab, hm⟩ := alone_migrate rt t false hd he
  have hinit : (initializeDb rt).alone t d .idle false = some ⟨.ok (), w, .idle, false⟩ := by
    refine (Prog.alone_bind_of_ok Prog.alone_call).trans ?_
    refine (Prog.alone_bind_of_ok Prog.alone_call).trans ?_
    exact (Prog.alone_bind_of_ok Prog.alone_call).trans hm
  have hdb : (db rt).alone t d .idle false = some ⟨.ok (), w, .idle, true⟩ := by
    refine (Prog.alone_bind_of_ok Prog.alone_getMem).trans ?_
    refine (Prog.alone_bind_of_ok Prog.alone_call).trans ?_
    exact Prog.alone_bind_of_ok (Prog.alone_tryCatch_of_ok hinit)
  have hh : (memoryHistory rt "" false).alone t d .idle false =
      some ⟨historyText rt "" (eventsOf "" (historyActions false) w), w, .idle, true⟩ := by
    refine (Prog.alone_bind_of_ok hdb).trans ?_
    refine (Prog.alone_bind_of_ok (Prog.alone_select_idle _)).trans ?_
    exact Prog.alone_ofExcept _
  cases hr : historyText rt "" (eventsOf "" (historyActions false) w) with
  | ok a =>
    rw [hr] at hh
    exact ⟨_, Prog.alone_tryCatch_of_ok hh, hc, hev, htab⟩
  | error e =>
    rw [hr] at hh
    refine ⟨⟨.error (guardError cfg e), w, .idle, true⟩, ?_, hc, hev, htab⟩
    refine (Prog.alone_tryCatch _ _).trans ?_
    rw [hh]
    rfl

end Retry

/-! ## Runs -/

section Runs

variable {ι : Type}

/-- The commits of a trace that give the store its chain. -/
def migrations (t : List (Entry ι (Context × Call ⊕ OldTransaction) Db Instant PyExc String)) :
    List (Entry ι (Context × Call ⊕ OldTransaction) Db Instant PyExc String) :=
  t.filter fun
    | .obs _ _ _ (.commit b w) => !hasChain b && hasChain w
    | _ => false

variable [LinearOrder S] [DecidableEq ι]

/-- What holds of a state that servers of both versions reach from a legacy store. -/
structure Migrating (rt : Runtime S) (cfg : ι → Config) (upgraded : ι → Bool)
    (s₀ s : Sys ι (Context × Call ⊕ OldTransaction) Db Instant Failure Bool PyExc String) :
    Prop where
  /-- One migration takes effect. -/
  once : (migrations s.trace).length = if hasChain s.db then 1 else 0
  /-- It keeps all data, and seals the events committed before it, all of them. -/
  seals : ∀ p n c b w, .obs p n c (.commit b w) ∈ migrations s.trace →
    (∃ t₁ t₂, s.trace = t₁ ++ .obs p n c (.commit b w) :: t₂ ∧ b = contents s₀.db t₁) ∧
      selectEvents w = selectEvents b ∧ w.events.seq = b.events.seq ∧ w.tables = b.tables ∧
      ∃ head, Audit.verify rt w none = .ok (b.events.rows.length, head)
  /-- Until then, the store is a legacy one that only older servers have changed. -/
  legacy : hasChain s.db = false → Legacy s.db ∧
    ∀ p n c b w, .obs p n c (.commit b w) ∈ s.trace → ∃ o, c = .inr o
  /-- From then on, the chain verifies. -/
  verified : hasChain s.db = true →
    ∃ head, Audit.verify rt s.db none = .ok (s.db.events.rows.length, head)
  /-- What is committed stays, and a chain stays. -/
  grows : ∀ s', Reach (mixedServers rt cfg upgraded) s s' →
    selectEvents s.db <+: selectEvents s'.db ∧ (hasChain s.db = true → hasChain s'.db = true)
  /-- A transaction of an older server is committed on a legacy store; its event is in the log. -/
  old_commit : ∀ p n o b w, .obs p n (.inr o) (.commit b w) ∈ s.trace →
    hasChain b = false ∧ o.Commit b w ∧ selectEvents w = selectEvents b ++ [o.event b] ∧
      selectEvents w <+: selectEvents s.db
  /-- One that fails has committed nothing. -/
  old_reply : ∀ p n o r, .reply p n (.inr o) r ∈ s.trace →
    (r = .ok "" ∧ ∃ b w, .obs p n (.inr o) (.commit b w) ∈ s.trace) ∨
      ((∃ e, r = .error e) ∧ ∀ c b w, .obs p n c (.commit b w) ∉ s.trace)
  /-- While the store is a legacy one, any upgraded server that is not running a call can migrate it
  as soon as the lock is free. -/
  retry : ∀ p, upgraded p = true → (s.procs p).job = none → s.lock = none → hasChain s.db = false →
    (∀ e ∈ selectEvents s.db, Encodable e) →
    ∃ s', Reach (mixedServers rt cfg upgraded) s s' ∧ hasChain s'.db = true ∧
      selectEvents s'.db = selectEvents s.db ∧ s'.db.tables = s.db.tables

variable {cfg : ι → Config} {upgraded : ι → Bool} {d₀ : Db}
  {t : List (Entry ι (Context × Call ⊕ OldTransaction) Db Instant PyExc String)}
  {s₀ s : Sys ι (Context × Call ⊕ OldTransaction) Db Instant Failure Bool PyExc String}

theorem whole_contents (hd : Legacy d₀) (ht : TraceOk (mixedSpec rt cfg) d₀ t) :
    Whole rt (contents d₀ t) :=
  ht.invariant (I := Whole rt) (fun _ _ _ _ _ hc hb => (mixedCommit hb hc).whole) (.inl hd)

/-- What is committed stays, and a chain stays. -/
theorem contents_grow (hd : Legacy d₀)
    {t' : List (Entry ι (Context × Call ⊕ OldTransaction) Db Instant PyExc String)}
    (ht : TraceOk (mixedSpec rt cfg) d₀ (t ++ t')) :
    selectEvents (contents d₀ t) <+: selectEvents (contents d₀ (t ++ t')) ∧
      (hasChain (contents d₀ t) = true → hasChain (contents d₀ (t ++ t')) = true) :=
  TraceOk.related (I := Whole rt)
    (R := fun b w => selectEvents b <+: selectEvents w ∧ (hasChain b = true → hasChain w = true))
    (fun _ => ⟨List.prefix_rfl, id⟩) (fun _ _ _ h h' => ⟨h.1.trans h'.1, fun hb => h'.2 (h.2 hb)⟩)
    (fun _ _ _ _ _ hc hb => (mixedCommit hb hc).whole)
    (fun _ _ _ _ _ hc hb => ⟨(mixedCommit hb hc).events, (mixedCommit hb hc).hasChain⟩)
    (.inl hd) ht

/-- So does what a commit of the trace has written. -/
theorem commit_grow (hd : Legacy d₀)
    {t' : List (Entry ι (Context × Call ⊕ OldTransaction) Db Instant PyExc String)} {p : ι} {n : ℕ}
    {c : Context × Call ⊕ OldTransaction} {b w : Db}
    (ht : TraceOk (mixedSpec rt cfg) d₀ (t ++ .obs p n c (.commit b w) :: t')) :
    selectEvents w <+: selectEvents (contents d₀ (t ++ .obs p n c (.commit b w) :: t')) ∧
      (hasChain w = true →
        hasChain (contents d₀ (t ++ .obs p n c (.commit b w) :: t')) = true) := by
  rw [List.append_cons] at ht ⊢
  have h := contents_grow hd ht
  rwa [contents_commit] at h

/-- A commit of the trace at its place. -/
theorem mixedCommit_of_mem (hd : Legacy d₀) (ht : TraceOk (mixedSpec rt cfg) d₀ t) {p : ι} {n : ℕ}
    {c : Context × Call ⊕ OldTransaction} {b w : Db} (hm : .obs p n c (.commit b w) ∈ t) :
    ∃ t₁ t₂, t = t₁ ++ .obs p n c (.commit b w) :: t₂ ∧ b = contents d₀ t₁ ∧
      MixedCommit rt c b w := by
  obtain ⟨t₁, t₂, ht', ht₁, hb, hc⟩ := ht.commit hm
  exact ⟨t₁, t₂, ht', hb, mixedCommit (hb ▸ whole_contents hd ht₁) hc⟩

omit [DecidableEq ι] in
theorem migrations_append
    (t t' : List (Entry ι (Context × Call ⊕ OldTransaction) Db Instant PyExc String)) :
    migrations (t ++ t') = migrations t ++ migrations t' := List.filter_append _ _

omit [DecidableEq ι] in
theorem migrations_keep {e : Entry ι (Context × Call ⊕ OldTransaction) Db Instant PyExc String}
    (he : e.committed = none) : migrations [e] = [] := by
  refine List.filter_eq_nil_iff.2 fun e' he' => ?_
  rw [List.mem_singleton.1 he']
  split
  · cases he
  · exact Bool.false_ne_true

theorem migrations_length (hd : Legacy d₀) (ht : TraceOk (mixedSpec rt cfg) d₀ t) :
    (migrations t).length = if hasChain (contents d₀ t) then 1 else 0 := by
  refine TraceOk.induction (P := fun t => (migrations t).length =
    if hasChain (contents d₀ t) then 1 else 0) (by simp [migrations, hd.hasChain]) ?_ ht
  intro t e ht he ih
  rw [migrations_append, List.length_append, ih]
  rcases he.commit_cases with he | ⟨p, n, c, w, rfl, hc⟩
  · rw [migrations_keep he, contents_keep he]
    rfl
  · rw [contents_commit]
    cases mixedCommit (whole_contents hd ht) hc with
    | old hl _ hlw => simp [migrations, hl.hasChain, hlw.hasChain]
    | migration hl hm => simp [migrations, hl.hasChain, hm.chained.1]
    | tool hs hsw _ => simp [migrations, hs.chained.1, hsw.chained.1]

/-- The last commit of a legacy store, and so every commit, is of an older server. -/
theorem old_of_legacy (hd : Legacy d₀) (ht : TraceOk (mixedSpec rt cfg) d₀ t)
    (hc : hasChain (contents d₀ t) = false) {p : ι} {n : ℕ}
    {c : Context × Call ⊕ OldTransaction} {b w : Db} (hm : .obs p n c (.commit b w) ∈ t) :
    ∃ o, c = .inr o := by
  obtain ⟨t₁, t₂, rfl, rfl, hmc⟩ := mixedCommit_of_mem hd ht hm
  -- a chain after this commit would still be there
  have hw : hasChain w = false := by
    refine Bool.eq_false_iff.2 fun hw => ?_
    rw [(commit_grow hd ht).2 hw] at hc
    cases hc
  cases hmc with
  | old => exact ⟨_, rfl⟩
  | migration _ hmig => rw [hmig.chained.1] at hw; cases hw
  | tool _ hs _ => rw [hs.chained.1] at hw; cases hw

/-- An upgraded server that is not running a call can open a legacy store. -/
theorem retry_of_closed (g : Good (mixedServers rt cfg upgraded) (mixedSpec rt cfg) d₀ s) {p : ι}
    (hp : upgraded p = true) (hj : (s.procs p).job = none) (hm : (s.procs p).mem = false)
    (hl : s.lock = none) (hd : Legacy s.db) (he : ∀ e ∈ selectEvents s.db, Encodable e) :
    ∃ s', Reach (mixedServers rt cfg upgraded) s s' ∧ hasChain s'.db = true ∧
      selectEvents s'.db = selectEvents s.db ∧ s'.db.tables = s.db.tables := by
  obtain ⟨x, hx, hc, hev, htab⟩ := alone_tool rt .newYear (cfg p) ⟨none⟩ hd he
  obtain ⟨s', hs', hdb, -⟩ := reach_of_call (K := mixedServers rt cfg upgraded) (p := p)
    (c := .inl (⟨none⟩, .memoryHistory "" false)) hp hj ((g.client p).idle hj) hl
    (by rw [hm]; exact hx)
  exact ⟨s', hs', by rw [hdb, hc], by rw [hdb, hev], by rw [hdb, htab]⟩

/-- **The migration of a legacy store**, for every legacy store and every interleaving of upgraded
and older servers. -/
theorem legacy_migration (h₀ : s₀.Init) (hd : Legacy s₀.db)
    (h : Reach (mixedServers rt cfg upgraded) s₀ s) : Migrating rt cfg upgraded s₀ s := by
  have g := Reach.good (mixed_meets cfg upgraded) h₀ h
  have hw : Whole rt s.db := g.db ▸ whole_contents hd g.trace
  constructor
  case once =>
    rw [g.db]
    exact migrations_length hd g.trace
  case seals =>
    intro p n c b w hm
    obtain ⟨hm, hbw⟩ := List.mem_filter.1 hm
    obtain ⟨hb, hw⟩ := Bool.and_eq_true_iff.1 hbw
    obtain ⟨t₁, t₂, ht, rfl, hmc⟩ := mixedCommit_of_mem hd g.trace hm
    refine ⟨⟨t₁, t₂, ht, rfl⟩, ?_⟩
    cases hmc with
    | old _ _ hl => rw [hl.hasChain] at hw; cases hw
    | tool hs _ _ => rw [hs.chained.1] at hb; cases hb
    | migration _ hmig =>
      obtain ⟨head, hv⟩ := hmig.chained.verify
      have hlen : w.events.rows.length = (contents s₀.db t₁).events.rows.length := by
        simpa [selectEvents] using congrArg List.length hmig.events.1
      exact ⟨hmig.events.1, hmig.events.2, Prod.ext hmig.tables.1 hmig.tables.2, head, hlen ▸ hv⟩
  case legacy =>
    intro hc
    exact ⟨hw.of_not_hasChain hc, fun p n c b w hm => old_of_legacy hd g.trace (g.db ▸ hc) hm⟩
  case verified => exact fun hc => (hw.of_hasChain hc).chained.verify
  case grows =>
    intro s' hs'
    have g' := Reach.good (mixed_meets cfg upgraded) h₀ (h.trans hs')
    obtain ⟨t, ht⟩ := Reach.trace_prefix hs'
    rw [g.db, g'.db, ← ht]
    exact contents_grow hd (ht ▸ g'.trace)
  case old_commit =>
    intro p n o b w hm
    obtain ⟨t₁, t₂, ht, rfl, hmc⟩ := mixedCommit_of_mem hd g.trace hm
    cases hmc with
    | old hl hcom _ =>
      refine ⟨hl.hasChain, hcom, hcom.spec.2.1, ?_⟩
      rw [g.db, ht]
      exact (commit_grow hd (ht ▸ g.trace)).1
  case old_reply =>
    intro p n o r hr
    obtain ⟨t₁, t₂, ht, ht₁, hrep, hsame, hlast⟩ := g.trace.reply hr
    rcases hrep with ⟨b, w, hh, -, rfl⟩ | ⟨hq, e, rfl⟩
    · have hmem : Obs.commit b w ∈ history t₁ p n := by simp [hh]
      obtain ⟨c, hc⟩ := mem_history.1 hmem
      obtain rfl := hsame c _ hc
      exact .inl ⟨rfl, b, w, ht ▸ List.mem_append_left _ hc⟩
    · refine .inr ⟨⟨e, rfl⟩, fun c b w hm => ?_⟩
      exact hq b w (mem_history.2 ⟨c, hlast c _ hm⟩)
  case retry =>
    intro p hp hj hl hc he
    have hdl := hw.of_not_hasChain hc
    cases hm : (s.procs p).mem with
    | false => exact retry_of_closed g hp hj hm hl hdl he
    | true =>
      -- a server that has not been restarted since is restarted first
      have hs₁ : Step (mixedServers rt cfg upgraded) s
          (s.crash (mixedServers rt cfg upgraded) p) := by
        refine ⟨p, .crash, fun c hc => ?_, rfl⟩
        cases hc
      have hp₁ : (s.crash (mixedServers rt cfg upgraded) p).procs p =
        ⟨.idle, false, (s.procs p).count, none⟩ := Function.update_self ..
      have g₁ := g.crash (K := mixedServers rt cfg upgraded) (p := p)
      obtain ⟨s', hs', hres⟩ := retry_of_closed g₁ hp (by rw [hp₁]) (by rw [hp₁])
        (by simp [Sys.crash, Sys.unlock, hl]) hdl he
      exact ⟨s', .head hs₁ hs', hres⟩

end Runs

/-! ## A run -/

/-- A legacy store with one event, and a gap before it. -/
def sampleLegacy : Db where
  facts := ∅
  embeddings := ∅
  events := ⟨[⟨⟨7, .text "legacy-time", .text "legacy", .text "set", .text "old",
    .text "original"⟩, .null, .null⟩], some 7, by decide, by decide⟩
  prevHashColumn := false
  eventHashColumn := false
  requireHash := false

/-- An older server sets a key. -/
def sampleOld : OldTransaction :=
  { statements := [fun x => .ok (x.1.insert "k" ⟨"v", "legacy", "later"⟩, x.2)]
    timestamp := "later", clientId := "legacy", action := "set", key := some "k"
    value := some "v" }

/-- The older server writes, the upgraded one opens the store, the older one tries again. -/
def migrationTurns : List (Sys.Turn Bool (Context × Call ⊕ OldTransaction) Instant) :=
  [⟨false, some (.inr sampleOld), .newYear, 20⟩,
    ⟨true, some (.inl (⟨none⟩, .memoryHistory "old" false)), .newYear, 60⟩,
    ⟨false, some (.inr sampleOld), .newYear, 20⟩]

/-- A runtime that knows the digests of this run. -/
def migrationRuntime : Runtime ℕ := .tabulated
  [("[\"mcp-memory-events-v1\"," ++
      "\"0000000000000000000000000000000000000000000000000000000000000000\"," ++
      "7,\"legacy-time\",\"legacy\",\"set\",\"old\",\"original\"]",
    "b3be82b9f0666831ddd6df4bac8e4f54af069805736e9d14c5e6c5592da8933b"),
  ("[\"mcp-memory-events-v1\"," ++
      "\"b3be82b9f0666831ddd6df4bac8e4f54af069805736e9d14c5e6c5592da8933b\"," ++
      "8,\"later\",\"legacy\",\"set\",\"k\",\"v\"]",
    "187b8d637870e1be602957664551a288ea7104f09e6b057c6fee300676edea3a")]

/-- The second transaction of the older server fails. -/
theorem legacy_migration_sample :
    ∃ s : Sys Bool (Context × Call ⊕ OldTransaction) Db Instant Failure Bool PyExc String,
      hasChain s.db = true ∧ (selectEvents s.db).map Event.id = [7, 8] ∧
      Migrating migrationRuntime (fun _ => .default) id (.initial sampleLegacy false) s := by
  have h : (((Sys.initial sampleLegacy false).turns
      (mixedServers migrationRuntime (fun _ => .default) id) migrationTurns).map fun s =>
        (hasChain s.db, (selectEvents s.db).map Event.id)) = some (true, [7, 8]) := by
    decide +kernel
  obtain ⟨s, hs, hv⟩ := Option.map_eq_some_iff.1 h
  obtain ⟨hc, hids⟩ := Prod.mk.inj hv
  refine ⟨s, hc, hids, legacy_migration (Sys.initial_init _ _) ⟨rfl, rfl, rfl⟩
    (Sys.reach_of_turns ?_ hs)⟩
  intro x hx c hc
  simp only [migrationTurns, List.mem_cons, List.not_mem_nil, or_false] at hx
  rcases hx with rfl | rfl | rfl <;> cases hc <;> rfl

end MemoryBridge
