import MemoryBridge.Calls

/-!
# The audit log of a store that starts empty

Two invariants of the committed contents, kept by the opening of the database and by the transaction
of every tool. `Sound`: the events are numbered 1 to n by their ids and form the chain that `verify`
accepts. `Replays`: the facts are what the events say they are. They hold in every reachable state
of any number of server processes, in whatever order their statements run and wherever they fail.
-/

open SingleWriter

namespace MemoryBridge

variable {S : Type} {rt : Runtime S}

/-! ## What every transaction of a tool has in common -/

theorem wrote_cases (rt : Runtime S) (key : String) (f : Fact) (expectedValue : Option String)
    (requireAbsent : Bool) (d : Db) :
    wrote rt key f expectedValue requireAbsent d =
        ({ d with facts := d.facts.insert key f }, none) ∨
      ∃ failure, wrote rt key f expectedValue requireAbsent d = (d, some failure) := by
  unfold wrote
  cases requireAbsent with
  | true =>
    simp only [if_true]
    split
    · exact .inr ⟨_, rfl⟩
    · exact .inl rfl
  | false =>
    cases expectedValue with
    | none => exact .inl rfl
    | some expected =>
      simp only [Bool.false_eq_true, if_false]
      split
      · exact .inl rfl
      · exact .inr ⟨_, rfl⟩

/-- A `memory_set` that is not refused writes the fact, its embedding and one event; one that is
refused writes one event. -/
theorem SetTo.cases {key value cid : String} {expectedValue : Option String} {requireAbsent : Bool}
    {embedding : Option (List UInt8)} {t₁ t₂ : Instant} {b w : Db} {casFailure : Option String}
    (h : SetTo rt key value cid expectedValue requireAbsent embedding t₁ t₂ b w casFailure) :
    (casFailure = none ∧ Logged rt t₂.text cid "set" (some key) (some value)
        (stored key embedding { b with facts := b.facts.insert key ⟨value, cid, t₁.text⟩ }) w) ∨
      ∃ failure, casFailure = some failure ∧
        Logged rt t₂.text cid "cas_fail" (some key) (some failure) b w := by
  obtain ⟨hf, hr⟩ := h
  rcases wrote_cases rt key ⟨value, cid, t₁.text⟩ expectedValue requireAbsent b with hw | ⟨x, hw⟩
  · rw [hw] at hf hr
    subst hf
    exact .inl ⟨rfl, hr⟩
  · rw [hw] at hf hr
    subst hf
    exact .inr ⟨x, rfl, hr⟩

@[simp] theorem stored_facts (key : String) (embedding : Option (List UInt8)) (d : Db) :
    (stored key embedding d).facts = d.facts := by
  cases embedding <;> rfl

@[simp] theorem stored_events (key : String) (embedding : Option (List UInt8)) (d : Db) :
    selectEvents (stored key embedding d) = selectEvents d := by
  cases embedding <;> rfl

theorem stored_frame (key : String) (embedding : Option (List UInt8)) (d : Db) :
    stored key embedding d = { d with embeddings := (stored key embedding d).embeddings } := by
  cases embedding <;> rfl

/-- A fact found after a write is the one written, or was there. -/
theorem lookup_stored {key k : String} {f f' : Fact} {embedding : Option (List UInt8)} {d : Db}
    (h : (stored key embedding { d with facts := d.facts.insert key f }).facts.lookup k = some f') :
    (k = key ∧ f' = f) ∨ d.facts.lookup k = some f' := by
  rw [stored_facts] at h
  change (d.facts.insert key f).lookup k = some f' at h
  by_cases hk : k = key
  · subst hk
    rw [AList.lookup_insert] at h
    exact .inl ⟨rfl, (Option.some.inj h).symm⟩
  · rw [AList.lookup_insert_ne hk] at h
    exact .inr h

/-- A fact found after a deletion was there. -/
theorem lookup_erased {key k : String} {f : Fact} {d : Db}
    (h : (erased key d).facts.lookup k = some f) : d.facts.lookup k = some f := by
  change (d.facts.erase key).lookup k = some f at h
  by_cases hk : k = key
  · subst hk
    rw [AList.lookup_erase] at h
    cases h
  · rwa [AList.lookup_erase_ne hk] at h

variable {cfg : Config} {ctx : Context} {c : Call} {h : List (Obs Db Instant)} {b w : Db}

section Tools

variable [LinearOrder S]

/-- A tool changes facts and embeddings, then logs one event. -/
theorem Own.logged (ho : Own rt cfg ctx c h b w) :
    ∃ d timestamp cid action key value, Logged rt timestamp cid action key value d w ∧
      d = { b with facts := d.facts, embeddings := d.embeddings } := by
  cases ho with
  | memorySet _ _ hs =>
    rcases hs.cases with ⟨-, hl⟩ | ⟨failure, -, hl⟩
    · refine ⟨_, _, _, _, _, _, hl, ?_⟩
      rw [stored_frame]
    · exact ⟨_, _, _, _, _, _, hl, rfl⟩
  | memoryGet _ _ _ hl => exact ⟨_, _, _, _, _, _, hl, rfl⟩
  | memorySearch _ _ _ hl => exact ⟨_, _, _, _, _, _, hl, rfl⟩
  | memoryDelete _ _ hl => exact ⟨_, _, _, _, _, _, hl, rfl⟩
  | lockHold _ _ hl => exact ⟨_, _, _, _, _, _, hl, rfl⟩

/-- The row that a tool adds, at the end of the table and with the next id. -/
theorem Own.rows (ho : Own rt cfg ctx c h b w) :
    ∃ r, w.events.rows = b.events.rows ++ [r] ∧ r.event.id = Audit.nextId b.events.seq ∧
      w.events.seq = some r.event.id := by
  obtain ⟨d, ts, cid, action, key, value, hl, hd⟩ := ho.logged
  obtain ⟨s, t, -, rfl, hrows, hseq, -⟩ := hl.spec
  rw [hd] at hrows hseq
  exact ⟨_, hrows, rfl, hseq⟩

theorem Own.hasChain (ho : Own rt cfg ctx c h b w) :
    MemoryBridge.hasChain b = true ∧ MemoryBridge.hasChain w = true := by
  obtain ⟨d, ts, cid, action, key, value, hl, hd⟩ := ho.logged
  have := hl.hasChain
  rwa [hd] at this

theorem Own.chained (ho : Own rt cfg ctx c h b w) (hb : Audit.Chained rt b) :
    Audit.Chained rt w := by
  obtain ⟨d, ts, cid, action, key, value, hl, hd⟩ := ho.logged
  refine hl.chained ?_
  rw [hd]
  exact hb

end Tools

/-- A migration keeps the events and the counter. -/
theorem Migrated.events (hm : Migrated rt b w) :
    selectEvents w = selectEvents b ∧ w.events.seq = b.events.seq := by
  obtain ⟨f, rfl⟩ := hm.rehashed
  exact ⟨b.events.rehash_events f, rfl⟩

theorem Migrated.tables (hm : Migrated rt b w) :
    w.facts = b.facts ∧ w.embeddings = b.embeddings := by
  obtain ⟨f, rfl⟩ := hm.rehashed
  exact ⟨rfl, rfl⟩

theorem Migrated.not_hasChain (hm : Migrated rt b w) : MemoryBridge.hasChain b = false := by
  simp [MemoryBridge.hasChain, hm.legacy.1]

/-! ## The chain -/

/-- The store after the first server has opened it. -/
def Db.opened : Db := ⟨∅, ∅, .empty, true, true, true⟩

/-- A store with one fact. -/
def Db.oneFact (key value : String) : Db :=
  { Db.opened with facts := AList.insert key ⟨value, "", ""⟩ ∅ }

/-- The events are numbered from 1 and chained; before the migration there is none. -/
structure Sound (rt : Runtime S) (d : Db) : Prop where
  ids : d.events.rows.map (·.event.id) =
    (List.range d.events.rows.length).map fun i : ℕ => (i : ℤ) + 1
  counter : d.events.seq.getD 0 = d.events.rows.length
  chained : MemoryBridge.hasChain d = true → Audit.Chained rt d
  legacy : MemoryBridge.hasChain d = false → d.events.rows = []

theorem Sound.of_start {d : Db} (hd : d = .empty ∨ d = .opened) : Sound rt d := by
  rcases hd with rfl | rfl
  · exact ⟨rfl, rfl, nofun, fun _ => rfl⟩
  · exact ⟨rfl, rfl, fun h => ⟨h, Audit.chainFrom_nil⟩, fun _ => rfl⟩

theorem Sound.migrates (hb : Sound rt b) (hm : Migrates rt b w) : Sound rt w := by
  rcases hm with ⟨-, rfl⟩ | hm
  · exact hb
  · obtain ⟨hev, hseq⟩ := hm.events
    have hrows : w.events.rows = [] := by
      have := hb.legacy hm.not_hasChain
      rw [selectEvents, selectEvents, this] at hev
      exact List.map_eq_nil_iff.1 hev
    refine ⟨by simp [hrows], ?_, fun _ => hm.chained, fun _ => hrows⟩
    rw [hseq, hb.counter, hrows, hb.legacy hm.not_hasChain]

theorem Migrates.hasChain (hm : Migrates rt b w) : MemoryBridge.hasChain w = true := by
  rcases hm with ⟨hb, rfl⟩ | hm
  · exact hb
  · exact hm.chained.1

section Tools

variable [LinearOrder S]

theorem Sound.own (hb : Sound rt b) (ho : Own rt cfg ctx c h b w) : Sound rt w := by
  obtain ⟨r, hrows, hid, hseq⟩ := ho.rows
  have hnext : r.event.id = (b.events.rows.length : ℤ) + 1 := by
    rw [hid, ← hb.counter]
    cases b.events.seq <;> rfl
  refine ⟨?_, ?_, fun _ => ho.chained (hb.chained ho.hasChain.1), fun hn => ?_⟩
  · rw [hrows, List.map_append, hb.ids, List.length_append, List.length_singleton, List.range_succ,
      List.map_append, List.map_singleton, List.map_singleton, hnext]
  · rw [hseq, hrows, Option.getD_some, hnext]
    simp
  · rw [ho.hasChain.2] at hn
    cases hn

theorem Sound.commits (hb : Sound rt b) (hc : Commits rt cfg ctx c h b w) : Sound rt w := by
  rcases hc with ⟨d, -, -, hm⟩ | ⟨q, h', -, -, ho⟩
  · exact hb.migrates hm
  · exact hb.own ho

theorem Commits.hasChain (hc : Commits rt cfg ctx c h b w) : MemoryBridge.hasChain w = true := by
  rcases hc with ⟨d, -, -, hm⟩ | ⟨q, h', -, -, ho⟩
  · exact hm.hasChain
  · exact ho.hasChain.2

theorem Commits.rows_prefix (hc : Commits rt cfg ctx c h b w) (hb : Sound rt b) :
    b.events.rows <+: w.events.rows := by
  rcases hc with ⟨d, -, -, ⟨-, rfl⟩ | hm⟩ | ⟨q, h', -, -, ho⟩
  · exact List.prefix_rfl
  · rw [hb.legacy hm.not_hasChain]
    exact List.nil_prefix
  · obtain ⟨r, hrows, -⟩ := ho.rows
    exact hrows ▸ List.prefix_append _ _

end Tools

/-! ## The facts as a replay of the events -/

/-- The event changes the fact of `k`. -/
def changes (k : String) (e : Event) : Prop :=
  e.key = .text k ∧ (e.action = .text "set" ∨ e.action = .text "delete")

instance (k : String) (e : Event) : Decidable (changes k e) := inferInstanceAs (Decidable (_ ∧ _))

/-- The last event that changes the fact of `k`. -/
def lastChange (k : String) (es : List Event) : Option Event :=
  (es.filter fun e => changes k e).getLast?

/-- The value and the source client of `k` after the events. -/
def replayed (k : String) (es : List Event) : Option (Cell × Cell) :=
  (lastChange k es).bind fun e =>
    if e.action = .text "set" then some (e.value, e.clientId) else none

/-- What a fact shows of the event that wrote it. -/
def Fact.cells (f : Fact) : Cell × Cell := (.text f.value, .text f.sourceClient)

/-- The facts are the replay of the events. -/
def Replays (d : Db) : Prop :=
  ∀ k, (d.facts.lookup k).map Fact.cells = replayed k (selectEvents d)

theorem Replays.of_start {d : Db} (hd : d = .empty ∨ d = .opened) : Replays d := by
  rcases hd with rfl | rfl <;> exact fun k => rfl

theorem lastChange_append (k : String) (es : List Event) (e : Event) :
    lastChange k (es ++ [e]) = if changes k e then some e else lastChange k es := by
  unfold lastChange
  rw [List.filter_append]
  split
  case isTrue h => simp [h]
  case isFalse h => simp [h]

theorem replayed_append (k : String) (es : List Event) (e : Event) :
    replayed k (es ++ [e]) =
      if changes k e then (if e.action = .text "set" then some (e.value, e.clientId) else none)
      else replayed k es := by
  unfold replayed
  rw [lastChange_append]
  split <;> rfl

/-- An event that changes no fact. -/
theorem Replays.logged_other {ts cid action : String} {key value : Option String} (hb : Replays b)
    (hl : Logged rt ts cid action key value b w) (ha : action ≠ "set" ∧ action ≠ "delete") :
    Replays w := by
  intro k
  rw [hl.facts, hl.events, replayed_append, if_neg, hb k]
  rintro ⟨-, h | h⟩
  · exact ha.1 (Cell.text.inj h)
  · exact ha.2 (Cell.text.inj h)

theorem Replays.logged_set {ts cid key value updated : String} {d : Db} (hb : Replays b)
    (hl : Logged rt ts cid "set" (some key) (some value) d w)
    (hd : d.facts = b.facts.insert key ⟨value, cid, updated⟩)
    (hev : selectEvents d = selectEvents b) : Replays w := by
  intro k
  rw [hl.facts, hl.events, replayed_append, hd, hev]
  by_cases hk : k = key
  · subst hk
    rw [AList.lookup_insert, if_pos ⟨rfl, .inl rfl⟩]
    rfl
  · rw [AList.lookup_insert_ne hk, if_neg, hb k]
    rintro ⟨h, -⟩
    exact hk (Cell.text.inj h).symm

theorem Replays.logged_delete {ts cid key : String} (hb : Replays b)
    (hl : Logged rt ts cid "delete" (some key) none (erased key b) w) : Replays w := by
  intro k
  have hev : selectEvents (erased key b) = selectEvents b := rfl
  have hfacts : (erased key b).facts = b.facts.erase key := rfl
  rw [hl.facts, hl.events, replayed_append, hev, hfacts]
  by_cases hk : k = key
  · subst hk
    rw [AList.lookup_erase, if_pos ⟨rfl, .inr rfl⟩]
    rfl
  · rw [AList.lookup_erase_ne hk, if_neg, hb k]
    rintro ⟨h, -⟩
    exact hk (Cell.text.inj h).symm

theorem Replays.migrates (hb : Replays b) (hm : Migrates rt b w) : Replays w := by
  rcases hm with ⟨-, rfl⟩ | hm
  · exact hb
  · intro k
    rw [hm.events.1, hm.tables.1]
    exact hb k

/-- What the replay says of one fact. -/
theorem Replays.iff {d : Db} (hd : Replays d) (k value source : String) :
    (∃ f, d.facts.lookup k = some f ∧ f.value = value ∧ f.sourceClient = source) ↔
      ∃ e, lastChange k (selectEvents d) = some e ∧ e.action = .text "set" ∧
        e.value = .text value ∧ e.clientId = .text source := by
  have hk := hd k
  unfold replayed at hk
  constructor
  · rintro ⟨f, hf, rfl, rfl⟩
    rw [hf, Option.map_some, eq_comm, Option.bind_eq_some_iff] at hk
    obtain ⟨e, he, hif⟩ := hk
    split at hif
    case isTrue ha =>
      obtain ⟨hv, hc⟩ := Prod.mk.inj (Option.some.inj hif)
      exact ⟨e, he, ha, hv, hc⟩
    case isFalse => cases hif
  · rintro ⟨e, he, ha, hv, hc⟩
    rw [he, Option.bind_some, if_pos ha, Option.map_eq_some_iff] at hk
    obtain ⟨f, hf, hcells⟩ := hk
    obtain ⟨h₁, h₂⟩ := Prod.mk.inj hcells
    exact ⟨f, hf, Cell.text.inj (h₁.trans hv), Cell.text.inj (h₂.trans hc)⟩

section Tools

variable [LinearOrder S]

theorem Replays.own (hb : Replays b) (ho : Own rt cfg ctx c h b w) : Replays w := by
  cases ho with
  | memorySet _ _ hs =>
    rcases hs.cases with ⟨-, hl⟩ | ⟨failure, -, hl⟩
    · exact hb.logged_set hl (stored_facts ..) (stored_events ..)
    · exact hb.logged_other hl (by decide)
  | memoryGet _ _ _ hl => exact hb.logged_other hl (by decide)
  | memorySearch _ _ _ hl => exact hb.logged_other hl (by decide)
  | memoryDelete _ _ hl => exact hb.logged_delete hl
  | lockHold _ _ hl => exact hb.logged_other hl (by decide)

theorem Replays.commits (hb : Replays b) (hc : Commits rt cfg ctx c h b w) : Replays w := by
  rcases hc with ⟨d, -, -, hm⟩ | ⟨q, h', -, -, ho⟩
  · exact hb.migrates hm
  · exact hb.own ho

end Tools

/-! ## Runs -/

section Runs

variable [LinearOrder S] {ι : Type} [DecidableEq ι] {cfg : ι → Config}
  {s₀ s₁ s₂ : Sys ι (Context × Call) Db Instant Failure Bool PyExc String}

theorem Reach.sound (h₀ : s₀.Init) (hd : Sound rt s₀.db) (h : Reach (servers rt cfg) s₀ s₁) :
    Sound rt s₁.db :=
  Reach.invariant (meets cfg) h₀ (I := Sound rt) (fun _ _ _ _ _ hc hb => hb.commits hc) hd h

/-- Once something is committed, there is a chain. -/
theorem Reach.hasChain (h₀ : s₀.Init) (h : Reach (servers rt cfg) s₀ s₁)
    (hc : MemoryBridge.hasChain s₀.db = true ∨ ¬NoCommit s₁.trace) :
    MemoryBridge.hasChain s₁.db = true := by
  have g := Reach.good (meets cfg) h₀ h
  rcases contents_eq s₀.db s₁.trace with hn | ⟨p, n, c, b, hm⟩
  · rw [g.db, hn.contents]
    exact hc.resolve_right (not_not.2 hn)
  · obtain ⟨t₁, t₂, -, -, -, hcom⟩ := g.trace.commit hm
    rw [g.db]
    exact Commits.hasChain hcom

/-- **The audit log of a store that starts empty.** In every committed state the chain verifies with
the number of events as its count, the ids are 1 to n, and the events stay an unchanged prefix of
those of every later state. Only a store whose tables were just created, before the first migration
is committed, has no chain yet. -/
theorem audit_log_sound (h₀ : s₀.Init) (hd : s₀.db = .empty ∨ s₀.db = .opened)
    (h₁ : Reach (servers rt cfg) s₀ s₁) (h₂ : Reach (servers rt cfg) s₁ s₂) :
    (s₀.db = .opened ∨ ¬NoCommit s₁.trace →
      ∃ head, Audit.verify rt s₁.db none = .ok (s₁.db.events.rows.length, head)) ∧
    s₁.db.events.rows.map (·.event.id) =
      (List.range s₁.db.events.rows.length).map (fun i : ℕ => (i : ℤ) + 1) ∧
    s₁.db.events.rows <+: s₂.db.events.rows := by
  have hs₀ : Sound rt s₀.db := .of_start hd
  have hs₁ := Reach.sound h₀ hs₀ h₁
  refine ⟨fun hc => ?_, hs₁.ids, ?_⟩
  · refine (hs₁.chained (Reach.hasChain h₀ h₁ (hc.imp_left fun ho => ?_))).verify
    rw [ho]
    rfl
  · exact Reach.related (meets cfg) h₀ (I := Sound rt)
      (R := fun b w => b.events.rows <+: w.events.rows)
      (fun _ => List.prefix_rfl) (fun _ _ _ => List.IsPrefix.trans)
      (fun _ _ _ _ _ hc hb => hb.commits hc) (fun _ _ _ _ _ hc hb => hc.rows_prefix hb) hs₀ h₁ h₂

/-- A run in which one server sets a key and another deletes it. -/
theorem audit_log_sound_sample :
    ∃ s₁ s₂ : Sys ℕ (Context × Call) Db Instant Failure Bool PyExc String,
    s₁.db.events.rows = [Audit.sampleSet] ∧
    s₂.db.events.rows = [Audit.sampleSet, Audit.sampleDelete] ∧
    (∃ head, Audit.verify Audit.sampleRuntime s₁.db none =
      .ok (s₁.db.events.rows.length, head)) ∧
    s₁.db.events.rows.map (·.event.id) =
      (List.range s₁.db.events.rows.length).map (fun i : ℕ => (i : ℤ) + 1) ∧
    s₁.db.events.rows <+: s₂.db.events.rows := by
  obtain ⟨s₁, s₂, h₁, h₂, hc, hr₁, hr₂⟩ := sample_run
  have h := audit_log_sound (Sys.initial_init .empty false) (.inl rfl) h₁ h₂
  exact ⟨s₁, s₂, hr₁, hr₂, h.1 (.inr hc), h.2⟩

/-- **The facts are the replay of the events.** In every committed state, a key has a fact with this
value and source exactly if the last event that changes the key is a `set` of this value by this
client. -/
theorem facts_replay_events (h₀ : s₀.Init) (hd : s₀.db = .empty ∨ s₀.db = .opened)
    (h : Reach (servers rt cfg) s₀ s₁) (k value source : String) :
    (∃ f, s₁.db.facts.lookup k = some f ∧ f.value = value ∧ f.sourceClient = source) ↔
      ∃ e, lastChange k (selectEvents s₁.db) = some e ∧ e.action = .text "set" ∧
        e.value = .text value ∧ e.clientId = .text source := by
  have hr := Reach.invariant (meets cfg) h₀ (I := Replays)
    (fun _ _ _ _ _ hc hb => Replays.commits hb hc) (.of_start hd) h
  exact hr.iff k value source

/-- The fact of the key after the first call of this run. -/
theorem facts_replay_events_sample :
    ∃ s₁ : Sys ℕ (Context × Call) Db Instant Failure Bool PyExc String,
      s₁.db.events.rows = [Audit.sampleSet] ∧
      ∃ f, s₁.db.facts.lookup "k" = some f ∧ f.value = "v" ∧ f.sourceClient = "alice" := by
  obtain ⟨s₁, s₂, h₁, h₂, hc, hr₁, hr₂⟩ := sample_run
  refine ⟨s₁, hr₁, (facts_replay_events (Sys.initial_init .empty false) (.inl rfl) h₁ "k" "v"
    "alice").2 ⟨Audit.sampleSet.event, ?_, rfl, rfl, rfl⟩⟩
  rw [selectEvents, hr₁]
  decide

end Runs

end MemoryBridge
