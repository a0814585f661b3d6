import MemoryBridge.Linearization

/-!
# Logged reads

`memory_get` reads the fact, then logs the read in a transaction of its own, then reads the events
if they are asked for. Other processes may commit in between, so the place of its event in the log
says only that the fact was read before it: what it returns is the replay of the earlier events
exactly if the key was left as it was between the two (`logged_get_agrees_iff`), and a single commit
between them is enough that it is not (`logged_get_disagrees`).
-/

open SingleWriter

namespace MemoryBridge

variable {S : Type} {rt : Runtime S}

/-! ## The log at a place -/

/-- The events with ids below `id`. -/
def eventsBelow (id : ℤ) (d : Db) : List Event := (selectEvents d).filter (·.id < id)

/-- The value and the source client that an event which changes a fact leaves it with. -/
def Event.leaves (e : Event) : Option (Cell × Cell) :=
  if e.action = .text "set" then some (e.value, e.clientId) else none

theorem eventsBelow_eq {d : Db} {es rest : List Event} {e : Event}
    (h : selectEvents d = es ++ e :: rest) : eventsBelow e.id d = es := by
  have hsorted : (selectEvents d).Pairwise fun x y => x.id < y.id :=
    List.pairwise_map.2 d.events.sorted
  rw [h] at hsorted
  obtain ⟨-, hrest, hes⟩ := List.pairwise_append.1 hsorted
  have hrest := (List.pairwise_cons.1 hrest).1
  have h₁ : es.filter (·.id < e.id) = es :=
    List.filter_eq_self.2 fun x hx => by simpa using hes x hx e (by simp)
  have h₂ : rest.filter (·.id < e.id) = [] :=
    List.filter_eq_nil_iff.2 fun x hx => by simpa using Int.le_of_lt (hrest x hx)
  rw [eventsBelow, h, List.filter_append, List.filter_cons, h₁, h₂]
  simp

theorem lastChange_append_list (k : String) (es es' : List Event) :
    lastChange k (es ++ es') = (lastChange k es').or (lastChange k es) := by
  unfold lastChange
  rw [List.filter_append, List.getLast?_append]

/-- More events leave a fact as it was exactly if the last of them that changes it does. -/
theorem replayed_append_eq_iff (k : String) (es es' : List Event) :
    replayed k es = replayed k (es ++ es') ↔
      ∀ x, lastChange k es' = some x → x.leaves = replayed k es := by
  have happ : replayed k (es ++ es') =
      ((lastChange k es').or (lastChange k es)).bind Event.leaves := by
    rw [← lastChange_append_list]
    rfl
  rw [happ]
  cases lastChange k es' with
  | none => exact iff_of_true rfl nofun
  | some x =>
    show replayed k es = x.leaves ↔ _
    constructor
    · rintro h y ⟨⟩
      exact h.symm
    · intro h
      exact (h x rfl).symm

/-- The events that `memory_get` lists show every change of the fact. -/
theorem lastChange_eventsOf (key : String) (d : Db) :
    lastChange key (eventsOf key writeActions d) = lastChange key (selectEvents d) := by
  unfold lastChange eventsOf
  rw [List.filter_filter]
  congr 1
  refine List.filter_congr fun e _ => ?_
  rw [Bool.and_eq_left_iff_imp]
  intro hc
  obtain ⟨hk, ha | ha⟩ := of_decide_eq_true hc
  · exact decide_eq_true ⟨hk, "set", by simp [writeActions], ha⟩
  · exact decide_eq_true ⟨hk, "delete", by simp [writeActions], ha⟩

/-- From a store whose facts are the replay of its events: the value that was read is the last one
of a longer log exactly if the events added to it keep it. -/
theorem Replays.listed_iff {d : Db} (hd : Replays d) {key : String} {f : Fact}
    (hf : selectFact key d = some f) (later : List Event) :
    (lastChange key (selectEvents d ++ later)).map Event.value = some (.text f.value) ↔
      ∀ x, lastChange key later = some x → x.value = .text f.value := by
  rw [lastChange_append_list]
  cases lastChange key later with
  | none =>
    obtain ⟨e, he, -, hv, -⟩ := (hd.iff key f.value f.sourceClient).1 ⟨f, hf, rfl, rfl⟩
    simp [he, hv]
  | some x => simp

/-! ## What a logged read does -/

/-- A `memory_get` of `key` that logged the event `e` and answered `r`: it read the fact from `d`,
and afterwards did `q`. -/
structure LoggedGet {ι : Type} [DecidableEq ι] (rt : Runtime S) (cfg : Config)
    (d₀ : Db) (t : List (Entry ι (Context × Call) Db Instant PyExc String)) (p : ι) (n : ℕ)
    (key : String) (includeEvents : Bool) (e : Event) (r : Except PyExc String) (d : Db)
    (q : List (Obs Db Instant)) : Prop where
  /-- It read the fact, took the lock for its event, and committed it. -/
  steps : ∃ time b w, selectEvents w = selectEvents b ++ [e] ∧
    .read d :: .clock time :: .lock b :: .commit b w :: q <:+ history t p n
  event : e.action = .text "get" ∧ e.key = .text key
  /-- What it answered shows the row that it read. -/
  shown : ∃ r', Shows rt key includeEvents (selectFact key d) q r' ∧
    r = r'.mapError (guardError cfg)
  /-- It agrees with its place in the log exactly if the last change of the key that was committed
  between the read and the event, if there is one, left the key as it was read. -/
  place : ∃ between, eventsBelow e.id (contents d₀ t) = selectEvents d ++ between ∧
    ((selectFact key d).map Fact.cells = replayed key (eventsBelow e.id (contents d₀ t)) ↔
      ∀ x, lastChange key between = some x → x.leaves = (selectFact key d).map Fact.cells)
  /-- Its first line agrees with the events it lists exactly if the last change of the key that was
  committed between the two reads, if there is one, has the same value. -/
  listed : ∀ d₁ f, q = [.read d₁] → selectFact key d = some f →
    ∃ later, selectEvents d₁ = selectEvents d ++ later ∧
      ((lastChange key (eventsOf key writeActions d₁)).map Event.value = some (.text f.value) ↔
        ∀ x, lastChange key later = some x → x.value = .text f.value)

section Runs

variable [LinearOrder S] {ι : Type} [DecidableEq ι] {cfg : ι → Config} {d₀ : Db}
  {t : List (Entry ι (Context × Call) Db Instant PyExc String)}

/-- A call that committed an event of its own and answered as `memory_get` logged that read. -/
theorem Replies.loggedGet {cfg : Config} {ctx : Context} {key : String} {includeEvents : Bool}
    {h : List (Obs Db Instant)} {r : Except PyExc String} {b w : Db}
    (hr : Replies rt cfg ctx (.memoryGet key includeEvents) h r) (hc : .commit b w ∈ h)
    (he : selectEvents w ≠ selectEvents b) :
    ∃ q d time cid q' r', h = q ++ .read d :: .clock time :: .lock b :: .commit b w :: q' ∧
      Logged rt (Instant.text time) cid "get" (some key) none b w ∧
      Shows rt key includeEvents (selectFact key d) q' r' ∧ r = r'.mapError (guardError cfg) := by
  obtain ⟨r', ⟨q, h', hq, rfl, hres⟩, rfl⟩ := hr
  have hc : .commit b w ∈ h' := by
    rcases List.mem_append.1 hc with hc | hc
    · exact absurd (hq.selectEvents hc) he
    · exact hc
  rcases hres with ha | ⟨hquiet, -⟩
  · cases ha with
    | memoryGet _ _ _ hl hs =>
      have hc := hc
      simp only [List.cons_append, List.nil_append, List.mem_cons, reduceCtorEq, Obs.commit.injEq,
        hs.quiet b w, or_false, false_or] at hc
      obtain ⟨rfl, rfl⟩ := hc
      exact ⟨q, _, _, _, _, _, rfl, hl, hs, rfl⟩
    | memoryGetUnlogged _ hs =>
      simp only [List.mem_cons, reduceCtorEq, hs.quiet b w, or_false] at hc
  · exact absurd hc (hquiet b w)

variable {s₀ s : Sys ι (Context × Call) Db Instant Failure Bool PyExc String}

/-- **When a logged read agrees with its place in the log.** Over a store that starts empty, every
answered `memory_get` that appended an event has read the fact from a store `d` that was committed
before, and what it shows is what `LoggedGet` says: the replay of the earlier events, and the last
change among the events it lists, exactly if the changes that were committed since the read left the
key as it was. -/
theorem logged_get_agrees_iff (h₀ : s₀.Init) (hd : s₀.db = .empty ∨ s₀.db = .opened)
    (h : Reach (servers rt cfg) s₀ s) {p : ι} {n : ℕ} {ctx : Context} {key : String}
    {includeEvents : Bool} {r : Except PyExc String} {c : Context × Call} {b w : Db} {e : Event}
    (hr : .reply p n (ctx, .memoryGet key includeEvents) r ∈ s.trace)
    (hc : .obs p n c (.commit b w) ∈ s.trace) (he : selectEvents w = selectEvents b ++ [e]) :
    ∃ d q, LoggedGet rt (cfg p) s₀.db s.trace p n key includeEvents e r d q := by
  have g := Reach.good (meets cfg) h₀ h
  have hsound : Sound rt s₀.db := .of_start hd
  have hreplays := Replays.of_start hd
  -- the call at its place in the trace
  obtain ⟨u, v, ht, hu, hrep, -, hbefore⟩ := g.trace.reply hr
  have htrace := g.trace
  rw [ht] at htrace
  have hhist : history s.trace p n = history u p n := by
    rw [ht]
    exact htrace.history_reply
  have hmem : .commit b w ∈ history u p n := mem_history.2 ⟨c, hbefore c _ hc⟩
  obtain ⟨q₀, d, time, cid, q, r', hh, hl, hs, hrr⟩ :=
    hrep.loggedGet hmem (by rw [he]; simp)
  obtain ⟨u₁, c₁, u₂, rfl, -, h₂⟩ := history_eq_append_cons hh
  obtain ⟨u₃, c₃, u₄, rfl, -, h₄⟩ := history_eq_append_cons (l := [.clock time, .lock b]) h₂
  have hread : d = contents s₀.db u₁ := (hu u₁ _ _ rfl).seen
  have hcommit := hu (u₁ ++ .obs p n c₁ (.read d) :: u₃) (.obs p n c₃ (.commit b w)) u₄ (by simp)
  have hbase : b = contents s₀.db (u₁ ++ .obs p n c₁ (.read d) :: u₃) := hcommit.seen.1
  have hwritten : w = contents s₀.db (u₁ ++ .obs p n c₁ (.read d) :: u₃ ++
      [.obs p n c₃ (.commit b w)]) :=
    (contents_commit ..).symm
  have hd' : Replays d := by
    rw [hread]
    exact TraceOk.invariant (I := Replays) (fun _ _ _ _ _ hc hb => Replays.commits hb hc) hreplays
      hu.of_append
  -- the log at the read, under the lock, and at the end
  obtain ⟨between, hbetween⟩ : selectEvents d <+: selectEvents b := by
    rw [hread, hbase]
    exact selectEvents_prefix hu ⟨_, rfl⟩ ⟨.obs p n c₃ (.commit b w) :: u₄, by simp⟩
  obtain ⟨rest, hrest⟩ : selectEvents w <+: selectEvents (contents s₀.db s.trace) := by
    rw [hwritten]
    refine selectEvents_prefix g.trace ?_ List.prefix_rfl
    exact ⟨u₄ ++ .reply p n (ctx, .memoryGet key includeEvents) r :: v, by rw [ht]; simp⟩
  have hlog : selectEvents (contents s₀.db s.trace) = selectEvents b ++ e :: rest := by
    rw [← hrest, he]
    simp
  have hbelow := eventsBelow_eq hlog
  have hevent : e = nextEvent time.text cid "get" (some key) none b := by
    have heq := he.symm.trans hl.events
    exact List.singleton_inj.1 (List.append_cancel_left heq)
  refine ⟨d, q, ⟨time, b, w, he, ?_⟩, ?_, ⟨r', hs, hrr⟩, ⟨between, ?_, ?_⟩, ?_⟩
  · rw [hhist, hh]
    exact List.suffix_append _ _
  · rw [hevent]
    exact ⟨rfl, rfl⟩
  · rw [hbelow, hbetween]
  · have hrow := hd' key
    rw [hbelow, ← hbetween, selectFact, hrow]
    exact replayed_append_eq_iff key _ _
  · rintro d₁ f rfl hf
    obtain ⟨u₅, c₅, u₆, rfl, -, -⟩ := history_eq_append_cons (l := []) h₄
    have hread₁ : d₁ = contents s₀.db (u₁ ++ .obs p n c₁ (.read d) :: (u₃ ++
        .obs p n c₃ (.commit b w) :: u₅)) :=
      (hu _ (.obs p n c₅ (.read d₁)) u₆ (by simp)).seen
    obtain ⟨later, hlater⟩ : selectEvents d <+: selectEvents d₁ := by
      rw [hread, hread₁]
      exact selectEvents_prefix hu ⟨_, rfl⟩ ⟨.obs p n c₅ (.read d₁) :: u₆, by simp⟩
    refine ⟨later, hlater.symm, ?_⟩
    rw [lastChange_eventsOf, ← hlater]
    exact hd'.listed_iff hf later

end Runs

/-! ## A read overtaken by a deletion -/

/-- A runtime that knows the digests of three events: alice sets the key, bob deletes it, and a read
is logged. -/
def overtakenRuntime : Runtime ℕ := .tabulated
  [("[\"mcp-memory-events-v1\"," ++
      "\"0000000000000000000000000000000000000000000000000000000000000000\"," ++
      "1,\"2026-01-01T00:00:00.000Z\",\"alice\",\"set\",\"k\",\"v\"]",
    "e18f19e17df63efbab99132989a1f719da3016b0d4fa335418bda5fb0c23212f"),
  ("[\"mcp-memory-events-v1\"," ++
      "\"e18f19e17df63efbab99132989a1f719da3016b0d4fa335418bda5fb0c23212f\"," ++
      "2,\"2026-01-01T00:00:00.000Z\",\"bob\",\"delete\",\"k\",null]",
    "79f49de45a2c6c423af7ad73a0d7bec60561a74c96bfb3987315464a6af342da"),
  ("[\"mcp-memory-events-v1\"," ++
      "\"79f49de45a2c6c423af7ad73a0d7bec60561a74c96bfb3987315464a6af342da\"," ++
      "3,\"2026-01-01T00:00:00.000Z\",\"anonymous\",\"get\",\"k\",null]",
    "ffeb39b9a3a1d03c0ffdef1e8c0d05be6f8cd4e969c2c1652c6ade6822c7a69a")]

abbrev overtakenServers : Clients ℕ (Context × Call) Db Instant Failure Bool PyExc String :=
  servers overtakenRuntime fun _ => { Config.default with embeddingsEnabled := false }

/-- After alice has set the key, a read of it stops before it logs, and bob deletes the key. -/
def overtakenTurns : List (Sys.Turn ℕ (Context × Call) Instant) :=
  [⟨0, some (⟨none⟩, .memorySet "k" "v" (some "alice") none false), .newYear, 40⟩,
    ⟨0, some (⟨none⟩, .memoryGet "k" true), .newYear, 2⟩,
    ⟨1, some (⟨none⟩, .memoryDelete "k" (some "bob")), .newYear, 40⟩,
    ⟨0, none, .newYear, 40⟩]

/-- What the read shows: the fact, and below it its deletion. -/
def overtakenAnswer : String :=
  "k = v  (source: alice, updated: 2026-01-01T00:00:00.000Z)\nevents:\n" ++
    "  2026-01-01T00:00:00.000Z alice set: v\n  2026-01-01T00:00:00.000Z bob delete: None"

/-- The event of the read. -/
def overtakenEvent : Event :=
  ⟨3, .text Instant.newYear.text, .text "anonymous", .text "get", .text "k", .null⟩

/-- The commit of this event. -/
def overtakenCommit : Obs Db Instant → Bool
  | .commit b w => selectEvents w = selectEvents b ++ [overtakenEvent]
  | _ => false

/-- The run of these turns. -/
theorem overtaken_run :
    ∃ s : Sys ℕ (Context × Call) Db Instant Failure Bool PyExc String,
      Reach overtakenServers (.initial .empty false) s ∧
      .reply 0 2 (⟨none⟩, .memoryGet "k" true) (.ok overtakenAnswer) ∈ s.trace ∧
      (∃ c b w, .obs 0 2 c (.commit b w) ∈ s.trace ∧
        selectEvents w = selectEvents b ++ [overtakenEvent]) ∧
      selectEvents s.db = [Audit.sampleSet.event, Audit.sampleDelete.event, overtakenEvent] := by
  have h : (((Sys.initial .empty false).turns overtakenServers overtakenTurns).map fun s =>
      (returned s.trace 0 2 (⟨none⟩, .memoryGet "k" true),
        (history s.trace 0 2).any overtakenCommit, selectEvents s.db)) =
      some (some overtakenAnswer, true,
        [Audit.sampleSet.event, Audit.sampleDelete.event, overtakenEvent]) := by
    decide +kernel
  obtain ⟨s, hs, hv⟩ := Option.map_eq_some_iff.1 h
  obtain ⟨hreturned, hrest⟩ := Prod.mk.inj hv
  obtain ⟨hcommit, hevents⟩ := Prod.mk.inj hrest
  refine ⟨s, Sys.reach_of_turns (fun _ _ _ _ => trivial) hs, reply_mem_of_returned hreturned, ?_,
    hevents⟩
  obtain ⟨o, ho, hc⟩ := List.any_eq_true.1 hcommit
  obtain ⟨c, hmem⟩ := mem_history.1 ho
  unfold overtakenCommit at hc
  split at hc
  case h_1 b w => exact ⟨c, b, w, hmem, of_decide_eq_true hc⟩
  case h_2 => cases hc

/-- What is known of this read. -/
theorem logged_get_agrees_iff_sample :
    ∃ s : Sys ℕ (Context × Call) Db Instant Failure Bool PyExc String,
      selectEvents s.db = [Audit.sampleSet.event, Audit.sampleDelete.event, overtakenEvent] ∧
      ∃ d q, LoggedGet overtakenRuntime { Config.default with embeddingsEnabled := false } .empty
        s.trace 0 2 "k" true overtakenEvent (.ok overtakenAnswer) d q := by
  obtain ⟨s, hs, hr, ⟨c, b, w, hc, hw⟩, hevents⟩ := overtaken_run
  exact ⟨s, hevents, logged_get_agrees_iff (Sys.initial_init _ _) (.inl rfl) hs hr hc hw⟩

/-- **A logged read that disagrees with its place in the log.** The read shows the value of alice,
its event stands after the deletion, and the last change among the events it lists is that
deletion. -/
theorem logged_get_disagrees :
    ∃ s : Sys ℕ (Context × Call) Db Instant Failure Bool PyExc String,
      Reach overtakenServers (.initial .empty false) s ∧
      .reply 0 2 (⟨none⟩, .memoryGet "k" true) (.ok overtakenAnswer) ∈ s.trace ∧
      overtakenEvent ∈ selectEvents s.db ∧
      replayed "k" (eventsBelow overtakenEvent.id s.db) = none ∧
      (lastChange "k" (eventsOf "k" writeActions s.db)).map Event.action =
        some (.text "delete") := by
  obtain ⟨s, hs, hr, -, hevents⟩ := overtaken_run
  refine ⟨s, hs, hr, by simp [hevents], ?_, ?_⟩
  · rw [eventsBelow, hevents]
    decide +kernel
  · rw [eventsOf, hevents]
    decide +kernel

end MemoryBridge
