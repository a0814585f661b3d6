import MemoryBridge.Linearization
import MemoryBridge.Search

/-!
# What a search logs

`memory_search` logs the best of the facts it shows, and nothing if it shows none. So a search is
recorded and each of its hits is in the history of its key exactly if it shows one fact
(`search_audited_iff`): the second hit of a search is in no history (`second_hit_not_logged`).
-/

open SingleWriter Ranking

namespace MemoryBridge

variable {S : Type} {rt : Runtime S}

/-- The call has logged a search of this key for this client, and `memory_history` selects the
event. -/
def LogsSearch {ι : Type} (d₀ : Db) (t : List (Entry ι (Context × Call) Db Instant PyExc String))
    (p : ι) (n : ℕ) (cid key : String) : Prop :=
  ∃ c b w e, .obs p n c (.commit b w) ∈ t ∧ selectEvents w = selectEvents b ++ [e] ∧
    e.action = .text "search" ∧ e.clientId = .text cid ∧
    e ∈ eventsOf key (historyActions true) (contents d₀ t)

/-- The call, a search of the store `d`, is in the log under the client of its caller, and each fact
that it shows has an event under its key. -/
def Audited {ι : Type} (rt : Runtime S) [LinearOrder S] (cfg : Config) (d₀ : Db)
    (t : List (Entry ι (Context × Call) Db Instant PyExc String)) (p : ι) (n : ℕ) (ctx : Context)
    (query : String) (topK : ℤ) (d : Db) : Prop :=
  ∃ cid, clientId cfg ctx none = .ok cid ∧ (∃ key, LogsSearch d₀ t p n cid key) ∧
    ∀ x ∈ shownFacts rt query topK d, LogsSearch d₀ t p n cid x.2.1

/-- There is one fact to find, or there are some and no more than one is asked for. -/
def OneHit (topK : ℤ) (d : Db) : Prop :=
  (searchable d).length = 1 ∨ (topK ≤ 1 ∧ searchable d ≠ [])

/-! ## How many facts a search shows -/

section Hits

variable [LinearOrder S] {d : Db} {topK : ℤ}

omit [LinearOrder S] in
theorem selectJoin_length (rt : Runtime S) (d : Db) :
    (selectJoin rt d).length = (searchable d).length := by
  rw [← (selectJoin_perm rt d).length_eq, List.length_map]

omit [LinearOrder S] in
theorem selectJoin_keys_nodup (rt : Runtime S) (d : Db) :
    ((selectJoin rt d).map SearchRow.key).Nodup := by
  have hkeys : ((searchable d).map Prod.fst).Nodup := by
    refine (List.filter_sublist.map Prod.fst).nodup ?_
    rw [factsOf_keys]
    exact d.facts.keys_nodup
  have hperm := (selectJoin_perm rt d).map Prod.fst
  rw [List.map_map] at hperm
  exact hperm.nodup_iff.2 hkeys

/-- It shows one exactly if `OneHit`. -/
theorem hits_length_eq_one_iff (rt : Runtime S) (query : String) :
    (hits rt query topK d).length = 1 ↔ OneHit topK d := by
  rw [(hits_best rt query topK d).length, selectJoin_length, OneHit, ← List.length_pos_iff]
  omega

end Hits

/-! ## What a call has logged -/

section Trace

variable [LinearOrder S] {ι : Type} [DecidableEq ι] {cfg : ι → Config} {d₀ d : Db}
  {t t₁ t₂ : List (Entry ι (Context × Call) Db Instant PyExc String)} {p : ι} {n : ℕ}
  {c : Context × Call}

omit [LinearOrder S] in
/-- The commits of a search after its read, when it has opened the database before. -/
theorem commit_after_read (ht : t = t₁ ++ .obs p n c (.read d) :: t₂)
    (hq : Opened rt (history t₁ p n)) {c' : Context × Call} {b w : Db} {e : Event}
    (hm : .obs p n c' (.commit b w) ∈ t) (he : selectEvents w = selectEvents b ++ [e]) :
    .commit b w ∈ history t₂ p n := by
  have hmem : .commit b w ∈ history t p n := mem_history.2 ⟨c', hm⟩
  rw [ht, List.append_cons, history_append, history_append] at hmem
  rcases List.mem_append.1 hmem with hmem | hmem
  · rcases List.mem_append.1 hmem with hmem | hmem
    · have := hq.selectEvents hmem
      simp [he] at this
    · simp [history] at hmem
  · exact hmem

/-- A search that logs the key of its best hit logs no other. -/
theorem logsSearch_iff (htrace : TraceOk (serversSpec rt cfg) d₀ t)
    (ht : t = t₁ ++ .obs p n c (.read d) :: t₂) (hq : Opened rt (history t₁ p n)) {time : Instant}
    {b w : Db} {cid key : String} {value : Option String}
    (hh : history t₂ p n = [.clock time, .lock b, .commit b w])
    (hl : Logged rt time.text cid "search" (some key) value b w) {cid' key' : String} :
    LogsSearch d₀ t p n cid' key' ↔ cid' = cid ∧ key' = key := by
  constructor
  · rintro ⟨c', b', w', e, hm, he, -, hcid, hsel⟩
    have hmem := commit_after_read ht hq hm he
    simp only [hh, List.mem_cons, reduceCtorEq, Obs.commit.injEq, List.not_mem_nil, or_false,
      false_or] at hmem
    obtain ⟨rfl, rfl⟩ := hmem
    have hevent : e = nextEvent time.text cid "search" (some key) value b' :=
      List.singleton_inj.1 (List.append_cancel_left (he.symm.trans hl.events))
    obtain ⟨hkey, -⟩ := of_decide_eq_true (List.mem_filter.1 hsel).2
    rw [hevent] at hcid hkey
    exact ⟨(Cell.text.inj hcid).symm, (Cell.text.inj hkey).symm⟩
  · rintro ⟨rfl, rfl⟩
    obtain ⟨c', hm⟩ : ∃ c', .obs p n c' (.commit b w) ∈ t₂ :=
      mem_history.1 (by rw [hh]; simp)
    have hm : .obs p n c' (.commit b w) ∈ t := by
      rw [ht]
      exact List.mem_append_right _ (List.mem_cons_of_mem _ hm)
    refine ⟨c', b, w, _, hm, hl.events, rfl, rfl, List.mem_filter.2 ⟨?_, ?_⟩⟩
    · -- the log only grows
      obtain ⟨u, v, rfl⟩ := List.append_of_mem hm
      have hpre : u ++ [.obs p n c' (.commit b w)] <+: u ++ .obs p n c' (.commit b w) :: v :=
        ⟨v, by simp⟩
      have hprefix := selectEvents_prefix htrace hpre List.prefix_rfl
      rw [contents_commit, hl.events] at hprefix
      exact hprefix.subset (by simp)
    · exact decide_eq_true ⟨rfl, "search", by simp [historyActions], rfl⟩

/-- **When a search is audited.** In every run, a `memory_search` that has returned shows the facts
that it found in the store it read last. It is in the log, and each of these facts has an event of
the call that `memory_history` shows, exactly if there was one fact to find, or some and no more
than one was asked for. -/
theorem search_audited_iff
    {s₀ s : Sys ι (Context × Call) Db Instant Failure Bool PyExc String} (h₀ : s₀.Init)
    (h : Reach (servers rt cfg) s₀ s) {ctx : Context} {query text : String} {topK : ℤ}
    (hr : .reply p n (ctx, .memorySearch query topK) (.ok text) ∈ s.trace) :
    ∃ t₁ t₂, s.trace =
        t₁ ++ .obs p n (ctx, .memorySearch query topK) (.read (contents s₀.db t₁)) :: t₂ ∧
      (∀ d, .read d ∉ history t₂ p n) ∧
      text = shownText rt (shownFacts rt query topK (contents s₀.db t₁)) ∧
      (Audited rt (cfg p) s₀.db s.trace p n ctx query topK (contents s₀.db t₁) ↔
        OneHit topK (contents s₀.db t₁)) := by
  have g := Reach.good (meets cfg) h₀ h
  obtain ⟨t₁, t₂, ht, hq, ha⟩ := search_reply g.trace hr
  refine ⟨t₁, t₂, ht, ?_⟩
  rw [← hits_length_eq_one_iff rt query]
  generalize hh : history t₂ p n = rest at ha
  cases ha with
  | @memorySearch _ cid _ best others time _ b w _ hcid hhits hl =>
    refine ⟨by simp, (shownText_shownFacts hhits).symm, ?_⟩
    have hlogs : ∀ {cid' key' : String}, LogsSearch s₀.db s.trace p n cid' key' ↔
        cid' = cid ∧ key' = best.2.key := logsSearch_iff g.trace ht hq hh hl
    constructor
    · rintro ⟨cid', -, -, hall⟩
      have hkeys : ∀ x ∈ best :: others, x.2.key = best.2.key := by
        intro x hx
        rw [← hhits] at hx
        exact (hlogs.1 (hall _ (List.mem_map_of_mem hx))).2
      have hnodup := (hits_best rt query topK (contents s₀.db t₁)).nodup_map
        (selectJoin_keys_nodup rt _)
      rw [hhits] at hnodup ⊢
      cases others with
      | nil => rfl
      | cons x others =>
        -- a second hit has another key
        refine absurd (hkeys x (by simp)) fun hx => ?_
        simp [hx] at hnodup
    · intro hone
      rw [hhits, List.length_cons, Nat.add_eq_right, List.length_eq_zero_iff] at hone
      subst hone
      refine ⟨cid, hcid, ⟨best.2.key, hlogs.2 ⟨rfl, rfl⟩⟩, fun x hx => ?_⟩
      rw [shownFacts, hhits, List.map_singleton, List.mem_singleton] at hx
      subst hx
      exact hlogs.2 ⟨rfl, rfl⟩
  | memorySearchEmpty _ hempty =>
    refine ⟨by simp, by rw [shownFacts_eq_nil hempty]; rfl, ?_⟩
    rw [hits_eq_nil_iff.2 hempty]
    refine iff_of_false ?_ (by simp)
    rintro ⟨cid, -, ⟨key, c', b, w, e, hm, he, -⟩, -⟩
    have := commit_after_read ht hq hm he
    rw [hh] at this
    cases this

end Trace

/-! ## Searches of two facts -/

/-- A search for one fact is audited. -/
theorem search_audited_iff_sample :
    ∃ s : Sys Unit (Context × Call) Db Instant Failure Bool PyExc String,
      .reply () 3 (⟨none⟩, .memorySearch "a: x" 1)
        (.ok "a = x  (cosine 1.000, source: alice)") ∈ s.trace ∧
      ∃ t₁, t₁ <+: s.trace ∧ Audited searchRuntime Config.default .empty s.trace () 3 ⟨none⟩
        "a: x" 1 (contents .empty t₁) := by
  have h : (((Sys.initial .empty false).turns searchServers (searchTurns 1)).map fun s =>
      returned s.trace () 3 (⟨none⟩, .memorySearch "a: x" 1)) =
      some (some "a = x  (cosine 1.000, source: alice)") := by
    decide +kernel
  obtain ⟨s, hs, hv⟩ := Option.map_eq_some_iff.1 h
  have hr := reply_mem_of_returned hv
  obtain ⟨t₁, t₂, ht, -, htext, hiff⟩ := search_audited_iff (Sys.initial_init _ _)
    (Sys.reach_of_turns (fun _ _ _ _ => trivial) hs) hr
  refine ⟨s, hr, t₁, ⟨_, ht.symm⟩, hiff.2 (.inr ⟨le_rfl, fun hnone => ?_⟩)⟩
  have hjoin : selectJoin searchRuntime (contents .empty t₁) = [] := by
    rw [← List.length_eq_zero_iff, selectJoin_length]
    exact congrArg List.length hnone
  have hnothing : shownFacts searchRuntime "a: x" 1 (contents .empty t₁) = [] :=
    shownFacts_eq_nil hjoin
  exact absurd (htext.trans (congrArg (shownText searchRuntime) hnothing)) (by decide)

/-- **A hit in no history.** The search shows two facts. In the history of the second key there is
its `set` and nothing else. -/
theorem second_hit_not_logged :
    ∃ s : Sys Unit (Context × Call) Db Instant Failure Bool PyExc String,
      Reach searchServers (.initial .empty false) s ∧
      .reply () 3 (⟨none⟩, .memorySearch "a: x" 3)
        (.ok ("a = x  (cosine 1.000, source: alice)\n" ++
          "b = y  (cosine 0.000, source: alice)")) ∈ s.trace ∧
      (eventsOf "b" (historyActions true) s.db).map Event.action = [.text "set"] ∧
      ∀ cid, ¬LogsSearch .empty s.trace () 3 cid "b" := by
  have h : (((Sys.initial .empty false).turns searchServers (searchTurns 3)).map fun s =>
      (returned s.trace () 3 (⟨none⟩, .memorySearch "a: x" 3),
        (eventsOf "b" (historyActions true) s.db).map Event.action)) =
      some (some ("a = x  (cosine 1.000, source: alice)\n" ++
        "b = y  (cosine 0.000, source: alice)"), [.text "set"]) := by
    decide +kernel
  obtain ⟨s, hs, hv⟩ := Option.map_eq_some_iff.1 h
  obtain ⟨hreturned, hactions⟩ := Prod.mk.inj hv
  have hreach : Reach searchServers (.initial .empty false) s :=
    Sys.reach_of_turns (fun _ _ _ _ => trivial) hs
  refine ⟨s, hreach, reply_mem_of_returned hreturned, hactions, ?_⟩
  rintro cid ⟨c, b, w, e, -, -, haction, -, he⟩
  have hdb : s.db = contents .empty s.trace :=
    (Reach.good (meets fun _ => Config.default) (Sys.initial_init _ _) hreach).db
  have hmem := List.mem_map_of_mem (f := Event.action) he
  rw [← hdb, hactions, haction] at hmem
  exact absurd hmem (by decide)

end MemoryBridge
