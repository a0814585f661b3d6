import MemoryBridge.Embeddings
import MemoryBridge.Foundations.Ranking
import MemoryBridge.Foundations.SingleWriter.Solo

/-!
# Search is exact

Where every process embeds, `fact_embeddings` mirrors `facts` (`Indexed`): all four ways to write
keep the row of a fact and its embedding together, and a write that fails changes neither. So the
join that `memory_search` reads has one row for each fact, and sorting and cutting its rows finds
the best of the facts of the store that was read (`search_exact`). The second half of that theorem
is that a search does return, where it is not disturbed.
-/

open SingleWriter Ranking

namespace MemoryBridge

variable {S : Type} {rt : Runtime S}

/-! ## Stores whose facts are all embedded -/

/-- Each fact has one embedding, that of its current text, and nothing else has one. -/
def Indexed (rt : Runtime S) (d : Db) : Prop :=
  Mirrors (fun key (f : Fact) => rt.embed (factText key f.value)) d.facts d.embeddings

theorem Indexed.of_start {d : Db} (hd : d = .empty ∨ d = .opened) : Indexed rt d := by
  rcases hd with rfl | rfl <;> exact Mirrors.empty _

section Tools

variable [LinearOrder S] {cfg : Config} {ctx : Context} {c : Call} {h : List (Obs Db Instant)}
  {b w : Db}

theorem Own.indexed (he : cfg.embeddingsEnabled = true) (ho : Own rt cfg ctx c h b w)
    (hb : Indexed rt b) : Indexed rt w := by
  have hlogs : ∀ {ts cid action : String} {key value : Option String} {d : Db},
      Logged rt ts cid action key value d w → Indexed rt d → Indexed rt w := by
    intro ts cid action key value d hl hd
    unfold Indexed
    rwa [hl.facts, hl.embeddings]
  cases ho with
  | memorySet _ _ hs =>
    rcases hs.cases with ⟨-, hl⟩ | ⟨failure, -, hl⟩
    · refine hlogs hl ?_
      rw [embeddingOf, if_pos he]
      exact hb.insert_insert _ _
    · exact hlogs hl hb
  | memoryGet _ _ _ hl => exact hlogs hl hb
  | memorySearch _ _ _ hl => exact hlogs hl hb
  | memoryDelete _ _ hl => exact hlogs hl (hb.erase_erase _)
  | lockHold _ _ hl => exact hlogs hl hb

theorem Commits.indexed (he : cfg.embeddingsEnabled = true) (hc : Commits rt cfg ctx c h b w)
    (hb : Indexed rt b) : Indexed rt w := by
  rcases hc with ⟨d, -, -, ⟨-, rfl⟩ | hm⟩ | ⟨q, h', -, -, ho⟩
  · exact hb
  · unfold Indexed
    rw [hm.tables.1, hm.tables.2]
    exact hb
  · exact ho.indexed he hb

end Tools

/-! ## The rows of the join -/

/-- The facts, with their keys. -/
def factsOf (d : Db) : List (String × Fact) := d.facts.entries.map fun r => (r.1, r.2)

/-- Those that have an embedding. -/
def searchable (d : Db) : List (String × Fact) := (factsOf d).filter fun f => f.1 ∈ d.embeddings

theorem factsOf_keys (d : Db) : (factsOf d).map Prod.fst = d.facts.keys := List.map_map

theorem mem_factsOf {d : Db} {f : String × Fact} :
    f ∈ factsOf d ↔ d.facts.lookup f.1 = some f.2 := by
  rw [factsOf, List.mem_map]
  constructor
  · rintro ⟨⟨key, f⟩, hf, rfl⟩
    exact AList.mem_lookup_iff.2 hf
  · exact fun h => ⟨⟨f.1, f.2⟩, AList.mem_lookup_iff.1 h, rfl⟩

/-- The join has one row for each fact with an embedding. -/
theorem selectJoin_perm (rt : Runtime S) (d : Db) :
    ((selectJoin rt d).map fun r => (r.key, r.fact)).Perm (searchable d) := by
  refine ((rt.scan_perm _).map _).trans (.of_eq ?_)
  unfold searchable factsOf
  induction d.facts.entries with
  | nil => rfl
  | cons r rows ih =>
    rw [List.filterMap_cons, List.map_cons, List.filter_cons]
    cases he : d.embeddings.lookup r.1 with
    | none => simpa [AList.lookup_eq_none.1 he] using ih
    | some e =>
      have hmem : r.1 ∈ d.embeddings := AList.lookup_isSome.1 (by rw [he]; rfl)
      simpa [hmem] using ih

theorem selectJoin_eq_nil {d : Db} (h : factsOf d = []) : selectJoin rt d = [] := by
  have hperm := selectJoin_perm rt d
  rw [searchable, h] at hperm
  exact List.map_eq_nil_iff.1 hperm.eq_nil

theorem Indexed.searchable_eq {d : Db} (hd : Indexed rt d) : searchable d = factsOf d := by
  refine List.filter_eq_self.2 fun f hf => decide_eq_true (hd.mem ?_)
  rw [← AList.lookup_isSome, mem_factsOf.1 hf]
  rfl

/-! ## What a search shows -/

/-- The similarity of a fact to a query. -/
def similarity (rt : Runtime S) (query : String) (f : String × Fact) : S :=
  rt.dot (rt.embed query) (rt.embed (factText f.1 f.2.value))

/-- The line of a fact with its score. -/
def shownLine (rt : Runtime S) (x : S × String × Fact) : String :=
  x.2.1 ++ " = " ++ x.2.2.value ++ "  (cosine " ++ rt.fmt3 x.1 ++ ", source: " ++
    x.2.2.sourceClient ++ ")"

/-- The answer that shows these facts. -/
def shownText (rt : Runtime S) : List (S × String × Fact) → String
  | [] => "(no searchable facts stored yet)"
  | shown => PyText.join "\n" (shown.map (shownLine rt))

/-- An answer that says that there are no facts shows none. -/
theorem eq_nil_of_shownText {shown : List (S × String × Fact)}
    (h : shownText rt shown = "(no searchable facts stored yet)") : shown = [] := by
  cases shown with
  | nil => rfl
  | cons x rest =>
    exfalso
    have hline : '=' ∈ (shownLine rt x).toList := by simp [shownLine]
    have hmem : '=' ∈ (shownText rt (x :: rest)).toList := by
      cases rest with
      | nil => simpa [shownText, PyText.join, List.intercalate] using hline
      | cons y rest =>
        show '=' ∈ (PyText.join "\n" (shownLine rt x :: shownLine rt y :: _)).toList
        rw [PyText.toList_join_cons]
        simp [hline]
    rw [h] at hmem
    exact absurd hmem (by decide)

section Hits

variable [LinearOrder S] {d : Db} {query : String} {topK : ℤ}

theorem hits_best (rt : Runtime S) (query : String) (topK : ℤ) (d : Db) :
    Best (fun r : SearchRow => rt.dot (rt.embed query) r.embedding) (selectJoin rt d)
      (max 1 topK).toNat (hits rt query topK d) :=
  best_take_ranking _ _ _

/-- A search finds something exactly if there is something to find. -/
theorem hits_eq_nil_iff : hits rt query topK d = [] ↔ selectJoin rt d = [] := by
  have hlen := (hits_best rt query topK d).length
  rw [← List.length_eq_zero_iff, ← List.length_eq_zero_iff]
  omega

/-- The facts that a search shows, with their scores. -/
def shownFacts (rt : Runtime S) (query : String) (topK : ℤ) (d : Db) :
    List (S × String × Fact) :=
  (hits rt query topK d).map fun x => (x.1, x.2.key, x.2.fact)

/-- Where all facts are embedded, it shows the best of them. -/
theorem Indexed.best (hd : Indexed rt d) :
    Best (similarity rt query) (factsOf d) (max 1 topK).toNat (shownFacts rt query topK d) := by
  have hscore : ∀ r ∈ selectJoin rt d,
      similarity rt query (r.key, r.fact) = rt.dot (rt.embed query) r.embedding := by
    intro r hr
    obtain ⟨hf, he⟩ := mem_selectJoin.1 hr
    obtain ⟨f, hf', heq⟩ := hd.derived _ _ he
    rw [hf, Option.some.injEq] at hf'
    rw [heq, ← hf']
    rfl
  exact ((hits_best rt query topK d).map hscore).perm (hd.searchable_eq ▸ selectJoin_perm rt d)

theorem shownText_shownFacts {best : S × SearchRow} {others : List (S × SearchRow)}
    (hh : hits rt query topK d = best :: others) :
    shownText rt (shownFacts rt query topK d) =
      PyText.join "\n" ((best :: others).map (searchLine rt)) := by
  rw [shownFacts, hh]
  show PyText.join "\n" (((best :: others).map _).map (shownLine rt)) = _
  rw [List.map_map]
  rfl

theorem shownFacts_eq_nil (hrows : selectJoin rt d = []) : shownFacts rt query topK d = [] := by
  rw [shownFacts, hits_eq_nil_iff.2 hrows]
  rfl

end Hits

/-! ## A search that nobody disturbs -/

section Alone

variable {d w : Db} {t : Instant} {m : Bool} {ts cid action : String} {key value : Option String}

/-- The connection being open, `_db()` does nothing. -/
theorem alone_db_open {c : Conn Db} :
    (db rt).alone t d c true = some ⟨.ok (), d, c, true⟩ := rfl

/-- `_db()` on a store with a chain. -/
theorem alone_db_sealed (hd : hasChain d = true) :
    (db rt).alone t d .idle m = some ⟨.ok (), d, .idle, true⟩ := by
  cases m with
  | true => rfl
  | false =>
    have hmigrate : (Audit.migrate rt).alone t d .idle false = some ⟨.ok (), d, .idle, false⟩ := by
      refine (Prog.alone_bind_of_ok (Prog.alone_select_idle _)).trans ?_
      rw [hd]
      rfl
    have hinit : (initializeDb rt).alone t d .idle false = some ⟨.ok (), d, .idle, false⟩ := by
      refine (Prog.alone_bind_of_ok Prog.alone_call).trans ?_
      refine (Prog.alone_bind_of_ok Prog.alone_call).trans ?_
      exact (Prog.alone_bind_of_ok Prog.alone_call).trans hmigrate
    refine (Prog.alone_bind_of_ok Prog.alone_getMem).trans ?_
    refine (Prog.alone_bind_of_ok Prog.alone_call).trans ?_
    exact Prog.alone_bind_of_ok (Prog.alone_tryCatch_of_ok hinit)

/-- An event can be appended to a chain, until the ids run out. -/
theorem exists_logged (hd : Audit.Chained rt d) (hid : Audit.nextId d.events.seq ≤ maxInteger)
    (ts cid action : String) (key value : Option String) :
    ∃ w, Logged rt ts cid action key value d w := by
  obtain ⟨p, hp⟩ := hd.tailHash
  obtain ⟨s, hs⟩ : ∃ s, Audit.digest rt (.text p) (nextEvent ts cid action key value d) =
      .ok s := by
    cases key <;> cases value <;> exact ⟨_, rfl⟩
  obtain ⟨hprev, hhash⟩ := Bool.and_eq_true_iff.1 hd.1
  obtain ⟨e', he', -⟩ := d.events.insert_eq
    (r := ⟨nextEvent ts cid action key value d, .text p, .text s⟩) (lt_nextId d)
  refine ⟨{ d with events := e' }, s, by rw [hp]; exact hs, ?_⟩
  rw [hp, insertEvent, if_neg (by simp [hprev]), if_neg (by simp [hhash])]
  show (if maxInteger < Audit.nextId d.events.seq then _ else insertRow _ d) = _
  rw [if_neg (Int.not_lt.2 hid), insertRow, if_neg (by simp), he']

theorem alone_append (hl : Logged rt ts cid action key value d w) :
    (Audit.append rt ts cid action key value).alone t d .idle m =
      some ⟨.ok (), d, .writer d w, m⟩ := by
  obtain ⟨s, hs, hi⟩ := hl
  show ((Prog.beginImmediate Failure.exc : Py Unit) >>= fun _ =>
    Audit.appendLocked rt ts cid action key value).alone t d .idle m = _
  refine (Prog.alone_bind_of_ok Prog.alone_beginImmediate).trans ?_
  refine (Prog.alone_bind_of_ok (Prog.alone_select_writer _)).trans ?_
  refine (Prog.alone_bind_of_ok (Prog.alone_select_writer _)).trans ?_
  show (Prog.ofExcept (Audit.digest rt (Audit.tailHash (selectTail d))
    (nextEvent ts cid action key value d)) >>= _).alone t d (.writer d d) m = _
  rw [hs]
  exact (Prog.alone_bind_of_ok (Prog.alone_ofExcept _)).trans (Prog.alone_execute_writer hi)

/-- `with _db(): _log(_client_id(ctx), ...)` on the open connection. -/
theorem alone_logUnder {cfg : Config} {ctx : Context} (hcid : clientId cfg ctx none = .ok cid)
    (hl : Logged rt t.text cid action key value d w) :
    (logUnder rt cfg ctx action key value).alone t d .idle true =
      some ⟨.ok (), w, .idle, true⟩ := by
  refine (Prog.alone_bind_of_ok alone_db_open).trans ?_
  refine Prog.alone_transaction (b := d) ?_
  rw [hcid]
  refine (Prog.alone_bind_of_ok (Prog.alone_ofExcept _)).trans ?_
  refine (Prog.alone_bind_of_ok alone_db_open).trans ?_
  refine (Prog.alone_bind_of_ok (a := t) rfl).trans ?_
  exact alone_append hl

variable [LinearOrder S] {cfg : Config} {ctx : Context} {query : String} {topK : ℤ}

/-- After `_db()`, a search of a store with a chain returns, and so does one that finds nothing. One
that finds something logs its query. -/
theorem alone_memorySearch {d₀ : Db} (he : cfg.embeddingsEnabled = true)
    (hcid : clientId cfg ctx none = .ok cid)
    (hdb : (db rt).alone t d₀ .idle m = some ⟨.ok (), d, .idle, true⟩)
    (hd : selectJoin rt d = [] ∨
      (Audit.Chained rt d ∧ Audit.nextId d.events.seq ≤ maxInteger)) :
    ∃ text w, (memorySearch rt cfg query ctx topK).alone t d₀ .idle m =
        some ⟨.ok text, w, .idle, true⟩ ∧
      (selectJoin rt d ≠ [] → ∃ best : S × SearchRow, Logged rt t.text cid "search"
        (some best.2.key) (some (searchText rt query best.1)) d w) := by
  have hstart : ∀ r : Option (Final Db Bool PyExc String),
      (if (selectJoin rt d).isEmpty then pure "(no searchable facts stored yet)" else do
        Py.foreign
        showHits rt cfg query ctx (hits rt query topK d) : Py String).alone t d .idle true = r →
      (memorySearch rt cfg query ctx topK).alone t d₀ .idle m = r := by
    intro r hr
    rw [memorySearch, if_neg (by simp [he])]
    refine (Prog.alone_bind_of_ok hdb).trans ?_
    exact (Prog.alone_bind_of_ok (Prog.alone_select_idle _)).trans hr
  by_cases hrows : selectJoin rt d = []
  · exact ⟨_, d, hstart _ (by rw [hrows]; rfl), fun h => absurd hrows h⟩
  · obtain ⟨hchain, hid⟩ := hd.resolve_left hrows
    have hne : hits rt query topK d ≠ [] := mt hits_eq_nil_iff.1 hrows
    obtain ⟨best, others, hhits⟩ := List.exists_cons_of_ne_nil hne
    obtain ⟨w, hw⟩ := exists_logged hchain hid t.text cid "search" (some best.2.key)
      (some (searchText rt query best.1))
    refine ⟨PyText.join "\n" ((best :: others).map (searchLine rt)), w, hstart _ ?_,
      fun _ => ⟨best, hw⟩⟩
    rw [if_neg (by simpa using hrows), hhits]
    refine (Prog.alone_bind_of_ok Prog.alone_call).trans ?_
    exact Prog.alone_bind_of_ok (alone_logUnder hcid hw)

/-- So a search of a store that the servers have opened, or nobody yet, returns. -/
theorem alone_memorySearch_opened (he : cfg.embeddingsEnabled = true)
    (hcid : clientId cfg ctx none = .ok cid) (hd : d = .empty ∨ hasChain d = true)
    (hsound : Sound rt d) (hid : Audit.nextId d.events.seq ≤ maxInteger) :
    ∃ text w, (memorySearch rt cfg query ctx topK).alone t d .idle m =
      some ⟨.ok text, w, .idle, true⟩ := by
  obtain ⟨d', hdb, hd'⟩ : ∃ d', (db rt).alone t d .idle m = some ⟨.ok (), d', .idle, true⟩ ∧
      (selectJoin rt d' = [] ∨
        (Audit.Chained rt d' ∧ Audit.nextId d'.events.seq ≤ maxInteger)) := by
    rcases hd with rfl | hchain
    · cases m with
      | true => exact ⟨_, alone_db_open, .inl (selectJoin_eq_nil rfl)⟩
      | false => exact ⟨.opened, rfl, .inl (selectJoin_eq_nil rfl)⟩
    · exact ⟨d, alone_db_sealed hchain, .inr ⟨hsound.chained hchain, hid⟩⟩
  obtain ⟨text, w, hx, -⟩ := alone_memorySearch he hcid hdb hd'
  exact ⟨text, w, hx⟩

end Alone

/-! ## Runs -/

section Runs

variable [LinearOrder S] {ι : Type} [DecidableEq ι] {cfg : ι → Config}
  {s₀ s : Sys ι (Context × Call) Db Instant Failure Bool PyExc String}

/-- **Search is exact.** Let every process embed, over a store that starts empty. An answer of
`memory_search` shows the best facts of a store that it read: as many as `top_k` says but at least
one, if there are so many, no key twice, in nonincreasing similarity to the query, each with its
current value and source, and no fact that it leaves out is more similar. It says that there are
none only if there are none. And where nobody disturbs it, it answers, as long as there is an id for
its event. -/
theorem search_exact (hcfg : ∀ p, (cfg p).embeddingsEnabled = true) (h₀ : s₀.Init)
    (hd : s₀.db = .empty ∨ s₀.db = .opened) (h : Reach (servers rt cfg) s₀ s) :
    (∀ p n ctx query topK text, .reply p n (ctx, .memorySearch query topK) (.ok text) ∈ s.trace →
      ∃ t₁ shown, ReadsAt s₀.db s.trace p n (ctx, .memorySearch query topK) t₁ ∧
        Best (similarity rt query) (factsOf (contents s₀.db t₁)) (max 1 topK).toNat shown ∧
        (shown.map fun x => x.2.1).Nodup ∧ text = shownText rt shown ∧
        (text = "(no searchable facts stored yet)" → factsOf (contents s₀.db t₁) = [])) ∧
    ∀ p ctx cid query topK, (s.procs p).job = none → s.lock = none →
      clientId (cfg p) ctx none = .ok cid → Audit.nextId s.db.events.seq ≤ maxInteger →
      ∃ s' text, Reach (servers rt cfg) s s' ∧
        .reply p ((s.procs p).count + 1) (ctx, .memorySearch query topK) (.ok text) ∈ s'.trace := by
  have g := Reach.good (meets cfg) h₀ h
  constructor
  case left =>
    intro p n ctx query topK text hr
    obtain ⟨t₁, t₂, ht, -, ha⟩ := search_reply g.trace hr
    have htrace := g.trace
    rw [ht] at htrace
    have hindexed : Indexed rt (contents s₀.db t₁) :=
      htrace.of_append.invariant (I := Indexed rt) (fun p _ _ _ _ => Commits.indexed (hcfg p))
        (.of_start hd)
    have hbest : Best _ _ _ (shownFacts rt query topK _) := hindexed.best
    have hnodup : ((shownFacts rt query topK (contents s₀.db t₁)).map fun x => x.2.1).Nodup := by
      refine hbest.nodup_map (f := Prod.fst) ?_
      rw [factsOf_keys]
      exact (contents s₀.db t₁).facts.keys_nodup
    have htext : text = shownText rt (shownFacts rt query topK (contents s₀.db t₁)) := by
      generalize hh : history t₂ p n = rest at ha
      cases ha with
      | memorySearch _ _ hhits _ => exact (shownText_shownFacts hhits).symm
      | memorySearchEmpty _ hempty => rw [shownFacts_eq_nil hempty]; rfl
    refine ⟨t₁, _, ⟨t₂, ht⟩, hbest, hnodup, htext, fun hnone => ?_⟩
    have hlen := hbest.length
    rw [eq_nil_of_shownText (htext.symm.trans hnone), List.length_nil] at hlen
    exact List.length_eq_zero_iff.1 (by omega)
  case right =>
    intro p ctx cid query topK hj hl hcid hid
    have hopened : s.db = .empty ∨ hasChain s.db = true :=
      Reach.invariant (meets cfg) h₀ (I := fun d => d = .empty ∨ hasChain d = true)
        (fun _ _ _ _ _ hc _ => .inr (Commits.hasChain hc)) (hd.imp id fun h => by rw [h]; rfl) h
    have hsound : Sound rt s.db :=
      Reach.invariant (meets cfg) h₀ (fun _ _ _ _ _ hc hb => Sound.commits hb hc) (.of_start hd) h
    obtain ⟨text, w, hx⟩ : ∃ text w, (memorySearch rt (cfg p) query ctx topK).alone .newYear s.db
        .idle (s.procs p).mem = some ⟨.ok text, w, .idle, true⟩ :=
      alone_memorySearch_opened (hcfg p) hcid hopened hsound hid
    have htool : (tool rt (cfg p) ctx (.memorySearch query topK)).alone .newYear s.db .idle
        (s.procs p).mem = some ⟨.ok text, w, .idle, true⟩ := Prog.alone_tryCatch_of_ok hx
    obtain ⟨s', hs', -, -, -, hr⟩ := reach_of_call (K := servers rt cfg) (p := p)
      (c := (ctx, .memorySearch query topK)) trivial hj ((g.client p).idle hj) hl htool
    exact ⟨s', text, hs', hr⟩

end Runs

/-! ## A search of two facts -/

/-- A runtime that knows the digests of three events: alice sets two keys, and the fact of the first
is searched. -/
def searchRuntime : Runtime ℕ := .tabulated
  [("[\"mcp-memory-events-v1\"," ++
      "\"0000000000000000000000000000000000000000000000000000000000000000\"," ++
      "1,\"2026-01-01T00:00:00.000Z\",\"alice\",\"set\",\"a\",\"x\"]",
    "bf773944be893dc9ae1fd006a9c6f576560cb6dc518ae4da20e834587d1f6e29"),
  ("[\"mcp-memory-events-v1\"," ++
      "\"bf773944be893dc9ae1fd006a9c6f576560cb6dc518ae4da20e834587d1f6e29\"," ++
      "2,\"2026-01-01T00:00:00.000Z\",\"alice\",\"set\",\"b\",\"y\"]",
    "7650e58820b73d7eefeaa96d4c6556d1d065aca93b408ffbfa3e712cf07e7c71"),
  ("[\"mcp-memory-events-v1\"," ++
      "\"7650e58820b73d7eefeaa96d4c6556d1d065aca93b408ffbfa3e712cf07e7c71\"," ++
      "3,\"2026-01-01T00:00:00.000Z\",\"anonymous\",\"search\",\"a\",\"query='a: x' score=1.000\"]",
    "f7d9f4512f4316ae09220d1890c51d5b671a9a428518b61f653af9f4e3007a15")]

abbrev searchServers : Clients Unit (Context × Call) Db Instant Failure Bool PyExc String :=
  servers searchRuntime fun _ => Config.default

/-- Alice sets the two keys. -/
def searchTurns (topK : ℤ) : List (Sys.Turn Unit (Context × Call) Instant) :=
  [⟨(), some (⟨none⟩, .memorySet "a" "x" (some "alice") none false), .newYear, 40⟩,
    ⟨(), some (⟨none⟩, .memorySet "b" "y" (some "alice") none false), .newYear, 40⟩,
    ⟨(), some (⟨none⟩, .memorySearch "a: x" topK), .newYear, 40⟩]

/-- A search for less than one fact shows the best one. -/
theorem search_exact_sample :
    ∃ s : Sys Unit (Context × Call) Db Instant Failure Bool PyExc String,
      .reply () 3 (⟨none⟩, .memorySearch "a: x" (-5))
        (.ok "a = x  (cosine 1.000, source: alice)") ∈ s.trace ∧
      ∃ t₁ shown, ReadsAt .empty s.trace () 3 (⟨none⟩, .memorySearch "a: x" (-5)) t₁ ∧
        Best (similarity searchRuntime "a: x") (factsOf (contents .empty t₁)) 1 shown ∧
        "a = x  (cosine 1.000, source: alice)" = shownText searchRuntime shown := by
  have h : (((Sys.initial .empty false).turns searchServers (searchTurns (-5))).map fun s =>
      returned s.trace () 3 (⟨none⟩, .memorySearch "a: x" (-5))) =
      some (some "a = x  (cosine 1.000, source: alice)") := by
    decide +kernel
  obtain ⟨s, hs, hv⟩ := Option.map_eq_some_iff.1 h
  have hr := reply_mem_of_returned hv
  have main := search_exact (fun _ => rfl) (Sys.initial_init _ _) (.inl rfl)
    (Sys.reach_of_turns (fun _ _ _ _ => trivial) hs)
  obtain ⟨t₁, shown, hat, hbest, -, htext, -⟩ := main.1 _ _ _ _ _ _ hr
  exact ⟨s, hr, t₁, shown, hat, hbest, htext⟩

end MemoryBridge
