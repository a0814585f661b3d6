import MemoryBridge.Embeddings
import MemoryBridge.Foundations.SingleWriter.Undisturbed

/-!
# Tool calls are atomic under failure

A call has two outcomes. Either it has its complete effect (`Effect`): the change of the fact, the
change of the embedding, and one event, also where it answers with an error because a condition was
not met or a key was missing. Or it raises, wherever that happens up to the commit of its
transaction, and leaves the store as it was. Either way its connection is outside any transaction
afterwards (`calls_atomic`).
-/

open SingleWriter

namespace MemoryBridge

variable {S : Type} [LinearOrder S] (rt : Runtime S) (cfg : Config) (ctx : Context)

/-! ## Effects -/

/-- One event is appended to the log of `b`, with the next id, and the counter follows. -/
structure Appends (timestamp cid action : String) (key value : Option String) (b w : Db) :
    Prop where
  row : ∃ r, w.events.rows = b.events.rows ++ [r] ∧
    r.event = nextEvent timestamp cid action key value b
  counter : w.events.seq = some (Audit.nextId b.events.seq)

/-- The complete effect of a call: what it turns the contents `b` into, and what it answers. A read
that is logged shows the contents `d`. -/
inductive Effect : Call → Db → Db → Db → Except PyExc String → Prop
  | written {key value cid : String} {claimed expectedValue : Option String}
      {requireAbsent : Bool} {t₁ t₂ : Instant} {d b w : Db} :
      clientId cfg ctx claimed = .ok cid → Admits key expectedValue requireAbsent b →
      w.facts = b.facts.insert key ⟨value, cid, t₁.text⟩ →
      w.embeddings = (if cfg.embeddingsEnabled then
        b.embeddings.insert key (rt.embed (factText key value)) else b.embeddings) →
      Appends t₂.text cid "set" (some key) (some value) b w →
      Effect (.memorySet key value claimed expectedValue requireAbsent) d b w
        (.ok ("set " ++ PyText.repr rt.unicode key ++ " (from " ++ cid ++ ")"))
  | refused {key value cid why : String} {claimed expectedValue : Option String}
      {requireAbsent : Bool} {t : Instant} {d b w : Db} :
      clientId cfg ctx claimed = .ok cid → ¬Admits key expectedValue requireAbsent b →
      w.tables = b.tables → Appends t.text cid "cas_fail" (some key) (some why) b w →
      Effect (.memorySet key value claimed expectedValue requireAbsent) d b w
        (.error (.toolError ("CAS failed for " ++ PyText.repr rt.unicode key ++ ": " ++ why)))
  | deleted {key cid : String} {claimed : Option String} {t : Instant} {d b w : Db} :
      clientId cfg ctx claimed = .ok cid → w.facts = b.facts.erase key →
      w.embeddings = b.embeddings.erase key →
      Appends t.text cid "delete" (some key) none b w →
      Effect (.memoryDelete key claimed) d b w
        (.ok (deleteAnswer rt key cid (if key ∈ b.facts then 1 else 0)))
  | got {key cid : String} {includeEvents : Bool} {t : Instant} {d b w : Db}
      {q : List (Obs Db Instant)} {r : Except PyExc String} :
      cfg.logReads = true → clientId cfg ctx none = .ok cid → w.tables = b.tables →
      Appends t.text cid "get" (some key) none b w →
      Shows rt key includeEvents (selectFact key d) q r →
      Effect (.memoryGet key includeEvents) d b w (r.mapError (guardError cfg))
  | searched {query cid : String} {topK : ℤ} {best : S × SearchRow}
      {others : List (S × SearchRow)} {t : Instant} {d b w : Db} :
      cfg.embeddingsEnabled = true → clientId cfg ctx none = .ok cid →
      hits rt query topK d = best :: others → w.tables = b.tables →
      Appends t.text cid "search" (some best.2.key) (some (searchText rt query best.1)) b w →
      Effect (.memorySearch query topK) d b w
        (.ok (PyText.join "\n" ((best :: others).map (searchLine rt))))
  | held {seconds cid : String} {t : Instant} {d b w : Db} :
      cfg.enableDemoTools = true → clientId cfg ctx none = .ok cid → w.tables = b.tables →
      Appends t.text cid "demo-lock-hold" none none b w →
      Effect (.lockHold seconds) d b w
        (.ok ("held the write lock for " ++ seconds ++ "s (client " ++
          PyText.repr rt.unicode cid ++ ")"))

/-- The call appends an event when it succeeds on the contents `b`. -/
def Call.Logs (b : Db) : Call → Prop
  | .memoryGet _ _ => cfg.logReads = true
  | .memorySearch _ _ => selectJoin rt b ≠ []
  | .memoryList _ => False
  | .memoryHistory _ _ => False
  | _ => True

variable {rt cfg ctx}

/-! ## The transactions have them -/

omit [LinearOrder S] in
theorem Logged.appends {timestamp cid action : String} {key value : Option String} {d b w : Db}
    (hl : Logged rt timestamp cid action key value d w) (hd : d.events = b.events) :
    Appends timestamp cid action key value b w := by
  obtain ⟨s, t, -, rfl, hrows, hseq, -⟩ := hl.spec
  refine ⟨⟨_, by rw [← hd]; exact hrows, ?_⟩, by rw [← hd]; exact hseq⟩
  simp only [nextEvent, hd]

omit [LinearOrder S] in
theorem Logged.tables {timestamp cid action : String} {key value : Option String} {b w : Db}
    (hl : Logged rt timestamp cid action key value b w) : w.tables = b.tables :=
  Prod.ext hl.facts hl.embeddings

variable {d b w : Db}

/-- The transaction of `memory_set`. -/
theorem SetTo.effect {key value cid : String} {claimed expectedValue : Option String}
    {requireAbsent : Bool} {t₁ t₂ : Instant} {casFailure : Option String}
    (hcid : clientId cfg ctx claimed = .ok cid)
    (hs : SetTo rt key value cid expectedValue requireAbsent (embeddingOf rt cfg key value) t₁ t₂ b
      w casFailure) :
    Effect rt cfg ctx (.memorySet key value claimed expectedValue requireAbsent) d b w
      (setAnswer rt key cid casFailure) := by
  have hadmits := hs.admits_iff
  rcases hs.cases with ⟨rfl, hl⟩ | ⟨why, rfl, hl⟩
  · refine .written hcid (hadmits.1 rfl) (hl.facts.trans (stored_facts ..)) ?_ (hl.appends ?_)
    · rw [hl.embeddings, embeddingOf]
      split <;> rfl
    · rw [stored_frame]
  · exact .refused hcid (fun h => by cases hadmits.2 h) hl.tables (hl.appends rfl)

omit [LinearOrder S] in
/-- Something is shown for every row. -/
theorem exists_shows (rt : Runtime S) (key : String) (includeEvents : Bool) (row : Option Fact) :
    ∃ q r, Shows rt key includeEvents row q r := by
  cases row with
  | none => exact ⟨_, _, .missing⟩
  | some f =>
    cases includeEvents with
    | false => exact ⟨_, _, .fact⟩
    | true => exact ⟨_, _, .events (d := Db.empty)⟩

/-- A transaction that a call commits has its complete effect. -/
theorem Own.effect {c : Call} {h : List (Obs Db Instant)} (ho : Own rt cfg ctx c h b w) :
    ∃ d r, (.read d ∈ h ∨ d = b) ∧ Effect rt cfg ctx c d b w r := by
  cases ho with
  | memorySet hcid _ hs => exact ⟨b, _, .inr rfl, hs.effect hcid⟩
  | @memoryGet key cid includeEvents t d _ _ hlog hcid _ hl =>
    obtain ⟨q, r, hr⟩ := exists_shows rt key includeEvents (selectFact key d)
    exact ⟨d, _, .inl (by simp), .got hlog hcid hl.tables (hl.appends rfl) hr⟩
  | memorySearch he hcid hh hl =>
    exact ⟨_, _, .inl (by simp), .searched he hcid hh hl.tables (hl.appends rfl)⟩
  | memoryDelete hcid _ hl =>
    exact ⟨b, _, .inr rfl, .deleted hcid hl.facts hl.embeddings (hl.appends rfl)⟩
  | lockHold he hcid hl => exact ⟨b, _, .inr rfl, .held he hcid hl.tables (hl.appends rfl)⟩

omit [LinearOrder S] in
/-- The guard does not touch the answer of a write. -/
theorem setAnswer_guard (key cid : String) (why : Option String) :
    (setAnswer rt key cid why).mapError (guardError cfg) = setAnswer rt key cid why := by
  cases why <;> rfl

/-- A call that answers has committed its complete effect, whatever others have committed meanwhile,
or it is one that does not log. -/
theorem Answers.committed {c : Call} {h : List (Obs Db Instant)} {r : Except PyExc String}
    (ha : Answers rt cfg ctx c h r) :
    (∃ d, .read d ∈ h ∧ ¬c.Logs rt cfg d) ∨
      ∃ d b w, .commit b w ∈ h ∧ Effect rt cfg ctx c d b w (r.mapError (guardError cfg)) := by
  cases ha with
  | @memorySet _ _ _ _ _ _ _ _ b w _ hcid _ hs =>
    refine .inr ⟨b, b, w, by simp, ?_⟩
    rw [setAnswer_guard]
    exact hs.effect hcid
  | memoryGet hlog hcid _ hl hr =>
    exact .inr ⟨_, _, _, by simp, .got hlog hcid hl.tables (hl.appends rfl) hr⟩
  | memoryGetUnlogged hlog =>
    exact .inl ⟨_, List.mem_cons_self, by simp [Call.Logs, hlog]⟩
  | memoryList => exact .inl ⟨_, List.mem_cons_self, id⟩
  | memorySearch he hcid hh hl =>
    exact .inr ⟨_, _, _, by simp, .searched he hcid hh hl.tables (hl.appends rfl)⟩
  | memorySearchEmpty _ hempty => exact .inl ⟨_, List.mem_cons_self, not_not.2 hempty⟩
  | memoryHistory => exact .inl ⟨_, List.mem_cons_self, id⟩
  | @memoryDelete _ _ _ _ b w hcid _ hl =>
    exact .inr ⟨b, b, w, by simp, .deleted hcid hl.facts hl.embeddings (hl.appends rfl)⟩
  | @lockHold _ _ _ b w he hcid hl =>
    exact .inr ⟨b, b, w, by simp, .held he hcid hl.tables (hl.appends rfl)⟩

/-- A call that answers while nobody else commits has its complete effect on the contents it
started from, or it is one that does not log. -/
theorem Answers.effect {c : Call} {h : List (Obs Db Instant)} {r : Except PyExc String}
    (ha : Answers rt cfg ctx c h r) (hu : Undisturbed b h) :
    (settled b h = b ∧ ¬c.Logs rt cfg b) ∨
      Effect rt cfg ctx c b b (settled b h) (r.mapError (guardError cfg)) := by
  cases ha with
  | @memorySet _ _ _ _ _ _ t₁ t₂ b' w _ hcid _ hs =>
    obtain rfl : b' = b := hu.lock [.clock t₁] b' _ rfl
    refine .inr ?_
    rw [setAnswer_guard]
    exact hs.effect hcid
  | @memoryGet _ _ _ t d b' w q _ hlog hcid _ hl hr =>
    obtain rfl : d = b := hu.read [] d _ rfl
    obtain rfl : b' = d := hu.lock [.read d, .clock t] b' _ rfl
    refine .inr ?_
    rw [settled_append, hr.quiet.settled]
    exact .got hlog hcid hl.tables (hl.appends rfl) hr
  | memoryGetUnlogged hlog hr =>
    refine .inl ⟨?_, by simp [Call.Logs, hlog]⟩
    exact hr.quiet.settled b
  | memoryList => exact .inl ⟨rfl, id⟩
  | @memorySearch _ _ _ _ _ t d b' w he hcid hh hl =>
    obtain rfl : d = b := hu.read [] d _ rfl
    obtain rfl : b' = d := hu.lock [.read d, .clock t] b' _ rfl
    exact .inr (.searched he hcid hh hl.tables (hl.appends rfl))
  | @memorySearchEmpty _ _ d _ hempty =>
    obtain rfl : d = b := hu.read [] d _ rfl
    exact .inl ⟨rfl, not_not.2 hempty⟩
  | memoryHistory => exact .inl ⟨rfl, id⟩
  | @memoryDelete _ _ _ t b' w hcid _ hl =>
    obtain rfl : b' = b := hu.lock [] b' _ rfl
    exact .inr (.deleted hcid hl.facts hl.embeddings (hl.appends rfl))
  | @lockHold _ _ t b' w he hcid hl =>
    obtain rfl : b' = b := hu.lock [.clock t] b' _ rfl
    exact .inr (.held he hcid hl.tables (hl.appends rfl))

omit [LinearOrder S] in
/-- Opening an initialised database changes nothing. -/
theorem Opened.settled {q : List (Obs Db Instant)} (hq : Opened rt q) (hu : Undisturbed b q)
    (hc : hasChain b = true) : settled b q = b := by
  cases hq with
  | already => rfl
  | sealed => rfl
  | @migrated d _ _ hd _ =>
    obtain rfl : d = b := hu.read [] d _ rfl
    rw [hc] at hd
    cases hd

/-! ## Runs -/

section Runs

variable {ι : Type} [DecidableEq ι] {cfg : ι → Config}
  {s₀ s : Sys ι (Context × Call) Db Instant Failure Bool PyExc String}

/-- **Tool calls are atomic under failure.** Over an initialised store, whatever a call commits is
its complete effect, but for the transaction of an opening, which changes nothing. A call that
answers, also by refusing a write or by missing a key, has committed its effect with this answer, or
is a read that logs nothing. Where nobody else commits meanwhile, a call has left the store with its
complete effect or as it was, and the latter only if it raised on the way or is such a read. A
process that is not running a call is outside any transaction. -/
theorem calls_atomic (h₀ : s₀.Init) (h : Reach (servers rt cfg) s₀ s) :
    (∀ p, (s.procs p).job = none → (s.procs p).conn = .idle ∧ s.lock ≠ some p) ∧
    (∀ t₁ t₂ p n ctx c b w, s.trace = t₁ ++ .obs p n (ctx, c) (.commit b w) :: t₂ →
      hasChain b = true → (OpeningCommit rt (history t₁ p n) b w ∧ w = b) ∨
        ∃ d r, (.read d ∈ history t₁ p n ∨ d = b) ∧ Effect rt (cfg p) ctx c d b w r) ∧
    (∀ t₁ t₂ p n ctx c r, s.trace = t₁ ++ .reply p n (ctx, c) r :: t₂ →
      (∀ e, r = .error e → e.IsVerdict) →
      (∃ d, .read d ∈ history t₁ p n ∧ ¬c.Logs rt (cfg p) d) ∨
        ∃ d b w, .commit b w ∈ history t₁ p n ∧ Effect rt (cfg p) ctx c d b w r) ∧
    ∀ t₁ t₂ t₃ p n ctx c r, s.trace = t₁ ++ t₂ ++ .reply p n (ctx, c) r :: t₃ →
      history t₁ p n = [] → Alone p n t₂ → hasChain (contents s₀.db t₁) = true →
      (contents s₀.db (t₁ ++ t₂) = contents s₀.db t₁ ∧
        (c.Logs rt (cfg p) (contents s₀.db t₁) → ∃ e, ¬e.IsVerdict ∧ r = .error e)) ∨
      Effect rt (cfg p) ctx c (contents s₀.db t₁) (contents s₀.db t₁)
        (contents s₀.db (t₁ ++ t₂)) r := by
  have g := Reach.good (meets cfg) h₀ h
  refine ⟨fun p hj => ?_, fun t₁ t₂ p n ctx c b w ht hc => ?_, fun t₁ t₂ p n ctx c r ht hr => ?_,
    ?_⟩
  · have hidle := (g.client p).idle hj
    refine ⟨hidle, fun hl => ?_⟩
    have hlocked := (g.lock p).1 hl
    rw [hidle] at hlocked
    cases hlocked
  · obtain ⟨-, hcom, -⟩ := (g.trace t₁ _ t₂ ht).seen
    rcases hcom with hopen | ⟨q, h', -, hh, ho⟩
    · refine .inl ⟨hopen, ?_⟩
      obtain ⟨d, -, -, ⟨-, rfl⟩ | hmig⟩ := hopen
      · rfl
      · rw [hmig.not_hasChain] at hc
        cases hc
    · obtain ⟨d, r, hd, heff⟩ := ho.effect
      refine .inr ⟨d, r, hd.imp_left fun hd => ?_, heff⟩
      rw [hh]
      exact List.mem_append_right q hd
  · obtain ⟨r', ⟨q, h', -, hh, hres⟩, rfl⟩ := (g.trace t₁ _ t₂ ht).seen
    rw [hh]
    rcases hres with ha | ⟨-, e, he, rfl⟩
    · refine ha.committed.imp ?_ ?_
      · rintro ⟨d, hd, hlogs⟩
        exact ⟨d, List.mem_append_right q hd, hlogs⟩
      · rintro ⟨d, b, w, hm, heff⟩
        exact ⟨d, b, w, List.mem_append_right q hm, heff⟩
    · exact absurd (hr _ rfl) (guardError_noVerdict he)
  · intro t₁ t₂ t₃ p n ctx c r ht hfirst ha hc
    have htrace : TraceOk (serversSpec rt cfg) s₀.db (t₁ ++ t₂ ++ .reply p n (ctx, c) r :: t₃) :=
      ht ▸ g.trace
    obtain ⟨r', ⟨q, h', hq, hh, hres⟩, rfl⟩ := (htrace (t₁ ++ t₂) _ t₃ rfl).seen
    have hu := htrace.of_append.undisturbed ha
    rw [history_append, hfirst, List.nil_append] at hh
    rw [hh] at hu
    have hopen := hq.settled hu.of_prefix hc
    rw [contents_append, ha.contents, hh, settled_append, hopen]
    rcases hres with ha' | ⟨hquiet, e, he, rfl⟩
    · have hu' := hu.of_append
      rw [hopen] at hu'
      rcases ha'.effect hu' with ⟨heq, hlogs⟩ | heff
      · exact .inl ⟨heq, fun hl => absurd hl hlogs⟩
      · exact .inr heff
    · exact .inl ⟨hquiet.settled _, fun _ => ⟨_, guardError_noVerdict he, rfl⟩⟩

/-- A create-only write by itself, on a store that was opened before and has the key: it is answered
with an error, leaves the fact and adds the event of the refusal. -/
theorem calls_atomic_sample :
    ∃ (s : Sys ℕ (Context × Call) Db Instant Failure Bool PyExc String)
      (t t' : List (Entry ℕ (Context × Call) Db Instant PyExc String)) (ts : String),
      s.trace = t ++ .reply 0 1 refusedCall (.error (.toolError
        "CAS failed for 'k': key already exists (current value: v)")) :: t' ∧
      (contents (.oneFact "k" "v") t).tables = (Db.oneFact "k" "v").tables ∧
      Appends ts "bob" "cas_fail" (some "k") (some "key already exists (current value: v)")
        (.oneFact "k" "v") (contents (.oneFact "k" "v") t) := by
  have h : (((Sys.initial (.oneFact "k" "v") false).turns sampleServers
      [⟨0, some refusedCall, .newYear, 40⟩]).map fun s =>
      (answered s.trace 0 1 refusedCall, s.trace.all fun e => e.client = 0 ∧ e.number = 1)) =
      some (some (.error (.toolError
        "CAS failed for 'k': key already exists (current value: v)")), true) := by
    decide +kernel
  obtain ⟨s, hs, hv⟩ := Option.map_eq_some_iff.1 h
  obtain ⟨hans, hall⟩ := Prod.mk.inj hv
  obtain ⟨t, t', ht⟩ := List.append_of_mem (reply_mem_of_answered hans)
  have hatomic := (calls_atomic (Sys.initial_init (.oneFact "k" "v") false)
    (Sys.reach_of_turns (fun _ _ _ _ => trivial) hs)).2.2.2 [] t t' 0 1 _ _ _ ht rfl
    (fun e he _ => of_decide_eq_true (List.all_eq_true.1 hall e (by simp [ht, he]))) rfl
  have heff := hatomic.resolve_left fun hnone => by
    -- the answer is no failure on the way
    obtain ⟨e, he, hr⟩ := hnone.2 trivial
    rw [← Except.error.inj hr] at he
    exact he (.inl (by decide))
  generalize hr : (Except.error (PyExc.toolError _) : Except PyExc String) = r at heff
  cases heff with
  | written => cases hr
  | @refused _ _ cid why _ _ _ ts _ _ _ hcid _ htables happ =>
    have hmsg : "CAS failed for 'k': key already exists (current value: v)" =
        "CAS failed for " ++ PyText.repr Audit.sampleRuntime.unicode "k" ++ ": " ++ why :=
      PyExc.toolError.inj (Except.error.inj hr)
    obtain rfl : "bob" = cid := Except.ok.inj hcid
    have hwhy : "key already exists (current value: v)" = why := by
      have hsplit : "CAS failed for 'k': " ++ "key already exists (current value: v)" =
          "CAS failed for 'k': " ++ why := hmsg
      exact (String.append_right_inj _).1 hsplit
    subst hwhy
    exact ⟨s, t, t', _, ht, htables, happ⟩

end Runs

end MemoryBridge
