import MemoryBridge.Foundations.SingleWriter.Soundness
import MemoryBridge.Transactions

/-!
# What a tool call does

The history of a call, after `_db()`, is one of a few shapes: what it read, the clock, the lock, the
commit of its own transaction. `Own` says for each tool which transaction it commits and after which
history, `Answers` what it answers after which complete history, both as functions of the contents
it read and of the contents it found when it took the lock. `meets` shows that the program of every
tool does nothing else, whatever runs beside it: it has such a history and answer, or fails without
a commit of its own.
-/

open SingleWriter

namespace MemoryBridge

variable {S : Type} [LinearOrder S] (rt : Runtime S) (cfg : Config) (ctx : Context)

/-- The rows that a search shows, best first. -/
def hits (query : String) (topK : ℤ) (d : Db) : List (S × SearchRow) :=
  (ranked rt query (selectJoin rt d)).take (max 1 topK).toNat

/-- The transaction that a call commits: what it has done since `_db()` returned, the contents when
it took the lock, and the contents it commits. -/
inductive Own : Call → List (Obs Db Instant) → Db → Db → Prop
  | memorySet {key value cid : String} {claimed expectedValue : Option String}
      {requireAbsent : Bool} {t₁ t₂ : Instant} {b w : Db} {casFailure : Option String} :
      clientId cfg ctx claimed = .ok cid → validate cfg key (some value) = .ok () →
      SetTo rt key value cid expectedValue requireAbsent (embeddingOf rt cfg key value) t₁ t₂ b w
        casFailure →
      Own (.memorySet key value claimed expectedValue requireAbsent)
        [.clock t₁, .lock b, .clock t₂] b w
  | memoryGet {key cid : String} {includeEvents : Bool} {t : Instant} {d b w : Db} :
      cfg.logReads = true → clientId cfg ctx none = .ok cid → validate cfg key none = .ok () →
      Logged rt t.text cid "get" (some key) none b w →
      Own (.memoryGet key includeEvents) [.read d, .clock t, .lock b] b w
  | memorySearch {query cid : String} {topK : ℤ} {best : S × SearchRow}
      {others : List (S × SearchRow)} {t : Instant} {d b w : Db} :
      cfg.embeddingsEnabled = true → clientId cfg ctx none = .ok cid →
      hits rt query topK d = best :: others →
      Logged rt t.text cid "search" (some best.2.key) (some (searchText rt query best.1)) b w →
      Own (.memorySearch query topK) [.read d, .clock t, .lock b] b w
  | memoryDelete {key cid : String} {claimed : Option String} {t : Instant} {b w : Db} :
      clientId cfg ctx claimed = .ok cid → validate cfg key none = .ok () →
      Logged rt t.text cid "delete" (some key) none (erased key b) w →
      Own (.memoryDelete key claimed) [.lock b, .clock t] b w
  | lockHold {seconds cid : String} {t : Instant} {b w : Db} :
      cfg.enableDemoTools = true → clientId cfg ctx none = .ok cid →
      Logged rt t.text cid "demo-lock-hold" none none b w →
      Own (.lockHold seconds) [.clock t, .lock b] b w

/-- The answer of `memory_list` for its rows. -/
def listAnswer (start : String) (rows : List (String × Fact)) : String :=
  if rows = [] then "(no facts matching prefix " ++ PyText.repr rt.unicode start ++ ")"
  else PyText.join "\n" (rows.map fun r =>
    r.1 ++ " = " ++ r.2.value ++ "  (source: " ++ r.2.sourceClient ++ ")")

/-- The answer of a call, below its guard, after everything it did since `_db()` returned. -/
inductive Answers : Call → List (Obs Db Instant) → Except PyExc String → Prop
  | memorySet {key value cid : String} {claimed expectedValue : Option String}
      {requireAbsent : Bool} {t₁ t₂ : Instant} {b w : Db} {casFailure : Option String} :
      clientId cfg ctx claimed = .ok cid → validate cfg key (some value) = .ok () →
      SetTo rt key value cid expectedValue requireAbsent (embeddingOf rt cfg key value) t₁ t₂ b w
        casFailure →
      Answers (.memorySet key value claimed expectedValue requireAbsent)
        [.clock t₁, .lock b, .clock t₂, .commit b w] (setAnswer rt key cid casFailure)
  | memoryGet {key cid : String} {includeEvents : Bool} {t : Instant} {d b w : Db}
      {q : List (Obs Db Instant)} {r : Except PyExc String} :
      cfg.logReads = true → clientId cfg ctx none = .ok cid → validate cfg key none = .ok () →
      Logged rt t.text cid "get" (some key) none b w →
      Shows rt key includeEvents (selectFact key d) q r →
      Answers (.memoryGet key includeEvents)
        ([.read d, .clock t, .lock b, .commit b w] ++ q) r
  | memoryGetUnlogged {key : String} {includeEvents : Bool} {d : Db} {q : List (Obs Db Instant)}
      {r : Except PyExc String} :
      cfg.logReads = false → Shows rt key includeEvents (selectFact key d) q r →
      Answers (.memoryGet key includeEvents) (.read d :: q) r
  | memoryList {start : String} {d : Db} :
      Answers (.memoryList start) [.read d]
        ((selectLike (listPattern start) d).map (listAnswer rt start))
  | memorySearch {query cid : String} {topK : ℤ} {best : S × SearchRow}
      {others : List (S × SearchRow)} {t : Instant} {d b w : Db} :
      cfg.embeddingsEnabled = true → clientId cfg ctx none = .ok cid →
      hits rt query topK d = best :: others →
      Logged rt t.text cid "search" (some best.2.key) (some (searchText rt query best.1)) b w →
      Answers (.memorySearch query topK) [.read d, .clock t, .lock b, .commit b w]
        (.ok (PyText.join "\n" ((best :: others).map (searchLine rt))))
  | memorySearchEmpty {query : String} {topK : ℤ} {d : Db} :
      cfg.embeddingsEnabled = true → selectJoin rt d = [] →
      Answers (.memorySearch query topK) [.read d] (.ok "(no searchable facts stored yet)")
  | memoryHistory {key : String} {includeReads : Bool} {d : Db} :
      Answers (.memoryHistory key includeReads) [.read d]
        (historyText rt key (eventsOf key (historyActions includeReads) d))
  | memoryDelete {key cid : String} {claimed : Option String} {t : Instant} {b w : Db} :
      clientId cfg ctx claimed = .ok cid → validate cfg key none = .ok () →
      Logged rt t.text cid "delete" (some key) none (erased key b) w →
      Answers (.memoryDelete key claimed) [.lock b, .clock t, .commit b w]
        (.ok (deleteAnswer rt key cid (if key ∈ b.facts then 1 else 0)))
  | lockHold {seconds cid : String} {t : Instant} {b w : Db} :
      cfg.enableDemoTools = true → clientId cfg ctx none = .ok cid →
      Logged rt t.text cid "demo-lock-hold" none none b w →
      Answers (.lockHold seconds) [.clock t, .lock b, .commit b w]
        (.ok ("held the write lock for " ++ seconds ++ "s (client " ++
          PyText.repr rt.unicode cid ++ ")"))

/-- The commits of a call: of the migration, while it opens the database, and of its own
transaction. -/
def Commits (c : Call) : CommitSpec Db Instant := fun h b w =>
  OpeningCommit rt h b w ∨ ∃ q h', Opened rt q ∧ h = q ++ h' ∧ Own rt cfg ctx c h' b w

/-- The result of a call, below its guard: an answer, or a failure without an own commit, which is
no verdict on the store. -/
def Results (c : Call) (h : List (Obs Db Instant)) (r : Except PyExc String) : Prop :=
  ∃ q h', Opened rt q ∧ h = q ++ h' ∧
    (Answers rt cfg ctx c h' r ∨ (Quiet h' ∧ ∃ e, NoVerdict e ∧ r = .error e))

/-- The reply of a call. -/
def Replies (c : Call) (h : List (Obs Db Instant)) (r : Except PyExc String) : Prop :=
  ∃ r', Results rt cfg ctx c h r' ∧ r = r'.mapError (guardError cfg)

/-- Server processes that share a database: each runs tool calls under its own configuration. -/
def servers {ι : Type} (cfg : ι → Config) :
    Clients ι (Context × Call) Db Instant Failure Bool PyExc String where
  code p c := tool rt (cfg p) c.1 c.2
  may _ _ := True
  boot := false

/-- What their calls do. -/
def serversSpec {ι : Type} (cfg : ι → Config) :
    Spec ι (Context × Call) Db Instant PyExc String where
  commits p c := Commits rt (cfg p) c.1 c.2
  replies p c := Replies rt (cfg p) c.1 c.2

/-! ## The programs -/

variable {rt cfg ctx}

/-- The postcondition of a tool below its guard. -/
def toolPost (rt : Runtime S) (cfg : Config) (ctx : Context) (c : Call) :
    Post Db Instant Bool PyExc String :=
  fun r l => l.conn = .idle ∧ Results rt cfg ctx c l.hist r

theorem Results.fails {c : Call} {q : List (Obs Db Instant)} (hq : Opened rt q) :
    Fails NoVerdict q (toolPost rt cfg ctx c) :=
  fun e _ h' he hh => ⟨rfl, q, h', hq, rfl, .inr ⟨hh, e, he, rfl⟩⟩

/-- A call that raises before it has done anything. -/
theorem Results.raises {c : Call} {m : Bool} {e : PyExc} (he : NoVerdict e) :
    toolPost rt cfg ctx c (.error e) ⟨.idle, m, []⟩ :=
  (Results.fails .already).here he m

theorem Results.answers {c : Call} {q h' : List (Obs Db Instant)} {m : Bool}
    {r : Except PyExc String} (hq : Opened rt q) (ha : Answers rt cfg ctx c h' r) :
    toolPost rt cfg ctx c r ⟨.idle, m, q ++ h'⟩ :=
  ⟨rfl, q, h', hq, rfl, .inl ha⟩

theorem Commits.own {c : Call} {q h' : List (Obs Db Instant)} {b w : Db} (hq : Opened rt q)
    (ho : Own rt cfg ctx c h' b w) : Commits rt cfg ctx c (q ++ h') b w :=
  .inr ⟨q, h', hq, rfl, ho⟩

theorem wp_toolGuard {C : CommitSpec Db Instant} {p : Py String} {l : Local Db Instant Bool}
    {Q : Post Db Instant Bool PyExc String}
    (hp : p.wp C l fun r l => Q (r.mapError (guardError cfg)) l) : (toolGuard cfg p).wp C l Q := by
  refine Prog.wp_tryCatch.2 (Prog.wp_mono (fun r l' h => ?_) hp)
  cases r <;> exact h

theorem clientId_guard {claimed : Option String} {e : PyExc}
    (h : clientId cfg ctx claimed = .error e) : guardError cfg e = e := by
  unfold clientId at h
  split at h <;> split at h <;> cases h
  rfl

/-- A failure is none after its guard, either. -/
theorem guardError_noVerdict {e : PyExc} (he : NoVerdict e) : NoVerdict (guardError cfg e) := by
  unfold guardError
  split
  case h_2 => exact he
  case h_1 msg =>
    split
    · exact noVerdict_toolError (by simp) (by simp)
    · exact he

theorem validate_noVerdict {key : String} {value : Option String} {e : PyExc}
    (h : validate cfg key value = .error e) : NoVerdict e := by
  unfold validate at h
  split at h
  case isTrue =>
    cases h
    exact noVerdict_toolError (by simp) (by simp)
  case isFalse =>
    split at h <;> try cases h
    split at h <;> cases h
    exact noVerdict_toolError (by simp) (by simp)

section Tools

variable {m : Bool}

theorem wp_guardedSet {key value cid : String} {claimed expectedValue : Option String}
    {requireAbsent : Bool} (hcid : clientId cfg ctx claimed = .ok cid) :
    (guardedSet rt cfg key value cid expectedValue requireAbsent).wp
      (Commits rt cfg ctx (.memorySet key value claimed expectedValue requireAbsent))
      ⟨.idle, m, []⟩
      (toolPost rt cfg ctx (.memorySet key value claimed expectedValue requireAbsent)) := by
  unfold guardedSet
  split
  case isTrue => exact Results.raises (noVerdict_toolError (by decide) (by decide))
  case isFalse hx =>
    refine Prog.wp_bind.2 ((Prog.wp_ofExcept _).2 ?_)
    cases hv : validate cfg key (some value) with
    | error e => exact Results.raises (validate_noVerdict hv)
    | ok u =>
      refine Prog.wp_bind.2 (wp_db (fun _ _ _ => .inl) ((Results.fails .already).andThen _)
        fun q hq => ?_)
      have hF : Fails NoVerdict q (toolPost rt cfg ctx
        (.memorySet key value claimed expectedValue requireAbsent)) := Results.fails hq
      have hset : (setTransaction rt key value cid expectedValue requireAbsent
          (embeddingOf rt cfg key value) >>= fun casFailure =>
            Prog.ofExcept (setAnswer rt key cid casFailure)).wp
          (Commits rt cfg ctx (.memorySet key value claimed expectedValue requireAbsent))
          ⟨.idle, true, q⟩
          (toolPost rt cfg ctx (.memorySet key value claimed expectedValue requireAbsent)) := by
        refine Prog.wp_bind.2 (wp_setTransaction (hF.andThen _)
          (fun t₁ b t₂ w failure hs => .own hq (.memorySet hcid hv hs))
          fun t₁ b t₂ w failure hs => ?_)
        exact (Prog.wp_ofExcept _).2 (Results.answers hq (.memorySet hcid hv hs))
      exact Prog.wp_bind.2 (wp_runIf
        (fun _ => Prog.wp_call noVerdict_exc (hF.andThen _) hset) fun _ => hset)

theorem wp_memoryGet {key : String} {includeEvents : Bool} :
    (memoryGet rt cfg key ctx includeEvents).wp (Commits rt cfg ctx (.memoryGet key includeEvents))
      ⟨.idle, m, []⟩ (toolPost rt cfg ctx (.memoryGet key includeEvents)) := by
  refine Prog.wp_bind.2 ((Prog.wp_ofExcept _).2 ?_)
  cases hv : validate cfg key none with
  | error e => exact Results.raises (validate_noVerdict hv)
  | ok u =>
    refine Prog.wp_bind.2 (wp_db (fun _ _ _ => .inl) ((Results.fails .already).andThen _)
      fun q hq => ?_)
    have hF : Fails NoVerdict q (toolPost rt cfg ctx (.memoryGet key includeEvents)) :=
      Results.fails hq
    refine Prog.wp_bind.2 (Prog.wp_select_idle noVerdict_exc (hF.andThen _) fun d => ?_)
    have hF := hF.quiet (q := [.read d]) (by simp)
    refine Prog.wp_bind.2 (wp_runIf (fun hl => ?_) fun hl => ?_)
    · refine wp_logUnder (hF.andThen _) (fun cid t b w hcid hw => ?_) fun cid t b w hcid hw => ?_
      · rw [List.append_assoc]
        exact .own hq (.memoryGet hl hcid hv hw)
      · refine wp_showFact fun q' r hr => ?_
        have := Results.answers (m := true) hq (.memoryGet hl hcid hv hw hr)
        simpa using this
    · refine wp_showFact fun q' r hr => ?_
      have ha : Answers rt cfg ctx (.memoryGet key includeEvents) (.read d :: q') r :=
        .memoryGetUnlogged hl hr
      have := Results.answers (m := true) hq ha
      simpa using this

theorem wp_memoryList {start : String} :
    (memoryList rt start).wp (Commits rt cfg ctx (.memoryList start)) ⟨.idle, m, []⟩
      (toolPost rt cfg ctx (.memoryList start)) := by
  refine Prog.wp_bind.2 (wp_db (fun _ _ _ => .inl) ((Results.fails .already).andThen _)
    fun q hq => ?_)
  refine Prog.wp_bind.2 (Prog.wp_select_idle noVerdict_exc
    ((Results.fails hq).andThen _) fun d => ?_)
  have ha : Answers rt cfg ctx (.memoryList start) [.read d] _ := .memoryList
  have ha := Results.answers (m := true) hq ha
  refine Prog.wp_bind.2 ((Prog.wp_ofExcept _).2 ?_)
  cases hr : selectLike (listPattern start) d with
  | error e =>
    rw [hr] at ha
    exact ha
  | ok rows =>
    simp only [hr, Except.map, listAnswer] at ha
    simp only [Prog.andThen_ok]
    split_ifs at ha ⊢ <;> exact ha

theorem wp_memorySearch {query : String} {topK : ℤ} :
    (memorySearch rt cfg query ctx topK).wp (Commits rt cfg ctx (.memorySearch query topK))
      ⟨.idle, m, []⟩ (toolPost rt cfg ctx (.memorySearch query topK)) := by
  unfold memorySearch
  split
  case isTrue => exact Results.raises (noVerdict_toolError (by decide) (by decide))
  case isFalse he =>
    have he : cfg.embeddingsEnabled = true := by simpa using he
    refine Prog.wp_bind.2 (wp_db (fun _ _ _ => .inl) ((Results.fails .already).andThen _)
      fun q hq => ?_)
    have hF : Fails NoVerdict q (toolPost rt cfg ctx (.memorySearch query topK)) := Results.fails hq
    refine Prog.wp_bind.2 (Prog.wp_select_idle noVerdict_exc (hF.andThen _) fun d => ?_)
    have hF := hF.quiet (q := [.read d]) (by simp)
    simp only [Prog.andThen_ok]
    split
    case isTrue hempty =>
      exact Results.answers hq (.memorySearchEmpty he (List.isEmpty_iff.1 hempty))
    case isFalse =>
      refine Prog.wp_bind.2 (Prog.wp_call noVerdict_exc (hF.andThen _) ?_)
      show (showHits rt cfg query ctx (hits rt query topK d)).wp _ _ _
      cases hh : hits rt query topK d with
      | nil => exact hF.here (e := .other _ _) not_false _
      | cons best others =>
        refine Prog.wp_bind.2 (wp_logUnder (hF.andThen _) (fun cid t b w hcid hw => ?_)
          fun cid t b w hcid hw => ?_)
        · rw [List.append_assoc]
          exact .own hq (.memorySearch he hcid hh hw)
        · have := Results.answers (m := true) hq (.memorySearch he hcid hh hw)
          simpa using this

theorem wp_memoryHistory {key : String} {includeReads : Bool} :
    (memoryHistory rt key includeReads).wp
      (Commits rt cfg ctx (.memoryHistory key includeReads)) ⟨.idle, m, []⟩
      (toolPost rt cfg ctx (.memoryHistory key includeReads)) := by
  refine Prog.wp_bind.2 (wp_db (fun _ _ _ => .inl) ((Results.fails .already).andThen _)
    fun q hq => ?_)
  refine Prog.wp_bind.2 (Prog.wp_select_idle noVerdict_exc
    ((Results.fails hq).andThen _) fun d => ?_)
  exact (Prog.wp_ofExcept _).2 (Results.answers hq .memoryHistory)

theorem wp_memoryDelete {key : String} {claimed : Option String} :
    (memoryDelete rt cfg key ctx claimed).wp (Commits rt cfg ctx (.memoryDelete key claimed))
      ⟨.idle, m, []⟩ (toolPost rt cfg ctx (.memoryDelete key claimed)) := by
  refine Prog.wp_bind.2 ((Prog.wp_ofExcept _).2 ?_)
  cases hcid : clientId cfg ctx claimed with
  | error e => exact Results.raises (clientId_noVerdict hcid)
  | ok cid =>
    refine Prog.wp_bind.2 ((Prog.wp_ofExcept _).2 ?_)
    cases hv : validate cfg key none with
    | error e => exact Results.raises (validate_noVerdict hv)
    | ok u =>
      refine Prog.wp_bind.2 (wp_db (fun _ _ _ => .inl) ((Results.fails .already).andThen _)
        fun q hq => ?_)
      have hF : Fails NoVerdict q (toolPost rt cfg ctx (.memoryDelete key claimed)) :=
        Results.fails hq
      exact Prog.wp_bind.2 (wp_deleteTransaction (hF.andThen _)
        (fun b t w hw => .own hq (.memoryDelete hcid hv hw))
        fun b t w hw => Results.answers hq (.memoryDelete hcid hv hw))

theorem wp_lockHold {seconds : String} (he : cfg.enableDemoTools = true) :
    (lockHold rt cfg ctx seconds).wp (Commits rt cfg ctx (.lockHold seconds)) ⟨.idle, m, []⟩
      (toolPost rt cfg ctx (.lockHold seconds)) := by
  refine Prog.wp_bind.2 ((Prog.wp_ofExcept _).2 ?_)
  cases hcid : clientId cfg ctx none with
  | error e => exact Results.raises (clientId_noVerdict hcid)
  | ok cid =>
    refine Prog.wp_bind.2 (wp_db (fun _ _ _ => .inl) ((Results.fails .already).andThen _)
      fun q hq => ?_)
    have hF : Fails NoVerdict q (toolPost rt cfg ctx (.lockHold seconds)) := Results.fails hq
    exact Prog.wp_bind.2 (wp_holdTransaction (hF.andThen _)
      (fun t b w hw => .own hq (.lockHold he hcid hw))
      fun t b w hw => Results.answers hq (.lockHold he hcid hw))

end Tools

/-- **Every tool call does what `Commits` and `Replies` say**, whatever runs beside it. -/
theorem meets {ι : Type} (cfg : ι → Config) : Meets (servers rt cfg) (serversSpec rt cfg) := by
  rintro p ⟨ctx, c⟩ m -
  have guard : ∀ {t : Py String}, t.wp (Commits rt (cfg p) ctx c) ⟨.idle, m, []⟩
      (toolPost rt (cfg p) ctx c) → (toolGuard (cfg p) t).wp (Commits rt (cfg p) ctx c)
      ⟨.idle, m, []⟩ ((serversSpec rt cfg).post p (ctx, c)) := fun ht =>
    wp_toolGuard (Prog.wp_mono (fun r l h => ⟨h.1, r, h.2, rfl⟩) ht)
  cases c with
  | memorySet key value claimed expectedValue requireAbsent =>
    refine Prog.wp_bind.2 ((Prog.wp_ofExcept _).2 ?_)
    cases hcid : clientId (cfg p) ctx claimed with
    | error e =>
      exact ⟨rfl, _, (Results.raises (m := m) (clientId_noVerdict hcid)).2,
        by rw [Except.mapError, clientId_guard hcid]⟩
    | ok cid => exact guard (wp_guardedSet hcid)
  | memoryGet key includeEvents => exact guard wp_memoryGet
  | memoryList start => exact guard wp_memoryList
  | memorySearch query topK => exact guard wp_memorySearch
  | memoryHistory key includeReads => exact guard wp_memoryHistory
  | memoryDelete key claimed => exact guard wp_memoryDelete
  | lockHold seconds =>
    show (if (cfg p).enableDemoTools then toolGuard (cfg p) (lockHold rt (cfg p) ctx seconds)
      else Py.raise (.toolError "Unknown tool: lock_hold")).wp _ _ _
    split
    case isTrue he => exact guard (wp_lockHold he)
    case isFalse =>
      have he : NoVerdict (.toolError "Unknown tool: lock_hold") :=
        noVerdict_toolError (by decide) (by decide)
      exact ⟨rfl, _, (Results.raises (m := m) he).2, rfl⟩

/-! ## A run of two servers -/

/-- Servers without embeddings, otherwise with default settings. -/
abbrev sampleServers : Clients ℕ (Context × Call) Db Instant Failure Bool PyExc String :=
  servers Audit.sampleRuntime fun _ => { Config.default with embeddingsEnabled := false }

/-- The first sets the key for alice, then the second deletes it for bob. -/
def sampleTurns : List (Sys.Turn ℕ (Context × Call) Instant) :=
  [⟨0, some (⟨none⟩, .memorySet "k" "v" (some "alice") none false), .newYear, 40⟩,
    ⟨1, some (⟨none⟩, .memoryDelete "k" (some "bob")), .newYear, 40⟩]

/-- The two events of this run. -/
theorem sample_run : ∃ s₁ s₂, Reach sampleServers (.initial .empty false) s₁ ∧
    Reach sampleServers s₁ s₂ ∧ ¬NoCommit s₁.trace ∧ s₁.db.events.rows = [Audit.sampleSet] ∧
    s₂.db.events.rows = [Audit.sampleSet, Audit.sampleDelete] := by
  have h₁ : (((Sys.initial .empty false).turns sampleServers (sampleTurns.take 1)).map fun s =>
      (s.trace.any fun e => e.committed.isSome, s.db.events.rows)) =
      some (true, [Audit.sampleSet]) := by
    decide +kernel
  have h₂ : (((Sys.initial .empty false).turns sampleServers sampleTurns).map fun s =>
      s.db.events.rows) = some [Audit.sampleSet, Audit.sampleDelete] := by
    decide +kernel
  obtain ⟨s₁, hs₁, hv₁⟩ := Option.map_eq_some_iff.1 h₁
  obtain ⟨s₂, hs₂, hv₂⟩ := Option.map_eq_some_iff.1 h₂
  have hrest : s₁.turns sampleServers (sampleTurns.drop 1) = some s₂ := by
    rwa [← List.take_append_drop 1 sampleTurns, Sys.turns_append, hs₁] at hs₂
  exact ⟨s₁, s₂, Sys.reach_of_turns (fun _ _ _ _ => trivial) hs₁,
    Sys.reach_of_turns (fun _ _ _ _ => trivial) hrest, not_noCommit (congrArg Prod.fst hv₁),
    congrArg Prod.snd hv₁, hv₂⟩

/-- A create-only write of bob to the key `k`. -/
abbrev refusedCall : Context × Call := (⟨none⟩, .memorySet "k" "w" (some "bob") none true)

/-- Alice has set this key when bob tries to. -/
def refusedTurns : List (Sys.Turn ℕ (Context × Call) Instant) :=
  [⟨0, some (⟨none⟩, .memorySet "k" "v" (some "alice") none false), .newYear, 40⟩,
    ⟨1, some refusedCall, .newYear, 40⟩]

end MemoryBridge
