import MemoryBridge.Attribution

/-!
# The text of `memory_history`

The lines of the text stand for events: the client and the action of an event are the second and the
third word of its line. The values of the events are written into the text as they are, so the lines
tell the truth exactly where each value stays on its line (`historyText_faithful`). That is so in
every run in which nobody sets a value with a line break; a single such value is enough to forge the
entry of another client (`history_forged`).
-/

open SingleWriter

namespace MemoryBridge

open PyText

variable {S : Type} {rt : Runtime S}

/-! ## Reading the lines -/

/-- `line.split()[1:3]` -/
def columns (line : List Char) : List (List Char) := ((PyText.split line).drop 1).take 2

/-- The client and the action of an event, as its line shows them. -/
def eventColumns (e : Event) : List (List Char) :=
  [(cellText e.clientId).toList, (cellText e.action).toList ++ [':']]

/-- The text has one line for each event, in order, with its client and its action. -/
def Faithful (text : String) (rows : List Event) : Prop :=
  (splitlines text.toList).map columns = rows.map eventColumns

/-- The value of each event stays on its line. -/
def OneLineEach : List Event → Prop
  | [] => True
  | [e] => OneLine (cellText e.value).toList
  | e :: e' :: rest =>
    OneLine ((cellText e.value).toList ++ ['\n']) ∧ OneLineEach (e' :: rest)

/-- The columns of an event before its value are words. -/
def Plain (e : Event) : Prop :=
  ∃ ts cid action, e.timestamp = .text ts ∧ e.clientId = .text cid ∧ e.action = .text action ∧
    Solid ts.toList ∧ Solid cid.toList ∧ Solid action.toList

theorem OneLineEach.of_unbroken {rows : List Event}
    (h : ∀ e ∈ rows, Unbroken (cellText e.value).toList) : OneLineEach rows := by
  induction rows with
  | nil => trivial
  | cons e rows ih =>
    have he := h e (by simp)
    cases rows with
    | nil => exact OneLine.of_unbroken he
    | cons e' rest =>
      exact ⟨OneLine.of_unbroken_newline he, ih fun x hx => h x (List.mem_cons_of_mem _ hx)⟩

/-- The line of an event: its columns, then its value. -/
theorem historyLine_eq {e : Event} (he : Plain e) :
    ∃ line start, historyLine e = .ok line ∧ line.toList = start ++ (cellText e.value).toList ∧
      start ≠ [] ∧ Unbroken start ∧ ∀ u, columns (start ++ u) = eventColumns e := by
  obtain ⟨ts, cid, action, hts, hcid, haction, sts, scid, saction⟩ := he
  have hrjust : ∀ k s, (rjust k s).toList = List.replicate (k - s.length) ' ' ++ s.toList := by
    simp [rjust]
  have hcolon : Solid (action.toList ++ [':']) := by
    refine ⟨by simp, fun c hc => ?_⟩
    rcases List.mem_append.1 hc with hc | hc
    · exact saction.2 c hc
    · obtain rfl := List.mem_singleton.1 hc
      decide
  have hblank : ∀ k, Unbroken (List.replicate k ' ') := by
    intro k c hc
    obtain rfl := List.eq_of_mem_replicate hc
    decide
  refine ⟨ts ++ " " ++ rjust 14 cid ++ " " ++ rjust 6 action ++ ": " ++ cellText e.value,
    ts.toList ++ ' ' :: (List.replicate (14 - cid.length) ' ' ++ (cid.toList ++ ' ' ::
      (List.replicate (6 - action.length) ' ' ++ ((action.toList ++ [':']) ++ [' '])))),
    ?_, ?_, ?_, ?_, ?_⟩
  · simp only [historyLine, hts, hcid, haction, cellRjust, cellText]
    rfl
  · simp [hrjust]
  · simp
  · simp only [unbroken_append, unbroken_cons, unbroken_nil, and_true, hblank, sts.unbroken,
      scid.unbroken, hcolon.unbroken]
    decide
  · intro u
    have hsplit : PyText.split (ts.toList ++ ' ' :: (List.replicate (14 - cid.length) ' ' ++
        (cid.toList ++ ' ' :: (List.replicate (6 - action.length) ' ' ++
          ((action.toList ++ [':']) ++ ' ' :: u))))) =
        ts.toList :: cid.toList :: (action.toList ++ [':']) :: PyText.split u := by
      rw [split_solid sts, split_blanks, split_solid scid, split_blanks, split_solid hcolon]
    simp only [columns, eventColumns, hcid, haction, cellText]
    simp only [List.append_assoc, List.cons_append, List.nil_append] at hsplit ⊢
    rw [hsplit]
    rfl

/-- A text that begins as the line of an event is this line alone exactly if it goes on as one. -/
theorem columns_splitlines {start v : List Char} {ec : List (List Char)} (hs : start ≠ [])
    (hu : Unbroken start) (hcol : ∀ u, columns (start ++ u) = ec) :
    (splitlines (start ++ v)).map columns = [ec] ↔ OneLine v := by
  have hne : start ++ v ≠ [] := by simp [hs]
  rw [← oneLine_append hu, ← splitlines_length_eq_one hne]
  constructor
  · intro h
    simpa using congrArg List.length h
  · intro h
    obtain ⟨u, t, heq, hu', ht⟩ := (oneLine_append hu).1 ((splitlines_length_eq_one hne).1 h)
    rw [heq, ← List.append_assoc, splitlines_terminated (unbroken_append.2 ⟨hu, hu'⟩) ht
      (by simp [hs]), List.map_singleton, hcol]

/-- Two groups of lines make up a list, where the second group is not too short. -/
theorem map_append_eq_cons_iff {α β : Type} {f : α → β} {l l' : List α} {x : β} {r : List β}
    (hl : l ≠ []) (hr : r.length ≤ l'.length) :
    (l ++ l').map f = x :: r ↔ l.map f = [x] ∧ l'.map f = r := by
  obtain ⟨y, l, rfl⟩ := List.exists_cons_of_ne_nil hl
  rw [List.cons_append, List.map_cons, List.map_cons, List.cons.injEq, List.cons.injEq, and_assoc,
    List.map_append]
  refine and_congr_right fun _ => ⟨fun h => ?_, fun ⟨h₁, h₂⟩ => by rw [h₁, h₂, List.nil_append]⟩
  have hlength := congrArg List.length h
  simp only [List.length_append, List.length_map] at hlength
  have hnil : l.map f = [] := by
    rw [List.map_eq_nil_iff, ← List.length_eq_zero_iff]
    omega
  rw [hnil, List.nil_append] at h
  exact ⟨hnil, h⟩

/-- The lines of some events, and how their text reads. -/
theorem mapM_historyLine {e : Event} {rest : List Event} (hp : ∀ x ∈ e :: rest, Plain x) :
    ∃ l lines, (e :: rest).mapM historyLine = .ok (l :: lines) ∧
      (e :: rest).length ≤ (splitlines (join "\n" (l :: lines)).toList).length ∧
      (Faithful (join "\n" (l :: lines)) (e :: rest) ↔ OneLineEach (e :: rest)) := by
  induction rest generalizing e with
  | nil =>
    obtain ⟨line, start, hline, heq, hs, hu, hcol⟩ := historyLine_eq (hp e (by simp))
    have hjoin : (join "\n" [line]).toList = start ++ (cellText e.value).toList := by
      simp [join, List.intercalate, heq]
    refine ⟨line, [], by rw [List.mapM_cons, hline]; rfl, ?_, ?_⟩
    · rw [hjoin]
      exact List.length_pos_iff.2 (linesFrom_ne_nil (.inr (by simp [hs])))
    · unfold Faithful
      rw [hjoin]
      exact columns_splitlines hs hu hcol
  | cons e' rest ih =>
    obtain ⟨line, start, hline, heq, hs, hu, hcol⟩ := historyLine_eq (hp e (by simp))
    obtain ⟨l, lines, hmap, hlen, hiff⟩ := ih fun x hx => hp x (List.mem_cons_of_mem _ hx)
    have hjoin : (join "\n" (line :: l :: lines)).toList =
        (start ++ (cellText e.value).toList) ++ '\n' :: (join "\n" (l :: lines)).toList := by
      rw [toList_join_cons, heq]
      simp
    have hfirst : splitlines (start ++ (cellText e.value).toList ++ ['\n']) ≠ [] :=
      linesFrom_ne_nil (.inr (by simp))
    refine ⟨line, l :: lines, by rw [List.mapM_cons, hline, hmap]; rfl, ?_, ?_⟩
    · have := List.length_pos_iff.2 hfirst
      rw [hjoin, splitlines_append_newline, List.length_append, List.length_cons]
      omega
    · unfold Faithful
      rw [hjoin, splitlines_append_newline, List.map_cons,
        map_append_eq_cons_iff hfirst (by simpa using hlen), List.append_assoc]
      exact and_congr (columns_splitlines hs hu hcol) hiff

/-- **When the lines tell the truth.** The text of the history has one line for each event, with its
client and its action, exactly if each value stays on its line. -/
theorem historyText_faithful (rt : Runtime S) (key : String) {rows : List Event} (hne : rows ≠ [])
    (hp : ∀ e ∈ rows, Plain e) :
    ∃ text, historyText rt key rows = .ok text ∧ (Faithful text rows ↔ OneLineEach rows) := by
  obtain ⟨e, rest, rfl⟩ := List.exists_cons_of_ne_nil hne
  obtain ⟨l, lines, hmap, -, hiff⟩ := mapM_historyLine hp
  exact ⟨join "\n" (l :: lines), by rw [historyText, if_neg hne, hmap]; rfl, hiff⟩

/-! ## What is recorded -/

/-- Every event of the log is plain. -/
def PlainLog (d : Db) : Prop := ∀ e ∈ selectEvents d, Plain e

/-- The value that a call sets has no line break. -/
def Call.Unbroken : Call → Prop
  | .memorySet _ value _ _ _ => PyText.Unbroken value.toList
  | _ => True

/-- No value of the store has a line break, nor has any recorded one. -/
structure UnbrokenValues (d : Db) : Prop where
  facts : ∀ k f, d.facts.lookup k = some f → Unbroken f.value.toList
  events : ∀ e ∈ selectEvents d, Unbroken (cellText e.value).toList

/-- The client ids of a client file are words. -/
theorem Http.solid_of_validId {cid : String} (h : Http.validId cid = true) : Solid cid.toList := by
  simp only [Http.validId, Bool.and_eq_true, decide_eq_true_eq, List.all_eq_true] at h
  refine ⟨fun hn => ?_, fun c hc => ?_⟩
  · have : cid.length = 0 := by rw [← String.length_toList, hn]; rfl
    omega
  · have hid := h.2 c hc
    simp only [Http.isIdChar, Bool.or_eq_true, beq_iff_eq] at hid
    rcases hid with ((hid | rfl) | rfl) | rfl
    · exact isSpace_of_isAlphanum hid
    all_goals decide

theorem solid_text (t : Instant) : Solid t.text.toList := by
  have hsep : ∀ x : Char, isSpace x = false → ∀ c ∈ (String.singleton x).toList,
      isSpace c = false := by
    intro x hx c hc
    obtain rfl : c = x := by simpa using hc
    exact hx
  have hdash := hsep '-' (by decide)
  have hcolon := hsep ':' (by decide)
  have hformat : ∀ c ∈ t.strftime.toList, isSpace c = false := by
    simp only [Instant.strftime, String.toList_append, List.forall_mem_append]
    exact ⟨⟨⟨⟨⟨⟨⟨⟨⟨⟨⟨⟨zfill_solid _ _, hdash⟩, zfill_solid _ _⟩, hdash⟩, zfill_solid _ _⟩,
      hsep 'T' (by decide)⟩, zfill_solid _ _⟩, hcolon⟩, zfill_solid _ _⟩, hcolon⟩,
      zfill_solid _ _⟩, hsep '.' (by decide)⟩, zfill_solid _ _⟩
  refine ⟨by simp [Instant.text], ?_⟩
  simp only [Instant.text, String.toList_append, String.toList_ofList, List.forall_mem_append]
  exact ⟨fun c hc => hformat c (List.mem_of_mem_take hc), hsep 'Z' (by decide)⟩

theorem plain_nextEvent {t : Instant} {cid action : String} {key value : Option String} (d : Db)
    (hcid : Solid cid.toList) (ha : Solid action.toList) :
    Plain (nextEvent t.text cid action key value d) :=
  ⟨_, _, _, rfl, rfl, rfl, solid_text t, hcid, ha⟩

theorem solid_action {action : String}
    (h : action ∈ ["set", "get", "delete", "search", "cas_fail", "demo-lock-hold"]) :
    Solid action.toList := by
  have hchars : ∀ c ∈ action.toList, c.isAlphanum = true ∨ c = '_' ∨ c = '-' := by
    simp only [List.mem_cons, List.not_mem_nil, or_false] at h
    rcases h with rfl | rfl | rfl | rfl | rfl | rfl <;> simp
  refine ⟨?_, fun c hc => ?_⟩
  · simp only [List.mem_cons, List.not_mem_nil, or_false] at h
    rcases h with rfl | rfl | rfl | rfl | rfl | rfl <;> simp
  · rcases hchars c hc with h | rfl | rfl
    · exact isSpace_of_isAlphanum h
    · decide
    · decide

/-- Why a conditional write was refused. -/
theorem wrote_failure {key : String} {f : Fact} {expectedValue : Option String}
    {requireAbsent : Bool} {d : Db} {failure : String}
    (h : (wrote rt key f expectedValue requireAbsent d).2 = some failure) :
    failure = existsFailure (selectFact key d) ∨
      ∃ expected, failure = expectedFailure rt expected (selectFact key d) := by
  unfold wrote at h
  split at h
  · split at h
    · exact .inl (Option.some.inj h).symm
    · cases h
  · split at h
    · split at h
      · cases h
      · exact .inr ⟨_, (Option.some.inj h).symm⟩
    · cases h

/-- A refusal quotes the current value. -/
theorem unbroken_failure {key : String} {f : Fact} {expectedValue : Option String}
    {requireAbsent : Bool} {d : Db} {failure : String} (hd : UnbrokenValues d)
    (h : (wrote rt key f expectedValue requireAbsent d).2 = some failure) :
    Unbroken failure.toList := by
  rcases wrote_failure h with rfl | ⟨expected, rfl⟩
  · unfold existsFailure
    rw [String.toList_append, String.toList_append, unbroken_append, unbroken_append]
    refine ⟨⟨by decide +kernel, ?_⟩, by decide +kernel⟩
    cases hf : selectFact key d with
    | none => decide +kernel
    | some g => exact hd.facts key g hf
  · unfold expectedFailure
    rw [String.toList_append, String.toList_append, String.toList_append, unbroken_append,
      unbroken_append, unbroken_append]
    refine ⟨⟨⟨by decide +kernel, unbroken_repr _ _⟩, by decide +kernel⟩, ?_⟩
    cases selectFact key d with
    | some g => exact unbroken_repr _ _
    | none =>
      show Unbroken "None".toList
      decide +kernel

section Own

variable [LinearOrder S] {cfg : Config} {ctx : Context} {c : Call} {h : List (Obs Db Instant)}
  {b w : Db}

/-- A tool called under a proper client id logs a plain event. -/
theorem Own.plain (ho : Own rt cfg ctx c h b w)
    (hcid : ∀ claimed cid, clientId cfg ctx claimed = .ok cid → Solid cid.toList)
    (hb : PlainLog b) : PlainLog w := by
  have hlogs : ∀ {t : Instant} {cid action : String} {key value : Option String} {d : Db},
      Logged rt t.text cid action key value d w → selectEvents d = selectEvents b →
      Solid cid.toList →
      action ∈ ["set", "get", "delete", "search", "cas_fail", "demo-lock-hold"] → PlainLog w := by
    intro t cid action key value d hl hd hcid ha e he
    rw [hl.events, hd] at he
    rcases List.mem_append.1 he with he | he
    · exact hb e he
    · rw [List.mem_singleton.1 he]
      exact plain_nextEvent d hcid (solid_action ha)
  cases ho with
  | memorySet hc _ hs =>
    rcases hs.cases with ⟨-, hl⟩ | ⟨failure, -, hl⟩
    · exact hlogs hl (by rw [stored_events]; rfl) (hcid _ _ hc) (by simp)
    · exact hlogs hl rfl (hcid _ _ hc) (by simp)
  | memoryGet _ hc _ hl => exact hlogs hl rfl (hcid _ _ hc) (by simp)
  | memorySearch _ hc _ hl => exact hlogs hl rfl (hcid _ _ hc) (by simp)
  | memoryDelete hc _ hl => exact hlogs hl rfl (hcid _ _ hc) (by simp)
  | lockHold _ hc hl => exact hlogs hl rfl (hcid _ _ hc) (by simp)

/-- A tool that sets no value with a line break records none. -/
theorem Own.unbroken (ho : Own rt cfg ctx c h b w) (hc : c.Unbroken) (hb : UnbrokenValues b) :
    UnbrokenValues w := by
  have hlogs : ∀ {ts cid action : String} {key value : Option String} {d : Db},
      Logged rt ts cid action key value d w → selectEvents d = selectEvents b →
      (∀ k f, d.facts.lookup k = some f → Unbroken f.value.toList) →
      Unbroken (cellText (.ofOption value)).toList → UnbrokenValues w := by
    intro ts cid action key value d hl hd hf hv
    refine ⟨by rwa [hl.facts], fun e he => ?_⟩
    rw [hl.events, hd] at he
    rcases List.mem_append.1 he with he | he
    · exact hb.events e he
    · rw [List.mem_singleton.1 he]
      exact hv
  have hnone : Unbroken (cellText (.ofOption none)).toList := by decide +kernel
  cases ho with
  | memorySet _ _ hs =>
    rcases hs.cases with ⟨-, hl⟩ | ⟨failure, hfail, hl⟩
    · refine hlogs hl (by rw [stored_events]; rfl) (fun k f hf => ?_) hc
      rcases lookup_stored hf with ⟨-, rfl⟩ | hf
      · exact hc
      · exact hb.facts k f hf
    · exact hlogs hl rfl hb.facts (unbroken_failure hb (hs.1 ▸ hfail))
  | memoryGet _ _ _ hl => exact hlogs hl rfl hb.facts hnone
  | memorySearch _ _ _ hl =>
    refine hlogs hl rfl hb.facts ?_
    simp only [Cell.ofOption, cellText, searchText, String.toList_append, unbroken_append]
    exact ⟨⟨⟨by decide +kernel, unbroken_repr _ _⟩, by decide +kernel⟩, rt.fmt3_unbroken _⟩
  | memoryDelete _ _ hl =>
    exact hlogs hl rfl (fun k f hf => hb.facts k f (lookup_erased hf)) hnone
  | lockHold _ _ hl => exact hlogs hl rfl hb.facts hnone

end Own

/-! ## Runs -/

namespace Http

section Runs

variable [LinearOrder S] {ι : Type}

theorem PlainLog.commits {srv : ι → PerClient} {p : ι} {c : Scope × Call}
    {h : List (Obs Db Instant)} {b w : Db} (hc : (httpSpec rt srv).commits p c h b w)
    (hb : PlainLog b) : PlainLog w := by
  obtain ⟨scope, token, cid, hu, ⟨-, -, -, hid, -⟩, hcom⟩ := hc
  rcases hcom with ⟨d, -, -, hm⟩ | ⟨q, h', -, -, ho⟩
  · rcases hm with ⟨-, rfl⟩ | hm
    · exact hb
    · intro e he
      rw [hm.events.1] at he
      exact hb e he
  · refine ho.plain (fun claimed cid' hcid => ?_) hb
    obtain rfl := PerClient.clientId_eq_ok hu hcid
    exact solid_of_validId hid

/-- The same servers, where nobody sets a value with a line break. -/
def carefulServers (rt : Runtime S) (srv : ι → PerClient) :
    Clients ι (Scope × Call) Db Instant Failure Bool PyExc String :=
  { httpServers rt srv with may := fun _ c => c.1.type = "http" ∧ c.2.Unbroken }

/-- What their calls do. -/
def carefulSpec (rt : Runtime S) (srv : ι → PerClient) :
    Spec ι (Scope × Call) Db Instant PyExc String :=
  { httpSpec rt srv with
    commits := fun p c h b w => c.2.Unbroken ∧ (httpSpec rt srv).commits p c h b w }

theorem careful_meets (srv : ι → PerClient) : Meets (carefulServers rt srv) (carefulSpec rt srv) :=
  fun p c m hc => Prog.wp_weaken (fun _ _ _ hcom => ⟨hc.2, hcom⟩) (fun _ _ h => h)
    (http_meets srv p c m hc.1)

theorem UnbrokenValues.commits {srv : ι → PerClient} {p : ι} {c : Scope × Call}
    {h : List (Obs Db Instant)} {b w : Db} (hc : (carefulSpec rt srv).commits p c h b w)
    (hb : UnbrokenValues b) : UnbrokenValues w := by
  obtain ⟨hcall, scope, token, cid, hu, -, hcom⟩ := hc
  rcases hcom with ⟨d, -, -, hm⟩ | ⟨q, h', -, -, ho⟩
  · rcases hm with ⟨-, rfl⟩ | hm
    · exact hb
    · exact ⟨by rw [hm.tables.1]; exact hb.facts, by rw [hm.events.1]; exact hb.events⟩
  · exact ho.unbroken hcall hb

variable [DecidableEq ι] {srv : ι → PerClient}
  {s₀ s : Sys ι (Scope × Call) Db Instant Failure Bool PyExc String}

/-- An answer of `memory_history` is the text of a store that was committed while the call ran. -/
theorem history_reply {d₀ : Db} {t : List (Entry ι (Scope × Call) Db Instant PyExc String)}
    (ht : TraceOk (httpSpec rt srv) d₀ t) {p : ι} {n : ℕ} {scope : Scope} {key text : String}
    {includeReads : Bool}
    (hr : .reply p n (scope, .memoryHistory key includeReads) (.ok text) ∈ t) :
    ∃ t₁, t₁ <+: t ∧
      historyText rt key (eventsOf key (historyActions includeReads) (contents d₀ t₁)) =
        .ok text := by
  obtain ⟨u, v, rfl, hu, hrep, -⟩ := ht.reply hr
  rcases hrep with ⟨scope', token, cid, -, -, r', ⟨q, h', hq, hh, hres⟩, hrr⟩ | ⟨-, e, he⟩
  · rcases hres with ha | ⟨-, e, -, rfl⟩
    · cases ha with
      | @memoryHistory _ _ d =>
        have hread : Obs.read d ∈ history u p n := by simp [hh]
        obtain ⟨t₁, hpre, rfl⟩ := hu.read_of_history hread
        refine ⟨t₁, hpre.trans (List.prefix_append _ _), ?_⟩
        revert hrr
        cases historyText rt key (eventsOf key (historyActions includeReads) (contents d₀ t₁)) with
        | ok text' => exact fun hrr => hrr.symm
        | error e =>
        intro hrr
        cases hrr
    · cases hrr
  · cases he

/-- **When the history cannot be forged.** In every reachable state, the text of a recorded history
has one line for each event, with its client and its action, exactly if the value of each event
stays on its line; so it does in every run where nobody sets a value with a line break. What
`memory_history` answers is the text of a committed state. -/
theorem history_faithful_iff (rt : Runtime S) (srv : ι → PerClient) (h₀ : s₀.Init)
    (hd : s₀.db = .empty ∨ s₀.db = .opened) :
    (∀ s, Reach (httpServers rt srv) s₀ s → ∀ key,
      eventsOf key (historyActions true) s.db ≠ [] →
      ∃ text, historyText rt key (eventsOf key (historyActions true) s.db) = .ok text ∧
        (Faithful text (eventsOf key (historyActions true) s.db) ↔
          OneLineEach (eventsOf key (historyActions true) s.db))) ∧
    (∀ s, Reach (carefulServers rt srv) s₀ s → ∀ key,
      eventsOf key (historyActions true) s.db ≠ [] →
      ∃ text, historyText rt key (eventsOf key (historyActions true) s.db) = .ok text ∧
        Faithful text (eventsOf key (historyActions true) s.db)) ∧
    ∀ s, Reach (httpServers rt srv) s₀ s → ∀ p n scope key text,
      .reply p n (scope, .memoryHistory key true) (.ok text) ∈ s.trace →
      ∃ t₁, t₁ <+: s.trace ∧
        historyText rt key (eventsOf key (historyActions true) (contents s₀.db t₁)) = .ok text := by
  have hno : selectEvents s₀.db = [] ∧ s₀.db.facts = ∅ := by
    rcases hd with hd | hd <;> rw [hd] <;> exact ⟨rfl, rfl⟩
  have hplain₀ : PlainLog s₀.db := by simp [PlainLog, hno.1]
  have hvalues₀ : UnbrokenValues s₀.db := ⟨by simp [hno.2], by simp [hno.1]⟩
  have hof : ∀ {key : String} {d : Db}, ∀ e ∈ eventsOf key (historyActions true) d,
      e ∈ selectEvents d := fun e he => (List.mem_filter.1 he).1
  refine ⟨fun s hs key hne => ?_, fun s hs key hne => ?_, fun s hs p n scope key text hr => ?_⟩
  · have hp := Reach.invariant (http_meets srv) h₀ (I := PlainLog)
      (fun _ _ _ _ _ => PlainLog.commits) hplain₀ hs
    exact historyText_faithful rt key hne fun e he => hp e (hof e he)
  · have hp := Reach.invariant (careful_meets srv) h₀ (I := PlainLog)
      (fun _ _ _ _ _ hc => PlainLog.commits hc.2) hplain₀ hs
    have hv := Reach.invariant (careful_meets srv) h₀ (I := UnbrokenValues)
      (fun _ _ _ _ _ => UnbrokenValues.commits) hvalues₀ hs
    obtain ⟨text, htext, hiff⟩ := historyText_faithful rt key hne
      fun e he => hp e (hof e he)
    exact ⟨text, htext, hiff.2 (.of_unbroken fun e he => hv.events e (hof e he))⟩
  · have g := Reach.good (http_meets srv) h₀ hs
    exact history_reply g.trace hr

/-- A request with the token of bob. -/
def bobScope : Scope :=
  { sampleScope with
    headers := [(encodeAscii "Authorization", bearerHeader "fedcba9876543210fedcba9876543210")] }

/-- Alice sets the key, and bob deletes it. -/
def carefulTurns : List (Sys.Turn Unit (Scope × Call) Instant) :=
  [⟨(), some (sampleScope, .memorySet "k" "v" none none false), .newYear, 40⟩,
    ⟨(), some (bobScope, .memoryDelete "k" none), .newYear, 40⟩]

/-- In the careful run, the two lines show one write of each. -/
theorem history_faithful_iff_sample :
    ∃ s : Sys Unit (Scope × Call) Db Instant Failure Bool PyExc String,
      s.db.events.rows = [Audit.sampleSet, Audit.sampleDelete] ∧
      ∃ text, historyText Audit.sampleRuntime "k" (eventsOf "k" (historyActions true) s.db) =
        .ok text ∧ Faithful text (eventsOf "k" (historyActions true) s.db) := by
  have h : (((Sys.initial .empty false).turns
      (carefulServers Audit.sampleRuntime fun _ : Unit => sampleServer) carefulTurns).map fun s =>
        s.db.events.rows) = some [Audit.sampleSet, Audit.sampleDelete] := by
    decide +kernel
  obtain ⟨s, hs, hrows⟩ := Option.map_eq_some_iff.1 h
  refine ⟨s, hrows, (history_faithful_iff Audit.sampleRuntime
    (fun _ : Unit => sampleServer) (Sys.initial_init _ _) (.inl rfl)).2.1 s
    (Sys.reach_of_turns (fun x hx c hc => ?_) hs) "k" ?_⟩
  · simp only [carefulTurns, List.mem_cons, List.not_mem_nil, or_false] at hx
    rcases hx with rfl | rfl
    · obtain rfl := Option.some.inj hc
      exact ⟨rfl, show Unbroken "v".toList by decide +kernel⟩
    · obtain rfl := Option.some.inj hc
      exact ⟨rfl, trivial⟩
  · have hsel : selectEvents s.db = [Audit.sampleSet.event, Audit.sampleDelete.event] := by
      simp [selectEvents, hrows]
    rw [eventsOf, hsel]
    decide +kernel

end Runs

/-! ## A forged entry -/

/-- A value whose second line looks like an event of bob. -/
def forgedValue : String := "a\n2026-01-01T00:00:00.000Z            bob    set: b"

/-- A runtime that knows the digest of an event with this value. -/
def forgeryRuntime : Runtime ℕ := .tabulated
  [("[\"mcp-memory-events-v1\"," ++
      "\"0000000000000000000000000000000000000000000000000000000000000000\"," ++
      "1,\"2026-01-01T00:00:00.000Z\",\"alice\",\"set\",\"k\"," ++
      "\"a\\n2026-01-01T00:00:00.000Z            bob    set: b\"]",
    "f056879bc039b621703252c7c96d60669d658d0d74e9daa44dd1ff31900351bd")]

/-- Alice sets the key to this value and asks for its history. -/
def forgeryTurns : List (Sys.Turn Unit (Scope × Call) Instant) :=
  [⟨(), some (sampleScope, .memorySet "k" forgedValue none none false), .newYear, 40⟩,
    ⟨(), some (sampleScope, .memoryHistory "k" true), .newYear, 40⟩]

/-- **A forged history.** The key has one event, a write of alice, and the answer of
`memory_history` shows a second one, of bob, who never made a call. -/
theorem history_forged :
    ∃ (s : Sys Unit (Scope × Call) Db Instant Failure Bool PyExc String) (text : String),
      Reach (httpServers forgeryRuntime fun _ : Unit => sampleServer) (.initial .empty false) s ∧
      .reply () 2 (sampleScope, .memoryHistory "k" true) (.ok text) ∈ s.trace ∧
      (eventsOf "k" (historyActions true) s.db).map eventColumns =
        [["alice".toList, "set:".toList]] ∧
      (splitlines text.toList).map columns =
        [["alice".toList, "set:".toList], ["bob".toList, "set:".toList]] ∧
      ¬Faithful text (eventsOf "k" (historyActions true) s.db) := by
  have h : (((Sys.initial .empty false).turns
      (httpServers forgeryRuntime fun _ : Unit => sampleServer) forgeryTurns).map fun s =>
        ((returned s.trace () 2 (sampleScope, .memoryHistory "k" true)).map fun text =>
          (splitlines text.toList).map columns,
        (eventsOf "k" (historyActions true) s.db).map eventColumns)) =
      some (some [["alice".toList, "set:".toList], ["bob".toList, "set:".toList]],
        [["alice".toList, "set:".toList]]) := by
    decide +kernel
  obtain ⟨s, hs, hv⟩ := Option.map_eq_some_iff.1 h
  obtain ⟨htext, hevents⟩ := Prod.mk.inj hv
  obtain ⟨text, hreturned, hcolumns⟩ := Option.map_eq_some_iff.1 htext
  refine ⟨s, text, Sys.reach_of_turns (fun x hx c hc => ?_) hs,
    reply_mem_of_returned hreturned, hevents, hcolumns, fun hf => ?_⟩
  · simp only [forgeryTurns, List.mem_cons, List.not_mem_nil, or_false] at hx
    rcases hx with rfl | rfl <;> cases hc <;> rfl
  · rw [Faithful, hcolumns, hevents] at hf
    exact absurd (congrArg List.length hf) (by decide)

end Http

end MemoryBridge
