import MemoryBridge.Resumption
import Mathlib.Algebra.BigOperators.Group.List.Lemmas
import Mathlib.Algebra.GroupWithZero.Nat

/-!
# Looking at a store that is served (`tools/inspect_memory.py`)

The tool prints what plain SELECTs read, each a committed state of its own, while servers write
between them. What one view shows was therefore true at different moments. It still fits together:
the log that is shown last accounts for every fact that is shown first (`overview_accounted`), the
history of a key explains its current value (`current_explained`), and what the full log shows is a
window of every later log (`full_log_window`).
-/

open SingleWriter

namespace MemoryBridge.Inspect

open PyText

/-! ## SELECTs -/

/-- The order of SQLite: NULL, texts, blobs. -/
def cellLe : Cell → Cell → Bool
  | .null, _ => true
  | .text s, .text s' => s ≤ s'
  | .text _, .blob _ => true
  | .blob b, .blob b' => b ≤ b'
  | .text _, .null | .blob _, .null | .blob _, .text _ => false

/-- `SELECT key, value, source_client, updated_at FROM facts ORDER BY key` -/
def selectFacts (d : Db) : List (String × Fact) :=
  (d.facts.entries.map fun r => (r.1, r.2)).insertionSort fun a b => a.1 ≤ b.1

/-- A group of events. -/
structure Activity where
  clientId : Cell
  action : Cell
  deriving DecidableEq

/-- `ORDER BY client_id, action` -/
def Activity.le (a b : Activity) : Bool :=
  if a.clientId = b.clientId then cellLe a.action b.action else cellLe a.clientId b.clientId

/-- The groups of the events. -/
def activities (d : Db) : List Activity := (selectEvents d).map fun e => ⟨e.clientId, e.action⟩

/-- `SELECT client_id, action, COUNT(*) FROM events GROUP BY client_id, action ORDER BY client_id,
action` -/
def selectActivity (d : Db) : List (Activity × ℕ) :=
  ((activities d).dedup.insertionSort fun a b => a.le b).map fun x => (x, (activities d).count x)

/-- The last rows, in id order: `ORDER BY id DESC LIMIT ?`, reversed. A negative limit is none, and
an integer has at most 64 bits. -/
def latest (limit : ℤ) (rows : List Event) : Except PyExc (List Event) :=
  if maxInteger < limit ∨ limit < -maxInteger - 1 then
    .error (.overflowError "Python int too large to convert to SQLite INTEGER")
  else .ok (if limit < 0 then rows else rows.drop (rows.length - limit.toNat))

/-! ## The views -/

/-- Two lines for a fact. -/
def factLines (r : String × Fact) : List String :=
  ["  " ++ r.1 ++ " = " ++ r.2.value,
    "      source: " ++ r.2.sourceClient ++ "  updated: " ++ r.2.updatedAt]

def activityLine (x : Activity × ℕ) : Except PyExc String := do
  let client ← cellRjust 16 x.1.clientId
  let action ← cellRjust 8 x.1.action
  pure ("  " ++ client ++ " " ++ action ++ ": " ++ toString x.2)

/-- `overview`, whose SELECTs find the contents `d₁`, `d₂` and `d₃`. -/
def overview (d₁ d₂ d₃ : Db) : Except PyExc (List String) := do
  let facts := selectFacts d₁
  let activity ← (selectActivity d₃).mapM activityLine
  pure (["=== FACTS ==="] ++ (if facts = [] then ["  (empty)"] else []) ++
    facts.flatMap factLines ++
    ["", "=== EMBEDDINGS ===",
      "  " ++ toString d₂.embeddings.entries.length ++
        " fact(s) embedded (Phase 4A semantic recall)",
      "", "=== ACTIVITY BY CLIENT ==="] ++ activity)

/-- The actions that `key_history` shows. -/
def keyActions : List String := ["set", "delete", "search", "cas_fail"]

def keyLine (e : Event) : Except PyExc String := do
  let client ← cellRjust 16 e.clientId
  let action ← cellRjust 7 e.action
  pure ("  " ++ cellText e.timestamp ++ "  " ++ client ++ "  " ++ action ++ "  " ++
    cellText e.value)

/-- The line of `key_history` for the fact. -/
def currentLine : Option Fact → String
  | some f => "  current: " ++ f.value ++ "  (source: " ++ f.sourceClient ++ ", updated: " ++
      f.updatedAt ++ ")"
  | none => "  (key does not currently exist -- history below is what remains)"

/-- `key_history`, whose SELECTs find the contents `d₁` and `d₂`. -/
def keyHistory (key : String) (d₁ d₂ : Db) : Except PyExc (List String) := do
  let rows := eventsOf key keyActions d₂
  let lines ← rows.mapM keyLine
  pure (["=== HISTORY: " ++ key ++ " ===", currentLine (selectFact key d₁), ""] ++
    (if rows = [] then ["  (no recorded events)"] else []) ++ lines)

/-- `if cell` -/
def cellTruthy : Cell → Bool
  | .null => false
  | .text s => s ≠ ""
  | .blob b => b ≠ []

def logLine (e : Event) : Except PyExc String := do
  let client ← cellRjust 16 e.clientId
  let action ← cellRjust 8 e.action
  pure ("  #" ++ toString e.id ++ " " ++ cellText e.timestamp ++ " " ++ client ++ " " ++ action ++
    (if cellTruthy e.key then " " ++ cellText e.key else "") ++
    (if e.value ≠ .null then " = " ++ cellText e.value else ""))

/-- `full_log` -/
def fullLog (limit : ℤ) (d : Db) : Except PyExc (List String) := do
  let rows ← latest limit (selectEvents d)
  let lines ← rows.mapM logLine
  pure (("=== FULL EVENT LOG (last " ++ toString limit ++ ") ===") :: lines)

/-- Two lines for a search. -/
def searchLines (e : Event) : Except PyExc (List String) := do
  let client ← cellRjust 16 e.clientId
  pure ["  " ++ cellText e.timestamp ++ "  " ++ client ++ "  matched " ++ cellText e.key,
    "      " ++ cellText e.value]

/-- `searches` -/
def searches (limit : ℤ) (d : Db) : Except PyExc (List String) := do
  let rows ← latest limit ((selectEvents d).filter fun e => e.action = .text "search")
  let lines ← rows.mapM searchLines
  pure (["=== SEMANTIC SEARCH LOG (last " ++ toString limit ++ ") ==="] ++
    (if rows = [] then ["  (no searches recorded yet)"] else []) ++ lines.flatten)

/-- The arguments of the tool, next to its database. -/
structure Args where
  key : Option String
  full : Bool
  searches : Bool
  limit : ℤ

/-- `main`, whose SELECTs find the contents `d₁`, `d₂` and `d₃`. -/
def main (args : Args) (d₁ d₂ d₃ : Db) : Except PyExc (List String) :=
  match args.key.filter (· ≠ "") with
  | some key => keyHistory key d₁ d₂
  | none =>
    if args.searches then searches args.limit d₁
    else if args.full then fullLog args.limit d₁
    else overview d₁ d₂ d₃

/-! ## Events of texts -/

section Texts

variable {S : Type} [LinearOrder S] {rt : Runtime S} {fmt : Admin.Formats} {b w d : Db}

/-- The columns of the events that are always there hold texts. -/
def TextLog (d : Db) : Prop := ∀ e ∈ selectEvents d, ∃ x : Audit.TextEvent, e = x.event

theorem TextLog.of_start (hd : d = .empty ∨ d = .opened) : TextLog d := by
  rcases hd with rfl | rfl <;> exact fun _ h => by cases h

theorem TextLog.commits {cfg : Config} {ctx : Context} {c : Call} {h : List (Obs Db Instant)}
    (hb : TextLog b) (hc : Commits rt cfg ctx c h b w) : TextLog w := by
  rcases hc with ⟨d, -, -, ⟨-, rfl⟩ | hm⟩ | ⟨q, h', -, -, ho⟩
  · exact hb
  · intro e he
    rw [hm.events.1] at he
    exact hb e he
  · obtain ⟨d, ts, cid, action, key, value, hl, hd⟩ := ho.logged
    intro e he
    rw [hl.events, hd] at he
    rcases List.mem_append.1 he with he | he
    · exact hb e he
    · obtain rfl := List.mem_singleton.1 he
      exact ⟨⟨_, ts, cid, action, key, value⟩, rfl⟩

theorem Lineage.textLog (hfmt : fmt.Lawful) (h : Lineage rt fmt d) : TextLog d :=
  h.invariant hfmt (fun _ => .of_start) fun _ _ _ _ _ _ hc hb => hb.commits hc

/-- Lines for rows, none of which raises. -/
theorem exists_lines {α β : Type} {line : α → Except PyExc β} {rows : List α}
    (h : ∀ r ∈ rows, ∃ l, line r = .ok l) :
    ∃ lines, rows.mapM line = .ok lines ∧ lines.length = rows.length := by
  induction rows with
  | nil => exact ⟨[], rfl, rfl⟩
  | cons r rows ih =>
    obtain ⟨l, hl⟩ := h r (.head _)
    obtain ⟨lines, hlines, hlength⟩ := ih fun r hr => h r (.tail _ hr)
    exact ⟨l :: lines, by rw [List.mapM_cons, hl, hlines]; rfl, by simp [hlength]⟩

theorem TextLog.keyLines (hd : TextLog d) {rows : List Event} (hrows : rows ⊆ selectEvents d) :
    ∃ lines, rows.mapM keyLine = .ok lines ∧ lines.length = rows.length := by
  refine exists_lines fun e he => ?_
  obtain ⟨x, rfl⟩ := hd e (hrows he)
  exact ⟨_, rfl⟩

theorem TextLog.logLines (hd : TextLog d) {rows : List Event} (hrows : rows ⊆ selectEvents d) :
    ∃ lines, rows.mapM logLine = .ok lines ∧ lines.length = rows.length := by
  refine exists_lines fun e he => ?_
  obtain ⟨x, rfl⟩ := hd e (hrows he)
  exact ⟨_, rfl⟩

theorem mem_selectActivity {x : Activity × ℕ} :
    x ∈ selectActivity d ↔ x.1 ∈ activities d ∧ x.2 = (activities d).count x.1 := by
  rw [selectActivity, List.mem_map]
  constructor
  · rintro ⟨a, ha, rfl⟩
    exact ⟨List.mem_dedup.1 ((List.mem_insertionSort _).1 ha), rfl⟩
  · rintro ⟨ha, hx⟩
    exact ⟨x.1, (List.mem_insertionSort _).2 (List.mem_dedup.2 ha), by rw [← hx]⟩

theorem TextLog.activityLines (hd : TextLog d) :
    ∃ lines, (selectActivity d).mapM activityLine = .ok lines ∧
      lines.length = (selectActivity d).length := by
  refine exists_lines fun x hx => ?_
  obtain ⟨e, he, hx⟩ := List.mem_map.1 (mem_selectActivity.1 hx).1
  obtain ⟨y, rfl⟩ := hd e he
  obtain ⟨x, n⟩ := x
  obtain rfl : ⟨.text y.clientId, .text y.action⟩ = x := hx
  exact ⟨_, rfl⟩

end Texts

/-! ## What the activity accounts for -/

/-- The count that the activity shows for a client and an action. -/
def shown (client action : String) (activity : List (Activity × ℕ)) : ℕ :=
  (activity.lookup ⟨.text client, .text action⟩).getD 0

theorem lookup_map_self {α β : Type} [DecidableEq α] (f : α → β)
    (keys : List α) (a : α) :
    (keys.map fun x => (x, f x)).lookup a = if a ∈ keys then some (f a) else none := by
  induction keys with
  | nil => rfl
  | cons x keys ih =>
    rw [List.map_cons, List.lookup_cons, ih]
    by_cases hax : a = x
    · subst hax
      simp
    · have hbeq : (a == x) = false := beq_false_of_ne hax
      rw [hbeq]
      simp [hax]

theorem shown_eq (client action : String) (d : Db) :
    shown client action (selectActivity d) =
      (selectEvents d).countP fun e => e.clientId = .text client ∧ e.action = .text action := by
  have hcount : (activities d).count ⟨.text client, .text action⟩ =
      (selectEvents d).countP fun e => e.clientId = .text client ∧ e.action = .text action := by
    rw [activities, List.count, List.countP_map]
    refine List.countP_congr fun e _ => ?_
    simp
  rw [shown, selectActivity, lookup_map_self, ← hcount]
  by_cases hmem : ⟨.text client, .text action⟩ ∈ activities d
  · rw [if_pos ((List.mem_insertionSort _).2 (List.mem_dedup.2 hmem))]
    rfl
  · rw [if_neg fun h => hmem (List.mem_dedup.1 ((List.mem_insertionSort _).1 h)),
      List.count_eq_zero_of_not_mem hmem]
    rfl

/-- The groups make up the whole log. -/
theorem sum_selectActivity (d : Db) :
    ((selectActivity d).map Prod.snd).sum = d.events.rows.length := by
  rw [selectActivity, List.map_map]
  have hperm := (List.perm_insertionSort (fun a b : Activity => (a.le b : Prop))
    (activities d).dedup).map fun x => (activities d).count x
  refine hperm.sum_eq.trans ((activities d).sum_map_count_dedup_eq_length.trans ?_)
  simp [activities, selectEvents]

/-- Each fact is the work of an event of its own. -/
theorem facts_le_sets {d : Db} (hd : Replays d) (client : String) :
    ((selectFacts d).countP fun r => r.2.sourceClient = client) ≤
      (selectEvents d).countP fun e => e.clientId = .text client ∧ e.action = .text "set" := by
  have hperm := List.perm_insertionSort (fun a b : String × Fact => a.1 ≤ b.1)
    (d.facts.entries.map fun r => (r.1, r.2))
  rw [selectFacts, hperm.countP_eq, List.countP_map, List.countP_eq_length_filter,
    List.countP_eq_length_filter]
  -- the keys of the facts are keys of these events, and no two are equal
  let rows := d.facts.entries.filter fun r => r.2.sourceClient = client
  let events := (selectEvents d).filter fun e =>
    e.clientId = .text client ∧ e.action = .text "set"
  have hnodup : (rows.map fun r => Cell.text r.1).Nodup := by
    have hkeys : rows.NodupKeys := d.facts.nodupKeys.sublist List.filter_sublist
    have htext := List.Nodup.map (fun _ _ h => Cell.text.inj h) hkeys
    rwa [List.keys, List.map_map] at htext
  have hsubset : (rows.map fun r => Cell.text r.1) ⊆ events.map Event.key := by
    intro k hk
    obtain ⟨r, hr, rfl⟩ := List.mem_map.1 hk
    obtain ⟨hr, hclient⟩ := List.mem_filter.1 hr
    obtain ⟨e, he, haction, -, hid⟩ := (hd.iff r.1 r.2.value r.2.sourceClient).1
      ⟨r.2, AList.mem_lookup_iff.2 hr, rfl, rfl⟩
    obtain ⟨he, hchanges⟩ := List.mem_filter.1 (List.mem_of_getLast? he)
    have hclient : r.2.sourceClient = client := by simpa using hclient
    refine List.mem_map.2 ⟨e, List.mem_filter.2 ⟨he, ?_⟩, (of_decide_eq_true hchanges).1⟩
    simpa [haction, hid] using hclient
  have hlength := (List.subperm_of_subset hnodup hsubset).length_le
  rw [List.length_map, List.length_map] at hlength
  exact hlength

/-- The history of a key has all its changes. -/
theorem lastChange_eventsOf (key : String) (d : Db) :
    lastChange key (eventsOf key keyActions d) = lastChange key (selectEvents d) := by
  rw [lastChange, lastChange, eventsOf, List.filter_filter]
  congr 1
  refine List.filter_congr fun e _ => ?_
  rw [← Bool.decide_and, decide_eq_decide]
  refine ⟨And.left, fun h => ⟨h, h.1, ?_⟩⟩
  rcases h.2 with ha | ha
  · exact ⟨"set", by decide, ha⟩
  · exact ⟨"delete", by decide, ha⟩

/-- A limit of 64 bits is accepted; a negative one limits nothing. -/
theorem exists_latest {limit : ℤ} (hlow : -maxInteger - 1 ≤ limit) (hhigh : limit ≤ maxInteger)
    (es : List Event) : ∃ rows, latest limit es = .ok rows ∧
      rows.length = if limit < 0 then es.length else min limit.toNat es.length := by
  unfold latest
  rw [if_neg (by omega)]
  refine ⟨_, rfl, ?_⟩
  split
  · rfl
  · rw [List.length_drop]
    omega

/-- A limited view is an end of the log. -/
theorem latest_eq_drop {limit : ℤ} {es rows : List Event} (h : latest limit es = .ok rows) :
    rows = es.drop (es.length - rows.length) := by
  unfold latest at h
  split_ifs at h
  · obtain rfl := Except.ok.inj h
    simp
  · obtain rfl := Except.ok.inj h
    rw [List.length_drop]
    congr 1
    omega

/-! ## What is shown while servers write -/

section Runs

variable {S : Type} [LinearOrder S] {rt : Runtime S} {fmt : Admin.Formats} {ι : Type}
  [DecidableEq ι] {cfg : ι → Config}
  {s₀ s₁ s₂ s₃ : Sys ι (Context × Call) Db Instant Failure Bool PyExc String}

/-- The events of a store of a lineage stay the beginning of its log. -/
theorem Reach.log_prefix (hfmt : fmt.Lawful) (h₀ : s₀.Init) (hl : Lineage rt fmt s₀.db)
    (h₁ : Reach (servers rt cfg) s₀ s₁) (h₂ : Reach (servers rt cfg) s₁ s₂) :
    selectEvents s₁.db <+: selectEvents s₂.db := by
  have hrows : s₁.db.events.rows <+: s₂.db.events.rows :=
    Reach.related (meets cfg) h₀ (I := Sound rt) (R := fun b w => b.events.rows <+: w.events.rows)
      (fun _ => List.prefix_rfl) (fun _ _ _ => List.IsPrefix.trans)
      (fun _ _ _ _ _ hc hb => hb.commits hc) (fun _ _ _ _ _ hc hb => hc.rows_prefix hb)
      (hl.sound hfmt).1 h₁ h₂
  exact hrows.map _

/-- **The overview accounts for its facts.** Whatever servers write between the SELECTs, the
overview of a store of a lineage is printed. Its activity shows for each client and action how many
events the log has of them, and counts each event once. It shows at least as many `set`s of a client
as the overview shows facts of that client. -/
theorem overview_accounted (hfmt : fmt.Lawful) (h₀ : s₀.Init) (hl : Lineage rt fmt s₀.db)
    (h₁ : Reach (servers rt cfg) s₀ s₁) (h₂ : Reach (servers rt cfg) s₁ s₂)
    (h₃ : Reach (servers rt cfg) s₂ s₃) :
    (∃ lines, overview s₁.db s₂.db s₃.db = .ok lines) ∧
      (∀ client action, shown client action (selectActivity s₃.db) =
        (selectEvents s₃.db).countP fun e => e.clientId = .text client ∧ e.action = .text action) ∧
      ((selectActivity s₃.db).map Prod.snd).sum = s₃.db.events.rows.length ∧
      ∀ client, ((selectFacts s₁.db).countP fun r => r.2.sourceClient = client) ≤
        shown client "set" (selectActivity s₃.db) := by
  have hl₁ : Lineage rt fmt s₁.db := .served cfg h₀ hl h₁
  have hl₃ : Lineage rt fmt s₃.db := .served cfg h₀ hl ((h₁.trans h₂).trans h₃)
  refine ⟨?_, fun client action => shown_eq client action s₃.db, sum_selectActivity s₃.db,
    fun client => ?_⟩
  · obtain ⟨lines, hlines, -⟩ := (Lineage.textLog hfmt hl₃).activityLines
    rw [overview, hlines]
    exact ⟨_, rfl⟩
  · rw [shown_eq]
    refine (facts_le_sets (hl₁.sound hfmt).2 client).trans ?_
    exact (Reach.log_prefix hfmt h₀ hl h₁ (h₂.trans h₃)).sublist.countP_le

/-- An overview of a store from which a server deletes a fact after its facts are read. -/
theorem overview_accounted_sample :
    ∃ s₁ s₂ : Sys ℕ (Context × Call) Db Instant Failure Bool PyExc String,
      s₁.db.events.rows = [Audit.sampleSet] ∧
      s₂.db.events.rows = [Audit.sampleSet, Audit.sampleDelete] ∧
      (∃ lines, overview s₁.db s₂.db s₂.db = .ok lines) ∧
      (∀ client action, shown client action (selectActivity s₂.db) =
        (selectEvents s₂.db).countP fun e => e.clientId = .text client ∧ e.action = .text action) ∧
      ((selectActivity s₂.db).map Prod.snd).sum = s₂.db.events.rows.length ∧
      ∀ client, ((selectFacts s₁.db).countP fun r => r.2.sourceClient = client) ≤
        shown client "set" (selectActivity s₂.db) := by
  obtain ⟨s₁, s₂, h₁, h₂, -, hr₁, hr₂⟩ := sample_run
  exact ⟨s₁, s₂, hr₁, hr₂, overview_accounted Admin.logFormats_lawful
    (Sys.initial_init .empty false) (.created (.inl rfl)) h₁ h₂ .refl⟩

/-- **The history of a key explains its value.** Whatever servers write between the SELECTs, the
history of a key is printed, and begins with the history that was there when the value was read. The
last change in this beginning is a `set` of the value by its source, if there is a value, and no
`set` otherwise; so where the rest changes nothing, the value is what the whole history says. -/
theorem current_explained (hfmt : fmt.Lawful) (h₀ : s₀.Init) (hl : Lineage rt fmt s₀.db)
    (h₁ : Reach (servers rt cfg) s₀ s₁) (h₂ : Reach (servers rt cfg) s₁ s₂) (key : String) :
    (∃ lines, keyHistory key s₁.db s₂.db = .ok lines) ∧
      ∃ later, eventsOf key keyActions s₂.db = eventsOf key keyActions s₁.db ++ later ∧
        (selectFact key s₁.db).map Fact.cells = replayed key (eventsOf key keyActions s₁.db) ∧
        ((∀ e ∈ later, ¬changes key e) →
          (selectFact key s₁.db).map Fact.cells = replayed key (selectEvents s₂.db)) := by
  have hl₁ : Lineage rt fmt s₁.db := .served cfg h₀ hl h₁
  have hl₂ : Lineage rt fmt s₂.db := .served cfg h₀ hl (h₁.trans h₂)
  refine ⟨?_, ?_⟩
  · have hsubset : eventsOf key keyActions s₂.db ⊆ selectEvents s₂.db := List.filter_subset_self _
    obtain ⟨lines, hlines, -⟩ := (Lineage.textLog hfmt hl₂).keyLines hsubset
    rw [keyHistory, hlines]
    exact ⟨_, rfl⟩
  · obtain ⟨later, hlater⟩ := (Reach.log_prefix hfmt h₀ hl h₁ h₂).filter
      fun e => e.key = .text key ∧ ∃ a ∈ keyActions, e.action = .text a
    have hpast : (selectFact key s₁.db).map Fact.cells =
        replayed key (eventsOf key keyActions s₁.db) := by
      rw [replayed, lastChange_eventsOf]
      exact (hl₁.sound hfmt).2 key
    refine ⟨later, hlater.symm, hpast, fun hquiet => ?_⟩
    have hnone : later.filter (fun e => changes key e) = [] :=
      List.filter_eq_nil_iff.2 fun e he => by simpa using hquiet e he
    rw [hpast, replayed, replayed, ← lastChange_eventsOf key s₂.db, lastChange, lastChange]
    have hsplit : eventsOf key keyActions s₂.db = eventsOf key keyActions s₁.db ++ later :=
      hlater.symm
    rw [hsplit, List.filter_append, hnone, List.append_nil]

/-- The history of a key that a server deletes after its value is read. -/
theorem current_explained_sample :
    ∃ s₁ s₂ : Sys ℕ (Context × Call) Db Instant Failure Bool PyExc String,
      s₁.db.events.rows = [Audit.sampleSet] ∧
      s₂.db.events.rows = [Audit.sampleSet, Audit.sampleDelete] ∧
      (∃ lines, keyHistory "k" s₁.db s₂.db = .ok lines) ∧
      ∃ later, eventsOf "k" keyActions s₂.db = eventsOf "k" keyActions s₁.db ++ later ∧
        (selectFact "k" s₁.db).map Fact.cells = replayed "k" (eventsOf "k" keyActions s₁.db) ∧
        ((∀ e ∈ later, ¬changes "k" e) →
          (selectFact "k" s₁.db).map Fact.cells = replayed "k" (selectEvents s₂.db)) := by
  obtain ⟨s₁, s₂, h₁, h₂, -, hr₁, hr₂⟩ := sample_run
  exact ⟨s₁, s₂, hr₁, hr₂, current_explained Admin.logFormats_lawful
    (Sys.initial_init .empty false) (.created (.inl rfl)) h₁ h₂ "k"⟩

/-- **The full log is a window of every later log.** What `--full` shows of a store of a lineage,
with any limit of 64 bits, is printed; its ids follow each other up to the number of events, and the
same rows stand at the same place of every later log. -/
theorem full_log_window (hfmt : fmt.Lawful) (h₀ : s₀.Init) (hl : Lineage rt fmt s₀.db)
    (h₁ : Reach (servers rt cfg) s₀ s₁) (h₂ : Reach (servers rt cfg) s₁ s₂) {limit : ℤ}
    (hlow : -maxInteger - 1 ≤ limit) (hhigh : limit ≤ maxInteger) :
    ∃ rows, latest limit (selectEvents s₁.db) = .ok rows ∧
      (∃ lines, fullLog limit s₁.db = .ok lines ∧ lines.length = rows.length + 1) ∧
      (rows.length = if limit < 0 then s₁.db.events.rows.length
        else min limit.toNat s₁.db.events.rows.length) ∧
      rows.map Event.id = (List.range rows.length).map (fun i : ℕ =>
        ((s₁.db.events.rows.length - rows.length + i + 1 : ℕ) : ℤ)) ∧
      rows = ((selectEvents s₂.db).take s₁.db.events.rows.length).drop
        (s₁.db.events.rows.length - rows.length) := by
  have hl₁ : Lineage rt fmt s₁.db := .served cfg h₀ hl h₁
  have hn : s₁.db.events.rows.length = (selectEvents s₁.db).length := by simp [selectEvents]
  obtain ⟨rows, hrows, hlen⟩ := exists_latest hlow hhigh (selectEvents s₁.db)
  have hdrop := latest_eq_drop hrows
  have hids : (selectEvents s₁.db).map Event.id =
      (List.range (selectEvents s₁.db).length).map fun i : ℕ => (i : ℤ) + 1 := by
    rw [← hn, ← (hl₁.sound hfmt).1.ids, selectEvents, List.map_map]
    rfl
  refine ⟨rows, hrows, ?_, by rw [hn, hlen], ?_, ?_⟩
  · have hsubset : rows ⊆ selectEvents s₁.db := by
      rw [hdrop]
      exact List.drop_subset _ _
    obtain ⟨lines, hlines, hlength⟩ := (Lineage.textLog hfmt hl₁).logLines hsubset
    rw [fullLog, hrows]
    refine ⟨("=== FULL EVENT LOG (last " ++ toString limit ++ ") ===") :: lines, ?_,
      by simp [hlength]⟩
    show (rows.mapM logLine >>= fun lines => pure (_ :: lines)) = _
    rw [hlines]
    rfl
  · have hle : rows.length ≤ (selectEvents s₁.db).length := by
      rw [hdrop, List.length_drop]
      exact Nat.sub_le _ _
    conv_lhs => rw [hdrop, List.map_drop, hids]
    refine List.ext_getElem (by simp; omega) fun i _ _ => ?_
    simp only [hn, List.getElem_drop, List.getElem_map, List.getElem_range]
    omega
  · rw [hn, ← List.prefix_iff_eq_take.1 (Reach.log_prefix hfmt h₀ hl h₁ h₂)]
    exact hdrop

/-- The last event of a store of two. -/
theorem full_log_window_sample :
    ∃ (s : Sys ℕ (Context × Call) Db Instant Failure Bool PyExc String) (rows : List Event),
      s.db.events.rows = [Audit.sampleSet, Audit.sampleDelete] ∧
      latest 1 (selectEvents s.db) = .ok rows ∧ rows.map Event.id = [2] := by
  obtain ⟨s₁, s₂, h₁, h₂, -, -, hr₂⟩ := sample_run
  have hlimit : -maxInteger - 1 ≤ 1 ∧ (1 : ℤ) ≤ maxInteger := by decide
  obtain ⟨rows, hrows, -, hlen, hids, -⟩ := full_log_window Admin.logFormats_lawful
    (Sys.initial_init .empty false) (.created (.inl rfl)) (h₁.trans h₂) .refl hlimit.1 hlimit.2
  rw [hr₂] at hlen hids
  have hlen : rows.length = 1 := hlen
  rw [hlen] at hids
  exact ⟨s₂, rows, hr₂, hrows, hids⟩

end Runs

end MemoryBridge.Inspect
