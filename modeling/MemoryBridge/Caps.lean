import MemoryBridge.Search
import MemoryBridge.Timestamps

/-!
# What the input caps bound

`_validate` bounds keys and values. Three other strings of a caller reach the tables without a cap:
the client id that it claims, where the server does not take it from credentials, the expected value
of a compare-and-swap, which the failure message quotes, and the query of a search, which its event
quotes. The cells of the store are bounded exactly if these are (`cells_bounded_iff`).
-/

open SingleWriter

namespace MemoryBridge

/-! ## Cells and strings -/

/-- The texts in a column. -/
def Cell.texts : Cell → List String
  | .text s => [s]
  | _ => []

/-- The text cells of a row of `facts`. -/
def Fact.texts (key : String) (f : Fact) : List String :=
  [key, f.value, f.sourceClient, f.updatedAt]

/-- The text cells of a row of `events`. -/
def EventRow.texts (r : EventRow) : List String :=
  r.event.timestamp.texts ++ r.event.clientId.texts ++ r.event.action.texts ++ r.event.key.texts ++
    r.event.value.texts ++ r.prevHash.texts ++ r.eventHash.texts

/-- No text cell of `facts` or `events` is longer than `n` characters. -/
structure CellsWithin (n : ℕ) (d : Db) : Prop where
  facts : ∀ r ∈ d.facts.entries, ∀ s ∈ r.2.texts r.1, s.length ≤ n
  events : ∀ r ∈ d.events.rows, ∀ s ∈ r.texts, s.length ≤ n

/-- The identity that the request of a call authenticates. -/
def Context.identity (ctx : Context) : List String :=
  match ctx.request.bind Scope.user with
  | some (.authenticatedUser _ clientId) => [clientId]
  | _ => []

/-- A string of a caller that has no cap. -/
inductive FreeText
  /-- The client id that it claims. -/
  | claimed
  /-- The expected value of a compare-and-swap. -/
  | expected
  /-- The query of a search. -/
  | query
  deriving DecidableEq

/-- The server takes the identity of a caller from its credentials. -/
def Config.Authenticates (cfg : Config) : Prop := cfg.transport = "http" ∧ cfg.authClientsFile ≠ ""

/-- The server looks at such a string. -/
def FreeText.UsedBy (cfg : Config) : FreeText → Prop
  | .claimed => ¬cfg.Authenticates
  | .expected => True
  | .query => cfg.embeddingsEnabled = true

/-- The strings of a call that have no cap. -/
def Call.uncapped : Call → List (FreeText × String)
  | .memorySet _ _ claimed expectedValue _ =>
    claimed.toList.map (fun s => (.claimed, s)) ++ expectedValue.toList.map fun s => (.expected, s)
  | .memorySearch query _ => [(.query, query)]
  | .memoryDelete _ claimed => claimed.toList.map fun s => (.claimed, s)
  | _ => []

/-- The lengths that the configurations allow, and a length of the strings without a cap. -/
structure Limits where
  key : ℕ
  value : ℕ
  identity : ℕ
  uncapped : ℕ

/-- The bound on the cells that follows: a failed compare-and-swap quotes two strings with
`repr`. -/
def Limits.cell (l : Limits) : ℕ := l.key + 10 * l.value + l.identity + 10 * l.uncapped + 400

/-- The configuration is within the limits. -/
structure Config.Within (l : Limits) (cfg : Config) : Prop where
  key : cfg.maxKeyLen ≤ l.key
  value : cfg.maxValueLen ≤ l.value
  identity : cfg.defaultClientId.length ≤ l.identity

/-- The strings of a call that have no cap and are used are within the limits, and so is its
identity. -/
structure CallWithin (l : Limits) (cfg : Config) (ctx : Context) (c : Call) : Prop where
  identity : ∀ s ∈ ctx.identity, s.length ≤ l.identity
  uncapped : ∀ x ∈ c.uncapped, x.1.UsedBy cfg → x.2.length ≤ l.uncapped

/-- The contents are within the limits: what later failure messages quote is not too long. -/
structure Within (l : Limits) (d : Db) : Prop where
  facts : ∀ k f, d.facts.lookup k = some f → k.length ≤ l.key ∧ f.value.length ≤ l.value ∧
    f.sourceClient.length ≤ l.identity + l.uncapped ∧ f.updatedAt.length = 24
  events : ∀ r ∈ d.events.rows, ∀ s ∈ r.texts, s.length ≤ l.cell

theorem Within.cells {l : Limits} {d : Db} (hd : Within l d) : CellsWithin l.cell d := by
  refine ⟨fun r hr s hs => ?_, hd.events⟩
  obtain ⟨hk, hv, hc, ht⟩ := hd.facts r.1 r.2 (AList.mem_lookup_iff.2 hr)
  simp only [Fact.texts, List.mem_cons, List.not_mem_nil, or_false] at hs
  unfold Limits.cell
  rcases hs with rfl | rfl | rfl | rfl <;> omega

/-! ## What reaches a row -/

theorem Instant.length_text (t : Instant) : t.text.length = 24 := by
  have h : t.strftime.toList.length = 26 := by
    rw [t.toList_strftime]
    simp
  simp [Instant.text, ← String.length_toList, h]

section Rows

variable {S : Type} {rt : Runtime S} {cfg : Config} {ctx : Context} {l : Limits} {b d w : Db}

theorem clientId_length {claimed : Option String} {cid : String} (hcfg : cfg.Within l)
    (hctx : ∀ s ∈ ctx.identity, s.length ≤ l.identity)
    (hclaimed : ¬cfg.Authenticates → ∀ s ∈ claimed, s.length ≤ l.uncapped)
    (h : clientId cfg ctx claimed = .ok cid) : cid.length ≤ l.identity + l.uncapped := by
  have hdefault := hcfg.identity
  unfold clientId at h
  split_ifs at h with hauth
  · split at h
    case h_1 t c hu =>
      obtain rfl := Except.ok.inj h
      have := hctx c (by simp [Context.identity, hu])
      omega
    case h_2 => cases h
  · split at h
    case h_1 c =>
      obtain rfl := Except.ok.inj h
      have := hclaimed hauth c rfl
      split <;> omega
    case h_2 =>
      obtain rfl := Except.ok.inj h
      omega

theorem validate_length {key : String} {value : Option String} (hcfg : cfg.Within l)
    (h : validate cfg key value = .ok ()) :
    key.length ≤ l.key ∧ ∀ v ∈ value, v.length ≤ l.value := by
  have hkey := hcfg.key
  have hvalue := hcfg.value
  unfold validate at h
  split_ifs at h with hk
  refine ⟨by omega, ?_⟩
  rintro v rfl
  simp only at h
  split_ifs at h with hv
  omega

theorem length_existsFailure (f : Fact) :
    (existsFailure (some f)).length = f.value.length + 36 := by
  have h₁ : "key already exists (current value: ".length = 35 := rfl
  have h₂ : ")".length = 1 := rfl
  unfold existsFailure
  rw [String.length_append, String.length_append, h₁, h₂, Nat.add_comm 35, Nat.add_assoc]

theorem length_expectedFailure_le (rt : Runtime S) (expected : String) {current : Option Fact}
    {n : ℕ} (hn : ∀ f ∈ current, f.value.length ≤ n) :
    (expectedFailure rt expected current).length ≤ 10 * expected.length + 10 * n + 40 := by
  have h₁ : "expected ".length = 9 := rfl
  have h₂ : ", actual is ".length = 12 := rfl
  have hexpected := PyText.length_repr_le rt.unicode expected
  have hcurrent : (PyText.reprOption rt.unicode (current.map Fact.value)).length ≤ 10 * n + 4 := by
    cases current with
    | none =>
      have h₃ : "None".length = 4 := rfl
      simp only [Option.map_none, PyText.reprOption, h₃]
      omega
    | some f =>
      have hrepr := PyText.length_repr_le rt.unicode f.value
      have := hn f rfl
      simp only [Option.map_some, PyText.reprOption]
      omega
  simp only [expectedFailure, String.length_append, h₁, h₂]
  omega

/-- The reason of a refused write quotes the expected value and the value that is there. -/
theorem length_wrote_le {key : String} {f : Fact} {expectedValue : Option String}
    {requireAbsent : Bool} {why : String} (hb : Within l b)
    (hexpected : ∀ s ∈ expectedValue, s.length ≤ l.uncapped)
    (h : (wrote rt key f expectedValue requireAbsent b).2 = some why) : why.length ≤ l.cell := by
  have hcurrent : ∀ g ∈ selectFact key b, g.value.length ≤ l.value :=
    fun g hg => (hb.facts key g hg).2.1
  unfold Limits.cell
  cases requireAbsent with
  | true =>
    by_cases hk : key ∈ b.facts
    · simp only [wrote, if_true, if_pos hk, Option.some.injEq] at h
      obtain ⟨g, hg⟩ := Option.isSome_iff_exists.1 (AList.lookup_isSome.2 hk)
      have := hcurrent g hg
      have := length_existsFailure g
      rw [← h, selectFact, hg]
      omega
    · simp [wrote, hk] at h
  | false =>
    cases expectedValue with
    | none => simp [wrote] at h
    | some expected =>
      simp only [wrote, Bool.false_eq_true, if_false] at h
      split_ifs at h
      have := length_expectedFailure_le rt expected hcurrent
      have := hexpected expected rfl
      rw [← Option.some.inj h]
      omega

/-- What a search logs quotes the query. -/
theorem length_searchText_le (query : String) (score : S) (hfmt : ∀ x, (rt.fmt3 x).length ≤ 314) :
    (searchText rt query score).length ≤ 10 * query.length + 330 := by
  have h₁ : "query=".length = 6 := rfl
  have h₂ : " score=".length = 7 := rfl
  have hquery := PyText.length_repr_le rt.unicode query
  have := hfmt score
  simp only [searchText, String.length_append, h₁, h₂]
  omega

theorem length_digest_le {p : Cell} {e : Event} {s : String}
    (hsha : ∀ x, (rt.sha256 x).length ≤ 64) (h : Audit.digest rt p e = .ok s) : s.length ≤ 64 := by
  unfold Audit.digest at h
  cases hp : Audit.payload p e with
  | error e => simp [hp, Except.map] at h
  | ok x =>
    simp only [hp, Except.map, Except.ok.injEq] at h
    exact h ▸ hsha x

theorem length_genesis : Audit.genesis.length = 64 := by
  unfold Audit.genesis
  rw [String.length_ofList, List.length_replicate]

/-- The hash columns of a chain. -/
theorem length_chain_le (hsha : ∀ x, (rt.sha256 x).length ≤ 64) {rows : List EventRow} {p : Cell}
    (hc : Audit.ChainFrom rt p rows) (hp : ∀ s ∈ p.texts, s.length ≤ 64) :
    ∀ r ∈ rows, ∀ s ∈ r.prevHash.texts ++ r.eventHash.texts, s.length ≤ 64 := by
  induction rows generalizing p with
  | nil => simp
  | cons r rows ih =>
    obtain ⟨rfl, ⟨h, hh, hhash⟩, hrest⟩ := Audit.chainFrom_cons.1 hc
    have hevent : ∀ s ∈ r.eventHash.texts, s.length ≤ 64 := by
      rw [hhash]
      simpa [Cell.texts] using length_digest_le hsha hh
    intro r' hr' s hs
    rcases List.mem_cons.1 hr' with rfl | hr'
    · rcases List.mem_append.1 hs with hs | hs
      · exact hp s hs
      · exact hevent s hs
    · exact ih hrest hevent r' hr' s hs

/-- The row of a log entry. -/
theorem Logged.rows_within {ts cid action : String} {key value : Option String} {n : ℕ}
    (hsha : ∀ x, (rt.sha256 x).length ≤ 64) (hl : Logged rt ts cid action key value d w)
    (hn : 64 ≤ n) (hd : ∀ r ∈ d.events.rows, ∀ s ∈ r.texts, s.length ≤ n)
    (hrow : ∀ s ∈ [ts, cid, action] ++ key.toList ++ value.toList, s.length ≤ n) :
    ∀ r ∈ w.events.rows, ∀ s ∈ r.texts, s.length ≤ n := by
  obtain ⟨h, t, hh, rfl, hrows, -⟩ := hl.spec
  have htail : ∀ s ∈ (Audit.tailHash (selectTail d)).texts, s.length ≤ n := by
    intro s hs
    cases ht : selectTail d with
    | none =>
      rw [ht] at hs
      obtain rfl := List.mem_singleton.1 hs
      rw [length_genesis]
      exact hn
    | some r =>
      rw [ht] at hs
      exact hd r (List.mem_of_getLast? ht) s (List.mem_append_right _ hs)
  have hof : ∀ x : Option String, (Cell.ofOption x).texts = x.toList := fun x => by cases x <;> rfl
  intro r hr s hs
  rw [hrows] at hr
  rcases List.mem_append.1 hr with hr | hr
  · exact hd r hr s hs
  · obtain rfl := List.mem_singleton.1 hr
    have hdigest := length_digest_le hsha hh
    have hcell : ∀ x, (Cell.text x).texts = [x] := fun _ => rfl
    simp only [EventRow.texts, nextEvent, hof, hcell, List.mem_append, or_assoc] at hs
    simp only [List.mem_append, List.mem_cons, List.not_mem_nil, or_false, or_assoc] at hs hrow
    rcases hs with rfl | rfl | rfl | hs | hs | hs | rfl
    · exact hrow s (by simp)
    · exact hrow s (by simp)
    · exact hrow s (by simp)
    · exact hrow s (by simp [hs])
    · exact hrow s (by simp [hs])
    · exact htail s hs
    · exact hdigest.trans hn

/-- A log entry keeps the contents within the limits. -/
theorem Logged.within {cid action : String} {key value : Option String} {t : Instant}
    (hsha : ∀ x, (rt.sha256 x).length ≤ 64) (hl : Logged rt t.text cid action key value d w)
    (hd : Within l d) (hcid : cid.length ≤ l.identity + l.uncapped) (haction : action.length ≤ 14)
    (hkey : ∀ k ∈ key, k.length ≤ l.key) (hvalue : ∀ v ∈ value, v.length ≤ l.cell) :
    Within l w := by
  refine ⟨fun k f hf => hd.facts k f (hl.facts ▸ hf), ?_⟩
  refine hl.rows_within hsha (by unfold Limits.cell; omega) hd.events fun s hs => ?_
  have htime := t.length_text
  simp only [List.mem_append, List.mem_cons, List.not_mem_nil, or_false, Option.mem_toList] at hs
  rcases hs with ((rfl | rfl | rfl) | hs) | hs
  · unfold Limits.cell
    omega
  · unfold Limits.cell
    omega
  · unfold Limits.cell
    omega
  · have := hkey s hs
    unfold Limits.cell
    omega
  · exact hvalue s hs

theorem Migrates.within (hsha : ∀ x, (rt.sha256 x).length ≤ 64) (hm : Migrates rt b w)
    (hb : Within l b) : Within l w := by
  rcases hm with ⟨-, rfl⟩ | hm
  · exact hb
  · refine ⟨fun k f hf => hb.facts k f (hm.tables.1 ▸ hf), fun r hr s hs => ?_⟩
    -- the columns of the event are as before
    have hr' : r.event ∈ selectEvents b := hm.events.1 ▸ List.mem_map_of_mem hr
    obtain ⟨r', hr', heq⟩ := List.mem_map.1 hr'
    have hgenesis : ∀ s ∈ (Cell.text Audit.genesis).texts, s.length ≤ 64 := by
      simp [Cell.texts, length_genesis]
    have hhash := length_chain_le hsha hm.chained.2 hgenesis r hr s
    rw [EventRow.texts, List.append_assoc] at hs
    rcases List.mem_append.1 hs with hs | hs
    · refine hb.events r' hr' s ?_
      rw [EventRow.texts, heq, List.append_assoc]
      exact List.mem_append_left _ hs
    · exact (hhash hs).trans (by unfold Limits.cell; omega)

/-- A row within the limits is written. -/
theorem Within.insert {key : String} {f : Fact} {embedding : Option (List UInt8)}
    (hd : Within l d) (hkey : key.length ≤ l.key) (hvalue : f.value.length ≤ l.value)
    (hclient : f.sourceClient.length ≤ l.identity + l.uncapped) (htime : f.updatedAt.length = 24) :
    Within l (stored key embedding { d with facts := d.facts.insert key f }) := by
  refine ⟨fun k f' hf => ?_, ?_⟩
  · rcases lookup_stored hf with ⟨rfl, rfl⟩ | hf
    · exact ⟨hkey, hvalue, hclient, htime⟩
    · exact hd.facts k f' hf
  · rw [stored_frame]
    exact hd.events

/-- A row is deleted. -/
theorem Within.erase (hd : Within l d) (key : String) : Within l (erased key d) :=
  ⟨fun k f hf => hd.facts k f (lookup_erased hf), hd.events⟩

variable [LinearOrder S] {c : Call} {h : List (Obs Db Instant)}

/-- **One transaction.** -/
theorem Own.within (hsha : ∀ x, (rt.sha256 x).length ≤ 64)
    (hfmt : ∀ x, (rt.fmt3 x).length ≤ 314) (hcfg : cfg.Within l) (hc : CallWithin l cfg ctx c)
    (ho : Own rt cfg ctx c h b w) (hreads : ∀ d, .read d ∈ h → Within l d) (hb : Within l b) :
    Within l w := by
  have hnone : ∀ cid, clientId cfg ctx none = .ok cid → cid.length ≤ l.identity + l.uncapped :=
    fun cid => clientId_length hcfg hc.identity (by simp)
  cases ho with
  | @memorySet key value cid claimed expectedValue requireAbsent t₁ t₂ _ _ _ hcid hv hs =>
    have hclaimed : ¬cfg.Authenticates → ∀ s ∈ claimed, s.length ≤ l.uncapped :=
      fun hauth s hs => hc.uncapped (.claimed, s) (by simp_all [Call.uncapped]) hauth
    have hexpected : ∀ s ∈ expectedValue, s.length ≤ l.uncapped :=
      fun s hs => hc.uncapped (.expected, s) (by simp_all [Call.uncapped]) trivial
    have hcid := clientId_length hcfg hc.identity hclaimed hcid
    obtain ⟨hkey, hvalue⟩ := validate_length hcfg hv
    have hvalue := hvalue value rfl
    rcases hs.cases with ⟨-, hl⟩ | ⟨why, rfl, hl⟩
    · refine hl.within hsha (hb.insert hkey hvalue hcid t₁.length_text) hcid (by decide)
        (by simpa using hkey) ?_
      rintro _ ⟨⟩
      unfold Limits.cell
      omega
    · refine hl.within hsha hb hcid (by decide) (by simpa using hkey) ?_
      rintro _ ⟨⟩
      exact length_wrote_le hb hexpected hs.1.symm
  | memoryGet _ hcid hv hl =>
    refine hl.within hsha hb (hnone _ hcid) (by decide) ?_ (by simp)
    simpa using (validate_length hcfg hv).1
  | @memorySearch query _ _ best _ _ d _ _ he hcid hhits hl =>
    refine hl.within hsha hb (hnone _ hcid) (by decide) ?_ ?_
    · rintro _ ⟨⟩
      have hmem : best ∈ hits rt query _ d := hhits ▸ List.mem_cons_self
      exact ((hreads d (by simp)).facts _ _ (mem_selectJoin.1 (mem_hits hmem).1).1).1
    · rintro _ ⟨⟩
      have hquery : query.length ≤ l.uncapped :=
        hc.uncapped (.query, query) (by simp [Call.uncapped]) he
      have := length_searchText_le query best.1 hfmt
      unfold Limits.cell
      omega
  | @memoryDelete key cid claimed _ _ _ hcid hv hl =>
    have hclaimed : ¬cfg.Authenticates → ∀ s ∈ claimed, s.length ≤ l.uncapped :=
      fun hauth s hs => hc.uncapped (.claimed, s) (by simp_all [Call.uncapped]) hauth
    have hcid := clientId_length hcfg hc.identity hclaimed hcid
    refine hl.within hsha (hb.erase _) hcid (by decide) ?_ (by simp)
    simpa using (validate_length hcfg hv).1
  | lockHold _ hcid hl =>
    exact hl.within hsha hb (hnone _ hcid) (by decide) (by simp) (by simp)

theorem Commits.within (hsha : ∀ x, (rt.sha256 x).length ≤ 64)
    (hfmt : ∀ x, (rt.fmt3 x).length ≤ 314) (hcfg : cfg.Within l) (hc : CallWithin l cfg ctx c)
    (hcom : Commits rt cfg ctx c h b w) (hreads : ∀ d, .read d ∈ h → Within l d)
    (hb : Within l b) : Within l w := by
  rcases hcom with ⟨d, -, -, hm⟩ | ⟨q, h', -, rfl, ho⟩
  · exact Migrates.within hsha hm hb
  · exact ho.within hsha hfmt hcfg hc (fun d hd => hreads d (List.mem_append_right _ hd)) hb

end Rows

/-! ## Strings that are stored -/

section Storing

variable {S : Type} (rt : Runtime S) {cfg : Config}

/-- The server accepts some write. -/
structure Config.Accepts (cfg : Config) : Prop where
  key : 0 < cfg.maxKeyLen
  value : 0 ≤ cfg.maxValueLen

/-- A request of a client whose name has `n` characters. -/
def Context.named (n : ℕ) : Context :=
  ⟨some ⟨"http", [],
    some (.authenticatedUser "token" (String.ofList (List.replicate n 'a'))), []⟩⟩

theorem Context.identity_named (n : ℕ) : ∀ s ∈ (Context.named n).identity, s.length ≤ n := by
  simp [Context.identity, Context.named]

theorem exists_clientId_named (cfg : Config) (n : ℕ) (claimed : Option String) :
    ∃ cid, clientId cfg (.named n) claimed = .ok cid := by
  unfold clientId
  split_ifs
  · exact ⟨_, rfl⟩
  · cases claimed <;> exact ⟨_, rfl⟩

/-- Where no credentials are asked for, a claimed identity is taken. -/
theorem clientId_of_claimed (hauth : ¬cfg.Authenticates) (ctx : Context) {claimed cid : String}
    (h : clientId cfg ctx (some claimed) = .ok cid) : claimed.length ≤ cid.length := by
  have hauth : ¬(cfg.transport = "http" ∧ cfg.authClientsFile ≠ "") := hauth
  unfold clientId at h
  rw [if_neg hauth] at h
  obtain rfl := Except.ok.inj h
  split
  case isTrue hnil =>
    rw [hnil]
    exact Nat.zero_le _
  case isFalse => exact le_rfl

theorem validate_shortest (haccepts : cfg.Accepts) : validate cfg "k" (some "") = .ok () := by
  have hkey := haccepts.key
  have hvalue := haccepts.value
  have hk : ¬("k" = "" ∨ cfg.maxKeyLen < ("k".length : ℤ)) := by
    have : "k".length = 1 := rfl
    rw [this]
    push_cast
    simp
    omega
  have hv : ¬cfg.maxValueLen < ("".length : ℤ) := by
    have : "".length = 0 := rfl
    rw [this]
    omega
  simp only [validate, if_neg hk, if_neg hv]

/-- A set by a client that is alone on a new store, from its transaction. -/
theorem alone_memorySet [LinearOrder S] (haccepts : cfg.Accepts) {ctx : Context}
    {claimed expectedValue : Option String} {cid : String} {casFailure : Option String} {w : Db}
    (hcid : clientId cfg ctx claimed = .ok cid)
    (hset : (setTransaction rt "k" "" cid expectedValue false (embeddingOf rt cfg "k" "")).alone
      .newYear Db.opened .idle true = some ⟨.ok casFailure, w, .idle, true⟩) :
    ∃ r, (tool rt cfg ctx (.memorySet "k" "" claimed expectedValue false)).alone .newYear Db.empty
      .idle false = some ⟨r, w, .idle, true⟩ := by
  have hdb : (db rt).alone .newYear Db.empty .idle false = some ⟨.ok (), .opened, .idle, true⟩ :=
    rfl
  have hembed : (Py.runIf cfg.embeddingsEnabled Py.foreign).alone .newYear Db.opened .idle true =
      some ⟨.ok (), .opened, .idle, true⟩ := by
    cases cfg.embeddingsEnabled <;> rfl
  have hrest : (setTransaction rt "k" "" cid expectedValue false (embeddingOf rt cfg "k" "") >>=
      fun casFailure => Prog.ofExcept (setAnswer rt "k" cid casFailure)).alone .newYear Db.opened
      .idle true = some ⟨setAnswer rt "k" cid casFailure, w, .idle, true⟩ := by
    rw [Prog.alone_bind_of_ok hset, Prog.alone_ofExcept]
  have hbody : (guardedSet rt cfg "k" "" cid expectedValue false).alone .newYear Db.empty .idle
      false = some ⟨setAnswer rt "k" cid casFailure, w, .idle, true⟩ := by
    rw [guardedSet, if_neg (by simp), validate_shortest haccepts]
    refine (Prog.alone_bind_of_ok (Prog.alone_ofExcept _)).trans ?_
    exact (Prog.alone_bind_of_ok hdb).trans ((Prog.alone_bind_of_ok hembed).trans hrest)
  refine ⟨(setAnswer rt "k" cid casFailure).mapError (guardError cfg), ?_⟩
  rw [tool, memorySet, hcid]
  refine (Prog.alone_bind_of_ok (Prog.alone_ofExcept _)).trans ?_
  refine (Prog.alone_tryCatch _ _).trans ?_
  rw [hbody]
  cases setAnswer rt "k" cid casFailure <;> rfl

/-- The transaction of a compare-and-swap on a key that there is not. -/
theorem alone_setTransaction_refused (expected cid : String) (embedding : Option (List UInt8)) :
    ∃ w, (setTransaction rt "k" "" cid (some expected) false embedding).alone .newYear Db.opened
        .idle true = some ⟨.ok (some (expectedFailure rt expected none)), w, .idle, true⟩ ∧
      ∃ r ∈ w.events.rows, expectedFailure rt expected none ∈ r.texts := by
  refine ⟨_, rfl, _, List.mem_singleton.2 rfl, ?_⟩
  show _ ∈ [_, _, _, _, expectedFailure rt expected none, _, _]
  simp

/-- The transaction of a write. -/
theorem alone_setTransaction (cid : String) (embedding : Option (List UInt8)) :
    ∃ w, (setTransaction rt "k" "" cid none false embedding).alone .newYear Db.opened .idle true =
        some ⟨.ok none, w, .idle, true⟩ ∧
      hasChain w = true ∧ w.events.seq = some 1 ∧
      (∃ f, w.facts.lookup "k" = some f) ∧ w.embeddings.lookup "k" = embedding ∧
      ∃ r ∈ w.events.rows, cid ∈ r.texts := by
  cases embedding with
  | none =>
    refine ⟨_, rfl, rfl, rfl, ⟨_, rfl⟩, rfl, _, List.mem_singleton.2 rfl, ?_⟩
    show _ ∈ [_, cid, _, _, _, _, _]
    simp
  | some v =>
    refine ⟨_, rfl, rfl, rfl, ⟨_, rfl⟩, rfl, _, List.mem_singleton.2 rfl, ?_⟩
    show _ ∈ [_, cid, _, _, _, _, _]
    simp

end Storing

/-! ## Runs -/

section Runs

variable {S : Type} [LinearOrder S] {rt : Runtime S} {ι : Type} [DecidableEq ι] {cfg : ι → Config}
  {l : Limits}

/-- Server processes whose callers pass only strings of `A` where there is no cap and the process
uses them. The identities that requests authenticate have at most `n` characters. -/
def callers (rt : Runtime S) (cfg : ι → Config) (n : ℕ) (A : FreeText → String → Prop) :
    Clients ι (Context × Call) Db Instant Failure Bool PyExc String :=
  { servers rt cfg with
    may := fun p c => (∀ s ∈ c.1.identity, s.length ≤ n) ∧
      ∀ x ∈ c.2.uncapped, x.1.UsedBy (cfg p) → A x.1 x.2 }

/-- The cells of every reachable store have at most `m` characters. -/
def BoundedBy (rt : Runtime S) (cfg : ι → Config) (n : ℕ) (A : FreeText → String → Prop) (m : ℕ) :
    Prop :=
  ∀ s, Reach (callers rt cfg n A) (.initial .empty false) s → CellsWithin m s.db

theorem Within.empty : Within l .empty where
  facts k f hf := by cases hf
  events r hr := by cases hr

theorem within_reach (hsha : ∀ x, (rt.sha256 x).length ≤ 64)
    (hfmt : ∀ x, (rt.fmt3 x).length ≤ 314) (hcfg : ∀ p, (cfg p).Within l)
    {A : FreeText → String → Prop} (hA : ∀ kind a, A kind a → a.length ≤ l.uncapped)
    {s : Sys ι (Context × Call) Db Instant Failure Bool PyExc String}
    (h : Reach (callers rt cfg l.identity A) (.initial .empty false) s) : Within l s.db := by
  have hm : Meets (callers rt cfg l.identity A) ((serversSpec rt cfg).among fun p c =>
      (∀ s ∈ c.1.identity, s.length ≤ l.identity) ∧
        ∀ x ∈ c.2.uncapped, x.1.UsedBy (cfg p) → A x.1 x.2) :=
    (meets cfg).among fun _ _ _ => trivial
  have g := Reach.good hm (Sys.initial_init Db.empty false) h
  rw [g.db]
  refine TraceOk.invariant_of_reads (fun p c h b w hc hreads hb => ?_) Within.empty g.trace
    List.prefix_rfl
  obtain ⟨⟨hidentity, huncapped⟩, hc⟩ := hc
  exact hc.within hsha hfmt (hcfg p)
    ⟨hidentity, fun x hx hused => hA x.1 x.2 (huncapped x hx hused)⟩ hreads hb

/-- Runs of callers are runs of the servers. -/
theorem reach_servers {n : ℕ} {A : FreeText → String → Prop}
    {s s' : Sys ι (Context × Call) Db Instant Failure Bool PyExc String}
    (h : Reach (callers rt cfg n A) s s') : Reach (servers rt cfg) s s' := by
  induction h with
  | refl => exact .refl
  | tail _ hs ih =>
    obtain ⟨p, mv, -, hmv⟩ := hs
    exact ih.tail ⟨p, mv, fun _ _ => trivial, hmv⟩

section Long

variable {n : ℕ} {A : FreeText → String → Prop} {a : String} {p : ι}

/-- A caller that is alone on a new store. -/
theorem reach_of_memorySet {w : Db} {claimed expectedValue : Option String}
    {r : Except PyExc String}
    (hmay : ∀ x ∈ (Call.memorySet "k" "" claimed expectedValue false).uncapped,
      x.1.UsedBy (cfg p) → A x.1 x.2)
    (hx : (tool rt (cfg p) (.named n) (.memorySet "k" "" claimed expectedValue false)).alone
      .newYear Db.empty .idle false = some ⟨r, w, .idle, true⟩) :
    ∃ s, Reach (callers rt cfg n A) (.initial .empty false) s ∧ s.db = w ∧
      s.procs p = ⟨.idle, true, 1, none⟩ ∧ s.lock = none := by
  have hmay : (callers rt cfg n A).may p
      (.named n, .memorySet "k" "" claimed expectedValue false) := ⟨Context.identity_named n, hmay⟩
  obtain ⟨s, hs, hdb, hp, hl, -⟩ := reach_of_call (K := callers rt cfg n A) (p := p)
    (s := .initial .empty false) hmay rfl rfl rfl hx
  exact ⟨s, hs, hdb, hp, hl⟩

/-- An expected value is stored when it does not match. -/
theorem exists_long_expected (ha : A .expected a) (haccepts : (cfg p).Accepts) :
    ∃ s, Reach (callers rt cfg n A) (.initial .empty false) s ∧
      ∃ r ∈ s.db.events.rows, ∃ x ∈ r.texts, a.length ≤ x.length := by
  obtain ⟨cid, hcid⟩ := exists_clientId_named (cfg p) n none
  obtain ⟨w, hset, r, hr, htext⟩ :=
    alone_setTransaction_refused rt a cid (embeddingOf rt (cfg p) "k" "")
  obtain ⟨_, hx⟩ := alone_memorySet rt haccepts hcid hset
  have hmay : ∀ x ∈ (Call.memorySet "k" "" none (some a) false).uncapped,
      x.1.UsedBy (cfg p) → A x.1 x.2 := by
    intro x hmem _
    obtain rfl : x = (.expected, a) := by simpa [Call.uncapped] using hmem
    exact ha
  obtain ⟨s, hs, rfl, -⟩ := reach_of_memorySet hmay hx
  refine ⟨s, hs, r, hr, _, htext, ?_⟩
  have := PyText.le_length_repr rt.unicode a
  simp only [expectedFailure, String.length_append]
  omega

/-- A claimed identity is stored where no credentials are asked for. -/
theorem exists_long_claimed (ha : A .claimed a) (haccepts : (cfg p).Accepts)
    (hauth : ¬(cfg p).Authenticates) :
    ∃ s, Reach (callers rt cfg n A) (.initial .empty false) s ∧
      ∃ r ∈ s.db.events.rows, ∃ x ∈ r.texts, a.length ≤ x.length := by
  obtain ⟨cid, hcid⟩ := exists_clientId_named (cfg p) n (some a)
  obtain ⟨w, hset, -, -, -, -, r, hr, htext⟩ :=
    alone_setTransaction rt cid (embeddingOf rt (cfg p) "k" "")
  obtain ⟨_, hx⟩ := alone_memorySet rt haccepts hcid hset
  have hmay : ∀ x ∈ (Call.memorySet "k" "" (some a) none false).uncapped,
      x.1.UsedBy (cfg p) → A x.1 x.2 := by
    intro x hmem _
    obtain rfl : x = (.claimed, a) := by simpa [Call.uncapped] using hmem
    exact ha
  obtain ⟨s, hs, rfl, -⟩ := reach_of_memorySet hmay hx
  exact ⟨s, hs, r, hr, cid, htext, clientId_of_claimed hauth _ hcid⟩

/-- A query is stored when it finds something. -/
theorem exists_long_query (ha : A .query a) (haccepts : (cfg p).Accepts)
    (he : (cfg p).embeddingsEnabled = true) :
    ∃ s, Reach (callers rt cfg n A) (.initial .empty false) s ∧
      ∃ r ∈ s.db.events.rows, ∃ x ∈ r.texts, a.length ≤ x.length := by
  obtain ⟨cid, hcid⟩ := exists_clientId_named (cfg p) n none
  obtain ⟨w, hset, hchain, hseq, ⟨f, hf⟩, hembedding, -⟩ :=
    alone_setTransaction rt cid (embeddingOf rt (cfg p) "k" "")
  obtain ⟨_, hx⟩ := alone_memorySet rt haccepts hcid hset
  have hmay : ∀ x ∈ (Call.memorySet "k" "" none none false).uncapped,
      x.1.UsedBy (cfg p) → A x.1 x.2 := by simp [Call.uncapped]
  obtain ⟨s, hs, rfl, hp, hl⟩ := reach_of_memorySet hmay hx
  -- the fact is found
  have hfound : selectJoin rt s.db ≠ [] := by
    rw [embeddingOf, if_pos he] at hembedding
    exact List.ne_nil_of_mem (mem_selectJoin (r := ⟨"k", f, _⟩).2 ⟨hf, hembedding⟩)
  have hsound : Sound rt s.db :=
    Reach.sound (Sys.initial_init .empty false) (.of_start (.inl rfl)) (reach_servers hs)
  have hid : Audit.nextId s.db.events.seq ≤ maxInteger := by
    rw [hseq]
    decide
  obtain ⟨text, w, hsearch, hlogged⟩ : ∃ text w,
      (memorySearch rt (cfg p) a (.named n) 1).alone .newYear s.db .idle true =
        some ⟨.ok text, w, .idle, true⟩ ∧
      (selectJoin rt s.db ≠ [] → ∃ best : S × SearchRow, Logged rt Instant.newYear.text cid
        "search" (some best.2.key) (some (searchText rt a best.1)) s.db w) :=
    alone_memorySearch he hcid alone_db_open (.inr ⟨hsound.chained hchain, hid⟩)
  obtain ⟨best, hlogged⟩ := hlogged hfound
  have htool : (tool rt (cfg p) (.named n) (.memorySearch a 1)).alone .newYear s.db .idle true =
      some ⟨.ok text, w, .idle, true⟩ := Prog.alone_tryCatch_of_ok hsearch
  have hmay : (callers rt cfg n A).may p (.named n, .memorySearch a 1) := by
    refine ⟨Context.identity_named n, fun x hx _ => ?_⟩
    obtain rfl : x = (.query, a) := by simpa [Call.uncapped] using hx
    exact ha
  obtain ⟨s', hs', rfl, -⟩ := reach_of_call (K := callers rt cfg n A) (p := p) hmay (by rw [hp])
    (by rw [hp]) hl (by rw [hp]; exact htool)
  obtain ⟨h, t, -, hdb, hrows, -⟩ := hlogged.spec
  have hrow := List.mem_append_right s.db.events.rows (List.mem_singleton_self
    (⟨nextEvent Instant.newYear.text cid "search" (some best.2.key) (some (searchText rt a best.1))
      s.db, Audit.tailHash (selectTail s.db), .text h⟩ : EventRow))
  rw [← hrows] at hrow
  refine ⟨s', hs.trans hs', _, by rw [hdb]; exact hrow, searchText rt a best.1, ?_, ?_⟩
  · simp [EventRow.texts, nextEvent, Cell.ofOption, Cell.texts]
  · have := PyText.le_length_repr rt.unicode a
    simp only [searchText, String.length_append]
    omega

end Long

/-- **When the cells are bounded.** They are if the strings without a cap are, by a bound that
depends on the configurations and the length of these strings only. They are not if these strings
can have any length: a claimed identity is stored with every write, an expected value with the
refusal of its compare-and-swap, a query with its search. Only kinds of strings count that some
server uses which accepts a write. -/
theorem cells_bounded_iff (hsha : ∀ x, (rt.sha256 x).length ≤ 64)
    (hfmt : ∀ x, (rt.fmt3 x).length ≤ 314) (hcfg : ∀ p, (cfg p).Within l)
    (A : FreeText → String → Prop) :
    ((∀ kind a, A kind a → a.length ≤ l.uncapped) → BoundedBy rt cfg l.identity A l.cell) ∧
      ((∀ kind a, A kind a → ∃ p, (cfg p).Accepts ∧ kind.UsedBy (cfg p)) →
        ((∃ m, BoundedBy rt cfg l.identity A m) ↔ ∃ n, ∀ kind a, A kind a → a.length ≤ n)) := by
  refine ⟨fun hA s hs => (within_reach hsha hfmt hcfg hA hs).cells, fun hused => ?_⟩
  constructor
  · rintro ⟨m, hm⟩
    refine ⟨m, fun kind a ha => ?_⟩
    obtain ⟨p, haccepts, hp⟩ := hused kind a ha
    obtain ⟨s, hs, r, hr, x, hx, hlong⟩ : ∃ s,
        Reach (callers rt cfg l.identity A) (.initial .empty false) s ∧
          ∃ r ∈ s.db.events.rows, ∃ x ∈ r.texts, a.length ≤ x.length := by
      cases kind with
      | claimed => exact exists_long_claimed ha haccepts hp
      | expected => exact exists_long_expected ha haccepts
      | query => exact exists_long_query ha haccepts hp
    exact hlong.trans ((hm s hs).events r hr x hx)
  · rintro ⟨n, hA⟩
    -- the same limits, but for the strings without a cap
    have hcfg' : ∀ p, (cfg p).Within { l with uncapped := n } :=
      fun p => ⟨(hcfg p).key, (hcfg p).value, (hcfg p).identity⟩
    exact ⟨_, fun s hs => (within_reach hsha hfmt hcfg' hA hs).cells⟩

/-- A server with default settings whose callers pass short strings. -/
theorem cells_bounded_iff_sample :
    BoundedBy Audit.sampleRuntime (fun _ : Unit => Config.default) 9 (fun _ a => a.length ≤ 100)
      (Limits.cell ⟨256, 16384, 9, 100⟩) := by
  have hsha : ∀ x, (Audit.sampleRuntime.sha256 x).length ≤ 64 := by
    intro x
    show (((List.find? _ _).map Prod.snd).getD "").length ≤ 64
    cases hd : List.find? (fun d : String × String => d.1 = String.ofList x) _ with
    | none => simp
    | some d =>
      have hm := List.mem_of_find?_eq_some hd
      simp only [List.mem_cons, List.not_mem_nil, or_false] at hm
      rcases hm with rfl | rfl <;> decide
  have hfmt : ∀ x, (Audit.sampleRuntime.fmt3 x).length ≤ 314 := by
    intro x
    show (if x = 0 then "0.000" else "1.000").length ≤ 314
    split <;> decide
  have hcfg : ∀ _ : Unit, Config.default.Within ⟨256, 16384, 9, 100⟩ :=
    fun _ => ⟨by decide, by decide, by decide⟩
  exact (cells_bounded_iff hsha hfmt hcfg fun _ a => a.length ≤ 100).1 fun _ _ ha => ha

/-- **Cells of any length.** No bound holds for all callers of a server with default settings. -/
theorem cells_unbounded :
    ¬∃ m, BoundedBy Audit.sampleRuntime (fun _ : Unit => Config.default) 9
      (fun _ _ => True) m := by
  rintro ⟨m, hm⟩
  obtain ⟨s, hs, r, hr, x, hx, hlong⟩ : ∃ s, Reach (callers Audit.sampleRuntime
      (fun _ : Unit => Config.default) 9 fun _ _ => True) (.initial .empty false) s ∧
      ∃ r ∈ s.db.events.rows, ∃ x ∈ r.texts,
        (String.ofList (List.replicate (m + 1) 'x')).length ≤ x.length :=
    exists_long_expected trivial (p := ()) ⟨by decide, by decide⟩
  have := (hm s hs).events r hr x hx
  rw [String.length_ofList, List.length_replicate] at hlong
  omega

end Runs

end MemoryBridge
