import MemoryBridge.Audit
import MemoryBridge.Foundations.HashChain

/-!
# What verification accepts

The rows of `events` are the links of a hash chain whose digest is `_digest`, and `verify` accepts
exactly the chains (`verify_eq_ok`). The text that is hashed determines the previous hash and the
event (`payload_injective`), so two accepted tables with one head are the same, and a table built
from the hashes of another one is a prefix of it.
-/

namespace MemoryBridge.Audit

variable {S : Type} {rt : Runtime S}

/-! ## The payload -/

theorem atom_injective {c c' : Cell} {a : AsciiJson.Atom} (h : atom c = some a)
    (h' : atom c' = some a) : c = c' := by
  cases c <;> cases c' <;> simp only [atom, Option.some.injEq, reduceCtorEq] at h h' <;> subst h <;>
    cases h' <;> rfl

theorem atoms_eq_some {e : Event} {as : List AsciiJson.Atom} (h : atoms e = some as) :
    ∃ a₁ a₂ a₃ a₄ a₅, atom e.timestamp = some a₁ ∧ atom e.clientId = some a₂ ∧
      atom e.action = some a₃ ∧ atom e.key = some a₄ ∧ atom e.value = some a₅ ∧
      as = [.int e.id, a₁, a₂, a₃, a₄, a₅] := by
  simp only [atoms, Option.bind_eq_bind, Option.bind_eq_some_iff, Option.pure_def,
    Option.some.injEq] at h
  obtain ⟨a₁, h₁, a₂, h₂, a₃, h₃, a₄, h₄, a₅, h₅, rfl⟩ := h
  exact ⟨a₁, a₂, a₃, a₄, a₅, h₁, h₂, h₃, h₄, h₅, rfl⟩

theorem atoms_injective {e e' : Event} {as : List AsciiJson.Atom} (h : atoms e = some as)
    (h' : atoms e' = some as) : e = e' := by
  obtain ⟨a₁, a₂, a₃, a₄, a₅, h₁, h₂, h₃, h₄, h₅, rfl⟩ := atoms_eq_some h
  obtain ⟨b₁, b₂, b₃, b₄, b₅, h₁', h₂', h₃', h₄', h₅', heq⟩ := atoms_eq_some h'
  simp only [List.cons.injEq, AsciiJson.Atom.int.injEq, and_true] at heq
  obtain ⟨hid, rfl, rfl, rfl, rfl, rfl⟩ := heq
  obtain ⟨i, t, c, a, k, v⟩ := e
  obtain ⟨i', t', c', a', k', v'⟩ := e'
  obtain rfl : i = i' := hid
  obtain rfl : t = t' := atom_injective h₁ h₁'
  obtain rfl : c = c' := atom_injective h₂ h₂'
  obtain rfl : a = a' := atom_injective h₃ h₃'
  obtain rfl : k = k' := atom_injective h₄ h₄'
  obtain rfl : v = v' := atom_injective h₅ h₅'
  rfl

theorem payload_eq_ok {p : Cell} {e : Event} {l : List Char} (h : payload p e = .ok l) :
    ∃ a as, atom p = some a ∧ atoms e = some as ∧
      l = AsciiJson.dumps (.str "mcp-memory-events-v1" :: a :: as) := by
  unfold payload at h
  split at h
  case h_1 a as ha has =>
    cases h
    exact ⟨a, as, ha, has, rfl⟩
  case h_2 => cases h

/-- **The text that is hashed determines the previous hash and the event.** -/
theorem payload_injective {p p' : Cell} {e e' : Event} {l : List Char} (h : payload p e = .ok l)
    (h' : payload p' e' = .ok l) : p = p' ∧ e = e' := by
  obtain ⟨a, as, ha, has, rfl⟩ := payload_eq_ok h
  obtain ⟨b, bs, hb, hbs, heq⟩ := payload_eq_ok h'
  have heq := AsciiJson.dumps_injective heq
  simp only [List.cons.injEq, true_and] at heq
  obtain ⟨rfl, rfl⟩ := heq
  exact ⟨atom_injective ha hb, atoms_injective has hbs⟩

/-! ## The bytes of the payload -/

/-- `payload.encode("ascii")` -/
def encodeAscii (l : List Char) : Except PyExc (List UInt8) :=
  if l.all (·.toNat < 128) then .ok (l.map fun c => UInt8.ofNat c.toNat)
  else .error (.other "UnicodeEncodeError" "ordinal not in range(128)")

/-- An event of texts, whose key and value may be `None`. -/
structure TextEvent where
  id : ℤ
  timestamp : String
  clientId : String
  action : String
  key : Option String
  value : Option String
  deriving DecidableEq

/-- The columns of such an event. -/
def TextEvent.event (e : TextEvent) : Event where
  id := e.id
  timestamp := .text e.timestamp
  clientId := .text e.clientId
  action := .text e.action
  key := .ofOption e.key
  value := .ofOption e.value

/-- The bytes that `_digest` hashes. -/
def payloadBytes (previous : String) (e : TextEvent) : Except PyExc (List UInt8) := do
  let text ← payload (.text previous) e.event
  encodeAscii text

/-- `_digest` gives every such event a payload, and encodes it. -/
theorem payloadBytes_eq (p : String) (e : TextEvent) : ∃ l, payload (.text p) e.event = .ok l ∧
    (∀ c ∈ l, c.toNat < 128) ∧
    payloadBytes p e = .ok (l.map fun c => UInt8.ofNat c.toNat) := by
  obtain ⟨i, t, c, a, k, v⟩ := e
  have hatom (o : Option String) : ∃ x, atom (.ofOption o) = some x := by
    cases o <;> exact ⟨_, rfl⟩
  obtain ⟨x, hx⟩ := hatom k
  obtain ⟨y, hy⟩ := hatom v
  have hl : payload (.text p) (TextEvent.event ⟨i, t, c, a, k, v⟩) = .ok (AsciiJson.dumps
      [.str "mcp-memory-events-v1", .str p, .int i, .str t, .str c, .str a, x, y]) := by
    have htext (s : String) : atom (.text s) = some (.str s) := rfl
    simp [payload, atoms, TextEvent.event, hx, hy, htext]
  refine ⟨_, hl, AsciiJson.dumps_ascii _, ?_⟩
  have hall := AsciiJson.dumps_ascii
    [.str "mcp-memory-events-v1", .str p, .int i, .str t, .str c, .str a, x, y]
  rw [payloadBytes, hl]
  exact if_pos (by simpa using hall)

theorem textEvent_injective : Function.Injective TextEvent.event := by
  rintro ⟨i, t, c, a, k, v⟩ ⟨i', t', c', a', k', v'⟩ h
  have hopt {o o' : Option String} (h : Cell.ofOption o = Cell.ofOption o') : o = o' := by
    cases o <;> cases o' <;> simp_all [Cell.ofOption]
  simp only [TextEvent.event, Event.mk.injEq, Cell.text.injEq] at h
  obtain ⟨rfl, rfl, rfl, rfl, hk, hv⟩ := h
  rw [hopt hk, hopt hv]

/-- **The digest payload is an injective encoding.** Every previous hash and event have one, and no
two pairs have the same. -/
theorem payloadBytes_injective :
    (∀ p e, ∃ b, payloadBytes p e = .ok b) ∧
      Function.Injective fun x : String × TextEvent => payloadBytes x.1 x.2 := by
  refine ⟨fun p e => ?_, ?_⟩
  · obtain ⟨l, -, -, hb⟩ := payloadBytes_eq p e
    exact ⟨_, hb⟩
  · rintro ⟨p, e⟩ ⟨p', e'⟩ h
    obtain ⟨l, hl, ha, hb⟩ := payloadBytes_eq p e
    obtain ⟨l', hl', ha', hb'⟩ := payloadBytes_eq p' e'
    have heq : (.ok (l.map fun c => UInt8.ofNat c.toNat) : Except PyExc (List UInt8)) =
        .ok (l'.map fun c => UInt8.ofNat c.toNat) := hb.symm.trans (h.trans hb')
    obtain rfl := AsciiJson.eq_of_bytes_eq ha ha' (Except.ok.inj heq)
    obtain ⟨hp, he⟩ := payload_injective hl hl'
    obtain rfl : p = p' := by simpa using hp
    rw [textEvent_injective he]

/-! ## The digest as a total function -/

/-- The hash cell of an event after a previous one, NULL where `_digest` raises. -/
def hashCell (rt : Runtime S) (previous : Cell) (e : Event) : Cell :=
  match digest rt previous e with
  | .ok d => .text d
  | .error _ => .null

theorem hashCell_eq_text {p : Cell} {e : Event} {s : String} :
    hashCell rt p e = .text s ↔ digest rt p e = .ok s := by
  unfold hashCell
  cases digest rt p e <;> simp

theorem hashCell_ne_null {p : Cell} {e : Event} :
    hashCell rt p e ≠ .null ↔ ∃ s, digest rt p e = .ok s := by
  unfold hashCell
  cases digest rt p e <;> simp

/-- The payload behind a digest. -/
theorem digest_eq_ok {p : Cell} {e : Event} {s : String} (h : digest rt p e = .ok s) :
    ∃ l, payload p e = .ok l ∧ rt.sha256 l = s := by
  unfold digest at h
  cases hp : payload p e with
  | error x => simp [hp, Except.map] at h
  | ok l => exact ⟨l, rfl, by simpa [hp, Except.map] using h⟩

/-! ## Rows as links -/

end Audit

/-- A row of `events` as a link of the chain. -/
def EventRow.link (r : EventRow) : HashChain.Link Event Cell := ⟨r.event, r.prevHash, r.eventHash⟩

theorem EventRow.link_injective : Function.Injective EventRow.link := by
  rintro ⟨e, p, h⟩ ⟨e', p', h'⟩ heq
  simpa [EventRow.link] using heq

namespace Audit

variable {S : Type} {rt : Runtime S}

/-- The rows form a chain from the hash `p` on. -/
structure ChainFrom (rt : Runtime S) (p : Cell) (rows : List EventRow) : Prop where
  chained : HashChain.Chained (hashCell rt) p (rows.map EventRow.link)
  hashed : ∀ r ∈ rows, r.eventHash ≠ .null

/-- The hash at the end of the rows, `p` if there are none. -/
def headFrom (p : Cell) (rows : List EventRow) : Cell :=
  HashChain.head p (rows.map EventRow.link)

theorem chainFrom_nil {p : Cell} : ChainFrom rt p [] := ⟨trivial, by simp⟩

theorem chainFrom_cons {p : Cell} {r : EventRow} {rows : List EventRow} :
    ChainFrom rt p (r :: rows) ↔ r.prevHash = p ∧
      (∃ s, digest rt p r.event = .ok s ∧ r.eventHash = .text s) ∧
      ChainFrom rt r.eventHash rows := by
  constructor
  · rintro ⟨⟨hp, hh, hc⟩, hn⟩
    have hh : r.eventHash = hashCell rt p r.event := hh
    obtain ⟨s, hs⟩ := hashCell_ne_null.1 (hh ▸ hn r (by simp))
    exact ⟨hp, ⟨s, hs, hh.trans (hashCell_eq_text.2 hs)⟩, hc,
      fun r' hr' => hn r' (List.mem_cons_of_mem _ hr')⟩
  · rintro ⟨hp, ⟨s, hs, hh⟩, hc⟩
    refine ⟨⟨hp, hh.trans (hashCell_eq_text.2 hs).symm, hc.chained⟩, fun r' hr' => ?_⟩
    rcases List.mem_cons.1 hr' with rfl | hr'
    · simp [hh]
    · exact hc.hashed r' hr'

theorem chainFrom_append_singleton {p : Cell} {r : EventRow} {rows : List EventRow} :
    ChainFrom rt p (rows ++ [r]) ↔ ChainFrom rt p rows ∧ r.prevHash = headFrom p rows ∧
      ∃ s, digest rt (headFrom p rows) r.event = .ok s ∧ r.eventHash = .text s := by
  induction rows generalizing p with
  | nil => simp [chainFrom_cons, chainFrom_nil, headFrom]
  | cons r' rows ih =>
    rw [List.cons_append, chainFrom_cons, ih, chainFrom_cons]
    simp only [headFrom, List.map_cons, HashChain.head_cons, EventRow.link, and_assoc]

/-- The head is the hash that `append` continues from. -/
theorem headFrom_eq_tailHash (rows : List EventRow) :
    headFrom (.text genesis) rows = tailHash rows.getLast? := by
  rcases List.eq_nil_or_concat rows with rfl | ⟨rows, r, rfl⟩
  · rfl
  · simp [headFrom, tailHash, EventRow.link, HashChain.head]

/-- `verify` accepts exactly the chains, and returns their length and head. -/
theorem verifyRows_eq_ok {p : String} {n m : ℕ} {rows : List EventRow} {h : String} :
    verifyRows rt p n rows = .ok (m, h) ↔
      ChainFrom rt (.text p) rows ∧ m = n + rows.length ∧ headFrom (.text p) rows = .text h := by
  induction rows generalizing p n with
  | nil =>
    simp only [verifyRows, Except.ok.injEq, Prod.mk.injEq, chainFrom_nil, List.length_nil,
      Nat.add_zero, headFrom, List.map_nil, HashChain.head_nil, Cell.text.injEq, true_and]
    exact and_congr_left' eq_comm
  | cons r rows ih =>
    rw [verifyRows, chainFrom_cons]
    cases hd : digest rt (.text p) r.event with
    | error x => simp [bind, Except.bind]
    | ok s =>
      simp only [bind, Except.bind]
      split
      case isTrue hne =>
        simp only [reduceCtorEq, false_iff, not_and]
        rintro ⟨hp, ⟨s', hs', hh⟩, -⟩
        obtain rfl := Except.ok.inj hs'
        exact (not_or.2 ⟨not_not.2 hp, not_not.2 hh⟩ hne).elim
      case isFalse hne =>
        obtain ⟨hp, hh⟩ := not_or.1 hne
        obtain hp := not_not.1 hp
        obtain hh := not_not.1 hh
        rw [ih]
        simp only [hp, hh, Except.ok.injEq, List.length_cons, headFrom, List.map_cons,
          HashChain.head_cons, EventRow.link, true_and]
        refine and_congr (by simp) (and_congr_left' ?_)
        omega

/-- The events of the store are chained. -/
def Chained (rt : Runtime S) (d : Db) : Prop :=
  hasChain d = true ∧ ChainFrom rt (.text genesis) d.events.rows

theorem verify_eq_ok {d : Db} {n : ℕ} {h : String} :
    verify rt d none = .ok (n, h) ↔ Chained rt d ∧ n = d.events.rows.length ∧
      headFrom (.text genesis) d.events.rows = .text h := by
  unfold verify Chained
  cases hasChain d with
  | false => simp
  | true =>
    simp only [not_true_eq_false, if_false, true_and]
    rw [← Nat.zero_add d.events.rows.length, ← verifyRows_eq_ok]
    cases verifyRows rt genesis 0 d.events.rows with
    | error x => simp [bind, Except.bind]
    | ok r => simp [bind, Except.bind, Prod.ext_iff]

/-- The comparison with the head that is expected. -/
def expecting (expectedHead : Option String) (r : ℕ × String) : Except PyExc (ℕ × String) :=
  match expectedHead with
  | some head =>
    if r.2 ≠ head then
      .error (.valueError ("audit head mismatch: expected " ++ head ++ ", found " ++ r.2))
    else .ok r
  | none => .ok r

theorem verify_eq_bind (d : Db) (expectedHead : Option String) :
    verify rt d expectedHead = verify rt d none >>= expecting expectedHead := by
  unfold verify
  cases hasChain d with
  | false => rfl
  | true =>
    cases verifyRows rt genesis 0 d.events.rows with
    | error e => rfl
    | ok r => cases expectedHead <;> rfl

/-- The head that a successful verification finds, and what it was expected to be. -/
theorem verify_some_eq_ok {d : Db} {expected : String} {r : ℕ × String} :
    verify rt d (some expected) = .ok r ↔ verify rt d none = .ok r ∧ r.2 = expected := by
  rw [verify_eq_bind]
  cases verify rt d none with
  | error x => simp [bind, Except.bind]
  | ok found =>
    simp only [bind, Except.bind, expecting, Except.ok.injEq]
    by_cases hr : found.2 = expected
    · rw [if_neg (not_not.2 hr), Except.ok.injEq]
      exact ⟨fun h => ⟨h, by rw [← h, hr]⟩, fun h => h.1⟩
    · rw [if_pos hr]
      simp only [reduceCtorEq, false_iff, not_and]
      rintro rfl
      exact hr

/-- The hash that the next event of a chained store follows is a text. -/
theorem Chained.tailHash {d : Db} (hd : Chained rt d) :
    ∃ h, Audit.tailHash (selectTail d) = .text h := by
  unfold selectTail
  rcases List.eq_nil_or_concat d.events.rows with h | ⟨rows, r, h⟩
  · exact ⟨genesis, by rw [h]; rfl⟩
  · rw [List.concat_eq_append] at h
    have hc := hd.2
    rw [h, chainFrom_append_singleton] at hc
    obtain ⟨-, -, s, -, hs⟩ := hc
    exact ⟨s, by rw [h]; simp [Audit.tailHash, hs]⟩

/-- A chained store is verified. -/
theorem Chained.verify {d : Db} (hd : Chained rt d) :
    ∃ h, Audit.verify rt d none = .ok (d.events.rows.length, h) := by
  obtain ⟨h, hh⟩ := hd.tailHash
  exact ⟨h, verify_eq_ok.2 ⟨hd, rfl, (headFrom_eq_tailHash _).trans hh⟩⟩

/-! ## A log of two events -/

/-- A runtime that knows the digests of this log: alice sets the key, bob deletes it. -/
def sampleRuntime : Runtime ℕ := .tabulated
  [("[\"mcp-memory-events-v1\"," ++
      "\"0000000000000000000000000000000000000000000000000000000000000000\"," ++
      "1,\"2026-01-01T00:00:00.000Z\",\"alice\",\"set\",\"k\",\"v\"]",
    "e18f19e17df63efbab99132989a1f719da3016b0d4fa335418bda5fb0c23212f"),
  ("[\"mcp-memory-events-v1\"," ++
      "\"e18f19e17df63efbab99132989a1f719da3016b0d4fa335418bda5fb0c23212f\"," ++
      "2,\"2026-01-01T00:00:00.000Z\",\"bob\",\"delete\",\"k\",null]",
    "79f49de45a2c6c423af7ad73a0d7bec60561a74c96bfb3987315464a6af342da")]

def sampleSet : EventRow where
  event := ⟨1, .text Instant.newYear.text, .text "alice", .text "set", .text "k", .text "v"⟩
  prevHash := .text genesis
  eventHash := .text "e18f19e17df63efbab99132989a1f719da3016b0d4fa335418bda5fb0c23212f"

def sampleDelete : EventRow where
  event := ⟨2, .text Instant.newYear.text, .text "bob", .text "delete", .text "k", .null⟩
  prevHash := sampleSet.eventHash
  eventHash := .text "79f49de45a2c6c423af7ad73a0d7bec60561a74c96bfb3987315464a6af342da"

/-- The store with both rows. -/
def sampleLog : Db where
  facts := ∅
  embeddings := ∅
  events := ⟨[sampleSet, sampleDelete], some 2, by decide, by decide⟩
  prevHashColumn := true
  eventHashColumn := true
  requireHash := true

/-- The same without its last row. -/
def sampleCut : Db := { sampleLog with events := ⟨[sampleSet], some 2, by decide, by decide⟩ }

/-! ## Tampering -/

/-- The texts that the verification of a store hashes. -/
def payloads (d : Db) : List (List Char) :=
  d.events.rows.filterMap fun r => (payload r.prevHash r.event).toOption

/-- SHA-256 has no collision on these texts and does not yield `GENESIS` on them. -/
structure CollisionFree (sha256 : List Char → String) (texts : List (List Char)) : Prop where
  inj : ∀ l ∈ texts, ∀ l' ∈ texts, sha256 l = sha256 l' → l = l'
  ne : ∀ l ∈ texts, sha256 l ≠ genesis

theorem CollisionFree.mono {sha256 : List Char → String} {texts texts' : List (List Char)}
    (h : CollisionFree sha256 texts) (ht : texts' ⊆ texts) : CollisionFree sha256 texts' :=
  ⟨fun l hl l' hl' => h.inj l (ht hl) l' (ht hl'), fun l hl => h.ne l (ht hl)⟩

theorem sample_verify : verify sampleRuntime sampleLog none =
    .ok (2, "79f49de45a2c6c423af7ad73a0d7bec60561a74c96bfb3987315464a6af342da") := by
  decide +kernel

theorem sample_collisionFree : CollisionFree sampleRuntime.sha256 (payloads sampleLog) :=
  ⟨by decide +kernel, by decide +kernel⟩

/-- What an accepted row hashes. -/
theorem Chained.payload {d : Db} (hd : Chained rt d) {r : EventRow} (hr : r ∈ d.events.rows) :
    ∃ l ∈ payloads d, Audit.payload r.prevHash r.event = .ok l ∧
      hashCell rt r.prevHash r.event = .text (rt.sha256 l) := by
  have hh := hd.2.chained.hash_eq (List.mem_map_of_mem hr)
  have hh : r.eventHash = hashCell rt r.prevHash r.event := hh
  obtain ⟨s, hs⟩ := hashCell_ne_null.1 (hh ▸ hd.2.hashed r hr)
  obtain ⟨l, hl, rfl⟩ := digest_eq_ok hs
  exact ⟨l, List.mem_filterMap.2 ⟨r, hr, by rw [hl]; rfl⟩, hl, hashCell_eq_text.2 hs⟩

/-- Without collisions of SHA-256, the digest has none on what accepted tables digest. -/
theorem CollisionFree.digest {d d' : Db} (h : CollisionFree rt.sha256 (payloads d ++ payloads d'))
    (hd : Chained rt d) (hd' : Chained rt d') :
    HashChain.CollisionFree (hashCell rt) (.text genesis)
      (HashChain.inputs (d.events.rows.map EventRow.link) ++
        HashChain.inputs (d'.events.rows.map EventRow.link)) := by
  have key : ∀ x ∈ HashChain.inputs (d.events.rows.map EventRow.link) ++
      HashChain.inputs (d'.events.rows.map EventRow.link),
      ∃ l ∈ payloads d ++ payloads d', Audit.payload x.1 x.2 = .ok l ∧
        hashCell rt x.1 x.2 = .text (rt.sha256 l) := by
    intro x hx
    simp only [HashChain.inputs, List.map_map, List.mem_append, List.mem_map] at hx
    rcases hx with ⟨r, hr, rfl⟩ | ⟨r, hr, rfl⟩
    · obtain ⟨l, hl, hp⟩ := hd.payload hr
      exact ⟨l, List.mem_append_left _ hl, hp⟩
    · obtain ⟨l, hl, hp⟩ := hd'.payload hr
      exact ⟨l, List.mem_append_right _ hl, hp⟩
  constructor
  · intro x hx y hy hxy
    obtain ⟨l, hl, hlx, hsx⟩ := key x hx
    obtain ⟨l', hl', hly, hsy⟩ := key y hy
    rw [hsx, hsy, Cell.text.injEq] at hxy
    obtain rfl := h.inj l hl l' hl' hxy
    obtain ⟨hp, he⟩ := payload_injective hlx hly
    exact Prod.ext hp he
  · intro x hx hg
    obtain ⟨l, hl, -, hs⟩ := key x hx
    rw [hs, Cell.text.injEq] at hg
    exact h.ne l hl hg

/-- **The head commits to the whole log.** Two accepted tables with one head hold the same rows; so
a verification that expects the head of a table accepts that table only. -/
theorem rows_eq_of_head_eq {d d' : Db} {n : ℕ} {h : String}
    (hc : CollisionFree rt.sha256 (payloads d ++ payloads d'))
    (hd : verify rt d none = .ok (n, h)) :
    (∀ n', verify rt d' none = .ok (n', h) → d'.events.rows = d.events.rows ∧ n' = n) ∧
      ∀ r, verify rt d' (some h) = .ok r → d'.events.rows = d.events.rows ∧ r = (n, h) := by
  have key : ∀ n', verify rt d' none = .ok (n', h) → d'.events.rows = d.events.rows ∧ n' = n := by
    intro n' hd'
    obtain ⟨hs, hn, hh⟩ := verify_eq_ok.1 hd
    obtain ⟨hs', hn', hh'⟩ := verify_eq_ok.1 hd'
    have heq := HashChain.eq_of_head_eq (hc.digest hs hs') hs.2.chained hs'.2.chained
      (hh.trans hh'.symm)
    have hrows := (List.map_injective_iff.2 EventRow.link_injective) heq
    exact ⟨hrows.symm, by rw [hn, hn', hrows]⟩
  refine ⟨key, ?_⟩
  rintro ⟨n', h'⟩ hd'
  obtain ⟨hnone, hh⟩ := verify_some_eq_ok.1 hd'
  obtain rfl : h' = h := hh
  obtain ⟨hrows, rfl⟩ := key n' hnone
  exact ⟨hrows, rfl⟩

/-- The same log in a store with other facts. -/
theorem rows_eq_of_head_eq_sample :
    let other : Db := { sampleLog with facts := sampleLog.facts.insert "k" ⟨"v", "alice", ""⟩ }
    other.events.rows = sampleLog.events.rows ∧ 2 = 2 :=
  (rows_eq_of_head_eq (sample_collisionFree.mono (by simp [payloads])) sample_verify).1 2
    sample_verify

/-- **Tampering that computes no hash can only truncate.** An accepted table whose hashes all occur
in another accepted table is a prefix of it. -/
theorem rows_prefix_of_hashes {d d' : Db} {r r' : ℕ × String}
    (hc : CollisionFree rt.sha256 (payloads d ++ payloads d')) (hd : verify rt d none = .ok r)
    (hd' : verify rt d' none = .ok r')
    (hm : ∀ row' ∈ d'.events.rows, ∃ row ∈ d.events.rows, row.eventHash = row'.eventHash) :
    d'.events.rows <+: d.events.rows := by
  obtain ⟨hs, -, -⟩ := verify_eq_ok.1 hd
  obtain ⟨hs', -, -⟩ := verify_eq_ok.1 hd'
  have hpre := HashChain.prefix_of_hash_mem (hc.digest hs hs') hs.2.chained hs'.2.chained
    (by
      intro l' hl'
      obtain ⟨row', hrow', rfl⟩ := List.mem_map.1 hl'
      obtain ⟨row, hrow, hh⟩ := hm row' hrow'
      exact ⟨row.link, List.mem_map_of_mem hrow, hh⟩)
  obtain ⟨rest, hrest⟩ := hpre
  obtain ⟨a, b, hab, ha, -⟩ := List.map_eq_append_iff.1 hrest.symm
  rw [hab, (List.map_injective_iff.2 EventRow.link_injective) ha]
  exact List.prefix_append _ _

/-- The log cut after its first event. -/
theorem rows_prefix_of_hashes_sample : sampleCut.events.rows <+: sampleLog.events.rows := by
  have hd' : verify sampleRuntime sampleCut none =
      .ok (1, "e18f19e17df63efbab99132989a1f719da3016b0d4fa335418bda5fb0c23212f") := by
    decide +kernel
  have hsub : payloads sampleCut ⊆ payloads sampleLog :=
    List.filterMap_subset _ (by simp [sampleLog, sampleCut])
  exact rows_prefix_of_hashes (sample_collisionFree.mono
    (List.append_subset.2 ⟨List.Subset.refl _, hsub⟩)) sample_verify hd' (by decide)

end Audit

end MemoryBridge
