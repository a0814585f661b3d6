import MemoryBridge.AuditChain
import MemoryBridge.Recovery

/-!
# What a tampered store makes of the commands (`audit.verify`, `memory_admin.main`)

`verify` returns on the chains. On the other contents of `events` it raises a `ValueError`, which
`main` reports, with one exception: a BLOB in a column of an event has no JSON value. If the rows
before it are chained, `verify` comes to it, and the `TypeError` of `json.dumps` is none of the
errors that `main` handles.
-/

open Faults

namespace MemoryBridge

/-- A column of the event that is hashed holds a BLOB. -/
def Event.HasBlob (e : Event) : Prop :=
  ∃ b, Cell.blob b ∈ [e.timestamp, e.clientId, e.action, e.key, e.value]

/-! ## What verification raises -/

namespace Audit

variable {S : Type} {rt : Runtime S}

/-- The error of `json.dumps` on bytes. -/
def notSerializable : PyExc := .typeError "Object of type bytes is not JSON serializable"

theorem atoms_eq_none {e : Event} : atoms e = none ↔ e.HasBlob := by
  constructor
  · intro h
    by_contra hb
    have hatom (c : Cell) (hc : c ∈ [e.timestamp, e.clientId, e.action, e.key, e.value]) :
        ∃ a, atom c = some a := by
      cases c with
      | null => exact ⟨_, rfl⟩
      | text s => exact ⟨_, rfl⟩
      | blob b => exact (hb ⟨b, hc⟩).elim
    obtain ⟨a₁, h₁⟩ := hatom e.timestamp (by simp)
    obtain ⟨a₂, h₂⟩ := hatom e.clientId (by simp)
    obtain ⟨a₃, h₃⟩ := hatom e.action (by simp)
    obtain ⟨a₄, h₄⟩ := hatom e.key (by simp)
    obtain ⟨a₅, h₅⟩ := hatom e.value (by simp)
    simp [atoms, h₁, h₂, h₃, h₄, h₅] at h
  · rintro ⟨b, hb⟩
    cases has : atoms e with
    | none => rfl
    | some as =>
      obtain ⟨a₁, a₂, a₃, a₄, a₅, h₁, h₂, h₃, h₄, h₅, -⟩ := atoms_eq_some has
      simp only [List.mem_cons, List.not_mem_nil, or_false] at hb
      rcases hb with hb | hb | hb | hb | hb
      · simp [← hb, atom] at h₁
      · simp [← hb, atom] at h₂
      · simp [← hb, atom] at h₃
      · simp [← hb, atom] at h₄
      · simp [← hb, atom] at h₅

/-- After a text, the digest is defined on the events without a BLOB. -/
theorem digest_text (rt : Runtime S) (p : String) (e : Event) :
    (e.HasBlob ∧ digest rt (.text p) e = .error notSerializable) ∨
      (¬e.HasBlob ∧ ∃ s, digest rt (.text p) e = .ok s) := by
  by_cases h : e.HasBlob
  · refine .inl ⟨h, ?_⟩
    rw [digest, payload, atoms_eq_none.2 h]
    rfl
  · obtain ⟨as, has⟩ := Option.ne_none_iff_exists'.1 (mt atoms_eq_none.1 h)
    refine .inr ⟨h, rt.sha256 (AsciiJson.dumps (.str "mcp-memory-events-v1" :: .str p :: as)), ?_⟩
    rw [digest, payload, has]
    rfl

/-- An event of the rows has a BLOB, and the rows before it form a chain from the hash `p` on. -/
def BlobFrom (rt : Runtime S) (p : Cell) (rows : List EventRow) : Prop :=
  ∃ before row after, rows = before ++ row :: after ∧ ChainFrom rt p before ∧ row.event.HasBlob

theorem not_blobFrom_nil {p : Cell} : ¬BlobFrom rt p [] := by
  rintro ⟨before, row, after, h, -⟩
  simp at h

theorem blobFrom_cons {p : Cell} {r : EventRow} {rows : List EventRow} :
    BlobFrom rt p (r :: rows) ↔ r.event.HasBlob ∨ r.prevHash = p ∧
      (∃ s, digest rt p r.event = .ok s ∧ r.eventHash = .text s) ∧
      BlobFrom rt r.eventHash rows := by
  constructor
  · rintro ⟨before, row, after, h, hc, hb⟩
    cases before with
    | nil =>
      obtain ⟨rfl, -⟩ := List.cons.inj h
      exact .inl hb
    | cons r' before =>
      obtain ⟨rfl, hrows⟩ := List.cons.inj h
      obtain ⟨hp, hs, hc⟩ := chainFrom_cons.1 hc
      exact .inr ⟨hp, hs, before, row, after, hrows, hc, hb⟩
  · rintro (hb | ⟨hp, hs, before, row, after, h, hc, hb⟩)
    · exact ⟨[], r, rows, rfl, chainFrom_nil, hb⟩
    · exact ⟨r :: before, row, after, by rw [h, List.cons_append],
        chainFrom_cons.2 ⟨hp, hs, hc⟩, hb⟩

/-- The loop raises the error of `json.dumps` at such a BLOB, and a `ValueError` otherwise. -/
theorem verifyRows_eq_error {p : String} {n : ℕ} {rows : List EventRow} {e : PyExc}
    (h : verifyRows rt p n rows = .error e) :
    (∃ msg, e = .valueError msg) ∨ e = notSerializable ∧ BlobFrom rt (.text p) rows := by
  induction rows generalizing p n with
  | nil => simp [verifyRows] at h
  | cons r rows ih =>
    rw [verifyRows] at h
    rcases digest_text rt p r.event with ⟨hb, hd⟩ | ⟨-, s, hd⟩
    · obtain rfl : notSerializable = e := by simpa [hd, bind, Except.bind] using h
      exact .inr ⟨rfl, blobFrom_cons.2 (.inl hb)⟩
    · simp only [hd, bind, Except.bind] at h
      split at h
      case isTrue hne =>
        cases h
        exact .inl ⟨_, rfl⟩
      case isFalse hne =>
        obtain ⟨hp, hh⟩ := not_or.1 hne
        refine (ih h).imp_right fun hb => ⟨hb.1, blobFrom_cons.2 (.inr ⟨not_not.1 hp, ?_⟩)⟩
        rw [not_not.1 hh]
        exact ⟨⟨s, hd, rfl⟩, hb.2⟩

theorem verifyRows_of_blobFrom {p : String} {n : ℕ} {rows : List EventRow}
    (h : BlobFrom rt (.text p) rows) : verifyRows rt p n rows = .error notSerializable := by
  induction rows generalizing p n with
  | nil => exact (not_blobFrom_nil h).elim
  | cons r rows ih =>
    rw [verifyRows]
    rcases digest_text rt p r.event with ⟨-, hd⟩ | ⟨hn, s, hd⟩
    · rw [hd]
      rfl
    · obtain ⟨hp, ⟨s', hs', hh⟩, hb⟩ := (blobFrom_cons.1 h).resolve_left hn
      obtain rfl : s = s' := Except.ok.inj (hd.symm.trans hs')
      rw [hh] at hb
      simp only [hd, hp, hh, bind, Except.bind, ne_eq, not_true_eq_false, or_self, if_false]
      exact ih hb

/-- The verification of the store comes to a BLOB. -/
def MeetsBlob (rt : Runtime S) (d : Db) : Prop :=
  hasChain d = true ∧ BlobFrom rt (.text genesis) d.events.rows

theorem verify_of_meetsBlob {d : Db} (h : MeetsBlob rt d) (expectedHead : Option String) :
    verify rt d expectedHead = .error notSerializable := by
  rw [verify, if_neg (not_not.2 h.1), verifyRows_of_blobFrom h.2]
  rfl

theorem verify_eq_error {d : Db} {expectedHead : Option String} {e : PyExc}
    (h : verify rt d expectedHead = .error e) :
    (∃ msg, e = .valueError msg) ∨ e = notSerializable ∧ MeetsBlob rt d := by
  rw [verify_eq_bind] at h
  cases hv : verify rt d none with
  | ok r =>
    rw [hv] at h
    cases expectedHead with
    | none => cases h
    | some head =>
      simp only [expecting, bind, Except.bind] at h
      split at h
      case isTrue =>
        cases h
        exact .inl ⟨_, rfl⟩
      case isFalse => cases h
  | error e' =>
    obtain rfl : e' = e := by simpa [hv, bind, Except.bind] using h
    unfold verify at hv
    cases hc : hasChain d with
    | false =>
      simp only [hc, Bool.false_eq_true, not_false_eq_true, if_true] at hv
      cases hv
      exact .inl ⟨_, rfl⟩
    | true =>
      simp only [hc, not_true_eq_false, if_false] at hv
      cases hr : verifyRows rt genesis 0 d.events.rows with
      | ok r => simp [hr, bind, Except.bind] at hv
      | error x =>
        obtain rfl : x = e' := by simpa [hr, bind, Except.bind] using hv
        exact (verifyRows_eq_error hr).imp_right fun hb => ⟨hb.1, hc, hb.2⟩

end Audit

namespace Admin

/-! ## The commands -/

/-- `str(exc)` of the exceptions that `main` prints -/
def text : PyExc → String
  | .toolError msg => msg
  | .operationalError msg => msg
  | .integrityError msg => msg
  | .valueError msg => msg
  | .typeError msg => msg
  | .overflowError msg => msg
  | .other _ msg => msg

/-- `OSError`, `ValueError`, `sqlite3.Error` and `BadZipFile` with the classes below them, where
`PyExc` has no constructor for them. -/
def handledClasses : List String :=
  ["OSError", "BlockingIOError", "ChildProcessError", "ConnectionError", "BrokenPipeError",
    "ConnectionAbortedError", "ConnectionRefusedError", "ConnectionResetError", "FileExistsError",
    "FileNotFoundError", "InterruptedError", "IsADirectoryError", "NotADirectoryError",
    "PermissionError", "ProcessLookupError", "TimeoutError", "UnsupportedOperation",
    "UnicodeError", "UnicodeDecodeError", "UnicodeEncodeError", "UnicodeTranslateError",
    "JSONDecodeError", "Error", "InterfaceError", "DatabaseError", "DataError", "InternalError",
    "ProgrammingError", "NotSupportedError", "BadZipFile"]

/-- `except (OSError, ValueError, sqlite3.Error, BadZipFile)` -/
def handled : PyExc → Bool
  | .valueError _ => true
  | .operationalError _ => true
  | .integrityError _ => true
  | .other name _ => decide (name ∈ handledClasses)
  | .toolError _ => false
  | .typeError _ => false
  | .overflowError _ => false

variable {S : Type} (rt : Runtime S) (fmt : Formats)

/-- `_read_only`, with what its connection reads. SQLite opens the file at the first statement. -/
def readOnly (p : Path) : Tool Bytes :=
  .query fun fs =>
    match fs p with
    | some (.file bytes _) => .ok bytes
    | _ => .error (.operationalError "unable to open database file")

/-- `audit.verify` with an expected head, of a connection to a database file -/
def verifyExpecting (expectedHead : Option String) : Opened → Except PyExc (ℕ × String)
  | .store d => Audit.verify rt d expectedHead
  | .other verdict => verdict >>= Audit.expecting expectedHead

/-- The command `verify` -/
def verifyDatabase (database : Path) (expectedHead : Option String) : Tool (ℕ × String) := do
  let bytes ← readOnly database
  Faulty.query fun _ => .ok () -- `BEGIN`
  Faulty.query fun _ => verifyExpecting rt expectedHead (fmt.opened bytes)

/-- The arguments of `main`, with what its environment decides: the file that the backup API copies
and the names of the temporary directories. -/
inductive Command (fmt : Formats)
  | verify (database : Path) (expectedHead : Option String)
  | backup (database : Source fmt) (archive : Path) (tempName : String)
  | restore (archive database : Path) (tempName : String)

variable {fmt}

namespace Command

/-- `args.command` -/
def name : Command fmt → String
  | verify .. => "verify"
  | backup .. => "backup"
  | restore .. => "restore"

/-- What `main` tries. -/
def run : Command fmt → Tool (ℕ × String)
  | verify database expectedHead => verifyDatabase rt fmt database expectedHead
  | backup database archive tempName => Admin.backup rt fmt database archive tempName
  | restore archive database tempName => Admin.restore rt fmt archive database tempName

end Command

inductive Stream
  | stdout
  | stderr
  deriving DecidableEq

/-- The line that `main` prints and what it returns. -/
structure Exit where
  stream : Stream
  line : String
  code : ℕ
  deriving DecidableEq

/-- `f"{args.command} OK | events={count} | head={head}"` -/
def okExit (command : String) (r : ℕ × String) : Exit :=
  ⟨.stdout, command ++ " OK | events=" ++ toString r.1 ++ " | head=" ++ r.2, 0⟩

/-- `f"{args.command} failed: {exc}"` -/
def failedExit (command : String) (exc : PyExc) : Exit :=
  ⟨.stderr, command ++ " failed: " ++ text exc, 1⟩

/-- `main`, with the arguments parsed. -/
def main (c : Command fmt) : Tool Exit := do
  let result ← (c.run rt).attempt handled
  match result with
  | .error exc => pure (failedExit c.name exc)
  | .ok r => pure (okExit c.name r)

/-! ## Programs that raise what `main` handles -/

/-- The environment lets the step go, or makes it fail with an error that `main` handles. -/
def Reportable : Fate PyExc Damage → Prop
  | .go => True
  | .fail e _ => handled e = true
  | .crash _ => False

/-- With such fates, `m` gives a result that satisfies `R` or raises what `main` handles. -/
def Handles {α : Type} (m : Tool α) (fs : Files) (R : α → Files → Prop) : Prop :=
  m.wpAmong Reportable fs ⟨R, fun e _ => handled e = true, fun _ => False⟩

section Handles

variable {α β : Type} {m : Tool α} {fs : Files} {R : α → Files → Prop} {p : Path} {bytes : Bytes}

theorem Handles.mono {R' : α → Files → Prop} (h : Handles m fs R)
    (hR : ∀ a fs', R a fs' → R' a fs') : Handles m fs R' :=
  Faulty.wpAmong_mono h hR (fun _ _ he => he) fun _ hc => hc

theorem handles_pure {a : α} (h : R a fs) : Handles (pure a) fs R := Faulty.wpAmong_pure h

theorem handles_raise {e : PyExc} (he : handled e = true) :
    Handles (Faulty.raise e : Tool α) fs R := Faulty.wpAmong_raise he

theorem handles_bind {f : α → Tool β} {R : β → Files → Prop}
    (h : Handles m fs fun a fs' => Handles (f a) fs' R) : Handles (m >>= f) fs R :=
  Faulty.wpAmong_bind h

theorem handles_step {run : Files → Except PyExc (α × Files)} {torn : Damage → Files → Files}
    (hok : ∀ a fs', run fs = .ok (a, fs') → R a fs')
    (herror : ∀ e, run fs = .error e → handled e = true) : Handles (.step run torn) fs R :=
  Faulty.wpAmong_step hok herror (fun _ _ he => he) fun _ hc => hc.elim

theorem handles_query {f : Files → Except PyExc α} (hok : ∀ a, f fs = .ok a → R a fs)
    (herror : ∀ e, f fs = .error e → handled e = true) : Handles (.query f) fs R :=
  Faulty.wpAmong_query hok herror (fun _ _ he => he) fun _ hc => hc.elim

/-- All errors of the steps on files are handled. -/
theorem mayFail_handles :
    MayFail Reportable ⟨R, fun e _ => handled e = true, fun _ => False⟩ fs where
  own name hname p := by
    have hsub : fileErrors ⊆ handledClasses := by decide
    exact decide_eq_true (hsub hname)
  fail _ _ he := he
  crash _ hc := hc

theorem handles_readFile {R : Bytes → Files → Prop}
    (hok : ∀ bytes mode, fs p = some (.file bytes mode) → R bytes fs) :
    Handles (readFile p) fs R := wpAmong_readFile mayFail_handles hok

variable {R : Unit → Files → Prop}

theorem handles_writeFile
    (hok : ∀ mode, R () (Function.update fs p (some (.file bytes mode)))) :
    Handles (writeFile p bytes) fs R := wpAmong_writeFile (fun _ _ => mayFail_handles) hok

theorem handles_createFile (hok : R () (Function.update fs p (some (.file [] .byUmask)))) :
    Handles (createFile p) fs R := wpAmong_createFile mayFail_handles hok

theorem handles_publish {staged destination : Path} (hok : ∀ fs', R () fs') :
    Handles (publish staged destination) fs R := by
  refine handles_bind (wpAmong_chmod mayFail_handles fun _ _ _ => ?_)
  refine handles_bind (handles_bind (handles_readFile fun _ _ _ => handles_pure ?_))
  exact wpAmong_link mayFail_handles fun _ _ _ _ => hok _

theorem handles_removeTree {temp : Path} (hok : ∀ fs', R () fs') :
    Handles (removeTree temp) fs R :=
  handles_step (fun _ fs' _ => hok fs') fun e h => by cases h

theorem handles_temporaryDirectory {dir : List String} {name : String} {body : Path → Tool α}
    {R : α → Prop}
    (hbody : fs ⟨dir, name⟩ = none →
      Handles (body ⟨dir, name⟩) (Function.update fs ⟨dir, name⟩ (some .directory))
        fun a _ => R a) :
    Handles (temporaryDirectory dir name body) fs fun a _ => R a := by
  refine handles_bind (wpAmong_mkdtemp mayFail_handles fun hfree => ?_)
  refine Faulty.wpAmong_ensuring (Faulty.wpAmong_mono (hbody hfree) ?_ ?_ fun _ hc => hc)
  · exact fun a _ ha => handles_removeTree fun _ => ha
  · exact fun e _ he => handles_removeTree fun _ => he

theorem handles_refuseSidecars {destination : Path} {suffixes : List String} (hok : R () fs) :
    Handles (refuseSidecars destination suffixes) fs R :=
  wpAmong_refuseSidecars (fun _ => hok) fun _ => rfl

end Handles

/-! ## The commands on a store -/

section Commands

variable {S : Type} {rt : Runtime S} {fmt : Formats} {d : Db} {fs : Files} {p : Path}

/-- The ZIP file has a database that holds `d` and a checksum. -/
def Archives (fmt : Formats) (file : Bytes) (d : Db) : Prop :=
  ∃ bundle data sum, fmt.unzip file = .ok bundle ∧ ⟨"memory.db", .ok data⟩ ∈ bundle ∧
    ⟨"memory.db.sha256", .ok sum⟩ ∈ bundle ∧ fmt.opened data = .store d

/-- The database that the command verifies holds `d`. -/
def Command.Reads (d : Db) (fs : Files) : Command fmt → Prop
  | verify database _ =>
    ∃ bytes mode, fs database = some (.file bytes mode) ∧ fmt.opened bytes = .store d
  | backup database _ _ => fmt.opened database.image = .store d
  | restore archive _ _ => ∃ file mode, fs archive = some (.file file mode) ∧ Archives fmt file d

/-- `main` says that the command was OK, with the length and the head of the chain of `d`, and
returns 0, or it says that the command failed and returns 1. -/
inductive Announced (rt : Runtime S) (d : Db) (command : String) : Exit → Prop
  | ok (head : String) (chained : Audit.Chained rt d)
      (hhead : Audit.headFrom (.text Audit.genesis) d.events.rows = .text head) :
      Announced rt d command (okExit command (d.events.rows.length, head))
  | failed (exc : PyExc) (h : handled exc = true) :
      Announced rt d command (failedExit command exc)

/-- A store without such a BLOB is verified, or `verify` raises what `main` handles. -/
theorem verify_handled (hd : ¬Audit.MeetsBlob rt d) {expectedHead : Option String} {e : PyExc}
    (h : Audit.verify rt d expectedHead = .error e) : handled e = true := by
  rcases Audit.verify_eq_error h with ⟨msg, rfl⟩ | ⟨-, hb⟩
  · rfl
  · exact (hd hb).elim

theorem verify_none {expectedHead : Option String} {r : ℕ × String}
    (h : Audit.verify rt d expectedHead = .ok r) : Audit.verify rt d none = .ok r := by
  cases expectedHead with
  | none => exact h
  | some head => exact (Audit.verify_some_eq_ok.1 h).1

theorem handles_verifyDatabase {bytes : Bytes} {mode : Mode} (hd : ¬Audit.MeetsBlob rt d)
    (hfile : fs p = some (.file bytes mode)) (hopened : fmt.opened bytes = .store d)
    (expectedHead : Option String) :
    Handles (verifyDatabase rt fmt p expectedHead) fs fun r _ =>
      Audit.verify rt d none = .ok r := by
  refine handles_bind (handles_query (fun bytes' h => ?_) fun e h => ?_)
  · obtain rfl : bytes = bytes' := by simpa [hfile] using h
    refine handles_bind (handles_query (fun _ _ => ?_) fun e h => by cases h)
    refine handles_query (fun r h => ?_) fun e h => ?_
    · rw [hopened] at h
      exact verify_none h
    · rw [hopened] at h
      exact verify_handled hd h
  · simp [hfile] at h

variable (hcheck : ∀ bytes e, fmt.integrityCheck bytes = .error e → handled e = true)
include hcheck

theorem handles_checkDatabase {bytes : Bytes} {mode : Mode} (hd : ¬Audit.MeetsBlob rt d)
    (hfile : fs p = some (.file bytes mode)) (hopened : fmt.opened bytes = .store d) :
    Handles (checkDatabase rt fmt p) fs fun r fs' =>
      fs' = fs ∧ Audit.verify rt d none = .ok r := by
  refine handles_bind (handles_readFile fun bytes' mode' hf => ?_)
  obtain ⟨rfl, -⟩ : bytes = bytes' ∧ mode = mode' := by simpa [hfile] using hf
  refine handles_bind (handles_query (fun rows _ => ?_) (hcheck bytes))
  show Handles (ite _ _ _) fs _
  have hverify : verifyOpened rt (fmt.opened bytes) = Audit.verify rt d none := by
    rw [hopened, verifyOpened]
  split
  · exact handles_raise rfl
  · rw [hverify]
    exact handles_query (fun r h => ⟨rfl, h⟩) fun e h => verify_handled hd h

theorem handles_backupIn (source : Source fmt) (hd : ¬Audit.MeetsBlob rt d)
    (hopened : fmt.opened source.image = .store d) (archive temp : Path) :
    Handles (backupIn rt fmt source archive temp) fs fun r _ =>
      Audit.verify rt d none = .ok r := by
  refine handles_bind (handles_writeFile fun mode => ?_)
  refine handles_bind ((handles_checkDatabase hcheck hd (Function.update_self _ _ _)
    hopened).mono ?_)
  rintro r _ ⟨rfl, hr⟩
  refine handles_bind (handles_writeFile fun _ => handles_bind (handles_readFile fun _ _ _ => ?_))
  refine handles_bind (handles_bind (handles_readFile fun _ _ _ => handles_pure ?_))
  exact handles_bind (handles_writeFile fun _ =>
    handles_bind (handles_publish fun _ => handles_pure hr))

omit hcheck in
theorem handles_openMember {bundle : List Member} {m : Member} {R : Member → Files → Prop}
    (hnodup : (bundle.map Member.name).Nodup) (hm : m ∈ bundle) (hok : R m fs) :
    Handles (openMember bundle m.name) fs R := by
  refine handles_query (fun m' h => ?_) fun e h => ?_
  · rw [find_member hnodup hm] at h
    obtain rfl := Except.ok.inj h
    exact hok
  · rw [find_member hnodup hm] at h
    cases h

theorem handles_restoreIn {archive destination temp : Path} {file : Bytes} {mode : Mode}
    (hd : ¬Audit.MeetsBlob rt d) (harchive : fs archive = some (.file file mode))
    (h : Archives fmt file d) :
    Handles (restoreIn rt fmt archive destination temp) fs fun r _ =>
      Audit.verify rt d none = .ok r := by
  obtain ⟨bundle, data, sum, hbundle, hdata, hsum, hopened⟩ := h
  -- the archive and its members
  refine handles_bind (handles_readFile fun file' mode' hf => ?_)
  obtain ⟨rfl, -⟩ : file = file' ∧ mode = mode' := by simpa [harchive] using hf
  refine handles_bind (handles_query (fun bundle' h => ?_) fun e h => ?_)
  swap
  · rw [hbundle] at h
    cases h
  obtain rfl : bundle = bundle' := Except.ok.inj (hbundle.symm.trans h)
  show Handles (ite _ _ _) fs _
  by_cases hnames : (bundle.map Member.name).insertionSort (· ≤ ·) ≠ memberNames
  · rw [if_pos hnames]
    exact handles_raise rfl
  rw [if_neg hnames]
  have hperm : (bundle.map Member.name).Perm memberNames := by
    rw [← not_not.1 hnames]
    exact (List.perm_insertionSort _ _).symm
  have hnodup : (bundle.map Member.name).Nodup := hperm.symm.nodup (by decide)
  refine handles_bind (handles_openMember (m := ⟨"memory.db.sha256", .ok sum⟩) hnodup hsum ?_)
  refine handles_bind (handles_query (fun sum' _ => ?_) fun e h => by cases h)
  refine handles_bind (handles_openMember (m := ⟨"memory.db", .ok data⟩) hnodup hdata ?_)
  -- the staged file
  refine handles_bind (handles_createFile ?_)
  refine handles_bind (handles_query (fun data' h => ?_) fun e h => by cases h)
  obtain rfl : data = data' := Except.ok.inj h
  refine handles_bind (handles_writeFile fun mode' => ?_)
  refine handles_bind (handles_bind (handles_readFile fun _ _ _ => handles_pure ?_))
  show Handles (ite _ _ _) _ _
  split
  · exact handles_raise rfl
  refine handles_bind ((handles_checkDatabase hcheck hd (Function.update_self _ _ _)
    hopened).mono ?_)
  rintro r _ ⟨rfl, hr⟩
  exact handles_bind (handles_publish fun _ => handles_pure hr)

/-- What a command tries: on a store without such a BLOB it gives the length and the head of the
chain, or raises what `main` handles. -/
theorem handles_run (hd : ¬Audit.MeetsBlob rt d) {c : Command fmt} (hc : c.Reads d fs) :
    Handles (c.run rt) fs fun r _ => Audit.verify rt d none = .ok r := by
  cases c with
  | verify database expectedHead =>
    obtain ⟨bytes, mode, hfile, hopened⟩ := hc
    exact handles_verifyDatabase hd hfile hopened expectedHead
  | backup source archive tempName =>
    exact handles_temporaryDirectory fun _ => handles_backupIn hcheck source hd hc _ _
  | restore archive destination tempName =>
    obtain ⟨file, mode, harchive, h⟩ := hc
    refine handles_bind (handles_refuseSidecars (handles_temporaryDirectory fun hfree => ?_))
    have hne : archive ≠ ⟨destination.dir, tempName⟩ := by
      rintro rfl
      rw [hfree] at harchive
      cases harchive
    exact handles_restoreIn hcheck hd ((Function.update_of_ne hne _ _).trans harchive) h

theorem wpAmong_main (hd : ¬Audit.MeetsBlob rt d) {c : Command fmt} (hc : c.Reads d fs) :
    (main rt c).wpAmong Reportable fs
      ⟨fun exit _ => Announced rt d c.name exit, fun _ _ => False, fun _ => False⟩ := by
  refine Faulty.wpAmong_bind (Faulty.wpAmong_attempt
    (Faulty.wpAmong_mono (handles_run hcheck hd hc) ?_ ?_ fun _ hc => hc))
  · rintro ⟨n, head⟩ fs' hr
    obtain ⟨hchained, rfl, hhead⟩ := Audit.verify_eq_ok.1 hr
    exact Faulty.wpAmong_pure (.ok head hchained hhead)
  · intro e fs' he
    have he : handled e = true := he
    show ite _ _ _
    rw [if_pos he]
    exact Faulty.wpAmong_pure (.failed e he)

end Commands

/-! ## Which contents are reported -/

section Reports

variable {S : Type}

/-- Verification reports on a store with the contents `d`, and nothing else comes of it. -/
structure Reports (rt : Runtime S) (fmt : Formats) (d : Db) : Prop where
  /-- `audit.verify` returns, and then the hashes are those of the chain, or raises what `main`
  handles. -/
  verify : ∀ expectedHead, match Audit.verify rt d expectedHead with
    | .ok _ => Audit.Chained rt d
    | .error exc => handled exc = true
  /-- A command that verifies the store prints that it was OK or that it failed, and returns 0 or 1,
  even if its steps fail with errors that `main` handles. -/
  main : ∀ (c : Command fmt) (fs : Files), c.Reads d fs → ∀ fates, (∀ f ∈ fates, Reportable f) →
    ∃ exit, (main rt c fates fs).1 = .ok exit ∧ Announced rt d c.name exit

/-- If none of its steps fails, the command `verify` of a store with such a BLOB ends with the
`TypeError`. -/
theorem main_verify_of_meetsBlob {rt : Runtime S} {fmt : Formats} {d : Db} {fs : Files} {p : Path}
    {bytes : Bytes} {mode : Mode} (hd : Audit.MeetsBlob rt d)
    (hfile : fs p = some (.file bytes mode)) (hopened : fmt.opened bytes = .store d)
    (expectedHead : Option String) {fates : List (Fate PyExc Damage)}
    (hfates : ∀ f ∈ fates, f = .go) :
    (main rt (.verify p expectedHead : Command fmt) fates fs).1 =
      .raised Audit.notSerializable := by
  have hverify : verifyExpecting rt expectedHead (fmt.opened bytes) =
      .error Audit.notSerializable := by
    rw [hopened, verifyExpecting, Audit.verify_of_meetsBlob hd]
  suffices h : (main rt (.verify p expectedHead : Command fmt)).wpAmong (· = .go) fs
      ⟨fun _ _ => False, fun e _ => e = Audit.notSerializable, fun _ => False⟩ by
    have hout := (h fates hfates).1
    revert hout
    cases (main rt (.verify p expectedHead : Command fmt) fates fs).1 with
    | ok exit => exact fun h => h.elim
    | raised e => exact fun h => congrArg Outcome.raised h
    | crashed => exact fun h => h.elim
  refine Faulty.wpAmong_bind (Faulty.wpAmong_attempt ?_)
  -- the file, `BEGIN`, the verification
  refine Faulty.wpAmong_bind (Faulty.wpAmong_query (fun bytes' h => ?_) (fun e h => ?_)
    (fun _ _ h => by cases h) fun _ h => by cases h)
  · obtain rfl : bytes = bytes' := by simpa [hfile] using h
    refine Faulty.wpAmong_bind (Faulty.wpAmong_query (fun _ _ => ?_) (fun _ h => by cases h)
      (fun _ _ h => by cases h) fun _ h => by cases h)
    rw [hverify]
    refine Faulty.wpAmong_query (fun _ h => by cases h) (fun e h => ?_) (fun _ _ h => by cases h)
      fun _ h => by cases h
    obtain rfl := Except.error.inj h
    rfl
  · simp [hfile] at h

/-- **Tampering is reported unless verification comes to a BLOB.** -/
theorem reports_iff (rt : Runtime S) (fmt : Formats) (d : Db)
    (hcheck : ∀ bytes e, fmt.integrityCheck bytes = .error e → handled e = true) :
    Reports rt fmt d ↔ ¬Audit.MeetsBlob rt d := by
  constructor
  · intro h hd
    have := h.verify none
    rw [Audit.verify_of_meetsBlob hd] at this
    cases this
  · intro hd
    refine ⟨fun expectedHead => ?_, fun c fs hc fates hfates => ?_⟩
    · cases hv : Audit.verify rt d expectedHead with
      | ok r => exact (Audit.verify_eq_ok.1 (verify_none hv)).1
      | error e => exact verify_handled hd hv
    · have hmain : Faulty.wpAmong _ (Admin.main rt c) fs _ := wpAmong_main hcheck hd hc
      have hout := (hmain fates hfates).1
      revert hout
      cases (Admin.main rt c fates fs).1 with
      | ok exit => exact fun h => ⟨exit, rfl, h⟩
      | raised e => exact fun h => h.elim
      | crashed => exact fun h => h.elim

end Reports

/-! ## A BLOB in the log -/

/-- The event by which alice sets a key, after someone has stored its value as a BLOB. -/
def sampleTampered : Db where
  facts := ∅
  embeddings := ∅
  events := ⟨[{ Audit.sampleSet with
    event := { Audit.sampleSet.event with value := .blob [118] } }], some 1, by decide, by decide⟩
  prevHashColumn := true
  eventHashColumn := true
  requireHash := false

/-- A database of three pages with this event. -/
def tamperedDatabase : Bytes :=
  Http.encodeAscii "SQLite format 3" ++ [0, 2, 0, 1, 1, 0, 64, 32, 32, 0, 0, 0, 2, 0, 0, 0, 3] ++
    List.replicate 11 0 ++ [1, 0, 0, 0, 4] ++ List.replicate 11 0 ++ [1] ++ List.replicate 35 0 ++
    [2, 0, 46, 122, 112, 13, 0, 0, 0, 2, 0, 252, 0, 1, 78, 0, 252] ++ List.replicate 140 0 ++
    [80, 2, 6, 23, 43, 43, 1, 89] ++ Http.encodeAscii "tablesqlite_sequencesqlite_sequence" ++
    [3] ++ Http.encodeAscii "CREATE TABLE sqlite_sequence(name,seq)" ++
    [129, 47, 1, 7, 23, 25, 25, 1, 130, 57] ++ Http.encodeAscii "tableeventsevents" ++ [2] ++
    Http.encodeAscii "CREATE TABLE events(id INTEGER PRIMARY KEY AUTOINCREMENT," ++
    Http.encodeAscii "timestamp TEXT,client_id TEXT,action TEXT,key TEXT,value TEXT," ++
    Http.encodeAscii "prev_hash TEXT,event_hash TEXT)" ++
    [13, 0, 0, 0, 1, 1, 80, 0, 1, 80] ++ List.replicate 326 0 ++
    [129, 45, 1, 11, 0, 61, 23, 19, 15, 14, 129, 13, 129, 13] ++
    Http.encodeAscii "2026-01-01T00:00:00.000Zalicesetkv" ++ List.replicate 64 48 ++
    Http.encodeAscii "e18f19e17df63efbab99132989a1f719da3016b0d4fa335418bda5fb0c23212f" ++
    [13, 0, 0, 0, 1, 1, 245, 0, 1, 245] ++ List.replicate 491 0 ++ [9, 1, 3, 25, 9] ++
    Http.encodeAscii "events"

def tamperedDigest : String := "033a072040e573a78ff9d9aecba28fbae4f4a5aa941e345e34afaa140ee19d6f"

/-- The real functions on that database, besides the archive and the database of `sampleFormats`. -/
def tamperedFormats : Formats where
  fileDigest b := if b = tamperedDatabase then tamperedDigest else sampleFormats.fileDigest b
  unzip := sampleFormats.unzip
  zip := sampleFormats.zip
  integrityCheck b :=
    if b = tamperedDatabase then .ok ["ok"] else sampleFormats.integrityCheck b
  opened b := if b = tamperedDatabase then .store sampleTampered else sampleFormats.opened b

theorem tamperedFormats_integrityCheck (bytes : Bytes) (e : PyExc)
    (h : tamperedFormats.integrityCheck bytes = .error e) : handled e = true := by
  simp only [tamperedFormats, sampleFormats] at h
  split at h
  · cases h
  · split at h
    · cases h
    · obtain rfl := Except.error.inj h
      rfl

/-- The file of the server. -/
def samplePath : Path := ⟨["data"], "memory.db"⟩

def tamperedFiles : Files := fun p =>
  if p = samplePath then some (.file tamperedDatabase .byUmask) else none

theorem sampleTampered_meetsBlob : Audit.MeetsBlob (.tabulated []) sampleTampered :=
  ⟨rfl, [], _, [], rfl, Audit.chainFrom_nil, [118], by decide⟩

/-- This database. -/
theorem reports_iff_sample : Reports (.tabulated []) tamperedFormats sampleTampered ↔
    ¬Audit.MeetsBlob (.tabulated []) sampleTampered :=
  reports_iff (.tabulated []) tamperedFormats sampleTampered tamperedFormats_integrityCheck

/-- **A BLOB that ends verification with an uncaught error.** The rows of the store are one event
with a BLOB as its value. `audit.verify` raises a `TypeError`, and so does the command `verify` of
the file. -/
theorem blob_not_reported :
    Audit.verify (.tabulated []) sampleTampered none =
        .error (.typeError "Object of type bytes is not JSON serializable") ∧
      handled (.typeError "Object of type bytes is not JSON serializable") = false ∧
      (main (.tabulated []) (.verify samplePath none : Command tamperedFormats) []
        tamperedFiles).1 = .raised (.typeError "Object of type bytes is not JSON serializable") ∧
      ¬Reports (.tabulated []) tamperedFormats sampleTampered := by
  have hfile : tamperedFiles samplePath = some (.file tamperedDatabase .byUmask) := by
    simp only [tamperedFiles, if_true]
  have hopened : tamperedFormats.opened tamperedDatabase = .store sampleTampered := by
    simp only [tamperedFormats, if_true]
  have hverify : Audit.verify (.tabulated []) sampleTampered none =
      .error (.typeError "Object of type bytes is not JSON serializable") :=
    Audit.verify_of_meetsBlob sampleTampered_meetsBlob none
  have hmain : (main (.tabulated []) (.verify samplePath none : Command tamperedFormats) []
      tamperedFiles).1 = .raised Audit.notSerializable :=
    main_verify_of_meetsBlob sampleTampered_meetsBlob hfile hopened none (by simp)
  refine ⟨hverify, rfl, hmain, fun h => ?_⟩
  have := h.verify none
  rw [hverify] at this
  cases this

end Admin

end MemoryBridge
