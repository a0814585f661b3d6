import MemoryBridge.Audit
import MemoryBridge.Foundations.Faults
import MemoryBridge.Http
import Mathlib.Data.List.Sort

/-!
# Backup and restore (`tools/memory_admin.py`)

Both commands prepare a file in a temporary directory beside the name it is for and publish it with
a hard link. They are programs over the files of the machine; each of their steps may fail, and the
process may die in it. The formats of ZIP files and of databases are parameters (`Formats`).
-/

open Faults

namespace MemoryBridge.Admin

/-! ## Files -/

structure Path where
  dir : List String
  name : String
  deriving DecidableEq

namespace Path

/-- `f"{p}{suffix}"` -/
def suffixed (p : Path) (suffix : String) : Path := { p with name := p.name ++ suffix }

/-- `p / name` -/
def child (p : Path) (name : String) : Path := ⟨p.dir ++ [p.name], name⟩

/-- `p` is `root` or in the tree below it. -/
def IsIn (p root : Path) : Prop := p = root ∨ root.dir ++ [root.name] <+: p.dir

instance (p root : Path) : Decidable (p.IsIn root) := inferInstanceAs (Decidable (_ ∨ _))

def text (p : Path) : String := "/" ++ "/".intercalate (p.dir ++ [p.name])

end Path

inductive Mode
  | byUmask
  /-- `0o600` -/
  | ownerOnly
  deriving DecidableEq

/-- What a name stands for. -/
inductive Entry
  | file (bytes : Bytes) (mode : Mode)
  | directory
  /-- A device, a socket, a dangling link. -/
  | special
  deriving DecidableEq

abbrev Files : Type := Path → Option Entry

/-- What an interrupted step leaves: the contents of the file it writes, the entries that it has
removed. -/
structure Damage where
  written : Bytes
  removed : Path → Bool

/-- A program of the tool. -/
abbrev Tool (α : Type) : Type := Faulty Files PyExc Damage α

def osError (name : String) (p : Path) : PyExc := .other name p.text

/-- `os.path.lexists` -/
def lexists (p : Path) : Tool Bool := .look fun fs => (fs p).isSome

/-- The bytes of a file. -/
def readFile (p : Path) : Tool Bytes :=
  .query fun fs =>
    match fs p with
    | some (.file bytes _) => .ok bytes
    | some _ => .error (osError "OSError" p)
    | none => .error (osError "FileNotFoundError" p)

/-- A file written, which keeps its mode if it is there. -/
def writeFile (p : Path) (bytes : Bytes) : Tool Unit :=
  let put (content : Bytes) (fs : Files) : Files :=
    match fs p with
    | some (.file _ mode) => Function.update fs p (some (.file content mode))
    | _ => Function.update fs p (some (.file content .byUmask))
  .step (fun fs => .ok ((), put bytes fs)) fun d => put d.written

/-- `p.open("xb")` -/
def createFile (p : Path) : Tool Unit :=
  .step
    (fun fs =>
      if (fs p).isSome then .error (osError "FileExistsError" p)
      else .ok ((), Function.update fs p (some (.file [] .byUmask))))
    fun _ fs => fs

/-- `p.chmod(0o600)` -/
def chmod (p : Path) : Tool Unit :=
  .step
    (fun fs =>
      match fs p with
      | some (.file bytes _) => .ok ((), Function.update fs p (some (.file bytes .ownerOnly)))
      | some _ => .error (osError "OSError" p)
      | none => .error (osError "FileNotFoundError" p))
    fun _ fs => fs

/-- `os.fsync` of the file -/
def fsync (p : Path) : Tool Unit := do
  let _ ← readFile p
  pure ()

/-- `os.link(src, dst)` -/
def link (src dst : Path) : Tool Unit :=
  .step
    (fun fs =>
      match fs src with
      | some (.file bytes mode) =>
        if (fs dst).isSome then .error (osError "FileExistsError" dst)
        else .ok ((), Function.update fs dst (some (.file bytes mode)))
      | some _ => .error (osError "PermissionError" src)
      | none => .error (osError "FileNotFoundError" src))
    fun _ fs => fs

def mkdtemp (temp : Path) : Tool Unit :=
  .step
    (fun fs =>
      if (fs temp).isSome then .error (osError "FileExistsError" temp)
      else .ok ((), Function.update fs temp (some .directory)))
    fun _ fs => fs

/-- The removal of a directory with all that is in it. -/
def removeTree (temp : Path) : Tool Unit :=
  .step (fun fs => .ok ((), fun p => if p.IsIn temp then none else fs p))
    fun d fs p => if p.IsIn temp ∧ d.removed p then none else fs p

/-- `with TemporaryDirectory(dir=dir) as temp: body(temp)`, where `mkdtemp` picks the name. -/
def temporaryDirectory {α : Type} (dir : List String) (name : String) (body : Path → Tool α) :
    Tool α := do
  let temp : Path := ⟨dir, name⟩
  mkdtemp temp
  (body temp).ensuring (removeTree temp)

/-! ## Formats -/

/-- A member of a ZIP file; reading it may raise. -/
structure Member where
  name : String
  data : Except PyExc Bytes

/-- What a connection finds in a database file. -/
inductive Opened
  /-- The tables of the server. -/
  | store (d : Db)
  /-- No database, or other tables, with what `audit.verify` makes of them. -/
  | other (verdict : Except PyExc (ℕ × String))

/-- The functions outside the repository. -/
structure Formats where
  /-- `hashlib.file_digest(file, "sha256").hexdigest()` -/
  fileDigest : Bytes → String
  /-- The members of a ZIP file in the order of its directory, if the bytes are one. -/
  unzip : Bytes → Except PyExc (List Member)
  /-- The ZIP file with the given members. -/
  zip : List (String × Bytes) → Bytes
  /-- The rows of `PRAGMA integrity_check` on a database file. -/
  integrityCheck : Bytes → Except PyExc (List String)
  opened : Bytes → Opened

/-- What the tool relies on. -/
structure Formats.Lawful (fmt : Formats) : Prop where
  /-- A hex digest of 256 bits. -/
  length_fileDigest : ∀ b, (fmt.fileDigest b).length = 64
  /-- The members that were written into a ZIP file are read from it. -/
  unzip_zip : ∀ db sum, fmt.unzip (fmt.zip [("memory.db", db), ("memory.db.sha256", sum)]) =
    .ok [⟨"memory.db", .ok db⟩, ⟨"memory.db.sha256", .ok sum⟩]

variable {S : Type} (rt : Runtime S) (fmt : Formats)

/-- `audit.verify` of a connection to a database file -/
def verifyOpened : Opened → Except PyExc (ℕ × String)
  | .store d => Audit.verify rt d none
  | .other verdict => verdict

/-- `_checksum` -/
def checksum (p : Path) : Tool String := do
  let bytes ← readFile p
  pure (fmt.fileDigest bytes)

/-- `_check_database`: both statements read the file. -/
def checkDatabase (p : Path) : Tool (ℕ × String) := do
  let bytes ← readFile p
  let rows ← Faulty.query fun _ => fmt.integrityCheck bytes
  if rows ≠ ["ok"] then Faulty.raise (.valueError "SQLite integrity check failed")
  else Faulty.query fun _ => verifyOpened rt (fmt.opened bytes)

/-- `_publish` -/
def publish (staged destination : Path) : Tool Unit := do
  chmod staged
  fsync staged
  link staged destination

/-! ## Restore -/

/-- The loop over the suffixes of SQLite's sidecars. -/
def refuseSidecars (destination : Path) : List String → Tool Unit
  | [] => pure ()
  | suffix :: rest => do
    let present ← lexists (destination.suffixed suffix)
    if present then
      Faulty.raise (.other "FileExistsError"
        ("SQLite sidecar already exists: " ++ (destination.suffixed suffix).text))
    else refuseSidecars destination rest

def sidecars : List String := ["-wal", "-shm", "-journal"]

/-- `bundle.open(name)`: the last member with that name. -/
def openMember (bundle : List Member) (name : String) : Tool Member :=
  .query fun _ =>
    match bundle.reverse.find? (·.name = name) with
    | some member => .ok member
    | none => .error (.other "KeyError" name)

/-- What reading a member gives. -/
def readMember (member : Member) : Tool Bytes := .query fun _ => member.data

/-- `["memory.db", "memory.db.sha256"]` -/
def memberNames : List String := ["memory.db", "memory.db.sha256"]

/-- `restore`, inside the temporary directory. -/
def restoreIn (archive destination temp : Path) : Tool (ℕ × String) := do
  let staged := temp.child "memory.db"
  let file ← readFile archive
  let bundle ← Faulty.query fun _ => fmt.unzip file
  if (bundle.map Member.name).insertionSort (· ≤ ·) ≠ memberNames then
    Faulty.raise (.valueError "unexpected backup archive contents")
  else do
    let sum ← openMember bundle "memory.db.sha256"
    let sum ← readMember sum
    let expected := sum.take 66
    let src ← openMember bundle "memory.db"
    createFile staged
    let data ← readMember src
    writeFile staged data
    let actual ← checksum fmt staged
    if expected ≠ Http.encodeAscii (actual ++ "\n") then
      Faulty.raise (.valueError "backup SHA-256 checksum mismatch")
    else do
      let result ← checkDatabase rt fmt staged
      publish staged destination
      pure result

/-- `restore`, with the name that its temporary directory gets. -/
def restore (archive destination : Path) (tempName : String) : Tool (ℕ × String) := do
  refuseSidecars destination sidecars
  temporaryDirectory destination.dir tempName (restoreIn rt fmt archive destination)

/-! ## Backup -/

/-- A store that other processes write to while a backup reads it. The states that are committed
meanwhile are `committed`; SQLite's backup API copies one of them. -/
structure Source (fmt : Formats) where
  committed : Db → Prop
  /-- The file that the backup API leaves, after `PRAGMA journal_mode=DELETE`. -/
  image : Bytes
  copies : ∃ d, committed d ∧ fmt.opened image = .store d

/-- `backup`, inside the temporary directory. -/
def backupIn (source : Source fmt) (archive temp : Path) : Tool (ℕ × String) := do
  let snapshot := temp.child "memory.db"
  writeFile snapshot source.image
  let result ← checkDatabase rt fmt snapshot
  let staged := temp.child "backup.zip"
  writeFile staged []
  let db ← readFile snapshot
  let sum ← checksum fmt snapshot
  writeFile staged (fmt.zip [("memory.db", db),
    ("memory.db.sha256", Http.encodeAscii (sum ++ "\n"))])
  publish staged archive
  pure result

/-- `backup`, with the name that its temporary directory gets. -/
def backup (source : Source fmt) (archive : Path) (tempName : String) : Tool (ℕ × String) :=
  temporaryDirectory archive.dir tempName (backupIn rt fmt source archive)

end MemoryBridge.Admin
