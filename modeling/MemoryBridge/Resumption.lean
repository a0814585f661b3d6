import MemoryBridge.AuditTrail
import MemoryBridge.Recovery

/-!
# The audit log across a recovery

A store that was restored is served again, and may be backed up and restored once more. `Lineage` is
every store that comes about in this way from one that a server has created. Its audit log goes on
where the backup stopped: whatever servers do with a restored store, its events keep those of the
backup as their beginning, with the head that the backup has printed (`recovery_resumes`). A store
of a lineage can be backed up and restored at any time (`recovery_available`).
-/

open SingleWriter Faults

namespace MemoryBridge

open Admin

variable {S : Type} {rt : Runtime S} {fmt : Formats}

/-! ## One recovery -/

/-- A backup that has returned `saved`, and a restore of its archive that has returned `loaded`,
with whatever has failed on the way. The archive may have been moved between them. -/
structure Recovery (rt : Runtime S) (source : Source fmt) where
  archive : Path
  archiveTemp : String
  before : Files
  archived : Files
  saved : ℕ × String
  backed : ∃ fates rest,
    backup rt fmt source archive archiveTemp fates before = (.ok saved, archived, rest)
  backupFresh : Admin.Fresh ⟨archive.dir, archiveTemp⟩ before
  copy : Path
  moved : Files
  carried : moved copy = archived archive
  destination : Path
  destinationTemp : String
  restored : Files
  loaded : ℕ × String
  unpacked : ∃ fates rest,
    restore rt fmt copy destination destinationTemp fates moved = (.ok loaded, restored, rest)
  restoreFresh : Admin.Fresh ⟨destination.dir, destinationTemp⟩ moved

variable {source : Source fmt}

/-- A backup that returns has archived a store that was committed at its source. -/
theorem backup_spec {archive : Path} {archiveTemp : String} {before archived : Files}
    {saved : ℕ × String} {fates rest : List (Fate PyExc Damage)}
    (hfresh : Admin.Fresh ⟨archive.dir, archiveTemp⟩ before)
    (h : backup rt fmt source archive archiveTemp fates before = (.ok saved, archived, rest)) :
    (∃ file, archived archive = some (.file file .ownerOnly) ∧
      Backed rt fmt source.image saved file) ∧
    ∃ d, fmt.opened source.image = .store d ∧ source.committed d ∧
      Audit.verify rt d none = .ok saved := by
  obtain ⟨file, hbacked, -, rfl⟩ : (commandPost ⟨archive.dir, archiveTemp⟩ archive before
      (Backed rt fmt source.image)).ok saved archived := by
    have := wp_backup rt source hfresh fates
    rwa [h] at this
  obtain ⟨d, hd, hopened⟩ := source.copies
  have hsaved := hbacked.2.2
  rw [hopened] at hsaved
  exact ⟨⟨file, Function.update_self _ _ _, hbacked⟩, d, hopened, hd, hsaved⟩

/-- A restore that returns has put the verified database of its archive at its destination. -/
theorem restore_spec (hfmt : fmt.Lawful) {copy destination : Path} {destinationTemp : String}
    {moved restored : Files} {loaded : ℕ × String} {fates rest : List (Fate PyExc Damage)}
    (hfresh : Admin.Fresh ⟨destination.dir, destinationTemp⟩ moved)
    (h : restore rt fmt copy destination destinationTemp fates moved =
      (.ok loaded, restored, rest)) :
    ∃ file mode data, moved copy = some (.file file mode) ∧ Verified rt fmt file data loaded ∧
      restored destination = some (.file data .ownerOnly) := by
  obtain ⟨data, ⟨-, file, mode, hcopy, hverified⟩, -, rfl⟩ :
      (commandPost ⟨destination.dir, destinationTemp⟩ destination moved
        (Restorable rt fmt copy destination moved)).ok loaded restored := by
    have := wp_restore rt hfmt copy hfresh fates
    rwa [h] at this
  exact ⟨file, mode, data, hcopy, hverified, Function.update_self _ _ _⟩

/-- What is restored is a store that was committed at the source, and verifies as at its backup. -/
theorem Recovery.spec (hfmt : fmt.Lawful) (x : Recovery rt source) :
    x.loaded = x.saved ∧ ∃ data d, x.restored x.destination = some (.file data .ownerOnly) ∧
      fmt.opened data = .store d ∧ source.committed d ∧ Audit.verify rt d none = .ok x.saved := by
  obtain ⟨fates, rest, hbackup⟩ := x.backed
  obtain ⟨fates', rest', hrestore⟩ := x.unpacked
  obtain ⟨⟨file, harchived, hbacked⟩, d, hopened, hd, hsaved⟩ := backup_spec x.backupFresh hbackup
  obtain ⟨file', mode, data, hcopy, hverified, hrestored⟩ :=
    restore_spec hfmt x.restoreFresh hrestore
  rw [x.carried, harchived] at hcopy
  obtain ⟨rfl, -⟩ := Entry.file.inj (Option.some.inj hcopy)
  obtain rfl : data = source.image := hbacked.image_eq hfmt hverified
  exact ⟨Except.ok.inj (hverified.chain.symm.trans hbacked.2.2), _, d, hrestored, hopened, hd,
    hsaved⟩

/-! ## Lineages -/

section Lineages

variable [LinearOrder S]

variable (rt fmt) in
/-- The stores that come about by creating one, serving it, and restoring a backup of one. -/
inductive Lineage : Db → Prop
  | created {d : Db} (h : d = .empty ∨ d = .opened) : Lineage d
  | served {ι : Type} [DecidableEq ι] (cfg : ι → Config)
      {s₀ s₁ : Sys ι (Context × Call) Db Instant Failure Bool PyExc String} (h₀ : s₀.Init)
      (hd : Lineage s₀.db) (h : Reach (servers rt cfg) s₀ s₁) : Lineage s₁.db
  | restored {source : Source fmt} (x : Recovery rt source)
      (hs : ∀ d, source.committed d → Lineage d) {data : Bytes} {mode : Admin.Mode} {d : Db}
      (hfile : x.restored x.destination = some (.file data mode))
      (hd : fmt.opened data = .store d) : Lineage d

variable {ι : Type} [DecidableEq ι] {cfg : ι → Config}
  {s₀ s₁ : Sys ι (Context × Call) Db Instant Failure Bool PyExc String} {d : Db}

theorem Reach.replays (h₀ : s₀.Init) (hd : Replays s₀.db) (h : Reach (servers rt cfg) s₀ s₁) :
    Replays s₁.db :=
  Reach.invariant (meets cfg) h₀ (I := Replays) (fun _ _ _ _ _ hc hb => hb.commits hc) hd h

/-- No event of a store is ever lost. -/
theorem Reach.rows_prefix (h₀ : s₀.Init) (hd : Sound rt s₀.db) (h : Reach (servers rt cfg) s₀ s₁) :
    s₀.db.events.rows <+: s₁.db.events.rows :=
  Reach.related (meets cfg) h₀ (I := Sound rt) (R := fun b w => b.events.rows <+: w.events.rows)
    (fun _ => List.prefix_rfl) (fun _ _ _ => List.IsPrefix.trans)
    (fun _ _ _ _ _ hc hb => hb.commits hc) (fun _ _ _ _ _ hc hb => hc.rows_prefix hb) hd .refl h

/-- What every commit keeps holds all along a lineage. -/
theorem Lineage.invariant (hfmt : fmt.Lawful) {I : Db → Prop}
    (hstart : ∀ d, d = .empty ∨ d = .opened → I d)
    (hcommit : ∀ cfg ctx c h b w, Commits rt cfg ctx c h b w → I b → I w)
    (h : Lineage rt fmt d) : I d := by
  induction h with
  | created h => exact hstart _ h
  | served cfg h₀ _ h ih =>
    exact Reach.invariant (meets cfg) h₀ (I := I) (fun _ _ _ _ _ hc => hcommit _ _ _ _ _ _ hc) ih h
  | restored x _ hfile hopened ih =>
    obtain ⟨-, data, d, hfile', hopened', hd, -⟩ := x.spec hfmt
    rw [hfile] at hfile'
    obtain ⟨rfl, -⟩ := Entry.file.inj (Option.some.inj hfile')
    rw [hopened] at hopened'
    obtain rfl := Opened.store.inj hopened'
    exact ih _ hd

/-- The log of a lineage is sound, and its facts are the replay of its events. -/
theorem Lineage.sound (hfmt : fmt.Lawful) (h : Lineage rt fmt d) : Sound rt d ∧ Replays d :=
  ⟨h.invariant hfmt (fun _ => .of_start) fun _ _ _ _ _ _ hc hb => hb.commits hc,
    h.invariant hfmt (fun _ => .of_start) fun _ _ _ _ _ _ hc hb => hb.commits hc⟩

/-- `d'` goes on where a store with this event count and head stopped. -/
structure Resumes (rt : Runtime S) (saved : ℕ × String) (d' : Db) : Prop where
  count : saved.1 ≤ d'.events.rows.length
  ids : d'.events.rows.map (·.event.id) =
    (List.range d'.events.rows.length).map fun i : ℕ => (i : ℤ) + 1
  verified : ∃ head, Audit.verify rt d' none = .ok (d'.events.rows.length, head)
  head : Audit.headFrom (.text Audit.genesis) (d'.events.rows.take saved.1) = .text saved.2
  replays : Replays d'

/-- **A recovery loses no event up to its backup.** If a store of a lineage is backed up while any
servers write to it, and restored, with whatever has failed on the way, then a state that was
committed at the source comes back, and the restore has returned what the backup has. Whatever
servers then do with it, its events stay the beginning of the log, and the whole log is one chain
that verifies and goes on from the head of the backup. -/
theorem recovery_resumes (hfmt : fmt.Lawful) (h₀ : s₀.Init) (hl : Lineage rt fmt s₀.db)
    (hsource : ∀ d, source.committed d → ∃ s, Reach (servers rt cfg) s₀ s ∧ s.db = d)
    (x : Recovery rt source) :
    x.loaded = x.saved ∧ ∃ data d s, x.restored x.destination = some (.file data .ownerOnly) ∧
      fmt.opened data = .store d ∧ Reach (servers rt cfg) s₀ s ∧ s.db = d ∧
      Audit.verify rt d (some x.saved.2) = .ok x.saved ∧
      ∀ (ι' : Type) [DecidableEq ι'] (cfg' : ι' → Config)
        (s₁ s₂ : Sys ι' (Context × Call) Db Instant Failure Bool PyExc String),
        s₁.Init → s₁.db = d → Reach (servers rt cfg') s₁ s₂ →
        d.events.rows <+: s₂.db.events.rows ∧ Resumes rt x.saved s₂.db := by
  obtain ⟨hloaded, data, d, hfile, hopened, hd, hverify⟩ := x.spec hfmt
  obtain ⟨s, hs, rfl⟩ := hsource d hd
  refine ⟨hloaded, data, _, s, hfile, hopened, hs, rfl,
    Audit.verify_some_eq_ok.2 ⟨hverify, rfl⟩, ?_⟩
  intro ι' _ cfg' s₁ s₂ h₁ hdb h
  obtain ⟨hsound, hreplays⟩ := Lineage.sound hfmt (.served cfg h₀ hl hs)
  obtain ⟨hchained, hcount, hhead⟩ := Audit.verify_eq_ok.1 hverify
  rw [← hdb] at hsound hreplays hchained hcount hhead ⊢
  have hkept := Reach.rows_prefix h₁ hsound h
  have hsound₂ := Reach.sound h₁ hsound h
  refine ⟨hkept, ?_, hsound₂.ids, ?_, ?_, Reach.replays h₁ hreplays h⟩
  · rw [hcount]
    exact hkept.length_le
  · exact (hsound₂.chained (Reach.hasChain h₁ h (.inl hchained.1))).verify
  · rw [hcount, ← List.prefix_iff_eq_take.1 hkept, hhead]

end Lineages

/-! ## Archives of unknown origin -/

section Forged

variable [LinearOrder S] {ι : Type} [DecidableEq ι] {cfg : ι → Config}
  {s₁ s₂ : Sys ι (Context × Call) Db Instant Failure Bool PyExc String}

omit [LinearOrder S] in
/-- Of two verified logs, the second goes on where the first stops exactly if it contains its
head. -/
theorem rows_prefix_iff_head_mem {d d' : Db} {saved : ℕ × String}
    (hc : Audit.CollisionFree rt.sha256 (Audit.payloads d ++ Audit.payloads d'))
    (hd : Audit.verify rt d none = .ok saved) (hd' : Audit.Chained rt d') :
    d.events.rows <+: d'.events.rows ↔
      saved.1 = 0 ∨ ∃ row ∈ d'.events.rows, row.eventHash = .text saved.2 := by
  obtain ⟨hs, hn, hh⟩ := Audit.verify_eq_ok.1 hd
  have hlink := HashChain.prefix_iff_head_mem (hc.digest hs hd') hs.2.chained hd'.2.chained
  have hrows : d.events.rows.map EventRow.link <+: d'.events.rows.map EventRow.link ↔
      d.events.rows <+: d'.events.rows := by
    constructor
    · rintro ⟨rest, hrest⟩
      obtain ⟨a, b, hab, ha, -⟩ := List.map_eq_append_iff.1 hrest.symm
      rw [hab, (List.map_injective_iff.2 EventRow.link_injective) ha]
      exact List.prefix_append _ _
    · exact fun h => h.map _
  rw [← hrows, hlink, hn, List.length_eq_zero_iff, List.map_eq_nil_iff]
  refine or_congr_right ?_
  have hhead : HashChain.head (.text Audit.genesis) (d.events.rows.map EventRow.link) =
      .text saved.2 := hh
  rw [hhead]
  simp [EventRow.link]

/-- Servers keep a chain, whoever has built it. -/
theorem Reach.chained (h₁ : s₁.Init) (hd : Audit.Chained rt s₁.db)
    (h : Reach (servers rt cfg) s₁ s₂) : Audit.Chained rt s₂.db := by
  refine Reach.invariant (meets cfg) h₁ (I := Audit.Chained rt) (fun _ _ _ b w hc hb => ?_) hd h
  rcases hc with ⟨d, -, -, ⟨-, rfl⟩ | hm⟩ | ⟨q, h', -, -, ho⟩
  · exact hb
  · have := hb.1
    rw [hm.not_hasChain] at this
    cases this
  · exact ho.chained hb

/-- **A head that was kept certifies the backup in every later log.** Take a backup that has
returned, and what it has returned. Let any archive be restored, even a forged one, that holds the
tables of the server with a counter not below an id, and served by any servers. If SHA-256 has no
collision on the two logs, then the log contains the head exactly if it begins with the events of
the backup. -/
theorem saved_head_certifies (hfmt : fmt.Lawful) {archive : Path} {archiveTemp : String}
    {before archived : Files} {saved : ℕ × String} {fates rest : List (Fate PyExc Damage)}
    (hfresh : Admin.Fresh ⟨archive.dir, archiveTemp⟩ before)
    (hbackup : backup rt fmt source archive archiveTemp fates before = (.ok saved, archived, rest))
    {copy destination : Path} {destinationTemp : String} {moved restored : Files}
    {loaded : ℕ × String} {fates' rest' : List (Fate PyExc Damage)}
    (hfresh' : Admin.Fresh ⟨destination.dir, destinationTemp⟩ moved)
    (hrestore : restore rt fmt copy destination destinationTemp fates' moved =
      (.ok loaded, restored, rest'))
    {data : Bytes} {mode : Admin.Mode} (hfile : restored destination = some (.file data mode))
    (hopened : fmt.opened data = .store s₁.db) (h₁ : s₁.Init) (h : Reach (servers rt cfg) s₁ s₂) :
    ∃ d, source.committed d ∧ Audit.verify rt d none = .ok saved ∧
      (Audit.CollisionFree rt.sha256 (Audit.payloads d ++ Audit.payloads s₂.db) →
        (d.events.rows <+: s₂.db.events.rows ↔
          saved.1 = 0 ∨ ∃ row ∈ s₂.db.events.rows, row.eventHash = .text saved.2)) := by
  obtain ⟨-, d, -, hd, hsaved⟩ := backup_spec hfresh hbackup
  obtain ⟨file, mode', data', -, hverified, hfile'⟩ := restore_spec hfmt hfresh' hrestore
  rw [hfile] at hfile'
  obtain ⟨rfl, -⟩ := Entry.file.inj (Option.some.inj hfile')
  have hloaded : Audit.verify rt s₁.db none = .ok loaded := by
    have := hverified.chain
    rwa [hopened] at this
  have hchained := Reach.chained h₁ (Audit.verify_eq_ok.1 hloaded).1 h
  exact ⟨d, hd, hsaved, fun hc => rows_prefix_iff_head_mem hc hsaved hchained⟩

end Forged

/-! ## When nothing fails -/

section Available

variable {temp p : Path} {fs : Files} {bytes : Bytes} {r : ℕ × String}

section Runs

variable [LinearOrder S] {ι : Type} [DecidableEq ι] {cfg : ι → Config}
  {s₀ s : Sys ι (Context × Call) Db Instant Failure Bool PyExc String}

/-- **A store of a lineage can be recovered from any of its states.** If nothing fails, a backup of
the committed state returns its event count and head, and a restore of the archive to a free name
without sidecars returns them again. SQLite must find the copy intact, and the migration must be
committed. -/
theorem recovery_available (hfmt : fmt.Lawful) (h₀ : s₀.Init) (hl : Lineage rt fmt s₀.db)
    (h : Reach (servers rt cfg) s₀ s) (hchain : hasChain s.db = true)
    (hopened : fmt.opened source.image = .store s.db)
    (hintegrity : fmt.integrityCheck source.image = .ok ["ok"]) {archive : Path}
    {archiveTemp : String} {fs : Files} (hfresh : Admin.Fresh ⟨archive.dir, archiveTemp⟩ fs)
    (hfree : fs archive = none) (hname : archive.name ≠ archiveTemp) :
    ∃ head fs', backup rt fmt source archive archiveTemp [] fs =
        (.ok (s.db.events.rows.length, head), fs', []) ∧
      ∀ (copy destination : Path) (destinationTemp : String) (fs₁ : Files),
        Admin.Fresh ⟨destination.dir, destinationTemp⟩ fs₁ → fs₁ copy = fs' archive →
        (∀ suffix ∈ sidecars, fs₁ (destination.suffixed suffix) = none) →
        fs₁ destination = none → destination.name ≠ destinationTemp →
        (restore rt fmt copy destination destinationTemp [] fs₁).1 =
          .ok (s.db.events.rows.length, head) := by
  have hsound := (Lineage.sound hfmt (.served cfg h₀ hl h)).1
  obtain ⟨head, hverify⟩ := (hsound.chained hchain).verify
  have hverify' : verifyOpened rt (fmt.opened source.image) =
      .ok (s.db.events.rows.length, head) := by rwa [hopened]
  obtain ⟨fs', hbackup⟩ := backup_of_verified hfresh hintegrity hverify' hfree hname
  refine ⟨head, fs', hbackup, fun copy destination destinationTemp fs₁ hfresh₁ hcopy hside hfree₁
    hname₁ => ?_⟩
  obtain ⟨file, hbacked, -, rfl⟩ : (commandPost ⟨archive.dir, archiveTemp⟩ archive fs
      (Backed rt fmt source.image)).ok (s.db.events.rows.length, head) fs' := by
    have := wp_backup rt source hfresh []
    rwa [hbackup] at this
  rw [Function.update_self] at hcopy
  exact restore_of_verified hfmt hfresh₁ hcopy (hbacked.verified hfmt) hside hfree₁ hname₁

end Runs

end Available

/-! ## A store with two events -/

/-- The store that two servers have filled. -/
theorem sampleLog_reached : ∃ s, Reach sampleServers (.initial .empty false) s ∧
    s.db = Audit.sampleLog := by
  have h : (((Sys.initial .empty false).turns sampleServers sampleTurns).map fun s =>
      ((s.db.facts.keys, s.db.embeddings.keys), (s.db.events.rows, s.db.events.seq),
        s.db.prevHashColumn, s.db.eventHashColumn, s.db.requireHash)) =
      some (([], []), ([Audit.sampleSet, Audit.sampleDelete], some 2), true, true, true) := by
    decide +kernel
  obtain ⟨s, hs, hdb⟩ := Option.map_eq_some_iff.1 h
  refine ⟨s, Sys.reach_of_turns (fun _ _ _ _ => trivial) hs, ?_⟩
  rcases s with ⟨⟨⟨facts, _⟩, ⟨embeddings, _⟩, ⟨rows, seq, _, _⟩, _, _, _⟩, lock, procs, trace⟩
  simp only [AList.keys, List.keys, List.map_eq_nil_iff, Prod.mk.injEq] at hdb
  obtain ⟨⟨rfl, rfl⟩, ⟨rfl, rfl⟩, rfl, rfl, rfl⟩ := hdb
  rfl

/-- That store, which servers go on writing to. -/
def logSource : Source logFormats where
  committed d := ∃ s, Reach sampleServers (.initial .empty false) s ∧ s.db = d
  image := logDatabase
  copies := ⟨_, sampleLog_reached, logFormats_opened⟩

theorem logSource_image : logSource.image = logDatabase := rfl

theorem logSource_verified :
    verifyOpened Audit.sampleRuntime (logFormats.opened logSource.image) = .ok (2, logHead) :=
  logDatabase_verified

theorem logSource_intact : logFormats.integrityCheck logSource.image = .ok ["ok"] := by
  rw [logSource_image, logFormats_integrityCheck]

/-- A backup on a machine without other files leaves its archive only. -/
theorem backup_archiveOnly {r : ℕ × String} {fs : Files} {fates rest : List (Fate PyExc Damage)}
    (h : backup rt fmt source sampleArchive "tmp0" fates emptyFiles = (.ok r, fs, rest)) :
    ∃ file, Backed rt fmt source.image r file ∧ fs = archiveOnly file := by
  obtain ⟨file, hbacked, -, rfl⟩ : (commandPost ⟨sampleArchive.dir, "tmp0"⟩ sampleArchive
      emptyFiles (Backed rt fmt source.image)).ok r fs := by
    have := wp_backup rt source (emptyFiles_fresh ⟨sampleArchive.dir, "tmp0"⟩) fates
    rwa [h] at this
  exact ⟨file, hbacked, rfl⟩

/-- A recovery from a machine without other files to another one. -/
theorem exists_recovery (hfmt : fmt.Lawful) {r : ℕ × String}
    (hintegrity : fmt.integrityCheck source.image = .ok ["ok"])
    (hchain : verifyOpened rt (fmt.opened source.image) = .ok r) :
    ∃ x : Recovery rt source, x.saved = r ∧ x.destination = sampleDestination := by
  have hempty := emptyFiles_fresh ⟨sampleArchive.dir, "tmp0"⟩
  obtain ⟨fs, hbackup⟩ := backup_of_verified hempty hintegrity hchain rfl
    (by decide : sampleArchive.name ≠ "tmp0")
  obtain ⟨file, hbacked, rfl⟩ := backup_archiveOnly hbackup
  have hfresh := archiveOnly_fresh file "tmp1"
  have hrestore := restore_of_verified hfmt hfresh (archiveOnly_archive file)
    (hbacked.verified hfmt) (archiveOnly_sidecars file) (archiveOnly_destination file)
    (by decide : sampleDestination.name ≠ "tmp1")
  exact ⟨⟨sampleArchive, "tmp0", _, _, r, ⟨[], [], hbackup⟩, hempty, sampleArchive, _, rfl,
    sampleDestination, "tmp1", _, r, ⟨[], _, Prod.ext hrestore (Prod.ext rfl rfl)⟩, hfresh⟩,
    rfl, rfl⟩

/-- A recovery of that store, and any servers after it. -/
theorem recovery_resumes_sample :
    ∃ (x : Recovery Audit.sampleRuntime logSource) (data : Bytes) (d : Db),
      x.loaded = (2, logHead) ∧ x.restored x.destination = some (.file data .ownerOnly) ∧
      logFormats.opened data = .store d ∧
      ∀ (cfg : ℕ → Config) (s₁ s₂ : Sys ℕ (Context × Call) Db Instant Failure Bool PyExc String),
        s₁.Init → s₁.db = d → Reach (servers Audit.sampleRuntime cfg) s₁ s₂ →
        d.events.rows <+: s₂.db.events.rows ∧ Resumes Audit.sampleRuntime (2, logHead) s₂.db := by
  obtain ⟨x, hsaved, -⟩ := exists_recovery logFormats_lawful logSource_intact logSource_verified
  obtain ⟨hloaded, data, d, s, hfile, hopened, -, -, -, hresumes⟩ :=
    recovery_resumes logFormats_lawful (Sys.initial_init .empty false) (.created (.inl rfl))
      (fun _ h => h) x
  refine ⟨x, data, d, hloaded.trans hsaved, hfile, hopened, fun cfg s₁ s₂ h₁ hdb h => ?_⟩
  rw [← hsaved]
  exact hresumes ℕ cfg s₁ s₂ h₁ hdb h

/-- The head of that backup in any log that servers make of the archive. -/
theorem saved_head_certifies_sample :
    ∃ d, logSource.committed d ∧ Audit.verify Audit.sampleRuntime d none = .ok (2, logHead) ∧
      (Audit.CollisionFree Audit.sampleRuntime.sha256
          (Audit.payloads d ++ Audit.payloads Audit.sampleLog) →
        (d.events.rows <+: Audit.sampleLog.events.rows ↔
          2 = 0 ∨ ∃ row ∈ Audit.sampleLog.events.rows, row.eventHash = .text logHead)) := by
  obtain ⟨x, hsaved, -⟩ := exists_recovery logFormats_lawful logSource_intact logSource_verified
  obtain ⟨-, data, d, hfile, hopened, -⟩ := x.spec logFormats_lawful
  obtain ⟨fates, rest, hbackup⟩ := x.backed
  obtain ⟨fates', rest', hrestore⟩ := x.unpacked
  obtain rfl : Audit.sampleLog = d := by
    simp only [logFormats, sampleFormats] at hopened
    split_ifs at hopened
    exact Opened.store.inj hopened
  have hreach : Reach (servers Audit.sampleRuntime fun _ : ℕ => Config.default)
      (Sys.initial Audit.sampleLog false) (Sys.initial Audit.sampleLog false) := .refl
  have main := saved_head_certifies logFormats_lawful x.backupFresh hbackup x.restoreFresh hrestore
    hfile hopened (Sys.initial_init _ _) hreach
  rwa [hsaved] at main

/-- A recovery of that store in which nothing fails, between machines without other files. -/
theorem recovery_available_sample : ∃ head file,
    backup Audit.sampleRuntime logFormats logSource sampleArchive "tmp0" [] emptyFiles =
      (.ok (2, head), archiveOnly file, []) ∧
    (restore Audit.sampleRuntime logFormats sampleArchive sampleDestination "tmp1" []
      (archiveOnly file)).1 = .ok (2, head) := by
  obtain ⟨s, hs, hdb⟩ := sampleLog_reached
  have hrows : s.db.events.rows.length = 2 := by rw [hdb]; rfl
  have hopened : logFormats.opened logSource.image = .store s.db := by
    rw [logSource_image, logFormats_opened, hdb]
  obtain ⟨head, fs', hbackup, hrestore⟩ := recovery_available logFormats_lawful
    (Sys.initial_init .empty false) (.created (.inl rfl)) hs (by rw [hdb]; rfl) hopened
    logSource_intact (emptyFiles_fresh ⟨sampleArchive.dir, "tmp0"⟩) rfl (by decide)
  rw [hrows] at hbackup hrestore
  obtain ⟨file, -, rfl⟩ := backup_archiveOnly hbackup
  exact ⟨head, file, hbackup, hrestore sampleArchive sampleDestination "tmp1" _
    (archiveOnly_fresh file _) rfl (archiveOnly_sidecars file) (archiveOnly_destination file)
    (by decide)⟩

end MemoryBridge
