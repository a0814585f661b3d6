import MemoryBridge.Admin
import MemoryBridge.AuditChain

/-!
# Backup and restore are all or nothing

Everything before the hard link happens in the temporary directory, so whatever fails or dies there
leaves the other files as they were. The link is the last step of the body: once it is made, the
name stands for a complete file that has passed all checks. After it only the removal of the
temporary directory is left. If that fails, the command raises although it has published.
-/

open Faults

namespace MemoryBridge.Admin

/-! ## Steps on files -/

section Steps

/-- The errors that these steps raise themselves. -/
def fileErrors : List String :=
  ["OSError", "FileNotFoundError", "FileExistsError", "PermissionError"]

/-- A postcondition that allows a step to end with an error, one of its own or of the environment,
in `fs`. -/
structure MayFail {α : Type} (A : Fate PyExc Damage → Prop) (Q : Faulty.Post Files PyExc α)
    (fs : Files) : Prop where
  own : ∀ name ∈ fileErrors, ∀ p, Q.raised (osError name p) fs
  fail : ∀ e d, A (.fail e d) → Q.raised e fs
  crash : ∀ d, A (.crash d) → Q.crashed fs

variable {A : Fate PyExc Damage → Prop} {fs : Files} {p : Path} {bytes : Bytes}

theorem wpAmong_readFile {Q : Faulty.Post Files PyExc Bytes} (hQ : MayFail A Q fs)
    (hok : ∀ bytes mode, fs p = some (.file bytes mode) → Q.ok bytes fs) :
    (readFile p).wpAmong A fs Q := by
  refine Faulty.wpAmong_query (fun bytes h => ?_) (fun e h => ?_) hQ.fail hQ.crash
  · split at h
    · obtain rfl := Except.ok.inj h
      exact hok _ _ ‹_›
    · cases h
    · cases h
  · split at h
    · cases h
    · obtain rfl := Except.error.inj h
      exact hQ.own _ (by decide) _
    · obtain rfl := Except.error.inj h
      exact hQ.own _ (by decide) _

variable {Q : Faulty.Post Files PyExc Unit}

/-- Interrupted, it leaves any content. -/
theorem wpAmong_writeFile
    (hQ : ∀ content mode, MayFail A Q (Function.update fs p (some (.file content mode))))
    (hok : ∀ mode, Q.ok () (Function.update fs p (some (.file bytes mode)))) :
    (writeFile p bytes).wpAmong A fs Q := by
  refine Faulty.wpAmong_step (fun _ fs' h => ?_) (fun e h => by cases h) (fun e d h => ?_)
    fun d h => ?_
  · obtain ⟨-, rfl⟩ := Prod.mk.inj (Except.ok.inj h)
    simp only
    split <;> exact hok _
  · simp only
    split <;> exact (hQ _ _).fail e d h
  · simp only
    split <;> exact (hQ _ _).crash d h

theorem wpAmong_createFile (hQ : MayFail A Q fs)
    (hok : Q.ok () (Function.update fs p (some (.file [] .byUmask)))) :
    (createFile p).wpAmong A fs Q := by
  refine Faulty.wpAmong_step (fun _ fs' h => ?_) (fun e h => ?_) hQ.fail hQ.crash
  · split at h
    · cases h
    · obtain ⟨-, rfl⟩ := Prod.mk.inj (Except.ok.inj h)
      exact hok
  · split at h
    · obtain rfl := Except.error.inj h
      exact hQ.own _ (by decide) _
    · cases h

theorem wpAmong_chmod (hQ : MayFail A Q fs)
    (hok : ∀ bytes mode, fs p = some (.file bytes mode) →
      Q.ok () (Function.update fs p (some (.file bytes .ownerOnly)))) :
    (chmod p).wpAmong A fs Q := by
  refine Faulty.wpAmong_step (fun _ fs' h => ?_) (fun e h => ?_) hQ.fail hQ.crash
  · split at h
    · obtain ⟨-, rfl⟩ := Prod.mk.inj (Except.ok.inj h)
      exact hok _ _ ‹_›
    · cases h
    · cases h
  · split at h
    · cases h
    · obtain rfl := Except.error.inj h
      exact hQ.own _ (by decide) _
    · obtain rfl := Except.error.inj h
      exact hQ.own _ (by decide) _

theorem wpAmong_link {src dst : Path} (hQ : MayFail A Q fs)
    (hok : ∀ bytes mode, fs src = some (.file bytes mode) → fs dst = none →
      Q.ok () (Function.update fs dst (some (.file bytes mode)))) :
    (link src dst).wpAmong A fs Q := by
  refine Faulty.wpAmong_step (fun _ fs' h => ?_) (fun e h => ?_) hQ.fail hQ.crash
  · split at h
    · split at h
      · cases h
      · obtain ⟨-, rfl⟩ := Prod.mk.inj (Except.ok.inj h)
        exact hok _ _ ‹_› (Option.not_isSome_iff_eq_none.1 ‹_›)
    · cases h
    · cases h
  · split at h
    · split at h
      · obtain rfl := Except.error.inj h
        exact hQ.own _ (by decide) _
      · cases h
    · obtain rfl := Except.error.inj h
      exact hQ.own _ (by decide) _
    · obtain rfl := Except.error.inj h
      exact hQ.own _ (by decide) _

theorem wpAmong_mkdtemp {temp : Path} (hQ : MayFail A Q fs)
    (hok : fs temp = none → Q.ok () (Function.update fs temp (some .directory))) :
    (mkdtemp temp).wpAmong A fs Q := by
  refine Faulty.wpAmong_step (fun _ fs' h => ?_) (fun e h => ?_) hQ.fail hQ.crash
  · split at h
    · cases h
    · obtain ⟨-, rfl⟩ := Prod.mk.inj (Except.ok.inj h)
      exact hok (Option.not_isSome_iff_eq_none.1 ‹_›)
  · split at h
    · obtain rfl := Except.error.inj h
      exact hQ.own _ (by decide) _
    · cases h

end Steps

/-! ## The temporary directory -/

section Temp

variable {α : Type} {temp : Path} {fs₀ fs : Files}

theorem Path.child_isIn (p : Path) (name : String) : (p.child name).IsIn p :=
  .inr List.prefix_rfl

theorem Path.child_ne (p : Path) (name : String) : p.child name ≠ p := by
  intro h
  have := congrArg (fun q : Path => q.dir.length) h
  simp [Path.child] at this

/-- A name beside the temporary directory is not in it. -/
theorem Path.not_isIn {p q : Path} (hdir : q.dir = p.dir) (hne : q ≠ p) : ¬q.IsIn p := by
  rintro (h | h)
  · exact hne h
  · have := h.length_le
    rw [hdir, List.length_append, List.length_singleton] at this
    omega

/-- Nothing has the name that `mkdtemp` picks, and nothing is below it. -/
def Fresh (temp : Path) (fs : Files) : Prop := ∀ p, p.IsIn temp → fs p = none

/-- The files outside the temporary directory are as they were. -/
def Untouched (temp : Path) (fs₀ fs : Files) : Prop := ∀ p, ¬p.IsIn temp → fs p = fs₀ p

/-- The same while the temporary directory exists. -/
structure Inside (temp : Path) (fs₀ fs : Files) : Prop where
  untouched : Untouched temp fs₀ fs
  directory : fs temp = some .directory

theorem Inside.update (h : Inside temp fs₀ fs) {p : Path} (hp : p.IsIn temp) (hne : p ≠ temp)
    (e : Option Entry) : Inside temp fs₀ (Function.update fs p e) := by
  constructor
  · intro q hq
    rw [Function.update_of_ne (fun hqp => hq (by rwa [hqp])), h.untouched q hq]
  · rw [Function.update_of_ne (Ne.symm hne), h.directory]

/-- A postcondition that allows to stop while nothing outside is touched. -/
def Stops (temp : Path) (fs₀ : Files) (Q : Faulty.Post Files PyExc α) : Prop :=
  ∀ fs, Untouched temp fs₀ fs → (∀ e, Q.raised e fs) ∧ Q.crashed fs

variable {Q : Faulty.Post Files PyExc α}

theorem Stops.mayFail (hQ : Stops temp fs₀ Q) (h : Untouched temp fs₀ fs) :
    MayFail (fun _ => True) Q fs :=
  ⟨fun _ _ _ => (hQ fs h).1 _, fun e _ _ => (hQ fs h).1 e, fun _ _ => (hQ fs h).2⟩

theorem wp_query {f : Files → Except PyExc α} (hQ : Stops temp fs₀ Q) (h : Inside temp fs₀ fs)
    (hok : ∀ a, f fs = .ok a → Q.ok a fs) : (Faulty.query f : Tool α).wp fs Q :=
  Faulty.wp_query hok (hQ fs h.untouched).1 (hQ fs h.untouched).2

theorem wp_readFile {p : Path} {Q : Faulty.Post Files PyExc Bytes} (hQ : Stops temp fs₀ Q)
    (h : Inside temp fs₀ fs) (hok : ∀ bytes mode, fs p = some (.file bytes mode) → Q.ok bytes fs) :
    (readFile p).wp fs Q :=
  Faulty.wp_iff_wpAmong.2 (wpAmong_readFile (hQ.mayFail h.untouched) hok)

variable {p : Path} {Q : Faulty.Post Files PyExc Unit}

theorem wp_writeFile {bytes : Bytes} (hQ : Stops temp fs₀ Q) (h : Inside temp fs₀ fs)
    (hp : p.IsIn temp) (hne : p ≠ temp)
    (hok : ∀ mode, Q.ok () (Function.update fs p (some (.file bytes mode)))) :
    (writeFile p bytes).wp fs Q :=
  Faulty.wp_iff_wpAmong.2
    (wpAmong_writeFile (fun _ _ => hQ.mayFail (h.update hp hne _).untouched) hok)

theorem wp_createFile (hQ : Stops temp fs₀ Q) (h : Inside temp fs₀ fs)
    (hok : Q.ok () (Function.update fs p (some (.file [] .byUmask)))) : (createFile p).wp fs Q :=
  Faulty.wp_iff_wpAmong.2 (wpAmong_createFile (hQ.mayFail h.untouched) hok)

theorem wp_chmod (hQ : Stops temp fs₀ Q) (h : Inside temp fs₀ fs)
    (hok : ∀ bytes mode, fs p = some (.file bytes mode) →
      Q.ok () (Function.update fs p (some (.file bytes .ownerOnly)))) : (chmod p).wp fs Q :=
  Faulty.wp_iff_wpAmong.2 (wpAmong_chmod (hQ.mayFail h.untouched) hok)

theorem wp_link {src dst : Path} (hQ : Stops temp fs₀ Q) (h : Inside temp fs₀ fs)
    (hok : ∀ bytes mode, fs src = some (.file bytes mode) → fs dst = none →
      Q.ok () (Function.update fs dst (some (.file bytes mode)))) : (link src dst).wp fs Q :=
  Faulty.wp_iff_wpAmong.2 (wpAmong_link (hQ.mayFail h.untouched) hok)

/-- `destination`, which was free, stands for a file with these bytes for its owner only, and no
other name outside the temporary directory has changed. -/
structure Published (temp destination : Path) (bytes : Bytes) (fs₀ fs : Files) : Prop where
  free : fs₀ destination = none
  outside : ¬destination.IsIn temp
  files : ∀ p, ¬p.IsIn temp →
    fs p = Function.update fs₀ destination (some (.file bytes .ownerOnly)) p

/-- The link is the only step that touches a file outside, and it needs a free name. -/
theorem wp_publish {staged destination : Path} {bytes : Bytes} {mode : Mode}
    (hQ : Stops temp fs₀ Q) (h : Inside temp fs₀ fs) (hdir : destination.dir = temp.dir)
    (hstaged : staged.IsIn temp) (hne : staged ≠ temp) (hfile : fs staged = some (.file bytes mode))
    (hok : ∀ fs', Published temp destination bytes fs₀ fs' → Q.ok () fs') :
    (publish staged destination).wp fs Q := by
  refine Faulty.wp_bind (wp_chmod hQ h fun bytes' mode' hf => ?_)
  obtain ⟨rfl, -⟩ : bytes = bytes' ∧ mode = mode' := by simpa [hfile] using hf
  have h' := h.update hstaged hne (some (.file bytes .ownerOnly))
  refine Faulty.wp_bind (Faulty.wp_bind (wp_readFile hQ h' fun _ _ _ => Faulty.wp_pure ?_))
  refine wp_link hQ h' fun bytes' mode' hf hfree => hok _ ?_
  obtain ⟨rfl, rfl⟩ : bytes = bytes' ∧ .ownerOnly = mode' := by simpa using hf
  have hout : ¬destination.IsIn temp := by
    refine Path.not_isIn hdir fun heq => ?_
    rw [heq, h'.directory] at hfree
    cases hfree
  refine ⟨(h'.untouched _ hout).symm.trans hfree, hout, fun p hp => ?_⟩
  rcases eq_or_ne p destination with rfl | hpd
  · simp
  · rw [Function.update_of_ne hpd, Function.update_of_ne hpd, h'.untouched p hp]

/-- The body of a command: it publishes a file that satisfies `R`, or touches nothing outside. -/
def bodyPost (temp destination : Path) (fs₀ : Files) (R : α → Bytes → Prop) :
    Faulty.Post Files PyExc α where
  ok a fs := ∃ bytes, R a bytes ∧ Published temp destination bytes fs₀ fs
  raised _ fs := Untouched temp fs₀ fs
  crashed fs := Untouched temp fs₀ fs

theorem stops_bodyPost (temp destination : Path) (fs₀ : Files) (R : α → Bytes → Prop) :
    Stops temp fs₀ (bodyPost temp destination fs₀ R) := fun _ h => ⟨fun _ => h, h⟩

/-- A command: it publishes a file that satisfies `R` and leaves nothing else behind, or it raises
or dies. Then it has published or touches nothing outside its temporary directory. That it raises
after it has published only in the removal of that directory is `temporaryDirectory_raised`. -/
def commandPost (temp destination : Path) (fs₀ : Files) (R : α → Bytes → Prop) :
    Faulty.Post Files PyExc α where
  ok a fs := ∃ bytes, R a bytes ∧ fs₀ destination = none ∧
    fs = Function.update fs₀ destination (some (.file bytes .ownerOnly))
  raised _ fs := Untouched temp fs₀ fs ∨
    ∃ a bytes, R a bytes ∧ Published temp destination bytes fs₀ fs
  crashed fs := Untouched temp fs₀ fs ∨
    ∃ a bytes, R a bytes ∧ Published temp destination bytes fs₀ fs

/-- A change of entries in the temporary directory only. -/
theorem Untouched.of_eq {fs' : Files} (h : Untouched temp fs₀ fs)
    (heq : ∀ p, ¬p.IsIn temp → fs' p = fs p) : Untouched temp fs₀ fs' :=
  fun p hp => (heq p hp).trans (h p hp)

theorem Published.of_eq {destination : Path} {bytes : Bytes} {fs' : Files}
    (h : Published temp destination bytes fs₀ fs) (heq : ∀ p, ¬p.IsIn temp → fs' p = fs p) :
    Published temp destination bytes fs₀ fs' :=
  ⟨h.free, h.outside, fun p hp => (heq p hp).trans (h.files p hp)⟩

theorem wp_removeTree {Q : Faulty.Post Files PyExc Unit}
    (hok : ∀ fs', (∀ p, ¬p.IsIn temp → fs' p = fs p) → (∀ p, p.IsIn temp → fs' p = none) →
      Q.ok () fs')
    (hstop : ∀ fs', (∀ p, ¬p.IsIn temp → fs' p = fs p) → (∀ e, Q.raised e fs') ∧ Q.crashed fs') :
    (removeTree temp).wp fs Q := by
  refine Faulty.wp_step (fun _ fs' hr => ?_) (fun e he => by cases he) fun d => ?_
  · obtain ⟨-, rfl⟩ := Prod.mk.inj (Except.ok.inj hr)
    exact hok _ (fun p hp => if_neg hp) fun p hp => if_pos hp
  · exact hstop _ fun p hp => if_neg fun h => hp h.1

/-- After the link, the removal leaves the new file as the only change. -/
theorem wp_removeTree_published {dir : List String} {name : String} {destination : Path}
    {bytes : Bytes} {fs : Files} (hpub : Published ⟨dir, name⟩ destination bytes fs₀ fs)
    (hfresh : Fresh ⟨dir, name⟩ fs₀) :
    (removeTree ⟨dir, name⟩).wp fs
      { ok := fun _ fs' => fs' = Function.update fs₀ destination (some (.file bytes .ownerOnly))
        raised := fun _ fs' => Published ⟨dir, name⟩ destination bytes fs₀ fs'
        crashed := fun fs' => Published ⟨dir, name⟩ destination bytes fs₀ fs' } := by
  refine wp_removeTree (fun fs' hout hin => ?_) fun fs' hout =>
    ⟨fun _ => hpub.of_eq hout, hpub.of_eq hout⟩
  funext p
  by_cases hp : p.IsIn ⟨dir, name⟩
  · have hne : p ≠ destination := fun h => hpub.outside (by rwa [← h])
    rw [hin p hp, Function.update_of_ne hne, hfresh p hp]
  · rw [hout p hp, hpub.files p hp]

/-- What the removal of the temporary directory makes of the outcome of the body. -/
theorem wp_temporaryDirectory {dir : List String} {name : String} {destination : Path}
    {body : Path → Tool α} {R : α → Bytes → Prop}
    (hfresh : Fresh ⟨dir, name⟩ fs₀)
    (hbody : (body ⟨dir, name⟩).wp (Function.update fs₀ ⟨dir, name⟩ (some .directory))
      (bodyPost ⟨dir, name⟩ destination fs₀ R)) :
    (temporaryDirectory dir name body).wp fs₀ (commandPost ⟨dir, name⟩ destination fs₀ R) := by
  have hstart : Untouched ⟨dir, name⟩ fs₀ fs₀ := fun _ _ => rfl
  refine Faulty.wp_bind (Faulty.wp_iff_wpAmong.2 (wpAmong_mkdtemp
    ⟨fun _ _ _ => .inl hstart, fun _ _ _ => .inl hstart, fun _ _ => .inl hstart⟩ fun _ => ?_))
  refine Faulty.wp_ensuring (Faulty.wp_mono hbody ?_ ?_ ?_)
  · rintro a fs ⟨bytes, hR, hpub⟩ fates
    have hremoved := wp_removeTree_published hpub hfresh fates
    revert hremoved
    generalize hrun : removeTree ⟨dir, name⟩ fates fs = run
    rcases run with ⟨_ | e | _, fs', rest⟩ <;> intro h
    · exact ⟨bytes, hR, hpub.free, h⟩
    · exact .inr ⟨a, bytes, hR, h⟩
    · exact .inr ⟨a, bytes, hR, h⟩
  · intro e fs h
    exact wp_removeTree (fun _ hout _ => .inl (h.of_eq hout)) fun _ hout =>
      ⟨fun _ => .inl (h.of_eq hout), .inl (h.of_eq hout)⟩
  · exact fun fs h => .inl h

/-- Nothing is made where `mkdtemp` raises. -/
theorem wp_mkdtemp (temp : Path) (fs : Files) : (mkdtemp temp).wp fs
    { ok := fun _ fs' => fs' = Function.update fs temp (some .directory)
      raised := fun _ fs' => fs' = fs
      crashed := fun fs' => fs' = fs } :=
  Faulty.wp_iff_wpAmong.2
    (wpAmong_mkdtemp ⟨fun _ _ _ => rfl, fun _ _ _ => rfl, fun _ _ => rfl⟩ fun _ => rfl)

/-- The removal of the temporary directory touches nothing outside, however it ends. -/
theorem removeTree_outside (temp : Path) (fates : List (Fate PyExc Damage)) (fs : Files) {p : Path}
    (hp : ¬p.IsIn temp) : (removeTree temp fates fs).2.1 p = fs p := by
  have h : (removeTree temp).wp fs
      ⟨fun _ fs' => fs' p = fs p, fun _ fs' => fs' p = fs p, fun fs' => fs' p = fs p⟩ :=
    wp_removeTree (fun _ hout _ => hout p hp) fun _ hout => ⟨fun _ => hout p hp, hout p hp⟩
  have hrun := h fates
  revert hrun
  cases (removeTree temp fates fs).1 <;> exact id

/-- A command that raises has touched nothing outside its temporary directory, or its body has
returned and published, and what raises is the removal of that directory. -/
theorem temporaryDirectory_raised {dir : List String} {name : String} {destination : Path}
    {body : Path → Tool α} {R : α → Bytes → Prop} {fates rest : List (Fate PyExc Damage)}
    {e : PyExc} (h : temporaryDirectory dir name body fates fs₀ = (.raised e, fs, rest))
    (hbody : (body ⟨dir, name⟩).wp (Function.update fs₀ ⟨dir, name⟩ (some .directory))
      (bodyPost ⟨dir, name⟩ destination fs₀ R)) :
    Untouched ⟨dir, name⟩ fs₀ fs ∨ ∃ a bytes fs₁ left,
      (mkdtemp ⟨dir, name⟩ >>= fun _ => body ⟨dir, name⟩) fates fs₀ = (.ok a, fs₁, left) ∧
      R a bytes ∧ Published ⟨dir, name⟩ destination bytes fs₀ fs₁ ∧
      removeTree ⟨dir, name⟩ left fs₁ = (.raised e, fs, rest) := by
  have hmade := wp_mkdtemp ⟨dir, name⟩ fs₀ fates
  rcases Faulty.bind_raised h with hm | ⟨⟨⟩, fs₁, left, hm, hrun⟩
  · rw [hm] at hmade
    obtain rfl : fs = fs₀ := hmade
    exact .inl fun _ _ => rfl
  rw [hm] at hmade
  obtain rfl : fs₁ = Function.update fs₀ ⟨dir, name⟩ (some .directory) := hmade
  have hpost := hbody left
  rcases Faulty.ensuring_raised hrun with ⟨a, fs₂, left', hb, hc⟩ | ⟨e', fs₂, left', hb, hc⟩
  · rw [hb] at hpost
    obtain ⟨bytes, hR, hpub⟩ := hpost
    exact .inr ⟨a, bytes, fs₂, left', (Faulty.bind_of_ok hm).trans hb, hR, hpub, hc⟩
  · rw [hb] at hpost
    have huntouched : Untouched ⟨dir, name⟩ fs₀ fs₂ := hpost
    refine .inl (huntouched.of_eq fun p hp => ?_)
    rw [← removeTree_outside _ left' fs₂ hp, hc]

end Temp

/-! ## Restore -/

section Restore

variable {S : Type} {rt : Runtime S} {fmt : Formats} {temp : Path} {fs₀ fs : Files}

/-- `data`, with the event count and head `r`, is what the archive `file` holds, and it passes every
check: the archive has the two members once each, the checksum is that of the database, SQLite finds
it intact and the audit chain is accepted. -/
structure Verified (rt : Runtime S) (fmt : Formats) (file data : Bytes) (r : ℕ × String) :
    Prop where
  members : ∃ bundle, fmt.unzip file = .ok bundle ∧ (bundle.map Member.name).Perm memberNames ∧
    ⟨"memory.db", .ok data⟩ ∈ bundle ∧
    ⟨"memory.db.sha256", .ok (Http.encodeAscii (fmt.fileDigest data ++ "\n"))⟩ ∈ bundle
  integrity : fmt.integrityCheck data = .ok ["ok"]
  chain : verifyOpened rt (fmt.opened data) = .ok r

theorem wp_checkDatabase {p : Path} {bytes : Bytes} {mode : Mode}
    {Q : Faulty.Post Files PyExc (ℕ × String)} (hQ : Stops temp fs₀ Q) (h : Inside temp fs₀ fs)
    (hfile : fs p = some (.file bytes mode))
    (hok : ∀ r, fmt.integrityCheck bytes = .ok ["ok"] →
      verifyOpened rt (fmt.opened bytes) = .ok r → Q.ok r fs) :
    (checkDatabase rt fmt p).wp fs Q := by
  refine Faulty.wp_bind (wp_readFile hQ h fun bytes' mode' hf => ?_)
  obtain ⟨rfl, -⟩ : bytes = bytes' ∧ mode = mode' := by simpa [hfile] using hf
  refine Faulty.wp_bind (wp_query hQ h fun rows hrows => ?_)
  show Faulty.wp (ite _ _ _) fs Q
  by_cases hr : rows ≠ ["ok"]
  · rw [if_pos hr]
    exact Faulty.wp_raise ((hQ fs h.untouched).1 _)
  · rw [if_neg hr]
    obtain rfl := not_not.1 hr
    exact wp_query hQ h fun r hv => hok r hrows hv

theorem mem_of_openMember {bundle : List Member} {name : String} {m : Member}
    (h : (match bundle.reverse.find? (·.name = name) with
      | some member => .ok member
      | none => .error (.other "KeyError" name) : Except PyExc Member) = .ok m) :
    m ∈ bundle ∧ m.name = name := by
  cases hf : bundle.reverse.find? (·.name = name) with
  | none => simp [hf] at h
  | some m' =>
    obtain rfl : m' = m := by simpa [hf] using h
    exact ⟨List.mem_reverse.1 (List.mem_of_find?_eq_some hf), by simpa using List.find?_some hf⟩

/-- 66 bytes are read of a checksum that has 65: what comes after it is seen. -/
theorem eq_of_take_eq {sum line : Bytes} {n : ℕ} (hlen : line.length < n)
    (h : sum.take n = line) : sum = line := by
  have hl := congrArg List.length h
  rw [List.length_take] at hl
  rwa [List.take_of_length_le (by omega)] at h

theorem length_checksumLine (hfmt : fmt.Lawful) (data : Bytes) :
    (Http.encodeAscii (fmt.fileDigest data ++ "\n")).length = 65 := by
  have hlen := hfmt.length_fileDigest data
  have hnl : "\n".length = 1 := rfl
  rw [Http.encodeAscii, List.length_map, String.length_toList, String.length_append, hlen, hnl]

theorem wp_restoreIn (hfmt : fmt.Lawful) {archive destination : Path}
    (hdir : destination.dir = temp.dir) (hfresh : Fresh temp fs₀) :
    (restoreIn rt fmt archive destination temp).wp
      (Function.update fs₀ temp (some .directory))
      (bodyPost temp destination fs₀ fun r data =>
        ∃ file mode, fs₀ archive = some (.file file mode) ∧ Verified rt fmt file data r) := by
  have hQ := stops_bodyPost temp destination fs₀ fun (r : ℕ × String) data =>
    ∃ file mode, fs₀ archive = some (.file file mode) ∧ Verified rt fmt file data r
  have hstart : Inside temp fs₀ (Function.update fs₀ temp (some .directory)) :=
    ⟨fun p hp => Function.update_of_ne (fun h => hp (.inl h)) _ _, Function.update_self _ _ _⟩
  have hin := Path.child_isIn temp "memory.db"
  have hne := Path.child_ne temp "memory.db"
  -- the archive and its members
  refine Faulty.wp_bind (wp_readFile hQ hstart fun file mode harchive => ?_)
  have harchive : fs₀ archive = some (.file file mode) := by
    rcases eq_or_ne archive temp with rfl | hat
    · simp at harchive
    · rwa [Function.update_of_ne hat] at harchive
  refine Faulty.wp_bind (wp_query hQ hstart fun bundle hbundle => ?_)
  show Faulty.wp (ite _ _ _) _ _
  by_cases hnames : (bundle.map Member.name).insertionSort (· ≤ ·) ≠ memberNames
  · rw [if_pos hnames]
    exact Faulty.wp_raise hstart.untouched
  rw [if_neg hnames]
  have hperm : (bundle.map Member.name).Perm memberNames := by
    rw [← not_not.1 hnames]
    exact (List.perm_insertionSort _ _).symm
  refine Faulty.wp_bind (wp_query hQ hstart fun sumMember hsumMember => ?_)
  obtain ⟨hsumMem, hsumName⟩ := mem_of_openMember hsumMember
  refine Faulty.wp_bind (wp_query hQ hstart fun sum hsum => ?_)
  refine Faulty.wp_bind (wp_query hQ hstart fun src hsrc => ?_)
  obtain ⟨hsrcMem, hsrcName⟩ := mem_of_openMember hsrc
  -- the staged file
  refine Faulty.wp_bind (wp_createFile hQ hstart ?_)
  have hcreated := hstart.update hin hne (some (.file [] .byUmask))
  refine Faulty.wp_bind (wp_query hQ hcreated fun data hdata => ?_)
  refine Faulty.wp_bind (wp_writeFile hQ hcreated hin hne fun mode' => ?_)
  have hwritten := hcreated.update hin hne (some (.file data mode'))
  refine Faulty.wp_bind (Faulty.wp_bind (wp_readFile hQ hwritten fun data' _ hf => ?_))
  obtain ⟨rfl, -⟩ : data = data' ∧ _ := by simpa using hf
  refine Faulty.wp_pure ?_
  show Faulty.wp (ite _ _ _) _ _
  by_cases hsumEq : sum.take 66 ≠ Http.encodeAscii (fmt.fileDigest data ++ "\n")
  · rw [if_pos hsumEq]
    exact Faulty.wp_raise hwritten.untouched
  rw [if_neg hsumEq]
  have hline : sum = Http.encodeAscii (fmt.fileDigest data ++ "\n") :=
    eq_of_take_eq (by rw [length_checksumLine hfmt]; omega) (not_not.1 hsumEq)
  refine Faulty.wp_bind (wp_checkDatabase hQ hwritten (Function.update_self _ _ _)
    fun r hintegrity hchain => ?_)
  have hverified : Verified rt fmt file data r := by
    refine ⟨⟨bundle, hbundle, hperm, ?_, ?_⟩, hintegrity, hchain⟩
    · rw [← hsrcName, ← hdata]
      exact hsrcMem
    · rw [← hsumName, ← hline, ← hsum]
      exact hsumMem
  exact Faulty.wp_bind (wp_publish hQ hwritten hdir hin hne (Function.update_self _ _ _)
    fun fs' hpub => Faulty.wp_pure ⟨data, ⟨file, mode, harchive, hverified⟩, hpub⟩)

/-- The sidecars are looked for before anything else happens. -/
theorem wpAmong_refuseSidecars {A : Fate PyExc Damage → Prop} {destination : Path}
    {suffixes : List String} {Q : Faulty.Post Files PyExc Unit}
    (hok : (∀ suffix ∈ suffixes, fs (destination.suffixed suffix) = none) → Q.ok () fs)
    (hraised : ∀ msg, Q.raised (.other "FileExistsError" msg) fs) :
    (refuseSidecars destination suffixes).wpAmong A fs Q := by
  induction suffixes with
  | nil => exact Faulty.wpAmong_pure (hok (by simp))
  | cons suffix rest ih =>
    refine Faulty.wpAmong_bind (Faulty.wpAmong_look ?_)
    show Faulty.wpAmong A (ite _ _ _) fs Q
    by_cases h : (fs (destination.suffixed suffix)).isSome
    · rw [if_pos h]
      exact Faulty.wpAmong_raise (hraised _)
    · rw [if_neg h]
      refine ih fun hrest => hok fun x hx => ?_
      rcases List.mem_cons.1 hx with rfl | hx
      · exact Option.not_isSome_iff_eq_none.1 h
      · exact hrest x hx

/-- The result `r` of a restore that puts `data` at `destination`: no sidecar was there, and `data`
is the verified database of the archive. -/
def Restorable (rt : Runtime S) (fmt : Formats) (archive destination : Path) (fs : Files)
    (r : ℕ × String) (data : Bytes) : Prop :=
  (∀ suffix ∈ sidecars, fs (destination.suffixed suffix) = none) ∧
    ∃ file mode, fs archive = some (.file file mode) ∧ Verified rt fmt file data r

theorem wp_restore (rt : Runtime S) (hfmt : fmt.Lawful) (archive : Path) {destination : Path}
    {tempName : String}
    (hfresh : Fresh ⟨destination.dir, tempName⟩ fs) :
    (restore rt fmt archive destination tempName).wp fs
      (commandPost ⟨destination.dir, tempName⟩ destination fs
        (Restorable rt fmt archive destination fs)) := by
  refine Faulty.wp_bind (Faulty.wp_iff_wpAmong.2
    (wpAmong_refuseSidecars (fun hside => ?_) fun _ => .inl fun _ _ => rfl))
  refine wp_temporaryDirectory hfresh (Faulty.wp_mono (wp_restoreIn hfmt rfl hfresh) ?_ ?_ ?_)
  · rintro r s ⟨data, hdata, hpub⟩
    exact ⟨data, ⟨hside, hdata⟩, hpub⟩
  · exact fun _ _ h => h
  · exact fun _ h => h

/-- `restore` up to the removal of its temporary directory. -/
def restoreUnremoved (rt : Runtime S) (fmt : Formats) (archive destination : Path)
    (tempName : String) : Tool (ℕ × String) := do
  refuseSidecars destination sidecars
  mkdtemp ⟨destination.dir, tempName⟩
  restoreIn rt fmt archive destination ⟨destination.dir, tempName⟩

/-- A restore that raises after it has published, in the state `fs'`: everything before the removal
of its temporary directory has gone well, and the removal has raised. -/
def RaisesLate (rt : Runtime S) (fmt : Formats) (archive destination : Path) (tempName : String)
    (fates : List (Fate PyExc Damage)) (fs : Files) (e : PyExc) (fs' : Files)
    (rest : List (Fate PyExc Damage)) : Prop :=
  ∃ r data fs₁ left,
    restoreUnremoved rt fmt archive destination tempName fates fs = (.ok r, fs₁, left) ∧
    Restorable rt fmt archive destination fs r data ∧
    Published ⟨destination.dir, tempName⟩ destination data fs fs₁ ∧
    removeTree ⟨destination.dir, tempName⟩ left fs₁ = (.raised e, fs', rest)

theorem wp_refuseSidecars (destination : Path) (suffixes : List String) (fs : Files) :
    (refuseSidecars destination suffixes).wp fs
      { ok := fun _ fs' => fs' = fs ∧ ∀ suffix ∈ suffixes, fs (destination.suffixed suffix) = none
        raised := fun _ fs' => fs' = fs
        crashed := fun _ => True } :=
  Faulty.wp_iff_wpAmong.2 (wpAmong_refuseSidecars (fun hside => ⟨rfl, hside⟩) fun _ => rfl)

theorem restore_raised (hfmt : fmt.Lawful) {archive destination : Path} {tempName : String}
    {fs' : Files} {fates rest : List (Fate PyExc Damage)} {e : PyExc}
    (hfresh : Fresh ⟨destination.dir, tempName⟩ fs)
    (h : restore rt fmt archive destination tempName fates fs = (.raised e, fs', rest)) :
    Untouched ⟨destination.dir, tempName⟩ fs fs' ∨
      RaisesLate rt fmt archive destination tempName fates fs e fs' rest := by
  have hlooked := wp_refuseSidecars destination sidecars fs fates
  rcases Faulty.bind_raised h with hs | ⟨⟨⟩, fs₁, left, hs, htemp⟩
  · rw [hs] at hlooked
    obtain rfl : fs' = fs := hlooked
    exact .inl fun _ _ => rfl
  rw [hs] at hlooked
  obtain ⟨rfl, hside⟩ : fs₁ = fs ∧ ∀ suffix ∈ sidecars, fs (destination.suffixed suffix) = none :=
    hlooked
  rcases temporaryDirectory_raised htemp (wp_restoreIn hfmt rfl hfresh) with
    huntouched | ⟨r, data, fs₂, left', hbody, hdata, hpub, hremoval⟩
  · exact .inl huntouched
  · refine .inr ⟨r, data, fs₂, left', ?_, ⟨hside, hdata⟩, hpub, hremoval⟩
    rw [restoreUnremoved, Faulty.bind_of_ok hs, hbody]

end Restore

/-! ## Backup -/

section Backup

variable {S : Type} {rt : Runtime S} {fmt : Formats} {temp : Path} {fs₀ fs : Files}

/-- The members that a backup of this image has. -/
def archiveOf (fmt : Formats) (image : Bytes) : Bytes :=
  fmt.zip [("memory.db", image),
    ("memory.db.sha256", Http.encodeAscii (fmt.fileDigest image ++ "\n"))]

/-- What a backup archives, with its result. -/
def Backed (rt : Runtime S) (fmt : Formats) (image : Bytes) (r : ℕ × String) (file : Bytes) :
    Prop :=
  file = archiveOf fmt image ∧ fmt.integrityCheck image = .ok ["ok"] ∧
    verifyOpened rt (fmt.opened image) = .ok r

theorem wp_backupIn (source : Source fmt) {archive : Path} (hdir : archive.dir = temp.dir) :
    (backupIn rt fmt source archive temp).wp (Function.update fs₀ temp (some .directory))
      (bodyPost temp archive fs₀ (Backed rt fmt source.image)) := by
  have hQ := stops_bodyPost temp archive fs₀ (Backed rt fmt source.image)
  have hstart : Inside temp fs₀ (Function.update fs₀ temp (some .directory)) :=
    ⟨fun p hp => Function.update_of_ne (fun h => hp (.inl h)) _ _, Function.update_self _ _ _⟩
  have hin (name : String) := Path.child_isIn temp name
  have hne (name : String) := Path.child_ne temp name
  have hother : temp.child "memory.db" ≠ temp.child "backup.zip" := by
    simp [Path.child]
  refine Faulty.wp_bind (wp_writeFile hQ hstart (hin _) (hne _) fun mode => ?_)
  have hcopied := hstart.update (hin "memory.db") (hne _) (some (.file source.image mode))
  refine Faulty.wp_bind (wp_checkDatabase hQ hcopied (Function.update_self _ _ _)
    fun r hintegrity hchain => ?_)
  refine Faulty.wp_bind (wp_writeFile hQ hcopied (hin _) (hne _) fun mode' => ?_)
  have hopened := hcopied.update (hin "backup.zip") (hne _) (some (.file [] mode'))
  refine Faulty.wp_bind (wp_readFile hQ hopened fun db _ hf => ?_)
  obtain ⟨rfl, -⟩ : source.image = db ∧ _ := by
    simpa [Function.update_of_ne hother] using hf
  refine Faulty.wp_bind (Faulty.wp_bind (wp_readFile hQ hopened fun db _ hf => ?_))
  obtain ⟨rfl, -⟩ : source.image = db ∧ _ := by
    simpa [Function.update_of_ne hother] using hf
  refine Faulty.wp_pure (Faulty.wp_bind (wp_writeFile hQ hopened (hin _) (hne _) fun mode'' => ?_))
  exact Faulty.wp_bind (wp_publish hQ (hopened.update (hin _) (hne _) _) hdir (hin _) (hne _)
    (Function.update_self _ _ _) fun fs' hpub =>
      Faulty.wp_pure ⟨_, ⟨rfl, hintegrity, hchain⟩, hpub⟩)

theorem wp_backup (rt : Runtime S) (source : Source fmt) {archive : Path} {tempName : String}
    (hfresh : Fresh ⟨archive.dir, tempName⟩ fs) :
    (backup rt fmt source archive tempName).wp fs
      (commandPost ⟨archive.dir, tempName⟩ archive fs (Backed rt fmt source.image)) :=
  wp_temporaryDirectory hfresh (wp_backupIn source rfl)

theorem Backed.verified (hfmt : fmt.Lawful) {image file : Bytes} {r : ℕ × String}
    (h : Backed rt fmt image r file) : Verified rt fmt file image r := by
  obtain ⟨rfl, hintegrity, hchain⟩ := h
  exact ⟨⟨_, hfmt.unzip_zip _ _, .refl _, .head _, .tail _ (.head _)⟩, hintegrity, hchain⟩

/-- The archive determines the database. -/
theorem Backed.image_eq (hfmt : fmt.Lawful) {image file data : Bytes} {r r' : ℕ × String}
    (h : Backed rt fmt image r file) (hv : Verified rt fmt file data r') : data = image := by
  obtain ⟨rfl, -⟩ := h
  obtain ⟨bundle, hbundle, -, hdb, -⟩ := hv.members
  obtain rfl : _ = bundle := Except.ok.inj ((hfmt.unzip_zip _ _).symm.trans hbundle)
  simpa using hdb

end Backup

/-! ## When nothing fails -/

section Runs

variable {S : Type} {rt : Runtime S} {fmt : Formats} {temp p : Path} {fs : Files} {bytes : Bytes}
  {mode : Mode}

theorem runs_readFile (h : fs p = some (.file bytes mode)) : (readFile p).Runs fs bytes fs :=
  .query (by rw [h])

theorem runs_writeFile {old : Bytes} (h : fs p = some (.file old mode)) :
    (writeFile p bytes).Runs fs () (Function.update fs p (some (.file bytes mode))) := by
  unfold writeFile
  exact .step (by simp only [h])

theorem runs_createFile (h : fs p = none) :
    (createFile p).Runs fs () (Function.update fs p (some (.file [] .byUmask))) :=
  .step (by simp [h])

theorem runs_checkDatabase {r : ℕ × String} (h : fs p = some (.file bytes mode))
    (hintegrity : fmt.integrityCheck bytes = .ok ["ok"])
    (hchain : verifyOpened rt (fmt.opened bytes) = .ok r) :
    (checkDatabase rt fmt p).Runs fs r fs :=
  .bind (runs_readFile h) (.bind (.query hintegrity) (.query hchain))

theorem runs_publish {staged destination : Path} (h : fs staged = some (.file bytes mode))
    (hne : destination ≠ staged) (hfree : fs destination = none) :
    ∃ fs', (publish staged destination).Runs fs () fs' := by
  have hchmod : (chmod staged).Runs fs ()
      (Function.update fs staged (some (.file bytes .ownerOnly))) := .step (by simp only [h])
  have hself : Function.update fs staged (some (.file bytes .ownerOnly)) staged =
      some (.file bytes .ownerOnly) := Function.update_self _ _ _
  have hlink : (link staged destination).Runs
      (Function.update fs staged (some (.file bytes .ownerOnly))) () _ :=
    .step (by simp only [hself, Function.update_of_ne hne, hfree]; rfl)
  exact ⟨_, .bind hchmod (.bind (.bind (runs_readFile hself) .pure) hlink)⟩

theorem runs_removeTree :
    (removeTree temp).Runs fs () fun p => if p.IsIn temp then none else fs p := .step rfl

theorem runs_refuseSidecars {destination : Path} {suffixes : List String}
    (h : ∀ suffix ∈ suffixes, fs (destination.suffixed suffix) = none) :
    (refuseSidecars destination suffixes).Runs fs () fs := by
  induction suffixes with
  | nil => exact .pure
  | cons suffix rest ih =>
    refine .bind .look ?_
    rw [h suffix (.head _)]
    exact ih fun x hx => h x (.tail _ hx)

/-- A member of a bundle whose names are distinct is found by its name. -/
theorem find_member {bundle : List Member} {m : Member}
    (hnodup : (bundle.map Member.name).Nodup) (hm : m ∈ bundle) :
    bundle.reverse.find? (·.name = m.name) = some m := by
  obtain ⟨m', hm'⟩ : ∃ m', bundle.reverse.find? (·.name = m.name) = some m' :=
    Option.isSome_iff_exists.1 (List.find?_isSome.2 ⟨m, List.mem_reverse.2 hm, by simp⟩)
  have hmem : m' ∈ bundle := List.mem_reverse.1 (List.mem_of_find?_eq_some hm')
  have hname : m'.name = m.name := by simpa using List.find?_some hm'
  rw [hm', List.inj_on_of_nodup_map hnodup hmem hm hname]

theorem runs_openMember {bundle : List Member} {m : Member}
    (hnodup : (bundle.map Member.name).Nodup) (hm : m ∈ bundle) :
    (openMember bundle m.name).Runs fs m fs := .query (by rw [find_member hnodup hm])

/-- A verified archive passes the body of a restore to a free name. -/
theorem runs_restoreIn (hfmt : fmt.Lawful) {archive destination : Path} {file data : Bytes}
    {r : ℕ × String} (harchive : fs archive = some (.file file mode))
    (hv : Verified rt fmt file data r) (hfree : fs destination = none)
    (hne : destination ≠ temp.child "memory.db") (hstaged : fs (temp.child "memory.db") = none) :
    ∃ fs', (restoreIn rt fmt archive destination temp).Runs fs r fs' := by
  obtain ⟨⟨bundle, hunzip, hperm, hdb, hsum⟩, hintegrity, hchain⟩ := hv
  have hnodup : (bundle.map Member.name).Nodup := hperm.symm.nodup (by decide)
  have hsorted : (bundle.map Member.name).insertionSort (· ≤ ·) = memberNames :=
    List.Perm.eq_of_pairwise' (List.pairwise_insertionSort _ _)
      (by decide : memberNames.Pairwise (· ≤ ·)) ((List.perm_insertionSort _ _).trans hperm)
  have hline := length_checksumLine hfmt data
  have hcreated : Function.update fs (temp.child "memory.db") (some (.file [] .byUmask))
      (temp.child "memory.db") = some (.file [] .byUmask) := Function.update_self _ _ _
  have hwritten : Function.update
      (Function.update fs (temp.child "memory.db") (some (.file [] .byUmask)))
      (temp.child "memory.db") (some (.file data .byUmask)) (temp.child "memory.db") =
      some (.file data .byUmask) := Function.update_self _ _ _
  obtain ⟨fs', hpublish⟩ := runs_publish hwritten hne
    (by rw [Function.update_of_ne hne, Function.update_of_ne hne, hfree])
  refine ⟨fs', .bind (runs_readFile harchive) (.bind (.query hunzip) ?_)⟩
  rw [if_neg (not_not.2 hsorted)]
  refine .bind (runs_openMember hnodup hsum) (.bind (.query rfl) (.bind (runs_openMember hnodup hdb)
    (.bind (runs_createFile hstaged) (.bind (.query rfl) (.bind (runs_writeFile hcreated)
      (.bind (.bind (runs_readFile hwritten) .pure) ?_))))))
  rw [List.take_of_length_le (by omega), if_neg (not_not.2 rfl)]
  exact .bind (runs_checkDatabase hwritten hintegrity hchain) (.bind hpublish .pure)

theorem Path.ne_child {p q : Path} (hdir : q.dir = p.dir) (name : String) : q ≠ p.child name := by
  intro h
  have := congrArg (fun q : Path => q.dir.length) h
  simp [Path.child, hdir] at this

variable {archive destination : Path} {tempName : String} {file data : Bytes} {r : ℕ × String}

/-- The body of a restore, in a temporary directory that is not the destination. -/
theorem runs_restoreIn_start (hfmt : fmt.Lawful) (hfresh : Fresh ⟨destination.dir, tempName⟩ fs)
    (harchive : fs archive = some (.file file mode)) (hv : Verified rt fmt file data r)
    (hfree : fs destination = none) (hname : destination.name ≠ tempName) :
    ∃ fs', (restoreIn rt fmt archive destination ⟨destination.dir, tempName⟩).Runs
      (Function.update fs ⟨destination.dir, tempName⟩ (some .directory)) r fs' := by
  have harchiveTemp : archive ≠ ⟨destination.dir, tempName⟩ := by
    rintro rfl
    rw [hfresh _ (.inl rfl)] at harchive
    cases harchive
  have hdestination : destination ≠ ⟨destination.dir, tempName⟩ :=
    fun h => hname (congrArg Path.name h)
  have hchild := Path.ne_child (p := ⟨destination.dir, tempName⟩) (q := destination) rfl
  refine runs_restoreIn hfmt (by rwa [Function.update_of_ne harchiveTemp]) hv
    (by rwa [Function.update_of_ne hdestination]) (hchild _) ?_
  rw [Function.update_of_ne (Path.child_ne _ _)]
  exact hfresh _ (Path.child_isIn _ _)

theorem runs_mkdtemp (hfresh : Fresh temp fs) :
    (mkdtemp temp).Runs fs () (Function.update fs temp (some .directory)) :=
  .step (by simp [hfresh temp (.inl rfl)])

/-- A verified archive is restored to a free name when no step fails. -/
theorem restore_of_verified (hfmt : fmt.Lawful) (hfresh : Fresh ⟨destination.dir, tempName⟩ fs)
    (harchive : fs archive = some (.file file mode)) (hv : Verified rt fmt file data r)
    (hside : ∀ suffix ∈ sidecars, fs (destination.suffixed suffix) = none)
    (hfree : fs destination = none) (hname : destination.name ≠ tempName) :
    (restore rt fmt archive destination tempName [] fs).1 = .ok r := by
  obtain ⟨fs', hbody⟩ := runs_restoreIn_start hfmt hfresh harchive hv hfree hname
  have hrun : (restore rt fmt archive destination tempName).Runs fs r _ :=
    .bind (runs_refuseSidecars hside) (.bind (runs_mkdtemp hfresh)
      (.ensuring hbody runs_removeTree))
  rw [hrun.nil]

/-- The same restore raises if the removal of its temporary directory fails; its destination is
there. -/
theorem restore_late_failure (hfmt : fmt.Lawful) (hfresh : Fresh ⟨destination.dir, tempName⟩ fs)
    (harchive : fs archive = some (.file file mode)) (hv : Verified rt fmt file data r)
    (hside : ∀ suffix ∈ sidecars, fs (destination.suffixed suffix) = none)
    (hfree : fs destination = none) (hname : destination.name ≠ tempName) (e : PyExc)
    (d : Damage) :
    ∃ fates fs', restore rt fmt archive destination tempName fates fs = (.raised e, fs', []) ∧
      fs' destination ≠ none := by
  obtain ⟨fs', hbody⟩ := runs_restoreIn_start hfmt hfresh harchive hv hfree hname
  obtain ⟨data', -, hpub⟩ :
      (bodyPost ⟨destination.dir, tempName⟩ destination fs fun r data =>
        ∃ file mode, fs archive = some (.file file mode) ∧
          Verified rt fmt file data r).ok r fs' := by
    have h : (restoreIn rt fmt archive destination ⟨destination.dir, tempName⟩).wp _ _ :=
      wp_restoreIn hfmt rfl hfresh
    have := h []
    rwa [hbody.nil] at this
  have hremoval : removeTree ⟨destination.dir, tempName⟩ [.fail e d] fs' = (.raised e, _, []) := rfl
  obtain ⟨l, hl⟩ := hbody.ensuring_fail hremoval
  obtain ⟨l', hl'⟩ := (runs_mkdtemp hfresh).exists_bind (f := fun _ =>
    (restoreIn rt fmt archive destination ⟨destination.dir, tempName⟩).ensuring
      (removeTree ⟨destination.dir, tempName⟩)) l
  obtain ⟨fates, hfates⟩ := (runs_refuseSidecars hside).exists_bind (f := fun _ =>
    temporaryDirectory destination.dir tempName (restoreIn rt fmt archive destination)) l'
  refine ⟨fates, _, hfates.trans (hl'.trans hl), ?_⟩
  simp only [hpub.outside, false_and, if_false, hpub.files _ hpub.outside, Function.update_self]
  simp

variable {source : Source fmt}

theorem runs_writeFile_new (h : fs p = none) :
    (writeFile p bytes).Runs fs () (Function.update fs p (some (.file bytes .byUmask))) := by
  unfold writeFile
  exact .step (by simp only [h])

/-- A copy that passes every check is archived under a free name. -/
theorem runs_backupIn {archive : Path} (hintegrity : fmt.integrityCheck source.image = .ok ["ok"])
    (hchain : verifyOpened rt (fmt.opened source.image) = .ok r) (hfree : fs archive = none)
    (hne : archive ≠ temp.child "memory.db") (hne' : archive ≠ temp.child "backup.zip")
    (hdb : fs (temp.child "memory.db") = none) (hzip : fs (temp.child "backup.zip") = none) :
    ∃ fs', (backupIn rt fmt source archive temp).Runs fs r fs' := by
  have hother : temp.child "backup.zip" ≠ temp.child "memory.db" := by simp [Path.child]
  set fs₁ := Function.update fs (temp.child "memory.db") (some (.file source.image .byUmask))
    with hfs₁
  have hcopied : fs₁ (temp.child "memory.db") = some (.file source.image .byUmask) :=
    Function.update_self _ _ _
  have hzip₁ : fs₁ (temp.child "backup.zip") = none := by
    rw [hfs₁, Function.update_of_ne hother, hzip]
  set fs₂ := Function.update fs₁ (temp.child "backup.zip") (some (.file [] .byUmask)) with hfs₂
  have hcopied₂ : fs₂ (temp.child "memory.db") = some (.file source.image .byUmask) := by
    rw [hfs₂, Function.update_of_ne hother.symm, hcopied]
  have hopened : fs₂ (temp.child "backup.zip") = some (.file [] .byUmask) :=
    Function.update_self _ _ _
  have hzipped : Function.update fs₂ (temp.child "backup.zip")
      (some (.file (archiveOf fmt source.image) .byUmask)) (temp.child "backup.zip") =
      some (.file (archiveOf fmt source.image) .byUmask) := Function.update_self _ _ _
  obtain ⟨fs', hpublish⟩ := runs_publish hzipped hne' (by
    rw [Function.update_of_ne hne', hfs₂, Function.update_of_ne hne', hfs₁,
      Function.update_of_ne hne, hfree])
  exact ⟨fs', .bind (runs_writeFile_new hdb) (.bind (runs_checkDatabase hcopied hintegrity hchain)
    (.bind (runs_writeFile_new hzip₁) (.bind (runs_readFile hcopied₂)
      (.bind (.bind (runs_readFile hcopied₂) .pure) (.bind (runs_writeFile hopened)
        (.bind hpublish .pure))))))⟩

/-- A backup to a free name, in which nothing fails. -/
theorem backup_of_verified {archive : Path} {archiveTemp : String}
    (hfresh : Fresh ⟨archive.dir, archiveTemp⟩ fs)
    (hintegrity : fmt.integrityCheck source.image = .ok ["ok"])
    (hchain : verifyOpened rt (fmt.opened source.image) = .ok r) (hfree : fs archive = none)
    (hname : archive.name ≠ archiveTemp) :
    ∃ fs', backup rt fmt source archive archiveTemp [] fs = (.ok r, fs', []) := by
  have hchild := Path.ne_child (p := ⟨archive.dir, archiveTemp⟩) (q := archive) rfl
  have harchive : archive ≠ ⟨archive.dir, archiveTemp⟩ := fun h => hname (congrArg Path.name h)
  have hempty (name : String) : Function.update fs ⟨archive.dir, archiveTemp⟩ (some .directory)
      (Path.child ⟨archive.dir, archiveTemp⟩ name) = none := by
    rw [Function.update_of_ne (Path.child_ne _ _)]
    exact hfresh _ (Path.child_isIn _ _)
  have hstart : Function.update fs ⟨archive.dir, archiveTemp⟩ (some .directory) archive = none := by
    rwa [Function.update_of_ne harchive]
  obtain ⟨fs', hbody⟩ :=
    runs_backupIn hintegrity hchain hstart (hchild _) (hchild _) (hempty _) (hempty _)
  have hrun : (backup rt fmt source archive archiveTemp).Runs fs r _ :=
    .bind (runs_mkdtemp hfresh) (.ensuring hbody runs_removeTree)
  exact ⟨_, hrun.nil⟩

end Runs

/-! ## The two commands -/

section Commands

variable {S : Type} {rt : Runtime S} {fmt : Formats}

/-- **Restore is all or nothing, and it undoes backup.** Whatever fails, a restore ends as
`commandPost` says, and one that raises after it has published has failed in the removal of its
temporary directory only. What a backup archived is one committed state of its source; a restore
that returns puts that state at its destination and returns what the backup returned, and a restore
to a free name returns if no step fails. -/
theorem restore_all_or_nothing (hfmt : fmt.Lawful) :
    (∀ (archive destination : Path) (tempName : String) (fs : Files),
      Fresh ⟨destination.dir, tempName⟩ fs →
      (restore rt fmt archive destination tempName).wp fs
        (commandPost ⟨destination.dir, tempName⟩ destination fs
          (Restorable rt fmt archive destination fs)) ∧
      ∀ (fates rest : List (Fate PyExc Damage)) (e : PyExc) (fs' : Files),
        restore rt fmt archive destination tempName fates fs = (.raised e, fs', rest) →
        Untouched ⟨destination.dir, tempName⟩ fs fs' ∨
          RaisesLate rt fmt archive destination tempName fates fs e fs' rest) ∧
    ∀ (source : Source fmt) (archive : Path) (tempName : String) (fs fs' : Files)
      (fates rest : List (Fate PyExc Damage)) (r : ℕ × String),
      Fresh ⟨archive.dir, tempName⟩ fs →
      backup rt fmt source archive tempName fates fs = (.ok r, fs', rest) →
      ∃ file d, fs archive = none ∧
        fs' = Function.update fs archive (some (.file file .ownerOnly)) ∧
        source.committed d ∧ Audit.verify rt d none = .ok r ∧
        ∀ (archive' destination : Path) (tempName' : String) (mode : Mode) (fs₁ : Files),
          Fresh ⟨destination.dir, tempName'⟩ fs₁ → fs₁ archive' = some (.file file mode) →
          (∀ (fates' rest' : List (Fate PyExc Damage)) (r' : ℕ × String) (fs₂ : Files),
            restore rt fmt archive' destination tempName' fates' fs₁ = (.ok r', fs₂, rest') →
            r' = r ∧ ∃ data, fs₂ destination = some (.file data .ownerOnly) ∧
              fmt.opened data = .store d) ∧
          ((∀ suffix ∈ sidecars, fs₁ (destination.suffixed suffix) = none) →
            fs₁ destination = none → destination.name ≠ tempName' →
            (restore rt fmt archive' destination tempName' [] fs₁).1 = .ok r) := by
  refine ⟨fun archive destination tempName fs hfresh =>
    ⟨wp_restore rt hfmt archive hfresh, fun _ _ _ _ => restore_raised hfmt hfresh⟩, ?_⟩
  intro source archive tempName fs fs' fates rest r hfresh hbackup
  obtain ⟨file, hbacked, hfree, rfl⟩ : (commandPost ⟨archive.dir, tempName⟩ archive fs
      (Backed rt fmt source.image)).ok r fs' := by
    have := wp_backup rt source hfresh fates
    rwa [hbackup] at this
  obtain ⟨d, hd, hopened⟩ := source.copies
  have hverified := hbacked.verified hfmt
  have hverify : Audit.verify rt d none = .ok r := by
    have := hverified.chain
    rwa [hopened] at this
  refine ⟨file, d, hfree, rfl, hd, hverify, ?_⟩
  intro archive' destination tempName' mode fs₁ hfresh' harchive
  refine ⟨fun fates' rest' r' fs₂ hrestore => ?_, fun hside hfree' hname =>
    restore_of_verified hfmt hfresh' harchive hverified hside hfree' hname⟩
  obtain ⟨data, ⟨-, file', mode', harchive', hv⟩, -, rfl⟩ :
      (commandPost ⟨destination.dir, tempName'⟩ destination fs₁
        (Restorable rt fmt archive' destination fs₁)).ok r' fs₂ := by
    have := wp_restore rt hfmt archive' hfresh' fates'
    rwa [hrestore] at this
  obtain ⟨rfl, -⟩ : file = file' ∧ mode = mode' := by simpa [harchive] using harchive'
  obtain rfl : data = source.image := hbacked.image_eq hfmt hv
  exact ⟨Except.ok.inj (hv.chain.symm.trans hverified.chain), _, Function.update_self _ _ _,
    hopened⟩

end Commands

/-! ## A small archive -/

/-- A database of two pages that holds an empty table `events` with the columns of the chain. -/
def sampleDatabase : Bytes :=
  Http.encodeAscii "SQLite format 3" ++ [0, 2, 0, 1, 1, 0, 64, 32, 32, 0, 0, 0, 1, 0, 0, 0, 2] ++
    List.replicate 11 0 ++ [1, 0, 0, 0, 4] ++ List.replicate 11 0 ++ [1] ++ List.replicate 35 0 ++
    [1, 0, 46, 122, 112, 13, 0, 0, 0, 1, 1, 148, 0, 1, 148] ++ List.replicate 294 0 ++
    [106, 1, 7, 23, 25, 25, 1, 129, 47] ++ Http.encodeAscii "tableeventsevents" ++ [2] ++
    Http.encodeAscii "CREATE TABLE events(id,timestamp,client_id,action,key,value," ++
    Http.encodeAscii "prev_hash,event_hash)" ++ [13, 0, 0, 0, 0, 2] ++ List.replicate 506 0

def sampleDigest : String := "054ec1d9cd1d57a96058f4c2639191882566ac228c26ac064107769c2770c87a"

def sampleLine : Bytes := Http.encodeAscii (sampleDigest ++ "\n")

/-- The header before a stored member of a ZIP file. -/
def localHeader (crc size : Bytes) (name : String) : Bytes :=
  [80, 75, 3, 4, 20, 0, 0, 0, 0, 0, 0, 0, 33, 0] ++ crc ++ size ++ size ++
    [UInt8.ofNat name.length, 0, 0, 0] ++ Http.encodeAscii name

/-- Its entry in the directory at the end. -/
def centralHeader (crc size offset : Bytes) (name : String) : Bytes :=
  [80, 75, 1, 2, 20, 3, 20, 0, 0, 0, 0, 0, 0, 0, 33, 0] ++ crc ++ size ++ size ++
    [UInt8.ofNat name.length, 0, 0, 0, 0, 0, 0, 0, 0, 0, 0, 0, 128, 1] ++ offset ++
    Http.encodeAscii name

/-- The archive of that database. -/
def sampleZip : Bytes :=
  localHeader [107, 9, 119, 53] [0, 4, 0, 0] "memory.db" ++ sampleDatabase ++
    localHeader [72, 131, 121, 141] [65, 0, 0, 0] "memory.db.sha256" ++ sampleLine ++
    centralHeader [107, 9, 119, 53] [0, 4, 0, 0] [0, 0, 0, 0] "memory.db" ++
    centralHeader [72, 131, 121, 141] [65, 0, 0, 0] [39, 4, 0, 0] "memory.db.sha256" ++
    [80, 75, 5, 6, 0, 0, 0, 0, 2, 0, 2, 0, 117, 0, 0, 0, 150, 4, 0, 0, 0, 0]

/-- A ZIP file read: that archive, or one in a format of its own, which holds the length of the
database in unary before the two members. -/
def sampleUnzip (b : Bytes) : Except PyExc (List Member) :=
  if b = sampleZip then
    .ok [⟨"memory.db", .ok sampleDatabase⟩, ⟨"memory.db.sha256", .ok sampleLine⟩]
  else
    match b with
    | 0 :: l =>
      let n := (l.takeWhile (· = 1)).length
      let members := l.drop (n + 1)
      .ok [⟨"memory.db", .ok (members.take n)⟩, ⟨"memory.db.sha256", .ok (members.drop n)⟩]
    | _ => .error (.other "BadZipFile" "File is not a zip file")

/-- A ZIP file written. -/
def sampleZipped (members : List (String × Bytes)) : Bytes :=
  match members with
  | [(_, db), (_, sum)] =>
    if db = sampleDatabase ∧ sum = sampleLine then sampleZip
    else 0 :: (List.replicate db.length 1 ++ 0 :: (db ++ sum))
  | _ => []

/-- The real functions on that archive and database. -/
def sampleFormats : Formats where
  fileDigest b := if b = sampleDatabase then sampleDigest else Audit.genesis
  unzip := sampleUnzip
  zip := sampleZipped
  integrityCheck b :=
    if b = sampleDatabase then .ok ["ok"]
    else .error (.other "DatabaseError" "file is not a database")
  opened b :=
    if b = sampleDatabase then .other (.ok (0, Audit.genesis))
    else .other (.error (.other "DatabaseError" "file is not a database"))

theorem sampleUnzip_sampleZip : sampleUnzip sampleZip =
    .ok [⟨"memory.db", .ok sampleDatabase⟩, ⟨"memory.db.sha256", .ok sampleLine⟩] := by
  unfold sampleUnzip
  rw [if_pos rfl]

theorem sampleUnzip_sampleZipped (db sum : Bytes) :
    sampleUnzip (sampleZipped [("memory.db", db), ("memory.db.sha256", sum)]) =
      .ok [⟨"memory.db", .ok db⟩, ⟨"memory.db.sha256", .ok sum⟩] := by
  rw [sampleZipped]
  by_cases h : db = sampleDatabase ∧ sum = sampleLine
  · obtain ⟨rfl, rfl⟩ := h
    rw [if_pos ⟨rfl, rfl⟩, sampleUnzip_sampleZip]
  · have hzip : (0 :: (List.replicate db.length 1 ++ 0 :: (db ++ sum)) : Bytes) ≠ sampleZip :=
      fun h => absurd (List.cons.inj h).1 (by decide)
    have hunary : ((List.replicate db.length 1 ++ 0 :: (db ++ sum) : Bytes).takeWhile (· = 1)) =
        List.replicate db.length 1 := by
      rw [List.takeWhile_append_of_pos (by simp)]
      simp
    unfold sampleUnzip
    rw [if_neg h, if_neg hzip]
    simp only [hunary, List.length_replicate]
    rw [← List.drop_drop, List.drop_left' List.length_replicate]
    simp

theorem sampleFormats_lawful : sampleFormats.Lawful where
  length_fileDigest b := by
    show (ite _ _ _ : String).length = 64
    split <;> decide
  unzip_zip := sampleUnzip_sampleZipped

def sampleArchive : Path := ⟨["backups"], "memory-backup.zip"⟩

def sampleDestination : Path := ⟨["data"], "recovered.db"⟩

def emptyFiles : Files := fun _ => none

theorem emptyFiles_fresh (temp : Path) : Fresh temp emptyFiles := fun _ _ => rfl

/-- A machine that holds one archive. -/
def archiveOnly (file : Bytes) : Files :=
  Function.update emptyFiles sampleArchive (some (.file file .ownerOnly))

section ArchiveOnly

variable (file : Bytes)

theorem archiveOnly_archive : archiveOnly file sampleArchive = some (.file file .ownerOnly) :=
  Function.update_self _ _ _

theorem archiveOnly_of_ne {p : Path} (h : p ≠ sampleArchive) : archiveOnly file p = none :=
  Function.update_of_ne h _ _

theorem archiveOnly_destination : archiveOnly file sampleDestination = none :=
  archiveOnly_of_ne file (by decide)

theorem archiveOnly_sidecars :
    ∀ suffix ∈ sidecars, archiveOnly file (sampleDestination.suffixed suffix) = none :=
  fun suffix hs => archiveOnly_of_ne file (by revert suffix; decide)

theorem archiveOnly_fresh (name : String) :
    Fresh ⟨sampleDestination.dir, name⟩ (archiveOnly file) := by
  intro p hp
  refine archiveOnly_of_ne file fun h => ?_
  subst h
  simp [Path.IsIn, sampleArchive, sampleDestination] at hp

end ArchiveOnly

/-- A machine that holds the archive of that database. -/
def sampleFiles : Files := archiveOnly sampleZip

theorem sampleZip_verified :
    Verified (.tabulated []) sampleFormats sampleZip sampleDatabase (0, Audit.genesis) := by
  have hdigest : sampleFormats.fileDigest sampleDatabase = sampleDigest := by
    simp only [sampleFormats, if_true]
  have hintegrity : sampleFormats.integrityCheck sampleDatabase = .ok ["ok"] := by
    simp only [sampleFormats, if_true]
  have hopened : sampleFormats.opened sampleDatabase = .other (.ok (0, Audit.genesis)) := by
    simp only [sampleFormats, if_true]
  have hline : Http.encodeAscii (sampleFormats.fileDigest sampleDatabase ++ "\n") =
      sampleLine := by
    rw [hdigest, sampleLine]
  have hunzip : sampleFormats.unzip sampleZip =
      .ok [⟨"memory.db", .ok sampleDatabase⟩, ⟨"memory.db.sha256", .ok sampleLine⟩] := by
    have : sampleFormats.unzip = sampleUnzip := rfl
    rw [this, sampleUnzip_sampleZip]
  refine ⟨⟨_, hunzip, .refl _, ?_, ?_⟩, hintegrity, ?_⟩
  · simp
  · rw [hline]
    simp
  · rw [hopened]
    rfl

/-- The file of the store `Audit.sampleLog`: seven pages of 4096 bytes. -/
def logDatabase : Bytes :=
  -- the header and the schema
  Http.encodeAscii "SQLite format 3" ++ [0, 16, 0, 1, 1, 0, 64, 32, 32, 0, 0, 0, 6, 0, 0, 0, 7] ++
    List.replicate 11 0 ++ [4, 0, 0, 0, 4] ++ List.replicate 11 0 ++ [1] ++ List.replicate 35 0 ++
    [6, 0, 46, 122, 112, 13, 15, 248, 0, 7, 12, 156, 0, 15, 66, 15, 205, 14, 117, 14, 35, 13, 109,
      13, 228, 12, 156] ++ List.replicate 3106 0 ++
    [129, 78, 7, 7, 27, 51, 25, 8, 130, 91] ++
    Http.encodeAscii "triggerevents_require_hashevents" ++
    Http.encodeAscii "CREATE TRIGGER events_require_hash BEFORE INSERT ON events WHEN " ++
    Http.encodeAscii "NEW.prev_hash IS NULL OR NEW.event_hash IS NULL BEGIN SELECT RAISE(ABORT, " ++
    Http.encodeAscii "'event hashes required'); END" ++
    [117, 5, 7, 23, 43, 43, 1, 129, 33] ++ Http.encodeAscii "tablefact_embeddingsfact_embeddings" ++
    [6] ++ Http.encodeAscii "CREATE TABLE fact_embeddings(key TEXT PRIMARY KEY," ++
    Http.encodeAscii "embedding BLOB NOT NULL)" ++ [61, 6, 6, 23, 81, 43, 1, 0] ++
    Http.encodeAscii "indexsqlite_autoindex_fact_embeddings_1fact_embeddings" ++
    [7, 80, 4, 6, 23, 43, 43, 1, 89] ++ Http.encodeAscii "tablesqlite_sequencesqlite_sequence" ++
    [5] ++ Http.encodeAscii "CREATE TABLE sqlite_sequence(name,seq)" ++
    [129, 74, 3, 7, 23, 25, 25, 1, 130, 111] ++ Http.encodeAscii "tableeventsevents" ++ [4] ++
    Http.encodeAscii "CREATE TABLE events(id INTEGER PRIMARY KEY AUTOINCREMENT," ++
    Http.encodeAscii "timestamp TEXT NOT NULL,client_id TEXT NOT NULL,action TEXT NOT NULL," ++
    Http.encodeAscii "key TEXT,value TEXT,prev_hash TEXT,event_hash TEXT)" ++
    [129, 8, 1, 7, 23, 23, 23, 1, 129, 111] ++ Http.encodeAscii "tablefactsfacts" ++ [2] ++
    Http.encodeAscii "CREATE TABLE facts(key TEXT PRIMARY KEY,value TEXT NOT NULL," ++
    Http.encodeAscii "source_client TEXT NOT NULL,updated_at TEXT NOT NULL)" ++
    [41, 2, 6, 23, 61, 23, 1, 0] ++ Http.encodeAscii "indexsqlite_autoindex_facts_1facts" ++
    [3, 0, 0, 0, 8, 0, 0, 0, 0] ++
  -- `facts` and its index, which are empty
    [13, 0, 0, 0, 0, 16] ++ List.replicate 4090 0 ++ [10, 0, 0, 0, 0, 16] ++
    List.replicate 4090 0 ++
  -- `events`
    [13, 0, 0, 0, 2, 14, 160, 0, 15, 80, 14, 160] ++ List.replicate 3732 0 ++
    [129, 45, 2, 11, 0, 61, 19, 25, 15, 0, 129, 13, 129, 13] ++
    Http.encodeAscii "2026-01-01T00:00:00.000Zbobdeletek" ++
    Http.encodeAscii "e18f19e17df63efbab99132989a1f719da3016b0d4fa335418bda5fb0c23212f" ++
    Http.encodeAscii "79f49de45a2c6c423af7ad73a0d7bec60561a74c96bfb3987315464a6af342da" ++
    [129, 45, 1, 11, 0, 61, 23, 19, 15, 15, 129, 13, 129, 13] ++
    Http.encodeAscii "2026-01-01T00:00:00.000Zalicesetkv" ++ List.replicate 64 48 ++
    Http.encodeAscii "e18f19e17df63efbab99132989a1f719da3016b0d4fa335418bda5fb0c23212f" ++
  -- `sqlite_sequence`, then `fact_embeddings` and its index, which are empty
    [13, 0, 0, 0, 1, 15, 244, 0, 15, 244] ++ List.replicate 4074 0 ++ [10, 1, 3, 25, 1] ++
    Http.encodeAscii "events" ++ [2] ++ [13, 0, 0, 0, 0, 16] ++ List.replicate 4090 0 ++
    [10, 0, 0, 0, 0, 16] ++ List.replicate 4090 0

def logDigest : String := "fd2fc0850d754471de4ee91eed5e80be5057cd8e82b0dc466e043cf1f6818da3"

def logLine : Bytes := Http.encodeAscii (logDigest ++ "\n")

/-- The archive of that file. -/
def logZip : Bytes :=
  localHeader [53, 189, 130, 253] [0, 112, 0, 0] "memory.db" ++ logDatabase ++
    localHeader [144, 247, 113, 18] [65, 0, 0, 0] "memory.db.sha256" ++ logLine ++
    centralHeader [53, 189, 130, 253] [0, 112, 0, 0] [0, 0, 0, 0] "memory.db" ++
    centralHeader [144, 247, 113, 18] [65, 0, 0, 0] [39, 112, 0, 0] "memory.db.sha256" ++
    [80, 75, 5, 6, 0, 0, 0, 0, 2, 0, 2, 0, 117, 0, 0, 0, 150, 112, 0, 0, 0, 0]

def logMembers : List Member := [⟨"memory.db", .ok logDatabase⟩, ⟨"memory.db.sha256", .ok logLine⟩]

/-- The real functions on that file and its archive; the others are as in `sampleFormats`. -/
def logFormats : Formats where
  fileDigest b := if b = logDatabase then logDigest else sampleFormats.fileDigest b
  unzip b := if b = logZip then .ok logMembers else sampleUnzip b
  zip members :=
    if members = [("memory.db", logDatabase), ("memory.db.sha256", logLine)] then logZip
    else sampleZipped members
  integrityCheck b := if b = logDatabase then .ok ["ok"] else sampleFormats.integrityCheck b
  opened b := if b = logDatabase then .store Audit.sampleLog else sampleFormats.opened b

theorem sampleZip_ne_logZip : sampleZip ≠ logZip := by
  intro h
  -- the checksums in the first headers differ
  have hbyte := congrArg (fun b : Bytes => b[14]?) h
  revert hbyte
  decide +kernel

theorem sampleZipped_ne_logZip (db sum : Bytes) :
    sampleZipped [("memory.db", db), ("memory.db.sha256", sum)] ≠ logZip := by
  rw [sampleZipped]
  split
  · exact sampleZip_ne_logZip
  · exact fun h => absurd (List.cons.inj h).1 (by decide)

theorem logFormats_lawful : logFormats.Lawful where
  length_fileDigest b := by
    show (ite _ _ _ : String).length = 64
    split
    · decide
    · exact sampleFormats_lawful.length_fileDigest b
  unzip_zip db sum := by
    simp only [logFormats]
    by_cases h : [("memory.db", db), ("memory.db.sha256", sum)] =
        [("memory.db", logDatabase), ("memory.db.sha256", logLine)]
    · obtain ⟨rfl, rfl⟩ : db = logDatabase ∧ sum = logLine := by simpa using h
      rw [if_pos rfl, if_pos rfl, logMembers]
    · rw [if_neg h, if_neg (sampleZipped_ne_logZip db sum), sampleUnzip_sampleZipped]

theorem logFormats_opened : logFormats.opened logDatabase = .store Audit.sampleLog := by
  simp only [logFormats, if_true]

theorem logFormats_integrityCheck : logFormats.integrityCheck logDatabase = .ok ["ok"] := by
  simp only [logFormats, if_true]

/-- A copy of the store `Audit.sampleLog`, which nobody writes to. -/
def logCopy : Source logFormats where
  committed d := d = Audit.sampleLog
  image := logDatabase
  copies := ⟨_, rfl, logFormats_opened⟩

def logHead : String := "79f49de45a2c6c423af7ad73a0d7bec60561a74c96bfb3987315464a6af342da"

theorem logDatabase_verified :
    verifyOpened Audit.sampleRuntime (logFormats.opened logDatabase) = .ok (2, logHead) := by
  rw [logFormats_opened, verifyOpened, Audit.sample_verify, logHead]

/-- A backup of that store, and restores of the archive: the first in which nothing fails, and any
others. -/
theorem restore_all_or_nothing_sample :
    ∃ file, backup Audit.sampleRuntime logFormats logCopy sampleArchive "tmp0" [] emptyFiles =
        (.ok (2, logHead), archiveOnly file, []) ∧
      (restore Audit.sampleRuntime logFormats sampleArchive sampleDestination "tmp1" []
        (archiveOnly file)).1 = .ok (2, logHead) ∧
      (∀ fates rest r fs,
        restore Audit.sampleRuntime logFormats sampleArchive sampleDestination "tmp1" fates
          (archiveOnly file) = (.ok r, fs, rest) →
        r = (2, logHead) ∧ ∃ data, fs sampleDestination = some (.file data .ownerOnly) ∧
          logFormats.opened data = .store Audit.sampleLog) ∧
      ∀ fates rest e fs,
        restore Audit.sampleRuntime logFormats sampleArchive sampleDestination "tmp1" fates
          (archiveOnly file) = (.raised e, fs, rest) →
        Untouched ⟨sampleDestination.dir, "tmp1"⟩ (archiveOnly file) fs ∨
          RaisesLate Audit.sampleRuntime logFormats sampleArchive sampleDestination "tmp1" fates
            (archiveOnly file) e fs rest := by
  have main := @restore_all_or_nothing _ Audit.sampleRuntime _ logFormats_lawful
  obtain ⟨fs, hbackup⟩ : ∃ fs, backup Audit.sampleRuntime logFormats logCopy sampleArchive "tmp0"
      [] emptyFiles = (.ok (2, logHead), fs, []) :=
    backup_of_verified (emptyFiles_fresh ⟨sampleArchive.dir, "tmp0"⟩) logFormats_integrityCheck
      logDatabase_verified rfl (by decide)
  obtain ⟨file, d, -, rfl, rfl, -, hrestore⟩ := main.2 logCopy sampleArchive "tmp0" emptyFiles fs
    [] [] (2, logHead) (emptyFiles_fresh _) hbackup
  obtain ⟨hreturns, hgoes⟩ := hrestore sampleArchive sampleDestination "tmp1" .ownerOnly
    (archiveOnly file) (archiveOnly_fresh file _) (archiveOnly_archive file)
  refine ⟨file, hbackup, hgoes (archiveOnly_sidecars file) (archiveOnly_destination file)
    (by decide), fun fates rest r fs h => hreturns fates rest r fs h, ?_⟩
  exact (main.1 sampleArchive sampleDestination "tmp1" _ (archiveOnly_fresh file _)).2

/-- **A restore that raises after it has published.** Its destination did not exist, the removal of
its temporary directory is refused, and its destination exists. -/
theorem restore_raises_published :
    sampleFiles sampleDestination = none ∧ ∃ fates fs',
      restore (.tabulated []) sampleFormats sampleArchive sampleDestination "tmp0" fates
        sampleFiles =
          (.raised (osError "PermissionError" ⟨sampleDestination.dir, "tmp0"⟩), fs', []) ∧
      fs' sampleDestination ≠ none := by
  have hfree : sampleFiles sampleDestination = none := archiveOnly_destination _
  refine ⟨hfree, restore_late_failure sampleFormats_lawful (archiveOnly_fresh _ _)
    (archiveOnly_archive _) sampleZip_verified (archiveOnly_sidecars _) hfree (by decide) _
    ⟨[], fun _ => false⟩⟩

end MemoryBridge.Admin
