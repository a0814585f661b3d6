import MemoryBridge.Foundations.SingleWriter.System

/-!
# Runs that cannot be told apart

A run is determined by its schedule: who moves, and what the environment decides. `Sys.recast` gives
the calls of a system other names and changes the results of their programs; `Sys.relabel` only
renames them. Where the calls of one name have one program up to these results, recasting commutes
with every step (`Sys.exec_recast`), so two schedules that are the same but for the names lead to
the same contents, the same observations and corresponding replies.
-/

namespace SingleWriter

variable {ι κ κ' σ τ ε μ ξ ξ' α β : Type}

def Entry.relabel (f : κ → κ') : Entry ι κ σ τ ξ α → Entry ι κ' σ τ ξ α
  | .obs p n c o => .obs p n (f c) o
  | .reply p n c r => .reply p n (f c) r

/-- The reply that an entry is, of whom and to which of its calls. -/
def Entry.reply? : Entry ι κ σ τ ξ α → Option (ι × ℕ × Except ξ α)
  | .obs .. => none
  | .reply p n _ r => some (p, n, r)

/-- The replies of a trace, in order. -/
def replies (t : List (Entry ι κ σ τ ξ α)) : List (ι × ℕ × Except ξ α) := t.filterMap Entry.reply?

theorem replies_relabel (f : κ → κ') (t : List (Entry ι κ σ τ ξ α)) :
    replies (t.map (Entry.relabel f)) = replies t := by
  have he : (Entry.reply? ∘ Entry.relabel f : Entry ι κ σ τ ξ α → _) = Entry.reply? := by
    funext e
    cases e <;> rfl
  rw [replies, List.filterMap_map, he, replies]

def Move.relabel (f : κ → κ') : Move κ τ ε → Move κ' τ ε
  | .start c => .start (f c)
  | .operate ch => .operate ch
  | .finish => .finish
  | .crash => .crash

def Proc.relabel (f : κ → κ') (x : Proc κ σ τ ε μ ξ α) : Proc κ' σ τ ε μ ξ α :=
  ⟨x.conn, x.mem, x.count, x.job.map (Prod.map f id)⟩

/-! ## Other results -/

def Entry.recast (f : κ → κ') (g : ι → κ → Except ξ α → Except ξ' β) :
    Entry ι κ σ τ ξ α → Entry ι κ' σ τ ξ' β
  | .obs p n c o => .obs p n (f c) o
  | .reply p n c r => .reply p n (f c) (g p c r)

/-- The replies of a recast trace are the original ones under `h` exactly if each of them is. -/
theorem replies_recast_eq_iff (f : κ → κ') (g : ι → κ → Except ξ α → Except ξ' β)
    (h : Except ξ α → Except ξ' β) (t : List (Entry ι κ σ τ ξ α)) :
    replies (t.map (Entry.recast f g)) = (replies t).map (Prod.map id (Prod.map id h)) ↔
      ∀ p n c r, .reply p n c r ∈ t → g p c r = h r := by
  induction t with
  | nil => simp [replies]
  | cons e t ih =>
    cases e with
    | obs p n c o =>
      have hcons : replies (.obs p n c o :: t) = replies t := rfl
      have hcons' : replies ((Entry.obs p n c o :: t).map (Entry.recast f g)) =
          replies (t.map (Entry.recast f g)) := rfl
      rw [hcons, hcons', ih]
      simp
    | reply p n c r =>
      have hcons : replies (.reply p n c r :: t) = (p, n, r) :: replies t := rfl
      have hcons' : replies ((Entry.reply p n c r :: t).map (Entry.recast f g)) =
          (p, n, g p c r) :: replies (t.map (Entry.recast f g)) := rfl
      rw [hcons, hcons', List.map_cons, List.cons.injEq, ih]
      simp only [Prod.map_apply, id_eq, Prod.mk.injEq, true_and, List.mem_cons, Entry.reply.injEq]
      constructor
      · rintro ⟨hr, ht⟩ q m c' r' (⟨rfl, rfl, rfl, rfl⟩ | hm)
        · exact hr
        · exact ht q m c' r' hm
      · intro hall
        exact ⟨hall p n c r (.inl ⟨rfl, rfl, rfl, rfl⟩),
          fun q m c' r' hm => hall q m c' r' (.inr hm)⟩

def Proc.recast (f : κ → κ') (g : κ → Except ξ α → Except ξ' β) (x : Proc κ σ τ ε μ ξ α) :
    Proc κ' σ τ ε μ ξ' β :=
  ⟨x.conn, x.mem, x.count, x.job.map fun j => (f j.1, j.2.mapResult (g j.1))⟩

namespace Sys

/-- The same system, its calls renamed. -/
def relabel (f : κ → κ') (s : Sys ι κ σ τ ε μ ξ α) : Sys ι κ' σ τ ε μ ξ α where
  db := s.db
  lock := s.lock
  procs p := (s.procs p).relabel f
  trace := s.trace.map (Entry.relabel f)

/-- The same system, its calls renamed and their results changed. -/
def recast (f : κ → κ') (g : ι → κ → Except ξ α → Except ξ' β) (s : Sys ι κ σ τ ε μ ξ α) :
    Sys ι κ' σ τ ε μ ξ' β where
  db := s.db
  lock := s.lock
  procs p := (s.procs p).recast f (g p)
  trace := s.trace.map (Entry.recast f g)

/-- Renaming alone keeps every result. -/
theorem relabel_eq_recast (f : κ → κ') :
    (relabel f : Sys ι κ σ τ ε μ ξ α → _) = recast f fun _ _ r => r := by
  have hentry : (Entry.relabel f : Entry ι κ σ τ ξ α → _) = Entry.recast f fun _ _ r => r := by
    funext e
    cases e <;> rfl
  have hproc : (Proc.relabel f : Proc κ σ τ ε μ ξ α → _) = Proc.recast f fun _ r => r := by
    funext x
    simp only [Proc.relabel, Proc.recast, Prog.mapResult_id]
    rfl
  funext s
  simp only [relabel, recast, hentry, hproc]

theorem recast_initial (f : κ → κ') (g : ι → κ → Except ξ α → Except ξ' β) (d : σ) (m : μ) :
    (initial d m : Sys ι κ σ τ ε μ ξ α).recast f g = initial d m := rfl

variable [DecidableEq ι] {f : κ → κ'} {g : ι → κ → Except ξ α → Except ξ' β}
  {K : Clients ι κ σ τ ε μ ξ α} {K' : Clients ι κ' σ τ ε μ ξ' β}

theorem update_recast (procs : ι → Proc κ σ τ ε μ ξ α) (p : ι) (x : Proc κ σ τ ε μ ξ α) :
    (fun q => (Function.update procs p x q).recast f (g q)) =
      Function.update (fun q => (procs q).recast f (g q)) p (x.recast f (g p)) := by
  funext q
  exact Function.apply_update (fun q => Proc.recast f (g q)) procs p x q

omit [DecidableEq ι] in
theorem obs_recast (p : ι) (n : ℕ) (c : κ) (l : List (Obs σ τ)) :
    (l.map (.obs p n c) : List (Entry ι κ σ τ ξ α)).map (Entry.recast f g) =
      l.map (.obs p n (f c)) := by
  rw [List.map_map]
  rfl

variable (hcode : ∀ p c, K'.code p (f c) = (K.code p c).mapResult (g p c))
  (hboot : K'.boot = K.boot)

include hcode hboot in
/-- A step of the recast system is the recast step. -/
theorem step_recast (s : Sys ι κ σ τ ε μ ξ α) (p : ι) (mv : Move κ τ ε) :
    (s.recast f g).step K' p (mv.relabel f) = (s.step K p mv).map (recast f g) := by
  cases mv with
  | start c =>
    simp only [step, Move.relabel, start, recast, Proc.recast]
    cases hj : (s.procs p).job with
    | some j => rfl
    | none =>
      simp only [Option.map_none, Option.map_some, Option.some.injEq, recast, update_recast, hcode]
      rfl
  | operate ch =>
    simp only [step, Move.relabel, operate, recast, Proc.recast]
    cases hj : (s.procs p).job with
    | none => rfl
    | some j =>
      obtain ⟨c, k⟩ := j
      cases k with
      | ret a =>
        simp only [Option.map_some, Prog.mapResult]
        cases g p c (.ok a) <;> rfl
      | raise e =>
        simp only [Option.map_some, Prog.mapResult]
        cases g p c (.error e) <;> rfl
      | op o k =>
        simp only [Option.map_some, Prog.mapResult, Option.map_map]
        refine Option.map_congr fun out _ => ?_
        simp only [Function.comp_apply, recast, update_recast, List.map_append, obs_recast]
        rfl
  | finish =>
    simp only [step, Move.relabel, finish, recast, Proc.recast]
    cases hj : (s.procs p).job with
    | none => rfl
    | some j =>
      obtain ⟨c, k⟩ := j
      cases k with
      | op o k => rfl
      | ret a =>
        simp only [Option.map_some, Prog.mapResult]
        cases hg : g p c (.ok a) <;>
          simp only [Prog.ofExcept, reply, recast, update_recast, List.map_append, List.map_cons,
            List.map_nil, Entry.recast, hg] <;> rfl
      | raise e =>
        simp only [Option.map_some, Prog.mapResult]
        cases hg : g p c (.error e) <;>
          simp only [Prog.ofExcept, reply, recast, update_recast, List.map_append, List.map_cons,
            List.map_nil, Entry.recast, hg] <;> rfl
  | crash =>
    simp only [step, Move.relabel, crash, recast, Option.map_some, Option.some.injEq,
      update_recast, hboot]
    rfl

variable (K) in
/-- The steps of a schedule, in order. -/
def exec (l : List (ι × Move κ τ ε)) (s : Sys ι κ σ τ ε μ ξ α) : Option (Sys ι κ σ τ ε μ ξ α) :=
  l.foldlM (fun s x => s.step K x.1 x.2) s

/-- The same schedule, its calls renamed. -/
def relabelMoves (f : κ → κ') (l : List (ι × Move κ τ ε)) : List (ι × Move κ' τ ε) :=
  l.map (Prod.map id (Move.relabel f))

omit [DecidableEq ι] in
theorem relabelMoves_id (l : List (ι × Move κ τ ε)) : relabelMoves id l = l := by
  have hmove : (Move.relabel id : Move κ τ ε → _) = id := by
    funext mv
    cases mv <;> rfl
  rw [relabelMoves, hmove, Prod.map_id, List.map_id]

theorem reach_of_exec {l : List (ι × Move κ τ ε)} {s s' : Sys ι κ σ τ ε μ ξ α}
    (hm : ∀ x ∈ l, ∀ c, x.2 = .start c → K.may x.1 c) (h : s.exec K l = some s') :
    Reach K s s' := by
  induction l generalizing s with
  | nil =>
    obtain rfl := Option.some.inj h
    exact .refl
  | cons x l ih =>
    obtain ⟨s₁, h₁, h⟩ := Option.bind_eq_some_iff.1 h
    exact .head ⟨x.1, x.2, hm x (by simp), h₁⟩ (ih (fun y hy => hm y (List.mem_cons_of_mem _ hy)) h)

include hcode hboot in
/-- A run of the recast system is the recast run. -/
theorem exec_recast (l : List (ι × Move κ τ ε)) (s : Sys ι κ σ τ ε μ ξ α) :
    (s.recast f g).exec K' (relabelMoves f l) = (s.exec K l).map (recast f g) := by
  induction l generalizing s with
  | nil => rfl
  | cons x l ih =>
    obtain ⟨p, mv⟩ := x
    show ((s.recast f g).step K' p (mv.relabel f)).bind (exec K' (relabelMoves f l)) =
      ((s.step K p mv).bind (exec K l)).map (recast f g)
    rw [step_recast hcode hboot]
    cases s.step K p mv with
    | none => rfl
    | some s₁ => exact ih s₁

/-- A run of the renamed system is the renamed run. -/
theorem exec_relabel {K' : Clients ι κ' σ τ ε μ ξ α} (hcode : ∀ p c, K'.code p (f c) = K.code p c)
    (hboot : K'.boot = K.boot) (l : List (ι × Move κ τ ε)) (s : Sys ι κ σ τ ε μ ξ α) :
    (s.relabel f).exec K' (relabelMoves f l) = (s.exec K l).map (relabel f) := by
  rw [relabel_eq_recast]
  exact exec_recast (fun p c => (hcode p c).trans (Prog.mapResult_id _).symm) hboot l s

/-- **Schedules that differ only in names that do not matter** lead to the same contents and the
same replies. -/
theorem exec_eq {K : Clients ι κ σ τ ε μ ξ α} {f : κ → κ}
    (hcode : ∀ p c, K.code p (f c) = K.code p c) {l₁ l₂ : List (ι × Move κ τ ε)}
    (hl : relabelMoves f l₁ = relabelMoves f l₂) {s s₁ : Sys ι κ σ τ ε μ ξ α}
    (h₁ : s.exec K l₁ = some s₁) :
    ∃ s₂, s.exec K l₂ = some s₂ ∧ s₂.db = s₁.db ∧ replies s₂.trace = replies s₁.trace := by
  have h := exec_relabel (f := f) hcode rfl l₁ s
  rw [hl, exec_relabel (f := f) hcode rfl l₂ s, h₁] at h
  obtain ⟨s₂, h₂, heq⟩ := Option.map_eq_some_iff.1 h
  have hdb : (s₂.relabel f).db = (s₁.relabel f).db := by rw [heq]
  have ht : (s₂.relabel f).trace = (s₁.relabel f).trace := by rw [heq]
  refine ⟨s₂, h₂, hdb, ?_⟩
  rw [← replies_relabel f s₂.trace, ← replies_relabel f s₁.trace]
  exact congrArg replies ht

end Sys

end SingleWriter
