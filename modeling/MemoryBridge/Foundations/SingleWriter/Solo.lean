import MemoryBridge.Foundations.SingleWriter.System

/-!
# A client that runs alone

`Prog.alone` is what a program does when no other client takes a step and none of its operations
fails, as a function. `reach_of_alone` turns it into a run of the system: where nobody else holds
the lock, a client can complete its call that way. The equations of the operations compute `alone`
for a program that is given in terms of them.
-/

namespace SingleWriter

variable {ι κ σ τ ε μ ξ α β : Type}

/-- Where a program ends: its result, the committed contents, its connection and memory. -/
structure Final (σ μ ξ α : Type) : Type where
  result : Except ξ α
  db : σ
  conn : Conn σ
  mem : μ

/-- Once the lock is held, it does not matter whether others could take it. -/
theorem Op.run_of_locked {o : Op σ μ} {d : σ} {c : Conn σ} {m : μ} {ch : Choice τ ε}
    (hc : c.locked = true) (free : Bool) : o.run d free c m ch = o.run d true c m ch := by
  cases c with
  | idle => cases hc
  | deferred => cases hc
  | writer b w => cases o <;> cases ch <;> cases free <;> rfl

namespace Prog

/-- The program, whose operations all succeed, the lock being free and the clock showing `t`. -/
def alone (t : τ) : Prog σ τ ε μ ξ α → σ → Conn σ → μ → Option (Final σ μ ξ α)
  | ret a, d, c, m => some ⟨.ok a, d, c, m⟩
  | raise e, d, c, m => some ⟨.error e, d, c, m⟩
  | op o k, d, c, m =>
    (o.run d true c m (o.undisturbed t)).bind fun out =>
      (k out.ans).alone t out.db out.conn out.mem

section Equations

variable {t : τ} {d b w : σ} {c : Conn σ} {m : μ} {f : ε → ξ}

@[simp] theorem alone_ret (a : α) :
    (ret a : Prog σ τ ε μ ξ α).alone t d c m = some ⟨.ok a, d, c, m⟩ := rfl

@[simp] theorem alone_raise (e : ξ) :
    (raise e : Prog σ τ ε μ ξ α).alone t d c m = some ⟨.error e, d, c, m⟩ := rfl

@[simp] theorem alone_ofExcept (r : Except ξ α) :
    (ofExcept r : Prog σ τ ε μ ξ α).alone t d c m = some ⟨r, d, c, m⟩ := by
  cases r <;> rfl

theorem alone_bind (p : Prog σ τ ε μ ξ α) (g : α → Prog σ τ ε μ ξ β) :
    (p >>= g).alone t d c m = (p.alone t d c m).bind fun x =>
      match x.result with
      | .ok a => (g a).alone t x.db x.conn x.mem
      | .error e => some ⟨.error e, x.db, x.conn, x.mem⟩ := by
  induction p generalizing d c m with
  | ret a => rfl
  | raise e => rfl
  | op o k ih =>
    rw [op_bind, alone, alone, Option.bind_assoc]
    exact congrArg _ (funext fun out => ih out.ans)

/-- A program whose first part succeeds. -/
theorem alone_bind_of_ok {p : Prog σ τ ε μ ξ α} {g : α → Prog σ τ ε μ ξ β} {a : α} {d' : σ}
    {c' : Conn σ} {m' : μ} (hp : p.alone t d c m = some ⟨.ok a, d', c', m'⟩) :
    (p >>= g).alone t d c m = (g a).alone t d' c' m' := by
  rw [alone_bind, hp]
  rfl

theorem alone_tryCatch (p : Prog σ τ ε μ ξ α) (g : ξ → Prog σ τ ε μ ξ α) :
    (p.tryCatch g).alone t d c m = (p.alone t d c m).bind fun x =>
      match x.result with
      | .ok a => some ⟨.ok a, x.db, x.conn, x.mem⟩
      | .error e => (g e).alone t x.db x.conn x.mem := by
  induction p generalizing d c m with
  | ret a => rfl
  | raise e => rfl
  | op o k ih =>
    rw [tryCatch, alone, alone, Option.bind_assoc]
    exact congrArg _ (funext fun out => ih out.ans)

/-- A `try` whose body succeeds. -/
theorem alone_tryCatch_of_ok {p : Prog σ τ ε μ ξ α} {g : ξ → Prog σ τ ε μ ξ α} {a : α} {d' : σ}
    {c' : Conn σ} {m' : μ} (hp : p.alone t d c m = some ⟨.ok a, d', c', m'⟩) :
    (p.tryCatch g).alone t d c m = some ⟨.ok a, d', c', m'⟩ := by
  rw [alone_tryCatch, hp]
  rfl

@[simp] theorem alone_call : (call f : Prog σ τ ε μ ξ Unit).alone t d c m =
    some ⟨.ok (), d, c, m⟩ := rfl

@[simp] theorem alone_getMem : (getMem : Prog σ τ ε μ ξ μ).alone t d c m =
    some ⟨.ok m, d, c, m⟩ := rfl

@[simp] theorem alone_putMem (m' : μ) : (putMem m' : Prog σ τ ε μ ξ Unit).alone t d c m =
    some ⟨.ok (), d, c, m'⟩ := rfl

@[simp] theorem alone_beginImmediate :
    (beginImmediate f : Prog σ τ ε μ ξ Unit).alone t d .idle m =
      some ⟨.ok (), d, .writer d d, m⟩ := rfl

@[simp] theorem alone_select_idle (q : σ → α) :
    (select f q : Prog σ τ ε μ ξ α).alone t d .idle m = some ⟨.ok (q d), d, .idle, m⟩ := rfl

@[simp] theorem alone_select_writer (q : σ → α) :
    (select f q : Prog σ τ ε μ ξ α).alone t d (.writer b w) m =
      some ⟨.ok (q w), d, .writer b w, m⟩ := rfl

theorem alone_execute_writer {u : σ → Except ξ (σ × α)} {w' : σ} {a : α} (hu : u w = .ok (w', a)) :
    (execute f u : Prog σ τ ε μ ξ α).alone t d (.writer b w) m =
      some ⟨.ok a, d, .writer b w', m⟩ := by
  show (ofExcept (result u w) : Prog σ τ ε μ ξ α).alone t d (.writer b (applied u w)) m = _
  rw [alone_ofExcept, result, applied, hu]
  rfl

/-- A transaction whose body succeeds with the lock held. -/
theorem alone_transaction {body : Prog σ τ ε μ ξ α} {a : α} {m' : μ}
    (hb : body.alone t d c m = some ⟨.ok a, d, .writer b w, m'⟩) :
    (transaction f body).alone t d c m = some ⟨.ok a, w, .idle, m'⟩ := by
  refine alone_tryCatch_of_ok ?_
  rw [alone_bind_of_ok hb]
  rfl

end Equations

end Prog

/-! ## In the system -/

variable [DecidableEq ι] {K : Clients ι κ σ τ ε μ ξ α} {p : ι}

/-- Where nobody else holds the lock, the client can complete its program as if it were alone. -/
theorem reach_of_alone {t : τ} {c : κ} {x : Final σ μ ξ α} {k : Prog σ τ ε μ ξ α}
    {s : Sys ι κ σ τ ε μ ξ α} (hj : (s.procs p).job = some (c, k))
    (hl : s.lock = if (s.procs p).conn.locked then some p else none)
    (hx : k.alone t s.db (s.procs p).conn (s.procs p).mem = some x) :
    ∃ s', Reach K s s' ∧ s'.db = x.db ∧
      s'.procs p = ⟨x.conn, x.mem, (s.procs p).count, some (c, Prog.ofExcept x.result)⟩ ∧
      s'.lock = if x.conn.locked then some p else none := by
  induction k generalizing s with
  | ret a =>
    obtain rfl := Option.some.inj hx
    exact ⟨s, .refl, rfl, by simp [Prog.ofExcept, ← hj], hl⟩
  | raise e =>
    obtain rfl := Option.some.inj hx
    exact ⟨s, .refl, rfl, by simp [Prog.ofExcept, ← hj], hl⟩
  | op o k ih =>
    obtain ⟨out, hout, hx⟩ := Option.bind_eq_some_iff.1 hx
    have hrun : o.run s.db s.lock.isNone (s.procs p).conn (s.procs p).mem (o.undisturbed t) =
        some out := by
      cases hc : (s.procs p).conn.locked with
      | true => rwa [Op.run_of_locked hc]
      | false =>
        rw [hc] at hl
        rwa [hl]
    -- the state after this operation
    let s₁ : Sys ι κ σ τ ε μ ξ α :=
      { db := out.db
        lock := if out.conn.locked then some p else s.unlock p
        procs := Function.update s.procs p
          ⟨out.conn, out.mem, (s.procs p).count, some (c, k out.ans)⟩
        trace := s.trace ++ out.obs.toList.map (.obs p (s.procs p).count c) }
    have hp₁ : s₁.procs p = ⟨out.conn, out.mem, (s.procs p).count, some (c, k out.ans)⟩ :=
      Function.update_self ..
    have hs₁ : Step K s s₁ :=
      ⟨p, .operate (o.undisturbed t), nofun, by simp [Sys.step, Sys.operate, hj, hrun, s₁]⟩
    have hl₁ : s₁.lock = if (s₁.procs p).conn.locked then some p else none := by
      rw [hp₁]
      show (if out.conn.locked then some p else s.unlock p) = _
      rw [Sys.unlock, hl]
      cases (s.procs p).conn.locked <;> simp
    obtain ⟨s', hs', hdb, hp, hlock⟩ :=
      ih out.ans (s := s₁) (by rw [hp₁]) hl₁ (by rw [hp₁]; exact hx)
    exact ⟨s', .head hs₁ hs', hdb, by rw [hp, hp₁], hlock⟩

/-- A program that has ended can reply. -/
theorem exists_finish {c : κ} {r : Except ξ α} {s : Sys ι κ σ τ ε μ ξ α}
    (hj : (s.procs p).job = some (c, Prog.ofExcept r)) :
    ∃ s', Step K s s' ∧ s'.db = s.db ∧ s'.procs p = { s.procs p with job := none } ∧
      s'.lock = s.lock ∧ .reply p (s.procs p).count c r ∈ s'.trace := by
  refine ⟨s.reply p c r, ⟨p, .finish, nofun, ?_⟩, rfl, Function.update_self .., rfl,
    by simp [Sys.reply]⟩
  cases r <;> simp [Sys.step, Sys.finish, hj, Prog.ofExcept]

/-- Where nobody holds the lock, a client that is running nothing can make a call alone, and runs
nothing afterwards. -/
theorem reach_of_call {t : τ} {c : κ} {x : Final σ μ ξ α} {s : Sys ι κ σ τ ε μ ξ α}
    (hmay : K.may p c) (hj : (s.procs p).job = none) (hc : (s.procs p).conn = .idle)
    (hl : s.lock = none) (hx : (K.code p c).alone t s.db .idle (s.procs p).mem = some x) :
    ∃ s', Reach K s s' ∧ s'.db = x.db ∧
      s'.procs p = ⟨x.conn, x.mem, (s.procs p).count + 1, none⟩ ∧
      (s'.lock = if x.conn.locked then some p else none) ∧
      .reply p ((s.procs p).count + 1) c x.result ∈ s'.trace := by
  let s₁ := { s with
    procs := Function.update s.procs p { s.procs p with
      count := (s.procs p).count + 1, job := some (c, K.code p c) } }
  have hs₁ : Step K s s₁ := by
    refine ⟨p, .start c, fun c' hc' => ?_, by simp [Sys.step, Sys.start, hj, s₁]⟩
    cases hc'
    exact hmay
  have hp₁ : s₁.procs p = { s.procs p with
      count := (s.procs p).count + 1, job := some (c, K.code p c) } := Function.update_self ..
  obtain ⟨s₂, hs₂, hdb, hp₂, hl₂⟩ := reach_of_alone (K := K) (s := s₁) (p := p) (t := t) (x := x)
    (by rw [hp₁]) (by simp [hc, s₁, hl, Conn.locked]) (by rw [hp₁, hc]; exact hx)
  obtain ⟨s₃, hs₃, hdb₃, hp₃, hl₃, hrep⟩ := exists_finish (K := K) (s := s₂) (p := p) (c := c)
    (r := x.result) (by rw [hp₂])
  rw [hp₂, hp₁] at hrep hp₃
  exact ⟨s₃, .trans (.head hs₁ hs₂) (.single hs₃), hdb₃.trans hdb, hp₃, hl₃.trans hl₂, hrep⟩

end SingleWriter
