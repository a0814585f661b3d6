import MemoryBridge.Foundations.SingleWriter.Solo

/-!
# Assertions before every operation

`p.during A Q c m`: whatever the other clients do and whichever operations fail, `A` holds before
each operation of `p`, of the operation, the connection and the memory, and `Q` where `p` ends. The
contents of the database do not matter to it, so its rules are shorter than those of `wp`.

`p.failsFast E` is about what comes after a failure: `p` then only rolls back and raises an
exception of `E`.

Both are carried to runs by `Reach.client`, the rule for invariants of each client: if the program
of every call satisfies them, every client satisfies them at the place where it is (`Reach.during`,
`Reach.failsFast`). `reach_of_reading` is what assertions are good for: a call that only reads can
be completed by the steps of its own client, whoever holds the lock meanwhile.
-/

namespace SingleWriter

variable {ι κ σ τ ε μ ξ α β : Type}

/-- The answer is a failure. -/
def Op.Failed : (o : Op σ μ) → o.Answer τ ε → Prop
  | .call, x => ∃ e, x = .error e
  | .beginImmediate, x => ∃ e, x = .error e
  | .select, x => ∃ e, x = .error e
  | .execute _, x => ∃ e, x = .error e
  | .commit, x => ∃ e, x = .error e
  | .now, _ | .getMem, _ | .putMem _, _ | .inTransaction, _ | .rollback, _ => False

namespace Prog

/-- `A` holds before each operation, `Q` at the end. -/
def during (A : Op σ μ → Conn σ → μ → Prop) (Q : Except ξ α → Conn σ → μ → Prop) :
    Prog σ τ ε μ ξ α → Conn σ → μ → Prop
  | ret a, c, m => Q (.ok a) c m
  | raise e, c, m => Q (.error e) c m
  | op o k, c, m => A o c m ∧ ∀ (db : σ) (free : Bool) (ch : Choice τ ε) (out : Outcome τ ε o),
      o.run db free c m ch = some out → (k out.ans).during A Q out.conn out.mem

section Rules

variable {A : Op σ μ → Conn σ → μ → Prop} {Q : Except ξ α → Conn σ → μ → Prop} {c : Conn σ} {m : μ}
  {f : ε → ξ}

theorem during_mono {Q' : Except ξ α → Conn σ → μ → Prop} {p : Prog σ τ ε μ ξ α}
    (h : p.during A Q c m) (hQ : ∀ r c m, Q r c m → Q' r c m) : p.during A Q' c m := by
  induction p generalizing c m with
  | ret a => exact hQ _ _ _ h
  | raise e => exact hQ _ _ _ h
  | op o k ih => exact ⟨h.1, fun db free ch out hr => ih _ (h.2 db free ch out hr)⟩

@[simp] theorem during_ofExcept (r : Except ξ α) :
    (ofExcept r : Prog σ τ ε μ ξ α).during A Q c m ↔ Q r c m := by
  cases r <;> rfl

/-- The first of two programs run in sequence. -/
def duringThen (A : Op σ μ → Conn σ → μ → Prop) (g : α → Prog σ τ ε μ ξ β)
    (Q : Except ξ β → Conn σ → μ → Prop) : Except ξ α → Conn σ → μ → Prop
  | .ok a, c, m => (g a).during A Q c m
  | .error e, c, m => Q (.error e) c m

theorem during_bind {p : Prog σ τ ε μ ξ α} {g : α → Prog σ τ ε μ ξ β}
    {Q : Except ξ β → Conn σ → μ → Prop} :
    (p >>= g).during A Q c m ↔ p.during A (duringThen A g Q) c m := by
  induction p generalizing c m with
  | ret a => rfl
  | raise e => rfl
  | op o k ih =>
    rw [op_bind]
    exact and_congr_right fun _ => forall₄_congr fun _ _ _ out => imp_congr_right fun _ => ih _

/-- The body of a `try`. -/
def duringElse (A : Op σ μ → Conn σ → μ → Prop) (g : ξ → Prog σ τ ε μ ξ α)
    (Q : Except ξ α → Conn σ → μ → Prop) : Except ξ α → Conn σ → μ → Prop
  | .ok a, c, m => Q (.ok a) c m
  | .error e, c, m => (g e).during A Q c m

theorem during_tryCatch {p : Prog σ τ ε μ ξ α} {g : ξ → Prog σ τ ε μ ξ α} :
    (p.tryCatch g).during A Q c m ↔ p.during A (duringElse A g Q) c m := by
  induction p generalizing c m with
  | ret a => rfl
  | raise e => rfl
  | op o k ih =>
    exact and_congr_right fun _ => forall₄_congr fun _ _ _ out => imp_congr_right fun _ => ih _

theorem during_now {Q : Except ξ τ → Conn σ → μ → Prop} (hA : A .now c m)
    (hok : ∀ t, Q (.ok t) c m) : (now : Prog σ τ ε μ ξ τ).during A Q c m := by
  refine ⟨hA, fun db free ch out hr => ?_⟩
  cases ch <;> simp only [Op.run, reduceCtorEq, Option.some.injEq] at hr
  subst hr
  exact hok _

theorem during_call {Q : Except ξ Unit → Conn σ → μ → Prop} (hA : A .call c m)
    (hok : Q (.ok ()) c m) (hf : ∀ x, Q (.error (f x)) c m) :
    (call f : Prog σ τ ε μ ξ Unit).during A Q c m := by
  refine ⟨hA, fun db free ch out hr => ?_⟩
  cases ch <;> simp only [Op.run, reduceCtorEq, Option.some.injEq] at hr <;> subst hr
  · exact hok
  · exact hf _

theorem during_getMem {Q : Except ξ μ → Conn σ → μ → Prop} (hA : A .getMem c m)
    (hok : Q (.ok m) c m) : (getMem : Prog σ τ ε μ ξ μ).during A Q c m := by
  refine ⟨hA, fun db free ch out hr => ?_⟩
  cases ch <;> simp only [Op.run, reduceCtorEq, Option.some.injEq] at hr
  subst hr
  exact hok

theorem during_putMem {Q : Except ξ Unit → Conn σ → μ → Prop} {m' : μ} (hA : A (.putMem m') c m)
    (hok : Q (.ok ()) c m') : (putMem m' : Prog σ τ ε μ ξ Unit).during A Q c m := by
  refine ⟨hA, fun db free ch out hr => ?_⟩
  cases ch <;> simp only [Op.run, reduceCtorEq, Option.some.injEq] at hr
  subst hr
  exact hok

theorem during_inTransaction {Q : Except ξ Bool → Conn σ → μ → Prop} (hA : A .inTransaction c m)
    (hok : Q (.ok c.inTransaction) c m) :
    (inTransaction : Prog σ τ ε μ ξ Bool).during A Q c m := by
  refine ⟨hA, fun db free ch out hr => ?_⟩
  cases ch <;> simp only [Op.run, reduceCtorEq, Option.some.injEq] at hr
  subst hr
  exact hok

theorem during_beginImmediate {Q : Except ξ Unit → Conn σ → μ → Prop} (hA : A .beginImmediate c m)
    (hok : ∀ d, Q (.ok ()) (.writer d d) m) (hf : ∀ x, Q (.error (f x)) c m) :
    (beginImmediate f : Prog σ τ ε μ ξ Unit).during A Q c m := by
  refine ⟨hA, fun db free ch out hr => ?_⟩
  cases ch <;> simp only [Op.run, reduceCtorEq] at hr
  case go =>
    split at hr
    case h_1 =>
      obtain rfl := Option.some.inj hr
      exact hok db
    case h_2 => cases hr
  case fail e =>
    obtain rfl := Option.some.inj hr
    exact hf e

theorem during_select {q : σ → α} (hA : A .select c m) (hok : ∀ d, Q (.ok (q d)) c m)
    (hf : ∀ x, Q (.error (f x)) c m ∧ Q (.error (f x)) .idle m) :
    (select f q : Prog σ τ ε μ ξ α).during A Q c m := by
  refine ⟨hA, fun db free ch out hr => ?_⟩
  cases ch <;> simp only [Op.run, reduceCtorEq] at hr
  case go =>
    split at hr <;> obtain rfl := Option.some.inj hr
    · exact hok _
    · exact hok db
  case fail e =>
    obtain rfl := Option.some.inj hr
    exact (hf e).1
  case abort e =>
    obtain rfl := Option.some.inj hr
    exact (hf e).2

theorem during_execute {u : σ → Except ξ (σ × α)} (hA : A (.execute (applied u)) c m)
    (hok : ∀ r b w, Q r (.writer b w) m) (hf : ∀ x c', Q (.error (f x)) c' m) :
    (execute f u : Prog σ τ ε μ ξ α).during A Q c m := by
  refine ⟨hA, fun db free ch out hr => ?_⟩
  cases ch <;> simp only [Op.run, reduceCtorEq] at hr
  case go =>
    split at hr
    case h_1 =>
      obtain rfl := Option.some.inj hr
      exact (during_ofExcept _).2 (hok _ _ _)
    case h_2 =>
      obtain rfl := Option.some.inj hr
      exact (during_ofExcept _).2 (hok _ _ _)
    case h_3 => cases hr
  case fail e =>
    split at hr <;> obtain rfl := Option.some.inj hr <;> exact hf e _
  case abort e =>
    obtain rfl := Option.some.inj hr
    exact hf e _

/-- The body of a transaction. -/
def duringClose (A : Op σ μ → Conn σ → μ → Prop) (f : ε → ξ) (Q : Except ξ α → Conn σ → μ → Prop) :
    Except ξ α → Conn σ → μ → Prop
  | .ok a, c, m => A .commit c m ∧ (∀ c', A .rollback c' m) ∧ Q (.ok a) .idle m ∧
      ∀ x, Q (.error (f x)) .idle m
  | .error e, c, m => A .rollback c m ∧ Q (.error e) .idle m

theorem during_rollbackRaise {e : ξ} (hA : A .rollback c m) (hQ : Q (.error e) .idle m) :
    (rollbackRaise e : Prog σ τ ε μ ξ α).during A Q c m := by
  refine ⟨hA, fun db free ch out hr => ?_⟩
  cases ch <;> simp only [Op.run, reduceCtorEq, Option.some.injEq] at hr
  subst hr
  exact hQ

theorem during_transaction {body : Prog σ τ ε μ ξ α} (h : body.during A (duringClose A f Q) c m) :
    (transaction f body).during A Q c m := by
  refine during_tryCatch.2 (during_bind.2 (during_mono h fun r c m hr => ?_))
  cases r with
  | error e => exact during_rollbackRaise hr.1 hr.2
  | ok a =>
    obtain ⟨hA, hroll, hok, hf⟩ := hr
    refine during_bind.2 ⟨hA, fun db free ch out hr => ?_⟩
    cases ch <;> simp only [Op.run, reduceCtorEq] at hr
    case go => split at hr <;> obtain rfl := Option.some.inj hr <;> exact hok
    case fail e =>
      obtain rfl := Option.some.inj hr
      exact during_rollbackRaise (hroll c) (hf e)
    case abort e =>
      obtain rfl := Option.some.inj hr
      exact during_rollbackRaise (hroll .idle) (hf e)

end Rules

/-! ## After a failure -/

/-- The program only rolls back, and raises an exception of `E`. -/
def givesUp (E : ξ → Prop) : Prog σ τ ε μ ξ α → Prop
  | ret _ => False
  | raise e => E e
  | op o k => o = .rollback ∧ ∀ x, (k x).givesUp E

/-- After an operation that fails, the program gives up. -/
def failsFast (E : ξ → Prop) : Prog σ τ ε μ ξ α → Prop
  | ret _ | raise _ => True
  | op o k => (∀ x, o.Failed x → (k x).givesUp E) ∧ ∀ x, (k x).failsFast E

section Failures

variable {E : ξ → Prop} {f : ε → ξ}

theorem givesUp_bind {p : Prog σ τ ε μ ξ α} {g : α → Prog σ τ ε μ ξ β} (h : p.givesUp E) :
    (p >>= g).givesUp E := by
  induction p with
  | ret a => cases h
  | raise e => exact h
  | op o k ih => exact ⟨h.1, fun x => ih x (h.2 x)⟩

theorem givesUp_tryCatch {E' : ξ → Prop} {p : Prog σ τ ε μ ξ α} {g : ξ → Prog σ τ ε μ ξ α}
    (h : p.givesUp E) (hg : ∀ e, E e → (g e).givesUp E') : (p.tryCatch g).givesUp E' := by
  induction p with
  | ret a => cases h
  | raise e => exact hg e h
  | op o k ih => exact ⟨h.1, fun x => ih x (h.2 x)⟩

theorem givesUp_rollbackRaise {e : ξ} (he : E e) :
    (rollbackRaise e : Prog σ τ ε μ ξ α).givesUp E := ⟨rfl, fun _ => he⟩

theorem failsFast_bind {p : Prog σ τ ε μ ξ α} {g : α → Prog σ τ ε μ ξ β} (hp : p.failsFast E)
    (hg : ∀ a, (g a).failsFast E) : (p >>= g).failsFast E := by
  induction p with
  | ret a => exact hg a
  | raise e => trivial
  | op o k ih => exact ⟨fun x hx => givesUp_bind (hp.1 x hx), fun x => ih x (hp.2 x)⟩

/-- A handler may go on after the exceptions that no failure raises. -/
theorem failsFast_tryCatch {E' : ξ → Prop} {p : Prog σ τ ε μ ξ α} {g : ξ → Prog σ τ ε μ ξ α}
    (hp : p.failsFast E) (hg : ∀ e, (g e).failsFast E') (hE : ∀ e, E e → (g e).givesUp E') :
    (p.tryCatch g).failsFast E' := by
  induction p with
  | ret a => trivial
  | raise e => exact hg e
  | op o k ih => exact ⟨fun x hx => givesUp_tryCatch (hp.1 x hx) hE, fun x => ih x (hp.2 x)⟩

theorem failsFast_ofExcept (r : Except ξ α) :
    (ofExcept r : Prog σ τ ε μ ξ α).failsFast E := by
  cases r <;> trivial

theorem failsFast_now : (now : Prog σ τ ε μ ξ τ).failsFast E :=
  ⟨fun _ h => False.elim h, fun _ => trivial⟩

theorem failsFast_getMem : (getMem : Prog σ τ ε μ ξ μ).failsFast E :=
  ⟨fun _ h => False.elim h, fun _ => trivial⟩

theorem failsFast_putMem (m : μ) : (putMem m : Prog σ τ ε μ ξ Unit).failsFast E :=
  ⟨fun _ h => False.elim h, fun _ => trivial⟩

theorem failsFast_inTransaction : (inTransaction : Prog σ τ ε μ ξ Bool).failsFast E :=
  ⟨fun _ h => False.elim h, fun _ => trivial⟩

theorem failsFast_call (hf : ∀ x, E (f x)) : (call f : Prog σ τ ε μ ξ Unit).failsFast E :=
  ⟨by rintro _ ⟨e, rfl⟩; exact hf e, fun _ => failsFast_ofExcept _⟩

theorem failsFast_beginImmediate (hf : ∀ x, E (f x)) :
    (beginImmediate f : Prog σ τ ε μ ξ Unit).failsFast E :=
  ⟨by rintro _ ⟨e, rfl⟩; exact hf e, fun _ => failsFast_ofExcept _⟩

theorem failsFast_select (hf : ∀ x, E (f x)) (q : σ → α) :
    (select f q : Prog σ τ ε μ ξ α).failsFast E :=
  ⟨by rintro _ ⟨e, rfl⟩; exact hf e, fun _ => failsFast_ofExcept _⟩

theorem failsFast_execute (hf : ∀ x, E (f x)) (u : σ → Except ξ (σ × α)) :
    (execute f u : Prog σ τ ε μ ξ α).failsFast E := by
  refine ⟨by rintro _ ⟨e, rfl⟩; exact hf e, fun x => ?_⟩
  cases x with
  | error e => trivial
  | ok d => exact failsFast_ofExcept _

theorem failsFast_rollbackRaise (e : ξ) : (rollbackRaise e : Prog σ τ ε μ ξ α).failsFast E :=
  ⟨fun _ h => False.elim h, fun _ => trivial⟩

theorem failsFast_transaction (hf : ∀ x, E (f x)) {body : Prog σ τ ε μ ξ α}
    (h : body.failsFast E) : (transaction f body).failsFast E := by
  refine failsFast_tryCatch (failsFast_bind h fun a => ?_) failsFast_rollbackRaise fun _ he =>
    givesUp_rollbackRaise he
  exact ⟨by rintro _ ⟨e, rfl⟩; exact hf e, fun _ => failsFast_bind (failsFast_ofExcept _)
    fun _ => trivial⟩

end Failures

end Prog

/-! ## Runs -/

variable [DecidableEq ι] {K : Clients ι κ σ τ ε μ ξ α} {s s' : Sys ι κ σ τ ε μ ξ α} {p : ι}

/-- **An invariant of each client.** What holds of every client at the start, and of a client after
each of its own moves if it did before, holds of every client in every reachable state. -/
theorem Reach.client {s₀ : Sys ι κ σ τ ε μ ξ α} {J : ι → Proc κ σ τ ε μ ξ α → Prop}
    (hinit : ∀ p, J p (s₀.procs p))
    (hstart : ∀ p x c, K.may p c → x.job = none → J p x →
      J p { x with count := x.count + 1, job := some (c, K.code p c) })
    (hoperate : ∀ p x c o k, x.job = some (c, .op o k) → J p x →
      ∀ db free ch (out : Outcome τ ε o), o.run db free x.conn x.mem ch = some out →
        J p ⟨out.conn, out.mem, x.count, some (c, k out.ans)⟩)
    (hfinish : ∀ p x c r, x.job = some (c, .ofExcept r) → J p x → J p { x with job := none })
    (hcrash : ∀ p x, J p x → J p ⟨.idle, K.boot, x.count, none⟩)
    (h : Reach K s₀ s) (p : ι) : J p (s.procs p) := by
  induction h with
  | refl => exact hinit p
  | @tail s s' _ hs ih =>
    obtain ⟨q, mv, hmay, hmv⟩ := hs
    -- only the client that moves changes
    have hmoves {x : Proc κ σ τ ε μ ξ α} (hx : p = q → J p x) :
        J p (Function.update s.procs q x p) := by
      rcases eq_or_ne p q with rfl | hp
      · rw [Function.update_self]
        exact hx rfl
      · rwa [Function.update_of_ne hp]
    cases mv with
    | start c =>
      simp only [Sys.step, Sys.start] at hmv
      split at hmv
      case h_2 => cases hmv
      case h_1 hj =>
        obtain rfl := Option.some.inj hmv
        refine hmoves fun hp => ?_
        subst hp
        exact hstart p _ c (hmay c rfl) hj ih
    | operate ch =>
      simp only [Sys.step, Sys.operate] at hmv
      split at hmv
      case h_2 => cases hmv
      case h_1 c o k hj =>
        obtain ⟨out, hout, rfl⟩ := Option.map_eq_some_iff.1 hmv
        refine hmoves fun hp => ?_
        subst hp
        exact hoperate p _ c o k hj ih _ _ _ out hout
    | finish =>
      simp only [Sys.step, Sys.finish] at hmv
      split at hmv
      case h_1 c a hj =>
        obtain rfl := Option.some.inj hmv
        refine hmoves fun hp => ?_
        subst hp
        exact hfinish p _ c (.ok a) hj ih
      case h_2 c e hj =>
        obtain rfl := Option.some.inj hmv
        refine hmoves fun hp => ?_
        subst hp
        exact hfinish p _ c (.error e) hj ih
      case h_3 => cases hmv
    | crash =>
      obtain rfl := Option.some.inj hmv
      refine hmoves fun hp => ?_
      subst hp
      exact hcrash p _ ih

/-- The assertions of its call hold of what a client still has to do; it ends outside of a
transaction. -/
def Proc.During (A : κ → Op σ μ → Conn σ → μ → Prop) (x : Proc κ σ τ ε μ ξ α) : Prop :=
  match x.job with
  | none => x.conn = .idle
  | some (c, k) => k.during (A c) (fun _ conn _ => conn = .idle) x.conn x.mem

/-- **Assertions hold in runs.** If the program of every call satisfies its assertions, started
outside of a transaction and with any memory, every client does in every reachable state. -/
theorem Reach.during {s₀ : Sys ι κ σ τ ε μ ξ α} {A : ι → κ → Op σ μ → Conn σ → μ → Prop}
    (hK : ∀ p c m, K.may p c →
      (K.code p c).during (A p c) (fun _ conn _ => conn = .idle) .idle m)
    (h₀ : s₀.Init) (h : Reach K s₀ s) (p : ι) : (s.procs p).During (A p) := by
  refine Reach.client (J := fun p x => x.During (A p)) (fun p => ?_) (fun p x c hmay hj hx => ?_)
    (fun p x c o k hj hx db free ch out hout => ?_) (fun p x c r hj hx => ?_)
    (fun _ _ _ => rfl) h p
  · unfold Proc.During
    rw [h₀.job p]
    exact h₀.conn p
  · have hidle : x.conn = .idle := by
      unfold Proc.During at hx
      rwa [hj] at hx
    show (K.code p c).during _ _ x.conn x.mem
    rw [hidle]
    exact hK p c x.mem hmay
  · unfold Proc.During at hx
    rw [hj] at hx
    exact hx.2 _ _ _ _ hout
  · unfold Proc.During at hx
    rw [hj] at hx
    cases r with
    | ok a => exact hx
    | error e => exact hx

/-- **What every call keeps to, its remainder keeps to.** If `J` holds of the program of every call
and passes from a program to what is left of it after an operation, it holds of whatever a client
still has to do, in every reachable state. -/
theorem Reach.remainder {s₀ : Sys ι κ σ τ ε μ ξ α} {J : ι → κ → Prog σ τ ε μ ξ α → Prop}
    (hK : ∀ p c, J p c (K.code p c)) (hJ : ∀ p c o k x, J p c (.op o k) → J p c (k x))
    (h₀ : s₀.Init) (h : Reach K s₀ s) {c : κ} {k : Prog σ τ ε μ ξ α}
    (hj : (s.procs p).job = some (c, k)) : J p c k := by
  refine Reach.client (J := fun p x => ∀ c k, x.job = some (c, k) → J p c k)
    (fun p c k hk => ?_) (fun p x c _ _ _ c' k hk => ?_)
    (fun p x c o k hx ih _ _ _ out _ c' k' hk => ?_) (fun _ _ _ _ _ _ _ _ hk => ?_)
    (fun _ _ _ _ _ hk => ?_) h p c k hj
  · rw [h₀.job p] at hk
    cases hk
  · obtain ⟨rfl, rfl⟩ := Prod.mk.inj (Option.some.inj hk)
    exact hK p c
  · obtain ⟨rfl, rfl⟩ := Prod.mk.inj (Option.some.inj hk)
    exact hJ p c o k out.ans (ih c _ hx)
  · cases hk
  · cases hk

/-- A client whose operation fails gives up its call. -/
theorem Reach.failsFast {s₀ : Sys ι κ σ τ ε μ ξ α} {E : ξ → Prop}
    (hK : ∀ p c, (K.code p c).failsFast E) (h₀ : s₀.Init) (h : Reach K s₀ s) {c : κ} {o : Op σ μ}
    {k : o.Answer τ ε → Prog σ τ ε μ ξ α} (hj : (s.procs p).job = some (c, .op o k)) :
    ∀ x, o.Failed x → (k x).givesUp E :=
  (Reach.remainder (J := fun _ _ k => k.failsFast E) hK (fun _ _ _ _ x hk => hk.2 x) h₀ h hj).1

/-! ## Reading -/

/-- An operation for which nobody waits and which needs no lock. -/
def Op.Reading : Op σ μ → Prop
  | .now | .call | .getMem | .inTransaction | .select => True
  | _ => False

/-- Outside of a transaction such an operation can always be made, and changes nothing. -/
theorem Op.run_of_reading {o : Op σ μ} (ho : o.Reading) (d : σ) (free : Bool) (m : μ) (t : τ) :
    ∃ out : Outcome τ ε o, o.run d free .idle m (o.undisturbed t) = some out ∧ out.conn = .idle ∧
      out.mem = m ∧ out.db = d := by
  cases o with
  | now => exact ⟨_, rfl, rfl, rfl, rfl⟩
  | call => exact ⟨_, rfl, rfl, rfl, rfl⟩
  | getMem => exact ⟨_, rfl, rfl, rfl, rfl⟩
  | inTransaction => exact ⟨_, rfl, rfl, rfl, rfl⟩
  | select => exact ⟨_, rfl, rfl, rfl, rfl⟩
  | putMem => cases ho
  | beginImmediate => cases ho
  | execute => cases ho
  | commit => cases ho
  | rollback => cases ho

/-- Any number of steps of one client. -/
abbrev OwnSteps (K : Clients ι κ σ τ ε μ ξ α) (p : ι) :
    Sys ι κ σ τ ε μ ξ α → Sys ι κ σ τ ε μ ξ α → Prop :=
  Relation.ReflTransGen fun s s' => ∃ mv, (∀ c, mv = .start c → K.may p c) ∧ s.step K p mv = some s'

/-- The state `s'` differs from `s` in what `p` runs and in the trace. -/
structure Beside (p : ι) (s s' : Sys ι κ σ τ ε μ ξ α) : Prop where
  db : s'.db = s.db
  lock : s'.lock = s.lock
  other : ∀ q, q ≠ p → s'.procs q = s.procs q

omit [DecidableEq ι] in
theorem Beside.trans {s₁ s₂ s₃ : Sys ι κ σ τ ε μ ξ α} (h : Beside p s₁ s₂) (h' : Beside p s₂ s₃) :
    Beside p s₁ s₃ :=
  ⟨h'.db.trans h.db, h'.lock.trans h.lock, fun q hq => (h'.other q hq).trans (h.other q hq)⟩

/-- **A call that only reads waits for nobody.** Its client can complete it by its own steps,
whoever holds the lock; it gets what it would get alone, and leaves everything else as it is. -/
theorem reach_of_reading {A : Op σ μ → Conn σ → μ → Prop} {Q : Except ξ α → Conn σ → μ → Prop}
    {c : κ} {k : Prog σ τ ε μ ξ α} (t : τ) (hA : ∀ o, A o .idle (s.procs p).mem → o.Reading)
    (hj : (s.procs p).job = some (c, k)) (hidle : (s.procs p).conn = .idle)
    (hl : s.lock ≠ some p) (hk : k.during A Q .idle (s.procs p).mem) :
    ∃ s' r, OwnSteps K p s s' ∧ Beside p s s' ∧ (s'.procs p).job = none ∧
      .reply p (s.procs p).count c r ∈ s'.trace ∧
      k.alone t s.db .idle (s.procs p).mem = some ⟨r, s.db, .idle, (s.procs p).mem⟩ := by
  have hreply {s : Sys ι κ σ τ ε μ ξ α} (r : Except ξ α)
      (hfin : s.finish p = some (s.reply p c r)) :
      ∃ s', OwnSteps K p s s' ∧ Beside p s s' ∧ (s'.procs p).job = none ∧
        .reply p (s.procs p).count c r ∈ s'.trace :=
    ⟨s.reply p c r, .single ⟨.finish, by simp, hfin⟩,
      ⟨rfl, rfl, fun q hq => Function.update_of_ne hq ..⟩, by simp [Sys.reply], by simp [Sys.reply]⟩
  induction k generalizing s with
  | ret a =>
    obtain ⟨s', hs', hb, hn, hr⟩ := hreply (s := s) (.ok a) (by simp [Sys.finish, hj])
    exact ⟨s', .ok a, hs', hb, hn, hr, rfl⟩
  | raise e =>
    obtain ⟨s', hs', hb, hn, hr⟩ := hreply (s := s) (.error e) (by simp [Sys.finish, hj])
    exact ⟨s', .error e, hs', hb, hn, hr, rfl⟩
  | op o k ih =>
    have ho := hA o hk.1
    obtain ⟨out, hout, hconn, hmem, hdb⟩ :=
      Op.run_of_reading (ε := ε) ho s.db s.lock.isNone (s.procs p).mem t
    obtain ⟨out', hout', hconn', hmem', hdb'⟩ :=
      Op.run_of_reading (ε := ε) ho s.db true (s.procs p).mem t
    have hans : out' = out := by
      cases o with
      | now => exact Option.some.inj (hout'.symm.trans hout)
      | call => exact Option.some.inj (hout'.symm.trans hout)
      | getMem => exact Option.some.inj (hout'.symm.trans hout)
      | inTransaction => exact Option.some.inj (hout'.symm.trans hout)
      | select => exact Option.some.inj (hout'.symm.trans hout)
      | putMem => cases ho
      | beginImmediate => cases ho
      | execute => cases ho
      | commit => cases ho
      | rollback => cases ho
    -- the state after this operation
    let s₁ : Sys ι κ σ τ ε μ ξ α :=
      { db := out.db
        lock := if out.conn.locked then some p else s.unlock p
        procs := Function.update s.procs p
          ⟨out.conn, out.mem, (s.procs p).count, some (c, k out.ans)⟩
        trace := s.trace ++ out.obs.toList.map (.obs p (s.procs p).count c) }
    have hp₁ : s₁.procs p = ⟨.idle, (s.procs p).mem, (s.procs p).count, some (c, k out.ans)⟩ := by
      rw [← hconn, ← hmem]
      exact Function.update_self ..
    have hl₁ : s₁.lock = s.lock := by
      show (if out.conn.locked then some p else s.unlock p) = _
      rw [hconn]
      exact if_neg hl
    have hs₁ : s.step K p (.operate (o.undisturbed t)) = some s₁ := by
      simp [Sys.step, Sys.operate, hj, hidle, hout, s₁]
    have hk₁ := hk.2 s.db s.lock.isNone _ out hout
    rw [hconn, hmem] at hk₁
    obtain ⟨s', r, hs', hb, hn, hr, halone⟩ := ih out.ans (s := s₁) (by rw [hp₁]; exact hA)
      (by rw [hp₁]) (by rw [hp₁]) (by rwa [hl₁]) (by rw [hp₁]; exact hk₁)
    rw [hp₁] at hr halone
    refine ⟨s', r, .head ⟨.operate _, by simp, hs₁⟩ hs',
      .trans ⟨hdb, hl₁, fun q hq => ?_⟩ hb, hn, hr, ?_⟩
    · exact Function.update_of_ne hq ..
    · rw [Prog.alone, hout', hans]
      show (k out.ans).alone t out.db out.conn out.mem = _
      rw [hdb, hconn, hmem]
      have hdb₁ : s₁.db = s.db := hdb
      rw [hdb₁] at halone
      exact halone

/-- The same from the start of the call. -/
theorem reach_of_reading_call {A : Op σ μ → Conn σ → μ → Prop}
    {Q : Except ξ α → Conn σ → μ → Prop} {c : κ} (t : τ)
    (hA : ∀ o, A o .idle (s.procs p).mem → o.Reading) (hmay : K.may p c)
    (hj : (s.procs p).job = none) (hidle : (s.procs p).conn = .idle) (hl : s.lock ≠ some p)
    (hk : (K.code p c).during A Q .idle (s.procs p).mem) :
    ∃ s' r, OwnSteps K p s s' ∧ Beside p s s' ∧ (s'.procs p).job = none ∧
      .reply p ((s.procs p).count + 1) c r ∈ s'.trace ∧
      (K.code p c).alone t s.db .idle (s.procs p).mem =
        some ⟨r, s.db, .idle, (s.procs p).mem⟩ := by
  let s₁ := { s with
    procs := Function.update s.procs p { s.procs p with
      count := (s.procs p).count + 1, job := some (c, K.code p c) } }
  have hs₁ : s.step K p (.start c) = some s₁ := by simp [Sys.step, Sys.start, hj, s₁]
  have hp₁ : s₁.procs p = { s.procs p with
      count := (s.procs p).count + 1, job := some (c, K.code p c) } := Function.update_self ..
  obtain ⟨s', r, hs', hb, hn, hr, halone⟩ := reach_of_reading (K := K) (s := s₁) (p := p) (A := A)
    (Q := Q) (c := c) (k := K.code p c) t (by rw [hp₁]; exact hA) (by rw [hp₁])
    (by rw [hp₁]; exact hidle) hl (by rw [hp₁]; exact hk)
  rw [hp₁] at hr halone
  have hb₁ : Beside p s s₁ := ⟨rfl, rfl, fun q hq => Function.update_of_ne hq ..⟩
  refine ⟨s', r, .head ⟨.start c, fun c' hc' => ?_, hs₁⟩ hs', hb₁.trans hb, hn, hr, halone⟩
  cases hc'
  exact hmay

end SingleWriter
