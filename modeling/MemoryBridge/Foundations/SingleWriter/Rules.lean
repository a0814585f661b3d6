import MemoryBridge.Foundations.SingleWriter.Semantics

/-!
# Rules for programs that run among others

The history of a call is the list of what its operations did outside its own transaction. A
postcondition speaks of the result, the connection, the memory and the history. `wp C p l Q` also
requires every commit of `p` to satisfy `C`, given the history before it; so it speaks of calls that
are still running, too.

Every statement may fail. `Fails E h Q` is what a failure outside a transaction needs of the
postcondition: after a history that extends `h` without a commit, with no transaction open, every
exception in `E` is an acceptable result. `Aborts E h Q` is the same for failures inside a
transaction, which may leave it open; rolling back turns the one into the other. The rules of the
operations are stated with them, so that a proof about a program says once what its failures lead
to.
-/

namespace SingleWriter

variable {σ τ ε μ ξ α β : Type}

/-- Where a call is: its connection, the memory of its client, the history so far. -/
structure Local (σ τ μ : Type) : Type where
  conn : Conn σ
  mem : μ
  hist : List (Obs σ τ)

/-- The place after an operation. -/
def Local.after {o : Op σ μ} (l : Local σ τ μ) (out : Outcome τ ε o) : Local σ τ μ :=
  ⟨out.conn, out.mem, l.hist ++ out.obs.toList⟩

/-- A postcondition. -/
abbrev Post (σ τ μ ξ α : Type) : Type := Except ξ α → Local σ τ μ → Prop

/-- What is required of a commit: the history before it, the contents its transaction began at,
and the contents it makes the committed ones. -/
abbrev CommitSpec (σ τ : Type) : Type := List (Obs σ τ) → σ → σ → Prop

namespace Prog

/-- The weakest precondition: `p`, started at `l` among other clients, ends in `Q`, and each of its
commits satisfies `C`. -/
def wp (C : CommitSpec σ τ) : Prog σ τ ε μ ξ α → Local σ τ μ → Post σ τ μ ξ α → Prop
  | ret a, l, Q => Q (.ok a) l
  | raise e, l, Q => Q (.error e) l
  | op o k, l, Q => ∀ (db : σ) (free : Bool) (ch : Choice τ ε) (out : Outcome τ ε o),
      l.conn.Coherent db → o.run db free l.conn l.mem ch = some out →
      (∀ b w, out.obs = some (.commit b w) → C l.hist b w) ∧ (k out.ans).wp C (l.after out) Q

variable {C : CommitSpec σ τ} {Q : Post σ τ μ ξ α} {l : Local σ τ μ}

@[simp] theorem wp_ret (a : α) : (ret a : Prog σ τ ε μ ξ α).wp C l Q ↔ Q (.ok a) l := Iff.rfl

@[simp] theorem wp_raise (e : ξ) : (raise e : Prog σ τ ε μ ξ α).wp C l Q ↔ Q (.error e) l := Iff.rfl

@[simp] theorem wp_ofExcept (r : Except ξ α) :
    (ofExcept r : Prog σ τ ε μ ξ α).wp C l Q ↔ Q r l := by
  cases r <;> rfl

/-- What is specified may be weakened. -/
theorem wp_weaken {C' : CommitSpec σ τ} {p : Prog σ τ ε μ ξ α} {Q' : Post σ τ μ ξ α}
    (hC : ∀ h b w, C h b w → C' h b w) (hQ : ∀ r l, Q r l → Q' r l) (h : p.wp C l Q) :
    p.wp C' l Q' := by
  induction p generalizing l with
  | ret a => exact hQ _ _ h
  | raise e => exact hQ _ _ h
  | op o k ih =>
    intro db free ch out hc hr
    obtain ⟨hcom, hk⟩ := h db free ch out hc hr
    exact ⟨fun b w ho => hC _ b w (hcom b w ho), ih _ hk⟩

theorem wp_mono {p : Prog σ τ ε μ ξ α} {Q' : Post σ τ μ ξ α} (hQ : ∀ r l, Q r l → Q' r l)
    (h : p.wp C l Q) : p.wp C l Q' := wp_weaken (fun _ _ _ hc => hc) hQ h

/-- The postcondition of the first of two programs run in sequence. -/
def andThen (C : CommitSpec σ τ) (f : α → Prog σ τ ε μ ξ β) (Q : Post σ τ μ ξ β) :
    Post σ τ μ ξ α
  | .ok a, l => (f a).wp C l Q
  | .error e, l => Q (.error e) l

@[simp] theorem andThen_ok (f : α → Prog σ τ ε μ ξ β) (Q : Post σ τ μ ξ β) (a : α) :
    andThen C f Q (.ok a) l = (f a).wp C l Q := rfl

@[simp] theorem andThen_error (f : α → Prog σ τ ε μ ξ β) (Q : Post σ τ μ ξ β) (e : ξ) :
    andThen C f Q (.error e) l = Q (.error e) l := rfl

theorem wp_bind {p : Prog σ τ ε μ ξ α} {f : α → Prog σ τ ε μ ξ β} {Q : Post σ τ μ ξ β} :
    (p >>= f).wp C l Q ↔ p.wp C l (andThen C f Q) := by
  induction p generalizing l with
  | ret a => rfl
  | raise e => rfl
  | op o k ih =>
    rw [op_bind]
    exact forall₄_congr fun db free ch out => imp_congr_right fun _ => imp_congr_right fun _ =>
      and_congr_right fun _ => ih _

/-- The postcondition of the body of a `try`. -/
def orElse (C : CommitSpec σ τ) (g : ξ → Prog σ τ ε μ ξ α) (Q : Post σ τ μ ξ α) :
    Post σ τ μ ξ α
  | .ok a, l => Q (.ok a) l
  | .error e, l => (g e).wp C l Q

@[simp] theorem orElse_ok (g : ξ → Prog σ τ ε μ ξ α) (a : α) :
    orElse C g Q (.ok a) l = Q (.ok a) l := rfl

@[simp] theorem orElse_error (g : ξ → Prog σ τ ε μ ξ α) (e : ξ) :
    orElse C g Q (.error e) l = (g e).wp C l Q := rfl

theorem wp_tryCatch {p : Prog σ τ ε μ ξ α} {g : ξ → Prog σ τ ε μ ξ α} :
    (p.tryCatch g).wp C l Q ↔ p.wp C l (orElse C g Q) := by
  induction p generalizing l with
  | ret a => rfl
  | raise e => rfl
  | op o k ih =>
    exact forall₄_congr fun db free ch out => imp_congr_right fun _ => imp_congr_right fun _ =>
      and_congr_right fun _ => ih _

/-- The postcondition of the body of a transaction: what was done under the lock satisfies `C` and
is committed, unless the commit fails; without the lock there is nothing to commit; an exception
undoes everything. -/
def inTransactionPost (C : CommitSpec σ τ) (f : ε → ξ) (Q : Post σ τ μ ξ α) : Post σ τ μ ξ α
  | .ok a, ⟨.writer b w, m, h⟩ =>
    C h b w ∧ Q (.ok a) ⟨.idle, m, h ++ [.commit b w]⟩ ∧ ∀ x, Q (.error (f x)) ⟨.idle, m, h⟩
  | .ok a, l => Q (.ok a) ⟨.idle, l.mem, l.hist⟩ ∧ ∀ x, Q (.error (f x)) ⟨.idle, l.mem, l.hist⟩
  | .error e, l => Q (.error e) ⟨.idle, l.mem, l.hist⟩

end Prog

/-! ## Failures -/

/-- Nothing in the history is a commit. -/
def Quiet (h : List (Obs σ τ)) : Prop := ∀ b w, Obs.commit b w ∉ h

@[simp] theorem quiet_nil : Quiet ([] : List (Obs σ τ)) := by simp [Quiet]

@[simp] theorem quiet_append {h h' : List (Obs σ τ)} : Quiet (h ++ h') ↔ Quiet h ∧ Quiet h' := by
  simp only [Quiet, List.mem_append, not_or, forall_and]

@[simp] theorem quiet_cons {o : Obs σ τ} {h : List (Obs σ τ)} :
    Quiet (o :: h) ↔ (∀ b w, o ≠ .commit b w) ∧ Quiet h := by
  simp only [Quiet, List.mem_cons, not_or, forall_and, ne_eq, eq_comm]

/-- After a history that extends `h` quietly, with no transaction open, every exception in `E` is an
acceptable result. -/
def Fails (E : ξ → Prop) (h : List (Obs σ τ)) (Q : Post σ τ μ ξ α) : Prop :=
  ∀ e m q, E e → Quiet q → Q (.error e) ⟨.idle, m, h ++ q⟩

/-- After a history that extends `h` quietly, every exception in `E` is an acceptable result,
whatever became of the transaction. -/
def Aborts (E : ξ → Prop) (h : List (Obs σ τ)) (Q : Post σ τ μ ξ α) : Prop :=
  ∀ e c m q, E e → Quiet q → Q (.error e) ⟨c, m, h ++ q⟩

namespace Fails

variable {E : ξ → Prop} {h : List (Obs σ τ)} {Q : Post σ τ μ ξ α} {C : CommitSpec σ τ}

theorem quiet (hQ : Fails E h Q) {q : List (Obs σ τ)} (hq : Quiet q) : Fails E (h ++ q) Q := by
  intro e m q' he hq'
  rw [List.append_assoc]
  exact hQ e m _ he (quiet_append.2 ⟨hq, hq'⟩)

theorem here (hQ : Fails E h Q) {e : ξ} (he : E e) (m : μ) : Q (.error e) ⟨.idle, m, h⟩ := by
  simpa using hQ e m [] he quiet_nil

theorem mono {E' : ξ → Prop} (hQ : Fails E h Q) (hE : ∀ e, E' e → E e) : Fails E' h Q :=
  fun e m q he hq => hQ e m q (hE e he) hq

theorem andThen {Q : Post σ τ μ ξ β} (hQ : Fails E h Q) (f : α → Prog σ τ ε μ ξ β) :
    Fails E h (Prog.andThen C f Q) := hQ

/-- What fails the transaction aborts its body. -/
theorem inTransaction {f : ε → ξ} (hQ : Fails E h Q) :
    Aborts E h (Prog.inTransactionPost C f Q) := by
  intro e _ m q he hq
  exact hQ e m q he hq

end Fails

namespace Aborts

variable {E : ξ → Prop} {h : List (Obs σ τ)} {Q : Post σ τ μ ξ α} {C : CommitSpec σ τ}

theorem quiet (hQ : Aborts E h Q) {q : List (Obs σ τ)} (hq : Quiet q) : Aborts E (h ++ q) Q := by
  intro e c m q' he hq'
  rw [List.append_assoc]
  exact hQ e c m _ he (quiet_append.2 ⟨hq, hq'⟩)

theorem here (hQ : Aborts E h Q) {e : ξ} (he : E e) (c : Conn σ) (m : μ) :
    Q (.error e) ⟨c, m, h⟩ := by
  simpa using hQ e c m [] he quiet_nil

theorem fails (hQ : Aborts E h Q) : Fails E h Q := fun e m q he hq => hQ e .idle m q he hq

theorem mono {E' : ξ → Prop} (hQ : Aborts E h Q) (hE : ∀ e, E' e → E e) : Aborts E' h Q :=
  fun e c m q he hq => hQ e c m q (hE e he) hq

/-- An exception of the first of two programs is one of the sequence. -/
theorem andThen {Q : Post σ τ μ ξ β} (hQ : Aborts E h Q) (f : α → Prog σ τ ε μ ξ β) :
    Aborts E h (Prog.andThen C f Q) := hQ

end Aborts

/-! ## The operations -/

namespace Prog

variable {E : ξ → Prop} {C : CommitSpec σ τ} {f : ε → ξ} {c : Conn σ} {m : μ}
  {h : List (Obs σ τ)} {b w : σ}

theorem wp_now {Q : Post σ τ μ ξ τ} (hok : ∀ t, Q (.ok t) ⟨c, m, h ++ [.clock t]⟩) :
    (now : Prog σ τ ε μ ξ τ).wp C ⟨c, m, h⟩ Q := by
  intro db free ch out hc hr
  cases ch <;> simp only [Op.run, reduceCtorEq, Option.some.injEq] at hr
  case time t =>
    subst hr
    exact ⟨by simp, hok t⟩

theorem wp_getMem {Q : Post σ τ μ ξ μ} (hok : Q (.ok m) ⟨c, m, h⟩) :
    (getMem : Prog σ τ ε μ ξ μ).wp C ⟨c, m, h⟩ Q := by
  intro db free ch out hc hr
  cases ch <;> simp only [Op.run, reduceCtorEq, Option.some.injEq] at hr
  case go =>
    subst hr
    exact ⟨by simp, by simpa [Local.after] using hok⟩

theorem wp_putMem {Q : Post σ τ μ ξ Unit} {m' : μ} (hok : Q (.ok ()) ⟨c, m', h⟩) :
    (putMem m' : Prog σ τ ε μ ξ Unit).wp C ⟨c, m, h⟩ Q := by
  intro db free ch out hc hr
  cases ch <;> simp only [Op.run, reduceCtorEq, Option.some.injEq] at hr
  case go =>
    subst hr
    exact ⟨by simp, by simpa [Local.after] using hok⟩

theorem wp_inTransaction {Q : Post σ τ μ ξ Bool} (hok : Q (.ok c.inTransaction) ⟨c, m, h⟩) :
    (inTransaction : Prog σ τ ε μ ξ Bool).wp C ⟨c, m, h⟩ Q := by
  intro db free ch out hc hr
  cases ch <;> simp only [Op.run, reduceCtorEq, Option.some.injEq] at hr
  case go =>
    subst hr
    exact ⟨by simp, by simpa [Local.after] using hok⟩

theorem wp_call {Q : Post σ τ μ ξ Unit} (hf : ∀ x, E (f x)) (hQ : Fails E h Q)
    (hok : Q (.ok ()) ⟨.idle, m, h⟩) : (call f).wp C ⟨.idle, m, h⟩ Q := by
  intro db free ch out hc hr
  cases ch <;> simp only [Op.run, reduceCtorEq, Option.some.injEq] at hr
  case go =>
    subst hr
    exact ⟨by simp, by simpa [Local.after, ofAnswer, Except.mapError] using hok⟩
  case fail x =>
    subst hr
    exact ⟨by simp, by simpa [Local.after, ofAnswer, Except.mapError] using hQ.here (hf x) m⟩

/-- Foreign code inside a transaction. -/
theorem wp_call_writer {Q : Post σ τ μ ξ Unit} (hf : ∀ x, E (f x)) (hQ : Aborts E h Q)
    (hok : Q (.ok ()) ⟨.writer b w, m, h⟩) : (call f).wp C ⟨.writer b w, m, h⟩ Q := by
  have herr := fun x c => hQ.here (hf x) c m
  intro db free ch out hc hr
  cases ch <;> simp only [Op.run, reduceCtorEq, Option.some.injEq] at hr
  case go =>
    subst hr
    exact ⟨by simp, by simpa [Local.after, ofAnswer, Except.mapError] using hok⟩
  case fail x =>
    subst hr
    exact ⟨by simp, by simpa [Local.after, ofAnswer, Except.mapError] using herr x _⟩

theorem wp_beginImmediate {Q : Post σ τ μ ξ Unit} (hf : ∀ x, E (f x)) (hQ : Fails E h Q)
    (hok : ∀ d, Q (.ok ()) ⟨.writer d d, m, h ++ [.lock d]⟩) :
    (beginImmediate f).wp C ⟨.idle, m, h⟩ Q := by
  intro db free ch out hc hr
  cases ch <;> simp only [Op.run, reduceCtorEq, Option.some.injEq] at hr
  case go =>
    cases free <;> simp only [reduceCtorEq, Option.some.injEq] at hr
    subst hr
    exact ⟨by simp, hok db⟩
  case fail x =>
    subst hr
    exact ⟨by simp, by simpa [Local.after, ofAnswer, Except.mapError] using hQ.here (hf x) m⟩

theorem wp_select_writer {q : σ → α} {Q : Post σ τ μ ξ α} (hf : ∀ x, E (f x)) (hQ : Aborts E h Q)
    (hok : Q (.ok (q w)) ⟨.writer b w, m, h⟩) : (select f q).wp C ⟨.writer b w, m, h⟩ Q := by
  have herr := fun x c => hQ.here (hf x) c m
  intro db free ch out hc hr
  cases ch <;> simp only [Op.run, reduceCtorEq, Option.some.injEq] at hr <;> subst hr
  case go =>
    exact ⟨by simp, by simpa [Local.after, ofAnswer, Except.map, Except.mapError] using hok⟩
  case fail x =>
    exact ⟨by simp, by simpa [Local.after, ofAnswer, Except.map, Except.mapError] using herr x _⟩
  case abort x =>
    exact ⟨by simp, by simpa [Local.after, ofAnswer, Except.map, Except.mapError] using herr x _⟩

/-- Outside a transaction a reading statement sees whatever is committed at that moment. -/
theorem wp_select_outcomes {q : σ → α} {Q : Post σ τ μ ξ α}
    (herr : ∀ x, Q (.error (f x)) ⟨.idle, m, h⟩)
    (hok : ∀ d, Q (.ok (q d)) ⟨.idle, m, h ++ [.read d]⟩) : (select f q).wp C ⟨.idle, m, h⟩ Q := by
  intro db free ch out hc hr
  cases ch <;> simp only [Op.run, reduceCtorEq, Option.some.injEq] at hr <;> subst hr
  case go =>
    exact ⟨by simp, by simpa [Local.after, ofAnswer, Except.map, Except.mapError] using hok db⟩
  case fail x =>
    exact ⟨by simp, by simpa [Local.after, ofAnswer, Except.map, Except.mapError] using herr x⟩
  case abort x =>
    exact ⟨by simp, by simpa [Local.after, ofAnswer, Except.map, Except.mapError] using herr x⟩

theorem wp_select_idle {q : σ → α} {Q : Post σ τ μ ξ α} (hf : ∀ x, E (f x)) (hQ : Fails E h Q)
    (hok : ∀ d, Q (.ok (q d)) ⟨.idle, m, h ++ [.read d]⟩) : (select f q).wp C ⟨.idle, m, h⟩ Q :=
  wp_select_outcomes (fun x => hQ.here (hf x) m) hok

/-- What a data-changing statement leaves behind, by its two outcomes. -/
theorem applied_result {u : σ → Except ξ (σ × α)} {d : σ} {P : Except ξ α → σ → Prop}
    (hok : ∀ d' a, u d = .ok (d', a) → P (.ok a) d') (herr : ∀ e, u d = .error e → P (.error e) d) :
    P (result u d) (applied u d) := by
  unfold result applied
  cases hu : u d with
  | ok r => exact hok r.1 r.2 hu
  | error e => exact herr e hu

/-- The lock being held, a data-changing statement works on the copy. -/
theorem wp_execute_writer {u : σ → Except ξ (σ × α)} {Q : Post σ τ μ ξ α} (hf : ∀ x, E (f x))
    (hQ : Aborts E h Q) (hok : ∀ w' a, u w = .ok (w', a) → Q (.ok a) ⟨.writer b w', m, h⟩)
    (herr : ∀ e, u w = .error e → Q (.error e) ⟨.writer b w, m, h⟩) :
    (execute f u).wp C ⟨.writer b w, m, h⟩ Q := by
  intro db free ch out hc hr
  cases ch <;> simp only [Op.run, reduceCtorEq, Option.some.injEq] at hr <;> subst hr
  case go =>
    have := applied_result (P := fun r w' => Q r ⟨.writer b w', m, h⟩) hok herr
    exact ⟨by simp, by simpa [Local.after] using this⟩
  case fail x => exact ⟨by simp, by simpa [Local.after] using hQ.here (hf x) _ m⟩
  case abort x => exact ⟨by simp, by simpa [Local.after] using hQ.here (hf x) _ m⟩

/-- The first data-changing statement takes the lock, even when it fails its constraint. -/
theorem wp_execute_idle {u : σ → Except ξ (σ × α)} {Q : Post σ τ μ ξ α} (hf : ∀ x, E (f x))
    (hQ : Aborts E h Q)
    (hok : ∀ d w' a, u d = .ok (w', a) → Q (.ok a) ⟨.writer d w', m, h ++ [.lock d]⟩)
    (herr : ∀ d e, u d = .error e → Q (.error e) ⟨.writer d d, m, h ++ [.lock d]⟩) :
    (execute f u).wp C ⟨.idle, m, h⟩ Q := by
  intro db free ch out hc hr
  cases ch <;> simp only [Op.run, reduceCtorEq, Option.some.injEq] at hr
  case go =>
    cases free <;> simp only [reduceCtorEq, Option.some.injEq] at hr
    subst hr
    have := applied_result (P := fun r w' => Q r ⟨.writer db w', m, h ++ [.lock db]⟩)
      (hok db) (herr db)
    exact ⟨by simp, by simpa [Local.after] using this⟩
  case fail x =>
    subst hr
    exact ⟨by simp, by simpa [Local.after] using hQ.here (hf x) _ m⟩
  case abort x =>
    subst hr
    exact ⟨by simp, by simpa [Local.after] using hQ.here (hf x) _ m⟩

/-! ## Transactions -/

theorem wp_rollbackRaise {e : ξ} {Q : Post σ τ μ ξ α} (hQ : Q (.error e) ⟨.idle, m, h⟩) :
    (rollbackRaise e : Prog σ τ ε μ ξ α).wp C ⟨c, m, h⟩ Q := by
  intro db free ch out hc hr
  cases ch <;> simp only [Op.run, reduceCtorEq, Option.some.injEq] at hr
  case go =>
    subst hr
    refine ⟨by simp, (?_ : Q (.error e) ⟨.idle, m, h ++ []⟩)⟩
    rwa [List.append_nil]

/-- The commit at the end of a transaction, and the rollback if it fails. -/
theorem wp_commit {a : α} {l : Local σ τ μ} {Q : Post σ τ μ ξ α}
    (h : inTransactionPost C f Q (.ok a) l) :
    (commit f >>= fun _ => ret a).wp C l (orElse C (rollbackRaise (ε := ε)) Q) := by
  obtain ⟨c, m, h'⟩ := l
  intro db free ch out hc hr
  cases ch <;> simp only [Op.run, reduceCtorEq, Option.some.injEq] at hr
  case go =>
    cases c <;> simp only [Option.some.injEq] at hr <;> subst hr
    case writer b w =>
      refine ⟨fun b' w' e => ?_, h.2.1⟩
      cases e
      exact h.1
    all_goals
      refine ⟨by simp, (?_ : Q (.ok a) ⟨.idle, m, h' ++ []⟩)⟩
      rw [List.append_nil]
      exact h.1
  all_goals
    rename_i x
    subst hr
    refine ⟨by simp, wp_rollbackRaise ?_⟩
    cases c <;> simp only [Option.toList_none, List.append_nil]
    case writer b w => exact h.2.2 x
    all_goals exact h.2 x

theorem wp_transaction {body : Prog σ τ ε μ ξ α} {l : Local σ τ μ} {Q : Post σ τ μ ξ α}
    (h : body.wp C l (inTransactionPost C f Q)) : (transaction f body).wp C l Q := by
  rw [transaction, wp_tryCatch, wp_bind]
  refine wp_mono (fun r l' hr => ?_) h
  cases r with
  | ok a => exact wp_commit hr
  | error e => exact wp_rollbackRaise hr

end Prog

end SingleWriter
