import MemoryBridge.Foundations.SingleWriter.Threads

/-!
# Calls of threads in real time

What the caller of a thread sees is when its call is invoked and when it is answered.
`Pool.Reach.ordered`: all that a call does through the mutex lies between the two, so the order of
the sequential calls of `Pool.sys` respects real time (`InOrder.after_respond`,
`InOrder.before_invoke`). `Pool.Reach.answerable`: no call waits for ever, whatever the threads
hold.
-/

namespace SingleWriter

variable {ι θ κ σ τ ε μ ξ α : Type}

/-! ## Marks in order -/

/-- The call was made and is not answered. -/
structure Pending (t : List (Mark ι θ κ σ τ ξ α)) (x : Ticket ι θ κ) : Prop where
  invoked : .invoke x ∈ t
  unanswered : ∀ n r, .respond x n r ∉ t

/-- A mark is in order after the trace `t`: a call does everything between its invocation and its
answer, it takes the mutex once, with a number above all earlier ones of its client, it does nothing
once it gave the mutex back, and what it is answered is the refusal or the result it had then. -/
def MarkOk (W : Workers ι κ σ τ ε μ ξ α) (t : List (Mark ι θ κ σ τ ξ α)) :
    Mark ι θ κ σ τ ξ α → Prop
  | .invoke x => ∀ e ∈ t, e.ticket.client = x.client → e.ticket.thread = x.thread →
      e.ticket.number < x.number
  | .acquire x n => Pending t x ∧ W.refuse x.client x.call = none ∧ (∀ m, .acquire x m ∉ t) ∧
      ∀ y m, .acquire y m ∈ t → y.client = x.client → m < n
  | .obs x n _ => Pending t x ∧ .acquire x n ∈ t ∧ ∀ m r, .release x m r ∉ t
  | .release x n _ => Pending t x ∧ .acquire x n ∈ t ∧ ∀ m r, .release x m r ∉ t
  | .respond x none r => Pending t x ∧ W.refuse x.client x.call = some r
  | .respond x (some n) r => Pending t x ∧ .release x n r ∈ t

/-- Every mark is in order after those before it. -/
def InOrder (W : Workers ι κ σ τ ε μ ξ α) (t : List (Mark ι θ κ σ τ ξ α)) : Prop :=
  ∀ t₁ e t₂, t = t₁ ++ e :: t₂ → MarkOk W t₁ e

/-- What the trace says of the call that a thread is in. -/
def PlaceOk (W : Workers ι κ σ τ ε μ ξ α) (t : List (Mark ι θ κ σ τ ξ α)) (p : ι) (i : θ) (m : ℕ) :
    Place κ σ τ ε μ ξ α → Prop
  | .idle => True
  | .called c => Pending t ⟨p, i, m, c⟩ ∧ ∀ n, .acquire ⟨p, i, m, c⟩ n ∉ t
  | .inside n c _ => Pending t ⟨p, i, m, c⟩ ∧ .acquire ⟨p, i, m, c⟩ n ∈ t ∧
      ∀ l r, .release ⟨p, i, m, c⟩ l r ∉ t
  | .leaving none c r => Pending t ⟨p, i, m, c⟩ ∧ W.refuse p c = some r
  | .leaving (some n) c r => Pending t ⟨p, i, m, c⟩ ∧ .release ⟨p, i, m, c⟩ n r ∈ t

/-- The trace is in order, and so is where the threads are. -/
structure Pool.Timely (W : Workers ι κ σ τ ε μ ξ α) (s : Pool ι θ κ σ τ ε μ ξ α) : Prop where
  trace : InOrder W s.trace
  number : ∀ e ∈ s.trace,
    e.ticket.number ≤ ((s.procs e.ticket.client).threads e.ticket.thread).calls
  count : ∀ x n, .acquire x n ∈ s.trace → n ≤ (s.procs x.client).count
  place : ∀ p i, PlaceOk W s.trace p i ((s.procs p).threads i).calls (s.place p i)

section Frame

variable {W : Workers ι κ σ τ ε μ ξ α} {t : List (Mark ι θ κ σ τ ξ α)}
  {new : Option (Mark ι θ κ σ τ ξ α)} {x : Ticket ι θ κ} {p : ι} {i : θ} {m : ℕ}
  {a : Place κ σ τ ε μ ξ α}

theorem InOrder.append (h : InOrder W t) (hnew : ∀ e ∈ new, MarkOk W t e) :
    InOrder W (t ++ new.toList) := by
  cases new with
  | none => rwa [Option.toList_none, List.append_nil]
  | some e =>
    intro t₁ e' t₂ ht
    rcases List.eq_nil_or_concat t₂ with rfl | ⟨t₂, e₂, rfl⟩
    · obtain ⟨rfl, he'⟩ := List.append_inj' ht rfl
      obtain rfl := (List.cons.inj he').1
      exact hnew e rfl
    · rw [List.concat_eq_append, ← List.cons_append, ← List.append_assoc] at ht
      exact h t₁ e' t₂ (List.append_inj' ht rfl).1

/-- Only the answer ends a call. -/
theorem Pending.append {l : List (Mark ι θ κ σ τ ξ α)} (h : Pending t x)
    (hl : ∀ n r, .respond x n r ∉ l) : Pending (t ++ l) x :=
  ⟨List.mem_append_left _ h.invoked, fun n r hm =>
    (List.mem_append.1 hm).elim (h.unanswered n r) (hl n r)⟩

/-- Who gave the mutex back had taken it. -/
theorem InOrder.acquired {n : ℕ} {r : Except ξ α} (h : InOrder W t) (hr : .release x n r ∈ t) :
    .acquire x n ∈ t := by
  obtain ⟨t₁, t₂, rfl⟩ := List.append_of_mem hr
  exact List.mem_append_left _ (h t₁ _ t₂ rfl).2.1

/-- What other threads do says nothing of a call. -/
theorem PlaceOk.frame (h : PlaceOk W t p i m a)
    (hnew : ∀ e ∈ new, ¬(e.ticket.client = p ∧ e.ticket.thread = i)) :
    PlaceOk W (t ++ new.toList) p i m a := by
  have hne (c : κ) (f : Mark ι θ κ σ τ ξ α) (hf : f.ticket = ⟨p, i, m, c⟩) (hn : f ∉ t) :
      f ∉ t ++ new.toList := fun hm =>
    (List.mem_append.1 hm).elim hn fun hf' =>
      hnew f (Option.mem_toList.1 hf') ⟨by rw [hf], by rw [hf]⟩
  have hpend (c : κ) (hp : Pending t ⟨p, i, m, c⟩) : Pending (t ++ new.toList) ⟨p, i, m, c⟩ :=
    ⟨List.mem_append_left _ hp.invoked, fun n r => hne c _ rfl (hp.unanswered n r)⟩
  match a, h with
  | .idle, _ => trivial
  | .called c, h => exact ⟨hpend c h.1, fun n => hne c _ rfl (h.2 n)⟩
  | .inside n c k, h =>
    exact ⟨hpend c h.1, List.mem_append_left _ h.2.1, fun l r => hne c _ rfl (h.2.2 l r)⟩
  | .leaving none c r, h => exact ⟨hpend c h.1, h.2⟩
  | .leaving (some n) c r, h => exact ⟨hpend c h.1, List.mem_append_left _ h.2⟩

end Frame

/-- Call `x` is answered before call `y` is made. -/
def AnsweredBefore (t : List (Mark ι θ κ σ τ ξ α)) (x y : Ticket ι θ κ) : Prop :=
  ∃ t₁ t₂ n r, t = t₁ ++ t₂ ∧ .respond x n r ∈ t₁ ∧ .invoke y ∉ t₁

/-- A call that is seen by the database is one of a thread. -/
theorem exists_obs_of_entry {t : List (Mark ι θ κ σ τ ξ α)} {p : ι} {n : ℕ} {c : κ} {o : Obs σ τ}
    (h : .obs p n c o ∈ entries t) :
    ∃ x : Ticket ι θ κ, x.client = p ∧ x.call = c ∧ .obs x n o ∈ t := by
  obtain ⟨e, he, heq⟩ := List.mem_filterMap.1 h
  cases e with
  | obs x m o' =>
    obtain ⟨rfl, rfl, rfl, rfl⟩ := Entry.obs.inj (Option.some.inj heq)
    exact ⟨x, rfl, rfl, he⟩
  | release x m r => cases heq
  | invoke x => cases heq
  | acquire x m => cases heq
  | respond x m r => cases heq

namespace InOrder

variable {W : Workers ι κ σ τ ε μ ξ α} {t₁ t₂ : List (Mark ι θ κ σ τ ξ α)}
  {x y : Ticket ι θ κ} {r : Except ξ α}

/-- After its answer a call does nothing. -/
theorem after_respond (h : InOrder W (t₁ ++ t₂)) {n : Option ℕ} (hx : .respond x n r ∈ t₁)
    {e : Mark ι θ κ σ τ ξ α} (he : e ∈ t₂) : e.ticket ≠ x := by
  rintro rfl
  obtain ⟨l, l', rfl⟩ := List.append_of_mem he
  have hok := h (t₁ ++ l) e l' (by simp)
  have hx' : .respond e.ticket n r ∈ t₁ ++ l := List.mem_append_left _ hx
  cases e with
  | invoke z => exact absurd (hok _ hx' rfl rfl) (Nat.lt_irrefl _)
  | acquire z m => exact hok.1.unanswered n r hx'
  | obs z m o => exact hok.1.unanswered n r hx'
  | release z m r' => exact hok.1.unanswered n r hx'
  | respond z m r' => cases m <;> exact hok.1.unanswered n r hx'

/-- Before its invocation a call does nothing. -/
theorem before_invoke (h : InOrder W (t₁ ++ t₂)) (hy : .invoke y ∉ t₁)
    {e : Mark ι θ κ σ τ ξ α} (he : e ∈ t₁) : e.ticket ≠ y := by
  rintro rfl
  obtain ⟨l, l', rfl⟩ := List.append_of_mem he
  have hok := h l e (l' ++ t₂) (by simp)
  have hl : .invoke e.ticket ∉ l := fun hm => hy (List.mem_append_left _ hm)
  cases e with
  | invoke z => exact hy he
  | acquire z m => exact hl hok.1.invoked
  | obs z m o => exact hl hok.1.invoked
  | release z m r' => exact hl hok.1.invoked
  | respond z m r' => cases m <;> exact hl hok.1.invoked

theorem of_append (h : InOrder W (t₁ ++ t₂)) : InOrder W t₁ :=
  fun l e l' hl => h l e (l' ++ t₂) (by simp [hl])

/-- Only calls that took the mutex do something. -/
theorem acquired_of_obs (h : InOrder W t₁) {n : ℕ} {o : Obs σ τ} (ho : .obs x n o ∈ t₁) :
    .acquire x n ∈ t₁ := by
  obtain ⟨l, l', rfl⟩ := List.append_of_mem ho
  exact List.mem_append_left _ (h l _ l' rfl).2.1

/-- Calls that take the mutex are not refused. -/
theorem not_refused (h : InOrder W t₁) {n : ℕ} (ha : .acquire x n ∈ t₁) :
    W.refuse x.client x.call = none := by
  obtain ⟨l, l', rfl⟩ := List.append_of_mem ha
  exact (h l _ l' rfl).2.1

/-- A number under the mutex is that of one call, and a call has one such number. -/
theorem acquire_inj (h : InOrder W t₁) {n m : ℕ} (hx : .acquire x n ∈ t₁) (hy : .acquire y m ∈ t₁) :
    (x.client = y.client → n = m → x = y) ∧ (x = y → n = m) := by
  induction t₁ using List.reverseRecOn with
  | nil => cases hx
  | append_singleton t e ih =>
    have he := h t e [] rfl
    rcases List.mem_append.1 hx with hx' | hx' <;> rcases List.mem_append.1 hy with hy' | hy'
    · exact ih h.of_append hx' hy'
    · obtain rfl := List.mem_singleton.1 hy'
      refine ⟨fun hc hn => ?_, ?_⟩
      · exact absurd hn (Nat.ne_of_lt (he.2.2.2 x n hx' hc))
      · rintro rfl
        exact absurd hx' (he.2.2.1 n)
    · obtain rfl := List.mem_singleton.1 hx'
      refine ⟨fun hc hn => ?_, ?_⟩
      · exact absurd hn.symm (Nat.ne_of_lt (he.2.2.2 y m hy' hc.symm))
      · rintro rfl
        exact absurd hy' (he.2.2.1 m)
    · obtain rfl := List.mem_singleton.1 hx'
      obtain ⟨rfl, rfl⟩ := Mark.acquire.inj (List.mem_singleton.1 hy')
      exact ⟨fun _ _ => rfl, fun _ => rfl⟩

/-- What is answered without the mutex is the refusal. -/
theorem refused {t : List (Mark ι θ κ σ τ ξ α)} (h : InOrder W t) (hr : .respond x none r ∈ t) :
    W.refuse x.client x.call = some r := by
  obtain ⟨l, l', rfl⟩ := List.append_of_mem hr
  exact (h l _ l' rfl).2

/-- What is answered otherwise is what the call had when it gave the mutex back. -/
theorem released {t : List (Mark ι θ κ σ τ ξ α)} (h : InOrder W t) {n : ℕ}
    (hr : .respond x (some n) r ∈ t) : .release x n r ∈ t := by
  obtain ⟨l, l', rfl⟩ := List.append_of_mem hr
  exact List.mem_append_left _ (h l _ l' rfl).2

/-- A call under the mutex is answered what it replies there. -/
theorem answered {t : List (Mark ι θ κ σ τ ξ α)} (h : InOrder W t) {n : ℕ}
    (hr : .respond x (some n) r ∈ t) : .reply x.client n x.call r ∈ entries t :=
  List.mem_filterMap.2 ⟨.release x n r, h.released hr, rfl⟩

/-- What calls before `x` do lies before all that `x` does, and what calls after it do, behind. -/
theorem around {t : List (Mark ι θ κ σ τ ξ α)} (h : InOrder W t) {n : ℕ} {o : Obs σ τ}
    (ht : t = t₁ ++ .obs x n o :: t₂) :
    (∀ y, AnsweredBefore t y x → ∀ e ∈ .obs x n o :: t₂, e.ticket ≠ y) ∧
      ∀ y, AnsweredBefore t x y → ∀ e ∈ t₁, e.ticket ≠ y := by
  subst ht
  have hpend : Pending t₁ x := (h t₁ _ t₂ rfl).1
  constructor
  · rintro y ⟨u₁, u₂, m, r, hu, hy, hx⟩
    -- `x` is made after `u₁`, but within `t₁`
    rcases List.append_eq_append_iff.1 hu with ⟨l, rfl, -⟩ | ⟨l, rfl, -⟩
    · exact absurd (List.mem_append_left _ hpend.invoked) hx
    · exact fun e he => h.after_respond (List.mem_append_left _ hy) he
  · rintro y ⟨u₁, u₂, m, r, hu, hx, hy⟩
    rcases List.append_eq_append_iff.1 hu with ⟨l, rfl, -⟩ | ⟨l, rfl, -⟩
    · exact fun e he => h.before_invoke (fun hm => hy (List.mem_append_left _ hm)) he
    · exact absurd (List.mem_append_left _ hx) (hpend.unanswered m r)

end InOrder

section Steps

variable [DecidableEq ι] [DecidableEq θ]

namespace Pool

variable {W : Workers ι κ σ τ ε μ ξ α} {s s' : Pool ι θ κ σ τ ε μ ξ α} {p : ι} {i : θ}

/-- A step of thread `i` of client `p` that leaves at most one mark. -/
theorem Timely.moved (hs : s.Timely W) (i : θ) (new : Option (Mark ι θ κ σ τ ξ α))
    (hprocs : ∀ q, q ≠ p → s'.procs q = s.procs q)
    (hthreads : ∀ j, j ≠ i → (s'.procs p).threads j = (s.procs p).threads j)
    (hcalls : ((s.procs p).threads i).calls ≤ ((s'.procs p).threads i).calls)
    (hcount : (s.procs p).count ≤ (s'.procs p).count)
    (htrace : s'.trace = s.trace ++ new.toList)
    (hticket : ∀ e ∈ new, e.ticket.client = p ∧ e.ticket.thread = i ∧
      e.ticket.number ≤ ((s'.procs p).threads i).calls)
    (hnumber : ∀ x n, .acquire x n ∈ new → n ≤ (s'.procs p).count)
    (hnew : ∀ e ∈ new, MarkOk W s.trace e)
    (hplace : PlaceOk W s'.trace p i ((s'.procs p).threads i).calls (s'.place p i)) :
    s'.Timely W where
  trace := htrace ▸ hs.trace.append hnew
  number e he := by
    rw [htrace, List.mem_append, Option.mem_toList] at he
    rcases he with he | he
    · refine Nat.le_trans (hs.number e he) ?_
      rcases eq_or_ne e.ticket.client p with hp | hp
      · rw [hp]
        rcases eq_or_ne e.ticket.thread i with hi | hi
        · rw [hi]
          exact hcalls
        · exact Nat.le_of_eq (by rw [hthreads _ hi])
      · exact Nat.le_of_eq (by rw [hprocs _ hp])
    · obtain ⟨hp, hi, hn⟩ := hticket e he
      rw [hp, hi]
      exact hn
  count x n hx := by
    rw [htrace, List.mem_append, Option.mem_toList] at hx
    rcases hx with hx | hx
    · refine Nat.le_trans (hs.count x n hx) ?_
      rcases eq_or_ne x.client p with hp | hp
      · rw [hp]
        exact hcount
      · exact Nat.le_of_eq (by rw [hprocs _ hp])
    · rw [show x.client = p from (hticket _ hx).1]
      exact hnumber x n hx
  place q j := by
    by_cases hqj : q = p ∧ j = i
    · obtain ⟨rfl, rfl⟩ := hqj
      exact hplace
    · have hsame : (s'.procs q).threads j = (s.procs q).threads j := by
        rcases eq_or_ne q p with rfl | hq
        · exact hthreads j fun hj => hqj ⟨rfl, hj⟩
        · rw [hprocs q hq]
      rw [htrace, Pool.place, hsame]
      refine (hs.place q j).frame fun e he hp => hqj ?_
      obtain ⟨h₁, h₂, -⟩ := hticket e he
      exact ⟨hp.1.symm.trans h₁, hp.2.symm.trans h₂⟩

theorem Takes.timely (h : s.Takes W p i s') (hs : s.Timely W) : s'.Timely W := by
  have hplace := hs.place p i
  have hprocs : ∀ q, q ≠ p → s'.procs q = s.procs q := fun q hq => h.other hq
  cases h with
  | @invoke c hp =>
    refine hs.moved i (some (.invoke ⟨p, i, ((s.procs p).threads i).calls + 1, c⟩)) hprocs
      (fun j hj => by simp [put, hj]) (by simp [put]) (by simp [put]) rfl ?_ (by simp) ?_ ?_
    · rintro e ⟨⟩
      exact ⟨rfl, rfl, by simp [put, Mark.ticket]⟩
    · rintro e ⟨⟩ e' he' hc ht
      have := hs.number e' he'
      rw [hc, ht] at this
      exact Nat.lt_succ_of_le this
    · -- no mark has the number of the new call
      have hfresh (f : Mark ι θ κ σ τ ξ α)
          (hf : f.ticket = ⟨p, i, ((s.procs p).threads i).calls + 1, c⟩) : f ∉ s.trace := by
        intro hm
        have := hs.number f hm
        rw [hf] at this
        exact absurd this (Nat.not_succ_le_self _)
      simp only [put, Pool.place, Function.update_self]
      refine ⟨⟨by simp, fun n r hm => ?_⟩, fun n hm => ?_⟩
      · simp [hfresh (.respond _ n r) rfl] at hm
      · simp [hfresh (.acquire _ n) rfl] at hm
  | @refuse c r hp hr =>
    rw [hp] at hplace
    refine hs.moved i none hprocs (fun j hj => by simp [put, Process.move, hj])
      (by simp [put, Process.move]) (by simp [put, Process.move]) rfl (by simp) (by simp)
      (by simp) ?_
    simp only [put, Process.move, Pool.place, Function.update_self, List.append_nil]
    exact ⟨hplace.1, hr⟩
  | @respond n c r hp =>
    rw [hp] at hplace
    refine hs.moved i (some (.respond (s.ticket p i c) n r)) hprocs
      (fun j hj => by simp [put, Process.move, hj])
      (by simp [put, Process.move]) (by simp [put, Process.move]) rfl ?_ (by simp) ?_ ?_
    · rintro e ⟨⟩
      exact ⟨rfl, rfl, by simp [put, Process.move, Mark.ticket, ticket]⟩
    · rintro e ⟨⟩
      cases n <;> exact hplace
    · simp only [put, Process.move, Pool.place, Function.update_self]
      trivial
  | @acquire c hp hr ho =>
    rw [hp] at hplace
    refine hs.moved i (some (.acquire (s.ticket p i c) ((s.procs p).count + 1))) hprocs
      (fun j hj => by simp [put, Process.move, hj])
      (by simp [put, Process.move]) (by simp [put]) rfl ?_ ?_ ?_ ?_
    · rintro e ⟨⟩
      exact ⟨rfl, rfl, by simp [put, Process.move, Mark.ticket, ticket]⟩
    · rintro x n ⟨⟩
      simp [put]
    · rintro e ⟨⟩
      refine ⟨hplace.1, hr, hplace.2, fun y m hy hyp => ?_⟩
      have := hs.count y m hy
      rw [hyp] at this
      exact Nat.lt_succ_of_le this
    · simp only [put, Process.move, Pool.place, Function.update_self]
      refine ⟨hplace.1.append (by simp), by simp [ticket], fun l r hm => ?_⟩
      -- it has not given back what it had not taken
      have hm : .release ⟨p, i, ((s.procs p).threads i).calls, c⟩ l r ∈ s.trace := by
        simpa using hm
      exact hplace.2 l (hs.trace.acquired hm)
  | @operate n c o k ch out hp hr =>
    rw [hp] at hplace
    have hlist : out.obs.toList.map (.obs (s.ticket p i c) n) =
        (out.obs.map (.obs (s.ticket p i c) n) : Option (Mark ι θ κ σ τ ξ α)).toList := by
      cases out.obs <;> rfl
    refine hs.moved i (out.obs.map (.obs (s.ticket p i c) n)) hprocs
      (fun j hj => by simp [Process.move, hj]) (by simp [Process.move]) (by simp [Process.move])
      (congrArg _ hlist) ?_ ?_ ?_ ?_
    · intro e he
      obtain ⟨o', -, rfl⟩ := Option.map_eq_some_iff.1 he
      exact ⟨rfl, rfl, by simp [Process.move, Mark.ticket, ticket]⟩
    · intro x m hx
      obtain ⟨o', -, ho'⟩ := Option.map_eq_some_iff.1 hx
      cases ho'
    · intro e he
      obtain ⟨o', -, rfl⟩ := Option.map_eq_some_iff.1 he
      exact hplace
    · simp only [Process.move, Pool.place, Function.update_self]
      refine ⟨hplace.1.append (by simp), List.mem_append_left _ hplace.2.1, fun l r hm => ?_⟩
      exact hplace.2.2 l r (by simpa using hm)
  | @release n c r hp =>
    rw [hp] at hplace
    refine hs.moved i (some (.release (s.ticket p i c) n (W.after p c r))) hprocs
      (fun j hj => by simp [released, put, Process.move, hj])
      (by simp [released, put, Process.move]) (by simp [released, put, Process.move]) rfl ?_
      (by simp)
      ?_ ?_
    · rintro e ⟨⟩
      exact ⟨rfl, rfl, by simp [released, put, Process.move, Mark.ticket, ticket]⟩
    · rintro e ⟨⟩
      exact hplace
    · simp only [released, put, Process.move, Pool.place, Function.update_self]
      exact ⟨hplace.1.append (by simp), by simp [ticket]⟩
  | crash =>
    have hself : (s.crash W p).procs p = _ := Function.update_self ..
    constructor
    case trace => exact hs.trace
    case number =>
      intro e he
      have := hs.number e he
      rcases eq_or_ne e.ticket.client p with hq | hq
      · rw [hq] at this ⊢
        rwa [hself]
      · rwa [hprocs _ hq]
    case count =>
      intro x n hx
      have := hs.count x n hx
      rcases eq_or_ne x.client p with hq | hq
      · rw [hq] at this ⊢
        rwa [hself]
      · rwa [hprocs _ hq]
    case place =>
      intro q j
      rcases eq_or_ne q p with rfl | hq
      · rw [Pool.place, hself]
        trivial
      · rw [Pool.place, hprocs _ hq]
        exact hs.place q j

theorem Reach.timely {d : σ} (h : Reach W (initial d W.boot) s) : s.Timely W := by
  induction h with
  | refl =>
    exact
      { trace := fun t₁ e t₂ h => by simp [initial] at h
        number := fun e he => by simp [initial] at he
        count := fun x n hx => by simp [initial] at hx
        place := fun _ _ => trivial }
  | tail _ hs ih =>
    obtain ⟨p, i, a, ha⟩ := hs
    exact (takes_of_step ha).timely ih

/-- **Everything a call does lies between its invocation and its answer.** -/
theorem Reach.ordered {d : σ} (h : Reach W (initial d W.boot) s) : InOrder W s.trace :=
  (Reach.timely h).trace

end Pool

/-! ## Progress -/

/-- Every operation is answered: one that waits for the lock can time out. -/
theorem Op.exists_run [Nonempty τ] [Nonempty ε] (o : Op σ μ) (d : σ) (free : Bool) (c : Conn σ)
    (m : μ) : ∃ (ch : Choice τ ε) (out : Outcome τ ε o), o.run d free c m ch = some out := by
  obtain ⟨t⟩ := ‹Nonempty τ›
  obtain ⟨e⟩ := ‹Nonempty ε›
  cases o with
  | now => exact ⟨.time t, _, rfl⟩
  | call => exact ⟨.go, _, rfl⟩
  | getMem => exact ⟨.go, _, rfl⟩
  | putMem m => exact ⟨.go, _, rfl⟩
  | inTransaction => exact ⟨.go, _, rfl⟩
  | beginImmediate => exact ⟨.fail e, _, rfl⟩
  | select => exact ⟨.fail e, _, rfl⟩
  | execute u => exact ⟨.abort e, _, rfl⟩
  | commit => exact ⟨.abort e, _, rfl⟩
  | rollback => exact ⟨.go, _, rfl⟩

namespace Pool

variable {W : Workers ι κ σ τ ε μ ξ α} {s s' : Pool ι θ κ σ τ ε μ ξ α} {p : ι} {i : θ}

/-- A step of a thread of client `p`, which does not die. -/
def StepOf (W : Workers ι κ σ τ ε μ ξ α) (p : ι) (s s' : Pool ι θ κ σ τ ε μ ξ α) : Prop :=
  ∃ i a, a ≠ .crash ∧ s.step W p i a = some s'

theorem StepOf.step (h : StepOf W p s s') : Step W s s' := by
  obtain ⟨i, a, -, ha⟩ := h
  exact ⟨p, i, a, ha⟩

/-- A thread that has an answer gives it. -/
theorem exists_respond {n : Option ℕ} {c : κ} {r : Except ξ α}
    (hp : s.place p i = .leaving n c r) :
    ∃ s', StepOf W p s s' ∧ .respond (s.ticket p i c) n r ∈ s'.trace :=
  ⟨s.put p ((s.procs p).move i .idle) [.respond (s.ticket p i c) n r],
    ⟨i, .respond, by simp, by simp [step, respond, hp]⟩, by simp [put]⟩

/-- Thread `i` has come out of call `c` and given the mutex back, and the other threads stand as in
`s`. -/
structure Left (s : Pool ι θ κ σ τ ε μ ξ α) (p : ι) (i : θ) (n : ℕ) (c : κ)
    (s' : Pool ι θ κ σ τ ε μ ξ α) : Prop where
  place : ∃ r, s'.place p i = .leaving (some n) c r
  owner : (s'.procs p).owner = none
  calls : ∀ j, ((s'.procs p).threads j).calls = ((s.procs p).threads j).calls
  other : ∀ j, j ≠ i → s'.place p j = s.place p j

/-- A thread whose body has ended gives the mutex back. -/
theorem exists_release {n : ℕ} {c : κ} {r : Except ξ α}
    (hp : s.place p i = .inside n c (.ofExcept r)) : ∃ s', StepOf W p s s' ∧ Left s p i n c s' := by
  refine ⟨s.released W p i n c r, ⟨i, .release, by simp, ?_⟩, ⟨W.after p c r, ?_⟩, ?_, fun j => ?_,
    fun j hj => ?_⟩
  · cases r <;> simp only [step, release, hp, Prog.ofExcept]
  · simp only [released, put, Pool.place, Process.move, Function.update_self]
  · simp only [released, put, Function.update_self]
  · rcases eq_or_ne j i with rfl | hj <;> simp [released, put, Process.move, *]
  · simp [released, put, Pool.place, Process.move, hj]

/-- The thread inside comes out, whatever the database answers. -/
theorem exists_leave [Nonempty τ] [Nonempty ε] {n : ℕ} {c : κ} {k : Prog σ τ ε μ ξ α}
    (hp : s.place p i = .inside n c k) :
    ∃ s', Relation.ReflTransGen (StepOf W p) s s' ∧ Left s p i n c s' := by
  -- induction on what is left of the call
  induction k generalizing s with
  | ret a =>
    obtain ⟨s', hs', hleft⟩ := exists_release (W := W) (r := .ok a) hp
    exact ⟨s', .single hs', hleft⟩
  | raise e =>
    obtain ⟨s', hs', hleft⟩ := exists_release (W := W) (r := .error e) hp
    exact ⟨s', .single hs', hleft⟩
  | op o k ih =>
    obtain ⟨ch, out, hr⟩ := Op.exists_run (τ := τ) (ε := ε) o s.db s.lock.isNone (s.procs p).conn
      (s.procs p).mem
    obtain ⟨s₁, hs₁⟩ : ∃ s₁, s.operate p i ch = some s₁ := by simp [operate, hp, hr]
    have hp₁ : s₁.place p i = .inside n c (k out.ans) := by
      simp only [operate, hp, hr, Option.map_some, Option.some.injEq] at hs₁
      subst hs₁
      simp [Pool.place, Process.move]
    have hframe (j : θ) : ((s₁.procs p).threads j).calls = ((s.procs p).threads j).calls ∧
        (j ≠ i → s₁.place p j = s.place p j) := by
      simp only [operate, hp, hr, Option.map_some, Option.some.injEq] at hs₁
      subst hs₁
      refine ⟨?_, fun hj => by simp [Pool.place, Process.move, hj]⟩
      rcases eq_or_ne j i with rfl | hj <;> simp [Process.move, *]
    obtain ⟨s', hreach, hleft⟩ := ih out.ans hp₁
    exact ⟨s', .head ⟨i, .operate ch, by simp, hs₁⟩ hreach, hleft.place, hleft.owner,
      fun j => (hleft.calls j).trans (hframe j).1,
      fun j hj => (hleft.other j hj).trans ((hframe j).2 hj)⟩

/-- A thread that wants the mutex, which nobody holds, is answered. -/
theorem exists_answer_of_called [Nonempty τ] [Nonempty ε] {c : κ} (hp : s.place p i = .called c)
    (ho : (s.procs p).owner = none) :
    ∃ s' n r, Relation.ReflTransGen (StepOf W p) s s' ∧
      .respond (s.ticket p i c) n r ∈ s'.trace := by
  cases hr : W.refuse p c with
  | some r =>
    let s₁ := s.put p ((s.procs p).move i (.leaving none c r)) []
    have hs₁ : StepOf W p s s₁ := ⟨i, .refuse, by simp, by simp [step, refuse, hp, hr, s₁]⟩
    have hp₁ : s₁.place p i = .leaving none c r := by simp [s₁, put, Pool.place, Process.move]
    obtain ⟨s', hs', hm⟩ := exists_respond (W := W) hp₁
    refine ⟨s', none, r, .head hs₁ (.single hs'), ?_⟩
    simpa [s₁, ticket, put, Process.move] using hm
  | none =>
    let n := (s.procs p).count + 1
    let s₁ := s.put p
      { (s.procs p).move i (.inside n c (W.body p c)) with count := n, owner := some i }
      [.acquire (s.ticket p i c) n]
    have hs₁ : StepOf W p s s₁ := ⟨i, .acquire, by simp, by simp [step, acquire, hp, hr, ho, s₁, n]⟩
    have hp₁ : s₁.place p i = .inside n c (W.body p c) := by
      simp [s₁, put, Pool.place, Process.move]
    obtain ⟨s₂, hs₂, hleft⟩ := exists_leave (W := W) hp₁
    obtain ⟨r, hp₂⟩ := hleft.place
    obtain ⟨s', hs', hm⟩ := exists_respond (W := W) hp₂
    refine ⟨s', some n, r, .head hs₁ (hs₂.trans (.single hs')), ?_⟩
    have hcalls := hleft.calls i
    simp only [s₁, put, Process.move, Function.update_self] at hcalls
    rwa [ticket, hcalls] at hm

/-- **No call waits for ever.** In every reachable state, a call that was made and is not answered
can be answered by steps of its client's threads alone, whatever they hold. -/
theorem Reach.answerable [Nonempty τ] [Nonempty ε] {d : σ} (h : Reach W (initial d W.boot) s)
    {p : ι} {i : θ} (hp : s.place p i ≠ .idle) :
    ∃ c s' n r, Relation.ReflTransGen (StepOf W p) s s' ∧
      .respond (s.ticket p i c) n r ∈ s'.trace := by
  have hx := Reach.exclusive h p
  cases hi : s.place p i with
  | idle => exact absurd hi hp
  | leaving n c r =>
    obtain ⟨s', hs', hm⟩ := exists_respond (W := W) hi
    exact ⟨c, s', n, r, .single hs', hm⟩
  | inside n c k =>
    obtain ⟨s₁, hs₁, hleft⟩ := exists_leave (W := W) hi
    obtain ⟨r, hp₁⟩ := hleft.place
    obtain ⟨s', hs', hm⟩ := exists_respond (W := W) hp₁
    rw [ticket, hleft.calls i] at hm
    exact ⟨c, s', some n, r, hs₁.trans (.single hs'), hm⟩
  | called c =>
    cases ho : (s.procs p).owner with
    | none =>
      obtain ⟨s', n, r, hs', hm⟩ := exists_answer_of_called (W := W) hi ho
      exact ⟨c, s', n, r, hs', hm⟩
    | some j =>
      -- the holder of the mutex comes out first
      obtain ⟨c', k, hj⟩ := hx.owner j ho
      obtain ⟨s₁, hs₁, hleft⟩ := exists_leave (W := W) hj
      have hij : i ≠ j := by
        rintro rfl
        have := hi.symm.trans hj
        cases this
      obtain ⟨s', n, r, hs', hm⟩ := exists_answer_of_called (W := W)
        ((hleft.other i hij).trans hi) hleft.owner
      rw [ticket, hleft.calls i] at hm
      exact ⟨c, s', n, r, hs₁.trans hs', hm⟩

end Pool

end Steps

end SingleWriter
