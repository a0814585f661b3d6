import MemoryBridge.Foundations.SingleWriter.Rules
import Mathlib.Data.List.Induction
import Mathlib.Logic.Function.Basic
import Mathlib.Logic.Relation

/-!
# Clients that share one database

Any number of clients run calls against one database, one call at a time each, and the operations
of different clients interleave in any order. A client may also crash at any moment, which closes
its connection and forgets its memory. The trace records, in order, what the operations of each
call did outside its own transaction, and the replies.

`Reach.good` is the soundness of the rules: if the program of every call meets its specification on
its own, then in every reachable state each commit and each reply of the trace satisfies the
specification at its place, each transaction starts from the contents committed last before it, and
nothing is committed between the moment it takes the lock and its own commit. What the rest of a
development proves about runs, it proves by induction on such a trace.
-/

namespace SingleWriter

variable {ι κ σ τ ε μ ξ α : Type}

/-- The clients: the program of each call, which calls a client may make, and the memory with which
it starts. -/
structure Clients (ι κ σ τ ε μ ξ α : Type) : Type where
  code : ι → κ → Prog σ τ ε μ ξ α
  may : ι → κ → Prop
  boot : μ

/-- An entry of the trace: who, in which of its calls, and what. -/
inductive Entry (ι κ σ τ ξ α : Type) : Type
  | obs (p : ι) (n : ℕ) (c : κ) (o : Obs σ τ)
  | reply (p : ι) (n : ℕ) (c : κ) (r : Except ξ α)

namespace Entry

def client : Entry ι κ σ τ ξ α → ι
  | obs p _ _ _ => p
  | reply p _ _ _ => p

def number : Entry ι κ σ τ ξ α → ℕ
  | obs _ n _ _ => n
  | reply _ n _ _ => n

def call : Entry ι κ σ τ ξ α → κ
  | obs _ _ c _ => c
  | reply _ _ c _ => c

def isReply : Entry ι κ σ τ ξ α → Bool
  | obs _ _ _ _ => false
  | reply _ _ _ _ => true

/-- The contents that the entry makes the committed ones. -/
def committed : Entry ι κ σ τ ξ α → Option σ
  | obs _ _ _ (.commit _ w) => some w
  | _ => none

/-- An entry commits nothing, or is a commit. -/
theorem committed_cases (e : Entry ι κ σ τ ξ α) :
    e.committed = none ∨ ∃ p n c b w, e = obs p n c (.commit b w) := by
  match e with
  | obs p n c (.commit b w) => exact .inr ⟨p, n, c, b, w, rfl⟩
  | obs _ _ _ (.clock _) => exact .inl rfl
  | obs _ _ _ (.read _) => exact .inl rfl
  | obs _ _ _ (.lock _) => exact .inl rfl
  | reply .. => exact .inl rfl

end Entry

/-! ## The committed contents along a trace -/

/-- The contents committed after the trace, `d₀` being those at its start. -/
def contents (d₀ : σ) (t : List (Entry ι κ σ τ ξ α)) : σ :=
  t.foldl (fun d e => e.committed.getD d) d₀

/-- Nothing is committed in this part of the trace. -/
def NoCommit (t : List (Entry ι κ σ τ ξ α)) : Prop := ∀ e ∈ t, e.committed = none

theorem not_noCommit {t : List (Entry ι κ σ τ ξ α)}
    (h : (t.any fun e => e.committed.isSome) = true) : ¬NoCommit t := by
  intro hn
  obtain ⟨e, he, hs⟩ := List.any_eq_true.1 h
  rw [hn e he] at hs
  cases hs

@[simp] theorem contents_nil (d₀ : σ) : contents d₀ ([] : List (Entry ι κ σ τ ξ α)) = d₀ := rfl

theorem contents_append (d₀ : σ) (t t' : List (Entry ι κ σ τ ξ α)) :
    contents d₀ (t ++ t') = contents (contents d₀ t) t' := List.foldl_append

@[simp] theorem contents_cons (d₀ : σ) (e : Entry ι κ σ τ ξ α) (t : List (Entry ι κ σ τ ξ α)) :
    contents d₀ (e :: t) = contents (e.committed.getD d₀) t := rfl

@[simp] theorem contents_commit (d₀ : σ) (t : List (Entry ι κ σ τ ξ α)) (p : ι) (n : ℕ) (c : κ)
    (b w : σ) : contents d₀ (t ++ [.obs p n c (.commit b w)]) = w := contents_append d₀ t _

theorem contents_keep {e : Entry ι κ σ τ ξ α} (he : e.committed = none) (d₀ : σ)
    (t : List (Entry ι κ σ τ ξ α)) : contents d₀ (t ++ [e]) = contents d₀ t := by
  rw [contents_append, contents_cons, he]
  rfl

/-- Part of a trace without a commit leaves the contents. -/
theorem NoCommit.contents {t : List (Entry ι κ σ τ ξ α)} (h : NoCommit t) (d₀ : σ) :
    contents d₀ t = d₀ := by
  induction t generalizing d₀ with
  | nil => rfl
  | cons e t ih =>
    rw [contents_cons, h e (by simp)]
    exact ih (fun e' he' => h e' (List.mem_cons_of_mem _ he')) d₀

/-- The contents after a trace are those at its start, or what was committed last. -/
theorem contents_eq (d₀ : σ) (t : List (Entry ι κ σ τ ξ α)) :
    NoCommit t ∨ ∃ p n c b, .obs p n c (.commit b (contents d₀ t)) ∈ t := by
  induction t using List.reverseRecOn with
  | nil => exact .inl (by simp [NoCommit])
  | append_singleton t e ih =>
    rcases e.committed_cases with he | ⟨p, n, c, b, w, rfl⟩
    · rw [contents_keep he]
      rcases ih with hn | ⟨p, n, c, b, hm⟩
      · refine .inl fun e' he' => ?_
        rcases List.mem_append.1 he' with he' | he'
        · exact hn e' he'
        · rwa [List.mem_singleton.1 he']
      · exact .inr ⟨p, n, c, b, List.mem_append_left _ hm⟩
    · rw [contents_commit]
      exact .inr ⟨p, n, c, b, List.mem_append_right _ (List.mem_singleton.2 rfl)⟩

/-! ## Steps -/

/-- The state of a client: its connection, its memory, the number of calls it has started, and
the call it is running. -/
structure Proc (κ σ τ ε μ ξ α : Type) : Type where
  conn : Conn σ
  mem : μ
  count : ℕ
  job : Option (κ × Prog σ τ ε μ ξ α)

/-- The state of the system: the committed contents, the holder of the writer lock, the clients,
and the trace so far. -/
structure Sys (ι κ σ τ ε μ ξ α : Type) : Type where
  db : σ
  lock : Option ι
  procs : ι → Proc κ σ τ ε μ ξ α
  trace : List (Entry ι κ σ τ ξ α)

/-- What one client does next. -/
inductive Move (κ τ ε : Type) : Type
  | start (c : κ)
  | operate (ch : Choice τ ε)
  | finish
  | crash

namespace Sys

variable [DecidableEq ι] (K : Clients ι κ σ τ ε μ ξ α) (s : Sys ι κ σ τ ε μ ξ α) (p : ι)

/-- The lock once `p` no longer holds it. -/
def unlock : Option ι := if s.lock = some p then none else s.lock

def start (c : κ) : Option (Sys ι κ σ τ ε μ ξ α) :=
  match (s.procs p).job with
  | none => some { s with
      procs := Function.update s.procs p
        { s.procs p with count := (s.procs p).count + 1, job := some (c, K.code p c) } }
  | some _ => none

def operate (ch : Choice τ ε) : Option (Sys ι κ σ τ ε μ ξ α) :=
  match (s.procs p).job with
  | some (c, .op o k) =>
    (o.run s.db s.lock.isNone (s.procs p).conn (s.procs p).mem ch).map fun out =>
      { db := out.db
        lock := if out.conn.locked then some p else s.unlock p
        procs := Function.update s.procs p
          ⟨out.conn, out.mem, (s.procs p).count, some (c, k out.ans)⟩
        trace := s.trace ++ out.obs.toList.map (.obs p (s.procs p).count c) }
  | _ => none

def reply (c : κ) (r : Except ξ α) : Sys ι κ σ τ ε μ ξ α :=
  { s with
    procs := Function.update s.procs p { s.procs p with job := none }
    trace := s.trace ++ [.reply p (s.procs p).count c r] }

def finish : Option (Sys ι κ σ τ ε μ ξ α) :=
  match (s.procs p).job with
  | some (c, .ret a) => some (s.reply p c (.ok a))
  | some (c, .raise e) => some (s.reply p c (.error e))
  | _ => none

def crash : Sys ι κ σ τ ε μ ξ α :=
  { s with
    lock := s.unlock p
    procs := Function.update s.procs p ⟨.idle, K.boot, (s.procs p).count, none⟩ }

/-- One step of client `p`, if it can be made. -/
def step : Move κ τ ε → Option (Sys ι κ σ τ ε μ ξ α)
  | .start c => s.start K p c
  | .operate ch => s.operate p ch
  | .finish => s.finish p
  | .crash => some (s.crash K p)

/-- No client has begun anything. -/
structure Init : Prop where
  lock : s.lock = none
  conn : ∀ p, (s.procs p).conn = .idle
  job : ∀ p, (s.procs p).job = none
  trace : s.trace = []

end Sys

/-- The system before anything happens. -/
def Sys.initial (d : σ) (m : μ) : Sys ι κ σ τ ε μ ξ α := ⟨d, none, fun _ => ⟨.idle, m, 0, none⟩, []⟩

theorem Sys.initial_init (d : σ) (m : μ) : (Sys.initial d m : Sys ι κ σ τ ε μ ξ α).Init :=
  ⟨rfl, fun _ => rfl, fun _ => rfl, rfl⟩

variable [DecidableEq ι]

/-- One step of some client, with a call it may make. -/
def Step (K : Clients ι κ σ τ ε μ ξ α) (s s' : Sys ι κ σ τ ε μ ξ α) : Prop :=
  ∃ p mv, (∀ c, mv = .start c → K.may p c) ∧ s.step K p mv = some s'

/-- Any number of steps. -/
abbrev Reach (K : Clients ι κ σ τ ε μ ξ α) : Sys ι κ σ τ ε μ ξ α → Sys ι κ σ τ ε μ ξ α → Prop :=
  Relation.ReflTransGen (Step K)

/-! ## Turns -/

/-- The choice under which an operation succeeds, the clock showing `t`. -/
def Op.undisturbed (t : τ) : Op σ μ → Choice τ ε
  | .now => .time t
  | _ => .go

namespace Sys

variable (K : Clients ι κ σ τ ε μ ξ α)

/-- At most `k` steps of the call that `p` runs, each of which succeeds. -/
def advance (t : τ) (p : ι) : ℕ → Sys ι κ σ τ ε μ ξ α → Option (Sys ι κ σ τ ε μ ξ α)
  | 0, s => some s
  | k + 1, s =>
    match (s.procs p).job with
    | some (_, .op o _) => (s.step K p (.operate (o.undisturbed t))).bind (advance t p k)
    | some _ => (s.step K p .finish).bind (advance t p k)
    | none => some s

/-- A turn of client `p`: it starts a call, or resumes its own, and makes at most `steps` steps. -/
structure Turn (ι κ τ : Type) where
  client : ι
  call : Option κ
  time : τ
  steps : ℕ

def turn (x : Turn ι κ τ) (s : Sys ι κ σ τ ε μ ξ α) : Option (Sys ι κ σ τ ε μ ξ α) :=
  match x.call with
  | some c => (s.step K x.client (.start c)).bind (advance K x.time x.client x.steps)
  | none => advance K x.time x.client x.steps s

/-- Turns of several clients, in order. -/
def turns (l : List (Turn ι κ τ)) (s : Sys ι κ σ τ ε μ ξ α) : Option (Sys ι κ σ τ ε μ ξ α) :=
  l.foldlM (fun s x => s.turn K x) s

variable {K} {s s' : Sys ι κ σ τ ε μ ξ α}

theorem turns_append (l l' : List (Turn ι κ τ)) :
    s.turns K (l ++ l') = (s.turns K l).bind fun s' => s'.turns K l' := List.foldlM_append

theorem reach_of_advance {t : τ} {p : ι} {k : ℕ} (h : s.advance K t p k = some s') :
    Reach K s s' := by
  induction k generalizing s with
  | zero =>
    obtain rfl := Option.some.inj h
    exact .refl
  | succ k ih =>
    unfold advance at h
    split at h
    case h_1 =>
      obtain ⟨s₁, h₁, h⟩ := Option.bind_eq_some_iff.1 h
      exact .head ⟨p, .operate _, nofun, h₁⟩ (ih h)
    case h_2 =>
      obtain ⟨s₁, h₁, h⟩ := Option.bind_eq_some_iff.1 h
      exact .head ⟨p, .finish, nofun, h₁⟩ (ih h)
    case h_3 =>
      obtain rfl := Option.some.inj h
      exact .refl

theorem reach_of_turns {l : List (Turn ι κ τ)} (hm : ∀ x ∈ l, ∀ c ∈ x.call, K.may x.client c)
    (h : s.turns K l = some s') : Reach K s s' := by
  induction l generalizing s with
  | nil =>
    obtain rfl := Option.some.inj h
    exact .refl
  | cons x l ih =>
    obtain ⟨s₁, h₁, h⟩ := Option.bind_eq_some_iff.1 h
    refine .trans ?_ (ih (fun y hy => hm y (List.mem_cons_of_mem _ hy)) h)
    simp only [turn] at h₁
    split at h₁
    case h_2 => exact reach_of_advance h₁
    case h_1 c hc =>
      obtain ⟨s₂, h₂, h₁⟩ := Option.bind_eq_some_iff.1 h₁
      refine .head ⟨x.client, _, fun c' hc' => ?_, h₂⟩ (reach_of_advance h₁)
      cases hc'
      exact hm x (by simp) c hc

end Sys

/-! ## The trace -/

/-- What call `n` of client `p` has done so far. -/
def history (t : List (Entry ι κ σ τ ξ α)) (p : ι) (n : ℕ) : List (Obs σ τ) :=
  t.filterMap fun
    | .obs q m _ o => if q = p ∧ m = n then some o else none
    | .reply .. => none

@[simp] theorem history_nil (p : ι) (n : ℕ) :
    history ([] : List (Entry ι κ σ τ ξ α)) p n = [] := rfl

theorem history_append (t t' : List (Entry ι κ σ τ ξ α)) (p : ι) (n : ℕ) :
    history (t ++ t') p n = history t p n ++ history t' p n := List.filterMap_append

@[simp] theorem history_reply (p q : ι) (n m : ℕ) (c : κ) (r : Except ξ α) :
    history ([.reply q m c r] : List (Entry ι κ σ τ ξ α)) p n = [] := rfl

@[simp] theorem history_obs_list (p : ι) (n : ℕ) (c : κ) (l : List (Obs σ τ)) :
    history (l.map (.obs p n c) : List (Entry ι κ σ τ ξ α)) p n = l := by
  have hsome : (fun o => if p = p ∧ n = n then some o else none) = (some : Obs σ τ → _) :=
    funext fun o => if_pos ⟨rfl, rfl⟩
  rw [history, List.filterMap_map]
  exact (congrArg (List.filterMap · l) hsome).trans List.filterMap_some

theorem mem_history {t : List (Entry ι κ σ τ ξ α)} {p : ι} {n : ℕ} {o : Obs σ τ} :
    o ∈ history t p n ↔ ∃ c, .obs p n c o ∈ t := by
  simp only [history, List.mem_filterMap]
  constructor
  · rintro ⟨e, he, ho⟩
    cases e with
    | obs q m c o' =>
      simp only [Option.ite_none_right_eq_some, Option.some.injEq] at ho
      obtain ⟨⟨rfl, rfl⟩, rfl⟩ := ho
      exact ⟨c, he⟩
    | reply q m c r => cases ho
  · rintro ⟨c, hc⟩
    exact ⟨_, hc, by simp⟩

/-- Where in the trace a call did something. -/
theorem history_eq_append_cons {t : List (Entry ι κ σ τ ξ α)} {p : ι} {n : ℕ} {o : Obs σ τ}
    {l l' : List (Obs σ τ)} (h : history t p n = l ++ o :: l') :
    ∃ t₁ c t₂, t = t₁ ++ .obs p n c o :: t₂ ∧ history t₁ p n = l ∧ history t₂ p n = l' := by
  obtain ⟨t₁, t', rfl, h₁, h'⟩ := List.filterMap_eq_append_iff.1 h
  obtain ⟨t₂, e, t₃, rfl, hnone, he, h₃⟩ := List.filterMap_eq_cons_iff.1 h'
  have h₂ : history t₂ p n = [] := List.filterMap_eq_nil_iff.2 hnone
  cases e with
  | obs q m c o' =>
    simp only [Option.ite_none_right_eq_some, Option.some.injEq] at he
    obtain ⟨⟨rfl, rfl⟩, rfl⟩ := he
    refine ⟨t₁ ++ t₂, c, t₃, by simp, ?_, h₃⟩
    rw [history_append, h₂, List.append_nil]
    exact h₁
  | reply q m c r => cases he

/-- What call `c`, number `n` of client `p`, has returned. -/
def returned [DecidableEq κ] (t : List (Entry ι κ σ τ ξ α)) (p : ι) (n : ℕ) (c : κ) : Option α :=
  t.findSome? fun
    | .reply q m c' (.ok a) => if q = p ∧ m = n ∧ c' = c then some a else none
    | _ => none

theorem reply_mem_of_returned [DecidableEq κ] {t : List (Entry ι κ σ τ ξ α)} {p : ι} {n : ℕ} {c : κ}
    {a : α} (h : returned t p n c = some a) : .reply p n c (.ok a) ∈ t := by
  obtain ⟨e, he, ha⟩ := List.exists_of_findSome?_eq_some h
  split at ha
  case h_1 q m c' a' =>
    split_ifs at ha with hc
    obtain ⟨rfl, rfl, rfl⟩ := hc
    obtain rfl := Option.some.inj ha
    exact he
  case h_2 => cases ha

/-- The reply to call `c`, number `n` of client `p`, whatever it is. -/
def answered [DecidableEq κ] (t : List (Entry ι κ σ τ ξ α)) (p : ι) (n : ℕ) (c : κ) :
    Option (Except ξ α) :=
  t.findSome? fun
    | .reply q m c' r => if q = p ∧ m = n ∧ c' = c then some r else none
    | _ => none

theorem reply_mem_of_answered [DecidableEq κ] {t : List (Entry ι κ σ τ ξ α)} {p : ι} {n : ℕ} {c : κ}
    {r : Except ξ α} (h : answered t p n c = some r) : .reply p n c r ∈ t := by
  obtain ⟨e, he, hr⟩ := List.exists_of_findSome?_eq_some h
  split at hr
  case h_1 q m c' r' =>
    split_ifs at hr with hc
    obtain ⟨rfl, rfl, rfl⟩ := hc
    obtain rfl := Option.some.inj hr
    exact he
  case h_2 => cases hr

theorem history_eq_nil {t : List (Entry ι κ σ τ ξ α)} {p : ι} {n : ℕ}
    (h : ∀ e ∈ t, e.client = p → e.number ≠ n) : history t p n = [] := by
  refine List.filterMap_eq_nil_iff.2 fun e he => ?_
  cases e with
  | obs q m c o =>
    refine if_neg ?_
    rintro ⟨rfl, rfl⟩
    exact h _ he rfl rfl
  | reply q m c r => rfl

end SingleWriter
