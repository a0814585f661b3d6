import MemoryBridge.Foundations.SingleWriter.System

/-!
# Clients with threads

A client of `System` makes one call at a time. Here a client has any number of threads, which share
its connection and its memory. A call may be refused before it does anything; otherwise its thread
takes the mutex of the client, runs the body of the call, gives the mutex back, and only then
computes the answer from the result. Nothing but the mutex keeps two threads from running operations
on the one connection.

`Pool.reach_sys`: seen through the mutex (`Pool.sys`), a run of the threads is a run of the system
in which every client makes one call at a time.
-/

namespace SingleWriter

variable {ι θ κ σ τ ε μ ξ α : Type}

/-- The calls of clients with threads. -/
structure Workers (ι κ σ τ ε μ ξ α : Type) : Type where
  /-- The answer to a call that ends before it takes the mutex. -/
  refuse : ι → κ → Option (Except ξ α)
  /-- What a call does under the mutex. -/
  body : ι → κ → Prog σ τ ε μ ξ α
  /-- The answer, from the result of the body. -/
  after : ι → κ → Except ξ α → Except ξ α
  boot : μ

/-- Where a thread is: it runs no call, it was called and wants the mutex, it holds the mutex in the
`n`-th call of its client that does, it has an answer and is outside the mutex. -/
inductive Place (κ σ τ ε μ ξ α : Type) : Type
  | idle
  | called (c : κ)
  | inside (n : ℕ) (c : κ) (k : Prog σ τ ε μ ξ α)
  | leaving (n : Option ℕ) (c : κ) (r : Except ξ α)

/-- The thread holds the mutex. -/
def Place.IsInside : Place κ σ τ ε μ ξ α → Prop
  | inside .. => True
  | _ => False

/-- A thread: the number of calls made on it, and where it is. -/
structure Thread (κ σ τ ε μ ξ α : Type) : Type where
  calls : ℕ
  place : Place κ σ τ ε μ ξ α

/-- A client: its connection and memory, how many of its calls took the mutex, who holds it. -/
structure Process (θ κ σ τ ε μ ξ α : Type) : Type where
  conn : Conn σ
  mem : μ
  count : ℕ
  owner : Option θ
  threads : θ → Thread κ σ τ ε μ ξ α

/-- One call on one thread. -/
structure Ticket (ι θ κ : Type) : Type where
  client : ι
  thread : θ
  number : ℕ
  call : κ

/-- An entry of the trace of the threads. The number under the mutex is that of the client. -/
inductive Mark (ι θ κ σ τ ξ α : Type) : Type
  | invoke (x : Ticket ι θ κ)
  | acquire (x : Ticket ι θ κ) (n : ℕ)
  | obs (x : Ticket ι θ κ) (n : ℕ) (o : Obs σ τ)
  | release (x : Ticket ι θ κ) (n : ℕ) (r : Except ξ α)
  | respond (x : Ticket ι θ κ) (n : Option ℕ) (r : Except ξ α)

namespace Mark

def ticket : Mark ι θ κ σ τ ξ α → Ticket ι θ κ
  | invoke x => x
  | acquire x _ => x
  | obs x _ _ => x
  | release x _ _ => x
  | respond x _ _ => x

/-- The entry that the mark is in the trace of a client that makes one call at a time. -/
def entry : Mark ι θ κ σ τ ξ α → Option (Entry ι κ σ τ ξ α)
  | obs x n o => some (.obs x.client n x.call o)
  | release x n r => some (.reply x.client n x.call r)
  | _ => none

end Mark

/-- The trace of clients that make one call at a time. -/
def entries (t : List (Mark ι θ κ σ τ ξ α)) : List (Entry ι κ σ τ ξ α) := t.filterMap Mark.entry

theorem entries_append (t t' : List (Mark ι θ κ σ τ ξ α)) :
    entries (t ++ t') = entries t ++ entries t' := List.filterMap_append

@[simp] theorem entries_obs (x : Ticket ι θ κ) (n : ℕ) (l : List (Obs σ τ)) :
    entries (l.map (.obs x n) : List (Mark ι θ κ σ τ ξ α)) = l.map (.obs x.client n x.call) := by
  rw [entries, List.filterMap_map, ← List.filterMap_eq_map]
  rfl

/-- The state of the system: the committed contents, the holder of the writer lock, the clients,
and the trace so far. -/
structure Pool (ι θ κ σ τ ε μ ξ α : Type) : Type where
  db : σ
  lock : Option ι
  procs : ι → Process θ κ σ τ ε μ ξ α
  trace : List (Mark ι θ κ σ τ ξ α)

/-- Before anything happens. -/
def Pool.initial (d : σ) (m : μ) : Pool ι θ κ σ τ ε μ ξ α :=
  ⟨d, none, fun _ => ⟨.idle, m, 0, none, fun _ => ⟨0, .idle⟩⟩, []⟩

/-! ## Steps -/

/-- What a thread does next, or what happens to its client. -/
inductive Advance (κ τ ε : Type) : Type
  | invoke (c : κ)
  | refuse
  | acquire
  | operate (ch : Choice τ ε)
  | release
  | respond
  | crash

section Steps

variable [DecidableEq ι] [DecidableEq θ]

/-- The client with thread `i` at another place. -/
def Process.move (x : Process θ κ σ τ ε μ ξ α) (i : θ) (a : Place κ σ τ ε μ ξ α) :
    Process θ κ σ τ ε μ ξ α :=
  { x with threads := Function.update x.threads i { x.threads i with place := a } }

namespace Pool

variable (W : Workers ι κ σ τ ε μ ξ α) (s : Pool ι θ κ σ τ ε μ ξ α) (p : ι) (i : θ)

/-- Where thread `i` of client `p` is. -/
def place : Place κ σ τ ε μ ξ α := ((s.procs p).threads i).place

/-- The call that thread `i` of client `p` is in. -/
def ticket (c : κ) : Ticket ι θ κ := ⟨p, i, ((s.procs p).threads i).calls, c⟩

/-- The lock once `p` no longer holds it. -/
def unlock : Option ι := if s.lock = some p then none else s.lock

/-- Client `p` in another state, and a mark in the trace. -/
def put (x : Process θ κ σ τ ε μ ξ α) (l : List (Mark ι θ κ σ τ ξ α)) : Pool ι θ κ σ τ ε μ ξ α :=
  { s with procs := Function.update s.procs p x, trace := s.trace ++ l }

def invoke (c : κ) : Option (Pool ι θ κ σ τ ε μ ξ α) :=
  match s.place p i with
  | .idle =>
    let calls := ((s.procs p).threads i).calls + 1
    some (s.put p
      { s.procs p with threads := Function.update (s.procs p).threads i ⟨calls, .called c⟩ }
      [.invoke ⟨p, i, calls, c⟩])
  | _ => none

def refuse : Option (Pool ι θ κ σ τ ε μ ξ α) :=
  match s.place p i with
  | .called c =>
    (W.refuse p c).map fun r => s.put p ((s.procs p).move i (.leaving none c r)) []
  | _ => none

def acquire : Option (Pool ι θ κ σ τ ε μ ξ α) :=
  match s.place p i with
  | .called c =>
    if (W.refuse p c).isNone ∧ (s.procs p).owner.isNone then
      let n := (s.procs p).count + 1
      some (s.put p
        { (s.procs p).move i (.inside n c (W.body p c)) with count := n, owner := some i }
        [.acquire (s.ticket p i c) n])
    else none
  | _ => none

def operate (ch : Choice τ ε) : Option (Pool ι θ κ σ τ ε μ ξ α) :=
  match s.place p i with
  | .inside n c (.op o k) =>
    (o.run s.db s.lock.isNone (s.procs p).conn (s.procs p).mem ch).map fun out =>
      { db := out.db
        lock := if out.conn.locked then some p else s.unlock p
        procs := Function.update s.procs p
          { (s.procs p).move i (.inside n c (k out.ans)) with conn := out.conn, mem := out.mem }
        trace := s.trace ++ out.obs.toList.map (.obs (s.ticket p i c) n) }
  | _ => none

/-- The mutex is given back with the result `r` of the body. -/
def released (n : ℕ) (c : κ) (r : Except ξ α) : Pool ι θ κ σ τ ε μ ξ α :=
  s.put p { (s.procs p).move i (.leaving (some n) c (W.after p c r)) with owner := none }
    [.release (s.ticket p i c) n (W.after p c r)]

def release : Option (Pool ι θ κ σ τ ε μ ξ α) :=
  match s.place p i with
  | .inside n c (.ret a) => some (s.released W p i n c (.ok a))
  | .inside n c (.raise e) => some (s.released W p i n c (.error e))
  | _ => none

def respond : Option (Pool ι θ κ σ τ ε μ ξ α) :=
  match s.place p i with
  | .leaving n c r => some (s.put p ((s.procs p).move i .idle) [.respond (s.ticket p i c) n r])
  | _ => none

/-- Client `p` dies with all its threads, and starts again. -/
def crash : Pool ι θ κ σ τ ε μ ξ α :=
  { s with
    lock := s.unlock p
    procs := Function.update s.procs p
      ⟨.idle, W.boot, (s.procs p).count, none, fun i => ⟨((s.procs p).threads i).calls, .idle⟩⟩ }

/-- One step of thread `i` of client `p`, if it can be made. -/
def step : Advance κ τ ε → Option (Pool ι θ κ σ τ ε μ ξ α)
  | .invoke c => s.invoke p i c
  | .refuse => s.refuse W p i
  | .acquire => s.acquire W p i
  | .operate ch => s.operate p i ch
  | .release => s.release W p i
  | .respond => s.respond p i
  | .crash => some (s.crash W p)

/-- One step of some thread. -/
def Step (s s' : Pool ι θ κ σ τ ε μ ξ α) : Prop := ∃ p i a, s.step W p i a = some s'

/-- Any number of steps. -/
abbrev Reach : Pool ι θ κ σ τ ε μ ξ α → Pool ι θ κ σ τ ε μ ξ α → Prop :=
  Relation.ReflTransGen (Step W)

/-- What a thread does next where every operation succeeds, the clock showing `t`. -/
def next (t : τ) : Option (Advance κ τ ε) :=
  match s.place p i with
  | .idle => none
  | .called c => if (W.refuse p c).isNone then some .acquire else some .refuse
  | .inside _ _ (.op o _) => some (.operate (o.undisturbed t))
  | .inside _ _ _ => some .release
  | .leaving .. => some .respond

/-- At most `k` such steps of a thread. -/
def advance (t : τ) : ℕ → Pool ι θ κ σ τ ε μ ξ α → Option (Pool ι θ κ σ τ ε μ ξ α)
  | 0, s => some s
  | k + 1, s =>
    match s.next W p i t with
    | some a => (s.step W p i a).bind (advance t k)
    | none => some s

/-- A turn of thread `i` of client `p`: a call is made on it, or it resumes its own, and it makes at
most `steps` steps. -/
structure Turn (ι θ κ τ : Type) where
  client : ι
  thread : θ
  call : Option κ
  time : τ
  steps : ℕ

def turn (x : Turn ι θ κ τ) (s : Pool ι θ κ σ τ ε μ ξ α) : Option (Pool ι θ κ σ τ ε μ ξ α) :=
  match x.call with
  | some c =>
    (s.step W x.client x.thread (.invoke c)).bind (advance W x.client x.thread x.time x.steps)
  | none => advance W x.client x.thread x.time x.steps s

/-- Turns of several threads, in order. -/
def turns (l : List (Turn ι θ κ τ)) (s : Pool ι θ κ σ τ ε μ ξ α) :
    Option (Pool ι θ κ σ τ ε μ ξ α) :=
  l.foldlM (fun s x => s.turn W x) s

variable {W p i} in
theorem reach_of_advance {t : τ} {k : ℕ} {s s' : Pool ι θ κ σ τ ε μ ξ α}
    (h : s.advance W p i t k = some s') : Reach W s s' := by
  induction k generalizing s with
  | zero =>
    obtain rfl := Option.some.inj h
    exact .refl
  | succ k ih =>
    unfold advance at h
    split at h
    case h_1 a _ =>
      obtain ⟨s₁, h₁, h⟩ := Option.bind_eq_some_iff.1 h
      exact .head ⟨p, i, a, h₁⟩ (ih h)
    case h_2 =>
      obtain rfl := Option.some.inj h
      exact .refl

variable {W} in
theorem reach_of_turns {l : List (Turn ι θ κ τ)} {s s' : Pool ι θ κ σ τ ε μ ξ α}
    (h : s.turns W l = some s') : Reach W s s' := by
  induction l generalizing s with
  | nil =>
    obtain rfl := Option.some.inj h
    exact .refl
  | cons x l ih =>
    obtain ⟨s₁, h₁, h⟩ := Option.bind_eq_some_iff.1 h
    refine .trans ?_ (ih h)
    simp only [turn] at h₁
    split at h₁
    case h_1 c _ =>
      obtain ⟨s₂, h₂, h₁⟩ := Option.bind_eq_some_iff.1 h₁
      exact .head ⟨x.client, x.thread, .invoke c, h₂⟩ (reach_of_advance h₁)
    case h_2 => exact reach_of_advance h₁

/-- What a step comes to. -/
inductive Takes : Pool ι θ κ σ τ ε μ ξ α → Prop
  | invoke {c : κ} (h : s.place p i = .idle) :
    Takes (s.put p
      { s.procs p with
        threads := Function.update (s.procs p).threads i
          ⟨((s.procs p).threads i).calls + 1, .called c⟩ }
      [.invoke ⟨p, i, ((s.procs p).threads i).calls + 1, c⟩])
  | refuse {c : κ} {r : Except ξ α} (h : s.place p i = .called c) (hr : W.refuse p c = some r) :
    Takes (s.put p ((s.procs p).move i (.leaving none c r)) [])
  | acquire {c : κ} (h : s.place p i = .called c) (hr : W.refuse p c = none)
    (ho : (s.procs p).owner = none) :
    Takes (s.put p
      { (s.procs p).move i (.inside ((s.procs p).count + 1) c (W.body p c)) with
        count := (s.procs p).count + 1, owner := some i }
      [.acquire (s.ticket p i c) ((s.procs p).count + 1)])
  | operate {n : ℕ} {c : κ} {o : Op σ μ} {k : o.Answer τ ε → Prog σ τ ε μ ξ α} {ch : Choice τ ε}
    {out : Outcome τ ε o} (h : s.place p i = .inside n c (.op o k))
    (hr : o.run s.db s.lock.isNone (s.procs p).conn (s.procs p).mem ch = some out) :
    Takes
      { db := out.db
        lock := if out.conn.locked then some p else s.unlock p
        procs := Function.update s.procs p
          { (s.procs p).move i (.inside n c (k out.ans)) with conn := out.conn, mem := out.mem }
        trace := s.trace ++ out.obs.toList.map (.obs (s.ticket p i c) n) }
  | release {n : ℕ} {c : κ} (r : Except ξ α) (h : s.place p i = .inside n c (.ofExcept r)) :
    Takes (s.released W p i n c r)
  | respond {n : Option ℕ} {c : κ} {r : Except ξ α} (h : s.place p i = .leaving n c r) :
    Takes (s.put p ((s.procs p).move i .idle) [.respond (s.ticket p i c) n r])
  | crash : Takes (s.crash W p)

variable {W s p i}

theorem takes_of_step {a : Advance κ τ ε} {s' : Pool ι θ κ σ τ ε μ ξ α}
    (h : s.step W p i a = some s') : s.Takes W p i s' := by
  cases a with
  | invoke c =>
    simp only [step, invoke] at h
    split at h
    case h_1 hp =>
      obtain rfl := Option.some.inj h
      exact .invoke hp
    case h_2 => cases h
  | refuse =>
    simp only [step, refuse] at h
    split at h
    case h_1 c hp =>
      obtain ⟨r, hr, rfl⟩ := Option.map_eq_some_iff.1 h
      exact .refuse hp hr
    case h_2 => cases h
  | acquire =>
    simp only [step, acquire] at h
    split at h
    case h_1 c hp =>
      split at h
      case isTrue hc =>
        obtain rfl := Option.some.inj h
        exact .acquire hp (Option.isNone_iff_eq_none.1 hc.1) (Option.isNone_iff_eq_none.1 hc.2)
      case isFalse => cases h
    case h_2 => cases h
  | operate ch =>
    simp only [step, operate] at h
    split at h
    case h_1 n c o k hp =>
      obtain ⟨out, hr, rfl⟩ := Option.map_eq_some_iff.1 h
      exact .operate hp hr
    case h_2 => cases h
  | release =>
    simp only [step, release] at h
    split at h
    case h_1 n c a hp =>
      obtain rfl := Option.some.inj h
      exact .release (.ok a) hp
    case h_2 n c e hp =>
      obtain rfl := Option.some.inj h
      exact .release (.error e) hp
    case h_3 => cases h
  | respond =>
    simp only [step, respond] at h
    split at h
    case h_1 n c r hp =>
      obtain rfl := Option.some.inj h
      exact .respond hp
    case h_2 => cases h
  | crash =>
    obtain rfl := Option.some.inj h
    exact .crash

end Pool

/-! ## One thread inside -/

/-- The holder of the mutex is the only thread inside, in the call that took it last. -/
structure Exclusive (owner : Option θ) (count : ℕ) (threads : θ → Thread κ σ τ ε μ ξ α) :
    Prop where
  inside : ∀ i n c k, (threads i).place = .inside n c k → owner = some i ∧ n = count
  owner : ∀ i, owner = some i → ∃ c k, (threads i).place = .inside count c k

namespace Exclusive

variable {owner : Option θ} {count : ℕ} {threads : θ → Thread κ σ τ ε μ ξ α} {i : θ}
  {a : Thread κ σ τ ε μ ξ α}

omit [DecidableEq ι] [DecidableEq θ] in
/-- Where nobody holds the mutex, nobody is inside. -/
theorem none_inside (h : Exclusive none count threads) (j : θ) : ¬(threads j).place.IsInside := by
  intro hj
  cases hp : (threads j).place with
  | inside n c k => cases (h.inside j n c k hp).1
  | _ => simp [hp, Place.IsInside] at hj

omit [DecidableEq ι] [DecidableEq θ] in
/-- While a thread is inside, no other is. -/
theorem alone (h : Exclusive owner count threads) {n : ℕ} {c : κ} {k : Prog σ τ ε μ ξ α}
    (hi : (threads i).place = .inside n c k) (j : θ) (hj : j ≠ i) :
    ¬(threads j).place.IsInside := by
  intro hin
  cases hp : (threads j).place with
  | inside m d l =>
    exact hj (Option.some.inj ((h.inside j m d l hp).1.symm.trans (h.inside i n c k hi).1))
  | _ => simp [hp, Place.IsInside] at hin

omit [DecidableEq ι] in
/-- A thread outside that stays outside. -/
theorem outside (h : Exclusive owner count threads) (hold : ¬(threads i).place.IsInside)
    (ha : ¬a.place.IsInside) : Exclusive owner count (Function.update threads i a) := by
  constructor
  · intro j n c k hj
    rcases eq_or_ne j i with rfl | hji
    · rw [Function.update_self] at hj
      exact absurd (hj ▸ trivial : a.place.IsInside) ha
    · rw [Function.update_of_ne hji] at hj
      exact h.inside j n c k hj
  · intro j hj
    obtain ⟨c, k, hp⟩ := h.owner j hj
    have hji : j ≠ i := by
      rintro rfl
      exact hold (hp ▸ trivial)
    exact ⟨c, k, by rwa [Function.update_of_ne hji]⟩

omit [DecidableEq ι] in
/-- A thread comes to be inside, or stays there, while no other is. -/
theorem enter (h : ∀ j, j ≠ i → ¬(threads j).place.IsInside) {c : κ} {k : Prog σ τ ε μ ξ α}
    (ha : a.place = .inside count c k) :
    Exclusive (some i) count (Function.update threads i a) := by
  constructor
  · intro j m d l hj
    rcases eq_or_ne j i with rfl | hji
    · rw [Function.update_self, ha, Place.inside.injEq] at hj
      exact ⟨rfl, hj.1.symm⟩
    · rw [Function.update_of_ne hji] at hj
      exact absurd (hj ▸ trivial) (h j hji)
  · intro j hj
    obtain rfl := Option.some.inj hj
    exact ⟨c, k, by rwa [Function.update_self]⟩

omit [DecidableEq ι] in
/-- The thread inside leaves. -/
theorem leave (h : ∀ j, j ≠ i → ¬(threads j).place.IsInside) (ha : ¬a.place.IsInside) :
    Exclusive none count (Function.update threads i a) := by
  refine ⟨fun j m d l hj => ?_, nofun⟩
  rcases eq_or_ne j i with rfl | hji
  · rw [Function.update_self] at hj
    exact absurd (hj ▸ trivial) ha
  · rw [Function.update_of_ne hji] at hj
    exact absurd (hj ▸ trivial) (h j hji)

end Exclusive

/-- At most one thread of the client is inside. -/
def Process.Exclusive (x : Process θ κ σ τ ε μ ξ α) : Prop :=
  SingleWriter.Exclusive x.owner x.count x.threads

namespace Pool

variable {W : Workers ι κ σ τ ε μ ξ α} {s s' : Pool ι θ κ σ τ ε μ ξ α} {p q : ι} {i : θ}

/-- A step moves one client. -/
theorem Takes.other (h : s.Takes W p i s') (hq : q ≠ p) : s'.procs q = s.procs q := by
  cases h <;> exact Function.update_of_ne hq ..

theorem Takes.exclusive (h : s.Takes W p i s') (hs : ∀ q, (s.procs q).Exclusive) (q : ι) :
    (s'.procs q).Exclusive := by
  rcases eq_or_ne q p with rfl | hq
  case inr => exact h.other hq ▸ hs q
  have hx := hs q
  have hout {a : Place κ σ τ ε μ ξ α} (ha : s.place q i = a) (hna : ¬a.IsInside) :
      ¬((s.procs q).threads i).place.IsInside := fun hin => hna (ha ▸ hin)
  cases h with
  | invoke hp =>
    simp only [put, Function.update_self]
    exact hx.outside (hout hp nofun) nofun
  | refuse hp =>
    simp only [put, Function.update_self]
    exact hx.outside (hout hp nofun) nofun
  | acquire hp hr ho =>
    rw [Process.Exclusive, ho] at hx
    simp only [put, Function.update_self]
    exact .enter (fun j _ => hx.none_inside j) rfl
  | @operate n c o k ch out hp hr =>
    simp only [Function.update_self]
    obtain ⟨ho, rfl⟩ := hx.inside i _ _ _ hp
    have he : SingleWriter.Exclusive (some i) (s.procs q).count (Function.update
        (s.procs q).threads i ⟨((s.procs q).threads i).calls, .inside _ c (k out.ans)⟩) :=
      .enter (hx.alone hp) rfl
    rwa [← ho] at he
  | release r hp =>
    simp only [released, put, Function.update_self]
    exact .leave (hx.alone hp) nofun
  | respond hp =>
    simp only [put, Function.update_self]
    exact hx.outside (hout hp nofun) nofun
  | crash =>
    rw [show (s.crash W q).procs q = _ from Function.update_self ..]
    exact ⟨nofun, nofun⟩

end Pool

/-! ## Through the mutex -/

omit [DecidableEq ι] [DecidableEq θ] in
theorem Prog.mapResult_ofExcept (g : Except ξ α → Except ξ α) (r : Except ξ α) :
    (Prog.ofExcept r : Prog σ τ ε μ ξ α).mapResult g = .ofExcept (g r) := by
  cases r <;> rfl

/-- The call that a thread inside runs, up to the answer. -/
def Place.job (after : κ → Except ξ α → Except ξ α) :
    Place κ σ τ ε μ ξ α → Option (κ × Prog σ τ ε μ ξ α)
  | inside _ c k => some (c, k.mapResult (after c))
  | _ => none

/-- The client whose one call is that of the holder of its mutex. -/
def Process.proc (after : κ → Except ξ α → Except ξ α) (x : Process θ κ σ τ ε μ ξ α) :
    Proc κ σ τ ε μ ξ α :=
  ⟨x.conn, x.mem, x.count, x.owner.bind fun i => (x.threads i).place.job after⟩

/-- The system in which every client makes one call at a time. -/
def Pool.sys (W : Workers ι κ σ τ ε μ ξ α) (s : Pool ι θ κ σ τ ε μ ξ α) : Sys ι κ σ τ ε μ ξ α :=
  ⟨s.db, s.lock, fun p => (s.procs p).proc (W.after p), entries s.trace⟩

/-- The clients `K` make the calls of `W` that are not refused, one at a time. -/
structure Workers.Sequential (W : Workers ι κ σ τ ε μ ξ α) (K : Clients ι κ σ τ ε μ ξ α) :
    Prop where
  may : ∀ p c, W.refuse p c = none → K.may p c
  code : ∀ p c, W.refuse p c = none → K.code p c = (W.body p c).mapResult (W.after p c)
  boot : K.boot = W.boot

namespace Pool

variable {W : Workers ι κ σ τ ε μ ξ α} {K : Clients ι κ σ τ ε μ ξ α}
  {s s' : Pool ι θ κ σ τ ε μ ξ α} {p q : ι} {i : θ}

omit [DecidableEq θ] in
theorem sys_update (procs : ι → Process θ κ σ τ ε μ ξ α) (x : Process θ κ σ τ ε μ ξ α) :
    (fun q => (Function.update procs p x q).proc (W.after q)) =
      Function.update (fun q => (procs q).proc (W.after q)) p (x.proc (W.after p)) :=
  funext fun q => Function.apply_update (fun q => Process.proc (W.after q)) procs p x q

omit [DecidableEq ι] in
/-- A thread that is outside before and after does not show. -/
theorem proc_outside {x : Process θ κ σ τ ε μ ξ α} {a : Thread κ σ τ ε μ ξ α}
    (hx : x.Exclusive) (hold : ¬(x.threads i).place.IsInside)
    (after : κ → Except ξ α → Except ξ α) :
    Process.proc after { x with threads := Function.update x.threads i a } = x.proc after := by
  simp only [Process.proc, Proc.mk.injEq, true_and]
  cases ho : x.owner with
  | none => rfl
  | some j =>
    obtain ⟨c, k, hj⟩ := hx.owner j ho
    have hji : j ≠ i := by
      rintro rfl
      exact hold (hj ▸ trivial)
    simp only [Option.bind_some, Function.update_of_ne hji]

/-- **A step of a thread** is one of the client that makes one call at a time, or none at all. -/
theorem Takes.sys (h : s.Takes W p i s') (hK : W.Sequential K) (hs : ∀ q, (s.procs q).Exclusive) :
    Relation.ReflGen (SingleWriter.Step K) (s.sys W) (s'.sys W) := by
  have hx := hs p
  have hout {a : Place κ σ τ ε μ ξ α} (ha : s.place p i = a) (hna : ¬a.IsInside) :
      ¬((s.procs p).threads i).place.IsInside := fun hin => hna (ha ▸ hin)
  -- steps outside the mutex
  have hskip {a : Thread κ σ τ ε μ ξ α} {l : List (Mark ι θ κ σ τ ξ α)}
      (hold : ¬((s.procs p).threads i).place.IsInside) (hl : entries l = []) :
      (s.put p { s.procs p with threads := Function.update (s.procs p).threads i a } l).sys W =
        s.sys W := by
    simp only [Pool.sys, put, sys_update, proc_outside hx hold, entries_append, hl, List.append_nil]
    congr 1
    exact Function.update_eq_self p _
  cases h with
  | invoke hp => rw [hskip (hout hp nofun) rfl]
  | refuse hp => rw [Process.move, hskip (hout hp nofun) rfl]
  | respond hp => rw [Process.move, hskip (hout hp nofun) rfl]
  | @acquire c hp hr ho =>
    have hj : ((s.sys W).procs p).job = none := by simp [Pool.sys, Process.proc, ho]
    refine .single ⟨p, .start c, fun c' hc' => ?_, ?_⟩
    · cases hc'
      exact hK.may p c hr
    · simp only [Sys.step, Sys.start, hj, Option.some.injEq]
      simp only [Pool.sys, put, sys_update, entries_append]
      simp [Process.proc, Process.move, Place.job, hK.code p c hr, entries, Mark.entry]
  | @operate n c o k ch out hp hr =>
    obtain ⟨ho, rfl⟩ := hx.inside i _ _ _ hp
    have hp' : ((s.procs p).threads i).place = .inside (s.procs p).count c (.op o k) := hp
    have hj : ((s.sys W).procs p).job =
        some (c, .op o fun x => (k x).mapResult (W.after p c)) := by
      simp [Pool.sys, Process.proc, ho, hp', Place.job, Prog.mapResult]
    have hr' : o.run (s.sys W).db (s.sys W).lock.isNone ((s.sys W).procs p).conn
        ((s.sys W).procs p).mem ch = some out := hr
    refine .single ⟨p, .operate ch, nofun, ?_⟩
    simp only [Sys.step, Sys.operate, hj, hr', Option.map_some, Option.some.injEq]
    simp only [Pool.sys, sys_update, entries_append]
    simp [Process.proc, Process.move, Place.job, ho, entries_obs, Sys.unlock, Pool.unlock, ticket]
  | @release n c r hp =>
    obtain ⟨ho, rfl⟩ := hx.inside i _ _ _ hp
    have hp' : ((s.procs p).threads i).place = .inside (s.procs p).count c (.ofExcept r) := hp
    have hj : ((s.sys W).procs p).job = some (c, .ofExcept (W.after p c r)) := by
      simp [Pool.sys, Process.proc, ho, hp', Place.job, Prog.mapResult_ofExcept]
    have hfin : (s.sys W).finish p = some ((s.sys W).reply p c (W.after p c r)) := by
      simp only [Sys.finish, hj]
      cases W.after p c r <;> rfl
    refine .single ⟨p, .finish, nofun, hfin.trans ?_⟩
    simp only [Sys.reply, Pool.sys, released, put, sys_update, entries_append, Option.some.injEq]
    simp [Process.proc, Process.move, entries, Mark.entry, ticket]
  | crash =>
    refine .single ⟨p, .crash, nofun, ?_⟩
    simp only [Sys.step, Sys.crash, Pool.crash, Pool.sys, sys_update, Option.some.injEq]
    simp [Process.proc, Sys.unlock, Pool.unlock, hK.boot]

theorem Step.exclusive (h : Step W s s') (hs : ∀ q, (s.procs q).Exclusive) (q : ι) :
    (s'.procs q).Exclusive := by
  obtain ⟨p, i, a, ha⟩ := h
  exact (takes_of_step ha).exclusive hs q

omit [DecidableEq ι] [DecidableEq θ] in
theorem initial_exclusive (d : σ) (m : μ) (q : ι) :
    ((initial d m : Pool ι θ κ σ τ ε μ ξ α).procs q).Exclusive := ⟨nofun, nofun⟩

/-- **At most one thread of a client is inside**, in every reachable state. -/
theorem Reach.exclusive {d : σ} (h : Reach W (initial d W.boot) s) (q : ι) :
    (s.procs q).Exclusive := by
  induction h generalizing q with
  | refl => exact initial_exclusive d _ q
  | tail _ hs ih => exact hs.exclusive ih q

/-- **Refinement.** A run of the threads is, through the mutex, a run of clients that make one call
at a time. -/
theorem reach_sys (hK : W.Sequential K) {d : σ} (h : Reach W (initial d W.boot) s) :
    SingleWriter.Reach K (.initial d K.boot) (s.sys W) := by
  induction h with
  | refl => rw [hK.boot]; exact .refl
  | tail hr hs ih =>
    obtain ⟨p, i, a, ha⟩ := hs
    exact ih.trans ((takes_of_step ha).sys hK fun q => Reach.exclusive hr q).to_reflTransGen

end Pool

end Steps

end SingleWriter
