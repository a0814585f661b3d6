import Mathlib.Logic.Function.Basic
import Mathlib.Logic.Relation
import Mathlib.Tactic.Common

/-!
# Making a value once

Any number of threads share a cell that is empty at first, and a lock. A thread that needs the value
looks into the cell; if it is empty, the thread takes the lock, looks again, and makes the value if
it is still empty: double-checked locking. Making takes steps, which read and change an environment
that no other thread touches, and may raise; the lock is given back in either case.

`Reach.sound`: at most one thread makes the value, it is never replaced, and every thread that gets
a value gets this one. `Sound.canEnd`: no thread waits for ever, if making ends.
-/

namespace Once

variable {T E L I M X : Type}

/-- What a step of making comes to. -/
inductive Made (L M X : Type) : Type
  | more (l : L)
  | ready (m : M)
  | raised (x : X)

/-- How the value is made: where it starts, and what a step does in an environment, given what the
outside answers. -/
structure Maker (E L I M X : Type) : Type where
  start : L
  step : E → L → I → E × Made L M X

/-- Where a thread is. -/
inductive Phase (L M X : Type) : Type
  | idle
  /-- It is about to look into the cell. -/
  | first
  /-- It wants the lock. -/
  | waiting
  /-- It holds the lock and is about to look again. -/
  | second
  | making (l : L)
  /-- It is about to give the lock back. -/
  | leaving (r : Except X Unit)
  /-- It is about to read the cell. -/
  | reading
  | done (r : Except X M)

/-- The thread holds the lock. -/
def Phase.Inside : Phase L M X → Prop
  | second | making _ | leaving _ => True
  | _ => False

/-- The cell, the holder of the lock, the environment, the threads, and who has made which value. -/
structure State (T E L M X : Type) : Type where
  cell : Option M
  holder : Option T
  env : E
  phase : T → Phase L M X
  made : List (T × M)

/-- Before anything happens. -/
def State.initial (e : E) : State T E L M X := ⟨none, none, e, fun _ => .idle, []⟩

/-- What a thread does next. -/
inductive Move (I : Type) : Type
  | call
  | look
  | acquire
  | lookAgain
  | make (i : I)
  | release
  | use

section Steps

variable [DecidableEq T]

namespace State

variable (K : Maker E L I M X) (s : State T E L M X) (t : T)

/-- Thread `t` at another place. -/
def move (a : Phase L M X) : State T E L M X := { s with phase := Function.update s.phase t a }

/-- The state after a step of making. -/
def after (x : E × Made L M X) : State T E L M X :=
  match x with
  | (e, .more l) => { s.move t (.making l) with env := e }
  | (e, .raised x) => { s.move t (.leaving (.error x)) with env := e }
  | (e, .ready m) =>
    { s.move t (.leaving (.ok ())) with env := e, cell := some m, made := s.made ++ [(t, m)] }

/-- One step of thread `t`, if it can be made. -/
def step (mv : Move I) : Option (State T E L M X) :=
  match mv, s.phase t with
  | .call, .idle => some (s.move t .first)
  | .call, .done _ => some (s.move t .first)
  | .look, .first => some (s.move t (if s.cell.isSome then .reading else .waiting))
  | .acquire, .waiting =>
    if s.holder.isNone then some { s.move t .second with holder := some t } else none
  | .lookAgain, .second =>
    some (s.move t (if s.cell.isSome then .leaving (.ok ()) else .making K.start))
  | .make i, .making l => some (s.after t (K.step s.env l i))
  | .release, .leaving (.ok ()) => some { s.move t .reading with holder := none }
  | .release, .leaving (.error x) => some { s.move t (.done (.error x)) with holder := none }
  | .use, .reading => s.cell.map fun m => s.move t (.done (.ok m))
  | _, _ => none

end State

/-- One step of some thread. -/
def Step (K : Maker E L I M X) (s s' : State T E L M X) : Prop := ∃ t mv, s.step K t mv = some s'

/-- Any number of steps. -/
abbrev Reach (K : Maker E L I M X) : State T E L M X → State T E L M X → Prop :=
  Relation.ReflTransGen (Step K)

/-- The state after some steps, if each of them can be made. -/
def State.exec (K : Maker E L I M X) (s : State T E L M X) :
    List (T × Move I) → Option (State T E L M X)
  | [] => some s
  | (t, mv) :: l => (s.step K t mv).bind fun s' => s'.exec K l

theorem reach_of_exec {K : Maker E L I M X} {s s' : State T E L M X} {l : List (T × Move I)}
    (h : s.exec K l = some s') : Reach K s s' := by
  induction l generalizing s with
  | nil =>
    obtain rfl := Option.some.inj h
    exact .refl
  | cons x l ih =>
    obtain ⟨s₁, hs, h⟩ := Option.bind_eq_some_iff.1 h
    exact .head ⟨x.1, x.2, hs⟩ (ih h)

/-- What a step comes to. -/
inductive Takes (K : Maker E L I M X) (s : State T E L M X) (t : T) : State T E L M X → Prop
  | call (h : s.phase t = .idle ∨ ∃ r, s.phase t = .done r) : Takes K s t (s.move t .first)
  | found (m : M) (h : s.phase t = .first) (hc : s.cell = some m) : Takes K s t (s.move t .reading)
  | missing (h : s.phase t = .first) (hc : s.cell = none) : Takes K s t (s.move t .waiting)
  | acquire (h : s.phase t = .waiting) (hh : s.holder = none) :
    Takes K s t { s.move t .second with holder := some t }
  | late (m : M) (h : s.phase t = .second) (hc : s.cell = some m) :
    Takes K s t (s.move t (.leaving (.ok ())))
  | start (h : s.phase t = .second) (hc : s.cell = none) :
    Takes K s t (s.move t (.making K.start))
  | make (l : L) (i : I) (h : s.phase t = .making l) : Takes K s t (s.after t (K.step s.env l i))
  | release (h : s.phase t = .leaving (.ok ())) :
    Takes K s t { s.move t .reading with holder := none }
  | fail (x : X) (h : s.phase t = .leaving (.error x)) :
    Takes K s t { s.move t (.done (.error x)) with holder := none }
  | use (m : M) (h : s.phase t = .reading) (hc : s.cell = some m) :
    Takes K s t (s.move t (.done (.ok m)))

theorem takes_of_step {K : Maker E L I M X} {s s' : State T E L M X} {t : T} {mv : Move I}
    (h : s.step K t mv = some s') : Takes K s t s' := by
  unfold State.step at h
  split at h
  case h_1 hp =>
    obtain rfl := Option.some.inj h
    exact .call (.inl hp)
  case h_2 r hp =>
    obtain rfl := Option.some.inj h
    exact .call (.inr ⟨r, hp⟩)
  case h_3 hp =>
    obtain rfl := Option.some.inj h
    cases hc : s.cell with
    | some m => exact .found m hp hc
    | none => exact .missing hp hc
  case h_4 hp =>
    split at h
    case isTrue hh =>
      obtain rfl := Option.some.inj h
      exact .acquire hp (Option.isNone_iff_eq_none.1 hh)
    case isFalse => cases h
  case h_5 hp =>
    obtain rfl := Option.some.inj h
    cases hc : s.cell with
    | some m => exact .late m hp hc
    | none => exact .start hp hc
  case h_6 i l hp =>
    obtain rfl := Option.some.inj h
    exact .make l i hp
  case h_7 hp =>
    obtain rfl := Option.some.inj h
    exact .release hp
  case h_8 x hp =>
    obtain rfl := Option.some.inj h
    exact .fail x hp
  case h_9 hp =>
    obtain ⟨m, hc, rfl⟩ := Option.map_eq_some_iff.1 h
    exact .use m hp hc
  case h_10 => cases h

/-! ## The invariant -/

/-- What the cell and the lock say of a thread. -/
def PhaseOk (cell : Option M) : Phase L M X → Prop
  | .making _ => cell = none
  | .leaving (.ok ()) => cell.isSome
  | .reading => cell.isSome
  | .done (.ok m) => cell = some m
  | _ => True

/-- The holder of the lock is the only thread inside, nobody makes a value that is there, and who
got a value got the one that was made. -/
structure Sound (s : State T E L M X) : Prop where
  inside : ∀ t, (s.phase t).Inside ↔ s.holder = some t
  phase : ∀ t, PhaseOk s.cell (s.phase t)
  made : s.made.map Prod.snd = s.cell.toList

namespace Sound

variable {s s' : State T E L M X} {t u : T} {a : Phase L M X}

omit [DecidableEq T] in
theorem initial (e : E) : Sound (State.initial e : State T E L M X) where
  inside t := by simp [State.initial, Phase.Inside]
  phase t := trivial
  made := rfl

omit [DecidableEq T] in
/-- While one thread is inside, no other is. -/
theorem alone (hs : Sound s) (ht : (s.phase t).Inside) (hu : u ≠ t) : ¬(s.phase u).Inside := by
  intro h
  have := ((hs.inside u).1 h).symm.trans ((hs.inside t).1 ht)
  exact hu (Option.some.inj this)

/-- The phases of all threads are in order if that of the one that moved is and the others were. -/
theorem phase_move {cell : Option M} (hrest : ∀ u, u ≠ t → PhaseOk cell (s.phase u))
    (ha : PhaseOk cell a) (u : T) : PhaseOk cell ((s.move t a).phase u) := by
  show PhaseOk cell (Function.update s.phase t a u)
  rcases eq_or_ne u t with rfl | hu
  · rwa [Function.update_self]
  · rw [Function.update_of_ne hu]
    exact hrest u hu

/-- A thread that stays on its side of the lock. -/
theorem keep (hs : Sound s) (a : Phase L M X) (hside : a.Inside ↔ (s.phase t).Inside)
    (ha : PhaseOk s.cell a)
    (e : E) : Sound { s.move t a with env := e } where
  inside u := by
    rcases eq_or_ne u t with rfl | hu
    · simp only [State.move, Function.update_self]
      exact hside.trans (hs.inside u)
    · simp only [State.move, Function.update_of_ne hu]
      exact hs.inside u
  phase := phase_move (fun u _ => hs.phase u) ha
  made := hs.made

/-- A thread takes the lock. -/
theorem enter (hs : Sound s) (hh : s.holder = none) (hin : a.Inside) (ha : PhaseOk s.cell a) :
    Sound { s.move t a with holder := some t } where
  inside u := by
    rcases eq_or_ne u t with rfl | hu
    · simp only [State.move, Function.update_self]
      exact iff_of_true hin trivial
    · simp only [State.move, Function.update_of_ne hu]
      refine iff_of_false (fun h => ?_) fun h => hu (Option.some.inj h).symm
      have := (hs.inside u).1 h
      rw [hh] at this
      cases this
  phase := phase_move (fun u _ => hs.phase u) ha
  made := hs.made

/-- A thread gives the lock back. -/
theorem leave (hs : Sound s) (ht : (s.phase t).Inside) (hout : ¬a.Inside) (ha : PhaseOk s.cell a) :
    Sound { s.move t a with holder := none } where
  inside u := by
    rcases eq_or_ne u t with rfl | hu
    · simp only [State.move, Function.update_self]
      exact iff_of_false hout nofun
    · simp only [State.move, Function.update_of_ne hu]
      exact iff_of_false (hs.alone ht hu) nofun
  phase := phase_move (fun u _ => hs.phase u) ha
  made := hs.made

/-- A thread puts the value into the cell. -/
theorem ready (hs : Sound s) {l : L} (ht : s.phase t = .making l) (e : E) (m : M) :
    Sound (s.after t (e, .ready m)) where
  inside u := by
    have hin : (s.phase t).Inside := ht ▸ trivial
    rcases eq_or_ne u t with rfl | hu
    · simp only [State.after, State.move, Function.update_self]
      exact iff_of_true trivial ((hs.inside u).1 hin)
    · simp only [State.after, State.move, Function.update_of_ne hu]
      exact hs.inside u
  phase := by
    have hin : (s.phase t).Inside := ht ▸ trivial
    have hcell : s.cell = none := by
      have := hs.phase t
      rwa [ht] at this
    refine phase_move (fun u hu => ?_) rfl
    have hu' := hs.alone hin hu
    have hok := hs.phase u
    rw [hcell] at hok
    match hp : s.phase u, hok with
    | .making l, _ => exact absurd (hp ▸ trivial) hu'
    | .leaving _, _ => exact absurd (hp ▸ trivial) hu'
    | .reading, hok => cases hok
    | .done (.ok m'), hok => cases hok
    | .done (.error x), _ => trivial
    | .idle, _ => trivial
    | .first, _ => trivial
    | .waiting, _ => trivial
    | .second, _ => trivial
  made := by
    have hcell : s.cell = none := by
      have := hs.phase t
      rwa [ht] at this
    have hmade := hs.made
    rw [hcell] at hmade
    simp [State.after, hmade]

/-- The same in the same environment. -/
theorem stay (hs : Sound s) (a : Phase L M X) (hside : a.Inside ↔ (s.phase t).Inside)
    (ha : PhaseOk s.cell a) : Sound (s.move t a) := hs.keep a hside ha s.env

theorem step {K : Maker E L I M X} (hs : Sound s) (h : Takes K s t s') : Sound s' := by
  cases h with
  | call h =>
    refine hs.stay .first ?_ trivial
    rcases h with h | ⟨r, h⟩ <;> simp [h, Phase.Inside]
  | found m h hc => exact hs.stay .reading (by simp [h, Phase.Inside]) (by simp [PhaseOk, hc])
  | missing h hc => exact hs.stay .waiting (by simp [h, Phase.Inside]) trivial
  | acquire h hh => exact hs.enter hh trivial trivial
  | late m h hc => exact hs.stay _ (by simp [h, Phase.Inside]) (by simp [PhaseOk, hc])
  | start h hc => exact hs.stay _ (by simp [h, Phase.Inside]) hc
  | make l i h =>
    have hcell : s.cell = none := by
      have := hs.phase t
      rwa [h] at this
    rcases hK : K.step s.env l i with ⟨e, l' | m | x⟩
    · exact hs.keep (.making l') (by simp [h, Phase.Inside]) hcell e
    · exact hs.ready h e m
    · exact hs.keep (.leaving (.error x)) (by simp [h, Phase.Inside]) trivial e
  | release h =>
    have hok := hs.phase t
    rw [h] at hok
    exact hs.leave (h ▸ trivial) nofun hok
  | fail x h => exact hs.leave (h ▸ trivial) nofun trivial
  | use m h hc => exact hs.stay (.done (.ok m)) (by simp [h, Phase.Inside]) hc

end Sound

section Runs

variable {K : Maker E L I M X} {s s' : State T E L M X} {e : E}

/-- **The value is made once.** In every reachable state the holder of the lock is the only thread
inside, the values made are the one in the cell, and who got a value got this one. -/
theorem Reach.sound (h : Reach K (.initial e) s) : Sound s := by
  induction h with
  | refl => exact .initial e
  | tail _ hs ih =>
    obtain ⟨t, mv, hmv⟩ := hs
    exact ih.step (takes_of_step hmv)

/-- A value in the cell is never replaced. -/
theorem Takes.cell {t : T} {m : M} (h : Takes K s t s') (hs : Sound s) (hm : s.cell = some m) :
    s'.cell = some m := by
  cases h with
  | make l i h =>
    have hcell := hs.phase t
    rw [h] at hcell
    have hnone : s.cell = none := hcell
    rw [hnone] at hm
    cases hm
  | _ => exact hm

theorem Reach.cell (h : Reach K s s') (hs : Sound s) {m : M} (hm : s.cell = some m) :
    Sound s' ∧ s'.cell = some m := by
  induction h with
  | refl => exact ⟨hs, hm⟩
  | tail _ hstep ih =>
    obtain ⟨t, mv, hmv⟩ := hstep
    exact ⟨ih.1.step (takes_of_step hmv), (takes_of_step hmv).cell ih.1 ih.2⟩

/-- The environment satisfies `P`, and whoever makes the value stands where `J` holds. -/
def EnvOk (P : E → Prop) (J : E → L → Prop) (s : State T E L M X) : Prop :=
  P s.env ∧ ∀ t l, s.phase t = .making l → J s.env l

/-- A thread that does not make the value, or stands where `J` holds. -/
theorem EnvOk.move {P : E → Prop} {J : E → L → Prop} (h : EnvOk P J s) {t : T} {a : Phase L M X}
    (ha : ∀ l, a = .making l → J s.env l) : EnvOk P J (s.move t a) := by
  refine ⟨h.1, fun u l hu => ?_⟩
  have hu : Function.update s.phase t a u = .making l := hu
  rcases eq_or_ne u t with rfl | hut
  · rw [Function.update_self] at hu
    exact ha l hu
  · rw [Function.update_of_ne hut] at hu
    exact h.2 u l hu

/-- A step of making, which nobody else watches. -/
theorem EnvOk.make {P : E → Prop} {J : E → L → Prop} (hs : Sound s) {t : T} {l : L}
    (ht : s.phase t = .making l) {x : E × Made L M X} (hP : P x.1)
    (hJ : ∀ l', x.2 = .more l' → J x.1 l') : EnvOk P J (s.after t x) := by
  obtain ⟨e, r⟩ := x
  have hmove (a : Phase L M X) (ha : ∀ l', a = .making l' → J e l') (u : T) (l' : L)
      (hu : Function.update s.phase t a u = .making l') : J e l' := by
    rcases eq_or_ne u t with rfl | hut
    · rw [Function.update_self] at hu
      exact ha l' hu
    · rw [Function.update_of_ne hut] at hu
      exact absurd (hu ▸ trivial) (hs.alone (ht ▸ trivial) hut)
  cases r with
  | more l' => exact ⟨hP, hmove _ fun l'' hl => Phase.making.inj hl ▸ hJ l' rfl⟩
  | ready m => exact ⟨hP, hmove _ nofun⟩
  | raised x => exact ⟨hP, hmove _ nofun⟩

/-- **What making does to the environment.** A property that making starts from and keeps, with what
it knows of the environment at each of its places, holds in every reachable state. -/
theorem Reach.env {P : E → Prop} {J : E → L → Prop} (h₀ : P e) (hstart : ∀ e, P e → J e K.start)
    (hstep : ∀ e l i, P e → J e l → P (K.step e l i).1 ∧
      ∀ l', (K.step e l i).2 = .more l' → J (K.step e l i).1 l')
    (h : Reach K (.initial e) s) : EnvOk P J s := by
  induction h with
  | refl => exact ⟨h₀, nofun⟩
  | tail hr hs ih =>
    have hsound := Reach.sound hr
    obtain ⟨t, mv, hmv⟩ := hs
    cases takes_of_step hmv with
    | start => exact ih.move fun l hl => Phase.making.inj hl ▸ hstart _ ih.1
    | make l i h =>
      obtain ⟨hP, hJ⟩ := hstep _ l i ih.1 (ih.2 t l h)
      exact .make hsound h hP hJ
    | acquire => exact ih.move nofun
    | release => exact ih.move nofun
    | fail => exact ih.move nofun
    | _ => exact ih.move nofun

/-- Every value that was made came from a step of making, in an environment that satisfies `P` and
at a place where `J` holds. -/
theorem Reach.made {P : E → Prop} {J : E → L → Prop} (h₀ : P e) (hstart : ∀ e, P e → J e K.start)
    (hstep : ∀ e l i, P e → J e l → P (K.step e l i).1 ∧
      ∀ l', (K.step e l i).2 = .more l' → J (K.step e l i).1 l')
    (h : Reach K (.initial e) s) {t : T} {m : M} (hm : (t, m) ∈ s.made) :
    ∃ e l i, P e ∧ J e l ∧ (K.step e l i).2 = .ready m := by
  induction h with
  | refl => cases hm
  | @tail s₁ s₂ hr hs ih =>
    obtain ⟨u, mv, hmv⟩ := hs
    cases takes_of_step hmv with
    | make l i hu =>
      have henv := Reach.env h₀ hstart hstep hr
      rcases hK : K.step s₁.env l i with ⟨e', l' | m' | x⟩ <;> rw [hK] at hm
      · exact ih hm
      · rcases List.mem_append.1 hm with hm | hm
        · exact ih hm
        · obtain ⟨-, rfl⟩ := Prod.mk.inj (List.mem_singleton.1 hm)
          exact ⟨s₁.env, l, i, henv.1, henv.2 u l hu, by rw [hK]⟩
      · exact ih hm
    | _ => exact ih hm

/-! ## Progress -/

/-- The thread has been refused the value. -/
def Phase.Failed : Phase L M X → Prop
  | leaving (.error _) | done (.error _) => True
  | _ => False

/-- With the answer `i` no step of making raises. -/
def Works (K : Maker E L I M X) (i : I) : Prop := ∀ e l x, (K.step e l i).2 ≠ .raised x

/-- Thread `t` has come out of the lock, and the other threads stand as in `s`. With the answer `i`
it has not failed on the way. -/
structure Left (K : Maker E L I M X) (i : I) (s : State T E L M X) (t : T) (s' : State T E L M X) :
    Prop where
  phase : s'.phase t = .reading ∨ ∃ x, s'.phase t = .done (.error x)
  works : Works K i → ¬(s.phase t).Failed → s'.phase t = .reading
  holder : s'.holder = none
  other : ∀ u, u ≠ t → s'.phase u = s.phase u

omit [DecidableEq T] in
theorem Left.of_eq {s₁ : State T E L M X} {i : I} {t : T} (h : Left K i s₁ t s')
    (hworks : Works K i → ¬(s.phase t).Failed → ¬(s₁.phase t).Failed)
    (hs : ∀ u, u ≠ t → s₁.phase u = s.phase u) : Left K i s t s' :=
  ⟨h.phase, fun hw hf => h.works hw (hworks hw hf), h.holder,
    fun u hu => (h.other u hu).trans (hs u hu)⟩

theorem move_other {t : T} (a : Phase L M X) (u : T) (hu : u ≠ t) :
    (s.move t a).phase u = s.phase u := Function.update_of_ne hu ..

theorem move_self {t : T} (a : Phase L M X) : (s.move t a).phase t = a := Function.update_self ..

/-- A thread that is about to give the lock back does. -/
theorem exists_left_of_leaving (i : I) {t : T} {r : Except X Unit} (ht : s.phase t = .leaving r) :
    ∃ s', Step K s s' ∧ Left K i s t s' := by
  cases r with
  | ok a =>
    exact ⟨{ s.move t .reading with holder := none }, ⟨t, .release, by simp [State.step, ht]⟩,
      .inl (move_self _), fun _ _ => move_self _, rfl, move_other _⟩
  | error x =>
    exact ⟨{ s.move t (.done (.error x)) with holder := none },
      ⟨t, .release, by simp [State.step, ht]⟩, .inr ⟨x, move_self _⟩,
      fun _ hf => absurd (ht ▸ trivial) hf, rfl, move_other _⟩

variable {rank : L → ℕ}
  (hrank : ∀ e l i l', (K.step e l i).2 = .more l' → rank l' < rank l)

include hrank

/-- A thread that makes the value ends, if making ends. -/
theorem exists_left_of_making (i : I) {t : T} {l : L} (ht : s.phase t = .making l) :
    ∃ s', Reach K s s' ∧ Left K i s t s' := by
  induction hn : rank l using Nat.strongRecOn generalizing s l with
  | ind n ih =>
    have hstep : Step K s (s.after t (K.step s.env l i)) := ⟨t, .make i, by simp [State.step, ht]⟩
    rcases hK : K.step s.env l i with ⟨e, l' | m | x⟩
    · rw [hK] at hstep
      have hlt : rank l' < n := hn ▸ hrank s.env l i l' (by rw [hK])
      have hself : (s.after t (e, .more l')).phase t = .making l' := move_self _
      obtain ⟨s', hs', hleft⟩ := ih _ hlt hself rfl
      exact ⟨s', .head hstep hs', hleft.of_eq (fun _ _ => by simp [hself, Phase.Failed])
        (move_other _)⟩
    · rw [hK] at hstep
      have hself : (s.after t (e, .ready m)).phase t = .leaving (.ok ()) := move_self _
      obtain ⟨s', hs', hleft⟩ := exists_left_of_leaving (K := K) i hself
      exact ⟨s', .head hstep (.single hs'), hleft.of_eq
        (fun _ _ => by simp [hself, Phase.Failed]) (move_other _)⟩
    · rw [hK] at hstep
      have hself : (s.after t (e, .raised x)).phase t = .leaving (.error x) := move_self _
      obtain ⟨s', hs', hleft⟩ := exists_left_of_leaving (K := K) i hself
      exact ⟨s', .head hstep (.single hs'), hleft.of_eq
        (fun hw _ => absurd (by rw [hK]) (hw s.env l x)) (move_other _)⟩

/-- A thread inside comes out. -/
theorem exists_left (i : I) {t : T} (ht : (s.phase t).Inside) :
    ∃ s', Reach K s s' ∧ Left K i s t s' := by
  cases hp : s.phase t with
  | making l => exact exists_left_of_making hrank i hp
  | leaving r =>
    obtain ⟨s', hs', hleft⟩ := exists_left_of_leaving (K := K) i hp
    exact ⟨s', .single hs', hleft⟩
  | second =>
    have hstep : Step K s
        (s.move t (if s.cell.isSome then .leaving (.ok ()) else .making K.start)) :=
      ⟨t, .lookAgain, by simp [State.step, hp]⟩
    by_cases hc : s.cell.isSome
    · rw [if_pos hc] at hstep
      have hself : (s.move t (.leaving (.ok ()))).phase t = .leaving (.ok ()) := move_self _
      obtain ⟨s', hs', hleft⟩ := exists_left_of_leaving (K := K) i hself
      exact ⟨s', .head hstep (.single hs'), hleft.of_eq
        (fun _ _ => by simp [hself, Phase.Failed]) (move_other _)⟩
    · rw [if_neg hc] at hstep
      have hself : (s.move t (.making K.start)).phase t = .making K.start := move_self _
      obtain ⟨s', hs', hleft⟩ := exists_left_of_making hrank i hself
      exact ⟨s', .head hstep hs', hleft.of_eq (fun _ _ => by simp [hself, Phase.Failed])
        (move_other _)⟩
  | _ => simp [hp, Phase.Inside] at ht

omit hrank

/-- Thread `t` can come to an end, and with the answer `i` to a value unless it has failed. -/
def CanEnd (K : Maker E L I M X) (i : I) (t : T) (s : State T E L M X) : Prop :=
  ∃ s' r, Reach K s s' ∧ s'.phase t = .done r ∧
    (Works K i → ¬(s.phase t).Failed → ∃ m, r = .ok m)

theorem CanEnd.head {i : I} {t : T} (h : CanEnd K i t s') (hstep : Reach K s s')
    (hf : Works K i → ¬(s.phase t).Failed → ¬(s'.phase t).Failed) : CanEnd K i t s := by
  obtain ⟨s'', r, hs'', hr, hok⟩ := h
  exact ⟨s'', r, hstep.trans hs'', hr, fun hw hs => hok hw (hf hw hs)⟩

/-- A thread that is about to read the cell gets its value. -/
theorem canEnd_of_reading (hs : Sound s) (i : I) {t : T} (ht : s.phase t = .reading) :
    CanEnd K i t s := by
  have hc := hs.phase t
  rw [ht] at hc
  obtain ⟨m, hm⟩ := Option.isSome_iff_exists.1 hc
  exact ⟨s.move t (.done (.ok m)), .ok m, .single ⟨t, .use, by simp [State.step, ht, hm]⟩,
    move_self _, fun _ _ => ⟨m, rfl⟩⟩

/-- A thread that comes out of the lock ends. -/
theorem canEnd_of_left (hs : Sound s') {i : I} {t : T} (hr : Reach K s s')
    (h : Left K i s t s') : CanEnd K i t s := by
  rcases h.phase with hp | ⟨x, hp⟩
  · exact (canEnd_of_reading hs i hp).head hr fun _ _ => by simp [hp, Phase.Failed]
  · refine ⟨s', .error x, hr, hp, fun hw hf => ?_⟩
    have := h.works hw hf
    rw [hp] at this
    cases this

theorem Reach.keeps (h : Reach K s s') (hs : Sound s) : Sound s' := by
  induction h with
  | refl => exact hs
  | tail _ hstep ih =>
    obtain ⟨t, mv, hmv⟩ := hstep
    exact ih.step (takes_of_step hmv)

include hrank

/-- A thread that wants the lock gets it, after whoever holds it. -/
theorem canEnd_of_waiting (hs : Sound s) (i : I) {t : T} (hp : s.phase t = .waiting) :
    CanEnd K i t s := by
  have hfree {s : State T E L M X} (hs : Sound s) (hh : s.holder = none)
      (hp : s.phase t = .waiting) : CanEnd K i t s := by
    let s₁ := { s.move t .second with holder := some t }
    have hstep : Step K s s₁ := ⟨t, .acquire, by simp [State.step, hp, hh, s₁]⟩
    have hp₁ : s₁.phase t = .second := move_self _
    obtain ⟨s₂, hs₂, hleft⟩ := exists_left hrank i (s := s₁) (t := t) (hp₁ ▸ trivial)
    have hsound := Reach.keeps (.head hstep hs₂) hs
    have hend := canEnd_of_left (K := K) (s := s₁) hsound hs₂ hleft
    exact hend.head (.single hstep) fun _ _ => by simp [hp₁, Phase.Failed]
  cases hh : s.holder with
  | none => exact hfree hs hh hp
  | some u =>
    have hin := (hs.inside u).2 hh
    obtain ⟨s₁, hs₁, hleft⟩ := exists_left hrank i hin
    have htu : t ≠ u := by
      rintro rfl
      rw [hp] at hin
      exact hin
    have hp₁ := (hleft.other t htu).trans hp
    exact (hfree (hs₁.keeps hs) hleft.holder hp₁).head hs₁ fun _ _ => by
      simp [hp₁, Phase.Failed]

/-- **No thread waits for ever**, if making ends: whatever the other threads hold, a thread that
needs the value can come to an end, and to a value where making does not raise, even if it raised
before. -/
theorem Sound.canEnd (hs : Sound s) (i : I) {t : T} (ht : s.phase t ≠ .idle) : CanEnd K i t s := by
  have hinside (hin : (s.phase t).Inside) : CanEnd K i t s := by
    obtain ⟨s₁, hs₁, hleft⟩ := exists_left hrank i hin
    exact canEnd_of_left (hs₁.keeps hs) hs₁ hleft
  cases hp : s.phase t with
  | idle => exact absurd hp ht
  | done r =>
    refine ⟨s, r, .refl, hp, fun _ hf => ?_⟩
    cases r with
    | ok m => exact ⟨m, rfl⟩
    | error x => exact absurd (hp ▸ trivial) hf
  | waiting => exact canEnd_of_waiting hrank hs i hp
  | reading => exact canEnd_of_reading hs i hp
  | first =>
    have hlook : s.step K t .look =
        some (s.move t (if s.cell.isSome then .reading else .waiting)) := by
      simp [State.step, hp]
    have hstep : Step K s _ := ⟨t, .look, hlook⟩
    have hsound := hs.step (takes_of_step hlook)
    by_cases hc : s.cell.isSome
    · rw [if_pos hc] at hstep hsound
      exact (canEnd_of_reading hsound i (move_self _)).head (.single hstep) fun _ _ => by
        simp [move_self, Phase.Failed]
    · rw [if_neg hc] at hstep hsound
      exact (canEnd_of_waiting hrank hsound i (move_self _)).head (.single hstep) fun _ _ => by
        simp [move_self, Phase.Failed]
  | second => exact hinside (hp ▸ trivial)
  | making l => exact hinside (hp ▸ trivial)
  | leaving r => exact hinside (hp ▸ trivial)

end Runs

end Steps

end Once
