import MemoryBridge.Foundations.SingleWriter.Soundness

/-!
# A call that nobody disturbs

What the database holds after a call depends on what others commit meanwhile. If they commit
nothing, it is what the call itself has committed last (`settled`), and everything the call sees
follows from the contents at its start and its own history (`TraceOk.undisturbed`). So a fact about
the history of a call becomes one about the contents before and after it.
-/

namespace SingleWriter

variable {ι κ σ τ ε μ ξ α : Type}

/-- The contents that an observation makes the committed ones. -/
def Obs.committed : Obs σ τ → Option σ
  | .commit _ w => some w
  | _ => none

theorem Entry.committed_obs (p : ι) (n : ℕ) (c : κ) (o : Obs σ τ) :
    (Entry.obs p n c o : Entry ι κ σ τ ξ α).committed = o.committed := by
  cases o <;> rfl

/-- The contents after what a call has done, `d` being those before it. -/
def settled (d : σ) (h : List (Obs σ τ)) : σ := h.foldl (fun d o => o.committed.getD d) d

@[simp] theorem settled_nil (d : σ) : settled d ([] : List (Obs σ τ)) = d := rfl

@[simp] theorem settled_cons (d : σ) (o : Obs σ τ) (h : List (Obs σ τ)) :
    settled d (o :: h) = settled (o.committed.getD d) h := rfl

@[simp] theorem settled_append (d : σ) (h h' : List (Obs σ τ)) :
    settled d (h ++ h') = settled (settled d h) h' := List.foldl_append

theorem Quiet.settled {h : List (Obs σ τ)} (hq : Quiet h) (d : σ) : settled d h = d := by
  induction h with
  | nil => rfl
  | cons o h ih =>
    obtain ⟨ho, hrest⟩ := quiet_cons.1 hq
    rw [settled_cons]
    cases o with
    | commit b w => exact absurd rfl (ho b w)
    | _ => exact ih hrest

/-- Only call `n` of client `p` commits in this part of a trace. -/
def Alone (p : ι) (n : ℕ) (t : List (Entry ι κ σ τ ξ α)) : Prop :=
  ∀ e ∈ t, e.committed ≠ none → e.client = p ∧ e.number = n

theorem Alone.of_append {p : ι} {n : ℕ} {t t' : List (Entry ι κ σ τ ξ α)}
    (h : Alone p n (t ++ t')) : Alone p n t := fun e he => h e (List.mem_append_left _ he)

variable [DecidableEq ι]

/-- What such a part of a trace leaves committed. -/
theorem Alone.contents {p : ι} {n : ℕ} {t : List (Entry ι κ σ τ ξ α)} (h : Alone p n t) (d : σ) :
    contents d t = settled d (history t p n) := by
  induction t generalizing d with
  | nil => rfl
  | cons e t ih =>
    have ih := ih fun e' he' => h e' (List.mem_cons_of_mem _ he')
    rw [contents_cons, ih, ← List.singleton_append, history_append, settled_append]
    congr 1
    cases e with
    | reply q m c r => rfl
    | obs q m c o =>
      rw [Entry.committed_obs]
      by_cases hqm : q = p ∧ m = n
      · obtain ⟨rfl, rfl⟩ := hqm
        have hh : history [.obs q m c o] q m = [o] := history_obs_list (ξ := ξ) (α := α) q m c [o]
        rw [hh]
        rfl
      · have hh : history ([.obs q m c o] : List (Entry ι κ σ τ ξ α)) p n = [] :=
          history_eq_nil fun e he hq hm => hqm (by
            obtain rfl := List.mem_singleton.1 he
            exact ⟨hq, hm⟩)
        have hnone : o.committed = none := by
          by_contra hc
          exact hqm (h (.obs q m c o) (by simp) (by rwa [Entry.committed_obs]))
        rw [hh, hnone]
        rfl

/-- What a call sees while nobody else commits follows from the contents `d` at its start and from
what it has done before. -/
structure Undisturbed (d : σ) (h : List (Obs σ τ)) : Prop where
  read : ∀ h₁ x h₂, h = h₁ ++ .read x :: h₂ → x = settled d h₁
  lock : ∀ h₁ x h₂, h = h₁ ++ .lock x :: h₂ → x = settled d h₁
  commit : ∀ h₁ b w h₂, h = h₁ ++ .commit b w :: h₂ → b = settled d h₁

omit [DecidableEq ι] in
theorem Undisturbed.of_prefix {d : σ} {h h' : List (Obs σ τ)} (hu : Undisturbed d (h ++ h')) :
    Undisturbed d h where
  read h₁ x h₂ hh := hu.read h₁ x (h₂ ++ h') (by simp [hh])
  lock h₁ x h₂ hh := hu.lock h₁ x (h₂ ++ h') (by simp [hh])
  commit h₁ b w h₂ hh := hu.commit h₁ b w (h₂ ++ h') (by simp [hh])

omit [DecidableEq ι] in
/-- The rest of a history, from what the first part of it has settled. -/
theorem Undisturbed.of_append {d : σ} {h h' : List (Obs σ τ)} (hu : Undisturbed d (h ++ h')) :
    Undisturbed (settled d h) h' where
  read h₁ x h₂ hh := by
    rw [hu.read (h ++ h₁) x h₂ (by simp [hh]), settled_append]
  lock h₁ x h₂ hh := by
    rw [hu.lock (h ++ h₁) x h₂ (by simp [hh]), settled_append]
  commit h₁ b w h₂ hh := by
    rw [hu.commit (h ++ h₁) b w h₂ (by simp [hh]), settled_append]

/-- A call whose entries all stand in a part of the trace in which nobody else commits. -/
theorem TraceOk.undisturbed {S : Spec ι κ σ τ ξ α} {d₀ : σ} {t₁ t₂ : List (Entry ι κ σ τ ξ α)}
    (ht : TraceOk S d₀ (t₁ ++ t₂)) {p : ι} {n : ℕ} (ha : Alone p n t₂) :
    Undisturbed (contents d₀ t₁) (history t₂ p n) := by
  -- the contents at the place of an entry of the call
  have key : ∀ h₁ o h₂, history t₂ p n = h₁ ++ o :: h₂ → ∃ u c,
      SeenOk S d₀ u (.obs p n c o) ∧ contents d₀ u = settled (contents d₀ t₁) h₁ := by
    intro h₁ o h₂ hh
    obtain ⟨u, c, v, rfl, rfl, -⟩ := history_eq_append_cons hh
    refine ⟨t₁ ++ u, c, (ht (t₁ ++ u) _ v (by simp)).seen, ?_⟩
    rw [contents_append, ha.of_append.contents]
  constructor
  case read =>
    intro h₁ x h₂ hh
    obtain ⟨u, c, hs, hu⟩ := key h₁ _ h₂ hh
    exact hs.trans hu
  case lock =>
    intro h₁ x h₂ hh
    obtain ⟨u, c, hs, hu⟩ := key h₁ _ h₂ hh
    exact hs.trans hu
  case commit =>
    intro h₁ b w h₂ hh
    obtain ⟨u, c, hs, hu⟩ := key h₁ _ h₂ hh
    exact hs.1.trans hu

end SingleWriter
