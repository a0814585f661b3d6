import MemoryBridge.Foundations.SingleWriter.System

/-!
# Soundness of the rules for interleaved clients

A specification says, for each call, what its commits and its reply may be, given what the call has
done before. `Meets` is the obligation for each program on its own. `Good` is the invariant of the
interleaved system that carries it: who holds the lock, where every running program stands, and
that every entry of the trace is in order (`EntryOk`). It is kept by each of the four kinds of
step, and `Reach.good` follows for every reachable state.
-/

namespace SingleWriter

variable {ι κ σ τ ε μ ξ α : Type}

/-- A specification of the calls: their commits, and their replies after a history. -/
structure Spec (ι κ σ τ ξ α : Type) : Type where
  commits : ι → κ → CommitSpec σ τ
  replies : ι → κ → List (Obs σ τ) → Except ξ α → Prop

namespace Spec

/-- The postcondition of a call: no transaction stays open, and the reply is as specified. -/
def post (S : Spec ι κ σ τ ξ α) (p : ι) (c : κ) : Post σ τ μ ξ α :=
  fun r l => l.conn = .idle ∧ S.replies p c l.hist r

end Spec

/-- The program of every call that may be made meets its specification on its own, whatever its
client remembers. -/
def Meets (K : Clients ι κ σ τ ε μ ξ α) (S : Spec ι κ σ τ ξ α) : Prop :=
  ∀ p c m, K.may p c → (K.code p c).wp (S.commits p c) ⟨.idle, m, []⟩ (S.post p c)

/-- The specification of clients that make only some of the calls. -/
def Spec.among (S : Spec ι κ σ τ ξ α) (may : ι → κ → Prop) : Spec ι κ σ τ ξ α where
  commits p c h b w := may p c ∧ S.commits p c h b w
  replies p c h r := may p c ∧ S.replies p c h r

/-- Clients that make fewer calls meet it. -/
theorem Meets.among {K : Clients ι κ σ τ ε μ ξ α} {S : Spec ι κ σ τ ξ α} (hm : Meets K S)
    {may : ι → κ → Prop} (hmay : ∀ p c, may p c → K.may p c) :
    Meets { K with may := may } (S.among may) := fun p c m hc =>
  Prog.wp_weaken (fun _ _ _ h => ⟨hc, h⟩) (fun _ _ h => ⟨h.1, hc, h.2⟩) (hm p c m (hmay p c hc))

variable [DecidableEq ι]

/-- What entry `e` shows is in order, after the trace `t`. -/
def SeenOk (S : Spec ι κ σ τ ξ α) (d₀ : σ) (t : List (Entry ι κ σ τ ξ α)) :
    Entry ι κ σ τ ξ α → Prop
  | .obs _ _ _ (.clock _) => True
  | .obs _ _ _ (.read d) => d = contents d₀ t
  | .obs _ _ _ (.lock d) => d = contents d₀ t
  | .obs p n c (.commit b w) => b = contents d₀ t ∧ S.commits p c (history t p n) b w ∧
      ∃ t₁ t₂, t = t₁ ++ .obs p n c (.lock b) :: t₂ ∧ NoCommit t₂
  | .reply p n c r => S.replies p c (history t p n) r

/-- Entry `e` is in order after the trace `t`: what it shows is, and the earlier entries of its
call name the same call and are not its reply. -/
structure EntryOk (S : Spec ι κ σ τ ξ α) (d₀ : σ) (t : List (Entry ι κ σ τ ξ α))
    (e : Entry ι κ σ τ ξ α) : Prop where
  seen : SeenOk S d₀ t e
  same : ∀ e' ∈ t, e'.client = e.client → e'.number = e.number →
    e'.call = e.call ∧ e'.isReply = false

/-- An entry in order commits nothing, or is a specified commit from the contents there. -/
theorem EntryOk.commit_cases {S : Spec ι κ σ τ ξ α} {d₀ : σ} {t : List (Entry ι κ σ τ ξ α)}
    {e : Entry ι κ σ τ ξ α} (h : EntryOk S d₀ t e) :
    e.committed = none ∨ ∃ p n c w, e = .obs p n c (.commit (contents d₀ t) w) ∧
      S.commits p c (history t p n) (contents d₀ t) w := by
  rcases e.committed_cases with he | ⟨p, n, c, b, w, rfl⟩
  · exact .inl he
  · obtain ⟨rfl, hc, -⟩ := h.seen
    exact .inr ⟨p, n, c, w, rfl, hc⟩

/-- Every entry of the trace is in order after the entries before it. -/
def TraceOk (S : Spec ι κ σ τ ξ α) (d₀ : σ) (t : List (Entry ι κ σ τ ξ α)) : Prop :=
  ∀ t₁ e t₂, t = t₁ ++ e :: t₂ → EntryOk S d₀ t₁ e

namespace TraceOk

variable {S : Spec ι κ σ τ ξ α} {d₀ : σ} {t : List (Entry ι κ σ τ ξ α)} {e : Entry ι κ σ τ ξ α}

theorem nil : TraceOk S d₀ [] := fun t₁ e t₂ h => by simp at h

theorem snoc (h : TraceOk S d₀ t) (he : EntryOk S d₀ t e) : TraceOk S d₀ (t ++ [e]) := by
  intro t₁ e' t₂ ht
  rcases List.eq_nil_or_concat t₂ with rfl | ⟨t₂, e₂, rfl⟩
  · obtain ⟨rfl, he'⟩ := List.append_inj' ht rfl
    obtain rfl := List.cons.inj he' |>.1
    exact he
  · rw [List.concat_eq_append, ← List.cons_append, ← List.append_assoc] at ht
    exact h t₁ e' t₂ (List.append_inj' ht rfl).1

theorem of_append {t' : List (Entry ι κ σ τ ξ α)} (h : TraceOk S d₀ (t ++ t')) : TraceOk S d₀ t :=
  fun t₁ e t₂ ht => h t₁ e (t₂ ++ t') (by simp [ht])

theorem last (h : TraceOk S d₀ (t ++ [e])) : EntryOk S d₀ t e := h t e [] rfl

/-- A trace of clients that make only some of the calls. -/
theorem of_among {may : ι → κ → Prop} (h : TraceOk (S.among may) d₀ t) : TraceOk S d₀ t := by
  intro t₁ e t₂ ht
  have he := h t₁ e t₂ ht
  refine ⟨?_, he.same⟩
  match e, he.seen with
  | .obs _ _ _ (.clock _), _ => trivial
  | .obs _ _ _ (.read _), hd => exact hd
  | .obs _ _ _ (.lock _), hd => exact hd
  | .obs _ _ _ (.commit _ _), ⟨hb, hc, hl⟩ => exact ⟨hb, hc.2, hl⟩
  | .reply .., hr => exact hr.2

end TraceOk

/-- Induction along a trace that is in order. -/
theorem TraceOk.induction {S : Spec ι κ σ τ ξ α} {d₀ : σ}
    {P : List (Entry ι κ σ τ ξ α) → Prop} (nil : P [])
    (snoc : ∀ t e, TraceOk S d₀ t → EntryOk S d₀ t e → P t → P (t ++ [e]))
    {t : List (Entry ι κ σ τ ξ α)} (h : TraceOk S d₀ t) : P t := by
  induction t using List.reverseRecOn with
  | nil => exact nil
  | append_singleton t e ih => exact snoc t e h.of_append h.last (ih h.of_append)

/-- A property of the committed contents that every specified commit keeps. -/
theorem TraceOk.invariant {S : Spec ι κ σ τ ξ α} {d₀ : σ} {I : σ → Prop}
    (hI : ∀ p c h b w, S.commits p c h b w → I b → I w) (h₀ : I d₀)
    {t : List (Entry ι κ σ τ ξ α)} (h : TraceOk S d₀ t) : I (contents d₀ t) := by
  refine TraceOk.induction (P := fun t => I (contents d₀ t)) h₀ (fun t e _ he ih => ?_) h
  rcases he.commit_cases with he | ⟨p, n, c, w, rfl, hc⟩
  · rw [contents_keep he]
    exact ih
  · rw [contents_commit]
    exact hI p c _ _ w hc ih

/-- A commit of the trace at its place: it starts from the contents there and is a specified one. -/
theorem TraceOk.commit {S : Spec ι κ σ τ ξ α} {d₀ : σ} {t : List (Entry ι κ σ τ ξ α)}
    (h : TraceOk S d₀ t) {p : ι} {n : ℕ} {c : κ} {b w : σ} (hm : .obs p n c (.commit b w) ∈ t) :
    ∃ t₁ t₂, t = t₁ ++ .obs p n c (.commit b w) :: t₂ ∧ TraceOk S d₀ t₁ ∧ b = contents d₀ t₁ ∧
      S.commits p c (history t₁ p n) b w := by
  obtain ⟨t₁, t₂, rfl⟩ := List.append_of_mem hm
  obtain ⟨hb, hc, -⟩ := (h t₁ _ t₂ rfl).seen
  exact ⟨t₁, t₂, rfl, h.of_append, hb, hc⟩

/-- A property holds of all contents that were ever committed exactly if every commit meets the
condition under which it keeps the property. -/
theorem TraceOk.always_iff {S : Spec ι κ σ τ ξ α} {d₀ : σ} {I : σ → Prop}
    {G : ι → κ → σ → σ → Prop} (hG : ∀ p c h b w, S.commits p c h b w → I b → (I w ↔ G p c b w))
    (h₀ : I d₀) {t : List (Entry ι κ σ τ ξ α)} (h : TraceOk S d₀ t) :
    (∀ t₁, t₁ <+: t → I (contents d₀ t₁)) ↔
      ∀ p n c b w, .obs p n c (.commit b w) ∈ t → G p c b w := by
  constructor
  · intro hI p n c b w hm
    obtain ⟨t₁, t₂, rfl, -, rfl, hc⟩ := h.commit hm
    have hw := hI (t₁ ++ [.obs p n c (.commit (contents d₀ t₁) w)]) ⟨t₂, by simp⟩
    rw [contents_commit] at hw
    exact (hG p c _ _ w hc (hI t₁ (List.prefix_append _ _))).1 hw
  · refine TraceOk.induction (P := fun t => (∀ p n c b w, .obs p n c (.commit b w) ∈ t →
      G p c b w) → ∀ t₁, t₁ <+: t → I (contents d₀ t₁)) (fun _ t₁ ht₁ => ?_)
      (fun t e _ he ih hall t₁ ht₁ => ?_) h
    · rw [List.prefix_nil.1 ht₁]
      exact h₀
    · have ih := ih fun p n c b w hm => hall p n c b w (List.mem_append_left _ hm)
      rcases List.prefix_concat_iff.1 ht₁ with rfl | ht₁
      · have hI := ih t List.prefix_rfl
        rcases he.commit_cases with he | ⟨p, n, c, w, rfl, hc⟩
        · rw [contents_keep he]
          exact hI
        · rw [contents_commit]
          exact (hG p c _ _ w hc hI).2 (hall p n c _ w (by simp))
      · exact ih t₁ ht₁

/-- What a call reads outside a transaction are the contents committed at that moment. -/
theorem TraceOk.read_of_history {S : Spec ι κ σ τ ξ α} {d₀ : σ} {t : List (Entry ι κ σ τ ξ α)}
    (h : TraceOk S d₀ t) {p : ι} {n : ℕ} {d : σ} (hd : .read d ∈ history t p n) :
    ∃ t₁, t₁ <+: t ∧ d = contents d₀ t₁ := by
  obtain ⟨c, hc⟩ := mem_history.1 hd
  obtain ⟨t₁, t₂, rfl⟩ := List.append_of_mem hc
  exact ⟨t₁, List.prefix_append _ _, (h t₁ _ t₂ rfl).seen⟩

/-- A property of the committed contents that a commit keeps if what its call has read has it. -/
theorem TraceOk.invariant_of_reads {S : Spec ι κ σ τ ξ α} {d₀ : σ} {I : σ → Prop}
    (hI : ∀ p c h b w, S.commits p c h b w → (∀ d, .read d ∈ h → I d) → I b → I w) (h₀ : I d₀)
    {t : List (Entry ι κ σ τ ξ α)} (h : TraceOk S d₀ t) {t₁ : List (Entry ι κ σ τ ξ α)}
    (ht₁ : t₁ <+: t) : I (contents d₀ t₁) := by
  refine TraceOk.induction (P := fun t => ∀ t₁, t₁ <+: t → I (contents d₀ t₁)) (fun t₁ ht₁ => ?_)
    (fun t e ht he ih t₁ ht₁ => ?_) h t₁ ht₁
  · rw [List.prefix_nil.1 ht₁]
    exact h₀
  · rcases List.prefix_concat_iff.1 ht₁ with rfl | ht₁
    · rcases he.commit_cases with he | ⟨p, n, c, w, rfl, hc⟩
      · rw [contents_keep he]
        exact ih t List.prefix_rfl
      · rw [contents_commit]
        refine hI p c _ _ w hc (fun d hd => ?_) (ih t List.prefix_rfl)
        obtain ⟨t₂, ht₂, rfl⟩ := ht.read_of_history hd
        exact ih t₂ ht₂
    · exact ih t₁ ht₁

/-- After its reply, a call does nothing. -/
theorem TraceOk.after_reply {S : Spec ι κ σ τ ξ α} {d₀ : σ} {t₁ t₂ : List (Entry ι κ σ τ ξ α)}
    {p : ι} {n : ℕ} {c : κ} {r : Except ξ α} (h : TraceOk S d₀ (t₁ ++ .reply p n c r :: t₂)) :
    ∀ e ∈ t₂, e.client = p → e.number ≠ n := by
  rintro e he rfl rfl
  obtain ⟨a, b, rfl⟩ := List.append_of_mem he
  have hs := (h (t₁ ++ .reply e.client e.number c r :: a) e b (by simp)).same
    (.reply e.client e.number c r) (by simp) rfl rfl
  exact Bool.noConfusion hs.2

/-- So after its reply, its history is what it was before. -/
theorem TraceOk.history_reply {S : Spec ι κ σ τ ξ α} {d₀ : σ} {t₁ t₂ : List (Entry ι κ σ τ ξ α)}
    {p : ι} {n : ℕ} {c : κ} {r : Except ξ α} (h : TraceOk S d₀ (t₁ ++ .reply p n c r :: t₂)) :
    history (t₁ ++ .reply p n c r :: t₂) p n = history t₁ p n := by
  rw [List.append_cons, history_append, history_append, SingleWriter.history_reply,
    history_eq_nil h.after_reply]
  simp

/-- A reply of the trace at its place: it is as specified, what its call did names the same call,
and the call does nothing afterwards. -/
theorem TraceOk.reply {S : Spec ι κ σ τ ξ α} {d₀ : σ} {t : List (Entry ι κ σ τ ξ α)}
    (h : TraceOk S d₀ t) {p : ι} {n : ℕ} {c : κ} {r : Except ξ α} (hm : .reply p n c r ∈ t) :
    ∃ t₁ t₂, t = t₁ ++ .reply p n c r :: t₂ ∧ TraceOk S d₀ t₁ ∧
      S.replies p c (history t₁ p n) r ∧ (∀ c' o, .obs p n c' o ∈ t₁ → c' = c) ∧
      ∀ c' o, .obs p n c' o ∈ t → .obs p n c' o ∈ t₁ := by
  obtain ⟨t₁, t₂, rfl⟩ := List.append_of_mem hm
  have he := h t₁ _ t₂ rfl
  refine ⟨t₁, t₂, rfl, h.of_append, he.seen, fun c' o ho => (he.same _ ho rfl rfl).1, ?_⟩
  intro c' o ho
  rcases List.mem_append.1 ho with ho | ho
  · exact ho
  · rcases List.mem_cons.1 ho with ho | ho
    · cases ho
    · exact absurd rfl (h.after_reply _ ho rfl)

/-- At this point of the trace the call reads, outside a transaction, what is committed. -/
def ReadsAt (d₀ : σ) (t : List (Entry ι κ σ τ ξ α)) (p : ι) (n : ℕ) (c : κ)
    (t₁ : List (Entry ι κ σ τ ξ α)) : Prop :=
  ∃ t₂, t = t₁ ++ .obs p n c (.read (contents d₀ t₁)) :: t₂

omit [DecidableEq ι] in
theorem ReadsAt.prefix {d₀ : σ} {t t₁ : List (Entry ι κ σ τ ξ α)} {p : ι} {n : ℕ} {c : κ}
    (h : ReadsAt d₀ t p n c t₁) : t₁ <+: t := by
  obtain ⟨t₂, rfl⟩ := h
  exact List.prefix_append _ _

/-- A call that replies has read what the history before its reply says, at its place in it. -/
theorem TraceOk.reply_read {S : Spec ι κ σ τ ξ α} {d₀ : σ} {t : List (Entry ι κ σ τ ξ α)}
    (h : TraceOk S d₀ t) {p : ι} {n : ℕ} {c : κ} {r : Except ξ α} (hm : .reply p n c r ∈ t) :
    ∃ h', S.replies p c h' r ∧ ∀ h₁ d h₂, h' = h₁ ++ .read d :: h₂ →
      ∃ t₁ t₂, t = t₁ ++ .obs p n c (.read (contents d₀ t₁)) :: t₂ ∧ d = contents d₀ t₁ ∧
        history t₁ p n = h₁ ∧ history t₂ p n = h₂ := by
  obtain ⟨u, v, rfl, -, hr, hsame, -⟩ := h.reply hm
  refine ⟨_, hr, fun h₁ d h₂ hh => ?_⟩
  have hafter : history v p n = [] := history_eq_nil h.after_reply
  obtain ⟨t₁, c', t₂, rfl, hh₁, hh₂⟩ := history_eq_append_cons hh
  obtain rfl := hsame c' (.read d) (by simp)
  rw [List.append_assoc, List.cons_append] at h ⊢
  have hseen : d = contents d₀ t₁ := (h t₁ _ _ rfl).seen
  refine ⟨t₁, _, by rw [← hseen], hseen, hh₁, ?_⟩
  rw [List.append_cons, history_append, history_append, SingleWriter.history_reply, hafter, hh₂]
  simp

theorem TraceOk.reply_reads {S : Spec ι κ σ τ ξ α} {d₀ : σ} {t : List (Entry ι κ σ τ ξ α)}
    (h : TraceOk S d₀ t) {p : ι} {n : ℕ} {c : κ} {r : Except ξ α} (hm : .reply p n c r ∈ t) :
    ∃ h', S.replies p c h' r ∧
      ∀ d, .read d ∈ h' → ∃ t₁, ReadsAt d₀ t p n c t₁ ∧ d = contents d₀ t₁ := by
  obtain ⟨h', hr, hread⟩ := h.reply_read hm
  refine ⟨h', hr, fun d hd => ?_⟩
  obtain ⟨h₁, h₂, rfl⟩ := List.append_of_mem hd
  obtain ⟨t₁, t₂, ht, rfl, -, -⟩ := hread h₁ d h₂ rfl
  exact ⟨t₁, ⟨t₂, ht⟩, rfl⟩

/-- A preorder along which every specified commit moves, from contents that satisfy an invariant. -/
theorem TraceOk.related {S : Spec ι κ σ τ ξ α} {d₀ : σ} {I : σ → Prop} {R : σ → σ → Prop}
    (refl : ∀ d, R d d) (trans : ∀ d d' d'', R d d' → R d' d'' → R d d'')
    (hI : ∀ p c h b w, S.commits p c h b w → I b → I w)
    (hR : ∀ p c h b w, S.commits p c h b w → I b → R b w) (h₀ : I d₀)
    {t t' : List (Entry ι κ σ τ ξ α)} (h : TraceOk S d₀ (t ++ t')) :
    R (contents d₀ t) (contents d₀ (t ++ t')) := by
  induction t' using List.reverseRecOn with
  | nil =>
    rw [List.append_nil]
    exact refl _
  | append_singleton t' e ih =>
    rw [← List.append_assoc] at h ⊢
    refine trans _ _ _ (ih h.of_append) ?_
    rcases h.last.commit_cases with he | ⟨p, n, c, w, rfl, hc⟩
    · rw [contents_keep he]
      exact refl _
    · rw [contents_commit]
      exact hR p c _ _ w hc (h.of_append.invariant hI h₀)

/-! ## One client -/

/-- Client `p` is in order in the state `x`, the committed contents being `d` and the trace `t`:
what is left of its call meets the specification after what the call has done, and nothing was
committed since it took the lock. -/
structure ClientOk (S : Spec ι κ σ τ ξ α) (d : σ) (t : List (Entry ι κ σ τ ξ α)) (p : ι)
    (x : Proc κ σ τ ε μ ξ α) : Prop where
  coherent : x.conn.Coherent d
  idle : x.job = none → x.conn = .idle
  job : ∀ c k, x.job = some (c, k) →
    k.wp (S.commits p c) ⟨x.conn, x.mem, history t p x.count⟩ (S.post p c)
  number : ∀ e ∈ t, e.client = p → e.number ≤ x.count
  call : ∀ c k, x.job = some (c, k) → ∀ e ∈ t, e.client = p → e.number = x.count →
    e.call = c ∧ e.isReply = false
  held : ∀ c k b w, x.job = some (c, k) → x.conn = .writer b w →
    ∃ t₁ t₂, t = t₁ ++ .obs p x.count c (.lock b) :: t₂ ∧ NoCommit t₂

/-- The entries that an operation of a call adds to the trace. -/
def opEntries (p : ι) (n : ℕ) (c : κ) (o : Option (Obs σ τ)) : List (Entry ι κ σ τ ξ α) :=
  o.toList.map (.obs p n c)

omit [DecidableEq ι] in
theorem opEntries_client {p : ι} {n : ℕ} {c : κ} {o : Option (Obs σ τ)} {e : Entry ι κ σ τ ξ α}
    (he : e ∈ opEntries p n c o) :
    e.client = p ∧ e.number = n ∧ e.call = c ∧ e.isReply = false := by
  obtain ⟨o', -, rfl⟩ := List.mem_map.1 he
  exact ⟨rfl, rfl, rfl, rfl⟩

omit [DecidableEq ι] in
theorem noCommit_opEntries {p : ι} {n : ℕ} {c : κ} {o : Option (Obs σ τ)}
    (ho : ∀ b w, o ≠ some (.commit b w)) :
    NoCommit (opEntries p n c o : List (Entry ι κ σ τ ξ α)) := by
  intro e he
  obtain ⟨o', ho', rfl⟩ := List.mem_map.1 he
  cases o' with
  | commit b w => exact absurd (Option.mem_toList.1 ho') (ho b w)
  | _ => rfl

namespace ClientOk

variable {S : Spec ι κ σ τ ξ α} {d d' : σ} {t new : List (Entry ι κ σ τ ξ α)} {p q : ι}
  {x : Proc κ σ τ ε μ ξ α}

/-- What another client does leaves a client in order, as long as it commits nothing while this one
holds the lock. -/
theorem frame (h : ClientOk S d t q x) (hnew : ∀ e ∈ new, e.client ≠ q)
    (hl : x.conn.locked = true → d' = d ∧ NoCommit new) : ClientOk S d' (t ++ new) q x := by
  have hold : ∀ e ∈ t ++ new, e.client = q → e ∈ t := by
    intro e he heq
    rcases List.mem_append.1 he with he | he
    · exact he
    · exact absurd heq (hnew e he)
  have hhist : history (t ++ new) q x.count = history t q x.count := by
    rw [history_append, history_eq_nil fun e he heq => absurd heq (hnew e he), List.append_nil]
  constructor
  case coherent =>
    cases hc : x.conn with
    | idle => trivial
    | deferred => trivial
    | writer b w =>
      have hb := h.coherent
      rw [hc] at hb
      exact hb.trans (hl (by rw [hc]; rfl)).1.symm
  case idle => exact h.idle
  case job =>
    rw [hhist]
    exact h.job
  case number => exact fun e he heq => h.number e (hold e he heq) heq
  case call => exact fun c k hj e he heq => h.call c k hj e (hold e he heq) heq
  case held =>
    intro c k b w hj hc
    obtain ⟨t₁, t₂, rfl, hno⟩ := h.held c k b w hj hc
    refine ⟨t₁, t₂ ++ new, by simp, fun e he => ?_⟩
    rcases List.mem_append.1 he with he | he
    · exact hno e he
    · exact (hl (by rw [hc]; rfl)).2 e he

/-- No entry has the number of the next call. -/
theorem fresh (h : ClientOk S d t p x) : ∀ e ∈ t, e.client = p → e.number ≠ x.count + 1 := by
  intro e he heq
  have := h.number e he heq
  omega

/-- A client that runs no call starts one. -/
theorem start (h : ClientOk S d t p x) (hj : x.job = none) {c : κ} {k : Prog σ τ ε μ ξ α}
    (hk : k.wp (S.commits p c) ⟨.idle, x.mem, []⟩ (S.post p c)) :
    ClientOk S d t p { x with count := x.count + 1, job := some (c, k) } := by
  have hidle := h.idle hj
  constructor
  case coherent => exact h.coherent
  case idle => exact fun hn => by cases hn
  case job =>
    intro c' k' hjob
    obtain ⟨rfl, rfl⟩ := Prod.mk.inj (Option.some.inj hjob)
    show k.wp _ ⟨x.conn, x.mem, history t p (x.count + 1)⟩ _
    rw [history_eq_nil h.fresh, hidle]
    exact hk
  case number => exact fun e he heq => Nat.le_succ_of_le (h.number e he heq)
  case call => exact fun c' k' _ e he heq hn => absurd hn (h.fresh e he heq)
  case held =>
    intro c' k' b w _ hc
    rw [hidle] at hc
    cases hc

/-- A client whose call ends. -/
theorem reply (h : ClientOk S d t p x) (hidle : x.conn = .idle) (c : κ) (r : Except ξ α) :
    ClientOk S d (t ++ [.reply p x.count c r]) p
      ({ x with job := none } : Proc κ σ τ ε μ ξ α) := by
  constructor
  case coherent => exact h.coherent
  case idle => exact fun _ => hidle
  case number =>
    intro e he heq
    rcases List.mem_append.1 he with he | he
    · exact h.number e he heq
    · rw [List.mem_singleton.1 he]
      exact Nat.le_refl _
  case job => exact fun _ _ hj => by cases hj
  case call => exact fun _ _ hj => by cases hj
  case held => exact fun _ _ _ _ hj => by cases hj

/-- A client that crashes. -/
theorem crash (h : ClientOk S d t p x) (m : μ) :
    ClientOk S d t p (⟨.idle, m, x.count, none⟩ : Proc κ σ τ ε μ ξ α) where
  coherent := trivial
  idle _ := rfl
  job _ _ hj := by cases hj
  number := h.number
  call _ _ hj := by cases hj
  held _ _ _ _ hj := by cases hj

section Operate

variable {c : κ} {o : Op σ μ} {k : o.Answer τ ε → Prog σ τ ε μ ξ α} {free : Bool} {ch : Choice τ ε}
  {out : Outcome τ ε o}

/-- A client whose call runs an operation. -/
theorem operate (h : ClientOk S d t p x) (hj : x.job = some (c, .op o k))
    (hr : o.run d free x.conn x.mem ch = some out) :
    ClientOk S out.db (t ++ opEntries p x.count c out.obs) p
      ⟨out.conn, out.mem, x.count, some (c, k out.ans)⟩ := by
  obtain ⟨-, hk⟩ := h.job c _ hj _ _ ch out h.coherent hr
  -- while the lock is held, the operation has committed nothing
  have hkeep : out.conn.locked = true → out.db = d ∧ ∀ b w, out.obs ≠ some (.commit b w) := by
    intro hl
    rcases Op.run_db hr with hd | ⟨b, w, -, -, -, hi⟩
    · exact hd
    · rw [hi] at hl
      cases hl
  constructor
  case coherent =>
    show out.conn.Coherent out.db
    cases hc : out.conn with
    | idle => trivial
    | deferred => trivial
    | writer b w =>
      rw [(hkeep (by rw [hc]; rfl)).1]
      rcases Op.run_conn hr hc with ⟨w', hw'⟩ | ⟨-, rfl, -⟩
      · have hb := h.coherent
        rwa [hw'] at hb
      · rfl
  case idle => exact fun hn => by cases hn
  case job =>
    intro c' k' hjob
    obtain ⟨rfl, rfl⟩ := Prod.mk.inj (Option.some.inj hjob)
    show (k out.ans).wp _
      ⟨out.conn, out.mem, history (t ++ opEntries p x.count c out.obs) p x.count⟩ _
    rw [history_append, opEntries, history_obs_list]
    exact hk
  case number =>
    intro e he heq
    rcases List.mem_append.1 he with he | he
    · exact h.number e he heq
    · exact Nat.le_of_eq (opEntries_client he).2.1
  case call =>
    intro c' k' hjob e he heq hn
    obtain ⟨rfl, -⟩ := Prod.mk.inj (Option.some.inj hjob)
    rcases List.mem_append.1 he with he | he
    · exact h.call c _ hj e he heq hn
    · exact (opEntries_client he).2.2
  case held =>
    intro c' k' b w hjob hc
    obtain ⟨rfl, -⟩ := Prod.mk.inj (Option.some.inj hjob)
    have hc : out.conn = .writer b w := hc
    rcases Op.run_conn hr hc with ⟨w', hw'⟩ | ⟨-, -, ho⟩
    · obtain ⟨t₁, t₂, rfl, hno⟩ := h.held c _ b w' hj hw'
      refine ⟨t₁, t₂ ++ opEntries p x.count c out.obs, by simp, fun e he => ?_⟩
      rcases List.mem_append.1 he with he | he
      · exact hno e he
      · exact noCommit_opEntries (hkeep (by rw [hc]; rfl)).2 e he
    · exact ⟨t, [], by rw [ho]; rfl, by simp [NoCommit]⟩

/-- What the operation adds to the trace is in order. -/
theorem trace_operate (h : ClientOk S d t p x) (hj : x.job = some (c, .op o k))
    (hr : o.run d free x.conn x.mem ch = some out) {d₀ : σ} (hd : d = contents d₀ t)
    (ht : TraceOk S d₀ t) : TraceOk S d₀ (t ++ opEntries p x.count c out.obs) := by
  obtain ⟨hC, -⟩ := h.job c _ hj _ _ ch out h.coherent hr
  cases ho : out.obs with
  | none => simpa [opEntries] using ht
  | some o' =>
    refine ht.snoc ⟨?_, fun e he heq hn => h.call c _ hj e he heq hn⟩
    cases o' with
    | clock t => trivial
    | read b => exact (Op.run_obs hr (.inl ho)).trans hd
    | lock b => exact (Op.run_obs hr (.inr ho)).trans hd
    | commit b w =>
      rcases Op.run_db hr with ⟨-, hno⟩ | ⟨b', w', hc, ho', -⟩
      · exact absurd ho (hno b w)
      · obtain ⟨rfl, rfl⟩ : b' = b ∧ w' = w := by simpa [ho] using ho'.symm
        have hb := h.coherent
        rw [hc] at hb
        exact ⟨hb.trans hd, hC _ _ ho, h.held c _ _ _ hj hc⟩

end Operate

end ClientOk

/-! ## All clients -/

/-- The invariant of the interleaved system: the lock is held by the client in a write transaction,
and all clients and the trace are in order. -/
structure Good (K : Clients ι κ σ τ ε μ ξ α) (S : Spec ι κ σ τ ξ α) (d₀ : σ)
    (s : Sys ι κ σ τ ε μ ξ α) : Prop where
  lock : ∀ p, s.lock = some p ↔ (s.procs p).conn.locked = true
  client : ∀ p, ClientOk S s.db s.trace p (s.procs p)
  db : s.db = contents d₀ s.trace
  trace : TraceOk S d₀ s.trace

namespace Good

variable {K : Clients ι κ σ τ ε μ ξ α} {S : Spec ι κ σ τ ξ α} {d₀ : σ}
  {s s' : Sys ι κ σ τ ε μ ξ α} {p : ι}

theorem of_init (hs : s.Init) : Good K S s.db s where
  lock q := by simp [hs.lock, hs.conn, Conn.locked]
  client q :=
    { coherent := by simp [hs.conn, Conn.Coherent]
      idle := fun _ => hs.conn q
      job := fun c k h => by simp [hs.job] at h
      number := fun e he => by simp [hs.trace] at he
      call := fun c k h => by simp [hs.job] at h
      held := fun c k b w h => by simp [hs.job] at h }
  db := by simp [hs.trace]
  trace := hs.trace ▸ TraceOk.nil

/-- Nobody else holds the lock that `p` holds. -/
theorem not_locked (g : Good K S d₀ s) {q : ι} (hq : q ≠ p) (hp : (s.procs p).conn.locked = true) :
    (s.procs q).conn.locked = false := by
  have h := (g.lock p).2 hp
  refine Bool.eq_false_iff.2 fun hl => hq ?_
  have := (g.lock q).2 hl
  rw [h] at this
  exact (Option.some.inj this).symm

/-- The lock after client `p` came to the state `x`. -/
theorem lock_update (g : Good K S d₀ s) {x : Proc κ σ τ ε μ ξ α}
    (hx : x.conn.locked = true → ∀ q, q ≠ p → (s.procs q).conn.locked = false) (q : ι) :
    (if x.conn.locked then some p else s.unlock p) = some q ↔
      (Function.update s.procs p x q).conn.locked = true := by
  rcases eq_or_ne q p with rfl | hq
  · cases hl : x.conn.locked <;> simp [hl, Sys.unlock]
  · rw [Function.update_of_ne hq]
    cases hl : x.conn.locked with
    | true => simp [hx hl q hq, hq.symm]
    | false =>
      rw [if_neg (by simp), Sys.unlock, ← g.lock q]
      split
      case isTrue hp => simp [hp, hq.symm]
      case isFalse => rfl

theorem start (g : Good K S d₀ s) (hm : Meets K S) {c : κ} (hc : K.may p c)
    (h : s.start K p c = some s') : Good K S d₀ s' := by
  unfold Sys.start at h
  split at h
  case h_2 => cases h
  case h_1 hj =>
    obtain rfl := Option.some.inj h
    refine ⟨fun q => ?_, fun q => ?_, g.db, g.trace⟩
    · rcases eq_or_ne q p with rfl | hq
      · simpa using g.lock q
      · simpa [hq] using g.lock q
    · rcases eq_or_ne q p with rfl | hq
      · simpa using (g.client q).start hj (hm q c _ hc)
      · simpa [hq] using g.client q

theorem operate (g : Good K S d₀ s) {ch : Choice τ ε} (h : s.operate p ch = some s') :
    Good K S d₀ s' := by
  unfold Sys.operate at h
  split at h
  case h_2 => cases h
  case h_1 c o k hj =>
    obtain ⟨out, hr, rfl⟩ := Option.map_eq_some_iff.1 h
    have hp := g.client p
    -- who holds the lock afterwards held it before, or took it while it was free
    have hexcl : out.conn.locked = true → ∀ q, q ≠ p → (s.procs q).conn.locked = false := by
      intro hl q hq
      cases hw : out.conn with
      | idle => simp [hw, Conn.locked] at hl
      | deferred => simp [hw, Conn.locked] at hl
      | writer b w =>
        rcases Op.run_conn hr hw with ⟨w', hw'⟩ | ⟨hfree, -, -⟩
        · exact g.not_locked hq (by simp [hw', Conn.locked])
        · refine Bool.eq_false_iff.2 fun hlq => ?_
          simp [(g.lock q).2 hlq] at hfree
    have hdb : out.db = contents s.db (opEntries p (s.procs p).count c out.obs :
        List (Entry ι κ σ τ ξ α)) := by
      rcases Op.run_db hr with ⟨hd, hno⟩ | ⟨b, w, -, ho, hd, -⟩
      · rw [(noCommit_opEntries hno).contents, hd]
      · rw [ho, hd]
        rfl
    refine ⟨g.lock_update (x := ⟨out.conn, out.mem, (s.procs p).count, some (c, k out.ans)⟩) hexcl,
      fun q => ?_, ?_, hp.trace_operate hj hr g.db g.trace⟩
    · rcases eq_or_ne q p with rfl | hq
      · simpa [opEntries] using hp.operate hj hr
      · simp only [Function.update_of_ne hq]
        refine (g.client q).frame (fun e he => ?_) fun hl => ?_
        · rw [(opEntries_client he).1]
          exact hq.symm
        · rcases Op.run_db hr with ⟨hd, hno⟩ | ⟨b, w, hw, -⟩
          · exact ⟨hd, noCommit_opEntries hno⟩
          · rw [g.not_locked hq (by rw [hw]; rfl)] at hl
            cases hl
    · show out.db = contents d₀ (s.trace ++ opEntries p (s.procs p).count c out.obs)
      rw [contents_append, ← g.db, hdb]

/-- A call that ends replies as specified and has no transaction open. -/
theorem reply (g : Good K S d₀ s) {c : κ} {k : Prog σ τ ε μ ξ α}
    (hj : (s.procs p).job = some (c, k)) {r : Except ξ α}
    (hr : S.post p c r
      ⟨(s.procs p).conn, (s.procs p).mem, history s.trace p (s.procs p).count⟩) :
    Good K S d₀ (s.reply p c r) := by
  obtain ⟨hi, hr⟩ := hr
  have hp := g.client p
  refine ⟨fun q => ?_, fun q => ?_, ?_,
    g.trace.snoc ⟨hr, fun e he heq hn => hp.call c k hj e he heq hn⟩⟩
  · rcases eq_or_ne q p with rfl | hq
    · simpa [Sys.reply] using g.lock q
    · simpa [Sys.reply, hq] using g.lock q
  · rcases eq_or_ne q p with rfl | hq
    · simpa [Sys.reply] using hp.reply hi c r
    · simp only [Sys.reply, Function.update_of_ne hq]
      refine (g.client q).frame (fun e he => ?_) fun _ => ⟨rfl, fun e he => ?_⟩
      · rw [List.mem_singleton.1 he]
        exact hq.symm
      · rw [List.mem_singleton.1 he]
        rfl
  · show s.db = contents d₀ (s.trace ++ [.reply p (s.procs p).count c r])
    rw [contents_append, ← g.db]
    rfl

theorem finish (g : Good K S d₀ s) (h : s.finish p = some s') : Good K S d₀ s' := by
  unfold Sys.finish at h
  split at h
  case h_1 c a hj =>
    obtain rfl := Option.some.inj h
    exact g.reply hj ((g.client p).job c _ hj)
  case h_2 c e hj =>
    obtain rfl := Option.some.inj h
    exact g.reply hj ((g.client p).job c _ hj)
  case h_3 => cases h

/-- A crash loses the transaction of its client and nothing else. -/
theorem crash (g : Good K S d₀ s) : Good K S d₀ (s.crash K p) := by
  refine ⟨g.lock_update (x := ⟨.idle, K.boot, (s.procs p).count, none⟩) fun hl => ?_,
    fun q => ?_, g.db, g.trace⟩
  · cases hl
  · rcases eq_or_ne q p with rfl | hq
    · simpa [Sys.crash] using (g.client q).crash K.boot
    · simpa [Sys.crash, hq] using g.client q

theorem step (g : Good K S d₀ s) (hm : Meets K S) (h : Step K s s') : Good K S d₀ s' := by
  obtain ⟨p, mv, hmay, h⟩ := h
  cases mv with
  | start c => exact g.start hm (hmay c rfl) h
  | operate ch => exact g.operate h
  | finish => exact g.finish h
  | crash =>
    obtain rfl := Option.some.inj h
    exact g.crash

end Good

variable {K : Clients ι κ σ τ ε μ ξ α} {S : Spec ι κ σ τ ξ α} {s₀ s s' : Sys ι κ σ τ ε μ ξ α}

/-- **Soundness.** If every call meets its specification on its own, every reachable state of the
interleaved system is good. -/
theorem Reach.good (hm : Meets K S) (h₀ : s₀.Init) (h : Reach K s₀ s) : Good K S s₀.db s := by
  induction h with
  | refl => exact Good.of_init h₀
  | tail _ hstep ih => exact ih.step hm hstep

/-- A property that every specified commit keeps holds of the committed contents of every
reachable state. -/
theorem Reach.invariant (hm : Meets K S) (h₀ : s₀.Init) {I : σ → Prop}
    (hI : ∀ p c h b w, S.commits p c h b w → I b → I w) (hd : I s₀.db) (h : Reach K s₀ s) :
    I s.db := by
  have g := Reach.good hm h₀ h
  rw [g.db]
  exact g.trace.invariant hI hd

/-- The trace only grows. -/
theorem Step.trace_prefix (h : Step K s s') : s.trace <+: s'.trace := by
  obtain ⟨p, mv, -, h⟩ := h
  cases mv with
  | start c =>
    simp only [Sys.step, Sys.start] at h
    split at h
    · obtain rfl := Option.some.inj h
      exact List.prefix_rfl
    · cases h
  | operate ch =>
    simp only [Sys.step, Sys.operate] at h
    split at h
    · obtain ⟨out, -, rfl⟩ := Option.map_eq_some_iff.1 h
      exact List.prefix_append _ _
    · cases h
  | finish =>
    simp only [Sys.step, Sys.finish] at h
    split at h
    · obtain rfl := Option.some.inj h
      exact List.prefix_append _ _
    · obtain rfl := Option.some.inj h
      exact List.prefix_append _ _
    · cases h
  | crash =>
    obtain rfl := Option.some.inj h
    exact List.prefix_rfl

theorem Reach.trace_prefix (h : Reach K s s') : s.trace <+: s'.trace := by
  induction h with
  | refl => exact List.prefix_rfl
  | tail _ hstep ih => exact ih.trans hstep.trace_prefix

/-- The committed contents of two reachable states, one after the other, are related as every
specified commit relates them. -/
theorem Reach.related (hm : Meets K S) (h₀ : s₀.Init) {I : σ → Prop} {R : σ → σ → Prop}
    (refl : ∀ d, R d d) (trans : ∀ d d' d'', R d d' → R d' d'' → R d d'')
    (hI : ∀ p c h b w, S.commits p c h b w → I b → I w)
    (hR : ∀ p c h b w, S.commits p c h b w → I b → R b w) (hd : I s₀.db)
    (h : Reach K s₀ s) (h' : Reach K s s') : R s.db s'.db := by
  have g := Reach.good hm h₀ h
  have g' := Reach.good hm h₀ (h.trans h')
  obtain ⟨t, ht⟩ := Reach.trace_prefix h'
  rw [g.db, g'.db, ← ht]
  exact (ht ▸ g'.trace).related refl trans hI hR hd

end SingleWriter
