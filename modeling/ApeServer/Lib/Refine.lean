/-
  Machines that refine a specification.

  A `Spec` is a state with moves that carry a label, as a relation: what a
  machine is for.  `Machine.Refines` is a forward simulation of a machine by a
  specification, through a function from its states: what one step does is no
  move, or one that the action stands for.

  * `Spec.Run.invariant`, `Spec.Run.related`: the invariant rules of runs;
  * `Spec.Run.at_cons`: the move of a run that has a label, and the runs before
    and after it;
  * `Refines.run`: a trace of the machine is a run of the specification, whose
    labels are those of some of its steps, in order;
  * `Trace.simulated`: the same for a machine whose steps may be several moves,
    which its outputs tell except for those that are not visible.
-/
import ApeServer.Lib.Run

/-- Moves with labels from a first state. -/
structure Spec (τ ℓ : Type) where
  start : τ
  Move : τ → ℓ → τ → Prop

namespace Spec

variable {τ ℓ : Type} {A : Spec τ ℓ}

/-- The runs from `t`. -/
inductive Run (A : Spec τ ℓ) (t : τ) : List ℓ → τ → Prop
  | nil : Run A t [] t
  | snoc {ls : List ℓ} {l : ℓ} {t' t'' : τ} : Run A t ls t' → A.Move t' l t'' → Run A t (ls ++ [l]) t''

/-- **The invariant rule.** -/
theorem Run.invariant {P : τ → Prop} (hm : ∀ t l t', P t → A.Move t l t' → P t') {t t' : τ} {ls : List ℓ}
    (h : A.Run t ls t') (h₀ : P t) : P t' := by
  induction h with
  | nil => exact h₀
  | snoc _ hmove ih => exact hm _ _ _ ih hmove

/-- A preorder that every move respects relates the ends of a run. -/
theorem Run.related {R : τ → τ → Prop} (hr : ∀ t, R t t) (ht : ∀ t t' t'', R t t' → R t' t'' → R t t'')
    (hm : ∀ t l t', A.Move t l t' → R t t') {t t' : τ} {ls : List ℓ} (h : A.Run t ls t') : R t t' := by
  induction h with
  | nil => exact hr _
  | snoc _ hmove ih => exact ht _ _ _ ih (hm _ _ _ hmove)

theorem Run.append {t t' t'' : τ} {ls ls' : List ℓ} (h : A.Run t ls t') (h' : A.Run t' ls' t'') :
    A.Run t (ls ++ ls') t'' := by
  induction h' with
  | nil => rwa [List.append_nil]
  | snoc _ hmove ih =>
    rw [← List.append_assoc]
    exact ih.snoc hmove

theorem Run.one {t t' : τ} {l : ℓ} (h : A.Move t l t') : A.Run t [l] t' := Run.nil.snoc h

theorem Run.eq_of_nil {t t' : τ} (h : A.Run t [] t') : t' = t := by
  generalize hl : ([] : List ℓ) = ls at h
  cases h with
  | nil => rfl
  | snoc => simp at hl

theorem Run.move_of_one {t t' : τ} {l : ℓ} (h : A.Run t [l] t') : A.Move t l t' := by
  generalize hl : [l] = ls at h
  cases h with
  | nil => cases hl
  | @snoc ls₀ l₀ t₀ _ hrun hmove =>
    obtain ⟨hnil, hlast⟩ := List.append_inj' (show [] ++ [l] = ls₀ ++ [l₀] from hl) rfl
    subst hnil
    obtain rfl := List.singleton_inj.1 hlast
    rwa [hrun.eq_of_nil] at hmove

/-- Moves that lead nowhere. -/
theorem Run.idle {t : τ} {ls : List ℓ} (h : ∀ l ∈ ls, A.Move t l t) : A.Run t ls t := by
  induction ls with
  | nil => exact .nil
  | cons l ls ih =>
    have hl := Run.one (h l List.mem_cons_self)
    exact hl.append (ih fun l' hl' => h l' (List.mem_cons_of_mem l hl'))

theorem Run.split {t t'' : τ} (ls : List ℓ) {ls' : List ℓ} (h : A.Run t (ls ++ ls') t'') :
    ∃ t', A.Run t ls t' ∧ A.Run t' ls' t'' := by
  generalize hl : ls ++ ls' = l at h
  induction h generalizing ls' with
  | nil =>
    obtain ⟨rfl, rfl⟩ := List.append_eq_nil_iff.1 hl
    exact ⟨t, .nil, .nil⟩
  | @snoc l₀ a t₁ t₂ hrun hmove ih =>
    rcases List.eq_nil_or_concat ls' with rfl | ⟨ls₁, b, rfl⟩
    · rw [List.append_nil] at hl
      exact ⟨t₂, hl ▸ hrun.snoc hmove, .nil⟩
    · rw [List.concat_eq_append, ← List.append_assoc] at hl
      obtain ⟨hinit, hlast⟩ := List.append_inj' hl rfl
      obtain rfl := List.singleton_inj.1 hlast
      obtain ⟨t', h₁, h₂⟩ := ih hinit
      rw [List.concat_eq_append]
      exact ⟨t', h₁, h₂.snoc hmove⟩

/-- **A move of a run**: the runs before and after it. -/
theorem Run.at_cons {t t' : τ} {l : ℓ} {ds ls : List ℓ} (h : A.Run t ls t') (hd : (l :: ds).Sublist ls) :
    ∃ ls₁ ls₂ t₁ t₂, ls = ls₁ ++ l :: ls₂ ∧ A.Run t ls₁ t₁ ∧ A.Move t₁ l t₂ ∧ A.Run t₂ ls₂ t' ∧
      ds.Sublist ls₂ := by
  obtain ⟨r₁, r₂, rfl, hl, hds⟩ := List.cons_sublist_iff.1 hd
  obtain ⟨s₁, s₂, rfl⟩ := List.append_of_mem hl
  rw [List.append_assoc, List.cons_append] at h
  obtain ⟨t₁, h₁, h⟩ := Run.split s₁ h
  obtain ⟨t₂, hmove, h₂⟩ := Run.split [l] h
  exact ⟨s₁, s₂ ++ r₂, t₁, t₂, by simp, h₁, hmove.move_of_one, h₂, hds.trans (List.sublist_append_right _ _)⟩

end Spec

namespace Machine

variable {σ α ε τ ℓ : Type}

/-- A simulation of a machine by a specification; `means` says which label an
    action stands for in a state. -/
structure Refines (step : σ → α → Option (σ × List ε)) (init : σ) (A : Spec τ ℓ)
    (means : σ → α → ℓ → Prop) where
  Inv : σ → Prop
  abs : σ → τ
  inv_init : Inv init
  inv_step : ∀ s a s' es, Inv s → step s a = some (s', es) → Inv s'
  abs_init : abs init = A.start
  abs_step : ∀ s a s' es, Inv s → step s a = some (s', es) →
    abs s' = abs s ∨ ∃ l, means s a l ∧ A.Move (abs s) l (abs s')

namespace Refines

variable {step : σ → α → Option (σ × List ε)} {init : σ} {A : Spec τ ℓ} {means : σ → α → ℓ → Prop}
  (R : Refines step init A means) (T : Trace step init)

theorem inv {i : ℕ} (hi : i ≤ T.len) : R.Inv (T.state i) := T.invariant R.inv_init R.inv_step hi

/-- **A trace is a run of the specification.**  The steps `ks` are its moves,
    and the labels `ls` what their actions stand for. -/
theorem run {i j : ℕ} (hij : i ≤ j) (hj : j ≤ T.len) : ∃ ks ls, ks.Pairwise (· < ·) ∧
    (∀ k ∈ ks, i ≤ k ∧ k < j) ∧ List.Forall₂ (fun k l => means (T.state k) (T.act k) l) ks ls ∧
    A.Run (R.abs (T.state i)) ls (R.abs (T.state j)) := by
  induction j, hij using Nat.le_induction with
  | base => exact ⟨[], [], .nil, by simp, .nil, .nil⟩
  | succ j hij ih =>
    obtain ⟨ks, ls, hks, hlt, hmeans, hrun⟩ := ih (by omega)
    rcases R.abs_step _ _ _ _ (R.inv T (by omega)) (T.next j hj) with hsame | ⟨l, hl, hmove⟩
    · rw [hsame]
      exact ⟨ks, ls, hks, fun k hk => ⟨(hlt k hk).1, by have := hlt k hk; omega⟩, hmeans, hrun⟩
    · refine ⟨ks ++ [j], ls ++ [l], ?_, ?_, ?_, hrun.snoc hmove⟩
      · refine List.pairwise_append.2 ⟨hks, List.pairwise_singleton _ _, ?_⟩
        intro k hk k' hk'
        rw [List.mem_singleton.1 hk']
        exact (hlt k hk).2
      · intro k hk
        rcases List.mem_append.1 hk with hk | hk
        · have := hlt k hk
          omega
        · rw [List.mem_singleton.1 hk]
          omega
      · exact List.rel_append hmeans (.cons hl .nil)

/-- The first state abstracts to the first one of the specification. -/
theorem run_start {j : ℕ} (hj : j ≤ T.len) : ∃ ks ls, ks.Pairwise (· < ·) ∧ (∀ k ∈ ks, k < j) ∧
    List.Forall₂ (fun k l => means (T.state k) (T.act k) l) ks ls ∧ A.Run A.start ls (R.abs (T.state j)) := by
  obtain ⟨ks, ls, hks, hlt, hmeans, hrun⟩ := R.run T (Nat.zero_le j) hj
  rw [T.start, R.abs_init] at hrun
  exact ⟨ks, ls, hks, fun k hk => (hlt k hk).2, hmeans, hrun⟩

end Refines

/-- **A trace is a run of the specification**, if every step is one whose
    visible labels are what the outputs of the step tell. -/
theorem Trace.simulated {step : σ → α → Option (σ × List ε)} {init : σ} {A : Spec τ ℓ} (T : Trace step init)
    (abs : σ → τ) (tells : ε → Option ℓ) (visible : ℓ → Bool)
    (h : ∀ k < T.len, ∃ ls, A.Run (abs (T.state k)) ls (abs (T.state (k + 1))) ∧
      ls.filter visible = (T.out k).filterMap tells) {i j : ℕ} (hij : i ≤ j) (hj : j ≤ T.len) :
    ∃ ls, A.Run (abs (T.state i)) ls (abs (T.state j)) ∧ ls.filter visible = (T.outs i j).filterMap tells := by
  induction j, hij using Nat.le_induction with
  | base => exact ⟨[], .nil, by simp⟩
  | succ j hij ih =>
    obtain ⟨ls, hrun, hls⟩ := ih (by omega)
    obtain ⟨ls', hrun', hls'⟩ := h j hj
    refine ⟨ls ++ ls', hrun.append hrun', ?_⟩
    rw [List.filter_append, hls, hls', T.outs_succ hij, List.filterMap_append]

end Machine
