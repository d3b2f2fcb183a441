/-
  Runs of a transition function with outputs.

  `step s a` is `none` when the action `a` is not enabled in `s`, and
  otherwise the next state with the outputs of the step.  A `Trace` is a run
  of `len` steps from `init`; `Reachable` are the states of traces.

  * `Reachable.invariant`, `Trace.invariant`: a property that holds initially
    and is kept by every step holds in every state;
  * `Trace.related`: a reflexive and transitive relation that every step
    respects (from states satisfying the invariant) relates any two states of
    a trace in order;
  * `Trace.since`, `Trace.became`: since when something holds, and the step
    that made it true;
  * `Trace.past`, `Trace.history`: what was output before a state, and
    invariants that speak of it; `Trace.outs`: the outputs of some steps.
-/
import Mathlib.Tactic

namespace Machine

variable {σ α ε : Type} {step : σ → α → Option (σ × List ε)} {init : σ}

/-- The states reachable from `init`. -/
inductive Reachable (step : σ → α → Option (σ × List ε)) (init : σ) : σ → Prop
  | start : Reachable step init init
  | next {s s' : σ} {a : α} {es : List ε} :
      Reachable step init s → step s a = some (s', es) → Reachable step init s'

/-- A run of `len` steps: step `i` goes from `state i` to `state (i + 1)` by
    the action `act i`, with the outputs `out i`. -/
structure Trace (step : σ → α → Option (σ × List ε)) (init : σ) where
  len : ℕ
  state : ℕ → σ
  act : ℕ → α
  out : ℕ → List ε
  start : state 0 = init
  next : ∀ i < len, step (state i) (act i) = some (state (i + 1), out i)

/-- **The invariant rule.** -/
theorem Reachable.invariant {P : σ → Prop} (h₀ : P init)
    (hs : ∀ s a s' es, P s → step s a = some (s', es) → P s') {s : σ}
    (h : Reachable step init s) : P s := by
  induction h with
  | start => exact h₀
  | next _ hstep ih => exact hs _ _ _ _ ih hstep

theorem Reachable.trans {s s' : σ} (h : Reachable step init s) (h' : Reachable step s s') :
    Reachable step init s' := by
  induction h' with
  | start => exact h
  | next _ hstep ih => exact .next ih hstep

namespace Trace
variable (T : Trace step init)

theorem reachable : ∀ {i : ℕ}, i ≤ T.len → Reachable step init (T.state i)
  | 0, _ => by rw [T.start]; exact .start
  | i + 1, h => .next (reachable (by omega)) (T.next i (by omega))

theorem invariant {P : σ → Prop} (h₀ : P init)
    (hs : ∀ s a s' es, P s → step s a = some (s', es) → P s') {i : ℕ} (hi : i ≤ T.len) :
    P (T.state i) :=
  (T.reachable hi).invariant h₀ hs

/-- The invariant rule of the runs whose steps all meet `G`, with another
    invariant `I` at hand. -/
theorem invariant_of {P I : σ → Prop} {G : σ → α → Prop} (hI : ∀ i ≤ T.len, I (T.state i))
    (hG : ∀ i < T.len, G (T.state i) (T.act i)) (h₀ : P init)
    (hs : ∀ s a s' es, I s → G s a → P s → step s a = some (s', es) → P s') {i : ℕ} (hi : i ≤ T.len) :
    P (T.state i) := by
  induction i with
  | zero =>
    rw [T.start]
    exact h₀
  | succ i ih => exact hs _ _ _ _ (hI i (by omega)) (hG i hi) (ih (by omega)) (T.next i hi)

/-- A preorder that every step from an invariant state respects relates the
    states of a trace in order. -/
theorem related {P : σ → Prop} {R : σ → σ → Prop} (hP : ∀ i ≤ T.len, P (T.state i))
    (hr : ∀ s, R s s) (ht : ∀ a b c, R a b → R b c → R a c)
    (hs : ∀ s a s' es, P s → step s a = some (s', es) → R s s') {i j : ℕ} (hij : i ≤ j)
    (hj : j ≤ T.len) : R (T.state i) (T.state j) := by
  induction j, hij using Nat.le_induction with
  | base => exact hr _
  | succ j hij ih =>
    exact ht _ _ _ (ih (by omega)) (hs _ _ _ _ (hP j (by omega)) (T.next j (by omega)))

/-- If `P` only starts where `Q` holds, then `P` has held since `Q` did. -/
theorem since {P Q : σ → Prop} (h₀ : P init → Q init)
    (hs : ∀ s a s' es, step s a = some (s', es) → P s' → P s ∨ Q s') {i : ℕ} (hi : i ≤ T.len)
    (hP : P (T.state i)) :
    ∃ k ≤ i, Q (T.state k) ∧ ∀ l, k ≤ l → l ≤ i → P (T.state l) := by
  induction i with
  | zero =>
    refine ⟨0, le_rfl, by rw [T.start] at hP ⊢; exact h₀ hP, fun l _ hl => ?_⟩
    rwa [Nat.le_zero.1 hl]
  | succ i ih =>
    rcases hs _ _ _ _ (T.next i (by omega)) hP with h | h
    · obtain ⟨k, hk, hQ, hP'⟩ := ih (by omega) h
      refine ⟨k, by omega, hQ, fun l hkl hl => ?_⟩
      rcases Nat.lt_or_eq_of_le hl with hl | rfl
      · exact hP' l hkl (by omega)
      · exact hP
    · refine ⟨i + 1, le_rfl, h, fun l hkl hl => ?_⟩
      rwa [Nat.le_antisymm hl hkl]

/-- What did not hold initially holds since some step. -/
theorem began {P : σ → Prop} (h₀ : ¬ P init) {i : ℕ} (hP : P (T.state i)) :
    ∃ j < i, ¬ P (T.state j) ∧ ∀ k, j < k → k ≤ i → P (T.state k) := by
  induction i with
  | zero =>
    rw [T.start] at hP
    exact absurd hP h₀
  | succ i ih =>
    by_cases h : P (T.state i)
    · obtain ⟨j, hj, hn, hk⟩ := ih h
      refine ⟨j, by omega, hn, fun k hjk hki => ?_⟩
      rcases Nat.lt_or_eq_of_le hki with hki | rfl
      · exact hk k hjk (by omega)
      · exact hP
    · refine ⟨i, by omega, h, fun k hik hki => ?_⟩
      rwa [Nat.le_antisymm hki hik]

/-- What holds at `i` and not before became true by a step in between. -/
theorem became {P : σ → Prop} {k i : ℕ} (hki : k ≤ i) (hk : ¬ P (T.state k)) (hi : P (T.state i)) :
    ∃ j, k ≤ j ∧ j < i ∧ ¬ P (T.state j) ∧ P (T.state (j + 1)) := by
  induction i, hki using Nat.le_induction with
  | base => exact absurd hi hk
  | succ i hki ih =>
    by_cases h : P (T.state i)
    · obtain ⟨j, hkj, hj, hn, hP⟩ := ih h
      exact ⟨j, hkj, by omega, hn, hP⟩
    · exact ⟨i, hki, by omega, h, hi⟩

/-! ### The history -/

/-- What was output before step `i`. -/
def past (i : ℕ) (e : ε) : Prop := ∃ k < i, e ∈ T.out k

theorem past_succ {i : ℕ} {e : ε} : T.past (i + 1) e ↔ T.past i e ∨ e ∈ T.out i := by
  constructor
  · rintro ⟨k, hk, he⟩
    rcases Nat.lt_succ_iff_lt_or_eq.1 hk with hk | rfl
    · exact Or.inl ⟨k, hk, he⟩
    · exact Or.inr he
  · rintro (⟨k, hk, he⟩ | he)
    · exact ⟨k, by omega, he⟩
    · exact ⟨i, by omega, he⟩

/-- **The invariant rule with history**: the property speaks of the state and
    of what was output before it. -/
theorem history {P : σ → (ε → Prop) → Prop} (h₀ : P init fun _ => False)
    (hs : ∀ s a s' es past, P s past → step s a = some (s', es) → P s' fun e => past e ∨ e ∈ es)
    {i : ℕ} (hi : i ≤ T.len) : P (T.state i) (T.past i) := by
  induction i with
  | zero =>
    have : T.past 0 = fun _ => False := by
      ext e
      simp [past]
    rw [this, T.start]
    exact h₀
  | succ i ih =>
    have : T.past (i + 1) = fun e => T.past i e ∨ e ∈ T.out i := by
      ext e
      exact T.past_succ
    rw [this]
    exact hs _ _ _ _ _ (ih (by omega)) (T.next i (by omega))

/-! ### Outputs in between -/

/-- What the steps from `i` on and before `j` output. -/
def outs (i j : ℕ) : List ε := (List.range' i (j - i)).flatMap T.out

@[simp] theorem outs_self (i : ℕ) : T.outs i i = [] := by simp [outs]

theorem outs_succ {i j : ℕ} (h : i ≤ j) : T.outs i (j + 1) = T.outs i j ++ T.out j := by
  have hj : i + (j - i) = j := by omega
  rw [outs, outs, Nat.succ_sub h, List.range'_concat, List.flatMap_append, Nat.one_mul, hj]
  simp

end Trace

/-! ## The run of a list of actions -/

/-- The state after the first `n` actions; an action that is not enabled is
    skipped. -/
def runTo (step : σ → α → Option (σ × List ε)) (init : σ) (acts : ℕ → α) : ℕ → σ
  | 0 => init
  | n + 1 => ((step (runTo step init acts n) (acts n)).map Prod.fst).getD (runTo step init acts n)

/-- A sequence of enabled actions is a run. -/
def Trace.ofActions (step : σ → α → Option (σ × List ε)) (init : σ) (acts : ℕ → α) (len : ℕ)
    (h : ∀ i < len, (step (runTo step init acts i) (acts i)).isSome) : Trace step init where
  len := len
  state := runTo step init acts
  act := acts
  out := fun n => ((step (runTo step init acts n) (acts n)).map Prod.snd).getD []
  start := rfl
  next := fun i hi => by
    obtain ⟨⟨s, es⟩, hs⟩ := Option.isSome_iff_exists.1 (h i hi)
    simp [runTo, hs]

end Machine
