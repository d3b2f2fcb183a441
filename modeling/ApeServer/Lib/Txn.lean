/-
  Transactions over a database and outside stores.

  A `Txn D X E α` runs on a working copy of the database `D` and on stores `X`
  outside the transaction.  Each statement can be the last one: `fuel` counts
  the statements before the connection fails (`Failure.fault`).  When the body
  throws, the working copy is dropped, while what was written to the outside
  stores stays (`transaction`); when `COMMIT` was applied but its answer is
  lost, the caller sees a failure although the changes are durable.

  `wp m Q R d x`: from `d` and `x`, for every number of statements before a
  fault, `m` ends normally in `Q` or throws in `R`.  The rules `wp_pure`,
  `wp_bind`, `wp_query_bind`, … follow the text of the program, and
  `transaction_cases` says what a transaction leaves behind.  `Throws P m` is
  about the errors of `m` alone; `bind_congr` compares two programs from the
  same state.
-/
import Mathlib.Tactic

/-- Why a transaction did not answer: the connection failed, or the program
    threw `e`. -/
inductive Failure (E : Type) where
  | fault
  | error (e : E)
deriving DecidableEq, Repr

/-- What a transaction runs in: the outside stores, and the number of
    statements before the connection fails. -/
structure Env (X : Type) where
  ext : X
  fuel : ℕ

/-- A computation inside a transaction. -/
def Txn (D X E α : Type) : Type :=
  D → Env X → Except (Failure E) (α × D) × Env X

namespace Txn

variable {D X E α β : Type}

instance : Monad (Txn D X E) where
  pure a := fun d e => (.ok (a, d), e)
  bind m k := fun d e =>
    match m d e with
    | (.ok (a, d'), e') => k a d' e'
    | (.error f, e') => (.error f, e')

/-- One statement is sent: the connection may fail here. -/
def tick : Txn D X E Unit := fun d e =>
  match e.fuel with
  | 0 => (.error .fault, e)
  | n + 1 => (.ok ((), d), { e with fuel := n })

/-- A statement that reads. -/
def query (f : D → α) : Txn D X E α := do tick; fun d e => (.ok (f d, d), e)

/-- A statement that writes, with its answer (such as the affected rows). -/
def exec (f : D → α × D) : Txn D X E α := do tick; fun d e => (.ok (f d), e)

/-- A statement that the database may refuse. -/
def attempt (err : E) (f : D → Option (α × D)) : Txn D X E α := do
  tick
  fun d e => match f d with
    | some r => (.ok r, e)
    | none => (.error (.error err), e)

/-- A call of an outside store. -/
def effect (f : X → α × X) : Txn D X E α := do
  tick
  fun d e => (.ok ((f e.ext).1, d), { e with ext := (f e.ext).2 })

/-- Throw `err`. -/
def fail (err : E) : Txn D X E α := fun _ e => (.error (.error err), e)

/-- Run `m` as one transaction: `COMMIT` is a statement of its own, and its
    answer may be lost after it was applied. -/
def transaction (m : Txn D X E α) (lost : Bool) (d : D) (x : X) (fuel : ℕ) :
    Except (Failure E) α × D × X :=
  match (do let a ← m; tick; pure a : Txn D X E α) d ⟨x, fuel⟩ with
  | (.ok (a, d'), e) => (if lost then .error .fault else .ok a, d', e.ext)
  | (.error f, e) => (.error f, d, e.ext)

/-! ## Pre- and postconditions -/

/-- From `d` and `x`, and wherever the connection fails, `m` ends in `Q` or
    throws in `R`. -/
def wp (m : Txn D X E α) (Q : α → D → X → Prop) (R : Failure E → X → Prop) (d : D) (x : X) :
    Prop :=
  ∀ n, match m d ⟨x, n⟩ with
    | (.ok (a, d'), e) => Q a d' e.ext
    | (.error f, e) => R f e.ext

variable {Q : α → D → X → Prop} {R : Failure E → X → Prop} {d : D} {x : X}

theorem wp_pure {a : α} (h : Q a d x) : wp (pure a) Q R d x := fun _ => h

theorem wp_fail {err : E} (h : R (.error err) x) : wp (fail err : Txn D X E α) Q R d x :=
  fun _ => h

theorem wp_bind {m : Txn D X E β} {k : β → Txn D X E α}
    (h : wp m (fun b d' x' => wp (k b) Q R d' x') R d x) : wp (m >>= k) Q R d x := by
  intro n
  have := h n
  simp only [bind]
  revert this
  split
  · next b d' e he =>
    intro hq
    exact hq e.fuel
  · next f e he => exact id

theorem wp_mono {m : Txn D X E α} {Q' : α → D → X → Prop} {R' : Failure E → X → Prop}
    (h : wp m Q R d x) (hQ : ∀ a d' x', Q a d' x' → Q' a d' x') (hR : ∀ f x', R f x' → R' f x') :
    wp m Q' R' d x := by
  intro n
  have := h n
  revert this
  split
  · exact hQ _ _ _
  · exact hR _ _

theorem wp_tick {Q : Unit → D → X → Prop} (hf : R .fault x) (h : Q () d x) :
    wp tick Q R d x := by
  intro n
  cases n with
  | zero => exact hf
  | succ n => exact h

theorem wp_query {f : D → α} (hf : R .fault x) (h : Q (f d) d x) : wp (query f) Q R d x :=
  wp_bind (wp_tick hf fun _ => h)

theorem wp_exec {f : D → α × D} (hf : R .fault x) (h : Q (f d).1 (f d).2 x) :
    wp (exec f) Q R d x :=
  wp_bind (wp_tick hf fun _ => h)

theorem wp_attempt {err : E} {f : D → Option (α × D)} (hf : R .fault x) (he : R (.error err) x)
    (h : ∀ a d', f d = some (a, d') → Q a d' x) : wp (attempt err f) Q R d x := by
  refine wp_bind (wp_tick hf fun n => ?_)
  dsimp only
  cases hd : f d with
  | none => exact he
  | some r => exact h r.1 r.2 hd

theorem wp_effect {f : X → α × X} (hf : R .fault x) (h : Q (f x).1 d (f x).2) :
    wp (effect f) Q R d x :=
  wp_bind (wp_tick hf fun _ => h)

theorem wp_query_bind {f : D → β} {k : β → Txn D X E α} (hf : R .fault x)
    (h : wp (k (f d)) Q R d x) : wp (query f >>= k) Q R d x :=
  wp_bind (wp_query hf h)

theorem wp_exec_bind {f : D → β × D} {k : β → Txn D X E α} (hf : R .fault x)
    (h : wp (k (f d).1) Q R (f d).2 x) : wp (exec f >>= k) Q R d x :=
  wp_bind (wp_exec hf h)

theorem wp_attempt_bind {err : E} {f : D → Option (β × D)} {k : β → Txn D X E α} (hf : R .fault x)
    (he : R (.error err) x) (h : ∀ b d', f d = some (b, d') → wp (k b) Q R d' x) :
    wp (attempt err f >>= k) Q R d x :=
  wp_bind (wp_attempt hf he h)

theorem wp_effect_bind {f : X → β × X} {k : β → Txn D X E α} (hf : R .fault x)
    (h : wp (k (f x).1) Q R d (f x).2) : wp (effect f >>= k) Q R d x :=
  wp_bind (wp_effect hf h)

theorem wp_and {m : Txn D X E α} {Q' : α → D → X → Prop} {R' : Failure E → X → Prop}
    (h : wp m Q R d x) (h' : wp m Q' R' d x) :
    wp m (fun a d' x' => Q a d' x' ∧ Q' a d' x') (fun f x' => R f x' ∧ R' f x') d x := by
  intro n
  have := h n
  have := h' n
  split <;> simp_all

/-- A loop keeps what each of its rounds keeps. -/
theorem wp_forM {l : List β} {f : β → Txn D X E PUnit} {I : D → X → Prop}
    (hf : ∀ b ∈ l, ∀ d x, I d x → wp (f b) (fun _ d' x' => I d' x') R d x) :
    ∀ {d x}, I d x → wp (l.forM f) (fun _ d' x' => I d' x') R d x := by
  induction l with
  | nil => exact fun h => wp_pure h
  | cons b l ih =>
    intro d x h
    refine wp_bind (wp_mono (hf b List.mem_cons_self d x h) (fun _ d' x' h' => ?_) fun _ _ hr => hr)
    exact ih (fun b' hb' => hf b' (List.mem_cons_of_mem _ hb')) h'

/-- **What a transaction leaves behind.**  It answers, and its changes are
    durable; or it fails, and either the database is untouched, with the
    stores as the body left them, or only the answer was lost. -/
theorem transaction_cases {m : Txn D X E α} (h : wp m Q R d x) (lost : Bool) (fuel : ℕ) :
    (∃ a d' x', transaction m lost d x fuel = (.ok a, d', x') ∧ Q a d' x') ∨
    (∃ f x', transaction m lost d x fuel = (.error f, d, x') ∧ (R f x' ∨ ∃ a d', Q a d' x')) ∨
    (lost = true ∧ ∃ a d' x', transaction m lost d x fuel = (.error .fault, d', x') ∧ Q a d' x') := by
  have h' : wp (do let a ← m; tick; pure a : Txn D X E α) Q
      (fun f x' => R f x' ∨ ∃ a d', Q a d' x') d x := by
    refine wp_bind (wp_mono h (fun a d' x' hq => ?_) fun f x' hr => Or.inl hr)
    exact wp_bind (wp_tick (Or.inr ⟨a, d', hq⟩) (wp_pure hq))
  have h'' := h' fuel
  unfold transaction
  revert h''
  split
  · next a d' e he =>
    intro hq
    cases lost with
    | false => exact Or.inl ⟨a, d', e.ext, rfl, hq⟩
    | true => exact Or.inr (Or.inr ⟨rfl, a, d', e.ext, rfl, hq⟩)
  · next f e he => exact fun hr => Or.inr (Or.inl ⟨f, e.ext, rfl, hr⟩)

/-- What a transaction that fails threw. -/
theorem transaction_throws {m : Txn D X E α} (h : wp m Q R d x) (hf : ∀ x, R .fault x) {lost : Bool}
    {fuel : ℕ} {f : Failure E} (he : (transaction m lost d x fuel).1 = .error f) : ∃ x', R f x' := by
  have h' : wp (do let a ← m; tick; pure a : Txn D X E α) (fun _ _ _ => True) R d x :=
    wp_bind (wp_mono h (fun a d' x' _ => wp_bind (wp_tick (hf x') (wp_pure trivial))) fun _ _ hr => hr)
  have h'' := h' fuel
  unfold transaction at he
  revert h'' he
  split
  · next a d' e _ =>
    intro he _
    cases lost with
    | false => cases he
    | true =>
      cases he
      exact ⟨e.ext, hf _⟩
  · next f' e _ =>
    intro he hr
    cases he
    exact ⟨e.ext, hr⟩

/-! ## Errors -/

/-- Whatever happens, `m` only throws errors in `P`. -/
def Throws (P : E → Prop) (m : Txn D X E α) : Prop :=
  ∀ d x, wp m (fun _ _ _ => True) (fun f _ => ∀ err, f = .error err → P err) d x

section
variable {P : E → Prop}

theorem Throws.pure (a : α) : Throws P (pure a : Txn D X E α) := fun _ _ => wp_pure trivial

theorem Throws.fail {err : E} (h : P err) : Throws P (fail err : Txn D X E α) :=
  fun _ _ => wp_fail fun _ he => by cases he; exact h

theorem Throws.bind {m : Txn D X E β} {k : β → Txn D X E α} (h : Throws P m)
    (hk : ∀ b, Throws P (k b)) : Throws P (m >>= k) :=
  fun d x => wp_bind (wp_mono (h d x) (fun b d' x' _ => hk b d' x') fun _ _ hr => hr)

theorem Throws.query (f : D → α) : Throws P (query f : Txn D X E α) :=
  fun _ _ => wp_query (fun _ he => by cases he) trivial

theorem Throws.exec (f : D → α × D) : Throws P (exec f : Txn D X E α) :=
  fun _ _ => wp_exec (fun _ he => by cases he) trivial

theorem Throws.attempt {err : E} (h : P err) (f : D → Option (α × D)) :
    Throws P (attempt err f : Txn D X E α) :=
  fun _ _ => wp_attempt (fun _ he => by cases he) (fun _ he => by cases he; exact h) fun _ _ _ => trivial

end

/-! ## Equal behaviour -/

/-- Two continuations that agree wherever `m` ends. -/
theorem bind_congr {m : Txn D X E β} {k k' : β → Txn D X E α}
    (h : ∀ x, wp m (fun b d' _ => k b d' = k' b d') (fun _ _ => True) d x) :
    (m >>= k) d = (m >>= k') d := by
  funext e
  have hk := h e.ext e.fuel
  change (match m d e with | (.ok (b, d'), e') => k b d' e' | (.error f, e') => (.error f, e'))
    = match m d e with | (.ok (b, d'), e') => k' b d' e' | (.error f, e') => (.error f, e')
  rcases hm : m d e with ⟨_ | ⟨b, d'⟩, e'⟩
  · rfl
  · rw [hm] at hk
    exact congrFun hk e'

/-- Two bodies that agree from here. -/
theorem bind_congr_left {m m' : Txn D X E β} (k : β → Txn D X E α) (h : m d = m' d) :
    (m >>= k) d = (m' >>= k) d := by
  funext e
  simp only [bind, h]

/-- Two reads that agree here, and so do their continuations. -/
theorem query_congr {f f' : D → β} {k k' : β → Txn D X E α} (hf : f d = f' d)
    (h : k (f d) d = k' (f d) d) : (query f >>= k) d = (query f' >>= k') d := by
  refine (bind_congr fun _ => wp_query trivial h).trans (bind_congr_left k' ?_)
  exact bind_congr fun _ => wp_tick trivial (by rw [hf])

theorem exec_congr {f f' : D → β × D} {k k' : β → Txn D X E α} (hf : f d = f' d)
    (h : k (f d).1 (f d).2 = k' (f d).1 (f d).2) : (exec f >>= k) d = (exec f' >>= k') d := by
  refine (bind_congr fun _ => wp_exec trivial h).trans (bind_congr_left k' ?_)
  exact bind_congr fun _ => wp_tick trivial (by rw [hf])

theorem attempt_congr {err : E} {f f' : D → Option (β × D)} {k : β → Txn D X E α} (hf : f d = f' d) :
    (attempt err f >>= k) d = (attempt err f' >>= k) d := by
  refine bind_congr_left k (bind_congr fun _ => wp_tick trivial ?_)
  funext e
  simp only [hf]

/-! ## Running -/

theorem run_bind {m : Txn D X E β} {k : β → Txn D X E α} {b : β} {d' : D} {e e' : Env X}
    (h : m d e = (.ok (b, d'), e')) : (m >>= k) d e = k b d' e' := by
  simp only [bind, h]

theorem query_run (f : D → α) (d : D) {x : X} (n : ℕ) :
    (query f : Txn D X E α) d ⟨x, n + 1⟩ = (.ok (f d, d), ⟨x, n⟩) := rfl

/-- A body that leaves a statement for `COMMIT` is committed. -/
theorem transaction_run {m : Txn D X E α} {lost : Bool} {fuel n : ℕ} {a : α} {d' : D} {x' : X}
    (h : m d ⟨x, fuel⟩ = (.ok (a, d'), ⟨x', n⟩)) :
    transaction m lost d x fuel
      = if n = 0 then (.error .fault, d, x') else (if lost then .error .fault else .ok a, d', x') := by
  unfold transaction
  rw [run_bind h]
  cases n <;> rfl

/-- A body that throws is rolled back. -/
theorem transaction_error {m : Txn D X E α} {lost : Bool} {fuel : ℕ} {f : Failure E} {e : Env X}
    (h : m d ⟨x, fuel⟩ = (.error f, e)) : transaction m lost d x fuel = (.error f, d, e.ext) := by
  unfold transaction
  simp only [bind, h]

end Txn
