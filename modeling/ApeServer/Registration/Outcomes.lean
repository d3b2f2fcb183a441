/-
  What a step of registration can do to the tables and to its call.

  * `Phase.Next`: how a call goes on when nothing is written;
  * `Commits`: the calls that are about to commit, with their write;
  * `step_spec`: a step moves one call, commits its write, or settles one.
-/
import ApeServer.Registration.Steps

namespace ApeServer.Registration

open Table

/-- Where a statement of `once` leads, other than `COMMIT`. -/
def Input.Next (sha256 : String → Bytes) (db : RegDb) (input : Input) : Phase → Prop
  | .once input' _ _ _ | .classify input' => input' = input
  | .refill input' _ _ _ => input' = some input
  | .returned input' result => input' = input ∧ Recorded sha256 db input result
  | .threw input' e => input' = some input ∧ e ≠ .error uncertain
  | _ => False

/-- Where a call goes from a phase without a `COMMIT`. -/
def Phase.Next (sha256 : String → Bytes) (db : RegDb) : Phase → Phase → Prop
  | idle, next => (∃ input, next = once input false 0 .start) ∨ ∃ batch, next = refill none batch 0 .start
  | once input _ _ _, next => input.Next sha256 db next
  | refill input _ _ _, next => next = afterRefill input ∨
      (∃ batch attempt stage, next = refill input batch attempt stage) ∨
      ∃ e, next = threw input e ∧ e ≠ .error uncertain
  | classify input, next => ∃ e, next = threw (some input) e ∧ e ≠ .error uncertain
  | unsure input, next => (∃ result, next = returned input result ∧ Recorded sha256 db input result) ∨
      next = threw (some input) (.error uncertain)
  | _, _ => False

/-- A call at its `COMMIT`: what it writes, and how it goes on when it is
    answered or not. -/
inductive Commits : Phase → Write → Phase → Phase → Prop
  | user (input : Input) (second : Bool) (attempt id account userID : ℕ) :
      Commits (.once input second attempt (.filled id account userID)) (.user input id account userID)
        (.returned input ⟨userID, account⟩) (.unsure input)
  | accounts (input : Option Input) (batch attempt finish : ℕ) (rows : List PoolRow) :
      Commits (.refill input batch attempt (.inserting finish rows [])) (.accounts finish rows)
        (afterRefill input) (.threw input (.error ⟨"REFILL_UNCERTAIN",
          "Refill outcome unknown; retry registration with the same request ID"⟩))

/-- One call goes on, and the tables stay. -/
structure Quiet (sha256 : String → Bytes) (w w' : World) (k : ℕ) : Prop where
  db : w'.db = w.db
  moves : ∃ phase, w'.calls = Function.update w.calls k { w.calls k with phase := phase } ∧
    (w.calls k).phase.Next sha256 w.db phase

section
variable {sha256 : String → Bytes} {w w' : World} {k : ℕ}

theorem Quiet.of_phase {phase phase' : Phase} (hp : (w.calls k).phase = phase)
    (hdb : w'.db = w.db) (hcalls : w'.calls = Function.update w.calls k { w.calls k with phase := phase' })
    (hn : phase.Next sha256 w.db phase') : Quiet sha256 w w' k :=
  ⟨hdb, phase', hcalls, by rw [hp]; exact hn⟩

theorem OnceEnd.next {db : RegDb} {input : Input} {phase : Phase} (h : OnceEnd sha256 db input phase) :
    input.Next sha256 db phase := by
  cases h with
  | returned recorded => exact ⟨rfl, recorded⟩
  | threw known => exact ⟨rfl, fun he => known (Thrown.error.inj he)⟩
  | classify => rfl
  | refill => rfl

theorem OnceMove.spec {input : Input} {second acked : Bool} {attempt : ℕ} {stage : Stage}
    (hp : (w.calls k).phase = .once input second attempt stage)
    (hm : OnceMove sha256 w k acked input second attempt stage w') :
    Quiet sha256 w w' k ∨ ∃ write done lost, Commits (w.calls k).phase write done lost ∧
      w' = w.commit sha256 k acked write done lost := by
  cases hm with
  | ends how => exact Or.inl (.of_phase hp rfl rfl how.next)
  | commits =>
    right
    rw [hp]
    exact ⟨_, _, _, .user input second attempt _ _ _, rfl⟩
  | _ => exact Or.inl (.of_phase hp rfl rfl rfl)

theorem RefillMove.spec {input : Option Input} {batch attempt : ℕ} {stage : RefillStage}
    (hp : (w.calls k).phase = .refill input batch attempt stage) {acked : Bool} {accounts : List ℕ}
    (hm : RefillMove sha256 w k acked accounts input batch attempt stage w') :
    Quiet sha256 w w' k ∨ ∃ write done lost, Commits (w.calls k).phase write done lost ∧
      w' = w.commit sha256 k acked write done lost := by
  cases hm with
  | throws known => exact Or.inl (.of_phase hp rfl rfl (Or.inr (Or.inr ⟨_, rfl, known⟩)))
  | enough => exact Or.inl (.of_phase hp rfl rfl (Or.inl rfl))
  | commits =>
    right
    rw [hp]
    exact ⟨_, _, _, .accounts input batch attempt _ _, rfl⟩
  | _ => exact Or.inl (.of_phase hp rfl rfl (Or.inr (Or.inl ⟨_, _, _, rfl⟩)))

theorem runCall_spec {rolledBack acked : Bool} {accounts : List ℕ}
    (hs : runCall sha256 w k rolledBack acked accounts (w.calls k).phase = some w') :
    Quiet sha256 w w' k ∨ ∃ write done lost, Commits (w.calls k).phase write done lost ∧
      w' = w.commit sha256 k acked write done lost := by
  cases hp : (w.calls k).phase with
  | once =>
    rw [hp] at hs
    rw [← hp]
    exact (stepOnce_cases hs).spec hp
  | refill =>
    rw [hp] at hs
    rw [← hp]
    exact (stepRefill_cases hs).spec hp
  | classify input =>
    rw [hp] at hs
    cases hs
    refine Or.inl (.of_phase hp rfl rfl ⟨_, rfl, ?_⟩)
    split_ifs <;> decide
  | unsure input =>
    rw [hp] at hs
    simp only [runCall] at hs
    split at hs <;> cases hs
    · next result hr =>
      refine Or.inl (.of_phase hp rfl rfl (Or.inl ⟨result, rfl, ?_⟩))
      unfold lookup at hr
      split_ifs at hr
      obtain ⟨row, hf, hrow⟩ := Option.bind_eq_some_iff.1 hr
      split_ifs at hrow with hv
      exact ⟨row, List.mem_of_find?_eq_some hf, by simpa using List.find?_some hf, hv, hrow⟩
    · exact Or.inl (.of_phase hp rfl rfl (Or.inr rfl))
  | _ => rw [hp] at hs; cases hs

theorem failOnce_spec {input : Input} {second : Bool} {attempt : ℕ} {stage : Stage}
    (hp : (w.calls k).phase = .once input second attempt stage) (e : SqlError) (rolledBack : Bool) :
    Quiet sha256 w (failOnce w k e rolledBack input second attempt) k := by
  unfold failOnce
  split_ifs
  · exact .of_phase hp rfl rfl rfl
  · exact .of_phase hp rfl rfl ⟨rfl, by decide⟩
  · exact .of_phase hp rfl rfl ⟨rfl, by simp⟩

theorem failRefill_spec {input : Option Input} {batch attempt : ℕ} {stage : RefillStage}
    (hp : (w.calls k).phase = .refill input batch attempt stage) (e : SqlError) (rolledBack : Bool) :
    Quiet sha256 w (failRefill w k e rolledBack input batch attempt) k := by
  unfold failRefill
  split_ifs
  · exact .of_phase hp rfl rfl (Or.inr (Or.inl ⟨_, _, _, rfl⟩))
  · exact .of_phase hp rfl rfl (Or.inr (Or.inr ⟨_, rfl, by decide⟩))
  · exact .of_phase hp rfl rfl (Or.inr (Or.inr ⟨_, rfl, by simp⟩))

theorem failCall_spec {e : SqlError} {rolledBack : Bool}
    (hs : failCall w k e rolledBack (w.calls k).phase = some w') : Quiet sha256 w w' k := by
  cases hp : (w.calls k).phase with
  | once input second attempt stage =>
    rw [hp] at hs
    cases stage <;> cases hs
    all_goals exact failOnce_spec hp e rolledBack
  | refill input batch attempt stage =>
    rw [hp] at hs
    simp only [failCall] at hs
    split at hs
    all_goals try contradiction
    next heq =>
      cases heq
      cases hs
      exact failRefill_spec hp e rolledBack
  | _ => rw [hp] at hs; cases hs

end

/-- The call of an action. -/
def Action.call : Action → ℕ
  | register k _ | refillAccounts k _ | run k _ _ _ | fail k _ _ | settle k _ => k

/-- **What a step can do.** -/
theorem step_spec {sha256 : String → Bytes} {w w' : World} {a : Action} {es : List Unit}
    (hs : step sha256 w a = some (w', es)) :
    Quiet sha256 w w' a.call ∨
    (∃ acked write done lost, Commits (w.calls a.call).phase write done lost ∧
      w' = w.commit sha256 a.call acked write done lost) ∨
    ∃ applied write, (w.calls a.call).limbo = some write ∧ w' = w.settle sha256 a.call applied write := by
  cases a with
  | register k input =>
    simp only [step] at hs
    split_ifs at hs with hidle
    cases hs
    exact Or.inl (.of_phase hidle rfl rfl (Or.inl ⟨_, rfl⟩))
  | refillAccounts k batch =>
    simp only [step] at hs
    split_ifs at hs with hidle
    cases hs
    exact Or.inl (.of_phase hidle rfl rfl (Or.inr ⟨_, rfl⟩))
  | run k rolledBack acked accounts =>
    obtain ⟨w₁, hw, he⟩ := Option.map_eq_some_iff.1 hs
    cases he
    rcases runCall_spec hw with h | ⟨write, done, lost, hc, rfl⟩
    · exact Or.inl h
    · exact Or.inr (Or.inl ⟨acked, write, done, lost, hc, rfl⟩)
  | fail k e rolledBack =>
    simp only [step] at hs
    split_ifs at hs
    obtain ⟨w₁, hw, he⟩ := Option.map_eq_some_iff.1 hs
    cases he
    exact Or.inl (failCall_spec hw)
  | settle k applied =>
    obtain ⟨write, hl, he⟩ := Option.map_eq_some_iff.1 hs
    cases he
    exact Or.inr (Or.inr ⟨applied, write, hl, rfl⟩)

end ApeServer.Registration
