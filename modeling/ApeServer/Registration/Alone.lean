/-
  A call of registration on its own: no other call takes a step, and no
  statement fails but those that the server has to refuse.

  MySQL in strict mode refuses a text with more characters than its column has.

  * `Input.refused`: the statements of `once` that have such a text;
  * `alone`: the next statement of the call; what it leads to is a function of
    the shuffled batch (`ends_unique`);
  * `Along`: a call on its way, with nothing committed.
-/
import ApeServer.Registration.ExactlyOnce
import Mathlib.Computability.StateTransition

namespace ApeServer.Registration

open StateTransition Relation

/-! ## Strict mode -/

/-- A text with more characters than its column. -/
def tooLong (width : ℕ) (s : String) : Bool := width < s.length

theorem tooLong_of_le {width : ℕ} {s : String} (h : s.length ≤ width) : tooLong width s = false := by
  simpa [tooLong] using h

/-- The server refuses the statement that comes after the stage. -/
def Input.refused (sha256 : String → Bytes) (input : Input) : Stage → Bool
  | .start =>
    -- `request_id VARCHAR(64)`, `payload_salt VARCHAR(64)`, `payload_hash CHAR(64)`
    tooLong 64 input.requestID || tooLong 64 input.user.passwordSalt ||
      tooLong 64 (digest sha256 input.user.passwordSalt input.payload)
  | .picked _ _ =>
    -- `nickname VARCHAR(64)`, `phone VARCHAR(11)`, `password_hash VARCHAR(255)`, `password_salt VARCHAR(64)`
    tooLong 64 input.user.nickname || tooLong 11 input.user.phone ||
      tooLong 255 input.user.passwordHash || tooLong 64 input.user.passwordSalt
  | _ => false

def Phase.refused (sha256 : String → Bytes) : Phase → Bool
  | .once input _ _ stage => input.refused sha256 stage
  | _ => false

/-! ## A call on its own -/

/-- The next statement of the call; `accounts` is the batch of its refill. -/
def alone (sha256 : String → Bytes) (k : ℕ) (accounts : List ℕ) (w : World) : Option World :=
  (step sha256 w (if (w.calls k).phase.refused sha256 then .fail k .other true
    else .run k true true accounts)).map Prod.fst

/-- A call on its way from `w₀`, with nothing committed. -/
structure Along (sha256 : String → Bytes) (accounts : List ℕ) (w₀ w : World) (k : ℕ) (phase : Phase) :
    Prop where
  reach : Reaches (alone sha256 k accounts) w₀ w
  db : w.db = w₀.db
  phase : (w.calls k).phase = phase
  limbo : (w.calls k).limbo = none
  locks : ∀ l, w₀.available k l = true → w.available k l = true
  rises : Rises w₀ w

section
variable {sha256 : String → Bytes} {accounts : List ℕ} {w₀ w w' : World} {k : ℕ}

theorem alone_once {input : Input} {second : Bool} {attempt : ℕ} {stage : Stage}
    (hp : (w.calls k).phase = .once input second attempt stage)
    (hr : input.refused sha256 stage = false) :
    alone sha256 k accounts w = stepOnce sha256 w k true true input second attempt stage := by
  simp [alone, step, hp, Phase.refused, hr, runCall, Function.comp_def]

theorem alone_refused {input : Input} {second : Bool} {id account : ℕ}
    (hp : (w.calls k).phase = .once input second 0 (.picked id account))
    (hr : input.refused sha256 (.picked id account) = true) :
    alone sha256 k accounts w = some (w.finish k (.threw (some input) (.sql .other))) := by
  simp [alone, step, hp, Phase.refused, hr, failCall, failOnce]

theorem alone_refill {input : Option Input} {batch attempt : ℕ} {stage : RefillStage}
    (hp : (w.calls k).phase = .refill input batch attempt stage) :
    alone sha256 k accounts w = stepRefill sha256 w k true true accounts input batch attempt stage := by
  simp [alone, step, hp, Phase.refused, runCall, Function.comp_def]

/-- A call that has ended takes no step. -/
theorem alone_final (hf : (w.calls k).phase.Final) : alone sha256 k accounts w = none := by
  cases hp : (w.calls k).phase with
  | returned | threw => simp [alone, step, hp, Phase.refused, runCall]
  | _ =>
    rw [hp] at hf
    exact hf.elim

/-- A call ends in one way. -/
theorem ends_unique (h : Reaches (alone sha256 k accounts) w₀ w) (hf : (w.calls k).phase.Final)
    (h' : Reaches (alone sha256 k accounts) w₀ w') (hf' : (w'.calls k).phase.Final) : w = w' :=
  Part.mem_unique (mem_eval.2 ⟨h, alone_final hf⟩) (mem_eval.2 ⟨h', alone_final hf'⟩)

/-- Wherever a call is on its way, it gets to its end. -/
theorem reaches_end (h : Reaches (alone sha256 k accounts) w₀ w) (h' : Reaches (alone sha256 k accounts) w₀ w')
    (hf : (w'.calls k).phase.Final) : Reaches (alone sha256 k accounts) w w' := by
  rcases reaches_total h h' with hr | hr
  · exact hr
  · have hend : w' ∈ eval (alone sha256 k accounts) w' := mem_eval.2 ⟨.refl, alone_final hf⟩
    rw [(eval_maximal hend).1 hr]
    exact .refl

theorem available_release {l : Lock} (h : w.available k l = true) :
    (w.release k).available k l = true := by
  simp only [World.available, World.release, Bool.or_eq_true, decide_eq_true_eq] at h ⊢
  split_ifs with hl
  · exact Or.inl rfl
  · exact Or.inl (by simpa [hl] using h)

namespace Along

theorem start {phase : Phase} (hp : (w.calls k).phase = phase) (hl : (w.calls k).limbo = none) :
    Along sha256 accounts w w k phase :=
  ⟨.refl, rfl, hp, hl, fun _ h => h, ⟨le_rfl, le_rfl⟩⟩

theorem next {phase phase' : Phase} (h : Along sha256 accounts w₀ w k phase)
    (hs : alone sha256 k accounts w = some (w'.setPhase k phase')) (hdb : w'.db = w.db)
    (hc : w'.calls = w.calls) (hl : ∀ l, w.available k l = true → w'.available k l = true)
    (hr : Rises w w') : Along sha256 accounts w₀ (w'.setPhase k phase') k phase' where
  reach := .tail h.reach hs
  db := hdb.trans h.db
  phase := setPhase_phase _ _ _
  limbo := by simp [World.setPhase, hc, h.limbo]
  locks := fun l hl' => hl l (h.locks l hl')
  rises := ⟨h.rises.users.trans hr.users, h.rises.pool.trans hr.pool⟩

end Along

end

end ApeServer.Registration
