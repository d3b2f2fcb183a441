/-
  What a statement of the two transactions can do: inversion of `stepOnce` and
  `stepRefill`.

  * `OnceMove`, `stepOnce_cases`: the statements of `once`;
  * `RefillMove`, `stepRefill_cases`: those of `refill`;
  * `stepOnce_opens` to `stepOnce_allocates`: what they do for a new registration.
-/
import ApeServer.Registration.Machine

namespace ApeServer.Registration

open Table

/-- The ledger has the result of the request. -/
def Recorded (sha256 : String → Bytes) (db : RegDb) (input : Input) (result : Result) : Prop :=
  ∃ row ∈ db.requests, row.requestID = input.requestID ∧ verified sha256 input row = true ∧
    row.result? = some result

/-- How `once` ends before its `COMMIT`. -/
inductive OnceEnd (sha256 : String → Bytes) (db : RegDb) (input : Input) : Phase → Prop
  | returned {result : Result} (recorded : Recorded sha256 db input result) :
      OnceEnd sha256 db input (.returned input result)
  | threw {e : RegError} (known : e ≠ uncertain) : OnceEnd sha256 db input (.threw (some input) (.error e))
  | classify : OnceEnd sha256 db input (.classify input)
  | refill : OnceEnd sha256 db input (.refill (some input) kRefillBatch 0 .start)

/-- The rows of one `INSERT INTO account_pool`. -/
def newRows (nextPoolID : ℕ) (accounts : List ℕ) : List PoolRow :=
  (accounts.zipIdx nextPoolID).map fun (account, id) => ⟨id, account, 0⟩

section
variable (sha256 : String → Bytes) (w : World) (k : ℕ) (acked : Bool)

/-- What a statement of `once` does. -/
inductive OnceMove (input : Input) (second : Bool) (attempt : ℕ) : Stage → World → Prop
  | ends {stage : Stage} {phase : Phase} (how : OnceEnd sha256 w.db input phase) :
      OnceMove input second attempt stage (w.finish k phase)
  | opens (free : w.available k (.request input.requestID) = true) :
      OnceMove input second attempt .start
        ((w.acquire k (.request input.requestID)).setPhase k (.once input second attempt .opened))
  | verifies (unused : (requestRow sha256 w.db input).result? = none) :
      OnceMove input second attempt .opened (w.setPhase k (.once input second attempt .verified))
  | phone (unused : w.db.phoneExists input.user.phone = false) :
      OnceMove input second attempt .verified (w.setPhase k (.once input second attempt .phoneFree))
  | picks {p : PoolRow} (first : w.db.firstFree = some p) (free : w.available k (.pool p.id) = true) :
      OnceMove input second attempt .phoneFree
        ((w.acquire k (.pool p.id)).setPhase k (.once input second attempt (.picked p.id p.account)))
  | inserts {id account : ℕ}
      (free : w.available k (.phone input.user.phone) = true ∧ w.available k (.account account) = true)
      (unused : w.db.phoneExists input.user.phone = false) :
      OnceMove input second attempt (.picked id account)
        (World.setPhase { ((w.acquire k (.phone input.user.phone)).acquire k (.account account)).acquire k
          (.user w.nextUserID) with nextUserID := w.nextUserID + 1 } k
          (.once input second attempt (.inserted id account w.nextUserID)))
  | allocates {id account userID : ℕ} :
      OnceMove input second attempt (.inserted id account userID)
        (w.setPhase k (.once input second attempt (.allocated id account userID)))
  | fills {id account userID : ℕ} :
      OnceMove input second attempt (.allocated id account userID)
        (w.setPhase k (.once input second attempt (.filled id account userID)))
  | commits {id account userID : ℕ} :
      OnceMove input second attempt (.filled id account userID)
        (w.commit sha256 k acked (.user input id account userID) (.returned input ⟨userID, account⟩)
          (.unsure input))

/-- What a statement of `refill` does. -/
inductive RefillMove (accounts : List ℕ) (input : Option Input) (batch attempt : ℕ) :
    RefillStage → World → Prop
  | throws {stage : RefillStage} {e : Thrown} (known : e ≠ .error uncertain) :
      RefillMove accounts input batch attempt stage (w.finish k (.threw input e))
  | locks (bound : batch ≤ kRefillBatch) (free : w.available k .cursor = true) :
      RefillMove accounts input batch attempt .start
        ((w.acquire k .cursor).setPhase k (.refill input batch attempt (.locked w.db.nextStart)))
  | enough {start : ℕ} :
      RefillMove accounts input batch attempt (.locked start) (w.finish k (afterRefill input))
  | counts {start : ℕ} (low : w.db.freeCount < kLowWaterMark) :
      RefillMove accounts input batch attempt (.locked start)
        (w.setPhase k (.refill input batch attempt (.counted start)))
  | checks {start maximum : ℕ} (bound : start ≤ kMaxAccount) (max : w.db.maximum = some maximum) :
      RefillMove accounts input batch attempt (.counted start)
        (w.setPhase k (.refill input batch attempt (.checked start)))
  | shuffles {start : ℕ} (perm : accounts.Perm (List.range' start (min batch (kMaxAccount - start + 1)))) :
      RefillMove accounts input batch attempt (.checked start)
        (w.setPhase k (.refill input batch attempt
          (.inserting (start + min batch (kMaxAccount - start + 1)) [] accounts)))
  | commits {finish : ℕ} {rows : List PoolRow} :
      RefillMove accounts input batch attempt (.inserting finish rows [])
        (w.commit sha256 k acked (.accounts finish rows) (afterRefill input)
          (.threw input (.error ⟨"REFILL_UNCERTAIN",
            "Refill outcome unknown; retry registration with the same request ID"⟩)))
  | inserts {finish : ℕ} {rows : List PoolRow} {rest : List ℕ} :
      RefillMove accounts input batch attempt (.inserting finish rows rest)
        (World.setPhase { w with nextPoolID := w.nextPoolID + (rest.take 1000).length } k
          (.refill input batch attempt (.inserting finish (rows ++ newRows w.nextPoolID (rest.take 1000))
            (rest.drop 1000))))

end

section
variable {sha256 : String → Bytes} {w w' : World} {k : ℕ} {rolledBack acked : Bool} {attempt : ℕ}

/-- A result that `once` reads is in the ledger. -/
theorem recorded_of_requestRow {db : RegDb} {input : Input} {result : Result}
    (hv : verified sha256 input (requestRow sha256 db input) = true)
    (hr : (requestRow sha256 db input).result? = some result) : Recorded sha256 db input result := by
  unfold requestRow at hv hr
  cases hf : db.request? input.requestID with
  | none =>
    rw [hf] at hr
    cases hr
  | some row =>
    rw [hf] at hv hr
    exact ⟨row, List.mem_of_find?_eq_some hf, by simpa using List.find?_some hf, hv, hr⟩

theorem stepOnce_cases {input : Input} {second : Bool} {stage : Stage}
    (hs : stepOnce sha256 w k rolledBack acked input second attempt stage = some w') :
    OnceMove sha256 w k acked input second attempt stage w' := by
  cases stage with
  | start =>
    simp only [stepOnce] at hs
    split_ifs at hs with ha
    cases hs
    exact .opens ha
  | opened =>
    simp only [stepOnce] at hs
    by_cases hv : verified sha256 input (requestRow sha256 w.db input) = true
    · rw [if_pos hv] at hs
      cases hr : (requestRow sha256 w.db input).result? with
      | none =>
        rw [hr] at hs
        cases hs
        exact .verifies hr
      | some result =>
        rw [hr] at hs
        dsimp only at hs
        split_ifs at hs <;> cases hs
        · exact .ends (.returned (recorded_of_requestRow hv hr))
        · exact .ends (.threw (by decide))
    · rw [if_neg hv] at hs
      cases hs
      exact .ends (.threw (by decide))
  | verified =>
    simp only [stepOnce] at hs
    split_ifs at hs with hphone <;> cases hs
    · exact .ends (.threw (by decide))
    · exact .phone (by simpa using hphone)
  | phoneFree =>
    simp only [stepOnce] at hs
    split at hs
    · split_ifs at hs <;> cases hs
      · exact .ends (.threw (by decide))
      · exact .ends .refill
      · exact .ends (.threw (by decide))
    · next p hf =>
      split_ifs at hs with ha hr <;> cases hs
      · exact .ends (.threw (by decide))
      · exact .picks hf (by simpa using ha)
  | picked id account =>
    simp only [stepOnce] at hs
    split_ifs at hs with ha hd hz <;> cases hs
    · exact .ends .classify
    · exact .ends (.threw (by decide))
    · simp only [Bool.or_eq_true, Bool.not_eq_true', not_or, Bool.not_eq_false] at ha
      simp only [Bool.or_eq_true, not_or, Bool.not_eq_true] at hd
      exact .inserts ha hd.1
  | inserted id account userID =>
    simp only [stepOnce] at hs
    split_ifs at hs <;> cases hs
    · exact .allocates
    · exact .ends (.threw (by decide))
  | allocated id account userID =>
    cases hs
    exact .fills
  | filled id account userID =>
    cases hs
    exact .commits

theorem stepRefill_cases {accounts : List ℕ} {input : Option Input} {batch : ℕ} {stage : RefillStage}
    (hs : stepRefill sha256 w k rolledBack acked accounts input batch attempt stage = some w') :
    RefillMove sha256 w k acked accounts input batch attempt stage w' := by
  cases stage with
  | start =>
    simp only [stepRefill] at hs
    split_ifs at hs with hb ha <;> cases hs
    · exact .throws (by decide)
    · exact .locks (by omega) ha
  | locked start =>
    simp only [stepRefill] at hs
    split_ifs at hs with hlow <;> cases hs
    · exact .enough
    · exact .throws (by decide)
    · exact .counts (by omega)
  | counted start =>
    simp only [stepRefill] at hs
    split at hs
    · cases hs
      exact .throws (by decide)
    · next maximum hmaximum =>
      split_ifs at hs with hmin hmax <;> cases hs
      · exact .throws (by decide)
      · exact .throws (by decide)
      · exact .checks (by omega) hmaximum
  | checked start =>
    simp only [stepRefill] at hs
    split_ifs at hs with hperm
    cases hs
    exact .shuffles hperm
  | inserting finish rows rest =>
    cases rest with
    | nil =>
      cases hs
      exact .commits
    | cons a as =>
      simp only [stepRefill] at hs
      split_ifs at hs <;> cases hs
      · exact .throws (by decide)
      · exact .inserts

end

/-! ## A new registration -/

section
variable {sha256 : String → Bytes} {w : World} {k attempt : ℕ} {rolledBack acked second : Bool} {input : Input}

theorem stepOnce_opens (free : w.available k (.request input.requestID) = true) :
    stepOnce sha256 w k rolledBack acked input second attempt .start =
      some ((w.acquire k (.request input.requestID)).setPhase k (.once input second attempt .opened)) := by
  simp only [stepOnce, free, if_true]

theorem stepOnce_verifies (new : w.db.request? input.requestID = none) :
    stepOnce sha256 w k rolledBack acked input second attempt .opened =
      some (w.setPhase k (.once input second attempt .verified)) := by
  simp [stepOnce, requestRow, new, verified, RequestRow.result?]

theorem stepOnce_phone (unused : w.db.phoneExists input.user.phone = false) :
    stepOnce sha256 w k rolledBack acked input second attempt .verified =
      some (w.setPhase k (.once input second attempt .phoneFree)) := by
  simp [stepOnce, unused]

theorem stepOnce_picks {p : PoolRow} (first : w.db.firstFree = some p)
    (free : w.available k (.pool p.id) = true)
    (range : ¬ (p.id = 0 ∨ p.account < kMinAccount ∨ kMaxAccount < p.account)) :
    stepOnce sha256 w k rolledBack acked input second attempt .phoneFree =
      some ((w.acquire k (.pool p.id)).setPhase k (.once input second attempt (.picked p.id p.account))) := by
  simp [stepOnce, first, free, range]

theorem stepOnce_inserts {id account : ℕ}
    (free : w.available k (.phone input.user.phone) = true ∧ w.available k (.account account) = true)
    (unused : w.db.phoneExists input.user.phone = false)
    (fresh : (w.db.users.any fun u => u.account = account) = false) (counter : 0 < w.nextUserID) :
    stepOnce sha256 w k rolledBack acked input second attempt (.picked id account) =
      some (World.setPhase { ((w.acquire k (.phone input.user.phone)).acquire k (.account account)).acquire k
        (.user w.nextUserID) with nextUserID := w.nextUserID + 1 } k
          (.once input second attempt (.inserted id account w.nextUserID))) := by
  simp [stepOnce, free.1, free.2, unused, fresh, counter.ne']

theorem stepOnce_allocates {id account userID : ℕ}
    (row : (w.db.pool.any fun q => q.id = id && q.status = 0) = true) :
    stepOnce sha256 w k rolledBack acked input second attempt (.inserted id account userID) =
      some (w.setPhase k (.once input second attempt (.allocated id account userID))) := by
  simp only [stepOnce, row, if_true]

end

end ApeServer.Registration
