/-
  Registration happens exactly once for a request id.

  * `Creates`, `Unchanged`: the two things that a step does to users and ledger;
  * `Phase.Committed` is kept (`committed_step`), and a call whose write was
    applied is there (`committed_of_change`);
  * `Replayed`: how a call ends whose request is in the ledger already;
  * `exactly_once`.
-/
import ApeServer.Registration.Allocation

namespace ApeServer.Registration

open Table

/-- The user and the ledger row of a request are added. -/
structure Creates (sha256 : String → Bytes) (db db' : RegDb) (input : Input) (result : Result) : Prop where
  users : db'.users = db.users ++ [⟨result.userID, result.account, input.user.nickname,
    input.user.phone, input.user.passwordHash, input.user.passwordSalt⟩]
  requests : db'.requests = db.requests ++ [newRequest sha256 input result.account result.userID]

/-- Users, ledger and the accounts that the pool has are as before. -/
structure Unchanged (db db' : RegDb) : Prop where
  users : db'.users = db.users
  requests : db'.requests = db.requests
  pool : db.pool <+: db'.pool

theorem Unchanged.refl (db : RegDb) : Unchanged db db := ⟨rfl, rfl, List.prefix_rfl⟩

section
variable {sha256 : String → Bytes} {w w' : World} {k : ℕ} {a : Action} {es : List Unit}

/-! ## The tables -/

theorem unchanged_accounts (sha256 : String → Bytes) {db : RegDb} {finish : ℕ} {rows : List PoolRow} :
    Unchanged db (db.apply sha256 (.accounts finish rows)) := ⟨rfl, rfl, List.prefix_append _ _⟩

theorem creates_user {db : RegDb} {n id account userID : ℕ} {input : Input}
    (h : UserOk db n input id account userID) :
    Creates sha256 db (db.apply sha256 (.user input id account userID)) input ⟨userID, account⟩ :=
  ⟨rfl, apply_requests h.request⟩

/-- A step adds the user of one request, or none. -/
theorem step_creates (h : Inv w) (hs : step sha256 w a = some (w', es)) :
    Unchanged w.db w'.db ∨ ∃ input result, Creates sha256 w.db w'.db input result := by
  rcases step_db h hs with hdb | ⟨write, hw, hdb⟩
  · rw [hdb]
    exact Or.inl (.refl _)
  · rw [hdb]
    cases write with
    | user => exact Or.inr ⟨_, _, creates_user hw⟩
    | accounts => exact Or.inl (unchanged_accounts sha256)

/-- The ledger only grows. -/
theorem step_requests (h : Inv w) (hs : step sha256 w a = some (w', es)) :
    w.db.requests <+: w'.db.requests := by
  rcases step_creates h hs with hu | ⟨input, result, hc⟩
  · rw [hu.requests]
  · rw [hc.requests]
    exact List.prefix_append _ _

theorem Recorded.mono {db db' : RegDb} {input : Input} {result : Result}
    (h : Recorded sha256 db input result) (hm : db.requests <+: db'.requests) :
    Recorded sha256 db' input result := by
  obtain ⟨row, hrow, hr⟩ := h
  exact ⟨row, hm.subset hrow, hr⟩

theorem recorded_user {db : RegDb} {n id account userID : ℕ} {input : Input}
    (h : UserOk db n input id account userID) :
    Recorded sha256 (db.apply sha256 (.user input id account userID)) input ⟨userID, account⟩ := by
  refine ⟨newRequest sha256 input account userID, ?_, rfl, by simp [verified, newRequest], rfl⟩
  rw [apply_requests h.request]
  exact List.mem_append_right _ (List.mem_singleton_self _)

/-! ## The calls -/

theorem step_other (hs : step sha256 w a = some (w', es)) (hk : k ≠ a.call) :
    w'.calls k = w.calls k := by
  rcases step_spec hs with ⟨-, phase, hcalls, -⟩ | ⟨acked, write, done, lost, -, rfl⟩ |
    ⟨applied, write, -, rfl⟩
  · rw [hcalls, Function.update_of_ne hk]
  · unfold World.commit
    split_ifs
    · exact Function.update_of_ne hk _ _
    · exact Function.update_of_ne hk _ _
  · exact Function.update_of_ne hk _ _

theorem commit_phase {acked : Bool} {write : Write} {done lost : Phase} :
    ((w.commit sha256 k acked write done lost).calls k).phase = if acked then done else lost := by
  unfold World.commit
  split_ifs <;> simp [World.finish, World.setPhase]

theorem settle_phase {applied : Bool} {write : Write} :
    ((w.settle sha256 k applied write).calls k).phase = (w.calls k).phase := by
  simp [World.settle]

/-- Where a call is after a step. -/
theorem step_phase (hs : step sha256 w a = some (w', es)) :
    (w'.calls k).phase = (w.calls k).phase ∨ (w.calls k).phase.Next sha256 w.db (w'.calls k).phase ∨
      ∃ write done lost, Commits (w.calls k).phase write done lost ∧
        ((w'.calls k).phase = done ∨ (w'.calls k).phase = lost) := by
  by_cases hk : k = a.call
  · subst hk
    rcases step_spec hs with ⟨-, phase, hcalls, hn⟩ | ⟨acked, write, done, lost, hc, rfl⟩ |
      ⟨applied, write, -, rfl⟩
    · right
      left
      rw [hcalls, Function.update_self]
      exact hn
    · refine Or.inr (Or.inr ⟨write, done, lost, hc, ?_⟩)
      rw [commit_phase]
      cases acked
      · exact Or.inr rfl
      · exact Or.inl rfl
    · exact Or.inl settle_phase
  · rw [step_other hs hk]
    exact Or.inl rfl

/-- A call that may have registered its user stays one. -/
theorem committed_step (h : (w.calls k).phase.Committed) (hs : step sha256 w a = some (w', es)) :
    (w'.calls k).phase.Committed := by
  rcases step_phase (k := k) hs with he | hn | ⟨write, done, lost, hc, -⟩
  · rw [he]
    exact h
  · cases hp : (w.calls k).phase with
    | unsure input =>
      rw [hp] at hn
      rcases hn with ⟨result, he, -⟩ | he
      · rw [he]
        trivial
      · rw [he]
        rfl
    | returned => rw [hp] at hn; exact hn.elim
    | threw => rw [hp] at hn; exact hn.elim
    | _ => rw [hp] at h; exact h.elim
  · generalize (w.calls k).phase = phase at hc h
    cases hc <;> exact h.elim

/-- What a call has thrown is final. -/
theorem threw_step {input : Option Input} {e : Thrown} (h : (w.calls k).phase = .threw input e)
    (hs : step sha256 w a = some (w', es)) : (w'.calls k).phase = .threw input e := by
  rcases step_phase (k := k) hs with he | hn | ⟨write, done, lost, hc, -⟩
  · rw [he, h]
  · rw [h] at hn
    exact hn.elim
  · rw [h] at hc
    cases hc

/-- A call whose write is applied may have registered its user. -/
theorem committed_of_change (h : Inv w) (hs : step sha256 w a = some (w', es)) :
    Unchanged w.db w'.db ∨ (w'.calls a.call).phase.Committed := by
  rcases step_spec hs with hq | ⟨acked, write, done, lost, hc, rfl⟩ | ⟨applied, write, hl, rfl⟩
  · rw [hq.db]
    exact Or.inl (.refl _)
  · cases acked with
    | false => exact Or.inl (.refl _)
    | true =>
      rw [commit_phase]
      generalize (w.calls a.call).phase = phase at hc
      cases hc with
      | user => exact Or.inr trivial
      | accounts => exact Or.inl (unchanged_accounts sha256)
  · cases applied with
    | false => exact Or.inl (.refl _)
    | true =>
      rw [settle_phase]
      have hlost := ((h.calls a.call).limbo write hl).2
      cases write with
      | user => exact Or.inr hlost
      | accounts => exact Or.inl (unchanged_accounts sha256)

/-- A result that is returned is in the ledger. -/
def Answered (sha256 : String → Bytes) (w : World) : Prop :=
  ∀ k input result, (w.calls k).phase = .returned input result → Recorded sha256 w.db input result

theorem answered_step (hi : Inv w) (h : Answered sha256 w) (hs : step sha256 w a = some (w', es)) :
    Answered sha256 w' := by
  intro k input result hp
  have hm := step_requests hi hs
  by_cases hk : k = a.call
  · subst hk
    rcases step_spec hs with ⟨hdb, phase, hcalls, hn⟩ | ⟨acked, write, done, lost, hc, rfl⟩ |
      ⟨applied, write, -, rfl⟩
    · rw [hcalls, Function.update_self] at hp
      change phase = _ at hp
      subst hp
      cases hq : (w.calls a.call).phase with
      | idle => rw [hq] at hn; rcases hn with ⟨_, he⟩ | ⟨_, he⟩ <;> cases he
      | once input' second attempt stage =>
        rw [hq] at hn
        obtain ⟨rfl, hr⟩ := hn
        exact hr.mono hm
      | refill input' batch attempt stage =>
        rw [hq] at hn
        rcases hn with he | ⟨_, _, _, he⟩ | ⟨_, he, -⟩
        · cases input' <;> cases he
        · cases he
        · cases he
      | classify => rw [hq] at hn; obtain ⟨_, he, -⟩ := hn; cases he
      | unsure input' =>
        rw [hq] at hn
        rcases hn with ⟨result', he, hr⟩ | he
        · cases he
          exact hr.mono hm
        · cases he
      | returned => rw [hq] at hn; exact hn.elim
      | refilled => rw [hq] at hn; exact hn.elim
      | threw => rw [hq] at hn; exact hn.elim
    · have hw := hi.commits hc
      rw [commit_phase] at hp
      generalize (w.calls a.call).phase = phase at hc
      cases hc with
      | user =>
        cases acked with
        | true =>
          cases hp
          exact recorded_user hw
        | false => cases hp
      | accounts input' =>
        cases acked with
        | true => cases input' <;> cases hp
        | false => cases hp
    · rw [settle_phase] at hp
      exact (h _ _ _ hp).mono hm
  · rw [step_other hs hk] at hp
    exact (h k input result hp).mono hm

/-! ## Replays

A call that is opened when its request is in the ledger. -/

/-- A statement of the call fails, or its `ROLLBACK` does. -/
def Action.Fails (k : ℕ) : Action → Prop
  | fail j _ _ => j = k
  | run j rolledBack _ _ => j = k ∧ rolledBack = false
  | _ => False

/-- What `once` answers to a request with a filled row. -/
def answer (sha256 : String → Bytes) (input : Input) (row : RequestRow) (result : Result) : Phase :=
  if verified sha256 input row then .returned input result
  else .threw (some input) (.error conflict)

/-- Before the row of its request is read, or after. -/
def Phase.Replays (input : Input) (phase : Phase) : Prop :=
  ∃ attempt stage, (stage = .start ∨ stage = .opened) ∧ phase = .once input false attempt stage

def Phase.Final : Phase → Prop
  | returned _ _ | threw _ _ => True
  | _ => False

theorem answer_final {input : Input} {row : RequestRow} {result : Result} :
    (answer sha256 input row result).Final := by
  unfold answer
  split_ifs <;> trivial

/-- A call that has ended, with nothing in limbo, does nothing any more. -/
theorem final_step (hf : (w.calls k).phase.Final) (hl : (w.calls k).limbo = none)
    (hs : step sha256 w a = some (w', es)) : k ≠ a.call ∧ w'.calls k = w.calls k := by
  suffices hk : k ≠ a.call by exact ⟨hk, step_other hs hk⟩
  rintro rfl
  rcases step_spec hs with ⟨-, phase, -, hn⟩ | ⟨acked, write, done, lost, hc, -⟩ | ⟨applied, write, hw, -⟩
  · generalize (w.calls a.call).phase = phase' at hf hn
    cases phase' <;> first | exact hn.elim | exact hf.elim
  · generalize (w.calls a.call).phase = phase' at hf hc
    cases hc <;> exact hf.elim
  · rw [hl] at hw
    cases hw

theorem requestRow_eq {db : RegDb} {input : Input} {row : RequestRow} (ht : Tables db)
    (hrow : row ∈ db.requests) (hid : row.requestID = input.requestID) :
    requestRow sha256 db input = row := by
  unfold requestRow
  cases hf : db.request? input.requestID with
  | none => exact absurd hid (by simpa using List.find?_eq_none.1 hf row hrow)
  | some row' =>
    have hid' : row'.requestID = input.requestID := by simpa using List.find?_some hf
    exact eq_of_key ht.requestIDs (List.mem_of_find?_eq_some hf) hrow (hid'.trans hid.symm)

theorem step_register {input : Input} (hs : step sha256 w (.register k input) = some (w', es)) :
    (w.calls k).phase = .idle ∧ w' = w.setPhase k (.once input false 0 .start) := by
  simp only [step] at hs
  split_ifs at hs with hidle
  cases hs
  exact ⟨hidle, rfl⟩

/-- At `opened` the row decides. -/
theorem stepOnce_opened {input : Input} {row : RequestRow} {result : Result} {attempt : ℕ}
    {rolledBack acked : Bool} (ht : Tables w.db) (hrow : row ∈ w.db.requests)
    (hid : row.requestID = input.requestID) (hres : row.result? = some result) :
    stepOnce sha256 w k rolledBack acked input false attempt .opened =
      some (w.finish k (if rolledBack = true ∨ verified sha256 input row = false
        then answer sha256 input row result else .threw (some input) (.error rollbackFailed))) := by
  simp only [stepOnce, requestRow_eq ht hrow hid, hres, answer]
  cases hv : verified sha256 input row with
  | false => simp
  | true => cases rolledBack <;> simp

theorem finish_call (hl : (w.calls k).limbo = none) (phase : Phase) :
    ((w.finish k phase).calls k).limbo = none ∧ ((w.finish k phase).calls k).phase = phase := by
  simp [World.finish, World.setPhase, World.release, hl]

/-- A statement of a replay opens its transaction, or reads the row. -/
theorem replay_run (h : Inv w) {input : Input} {row : RequestRow} {result : Result}
    (hrow : row ∈ w.db.requests) (hid : row.requestID = input.requestID)
    (hres : row.result? = some result) (hl : (w.calls k).limbo = none) {attempt : ℕ} {stage : Stage}
    (hstage : stage = .start ∨ stage = .opened) {rolledBack acked : Bool} {accounts : List ℕ}
    (hw : runCall sha256 w k rolledBack acked accounts (.once input false attempt stage) = some w') :
    (w'.calls k).limbo = none ∧ w'.db = w.db ∧
      ((w'.calls k).phase.Replays input ∨ (w'.calls k).phase = answer sha256 input row result ∨
        (∃ e, (w'.calls k).phase = .threw (some input) e) ∧ rolledBack = false) := by
  rcases hstage with rfl | rfl
  · simp only [runCall, stepOnce] at hw
    split_ifs at hw
    cases hw
    refine ⟨by simp [World.setPhase, World.acquire, hl], rfl, Or.inl ⟨attempt, .opened, Or.inr rfl, ?_⟩⟩
    simp [World.setPhase, World.acquire]
  · rw [runCall, stepOnce_opened h.tables hrow hid hres] at hw
    cases hw
    refine ⟨(finish_call hl _).1, rfl, ?_⟩
    rw [(finish_call hl _).2]
    split_ifs with hc
    · exact Or.inr (Or.inl rfl)
    · rw [not_or] at hc
      exact Or.inr (Or.inr ⟨⟨_, rfl⟩, by simpa using hc.1⟩)

/-- A replay whose statement fails begins again, or throws. -/
theorem replay_fail (hl : (w.calls k).limbo = none) (e : SqlError) (rolledBack : Bool) (input : Input) (attempt : ℕ) :
    ((failOnce w k e rolledBack input false attempt).calls k).limbo = none ∧
      (failOnce w k e rolledBack input false attempt).db = w.db ∧
      (((failOnce w k e rolledBack input false attempt).calls k).phase.Replays input ∨
        ∃ x, ((failOnce w k e rolledBack input false attempt).calls k).phase = .threw (some input) x) := by
  unfold failOnce
  split_ifs
  · exact ⟨(finish_call hl _).1, rfl, Or.inl ⟨attempt + 1, .start, Or.inl rfl, (finish_call hl _).2⟩⟩
  · exact ⟨(finish_call hl _).1, rfl, Or.inr ⟨_, (finish_call hl _).2⟩⟩
  · exact ⟨(finish_call hl _).1, rfl, Or.inr ⟨_, (finish_call hl _).2⟩⟩

/-- **One step of a replay.** -/
theorem replay_step (h : Inv w) {input : Input} {row : RequestRow} {result : Result}
    (hrow : row ∈ w.db.requests) (hid : row.requestID = input.requestID)
    (hres : row.result? = some result) (hl : (w.calls k).limbo = none)
    (hp : (w.calls k).phase.Replays input) (hs : step sha256 w a = some (w', es)) :
    (w'.calls k).limbo = none ∧ (a.call = k → w'.db = w.db) ∧
      ((w'.calls k).phase.Replays input ∨ (w'.calls k).phase = answer sha256 input row result ∨
        (∃ e, (w'.calls k).phase = .threw (some input) e) ∧ a.Fails k) := by
  by_cases hk : a.call = k
  · obtain ⟨attempt, stage, hstage, hp⟩ := hp
    cases a with
    | register j input' =>
      obtain rfl : j = k := hk
      simp only [step] at hs
      split_ifs at hs with hidle
      rw [hp] at hidle
      cases hidle
    | refillAccounts j batch =>
      obtain rfl : j = k := hk
      simp only [step] at hs
      split_ifs at hs with hidle
      rw [hp] at hidle
      cases hidle
    | run j rolledBack acked accounts =>
      obtain rfl : j = k := hk
      obtain ⟨w₁, hw, he⟩ := Option.map_eq_some_iff.1 hs
      cases he
      rw [hp] at hw
      obtain ⟨hl', hdb, hphase⟩ := replay_run h hrow hid hres hl hstage hw
      exact ⟨hl', fun _ => hdb, hphase.imp_right fun hp => hp.imp_right fun he => ⟨he.1, rfl, he.2⟩⟩
    | fail j e rolledBack =>
      obtain rfl : j = k := hk
      simp only [step] at hs
      split_ifs at hs
      obtain ⟨w₁, hw, he⟩ := Option.map_eq_some_iff.1 hs
      cases he
      rw [hp] at hw
      obtain rfl : w' = failOnce w j e rolledBack input false attempt := by
        rcases hstage with rfl | rfl <;> exact (Option.some.inj hw).symm
      obtain ⟨hl', hdb, hphase⟩ := replay_fail hl e rolledBack input attempt
      exact ⟨hl', fun _ => hdb, hphase.imp_right fun he => Or.inr ⟨he, rfl⟩⟩
    | settle j applied =>
      obtain rfl : j = k := hk
      obtain ⟨write, hw, -⟩ := Option.map_eq_some_iff.1 hs
      rw [hl] at hw
      cases hw
  · rw [step_other hs (Ne.symm hk)]
    exact ⟨hl, fun he => absurd he hk, Or.inl hp⟩

end

/-- How a call goes that is opened by step `j`: it gives the answer, unless one
    of its statements fails, and changes nothing. -/
structure Replayed {sha256 : String → Bytes} (T : RegTrace sha256) (j k : ℕ) (input : Input)
    (answer : Phase) : Prop where
  phases : ∀ m, j < m → m ≤ T.len → ((T.state m).calls k).phase.Replays input ∨
    ((T.state m).calls k).phase = answer ∨
    (∃ e, ((T.state m).calls k).phase = .threw (some input) e) ∧ ∃ l, j < l ∧ l < m ∧ (T.act l).Fails k
  answers : ∀ m, j < m → m ≤ T.len → ∀ attempt,
    ((T.state m).calls k).phase = .once input false attempt .opened → ∀ acked accounts,
      ∃ w, step sha256 (T.state m) (.run k true acked accounts) = some (w, []) ∧
        (w.calls k).phase = answer
  quiet : ∀ l, j ≤ l → l < T.len → (T.act l).call = k → (T.state (l + 1)).db = (T.state l).db

section
variable {sha256 : String → Bytes} (T : RegTrace sha256)

theorem RegTrace.requests {i j : ℕ} (hij : i ≤ j) (hj : j ≤ T.len) :
    (T.state i).db.requests <+: (T.state j).db.requests :=
  T.related (R := fun w w' => w.db.requests <+: w'.db.requests) (fun _ hi => T.inv hi)
    (fun _ => List.prefix_rfl) (fun _ _ _ => List.IsPrefix.trans)
    (fun _ _ _ _ h hs => step_requests h hs) hij hj

theorem RegTrace.answered {i : ℕ} (hi : i ≤ T.len) : Answered sha256 (T.state i) :=
  (T.invariant (P := fun w => Inv w ∧ Answered sha256 w) ⟨inv_start, fun _ _ _ h => by cases h⟩
    (fun _ _ _ _ h hs => ⟨step_inv h.1 hs, answered_step h.1 h.2 hs⟩) hi).2

/-- The run of a call that is opened when its request is in the ledger. -/
theorem RegTrace.replayed {j k : ℕ} {input : Input} {row : RequestRow} {result : Result}
    (hj : j < T.len) (ha : T.act j = .register k input) (hrow : row ∈ (T.state j).db.requests)
    (hid : row.requestID = input.requestID) (hres : row.result? = some result) :
    Replayed T j k input (answer sha256 input row result) := by
  have hrows : ∀ m, j ≤ m → m ≤ T.len → row ∈ (T.state m).db.requests :=
    fun m hjm hm => (T.requests hjm hm).subset hrow
  -- the phases, with nothing in limbo
  have hrun : ∀ m, j + 1 ≤ m → m ≤ T.len → ((T.state m).calls k).limbo = none ∧
      (((T.state m).calls k).phase.Replays input ∨
        ((T.state m).calls k).phase = answer sha256 input row result ∨
        (∃ e, ((T.state m).calls k).phase = .threw (some input) e) ∧
          ∃ l, j < l ∧ l < m ∧ (T.act l).Fails k) := by
    intro m hjm
    induction m, hjm using Nat.le_induction with
    | base =>
      intro _
      have hs := T.next j hj
      rw [ha] at hs
      obtain ⟨hidle, hw⟩ := step_register hs
      have hl := ((T.inv hj.le).calls k).limbo_none (by rw [hidle]; exact id)
      rw [hw]
      refine ⟨by simp [World.setPhase, hl], Or.inl ⟨0, .start, Or.inl rfl, by simp [World.setPhase]⟩⟩
    | succ m hjm ih =>
      intro hm
      obtain ⟨hl, hp⟩ := ih (by omega)
      have hs := T.next m (by omega)
      rcases hp with hp | hp | ⟨⟨e, hp⟩, l, hjl, hlm, hfail⟩
      · obtain ⟨hl', -, hp'⟩ := replay_step (T.inv (by omega)) (hrows m (by omega) (by omega)) hid hres hl
          hp hs
        refine ⟨hl', hp'.imp_right (Or.imp_right ?_)⟩
        rintro ⟨he, hfail⟩
        exact ⟨he, m, by omega, by omega, hfail⟩
      · rw [(final_step (by rw [hp]; exact answer_final) hl hs).2]
        exact ⟨hl, Or.inr (Or.inl hp)⟩
      · rw [(final_step (by rw [hp]; trivial) hl hs).2]
        exact ⟨hl, Or.inr (Or.inr ⟨⟨e, hp⟩, l, hjl, by omega, hfail⟩)⟩
  constructor
  · exact fun m hjm hm => (hrun m hjm hm).2
  · intro m hjm hm attempt hp acked accounts
    refine ⟨(T.state m).finish k (answer sha256 input row result), ?_, by simp [World.finish, World.setPhase]⟩
    simp only [step, hp, runCall, stepOnce_opened (T.inv hm).tables (hrows m (by omega) hm) hid hres,
      true_or, if_true, Option.map_some]
  · intro l hjl hl hk
    have hs := T.next l hl
    rcases Nat.eq_or_lt_of_le hjl with rfl | hjl
    · rw [ha] at hs
      rw [(step_register hs).2]
      rfl
    · obtain ⟨hlimbo, hp⟩ := hrun l hjl hl.le
      have hfinal : ((T.state l).calls k).phase.Final → False :=
        fun hf => (final_step hf hlimbo hs).1 hk.symm
      rcases hp with hp | hp | ⟨⟨e, hp⟩, -⟩
      · exact (replay_step (T.inv hl.le) (hrows l hjl.le hl.le) hid hres hlimbo hp hs).2.1 hk
      · exact (hfinal (by rw [hp]; exact answer_final)).elim
      · exact (hfinal (by rw [hp]; trivial)).elim

end

/-! ## A new registration -/

/-- A call on its way through `once`, with all its statements working. -/
structure Going (sha256 : String → Bytes) (w₀ w : World) (k : ℕ) (input : Input) (stage : Stage) : Prop where
  reach : Machine.Reachable (step sha256) w₀ w
  db : w.db = w₀.db
  phase : (w.calls k).phase = .once input false 0 stage
  locks : ∀ l, w₀.available k l = true → w.available k l = true
  counter : 0 < w.nextUserID

section
variable {sha256 : String → Bytes} {w₀ w w' : World} {k : ℕ} {input : Input}

theorem available_acquire {l l' : Lock} (h : w.available k l = true) :
    (w.acquire k l').available k l = true := by
  simp only [World.available, World.acquire] at h ⊢
  split_ifs
  · simp
  · exact h

theorem Going.next {stage stage' : Stage} (h : Going sha256 w₀ w k input stage)
    (hs : stepOnce sha256 w k true true input false 0 stage = some w') (hdb : w'.db = w.db)
    (hp : (w'.calls k).phase = .once input false 0 stage')
    (hl : ∀ l, w.available k l = true → w'.available k l = true) (hc : w.nextUserID ≤ w'.nextUserID) :
    Going sha256 w₀ w' k input stage' := by
  have hstep : step sha256 w (.run k true true []) = some (w', []) := by
    simp only [step, h.phase, runCall, hs, Option.map_some]
  exact ⟨.next h.reach hstep, hdb.trans h.db, hp, fun l hl' => hl l (h.locks l hl'), h.counter.trans_le hc⟩

theorem setPhase_phase (w : World) (k : ℕ) (phase : Phase) :
    ((w.setPhase k phase).calls k).phase = phase := by
  simp [World.setPhase]

theorem Going.opened (g : Going sha256 w₀ w k input .start)
    (hreq : w₀.available k (.request input.requestID) = true) :
    ∃ w', Going sha256 w₀ w' k input .opened :=
  ⟨_, g.next (stepOnce_opens (g.locks _ hreq)) rfl (setPhase_phase _ _ _)
    (fun _ h => available_acquire h) le_rfl⟩

theorem Going.verified (g : Going sha256 w₀ w k input .opened)
    (hnone : w₀.db.request? input.requestID = none) : ∃ w', Going sha256 w₀ w' k input .verified := by
  rw [← g.db] at hnone
  exact ⟨_, g.next (stepOnce_verifies hnone) rfl (setPhase_phase _ _ _) (fun _ h => h) le_rfl⟩

theorem Going.phoneFree (g : Going sha256 w₀ w k input .verified)
    (hphone : w₀.db.phoneExists input.user.phone = false) :
    ∃ w', Going sha256 w₀ w' k input .phoneFree := by
  rw [← g.db] at hphone
  exact ⟨_, g.next (stepOnce_phone hphone) rfl (setPhase_phase _ _ _) (fun _ h => h) le_rfl⟩

theorem Going.picked (g : Going sha256 w₀ w k input .phoneFree) {p : PoolRow}
    (hfree : w₀.db.firstFree = some p) (hpool : w₀.available k (.pool p.id) = true)
    (hrange : ¬ (p.id = 0 ∨ p.account < kMinAccount ∨ kMaxAccount < p.account)) :
    ∃ w', Going sha256 w₀ w' k input (.picked p.id p.account) := by
  rw [← g.db] at hfree
  exact ⟨_, g.next (stepOnce_picks hfree (g.locks _ hpool) hrange) rfl (setPhase_phase _ _ _)
    (fun _ h => available_acquire h) le_rfl⟩

theorem Going.inserted {id account : ℕ} (g : Going sha256 w₀ w k input (.picked id account))
    (hph : w₀.available k (.phone input.user.phone) = true)
    (hacc : w₀.available k (.account account) = true)
    (hphone : w₀.db.phoneExists input.user.phone = false)
    (hfresh : (w₀.db.users.any fun u => u.account = account) = false) :
    ∃ w' userID, Going sha256 w₀ w' k input (.inserted id account userID) := by
  rw [← g.db] at hphone hfresh
  exact ⟨_, _, g.next (stepOnce_inserts ⟨g.locks _ hph, g.locks _ hacc⟩ hphone hfresh g.counter) rfl
    (setPhase_phase _ _ _) (fun _ h => available_acquire (available_acquire (available_acquire h))) (Nat.le_succ _)⟩

theorem Going.allocated {id account userID : ℕ} (g : Going sha256 w₀ w k input (.inserted id account userID))
    (hrow : (w₀.db.pool.any fun q => q.id = id && q.status = 0) = true) :
    ∃ w', Going sha256 w₀ w' k input (.allocated id account userID) := by
  rw [← g.db] at hrow
  exact ⟨_, g.next (stepOnce_allocates hrow) rfl (setPhase_phase _ _ _) (fun _ h => h) le_rfl⟩

theorem Going.filled {id account userID : ℕ} (g : Going sha256 w₀ w k input (.allocated id account userID)) :
    ∃ w', Going sha256 w₀ w' k input (.filled id account userID) :=
  ⟨_, g.next rfl rfl (setPhase_phase _ _ _) (fun _ h => h) le_rfl⟩

/-- **A request without a row can register**, when there is a free account and
    nobody has its locks. -/
theorem may_register (h : Inv w) {p : PoolRow} (hidle : (w.calls k).phase = .idle)
    (hnew : ∀ r ∈ w.db.requests, r.requestID ≠ input.requestID)
    (hphone : w.db.phoneExists input.user.phone = false) (hfree : w.db.firstFree = some p)
    (hreq : w.available k (.request input.requestID) = true) (hpool : w.available k (.pool p.id) = true)
    (hph : w.available k (.phone input.user.phone) = true)
    (hacc : w.available k (.account p.account) = true) :
    ∃ w' result, Machine.Reachable (step sha256) w w' ∧
      (w'.calls k).phase = .returned input result ∧ Creates sha256 w.db w'.db input result := by
  have hmem := List.mem_filter.1 (firstBy_mem hfree)
  have hstatus : p.status = 0 := by simpa using hmem.2
  have hrange : ¬ (p.id = 0 ∨ p.account < kMinAccount ∨ kMaxAccount < p.account) := by
    have h₁ := h.tables.range p hmem.1
    have h₂ := h.tables.cursor.2
    have h₃ := h.tables.positive p hmem.1
    omega
  have hnone : w.db.request? input.requestID = none := by
    simpa [RegDb.request?, List.find?_eq_none] using hnew
  have hfresh : (w.db.users.any fun u => u.account = p.account) = false := by
    simpa using fun u hu => h.tables.free p hmem.1 hstatus u hu
  have hrow : (w.db.pool.any fun q => q.id = p.id && q.status = 0) = true := by
    simpa using ⟨p, hmem.1, rfl, hstatus⟩
  have hreg : step sha256 w (.register k input) = some (w.setPhase k (.once input false 0 .start), []) := by
    simp [step, hidle]
  have g : Going sha256 w _ k input .start :=
    ⟨.next .start hreg, rfl, setPhase_phase _ _ _, fun _ h => h, h.counters.1⟩
  obtain ⟨w₁, g⟩ := g.opened hreq
  obtain ⟨w₂, g⟩ := g.verified hnone
  obtain ⟨w₃, g⟩ := g.phoneFree hphone
  obtain ⟨w₄, g⟩ := g.picked hfree hpool hrange
  obtain ⟨w₅, userID, g⟩ := g.inserted hph hacc hphone hfresh
  obtain ⟨w₆, g⟩ := g.allocated hrow
  obtain ⟨w₇, g⟩ := g.filled
  have hcommit : step sha256 w₇ (.run k true true []) = some (w₇.commit sha256 k true
      (.user input p.id p.account userID) (.returned input ⟨userID, p.account⟩) (.unsure input), []) := by
    simp only [step, g.phase, runCall, stepOnce, Option.map_some]
  refine ⟨_, ⟨userID, p.account⟩, .next g.reach hcommit, by rw [commit_phase, if_pos rfl], ?_⟩
  rw [← g.db] at hnew ⊢
  exact ⟨rfl, apply_requests hnew⟩

end

/-! ## Exactly once -/

section
variable {sha256 : String → Bytes} (T : RegTrace sha256) {input input' : Input} {result result' : Result}

theorem RegTrace.row_of_creates {i j : ℕ} (hij : i < j) (hj : j ≤ T.len)
    (hc : Creates sha256 (T.state i).db (T.state (i + 1)).db input result) :
    newRequest sha256 input result.account result.userID ∈ (T.state j).db.requests := by
  refine (T.requests (Nat.succ_le_of_lt hij) hj).subset ?_
  rw [hc.requests]
  exact List.mem_append_right _ (List.mem_singleton_self _)

/-- A request is created when it is not in the ledger. -/
theorem RegTrace.new_of_creates {i : ℕ} (hi : i < T.len)
    (hc : Creates sha256 (T.state i).db (T.state (i + 1)).db input result) :
    ∀ r ∈ (T.state i).db.requests, r.requestID ≠ input.requestID := by
  intro r hr he
  have hn := (T.inv (Nat.succ_le_of_lt hi)).tables.requestIDs
  rw [hc.requests, List.map_append, List.nodup_append] at hn
  exact hn.2.2 _ (List.mem_map_of_mem hr) _ (List.mem_map_of_mem (List.mem_singleton_self _)) he

theorem RegTrace.creates_once {i j : ℕ} (hi : i < T.len) (hj : j < T.len)
    (hc : Creates sha256 (T.state i).db (T.state (i + 1)).db input result)
    (hc' : Creates sha256 (T.state j).db (T.state (j + 1)).db input' result')
    (hid : input.requestID = input'.requestID) : i = j := by
  rcases lt_trichotomy i j with hij | hij | hij
  · exact absurd hid (T.new_of_creates hj hc' _ (T.row_of_creates hij hj.le hc))
  · exact hij
  · exact absurd hid.symm (T.new_of_creates hi hc _ (T.row_of_creates hij hi.le hc'))

/-- One request id has one result. -/
theorem recorded_unique {db : RegDb} (ht : Tables db) (h : Recorded sha256 db input result)
    (h' : Recorded sha256 db input' result') (hid : input.requestID = input'.requestID) :
    result = result' := by
  obtain ⟨row, hrow, hrid, -, hres⟩ := h
  obtain ⟨row', hrow', hrid', -, hres'⟩ := h'
  obtain rfl := eq_of_key ht.requestIDs hrow hrow' (hrid.trans (hid.trans hrid'.symm))
  exact Option.some.inj (hres.symm.trans hres')

/-- A call that throws something else than the uncertain outcome has not written. -/
theorem RegTrace.unchanged_of_threw {m l k : ℕ} {input : Option Input} {e : Thrown} (hm : m ≤ T.len)
    (hl : l < T.len) (hp : ((T.state m).calls k).phase = .threw input e) (he : e ≠ .error uncertain)
    (hk : (T.act l).call = k) : Unchanged (T.state l).db (T.state (l + 1)).db := by
  subst hk
  rcases committed_of_change (T.inv hl.le) (T.next l hl) with hu | hc
  · exact hu
  · refine absurd ?_ he
    rcases Nat.lt_or_ge l m with hlm | hml
    · -- the call wrote before it threw
      have hcm := T.related (P := fun _ => True)
        (R := fun w w' => (w.calls (T.act l).call).phase.Committed → (w'.calls (T.act l).call).phase.Committed)
        (fun _ _ => trivial) (fun _ => id) (fun _ _ _ h h' hc => h' (h hc))
        (fun _ _ _ _ _ hs hc => committed_step hc hs) (Nat.succ_le_of_lt hlm) hm hc
      rw [hp] at hcm
      exact hcm
    · -- it had thrown already
      have hthrew := T.related (P := fun _ => True)
        (R := fun w w' => (w.calls (T.act l).call).phase = .threw input e →
          (w'.calls (T.act l).call).phase = .threw input e)
        (fun _ _ => trivial) (fun _ => id) (fun _ _ _ h h' hp => h' (h hp))
        (fun _ _ _ _ _ hs hp => threw_step hp hs) (show m ≤ l + 1 by omega) hl hp
      rw [hthrew] at hc
      exact hc

end

/-- The hash function tells the two texts apart. -/
def CollisionFree (sha256 : String → Bytes) (s t : String) : Prop := sha256 s = sha256 t → s = t

/-- **Registration is exactly once per request id.** For every run:
    a step creates the user of one request or none, and no two steps that of
    the same request id; a result that a call returns is in the ledger, so that
    all calls with its id return the same; a call opened after its id was
    committed is refused with another payload, and gets the result with the
    same one; a call that throws, unless the outcome is uncertain, has written
    nothing; and a request that is not in the ledger may register. -/
theorem exactly_once (sha256 : String → Bytes) (T : RegTrace sha256) :
    (∀ i < T.len, Unchanged (T.state i).db (T.state (i + 1)).db ∨
      ∃ input result, Creates sha256 (T.state i).db (T.state (i + 1)).db input result) ∧
    (∀ i < T.len, ∀ j < T.len, ∀ input result input' result',
      Creates sha256 (T.state i).db (T.state (i + 1)).db input result →
      Creates sha256 (T.state j).db (T.state (j + 1)).db input' result' →
      input.requestID = input'.requestID → i = j) ∧
    (∀ i ≤ T.len, ∀ k input result, ((T.state i).calls k).phase = .returned input result →
      Recorded sha256 (T.state i).db input result) ∧
    (∀ i ≤ T.len, ∀ j ≤ T.len, ∀ k k' input input' result result',
      ((T.state i).calls k).phase = .returned input result →
      ((T.state j).calls k').phase = .returned input' result' →
      input.requestID = input'.requestID → result = result') ∧
    (∀ i j k input input' result, i < j → j < T.len →
      Creates sha256 (T.state i).db (T.state (i + 1)).db input result →
      T.act j = .register k input' → input'.requestID = input.requestID →
      input'.payload ≠ input.payload →
      CollisionFree sha256 (payload input.user.passwordSalt input'.payload "")
        (payload input.user.passwordSalt input.payload "") →
      Replayed T j k input' (.threw (some input') (.error conflict))) ∧
    (∀ m ≤ T.len, ∀ k input e, ((T.state m).calls k).phase = .threw input e → e ≠ .error uncertain →
      ∀ l < T.len, (T.act l).call = k → Unchanged (T.state l).db (T.state (l + 1)).db) ∧
    (∀ i j k input input' result, i < j → j < T.len →
      Creates sha256 (T.state i).db (T.state (i + 1)).db input result →
      T.act j = .register k input' → input'.requestID = input.requestID →
      input'.payload = input.payload → Replayed T j k input' (.returned input' result)) ∧
    (∀ i ≤ T.len, ∀ k input p, ((T.state i).calls k).phase = .idle →
      (∀ r ∈ (T.state i).db.requests, r.requestID ≠ input.requestID) →
      (T.state i).db.phoneExists input.user.phone = false → (T.state i).db.firstFree = some p →
      (∀ l ∈ [Lock.request input.requestID, .pool p.id, .phone input.user.phone, .account p.account],
        (T.state i).available k l = true) →
      ∃ w result, Machine.Reachable (step sha256) (T.state i) w ∧
        (w.calls k).phase = .returned input result ∧
        Creates sha256 (T.state i).db w.db input result) := by
  refine ⟨fun i hi => step_creates (T.inv hi.le) (T.next i hi), ?_, fun i hi => T.answered hi, ?_, ?_,
    ?_, ?_, ?_⟩
  · intro i hi j hj input result input' result' hc hc' hid
    exact T.creates_once hi hj hc hc' hid
  · intro i hi j hj k k' input input' result result' hp hp' hid
    have h := T.answered hi _ _ _ hp
    have h' := T.answered hj _ _ _ hp'
    rcases le_total i j with hij | hji
    · exact recorded_unique (T.inv hj).tables (h.mono (T.requests hij hj)) h' hid
    · exact recorded_unique (T.inv hi).tables h (h'.mono (T.requests hji hi)) hid
  · intro i j k input input' result hij hj hc ha hid hne hfree
    have hr := T.replayed hj ha (T.row_of_creates hij hj.le hc) hid.symm rfl
    have hv : ¬ verified sha256 input' (newRequest sha256 input result.account result.userID) = true := by
      intro hv
      exact hne (digest_inj hfree (of_decide_eq_true hv))
    rwa [answer, if_neg hv] at hr
  · intro m hm k input e hp he l hl hk
    exact T.unchanged_of_threw hm hl hp he hk
  · intro i j k input input' result hij hj hc ha hid hpay
    have hr := T.replayed hj ha (T.row_of_creates hij hj.le hc) hid.symm rfl
    have hv : verified sha256 input' (newRequest sha256 input result.account result.userID) = true := by
      simp [verified, newRequest, hpay]
    rwa [answer, if_pos hv] at hr
  · intro i hi k input p hidle hnew hphone hfree hlocks
    simp only [List.forall_mem_cons, List.not_mem_nil, false_implies, implies_true, and_true] at hlocks
    obtain ⟨hreq, hpool, hph, hacc⟩ := hlocks
    exact may_register (T.inv hi) hidle hnew hphone hfree hreq hpool hph hacc

end ApeServer.Registration
