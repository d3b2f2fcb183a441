/-
  Every step of registration keeps the invariant.

  * `OnceMove.inv`, `RefillMove.inv`: the statements of the two transactions;
  * `step_inv`, `RegTrace.inv`: the steps, and so the runs.
-/
import ApeServer.Registration.Invariant
import ApeServer.Registration.Moves

namespace ApeServer.Registration

open Table

section
variable {sha256 : String → Bytes} {w w' : World} {k : ℕ}

/-! ## `once` -/

/-- A request without a result has no row. -/
theorem absent_of_result_none {db : RegDb} {input : Input} (ht : Tables db)
    (hr : (requestRow sha256 db input).result? = none) :
    ∀ r ∈ db.requests, r.requestID ≠ input.requestID := by
  unfold requestRow at hr
  cases hf : db.request? input.requestID with
  | none => exact fun r hm => by simpa using List.find?_eq_none.1 hf r hm
  | some row =>
    rw [hf] at hr
    obtain ⟨u, -, huid, hacc⟩ := ht.filled row (List.mem_of_find?_eq_some hf)
    simp [RequestRow.result?, huid, hacc] at hr

/-- What a transaction knows of the call it runs in. -/
theorem Inv.running (h : Inv w) {phase : Phase} (hp : (w.calls k).phase = phase) (hrun : ¬ phase.Over) :
    (w.calls k).limbo = none ∧ phase.Ok w ∧ ∀ l ∈ phase.held, w.locks l = some k := by
  have hok := (h.calls k).phase
  rw [hp] at hok
  refine ⟨(h.calls k).limbo_none (by rw [hp]; exact hrun), hok, fun l hl => h.owned k l ?_⟩
  refine List.mem_append_left _ ?_
  rw [hp]
  exact hl

theorem Inv.once_phase (h : Inv w) {input : Input} {second : Bool} {attempt : ℕ} {stage : Stage}
    (hp : (w.calls k).phase = .once input second attempt stage) :
    (w.calls k).limbo = none ∧ stage.Ok w.db w.nextUserID input ∧
      ∀ l ∈ stage.held input, w.locks l = some k :=
  h.running hp id

theorem Inv.refill_phase (h : Inv w) {input : Option Input} {batch attempt : ℕ} {stage : RefillStage}
    (hp : (w.calls k).phase = .refill input batch attempt stage) :
    (w.calls k).limbo = none ∧ stage.Ok w.db w.nextPoolID batch ∧
      ∀ l ∈ stage.held, w.locks l = some k :=
  h.running hp id

/-- The user that `INSERT INTO users` adds. -/
theorem userOk_insert {input : Input} {id account : ℕ} (h : Inv w)
    (hok : (∀ r ∈ w.db.requests, r.requestID ≠ input.requestID) ∧ (⟨id, account, 0⟩ : PoolRow) ∈ w.db.pool)
    (hphone : w.db.phoneExists input.user.phone = false) :
    UserOk w.db (w.nextUserID + 1) input id account w.nextUserID := by
  refine ⟨hok.1, hok.2, ?_, fun u hu => (h.userIDs u hu).ne, Nat.lt_succ_self _⟩
  simpa [RegDb.phoneExists] using hphone

/-- No transaction has the next user id. -/
theorem Inv.user_free (h : Inv w) : ∀ j, Lock.user w.nextUserID ∉ (w.calls j).held := by
  intro j hl
  rcases List.mem_append.1 hl with hl | hl
  · have hok := (h.calls j).phase
    cases hp : (w.calls j).phase with
    | once input second attempt stage =>
      rw [hp] at hl hok
      cases stage <;> simp [Phase.held, Stage.held] at hl
      all_goals exact absurd (UserOk.counter hok) (by omega)
    | refill input batch attempt stage =>
      rw [hp] at hl
      cases stage <;> simp [Phase.held, RefillStage.held] at hl
    | _ => rw [hp] at hl; cases hl
  · cases hw : (w.calls j).limbo with
    | none => rw [hw] at hl; cases hl
    | some write =>
      rw [hw] at hl
      have hok := ((h.calls j).limbo write hw).1
      cases write <;> simp [Write.held] at hl
      exact absurd (UserOk.counter hok) (by omega)

/-- `INSERT INTO users` locks its phone, its account and its row. -/
theorem Inv.insertUser (h : Inv w) {input : Input} {second : Bool} {attempt id account : ℕ}
    (hl : (w.calls k).limbo = none) (hok : (Stage.picked id account).Ok w.db w.nextUserID input)
    (hown : ∀ l ∈ (Stage.picked id account).held input, w.locks l = some k)
    (ha : w.available k (.phone input.user.phone) = true ∧ w.available k (.account account) = true)
    (hphone : w.db.phoneExists input.user.phone = false) :
    Inv (World.setPhase { ((w.acquire k (.phone input.user.phone)).acquire k (.account account)).acquire k
      (.user w.nextUserID) with nextUserID := w.nextUserID + 1 } k
      (.once input second attempt (.inserted id account w.nextUserID))) := by
  have h₁ := h.acquire (h.free_of_available ha.1)
  have h₂ := h₁.acquire (h.free_of_available (w := w) ha.2)
  have h₃ := h₂.acquire (k := k) fun j _ => h₂.user_free j
  have hlocks : ∀ l ∈ (Stage.inserted id account w.nextUserID).held input,
      (((w.acquire k (.phone input.user.phone)).acquire k (.account account)).acquire k
        (.user w.nextUserID)).locks l = some k := by
    intro l hmem
    simp only [Stage.held, List.mem_cons, List.not_mem_nil, or_false] at hmem
    rcases hmem with rfl | rfl | rfl | rfl | rfl
    · exact acquire_kept (acquire_kept (acquire_kept (hown _ (by simp [Stage.held]))))
    · exact acquire_kept (acquire_kept (acquire_kept (hown _ (by simp [Stage.held]))))
    · exact acquire_kept (acquire_kept (acquire_self _ _ _))
    · exact acquire_kept (acquire_self _ _ _)
    · exact acquire_self _ _ _
  have h₄ := h₃.rise { ((w.acquire k (.phone input.user.phone)).acquire k
    (.account account)).acquire k (.user w.nextUserID) with nextUserID := w.nextUserID + 1 }
    ⟨Nat.le_succ _, le_rfl⟩ rfl rfl rfl
  exact h₄.setPhase hl hlocks (userOk_insert h hok hphone)

theorem OnceEnd.held {db : RegDb} {input : Input} {phase : Phase} (h : OnceEnd sha256 db input phase) :
    phase.held = [] := by
  cases h <;> rfl

theorem OnceEnd.ok {db : RegDb} {input : Input} {phase : Phase} (h : OnceEnd sha256 db input phase)
    (w : World) : phase.Ok w := by
  cases h <;> trivial

/-- The row that `SELECT … FROM account_pool` finds is free. -/
theorem mem_of_firstFree {db : RegDb} {p : PoolRow} (hf : db.firstFree = some p) :
    (⟨p.id, p.account, 0⟩ : PoolRow) ∈ db.pool := by
  have hmem := List.mem_filter.1 (firstBy_mem hf)
  have : p = ⟨p.id, p.account, 0⟩ := by
    obtain ⟨id, account, status⟩ := p
    simpa using hmem.2
  rw [← this]
  exact hmem.1

/-- **The statements of `once` keep the invariant.** -/
theorem OnceMove.inv (h : Inv w) {input : Input} {second acked : Bool} {attempt : ℕ} {stage : Stage}
    (hp : (w.calls k).phase = .once input second attempt stage)
    (hm : OnceMove sha256 w k acked input second attempt stage w') : Inv w' := by
  obtain ⟨hl, hok, hown⟩ := h.once_phase hp
  cases hm with
  | ends how => exact h.finish hl how.held (how.ok w)
  | opens free =>
    refine (h.acquire (h.free_of_available free)).setPhase hl (fun l hmem => ?_) trivial
    rw [List.mem_singleton.1 hmem]
    exact acquire_self _ _ _
  | verifies unused => exact h.setPhase hl hown (absent_of_result_none h.tables unused)
  | phone => exact h.setPhase hl hown hok
  | picks first free =>
    refine (h.acquire (h.free_of_available free)).setPhase hl (fun l hmem => ?_)
      ⟨hok, mem_of_firstFree first⟩
    simp only [Phase.held, Stage.held, List.mem_cons, List.not_mem_nil, or_false] at hmem
    rcases hmem with rfl | rfl
    · exact acquire_kept (hown _ (by simp [Stage.held]))
    · exact acquire_self _ _ _
  | inserts free unused => exact h.insertUser hl hok hown free unused
  | allocates => exact h.setPhase hl hown hok
  | fills => exact h.setPhase hl hown hok
  | commits => exact h.commit hl hok hown rfl trivial fun _ => trivial

/-! ## `refill` -/

/-- The accounts of a batch, before any is inserted. -/
theorem accountsOk_start {batch start : ℕ} {accounts : List ℕ}
    (hok : (RefillStage.checked start).Ok w.db w.nextPoolID batch)
    (hp : accounts.Perm (List.range' start (min batch (kMaxAccount - start + 1)))) :
    AccountsOk w.db w.nextPoolID (start + min batch (kMaxAccount - start + 1)) [] accounts := by
  obtain ⟨rfl, hbatch, hlow, hmax⟩ := hok
  refine ⟨⟨_, (min_le_left _ _).trans hbatch, rfl, by simpa using hp⟩, ?_, hlow, by simp, by simp,
    by simp, by simp⟩
  have := min_le_right batch (kMaxAccount - w.db.nextStart + 1)
  omega

theorem newRows_accounts (n : ℕ) (accounts : List ℕ) :
    (newRows n accounts).map PoolRow.account = accounts := by
  rw [newRows, List.map_map]
  exact List.zipIdx_map_fst n accounts

theorem newRows_ids (n : ℕ) (accounts : List ℕ) :
    (newRows n accounts).map PoolRow.id = List.range' n accounts.length := by
  rw [newRows, List.map_map]
  exact List.zipIdx_map_snd n accounts

theorem mem_newRows {n : ℕ} {accounts : List ℕ} {p : PoolRow} (h : p ∈ newRows n accounts) :
    n ≤ p.id ∧ p.id < n + accounts.length ∧ p.status = 0 := by
  have hid := List.mem_map_of_mem (f := PoolRow.id) h
  rw [newRows_ids, List.mem_range'_1] at hid
  obtain ⟨x, -, rfl⟩ := List.mem_map.1 h
  exact ⟨hid.1, hid.2, rfl⟩

/-- A further thousand of them. -/
theorem AccountsOk.insert {db : RegDb} {n finish m : ℕ} {rows : List PoolRow} {rest : List ℕ}
    (h : AccountsOk db n finish rows rest) (hids : ∀ p ∈ db.pool, p.id < n) (hn : 0 < n) :
    AccountsOk db (n + (rest.take m).length) finish (rows ++ newRows n (rest.take m)) (rest.drop m) := by
  obtain ⟨count, hcount, hfinish, hperm⟩ := h.batch
  refine ⟨⟨count, hcount, hfinish, ?_⟩, h.finish, h.low, ?_, ?_, ?_, ?_⟩
  · rw [List.map_append, newRows_accounts, List.append_assoc, List.take_append_drop]
    exact hperm
  · rw [List.map_append, newRows_ids]
    refine List.nodup_append.2 ⟨h.ids, List.nodup_range', fun i hi j hj => ?_⟩
    obtain ⟨p, hp, rfl⟩ := List.mem_map.1 hi
    rw [List.mem_range'_1] at hj
    exact ((h.fresh p hp).1.trans_le hj.1).ne
  · intro p hp
    rcases List.mem_append.1 hp with hp | hp
    · exact ⟨(h.fresh p hp).1.trans_le (Nat.le_add_right _ _), (h.fresh p hp).2⟩
    · obtain ⟨hle, hlt, -⟩ := mem_newRows hp
      exact ⟨hlt, fun q hq => ((hids q hq).trans_le hle).ne⟩
  · intro p hp
    rcases List.mem_append.1 hp with hp | hp
    · exact h.status p hp
    · exact (mem_newRows hp).2.2
  · intro p hp
    rcases List.mem_append.1 hp with hp | hp
    · exact h.positive p hp
    · exact hn.trans_le (mem_newRows hp).1

theorem afterRefill_held (input : Option Input) : (afterRefill input).held = [] := by
  cases input <;> rfl

theorem afterRefill_ok (input : Option Input) (w : World) : (afterRefill input).Ok w := by
  cases input <;> trivial

/-- **The statements of `refill` keep the invariant.** -/
theorem RefillMove.inv (h : Inv w) {input : Option Input} {batch attempt : ℕ} {stage : RefillStage}
    (hp : (w.calls k).phase = .refill input batch attempt stage) {acked : Bool} {accounts : List ℕ}
    (hm : RefillMove sha256 w k acked accounts input batch attempt stage w') : Inv w' := by
  obtain ⟨hl, hok, hown⟩ := h.refill_phase hp
  cases hm with
  | throws => exact h.finish hl rfl trivial
  | locks bound free =>
    refine (h.acquire (h.free_of_available free)).setPhase hl (fun l hmem => ?_) ⟨rfl, bound⟩
    rw [List.mem_singleton.1 hmem]
    exact acquire_self _ _ _
  | enough => exact h.finish hl (afterRefill_held _) (afterRefill_ok _ _)
  | counts low => exact h.setPhase hl hown ⟨hok.1, hok.2, low⟩
  | checks bound => exact h.setPhase hl hown ⟨hok.1, hok.2.1, hok.2.2, bound⟩
  | shuffles perm => exact h.setPhase hl hown (accountsOk_start hok perm)
  | commits => exact h.commit hl hok hown (afterRefill_held _) ⟨_, _, rfl⟩ (afterRefill_ok _)
  | @inserts finish rows rest =>
    have h' := h.rise { w with nextPoolID := w.nextPoolID + (rest.take 1000).length }
      ⟨le_rfl, Nat.le_add_right _ _⟩ rfl rfl rfl
    exact h'.setPhase hl hown (AccountsOk.insert hok h.poolIDs h.counters.2)

/-! ## The other steps -/

theorem failOnce_inv (h : Inv w) {input : Input} {second : Bool} {attempt : ℕ} {stage : Stage}
    (hp : (w.calls k).phase = .once input second attempt stage) (e : SqlError) (rolledBack : Bool) :
    Inv (failOnce w k e rolledBack input second attempt) := by
  obtain ⟨hl, -, -⟩ := h.once_phase hp
  unfold failOnce
  split_ifs
  all_goals exact h.finish hl rfl trivial

theorem failRefill_inv (h : Inv w) {input : Option Input} {batch attempt : ℕ} {stage : RefillStage}
    (hp : (w.calls k).phase = .refill input batch attempt stage) (e : SqlError) (rolledBack : Bool) :
    Inv (failRefill w k e rolledBack input batch attempt) := by
  obtain ⟨hl, -, -⟩ := h.refill_phase hp
  unfold failRefill
  split_ifs
  all_goals exact h.finish hl rfl trivial

/-- A call that has no transaction goes on to a phase without one. -/
theorem Inv.goOn (h : Inv w) {phase phase' : Phase} (hp : (w.calls k).phase = phase)
    (hover' : phase'.Over) (hlost : ∀ write : Write, write.Lost phase → write.Lost phase') :
    Inv (w.setPhase k phase') := by
  have hheld : ∀ l ∈ ((w.calls k).limbo.map Write.held).getD [], w.locks l = some k :=
    fun l hl => h.owned k l (List.mem_append_right _ hl)
  refine h.update (c := { w.calls k with phase := phase' }) rfl (fun _ _ _ h => h) ?_ h.tables ?_
    (fun j _ => (h.calls j).mono rfl ⟨le_rfl, le_rfl⟩) h.userIDs h.poolIDs ⟨le_rfl, le_rfl⟩
  · intro l hl
    rw [Call.held, hover'.held_eq] at hl
    exact hheld l hl
  · refine ⟨hover'.ok _, fun write hw => ?_⟩
    obtain ⟨hok, hl⟩ := (h.calls k).limbo write hw
    rw [hp] at hl
    exact ⟨hok, hlost write hl⟩

theorem runCall_inv (h : Inv w) {rolledBack acked : Bool} {accounts : List ℕ}
    (hs : runCall sha256 w k rolledBack acked accounts (w.calls k).phase = some w') : Inv w' := by
  cases hp : (w.calls k).phase with
  | once =>
    rw [hp] at hs
    exact (stepOnce_cases hs).inv h hp
  | refill =>
    rw [hp] at hs
    exact (stepRefill_cases hs).inv h hp
  | classify input =>
    rw [hp] at hs
    cases hs
    refine h.goOn hp trivial fun write hlost => ?_
    cases write with
    | user => exact hlost.elim
    | accounts => exact ⟨_, _, rfl⟩
  | unsure input =>
    rw [hp] at hs
    have hnext : ∀ phase : Phase, phase.Committed → Inv (w.setPhase k phase) := by
      intro phase hc
      refine h.goOn hp hc.over fun write hlost => ?_
      cases write with
      | user => exact hc
      | accounts =>
        obtain ⟨_, _, he⟩ := hlost
        cases he
    simp only [runCall] at hs
    split at hs <;> cases hs
    · exact hnext _ trivial
    · exact hnext _ rfl
  | _ => rw [hp] at hs; cases hs

theorem failCall_inv (h : Inv w) {e : SqlError} {rolledBack : Bool}
    (hs : failCall w k e rolledBack (w.calls k).phase = some w') : Inv w' := by
  cases hp : (w.calls k).phase with
  | once input second attempt stage =>
    rw [hp] at hs
    cases stage <;> cases hs
    all_goals exact failOnce_inv h hp e rolledBack
  | refill input batch attempt stage =>
    rw [hp] at hs
    simp only [failCall] at hs
    split at hs
    all_goals try contradiction
    next heq =>
      cases heq
      cases hs
      exact failRefill_inv h hp e rolledBack
  | _ => rw [hp] at hs; cases hs

/-- **Every step keeps the invariant.** -/
theorem step_inv {a : Action} {es : List Unit} (h : Inv w) (hs : step sha256 w a = some (w', es)) :
    Inv w' := by
  cases a with
  | register j input =>
    simp only [step] at hs
    split_ifs at hs with hidle
    cases hs
    refine h.setPhase ((h.calls j).limbo_none (by rw [hidle]; exact id)) (fun l hl => ?_) trivial
    cases hl
  | refillAccounts j batch =>
    simp only [step] at hs
    split_ifs at hs with hidle
    cases hs
    refine h.setPhase ((h.calls j).limbo_none (by rw [hidle]; exact id)) (fun l hl => ?_) trivial
    cases hl
  | run j rolledBack acked accounts =>
    obtain ⟨w₁, hw, he⟩ := Option.map_eq_some_iff.1 hs
    cases he
    exact runCall_inv h hw
  | fail j e rolledBack =>
    simp only [step] at hs
    split_ifs at hs
    obtain ⟨w₁, hw, he⟩ := Option.map_eq_some_iff.1 hs
    cases he
    exact failCall_inv h hw
  | settle j applied =>
    obtain ⟨write, hl, he⟩ := Option.map_eq_some_iff.1 hs
    cases he
    exact h.settle hl

end

/-- Before any call there are the seeded tables. -/
theorem inv_start : Inv { db := .seeded } where
  tables := tables_seeded
  owned := by
    intro k l hl
    cases hl
  calls := fun k => ⟨trivial, fun _ hl => by cases hl⟩
  userIDs := by simp [RegDb.seeded, seedUser]
  poolIDs := by simp [RegDb.seeded]
  counters := by decide

/-- **The invariant of the runs.** -/
theorem RegTrace.inv {sha256 : String → Bytes} (T : RegTrace sha256) {i : ℕ} (hi : i ≤ T.len) :
    Inv (T.state i) :=
  T.invariant inv_start (fun _ _ _ _ h hs => step_inv h hs) hi

end ApeServer.Registration
