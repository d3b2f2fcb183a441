/-
  The invariant of registration.

  * `Phase.Ok`, `Write.Ok` say what a call in progress may rely on: what it has
    read stays true while it holds its locks (`Call.Ok.apply`);
  * `Inv` adds the tables and that a call owns the locks it holds;
  * `Inv.setPhase`, `Inv.finish`, `Inv.acquire`, `Inv.commit`, `Inv.settle`: what a
    statement does to the world keeps it.
-/
import ApeServer.Registration.Tables

namespace ApeServer.Registration

open Table

/-! ## Calls in progress -/

/-- The locks of a transaction of `once`. -/
def Stage.held (input : Input) : Stage → List Lock
  | start => []
  | opened | verified | phoneFree => [.request input.requestID]
  | picked id _ => [.request input.requestID, .pool id]
  | inserted id account userID | allocated id account userID | filled id account userID =>
    [.request input.requestID, .pool id, .phone input.user.phone, .account account, .user userID]

def RefillStage.held : RefillStage → List Lock
  | start => []
  | _ => [.cursor]

def Phase.held : Phase → List Lock
  | once input _ _ stage => stage.held input
  | refill _ _ _ stage => stage.held
  | _ => []

def Write.held : Write → List Lock
  | user input id account userID =>
    [.request input.requestID, .pool id, .phone input.user.phone, .account account, .user userID]
  | accounts _ _ => [.cursor]

def Call.held (c : Call) : List Lock := c.phase.held ++ (c.limbo.map Write.held).getD []

/-- What a transaction of `once` relies on. -/
def Stage.Ok (db : RegDb) (nextUserID : ℕ) (input : Input) : Stage → Prop
  | start | opened => True
  | verified | phoneFree => ∀ r ∈ db.requests, r.requestID ≠ input.requestID
  | picked id account =>
    (∀ r ∈ db.requests, r.requestID ≠ input.requestID) ∧ (⟨id, account, 0⟩ : PoolRow) ∈ db.pool
  | inserted id account userID | allocated id account userID | filled id account userID =>
    UserOk db nextUserID input id account userID

/-- What a transaction of `refill` relies on. -/
def RefillStage.Ok (db : RegDb) (nextPoolID batch : ℕ) : RefillStage → Prop
  | start => True
  | locked n => n = db.nextStart ∧ batch ≤ kRefillBatch
  | counted n => n = db.nextStart ∧ batch ≤ kRefillBatch ∧ db.freeCount < kLowWaterMark
  | checked n => n = db.nextStart ∧ batch ≤ kRefillBatch ∧ db.freeCount < kLowWaterMark ∧
      n ≤ kMaxAccount
  | inserting finish rows rest => AccountsOk db nextPoolID finish rows rest

def Phase.Ok (w : World) : Phase → Prop
  | once input _ _ stage => stage.Ok w.db w.nextUserID input
  | refill _ batch _ stage => stage.Ok w.db w.nextPoolID batch
  | _ => True

def Write.Ok (w : World) : Write → Prop
  | user input id account userID => UserOk w.db w.nextUserID input id account userID
  | accounts finish rows => AccountsOk w.db w.nextPoolID finish rows []

/-- The phases without a transaction that a lost answer leads to. -/
def Phase.Over : Phase → Prop
  | unsure _ | returned _ _ | threw _ _ => True
  | _ => False

/-- Those of a call that may have registered its user. -/
def Phase.Committed : Phase → Prop
  | unsure _ | returned _ _ => True
  | threw _ e => e = .error uncertain
  | _ => False

/-- Where a call is whose write is in limbo. -/
def Write.Lost : Write → Phase → Prop
  | user _ _ _ _, phase => phase.Committed
  | accounts _ _, phase => ∃ input e, phase = .threw input e

theorem Phase.Committed.over {phase : Phase} (h : phase.Committed) : phase.Over := by
  cases phase <;> trivial

theorem Write.Lost.over {write : Write} {phase : Phase} (h : write.Lost phase) : phase.Over := by
  cases write with
  | user => exact Phase.Committed.over h
  | accounts =>
    obtain ⟨input, e, rfl⟩ := h
    trivial

theorem Phase.Over.held_eq {phase : Phase} (h : phase.Over) : phase.held = [] := by
  cases phase <;> first | rfl | exact h.elim

theorem Phase.Over.ok {phase : Phase} (h : phase.Over) (w : World) : phase.Ok w := by
  cases phase <;> trivial

structure Call.Ok (w : World) (c : Call) : Prop where
  phase : c.phase.Ok w
  limbo : ∀ write, c.limbo = some write → write.Ok w ∧ write.Lost c.phase

/-- **The invariant.** -/
structure Inv (w : World) : Prop where
  tables : Tables w.db
  owned : ∀ k, ∀ l ∈ (w.calls k).held, w.locks l = some k
  calls : ∀ k, (w.calls k).Ok w
  userIDs : ∀ u ∈ w.db.users, u.userID < w.nextUserID
  poolIDs : ∀ p ∈ w.db.pool, p.id < w.nextPoolID
  counters : 0 < w.nextUserID ∧ 0 < w.nextPoolID

section
variable {sha256 : String → Bytes} {w w' : World} {k : ℕ} {c : Call}

/-- The counters only rise. -/
structure Rises (w w' : World) : Prop where
  users : w.nextUserID ≤ w'.nextUserID
  pool : w.nextPoolID ≤ w'.nextPoolID

theorem UserOk.mono {db : RegDb} {n n' : ℕ} {input : Input} {id account userID : ℕ}
    (h : UserOk db n input id account userID) (hn : n ≤ n') : UserOk db n' input id account userID :=
  ⟨h.request, h.pool, h.phone, h.fresh, h.counter.trans_le hn⟩

theorem AccountsOk.mono {db : RegDb} {n n' finish : ℕ} {rows : List PoolRow} {rest : List ℕ}
    (h : AccountsOk db n finish rows rest) (hn : n ≤ n') : AccountsOk db n' finish rows rest :=
  ⟨h.batch, h.finish, h.low, h.ids, fun p hp => ⟨(h.fresh p hp).1.trans_le hn, (h.fresh p hp).2⟩,
    h.status, h.positive⟩

theorem Stage.Ok.mono {db : RegDb} {n n' : ℕ} {input : Input} {stage : Stage} (h : stage.Ok db n input)
    (hn : n ≤ n') : stage.Ok db n' input := by
  cases stage with
  | start | opened => trivial
  | verified | phoneFree | picked => exact h
  | inserted | allocated | filled => exact UserOk.mono h hn

theorem RefillStage.Ok.mono {db : RegDb} {n n' batch : ℕ} {stage : RefillStage} (h : stage.Ok db n batch)
    (hn : n ≤ n') : stage.Ok db n' batch := by
  cases stage with
  | start => trivial
  | locked | counted | checked => exact h
  | inserting => exact AccountsOk.mono h hn

/-- A call does not mind when only counters rise. -/
theorem Call.Ok.mono (h : c.Ok w) (hdb : w'.db = w.db) (hr : Rises w w') : c.Ok w' where
  phase := by
    have hp := h.phase
    cases hc : c.phase with
    | once input second attempt stage =>
      rw [hc] at hp
      unfold Phase.Ok at hp ⊢
      rw [hdb]
      exact Stage.Ok.mono hp hr.users
    | refill input batch attempt stage =>
      rw [hc] at hp
      unfold Phase.Ok at hp ⊢
      rw [hdb]
      exact RefillStage.Ok.mono hp hr.pool
    | _ => trivial
  limbo := by
    intro write hw
    obtain ⟨hok, hlost⟩ := h.limbo write hw
    refine ⟨?_, hlost⟩
    unfold Write.Ok at hok ⊢
    rw [hdb]
    cases write with
    | user => exact UserOk.mono hok hr.users
    | accounts => exact AccountsOk.mono hok hr.pool

/-! ### Commits of others

A call keeps what it relies on, since the write of another one is locked apart
from it. -/

theorem UserOk.apply_user {db : RegDb} {n : ℕ} {input input' : Input} {id account userID id' account'
    userID' : ℕ} (h : UserOk db n input' id' account' userID') (ht : Tables db)
    (hw : UserOk db n input id account userID)
    (hd : ∀ l ∈ (Write.user input' id' account' userID').held,
      l ∉ (Write.user input id account userID).held) :
    UserOk (db.apply sha256 (.user input id account userID)) n input' id' account' userID' := by
  simp only [Write.held, List.mem_cons, List.not_mem_nil, or_false, forall_eq_or_imp, forall_eq,
    not_or, reduceCtorEq, Lock.request.injEq, Lock.pool.injEq, Lock.phone.injEq, Lock.account.injEq,
    Lock.user.injEq, not_false_eq_true, and_true, true_and] at hd
  obtain ⟨hreq, hpool, hphone, hacc, huser⟩ := hd
  constructor
  · intro r hr
    rw [apply_requests hw.request] at hr
    rcases List.mem_append.1 hr with hr | hr
    · exact h.request r hr
    · rw [List.mem_singleton.1 hr]
      exact Ne.symm hreq
  · exact (mem_apply_pool ht hw.pool).2 (Or.inr ⟨h.pool, hpool⟩)
  · intro u hu
    rcases List.mem_append.1 hu with hu | hu
    · exact h.phone u hu
    · rw [List.mem_singleton.1 hu]
      exact Ne.symm hphone
  · intro u hu
    rcases List.mem_append.1 hu with hu | hu
    · exact h.fresh u hu
    · rw [List.mem_singleton.1 hu]
      exact Ne.symm huser
  · exact h.counter

theorem Stage.Ok.apply_user {db : RegDb} {n : ℕ} {input input' : Input} {id account userID : ℕ}
    {stage : Stage} (h : stage.Ok db n input') (ht : Tables db)
    (hw : UserOk db n input id account userID)
    (hd : ∀ l ∈ stage.held input', l ∉ (Write.user input id account userID).held) :
    stage.Ok (db.apply sha256 (.user input id account userID)) n input' := by
  have hreq : Lock.request input'.requestID ∈ stage.held input' →
      (∀ r ∈ db.requests, r.requestID ≠ input'.requestID) →
      ∀ r ∈ (db.apply sha256 (.user input id account userID)).requests,
        r.requestID ≠ input'.requestID := by
    intro hl h r hr
    rw [apply_requests hw.request] at hr
    rcases List.mem_append.1 hr with hr | hr
    · exact h r hr
    · rw [List.mem_singleton.1 hr]
      intro he
      exact hd _ hl (by simpa [Write.held, newRequest] using he.symm)
  cases stage with
  | start | opened => trivial
  | verified => exact hreq (by simp [Stage.held]) h
  | phoneFree => exact hreq (by simp [Stage.held]) h
  | picked id' account' =>
    refine ⟨hreq (by simp [Stage.held]) h.1, (mem_apply_pool ht hw.pool).2 (Or.inr ⟨h.2, ?_⟩)⟩
    rintro rfl
    exact hd (.pool id') (by simp [Stage.held]) (by simp [Write.held])
  | inserted => exact UserOk.apply_user h ht hw hd
  | allocated => exact UserOk.apply_user h ht hw hd
  | filled => exact UserOk.apply_user h ht hw hd

theorem AccountsOk.apply_user {db : RegDb} {n finish : ℕ} {rows : List PoolRow} {rest : List ℕ}
    {input : Input} {id account userID : ℕ} (h : AccountsOk db n finish rows rest) :
    AccountsOk (db.apply sha256 (.user input id account userID)) n finish rows rest := by
  refine ⟨h.batch, h.finish, freeCount_apply_user.trans_lt h.low, h.ids, fun p hp => ?_, h.status,
    h.positive⟩
  refine ⟨(h.fresh p hp).1, fun q hq he => ?_⟩
  have hmem : q.id ∈ db.pool.map PoolRow.id := by
    have hids : (db.apply sha256 (.user input id account userID)).pool.map PoolRow.id =
        db.pool.map PoolRow.id := ids_apply_user
    rw [← hids]
    exact List.mem_map_of_mem hq
  obtain ⟨q', hq', hid⟩ := List.mem_map.1 hmem
  exact (h.fresh p hp).2 q' hq' (hid.trans he)

theorem RefillStage.Ok.apply_user {db : RegDb} {n batch : ℕ} {input : Input} {id account userID : ℕ}
    {stage : RefillStage} (h : stage.Ok db n batch) :
    stage.Ok (db.apply sha256 (.user input id account userID)) n batch := by
  cases stage with
  | start => trivial
  | locked => exact h
  | counted => exact ⟨h.1, h.2.1, freeCount_apply_user.trans_lt h.2.2⟩
  | checked => exact ⟨h.1, h.2.1, freeCount_apply_user.trans_lt h.2.2.1, h.2.2.2⟩
  | inserting => exact AccountsOk.apply_user h

theorem UserOk.apply_accounts {db : RegDb} {n finish : ℕ} {rows : List PoolRow} {input : Input}
    {id account userID : ℕ} (h : UserOk db n input id account userID) :
    UserOk (db.apply sha256 (.accounts finish rows)) n input id account userID :=
  ⟨h.request, List.mem_append_left _ h.pool, h.phone, h.fresh, h.counter⟩

theorem Stage.Ok.apply_accounts {db : RegDb} {n finish : ℕ} {rows : List PoolRow} {input : Input}
    {stage : Stage} (h : stage.Ok db n input) :
    stage.Ok (db.apply sha256 (.accounts finish rows)) n input := by
  cases stage with
  | start | opened => trivial
  | verified | phoneFree => exact h
  | picked => exact ⟨h.1, List.mem_append_left _ h.2⟩
  | inserted | allocated | filled => exact UserOk.apply_accounts h

/-- **A call is indifferent to the commits of others.** -/
theorem Call.Ok.apply {write : Write} (h : c.Ok w) (ht : Tables w.db) (hw : write.Ok w)
    (hd : ∀ l ∈ c.held, l ∉ write.held) (hdb : w'.db = w.db.apply sha256 write)
    (hu : w'.nextUserID = w.nextUserID) (hp : w'.nextPoolID = w.nextPoolID) : c.Ok w' where
  phase := by
    have hok := h.phase
    have hd' : ∀ l ∈ c.phase.held, l ∉ write.held := fun l hl => hd l (List.mem_append_left _ hl)
    cases hc : c.phase with
    | once input second attempt stage =>
      rw [hc] at hok hd'
      unfold Phase.Ok at hok ⊢
      rw [hdb, hu]
      cases write with
      | user => exact Stage.Ok.apply_user hok ht hw hd'
      | accounts => exact Stage.Ok.apply_accounts hok
    | refill input batch attempt stage =>
      rw [hc] at hok hd'
      unfold Phase.Ok at hok ⊢
      rw [hdb, hp]
      cases write with
      | user => exact RefillStage.Ok.apply_user hok
      | accounts =>
        cases stage with
        | start => trivial
        | _ => exact absurd (List.mem_singleton_self Lock.cursor) (hd' .cursor (List.mem_singleton_self _))
    | _ => trivial
  limbo := by
    intro write' hl
    obtain ⟨hok, hlost⟩ := h.limbo write' hl
    have hd' : ∀ l ∈ write'.held, l ∉ write.held := by
      intro l hmem
      refine hd l (List.mem_append_right _ ?_)
      rw [hl]
      exact hmem
    refine ⟨?_, hlost⟩
    unfold Write.Ok at hok ⊢
    rw [hdb, hu, hp]
    cases write' with
    | user =>
      cases write with
      | user => exact UserOk.apply_user hok ht hw hd'
      | accounts => exact UserOk.apply_accounts hok
    | accounts =>
      cases write with
      | user => exact AccountsOk.apply_user hok
      | accounts => exact absurd (List.mem_singleton_self Lock.cursor) (hd' .cursor (List.mem_singleton_self _))

theorem Tables.apply {write : Write} (ht : Tables w.db) (hw : write.Ok w) :
    Tables (w.db.apply sha256 write) := by
  cases write with
  | user => exact ht.apply_user hw
  | accounts => exact ht.apply_accounts hw

/-! ## Steps -/

/-- The invariant after one call has changed. -/
theorem Inv.update (h : Inv w) (hcalls : w'.calls = Function.update w.calls k c)
    (hlocks : ∀ j, j ≠ k → ∀ l, w.locks l = some j → w'.locks l = some j)
    (hown : ∀ l ∈ c.held, w'.locks l = some k) (ht : Tables w'.db) (hc : c.Ok w')
    (hothers : ∀ j, j ≠ k → (w.calls j).Ok w')
    (hu : ∀ u ∈ w'.db.users, u.userID < w'.nextUserID)
    (hp : ∀ p ∈ w'.db.pool, p.id < w'.nextPoolID) (hr : Rises w w') : Inv w' where
  tables := ht
  owned := by
    intro j l hl
    rw [hcalls] at hl
    by_cases hj : j = k
    · subst hj
      rw [Function.update_self] at hl
      exact hown l hl
    · rw [Function.update_of_ne hj] at hl
      exact hlocks j hj l (h.owned j l hl)
  calls := by
    intro j
    rw [hcalls]
    by_cases hj : j = k
    · subst hj
      rw [Function.update_self]
      exact hc
    · rw [Function.update_of_ne hj]
      exact hothers j hj
  userIDs := hu
  poolIDs := hp
  counters := ⟨h.counters.1.trans_le hr.users, h.counters.2.trans_le hr.pool⟩

theorem Call.Ok.limbo_none (h : c.Ok w) (hn : ¬ c.phase.Over) : c.limbo = none := by
  cases hl : c.limbo with
  | none => rfl
  | some write => exact absurd (h.limbo write hl).2.over hn

/-- A call moves on, with locks it has. -/
theorem Inv.setPhase (h : Inv w) {phase : Phase} (hl : (w.calls k).limbo = none)
    (hown : ∀ l ∈ phase.held, w.locks l = some k) (hok : phase.Ok w) : Inv (w.setPhase k phase) := by
  refine h.update (c := { w.calls k with phase := phase }) rfl (fun _ _ _ h => h) ?_ h.tables ?_
    (fun j _ => (h.calls j).mono rfl ⟨le_rfl, le_rfl⟩) h.userIDs h.poolIDs ⟨le_rfl, le_rfl⟩
  · intro l hmem
    rw [Call.held, hl] at hmem
    exact hown l (by simpa using hmem)
  · constructor
    · cases phase <;> exact hok
    · intro write hw
      rw [hl] at hw
      cases hw

/-- The end of a transaction frees its own locks only. -/
theorem locks_release {j : ℕ} {l : Lock} (hj : j ≠ k) (h : w.locks l = some j) :
    (w.release k).locks l = some j := by
  simp [World.release, h, hj]

/-- A transaction ends. -/
theorem Inv.finish (h : Inv w) {phase : Phase} (hl : (w.calls k).limbo = none)
    (hheld : phase.held = []) (hok : phase.Ok w) : Inv (w.finish k phase) := by
  refine h.update (c := { w.calls k with phase := phase }) rfl (fun j hj l => locks_release hj) ?_
    h.tables ?_ (fun j _ => (h.calls j).mono rfl ⟨le_rfl, le_rfl⟩) h.userIDs h.poolIDs ⟨le_rfl, le_rfl⟩
  · intro l hmem
    rw [Call.held, hl, hheld] at hmem
    cases hmem
  · constructor
    · cases phase <;> exact hok
    · intro write hw
      rw [hl] at hw
      cases hw

/-- A lock that no other call holds is taken. -/
theorem Inv.acquire (h : Inv w) {l : Lock} (hfree : ∀ j, j ≠ k → l ∉ (w.calls j).held) :
    Inv (w.acquire k l) where
  tables := h.tables
  owned := by
    intro j l' hl'
    change (if l' = l then some k else w.locks l') = some j
    split_ifs with he
    · subst he
      by_contra hj
      exact hfree j (fun he => hj (by rw [he])) hl'
    · exact h.owned j l' hl'
  calls := fun j => (h.calls j).mono rfl ⟨le_rfl, le_rfl⟩
  userIDs := h.userIDs
  poolIDs := h.poolIDs
  counters := h.counters

theorem Inv.free_of_available (h : Inv w) {l : Lock} (ha : w.available k l = true) :
    ∀ j, j ≠ k → l ∉ (w.calls j).held := by
  intro j hj hl
  have := h.owned j l hl
  simp only [World.available, this, reduceCtorEq, decide_false, Bool.false_or, decide_eq_true_eq,
    Option.some.injEq] at ha
  exact hj ha

theorem acquire_self (w : World) (k : ℕ) (l : Lock) : (w.acquire k l).locks l = some k := by
  simp [World.acquire]

theorem acquire_kept {l l' : Lock} (h : w.locks l = some k) : (w.acquire k l').locks l = some k := by
  simp only [World.acquire]
  split_ifs
  · rfl
  · exact h

/-- The counters may rise. -/
theorem Inv.rise (h : Inv w) (w' : World) (hr : Rises w w') (hdb : w'.db = w.db) (hl : w'.locks = w.locks)
    (hc : w'.calls = w.calls) : Inv w' where
  tables := hdb ▸ h.tables
  owned := by rw [hl, hc]; exact h.owned
  calls := fun j => by rw [hc]; exact (h.calls j).mono hdb hr
  userIDs := by rw [hdb]; exact fun u hu => (h.userIDs u hu).trans_le hr.users
  poolIDs := by rw [hdb]; exact fun p hp => (h.poolIDs p hp).trans_le hr.pool
  counters := ⟨h.counters.1.trans_le hr.users, h.counters.2.trans_le hr.pool⟩

/-- A write keeps the ids below the counters. -/
theorem ids_apply {write : Write} (h : Inv w) (hw : write.Ok w) :
    (∀ u ∈ (w.db.apply sha256 write).users, u.userID < w.nextUserID) ∧
    ∀ p ∈ (w.db.apply sha256 write).pool, p.id < w.nextPoolID := by
  cases write with
  | user input id account userID =>
    constructor
    · intro u hu
      rcases List.mem_append.1 hu with hu | hu
      · exact h.userIDs u hu
      · rw [List.mem_singleton.1 hu]
        exact UserOk.counter hw
    · intro p hp
      rcases (mem_apply_pool h.tables (UserOk.pool hw)).1 hp with rfl | ⟨hp, -⟩
      · have hid := h.poolIDs _ (UserOk.pool hw)
        exact hid
      · exact h.poolIDs p hp
  | accounts =>
    refine ⟨h.userIDs, fun p hp => ?_⟩
    rcases List.mem_append.1 hp with hp | hp
    · exact h.poolIDs p hp
    · exact (AccountsOk.fresh hw p hp).1

/-- **A write becomes durable** and its call goes on without a transaction. -/
theorem Inv.apply (h : Inv w) {write : Write} (hw : write.Ok w)
    (hheld : ∀ l ∈ write.held, w.locks l = some k) (hcalls : w'.calls = Function.update w.calls k c)
    (hlocks : w'.locks = (w.release k).locks) (hdb : w'.db = w.db.apply sha256 write)
    (hu : w'.nextUserID = w.nextUserID) (hp : w'.nextPoolID = w.nextPoolID) (hc : c.held = [])
    (hok : c.Ok w') : Inv w' := by
  refine h.update hcalls ?_ ?_ (hdb ▸ h.tables.apply hw) hok ?_ ?_ ?_ ⟨hu.ge, hp.ge⟩
  · intro j hj l hl
    rw [hlocks]
    exact locks_release hj hl
  · rw [hc]
    intro l hl
    cases hl
  · intro j hj
    refine (h.calls j).apply h.tables hw ?_ hdb hu hp
    intro l hl hl'
    exact hj (Option.some.inj ((h.owned j l hl).symm.trans (hheld l hl')))
  · rw [hdb, hu]; exact (ids_apply h hw).1
  · rw [hdb, hp]; exact (ids_apply h hw).2

theorem Inv.commit (h : Inv w) {write : Write} {done lost : Phase} {acked : Bool}
    (hl : (w.calls k).limbo = none) (hw : write.Ok w)
    (hheld : ∀ l ∈ write.held, w.locks l = some k) (hdone : done.held = []) (hlost : write.Lost lost)
    (hok : ∀ w', done.Ok w') : Inv (w.commit sha256 k acked write done lost) := by
  unfold World.commit
  split_ifs
  · refine h.apply (c := { w.calls k with phase := done }) hw hheld rfl rfl rfl rfl rfl ?_ ?_
    · rw [Call.held, hl, hdone]
      rfl
    · refine ⟨hok _, fun write' hw' => ?_⟩
      rw [hl] at hw'
      cases hw'
  · refine h.update (c := ⟨lost, some write⟩) rfl (fun _ _ _ h => h) ?_ h.tables ?_
      (fun j _ => (h.calls j).mono rfl ⟨le_rfl, le_rfl⟩) h.userIDs h.poolIDs ⟨le_rfl, le_rfl⟩
    · intro l hmem
      refine hheld l ?_
      rw [Call.held, hlost.over.held_eq] at hmem
      exact hmem
    · refine ⟨hlost.over.ok _, fun write' hw' => ?_⟩
      cases hw'
      exact ⟨hw, hlost⟩

theorem Inv.settle (h : Inv w) {write : Write} {applied : Bool} (hl : (w.calls k).limbo = some write) :
    Inv (w.settle sha256 k applied write) := by
  obtain ⟨hw, hlost⟩ := (h.calls k).limbo write hl
  have hphase := hlost.over.held_eq
  have hheld : ∀ l ∈ write.held, w.locks l = some k := by
    intro l hmem
    refine h.owned k l (List.mem_append_right _ ?_)
    rw [hl]
    exact hmem
  have hok : ∀ w', ({ w.calls k with limbo := none } : Call).Ok w' := by
    intro w'
    exact ⟨hlost.over.ok w', fun _ hn => by cases hn⟩
  have hnone : ({ w.calls k with limbo := none } : Call).held = [] := by
    rw [Call.held, hphase]
    rfl
  unfold World.settle
  cases applied with
  | true => exact h.apply (c := { w.calls k with limbo := none }) hw hheld rfl rfl rfl rfl rfl hnone (hok _)
  | false =>
    refine h.update (c := { w.calls k with limbo := none }) rfl (fun j hj l => locks_release hj) ?_
      h.tables (hok _) (fun j _ => (h.calls j).mono rfl ⟨le_rfl, le_rfl⟩) h.userIDs h.poolIDs ⟨le_rfl, le_rfl⟩
    rw [hnone]
    intro l hmem
    cases hmem

end

end ApeServer.Registration
