/-
  The invariant of the tables of registration.

  * `Tables` is the invariant; `UserOk` and `AccountsOk` are what the two writes
    need for it;
  * `Tables.apply_user`, `Tables.apply_accounts`: the writes keep it.
-/
import ApeServer.Registration.Machine

namespace ApeServer.Registration

open Table

/-! ## The tables -/

/-- **The invariant of the tables.** -/
structure Tables (db : RegDb) : Prop where
  userIDs : (db.users.map UserRow.userID).Nodup
  accounts : (db.users.map UserRow.account).Nodup
  phones : (db.users.map UserRow.phone).Nodup
  poolIDs : (db.pool.map PoolRow.id).Nodup
  poolAccounts : (db.pool.map PoolRow.account).Nodup
  range : ∀ p ∈ db.pool, kMinAccount ≤ p.account ∧ p.account < db.nextStart
  below : ∀ u ∈ db.users, u.account < db.nextStart
  registered : ∀ u ∈ db.users, u = seedUser ∨
    ((∃ p ∈ db.pool, p.account = u.account ∧ p.status = 1) ∧
      ∃ r ∈ db.requests, r.userID = some u.userID ∧ r.account = some u.account)
  free : ∀ p ∈ db.pool, p.status = 0 → ∀ u ∈ db.users, u.account ≠ p.account
  cursor : seedUser.account < db.nextStart ∧ db.nextStart ≤ kMaxAccount + 1
  requestIDs : (db.requests.map RequestRow.requestID).Nodup
  filled : ∀ r ∈ db.requests, ∃ u ∈ db.users, r.userID = some u.userID ∧ r.account = some u.account
  requestUsers : (db.requests.map RequestRow.userID).Nodup
  freeCount : db.freeCount ≤ kLowWaterMark - 1 + kRefillBatch
  positive : ∀ p ∈ db.pool, 0 < p.id

theorem tables_seeded : Tables .seeded where
  userIDs := by simp [RegDb.seeded]
  accounts := by simp [RegDb.seeded]
  phones := by simp [RegDb.seeded]
  poolIDs := by simp [RegDb.seeded]
  poolAccounts := by simp [RegDb.seeded]
  range := by simp [RegDb.seeded]
  below := by simp [RegDb.seeded, seedUser]
  registered := by simp [RegDb.seeded]
  free := by simp [RegDb.seeded]
  cursor := by simp [RegDb.seeded, seedUser, kMaxAccount]
  requestIDs := by simp [RegDb.seeded]
  filled := by simp [RegDb.seeded]
  requestUsers := by simp [RegDb.seeded]
  freeCount := by simp [RegDb.seeded, RegDb.freeCount]
  positive := by simp [RegDb.seeded]

/-- What a registration in progress relies on once its user is inserted. -/
structure UserOk (db : RegDb) (nextUserID : ℕ) (input : Input) (id account userID : ℕ) : Prop where
  request : ∀ r ∈ db.requests, r.requestID ≠ input.requestID
  pool : (⟨id, account, 0⟩ : PoolRow) ∈ db.pool
  phone : ∀ u ∈ db.users, u.phone ≠ input.user.phone
  fresh : ∀ u ∈ db.users, u.userID ≠ userID
  counter : userID < nextUserID

section
variable {sha256 : String → Bytes} {db : RegDb} {input : Input} {id account userID nextUserID : ℕ}

/-- The new row of the ledger. -/
def newRequest (sha256 : String → Bytes) (input : Input) (account userID : ℕ) : RequestRow :=
  ⟨input.requestID, input.user.passwordSalt, digest sha256 input.user.passwordSalt input.payload,
    some userID, some account⟩

theorem apply_requests (h : ∀ r ∈ db.requests, r.requestID ≠ input.requestID) :
    (db.apply sha256 (.user input id account userID)).requests
      = db.requests ++ [newRequest sha256 input account userID] := by
  have hnone : ∀ r ∈ db.requests, (decide (r.requestID = input.requestID)) = false := by
    intro r hr
    simpa using h r hr
  have hany : db.requests.any (fun r => r.requestID = input.requestID) = false := by
    simpa using h
  simp only [RegDb.apply, insertNew, hany, Bool.false_eq_true, if_false]
  rw [updateWhere, List.map_append]
  have hold := updateWhere_eq_self
    (f := fun r : RequestRow => { r with userID := some userID, account := some account }) hnone
  rw [updateWhere] at hold
  rw [hold]
  simp [newRequest]

/-- The pool after a registration: its row is taken. -/
theorem mem_apply_pool (ht : Tables db) (hp : (⟨id, account, 0⟩ : PoolRow) ∈ db.pool) {p : PoolRow} :
    p ∈ (db.apply sha256 (.user input id account userID)).pool ↔
      p = ⟨id, account, 1⟩ ∨ (p ∈ db.pool ∧ p.id ≠ id) := by
  simp only [RegDb.apply, mem_updateWhere, Bool.and_eq_true, decide_eq_true_eq]
  constructor
  · rintro ⟨q, hq, rfl⟩
    by_cases hid : q.id = id
    · obtain rfl := eq_of_key ht.poolIDs hq hp hid
      left
      simp
    · right
      simp [hid, hq]
  · rintro (rfl | ⟨hp', hid⟩)
    · exact ⟨_, hp, by simp⟩
    · exact ⟨p, hp', by simp [hid]⟩

/-- The pool row of a registration is the only one with its account. -/
theorem Tables.pool_id (ht : Tables db) (hp : (⟨id, account, 0⟩ : PoolRow) ∈ db.pool) {p : PoolRow}
    (hmem : p ∈ db.pool) (h : p.account = account) : p.id = id := by
  rw [eq_of_key ht.poolAccounts hmem hp h]

theorem ids_apply_user :
    (db.apply sha256 (.user input id account userID)).pool.map PoolRow.id = db.pool.map PoolRow.id := by
  apply map_updateWhere
  intro p
  rfl

theorem accounts_apply_user : (db.apply sha256 (.user input id account userID)).pool.map PoolRow.account
    = db.pool.map PoolRow.account := by
  apply map_updateWhere
  intro p
  rfl

theorem freeCount_apply_user :
    (db.apply sha256 (.user input id account userID)).freeCount ≤ db.freeCount := by
  unfold RegDb.freeCount RegDb.apply updateWhere
  rw [← List.countP_eq_length_filter, ← List.countP_eq_length_filter, List.countP_map]
  refine List.countP_mono_left fun p _ hp => ?_
  simp only [Function.comp] at hp
  split_ifs at hp with hq
  · simp at hp
  · exact hp

/-- **A registration keeps the tables.** -/
theorem Tables.apply_user (ht : Tables db) (h : UserOk db nextUserID input id account userID) :
    Tables (db.apply sha256 (.user input id account userID)) := by
  have hacc : ∀ u ∈ db.users, u.account ≠ account := fun u hu => ht.free _ h.pool rfl u hu
  constructor
  · exact nodup_append_one ht.userIDs h.fresh
  · exact nodup_append_one ht.accounts hacc
  · exact nodup_append_one ht.phones h.phone
  · rw [ids_apply_user]; exact ht.poolIDs
  · rw [accounts_apply_user]; exact ht.poolAccounts
  · intro p hp
    rcases (mem_apply_pool ht h.pool).1 hp with rfl | ⟨hp, -⟩
    · have hr := ht.range _ h.pool
      exact hr
    · exact ht.range p hp
  · intro u hu
    rcases List.mem_append.1 hu with hu | hu
    · exact ht.below u hu
    · rw [List.mem_singleton.1 hu]
      exact (ht.range _ h.pool).2
  · intro u hu
    rw [apply_requests h.request]
    rcases List.mem_append.1 hu with hu | hu
    · refine (ht.registered u hu).imp_right ?_
      rintro ⟨⟨p, hp, hpa, hps⟩, r, hr, hru⟩
      refine ⟨⟨p, (mem_apply_pool ht h.pool).2 (Or.inr ⟨hp, ?_⟩), hpa, hps⟩, r,
        List.mem_append_left _ hr, hru⟩
      rintro rfl
      rw [eq_of_key ht.poolIDs hp h.pool rfl] at hps
      cases hps
    · rw [List.mem_singleton.1 hu]
      exact Or.inr ⟨⟨_, (mem_apply_pool ht h.pool).2 (Or.inl rfl), rfl, rfl⟩, _,
        List.mem_append_right _ (List.mem_singleton_self _), rfl, rfl⟩
  · intro p hp hps u hu
    rcases (mem_apply_pool ht h.pool).1 hp with rfl | ⟨hp, hid⟩
    · cases hps
    · rcases List.mem_append.1 hu with hu | hu
      · exact ht.free p hp hps u hu
      · rw [List.mem_singleton.1 hu]
        exact fun ha => hid (ht.pool_id h.pool hp ha.symm)
  · exact ht.cursor
  · rw [apply_requests h.request]
    exact nodup_append_one ht.requestIDs h.request
  · intro r hr
    rw [apply_requests h.request] at hr
    rcases List.mem_append.1 hr with hr | hr
    · obtain ⟨u, hu, hru⟩ := ht.filled r hr
      exact ⟨u, List.mem_append_left _ hu, hru⟩
    · rw [List.mem_singleton.1 hr]
      exact ⟨_, List.mem_append_right _ (List.mem_singleton_self _), rfl, rfl⟩
  · rw [apply_requests h.request]
    refine nodup_append_one ht.requestUsers fun r hr he => ?_
    obtain ⟨u, hu, hru, -⟩ := ht.filled r hr
    exact h.fresh u hu (Option.some.inj (hru.symm.trans he))
  · exact freeCount_apply_user.trans ht.freeCount
  · intro p hp
    rcases (mem_apply_pool ht h.pool).1 hp with rfl | ⟨hp, -⟩
    · have hpos := ht.positive _ h.pool
      exact hpos
    · exact ht.positive p hp

/-- What a refill in progress relies on: the cursor is where it read it, the
    pool was low, and the rows it has inserted with the accounts that remain
    are the batch above the cursor. -/
structure AccountsOk (db : RegDb) (nextPoolID finish : ℕ) (rows : List PoolRow) (rest : List ℕ) : Prop where
  batch : ∃ count ≤ kRefillBatch, finish = db.nextStart + count ∧
    (rows.map PoolRow.account ++ rest).Perm (List.range' db.nextStart count)
  finish : finish ≤ kMaxAccount + 1
  low : db.freeCount < kLowWaterMark
  ids : (rows.map PoolRow.id).Nodup
  fresh : ∀ p ∈ rows, p.id < nextPoolID ∧ ∀ q ∈ db.pool, q.id ≠ p.id
  status : ∀ p ∈ rows, p.status = 0
  positive : ∀ p ∈ rows, 0 < p.id

/-- **A refill keeps the tables.** -/
theorem Tables.apply_accounts {nextPoolID finish : ℕ} {rows : List PoolRow} (ht : Tables db)
    (h : AccountsOk db nextPoolID finish rows []) : Tables (db.apply sha256 (.accounts finish rows)) := by
  obtain ⟨count, hcount, hfinish, hperm⟩ := h.batch
  rw [List.append_nil] at hperm
  have hacc : ∀ p ∈ rows, db.nextStart ≤ p.account ∧ p.account < finish := by
    intro p hp
    have := hperm.mem_iff.1 (List.mem_map_of_mem (f := PoolRow.account) hp)
    rw [List.mem_range'_1] at this
    omega
  have hmin : kMinAccount < db.nextStart := lt_trans (by decide) ht.cursor.1
  have hnodup : (rows.map PoolRow.account).Nodup := hperm.nodup_iff.2 List.nodup_range'
  have hlen : rows.length = count := by simpa using hperm.length_eq
  constructor
  · exact ht.userIDs
  · exact ht.accounts
  · exact ht.phones
  · refine (List.map_append ▸ List.nodup_append.2 ⟨ht.poolIDs, h.ids, ?_⟩)
    intro n hn m hm
    obtain ⟨q, hq, rfl⟩ := List.mem_map.1 hn
    obtain ⟨p, hp, rfl⟩ := List.mem_map.1 hm
    exact (h.fresh p hp).2 q hq
  · refine (List.map_append ▸ List.nodup_append.2 ⟨ht.poolAccounts, hnodup, ?_⟩)
    intro n hn m hm
    obtain ⟨q, hq, rfl⟩ := List.mem_map.1 hn
    obtain ⟨p, hp, rfl⟩ := List.mem_map.1 hm
    have := (ht.range q hq).2
    have := (hacc p hp).1
    omega
  · intro p hp
    change _ ∧ p.account < finish
    rcases List.mem_append.1 hp with hp | hp
    · have := ht.range p hp
      omega
    · have := hacc p hp
      omega
  · intro u hu
    change u.account < finish
    have := ht.below u hu
    omega
  · intro u hu
    refine (ht.registered u hu).imp_right ?_
    rintro ⟨⟨p, hp, hpu⟩, hr⟩
    exact ⟨⟨p, List.mem_append_left _ hp, hpu⟩, hr⟩
  · intro p hp hs u hu
    rcases List.mem_append.1 hp with hp | hp
    · exact ht.free p hp hs u hu
    · have := ht.below u hu
      have := (hacc p hp).1
      omega
  · exact ⟨ht.cursor.1.trans_le (by omega : db.nextStart ≤ finish), h.finish⟩
  · exact ht.requestIDs
  · exact ht.filled
  · exact ht.requestUsers
  · have hfree : (db.apply sha256 (.accounts finish rows)).freeCount ≤ db.freeCount + rows.length := by
      simp only [RegDb.freeCount, RegDb.apply, List.filter_append, List.length_append]
      exact Nat.add_le_add_left (List.length_filter_le _ _) _
    have := h.low
    omega
  · intro p hp
    rcases List.mem_append.1 hp with hp | hp
    · exact ht.positive p hp
    · exact h.positive p hp

end

end ApeServer.Registration
