/-
  What registration makes of the account pool.

  * `Write.Ok.nextStart_le`, `step_nextStart`: the cursor only rises;
  * `account_allocation`: users, pool, ledger and cursor agree in every state
    of every run.
-/
import ApeServer.Registration.Outcomes

namespace ApeServer.Registration

section
variable {sha256 : String → Bytes} {w w' : World} {k : ℕ}

/-- The write of a call at its `COMMIT` keeps the tables. -/
theorem Inv.commits (h : Inv w) {write : Write} {done lost : Phase}
    (hc : Commits (w.calls k).phase write done lost) : write.Ok w := by
  have hok := (h.calls k).phase
  generalize (w.calls k).phase = phase at hc hok
  cases hc with
  | user => exact hok
  | accounts => exact hok

theorem Write.Ok.nextStart_le {write : Write} (h : write.Ok w) :
    w.db.nextStart ≤ (w.db.apply sha256 write).nextStart := by
  cases write with
  | user => exact le_rfl
  | accounts finish rows =>
    obtain ⟨count, -, hfinish, -⟩ := AccountsOk.batch h
    change w.db.nextStart ≤ finish
    omega

/-- A step leaves the tables alone, or makes one write durable. -/
theorem step_db {a : Action} {es : List Unit} (h : Inv w) (hs : step sha256 w a = some (w', es)) :
    w'.db = w.db ∨ ∃ write : Write, write.Ok w ∧ w'.db = w.db.apply sha256 write := by
  rcases step_spec hs with hq | ⟨acked, write, done, lost, hc, rfl⟩ | ⟨applied, write, hl, rfl⟩
  · exact Or.inl hq.db
  · cases acked with
    | true => exact Or.inr ⟨write, h.commits hc, rfl⟩
    | false => exact Or.inl rfl
  · cases applied with
    | true => exact Or.inr ⟨write, ((h.calls _).limbo write hl).1, rfl⟩
    | false => exact Or.inl rfl

theorem step_nextStart {a : Action} {es : List Unit} (h : Inv w)
    (hs : step sha256 w a = some (w', es)) : w.db.nextStart ≤ w'.db.nextStart := by
  rcases step_db h hs with hdb | ⟨write, hw, hdb⟩
  · rw [hdb]
  · rw [hdb]
    exact hw.nextStart_le

end

/-- What the tables of registration have to agree on. -/
structure Allocation (db : RegDb) : Prop where
  /-- no two users share an account or a phone -/
  unique : ∀ u ∈ db.users, ∀ u' ∈ db.users, (u.account = u'.account ∨ u.phone = u'.phone) → u = u'
  range : ∀ u ∈ db.users, kMinAccount ≤ u.account ∧ u.account ≤ kMaxAccount
  /-- the account of a registered user is taken from the pool -/
  registered : ∀ u ∈ db.users, u ≠ seedUser → ∃ p ∈ db.pool, p.account = u.account ∧ p.status = 1
  pool : (db.pool.map PoolRow.account).Nodup
  /-- a free account belongs to no user -/
  free : ∀ p ∈ db.pool, p.status = 0 → ∀ u ∈ db.users, u.account ≠ p.account
  /-- all accounts are below the cursor -/
  below : (∀ p ∈ db.pool, p.account < db.nextStart) ∧ ∀ u ∈ db.users, u.account < db.nextStart
  cursor : db.nextStart ≤ kMaxAccount + 1
  /-- a request in the ledger is filled, and matches exactly one user -/
  ledger : ∀ r ∈ db.requests,
    ∃! u, u ∈ db.users ∧ r.userID = some u.userID ∧ r.account = some u.account
  freeCount : db.freeCount ≤ kLowWaterMark - 1 + kRefillBatch

theorem Tables.allocation {db : RegDb} (h : Tables db) : Allocation db where
  unique := by
    rintro u hu u' hu' (he | he)
    · exact Table.eq_of_key h.accounts hu hu' he
    · exact Table.eq_of_key h.phones hu hu' he
  range := by
    intro u hu
    have hbelow := h.below u hu
    have hcursor := h.cursor.2
    refine ⟨?_, by omega⟩
    rcases h.registered u hu with rfl | ⟨⟨p, hp, hpa, -⟩, -⟩
    · decide
    · rw [← hpa]
      exact (h.range p hp).1
  registered := fun u hu hne => ((h.registered u hu).resolve_left hne).1
  pool := h.poolAccounts
  free := h.free
  below := ⟨fun p hp => (h.range p hp).2, h.below⟩
  cursor := h.cursor.2
  ledger := by
    intro r hr
    obtain ⟨u, hu, hid, hacc⟩ := h.filled r hr
    refine ⟨u, ⟨hu, hid, hacc⟩, ?_⟩
    rintro u' ⟨hu', hid', -⟩
    exact Table.eq_of_key h.userIDs hu' hu (Option.some.inj (hid'.symm.trans hid))
  freeCount := h.freeCount

/-- **Account allocation.** In every state of every run users, pool, ledger and
    cursor agree, and the cursor never falls. -/
theorem account_allocation (sha256 : String → Bytes) (T : RegTrace sha256) :
    (∀ i ≤ T.len, Allocation (T.state i).db) ∧
      ∀ i j, i ≤ j → j ≤ T.len → (T.state i).db.nextStart ≤ (T.state j).db.nextStart := by
  constructor
  · intro i hi
    exact (T.inv hi).tables.allocation
  · intro i j hij hj
    exact T.related (R := fun w w' => w.db.nextStart ≤ w'.db.nextStart) (fun i hi => T.inv hi)
      (fun _ => le_rfl) (fun _ _ _ => le_trans) (fun _ _ _ _ h hs => step_nextStart h hs) hij hj

end ApeServer.Registration
