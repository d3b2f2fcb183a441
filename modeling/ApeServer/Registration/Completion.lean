/-
  Whether an accepted registration can be completed.

  `create` runs `once`; without a free account it refills the pool and runs
  `once` again.

  * `Consistent` is the schema with the allocation invariant: every state of
    every run is consistent (`Inv.consistent`);
  * `Offers`: the free account that `once` finds can be used;
  * `RegisterReady.once`: the call gets to a run of `once` with such an account;
  * `OnceReady.registers`, `OnceReady.throws`: how that run ends.
-/
import ApeServer.Registration.Refill
import ApeServer.Registration.Request
import ApeServer.Registration.Allocation

namespace ApeServer.Registration

open StateTransition Table

/-- The keys of the schema, its counters, and the allocation invariant. -/
structure Consistent (w : World) : Prop where
  userIDs : (w.db.users.map UserRow.userID).Nodup
  poolIDs : (w.db.pool.map PoolRow.id).Nodup
  requestIDs : (w.db.requests.map RequestRow.requestID).Nodup
  counters : 0 < w.nextUserID ∧ 0 < w.nextPoolID
  users : ∀ u ∈ w.db.users, u.userID < w.nextUserID
  pool : ∀ p ∈ w.db.pool, 0 < p.id ∧ p.id < w.nextPoolID
  allocation : Allocation w.db
  /-- an account has ten digits -/
  range : kMinAccount ≤ w.db.nextStart ∧ ∀ p ∈ w.db.pool, kMinAccount ≤ p.account

theorem Inv.consistent {w : World} (h : Inv w) : Consistent w where
  userIDs := h.tables.userIDs
  poolIDs := h.tables.poolIDs
  requestIDs := h.tables.requestIDs
  counters := h.counters
  users := h.userIDs
  pool := fun p hp => ⟨h.tables.positive p hp, h.poolIDs p hp⟩
  allocation := h.tables.allocation
  range := by
    have hcursor : seedUser.account < w.db.nextStart := h.tables.cursor.1
    exact ⟨le_trans (by decide) hcursor.le, fun p hp => (h.tables.range p hp).1⟩

/-- The first free account can be used. -/
structure Offers (db : RegDb) (p : PoolRow) : Prop where
  first : db.firstFree = some p
  range : ¬ (p.id = 0 ∨ p.account < kMinAccount ∨ kMaxAccount < p.account)
  fresh : ∀ u ∈ db.users, u.account ≠ p.account

/-- A new registration has been called, and is alone; an account is obtainable. -/
structure RegisterReady (w : World) (k : ℕ) (input : Input) : Prop where
  phase : (w.calls k).phase = .once input false 0 .start
  limbo : (w.calls k).limbo = none
  locks : ∀ l, w.available k l = true
  consistent : Consistent w
  phone : w.db.phoneExists input.user.phone = false
  request : ∀ r ∈ w.db.requests, r.requestID ≠ input.requestID
  obtainable : (∃ p ∈ w.db.pool, p.status = 0) ∨ w.db.nextStart ≤ kMaxAccount

/-- `once` is about to run, and will find an account. -/
structure OnceReady (w : World) (k : ℕ) (input : Input) (second : Bool) (p : PoolRow) : Prop where
  phase : (w.calls k).phase = .once input second 0 .start
  limbo : (w.calls k).limbo = none
  locks : ∀ l, w.available k l = true
  counter : 0 < w.nextUserID
  phone : w.db.phoneExists input.user.phone = false
  request : ∀ r ∈ w.db.requests, r.requestID ≠ input.requestID
  offers : Offers w.db p

/-- The user, the ledger row and the account of a registration. -/
structure Registered (sha256 : String → Bytes) (db : RegDb) (input : Input) (result : Result) : Prop where
  user : (⟨result.userID, result.account, input.user.nickname, input.user.phone, input.user.passwordHash,
    input.user.passwordSalt⟩ : UserRow) ∈ db.users
  ledger : newRequest sha256 input result.account result.userID ∈ db.requests
  account : ∃ p ∈ db.pool, p.account = result.account ∧ p.status = 1

section
variable {sha256 : String → Bytes} {accounts : List ℕ} {w₀ w w' : World} {k : ℕ} {input : Input} {second : Bool}

/-! ## `once` -/

namespace Along

/-- The checks of `once`, up to the pool. -/
theorem phoneFree (g : Along sha256 accounts w₀ w k (.once input second 0 .start))
    (hr : input.refused sha256 .start = false) (hl : ∀ l, w₀.available k l = true)
    (hnew : ∀ r ∈ w₀.db.requests, r.requestID ≠ input.requestID)
    (hphone : w₀.db.phoneExists input.user.phone = false) :
    ∃ w', Along sha256 accounts w₀ w' k (.once input second 0 .phoneFree) := by
  have hnone : w₀.db.request? input.requestID = none := by
    simpa [RegDb.request?, List.find?_eq_none] using hnew
  have g₁ := g.next ((alone_once g.phase hr).trans (stepOnce_opens (g.locks _ (hl _)))) rfl rfl
    (fun _ h => available_acquire h) ⟨le_rfl, le_rfl⟩
  rw [← g₁.db] at hnone hphone
  have g₂ := g₁.next ((alone_once g₁.phase rfl).trans (stepOnce_verifies hnone)) rfl rfl
    (fun _ h => h) ⟨le_rfl, le_rfl⟩
  have g₃ := g₂.next ((alone_once g₂.phase rfl).trans (stepOnce_phone hphone)) rfl rfl
    (fun _ h => h) ⟨le_rfl, le_rfl⟩
  exact ⟨_, g₃⟩

/-- A free account is picked. -/
theorem picked {p : PoolRow} (g : Along sha256 accounts w₀ w k (.once input second 0 .phoneFree))
    (hp : Offers w₀.db p) (hl : ∀ l, w₀.available k l = true) :
    ∃ w', Along sha256 accounts w₀ w' k (.once input second 0 (.picked p.id p.account)) := by
  have hfirst := hp.first
  rw [← g.db] at hfirst
  exact ⟨_, g.next ((alone_once g.phase rfl).trans (stepOnce_picks hfirst (g.locks _ (hl _)) hp.range))
    rfl rfl (fun _ h => available_acquire h) ⟨le_rfl, le_rfl⟩⟩

/-- Without one `create` refills. -/
theorem refills (g : Along sha256 accounts w₀ w k (.once input false 0 .phoneFree))
    (hnone : w₀.db.firstFree = none) :
    ∃ w', Along sha256 accounts w₀ w' k (.refill (some input) kRefillBatch 0 .start) := by
  have hs : stepOnce sha256 w k true true input false 0 .phoneFree =
      some (w.finish k (.refill (some input) kRefillBatch 0 .start)) := by
    simp [stepOnce, g.db, hnone]
  exact ⟨_, g.next ((alone_once g.phase rfl).trans hs) rfl rfl (fun _ h => available_release h)
    ⟨le_rfl, le_rfl⟩⟩

end Along

namespace OnceReady
variable {p : PoolRow}

theorem picked (h : OnceReady w k input second p) (hr : input.refused sha256 .start = false) :
    ∃ w', Along sha256 accounts w w' k (.once input second 0 (.picked p.id p.account)) := by
  have g₀ : Along sha256 accounts w w k _ := .start h.phase h.limbo
  obtain ⟨w₁, g₁⟩ := g₀.phoneFree hr h.locks h.request h.phone
  exact g₁.picked h.offers h.locks

/-- **A user that the server refuses is not registered.** -/
theorem throws (h : OnceReady w k input second p) (hr : input.refused sha256 .start = false)
    (hlong : input.refused sha256 (.picked p.id p.account) = true) :
    ∃ w', Reaches (alone sha256 k accounts) w w' ∧
      (w'.calls k).phase = .threw (some input) (.sql .other) := by
  obtain ⟨w₁, g₁⟩ : ∃ w₁, Along sha256 accounts w w₁ k _ := h.picked hr
  exact ⟨_, .tail g₁.reach (alone_refused g₁.phase hlong), setPhase_phase _ _ _⟩

/-- **Any other one is.** -/
theorem registers (h : OnceReady w k input second p) (hr : input.refused sha256 .start = false)
    (hshort : input.refused sha256 (.picked p.id p.account) = false) :
    ∃ w' result, Reaches (alone sha256 k accounts) w w' ∧
      (w'.calls k).phase = .returned input result ∧ Registered sha256 w'.db input result := by
  have hfree := List.mem_filter.1 (firstBy_mem h.offers.first)
  have hstatus : p.status = 0 := by simpa using hfree.2
  have hfresh : (w.db.users.any fun u => u.account = p.account) = false := by
    simpa using h.offers.fresh
  have hrow : (w.db.pool.any fun q => q.id = p.id && q.status = 0) = true := by
    simpa using ⟨p, hfree.1, rfl, hstatus⟩
  have hphone := h.phone
  obtain ⟨w₁, g₁⟩ : ∃ w₁, Along sha256 accounts w w₁ k _ := h.picked hr
  rw [← g₁.db] at hphone hfresh hrow
  have g₂ := g₁.next ((alone_once g₁.phase hshort).trans (stepOnce_inserts
    ⟨g₁.locks _ (h.locks _), g₁.locks _ (h.locks _)⟩ hphone hfresh (h.counter.trans_le g₁.rises.users)))
    rfl rfl (fun _ h => available_acquire (available_acquire (available_acquire h)))
    ⟨Nat.le_succ _, le_rfl⟩
  have g₃ := g₂.next ((alone_once g₂.phase rfl).trans (stepOnce_allocates hrow)) rfl rfl
    (fun _ h => h) ⟨le_rfl, le_rfl⟩
  have g₄ := g₃.next ((alone_once g₃.phase rfl).trans rfl) rfl rfl (fun _ h => h) ⟨le_rfl, le_rfl⟩
  refine ⟨_, ⟨w₁.nextUserID, p.account⟩, .tail g₄.reach ((alone_once g₄.phase rfl).trans rfl), ?_, ?_⟩
  · rw [commit_phase, if_pos rfl]
  · change Registered sha256 (RegDb.apply sha256 _ (.user input p.id p.account w₁.nextUserID)) input _
    rw [g₄.db]
    refine ⟨List.mem_append_right _ (List.mem_singleton_self _), ?_, ?_⟩
    · rw [apply_requests h.request]
      exact List.mem_append_right _ (List.mem_singleton_self _)
    · exact ⟨{ p with status := 1 }, mem_updateWhere.2 ⟨p, hfree.1, by simp [hstatus]⟩, rfl, rfl⟩

end OnceReady

/-! ## The account -/

theorem Consistent.offers (h : Consistent w) {p : PoolRow} (hfirst : w.db.firstFree = some p) :
    Offers w.db p := by
  have hfree := List.mem_filter.1 (firstBy_mem hfirst)
  have hstatus : p.status = 0 := by simpa using hfree.2
  refine ⟨hfirst, ?_, h.allocation.free p hfree.1 hstatus⟩
  have := (h.pool p hfree.1).1
  have := h.range.2 p hfree.1
  have := h.allocation.below.1 p hfree.1
  have := h.allocation.cursor
  omega

/-- After a refill there is an account. -/
theorem RefillEnds.offers {input : Option Input} {batch : ℕ} (h : RefillEnds sha256 accounts w w' k input batch)
    (hready : RefillReady w k input batch) (hnone : w.db.firstFree = none) (hcounter : 0 < w.nextPoolID) :
    w'.db.users = w.db.users ∧ w'.db.requests = w.db.requests ∧ ∃ p, Offers w'.db p := by
  have hused : ∀ p ∈ w.db.pool, p.status ≠ 0 := by
    simpa [List.filter_eq_nil_iff] using firstBy_eq_none hnone
  have hlow : ¬ kLowWaterMark ≤ w.db.freeCount := by
    simp [RegDb.freeCount, firstBy_eq_none hnone, kLowWaterMark]
  have hends := h.refilled
  rw [Refilled, if_neg hlow] at hends
  obtain ⟨rows, hperm, hstatus, hdb⟩ := hends
  have hcount : 0 < refillCount w.db.nextStart batch ∧
      refillCount w.db.nextStart batch ≤ kMaxAccount - w.db.nextStart + 1 := by
    have := hready.batch
    unfold refillCount
    omega
  have hne : rows ≠ [] := by
    rintro rfl
    have := hperm.length_eq
    simp at this
    omega
  refine ⟨by rw [hdb], by rw [hdb], ?_⟩
  cases hfirst : w'.db.firstFree with
  | none =>
    obtain ⟨r, rs, rfl⟩ := List.exists_cons_of_ne_nil hne
    have hall := List.filter_eq_nil_iff.1 (firstBy_eq_none hfirst) r (by rw [hdb]; simp)
    simp [hstatus r List.mem_cons_self] at hall
  | some p =>
    have hfree := List.mem_filter.1 (firstBy_mem hfirst)
    have hfreeStatus : p.status = 0 := by simpa using hfree.2
    have hold : p ∉ w.db.pool := fun hp => hused p hp hfreeStatus
    have hid := (h.ids p hfree.1).resolve_left hold
    have hnew : p ∈ rows := by
      have hmem := hfree.1
      rw [hdb] at hmem
      exact (List.mem_append.1 hmem).resolve_left hold
    have haccount := List.mem_range'_1.1 (hperm.mem_iff.1 (List.mem_map_of_mem (f := PoolRow.account) hnew))
    refine ⟨p, hfirst, ?_, ?_⟩
    · have := hready.start
      omega
    · intro u hu
      rw [hdb] at hu
      have := hready.users u hu
      omega

/-! ## `create` -/

/-- Without a free account the call gets to its refill. -/
theorem RegisterReady.refills (h : RegisterReady w k input) (hr : input.refused sha256 .start = false)
    (hnone : w.db.firstFree = none) :
    ∃ w₁, Along sha256 accounts w w₁ k (.refill (some input) kRefillBatch 0 .start) ∧
      RefillReady w₁ k (some input) kRefillBatch := by
  have g₀ : Along sha256 accounts w w k _ := .start h.phase h.limbo
  obtain ⟨w₁, g₁⟩ := g₀.phoneFree hr h.locks h.request h.phone
  obtain ⟨w₂, g₂⟩ := g₁.refills hnone
  have hused : ¬ ∃ p ∈ w.db.pool, p.status = 0 := by
    simpa [List.filter_eq_nil_iff] using firstBy_eq_none hnone
  refine ⟨w₂, g₂, ?_⟩
  constructor
  · exact g₂.phase
  · exact g₂.limbo
  · exact g₂.locks _ (h.locks _)
  · rw [g₂.db]
    exact ⟨h.consistent.range.1, h.obtainable.resolve_left hused⟩
  · rw [g₂.db]
    exact h.consistent.allocation.below.2
  · rw [g₂.db]
    exact h.consistent.allocation.below.1
  · decide

/-- **The call gets to a run of `once` that finds an account.** -/
theorem RegisterReady.once (h : RegisterReady w k input) (hr : input.refused sha256 .start = false)
    (hrow : w.db.users ≠ [] ∨ w.db.pool ≠ [])
    (hperm : accounts.Perm (List.range' w.db.nextStart (refillCount w.db.nextStart kRefillBatch))) :
    ∃ w₁ second p, Reaches (alone sha256 k accounts) w w₁ ∧ OnceReady w₁ k input second p := by
  cases hfirst : w.db.firstFree with
  | some p =>
    exact ⟨w, false, p, .refl, h.phase, h.limbo, h.locks, h.consistent.counters.1, h.phone, h.request,
      h.consistent.offers hfirst⟩
  | none =>
    obtain ⟨w₁, g, hready⟩ : ∃ w₁, Along sha256 accounts w w₁ k _ ∧ _ := h.refills hr hfirst
    rw [← g.db] at hfirst hrow hperm
    obtain ⟨w₂, hends⟩ := hready.completes hrow hperm
    obtain ⟨husers, hrequests, p, hp⟩ := hends.offers hready hfirst
      (h.consistent.counters.2.trans_le g.rises.pool)
    refine ⟨w₂, true, p, g.reach.trans hends.reach, ?_⟩
    constructor
    · exact hends.phase
    · exact hends.limbo
    · exact fun l => hends.locks l (g.locks l (h.locks l))
    · exact h.consistent.counters.1.trans_le (g.rises.users.trans hends.rises.users)
    · rw [RegDb.phoneExists, husers, g.db]
      exact h.phone
    · rw [hrequests, g.db]
      exact h.request
    · exact hp

end

/-- **What the registration of an accepted request is meant to do**: whatever the
    shuffle, it returns a result that is committed. -/
def Completes (sha256 : String → Bytes) (w : World) (k : ℕ) (input : Input) : Prop :=
  ∀ accounts : List ℕ,
    accounts.Perm (List.range' w.db.nextStart (refillCount w.db.nextStart kRefillBatch)) →
    ∃ w' result, Reaches (alone sha256 k accounts) w w' ∧
      (w'.calls k).phase = .returned input result ∧ Registered sha256 w'.db input result

section
variable {sha256 : String → Bytes} {w : World} {k : ℕ} {input : Input}

theorem RegisterReady.completes (h : RegisterReady w k input) (hr : input.refused sha256 .start = false)
    (hshort : ∀ id account, input.refused sha256 (.picked id account) = false)
    (hrow : w.db.users ≠ [] ∨ w.db.pool ≠ []) : Completes sha256 w k input := by
  intro accounts hperm
  obtain ⟨w₁, second, p, hreach, hready⟩ := h.once hr hrow hperm
  obtain ⟨w₂, result, hreach', hp, hresult⟩ := hready.registers hr (hshort _ _)
  exact ⟨w₂, result, hreach.trans hreach', hp, hresult⟩

/-- Without any account it gets no further than its refill. -/
theorem RegisterReady.not_completes_of_empty (h : RegisterReady w k input)
    (hr : input.refused sha256 .start = false) (hempty : w.db.users = [] ∧ w.db.pool = []) :
    ¬ Completes sha256 w k input := by
  intro hc
  obtain ⟨w', result, hreach, hp, -⟩ := hc _ (List.Perm.refl _)
  have hnone : w.db.firstFree = none := by simp [RegDb.firstFree, hempty.2, Table.firstBy]
  obtain ⟨w₁, g, hready⟩ := h.refills hr hnone
  rw [← g.db] at hempty
  rcases hready.stuck hempty (reaches_end g.reach hreach (by rw [hp]; trivial)) with ⟨stage, hp'⟩ | hp'
  · rw [hp] at hp'
    cases hp'
  · rw [hp] at hp'
    cases hp'

/-- With a text that is too long it throws. -/
theorem RegisterReady.not_completes_of_long (h : RegisterReady w k input)
    (hr : input.refused sha256 .start = false)
    (hlong : ∀ id account, input.refused sha256 (.picked id account) = true)
    (hrow : w.db.users ≠ [] ∨ w.db.pool ≠ []) : ¬ Completes sha256 w k input := by
  intro hc
  obtain ⟨w', result, hreach, hp, -⟩ := hc _ (List.Perm.refl _)
  obtain ⟨w₁, second, p, hreach₁, hready⟩ := h.once hr hrow (List.Perm.refl _)
  obtain ⟨w₂, hreach₂, hp₂⟩ := hready.throws hr (hlong _ _)
  have heq := ends_unique (hreach₁.trans hreach₂) (by rw [hp₂]; trivial) hreach (by rw [hp]; trivial)
  rw [heq, hp] at hp₂
  cases hp₂

end

/-- **Completion of registrations.** An accepted registration completes exactly
    when its nickname fits its column and there is a user or an account in
    the pool. -/
theorem registration_completes (sha256 : String → Bytes) (hsize : ∀ s, (sha256 s).length = 32)
    (uuid : String) (request : RegisterRequest) (input : Input) (w : World) (k : ℕ)
    (haccepted : request.register sha256 uuid = .ok input) (h : RegisterReady w k input) :
    Completes sha256 w k input ↔
      request.nickname.length ≤ 64 ∧ (w.db.users ≠ [] ∨ w.db.pool ≠ []) := by
  have hr := register_start hsize haccepted
  have hpicked := register_picked hsize haccepted
  constructor
  · intro hc
    have hrow : w.db.users ≠ [] ∨ w.db.pool ≠ [] := by
      by_contra hempty
      rw [not_or, not_not, not_not] at hempty
      exact h.not_completes_of_empty hr hempty hc
    refine ⟨?_, hrow⟩
    by_contra hlong
    refine h.not_completes_of_long hr (fun id account => ?_) hrow hc
    rw [hpicked]
    simpa [tooLong] using hlong
  · rintro ⟨hshort, hrow⟩
    refine h.completes hr (fun id account => ?_) hrow
    rw [hpicked]
    exact tooLong_of_le hshort

/-! ## Two requests -/

def sampleUuid : String := "0f8fad5b-d9cb-469f-a165-70867728950e"

/-- A request of somebody with the nickname. -/
def sampleRequest (nickname : String) : RegisterRequest :=
  ⟨some "5c1f0a52-test", "13900000000", nickname, "secret"⟩

/-- The nickname `xxx…`, a character too long. -/
def longNickname : String := String.ofList (List.replicate 65 'x')

/-- The hashes of their passwords and of their payloads. -/
def sampleSha256 (s : String) : Bytes :=
  if s = generateSalt sampleUuid ++ "secret" then
    [127, 77, 253, 106, 129, 0, 178, 74, 33, 6, 207, 169, 105, 137, 66, 158,
      109, 81, 75, 156, 255, 220, 129, 159, 117, 157, 7, 216, 54, 253, 219, 43]
  else if s = payload (generateSalt sampleUuid) (payload "13900000000" "Alice" "secret") "" then
    [202, 135, 156, 197, 84, 162, 85, 143, 219, 227, 241, 74, 47, 182, 187, 158,
      108, 30, 66, 219, 65, 178, 31, 84, 71, 130, 141, 24, 40, 162, 183, 9]
  else if s = payload (generateSalt sampleUuid) (payload "13900000000" longNickname "secret") "" then
    [171, 131, 87, 102, 45, 168, 61, 161, 47, 162, 115, 119, 192, 28, 125, 169,
      152, 88, 27, 91, 92, 252, 105, 180, 97, 225, 146, 198, 2, 247, 62, 178]
  else List.replicate 32 0

theorem length_sampleSha256 (s : String) : (sampleSha256 s).length = 32 := by
  unfold sampleSha256
  split_ifs <;> rfl

/-- The call of `register_user` with an input, on the seeded tables. -/
def registering (input : Input) : World where
  db := .seeded
  calls := fun _ => ⟨.once input false 0 .start, none⟩

theorem registerReady_seeded (nickname : String) :
    RegisterReady (registering ((sampleRequest nickname).input sampleSha256 sampleUuid)) 0
      ((sampleRequest nickname).input sampleSha256 sampleUuid) where
  phase := rfl
  limbo := rfl
  locks := fun _ => rfl
  consistent := by
    obtain ⟨h₁, h₂, h₃, h₄, h₅, h₆, h₇, h₈⟩ := inv_start.consistent
    exact ⟨h₁, h₂, h₃, h₄, h₅, h₆, h₇, h₈⟩
  phone := by simp [registering, RegDb.phoneExists, RegDb.seeded, seedUser, RegisterRequest.input, sampleRequest]
  request := by simp [registering, RegDb.seeded]
  obtainable := Or.inr (show 1000000002 ≤ kMaxAccount by decide)

theorem sampleRequest_accepted :
    (sampleRequest "Alice").register sampleSha256 sampleUuid =
      .ok ((sampleRequest "Alice").input sampleSha256 sampleUuid) := if_neg (by decide)

theorem registration_completes_sample :
    Completes sampleSha256 (registering ((sampleRequest "Alice").input sampleSha256 sampleUuid)) 0
      ((sampleRequest "Alice").input sampleSha256 sampleUuid) :=
  (registration_completes sampleSha256 length_sampleSha256 sampleUuid (sampleRequest "Alice") _ _ 0
    sampleRequest_accepted (registerReady_seeded "Alice")).2
    ⟨by decide, Or.inl (by simp [registering, RegDb.seeded])⟩

/-- A nickname of 65 characters is accepted, and cannot be registered. -/
theorem registration_long_nickname :
    (sampleRequest longNickname).register sampleSha256 sampleUuid =
        .ok ((sampleRequest longNickname).input sampleSha256 sampleUuid) ∧
      RegisterReady (registering ((sampleRequest longNickname).input sampleSha256 sampleUuid)) 0
        ((sampleRequest longNickname).input sampleSha256 sampleUuid) ∧
      ¬ Completes sampleSha256 (registering ((sampleRequest longNickname).input sampleSha256 sampleUuid)) 0
        ((sampleRequest longNickname).input sampleSha256 sampleUuid) := by
  have haccepted : (sampleRequest longNickname).register sampleSha256 sampleUuid =
      .ok ((sampleRequest longNickname).input sampleSha256 sampleUuid) := if_neg (by decide)
  have hready := registerReady_seeded longNickname
  refine ⟨haccepted, hready, hready.not_completes_of_long (register_start length_sampleSha256 haccepted)
    (fun id account => ?_) (Or.inl (by simp [registering, RegDb.seeded]))⟩
  rw [register_picked length_sampleSha256 haccepted]
  decide

end ApeServer.Registration
