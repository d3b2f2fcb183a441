/-
  What a refill of the account pool does when no statement of it fails.

  `number` takes the greatest account of the two tables for a number.  When
  both tables are empty it is `NULL`, and the refill throws.

  * `RefillReady` is the state before it, `Refilled` what it has to make of the
    tables;
  * `Along.inserted`: the loop over the batch, a thousand rows at a time;
  * `RefillReady.completes`, `RefillReady.stuck`: how it ends;
  * `refill_before`: until its `COMMIT` it leaves the tables alone, whatever
    fails.
-/
import ApeServer.Registration.Alone

namespace ApeServer.Registration

open StateTransition Relation

/-- How many accounts a refill adds. -/
def refillCount (start batch : ℕ) : ℕ := min batch (kMaxAccount - start + 1)

/-- What a refill has to make of the tables. -/
def Refilled (db db' : RegDb) (batch : ℕ) : Prop :=
  if kLowWaterMark ≤ db.freeCount then db' = db
  else ∃ rows : List PoolRow,
    (rows.map PoolRow.account).Perm (List.range' db.nextStart (refillCount db.nextStart batch)) ∧
    (∀ p ∈ rows, p.status = 0) ∧
    db' = { db with
      pool := db.pool ++ rows
      nextStart := db.nextStart + refillCount db.nextStart batch }

/-- What `number` throws for the greatest account of no account. -/
def noMaximum : RegError := ⟨"SCHEMA_ERROR", "Expected a nonnegative integer at refill.greatest_max"⟩

/-- What a refill throws when its `COMMIT` was not answered. -/
def refillUncertain : RegError :=
  ⟨"REFILL_UNCERTAIN", "Refill outcome unknown; retry registration with the same request ID"⟩

/-- A refill is about to start: nobody has the cursor, and all accounts are
    below it. -/
structure RefillReady (w : World) (k : ℕ) (input : Option Input) (batch : ℕ) : Prop where
  phase : (w.calls k).phase = .refill input batch 0 .start
  limbo : (w.calls k).limbo = none
  cursor : w.available k .cursor = true
  start : kMinAccount ≤ w.db.nextStart ∧ w.db.nextStart ≤ kMaxAccount
  users : ∀ u ∈ w.db.users, u.account < w.db.nextStart
  pool : ∀ p ∈ w.db.pool, p.account < w.db.nextStart
  batch : 0 < batch ∧ batch ≤ kRefillBatch

/-- How a refill ends that nothing stops. -/
structure RefillEnds (sha256 : String → Bytes) (accounts : List ℕ) (w w' : World) (k : ℕ)
    (input : Option Input) (batch : ℕ) : Prop where
  reach : Reaches (alone sha256 k accounts) w w'
  phase : (w'.calls k).phase = afterRefill input
  limbo : (w'.calls k).limbo = none
  refilled : Refilled w.db w'.db batch
  locks : ∀ l, w.available k l = true → w'.available k l = true
  rises : Rises w w'
  ids : ∀ p ∈ w'.db.pool, p ∈ w.db.pool ∨ w.nextPoolID ≤ p.id

section
variable {sha256 : String → Bytes} {accounts : List ℕ} {w₀ w w' : World} {k batch : ℕ} {input : Option Input}

/-! ## The statements -/

namespace Along

theorem locked (g : Along sha256 accounts w₀ w k (.refill input batch 0 .start))
    (hbatch : 0 < batch ∧ batch ≤ kRefillBatch) (hfree : w₀.available k .cursor = true) :
    ∃ w', Along sha256 accounts w₀ w' k (.refill input batch 0 (.locked w₀.db.nextStart)) := by
  have hs : stepRefill sha256 w k true true accounts input batch 0 .start =
      some ((w.acquire k .cursor).setPhase k (.refill input batch 0 (.locked w.db.nextStart))) := by
    have hb : ¬ (batch = 0 ∨ kRefillBatch < batch) := by omega
    simp only [stepRefill, hb, g.locks _ hfree, if_true, if_false]
  rw [← g.db]
  exact ⟨_, g.next ((alone_refill g.phase).trans hs) rfl rfl (fun _ h => available_acquire h) ⟨le_rfl, le_rfl⟩⟩

theorem counted {start : ℕ} (g : Along sha256 accounts w₀ w k (.refill input batch 0 (.locked start)))
    (hlow : ¬ kLowWaterMark ≤ w₀.db.freeCount) :
    ∃ w', Along sha256 accounts w₀ w' k (.refill input batch 0 (.counted start)) := by
  have hs : stepRefill sha256 w k true true accounts input batch 0 (.locked start) =
      some (w.setPhase k (.refill input batch 0 (.counted start))) := by
    simp only [stepRefill, g.db, hlow, if_false]
  exact ⟨_, g.next ((alone_refill g.phase).trans hs) rfl rfl (fun _ h => h) ⟨le_rfl, le_rfl⟩⟩

theorem checked {start maximum : ℕ}
    (g : Along sha256 accounts w₀ w k (.refill input batch 0 (.counted start)))
    (hmax : w₀.db.maximum = some maximum) (hlt : maximum < start)
    (hstart : kMinAccount ≤ start ∧ start ≤ kMaxAccount) :
    ∃ w', Along sha256 accounts w₀ w' k (.refill input batch 0 (.checked start)) := by
  have hs : stepRefill sha256 w k true true accounts input batch 0 (.counted start) =
      some (w.setPhase k (.refill input batch 0 (.checked start))) := by
    have h₁ : ¬ (start < kMinAccount ∨ start ≤ maximum) := by omega
    have h₂ : ¬ kMaxAccount < start := by omega
    simp only [stepRefill, g.db, hmax, h₁, h₂, if_false]
  exact ⟨_, g.next ((alone_refill g.phase).trans hs) rfl rfl (fun _ h => h) ⟨le_rfl, le_rfl⟩⟩

theorem shuffled {start : ℕ} (g : Along sha256 accounts w₀ w k (.refill input batch 0 (.checked start)))
    (hperm : accounts.Perm (List.range' start (refillCount start batch))) :
    ∃ w', Along sha256 accounts w₀ w' k
      (.refill input batch 0 (.inserting (start + refillCount start batch) [] accounts)) := by
  have hs : stepRefill sha256 w k true true accounts input batch 0 (.checked start) =
      some (w.setPhase k
        (.refill input batch 0 (.inserting (start + refillCount start batch) [] accounts))) := by
    simp only [stepRefill]
    exact if_pos hperm
  exact ⟨_, g.next ((alone_refill g.phase).trans hs) rfl rfl (fun _ h => h) ⟨le_rfl, le_rfl⟩⟩

/-- A further thousand rows. -/
theorem insertsRows {finish : ℕ} {rows : List PoolRow} {rest : List ℕ}
    (g : Along sha256 accounts w₀ w k (.refill input batch 0 (.inserting finish rows rest)))
    (hne : rest ≠ []) (hfresh : ∀ p ∈ w₀.db.pool, p.account ∉ rest) :
    ∃ w', Along sha256 accounts w₀ w' k (.refill input batch 0
      (.inserting finish (rows ++ newRows w.nextPoolID (rest.take 1000)) (rest.drop 1000))) := by
  obtain ⟨a, as, rfl⟩ := List.exists_cons_of_ne_nil hne
  have hdup : (w.db.pool.any fun p => ((a :: as).take 1000).contains p.account) = false := by
    rw [g.db]
    simp only [List.any_eq_false, List.contains_eq_mem, decide_eq_true_eq]
    exact fun p hp hmem => hfresh p hp (List.mem_of_mem_take hmem)
  have hs : stepRefill sha256 w k true true accounts input batch 0 (.inserting finish rows (a :: as)) =
      some (World.setPhase { w with nextPoolID := w.nextPoolID + ((a :: as).take 1000).length } k
        (.refill input batch 0 (.inserting finish
          (rows ++ newRows w.nextPoolID ((a :: as).take 1000)) ((a :: as).drop 1000)))) := by
    simp only [stepRefill, hdup, Bool.false_eq_true, if_false]
    rfl
  exact ⟨_, g.next ((alone_refill g.phase).trans hs) rfl rfl (fun _ h => h) ⟨le_rfl, Nat.le_add_right _ _⟩⟩

/-- **The loop of the refill** inserts one row for each account that remains. -/
theorem inserted {finish : ℕ} {rows : List PoolRow} {rest : List ℕ}
    (g : Along sha256 accounts w₀ w k (.refill input batch 0 (.inserting finish rows rest)))
    (hfresh : ∀ p ∈ w₀.db.pool, p.account ∉ rest) :
    ∃ w' new, Along sha256 accounts w₀ w' k
        (.refill input batch 0 (.inserting finish (rows ++ new) [])) ∧
      new.map PoolRow.account = rest ∧ ∀ p ∈ new, p.status = 0 ∧ w₀.nextPoolID ≤ p.id := by
  -- the accounts that remain become fewer
  induction hlen : rest.length using Nat.strong_induction_on generalizing w rows rest with
  | _ n ih =>
    by_cases hne : rest = []
    · subst hne
      exact ⟨w, [], by simpa using g, rfl, by simp⟩
    · obtain ⟨w₁, g₁⟩ := g.insertsRows hne hfresh
      have hpos := List.length_pos_of_ne_nil hne
      obtain ⟨w', new, g', hnew, hrows⟩ := ih _ (by rw [List.length_drop]; omega) g₁
        (fun p hp hmem => hfresh p hp (List.mem_of_mem_drop hmem)) rfl
      refine ⟨w', newRows w.nextPoolID (rest.take 1000) ++ new, ?_, ?_, ?_⟩
      · rwa [← List.append_assoc]
      · rw [List.map_append, newRows_accounts, hnew, List.take_append_drop]
      · intro p hp
        rcases List.mem_append.1 hp with hp | hp
        · obtain ⟨hid, -, hstatus⟩ := mem_newRows hp
          exact ⟨hstatus, g.rises.pool.trans hid⟩
        · exact hrows p hp

end Along

/-! ## How it ends -/

/-- The greatest account, where there is one. -/
theorem RefillReady.maximum (h : RefillReady w k input batch) (hrow : w.db.users ≠ [] ∨ w.db.pool ≠ []) :
    ∃ maximum, w.db.maximum = some maximum ∧ maximum < w.db.nextStart := by
  have hne : w.db.users.map UserRow.account ++ w.db.pool.map PoolRow.account ≠ [] := by
    simpa [imp_iff_not_or] using hrow
  obtain ⟨maximum, hmax⟩ := Option.isSome_iff_exists.1 (List.isSome_max?_of_ne_nil hne)
  refine ⟨maximum, hmax, ?_⟩
  rcases List.mem_append.1 (List.max?_mem hmax) with hm | hm
  · obtain ⟨u, hu, rfl⟩ := List.mem_map.1 hm
    exact h.users u hu
  · obtain ⟨p, hp, rfl⟩ := List.mem_map.1 hm
    exact h.pool p hp

/-- With enough free accounts it ends at once. -/
theorem RefillReady.enough (h : RefillReady w k input batch) (hlow : kLowWaterMark ≤ w.db.freeCount) :
    ∃ w', RefillEnds sha256 accounts w w' k input batch := by
  have g₀ : Along sha256 accounts w w k _ := .start h.phase h.limbo
  obtain ⟨w₁, g₁⟩ := g₀.locked h.batch h.cursor
  have hs : stepRefill sha256 w₁ k true true accounts input batch 0 (.locked w.db.nextStart) =
      some (w₁.finish k (afterRefill input)) := by
    simp only [stepRefill, g₁.db, hlow, if_true]
  have g₂ := g₁.next ((alone_refill g₁.phase).trans hs) rfl rfl (fun _ h => available_release h)
    ⟨le_rfl, le_rfl⟩
  refine ⟨_, g₂.reach, g₂.phase, g₂.limbo, ?_, g₂.locks, g₂.rises, fun p hp => Or.inl ?_⟩
  · rw [Refilled, if_pos hlow]
    exact g₂.db
  · rwa [← g₂.db]

/-- **A refill completes** when there is an account already. -/
theorem RefillReady.completes (h : RefillReady w k input batch) (hrow : w.db.users ≠ [] ∨ w.db.pool ≠ [])
    (hperm : accounts.Perm (List.range' w.db.nextStart (refillCount w.db.nextStart batch))) :
    ∃ w', RefillEnds sha256 accounts w w' k input batch := by
  by_cases hlow : kLowWaterMark ≤ w.db.freeCount
  · exact h.enough hlow
  obtain ⟨maximum, hmax, hlt⟩ := h.maximum hrow
  have hfresh : ∀ p ∈ w.db.pool, p.account ∉ accounts := by
    intro p hp hmem
    have := h.pool p hp
    have := List.mem_range'_1.1 (hperm.mem_iff.1 hmem)
    omega
  have g₀ : Along sha256 accounts w w k _ := .start h.phase h.limbo
  obtain ⟨w₁, g₁⟩ := g₀.locked h.batch h.cursor
  obtain ⟨w₂, g₂⟩ := g₁.counted hlow
  obtain ⟨w₃, g₃⟩ := g₂.checked hmax hlt h.start
  obtain ⟨w₄, g₄⟩ := g₃.shuffled hperm
  obtain ⟨w₅, rows, g₅, haccounts, hrows⟩ := g₄.inserted hfresh
  let write : Write := .accounts (w.db.nextStart + refillCount w.db.nextStart batch) rows
  let done := w₅.commit sha256 k true write (afterRefill input) (.threw input (.error refillUncertain))
  have hs : alone sha256 k accounts w₅ = some done := (alone_refill g₅.phase).trans rfl
  have hdb : done.db = w.db.apply sha256 write := by
    rw [← g₅.db]
    rfl
  refine ⟨done, .tail g₅.reach hs, by rw [commit_phase, if_pos rfl], ?_, ?_, ?_,
    ⟨g₅.rises.users, g₅.rises.pool⟩, ?_⟩
  · simp [done, World.commit, World.finish, World.release, World.setPhase, g₅.limbo]
  · rw [Refilled, if_neg hlow]
    exact ⟨rows, haccounts ▸ hperm, fun p hp => (hrows p hp).1, hdb⟩
  · exact fun l hl => available_release (g₅.locks l hl)
  · intro p hp
    rw [hdb] at hp
    exact (List.mem_append.1 hp).imp_right fun hp => (hrows p hp).2

/-- **A refill never completes** when there is no account yet. -/
theorem RefillReady.stuck (h : RefillReady w k input batch) (hempty : w.db.users = [] ∧ w.db.pool = [])
    (hr : Reaches (alone sha256 k accounts) w w') :
    (∃ stage, (w'.calls k).phase = .refill input batch 0 stage) ∨
      (w'.calls k).phase = .threw input (.error noMaximum) := by
  suffices hinv : w'.db = w.db ∧ ((w'.calls k).phase = .refill input batch 0 .start ∨
      (∃ n, (w'.calls k).phase = .refill input batch 0 (.locked n)) ∨
      (∃ n, (w'.calls k).phase = .refill input batch 0 (.counted n)) ∨
      (w'.calls k).phase = .threw input (.error noMaximum)) by
    rcases hinv.2 with hp | ⟨n, hp⟩ | ⟨n, hp⟩ | hp
    · exact Or.inl ⟨_, hp⟩
    · exact Or.inl ⟨_, hp⟩
    · exact Or.inl ⟨_, hp⟩
    · exact Or.inr hp
  have hfree : ¬ kLowWaterMark ≤ w.db.freeCount := by simp [RegDb.freeCount, hempty.2, kLowWaterMark]
  have hmax : w.db.maximum = none := by simp [RegDb.maximum, hempty]
  have hbatch : ¬ (batch = 0 ∨ kRefillBatch < batch) := by
    have := h.batch
    omega
  induction hr with
  | refl => exact ⟨rfl, Or.inl h.phase⟩
  | @tail w₁ w₂ _ hs ih =>
    obtain ⟨hdb, hp | ⟨n, hp⟩ | ⟨n, hp⟩ | hp⟩ := ih
    · rw [Option.mem_def, alone_refill hp] at hs
      simp only [stepRefill, hbatch, if_false] at hs
      split_ifs at hs
      cases hs
      exact ⟨hdb, Or.inr (Or.inl ⟨_, setPhase_phase _ _ _⟩)⟩
    · rw [Option.mem_def, alone_refill hp] at hs
      simp only [stepRefill, hdb, hfree, if_false] at hs
      cases hs
      exact ⟨hdb, Or.inr (Or.inr (Or.inl ⟨_, setPhase_phase _ _ _⟩))⟩
    · rw [Option.mem_def, alone_refill hp] at hs
      simp only [stepRefill, hdb, hmax] at hs
      cases hs
      exact ⟨hdb, Or.inr (Or.inr (Or.inr (setPhase_phase _ _ _)))⟩
    · rw [Option.mem_def, alone_final (by rw [hp]; trivial)] at hs
      cases hs

/-! ## Faults -/

/-- A step of the call while it refills; any statement may fail. -/
def RefillStep (sha256 : String → Bytes) (k : ℕ) (w w' : World) : Prop :=
  (∃ input batch attempt stage, (w.calls k).phase = .refill input batch attempt stage) ∧
    ∃ a es, a.call = k ∧ step sha256 w a = some (w', es)

/-- Until its `COMMIT` a refill leaves the tables alone. -/
theorem refill_before (hl : (w.calls k).limbo = none) (hr : ReflTransGen (RefillStep sha256 k) w w') :
    (w'.db = w.db ∧ (w'.calls k).limbo = none) ∨
      (∃ input, (w'.calls k).phase = afterRefill input) ∨
      ∃ input, (w'.calls k).phase = .threw input (.error refillUncertain) := by
  induction hr with
  | refl => exact Or.inl ⟨rfl, hl⟩
  | @tail w₁ w₂ _ hs ih =>
    obtain ⟨⟨input, batch, attempt, stage, hp⟩, a, es, rfl, hstep⟩ := hs
    rcases ih with ⟨hdb, hlimbo⟩ | ⟨input', hp'⟩ | ⟨input', hp'⟩
    · rcases step_spec hstep with hq | ⟨acked, write, done, lost, hc, rfl⟩ | ⟨applied, write, hw, rfl⟩
      · obtain ⟨phase, hcalls, -⟩ := hq.moves
        exact Or.inl ⟨hq.db.trans hdb, by rw [hcalls, Function.update_self]; exact hlimbo⟩
      · rw [hp] at hc
        cases hc
        rw [commit_phase]
        cases acked with
        | true => exact Or.inr (Or.inl ⟨input, rfl⟩)
        | false => exact Or.inr (Or.inr ⟨input, rfl⟩)
      · rw [hlimbo] at hw
        cases hw
    · rw [hp] at hp'
      cases input' <;> cases hp'
    · rw [hp] at hp'
      cases hp'

end

/-! ## The specification -/

/-- **What a refill is meant to do.** -/
structure RefillMeets (sha256 : String → Bytes) (w : World) (k : ℕ) (input : Option Input) (batch : ℕ) :
    Prop where
  /-- whatever the shuffle, it returns, and its tables are the specified ones -/
  completes : ∀ accounts : List ℕ,
    accounts.Perm (List.range' w.db.nextStart (refillCount w.db.nextStart batch)) →
    ∃ w', Reaches (alone sha256 k accounts) w w' ∧ (w'.calls k).phase = afterRefill input ∧
      Refilled w.db w'.db batch
  /-- if it throws before `COMMIT`, whatever failed, nothing changes, now or later -/
  unchanged : ∀ w' input' e, ReflTransGen (RefillStep sha256 k) w w' →
    (w'.calls k).phase = .threw input' e → e ≠ .error refillUncertain →
    w'.db = w.db ∧ (w'.calls k).limbo = none

theorem RefillReady.meets {sha256 : String → Bytes} {w : World} {k batch : ℕ} {input : Option Input}
    (h : RefillReady w k input batch) (hrow : w.db.users ≠ [] ∨ w.db.pool ≠ []) :
    RefillMeets sha256 w k input batch where
  completes := by
    intro accounts hperm
    obtain ⟨w', hw'⟩ := h.completes hrow hperm
    exact ⟨w', hw'.reach, hw'.phase, hw'.refilled⟩
  unchanged := by
    intro w' input' e hr hp he
    rcases refill_before h.limbo hr with hsame | ⟨input'', hp'⟩ | ⟨input'', hp'⟩
    · exact hsame
    · rw [hp] at hp'
      cases input'' <;> cases hp'
    · rw [hp] at hp'
      cases hp'
      exact absurd rfl he

theorem RefillReady.not_meets {sha256 : String → Bytes} {w : World} {k batch : ℕ} {input : Option Input}
    (h : RefillReady w k input batch) (hempty : w.db.users = [] ∧ w.db.pool = []) :
    ¬ RefillMeets sha256 w k input batch := by
  intro hm
  obtain ⟨w', hr, hp, -⟩ := hm.completes _ (List.Perm.refl _)
  rcases h.stuck hempty hr with ⟨stage, hp'⟩ | hp'
  all_goals
    rw [hp] at hp'
    cases input <;> cases hp'

/-- **Account refill.** A refill meets its specification exactly when there is a
    user or an account in the pool. -/
theorem account_refill (sha256 : String → Bytes) (w : World) (k : ℕ) (input : Option Input) (batch : ℕ)
    (h : RefillReady w k input batch) :
    RefillMeets sha256 w k input batch ↔ w.db.users ≠ [] ∨ w.db.pool ≠ [] := by
  constructor
  · intro hm
    by_contra hempty
    rw [not_or, not_not, not_not] at hempty
    exact h.not_meets hempty hm
  · exact h.meets

/-- A call of `refill_accounts` on some tables. -/
def refilling (db : RegDb) : World where
  db := db
  calls := fun _ => ⟨.refill none kRefillBatch 0 .start, none⟩

theorem refillReady_seeded : RefillReady (refilling .seeded) 0 none kRefillBatch :=
  ⟨rfl, rfl, rfl, by decide, by simp [refilling, RegDb.seeded, seedUser], by simp [refilling, RegDb.seeded],
    by decide⟩

theorem account_refill_seeded :
    RefillMeets (fun _ => []) (refilling .seeded) 0 none kRefillBatch :=
  (account_refill _ _ 0 none kRefillBatch refillReady_seeded).2 (Or.inl (by simp [refilling, RegDb.seeded]))

/-- Without any account the refill throws. -/
theorem account_refill_empty :
    RefillReady (refilling ⟨[], [], [], kMinAccount⟩) 0 none kRefillBatch ∧
      ¬ RefillMeets (fun _ => []) (refilling ⟨[], [], [], kMinAccount⟩) 0 none kRefillBatch := by
  have h : RefillReady (refilling ⟨[], [], [], kMinAccount⟩) 0 none kRefillBatch :=
    ⟨rfl, rfl, rfl, by decide, by simp [refilling], by simp [refilling], by decide⟩
  exact ⟨h, h.not_meets ⟨rfl, rfl⟩⟩

end ApeServer.Registration
