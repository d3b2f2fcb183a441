/-
  The life cycle of an outbox row, and the fencing of workers by lease tokens.

  * `trace_later`: along a run the stage of a message row does not decrease,
    `dispatchDone` stays set, state 3 is final and state 2 is left for 3 only;
  * `stale_step`: a worker that lost its lease locks the pair, and does
    nothing else;
  * `lease_fencing` puts these together, with the fact that two workers never
    hold the lease of one row.
-/
import ApeServer.System.CallInv

namespace ApeServer

/-- How a message row may change over time. -/
structure Later (r r' : OutboxRow) : Prop where
  static : Static r r'
  stage : r.stage ≤ r'.stage
  done : r.dispatchDone = true → r'.dispatchDone = true
  cancelled : r.state = 3 → r'.state = 3
  finished : r.state = 2 → r'.state = 2 ∨ r'.state = 3

/-- The worker does not hold the lease of the row of its task. -/
def Stale (db : Db) (task : OutboxTask) : Prop :=
  ∀ r ∈ db.outbox, r.id = task.id → r.leaseToken ≠ task.leaseToken ∨ r.state ≠ 1

/-- The worker an action belongs to. -/
def Action.worker : Action → Option ℕ
  | .runPhase i _ _ _ | .retry i _ | .notify i | .crash i => some i
  | _ => none

section
variable {J : Codec} {w w' : World} {es : List Event} {r r' : OutboxRow}

/-! ## The life cycle -/

theorem Later.refl (r : OutboxRow) : Later r r :=
  ⟨⟨rfl, rfl, rfl, rfl, rfl, rfl, rfl, rfl⟩, le_rfl, id, id, Or.inl⟩

theorem Later.trans {r₁ r₂ r₃ : OutboxRow} (h : Later r₁ r₂) (h' : Later r₂ r₃) : Later r₁ r₃ := by
  refine ⟨h.static.trans h'.static, h.stage.trans h'.stage, fun hd => h'.done (h.done hd),
    fun hc => h'.cancelled (h.cancelled hc), fun hf => ?_⟩
  rcases h.finished hf with h₂ | h₃
  · exact h'.finished h₂
  · exact Or.inr (h'.cancelled h₃)

theorem RowStep.later (h : RowStep w w' r r') : Later r r' := by
  refine ⟨h.static, h.stage_le, ?_, ?_, ?_⟩
  · cases h with
    | confirm => exact fun _ => rfl
    | _ => exact id
  · cases h with
    | same => exact id
    | claim now token hs => exact fun _ => by omega
    | release time hs => exact fun _ => by omega
    | confirm c hc ho hi hg hs => exact fun h₃ => absurd h₃ hs
    | refuse ho hs => exact fun _ => rfl
    | stage ho hs hg => exact id
    | complete hs h => exact fun _ => by omega
    | cancel => exact fun _ => rfl
  · cases h with
    | same => exact Or.inl
    | claim now token hs => exact fun _ => by omega
    | release time hs => exact fun _ => by omega
    | confirm => exact fun _ => Or.inl rfl
    | refuse => exact fun _ => Or.inr rfl
    | stage => exact Or.inl
    | complete => exact fun _ => Or.inl rfl
    | cancel => exact fun _ => Or.inr rfl

theorem later_step {a : Action} (hI : Inv J w) (h : step J w a = some (w', es)) :
    ∀ r ∈ w.db.outbox, ∃ r' ∈ w'.db.outbox, Later r r' := by
  intro r hr
  obtain ⟨f, new, hs⟩ := outbox_step hI (step_move h).change
  exact ⟨f r, by rw [hs.outbox]; exact List.mem_append_left _ (List.mem_map_of_mem hr),
    (hs.row r hr).later⟩

/-- **The rows along a run.** -/
theorem trace_later (T : SysTrace J) {i j : ℕ} (hij : i ≤ j) (hj : j ≤ T.len) :
    ∀ r ∈ (T.state i).db.outbox, ∃ r' ∈ (T.state j).db.outbox, Later r r' := by
  refine T.related (P := Inv J) (R := fun w w' => ∀ r ∈ w.db.outbox, ∃ r' ∈ w'.db.outbox, Later r r')
    (fun _ hi => inv_trace T hi) (fun _ r hr => ⟨r, hr, .refl r⟩) (fun a b c hab hbc r hr => ?_)
    (fun _ _ _ _ hI hs => later_step hI hs) hij hj
  obtain ⟨r', hr', h⟩ := hab r hr
  obtain ⟨r'', hr'', h'⟩ := hbc r' hr'
  exact ⟨r'', hr'', h.trans h'⟩

/-! ## Fencing -/

theorem Stale.not_leased {task : OutboxTask} (h : Stale w.db task) : ¬ ∃ r, Leased w.db task r := by
  rintro ⟨r, hr⟩
  have hid : r.id = task.id := by simpa using List.find?_some hr.found
  rcases h r (List.mem_of_find?_eq_some hr.found) hid with ht | hs
  · exact ht hr.token
  · exact hs hr.state

/-- A worker without lease writes nothing to the stores. -/
theorem StoreSteps.stale {db : Db} {task : OutboxTask} {persist : Bool} {x x' : Stores}
    (h : StoreSteps J db task persist x x') (hn : ¬ ∃ r, Leased db task r) : x' = x := by
  induction h with
  | refl => rfl
  | tail _ hs _ =>
    exfalso
    cases hs with
    | save h => exact hn ⟨_, h.leased⟩
    | publish h => exact hn ⟨_, h.leased⟩
    | cache h => exact hn ⟨_, h.leased⟩
    | enqueue h => exact hn ⟨_, h.leased⟩
    | forget h => exact hn ⟨_, h⟩
    | delete h => exact hn ⟨_, h⟩
    | mark h => exact hn ⟨_, h⟩
    | uncache h => exact hn ⟨_, h⟩

/-- A worker without lease commits nothing but the lock of the pair. -/
theorem Commit.stale {db db' : Db} {task : OutboxTask} {persist b : Bool} {now : Int} {x : Stores}
    (h : Commit J db task persist now x b db') (hn : ¬ ∃ r, Leased db task r) :
    db' = db.lockPair task.actor task.peer := by
  cases h with
  | skip => rfl
  | cancel h => exact absurd ⟨_, h⟩ hn
  | already h => exact absurd ⟨_, h.leased⟩ hn
  | stage h => exact absurd ⟨_, h.leased⟩ hn
  | requeue h => exact absurd ⟨_, h.leased⟩ hn
  | complete h => exact absurd ⟨_, h.leased⟩ hn
  | cleanup h => exact absurd ⟨_, h⟩ hn
  | ack h => exact absurd ⟨_, h⟩ hn

/-- The tables but for the rows of `friend_pairs`, which exist to be locked. -/
def Db.unlocked (db : Db) : Db := { db with friendPairs := [] }

theorem retry_stale {task : OutboxTask} (h : Stale w.db task) (now : Int) :
    w.db.retryOutboxTask task now = w.db := by
  unfold Db.retryOutboxTask
  rw [Table.updateWhere_eq_self fun r hr => ?_]
  by_cases hid : r.id = task.id
  · rcases h r hr hid with ht | hs
    · simp [ht]
    · simp [hs]
  · simp [hid]

theorem runPhase_stale {i : ℕ} {now : Int} {lost : Bool} {fuel : ℕ} {k : Worker}
    (hk : w.workers[i]? = some k) (hs : Stale w.db k.task)
    (h : w.runPhase J i now lost fuel = some (w', es)) :
    w'.db.unlocked = w.db.unlocked ∧ w'.stores = w.stores ∧ es = [] := by
  obtain ⟨task, pc, o, db', x', hk', -, rfl, rfl, hst, hd⟩ := runPhase_cases h
  obtain rfl := Option.some.inj (hk.symm.trans hk')
  obtain rfl : x' = w.stores := hst.stale hs.not_leased
  have hdb : db' = w.db ∨ db' = w.db.lockPair task.actor task.peer := by
    rcases hd with ⟨b, hc, -⟩ | ⟨rfl, -⟩
    · exact Or.inr (hc.stale hs.not_leased)
    · exact Or.inl rfl
  rcases hdb with rfl | rfl
  · exact ⟨rfl, rfl, by simp⟩
  · exact ⟨rfl, rfl, by simp [Db.lockPair]⟩

/-- **A stale worker does nothing.** -/
theorem stale_step {a : Action} {i : ℕ} {k : Worker} (ha : a.worker = some i)
    (hk : w.workers[i]? = some k) (hs : Stale w.db k.task) (h : step J w a = some (w', es)) :
    w'.db.unlocked = w.db.unlocked ∧ w'.stores = w.stores ∧
      ∀ e ∈ es, ∃ m code, e = .notified m code := by
  cases a with
  | runPhase n now lost fuel =>
    cases ha
    obtain ⟨hdb, hx, rfl⟩ := runPhase_stale hk hs h
    exact ⟨hdb, hx, by simp⟩
  | retry n now =>
    cases ha
    obtain ⟨task, pc⟩ := k
    have hstay := retry_stale hs now
    simp only [step, World.retry, hk] at h
    cases pc with
    | failed => cases h; exact ⟨by rw [hstay], rfl, by simp⟩
    | _ => cases h
  | notify n =>
    cases ha
    obtain ⟨task, pc⟩ := k
    simp only [step, World.notify, hk] at h
    cases pc with
    | finished =>
      cases h
      refine ⟨rfl, rfl, fun e he => ?_⟩
      split at he
      · cases he
      · obtain ⟨r, -, rfl⟩ := Option.map_eq_some_iff.1 (Option.mem_toList.1 he)
        exact ⟨_, _, rfl⟩
    | _ => cases h
  | crash n => cases h; exact ⟨rfl, rfl, by simp⟩
  | _ => cases ha

/-- The task was claimed, and its lease is over. -/
structure Fenced (w : World) (task : OutboxTask) : Prop where
  token : task.leaseToken ∈ w.uuids
  row : ∃ r ∈ w.db.outbox, r.id = task.id
  stale : Stale w.db task

/-- The lease of a row is over when its token is replaced or its state is not
    1 any more. -/
theorem RowStep.stale {token : String} (h : RowStep w w' r r') (ht : token ∈ w.uuids)
    (hs : r.leaseToken ≠ token ∨ r.state ≠ 1) : r'.leaseToken ≠ token ∨ r'.state ≠ 1 := by
  cases h with
  | same => exact hs
  | claim now token' _ hn =>
    refine Or.inl fun he => hn ?_
    change token' = token at he
    rwa [he]
  | release => exact Or.inr (show 0 ≠ 1 by decide)
  | confirm => exact Or.inr (show 2 ≠ 1 by decide)
  | refuse => exact Or.inr (show 3 ≠ 1 by decide)
  | stage => exact hs
  | complete => exact Or.inr (show 2 ≠ 1 by decide)
  | cancel => exact Or.inr (show 3 ≠ 1 by decide)

/-- A lease that is over stays over: claims draw new tokens. -/
theorem fenced_step {a : Action} {task : OutboxTask} (hI : Inv J w) (h : step J w a = some (w', es))
    (hf : Fenced w task) : Fenced w' task := by
  have hmove := step_move h
  obtain ⟨f, new, hstep⟩ := outbox_step hI hmove.change
  obtain ⟨r₀, hr₀, hid₀⟩ := hf.row
  refine ⟨hmove.ids.uuids hf.token, ?_, fun r' hr' hid => ?_⟩
  · obtain ⟨r', hr', hl⟩ := later_step hI h r₀ hr₀
    exact ⟨r', hr', hl.static.id.trans hid₀⟩
  · rcases hstep.cases hr' with ⟨r, hr, rfl, hrow⟩ | hr'
    · exact hrow.stale hf.token (hf.stale r hr (hrow.static.id.symm.trans hid))
    · -- a new row has a new id
      rcases hstep.new.fresh with ⟨rfl, -⟩ | ⟨r, rfl, hnew, -⟩
      · cases hr'
      · rw [List.mem_singleton.1 hr', hnew] at hid
        have := hI.rows.next r₀ hr₀
        omega

theorem trace_fenced (T : SysTrace J) {i j : ℕ} (hij : i ≤ j) (hj : j ≤ T.len) {task : OutboxTask}
    (h : Fenced (T.state i) task) : Fenced (T.state j) task :=
  T.related (P := Inv J) (R := fun w w' => Fenced w task → Fenced w' task)
    (fun _ hi => inv_trace T hi) (fun _ => id) (fun _ _ _ hab hbc h => hbc (hab h))
    (fun _ _ _ _ hI hs => fenced_step hI hs) hij hj h

/-- Two workers do not hold the lease of one row. -/
theorem lease_unique (hI : Inv J w) {i j : ℕ} {k k' : Worker} (hi : w.workers[i]? = some k)
    (hj : w.workers[j]? = some k') (hid : k.task.id = k'.task.id) (hl : ¬ Stale w.db k.task)
    (hl' : ¬ Stale w.db k'.task) : i = j := by
  simp only [Stale, not_forall, not_or, not_not] at hl hl'
  obtain ⟨r, hr, hrid, ht, -⟩ := hl
  obtain ⟨r', hr', hrid', ht', -⟩ := hl'
  have : r = r' := hI.rows.eq_of_id hr hr' (by rw [hrid, hrid', hid])
  subst this
  obtain ⟨hi₁, hi₂⟩ := List.getElem?_eq_some_iff.1 hi
  obtain ⟨hj₁, hj₂⟩ := List.getElem?_eq_some_iff.1 hj
  have hinj := hI.calls.tokens.get_inj_iff (i := ⟨i, by simpa using hi₁⟩) (j := ⟨j, by simpa using hj₁⟩)
  simp only [List.get_eq_getElem, List.getElem_map, hi₂, hj₂, Fin.mk.injEq] at hinj
  exact hinj.1 (by rw [← ht, ← ht'])

/-- **Life cycle and lease fencing.**  Over any run, message rows go forward
    only, and keep the relations between their columns.  A worker that lost its
    lease has lost it for good, and its steps change nothing in the tables but
    the lock of the pair, and nothing in the stores.  Two workers never hold
    the lease of one row.  Runs draw increasing ids (`SysTrace`). -/
theorem lease_fencing (T : SysTrace J) :
    (∀ i ≤ T.len, ∀ r ∈ (T.state i).db.outbox, r.operation = 1 →
      (r.dispatchDone = true → r.state = 2 ∨ r.state = 3) ∧ (r.state = 2 → r.stage = 1) ∧
      ∀ j, i ≤ j → j ≤ T.len → ∃ r' ∈ (T.state j).db.outbox, Later r r') ∧
    (∀ i ≤ T.len, ∀ (n : ℕ) (k : Worker), (T.state i).workers[n]? = some k → Stale (T.state i).db k.task →
      (∀ j, i ≤ j → j ≤ T.len → Stale (T.state j).db k.task) ∧
      (i < T.len → (T.act i).worker = some n →
        (T.state (i + 1)).db.unlocked = (T.state i).db.unlocked ∧
        (T.state (i + 1)).stores = (T.state i).stores ∧
        ∀ e ∈ T.out i, ∃ m code, e = .notified m code)) ∧
    ∀ i ≤ T.len, ∀ (n n' : ℕ) (k k' : Worker), (T.state i).workers[n]? = some k →
      (T.state i).workers[n']? = some k' → k.task.id = k'.task.id →
      ¬ Stale (T.state i).db k.task → ¬ Stale (T.state i).db k'.task → n = n' := by
  refine ⟨fun i hi r hr ho => ?_, fun i hi n k hk hs => ⟨fun j hij hj => ?_, fun hlt ha => ?_⟩,
    fun i hi n n' k k' hk hk' hid hl hl' => lease_unique (inv_trace T hi) hk hk' hid hl hl'⟩
  · obtain ⟨m, -, -, -, -, hlife, -⟩ := (inv_trace T hi).rows.message hr ho
    exact ⟨hlife.done, hlife.staged, fun j hij hj => trace_later T hij hj r hr⟩
  · have hcalls := (inv_trace T hi).calls
    have hmem := List.mem_of_getElem? hk
    obtain ⟨r, hr⟩ := hcalls.worker k hmem
    exact (trace_fenced T hij hj ⟨hcalls.token k hmem, ⟨r, hr.row, hr.id⟩, hs⟩).stale
  · exact stale_step ha hk hs (T.next i hlt)

end

/-! ## A run with an expired lease -/

/-- The message is claimed twice, and then the first worker goes on. -/
def expiredLeaseActions : List Action :=
  sendActions 0 ++
    [.claim 100 [] "d0a1b2c3-0000-4000-8000-000000000001",
      .claim 50000 [] "d0a1b2c3-0000-4000-8000-000000000002", .runPhase 0 50001 false 20]

def expiredLeaseRun : SysTrace (helloCodec 0) :=
  sampleRun (helloCodec 0) expiredLeaseActions (by decide +kernel)

theorem expiredLeaseRun_fenced :
    (expiredLeaseRun.state 12).db.unlocked = (expiredLeaseRun.state 11).db.unlocked ∧
      (expiredLeaseRun.state 12).stores = (expiredLeaseRun.state 11).stores := by
  have hk : ∃ k, (expiredLeaseRun.state 11).workers[0]? = some k ∧
      ∀ r ∈ (expiredLeaseRun.state 11).db.outbox, r.id = k.task.id →
        r.leaseToken ≠ k.task.leaseToken ∨ r.state ≠ 1 := by
    refine ⟨((expiredLeaseRun.state 11).workers[0]?).get (by decide +kernel), ?_, ?_⟩
    · exact (Option.some_get _).symm
    · decide +kernel
  obtain ⟨k, hk, hs⟩ := hk
  have h := ((lease_fencing expiredLeaseRun).2.1 11 (by decide) 0 k hk hs).2 (by decide) rfl
  exact ⟨h.1, h.2.1⟩

end ApeServer
