/-
  Recovery of dispatched messages.

  A message that was dispatched and not acknowledged is offered at the next
  login, if its document passes the filter of the offline scan.  The filter
  leaves out status 2, which the acknowledgement sets; but the status of a
  document starts with what the client sent.

  * `accepted_of_row`: every message row was accepted earlier in the run;
  * `accepted_recoverable`: every staged and unacknowledged message is claimable
    or scanned, unless it was accepted with status 2.
-/
import ApeServer.System.Watermark

namespace ApeServer

/-- The row will be claimed again, or the next login scan of the recipient
    finds the document of the message. -/
def Recoverable (w : World) (r : OutboxRow) : Prop :=
  r.state = 0 ∨ r.state = 1 ∨
    ∃ d ∈ w.stores.mongo, d.serverMsgID = r.serverId ∧
      ∀ after < r.seq, offlineCandidate r.peer after d = true

/-- The row was dispatched and waits for its acknowledgement. -/
structure Unacknowledged (w : World) (r : OutboxRow) : Prop where
  row : r ∈ w.db.outbox
  operation : r.operation = 1
  stage : r.stage = 1
  state : r.state ≠ 3
  live : w.db.Live r
  receipt : w.db.hasReceipt r.peer r.serverId = false

section
variable {J : Codec} {w : World}

/-- **Every message row was accepted earlier.** -/
theorem accepted_of_row (T : SysTrace J) {i : ℕ} (hi : i ≤ T.len) {r : OutboxRow}
    (hr : r ∈ (T.state i).db.outbox) (ho : r.operation = 1) :
    ∃ j < i, ∃ m, .accepted m ∈ T.out j ∧ m ∈ (T.state i).stamped ∧ MessageRow J r m := by
  induction i generalizing r with
  | zero => rw [T.start] at hr; cases hr
  | succ i ih =>
    have hI := inv_trace T (show i ≤ T.len by omega)
    have hmove := step_move (T.next i hi)
    have hg := grows_of_move hI hmove
    obtain ⟨f, new, hstep⟩ := outbox_step hI hmove.change
    rcases hstep.cases hr with ⟨r₀, hr₀, rfl, hrow⟩ | hr
    · obtain ⟨j, hj, m, hm, hs, hmr⟩ := ih (by omega) hr₀ (hrow.static.operation.symm.trans ho)
      exact ⟨j, by omega, m, hm, hg.stamped hs, hrow.messageRow hmr⟩
    · obtain ⟨m, payload, hm, hj, rfl, he⟩ := hstep.new.initial hr ho
      refine ⟨i, by omega, m, he, hg.stamped (hI.calls.send _ hm).1, ?_⟩
      exact ⟨rfl, rfl, rfl, rfl, rfl, rfl, rfl, Or.inl hj⟩

/-- The document of a message passes the filter when it is published and its
    status is not 2. -/
theorem DocOk.candidate {d : Doc} {r : OutboxRow} {m : MsgData} (h : DocOk J w d r m)
    (hv : validSingleMessage m = true) (hc : d.committed = true) (hs : d.status ≠ 2) {after : Int}
    (ha : after < r.seq) : offlineCandidate r.peer after d = true := by
  have hseq : d.seq = r.seq := h.seq.trans h.message.seq.symm
  have hrecv : d.recvID = asInt64 r.peer := by rw [h.recvID, h.message.peer]
  have hgroup : d.isGroupMsg = m.isGroupMsg := congrArg Doc.isGroupMsg h.body
  have htype : d.sessionType = m.sessionType := congrArg Doc.sessionType h.body
  simp only [validSingleMessage, Bool.and_eq_true, Bool.not_eq_true', decide_eq_true_eq] at hv
  obtain ⟨⟨⟨⟨⟨⟨⟨-, -⟩, -⟩, hg⟩, ht⟩, -⟩, -⟩, -⟩ := hv.1
  simp [offlineCandidate, hseq, hrecv, hgroup, htype, hg, ht, hc, hs, ha]

/-- A finished, unacknowledged message is found by the scan, unless it was
    sent with status 2. -/
theorem Inv.recoverable (hI : Inv J w) {r : OutboxRow} (h : Unacknowledged w r)
    (hm : ∀ m ∈ w.stamped, MessageRow J r m → m.status ≠ 2) : Recoverable w r := by
  obtain ⟨m, hs, hmr, hv, -, hlife, -⟩ := hI.rows.message h.row h.operation
  by_cases h₂ : r.state = 2
  · have hpub : w.stores.Published r.serverId := by
      rcases hI.stores.done r h.row h.operation h₂ h.live with hrec | hpub
      · rw [h.receipt] at hrec; cases hrec
      · exact hpub
    obtain ⟨d, hd, hid, hc⟩ := hpub
    obtain ⟨r', m', hdoc⟩ := hI.stores.doc d hd
    have hm' : m' = m := eq_of_serverMsgID hI.ids hdoc.stamped hs
      (by rw [← hdoc.serverMsgID, hid, hmr.serverId])
    subst hm'
    have hr' : r' = r := hI.rows.eq_of_dedupe hdoc.row h.row
      (hdoc.message.operation.trans h.operation.symm) (hdoc.message.key.trans hmr.key.symm)
    subst hr'
    have hstatus : d.status ≠ 2 := by
      rcases hdoc.status with hst | ⟨-, hrec⟩
      · rw [hst]; exact hm m' hs hmr
      · rw [← hmr.peer, ← hmr.serverId, h.receipt] at hrec; cases hrec
    exact Or.inr (Or.inr ⟨d, hd, hid, fun after ha => hdoc.candidate hv hc hstatus ha⟩)
  · have h₀ := hlife.state
    have h₃ := h.state
    unfold Recoverable
    omega

/-- **Recovery.**  In every state of a run, a dispatched message without a
    receipt that was not accepted with status 2 is claimable or found by the
    scan.  Runs draw increasing ids (`SysTrace`). -/
theorem accepted_recoverable (T : SysTrace J) {i : ℕ} (hi : i ≤ T.len) {r : OutboxRow}
    (hr : Unacknowledged (T.state i) r)
    (h : ∀ j < i, ∀ m, .accepted m ∈ T.out j → m.serverMsgID = r.serverId → m.status ≠ 2) :
    Recoverable (T.state i) r := by
  have hI := inv_trace T hi
  refine hI.recoverable hr fun m hs hm => ?_
  obtain ⟨j, hj, m', he, hs', hm'⟩ := accepted_of_row T hi hr.row hr.operation
  rw [hm.unique hI.ids hm' hs hs']
  exact h j hj m' he hm'.serverId.symm

end

/-! ## A message with status 2 -/

/-- The message of account 1 is claimed, stored, dispatched, pushed while its
    recipient is offline, and confirmed. -/
def dispatchActions (status : Int) : List Action :=
  sendActions status ++
    [.claim 100 [] "d0a1b2c3-0000-4000-8000-000000000001", .runPhase 0 100 false 20,
      .runPhase 0 100 false 20, .consume 0 true, .checkDispatch 0, .push 0 true, .confirm 0]

/-- The row of the message at the end of the run. -/
def finishedRow (status : Int) : OutboxRow :=
  ⟨1, 1, "1:c1", 1, 2, "1_2", "6f1c0e2a-5b1d-4c8e-9a57-0d2b3c4e5f60", 5,
    ((helloCodec status).printMsg (helloStamped status)).getD "", 2, 1, true, 1, 5100, 45100, ""⟩

theorem unacknowledged_finishedRow {w : World} {status : Int}
    (hw : finishedRow status ∈ w.db.outbox ∧ w.db.deletedSeq? 1 2 = none ∧
      w.db.hasReceipt 2 "6f1c0e2a-5b1d-4c8e-9a57-0d2b3c4e5f60" = false) :
    Unacknowledged w (finishedRow status) where
  row := hw.1
  operation := rfl
  stage := rfl
  state := show 2 ≠ 3 by decide
  live := by
    intro d h
    have h : w.db.deletedSeq? 1 2 = some d := h
    rw [hw.2.1] at h
    cases h
  receipt := hw.2.2

/-- With status 0 the scan finds the message. -/
def dispatchRun : SysTrace (helloCodec 0) :=
  sampleRun (helloCodec 0) (dispatchActions 0) (by decide +kernel)

theorem dispatchRun_recoverable : Recoverable (dispatchRun.state 16) (finishedRow 0) := by
  refine accepted_recoverable dispatchRun (by decide) (unacknowledged_finishedRow (by decide +kernel)) ?_
  have h : ∀ i < dispatchRun.len, ∀ e ∈ dispatchRun.out i,
      e.shown.all (fun m => m.status ≠ 2) = true := by decide +kernel
  intro i hi m he _
  simpa [Event.shown] using h i (hi.trans_le (by decide)) _ he

/-- With status 2 it does not. -/
def lostRun : SysTrace (helloCodec 2) :=
  sampleRun (helloCodec 2) (dispatchActions 2) (by decide +kernel)

/-- The recipient never sees the message: it is finished, unacknowledged and
    outside the scan. -/
theorem lostRun_not_recoverable : 16 ≤ lostRun.len ∧
    Unacknowledged (lostRun.state 16) (finishedRow 2) ∧
    ¬ Recoverable (lostRun.state 16) (finishedRow 2) := by
  refine ⟨by decide, unacknowledged_finishedRow (by decide +kernel), ?_⟩
  rintro (h | h | ⟨d, hd, -, h⟩)
  · cases h
  · cases h
  · have hscan : ∀ d ∈ (lostRun.state 16).stores.mongo, offlineCandidate 2 4 d = false := by
      decide +kernel
    have hfound : offlineCandidate 2 4 d = true := h 4 (show (4 : Int) < 5 by decide)
    rw [hscan d hd] at hfound
    cases hfound

end ApeServer
