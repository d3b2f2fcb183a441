/-
  What a waiting row and a cancelled row say about their pair.

  `ProcessOutboxTask`, `SendMessages` and `notifySender` have a branch each for
  a message that the friend check refuses: the row goes to state 3 with its
  payload, and the sender is told `NOT_FRIEND`.  No run takes it:

  * `Settled`: the friend check admits a message that waits, because the
    deletion that would make it fail cancels the row in its own transaction;
    and a cancelled row has lost its payload, and is below the watermark;
  * `settled_step` keeps this, whatever a step does to the tables;
  * `never_not_friend`: so no answer and no notice ever says `NOT_FRIEND`, and
    a sender is notified only of a message that the conversations record.
-/
import ApeServer.System.Visibility
import ApeServer.System.SendResults

namespace ApeServer

open Table

/-! ## Cancelled rows -/

/-- A message row that is cancelled has no payload. -/
def OutboxRow.Dropped (r : OutboxRow) : Prop := r.operation = 1 → r.state = 3 → r.payload = ""

/-- The row waits for a worker, or a worker has it. -/
def OutboxRow.Waiting (r : OutboxRow) : Prop := r.operation = 1 ∧ (r.state = 0 ∨ r.state = 1)

section
variable {J : Codec} {w w' : World} {es : List Event} {r r' : OutboxRow}

theorem dropped_update {p : OutboxRow → Bool} {f : OutboxRow → OutboxRow} {t : List OutboxRow}
    (ht : ∀ r ∈ t, r.Dropped) (hf : ∀ r, r.Dropped → (f r).Dropped) :
    ∀ r ∈ updateWhere p f t, r.Dropped := by
  intro r' hr'
  obtain ⟨r, hr, rfl⟩ := mem_updateWhere.1 hr'
  split_ifs
  · exact hf r (ht r hr)
  · exact ht r hr

theorem dropped_insertNew {p : OutboxRow → Bool} {r₀ : OutboxRow} {t : List OutboxRow}
    (ht : ∀ r ∈ t, r.Dropped) (h₀ : r₀.Dropped) : ∀ r ∈ insertNew p r₀ t, r.Dropped := by
  intro r hr
  rcases mem_insertNew.1 hr with hr | ⟨rfl, -⟩
  · exact ht r hr
  · exact h₀

theorem dropped_cancelRow (r : OutboxRow) : (Db.cancelRow r).Dropped := fun _ _ => rfl

/-- An update to a state that is not 3. -/
theorem dropped_of_ne (h : r.state ≠ 3) : r.Dropped := fun _ hs => absurd hs h

theorem dropped_clear {db : Db} {a b : Account} (h : ∀ r ∈ db.outbox, r.Dropped) :
    ∀ r ∈ (db.clearConversation a b).outbox, r.Dropped := by
  rcases clearConversation_cases db a b with hc | ⟨cutoff, -, hc⟩ <;> rw [hc]
  · exact h
  · exact dropped_update (dropped_insertNew h (dropped_of_ne (by simp [Db.newCleanupRow])))
      fun r _ => dropped_cancelRow r

/-- The watermarks change only by a deletion. -/
theorem deletions_change (h : Change J w w' es) :
    w'.db.deletions = w.db.deletions ∨ ∃ c ∈ w.friendCalls, ∃ now seq, w.lastId < seq ∧
      w'.db = ((w.db.lockPair c.command.actor c.target).closeFriendship c.command.actor c.target
        now seq).clearConversation c.command.actor c.target := by
  cases h with
  | same h => exact Or.inl (by rw [h])
  | lock a b h => exact Or.inl (by rw [h]; rfl)
  | register u h => exact Or.inl (by rw [h])
  | edit h =>
    obtain ⟨cs, us, he, -⟩ := h
    exact Or.inl (by rw [he])
  | insert m payload _ _ _ _ h => exact Or.inl (by rw [h]; rfl)
  | claim r now token _ _ _ h => exact Or.inl (by rw [h]; rfl)
  | retry k now _ h => exact Or.inl (by rw [h]; rfl)
  | confirm c _ h => exact Or.inl (by rw [h]; rfl)
  | commit k now b _ _ h => exact Or.inl h.frame.2.1
  | receipt a now _ h => exact Or.inl (by rw [h]; rfl)
  | applications a b apps n h => exact Or.inl (by rw [h]; rfl)
  | befriend c now apps hc h => exact Or.inl (by rw [h]; rfl)
  | unfriend c now seq hc _ hs _ h => exact Or.inr ⟨c, hc, now, seq, hs, h⟩
  | clear c _ _ h => exact Or.inl (by rw [h, (clearConversation_frame _ _ _).2.1]; rfl)

/-! ## The invariant -/

/-- What the rows of messages say about their pairs. -/
structure Settled (w : World) : Prop where
  /-- a row that waits is above the watermark -/
  live : ∀ r ∈ w.db.outbox, r.Waiting → w.db.Live r
  dropped : ∀ r ∈ w.db.outbox, r.Dropped
  /-- a row that is cancelled is not -/
  dead : ∀ r ∈ w.db.outbox, r.operation = 1 → r.state = 3 → ¬ w.db.Live r

/-- **The friend check admits what waits.** -/
theorem Settled.allowed (hI : Inv J w) (hk : (w.db.friends.map FriendRow.key).Nodup) (h : Settled w)
    (hr : r ∈ w.db.outbox) (hw : r.Waiting) : w.db.friendAllows r.actor r.peer r.seq = true := by
  have hl := h.live r hr hw
  obtain ⟨m, -, -, -, -, -, hfr⟩ := hI.rows.message hr hw.1
  have hf := hfr hl
  have hne := hI.friends.apart _ _ hf
  exact friendAllows_iff.2 ⟨hne, (friendCount_eq_two_iff hk hne).2 ⟨hf, hI.friends.symm _ _ hf⟩, hl⟩

/-- And so the message of a worker that holds its lease. -/
theorem Settled.leased (hI : Inv J w) (hk : (w.db.friends.map FriendRow.key).Nodup) (h : Settled w)
    {k : Worker} (hm : k ∈ w.workers) (ho : k.task.operation = 1) (hl : Leased w.db k.task r) :
    w.db.friendAllows k.task.actor k.task.peer k.task.seq = true := by
  obtain ⟨r₀, hW⟩ := hI.calls.worker k hm
  obtain rfl := hW.of_leased hI.rows hl
  rw [← hW.actor, ← hW.peer, ← hW.seq]
  exact h.allowed hI hk hW.row ⟨hW.operation.trans ho, Or.inr hl.state⟩

/-- A phase that commits leaves the payload of what is cancelled dropped: its
    branch for a refused message is not taken. -/
theorem Settled.commit (hI : Inv J w) (hk : (w.db.friends.map FriendRow.key).Nodup) (h : Settled w)
    {k : Worker} (hm : k ∈ w.workers) {persist b : Bool} {now : Int} {x : Stores} {db : Db}
    (hc : Commit J w.db k.task persist now x b db) : ∀ r ∈ db.outbox, r.Dropped := by
  cases hc with
  | skip => exact h.dropped
  | cancel hl ho ha => rw [h.leased hI hk hm ho hl] at ha; cases ha
  | already => exact h.dropped
  | stage =>
    obtain ⟨cs, us, he, -⟩ := recordConversationMessage_eq (w.db.lockPair k.task.actor k.task.peer) _ _
    rw [he]
    exact dropped_update h.dropped fun r hr => hr
  | requeue => exact dropped_update h.dropped fun r _ => dropped_of_ne (by simp)
  | complete => exact dropped_update h.dropped fun r _ => dropped_of_ne (by simp)
  | cleanup =>
    exact dropped_update (dropped_update h.dropped fun r _ => dropped_cancelRow r)
      fun r _ => dropped_of_ne (by simp)
  | ack => exact dropped_update h.dropped fun r _ => dropped_of_ne (by simp)

theorem Settled.drops (hI : Inv J w) (hk : (w.db.friends.map FriendRow.key).Nodup) (h : Settled w)
    (hc : Change J w w' es) : ∀ r ∈ w'.db.outbox, r.Dropped := by
  cases hc with
  | same h' => rw [h']; exact h.dropped
  | lock a b h' => rw [h']; exact h.dropped
  | register u h' => rw [h']; exact h.dropped
  | edit h' =>
    obtain ⟨cs, us, he, -⟩ := h'
    rw [he]
    exact h.dropped
  | insert m payload _ _ _ _ h' =>
    rw [h']
    intro r hr
    rcases List.mem_append.1 hr with hr | hr
    · exact h.dropped r hr
    · rw [List.mem_singleton.1 hr]
      exact dropped_of_ne (by simp [Db.newMessageRow])
  | claim r now token _ _ _ h' =>
    rw [h']
    exact dropped_update h.dropped fun r _ => dropped_of_ne (by simp [Db.claimRow])
  | retry k now _ h' => rw [h']; exact dropped_update h.dropped fun r _ => dropped_of_ne (by simp)
  | confirm c _ h' => rw [h']; exact dropped_update h.dropped fun r _ => dropped_of_ne (by simp)
  | commit k now b hm _ h' => exact h.commit hI hk hm h'
  | receipt a now _ h' =>
    rw [h']
    exact dropped_insertNew h.dropped (dropped_of_ne (by simp [Db.newAckRow]))
  | applications a b apps n h' => rw [h']; exact h.dropped
  | befriend c now apps _ h' => rw [h']; exact h.dropped
  | unfriend c now seq _ _ _ _ h' => rw [h']; exact dropped_clear h.dropped
  | clear c _ _ h' => rw [h']; exact dropped_clear h.dropped

/-- A row that waits after a step waited before. -/
theorem RowStep.waiting (h : RowStep w w' r r') (hw : r'.Waiting) : r.Waiting := by
  refine ⟨h.static.operation.symm.trans hw.1, ?_⟩
  have hs := hw.2
  cases h with
  | same => exact hs
  | claim now token h₀ => exact h₀
  | release time h₁ => exact Or.inr h₁
  | stage _ h₁ => exact Or.inr h₁
  | confirm | refuse | complete | cancel => simp [Db.cancelRow] at hs

/-- The deletion of a friendship cancels the messages of the pair that wait. -/
theorem Settled.unfriend (hI : Inv J w) (h : Settled w) {a b : Account} {now : Int} {seq : ℕ}
    (hs : w.lastId < seq)
    (hd : w'.db = ((w.db.lockPair a b).closeFriendship a b now seq).clearConversation a b)
    (hr : r ∈ w'.db.outbox) (hw : r.Waiting) : w'.db.Live r := by
  have hmark : ∀ x y, w'.db.deletedSeq? x y
      = ((w.db.lockPair a b).closeFriendship a b now seq).deletedSeq? x y := fun x y => by
    unfold Db.deletedSeq?
    rw [hd, (clearConversation_frame _ _ _).2.1]
  unfold Db.clearConversation at hd
  rw [deletedSeq_close (Or.inl ⟨rfl, rfl⟩)] at hd
  rw [hd] at hr
  obtain ⟨z, hz, rfl⟩ := mem_updateWhere.1 hr
  split_ifs at hw ⊢ with hc
  · simp [OutboxRow.Waiting, Db.cancelRow] at hw
  rcases mem_insertNew.1 hz with hz | ⟨rfl, -⟩
  · obtain ⟨m, hm, hrow, -⟩ := hI.rows.message hz hw.1
    by_cases hp : IsPair a b z.actor z.peer
    · -- its number was drawn before the watermark
      have hle : z.seq ≤ w.lastId := by rw [hrow.seq]; exact (hI.ids.stamped m hm).le
      have hconv : z.conversation = conversationId a b := by
        rw [hrow.conversation, (hI.ids.stamped m hm).conv, ← hrow.actor, ← hrow.peer]
        rcases hp with ⟨h₁, h₂⟩ | ⟨h₁, h₂⟩ <;> rw [h₁, h₂]
        exact conversationId_comm b a
      refine absurd ?_ hc
      simp only [Db.cancellable, Bool.and_eq_true, Bool.or_eq_true, decide_eq_true_eq]
      exact ⟨⟨⟨hconv, hw.1⟩, by omega⟩, hw.2⟩
    · intro d hd'
      rw [hmark, deletedSeq_close_other hp] at hd'
      exact h.live z hz hw d hd'
  · simp [OutboxRow.Waiting, Db.newCleanupRow] at hw

/-- **What every step keeps.** -/
theorem settled_step (hI : Inv J w) (hk : (w.db.friends.map FriendRow.key).Nodup) (h : Settled w)
    (hc : Change J w w' es) : Settled w' := by
  have hdrop := h.drops hI hk hc
  obtain ⟨f, new, hstep⟩ := outbox_step hI hc
  refine ⟨fun r' hr' hw => ?_, hdrop, fun r' hr' ho hs hl => ?_⟩
  · rcases deletions_change hc with hd | ⟨c, -, now, seq, hs, hd⟩
    · -- the watermarks are the old ones
      rcases hstep.cases hr' with ⟨r, hr, rfl, hrow⟩ | hnew
      · have hlive := h.live r hr (hrow.waiting hw)
        have hst := hrow.static
        unfold Db.Live at hlive ⊢
        rw [hst.actor, hst.peer, hst.seq]
        exact (above_congr hd).2 hlive
      · obtain ⟨m, payload, hm, -, rfl, -⟩ := hstep.new.initial hnew hw.1
        obtain ⟨-, -, -, habove⟩ := hI.calls.send _ hm
        exact (above_congr hd).2 habove
    · exact h.unfriend hI hs hd hr' hw
  · rcases hstep.cases hr' with ⟨r, hr, rfl, hrow⟩ | hnew
    · have hst := hrow.static
      have ho : r.operation = 1 := hst.operation.symm.trans ho
      have hlive : w.db.Live r := by
        unfold Db.Live at hl ⊢
        rw [hst.actor, hst.peer, hst.seq] at hl
        exact (friends_move hI hc).above hI.friends hl
      have hempty := hdrop _ hr' (hst.operation.trans ho) hs
      generalize hf : f r = r' at hrow hs hl hempty hst
      cases hrow with
      | same => exact h.dead r hr ho hs hlive
      | refuse _ h₁ =>
        -- its payload would be there
        obtain ⟨m, -, hm, -⟩ := hI.rows.message hr ho
        have hp := hm.payload.resolve_right fun hn => by omega
        exact J.print_ne_empty hp hempty
      | cancel _ hn => exact hn hl
      | claim | release | confirm | complete => simp [Db.claimRow] at hs
      | stage _ h₁ => have : r.state = 3 := hs; omega
    · obtain ⟨m, payload, -, -, rfl, -⟩ := hstep.new.initial hnew ho
      simp [Db.newMessageRow] at hs

theorem settled_trace (T : SysTrace J) {i : ℕ} (hi : i ≤ T.len) : Settled (T.state i) := by
  induction i with
  | zero =>
    rw [T.start]
    exact ⟨by simp [start], by simp [start], by simp [start]⟩
  | succ i ih =>
    exact settled_step (inv_trace T (Nat.le_of_succ_le hi)) (friendKeys_trace T (Nat.le_of_succ_le hi))
      (ih (Nat.le_of_succ_le hi)) (step_move (T.next i hi)).change

/-! ## What the senders are told -/

/-- Only the end of the waiting loop answers `NOT_FRIEND`. -/
theorem replied_not_friend {a : Action} {m : MsgData} (h : step J w a = some (w', es))
    (he : .replied m "NOT_FRIEND" ∈ es) :
    ∃ m' task, ⟨m', .poll task⟩ ∈ w.sends ∧ (sendReply J m' task).2 = "NOT_FRIEND" := by
  have hcode : ∀ e, "NOT_FRIEND" ≠ sendErrorCode e := by rintro (_ | _) <;> simp [sendErrorCode]
  cases a with
  | reply i timedOut =>
    simp only [step, World.reply] at h
    split at h
    · next m' task hm =>
      split_ifs at h
      cases h
      obtain ⟨-, hc⟩ := Event.replied.inj (List.mem_singleton.1 he)
      exact ⟨m', task, List.mem_of_getElem? hm, hc.symm⟩
    · cases h
  | send m' uuid seq time =>
    simp only [step, World.send] at h
    split_ifs at h <;> cases h <;> simp at he
  | queueLookup i =>
    simp only [step, World.queueLookup] at h
    split at h
    · split_ifs at h
      · cases h; simp at he
      · split at h <;> cases h <;> simp [hcode] at he
    · cases h
  | queueInsert i lost =>
    simp only [step, World.queueInsert] at h
    split at h
    · split at h
      · cases h; simp [hcode] at he
      · split_ifs at h <;> cases h <;> simp at he
    · cases h
  | abortSend i =>
    simp only [step, World.abortSend] at h
    split at h <;> cases h
    simp at he
  | poll i =>
    simp only [step, World.poll] at h
    split at h
    · split_ifs at h
      split at h <;> cases h <;> simp [hcode] at he
    · cases h
  | runPhase i now lost fuel =>
    obtain ⟨_, _, _, _, _, -, -, -, rfl, -⟩ := runPhase_cases h
    simp only [List.mem_append, List.mem_map] at he
    obtain ⟨_, -, hm⟩ | ⟨_, -, hm⟩ := he <;> cases hm
  | _ =>
    simp only [step, World.claim, World.retry, World.notify, World.crash, World.consume, World.checkDispatch,
      World.push, World.confirm, World.dropConsumer, World.scan, World.deliver, World.dropDelivery, World.history,
      World.ackStart, World.ackCommit, World.dropAck, World.friendStart, World.friendCommit,
      World.dropFriend] at h
    repeat' split at h
    all_goals first | (cases h; simp at he) | cases h

/-- A row without payload is answered otherwise. -/
theorem sendReply_dropped (ho : r.operation = 1) (hd : r.Dropped) (m : MsgData) :
    (sendReply J m (outboxRow r)).2 ≠ "NOT_FRIEND" := by
  unfold sendReply
  split
  · simp
  · next stored hparse =>
    have hs : (outboxRow r).state ≠ 3 := fun hs => by
      rw [show (outboxRow r).payload = "" from hd ho hs, J.parse_empty] at hparse
      cases hparse
    rw [if_neg hs]
    split_ifs <;> simp

/-- A notice tells what the row of its message says when it is read. -/
theorem notified_row {a : Action} {m : MsgData} {code : String} (h : step J w a = some (w', es))
    (he : .notified m code ∈ es) : ∃ r ∈ w.db.outbox, notifySender J (outboxRow r) = some (m, code) := by
  cases a with
  | notify i =>
    simp only [step, World.notify] at h
    split at h
    · cases h
      split at he
      · cases he
      · next t ht =>
        obtain ⟨r, hr, -, rfl⟩ := getOutboxTask_ok ht
        exact ⟨r, hr, by simpa using he⟩
    · cases h
  | runPhase i now lost fuel =>
    obtain ⟨_, _, _, _, _, -, -, -, rfl, -⟩ := runPhase_cases h
    simp only [List.mem_append, List.mem_map] at he
    obtain ⟨_, -, hm⟩ | ⟨_, -, hm⟩ := he <;> cases hm
  | _ =>
    simp only [step, World.send, World.queueLookup, World.queueInsert, World.abortSend, World.poll, World.reply,
      World.claim, World.retry, World.crash, World.consume, World.checkDispatch, World.push, World.confirm,
      World.dropConsumer, World.scan, World.deliver, World.dropDelivery, World.history, World.ackStart,
      World.ackCommit, World.dropAck, World.friendStart, World.friendCommit, World.dropFriend] at h
    repeat' split at h
    all_goals first | (cases h; simp at he) | cases h

/-- A row that is notified is that of a message the conversations record. -/
theorem notified_recorded (hI : Inv J w) (h : Settled w) (hr : r ∈ w.db.outbox) {m : MsgData} {code : String}
    (hn : notifySender J (outboxRow r) = some (m, code)) :
    code = "0" ∧ MessageRow J r m ∧
      w.db.recorded.countP (fun m' => m'.serverMsgID = m.serverMsgID) = 1 := by
  unfold notifySender at hn
  split at hn
  · cases hn
  next hskip =>
  obtain ⟨m', hparse, hm'⟩ := Option.map_eq_some_iff.1 hn
  obtain ⟨rfl, hcode⟩ := Prod.mk.inj hm'
  simp only [not_or, not_and, not_not, outboxRow, ne_eq] at hskip hparse
  obtain ⟨ho, hstage, -⟩ := hskip
  have hs : r.state ≠ 3 := fun hs => by
    rw [h.dropped r hr ho hs, J.parse_empty] at hparse
    cases hparse
  obtain ⟨m₀, -, hm₀, -, -, hlife, -⟩ := hI.rows.message hr ho
  have hpay := hm₀.payload.resolve_right fun hn => hs hn.2
  rw [J.parse_print _ _ hpay] at hparse
  cases hparse
  refine ⟨hcode.symm.trans (if_neg hs), hm₀, ?_⟩
  rw [← hm₀.serverId, hI.stores.count r hr ho]
  have := hlife.stage
  have : r.stage ≠ 0 := fun hz => hs (hstage hz)
  omega

end

/-- **Nobody is told `NOT_FRIEND`.**  In every state of a run, the friend check
    admits every message that waits in the outbox, and the message of every
    worker that holds its lease; a message that is cancelled has lost its
    payload, and its number is not above the deletion watermark of its pair.  So
    no answer of `SendMessages` is `NOT_FRIEND`, and `notifySender` only ever
    reports a success, of a message that the conversations record once.  Runs
    draw increasing ids (`SysTrace`). -/
theorem never_not_friend (J : Codec) (T : SysTrace J) :
    (∀ i ≤ T.len, ∀ r ∈ (T.state i).db.outbox, r.operation = 1 →
      (r.state = 0 ∨ r.state = 1 → (T.state i).db.friendAllows r.actor r.peer r.seq = true) ∧
      (r.state = 3 → r.payload = "" ∧
        ∃ d, (T.state i).db.deletedSeq? r.actor r.peer = some d ∧ r.seq ≤ d)) ∧
    (∀ i ≤ T.len, ∀ k ∈ (T.state i).workers, k.task.operation = 1 → ∀ r, Leased (T.state i).db k.task r →
      (T.state i).db.friendAllows k.task.actor k.task.peer k.task.seq = true) ∧
    (∀ i < T.len, ∀ m, .replied m "NOT_FRIEND" ∉ T.out i) ∧
    ∀ i < T.len, ∀ m code, .notified m code ∈ T.out i →
      code = "0" ∧ (T.state i).db.recorded.countP (fun m' => m'.serverMsgID = m.serverMsgID) = 1 := by
  refine ⟨fun i hi r hr ho => ⟨fun hs => ?_, fun hs => ?_⟩, fun i hi k hk ho r hl => ?_, fun i hi m he => ?_,
    fun i hi m code he => ?_⟩
  · exact (settled_trace T hi).allowed (inv_trace T hi) (friendKeys_trace T hi) hr ⟨ho, hs⟩
  · refine ⟨(settled_trace T hi).dropped r hr ho hs, ?_⟩
    have hdead := (settled_trace T hi).dead r hr ho hs
    unfold Db.Live Db.Above at hdead
    push Not at hdead
    exact hdead
  · exact (settled_trace T hi).leased (inv_trace T hi) (friendKeys_trace T hi) hk ho hl
  · obtain ⟨m', task, hm, hcode⟩ := replied_not_friend (T.next i hi) he
    obtain ⟨j, hj, r, hr, ho, -, rfl⟩ := polled_read T hi.le m' task hm
    exact sendReply_dropped ho ((settled_trace T (hj.trans hi.le)).dropped r hr) m' hcode
  · obtain ⟨r, hr, hn⟩ := notified_row (T.next i hi) he
    obtain ⟨hc, -, hrec⟩ := notified_recorded (inv_trace T hi.le) (settled_trace T hi.le) hr hn
    exact ⟨hc, hrec⟩

end ApeServer
