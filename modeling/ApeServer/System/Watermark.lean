/-
  The deletion watermark.

  Whatever a step accepts, moves or shows lies above the watermark of its pair
  at that moment (`Event.above`), and watermarks never fall.

  * `deletion_watermark`: once a friendship is deleted with watermark `d`, no
    message of the pair numbered up to `d` is ever accepted, moved or shown
    again, and every message queued before is numbered below `d`.
-/
import ApeServer.System.CallInv

namespace ApeServer

open Table

section
variable {J : Codec} {w w' : World} {es : List Event}

theorem Above.symm (h : FriendsOk w) {a b : Account} {seq : Int} (ha : w.db.Above a b seq) :
    w.db.Above b a seq := by
  intro d hd
  exact ha d (by rw [h.watermark_symm]; exact hd)

theorem Above.of_isPair (h : FriendsOk w) {a b c d : Account} {seq : Int} (ha : w.db.Above a b seq)
    (hp : IsPair a b c d) : w.db.Above c d seq := by
  rcases hp with ⟨rfl, rfl⟩ | ⟨rfl, rfl⟩
  · exact ha
  · exact Above.symm h ha

/-- The numbers of known messages fit into 63 bits. -/
theorem Known.bounds (hI : Inv J w) {m : MsgData} (h : Known J w m) : 0 < m.seq ∧ m.seq < 2 ^ 63 := by
  obtain ⟨m₀, ⟨hs, -⟩, -, -, -, he⟩ := h
  have h₁ := (hI.ids.stamped m₀ hs).pos
  have h₂ := (hI.ids.stamped m₀ hs).le
  have h₃ := hI.ids.bound
  omega

/-- The decision of `WithFriendMessage`, in parts. -/
theorem friendMessageAllowed_iff {db : Db} {m : MsgData} {undelivered : Bool} :
    db.friendMessageAllowed m undelivered = true ↔
      m.sendID ≠ m.recvID ∧ db.friendCount m.sendID m.recvID = 2 ∧
      (∀ d, db.deletedSeq? m.sendID m.recvID = some d → d < asUint64 m.seq) ∧
      (m.serverMsgID = "" ∨
        ((∀ r, db.outboxByServerId? m.serverMsgID = some r → 1 ≤ r.stage ∧ r.state ≠ 3) ∧
          (undelivered = true → db.hasReceipt m.recvID m.serverMsgID = false))) := by
  unfold Db.friendMessageAllowed
  cases db.deletedSeq? m.sendID m.recvID <;> cases db.outboxByServerId? m.serverMsgID <;>
    cases undelivered <;> simp [and_assoc]

theorem asUint64_of_bounds {i : Int} (h : 0 ≤ i) (h' : i < 2 ^ 63) : (asUint64 i : Int) = i := by
  unfold asUint64
  omega

/-- A known message that `WithFriendMessage` admits is above the watermark. -/
theorem friendMessageAllowed_above (hI : Inv J w) {m : MsgData} {undelivered : Bool}
    (hk : Known J w m) (h : w.db.friendMessageAllowed m undelivered = true) :
    w.db.Above m.sendID m.recvID m.seq := by
  intro d hd
  obtain ⟨-, -, h, -⟩ := friendMessageAllowed_iff.1 h
  have h₁ := h d hd
  have h₂ := hk.bounds hI
  have h₃ := asUint64_of_bounds h₂.1.le h₂.2
  omega

/-- A message of a history page is above the watermark of the pair asked for. -/
theorem historyPage_above {db : Db} {docs : List Doc} {q : HistoryQuery} {m : MsgData}
    (h : m ∈ (historyPage db docs q).messages) :
    ((m.sendID = q.owner ∨ m.sendID = q.peer) ∧ (m.recvID = q.owner ∨ m.recvID = q.peer)) ∧
      db.Above q.owner q.peer m.seq := by
  obtain ⟨hm, hp⟩ := List.mem_filter.1 h
  simp only [Bool.and_eq_true, Bool.or_eq_true, decide_eq_true_eq] at hp
  refine ⟨hp, fun d hd => ?_⟩
  have hm := (List.mem_filter.1 (List.mem_of_mem_take hm)).1
  obtain ⟨doc, hdoc, rfl⟩ := List.mem_map.1 hm
  have hdoc := (List.mem_insertionSort _).1 (List.mem_of_mem_take hdoc)
  have hf := (List.mem_filter.1 hdoc).2
  simp only [Bool.and_eq_true, decide_eq_true_eq] at hf
  have hcut : db.friendDeletionSeq q.owner q.peer = d := by
    unfold Db.friendDeletionSeq; rw [hd]; rfl
  have := hf.2
  rw [hcut] at this
  change (d : Int) < doc.seq
  omega

/-- The message of a worker's task is above the watermark when the friend
    check of the phase admits it. -/
theorem Ready.above (hI : Inv J w) {k : Worker} (hk : k ∈ w.workers) {r : OutboxRow} {m : MsgData}
    (h : Ready J w.db k.task r m) : w.db.Above m.sendID m.recvID m.seq := by
  obtain ⟨r₀, hW⟩ := hI.calls.worker k hk
  obtain ⟨-, hm⟩ := hW.ready h
  rw [← hm.actor, ← hm.peer, ← hm.seq, hW.actor, hW.peer, hW.seq]
  exact friendAllows_above h.allowed

/-- **What is accepted, moved or shown is above the watermark of its pair.** -/
theorem Event.above (hI : Inv J w) {e : Event} {m : MsgData} {a b : Account}
    (hj : e.Justified J w w') (hs : e.shown = some m) (hab : a ≠ b)
    (hp : IsPair a b m.sendID m.recvID) : w.db.Above a b m.seq := by
  have hof : w.db.Above m.sendID m.recvID m.seq → w.db.Above a b m.seq := fun h => by
    rcases hp with ⟨h₁, h₂⟩ | ⟨h₁, h₂⟩
    · rwa [h₁, h₂] at h
    · rw [h₁, h₂] at h; exact Above.symm hI.friends h
  cases e with
  | accepted m' =>
    cases hs
    exact hof (hI.calls.send _ hj.1).2.2.2
  | replayed m' =>
    cases hs
    exact hof (friendAllows_above hj)
  | staged m' =>
    cases hs
    obtain ⟨k, hk, r, hr⟩ := hj
    exact hof (hr.above hI hk)
  | dispatched m' =>
    cases hs
    obtain ⟨k, hk, r, hr⟩ := hj
    exact hof (hr.above hI hk)
  | pushed m' =>
    cases hs
    obtain ⟨⟨c, hc, rfl⟩, ha⟩ := hj
    exact hof (friendMessageAllowed_above hI (hI.calls.consumer c hc).2.1 ha)
  | offered m' =>
    cases hs
    exact hof (friendMessageAllowed_above hI (hI.calls.delivery _ hj.1) hj.2)
  | returned m' =>
    cases hs
    obtain ⟨q, p, hq, hm⟩ := hj
    rw [getSingleChatHistoryRpc_page hq] at hm
    obtain ⟨⟨h₁, h₂⟩, ha⟩ := historyPage_above hm
    -- the two ends of the message are the two ends of the query
    refine Above.of_isPair hI.friends ha ?_
    rcases hp with ⟨h₃, h₄⟩ | ⟨h₃, h₄⟩ <;> rw [h₃] at h₁ <;> rw [h₄] at h₂ <;>
      rcases h₁ with h₁ | h₁ <;> rcases h₂ with h₂ | h₂
    · exact absurd (h₁.trans h₂.symm) hab
    · exact Or.inl ⟨h₁, h₂⟩
    · exact Or.inr ⟨h₁, h₂⟩
    · exact absurd (h₁.trans h₂.symm) hab
    · exact absurd (h₂.trans h₁.symm) hab
    · exact Or.inr ⟨h₂, h₁⟩
    · exact Or.inl ⟨h₂, h₁⟩
    · exact absurd (h₂.trans h₁.symm) hab
  | deleted => cases hs
  | acked => cases hs
  | replied => cases hs
  | notified => cases hs

/-- What a deletion leaves behind. -/
theorem deleted_watermark (hI : Inv J w) {a b : Account} {d : ℕ}
    (h : Event.Justified J w w' (.deleted a b d)) :
    a ≠ b ∧ w.lastId < d ∧ w'.db.deletedSeq? a b = some d := by
  obtain ⟨c, hc, now, rfl, rfl, hlt, hdb⟩ := h
  refine ⟨(hI.calls.friend c hc).symm, hlt, ?_⟩
  rw [hdb]
  unfold Db.deletedSeq?
  rw [(clearConversation_frame _ _ _).2.1]
  exact deletedSeq_close (Or.inl ⟨rfl, rfl⟩)

/-- Every queued message has a number that was drawn. -/
theorem row_seq_le (hI : Inv J w) {r : OutboxRow} (hr : r ∈ w.db.outbox) (ho : r.operation = 1) :
    r.seq ≤ w.lastId := by
  obtain ⟨m, hs, hm, -⟩ := hI.rows.message hr ho
  rw [hm.seq]; exact (hI.ids.stamped m hs).le

/-- **The deletion watermark.**  When a friendship is deleted with watermark
    `d`, every message of the pair in the outbox is numbered below `d`; and
    whatever is accepted, replayed, staged, dispatched, pushed, offered at
    login or returned as history from then on, of this pair, is numbered
    above `d`.  Runs draw increasing ids (`SysTrace`). -/
theorem deletion_watermark (T : SysTrace J) {i : ℕ} (hi : i < T.len) {a b : Account} {d : ℕ}
    (h : .deleted a b d ∈ T.out i) :
    (∀ r ∈ (T.state i).db.outbox, r.operation = 1 → samePair r.actor r.peer a b = true →
      r.seq < d) ∧
    ∀ j, i < j → j < T.len → ∀ e ∈ T.out j, ∀ m, e.shown = some m →
      samePair m.sendID m.recvID a b = true → (d : Int) < m.seq := by
  have hI := inv_trace T hi.le
  obtain ⟨hab, hlt, hd⟩ := deleted_watermark hI ((step_move (T.next i hi)).event _ h)
  refine ⟨fun r hr ho _ => ?_, fun j hij hj e he m hs hp => ?_⟩
  · have := row_seq_le hI hr ho
    omega
  · have habove := Event.above (inv_trace T hj.le) ((step_move (T.next j hj)).event e he) hs hab
      (samePair_iff.1 hp)
    exact (trace_grows T hij hj.le).above _ _ _ habove d hd

end

/-! ## A run with a deletion -/

/-- A second message of account 1, sent after the deletion. -/
def againStamped : MsgData :=
  stampMessage { hello 0 with clientMsgID := "c2" } "2c9d7f10-3e4a-4b8c-8d21-7a6b5c4d3e2f" 12 300

/-- The JSON texts of both messages. -/
def deletionCodec : Codec :=
  (helloCodec 0).add againStamped
    ("\x7b\"sendID\":\"1\",\"recvID\":\"2\",\"convID\":\"1_2\",\"clientMsgID\":\"c2\"," ++
      "\"serverMsgID\":\"2c9d7f10-3e4a-4b8c-8d21-7a6b5c4d3e2f\",\"sessionType\":1,\"msgFrom\":100," ++
      "\"contentType\":101,\"content\":\"aGk=\",\"seq\":\"12\",\"sendTime\":300" ++ "\x7d")
    (append_brace_ne_empty _) (by decide +kernel)

/-- Account 1 sends a message to its friend 2 and deletes the friendship between
    the two phases of the worker.  They become friends again; only then the
    worker goes on and account 1 reads the history.  The next message is
    accepted. -/
def deletionActions : List Action :=
  sendActions 0 ++
    [.claim 25 [] "d0a1b2c3-0000-4000-8000-000000000001", .runPhase 0 25 false 20,
      .friendStart { actor := 1, operation := .deleteFriend, target := 2 }, .friendCommit 0 30 9,
      .friendStart { actor := 2, operation := .apply, target := 1 }, .friendCommit 0 40 0,
      .friendStart { actor := 1, operation := .handleApplication, applicationID := 2, accept := true },
      .friendCommit 0 50 0, .runPhase 0 60 false 20, .history ⟨1, 2, 0, 10⟩,
      .send { hello 0 with clientMsgID := "c2" } "2c9d7f10-3e4a-4b8c-8d21-7a6b5c4d3e2f" 12 300,
      .queueLookup 1, .queueInsert 1 false]

def deletionRun : SysTrace deletionCodec :=
  sampleRun deletionCodec deletionActions (by decide +kernel)

/-- The message numbered 5 is in the outbox at the deletion; the worker and the
    history show nothing of it afterwards, and the one numbered 12 is
    accepted. -/
theorem deletionRun_watermark :
    (∀ r ∈ (deletionRun.state 12).db.outbox, r.operation = 1 →
      samePair r.actor r.peer 1 2 = true → r.seq < 9) ∧
    (∀ j, 12 < j → j < deletionRun.len → ∀ e ∈ deletionRun.out j, ∀ m, e.shown = some m →
      samePair m.sendID m.recvID 1 2 = true → ((9 : ℕ) : Int) < m.seq) ∧
    (deletionRun.state 17).db.friendCount 1 2 = 2 ∧ deletionRun.out 17 = [] ∧ deletionRun.out 18 = [] ∧
    deletionRun.out 21 = [.accepted againStamped] := by
  obtain ⟨hqueued, hlater⟩ := deletion_watermark deletionRun (i := 12) (a := 1) (b := 2) (d := 9) (by decide)
    (by decide +kernel)
  exact ⟨hqueued, hlater, by decide +kernel, by decide +kernel, by decide +kernel, by decide +kernel⟩

end ApeServer
