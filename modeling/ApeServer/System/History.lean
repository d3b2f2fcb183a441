/-
  The history pages of a running system.

  `PublishMessage` sets `committed` in the dispatch phase, after the persist
  phase has committed stage 1, and a message is cancelled only together with a
  watermark above it.  So the committed documents above the watermark are all
  visible.

  * `seqs_trace`: the messages of a run have different numbers;
  * `whole_trace`: the documents of two friends are `HistoryQuery.Whole`;
  * `history_pages`: their pages are complete.
-/
import ApeServer.HistoryPages
import ApeServer.System.Cancelled
import ApeServer.System.Recovery

namespace ApeServer

open Table

section
variable {J : Codec} {w w' : World}

/-! ## Numbers -/

theorem seqs_move (hI : IdsOk w) (h : Ids w w') (hn : (w.stamped.map MsgData.seq).Nodup) :
    (w'.stamped.map MsgData.seq).Nodup := by
  cases h.draw with
  | none hs => rwa [hs]
  | message m uuid seq time _ _ _ _ hlt _ hs =>
    rw [hs, List.map_cons, List.nodup_cons]
    refine ⟨fun hm => ?_, hn⟩
    obtain ⟨m', hm', he⟩ := List.mem_map.1 hm
    -- the numbers drawn before are smaller
    have hle := (hI.stamped m' hm').le
    have he : m'.seq = seq := he
    omega

/-- **No two messages have the same number.** -/
theorem seqs_trace (T : SysTrace J) {i : ℕ} (hi : i ≤ T.len) : ((T.state i).stamped.map MsgData.seq).Nodup := by
  induction i with
  | zero =>
    rw [T.start]
    exact List.nodup_nil
  | succ i ih =>
    exact seqs_move (inv_trace T (Nat.le_of_succ_le hi)).ids (step_move (T.next i hi)).ids
      (ih (Nat.le_of_succ_le hi))

/-! ## The committed documents of two users -/

/-- Where a message of the history comes from. -/
theorem mem_committedHistory {db : Db} {docs : List Doc} {q : HistoryQuery} {m : MsgData} :
    m ∈ committedHistory db docs q ↔ ∃ d ∈ docs, historyMessage q.conversation d = m ∧
      d.convID = q.conversation ∧ d.isGroupMsg = false ∧ d.committed = true ∧
      q.afterSeq < d.seq ∧ db.friendDeletionSeq q.owner q.peer < d.seq := by
  unfold committedHistory conversationHistory
  simp only [List.mem_map, List.mem_insertionSort, List.mem_filter, Bool.and_eq_true, decide_eq_true_eq,
    ne_eq, Bool.not_eq_false, max_lt_iff]
  constructor
  · rintro ⟨d, ⟨hd, ⟨⟨hc, hg⟩, hp⟩, hs⟩, rfl⟩
    exact ⟨d, hd, rfl, hc, hg, hp, hs⟩
  · rintro ⟨d, hd, rfl, hc, hg, hp, hs⟩
    exact ⟨d, ⟨hd, ⟨⟨hc, hg⟩, hp⟩, hs⟩, rfl⟩

theorem above_of_friendDeletionSeq {db : Db} {a b : Account} {seq : Int} (h : db.friendDeletionSeq a b < seq) :
    db.Above a b seq := by
  intro d hd
  unfold Db.friendDeletionSeq at h
  rw [hd] at h
  exact h

/-- A row that is staged and live lets its message through. -/
theorem Settled.outboxAllows (hI : Inv J w) (h : Settled w) {r : OutboxRow} (hr : r ∈ w.db.outbox)
    (ho : r.operation = 1) (hs : 1 ≤ r.stage) (hl : w.db.Live r) : w.db.OutboxAllows r.serverId :=
  outboxAllows_of_staged hI hr ho ((stage_eq_one hI hr ho).1 hs) fun hc => h.dead r hr ho hc hl

/-- What the history of two friends shows is a message of theirs, as it was
    numbered, that `FilterVisibleMessages` lets through. -/
theorem Settled.history (hI : Inv J w) (hk : (w.db.friends.map FriendRow.key).Nodup) (h : Settled w)
    {q : HistoryQuery} (hq : q.Valid) (hf : w.db.friendCount q.owner q.peer = 2) {m : MsgData}
    (hm : m ∈ committedHistory w.db w.stores.mongo q) :
    w.db.visible m = true ∧ q.between m = true ∧
      ∃ m₀ ∈ w.stamped, m.seq = m₀.seq ∧ m.serverMsgID = m₀.serverMsgID := by
  obtain ⟨d, hd, rfl, hconv, -, hc, -, hseq⟩ := mem_committedHistory.1 hm
  obtain ⟨r, m₀, hdoc⟩ := hI.stores.doc d hd
  have hrow := hdoc.message
  have hsend : (historyMessage q.conversation d).sendID = r.actor := by
    rw [hrow.actor, ← ofInt64_asInt64 m₀.sendID, ← hdoc.sendID]
    rfl
  have hrecv : (historyMessage q.conversation d).recvID = r.peer := by
    rw [hrow.peer, ← ofInt64_asInt64 m₀.recvID, ← hdoc.recvID]
    rfl
  have hid : (historyMessage q.conversation d).serverMsgID = r.serverId := hdoc.serverMsgID.trans hrow.serverId.symm
  have hseq₀ : (historyMessage q.conversation d).seq = r.seq := hdoc.seq.trans hrow.seq.symm
  -- the pair of the conversation is that of the row
  have hpair : IsPair q.owner q.peer r.actor r.peer := by
    refine isPair_of_conversation hI.ids hI.rows hdoc.row hrow.operation ?_
    rw [hrow.conversation, ← hdoc.convID, hconv]
    rfl
  have hlive : w.db.Live r := by
    have habove : w.db.Above q.owner q.peer r.seq := above_of_friendDeletionSeq (hseq₀ ▸ hseq)
    exact Above.of_isPair hI.friends habove hpair
  refine ⟨?_, ?_, m₀, hdoc.stamped, hdoc.seq, hdoc.serverMsgID⟩
  · rw [visible_iff, hsend, hrecv, hseq₀, visible_outbox_allows hI, hid]
    have hfriend := (friendCount_eq_two_iff hk hq.ne).1 hf
    refine ⟨?_, hlive, h.outboxAllows hI hdoc.row hrow.operation (hdoc.committed hc) hlive⟩
    rcases hpair with ⟨h₁, h₂⟩ | ⟨h₁, h₂⟩ <;> rw [h₁, h₂]
    · exact hfriend
    · exact hfriend.symm
  · unfold HistoryQuery.between
    rw [hsend, hrecv]
    rcases hpair with ⟨h₁, h₂⟩ | ⟨h₁, h₂⟩ <;> simp [h₁, h₂]

/-- **In every state** the documents of two friends are whole. -/
theorem whole_trace (T : SysTrace J) {i : ℕ} (hi : i ≤ T.len) {q : HistoryQuery} (hq : q.Valid)
    (hf : (T.state i).db.friendCount q.owner q.peer = 2) : q.Whole (T.state i).db (T.state i).stores.mongo := by
  have hI := inv_trace T hi
  have hhist : ∀ m ∈ committedHistory (T.state i).db (T.state i).stores.mongo q, _ := fun m hm =>
    (settled_trace T hi).history hI (friendKeys_trace T hi) hq hf hm
  have hids := nodup_serverIds hI.stores.keys q.conversation
    (max q.afterSeq ((T.state i).db.friendDeletionSeq q.owner q.peer))
  refine ⟨fun m hm => (hhist m hm).1, fun m hm => (hhist m hm).2.1, ?_⟩
  refine hids.of_map.map_on fun m hm m' hm' he => eq_of_key hids hm hm' ?_
  obtain ⟨-, -, m₀, h₀, hs, hid⟩ := hhist m hm
  obtain ⟨-, -, m₀', h₀', hs', hid'⟩ := hhist m' hm'
  rw [hid, hid', eq_of_key (seqs_trace T hi) h₀ h₀' (by rw [← hs, ← hs', he])]

end

/-- **The pages of a single chat are complete.**  For two friends whose deletion
    is below the greatest number, every query and every content of the
    collection in which the committed messages of the two after the start are
    visible and have different numbers, following `nextSeq` while there is more
    shows these messages, in ascending order, each once; and there is said to be
    more on every page that leaves one out.  In every state of every run the
    content is such.  Runs draw increasing ids (`SysTrace`). -/
theorem history_pages (J : Codec) :
    (∀ (db : Db) (docs : List Doc) (q : HistoryQuery), (docs.map Doc.serverMsgID).Nodup → q.Valid →
      db.friendCount q.owner q.peer = 2 → db.Above q.owner q.peer (2 ^ 63 - 1) → q.Whole db docs →
      q.Complete db docs) ∧
    ∀ (T : SysTrace J) (i : ℕ) (q : HistoryQuery), i ≤ T.len → q.Valid →
      (T.state i).db.friendCount q.owner q.peer = 2 →
      q.Whole (T.state i).db (T.state i).stores.mongo ∧
      ((T.state i).db.Above q.owner q.peer (2 ^ 63 - 1) → q.Complete (T.state i).db (T.state i).stores.mongo) := by
  refine ⟨fun db docs q hids hq hf ha hw => hw.complete hids hq hf ha, fun T i q hi hq hf => ?_⟩
  have hw := whole_trace T hi hq hf
  exact ⟨hw, fun ha => hw.complete (inv_trace T hi).stores.keys hq hf ha⟩

/-- Three messages on three pages, and the message of a run. -/
theorem history_pages_readOne :
    (∃ k, historyTraversal { stagingDb with outbox := [] } threeDocs readOne k 0
      = some (threeDocs.map (historyMessage "1_2"))) ∧
    ∃ k, historyTraversal (dispatchRun.state 16).db (dispatchRun.state 16).stores.mongo readOne k 0
      = some [historyMessage "1_2" (Doc.ofMsg (helloStamped 0) true)] := by
  have hq : readOne.Valid := ⟨by decide, by decide, by decide, by decide⟩
  have hthree := ((history_pages (helloCodec 0)).1 { stagingDb with outbox := [] } threeDocs readOne (by decide) hq
    (by decide) (by intro d hd; cases hd)
    ⟨by decide +kernel, by decide +kernel, by decide +kernel⟩).pages
  have hrun := (((history_pages (helloCodec 0)).2 dispatchRun 16 readOne (by decide) hq
    (by decide +kernel)).2 (by
      have hnone : (dispatchRun.state 16).db.deletedSeq? 1 2 = none := by decide +kernel
      intro d hd
      exact absurd (hnone.symm.trans hd) (by simp))).pages
  have h₁ : visibleHistory { stagingDb with outbox := [] } threeDocs readOne
      = threeDocs.map (historyMessage "1_2") := by decide +kernel
  have h₂ : visibleHistory (dispatchRun.state 16).db (dispatchRun.state 16).stores.mongo readOne
      = [historyMessage "1_2" (Doc.ofMsg (helloStamped 0) true)] := by decide +kernel
  rw [h₁] at hthree
  rw [h₂] at hrun
  exact ⟨hthree, hrun⟩

end ApeServer
