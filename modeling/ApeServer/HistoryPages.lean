/-
  Reading a single chat page by page.

  `GetSingleChatHistory` fetches `limit + 1` documents and filters them
  afterwards, so that `hasMore` is lost when one of them is not visible.

  * `historyTraversal` follows `nextSeq` while `hasMore` is set;
  * `historyTraversal_eq`: it is the scan of a sieve over the documents;
  * `historyTraversal_complete`: the condition on the documents under which it
    shows all visible messages;
  * `HistoryQuery.Whole`: the documents a run leaves behind, all of which are
    visible; then the pages are complete (`HistoryQuery.Whole.complete`).
-/
import ApeServer.Delivery
import ApeServer.Lib.Sieve

namespace ApeServer

open Table Paging

/-! ## The documents of a conversation -/

/-- The committed documents of a conversation after a number, in order. -/
def conversationHistory (conversation : String) (after : Int) (docs : List Doc) : List MsgData :=
  ((docs.filter fun d => d.convID = conversation && d.isGroupMsg = false && d.committed ≠ false &&
      after < d.seq).insertionSort fun d d' => d.seq ≤ d'.seq).map (historyMessage conversation)

/-- The message is between the two users of the query. -/
def HistoryQuery.between (q : HistoryQuery) (m : MsgData) : Bool :=
  (m.sendID = q.owner || m.sendID = q.peer) && (m.recvID = q.owner || m.recvID = q.peer)

/-- The conversation of the two users. -/
def HistoryQuery.conversation (q : HistoryQuery) : String := conversationId q.owner q.peer

/-- What the pages should show: the messages after `afterSeq` and the deletion
    that `FilterVisibleMessages` lets through. -/
def visibleHistory (db : Db) (docs : List Doc) (q : HistoryQuery) : List MsgData :=
  (db.filterVisibleMessages (conversationHistory q.conversation
    (max q.afterSeq (db.friendDeletionSeq q.owner q.peer)) docs)).filter q.between

/-- The committed messages after `afterSeq` and the deletion. -/
def committedHistory (db : Db) (docs : List Doc) (q : HistoryQuery) : List MsgData :=
  conversationHistory q.conversation (max q.afterSeq (db.friendDeletionSeq q.owner q.peer)) docs

/-- The pages from `afterSeq = a` on, if there are at most `k` of them. -/
def historyTraversal (db : Db) (docs : List Doc) (q : HistoryQuery) : ℕ → Int → Option (List MsgData)
  | 0, _ => none
  | k + 1, a =>
    match getSingleChatHistoryRpc db docs { q with afterSeq := a } with
    | .page p =>
      if p.hasMore then (historyTraversal db docs q k p.nextSeq).map (p.messages ++ ·)
      else some p.messages
    | _ => none

section
variable {db : Db} {docs : List Doc} {q : HistoryQuery}

theorem getSingleChatHistory_eq (conversation : String) (after : Int) (limit : ℕ) (docs : List Doc) :
    getSingleChatHistory conversation after limit docs
      = (conversationHistory conversation after docs).take limit :=
  List.map_take

/-- A later start leaves the rows after it. -/
theorem conversationHistory_beyond (conversation : String) (after c : Int) (docs : List Doc) :
    conversationHistory conversation (max c after) docs
      = beyond MsgData.seq c (conversationHistory conversation after docs) := by
  have hcomp : (fun m : MsgData => decide (c < m.seq)) ∘ historyMessage conversation
      = fun d : Doc => decide (c < d.seq) := rfl
  unfold conversationHistory beyond
  rw [List.filter_map, hcomp, filter_insertionSort Doc.seq, List.filter_filter]
  congr 2
  refine List.filter_congr fun d _ => ?_
  simp only [max_lt_iff, Bool.decide_and]
  rw [← Bool.and_assoc, Bool.and_comm _ (decide (c < d.seq)), Bool.and_assoc]

theorem sorted_conversationHistory (conversation : String) (after : Int) (docs : List Doc) :
    (conversationHistory conversation after docs).Pairwise fun m m' => m.seq ≤ m'.seq :=
  List.pairwise_map.2 (List.pairwise_insertionSort (fun d d' : Doc => d.seq ≤ d'.seq) _)

theorem nodup_serverIds (hids : (docs.map Doc.serverMsgID).Nodup) (conversation : String) (after : Int) :
    ((conversationHistory conversation after docs).map MsgData.serverMsgID).Nodup := by
  unfold conversationHistory
  rw [List.map_map]
  change ((List.insertionSort _ _).map Doc.serverMsgID).Nodup
  rw [((List.perm_insertionSort _ _).map _).nodup_iff]
  exact hids.sublist (List.filter_sublist.map _)

theorem lt_seq_of_mem {conversation : String} {after : Int} {m : MsgData}
    (h : m ∈ conversationHistory conversation after docs) : after < m.seq := by
  obtain ⟨d, hd, rfl⟩ := List.mem_map.1 h
  have := (List.mem_filter.1 ((List.mem_insertionSort _).1 hd)).2
  simp only [Bool.and_eq_true, decide_eq_true_eq] at this
  exact this.2

/-- With different server ids each message is judged by itself. -/
theorem filterVisibleMessages_of_nodup {ms : List MsgData} (h : (ms.map MsgData.serverMsgID).Nodup) :
    db.filterVisibleMessages ms = ms.filter db.visible := by
  refine List.filter_congr fun m hm => ?_
  rw [Bool.eq_iff_iff, decide_eq_true_iff, List.mem_map]
  constructor
  · rintro ⟨m', hm', he⟩
    obtain ⟨hm', hv⟩ := List.mem_filter.1 hm'
    rwa [eq_of_key h hm hm' he.symm]
  · intro hv
    exact ⟨m, List.mem_filter.2 ⟨hm, hv⟩, rfl⟩

theorem friendDeletionSeq_nonneg (db : Db) (a b : Account) : 0 ≤ db.friendDeletionSeq a b :=
  Int.natCast_nonneg _

/-- The pages of a query, as a sieve. -/
def HistoryQuery.sieve (q : HistoryQuery) (db : Db) (docs : List Doc)
    (hids : (docs.map Doc.serverMsgID).Nodup) : Sieve.Setup MsgData Int where
  key := MsgData.seq
  rows := conversationHistory q.conversation (db.friendDeletionSeq q.owner q.peer) docs
  keep := db.visible
  mine := q.between
  size := historyLimit q
  bot := 0
  sorted := sorted_conversationHistory _ _ _
  nodup := (nodup_serverIds hids _ _).of_map
  bot_lt := fun _ hm => (friendDeletionSeq_nonneg _ _ _).trans_lt (lt_seq_of_mem hm)
  size_pos := by
    unfold historyLimit
    omega

/-- A page of the query is one of the sieve. -/
theorem historyPage_eq (hids : (docs.map Doc.serverMsgID).Nodup) (a : Int) :
    historyPage db docs { q with afterSeq := a }
      = ⟨(q.sieve db docs hids).page a, (q.sieve db docs hids).more a, (q.sieve db docs hids).next a⟩ := by
  have hfound : db.filterVisibleMessages (getSingleChatHistory q.conversation
      (max a (db.friendDeletionSeq q.owner q.peer)) (historyLimit q + 1) docs)
      = (q.sieve db docs hids).found a := by
    rw [getSingleChatHistory_eq, conversationHistory_beyond, filterVisibleMessages_of_nodup]
    · rfl
    · rw [← conversationHistory_beyond]
      exact (nodup_serverIds hids _ _).sublist ((List.take_sublist _ _).map _)
  have hpage : historyPage db docs { q with afterSeq := a }
      = { messages := ((db.filterVisibleMessages (getSingleChatHistory q.conversation
            (max a (db.friendDeletionSeq q.owner q.peer)) (historyLimit q + 1) docs)).take
            (historyLimit q)).filter q.between
          hasMore := historyLimit q < (db.filterVisibleMessages (getSingleChatHistory q.conversation
            (max a (db.friendDeletionSeq q.owner q.peer)) (historyLimit q + 1) docs)).length
          nextSeq := ((((db.filterVisibleMessages (getSingleChatHistory q.conversation
            (max a (db.friendDeletionSeq q.owner q.peer)) (historyLimit q + 1) docs)).take
            (historyLimit q)).filter q.between).getLast?.map (·.seq)).getD 0 } := rfl
  rw [hpage, hfound]
  rfl

/-- What the pages should show is what the sieve should. -/
theorem visibleHistory_eq (hids : (docs.map Doc.serverMsgID).Nodup) :
    visibleHistory db docs q = (q.sieve db docs hids).wanted q.afterSeq := by
  rw [visibleHistory, filterVisibleMessages_of_nodup (nodup_serverIds hids _ _), List.filter_filter,
    conversationHistory_beyond]
  exact List.filter_congr fun m _ => Bool.and_comm _ _

/-- What the code checks of a query. -/
structure HistoryQuery.Valid (q : HistoryQuery) : Prop where
  owner : q.owner ≠ 0
  peer : q.peer ≠ 0
  ne : q.owner ≠ q.peer
  afterSeq : 0 ≤ q.afterSeq

/-- Two friends may read, unless their deletion is at the greatest number. -/
theorem historyAllowed_iff (db : Db) (hne : q.owner ≠ q.peer) (hf : db.friendCount q.owner q.peer = 2)
    (a : Int) :
    db.friendMessageAllowed (historyCandidate { q with afterSeq := a }) false = true
      ↔ db.Above q.owner q.peer (2 ^ 63 - 1) := by
  have hmax : asUint64 (2 ^ 63 - 1) = 2 ^ 63 - 1 := by decide
  unfold Db.friendMessageAllowed Db.Above historyCandidate
  cases db.deletedSeq? q.owner q.peer with
  | none => simp [hne, hf]
  | some d =>
    simp only [hne, hf, hmax, ne_eq, not_false_eq_true, decide_true, Bool.true_and, Bool.true_or, Bool.and_true,
      decide_eq_true_eq, Option.some.injEq, forall_eq']
    omega

/-- The traversal of allowed pages is the scan of the sieve. -/
theorem historyTraversal_eq (hids : (docs.map Doc.serverMsgID).Nodup) (hq : q.Valid)
    (ha : ∀ a, db.friendMessageAllowed (historyCandidate { q with afterSeq := a }) false = true) (k : ℕ) {a : Int}
    (h₀ : 0 ≤ a) : historyTraversal db docs q k a = (q.sieve db docs hids).scan k a := by
  induction k generalizing a with
  | zero => rfl
  | succ k ih =>
    have hrpc : getSingleChatHistoryRpc db docs { q with afterSeq := a }
        = .page (historyPage db docs { q with afterSeq := a }) := by
      unfold getSingleChatHistoryRpc
      rw [if_neg, if_pos (ha a)]
      simp only [hq.owner, hq.peer, hq.ne, false_or]
      omega
    have hnext : 0 ≤ (q.sieve db docs hids).next a := (q.sieve db docs hids).bot_le_next a
    simp only [historyTraversal, hrpc, historyPage_eq hids, Sieve.Setup.scan]
    rw [ih hnext]

/-- After a deletion at the greatest number every page is refused. -/
theorem historyTraversal_refused (hq : q.Valid) (hf : db.friendCount q.owner q.peer = 2)
    (ha : ¬ db.Above q.owner q.peer (2 ^ 63 - 1)) (k : ℕ) : historyTraversal db docs q k q.afterSeq = none := by
  cases k with
  | zero => rfl
  | succ k =>
    have hrpc : getSingleChatHistoryRpc db docs q = .permissionDenied := by
      unfold getSingleChatHistoryRpc
      rw [if_neg, if_neg]
      · rw [historyAllowed_iff db hq.ne hf q.afterSeq]
        exact ha
      · simp only [hq.owner, hq.peer, hq.ne, false_or]
        have := hq.afterSeq
        omega
    simp only [historyTraversal, hrpc]

/-- **When the pages of a single chat show what is visible.**  For two friends,
    every content of the collection and every query, following `nextSeq` while
    there is more shows all visible messages after the start exactly if the
    deletion of the two is below the greatest number and the documents are
    aligned. -/
theorem historyTraversal_complete (hids : (docs.map Doc.serverMsgID).Nodup) (hq : q.Valid)
    (hf : db.friendCount q.owner q.peer = 2) :
    (∃ k, historyTraversal db docs q k q.afterSeq = some (visibleHistory db docs q)) ↔
      db.Above q.owner q.peer (2 ^ 63 - 1) ∧ (q.sieve db docs hids).Aligned q.afterSeq := by
  by_cases ha : db.Above q.owner q.peer (2 ^ 63 - 1)
  · have heq : ∀ k, historyTraversal db docs q k q.afterSeq = (q.sieve db docs hids).scan k q.afterSeq := fun k =>
      historyTraversal_eq hids hq (fun a => (historyAllowed_iff db hq.ne hf a).2 ha) k hq.afterSeq
    simp only [visibleHistory_eq hids, heq, ha, true_and]
    exact Sieve.Setup.scan_eq_wanted
  · refine iff_of_false ?_ fun h => ha h.1
    rintro ⟨k, hk⟩
    rw [historyTraversal_refused hq hf ha] at hk
    cases hk

/-! ## Documents that are all visible -/

/-- The committed messages after the start are all visible, between the two
    users, and have different numbers. -/
structure HistoryQuery.Whole (q : HistoryQuery) (db : Db) (docs : List Doc) : Prop where
  visible : ∀ m ∈ committedHistory db docs q, db.visible m = true
  between : ∀ m ∈ committedHistory db docs q, q.between m = true
  seqs : ((committedHistory db docs q).map MsgData.seq).Nodup

/-- The pages are those of a complete history: they end, they are all the
    committed messages in ascending order, and there is said to be more whenever
    a message is left. -/
structure HistoryQuery.Complete (q : HistoryQuery) (db : Db) (docs : List Doc) : Prop where
  pages : ∃ k, historyTraversal db docs q k q.afterSeq = some (visibleHistory db docs q)
  all : visibleHistory db docs q = committedHistory db docs q
  ascending : (visibleHistory db docs q).Pairwise fun m m' => m.seq < m'.seq
  more : ∀ a p, q.afterSeq ≤ a → getSingleChatHistoryRpc db docs { q with afterSeq := a } = .page p →
    (∃ m ∈ visibleHistory db docs { q with afterSeq := a }, m ∉ p.messages) → p.hasMore = true

/-- A later start leaves the messages after it. -/
theorem committedHistory_subset {a : Int} (ha : q.afterSeq ≤ a) :
    committedHistory db docs { q with afterSeq := a } ⊆ committedHistory db docs q := by
  intro m hm
  change m ∈ conversationHistory q.conversation (max a (db.friendDeletionSeq q.owner q.peer)) docs at hm
  change m ∈ conversationHistory q.conversation (max q.afterSeq (db.friendDeletionSeq q.owner q.peer)) docs
  rw [conversationHistory_beyond] at hm ⊢
  obtain ⟨hm, hlt⟩ := List.mem_filter.1 hm
  exact List.mem_filter.2 ⟨hm, decide_eq_true (ha.trans_lt (of_decide_eq_true hlt))⟩

/-- The committed messages are the rows of the sieve. -/
theorem committedHistory_eq (hids : (docs.map Doc.serverMsgID).Nodup) (a : Int) :
    committedHistory db docs { q with afterSeq := a } = (q.sieve db docs hids).rest a :=
  conversationHistory_beyond _ _ _ _

namespace HistoryQuery.Whole

theorem shown (h : q.Whole db docs) (hids : (docs.map Doc.serverMsgID).Nodup) {a : Int} (ha : q.afterSeq ≤ a) :
    ∀ m ∈ (q.sieve db docs hids).rest a, (q.sieve db docs hids).shown m = true := by
  intro m hm
  rw [← committedHistory_eq] at hm
  have hm := committedHistory_subset ha hm
  exact Bool.and_eq_true_iff.2 ⟨h.visible m hm, h.between m hm⟩

theorem ascending (h : q.Whole db docs) :
    (committedHistory db docs q).Pairwise fun m m' => m.seq < m'.seq :=
  ((sorted_conversationHistory _ _ _).and (List.pairwise_map.1 h.seqs)).imp fun h => lt_of_le_of_ne h.1 h.2

/-- **The pages are complete** when all committed messages are visible. -/
theorem complete (h : q.Whole db docs) (hids : (docs.map Doc.serverMsgID).Nodup) (hq : q.Valid)
    (hf : db.friendCount q.owner q.peer = 2) (ha : db.Above q.owner q.peer (2 ^ 63 - 1)) :
    q.Complete db docs := by
  have hall : visibleHistory db docs q = committedHistory db docs q := by
    rw [visibleHistory_eq hids, Sieve.Setup.wanted_of_shown (h.shown hids le_rfl)]
    exact (committedHistory_eq hids q.afterSeq).symm
  refine ⟨?_, hall, hall ▸ h.ascending, fun a p hle hp hex => ?_⟩
  · refine (historyTraversal_complete hids hq hf).2 ⟨ha, Sieve.Setup.aligned_of_shown (h.shown hids le_rfl) ?_⟩
    exact committedHistory_eq hids q.afterSeq ▸ h.ascending
  · obtain ⟨m, hm, hn⟩ := hex
    rw [getSingleChatHistoryRpc_page hp, historyPage_eq hids] at hn ⊢
    rw [visibleHistory_eq hids, Sieve.Setup.wanted] at hm
    exact Sieve.Setup.more_of_shown (h.shown hids hle) (List.mem_of_mem_filter hm) hn

end HistoryQuery.Whole

end

/-! ## A page without its first message -/

/-- The message `n` of account 1 to account 2. -/
def chatMessage (id : String) (n : Int) : MsgData :=
  { sendID := 1, recvID := 2, convID := "1_2", serverMsgID := id, sessionType := 1, contentType := 101, seq := n }

/-- Three committed messages. -/
def threeDocs : List Doc :=
  [Doc.ofMsg (chatMessage "a" 1) true, Doc.ofMsg (chatMessage "b" 2) true, Doc.ofMsg (chatMessage "c" 3) true]

/-- Tables that no run leaves behind: the row of the first message is not staged,
    though the message is committed. -/
def stagingDb : Db where
  friends := [⟨1, 1, 2, "", 0⟩, ⟨2, 2, 1, "", 0⟩]
  outbox := [⟨1, 1, "k", 1, 2, "1_2", "a", 1, "", 1, 0, false, 0, 0, 0, ""⟩]

/-- Account 1 reads pages of one message from the start. -/
def readOne : HistoryQuery := ⟨1, 2, 0, 1⟩

/-- One page is returned, with the second message and without `hasMore`, while
    the third is visible. -/
theorem staging_hides_rest :
    ¬ ∀ (db : Db) (docs : List Doc) (q : HistoryQuery), (docs.map Doc.serverMsgID).Nodup → q.Valid →
      db.friendCount q.owner q.peer = 2 → db.Above q.owner q.peer (2 ^ 63 - 1) →
      ∃ k, historyTraversal db docs q k q.afterSeq = some (visibleHistory db docs q) := by
  intro h
  obtain ⟨k, hk⟩ := h stagingDb threeDocs readOne (by decide) ⟨by decide, by decide, by decide, by decide⟩
    (by decide) (by intro d hd; cases hd)
  have hpage : getSingleChatHistoryRpc stagingDb threeDocs readOne
      = .page ⟨[historyMessage "1_2" (Doc.ofMsg (chatMessage "b" 2) true)], false, 2⟩ := by decide +kernel
  cases k with
  | zero => cases hk
  | succ k =>
    have hone : historyTraversal stagingDb threeDocs readOne (k + 1) readOne.afterSeq
        = some [historyMessage "1_2" (Doc.ofMsg (chatMessage "b" 2) true)] := by
      rw [historyTraversal]
      change (match getSingleChatHistoryRpc stagingDb threeDocs readOne with
        | .page p => if p.hasMore then (historyTraversal stagingDb threeDocs readOne k p.nextSeq).map
            (p.messages ++ ·) else some p.messages
        | _ => none) = _
      rw [hpage]
      rfl
    rw [hone] at hk
    exact absurd (congrArg (Option.map List.length) hk) (by decide +kernel)

end ApeServer
