/-
  What the lists of conversations show.

  In every state of every run the three list calls answer, and with parts of one
  list: the entries of the owner that are not hidden, each with its last message
  and the number of unread ones, pinned ones first and then the latest.  The
  pages of `GetSortedConversationList`, one after the other, are this list.

  * `Db.BookOk.readable`: no stored entry makes a call fail;
  * `Db.BookOk.lists`: the list shows the messages;
  * `conversation_lists`.
-/
import ApeServer.ConversationLists
import ApeServer.System.Inbox

namespace ApeServer

/-! ## Entries of the list -/

/-- The summary of a message, with a preview of its content. -/
def MsgData.info (m : MsgData) (content : String) : MsgInfo where
  serverMsgID := m.serverMsgID
  clientMsgID := m.clientMsgID
  sessionType := 1
  sendID := m.sendID
  recvID := m.recvID
  senderName := m.senderNickname
  latestMsgRecvTime := m.sendTime
  contentType := m.contentType
  content := content

/-- The time of the message that is shown. -/
def Conversation.time (item : Conversation) : Int :=
  (item.latestMsg.map (·.latestMsgRecvTime)).getD 0

/-- Pinned entries come first, then the latest ones. -/
def Conversation.Before (a b : Conversation) : Prop :=
  (a.isPinned = true ∧ b.isPinned = false) ∨ a.isPinned = b.isPinned ∧
    (b.time < a.time ∨ a.time = b.time ∧ b.conversationID < a.conversationID)

/-- The item shows the last of the owner's messages, and counts what the owner
    has not read. -/
structure Conversation.Shows (J : Codec) (db : Db) (owner : Account) (item : Conversation) : Prop where
  mine : item.ownerUserID = owner
  last : ∃ m ∈ db.talk owner item.conversationID, m.seq = item.maxSeq ∧
    (∀ m' ∈ db.talk owner item.conversationID, m'.seq ≤ m.seq) ∧
    ∃ content, conversationPreview J m = some content ∧ item.latestMsg = some (m.info content)
  unread : item.unreadCount =
    {s : Int | ∃ m ∈ db.talk owner item.conversationID, m.recvID = owner ∧ m.seq = s ∧ item.readSeq < s}.ncard

/-- The list of the entries of `owner`, or of those with one of the ids. -/
structure Db.Lists (J : Codec) (db : Db) (owner : Account) (ids : List String) (items : List Conversation) : Prop where
  shows : ∀ item ∈ items, item.Shows J db owner
  complete : ∀ conv, (∃ item ∈ items, item.conversationID = conv) ↔ (ids = [] ∨ conv ∈ ids) ∧
    ∃ r ∈ db.conversations, r.owner = owner ∧ r.conversation = conv ∧ r.isHidden = false
  order : items.Pairwise Conversation.Before

section
variable {J : Codec} {P : InfoParser J} {db : Db} {owner : Account} {ids : List String} {r : ConversationRow}

theorem conversationSummary_eq_some {m : MsgData} {s : String} : conversationSummary J m = some s ↔
    ∃ content, conversationPreview J m = some content ∧ J.printInfo (m.info content) = some s :=
  Option.bind_eq_some_iff

/-- The stored summary is that of the last message. -/
theorem Db.BookOk.parsed (h : db.BookOk J) (P : InfoParser J) (hr : r ∈ db.conversations) :
    ∃ m ∈ db.talk r.owner r.conversation, m.seq = r.maxSeq ∧ m.sendTime = r.latestTime ∧
      ∃ content, conversationPreview J m = some content ∧ P.parseInfo r.latestMessage = some (m.info content) := by
  obtain ⟨m, hm, hseq, htime, hs⟩ := h.last hr
  obtain ⟨content, hpreview, hprint⟩ := conversationSummary_eq_some.1 hs
  exact ⟨m, hm, hseq, htime, content, hpreview, P.parse_print _ _ hprint⟩

/-- **No entry makes a call fail.** -/
theorem Db.BookOk.readable (h : db.BookOk J) (P : InfoParser J) : ∀ r ∈ db.conversations, r.Readable P := by
  intro r hr
  have hplain := h.plain _ _ r (conversation?_of_mem h.counts hr)
  obtain ⟨m, -, -, -, content, -, hparse⟩ := h.parsed P hr
  exact ⟨hplain.recvMsgOpt, hplain.minSeq.ge, hplain.readSeq.trans (h.counts.row r hr).read, hplain.readSeq,
    _, hparse⟩

theorem Db.BookOk.time (h : db.BookOk J) (hr : r ∈ db.conversations) : (r.shown P).time = r.latestTime := by
  obtain ⟨m, -, -, htime, content, -, hparse⟩ := h.parsed P hr
  unfold Conversation.time ConversationRow.shown
  rw [hparse]
  exact htime

theorem Db.BookOk.shows (h : db.BookOk J) (hr : r ∈ db.conversations) : (r.shown P).Shows J db r.owner := by
  have hread := h.readable P r hr
  obtain ⟨m, hm, hseq, -, content, hpreview, hparse⟩ := h.parsed P hr
  refine ⟨rfl, ⟨m, hm, ?_, fun m' hm' => ?_, content, hpreview, hparse⟩, ?_⟩
  · exact hseq.trans (Int.toNat_of_nonneg hread.maxSeq).symm
  · exact (h.le_maxSeq hr m' hm').trans hseq.ge
  · have hnat : ((r.shown P).readSeq : Int) = r.readSeq := Int.toNat_of_nonneg hread.readSeq
    rw [hnat]
    exact h.count hr

/-- **The list shows the messages.** -/
theorem Db.BookOk.lists (h : db.BookOk J) (P : InfoParser J) (owner : Account) (ids : List String) :
    db.Lists J owner ids (db.items P owner ids) := by
  refine ⟨fun item hitem => ?_, fun conv => ⟨?_, ?_⟩, ?_⟩
  · obtain ⟨r, hr, rfl, -, -, rfl⟩ := mem_items.1 hitem
    exact h.shows hr
  · rintro ⟨item, hitem, rfl⟩
    obtain ⟨r, hr, ho, hh, hids, rfl⟩ := mem_items.1 hitem
    exact ⟨hids, r, hr, ho, rfl, hh⟩
  · rintro ⟨hids, r, hr, ho, rfl, hh⟩
    exact ⟨r.shown P, mem_items.2 ⟨r, hr, ho, hh, hids, rfl⟩, rfl⟩
  · refine List.pairwise_map.2 ((ranked_pairwise h.counts.keys).imp_of_mem fun {r r'} hr hr' hlt => ?_)
    unfold Conversation.Before
    rw [h.time (mem_listed.1 (mem_ranked.1 hr)).1, h.time (mem_listed.1 (mem_ranked.1 hr')).1]
    exact rank_lt.1 hlt

end

/-- **The lists of conversations.**  In every state of every run, for every
    owner, there is a list of the owner's entries that are not hidden, or of
    those asked for; it shows the messages, in order.  `GetAllConversations`
    answers with it, `GetConversation` with an item of it, and
    `GetSortedConversationList` with its length, its unread messages and a page
    of it; its pages, one after the other, are the list.  No call fails.  Runs
    draw increasing ids (`SysTrace`). -/
theorem conversation_lists (J : Codec) (P : InfoParser J) (T : SysTrace J) : ∀ i ≤ T.len, ∀ owner ids,
    owner ≠ 0 → ids.length ≤ 1000 → ∃ items, (T.state i).db.Lists J owner ids items ∧
      (ids = [] → getAllConversations P (T.state i).db owner = .ok items ∧
        ∀ id, getConversation P (T.state i).db owner id =
          match items.find? fun item => item.conversationID = id with
          | none => .error (.notFound "Conversation not found")
          | some item => .ok item) ∧
      (∀ page size, getSortedConversationList P (T.state i).db ⟨owner, ids, page, size⟩ =
        .ok ⟨items.length, (items.map (·.unreadCount)).sum,
          ((items.map (·.elem)).drop (((max 1 page).toNat - 1) * (max 1 (min size 100)).toNat)).take
            (max 1 (min size 100)).toNat⟩) ∧
      ∀ k n : ℕ, 1 ≤ n → n ≤ 100 → items.length ≤ k * n →
        ∃ pages : ℕ → SortedPage,
          (∀ p < k, getSortedConversationList P (T.state i).db ⟨owner, ids, p + 1, n⟩ = .ok (pages p)) ∧
          (List.range k).flatMap (fun p => (pages p).conversationElems) = items.map (·.elem) := by
  intro i hi owner ids howner hids
  have hB := book_trace T hi
  have hread := hB.readable P
  have hpage : ∀ page size, getSortedConversationList P (T.state i).db ⟨owner, ids, page, size⟩ =
      .ok ⟨((T.state i).db.items P owner ids).length, (((T.state i).db.items P owner ids).map (·.unreadCount)).sum,
        ((((T.state i).db.items P owner ids).map (·.elem)).drop
          (((max 1 page).toNat - 1) * (max 1 (min size 100)).toNat)).take (max 1 (min size 100)).toNat⟩ := by
    intro page size
    unfold getSortedConversationList
    rw [sortedConversations_eq hread howner hids]
    rfl
  refine ⟨_, hB.lists P owner ids, fun hnil => ?_, hpage, fun k n h₁ hn hlen => ?_⟩
  · subst hnil
    constructor
    · unfold getAllConversations
      rw [if_neg howner, listConversations_eq hread]
      rfl
    · intro id
      unfold getConversation
      rw [findConversation_eq hread hB.counts.keys]
      rfl
  · refine ⟨_, fun p _ => hpage (p + 1) n, ?_⟩
    have hsize : (max 1 (min (n : Int) 100)).toNat = n := by omega
    have hnumber : ∀ p : ℕ, (max 1 ((p : Int) + 1)).toNat - 1 = p := by omega
    simp only [hsize, hnumber]
    rw [Paging.flatMap_numbered, List.take_of_length_le]
    rwa [List.length_map]

/-! ## A run with one entry -/

/-- The summary of the sample message. -/
def helloInfo : MsgInfo := (helloStamped 0).info "\x7b\"content\":\"hi\"\x7d"

def helloInfoText : String :=
  "\x7b\"serverMsgID\":\"6f1c0e2a-5b1d-4c8e-9a57-0d2b3c4e5f60\",\"clientMsgID\":\"c1\",\"sessionType\":1,\"sendID\":\"1\"," ++
    "\"recvID\":\"2\",\"LatestMsgRecvTime\":\"100\",\"contentType\":101,\"content\":\"\x7b\\\"content\\\":\\\"hi\\\"\x7d\"\x7d"

/-- The texts of the sample message, of its summary alone. -/
def infoCodec : Codec :=
  { helloCodec 0 with printInfo := fun i => if i = helloInfo then some helloInfoText else none }

def infoParser : InfoParser infoCodec where
  parseInfo s := if s = helloInfoText then some helloInfo else none
  parse_print := by
    intro i s hs
    change (if i = helloInfo then some helloInfoText else none) = some s at hs
    split_ifs at hs with hi
    cases hs
    rw [if_pos rfl, hi]
  parse_empty := if_neg (by decide +kernel)

def listedRun : SysTrace infoCodec :=
  sampleRun infoCodec (dispatchActions 0) (by decide +kernel)

/-- What the recipient sees of the sample message. -/
def helloItem : Conversation where
  ownerUserID := 2
  conversationID := "1_2"
  userID := 1
  isPinned := false
  recvMsgOpt := 0
  minSeq := 0
  maxSeq := 5
  readSeq := 0
  unreadCount := 1
  latestMsg := some helloInfo

theorem conversation_lists_listed : (listedRun.state 16).db.Lists infoCodec 2 [] [helloItem] ∧
    getSortedConversationList infoParser (listedRun.state 16).db ⟨2, [], 1, 10⟩ = .ok ⟨1, 1, [helloItem.elem]⟩ := by
  obtain ⟨items, hlists, hall, hpage, -⟩ :=
    conversation_lists infoCodec infoParser listedRun 16 (by decide) 2 [] (by decide) (by decide)
  have hitems : (getAllConversations infoParser (listedRun.state 16).db 2).toOption = some [helloItem] := by
    decide +kernel
  rw [(hall rfl).1] at hitems
  cases hitems
  exact ⟨hlists, hpage 1 10⟩

end ApeServer
