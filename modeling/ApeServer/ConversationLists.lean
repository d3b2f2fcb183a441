/-
  The lists of conversations: `ListConversations`, `FindConversation` and
  `SortedConversations`, and the calls of the conversation service that answer
  with them.

  * `conversationRow` is the view of an entry; the JSON library reads the stored
    summary (`InfoParser`);
  * `listed` selects and `ranked` orders the entries: pinned ones first, then
    the latest;
  * `listConversations_eq`, `findConversation_eq`, `sortedConversations_eq`: on
    entries that can be read, all three answer with parts of one list.
-/
import ApeServer.Lib.Paging
import ApeServer.RecordOrder
import Mathlib.Data.Prod.Lex
import Mathlib.Data.String.Basic

namespace ApeServer

open Table OrderDual

/-! ## Entries as the client sees them -/

/-- `JsonStringToMessage` on summaries: what is printed is read back, and the
    empty text is no message. -/
structure InfoParser (J : Codec) where
  parseInfo : String → Option MsgInfo
  parse_print : ∀ i s, J.printInfo i = some s → parseInfo s = some i
  parse_empty : parseInfo "" = none

/-- `conversation.Conversation`, the fields that are set. -/
structure Conversation where
  ownerUserID : Account
  conversationID : String
  conversationType : Int := 1
  userID : Account
  isPinned : Bool
  recvMsgOpt : ℕ
  minSeq : ℕ
  maxSeq : ℕ
  readSeq : ℕ
  unreadCount : ℕ
  latestMsg : Option MsgInfo
deriving DecidableEq, Repr

/-- `conversation.ConversationElem`. -/
structure ConversationElem where
  conversationID : String
  recvMsgOpt : ℕ
  unreadCount : ℕ
  isPinned : Bool
  msgInfo : Option MsgInfo
deriving DecidableEq, Repr

/-- `conversationNumber`: `unsigned_field` of a signed column. -/
def conversationNumber (value : Int) : Except Thrown ℕ :=
  if value < 0 then
    .error (.runtimeError
      "Invalid MySQL field conversation integer: expected a nonnegative integer, kind=1")
  else .ok value.toNat

section
variable {J : Codec} (P : InfoParser J)

/-- `conversationRow`; the unsigned columns can be read. -/
def conversationRow (r : ConversationRow) : Except Thrown Conversation := do
  let recvMsgOpt ← conversationNumber r.recvMsgOpt
  let minSeq ← conversationNumber r.minSeq
  let maxSeq ← conversationNumber r.maxSeq
  let readSeq ← conversationNumber r.readSeq
  let latestMsg := P.parseInfo r.latestMessage
  if r.latestMessage ≠ "" ∧ latestMsg = none then
    .error (.runtimeError "Invalid stored conversation summary")
  else .ok {
    ownerUserID := r.owner, conversationID := r.conversation, userID := r.peer, isPinned := r.isPinned,
    recvMsgOpt, minSeq, maxSeq, readSeq, unreadCount := r.unreadCount, latestMsg }

def Conversation.elem (item : Conversation) : ConversationElem where
  conversationID := item.conversationID
  recvMsgOpt := item.recvMsgOpt
  unreadCount := item.unreadCount
  isPinned := item.isPinned
  msgInfo := item.latestMsg

/-! ## Lists -/

/-- `WHERE owner_account=… AND is_hidden=0`, and `conversation_id IN (…)` if
    there are ids. -/
def Db.listed (db : Db) (owner : Account) (ids : List String) : List ConversationRow :=
  db.conversations.filter fun r =>
    r.owner = owner && r.isHidden = false && (ids.isEmpty || ids.contains r.conversation)

/-- `is_pinned DESC,latest_time DESC,conversation_id DESC` -/
def ConversationRow.rank (r : ConversationRow) : Boolᵒᵈ ×ₗ Intᵒᵈ ×ₗ Stringᵒᵈ :=
  toLex (toDual r.isPinned, toLex (toDual r.latestTime, toDual r.conversation))

def ranked (rows : List ConversationRow) : List ConversationRow :=
  rows.insertionSort fun r r' => r.rank ≤ r'.rank

def Db.listConversations (db : Db) (owner : Account) : Except Thrown (List Conversation) :=
  (ranked (db.listed owner [])).mapM (conversationRow P)

def Db.findConversation (db : Db) (owner : Account) (id : String) : Except Thrown (Option Conversation) :=
  match db.conversations.find? fun r => r.owner = owner && r.conversation = id && r.isHidden = false with
  | none => .ok none
  | some r => (conversationRow P r).map some

/-- `conversation.GetSortedConversationListReq` -/
structure SortedQuery where
  userID : Account
  conversationIDs : List String := []
  pageNumber : Int := 0
  showNumber : Int := 0
deriving DecidableEq, Repr

/-- `conversation.GetSortedConversationListResp` -/
structure SortedPage where
  conversationTotal : ℕ
  unreadTotal : ℕ
  conversationElems : List ConversationElem
deriving DecidableEq, Repr

def SortedQuery.page (q : SortedQuery) : ℕ := (max 1 q.pageNumber).toNat

def SortedQuery.size (q : SortedQuery) : ℕ := (max 1 (min q.showNumber 100)).toNat

/-- The count and the page are read in one snapshot. -/
def Db.sortedConversations (db : Db) (q : SortedQuery) : Except Thrown SortedPage :=
  if q.userID = 0 ∨ 1000 < q.conversationIDs.length then
    .error (.invalidArgument "Invalid conversation list request")
  else do
    let rows := db.listed q.userID q.conversationIDs
    let items ← (((ranked rows).drop ((q.page - 1) * q.size)).take q.size).mapM (conversationRow P)
    .ok ⟨rows.length, (rows.map (·.unreadCount)).sum, items.map (·.elem)⟩

/-! ## The service -/

/-- A gRPC status that is not `OK`, with its text. -/
inductive ListStatus where
  | invalidArgument (what : String)
  | notFound (what : String)
  | internal (what : String)
deriving DecidableEq, Repr

def unlessThrown {α : Type} (what : String) : Except Thrown α → Except ListStatus α
  | .ok a => .ok a
  | .error _ => .error (.internal what)

def getAllConversations (db : Db) (owner : Account) : Except ListStatus (List Conversation) :=
  if owner = 0 then .error (.invalidArgument "Missing owner")
  else unlessThrown "Conversation list unavailable" (db.listConversations P owner)

def getConversation (db : Db) (owner : Account) (id : String) : Except ListStatus Conversation := do
  match ← unlessThrown "Conversation unavailable" (db.findConversation P owner id) with
  | none => .error (.notFound "Conversation not found")
  | some item => .ok item

def getSortedConversationList (db : Db) (q : SortedQuery) : Except ListStatus SortedPage :=
  unlessThrown "Conversation list unavailable" (db.sortedConversations P q)

/-! ## What the lists hold -/

/-- An entry as the client sees it. -/
def ConversationRow.shown (r : ConversationRow) : Conversation where
  ownerUserID := r.owner
  conversationID := r.conversation
  userID := r.peer
  isPinned := r.isPinned
  recvMsgOpt := r.recvMsgOpt.toNat
  minSeq := r.minSeq.toNat
  maxSeq := r.maxSeq.toNat
  readSeq := r.readSeq.toNat
  unreadCount := r.unreadCount
  latestMsg := P.parseInfo r.latestMessage

/-- The list that all calls answer with parts of. -/
def Db.items (db : Db) (owner : Account) (ids : List String) : List Conversation :=
  (ranked (db.listed owner ids)).map (·.shown P)

/-- No column is negative, and the summary is one. -/
structure ConversationRow.Readable (r : ConversationRow) : Prop where
  recvMsgOpt : 0 ≤ r.recvMsgOpt
  minSeq : 0 ≤ r.minSeq
  maxSeq : 0 ≤ r.maxSeq
  readSeq : 0 ≤ r.readSeq
  latestMessage : ∃ i, P.parseInfo r.latestMessage = some i

variable {P}

theorem conversationNumber_of_nonneg {value : Int} (h : 0 ≤ value) : conversationNumber value = .ok value.toNat :=
  if_neg (not_lt.2 h)

theorem conversationRow_eq {r : ConversationRow} (h : r.Readable P) : conversationRow P r = .ok (r.shown P) := by
  obtain ⟨i, hi⟩ := h.latestMessage
  unfold conversationRow ConversationRow.shown
  rw [conversationNumber_of_nonneg h.recvMsgOpt, conversationNumber_of_nonneg h.minSeq,
    conversationNumber_of_nonneg h.maxSeq, conversationNumber_of_nonneg h.readSeq, hi]
  simp only [bind, Except.bind]
  rw [if_neg]
  simp

theorem mapM_conversationRow {rows : List ConversationRow} (h : ∀ r ∈ rows, r.Readable P) :
    rows.mapM (conversationRow P) = .ok (rows.map (·.shown P)) := by
  induction rows with
  | nil => rfl
  | cons r rows ih =>
    obtain ⟨hr, hrows⟩ := List.forall_mem_cons.1 h
    rw [List.mapM_cons, conversationRow_eq hr, ih hrows]
    rfl

section
variable {db : Db} {owner : Account} {ids : List String} {r : ConversationRow}

theorem mem_listed : r ∈ db.listed owner ids ↔
    r ∈ db.conversations ∧ r.owner = owner ∧ r.isHidden = false ∧ (ids = [] ∨ r.conversation ∈ ids) := by
  simp [Db.listed, and_assoc]

theorem mem_ranked {rows : List ConversationRow} : r ∈ ranked rows ↔ r ∈ rows := List.mem_insertionSort _

theorem mem_items {item : Conversation} : item ∈ db.items P owner ids ↔
    ∃ r ∈ db.conversations, r.owner = owner ∧ r.isHidden = false ∧ (ids = [] ∨ r.conversation ∈ ids) ∧
      r.shown P = item := by
  simp only [Db.items, List.mem_map, mem_ranked, mem_listed, and_assoc]

theorem readable_ranked (h : ∀ r ∈ db.conversations, r.Readable P) :
    ∀ r ∈ ranked (db.listed owner ids), r.Readable P :=
  fun r hr => h r (mem_listed.1 (mem_ranked.1 hr)).1

theorem rank_lt {r r' : ConversationRow} : r.rank < r'.rank ↔
    (r.isPinned = true ∧ r'.isPinned = false) ∨ r.isPinned = r'.isPinned ∧
      (r'.latestTime < r.latestTime ∨ r.latestTime = r'.latestTime ∧ r'.conversation < r.conversation) := by
  have hpin : toDual r.isPinned < toDual r'.isPinned ↔ r.isPinned = true ∧ r'.isPinned = false := by
    cases r.isPinned <;> cases r'.isPinned <;> decide
  simp only [ConversationRow.rank, Prod.Lex.toLex_lt_toLex, hpin, toDual_lt_toDual, toDual_inj]

/-- The entries of one owner are ordered. -/
theorem ranked_pairwise (hkeys : db.EntryKeys) :
    (ranked (db.listed owner ids)).Pairwise fun r r' => r.rank < r'.rank := by
  refine Paging.ascending_insertionSort (List.Nodup.of_map (fun x => ofDual (ofLex (ofLex x).2).2) ?_)
  rw [List.map_map]
  refine List.Nodup.map_on (fun r hr r' hr' he => ?_) (List.Nodup.filter _ (List.Nodup.of_map _ hkeys))
  obtain ⟨hr, ho, -⟩ := mem_listed.1 hr
  obtain ⟨hr', ho', -⟩ := mem_listed.1 hr'
  exact eq_of_key hkeys hr hr' (Prod.ext (ho.trans ho'.symm) he)

theorem listConversations_eq (h : ∀ r ∈ db.conversations, r.Readable P) :
    db.listConversations P owner = .ok (db.items P owner []) :=
  mapM_conversationRow (readable_ranked h)

theorem sortedConversations_eq {q : SortedQuery} (h : ∀ r ∈ db.conversations, r.Readable P)
    (hu : q.userID ≠ 0) (hids : q.conversationIDs.length ≤ 1000) :
    db.sortedConversations P q = .ok ⟨(db.items P q.userID q.conversationIDs).length,
      ((db.items P q.userID q.conversationIDs).map (·.unreadCount)).sum,
      (((db.items P q.userID q.conversationIDs).map (·.elem)).drop ((q.page - 1) * q.size)).take q.size⟩ := by
  have hperm : (ranked (db.listed q.userID q.conversationIDs)).Perm (db.listed q.userID q.conversationIDs) :=
    List.perm_insertionSort _ _
  have hpage : ∀ r ∈ ((ranked (db.listed q.userID q.conversationIDs)).drop ((q.page - 1) * q.size)).take q.size,
      r.Readable P :=
    fun r hr => readable_ranked h r (List.mem_of_mem_drop (List.mem_of_mem_take hr))
  have hsum : ((db.items P q.userID q.conversationIDs).map (·.unreadCount)).sum =
      ((db.listed q.userID q.conversationIDs).map (·.unreadCount)).sum := by
    rw [← (hperm.map (·.unreadCount)).sum_eq, Db.items, List.map_map]
    rfl
  unfold Db.sortedConversations
  dsimp only
  rw [if_neg (not_or.2 ⟨hu, not_lt.2 hids⟩), mapM_conversationRow hpage, hsum, Db.items, List.length_map,
    hperm.length_eq, ← List.map_drop, ← List.map_take, ← List.map_drop, ← List.map_take]
  rfl

/-- `FindConversation` finds what is listed. -/
theorem findConversation_eq (h : ∀ r ∈ db.conversations, r.Readable P) (hkeys : db.EntryKeys) (id : String) :
    db.findConversation P owner id =
      .ok ((db.items P owner []).find? fun item => item.conversationID = id) := by
  unfold Db.findConversation
  split
  · next hnone =>
    refine congrArg _ (Eq.symm (List.find?_eq_none.2 fun item hitem => ?_))
    obtain ⟨r, hr, ho, hh, -, rfl⟩ := mem_items.1 hitem
    have := List.find?_eq_none.1 hnone r hr
    simpa [ConversationRow.shown, ho, hh] using this
  · next r hsome =>
    have hmem := List.mem_of_find?_eq_some hsome
    have hkey := List.find?_some hsome
    simp only [Bool.and_eq_true, decide_eq_true_eq] at hkey
    obtain ⟨⟨ho, hid⟩, hh⟩ := hkey
    have hlisted : r.shown P ∈ db.items P owner [] := mem_items.2 ⟨r, hmem, ho, hh, Or.inl rfl, rfl⟩
    rw [conversationRow_eq (h r hmem)]
    refine congrArg Except.ok (Eq.symm ?_)
    obtain ⟨item, hitem⟩ : ∃ item, (db.items P owner []).find? (fun item => item.conversationID = id) = some item :=
      Option.isSome_iff_exists.1 (List.find?_isSome.2 ⟨_, hlisted, decide_eq_true hid⟩)
    rw [hitem]
    -- the key of an entry is unique
    obtain ⟨r', hr', ho', -, -, rfl⟩ := mem_items.1 (List.mem_of_find?_eq_some hitem)
    have hid' := List.find?_some hitem
    have hid' : r'.conversation = id := of_decide_eq_true hid'
    rw [eq_of_key hkeys hr' hmem (Prod.ext (ho'.trans ho.symm) (hid'.trans hid.symm))]

end

end

end ApeServer
