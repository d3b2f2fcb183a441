/-
  The paths that show messages to users: `WithFriendMessage`,
  `FilterVisibleMessages`, `FriendDeletionSeq` and `MessageDispatchDone` of
  `src/storage/mysqlhandler.cpp`, `GetSingleChatHistory` of
  `src/services/msg_service/server.cpp`, and the payload parsing of
  `PushHandler::handle`.
-/
import ApeServer.Outbox
import Mathlib.Data.List.TakeWhile

namespace ApeServer

open Table

/-- An `int64` converted to `uint64`. -/
def asUint64 (i : Int) : ℕ := (i % 2 ^ 64).toNat

namespace Db

/-- The outbox row of a message, by its server id. -/
def outboxByServerId? (db : Db) (serverId : String) : Option OutboxRow :=
  db.outbox.find? fun r => r.operation = 1 && r.serverId = serverId

/-- The decision of `WithFriendMessage`, under the pair lock.  The watermark
    is compared as `uint64`. -/
def friendMessageAllowed (db : Db) (m : MsgData) (requireUndelivered : Bool) : Bool :=
  m.sendID ≠ m.recvID && db.friendCount m.sendID m.recvID = 2 &&
    (match db.deletedSeq? m.sendID m.recvID with
     | none => true
     | some d => d < asUint64 m.seq) &&
    (m.serverMsgID = "" ||
      ((match db.outboxByServerId? m.serverMsgID with
        | none => true
        | some r => 1 ≤ r.stage && r.state ≠ 3) &&
       (!requireUndelivered || !db.hasReceipt m.recvID m.serverMsgID)))

/-- The `WHERE` and `JOIN` conditions of `FilterVisibleMessages` for one
    message. -/
def visible (db : Db) (m : MsgData) : Bool :=
  (db.friends.any fun r => r.owner = m.sendID && r.friend = m.recvID) &&
    (db.friends.any fun r => r.owner = m.recvID && r.friend = m.sendID) &&
    (match db.deletedSeq? m.sendID m.recvID with
     | none => true
     | some d => (d : Int) < m.seq) &&
    ((db.outbox.filter fun r => r.operation = 1 && r.serverId = m.serverMsgID).isEmpty ||
      db.outbox.any fun r => r.operation = 1 && r.serverId = m.serverMsgID && r.stage = 1 &&
        r.state ≠ 3)

/-- `FilterVisibleMessages`: keep the messages whose id the query returned. -/
def filterVisibleMessages (db : Db) (ms : List MsgData) : List MsgData :=
  ms.filter fun m => m.serverMsgID ∈ (ms.filter db.visible).map (·.serverMsgID)

/-- `FriendDeletionSeq`. -/
def friendDeletionSeq (db : Db) (owner peer : Account) : Int := ((db.deletedSeq? owner peer).getD 0 : ℕ)

/-- `MessageDispatchDone`. -/
def messageDispatchDone (db : Db) (owner : Account) (serverId : String) : Bool :=
  (db.outbox.any fun r => r.operation = 1 && r.serverId = serverId && (r.state = 3 || r.dispatchDone)) ||
    db.hasReceipt owner serverId

end Db

/-! ## History -/

structure HistoryQuery where
  owner : Account
  peer : Account
  afterSeq : Int
  limit : Int
deriving DecidableEq, Repr

structure HistoryPage where
  messages : List MsgData
  hasMore : Bool
  nextSeq : Int
deriving DecidableEq, Repr

inductive HistoryReply where
  | invalidArgument
  | permissionDenied
  | page (p : HistoryPage)
deriving DecidableEq, Repr

/-- The message `GetSingleChatHistory` asks `WithFriendMessage` about. -/
def historyCandidate (q : HistoryQuery) : MsgData :=
  { sendID := q.owner, recvID := q.peer, seq := 2 ^ 63 - 1 }

/-- `std::clamp(limit, 1, 100)`. -/
def historyLimit (q : HistoryQuery) : ℕ := (max 1 (min q.limit 100)).toNat

/-- The action of `GetSingleChatHistory`. -/
def historyPage (db : Db) (docs : List Doc) (q : HistoryQuery) : HistoryPage :=
  let found := db.filterVisibleMessages (getSingleChatHistory (conversationId q.owner q.peer)
    (max q.afterSeq (db.friendDeletionSeq q.owner q.peer)) (historyLimit q + 1) docs)
  let messages := (found.take (historyLimit q)).filter fun m =>
    (m.sendID = q.owner || m.sendID = q.peer) && (m.recvID = q.owner || m.recvID = q.peer)
  { messages := messages
    hasMore := historyLimit q < found.length
    nextSeq := (messages.getLast?.map (·.seq)).getD 0 }

/-- `GetSingleChatHistory`. -/
def getSingleChatHistoryRpc (db : Db) (docs : List Doc) (q : HistoryQuery) : HistoryReply :=
  if q.owner = 0 ∨ q.peer = 0 ∨ q.owner = q.peer ∨ q.afterSeq < 0 then .invalidArgument
  else if db.friendMessageAllowed (historyCandidate q) false then .page (historyPage db docs q)
  else .permissionDenied

theorem getSingleChatHistoryRpc_page {db : Db} {docs : List Doc} {q : HistoryQuery} {p : HistoryPage}
    (h : getSingleChatHistoryRpc db docs q = .page p) : p = historyPage db docs q := by
  unfold getSingleChatHistoryRpc at h
  split_ifs at h
  cases h; rfl

/-! ## Kafka payloads -/

/-- The id in a Kafka payload: what follows the first `|`, or all of it. -/
def payloadServerId (payload : String) : String :=
  match payload.toList.dropWhile (· ≠ '|') with
  | [] => payload
  | _ :: rest => String.ofList rest

/-- `uuid::newone_str`: hexadecimal digits and dashes. -/
def IsUuid (s : String) : Prop :=
  s ≠ "" ∧ (s.toList.all fun c => c.isDigit || "abcdef-".toList.contains c) = true

instance (s : String) : Decidable (IsUuid s) := inferInstanceAs (Decidable (_ ∧ _))

theorem IsUuid.notMem {s : String} (h : IsUuid s) {c : Char} (hd : c.isDigit = false)
    (hc : "abcdef-".toList.contains c = false) : c ∉ s.toList := by
  intro hm
  have := List.all_eq_true.1 h.2 c hm
  rw [hd, hc] at this
  cases this

theorem payloadServerId_uuid {s : String} (h : IsUuid s) : payloadServerId s = s := by
  have hn := h.notMem (c := '|') (by decide) (by decide)
  have : s.toList.dropWhile (· ≠ '|') = [] := by
    rw [List.dropWhile_eq_nil_iff]
    intro c hc
    have : c ≠ '|' := fun e => hn (e ▸ hc)
    simpa using this
  unfold payloadServerId
  rw [this]

end ApeServer
