/-
  The stores outside MySQL: MongoDB's `msg` collection, Redis and Kafka
  (`src/storage/mongohandler.cpp`, `src/storage/redishandler.cpp`,
  `src/messagequeue/kafkaproducer.cpp`).

  A document holds the fields that `SaveMsgToMongo` writes; accounts are
  stored as `int64` (`asInt64`) and read back by `DecodeMessage`.  The
  collection has a unique index on `serverMsgID`, so `update_one` on that
  field changes the one document it identifies.  Redis maps string keys to
  values; a cached message is held under `msg:<serverMsgID>`.  Kafka is the
  log of the records the broker has.
-/
import ApeServer.Message
import ApeServer.Lib.Table

namespace ApeServer

open Table

/-! ## MongoDB -/

/-- `static_cast<int64_t>` of an account. -/
def asInt64 (a : Account) : Int := if a.toNat < 2 ^ 63 then a.toNat else a.toNat - 2 ^ 64

/-- An `int64` back as an account. -/
def ofInt64 (i : Int) : Account := UInt64.ofNat (i % 2 ^ 64).toNat

theorem ofInt64_asInt64 (a : Account) : ofInt64 (asInt64 a) = a := by
  have ha : a.toNat < 2 ^ 64 := a.toNat_lt
  have h : (asInt64 a % 2 ^ 64).toNat = a.toNat := by
    unfold asInt64; split_ifs <;> omega
  rw [ofInt64, h]; exact UInt64.ofNat_toNat

theorem asInt64_inj {a b : Account} (h : asInt64 a = asInt64 b) : a = b := by
  rw [← ofInt64_asInt64 a, h, ofInt64_asInt64]

/-- A document of the `msg` collection. -/
structure Doc where
  serverMsgID : String
  sendID : Int
  recvID : Int
  convID : String
  clientMsgID : String
  senderPlatformID : Int
  senderNickname : String
  senderFaceURL : String
  sessionType : Int
  msgFrom : Int
  contentType : Int
  content : Bytes
  seq : Int
  sendTime : Int
  status : Int
  isRead : Bool
  isDeleted : Bool
  isRecalled : Bool
  isPinned : Bool
  isGroupMsg : Bool
  ext : String
  committed : Bool
deriving DecidableEq, Repr

/-- The document `SaveMsgToMongo` builds. -/
def Doc.ofMsg (m : MsgData) (committed : Bool) : Doc where
  serverMsgID := m.serverMsgID
  sendID := asInt64 m.sendID
  recvID := asInt64 m.recvID
  convID := m.convID
  clientMsgID := m.clientMsgID
  senderPlatformID := m.senderPlatformID
  senderNickname := m.senderNickname
  senderFaceURL := m.senderFaceURL
  sessionType := m.sessionType
  msgFrom := m.msgFrom
  contentType := m.contentType
  content := m.content
  seq := m.seq
  sendTime := m.sendTime
  status := m.status
  isRead := m.isRead
  isDeleted := m.isDeleted
  isRecalled := m.isRecalled
  isPinned := m.isPinned
  isGroupMsg := m.isGroupMsg
  ext := m.ext
  committed := committed

/-- `MongoHandler::DecodeMessage`. -/
def decodeMessage (d : Doc) : MsgData where
  serverMsgID := d.serverMsgID
  convID := d.convID
  clientMsgID := d.clientMsgID
  senderNickname := d.senderNickname
  senderFaceURL := d.senderFaceURL
  content := d.content
  ext := d.ext
  sendID := ofInt64 d.sendID
  recvID := ofInt64 d.recvID
  seq := d.seq
  sendTime := d.sendTime
  senderPlatformID := d.senderPlatformID
  sessionType := d.sessionType
  msgFrom := d.msgFrom
  contentType := d.contentType
  status := d.status
  isRead := d.isRead
  isDeleted := d.isDeleted
  isRecalled := d.isRecalled
  isPinned := d.isPinned
  isGroupMsg := d.isGroupMsg

/-- `SaveMsgToMongo`: an upsert with `$setOnInsert`, so a document that is
    already there stays as it is. -/
def saveMsgToMongo (m : MsgData) (committed : Bool) (docs : List Doc) : List Doc :=
  insertNew (fun d => d.serverMsgID = m.serverMsgID) (Doc.ofMsg m committed) docs

/-- `PublishMessage`: set `committed`, and say whether a document matched. -/
def publishMessage (serverId : String) (docs : List Doc) : Bool × List Doc :=
  (docs.any fun d => d.serverMsgID = serverId,
    updateWhere (fun d => d.serverMsgID = serverId) (fun d => { d with committed := true }) docs)

/-- `MarkMsgsAsDelivered`: set `status` to 2 for the user's messages. -/
def markMsgsAsDelivered (user : Account) (ids : List String) (docs : List Doc) : List Doc :=
  ids.foldl (fun ds id => updateWhere
    (fun d => d.recvID = asInt64 user && d.serverMsgID = id) (fun d => { d with status := 2 }) ds) docs

/-- `GetMsgByServerMsgID`. -/
def getMsgByServerMsgID (serverId : String) (docs : List Doc) : Option MsgData :=
  (docs.find? fun d => d.serverMsgID = serverId).map decodeMessage

/-- The filter of `GetMsgsBySeqFromMongo`: an unacknowledged, published
    single-chat message for the user, above `after`. -/
def offlineCandidate (user : Account) (after : Int) (d : Doc) : Bool :=
  d.recvID = asInt64 user && after < d.seq && d.isGroupMsg ≠ true && d.sessionType = 1 &&
    d.committed ≠ false && d.status ≠ 2

/-- `GetMsgsBySeqFromMongo`. -/
def getMsgsBySeq (user : Account) (after limit : Int) (docs : List Doc) : List MsgData :=
  if limit ≤ 0 ∨ user = 0 then []
  else (((docs.filter (offlineCandidate user after)).insertionSort fun d d' => d.seq ≤ d'.seq).take
    limit.toNat).map decodeMessage

/-- The filter of `singleChatHistory`. -/
def cleanupFilter (conversation : String) (cutoff : Int) (d : Doc) : Bool :=
  d.convID = conversation && d.isGroupMsg = false && d.seq ≤ cutoff

/-- `GetSingleChatMessageIDsAsync`. -/
def getSingleChatMessageIDs (conversation : String) (cutoff : Int) (docs : List Doc) :
    List String :=
  (docs.filter (cleanupFilter conversation cutoff)).map (·.serverMsgID)

/-- `DeleteSingleChatHistoryAsync`. -/
def deleteSingleChatHistory (conversation : String) (cutoff : Int) (docs : List Doc) : List Doc :=
  deleteWhere (cleanupFilter conversation cutoff) docs

/-- The message `GetSingleChatHistoryAsync` builds from a document. -/
def historyMessage (conversation : String) (d : Doc) : MsgData where
  serverMsgID := d.serverMsgID
  clientMsgID := d.clientMsgID
  sendID := ofInt64 d.sendID
  recvID := ofInt64 d.recvID
  seq := d.seq
  sendTime := d.sendTime
  contentType := d.contentType
  content := d.content
  senderNickname := d.senderNickname
  convID := conversation
  sessionType := 1

/-- `GetSingleChatHistoryAsync`. -/
def getSingleChatHistory (conversation : String) (after : Int) (limit : ℕ) (docs : List Doc) :
    List MsgData :=
  (((docs.filter fun d => d.convID = conversation && d.isGroupMsg = false && d.committed ≠ false &&
      after < d.seq).insertionSort fun d d' => d.seq ≤ d'.seq).take limit).map
    (historyMessage conversation)

/-! ## Redis -/

/-- The value of a string key: a serialized message, or a text. -/
inductive RedisValue where
  | message (m : MsgData)
  | text (s : String)
deriving DecidableEq, Repr

/-- Redis: the string keys, and the members of `pending_ack:deadlines`. -/
structure Redis where
  strings : List (String × RedisValue) := []
  deadlines : List String := []
deriving DecidableEq, Repr

namespace Redis

/-- `DEL`. -/
def del (key : String) (r : Redis) : Redis :=
  { r with strings := deleteWhere (fun e => e.1 = key) r.strings }

/-- `SETEX`. -/
def setex (key : String) (v : RedisValue) (r : Redis) : Redis :=
  { r with strings := (r.del key).strings ++ [(key, v)] }

/-- `GET`. -/
def get (key : String) (r : Redis) : Option RedisValue :=
  (r.strings.find? fun e => e.1 = key).map (·.2)

/-- `ZREM pending_ack:deadlines`. -/
def zrem (member : String) (r : Redis) : Redis :=
  { r with deadlines := deleteWhere (fun e => e = member) r.deadlines }

/-- The key of a cached message. -/
def msgKey (id : String) : String := "msg:" ++ id

/-- `RedisHandler::SaveMsg`. -/
def saveMsg (m : MsgData) (r : Redis) : Redis := r.setex (msgKey m.serverMsgID) (.message m)

/-- `RedisHandler::GetMsg`. -/
def getMsg (id : String) (r : Redis) : Option MsgData :=
  match r.get (msgKey id) with
  | some (.message m) => some m
  | _ => none

/-- The commands of `CleanupAcknowledgedMessage`, in order. -/
def cleanupCommands (owner : Account) (id : String) : List (Redis → Redis) :=
  [del (msgKey id), del ("msg_conv:" ++ id), del ("msg:consumed:" ++ id),
    del ("pending_ack:online:" ++ id), del ("pending_ack:offline:" ++ accountText owner ++ ":" ++ id),
    zrem id]

/-- The commands of `DeleteSingleChatHistory`, in order: the ids are sorted
    and each is cleaned up for both users. -/
def deleteHistoryCommands (first second : Account) (ids : List String) : List (Redis → Redis) :=
  ((ids.insertionSort (· ≤ ·)).dedup).flatMap fun id =>
    cleanupCommands first id ++ cleanupCommands second id

end Redis

/-! ## Kafka -/

/-- A record: its key (the conversation) and its payload. -/
structure KafkaRecord where
  key : String
  payload : String
deriving DecidableEq, Repr

/-- The stores outside MySQL.  `dispatched` is a ghost: the messages whose
    dispatch was begun, in order. -/
structure Stores where
  mongo : List Doc := []
  redis : Redis := {}
  kafka : List KafkaRecord := []
  dispatched : List MsgData := []
deriving DecidableEq, Repr

end ApeServer
