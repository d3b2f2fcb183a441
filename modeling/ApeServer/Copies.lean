/-
  The two copies of a message (`PushHandler::handle` of
  `src/services/push_service/push_msg_handler.cpp`, with `RedisHandler::GetMsg`
  and `MongoHandler::DecodeMessage`).

  The cache holds the whole message; a document holds the fields that
  `SaveMsgToMongo` lists, and `DecodeMessage` throws where `sendTime`, a
  double, is no `int64` that is at least zero.  `copies_agree` says for which
  messages the reader cannot tell the copies apart: those with nothing in the
  other fields (`Storable`).
-/
import ApeServer.Outbox

namespace ApeServer

open Table

/-- `DecodeMessage` with the check of its numbers. -/
def decodeDocument (d : Doc) : Except Thrown MsgData :=
  if 0 ≤ d.sendTime ∧ d.sendTime < 2 ^ 63 then .ok (decodeMessage d)
  else .error (.runtimeError "Invalid numeric message metadata")

/-- `GetMsgByServerMsgIDAsync`, with the exceptions of `DecodeMessage`. -/
def readMsgByServerMsgID (serverId : String) (docs : List Doc) : Except Thrown (Option MsgData) :=
  match docs.find? fun d => d.serverMsgID = serverId with
  | none => .ok none
  | some d => (decodeDocument d).map some

/-- `GetMsgsBySeqFromMongo`, with the exceptions of `DecodeMessage`. -/
def readMsgsBySeq (user : Account) (after limit : Int) (docs : List Doc) : Except Thrown (List MsgData) :=
  if limit ≤ 0 ∨ user = 0 then .ok []
  else (((docs.filter (offlineCandidate user after)).insertionSort fun d d' => d.seq ≤ d'.seq).take
    limit.toNat).mapM decodeDocument

/-- The message that `PushHandler::handle` gets: the cache first, then the
    database. -/
def handledMessage (serverId : String) (r : Redis) (docs : List Doc) : Except Thrown (Option MsgData) :=
  match r.getMsg serverId with
  | some m => .ok (some m)
  | none => readMsgByServerMsgID serverId docs

/-- The collection once the message is saved and published. -/
def publishedBody (m : MsgData) (docs : List Doc) : List Doc :=
  (publishMessage m.serverMsgID (saveMsgToMongo m false docs)).2

/-- Every document with the id of `m` was saved from `m`. -/
def OwnBody (m : MsgData) (docs : List Doc) : Prop :=
  ∀ d ∈ docs, d.serverMsgID = m.serverMsgID → ∃ committed, d = Doc.ofMsg m committed

/-- The fields that `SaveMsgToMongo` leaves out are unset, and `sendTime` is
    one that `DecodeMessage` reads back. -/
structure Storable (m : MsgData) : Prop where
  options : m.options = []
  offlinePushInfo : m.offlinePushInfo = none
  atUserIDList : m.atUserIDList = []
  attachedInfo : m.attachedInfo = ""
  syncExt : m.syncExt = ""
  dStatus : m.dStatus = 0
  sendTime : 0 ≤ m.sendTime ∧ m.sendTime < 2 ^ 63

/-- The copies of the payload of `task` are one message: the cached one, the
    one read after a cache miss, and the one offered at login. -/
def SameCopies (J : Codec) (task : OutboxTask) (r : Redis) (docs : List Doc) : Prop :=
  ∃ m, outboxMessage J task = .ok m ∧
    handledMessage task.serverId (r.saveMsg m) (publishedBody m docs) = .ok (some m) ∧
    handledMessage task.serverId (r.del (Redis.msgKey task.serverId)) (publishedBody m docs) = .ok (some m) ∧
    ∀ after limit ms, readMsgsBySeq m.recvID after limit (publishedBody m docs) = .ok ms →
      ∀ m' ∈ ms, m'.serverMsgID = task.serverId → m' = m

/-! ## The cache -/

theorem getMsg_saveMsg (r : Redis) (m : MsgData) : (r.saveMsg m).getMsg m.serverMsgID = some m := by
  simp only [Redis.saveMsg, Redis.setex, Redis.getMsg, Redis.get, Redis.del, List.find?_append, find?_deleteWhere,
    Option.none_or, List.find?_singleton, decide_true, ↓reduceIte, Option.map_some]

theorem getMsg_del (r : Redis) (id : String) : (r.del (Redis.msgKey id)).getMsg id = none := by
  simp only [Redis.getMsg, Redis.get, Redis.del, find?_deleteWhere, Option.map_none]

/-! ## The document -/

/-- What a document of `m` reads back as. -/
theorem decodeMessage_ofMsg (m : MsgData) (committed : Bool) :
    decodeMessage (Doc.ofMsg m committed) =
      { m with options := [], offlinePushInfo := none, atUserIDList := [], attachedInfo := "",
               syncExt := "", dStatus := 0 } := by
  simp [decodeMessage, Doc.ofMsg, ofInt64_asInt64]

theorem decodeDocument_ofMsg {m : MsgData} {committed : Bool} :
    decodeDocument (Doc.ofMsg m committed) = .ok m ↔ Storable m := by
  unfold decodeDocument
  split_ifs with h
  · rw [decodeMessage_ofMsg]
    constructor
    · intro he
      have he := Except.ok.inj he
      refine ⟨?_, ?_, ?_, ?_, ?_, ?_, h⟩ <;> rw [← he]
    · rintro ⟨ho, hp, ha, hi, hs, hd, -⟩
      cases m
      simp only at ho hp ha hi hs hd
      subst ho hp ha hi hs hd
      rfl
  · constructor
    · intro he
      cases he
    · intro hs
      exact absurd hs.sendTime h

theorem OwnBody.published {m : MsgData} {docs : List Doc} (h : OwnBody m docs) :
    OwnBody m (publishedBody m docs) := by
  intro d hd hid
  obtain ⟨d₀, hd₀, rfl⟩ := List.mem_map.1 hd
  have hcommit : ∀ c, { Doc.ofMsg m c with committed := true } = Doc.ofMsg m true := fun _ => rfl
  have hid₀ : d₀.serverMsgID = m.serverMsgID := by
    revert hid
    split_ifs <;> exact id
  obtain ⟨c, rfl⟩ : ∃ c, d₀ = Doc.ofMsg m c := by
    rcases mem_insertNew.1 hd₀ with hd₀ | ⟨rfl, -⟩
    · exact h d₀ hd₀ hid₀
    · exact ⟨false, rfl⟩
  split_ifs
  · exact ⟨true, hcommit c⟩
  · exact ⟨c, rfl⟩

/-- The message has a document once it is saved. -/
theorem find_publishedBody {m : MsgData} {docs : List Doc} (h : OwnBody m docs) :
    ∃ committed, (publishedBody m docs).find? (fun d => d.serverMsgID = m.serverMsgID) =
      some (Doc.ofMsg m committed) := by
  cases hf : (publishedBody m docs).find? fun d => d.serverMsgID = m.serverMsgID with
  | none =>
    obtain ⟨d, hd, hid⟩ := exists_insertNew (p := fun d : Doc => d.serverMsgID = m.serverMsgID)
      (r := Doc.ofMsg m false) (by simp [Doc.ofMsg]) docs
    have hpub : { d with committed := true } ∈ publishedBody m docs :=
      List.mem_map.2 ⟨d, hd, by rw [if_pos hid]⟩
    have hno := List.find?_eq_none.1 hf _ hpub
    exact absurd (by simpa using hid) hno
  | some d =>
    obtain ⟨c, rfl⟩ := h.published d (List.mem_of_find?_eq_some hf) (by simpa using List.find?_some hf)
    exact ⟨c, rfl⟩

theorem mem_of_mapM_ok {α β ε : Type} {f : α → Except ε β} {xs : List α} {ys : List β}
    (h : xs.mapM f = .ok ys) {y : β} (hy : y ∈ ys) : ∃ x ∈ xs, f x = .ok y := by
  induction xs generalizing ys with
  | nil =>
    obtain rfl : [] = ys := Except.ok.inj h
    exact absurd hy (by simp)
  | cons x xs ih =>
    rw [List.mapM_cons] at h
    cases hx : f x with
    | error e =>
      rw [hx] at h
      cases h
    | ok z =>
      rw [hx] at h
      cases hxs : xs.mapM f with
      | error e =>
        rw [hxs] at h
        cases h
      | ok zs =>
        rw [hxs] at h
        obtain rfl : z :: zs = ys := Except.ok.inj h
        rcases List.mem_cons.1 hy with rfl | hy
        · exact ⟨x, List.mem_cons_self, hx⟩
        · obtain ⟨x', hx', hf⟩ := ih hxs hy
          exact ⟨x', List.mem_cons_of_mem _ hx', hf⟩

/-- The messages offered at login are read from documents. -/
theorem mem_readMsgsBySeq {user : Account} {after limit : Int} {docs : List Doc} {ms : List MsgData}
    (h : readMsgsBySeq user after limit docs = .ok ms) {m : MsgData} (hm : m ∈ ms) :
    ∃ d ∈ docs, decodeDocument d = .ok m := by
  unfold readMsgsBySeq at h
  split_ifs at h
  · obtain rfl := Except.ok.inj h
    exact absurd hm (by simp)
  · obtain ⟨d, hd, he⟩ := mem_of_mapM_ok h hm
    have hd := List.mem_of_mem_take hd
    rw [List.mem_insertionSort] at hd
    exact ⟨d, List.mem_of_mem_filter hd, he⟩

theorem serverMsgID_of_decode {d : Doc} {m : MsgData} (h : decodeDocument d = .ok m) :
    m.serverMsgID = d.serverMsgID := by
  unfold decodeDocument at h
  split_ifs at h
  rw [← Except.ok.inj h]
  rfl

/-! ## What the reader gets -/

/-- What `QueueSingleMessage` accepts comes back out of the outbox. -/
theorem outboxMessage_queued {J : Codec} {db db' : Db} {m : MsgData} {task : OutboxTask}
    (h : db.queueInsert J m = .ok (task, db')) :
    outboxMessage J task = .ok m ∧ task.serverId = m.serverMsgID := by
  unfold Db.queueInsert at h
  split at h
  · cases h
  · next payload hp =>
    split_ifs at h
    obtain ⟨rfl, -⟩ := Prod.mk.inj (Except.ok.inj h)
    simp only [outboxMessage, J.parse_print m payload hp, and_self]

/-- **Two copies of a message**: the reader gets the same message from the
    cache, from the database and at login, exactly if nothing is set in the
    fields that the document leaves out and `sendTime` can be read back. -/
theorem copies_agree {J : Codec} {db db' : Db} {m : MsgData} {task : OutboxTask}
    (hq : db.queueInsert J m = .ok (task, db')) (r : Redis) (docs : List Doc) (hd : OwnBody m docs) :
    SameCopies J task r docs ↔ Storable m := by
  obtain ⟨hout, hid⟩ := outboxMessage_queued hq
  obtain ⟨c, hfind⟩ := find_publishedBody hd
  have hmiss : handledMessage task.serverId (r.del (Redis.msgKey task.serverId)) (publishedBody m docs) =
      (decodeDocument (Doc.ofMsg m c)).map some := by
    simp only [handledMessage, getMsg_del, readMsgByServerMsgID, hid, hfind]
  constructor
  · rintro ⟨m₀, hm₀, -, hdb, -⟩
    obtain rfl : m = m₀ := Except.ok.inj (hout.symm.trans hm₀)
    rw [hmiss] at hdb
    cases hdec : decodeDocument (Doc.ofMsg m c) with
    | error e =>
      rw [hdec] at hdb
      cases hdb
    | ok m' =>
      rw [hdec] at hdb
      obtain rfl : m' = m := Option.some.inj (Except.ok.inj hdb)
      exact decodeDocument_ofMsg.1 hdec
  · intro hs
    have hdec : ∀ c, decodeDocument (Doc.ofMsg m c) = .ok m := fun _ => decodeDocument_ofMsg.2 hs
    refine ⟨m, hout, ?_, ?_, fun after limit ms hms m' hm' hid' => ?_⟩
    · rw [hid]
      simp only [handledMessage, getMsg_saveMsg]
    · rw [hmiss, hdec]
      rfl
    · obtain ⟨d, hmem, he⟩ := mem_readMsgsBySeq hms hm'
      have hdid : d.serverMsgID = m.serverMsgID := by
        rw [← serverMsgID_of_decode he, hid', hid]
      obtain ⟨c', rfl⟩ := hd.published d hmem hdid
      exact Except.ok.inj (he.symm.trans (hdec c'))

/-! ## A plain text, and one that mentions its reader -/

def plainText : MsgData where
  sendID := 1
  recvID := 2
  convID := "1_2"
  clientMsgID := "c1"
  serverMsgID := "6f1c0e2a"
  sessionType := 1
  msgFrom := 100
  contentType := 101
  content := [104, 105]
  seq := 5
  sendTime := 100

def mention : MsgData := { plainText with atUserIDList := [2] }

def plainPayload : String :=
  "\x7b\"sendID\":\"1\",\"recvID\":\"2\",\"convID\":\"1_2\",\"clientMsgID\":\"c1\"," ++
    "\"serverMsgID\":\"6f1c0e2a\",\"sessionType\":1,\"msgFrom\":100,\"contentType\":101," ++
    "\"content\":\"aGk=\",\"seq\":\"5\",\"sendTime\":100\x7d"

def mentionPayload : String :=
  "\x7b\"sendID\":\"1\",\"recvID\":\"2\",\"convID\":\"1_2\",\"clientMsgID\":\"c1\"," ++
    "\"serverMsgID\":\"6f1c0e2a\",\"sessionType\":1,\"msgFrom\":100,\"contentType\":101," ++
    "\"content\":\"aGk=\",\"seq\":\"5\",\"sendTime\":100,\"atUserIDList\":[\"2\"]\x7d"

/-- The JSON texts of one of the two, of its summary and of its content. -/
def textCodec (m : MsgData) (payload : String) (h : payload ≠ "") : Codec :=
  .single m payload
    ("\x7b\"serverMsgID\":\"6f1c0e2a\",\"clientMsgID\":\"c1\",\"sessionType\":1,\"sendID\":\"1\"," ++
      "\"recvID\":\"2\",\"LatestMsgRecvTime\":\"100\",\"contentType\":101," ++
      "\"content\":\"\x7b\\\"content\\\":\\\"hi\\\"\x7d\"\x7d")
    "\x7b\"content\":\"hi\"\x7d" h

/-- The task of the message, queued first. -/
def textTask (m : MsgData) (payload : String) : OutboxTask where
  id := 1
  operation := 1
  actor := m.sendID
  peer := m.recvID
  conversation := m.convID
  serverId := m.serverMsgID
  seq := m.seq
  payload := payload

theorem queueInsert_text (m : MsgData) {payload : String} (h : payload ≠ "") :
    (Db.queueInsert (textCodec m payload h) {} m) = .ok (textTask m payload, Db.insertMessage {} m payload) := by
  simp [Db.queueInsert, textCodec, Codec.single, textTask]

theorem plainText_copies :
    SameCopies (textCodec plainText plainPayload (by decide +kernel)) (textTask plainText plainPayload) {} [] :=
  (copies_agree (queueInsert_text plainText (by decide +kernel)) {} [] (by simp [OwnBody])).2
    ⟨rfl, rfl, rfl, rfl, rfl, rfl, by decide⟩

/-- The mention is lost where the message is read from the database. -/
theorem mention_differs :
    ¬ ∀ (J : Codec) (db db' : Db) (m : MsgData) (task : OutboxTask), validSingleMessage m = true →
      db.queueInsert J m = .ok (task, db') →
      ∀ (r : Redis) (docs : List Doc), OwnBody m docs → SameCopies J task r docs := by
  intro h
  have hne : mentionPayload ≠ "" := by decide +kernel
  have hc := h (textCodec mention mentionPayload hne) {} _ mention (textTask mention mentionPayload) (by decide)
    (queueInsert_text mention hne) {} [] (by simp [OwnBody])
  obtain ⟨m, hm, -, hdb, -⟩ := hc
  obtain rfl : mention = m :=
    Except.ok.inj ((outboxMessage_queued (queueInsert_text mention hne)).1.symm.trans hm)
  exact absurd hdb (by decide +kernel)

end ApeServer
