/-
  The outbox table (`QueueSingleMessage`, `QueueConversationCleanup`,
  `GetOutboxTask`, `ClaimOutboxTask`, `RetryOutboxTask`, `QueueMessageAck` and
  `ConfirmMessageDispatch` of `src/storage/mysqlhandler.cpp`).

  `QueueSingleMessage` runs under the lock of the recipient's pair while its
  dedupe key does not name the recipient, so two calls with one key may
  overlap; it is therefore cut where they can: `queueLookup` (friend check
  and `SELECT … FOR UPDATE` with the replay checks) and `queueInsert` (the
  insert under the unique key, and the commit).  `QueueMessageAck` is cut the
  same way between the reads outside its transaction (`ackLookup`) and the
  transaction (`ackCommit`).
-/
import ApeServer.Database
import ApeServer.Stores

namespace ApeServer

open Table

/-- `MySQLHandler::OutboxTask`. -/
structure OutboxTask where
  id : ℕ := 0
  actor : Account := 0
  peer : Account := 0
  seq : Int := 0
  operation : ℕ := 0
  state : ℕ := 0
  stage : ℕ := 0
  attempts : ℕ := 0
  dispatchDone : Bool := false
  conversation : String := ""
  serverId : String := ""
  payload : String := ""
  leaseToken : String := ""
deriving DecidableEq, Repr

/-- `outboxRow`. -/
def outboxRow (r : OutboxRow) : OutboxTask where
  id := r.id
  operation := r.operation
  actor := r.actor
  peer := r.peer
  conversation := r.conversation
  serverId := r.serverId
  seq := r.seq
  payload := r.payload
  state := r.state
  stage := r.stage
  attempts := r.attempts
  leaseToken := r.leaseToken
  dispatchDone := r.dispatchDone

/-- `outboxMessage`. -/
def outboxMessage (J : Codec) (task : OutboxTask) : Except Thrown MsgData :=
  match J.parseMsg task.payload with
  | some m => .ok m
  | none => .error (.runtimeError "Invalid outbox message payload")

namespace Db

/-- `UPDATE im_outbox SET f WHERE id = …`. -/
def updateTask (db : Db) (id : ℕ) (f : OutboxRow → OutboxRow) : Db :=
  { db with outbox := updateWhere (fun r => r.id = id) f db.outbox }

/-- `GetOutboxTask`. -/
def getOutboxTask (db : Db) (id : ℕ) : Except Thrown OutboxTask :=
  match db.outbox.find? fun r => r.id = id with
  | some r => .ok (outboxRow r)
  | none => .error (.runtimeError "Outbox task missing")

end Db

/-! ## Sending -/

/-- The argument check of `QueueSingleMessage`. -/
def validSingleMessage (m : MsgData) : Bool :=
  m.sendID ≠ 0 && m.recvID ≠ 0 && m.sendID ≠ m.recvID && !m.isGroupMsg && m.sessionType = 1 &&
    m.clientMsgID ≠ "" && m.clientMsgID.utf8ByteSize ≤ 128 && m.content.length ≤ 64 * 1024 &&
    m.clientMsgID.toList.all fun c => 33 ≤ c.toNat && c.toNat ≤ 126

/-- The dedupe key of a message: `sendID:clientMsgID`. -/
def messageKey (m : MsgData) : String := accountText m.sendID ++ ":" ++ m.clientMsgID

theorem messageKey_inj {m m' : MsgData} (h : messageKey m = messageKey m') :
    m.sendID = m'.sendID ∧ m.clientMsgID = m'.clientMsgID := by
  obtain ⟨h₁, h₂⟩ := Decimal.repr_append_inj ":" ':' rfl (by decide) h
  exact ⟨UInt64.toNat_inj.1 h₁, h₂⟩

namespace Db

/-- `SELECT … FROM im_outbox WHERE operation = 1 AND dedupe_key = …`. -/
def messageRow? (db : Db) (m : MsgData) : Option OutboxRow :=
  db.outbox.find? fun r => r.operation = 1 && r.dedupeKey = messageKey m

/-- `QueueSingleMessage` from the friend check to the end of the replay
    checks: `some task` replays a stored message, `none` goes on to insert. -/
def queueLookup (J : Codec) (db : Db) (m : MsgData) : Except Thrown (Option OutboxTask) :=
  if !db.friendAllows m.sendID m.recvID m.seq then
    .error (.invalidArgument "Only friends may exchange messages")
  else match db.messageRow? m with
    | none => .ok none
    | some r =>
      let task := outboxRow r
      if task.state = 3 ∨ task.payload = "" then
        .error (.invalidArgument "This clientMsgID belongs to a deleted conversation")
      else match outboxMessage J task with
        | .error e => .error e
        | .ok original =>
          if !db.friendAllows original.sendID original.recvID original.seq then
            .error (.invalidArgument "This clientMsgID belongs to a deleted conversation")
          else if original.recvID ≠ m.recvID ∨ original.content ≠ m.content ∨
              original.contentType ≠ m.contentType ∨ original.sessionType ≠ m.sessionType then
            .error (.invalidArgument "clientMsgID was reused for a different message")
          else if task.state = 3 then
            .error (.invalidArgument "This message was cancelled by a friend deletion")
          else .ok (some task)

/-- The row `QueueSingleMessage` inserts. -/
def newMessageRow (id : ℕ) (m : MsgData) (payload : String) : OutboxRow where
  id := id
  operation := 1
  dedupeKey := messageKey m
  actor := m.sendID
  peer := m.recvID
  conversation := m.convID
  serverId := m.serverMsgID
  seq := m.seq
  payload := payload

/-- The tables after the insert, with the lock of the pair. -/
def insertMessage (db : Db) (m : MsgData) (payload : String) : Db :=
  { db.lockPair m.sendID m.recvID with
    outbox := db.outbox ++ [newMessageRow db.nextOutboxId m payload]
    nextOutboxId := db.nextOutboxId + 1 }

/-- `QueueSingleMessage` from the insert to the commit.  The unique key
    refuses a second row. -/
def queueInsert (J : Codec) (db : Db) (m : MsgData) : Except Thrown (OutboxTask × Db) :=
  match J.printMsg m with
  | none => .error (.invalidArgument "Invalid message payload")
  | some payload =>
    if db.outbox.any fun r => r.operation = 1 && r.dedupeKey = messageKey m then
      .error (.runtimeError "Duplicate entry for key outbox_dedupe")
    else
      .ok ({ id := db.nextOutboxId, actor := m.sendID, peer := m.recvID, seq := m.seq,
             conversation := m.convID, serverId := m.serverMsgID, payload := payload,
             operation := 1 }, db.insertMessage m payload)

/-! ## Cleanup after a friend deletion -/

/-- The dedupe key of a cleanup: `conversation:cutoff`. -/
def cleanupKey (conv : String) (cutoff : ℕ) : String := conv ++ ":" ++ Nat.repr cutoff

/-- Cancel a row, dropping its payload and lease. -/
def cancelRow (r : OutboxRow) : OutboxRow := { r with state := 3, payload := "", leaseToken := "" }

/-- The test of the cancelling `UPDATE` of `QueueConversationCleanup`. -/
def cancellable (conv : String) (cutoff : Int) (r : OutboxRow) : Bool :=
  r.conversation = conv && r.operation = 1 && r.seq ≤ cutoff && (r.state = 0 || r.state = 1)

/-- The row `QueueConversationCleanup` inserts. -/
def newCleanupRow (id : ℕ) (actor peer : Account) (cutoff : ℕ) : OutboxRow where
  id := id
  operation := 2
  dedupeKey := cleanupKey (conversationId actor peer) cutoff
  actor := actor
  peer := peer
  conversation := conversationId actor peer
  seq := cutoff
  payload := ""

/-- `QueueConversationCleanup`. -/
def queueConversationCleanup (db : Db) (actor peer : Account) (cutoff : ℕ) : Db :=
  let conv := conversationId actor peer
  let same := fun r : OutboxRow => r.operation = 2 && r.dedupeKey = cleanupKey conv cutoff
  { db with
    outbox := updateWhere (cancellable conv cutoff) cancelRow
      (insertNew same (newCleanupRow db.nextOutboxId actor peer cutoff) db.outbox)
    nextOutboxId := if db.outbox.any same then db.nextOutboxId else db.nextOutboxId + 1 }

/-! ## Leases -/

/-- `ClaimOutboxTask` at time `now`: the first ready row, else the first one
    whose lease has expired, skipping the rows locked by other transactions. -/
def claimOutboxTask (db : Db) (now : Int) (locked : List ℕ) (token : String) :
    Option (OutboxTask × Db) :=
  let ready := firstBy
    (fun r r' => r.availableAt < r'.availableAt || (r.availableAt = r'.availableAt && r.id < r'.id))
    (db.outbox.filter fun r => r.state = 0 && r.availableAt ≤ now && r.id ∉ locked)
  let expired := firstBy
    (fun r r' => r.leaseUntil < r'.leaseUntil || (r.leaseUntil = r'.leaseUntil && r.id < r'.id))
    (db.outbox.filter fun r => r.state = 1 && r.leaseUntil ≤ now && r.id ∉ locked)
  (ready <|> expired).map fun r =>
    ({ outboxRow r with leaseToken := token, attempts := r.attempts + 1, state := 1 },
      db.updateTask r.id fun r =>
        { r with
          state := 1
          attempts := r.attempts + 1
          leaseToken := token
          leaseUntil := now + 45000 })

/-- `RetryOutboxTask`: give the lease back, after a delay. -/
def retryOutboxTask (db : Db) (task : OutboxTask) (now : Int) : Db :=
  { db with
    outbox := updateWhere
      (fun r => r.id = task.id && r.state = 1 && r.leaseToken = task.leaseToken)
      (fun r => { r with
        state := 0
        availableAt := now + min 60000 (1000 * 2 ^ min task.attempts 6)
        leaseToken := "" }) db.outbox }

/-- `ConfirmMessageDispatch`. -/
def confirmMessageDispatch (db : Db) (serverId : String) : Db :=
  { db with
    outbox := updateWhere
      (fun r => r.operation = 1 && r.serverId = serverId && r.stage = 1 && r.state ≠ 3)
      (fun r => { r with state := 2, dispatchDone := true, leaseToken := "" }) db.outbox }

end Db

/-! ## Acknowledgements -/

/-- What the reads of `QueueMessageAck` lead to: an answer, or the
    transaction for the message found. -/
inductive AckPlan where
  | answer (ok : Bool)
  | commit (message : MsgData)
deriving DecidableEq, Repr

/-- The end of `ackLookup`, once a message is at hand. -/
def ackMessage (owner : Account) (m : MsgData) : Except Thrown AckPlan :=
  if m.isGroupMsg then .ok (.answer false)
  else if m.recvID ≠ owner then
    .error (.invalidArgument "Acknowledgement owner does not match recipient")
  else .ok (.commit m)

/-- The search in MongoDB when the outbox gave no message. -/
def ackFromMongo (owner : Account) (serverId : String) (docs : List Doc) : Except Thrown AckPlan :=
  match getMsgByServerMsgID serverId docs with
  | none => .ok (.answer true)
  | some m => ackMessage owner m

/-- `QueueMessageAck` before its transaction. -/
def ackLookup (J : Codec) (db : Db) (docs : List Doc) (owner : Account) (serverId : String) :
    Except Thrown AckPlan :=
  if owner = 0 ∨ serverId = "" ∨ 128 < serverId.utf8ByteSize then
    .error (.invalidArgument "Invalid message acknowledgement")
  else match db.outbox.find? fun r => r.operation = 1 && r.serverId = serverId with
    | none => ackFromMongo owner serverId docs
    | some r =>
      if r.peer ≠ owner then
        .error (.invalidArgument "Acknowledgement owner does not match recipient")
      else if r.state = 3 then .ok (.answer true)
      else if r.stage = 0 then .error (.invalidArgument "Message has not been committed")
      else match J.parseMsg r.payload with
        | none => .error (.invalidArgument "Message has not been committed")
        | some m => if m.serverMsgID = "" then ackFromMongo owner serverId docs else ackMessage owner m

/-- The dedupe key of an acknowledgement: `owner:serverMsgID`. -/
def ackKey (owner : Account) (serverId : String) : String := accountText owner ++ ":" ++ serverId

theorem ackKey_inj {o o' : Account} {i i' : String} (h : ackKey o i = ackKey o' i') :
    o = o' ∧ i = i' := by
  obtain ⟨h₁, h₂⟩ := Decimal.repr_append_inj ":" ':' rfl (by decide) h
  exact ⟨UInt64.toNat_inj.1 h₁, h₂⟩

/-- The row `QueueMessageAck` inserts. -/
def Db.newAckRow (id : ℕ) (owner : Account) (serverId : String) (m : MsgData) : OutboxRow where
  id := id
  operation := 3
  dedupeKey := ackKey owner serverId
  actor := m.sendID
  peer := owner
  conversation := m.convID
  serverId := serverId
  seq := m.seq
  payload := ""

/-- The transaction of `QueueMessageAck`: the receipt and the cleanup task. -/
def Db.ackCommit (db : Db) (owner : Account) (serverId : String) (m : MsgData) (now : Int) : Db :=
  let db := db.lockPair m.sendID m.recvID
  let same := fun r : OutboxRow => r.operation = 3 && r.dedupeKey = ackKey owner serverId
  { db with
    receipts := insertNew (fun r => r.owner = owner && r.serverId = serverId)
      ⟨owner, serverId, m.convID, m.seq, now⟩ db.receipts
    outbox := insertNew same (newAckRow db.nextOutboxId owner serverId m) db.outbox
    nextOutboxId := if db.outbox.any same then db.nextOutboxId else db.nextOutboxId + 1 }

/-! ## What the operations can do -/

section
variable {J : Codec} {db db' : Db} {m : MsgData} {task : OutboxTask}

/-- The transaction of an acknowledgement leaves its receipt. -/
theorem hasReceipt_ackCommit (db : Db) (owner : Account) (serverId : String) (m : MsgData) (now : Int) :
    (db.ackCommit owner serverId m now).hasReceipt owner serverId = true := by
  obtain ⟨ρ, hρ, hp⟩ := exists_insertNew
    (p := fun r : ReceiptRow => r.owner = owner && r.serverId = serverId)
    (r := ⟨owner, serverId, m.convID, m.seq, now⟩) (by simp) db.receipts
  exact List.any_eq_true.2 ⟨ρ, hρ, hp⟩

theorem messageRow_mem {r : OutboxRow} (h : db.messageRow? m = some r) :
    r ∈ db.outbox ∧ r.operation = 1 ∧ r.dedupeKey = messageKey m := by
  have := List.find?_some h
  simp only [Bool.and_eq_true, decide_eq_true_eq] at this
  exact ⟨List.mem_of_find?_eq_some h, this⟩

theorem messageRow_some {r : OutboxRow} (hr : r ∈ db.outbox) (ho : r.operation = 1)
    (hk : r.dedupeKey = messageKey m) : ∃ r', db.messageRow? m = some r' := by
  refine Option.isSome_iff_exists.1 (List.find?_isSome.2 ⟨r, hr, ?_⟩)
  simp [ho, hk]

/-- What a lookup that answers with a stored task has checked. -/
structure Replay (J : Codec) (db : Db) (m : MsgData) (r : OutboxRow) (original : MsgData) : Prop where
  row : db.messageRow? m = some r
  state : r.state ≠ 3
  message : J.parseMsg r.payload = some original
  allowed : db.friendAllows original.sendID original.recvID original.seq = true
  recvID : original.recvID = m.recvID
  content : original.content = m.content
  contentType : original.contentType = m.contentType
  sessionType : original.sessionType = m.sessionType

theorem queueLookup_allowed {o : Option OutboxTask} (h : db.queueLookup J m = .ok o) :
    db.friendAllows m.sendID m.recvID m.seq = true := by
  unfold Db.queueLookup at h
  split_ifs at h with ha
  simpa using ha

/-- A row that is there is the answer, after the checks. -/
theorem queueLookup_row {o : Option OutboxTask} {r : OutboxRow} (h : db.queueLookup J m = .ok o)
    (hr : db.messageRow? m = some r) : o = some (outboxRow r) ∧ ∃ original, Replay J db m r original := by
  unfold Db.queueLookup at h
  split_ifs at h
  rw [hr] at h
  dsimp only at h
  by_cases hs : (outboxRow r).state = 3 ∨ (outboxRow r).payload = ""
  · rw [if_pos hs] at h; cases h
  · rw [if_neg hs] at h
    unfold outboxMessage at h
    cases hm : J.parseMsg (outboxRow r).payload with
    | none => rw [hm] at h; cases h
    | some original =>
      rw [hm] at h
      dsimp only at h
      split_ifs at h with h₁ h₂ h₃
      cases h
      push Not at h₂
      exact ⟨rfl, _, hr, h₃, hm, by simpa using h₁, h₂.1, h₂.2.1, h₂.2.2.1, h₂.2.2.2⟩

/-- A lookup that goes on to insert has found no row. -/
theorem queueLookup_none (h : db.queueLookup J m = .ok none) :
    db.friendAllows m.sendID m.recvID m.seq = true ∧ db.messageRow? m = none := by
  refine ⟨queueLookup_allowed h, ?_⟩
  by_contra hsome
  obtain ⟨r, hr⟩ := Option.ne_none_iff_exists'.1 hsome
  cases (queueLookup_row h hr).1

theorem queueLookup_some (h : db.queueLookup J m = .ok (some task)) :
    db.friendAllows m.sendID m.recvID m.seq = true ∧
      ∃ r original, task = outboxRow r ∧ Replay J db m r original := by
  have hallow := queueLookup_allowed h
  cases hr : db.messageRow? m with
  | none =>
    unfold Db.queueLookup at h
    rw [hallow, hr] at h
    cases h
  | some r =>
    obtain ⟨htask, original, hreplay⟩ := queueLookup_row h hr
    exact ⟨hallow, r, original, Option.some.inj htask, hreplay⟩

theorem queueInsert_ok (h : db.queueInsert J m = .ok (task, db')) :
    ∃ payload, J.printMsg m = some payload ∧
      (∀ r ∈ db.outbox, r.operation = 1 → r.dedupeKey ≠ messageKey m) ∧
      task = outboxRow (Db.newMessageRow db.nextOutboxId m payload) ∧
      db' = db.insertMessage m payload := by
  unfold Db.queueInsert at h
  split at h
  · cases h
  · next payload hp =>
    split_ifs at h with hd
    cases h
    refine ⟨payload, hp, fun r hr ho hk => hd ?_, rfl, rfl⟩
    exact List.any_eq_true.2 ⟨r, hr, by simp [ho, hk]⟩

/-- The row after `ClaimOutboxTask`. -/
def Db.claimRow (now : Int) (token : String) (r : OutboxRow) : OutboxRow :=
  { r with state := 1, attempts := r.attempts + 1, leaseToken := token, leaseUntil := now + 45000 }

theorem claimOutboxTask_some {now : Int} {locked : List ℕ} {token : String}
    (h : db.claimOutboxTask now locked token = some (task, db')) :
    ∃ r ∈ db.outbox, (r.state = 0 ∨ r.state = 1) ∧
      task = { outboxRow r with leaseToken := token, attempts := r.attempts + 1, state := 1 } ∧
      db' = db.updateTask r.id (Db.claimRow now token) := by
  unfold Db.claimOutboxTask at h
  obtain ⟨r, hr, he⟩ := Option.map_eq_some_iff.1 h
  cases he
  have hmem : ∀ {s t}, firstBy t (db.outbox.filter s) = some r → r ∈ db.outbox ∧ s r = true :=
    fun h => List.mem_filter.1 (firstBy_mem h)
  rcases (Option.orElse_eq_some _ _ _).1 hr with hr | ⟨-, hr⟩
  · obtain ⟨hm, hs⟩ := hmem hr
    simp only [Bool.and_eq_true, decide_eq_true_eq] at hs
    exact ⟨r, hm, Or.inl hs.1.1, rfl, rfl⟩
  · obtain ⟨hm, hs⟩ := hmem hr
    simp only [Bool.and_eq_true, decide_eq_true_eq] at hs
    exact ⟨r, hm, Or.inr hs.1.1, rfl, rfl⟩

theorem getOutboxTask_ok {id : ℕ} (h : db.getOutboxTask id = .ok task) :
    ∃ r ∈ db.outbox, r.id = id ∧ task = outboxRow r := by
  unfold Db.getOutboxTask at h
  split at h
  · next r hr =>
    cases h
    exact ⟨r, List.mem_of_find?_eq_some hr, by simpa using List.find?_some hr, rfl⟩
  · cases h

theorem getMsgByServerMsgID_some {id : String} {docs : List Doc}
    (h : getMsgByServerMsgID id docs = some m) :
    ∃ d ∈ docs, d.serverMsgID = id ∧ m = decodeMessage d := by
  obtain ⟨d, hd, rfl⟩ := Option.map_eq_some_iff.1 h
  exact ⟨d, List.mem_of_find?_eq_some hd, by simpa using List.find?_some hd, rfl⟩

theorem ackMessage_commit {owner : Account} {m' : MsgData}
    (h : ackMessage owner m' = .ok (.commit m)) : m' = m ∧ m.recvID = owner := by
  unfold ackMessage at h
  by_cases h₁ : m'.isGroupMsg = true
  · rw [if_pos h₁] at h; cases h
  rw [if_neg h₁] at h
  by_cases h₂ : m'.recvID ≠ owner
  · rw [if_pos h₂] at h; cases h
  rw [if_neg h₂] at h
  cases h
  exact ⟨rfl, not_not.1 h₂⟩

theorem ackFromMongo_commit {owner : Account} {id : String} {docs : List Doc}
    (h : ackFromMongo owner id docs = .ok (.commit m)) :
    m.recvID = owner ∧ ∃ d ∈ docs, d.serverMsgID = id ∧ m = decodeMessage d := by
  unfold ackFromMongo at h
  split at h
  · cases h
  · next m' hm =>
    obtain ⟨rfl, ho⟩ := ackMessage_commit h
    exact ⟨ho, getMsgByServerMsgID_some hm⟩

/-- An acknowledgement reaches its transaction only for the recipient, with
    the message of a row or of a document. -/
theorem ackLookup_commit {docs : List Doc} {owner : Account} {id : String}
    (h : ackLookup J db docs owner id = .ok (.commit m)) :
    m.recvID = owner ∧
      ((∃ r ∈ db.outbox, r.operation = 1 ∧ r.serverId = id ∧ J.parseMsg r.payload = some m) ∨
       ∃ d ∈ docs, d.serverMsgID = id ∧ m = decodeMessage d) := by
  unfold ackLookup at h
  split_ifs at h
  split at h
  · exact ⟨(ackFromMongo_commit h).1, Or.inr (ackFromMongo_commit h).2⟩
  · next r hr =>
    by_cases h₁ : r.peer ≠ owner
    · rw [if_pos h₁] at h; cases h
    rw [if_neg h₁] at h
    by_cases h₂ : r.state = 3
    · rw [if_pos h₂] at h; cases h
    rw [if_neg h₂] at h
    by_cases h₃ : r.stage = 0
    · rw [if_pos h₃] at h; cases h
    rw [if_neg h₃] at h
    split at h
    · cases h
    · next m' hm =>
      split_ifs at h
      · exact ⟨(ackFromMongo_commit h).1, Or.inr (ackFromMongo_commit h).2⟩
      · obtain ⟨rfl, ho⟩ := ackMessage_commit h
        have hp := List.find?_some hr
        simp only [Bool.and_eq_true, decide_eq_true_eq] at hp
        exact ⟨ho, Or.inl ⟨r, List.mem_of_find?_eq_some hr, hp.1, hp.2, hm⟩⟩

end

end ApeServer
