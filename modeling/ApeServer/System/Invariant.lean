/-
  The invariant of the system.

  `Inv` has a part for each group of data: the ids (`IdsOk`), friendship and
  watermarks (`FriendsOk`), the outbox (`RowsOk`), receipts (`ReceiptsOk`), the
  stores and what the tables promise about them (`StoresOk`), and the calls in
  flight (`CallsOk`).  Most facts about a message hold as long as its number is
  above the deletion watermark of its pair (`Db.Above`); what lies below may be
  cleaned up at any time.
-/
import ApeServer.System.Moves

namespace ApeServer

open Table

/-! ## Messages and their rows -/

/-- What `SendMessages` guarantees about a message it has numbered. -/
structure Supplied (w : World) (m : MsgData) : Prop where
  conv : m.convID = conversationId m.sendID m.recvID
  uuid : IsUuid m.serverMsgID
  known : m.serverMsgID ∈ w.uuids
  pos : 0 < m.seq
  le : m.seq ≤ w.lastId
  single : m.isGroupMsg = false

/-- The row is the outbox row of the message.  Only a cancelled row may have
    lost its payload. -/
structure MessageRow (J : Codec) (r : OutboxRow) (m : MsgData) : Prop where
  operation : r.operation = 1
  key : r.dedupeKey = messageKey m
  actor : r.actor = m.sendID
  peer : r.peer = m.recvID
  conversation : r.conversation = m.convID
  serverId : r.serverId = m.serverMsgID
  seq : r.seq = m.seq
  payload : J.printMsg m = some r.payload ∨ (r.payload = "" ∧ r.state = 3)

/-- The number of the row is above the watermark of its pair. -/
def Db.Live (db : Db) (r : OutboxRow) : Prop := db.Above r.actor r.peer r.seq

/-- The life cycle of a message row. -/
structure Life (r : OutboxRow) : Prop where
  state : r.state ≤ 3
  stage : r.stage ≤ 1
  done : r.dispatchDone = true → r.state = 2 ∨ r.state = 3
  staged : r.state = 2 → r.stage = 1

/-- The row of the pair exists, so that locking it changes nothing. -/
def Db.Locked (db : Db) (a b : Account) : Prop := (min a b, max a b) ∈ db.friendPairs

/-- What holds of a row, by its operation. -/
inductive RowOk (J : Codec) (w : World) (r : OutboxRow) : Prop
  | message (m : MsgData) (hs : m ∈ w.stamped) (hm : MessageRow J r m)
      (hv : validSingleMessage m = true) (hl : w.db.Locked r.actor r.peer) (hlife : Life r)
      (hf : w.db.Live r → w.db.Friend r.actor r.peer)
  | cleanup (n : ℕ) (ho : r.operation = 2) (hc : r.conversation = conversationId r.actor r.peer)
      (hs : r.seq = n) (hk : r.dedupeKey = Db.cleanupKey r.conversation n)
      (hd : ∃ d, w.db.deletedSeq? r.actor r.peer = some d ∧ n ≤ d)
  | ack (ho : r.operation = 3) (hk : r.dedupeKey = ackKey r.peer r.serverId)
      (hr : w.db.hasReceipt r.peer r.serverId = true)

/-! ## The tables -/

structure IdsOk (w : World) : Prop where
  bound : w.lastId < 2 ^ 63
  stamped : ∀ m ∈ w.stamped, Supplied w m
  nodup : (w.stamped.map (·.serverMsgID)).Nodup

structure FriendsOk (w : World) : Prop where
  symm : ∀ a b, w.db.Friend a b → w.db.Friend b a
  apart : ∀ a b, w.db.Friend a b → a ≠ b
  locked : ∀ a b, w.db.Friend a b → w.db.Locked a b
  watermark_symm : ∀ a b, w.db.deletedSeq? a b = w.db.deletedSeq? b a
  watermark_le : ∀ a b d, w.db.deletedSeq? a b = some d → d ≤ w.lastId

structure RowsOk (J : Codec) (w : World) : Prop where
  ids : (w.db.outbox.map (·.id)).Nodup
  next : ∀ r ∈ w.db.outbox, r.id < w.db.nextOutboxId
  keys : (w.db.outbox.map fun r => (r.operation, r.dedupeKey)).Nodup
  row : ∀ r ∈ w.db.outbox, RowOk J w r

structure ReceiptsOk (w : World) : Prop where
  keys : (w.db.receipts.map fun r => (r.owner, r.serverId)).Nodup
  message : ∀ ρ ∈ w.db.receipts,
    ∃ r ∈ w.db.outbox, r.operation = 1 ∧ r.serverId = ρ.serverId ∧ r.peer = ρ.owner
  task : ∀ ρ ∈ w.db.receipts,
    ∃ r ∈ w.db.outbox, r.operation = 3 ∧ r.serverId = ρ.serverId ∧ r.peer = ρ.owner

/-! ## The stores -/

/-- A document without the fields that change. -/
def Doc.core (d : Doc) : Doc := { d with committed := false, status := 0 }

/-- The document is the body of a message in the outbox, except for the
    fields `committed` and `status`, which have their reasons. -/
structure DocOk (J : Codec) (w : World) (d : Doc) (r : OutboxRow) (m : MsgData) : Prop where
  row : r ∈ w.db.outbox
  stamped : m ∈ w.stamped
  message : MessageRow J r m
  body : d.core = (Doc.ofMsg m false).core
  committed : d.committed = true → 1 ≤ r.stage
  status : d.status = m.status ∨
    (d.status = 2 ∧ w.db.hasReceipt m.recvID m.serverMsgID = true)

/-- The message with this id was handed on: it is staged, and while it is live
    its document is published. -/
def Sent (w : World) (serverId : String) : Prop :=
  ∃ r ∈ w.db.outbox, r.operation = 1 ∧ r.serverId = serverId ∧ 1 ≤ r.stage ∧
    (w.db.Live r → w.stores.Published serverId)

/-- The message is in the outbox. -/
def Queued (J : Codec) (w : World) (m : MsgData) : Prop :=
  m ∈ w.stamped ∧ ∃ r ∈ w.db.outbox, MessageRow J r m

/-- What a staged live message has: a body, and an entry for each side. -/
structure Durable (w : World) (r : OutboxRow) : Prop where
  body : ∃ d ∈ w.stores.mongo, d.serverMsgID = r.serverId
  sender : w.db.Entry r.actor r.conversation r.seq
  recipient : w.db.Entry r.peer r.conversation r.seq

structure StoresOk (J : Codec) (w : World) : Prop where
  keys : (w.stores.mongo.map (·.serverMsgID)).Nodup
  doc : ∀ d ∈ w.stores.mongo, ∃ r m, DocOk J w d r m
  cached : ∀ e ∈ w.stores.redis.strings,
    ∃ m, e = (Redis.msgKey m.serverMsgID, .message m) ∧ Queued J w m ∧ Sent w m.serverMsgID
  kafka : ∀ k ∈ w.stores.kafka, Sent w k.payload
  staged : ∀ r ∈ w.db.outbox, r.operation = 1 → 1 ≤ r.stage → w.db.Live r → Durable w r
  done : ∀ r ∈ w.db.outbox, r.operation = 1 → r.state = 2 → w.db.Live r →
    w.db.hasReceipt r.peer r.serverId = true ∨ w.stores.Published r.serverId
  count : ∀ r ∈ w.db.outbox, r.operation = 1 →
    w.db.recorded.countP (fun m => m.serverMsgID = r.serverId) = r.stage
  recorded : ∀ m ∈ w.db.recorded, ∃ r ∈ w.db.outbox, r.operation = 1 ∧ r.serverId = m.serverMsgID

/-! ## The calls in flight -/

/-- The message has the addresses and ids of one in the outbox. -/
def Known (J : Codec) (w : World) (m : MsgData) : Prop :=
  ∃ m₀, Queued J w m₀ ∧ m.sendID = m₀.sendID ∧ m.recvID = m₀.recvID ∧
    m.serverMsgID = m₀.serverMsgID ∧ m.seq = m₀.seq

/-- What a polling call knows of its task. -/
def Polled (J : Codec) (w : World) (task : OutboxTask) : Prop :=
  ∃ r ∈ w.db.outbox, ∃ m ∈ w.stamped, MessageRow J r m ∧ r.id = task.id ∧ task.stage ≤ r.stage ∧
    ∀ m', J.parseMsg task.payload = some m' → m' = m

def SendOk (J : Codec) (w : World) (c : SendCall) : Prop :=
  c.message ∈ w.stamped ∧
    match c.pc with
    | .queue => True
    | .insert => validSingleMessage c.message = true ∧
        w.db.Friend c.message.sendID c.message.recvID ∧
        w.db.Above c.message.sendID c.message.recvID c.message.seq
    | .poll task => Polled J w task

/-- The row a worker has claimed: the columns of its task are still those of
    the row, and a message is staged before the worker dispatches it. -/
structure WorkerOk (J : Codec) (w : World) (k : Worker) (r : OutboxRow) : Prop where
  row : r ∈ w.db.outbox
  id : r.id = k.task.id
  operation : r.operation = k.task.operation
  actor : r.actor = k.task.actor
  peer : r.peer = k.task.peer
  conversation : r.conversation = k.task.conversation
  serverId : r.serverId = k.task.serverId
  seq : r.seq = k.task.seq
  message : k.task.operation = 1 →
    ∃ m ∈ w.stamped, J.printMsg m = some k.task.payload ∧ MessageRow J r m
  staged : k.task.operation = 1 → k.pc = .dispatch → 1 ≤ r.stage

structure CallsOk (J : Codec) (w : World) : Prop where
  send : ∀ c ∈ w.sends, SendOk J w c
  worker : ∀ k ∈ w.workers, ∃ r, WorkerOk J w k r
  tokens : (w.workers.map (·.task.leaseToken)).Nodup
  token : ∀ k ∈ w.workers, k.task.leaseToken ∈ w.uuids
  consumer : ∀ c ∈ w.consumers,
    Sent w c.serverId ∧ Known J w c.message ∧ c.message.serverMsgID = c.serverId
  delivery : ∀ m ∈ w.deliveries, Known J w m
  ack : ∀ a ∈ w.acks,
    Known J w a.message ∧ a.message.serverMsgID = a.serverId ∧ a.message.recvID = a.owner
  friend : ∀ c ∈ w.friendCalls, c.target ≠ c.command.actor

/-- **The invariant.** -/
structure Inv (J : Codec) (w : World) : Prop where
  ids : IdsOk w
  friends : FriendsOk w
  rows : RowsOk J w
  receipts : ReceiptsOk w
  stores : StoresOk J w
  calls : CallsOk J w

theorem inv_start (J : Codec) : Inv J start where
  ids := ⟨by decide, by simp [start], by simp [start]⟩
  friends := by
    refine ⟨?_, ?_, ?_, ?_, ?_⟩ <;> simp [start, Db.Friend, Db.deletedSeq?]
  rows := by refine ⟨?_, ?_, ?_, ?_⟩ <;> simp [start]
  receipts := by refine ⟨?_, ?_, ?_⟩ <;> simp [start]
  stores := by refine ⟨?_, ?_, ?_, ?_, ?_, ?_, ?_, ?_⟩ <;> simp [start]
  calls := by refine ⟨?_, ?_, ?_, ?_, ?_, ?_, ?_, ?_⟩ <;> simp [start]

/-! ## First consequences -/

section
variable {J : Codec} {w : World}

theorem eq_of_serverMsgID (h : IdsOk w) {m m' : MsgData} (hm : m ∈ w.stamped) (hm' : m' ∈ w.stamped)
    (he : m.serverMsgID = m'.serverMsgID) : m = m' :=
  eq_of_key h.nodup hm hm' he

/-- The message of a row. -/
theorem RowsOk.message (h : RowsOk J w) {r : OutboxRow} (hr : r ∈ w.db.outbox)
    (ho : r.operation = 1) : ∃ m ∈ w.stamped, MessageRow J r m ∧ validSingleMessage m = true ∧
      w.db.Locked r.actor r.peer ∧ Life r ∧ (w.db.Live r → w.db.Friend r.actor r.peer) := by
  cases h.row r hr with
  | message m hs hm hv hl hlife hf => exact ⟨m, hs, hm, hv, hl, hlife, hf⟩
  | cleanup n ho' => omega
  | ack ho' => omega

theorem RowsOk.eq_of_id (h : RowsOk J w) {r r' : OutboxRow} (hr : r ∈ w.db.outbox)
    (hr' : r' ∈ w.db.outbox) (he : r.id = r'.id) : r = r' :=
  eq_of_key h.ids hr hr' he

theorem RowsOk.eq_of_dedupe (h : RowsOk J w) {r r' : OutboxRow} (hr : r ∈ w.db.outbox)
    (hr' : r' ∈ w.db.outbox) (ho : r.operation = r'.operation) (hk : r.dedupeKey = r'.dedupeKey) :
    r = r' :=
  eq_of_key h.keys hr hr' (by rw [ho, hk])

/-- **A server id has one message row.** -/
theorem eq_of_serverId (hi : IdsOk w) (h : RowsOk J w) {r r' : OutboxRow} (hr : r ∈ w.db.outbox)
    (hr' : r' ∈ w.db.outbox) (ho : r.operation = 1) (ho' : r'.operation = 1)
    (he : r.serverId = r'.serverId) : r = r' := by
  obtain ⟨m, hs, hm, -⟩ := h.message hr ho
  obtain ⟨m', hs', hm', -⟩ := h.message hr' ho'
  have : m = m' := eq_of_serverMsgID hi hs hs' (by rw [← hm.serverId, he, hm'.serverId])
  subst this
  exact h.eq_of_dedupe hr hr' (ho.trans ho'.symm) (hm.key.trans hm'.key.symm)

/-- A message in the outbox is determined by its row. -/
theorem MessageRow.unique (hi : IdsOk w) {r : OutboxRow} {m m' : MsgData} (h : MessageRow J r m)
    (h' : MessageRow J r m') (hm : m ∈ w.stamped) (hm' : m' ∈ w.stamped) : m = m' :=
  eq_of_serverMsgID hi hm hm' (h.serverId.symm.trans h'.serverId)

/-- A row that is not cancelled holds the text of its message. -/
theorem MessageRow.parse {r : OutboxRow} {m : MsgData} (h : MessageRow J r m) (hs : r.state ≠ 3) :
    J.printMsg m = some r.payload :=
  h.payload.resolve_right fun h => hs h.2

theorem MessageRow.parse_eq {r : OutboxRow} {m m' : MsgData} (h : MessageRow J r m)
    (hp : J.parseMsg r.payload = some m') : m' = m := by
  rcases h.payload with h | ⟨h, -⟩
  · rw [J.parse_print _ _ h] at hp; exact (Option.some.inj hp).symm
  · rw [h, J.parse_empty] at hp; cases hp

/-- The pair of a row of the conversation of `a` and `b` is this pair. -/
theorem isPair_of_conversation (hi : IdsOk w) (h : RowsOk J w) {r : OutboxRow} {a b : Account}
    (hr : r ∈ w.db.outbox) (ho : r.operation = 1) (hc : r.conversation = conversationId a b) :
    IsPair a b r.actor r.peer := by
  obtain ⟨m, hs, hm, -⟩ := h.message hr ho
  have := (hi.stamped m hs).conv
  rw [hm.actor, hm.peer]
  exact conversationId_inj (by rw [← this, ← hm.conversation, hc])

theorem DocOk.serverMsgID {d : Doc} {r : OutboxRow} {m : MsgData} (h : DocOk J w d r m) :
    d.serverMsgID = m.serverMsgID := congrArg Doc.serverMsgID h.body

theorem DocOk.convID {d : Doc} {r : OutboxRow} {m : MsgData} (h : DocOk J w d r m) :
    d.convID = m.convID := congrArg Doc.convID h.body

theorem DocOk.seq {d : Doc} {r : OutboxRow} {m : MsgData} (h : DocOk J w d r m) : d.seq = m.seq :=
  congrArg Doc.seq h.body

theorem DocOk.recvID {d : Doc} {r : OutboxRow} {m : MsgData} (h : DocOk J w d r m) :
    d.recvID = asInt64 m.recvID := congrArg Doc.recvID h.body

theorem DocOk.sendID {d : Doc} {r : OutboxRow} {m : MsgData} (h : DocOk J w d r m) :
    d.sendID = asInt64 m.sendID := congrArg Doc.sendID h.body

/-- The row a lease is about is the row of the worker. -/
theorem WorkerOk.of_leased (h : RowsOk J w) {k : Worker} {r r' : OutboxRow} (hk : WorkerOk J w k r)
    (hl : Leased w.db k.task r') : r' = r := by
  have hid : r'.id = k.task.id := by simpa using List.find?_some hl.found
  exact h.eq_of_id (List.mem_of_find?_eq_some hl.found) hk.row (hid.trans hk.id.symm)

/-- The message a worker reads from its task is the message of its row. -/
theorem WorkerOk.ready {k : Worker} {r : OutboxRow} {m : MsgData} (hk : WorkerOk J w k r)
    {r' : OutboxRow} (hr : Ready J w.db k.task r' m) : m ∈ w.stamped ∧ MessageRow J r m := by
  obtain ⟨m', hs, hp, hm⟩ := hk.message hr.operation
  have : m = m' := by
    have := hr.message
    rw [J.parse_print _ _ hp] at this
    exact (Option.some.inj this).symm
  subst this
  exact ⟨hs, hm⟩

end

end ApeServer
