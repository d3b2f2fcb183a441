/-
  `MySQLHandler::ProcessOutboxTask`.

  A phase is one transaction under the lock of the task's pair.  It writes to
  MongoDB, Redis and Kafka between its statements, so a failure keeps a prefix
  of these writes while the tables roll back; `Txn` says so.  A store call
  that reports failure is a fault of that statement.

  A message takes two phases, `persist` (body, conversations, stage 1) and
  then dispatch; the cleanup tasks take the second one only.
-/
import ApeServer.Lib.Txn
import ApeServer.Conversations
import ApeServer.Outbox

namespace ApeServer

open Table Txn

/-- A phase of `ProcessOutboxTask`. -/
abbrev Phase (α : Type) := Txn Db Stores Thrown α

/-- A statement without an answer. -/
def write (f : Db → Db) : Phase Unit := exec fun db => ((), f db)

/-- A store call without an answer. -/
def store (f : Stores → Stores) : Phase Unit := effect fun x => ((), f x)

/-- The last statement of a phase: `UPDATE im_outbox SET state = 2, …`. -/
def completeTask (task : OutboxTask) : Phase Bool := do
  write (·.updateTask task.id fun r => { r with state := 2, leaseToken := "" })
  pure true

/-- The persist phase of a message, after the checks. -/
def persistMessage (J : Codec) (task : OutboxTask) (stage : ℕ) (m : MsgData) : Phase Bool := do
  if stage = 0 then
    store fun x => { x with mongo := saveMsgToMongo m false x.mongo }
    if m.isGroupMsg ∨ m.seq ≤ 0 then
      fail (.invalidArgument "Invalid single-chat conversation message")
    else match conversationSummary J m with
      | none => fail (.runtimeError "Unable to serialize conversation summary")
      | some latest =>
        write (·.recordConversationMessage m latest)
        write (·.updateTask task.id fun r => { r with stage := 1 })
        pure true
  else pure true

/-- The dispatch phase of a message, after the checks: publish the body, then,
    unless it was acknowledged, cache it and hand it to Kafka; the task stays
    claimable until the consumer confirms. -/
def dispatchMessage (task : OutboxTask) (m : MsgData) (now : Int) : Phase Bool := do
  let matched ← effect fun x =>
    ((publishMessage task.serverId x.mongo).1,
      { x with
        mongo := (publishMessage task.serverId x.mongo).2
        dispatched := x.dispatched ++ [m] })
  if !matched then fail (.runtimeError "Message body is missing")
  else
    let receipt ← query (·.hasReceipt task.peer task.serverId)
    if receipt then completeTask task
    else
      store fun x => { x with redis := x.redis.saveMsg m }
      store fun x => { x with kafka := x.kafka ++ [⟨task.conversation, task.serverId⟩] }
      write (·.updateTask task.id fun r =>
        { r with state := 0, availableAt := now + 5000, leaseToken := "" })
      pure true

/-- The rows a cleanup cancels. -/
def cleanupRow (task : OutboxTask) (r : OutboxRow) : Bool :=
  r.operation = 1 && r.conversation = task.conversation && r.seq ≤ task.seq

/-- Run Redis commands one by one. -/
def redisCommands (cs : List (Redis → Redis)) : Phase PUnit :=
  cs.forM fun c => store fun x => { x with redis := c x.redis }

/-- Operation 2: the cleanup after a friend deletion. -/
def cleanupHistory (task : OutboxTask) : Phase Bool := do
  write fun db => { db with outbox := updateWhere (cleanupRow task) Db.cancelRow db.outbox }
  let ids ← effect fun x => (getSingleChatMessageIDs task.conversation task.seq x.mongo, x)
  redisCommands (Redis.deleteHistoryCommands task.actor task.peer ids)
  store fun x => { x with mongo := deleteSingleChatHistory task.conversation task.seq x.mongo }
  completeTask task

/-- Operation 3: the cleanup after an acknowledgement. -/
def acknowledgeMessage (task : OutboxTask) : Phase Bool := do
  store fun x => { x with mongo := markMsgsAsDelivered task.peer [task.serverId] x.mongo }
  redisCommands (Redis.cleanupCommands task.peer task.serverId)
  completeTask task

/-- The work of a phase for the row it has locked, whose lease is the
    worker's. -/
def phaseBody (J : Codec) (task : OutboxTask) (persist : Bool) (now : Int) (current : OutboxTask) :
    Phase Bool := do
  if task.operation = 1 then
    let allowed ← query (·.friendAllows task.actor task.peer task.seq)
    if !allowed then
      write (·.updateTask task.id fun r => { r with state := 3 })
      pure false
    else match outboxMessage J task with
      | .error e => fail e
      | .ok m =>
        if persist then persistMessage J task current.stage m else dispatchMessage task m now
  else if task.operation = 2 then cleanupHistory task
  else if task.operation = 3 then acknowledgeMessage task
  else fail (.runtimeError "Unknown outbox operation")

/-- One phase: lock the pair and the row, and check the lease. -/
def phase (J : Codec) (task : OutboxTask) (persist : Bool) (now : Int) : Phase Bool := do
  write (·.lockPair task.actor task.peer)
  let row ← query fun db => db.outbox.find? fun r => r.id = task.id
  match row with
  | none => pure false
  | some r =>
    let current := outboxRow r
    if current.state ≠ 1 ∨ current.leaseToken ≠ task.leaseToken then pure false
    else phaseBody J task persist now current

end ApeServer
