/-
  The single-chat system as a state machine.

  The state is the tables, the stores, the Snowflake generator and the
  coroutines in flight: `SendMessages` iterations, outbox workers, Kafka
  consumers, offline deliveries, acknowledgements and friend commands.  Every
  transaction under `lockPair` is one step, except that `QueueSingleMessage`
  keeps its lock between the lookup and the insert; a step that needs a lock
  held by such a call is not enabled.  Any coroutine may stop at any point
  (`crash`, `drop…`, `abort…`), a failing transaction keeps the store writes it
  made, and the answer of a `COMMIT` may be lost.

  The inputs that the program draws from outside are arguments of the actions:
  the clock, the rows locked by others, UUIDs (fresh), Snowflake ids (strictly
  increasing), and how far a transaction gets.

  Each step returns the events that the users or the stores see.  `stamped`
  and `uuids` are ghosts: the messages `SendMessages` has numbered, and the
  UUIDs drawn so far.
-/
import ApeServer.Lib.Run
import ApeServer.Process
import ApeServer.Friends
import ApeServer.Delivery

namespace ApeServer

open Table

/-! ## State -/

/-- Where a `SendMessages` iteration stands: before `QueueSingleMessage`;
    inside it, with the pair locked and no row found; polling the task. -/
inductive SendPc where
  | queue
  | insert
  | poll (task : OutboxTask)
deriving DecidableEq, Repr

structure SendCall where
  message : MsgData
  pc : SendPc
deriving DecidableEq, Repr

/-- Where an outbox worker stands: before a phase; after an exception; after
    its task. -/
inductive WorkerPc where
  | persist
  | dispatch
  | failed
  | finished
deriving DecidableEq, Repr

structure Worker where
  task : OutboxTask
  pc : WorkerPc
deriving DecidableEq, Repr

/-- Where `PushHandler::handle` stands: message fetched; not dispatched yet;
    `PushMsg` returned. -/
inductive ConsumerPc where
  | fetched
  | checked
  | pushed
deriving DecidableEq, Repr

structure Consumer where
  serverId : String
  message : MsgData
  pc : ConsumerPc
deriving DecidableEq, Repr

/-- `QueueMessageAck` before its transaction. -/
structure AckCall where
  owner : Account
  serverId : String
  message : MsgData
deriving DecidableEq, Repr

/-- A friend command before its transaction. -/
structure FriendCall where
  command : FriendCommand
  target : Account
deriving DecidableEq, Repr

structure World where
  db : Db := {}
  stores : Stores := {}
  lastId : ℕ := 0
  uuids : List String := []
  stamped : List MsgData := []
  sends : List SendCall := []
  workers : List Worker := []
  consumers : List Consumer := []
  deliveries : List MsgData := []
  acks : List AckCall := []
  friendCalls : List FriendCall := []
deriving DecidableEq, Repr

/-- What a step lets the users or the stores see. -/
inductive Event where
  /-- `QueueSingleMessage` inserted the message -/
  | accepted (m : MsgData)
  /-- `QueueSingleMessage` answered with the stored message -/
  | replayed (m : MsgData)
  /-- the message reached stage 1 -/
  | staged (m : MsgData)
  /-- the dispatch phase began to publish the message -/
  | dispatched (m : MsgData)
  /-- `PushMsg` started its gateway action -/
  | pushed (m : MsgData)
  /-- `deliverOfflineMessage` started its gateway action -/
  | offered (m : MsgData)
  /-- `GetSingleChatHistory` returned the message -/
  | returned (m : MsgData)
  /-- `DeleteFriend` removed a friendship, with this watermark -/
  | deleted (a b : Account) (d : ℕ)
  /-- the receipt of a message was committed -/
  | acked (owner : Account) (serverId : String)
  /-- the answer of `SendMessages` for a message -/
  | replied (m : MsgData) (code : String)
  /-- `notifySender` pushed a result to the sender -/
  | notified (m : MsgData) (code : String)
deriving DecidableEq, Repr

/-- The message that an event accepts, moves or shows. -/
def Event.shown : Event → Option MsgData
  | accepted m | replayed m | staged m | dispatched m | pushed m | offered m | returned m => some m
  | _ => none

/-! ## Pair locks -/

/-- The same pair of accounts, in either order. -/
def samePair (a b c d : Account) : Bool := (a = c && b = d) || (a = d && b = c)

/-- No `QueueSingleMessage` call holds the lock of the pair. -/
def World.pairFree (w : World) (a b : Account) : Bool :=
  w.sends.all fun c => !(c.pc = .insert && samePair c.message.sendID c.message.recvID a b)

/-! ## Sending -/

/-- What `SendMessages` writes into a message. -/
def stampMessage (m : MsgData) (uuid : String) (seq : ℕ) (time : Int) : MsgData :=
  { m with
    convID := conversationId m.sendID m.recvID
    serverMsgID := uuid
    seq := seq
    sendTime := time }

/-- The error code of `SendMessages` for an exception. -/
def sendErrorCode : Thrown → String
  | .invalidArgument _ => "INVALID_MESSAGE"
  | .runtimeError _ => "DB_ERROR"

/-- The answer of `SendMessages` after its polling loop: the error code and
    the message of the reply. -/
def sendReply (J : Codec) (m : MsgData) (task : OutboxTask) : MsgData × String :=
  match J.parseMsg task.payload with
  | none => (m, "DB_ERROR")
  | some stored =>
    if task.state = 3 then (m, "NOT_FRIEND")
    else if task.stage = 0 then (stored, "PENDING")
    else (stored, "0")

/-- `notifySender`. -/
def notifySender (J : Codec) (task : OutboxTask) : Option (MsgData × String) :=
  if task.operation ≠ 1 ∨ (task.stage = 0 ∧ task.state ≠ 3) ∨ (task.stage = 1 ∧ task.state = 3) then
    none
  else (J.parseMsg task.payload).map fun m => (m, if task.state = 3 then "NOT_FRIEND" else "0")

namespace World
variable (J : Codec)

/-- A step's result: the next state and its events. -/
abbrev Result := Option (World × List Event)

/-- `SendMessages` numbers a message. -/
def send (w : World) (m : MsgData) (uuid : String) (seq : ℕ) (time : Int) : Result :=
  if m.isGroupMsg then some (w, [.replied m "UPGRADE_REQUIRED"])
  else if IsUuid uuid ∧ uuid ∉ w.uuids ∧ w.lastId < seq ∧ seq < 2 ^ 63 then
    some ({ w with
      lastId := seq
      uuids := uuid :: w.uuids
      stamped := stampMessage m uuid seq time :: w.stamped
      sends := w.sends ++ [⟨stampMessage m uuid seq time, .queue⟩] }, [])
  else none

/-- `QueueSingleMessage` up to the lookup. -/
def queueLookup (w : World) (i : ℕ) : Result :=
  match w.sends[i]? with
  | some ⟨m, .queue⟩ =>
    if !validSingleMessage m then
      some ({ w with sends := w.sends.eraseIdx i }, [.replied m "INVALID_MESSAGE"])
    else if !w.pairFree m.sendID m.recvID then none
    else match w.db.queueLookup J m with
      | .error e => some ({ w with sends := w.sends.eraseIdx i }, [.replied m (sendErrorCode e)])
      | .ok none => some ({ w with sends := w.sends.set i ⟨m, .insert⟩ }, [])
      | .ok (some task) =>
        some ({ w with
          db := w.db.lockPair m.sendID m.recvID
          sends := w.sends.set i ⟨m, .poll task⟩ },
          (J.parseMsg task.payload).toList.map .replayed)
  | _ => none

/-- `QueueSingleMessage` from the insert to the commit. -/
def queueInsert (w : World) (i : ℕ) (lost : Bool) : Result :=
  match w.sends[i]? with
  | some ⟨m, .insert⟩ =>
    match w.db.queueInsert J m with
    | .error e => some ({ w with sends := w.sends.eraseIdx i }, [.replied m (sendErrorCode e)])
    | .ok (task, db) =>
      if lost then
        some ({ w with db := db, sends := w.sends.eraseIdx i },
          [.accepted m, .replied m "DB_ERROR"])
      else some ({ w with db := db, sends := w.sends.set i ⟨m, .poll task⟩ }, [.accepted m])
  | _ => none

/-- A database failure in `SendMessages`; an open transaction rolls back. -/
def abortSend (w : World) (i : ℕ) : Result :=
  match w.sends[i]? with
  | some c => some ({ w with sends := w.sends.eraseIdx i }, [.replied c.message "DB_ERROR"])
  | none => none

/-- One round of the polling loop. -/
def poll (w : World) (i : ℕ) : Result :=
  match w.sends[i]? with
  | some ⟨m, .poll task⟩ =>
    if task.stage = 0 ∧ task.state ≠ 3 then
      match w.db.getOutboxTask task.id with
      | .ok task => some ({ w with sends := w.sends.set i ⟨m, .poll task⟩ }, [])
      | .error e => some ({ w with sends := w.sends.eraseIdx i }, [.replied m (sendErrorCode e)])
    else none
  | _ => none

/-- The end of the polling loop. -/
def reply (w : World) (i : ℕ) (timedOut : Bool) : Result :=
  match w.sends[i]? with
  | some ⟨m, .poll task⟩ =>
    if task.stage = 0 ∧ task.state ≠ 3 ∧ timedOut = false then none
    else some ({ w with sends := w.sends.eraseIdx i },
      [.replied (sendReply J m task).1 (sendReply J m task).2])
  | _ => none

/-! ## Outbox workers -/

/-- `ClaimOutboxTask`. -/
def claim (w : World) (now : Int) (locked : List ℕ) (token : String) : Result :=
  if IsUuid token ∧ token ∉ w.uuids then
    match w.db.claimOutboxTask now locked token with
    | none => some ({ w with uuids := token :: w.uuids }, [])
    | some (task, db) =>
      some ({ w with
        db := db
        uuids := token :: w.uuids
        workers := w.workers ++ [⟨task, if task.operation = 1 then .persist else .dispatch⟩] }, [])
  else none

/-- Where a worker goes after a phase. -/
def afterPhase (pc : WorkerPc) : Except (Failure Thrown) Bool → WorkerPc
  | .error _ => .failed
  | .ok true => if pc = .persist then .dispatch else .finished
  | .ok false => .finished

/-- One phase of `ProcessOutboxTask`, which may fail after `fuel` statements,
    or lose the answer of its `COMMIT`. -/
def runPhase (w : World) (i : ℕ) (now : Int) (lost : Bool) (fuel : ℕ) : Result :=
  match w.workers[i]? with
  | some ⟨task, pc⟩ =>
    if (pc = .persist ∨ pc = .dispatch) ∧ w.pairFree task.actor task.peer then
      let r := Txn.transaction (phase J task (pc = .persist) now) lost w.db w.stores fuel
      some ({ w with
        db := r.2.1
        stores := r.2.2
        workers := w.workers.set i ⟨task, afterPhase pc r.1⟩ },
        (r.2.1.recorded.drop w.db.recorded.length).map .staged ++
          (r.2.2.dispatched.drop w.stores.dispatched.length).map .dispatched)
    else none
  | none => none

/-- `RetryOutboxTask` after an exception. -/
def retry (w : World) (i : ℕ) (now : Int) : Result :=
  match w.workers[i]? with
  | some ⟨task, .failed⟩ =>
    some ({ w with
      db := w.db.retryOutboxTask task now
      workers := w.workers.set i ⟨task, .finished⟩ }, [])
  | _ => none

/-- `notifySender(GetOutboxTask(id))`, after the task. -/
def notify (w : World) (i : ℕ) : Result :=
  match w.workers[i]? with
  | some ⟨task, .finished⟩ =>
    some ({ w with workers := w.workers.eraseIdx i },
      match w.db.getOutboxTask task.id with
      | .error _ => []
      | .ok t => ((notifySender J t).map fun r => Event.notified r.1 r.2).toList)
  | _ => none

/-- A worker dies, or gives its task up. -/
def crash (w : World) (i : ℕ) : Result :=
  some ({ w with workers := w.workers.eraseIdx i }, [])

/-! ## Kafka consumers -/

/-- `PushHandler::handle` up to the message: from the cache if `hit`, else
    from MongoDB.  Any record may be delivered again. -/
def consume (w : World) (k : ℕ) (hit : Bool) : Result :=
  match w.stores.kafka[k]? with
  | none => none
  | some r =>
    let serverId := payloadServerId r.payload
    let found := (if hit then w.stores.redis.getMsg serverId else none) <|>
      getMsgByServerMsgID serverId w.stores.mongo
    match found with
    | none => some (w, [])
    | some m =>
      if m.isGroupMsg then some (w, [])
      else some ({ w with consumers := w.consumers ++ [⟨serverId, m, .fetched⟩] }, [])

/-- The test `MessageDispatchDone`. -/
def checkDispatch (w : World) (j : ℕ) : Result :=
  match w.consumers[j]? with
  | some ⟨serverId, m, .fetched⟩ =>
    if w.db.messageDispatchDone m.recvID serverId then
      some ({ w with consumers := w.consumers.eraseIdx j }, [])
    else some ({ w with consumers := w.consumers.set j ⟨serverId, m, .checked⟩ }, [])
  | _ => none

/-- `PushMsg`: the gateway action runs inside `WithFriendMessage`; when it
    throws, the transaction rolls back and the record will be redelivered. -/
def push (w : World) (j : ℕ) (ok : Bool) : Result :=
  match w.consumers[j]? with
  | some ⟨serverId, m, .checked⟩ =>
    if w.pairFree m.sendID m.recvID then
      let es := if w.db.friendMessageAllowed m true then [Event.pushed m] else []
      if ok then
        some ({ w with
          db := w.db.lockPair m.sendID m.recvID
          consumers := w.consumers.set j ⟨serverId, m, .pushed⟩ }, es)
      else some ({ w with consumers := w.consumers.eraseIdx j }, es)
    else none
  | _ => none

/-- `ConfirmMessageDispatch` after `PushMsg` returned OK. -/
def confirm (w : World) (j : ℕ) : Result :=
  match w.consumers[j]? with
  | some ⟨serverId, _, .pushed⟩ =>
    some ({ w with
      db := w.db.confirmMessageDispatch serverId
      consumers := w.consumers.eraseIdx j }, [])
  | _ => none

def dropConsumer (w : World) (j : ℕ) : Result :=
  some ({ w with consumers := w.consumers.eraseIdx j }, [])

/-! ## Offline logins and history -/

/-- One page of `scanOfflineMessages`: the candidates up to the first one the
    scan refuses. -/
def scan (w : World) (account : Account) (after limit : Int) : Result :=
  let page := (getMsgsBySeq account after limit w.stores.mongo).takeWhile
    (isSingleMessageFor account)
  some ({ w with deliveries := w.deliveries ++ page }, [])

/-- `deliverOfflineMessage`. -/
def deliver (w : World) (j : ℕ) (ok : Bool) : Result :=
  match w.deliveries[j]? with
  | none => none
  | some m =>
    if w.pairFree m.sendID m.recvID then
      some ({ w with
        db := if ok then w.db.lockPair m.sendID m.recvID else w.db
        deliveries := w.deliveries.eraseIdx j },
        if w.db.friendMessageAllowed m true then [.offered m] else [])
    else none

def dropDelivery (w : World) (j : ℕ) : Result :=
  some ({ w with deliveries := w.deliveries.eraseIdx j }, [])

/-- `GetSingleChatHistory`. -/
def history (w : World) (q : HistoryQuery) : Result :=
  match getSingleChatHistoryRpc w.db w.stores.mongo q with
  | .invalidArgument => some (w, [])
  | .permissionDenied =>
    if w.pairFree q.owner q.peer then some ({ w with db := w.db.lockPair q.owner q.peer }, [])
    else none
  | .page p =>
    if w.pairFree q.owner q.peer then
      some ({ w with db := w.db.lockPair q.owner q.peer }, p.messages.map .returned)
    else none

/-! ## Acknowledgements -/

/-- `AckMsg` up to the transaction of `QueueMessageAck`. -/
def ackStart (w : World) (owner : Account) (serverId : String) (ackType : Int) : Result :=
  if ackType ≠ 1 ∧ ackType ≠ 2 then some (w, [])
  else match ackLookup J w.db w.stores.mongo owner serverId with
    | .error _ => some (w, [])
    | .ok (.answer _) => some (w, [])
    | .ok (.commit m) => some ({ w with acks := w.acks ++ [⟨owner, serverId, m⟩] }, [])

/-- The transaction of `QueueMessageAck`. -/
def ackCommit (w : World) (j : ℕ) (now : Int) : Result :=
  match w.acks[j]? with
  | none => none
  | some ⟨owner, serverId, m⟩ =>
    if w.pairFree m.sendID m.recvID then
      some ({ w with
        db := w.db.ackCommit owner serverId m now
        acks := w.acks.eraseIdx j }, [.acked owner serverId])
    else none

def dropAck (w : World) (j : ℕ) : Result :=
  some ({ w with acks := w.acks.eraseIdx j }, [])

/-! ## Friends -/

/-- A friend command up to its transaction. -/
def friendStart (w : World) (cmd : FriendCommand) : Result :=
  match w.db.friendStart cmd with
  | .error _ => some (w, [])
  | .ok target => some ({ w with friendCalls := w.friendCalls ++ [⟨cmd, target⟩] }, [])

/-- The transaction of a friend command; `seq` is the next Snowflake id. -/
def friendCommit (w : World) (j : ℕ) (now : Int) (seq : ℕ) : Result :=
  match w.friendCalls[j]? with
  | none => none
  | some ⟨cmd, target⟩ =>
    if w.pairFree cmd.actor target then
      match w.db.mutate cmd target now seq with
      | .error _ => some ({ w with friendCalls := w.friendCalls.eraseIdx j }, [])
      | .ok (_, drawn, db) =>
        if drawn.all fun d => w.lastId < d && d < 2 ^ 63 then
          some ({ w with
            db := db
            lastId := drawn.getD w.lastId
            friendCalls := w.friendCalls.eraseIdx j },
            drawn.toList.map (.deleted cmd.actor target))
        else none
    else none

def dropFriend (w : World) (j : ℕ) : Result :=
  some ({ w with friendCalls := w.friendCalls.eraseIdx j }, [])

end World

/-! ## Steps -/

inductive Action where
  | send (m : MsgData) (uuid : String) (seq : ℕ) (time : Int)
  | queueLookup (i : ℕ)
  | queueInsert (i : ℕ) (lost : Bool)
  | abortSend (i : ℕ)
  | poll (i : ℕ)
  | reply (i : ℕ) (timedOut : Bool)
  | claim (now : Int) (locked : List ℕ) (token : String)
  | runPhase (i : ℕ) (now : Int) (lost : Bool) (fuel : ℕ)
  | retry (i : ℕ) (now : Int)
  | notify (i : ℕ)
  | crash (i : ℕ)
  | consume (k : ℕ) (hit : Bool)
  | checkDispatch (j : ℕ)
  | push (j : ℕ) (ok : Bool)
  | confirm (j : ℕ)
  | dropConsumer (j : ℕ)
  | scan (account : Account) (after limit : Int)
  | deliver (j : ℕ) (ok : Bool)
  | dropDelivery (j : ℕ)
  | history (q : HistoryQuery)
  | ackStart (owner : Account) (serverId : String) (ackType : Int)
  | ackCommit (j : ℕ) (now : Int)
  | dropAck (j : ℕ)
  | friendStart (cmd : FriendCommand)
  | friendCommit (j : ℕ) (now : Int) (seq : ℕ)
  | dropFriend (j : ℕ)
  | markRead (owner : Account) (conv : String) (seq : Int)
  | updateSettings (owner : Account) (conv : String) (pinned : Option Bool) (recvMsgOpt : Option Int)
  | deleteConversation (owner : Account) (conv : String)
  | register (u : UserRow)
  | expire (key : String)
deriving DecidableEq, Repr

/-- One step of the system. -/
def step (J : Codec) (w : World) : Action → World.Result
  | .send m uuid seq time => w.send m uuid seq time
  | .queueLookup i => w.queueLookup J i
  | .queueInsert i lost => w.queueInsert J i lost
  | .abortSend i => w.abortSend i
  | .poll i => w.poll i
  | .reply i timedOut => w.reply J i timedOut
  | .claim now locked token => w.claim now locked token
  | .runPhase i now lost fuel => w.runPhase J i now lost fuel
  | .retry i now => w.retry i now
  | .notify i => w.notify J i
  | .crash i => w.crash i
  | .consume k hit => w.consume k hit
  | .checkDispatch j => w.checkDispatch j
  | .push j ok => w.push j ok
  | .confirm j => w.confirm j
  | .dropConsumer j => w.dropConsumer j
  | .scan account after limit => w.scan account after limit
  | .deliver j ok => w.deliver j ok
  | .dropDelivery j => w.dropDelivery j
  | .history q => w.history q
  | .ackStart owner serverId ackType => w.ackStart J owner serverId ackType
  | .ackCommit j now => w.ackCommit j now
  | .dropAck j => w.dropAck j
  | .friendStart cmd => w.friendStart cmd
  | .friendCommit j now seq => w.friendCommit j now seq
  | .dropFriend j => w.dropFriend j
  | .markRead owner conv seq =>
    some ({ w with db := (w.db.markConversationRead owner conv seq).2 }, [])
  | .updateSettings owner conv pinned opt =>
    match w.db.updateConversationSettings owner conv pinned opt with
    | .error _ => some (w, [])
    | .ok (_, db) => some ({ w with db := db }, [])
  | .deleteConversation owner conv =>
    some ({ w with db := w.db.deleteConversation owner conv }, [])
  | .register u => some ({ w with db := { w.db with users := w.db.users ++ [u] } }, [])
  | .expire key =>
    some ({ w with stores := { w.stores with redis := w.stores.redis.del key } }, [])

/-- The empty system. -/
def start : World := {}

/-- The runs of the system.  The guard `lastId < seq` of `World.send` and
    `World.friendCommit` assumes of the generator that the ids of a run increase
    in the order in which they are drawn. -/
abbrev SysTrace (J : Codec) := Machine.Trace (step J) start

/-- The reachable states. -/
abbrev SysReachable (J : Codec) := Machine.Reachable (step J) start

/-! ## A sample exchange -/

/-- The text message "hi" of account 1 to account 2, as a client sends it. -/
def hello (status : Int) : MsgData where
  sendID := 1
  recvID := 2
  clientMsgID := "c1"
  sessionType := 1
  msgFrom := 100
  contentType := 101
  content := [104, 105]
  status := status

/-- The message after `SendMessages` has numbered it. -/
def helloStamped (status : Int) : MsgData :=
  stampMessage (hello status) "6f1c0e2a-5b1d-4c8e-9a57-0d2b3c4e5f60" 5 100

theorem append_brace_ne_empty (s : String) : s ++ "\x7d" ≠ "" := by
  intro h
  have := congrArg String.length h
  simp at this

/-- The JSON texts of the message. -/
def helloCodec (status : Int) : Codec :=
  .single (helloStamped status)
    ("\x7b\"sendID\":\"1\",\"recvID\":\"2\",\"convID\":\"1_2\",\"clientMsgID\":\"c1\"," ++
      "\"serverMsgID\":\"6f1c0e2a-5b1d-4c8e-9a57-0d2b3c4e5f60\",\"sessionType\":1,\"msgFrom\":100," ++
      "\"contentType\":101,\"content\":\"aGk=\",\"seq\":\"5\",\"sendTime\":100" ++
      (if status = 0 then "" else ",\"status\":" ++ toString status) ++ "\x7d")
    ("\x7b\"serverMsgID\":\"6f1c0e2a-5b1d-4c8e-9a57-0d2b3c4e5f60\",\"clientMsgID\":\"c1\"," ++
      "\"sessionType\":1,\"sendID\":\"1\",\"recvID\":\"2\",\"LatestMsgRecvTime\":\"100\"," ++
      "\"contentType\":101,\"content\":\"\x7b\\\"content\\\":\\\"hi\\\"\x7d\"\x7d")
    "\x7b\"content\":\"hi\"\x7d"
    (append_brace_ne_empty _)

/-- The run of a list of actions, as far as all of them are enabled. -/
abbrev sampleRun (J : Codec) (acts : List Action)
    (h : ∀ i < acts.length, (step J (Machine.runTo (step J) start
      (fun i => acts.getD i (.expire "")) i) (acts.getD i (.expire ""))).isSome) : SysTrace J :=
  .ofActions (step J) start (fun i => acts.getD i (.expire "")) acts.length h

/-- Accounts 1 and 2 register and become friends. -/
def befriendActions : List Action :=
  [.register ⟨1, "A"⟩, .register ⟨2, "B"⟩,
    .friendStart { actor := 1, operation := .apply, target := 2 }, .friendCommit 0 10 0,
    .friendStart { actor := 2, operation := .handleApplication, applicationID := 1, accept := true },
    .friendCommit 0 20 0]

/-- Then account 1 sends the message, which reaches the outbox. -/
def sendActions (status : Int) : List Action :=
  befriendActions ++
    [.send (hello status) "6f1c0e2a-5b1d-4c8e-9a57-0d2b3c4e5f60" 5 100, .queueLookup 0,
      .queueInsert 0 false]


end ApeServer
