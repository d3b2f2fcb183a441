/-
  A WebSocket session (`src/gateway/ws_session.cpp`).

  The coroutines of a session run on one strand: the main one (`doRead`,
  `handleAuth` and the offline scan), the read loop, the drain of the write
  queue, and the closings that pushes spawn.  A step is what a coroutine does
  when what it waited for has come, up to its next wait.

  * `queuedWrite`, `asyncSend` and `onDisconnect` are shared by the coroutines;
  * `Main` and `Reader` are where the main coroutine and the read loop wait;
  * `Session.step` is the transition function; its outputs are the calls of
    services, the frames put in the queue, and what is reported of the scan.

  The wait for Redis in `onDisconnect` is left out: who waits there finds the
  session disconnected afterwards.  The session table and the online flag are
  those of `ApeServer.Gateway`.
-/
import ApeServer.Gateway.Frames
import ApeServer.Gateway.Scan

namespace ApeServer.WS

/-! ## The state -/

/-- Where `doDrainWriteQueue` is. -/
inductive Drain where
  /-- spawned, and not yet running -/
  | starting
  /-- `async_receive` on an empty channel -/
  | receiving
  | writing (f : SdkWSResp)
  | ended
deriving DecidableEq, Repr

/-- `write_queue_`, a channel of 256 frames, with the coroutine that drains it. -/
structure WriteQueue where
  frames : List SdkWSResp := []
  closed : Bool := false
  drain : Drain := .starting
deriving DecidableEq, Repr

/-- The capacity of the channel. -/
def queueCapacity : ℕ := 256

/-- `try_send`: a frame goes to the coroutine that waits for one, or into the
    buffer. -/
def WriteQueue.trySend (q : WriteQueue) (f : SdkWSResp) : Option WriteQueue :=
  if q.closed then none
  else if q.drain = .receiving then some { q with drain := .writing f }
  else if q.frames.length < queueCapacity then some { q with frames := q.frames ++ [f] }
  else none

/-- `cancel` and `close`. -/
def WriteQueue.close (q : WriteQueue) : WriteQueue :=
  { q with closed := true, drain := if q.drain = .receiving then .ended else q.drain }

/-- `async_receive`, at the head of the loop of `doDrainWriteQueue`. -/
def WriteQueue.receive (q : WriteQueue) : WriteQueue :=
  match q.frames with
  | [] => { q with drain := if q.closed then .ended else .receiving }
  | f :: frames => { q with frames := frames, drain := .writing f }

structure PendingMsg where
  seq : Int
  convID : String
deriving DecidableEq, Repr

/-- `batch_ack_timer_`. -/
inductive Timer where
  | unset
  | armed
  | cancelled
deriving DecidableEq, Repr

def Timer.cancel : Timer → Timer
  | unset => unset
  | armed | cancelled => cancelled

/-- Where `WithFriendMessage` is, called by `deliverOfflineMessage`. -/
inductive Delivery where
  /-- before the action is run -/
  | asked
  /-- the action has put the message in the queue -/
  | queued
  /-- the action has thrown -/
  | failed
deriving DecidableEq, Repr

/-- Where the main coroutine waits. -/
inductive Main where
  /-- `doRead`, for the first frame -/
  | reading
  | registering (req : SdkWSReq)
  /-- the write of the answer to a registration -/
  | replying
  | loggingIn (req : SdkWSReq)
  | validating (req : SdkWSReq)
  /-- the `setex` of `handleAuth` -/
  | settingOnline (req : SdkWSReq) (token : String)
  | fetching (after : Int)
  | delivering (m : MsgData) (rest : List MsgData) (d : Delivery)
  /-- `waitOfflineBatch`, with the next cursor -/
  | waiting (next : Int)
  | ended
deriving DecidableEq, Repr

/-- Where `doReadLoop` waits. -/
inductive Reader where
  /-- before `handleAuth` spawns it -/
  | absent
  | reading
  /-- the `setex` after a ping -/
  | heartbeat
  | sending (requestId : String)
  /-- `AckMsg` for `id`, and how often it has failed -/
  | acking (ackType : Int) (id : String) (rest : List String) (failed : ℕ)
  /-- 200 ms before the second attempt -/
  | pausing (ackType : Int) (id : String) (rest : List String)
  | executingGroup (requestId : String)
  | gettingHistory (requestId : String)
  | callingConversation (type : Int) (requestId : String)
  | executingFriend (type : Int) (requestId : String)
  | ended
deriving DecidableEq, Repr

structure Session where
  account : Account := 0
  disconnected : Bool := false
  queue : Option WriteQueue := none
  /-- `pendingOfflineMsgs_` -/
  pending : List (String × PendingMsg) := []
  timer : Timer := .unset
  main : Main := .reading
  reader : Reader := .absent
  /-- a push has spawned `onDisconnect` -/
  closing : Bool := false
deriving DecidableEq, Repr

/-- What a session does to the outside. -/
inductive Output where
  | rpc (call : Call)
  /-- written to the socket, past the queue -/
  | wrote (f : SdkWSResp)
  /-- put in the write queue -/
  | queued (f : SdkWSResp)
  /-- `deliverOfflineMessage` has put the message in the write queue -/
  | offline (m : MsgData)
  /-- `AckMsg` has returned OK -/
  | acked (serverMsgID : String)
  /-- `GetMsgsBySeqFromMongoAsync` is called -/
  | fetch (after : Int)
  /-- `pushToUser` -/
  | pushed (account : Account) (f : SdkWSResp)
  /-- the socket is closed -/
  | closed
deriving DecidableEq, Repr

/-- The clients that a session may be without. -/
structure Clients where
  group : Bool := true
  conversation : Bool := true
  friend : Bool := true

/-! ## What the coroutines share -/

namespace Session

def onDisconnect (x : Session) : Session :=
  if x.disconnected then x
  else { x with
    disconnected := true
    timer := x.timer.cancel
    pending := []
    queue := x.queue.map WriteQueue.close }

/-- `try_send` on `write_queue_`. -/
def trySend (x : Session) (f : SdkWSResp) : Option WriteQueue :=
  if x.disconnected then none else x.queue.bind (·.trySend f)

/-- `queuedWrite`: the frame is in the queue, or it throws. -/
def queuedWrite (x : Session) (f : SdkWSResp) : Except Session Session :=
  match x.trySend f with
  | none => .error x.onDisconnect
  | some q => .ok { x with queue := some q }

/-- `asyncSend`, on the strand. -/
def asyncSend (x : Session) (f : SdkWSResp) : Session × List Output :=
  if x.disconnected then (x, [])
  else match x.trySend f with
    | none => ({ x with closing := true }, [])
    | some q => ({ x with queue := some q }, [.queued f])

/-- `startWriteQueue`. -/
def startWriteQueue (x : Session) : Session := { x with queue := some {} }

/-! ## The main coroutine -/

/-- `doRead` has returned. -/
def finish (x : Session) (es : List Output) : Session × List Output := ({ x with main := .ended }, es)

/-- An exception leaves `doRead`. -/
def fail (x : Session) : Session × List Output := x.onDisconnect.finish []

/-- An error frame is written, and the socket closed. -/
def refuse (x : Session) (f : SdkWSResp) : Session × List Output := x.finish [.wrote f, .closed]

/-- `handleReg`. -/
def handleReg (P : Parsers) (x : Session) (req : SdkWSReq) : Session × List Output :=
  match P.register req.data with
  | none => x.refuse { errorCode := "PARSE_ERROR", errorMsg := "Parse error occurred",
                       requestId := req.requestId, type := req.type }
  | some r =>
    if r.phone = "" || r.nickname = "" || r.password = "" then
      x.refuse { errorCode := "IMCOMPLETE_INFO", errorMsg := "Register info imcomplete",
                 requestId := req.requestId, type := req.type }
    else ({ x with main := .registering req }, [.rpc (.register r.phone r.nickname r.password req.requestId)])

/-- `handleReg`, once `Register` has answered or thrown. -/
def registered (x : Session) (req : SdkWSReq) (answer : Except String AuthRegResponse) : Session × List Output :=
  let resp : AuthRegResponse := match answer with
    | .ok resp => resp
    | .error _ => { errorCode := "REG_CLIENT_ERROR",
                    errorMessage := "Registration outcome unknown; retry the same request ID" }
  let f : SdkWSResp := { requestId := req.requestId, deviceID := req.deviceID }
  ({ x with main := .replying }, [.wrote (if resp.success then { f with account := resp.account } else { f with
      errorCode := if resp.errorCode = "" then "REGISTER_FAILED" else resp.errorCode
      errorMsg := if resp.errorMessage = "" then "Registration failed" else resp.errorMessage })])

/-- `handleAuth`. -/
def handleAuth (x : Session) (req : SdkWSReq) : Session × List Output :=
  if req.account = 0 then x.refuse { errorCode := "INVALID_PARAM", errorMsg := "missing account" }
  else if req.token = "" then ({ x with main := .loggingIn req }, [.rpc (.login req.account req.data)])
  else ({ x with main := .validating req }, [.rpc (.validateToken req.token)])

/-- `handleAuth`, once the account is confirmed. -/
def authenticated (x : Session) (req : SdkWSReq) (token : String) : Session × List Output :=
  ({ x.startWriteQueue with account := req.account, main := .settingOnline req token }, [])

/-- `handleAuth`, once `Login` has answered; an exception is not caught. -/
def loggedIn (x : Session) (req : SdkWSReq) : Except String AuthRegResponse → Session × List Output
  | .error _ => x.fail
  | .ok resp =>
    if resp.success then x.authenticated req resp.token
    else x.refuse { errorCode := "401", errorMsg := "login failed: " ++ resp.errorMessage,
                    account := req.account, requestId := req.requestId }

/-- `handleAuth`, once `ValidateToken` has answered or thrown. -/
def validated (x : Session) (req : SdkWSReq) (answer : Except String ValidateTokenResponse) :
    Session × List Output :=
  let tokenValid := match answer with
    | .ok resp => resp.valid && resp.account = req.account
    | .error _ => false
  if tokenValid then x.authenticated req req.token
  else x.refuse { errorCode := "INVALID_PARAM", errorMsg := "invalid or expired token",
                  account := req.account, requestId := req.requestId }

/-- `fallback`. -/
def fallback (x : Session) (req : SdkWSReq) : Session × List Output :=
  x.refuse { errorCode := "4401", errorMsg := "message type unsupported", requestId := req.requestId }

/-- `doRead`, with the first frame. -/
def doRead (P : Parsers) (x : Session) (bytes : Bytes) : Session × List Output :=
  match P.request bytes with
  | none => x.refuse { errorCode := "1", errorMsg := "Parse error occurred" }
  | some req =>
    if req.type = 100 then x.handleReg P req
    else if req.type = 101 then x.handleAuth req
    else x.fallback req

/-! ### The offline messages -/

/-- The frame of a completed synchronization. -/
def complete (account : Account) : SdkWSResp :=
  { type := 209, account := account, errorCode := "0", errorMsg := "offline sync complete" }

/-- The frame of a failed synchronization. -/
def syncError (account : Account) : SdkWSResp :=
  { type := 209, account := account, errorCode := "SYNC_ERROR",
    errorMsg := "Offline message synchronization failed; sign in again to retry" }

/-- The frame of an offline message. -/
def offlineFrame (Q : Printers) (account : Account) (m : MsgData) : SdkWSResp :=
  { type := 200, account := account, errorCode := "0", errorMsg := "offline message",
    requestId := m.serverMsgID, data := Q.message m }

/-- `pullAndPushOfflineMsgs`, once the scan has returned, and the end of
    `handleAuth`. -/
def synced (x : Session) : Session × List Output :=
  if x.disconnected then x.finish []
  else match x.queuedWrite (complete x.account) with
    | .ok x => x.finish [.queued (complete x.account)]
    | .error x => x.finish []

/-- `handleAuth`, once an exception has left `pullAndPushOfflineMsgs`. -/
def syncFailed (x : Session) (what : String) : Session × List Output :=
  if x.disconnected || what = "" then x.finish []
  else match x.queuedWrite (syncError x.account) with
    | .ok x => x.finish [.queued (syncError x.account)]
    | .error x => x.fail

/-- `waitOfflineBatch` has returned. -/
def waited (x : Session) (next : Int) : Session × List Output :=
  match Scan.waited x.disconnected next with
  | .fetching after => ({ x with main := .fetching after }, [.fetch after])
  | _ => x.synced

/-- The scan goes on. -/
def goOn (x : Session) : Scan → Session × List Output
  | .fetching after => ({ x with main := .fetching after }, [.fetch after])
  | .delivering m rest => ({ x with main := .delivering m rest .asked }, [])
  | .waiting next =>
    -- `waitOfflineBatch`
    if x.disconnected || x.pending = [] then x.waited next
    else ({ x with main := .waiting next, timer := .armed }, [])
  | .returned => x.synced
  | .threw what => x.syncFailed what

/-- `waitOfflineBatch`, once the timer has expired or is cancelled. -/
def timerFired (x : Session) (next : Int) : Session × List Output :=
  let x := { x with timer := .unset }
  if x.disconnected || x.pending = [] then x.waited next else x.onDisconnect.waited next

/-- `handleAuth`, once `setex` has returned or thrown: the answer, the read
    loop and the scan. -/
def setOnline (x : Session) (req : SdkWSReq) (token : String) : Session × List Output :=
  let f : SdkWSResp := { account := x.account, type := req.type, requestId := req.requestId, token := token,
                         deviceID := req.deviceID }
  match x.queuedWrite f with
  | .ok x =>
    let (x, es) := { x with reader := .reading }.goOn (Scan.start x.disconnected)
    (x, .queued f :: es)
  | .error x => x.fail

/-- The message is entered in `pendingOfflineMsgs_`. -/
def setPending (x : Session) (m : MsgData) : Session :=
  { x with pending := x.pending.filter (·.1 ≠ m.serverMsgID) ++ [(m.serverMsgID, ⟨m.seq, m.convID⟩)] }

/-- The action of `deliverOfflineMessage`. -/
def deliverAction (Q : Printers) (x : Session) (m : MsgData) (rest : List MsgData) : Session × List Output :=
  if x.disconnected then ({ x with main := .delivering m rest .failed }, [])
  else
    let f := offlineFrame Q x.account m
    match (x.setPending m).queuedWrite f with
    | .ok x => ({ x with main := .delivering m rest .queued }, [.queued f, .offline m])
    | .error x => ({ x with main := .delivering m rest .failed }, [])

/-! ## The read loop -/

/-- The loop waits for the next frame, or for something else first. -/
def read (x : Session) (reader : Reader) (es : List Output) : Session × List Output := ({ x with reader := reader }, es)

/-- An answer is queued; an exception leaves `doReadLoop`. -/
def answer (x : Session) (f : SdkWSResp) (reader : Reader) (es : List Output) : Session × List Output :=
  match x.queuedWrite f with
  | .ok x => x.read reader (.queued f :: es)
  | .error x => x.read .ended []

/-- The loop is left. -/
def stop (x : Session) : Session × List Output := x.onDisconnect.read .ended []

/-- `type=0`. -/
def ping (x : Session) (req : SdkWSReq) : Session × List Output :=
  x.answer { requestId := req.requestId, errorCode := "0", errorMsg := "pong", account := x.account } .heartbeat []

/-- `type=101`. -/
def send (P : Parsers) (x : Session) (req : SdkWSReq) : Session × List Output :=
  match P.send req.data with
  | none => x.read .reading []
  | some msgs => x.read (.sending req.requestId)
      [.rpc (.sendMessages (msgs.map fun m => { m with sendID := x.account }))]

/-- `type=101`, once `SendMessages` has answered or thrown. -/
def sent (x : Session) (requestId : String) (result : Except String Bytes) : Session × List Output :=
  let f : SdkWSResp := { requestId := requestId, account := x.account, type := 101 }
  x.answer (match result with
    | .ok data => { f with errorCode := "0", errorMsg := "send message success", data := data }
    | .error what => { f with errorCode := "500", errorMsg := "SendMessages failed: " ++ what }) .reading []

/-- `AckMsg` for an id, in `handleAck`. -/
def ackMsg (x : Session) (ackType : Int) (id : String) (rest : List String) (failed : ℕ) : Session × List Output :=
  x.read (.acking ackType id rest failed)
    [.rpc (.ackMsg { userID := x.account, serverMsgID := id, ackType := ackType })]

/-- The loop of `handleAck` over the ids that are left. -/
def ackIds (x : Session) (ackType : Int) : List String → Session × List Output
  | [] => x.read .reading []
  | id :: rest => x.ackMsg ackType id rest 0

/-- `handleAck`. -/
def handleAck (P : Parsers) (x : Session) (req : SdkWSReq) : Session × List Output :=
  match P.ack req.data with
  | none => x.read .reading []
  | some ackReq =>
    if ackReq.ackType ≠ 1 && ackReq.ackType ≠ 2 then x.read .reading []
    else x.ackIds ackReq.ackType ackReq.serverMsgIDs

/-- `handleAck`: the id is accepted. -/
def accepted (x : Session) (id : String) : Session :=
  let pending := x.pending.filter (·.1 ≠ id)
  { x with
    pending := pending
    timer := if x.pending.any (·.1 = id) && pending = [] then x.timer.cancel else x.timer }

/-- `handleAck`, once `AckMsg` has returned or thrown. -/
def acknowledged (x : Session) (ackType : Int) (id : String) (rest : List String) (failed : ℕ) :
    Except String Unit → Session × List Output
  | .ok () =>
    let (x, es) := (x.accepted id).ackIds ackType rest
    (x, .acked id :: es)
  | .error _ => if failed = 0 then x.read (.pausing ackType id rest) [] else x.read .reading [.closed]

/-- `type=250`. -/
def groupFrame (Q : Printers) (x : Session) (requestId : String) (reply : Group.Reply) : SdkWSResp :=
  { type := 250, account := x.account, requestId := requestId, data := Q.group reply }

def executeGroup (P : Parsers) (Q : Printers) (C : Clients) (x : Session) (req : SdkWSReq) :
    Session × List Output :=
  match P.group req.data with
  | none => x.answer (x.groupFrame Q req.requestId { errorCode := "INVALID_PARAM",
                                                     errorMessage := "Invalid group request" }) .reading []
  | some command =>
    if C.group then x.read (.executingGroup req.requestId) [.rpc (.executeGroup { command with actor := x.account })]
    else x.answer (x.groupFrame Q req.requestId { errorCode := "DB_ERROR",
                                                  errorMessage := "Group service unavailable" }) .reading []

/-- `type=250`, once `Execute` has answered; an exception is not caught. -/
def groupExecuted (Q : Printers) (x : Session) (requestId : String) :
    Except String Group.Reply → Session × List Output
  | .ok reply => x.answer (x.groupFrame Q requestId reply) .reading []
  | .error _ => x.stop

/-- `type=244`. -/
def getHistory (P : Parsers) (x : Session) (req : SdkWSReq) : Session × List Output :=
  let invalid : SdkWSResp := { type := 244, requestId := req.requestId, account := x.account,
                               errorCode := "INVALID_PARAM", errorMsg := "Invalid history request" }
  match P.history req.data with
  | none => x.answer invalid .reading []
  | some query =>
    if query.peer = 0 then x.answer invalid .reading []
    else x.read (.gettingHistory req.requestId) [.rpc (.getSingleChatHistory { query with owner := x.account })]

/-- `type=244`, once `GetSingleChatHistory` has answered or thrown. -/
def historyGot (x : Session) (requestId : String) (result : Except String Bytes) : Session × List Output :=
  let f : SdkWSResp := { type := 244, requestId := requestId, account := x.account }
  x.answer (match result with
    | .ok data => { f with errorCode := "0", data := data }
    | .error what => { f with errorCode := "HISTORY_ERROR", errorMsg := what }) .reading []

/-- A command of the conversations, with its conversation set. -/
def conversationCommand {κ : Type} (command : Option κ) (conversationID : κ → String) (what : String) :
    Except String κ :=
  match command with
  | none => .error what
  | some command => if conversationID command = "" then .error what else .ok command

/-- `type=240` to `243`: the call, or what is thrown before it. -/
def conversationCall (P : Parsers) (C : Clients) (x : Session) (req : SdkWSReq) : Except String Call :=
  if !C.conversation then .error "Conversation service unavailable"
  else if req.type = 240 then .ok (.listConversations x.account)
  else if req.type = 241 then do
    let command ← conversationCommand (P.markRead req.data) (·.conversationID) "Invalid read request"
    .ok (.markRead { command with ownerUserID := x.account })
  else if req.type = 242 then do
    let command ← conversationCommand (P.updateSettings req.data) (·.conversationID) "Invalid settings request"
    .ok (.updateSettings { command with ownerUserID := x.account })
  else do
    let command ← conversationCommand (P.delete req.data) (·.conversationID) "Invalid delete request"
    .ok (.deleteConversation { command with ownerUserID := x.account })

/-- `type=240` to `243`, once the call has answered or something is thrown; only
    the list has data. -/
def conversationCalled (x : Session) (type : Int) (requestId : String) (result : Except String Bytes) :
    Session × List Output :=
  let f : SdkWSResp := { type := type, requestId := requestId, account := x.account }
  x.answer (match result with
    | .ok data => { f with errorCode := "0", data := if type = 240 then data else [] }
    | .error what => { f with errorCode := "CONVERSATION_ERROR", errorMsg := what }) .reading []

def callConversation (P : Parsers) (C : Clients) (x : Session) (req : SdkWSReq) : Session × List Output :=
  match x.conversationCall P C req with
  | .error what => x.conversationCalled req.type req.requestId (.error what)
  | .ok call => x.read (.callingConversation req.type req.requestId) [.rpc call]

/-- `type=220` to `225`, with the answer: the changed accounts that are online
    are notified. -/
def friendExecuted (Q : Printers) (x : Session) (type : Int) (requestId : String) (reply : FriendAnswer)
    (online : List Account) : Session × List Output :=
  x.answer { type := type, requestId := requestId, account := x.account, errorCode := reply.errorCode,
             errorMsg := reply.errorMessage, data := Q.friend reply } .reading
    (if reply.errorCode = "0" then
      (reply.changedAccounts.filter (· ∈ online)).map fun account =>
        .pushed account { type := 230, account := account, errorCode := "0" }
    else [])

def friendUnavailable : FriendAnswer :=
  { errorCode := "SERVICE_UNAVAILABLE", errorMessage := "Friend service unavailable" }

/-- `type=220` to `225`. -/
def executeFriend (P : Parsers) (Q : Printers) (C : Clients) (x : Session) (req : SdkWSReq) :
    Session × List Output :=
  match P.friend req.data with
  | none => x.friendExecuted Q req.type req.requestId
      { errorCode := "INVALID_PARAM", errorMessage := "Invalid friend request" } []
  | some command =>
    if C.friend then x.read (.executingFriend req.type req.requestId)
      [.rpc (.executeFriend { command with actor := x.account, operation := req.type - 220 })]
    else x.friendExecuted Q req.type req.requestId friendUnavailable []

/-- `doReadLoop`, with a frame. -/
def doReadLoop (P : Parsers) (Q : Printers) (C : Clients) (x : Session) (bytes : Bytes) : Session × List Output :=
  match P.request bytes with
  | none => x.read .reading []
  | some req =>
    if req.type = 0 then x.ping req
    else if req.type = 101 then x.send P req
    else if req.type = 106 then x.handleAck P req
    else if req.type = 250 then x.executeGroup P Q C req
    else if req.type = 244 then x.getHistory P req
    else if 240 ≤ req.type && req.type ≤ 243 then x.callConversation P C req
    else if 220 ≤ req.type && req.type ≤ 225 then x.executeFriend P Q C req
    else x.read .reading []

/-! ## The drain -/

/-- The loop of `doDrainWriteQueue`. -/
def drain (x : Session) : Session :=
  { x with queue := x.queue.map fun q => if x.disconnected then { q with drain := .ended } else q.receive }

/-- The drain is left. -/
def drained (x : Session) : Session :=
  { x.onDisconnect with queue := x.onDisconnect.queue.map fun q => { q with drain := .ended } }

end Session

/-! ## Steps -/

/-- What the main coroutine waits for. -/
inductive MainAction where
  | frame (bytes : Bytes)
  | readFailed
  | registered (answer : Except String AuthRegResponse)
  /-- the answer to a registration is written, or not -/
  | replied (ok : Bool)
  | loggedIn (answer : Except String AuthRegResponse)
  | validated (answer : Except String ValidateTokenResponse)
  /-- `setex` has returned or thrown -/
  | setOnline
  | fetched (result : Except String (List MsgData))
  /-- `WithFriendMessage` runs its action -/
  | action
  /-- `WithFriendMessage` returns, having run it or not, or throws -/
  | delivered (result : Except String Unit)
  | timerFired
deriving DecidableEq, Repr

/-- What the read loop waits for. -/
inductive ReadAction where
  | frame (bytes : Bytes)
  | readFailed
  /-- `setex` has returned or thrown -/
  | setOnline
  | sent (result : Except String Bytes)
  | acknowledged (result : Except String Unit)
  | paused
  | groupExecuted (answer : Except String Group.Reply)
  | historyGot (result : Except String Bytes)
  | conversationCalled (result : Except String Bytes)
  /-- with the accounts that have a session -/
  | friendExecuted (answer : Except String FriendAnswer) (online : List Account)
deriving DecidableEq, Repr

inductive SessionAction where
  | main (a : MainAction)
  | loop (a : ReadAction)
  | drainStarted
  | written
  | writeFailed
  /-- `pushToUser` with a frame of another part of the server -/
  | push (f : SdkWSResp)
  /-- an `onDisconnect` that a push spawned -/
  | closing
deriving DecidableEq, Repr

/-- The types of the frames that are pushed: `outbox_worker.cpp`,
    `gateway_push_service`, `doReadLoop` and `group_service`. -/
def pushTypes : List Int := [101, 104, 230, 251]

namespace Session

/-- A step of the main coroutine. -/
def mainStep (P : Parsers) (Q : Printers) (x : Session) (a : MainAction) : Option (Session × List Output) :=
  match x.main, a with
  | .reading, .frame bytes => some (x.doRead P bytes)
  | .reading, .readFailed => some (x.finish [])
  | .registering req, .registered answer => some (x.registered req answer)
  | .replying, .replied ok => some (if ok then x.finish [] else x.fail)
  | .loggingIn req, .loggedIn answer => some (x.loggedIn req answer)
  | .validating req, .validated answer => some (x.validated req answer)
  | .settingOnline req token, .setOnline => some (x.setOnline req token)
  | .fetching after, .fetched (.ok messages) =>
    some (x.goOn (Scan.fetched x.account x.disconnected after messages))
  | .fetching _, .fetched (.error what) => some (x.syncFailed what)
  | .delivering m rest .asked, .action => some (x.deliverAction Q m rest)
  | .delivering _ _ .failed, .delivered (.ok ()) => none
  | .delivering m rest _, .delivered (.ok ()) => some (x.goOn (Scan.delivered x.account x.disconnected m rest))
  | .delivering _ _ _, .delivered (.error what) => some (x.syncFailed what)
  | .waiting next, .timerFired => some (x.timerFired next)
  | _, _ => none

/-- A step of the read loop. -/
def readStep (P : Parsers) (Q : Printers) (C : Clients) (x : Session) (a : ReadAction) :
    Option (Session × List Output) :=
  match x.reader, a with
  | .reading, .frame bytes => some (x.doReadLoop P Q C bytes)
  | .reading, .readFailed => some x.stop
  | .heartbeat, .setOnline => some (x.read .reading [])
  | .sending requestId, .sent result => some (x.sent requestId result)
  | .acking ackType id rest failed, .acknowledged result => some (x.acknowledged ackType id rest failed result)
  | .pausing ackType id rest, .paused => some (x.ackMsg ackType id rest 1)
  | .executingGroup requestId, .groupExecuted answer => some (x.groupExecuted Q requestId answer)
  | .gettingHistory requestId, .historyGot result => some (x.historyGot requestId result)
  | .callingConversation type requestId, .conversationCalled result =>
    some (x.conversationCalled type requestId result)
  | .executingFriend type requestId, .friendExecuted (.ok reply) online =>
    some (x.friendExecuted Q type requestId reply online)
  | .executingFriend type requestId, .friendExecuted (.error _) _ =>
    some (x.friendExecuted Q type requestId friendUnavailable [])
  | _, _ => none

/-- A step of the session. -/
def step (P : Parsers) (Q : Printers) (C : Clients) (x : Session) : SessionAction → Option (Session × List Output)
  | .main a => x.mainStep P Q a
  | .loop a => x.readStep P Q C a
  | .drainStarted => if x.queue.any (·.drain = .starting) then some (x.drain, []) else none
  | .written =>
    match x.queue.map WriteQueue.drain with
    | some (.writing f) => some (x.drain, [.wrote f])
    | _ => none
  | .writeFailed =>
    match x.queue.map WriteQueue.drain with
    | some (.writing _) => some (x.drained, [])
    | _ => none
  | .push f => if f.type ∈ pushTypes then some (x.asyncSend f) else none
  | .closing => if x.closing then some ({ x.onDisconnect with closing := false }, []) else none

end Session

/-- The runs of a session. -/
abbrev SessionTrace (P : Parsers) (Q : Printers) (C : Clients) :=
  Machine.Trace (Session.step P Q C) ({} : Session)

/-! ### A library -/

/-- A message to account 7. -/
def fewMessage : MsgData := { sendID := 1, recvID := 7, serverMsgID := "m", sessionType := 1, seq := 3 }

/-- The library where `[1]` is a login to account 7, `[2]` acknowledges
    `fewMessage`, and `[3]` sends a message in the name of account 9. -/
def fewParsers : Parsers where
  request bytes := [([1], { account := 7, type := 101 }), ([2], { data := [2], type := 106 }),
    ([3], { data := [3], type := 101, account := 9 })].lookup bytes
  register _ := none
  send bytes := if bytes = [3] then some [{ sendID := 9, recvID := 3 }] else none
  ack bytes := if bytes = [2] then some { serverMsgIDs := ["m"], ackType := 2 } else none
  group _ := none
  history _ := none
  markRead _ := none
  updateSettings _ := none
  delete _ := none
  friend _ := none

def noPrinters : Printers := ⟨fun _ => [], fun _ => [], fun _ => []⟩

end ApeServer.WS
