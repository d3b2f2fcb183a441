/-
  `group_storage::perform` and the transaction around it.

  Every command is one transaction.  A mutation first writes its row of the
  ledger, whose lock makes other commands with the same key wait; the commands
  on a group lock its row before they read anything of the group.  So
  transactions are ordered by their locks, and `executeOnPool` runs as a whole,
  except that any of its statements may fail, and then nothing of it is left.

  `Collations` compares client ids the way their columns do.
-/
import ApeServer.Lib.Txn
import ApeServer.Lib.Run
import ApeServer.Group.Schema

namespace ApeServer.Group

open Table Txn

/-- What a command draws from outside: the next Snowflake id, a UUID, and the
    time. -/
structure Source where
  snowflake : ℕ
  uuid : String
  now : Int
deriving DecidableEq, Repr

/-- When the columns of client ids take two texts for equal: each table has the
    collation of its own charset. -/
structure Collations where
  /-- `im_group_requests`, `CHARSET=ascii` -/
  requests : String → String → Bool
  /-- `im_group_messages`, `CHARSET=utf8mb4` -/
  messages : String → String → Bool

/-- A part of a group transaction. -/
abbrev Stmt (α : Type) := Txn GroupDb Unit GroupError α

/-- What `ExecuteGroupCommand` makes of a failure of the database. -/
def databaseError : GroupError := ⟨"DB_ERROR", "群服务暂时不可用，请稍后重试"⟩

/-- A statement without an answer. -/
def update (f : GroupDb → GroupDb) : Stmt Unit := exec fun db => ((), f db)

/-- An `INSERT` that a unique key may refuse. -/
def insert (taken : GroupDb → Bool) (f : GroupDb → GroupDb) : Stmt Unit :=
  attempt databaseError fun db => if taken db then none else some ((), f db)

/-! ## Rows as messages -/

/-- `groupRow`. -/
def groupRow (r : GroupRow) : Info where
  id := Nat.repr r.id
  name := r.name
  owner := r.owner
  memberCount := r.memberCount
  dismissed := r.dismissed
  lastSeq := r.lastSeq
  large := 200 < r.memberCount

/-- `messageRow`. -/
def messageRow (r : MessageRow) : Message where
  groupID := Nat.repr r.group
  seq := r.seq
  id := r.id
  clientID := r.clientID
  sender := r.sender
  nickname := r.nickname
  text := r.text
  time := r.time

namespace GroupDb

/-- `SELECT … FROM im_groups WHERE id = …`. -/
def group? (db : GroupDb) (id : ℕ) : Option GroupRow := db.groups.find? fun g => g.id = id

/-- `SELECT … FROM im_group_members WHERE group_id = … AND account = …`. -/
def member? (db : GroupDb) (id : ℕ) (account : Account) : Option MemberRow :=
  db.members.find? fun m => m.group = id && m.account = account

/-- `SELECT nickname FROM users`. -/
def user? (db : GroupDb) (account : Account) : Option UserRow :=
  db.users.find? fun u => u.account = account

/-- `SELECT number FROM im_group_numbers`. -/
def number? (db : GroupDb) (id : ℕ) : Option NumberRow := db.numbers.find? fun n => n.group = id

/-- `UPDATE im_groups SET … WHERE id = …`. -/
def updateGroup (db : GroupDb) (id : ℕ) (f : GroupRow → GroupRow) : GroupDb :=
  { db with groups := updateWhere (fun g => g.id = id) f db.groups }

/-- `UPDATE im_group_members SET … WHERE group_id = … AND account = …`. -/
def updateMember (db : GroupDb) (id : ℕ) (account : Account) (f : MemberRow → MemberRow) : GroupDb :=
  { db with members := updateWhere (fun m => m.group = id && m.account = account) f db.members }

/-- `UPDATE im_groups SET member_count = (SELECT COUNT(*) …)`. -/
def recount (db : GroupDb) (id : ℕ) : GroupDb :=
  db.updateGroup id fun g =>
    { g with memberCount := (db.members.filter fun m => m.group = id && m.active).length }

/-- The member row after `INSERT … ON DUPLICATE KEY UPDATE`, whose assignments
    read `active` before it is set. -/
def rejoin (lastSeq : ℕ) (m : MemberRow) : MemberRow :=
  { m with
    epoch := if m.active then m.epoch else m.epoch + 1
    joinSeq := if m.active then m.joinSeq else lastSeq
    ackSeq := if m.active then m.ackSeq else lastSeq
    readSeq := if m.active then m.readSeq else lastSeq
    active := true }

/-- A member enters the group at `lastSeq`. -/
def join (db : GroupDb) (id : ℕ) (account : Account) (lastSeq : ℕ) : GroupDb :=
  { db with
    members := upsert (fun m => m.group = id && m.account = account) (rejoin lastSeq)
      { group := id, account := account, joinSeq := lastSeq, ackSeq := lastSeq, readSeq := lastSeq }
      db.members }

/-- `UPDATE im_group_applications SET status = … WHERE …`. -/
def setStatus (db : GroupDb) (p : ApplicationRow → Bool) (status : ℕ) : GroupDb :=
  { db with applications := updateWhere p (fun a => { a with status := status }) db.applications }

end GroupDb

/-! ## Parts of `perform` -/

/-- `allocateGroupNumber`. -/
def allocateGroupNumber (id : ℕ) : Stmt ℕ := do
  let value ← query (·.nextNumber)
  if 9999999999 < value then fail ⟨"GROUP_NUMBER_EXHAUSTED", "群号已用尽"⟩
  else
    insert (fun db => db.numbers.any fun n => n.group = id || n.number = value)
      fun db => { db with numbers := db.numbers ++ [⟨id, value⟩] }
    update fun db => { db with nextNumber := value + 1 }
    pure value

/-- The messages of others after a position. -/
def unreadCount (db : GroupDb) (id first : ℕ) (actor : Account) : ℕ :=
  (db.messages.filter fun m => m.group = id && first < m.seq && m.sender ≠ actor).length

/-- The group with its public number, if it has one. -/
def withNumber (g : Info) : Option NumberRow → Info
  | some n => { g with number := Nat.repr n.number }
  | none => g

/-- `memberState`: the actor's view of the group `id`. -/
def memberState (g : Info) (id : ℕ) (actor : Account) : Stmt Info := do
  let publicNumber ← query (·.number? id)
  let g := withNumber g publicNumber
  let row ← query (·.member? id actor)
  match row with
  | none => pure g
  | some m =>
    let g : Info := { g with
      joined := m.active && !g.dismissed
      joinSeq := m.joinSeq
      readSeq := m.readSeq
      epoch := m.epoch }
    if g.joined then
      let unread ← query fun db => unreadCount db id (max g.joinSeq g.readSeq) actor
      pure { g with unread := unread }
    else pure g

/-- The groups of a list, each with the actor's view. -/
def memberStates (actor : Account) : List GroupRow → Stmt (List Info)
  | [] => pure []
  | r :: rs => do
    let g ← memberState (groupRow r) r.id actor
    let gs ← memberStates actor rs
    pure (g :: gs)

/-- The cursor after a page: the key of its last row. -/
def pageCursor {α : Type} (key : α → ℕ) (start : ℕ) (rows : List α) : ℕ :=
  (rows.getLast?.map key).getD start

/-- `MyApplications`. -/
def myApplications (cmd : Command) (nickname : String) (limit : ℕ) (reply : Reply) : Stmt Reply := do
  let rows ← query fun db => orderLimit (·.1.id) (limit + 1)
    ((db.applications.filter fun a => a.account = cmd.actor && cmd.after < a.id).filterMap fun a =>
      match db.group? a.group, db.number? a.group with
      | some g, some n => some (a, g, n)
      | _, _ => none)
  let page := rows.take limit
  pure { reply with
    hasMore := limit < rows.length
    applications := page.map fun (a, g, n) =>
      { id := a.id, groupID := Nat.repr a.group, groupName := g.name, groupNumber := Nat.repr n.number,
        account := cmd.actor, nickname := nickname, reason := a.reason, status := a.status, time := a.time }
    cursor := pageCursor (·.1.id) 0 page }

/-- `List`. -/
def listGroups (cmd : Command) (limit : ℕ) (reply : Reply) : Stmt Reply := do
  let rows ← query fun db => orderLimit (·.id) (limit + 1) (db.groups.filter fun g =>
    cmd.after < g.id && db.members.any fun m => m.group = g.id && m.account = cmd.actor)
  let page := rows.take limit
  let groups ← memberStates cmd.actor page
  pure { reply with
    hasMore := limit < rows.length
    groups := groups
    cursor := pageCursor (·.id) 0 page }

/-- `Create`. -/
def createGroup (S : Source) (cmd : Command) (reply : Reply) : Stmt Reply := do
  if cmd.text = "" ∨ 256 < cmd.text.utf8ByteSize then
    fail ⟨"INVALID_NAME", "群名不能为空且不能超过256字节"⟩
  else
    let id := S.snowflake
    insert (fun db => db.groups.any fun g => g.id = id) fun db =>
      { db with groups := db.groups ++ [{ id := id, name := cmd.text, owner := cmd.actor }] }
    let _ ← allocateGroupNumber id
    insert (fun db => db.members.any fun m => m.group = id && m.account = cmd.actor) fun db =>
      { db with members := db.members ++ [{ group := id, account := cmd.actor }] }
    let row ← query (·.group? id)
    match row with
    | none => fail databaseError
    | some r =>
      let g ← memberState (groupRow r) id cmd.actor
      pure { reply with groups := [g], groupID := g.id }

/-- `Search`, before the group is locked: a public number names its group. -/
def searchId (cmd : Command) (id : ℕ) : Stmt ℕ := do
  let lookup ← query fun db => db.numbers.find? fun n => n.number = id
  match lookup with
  | some n => pure n.group
  | none =>
    if cmd.groupID.utf8ByteSize ≤ 10 then fail ⟨"GROUP_NOT_FOUND", "未找到该群号"⟩ else pure id

/-- `Apply`. -/
def applyToGroup (S : Source) (cmd : Command) (id : ℕ) (reply : Reply) : Stmt Reply := do
  let pending ← query fun db =>
    db.applications.any fun a => a.group = id && a.account = cmd.actor && a.status = 0
  if pending then pure reply
  else
    update fun db => { db with
      applications := db.applications ++ [⟨db.nextApplicationId, id, cmd.actor, cmd.text, 0, S.now⟩]
      nextApplicationId := db.nextApplicationId + 1 }
    pure reply

/-- `Members`. -/
def listMembers (cmd : Command) (id : ℕ) (g : Info) (limit : ℕ) (reply : Reply) : Stmt Reply := do
  let rows ← query fun db => orderLimit (·.1.toNat) (limit + 1)
    ((db.members.filter fun m => m.group = id && m.active && cmd.after < m.account.toNat).filterMap
      fun m => (db.user? m.account).map fun u => (m.account, u.nickname))
  let page := rows.take limit
  pure { reply with
    hasMore := limit < rows.length
    members := page.map fun (account, nickname) => ⟨account, nickname, account = g.owner⟩
    cursor := pageCursor (·.1.toNat) 0 page }

/-- `Applications`. -/
def listApplications (cmd : Command) (id : ℕ) (g : Info) (limit : ℕ) (reply : Reply) : Stmt Reply := do
  let rows ← query fun db => orderLimit (·.1.id) (limit + 1)
    ((db.applications.filter fun a => a.group = id && cmd.after < a.id && a.status = 0).filterMap
      fun a => (db.user? a.account).map fun u => (a, u.nickname))
  let page := rows.take limit
  pure { reply with
    hasMore := limit < rows.length
    applications := page.map fun (a, nickname) =>
      { id := a.id, groupID := g.id, account := a.account, nickname := nickname, reason := a.reason,
        status := a.status, time := a.time }
    cursor := pageCursor (·.1.id) 0 page }

/-- `Review`. -/
def reviewApplication (cmd : Command) (id : ℕ) (g : Info) (reply : Reply) : Stmt Reply := do
  let verdict := if cmd.accept then 1 else 2
  let row ← query fun db => db.applications.find? fun a => a.id = cmd.applicationID && a.group = id
  match row with
  | none => fail ⟨"APPLICATION_NOT_FOUND", "申请不存在"⟩
  | some a =>
    if a.status ≠ 0 ∧ a.status ≠ verdict then fail ⟨"APPLICATION_HANDLED", "申请已处理"⟩
    else if a.status ≠ 0 then pure reply
    else if cmd.accept then
      update (·.join id a.account g.lastSeq)
      update (·.recount id)
      update (·.setStatus (fun a => a.id = cmd.applicationID) verdict)
      pure reply
    else
      update (·.setStatus (fun a => a.id = cmd.applicationID) verdict)
      pure reply

/-- `Rename`. -/
def renameGroup (cmd : Command) (id : ℕ) (g : Info) (reply : Reply) : Stmt Reply := do
  if cmd.text = "" ∨ 256 < cmd.text.utf8ByteSize then
    fail ⟨"INVALID_NAME", "群名不能为空且不能超过256字节"⟩
  else if cmd.text = g.name then fail ⟨"NAME_UNCHANGED", "新群名称不能与当前名称相同"⟩
  else
    update (·.updateGroup id fun g => { g with name := cmd.text })
    pure reply

/-- `Leave` and `Kick`. -/
def removeMember (target : Account) (id : ℕ) (g : Info) (reply : Reply) : Stmt Reply := do
  if target = g.owner then fail ⟨"OWNER_CANNOT_LEAVE", "群主不能退出或被踢出，请解散群"⟩
  else
    update (·.updateMember id target fun m => { m with active := false })
    update (·.recount id)
    pure reply

/-- `Dismiss`. -/
def dismissGroup (id : ℕ) (reply : Reply) : Stmt Reply := do
  update (·.updateGroup id fun g => { g with dismissed := true })
  update (·.setStatus (fun a => a.group = id && a.status = 0) 3)
  pure reply

/-- `Send`. -/
def sendMessage (C : Collations) (S : Source) (cmd : Command) (nickname : String) (id : ℕ)
    (g : Info) (reply : Reply) : Stmt Reply := do
  if cmd.text = "" then fail ⟨"EMPTY_MESSAGE", "消息不能为空"⟩
  else
    let old ← query fun db => db.messages.find? fun m =>
      m.group = id && m.sender = cmd.actor && C.messages m.clientID cmd.clientID
    match old with
    | some m =>
      if m.text ≠ cmd.text then fail ⟨"IDEMPOTENCY_CONFLICT", "消息标识重复且内容不同"⟩
      else pure { reply with messages := [messageRow m] }
    | none =>
      let m : MessageRow :=
        ⟨id, g.lastSeq + 1, S.uuid, cmd.clientID, cmd.actor, nickname, cmd.text, S.now⟩
      insert (fun db => db.messages.any fun m' => (m'.group = id && m'.seq = m.seq) || m'.id = m.id ||
          (m'.group = id && m'.sender = m.sender && C.messages m'.clientID m.clientID))
        fun db => { db with messages := db.messages ++ [m] }
      update (·.updateGroup id fun g => { g with lastSeq := m.seq })
      pure { reply with messages := [messageRow m] }

/-- `Pull`. -/
def pullMessages (cmd : Command) (id : ℕ) (g : Info) (limit : ℕ) (reply : Reply) : Stmt Reply := do
  let snapshot := if cmd.snapshot ≠ 0 then min cmd.snapshot g.lastSeq else g.lastSeq
  let after := max cmd.after g.joinSeq
  let rows ← query fun db => orderLimit (·.seq) (limit + 1)
    (db.messages.filter fun m => m.group = id && after < m.seq && m.seq ≤ snapshot)
  let page := rows.take limit
  pure { reply with
    snapshot := snapshot
    hasMore := limit < rows.length
    messages := page.map messageRow
    cursor := pageCursor (·.seq) after page }

/-- `Ack` and `Read`; `f` raises one of the two positions. -/
def advance (f : ℕ → MemberRow → MemberRow) (cmd : Command) (id : ℕ) (g : Info) (reply : Reply) :
    Stmt Reply := do
  if g.lastSeq < cmd.after then fail ⟨"INVALID_SEQ", "无效消息进度"⟩
  else
    update (·.updateMember id cmd.actor (f (max cmd.after g.joinSeq)))
    pure reply

/-! ## `perform` -/

/-- The operations from `List` to `MyApplications`. -/
def Operation.recognized : Operation → Bool
  | unrecognized _ => false
  | _ => true

/-- The operations that go through the ledger. -/
def Operation.mutation : Operation → Bool
  | create | apply | review | rename | leave | kick | dismiss | send => true
  | _ => false

/-- The operations of the owner. -/
def Operation.ownerOnly : Operation → Bool
  | applications | review | rename | kick | dismiss => true
  | _ => false

/-- The operations on a group the actor is in. -/
def memberCommand (C : Collations) (S : Source) (cmd : Command) (nickname : String)
    (limit id : ℕ) (g : Info) (reply : Reply) : Stmt Reply :=
  match cmd.operation with
  | .members => listMembers cmd id g limit reply
  | .applications => listApplications cmd id g limit reply
  | .review => reviewApplication cmd id g reply
  | .rename => renameGroup cmd id g reply
  | .leave => removeMember cmd.actor id g reply
  | .kick => removeMember cmd.target id g reply
  | .dismiss => dismissGroup id reply
  | .send => sendMessage C S cmd nickname id g reply
  | .pull => pullMessages cmd id g limit reply
  | .ack => advance (fun seq m => { m with ackSeq := max m.ackSeq seq }) cmd id g reply
  | .read => advance (fun seq m => { m with readSeq := max m.readSeq seq }) cmd id g reply
  | _ => pure reply

/-- The operations on a group, once it is locked. -/
def lockedCommand (C : Collations) (S : Source) (cmd : Command) (nickname : String)
    (limit id : ℕ) (g : Info) (reply : Reply) : Stmt Reply :=
  if cmd.operation = .search then pure { reply with groupID := g.id, groups := [g] }
  else if g.dismissed then
    if cmd.operation = .dismiss ∧ g.owner = cmd.actor then pure reply
    else fail ⟨"GROUP_DISMISSED", "群已解散"⟩
  else if cmd.operation = .apply then
    if g.joined then fail ⟨"ALREADY_JOINED", "你已在群内"⟩ else applyToGroup S cmd id reply
  else if !g.joined then
    if cmd.operation = .leave then pure reply else fail ⟨"NOT_MEMBER", "你已不在群内"⟩
  else if cmd.epoch ≠ 0 ∧ cmd.epoch ≠ g.epoch then
    fail ⟨"MEMBERSHIP_CHANGED", "成员身份已变化，请刷新"⟩
  else if cmd.operation.ownerOnly ∧ g.owner ≠ cmd.actor then
    fail ⟨"OWNER_REQUIRED", "仅群主可以执行此操作"⟩
  else memberCommand C S cmd nickname limit id g reply

/-- The operations on a group whose row was read `FOR UPDATE`. -/
def foundGroup (C : Collations) (S : Source) (cmd : Command) (nickname : String)
    (limit id : ℕ) (reply : Reply) : Option GroupRow → Stmt Reply
  | none => fail ⟨"GROUP_NOT_FOUND", "群不存在"⟩
  | some r => do
    let g ← memberState (groupRow r) id cmd.actor
    lockedCommand C S cmd nickname limit id g { reply with epoch := g.epoch }

/-- The operations that name a group. -/
def groupCommand (C : Collations) (S : Source) (cmd : Command) (nickname : String)
    (limit : ℕ) (reply : Reply) : Stmt Reply :=
  match groupId cmd.groupID with
  | .error e => fail e
  | .ok number => do
    let id ← if cmd.operation = .search then searchId cmd number else pure number
    let row ← query (·.group? id)
    foundGroup C S cmd nickname limit id reply row

/-- `perform`. -/
def perform (C : Collations) (S : Source) (cmd : Command) : Stmt Reply := do
  let reply : Reply := { errorCode := "0", groupID := cmd.groupID }
  if cmd.actor = 0 ∨ !cmd.operation.recognized then fail ⟨"INVALID_PARAM", "无效群操作"⟩
  else if (if cmd.operation = .send then 65536 else 512) < cmd.text.utf8ByteSize then
    fail ⟨"INVALID_PARAM", "内容过长"⟩
  else
    let limit := max 1 (min cmd.limit (if cmd.operation = .pull then 50 else 100))
    let user ← query (·.user? cmd.actor)
    match user with
    | none => fail ⟨"INVALID_ACCOUNT", "账号不存在"⟩
    | some u =>
      match cmd.operation with
      | .myApplications => myApplications cmd u.nickname limit reply
      | .list => listGroups cmd limit reply
      | .create => createGroup S cmd reply
      | _ => groupCommand C S cmd u.nickname limit reply

/-! ## The ledger -/

namespace GroupDb

/-- The key of a ledger row. -/
def requestKey (C : Collations) (cmd : Command) (r : RequestRow) : Bool :=
  r.actor = cmd.actor && C.requests r.clientID cmd.clientID

/-- `INSERT INTO im_group_requests … ON DUPLICATE KEY UPDATE`, which keeps a
    row that is there. -/
def openRequest (C : Collations) (cmd : Command) (payload : String) (db : GroupDb) :
    GroupDb :=
  { db with
    requests := insertNew (requestKey C cmd) ⟨cmd.actor, cmd.clientID, payload, ""⟩ db.requests }

/-- `UPDATE im_group_requests SET reply = …`; `perform` has run. -/
def closeRequest (C : Collations) (cmd : Command) (reply : Reply) (text : String)
    (db : GroupDb) : GroupDb :=
  { db with
    requests := updateWhere (requestKey C cmd) (fun r => { r with reply := text }) db.requests
    executed := db.executed ++ [(cmd, reply)] }

end GroupDb

/-- The reply of an earlier commit. -/
def savedReply (W : Wire) (text : String) : Except GroupError Reply :=
  match unhex text with
  | .error e => .error e
  | .ok bytes =>
    match W.parseReply bytes with
    | none => .error ⟨"CACHE_ERROR", "无法恢复请求结果"⟩
    | some reply => .ok reply

/-- `executeOnPool` of a mutation whose ledger row was read. -/
def requestCommand (C : Collations) (W : Wire) (S : Source) (cmd : Command) :
    Option RequestRow → Stmt Reply
  | none => fail databaseError
  | some row =>
    if row.payload ≠ hex (W.command cmd) then
      fail ⟨"IDEMPOTENCY_CONFLICT", "请求标识重复且内容不同"⟩
    else if row.reply ≠ "" then
      match savedReply W row.reply with
      | .error e => fail e
      | .ok reply => pure reply
    else do
      let reply ← perform C S cmd
      update (GroupDb.closeRequest C cmd reply (hex (W.reply reply)))
      pure reply

/-- `executeOnPool`, between `START TRANSACTION` and `COMMIT`. -/
def executeOnPool (C : Collations) (W : Wire) (S : Source) (cmd : Command) :
    Stmt Reply := do
  if !cmd.operation.mutation then perform C S cmd
  else if cmd.actor = 0 ∨ cmd.clientID = "" ∨ 64 < cmd.clientID.utf8ByteSize then
    fail ⟨"INVALID_REQUEST_ID", "缺少有效请求标识"⟩
  else
    update (GroupDb.openRequest C cmd (hex (W.command cmd)))
    let old ← query fun db => db.requests.find? (GroupDb.requestKey C cmd)
    requestCommand C W S cmd old

/-- What `ExecuteGroupCommand` answers. -/
def answer : Except (Failure GroupError) Reply → Reply
  | .ok reply => reply
  | .error .fault => { errorCode := databaseError.code, errorMessage := databaseError.message }
  | .error (.error e) => { errorCode := e.code, errorMessage := e.message }

/-! ## Delivery -/

/-- `buildDelivery`, under the lock of the group and the member. -/
def buildDelivery (db : GroupDb) (actor : Account) (id : ℕ) : Notice :=
  match db.group? id, db.member? id actor with
  | some g, some m =>
    if m.active && !g.dismissed then
      { groupID := Nat.repr id
        lastSeq := g.lastSeq
        epoch := m.epoch
        messages :=
          if g.memberCount ≤ 200 then
            (orderLimit (·.seq) 20 (db.messages.filter fun r => r.group = id && m.ackSeq < r.seq)).map
              messageRow
          else [] }
    else {}
  | _, _ => {}

/-! ## The system -/

inductive Action where
  /-- a command arrives and its transaction runs; its `COMMIT` may lose its answer -/
  | execute (cmd : Command) (S : Source) (lost : Bool) (fuel : ℕ)
  /-- `WithGroupDelivery` -/
  | deliver (actor : Account) (group : String)
  | register (u : UserRow)
deriving DecidableEq, Repr

inductive Event where
  /-- `ExecuteGroupCommand` answered -/
  | replied (cmd : Command) (reply : Reply)
  /-- a notice was pushed -/
  | noticed (actor : Account) (notice : Notice)
deriving DecidableEq, Repr

/-- One step of the group service. -/
def step (C : Collations) (W : Wire) (db : GroupDb) :
    Action → Option (GroupDb × List Event)
  | .execute cmd S lost fuel =>
    let r := transaction (executeOnPool C W S cmd) lost db () fuel
    some (r.2.1, [.replied cmd (answer r.1)])
  | .deliver actor group =>
    match groupId group with
    | .error _ => some (db, [])
    | .ok id =>
      if (buildDelivery db actor id).groupID = "" then some (db, [])
      else some (db, [.noticed actor (buildDelivery db actor id)])
  | .register u => some ({ db with users := db.users ++ [u] }, [])

/-- The runs of the group service, from empty tables. -/
abbrev GroupTrace (C : Collations) (W : Wire) :=
  Machine.Trace (step C W) ({} : GroupDb)

end ApeServer.Group
