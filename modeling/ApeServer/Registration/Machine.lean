/-
  Registration as a machine: calls of `register_user` and `refill_accounts`
  side by side, one statement a step.

  A transaction reads the committed tables and keeps its own writes to itself
  until `COMMIT` (isolation level `READ COMMITTED`).  What it writes, and what
  it reads `FOR UPDATE`, it has locked: a step that needs the lock of another
  transaction is not enabled.  Any statement may fail.  When the answer to a
  `COMMIT` is lost, the server still holds the transaction (`Call.limbo`) until
  it applies or drops it, which may be long after the call has gone on.

  * `Stage`, `RefillStage`: where `once` and `refill` are;
  * `stepOnce`, `stepRefill`: the statements;
  * `RegTrace`: the runs, from the seeded tables.
-/
import ApeServer.Registration.Schema
import ApeServer.Lib.Run

namespace ApeServer.Registration

open Table

/-! ## Calls -/

/-- What a transaction can lock: a request id, a row of the pool, an entry of
    the unique keys of `users`, the cursor. -/
inductive Lock where
  | request (requestID : String)
  | pool (id : ℕ)
  | phone (phone : String)
  | account (account : ℕ)
  | user (userID : ℕ)
  | cursor
deriving DecidableEq, Repr

/-- The transaction of `once`, named by what was done last. -/
inductive Stage where
  | start
  | opened
  | verified
  | phoneFree
  | picked (id account : ℕ)
  | inserted (id account userID : ℕ)
  | allocated (id account userID : ℕ)
  | filled (id account userID : ℕ)
deriving DecidableEq, Repr

/-- The transaction of `refill`; the last stage is its loop, with the rows it
    has inserted and the accounts that remain. -/
inductive RefillStage where
  | start
  | locked (start : ℕ)
  | counted (start : ℕ)
  | checked (start : ℕ)
  | inserting (finish : ℕ) (rows : List PoolRow) (rest : List ℕ)
deriving DecidableEq, Repr

/-- Where a call is.  `refill` belongs to a call of `register_user` with its
    input, or to none; `second` says that `create` has refilled. -/
inductive Phase where
  | idle
  | once (input : Input) (second : Bool) (attempt : ℕ) (stage : Stage)
  | classify (input : Input)
  | unsure (input : Input)
  | refill (input : Option Input) (batch attempt : ℕ) (stage : RefillStage)
  | returned (input : Input) (result : Result)
  | refilled
  | threw (input : Option Input) (e : Thrown)
deriving DecidableEq, Repr

/-- What a `COMMIT` makes durable. -/
inductive Write where
  | user (input : Input) (id account userID : ℕ)
  | accounts (finish : ℕ) (rows : List PoolRow)
deriving DecidableEq, Repr

structure Call where
  phase : Phase := .idle
  limbo : Option Write := none
deriving DecidableEq, Repr

/-- The committed tables, the locks with their owners, the calls, and the
    auto-increment counters, which no rollback takes back. -/
structure World where
  db : RegDb
  locks : Lock → Option ℕ := fun _ => none
  calls : ℕ → Call := fun _ => {}
  nextUserID : ℕ := 2
  nextPoolID : ℕ := 1

/-- The effect of a `COMMIT`. -/
def RegDb.apply (sha256 : String → Bytes) (db : RegDb) : Write → RegDb
  | .user input id account userID =>
    { db with
      users := db.users ++ [⟨userID, account, input.user.nickname, input.user.phone,
        input.user.passwordHash, input.user.passwordSalt⟩]
      pool := updateWhere (fun p => p.id = id && p.status = 0) (fun p => { p with status := 1 }) db.pool
      requests := updateWhere (fun r => r.requestID = input.requestID)
        (fun r => { r with userID := some userID, account := some account })
        (insertNew (fun r => r.requestID = input.requestID)
          ⟨input.requestID, input.user.passwordSalt,
            digest sha256 input.user.passwordSalt input.payload, none, none⟩ db.requests) }
  | .accounts finish rows => { db with pool := db.pool ++ rows, nextStart := finish }

namespace World

/-- The lock is free, or the call has it. -/
def available (w : World) (k : ℕ) (l : Lock) : Bool := w.locks l = none || w.locks l = some k

def acquire (w : World) (k : ℕ) (l : Lock) : World :=
  { w with locks := fun l' => if l' = l then some k else w.locks l' }

/-- The transaction of the call ends. -/
def release (w : World) (k : ℕ) : World :=
  { w with locks := fun l => if w.locks l = some k then none else w.locks l }

def setPhase (w : World) (k : ℕ) (phase : Phase) : World :=
  { w with calls := Function.update w.calls k { w.calls k with phase := phase } }

/-- The call goes on without its transaction. -/
def finish (w : World) (k : ℕ) (phase : Phase) : World := (w.release k).setPhase k phase

/-- `COMMIT`: its write is durable, or on its way when the answer is lost. -/
def commit (sha256 : String → Bytes) (w : World) (k : ℕ) (acked : Bool) (write : Write)
    (done lost : Phase) : World :=
  if acked then { w.finish k done with db := w.db.apply sha256 write }
  else { w with calls := Function.update w.calls k ⟨lost, some write⟩ }

/-- The server ends a transaction whose `COMMIT` was not answered. -/
def settle (sha256 : String → Bytes) (w : World) (k : ℕ) (applied : Bool) (write : Write) : World :=
  { w.release k with
    db := if applied then w.db.apply sha256 write else w.db
    calls := Function.update w.calls k { w.calls k with limbo := none } }

end World

/-! ## The statements -/

/-- What `once` throws when a `ROLLBACK` fails. -/
def rollbackFailed : RegError := ⟨"DB_ERROR", "Unable to release replay transaction"⟩

/-- `verify`. -/
def verified (sha256 : String → Bytes) (input : Input) (row : RequestRow) : Bool :=
  digest sha256 row.payloadSalt input.payload = row.payloadHash

/-- The result of a request, once both columns are filled. -/
def RequestRow.result? (row : RequestRow) : Option Result :=
  row.userID.bind fun userID => row.account.map fun account => ⟨userID, account⟩

/-- The row of the request, or the one that the transaction has inserted. -/
def requestRow (sha256 : String → Bytes) (db : RegDb) (input : Input) : RequestRow :=
  (db.request? input.requestID).getD ⟨input.requestID, input.user.passwordSalt,
    digest sha256 input.user.passwordSalt input.payload, none, none⟩

/-- The next statement of `once`; `rolledBack` is the success of the `ROLLBACK`
    of a branch that has one, `acked` says whether `COMMIT` was answered. -/
def stepOnce (sha256 : String → Bytes) (w : World) (k : ℕ) (rolledBack acked : Bool) (input : Input)
    (second : Bool) (attempt : ℕ) : Stage → Option World
  | .start =>
    -- `INSERT INTO registration_requests … ON DUPLICATE KEY UPDATE`
    if w.available k (.request input.requestID) then
      some ((w.acquire k (.request input.requestID)).setPhase k (.once input second attempt .opened))
    else none
  | .opened =>
    -- `SELECT … FROM registration_requests … FOR UPDATE`, `verify`
    let row := requestRow sha256 w.db input
    if verified sha256 input row then
      match row.result? with
      | some result =>
        if rolledBack then some (w.finish k (.returned input result))
        else some (w.finish k (.threw (some input) (.error rollbackFailed)))
      | none => some (w.setPhase k (.once input second attempt .verified))
    else some (w.finish k (.threw (some input) (.error conflict)))
  | .verified =>
    -- `SELECT user_id FROM users WHERE phone = …`
    if w.db.phoneExists input.user.phone then
      some (w.finish k (.threw (some input) (.error phoneTaken)))
    else some (w.setPhase k (.once input second attempt .phoneFree))
  | .phoneFree =>
    -- `SELECT … FROM account_pool … FOR UPDATE`
    match w.db.firstFree with
    | none =>
      if rolledBack then
        if second then
          some (w.finish k (.threw (some input) (.error
            ⟨"ACCOUNT_POOL_UNAVAILABLE", "No account available; retry the same request ID"⟩)))
        else some (w.finish k (.refill (some input) kRefillBatch 0 .start))
      else some (w.finish k (.threw (some input) (.error
        ⟨"DB_ERROR", "Unable to roll back empty-pool transaction"⟩)))
    | some p =>
      if !w.available k (.pool p.id) then none
      else if p.id = 0 ∨ p.account < kMinAccount ∨ kMaxAccount < p.account then
        some (w.finish k (.threw (some input) (.error
          ⟨"POOL_INCONSISTENT", "Invalid account pool record"⟩)))
      else some ((w.acquire k (.pool p.id)).setPhase k
        (.once input second attempt (.picked p.id p.account)))
  | .picked id account =>
    -- `INSERT INTO users`
    if !w.available k (.phone input.user.phone) || !w.available k (.account account) then none
    else if w.db.phoneExists input.user.phone || w.db.users.any fun u => u.account = account then
      some (w.finish k (.classify input))
    else if w.nextUserID = 0 then
      some (w.finish k (.threw (some input) (.error ⟨"SCHEMA_ERROR", "Missing inserted user ID"⟩)))
    else
      let w' := ((w.acquire k (.phone input.user.phone)).acquire k (.account account)).acquire k
        (.user w.nextUserID)
      some ({ w' with nextUserID := w.nextUserID + 1 }.setPhase k
        (.once input second attempt (.inserted id account w.nextUserID)))
  | .inserted id account userID =>
    -- `UPDATE account_pool SET status = 1 WHERE id = … AND status = 0`
    if w.db.pool.any fun p => p.id = id && p.status = 0 then
      some (w.setPhase k (.once input second attempt (.allocated id account userID)))
    else some (w.finish k (.threw (some input) (.error
      ⟨"POOL_INCONSISTENT", "Account allocation did not update one row"⟩)))
  | .allocated id account userID =>
    -- `UPDATE registration_requests SET user_id = …, account = …`
    some (w.setPhase k (.once input second attempt (.filled id account userID)))
  | .filled id account userID =>
    some (w.commit sha256 k acked (.user input id account userID)
      (.returned input ⟨userID, account⟩) (.unsure input))

/-- How `refill` goes on after it returned: `create` calls `once` again. -/
def afterRefill : Option Input → Phase
  | some input => .once input true 0 .start
  | none => .refilled

/-- The next statement of `refill`; `accounts` is the shuffled batch. -/
def stepRefill (sha256 : String → Bytes) (w : World) (k : ℕ) (rolledBack acked : Bool)
    (accounts : List ℕ) (input : Option Input) (batch attempt : ℕ) : RefillStage → Option World
  | .start =>
    if batch = 0 ∨ kRefillBatch < batch then
      some (w.finish k (.threw input (.error
        ⟨"REFILL_INVALID_PARAM", "Invalid account refill batch size"⟩)))
    -- `SELECT next_start FROM account_pool_cursor … FOR UPDATE`
    else if w.available k .cursor then
      some ((w.acquire k .cursor).setPhase k (.refill input batch attempt (.locked w.db.nextStart)))
    else none
  | .locked start =>
    if kLowWaterMark ≤ w.db.freeCount then
      if rolledBack then some (w.finish k (afterRefill input))
      else some (w.finish k (.threw input (.error
        ⟨"DB_ERROR", "Unable to release refill transaction"⟩)))
    else some (w.setPhase k (.refill input batch attempt (.counted start)))
  | .counted start =>
    -- `SELECT MAX(account)`, which `number` reads
    match w.db.maximum with
    | none =>
      some (w.finish k (.threw input (.error
        ⟨"SCHEMA_ERROR", "Expected a nonnegative integer at refill.greatest_max"⟩)))
    | some maximum =>
      if start < kMinAccount ∨ start ≤ maximum then
        some (w.finish k (.threw input (.error
          ⟨"POOL_INCONSISTENT", "Cursor overlaps existing accounts; run migration preflight"⟩)))
      else if kMaxAccount < start then
        some (w.finish k (.threw input (.error
          ⟨"ACCOUNT_RANGE_EXHAUSTED", "Account number range exhausted"⟩)))
      else some (w.setPhase k (.refill input batch attempt (.checked start)))
  | .checked start =>
    -- `UPDATE account_pool_cursor`, and `generate_shuffled_batch`
    let count := min batch (kMaxAccount - start + 1)
    if accounts.Perm (List.range' start count) then
      some (w.setPhase k (.refill input batch attempt (.inserting (start + count) [] accounts)))
    else none
  | .inserting finish rows [] =>
    some (w.commit sha256 k acked (.accounts finish rows) (afterRefill input)
      (.threw input (.error ⟨"REFILL_UNCERTAIN",
        "Refill outcome unknown; retry registration with the same request ID"⟩)))
  | .inserting finish rows rest =>
    -- `INSERT INTO account_pool … VALUES`, a thousand rows at a time
    let new := (rest.take 1000).zipIdx w.nextPoolID |>.map fun (account, id) => ⟨id, account, 0⟩
    if w.db.pool.any fun p => rest.take 1000 |>.contains p.account then
      some (w.finish k (.threw input (.sql .duplicate)))
    else some ({ w with nextPoolID := w.nextPoolID + (rest.take 1000).length }.setPhase k
      (.refill input batch attempt (.inserting finish (rows ++ new) (rest.drop 1000))))

/-- The statement that was to come next fails with `e`. -/
def failOnce (w : World) (k : ℕ) (e : SqlError) (rolledBack : Bool) (input : Input) (second : Bool)
    (attempt : ℕ) : World :=
  if rolledBack && (e = .lockWait || e = .deadlock) then
    if attempt < 2 then w.finish k (.once input second (attempt + 1) .start)
    else w.finish k (.threw (some input) (.error
      ⟨"REGISTRATION_BUSY", "Registration is busy; retry the same request ID"⟩))
  else w.finish k (.threw (some input) (.sql e))

def failRefill (w : World) (k : ℕ) (e : SqlError) (rolledBack : Bool) (input : Option Input)
    (batch attempt : ℕ) : World :=
  if rolledBack && (e = .lockWait || e = .deadlock) then
    if attempt < 2 then w.finish k (.refill input batch (attempt + 1) .start)
    else w.finish k (.threw input (.error ⟨"REGISTRATION_BUSY", "Account refill is busy"⟩))
  else w.finish k (.threw input (.sql e))

/-- `lookup`, with its exceptions dropped; `ok` says that its statement worked. -/
def lookup (sha256 : String → Bytes) (db : RegDb) (input : Input) (ok : Bool) : Option Result :=
  if ok then
    (db.request? input.requestID).bind fun row =>
      if verified sha256 input row then row.result? else none
  else none

/-! ## The system -/

inductive Action where
  /-- `register_user` is called -/
  | register (k : ℕ) (input : Input)
  /-- `refill_accounts` is called -/
  | refillAccounts (k batch : ℕ)
  /-- the next statement of the call -/
  | run (k : ℕ) (rolledBack acked : Bool) (accounts : List ℕ)
  /-- it fails; a duplicate key is an outcome of `run` -/
  | fail (k : ℕ) (e : SqlError) (rolledBack : Bool)
  /-- the server ends a transaction in limbo -/
  | settle (k : ℕ) (applied : Bool)
deriving DecidableEq, Repr

/-- The next statement of a call; `rolledBack` says that the one of `classify` or
    `lookup` worked. -/
def runCall (sha256 : String → Bytes) (w : World) (k : ℕ) (rolledBack acked : Bool)
    (accounts : List ℕ) : Phase → Option World
  | .once input second attempt stage =>
    stepOnce sha256 w k rolledBack acked input second attempt stage
  | .refill input batch attempt stage =>
    stepRefill sha256 w k rolledBack acked accounts input batch attempt stage
  | .classify input =>
    some (w.setPhase k (.threw (some input)
      (if !rolledBack then .sql .other
      else if w.db.phoneExists input.user.phone then .error phoneTaken
      else .error ⟨"POOL_INCONSISTENT", "Account uniqueness conflict; inspect account pool"⟩)))
  | .unsure input =>
    match lookup sha256 w.db input rolledBack with
    | some result => some (w.setPhase k (.returned input result))
    | none => some (w.setPhase k (.threw (some input) (.error uncertain)))
  | _ => none

/-- A statement of a call fails. -/
def failCall (w : World) (k : ℕ) (e : SqlError) (rolledBack : Bool) : Phase → Option World
  | .once _ _ _ (.filled _ _ _) => none
  | .once input second attempt _ => some (failOnce w k e rolledBack input second attempt)
  | .refill _ _ _ (.inserting _ _ []) => none
  | .refill input batch attempt _ => some (failRefill w k e rolledBack input batch attempt)
  | _ => none

/-- One step of registration. -/
def step (sha256 : String → Bytes) (w : World) : Action → Option (World × List Unit)
  | .register k input =>
    if (w.calls k).phase = .idle then some (w.setPhase k (.once input false 0 .start), []) else none
  | .refillAccounts k batch =>
    if (w.calls k).phase = .idle then some (w.setPhase k (.refill none batch 0 .start), []) else none
  | .run k rolledBack acked accounts =>
    (runCall sha256 w k rolledBack acked accounts (w.calls k).phase).map fun w' => (w', [])
  | .fail k e rolledBack =>
    if e = .duplicate then none
    else (failCall w k e rolledBack (w.calls k).phase).map fun w' => (w', [])
  | .settle k applied =>
    (w.calls k).limbo.map fun write => (w.settle sha256 k applied write, [])

/-- The runs of registration. -/
abbrev RegTrace (sha256 : String → Bytes) :=
  Machine.Trace (step sha256) ({ db := .seeded } : World)

end ApeServer.Registration
