/-
  Friend commands (`mutate` and `ExecuteFriendCommand` of
  `src/storage/mysqlhandler.cpp`).

  `friendStart` is what a command does before its transaction: the checks,
  and for `HandleApplication` the read of the application that gives the other
  account.  `mutate` is the transaction under the lock of the pair.  Only a
  `DeleteFriend` that removes rows draws a Snowflake id, the new deletion
  watermark.
-/
import ApeServer.Conversations
import ApeServer.Outbox

namespace ApeServer

open Table

/-- The commands of `friendpb::Operation` that change tables. -/
inductive FriendOp where
  | apply
  | handleApplication
  | deleteFriend
deriving DecidableEq, Repr

structure FriendCommand where
  actor : Account
  operation : FriendOp
  target : Account := 0
  applicationID : ℕ := 0
  message : String := ""
  accept : Bool := false
deriving DecidableEq, Repr

structure FriendError where
  code : String
  what : String
deriving DecidableEq, Repr

/-- `friendpb::Application`. -/
structure ApplicationView where
  id : ℕ
  sender : UserRow
  recipient : UserRow
  message : String
  status : ℕ
  createdTime : Int
  handledTime : Int
deriving DecidableEq, Repr

/-- The fields of `friendpb::Reply` that `mutate` fills. -/
structure FriendReply where
  applications : List ApplicationView := []
  changedAccounts : List Account := []
deriving DecidableEq, Repr

namespace Db

/-- `user`. -/
def user (db : Db) (account : Account) : Except FriendError UserRow :=
  match db.users.find? fun u => u.account = account with
  | some u => .ok u
  | none => .error ⟨"USER_NOT_FOUND", "User does not exist"⟩

/-- `application`. -/
def application (db : Db) (id : ℕ) : Except FriendError ApplicationView :=
  match db.applications.find? fun a => a.id = id with
  | none => .error ⟨"APPLICATION_NOT_FOUND", "Application does not exist"⟩
  | some a => do
    let sender ← db.user a.fromAccount
    let recipient ← db.user a.toAccount
    return ⟨a.id, sender, recipient, a.message, a.status, a.createdTime, a.handledTime⟩

/-- The other account of a command: for `HandleApplication` the sender of the
    application, which only its recipient may handle. -/
def friendTarget (db : Db) (cmd : FriendCommand) : Except FriendError Account :=
  match cmd.operation with
  | .handleApplication => do
    let existing ← db.application cmd.applicationID
    if existing.recipient.account ≠ cmd.actor then
      throw ⟨"FORBIDDEN", "Only the recipient may handle this application"⟩
    return existing.sender.account
  | _ => .ok cmd.target

/-- `ExecuteFriendCommand` and `mutate`, up to `START TRANSACTION`. -/
def friendStart (db : Db) (cmd : FriendCommand) : Except FriendError Account :=
  if cmd.actor = 0 then .error ⟨"INVALID_PARAM", "Invalid friend operation"⟩
  else if 512 < cmd.message.utf8ByteSize then
    .error ⟨"INVALID_PARAM", "Application message is too long"⟩
  else do
    let _ ← db.user cmd.actor
    let target ← db.friendTarget cmd
    if target = 0 ∨ target = cmd.actor then .error ⟨"INVALID_TARGET", "Cannot add yourself"⟩
    else do
      let _ ← db.user target
      return target

/-- A friend row of the pair, in either direction. -/
def pairRow (a b : Account) (r : FriendRow) : Bool :=
  (r.owner = a && r.friend = b) || (r.owner = b && r.friend = a)

/-- `Apply`: the id of the pending application, old or new. -/
def applyFriend (db : Db) (actor target : Account) (message : String) (now : Int) :
    Except FriendError (ℕ × Db) :=
  if db.friends.any fun r => r.owner = actor && r.friend = target then
    .error ⟨"ALREADY_FRIEND", "Already friends"⟩
  else match db.applications.find? fun a =>
      a.fromAccount = actor && a.toAccount = target && a.status = 0 with
    | some a => .ok (a.id, db)
    | none => .ok (db.nextApplicationId,
        { db with
          applications := db.applications ++ [⟨db.nextApplicationId, actor, target, message, 0, now, 0⟩]
          nextApplicationId := db.nextApplicationId + 1 })

/-- `INSERT INTO friend_chat_deletions … ON DUPLICATE KEY UPDATE …` for one
    direction. -/
def upsertDeletion (owner peer : Account) (time : Int) (seq : ℕ) (t : List DeletionRow) :
    List DeletionRow :=
  upsert (fun r => r.owner = owner && r.peer = peer)
    (fun r => { r with deletedTime := time, deletedSeq := seq }) ⟨owner, peer, time, seq⟩ t

/-- The rows `DeleteFriend` writes when it removed a friendship: the new
    watermark in both directions, and the pending applications closed. -/
def closeFriendship (db : Db) (actor target : Account) (now : Int) (seq : ℕ) : Db :=
  { db with
    friends := deleteWhere (pairRow actor target) db.friends
    deletions := upsertDeletion target actor now seq (upsertDeletion actor target now seq db.deletions)
    applications := updateWhere
      (fun a => a.status = 0 && ((a.fromAccount = actor && a.toAccount = target) ||
        (a.fromAccount = target && a.toAccount = actor)))
      (fun a => { a with status := 2, handledTime := now }) db.applications }

/-- The end of `DeleteFriend`: drop the conversation and queue its cleanup, if
    the pair has a watermark. -/
def clearConversation (db : Db) (actor target : Account) : Db :=
  match db.deletedSeq? actor target with
  | none => db
  | some cutoff =>
    (db.deleteConversationPair (conversationId actor target)).queueConversationCleanup actor target
      cutoff

/-- `DeleteFriend`, with the Snowflake id `seq` for the watermark; the id is
    drawn only if a row was removed. -/
def deleteFriend (db : Db) (actor target : Account) (now : Int) (seq : ℕ) : Option ℕ × Db :=
  if db.friends.any (pairRow actor target) then
    (some seq, (db.closeFriendship actor target now seq).clearConversation actor target)
  else (none, db.clearConversation actor target)

/-- `INSERT INTO friends … ON DUPLICATE KEY UPDATE` for one direction, with the
    id that the statement has for it. -/
def insertFriend (id : ℕ) (a b : Account) (time : Int) (t : List FriendRow) : List FriendRow :=
  insertNew (fun r => r.owner = a && r.friend = b)
    { id := id, owner := a, friend := b, createdTime := time } t

/-- The `INSERT` of both directions, which takes two ids. -/
def insertFriends (db : Db) (actor target : Account) (time : Int) : Db :=
  { db with
    friends := insertFriend (db.nextFriendId + 1) target actor time
      (insertFriend db.nextFriendId actor target time db.friends)
    nextFriendId := db.nextFriendId + 2 }

/-- `HandleApplication`. -/
def handleApplication (db : Db) (actor target : Account) (id : ℕ) (accept : Bool) (now : Int) :
    Except FriendError Db :=
  match db.applications.find? fun a => a.id = id with
  | none => .error ⟨"APPLICATION_NOT_FOUND", "Application does not exist"⟩
  | some a =>
    let wanted := if accept then 1 else 2
    if a.status ≠ 0 ∧ a.status ≠ wanted then
      .error ⟨"ALREADY_HANDLED", "Application was already handled differently"⟩
    else if a.status = 0 then
      let db := { db with
        applications := updateWhere (fun a => a.id = id && a.status = 0)
          (fun a => { a with status := wanted, handledTime := now }) db.applications }
      .ok (if accept then db.insertFriends actor target now else db)
    else .ok db

/-- The transaction of `mutate`: the reply, the Snowflake id drawn, and the
    tables after `COMMIT`. -/
def mutate (db : Db) (cmd : FriendCommand) (target : Account) (now : Int) (seq : ℕ) :
    Except FriendError (FriendReply × Option ℕ × Db) :=
  let db := db.lockPair cmd.actor target
  match cmd.operation with
  | .apply => do
    let (id, db) ← db.applyFriend cmd.actor target cmd.message now
    let a ← db.application id
    return ({ applications := [a], changedAccounts := [cmd.actor, target] }, none, db)
  | .deleteFriend =>
    let (drawn, db) := db.deleteFriend cmd.actor target now seq
    .ok ({ changedAccounts := [cmd.actor, target] }, drawn, db)
  | .handleApplication => do
    let db ← db.handleApplication cmd.actor target cmd.applicationID cmd.accept now
    let a ← db.application cmd.applicationID
    return ({ applications := [a], changedAccounts := [cmd.actor, target] }, none, db)

/-- The tables after an accepted application. -/
def befriend (db : Db) (actor target : Account) (now : Int) (apps : List ApplicationRow) : Db :=
  { db.insertFriends actor target now with applications := apps }

end Db

/-- A sequence of checks that succeeds has succeeded at its first one. -/
theorem ok_of_bind {ε α β : Type} {x : Except ε α} {k : α → Except ε β} {r : β}
    (h : x >>= k = .ok r) : ∃ a, x = .ok a ∧ k a = .ok r := by
  rcases x with e | a
  · cases h
  · exact ⟨a, rfl, h⟩

theorem applyFriend_cases {db db' : Db} {a b : Account} {message : String} {now : Int} {id : ℕ}
    (h : db.applyFriend a b message now = .ok (id, db')) :
    ∃ apps n, db' = { db with applications := apps, nextApplicationId := n } := by
  unfold Db.applyFriend at h
  split_ifs at h
  split at h
  · cases h; exact ⟨_, _, rfl⟩
  · cases h; exact ⟨_, _, rfl⟩

theorem handleApplication_cases {db db' : Db} {a b : Account} {id : ℕ} {accept : Bool} {now : Int}
    (h : db.handleApplication a b id accept now = .ok db') :
    (∃ apps n, db' = { db with applications := apps, nextApplicationId := n }) ∨
    ∃ apps, db' = db.befriend a b now apps := by
  unfold Db.handleApplication at h
  split at h
  · cases h
  · dsimp only at h
    split_ifs at h
    · cases h; exact Or.inr ⟨_, rfl⟩
    · cases h; exact Or.inl ⟨_, _, rfl⟩
    · cases h; exact Or.inl ⟨_, _, rfl⟩
    · cases h; exact Or.inl ⟨_, _, rfl⟩

/-- A friend command that succeeds has done its operation, with the pair
    locked. -/
theorem mutate_ok {db db' : Db} {cmd : FriendCommand} {target : Account} {now : Int} {seq : ℕ}
    {reply : FriendReply} {drawn : Option ℕ}
    (h : db.mutate cmd target now seq = .ok (reply, drawn, db')) :
    (drawn = none ∧ ∃ id,
      (db.lockPair cmd.actor target).applyFriend cmd.actor target cmd.message now = .ok (id, db')) ∨
    (drawn = none ∧ cmd.operation = .handleApplication ∧ (db.lockPair cmd.actor target).handleApplication
      cmd.actor target cmd.applicationID cmd.accept now = .ok db') ∨
    (drawn, db') = (db.lockPair cmd.actor target).deleteFriend cmd.actor target now seq := by
  unfold Db.mutate at h
  cases ho : cmd.operation <;> simp only [ho] at h
  case apply =>
    obtain ⟨⟨id, db₁⟩, h₁, h⟩ := ok_of_bind h
    obtain ⟨a, -, h⟩ := ok_of_bind h
    cases h
    exact Or.inl ⟨rfl, id, h₁⟩
  case handleApplication =>
    obtain ⟨db₁, h₁, h⟩ := ok_of_bind h
    obtain ⟨a, -, h⟩ := ok_of_bind h
    cases h
    exact Or.inr (Or.inl ⟨rfl, rfl, h₁⟩)
  case deleteFriend =>
    cases h
    exact Or.inr (Or.inr rfl)

/-- **What a friend command commits**: applications only, a new friendship, a
    deletion with the drawn watermark, or the repeated cleanup of a pair that
    are no friends. -/
theorem mutate_cases {db db' : Db} {cmd : FriendCommand} {target : Account} {now : Int} {seq : ℕ}
    {reply : FriendReply} {drawn : Option ℕ}
    (h : db.mutate cmd target now seq = .ok (reply, drawn, db')) :
    (drawn = none ∧ ∃ apps n, db' = { db.lockPair cmd.actor target with
      applications := apps, nextApplicationId := n }) ∨
    (drawn = none ∧ ∃ apps,
      db' = (db.lockPair cmd.actor target).befriend cmd.actor target now apps) ∨
    (drawn = some seq ∧ db.friends.any (Db.pairRow cmd.actor target) = true ∧
      db' = ((db.lockPair cmd.actor target).closeFriendship cmd.actor target now seq).clearConversation
        cmd.actor target) ∨
    (drawn = none ∧ db.friends.any (Db.pairRow cmd.actor target) = false ∧
      db' = (db.lockPair cmd.actor target).clearConversation cmd.actor target) := by
  rcases mutate_ok h with ⟨hd, id, h⟩ | ⟨hd, -, h⟩ | h
  · exact Or.inl ⟨hd, applyFriend_cases h⟩
  · exact (handleApplication_cases h).elim (fun h => Or.inl ⟨hd, h⟩) fun h => Or.inr (Or.inl ⟨hd, h⟩)
  · unfold Db.deleteFriend at h
    rw [lockPair_friends] at h
    split_ifs at h with hr
    · cases h; exact Or.inr (Or.inr (Or.inl ⟨rfl, hr, rfl⟩))
    · cases h; exact Or.inr (Or.inr (Or.inr ⟨rfl, by simpa using hr, rfl⟩))

/-- A friend command is never about the actor itself. -/
theorem friendStart_ne {db : Db} {cmd : FriendCommand} {target : Account}
    (h : db.friendStart cmd = .ok target) : target ≠ cmd.actor := by
  unfold Db.friendStart at h
  split_ifs at h
  obtain ⟨_, -, h⟩ := ok_of_bind h
  obtain ⟨t, -, h⟩ := ok_of_bind h
  split_ifs at h with ht
  obtain ⟨_, -, h⟩ := ok_of_bind h
  cases h
  exact fun e => ht (Or.inr e)

/-! ## Friendship and watermark after a command -/

section
variable {db : Db} {a b c d : Account} {now : Int} {seq n : ℕ}

/-- The two accounts are the pair `a`, `b`, in either order. -/
def IsPair (a b c d : Account) : Prop := (c = a ∧ d = b) ∨ (c = b ∧ d = a)

theorem IsPair.swap (h : IsPair a b c d) : IsPair a b d c :=
  h.elim (fun h => Or.inr ⟨h.2, h.1⟩) fun h => Or.inl ⟨h.2, h.1⟩

theorem pairRow_iff {r : FriendRow} : Db.pairRow a b r = true ↔ IsPair a b r.owner r.friend := by
  simp [Db.pairRow, IsPair]

theorem find_upsertDeletion_self (t : List DeletionRow) :
    ((Db.upsertDeletion a b now seq t).find? fun r => r.owner = a && r.peer = b).map (·.deletedSeq)
      = some seq := by
  unfold Db.upsertDeletion
  rw [find?_upsert_self (by simp) (by simp)]
  cases t.find? fun r => r.owner = a && r.peer = b <;> rfl

theorem find_upsertDeletion_other (h : ¬ (c = a ∧ d = b)) (t : List DeletionRow) :
    (Db.upsertDeletion a b now seq t).find? (fun r => r.owner = c && r.peer = d)
      = t.find? fun r => r.owner = c && r.peer = d := by
  unfold Db.upsertDeletion
  refine find?_upsert_other (fun x _ => ?_) (fun x hx => ?_) ?_ t
  · rfl
  · simp only [Bool.and_eq_true, decide_eq_true_eq] at hx
    by_contra hc
    simp only [Bool.not_eq_false, Bool.and_eq_true, decide_eq_true_eq] at hc
    exact h ⟨hx.1.symm.trans hc.1, hx.2.symm.trans hc.2⟩
  · by_contra hc
    simp only [Bool.not_eq_false, Bool.and_eq_true, decide_eq_true_eq] at hc
    exact h ⟨hc.1.symm, hc.2.symm⟩

/-- Deleting a friend sets the watermark of the pair, in both directions. -/
theorem deletedSeq_close (h : IsPair a b c d) :
    (db.closeFriendship a b now seq).deletedSeq? c d = some seq := by
  unfold Db.deletedSeq? Db.closeFriendship
  rcases h with ⟨rfl, rfl⟩ | ⟨rfl, rfl⟩
  · by_cases hab : c = d ∧ d = c
    · obtain ⟨rfl, -⟩ := hab
      exact find_upsertDeletion_self _
    · rw [find_upsertDeletion_other hab]
      exact find_upsertDeletion_self _
  · exact find_upsertDeletion_self _

theorem deletedSeq_close_other (h : ¬ IsPair a b c d) :
    (db.closeFriendship a b now seq).deletedSeq? c d = db.deletedSeq? c d := by
  unfold Db.deletedSeq? Db.closeFriendship
  rw [find_upsertDeletion_other fun e => h (Or.inr e),
    find_upsertDeletion_other fun e => h (Or.inl e)]

/-- Clearing the conversation touches entries, unread sets and the outbox. -/
theorem clearConversation_cases (db : Db) (a b : Account) :
    db.clearConversation a b = db ∨
    ∃ cutoff, db.deletedSeq? a b = some cutoff ∧ db.clearConversation a b =
      (db.deleteConversationPair (conversationId a b)).queueConversationCleanup a b cutoff := by
  unfold Db.clearConversation
  cases db.deletedSeq? a b with
  | none => exact Or.inl rfl
  | some cutoff => exact Or.inr ⟨cutoff, rfl, rfl⟩

/-- The tables that clearing a conversation leaves alone. -/
theorem clearConversation_frame (db : Db) (a b : Account) :
    (db.clearConversation a b).friends = db.friends ∧
    (db.clearConversation a b).deletions = db.deletions ∧
    (db.clearConversation a b).friendPairs = db.friendPairs ∧
    (db.clearConversation a b).receipts = db.receipts ∧
    (db.clearConversation a b).recorded = db.recorded := by
  rcases clearConversation_cases db a b with h | ⟨cutoff, -, h⟩ <;> rw [h]
  · exact ⟨rfl, rfl, rfl, rfl, rfl⟩
  · exact ⟨rfl, rfl, rfl, rfl, rfl⟩

theorem friend_close :
    (db.closeFriendship a b now seq).Friend c d ↔ db.Friend c d ∧ ¬ IsPair a b c d := by
  unfold Db.Friend Db.closeFriendship
  constructor
  · rintro ⟨r, hr, rfl, rfl⟩
    obtain ⟨hr, hp⟩ := mem_deleteWhere.1 hr
    refine ⟨⟨r, hr, rfl, rfl⟩, fun h => ?_⟩
    rw [pairRow_iff.2 h] at hp; cases hp
  · rintro ⟨⟨r, hr, rfl, rfl⟩, hn⟩
    refine ⟨r, mem_deleteWhere.2 ⟨hr, ?_⟩, rfl, rfl⟩
    by_contra hc
    exact hn (pairRow_iff.1 (by simpa using hc))

theorem mem_insertFriend {id : ℕ} {t : List FriendRow} :
    (∃ r ∈ Db.insertFriend id a b now t, r.owner = c ∧ r.friend = d) ↔
      (∃ r ∈ t, r.owner = c ∧ r.friend = d) ∨ (c = a ∧ d = b) := by
  unfold Db.insertFriend
  constructor
  · rintro ⟨r, hr, rfl, rfl⟩
    rcases mem_insertNew.1 hr with hr | ⟨rfl, -⟩
    · exact Or.inl ⟨r, hr, rfl, rfl⟩
    · exact Or.inr ⟨rfl, rfl⟩
  · rintro (⟨r, hr, h⟩ | ⟨rfl, rfl⟩)
    · exact ⟨r, subset_insertNew _ _ _ hr, h⟩
    · obtain ⟨r, hr, hp⟩ := exists_insertNew
        (p := fun r : FriendRow => r.owner = c && r.friend = d)
        (r := { id := id, owner := c, friend := d, createdTime := now }) (by simp) t
      exact ⟨r, hr, by simpa using hp⟩

theorem friend_befriend {apps : List ApplicationRow} :
    (db.befriend a b now apps).Friend c d ↔ db.Friend c d ∨ IsPair a b c d := by
  unfold Db.Friend Db.befriend Db.insertFriends IsPair
  rw [mem_insertFriend, mem_insertFriend, or_assoc]

end

end ApeServer
