/-
  The MySQL tables of single chat (`scripts/sql/friends.sql`,
  `scripts/sql/outbox.sql` and the `CREATE TABLE` statements of
  `src/storage/mysqlhandler.cpp`), and the two checks every message path
  shares: `lockPair` and `friendAllows`.

  Columns that are written and never read (`last_error`, `created_at`,
  `updated_at`) are left out.  `Db.recorded` is a ghost: the
  messages of the `RecordConversationMessage` calls, in order, rolled back
  with the transaction that makes the call.
-/
import ApeServer.Message
import ApeServer.Lib.Table

namespace ApeServer

open Table

/-- A C++ exception: `std::invalid_argument` or any other one, with its text. -/
inductive Thrown where
  | invalidArgument (what : String)
  | runtimeError (what : String)
deriving DecidableEq, Repr

structure UserRow where
  account : Account
  nickname : String
deriving DecidableEq, Repr

/-- `friends`, unique in (owner, friend). -/
structure FriendRow where
  id : ℕ
  owner : Account
  friend : Account
  remark : String := ""
  createdTime : Int
deriving DecidableEq, Repr

/-- `friend_applications`; status 0 is pending, 1 accepted, 2 rejected. -/
structure ApplicationRow where
  id : ℕ
  fromAccount : Account
  toAccount : Account
  message : String
  status : ℕ
  createdTime : Int
  handledTime : Int
deriving DecidableEq, Repr

/-- `friend_chat_deletions`, with primary key (owner, peer). -/
structure DeletionRow where
  owner : Account
  peer : Account
  deletedTime : Int
  deletedSeq : ℕ
deriving DecidableEq, Repr

/-- `im_conversations`, with primary key (owner, conversation). -/
structure ConversationRow where
  owner : Account
  conversation : String
  peer : Account
  isPinned : Bool := false
  recvMsgOpt : Int := 0
  isHidden : Bool := false
  minSeq : Int := 0
  maxSeq : Int := 0
  readSeq : Int := 0
  unreadCount : ℕ := 0
  latestTime : Int := 0
  latestMessage : String := ""
deriving DecidableEq, Repr

/-- `im_conversation_unread`. -/
structure UnreadRow where
  owner : Account
  conversation : String
  seq : Int
deriving DecidableEq, Repr

/-- `im_outbox`, unique in (operation, dedupeKey).  `operation` is 1 for a
    message, 2 for the cleanup after a friend deletion, 3 for the cleanup
    after an acknowledgement; `state` is 0 ready, 1 leased, 2 done,
    3 cancelled; `stage` is 1 once body and conversations are committed. -/
structure OutboxRow where
  id : ℕ
  operation : ℕ
  dedupeKey : String
  actor : Account
  peer : Account
  conversation : String
  serverId : String := ""
  seq : Int
  payload : String
  state : ℕ := 0
  stage : ℕ := 0
  dispatchDone : Bool := false
  attempts : ℕ := 0
  availableAt : Int := 0
  leaseUntil : Int := 0
  leaseToken : String := ""
deriving DecidableEq, Repr

/-- `im_message_receipts`, with primary key (owner, serverId). -/
structure ReceiptRow where
  owner : Account
  serverId : String
  conversation : String
  seq : Int
  deliveredAt : Int
deriving DecidableEq, Repr

/-- The tables of single chat. -/
structure Db where
  users : List UserRow := []
  friendPairs : List (Account × Account) := []
  friends : List FriendRow := []
  nextFriendId : ℕ := 1
  applications : List ApplicationRow := []
  nextApplicationId : ℕ := 1
  deletions : List DeletionRow := []
  conversations : List ConversationRow := []
  unread : List UnreadRow := []
  outbox : List OutboxRow := []
  nextOutboxId : ℕ := 1
  receipts : List ReceiptRow := []
  recorded : List MsgData := []
deriving DecidableEq, Repr

namespace Db

/-- `lockPair`: the exclusive lock of two accounts is the row of the pair,
    inserted when it is not there yet. -/
def lockPair (db : Db) (a b : Account) : Db :=
  { db with
    friendPairs := insertNew (fun p => p = (min a b, max a b)) (min a b, max a b) db.friendPairs }

/-- `SELECT COUNT(*) FROM friends` for a pair, in both directions. -/
def friendCount (db : Db) (a b : Account) : ℕ :=
  (db.friends.filter fun r => (r.owner = a && r.friend = b) || (r.owner = b && r.friend = a)).length

/-- `SELECT deleted_seq FROM friend_chat_deletions`. -/
def deletedSeq? (db : Db) (owner peer : Account) : Option ℕ :=
  (db.deletions.find? fun r => r.owner = owner && r.peer = peer).map (·.deletedSeq)

/-- `friendAllows`: the two are friends, and `seq` is above their deletion
    watermark. -/
def friendAllows (db : Db) (actor peer : Account) (seq : Int) : Bool :=
  if actor = peer ∨ db.friendCount actor peer ≠ 2 then false
  else match db.deletedSeq? actor peer with
    | none => true
    | some d => (d : Int) < seq

/-- `SELECT 1 FROM im_message_receipts`. -/
def hasReceipt (db : Db) (owner : Account) (serverId : String) : Bool :=
  db.receipts.any fun r => r.owner = owner && r.serverId = serverId

end Db

/-! ## The pair lock -/

@[simp] theorem lockPair_friends (db : Db) (a b : Account) : (db.lockPair a b).friends = db.friends :=
  rfl
@[simp] theorem lockPair_deletions (db : Db) (a b : Account) :
    (db.lockPair a b).deletions = db.deletions := rfl
@[simp] theorem lockPair_outbox (db : Db) (a b : Account) : (db.lockPair a b).outbox = db.outbox := rfl
@[simp] theorem lockPair_receipts (db : Db) (a b : Account) :
    (db.lockPair a b).receipts = db.receipts := rfl
@[simp] theorem lockPair_friendAllows (db : Db) (a b c d : Account) (seq : Int) :
    (db.lockPair a b).friendAllows c d seq = db.friendAllows c d seq := rfl

/-- Locking a pair whose row exists changes no table. -/
theorem lockPair_of_mem {db : Db} {a b : Account} (h : (min a b, max a b) ∈ db.friendPairs) :
    db.lockPair a b = db := by
  have : insertNew (fun p => p = (min a b, max a b)) (min a b, max a b) db.friendPairs
      = db.friendPairs := insertNew_eq_self (List.any_eq_true.2 ⟨_, h, by simp⟩)
  unfold Db.lockPair
  rw [this]

/-! ## Friendship and the deletion watermark -/

/-- `a` has `b` in the friend table. -/
def Db.Friend (db : Db) (a b : Account) : Prop := ∃ r ∈ db.friends, r.owner = a ∧ r.friend = b

/-- `seq` is above the deletion watermark of the pair. -/
def Db.Above (db : Db) (a b : Account) (seq : Int) : Prop :=
  ∀ d, db.deletedSeq? a b = some d → (d : Int) < seq

theorem friendAllows_above {db : Db} {a b : Account} {seq : Int}
    (h : db.friendAllows a b seq = true) : db.Above a b seq := by
  intro d hd
  unfold Db.friendAllows at h
  split_ifs at h
  rw [hd] at h
  simpa using h

theorem friendAllows_ne {db : Db} {a b : Account} {seq : Int}
    (h : db.friendAllows a b seq = true) : a ≠ b := by
  unfold Db.friendAllows at h
  split_ifs at h with hc
  exact fun e => hc (Or.inl e)

theorem friendCount_eq_two {db : Db} {a b : Account} {seq : Int}
    (h : db.friendAllows a b seq = true) : db.friendCount a b = 2 := by
  unfold Db.friendAllows at h
  split_ifs at h with hc
  exact not_not.1 fun e => hc (Or.inr e)

theorem friendAllows_iff {db : Db} {a b : Account} {seq : Int} :
    db.friendAllows a b seq = true ↔ a ≠ b ∧ db.friendCount a b = 2 ∧ db.Above a b seq := by
  refine ⟨fun h => ⟨friendAllows_ne h, friendCount_eq_two h, friendAllows_above h⟩, ?_⟩
  rintro ⟨hne, hc, ha⟩
  unfold Db.friendAllows
  rw [if_neg (by simp [hne, hc])]
  cases hd : db.deletedSeq? a b with
  | none => rfl
  | some d => simpa using ha d hd

/-- Friendship in the sense of `friendAllows` needs a row of the pair. -/
theorem friend_of_count {db : Db} {a b : Account} (h : db.friendCount a b = 2) :
    db.Friend a b ∨ db.Friend b a := by
  unfold Db.friendCount at h
  obtain ⟨r, hr⟩ := List.exists_mem_of_length_pos (Nat.two_pos.trans_eq h.symm)
  rw [List.mem_filter] at hr
  obtain ⟨hm, hp⟩ := hr
  simp only [Bool.or_eq_true, Bool.and_eq_true, decide_eq_true_eq] at hp
  exact hp.imp (fun h => ⟨r, hm, h⟩) fun h => ⟨r, hm, h⟩

end ApeServer
