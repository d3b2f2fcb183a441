/-
  The data of group chat: the messages of `groupchat.proto`, the tables, and
  the encoding of the request ledger.

  Numbers that the tables keep as `BIGINT UNSIGNED` (ids, sequence numbers,
  epochs) are natural numbers.

  * `hex`, `unhex`: the ledger keeps serialized messages as hexadecimal text;
    `unhex_hex` is the round trip;
  * `Wire` is the protobuf library for commands and replies;
  * `groupId` reads a group number.
-/
import ApeServer.Lib.Table
import ApeServer.Database
import Mathlib.Logic.Equiv.List

namespace ApeServer.Group

open Table

/-! ## Messages -/

/-- `groupchat.Operation`; the enumeration is open. -/
inductive Operation where
  | list | create | search | apply | applications | review | members | rename | leave | kick
  | dismiss | send | pull | ack | read | myApplications
  | unrecognized (value : Int)
deriving DecidableEq, Repr

/-- `groupchat.Group`. -/
structure Info where
  id : String := ""
  name : String := ""
  owner : Account := 0
  memberCount : ℕ := 0
  dismissed : Bool := false
  joined : Bool := false
  joinSeq : ℕ := 0
  lastSeq : ℕ := 0
  readSeq : ℕ := 0
  unread : ℕ := 0
  large : Bool := false
  epoch : ℕ := 0
  number : String := ""
deriving DecidableEq, Repr

/-- `groupchat.Member`. -/
structure Member where
  account : Account := 0
  nickname : String := ""
  owner : Bool := false
deriving DecidableEq, Repr

/-- `groupchat.Application`. -/
structure Application where
  id : ℕ := 0
  groupID : String := ""
  account : Account := 0
  nickname : String := ""
  reason : String := ""
  status : ℕ := 0
  time : Int := 0
  groupName : String := ""
  groupNumber : String := ""
deriving DecidableEq, Repr

/-- `groupchat.Message`. -/
structure Message where
  id : String := ""
  clientID : String := ""
  groupID : String := ""
  sender : Account := 0
  nickname : String := ""
  text : String := ""
  seq : ℕ := 0
  time : Int := 0
deriving DecidableEq, Repr

/-- `groupchat.Command`. -/
structure Command where
  operation : Operation := .list
  actor : Account := 0
  groupID : String := ""
  text : String := ""
  target : Account := 0
  applicationID : ℕ := 0
  accept : Bool := false
  after : ℕ := 0
  limit : ℕ := 0
  snapshot : ℕ := 0
  clientID : String := ""
  epoch : ℕ := 0
deriving DecidableEq, Repr

/-- `groupchat.Reply`. -/
structure Reply where
  errorCode : String := ""
  errorMessage : String := ""
  groups : List Info := []
  members : List Member := []
  applications : List Application := []
  messages : List Message := []
  cursor : ℕ := 0
  hasMore : Bool := false
  snapshot : ℕ := 0
  groupID : String := ""
  epoch : ℕ := 0
deriving DecidableEq, Repr

/-- `groupchat.Notice`. -/
structure Notice where
  groupID : String := ""
  lastSeq : ℕ := 0
  messages : List Message := []
  refresh : Bool := false
  epoch : ℕ := 0
deriving DecidableEq, Repr

/-! ## Tables -/

/-- `im_groups`. -/
structure GroupRow where
  id : ℕ
  name : String
  owner : Account
  memberCount : ℕ := 1
  dismissed : Bool := false
  lastSeq : ℕ := 0
deriving DecidableEq, Repr

/-- `im_group_members`, with primary key (group, account). -/
structure MemberRow where
  group : ℕ
  account : Account
  active : Bool := true
  epoch : ℕ := 1
  joinSeq : ℕ := 0
  ackSeq : ℕ := 0
  readSeq : ℕ := 0
deriving DecidableEq, Repr

/-- `im_group_applications`; status 0 is pending, 1 accepted, 2 rejected, 3
    closed. -/
structure ApplicationRow where
  id : ℕ
  group : ℕ
  account : Account
  reason : String
  status : ℕ := 0
  time : Int
deriving DecidableEq, Repr

/-- `im_group_messages`, with primary key (group, seq). -/
structure MessageRow where
  group : ℕ
  seq : ℕ
  id : String
  clientID : String
  sender : Account
  nickname : String
  text : String
  time : Int
deriving DecidableEq, Repr

/-- `im_group_requests`, with primary key (actor, client id): the ledger. -/
structure RequestRow where
  actor : Account
  clientID : String
  payload : String
  reply : String
deriving DecidableEq, Repr

/-- `im_group_numbers`. -/
structure NumberRow where
  group : ℕ
  number : ℕ
deriving DecidableEq, Repr

/-- The group tables, and the table of users.  `executed` is a ghost: the
    mutations that `perform` has run, with their replies, in order. -/
structure GroupDb where
  users : List UserRow := []
  groups : List GroupRow := []
  members : List MemberRow := []
  applications : List ApplicationRow := []
  messages : List MessageRow := []
  numbers : List NumberRow := []
  requests : List RequestRow := []
  nextApplicationId : ℕ := 1
  nextNumber : ℕ := 1000000000
  executed : List (Command × Reply) := []
deriving DecidableEq, Repr

/-! ## The ledger's encoding -/

/-- An exception: `group_storage::Error`. -/
structure GroupError where
  code : String
  message : String
deriving DecidableEq, Repr

/-- A hexadecimal digit. -/
def hexDigit (n : ℕ) : Char := ("0123456789abcdef".toList).getD n '0'

/-- `hex`. -/
def hex (bytes : Bytes) : String :=
  String.ofList (bytes.flatMap fun c => [hexDigit (c.toNat / 16), hexDigit (c.toNat % 16)])

/-- The value of a digit, for any character. -/
def unhexDigit (c : Char) : Int :=
  if c ≤ '9' then (c.toNat : Int) - '0'.toNat else (c.toNat : Int) - 'a'.toNat + 10

/-- The loop of `unhex`. -/
def unhexChars : List Char → Bytes
  | c :: c' :: rest => UInt8.ofNat ((unhexDigit c * 16 + unhexDigit c') % 256).toNat :: unhexChars rest
  | _ => []

/-- `unhex`. -/
def unhex (s : String) : Except GroupError Bytes :=
  if s.toList.length % 2 = 1 then .error ⟨"CACHE_ERROR", "Invalid saved request"⟩
  else .ok (unhexChars s.toList)

theorem unhexDigit_hexDigit {n : ℕ} (h : n < 16) : unhexDigit (hexDigit n) = n := by
  interval_cases n <;> decide

theorem toList_hex_cons (b : UInt8) (bs : Bytes) :
    (hex (b :: bs)).toList = hexDigit (b.toNat / 16) :: hexDigit (b.toNat % 16) :: (hex bs).toList := by
  simp [hex]

theorem length_hex (bs : Bytes) : (hex bs).toList.length = 2 * bs.length := by
  induction bs with
  | nil => simp [hex]
  | cons b bs ih =>
    rw [toList_hex_cons]
    simp only [List.length_cons, ih]
    omega

theorem unhexChars_hex (bs : Bytes) : unhexChars (hex bs).toList = bs := by
  induction bs with
  | nil => simp [hex, unhexChars]
  | cons b bs ih =>
    have hb : b.toNat < 256 := b.toNat_lt
    rw [toList_hex_cons]
    simp only [unhexChars, ih, unhexDigit_hexDigit (show b.toNat / 16 < 16 by omega),
      unhexDigit_hexDigit (show b.toNat % 16 < 16 by omega)]
    have : (((b.toNat / 16 : ℕ) : Int) * 16 + (b.toNat % 16 : ℕ)) % 256 = (b.toNat : Int) := by omega
    rw [this]
    simp

/-- **The ledger's encoding is a round trip.** -/
theorem unhex_hex (bs : Bytes) : unhex (hex bs) = .ok bs := by
  unfold unhex
  rw [if_neg (by rw [length_hex]; omega), unhexChars_hex]

theorem hex_inj {bs bs' : Bytes} (h : hex bs = hex bs') : bs = bs' := by
  have := congrArg (fun s : String => unhexChars s.toList) h
  simpa [unhexChars_hex] using this

theorem hex_eq_empty {bs : Bytes} (h : hex bs = "") : bs = [] :=
  hex_inj (h.trans (by simp [hex]))

/-- The protobuf library: commands and replies are serialized, and replies
    parsed.  A serialized reply parses to itself, and no bytes at all are the
    reply without any field set. -/
structure Wire where
  command : Command → Bytes
  reply : Reply → Bytes
  parseReply : Bytes → Option Reply
  parse_reply : ∀ r, parseReply (reply r) = some r
  parse_nil : parseReply [] = some {}

theorem Wire.reply_ne_nil (W : Wire) {r : Reply} (h : r.errorCode ≠ "") : W.reply r ≠ [] := by
  intro hn
  have := W.parse_reply r
  rw [hn, W.parse_nil] at this
  cases this
  exact h rfl

/-! ### A codec

Replies are countable, so that there is an encoding. -/

instance countableAccount : Countable Account :=
  Function.Injective.countable (f := UInt64.toNat) fun _ _ h => UInt64.toNat_inj.1 h

instance countableChar : Countable Char :=
  Function.Injective.countable (f := Char.toNat) fun _ _ h => Char.ext (UInt32.toNat_inj.1 h)

instance countableString : Countable String :=
  Function.Injective.countable (f := String.toList) fun _ _ h => String.toList_inj.1 h

instance countableInfo : Countable Info := by
  refine Function.Injective.countable (f := fun g : Info => (g.id, g.name, g.owner, g.memberCount,
    g.dismissed, g.joined, g.joinSeq, g.lastSeq, g.readSeq, g.unread, g.large, g.epoch, g.number)) ?_
  rintro ⟨⟩ ⟨⟩ h
  simpa using h

instance countableMember : Countable Member := by
  refine Function.Injective.countable (f := fun m : Member => (m.account, m.nickname, m.owner)) ?_
  rintro ⟨⟩ ⟨⟩ h
  simpa using h

instance countableApplication : Countable Application := by
  refine Function.Injective.countable (f := fun a : Application => (a.id, a.groupID, a.account,
    a.nickname, a.reason, a.status, a.time, a.groupName, a.groupNumber)) ?_
  rintro ⟨⟩ ⟨⟩ h
  simpa using h

instance countableMessage : Countable Message := by
  refine Function.Injective.countable (f := fun m : Message => (m.id, m.clientID, m.groupID, m.sender,
    m.nickname, m.text, m.seq, m.time)) ?_
  rintro ⟨⟩ ⟨⟩ h
  simpa using h

instance countableReply : Countable Reply := by
  refine Function.Injective.countable (f := fun r : Reply => (r.errorCode, r.errorMessage, r.groups,
    r.members, r.applications, r.messages, r.cursor, r.hasMore, r.snapshot, r.groupID, r.epoch)) ?_
  rintro ⟨⟩ ⟨⟩ h
  simpa using h

/-- A number for every reply, with `0` for the default one. -/
noncomputable def replyNumber (r : Reply) : ℕ :=
  if r = {} then 0 else (exists_injective_nat Reply).choose r + 1

theorem replyNumber_injective : Function.Injective replyNumber := by
  intro r r' h
  unfold replyNumber at h
  split_ifs at h with h₁ h₂ h₂
  · rw [h₁, h₂]
  · exact (exists_injective_nat Reply).choose_spec (Nat.succ_injective h)

open Classical in
/-- An encoding: a reply is as many zeros as its number. -/
noncomputable def Wire.unary : Wire where
  command _ := []
  reply r := List.replicate (replyNumber r) 0
  parseReply bs := if h : ∃ r, replyNumber r = bs.length then some h.choose else none
  parse_reply r := by
    have h : ∃ r', replyNumber r' = (List.replicate (replyNumber r) (0 : UInt8)).length :=
      ⟨r, by simp⟩
    rw [dif_pos h]
    exact congrArg some (replyNumber_injective (by simpa using h.choose_spec))
  parse_nil := by
    have h0 : replyNumber {} = 0 := if_pos rfl
    have h : ∃ r, replyNumber r = ([] : Bytes).length := ⟨{}, h0⟩
    rw [dif_pos h]
    exact congrArg some (replyNumber_injective (h.choose_spec.trans h0.symm))

/-- `groupId`: the number in a text, which has 1 to 20 digits and fits in 64
    bits. -/
def groupId (s : String) : Except GroupError ℕ :=
  let bad : GroupError := ⟨"INVALID_GROUP", "请输入有效的数字群号"⟩
  if s = "" ∨ 20 < s.utf8ByteSize ∨ !s.toList.all Char.isDigit then .error bad
  else
    let n := s.toList.foldl (fun n c => 10 * n + (c.toNat - '0'.toNat)) 0
    if n = 0 ∨ 2 ^ 64 ≤ n then .error bad else .ok n

end ApeServer.Group
