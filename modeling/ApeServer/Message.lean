/-
  Single-chat messages (`proto/sdkws.proto`) and the texts built from them.

  * `MsgData` is the message with every field of the protocol; `sendTime`, a
    double on the wire, is the integral number of milliseconds that
    `SendMessages` writes into it;
  * `conversationId` is the conversation of two accounts, the same in both
    directions and different for different pairs (`conversationId_comm`,
    `conversationId_inj`);
  * `Codec` is the JSON library: protobuf's printer and parser for messages
    and conversation summaries, and the two uses of `nlohmann::json`;
  * `conversationPreview` is the text shown in conversation lists.
-/
import ApeServer.Lib.Decimal

namespace ApeServer

/-- A user's account number (`uint64`). -/
abbrev Account := UInt64

/-- The contents of a protobuf `bytes` field. -/
abbrev Bytes := List UInt8

structure OfflinePushInfo where
  title : String := ""
  desc : String := ""
  ex : String := ""
  iOSPushSound : String := ""
  iOSBadgeCount : Bool := false
  signalInfo : String := ""
deriving DecidableEq, Repr

/-- `sdkws::MsgData`. -/
structure MsgData where
  sendID : Account := 0
  recvID : Account := 0
  convID : String := ""
  clientMsgID : String := ""
  serverMsgID : String := ""
  senderPlatformID : Int := 0
  senderNickname : String := ""
  senderFaceURL : String := ""
  sessionType : Int := 0
  msgFrom : Int := 0
  contentType : Int := 0
  content : Bytes := []
  seq : Int := 0
  sendTime : Int := 0
  status : Int := 0
  isRead : Bool := false
  options : List (String × Bool) := []
  offlinePushInfo : Option OfflinePushInfo := none
  atUserIDList : List Account := []
  attachedInfo : String := ""
  ext : String := ""
  isDeleted : Bool := false
  isRecalled : Bool := false
  isPinned : Bool := false
  isGroupMsg : Bool := false
  syncExt : String := ""
  dStatus : Int := 0
deriving DecidableEq, Repr

/-- `message_validation::IsSingleMessageFor`. -/
def isSingleMessageFor (owner : Account) (m : MsgData) : Bool :=
  owner ≠ 0 && !m.isGroupMsg && m.sessionType = 1 && m.recvID = owner && m.sendID ≠ 0 &&
    m.serverMsgID ≠ ""

/-! ## Conversation ids -/

/-- `std::to_string` of an account. -/
def accountText (a : Account) : String := Nat.repr a.toNat

/-- `to_string(min(a, b)) + "_" + to_string(max(a, b))`. -/
def conversationId (a b : Account) : String :=
  accountText (min a b) ++ "_" ++ accountText (max a b)

theorem accountText_inj {a b : Account} (h : accountText a = accountText b) : a = b :=
  UInt64.toNat_inj.1 (Nat.repr_inj.1 h)

theorem min_max_cases (a b : Account) :
    (min a b = a ∧ max a b = b) ∨ (min a b = b ∧ max a b = a) := by
  by_cases h : a ≤ b
  · exact Or.inl ⟨by simp [min, h], by simp [max, h]⟩
  · exact Or.inr ⟨by simp [min, h], by simp [max, h]⟩

theorem min_max_comm (a b : Account) : min a b = min b a ∧ max a b = max b a := by
  rcases UInt64.le_total a b with h | h
  · by_cases h' : b ≤ a
    · rw [UInt64.le_antisymm h h']; exact ⟨rfl, rfl⟩
    · simp [min, max, h, h']
  · by_cases h' : a ≤ b
    · rw [UInt64.le_antisymm h h']; exact ⟨rfl, rfl⟩
    · simp [min, max, h, h']

theorem conversationId_comm (a b : Account) : conversationId a b = conversationId b a := by
  unfold conversationId
  rw [(min_max_comm a b).1, (min_max_comm a b).2]

/-- **Different pairs have different conversations.** -/
theorem conversationId_inj {a b c d : Account} (h : conversationId a b = conversationId c d) :
    (a = c ∧ b = d) ∨ (a = d ∧ b = c) := by
  obtain ⟨hmin, hmax⟩ := Decimal.repr_append_inj "_" '_' rfl (by decide) h
  have hmin := UInt64.toNat_inj.1 hmin
  have hmax := accountText_inj hmax
  rcases min_max_cases a b with ⟨h₁, h₂⟩ | ⟨h₁, h₂⟩ <;>
    rcases min_max_cases c d with ⟨h₃, h₄⟩ | ⟨h₃, h₄⟩ <;>
    rw [h₁, h₃] at hmin <;> rw [h₂, h₄] at hmax
  · exact Or.inl ⟨hmin, hmax⟩
  · exact Or.inr ⟨hmin, hmax⟩
  · exact Or.inr ⟨hmax, hmin⟩
  · exact Or.inl ⟨hmax, hmin⟩

/-! ## JSON -/

/-- `conversation::MsgInfo`, the fields a conversation summary fills. -/
structure MsgInfo where
  serverMsgID : String
  clientMsgID : String
  sessionType : Int
  sendID : Account
  recvID : Account
  senderName : String
  latestMsgRecvTime : Int
  contentType : Int
  content : String
deriving DecidableEq, Repr

/-- The JSON library.  `printMsg` and `parseMsg` are protobuf's
    `MessageToJsonString` and `JsonStringToMessage` on messages: what is
    printed is read back, and the empty text is no message.  `contentField`
    is the string member `content` when `nlohmann::json::parse` reads the
    bytes as an object that has one; `dumpContent` is the text of
    `{"content": …}`, `none` where `dump` throws. -/
structure Codec where
  printMsg : MsgData → Option String
  parseMsg : String → Option MsgData
  parse_print : ∀ m s, printMsg m = some s → parseMsg s = some m
  parse_empty : parseMsg "" = none
  printInfo : MsgInfo → Option String
  contentField : Bytes → Option Bytes
  dumpContent : Bytes → Option String

theorem Codec.print_ne_empty (J : Codec) {m : MsgData} {s : String} (h : J.printMsg m = some s) :
    s ≠ "" := by
  rintro rfl
  have := J.parse_print _ _ h
  rw [J.parse_empty] at this; cases this

/-- A codec that knows the texts of a single message: its own, that of its
    summary, and that of its preview. -/
def Codec.single (m : MsgData) (text info dump : String) (h : text ≠ "") : Codec where
  printMsg m' := if m' = m then some text else none
  parseMsg s := if s = text then some m else none
  parse_print := by
    intro m' s hs
    split_ifs at hs with hm
    cases hs
    rw [if_pos rfl, hm]
  parse_empty := if_neg h.symm
  printInfo _ := some info
  contentField _ := none
  dumpContent _ := some dump

/-- The codec `J` with the text of one more message. -/
def Codec.add (J : Codec) (m : MsgData) (text : String) (h : text ≠ "") (hn : J.parseMsg text = none) : Codec where
  printMsg m' := if m' = m then some text else J.printMsg m'
  parseMsg s := if s = text then some m else J.parseMsg s
  parse_print := by
    intro m' s hs
    split_ifs at hs with hm
    · cases hs
      rw [if_pos rfl, hm]
    · have hp := J.parse_print m' s hs
      rw [if_neg (by rintro rfl; rw [hn] at hp; cases hp), hp]
  parse_empty := by rw [if_neg h.symm, J.parse_empty]
  printInfo := J.printInfo
  contentField := J.contentField
  dumpContent := J.dumpContent

/-- The loop of `conversationPreview`: walk back from `n` over continuation
    bytes (`10xxxxxx`) while the text goes on at `n`. -/
def previewEnd (text : Bytes) : ℕ → ℕ
  | 0 => 0
  | n + 1 =>
    match text[n + 1]? with
    | some c => if c &&& 0xc0 = 0x80 then previewEnd text n else n + 1
    | none => n + 1

/-- `conversationPreview`; `none` where it throws. -/
def conversationPreview (J : Codec) (m : MsgData) : Option String :=
  if m.contentType ≠ 101 then some ("[message type " ++ toString m.contentType ++ "]")
  else
    let text := (J.contentField m.content).getD m.content
    J.dumpContent (text.take (previewEnd text (min text.length 512)))

/-- The summary `RecordConversationMessage` stores; `none` where building it
    throws. -/
def conversationSummary (J : Codec) (m : MsgData) : Option String := do
  let content ← conversationPreview J m
  J.printInfo ⟨m.serverMsgID, m.clientMsgID, 1, m.sendID, m.recvID, m.senderNickname, m.sendTime,
    m.contentType, content⟩

end ApeServer
