/-
  The frames between a client and the gateway (`proto/sdkws.proto`) and the
  requests that the gateway makes of the services.

  * `SdkWSReq` and `SdkWSResp` are the frames; `Parsers` and `Printers` are the
    protobuf library;
  * `Call` is a request of a service, and `Call.Carries` says that it is made
    in the name of an account.
-/
import ApeServer.Delivery
import ApeServer.Group.Schema

namespace ApeServer.WS

/-! ## Frames -/

/-- `sdkws::SdkWSReq`. -/
structure SdkWSReq where
  requestId : String := ""
  token : String := ""
  account : Account := 0
  deviceID : String := ""
  data : Bytes := []
  type : Int := 0
  trackID : Int := 0
  lastMsgSeq : Int := 0
deriving DecidableEq, Repr

/-- `sdkws::SdkWSResp`. -/
structure SdkWSResp where
  requestId : String := ""
  token : String := ""
  account : Account := 0
  deviceID : String := ""
  errorCode : String := ""
  errorMsg : String := ""
  data : Bytes := []
  type : Int := 0
  trackID : Int := 0
  logID : String := ""
deriving DecidableEq, Repr

/-! ## Requests -/

/-- `auth::RegisterRequest`. -/
structure RegisterRequest where
  phone : String := ""
  nickname : String := ""
  password : String := ""
deriving DecidableEq, Repr

/-- `sdkws::AckReq`. -/
structure AckReq where
  userID : Account := 0
  serverMsgIDs : List String := []
  ackType : Int := 0
deriving DecidableEq, Repr

/-- `push::AckMsgReq`. -/
structure AckMsgReq where
  userID : Account := 0
  serverMsgID : String := ""
  seq : Int := 0
  ackType : Int := 0
deriving DecidableEq, Repr

/-- `conversation::MarkConversationReadReq`. -/
structure MarkConversationReadReq where
  ownerUserID : Account := 0
  conversationID : String := ""
  readSeq : Int := 0
deriving DecidableEq, Repr

/-- `conversation::UpdateConversationSettingsReq`. -/
structure UpdateConversationSettingsReq where
  ownerUserID : Account := 0
  conversationID : String := ""
  isPinned : Option Bool := none
  recvMsgOpt : Option Int := none
deriving DecidableEq, Repr

/-- `conversation::DeleteConversationReq`. -/
structure DeleteConversationReq where
  ownerUserID : Account := 0
  conversationID : String := ""
deriving DecidableEq, Repr

/-- `friendpb::Command`. -/
structure FriendRequest where
  actor : Account := 0
  operation : Int := 0
  target : Account := 0
  applicationID : ℕ := 0
  message : String := ""
  accept : Bool := false
  after : ℕ := 0
  limit : ℕ := 0
  snapshot : ℕ := 0
deriving DecidableEq, Repr

/-! ## Answers -/

/-- `auth::AuthRegResponse`; `account` is `user.account`. -/
structure AuthRegResponse where
  success : Bool := false
  errorCode : String := ""
  errorMessage : String := ""
  token : String := ""
  account : Account := 0
deriving DecidableEq, Repr

/-- `auth::ValidateTokenResponse`. -/
structure ValidateTokenResponse where
  valid : Bool := false
  userID : ℕ := 0
  account : Account := 0
  expiresAt : Int := 0
deriving DecidableEq, Repr

/-- `friendpb::Reply`; `others` are the fields that the gateway only passes on. -/
structure FriendAnswer where
  errorCode : String := ""
  errorMessage : String := ""
  changedAccounts : List Account := []
  others : Bytes := []
deriving DecidableEq, Repr

/-! ## Protobuf -/

/-- `ParseFromString`. -/
structure Parsers where
  request : Bytes → Option SdkWSReq
  register : Bytes → Option RegisterRequest
  send : Bytes → Option (List MsgData)
  ack : Bytes → Option AckReq
  group : Bytes → Option Group.Command
  history : Bytes → Option HistoryQuery
  markRead : Bytes → Option MarkConversationReadReq
  updateSettings : Bytes → Option UpdateConversationSettingsReq
  delete : Bytes → Option DeleteConversationReq
  friend : Bytes → Option FriendRequest

/-- `SerializeAsString`. -/
structure Printers where
  message : MsgData → Bytes
  group : Group.Reply → Bytes
  friend : FriendAnswer → Bytes

/-! ## Calls of the services -/

/-- A request that the gateway sends to a service. -/
inductive Call where
  | register (phone nickname password requestId : String)
  | login (account : Account) (password : Bytes)
  | validateToken (token : String)
  | sendMessages (msgs : List MsgData)
  | ackMsg (request : AckMsgReq)
  | executeGroup (command : Group.Command)
  | getSingleChatHistory (query : HistoryQuery)
  | listConversations (owner : Account)
  | markRead (command : MarkConversationReadReq)
  | updateSettings (command : UpdateConversationSettingsReq)
  | deleteConversation (command : DeleteConversationReq)
  | executeFriend (command : FriendRequest)
deriving DecidableEq, Repr

/-- The calls of AuthService. -/
def Call.ofAuth : Call → Bool
  | register .. | login .. | validateToken .. => true
  | _ => false

/-- The account in whose name the service acts: the sender of every message,
    the actor, the owner or the user. -/
def Call.Carries (account : Account) : Call → Prop
  | sendMessages msgs => ∀ m ∈ msgs, m.sendID = account
  | ackMsg request => request.userID = account
  | executeGroup command => command.actor = account
  | getSingleChatHistory query => query.owner = account
  | listConversations owner => owner = account
  | markRead command => command.ownerUserID = account
  | updateSettings command => command.ownerUserID = account
  | deleteConversation command => command.ownerUserID = account
  | executeFriend command => command.actor = account
  | register .. | login .. | validateToken .. => False

end ApeServer.WS
