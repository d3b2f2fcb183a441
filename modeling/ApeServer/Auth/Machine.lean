/-
  `AuthService`: registration, `Login` and `ValidateToken` side by side.

  A login reads the user, checks the password and stores its token in Redis
  for seven days; a validation reads it back.  Both are coroutines that wait
  for MySQL and Redis, so that other calls run in between; any of their
  statements may fail, and a `SETEX` may be executed and its answer lost.
  The other parts of the server write other keys of the same Redis
  (`OtherKey`), and Redis may lose an entry at any time.

  * `hashPassword` and registration are those of `Registration`;
  * `validateToken` reads the value of a token;
  * `step` is one step of the system, `AuthTrace` its runs.
-/
import ApeServer.Lib.Expiring
import ApeServer.Registration.Request

namespace ApeServer.Auth

open Registration

/-! ## Requests and answers -/

/-- `auth::LoginRequest`. -/
structure LoginRequest where
  account : ℕ := 0
  password : String := ""
deriving DecidableEq, Repr

/-- The user in an answer. -/
structure AuthUser where
  userID : ℕ
  account : ℕ
  nickname : String
deriving DecidableEq, Repr

/-- `auth::AuthRegResponse`, as far as `Login` fills it. -/
structure AuthRegResponse where
  success : Bool := false
  errorCode : String := ""
  errorMessage : String := ""
  token : String := ""
  expiresAt : ℕ := 0
  user : Option AuthUser := none
deriving DecidableEq, Repr

/-- `auth::ValidateTokenResponse`. -/
structure ValidateTokenResponse where
  valid : Bool := false
  userID : ℕ := 0
  account : ℕ := 0
  expiresAt : ℕ := 0
deriving DecidableEq, Repr

/-- How a call ends. -/
inductive Status where
  | ok
  | internal (message : String)
deriving DecidableEq, Repr

/-! ## Tokens in Redis -/

def tokenTtlSeconds : ℕ := 7 * 24 * 3600

/-- `TOKEN_KEY_PREFIX + token`. -/
def tokenKey (token : String) : String := "token:" ++ token

/-- The value of a token. -/
def tokenValue (user : Registration.UserRow) : String := Nat.repr user.userID ++ "," ++ Nat.repr user.account

/-- The services that `main` starts. -/
inductive ServiceName where
  | auth | msg | group | friend | conversation | gatewayPush | push | backbon
deriving DecidableEq, Repr

def ServiceName.text : ServiceName → String
  | auth => "AuthService"
  | msg => "MsgService"
  | group => "GroupService"
  | friend => "FriendService"
  | conversation => "ConversationService"
  | gatewayPush => "GatewayPushService"
  | push => "PushService"
  | backbon => "BackbonService"

/-- The other keys that are written. -/
inductive OtherKey where
  | msg (id : String)
  | msgConv (id : String)
  | consumed (id : String)
  | ackOnline (id : String)
  | ackOffline (owner : ℕ) (id : String)
  | online (account : ℕ)
  | service (name : ServiceName)
deriving DecidableEq, Repr

def OtherKey.text : OtherKey → String
  | msg id => "msg:" ++ id
  | msgConv id => "msg_conv:" ++ id
  | consumed id => "msg:consumed:" ++ id
  | ackOnline id => "pending_ack:online:" ++ id
  | ackOffline owner id => "pending_ack:offline:" ++ Nat.repr owner ++ ":" ++ id
  | online account => "user:" ++ Nat.repr account ++ ":online"
  | service name => name.text

/-- The spaces that `strtoull` skips. -/
def isSpace (c : Char) : Bool := c = ' ' || (9 ≤ c.toNat && c.toNat ≤ 13)

/-- The digits of `std::stoull`, after the sign. -/
def stoullDigits (negative : Bool) (cs : List Char) : Option ℕ :=
  let digits := cs.takeWhile Char.isDigit
  let n := digits.foldl (fun n c => 10 * n + (c.toNat - '0'.toNat)) 0
  if digits = [] ∨ 2 ^ 64 ≤ n then none
  else some (if negative then (2 ^ 64 - n) % 2 ^ 64 else n)

/-- `std::stoull`; it throws where there is no number, or one that does not fit. -/
def stoull (s : String) : Option ℕ :=
  match s.toList.dropWhile isSpace with
  | '+' :: cs => stoullDigits false cs
  | '-' :: cs => stoullDigits true cs
  | cs => stoullDigits false cs

/-- What `ValidateToken` makes of a value. -/
inductive Parsed where
  | malformed
  | threw
  | user (userID account : ℕ)
deriving DecidableEq, Repr

/-- The text before and after the first comma. -/
def splitComma (value : String) : Option (String × String) :=
  let cs := value.toList
  if cs.contains ',' then
    some (String.ofList (cs.takeWhile (· ≠ ',')), String.ofList ((cs.dropWhile (· ≠ ',')).drop 1))
  else none

def parseValue (value : String) : Parsed :=
  match splitComma value with
  | none => .malformed
  | some (before, rest) =>
    match stoull before, stoull rest with
    | some userID, some account => .user userID account
    | _, _ => .threw

/-! ## Calls -/

inductive LoginCall where
  | idle
  /-- the coroutine starts, with its token -/
  | asked (request : LoginRequest) (token : String) (expiresAt : ℕ)
  /-- the password is right; `update_last_login` and the `SETEX` follow -/
  | verified (request : LoginRequest) (token : String) (expiresAt : ℕ) (user : Registration.UserRow)
  | answered (request : LoginRequest) (response : AuthRegResponse) (status : Status)
deriving DecidableEq, Repr

inductive ValidateCall where
  | idle
  | asked (token : String)
  /-- the value was read; the `TTL` follows -/
  | read (token : String) (userID account : ℕ)
  | answered (token : String) (response : ValidateTokenResponse) (status : Status)
deriving DecidableEq, Repr

/-- The tables, Redis and the calls; `now` is the time in milliseconds, on one
    clock for the server and Redis that never goes back. -/
structure World where
  reg : Registration.World := { db := .seeded }
  redis : Expiring String String := fun _ => none
  now : ℕ := 0
  logins : ℕ → LoginCall := fun _ => .idle
  validations : ℕ → ValidateCall := fun _ => .idle

inductive Action where
  /-- time goes by -/
  | tick (ms : ℕ)
  /-- `Register` arrives; it draws a UUID for the salt -/
  | register (k : ℕ) (request : RegisterRequest) (uuid : String)
  /-- any other step of registration -/
  | registration (a : Registration.Action)
  /-- `Login` arrives; it draws a UUID as its token -/
  | login (k : ℕ) (request : LoginRequest) (uuid : String)
  /-- `find_user_by_account`, and the check of the password -/
  | findUser (k : ℕ) (fails : Bool)
  /-- `SETEX` is executed or not, and its answer arrives, or an exception -/
  | setex (k : ℕ) (applied : Bool) (exception : Option String)
  | validate (k : ℕ) (token : String)
  | get (k : ℕ) (fails : Bool)
  | ttl (k : ℕ) (fails : Bool)
  /-- the rest of the server writes -/
  | other (key : OtherKey) (value : Option String) (sec : ℕ)
  /-- Redis loses an entry -/
  | lose (key : String)
deriving DecidableEq, Repr

inductive Event where
  | registered (k : ℕ) (request : RegisterRequest) (answer : Except RegError Input)
  | loggedIn (k : ℕ) (request : LoginRequest) (response : AuthRegResponse) (status : Status)
  | validated (k : ℕ) (token : String) (response : ValidateTokenResponse) (status : Status)
deriving DecidableEq

/-! ## Login -/

def invalidParam : AuthRegResponse where
  errorCode := "INVALID_PARAM"
  errorMessage := "account and password are required"

def userNotFound : AuthRegResponse where
  errorCode := "USER_NOT_FOUND"
  errorMessage := "Invalid username"

def wrongPassword : AuthRegResponse where
  errorCode := "WRONG_PASSWORD"
  errorMessage := "Invalid account or password"

def internalError (message : String) : AuthRegResponse where
  errorCode := "INTERNAL_ERROR"
  errorMessage := message

/-- The answer of a login that stored its token. -/
def loginOk (token : String) (expiresAt : ℕ) (user : Registration.UserRow) : AuthRegResponse where
  success := true
  token := token
  expiresAt := expiresAt
  user := some ⟨user.userID, user.account, user.nickname⟩

/-- `calculate_expiry`. -/
def calculateExpiry (now : ℕ) : ℕ := now / 1000 + tokenTtlSeconds

namespace World

def setLogin (w : World) (k : ℕ) (c : LoginCall) : World := { w with logins := Function.update w.logins k c }

def setValidation (w : World) (k : ℕ) (c : ValidateCall) : World :=
  { w with validations := Function.update w.validations k c }

/-- A login ends. -/
def endLogin (w : World) (k : ℕ) (request : LoginRequest) (response : AuthRegResponse) (status : Status) :
    World × List Event :=
  (w.setLogin k (.answered request response status), [.loggedIn k request response status])

/-- A validation ends. -/
def endValidation (w : World) (k : ℕ) (token : String) (response : ValidateTokenResponse) (status : Status) :
    World × List Event :=
  (w.setValidation k (.answered token response status), [.validated k token response status])

/-- `SELECT … FROM users WHERE account = …`. -/
def findUser (w : World) (account : ℕ) : Option Registration.UserRow := w.reg.db.users.find? fun u => u.account = account

/-- `Login`, up to the coroutine. -/
def login (w : World) (k : ℕ) (request : LoginRequest) (uuid : String) : World × List Event :=
  if request.account = 0 ∨ request.password = "" then w.endLogin k request invalidParam .ok
  else (w.setLogin k (.asked request uuid (calculateExpiry w.now)), [])

/-- The password of the user that was found. -/
def checkUser (sha256 : String → Bytes) (w : World) (k : ℕ) (request : LoginRequest) (token : String)
    (expiresAt : ℕ) : Option Registration.UserRow → World × List Event
  | none => w.endLogin k request userNotFound .ok
  | some user =>
    if hashPassword sha256 request.password user.passwordSalt ≠ user.passwordHash then
      w.endLogin k request wrongPassword .ok
    else (w.setLogin k (.verified request token expiresAt user), [])

/-- The token is stored. -/
def storeToken (w : World) (token : String) (user : Registration.UserRow) : World :=
  { w with redis := w.redis.setex w.now (tokenKey token) tokenTtlSeconds (tokenValue user) }

/-- `ValidateToken`, up to the coroutine. -/
def validate (w : World) (k : ℕ) (token : String) : World × List Event :=
  if token = "" then w.endValidation k token {} .ok else (w.setValidation k (.asked token), [])

/-- The value that was read. -/
def readToken (w : World) (k : ℕ) (token : String) : Option String → World × List Event
  | none => w.endValidation k token {} .ok
  | some value =>
    match parseValue value with
    | .malformed => w.endValidation k token {} .ok
    | .threw => w.endValidation k token {} (.internal "Redis error")
    | .user userID account => (w.setValidation k (.read token userID account), [])

/-- The answer to a token that was found; the time to live is read last. -/
def validToken (w : World) (token : String) (userID account : ℕ) : ValidateTokenResponse where
  valid := true
  userID := userID
  account := account
  expiresAt :=
    let ttl := w.redis.ttl w.now (tokenKey token)
    if 0 ≤ ttl then (w.now + 1000 * ttl.toNat) / 1000 else 0

end World

/-! ## The system -/

/-- One step. -/
def step (sha256 : String → Bytes) (w : World) : Action → Option (World × List Event)
  | .tick ms => some ({ w with now := w.now + ms }, [])
  | .register k request uuid =>
    match request.register sha256 uuid with
    | .error e => some (w, [.registered k request (.error e)])
    | .ok input => (Registration.step sha256 w.reg (.register k input)).map fun r =>
        ({ w with reg := r.1 }, [.registered k request (.ok input)])
  | .registration (.register _ _) => none
  | .registration a => (Registration.step sha256 w.reg a).map fun r => ({ w with reg := r.1 }, [])
  | .login k request uuid =>
    match w.logins k with
    | .idle => some (w.login k request uuid)
    | _ => none
  | .findUser k fails =>
    match w.logins k with
    | .asked request token expiresAt =>
      -- an exception counts as no user
      some (w.checkUser sha256 k request token expiresAt (if fails then none else w.findUser request.account))
    | _ => none
  | .setex k applied exception =>
    match w.logins k with
    | .verified request token expiresAt user =>
      let w' := if applied then w.storeToken token user else w
      match exception with
      | some message => some (w'.endLogin k request (internalError message) (.internal message))
      | none => if applied then some (w'.endLogin k request (loginOk token expiresAt user) .ok) else none
    | _ => none
  | .validate k token =>
    match w.validations k with
    | .idle => some (w.validate k token)
    | _ => none
  | .get k fails =>
    match w.validations k with
    | .asked token =>
      if fails then some (w.endValidation k token {} (.internal "Redis error"))
      else some (w.readToken k token (w.redis.get w.now (tokenKey token)))
    | _ => none
  | .ttl k fails =>
    match w.validations k with
    | .read token userID account =>
      if fails then some (w.endValidation k token {} (.internal "Redis error"))
      else some (w.endValidation k token (w.validToken token userID account) .ok)
    | _ => none
  | .other key value sec =>
    some ({ w with redis := match value with
                    | some v => w.redis.setex w.now key.text sec v
                    | none => w.redis.del key.text }, [])
  | .lose key => some ({ w with redis := w.redis.del key }, [])

/-- The runs of `AuthService`, from the seeded tables. -/
abbrev AuthTrace (sha256 : String → Bytes) := Machine.Trace (step sha256) ({} : World)

end ApeServer.Auth
