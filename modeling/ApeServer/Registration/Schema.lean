/-
  The data of registration: the tables of `init.sql` that it uses, the input
  of a request, and its digest.

  Ids and accounts (`BIGINT UNSIGNED`) are natural numbers.

  * `payload_inj`: the encoding of three texts can be read back;
  * `RegDb.seeded` is the database that `init.sql` makes.
-/
import ApeServer.Lib.Table
import ApeServer.Lib.Decimal
import ApeServer.Group.Schema

namespace ApeServer.Registration

open Table

/-! ## Constants of `AccountPoolAllocator` -/

def kMinAccount : ℕ := 1000000000
def kMaxAccount : ℕ := 9999999999
def kLowWaterMark : ℕ := 1000
def kRefillBatch : ℕ := 10000

/-! ## Requests -/

/-- `userInfo`, as far as `insert_user` reads it. -/
structure UserInfo where
  nickname : String := ""
  phone : String := ""
  passwordHash : String := ""
  passwordSalt : String := ""
deriving DecidableEq, Repr

/-- `RegistrationInput`. -/
structure Input where
  requestID : String
  user : UserInfo
  payload : String
deriving DecidableEq, Repr

/-- `RegistrationResult`. -/
structure Result where
  userID : ℕ
  account : ℕ
deriving DecidableEq, Repr

/-- A text with its length in front. -/
def field (s : String) : String := Nat.repr s.utf8ByteSize ++ ":" ++ s

/-- `payload`. -/
def payload (a b c : String) : String := field a ++ field b ++ field c

/-- Texts of one size in front of a rest can be read back. -/
theorem append_inj_of_size {a b s t : String} (h : a ++ s = b ++ t)
    (hsize : a.utf8ByteSize = b.utf8ByteSize) : a = b ∧ s = t := by
  have h' : a.toList ++ s.toList = b.toList ++ t.toList := by simpa using congrArg String.toList h
  have hempty : ∀ {x y : String} {cs : List Char}, x.toList = y.toList ++ cs →
      x.utf8ByteSize = y.utf8ByteSize → cs = [] := by
    intro x y cs hx hs
    have hx' : x = y ++ String.ofList cs := String.toList_inj.1 (by simpa using hx)
    rw [hx', String.utf8ByteSize_append] at hs
    have : (String.ofList cs).utf8ByteSize = 0 := by omega
    simpa using this
  rcases List.append_eq_append_iff.1 h' with ⟨cs, hb, hs⟩ | ⟨cs, ha, ht⟩
  · obtain rfl := hempty hb hsize.symm
    exact ⟨String.toList_inj.1 (by simpa using hb.symm), String.toList_inj.1 (by simpa using hs)⟩
  · obtain rfl := hempty ha hsize
    exact ⟨String.toList_inj.1 (by simpa using ha), String.toList_inj.1 (by simpa using ht.symm)⟩

theorem field_append_inj {a b s t : String} (h : field a ++ s = field b ++ t) : a = b ∧ s = t := by
  unfold field at h
  obtain ⟨hsize, hrest⟩ := Decimal.repr_append_inj ":" ':' (by decide) (by decide)
    (s := a ++ s) (t := b ++ t) (by simpa [String.append_assoc] using h)
  exact append_inj_of_size hrest hsize

/-- **The encoding can be read back.** -/
theorem payload_inj {a b c a' b' c' : String} (h : payload a b c = payload a' b' c') :
    a = a' ∧ b = b' ∧ c = c' := by
  unfold payload at h
  rw [String.append_assoc, String.append_assoc] at h
  obtain ⟨ha, h⟩ := field_append_inj h
  obtain ⟨hb, h⟩ := field_append_inj h
  obtain ⟨hc, -⟩ := field_append_inj (s := "") (t := "") (by simpa using h)
  exact ⟨ha, hb, hc⟩

/-- `digest`, for the hash function `sha256`. -/
def digest (sha256 : String → Bytes) (salt data : String) : String :=
  Group.hex (sha256 (payload salt data ""))

/-- Where the hash function has no collision, neither has the digest. -/
theorem digest_inj {sha256 : String → Bytes} {salt data data' : String}
    (hc : sha256 (payload salt data "") = sha256 (payload salt data' "") →
      payload salt data "" = payload salt data' "")
    (h : digest sha256 salt data = digest sha256 salt data') : data = data' :=
  (payload_inj (hc (Group.hex_inj h))).2.1

/-! ## Tables -/

/-- `users`, unique in the user id, the account and the phone. -/
structure UserRow where
  userID : ℕ
  account : ℕ
  nickname : String
  phone : String
  passwordHash : String
  passwordSalt : String
deriving DecidableEq, Repr

/-- `account_pool`, unique in the id and the account; status 0 is free. -/
structure PoolRow where
  id : ℕ
  account : ℕ
  status : ℕ := 0
deriving DecidableEq, Repr

/-- `registration_requests`, with the request id as primary key. -/
structure RequestRow where
  requestID : String
  payloadSalt : String
  payloadHash : String
  userID : Option ℕ := none
  account : Option ℕ := none
deriving DecidableEq, Repr

/-- The committed tables, with `next_start` of the one row of
    `account_pool_cursor`. -/
structure RegDb where
  users : List UserRow
  pool : List PoolRow
  requests : List RequestRow
  nextStart : ℕ
deriving DecidableEq, Repr

/-- The user that `init.sql` inserts. -/
def seedUser : UserRow :=
  ⟨1, 1000000001, "Bob", "13800138000",
    "fa2f35eba15768650f7bd746c5d0a5717efe258c497c98ff6b6f7c6d23351fe8",
    "00112233445566778899aabbccddeeff"⟩

namespace RegDb

/-- The tables after `init.sql`. -/
def seeded : RegDb := ⟨[seedUser], [], [], 1000000002⟩

/-- `SELECT … FROM registration_requests WHERE request_id = …`. -/
def request? (db : RegDb) (requestID : String) : Option RequestRow :=
  db.requests.find? fun r => r.requestID = requestID

/-- `SELECT user_id FROM users WHERE phone = … LIMIT 1`, and whether there is one. -/
def phoneExists (db : RegDb) (phone : String) : Bool := db.users.any fun u => u.phone = phone

/-- `SELECT COUNT(*) FROM account_pool WHERE status = 0`. -/
def freeCount (db : RegDb) : ℕ := (db.pool.filter fun p => p.status = 0).length

/-- `SELECT id, account FROM account_pool WHERE status = 0 ORDER BY id LIMIT 1`. -/
def firstFree (db : RegDb) : Option PoolRow :=
  firstBy (fun p p' => p.id < p'.id) (db.pool.filter fun p => p.status = 0)

/-- `SELECT MAX(account)` over users and pool; without any row it is `NULL`. -/
def maximum (db : RegDb) : Option ℕ :=
  (db.users.map UserRow.account ++ db.pool.map PoolRow.account).max?

end RegDb

/-! ## Errors -/

/-- A failure of a statement: the server errors 1205, 1213 and 1062, or any
    other one, with a lost connection. -/
inductive SqlError where
  | lockWait | deadlock | duplicate | other
deriving DecidableEq, Repr

/-- `RegistrationError`. -/
structure RegError where
  code : String
  message : String
deriving DecidableEq, Repr

/-- What a call can throw. -/
inductive Thrown where
  | sql (e : SqlError)
  | error (e : RegError)
deriving DecidableEq, Repr

def conflict : RegError :=
  ⟨"IDEMPOTENCY_CONFLICT", "Request ID was already used for different input"⟩

def uncertain : RegError :=
  ⟨"REGISTRATION_UNCERTAIN", "Retry the same request ID to confirm registration"⟩

def phoneTaken : RegError := ⟨"PHONE_EXISTS", "Phone number is already registered"⟩

end ApeServer.Registration
