/-
  `AuthServiceImpl::Register`: which requests it accepts, and what it passes on.

  It counts bytes, while the columns count characters: of an accepted request
  only the nickname can be too long (`register_start`, `register_picked`).
-/
import ApeServer.Registration.Alone
import ApeServer.Lib.Utf8

namespace ApeServer.Registration

/-- `RegisterRequest`, with the metadata `x-registration-id` if there is any. -/
structure RegisterRequest where
  registrationID : Option String
  phone : String
  nickname : String
  password : String
deriving DecidableEq, Repr

/-- `validId`. -/
def validId (requestID : String) : Bool :=
  requestID ≠ "" && requestID.utf8ByteSize ≤ 64 &&
    requestID.toList.all fun c =>
      ('a' ≤ c && c ≤ 'z') || ('A' ≤ c && c ≤ 'Z') || ('0' ≤ c && c ≤ '9') || c = '-'

/-- `validPhone`. -/
def validPhone (phone : String) : Bool :=
  phone.utf8ByteSize = 11 &&
    (match phone.toList with
    | c₀ :: c₁ :: _ => c₀ = '1' && '3' ≤ c₁ && c₁ ≤ '9'
    | _ => false) &&
    phone.toList.all fun c => '0' ≤ c && c ≤ '9'

/-- `hash_password`. -/
def hashPassword (sha256 : String → Bytes) (password salt : String) : String :=
  Group.hex (sha256 (salt ++ password))

/-- `generate_salt`, for the text of a random UUID. -/
def generateSalt (uuid : String) : String := String.ofList (uuid.toList.take 32)

namespace RegisterRequest

def requestID (request : RegisterRequest) : String := request.registrationID.getD ""

/-- The input that `task` builds. -/
def input (request : RegisterRequest) (sha256 : String → Bytes) (uuid : String) : Input where
  requestID := request.requestID
  user :=
    { nickname := request.nickname
      phone := request.phone
      passwordHash := hashPassword sha256 request.password (generateSalt uuid)
      passwordSalt := generateSalt uuid }
  payload := payload request.phone request.nickname request.password

/-- `Register`, up to the call of `register_user`. -/
def register (request : RegisterRequest) (sha256 : String → Bytes) (uuid : String) : Except RegError Input :=
  if !validId request.requestID || !validPhone request.phone || request.nickname = "" ||
      256 < request.nickname.utf8ByteSize || request.password = "" || 1024 < request.password.utf8ByteSize then
    .error ⟨"INVALID_INFO", "Valid registration request ID, phone, nickname and password are required"⟩
  else .ok (request.input sha256 uuid)

end RegisterRequest

section
variable {sha256 : String → Bytes} {uuid : String} {request : RegisterRequest} {input : Input}

/-- What an accepted request passes on. -/
theorem register_ok (h : request.register sha256 uuid = .ok input) :
    input = request.input sha256 uuid ∧ request.requestID.length ≤ 64 ∧ request.phone.length ≤ 11 := by
  unfold RegisterRequest.register at h
  split_ifs at h with hinvalid
  simp only [Bool.or_eq_true, not_or, Bool.not_eq_true', Bool.not_eq_false] at hinvalid
  obtain ⟨⟨⟨⟨⟨hid, hphone⟩, -⟩, -⟩, -⟩, -⟩ := hinvalid
  simp only [validId, Bool.and_eq_true, decide_eq_true_eq] at hid
  simp only [validPhone, Bool.and_eq_true, decide_eq_true_eq] at hphone
  refine ⟨(Except.ok.inj h).symm, (Utf8.length_le_size _).trans hid.1.2, ?_⟩
  exact (Utf8.length_le_size _).trans hphone.1.1.le

theorem length_generateSalt (uuid : String) : (generateSalt uuid).length ≤ 32 := by
  simp [generateSalt]

/-- Two characters for each byte of the hash. -/
theorem length_hash (hsize : ∀ s, (sha256 s).length = 32) (s : String) :
    (Group.hex (sha256 s)).length = 64 := by
  rw [← String.length_toList, Group.length_hex, hsize]

/-- The ledger takes every accepted request. -/
theorem register_start (hsize : ∀ s, (sha256 s).length = 32)
    (h : request.register sha256 uuid = .ok input) : input.refused sha256 .start = false := by
  obtain ⟨rfl, hid, -⟩ := register_ok h
  have hsalt := tooLong_of_le ((length_generateSalt uuid).trans (show 32 ≤ 64 by decide))
  have hdigest := fun data => tooLong_of_le (length_hash hsize data).le
  simp only [Input.refused, RegisterRequest.input, digest, tooLong_of_le hid, hsalt, hdigest, Bool.or_false]

/-- `users` takes it unless the nickname is too long. -/
theorem register_picked (hsize : ∀ s, (sha256 s).length = 32)
    (h : request.register sha256 uuid = .ok input) (id account : ℕ) :
    input.refused sha256 (.picked id account) = tooLong 64 request.nickname := by
  obtain ⟨rfl, -, hphone⟩ := register_ok h
  have hsalt := tooLong_of_le ((length_generateSalt uuid).trans (show 32 ≤ 64 by decide))
  have hhash := fun data => tooLong_of_le ((length_hash hsize data).le.trans (show 64 ≤ 255 by decide))
  simp only [Input.refused, RegisterRequest.input, hashPassword, tooLong_of_le hphone, hsalt, hhash,
    Bool.or_false]

end

end ApeServer.Registration
