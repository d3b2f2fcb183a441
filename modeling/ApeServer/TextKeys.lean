/-
  The texts by which requests, conversations and tasks are told apart
  (`mysql_registration::payload`, and the conversation ids and dedupe keys of
  `src/storage/mysqlhandler.cpp`).

  * `payloadBytes_inj`: the encoding of three byte strings can be read back,
    `payloadBytes_utf8`: it is that of the texts;
  * `messageKey_eq`, `cleanupDedupeKey_inj`, `ackKey_eq`: the keys of the three
    kinds of tasks;
  * `text_keys`: all of them can be read back, and fit their columns.
-/
import ApeServer.Lib.Utf8
import ApeServer.Outbox
import ApeServer.Registration.Schema
import Std.Data.String.ToInt

namespace ApeServer

/-! ## Registration payloads -/

namespace Registration

/-- `std::to_string` of a size, as bytes. -/
def decimalBytes (n : ℕ) : Bytes := (Nat.toDigits 10 n).map fun c => UInt8.ofNat c.toNat

/-- A byte string with its size and a colon in front. -/
def fieldBytes (s : Bytes) : Bytes := decimalBytes s.length ++ 58 :: s

/-- `payload`, of any byte strings. -/
def payloadBytes (a b c : Bytes) : Bytes := fieldBytes a ++ fieldBytes b ++ fieldBytes c

theorem digit_range {c : Char} {n : ℕ} (h : c ∈ Nat.toDigits 10 n) : 48 ≤ c.toNat ∧ c.toNat ≤ 57 := by
  have hd := Nat.isDigit_of_mem_toDigits (by decide) (by decide) h
  simp only [Char.isDigit, Bool.and_eq_true, decide_eq_true_eq] at hd
  exact ⟨UInt32.le_iff_toNat_le.1 hd.1, UInt32.le_iff_toNat_le.1 hd.2⟩

theorem notMem_decimalBytes (n : ℕ) : 58 ∉ decimalBytes n := by
  intro h
  obtain ⟨c, hc, he⟩ := List.mem_map.1 h
  have hrange := digit_range hc
  have hnat := congrArg UInt8.toNat he
  rw [UInt8.toNat_ofNat', show (58 : UInt8).toNat = 58 from rfl] at hnat
  omega

/-- The digits of a number, back from the bytes. -/
theorem map_decimalBytes (n : ℕ) : (decimalBytes n).map (fun b => Char.ofNat b.toNat) = Nat.toDigits 10 n := by
  rw [decimalBytes, List.map_map]
  refine (List.map_congr_left fun c hc => ?_).trans (List.map_id _)
  have hrange := digit_range hc
  rw [Function.comp_apply, UInt8.toNat_ofNat', Nat.mod_eq_of_lt (by omega), Char.ofNat_toNat, id]

theorem decimalBytes_inj {m n : ℕ} (h : decimalBytes m = decimalBytes n) : m = n := by
  refine Nat.repr_inj.1 (String.toList_inj.1 ?_)
  rw [Nat.toList_repr, Nat.toList_repr, ← map_decimalBytes, h, map_decimalBytes]

theorem fieldBytes_append_inj {a b s t : Bytes} (h : fieldBytes a ++ s = fieldBytes b ++ t) : a = b ∧ s = t := by
  simp only [fieldBytes, List.append_assoc, List.cons_append] at h
  -- the first colon ends the size, and the size says where the rest begins
  obtain ⟨hsize, hrest⟩ := Decimal.append_cons_inj (notMem_decimalBytes _) (notMem_decimalBytes _) h
  exact List.append_inj hrest (decimalBytes_inj hsize)

/-- **The encoding of three byte strings can be read back.** -/
theorem payloadBytes_inj {a b c a' b' c' : Bytes} :
    payloadBytes a b c = payloadBytes a' b' c' ↔ a = a' ∧ b = b' ∧ c = c' := by
  constructor
  · intro h
    simp only [payloadBytes, List.append_assoc] at h
    obtain ⟨ha, h⟩ := fieldBytes_append_inj h
    obtain ⟨hb, h⟩ := fieldBytes_append_inj h
    obtain ⟨hc, -⟩ := fieldBytes_append_inj (s := []) (t := []) (by simpa using h)
    exact ⟨ha, hb, hc⟩
  · rintro ⟨rfl, rfl, rfl⟩
    rfl

/-- `digest` of any byte strings. -/
def digestBytes (sha256 : Bytes → Bytes) (salt data : Bytes) : String :=
  Group.hex (sha256 (payloadBytes salt data []))

/-- **The digest compares the three texts**: different ones have the same
    digest only by a collision of the hash function. -/
theorem digestBytes_eq {sha256 : Bytes → Bytes} {salt a b c a' b' c' : Bytes} :
    digestBytes sha256 salt (payloadBytes a b c) = digestBytes sha256 salt (payloadBytes a' b' c') ↔
      (a = a' ∧ b = b' ∧ c = c') ∨
        (payloadBytes salt (payloadBytes a b c) [] ≠ payloadBytes salt (payloadBytes a' b' c') [] ∧
          sha256 (payloadBytes salt (payloadBytes a b c) []) = sha256 (payloadBytes salt (payloadBytes a' b' c') [])) := by
  constructor
  · intro h
    have hhash := Group.hex_inj h
    by_cases hsame : payloadBytes salt (payloadBytes a b c) [] = payloadBytes salt (payloadBytes a' b' c') []
    · exact Or.inl (payloadBytes_inj.1 (payloadBytes_inj.1 hsame).2.1)
    · exact Or.inr ⟨hsame, hhash⟩
  · rintro (⟨rfl, rfl, rfl⟩ | ⟨-, hhash⟩)
    · rfl
    · exact congrArg Group.hex hhash

/-! ### Of texts -/

/-- The bytes of a text. -/
def utf8 (s : String) : Bytes := Utf8.encode s.toList

theorem utf8_append (s t : String) : utf8 (s ++ t) = utf8 s ++ utf8 t := by
  rw [utf8, String.toList_append, Utf8.encode_append]
  rfl

theorem length_utf8 (s : String) : (utf8 s).length = s.utf8ByteSize := by
  rw [utf8, Utf8.length_encode, String.ofList_toList]

theorem utf8_repr (n : ℕ) : utf8 (Nat.repr n) = decimalBytes n := by
  rw [utf8, Utf8.encode, Nat.toList_repr, decimalBytes, List.map_eq_flatMap]
  refine List.flatMap_congr fun c hc => ?_
  have hrange := digit_range hc
  have hsize : c.utf8Size = 1 := Decimal.utf8Size_digit (Nat.isDigit_of_mem_toDigits (by decide) (by decide) hc)
  rw [String.utf8EncodeChar_eq_singleton hsize]
  rfl

/-- **The bytes of the encoding of three texts.** -/
theorem payloadBytes_utf8 (a b c : String) : utf8 (payload a b c) = payloadBytes (utf8 a) (utf8 b) (utf8 c) := by
  have hfield : ∀ s, utf8 (field s) = fieldBytes (utf8 s) := by
    intro s
    rw [field, utf8_append, utf8_append, utf8_repr, fieldBytes, length_utf8, List.append_assoc]
    rfl
  rw [payload, utf8_append, utf8_append, hfield, hfield, hfield, payloadBytes]

end Registration

/-! ## Dedupe keys -/

/-- What `QueueSingleMessage` admits. -/
def SingleMessage := {m : MsgData // validSingleMessage m = true}

/-- The server message ids that `QueueMessageAck` admits. -/
def AckID := {serverId : String // serverId ≠ "" ∧ serverId.utf8ByteSize ≤ 128}

/-- The dedupe key of `QueueConversationCleanup`, for any `int64_t`. -/
def cleanupDedupeKey (actor peer : Account) (cutoff : Int64) : String :=
  conversationId actor peer ++ ":" ++ Int.repr cutoff.toInt

/-- It is the key of the cleanups, whose cutoffs are not negative. -/
theorem cleanupDedupeKey_eq {actor peer : Account} {cutoff : Int64} {n : ℕ} (h : cutoff.toInt = n) :
    cleanupDedupeKey actor peer cutoff = Db.cleanupKey (conversationId actor peer) n := by
  rw [cleanupDedupeKey, Db.cleanupKey, h]
  rfl

/-- Two accounts, in any order. -/
def SamePair (a b a' b' : Account) : Prop := (a = a' ∧ b = b') ∨ (a = b' ∧ b = a')

theorem conversationId_eq {a b a' b' : Account} : conversationId a b = conversationId a' b' ↔ SamePair a b a' b' := by
  constructor
  · exact conversationId_inj
  · rintro (⟨rfl, rfl⟩ | ⟨rfl, rfl⟩)
    · rfl
    · exact conversationId_comm _ _

theorem messageKey_eq {m m' : MsgData} :
    messageKey m = messageKey m' ↔ m.sendID = m'.sendID ∧ m.clientMsgID = m'.clientMsgID := by
  refine ⟨messageKey_inj, fun ⟨hs, hc⟩ => ?_⟩
  rw [messageKey, messageKey, hs, hc]

theorem ackKey_eq {owner owner' : Account} {serverId serverId' : String} :
    ackKey owner serverId = ackKey owner' serverId' ↔ owner = owner' ∧ serverId = serverId' := by
  refine ⟨ackKey_inj, fun ⟨ho, hi⟩ => ?_⟩
  rw [ho, hi]

/-- A conversation id has no colon. -/
theorem notMem_conversationId (a b : Account) : ':' ∉ (conversationId a b).toList := by
  intro h
  rw [conversationId, String.toList_append, String.toList_append, List.mem_append, List.mem_append] at h
  rcases h with (h | h) | h
  · rw [accountText, Nat.toList_repr] at h
    exact Decimal.notMem_toDigits (by decide) _ h
  · exact absurd h (by decide)
  · rw [accountText, Nat.toList_repr] at h
    exact Decimal.notMem_toDigits (by decide) _ h

theorem cleanupDedupeKey_inj {a b a' b' : Account} {cutoff cutoff' : Int64} :
    cleanupDedupeKey a b cutoff = cleanupDedupeKey a' b' cutoff' ↔ SamePair a b a' b' ∧ cutoff = cutoff' := by
  constructor
  · intro h
    have hlist : (conversationId a b).toList ++ ':' :: (Int.repr cutoff.toInt).toList =
        (conversationId a' b').toList ++ ':' :: (Int.repr cutoff'.toInt).toList := by
      simpa [cleanupDedupeKey] using congrArg String.toList h
    obtain ⟨hconv, hcut⟩ := Decimal.append_cons_inj (notMem_conversationId a b) (notMem_conversationId a' b') hlist
    exact ⟨conversationId_eq.1 (String.toList_inj.1 hconv),
      Int64.toInt_inj.1 (Int.repr_inj.1 (String.toList_inj.1 hcut))⟩
  · rintro ⟨hpair, rfl⟩
    rw [cleanupDedupeKey, cleanupDedupeKey, conversationId_eq.2 hpair]

/-! ## Columns -/

/-- The declared lengths of `dedupe_key` and `conversation_id` of `im_outbox`. -/
def dedupeKeyColumn : ℕ := 256

def conversationIdColumn : ℕ := 64

theorem size_accountText (a : Account) : (accountText a).utf8ByteSize ≤ 20 := by
  have := a.toNat_lt
  exact (Decimal.size_repr_le (by decide)).2 (by omega)

theorem size_conversationId (a b : Account) : (conversationId a b).utf8ByteSize ≤ 41 := by
  have hmin := size_accountText (min a b)
  have hmax := size_accountText (max a b)
  rw [conversationId, String.utf8ByteSize_append, String.utf8ByteSize_append, show "_".utf8ByteSize = 1 from rfl]
  omega

/-- A sign and 19 digits. -/
theorem size_int64 (z : Int64) : (Int.repr z.toInt).utf8ByteSize ≤ 20 := by
  have hlo := z.le_toInt
  have hhi := z.toInt_lt
  rcases h : z.toInt with n | n
  · simp only [h, Int.ofNat_eq_natCast] at hhi
    exact (Decimal.size_repr_le (by decide)).2 (by omega)
  · have hsize : (Nat.repr (n + 1)).utf8ByteSize ≤ 19 := (Decimal.size_repr_le (by decide)).2 (by omega)
    show ("-" ++ Nat.repr (n + 1)).utf8ByteSize ≤ 20
    rw [String.utf8ByteSize_append, show "-".utf8ByteSize = 1 from rfl]
    omega

theorem size_messageKey (m : SingleMessage) : (messageKey m.1).utf8ByteSize ≤ 149 := by
  have hsend := size_accountText m.1.sendID
  have hclient : m.1.clientMsgID.utf8ByteSize ≤ 128 := by
    have hv := m.2
    simp only [validSingleMessage, Bool.and_eq_true, decide_eq_true_eq] at hv
    exact hv.1.1.2
  rw [messageKey, String.utf8ByteSize_append, String.utf8ByteSize_append, show ":".utf8ByteSize = 1 from rfl]
  omega

theorem size_cleanupDedupeKey (a b : Account) (cutoff : Int64) :
    (cleanupDedupeKey a b cutoff).utf8ByteSize ≤ 62 := by
  have hconv := size_conversationId a b
  have hcut := size_int64 cutoff
  rw [cleanupDedupeKey, String.utf8ByteSize_append, String.utf8ByteSize_append, show ":".utf8ByteSize = 1 from rfl]
  omega

theorem size_ackKey (owner : Account) (serverId : AckID) : (ackKey owner serverId.1).utf8ByteSize ≤ 149 := by
  have howner := size_accountText owner
  have hid := serverId.2.2
  rw [ackKey, String.utf8ByteSize_append, String.utf8ByteSize_append, show ":".utf8ByteSize = 1 from rfl]
  omega

open Registration in
/-- What the texts stand for can be read back from them, and they fit their
    columns. -/
structure TextKeys : Prop where
  payload : ∀ a b c a' b' c', payloadBytes a b c = payloadBytes a' b' c' ↔ a = a' ∧ b = b' ∧ c = c'
  /-- two digests with one salt agree for the same three texts, or by a
      collision of the hash function -/
  digest : ∀ sha256 salt a b c a' b' c',
    digestBytes sha256 salt (payloadBytes a b c) = digestBytes sha256 salt (payloadBytes a' b' c') ↔
      (a = a' ∧ b = b' ∧ c = c') ∨
        (payloadBytes salt (payloadBytes a b c) [] ≠ payloadBytes salt (payloadBytes a' b' c') [] ∧
          sha256 (payloadBytes salt (payloadBytes a b c) []) = sha256 (payloadBytes salt (payloadBytes a' b' c') []))
  conversation : ∀ a b a' b', conversationId a b = conversationId a' b' ↔ SamePair a b a' b'
  message : ∀ m m', messageKey m = messageKey m' ↔ m.sendID = m'.sendID ∧ m.clientMsgID = m'.clientMsgID
  cleanup : ∀ a b cutoff a' b' cutoff', cleanupDedupeKey a b cutoff = cleanupDedupeKey a' b' cutoff' ↔
    SamePair a b a' b' ∧ cutoff = cutoff'
  ack : ∀ owner serverId owner' serverId', ackKey owner serverId = ackKey owner' serverId' ↔
    owner = owner' ∧ serverId = serverId'
  conversationFits : ∀ a b, (conversationId a b).utf8ByteSize ≤ conversationIdColumn
  messageFits : ∀ m : SingleMessage, (messageKey m.1).utf8ByteSize ≤ dedupeKeyColumn
  cleanupFits : ∀ a b cutoff, (cleanupDedupeKey a b cutoff).utf8ByteSize ≤ dedupeKeyColumn
  ackFits : ∀ owner, ∀ serverId : AckID, (ackKey owner serverId.1).utf8ByteSize ≤ dedupeKeyColumn

/-- **Composite text keys are injective.** -/
theorem text_keys : TextKeys where
  payload _ _ _ _ _ _ := Registration.payloadBytes_inj
  digest _ _ _ _ _ _ _ _ := Registration.digestBytes_eq
  conversation _ _ _ _ := conversationId_eq
  message _ _ := messageKey_eq
  cleanup _ _ _ _ _ _ := cleanupDedupeKey_inj
  ack _ _ _ _ := ackKey_eq
  conversationFits a b := (size_conversationId a b).trans (by decide)
  messageFits m := (size_messageKey m).trans (by decide)
  cleanupFits a b cutoff := (size_cleanupDedupeKey a b cutoff).trans (by decide)
  ackFits owner serverId := (size_ackKey owner serverId).trans (by decide)

end ApeServer
