/-
  UTF-8 texts as lists of bytes.

  A text is valid if it is the encoding of some characters.  Cut where no
  continuation byte (`10xxxxxx`) stands, a valid text stays valid
  (`Valid.take`).  A text has no more characters than bytes
  (`length_le_size`).
-/
import Mathlib.Tactic

namespace Utf8

/-- The bytes are the encoding of some characters. -/
def Valid (bs : List UInt8) : Prop := ∃ cs : List Char, cs.flatMap String.utf8EncodeChar = bs

theorem valid_iff {bs : List UInt8} : Valid bs ↔ bs.toByteArray.IsValidUTF8 := by
  constructor
  · rintro ⟨cs, rfl⟩
    exact ⟨cs, rfl⟩
  · rintro ⟨cs, hcs⟩
    refine ⟨cs, ?_⟩
    have h : (cs.flatMap String.utf8EncodeChar).toByteArray = bs.toByteArray := hcs.symm
    simpa using congrArg (fun b : ByteArray => b.data.toList) h

instance : DecidablePred Valid := fun _ => decidable_of_iff _ valid_iff.symm

/-- The bytes of characters. -/
def encode (cs : List Char) : List UInt8 := cs.flatMap String.utf8EncodeChar

@[simp] theorem encode_nil : encode [] = [] := rfl

@[simp] theorem encode_cons (c : Char) (cs : List Char) : encode (c :: cs) = String.utf8EncodeChar c ++ encode cs :=
  List.flatMap_cons

@[simp] theorem encode_append (cs ds : List Char) : encode (cs ++ ds) = encode cs ++ encode ds :=
  List.flatMap_append

theorem valid_encode (cs : List Char) : Valid (encode cs) := ⟨cs, rfl⟩

theorem length_encode (cs : List Char) : (encode cs).length = (String.ofList cs).utf8ByteSize := by
  induction cs with
  | nil => rfl
  | cons c cs ih =>
    rw [encode_cons, List.length_append, ih, String.length_utf8EncodeChar, String.ofList_cons,
      String.utf8ByteSize_append, String.utf8ByteSize_singleton]

/-- A byte inside the encoding of a character. -/
def isContinuation (b : UInt8) : Bool := b &&& 0xc0 = 0x80

theorem valid_nil : Valid [] := ⟨[], rfl⟩

theorem isContinuation_or (b : UInt8) : isContinuation (b &&& 0x3f ||| 0x80) = true := by
  unfold isContinuation
  rw [decide_eq_true_eq, ← UInt8.toBitVec_inj]
  simp only [UInt8.toBitVec_and, UInt8.toBitVec_or]
  ext i hi
  interval_cases i <;> simp

/-- After the first byte of a character come continuation bytes. -/
theorem isContinuation_of_getElem? {c : Char} {i : ℕ} {b : UInt8}
    (h : (String.utf8EncodeChar c)[i + 1]? = some b) : isContinuation b = true := by
  rcases c.utf8Size_eq with hs | hs | hs | hs
  · rw [String.utf8EncodeChar_eq_singleton hs] at h
    cases h
  · rw [String.utf8EncodeChar_eq_cons_cons hs] at h
    match i, h with
    | 0, h => cases h; exact isContinuation_or _
  · rw [String.utf8EncodeChar_eq_cons_cons_cons hs] at h
    match i, h with
    | 0, h => cases h; exact isContinuation_or _
    | 1, h => cases h; exact isContinuation_or _
  · rw [String.utf8EncodeChar_eq_cons_cons_cons_cons hs] at h
    match i, h with
    | 0, h => cases h; exact isContinuation_or _
    | 1, h => cases h; exact isContinuation_or _
    | 2, h => cases h; exact isContinuation_or _

/-- **A cut between two characters.** -/
theorem Valid.take {bs : List UInt8} (h : Valid bs) {n : ℕ}
    (hn : ∀ b, bs[n]? = some b → isContinuation b = false) : Valid (bs.take n) := by
  obtain ⟨cs, rfl⟩ := h
  induction cs generalizing n with
  | nil => exact ⟨[], by simp⟩
  | cons c cs ih =>
    rw [List.flatMap_cons] at hn ⊢
    by_cases hlen : n < (String.utf8EncodeChar c).length
    · cases n with
      | zero => exact valid_nil
      | succ n =>
        -- inside the first character
        rw [List.getElem?_append_left hlen] at hn
        have hb := isContinuation_of_getElem? (List.getElem?_eq_getElem hlen)
        rw [hn _ (List.getElem?_eq_getElem hlen)] at hb
        cases hb
    · rw [List.getElem?_append_right (not_lt.1 hlen)] at hn
      obtain ⟨ds, hds⟩ := ih hn
      refine ⟨c :: ds, ?_⟩
      rw [List.flatMap_cons, hds, List.take_append, List.take_of_length_le (not_lt.1 hlen)]

/-- A valid text begins with the first byte of a character. -/
theorem Valid.first {b : UInt8} {bs : List UInt8} (h : Valid (b :: bs)) : b.IsUTF8FirstByte := by
  obtain ⟨cs, hcs⟩ := h
  cases cs with
  | nil => cases hcs
  | cons c cs =>
    rw [List.flatMap_cons] at hcs
    have hlen : 0 < (String.utf8EncodeChar c).length := by
      rw [String.length_utf8EncodeChar]
      exact c.utf8Size_pos
    have hb : (String.utf8EncodeChar c)[0] = b := by
      have hget := congrArg (·[0]?) hcs
      simpa [List.getElem?_append_left hlen, List.getElem?_eq_getElem hlen] using hget
    rw [← hb]
    exact UInt8.isUTF8FirstByte_getElem_utf8EncodeChar.2 rfl

/-- A character takes a byte or more. -/
theorem length_le_size (s : String) : s.length ≤ s.utf8ByteSize := by
  have h : ∀ cs : List Char, cs.length ≤ (String.ofList cs).utf8ByteSize := by
    intro cs
    induction cs with
    | nil => simp
    | cons c cs ih =>
      have := c.utf8Size_pos
      rw [String.ofList_cons, String.utf8ByteSize_append, String.utf8ByteSize_singleton, List.length_cons]
      omega
  rw [← String.length_toList]
  simpa using h s.toList

end Utf8
