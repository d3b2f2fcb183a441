/-
  Decoding with errors ignored, of texts cut at a number of bytes.

  * `decodeIgnore_encode_append`: whole characters are read back;
  * `decodeIgnore_take_char`: of a character that is cut, nothing is left;
  * `fit`: the characters that fit into a number of bytes;
  * `decodeIgnore_take`: they are what is left of a cut text,
    `Valid.isPrefix_fit`: no valid prefix is longer.
-/
import ApeServer.Lib.Utf8

namespace Utf8

/-! ## Decoding -/

/-- Decode, and drop the bytes at which no character begins; the first `k` bytes
    belong to the character read last.  (Python drops the bytes of an
    ill-formed sequence together: after the first they are continuation bytes,
    at which no character begins.) -/
def decodeFrom : ℕ → List UInt8 → List Char
  | _, [] => []
  | k + 1, _ :: bs => decodeFrom k bs
  | 0, b :: bs =>
    match (b :: bs).toByteArray.utf8DecodeChar? 0 with
    | some c => c :: decodeFrom (c.utf8Size - 1) bs
    | none => decodeFrom 0 bs

/-- `bytes.decode("utf-8", errors="ignore")`. -/
def decodeIgnore (bs : List UInt8) : List Char := decodeFrom 0 bs

theorem decodeFrom_eq (k : ℕ) (bs : List UInt8) : decodeFrom k bs = decodeIgnore (bs.drop k) := by
  induction k generalizing bs with
  | zero => rfl
  | succ k ih =>
    cases bs with
    | nil => rfl
    | cons b bs => exact ih bs

theorem decodeIgnore_of_some {bs : List UInt8} {c : Char} (h : bs.toByteArray.utf8DecodeChar? 0 = some c)
    (hne : bs ≠ []) : decodeIgnore bs = c :: decodeIgnore (bs.drop c.utf8Size) := by
  cases bs with
  | nil => exact absurd rfl hne
  | cons b bs =>
    have hpos := c.utf8Size_pos
    obtain ⟨k, hk⟩ : ∃ k, c.utf8Size = k + 1 := ⟨c.utf8Size - 1, by omega⟩
    rw [decodeIgnore, decodeFrom, h]
    simp only [hk, Nat.add_sub_cancel, decodeFrom_eq, List.drop_succ_cons]

theorem decodeIgnore_of_none {b : UInt8} {bs : List UInt8} (h : (b :: bs).toByteArray.utf8DecodeChar? 0 = none) :
    decodeIgnore (b :: bs) = decodeIgnore bs := by
  rw [decodeIgnore, decodeFrom, h]
  rfl

theorem utf8DecodeChar?_append (c : Char) (bs : List UInt8) :
    (String.utf8EncodeChar c ++ bs).toByteArray.utf8DecodeChar? 0 = some c := by
  rw [List.toByteArray_append]
  exact ByteArray.utf8DecodeChar?_utf8EncodeChar_append

theorem utf8EncodeChar_ne_nil (c : Char) : String.utf8EncodeChar c ≠ [] := by
  intro h
  have hlen := String.length_utf8EncodeChar c
  have hpos := c.utf8Size_pos
  rw [h, List.length_nil] at hlen
  omega

theorem decodeIgnore_char_append (c : Char) (bs : List UInt8) :
    decodeIgnore (String.utf8EncodeChar c ++ bs) = c :: decodeIgnore bs := by
  rw [decodeIgnore_of_some (utf8DecodeChar?_append c bs), List.drop_left' (String.length_utf8EncodeChar c)]
  exact fun h => utf8EncodeChar_ne_nil c (List.append_eq_nil_iff.1 h).1

/-- **Whole characters are read back.** -/
theorem decodeIgnore_encode_append (cs : List Char) (bs : List UInt8) :
    decodeIgnore (encode cs ++ bs) = cs ++ decodeIgnore bs := by
  induction cs with
  | nil => rfl
  | cons c cs ih => rw [encode_cons, List.append_assoc, decodeIgnore_char_append, ih, List.cons_append]

/-- Dropped between them are an unfinished sequence, a surrogate and, at the end,
    the beginning of a character. -/
example : decodeIgnore [0x61, 0xe2, 0x82, 0x62, 0xed, 0xa0, 0x80, 0xc3, 0xa9, 0xf0, 0x9f] = ['a', 'b', 'é'] := by
  decide

theorem decodeIgnore_encode (cs : List Char) : decodeIgnore (encode cs) = cs := by
  simpa [decodeIgnore, decodeFrom] using decodeIgnore_encode_append cs []

/-! ### A character that is cut -/

/-- What is read in front is the encoding of a character. -/
theorem exists_append_of_some {bs : List UInt8} {c : Char} (h : bs.toByteArray.utf8DecodeChar? 0 = some c) :
    ∃ ds, bs = String.utf8EncodeChar c ++ ds := by
  have happ := congrArg (fun a : ByteArray => a.data.toList) (ByteArray.eq_of_utf8DecodeChar?_eq_some h)
  simp only [ByteArray.data_append, Array.toList_append, List.toList_data_toByteArray] at happ
  exact ⟨_, happ⟩

theorem first_of_some {b : UInt8} {bs : List UInt8} {c : Char} (h : (b :: bs).toByteArray.utf8DecodeChar? 0 = some c) :
    b.IsUTF8FirstByte := by
  have hfirst := ByteArray.isUTF8FirstByte_of_isSome_utf8DecodeChar? (Option.isSome_of_eq_some h)
  rwa [List.getElem_toByteArray] at hfirst

theorem not_first_of_isContinuation {b : UInt8} (h : isContinuation b = true) : ¬ b.IsUTF8FirstByte := by
  simp only [isContinuation, decide_eq_true_eq] at h
  -- each pattern of a first byte disagrees with `10` in the two highest bits
  have hmask : ∀ {m v : UInt8}, m &&& 0xc0 = 0xc0 → b &&& m = v → v &&& 0xc0 = 0x80 := by
    rintro m v hm rfl
    rw [UInt8.and_assoc, hm, h]
  rintro (h₁ | h₂ | h₃ | h₄)
  · have hzero : (b &&& 0xc0) &&& 0x80 = 0 := by
      rw [UInt8.and_assoc]
      exact h₁
    rw [h] at hzero
    cases hzero
  · cases hmask rfl h₂
  · cases hmask rfl h₃
  · cases hmask rfl h₄

theorem decodeIgnore_continuations {bs : List UInt8} (h : ∀ b ∈ bs, isContinuation b = true) :
    decodeIgnore bs = [] := by
  induction bs with
  | nil => rfl
  | cons b bs ih =>
    cases hd : (b :: bs).toByteArray.utf8DecodeChar? 0 with
    | none => rw [decodeIgnore_of_none hd, ih fun x hx => h x (List.mem_cons_of_mem _ hx)]
    | some c =>
      exact absurd (first_of_some hd) (not_first_of_isContinuation (h b List.mem_cons_self))

/-- **Of a character that is cut nothing is left.** -/
theorem decodeIgnore_take_char {c : Char} {k : ℕ} (hk : k < c.utf8Size) :
    decodeIgnore ((String.utf8EncodeChar c).take k) = [] := by
  cases hcut : (String.utf8EncodeChar c).take k with
  | nil => rfl
  | cons b bs =>
    have hsplit : String.utf8EncodeChar c = b :: bs ++ (String.utf8EncodeChar c).drop k := by
      rw [← hcut, List.take_append_drop]
    have hrest : ∀ x ∈ bs, isContinuation x = true := by
      intro x hx
      obtain ⟨i, hi⟩ := List.mem_iff_getElem?.1 hx
      refine isContinuation_of_getElem? (c := c) (i := i) ?_
      rw [hsplit, List.cons_append, List.getElem?_cons_succ]
      rw [List.getElem?_append_left (List.getElem?_eq_some_iff.1 hi).1, hi]
    cases hd : (b :: bs).toByteArray.utf8DecodeChar? 0 with
    | none => rw [decodeIgnore_of_none hd, decodeIgnore_continuations hrest]
    | some d =>
      -- a character that is read from the beginning of `c` is `c`
      obtain ⟨ds, hds⟩ := exists_append_of_some hd
      have hc := utf8DecodeChar?_append c []
      rw [List.append_nil, hsplit, hds, List.append_assoc, utf8DecodeChar?_append] at hc
      cases hc
      have hlen := congrArg List.length (hcut.trans hds)
      rw [List.length_take, List.length_append, String.length_utf8EncodeChar] at hlen
      omega

/-! ## Cuts -/

/-- The characters from the beginning of a text that fit into `n` bytes. -/
def fit : ℕ → List Char → List Char
  | _, [] => []
  | n, c :: cs => if c.utf8Size ≤ n then c :: fit (n - c.utf8Size) cs else []

theorem fit_isPrefix (n : ℕ) (cs : List Char) : fit n cs <+: cs := by
  induction cs generalizing n with
  | nil => exact List.prefix_rfl
  | cons c cs ih =>
    unfold fit
    split_ifs
    · exact List.cons_prefix_cons.2 ⟨rfl, ih _⟩
    · exact List.nil_prefix

theorem length_encode_fit (n : ℕ) (cs : List Char) : (encode (fit n cs)).length ≤ n := by
  induction cs generalizing n with
  | nil => exact Nat.zero_le n
  | cons c cs ih =>
    unfold fit
    split_ifs with hfit
    · have := ih (n - c.utf8Size)
      rw [encode_cons, List.length_append, String.length_utf8EncodeChar]
      omega
    · exact Nat.zero_le n

/-- **No more characters fit.** -/
theorem isPrefix_fit {n : ℕ} {ds cs : List Char} (h : ds <+: cs) (hn : (encode ds).length ≤ n) : ds <+: fit n cs := by
  induction cs generalizing n ds with
  | nil => rwa [List.prefix_nil.1 h] at *
  | cons c cs ih =>
    cases ds with
    | nil => exact List.nil_prefix
    | cons d ds =>
      obtain ⟨rfl, hds⟩ := List.cons_prefix_cons.1 h
      rw [encode_cons, List.length_append, String.length_utf8EncodeChar] at hn
      rw [fit, if_pos (by omega)]
      exact List.cons_prefix_cons.2 ⟨rfl, ih hds (by omega)⟩

/-- **What is left of a text that is cut** are the characters that fit. -/
theorem decodeIgnore_take (n : ℕ) (cs : List Char) : decodeIgnore ((encode cs).take n) = fit n cs := by
  induction cs generalizing n with
  | nil => simp [decodeIgnore, decodeFrom, fit]
  | cons c cs ih =>
    have hlen := String.length_utf8EncodeChar c
    rw [encode_cons, List.take_append, hlen, fit]
    split_ifs with hfit
    · rw [List.take_of_length_le (hlen.trans_le hfit), decodeIgnore_char_append, ih]
    · rw [Nat.sub_eq_zero_of_le (by omega), List.take_zero, List.append_nil, decodeIgnore_take_char (by omega)]

theorem encode_isPrefix_iff {ds cs : List Char} : encode ds <+: encode cs ↔ ds <+: cs := by
  constructor
  · rintro ⟨bs, hbs⟩
    refine ⟨decodeIgnore bs, ?_⟩
    rw [← decodeIgnore_encode_append, hbs, decodeIgnore_encode]
  · rintro ⟨es, rfl⟩
    exact ⟨encode es, (encode_append ds es).symm⟩

/-- A valid prefix consists of whole characters. -/
theorem Valid.isPrefix_fit {n : ℕ} {bs : List UInt8} {cs : List Char} (h : Valid bs) (hp : bs <+: encode cs)
    (hn : bs.length ≤ n) : bs <+: encode (fit n cs) := by
  obtain ⟨ds, rfl⟩ := h
  exact encode_isPrefix_iff.2 (Utf8.isPrefix_fit (encode_isPrefix_iff.1 hp) hn)

/-- After whole characters comes no continuation byte. -/
theorem not_isContinuation_after {ds cs : List Char} (h : ds <+: cs) {b : UInt8}
    (hb : (encode cs)[(encode ds).length]? = some b) : isContinuation b = false := by
  obtain ⟨es, rfl⟩ := h
  rw [encode_append, List.getElem?_append_right le_rfl, Nat.sub_self] at hb
  cases hrest : encode es with
  | nil =>
    rw [hrest] at hb
    cases hb
  | cons x xs =>
    rw [hrest] at hb
    cases hb
    have hfirst := Valid.first (hrest ▸ valid_encode es)
    exact Bool.eq_false_iff.2 fun hc => not_first_of_isContinuation hc hfirst

end Utf8
