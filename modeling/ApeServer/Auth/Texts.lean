/-
  The texts of tokens in Redis.

  * `tokenKey_ne_other`: no other key is that of a token;
  * `stoull_repr`, `parseValue_tokenValue`: the value of a token is read back.
-/
import ApeServer.Auth.Machine
import ApeServer.TextKeys
import Mathlib.Data.List.TakeWhile

namespace ApeServer.Auth

open Registration

/-! ## Keys -/

theorem tokenKey_inj {t t' : String} (h : tokenKey t = tokenKey t') : t = t' := by
  have h' := congrArg String.toList h
  simp only [tokenKey, String.toList_append] at h'
  exact String.toList_inj.1 (List.append_cancel_left h')

theorem head?_append {s : String} {c : Char} (h : s.toList.head? = some c) (t : String) :
    (s ++ t).toList.head? = some c := by
  rw [String.toList_append, List.head?_append, h]
  rfl

theorem head?_tokenKey (t : String) : (tokenKey t).toList.head? = some 't' :=
  head?_append (s := "token:") (by decide) t

theorem head?_otherKey (key : OtherKey) : key.text.toList.head? ≠ some 't' := by
  obtain ⟨c, hc, hne⟩ : ∃ c, key.text.toList.head? = some c ∧ c ≠ 't' := by
    cases key with
    | msg id => exact ⟨'m', head?_append (s := "msg:") (by decide) id, by decide⟩
    | msgConv id => exact ⟨'m', head?_append (s := "msg_conv:") (by decide) id, by decide⟩
    | consumed id => exact ⟨'m', head?_append (s := "msg:consumed:") (by decide) id, by decide⟩
    | ackOnline id => exact ⟨'p', head?_append (s := "pending_ack:online:") (by decide) id, by decide⟩
    | ackOffline owner id =>
      have h := head?_append (s := "pending_ack:offline:") (c := 'p') (by decide) (Nat.repr owner)
      exact ⟨'p', head?_append (head?_append h ":") id, by decide⟩
    | online account =>
      have h := head?_append (s := "user:") (c := 'u') (by decide) (Nat.repr account)
      exact ⟨'u', head?_append h ":online", by decide⟩
    | service name => cases name <;> exact ⟨_, rfl, by decide⟩
  rw [hc]
  exact fun h => hne (Option.some.inj h)

/-- **No other key is that of a token.** -/
theorem tokenKey_ne_other (t : String) (key : OtherKey) : tokenKey t ≠ key.text := by
  intro h
  refine head?_otherKey key ?_
  rw [← h]
  exact head?_tokenKey t

/-! ## Values -/

theorem takeWhile_toDigits {p : Char → Bool} (n : ℕ) (hp : ∀ c, c.isDigit = true → p c = true) :
    (Nat.toDigits 10 n).takeWhile p = Nat.toDigits 10 n :=
  List.takeWhile_eq_self_iff.2 fun _ hc => hp _ (Nat.isDigit_of_mem_toDigits (by decide) (by decide) hc)

/-- **A number is read back**, if it fits. -/
theorem stoull_repr (n : ℕ) : stoull (Nat.repr n) = if n < 2 ^ 64 then some n else none := by
  have hvalue : (Nat.toDigits 10 n).foldl (fun n c => 10 * n + (c.toNat - '0'.toNat)) 0 = n := by
    rw [← Nat.ofDigitChars_eq_foldl, Nat.ofDigitChars_ten_toDigits]
  have hdigits : stoullDigits false (Nat.toDigits 10 n) = if n < 2 ^ 64 then some n else none := by
    have hne : Nat.toDigits 10 n ≠ [] := by
      intro h
      exact Nat.repr_ne_empty (n := n) (String.toList_inj.1 (by rw [Nat.toList_repr, h]; rfl))
    unfold stoullDigits
    dsimp only
    rw [takeWhile_toDigits n fun c hc => hc, hvalue]
    by_cases h : n < 2 ^ 64
    · rw [if_pos h, if_neg (by simp [hne]; omega)]
      simp
    · rw [if_neg h, if_pos (Or.inr (by omega))]
  have hrange : ∀ c ∈ Nat.toDigits 10 n, 48 ≤ c.toNat ∧ c.toNat ≤ 57 := fun c hc => digit_range hc
  unfold stoull
  rw [Nat.toList_repr]
  cases hl : Nat.toDigits 10 n with
  | nil =>
    rw [hl] at hdigits
    exact hdigits
  | cons c cs =>
    have hc := hrange c (hl ▸ List.mem_cons_self)
    have hspace : isSpace c = false := by
      have : c ≠ ' ' := by
        rintro rfl
        exact absurd hc (by decide)
      simp [isSpace, this]
      omega
    rw [List.dropWhile_cons, if_neg (by simp [hspace]), ← hdigits, hl]
    split
    · next heq =>
      rw [(List.cons.inj heq).1] at hc
      exact absurd hc (by decide)
    · next heq =>
      rw [(List.cons.inj heq).1] at hc
      exact absurd hc (by decide)
    · rfl

theorem splitComma_tokenValue (user : Registration.UserRow) :
    splitComma (tokenValue user) = some (Nat.repr user.userID, Nat.repr user.account) := by
  have hcs : (tokenValue user).toList = Nat.toDigits 10 user.userID ++ ',' :: Nat.toDigits 10 user.account := by
    simp [tokenValue]
  have hcomma : ∀ c ∈ Nat.toDigits 10 user.userID, (decide (c ≠ ',')) = true := by
    intro c hc
    have := digit_range hc
    refine decide_eq_true ?_
    rintro rfl
    exact absurd this (by decide)
  unfold splitComma
  rw [hcs]
  dsimp only
  rw [if_pos (by simp), List.takeWhile_append_of_pos hcomma, List.dropWhile_append_of_pos hcomma,
    List.takeWhile_cons, List.dropWhile_cons, if_neg (by simp), if_neg (by simp), List.append_nil,
    List.drop_one, List.tail_cons, Nat.repr_eq_ofList_toDigits, Nat.repr_eq_ofList_toDigits]

/-- **The value of a token is read back.** -/
theorem parseValue_tokenValue (user : Registration.UserRow) : parseValue (tokenValue user)
    = if user.userID < 2 ^ 64 ∧ user.account < 2 ^ 64 then .user user.userID user.account else .threw := by
  unfold parseValue
  rw [splitComma_tokenValue]
  dsimp only
  rw [stoull_repr, stoull_repr]
  generalize 2 ^ 64 = n
  by_cases hu : user.userID < n
  · by_cases ha : user.account < n <;> simp [hu, ha]
  · simp [hu]

end ApeServer.Auth
