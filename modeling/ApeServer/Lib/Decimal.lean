/-
  Decimal numbers as text.

  * `repr_append_inj`: a number, a separator that is no digit, and a rest: the
    number and the rest can be read back;
  * `size_repr_le`: how many bytes a number takes.
-/
import Mathlib.Tactic
import Mathlib.Data.List.Basic
import Std.Data.String.ToNat

namespace Decimal

theorem notMem_toDigits {c : Char} (hc : c.isDigit = false) (n : ℕ) : c ∉ Nat.toDigits 10 n := by
  intro h
  rw [Nat.isDigit_of_mem_toDigits (by decide) (by decide) h] at hc
  cases hc

/-- The first occurrence of `c` splits a list in one way. -/
theorem append_cons_inj {α : Type} {c : α} : ∀ {xs ys s t : List α}, c ∉ xs → c ∉ ys →
    xs ++ c :: s = ys ++ c :: t → xs = ys ∧ s = t
  | [], [], _, _, _, _, h => ⟨rfl, (List.cons.inj h).2⟩
  | [], y :: ys, _, _, _, hy, h => by
    obtain ⟨rfl, -⟩ := List.cons.inj h
    exact absurd List.mem_cons_self hy
  | x :: xs, [], _, _, hx, _, h => by
    obtain ⟨rfl, -⟩ := List.cons.inj h
    exact absurd List.mem_cons_self hx
  | x :: xs, y :: ys, _, _, hx, hy, h => by
    obtain ⟨rfl, h'⟩ := List.cons.inj h
    obtain ⟨rfl, hst⟩ := append_cons_inj (fun hc => hx (List.mem_cons_of_mem _ hc))
      (fun hc => hy (List.mem_cons_of_mem _ hc)) h'
    exact ⟨rfl, hst⟩

/-- **A decimal number before a separator can be read back.** -/
theorem repr_append_inj (sep : String) (c : Char) (hs : sep.toList = [c]) (hc : c.isDigit = false)
    {m n : ℕ} {s t : String} (h : Nat.repr m ++ sep ++ s = Nat.repr n ++ sep ++ t) :
    m = n ∧ s = t := by
  have h' : Nat.toDigits 10 m ++ c :: s.toList = Nat.toDigits 10 n ++ c :: t.toList := by
    simpa [hs] using congrArg String.toList h
  obtain ⟨hd, hst⟩ := append_cons_inj (notMem_toDigits hc m) (notMem_toDigits hc n) h'
  refine ⟨Nat.repr_inj.1 (String.toList_inj.1 ?_), String.toList_inj.1 hst⟩
  rw [Nat.toList_repr, Nat.toList_repr, hd]

/-! ## Sizes -/

theorem utf8Size_digit {c : Char} (h : c.isDigit = true) : c.utf8Size = 1 := by
  have hle : c.val ≤ 57 := by
    simp only [Char.isDigit, Bool.and_eq_true, decide_eq_true_eq] at h
    exact h.2
  exact Char.utf8Size_eq_one_iff.2 (UInt32.le_trans hle (by decide))

/-- Digits take a byte each. -/
theorem size_digits (cs : List Char) (h : ∀ c ∈ cs, c.isDigit = true) :
    (String.ofList cs).utf8ByteSize = cs.length := by
  induction cs with
  | nil => rfl
  | cons c cs ih =>
    rw [String.ofList_cons, String.utf8ByteSize_append, String.utf8ByteSize_singleton,
      utf8Size_digit (h c List.mem_cons_self), ih fun c hc => h c (List.mem_cons_of_mem _ hc),
      List.length_cons, Nat.add_comm]

/-- **The size of a number.** -/
theorem size_repr_le {n k : ℕ} (hk : 0 < k) : (Nat.repr n).utf8ByteSize ≤ k ↔ n < 10 ^ k := by
  rw [Nat.repr_eq_ofList_toDigits, size_digits, Nat.length_toDigits_le_iff (by decide) hk]
  exact fun c hc => Nat.isDigit_of_mem_toDigits (by decide) (by decide) hc

end Decimal
