/-
  A queue between what is done and what comes next.

  Items are numbered.  `Covers due done xs n`: the queue `xs` holds, in order,
  every item below `n` that is due and not done, and before an item of the
  queue only items of the queue are not done.  So the first item may be
  finished next (`Covers.head`, `Covers.pop`), and the next due item goes to
  the end (`Covers.push`).
-/
import Mathlib.Tactic

namespace Queue

variable {due done done' : ℕ → Prop} {xs : List ℕ} {x n : ℕ}

def Covers (due done : ℕ → Prop) : List ℕ → ℕ → Prop
  | [], n => ∀ o < n, due o → done o
  | x :: xs, n => (∀ o < x, due o → done o) ∧ Covers due (fun o => done o ∨ o = x) xs n

theorem Covers.mono (h : Covers due done xs n) (hd : ∀ o, done o → done' o) : Covers due done' xs n := by
  induction xs generalizing done done' with
  | nil => exact fun o ho hdue => hd o (h o ho hdue)
  | cons x xs ih =>
    refine ⟨fun o ho hdue => hd o (h.1 o ho hdue), ih h.2 ?_⟩
    exact fun o ho => ho.imp_left (hd o)

/-- Everything before the first item is done. -/
theorem Covers.head (h : Covers due done (x :: xs) n) : ∀ o < x, due o → done o := h.1

/-- The first item leaves the queue when it is done. -/
theorem Covers.pop (h : Covers due done (x :: xs) n) (hx : done x) : Covers due done xs n := by
  refine h.2.mono fun o ho => ?_
  rcases ho with ho | rfl
  · exact ho
  · exact hx

/-- The next due item is put at the end. -/
theorem Covers.push (h : Covers due done xs n) (hx : n ≤ x) (hgap : ∀ o, n ≤ o → o < x → ¬ due o) :
    Covers due done (xs ++ [x]) (x + 1) := by
  induction xs generalizing done with
  | nil =>
    have hlt : ∀ o < x, due o → done o := by
      intro o ho hdue
      by_cases hn : o < n
      · exact h o hn hdue
      · exact absurd hdue (hgap o (by omega) ho)
    refine ⟨hlt, fun o ho hdue => ?_⟩
    rcases Nat.lt_succ_iff_lt_or_eq.1 ho with ho | rfl
    · exact Or.inl (hlt o ho hdue)
    · exact Or.inr rfl
  | cons y xs ih => exact ⟨h.1, ih h.2⟩

end Queue
