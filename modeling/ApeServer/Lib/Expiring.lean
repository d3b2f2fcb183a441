/-
  Stores whose entries expire.

  An entry has a value and a deadline in milliseconds, and is there until its
  deadline has passed.  `setex`, `del`, `get` and `ttl` are the commands of
  such a store; `ttl` answers in seconds, rounded, and `-2` for no entry.
-/
import Mathlib.Tactic

/-- The entries, with those that have expired. -/
abbrev Expiring (κ ν : Type) := κ → Option (ν × ℕ)

namespace Expiring

variable {κ ν : Type} {s : Expiring κ ν} {k k' : κ} {v : ν} {now n sec d : ℕ}

def setex [DecidableEq κ] (s : Expiring κ ν) (now : ℕ) (k : κ) (sec : ℕ) (v : ν) : Expiring κ ν :=
  Function.update s k (some (v, now + 1000 * sec))

def del [DecidableEq κ] (s : Expiring κ ν) (k : κ) : Expiring κ ν := Function.update s k none

def get (s : Expiring κ ν) (now : ℕ) (k : κ) : Option ν :=
  (s k).bind fun x => if now ≤ x.2 then some x.1 else none

def ttl (s : Expiring κ ν) (now : ℕ) (k : κ) : ℤ :=
  match s k with
  | some x => if now ≤ x.2 then ((x.2 - now + 500) / 1000 : ℕ) else -2
  | none => -2

section
variable [DecidableEq κ]

@[simp] theorem setex_self : s.setex n k sec v k = some (v, n + 1000 * sec) := by
  simp [setex]

@[simp] theorem setex_other (h : k' ≠ k) : s.setex n k sec v k' = s k' := by
  simp [setex, h]

@[simp] theorem del_self : s.del k k = none := by
  simp [del]

@[simp] theorem del_other (h : k' ≠ k) : s.del k k' = s k' := by
  simp [del, h]

end

/-- What is read has not expired. -/
theorem get_eq_some : s.get now k = some v ↔ ∃ d, s k = some (v, d) ∧ now ≤ d := by
  unfold get
  cases hk : s k with
  | none => simp
  | some x =>
    obtain ⟨v', d⟩ := x
    by_cases hd : now ≤ d
    · simp [hd]
    · simp only [Option.bind_some, if_neg hd, Option.some.injEq, Prod.mk.injEq]
      constructor
      · rintro ⟨⟩
      · rintro ⟨d', ⟨rfl, rfl⟩, hd'⟩
        exact absurd hd' hd

end Expiring
