/-
  Numbers that are drawn from a counter.

  A table assigns numbers to keys.  A new row gets the value of the counter,
  which moves on; beyond `top` there are no numbers left.

  * `Drawn.step`: the numbers stay apart, from `first` on and below the counter;
  * `Draw.next_le`: the counter never falls.
-/
import ApeServer.Lib.Table

namespace Counter

variable {κ : Type} {first top next next' : ℕ} {t t' : List (κ × ℕ)}

/-- The table and its counter stay, or a number is drawn for a new key. -/
inductive Draw (top : ℕ) (t : List (κ × ℕ)) (next : ℕ) : List (κ × ℕ) → ℕ → Prop
  | keep : Draw top t next t next
  | draw {k : κ} (hk : ∀ x ∈ t, x.1 ≠ k) (ht : next ≤ top) : Draw top t next (t ++ [(k, next)]) (next + 1)

/-- Keys and numbers are apart, and the numbers lie between `first` and the counter. -/
structure Drawn (first top : ℕ) (t : List (κ × ℕ)) (next : ℕ) : Prop where
  keys : (t.map Prod.fst).Nodup
  numbers : (t.map Prod.snd).Nodup
  range : ∀ x ∈ t, first ≤ x.2 ∧ x.2 < next
  counter : first ≤ next ∧ next ≤ top + 1

theorem Drawn.nil (h : first ≤ top + 1) : Drawn first top ([] : List (κ × ℕ)) first :=
  ⟨List.nodup_nil, List.nodup_nil, by simp, le_rfl, h⟩

theorem Drawn.step (d : Drawn first top t next) (h : Draw top t next t' next') :
    Drawn first top t' next' := by
  cases h with
  | keep => exact d
  | @draw k hk ht =>
    obtain ⟨hfirst, -⟩ := d.counter
    refine ⟨Table.nodup_append_one d.keys hk, ?_, ?_, by omega, by omega⟩
    · exact Table.nodup_append_one d.numbers fun x hx => (d.range x hx).2.ne
    · intro x hx
      rcases List.mem_append.1 hx with hx | hx
      · have := d.range x hx
        omega
      · rw [List.mem_singleton.1 hx]
        exact ⟨hfirst, Nat.lt_succ_self next⟩

theorem Draw.next_le (h : Draw top t next t' next') : next ≤ next' := by
  cases h with
  | keep => exact le_rfl
  | draw => exact Nat.le_succ next

end Counter
