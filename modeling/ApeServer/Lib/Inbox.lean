/-
  The entry of a conversation as a view of its messages.

  The log of a conversation is a set of notes, each with its position, what is
  shown of it and whether it is addressed to the owner of the entry.  A `Box`
  is what the entry stores: the last position and what is shown there, how far
  the owner has read, whether the entry is hidden and the unread positions.

  `View log b` says that the box shows this log.  The positions of the log are
  not stored: a box is changed by `add`, `readTo` and `hide` alone, and each
  of them keeps the view.
-/
import Mathlib.Tactic

namespace Inbox

variable {κ τ : Type}

structure Note (κ τ : Type) where
  pos : κ
  text : τ
  incoming : Prop

@[ext] structure Box (κ τ : Type) where
  last : κ
  text : τ
  read : κ
  hidden : Prop
  unread : Set κ

variable [LinearOrder κ]

namespace Box

open Classical in
/-- A note arrives; one that is not the last any more changes neither what is
    shown nor whether the entry is hidden. -/
noncomputable def add (b : Box κ τ) (n : Note κ τ) : Box κ τ where
  last := max b.last n.pos
  text := if b.last < n.pos then n.text else b.text
  read := b.read
  hidden := b.hidden ∧ n.pos ≤ b.last
  unread := {p | p ∈ b.unread ∨ (n.incoming ∧ b.read < n.pos ∧ p = n.pos)}

/-- The owner has read up to a position. -/
def readTo (b : Box κ τ) (p : κ) : Box κ τ :=
  { b with
    read := max b.read p
    unread := {q | q ∈ b.unread ∧ p < q} }

/-- The owner hides the entry. -/
def hide (b : Box κ τ) : Box κ τ :=
  { b with
    read := b.last
    hidden := True
    unread := ∅ }

end Box

/-- **The box shows the log.** -/
structure View (log : Set (Note κ τ)) (b : Box κ τ) : Prop where
  top : ∀ n ∈ log, n.pos ≤ b.last
  last : log.Nonempty → ∃ n ∈ log, n.pos = b.last ∧ n.text = b.text
  read : b.read ≤ b.last
  unread : ∀ p, p ∈ b.unread ↔ b.read < p ∧ ∃ n ∈ log, n.incoming ∧ n.pos = p
  hidden : b.hidden → b.read = b.last

namespace View
variable {log : Set (Note κ τ)} {b : Box κ τ} {n : Note κ τ} {p : κ}

/-- What is unread is not above the last position. -/
theorem unread_le (h : View log b) (hp : p ∈ b.unread) : p ≤ b.last := by
  obtain ⟨-, n, hn, -, rfl⟩ := (h.unread p).1 hp
  exact h.top n hn

/-- A hidden entry has nothing unread. -/
theorem unread_of_hidden (h : View log b) (hh : b.hidden) : b.unread = ∅ := by
  rw [Set.eq_empty_iff_forall_notMem]
  intro p hp
  have hlt := ((h.unread p).1 hp).1
  rw [h.hidden hh] at hlt
  exact absurd (h.unread_le hp) (not_le.2 hlt)

/-- The box of an empty log. -/
theorem empty (hr : b.read ≤ b.last) (hu : b.unread = ∅) (hh : b.hidden → b.read = b.last) :
    View (∅ : Set (Note κ τ)) b := by
  refine ⟨?_, ?_, hr, fun p => ?_, hh⟩
  · simp
  · simp
  · simp [hu]

/-- **A note arrives.**  The first one is above where the box starts. -/
theorem add (h : View log b) (hn : log = ∅ → b.last < n.pos) : View (insert n log) (b.add n) := by
  refine ⟨fun m hm => ?_, fun _ => ?_, ?_, fun p => ?_, ?_⟩
  · rcases hm with rfl | hm
    · exact le_max_right _ _
    · exact (h.top m hm).trans (le_max_left _ _)
  · by_cases hlt : b.last < n.pos
    · exact ⟨n, Set.mem_insert _ _, (max_eq_right hlt.le).symm, (if_pos hlt).symm⟩
    · have hne : log.Nonempty := Set.nonempty_iff_ne_empty.2 fun he => hlt (hn he)
      obtain ⟨m, hm, hpos, htext⟩ := h.last hne
      refine ⟨m, Set.mem_insert_of_mem _ hm, ?_, ?_⟩
      · exact hpos.trans (max_eq_left (not_lt.1 hlt)).symm
      · exact htext.trans (if_neg hlt).symm
  · exact h.read.trans (le_max_left _ _)
  · show p ∈ b.unread ∨ _ ↔ b.read < p ∧ _
    rw [h.unread]
    constructor
    · rintro (⟨hp, m, hm, hin, hpos⟩ | ⟨hin, hlt, rfl⟩)
      · exact ⟨hp, m, Set.mem_insert_of_mem _ hm, hin, hpos⟩
      · exact ⟨hlt, n, Set.mem_insert _ _, hin, rfl⟩
    · rintro ⟨hp, m, rfl | hm, hin, rfl⟩
      · exact Or.inr ⟨hin, hp, rfl⟩
      · exact Or.inl ⟨hp, m, hm, hin, rfl⟩
  · rintro ⟨hh, hle⟩
    exact (h.hidden hh).trans (max_eq_left hle).symm

/-- **The owner reads**, not beyond the last position. -/
theorem readTo (h : View log b) (hp : p ≤ b.last) : View log (b.readTo p) := by
  refine ⟨h.top, h.last, max_le h.read hp, fun q => ?_, fun hh => ?_⟩
  · show q ∈ b.unread ∧ p < q ↔ max b.read p < q ∧ _
    rw [h.unread, max_lt_iff]
    tauto
  · have he : b.read = b.last := h.hidden hh
    show max b.read p = b.last
    rw [he]
    exact max_eq_left hp

/-- **The owner hides the entry.** -/
theorem hide (h : View log b) : View log b.hide := by
  refine ⟨h.top, h.last, le_rfl, fun p => ?_, fun _ => rfl⟩
  show p ∈ ∅ ↔ b.last < p ∧ _
  constructor
  · rintro ⟨⟩
  · rintro ⟨hlt, n, hn, -, rfl⟩
    exact absurd (h.top n hn) (not_le.2 hlt)

end View

end Inbox
