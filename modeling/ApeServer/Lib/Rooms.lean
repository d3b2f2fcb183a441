/-
  Rooms in which people talk.

  A room has an owner, who is always in it.  Somebody outside may knock, and the
  owner admits or refuses who waits; people in the room speak, and may leave,
  the owner may send them out or close the room.  Who comes in hears what is
  said from then on.

  * `Rooms.Ok` is the invariant of the moves;
  * `Rooms.said_eq`: what was said in a room is what the moves of a run said in
    it, in order.
-/
import ApeServer.Lib.Refine
import Mathlib.Data.Set.Insert

variable {ι υ ω : Type} [DecidableEq υ]

structure Room (υ ω : Type) where
  owner : υ
  name : String
  isOpen : Bool
  /-- who is in the room, with how much was said before -/
  since : υ → Option ℕ
  waiting : Set υ
  said : List ω

/-- What somebody does. -/
inductive Room.Deed (ι υ ω : Type) where
  | found (id : ι) (name : String)
  | knock (id : ι)
  | welcome (id : ι) (guest : υ)
  | refuse (id : ι) (guest : υ)
  | rename (id : ι) (name : String)
  | leave (id : ι)
  | expel (id : ι) (guest : υ)
  | close (id : ι)
  | say (id : ι) (post : ω)

namespace Room

/-- A new room. -/
def new (who : υ) (name : String) : Room υ ω where
  owner := who
  name := name
  isOpen := true
  since := Function.update (fun _ => none) who (some 0)
  waiting := ∅
  said := []

/-- What `who` can do to an open room `id`. -/
inductive Change (id : ι) (who : υ) (r : Room υ ω) : Deed ι υ ω → Room υ ω → Prop
  | knock (hout : r.since who = none) (hw : who ∉ r.waiting) :
      Change id who r (.knock id) { r with waiting := insert who r.waiting }
  | welcome {guest : υ} (ho : who = r.owner) (hw : guest ∈ r.waiting) :
      Change id who r (.welcome id guest)
        { r with
          since := Function.update r.since guest (some r.said.length)
          waiting := r.waiting \ {guest} }
  | refuse {guest : υ} (ho : who = r.owner) (hw : guest ∈ r.waiting) :
      Change id who r (.refuse id guest) { r with waiting := r.waiting \ {guest} }
  | rename {name : String} (ho : who = r.owner) : Change id who r (.rename id name) { r with name := name }
  | leave (hin : (r.since who).isSome) (ho : who ≠ r.owner) :
      Change id who r (.leave id) { r with since := Function.update r.since who none }
  | expel {guest : υ} (ho : who = r.owner) (hin : (r.since guest).isSome) (hg : guest ≠ r.owner) :
      Change id who r (.expel id guest) { r with since := Function.update r.since guest none }
  | close (ho : who = r.owner) : Change id who r (.close id) { r with isOpen := false, waiting := ∅ }
  | say {post : ω} (hin : (r.since who).isSome) :
      Change id who r (.say id post) { r with said := r.said ++ [post] }

/-- The owner is in the room, who waits is not, and nobody waits for a closed one. -/
structure Ok (r : Room υ ω) : Prop where
  owner : (r.since r.owner).isSome
  since : ∀ a n, r.since a = some n → n ≤ r.said.length
  waiting : ∀ a ∈ r.waiting, r.since a = none ∧ r.isOpen = true

theorem ok_new (who : υ) (name : String) : (new who name : Room υ ω).Ok where
  owner := by simp [new]
  since := by
    intro a n ha
    simp only [new, Function.update_apply] at ha
    split_ifs at ha
    cases ha
    exact Nat.zero_le _
  waiting := by simp [new]

theorem Change.ok {id : ι} {who : υ} {r r' : Room υ ω} {d : Deed ι υ ω} (h : r.Change id who d r')
    (hopen : r.isOpen = true) (hr : r.Ok) : r'.Ok := by
  cases h with
  | knock hout =>
    refine ⟨hr.owner, hr.since, fun a ha => ?_⟩
    rcases ha with rfl | ha
    · exact ⟨hout, hopen⟩
    · exact hr.waiting a ha
  | @welcome guest =>
    refine ⟨?_, ?_, ?_⟩
    · simp only [Function.update_apply]
      split_ifs
      · rfl
      · exact hr.owner
    · intro a n ha
      simp only [Function.update_apply] at ha
      split_ifs at ha
      · cases ha
        exact le_rfl
      · exact hr.since a n ha
    · rintro a ⟨ha, hne⟩
      have hne : a ≠ guest := by simpa using hne
      simp only [Function.update_of_ne hne]
      exact hr.waiting a ha
  | refuse => exact ⟨hr.owner, hr.since, fun a ha => hr.waiting a ha.1⟩
  | rename => exact ⟨hr.owner, hr.since, hr.waiting⟩
  | leave _ ho =>
    refine ⟨?_, ?_, ?_⟩
    · simp only [Function.update_of_ne (Ne.symm ho)]
      exact hr.owner
    · intro a n ha
      simp only [Function.update_apply] at ha
      split_ifs at ha
      exact hr.since a n ha
    · intro a ha
      simp only [Function.update_apply]
      refine ⟨?_, hopen⟩
      split_ifs
      · rfl
      · exact (hr.waiting a ha).1
  | expel _ _ hg =>
    refine ⟨?_, ?_, ?_⟩
    · simp only [Function.update_of_ne (Ne.symm hg)]
      exact hr.owner
    · intro a n ha
      simp only [Function.update_apply] at ha
      split_ifs at ha
      exact hr.since a n ha
    · intro a ha
      simp only [Function.update_apply]
      refine ⟨?_, hopen⟩
      split_ifs
      · rfl
      · exact (hr.waiting a ha).1
  | close => exact ⟨hr.owner, hr.since, fun a ha => absurd ha (Set.notMem_empty a)⟩
  | say =>
    refine ⟨hr.owner, fun a n ha => ?_, hr.waiting⟩
    simp only [List.length_append, List.length_singleton]
    exact (hr.since a n ha).trans (Nat.le_succ _)

end Room

/-! ## The system -/

variable [DecidableEq ι]

/-- Who did it, and what. -/
abbrev Rooms.Label (ι υ ω : Type) := υ × Room.Deed ι υ ω

/-- The moves of all rooms. -/
inductive Rooms.Move (rooms : ι → Option (Room υ ω)) : Rooms.Label ι υ ω → (ι → Option (Room υ ω)) → Prop
  | found {who : υ} {id : ι} {name : String} (hid : rooms id = none) :
      Move rooms (who, .found id name) (Function.update rooms id (some (.new who name)))
  | change {who : υ} {id : ι} {d : Room.Deed ι υ ω} {r r' : Room υ ω} (hr : rooms id = some r)
      (hopen : r.isOpen = true) (h : r.Change id who d r') :
      Move rooms (who, d) (Function.update rooms id (some r'))

/-- Rooms, from none. -/
def Rooms.spec (ι υ ω : Type) [DecidableEq ι] [DecidableEq υ] :
    Spec (ι → Option (Room υ ω)) (Rooms.Label ι υ ω) where
  start := fun _ => none
  Move := Rooms.Move

namespace Rooms

variable {rooms rooms' : ι → Option (Room υ ω)} {ls : List (Label ι υ ω)} {id : ι} {r : Room υ ω}

/-- **The invariant.** -/
def Ok (rooms : ι → Option (Room υ ω)) : Prop := ∀ id r, rooms id = some r → r.Ok

theorem Move.ok {l : Label ι υ ω} (h : Move rooms l rooms') (hr : Ok rooms) : Ok rooms' := by
  cases h with
  | found =>
    intro id r hid
    simp only [Function.update_apply] at hid
    split_ifs at hid
    · cases hid
      exact Room.ok_new _ _
    · exact hr id r hid
  | change hid hopen hc =>
    intro id r hid'
    simp only [Function.update_apply] at hid'
    split_ifs at hid'
    · cases hid'
      exact hc.ok hopen (hr _ _ hid)
    · exact hr id r hid'

theorem ok_of_run (h : (spec ι υ ω).Run (fun _ => none) ls rooms) : Ok rooms := by
  refine h.invariant (P := Ok) ?_ ?_
  · intro rooms l rooms' hr hmove
    exact Move.ok hmove hr
  · intro id r hnone
    cases hnone

/-- What a deed says in the room `id`. -/
def saysIn (id : ι) : Label ι υ ω → Option ω
  | (_, .say id' post) => if id' = id then some post else none
  | _ => none

/-- What a move adds to what was said, or that it founds the room. -/
theorem Move.said {l : Label ι υ ω} (h : Move rooms l rooms') {r' : Room υ ω} (hr' : rooms' id = some r') :
    (rooms id = none ∧ r'.said = [] ∧ saysIn id l = none) ∨
      ∃ r, rooms id = some r ∧ r'.said = r.said ++ (saysIn id l).toList := by
  cases h with
  | found hid =>
    simp only [Function.update_apply] at hr'
    split_ifs at hr' with he
    · cases hr'
      subst he
      exact Or.inl ⟨hid, rfl, rfl⟩
    · exact Or.inr ⟨r', hr', by simp [saysIn]⟩
  | @change who id' d r r'' hid hopen hc =>
    simp only [Function.update_apply] at hr'
    split_ifs at hr' with he
    · cases hr'
      subst he
      refine Or.inr ⟨r, hid, ?_⟩
      cases hc <;> simp [saysIn]
    · refine Or.inr ⟨r', hr', ?_⟩
      cases hc <;> simp [saysIn, Ne.symm he]

/-- A room that is there stays. -/
theorem Move.stays {l : Label ι υ ω} (h : Move rooms l rooms') (hr : rooms id = some r) :
    ∃ r', rooms' id = some r' := by
  cases h with
  | found =>
    simp only [Function.update_apply]
    split_ifs
    · exact ⟨_, rfl⟩
    · exact ⟨r, hr⟩
  | change =>
    simp only [Function.update_apply]
    split_ifs
    · exact ⟨_, rfl⟩
    · exact ⟨r, hr⟩

/-- Where there is no room, nothing was said. -/
theorem Move.silent {l : Label ι υ ω} (h : Move rooms l rooms') (hr : rooms' id = none) :
    rooms id = none ∧ saysIn id l = none := by
  have hnone : rooms id = none := by
    by_contra hne
    obtain ⟨r, hsome⟩ := Option.ne_none_iff_exists'.1 hne
    obtain ⟨r', hr'⟩ := h.stays hsome
    rw [hr] at hr'
    cases hr'
  refine ⟨hnone, ?_⟩
  cases h with
  | found => rfl
  | @change who id' d r r' hid hopen hc =>
    have hne : id' ≠ id := by
      rintro rfl
      rw [hid] at hnone
      cases hnone
    cases hc <;> simp [saysIn, hne]

/-- **What was said in a room** is what the run said in it, in order. -/
theorem said_eq (h : (spec ι υ ω).Run (fun _ => none) ls rooms) :
    (∀ r, rooms id = some r → r.said = ls.filterMap (saysIn id)) ∧
      (rooms id = none → ls.filterMap (saysIn id) = []) := by
  induction h with
  | nil => exact ⟨by nofun, fun _ => rfl⟩
  | @snoc ls l rooms rooms' _ hmove ih =>
    rw [List.filterMap_append]
    constructor
    · intro r' hr'
      rcases Move.said hmove hr' with ⟨hnone, hsaid, hl⟩ | ⟨r, hr, hsaid⟩
      · rw [hsaid, ih.2 hnone]
        simp [hl]
      · rw [hsaid, ih.1 r hr]
        cases hs : saysIn id l <;> simp [hs]
    · intro hr'
      obtain ⟨hnone, hl⟩ := Move.silent hmove hr'
      rw [ih.2 hnone]
      simp [hl]

end Rooms
