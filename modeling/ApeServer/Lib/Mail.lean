/-
  Letters between friends.

  Two friends may post letters to each other, and each letter has a rank.  A
  letter that was posted stands once it is recorded; then its reader may be
  offered it or browse it, until the reader has received it, and its author may
  get a confirmation.  Two friends may part: they cut off what they wrote so
  far, at a rank that no letter has reached, and nobody is shown a letter below
  the cut any more, friends again or not.

  * `Mail.Ok` is the invariant of the moves: a letter above the cut is one
    between friends;
  * `Mail.Later` is what no move takes back;
  * `Mail.orderly`: what the deeds of a run tell about their order.
-/
import ApeServer.Lib.Refine
import Mathlib.Data.Sym.Sym2
import Mathlib.Order.WithBot

variable {ι υ ρ : Type}

structure Letter (υ ρ : Type) where
  author : υ
  reader : υ
  rank : ρ
  stands : Bool

/-- Between whom it is. -/
def Letter.pair (l : Letter υ ρ) : Sym2 υ := s(l.author, l.reader)

@[ext]
structure Mail (ι υ ρ : Type) where
  friends : Set (Sym2 υ)
  /-- the letters of a pair up to this rank are cut off -/
  cut : Sym2 υ → WithBot ρ
  letter : ι → Option (Letter υ ρ)
  received : Set ι

/-- What happens to letters and friends. -/
inductive Mail.Deed (ι υ ρ : Type) where
  | befriend (p : Sym2 υ)
  | part (p : Sym2 υ) (r : ρ)
  | post (id : ι) (author reader : υ) (rank : ρ)
  | stand (id : ι)
  | offer (id : ι)
  | browse (id : ι)
  | receive (id : ι)
  | confirm (id : ι)

namespace Mail

/-- The deed shows the letter to its reader, or to both. -/
inductive Deed.Shows (id : ι) : Deed ι υ ρ → Prop
  | offer : Deed.Shows id (.offer id)
  | browse : Deed.Shows id (.browse id)

/-- Everything but new friendships is seen. -/
def Deed.visible : Deed ι υ ρ → Bool
  | befriend _ => false
  | _ => true

variable [DecidableEq ι] [DecidableEq υ] [LinearOrder ρ]

/-- The letter is above the cut of its pair. -/
def Live (x : Mail ι υ ρ) (l : Letter υ ρ) : Prop := x.cut l.pair < (l.rank : WithBot ρ)

/-- The moves. -/
inductive Move (x : Mail ι υ ρ) : Deed ι υ ρ → Mail ι υ ρ → Prop
  | befriend {p : Sym2 υ} (hp : ¬ p.IsDiag) : Move x (.befriend p) { x with friends := insert p x.friends }
  | part {p : Sym2 υ} {r : ρ} (hp : p ∈ x.friends) (hcut : x.cut p < (r : WithBot ρ))
      (hr : ∀ id l, x.letter id = some l → l.rank < r) :
      Move x (.part p r) { x with friends := x.friends \ {p}, cut := Function.update x.cut p r }
  | post {id : ι} {a b : υ} {r : ρ} (hid : x.letter id = none) (hp : s(a, b) ∈ x.friends)
      (hl : x.Live ⟨a, b, r, false⟩) :
      Move x (.post id a b r) { x with letter := Function.update x.letter id (some ⟨a, b, r, false⟩) }
  | stand {id : ι} {l : Letter υ ρ} (hid : x.letter id = some l) (hs : l.stands = false) (hl : x.Live l) :
      Move x (.stand id) { x with letter := Function.update x.letter id (some { l with stands := true }) }
  | offer {id : ι} {l : Letter υ ρ} (hid : x.letter id = some l) (hs : l.stands = true) (hl : x.Live l)
      (hr : id ∉ x.received) : Move x (.offer id) x
  | browse {id : ι} {l : Letter υ ρ} (hid : x.letter id = some l) (hs : l.stands = true) (hl : x.Live l) :
      Move x (.browse id) x
  | receive {id : ι} {l : Letter υ ρ} (hid : x.letter id = some l) :
      Move x (.receive id) { x with received := insert id x.received }
  | confirm {id : ι} {l : Letter υ ρ} (hid : x.letter id = some l) (hs : l.stands = true) :
      Move x (.confirm id) x

/-- Letters, from nobody who knows anybody. -/
def spec (ι υ ρ : Type) [DecidableEq ι] [DecidableEq υ] [LinearOrder ρ] : Spec (Mail ι υ ρ) (Deed ι υ ρ) where
  start := ⟨∅, fun _ => ⊥, fun _ => none, ∅⟩
  Move := Move

variable {x x' x'' : Mail ι υ ρ} {d : Deed ι υ ρ} {ds : List (Deed ι υ ρ)} {id : ι} {l : Letter υ ρ}

/-! ## The invariant -/

/-- Nobody befriends himself, and a letter above the cut is one between
    friends. -/
structure Ok (x : Mail ι υ ρ) : Prop where
  apart : ∀ p ∈ x.friends, ¬ p.IsDiag
  friends : ∀ id l, x.letter id = some l → x.Live l → l.pair ∈ x.friends

theorem Move.ok (h : Move x d x') (hx : x.Ok) : x'.Ok := by
  cases h with
  | befriend hp =>
    refine ⟨?_, fun id l hid hl => Or.inr (hx.friends id l hid hl)⟩
    rintro q (rfl | hq)
    · exact hp
    · exact hx.apart q hq
  | @part p r hp hcut hr =>
    refine ⟨fun q hq => hx.apart q hq.1, fun id l hid hl => ?_⟩
    simp only [Live, Function.update_apply] at hl
    split_ifs at hl with hpair
    · -- its rank is below the new cut
      exact absurd (hr id l hid) (not_lt.2 (WithBot.coe_lt_coe.1 hl).le)
    · exact ⟨hx.friends id l hid hl, hpair⟩
  | @post id a b r hid hp hl =>
    refine ⟨hx.apart, fun id' l' hid' hl' => ?_⟩
    simp only [Function.update_apply] at hid'
    split_ifs at hid'
    · cases hid'
      exact hp
    · exact hx.friends id' l' hid' hl'
  | @stand id l hid hs hl =>
    refine ⟨hx.apart, fun id' l' hid' hl' => ?_⟩
    simp only [Function.update_apply] at hid'
    split_ifs at hid'
    · cases hid'
      exact hx.friends id l hid hl
    · exact hx.friends id' l' hid' hl'
  | offer => exact hx
  | browse => exact hx
  | receive => exact ⟨hx.apart, hx.friends⟩
  | confirm => exact hx

theorem ok_of_run (h : (spec ι υ ρ).Run (spec ι υ ρ).start ds x) : x.Ok := by
  refine h.invariant (P := Ok) (fun _ _ _ hx hmove => Move.ok hmove hx) ⟨?_, ?_⟩
  · intro p hp
    exact absurd hp (Set.notMem_empty p)
  · intro id l hid
    cases hid

/-! ## What stays -/

/-- The letter may have been recorded meanwhile. -/
def Becomes (l l' : Letter υ ρ) : Prop := l' = l ∨ l' = { l with stands := true }

/-- Letters stay, cuts rise, and what was received is so for ever. -/
structure Later (x x' : Mail ι υ ρ) : Prop where
  letter : ∀ id l, x.letter id = some l → ∃ l', x'.letter id = some l' ∧ Becomes l l'
  cut : ∀ p, x.cut p ≤ x'.cut p
  received : x.received ⊆ x'.received

omit [DecidableEq ι] [DecidableEq υ] in
theorem Later.refl (x : Mail ι υ ρ) : x.Later x :=
  ⟨fun _ l h => ⟨l, h, Or.inl rfl⟩, fun _ => le_rfl, subset_rfl⟩

omit [DecidableEq ι] [DecidableEq υ] in
theorem Later.trans (h : x.Later x') (h' : x'.Later x'') : x.Later x'' := by
  refine ⟨fun id l hid => ?_, fun p => (h.cut p).trans (h'.cut p), h.received.trans h'.received⟩
  obtain ⟨l₁, hid₁, h₁⟩ := h.letter id l hid
  obtain ⟨l₂, hid₂, h₂⟩ := h'.letter id l₁ hid₁
  refine ⟨l₂, hid₂, ?_⟩
  rcases h₁ with rfl | rfl
  · exact h₂
  · exact Or.inr (by rcases h₂ with rfl | rfl <;> rfl)

theorem Move.later (h : Move x d x') : x.Later x' := by
  cases h with
  | befriend => exact ⟨(Later.refl x).letter, fun _ => le_rfl, subset_rfl⟩
  | @part p r hp hcut =>
    refine ⟨(Later.refl x).letter, fun q => ?_, subset_rfl⟩
    simp only [Function.update_apply]
    split_ifs with hq
    · rw [hq]
      exact hcut.le
    · exact le_rfl
  | @post id a b r hid =>
    refine ⟨fun id' l' hid' => ⟨l', ?_, Or.inl rfl⟩, fun _ => le_rfl, subset_rfl⟩
    have hne : id' ≠ id := by
      rintro rfl
      rw [hid] at hid'
      cases hid'
    simp only [Function.update_of_ne hne, hid']
  | @stand id l hid =>
    refine ⟨fun id' l' hid' => ?_, fun _ => le_rfl, subset_rfl⟩
    by_cases hne : id' = id
    · subst hne
      rw [hid] at hid'
      cases hid'
      exact ⟨{ l with stands := true }, by simp, Or.inr rfl⟩
    · exact ⟨l', by simp only [Function.update_of_ne hne, hid'], Or.inl rfl⟩
  | offer => exact .refl x
  | browse => exact .refl x
  | receive => exact ⟨(Later.refl x).letter, fun _ => le_rfl, Set.subset_insert _ _⟩
  | confirm => exact .refl x

theorem later_of_run (h : (spec ι υ ρ).Run x ds x') : x.Later x' :=
  h.related (R := Later) .refl (fun _ _ _ => .trans) fun _ _ _ hmove => Move.later hmove

/-- A letter of a run was posted, and recorded if it stands. -/
theorem known (h : (spec ι υ ρ).Run (spec ι υ ρ).start ds x) (hid : x.letter id = some l) :
    .post id l.author l.reader l.rank ∈ ds ∧
      (l.stands = true → [.post id l.author l.reader l.rank, .stand id].Sublist ds) := by
  generalize ht : (spec ι υ ρ).start = t at h
  induction h generalizing l with
  | nil =>
    subst ht
    cases hid
  | @snoc ds d x₁ x₂ _ hmove ih =>
    have hold : ∀ l, x₁.letter id = some l → .post id l.author l.reader l.rank ∈ ds ++ [d] ∧
        (l.stands = true → [.post id l.author l.reader l.rank, .stand id].Sublist (ds ++ [d])) := fun l hl =>
      ⟨List.mem_append_left _ (ih hl).1, fun hs => ((ih hl).2 hs).trans (List.sublist_append_left _ _)⟩
    cases hmove with
    | @post id' a b r =>
      simp only [Function.update_apply] at hid
      split_ifs at hid with he
      · cases hid
        subst he
        exact ⟨by simp, nofun⟩
      · exact hold l hid
    | @stand id' l' hid' =>
      simp only [Function.update_apply] at hid
      split_ifs at hid with he
      · cases hid
        subst he
        have hpost := (ih hid').1
        refine ⟨List.mem_append_left _ hpost, fun _ => ?_⟩
        exact (List.singleton_sublist.2 hpost).append (List.Sublist.refl [Deed.stand id])
      · exact hold l hid
    | _ => exact hold l hid

/-! ## The order of deeds -/

/-- In which order deeds come. -/
structure Orderly (ds : List (Deed ι υ ρ)) : Prop where
  /-- a letter is posted once -/
  once : ∀ id a b r a' b' r', ¬ [.post id a b r, .post id a' b' r'].Sublist ds
  /-- and recorded once -/
  stood : ∀ id, ¬ [.stand id, .stand id].Sublist ds
  known : ∀ id, .receive id ∈ ds → ∃ a b r, [.post id a b r, .receive id].Sublist ds
  /-- what is shown or confirmed was posted and recorded before -/
  shown : ∀ d ∈ ds, ∀ id, d.Shows id ∨ d = .confirm id →
    ∃ a b r, [.post id a b r, .stand id, d].Sublist ds
  /-- what was posted before a parting is not recorded or shown after it -/
  parted : ∀ id a b r c d, d = .stand id ∨ d.Shows id → ¬ [.post id a b r, .part s(a, b) c, d].Sublist ds
  /-- what was received is not offered -/
  received : ∀ id, ¬ [.receive id, .offer id].Sublist ds

theorem Move.posted {a b : υ} {r : ρ} (h : Move x (.post id a b r) x') :
    x.letter id = none ∧ x'.letter id = some ⟨a, b, r, false⟩ := by
  cases h with
  | post hid => exact ⟨hid, by simp⟩

theorem Move.stood (h : Move x (.stand id) x') :
    ∃ l, x.letter id = some l ∧ l.stands = false ∧ x.Live l ∧ x'.letter id = some { l with stands := true } := by
  cases h with
  | @stand _ l hid hs hl => exact ⟨l, hid, hs, hl, by simp⟩

theorem Move.shown (h : Move x d x') (hd : d.Shows id) :
    ∃ l, x.letter id = some l ∧ l.stands = true ∧ x.Live l := by
  cases hd with
  | offer =>
    cases h with
    | offer hid hs hl => exact ⟨_, hid, hs, hl⟩
  | browse =>
    cases h with
    | browse hid hs hl => exact ⟨_, hid, hs, hl⟩

omit [DecidableEq ι] [DecidableEq υ] in
/-- A letter later in a run. -/
theorem Later.letter_of {a b : υ} {r : ρ} {s : Bool} (h : x.Later x') (hid : x.letter id = some ⟨a, b, r, s⟩)
    (hid' : x'.letter id = some l) : l.author = a ∧ l.reader = b ∧ l.rank = r ∧ (s = true → l.stands = true) := by
  obtain ⟨l', hl', hb⟩ := h.letter id _ hid
  rw [hid'] at hl'
  cases hl'
  rcases hb with rfl | rfl
  · exact ⟨rfl, rfl, rfl, fun hs => hs⟩
  · exact ⟨rfl, rfl, rfl, fun _ => rfl⟩

/-- A deed of a run, and the deeds after it. -/
theorem at_deed {ds' : List (Deed ι υ ρ)} (h : (spec ι υ ρ).Run x ds x') (hd : (d :: ds').Sublist ds) :
    ∃ ds₁ ds₂ x₁ x₂, ds = ds₁ ++ d :: ds₂ ∧ (spec ι υ ρ).Run x ds₁ x₁ ∧ Move x₁ d x₂ ∧
      (spec ι υ ρ).Run x₂ ds₂ x' ∧ ds'.Sublist ds₂ := h.at_cons hd

/-- **The order of a run.** -/
theorem orderly (h : (spec ι υ ρ).Run (spec ι υ ρ).start ds x) : Orderly ds where
  once id a b r a' b' r' hd := by
    obtain ⟨_, ds₁, _, x₂, -, -, hpost, h₂, hd⟩ := at_deed h hd
    obtain ⟨_, _, x₃, _, -, h₃, hpost', -⟩ := at_deed h₂ hd
    obtain ⟨l, hl, -⟩ := (later_of_run h₃).letter id _ hpost.posted.2
    rw [hpost'.posted.1] at hl
    cases hl
  stood id hd := by
    obtain ⟨_, ds₁, _, x₂, -, -, hstand, h₂, hd⟩ := at_deed h hd
    obtain ⟨_, _, x₃, _, -, h₃, hstand', -⟩ := at_deed h₂ hd
    obtain ⟨l, -, -, -, hl⟩ := hstand.stood
    obtain ⟨l', hl', hs, -⟩ := hstand'.stood
    have := ((later_of_run h₃).letter_of hl hl').2.2.2 rfl
    rw [hs] at this
    cases this
  known id hd := by
    obtain ⟨ds₁, ds₂, x₁, _, rfl, h₁, hrec, -⟩ := at_deed h (List.singleton_sublist.2 hd)
    cases hrec with
    | @receive _ l hid =>
      exact ⟨l.author, l.reader, l.rank, (List.singleton_sublist.2 (known h₁ hid).1).append
        (List.singleton_sublist.2 List.mem_cons_self)⟩
  shown d hd id hs := by
    obtain ⟨ds₁, ds₂, x₁, _, rfl, h₁, hmove, -⟩ := at_deed h (List.singleton_sublist.2 hd)
    obtain ⟨l, hid, hst⟩ : ∃ l, x₁.letter id = some l ∧ l.stands = true := by
      rcases hs with hs | rfl
      · obtain ⟨l, hid, hst, -⟩ := hmove.shown hs
        exact ⟨l, hid, hst⟩
      · cases hmove with
        | confirm hid hst => exact ⟨_, hid, hst⟩
    exact ⟨l.author, l.reader, l.rank, ((known h₁ hid).2 hst).append
      (List.singleton_sublist.2 List.mem_cons_self)⟩
  parted id a b r c d hs hd := by
    obtain ⟨_, ds₁, _, x₂, -, -, hpost, h₂, hd⟩ := at_deed h hd
    obtain ⟨_, ds₂, x₃, x₄, -, h₃, hpart, h₄, hd⟩ := at_deed h₂ hd
    obtain ⟨_, _, x₅, _, -, h₅, hmove, -⟩ := at_deed h₄ hd
    obtain ⟨l, hid, hl⟩ : ∃ l, x₅.letter id = some l ∧ x₅.Live l := by
      rcases hs with rfl | hs
      · obtain ⟨l, hid, -, hl, -⟩ := hmove.stood
        exact ⟨l, hid, hl⟩
      · obtain ⟨l, hid, -, hl⟩ := hmove.shown hs
        exact ⟨l, hid, hl⟩
    -- the letter is the one posted, and its rank below the cut
    obtain ⟨l₃, hid₃, -⟩ := (later_of_run h₃).letter id _ hpost.posted.2
    obtain ⟨-, -, hrank₃, -⟩ := (later_of_run h₃).letter_of hpost.posted.2 hid₃
    have hlater := hpart.later.trans (later_of_run h₅)
    obtain ⟨ha, hb, hrank, -⟩ := ((later_of_run h₃).trans hlater).letter_of hpost.posted.2 hid
    have hcut : (c : WithBot ρ) ≤ x₅.cut s(a, b) := by
      refine le_trans ?_ ((later_of_run h₅).cut _)
      cases hpart
      simp
    unfold Live Letter.pair at hl
    rw [ha, hb, hrank] at hl
    cases hpart with
    | part _ _ hr =>
      have hlt := hr id l₃ hid₃
      rw [hrank₃] at hlt
      exact absurd (hcut.trans_lt hl) (not_lt.2 (WithBot.coe_le_coe.2 hlt.le))
  received id hd := by
    obtain ⟨_, ds₁, _, x₂, -, -, hrec, h₂, hd⟩ := at_deed h hd
    obtain ⟨_, _, x₃, _, -, h₃, hoffer, -⟩ := at_deed h₂ hd
    have hin : id ∈ x₂.received := by
      cases hrec
      exact Set.mem_insert _ _
    cases hoffer with
    | offer _ _ _ hr => exact hr ((later_of_run h₃).received hin)

omit [DecidableEq ι] [DecidableEq υ] [LinearOrder ρ] in
/-- The order of what is seen of a run. -/
theorem Orderly.visible (h : Orderly ds) : Orderly (ds.filter Deed.visible) := by
  have hsub : (ds.filter Deed.visible).Sublist ds := List.filter_sublist
  refine ⟨fun id a b r a' b' r' hd => h.once id a b r a' b' r' (hd.trans hsub), fun id hd => h.stood id (hd.trans hsub),
    fun id hd => ?_, fun d hd id hs => ?_, fun id a b r c d hs hd => h.parted id a b r c d hs (hd.trans hsub),
    fun id hd => h.received id (hd.trans hsub)⟩
  · obtain ⟨a, b, r, hs⟩ := h.known id (List.mem_filter.1 hd).1
    exact ⟨a, b, r, hs.filter Deed.visible⟩
  · obtain ⟨hd, hv⟩ := List.mem_filter.1 hd
    obtain ⟨a, b, r, hsub⟩ := h.shown d hd id hs
    have hf := hsub.filter Deed.visible
    rw [List.filter_cons_of_pos rfl, List.filter_cons_of_pos rfl, List.filter_cons_of_pos hv] at hf
    exact ⟨a, b, r, hf⟩

end Mail
