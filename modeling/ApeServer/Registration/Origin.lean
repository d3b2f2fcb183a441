/-
  Where users come from.

  Every user but the seeded one was inserted for a request: `Origin` is the
  invariant, for any property of the inputs of `register_user`.
-/
import ApeServer.Registration.Outcomes

namespace ApeServer.Registration

open Table

/-- The input of a call. -/
def Phase.input? : Phase → Option Input
  | once input _ _ _ | classify input | unsure input | returned input _ => some input
  | refill input _ _ _ | threw input _ => input
  | idle | refilled => none

/-- The user has the data of the input. -/
structure UserRow.Of (u : UserRow) (input : Input) : Prop where
  nickname : u.nickname = input.user.nickname
  phone : u.phone = input.user.phone
  passwordHash : u.passwordHash = input.user.passwordHash
  passwordSalt : u.passwordSalt = input.user.passwordSalt

/-- **The invariant.**  What is registered, or may yet be, has the property `G`. -/
structure Origin (G : Input → Prop) (w : World) : Prop where
  phase : ∀ k input, (w.calls k).phase.input? = some input → G input
  limbo : ∀ k input id account userID, (w.calls k).limbo = some (.user input id account userID) → G input
  users : ∀ u ∈ w.db.users, u = seedUser ∨ ∃ input, G input ∧ u.Of input

section
variable {sha256 : String → Bytes} {w w' : World} {k : ℕ} {a : Action} {es : List Unit} {G G' : Input → Prop}

theorem Origin.imp (h : Origin G w) (hG : ∀ input, G input → G' input) : Origin G' w where
  phase k input hp := hG _ (h.phase k input hp)
  limbo k input id account userID hl := hG _ (h.limbo k input id account userID hl)
  users u hu := (h.users u hu).imp_right fun ⟨input, hg, ho⟩ => ⟨input, hG _ hg, ho⟩

/-- A call keeps its input. -/
theorem Phase.Next.input {db : RegDb} {phase phase' : Phase} (h : phase.Next sha256 db phase')
    (hidle : phase ≠ .idle) {input : Input} (hi : phase'.input? = some input) : phase.input? = some input := by
  cases phase with
  | idle => exact absurd rfl hidle
  | once input' =>
    cases phase' with
    | once | classify => exact h ▸ hi
    | refill => exact h.symm.trans hi
    | returned => exact h.1 ▸ hi
    | threw => exact h.1.symm.trans hi
    | idle | unsure | refilled => cases h
  | classify =>
    obtain ⟨e, rfl, -⟩ := h
    exact hi
  | unsure =>
    rcases h with ⟨result, rfl, -⟩ | rfl <;> exact hi
  | refill input' =>
    rcases h with rfl | ⟨batch, attempt, stage, rfl⟩ | ⟨e, rfl, -⟩
    · cases input' <;> exact hi
    · exact hi
    · exact hi
  | returned | refilled | threw => cases h

/-- One call goes on. -/
theorem Origin.update (h : Origin G w) {c : Call} (hdb : w'.db = w.db)
    (hcalls : w'.calls = Function.update w.calls k c) (hp : ∀ input, c.phase.input? = some input → G input)
    (hl : ∀ input id account userID, c.limbo = some (.user input id account userID) → G input) :
    Origin G w' where
  phase j input hj := by
    rw [hcalls, Function.update_apply] at hj
    split_ifs at hj
    · exact hp input hj
    · exact h.phase j input hj
  limbo j input id account userID hj := by
    rw [hcalls, Function.update_apply] at hj
    split_ifs at hj
    · exact hl input id account userID hj
    · exact h.limbo j input id account userID hj
  users := hdb ▸ h.users

/-- A write of inputs with the property. -/
theorem Origin.apply (h : Origin G w) {write : Write}
    (hw : ∀ input id account userID, write = .user input id account userID → G input) :
    ∀ u ∈ (w.db.apply sha256 write).users, u = seedUser ∨ ∃ input, G input ∧ u.Of input := by
  intro u hu
  cases write with
  | user input id account userID =>
    rcases List.mem_append.1 hu with hu | hu
    · exact h.users u hu
    · obtain rfl := List.mem_singleton.1 hu
      exact Or.inr ⟨input, hw input id account userID rfl, rfl, rfl, rfl, rfl⟩
  | accounts => exact h.users u hu

/-- The input of what a call commits. -/
theorem Commits.input {phase done lost : Phase} {write : Write} (h : Commits phase write done lost) :
    (∀ input id account userID, write = .user input id account userID → phase.input? = some input) ∧
      (∀ input, done.input? = some input → phase.input? = some input) ∧
      ∀ input, lost.input? = some input → phase.input? = some input := by
  cases h with
  | user =>
    refine ⟨?_, fun _ hi => hi, fun _ hi => hi⟩
    rintro input id account userID ⟨⟩
    rfl
  | accounts input =>
    refine ⟨?_, ?_, fun _ hi => hi⟩
    · rintro input id account userID ⟨⟩
    · cases input <;> exact fun _ hi => hi

/-- Only `register` gives a call an input. -/
theorem step_once (hs : step sha256 w a = some (w', es)) (hidle : (w.calls a.call).phase = .idle) {input : Input}
    (hp : (w'.calls a.call).phase = .once input false 0 .start) : a = .register a.call input := by
  cases a with
  | register k input' =>
    simp only [step] at hs
    split_ifs at hs
    cases hs
    simp only [World.setPhase, Action.call, Function.update_self, Phase.once.injEq] at hp
    rw [hp.1]
    rfl
  | refillAccounts k batch =>
    simp only [step] at hs
    split_ifs at hs
    cases hs
    simp [World.setPhase, Action.call] at hp
  | run k rolledBack acked accounts =>
    simp only [step, show (w.calls k).phase = .idle from hidle, runCall] at hs
    cases hs
  | fail k e rolledBack =>
    simp only [step, show (w.calls k).phase = .idle from hidle, failCall] at hs
    split_ifs at hs
    cases hs
  | settle k applied =>
    obtain ⟨write, -, he⟩ := Option.map_eq_some_iff.1 hs
    cases he
    simp [World.settle, Action.call, show (w.calls k).phase = .idle from hidle] at hp

/-- **A step.** -/
theorem Origin.step (h : Origin G w) (hs : step sha256 w a = some (w', es))
    (ha : ∀ k input, a = .register k input → G input) : Origin G w' := by
  rcases step_spec hs with hq | ⟨acked, write, done, lost, hc, rfl⟩ | ⟨applied, write, hl, rfl⟩
  · obtain ⟨phase, hcalls, hnext⟩ := hq.moves
    refine h.update hq.db hcalls (fun input hi => ?_) fun input id account userID hl =>
      h.limbo a.call input id account userID hl
    by_cases hidle : (w.calls a.call).phase = .idle
    · rw [hidle] at hnext
      rcases hnext with ⟨input', rfl⟩ | ⟨batch, rfl⟩
      · cases hi
        refine ha a.call input (step_once hs hidle ?_)
        rw [hcalls, Function.update_self]
      · cases hi
    · exact h.phase a.call input (hnext.input hidle hi)
  · obtain ⟨hwrite, hdone, hlost⟩ := hc.input
    have hG := fun input hi => h.phase a.call input hi
    cases acked with
    | true =>
      have hup : Origin G (w.finish a.call done) :=
        h.update rfl rfl (fun input hi => hG input (hdone input hi)) fun input id account userID hl =>
          h.limbo a.call input id account userID hl
      exact ⟨hup.phase, hup.limbo, h.apply fun input id account userID he => hG input (hwrite _ _ _ _ he)⟩
    | false =>
      refine h.update (c := ⟨lost, some write⟩) rfl rfl (fun input hi => hG input (hlost input hi)) ?_
      rintro input id account userID ⟨⟩
      exact hG input (hwrite _ _ _ _ rfl)
  · have hup : Origin G { w.release a.call with
        calls := Function.update w.calls a.call { w.calls a.call with limbo := none } } :=
      h.update rfl rfl (fun input hi => h.phase a.call input hi) fun _ _ _ _ he => by cases he
    refine ⟨hup.phase, hup.limbo, ?_⟩
    cases applied with
    | true => exact h.apply fun input id account userID he => h.limbo a.call input id account userID (he ▸ hl)
    | false => exact h.users

theorem origin_seeded : Origin G { db := .seeded } where
  phase _ _ h := by cases h
  limbo _ _ _ _ _ h := by cases h
  users u hu := Or.inl (List.mem_singleton.1 hu)

end

end ApeServer.Registration
