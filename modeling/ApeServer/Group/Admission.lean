/-
  How accounts come into a group.

  * `Admission` is the invariant: pending applications belong to accounts
    outside of live groups, one for each;
  * `ApplicationChange.status`: a verdict is final;
  * `fresh_admission`: who enters a group made it, or was accepted by its owner
    on an application made since it was last out of the group.
-/
import ApeServer.Group.Membership

namespace ApeServer.Group

open Table Txn

/-- **The invariant of the applications.** -/
structure Admission (db : GroupDb) : Prop where
  unique : ∀ x ∈ db.applications, ∀ y ∈ db.applications, x.status = 0 → y.status = 0 →
    x.group = y.group → x.account = y.account → x = y
  outside : ∀ x ∈ db.applications, x.status = 0 → ¬ ActiveMember db x.group x.account
  alive : ∀ x ∈ db.applications, x.status = 0 →
    ∃ g, db.group? x.group = some g ∧ g.dismissed = false

section
variable {C : Collations} {W : Wire} {S : Source} {cmd : Command} {db db' : GroupDb}
  {reply : Reply} {id : ℕ} {a : Account} {x : ApplicationRow}

/-- A new row is that of an `Apply` from outside. -/
structure Applied (db : GroupDb) (cmd : Command) (x : ApplicationRow) : Prop where
  op : cmd.operation = .apply
  actor : x.account = cmd.actor
  number : groupId cmd.groupID = .ok x.group
  outside : ¬ ActiveMember db x.group x.account
  alive : ∃ g, db.group? x.group = some g ∧ g.dismissed = false
  first : ∀ y ∈ db.applications, y.status = 0 → ¬ (y.group = x.group ∧ y.account = x.account)
  id : x.id = db.nextApplicationId

/-- A pending application was there, or is new. -/
theorem Effect.pending (h : Effect S cmd db reply db') (hk : Numbered db) (hx : x ∈ db'.applications)
    (hs : x.status = 0) : x ∈ db.applications ∨ Applied db cmd x := by
  have hc := h.applicationRow hk x.id
  rw [(h.numbered hk).application? hx] at hc
  generalize hnew : some x = o' at hc
  generalize ho : db.application? x.id = o at hc
  generalize hid : x.id = n at hc
  cases hc with
  | keep => exact Or.inl (List.mem_of_find?_eq_some (ho.trans hnew.symm))
  | @apply gid g hop hn hg hd hm hp hnext =>
    obtain rfl := Option.some.inj hnew
    refine Or.inr ⟨hop, rfl, hn, ?_, ⟨g, hg, hd⟩, fun y hy hs he => hp y hy ⟨he.1, he.2, hs⟩, hnext⟩
    rintro ⟨m, hmem, hact⟩
    rw [hm m hmem] at hact
    cases hact
  | verdict =>
    obtain rfl := Option.some.inj hnew
    dsimp only at hs
    split_ifs at hs
  | close =>
    obtain rfl := Option.some.inj hnew
    cases hs

/-- **A verdict is final.** -/
theorem ApplicationChange.status {o : Option ApplicationRow}
    (h : ApplicationChange db S cmd id (some x) o) : ∃ k, o = some { x with status := k } ∧
      (k = x.status ∨ (x.status = 0 ∧ (k = 1 ∨ k = 2 ∨ k = 3))) := by
  cases h with
  | keep => exact ⟨x.status, rfl, Or.inl rfl⟩
  | verdict _ _ _ hs =>
    refine ⟨_, rfl, Or.inr ⟨hs, ?_⟩⟩
    split_ifs <;> simp
  | close _ _ hs => exact ⟨3, rfl, Or.inr ⟨hs, by simp⟩⟩

/-- An account becomes a member only by an accepted application, or as the first
    one of a new group. -/
theorem MemberChange.entered {o o' : Option MemberRow} (h : MemberChange db db' cmd id a o o')
    (hn : ∀ m, o = some m → m.active = false) {m' : MemberRow} (hm : o' = some m')
    (hact : m'.active = true) :
    (cmd.operation = .create ∧ cmd.actor = a ∧ db.group? id = none) ∨
    ∃ g m x, Acting db cmd id g m ∧ cmd.operation = .review ∧ cmd.accept = true ∧
      x ∈ db.applications ∧ x.id = cmd.applicationID ∧ x.group = id ∧ x.account = a ∧
      x.status = 0 ∧ ∀ y ∈ db'.applications, y.id = x.id → y.status = 1 := by
  cases h with
  | keep =>
    rw [hn m' hm] at hact
    cases hact
  | found hop ha hid => exact Or.inl ⟨hop, ha.symm, hid⟩
  | join ha hop hc hx hid hg hacc hs _ _ hd =>
    exact Or.inr ⟨_, _, _, ha, hop, hc, hx, hid, hg, hacc, hs, hd⟩
  | leave => cases hm; cases hact
  | ack => cases hm; rw [hn _ rfl] at hact; cases hact
  | read => cases hm; rw [hn _ rfl] at hact; cases hact

theorem not_active (h : ¬ ActiveMember db id a) : ∀ m, db.member? id a = some m → m.active = false := by
  intro m hm
  by_contra hact
  exact h ⟨m, hm, by simpa using hact⟩

/-- A live group stays so, or its pending applications are closed. -/
theorem GroupChange.alive {g : GroupRow} {o : Option GroupRow}
    (h : GroupChange db db' S cmd id (some g) o) (hd : g.dismissed = false) :
    (∃ g', o = some g' ∧ g'.dismissed = false) ∨
      ∀ y ∈ db'.applications, y.group = id → y.status ≠ 0 := by
  cases h with
  | keep => exact Or.inl ⟨g, rfl, hd⟩
  | dismiss _ _ hc => exact Or.inr hc
  | rename | send | recount => exact Or.inl ⟨_, rfl, hd⟩

theorem Effect.admission (h : Effect S cmd db reply db') (hk : Numbered db) (ha : Admission db) :
    Admission db' where
  unique := by
    intro x hx y hy hxs hys hg hacc
    rcases h.pending hk hx hxs with hx' | hx' <;> rcases h.pending hk hy hys with hy' | hy'
    · exact ha.unique x hx' y hy' hxs hys hg hacc
    · exact absurd ⟨hg, hacc⟩ (hy'.first x hx' hxs)
    · exact absurd ⟨hg.symm, hacc.symm⟩ (hx'.first y hy' hys)
    · exact eq_of_key (h.numbered hk).ids hx hy (hx'.id.trans hy'.id.symm)
  outside := by
    intro x hx hs ⟨m, hm, hact⟩
    have hc := h.memberRow x.group x.account
    have hout : ¬ ActiveMember db x.group x.account ∧ ∃ g, db.group? x.group = some g := by
      rcases h.pending hk hx hs with hx' | hx'
      · exact ⟨ha.outside x hx' hs, (ha.alive x hx' hs).imp fun _ => And.left⟩
      · exact ⟨hx'.outside, hx'.alive.imp fun _ => And.left⟩
    rcases hc.entered (not_active hout.1) hm hact with ⟨-, -, hg⟩ | ⟨g, m', y, -, hop, -, hy, -, hg, hacc, hys, hd⟩
    · obtain ⟨g, hg'⟩ := hout.2
      rw [hg] at hg'
      cases hg'
    · rcases h.pending hk hx hs with hx' | hx'
      · obtain rfl := ha.unique x hx' y hy hs hys hg.symm hacc.symm
        rw [hd x hx rfl] at hs
        cases hs
      · rw [hx'.op] at hop
        cases hop
  alive := by
    intro x hx hs
    obtain ⟨g, hg, hd⟩ : ∃ g, db.group? x.group = some g ∧ g.dismissed = false := by
      rcases h.pending hk hx hs with hx' | hx'
      · exact ha.alive x hx' hs
      · exact hx'.alive
    have hc := h.groupRow x.group
    rw [hg] at hc
    rcases hc.alive hd with halive | hclosed
    · exact halive
    · exact absurd hs (hclosed x hx rfl)

/-! ## Steps and runs -/

theorem Numbered.tables (h : Numbered db) : Numbered db.tables := ⟨h.ids, h.below⟩

theorem step_admission {y : Action} {es : List Event} (hk : Numbered db) (ha : Admission db)
    (h : step C W db y = some (db', es)) : Admission db' := by
  suffices hn : Admission db'.tables from ⟨hn.unique, hn.outside, hn.alive⟩
  have ha' : Admission db.tables := ⟨ha.unique, ha.outside, ha.alive⟩
  rcases step_effect h with ht | ⟨cmd, S, lost, fuel, reply, -, he⟩
  · rw [ht]; exact ha'
  · exact he.admission hk.tables ha'

theorem admission_trace (T : GroupTrace C W) {i : ℕ} (hi : i ≤ T.len) : Admission (T.state i) := by
  have h := T.invariant (P := fun db => Numbered db ∧ Admission db) ⟨?_, ?_⟩
    (fun _ _ _ _ h hs => ⟨step_numbered h.1 hs, step_admission h.1 h.2 hs⟩) hi
  · exact h.2
  · constructor <;> simp
  · constructor <;> simp

/-- The status of an application over any number of steps. -/
theorem status_trace (T : GroupTrace C W) {i j : ℕ} (hij : i ≤ j) (hj : j ≤ T.len)
    (hx : x ∈ (T.state i).applications) : ∃ k, { x with status := k } ∈ (T.state j).applications ∧
      (k = x.status ∨ (x.status = 0 ∧ (k = 1 ∨ k = 2 ∨ k = 3))) := by
  refine T.related (P := Numbered) (R := fun db db' => ∀ x ∈ db.applications,
      ∃ k, { x with status := k } ∈ db'.applications ∧
        (k = x.status ∨ (x.status = 0 ∧ (k = 1 ∨ k = 2 ∨ k = 3))))
    (fun i hi => numbered_trace T hi) (fun _ x hx => ⟨x.status, hx, Or.inl rfl⟩) ?_ ?_ hij hj x hx
  · intro db₁ db₂ db₃ h h' x hx
    obtain ⟨k, hk, hs⟩ := h x hx
    obtain ⟨k', hk', hs'⟩ := h' _ hk
    refine ⟨k', hk', ?_⟩
    dsimp only at hs'
    omega
  · intro db y db' es hk hs x hx
    change ∃ k, _ ∈ db'.tables.applications ∧ _
    rcases step_effect hs with ht | ⟨cmd, S, lost, fuel, reply, -, he⟩
    · rw [ht]; exact ⟨x.status, hx, Or.inl rfl⟩
    · have hc := he.applicationRow hk.tables x.id
      rw [hk.tables.application? hx] at hc
      obtain ⟨k, hk', hst⟩ := hc.status
      exact ⟨k, List.mem_of_find?_eq_some hk', hst⟩

/-- Step `j` is the `Apply` that inserts the row. -/
def ApplyCommits (T : GroupTrace C W) (j : ℕ) (x : ApplicationRow) : Prop :=
  x ∉ (T.state j).applications ∧ x ∈ (T.state (j + 1)).applications ∧
    ∃ cmd S lost fuel, T.act j = .execute cmd S lost fuel ∧ cmd.operation = .apply ∧
      cmd.actor = x.account ∧ groupId cmd.groupID = .ok x.group

/-- Step `i` is a `Review` by the owner that accepts the row. -/
def ReviewCommits (T : GroupTrace C W) (i : ℕ) (x : ApplicationRow) : Prop :=
  x ∈ (T.state i).applications ∧ x.status = 0 ∧
    ∃ cmd S lost fuel g, T.act i = .execute cmd S lost fuel ∧ cmd.operation = .review ∧
      cmd.accept = true ∧ cmd.applicationID = x.id ∧ (T.state i).group? x.group = some g ∧
      cmd.actor = g.owner

/-- A pending application was inserted by an `Apply`, and its account has been
    outside of the group since. -/
theorem apply_of_pending (T : GroupTrace C W) {i : ℕ} (hi : i ≤ T.len)
    (hx : x ∈ (T.state i).applications) (hs : x.status = 0) :
    ∃ j < i, ApplyCommits T j x ∧
      ∀ k, j ≤ k → k ≤ i → ¬ ActiveMember (T.state k) x.group x.account := by
  obtain ⟨j, hji, hn, hk⟩ := T.began (P := fun db => x ∈ db.applications) (by simp) hx
  have hj := hk (j + 1) (by omega) (by omega)
  have happ : ∃ cmd S lost fuel, T.act j = .execute cmd S lost fuel ∧ Applied (T.state j).tables cmd x := by
    rcases step_effect (T.next j (by omega)) with ht | ⟨cmd, S, lost, fuel, reply, hact, he⟩
    · have : x ∈ (T.state (j + 1)).tables.applications := hj
      rw [ht] at this
      exact absurd this hn
    · rcases he.pending (numbered_trace T (by omega)).tables hj hs with h | h
      · exact absurd h hn
      · exact ⟨cmd, S, lost, fuel, hact, h⟩
  obtain ⟨cmd, S, lost, fuel, hact, h⟩ := happ
  refine ⟨j, hji, ⟨hn, hj, cmd, S, lost, fuel, hact, h.op, h.actor.symm, h.number⟩, ?_⟩
  intro k hjk hki
  rcases Nat.lt_or_eq_of_le hjk with hjk | rfl
  · exact (admission_trace T (hki.trans hi)).outside x (hk k hjk hki) hs
  · exact h.outside

end

/-- **Admission is freshly approved.**  In every run:

    * for each group and account at most one application is pending, never one of
      an active member, and none in a dismissed group;
    * an application keeps its data, and its status goes from 0 to 1, 2 or 3
      and then stays;
    * an account that becomes active made the group by this step, or is accepted
      by its owner on a pending application that the account made after it was
      last active. -/
theorem fresh_admission (C : Collations) (W : Wire) (T : GroupTrace C W) :
    (∀ i ≤ T.len, ∀ x ∈ (T.state i).applications, x.status = 0 →
      (∀ y ∈ (T.state i).applications, y.status = 0 → y.group = x.group → y.account = x.account →
        y = x) ∧
      ¬ ActiveMember (T.state i) x.group x.account ∧
      ∀ g, (T.state i).group? x.group = some g → g.dismissed = false) ∧
    (∀ i j, i ≤ j → j ≤ T.len → ∀ x ∈ (T.state i).applications,
      ∃ k, { x with status := k } ∈ (T.state j).applications ∧
        (k = x.status ∨ (x.status = 0 ∧ (k = 1 ∨ k = 2 ∨ k = 3)))) ∧
    (∀ i < T.len, ∀ id a, ¬ ActiveMember (T.state i) id a → ActiveMember (T.state (i + 1)) id a →
      (∃ cmd S lost fuel, T.act i = .execute cmd S lost fuel ∧ cmd.operation = .create ∧
        cmd.actor = a ∧ (T.state i).group? id = none) ∨
      ∃ x, x.group = id ∧ x.account = a ∧ ReviewCommits T i x ∧ ∃ j < i, ApplyCommits T j x ∧
        ∀ k, j ≤ k → k ≤ i → ¬ ActiveMember (T.state k) id a) := by
  refine ⟨?_, ?_, ?_⟩
  · intro i hi x hx hs
    have h := admission_trace T hi
    refine ⟨fun y hy hys hg hacc => h.unique y hy x hx hys hs hg hacc, h.outside x hx hs, ?_⟩
    intro g hg
    obtain ⟨g', hg', hd⟩ := h.alive x hx hs
    rw [hg] at hg'
    cases hg'
    exact hd
  · exact fun i j hij hj x hx => status_trace T hij hj hx
  · intro i hi id a hn ⟨m, hm, hact⟩
    rcases step_effect (T.next i hi) with ht | ⟨cmd, S, lost, fuel, reply, hx, he⟩
    · have hm' : (T.state (i + 1)).tables.member? id a = some m := hm
      rw [ht] at hm'
      exact absurd ⟨m, hm', hact⟩ hn
    · rcases (he.memberRow id a).entered (not_active hn) hm hact with
        ⟨hop, ha, hg⟩ | ⟨g, m', x, ha, hop, hc, hx', hid, rfl, rfl, hs, -⟩
      · exact Or.inl ⟨cmd, S, lost, fuel, hx, hop, ha, hg⟩
      · right
        have howner : cmd.actor = g.owner := (ha.owner (by rw [hop]; rfl)).symm
        exact ⟨x, rfl, rfl, ⟨hx', hs, cmd, S, lost, fuel, g, hx, hop, hc, hid.symm, ha.group, howner⟩,
          apply_of_pending T hi.le hx' hs⟩

end ApeServer.Group
