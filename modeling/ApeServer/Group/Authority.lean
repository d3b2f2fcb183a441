/-
  Who may change a group.

  * `MemberChange.authority`, `GroupChange.authority`,
    `ApplicationChange.authority`: who can change which field;
  * `Effect.final`: a dismissed group keeps all its rows;
  * `group_authority`: what follows for every run.
-/
import ApeServer.Group.Admission

namespace ApeServer.Group

open Table Txn

/-- The command names the group and comes from its owner. -/
def FromOwner (db : GroupDb) (cmd : Command) (id : ℕ) : Prop :=
  groupId cmd.groupID = .ok id ∧ ∃ g, db.group? id = some g ∧ cmd.actor = g.owner

/-- The command is a `Send` to the group by an active member. -/
def SendOfMember (db : GroupDb) (cmd : Command) (id : ℕ) : Prop :=
  cmd.operation = .send ∧ groupId cmd.groupID = .ok id ∧ ActiveMember db id cmd.actor

section
variable {C : Collations} {W : Wire} {S : Source} {cmd : Command} {db db' : GroupDb}
  {reply : Reply} {id : ℕ} {a : Account}

theorem Acting.fromOwner {g : GroupRow} {m : MemberRow} (h : Acting db cmd id g m)
    (hop : cmd.operation.ownerOnly = true) : FromOwner db cmd id :=
  ⟨h.number, g, h.group, (h.owner hop).symm⟩

theorem MemberChange.authority {m m' : MemberRow} (h : MemberChange db db' cmd id a (some m) (some m')) :
    (m'.active ≠ m.active → FromOwner db cmd id ∨
      (cmd.operation = .leave ∧ cmd.actor = a ∧ m.active = true)) ∧
    (m'.ackSeq ≠ m.ackSeq ∨ m'.readSeq ≠ m.readSeq →
      (cmd.actor = a ∧ m.active = true ∧ (cmd.operation = .ack ∨ cmd.operation = .read)) ∨
      (FromOwner db cmd id ∧ cmd.operation = .review ∧ m.active = false ∧ m'.active = true ∧
        ∃ g, db.group? id = some g ∧ m'.ackSeq = g.lastSeq ∧ m'.readSeq = g.lastSeq)) := by
  generalize ho : some m = o at h
  generalize ho' : some m' = o' at h
  cases h with
  | keep => cases ho; cases ho'; simp
  | found => cases ho
  | join ha hop _ _ _ _ _ _ hn =>
    cases ho
    obtain rfl := Option.some.inj ho'
    have hact := hn m rfl
    have howner : FromOwner db cmd id := ha.fromOwner (by rw [hop]; rfl)
    refine ⟨fun _ => Or.inl howner, fun _ => Or.inr ⟨howner, hop, hact, rfl, _, ha.group, ?_⟩⟩
    simp [GroupDb.rejoin, hact]
  | leave ha hop =>
    cases ho
    obtain rfl := Option.some.inj ho'
    constructor
    · intro hne
      rcases hop with ⟨hop, hactor⟩ | ⟨hop, -⟩
      · exact Or.inr ⟨hop, hactor.symm, by simpa using hne⟩
      · exact Or.inl (ha.fromOwner (by rw [hop]; rfl))
    · simp
  | ack ha hop hactor =>
    cases ho
    obtain rfl := Option.some.inj ho'
    exact ⟨fun hne => absurd rfl hne, fun _ => Or.inl ⟨hactor.symm, ha.active, Or.inl hop⟩⟩
  | read ha hop hactor =>
    cases ho
    obtain rfl := Option.some.inj ho'
    exact ⟨fun hne => absurd rfl hne, fun _ => Or.inl ⟨hactor.symm, ha.active, Or.inr hop⟩⟩

/-- A new member was accepted by the owner, or made the group. -/
theorem MemberChange.authority_new {m' : MemberRow} (h : MemberChange db db' cmd id a none (some m')) :
    FromOwner db cmd id ∨ (cmd.operation = .create ∧ cmd.actor = a) := by
  generalize ho : none = o at h
  cases h with
  | keep => cases ho
  | found hop ha => exact Or.inr ⟨hop, ha.symm⟩
  | join ha hop => exact Or.inl (ha.fromOwner (by rw [hop]; rfl))
  | leave | ack | read => cases ho

theorem GroupChange.authority {g g' : GroupRow} (h : GroupChange db db' S cmd id (some g) (some g')) :
    (g'.name ≠ g.name ∨ g'.dismissed ≠ g.dismissed → FromOwner db cmd id) ∧
    (g'.lastSeq ≠ g.lastSeq → SendOfMember db cmd id) := by
  generalize ho : some g = o at h
  generalize ho' : some g' = o' at h
  cases h with
  | keep => cases ho; cases ho'; simp
  | found => cases ho
  | rename ha hop =>
    cases ho
    obtain rfl := Option.some.inj ho'
    exact ⟨fun _ => ha.fromOwner (by rw [hop]; rfl), fun hne => absurd rfl hne⟩
  | dismiss ha hop =>
    cases ho
    obtain rfl := Option.some.inj ho'
    exact ⟨fun _ => ha.fromOwner (by rw [hop]; rfl), fun hne => absurd rfl hne⟩
  | send ha hop =>
    cases ho
    obtain rfl := Option.some.inj ho'
    exact ⟨by simp, fun _ => ⟨hop, ha.number, _, ha.member, ha.active⟩⟩
  | recount ha =>
    cases ho
    obtain rfl := Option.some.inj ho'
    simp

theorem ApplicationChange.authority {x x' : ApplicationRow}
    (h : ApplicationChange db S cmd id (some x) (some x')) (hne : x'.status ≠ x.status) :
    FromOwner db cmd x.group := by
  generalize ho : some x = o at h
  generalize ho' : some x' = o' at h
  cases h with
  | keep => cases ho; cases ho'; exact absurd rfl hne
  | apply => cases ho
  | verdict ha hop => cases ho; exact ha.fromOwner (by rw [hop]; rfl)
  | close ha hop => cases ho; exact ha.fromOwner (by rw [hop]; rfl)

/-- A new application is that of an `Apply` from outside. -/
theorem Effect.newApplication (h : Effect S cmd db reply db') (hk : Numbered db) {x : ApplicationRow}
    (hx : x ∈ db'.applications) (hnew : ∀ y ∈ db.applications, y.id ≠ x.id) :
    cmd.operation = .apply ∧ cmd.actor = x.account ∧ ¬ ActiveMember db x.group x.account := by
  have hnone : db.application? x.id = none := List.find?_eq_none.2 fun y hy => by simpa using hnew y hy
  have hc := h.applicationRow hk x.id
  rw [(h.numbered hk).application? hx, hnone] at hc
  generalize ho : some x = o at hc
  generalize x.id = n at hc
  cases hc with
  | keep => cases ho
  | apply hop _ _ _ hm =>
    obtain rfl := Option.some.inj ho
    refine ⟨hop, rfl, ?_⟩
    rintro ⟨m, hmem, hact⟩
    rw [hm m hmem] at hact
    cases hact

/-- The log of a group grows by a `Send`. -/
theorem Effect.sendOfMember (h : Effect S cmd db reply db') (hne : db'.log id ≠ db.log id) :
    SendOfMember db cmd id := by
  cases h with
  | @send id' g m nickname ha hop =>
    by_cases hid : id = id'
    · subst hid
      exact ⟨hop, ha.number, m, ha.member, ha.active⟩
    · refine absurd ?_ hne
      have hkey : (newMessage S cmd nickname id' g).group ≠ id := Ne.symm hid
      exact Log.rows_append_other hkey db.messages
  | _ => exact absurd rfl hne

/-! ## Dismissed groups -/

/-- The rows of a group in all tables. -/
structure GroupRows where
  group : Option GroupRow
  members : List MemberRow
  messages : List MessageRow
  numbers : List NumberRow
  applications : List ApplicationRow

def GroupDb.rows (db : GroupDb) (id : ℕ) : GroupRows where
  group := db.group? id
  members := db.members.filter fun m => m.group = id
  messages := db.log id
  numbers := db.numbers.filter fun n => n.group = id
  applications := db.applications.filter fun x => x.group = id

theorem group?_updateGroup_other {f : GroupRow → GroupRow} (hf : ∀ g, (f g).id = g.id) {id' : ℕ}
    (h : id' ≠ id) : (db.updateGroup id' f).group? id = db.group? id := by
  rw [group?_updateGroup hf, if_neg (Ne.symm h)]

theorem members_updateMember_other {f : MemberRow → MemberRow} (hf : ∀ m, (f m).group = m.group)
    {id' : ℕ} (h : id' ≠ id) : (db.updateMember id' a f).members.filter (fun m => m.group = id)
      = db.members.filter fun m => m.group = id := by
  refine filter_updateWhere fun m _ hp => ?_
  simp only [Bool.and_eq_true, decide_eq_true_eq] at hp
  simp [hf, hp.1, h]

theorem members_join_other {id' n : ℕ} (h : id' ≠ id) :
    (db.join id' a n).members.filter (fun m => m.group = id)
      = db.members.filter fun m => m.group = id := by
  refine filter_upsert (fun m _ hp => ?_) (by simpa using h)
  simp only [Bool.and_eq_true, decide_eq_true_eq] at hp
  simp [GroupDb.rejoin, hp.1, h]

theorem applications_setStatus_other {p : ApplicationRow → Bool} {status : ℕ}
    (h : ∀ x ∈ db.applications, p x → x.group ≠ id) :
    (db.setStatus p status).applications.filter (fun x => x.group = id)
      = db.applications.filter fun x => x.group = id := by
  refine filter_updateWhere fun x hx hp => ?_
  simpa using h x hx hp

theorem rows_congr (hg : db'.group? id = db.group? id)
    (hm : db'.members.filter (fun m => m.group = id) = db.members.filter fun m => m.group = id)
    (hl : db'.log id = db.log id)
    (hn : db'.numbers.filter (fun n => n.group = id) = db.numbers.filter fun n => n.group = id)
    (ha : db'.applications.filter (fun x => x.group = id)
      = db.applications.filter fun x => x.group = id) : db'.rows id = db.rows id := by
  unfold GroupDb.rows
  rw [hg, hm, hl, hn, ha]

/-- **A dismissed group keeps its rows.** -/
theorem Effect.final (h : Effect S cmd db reply db') (hk : Numbered db) {g : GroupRow}
    (hg : db.group? id = some g) (hd : g.dismissed = true) : db'.rows id = db.rows id := by
  -- commands act on live groups only
  have hother : ∀ {id' g' m}, Acting db cmd id' g' m → id' ≠ id := by
    rintro id' g' m ha rfl
    have := Option.some.inj (ha.group.symm.trans hg)
    rw [← this, ha.alive] at hd
    cases hd
  have hverdict : ∀ {x : ApplicationRow}, x ∈ db.applications → x.group ≠ id →
      ∀ y ∈ db.applications, (decide (y.id = x.id)) = true → y.group ≠ id := by
    intro x hx hne y hy he
    rw [eq_of_key hk.ids hy hx (by simpa using he)]
    exact hne
  cases h with
  | same | pull => rfl
  | create hop hid =>
    have hne : S.snowflake ≠ id := by
      have := hid g (List.mem_of_find?_eq_some hg)
      have hgid : g.id = id := by simpa using List.find?_some hg
      exact fun he => this (hgid.trans he.symm)
    refine rows_congr (List.find?_append.trans ?_) ?_ rfl ?_ rfl
    · simp [GroupDb.group?, newGroup, hne]
    · simp [created, hne]
    · simp [created, hne]
  | @apply gid g' hop hn hg' hd' =>
    have hne : gid ≠ id := by
      rintro rfl
      rw [hg'] at hg
      cases hg
      rw [hd'] at hd
      cases hd
    refine rows_congr rfl rfl rfl rfl ?_
    simp [hne]
  | @accept id' g' m x ha hop hx hid hgx =>
    have hne := hother ha
    refine rows_congr ?_ (members_join_other hne) rfl rfl ?_
    · change ((db.join id' x.account g'.lastSeq).recount id').group? id = _
      exact group?_updateGroup_other (by intro; rfl) hne
    · exact applications_setStatus_other (hverdict hx (hgx ▸ hne))
  | @reject id' g' m x ha hop hx hid hgx =>
    exact rows_congr rfl rfl rfl rfl (applications_setStatus_other (hverdict hx (hgx ▸ hother ha)))
  | rename ha =>
    refine rows_congr ?_ rfl rfl rfl rfl
    exact group?_updateGroup_other (by intro; rfl) (hother ha)
  | remove ha =>
    refine rows_congr ?_ ?_ rfl rfl rfl
    · exact group?_updateGroup_other (by intro; rfl) (hother ha)
    · exact members_updateMember_other (by intro; rfl) (hother ha)
  | dismiss ha =>
    refine rows_congr ?_ rfl rfl rfl ?_
    · exact group?_updateGroup_other (by intro; rfl) (hother ha)
    · refine applications_setStatus_other fun y _ hy => ?_
      simp only [Bool.and_eq_true, decide_eq_true_eq] at hy
      rw [hy.1]
      exact hother ha
  | @send id' g' m nickname ha =>
    refine rows_congr ?_ rfl ?_ rfl rfl
    · exact group?_updateGroup_other (by intro; rfl) (hother ha)
    · have hkey : (newMessage S cmd nickname id' g').group ≠ id := hother ha
      exact Log.rows_append_other hkey db.messages
  | ack ha =>
    refine rows_congr rfl ?_ rfl rfl rfl
    exact members_updateMember_other (by intro; rfl) (hother ha)
  | read ha =>
    refine rows_congr rfl ?_ rfl rfl rfl
    exact members_updateMember_other (by intro; rfl) (hother ha)

/-! ## Steps and runs -/

/-- Step `i` runs the command. -/
def Ran (T : GroupTrace C W) (i : ℕ) (cmd : Command) : Prop :=
  ∃ S lost fuel, T.act i = .execute cmd S lost fuel

/-- A step changes nothing in the tables of the groups, or runs a command that
    has an effect. -/
theorem ran_effect (T : GroupTrace C W) {i : ℕ} (hi : i < T.len) :
    (T.state (i + 1)).tables = (T.state i).tables ∨
    ∃ cmd S reply, Ran T i cmd ∧ Effect S cmd (T.state i).tables reply (T.state (i + 1)).tables := by
  rcases step_effect (T.next i hi) with ht | ⟨cmd, S, lost, fuel, reply, hx, he⟩
  · exact Or.inl ht
  · exact Or.inr ⟨cmd, S, reply, ⟨S, lost, fuel, hx⟩, he⟩

theorem rows_trace (T : GroupTrace C W) {i j : ℕ} (hij : i ≤ j) (hj : j ≤ T.len) {g : GroupRow}
    (hg : (T.state i).group? id = some g) (hd : g.dismissed = true) :
    (T.state j).rows id = (T.state i).rows id := by
  refine T.related (P := Numbered) (R := fun db db' => db.group? id = some g → db'.rows id = db.rows id)
    (fun i hi => numbered_trace T hi) (fun _ _ => rfl) ?_ ?_ hij hj hg
  · intro db₁ db₂ db₃ h h' hg
    have hg' : db₂.group? id = db₁.group? id := congrArg GroupRows.group (h hg)
    exact (h' (hg'.trans hg)).trans (h hg)
  · intro db x db' es hk hs hg
    change db'.tables.rows id = db.tables.rows id
    rcases step_effect hs with ht | ⟨cmd, S, lost, fuel, reply, -, he⟩
    · rw [ht]
    · exact he.final hk.tables hg hd

/-- Nobody is notified of a dismissed group. -/
theorem buildDelivery_dismissed {g : GroupRow} (hg : db.group? id = some g) (hd : g.dismissed = true) :
    buildDelivery db a id = {} := by
  unfold buildDelivery
  rw [hg]
  cases db.member? id a with
  | none => rfl
  | some m => simp [hd]

/-- A transaction that fails changes nothing, unless its `COMMIT` was applied. -/
theorem rejected_same {lost : Bool} {fuel : ℕ} {es : List Event}
    (h : step C W db (.execute cmd S lost fuel) = some (db', es)) {f : Failure GroupError}
    (hf : (transaction (executeOnPool C W S cmd) lost db () fuel).1 = .error f)
    (hl : f ≠ .fault ∨ lost = false) : db' = db := by
  have hs : wp (executeOnPool C W S cmd) (fun _ _ _ => True) (fun _ _ => True) db () :=
    wp_mono executeOnPool_spec (fun _ _ _ _ => trivial) fun _ _ h => h
  simp only [step, Option.some.injEq, Prod.mk.injEq] at h
  obtain ⟨rfl, -⟩ := h
  rcases transaction_cases hs lost fuel with
    ⟨reply, d, x, he, -⟩ | ⟨f', x, he, -⟩ | ⟨hlost, reply, d, x, he, -⟩
  · rw [he] at hf; cases hf
  · rw [he]
  · rw [he] at hf
    cases hf
    rcases hl with hl | hl
    · exact absurd rfl hl
    · rw [hlost] at hl; cases hl

end

/-- **Authority over a group.**  In every run, from one state to the next:

    * the name and the dismissal of a group change by a command of its owner,
      its `last_seq` and messages by a `Send` of an active member;
    * the `active` flag of a member changes by a command of the owner, or by the
      member's own `Leave`; its positions by its own `Ack` or `Read` while
      it is active, or by the owner's `Review` that takes it back, which sets
      them to `last_seq`; a new member was accepted by the owner or made the
      group;
    * a verdict on an application is a command of the owner, a new one an
      `Apply` from outside;
    * after a dismissal no row of the group changes, and nobody is notified;
    * a rejected command changes nothing. -/
theorem group_authority (C : Collations) (W : Wire) (T : GroupTrace C W) :
    (∀ i < T.len, ∀ id g, (T.state i).group? id = some g →
      ∃ g', (T.state (i + 1)).group? id = some g' ∧
        (g'.name ≠ g.name ∨ g'.dismissed ≠ g.dismissed →
          ∃ cmd, Ran T i cmd ∧ FromOwner (T.state i) cmd id) ∧
        (g'.lastSeq ≠ g.lastSeq → ∃ cmd, Ran T i cmd ∧ SendOfMember (T.state i) cmd id)) ∧
    (∀ i < T.len, ∀ id, (T.state (i + 1)).log id ≠ (T.state i).log id →
      ∃ cmd, Ran T i cmd ∧ SendOfMember (T.state i) cmd id) ∧
    (∀ i < T.len, ∀ id a m, (T.state i).member? id a = some m →
      ∃ m', (T.state (i + 1)).member? id a = some m' ∧
        (m'.active ≠ m.active → ∃ cmd, Ran T i cmd ∧ (FromOwner (T.state i) cmd id ∨
          (cmd.operation = .leave ∧ cmd.actor = a ∧ m.active = true))) ∧
        (m'.ackSeq ≠ m.ackSeq ∨ m'.readSeq ≠ m.readSeq → ∃ cmd, Ran T i cmd ∧
          ((cmd.actor = a ∧ m.active = true ∧ (cmd.operation = .ack ∨ cmd.operation = .read)) ∨
            (FromOwner (T.state i) cmd id ∧ cmd.operation = .review ∧ m.active = false ∧
              m'.active = true ∧ ∃ g, (T.state i).group? id = some g ∧ m'.ackSeq = g.lastSeq ∧
                m'.readSeq = g.lastSeq)))) ∧
    (∀ i < T.len, ∀ id a m', (T.state i).member? id a = none →
      (T.state (i + 1)).member? id a = some m' → ∃ cmd, Ran T i cmd ∧
        (FromOwner (T.state i) cmd id ∨ (cmd.operation = .create ∧ cmd.actor = a))) ∧
    (∀ i < T.len, ∀ x ∈ (T.state i).applications, ∀ x' ∈ (T.state (i + 1)).applications,
      x'.id = x.id → x'.status ≠ x.status → ∃ cmd, Ran T i cmd ∧ FromOwner (T.state i) cmd x.group) ∧
    (∀ i < T.len, ∀ x' ∈ (T.state (i + 1)).applications, (∀ x ∈ (T.state i).applications, x.id ≠ x'.id) →
      ∃ cmd, Ran T i cmd ∧ cmd.operation = .apply ∧ cmd.actor = x'.account ∧
        ¬ ActiveMember (T.state i) x'.group x'.account) ∧
    (∀ i j, i ≤ j → j ≤ T.len → ∀ id g, (T.state i).group? id = some g → g.dismissed = true →
      (T.state j).rows id = (T.state i).rows id ∧ ∀ a, buildDelivery (T.state j) a id = {}) ∧
    (∀ i < T.len, ∀ cmd S lost fuel, T.act i = .execute cmd S lost fuel → ∀ f,
      (transaction (executeOnPool C W S cmd) lost (T.state i) () fuel).1 = .error f →
      f ≠ .fault ∨ lost = false → T.state (i + 1) = T.state i) := by
  refine ⟨?_, ?_, ?_, ?_, ?_, ?_, ?_, ?_⟩
  · intro i hi id g hg
    obtain ⟨g', hg', -⟩ := owner_trace T (Nat.le_succ i) hi hg
    refine ⟨g', hg', ?_⟩
    rcases ran_effect T hi with ht | ⟨cmd, S, reply, hr, he⟩
    · have hsame : (T.state i).tables.group? id = some g' := by rw [← ht]; exact hg'
      obtain rfl := Option.some.inj (hg.symm.trans hsame)
      simp
    · have hc : GroupChange (T.state i).tables (T.state (i + 1)).tables S cmd id (some g) (some g') := by
        rw [← hg, ← hg']; exact he.groupRow id
      exact ⟨fun h => ⟨cmd, hr, hc.authority.1 h⟩, fun h => ⟨cmd, hr, hc.authority.2 h⟩⟩
  · intro i hi id hne
    rcases ran_effect T hi with ht | ⟨cmd, S, reply, hr, he⟩
    · exact absurd (congrArg (fun db => GroupDb.log db id) ht) hne
    · exact ⟨cmd, hr, he.sendOfMember hne⟩
  · intro i hi id a m hm
    obtain ⟨m', hm', -⟩ := step_evolves (T.next i hi) hm
    refine ⟨m', hm', ?_⟩
    rcases ran_effect T hi with ht | ⟨cmd, S, reply, hr, he⟩
    · have hsame : (T.state i).tables.member? id a = some m' := by rw [← ht]; exact hm'
      obtain rfl := Option.some.inj (hm.symm.trans hsame)
      simp
    · have hc : MemberChange (T.state i).tables (T.state (i + 1)).tables cmd id a (some m) (some m') := by
        rw [← hm, ← hm']; exact he.memberRow id a
      exact ⟨fun h => ⟨cmd, hr, hc.authority.1 h⟩, fun h => ⟨cmd, hr, hc.authority.2 h⟩⟩
  · intro i hi id a m' hm hm'
    rcases ran_effect T hi with ht | ⟨cmd, S, reply, hr, he⟩
    · have hsame : (T.state i).tables.member? id a = some m' := by rw [← ht]; exact hm'
      cases hm.symm.trans hsame
    · have hc : MemberChange (T.state i).tables (T.state (i + 1)).tables cmd id a none (some m') := by
        rw [← hm, ← hm']; exact he.memberRow id a
      exact ⟨cmd, hr, hc.authority_new⟩
  · intro i hi x hx x' hx' hid hne
    have hk := numbered_trace T hi.le
    rcases ran_effect T hi with ht | ⟨cmd, S, reply, hr, he⟩
    · have hsame : x' ∈ (T.state i).tables.applications := by rw [← ht]; exact hx'
      exact absurd (congrArg ApplicationRow.status (eq_of_key hk.ids hsame hx hid)) hne
    · have hc := he.applicationRow hk.tables x.id
      rw [hk.tables.application? hx, ← hid, (he.numbered hk.tables).application? hx'] at hc
      exact ⟨cmd, hr, hc.authority hne⟩
  · intro i hi x' hx' hnew
    have hk := numbered_trace T hi.le
    rcases ran_effect T hi with ht | ⟨cmd, S, reply, hr, he⟩
    · have hsame : x' ∈ (T.state i).tables.applications := by rw [← ht]; exact hx'
      exact absurd rfl (hnew x' hsame)
    · obtain ⟨hop, hactor, hout⟩ := he.newApplication hk.tables hx' hnew
      exact ⟨cmd, hr, hop, hactor, hout⟩
  · intro i j hij hj id g hg hd
    have hrows := rows_trace T hij hj hg hd
    have hg' : (T.state j).group? id = some g := (congrArg GroupRows.group hrows).trans hg
    exact ⟨hrows, fun a => buildDelivery_dismissed hg' hd⟩
  · intro i hi cmd S lost fuel hx f hf hl
    have hs := T.next i hi
    rw [hx] at hs
    exact rejected_same hs hf hl

/-! ### A member that comes back -/

/-- Account 2 joins the group of account 1, which sends a message; account 2
    leaves, applies again and is accepted again. -/
def rejoinActions : List Action :=
  let run (cmd : Command) : Action := .execute cmd ⟨7, "u", 0⟩ false 20
  [.register ⟨1, "A"⟩, .register ⟨2, "B"⟩,
    run { operation := .create, actor := 1, text := "g", clientID := "1" },
    run { operation := .apply, actor := 2, groupID := "7", clientID := "1" },
    run { operation := .review, actor := 1, groupID := "7", applicationID := 1, accept := true,
          clientID := "2" },
    run { operation := .send, actor := 1, groupID := "7", text := "hi", clientID := "3" },
    run { operation := .leave, actor := 2, groupID := "7", clientID := "2" },
    run { operation := .apply, actor := 2, groupID := "7", clientID := "3" },
    run { operation := .review, actor := 1, groupID := "7", applicationID := 2, accept := true,
          clientID := "4" }]

noncomputable def rejoinRun : GroupTrace bytewise Wire.unary :=
  Machine.Trace.ofActions _ _ (fun i => rejoinActions.getD i (.deliver 0 "")) 9 (by decide +kernel)

/-- Its `ack_seq` is moved by the owner. -/
theorem rejoinRun_ack_by_owner : ¬ ∀ i < rejoinRun.len, ∀ id a m m',
    (rejoinRun.state i).member? id a = some m → (rejoinRun.state (i + 1)).member? id a = some m' →
    m'.ackSeq ≠ m.ackSeq → m.active = true ∧
      ∃ cmd S lost fuel, rejoinRun.act i = .execute cmd S lost fuel ∧ cmd.actor = a := by
  intro h
  have hm : (rejoinRun.state 8).member? 7 2
      = some { group := 7, account := 2, active := false } := by decide +kernel
  have hm' : (rejoinRun.state 9).member? 7 2
      = some { group := 7, account := 2, epoch := 2, joinSeq := 1, ackSeq := 1, readSeq := 1 } := by
    decide +kernel
  have := (h 8 (by decide) 7 2 _ _ hm hm' (by decide)).1
  cases this

end ApeServer.Group
