/-
  Groups are rooms.

  The tables describe a room for each group: who is an active member, who has
  a pending application, and the messages.  `Group.step` with its ledger, its
  transactions and its lost commits is a machine that moves these rooms.

  * `Means` says what a command does to the rooms;
  * `Effect.moves`: an effect is no move, or this one;
  * `group_refines_rooms`: every run is one of the rooms, and what it shows
    is read off from them.
-/
import ApeServer.Group.Deliveries
import ApeServer.Lib.Rooms
import ApeServer.Group.Admission

namespace ApeServer.Group

open Table Paging

/-! ## The rooms of the tables -/

/-- What an active member has missed. -/
def MemberRow.since (m : MemberRow) : Option ℕ := if m.active then some m.joinSeq else none

namespace GroupDb

/-- Who is in the group, with the number of the last message before. -/
def since (db : GroupDb) (id : ℕ) (a : Account) : Option ℕ := (db.member? id a).bind MemberRow.since

/-- Who has applied. -/
def waiting (db : GroupDb) (id : ℕ) : Set Account :=
  fun a => ∃ x ∈ db.applications, x.status = 0 ∧ x.group = id ∧ x.account = a

/-- The room of a group. -/
def room (db : GroupDb) (id : ℕ) (g : GroupRow) : Room Account MessageRow where
  owner := g.owner
  name := g.name
  isOpen := !g.dismissed
  since := db.since id
  waiting := db.waiting id
  said := db.log id

/-- All rooms. -/
def rooms (db : GroupDb) (id : ℕ) : Option (Room Account MessageRow) := (db.group? id).map (db.room id)

end GroupDb

/-- What a command does. -/
inductive Means (db : GroupDb) : Action → Rooms.Label ℕ Account MessageRow → Prop
  | create {cmd : Command} {S : Source} {lost : Bool} {fuel : ℕ} (hop : cmd.operation = .create) :
      Means db (.execute cmd S lost fuel) (cmd.actor, .found S.snowflake cmd.text)
  | apply {cmd : Command} {S : Source} {lost : Bool} {fuel id : ℕ} (hop : cmd.operation = .apply)
      (hn : groupId cmd.groupID = .ok id) : Means db (.execute cmd S lost fuel) (cmd.actor, .knock id)
  | accept {cmd : Command} {S : Source} {lost : Bool} {fuel : ℕ} {x : ApplicationRow}
      (hop : cmd.operation = .review) (hc : cmd.accept = true) (hn : groupId cmd.groupID = .ok x.group)
      (hx : x ∈ db.applications) (hid : x.id = cmd.applicationID) :
      Means db (.execute cmd S lost fuel) (cmd.actor, .welcome x.group x.account)
  | reject {cmd : Command} {S : Source} {lost : Bool} {fuel : ℕ} {x : ApplicationRow}
      (hop : cmd.operation = .review) (hc : cmd.accept = false) (hn : groupId cmd.groupID = .ok x.group)
      (hx : x ∈ db.applications) (hid : x.id = cmd.applicationID) :
      Means db (.execute cmd S lost fuel) (cmd.actor, .refuse x.group x.account)
  | rename {cmd : Command} {S : Source} {lost : Bool} {fuel id : ℕ} (hop : cmd.operation = .rename)
      (hn : groupId cmd.groupID = .ok id) : Means db (.execute cmd S lost fuel) (cmd.actor, .rename id cmd.text)
  | leave {cmd : Command} {S : Source} {lost : Bool} {fuel id : ℕ} (hop : cmd.operation = .leave)
      (hn : groupId cmd.groupID = .ok id) : Means db (.execute cmd S lost fuel) (cmd.actor, .leave id)
  | kick {cmd : Command} {S : Source} {lost : Bool} {fuel id : ℕ} (hop : cmd.operation = .kick)
      (hn : groupId cmd.groupID = .ok id) : Means db (.execute cmd S lost fuel) (cmd.actor, .expel id cmd.target)
  | dismiss {cmd : Command} {S : Source} {lost : Bool} {fuel id : ℕ} (hop : cmd.operation = .dismiss)
      (hn : groupId cmd.groupID = .ok id) : Means db (.execute cmd S lost fuel) (cmd.actor, .close id)
  | send {cmd : Command} {S : Source} {lost : Bool} {fuel id : ℕ} {g : GroupRow} {nickname : String}
      (hop : cmd.operation = .send) (hn : groupId cmd.groupID = .ok id) (hg : db.group? id = some g) :
      Means db (.execute cmd S lost fuel) (cmd.actor, .say id (newMessage S cmd nickname id g))

/-- The invariant under which the tables describe rooms. -/
structure Tidy (db : GroupDb) : Prop where
  sequenced : Sequenced db
  members : Members db
  numbered : Numbered db
  admission : Admission db

section
variable {C : Collations} {W : Wire} {S : Source} {cmd : Command} {db db' : GroupDb}
  {reply : Reply} {id id' : ℕ} {a : Account} {g : GroupRow} {m : MemberRow}

theorem tidy_init : Tidy {} := by
  refine ⟨?_, ?_, ?_, ?_⟩
  · constructor <;> simp [GroupDb.heads]
  · constructor <;> simp [GroupDb.member?, GroupDb.group?]
  · constructor <;> simp
  · constructor <;> simp

theorem step_tidy {x : Action} {es : List Event} (h : Tidy db) (hs : step C W db x = some (db', es)) :
    Tidy db' :=
  ⟨h.sequenced.step (step_log hs), step_members h.sequenced h.members hs, step_numbered h.numbered hs,
    step_admission h.numbered h.admission hs⟩

theorem Tidy.tables (h : Tidy db) : Tidy db.tables :=
  ⟨h.sequenced, ⟨h.members.keys, h.members.within, h.members.count, h.members.owner⟩, h.numbered.tables,
    ⟨h.admission.unique, h.admission.outside, h.admission.alive⟩⟩

/-! ## Parts of a room -/

theorem since_of_active (hm : db.member? id a = some m) (hact : m.active = true) :
    db.since id a = some m.joinSeq := by
  simp [GroupDb.since, hm, MemberRow.since, hact]

theorem since_eq_none (h : ∀ m, db.member? id a = some m → m.active = false) : db.since id a = none := by
  cases hm : db.member? id a with
  | none => simp [GroupDb.since, hm]
  | some m => simp [GroupDb.since, hm, MemberRow.since, h m hm]

/-- Rooms that agree in their parts. -/
theorem rooms_congr (hg : (db'.group? id).map (fun g => (g.owner, g.name, g.dismissed))
      = (db.group? id).map fun g => (g.owner, g.name, g.dismissed))
    (hm : db'.since id = db.since id) (hw : db'.waiting id = db.waiting id) (hl : db'.log id = db.log id) :
    db'.rooms id = db.rooms id := by
  unfold GroupDb.rooms
  cases hg' : db'.group? id <;> cases hg₀ : db.group? id <;> simp only [hg', hg₀, Option.map_some, Option.map_none,
    Option.some.injEq, Prod.mk.injEq, reduceCtorEq] at hg ⊢
  obtain ⟨howner, hname, hd⟩ := hg
  simp only [GroupDb.room, howner, hname, hd, hm, hw, hl]

/-- One room changed. -/
theorem rooms_update {r : Room Account MessageRow} (h : db'.rooms id = some r)
    (hother : ∀ id', id' ≠ id → db'.rooms id' = db.rooms id') :
    db'.rooms = Function.update db.rooms id (some r) := by
  funext id'
  by_cases hid : id' = id
  · subst hid
    rw [h, Function.update_self]
  · rw [hother id' hid, Function.update_of_ne hid]

/-- An update of a member row that keeps who is in the group since when. -/
theorem since_updateMember {f : MemberRow → MemberRow}
    (hf : ∀ m, (f m).group = m.group ∧ (f m).account = m.account) (hs : ∀ m, (f m).since = m.since) :
    (db.updateMember id' a f).since id = db.since id := by
  funext b
  unfold GroupDb.since
  rw [member?_updateMember hf]
  split_ifs
  · cases db.member? id b with
    | none => rfl
    | some m => exact hs m
  · rfl

/-- Who is sent out is no longer in the group. -/
theorem since_removed (target : Account) :
    (db.updateMember id target fun m => { m with active := false }).since id
      = Function.update (db.since id) target none := by
  funext b
  unfold GroupDb.since
  rw [member?_updateMember (f := fun m => { m with active := false }) fun m => ⟨rfl, rfl⟩,
    Function.update_apply]
  by_cases hb : b = target
  · rw [if_pos ⟨rfl, hb⟩, if_pos hb]
    cases db.member? id b <;> rfl
  · rw [if_neg fun h => hb h.2, if_neg hb]

theorem since_other {f : MemberRow → MemberRow} (hf : ∀ m, (f m).group = m.group ∧ (f m).account = m.account)
    (hid : id ≠ id') : (db.updateMember id' a f).since id = db.since id := by
  funext b
  unfold GroupDb.since
  rw [member?_updateMember hf, if_neg fun h => hid h.1]

/-- Who enters is in the group since its last message. -/
theorem since_join (n : ℕ) (hout : ∀ m, db.member? id a = some m → m.active = false) :
    (db.join id a n).since id = Function.update (db.since id) a (some n) := by
  funext b
  unfold GroupDb.since
  rw [Function.update_apply]
  by_cases hb : b = a
  · subst hb
    rw [if_pos rfl, member?_join_self]
    cases hm : db.member? id b with
    | none => rfl
    | some m => simp [GroupDb.rejoin, MemberRow.since, hout m hm]
  · rw [if_neg hb, member?_join_other n fun h => hb h.2]

theorem since_join_other (n : ℕ) (hid : id ≠ id') : (db.join id' a n).since id = db.since id := by
  funext b
  unfold GroupDb.since
  rw [member?_join_other n fun h => hid h.1]

/-- A verdict ends the waiting of one account. -/
theorem waiting_verdict (h : Tidy db) {x : ApplicationRow} (hx : x ∈ db.applications) (hs : x.status = 0)
    {status : ℕ} (hst : status ≠ 0) :
    (db.setStatus (fun y => y.id = x.id) status).waiting x.group = db.waiting x.group \ {x.account} := by
  ext b
  constructor
  · rintro ⟨y, hy, hys, hg, rfl⟩
    obtain ⟨z, hz, rfl⟩ := mem_updateWhere.1 hy
    split_ifs at hys hg ⊢ with hid
    · exact absurd hys hst
    · refine ⟨⟨z, hz, hys, hg, rfl⟩, fun hacc => hid ?_⟩
      rw [h.admission.unique z hz x hx hys hs hg hacc]
      exact decide_eq_true rfl
  · rintro ⟨⟨y, hy, hys, hg, rfl⟩, hne⟩
    refine ⟨y, mem_updateWhere.2 ⟨y, hy, if_neg ?_⟩, hys, hg, rfl⟩
    intro hid
    obtain rfl := eq_of_key h.numbered.ids hy hx (of_decide_eq_true hid)
    exact hne rfl

/-- And of no other group. -/
theorem verdict_elsewhere (h : Tidy db) {x : ApplicationRow} (hx : x ∈ db.applications) (hid : id ≠ x.group) :
    ∀ y ∈ db.applications, y.group = id → decide (y.id = x.id) = false := by
  rintro y hy rfl
  refine decide_eq_false fun he => hid ?_
  rw [eq_of_key h.numbered.ids hy hx he]

/-- Of applications elsewhere a change of status says nothing. -/
theorem waiting_setStatus {p : ApplicationRow → Bool} {status : ℕ}
    (hp : ∀ y ∈ db.applications, y.group = id → p y = false) :
    (db.setStatus p status).waiting id = db.waiting id := by
  ext b
  constructor
  · rintro ⟨y, hy, hys, hg, rfl⟩
    obtain ⟨z, hz, rfl⟩ := mem_updateWhere.1 hy
    have hzg : z.group = id := by split_ifs at hg <;> exact hg
    rw [if_neg (by simp [hp z hz hzg])] at hys ⊢
    exact ⟨z, hz, hys, hzg, rfl⟩
  · rintro ⟨y, hy, hys, hg, rfl⟩
    exact ⟨y, mem_updateWhere.2 ⟨y, hy, if_neg (by simp [hp y hy hg])⟩, hys, hg, rfl⟩

/-- In a dismissed group nobody waits. -/
theorem waiting_closed : (db.setStatus (fun y => y.group = id && y.status = 0) 3).waiting id = ∅ := by
  refine Set.eq_empty_of_forall_notMem ?_
  rintro b ⟨y, hy, hys, hg, -⟩
  obtain ⟨z, hz, rfl⟩ := mem_updateWhere.1 hy
  split_ifs at hys hg with hid
  simp [hg, hys] at hid

/-- Who applies waits. -/
theorem waiting_apply (x : ApplicationRow) (hs : x.status = 0) (n : ℕ) :
    { db with applications := db.applications ++ [x], nextApplicationId := n }.waiting id
      = if x.group = id then Insert.insert x.account (db.waiting id) else db.waiting id := by
  ext b
  constructor
  · rintro ⟨y, hy, hys, hg, rfl⟩
    rcases List.mem_append.1 hy with hy | hy
    · split_ifs
      · exact Or.inr ⟨y, hy, hys, hg, rfl⟩
      · exact ⟨y, hy, hys, hg, rfl⟩
    · obtain rfl := List.mem_singleton.1 hy
      rw [if_pos hg]
      exact Or.inl rfl
  · intro hb
    split_ifs at hb with hg
    · rcases hb with rfl | ⟨y, hy, hys, hg', rfl⟩
      · exact ⟨x, List.mem_append_right _ (List.mem_singleton_self x), hs, hg, rfl⟩
      · exact ⟨y, List.mem_append_left _ hy, hys, hg', rfl⟩
    · obtain ⟨y, hy, hys, hg', rfl⟩ := hb
      exact ⟨y, List.mem_append_left _ hy, hys, hg', rfl⟩

/-! ## Moves -/

theorem rooms_of (hg : db.group? id = some g) : db.rooms id = some (db.room id g) := by
  simp [GroupDb.rooms, hg]

/-- The tables of the other groups are the same. -/
theorem rooms_other {db₁ : GroupDb} {f : GroupRow → GroupRow} (hid : id ≠ id')
    (hg : db'.group? id = (db₁.updateGroup id' f).group? id) (hb : db₁.groups = db.groups)
    (hm : db'.since id = db.since id) (hw : db'.waiting id = db.waiting id) (hl : db'.log id = db.log id)
    (hf : ∀ g, (f g).id = g.id) : db'.rooms id = db.rooms id := by
  refine rooms_congr ?_ hm hw hl
  rw [hg, group?_updateGroup hf, if_neg hid, GroupDb.group?, hb]
  rfl

/-- The parts of a room. -/
theorem rooms_eq {r : Room Account MessageRow} (hg : db.group? id = some g) (ho : g.owner = r.owner)
    (hn : g.name = r.name) (hd : (!g.dismissed) = r.isOpen) (hm : db.since id = r.since)
    (hw : db.waiting id = r.waiting) (hl : db.log id = r.said) : db.rooms id = some r := by
  rw [rooms_of hg, GroupDb.room, ho, hn, hd, hm, hw, hl]

/-- What is done to an open room. -/
theorem move_change {who : Account} {d : Room.Deed ℕ Account MessageRow} {r : Room Account MessageRow}
    (hg : db.group? id = some g) (hd : g.dismissed = false) (hc : (db.room id g).Change id who d r)
    (hr : db'.rooms id = some r) (hother : ∀ id', id' ≠ id → db'.rooms id' = db.rooms id') :
    Rooms.Move db.rooms (who, d) db'.rooms := by
  rw [rooms_update hr hother]
  exact .change (rooms_of hg) (by simp [GroupDb.room, hd]) hc

/-- A group that is not there has no rows. -/
theorem Tidy.absent (h : Tidy db) (hid : ∀ g ∈ db.groups, g.id ≠ id) :
    db.group? id = none ∧ (∀ a, db.member? id a = none) ∧ db.waiting id = ∅ ∧ db.log id = [] := by
  have hg : db.group? id = none := List.find?_eq_none.2 (by simpa using hid)
  have hhead : ∀ n, (id, n) ∉ db.heads := by
    intro n hn
    obtain ⟨g, hg', -⟩ := group_of_head h.sequenced hn
    rw [hg] at hg'
    cases hg'
  refine ⟨hg, fun a => ?_, Set.eq_empty_of_forall_notMem ?_, Log.rows_eq_nil fun r hr he => ?_⟩
  · cases hm : db.member? id a with
    | none => rfl
    | some m =>
      obtain ⟨n, hn, -⟩ := h.members.within id a m hm
      exact absurd hn (hhead n)
  · rintro a ⟨x, hx, hs, rfl, -⟩
    obtain ⟨g, hg', -⟩ := h.admission.alive x hx hs
    rw [hg] at hg'
    cases hg'
  · obtain ⟨⟨k, n⟩, hn, hk⟩ := h.sequenced.known r hr
    obtain rfl : k = id := hk.trans he
    exact hhead n hn

/-- The row of a group after an update. -/
theorem group?_updated {f : GroupRow → GroupRow} (hf : ∀ g, (f g).id = g.id) (hg : db.group? id = some g) :
    (db.updateGroup id f).group? id = some (f g) := by
  rw [group?_updateGroup hf, if_pos rfl, hg, Option.map_some]

/-- The tables after `Create`. -/
theorem rooms_created (ht : Tidy db) (hid : ∀ g ∈ db.groups, g.id ≠ S.snowflake) :
    (created db S cmd).rooms
      = Function.update db.rooms S.snowflake (some (.new cmd.actor cmd.text)) := by
  obtain ⟨hg, hm, hw, hl⟩ := ht.absent hid
  have hmember : ∀ id a, (created db S cmd).member? id a = (db.member? id a).or
      ([({ group := S.snowflake, account := cmd.actor } : MemberRow)].find?
        fun m => m.group = id && m.account = a) := fun id a => List.find?_append
  have hgroup : ∀ id, (created db S cmd).group? id = (db.group? id).or
      ([newGroup S cmd].find? fun g => g.id = id) := fun id => List.find?_append
  refine rooms_update (rooms_eq (g := newGroup S cmd) ?_ rfl rfl rfl ?_ hw hl) fun id' hne => ?_
  · rw [hgroup, hg]
    simp [newGroup]
  · funext b
    unfold GroupDb.since
    rw [hmember, hm]
    by_cases hb : b = cmd.actor
    · subst hb
      simp [Room.new, MemberRow.since]
    · simp [Room.new, hb, Ne.symm hb]
  · refine rooms_congr ?_ ?_ rfl rfl
    · rw [hgroup]
      simp [newGroup, Ne.symm hne]
    · funext b
      unfold GroupDb.since
      rw [hmember]
      simp [Ne.symm hne]

/-- **What an effect does to the rooms.** -/
theorem Effect.moves (h : Effect S cmd db reply db') (ht : Tidy db) :
    db'.rooms = db.rooms ∨
      ∃ l, (∀ lost fuel, Means db (.execute cmd S lost fuel) l) ∧ Rooms.Move db.rooms l db'.rooms := by
  cases h with
  | same | pull => exact Or.inl rfl
  | create hop hid =>
    refine Or.inr ⟨_, fun _ _ => .create hop, ?_⟩
    rw [rooms_created ht hid]
    refine .found ?_
    simp [GroupDb.rooms, (ht.absent hid).1]
  | @apply id g hop hn hg hd hm hp =>
    have hw := fun id' => @waiting_apply db id'
      ⟨db.nextApplicationId, id, cmd.actor, cmd.text, 0, S.now⟩ rfl (db.nextApplicationId + 1)
    have hout : cmd.actor ∉ db.waiting id := by
      rintro ⟨x, hx, hs, hxg, hxa⟩
      exact hp x hx ⟨hxg, hxa, hs⟩
    refine Or.inr ⟨_, fun _ _ => .apply hop hn, ?_⟩
    refine move_change hg hd (.knock (since_eq_none hm) hout) (rooms_eq hg rfl rfl rfl rfl ?_ rfl)
      fun id' hne => rooms_congr rfl rfl ?_ rfl
    · rw [hw, if_pos rfl]
      rfl
    · rw [hw, if_neg (Ne.symm hne)]
  | @accept id g m x ha hop hx hid hxg hs hc =>
    subst hxg
    have hout := not_active (ht.admission.outside x hx hs)
    have hg := @group?_updated (db.join x.group x.account g.lastSeq) x.group g (fun g' => { g' with
      memberCount := (db.join x.group x.account g.lastSeq).activeCount x.group }) (fun _ => rfl) ha.group
    refine Or.inr ⟨_, fun _ _ => .accept hop hc ha.number hx hid, ?_⟩
    refine move_change ha.group ha.alive (.welcome (ha.owner (by rw [hop]; rfl)).symm ⟨x, hx, hs, rfl, rfl⟩)
      (rooms_eq hg rfl rfl rfl ?_ ?_ rfl) fun id' hne => ?_
    · refine (since_join g.lastSeq hout).trans ?_
      rw [← length_log ht.sequenced ha.group]
      rfl
    · exact waiting_verdict ht hx hs (by decide)
    · exact rooms_other hne rfl rfl (since_join_other _ hne)
        (waiting_setStatus (verdict_elsewhere ht hx hne)) rfl fun _ => rfl
  | @reject id g m x ha hop hx hid hxg hs hc =>
    subst hxg
    refine Or.inr ⟨_, fun _ _ => .reject hop hc ha.number hx hid, ?_⟩
    refine move_change ha.group ha.alive (.refuse (ha.owner (by rw [hop]; rfl)).symm ⟨x, hx, hs, rfl, rfl⟩)
      (rooms_eq ha.group rfl rfl rfl rfl (waiting_verdict ht hx hs (by decide)) rfl) fun id' hne => ?_
    exact rooms_congr rfl rfl (waiting_setStatus (verdict_elsewhere ht hx hne)) rfl
  | @rename id g m ha hop =>
    have hg := group?_updated (f := fun g => { g with name := cmd.text }) (fun _ => rfl) ha.group
    refine Or.inr ⟨_, fun _ _ => .rename hop ha.number, ?_⟩
    refine move_change ha.group ha.alive (.rename (ha.owner (by rw [hop]; rfl)).symm)
      (rooms_eq hg rfl rfl rfl rfl rfl rfl) fun id' hne => rooms_other hne rfl rfl rfl rfl rfl fun _ => rfl
  | @remove id g m target ha hop ho =>
    let db₁ := db.updateMember id target fun m => { m with active := false }
    have hg := @group?_updated db₁ id g (fun g => { g with memberCount := db₁.activeCount id })
      (fun _ => rfl) ha.group
    have hother : ∀ id', id' ≠ id → (db₁.recount id).rooms id' = db.rooms id' := fun id' hne =>
      rooms_other hne rfl rfl (since_other (f := fun m => { m with active := false }) (fun m => ⟨rfl, rfl⟩) hne)
        rfl rfl fun _ => rfl
    have hmove : ∀ {d : Room.Deed ℕ Account MessageRow}, (db.room id g).Change id cmd.actor d
        { db.room id g with since := Function.update (db.since id) target none } →
        Rooms.Move db.rooms (cmd.actor, d) (db₁.recount id).rooms := fun hc =>
      move_change ha.group ha.alive hc (rooms_eq hg rfl rfl rfl (since_removed target) rfl rfl) hother
    rcases hop with ⟨hop, rfl⟩ | ⟨hop, rfl⟩
    · have hin : (db.since id cmd.actor).isSome := by simp [since_of_active ha.member ha.active]
      exact Or.inr ⟨_, fun _ _ => .leave hop ha.number, hmove (.leave hin ho)⟩
    · by_cases hin : (db.since id cmd.target).isSome
      · have howner : cmd.actor = g.owner := (ha.owner (by rw [hop]; rfl)).symm
        exact Or.inr ⟨_, fun _ _ => .kick hop ha.number, hmove (.expel howner hin ho)⟩
      · -- who is kicked was not in the group
        left
        have hsame : (db₁.recount id).since id = db.since id := by
          refine (since_removed cmd.target).trans ?_
          rw [← Option.not_isSome_iff_eq_none.1 hin, Function.update_eq_self]
        funext id'
        by_cases hid : id' = id
        · subst hid
          rw [rooms_of ha.group]
          exact rooms_eq hg rfl rfl rfl hsame rfl rfl
        · exact hother id' hid
  | @dismiss id g m ha hop =>
    have hg := group?_updated (f := fun g => { g with dismissed := true }) (fun _ => rfl) ha.group
    refine Or.inr ⟨_, fun _ _ => .dismiss hop ha.number, ?_⟩
    refine move_change ha.group ha.alive (.close (ha.owner (by rw [hop]; rfl)).symm)
      (rooms_eq hg rfl rfl rfl rfl waiting_closed rfl) fun id' hne =>
        rooms_other hne rfl rfl rfl ?_ rfl fun _ => rfl
    refine waiting_setStatus fun y hy hyg => ?_
    simp [hyg, hne]
  | @send id g m nickname ha hop hr =>
    have hg := group?_updated (f := fun g' => { g' with lastSeq := g.lastSeq + 1 }) (fun _ => rfl) ha.group
    refine Or.inr ⟨(cmd.actor, .say id (newMessage S cmd nickname id g)),
      fun _ _ => .send hop ha.number ha.group, ?_⟩
    refine move_change ha.group ha.alive (.say ?_) (rooms_eq hg rfl rfl rfl rfl rfl ?_) fun id' hne =>
        rooms_other hne rfl rfl rfl rfl ?_ fun _ => rfl
    · change (db.since id cmd.actor).isSome
      rw [since_of_active ha.member ha.active]
      rfl
    · exact Log.rows_append_self (newMessage S cmd nickname id g) db.messages
    · exact Log.rows_append_other (Ne.symm hne) db.messages
  | ack | read =>
    left
    funext id'
    exact rooms_congr rfl (since_updateMember (fun _ => ⟨rfl, rfl⟩) fun _ => rfl) rfl rfl

theorem step_moves {x : Action} {es : List Event} (ht : Tidy db) (h : step C W db x = some (db', es)) :
    db'.rooms = db.rooms ∨ ∃ l, Means db x l ∧ Rooms.Move db.rooms l db'.rooms := by
  change db'.tables.rooms = db.tables.rooms ∨ _
  rcases step_effect h with hsame | ⟨cmd, S, lost, fuel, reply, rfl, he⟩
  · rw [hsame]
    exact Or.inl rfl
  · rcases he.moves ht.tables with hsame | ⟨l, hl, hmove⟩
    · exact Or.inl hsame
    · refine Or.inr ⟨l, ?_, hmove⟩
      cases hl lost fuel with
      | create hop => exact .create hop
      | apply hop hn => exact .apply hop hn
      | accept hop hc hn hx hid => exact .accept hop hc hn hx hid
      | reject hop hc hn hx hid => exact .reject hop hc hn hx hid
      | rename hop hn => exact .rename hop hn
      | leave hop hn => exact .leave hop hn
      | kick hop hn => exact .kick hop hn
      | dismiss hop hn => exact .dismiss hop hn
      | send hop hn hg => exact .send hop hn hg

/-- **The simulation.** -/
def roomsRefine (C : Collations) (W : Wire) :
    Machine.Refines (step C W) {} (Rooms.spec ℕ Account MessageRow) Means where
  Inv := Tidy
  abs := GroupDb.rooms
  inv_init := tidy_init
  inv_step _ _ _ _ h hs := step_tidy h hs
  abs_init := rfl
  abs_step _ _ _ _ h hs := step_moves h hs

/-! ## What is shown -/

/-- The messages after a position. -/
theorem drop_log (hs : Sequenced db) (hg : db.group? id = some g) (after : ℕ) :
    (db.log id).drop after = beyond MessageRow.seq after (db.log id) := by
  have h := Log.drop_of_seqs (a := 0) (hs.seqs _ (mem_heads hg)) after
  rw [Nat.zero_add] at h
  exact h

/-- And up to a snapshot. -/
theorem window_log (hs : Sequenced db) (hg : db.group? id = some g) (after upto : ℕ) :
    ((db.log id).take upto).drop after = beyond MessageRow.seq after (db.logTo id upto) := by
  rw [List.drop_take, drop_log hs hg, Log.take_of_seqs (seqs_log hs hg after)]
  simp only [beyond, GroupDb.logTo, List.filter_filter]
  refine List.filter_congr fun r _ => ?_
  by_cases hr : after < r.seq
  · simp only [hr, decide_true, Bool.and_true, Bool.true_and, decide_eq_decide]
    omega
  · simp [hr]

/-- A page of a room. -/
theorem pull_room (ht : Tidy db) {x : Action} {es : List Event} (h : step C W db x = some (db', es))
    (he : .replied cmd reply ∈ es) (hop : cmd.operation = .pull) (hne : reply.messages ≠ []) :
    ∃ id r n, groupId cmd.groupID = .ok id ∧ db.rooms id = some r ∧ r.isOpen = true ∧
      r.since cmd.actor = some n ∧ reply.messages = (((r.said.take
        (if cmd.snapshot = 0 then r.said.length else cmd.snapshot)).drop (max cmd.after n)).take
          cmd.pageSize).map messageRow := by
  obtain ⟨msg, hmsg⟩ := List.exists_mem_of_ne_nil _ hne
  obtain ⟨id, g, m, ha, hr⟩ := pulled_cases h he hop hmsg
  refine ⟨id, _, _, ha.number, rooms_of ha.group, by simp [GroupDb.room, ha.alive],
    since_of_active ha.member ha.active, ?_⟩
  have hlen := length_log ht.sequenced ha.group
  have hupto : (db.log id).take (if cmd.snapshot = 0 then (db.log id).length else cmd.snapshot)
      = (db.log id).take (if cmd.snapshot ≠ 0 then min cmd.snapshot g.lastSeq else g.lastSeq) := by
    by_cases h₀ : cmd.snapshot = 0
    · rw [if_pos h₀, if_neg (not_not.2 h₀), hlen]
    · rw [if_neg h₀, if_pos h₀, ← hlen, ← List.take_eq_take_min]
  change reply.messages = ((((db.log id).take
    (if cmd.snapshot = 0 then (db.log id).length else cmd.snapshot)).drop _).take _).map _
  rw [hr, hupto, window_log ht.sequenced ha.group, pulled, pull_rows ht.sequenced ha.group, List.take_take,
    min_eq_left (Nat.le_succ _)]
  rfl

/-- A notice of a room. -/
theorem notice_room (ht : Tidy db) {x : Action} {es : List Event} {notice : Notice}
    (h : step C W db x = some (db', es)) (he : .noticed a notice ∈ es) (hne : notice.messages ≠ []) :
    ∃ id r n seen, db.rooms id = some r ∧ r.isOpen = true ∧ r.since a = some n ∧ n ≤ seen ∧
      notice.messages = ((r.said.drop seen).take 20).map messageRow := by
  obtain ⟨msg, hmsg⟩ := List.exists_mem_of_ne_nil _ hne
  obtain ⟨id, rfl⟩ := noticed_cases h he
  obtain ⟨g, m, hg, hd, hm, hact, -, -, hms⟩ := buildDelivery_member hmsg
  obtain ⟨n, -, hw⟩ := ht.members.within id a m hm
  refine ⟨id, _, _, m.ackSeq, rooms_of hg, by simp [GroupDb.room, hd], since_of_active hm hact, hw.joinAck, ?_⟩
  change _ = (((db.log id).drop _).take _).map _
  rw [hms, orderLimit_log ht.sequenced hg, drop_log ht.sequenced hg]

end

/-- **Groups are rooms.**  Every run of the group service, with replayed
    requests, broken connections and lost commits, is a run of rooms:

    * some of its commands, in order, are its moves, each by the actor of its
      command, and what was said in a room is what these moves said in it;
    * who is shown messages by a `Pull` is in an open room, and sees a part of
      what was said in it since it came in;
    * and so is who is shown messages by a notice. -/
theorem group_refines_rooms (C : Collations) (W : Wire) (T : GroupTrace C W) :
    (∀ j ≤ T.len, ∃ ks ls, ks.Pairwise (· < ·) ∧ (∀ k ∈ ks, k < j) ∧
      List.Forall₂ (fun k l => Means (T.state k) (T.act k) l) ks ls ∧
      (Rooms.spec ℕ Account MessageRow).Run (fun _ => none) ls (T.state j).rooms ∧
      Rooms.Ok (T.state j).rooms ∧
      ∀ id r, (T.state j).rooms id = some r → r.said = ls.filterMap (Rooms.saysIn id)) ∧
    (∀ i < T.len, ∀ cmd reply, .replied cmd reply ∈ T.out i → cmd.operation = .pull → reply.messages ≠ [] →
      ∃ id r n, groupId cmd.groupID = .ok id ∧ (T.state i).rooms id = some r ∧ r.isOpen = true ∧
        r.since cmd.actor = some n ∧ reply.messages = (((r.said.take
          (if cmd.snapshot = 0 then r.said.length else cmd.snapshot)).drop (max cmd.after n)).take
            cmd.pageSize).map messageRow) ∧
    (∀ i < T.len, ∀ a notice, .noticed a notice ∈ T.out i → notice.messages ≠ [] →
      ∃ id r n seen, (T.state i).rooms id = some r ∧ r.isOpen = true ∧ r.since a = some n ∧ n ≤ seen ∧
        notice.messages = ((r.said.drop seen).take 20).map messageRow) := by
  refine ⟨?_, ?_, ?_⟩
  · intro j hj
    obtain ⟨ks, ls, hks, hlt, hmeans, hrun⟩ := (roomsRefine C W).run_start T hj
    exact ⟨ks, ls, hks, hlt, hmeans, hrun, Rooms.ok_of_run hrun, fun id => (Rooms.said_eq hrun).1⟩
  · intro i hi cmd reply he hop hne
    exact pull_room ((roomsRefine C W).inv T hi.le) (T.next i hi) he hop hne
  · intro i hi a notice he hne
    exact notice_room ((roomsRefine C W).inv T hi.le) (T.next i hi) he hne

end ApeServer.Group
