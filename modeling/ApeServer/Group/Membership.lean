/-
  The members of a group.

  * `Members` is the invariant: a member row belongs to a group and its
    positions lie between `join_seq` and `last_seq`, `member_count` counts the
    active members, and the owner is one of them;
  * `MemberChange.evolves` says what a command can do to a row that is there;
  * `membership_invariant`: what follows for every run.
-/
import ApeServer.Group.Rows

namespace ApeServer.Group

open Table Txn

/-- The account is an active member of the group. -/
def ActiveMember (db : GroupDb) (id : ℕ) (a : Account) : Prop :=
  ∃ m, db.member? id a = some m ∧ m.active = true

/-- The positions of a member of a group with `last_seq = n`. -/
structure MemberRow.Within (n : ℕ) (m : MemberRow) : Prop where
  joinAck : m.joinSeq ≤ m.ackSeq
  ack : m.ackSeq ≤ n
  joinRead : m.joinSeq ≤ m.readSeq
  read : m.readSeq ≤ n

/-- **The invariant of the members.** -/
structure Members (db : GroupDb) : Prop where
  keys : (db.members.map fun m => (m.group, m.account)).Nodup
  within : ∀ id a m, db.member? id a = some m → ∃ n, (id, n) ∈ db.heads ∧ m.Within n
  count : ∀ g ∈ db.groups, g.memberCount = db.activeCount g.id
  owner : ∀ id g, db.group? id = some g → ActiveMember db id g.owner

section
variable {C : Collations} {W : Wire} {S : Source} {cmd : Command} {db db' : GroupDb}
  {reply : Reply} {id : ℕ} {a : Account}

/-! ## Rows and their keys -/

theorem member_of_mem (h : Members db) {m : MemberRow} (hm : m ∈ db.members) :
    db.member? m.group m.account = some m := by
  obtain ⟨y, hy⟩ : ∃ y, db.member? m.group m.account = some y :=
    Option.isSome_iff_exists.1 (List.find?_isSome.2 ⟨m, hm, by simp⟩)
  have hkey : y.group = m.group ∧ y.account = m.account := by simpa using List.find?_some hy
  rw [hy, eq_of_key h.keys (List.mem_of_find?_eq_some hy) hm (Prod.ext hkey.1 hkey.2)]

theorem keys_updateMember {f : MemberRow → MemberRow}
    (hf : ∀ m, ((f m).group, (f m).account) = (m.group, m.account)) :
    (db.updateMember id a f).members.map (fun m => (m.group, m.account))
      = db.members.map fun m => (m.group, m.account) :=
  map_updateWhere hf db.members

theorem Effect.keys (h : Effect S cmd db reply db')
    (hk : (db.members.map fun m => (m.group, m.account)).Nodup) :
    (db'.members.map fun m => (m.group, m.account)).Nodup := by
  cases h with
  | same | pull | apply | reject | rename | dismiss | send => exact hk
  | create _ _ _ _ hmem =>
    refine nodup_append_one hk fun m hm he => hmem m hm ?_
    exact ⟨congrArg Prod.fst he, congrArg Prod.snd he⟩
  | accept =>
    refine nodup_upsert hk (fun _ => rfl) fun m hm he => ?_
    simpa using ⟨congrArg Prod.fst he, congrArg Prod.snd he⟩
  | remove => rw [← keys_updateMember] at hk; exacts [hk, fun _ => rfl]
  | ack => rw [← keys_updateMember] at hk; exacts [hk, fun _ => rfl]
  | read => rw [← keys_updateMember] at hk; exacts [hk, fun _ => rfl]

/-! ## Positions -/

theorem within_rejoin {n : ℕ} {m : MemberRow} (h : m.active = false) : (GroupDb.rejoin n m).Within n := by
  constructor <;> simp [GroupDb.rejoin, h]

theorem Effect.within (h : Effect S cmd db reply db') (hs : Sequenced db)
    (hw : ∀ id a m, db.member? id a = some m → ∃ n, (id, n) ∈ db.heads ∧ m.Within n) :
    ∀ id a m, db'.member? id a = some m → ∃ n, (id, n) ∈ db'.heads ∧ m.Within n := by
  intro id a m' hm'
  -- the bound only rises
  suffices hold : (id, 0) ∈ db'.heads ∧ m'.Within 0 ∨ ∃ n, (id, n) ∈ db.heads ∧ m'.Within n by
    rcases hold with ⟨hh, hw'⟩ | ⟨n, hn, hw'⟩
    · exact ⟨0, hh, hw'⟩
    · obtain ⟨n', hn', hle⟩ := h.log.head_le hs hn
      exact ⟨n', hn', hw'.1, hw'.2.trans hle, hw'.3, hw'.4.trans hle⟩
  have hc := h.memberRow id a
  rw [hm'] at hc
  generalize hm : db.member? id a = o at hc
  cases hc with
  | keep => exact Or.inr (hw id a m' hm)
  | found _ _ _ hh => exact Or.inl ⟨hh, le_rfl, le_rfl, le_rfl, le_rfl⟩
  | join ha _ _ _ _ _ _ _ hn =>
    refine Or.inr ⟨_, mem_heads ha.group, ?_⟩
    cases o with
    | none => exact ⟨le_rfl, le_rfl, le_rfl, le_rfl⟩
    | some m => exact within_rejoin (hn m rfl)
  | leave =>
    obtain ⟨n, hn, hw'⟩ := hw id a _ hm
    exact Or.inr ⟨n, hn, hw'.1, hw'.2, hw'.3, hw'.4⟩
  | ack ha _ _ hs' =>
    obtain ⟨n, hn, hw'⟩ := hw id a _ hm
    have hg := hs.head_unique (mem_heads ha.group) hn
    refine Or.inr ⟨n, hn, le_max_of_le_left hw'.1, ?_, hw'.3, hw'.4⟩
    exact max_le hw'.2 (max_le (hg ▸ hs') (hw'.1.trans hw'.2))
  | read ha _ _ hs' =>
    obtain ⟨n, hn, hw'⟩ := hw id a _ hm
    have hg := hs.head_unique (mem_heads ha.group) hn
    refine Or.inr ⟨n, hn, hw'.1, hw'.2, le_max_of_le_left hw'.3, ?_⟩
    exact max_le hw'.4 (max_le (hg ▸ hs') (hw'.1.trans hw'.2))

/-! ## The count -/

theorem activeCount_updateMember {f : MemberRow → MemberRow} {id' : ℕ}
    (hf : ∀ m, m.group = id' → ((f m).group = id && (f m).active) = (m.group = id && m.active)) :
    (db.updateMember id' a f).activeCount id = db.activeCount id := by
  unfold GroupDb.activeCount GroupDb.updateMember updateWhere
  rw [← List.countP_eq_length_filter, ← List.countP_eq_length_filter, List.countP_map]
  refine List.countP_congr fun m _ => ?_
  simp only [Function.comp]
  split_ifs with hp
  · simp only [Bool.and_eq_true, decide_eq_true_eq] at hp
    rw [hf m hp.1]
  · rfl

/-- Other groups do not see who joins one. -/
theorem activeCount_join {id' n : ℕ} (h : id ≠ id') :
    (db.join id' a n).activeCount id = db.activeCount id := by
  unfold GroupDb.join upsert
  split_ifs
  · exact activeCount_updateMember (f := GroupDb.rejoin n) (by rintro m rfl; simp [GroupDb.rejoin, h.symm])
  · simp [GroupDb.activeCount, Ne.symm h]

theorem count_updateGroup {f : GroupRow → GroupRow} (hf : ∀ g, (f g).id = g.id)
    (hc : ∀ g ∈ db.groups, g.memberCount = db.activeCount g.id)
    (hm : ∀ g, (f g).memberCount = g.memberCount) {id' : ℕ} :
    ∀ g ∈ (db.updateGroup id' f).groups, g.memberCount = db.activeCount g.id := by
  intro g hg
  obtain ⟨g', hg', rfl⟩ := mem_updateWhere.1 hg
  split_ifs
  · rw [hm, hf]; exact hc g' hg'
  · exact hc g' hg'

/-- Recounting one group is enough when the others did not change. -/
theorem count_recount {id' : ℕ}
    (hc : ∀ g ∈ db.groups, g.id ≠ id' → g.memberCount = db.activeCount g.id) :
    ∀ g ∈ (db.recount id').groups, g.memberCount = (db.recount id').activeCount g.id := by
  intro g hg
  obtain ⟨g', hg', rfl⟩ := mem_updateWhere.1 hg
  by_cases hid : g'.id = id'
  · rw [if_pos (by simpa using hid)]
    subst hid
    rfl
  · rw [if_neg (by simpa using hid)]
    exact hc g' hg' hid

/-- A group that does not exist has no members. -/
theorem activeCount_created (hh : ∀ g ∈ db.groups, g.id ≠ S.snowflake)
    (hw : ∀ m ∈ db.members, ∃ g ∈ db.groups, g.id = m.group) :
    (created db S cmd).activeCount S.snowflake = 1 := by
  have hnone : db.members.filter (fun m => m.group = S.snowflake && m.active) = [] := by
    refine List.filter_eq_nil_iff.2 fun m hm => ?_
    obtain ⟨g, hg, he⟩ := hw m hm
    have : m.group ≠ S.snowflake := he ▸ hh g hg
    simp [this]
  simp only [GroupDb.activeCount, created, List.filter_append, hnone]
  simp

theorem Effect.count (h : Effect S cmd db reply db')
    (hw : ∀ m ∈ db.members, ∃ g ∈ db.groups, g.id = m.group)
    (hc : ∀ g ∈ db.groups, g.memberCount = db.activeCount g.id) :
    ∀ g ∈ db'.groups, g.memberCount = db'.activeCount g.id := by
  cases h with
  | same | pull | apply | reject => exact hc
  | create _ hid =>
    intro g hg
    rcases List.mem_append.1 hg with hg | hg
    · have hne : S.snowflake ≠ g.id := (hid g hg).symm
      rw [hc g hg]
      simp [GroupDb.activeCount, created, hne]
    · rw [List.mem_singleton.1 hg]
      exact (activeCount_created hid hw).symm
  | @accept id' g m x =>
    refine count_recount fun g' hg' hne => ?_
    rw [activeCount_join hne]
    exact hc g' hg'
  | rename => exact count_updateGroup (by intro g; rfl) hc (by intro g; rfl)
  | remove =>
    refine count_recount fun g' hg' hne => ?_
    rw [activeCount_updateMember]
    · exact hc g' hg'
    · rintro m rfl
      simp [Ne.symm hne]
  | dismiss => exact count_updateGroup (by intro g; rfl) hc (by intro g; rfl)
  | send => exact count_updateGroup (by intro g; rfl) hc (by intro g; rfl)
  | ack | read =>
    intro g hg
    rw [activeCount_updateMember]
    · exact hc g hg
    · exact fun _ _ => rfl

/-! ## Changes of a row -/

/-- What can become of a member row.  A membership that ended starts anew with
    the next epoch; otherwise the epoch stays, and the positions only rise. -/
def MemberRow.Evolves (m m' : MemberRow) : Prop :=
  (m.active = false ∧ m'.active = true ∧ m'.epoch = m.epoch + 1) ∨
  (m'.epoch = m.epoch ∧ (m'.active = true → m.active = true) ∧ m.ackSeq ≤ m'.ackSeq ∧
    m.readSeq ≤ m'.readSeq)

theorem MemberRow.Evolves.refl (m : MemberRow) : m.Evolves m := Or.inr ⟨rfl, id, le_rfl, le_rfl⟩

theorem MemberChange.evolves {m : MemberRow} {o : Option MemberRow}
    (h : MemberChange db db' cmd id a (some m) o) : ∃ m', o = some m' ∧ m.Evolves m' := by
  cases h with
  | keep => exact ⟨m, rfl, .refl m⟩
  | join _ _ _ _ _ _ _ _ hn =>
    have hact := hn m rfl
    exact ⟨_, rfl, Or.inl ⟨hact, rfl, by simp [GroupDb.rejoin, hact]⟩⟩
  | leave => exact ⟨_, rfl, Or.inr ⟨rfl, (fun h => by cases h), le_rfl, le_rfl⟩⟩
  | ack => exact ⟨_, rfl, Or.inr ⟨rfl, fun h => h, le_max_left _ _, le_rfl⟩⟩
  | read => exact ⟨_, rfl, Or.inr ⟨rfl, fun h => h, le_rfl, le_max_left _ _⟩⟩

/-- Only a departure ends a membership, and the owner has none. -/
theorem MemberChange.active_owner {g : GroupRow} {o : Option MemberRow} {m : MemberRow}
    (h : MemberChange db db' cmd id g.owner (some m) o) (hg : db.group? id = some g)
    (hact : m.active = true) : ∃ m', o = some m' ∧ m'.active = true := by
  cases h with
  | keep => exact ⟨m, rfl, hact⟩
  | join _ _ _ _ _ _ _ _ hn =>
    rw [hn m rfl] at hact
    cases hact
  | leave ha _ ho =>
    obtain rfl := Option.some.inj (ha.group.symm.trans hg)
    exact absurd rfl ho
  | ack => exact ⟨_, rfl, hact⟩
  | read => exact ⟨_, rfl, hact⟩

/-- The owner of a group is the same afterwards. -/
theorem GroupChange.owner {g : GroupRow} {o : Option GroupRow}
    (h : GroupChange db db' S cmd id (some g) o) : ∃ g', o = some g' ∧ g'.owner = g.owner := by
  cases h with
  | keep => exact ⟨g, rfl, rfl⟩
  | rename | dismiss | send | recount => exact ⟨_, rfl, rfl⟩

theorem Effect.owner (h : Effect S cmd db reply db')
    (ho : ∀ id g, db.group? id = some g → ActiveMember db id g.owner) :
    ∀ id g, db'.group? id = some g → ActiveMember db' id g.owner := by
  intro id g' hg'
  have hc := h.groupRow id
  cases hg : db.group? id with
  | none =>
    rw [hg, hg'] at hc
    cases hc with
    | found _ hid hm => exact ⟨_, hm, rfl⟩
  | some g =>
    rw [hg] at hc
    obtain ⟨g'', he, howner⟩ := hc.owner
    rw [hg'] at he
    cases he
    obtain ⟨m, hm, hact⟩ := ho id g hg
    have hr := h.memberRow id g.owner
    rw [hm] at hr
    obtain ⟨m', hm', hact'⟩ := hr.active_owner hg hact
    rw [howner]
    exact ⟨m', hm', hact'⟩

/-! ## Steps and runs -/

theorem Effect.members (h : Effect S cmd db reply db') (hs : Sequenced db) (hk : Members db) :
    Members db' where
  keys := h.keys hk.keys
  within := h.within hs hk.within
  count := by
    refine h.count (fun m hm => ?_) hk.count
    obtain ⟨n, hn, -⟩ := hk.within _ _ m (member_of_mem hk hm)
    obtain ⟨g, hg, he⟩ := List.mem_map.1 hn
    exact ⟨g, hg, congrArg Prod.fst he⟩
  owner := h.owner hk.owner

theorem step_members {x : Action} {es : List Event} (hs : Sequenced db) (hk : Members db)
    (h : step C W db x = some (db', es)) : Members db' := by
  suffices hn : Members db'.tables from ⟨hn.keys, hn.within, hn.count, hn.owner⟩
  have hk' : Members db.tables := ⟨hk.keys, hk.within, hk.count, hk.owner⟩
  rcases step_effect h with ht | ⟨cmd, S, lost, fuel, reply, -, he⟩
  · rw [ht]; exact hk'
  · exact he.members hs hk'

theorem members_trace (T : GroupTrace C W) {i : ℕ} (hi : i ≤ T.len) : Members (T.state i) := by
  have h := T.invariant (P := fun db => Sequenced db ∧ Members db) ⟨?_, ?_⟩
    (fun _ _ _ _ h hs => ⟨h.1.step (step_log hs), step_members h.1 h.2 hs⟩) hi
  · exact h.2
  · constructor <;> simp [GroupDb.heads]
  · constructor <;> simp [GroupDb.member?, GroupDb.group?]

/-- A member row stays, and evolves. -/
theorem step_evolves {x : Action} {es : List Event} (h : step C W db x = some (db', es))
    {m : MemberRow} (hm : db.member? id a = some m) :
    ∃ m', db'.member? id a = some m' ∧ m.Evolves m' := by
  change ∃ m', db'.tables.member? id a = some m' ∧ m.Evolves m'
  change db.tables.member? id a = some m at hm
  rcases step_effect h with ht | ⟨cmd, S, lost, fuel, reply, -, he⟩
  · rw [ht]; exact ⟨m, hm, .refl m⟩
  · have hc := he.memberRow id a
    rw [hm] at hc
    exact hc.evolves

/-- What a row keeps over any number of steps. -/
structure MemberRow.Later (m m' : MemberRow) : Prop where
  epoch : m.epoch ≤ m'.epoch
  active : m.epoch = m'.epoch → m'.active = true → m.active = true
  ack : m.epoch = m'.epoch → m.ackSeq ≤ m'.ackSeq
  read : m.epoch = m'.epoch → m.readSeq ≤ m'.readSeq

theorem MemberRow.Evolves.later {m m' : MemberRow} (h : m.Evolves m') : m.Later m' := by
  rcases h with ⟨-, -, he⟩ | ⟨he, hact, hack, hread⟩
  · constructor <;> omega
  · exact ⟨he.ge, fun _ => hact, fun _ => hack, fun _ => hread⟩

theorem MemberRow.Later.trans {m₁ m₂ m₃ : MemberRow} (h : m₁.Later m₂) (h' : m₂.Later m₃) :
    m₁.Later m₃ := by
  have hle := h.epoch
  have hle' := h'.epoch
  refine ⟨hle.trans hle', fun he hact => ?_, fun he => ?_, fun he => ?_⟩
  · exact h.active (by omega) (h'.active (by omega) hact)
  · exact (h.ack (by omega)).trans (h'.ack (by omega))
  · exact (h.read (by omega)).trans (h'.read (by omega))

theorem later_trace (T : GroupTrace C W) {i j : ℕ} (hij : i ≤ j) (hj : j ≤ T.len) {m : MemberRow}
    (hm : (T.state i).member? id a = some m) :
    ∃ m', (T.state j).member? id a = some m' ∧ m.Later m' := by
  refine T.related (P := fun _ => True)
    (R := fun db db' => ∀ m, db.member? id a = some m → ∃ m', db'.member? id a = some m' ∧ m.Later m')
    (fun _ _ => trivial) (fun _ m hm => ⟨m, hm, (MemberRow.Evolves.refl m).later⟩) ?_ ?_ hij hj m hm
  · intro db₁ db₂ db₃ h h' m hm
    obtain ⟨m', hm', hl⟩ := h m hm
    obtain ⟨m'', hm'', hl'⟩ := h' m' hm'
    exact ⟨m'', hm'', hl.trans hl'⟩
  · intro db x db' es _ hs m hm
    obtain ⟨m', hm', he⟩ := step_evolves hs hm
    exact ⟨m', hm', he.later⟩

/-- Groups keep their owners. -/
theorem owner_trace (T : GroupTrace C W) {i j : ℕ} (hij : i ≤ j) (hj : j ≤ T.len) {g : GroupRow}
    (hg : (T.state i).group? id = some g) :
    ∃ g', (T.state j).group? id = some g' ∧ g'.owner = g.owner := by
  refine T.related (P := fun _ => True)
    (R := fun db db' => ∀ g, db.group? id = some g → ∃ g', db'.group? id = some g' ∧ g'.owner = g.owner)
    (fun _ _ => trivial) (fun _ g hg => ⟨g, hg, rfl⟩) ?_ ?_ hij hj g hg
  · intro db₁ db₂ db₃ h h' g hg
    obtain ⟨g', hg', he⟩ := h g hg
    obtain ⟨g'', hg'', he'⟩ := h' g' hg'
    exact ⟨g'', hg'', he'.trans he⟩
  · intro db x db' es _ hs g hg
    change ∃ g', db'.tables.group? id = some g' ∧ g'.owner = g.owner
    change db.tables.group? id = some g at hg
    rcases step_effect hs with ht | ⟨cmd, S, lost, fuel, reply, -, he⟩
    · rw [ht]; exact ⟨g, hg, rfl⟩
    · have hc := he.groupRow id
      rw [hg] at hc
      exact hc.owner

/-- The operations that carry the epoch of a membership. -/
def Operation.ofMembership (op : Operation) : Prop := op = .ack ∨ op = .read ∨ op = .send

/-- A command that changes something belongs to the actor's current epoch. -/
theorem Effect.epoch (h : Effect S cmd db reply db') (hop : cmd.operation.ofMembership)
    (he : cmd.epoch ≠ 0) (hne : db' ≠ db) :
    ∃ id m, groupId cmd.groupID = .ok id ∧ db.member? id cmd.actor = some m ∧ m.active = true ∧
      m.epoch = cmd.epoch := by
  have hacting : ∀ {id g m}, Acting db cmd id g m → ∃ id m, groupId cmd.groupID = .ok id ∧
      db.member? id cmd.actor = some m ∧ m.active = true ∧ m.epoch = cmd.epoch := by
    intro id g m ha
    exact ⟨id, m, ha.number, ha.member, ha.active, (ha.epoch.resolve_left he).symm⟩
  unfold Operation.ofMembership at hop
  cases h with
  | same | pull => exact absurd rfl hne
  | send _ ha | ack ha | read ha | accept ha | reject ha | rename ha | remove ha | dismiss ha => exact hacting ha
  | create hop' | apply hop' => rw [hop'] at hop; simp at hop

end

/-- **The membership invariant.**  In every run:

    * `member_count` is the number of active members, and the owner is one;
    * every member row belongs to a group, and
      `join_seq ≤ ack_seq, read_seq ≤ last_seq`;
    * a group keeps its owner;
    * the epoch of a row grows by one when its membership starts anew, and
      else stays;
    * an account that is active twice in one epoch was active in between, and
      within an epoch `ack_seq` and `read_seq` never decrease;
    * `Ack`, `Read` and `Send` with an epoch change the tables of the groups only
      if it is the current one of the actor. -/
theorem membership_invariant (C : Collations) (W : Wire) (T : GroupTrace C W) :
    (∀ i ≤ T.len, ∀ id g, (T.state i).group? id = some g →
      g.memberCount = (T.state i).activeCount id ∧ ActiveMember (T.state i) id g.owner) ∧
    (∀ i ≤ T.len, ∀ m ∈ (T.state i).members, ∃ g, (T.state i).group? m.group = some g ∧
      m.joinSeq ≤ m.ackSeq ∧ m.ackSeq ≤ g.lastSeq ∧ m.joinSeq ≤ m.readSeq ∧ m.readSeq ≤ g.lastSeq) ∧
    (∀ i j, i ≤ j → j ≤ T.len → ∀ id g, (T.state i).group? id = some g →
      ∃ g', (T.state j).group? id = some g' ∧ g'.owner = g.owner) ∧
    (∀ i < T.len, ∀ id a m, (T.state i).member? id a = some m →
      ∃ m', (T.state (i + 1)).member? id a = some m' ∧
        m'.epoch = if m.active = false ∧ m'.active = true then m.epoch + 1 else m.epoch) ∧
    (∀ i j, i ≤ j → j ≤ T.len → ∀ id a m, (T.state i).member? id a = some m →
      ∃ m', (T.state j).member? id a = some m' ∧ m.epoch ≤ m'.epoch ∧
        (m.epoch = m'.epoch → m.ackSeq ≤ m'.ackSeq ∧ m.readSeq ≤ m'.readSeq ∧
          (m'.active = true → ∀ k, i ≤ k → k ≤ j → ActiveMember (T.state k) id a))) ∧
    (∀ i < T.len, ∀ cmd S lost fuel, T.act i = .execute cmd S lost fuel →
      cmd.operation.ofMembership → cmd.epoch ≠ 0 → (T.state (i + 1)).tables ≠ (T.state i).tables →
      ∃ id m, groupId cmd.groupID = .ok id ∧ (T.state i).member? id cmd.actor = some m ∧
        m.active = true ∧ m.epoch = cmd.epoch) := by
  refine ⟨?_, ?_, ?_, ?_, ?_, ?_⟩
  · intro i hi id g hg
    have h := members_trace T hi
    have hid : g.id = id := by simpa using List.find?_some hg
    refine ⟨?_, h.owner id g hg⟩
    rw [h.count g (List.mem_of_find?_eq_some hg), hid]
  · intro i hi m hm
    have h := members_trace T hi
    obtain ⟨n, hn, hw⟩ := h.within _ _ m (member_of_mem h hm)
    obtain ⟨g, hg, rfl⟩ := group_of_head (sequenced_trace T hi) hn
    exact ⟨g, hg, hw.1, hw.2, hw.3, hw.4⟩
  · exact fun i j hij hj id g hg => owner_trace T hij hj hg
  · intro i hi id a m hm
    obtain ⟨m', hm', he⟩ := step_evolves (T.next i hi) hm
    refine ⟨m', hm', ?_⟩
    rcases he with ⟨ha, ha', he⟩ | ⟨he, hact, -⟩
    · rw [if_pos ⟨ha, ha'⟩, he]
    · rw [if_neg, he]
      rintro ⟨ha, ha'⟩
      rw [hact ha'] at ha
      cases ha
  · intro i j hij hj id a m hm
    obtain ⟨m', hm', hl⟩ := later_trace T hij hj hm
    refine ⟨m', hm', hl.epoch, fun he => ⟨hl.ack he, hl.read he, fun hact k hik hkj => ?_⟩⟩
    obtain ⟨mk, hmk, hlk⟩ := later_trace T hik (hkj.trans hj) hm
    obtain ⟨m'', hm'', hlk'⟩ := later_trace T hkj hj hmk
    rw [hm'] at hm''
    cases hm''
    have h₁ := hlk.epoch
    have h₂ := hlk'.epoch
    exact ⟨mk, hmk, hlk'.active (by omega) hact⟩
  · intro i hi cmd S lost fuel hx hop he hne
    rcases step_effect (T.next i hi) with ht | ⟨cmd', S', lost', fuel', reply, hx', heff⟩
    · exact absurd ht hne
    · rw [hx] at hx'
      cases hx'
      exact heff.epoch hop he hne

end ApeServer.Group
