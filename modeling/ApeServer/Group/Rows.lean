/-
  What a command does to one row.

  `MemberChange`, `GroupChange` and `ApplicationChange` list the changes of a
  row of the three tables, each with the command that makes it and what was
  checked for it.

  * `Effect.memberRow`, `Effect.groupRow`, `Effect.applicationRow`: an effect
    changes every row in one of these ways.
-/
import ApeServer.Group.Sequence

namespace ApeServer.Group

open Table Txn

/-! ## Rows by key -/

/-- The application with an id. -/
def GroupDb.application? (db : GroupDb) (id : ℕ) : Option ApplicationRow :=
  db.applications.find? fun a => a.id = id

/-- The number of active members. -/
def GroupDb.activeCount (db : GroupDb) (id : ℕ) : ℕ :=
  (db.members.filter fun m => m.group = id && m.active).length

section
variable {db : GroupDb} {id id' : ℕ} {a a' : Account}

theorem group?_updateGroup {f : GroupRow → GroupRow} (hf : ∀ g, (f g).id = g.id) :
    (db.updateGroup id' f).group? id = if id = id' then (db.group? id).map f else db.group? id := by
  have hfind : (db.updateGroup id' f).group? id =
      (db.group? id).map fun g => if decide (g.id = id') then f g else g := by
    apply find?_updateWhere
    intro g _
    rw [hf]
  rw [hfind]
  cases hg : db.group? id with
  | none => simp
  | some g =>
    have hid : g.id = id := by simpa using List.find?_some hg
    subst hid
    split_ifs <;> simp_all

theorem member?_updateMember {f : MemberRow → MemberRow}
    (hf : ∀ m, (f m).group = m.group ∧ (f m).account = m.account) :
    (db.updateMember id' a' f).member? id a =
      if id = id' ∧ a = a' then (db.member? id a).map f else db.member? id a := by
  have hfind : (db.updateMember id' a' f).member? id a = (db.member? id a).map fun m =>
      if m.group = id' && m.account = a' then f m else m :=
    find?_updateWhere (fun m _ => by rw [(hf m).1, (hf m).2]) db.members
  rw [hfind]
  cases hm : db.member? id a with
  | none => simp
  | some m =>
    have hkey : m.group = id ∧ m.account = a := by simpa using List.find?_some hm
    obtain ⟨rfl, rfl⟩ := hkey
    split_ifs <;> simp_all

/-- A member enters: its old row starts anew, or it gets a row. -/
theorem member?_join_self (n : ℕ) :
    (db.join id a n).member? id a = some (((db.member? id a).map (GroupDb.rejoin n)).getD
      { group := id, account := a, joinSeq := n, ackSeq := n, readSeq := n }) := by
  apply find?_upsert_self
  · exact fun m hm => hm
  · simp

theorem member?_join_other (n : ℕ) (h : ¬ (id = id' ∧ a = a')) :
    (db.join id' a' n).member? id a = db.member? id a := by
  apply find?_upsert_other
  · exact fun m _ => rfl
  · intro m hm
    simp only [Bool.and_eq_true, decide_eq_true_eq] at hm
    obtain ⟨rfl, rfl⟩ := hm
    simpa using h
  · have h' : ¬ (id' = id ∧ a' = a) := fun hk => h ⟨hk.1.symm, hk.2.symm⟩
    simpa using h'

theorem application?_setStatus {p : ApplicationRow → Bool} {status : ℕ} :
    (db.setStatus p status).application? id = (db.application? id).map fun x =>
      if p x then { x with status := status } else x := by
  apply find?_updateWhere
  intro x _
  rfl

/-- An active member stays as it is when it is accepted again. -/
theorem rejoin_active {n : ℕ} {m : MemberRow} (h : m.active = true) : GroupDb.rejoin n m = m := by
  obtain ⟨group, account, active, epoch, joinSeq, ackSeq, readSeq⟩ := m
  cases h
  rfl

end

/-! ## The changes -/

/-- The changes of the row of an account in a group. -/
inductive MemberChange (db db' : GroupDb) (cmd : Command) (id : ℕ) (a : Account) :
    Option MemberRow → Option MemberRow → Prop
  | keep {o : Option MemberRow} : MemberChange db db' cmd id a o o
  | found (hop : cmd.operation = .create) (ha : a = cmd.actor) (hid : db.group? id = none)
      (hh : (id, 0) ∈ db'.heads) :
      MemberChange db db' cmd id a none (some { group := id, account := a })
  | join {g : GroupRow} {m : MemberRow} {x : ApplicationRow} {o : Option MemberRow}
      (h : Acting db cmd id g m) (hop : cmd.operation = .review) (hc : cmd.accept = true)
      (hx : x ∈ db.applications) (hid : x.id = cmd.applicationID) (hg : x.group = id)
      (ha : x.account = a) (hs : x.status = 0) (hn : ∀ m, o = some m → m.active = false)
      (hh : (id, g.lastSeq) ∈ db'.heads)
      (hd : ∀ y ∈ db'.applications, y.id = x.id → y.status = 1) :
      MemberChange db db' cmd id a o (some ((o.map (GroupDb.rejoin g.lastSeq)).getD
        { group := id, account := a, joinSeq := g.lastSeq, ackSeq := g.lastSeq, readSeq := g.lastSeq }))
  | leave {g : GroupRow} {m x : MemberRow} (h : Acting db cmd id g m)
      (hop : (cmd.operation = .leave ∧ a = cmd.actor) ∨ (cmd.operation = .kick ∧ a = cmd.target))
      (ho : a ≠ g.owner) : MemberChange db db' cmd id a (some x) (some { x with active := false })
  | ack {g : GroupRow} {m : MemberRow} (h : Acting db cmd id g m) (hop : cmd.operation = .ack)
      (ha : a = cmd.actor) (hs : cmd.after ≤ g.lastSeq) :
      MemberChange db db' cmd id a (some m)
        (some { m with ackSeq := max m.ackSeq (max cmd.after m.joinSeq) })
  | read {g : GroupRow} {m : MemberRow} (h : Acting db cmd id g m) (hop : cmd.operation = .read)
      (ha : a = cmd.actor) (hs : cmd.after ≤ g.lastSeq) :
      MemberChange db db' cmd id a (some m)
        (some { m with readSeq := max m.readSeq (max cmd.after m.joinSeq) })

/-- The changes of the row of a group. -/
inductive GroupChange (db db' : GroupDb) (S : Source) (cmd : Command) (id : ℕ) :
    Option GroupRow → Option GroupRow → Prop
  | keep {o : Option GroupRow} : GroupChange db db' S cmd id o o
  | found (hop : cmd.operation = .create) (hid : id = S.snowflake)
      (hm : db'.member? id cmd.actor = some { group := id, account := cmd.actor }) :
      GroupChange db db' S cmd id none (some (newGroup S cmd))
  | rename {g : GroupRow} {m : MemberRow} (h : Acting db cmd id g m) (hop : cmd.operation = .rename) :
      GroupChange db db' S cmd id (some g) (some { g with name := cmd.text })
  | dismiss {g : GroupRow} {m : MemberRow} (h : Acting db cmd id g m) (hop : cmd.operation = .dismiss)
      (hd : ∀ y ∈ db'.applications, y.group = id → y.status ≠ 0) :
      GroupChange db db' S cmd id (some g) (some { g with dismissed := true })
  | send {g : GroupRow} {m : MemberRow} (h : Acting db cmd id g m) (hop : cmd.operation = .send) :
      GroupChange db db' S cmd id (some g) (some { g with lastSeq := g.lastSeq + 1 })
  | recount {g : GroupRow} {m : MemberRow} (h : Acting db cmd id g m)
      (hop : cmd.operation = .review ∨ cmd.operation = .leave ∨ cmd.operation = .kick) :
      GroupChange db db' S cmd id (some g) (some { g with memberCount := db'.activeCount id })

/-- The changes of an application. -/
inductive ApplicationChange (db : GroupDb) (S : Source) (cmd : Command) (id : ℕ) :
    Option ApplicationRow → Option ApplicationRow → Prop
  | keep {o : Option ApplicationRow} : ApplicationChange db S cmd id o o
  | apply {gid : ℕ} {g : GroupRow} (hop : cmd.operation = .apply)
      (hn : groupId cmd.groupID = .ok gid) (hg : db.group? gid = some g) (hd : g.dismissed = false)
      (hm : ∀ m, db.member? gid cmd.actor = some m → m.active = false)
      (hp : ∀ x ∈ db.applications, ¬ (x.group = gid ∧ x.account = cmd.actor ∧ x.status = 0))
      (hid : id = db.nextApplicationId) :
      ApplicationChange db S cmd id none (some ⟨id, gid, cmd.actor, cmd.text, 0, S.now⟩)
  | verdict {g : GroupRow} {m : MemberRow} {x : ApplicationRow} (h : Acting db cmd x.group g m)
      (hop : cmd.operation = .review) (hid : x.id = cmd.applicationID) (hs : x.status = 0) :
      ApplicationChange db S cmd id (some x)
        (some { x with status := if cmd.accept then 1 else 2 })
  | close {g : GroupRow} {m : MemberRow} {x : ApplicationRow} (h : Acting db cmd x.group g m)
      (hop : cmd.operation = .dismiss) (hs : x.status = 0) :
      ApplicationChange db S cmd id (some x) (some { x with status := 3 })

/-- Applications are numbered apart, below the counter. -/
structure Numbered (db : GroupDb) : Prop where
  ids : (db.applications.map ApplicationRow.id).Nodup
  below : ∀ x ∈ db.applications, x.id < db.nextApplicationId

section
variable {C : Collations} {W : Wire} {S : Source} {cmd : Command} {db db' : GroupDb}
  {reply : Reply} {id : ℕ} {a : Account}

/-- The row of an application. -/
theorem Numbered.application? (h : Numbered db) {x : ApplicationRow} (hx : x ∈ db.applications) :
    db.application? x.id = some x := by
  obtain ⟨y, hy⟩ : ∃ y, db.application? x.id = some y :=
    Option.isSome_iff_exists.1 (List.find?_isSome.2 ⟨x, hx, by simp⟩)
  have hid : y.id = x.id := by simpa using List.find?_some hy
  rw [hy, eq_of_key h.ids (List.mem_of_find?_eq_some hy) hx hid]

/-- The first member of a new group. -/
theorem member?_created (hm : ∀ m ∈ db.members, ¬ (m.group = S.snowflake ∧ m.account = cmd.actor)) :
    (created db S cmd).member? S.snowflake cmd.actor
      = some { group := S.snowflake, account := cmd.actor } := by
  have hfind : (created db S cmd).member? S.snowflake cmd.actor = (db.member? S.snowflake cmd.actor).or
      ([({ group := S.snowflake, account := cmd.actor } : MemberRow)].find?
        fun m => m.group = S.snowflake && m.account = cmd.actor) :=
    List.find?_append
  have hnone : db.member? S.snowflake cmd.actor = none := by
    refine List.find?_eq_none.2 fun m hmem => ?_
    simpa using hm m hmem
  rw [hfind, hnone]
  simp

/-- An update of a member changes no other row. -/
theorem MemberChange.update {id' : ℕ} {a' : Account} {f : MemberRow → MemberRow}
    (hf : ∀ m, (f m).group = m.group ∧ (f m).account = m.account)
    (h : ∀ m, db.member? id' a' = some m → MemberChange db db' cmd id' a' (some m) (some (f m))) :
    MemberChange db db' cmd id a (db.member? id a) ((db.updateMember id' a' f).member? id a) := by
  rw [member?_updateMember hf]
  split_ifs with hk
  · obtain ⟨rfl, rfl⟩ := hk
    cases hm : db.member? id a with
    | none => exact .keep
    | some m => exact h m hm
  · exact .keep

/-- An update of a group changes no other row. -/
theorem GroupChange.update {db₁ : GroupDb} {id' : ℕ} {g : GroupRow} {f : GroupRow → GroupRow}
    (hb : db₁.groups = db.groups) (hf : ∀ g, (f g).id = g.id) (hg : db.group? id' = some g)
    (h : GroupChange db db' S cmd id' (some g) (some (f g))) :
    GroupChange db db' S cmd id (db.group? id) ((db₁.updateGroup id' f).group? id) := by
  have hgroup : db₁.group? id = db.group? id := by
    unfold GroupDb.group?
    rw [hb]
  rw [group?_updateGroup hf, hgroup]
  split_ifs with hk
  · subst hk
    rw [hg]
    exact h
  · exact .keep

/-- **The row of an account in a group.** -/
theorem Effect.memberRow (h : Effect S cmd db reply db') (id : ℕ) (a : Account) :
    MemberChange db db' cmd id a (db.member? id a) (db'.member? id a) := by
  cases h with
  | same | pull | apply | reject | rename | dismiss | send => exact .keep
  | create hop hid _ _ hmem =>
    by_cases hk : S.snowflake = id ∧ cmd.actor = a
    · obtain ⟨rfl, rfl⟩ := hk
      rw [member?_created hmem]
      have hnone : db.member? S.snowflake cmd.actor = none := by
        refine List.find?_eq_none.2 fun m hm => ?_
        simpa using hmem m hm
      have hg : db.group? S.snowflake = none := by
        refine List.find?_eq_none.2 fun g hg => ?_
        simpa using hid g hg
      have hh : (S.snowflake, 0) ∈ (created db S cmd).heads :=
        List.mem_map_of_mem (f := fun g : GroupRow => (g.id, g.lastSeq))
          (List.mem_append_right db.groups (List.mem_singleton_self (newGroup S cmd)))
      rw [hnone]
      exact .found hop rfl hg hh
    · have hfind : (created db S cmd).member? id a = (db.member? id a).or
          ([({ group := S.snowflake, account := cmd.actor } : MemberRow)].find?
            fun m => m.group = id && m.account = a) :=
        List.find?_append
      have hnone : [({ group := S.snowflake, account := cmd.actor } : MemberRow)].find?
          (fun m => m.group = id && m.account = a) = none := by simpa using hk
      rw [hfind, hnone, Option.or_none]
      exact .keep
  | @accept id' g m x ha hop hx hid hg hs hc =>
    change MemberChange db _ cmd id a _ ((db.join id' x.account g.lastSeq).member? id a)
    by_cases hk : id = id' ∧ a = x.account
    · obtain ⟨rfl, rfl⟩ := hk
      have hh : (id, g.lastSeq) ∈ (accepted db id x g.lastSeq).heads := by
        rw [accepted, heads_setStatus, heads_recount]
        exact mem_heads ha.group
      have hd : ∀ y ∈ (accepted db id x g.lastSeq).applications, y.id = x.id → y.status = 1 := by
        intro y hy he
        obtain ⟨z, -, rfl⟩ := mem_updateWhere.1 hy
        split_ifs at he ⊢ with hz
        · rfl
        · exact absurd (by simpa using he) hz
      rw [member?_join_self]
      cases hm : db.member? id x.account with
      | none => exact .join ha hop hc hx hid hg rfl hs (fun _ h => by cases h) hh hd
      | some y =>
        by_cases hy : y.active = true
        · simp only [Option.map_some, Option.getD_some, rejoin_active hy]
          exact .keep
        · refine .join ha hop hc hx hid hg rfl hs ?_ hh hd
          intro z hz
          cases hz
          simpa using hy
    · rw [member?_join_other _ hk]
      exact .keep
  | @remove id' g m target ha hop ho =>
    exact MemberChange.update (fun m => ⟨rfl, rfl⟩) fun y _ => .leave ha hop ho
  | @ack id' g m ha hop hs =>
    refine MemberChange.update (fun m => ⟨rfl, rfl⟩) fun y hy => ?_
    obtain rfl : m = y := Option.some.inj (ha.member.symm.trans hy)
    exact .ack ha hop rfl hs
  | @read id' g m ha hop hs =>
    refine MemberChange.update (fun m => ⟨rfl, rfl⟩) fun y hy => ?_
    obtain rfl : m = y := Option.some.inj (ha.member.symm.trans hy)
    exact .read ha hop rfl hs

/-- **The row of a group.** -/
theorem Effect.groupRow (h : Effect S cmd db reply db') (id : ℕ) :
    GroupChange db db' S cmd id (db.group? id) (db'.group? id) := by
  cases h with
  | same | pull | apply | reject | ack | read => exact .keep
  | create hop hid _ _ hmem =>
    have hfind : (created db S cmd).group? id = (db.group? id).or
        ([newGroup S cmd].find? fun g => g.id = id) :=
      List.find?_append
    rw [hfind]
    by_cases hk : id = S.snowflake
    · subst hk
      have hg : db.group? S.snowflake = none := by
        refine List.find?_eq_none.2 fun g hg => ?_
        simpa using hid g hg
      rw [hg]
      simpa [newGroup] using GroupChange.found (S := S) hop rfl (member?_created hmem)
    · have hnone : [newGroup S cmd].find? (fun g => g.id = id) = none := by
        simpa [newGroup] using Ne.symm hk
      rw [hnone, Option.or_none]
      exact .keep
  | @accept id' g m x ha hop =>
    change GroupChange db _ S cmd id _ (((db.join id' x.account g.lastSeq).recount id').group? id)
    exact GroupChange.update rfl (fun _ => rfl) ha.group (.recount ha (Or.inl hop))
  | @rename id' g m ha hop =>
    exact GroupChange.update rfl (fun _ => rfl) ha.group (.rename ha hop)
  | @remove id' g m target ha hop =>
    exact GroupChange.update rfl (fun _ => rfl) ha.group (.recount ha (Or.inr (hop.imp And.left And.left)))
  | @dismiss id' g m ha hop =>
    change GroupChange db _ S cmd id _ ((db.updateGroup id' _).group? id)
    refine GroupChange.update rfl (fun _ => rfl) ha.group (.dismiss ha hop ?_)
    intro y hy he hs
    obtain ⟨z, -, rfl⟩ := mem_updateWhere.1 hy
    split_ifs at he hs with hz
    · simp [he, hs] at hz
  | @send id' g m nickname ha hop =>
    change GroupChange db _ S cmd id _ (({ db with messages := _ }.updateGroup id' _).group? id)
    exact GroupChange.update rfl (fun _ => rfl) ha.group (.send ha hop)

/-- A verdict on the application `x`. -/
theorem verdict_row (S : Source) (hk : Numbered db) {x : ApplicationRow} {g : GroupRow} {m : MemberRow}
    (ha : Acting db cmd x.group g m) (hop : cmd.operation = .review) (hx : x ∈ db.applications)
    (hid : x.id = cmd.applicationID) (hs : x.status = 0) (id : ℕ) :
    ApplicationChange db S cmd id (db.application? id)
      ((db.setStatus (fun y => y.id = x.id) (if cmd.accept then 1 else 2)).application? id) := by
  rw [application?_setStatus]
  cases hf : db.application? id with
  | none => exact .keep
  | some y =>
    have hy : y ∈ db.applications := List.mem_of_find?_eq_some hf
    rw [Option.map_some]
    by_cases he : y.id = x.id
    · obtain rfl := eq_of_key hk.ids hy hx he
      rw [if_pos (by simp)]
      exact .verdict ha hop hid hs
    · rw [if_neg (by simpa using he)]
      exact .keep

/-- **An application.** -/
theorem Effect.applicationRow (h : Effect S cmd db reply db') (hk : Numbered db) (id : ℕ) :
    ApplicationChange db S cmd id (db.application? id) (db'.application? id) := by
  cases h with
  | same | pull | create | rename | remove | send | ack | read => exact .keep
  | @apply gid g hop hn hg hd hm hp =>
    let new : ApplicationRow := ⟨db.nextApplicationId, gid, cmd.actor, cmd.text, 0, S.now⟩
    have hfind : (db.applications ++ [new]).find? (fun x => x.id = id)
        = (db.application? id).or ([new].find? fun x => x.id = id) :=
      List.find?_append
    change ApplicationChange db S cmd id _ ((db.applications ++ [new]).find? fun x => x.id = id)
    rw [hfind]
    by_cases hid : id = db.nextApplicationId
    · have hnone : db.application? id = none := by
        refine List.find?_eq_none.2 fun x hx => ?_
        have := hk.below x hx
        simp
        omega
      rw [hnone]
      subst hid
      simpa [new] using ApplicationChange.apply hop hn hg hd hm hp rfl
    · have hnone : [new].find? (fun x => x.id = id) = none := by simpa [new] using Ne.symm hid
      rw [hnone, Option.or_none]
      exact .keep
  | @accept gid g m x ha hop hx hid hg hs hc =>
    subst hg
    have := verdict_row S hk ha hop hx hid hs id
    rw [if_pos hc] at this
    exact this
  | @reject gid g m x ha hop hx hid hg hs hc =>
    subst hg
    have := verdict_row S hk ha hop hx hid hs id
    rw [if_neg (by simp [hc])] at this
    exact this
  | @dismiss gid g m ha hop =>
    change ApplicationChange db S cmd id _ ((db.setStatus _ 3).application? id)
    rw [application?_setStatus]
    cases hf : db.application? id with
    | none => exact .keep
    | some y =>
      rw [Option.map_some]
      split_ifs with hy
      · simp only [Bool.and_eq_true, decide_eq_true_eq] at hy
        obtain ⟨rfl, hs⟩ := hy
        exact .close ha hop hs
      · exact .keep

theorem numbered_setStatus {p : ApplicationRow → Bool} {status : ℕ} (hk : Numbered db) :
    Numbered (db.setStatus p status) := by
  constructor
  · rw [show (db.setStatus p status).applications.map ApplicationRow.id
      = db.applications.map ApplicationRow.id from map_updateWhere (by intro x; rfl) _]
    exact hk.ids
  · intro x hx
    obtain ⟨y, hy, rfl⟩ := mem_updateWhere.1 hx
    split_ifs <;> exact hk.below y hy

theorem Effect.numbered (h : Effect S cmd db reply db') (hk : Numbered db) : Numbered db' := by
  cases h with
  | same | pull | create | rename | remove | send | ack | read => exact ⟨hk.ids, hk.below⟩
  | apply =>
    constructor
    · refine nodup_append_one hk.ids fun x hx => ?_
      exact (hk.below x hx).ne
    · intro x hx
      change x.id < db.nextApplicationId + 1
      rcases List.mem_append.1 hx with hx | hx
      · have := hk.below x hx
        omega
      · rw [List.mem_singleton.1 hx]
        exact Nat.lt_succ_self _
  | accept => exact numbered_setStatus ⟨hk.ids, hk.below⟩
  | reject => exact numbered_setStatus hk
  | dismiss => exact numbered_setStatus ⟨hk.ids, hk.below⟩

/-! ## Steps -/

theorem step_numbered {x : Action} {es : List Event} (hk : Numbered db)
    (h : step C W db x = some (db', es)) : Numbered db' := by
  suffices hn : Numbered db'.tables from ⟨hn.ids, hn.below⟩
  rcases step_effect h with ht | ⟨cmd, S, lost, fuel, reply, -, he⟩
  · rw [ht]; exact ⟨hk.ids, hk.below⟩
  · exact he.numbered ⟨hk.ids, hk.below⟩

theorem numbered_trace (T : GroupTrace C W) {i : ℕ} (hi : i ≤ T.len) : Numbered (T.state i) :=
  T.invariant (P := Numbered) (by constructor <;> simp) (fun _ _ _ _ h hs => step_numbered h hs) hi

end

end ApeServer.Group
