/-
  What `perform` does.

  `Effect` lists the changes of the tables a command can make, with what was
  checked for each; everything about groups is derived from it.

  * `memberState_spec`: the actor's view is a function of the tables (`memberView`);
  * `perform_spec`: a successful `perform` answers `0` and has an effect.
-/
import ApeServer.Group.Perform

namespace ApeServer.Group

open Table Txn

/-- From `db`, wherever it fails, `m` ends only in `Q`. -/
abbrev Post {α : Type} (m : Stmt α) (Q : α → GroupDb → Prop) (db : GroupDb) : Prop :=
  wp m (fun a db' _ => Q a db') (fun _ _ => True) db ()

/-! ## The actor's view -/

/-- What `memberState` computes. -/
def memberView (db : GroupDb) (g : Info) (id : ℕ) (actor : Account) : Info :=
  let g := withNumber g (db.number? id)
  match db.member? id actor with
  | none => g
  | some m =>
    { g with
      joined := m.active && !g.dismissed
      joinSeq := m.joinSeq
      readSeq := m.readSeq
      epoch := m.epoch
      unread := if m.active && !g.dismissed then unreadCount db id (max m.joinSeq m.readSeq) actor
        else g.unread }

section
variable {C : Collations} {S : Source} {cmd : Command} {db : GroupDb} {id : ℕ}
  {actor : Account} {g : Info} {reply : Reply} {limit : ℕ} {nickname : String}

theorem memberState_spec {Q : Info → GroupDb → Prop} (h : Q (memberView db g id actor) db) :
    Post (memberState g id actor) Q db := by
  unfold memberState
  refine wp_query_bind trivial (wp_query_bind trivial ?_)
  unfold memberView at h
  generalize withNumber g (db.number? id) = g' at h ⊢
  cases hm : db.member? id actor with
  | none => rw [hm] at h; exact wp_pure h
  | some m =>
    rw [hm] at h
    dsimp only at h ⊢
    by_cases hj : (m.active && !g'.dismissed) = true
    · rw [if_pos hj]
      rw [if_pos hj] at h
      exact wp_query_bind trivial (wp_pure h)
    · rw [if_neg hj]
      rw [if_neg hj] at h
      exact wp_pure h

theorem memberState_bind {α : Type} {k : Info → Stmt α} {Q : α → GroupDb → Prop}
    (h : Post (k (memberView db g id actor)) Q db) : Post (memberState g id actor >>= k) Q db := by
  apply wp_bind
  exact memberState_spec (Q := fun b db' => Post (k b) Q db') h

theorem memberStates_spec (actor : Account) (rows : List GroupRow) :
    Post (memberStates actor rows)
      (fun gs db' => db' = db ∧ gs = rows.map fun r => memberView db (groupRow r) r.id actor) db := by
  induction rows with
  | nil => exact wp_pure ⟨rfl, rfl⟩
  | cons r rows ih =>
    refine memberState_bind (wp_bind (wp_mono ih ?_ fun _ _ h => h))
    rintro gs db' _ ⟨rfl, rfl⟩
    exact wp_pure ⟨rfl, rfl⟩

/-- What the view keeps of the group row. -/
theorem memberView_row (db : GroupDb) (g : Info) (id : ℕ) (actor : Account) :
    (memberView db g id actor).dismissed = g.dismissed ∧
    (memberView db g id actor).owner = g.owner ∧
    (memberView db g id actor).lastSeq = g.lastSeq ∧
    (memberView db g id actor).name = g.name ∧ (memberView db g id actor).id = g.id := by
  unfold memberView
  cases db.number? id <;> cases db.member? id actor <;> exact ⟨rfl, rfl, rfl, rfl, rfl⟩

/-- Who is in the group according to the view is an active member. -/
theorem memberView_joined {r : GroupRow} (h : (memberView db (groupRow r) id actor).joined = true) :
    ∃ m, db.member? id actor = some m ∧ m.active = true ∧
      (memberView db (groupRow r) id actor).joinSeq = m.joinSeq ∧
      (memberView db (groupRow r) id actor).epoch = m.epoch := by
  unfold memberView at h ⊢
  cases hm : db.member? id actor with
  | none =>
    rw [hm] at h
    cases hn : db.number? id <;> rw [hn] at h <;> cases h
  | some m =>
    rw [hm] at h
    simp only [Bool.and_eq_true] at h
    exact ⟨m, rfl, h.1, rfl, rfl⟩

/-- And who is not, is none, unless the group is dismissed. -/
theorem memberView_not_joined {r : GroupRow} (hd : r.dismissed = false)
    (h : (memberView db (groupRow r) id actor).joined = false) :
    ∀ m, db.member? id actor = some m → m.active = false := by
  intro m hm
  unfold memberView at h
  rw [hm] at h
  have hw : (withNumber (groupRow r) (db.number? id)).dismissed = false := by
    cases db.number? id <;> exact hd
  simpa [hw] using h

end

/-! ## Effects -/

/-- The actor is an active member of the group `id`, which is not dismissed,
    and passes the checks of the operation. -/
structure Acting (db : GroupDb) (cmd : Command) (id : ℕ) (g : GroupRow) (m : MemberRow) : Prop where
  number : groupId cmd.groupID = .ok id
  group : db.group? id = some g
  alive : g.dismissed = false
  member : db.member? id cmd.actor = some m
  active : m.active = true
  epoch : cmd.epoch = 0 ∨ cmd.epoch = m.epoch
  owner : cmd.operation.ownerOnly = true → g.owner = cmd.actor

/-- The group a `Create` makes. -/
def newGroup (S : Source) (cmd : Command) : GroupRow :=
  { id := S.snowflake, name := cmd.text, owner := cmd.actor }

/-- The tables after a `Create`. -/
def created (db : GroupDb) (S : Source) (cmd : Command) : GroupDb :=
  { db with
    groups := db.groups ++ [newGroup S cmd]
    numbers := db.numbers ++ [⟨S.snowflake, db.nextNumber⟩]
    nextNumber := db.nextNumber + 1
    members := db.members ++ [{ group := S.snowflake, account := cmd.actor }] }

/-- The message a `Send` appends. -/
def newMessage (S : Source) (cmd : Command) (nickname : String) (id : ℕ) (g : GroupRow) : MessageRow :=
  ⟨id, g.lastSeq + 1, S.uuid, cmd.clientID, cmd.actor, nickname, cmd.text, S.now⟩

/-- The tables after a `Send`. -/
def sent (db : GroupDb) (m : MessageRow) : GroupDb :=
  { db with messages := db.messages ++ [m] }.updateGroup m.group fun g => { g with lastSeq := m.seq }

/-- The tables after an application was accepted. -/
def accepted (db : GroupDb) (id : ℕ) (a : ApplicationRow) (lastSeq : ℕ) : GroupDb :=
  ((db.join id a.account lastSeq).recount id).setStatus (fun x => x.id = a.id) 1

/-- The rows of a `Pull`. -/
def pulled (db : GroupDb) (cmd : Command) (id lastSeq joinSeq : ℕ) : List MessageRow :=
  (orderLimit (·.seq) (max 1 (min cmd.limit 50) + 1) (db.messages.filter fun m =>
    m.group = id && max cmd.after joinSeq < m.seq &&
      m.seq ≤ if cmd.snapshot ≠ 0 then min cmd.snapshot lastSeq else lastSeq)).take
    (max 1 (min cmd.limit 50))

/-- What a successful `perform` can do: its reply and the tables it leaves. -/
inductive Effect (S : Source) (cmd : Command) (db : GroupDb) (reply : Reply) : GroupDb → Prop
  | same (hop : cmd.operation ≠ .pull) : Effect S cmd db reply db
  | pull {id : ℕ} {g : GroupRow} {m : MemberRow} (h : Acting db cmd id g m)
      (hop : cmd.operation = .pull)
      (hr : reply.messages = (pulled db cmd id g.lastSeq m.joinSeq).map messageRow) :
      Effect S cmd db reply db
  | create (hop : cmd.operation = .create) (hid : ∀ g ∈ db.groups, g.id ≠ S.snowflake)
      (hnum : ∀ n ∈ db.numbers, n.group ≠ S.snowflake ∧ n.number ≠ db.nextNumber)
      (hmax : db.nextNumber ≤ 9999999999)
      (hmem : ∀ m ∈ db.members, ¬ (m.group = S.snowflake ∧ m.account = cmd.actor)) :
      Effect S cmd db reply (created db S cmd)
  | apply {id : ℕ} {g : GroupRow} (hop : cmd.operation = .apply) (hn : groupId cmd.groupID = .ok id)
      (hg : db.group? id = some g) (hd : g.dismissed = false)
      (hm : ∀ m, db.member? id cmd.actor = some m → m.active = false)
      (hp : ∀ a ∈ db.applications, ¬ (a.group = id ∧ a.account = cmd.actor ∧ a.status = 0)) :
      Effect S cmd db reply { db with
        applications := db.applications ++ [⟨db.nextApplicationId, id, cmd.actor, cmd.text, 0, S.now⟩]
        nextApplicationId := db.nextApplicationId + 1 }
  | accept {id : ℕ} {g : GroupRow} {m : MemberRow} {a : ApplicationRow} (h : Acting db cmd id g m)
      (hop : cmd.operation = .review) (ha : a ∈ db.applications) (hid : a.id = cmd.applicationID)
      (hg : a.group = id) (hs : a.status = 0) (hc : cmd.accept = true) :
      Effect S cmd db reply (accepted db id a g.lastSeq)
  | reject {id : ℕ} {g : GroupRow} {m : MemberRow} {a : ApplicationRow} (h : Acting db cmd id g m)
      (hop : cmd.operation = .review) (ha : a ∈ db.applications) (hid : a.id = cmd.applicationID)
      (hg : a.group = id) (hs : a.status = 0) (hc : cmd.accept = false) :
      Effect S cmd db reply (db.setStatus (fun x => x.id = a.id) 2)
  | rename {id : ℕ} {g : GroupRow} {m : MemberRow} (h : Acting db cmd id g m)
      (hop : cmd.operation = .rename) :
      Effect S cmd db reply (db.updateGroup id fun g => { g with name := cmd.text })
  | remove {id : ℕ} {g : GroupRow} {m : MemberRow} {target : Account} (h : Acting db cmd id g m)
      (hop : (cmd.operation = .leave ∧ target = cmd.actor) ∨
        (cmd.operation = .kick ∧ target = cmd.target)) (ho : target ≠ g.owner) :
      Effect S cmd db reply
        ((db.updateMember id target fun m => { m with active := false }).recount id)
  | dismiss {id : ℕ} {g : GroupRow} {m : MemberRow} (h : Acting db cmd id g m)
      (hop : cmd.operation = .dismiss) :
      Effect S cmd db reply ((db.updateGroup id fun g => { g with dismissed := true }).setStatus
        (fun a => a.group = id && a.status = 0) 3)
  | send {id : ℕ} {g : GroupRow} {m : MemberRow} (nickname : String) (h : Acting db cmd id g m)
      (hop : cmd.operation = .send) (hr : reply.messages = [messageRow (newMessage S cmd nickname id g)]) :
      Effect S cmd db reply (sent db (newMessage S cmd nickname id g))
  | ack {id : ℕ} {g : GroupRow} {m : MemberRow} (h : Acting db cmd id g m)
      (hop : cmd.operation = .ack) (hs : cmd.after ≤ g.lastSeq) :
      Effect S cmd db reply (db.updateMember id cmd.actor fun x =>
        { x with ackSeq := max x.ackSeq (max cmd.after m.joinSeq) })
  | read {id : ℕ} {g : GroupRow} {m : MemberRow} (h : Acting db cmd id g m)
      (hop : cmd.operation = .read) (hs : cmd.after ≤ g.lastSeq) :
      Effect S cmd db reply (db.updateMember id cmd.actor fun x =>
        { x with readSeq := max x.readSeq (max cmd.after m.joinSeq) })

/-- The tables of the groups, without accounts and ledger. -/
def GroupDb.tables (db : GroupDb) : GroupDb := { db with users := [], requests := [], executed := [] }

theorem Acting.tables {db : GroupDb} {cmd : Command} {id : ℕ} {g : GroupRow} {m : MemberRow}
    (h : Acting db cmd id g m) : Acting db.tables cmd id g m :=
  ⟨h.number, h.group, h.alive, h.member, h.active, h.epoch, h.owner⟩

/-- An effect is one on the tables of the groups. -/
theorem Effect.tables {S : Source} {cmd : Command} {db db' : GroupDb} {reply : Reply}
    (h : Effect S cmd db reply db') : Effect S cmd db.tables reply db'.tables := by
  cases h with
  | same hop => exact .same hop
  | pull h hop hr => exact .pull h.tables hop hr
  | create hop hid hnum hmax hmem => exact .create hop hid hnum hmax hmem
  | apply hop hn hg hd hm hp => exact .apply hop hn hg hd hm hp
  | accept h hop ha hid hg hs hc => exact .accept h.tables hop ha hid hg hs hc
  | reject h hop ha hid hg hs hc => exact .reject h.tables hop ha hid hg hs hc
  | rename h hop => exact .rename h.tables hop
  | remove h hop ho => exact .remove h.tables hop ho
  | dismiss h hop => exact .dismiss h.tables hop
  | send nickname h hop hr => exact .send nickname h.tables hop hr
  | ack h hop hs => exact .ack h.tables hop hs
  | read h hop hs => exact .read h.tables hop hs

/-! ## The parts of `perform` -/

/-- The postcondition of `perform`. -/
def Done (S : Source) (cmd : Command) (db : GroupDb) (reply : Reply) (db' : GroupDb) : Prop :=
  reply.errorCode = "0" ∧ Effect S cmd db reply db'

section
variable {C : Collations} {S : Source} {cmd : Command} {db : GroupDb} {id : ℕ}
  {reply : Reply} {limit : ℕ} {nickname : String} {r : GroupRow} {m : MemberRow}

theorem update_bind {α : Type} {f : GroupDb → GroupDb} {k : Unit → Stmt α} {Q : α → GroupDb → Prop}
    (h : Post (k ()) Q (f db)) : Post (update f >>= k) Q db :=
  wp_exec_bind trivial h

theorem insert_bind {α : Type} {taken : GroupDb → Bool} {f : GroupDb → GroupDb} {k : Unit → Stmt α}
    {Q : α → GroupDb → Prop} (h : taken db = false → Post (k ()) Q (f db)) :
    Post (insert taken f >>= k) Q db := by
  refine wp_attempt_bind trivial trivial fun _ db' hdb => ?_
  split_ifs at hdb with ht
  cases hdb
  exact h (by simpa using ht)

theorem query_bind {α β : Type} {f : GroupDb → β} {k : β → Stmt α} {Q : α → GroupDb → Prop}
    (h : Post (k (f db)) Q db) : Post (query f >>= k) Q db :=
  wp_query_bind trivial h

theorem fail_post {α : Type} {e : GroupError} {Q : α → GroupDb → Prop} :
    Post (fail e : Stmt α) Q db :=
  wp_fail trivial

theorem bind_post {α β : Type} {x : Stmt β} {k : β → Stmt α} {Q : α → GroupDb → Prop}
    (h : Post x (fun b db' => Post (k b) Q db') db) : Post (x >>= k) Q db :=
  wp_bind h

theorem myApplications_spec (h₀ : reply.errorCode = "0") (hop : cmd.operation ≠ .pull) :
    Post (myApplications cmd nickname limit reply) (Done S cmd db) db :=
  query_bind (wp_pure ⟨h₀, .same hop⟩)

theorem listGroups_spec (h₀ : reply.errorCode = "0") (hop : cmd.operation ≠ .pull) :
    Post (listGroups cmd limit reply) (Done S cmd db) db := by
  refine query_bind (bind_post (wp_mono (memberStates_spec _ _) ?_ fun _ _ h => h))
  rintro gs db' _ ⟨rfl, -⟩
  exact wp_pure ⟨h₀, .same hop⟩

theorem allocateGroupNumber_spec {Q : ℕ → GroupDb → Prop}
    (h : db.nextNumber ≤ 9999999999 → (∀ n ∈ db.numbers, n.group ≠ id ∧ n.number ≠ db.nextNumber) →
      Q db.nextNumber { db with
        numbers := db.numbers ++ [⟨id, db.nextNumber⟩], nextNumber := db.nextNumber + 1 }) :
    Post (allocateGroupNumber id) Q db := by
  refine query_bind ?_
  split_ifs with hmax
  · exact fail_post
  · refine insert_bind fun hnum => update_bind (wp_pure (h (by omega) ?_))
    simpa [List.any_eq_false, not_or] using hnum

theorem createGroup_spec (h₀ : reply.errorCode = "0") (hop : cmd.operation = .create) :
    Post (createGroup S cmd reply) (Done S cmd db) db := by
  unfold createGroup
  split_ifs
  · exact fail_post
  refine insert_bind fun hid => bind_post (allocateGroupNumber_spec fun hmax hnum => ?_)
  refine insert_bind fun hmem => query_bind ?_
  have hdone : ∀ r : Reply, r.errorCode = "0" → Done S cmd db r (created db S cmd) := by
    intro r h
    refine ⟨h, .create hop ?_ hnum hmax ?_⟩
    · simpa [List.any_eq_false] using hid
    · simpa [List.any_eq_false] using hmem
  split
  · exact fail_post
  · exact memberState_bind (wp_pure (hdone _ h₀))

theorem applyToGroup_spec (h₀ : reply.errorCode = "0") (hop : cmd.operation = .apply)
    (hn : groupId cmd.groupID = .ok id) (hg : db.group? id = some r) (hd : r.dismissed = false)
    (hm : ∀ m, db.member? id cmd.actor = some m → m.active = false) :
    Post (applyToGroup S cmd id reply) (Done S cmd db) db := by
  refine query_bind ?_
  split_ifs with hp
  · exact wp_pure ⟨h₀, .same (by simp [hop])⟩
  · refine update_bind (wp_pure ⟨h₀, .apply hop hn hg hd hm fun a ha h => hp ?_⟩)
    exact List.any_eq_true.2 ⟨a, ha, by simp [h.1, h.2.1, h.2.2]⟩

theorem reviewApplication_spec {g : Info} (h₀ : reply.errorCode = "0") (hA : Acting db cmd id r m)
    (hop : cmd.operation = .review) (hl : g.lastSeq = r.lastSeq) :
    Post (reviewApplication cmd id g reply) (Done S cmd db) db := by
  refine query_bind ?_
  cases hf : db.applications.find? fun a => a.id = cmd.applicationID && a.group = id with
  | none => exact fail_post
  | some a =>
    have hp := List.find?_some hf
    simp only [Bool.and_eq_true, decide_eq_true_eq] at hp
    have ha := List.mem_of_find?_eq_some hf
    by_cases hs : a.status = 0
    · simp only [hs, ne_eq, not_true_eq_false, false_and, if_false]
      by_cases hc : cmd.accept = true
      · simp only [hc, if_true]
        refine update_bind (update_bind (update_bind (wp_pure ⟨h₀, ?_⟩)))
        rw [← hp.1, hl]
        exact .accept hA hop ha hp.1 hp.2 hs hc
      · simp only [hc]
        refine update_bind (wp_pure ⟨h₀, ?_⟩)
        rw [← hp.1]
        exact .reject hA hop ha hp.1 hp.2 hs (by simpa using hc)
    · by_cases h₁ : a.status ≠ 0 ∧ a.status ≠ if cmd.accept = true then 1 else 2
      · dsimp only
        rw [if_pos h₁]
        exact fail_post
      · dsimp only
        rw [if_neg h₁, if_pos hs]
        exact wp_pure ⟨h₀, .same (by simp [hop])⟩

theorem renameGroup_spec {g : Info} (h₀ : reply.errorCode = "0") (hA : Acting db cmd id r m)
    (hop : cmd.operation = .rename) : Post (renameGroup cmd id g reply) (Done S cmd db) db := by
  unfold renameGroup
  split_ifs
  · exact fail_post
  · exact fail_post
  · exact update_bind (wp_pure ⟨h₀, .rename hA hop⟩)

theorem removeMember_spec {g : Info} {target : Account} (h₀ : reply.errorCode = "0")
    (hA : Acting db cmd id r m) (hop : (cmd.operation = .leave ∧ target = cmd.actor) ∨
      (cmd.operation = .kick ∧ target = cmd.target)) (ho : g.owner = r.owner) :
    Post (removeMember target id g reply) (Done S cmd db) db := by
  unfold removeMember
  split_ifs with ht
  · exact fail_post
  · exact update_bind (update_bind (wp_pure ⟨h₀, .remove hA hop (ho ▸ ht)⟩))

theorem dismissGroup_spec (h₀ : reply.errorCode = "0") (hA : Acting db cmd id r m)
    (hop : cmd.operation = .dismiss) : Post (dismissGroup id reply) (Done S cmd db) db :=
  update_bind (update_bind (wp_pure ⟨h₀, .dismiss hA hop⟩))

theorem sendMessage_spec {g : Info} (h₀ : reply.errorCode = "0") (hA : Acting db cmd id r m)
    (hop : cmd.operation = .send) (hl : g.lastSeq = r.lastSeq) :
    Post (sendMessage C S cmd nickname id g reply) (Done S cmd db) db := by
  unfold sendMessage
  split_ifs
  · exact fail_post
  refine query_bind ?_
  split
  · next x _ =>
    by_cases ht : x.text ≠ cmd.text
    · rw [if_pos ht]; exact fail_post
    · rw [if_neg ht]; exact wp_pure ⟨h₀, .same (by simp [hop])⟩
  · refine insert_bind fun _ => update_bind (wp_pure ⟨h₀, ?_⟩)
    rw [hl]
    exact .send nickname hA hop rfl

theorem pullMessages_spec {g : Info} (h₀ : reply.errorCode = "0") (hA : Acting db cmd id r m)
    (hop : cmd.operation = .pull) (hl : g.lastSeq = r.lastSeq) (hj : g.joinSeq = m.joinSeq)
    (hlimit : limit = max 1 (min cmd.limit 50)) :
    Post (pullMessages cmd id g limit reply) (Done S cmd db) db := by
  refine query_bind (wp_pure ⟨h₀, .pull hA hop ?_⟩)
  dsimp only
  rw [hl, hj, hlimit]
  rfl

theorem advance_spec {g : Info} {f : ℕ → MemberRow → MemberRow} (h₀ : reply.errorCode = "0")
    (hj : g.joinSeq = m.joinSeq) (hl : g.lastSeq = r.lastSeq)
    (hf : cmd.after ≤ r.lastSeq → ∀ reply,
      Effect S cmd db reply (db.updateMember id cmd.actor (f (max cmd.after m.joinSeq)))) :
    Post (advance f cmd id g reply) (Done S cmd db) db := by
  unfold advance
  split_ifs with ha
  · exact fail_post
  · refine update_bind (wp_pure ⟨h₀, ?_⟩)
    rw [hj]
    exact hf (by omega) reply

/-- What the view of an active member says. -/
structure Viewed (r : GroupRow) (m : MemberRow) (g : Info) : Prop where
  lastSeq : g.lastSeq = r.lastSeq
  owner : g.owner = r.owner
  joinSeq : g.joinSeq = m.joinSeq

theorem memberCommand_spec {g : Info} (h₀ : reply.errorCode = "0") (hA : Acting db cmd id r m)
    (hv : Viewed r m g)
    (hlimit : limit = max 1 (min cmd.limit (if cmd.operation = .pull then 50 else 100))) :
    Post (memberCommand C S cmd nickname limit id g reply) (Done S cmd db) db := by
  unfold memberCommand
  cases hop : cmd.operation with
  | members => exact query_bind (wp_pure ⟨h₀, .same (by simp [hop])⟩)
  | applications => exact query_bind (wp_pure ⟨h₀, .same (by simp [hop])⟩)
  | review => exact reviewApplication_spec h₀ hA hop hv.lastSeq
  | rename => exact renameGroup_spec h₀ hA hop
  | leave => exact removeMember_spec h₀ hA (Or.inl ⟨hop, rfl⟩) hv.owner
  | kick => exact removeMember_spec h₀ hA (Or.inr ⟨hop, rfl⟩) hv.owner
  | dismiss => exact dismissGroup_spec h₀ hA hop
  | send => exact sendMessage_spec h₀ hA hop hv.lastSeq
  | pull =>
    rw [if_pos hop] at hlimit
    exact pullMessages_spec h₀ hA hop hv.lastSeq hv.joinSeq hlimit
  | ack => exact advance_spec h₀ hv.joinSeq hv.lastSeq fun hs _ => .ack hA hop hs
  | read => exact advance_spec h₀ hv.joinSeq hv.lastSeq fun hs _ => .read hA hop hs
  | list => exact wp_pure ⟨h₀, .same (by simp [hop])⟩
  | create => exact wp_pure ⟨h₀, .same (by simp [hop])⟩
  | search => exact wp_pure ⟨h₀, .same (by simp [hop])⟩
  | apply => exact wp_pure ⟨h₀, .same (by simp [hop])⟩
  | myApplications => exact wp_pure ⟨h₀, .same (by simp [hop])⟩
  | unrecognized n => exact wp_pure ⟨h₀, .same (by simp [hop])⟩

theorem lockedCommand_spec (h₀ : reply.errorCode = "0")
    (hlimit : limit = max 1 (min cmd.limit (if cmd.operation = .pull then 50 else 100)))
    (hg : db.group? id = some r) (hn : cmd.operation ≠ .search → groupId cmd.groupID = .ok id) :
    Post (lockedCommand C S cmd nickname limit id (memberView db (groupRow r) id cmd.actor) reply)
      (Done S cmd db) db := by
  obtain ⟨hd, ho, hl, -⟩ := memberView_row db (groupRow r) id cmd.actor
  unfold lockedCommand
  by_cases hsearch : cmd.operation = .search
  · rw [if_pos hsearch]
    exact wp_pure ⟨h₀, .same (by simp [hsearch])⟩
  rw [if_neg hsearch]
  by_cases hdis : (memberView db (groupRow r) id cmd.actor).dismissed = true
  · rw [if_pos hdis]
    split_ifs with hop
    · exact wp_pure ⟨h₀, .same (by simp [hop.1])⟩
    · exact fail_post
  rw [if_neg hdis]
  have halive : r.dismissed = false := by rw [hd] at hdis; simpa [groupRow] using hdis
  by_cases happly : cmd.operation = .apply
  · rw [if_pos happly]
    split_ifs with hj
    · exact fail_post
    · exact applyToGroup_spec h₀ happly (hn hsearch) hg halive
        (memberView_not_joined halive (by simpa using hj))
  rw [if_neg happly]
  by_cases hj : (memberView db (groupRow r) id cmd.actor).joined = true
  · obtain ⟨m, hm, ha, hjs, hep⟩ := memberView_joined hj
    rw [if_neg (by simp [hj])]
    split_ifs with he hown
    · exact fail_post
    · exact fail_post
    · refine memberCommand_spec h₀ ⟨hn hsearch, hg, halive, hm, ha, ?_, ?_⟩ ⟨hl, ho, hjs⟩ hlimit
      · rw [hep] at he
        exact or_iff_not_imp_left.2 fun h0 => not_not.1 fun h1 => he ⟨h0, h1⟩
      · intro hop
        rw [ho] at hown
        exact not_not.1 fun h1 => hown ⟨hop, h1⟩
  · rw [if_pos (by simpa using hj)]
    split_ifs with hop
    · exact wp_pure ⟨h₀, .same (by simp [hop])⟩
    · exact fail_post

theorem searchId_spec {number : ℕ} : Post (searchId cmd number) (fun _ db' => db' = db) db := by
  refine query_bind ?_
  split
  · exact wp_pure rfl
  · split_ifs
    · exact fail_post
    · exact wp_pure rfl

theorem groupCommand_spec (h₀ : reply.errorCode = "0")
    (hlimit : limit = max 1 (min cmd.limit (if cmd.operation = .pull then 50 else 100))) :
    Post (groupCommand C S cmd nickname limit reply) (Done S cmd db) db := by
  unfold groupCommand
  cases hid : groupId cmd.groupID with
  | error e => exact fail_post
  | ok number =>
    have hrest : ∀ id, (cmd.operation ≠ .search → groupId cmd.groupID = .ok id) →
        Post (query (·.group? id) >>= foundGroup C S cmd nickname limit id reply)
          (Done S cmd db) db := by
      intro id hn
      refine query_bind ?_
      cases hg : db.group? id with
      | none => exact fail_post
      | some r => exact memberState_bind (lockedCommand_spec h₀ hlimit hg hn)
    by_cases hs : cmd.operation = .search
    · simp only [if_pos hs]
      refine bind_post (wp_mono searchId_spec ?_ fun _ _ h => h)
      rintro id db' _ rfl
      exact hrest id fun h => absurd hs h
    · simp only [if_neg hs]
      exact bind_post (wp_pure (hrest number fun _ => hid))

/-- Past its checks `perform` chooses the operation, with the name of the actor. -/
theorem perform_post {Q : Reply → GroupDb → Prop}
    (h : ∀ u, db.user? cmd.actor = some u → Post (match cmd.operation with
      | .myApplications =>
        myApplications cmd u.nickname (max 1 (min cmd.limit (if cmd.operation = .pull then 50 else 100)))
          { errorCode := "0", groupID := cmd.groupID }
      | .list =>
        listGroups cmd (max 1 (min cmd.limit (if cmd.operation = .pull then 50 else 100)))
          { errorCode := "0", groupID := cmd.groupID }
      | .create => createGroup S cmd { errorCode := "0", groupID := cmd.groupID }
      | _ =>
        groupCommand C S cmd u.nickname (max 1 (min cmd.limit (if cmd.operation = .pull then 50 else 100)))
          { errorCode := "0", groupID := cmd.groupID }) Q db) :
    Post (perform C S cmd) Q db := by
  unfold perform
  dsimp only
  by_cases h₁ : cmd.actor = 0 ∨ (!cmd.operation.recognized) = true
  · rw [if_pos h₁]; exact fail_post
  rw [if_neg h₁]
  by_cases h₂ : (if cmd.operation = .send then 65536 else 512) < cmd.text.utf8ByteSize
  · rw [if_pos h₂]; exact fail_post
  rw [if_neg h₂]
  refine query_bind ?_
  cases hu : db.user? cmd.actor with
  | none => exact fail_post
  | some u => exact h u hu

/-- **What `perform` does.** -/
theorem perform_spec : Post (perform C S cmd) (Done S cmd db) db := by
  refine perform_post fun u _ => ?_
  split
  · next hop => exact myApplications_spec rfl (by simp [hop])
  · next hop => exact listGroups_spec rfl (by simp [hop])
  · next hop => exact createGroup_spec rfl hop
  · exact groupCommand_spec rfl rfl

/-- A read of a group passes the checks with one statement. -/
theorem executeOnPool_read {W : Wire} {u : UserRow} (hop : cmd.operation = .pull ∨ cmd.operation = .search)
    (hactor : cmd.actor ≠ 0) (htext : cmd.text.utf8ByteSize ≤ 512) (hu : db.user? cmd.actor = some u) (n : ℕ) :
    executeOnPool C W S cmd db ⟨(), n + 1⟩ =
      groupCommand C S cmd u.nickname (max 1 (min cmd.limit (if cmd.operation = .pull then 50 else 100)))
        { errorCode := "0", groupID := cmd.groupID } db ⟨(), n⟩ := by
  unfold executeOnPool perform
  rcases hop with hop | hop
  all_goals
    rw [if_pos (by simp [hop, Operation.mutation])]
    simp only [hop]
    rw [if_neg (by simp [hactor, Operation.recognized]), if_neg (by simpa using htext),
      run_bind (query_run _ db _), hu]

end

end ApeServer.Group
