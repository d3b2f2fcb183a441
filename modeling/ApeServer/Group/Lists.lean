/-
  The lists of group chat, page by page.

  `List`, `Members`, `Applications` and `MyApplications` share one scheme: the
  rows a query selects, in the order of a key, after the cursor of the command
  and up to a limit.  A `Listing` is what they differ in.

  * `Listing.Sound`: what the operation answers, and that keys are distinct;
  * `Follows`: a client follows the cursor while the service goes on;
  * `Follows.stable`: its pages ascend, and miss no row that stays.
-/
import ApeServer.Group.RequestIds
import ApeServer.Lib.Paging

namespace ApeServer.Group

open Table Txn Paging

/-- What one of the list operations selects, and how it shows it. -/
structure Listing (ρ τ : Type) where
  operation : Operation
  /-- the rows that pass the filter of the query -/
  select : GroupDb → Command → List ρ
  key : ρ → ℕ
  entry : GroupDb → Command → ρ → τ
  entries : Reply → List τ

/-- The group that a command names. -/
def Command.group (cmd : Command) : ℕ :=
  match groupId cmd.groupID with
  | .ok id => id
  | .error _ => 0

namespace Listing

/-- `List`: the groups with a member row of the actor. -/
def list : Listing GroupRow Info where
  operation := .list
  select db cmd := db.groups.filter fun g => db.members.any fun m => m.group = g.id && m.account = cmd.actor
  key := (·.id)
  entry db cmd g := memberView db (groupRow g) g.id cmd.actor
  entries := Reply.groups

/-- `Members`: the active members of the group, with their names. -/
def members : Listing (Account × String) Member where
  operation := .members
  select db cmd := (db.members.filter fun m => m.group = cmd.group && m.active).filterMap
    fun m => (db.user? m.account).map fun u => (m.account, u.nickname)
  key := (·.1.toNat)
  entry db cmd r := ⟨r.1, r.2, (db.group? cmd.group).map GroupRow.owner = some r.1⟩
  entries := Reply.members

/-- `Applications`: the pending ones of the group, with the names of the
    applicants. -/
def applications : Listing (ApplicationRow × String) Application where
  operation := .applications
  select db cmd := (db.applications.filter fun a => a.group = cmd.group && a.status = 0).filterMap
    fun a => (db.user? a.account).map fun u => (a, u.nickname)
  key := (·.1.id)
  entry _ cmd r :=
    { id := r.1.id, groupID := Nat.repr cmd.group, account := r.1.account, nickname := r.2,
      reason := r.1.reason, status := r.1.status, time := r.1.time }
  entries := Reply.applications

/-- `MyApplications`: those of the actor, with group and number. -/
def myApplications : Listing (ApplicationRow × GroupRow × NumberRow) Application where
  operation := .myApplications
  select db cmd := (db.applications.filter fun a => a.account = cmd.actor).filterMap fun a =>
    match db.group? a.group, db.number? a.group with
    | some g, some n => some (a, g, n)
    | _, _ => none
  key := (·.1.id)
  entry db cmd r :=
    { id := r.1.id, groupID := Nat.repr r.1.group, groupName := r.2.1.name,
      groupNumber := Nat.repr r.2.2.number, account := cmd.actor,
      nickname := ((db.user? cmd.actor).map UserRow.nickname).getD "", reason := r.1.reason,
      status := r.1.status, time := r.1.time }
  entries := Reply.applications

end Listing

/-- The limit of a list. -/
def Command.listLimit (cmd : Command) : ℕ := max 1 (min cmd.limit 100)

section
variable {ρ τ : Type} {C : Collations} {W : Wire} {S : Source} {cmd : Command} {db : GroupDb}
  {reply : Reply}

/-- The rows that the query returns: one more than the page shows. -/
def Listing.fetch (L : Listing ρ τ) (db : GroupDb) (cmd : Command) : List ρ :=
  orderLimit L.key (cmd.listLimit + 1) ((L.select db cmd).filter fun r => cmd.after < L.key r)

/-- The reply is a page of the list. -/
structure Listing.Shows (L : Listing ρ τ) (db : GroupDb) (cmd : Command) (reply : Reply) : Prop where
  hasMore : reply.hasMore = decide (cmd.listLimit < (L.fetch db cmd).length)
  entries : L.entries reply = ((L.fetch db cmd).take cmd.listLimit).map (L.entry db cmd)
  cursor : reply.cursor = pageCursor L.key 0 ((L.fetch db cmd).take cmd.listLimit)

/-- What is needed of a list operation. -/
structure Listing.Sound (L : Listing ρ τ) : Prop where
  read : L.operation.mutation = false
  shows : ∀ C S cmd db, cmd.operation = L.operation →
    Post (perform C S cmd) (fun reply _ => L.Shows db cmd reply) db
  keys : ∀ db cmd, Sequenced db → Members db → Numbered db → ((L.select db cmd).map L.key).Nodup

/-! ## The operations -/

/-- A list operation passes the checks of `perform` with the name of its actor. -/
theorem list_post {Q : Reply → GroupDb → Prop} (hop : cmd.operation ≠ .pull)
    (h : ∀ u, db.user? cmd.actor = some u → Post (match cmd.operation with
      | .myApplications =>
        myApplications cmd u.nickname cmd.listLimit { errorCode := "0", groupID := cmd.groupID }
      | .list => listGroups cmd cmd.listLimit { errorCode := "0", groupID := cmd.groupID }
      | .create => createGroup S cmd { errorCode := "0", groupID := cmd.groupID }
      | _ => groupCommand C S cmd u.nickname cmd.listLimit
          { errorCode := "0", groupID := cmd.groupID }) Q db) :
    Post (perform C S cmd) Q db := by
  refine perform_post fun u hu => ?_
  rw [if_neg hop]
  exact h u hu

theorem shows_of_fetch {L : Listing ρ τ} {rows : List ρ} (hf : L.fetch db cmd = rows)
    (hm : reply.hasMore = decide (cmd.listLimit < rows.length))
    (he : L.entries reply = (rows.take cmd.listLimit).map (L.entry db cmd))
    (hc : reply.cursor = pageCursor L.key 0 (rows.take cmd.listLimit)) : L.Shows db cmd reply := by
  subst hf
  exact ⟨hm, he, hc⟩

theorem list_shows (hop : cmd.operation = .list) :
    Post (perform C S cmd) (fun reply _ => Listing.list.Shows db cmd reply) db := by
  refine list_post (by simp [hop]) fun u _ => ?_
  simp only [hop]
  refine query_bind (bind_post (wp_mono (memberStates_spec _ _) ?_ fun _ _ h => h))
  rintro gs db' _ ⟨rfl, rfl⟩
  refine wp_pure (shows_of_fetch ?_ rfl rfl rfl)
  rw [Listing.fetch, Listing.list, List.filter_filter]

theorem myApplications_shows (hop : cmd.operation = .myApplications) :
    Post (perform C S cmd) (fun reply _ => Listing.myApplications.Shows db cmd reply) db := by
  refine list_post (by simp [hop]) fun u hu => ?_
  simp only [hop]
  refine query_bind (wp_pure (shows_of_fetch ?_ rfl ?_ rfl))
  · refine congrArg (orderLimit _ _) (filter_join (fun a b hb => ?_) _ (cmd.after < ·) _)
    split at hb
    · cases hb; rfl
    · cases hb
  · refine List.map_congr_left fun r _ => ?_
    simp only [Listing.myApplications, hu]
    rfl

theorem lockedCommand_post {Q : Reply → GroupDb → Prop} {nickname : String} {limit id : ℕ} {g : Info}
    (hop : cmd.operation = .members ∨ cmd.operation = .applications)
    (h : Post (memberCommand C S cmd nickname limit id g reply) Q db) :
    Post (lockedCommand C S cmd nickname limit id g reply) Q db := by
  unfold lockedCommand
  rcases hop with hop | hop <;> simp only [hop, reduceCtorEq, if_false, false_and]
  all_goals
    split_ifs
    all_goals first | exact fail_post | exact h

/-- The operations on a group the actor is in reach their query. -/
theorem member_post {Q : Reply → GroupDb → Prop}
    (hop : cmd.operation = .members ∨ cmd.operation = .applications)
    (h : ∀ r nickname reply, db.group? cmd.group = some r → reply.errorCode = "0" →
      Post (memberCommand C S cmd nickname cmd.listLimit cmd.group
        (memberView db (groupRow r) cmd.group cmd.actor) reply) Q db) :
    Post (perform C S cmd) Q db := by
  refine list_post (by rcases hop with hop | hop <;> simp [hop]) fun u _ => ?_
  have hgroup : Post (groupCommand C S cmd u.nickname cmd.listLimit
      { errorCode := "0", groupID := cmd.groupID }) Q db := by
    unfold groupCommand
    cases hid : groupId cmd.groupID with
    | error e => exact fail_post
    | ok id =>
      have hgr : cmd.group = id := by rw [Command.group, hid]
      subst hgr
      have hs : cmd.operation ≠ .search := by rcases hop with hop | hop <;> simp [hop]
      simp only [if_neg hs]
      refine bind_post (wp_pure (query_bind ?_))
      cases hg : db.group? cmd.group with
      | none => exact fail_post
      | some r => exact memberState_bind (lockedCommand_post hop (h r _ _ hg rfl))
  rcases hop with hop | hop <;> simpa only [hop] using hgroup

theorem members_shows (hop : cmd.operation = .members) :
    Post (perform C S cmd) (fun reply _ => Listing.members.Shows db cmd reply) db := by
  refine member_post (Or.inl hop) fun r nickname reply hg h₀ => ?_
  unfold memberCommand
  simp only [hop]
  refine query_bind (wp_pure (shows_of_fetch ?_ rfl ?_ rfl))
  · refine congrArg (orderLimit _ _) (filter_join (fun a b hb => ?_) _ (cmd.after < ·) _)
    obtain ⟨u, -, rfl⟩ := Option.map_eq_some_iff.1 hb
    rfl
  · refine List.map_congr_left fun x _ => ?_
    simp only [Listing.members, hg, (memberView_row db (groupRow r) cmd.group cmd.actor).2.1,
      Option.map_some, Option.some.injEq, Member.mk.injEq, true_and, decide_eq_decide]
    exact eq_comm

theorem applications_shows (hop : cmd.operation = .applications) :
    Post (perform C S cmd) (fun reply _ => Listing.applications.Shows db cmd reply) db := by
  refine member_post (Or.inr hop) fun r nickname reply hg h₀ => ?_
  unfold memberCommand
  simp only [hop]
  refine query_bind (wp_pure (shows_of_fetch ?_ rfl ?_ rfl))
  · have hfilter : (db.applications.filter fun a =>
        a.group = cmd.group && cmd.after < a.id && a.status = 0)
        = db.applications.filter fun a => (a.group = cmd.group && a.status = 0) && cmd.after < a.id := by
      refine List.filter_congr fun a _ => ?_
      rw [Bool.and_assoc, Bool.and_comm (decide (cmd.after < a.id)), ← Bool.and_assoc]
    rw [hfilter]
    refine congrArg (orderLimit _ _) (filter_join (fun a b hb => ?_) _ (cmd.after < ·) _)
    obtain ⟨u, -, rfl⟩ := Option.map_eq_some_iff.1 hb
    rfl
  · have hid : r.id = cmd.group := by simpa using List.find?_some hg
    have hview : (memberView db (groupRow r) cmd.group cmd.actor).id = Nat.repr cmd.group := by
      rw [(memberView_row db (groupRow r) cmd.group cmd.actor).2.2.2.2, groupRow, hid]
    refine List.map_congr_left fun x _ => ?_
    simp only [Listing.applications, hview]

theorem list_sound : Listing.list.Sound where
  read := rfl
  shows _ _ _ _ hop := list_shows hop
  keys db cmd hs _ _ := by
    have hk : (db.groups.map GroupRow.id).Nodup := by
      have := hs.keys
      rwa [GroupDb.heads, List.map_map] at this
    exact nodup_filter hk _

theorem members_sound : Listing.members.Sound where
  read := rfl
  shows _ _ _ _ hop := members_shows hop
  keys db cmd _ hm _ := by
    refine nodup_join (k := fun m : MemberRow => m.account.toNat) (fun m r hr => ?_) ?_
    · obtain ⟨u, -, rfl⟩ := Option.map_eq_some_iff.1 hr
      rfl
    · have hk := List.pairwise_map.1 hm.keys
      refine List.pairwise_map.2 ((hk.filter _).imp_of_mem fun hx hy hne he => hne ?_)
      have hgx := (List.mem_filter.1 hx).2
      have hgy := (List.mem_filter.1 hy).2
      simp only [Bool.and_eq_true, decide_eq_true_eq] at hgx hgy
      exact Prod.ext (hgx.1.trans hgy.1.symm) (UInt64.toNat_inj.1 he)

theorem applications_sound : Listing.applications.Sound where
  read := rfl
  shows _ _ _ _ hop := applications_shows hop
  keys db cmd _ _ hn := by
    refine nodup_join (k := ApplicationRow.id) (fun a r hr => ?_) (nodup_filter hn.ids _)
    obtain ⟨u, -, rfl⟩ := Option.map_eq_some_iff.1 hr
    rfl

theorem myApplications_sound : Listing.myApplications.Sound where
  read := rfl
  shows _ _ _ _ hop := myApplications_shows hop
  keys db cmd _ _ hn := by
    refine nodup_join (k := ApplicationRow.id) (fun a r hr => ?_) (nodup_filter hn.ids _)
    split at hr
    · cases hr; rfl
    · cases hr

/-! ## Following the cursor -/

variable {L : Listing ρ τ} {k : ℕ}

/-- A client reads the pages `0, …, k` of a list: page `j` at the step `pos j` of
    the run, with any limit, from the cursor of the page before, after which
    there was more. -/
structure Follows (T : GroupTrace C W) (L : Listing ρ τ) (k : ℕ) where
  pos : ℕ → ℕ
  request : ℕ → Command
  reply : ℕ → Reply
  order : ∀ j < k, pos j < pos (j + 1)
  within : ∀ j ≤ k, pos j < T.len
  reads : ∀ j ≤ k, ∃ S lost fuel, T.act (pos j) = .execute (request j) S lost fuel
  out : ∀ j ≤ k, T.out (pos j) = [.replied (request j) (reply j)]
  /-- the replies are pages, and no errors -/
  ok : ∀ j ≤ k, (reply j).errorCode = "0"
  operation : (request 0).operation = L.operation
  more : ∀ j < k, (reply j).hasMore = true
  follow : ∀ j < k, ∃ limit,
    request (j + 1) = { request j with after := (reply j).cursor, limit := limit }

/-- The pages show rows that passed the filter when they were read, in strictly
    ascending order of keys; and once there is no more, every key after the
    first cursor that passed the filter at all of them. -/
def Follows.Stable {T : GroupTrace C W} (F : Follows T L k) : Prop :=
  ∃ pages : ℕ → List ρ,
    (∀ j ≤ k, L.entries (F.reply j) = (pages j).map (L.entry (T.state (F.pos j)) (F.request j)) ∧
      ∀ r ∈ pages j, r ∈ L.select (T.state (F.pos j)) (F.request j)) ∧
    Ascending L.key ((List.range (k + 1)).flatMap pages) ∧
    ((F.reply k).hasMore = false → ∀ x, (F.request 0).after < x →
      (∀ j ≤ k, ∃ r ∈ L.select (T.state (F.pos j)) (F.request j), L.key r = x) →
      ∃ r ∈ (List.range (k + 1)).flatMap pages, L.key r = x)

/-- A page that is no error shows the list. -/
theorem page_shows (hL : L.Sound) (hop : cmd.operation = L.operation) {lost : Bool} {fuel : ℕ}
    {db' : GroupDb} (hs : step C W db (.execute cmd S lost fuel) = some (db', [.replied cmd reply]))
    (hok : reply.errorCode = "0") : L.Shows db cmd reply := by
  have hread : cmd.operation.mutation = false := hop ▸ hL.read
  have hsend : cmd.operation ≠ .send := fun h => by rw [h] at hread; cases hread
  have hwp : wp (executeOnPool C W S cmd) (fun reply _ _ => L.Shows db cmd reply)
      (fun f _ => ∀ err, f = .error err → NoConflict err) db () := by
    unfold executeOnPool
    rw [if_pos (by simp [hread])]
    refine wp_mono (wp_and (hL.shows C S cmd db hop) (perform_unused fun h => absurd h hsend)) ?_ ?_
    · exact fun _ _ _ h => h.1
    · exact fun _ _ h => h.2
  simp only [step, Option.some.injEq, Prod.mk.injEq, List.cons.injEq, Event.replied.injEq, and_true,
    true_and] at hs
  obtain ⟨-, rfl⟩ := hs
  cases hr : (transaction (executeOnPool C W S cmd) lost db () fuel).1 with
  | ok reply =>
    rcases transaction_cases hwp lost fuel with ⟨_, _, _, he, h⟩ | ⟨_, _, he, -⟩ | ⟨-, _, _, _, he, -⟩
    · rw [he] at hr
      cases hr
      exact h
    · rw [he] at hr; cases hr
    · rw [he] at hr; cases hr
  | error f =>
    rw [hr] at hok
    obtain ⟨_, hf⟩ := transaction_throws hwp (fun _ _ he => by cases he) hr
    cases f with
    | fault => exact absurd hok (by decide)
    | error e => exact absurd hok (hf e rfl).2

theorem fetch_eq (L : Listing ρ τ) (db : GroupDb) (cmd : Command) :
    L.fetch db cmd = (beyond L.key cmd.after
      ((L.select db cmd).insertionSort fun r r' => L.key r ≤ L.key r')).take (cmd.listLimit + 1) := by
  rw [Listing.fetch, orderLimit, beyond, filter_insertionSort]

namespace Follows
variable {T : GroupTrace C W} (F : Follows T L k)

theorem operation_eq {j : ℕ} (hj : j ≤ k) : (F.request j).operation = L.operation := by
  induction j with
  | zero => exact F.operation
  | succ j ih =>
    obtain ⟨limit, hf⟩ := F.follow j hj
    rw [hf]
    exact ih (by omega)

theorem shows (hL : L.Sound) {j : ℕ} (hj : j ≤ k) :
    L.Shows (T.state (F.pos j)) (F.request j) (F.reply j) := by
  obtain ⟨S, lost, fuel, hact⟩ := F.reads j hj
  have hs := T.next (F.pos j) (F.within j hj)
  rw [hact, F.out j hj] at hs
  exact page_shows hL (F.operation_eq hj) hs (F.ok j hj)

/-- Where there is more, the query returned more than the limit. -/
theorem length_fetch (hL : L.Sound) {j : ℕ} (hj : j < k) :
    (F.request j).listLimit < (beyond L.key (F.request j).after ((L.select (T.state (F.pos j))
      (F.request j)).insertionSort fun r r' => L.key r ≤ L.key r')).length := by
  have hm := (F.shows hL hj.le).hasMore
  rw [F.more j hj, fetch_eq, List.length_take] at hm
  have := of_decide_eq_true hm.symm
  omega

/-- The pages are those of a table that changes. -/
def walk (hL : L.Sound) : Walk L.key k where
  rows j := (L.select (T.state (F.pos j)) (F.request j)).insertionSort fun r r' => L.key r ≤ L.key r'
  limit j := (F.request j).listLimit
  after j := (F.request j).after
  ascending j hj := ascending_insertionSort (hL.keys _ _ (sequenced_trace T (F.within j hj).le)
    (members_trace T (F.within j hj).le) (numbered_trace T (F.within j hj).le))
  more _ hj := F.length_fetch hL hj
  follow j hj := by
    obtain ⟨limit, hf⟩ := F.follow j hj
    have hs := F.shows hL hj.le
    rw [hf]
    dsimp only
    rw [hs.cursor, fetch_eq, List.take_take, min_eq_left (Nat.le_succ _)]
    refine cursor_start (List.ne_nil_of_length_pos ?_) _ _
    have := F.length_fetch hL hj
    have : 1 ≤ (F.request j).listLimit := le_max_left _ _
    rw [List.length_take]
    omega

/-- **Lists are stable** under any steps between the pages. -/
theorem stable (hL : L.Sound) : F.Stable := by
  refine ⟨(F.walk hL).page, fun j hj => ⟨?_, fun r hr => ?_⟩, (F.walk hL).ascending_shown le_rfl, ?_⟩
  · have hs := F.shows hL hj
    rw [hs.entries, fetch_eq, List.take_take, min_eq_left (Nat.le_succ _)]
    rfl
  · exact (List.mem_insertionSort _).1 ((F.walk hL).mem_page hr).1
  · intro hlast x h₀ hx
    refine (F.walk hL).complete ?_ h₀ fun j hj => ?_
    · have hm := (F.shows hL le_rfl).hasMore
      rw [hlast, fetch_eq, List.length_take] at hm
      have := of_decide_eq_false hm.symm
      change (beyond L.key (F.request k).after ((L.select (T.state (F.pos k))
        (F.request k)).insertionSort fun r r' => L.key r ≤ L.key r')).length ≤ (F.request k).listLimit
      omega
    · obtain ⟨r, hr, hk⟩ := hx j hj
      exact ⟨r, (List.mem_insertionSort _).2 hr, hk⟩

end Follows

end

/-! ### Two pages of groups -/

/-- Account 1 makes two groups and reads a page of one; then it makes a third and
    reads the next page. -/
def listActions : List Action :=
  [.register ⟨1, "A"⟩,
    .execute { operation := .create, actor := 1, text := "g", clientID := "1" } ⟨7, "u", 0⟩ false 20,
    .execute { operation := .create, actor := 1, text := "h", clientID := "2" } ⟨8, "v", 1⟩ false 20,
    .execute { operation := .list, actor := 1, limit := 1 } ⟨0, "", 0⟩ false 20,
    .execute { operation := .create, actor := 1, text := "k", clientID := "3" } ⟨9, "w", 2⟩ false 20,
    .execute { operation := .list, actor := 1, after := 7, limit := 5 } ⟨0, "", 0⟩ false 20]

noncomputable def listRun : GroupTrace bytewise Wire.unary :=
  Machine.Trace.ofActions _ _ (fun i => listActions.getD i (.deliver 0 "")) 6 (by decide +kernel)

/-- What a step that replied has replied. -/
def repliedWith : List Event → Reply
  | [.replied _ r] => r
  | _ => {}

noncomputable def groupPages : Follows listRun .list 1 where
  pos j := if j = 0 then 3 else 5
  request j := { operation := .list, actor := 1, after := if j = 0 then 0 else 7, limit := if j = 0 then 1 else 5 }
  reply j := repliedWith (listRun.out (if j = 0 then 3 else 5))
  order j hj := by
    obtain rfl := Nat.lt_one_iff.1 hj
    decide
  within j hj := by
    change _ < 6
    split_ifs <;> decide
  reads j hj := by
    refine ⟨⟨0, "", 0⟩, false, 20, ?_⟩
    interval_cases j <;> rfl
  out j hj := by interval_cases j <;> decide +kernel
  ok j hj := by interval_cases j <;> decide +kernel
  operation := rfl
  more j hj := by
    obtain rfl := Nat.lt_one_iff.1 hj
    decide +kernel
  follow j hj := by
    obtain rfl := Nat.lt_one_iff.1 hj
    exact ⟨5, by decide +kernel⟩

end ApeServer.Group
