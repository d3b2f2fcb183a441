/-
  `ListFriends` and `ListApplications` (`ExecuteFriendCommand` of
  `src/storage/mysqlhandler.cpp`), and lists that are read page by page.

  A list takes no lock, and each of its statements may see other tables;
  `FriendReads` are the tables of the statements of one request.

  * `executeFriendList` is the request;
  * `FriendListing`: what the two lists differ in;
  * `FollowsFriends`: a client follows the cursor, with the snapshot of its
    first page, while the system goes on; `FollowsFriends.stable`;
  * `stable_lists` puts them together with the lists of group chat.
-/
import ApeServer.System.Visibility
import ApeServer.Group.Lists

namespace ApeServer

open Table Paging

/-- The list commands of `friendpb::Operation`. -/
inductive FriendListOp where
  | listFriends
  | listApplications
deriving DecidableEq, Repr

structure FriendListCommand where
  actor : Account
  operation : FriendListOp
  message : String := ""
  after : ℕ := 0
  limit : ℕ := 0
  snapshot : ℕ := 0
deriving DecidableEq, Repr

/-- The fields of `sdkws::FriendInfo` that `ListFriends` fills. -/
structure FriendInfo where
  ownerUserID : Account
  remark : String
  createTime : Int
  friendUser : UserRow
deriving DecidableEq, Repr

/-- `friendpb::ClearedConversation`. -/
structure ClearedConversation where
  peer : Account
  deletedTime : Int
  deletedSeq : ℕ
deriving DecidableEq, Repr

/-- The fields of `friendpb::Reply` that a list fills. -/
structure FriendListReply where
  errorCode : String := ""
  errorMessage : String := ""
  friends : List FriendInfo := []
  applications : List ApplicationView := []
  hasMore : Bool := false
  cursor : ℕ := 0
  snapshot : ℕ := 0
  clearedConversations : List ClearedConversation := []
deriving DecidableEq, Repr

/-- The tables at the statements of one list. -/
structure FriendReads where
  user : Db
  snapshot : Db
  rows : Db
  application : ℕ → Db
  cleared : Db

namespace Db

/-- `SELECT COALESCE(MAX(id),0)`. -/
def friendListSnapshot (db : Db) (cmd : FriendListCommand) : ℕ :=
  match cmd.operation with
  | .listFriends => ((db.friends.filter fun r => r.owner = cmd.actor).map FriendRow.id).foldr max 0
  | .listApplications => ((db.applications.filter fun a =>
      a.fromAccount = cmd.actor || a.toAccount = cmd.actor).map ApplicationRow.id).foldr max 0

/-- A friend row with the name of the friend. -/
def named (db : Db) (r : FriendRow) : Option (FriendRow × UserRow) :=
  (db.users.find? fun u => u.account = r.friend).map fun u => (r, u)

/-- `clearedConversations`. -/
def clearedConversations (db : Db) (owner : Account) : List ClearedConversation :=
  (db.deletions.filter fun r => r.owner = owner).map fun r => ⟨r.peer, r.deletedTime, r.deletedSeq⟩

end Db

/-- The loop of `ListApplications` over the ids: what it read, and the error
    that ended it. -/
def readApplications (read : ℕ → Db) : ℕ → List ℕ → List ApplicationView × Option FriendError
  | _, [] => ([], none)
  | i, id :: ids =>
    match (read i).application id with
    | .error e => ([], some e)
    | .ok a => (a :: (readApplications read (i + 1) ids).1, (readApplications read (i + 1) ids).2)

/-- The limit of a list. -/
def FriendListCommand.pageLimit (cmd : FriendListCommand) : ℕ := max 1 (min cmd.limit 100)

/-- The part of `ListFriends`. -/
def friendsPage (R : FriendReads) (cmd : FriendListCommand) (snapshot : ℕ) : FriendListReply :=
  let rows := orderLimit (·.1.id) (cmd.pageLimit + 1) ((R.rows.friends.filter fun r =>
    r.owner = cmd.actor && cmd.after < r.id && r.id ≤ snapshot).filterMap R.rows.named)
  let page := rows.take cmd.pageLimit
  { snapshot := snapshot
    hasMore := cmd.pageLimit < rows.length
    friends := page.map fun (r, u) => ⟨cmd.actor, r.remark, r.createdTime, ⟨r.friend, u.nickname⟩⟩
    cursor := cursor (·.1.id) 0 page
    clearedConversations := R.cleared.clearedConversations cmd.actor
    errorCode := "0" }

/-- The part of `ListApplications`. -/
def applicationsPage (R : FriendReads) (cmd : FriendListCommand) (snapshot : ℕ) : FriendListReply :=
  let ids := (orderLimit ApplicationRow.id (cmd.pageLimit + 1) (R.rows.applications.filter fun a =>
    (a.fromAccount = cmd.actor || a.toAccount = cmd.actor) && cmd.after < a.id &&
      a.id ≤ snapshot)).map ApplicationRow.id
  let read := readApplications R.application 0 (ids.take cmd.pageLimit)
  let reply : FriendListReply :=
    { snapshot := snapshot
      hasMore := cmd.pageLimit < ids.length
      applications := read.1
      cursor := (ids.take read.1.length).getLast?.getD 0 }
  match read.2 with
  | some e => { reply with errorCode := e.code, errorMessage := e.what }
  | none => { reply with errorCode := "0" }

/-- `ExecuteFriendCommand` for a list. -/
def executeFriendList (R : FriendReads) (cmd : FriendListCommand) : FriendListReply :=
  if cmd.actor = 0 then { errorCode := "INVALID_PARAM", errorMessage := "Invalid friend operation" }
  else if 512 < cmd.message.utf8ByteSize then
    { errorCode := "INVALID_PARAM", errorMessage := "Application message is too long" }
  else match R.user.user cmd.actor with
  | .error e => { errorCode := e.code, errorMessage := e.what }
  | .ok _ =>
    let snapshot := if cmd.snapshot = 0 then R.snapshot.friendListSnapshot cmd else cmd.snapshot
    match cmd.operation with
    | .listFriends => friendsPage R cmd snapshot
    | .listApplications => applicationsPage R cmd snapshot

/-! ## The two lists -/

/-- What one of the lists selects of an account, and what a reply with these
    rows shows. -/
structure FriendListing (ρ : Type) where
  operation : FriendListOp
  select : Db → Account → List ρ
  key : ρ → ℕ
  shows : FriendListReply → Account → List ρ → Prop

namespace FriendListing

/-- `ListFriends`: the friends of the account, with their names. -/
def friends : FriendListing (FriendRow × UserRow) where
  operation := .listFriends
  select db a := (db.friends.filter fun r => r.owner = a).filterMap db.named
  key := (·.1.id)
  shows reply a rows := reply.friends = rows.map fun (r, u) =>
    ⟨a, r.remark, r.createdTime, ⟨r.friend, u.nickname⟩⟩

/-- `ListApplications`: the applications from or to the account. -/
def applications : FriendListing ApplicationRow where
  operation := .listApplications
  select db a := db.applications.filter fun r => r.fromAccount = a || r.toAccount = a
  key := ApplicationRow.id
  shows reply _ rows := reply.applications.map ApplicationView.id = rows.map ApplicationRow.id

end FriendListing

section
variable {ρ : Type} {R : FriendReads} {cmd : FriendListCommand}

/-- The rows that the query returns: one more than the page shows. -/
def FriendListing.fetch (L : FriendListing ρ) (db : Db) (cmd : FriendListCommand) (snapshot : ℕ) : List ρ :=
  orderLimit L.key (cmd.pageLimit + 1)
    (((L.select db cmd.actor).filter fun r => L.key r ≤ snapshot).filter fun r => cmd.after < L.key r)

/-- The reply is a page of the list, up to a snapshot. -/
structure FriendListing.Shows (L : FriendListing ρ) (db : Db) (cmd : FriendListCommand)
    (reply : FriendListReply) : Prop where
  hasMore : reply.hasMore = decide (cmd.pageLimit < (L.fetch db cmd reply.snapshot).length)
  shows : L.shows reply cmd.actor ((L.fetch db cmd reply.snapshot).take cmd.pageLimit)
  cursor : reply.cursor = cursor L.key 0 ((L.fetch db cmd reply.snapshot).take cmd.pageLimit)
  snapshot : cmd.snapshot ≠ 0 → reply.snapshot = cmd.snapshot

/-- Friend rows have distinct ids, below the counter. -/
structure Db.FriendIds (db : Db) : Prop where
  ids : (db.friends.map FriendRow.id).Nodup
  next : ∀ r ∈ db.friends, r.id < db.nextFriendId

/-- What is needed of a list. -/
structure FriendListing.Sound (L : FriendListing ρ) : Prop where
  shows : ∀ R cmd, cmd.operation = L.operation → (executeFriendList R cmd).errorCode = "0" →
    L.Shows R.rows cmd (executeFriendList R cmd)
  keys : ∀ db a, db.FriendIds → db.Social → ((L.select db a).map L.key).Nodup

theorem user_error {db : Db} {a : Account} {e : FriendError} (h : db.user a = .error e) : e.code ≠ "0" := by
  unfold Db.user at h
  split at h
  · cases h
  · cases h; decide

theorem application_error {db : Db} {id : ℕ} {e : FriendError} (h : db.application id = .error e) :
    e.code ≠ "0" := by
  unfold Db.application at h
  split at h
  · cases h; decide
  · next a _ =>
    cases hs : db.user a.fromAccount with
    | error e' =>
      rw [hs] at h
      cases h
      exact user_error hs
    | ok s =>
      rw [hs] at h
      cases hr : db.user a.toAccount with
      | error e' =>
        simp only [bind, Except.bind, hr] at h
        cases h
        exact user_error hr
      | ok r =>
        simp only [bind, Except.bind, hr] at h
        cases h

theorem application_id {db : Db} {id : ℕ} {a : ApplicationView} (h : db.application id = .ok a) :
    a.id = id := by
  unfold Db.application at h
  split at h
  · cases h
  · next r hr =>
    obtain ⟨s, -, h⟩ := ok_of_bind h
    obtain ⟨t, -, h⟩ := ok_of_bind h
    cases h
    simpa using List.find?_some hr

/-- Without an error the loop has read all ids. -/
theorem readApplications_ids {read : ℕ → Db} : ∀ {i : ℕ} {ids : List ℕ},
    (readApplications read i ids).2 = none → (readApplications read i ids).1.map ApplicationView.id = ids
  | _, [], _ => rfl
  | i, id :: ids, h => by
    unfold readApplications at h ⊢
    cases ha : (read i).application id with
    | error e => rw [ha] at h; cases h
    | ok a =>
      rw [ha] at h
      dsimp only at h ⊢
      rw [List.map_cons, readApplications_ids h, application_id ha]

theorem readApplications_error {read : ℕ → Db} {e : FriendError} : ∀ {i : ℕ} {ids : List ℕ},
    (readApplications read i ids).2 = some e → e.code ≠ "0"
  | _, [], h => by cases h
  | i, id :: ids, h => by
    unfold readApplications at h
    cases ha : (read i).application id with
    | error e' =>
      rw [ha] at h
      cases h
      exact application_error ha
    | ok a =>
      rw [ha] at h
      exact readApplications_error h

/-- A list that is no error has passed the checks. -/
theorem executeFriendList_ok (hok : (executeFriendList R cmd).errorCode = "0") :
    ∃ snapshot, (cmd.snapshot ≠ 0 → snapshot = cmd.snapshot) ∧ executeFriendList R cmd =
      match cmd.operation with
      | .listFriends => friendsPage R cmd snapshot
      | .listApplications => applicationsPage R cmd snapshot := by
  unfold executeFriendList at hok ⊢
  by_cases h₁ : cmd.actor = 0
  · rw [if_pos h₁] at hok; exact absurd hok (by decide)
  rw [if_neg h₁] at hok ⊢
  by_cases h₂ : 512 < cmd.message.utf8ByteSize
  · rw [if_pos h₂] at hok; exact absurd hok (by decide)
  rw [if_neg h₂] at hok ⊢
  cases hu : R.user.user cmd.actor with
  | error e => rw [hu] at hok; exact absurd hok (user_error hu)
  | ok u => exact ⟨_, fun h => if_neg h, rfl⟩

theorem named_id {db : Db} {r : FriendRow} {x : FriendRow × UserRow} (h : db.named r = some x) :
    x.1.id = r.id := by
  obtain ⟨u, -, rfl⟩ := Option.map_eq_some_iff.1 h
  rfl

theorem friends_shows (ho : cmd.operation = .listFriends)
    (hok : (executeFriendList R cmd).errorCode = "0") :
    FriendListing.friends.Shows R.rows cmd (executeFriendList R cmd) := by
  obtain ⟨snapshot, hs, h⟩ := executeFriendList_ok hok
  have hfetch : orderLimit (·.1.id) (cmd.pageLimit + 1) ((R.rows.friends.filter fun r =>
      r.owner = cmd.actor && cmd.after < r.id && r.id ≤ snapshot).filterMap R.rows.named)
        = FriendListing.friends.fetch R.rows cmd snapshot := by
    have hjoin : ∀ (p : FriendRow → Bool) (q : ℕ → Bool),
        ((R.rows.friends.filter p).filterMap R.rows.named).filter (fun x => q x.1.id)
          = (R.rows.friends.filter fun r => p r && q r.id).filterMap R.rows.named :=
      fun p q => filter_join (fun _ _ => named_id) p q _
    rw [FriendListing.fetch, FriendListing.friends]
    dsimp only
    rw [hjoin _ (· ≤ snapshot), hjoin _ (cmd.after < ·)]
    refine congrArg (fun t => orderLimit _ _ (List.filterMap _ t)) (List.filter_congr fun r _ => ?_)
    rw [Bool.and_assoc, Bool.and_assoc, Bool.and_comm (decide (cmd.after < r.id))]
  rw [h, ho]
  dsimp only
  unfold friendsPage
  rw [hfetch]
  exact ⟨rfl, rfl, rfl, hs⟩

theorem applications_shows (ho : cmd.operation = .listApplications)
    (hok : (executeFriendList R cmd).errorCode = "0") :
    FriendListing.applications.Shows R.rows cmd (executeFriendList R cmd) := by
  obtain ⟨snapshot, hs, h⟩ := executeFriendList_ok hok
  have hfetch : orderLimit ApplicationRow.id (cmd.pageLimit + 1) (R.rows.applications.filter fun a =>
      (a.fromAccount = cmd.actor || a.toAccount = cmd.actor) && cmd.after < a.id && a.id ≤ snapshot)
        = FriendListing.applications.fetch R.rows cmd snapshot := by
    rw [FriendListing.fetch, FriendListing.applications, List.filter_filter, List.filter_filter]
    refine congrArg (orderLimit _ _) (List.filter_congr fun a _ => ?_)
    rw [Bool.and_assoc, Bool.and_comm]
  rw [h, ho] at hok ⊢
  dsimp only at hok ⊢
  unfold applicationsPage at hok ⊢
  rw [hfetch] at hok ⊢
  dsimp only at hok ⊢
  cases he : (readApplications R.application 0 (((FriendListing.applications.fetch R.rows cmd
      snapshot).map ApplicationRow.id).take cmd.pageLimit)).2 with
  | some e =>
    rw [he] at hok
    exact absurd hok (readApplications_error he)
  | none =>
    have hids := readApplications_ids he
    have hlen := congrArg List.length hids
    rw [List.length_map] at hlen
    refine ⟨?_, ?_, ?_, hs⟩
    · dsimp only
      rw [List.length_map]
    · exact hids.trans List.map_take.symm
    · dsimp only
      rw [hlen, List.length_take, ← List.take_take, List.take_length, ← List.map_take, List.getLast?_map]
      rfl

theorem friends_sound : FriendListing.friends.Sound where
  shows _ _ := friends_shows
  keys _ _ hf _ := nodup_join (fun _ _ => named_id) (nodup_filter hf.ids _)

theorem applications_sound : FriendListing.applications.Sound where
  shows _ _ := applications_shows
  keys _ _ _ hs := nodup_filter hs.ids _

/-! ## The ids of friend rows -/

theorem friendIds_insert {a b : Account} {now : Int} {n : ℕ} {t : List FriendRow}
    (hi : (t.map FriendRow.id).Nodup) (hn : ∀ r ∈ t, r.id < n) :
    ((Db.insertFriend n a b now t).map FriendRow.id).Nodup ∧
      ∀ r ∈ Db.insertFriend n a b now t, r.id < n + 1 := by
  constructor
  · exact nodup_insertNew hi fun r hr he => absurd he (hn r hr).ne
  · intro r hr
    rcases mem_insertNew.1 hr with hr | ⟨rfl, -⟩
    · exact (hn r hr).trans (Nat.lt_succ_self n)
    · exact Nat.lt_succ_self n

theorem Db.FriendIds.of_same {db db' : Db} (h : db.FriendIds) (hs : db.SameSocial db') : db'.FriendIds :=
  ⟨by rw [hs.friends]; exact h.ids, by rw [hs.friends, hs.counter]; exact h.next⟩

theorem FriendEffect.friendIds {db db' : Db} {cmd : FriendCommand} {target : Account} {now : Int}
    {seq : ℕ} {drawn : Option ℕ} (he : FriendEffect db db' cmd target now seq drawn) (h : db.FriendIds) :
    db'.FriendIds := by
  cases he with
  | none hs => exact h.of_same hs
  | applied _ _ hf _ _ _ hc => exact ⟨by rw [hf]; exact h.ids, by rw [hf, hc]; exact h.next⟩
  | handled _ _ _ _ _ hf _ _ _ hc =>
    by_cases hacc : cmd.accept = true
    · rw [if_pos hacc] at hf hc
      obtain ⟨h₁, h₂⟩ := friendIds_insert h.ids h.next
      obtain ⟨h₃, h₄⟩ := friendIds_insert h₁ h₂
      exact ⟨by rw [hf]; exact h₃, by rw [hf, hc]; exact h₄⟩
    · rw [if_neg hacc] at hf hc
      exact ⟨by rw [hf]; exact h.ids, by rw [hf, hc]; exact h.next⟩
  | removed hs =>
    have hclose : (db.closeFriendship cmd.actor target now seq).FriendIds :=
      ⟨nodup_deleteWhere h.ids _, fun r hr => h.next r (mem_deleteWhere.1 hr).1⟩
    exact hclose.of_same hs

theorem friendIds_trace {J : Codec} (T : SysTrace J) {i : ℕ} (hi : i ≤ T.len) :
    (T.state i).db.FriendIds := by
  refine T.invariant (P := fun w => w.db.FriendIds) ⟨by simp [start], by simp [start]⟩ ?_ hi
  intro w a w' es hk h
  rcases step_friend h with hs | ⟨j, now, seq, c, drawn, -, -, he⟩
  · exact hk.of_same hs
  · exact he.friendIds hk

/-! ## Following the cursor -/

/-- The states of a run at which the statements of one list read; `application i`
    is that of the `i`th application. -/
structure FriendMoments where
  user : ℕ
  snapshot : ℕ
  rows : ℕ
  application : ℕ → ℕ
  cleared : ℕ

/-- One after the other, and all of them in the run. -/
structure FriendMoments.Ordered (t : FriendMoments) (len : ℕ) : Prop where
  snapshot : t.user ≤ t.snapshot
  rows : t.snapshot ≤ t.rows
  first : t.rows ≤ t.application 0
  application : ∀ i, t.application i ≤ t.application (i + 1)
  cleared : ∀ i, t.application i ≤ t.cleared
  within : t.cleared ≤ len

variable {J : Codec} {L : FriendListing ρ} {k : ℕ}

def FriendMoments.reads (t : FriendMoments) (T : SysTrace J) : FriendReads where
  user := (T.state t.user).db
  snapshot := (T.state t.snapshot).db
  rows := (T.state t.rows).db
  application i := (T.state (t.application i)).db
  cleared := (T.state t.cleared).db

/-- A client reads the pages `0, …, k` of a friend list while the run goes on: it
    follows the cursor with the snapshot of the reply, and with any limits. -/
structure FollowsFriends (T : SysTrace J) (L : FriendListing ρ) (k : ℕ) where
  moments : ℕ → FriendMoments
  request : ℕ → FriendListCommand
  reply : ℕ → FriendListReply
  ordered : ∀ j ≤ k, (moments j).Ordered T.len
  order : ∀ j < k, (moments j).cleared ≤ (moments (j + 1)).user
  answer : ∀ j ≤ k, reply j = executeFriendList ((moments j).reads T) (request j)
  /-- the replies are pages, and no errors -/
  ok : ∀ j ≤ k, (reply j).errorCode = "0"
  operation : (request 0).operation = L.operation
  more : ∀ j < k, (reply j).hasMore = true
  follow : ∀ j < k, ∃ limit, request (j + 1) =
    { request j with after := (reply j).cursor, snapshot := (reply j).snapshot, limit := limit }

namespace FollowsFriends
variable {T : SysTrace J} (F : FollowsFriends T L k)

/-- The tables that page `j` is read from. -/
def tables (j : ℕ) : Db := (T.state (F.moments j).rows).db

/-- The pages show rows that passed the filter when they were read, in strictly
    ascending order of ids and up to the first snapshot; and once there is no
    more, every id after the first cursor and up to the snapshot that passed
    the filter at all of them. -/
def Stable : Prop :=
  ∃ pages : ℕ → List ρ,
    (∀ j ≤ k, L.shows (F.reply j) (F.request 0).actor (pages j) ∧
      ∀ r ∈ pages j, r ∈ L.select (F.tables j) (F.request 0).actor ∧ L.key r ≤ (F.reply 0).snapshot) ∧
    Ascending L.key ((List.range (k + 1)).flatMap pages) ∧
    ((F.reply k).hasMore = false → ∀ x, (F.request 0).after < x → x ≤ (F.reply 0).snapshot →
      (∀ j ≤ k, ∃ r ∈ L.select (F.tables j) (F.request 0).actor, L.key r = x) →
      ∃ r ∈ (List.range (k + 1)).flatMap pages, L.key r = x)

theorem request_eq {j : ℕ} (hj : j ≤ k) :
    (F.request j).operation = L.operation ∧ (F.request j).actor = (F.request 0).actor := by
  induction j with
  | zero => exact ⟨F.operation, rfl⟩
  | succ j ih =>
    obtain ⟨limit, hf⟩ := F.follow j hj
    rw [hf]
    exact ih (by omega)

theorem shows (hL : L.Sound) {j : ℕ} (hj : j ≤ k) : L.Shows (F.tables j) (F.request j) (F.reply j) := by
  have hok := F.ok j hj
  rw [F.answer j hj] at hok ⊢
  exact hL.shows _ _ (F.request_eq hj).1 hok

/-- Up to the snapshot, in the order of ids. -/
def sorted (snapshot : ℕ) (j : ℕ) : List ρ :=
  ((L.select (F.tables j) (F.request 0).actor).filter fun r => L.key r ≤ snapshot).insertionSort
    fun r r' => L.key r ≤ L.key r'

theorem fetch_eq {j : ℕ} (hj : j ≤ k) (snapshot : ℕ) : L.fetch (F.tables j) (F.request j) snapshot
    = (beyond L.key (F.request j).after (F.sorted snapshot j)).take ((F.request j).pageLimit + 1) := by
  rw [FriendListing.fetch, orderLimit, beyond, sorted, filter_insertionSort, (F.request_eq hj).2]

theorem length_fetch (hL : L.Sound) {j : ℕ} (hj : j < k) : (F.request j).pageLimit <
    (beyond L.key (F.request j).after (F.sorted (F.reply j).snapshot j)).length := by
  have hm := (F.shows hL hj.le).hasMore
  rw [F.more j hj, F.fetch_eq hj.le, List.length_take] at hm
  have := of_decide_eq_true hm.symm
  omega

/-- All pages have the first snapshot. -/
theorem snapshot_eq (hL : L.Sound) {j : ℕ} (hj : j ≤ k) : (F.reply j).snapshot = (F.reply 0).snapshot := by
  induction j with
  | zero => rfl
  | succ j ih =>
    obtain ⟨limit, hf⟩ := F.follow j hj
    have hreq : (F.request (j + 1)).snapshot = (F.reply j).snapshot := by rw [hf]
    rw [← ih (by omega), ← hreq]
    refine (F.shows hL hj).snapshot ?_
    -- there was more, so some id is up to the snapshot
    have hlen := F.length_fetch hL hj
    obtain ⟨r, hr⟩ := List.exists_mem_of_length_pos (Nat.zero_lt_of_lt hlen)
    have hr' := (List.mem_filter.1 ((List.mem_insertionSort _).1 (List.mem_of_mem_filter hr))).2
    have ha := (List.mem_filter.1 hr).2
    simp only [decide_eq_true_eq] at hr' ha
    omega

/-- The pages are those of a table that changes. -/
def walk (hL : L.Sound) : Walk L.key k where
  rows := F.sorted (F.reply 0).snapshot
  limit j := (F.request j).pageLimit
  after j := (F.request j).after
  ascending j hj := by
    have hin : (F.moments j).rows ≤ T.len := by
      have h := F.ordered j hj
      exact (h.first.trans (h.cleared 0)).trans h.within
    exact ascending_insertionSort (nodup_filter
      (hL.keys _ _ (friendIds_trace T hin) (socialOk_trace T hin).tables) _)
  more j hj := by
    rw [← F.snapshot_eq hL hj.le]
    exact F.length_fetch hL hj
  follow j hj := by
    obtain ⟨limit, hf⟩ := F.follow j hj
    have hs := F.shows hL hj.le
    rw [hf]
    dsimp only
    rw [hs.cursor, F.fetch_eq hj.le, List.take_take, min_eq_left (Nat.le_succ _), F.snapshot_eq hL hj.le]
    refine cursor_start (List.ne_nil_of_length_pos ?_) _ _
    have := F.length_fetch hL hj
    rw [F.snapshot_eq hL hj.le] at this
    have : 1 ≤ (F.request j).pageLimit := le_max_left _ _
    rw [List.length_take]
    omega

/-- **Friend lists are stable** under any steps between the statements. -/
theorem stable (hL : L.Sound) : F.Stable := by
  refine ⟨(F.walk hL).page, fun j hj => ⟨?_, fun r hr => ?_⟩, (F.walk hL).ascending_shown le_rfl, ?_⟩
  · have hs := (F.shows hL hj).shows
    rwa [F.fetch_eq hj, List.take_take, min_eq_left (Nat.le_succ _), F.snapshot_eq hL hj,
      (F.request_eq hj).2] at hs
  · have hr := (List.mem_insertionSort _).1 ((F.walk hL).mem_page hr).1
    exact ⟨List.mem_of_mem_filter hr, by simpa using (List.mem_filter.1 hr).2⟩
  · intro hlast x h₀ hx hrows
    refine (F.walk hL).complete ?_ h₀ fun j hj => ?_
    · have hm := (F.shows hL le_rfl).hasMore
      rw [hlast, F.fetch_eq le_rfl, F.snapshot_eq hL le_rfl, List.length_take] at hm
      have := of_decide_eq_false hm.symm
      change (beyond L.key (F.request k).after (F.sorted (F.reply 0).snapshot k)).length
        ≤ (F.request k).pageLimit
      omega
    · obtain ⟨r, hr, rfl⟩ := hrows j hj
      exact ⟨r, (List.mem_insertionSort _).2 (List.mem_filter.2 ⟨hr, decide_eq_true hx⟩), rfl⟩

end FollowsFriends

end

/-- **Stable lists.**  For each of the six lists, any limits and whatever is
    committed between the pages. -/
theorem stable_lists :
    (∀ C W (T : Group.GroupTrace C W),
      (∀ k (F : Group.Follows T .list k), F.Stable) ∧ (∀ k (F : Group.Follows T .members k), F.Stable) ∧
      (∀ k (F : Group.Follows T .applications k), F.Stable) ∧
      ∀ k (F : Group.Follows T .myApplications k), F.Stable) ∧
    ∀ J (T : SysTrace J), (∀ k (F : FollowsFriends T .friends k), F.Stable) ∧
      ∀ k (F : FollowsFriends T .applications k), F.Stable :=
  ⟨fun _ _ _ => ⟨fun _ F => F.stable Group.list_sound, fun _ F => F.stable Group.members_sound,
      fun _ F => F.stable Group.applications_sound, fun _ F => F.stable Group.myApplications_sound⟩,
    fun _ _ => ⟨fun _ F => F.stable friends_sound, fun _ F => F.stable applications_sound⟩⟩

/-! ### Two pages of friends -/

/-- Account 1 and another one become friends. -/
def befriendWith (target : Account) (application : ℕ) : List Action :=
  [.friendStart { actor := 1, operation := .apply, target := target }, .friendCommit 0 10 0,
    .friendStart { actor := target, operation := .handleApplication, applicationID := application, accept := true },
    .friendCommit 0 20 0]

def friendsRun : SysTrace (helloCodec 0) :=
  sampleRun (helloCodec 0) ([.register ⟨1, "A"⟩, .register ⟨2, "B"⟩, .register ⟨3, "C"⟩, .register ⟨4, "D"⟩] ++
    befriendWith 2 1 ++ befriendWith 3 2 ++ befriendWith 4 3) (by decide +kernel)

/-- All statements of a request read the same state. -/
def FriendMoments.at (i : ℕ) : FriendMoments := ⟨i, i, i, fun _ => i, i⟩

/-- Account 1 reads a page of one friend, becomes a friend of account 4, and
    reads the next page. -/
def friendPages : FollowsFriends friendsRun .friends 1 where
  moments j := .at (if j = 0 then 12 else 16)
  request j := { actor := 1, operation := .listFriends, after := if j = 0 then 0 else 2, limit := 1,
                 snapshot := if j = 0 then 0 else 4 }
  reply j := executeFriendList ((FriendMoments.at (if j = 0 then 12 else 16)).reads friendsRun)
    { actor := 1, operation := .listFriends, after := if j = 0 then 0 else 2, limit := 1,
      snapshot := if j = 0 then 0 else 4 }
  ordered j hj := by
    refine ⟨le_rfl, le_rfl, le_rfl, fun _ => le_rfl, fun _ => le_rfl, ?_⟩
    change _ ≤ 16
    split_ifs <;> decide
  order j hj := by
    obtain rfl := Nat.lt_one_iff.1 hj
    decide
  answer _ _ := rfl
  ok j hj := by interval_cases j <;> decide +kernel
  operation := rfl
  more j hj := by
    obtain rfl := Nat.lt_one_iff.1 hj
    decide +kernel
  follow j hj := by
    obtain rfl := Nat.lt_one_iff.1 hj
    exact ⟨1, by decide +kernel⟩

/-- A group that is made and a friend who is added between two pages. -/
theorem stable_lists_pages :
    (Group.groupPages.Stable ∧
      ((List.range 2).flatMap fun j => (Group.groupPages.reply j).groups.map (·.id)) = ["7", "8", "9"]) ∧
    friendPages.Stable ∧
      ((List.range 2).flatMap fun j => (friendPages.reply j).friends.map (·.friendUser.account)) = [2, 3] :=
  ⟨⟨(stable_lists.1 _ _ Group.listRun).1 1 Group.groupPages, by decide +kernel⟩,
    (stable_lists.2 _ friendsRun).1 1 friendPages, by decide +kernel⟩

end ApeServer
