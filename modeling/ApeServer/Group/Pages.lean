/-
  Reading a group page by page.

  A client repeats a `Pull` with the cursor and the snapshot of the last reply
  while there is more.  The snapshot is the `last_seq` of the first page or
  below it, so that what is sent meanwhile stays outside.

  * `page_reply`: what a page answers, and that it changes nothing;
  * `Meanwhile.keeps`: what the steps between two pages leave to the reader;
  * `pull_traversal`: the pages, one after the other, are the messages after
    the first cursor and up to the snapshot.
-/
import ApeServer.Group.Membership
import ApeServer.Lib.Paging

namespace ApeServer.Group

open Table Txn Paging

/-! ## Steps between pages -/

/-- The account is an active member of the live group `id`, in the epoch `e`. -/
structure Reader (db : GroupDb) (a : Account) (id e : ℕ) : Prop where
  user : ∃ u, db.user? a = some u
  group : ∃ g, db.group? id = some g ∧ g.dismissed = false
  member : ∃ m, db.member? id a = some m ∧ m.active = true ∧ m.epoch = e

/-- A `Send`. -/
def Action.send : Action → Bool
  | execute cmd _ _ _ => cmd.operation = .send
  | _ => false

/-- From `db` the service took steps: any `Send`s, and others that left the
    account a reader in its epoch. -/
inductive Meanwhile (C : Collations) (W : Wire) (a : Account) (id e : ℕ)
    (db : GroupDb) : GroupDb → Prop
  | start : Meanwhile C W a id e db db
  | next {s s' : GroupDb} {x : Action} {es : List Event} (h : Meanwhile C W a id e db s)
      (hs : step C W s x = some (s', es)) (hx : x.send = true ∨ Reader s' a id e) :
      Meanwhile C W a id e db s'

section
variable {C : Collations} {W : Wire} {S : Source} {cmd : Command} {db db' : GroupDb}
  {a : Account} {id e : ℕ} {g : GroupRow} {m : MemberRow}

/-- Users stay. -/
theorem Effect.users {reply : Reply} (h : Effect S cmd db reply db') : db'.users = db.users := by
  cases h <;> rfl

theorem step_users {x : Action} {es : List Event} (h : step C W db x = some (db', es))
    (hx : x.send = true) : db'.users = db.users := by
  cases x with
  | execute cmd S lost fuel =>
    rcases execute_cases h with ⟨rfl, -⟩ | ⟨reply, ho, -⟩
    · rfl
    · cases ho with
      | plain _ hd => exact hd.2.users
      | replay => rfl
      | fresh _ _ _ _ hd => exact hd.2.users
  | deliver | register => cases hx

/-- A `Send` keeps the member rows. -/
theorem MemberChange.same_of_send {o o' : Option MemberRow} (h : MemberChange db db' cmd id a o o')
    (hop : cmd.operation = .send) : o' = o := by
  cases h with
  | keep => rfl
  | found hop' => rw [hop] at hop'; cases hop'
  | join _ hop' => rw [hop] at hop'; cases hop'
  | leave _ hop' => rcases hop' with ⟨hop', -⟩ | ⟨hop', -⟩ <;> · rw [hop] at hop'; cases hop'
  | ack _ hop' => rw [hop] at hop'; cases hop'
  | read _ hop' => rw [hop] at hop'; cases hop'

/-- A `Send` dismisses no group. -/
theorem GroupChange.dismissed_of_send {o : Option GroupRow} (h : GroupChange db db' S cmd id (some g) o)
    (hop : cmd.operation = .send) : ∃ g', o = some g' ∧ g'.dismissed = g.dismissed := by
  cases h with
  | keep => exact ⟨g, rfl, rfl⟩
  | send => exact ⟨_, rfl, rfl⟩
  | rename _ hop' => rw [hop] at hop'; cases hop'
  | dismiss _ hop' => rw [hop] at hop'; cases hop'
  | recount => exact ⟨_, rfl, rfl⟩

/-- **A `Send` leaves every reader in place.** -/
theorem Reader.send {x : Action} {es : List Event} (h : Reader db a id e)
    (hs : step C W db x = some (db', es)) (hx : x.send = true) : Reader db' a id e := by
  obtain ⟨⟨u, hu⟩, ⟨g, hg, halive⟩, m, hm, hact, he⟩ := h
  refine ⟨⟨u, ?_⟩, ?_, ?_⟩
  · rw [GroupDb.user?, step_users hs hx]
    exact hu
  · change ∃ g', db'.tables.group? id = some g' ∧ g'.dismissed = false
    change db.tables.group? id = some g at hg
    rcases step_effect hs with ht | ⟨cmd, S, lost, fuel, reply, rfl, heff⟩
    · rw [ht]
      exact ⟨g, hg, halive⟩
    · have hc := heff.groupRow id
      rw [hg] at hc
      obtain ⟨g', hg', hd⟩ := hc.dismissed_of_send (by simpa [Action.send] using hx)
      exact ⟨g', hg', hd.trans halive⟩
  · change ∃ m', db'.tables.member? id a = some m' ∧ m'.active = true ∧ m'.epoch = e
    change db.tables.member? id a = some m at hm
    rcases step_effect hs with ht | ⟨cmd, S, lost, fuel, reply, rfl, heff⟩
    · rw [ht]
      exact ⟨m, hm, hact, he⟩
    · have hc := (heff.memberRow id a).same_of_send (by simpa [Action.send] using hx)
      exact ⟨m, hc.trans hm, hact, he⟩

/-- Within an epoch `join_seq` stays. -/
theorem MemberChange.joinSeq {m' : MemberRow} (h : MemberChange db db' cmd id a (some m) (some m'))
    (he : m'.epoch = m.epoch) : m'.joinSeq = m.joinSeq := by
  cases h with
  | keep => rfl
  | join _ _ _ _ _ _ _ _ hn => simp [GroupDb.rejoin, hn m rfl] at he
  | leave | ack | read => rfl

theorem step_joinSeq {x : Action} {es : List Event} {m' : MemberRow}
    (hs : step C W db x = some (db', es)) (hm : db.member? id a = some m)
    (hm' : db'.member? id a = some m') (he : m'.epoch = m.epoch) : m'.joinSeq = m.joinSeq := by
  change db.tables.member? id a = some m at hm
  change db'.tables.member? id a = some m' at hm'
  rcases step_effect hs with ht | ⟨cmd, S, lost, fuel, reply, rfl, heff⟩
  · rw [ht, hm] at hm'
    cases hm'
    rfl
  · have hc := heff.memberRow id a
    rw [hm, hm'] at hc
    exact hc.joinSeq he

/-- What a reader that joined at `seq` can rely on, after its group had the
    messages `log`. -/
structure Reading (db : GroupDb) (a : Account) (id e seq : ℕ) (log : List MessageRow) : Prop where
  sequenced : Sequenced db
  reader : Reader db a id e
  joined : ∀ m, db.member? id a = some m → m.joinSeq = seq
  log : log <+: db.log id

/-- **What the steps between two pages leave.** -/
theorem Meanwhile.keeps {seq : ℕ} {log : List MessageRow} (h : Meanwhile C W a id e db db')
    (hr : Reading db a id e seq log) : Reading db' a id e seq log := by
  induction h with
  | start => exact hr
  | @next s s' x es _ hs hx ih =>
    have hreader : Reader s' a id e := hx.elim (fun hx => ih.reader.send hs hx) fun hr => hr
    refine ⟨ih.sequenced.step (step_log hs), hreader, ?_, ih.log.trans ((step_log hs).rows_grow id)⟩
    intro m' hm'
    obtain ⟨m, hm, -, he⟩ := ih.reader.member
    obtain ⟨m'', hm'', -, he'⟩ := hreader.member
    rw [hm''] at hm'
    cases hm'
    rw [step_joinSeq hs hm hm'' (he'.trans he.symm), ih.joined m hm]

/-! ## A page -/

/-- A `Pull` changes nothing. -/
theorem pull_same {lost : Bool} {fuel : ℕ} {es : List Event}
    (h : step C W db (.execute cmd S lost fuel) = some (db', es)) (hop : cmd.operation = .pull) :
    db' = db := by
  rcases execute_cases h with ⟨rfl, -⟩ | ⟨reply, ho, -⟩
  · rfl
  · cases ho with
    | plain _ hd =>
      cases hd.2 with
      | same hop' => exact absurd hop hop'
      | pull => rfl
      | remove _ hop' => rcases hop' with ⟨hop', -⟩ | ⟨hop', -⟩ <;> · rw [hop] at hop'; cases hop'
      | create hop' | apply hop' | accept _ hop' | reject _ hop' | rename _ hop' | dismiss _ hop'
      | send _ _ hop' | ack _ hop' | read _ hop' => rw [hop] at hop'; cases hop'
    | replay => rfl
    | fresh hm => rw [hop] at hm; cases hm

/-- The number of rows on a page. -/
def Command.pageSize (cmd : Command) : ℕ := max 1 (min cmd.limit 50)

/-- The messages of a group up to a snapshot. -/
def GroupDb.logTo (db : GroupDb) (id upto : ℕ) : List MessageRow :=
  (db.log id).filter fun r => r.seq ≤ upto

/-- The reply shows the first rows after `after`. -/
structure Page (db : GroupDb) (cmd : Command) (id after upto : ℕ) (r : Reply) : Prop where
  errorCode : r.errorCode = "0"
  snapshot : r.snapshot = upto
  hasMore : r.hasMore = true ↔ cmd.pageSize < (beyond MessageRow.seq after (db.logTo id upto)).length
  messages : r.messages
    = ((beyond MessageRow.seq after (db.logTo id upto)).take cmd.pageSize).map messageRow
  cursor : r.cursor = cursor MessageRow.seq after
    ((beyond MessageRow.seq after (db.logTo id upto)).take cmd.pageSize)

/-- What a member may pull. -/
structure Pulls (cmd : Command) : Prop where
  operation : cmd.operation = .pull
  actor : cmd.actor ≠ 0
  text : cmd.text.utf8ByteSize ≤ 512

/-- The view of a member takes three statements. -/
theorem memberState_run (hm : db.member? id a = some m) (hact : m.active = true) (halive : g.dismissed = false)
    (n : ℕ) : memberState (groupRow g) id a db ⟨(), n + 3⟩
      = (.ok (memberView db (groupRow g) id a, db), ⟨(), n⟩) := by
  have hd : (withNumber (groupRow g) (db.number? id)).dismissed = false := by
    cases db.number? id <;> exact halive
  unfold memberState memberView
  rw [run_bind (query_run _ db _), run_bind (query_run _ db _), hm]
  dsimp only
  rw [if_pos (by simp [hact, hd]), run_bind (query_run _ db _), if_pos (by simp [hact, hd])]
  rfl

/-- The rows of a group ascend. -/
theorem ascending_log (hs : Sequenced db) (hg : db.group? id = some g) :
    Ascending MessageRow.seq (db.log id) := by
  have h : ((db.log id).map MessageRow.seq).Pairwise (· < ·) := by
    rw [GroupDb.log, hs.seqs _ (mem_heads hg)]
    exact List.pairwise_lt_range'
  exact List.pairwise_map.1 h

theorem length_log (hs : Sequenced db) (hg : db.group? id = some g) : (db.log id).length = g.lastSeq := by
  have h := congrArg List.length (hs.seqs _ (mem_heads hg))
  rwa [List.length_map, List.length_range'] at h

/-- The rows that `Pull` selects. -/
theorem pull_rows (hs : Sequenced db) (hg : db.group? id = some g) (after upto n : ℕ) :
    orderLimit MessageRow.seq n
        (db.messages.filter fun r => r.group = id && after < r.seq && r.seq ≤ upto)
      = (beyond MessageRow.seq after (db.logTo id upto)).take n := by
  have hrows : (db.messages.filter fun r => r.group = id && after < r.seq && r.seq ≤ upto)
      = beyond MessageRow.seq after (db.logTo id upto) := by
    simp only [beyond, GroupDb.logTo, GroupDb.log, Log.rows, List.filter_filter]
    refine List.filter_congr fun r _ => ?_
    rw [Bool.and_comm (decide (r.seq ≤ upto)), ← Bool.and_assoc, Bool.and_comm (decide (after < r.seq))]
  have hsorted : Ascending MessageRow.seq (beyond MessageRow.seq after (db.logTo id upto)) :=
    ((ascending_log hs hg).filter _).filter _
  rw [orderLimit, hrows, List.Pairwise.insertionSort_eq]
  exact hsorted.imp Nat.le_of_lt

/-- The view of a member of a live group. -/
theorem memberView_member (hm : db.member? id a = some m) (hact : m.active = true)
    (halive : g.dismissed = false) :
    (memberView db (groupRow g) id a).joined = true ∧
    (memberView db (groupRow g) id a).joinSeq = m.joinSeq ∧
    (memberView db (groupRow g) id a).epoch = m.epoch := by
  have hd : (withNumber (groupRow g) (db.number? id)).dismissed = false := by
    cases db.number? id <;> exact halive
  unfold memberView
  rw [hm]
  exact ⟨by simp [hact, hd], rfl, rfl⟩

/-- `Pull` of a member passes all checks. -/
theorem lockedCommand_pull {v : Info} {nickname : String} {limit : ℕ} {reply : Reply}
    (hop : cmd.operation = .pull) (hd : v.dismissed = false) (hj : v.joined = true)
    (he : cmd.epoch = 0 ∨ cmd.epoch = v.epoch) :
    lockedCommand C S cmd nickname limit id v reply = pullMessages cmd id v limit reply := by
  unfold lockedCommand memberCommand
  rw [hop, if_neg (by simp), if_neg (by simp [hd]), if_neg (by simp), if_neg (by simp [hj]), if_neg,
    if_neg (by simp [Operation.ownerOnly])]
  rintro ⟨h₀, hne⟩
  exact he.elim h₀ hne

theorem pullMessages_run (cmd : Command) {v : Info} {reply : Reply} (hs : Sequenced db) (hg : db.group? id = some g)
    (hl : v.lastSeq = g.lastSeq) (hj : v.joinSeq = m.joinSeq) (h₀ : reply.errorCode = "0") (n : ℕ) :
    ∃ r, pullMessages cmd id v cmd.pageSize reply db ⟨(), n + 1⟩ = (.ok (r, db), ⟨(), n⟩) ∧
      Page db cmd id (max cmd.after m.joinSeq)
        (if cmd.snapshot ≠ 0 then min cmd.snapshot g.lastSeq else g.lastSeq) r := by
  unfold pullMessages
  rw [hl, hj, run_bind (query_run _ db _), pull_rows hs hg]
  refine ⟨_, rfl, h₀, rfl, ?_, ?_, ?_⟩
  · simp
  · dsimp only
    rw [List.take_take, min_eq_left (Nat.le_succ _)]
  · dsimp only
    rw [List.take_take, min_eq_left (Nat.le_succ _)]
    rfl

/-- **What a page answers.**  With a connection that lasts for seven
    statements, `Pull` shows the rows between the cursor and the snapshot. -/
theorem page_reply (C : Collations) (W : Wire) (S : Source) (hs : Sequenced db)
    (hA : Acting db cmd id g m) (hc : Pulls cmd) (hu : ∃ u, db.user? cmd.actor = some u) {fuel : ℕ} (hf : 7 ≤ fuel) :
    ∃ r, step C W db (.execute cmd S false fuel) = some (db, [.replied cmd r]) ∧
      Page db cmd id (max cmd.after m.joinSeq)
        (if cmd.snapshot ≠ 0 then min cmd.snapshot g.lastSeq else g.lastSeq) r := by
  obtain ⟨u, hu⟩ := hu
  obtain ⟨n, rfl⟩ := Nat.exists_eq_add_of_le' hf
  obtain ⟨hd, -, hl, -⟩ := memberView_row db (groupRow g) id cmd.actor
  obtain ⟨hj, hjoin, hepoch⟩ := memberView_member hA.member hA.active hA.alive
  have h₀ : ({ errorCode := "0", groupID := cmd.groupID,
               epoch := (memberView db (groupRow g) id cmd.actor).epoch } : Reply).errorCode = "0" := rfl
  obtain ⟨r, hr, hp⟩ := pullMessages_run cmd hs hA.group hl hjoin h₀ (n + 1)
  have hrun : executeOnPool C W S cmd db ⟨(), n + 7⟩ = (.ok (r, db), ⟨(), n + 1⟩) := by
    rw [executeOnPool_read (Or.inl hc.operation) hc.actor hc.text hu]
    unfold groupCommand
    simp only [hA.number, hc.operation]
    rw [if_neg (by simp)]
    change (query (·.group? id) >>= foundGroup C S cmd u.nickname cmd.pageSize id
      { errorCode := "0", groupID := cmd.groupID }) db ⟨(), n + 6⟩ = _
    rw [run_bind (query_run _ db _), hA.group]
    unfold foundGroup
    dsimp only
    rw [run_bind (memberState_run hA.member hA.active hA.alive _),
      lockedCommand_pull hc.operation (hd.trans hA.alive) hj (by rw [hepoch]; exact hA.epoch)]
    exact hr
  refine ⟨r, ?_, hp⟩
  simp only [step, transaction_run hrun]
  rfl

/-- Messages are numbered from one. -/
theorem beyond_zero (db : GroupDb) (id after : ℕ) : beyond MessageRow.seq after (db.logTo id 0) = [] := by
  refine List.filter_eq_nil_iff.2 fun r hr => ?_
  have := (List.mem_filter.1 hr).2
  simp only [decide_eq_true_eq] at this ⊢
  omega

theorem filter_range' (a u n : ℕ) :
    (List.range' 1 n).filter (fun i => a < i && i ≤ u) = List.range' (a + 1) (min u n - a) := by
  induction n with
  | zero => simp
  | succ n ih =>
    rw [List.range'_1_concat, List.filter_append, ih]
    by_cases h : a < n + 1 ∧ n + 1 ≤ u
    · have hlen : min u (n + 1) - a = (min u n - a) + 1 := by omega
      rw [hlen, List.range'_1_concat]
      have hlast : 1 + n = a + 1 + (min u n - a) := by omega
      simp [hlast]
      omega
    · have hlen : min u (n + 1) - a = min u n - a := by omega
      rw [hlen]
      have hout : (decide (a < 1 + n) && decide (1 + n ≤ u)) = false := by
        simp only [Bool.and_eq_false_iff, decide_eq_false_iff_not]
        omega
      simp [hout]

/-- The numbers of the messages between a cursor and a snapshot. -/
theorem seqs_beyond (hs : Sequenced db) (hg : db.group? id = some g) {after upto : ℕ}
    (hu : upto ≤ g.lastSeq) :
    (beyond MessageRow.seq after (db.logTo id upto)).map MessageRow.seq
      = List.range' (after + 1) (upto - after) := by
  have hseqs : (db.log id).map MessageRow.seq = List.range' 1 g.lastSeq := hs.seqs _ (mem_heads hg)
  rw [beyond, GroupDb.logTo, List.filter_filter, ← min_eq_left hu, ← filter_range', ← hseqs,
    List.filter_map, min_eq_left hu]
  rfl

/-- What is up to a snapshot stays. -/
theorem logTo_grow (hs : Sequenced db) (hs' : Sequenced db') (hg : db.group? id = some g) {g' : GroupRow}
    (hg' : db'.group? id = some g') (hlog : db.log id <+: db'.log id) {upto : ℕ} (hu : upto ≤ g.lastSeq) :
    db'.logTo id upto = db.logTo id upto := by
  obtain ⟨t, ht⟩ := hlog
  have hseqs : (db.log id).map MessageRow.seq = List.range' 1 g.lastSeq := hs.seqs _ (mem_heads hg)
  have hseqs' : (db'.log id).map MessageRow.seq = List.range' 1 g'.lastSeq := hs'.seqs _ (mem_heads hg')
  -- the rows that came later are numbered past the head
  have hnew : ∀ r ∈ t, upto < r.seq := by
    intro r hr
    have hmem : r.seq ∈ ((db'.log id).map MessageRow.seq).drop g.lastSeq := by
      have hlen : g.lastSeq = ((db.log id).map MessageRow.seq).length := by rw [hseqs, List.length_range']
      rw [← ht, List.map_append, hlen, List.drop_left]
      exact List.mem_map_of_mem hr
    rw [hseqs', List.drop_range', List.mem_range'_1] at hmem
    omega
  have hnil : t.filter (fun r => r.seq ≤ upto) = [] := by
    simpa using hnew
  rw [GroupDb.logTo, ← ht, List.filter_append, hnil, List.append_nil]
  rfl

/-! ## All pages -/

/-- The command for the page after `r`. -/
def Command.follow (cmd : Command) (r : Reply) : Command :=
  { cmd with after := r.cursor, snapshot := r.snapshot }

/-- A client that follows the pages from `cmd` on: page `j` is read from the
    tables `db j` and leaves the tables `left j`, from which the service goes on. -/
structure Traversal (C : Collations) (W : Wire) (cmd : Command) (id e : ℕ) where
  db : ℕ → GroupDb
  left : ℕ → GroupDb
  source : ℕ → Source
  fuel : ℕ → ℕ
  request : ℕ → Command
  reply : ℕ → Reply
  first : request 0 = cmd
  page : ∀ j, step C W (db j) (.execute (request j) (source j) false (fuel j))
    = some (left j, [.replied (request j) (reply j)])
  /-- the connection does not fail -/
  lasts : ∀ j, 7 ≤ fuel j
  follow : ∀ j, (reply j).hasMore = true → request (j + 1) = (request j).follow (reply j)
  meanwhile : ∀ j, (reply j).hasMore = true → Meanwhile C W cmd.actor id e (left j) (db (j + 1))

namespace Traversal
variable (T : Traversal C W cmd id e)

/-- At page `j` the client reads on from the cursor of the pages before, up to
    the same snapshot. -/
structure At (seq upto : ℕ) (j : ℕ) : Prop where
  reading : Reading (T.db j) cmd.actor id e seq ((T.db 0).log id)
  request : ∃ after snapshot, T.request j = { cmd with after := after, snapshot := snapshot } ∧
    max after seq = cursors MessageRow.seq cmd.pageSize (max cmd.after seq) ((T.db 0).logTo id upto) j ∧
    ∀ g, (T.db j).group? id = some g → (if snapshot ≠ 0 then min snapshot g.lastSeq else g.lastSeq) = upto

theorem page_at {seq upto j : ℕ} (h : T.At seq upto j) (hg : (T.db 0).group? id = some g)
    (hs : Sequenced (T.db 0)) (hu : upto ≤ g.lastSeq) (hn : groupId cmd.groupID = .ok id)
    (he : cmd.epoch = 0 ∨ cmd.epoch = e) (hc : Pulls cmd) :
    T.left j = T.db j ∧
    Page (T.db 0) cmd id (cursors MessageRow.seq cmd.pageSize (max cmd.after seq) ((T.db 0).logTo id upto) j)
      upto (T.reply j) := by
  obtain ⟨⟨hsj, ⟨hu', ⟨gj, hgj, halive⟩, mj, hmj, hact, rfl⟩, hjoin, hlog⟩, a, s, hreq, hafter, hsnap⟩ := h
  have hA : Acting (T.db j) (T.request j) id gj mj := by
    rw [hreq]
    refine ⟨hn, hgj, halive, hmj, hact, he, ?_⟩
    intro ho
    change cmd.operation.ownerOnly = true at ho
    rw [hc.operation] at ho
    cases ho
  have hc' : Pulls (T.request j) := by
    rw [hreq]
    exact ⟨hc.operation, hc.actor, hc.text⟩
  obtain ⟨r, hstep, hp⟩ := page_reply C W (T.source j) hsj hA hc'
    (by rw [hreq]; exact hu') (T.lasts j)
  have heq := hstep.symm.trans (T.page j)
  simp only [Option.some.injEq, Prod.mk.injEq, List.cons.injEq, Event.replied.injEq, true_and,
    and_true] at heq
  obtain ⟨hleft, rfl⟩ := heq
  refine ⟨hleft.symm, ?_⟩
  rw [hreq] at hp
  dsimp only at hp
  rw [hjoin mj hmj, hafter, hsnap gj hgj] at hp
  have hrows := logTo_grow hs hsj hg hgj hlog hu
  exact ⟨hp.1, hp.2, by rw [hp.3, hrows]; rfl, by rw [hp.4, hrows]; rfl, by rw [hp.5, hrows]; rfl⟩

/-- **From page to page.** -/
theorem At.next {seq upto j : ℕ} (h : T.At seq upto j) (hg : (T.db 0).group? id = some g)
    (hs : Sequenced (T.db 0)) (hu : upto ≤ g.lastSeq) (hn : groupId cmd.groupID = .ok id)
    (he : cmd.epoch = 0 ∨ cmd.epoch = e) (hc : Pulls cmd) (hmore : (T.reply j).hasMore = true) :
    T.At seq upto (j + 1) := by
  obtain ⟨hleft, hp⟩ := T.page_at h hg hs hu hn he hc
  have hreading : Reading (T.db (j + 1)) cmd.actor id e seq ((T.db 0).log id) := by
    refine (T.meanwhile j hmore).keeps ?_
    rw [hleft]
    exact h.reading
  obtain ⟨-, a, s, hreq, hafter, -⟩ := h
  refine ⟨hreading, (T.reply j).cursor, (T.reply j).snapshot, ?_, ?_, ?_⟩
  · rw [T.follow j hmore, hreq]
    rfl
  · -- the cursor is past the start of the membership
    rw [hp.cursor, max_eq_left]
    · rfl
    · refine (le_max_right cmd.after seq).trans ?_
      exact start_le_cursors cmd.pageSize _ (j + 1)
  · intro g' hg'
    rw [hp.snapshot]
    have hpos : upto ≠ 0 := by
      rintro rfl
      rw [hp.hasMore, beyond_zero] at hmore
      simp at hmore
    have hle : g.lastSeq ≤ g'.lastSeq := by
      rw [← length_log hs hg, ← length_log hreading.sequenced hg']
      exact hreading.log.length_le
    rw [if_pos hpos, min_eq_left (hu.trans hle)]

/-- While there was more, the client reads on. -/
theorem at_of_more (hs : Sequenced (T.db 0)) (hA : Acting (T.db 0) cmd id g m) (he : m.epoch = e)
    (hc : Pulls cmd) (hu : ∃ u, (T.db 0).user? cmd.actor = some u) {upto : ℕ}
    (hupto : upto = if cmd.snapshot ≠ 0 then min cmd.snapshot g.lastSeq else g.lastSeq) :
    ∀ j, (∀ i < j, (T.reply i).hasMore = true) → T.At m.joinSeq upto j := by
  intro j
  induction j with
  | zero =>
    intro _
    refine ⟨⟨hs, ⟨hu, ⟨g, hA.group, hA.alive⟩, m, hA.member, hA.active, he⟩, ?_, List.prefix_rfl⟩,
      cmd.after, cmd.snapshot, T.first, rfl, ?_⟩
    · intro m' hm'
      rw [Option.some.inj (hm'.symm.trans hA.member)]
    · intro g' hg'
      rw [Option.some.inj (hg'.symm.trans hA.group), hupto]
  | succ j ih =>
    intro h
    have hle : upto ≤ g.lastSeq := by
      rw [hupto]
      split_ifs <;> simp
    exact (ih fun i hi => h i (by omega)).next T hA.group hs hle hA.number (he ▸ hA.epoch) hc
      (h j (by omega))

/-- A traversal along given tables. -/
def along (C : Collations) (W : Wire) (cmd : Command) (id e : ℕ) (hop : cmd.operation = .pull)
    (db : ℕ → GroupDb) (h : ∀ j, Meanwhile C W cmd.actor id e (db j) (db (j + 1))) :
    Traversal C W cmd id e :=
  let S : Source := ⟨0, "", 0⟩
  let reply (j : ℕ) (c : Command) : Reply := answer (transaction (executeOnPool C W S c) false (db j) () 7).1
  let request (j : ℕ) : Command := Nat.rec cmd (fun j c => c.follow (reply j c)) j
  { db := db
    left := db
    source := fun _ => S
    fuel := fun _ => 7
    request := request
    reply := fun j => reply j (request j)
    first := rfl
    page := by
      intro j
      have hpull : (request j).operation = .pull := by
        induction j with
        | zero => exact hop
        | succ j ih => exact ih
      have hstep : step C W (db j) (.execute (request j) S false 7)
        = some ((transaction (executeOnPool C W S (request j)) false (db j) () 7).2.1,
          [.replied (request j) (reply j (request j))]) := rfl
      rw [hstep, pull_same hstep hpull]
    lasts := fun _ => le_rfl
    follow := fun _ _ => rfl
    meanwhile := fun j _ => h j }

end Traversal

end

/-- **Reading a group page by page.**  A member pulls a group from a cursor and
    a snapshot on and follows the cursor and the snapshot of each reply while
    there is more.  Between the pages the service takes any steps, such as
    `Send`s of others, that leave the member in its epoch.  There is a last
    page, and the pages together show the messages after the cursor and
    `join_seq`, and up to the snapshot and the `last_seq` of the first page,
    each once and in order. -/
theorem pull_traversal (C : Collations) (W : Wire) (cmd : Command) (id : ℕ)
    (g : GroupRow) (m : MemberRow) (T : Traversal C W cmd id m.epoch) (hs : Sequenced (T.db 0))
    (hA : Acting (T.db 0) cmd id g m) (hc : Pulls cmd) (hu : ∃ u, (T.db 0).user? cmd.actor = some u) :
    let after := max cmd.after m.joinSeq
    let upto := if cmd.snapshot ≠ 0 then min cmd.snapshot g.lastSeq else g.lastSeq
    ∃ k, (∀ j < k, (T.reply j).hasMore = true) ∧ (T.reply k).hasMore = false ∧
      (∀ j ≤ k, (T.reply j).errorCode = "0") ∧
      (List.range (k + 1)).flatMap (fun j => (T.reply j).messages)
        = (((T.db 0).log id).filter fun r => after < r.seq && r.seq ≤ upto).map messageRow ∧
      ((List.range (k + 1)).flatMap fun j => (T.reply j).messages).map Message.seq
        = List.range' (after + 1) (upto - after) := by
  intro after upto
  have hupto : upto ≤ g.lastSeq := by
    dsimp only [upto]
    split_ifs <;> simp
  have hasc : Ascending MessageRow.seq ((T.db 0).logTo id upto) := (ascending_log hs hA.group).filter _
  have hpage : ∀ j, (∀ i < j, (T.reply i).hasMore = true) → Page (T.db 0) cmd id
      (cursors MessageRow.seq cmd.pageSize after ((T.db 0).logTo id upto) j) upto (T.reply j) := by
    intro j h
    have hat := T.at_of_more hs hA rfl hc hu rfl j h
    exact (T.page_at hat hA.group hs hupto hA.number hA.epoch hc).2
  generalize hrows : beyond MessageRow.seq after ((T.db 0).logTo id upto) = rows at *
  -- page `j` has more if the rows last for another one
  have hmore : ∀ j, (∀ i < j, (T.reply i).hasMore = true) →
      ((T.reply j).hasMore = true ↔ (j + 1) * cmd.pageSize < rows.length) := by
    intro j h
    rw [(hpage j h).hasMore, beyond_cursors hasc, hrows, List.length_drop, Nat.succ_mul]
    omega
  obtain ⟨k, hlast, hk⟩ := exists_last (n := cmd.pageSize) (le_max_left _ _) rows.length
  have hbefore : ∀ j ≤ k, ∀ i < j, (T.reply i).hasMore = true := by
    intro j
    induction j with
    | zero => exact fun _ i hi => absurd hi (by omega)
    | succ j ih =>
      intro hj i hi
      rcases Nat.lt_succ_iff_lt_or_eq.1 hi with hi | rfl
      · exact ih (by omega) i hi
      · exact (hmore i (ih (by omega))).2 (hk i (by omega))
  have hshown : (List.range (k + 1)).flatMap (fun j => (T.reply j).messages) = rows.map messageRow := by
    have hall : (List.range (k + 1)).flatMap (fun j => (T.reply j).messages)
        = ((List.range (k + 1)).flatMap fun j => (beyond MessageRow.seq (cursors MessageRow.seq
            cmd.pageSize after ((T.db 0).logTo id upto) j) ((T.db 0).logTo id upto)).take
            cmd.pageSize).map messageRow := by
      rw [List.map_flatMap]
      refine List.flatMap_congr fun j hj => ?_
      exact (hpage j (hbefore j (by have := List.mem_range.1 hj; omega))).messages
    rw [hall, flatMap_pages hasc, hrows, List.take_of_length_le hlast]
  refine ⟨k, hbefore k le_rfl, ?_, fun j hj => (hpage j (hbefore j hj)).errorCode, ?_, ?_⟩
  · by_contra hn
    have := (hmore k (hbefore k le_rfl)).1 (by simpa using hn)
    omega
  · rw [hshown, ← hrows, beyond, GroupDb.logTo, List.filter_filter]
  · rw [hshown, List.map_map, ← seqs_beyond hs hA.group hupto, hrows]
    rfl

/-! ### Two pages -/

/-- Accounts 7 and 8 are in group 1, where account 7 sent three messages; 8
    joined after the first. -/
def threeSent : GroupDb where
  users := [⟨7, "A"⟩, ⟨8, "B"⟩]
  groups := [{ id := 1, name := "g", owner := 7, memberCount := 2, lastSeq := 3 }]
  members := [{ group := 1, account := 7 },
    { group := 1, account := 8, joinSeq := 1, ackSeq := 1, readSeq := 1 }]
  messages := [⟨1, 1, "a", "1", 7, "A", "x", 0⟩, ⟨1, 2, "b", "2", 7, "A", "y", 0⟩,
    ⟨1, 3, "c", "3", 7, "A", "z", 0⟩]

/-- Account 8 reads pages of one message. -/
def pullOne : Command := { operation := .pull, actor := 8, groupID := "1", limit := 1 }

/-- Account 7 sends once more. -/
def oneMore : Action :=
  .execute { operation := .send, actor := 7, groupID := "1", text := "w", clientID := "4" } ⟨0, "d", 0⟩ false 20

/-- The tables of the pages: the message is sent after the first one. -/
noncomputable def oneMoreBetween : ℕ → GroupDb
  | 0 => threeSent
  | _ + 1 => Machine.runTo (step bytewise Wire.unary) threeSent (fun _ => oneMore) 1

theorem meanwhile_oneMore (j : ℕ) :
    Meanwhile bytewise Wire.unary 8 1 1 (oneMoreBetween j) (oneMoreBetween (j + 1)) := by
  cases j with
  | zero => exact .next (x := oneMore) .start rfl (Or.inl rfl)
  | succ j => exact .start

theorem sequenced_threeSent : Sequenced threeSent := by
  refine ⟨by decide, ?_, ?_⟩ <;> decide

theorem pull_traversal_oneMore :
    let T := Traversal.along bytewise Wire.unary pullOne 1 1 rfl oneMoreBetween meanwhile_oneMore
    ∃ k, (∀ j < k, (T.reply j).hasMore = true) ∧ (T.reply k).hasMore = false ∧
      (∀ j ≤ k, (T.reply j).errorCode = "0") ∧
      (List.range (k + 1)).flatMap (fun j => (T.reply j).messages)
        = (threeSent.messages.drop 1).map messageRow ∧
      ((List.range (k + 1)).flatMap fun j => (T.reply j).messages).map Message.seq = [2, 3] :=
  pull_traversal bytewise Wire.unary pullOne 1 (threeSent.groups.getD 0 ⟨0, "", 0, 0, false, 0⟩)
    { group := 1, account := 8, joinSeq := 1, ackSeq := 1, readSeq := 1 }
    (Traversal.along bytewise Wire.unary pullOne 1 1 rfl oneMoreBetween meanwhile_oneMore)
    sequenced_threeSent
    ⟨by decide +kernel, rfl, rfl, rfl, rfl, Or.inl rfl, fun h => by cases h⟩
    ⟨rfl, by decide, by decide⟩ ⟨⟨8, "B"⟩, rfl⟩

end ApeServer.Group
