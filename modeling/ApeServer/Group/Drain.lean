/-
  Delivering a backlog.

  The delivery worker goes through the pending groups of the accounts that are
  online, again and again, and a client acknowledges the last message of each
  notice.  Meanwhile others send.

  * `Quiet` are the steps between a notice, its `Ack` and the next notice;
  * `Drain.round`: what one round shows and acknowledges;
  * `delivery_drains`: the rounds show every message once, in order, and twenty
    of the backlog in each round.
-/
import ApeServer.Group.Rooms
import ApeServer.Group.Numbers

namespace ApeServer.Group

open Table Txn Paging

/-- The account reads a group that is small enough for its messages to be pushed. -/
structure Served (db : GroupDb) (a : Account) (id e : ℕ) : Prop where
  reader : Reader db a id e
  small : ∀ g, db.group? id = some g → g.memberCount ≤ 200

/-- An `Ack` of the account in the group. -/
def Action.ackOf (a : Account) (id : ℕ) : Action → Bool
  | execute cmd _ _ _ => cmd.operation = .ack && cmd.actor = a && (groupId cmd.groupID).toOption = some id
  | _ => false

/-- Steps that acknowledge nothing of the group for the account and leave it
    served. -/
inductive Quiet (C : Collations) (W : Wire) (a : Account) (id e : ℕ) (db : GroupDb) : GroupDb → Prop
  | start : Quiet C W a id e db db
  | next {s s' : GroupDb} {x : Action} {es : List Event} (h : Quiet C W a id e db s)
      (hs : step C W s x = some (s', es)) (hx : x.ackOf a id = false) (hserved : Served s' a id e) :
      Quiet C W a id e db s'

/-- A client acknowledges a message. -/
def ackCommand (a : Account) (id e seq : ℕ) : Command where
  operation := .ack
  actor := a
  groupID := Nat.repr id
  after := seq
  epoch := e

/-- Rounds of the delivery worker.  In round `j` the notice is pushed at the
    tables `db j`; its last message is acknowledged at `mid j`, if there is one. -/
structure Drain (C : Collations) (W : Wire) (a : Account) (id e : ℕ) where
  db : ℕ → GroupDb
  mid : ℕ → GroupDb
  left : ℕ → GroupDb
  notice : ℕ → Notice
  source : ℕ → Source
  fuel : ℕ → ℕ
  push : ∀ j, step C W (db j) (.deliver a (Nat.repr id)) = some (db j, [.noticed a (notice j)])
  pushed : ∀ j, Quiet C W a id e (db j) (mid j)
  ack : ∀ j msg, (notice j).messages.getLast? = some msg → ∃ r,
    step C W (mid j) (.execute (ackCommand a id e msg.seq) (source j) false (fuel j))
      = some (left j, [.replied (ackCommand a id e msg.seq) r])
  idle : ∀ j, (notice j).messages = [] → left j = mid j
  /-- the connection does not fail -/
  lasts : ∀ j, 7 ≤ fuel j
  meanwhile : ∀ j, Quiet C W a id e (left j) (db (j + 1))

section
variable {C : Collations} {W : Wire} {S : Source} {cmd : Command} {db db' : GroupDb}
  {a : Account} {id e upto : ℕ} {g : GroupRow} {m : MemberRow}

/-! ## Quiet steps -/

/-- Within an epoch only an `Ack` of the account in the group moves `ack_seq`. -/
theorem MemberChange.ackSeq {m' : MemberRow} (h : MemberChange db db' cmd id a (some m) (some m'))
    (he : m'.epoch = m.epoch) (hx : ¬ (cmd.operation = .ack ∧ cmd.actor = a ∧ groupId cmd.groupID = .ok id)) :
    m'.ackSeq = m.ackSeq := by
  cases h with
  | keep | leave | read => rfl
  | join _ _ _ _ _ _ _ _ hn => simp [GroupDb.rejoin, hn m rfl] at he
  | ack hA hop ha => exact absurd ⟨hop, ha.symm, hA.number⟩ hx

theorem step_ackSeq {x : Action} {es : List Event} {m' : MemberRow} (hs : step C W db x = some (db', es))
    (hm : db.member? id a = some m) (hm' : db'.member? id a = some m') (he : m'.epoch = m.epoch)
    (hx : x.ackOf a id = false) : m'.ackSeq = m.ackSeq := by
  change db.tables.member? id a = some m at hm
  change db'.tables.member? id a = some m' at hm'
  rcases step_effect hs with ht | ⟨cmd, S, lost, fuel, reply, rfl, heff⟩
  · rw [ht, hm] at hm'
    cases hm'
    rfl
  · have hc := heff.memberRow id a
    rw [hm, hm'] at hc
    refine hc.ackSeq he ?_
    rintro ⟨hop, ha, hid⟩
    simp [Action.ackOf, hop, ha, hid, Except.toOption] at hx

/-- What holds of the account between its `Ack`s: what it acknowledged, and that
    the group had the messages `log`. -/
structure Acked (db : GroupDb) (a : Account) (id e upto : ℕ) (log : List MessageRow) : Prop where
  sequenced : Sequenced db
  members : Members db
  served : Served db a id e
  acked : ∀ m, db.member? id a = some m → m.ackSeq = upto
  log : log <+: db.log id

/-- **What quiet steps leave.** -/
theorem Quiet.keeps {log : List MessageRow} (h : Quiet C W a id e db db') (hr : Acked db a id e upto log) :
    Acked db' a id e upto log := by
  induction h with
  | start => exact hr
  | @next s s' x es _ hs hx hserved ih =>
    refine ⟨ih.sequenced.step (step_log hs), step_members ih.sequenced ih.members hs, hserved, ?_,
      ih.log.trans ((step_log hs).rows_grow id)⟩
    intro m' hm'
    obtain ⟨m, hm, -, he⟩ := ih.served.reader.member
    obtain ⟨m'', hm'', -, he'⟩ := hserved.reader.member
    rw [hm''] at hm'
    cases hm'
    rw [step_ackSeq hs hm hm'' (he'.trans he.symm) hx, ih.acked m hm]

/-! ## An `Ack` -/

/-- `Ack` passes the first checks with one statement. -/
theorem executeOnPool_ack {u : UserRow} (hop : cmd.operation = .ack) (hactor : cmd.actor ≠ 0)
    (htext : cmd.text.utf8ByteSize ≤ 512) (hu : db.user? cmd.actor = some u) (n : ℕ) :
    executeOnPool C W S cmd db ⟨(), n + 1⟩ =
      groupCommand C S cmd u.nickname (max 1 (min cmd.limit 100))
        { errorCode := "0", groupID := cmd.groupID } db ⟨(), n⟩ := by
  unfold executeOnPool perform
  rw [if_pos (by simp [hop, Operation.mutation])]
  simp only [hop]
  rw [if_neg (by simp [hactor, Operation.recognized]), if_neg (by simpa using htext),
    run_bind (query_run _ db _), hu]
  rfl

/-- `Ack` of a member passes all checks. -/
theorem lockedCommand_ack {v : Info} {nickname : String} {limit : ℕ} {reply : Reply}
    (hop : cmd.operation = .ack) (hd : v.dismissed = false) (hj : v.joined = true)
    (he : cmd.epoch = 0 ∨ cmd.epoch = v.epoch) :
    lockedCommand C S cmd nickname limit id v reply
      = advance (fun seq m => { m with ackSeq := max m.ackSeq seq }) cmd id v reply := by
  unfold lockedCommand memberCommand
  rw [hop, if_neg (by simp), if_neg (by simp [hd]), if_neg (by simp), if_neg (by simp [hj]), if_neg,
    if_neg (by simp [Operation.ownerOnly])]
  rintro ⟨h₀, hne⟩
  exact he.elim h₀ hne

/-- **What an `Ack` does.**  With a connection that lasts for seven statements
    it raises `ack_seq`. -/
theorem ack_reply (C : Collations) (W : Wire) (S : Source) (hA : Acting db cmd id g m)
    (hop : cmd.operation = .ack) (hactor : cmd.actor ≠ 0) (htext : cmd.text.utf8ByteSize ≤ 512)
    (hu : ∃ u, db.user? cmd.actor = some u) (hle : cmd.after ≤ g.lastSeq) {fuel : ℕ} (hf : 7 ≤ fuel) :
    ∃ r, r.errorCode = "0" ∧ step C W db (.execute cmd S false fuel)
      = some (db.updateMember id cmd.actor fun x => { x with ackSeq := max x.ackSeq (max cmd.after m.joinSeq) },
        [.replied cmd r]) := by
  obtain ⟨u, hu⟩ := hu
  obtain ⟨n, rfl⟩ := Nat.exists_eq_add_of_le' hf
  obtain ⟨hd, -, hl, -⟩ := memberView_row db (groupRow g) id cmd.actor
  obtain ⟨hj, hjoin, hepoch⟩ := memberView_member hA.member hA.active hA.alive
  let reply : Reply := { errorCode := "0", groupID := cmd.groupID,
                         epoch := (memberView db (groupRow g) id cmd.actor).epoch }
  have hrun : executeOnPool C W S cmd db ⟨(), n + 7⟩ = (.ok (reply, db.updateMember id cmd.actor fun x =>
      { x with ackSeq := max x.ackSeq (max cmd.after m.joinSeq) }), ⟨(), n + 1⟩) := by
    rw [executeOnPool_ack hop hactor htext hu]
    unfold groupCommand
    simp only [hA.number, hop]
    rw [if_neg (by simp)]
    change (query (·.group? id) >>= foundGroup C S cmd u.nickname _ id
      { errorCode := "0", groupID := cmd.groupID }) db ⟨(), n + 6⟩ = _
    rw [run_bind (query_run _ db _), hA.group]
    unfold foundGroup
    dsimp only
    rw [run_bind (memberState_run hA.member hA.active hA.alive _),
      lockedCommand_ack hop (hd.trans hA.alive) hj (by rw [hepoch]; exact hA.epoch)]
    unfold advance
    rw [if_neg (by rw [hl]; exact Nat.not_lt.2 hle), hjoin]
    rfl
  refine ⟨reply, rfl, ?_⟩
  simp only [step, transaction_run hrun]
  rfl

/-- Nothing is acknowledged that is not there. -/
theorem Acked.le {log : List MessageRow} (h : Acked db a id e upto log) : upto ≤ (db.log id).length := by
  obtain ⟨g, hg, -⟩ := h.served.reader.group
  obtain ⟨m, hm, -⟩ := h.served.reader.member
  obtain ⟨n, hn, hw⟩ := h.members.within id a m hm
  rw [← h.acked m hm, length_log h.sequenced hg, h.sequenced.head_unique (mem_heads hg) hn]
  exact hw.ack

/-- An `Ack` of what is there. -/
theorem Acked.ack {log : List MessageRow} (h : Acked db a id e upto log) (hn : groupId (Nat.repr id) = .ok id)
    (ha : a ≠ 0) {seq : ℕ} (hlo : upto ≤ seq) (hhi : seq ≤ (db.log id).length) {fuel : ℕ} (hf : 7 ≤ fuel)
    {es : List Event} (hs : step C W db (.execute (ackCommand a id e seq) S false fuel) = some (db', es)) :
    Acked db' a id e seq log := by
  obtain ⟨⟨hu, ⟨g, hg, hd⟩, m, hm, hact, he⟩, hsmall⟩ := h.served
  have hA : Acting db (ackCommand a id e seq) id g m :=
    ⟨hn, hg, hd, hm, hact, Or.inr he.symm, fun ho => by cases ho⟩
  have htext : (ackCommand a id e seq).text.utf8ByteSize ≤ 512 := by simp [ackCommand]
  obtain ⟨r, -, hstep⟩ := ack_reply C W S hA rfl ha htext hu (length_log h.sequenced hg ▸ hhi) hf
  have hdb : db' = db.updateMember id a fun x => { x with ackSeq := max x.ackSeq (max seq m.joinSeq) } :=
    congrArg Prod.fst (Option.some.inj (hs.symm.trans hstep))
  obtain ⟨n, -, hw⟩ := h.members.within id a m hm
  have hacked := h.acked m hm
  have hm' : db'.member? id a = some { m with ackSeq := seq } := by
    have hmax : max m.ackSeq (max seq m.joinSeq) = seq := by
      have := hw.joinAck
      omega
    rw [hdb, member?_updateMember (f := fun x => { x with ackSeq := max x.ackSeq (max seq m.joinSeq) })
      fun x => ⟨rfl, rfl⟩, if_pos ⟨rfl, rfl⟩, hm, Option.map_some]
    exact congrArg (fun n => some { m with ackSeq := n }) hmax
  refine ⟨h.sequenced.step (step_log hs), step_members h.sequenced h.members hs, ⟨⟨?_, ?_, ?_⟩, ?_⟩, ?_, ?_⟩
  · rw [hdb]
    exact hu
  · rw [hdb]
    exact ⟨g, hg, hd⟩
  · exact ⟨_, hm', hact, he⟩
  · rw [hdb]
    exact hsmall
  · intro m'' hm''
    rw [hm'] at hm''
    cases hm''
    rfl
  · rw [hdb]
    exact h.log

/-! ## Rounds -/

/-- `WithGroupDelivery` pushes what `buildDelivery` made. -/
theorem deliver_step (hn : groupId (Nat.repr id) = .ok id) (hne : (buildDelivery db a id).groupID ≠ "") :
    step C W db (.deliver a (Nat.repr id)) = some (db, [.noticed a (buildDelivery db a id)]) := by
  simp only [step, hn]
  rw [if_neg hne]

/-- What is pushed to an account that is served. -/
theorem Acked.notice {log : List MessageRow} (h : Acked db a id e upto log) :
    (buildDelivery db a id).groupID = Nat.repr id ∧
      (buildDelivery db a id).messages = (((db.log id).drop upto).take 20).map messageRow := by
  obtain ⟨⟨-, ⟨g, hg, hd⟩, m, hm, hact, -⟩, hsmall⟩ := h.served
  rw [drop_log h.sequenced hg, ← h.acked m hm, ← orderLimit_log h.sequenced hg]
  unfold buildDelivery
  rw [hg, hm]
  simp [hact, hd, hsmall g hg]

/-- The number of the last message of a notice. -/
theorem Acked.last {log : List MessageRow} (h : Acked db a id e upto log) {msg : Message}
    (hmsg : (((((db.log id).drop upto).take 20).map messageRow).getLast?) = some msg) :
    msg.seq = upto + min 20 ((db.log id).length - upto) := by
  obtain ⟨g, hg, -⟩ := h.served.reader.group
  have hseqs : ((((db.log id).drop upto).take 20).map messageRow).map Message.seq
      = List.range' (upto + 1) (min 20 ((db.log id).length - upto)) := by
    rw [List.map_map]
    change (((db.log id).drop upto).take 20).map MessageRow.seq = _
    rw [drop_log h.sequenced hg, List.map_take, seqs_log h.sequenced hg, length_log h.sequenced hg]
    rcases Nat.le_total 20 (g.lastSeq - upto) with hle | hle
    · rw [List.take_range'_of_length_ge hle, min_eq_left hle]
    · rw [List.take_range'_of_length_le hle, min_eq_right hle]
  have hlast := congrArg List.getLast? hseqs
  rw [List.getLast?_map, hmsg, Option.map_some, List.getLast?_range'] at hlast
  split_ifs at hlast with h₀
  have := Option.some.inj hlast
  omega

/-- **A round.** -/
theorem Drain.round (D : Drain C W a id e) {j : ℕ} {log : List MessageRow}
    (h : Acked (D.db j) a id e upto log) (hn : groupId (Nat.repr id) = .ok id) (ha : a ≠ 0) :
    (D.notice j).messages = ((((D.db j).log id).drop upto).take 20).map messageRow ∧
      Acked (D.db (j + 1)) a id e (upto + min 20 (((D.db j).log id).length - upto)) ((D.db j).log id) := by
  obtain ⟨hid, hmsgs⟩ := h.notice
  have hne : (buildDelivery (D.db j) a id).groupID ≠ "" := by
    rw [hid]
    intro hempty
    rw [hempty] at hn
    cases hn
  have hnotice : D.notice j = buildDelivery (D.db j) a id := by
    have heq := (D.push j).symm.trans (deliver_step hn hne)
    simpa using heq
  rw [hnotice]
  refine ⟨hmsgs, (D.meanwhile j).keeps ?_⟩
  have hmid := (D.pushed j).keeps (⟨h.sequenced, h.members, h.served, h.acked, List.prefix_rfl⟩ :
    Acked (D.db j) a id e upto ((D.db j).log id))
  cases hlast : (buildDelivery (D.db j) a id).messages.getLast? with
  | none =>
    have hnil := List.getLast?_eq_none_iff.1 hlast
    rw [D.idle j (hnotice ▸ hnil)]
    rw [hmsgs] at hnil
    have hlen := congrArg List.length hnil
    simp only [List.length_map, List.length_take, List.length_drop, List.length_nil] at hlen
    rw [hlen, Nat.add_zero]
    exact hmid
  | some msg =>
    obtain ⟨r, hs⟩ := D.ack j msg (hnotice ▸ hlast)
    rw [hmsgs] at hlast
    rw [h.last hlast] at hs
    have hle := h.le
    have hgrow := hmid.log.length_le
    exact hmid.ack hn ha (Nat.le_add_right _ _) (by omega) (D.lasts j) hs

/-- The messages of the first `n` rounds. -/
def Drain.shown (D : Drain C W a id e) (n : ℕ) : List Message :=
  (List.range n).flatMap fun j => (D.notice j).messages

/-- A part of a log that is there stays, and the next part follows it. -/
theorem window_append {α : Type} {l l' : List α} (h : l <+: l') {n k : ℕ} (hle : n + k ≤ l.length) :
    (l.drop n).take k ++ (l.drop (n + k)).take 20 = (l'.drop n).take (k + min 20 (l.length - (n + k))) := by
  obtain ⟨t, rfl⟩ := h
  have hlen : k + min 20 (l.length - (n + k)) ≤ (l.drop n).length := by
    rw [List.length_drop]
    omega
  rw [List.drop_append_of_le_length (by omega), List.take_append_of_le_length hlen, List.take_add,
    List.drop_drop, ← List.length_drop, ← List.take_eq_take_min]

/-- **All rounds.** -/
theorem Drain.rounds (D : Drain C W a id e) (h : Acked (D.db 0) a id e upto ((D.db 0).log id))
    (hn : groupId (Nat.repr id) = .ok id) (ha : a ≠ 0) (n : ℕ) :
    ∃ k, Acked (D.db n) a id e (upto + k) ((D.db 0).log id) ∧
      D.shown n = ((((D.db n).log id).drop upto).take k).map messageRow ∧
      min (20 * n) (((D.db 0).log id).length - upto) ≤ k := by
  induction n with
  | zero => exact ⟨0, h, by simp [shown], by simp⟩
  | succ n ih =>
    obtain ⟨k, hacked, hshown, hk⟩ := ih
    obtain ⟨hmsgs, hnext⟩ := D.round hacked hn ha
    have hle := hacked.le
    refine ⟨k + min 20 (((D.db n).log id).length - (upto + k)), ?_, ?_, ?_⟩
    · rw [← Nat.add_assoc]
      exact ⟨hnext.sequenced, hnext.members, hnext.served, hnext.acked, hacked.log.trans hnext.log⟩
    · have hsucc : D.shown (n + 1) = D.shown n ++ (D.notice n).messages := by
        simp [shown, List.range_succ]
      rw [hsucc, hshown, hmsgs, ← List.map_append, window_append hnext.log hle]
    · have hgrow := hacked.log.length_le
      omega

end

/-- **A backlog is delivered.**  From a state of a run the delivery worker pushes
    an account that is in a small group, again and again, and the account
    acknowledges the last message of each notice.  Meanwhile the service takes
    any steps, other than an `Ack` of the account in the group, that leave the
    account in its epoch and the group small.  After `n` rounds the account was shown the messages after its `ack_seq` without a
    gap, each once and in order; it acknowledged these; they are all of the
    backlog of the start, or `20 n` of it; and the group is pending exactly when
    more was sent. -/
theorem delivery_drains (C : Collations) (W : Wire) (T : GroupTrace C W) {i : ℕ} (hi : i ≤ T.len)
    {a : Account} {id : ℕ} {g : GroupRow} {m : MemberRow} (D : Drain C W a id m.epoch)
    (hD : D.db 0 = T.state i) (hserved : Served (T.state i) a id m.epoch)
    (hg : (T.state i).group? id = some g) (hm : (T.state i).member? id a = some m) (ha : a ≠ 0)
    (hid : id ≠ 0) (hid' : id < 2 ^ 64) (n : ℕ) :
    ∃ k, D.shown n = ((((D.db n).log id).drop m.ackSeq).take k).map messageRow ∧
      (D.shown n).map Message.seq = List.range' (m.ackSeq + 1) k ∧
      min (20 * n) (g.lastSeq - m.ackSeq) ≤ k ∧
      (∃ m', (D.db n).member? id a = some m' ∧ m'.epoch = m.epoch ∧ m'.ackSeq = m.ackSeq + k) ∧
      (Nat.repr id ∈ pendingGroupsForDelivery (D.db n) a ↔ m.ackSeq + k < ((D.db n).log id).length) := by
  have h₀ : Acked (D.db 0) a id m.epoch m.ackSeq ((D.db 0).log id) := by
    rw [hD]
    refine ⟨sequenced_trace T hi, members_trace T hi, hserved, ?_, List.prefix_rfl⟩
    intro m' hm'
    rw [hm] at hm'
    cases hm'
    rfl
  obtain ⟨k, hacked, hshown, hk⟩ := D.rounds h₀ (groupId_repr hid hid') ha n
  obtain ⟨g', hg', hd'⟩ := hacked.served.reader.group
  obtain ⟨m', hm', hact, he⟩ := hacked.served.reader.member
  have hlen := length_log hacked.sequenced hg'
  have hack := hacked.acked m' hm'
  refine ⟨k, hshown, ?_, ?_, ⟨m', hm', he, hack⟩, ?_⟩
  · rw [hshown, List.map_map]
    change ((((D.db n).log id).drop m.ackSeq).take k).map MessageRow.seq = _
    have hle := hacked.le
    rw [drop_log hacked.sequenced hg', List.map_take, seqs_log hacked.sequenced hg',
      List.take_range'_of_length_ge (by omega)]
  · rw [hD, length_log (sequenced_trace T hi) hg] at hk
    exact hk
  · rw [mem_pendingGroups hacked.sequenced hacked.members, hlen, ← hack]
    constructor
    · rintro ⟨g'', m'', hg'', -, hm'', -, hlt⟩
      rw [hg'] at hg''
      rw [hm'] at hm''
      cases hg''
      cases hm''
      exact hlt
    · exact fun hlt => ⟨g', m', hg', hd', hm', hact, hlt⟩

/-! ### One message -/

/-- Account 2 has acknowledged the message of account 1. -/
noncomputable def ackedOne : GroupDb :=
  (pushRun.state 6).updateMember 7 2 fun x => { x with ackSeq := max x.ackSeq (max 1 0) }

/-- The tables of the rounds. -/
noncomputable def afterPush : ℕ → GroupDb
  | 0 => pushRun.state 6
  | _ + 1 => ackedOne

theorem acting_pushRun : ∃ g, Acting (pushRun.state 6) (ackCommand 2 7 1 1) 7 g { group := 7, account := 2 } ∧
    g.lastSeq = 1 := by
  refine ⟨{ id := 7, name := "g", owner := 1, memberCount := 2, lastSeq := 1 }, ⟨?_, ?_, rfl, ?_, rfl, ?_, ?_⟩, rfl⟩
  · decide +kernel
  · decide +kernel
  · decide +kernel
  · exact Or.inr rfl
  · exact fun h => by cases h

/-- The message is pushed in the first round. -/
noncomputable def drainOne : Drain bytewise Wire.unary 2 7 1 where
  db := afterPush
  mid := afterPush
  left _ := ackedOne
  notice j := buildDelivery (afterPush j) 2 7
  source _ := ⟨0, "", 0⟩
  fuel _ := 8
  push j := by
    have hone : (buildDelivery (pushRun.state 6) 2 7).groupID ≠ "" := by decide +kernel
    have hnone : (buildDelivery ackedOne 2 7).groupID ≠ "" := by decide +kernel
    refine deliver_step (by decide +kernel) ?_
    cases j with
    | zero => exact hone
    | succ j => exact hnone
  pushed j := .start
  ack j msg hmsg := by
    cases j with
    | zero =>
      have hseq : (buildDelivery (afterPush 0) 2 7).messages.getLast?.map Message.seq = some 1 := by
        decide +kernel
      rw [hmsg] at hseq
      rw [Option.some.inj hseq]
      obtain ⟨g, hA, hlast⟩ := acting_pushRun
      obtain ⟨r, -, hr⟩ := ack_reply bytewise Wire.unary ⟨0, "", 0⟩ hA rfl (by decide) (by simp [ackCommand])
        ⟨⟨2, "B"⟩, by decide +kernel⟩ (hlast ▸ le_rfl) (Nat.le_succ 7)
      exact ⟨r, hr⟩
    | succ j =>
      have hnone : (buildDelivery ackedOne 2 7).messages = [] := by decide +kernel
      change (buildDelivery ackedOne 2 7).messages.getLast? = _ at hmsg
      rw [hnone] at hmsg
      cases hmsg
  idle j hj := by
    cases j with
    | zero =>
      have hone : (buildDelivery (afterPush 0) 2 7).messages ≠ [] := by decide +kernel
      exact absurd hj hone
    | succ j => rfl
  lasts _ := Nat.le_succ 7
  meanwhile _ := .start

theorem delivery_drains_one :
    ∃ k, drainOne.shown 1 = (((ackedOne.log 7).drop 0).take k).map messageRow ∧
      (drainOne.shown 1).map Message.seq = List.range' (0 + 1) k ∧ min (20 * 1) (1 - 0) ≤ k ∧
      (∃ m', ackedOne.member? 7 2 = some m' ∧ m'.epoch = 1 ∧ m'.ackSeq = 0 + k) ∧
      (Nat.repr 7 ∈ pendingGroupsForDelivery ackedOne 2 ↔ 0 + k < (ackedOne.log 7).length) := by
  have hg : (pushRun.state 6).group? 7
      = some { id := 7, name := "g", owner := 1, memberCount := 2, lastSeq := 1 } := by decide +kernel
  have hm : (pushRun.state 6).member? 7 2 = some { group := 7, account := 2 } := by decide +kernel
  have hserved : Served (pushRun.state 6) 2 7 1 := by
    refine ⟨⟨⟨⟨2, "B"⟩, by decide +kernel⟩, ⟨_, hg, rfl⟩, _, hm, rfl, rfl⟩, fun g hg' => ?_⟩
    rw [hg] at hg'
    cases hg'
    decide
  have hi : 6 ≤ pushRun.len := show 6 ≤ 8 by decide
  have hD : drainOne.db 0 = pushRun.state 6 := rfl
  exact delivery_drains bytewise Wire.unary pushRun hi (m := { group := 7, account := 2 }) drainOne hD hserved
    hg hm (by decide) (by decide) (by decide) 1

end ApeServer.Group
