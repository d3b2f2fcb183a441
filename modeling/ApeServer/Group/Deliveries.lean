/-
  Delivery of group messages.

  A member of a small group is pushed the messages after its `ack_seq`, twenty
  at a time, and a member of a large one only the number of the last message,
  for which it pulls.  An `Ack` raises `ack_seq`, and no message up to it is
  pushed again.

  * `delivery_rows`: the messages of a notice, without a gap after `ack_seq`;
  * `Received` is what an account may acknowledge: a message that a notice
    showed it, or a `Pull` from a position it may acknowledge;
  * `group_delivery`: what an account acknowledged was delivered to it.
-/
import ApeServer.Group.Pages
import ApeServer.Group.History

namespace ApeServer.Group

open Table Txn Paging

/-- `PendingGroupsForDelivery`. -/
def pendingGroupsForDelivery (db : GroupDb) (actor : Account) : List String :=
  db.groups.flatMap fun g =>
    (db.members.filter fun m => m.group = g.id && m.account = actor && m.active && !g.dismissed &&
      m.ackSeq < g.lastSeq).map fun _ => Nat.repr g.id

section
variable {C : Collations} {W : Wire} {S : Source} {cmd : Command} {db db' : GroupDb} {id : ℕ}
  {a : Account} {g : GroupRow} {m : MemberRow} {r r' : MessageRow}

/-! ## What is pushed -/

/-- The row of a group. -/
theorem group_of_mem (hs : Sequenced db) (hg : g ∈ db.groups) : db.group? g.id = some g := by
  obtain ⟨g', hg'⟩ : ∃ g', db.group? g.id = some g' :=
    Option.isSome_iff_exists.1 (List.find?_isSome.2 ⟨g, hg, by simp⟩)
  have hkeys : (db.groups.map GroupRow.id).Nodup := by
    have := hs.keys
    rwa [GroupDb.heads, List.map_map] at this
  rw [hg', eq_of_key hkeys (List.mem_of_find?_eq_some hg') hg (by simpa using List.find?_some hg')]

/-- **The pending groups** are those with messages after `ack_seq`. -/
theorem mem_pendingGroups (hs : Sequenced db) (hk : Members db) :
    Nat.repr id ∈ pendingGroupsForDelivery db a ↔
      ∃ g m, db.group? id = some g ∧ g.dismissed = false ∧ db.member? id a = some m ∧
        m.active = true ∧ m.ackSeq < g.lastSeq := by
  simp only [pendingGroupsForDelivery, List.mem_flatMap, List.mem_map, List.mem_filter, Bool.and_eq_true,
    decide_eq_true_eq, Bool.not_eq_true', Nat.repr_inj]
  constructor
  · rintro ⟨g, hg, m, ⟨hm, ⟨⟨⟨hgroup, rfl⟩, hact⟩, hd⟩, hlt⟩, rfl⟩
    exact ⟨g, m, group_of_mem hs hg, hd, hgroup ▸ member_of_mem hk hm, hact, hlt⟩
  · rintro ⟨g, m, hg, hd, hm, hact, hlt⟩
    have hid : g.id = id := by simpa using List.find?_some hg
    have hkey : m.group = id ∧ m.account = a := by simpa using List.find?_some hm
    exact ⟨g, List.mem_of_find?_eq_some hg, m, ⟨List.mem_of_find?_eq_some hm,
      ⟨⟨⟨hkey.1.trans hid.symm, hkey.2⟩, hact⟩, hd⟩, hlt⟩, hid⟩

/-- The rows after a position, and their numbers. -/
theorem seqs_log (hs : Sequenced db) (hg : db.group? id = some g) (after : ℕ) :
    (beyond MessageRow.seq after (db.log id)).map MessageRow.seq
      = List.range' (after + 1) (g.lastSeq - after) := by
  have hall : db.logTo id g.lastSeq = db.log id := by
    refine List.filter_eq_self.2 fun r hr => ?_
    have hrow := List.mem_filter.1 hr
    have hid : r.group = id := of_decide_eq_true hrow.2
    exact decide_eq_true (hs.seq_le hrow.1 (hid ▸ mem_heads hg))
  rw [← hall]
  exact seqs_beyond hs hg le_rfl

/-- The first rows after a position. -/
theorem orderLimit_log (hs : Sequenced db) (hg : db.group? id = some g) (after n : ℕ) :
    orderLimit MessageRow.seq n (db.messages.filter fun r => r.group = id && after < r.seq)
      = (beyond MessageRow.seq after (db.log id)).take n := by
  have hrows : (db.messages.filter fun r => r.group = id && after < r.seq)
      = beyond MessageRow.seq after (db.log id) := by
    simp only [beyond, GroupDb.log, Log.rows, List.filter_filter]
    exact List.filter_congr fun r _ => Bool.and_comm _ _
  have hsorted : Ascending MessageRow.seq (beyond MessageRow.seq after (db.log id)) :=
    (ascending_log hs hg).filter _
  rw [orderLimit, hrows, List.Pairwise.insertionSort_eq]
  exact hsorted.imp Nat.le_of_lt

/-- **The messages of a notice.** -/
theorem delivery_rows (hs : Sequenced db) (hg : db.group? id = some g) (hd : g.dismissed = false)
    (hm : db.member? id a = some m) (hact : m.active = true) (hsmall : g.memberCount ≤ 200) {k : ℕ}
    (hk : k = min 20 (g.lastSeq - m.ackSeq)) :
    (buildDelivery db a id).messages
        = ((db.log id).filter fun r => m.ackSeq < r.seq && r.seq ≤ m.ackSeq + k).map messageRow ∧
      (buildDelivery db a id).messages.map Message.seq = List.range' (m.ackSeq + 1) k := by
  have hseqs := seqs_log hs hg m.ackSeq
  have hlen : (beyond MessageRow.seq m.ackSeq (db.log id)).length = g.lastSeq - m.ackSeq := by
    rw [← List.length_map (f := MessageRow.seq), hseqs, List.length_range']
  have htake : (beyond MessageRow.seq m.ackSeq (db.log id)).take 20
      = (beyond MessageRow.seq m.ackSeq (db.log id)).take k := by
    rw [hk, ← hlen, ← List.take_eq_take_min]
  have hmsgs : (buildDelivery db a id).messages
      = ((beyond MessageRow.seq m.ackSeq (db.log id)).take k).map messageRow := by
    rw [← htake, ← orderLimit_log hs hg]
    unfold buildDelivery
    rw [hg, hm]
    simp [hact, hd, hsmall]
  constructor
  · rw [hmsgs, Log.take_of_seqs hseqs, beyond, List.filter_filter]
    refine congrArg _ (List.filter_congr fun r _ => ?_)
    rw [Bool.and_comm]
  · rw [hmsgs, List.map_map]
    change ((beyond MessageRow.seq m.ackSeq (db.log id)).take k).map MessageRow.seq = _
    rw [List.map_take, hseqs, List.take_range'_of_length_ge (by omega)]

/-- A notice shows every row up to one that it shows. -/
theorem mem_delivery (hs : Sequenced db) {msg : Message} (hmsg : msg ∈ (buildDelivery db a id).messages) :
    ∃ g m, db.group? id = some g ∧ db.member? id a = some m ∧ msg.seq ≤ g.lastSeq ∧
      ∀ r ∈ db.log id, m.ackSeq < r.seq → r.seq ≤ msg.seq →
        messageRow r ∈ (buildDelivery db a id).messages := by
  obtain ⟨g, m, hg, hd, hm, hact, hsmall, -, -⟩ := buildDelivery_member hmsg
  have hrows := (delivery_rows hs hg hd hm hact hsmall rfl).1
  rw [hrows] at hmsg
  obtain ⟨r', hr', rfl⟩ := List.mem_map.1 hmsg
  obtain ⟨hlog, hr'⟩ := List.mem_filter.1 hr'
  simp only [Bool.and_eq_true, decide_eq_true_eq] at hr'
  have hlast : r'.seq ≤ g.lastSeq := by omega
  refine ⟨g, m, hg, hm, hlast, fun r hr hlo hhi => ?_⟩
  have hhi : r.seq ≤ r'.seq := hhi
  rw [hrows]
  refine List.mem_map_of_mem (List.mem_filter.2 ⟨hr, ?_⟩)
  simp only [Bool.and_eq_true, decide_eq_true_eq]
  omega

/-- A `Pull` shows every row after its cursor and up to one that it shows. -/
theorem mem_page (hs : Sequenced db) (hg : db.group? id = some g) {joinSeq : ℕ}
    (hr' : r' ∈ pulled db cmd id g.lastSeq joinSeq) (hr : r ∈ db.log id) (hafter : cmd.after < r.seq)
    (hjoin : joinSeq < r.seq) (hhi : r.seq ≤ r'.seq) : r ∈ pulled db cmd id g.lastSeq joinSeq := by
  have hupto : (if cmd.snapshot ≠ 0 then min cmd.snapshot g.lastSeq else g.lastSeq) ≤ g.lastSeq := by
    split_ifs <;> omega
  have hrows : pulled db cmd id g.lastSeq joinSeq
      = (beyond MessageRow.seq (max cmd.after joinSeq) (db.logTo id
          (if cmd.snapshot ≠ 0 then min cmd.snapshot g.lastSeq else g.lastSeq))).filter
        fun r => r.seq ≤ max cmd.after joinSeq + max 1 (min cmd.limit 50) := by
    rw [← Log.take_of_seqs (seqs_beyond hs hg hupto)]
    unfold pulled
    rw [pull_rows hs hg, List.take_take, min_eq_left (Nat.le_succ _)]
  rw [hrows] at hr' ⊢
  simp only [beyond, GroupDb.logTo, List.mem_filter, decide_eq_true_eq] at hr' ⊢
  refine ⟨⟨⟨hr, ?_⟩, ?_⟩, ?_⟩ <;> omega

/-! ## Memberships in a run -/

/-- A row from before, up to its head. -/
theorem row_before (T : GroupTrace C W) {j i : ℕ} (hji : j ≤ i) (hi : i ≤ T.len)
    (hr : r ∈ (T.state i).messages) (hg : (T.state j).group? r.group = some g) (hle : r.seq ≤ g.lastSeq) :
    r ∈ (T.state j).messages := by
  obtain ⟨n, hn, -⟩ := heads_le_trace T hji hi (mem_heads hg)
  obtain ⟨g', hg', -⟩ := group_of_head (sequenced_trace T hi) hn
  have hgrow := logTo_grow (sequenced_trace T (hji.trans hi)) (sequenced_trace T hi) hg hg'
    ((dense_sequence C W T).2.2 j i hji hi r.group) le_rfl
  have hmem : r ∈ (T.state i).logTo r.group g.lastSeq := by
    simp [GroupDb.logTo, GroupDb.log, Log.rows, hr, hle]
  rw [hgrow] at hmem
  exact (List.mem_filter.1 (List.mem_filter.1 hmem).1).1

/-- Within an epoch `join_seq` stays. -/
theorem joinSeq_trace (T : GroupTrace C W) {i j : ℕ} (hij : i ≤ j) (hj : j ≤ T.len) {m m' : MemberRow}
    (hm : (T.state i).member? id a = some m) (hm' : (T.state j).member? id a = some m')
    (he : m'.epoch = m.epoch) : m'.joinSeq = m.joinSeq := by
  induction j, hij using Nat.le_induction generalizing m' with
  | base =>
    rw [hm] at hm'
    cases hm'
    rfl
  | succ j hij ih =>
    obtain ⟨x, hx, hl⟩ := later_trace T hij (by omega) hm
    obtain ⟨y, hy, hl'⟩ := later_trace T (Nat.le_succ j) hj hx
    rw [hm'] at hy
    cases hy
    have h₁ := hl.epoch
    have h₂ := hl'.epoch
    rw [step_joinSeq (T.next j (by omega)) hx hm' (by omega), ih (by omega) hx (by omega)]

/-- Epochs start with one. -/
theorem MemberChange.epoch_pos {o : Option MemberRow} {m' : MemberRow}
    (h : MemberChange db db' cmd id a o (some m')) (ho : ∀ m, o = some m → m.epoch ≠ 0) :
    m'.epoch ≠ 0 := by
  cases h with
  | keep => exact ho m' rfl
  | found => exact Nat.one_ne_zero
  | join =>
    cases o with
    | none => exact Nat.one_ne_zero
    | some m =>
      have := ho m rfl
      change (if m.active then m.epoch else m.epoch + 1) ≠ 0
      split_ifs <;> omega
  | leave | ack | read =>
    have := ho _ rfl
    exact this

theorem epoch_pos_trace (T : GroupTrace C W) {i : ℕ} (hi : i ≤ T.len)
    (hm : (T.state i).member? id a = some m) : m.epoch ≠ 0 := by
  refine T.invariant (P := fun db => ∀ m, db.member? id a = some m → m.epoch ≠ 0) ?_ ?_ hi m hm
  · rintro m ⟨⟩
  · intro db x db' es h hs m' hm'
    change db'.tables.member? id a = some m' at hm'
    rcases step_effect hs with ht | ⟨cmd, S, lost, fuel, reply, -, he⟩
    · rw [ht] at hm'
      exact h m' hm'
    · have hc := he.memberRow id a
      rw [hm'] at hc
      exact hc.epoch_pos h

/-! ## What is received -/

/-- Before step `j` the account has a row of the epoch `e` in the group. -/
def InEpoch (T : GroupTrace C W) (a : Account) (id e j : ℕ) : Prop :=
  ∃ m, (T.state j).member? id a = some m ∧ m.epoch = e

/-- Step `j` shows the account messages in that epoch: those of a notice, or
    those of a page after a cursor. -/
inductive Shows (T : GroupTrace C W) (a : Account) (id e j : ℕ) : Option ℕ → List Message → Prop
  | notice {notice : Notice} (he : InEpoch T a id e j) (hn : .noticed a notice ∈ T.out j)
      (hid : notice.groupID = Nat.repr id) : Shows T a id e j none notice.messages
  | page {cmd : Command} {reply : Reply} (he : InEpoch T a id e j) (hr : .replied cmd reply ∈ T.out j)
      (hop : cmd.operation = .pull) (ha : cmd.actor = a) (hid : groupId cmd.groupID = .ok id) :
      Shows T a id e j (some cmd.after) reply.messages

/-- Before step `i` the account was shown the row, by a step of `got`, whose
    outputs arrive. -/
def Delivered (T : GroupTrace C W) (got : ℕ → Prop) (a : Account) (id e i : ℕ) (r : MessageRow) : Prop :=
  ∃ j < i, got j ∧ ∃ after msgs, Shows T a id e j after msgs ∧ messageRow r ∈ msgs

/-- What the account may acknowledge in the epoch `e` before step `i`: what it
    acknowledged, and the messages that arrived, on a page only if the account
    may acknowledge its cursor. -/
inductive Received (T : GroupTrace C W) (got : ℕ → Prop) (a : Account) (id e : ℕ) : ℕ → ℕ → Prop
  | acked {i j seq : ℕ} {m : MemberRow} (hj : j ≤ i) (hm : (T.state j).member? id a = some m)
      (he : m.epoch = e) (hseq : seq ≤ m.ackSeq) : Received T got a id e i seq
  | shown {i j seq : ℕ} {after : Option ℕ} {msgs : List Message} {msg : Message} (hj : j < i)
      (hgot : got j) (hs : Shows T a id e j after msgs)
      (hafter : ∀ start, after = some start → Received T got a id e j start) (hmsg : msg ∈ msgs)
      (hseq : seq ≤ msg.seq) : Received T got a id e i seq

/-- Every `Ack` of the account in the group carries an epoch in which it
    received what it acknowledges. -/
def AcksReceived (T : GroupTrace C W) (got : ℕ → Prop) (a : Account) (id : ℕ) : Prop :=
  ∀ i < T.len, ∀ cmd S lost fuel, T.act i = .execute cmd S lost fuel → cmd.operation = .ack →
    cmd.actor = a → groupId cmd.groupID = .ok id → Received T got a id cmd.epoch i cmd.after

variable {T : GroupTrace C W} {got : ℕ → Prop} {e i j seq : ℕ}

theorem Delivered.later (h : Delivered T got a id e j r) (hji : j ≤ i) : Delivered T got a id e i r := by
  obtain ⟨k, hk, hs⟩ := h
  exact ⟨k, hk.trans_le hji, hs⟩

theorem Shows.inEpoch {after : Option ℕ} {msgs : List Message} (h : Shows T a id e j after msgs) :
    InEpoch T a id e j := by
  cases h with
  | notice he => exact he
  | page he => exact he

/-- There is no epoch 0 to acknowledge in. -/
theorem Received.epoch (h : Received T got a id e i seq) (hi : i ≤ T.len) : e ≠ 0 := by
  cases h with
  | acked hj hm he => exact he ▸ epoch_pos_trace T (hj.trans hi) hm
  | shown hj _ hs =>
    obtain ⟨m, hm, he⟩ := hs.inEpoch
    exact he ▸ epoch_pos_trace T (hj.le.trans hi) hm

/-- **Messages are shown without a gap**: from the cursor of a page on, or from
    `ack_seq` on in a notice. -/
theorem Shows.dense {after : Option ℕ} {msgs : List Message} {msg : Message} (hj : j < T.len)
    (h : Shows T a id e j after msgs) (hmsg : msg ∈ msgs) :
    ∃ g m, (T.state j).group? id = some g ∧ (T.state j).member? id a = some m ∧ m.epoch = e ∧
      msg.seq ≤ g.lastSeq ∧ ∀ r ∈ (T.state j).log id, m.joinSeq < r.seq →
        after.getD m.ackSeq < r.seq → r.seq ≤ msg.seq → messageRow r ∈ msgs := by
  have hs := sequenced_trace T hj.le
  obtain ⟨x, hx, rfl⟩ := h.inEpoch
  cases h with
  | notice _ hn hid =>
    obtain ⟨id', rfl⟩ := noticed_cases (T.next j hj) hn
    obtain ⟨-, -, -, -, -, -, -, hid', -⟩ := buildDelivery_member hmsg
    obtain rfl := Nat.repr_inj.1 (hid'.symm.trans hid)
    obtain ⟨g, m, hg, hm, hle, hall⟩ := mem_delivery hs hmsg
    obtain rfl := Option.some.inj (hm.symm.trans hx)
    exact ⟨g, m, hg, hm, rfl, hle, fun r hr _ => hall r hr⟩
  | @page cmd reply _ hr hop ha hid =>
    obtain ⟨id', g, m, hA, hms⟩ := pulled_cases (T.next j hj) hr hop hmsg
    obtain rfl := Except.ok.inj (hA.number.symm.trans hid)
    obtain rfl := Option.some.inj ((ha ▸ hA.member).symm.trans hx)
    rw [hms] at hmsg ⊢
    obtain ⟨r', hr', rfl⟩ := List.mem_map.1 hmsg
    have hrow := mem_pulled hr'
    refine ⟨g, m, hA.group, hx, rfl, hs.seq_le hrow.1 (hrow.2.1 ▸ mem_heads hA.group), ?_⟩
    intro r hr hjoin hafter hhi
    exact List.mem_map_of_mem (mem_page hs hA.group hr' hr hafter hjoin hhi)

/-- The rows of an epoch up to `seq` are delivered. -/
def Covered (T : GroupTrace C W) (got : ℕ → Prop) (a : Account) (id i : ℕ) (m : MemberRow) (seq : ℕ) : Prop :=
  ∀ r ∈ (T.state i).messages, r.group = id → m.joinSeq < r.seq → r.seq ≤ seq →
    Delivered T got a id m.epoch i r

/-- **What was received is covered**, if what was acknowledged is. -/
theorem Received.covered (h : Received T got a id e i seq) (hi : i ≤ T.len)
    (hacked : ∀ j ≤ i, ∀ m, (T.state j).member? id a = some m → Covered T got a id j m m.ackSeq)
    (hm : (T.state i).member? id a = some m) (he : m.epoch = e) : Covered T got a id i m seq := by
  induction h generalizing m with
  | @acked i j seq m' hj hm' he' hseq =>
    intro r hr hid hjoin hhi
    obtain ⟨n, hn, hw⟩ := (members_trace T (hj.trans hi)).within id a m' hm'
    obtain ⟨g, hg, rfl⟩ := group_of_head (sequenced_trace T (hj.trans hi)) hn
    have hrow := row_before T hj hi hr (hid ▸ hg) (by have := hw.ack; omega)
    have hjoin' := joinSeq_trace T hj hi hm' hm (he.trans he'.symm)
    have hd := hacked j hj m' hm' r hrow hid (by omega) (by omega)
    rw [he', ← he] at hd
    exact hd.later hj
  | @shown i j seq after msgs msg hj hgot hs hafter hmsg hseq ih =>
    intro r hr hid hjoin hhi
    obtain ⟨g, m', hg, hm', he', hle, hall⟩ := hs.dense (hj.trans_le hi) hmsg
    have hrow := row_before T hj.le hi hr (hid ▸ hg) (by omega)
    have hjoin' := joinSeq_trace T hj.le hi hm' hm (he.trans he'.symm)
    by_cases hlo : after.getD m'.ackSeq < r.seq
    · refine ⟨j, hj, hgot, after, msgs, he ▸ hs, hall r ?_ (by omega) hlo (by omega)⟩
      exact List.mem_filter.2 ⟨hrow, by simpa using hid⟩
    · -- the row is before those of the step
      have hd : Delivered T got a id m'.epoch j r := by
        cases after with
        | none => exact hacked j hj.le m' hm' r hrow hid (by omega) (by simpa using hlo)
        | some start =>
          refine ih start rfl (by omega) (fun k hk => hacked k (by omega)) hm' he' r hrow hid (by omega) ?_
          simpa using hlo
      rw [he', ← he] at hd
      exact hd.later hj.le

/-- What an `Ack` is given covers what it acknowledges. -/
theorem covered_of_ack (hacks : AcksReceived T got a id) (hi : i < T.len) {lost : Bool} {fuel : ℕ}
    (hx : T.act i = .execute cmd S lost fuel) (hop : cmd.operation = .ack) (hA : Acting (T.state i) cmd id g m)
    (ha : cmd.actor = a)
    (hacked : ∀ j ≤ i, ∀ m, (T.state j).member? id a = some m → Covered T got a id j m m.ackSeq) :
    Covered T got a id i m cmd.after := by
  have h := hacks i hi cmd S lost fuel hx hop ha hA.number
  have he := hA.epoch.resolve_left (h.epoch hi.le)
  exact h.covered hi.le hacked (ha ▸ hA.member) he.symm

/-- **What is acknowledged** after a step was before, or the step is an `Ack` of
    it.  In any case the membership is the same. -/
theorem MemberChange.acked {o : Option MemberRow} {m' : MemberRow}
    (h : MemberChange db db' cmd id a o (some m')) (hlo : m'.joinSeq < seq) (hhi : seq ≤ m'.ackSeq) :
    ∃ m, o = some m ∧ m'.epoch = m.epoch ∧ m'.joinSeq = m.joinSeq ∧ (seq ≤ m.ackSeq ∨
      cmd.operation = .ack ∧ cmd.actor = a ∧ seq ≤ cmd.after ∧
        ∃ g, Acting db cmd id g m ∧ cmd.after ≤ g.lastSeq) := by
  cases h with
  | keep => exact ⟨m', rfl, rfl, rfl, Or.inl hhi⟩
  | found => exact absurd hlo (by simpa using hhi)
  | join _ _ _ _ _ _ _ _ hn =>
    -- a membership starts with nothing acknowledged
    exfalso
    cases o with
    | none => exact absurd hlo (by simpa using hhi)
    | some m =>
      simp only [GroupDb.rejoin, hn m rfl, Option.map_some, Option.getD_some] at hlo hhi
      exact absurd hlo (by simpa using hhi)
  | @leave g m x => exact ⟨x, rfl, rfl, rfl, Or.inl hhi⟩
  | @read g m => exact ⟨m, rfl, rfl, rfl, Or.inl hhi⟩
  | @ack g m hA hop ha hs =>
    have hlo : m.joinSeq < seq := hlo
    refine ⟨m, rfl, rfl, rfl, (le_max_iff.1 hhi).imp_right fun hmax => ?_⟩
    exact ⟨hop, ha.symm, by omega, g, hA, hs⟩

/-- The same for a step of the service. -/
theorem step_acked {x : Action} {es : List Event} {m' : MemberRow} (h : step C W db x = some (db', es))
    (hm' : db'.member? id a = some m') (hlo : m'.joinSeq < seq) (hhi : seq ≤ m'.ackSeq) :
    ∃ m, db.member? id a = some m ∧ m'.epoch = m.epoch ∧ m'.joinSeq = m.joinSeq ∧ (seq ≤ m.ackSeq ∨
      ∃ cmd S lost fuel g, x = .execute cmd S lost fuel ∧ cmd.operation = .ack ∧ cmd.actor = a ∧
        seq ≤ cmd.after ∧ Acting db cmd id g m ∧ cmd.after ≤ g.lastSeq) := by
  change db'.tables.member? id a = some m' at hm'
  rcases step_effect h with ht | ⟨cmd, S, lost, fuel, reply, rfl, he⟩
  · rw [ht] at hm'
    exact ⟨m', hm', rfl, rfl, Or.inl hhi⟩
  · have hc := he.memberRow id a
    rw [hm'] at hc
    obtain ⟨m, hm, hepoch, hjoin, hack⟩ := hc.acked hlo hhi
    refine ⟨m, hm, hepoch, hjoin, hack.imp_right ?_⟩
    rintro ⟨hop, ha, hle, g, hA, hs⟩
    exact ⟨cmd, S, lost, fuel, g, rfl, hop, ha, hle, ⟨hA.number, hA.group, hA.alive, hA.member,
      hA.active, hA.epoch, hA.owner⟩, hs⟩

/-- **What is acknowledged was delivered.** -/
theorem acked_covered (hacks : AcksReceived T got a id) (hi : i ≤ T.len)
    (hm : (T.state i).member? id a = some m) : Covered T got a id i m m.ackSeq := by
  induction i using Nat.strong_induction_on generalizing m with
  | _ i ih =>
    cases i with
    | zero =>
      rw [T.start] at hm
      cases hm
    | succ i =>
      intro r hr hid hlo hhi
      have hacked : ∀ j ≤ i, ∀ x, (T.state j).member? id a = some x → Covered T got a id j x x.ackSeq :=
        fun j hj x hx => ih j (by omega) (by omega) hx
      obtain ⟨x, hx, he, hjoin, hle | ⟨cmd, S, lost, fuel, g, hact, hop, ha, hle, hA, hs⟩⟩ :=
        step_acked (T.next i hi) hm hlo hhi
      · obtain ⟨n, hn, hw⟩ := (members_trace T (Nat.le_of_succ_le hi)).within id a x hx
        obtain ⟨g, hg, rfl⟩ := group_of_head (sequenced_trace T (Nat.le_of_succ_le hi)) hn
        have hrow := row_before T (Nat.le_succ i) hi hr (hid ▸ hg) (hle.trans hw.ack)
        have hd := hacked i le_rfl x hx r hrow hid (by omega) hle
        exact he ▸ hd.later (Nat.le_succ i)
      · have hrow := row_before T (Nat.le_succ i) hi hr (hid ▸ hA.group) (hle.trans hs)
        have hd := covered_of_ack hacks hi hact hop hA ha hacked r hrow hid (by omega) hle
        exact he ▸ hd.later (Nat.le_succ i)

end

/-- **Group delivery skips no message.**  In every run:

    * the notice of an active member of a live group with at most 200 members
      has the messages `ack_seq + 1, …, ack_seq + k`, where `k` is 20 or what
      there is up to `last_seq`;
    * `PendingGroupsForDelivery` lists the live groups with messages after the
      `ack_seq` of an active membership;
    * an account whose `Ack`s only acknowledge what it received in the epoch
      they carry, was shown every message after `join_seq` and up to `ack_seq`
      in this membership.  Of the outputs of the service those in `got` reach it. -/
theorem group_delivery (C : Collations) (W : Wire) (T : GroupTrace C W) :
    (∀ i ≤ T.len, ∀ id a g m, (T.state i).group? id = some g → g.dismissed = false →
      (T.state i).activeCount id ≤ 200 → (T.state i).member? id a = some m → m.active = true →
      ∀ k, k = min 20 (g.lastSeq - m.ackSeq) →
        (buildDelivery (T.state i) a id).messages = (((T.state i).log id).filter fun r =>
          m.ackSeq < r.seq && r.seq ≤ m.ackSeq + k).map messageRow ∧
        (buildDelivery (T.state i) a id).messages.map Message.seq = List.range' (m.ackSeq + 1) k) ∧
    (∀ i ≤ T.len, ∀ id a, Nat.repr id ∈ pendingGroupsForDelivery (T.state i) a ↔
      ∃ g m, (T.state i).group? id = some g ∧ g.dismissed = false ∧
        (T.state i).member? id a = some m ∧ m.active = true ∧ m.ackSeq < g.lastSeq) ∧
    (∀ got id a, AcksReceived T got a id → ∀ i ≤ T.len, ∀ m, (T.state i).member? id a = some m →
      ∀ r ∈ (T.state i).messages, r.group = id → m.joinSeq < r.seq → r.seq ≤ m.ackSeq →
        Delivered T got a id m.epoch i r) := by
  refine ⟨?_, ?_, ?_⟩
  · intro i hi id a g m hg hd hsmall hm hact k hk
    refine delivery_rows (sequenced_trace T hi) hg hd hm hact ?_ hk
    have hid : g.id = id := by simpa using List.find?_some hg
    rw [(members_trace T hi).count g (List.mem_of_find?_eq_some hg), hid]
    exact hsmall
  · exact fun i hi id a => mem_pendingGroups (sequenced_trace T hi) (members_trace T hi)
  · exact fun got id a hacks i hi m hm => acked_covered hacks hi hm

/-! ### A message that is acknowledged -/

/-- Account 2 joins the group of account 1, is pushed a message and
    acknowledges it. -/
def pushActions : List Action :=
  let run (cmd : Command) : Action := .execute cmd ⟨7, "u", 0⟩ false 20
  [.register ⟨1, "A"⟩, .register ⟨2, "B"⟩,
    run { operation := .create, actor := 1, text := "g", clientID := "1" },
    run { operation := .apply, actor := 2, groupID := "7", clientID := "1" },
    run { operation := .review, actor := 1, groupID := "7", applicationID := 1, accept := true,
          clientID := "2" },
    run { operation := .send, actor := 1, groupID := "7", text := "hi", clientID := "3" },
    .deliver 2 "7",
    run { operation := .ack, actor := 2, groupID := "7", after := 1, epoch := 1 }]

noncomputable def pushRun : GroupTrace bytewise Wire.unary :=
  Machine.Trace.ofActions _ _ (fun i => pushActions.getD i (.deliver 0 "")) 8 (by decide +kernel)

theorem pushRun_acks : AcksReceived pushRun (fun _ => True) 2 7 := by
  intro i hi cmd S lost fuel hx hop ha hid
  have hi : i < 8 := hi
  change pushActions.getD i (.deliver 0 "") = _ at hx
  interval_cases i <;> cases hx <;> try cases hop
  -- the message of the notice
  have hshows : Shows pushRun 2 7 1 6 none (buildDelivery (pushRun.state 6) 2 7).messages :=
    .notice ⟨{ group := 7, account := 2 }, by decide +kernel, rfl⟩ (by decide +kernel) (by decide +kernel)
  have hmsg : (⟨"u", "3", "7", 1, "A", "hi", 1, 0⟩ : Message)
      ∈ (buildDelivery (pushRun.state 6) 2 7).messages := by decide +kernel
  exact .shown (by decide) trivial hshows (by rintro _ ⟨⟩) hmsg le_rfl

theorem group_delivery_acked :
    ∃ m r, (pushRun.state 8).member? 7 2 = some m ∧ r ∈ (pushRun.state 8).messages ∧ r.text = "hi" ∧
      Delivered pushRun (fun _ => True) 2 7 m.epoch 8 r :=
  ⟨{ group := 7, account := 2, ackSeq := 1 }, ⟨7, 1, "u", "3", 1, "A", "hi", 0⟩, by decide +kernel,
    by decide +kernel, rfl, (group_delivery bytewise Wire.unary pushRun).2.2 _ 7 2 pushRun_acks 8 le_rfl _
      (by decide +kernel) _ (by decide +kernel) rfl (by decide) (by decide)⟩

end ApeServer.Group
