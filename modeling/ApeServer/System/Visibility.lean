/-
  The three gates in front of a message agree: `WithFriendMessage`,
  `FilterVisibleMessages` and `friendAllows`.

  The friend rows of a pair are counted by two of them and joined by the
  third, so the rows have to be unique (`friendKeys_trace`); the outbox row is
  the first one for one gate and any one for another, so server ids have to be
  unique too (`visible_eq_allowed`).  `FilterVisibleMessages` asks about a
  server id, not about a message: `visibility_gates` says for which lists that
  is the same.
-/
import ApeServer.System.Friendship

namespace ApeServer

open Table

/-! ## The friend rows of a pair -/

def FriendRow.key (r : FriendRow) : Account × Account := (r.owner, r.friend)

theorem nodup_insertFriend {id : ℕ} {a b : Account} {now : Int} {t : List FriendRow}
    (h : (t.map FriendRow.key).Nodup) : ((Db.insertFriend id a b now t).map FriendRow.key).Nodup := by
  refine nodup_insertNew h fun r _ he => ?_
  obtain ⟨rfl, rfl⟩ := Prod.mk.inj he
  simp

theorem FriendEffect.friendKeys {db db' : Db} {cmd : FriendCommand} {target : Account} {now : Int}
    {seq : ℕ} {drawn : Option ℕ} (h : FriendEffect db db' cmd target now seq drawn)
    (hk : (db.friends.map FriendRow.key).Nodup) : (db'.friends.map FriendRow.key).Nodup := by
  cases h with
  | none h => rwa [h.friends]
  | applied _ _ hf => rwa [hf]
  | handled _ _ _ _ _ hf =>
    rw [hf]
    split_ifs
    · exact nodup_insertFriend (nodup_insertFriend hk)
    · exact hk
  | removed h =>
    rw [h.friends]
    exact nodup_deleteWhere hk _

/-- `UNIQUE KEY relationship (owner_account, friend_account)`. -/
theorem friendKeys_trace {J : Codec} (T : SysTrace J) {i : ℕ} (hi : i ≤ T.len) :
    ((T.state i).db.friends.map FriendRow.key).Nodup := by
  refine T.invariant (P := fun w => (w.db.friends.map FriendRow.key).Nodup) (by simp [start]) ?_ hi
  intro w a w' es hk h
  rcases step_friend h with hs | ⟨j, now, seq, c, drawn, -, -, he⟩
  · rwa [hs.friends]
  · exact he.friendKeys hk

theorem mem_friendKeys (db : Db) (a b : Account) :
    (a, b) ∈ db.friends.map FriendRow.key ↔ db.Friend a b := by
  simp [Db.Friend, FriendRow.key]

theorem friendCount_keys {a b : Account} (hne : a ≠ b) (t : List FriendRow) :
    (t.filter fun r => (r.owner = a && r.friend = b) || (r.owner = b && r.friend = a)).length =
      (t.map FriendRow.key).count (a, b) + (t.map FriendRow.key).count (b, a) := by
  induction t with
  | nil => rfl
  | cons r t ih =>
    have hcases : ¬ (r.owner = a ∧ r.friend = b ∧ r.owner = b) := by
      rintro ⟨h, -, h'⟩
      exact hne (h.symm.trans h')
    simp only [List.filter_cons, List.map_cons, List.count_cons, FriendRow.key, beq_iff_eq, Prod.mk.injEq,
      Bool.or_eq_true, Bool.and_eq_true, decide_eq_true_eq]
    by_cases h : r.owner = a ∧ r.friend = b
    · have h' : ¬ (r.owner = b ∧ r.friend = a) := fun h' => hcases ⟨h.1, h.2, h'.1⟩
      rw [if_pos (.inl h), if_pos h, if_neg h', List.length_cons, ih]
      omega
    · by_cases h' : r.owner = b ∧ r.friend = a
      · rw [if_pos (.inr h'), if_neg h, if_pos h', List.length_cons, ih]
        omega
      · rw [if_neg (by tauto), if_neg h, if_neg h', ih, Nat.add_zero, Nat.add_zero]

/-- Two rows of a pair are one in each direction. -/
theorem friendCount_eq_two_iff {db : Db} (hk : (db.friends.map FriendRow.key).Nodup) {a b : Account}
    (hne : a ≠ b) : db.friendCount a b = 2 ↔ db.Friend a b ∧ db.Friend b a := by
  have h := friendCount_keys hne db.friends
  rw [List.Nodup.count hk, List.Nodup.count hk] at h
  have hab := mem_friendKeys db a b
  have hba := mem_friendKeys db b a
  rw [Db.friendCount, h]
  split_ifs with h₁ h₂ h₂ <;> simp [← hab, ← hba, h₁, h₂]

/-! ## One message -/

section
variable {J : Codec} {w : World}

/-- The outbox part of the gates: no row, or a staged one that is not
    cancelled. -/
def Db.OutboxAllows (db : Db) (serverId : String) : Prop :=
  ∀ r ∈ db.outbox, r.operation = 1 → r.serverId = serverId → r.stage = 1 ∧ r.state ≠ 3

theorem stage_eq_one (hI : Inv J w) {r : OutboxRow} (hr : r ∈ w.db.outbox) (ho : r.operation = 1) :
    1 ≤ r.stage ↔ r.stage = 1 := by
  cases hI.rows.row r hr with
  | message _ _ _ _ _ hlife => have := hlife.stage; omega
  | cleanup _ ho' => omega
  | ack ho' => omega

/-- `WithFriendMessage` looks at the first row of the server id. -/
theorem outboxByServerId_allows (hI : Inv J w) (serverId : String) :
    (∀ r, w.db.outboxByServerId? serverId = some r → 1 ≤ r.stage ∧ r.state ≠ 3) ↔
      w.db.OutboxAllows serverId := by
  unfold Db.outboxByServerId?
  constructor
  · intro h r hr ho hid
    cases hf : w.db.outbox.find? fun r => r.operation = 1 && r.serverId = serverId with
    | none =>
      have := List.find?_eq_none.1 hf r hr
      simp [ho, hid] at this
    | some r' =>
      have hp := List.find?_some hf
      simp only [Bool.and_eq_true, decide_eq_true_eq] at hp
      have hr' := List.mem_of_find?_eq_some hf
      obtain rfl := eq_of_serverId hI.ids hI.rows hr' hr hp.1 ho (hp.2.trans hid.symm)
      exact ⟨(stage_eq_one hI hr ho).1 (h r' hf).1, (h r' hf).2⟩
  · intro h r hf
    have hp := List.find?_some hf
    simp only [Bool.and_eq_true, decide_eq_true_eq] at hp
    obtain ⟨hs, hc⟩ := h r (List.mem_of_find?_eq_some hf) hp.1 hp.2
    exact ⟨hs.ge, hc⟩

/-- `FilterVisibleMessages` looks for a row that passes, or for the lack of
    any row. -/
theorem visible_outbox_allows (hI : Inv J w) {serverId : String} :
    ((w.db.outbox.filter fun r => r.operation = 1 && r.serverId = serverId).isEmpty ||
      w.db.outbox.any fun r => r.operation = 1 && r.serverId = serverId && r.stage = 1 &&
        r.state ≠ 3) = true ↔ w.db.OutboxAllows serverId := by
  simp only [Bool.or_eq_true, List.isEmpty_iff, List.filter_eq_nil_iff, List.any_eq_true, Bool.and_eq_true,
    decide_eq_true_eq, ne_eq, decide_not, Bool.not_eq_true', decide_eq_false_iff_not]
  constructor
  · rintro (h | ⟨r', hr', ⟨⟨ho', hid'⟩, hs⟩, hc⟩) r hr ho hid
    · exact absurd ⟨ho, hid⟩ (h r hr)
    · obtain rfl := eq_of_serverId hI.ids hI.rows hr' hr ho' ho (hid'.trans hid.symm)
      exact ⟨hs, hc⟩
  · intro h
    by_cases hex : ∃ r ∈ w.db.outbox, r.operation = 1 ∧ r.serverId = serverId
    · obtain ⟨r, hr, ho, hid⟩ := hex
      obtain ⟨hs, hc⟩ := h r hr ho hid
      exact .inr ⟨r, hr, ⟨⟨ho, hid⟩, hs⟩, hc⟩
    · exact .inl fun r hr hp => hex ⟨r, hr, hp⟩

/-- The message is one the gates are asked about: its number is a positive
    `int64`, and it has a server id. -/
structure Asked (m : MsgData) : Prop where
  pos : 0 < m.seq
  lt : m.seq < 2 ^ 63
  serverId : m.serverMsgID ≠ ""

/-- What the gates decide. -/
structure Db.Allows (db : Db) (m : MsgData) : Prop where
  friends : db.friendAllows m.sendID m.recvID m.seq = true
  outbox : db.OutboxAllows m.serverMsgID

theorem friendMessageAllowed_eq (hI : Inv J w) {m : MsgData} (hm : Asked m) :
    w.db.friendMessageAllowed m false = true ↔ w.db.Allows m := by
  have hseq : ∀ d : ℕ, d < asUint64 m.seq ↔ (d : Int) < m.seq := fun d => by
    have := asUint64_of_bounds hm.pos.le hm.lt
    omega
  have hout := outboxByServerId_allows hI m.serverMsgID
  simp only [friendMessageAllowed_iff, hseq, hm.serverId, false_or, Bool.false_eq_true, false_implies,
    and_true, hout]
  constructor
  · rintro ⟨hne, hc, ha, ho⟩
    exact ⟨friendAllows_iff.2 ⟨hne, hc, ha⟩, ho⟩
  · rintro ⟨hf, ho⟩
    obtain ⟨hne, hc, ha⟩ := friendAllows_iff.1 hf
    exact ⟨hne, hc, ha, ho⟩

/-- The decision of `FilterVisibleMessages` for one message, in parts. -/
theorem visible_iff {db : Db} {m : MsgData} :
    db.visible m = true ↔ (db.Friend m.sendID m.recvID ∧ db.Friend m.recvID m.sendID) ∧
      db.Above m.sendID m.recvID m.seq ∧
      ((db.outbox.filter fun r => r.operation = 1 && r.serverId = m.serverMsgID).isEmpty ||
        db.outbox.any fun r => r.operation = 1 && r.serverId = m.serverMsgID && r.stage = 1 &&
          r.state ≠ 3) = true := by
  unfold Db.visible Db.Friend Db.Above
  cases db.deletedSeq? m.sendID m.recvID <;> simp [and_assoc]

theorem visible_eq (hI : Inv J w) (hk : (w.db.friends.map FriendRow.key).Nodup) {m : MsgData} :
    w.db.visible m = true ↔ w.db.Allows m := by
  rw [visible_iff, visible_outbox_allows hI]
  constructor
  · rintro ⟨⟨h, h'⟩, ha, ho⟩
    have hne := hI.friends.apart _ _ h
    exact ⟨friendAllows_iff.2 ⟨hne, (friendCount_eq_two_iff hk hne).2 ⟨h, h'⟩, ha⟩, ho⟩
  · rintro ⟨hf, ho⟩
    obtain ⟨hne, hc, ha⟩ := friendAllows_iff.1 hf
    exact ⟨(friendCount_eq_two_iff hk hne).1 hc, ha, ho⟩

/-- **The join and the count agree** on every message. -/
theorem visible_eq_allowed (hI : Inv J w) (hk : (w.db.friends.map FriendRow.key).Nodup) {m : MsgData}
    (hm : Asked m) : w.db.visible m = w.db.friendMessageAllowed m false := by
  rw [Bool.eq_iff_iff, visible_eq hI hk, friendMessageAllowed_eq hI hm]

/-! ## Both directions of a pair -/

/-- The message with sender and recipient exchanged. -/
def MsgData.swapEnds (m : MsgData) : MsgData := { m with sendID := m.recvID, recvID := m.sendID }

theorem friendAllows_symm (hI : Inv J w) (hk : (w.db.friends.map FriendRow.key).Nodup) (a b : Account)
    (seq : Int) : w.db.friendAllows a b seq = w.db.friendAllows b a seq := by
  rw [Bool.eq_iff_iff, friendAllows_iff, friendAllows_iff]
  constructor
  · rintro ⟨hne, hc, ha⟩
    obtain ⟨h, h'⟩ := (friendCount_eq_two_iff hk hne).1 hc
    exact ⟨hne.symm, (friendCount_eq_two_iff hk hne.symm).2 ⟨h', h⟩, Above.symm hI.friends ha⟩
  · rintro ⟨hne, hc, ha⟩
    obtain ⟨h, h'⟩ := (friendCount_eq_two_iff hk hne).1 hc
    exact ⟨hne.symm, (friendCount_eq_two_iff hk hne.symm).2 ⟨h', h⟩, Above.symm hI.friends ha⟩

theorem Db.Allows.swapEnds (hI : Inv J w) (hk : (w.db.friends.map FriendRow.key).Nodup) {m : MsgData} :
    w.db.Allows m.swapEnds ↔ w.db.Allows m := by
  have hf := friendAllows_symm hI hk m.sendID m.recvID m.seq
  constructor
  · rintro ⟨h, ho⟩
    exact ⟨hf.trans h, ho⟩
  · rintro ⟨h, ho⟩
    exact ⟨hf.symm.trans h, ho⟩

/-! ## Lists -/

/-- `FilterVisibleMessages` keeps a message if its id is that of a visible one. -/
theorem mem_filterVisibleMessages {db : Db} {ms : List MsgData} {m : MsgData} :
    m ∈ db.filterVisibleMessages ms ↔
      m ∈ ms ∧ ∃ m' ∈ ms, db.visible m' = true ∧ m'.serverMsgID = m.serverMsgID := by
  simp only [Db.filterVisibleMessages, List.mem_filter, List.mem_map, decide_eq_true_eq, and_assoc]

theorem filterVisibleMessages_swapEnds (hI : Inv J w) (hk : (w.db.friends.map FriendRow.key).Nodup)
    (ms : List MsgData) :
    w.db.filterVisibleMessages (ms.map MsgData.swapEnds) =
      (w.db.filterVisibleMessages ms).map MsgData.swapEnds := by
  have hids : ((ms.map MsgData.swapEnds).filter w.db.visible).map (·.serverMsgID) =
      (ms.filter w.db.visible).map (·.serverMsgID) := by
    rw [List.filter_map, List.map_map]
    refine congrArg _ (List.filter_congr fun m _ => ?_)
    rw [Function.comp_apply, Bool.eq_iff_iff, visible_eq hI hk, visible_eq hI hk]
    exact Db.Allows.swapEnds hI hk
  unfold Db.filterVisibleMessages
  rw [hids, List.filter_map]
  rfl

/-- Filtering asks `WithFriendMessage` about every message of the same id. -/
theorem filterVisibleMessages_eq (hI : Inv J w) (hk : (w.db.friends.map FriendRow.key).Nodup)
    {ms : List MsgData} (hms : ∀ m ∈ ms, Asked m) :
    w.db.filterVisibleMessages ms = ms.filter fun m =>
      ms.any fun m' => m'.serverMsgID = m.serverMsgID && w.db.friendMessageAllowed m' false := by
  refine List.filter_congr fun m _ => ?_
  rw [Bool.eq_iff_iff, decide_eq_true_iff, List.mem_map, List.any_eq_true]
  constructor
  · rintro ⟨m', hm', he⟩
    obtain ⟨hm', hv⟩ := List.mem_filter.1 hm'
    rw [visible_eq_allowed hI hk (hms m' hm')] at hv
    exact ⟨m', hm', by simp [he, hv]⟩
  · rintro ⟨m', hm', he⟩
    simp only [Bool.and_eq_true, decide_eq_true_eq] at he
    rw [← visible_eq_allowed hI hk (hms m' hm')] at he
    exact ⟨m', List.mem_filter.2 ⟨hm', he.2⟩, he.1⟩

/-- Messages with one server id have the same ends and number. -/
def SameByServerId (ms : List MsgData) : Prop :=
  ∀ m ∈ ms, ∀ m' ∈ ms, m.serverMsgID = m'.serverMsgID →
    m.sendID = m'.sendID ∧ m.recvID = m'.recvID ∧ m.seq = m'.seq

theorem filterVisibleMessages_of_same (hI : Inv J w) (hk : (w.db.friends.map FriendRow.key).Nodup)
    {ms : List MsgData} (hms : ∀ m ∈ ms, Asked m) (hsame : SameByServerId ms) :
    w.db.filterVisibleMessages ms = ms.filter fun m => w.db.friendMessageAllowed m false := by
  rw [filterVisibleMessages_eq hI hk hms]
  refine List.filter_congr fun m hm => ?_
  rw [Bool.eq_iff_iff, List.any_eq_true]
  constructor
  · rintro ⟨m', hm', he⟩
    simp only [Bool.and_eq_true, decide_eq_true_eq] at he
    obtain ⟨hs, hr, hq⟩ := hsame m' hm' m hm he.1
    obtain ⟨hf, ho⟩ := (friendMessageAllowed_eq hI (hms m' hm')).1 he.2
    rw [hs, hr, hq] at hf
    rw [he.1] at ho
    exact (friendMessageAllowed_eq hI (hms m hm)).2 ⟨hf, ho⟩
  · intro ha
    exact ⟨m, hm, by simp [ha]⟩

/-- A staged row that is not cancelled leaves the decision to `friendAllows`. -/
theorem outboxAllows_of_staged (hI : Inv J w) {r : OutboxRow} (hr : r ∈ w.db.outbox)
    (ho : r.operation = 1) (hs : r.stage = 1) (hc : r.state ≠ 3) : w.db.OutboxAllows r.serverId := by
  intro r' hr' ho' hid'
  obtain rfl := eq_of_serverId hI.ids hI.rows hr' hr ho' ho hid'
  exact ⟨hs, hc⟩

end

/-- **The visibility gates agree** in every reachable state, on every list of
    messages with a server id: `FilterVisibleMessages` keeps those whose id
    belongs to a message that `WithFriendMessage` admits, which are the
    admitted ones if messages with one id have the same ends and number.  Runs
    draw increasing ids (`SysTrace`). -/
theorem visibility_gates {J : Codec} (T : SysTrace J) {i : ℕ} (hi : i ≤ T.len) (ms : List MsgData)
    (hms : ∀ m ∈ ms, Asked m) :
    (T.state i).db.filterVisibleMessages ms = ms.filter (fun m =>
      ms.any fun m' => m'.serverMsgID = m.serverMsgID && (T.state i).db.friendMessageAllowed m' false) ∧
    (SameByServerId ms → (T.state i).db.filterVisibleMessages ms =
      ms.filter fun m => (T.state i).db.friendMessageAllowed m false) ∧
    (∀ m ∈ ms, (∃ r ∈ (T.state i).db.outbox, r.operation = 1 ∧ r.serverId = m.serverMsgID ∧ r.stage = 1 ∧
        r.state ≠ 3) →
      (T.state i).db.friendMessageAllowed m false = (T.state i).db.friendAllows m.sendID m.recvID m.seq ∧
      (m ∈ (T.state i).db.filterVisibleMessages ms ↔ ∃ m' ∈ ms, m'.serverMsgID = m.serverMsgID ∧
        (T.state i).db.friendAllows m'.sendID m'.recvID m'.seq = true)) ∧
    (∀ m ∈ ms, (T.state i).db.friendMessageAllowed m.swapEnds false =
      (T.state i).db.friendMessageAllowed m false) ∧
    (∀ a b seq, (T.state i).db.friendAllows a b seq = (T.state i).db.friendAllows b a seq) ∧
    (T.state i).db.filterVisibleMessages (ms.map MsgData.swapEnds) =
      ((T.state i).db.filterVisibleMessages ms).map MsgData.swapEnds := by
  have hI := inv_trace T hi
  have hk := friendKeys_trace T hi
  refine ⟨filterVisibleMessages_eq hI hk hms, filterVisibleMessages_of_same hI hk hms, ?_, fun m hm => ?_,
    friendAllows_symm hI hk, filterVisibleMessages_swapEnds hI hk ms⟩
  · rintro m hm ⟨r, hr, ho, hid, hs, hc⟩
    have hout := outboxAllows_of_staged hI hr ho hs hc
    rw [hid] at hout
    constructor
    · rw [Bool.eq_iff_iff, friendMessageAllowed_eq hI (hms m hm)]
      exact ⟨fun h => h.friends, fun h => ⟨h, hout⟩⟩
    · rw [mem_filterVisibleMessages]
      constructor
      · rintro ⟨-, m', hm', hv, he⟩
        exact ⟨m', hm', he, ((visible_eq hI hk).1 hv).friends⟩
      · rintro ⟨m', hm', he, hf⟩
        exact ⟨hm, m', hm', (visible_eq hI hk).2 ⟨hf, by rwa [he]⟩, he⟩
  · have hswap : Asked m.swapEnds := ⟨(hms m hm).pos, (hms m hm).lt, (hms m hm).serverId⟩
    rw [Bool.eq_iff_iff, friendMessageAllowed_eq hI (hms m hm), friendMessageAllowed_eq hI hswap]
    exact Db.Allows.swapEnds hI hk

/-- Accounts 1 and 2 are friends. -/
def befriendRun : SysTrace (helloCodec 0) :=
  sampleRun (helloCodec 0) befriendActions (by decide +kernel)

/-- A message to account 3, which is no friend of account 1, is left out. -/
theorem befriendRun_gates :
    (befriendRun.state 6).db.filterVisibleMessages
        [helloStamped 0, { helloStamped 0 with recvID := 3, serverMsgID := "2c9d7f10" }] =
      [helloStamped 0, { helloStamped 0 with recvID := 3, serverMsgID := "2c9d7f10" }].filter fun m =>
        (befriendRun.state 6).db.friendMessageAllowed m false := by
  refine (visibility_gates befriendRun (by decide) _ ?_).2.1 ?_
  · intro m hm
    rcases List.mem_pair.1 hm with rfl | rfl <;> exact ⟨by decide, by decide, by decide⟩
  · intro m hm m' hm' he
    rcases List.mem_pair.1 hm with rfl | rfl <;> rcases List.mem_pair.1 hm' with rfl | rfl
    · exact ⟨rfl, rfl, rfl⟩
    · exact absurd he (by decide)
    · exact absurd he (by decide)
    · exact ⟨rfl, rfl, rfl⟩

/-- A message to account 3, which is no friend of account 1, is kept in a list
    with one to account 2 of the same server id. -/
theorem shared_serverId_kept :
    ¬ ∀ (J : Codec) (T : SysTrace J) (i : ℕ), i ≤ T.len →
      (∀ r ∈ (T.state i).db.outbox, ∀ r' ∈ (T.state i).db.outbox, r.operation = 1 → r'.operation = 1 →
        r.serverId = r'.serverId → r = r') →
      ∀ ms : List MsgData, (∀ m ∈ ms, Asked m) → (T.state i).db.filterVisibleMessages ms =
        ms.filter fun m => (T.state i).db.friendMessageAllowed m false := by
  intro h
  have hout : (befriendRun.state 6).db.outbox = [] := by decide +kernel
  have := h (helloCodec 0) befriendRun 6 (by decide) (by simp [hout])
    [helloStamped 0, { helloStamped 0 with recvID := 3 }] (by
      intro m hm
      rcases List.mem_pair.1 hm with rfl | rfl <;> exact ⟨by decide, by decide, by decide⟩)
  exact absurd this (by decide +kernel)

end ApeServer
