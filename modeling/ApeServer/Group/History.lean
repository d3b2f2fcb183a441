/-
  Who sees which messages of a group.

  A membership starts at the `last_seq` of its group: `join_seq` is that number
  until the member is removed, and `ack_seq` is never below it.  `Pull` and
  `buildDelivery` only show rows after these two positions.

  * `step_member`: an active member was one before, with the same `join_seq`, or
    has the current `last_seq` of the group as its `join_seq`;
  * `step_message`: a new message is that of a `Send`;
  * `history_isolation`: what is shown to an account was sent while it was a
    member, and it has been one since.
-/
import ApeServer.Group.Membership

namespace ApeServer.Group

open Table Txn

/-! ## Memberships -/

/-- The account is an active member of the group, which it joined at `seq`. -/
def MemberSince (db : GroupDb) (id : ℕ) (a : Account) (seq : ℕ) : Prop :=
  ∃ m, db.member? id a = some m ∧ m.active = true ∧ m.joinSeq = seq

section
variable {C : Collations} {W : Wire} {S : Source} {cmd : Command} {db db' : GroupDb}
  {reply : Reply} {id seq : ℕ} {a : Account} {r : MessageRow}

theorem MemberSince.active (h : MemberSince db id a seq) : ActiveMember db id a := by
  obtain ⟨m, hm, hact, -⟩ := h
  exact ⟨m, hm, hact⟩

/-- **Memberships start at the head of their group.** -/
theorem Effect.member (h : Effect S cmd db reply db') (hm : MemberSince db' id a seq) :
    MemberSince db id a seq ∨ (id, seq) ∈ db'.heads := by
  obtain ⟨m', hm', hact, hseq⟩ := hm
  have hc := h.memberRow id a
  rw [hm'] at hc
  generalize ho : db.member? id a = o at hc
  cases hc with
  | keep => exact Or.inl ⟨m', ho, hact, hseq⟩
  | found _ _ _ hh => exact Or.inr (hseq ▸ hh)
  | join _ _ _ _ _ _ _ _ hn hh =>
    cases o with
    | none => exact Or.inr (hseq ▸ hh)
    | some m =>
      -- the row was not active, so the position is that of now
      rw [← hseq]
      simpa [GroupDb.rejoin, hn m rfl] using Or.inr hh
  | leave => cases hact
  | ack => exact Or.inl ⟨_, ho, hact, hseq⟩
  | read => exact Or.inl ⟨_, ho, hact, hseq⟩

/-- A new message is that of a `Send`. -/
theorem Effect.message (h : Effect S cmd db reply db') (hn : r ∉ db.messages) (hr : r ∈ db'.messages) :
    cmd.operation = .send ∧ db'.messages = db.messages ++ [r] := by
  cases h with
  | same | pull | create | apply | accept | reject | rename | remove | dismiss | ack | read =>
    exact absurd hr hn
  | @send id g m nickname _ hop =>
    have hmsg : r ∈ db.messages ++ [newMessage S cmd nickname id g] := hr
    rcases List.mem_append.1 hmsg with hmsg | hmsg
    · exact absurd hmsg hn
    · rw [List.mem_singleton.1 hmsg]
      exact ⟨hop, rfl⟩

/-! ## Steps -/

theorem step_member {x : Action} {es : List Event} (h : step C W db x = some (db', es))
    (hm : MemberSince db' id a seq) : MemberSince db id a seq ∨ (id, seq) ∈ db'.heads := by
  change MemberSince db'.tables id a seq at hm
  change MemberSince db.tables id a seq ∨ (id, seq) ∈ db'.tables.heads
  rcases step_effect h with ht | ⟨cmd, S, lost, fuel, reply, -, he⟩
  · rw [ht] at hm; exact Or.inl hm
  · exact he.member hm

theorem step_message {x : Action} {es : List Event} (h : step C W db x = some (db', es))
    (hn : r ∉ db.messages) (hr : r ∈ db'.messages) :
    ∃ cmd S lost fuel, x = .execute cmd S lost fuel ∧ cmd.operation = .send ∧
      db'.messages = db.messages ++ [r] := by
  change r ∉ db.tables.messages at hn
  change r ∈ db'.tables.messages at hr
  change ∃ cmd S lost fuel, x = .execute cmd S lost fuel ∧ cmd.operation = .send ∧
    db'.tables.messages = db.tables.messages ++ [r]
  rcases step_effect h with ht | ⟨cmd, S, lost, fuel, reply, hx, he⟩
  · rw [ht] at hr
    exact absurd hr hn
  · obtain ⟨hop, hm⟩ := he.message hn hr
    exact ⟨cmd, S, lost, fuel, hx, hop, hm⟩

/-! ## What is shown -/

/-- The row is a message of a live group, past the start of the account's
    membership in it. -/
structure Visible (db : GroupDb) (a : Account) (r : MessageRow) : Prop where
  row : r ∈ db.messages
  alive : ∃ g, db.group? r.group = some g ∧ g.dismissed = false
  member : ∃ seq, MemberSince db r.group a seq ∧ seq < r.seq

/-- The rows of a `Pull` are past `join_seq`. -/
theorem mem_pulled {lastSeq joinSeq : ℕ} (h : r ∈ pulled db cmd id lastSeq joinSeq) :
    r ∈ db.messages ∧ r.group = id ∧ joinSeq < r.seq := by
  have h := mem_orderLimit (List.mem_of_mem_take h)
  simp only [List.mem_filter, Bool.and_eq_true, decide_eq_true_eq] at h
  exact ⟨h.1, h.2.1.1, (max_lt_iff.1 h.2.1.2).2⟩

/-- The rows of a `Pull`. -/
theorem Effect.pulled (h : Effect S cmd db reply db') (hop : cmd.operation = .pull) :
    ∃ id g m, Acting db cmd id g m ∧
      reply.messages = (pulled db cmd id g.lastSeq m.joinSeq).map messageRow := by
  cases h with
  | pull ha _ hr => exact ⟨_, _, _, ha, hr⟩
  | same hop' => exact absurd hop hop'
  | remove _ hop' =>
    rcases hop' with ⟨hop', -⟩ | ⟨hop', -⟩ <;> · rw [hop] at hop'; cases hop'
  | create hop' | apply hop' | accept _ hop' | reject _ hop' | rename _ hop' | dismiss _ hop'
  | send _ _ hop' | ack _ hop' | read _ hop' => rw [hop] at hop'; cases hop'

/-- A `Pull` that shows a message passed its checks. -/
theorem pulled_cases {x : Action} {es : List Event} (h : step C W db x = some (db', es))
    (he : .replied cmd reply ∈ es) (hop : cmd.operation = .pull) {msg : Message}
    (hmsg : msg ∈ reply.messages) : ∃ id g m, Acting db cmd id g m ∧
      reply.messages = (pulled db cmd id g.lastSeq m.joinSeq).map messageRow := by
  have hfail : ∀ f, reply ≠ answer (.error f) := by
    rintro (_ | e) rfl <;> cases hmsg
  cases x with
  | execute cmd' S lost fuel =>
    rcases execute_cases h with ⟨-, f, rfl⟩ | ⟨reply', ho, rfl | ⟨-, rfl⟩⟩
    · cases List.mem_singleton.1 he
      exact absurd rfl (hfail f)
    · cases List.mem_singleton.1 he
      cases ho with
      | plain _ hd => exact hd.2.pulled hop
      | replay hm | fresh hm => rw [hop] at hm; cases hm
    · cases List.mem_singleton.1 he
      exact absurd rfl (hfail .fault)
  | deliver actor group =>
    simp only [step] at h
    split at h
    · cases h; cases he
    · split at h <;> · cases h; simp at he
  | register u =>
    cases h
    cases he

/-- What a `Pull` shows. -/
theorem pull_visible {x : Action} {es : List Event} (h : step C W db x = some (db', es))
    (he : .replied cmd reply ∈ es) (hop : cmd.operation = .pull) {msg : Message}
    (hmsg : msg ∈ reply.messages) : ∃ r, messageRow r = msg ∧ Visible db cmd.actor r := by
  obtain ⟨id, g, m, ha, hr⟩ := pulled_cases h he hop hmsg
  rw [hr] at hmsg
  obtain ⟨r, hr, rfl⟩ := List.mem_map.1 hmsg
  obtain ⟨hrow, rfl, hseq⟩ := mem_pulled hr
  exact ⟨r, rfl, hrow, ⟨_, ha.group, ha.alive⟩, _, ⟨_, ha.member, ha.active, rfl⟩, hseq⟩

/-- Who is shown messages by `buildDelivery`. -/
theorem buildDelivery_member {msg : Message} (hmsg : msg ∈ (buildDelivery db a id).messages) :
    ∃ g m, db.group? id = some g ∧ g.dismissed = false ∧ db.member? id a = some m ∧
      m.active = true ∧ g.memberCount ≤ 200 ∧ (buildDelivery db a id).groupID = Nat.repr id ∧
      (buildDelivery db a id).messages = (orderLimit (·.seq) 20 (db.messages.filter fun r =>
        r.group = id && m.ackSeq < r.seq)).map messageRow := by
  unfold buildDelivery at hmsg ⊢
  cases hg : db.group? id with
  | none => rw [hg] at hmsg; cases hmsg
  | some g =>
    cases hm : db.member? id a with
    | none => rw [hg, hm] at hmsg; cases hmsg
    | some m =>
      rw [hg, hm] at hmsg
      dsimp only at hmsg ⊢
      by_cases hl : (m.active && !g.dismissed) = true
      · rw [if_pos hl] at hmsg
        simp only [Bool.and_eq_true, Bool.not_eq_true'] at hl
        split_ifs at hmsg with hc
        · exact ⟨g, m, rfl, hl.2, rfl, hl.1, hc, by simp [hl], by simp [hl, hc]⟩
        · cases hmsg
      · rw [if_neg hl] at hmsg
        cases hmsg

/-- What `buildDelivery` shows. -/
theorem buildDelivery_visible (hk : Members db) {msg : Message}
    (hmsg : msg ∈ (buildDelivery db a id).messages) : ∃ r, messageRow r = msg ∧ Visible db a r := by
  obtain ⟨g, m, hg, hd, hm, hact, -, -, hms⟩ := buildDelivery_member hmsg
  rw [hms] at hmsg
  obtain ⟨r, hr, rfl⟩ := List.mem_map.1 hmsg
  have hr := mem_orderLimit hr
  simp only [List.mem_filter, Bool.and_eq_true, decide_eq_true_eq] at hr
  obtain ⟨hrow, rfl, hseq⟩ := hr
  obtain ⟨n, -, hw⟩ := hk.within _ a m hm
  exact ⟨r, rfl, hrow, ⟨g, hg, hd⟩, m.joinSeq, ⟨m, hm, hact, rfl⟩, hw.joinAck.trans_lt hseq⟩

/-- A notice is what `buildDelivery` made. -/
theorem noticed_cases {x : Action} {es : List Event} {notice : Notice}
    (h : step C W db x = some (db', es)) (he : .noticed a notice ∈ es) :
    ∃ id, notice = buildDelivery db a id := by
  cases x with
  | execute cmd' S lost fuel =>
    rcases execute_cases h with ⟨-, f, rfl⟩ | ⟨reply', ho, rfl | ⟨-, rfl⟩⟩ <;>
      cases List.mem_singleton.1 he
  | deliver actor group =>
    simp only [step] at h
    split at h
    · cases h; cases he
    · split at h
      · cases h; cases he
      · cases h
        cases List.mem_singleton.1 he
        exact ⟨_, rfl⟩
  | register u =>
    cases h
    cases he

/-- What a notice shows. -/
theorem notice_visible {x : Action} {es : List Event} {notice : Notice} (hk : Members db)
    (h : step C W db x = some (db', es)) (he : .noticed a notice ∈ es) {msg : Message}
    (hmsg : msg ∈ notice.messages) : ∃ r, messageRow r = msg ∧ Visible db a r := by
  obtain ⟨id, rfl⟩ := noticed_cases h he
  exact buildDelivery_visible hk hmsg

/-! ## Continuous membership -/

/-- Step `j` commits the `Send` of the row. -/
def SendCommits (T : GroupTrace C W) (j : ℕ) (r : MessageRow) : Prop :=
  r ∉ (T.state j).messages ∧ (T.state (j + 1)).messages = (T.state j).messages ++ [r] ∧
    ∃ cmd S lost fuel, T.act j = .execute cmd S lost fuel ∧ cmd.operation = .send

/-- At step `i` the account may see the message: its group is not dismissed, and
    the account has been an active member from before the message was sent
    until now. -/
def Entitled (T : GroupTrace C W) (i : ℕ) (a : Account) (msg : Message) : Prop :=
  ∃ r, messageRow r = msg ∧ r ∈ (T.state i).messages ∧
    (∃ g, (T.state i).group? r.group = some g ∧ g.dismissed = false) ∧
    ∃ j < i, SendCommits T j r ∧ ∀ k, j ≤ k → k ≤ i → ActiveMember (T.state k) r.group a

/-- **A visible row was sent during the membership.** -/
theorem entitled_of_visible (T : GroupTrace C W) {i : ℕ} (hi : i ≤ T.len)
    (h : Visible (T.state i) a r) : Entitled T i a (messageRow r) := by
  obtain ⟨hrow, hg, seq, hm, hlt⟩ := h
  -- the membership starts at `k`, where the head of the group is `seq`
  obtain ⟨k, hk, hhead, hsince⟩ := T.since (P := fun db => MemberSince db r.group a seq)
    (Q := fun db => (r.group, seq) ∈ db.heads) (by rintro ⟨m, hm, -⟩; cases hm)
    (fun _ _ _ _ hs hm => step_member hs hm) hi hm
  have hnot : r ∉ (T.state k).messages := by
    intro hr
    exact absurd ((sequenced_trace T (hk.trans hi)).seq_le hr hhead) (by omega)
  obtain ⟨j, hkj, hji, hn, hj⟩ := T.became (P := fun db => r ∈ db.messages) hk hnot hrow
  obtain ⟨cmd, S, lost, fuel, hact, hop, happ⟩ := step_message (T.next j (by omega)) hn hj
  refine ⟨r, rfl, hrow, hg, j, hji, ⟨hn, happ, cmd, S, lost, fuel, hact, hop⟩, ?_⟩
  intro l hl hli
  exact (hsince l (hkj.trans hl) hli).active

end

/-- **History isolation.**  A message that a `Pull` returns to an account, or
    that a notice brings it, belongs to a live group the account has been in
    since before the message was sent, without a break. -/
theorem history_isolation (C : Collations) (W : Wire) (T : GroupTrace C W) :
    (∀ i < T.len, ∀ cmd reply, .replied cmd reply ∈ T.out i → cmd.operation = .pull →
      ∀ msg ∈ reply.messages, Entitled T i cmd.actor msg) ∧
    (∀ i < T.len, ∀ a notice, .noticed a notice ∈ T.out i →
      ∀ msg ∈ notice.messages, Entitled T i a msg) := by
  constructor
  · intro i hi cmd reply he hop msg hmsg
    obtain ⟨r, rfl, hv⟩ := pull_visible (T.next i hi) he hop hmsg
    exact entitled_of_visible T hi.le hv
  · intro i hi a notice he msg hmsg
    obtain ⟨r, rfl, hv⟩ := notice_visible (members_trace T hi.le) (T.next i hi) he hmsg
    exact entitled_of_visible T hi.le hv

end ApeServer.Group
