/-
  Sending is idempotent.

  The unique key of the outbox is made of the sender and the client's id for
  the message.  `QueueSingleMessage` looks the key up before it inserts, but
  under the lock of the pair only, so that two calls with different recipients
  may both go on to insert; the key then refuses the second.

  * `trace_key`: over a whole run there is one row for each key;
  * `lookup_again`, `insert_again`: a call that meets a stored row changes no table; it answers
    with the stored task exactly when the message may be repeated (`Repeats`);
  * `idempotent_send` puts these together.
-/
import ApeServer.System.Lease

namespace ApeServer

/-- The message repeats the stored message of the row, which is not cancelled
    and not deleted, between friends. -/
structure Repeats (J : Codec) (w : World) (r : OutboxRow) (m : MsgData) : Prop where
  valid : validSingleMessage m = true
  allowed : w.db.friendAllows m.sendID m.recvID m.seq = true
  state : r.state ≠ 3
  live : w.db.Live r
  same : ∃ original ∈ w.stamped, MessageRow J r original ∧ original.recvID = m.recvID ∧
    original.content = m.content ∧ original.contentType = m.contentType ∧
    original.sessionType = m.sessionType

/-- The call of `SendMessages` that an action continues in `QueueSingleMessage`. -/
def Action.queues : Action → Option ℕ
  | .queueLookup n | .queueInsert n _ => some n
  | _ => none

section
variable {J : Codec} {w w' : World} {es : List Event} {r r' : OutboxRow} {m : MsgData}

theorem messageKey_iff {m m' : MsgData} :
    messageKey m = messageKey m' ↔ m.sendID = m'.sendID ∧ m.clientMsgID = m'.clientMsgID := by
  refine ⟨messageKey_inj, ?_⟩
  rintro ⟨h₁, h₂⟩
  unfold messageKey
  rw [h₁, h₂]

/-- **One row for each key, over a whole run.**  Its columns stay, and its
    payload until it is cancelled. -/
theorem trace_key (T : SysTrace J) {i j : ℕ} (hij : i ≤ j) (hj : j ≤ T.len)
    (hr : r ∈ (T.state i).db.outbox) (hr' : r' ∈ (T.state j).db.outbox) (ho : r.operation = 1)
    (ho' : r'.operation = 1) (hk : r.dedupeKey = r'.dedupeKey) :
    Static r r' ∧ (r'.state ≠ 3 → r'.payload = r.payload) := by
  have hI := inv_trace T hj
  have hsame : ∀ x ∈ (T.state j).db.outbox, Static r x → x = r' := fun x hx hs =>
    hI.rows.eq_of_dedupe hx hr' (by rw [hs.operation, ho, ho']) (by rw [hs.key, hk])
  obtain ⟨x, hx, hlater⟩ := trace_later T hij hj r hr
  obtain rfl := hsame x hx hlater.static
  refine ⟨hlater.static, fun hs => ?_⟩
  obtain ⟨m, -, hm, -⟩ := (inv_trace T (hij.trans hj)).rows.message hr ho
  obtain ⟨y, hy, hst, -, hmsg⟩ := (trace_grows T hij hj).row r hr
  obtain rfl := hsame y hy hst
  have h₁ := hm.parse fun h₃ => hs (hlater.cancelled h₃)
  have h₂ := (hmsg m hm).parse hs
  rw [h₁] at h₂
  exact (Option.some.inj h₂).symm

/-- The lookup finds the row of the key. -/
theorem messageRow_of_key (hI : Inv J w) (hr : r ∈ w.db.outbox) (ho : r.operation = 1)
    (hk : r.dedupeKey = messageKey m) : w.db.messageRow? m = some r := by
  obtain ⟨x, hx⟩ := messageRow_some hr ho hk
  obtain ⟨hmem, hox, hkx⟩ := messageRow_mem hx
  rw [hx, hI.rows.eq_of_dedupe hmem hr (hox.trans ho.symm) (hkx.trans hk.symm)]

/-- The stored message has the sender of its key. -/
theorem MessageRow.sender {original : MsgData} (h : MessageRow J r original)
    (hk : r.dedupeKey = messageKey m) : original.sendID = m.sendID :=
  (messageKey_iff.1 (h.key.symm.trans hk)).1

/-- A lookup answers with the stored task if the message may be repeated. -/
theorem queueLookup_repeats (hI : Inv J w) (hr : r ∈ w.db.outbox) (ho : r.operation = 1)
    (hk : r.dedupeKey = messageKey m) (h : Repeats J w r m) :
    w.db.queueLookup J m = .ok (some (outboxRow r)) := by
  obtain ⟨original, hs, hm, hrecv, hcontent, htype, hsession⟩ := h.same
  have hprint := hm.parse h.state
  have hparse : outboxMessage J (outboxRow r) = .ok original := by
    unfold outboxMessage
    rw [show (outboxRow r).payload = r.payload from rfl, J.parse_print _ _ hprint]
  have hallow : w.db.friendAllows original.sendID original.recvID original.seq = true := by
    obtain ⟨hne, hc, -⟩ := friendAllows_iff.1 h.allowed
    have hl := h.live
    unfold Db.Live at hl
    rw [hm.actor, hm.peer, hm.seq] at hl
    rw [hm.sender hk, hrecv] at hl ⊢
    exact friendAllows_iff.2 ⟨hne, hc, hl⟩
  have hready : ¬ ((outboxRow r).state = 3 ∨ (outboxRow r).payload = "") :=
    not_or.2 ⟨h.state, J.print_ne_empty hprint⟩
  unfold Db.queueLookup
  rw [if_neg (by simp [h.allowed]), messageRow_of_key hI hr ho hk]
  dsimp only
  rw [if_neg hready, hparse]
  dsimp only
  rw [if_neg (by simp [hallow]), if_neg (by simp [hrecv, hcontent, htype, hsession]),
    if_neg (not_or.1 hready).1]

/-- It does so only then. -/
theorem repeats_of_lookup (hI : Inv J w) (hr : r ∈ w.db.outbox) (ho : r.operation = 1)
    (hk : r.dedupeKey = messageKey m) (hv : validSingleMessage m = true) {task : Option OutboxTask}
    (h : w.db.queueLookup J m = .ok task) : task = some (outboxRow r) ∧ Repeats J w r m := by
  have hrow := messageRow_of_key hI hr ho hk
  cases task with
  | none => rw [(queueLookup_none h).2] at hrow; cases hrow
  | some task =>
    obtain ⟨ha, x, original, rfl, hrep⟩ := queueLookup_some h
    have := hrep.row
    rw [hrow] at this; cases this
    obtain ⟨m₀, hs, hm, -⟩ := hI.rows.message hr ho
    obtain rfl := hm.parse_eq hrep.message
    refine ⟨rfl, hv, ha, hrep.state, ?_, original, hs, hm, hrep.recvID, hrep.content,
      hrep.contentType, hrep.sessionType⟩
    unfold Db.Live
    rw [hm.actor, hm.peer, hm.seq]
    exact friendAllows_above hrep.allowed

/-- What a call of `QueueSingleMessage` does when its key is stored. -/
structure Again (J : Codec) (w w' : World) (es : List Event) (n : ℕ) (c : SendCall)
    (r : OutboxRow) : Prop where
  /-- no table changes -/
  tables : w'.db = w.db
  /-- the call returns the stored task -/
  replayed : c.pc = .queue → Repeats J w r c.message →
    w'.sends = w.sends.set n ⟨c.message, .poll (outboxRow r)⟩
  /-- the call fails -/
  refused : ¬ (c.pc = .queue ∧ Repeats J w r c.message) →
    w'.sends = w.sends.eraseIdx n ∧ ∃ code, code ≠ "0" ∧ es = [.replied c.message code]

theorem lookup_again (hI : Inv J w) {n : ℕ} {c : SendCall} (hc : w.sends[n]? = some c)
    (hr : r ∈ w.db.outbox) (ho : r.operation = 1) (hk : r.dedupeKey = messageKey c.message)
    (h : w.queueLookup J n = some (w', es)) : Again J w w' es n c r := by
  obtain ⟨m, pc⟩ := c
  unfold World.queueLookup at h
  rw [hc] at h
  cases pc with
  | queue =>
    dsimp only at h
    by_cases hv : validSingleMessage m = true
    · rw [if_neg (by simp [hv])] at h
      split_ifs at h with hfree
      by_cases hrep : Repeats J w r m
      · have hlook := queueLookup_repeats hI hr ho hk hrep
        have hlock := lockPair_of_mem (hI.friends.locked _ _
          (friend_of_allows hI.friends hrep.allowed))
        rw [hlook, hlock] at h
        cases h
        exact ⟨rfl, fun _ _ => rfl, fun hn => absurd ⟨rfl, hrep⟩ hn⟩
      · split at h
        · cases h
          exact ⟨rfl, fun _ h => absurd h hrep, fun _ => ⟨rfl, _, sendErrorCode_ne _, rfl⟩⟩
        · next hl => exact absurd (repeats_of_lookup hI hr ho hk hv hl).2 hrep
        · next hl => exact absurd (repeats_of_lookup hI hr ho hk hv hl).2 hrep
    · rw [if_pos (by simpa using hv)] at h
      cases h
      exact ⟨rfl, fun _ h => absurd h.valid hv, fun _ => ⟨rfl, _, by decide, rfl⟩⟩
  | insert => cases h
  | poll task => cases h

/-- The unique key refuses a second row. -/
theorem insert_again {n : ℕ} {lost : Bool} {c : SendCall} (hc : w.sends[n]? = some c)
    (hr : r ∈ w.db.outbox) (ho : r.operation = 1) (hk : r.dedupeKey = messageKey c.message)
    (h : w.queueInsert J n lost = some (w', es)) : Again J w w' es n c r := by
  obtain ⟨m, pc⟩ := c
  unfold World.queueInsert at h
  rw [hc] at h
  cases pc with
  | queue => cases h
  | insert =>
    dsimp only at h
    split at h
    · cases h
      exact ⟨rfl, nofun, fun _ => ⟨rfl, _, sendErrorCode_ne _, rfl⟩⟩
    · next hins =>
      obtain ⟨-, -, hnew, -⟩ := queueInsert_ok hins
      exact absurd hk (hnew r hr ho)
  | poll task => cases h

/-- **Idempotent send.**  Over a whole run the rows of messages with one sender
    and one client id are one row.  A call of `QueueSingleMessage` that meets
    this row changes no table: it returns its task if the message repeats the
    stored one, and it fails if the message differs, or the stored one was
    cancelled or deleted.  Runs draw increasing ids (`SysTrace`). -/
theorem idempotent_send (T : SysTrace J) :
    (∀ i j, i ≤ j → j ≤ T.len → ∀ r ∈ (T.state i).db.outbox, ∀ r' ∈ (T.state j).db.outbox,
      r.operation = 1 → r'.operation = 1 → ∀ m m' : MsgData, r.dedupeKey = messageKey m →
      r'.dedupeKey = messageKey m' → m.sendID = m'.sendID → m.clientMsgID = m'.clientMsgID →
      Static r r' ∧ (r'.state ≠ 3 → r'.payload = r.payload)) ∧
    ∀ i < T.len, ∀ n c, (T.act i).queues = some n → (T.state i).sends[n]? = some c →
      ∀ r ∈ (T.state i).db.outbox, r.operation = 1 → r.dedupeKey = messageKey c.message →
      Again J (T.state i) (T.state (i + 1)) (T.out i) n c r := by
  refine ⟨fun i j hij hj r hr r' hr' ho ho' m m' hk hk' hs hc => ?_, fun i hi n c ha hc r hr ho hk => ?_⟩
  · exact trace_key T hij hj hr hr' ho ho' (by rw [hk, hk', messageKey_iff.2 ⟨hs, hc⟩])
  · have hI := inv_trace T hi.le
    have hstep := T.next i hi
    generalize T.act i = a at ha hstep
    cases a with
    | queueLookup i => cases ha; exact lookup_again hI hc hr ho hk hstep
    | queueInsert i lost => cases ha; exact insert_again hc hr ho hk hstep
    | _ => cases ha

end

end ApeServer
