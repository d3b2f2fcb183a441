/-
  Acknowledgements.

  * `Inv.receiptsMatch`: receipts and acknowledgement rows are there together, once
    for each recipient and message;
  * `ackStart_other`, `ackCommit_again`: who is not the recipient is refused,
    and a second acknowledgement changes nothing;
  * `delivery_unacknowledged`: no gateway action starts for a message that has its receipt;
  * `marked_receipt`: the server sets status 2 only for a message with a receipt;
  * `acknowledgement` puts these together over a run.
-/
import ApeServer.System.Watermark

namespace ApeServer

open Table

section
variable {J : Codec} {w w' : World} {es : List Event} {owner : Account} {serverId : String}

/-! ## Receipts and rows -/

/-- The acknowledgement row of a recipient and a message. -/
def AckRow (db : Db) (owner : Account) (serverId : String) (r : OutboxRow) : Prop :=
  r ∈ db.outbox ∧ r.operation = 3 ∧ r.peer = owner ∧ r.serverId = serverId

theorem ackRow_ok (hI : Inv J w) {r : OutboxRow} (h : AckRow w.db owner serverId r) :
    r.dedupeKey = ackKey owner serverId ∧ w.db.hasReceipt owner serverId = true := by
  obtain ⟨hr, ho, rfl, rfl⟩ := h
  cases hI.rows.row r hr with
  | message m _ hm => have := hm.operation; omega
  | cleanup n ho' => omega
  | ack _ hk hrec => exact ⟨hk, hrec⟩

/-- A receipt has its acknowledgement row, and the other way round. -/
theorem hasReceipt_iff_row (hI : Inv J w) :
    w.db.hasReceipt owner serverId = true ↔ ∃ r, AckRow w.db owner serverId r := by
  refine ⟨fun h => ?_, fun ⟨r, hr⟩ => (ackRow_ok hI hr).2⟩
  obtain ⟨ρ, hρ, rfl, rfl⟩ := hasReceipt_iff.1 h
  obtain ⟨r, hr, ho, hid, hp⟩ := hI.receipts.task ρ hρ
  exact ⟨r, hr, ho, hp, hid⟩

theorem ackRow_unique (hI : Inv J w) {r r' : OutboxRow} (h : AckRow w.db owner serverId r)
    (h' : AckRow w.db owner serverId r') : r = r' :=
  hI.rows.eq_of_dedupe h.1 h'.1 (h.2.1.trans h'.2.1.symm)
    ((ackRow_ok hI h).1.trans (ackRow_ok hI h').1.symm)

theorem receipt_unique (hI : Inv J w) {ρ ρ' : ReceiptRow} (h : ρ ∈ w.db.receipts)
    (h' : ρ' ∈ w.db.receipts) (ho : ρ.owner = ρ'.owner) (hid : ρ.serverId = ρ'.serverId) : ρ = ρ' :=
  eq_of_key hI.receipts.keys h h' (by rw [ho, hid])

/-- The owner of a receipt is the recipient of the message. -/
theorem receipt_recipient (hI : Inv J w) (h : w.db.hasReceipt owner serverId = true) :
    ∃ m, Queued J w m ∧ m.serverMsgID = serverId ∧ m.recvID = owner := by
  obtain ⟨ρ, hρ, rfl, rfl⟩ := hasReceipt_iff.1 h
  obtain ⟨r, hr, ho, hid, hp⟩ := hI.receipts.message ρ hρ
  obtain ⟨m, hs, hm, -⟩ := hI.rows.message hr ho
  exact ⟨m, ⟨hs, r, hr, hm⟩, by rw [← hm.serverId, hid], by rw [← hm.peer, hp]⟩

/-- A message is queued once. -/
theorem Queued.unique (hI : Inv J w) {m m' : MsgData} (h : Queued J w m) (h' : Queued J w m')
    (he : m.serverMsgID = m'.serverMsgID) : m = m' :=
  eq_of_serverMsgID hI.ids h.1 h'.1 he

/-! ## The calls -/

/-- An acknowledgement by somebody else fails. -/
theorem ackLookup_other (hI : Inv J w) {m : MsgData} (hm : Queued J w m)
    (ho : m.recvID ≠ owner) :
    ∃ e, ackLookup J w.db w.stores.mongo owner m.serverMsgID = .error e := by
  obtain ⟨hs, r, hr, hrow⟩ := hm
  unfold ackLookup
  split_ifs with hbad
  · exact ⟨_, rfl⟩
  · have hfind : w.db.outbox.find? (fun r => r.operation = 1 && r.serverId = m.serverMsgID) = some r := by
      obtain ⟨x, hx⟩ : ∃ x, w.db.outbox.find? (fun r => r.operation = 1 &&
          r.serverId = m.serverMsgID) = some x :=
        Option.isSome_iff_exists.1 (List.find?_isSome.2
          ⟨r, hr, by simp [hrow.operation, hrow.serverId]⟩)
      have hp := List.find?_some hx
      simp only [Bool.and_eq_true, decide_eq_true_eq] at hp
      rw [hx, eq_of_serverId hI.ids hI.rows (List.mem_of_find?_eq_some hx) hr hp.1 hrow.operation
        (hp.2.trans hrow.serverId.symm)]
    rw [hfind]
    dsimp only
    rw [if_pos (by rw [hrow.peer]; exact ho)]
    exact ⟨_, rfl⟩

theorem ackStart_other (hI : Inv J w) {m : MsgData} (hm : Queued J w m) (ho : m.recvID ≠ owner)
    {ackType : Int} (h : w.ackStart J owner m.serverMsgID ackType = some (w', es)) :
    w' = w ∧ es = [] := by
  obtain ⟨e, he⟩ := ackLookup_other hI hm ho
  unfold World.ackStart at h
  rw [he] at h
  split_ifs at h <;> (cases h; exact ⟨rfl, rfl⟩)

/-- The pair of a message in flight has its lock row. -/
theorem Known.locked (hI : Inv J w) {m : MsgData} (h : Known J w m) :
    w.db.Locked m.sendID m.recvID := by
  obtain ⟨m₀, ⟨hs, r, hr, hm⟩, h₁, h₂, -⟩ := h
  obtain ⟨-, -, -, -, hl, -⟩ := hI.rows.message hr hm.operation
  rw [h₁, h₂, ← hm.actor, ← hm.peer]
  exact hl

/-- A second acknowledgement changes no table. -/
theorem ackCommit_again (hI : Inv J w) {a : AckCall} (ha : a ∈ w.acks) (now : Int)
    (h : w.db.hasReceipt a.owner a.serverId = true) :
    w.db.ackCommit a.owner a.serverId a.message now = w.db := by
  obtain ⟨hk, -⟩ := hI.calls.ack a ha
  obtain ⟨r, hr⟩ := (hasReceipt_iff_row hI).1 h
  have hrow : w.db.outbox.any (fun r => r.operation = 3 &&
      r.dedupeKey = ackKey a.owner a.serverId) = true :=
    List.any_eq_true.2 ⟨r, hr.1, by simp [hr.2.1, (ackRow_ok hI hr).1]⟩
  unfold Db.ackCommit
  rw [lockPair_of_mem (hk.locked hI)]
  dsimp only
  rw [insertNew_eq_self hrow, if_pos hrow, insertNew_eq_self h]

/-! ## Delivery -/

/-- `WithFriendMessage` admits no message that has its receipt. -/
theorem delivery_unacknowledged (hI : Inv J w) {m : MsgData} (hk : Known J w m)
    (h : w.db.friendMessageAllowed m true = true) :
    w.db.hasReceipt owner m.serverMsgID = false := by
  by_contra hrec
  obtain ⟨m₁, hq₁, hid, ho⟩ := receipt_recipient hI (Bool.not_eq_false _ ▸ hrec)
  obtain ⟨m₀, hq₀, -, hrecv, hid₀, -⟩ := hk
  obtain rfl := hq₁.unique hI hq₀ (hid.trans hid₀)
  obtain ⟨-, -, -, hempty | ⟨-, hnone⟩⟩ := friendMessageAllowed_iff.1 h
  · exact (hI.ids.stamped m₁ hq₁.1).uuid.1 (hid₀.symm.trans hempty)
  · rw [hrecv, ho] at hnone
    exact hrec (hnone rfl)

/-- **Status 2 is set for receipts only.** -/
theorem marked_receipt (hI : Inv J w) (h : Move J w w' es) {d d' : Doc} (hd : d ∈ w.stores.mongo)
    (hd' : d' ∈ w'.stores.mongo) (hid : d'.serverMsgID = d.serverMsgID) (hs : d.status ≠ 2)
    (hs' : d'.status = 2) :
    w.db.hasReceipt (decodeMessage d).recvID d.serverMsgID = true := by
  have hI₁ := inv_storesMove hI h.stores
  obtain ⟨r, m, hdoc⟩ := hI.stores.doc d hd
  obtain ⟨r', m', hdoc'⟩ := hI₁.stores.doc d' hd'
  have hm : m' = m := eq_of_serverMsgID hI.ids hdoc'.stamped hdoc.stamped
    (by rw [← hdoc'.serverMsgID, hid, hdoc.serverMsgID])
  subst hm
  have hrecv : (decodeMessage d).recvID = m'.recvID := by
    change ofInt64 d.recvID = _
    rw [hdoc.recvID, ofInt64_asInt64]
  rw [hrecv, hdoc.serverMsgID]
  rcases hdoc'.status with hst | ⟨-, hrec⟩
  · rcases hdoc.status with hst₀ | ⟨hst₀, -⟩
    · exact absurd (hst₀.trans (hst.symm.trans hs')) hs
    · exact absurd hst₀ hs
  · exact hrec

/-! ## Over a run -/

/-- What holds of the receipts in a state. -/
structure ReceiptsMatch (J : Codec) (w : World) : Prop where
  /-- a receipt exists with its acknowledgement row -/
  row : ∀ owner serverId, w.db.hasReceipt owner serverId = true ↔ ∃ r, AckRow w.db owner serverId r
  /-- there is at most one of each -/
  row_unique : ∀ owner serverId r r', AckRow w.db owner serverId r → AckRow w.db owner serverId r' →
    r = r'
  unique : ∀ ρ ∈ w.db.receipts, ∀ ρ' ∈ w.db.receipts, ρ.owner = ρ'.owner →
    ρ.serverId = ρ'.serverId → ρ = ρ'
  /-- the owner is the recipient of the message -/
  recipient : ∀ owner serverId, w.db.hasReceipt owner serverId = true →
    ∃ m, Queued J w m ∧ m.serverMsgID = serverId ∧ m.recvID = owner

theorem Inv.receiptsMatch (hI : Inv J w) : ReceiptsMatch J w :=
  ⟨fun _ _ => hasReceipt_iff_row hI, fun _ _ _ _ => ackRow_unique hI,
    fun _ h _ h' => receipt_unique hI h h', fun _ _ => receipt_recipient hI⟩

theorem acked_receipt (h : Event.Justified J w w' (.acked owner serverId)) :
    w'.db.hasReceipt owner serverId = true := by
  obtain ⟨a, -, now, -, -, hdb⟩ := h
  rw [hdb]
  exact hasReceipt_ackCommit _ _ _ _ _

/-- **Acknowledgements.**  In every state of a run receipts and their rows
    match.  A call by somebody else than the recipient fails and changes
    nothing, and so does a second acknowledgement.  After the receipt of a
    message was committed, no gateway action starts for it.  The server sets
    status 2 only for messages with a receipt.  Runs draw increasing ids
    (`SysTrace`). -/
theorem acknowledgement (T : SysTrace J) :
    (∀ i ≤ T.len, ReceiptsMatch J (T.state i)) ∧
    (∀ i < T.len, ∀ owner ackType m, Queued J (T.state i) m → m.recvID ≠ owner →
      T.act i = .ackStart owner m.serverMsgID ackType →
      (∃ e, ackLookup J (T.state i).db (T.state i).stores.mongo owner m.serverMsgID = .error e) ∧
      T.state (i + 1) = T.state i) ∧
    (∀ i < T.len, ∀ n now a, T.act i = .ackCommit n now → (T.state i).acks[n]? = some a →
      (T.state i).db.hasReceipt a.owner a.serverId = true →
      (T.state (i + 1)).db = (T.state i).db ∧ (T.state (i + 1)).stores = (T.state i).stores) ∧
    (∀ i < T.len, ∀ owner serverId, .acked owner serverId ∈ T.out i →
      ∀ j, i < j → j < T.len → ∀ m, .pushed m ∈ T.out j ∨ .offered m ∈ T.out j →
        m.serverMsgID ≠ serverId) ∧
    ∀ i < T.len, ∀ d ∈ (T.state i).stores.mongo, ∀ d' ∈ (T.state (i + 1)).stores.mongo,
      d'.serverMsgID = d.serverMsgID → d.status ≠ 2 → d'.status = 2 →
      (T.state i).db.hasReceipt (decodeMessage d).recvID d.serverMsgID = true := by
  refine ⟨fun i hi => (inv_trace T hi).receiptsMatch, fun i hi owner ackType m hm ho ha => ?_,
    fun i hi n now a ha hn hrec => ?_, fun i hi owner serverId he j hij hj m hm hid => ?_,
    fun i hi d hd d' hd' hid hs hs' => ?_⟩
  · have hI := inv_trace T hi.le
    have hstep := T.next i hi
    rw [ha] at hstep
    exact ⟨ackLookup_other hI hm ho, (ackStart_other hI hm ho hstep).1⟩
  · have hstep := T.next i hi
    rw [ha] at hstep
    simp only [step, World.ackCommit, hn] at hstep
    split_ifs at hstep
    rw [ackCommit_again (inv_trace T hi.le) (List.mem_of_getElem? hn) now hrec] at hstep
    obtain ⟨hs, -⟩ := Prod.mk.inj (Option.some.inj hstep)
    rw [← hs]
    exact ⟨rfl, rfl⟩
  · have hI := inv_trace T hj.le
    have hrec := (trace_grows T hij hj.le).receipts owner serverId
      (acked_receipt ((step_move (T.next i hi)).event _ he))
    obtain ⟨hk, hallow⟩ : Known J (T.state j) m ∧
        (T.state j).db.friendMessageAllowed m true = true := by
      have hev := (step_move (T.next j hj)).event
      rcases hm with hm | hm
      · obtain ⟨⟨c, hc, rfl⟩, ha⟩ := hev _ hm
        exact ⟨(hI.calls.consumer c hc).2.1, ha⟩
      · obtain ⟨hd, ha⟩ := hev _ hm
        exact ⟨hI.calls.delivery m hd, ha⟩
    have hnone : (T.state j).db.hasReceipt owner m.serverMsgID = false :=
      delivery_unacknowledged hI hk hallow
    rw [hid, hrec] at hnone
    cases hnone
  · exact marked_receipt (inv_trace T hi.le) (step_move (T.next i hi)) hd hd' hid hs hs'

end

end ApeServer
