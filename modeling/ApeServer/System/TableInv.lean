/-
  The invariant under the steps.

  `Grows` is what every step respects: the rows of the outbox stay and keep
  their columns, watermarks and receipts only grow.  The facts about the calls
  in flight are stable under it.  With the inversion lemmas for rows and
  friendship this gives the parts of the invariant one by one:

  * `rowsOk_step`, `receiptsOk_step`, `storesOk_step`: the outbox, the receipts,
    and what the tables promise about the stores.
-/
import ApeServer.System.StoreInv

namespace ApeServer

open Table

/-- What every step respects. -/
structure Grows (J : Codec) (w w' : World) : Prop where
  row : ∀ r ∈ w.db.outbox, ∃ r' ∈ w'.db.outbox, Static r r' ∧ r.stage ≤ r'.stage ∧
    ∀ m, MessageRow J r m → MessageRow J r' m
  stamped : w.stamped ⊆ w'.stamped
  uuids : w.uuids ⊆ w'.uuids
  lastId : w.lastId ≤ w'.lastId
  above : ∀ a b seq, w'.db.Above a b seq → w.db.Above a b seq
  receipts : ∀ owner serverId, w.db.hasReceipt owner serverId = true →
    w'.db.hasReceipt owner serverId = true
  locked : ∀ a b, w.db.Locked a b → w'.db.Locked a b

section
variable {J : Codec} {w w' : World} {es : List Event}

/-! ## Receipts -/

theorem receipts_step (h : Change J w w' es) : w'.db.receipts = w.db.receipts ∨
    ∃ a ∈ w.acks, ∃ now, w'.db = w.db.ackCommit a.owner a.serverId a.message now := by
  cases h with
  | same h => exact Or.inl (by rw [h])
  | lock a b h => exact Or.inl (by rw [h]; rfl)
  | register u h => exact Or.inl (by rw [h])
  | edit h =>
    obtain ⟨cs, us, he, -⟩ := h
    exact Or.inl (by rw [he])
  | insert m payload _ _ _ _ h => exact Or.inl (by rw [h]; rfl)
  | claim r now token _ _ _ h => exact Or.inl (by rw [h]; rfl)
  | retry k now _ h => exact Or.inl (by rw [h]; rfl)
  | confirm c _ h => exact Or.inl (by rw [h]; rfl)
  | commit k now b _ _ h => exact Or.inl h.frame.2.2.1
  | receipt a now ha h => exact Or.inr ⟨a, ha, now, h⟩
  | applications a b apps n h => exact Or.inl (by rw [h]; rfl)
  | befriend c now apps _ h => exact Or.inl (by rw [h]; rfl)
  | unfriend c now seq _ _ _ _ h =>
    exact Or.inl (by rw [h, (clearConversation_frame _ _ _).2.2.2.1]; rfl)
  | clear c _ _ h => exact Or.inl (by rw [h, (clearConversation_frame _ _ _).2.2.2.1]; rfl)

theorem hasReceipt_iff {db : Db} {owner : Account} {serverId : String} :
    db.hasReceipt owner serverId = true ↔
      ∃ ρ ∈ db.receipts, ρ.owner = owner ∧ ρ.serverId = serverId := by
  simp [Db.hasReceipt]

theorem receipts_subset (h : Change J w w' es) : w.db.receipts ⊆ w'.db.receipts := by
  rcases receipts_step h with h | ⟨a, -, now, h⟩
  · rw [h]; exact fun _ h => h
  · rw [h]; exact subset_insertNew _ _ _

/-! ## Growth -/

theorem grows_of_move (hI : Inv J w) (h : Move J w w' es) : Grows J w w' := by
  obtain ⟨f, new, ho⟩ := outbox_step hI h.change
  refine ⟨fun r hr => ?_, ?_, h.ids.uuids, h.ids.lastId, fun a b seq ha => ?_, fun o s hr => ?_,
    fun a b hl => friendPairs_subset h.change hl⟩
  · have hrow := ho.row r hr
    refine ⟨f r, ?_, hrow.static, hrow.stage_le, fun m hm => hrow.messageRow hm⟩
    rw [ho.outbox]; exact List.mem_append_left _ (List.mem_map_of_mem hr)
  · cases h.ids.draw with
    | none hs => rw [hs]; exact fun _ h => h
    | message _ _ _ _ _ _ _ _ _ _ hs => rw [hs]; exact List.subset_cons_self _ _
  · exact (friends_move hI h.change).above hI.friends ha
  · obtain ⟨ρ, hρ, he⟩ := hasReceipt_iff.1 hr
    exact hasReceipt_iff.2 ⟨ρ, receipts_subset h.change hρ, he⟩

theorem Grows.live (h : Grows J w w') {r r' : OutboxRow} (hs : Static r r') (hl : w'.db.Live r') :
    w.db.Live r := by
  unfold Db.Live at hl
  rw [hs.actor, hs.peer, hs.seq] at hl
  exact h.above _ _ _ hl

theorem Queued.grows {m : MsgData} (h : Queued J w m) (hg : Grows J w w') : Queued J w' m := by
  obtain ⟨hs, r, hr, hm⟩ := h
  obtain ⟨r', hr', -, -, hm'⟩ := hg.row r hr
  exact ⟨hg.stamped hs, r', hr', hm' m hm⟩

theorem Known.grows {m : MsgData} (h : Known J w m) (hg : Grows J w w') : Known J w' m := by
  obtain ⟨m₀, hq, he⟩ := h
  exact ⟨m₀, hq.grows hg, he⟩

/-- A message handed on stays so, when the stores are those of the new state. -/
theorem Sent.grows {serverId : String} (h : Sent { w with stores := w'.stores } serverId)
    (hg : Grows J w w') : Sent w' serverId := by
  obtain ⟨r, hr, ho, he, hs, hp⟩ := h
  obtain ⟨r', hr', hst, hle, -⟩ := hg.row r hr
  exact ⟨r', hr', hst.operation.trans ho, hst.serverId.trans he, hs.trans hle,
    fun hl => hp (hg.live hst hl)⟩

theorem Polled.grows {task : OutboxTask} (h : Polled J w task) (hg : Grows J w w') :
    Polled J w' task := by
  obtain ⟨r, hr, m, hs, hm, hid, hle, hp⟩ := h
  obtain ⟨r', hr', hst, hle', hm'⟩ := hg.row r hr
  exact ⟨r', hr', m, hg.stamped hs, hm' m hm, hst.id.trans hid, hle.trans hle', hp⟩

theorem WorkerOk.grows {k : Worker} {r : OutboxRow} (h : WorkerOk J w k r) (hg : Grows J w w') :
    ∃ r', WorkerOk J w' k r' := by
  obtain ⟨r', hr', hst, hle, hm'⟩ := hg.row r h.row
  refine ⟨r', hr', hst.id.trans h.id, hst.operation.trans h.operation, hst.actor.trans h.actor,
    hst.peer.trans h.peer, hst.conversation.trans h.conversation, hst.serverId.trans h.serverId,
    hst.seq.trans h.seq, fun ho => ?_, fun ho hp => (h.staged ho hp).trans hle⟩
  obtain ⟨m, hs, hp, hm⟩ := h.message ho
  exact ⟨m, hg.stamped hs, hp, hm' m hm⟩

/-! ## Ids -/

theorem idsOk_move (hI : IdsOk w) (h : Ids w w') : IdsOk w' := by
  have hold : ∀ m ∈ w.stamped, Supplied w' m := fun m hm => by
    obtain ⟨h₁, h₂, h₃, h₄, h₅, h₆⟩ := hI.stamped m hm
    have := h.lastId
    exact ⟨h₁, h₂, h.uuids h₃, h₄, by omega, h₆⟩
  cases h.draw with
  | none hs => exact ⟨h.bound hI.bound, fun m hm => hold m (hs ▸ hm), by rw [hs]; exact hI.nodup⟩
  | message m uuid seq time hg hu hn hw hlt hl hs =>
    refine ⟨h.bound hI.bound, fun m' hm => ?_, ?_⟩
    · rw [hs] at hm
      rcases List.mem_cons.1 hm with rfl | hm
      · refine ⟨rfl, hu, hw, ?_, ?_, hg⟩
        · change (0 : Int) < (seq : Int)
          omega
        · change (seq : Int) ≤ _
          rw [hl]
      · exact hold m' hm
    · rw [hs, List.map_cons, List.nodup_cons]
      refine ⟨fun hm => ?_, hI.nodup⟩
      obtain ⟨m', hm', he⟩ := List.mem_map.1 hm
      exact hn ((show m'.serverMsgID = uuid from he) ▸ (hI.stamped m' hm').known)

/-! ## Rows -/

/-- A watermark is only ever replaced by a higher one. -/
theorem FriendsMove.watermark (h : FriendsMove w w') (hF : FriendsOk w) {a b : Account} {d : ℕ}
    (hd : w.db.deletedSeq? a b = some d) : ∃ d', w'.db.deletedSeq? a b = some d' ∧ d ≤ d' := by
  cases h with
  | same _ hdel => exact ⟨d, by unfold Db.deletedSeq?; rw [hdel]; exact hd, le_rfl⟩
  | befriend _ _ _ hdel => exact ⟨d, by unfold Db.deletedSeq?; rw [hdel]; exact hd, le_rfl⟩
  | unfriend x y n _ hn _ _ hp hp' =>
    by_cases hx : IsPair x y a b
    · exact ⟨n, hp a b hx, (hF.watermark_le a b d hd).trans hn.le⟩
    · exact ⟨d, by rw [hp' a b hx]; exact hd, le_rfl⟩

theorem rowOk_old (hI : Inv J w) (hg : Grows J w w') (hf : FriendsMove w w') {r r' : OutboxRow}
    (hr : r ∈ w.db.outbox) (h : RowStep w w' r r') : RowOk J w' r' := by
  have hst := h.static
  cases hI.rows.row r hr with
  | message m hs hm hv hl hlife hfr =>
    refine .message m (hg.stamped hs) (h.messageRow hm) hv ?_ (h.life hm.operation hlife) fun hlive => ?_
    · rw [hst.actor, hst.peer]; exact hg.locked _ _ hl
    · have hle := (hI.ids.stamped m hs).le
      have hfr := hfr (hg.live hst hlive)
      unfold Db.Live at hlive
      rw [hst.actor, hst.peer, hst.seq] at hlive
      rw [hst.actor, hst.peer]
      exact hf.friend hfr (by rw [hm.seq]; exact hle) hlive
  | cleanup n ho hc hs hk hd =>
    obtain ⟨d, hd, hn⟩ := hd
    obtain ⟨d', hd', hle⟩ := hf.watermark hI.friends hd
    exact .cleanup n (hst.operation.trans ho) (by rw [hst.conversation, hst.actor, hst.peer, hc])
      (hst.seq.trans hs) (by rw [hst.key, hst.conversation, hk])
      ⟨d', by rw [hst.actor, hst.peer, hd'], hn.trans hle⟩
  | ack ho hk hr =>
    refine .ack (hst.operation.trans ho) (by rw [hst.key, hst.peer, hst.serverId, hk]) ?_
    rw [hst.peer, hst.serverId]; exact hg.receipts _ _ hr

theorem rowOk_new (hI : Inv J w) (hg : Grows J w w') (hf : FriendsMove w w') {new : List OutboxRow}
    (h : NewRow J w w' es new) : ∀ r ∈ new, RowOk J w' r := by
  intro r hr
  cases h with
  | none => cases hr
  | message m payload hm hj _ _ hl =>
    obtain rfl := List.mem_singleton.1 hr
    obtain ⟨hs, hv, hfr, -⟩ := hI.calls.send _ hm
    refine .message m (hg.stamped hs) ⟨rfl, rfl, rfl, rfl, rfl, rfl, rfl, Or.inl hj⟩ hv hl
      ⟨Nat.zero_le _, Nat.zero_le _, fun h => by simp [Db.newMessageRow] at h,
        fun h => by simp [Db.newMessageRow] at h⟩
      fun hlive => hf.friend hfr (hI.ids.stamped m hs).le hlive
  | cleanup a b cutoff hd =>
    obtain rfl := List.mem_singleton.1 hr
    exact .cleanup cutoff rfl rfl rfl rfl ⟨cutoff, hd, le_rfl⟩
  | ack a _ _ hrec =>
    obtain rfl := List.mem_singleton.1 hr
    exact .ack rfl rfl hrec

/-- The new row has the next id and a new key. -/
theorem NewRow.fresh {new : List OutboxRow} (h : NewRow J w w' es new) :
    (new = [] ∧ w'.db.nextOutboxId = w.db.nextOutboxId) ∨
    ∃ r, new = [r] ∧ r.id = w.db.nextOutboxId ∧ w'.db.nextOutboxId = w.db.nextOutboxId + 1 ∧
      ∀ r' ∈ w.db.outbox, (r'.operation, r'.dedupeKey) ≠ (r.operation, r.dedupeKey) := by
  cases h with
  | none hn => exact Or.inl ⟨rfl, hn⟩
  | message m payload _ _ hk _ _ hn =>
    exact Or.inr ⟨_, rfl, rfl, hn, fun r' hr' he => hk r' hr' (congrArg Prod.fst he)
      (congrArg Prod.snd he)⟩
  | cleanup a b cutoff _ hk hn =>
    exact Or.inr ⟨_, rfl, rfl, hn, fun r' hr' he => hk r' hr' (congrArg Prod.fst he)
      (congrArg Prod.snd he)⟩
  | ack a _ hk _ hn =>
    exact Or.inr ⟨_, rfl, rfl, hn, fun r' hr' he => hk r' hr' (congrArg Prod.fst he)
      (congrArg Prod.snd he)⟩

theorem rowsOk_step (hI : Inv J w) (hg : Grows J w w') (hf : FriendsMove w w')
    {f : OutboxRow → OutboxRow} {new : List OutboxRow} (h : OutboxStep J w w' es f new) :
    RowsOk J w' := by
  have hids : (w.db.outbox.map f).map (·.id) = w.db.outbox.map (·.id) := by
    rw [List.map_map]
    exact List.map_congr_left fun r hr => (h.row r hr).static.id
  have hkeys : (w.db.outbox.map f).map (fun r => (r.operation, r.dedupeKey))
      = w.db.outbox.map fun r => (r.operation, r.dedupeKey) := by
    rw [List.map_map]
    refine List.map_congr_left fun r hr => ?_
    have hst := (h.row r hr).static
    simp only [Function.comp, hst.operation, hst.key]
  have hrow : ∀ r ∈ w'.db.outbox, RowOk J w' r := by
    intro r hr
    rw [h.outbox] at hr
    rcases List.mem_append.1 hr with hr | hr
    · obtain ⟨r₀, hr₀, rfl⟩ := List.mem_map.1 hr
      exact rowOk_old hI hg hf hr₀ (h.row r₀ hr₀)
    · exact rowOk_new hI hg hf h.new r hr
  have hmem : ∀ r' ∈ w.db.outbox.map f, ∃ r ∈ w.db.outbox, Static r r' := by
    intro r' hr'
    obtain ⟨r, hr, rfl⟩ := List.mem_map.1 hr'
    exact ⟨r, hr, (h.row r hr).static⟩
  rcases h.new.fresh with ⟨rfl, hn⟩ | ⟨r, rfl, hid, hn, hk⟩
  · refine ⟨?_, fun r hr => ?_, ?_, hrow⟩
    · rw [h.outbox, List.append_nil, hids]; exact hI.rows.ids
    · rw [h.outbox, List.append_nil] at hr
      obtain ⟨r₀, hr₀, hst⟩ := hmem r hr
      rw [hst.id, hn]; exact hI.rows.next r₀ hr₀
    · rw [h.outbox, List.append_nil, hkeys]; exact hI.rows.keys
  · refine ⟨?_, fun r' hr => ?_, ?_, hrow⟩
    · rw [h.outbox]
      refine nodup_append_one (hids ▸ hI.rows.ids) fun r' hr' he => ?_
      obtain ⟨r₀, hr₀, hst⟩ := hmem r' hr'
      have := hI.rows.next r₀ hr₀
      have := hst.id
      omega
    · rw [h.outbox] at hr
      rcases List.mem_append.1 hr with hr | hr
      · obtain ⟨r₀, hr₀, hst⟩ := hmem r' hr
        have := hI.rows.next r₀ hr₀
        rw [hst.id, hn]; omega
      · rw [List.mem_singleton.1 hr, hid, hn]; exact Nat.lt_succ_self _
    · rw [h.outbox]
      refine nodup_append_one (hkeys ▸ hI.rows.keys) fun r' hr' he => ?_
      obtain ⟨r₀, hr₀, hst⟩ := hmem r' hr'
      exact hk r₀ hr₀ (by rw [← hst.operation, ← hst.key]; exact he)

/-- A row found by its columns is still there. -/
theorem Grows.find (hg : Grows J w w') {n : ℕ} {serverId : String} {owner : Account}
    (h : ∃ r ∈ w.db.outbox, r.operation = n ∧ r.serverId = serverId ∧ r.peer = owner) :
    ∃ r ∈ w'.db.outbox, r.operation = n ∧ r.serverId = serverId ∧ r.peer = owner := by
  obtain ⟨r, hr, h₁, h₂, h₃⟩ := h
  obtain ⟨r', hr', hst, -⟩ := hg.row r hr
  exact ⟨r', hr', hst.operation.trans h₁, hst.serverId.trans h₂, hst.peer.trans h₃⟩

theorem receiptsOk_step (hI : Inv J w) (h : Change J w w' es) (hg : Grows J w w')
    (hR : RowsOk J w') : ReceiptsOk w' := by
  rcases receipts_step h with h | ⟨a, ha, now, h⟩
  · refine ⟨by rw [h]; exact hI.receipts.keys, fun ρ hρ => ?_, fun ρ hρ => ?_⟩
    · exact hg.find (hI.receipts.message ρ (h ▸ hρ))
    · exact hg.find (hI.receipts.task ρ (h ▸ hρ))
  · have hmem : ∀ ρ ∈ w'.db.receipts, ρ ∈ w.db.receipts ∨
        (ρ.owner = a.owner ∧ ρ.serverId = a.serverId) := by
      intro ρ hρ
      rw [h] at hρ
      rcases mem_insertNew.1 hρ with hρ | ⟨rfl, -⟩
      · exact Or.inl hρ
      · exact Or.inr ⟨rfl, rfl⟩
    refine ⟨?_, fun ρ hρ => ?_, fun ρ hρ => ?_⟩
    · rw [h]
      refine nodup_insertNew hI.receipts.keys fun x _ he => ?_
      simpa using he
    · rcases hmem ρ hρ with hρ | ⟨h₁, h₂⟩
      · exact hg.find (hI.receipts.message ρ hρ)
      · obtain ⟨⟨m₀, ⟨-, r, hr, hm⟩, -, hrecv, hid, -⟩, hid', howner⟩ := hI.calls.ack a ha
        refine hg.find ⟨r, hr, hm.operation, ?_, ?_⟩
        · rw [hm.serverId, ← hid, hid', h₂]
        · rw [hm.peer, ← hrecv, howner, h₁]
    · rcases hmem ρ hρ with hρ | ⟨h₁, h₂⟩
      · exact hg.find (hI.receipts.task ρ hρ)
      · -- the task is there, new or old, and its key names owner and id
        obtain ⟨r, hr, hp⟩ := exists_insertNew
          (p := fun r : OutboxRow => r.operation = 3 && r.dedupeKey = ackKey a.owner a.serverId)
          (r := Db.newAckRow w.db.nextOutboxId a.owner a.serverId a.message)
          (by simp [Db.newAckRow]) w.db.outbox
        have hr : r ∈ w'.db.outbox := by rw [h]; exact hr
        simp only [Bool.and_eq_true, decide_eq_true_eq] at hp
        cases hR.row r hr with
        | message m _ hm => have := hm.operation; omega
        | cleanup n ho => omega
        | ack _ hk =>
          obtain ⟨h₃, h₄⟩ := ackKey_inj (hk.symm.trans hp.2)
          exact ⟨r, hr, hp.1, h₄.trans h₂.symm, h₃.trans h₁.symm⟩

/-! ## Entries -/

/-- A conversation is dropped only when none of its messages is live. -/
theorem entry_clear (hI : Inv J w) {db : Db} {a b : Account} {r : OutboxRow} {owner : Account}
    (h : w'.db = db.clearConversation a b) (hc : db.conversations = w.db.conversations)
    (hr : r ∈ w.db.outbox) (ho : r.operation = 1) (hn : ¬ IsPair a b r.actor r.peer)
    (he : w.db.Entry owner r.conversation r.seq) : w'.db.Entry owner r.conversation r.seq := by
  rcases clearConversation_cases db a b with h' | ⟨cutoff, -, h'⟩ <;> rw [h'] at h
  · exact he.of_keeps (by rw [h, hc]; exact Evolves.refl .refl _)
  · obtain ⟨e, hmem, h₁, h₂, h₃⟩ := he
    refine ⟨e, ?_, h₁, h₂, h₃⟩
    rw [h]
    refine mem_deleteWhere.2 ⟨hc ▸ hmem, ?_⟩
    have : e.conversation ≠ conversationId a b := fun hc =>
      hn (isPair_of_conversation hI.ids hI.rows hr ho (h₂.symm.trans hc))
    simpa using this

/-- **The entries of live messages stay.** -/
theorem entry_step (hI : Inv J w) (h : Change J w w' es) {r : OutboxRow} {owner : Account}
    (hr : r ∈ w.db.outbox) (ho : r.operation = 1) (hl : w'.db.Live r)
    (he : w.db.Entry owner r.conversation r.seq) : w'.db.Entry owner r.conversation r.seq := by
  have hsame : w'.db.conversations = w.db.conversations → w'.db.Entry owner r.conversation r.seq :=
    fun hc => he.of_keeps (by rw [hc]; exact Evolves.refl .refl _)
  have hfm := friends_move hI h
  obtain ⟨m, hs, hm, -, -, -, hfr⟩ := hI.rows.message hr ho
  have hseq : r.seq ≤ w.lastId := by rw [hm.seq]; exact (hI.ids.stamped m hs).le
  cases h with
  | same h => exact hsame (by rw [h])
  | lock a b h => exact hsame (by rw [h]; rfl)
  | register u h => exact hsame (by rw [h])
  | edit h =>
    obtain ⟨cs, us, hdb, hk⟩ := h
    exact he.of_keeps (by rw [hdb]; exact hk)
  | insert m payload _ _ _ _ h => exact hsame (by rw [h]; rfl)
  | claim r now token _ _ _ h => exact hsame (by rw [h]; rfl)
  | retry k now _ h => exact hsame (by rw [h]; rfl)
  | confirm c _ h => exact hsame (by rw [h]; rfl)
  | commit k now b _ _ h => exact he.of_keeps h.entries
  | receipt a now _ h => exact hsame (by rw [h]; rfl)
  | applications a b apps n h => exact hsame (by rw [h]; rfl)
  | befriend c now apps _ h => exact hsame (by rw [h]; rfl)
  | unfriend c now seq hc hf hs hlast h =>
    refine entry_clear hI h rfl hr ho (fun hp => ?_) he
    have hd : w'.db.deletedSeq? r.actor r.peer = some seq := by
      rw [h]
      unfold Db.deletedSeq?
      rw [(clearConversation_frame _ _ _).2.1]
      exact deletedSeq_close hp
    have := hl seq hd
    omega
  | clear c hc hn h =>
    refine entry_clear hI h rfl hr ho (fun hp => ?_) he
    obtain ⟨x, hx, h₁, h₂⟩ := hfr (hfm.above hI.friends hl)
    have : Db.pairRow c.command.actor c.target x = true := pairRow_iff.2 (by rw [h₁, h₂]; exact hp)
    rw [List.any_eq_false] at hn
    exact hn x hx this

/-! ## Stores -/

/-- Every row of the new outbox is an old row after a step, or the new one. -/
theorem OutboxStep.cases {f : OutboxRow → OutboxRow} {new : List OutboxRow}
    (h : OutboxStep J w w' es f new) {r' : OutboxRow} (hr : r' ∈ w'.db.outbox) :
    (∃ r ∈ w.db.outbox, r' = f r ∧ RowStep w w' r (f r)) ∨ r' ∈ new := by
  rw [h.outbox] at hr
  rcases List.mem_append.1 hr with hr | hr
  · obtain ⟨r, hmem, rfl⟩ := List.mem_map.1 hr
    exact Or.inl ⟨r, hmem, rfl, h.row r hmem⟩
  · exact Or.inr hr

/-- A new message row is ready and not staged. -/
theorem NewRow.initial {new : List OutboxRow} (h : NewRow J w w' es new) {r : OutboxRow} (hr : r ∈ new)
    (ho : r.operation = 1) : ∃ m payload, ⟨m, .insert⟩ ∈ w.sends ∧ J.printMsg m = some payload ∧
      r = Db.newMessageRow w.db.nextOutboxId m payload ∧ .accepted m ∈ es := by
  cases h with
  | none => cases hr
  | message m payload hm hj _ he => exact ⟨m, payload, hm, hj, List.mem_singleton.1 hr, he⟩
  | cleanup a b cutoff => rw [List.mem_singleton.1 hr] at ho; simp [Db.newCleanupRow] at ho
  | ack a => rw [List.mem_singleton.1 hr] at ho; simp [Db.newAckRow] at ho

theorem staged_step (hI₁ : Inv J { w with stores := w'.stores }) (hI : Inv J w)
    (h : Change J w w' es) (hg : Grows J w w') {f : OutboxRow → OutboxRow} {new : List OutboxRow}
    (hstep : OutboxStep J w w' es f new) {r' : OutboxRow} (hr' : r' ∈ w'.db.outbox)
    (ho : r'.operation = 1) (hs : 1 ≤ r'.stage) (hl : w'.db.Live r') : Durable w' r' := by
  rcases hstep.cases hr' with ⟨r, hr, rfl, hrow⟩ | hnew
  · have hst := hrow.static
    have hlive : w'.db.Live r := by
      unfold Db.Live at hl ⊢; rwa [hst.actor, hst.peer, hst.seq] at hl
    have ho : r.operation = 1 := hst.operation.symm.trans ho
    have hmove : Durable w' r → Durable w' (f r) := fun hd =>
      ⟨by rw [hst.serverId]; exact hd.body, by rw [hst.actor, hst.conversation, hst.seq]; exact hd.sender,
        by rw [hst.peer, hst.conversation, hst.seq]; exact hd.recipient⟩
    have hold : 1 ≤ r.stage → Durable w' (f r) := fun hs => by
      obtain ⟨h₁, h₂, h₃⟩ := hI₁.stores.staged r hr ho hs (hg.live hst hl)
      exact hmove ⟨h₁, entry_step hI h hr ho hlive h₂, entry_step hI h hr ho hlive h₃⟩
    cases hstep.recording with
    | none _ hsame => exact hold (hsame r hr ▸ hs)
    | one r₀ m hr₀ _ _ hd _ hstage =>
      rw [hstage r hr] at hs
      split_ifs at hs with hid
      · rw [hI.rows.eq_of_id hr hr₀ hid] at hmove
        rw [hI.rows.eq_of_id hr hr₀ hid]
        exact hmove hd
      · exact hold hs
  · obtain ⟨m, payload, -, -, rfl, -⟩ := hstep.new.initial hnew ho
    simp [Db.newMessageRow] at hs

theorem done_step (hI₁ : Inv J { w with stores := w'.stores }) (hg : Grows J w w')
    {f : OutboxRow → OutboxRow} {new : List OutboxRow} (hstep : OutboxStep J w w' es f new)
    {r' : OutboxRow} (hr' : r' ∈ w'.db.outbox) (ho : r'.operation = 1) (hs : r'.state = 2)
    (hl : w'.db.Live r') :
    w'.db.hasReceipt r'.peer r'.serverId = true ∨ w'.stores.Published r'.serverId := by
  rcases hstep.cases hr' with ⟨r, hr, rfl, hrow⟩ | hnew
  · have hst := hrow.static
    have hlive := hg.live hst hl
    have ho : r.operation = 1 := hst.operation.symm.trans ho
    rw [hst.peer, hst.serverId]
    generalize f r = r'' at hrow hs
    cases hrow with
    | same => exact (hI₁.stores.done r hr ho hs hlive).imp (hg.receipts _ _) id
    | confirm c hc _ hid =>
      obtain ⟨⟨r₀, hr₀, ho₀, hid₀, -, hp⟩, -⟩ := hI₁.calls.consumer c hc
      rw [eq_of_serverId hI₁.ids hI₁.rows hr₀ hr ho₀ ho (hid₀.trans hid.symm)] at hp
      rw [hid]; exact Or.inr (hp hlive)
    | complete _ hrec => exact Or.inl (hg.receipts _ _ (hrec ho).2)
    | claim => simp [Db.claimRow] at hs
    | release => simp at hs
    | refuse => simp at hs
    | stage _ h₁ => have : r.state = 2 := hs; omega
    | cancel => simp [Db.cancelRow] at hs
  · obtain ⟨m, payload, -, -, rfl, -⟩ := hstep.new.initial hnew ho
    simp [Db.newMessageRow] at hs

/-- A message that was not in the outbox has not been recorded. -/
theorem count_new (hI : Inv J w) {m : MsgData} (hs : m ∈ w.stamped)
    (hk : ∀ r ∈ w.db.outbox, r.operation = 1 → r.dedupeKey ≠ messageKey m) :
    w.db.recorded.countP (fun m' => m'.serverMsgID = m.serverMsgID) = 0 := by
  rw [List.countP_eq_zero]
  intro m' hm' he
  obtain ⟨r, hr, ho, hid⟩ := hI.stores.recorded m' hm'
  obtain ⟨m₀, hs₀, hm₀, -⟩ := hI.rows.message hr ho
  have : m₀ = m := eq_of_serverMsgID hI.ids hs₀ hs (by
    rw [← hm₀.serverId, hid]; simpa using he)
  exact hk r hr ho (by rw [hm₀.key, this])

theorem count_step (hI : Inv J w) {f : OutboxRow → OutboxRow} {new : List OutboxRow}
    (hstep : OutboxStep J w w' es f new) {r' : OutboxRow} (hr' : r' ∈ w'.db.outbox)
    (ho : r'.operation = 1) :
    w'.db.recorded.countP (fun m => m.serverMsgID = r'.serverId) = r'.stage := by
  rcases hstep.cases hr' with ⟨r, hr, rfl, hrow⟩ | hnew
  · have hst := hrow.static
    have ho : r.operation = 1 := hst.operation.symm.trans ho
    have hold := hI.stores.count r hr ho
    rw [hst.serverId]
    cases hstep.recording with
    | none hrec hsame => rw [hrec, hold, hsame r hr]
    | one r₀ m hr₀ hm₀ hg _ hrec hstage =>
      rw [hrec, List.countP_append, hold, hstage r hr]
      split_ifs with hid
      · rw [hI.rows.eq_of_id hr hr₀ hid, hm₀.serverId, hg]; simp
      · have hne : m.serverMsgID ≠ r.serverId := fun he =>
          hid (congrArg OutboxRow.id (eq_of_serverId hI.ids hI.rows hr hr₀ ho hm₀.operation
            (he.symm.trans hm₀.serverId.symm)))
        simp [hne]
  · obtain ⟨m, payload, hm, hj, rfl, -⟩ := hstep.new.initial hnew ho
    have hs := (hI.calls.send _ hm).1
    have hkeys : ∀ r ∈ w.db.outbox, r.operation = 1 → r.dedupeKey ≠ messageKey m := by
      intro r hr h₁ hk
      rcases hstep.new.fresh with ⟨rfl, -⟩ | ⟨r₁, rfl, -, -, hfresh⟩
      · cases hnew
      · rw [← List.mem_singleton.1 hnew] at hfresh
        exact hfresh r hr (by rw [h₁, hk]; rfl)
    have hzero := count_new hI hs hkeys
    cases hstep.recording with
    | none hrec => rw [hrec]; exact hzero
    | one r₀ m₀ hr₀ hm₀ _ _ hrec =>
      have hne : m₀.serverMsgID ≠ m.serverMsgID := fun he => by
        obtain ⟨m₁, hs₁, hm₁, -⟩ := hI.rows.message hr₀ hm₀.operation
        have : m₁ = m := eq_of_serverMsgID hI.ids hs₁ hs (by
          rw [← hm₁.serverId, hm₀.serverId, he])
        exact hkeys r₀ hr₀ hm₀.operation (by rw [hm₁.key, this])
      rw [hrec, List.countP_append]
      change _ + _ = 0
      rw [show (Db.newMessageRow w.db.nextOutboxId m payload).serverId = m.serverMsgID from rfl, hzero]
      simp [hne]

theorem storesOk_step (hI : Inv J w) (hI₁ : Inv J { w with stores := w'.stores })
    (h : Change J w w' es) (hg : Grows J w w') {f : OutboxRow → OutboxRow} {new : List OutboxRow}
    (hstep : OutboxStep J w w' es f new) : StoresOk J w' where
  keys := hI₁.stores.keys
  doc := fun d hd => by
    obtain ⟨r, m, hdoc⟩ := hI₁.stores.doc d hd
    obtain ⟨r', hr', -, hle, hm'⟩ := hg.row r hdoc.row
    exact ⟨r', m, hr', hg.stamped hdoc.stamped, hm' m hdoc.message, hdoc.body,
      fun hc => (hdoc.committed hc).trans hle, hdoc.status.imp id fun h => ⟨h.1, hg.receipts _ _ h.2⟩⟩
  cached := fun e he => by
    obtain ⟨m, rfl, hq, hs⟩ := hI₁.stores.cached e he
    exact ⟨m, rfl, Queued.grows (w := w) hq hg, hs.grows hg⟩
  kafka := fun k hk => (hI₁.stores.kafka k hk).grows hg
  staged := fun _ hr ho hs hl => staged_step hI₁ hI h hg hstep hr ho hs hl
  done := fun _ hr ho hs hl => done_step hI₁ hg hstep hr ho hs hl
  count := fun _ hr ho => count_step hI hstep hr ho
  recorded := fun m hm => by
    have hold : ∀ m ∈ w.db.recorded, ∃ r ∈ w'.db.outbox, r.operation = 1 ∧ r.serverId = m.serverMsgID := by
      intro m hm
      obtain ⟨r, hr, ho, he⟩ := hI.stores.recorded m hm
      obtain ⟨r', hr', hst, -⟩ := hg.row r hr
      exact ⟨r', hr', hst.operation.trans ho, hst.serverId.trans he⟩
    cases hstep.recording with
    | none hrec => exact hold m (hrec ▸ hm)
    | one r₀ m₀ hr₀ hm₀ _ _ hrec =>
      rw [hrec] at hm
      rcases List.mem_append.1 hm with hm | hm
      · exact hold m hm
      · rw [List.mem_singleton.1 hm]
        obtain ⟨r', hr', hst, -⟩ := hg.row r₀ hr₀
        exact ⟨r', hr', hst.operation.trans hm₀.operation, hst.serverId.trans hm₀.serverId⟩

end

end ApeServer
