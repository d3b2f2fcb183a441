/-
  The invariant for the calls in flight, and the invariant as a whole.

  * `inv_step`: every step keeps the invariant;
  * `inv_reachable`: it holds in every reachable state;
  * `Grows.trans`, `trace_grows`: along a run the tables only grow.
-/
import ApeServer.System.TableInv

namespace ApeServer

open Table

section
variable {J : Codec} {w w' : World} {es : List Event}

/-! ## Sending -/

theorem samePair_iff {a b c d : Account} : samePair a b c d = true ↔ IsPair c d a b := by
  simp [samePair, IsPair]

/-- The friend check of a call that holds the lock of its pair stays true. -/
theorem FriendsMove.insert (h : FriendsMove w w') {m : MsgData} (hm : ⟨m, .insert⟩ ∈ w.sends)
    (hf : w.db.Friend m.sendID m.recvID) (ha : w.db.Above m.sendID m.recvID m.seq) :
    w'.db.Friend m.sendID m.recvID ∧ w'.db.Above m.sendID m.recvID m.seq := by
  cases h with
  | same hf' hd => exact ⟨(friend_congr hf').2 hf, (above_congr hd).2 ha⟩
  | befriend a b _ hd hf' => exact ⟨(hf' _ _).2 (Or.inl hf), (above_congr hd).2 ha⟩
  | unfriend a b n hfree _ _ hf' _ hd' =>
    have hp : ¬ IsPair a b m.sendID m.recvID := fun hp => by
      have := List.all_eq_true.1 hfree _ hm
      simp [samePair_iff.2 hp] at this
    refine ⟨(hf' _ _).2 ⟨hf, hp⟩, fun d hd => ha d ?_⟩
    rw [← hd' _ _ hp]; exact hd

/-- The friend check of `QueueSingleMessage` means friendship. -/
theorem friend_of_allows (h : FriendsOk w) {a b : Account} {seq : Int}
    (ha : w.db.friendAllows a b seq = true) : w.db.Friend a b :=
  (friend_of_count (friendCount_eq_two ha)).elim id fun h' => h.symm _ _ h'

theorem polled_row (hR : RowsOk J w') {r : OutboxRow} (hr : r ∈ w'.db.outbox) (ho : r.operation = 1) :
    Polled J w' (outboxRow r) := by
  obtain ⟨m, hs, hm, -⟩ := hR.message hr ho
  exact ⟨r, hr, m, hs, hm, rfl, le_rfl, fun m' hp => hm.parse_eq hp⟩

theorem sendOk_step (hI : Inv J w) (hg : Grows J w w') (hf : FriendsMove w w') (hR : RowsOk J w')
    {c : SendCall} (h : c ∈ w.sends ∨ SendNew J w w' c) : SendOk J w' c := by
  rcases h with hc | h
  · obtain ⟨m, pc⟩ := c
    obtain ⟨hs, hpc⟩ := hI.calls.send _ hc
    refine ⟨hg.stamped hs, ?_⟩
    cases pc with
    | queue => trivial
    | insert => exact ⟨hpc.1, hf.insert hc hpc.2.1 hpc.2.2⟩
    | poll task => exact Polled.grows hpc hg
  · cases h with
    | queue m hm => exact ⟨hm, trivial⟩
    | insert m hm hv hl hd =>
      obtain ⟨ha, -⟩ := queueLookup_none hl
      refine ⟨hg.stamped (hI.calls.send _ hm).1, hv, ?_, ?_⟩
      · rw [hd]; exact friend_of_allows hI.friends ha
      · rw [hd]; exact friendAllows_above ha
    | poll m pc r hm hr ho =>
      refine ⟨hg.stamped (hI.calls.send _ hm).1, polled_row hR hr ?_⟩
      rcases ho with ⟨ho, -⟩ | ⟨task, rfl, hid⟩
      · exact ho
      · obtain ⟨-, r₀, hr₀, m₀, -, hm₀, hid₀, -⟩ := hI.calls.send _ hm
        obtain ⟨r', hr', hst, -⟩ := hg.row r₀ hr₀
        rw [hR.eq_of_id hr hr' (by rw [hst.id, hid₀, hid])]
        exact hst.operation.trans hm₀.operation

/-! ## Workers -/

theorem workerOk_claimed (hI : Inv J w) {r : OutboxRow} {token : String} (hr : r ∈ w.db.outbox)
    (hs : r.state = 0 ∨ r.state = 1) : WorkerOk J w
      ⟨{ outboxRow r with leaseToken := token, attempts := r.attempts + 1, state := 1 },
        if r.operation = 1 then .persist else .dispatch⟩ r := by
  refine ⟨hr, rfl, rfl, rfl, rfl, rfl, rfl, rfl, fun ho => ?_, fun ho hp => ?_⟩
  · obtain ⟨m, hm, hrow, -⟩ := hI.rows.message hr ho
    exact ⟨m, hm, hrow.parse (by omega), hrow⟩
  · have ho : r.operation = 1 := ho
    simp [ho] at hp

/-- After the persist phase the message is staged. -/
theorem staged_of_commit (hI : Inv J w) {k : Worker} {r : OutboxRow} {now : Int}
    (hW : WorkerOk J w k r) (ho : k.task.operation = 1)
    (h : Commit J w.db k.task true now w'.stores true w'.db) {r' : OutboxRow}
    (hr' : r' ∈ w'.db.outbox) (hid : r'.id = k.task.id) (hle : r.stage ≤ r'.stage) :
    1 ≤ r'.stage := by
  generalize hdb : w'.db = db at h
  cases h with
  | already hr _ hs =>
    obtain rfl := hW.of_leased hI.rows hr.leased
    omega
  | stage =>
    rw [hdb] at hr'
    obtain ⟨r₁, -, rfl⟩ := mem_updateWhere.1 hr'
    split_ifs at hid ⊢ with h₁
    · exact le_rfl
    · exact absurd hid (by simpa using h₁)
  | requeue _ hp => cases hp
  | complete _ hp => cases hp
  | cleanup _ h₂ => omega
  | ack _ h₃ => omega

theorem workerOk_step (hI : Inv J w) (hg : Grows J w w') {k : Worker}
    (h : k ∈ w.workers ∨ WorkerNew J w w' k) : ∃ r, WorkerOk J w' k r := by
  rcases h with hk | h
  · obtain ⟨r, hW⟩ := hI.calls.worker k hk
    exact hW.grows hg
  · cases h with
    | claimed r token hr hs => exact (workerOk_claimed hI hr hs).grows hg
    | stopped task pc pc' hk hp =>
      obtain ⟨r, hW⟩ := hI.calls.worker _ hk
      have : WorkerOk J w ⟨task, pc'⟩ r :=
        ⟨hW.row, hW.id, hW.operation, hW.actor, hW.peer, hW.conversation, hW.serverId, hW.seq,
          hW.message, fun _ h => by rcases hp with hp | hp <;> rw [hp] at h <;> cases h⟩
      exact this.grows hg
    | persisted task now hk hc =>
      obtain ⟨r, hW⟩ := hI.calls.worker _ hk
      obtain ⟨r', hr', hst, hle, hm'⟩ := hg.row r hW.row
      have hid : r'.id = task.id := hst.id.trans hW.id
      refine ⟨r', hr', hid, hst.operation.trans hW.operation, hst.actor.trans hW.actor,
        hst.peer.trans hW.peer, hst.conversation.trans hW.conversation,
        hst.serverId.trans hW.serverId, hst.seq.trans hW.seq, fun ho => ?_, fun ho _ => ?_⟩
      · obtain ⟨m, hs, hp, hm⟩ := hW.message ho
        exact ⟨m, hg.stamped hs, hp, hm' m hm⟩
      · exact staged_of_commit hI hW ho hc hr' hid hle

theorem tokens_step (hI : Inv J w) (hu : w.uuids ⊆ w'.uuids) (h : Tokens w w') :
    (w'.workers.map (·.task.leaseToken)).Nodup ∧ ∀ k ∈ w'.workers, k.task.leaseToken ∈ w'.uuids := by
  have hold : ∀ t ∈ w.workers.map (·.task.leaseToken), t ∈ w.uuids := by
    intro t ht
    obtain ⟨k, hk, rfl⟩ := List.mem_map.1 ht
    exact hI.calls.token k hk
  cases h with
  | fewer h =>
    refine ⟨hI.calls.tokens.sublist h, fun k hk => hu (hold _ (h.subset ?_))⟩
    exact List.mem_map_of_mem hk
  | claim token hn hw h =>
    refine ⟨?_, fun k hk => ?_⟩
    · rw [h, List.nodup_append]
      refine ⟨hI.calls.tokens, by simp, fun a ha b hb => ?_⟩
      rw [List.mem_singleton.1 hb]
      exact fun e => hn (e ▸ hold a ha)
    · have hk : k.task.leaseToken ∈ w.workers.map (·.task.leaseToken) ++ [token] :=
        h ▸ List.mem_map_of_mem hk
      rcases List.mem_append.1 hk with hk | hk
      · exact hu (hold _ hk)
      · rw [List.mem_singleton.1 hk]; exact hw

/-! ## Messages read from the stores -/

theorem known_decode (hI : Inv J w) {d : Doc} (hd : d ∈ w.stores.mongo) :
    Known J w (decodeMessage d) := by
  obtain ⟨r, m, hdoc⟩ := hI.stores.doc d hd
  refine ⟨m, ⟨hdoc.stamped, r, hdoc.row, hdoc.message⟩, ?_, ?_, hdoc.serverMsgID, hdoc.seq⟩
  · change ofInt64 d.sendID = _
    rw [hdoc.sendID, ofInt64_asInt64]
  · change ofInt64 d.recvID = _
    rw [hdoc.recvID, ofInt64_asInt64]

/-- A cached message is one of the outbox, under its own id. -/
theorem known_cached (hI : Inv J w) {id : String} {m : MsgData}
    (h : w.stores.redis.getMsg id = some m) : Known J w m ∧ m.serverMsgID = id := by
  unfold Redis.getMsg Redis.get at h
  split at h
  · next m' hm =>
    cases h
    obtain ⟨e, he, hv⟩ := Option.map_eq_some_iff.1 hm
    obtain ⟨m₀, rfl, hq, -⟩ := hI.stores.cached e (List.mem_of_find?_eq_some he)
    have hkey : Redis.msgKey m₀.serverMsgID = Redis.msgKey id := by
      simpa using List.find?_some he
    cases hv
    refine ⟨⟨_, hq, rfl, rfl, rfl, rfl⟩, ?_⟩
    unfold Redis.msgKey at hkey
    exact (String.append_right_inj "msg:").1 hkey
  · cases h

/-- The payload of a record is the id of its message. -/
theorem payload_sent (hI : Inv J w) {s : String} (h : Sent w s) : payloadServerId s = s := by
  obtain ⟨r, hr, ho, he, -⟩ := h
  obtain ⟨m, hs, hm, -⟩ := hI.rows.message hr ho
  rw [← he, hm.serverId]
  exact payloadServerId_uuid (hI.ids.stamped m hs).uuid

/-- Kafka keeps what it has. -/
theorem kafka_subset (h : StoresMove J w w'.stores) : w.stores.kafka ⊆ w'.stores.kafka := by
  cases h with
  | same h => rw [h]; exact fun _ h => h
  | expire key h => rw [h]; exact fun _ h => h
  | phase k hk hp h =>
    clear hk hp
    generalize w'.stores = x at h
    induction h with
    | refl => exact fun _ h => h
    | tail _ hs ih =>
      refine fun e he => ?_
      have he := ih he
      cases hs with
      | enqueue => exact List.mem_append_left _ he
      | _ => exact he

theorem consumerOk_step (hI : Inv J w) (hS : StoresOk J w') (hI₁ : Inv J { w with stores := w'.stores })
    (hg : Grows J w w') (hk : w.stores.kafka ⊆ w'.stores.kafka) {c : Consumer}
    (h : c ∈ w.consumers ∨ ConsumerNew w c) :
    Sent w' c.serverId ∧ Known J w' c.message ∧ c.message.serverMsgID = c.serverId := by
  have hold : ∀ c ∈ w.consumers,
      Sent w' c.serverId ∧ Known J w' c.message ∧ c.message.serverMsgID = c.serverId := by
    intro c hc
    obtain ⟨h₁, -⟩ := hI₁.calls.consumer c hc
    obtain ⟨-, h₂, h₃⟩ := hI.calls.consumer c hc
    exact ⟨h₁.grows hg, h₂.grows hg, h₃⟩
  rcases h with hc | h
  · exact hold c hc
  · cases h with
    | moved serverId m pc pc' hc => exact hold ⟨serverId, m, pc⟩ hc
    | fetched r m hr hm =>
      have hpay := payload_sent hI (hI.stores.kafka r hr)
      have hsent : Sent w' (payloadServerId r.payload) := by rw [hpay]; exact hS.kafka r (hk hr)
      rcases hm with hm | hm
      · obtain ⟨h₁, h₂⟩ := known_cached hI hm
        exact ⟨hsent, h₁.grows hg, h₂⟩
      · obtain ⟨d, hd, he, rfl⟩ := getMsgByServerMsgID_some hm
        exact ⟨hsent, (known_decode hI hd).grows hg, he⟩

theorem ackOk_new (hI : Inv J w) {a : AckCall}
    (h : ackLookup J w.db w.stores.mongo a.owner a.serverId = .ok (.commit a.message)) :
    Known J w a.message ∧ a.message.serverMsgID = a.serverId ∧ a.message.recvID = a.owner := by
  obtain ⟨howner, ⟨r, hr, ho, hid, hp⟩ | ⟨d, hd, hid, he⟩⟩ := ackLookup_commit h
  · obtain ⟨m, hs, hm, -⟩ := hI.rows.message hr ho
    have he := hm.parse_eq hp
    rw [he] at howner ⊢
    exact ⟨⟨m, ⟨hs, r, hr, hm⟩, rfl, rfl, rfl, rfl⟩, hm.serverId.symm.trans hid, howner⟩
  · refine ⟨he ▸ known_decode hI hd, ?_, howner⟩
    rw [he]; exact hid

theorem callsOk_step (hI : Inv J w) (hI₁ : Inv J { w with stores := w'.stores }) (h : Move J w w' es)
    (hg : Grows J w w') (hR : RowsOk J w') (hS : StoresOk J w') : CallsOk J w' where
  send := fun c hc => sendOk_step hI hg (friends_move hI h.change) hR (h.calls.send c hc)
  worker := fun k hk => workerOk_step hI hg (h.calls.worker k hk)
  tokens := (tokens_step hI h.ids.uuids h.calls.tokens).1
  token := (tokens_step hI h.ids.uuids h.calls.tokens).2
  consumer := fun c hc =>
    consumerOk_step hI hS hI₁ hg (kafka_subset h.stores) (h.calls.consumer c hc)
  delivery := fun m hm => by
    rcases h.calls.delivery m hm with hm | ⟨d, hd, rfl⟩
    · exact (hI.calls.delivery m hm).grows hg
    · exact (known_decode hI hd).grows hg
  ack := fun a ha => by
    rcases h.calls.ack a ha with ha | ha
    · obtain ⟨h₁, h₂⟩ := hI.calls.ack a ha
      exact ⟨h₁.grows hg, h₂⟩
    · obtain ⟨h₁, h₂⟩ := ackOk_new hI ha
      exact ⟨h₁.grows hg, h₂⟩
  friend := fun c hc => (h.calls.friend c hc).elim (hI.calls.friend c) friendStart_ne

/-! ## The invariant -/

theorem inv_move (hI : Inv J w) (h : Move J w w' es) : Inv J w' := by
  have hI₁ := inv_storesMove hI h.stores
  have hg := grows_of_move hI h
  obtain ⟨f, new, hstep⟩ := outbox_step hI h.change
  have hR := rowsOk_step hI hg (friends_move hI h.change) hstep
  have hS := storesOk_step hI hI₁ h.change hg hstep
  exact ⟨idsOk_move hI.ids h.ids, friendsOk_move hI h.change h.ids.lastId, hR,
    receiptsOk_step hI h.change hg hR, hS, callsOk_step hI hI₁ h hg hR hS⟩

/-- **Every step keeps the invariant.** -/
theorem inv_step {a : Action} (hI : Inv J w) (h : step J w a = some (w', es)) : Inv J w' :=
  inv_move hI (step_move h)

/-- **The invariant holds in every reachable state.** -/
theorem inv_reachable (h : SysReachable J w) : Inv J w :=
  h.invariant (inv_start J) fun _ _ _ _ hI hs => inv_step hI hs

theorem inv_trace (T : SysTrace J) {i : ℕ} (hi : i ≤ T.len) : Inv J (T.state i) :=
  inv_reachable (T.reachable hi)

/-! ## Growth along runs -/

theorem Grows.refl (w : World) : Grows J w w :=
  ⟨fun r hr => ⟨r, hr, ⟨rfl, rfl, rfl, rfl, rfl, rfl, rfl, rfl⟩, le_rfl, fun _ h => h⟩, fun _ h => h,
    fun _ h => h, le_rfl, fun _ _ _ h => h, fun _ _ h => h, fun _ _ h => h⟩

theorem Static.trans {r₁ r₂ r₃ : OutboxRow} (h : Static r₁ r₂) (h' : Static r₂ r₃) : Static r₁ r₃ :=
  ⟨h'.id.trans h.id, h'.operation.trans h.operation, h'.key.trans h.key, h'.actor.trans h.actor,
    h'.peer.trans h.peer, h'.conversation.trans h.conversation, h'.serverId.trans h.serverId,
    h'.seq.trans h.seq⟩

theorem Grows.trans {w₁ w₂ w₃ : World} (h : Grows J w₁ w₂) (h' : Grows J w₂ w₃) : Grows J w₁ w₃ := by
  refine ⟨fun r hr => ?_, fun _ hm => h'.stamped (h.stamped hm), fun _ hu => h'.uuids (h.uuids hu),
    h.lastId.trans h'.lastId, fun a b s ha => h.above a b s (h'.above a b s ha),
    fun o s hr => h'.receipts o s (h.receipts o s hr), fun a b hl => h'.locked a b (h.locked a b hl)⟩
  obtain ⟨r', hr', h₁, h₂, h₃⟩ := h.row r hr
  obtain ⟨r'', hr'', h₁', h₂', h₃'⟩ := h'.row r' hr'
  exact ⟨r'', hr'', h₁.trans h₁', h₂.trans h₂', fun m hm => h₃' m (h₃ m hm)⟩

/-- **Along a run the tables only grow.** -/
theorem trace_grows (T : SysTrace J) {i j : ℕ} (hij : i ≤ j) (hj : j ≤ T.len) :
    Grows J (T.state i) (T.state j) :=
  T.related (P := Inv J) (fun _ hi => inv_trace T hi) Grows.refl (fun _ _ _ => Grows.trans)
    (fun _ _ _ _ hI hs => grows_of_move hI (step_move hs)) hij hj

end

end ApeServer
