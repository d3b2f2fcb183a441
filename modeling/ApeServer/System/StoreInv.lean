/-
  The invariant under the writes to MongoDB, Redis and Kafka.

  The stores change while the tables of the writing transaction do not, so
  each single write must keep the invariant (`inv_storeStep`); the rest of the
  phase may roll back afterwards.  What a write must respect is that live
  bodies stay (`KeepsBodies`): only the cleanup of a deleted conversation
  removes documents, and it reaches no live message.
-/
import ApeServer.System.Rows

namespace ApeServer

open Table

section
variable {J : Codec} {w : World} {x : Stores}

/-- The documents of live messages stay, published if they were. -/
def KeepsBodies (w : World) (x : Stores) : Prop :=
  ∀ r ∈ w.db.outbox, r.operation = 1 → w.db.Live r → ∀ d ∈ w.stores.mongo, d.serverMsgID = r.serverId →
    ∃ d' ∈ x.mongo, d'.serverMsgID = r.serverId ∧ (d.committed = true → d'.committed = true)

theorem KeepsBodies.of_mongo (h : x.mongo = w.stores.mongo) : KeepsBodies w x :=
  fun _ _ _ _ d hd he => ⟨d, h ▸ hd, he, id⟩

theorem KeepsBodies.published (h : KeepsBodies w x) {r : OutboxRow} (hr : r ∈ w.db.outbox)
    (ho : r.operation = 1) (hl : w.db.Live r) (hp : w.stores.Published r.serverId) :
    x.Published r.serverId := by
  obtain ⟨d, hd, he, hc⟩ := hp
  obtain ⟨d', hd', he', hc'⟩ := h r hr ho hl d hd he
  exact ⟨d', hd', he', hc' hc⟩

theorem Sent.of_keeps {serverId : String} (h : Sent w serverId) (hx : KeepsBodies w x) :
    Sent { w with stores := x } serverId := by
  obtain ⟨r, hr, ho, he, hs, hp⟩ := h
  refine ⟨r, hr, ho, he, hs, fun hl => ?_⟩
  subst he
  exact hx.published hr ho hl (hp hl)

/-- What the stores must satisfy after a write. -/
structure StoreWrite (J : Codec) (w : World) (x : Stores) : Prop where
  bodies : KeepsBodies w x
  keys : (x.mongo.map (·.serverMsgID)).Nodup
  doc : ∀ d ∈ x.mongo, ∃ r m, DocOk J w d r m
  cached : ∀ e ∈ x.redis.strings, e ∈ w.stores.redis.strings ∨
    ∃ m, e = (Redis.msgKey m.serverMsgID, .message m) ∧ Queued J w m ∧
      Sent { w with stores := x } m.serverMsgID
  kafka : ∀ k ∈ x.kafka, k ∈ w.stores.kafka ∨ Sent { w with stores := x } k.payload

theorem inv_storeWrite (hI : Inv J w) (h : StoreWrite J w x) : Inv J { w with stores := x } where
  ids := ⟨hI.ids.bound, fun m hm => by
    obtain ⟨h₁, h₂, h₃, h₄, h₅, h₆⟩ := hI.ids.stamped m hm
    exact ⟨h₁, h₂, h₃, h₄, h₅, h₆⟩, hI.ids.nodup⟩
  friends := by
    obtain ⟨h₁, h₂, h₃, h₄, h₅⟩ := hI.friends
    exact ⟨h₁, h₂, h₃, h₄, h₅⟩
  rows := by
    refine ⟨hI.rows.ids, hI.rows.next, hI.rows.keys, fun r hr => ?_⟩
    cases hI.rows.row r hr with
    | message m hs hm hv hl hlife hf => exact .message m hs hm hv hl hlife hf
    | cleanup n ho hc hs hk hd => exact .cleanup n ho hc hs hk hd
    | ack ho hk hr => exact .ack ho hk hr
  receipts := by
    obtain ⟨h₁, h₂, h₃⟩ := hI.receipts
    exact ⟨h₁, h₂, h₃⟩
  stores := by
    have hS := hI.stores
    refine ⟨h.keys, fun d hd => ?_, fun e he => ?_, fun k hk => ?_, fun r hr ho hs hl => ?_,
      fun r hr ho hs hl => ?_, hS.count, hS.recorded⟩
    · obtain ⟨r, m, h₁, h₂, h₃, h₄, h₅, h₆⟩ := h.doc d hd
      exact ⟨r, m, h₁, h₂, h₃, h₄, h₅, h₆⟩
    · rcases h.cached e he with he | he
      · obtain ⟨m, rfl, hq, hm⟩ := hS.cached e he
        exact ⟨m, rfl, hq, hm.of_keeps h.bodies⟩
      · exact he
    · exact (h.kafka k hk).elim (fun hk => (hS.kafka k hk).of_keeps h.bodies) id
    · obtain ⟨⟨d, hd, he⟩, h₂, h₃⟩ := hS.staged r hr ho hs hl
      obtain ⟨d', hd', he', -⟩ := h.bodies r hr ho hl d hd he
      exact ⟨⟨d', hd', he'⟩, h₂, h₃⟩
    · exact (hS.done r hr ho hs hl).imp id (h.bodies.published hr ho hl)
  calls := by
    have hC := hI.calls
    refine ⟨hC.send, fun k hk => ?_, hC.tokens, hC.token, fun c hc => ?_, hC.delivery, hC.ack,
      hC.friend⟩
    · obtain ⟨r, h₁, h₂, h₃, h₄, h₅, h₆, h₇, h₈, h₉, h₁₀⟩ := hC.worker k hk
      exact ⟨r, h₁, h₂, h₃, h₄, h₅, h₆, h₇, h₈, h₉, h₁₀⟩
    · obtain ⟨h₁, h₂, h₃⟩ := hC.consumer c hc
      exact ⟨h₁.of_keeps h.bodies, h₂, h₃⟩

/-! ## Redis commands -/

theorem del_strings_subset (key : String) (r : Redis) : (r.del key).strings ⊆ r.strings :=
  fun _ he => (mem_deleteWhere.1 he).1

theorem cleanupCommand_subset {owner : Account} {id : String} {c : Redis → Redis}
    (hc : c ∈ Redis.cleanupCommands owner id) (r : Redis) : (c r).strings ⊆ r.strings := by
  simp only [Redis.cleanupCommands, List.mem_cons, List.not_mem_nil, or_false] at hc
  rcases hc with rfl | rfl | rfl | rfl | rfl | rfl
  · exact del_strings_subset _ r
  · exact del_strings_subset _ r
  · exact del_strings_subset _ r
  · exact del_strings_subset _ r
  · exact del_strings_subset _ r
  · exact fun _ h => h

/-- A write that only removes cached values. -/
theorem storeWrite_redis (hI : Inv J w) {r : Redis} (hr : r.strings ⊆ w.stores.redis.strings) :
    StoreWrite J w { w.stores with redis := r } :=
  ⟨.of_mongo rfl, hI.stores.keys, hI.stores.doc, fun _ he => Or.inl (hr he), fun _ hk => Or.inl hk⟩

/-! ## Documents -/

/-- The row of a document whose id is that of a row of the outbox. -/
theorem DocOk.eq_row (hI : Inv J w) {d : Doc} {r r' : OutboxRow} {m : MsgData}
    (hd : DocOk J w d r m) (hr : r' ∈ w.db.outbox) (ho : r'.operation = 1)
    (he : d.serverMsgID = r'.serverId) : r = r' := by
  refine eq_of_serverId hI.ids hI.rows hd.row hr hd.message.operation ho ?_
  rw [hd.message.serverId, ← he, hd.serverMsgID]

/-- The cleanup of a deleted conversation reaches no live message. -/
theorem keepsBodies_delete (hI : Inv J w) {k : Worker} (hk : k ∈ w.workers)
    (ho : k.task.operation = 2) : KeepsBodies w { w.stores with
      mongo := deleteSingleChatHistory k.task.conversation k.task.seq w.stores.mongo } := by
  intro r hr hop hl d hd he
  refine ⟨d, mem_deleteWhere.2 ⟨hd, ?_⟩, he, id⟩
  by_contra hc
  simp only [cleanupFilter, Bool.not_eq_false, Bool.and_eq_true, decide_eq_true_eq] at hc
  obtain ⟨⟨hconv, -⟩, hseq⟩ := hc
  obtain ⟨r₁, m, hdoc⟩ := hI.stores.doc d hd
  obtain rfl := hdoc.eq_row hI hr hop he
  have h₁ : d.convID = r₁.conversation := hdoc.convID.trans hdoc.message.conversation.symm
  have h₂ : d.seq = r₁.seq := hdoc.seq.trans hdoc.message.seq.symm
  obtain ⟨r₀, hW⟩ := hI.calls.worker k hk
  cases hI.rows.row r₀ hW.row with
  | message m' _ hm => have := hm.operation; have := hW.operation; omega
  | ack h₃ => have := hW.operation; omega
  | cleanup n _ hc' hs' _ hd' =>
    obtain ⟨d', hd', hn⟩ := hd'
    refine not_live (a := r₀.actor) (b := r₀.peer) (d := d') (n := n) hI hr hop ?_
      (hI.friends.watermark hd') (by omega) ?_ hl
    · rw [← h₁, hconv, ← hW.conversation, hc']
    · rw [← h₂, ← hs', hW.seq]; exact hseq

theorem storeWrite_save (hI : Inv J w) {k : Worker} (hk : k ∈ w.workers) {r : OutboxRow} {m : MsgData}
    (h : Ready J w.db k.task r m) :
    StoreWrite J w { w.stores with mongo := saveMsgToMongo m false w.stores.mongo } := by
  obtain ⟨r₀, hW⟩ := hI.calls.worker k hk
  obtain ⟨hs, hm⟩ := hW.ready h
  refine ⟨fun r hr ho hl d hd he => ⟨d, subset_insertNew _ _ _ hd, he, id⟩, ?_, fun d hd => ?_,
    fun _ he => Or.inl he, fun _ hk => Or.inl hk⟩
  · refine nodup_insertNew hI.stores.keys fun d _ he => ?_
    simpa [Doc.ofMsg] using he
  · rcases mem_insertNew.1 hd with hd | ⟨rfl, -⟩
    · exact hI.stores.doc d hd
    · exact ⟨r₀, m, hW.row, hs, hm, rfl, fun h => by simp [Doc.ofMsg] at h, Or.inl rfl⟩

theorem storeWrite_publish (hI : Inv J w) {k : Worker} (hk : k ∈ w.workers) (hp : k.pc = .dispatch)
    {r : OutboxRow} {m : MsgData} (h : Ready J w.db k.task r m) :
    StoreWrite J w (w.stores.publish k.task.serverId m) := by
  obtain ⟨r₀, hW⟩ := hI.calls.worker k hk
  refine ⟨fun r hr ho hl d hd he => ?_, ?_, fun d hd => ?_, fun _ he => Or.inl he, fun _ hk => Or.inl hk⟩
  · refine ⟨_, mem_updateWhere.2 ⟨d, hd, rfl⟩, ?_, ?_⟩
    · split_ifs <;> exact he
    · split_ifs
      · exact fun _ => rfl
      · exact id
  · change ((updateWhere _ _ _).map _).Nodup
    rw [map_updateWhere (by intro; rfl)]
    exact hI.stores.keys
  · obtain ⟨d₀, hd₀, rfl⟩ := mem_updateWhere.1 hd
    obtain ⟨r₁, m₁, hdoc⟩ := hI.stores.doc d₀ hd₀
    split_ifs with he
    · have he : d₀.serverMsgID = r₀.serverId := by rw [hW.serverId]; simpa using he
      obtain rfl := hdoc.eq_row hI hW.row (hW.operation.trans h.operation) he
      exact ⟨r₁, m₁, hdoc.row, hdoc.stamped, hdoc.message, hdoc.body,
        fun _ => hW.staged h.operation hp, hdoc.status⟩
    · exact ⟨r₁, m₁, hdoc⟩

theorem storeWrite_delete (hI : Inv J w) {k : Worker} (hk : k ∈ w.workers)
    (ho : k.task.operation = 2) : StoreWrite J w { w.stores with
      mongo := deleteSingleChatHistory k.task.conversation k.task.seq w.stores.mongo } :=
  ⟨keepsBodies_delete hI hk ho, nodup_deleteWhere hI.stores.keys _,
    fun d hd => hI.stores.doc d (mem_deleteWhere.1 hd).1, fun _ he => Or.inl he,
    fun _ hk => Or.inl hk⟩

theorem storeWrite_mark (hI : Inv J w) {k : Worker} (hk : k ∈ w.workers) (ho : k.task.operation = 3) :
    StoreWrite J w { w.stores with
      mongo := markMsgsAsDelivered k.task.peer [k.task.serverId] w.stores.mongo } := by
  obtain ⟨r₀, hW⟩ := hI.calls.worker k hk
  have hrec : w.db.hasReceipt k.task.peer k.task.serverId = true := by
    cases hI.rows.row r₀ hW.row with
    | message m _ hm => have := hm.operation; have := hW.operation; omega
    | cleanup n h₂ => have := hW.operation; omega
    | ack _ _ hr => rw [← hW.peer, ← hW.serverId]; exact hr
  refine ⟨fun r hr ho hl d hd he => ?_, ?_, fun d hd => ?_, fun _ he => Or.inl he, fun _ hk => Or.inl hk⟩
  · refine ⟨_, mem_updateWhere.2 ⟨d, hd, rfl⟩, ?_, ?_⟩
    · split_ifs <;> exact he
    · split_ifs <;> exact id
  · change ((updateWhere _ _ _).map _).Nodup
    rw [map_updateWhere (by intro; rfl)]
    exact hI.stores.keys
  · obtain ⟨d₀, hd₀, rfl⟩ := mem_updateWhere.1 hd
    obtain ⟨r₁, m₁, hdoc⟩ := hI.stores.doc d₀ hd₀
    split_ifs with he
    · simp only [Bool.and_eq_true, decide_eq_true_eq] at he
      have h₁ : m₁.recvID = k.task.peer := by
        refine asInt64_inj ?_
        rw [← he.1, hdoc.recvID]
      have h₂ : m₁.serverMsgID = k.task.serverId := by rw [← he.2, hdoc.serverMsgID]
      refine ⟨r₁, m₁, hdoc.row, hdoc.stamped, hdoc.message, hdoc.body, hdoc.committed,
        Or.inr ⟨rfl, ?_⟩⟩
      rw [h₁, h₂]; exact hrec
    · exact ⟨r₁, m₁, hdoc⟩

/-! ## Handing on a message -/

/-- The worker that dispatches a published message may hand it on. -/
theorem sent_of_ready {k : Worker} {r₀ r : OutboxRow} {m : MsgData} (hW : WorkerOk J w k r₀)
    (hp : k.pc = .dispatch) (h : Ready J w.db k.task r m) (hx : x.Published k.task.serverId) :
    Sent { w with stores := x } k.task.serverId :=
  ⟨r₀, hW.row, hW.operation.trans h.operation, hW.serverId, hW.staged h.operation hp, fun _ => hx⟩

theorem storeWrite_cache (hI : Inv J w) {k : Worker} (hk : k ∈ w.workers) (hp : k.pc = .dispatch)
    {r : OutboxRow} {m : MsgData} (h : Ready J w.db k.task r m)
    (hx : w.stores.Published k.task.serverId) :
    StoreWrite J w { w.stores with redis := w.stores.redis.saveMsg m } := by
  obtain ⟨r₀, hW⟩ := hI.calls.worker k hk
  obtain ⟨hs, hm⟩ := hW.ready h
  refine ⟨.of_mongo rfl, hI.stores.keys, hI.stores.doc, fun e he => ?_, fun _ hk => Or.inl hk⟩
  rcases List.mem_append.1 he with he | he
  · exact Or.inl (del_strings_subset _ _ he)
  · rw [List.mem_singleton.1 he]
    refine Or.inr ⟨m, rfl, ⟨hs, r₀, hW.row, hm⟩, ?_⟩
    have := sent_of_ready (x := { w.stores with redis := w.stores.redis.saveMsg m }) hW hp h hx
    rwa [← hW.serverId, hm.serverId] at this

theorem storeWrite_enqueue (hI : Inv J w) {k : Worker} (hk : k ∈ w.workers) (hp : k.pc = .dispatch)
    {r : OutboxRow} {m : MsgData} (h : Ready J w.db k.task r m)
    (hx : w.stores.Published k.task.serverId) : StoreWrite J w { w.stores with
      kafka := w.stores.kafka ++ [⟨k.task.conversation, k.task.serverId⟩] } := by
  obtain ⟨r₀, hW⟩ := hI.calls.worker k hk
  refine ⟨.of_mongo rfl, hI.stores.keys, hI.stores.doc, fun _ he => Or.inl he, fun e he => ?_⟩
  rcases List.mem_append.1 he with he | he
  · exact Or.inl he
  · rw [List.mem_singleton.1 he]
    exact Or.inr (sent_of_ready hW hp h hx)

/-- **Every store write keeps the invariant.** -/
theorem inv_storeStep (hI : Inv J w) {k : Worker} (hk : k ∈ w.workers)
    (hp : k.pc = .persist ∨ k.pc = .dispatch)
    (h : StoreStep J w.db k.task (k.pc = .persist) w.stores x) : Inv J { w with stores := x } := by
  have hdisp : decide (k.pc = .persist) = false → k.pc = .dispatch := fun h =>
    hp.resolve_left (by simpa using h)
  refine inv_storeWrite hI ?_
  cases h with
  | save h => exact storeWrite_save hI hk h
  | publish h hq => exact storeWrite_publish hI hk (hdisp hq) h
  | cache h hq hx => exact storeWrite_cache hI hk (hdisp hq) h hx
  | enqueue h hq hx => exact storeWrite_enqueue hI hk (hdisp hq) h hx
  | forget _ _ _ hc => exact storeWrite_redis hI (cleanupCommand_subset hc _)
  | delete _ ho => exact storeWrite_delete hI hk ho
  | mark _ ho => exact storeWrite_mark hI hk ho
  | uncache _ _ hc => exact storeWrite_redis hI (cleanupCommand_subset hc _)

/-- The invariant after what a step does to the stores. -/
theorem inv_storesMove (hI : Inv J w) (h : StoresMove J w x) : Inv J { w with stores := x } := by
  cases h with
  | same h => rw [h]; exact hI
  | expire key h => rw [h]; exact inv_storeWrite hI (storeWrite_redis hI (del_strings_subset _ _))
  | phase k hk hp h =>
    induction h with
    | refl => exact hI
    | @tail y _ _ hs ih => exact inv_storeStep (w := { w with stores := y }) ih hk hp hs

end

end ApeServer
