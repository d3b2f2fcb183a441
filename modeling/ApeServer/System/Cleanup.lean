/-
  The cleanup of deleted conversations.

  A cleanup task carries a conversation and a cutoff.  It runs some time after
  the deletion, as often as its worker fails, while the two users may be friends
  again and exchange messages.

  * `StoreSteps.cleanup`, `Commit.cleanup_rows`: what a cleanup may touch;
  * `cleanup_step`: a step of its worker touches only messages of the
    conversation up to the cutoff (`CleansOnly`);
  * `cleanup_frame` puts this together over a run, with the messages accepted
    after the deletion and the uniqueness of the task.
-/
import ApeServer.System.Receipts
import ApeServer.System.Lease

namespace ApeServer

open Table

/-! ## Redis keys -/

/-- The keys `CleanupAcknowledgedMessage` deletes. -/
def Redis.cleanupKeys (owner : Account) (id : String) : List String :=
  [msgKey id, "msg_conv:" ++ id, "msg:consumed:" ++ id, "pending_ack:online:" ++ id,
    "pending_ack:offline:" ++ accountText owner ++ ":" ++ id]

theorem mem_del {key : String} {r : Redis} {e : String × RedisValue} (he : e ∈ r.strings) :
    e ∈ (r.del key).strings ∨ e.1 = key := by
  by_cases hk : e.1 = key
  · exact Or.inr hk
  · exact Or.inl (mem_deleteWhere.2 ⟨he, by simpa using hk⟩)

/-- A cleanup command removes only keys of its message. -/
theorem cleanupCommand_keeps {owner : Account} {id : String} {c : Redis → Redis}
    (hc : c ∈ Redis.cleanupCommands owner id) {r : Redis} {e : String × RedisValue}
    (he : e ∈ r.strings) : e ∈ (c r).strings ∨ e.1 ∈ Redis.cleanupKeys owner id := by
  simp only [Redis.cleanupCommands, List.mem_cons, List.not_mem_nil, or_false] at hc
  simp only [Redis.cleanupKeys, List.mem_cons, List.not_mem_nil, or_false]
  rcases hc with rfl | rfl | rfl | rfl | rfl | rfl
  · exact (mem_del he).imp_right Or.inl
  · exact (mem_del he).imp_right fun h => Or.inr (Or.inl h)
  · exact (mem_del he).imp_right fun h => Or.inr (Or.inr (Or.inl h))
  · exact (mem_del he).imp_right fun h => Or.inr (Or.inr (Or.inr (Or.inl h)))
  · exact (mem_del he).imp_right fun h => Or.inr (Or.inr (Or.inr (Or.inr h)))
  · exact Or.inl he

/-- Message ids have no colon, so that among the keys of a message only the
    first is the key of a cached message. -/
theorem cleanupKeys_msgKey {owner : Account} {id id' : String} (hu : IsUuid id')
    (h : Redis.msgKey id' ∈ Redis.cleanupKeys owner id) : id' = id := by
  simp only [Redis.cleanupKeys, Redis.msgKey, List.mem_cons, List.not_mem_nil, or_false] at h
  have hl : ∀ {s : String}, "msg:" ++ id' = s →
      'm' :: 's' :: 'g' :: ':' :: id'.toList = s.toList := by
    rintro s rfl
    simp
  rcases h with h | h | h | h | h
  · exact (String.append_right_inj "msg:").1 h
  · have := hl h
    simp at this
  · have := hl h
    simp only [String.toList_append] at this
    have hc : ':' ∈ id'.toList := by
      have : id'.toList = "consumed:".toList ++ id.toList := by simpa using this
      rw [this]; simp
    exact absurd hc (hu.notMem (by decide) (by decide))
  · have := hl h
    simp at this
  · have := hl h
    simp at this

section
variable {J : Codec} {w w' : World} {es : List Event}

/-! ## The stores -/

/-- From `x` to `x'` only what belongs to messages of the conversation up to
    the cutoff is removed, and nothing is added. -/
structure StoresCleaned (conv : String) (cutoff : Int) (x x' : Stores) : Prop where
  docs_subset : x'.mongo ⊆ x.mongo
  docs : ∀ d ∈ x.mongo, d ∈ x'.mongo ∨ cleanupFilter conv cutoff d = true
  cache_subset : x'.redis.strings ⊆ x.redis.strings
  cache : ∀ e ∈ x.redis.strings, e ∈ x'.redis.strings ∨
    ∃ owner, ∃ id ∈ getSingleChatMessageIDs conv cutoff x.mongo, e.1 ∈ Redis.cleanupKeys owner id
  deadlines : ∀ z ∈ x.redis.deadlines, z ∈ x'.redis.deadlines ∨
    z ∈ getSingleChatMessageIDs conv cutoff x.mongo
  kafka : x'.kafka = x.kafka

theorem StoresCleaned.refl (conv : String) (cutoff : Int) (x : Stores) :
    StoresCleaned conv cutoff x x :=
  ⟨fun _ h => h, fun _ h => Or.inl h, fun _ h => h, fun _ h => Or.inl h, fun _ h => Or.inl h, rfl⟩

theorem messageIDs_subset {conv : String} {cutoff : Int} {docs docs' : List Doc} (h : docs ⊆ docs') :
    getSingleChatMessageIDs conv cutoff docs ⊆ getSingleChatMessageIDs conv cutoff docs' :=
  List.map_subset _ (List.filter_subset _ h)

theorem StoresCleaned.trans {conv : String} {cutoff : Int} {x y z : Stores}
    (h : StoresCleaned conv cutoff x y) (h' : StoresCleaned conv cutoff y z) :
    StoresCleaned conv cutoff x z := by
  have hids : getSingleChatMessageIDs conv cutoff y.mongo ⊆ getSingleChatMessageIDs conv cutoff x.mongo :=
    messageIDs_subset h.docs_subset
  refine ⟨fun _ hd => h.docs_subset (h'.docs_subset hd), fun d hd => ?_,
    fun _ he => h.cache_subset (h'.cache_subset he), fun e he => ?_, fun m hm => ?_,
    h'.kafka.trans h.kafka⟩
  · exact (h.docs d hd).elim (h'.docs d) Or.inr
  · rcases h.cache e he with he | hk
    · rcases h'.cache e he with he | ⟨owner, id, hid, hk⟩
      · exact Or.inl he
      · exact Or.inr ⟨owner, id, hids hid, hk⟩
    · exact Or.inr hk
  · rcases h.deadlines m hm with hm | hm
    · exact (h'.deadlines m hm).imp_right fun h => hids h
    · exact Or.inr hm

/-- A cleanup command removes only the deadline of its message. -/
theorem cleanupCommand_deadlines {owner : Account} {id : String} {c : Redis → Redis}
    (hc : c ∈ Redis.cleanupCommands owner id) {r : Redis} {z : String} (hz : z ∈ r.deadlines) :
    z ∈ (c r).deadlines ∨ z = id := by
  simp only [Redis.cleanupCommands, List.mem_cons, List.not_mem_nil, or_false] at hc
  rcases hc with rfl | rfl | rfl | rfl | rfl | rfl
  iterate 5 exact Or.inl hz
  by_cases hid : z = id
  · exact Or.inr hid
  · exact Or.inl (mem_deleteWhere.2 ⟨hz, by simpa using hid⟩)

/-- The store writes of a cleanup. -/
theorem StoreSteps.cleanup {db : Db} {task : OutboxTask} {persist : Bool} {x x' : Stores}
    (h : StoreSteps J db task persist x x') (ho : task.operation = 2) :
    StoresCleaned task.conversation task.seq x x' := by
  induction h with
  | refl => exact .refl _ _ _
  | tail _ hs ih =>
    refine ih.trans ?_
    cases hs with
    | save h => have := h.operation; omega
    | publish h => have := h.operation; omega
    | cache h => have := h.operation; omega
    | enqueue h => have := h.operation; omega
    | forget _ _ hid hc =>
      refine ⟨fun _ h => h, fun _ h => Or.inl h, cleanupCommand_subset hc _, fun e he => ?_,
        fun z hz => ?_, rfl⟩
      · exact (cleanupCommand_keeps hc he).imp_right fun hk => ⟨_, _, hid, hk⟩
      · exact (cleanupCommand_deadlines hc hz).imp_right fun hz => by rwa [hz]
    | delete =>
      refine ⟨fun d hd => (mem_deleteWhere.1 hd).1, fun d hd => ?_, fun _ h => h,
        fun _ h => Or.inl h, fun _ h => Or.inl h, rfl⟩
      by_cases hf : cleanupFilter task.conversation task.seq d = true
      · exact Or.inr hf
      · exact Or.inl (mem_deleteWhere.2 ⟨hd, by simpa using hf⟩)
    | mark _ h₃ => omega
    | uncache _ h₃ => omega

/-! ## The tables -/

/-- The tables but for the outbox and the lock rows. -/
def Db.rest (db : Db) : Db := { db with friendPairs := [], outbox := [] }

/-- From `db` to `db'` only messages of the conversation up to the cutoff and
    the row `own` change. -/
structure RowsCleaned (conv : String) (cutoff : Int) (own : ℕ) (db db' : Db) : Prop where
  rows : ∀ r ∈ db.outbox, r ∈ db'.outbox ∨ r.id = own ∨
    (r.operation = 1 ∧ r.conversation = conv ∧ r.seq ≤ cutoff)
  ids : db'.outbox.map (·.id) = db.outbox.map (·.id)
  rest : db'.rest = db.rest

theorem RowsCleaned.of_outbox {conv : String} {cutoff : Int} {own : ℕ} {db db' : Db}
    (ho : db'.outbox = db.outbox) (hr : db'.rest = db.rest) : RowsCleaned conv cutoff own db db' :=
  ⟨fun r hr => Or.inl (ho ▸ hr), by rw [ho], hr⟩

/-- The commit of a cleanup. -/
theorem Commit.cleanup_rows {db db' : Db} {task : OutboxTask} {persist b : Bool} {now : Int}
    {x : Stores} (h : Commit J db task persist now x b db') (ho : task.operation = 2) :
    RowsCleaned task.conversation task.seq task.id db db' := by
  cases h with
  | skip => exact .of_outbox rfl rfl
  | cancel _ h₁ => omega
  | already h => have := h.operation; omega
  | stage h => have := h.operation; omega
  | requeue h => have := h.operation; omega
  | complete h => have := h.operation; omega
  | ack _ h₃ => omega
  | cleanup =>
    refine ⟨fun r hr => ?_, ?_, rfl⟩
    · by_cases hid : r.id = task.id
      · exact Or.inr (Or.inl hid)
      · by_cases hc : cleanupRow task r = true
        · simp only [cleanupRow, Bool.and_eq_true, decide_eq_true_eq] at hc
          exact Or.inr (Or.inr ⟨hc.1.1, hc.1.2, hc.2⟩)
        · refine Or.inl (mem_updateWhere.2 ⟨r, mem_updateWhere.2 ⟨r, hr, if_neg hc⟩, ?_⟩)
          exact if_neg (by simpa using hid)
    · exact (map_updateWhere (by intro; rfl) _).trans (map_updateWhere (by intro; rfl) _)

/-- The retry of a task changes its own row only. -/
theorem retry_rows (conv : String) (cutoff : Int) (db : Db) (task : OutboxTask) (now : Int) :
    RowsCleaned conv cutoff task.id db (db.retryOutboxTask task now) := by
  refine ⟨fun r hr => ?_, map_updateWhere (by intro; rfl) _, rfl⟩
  by_cases hid : r.id = task.id
  · exact Or.inr (Or.inl hid)
  · exact Or.inl (mem_updateWhere.2 ⟨r, hr, if_neg (by simp [hid])⟩)

/-! ## A step of the worker -/

/-- The step removes or changes only what belongs to messages of the
    conversation up to the cutoff, and the row `own` of the task. -/
structure CleansOnly (J : Codec) (conv : String) (cutoff : Int) (own : ℕ) (w w' : World) : Prop where
  tables : RowsCleaned conv cutoff own w.db w'.db
  docs_subset : w'.stores.mongo ⊆ w.stores.mongo
  docs : ∀ d ∈ w.stores.mongo, d ∈ w'.stores.mongo ∨ (d.convID = conv ∧ d.seq ≤ cutoff)
  cache_subset : w'.stores.redis.strings ⊆ w.stores.redis.strings
  cache : ∀ e ∈ w.stores.redis.strings, e ∈ w'.stores.redis.strings ∨
    ∃ m, Queued J w m ∧ e.1 = Redis.msgKey m.serverMsgID ∧ m.convID = conv ∧ m.seq ≤ cutoff
  deadlines : ∀ z ∈ w.stores.redis.deadlines, z ∈ w'.stores.redis.deadlines ∨
    ∃ m, Queued J w m ∧ z = m.serverMsgID ∧ m.convID = conv ∧ m.seq ≤ cutoff
  kafka : w'.stores.kafka = w.stores.kafka

/-- The ids a cleanup finds are those of messages up to the cutoff. -/
theorem queued_of_messageID (hI : Inv J w) {conv : String} {cutoff : Int} {id : String}
    (h : id ∈ getSingleChatMessageIDs conv cutoff w.stores.mongo) :
    ∃ m, Queued J w m ∧ id = m.serverMsgID ∧ m.convID = conv ∧ m.seq ≤ cutoff := by
  obtain ⟨d, hd, rfl⟩ := List.mem_map.1 h
  obtain ⟨hd, hf⟩ := List.mem_filter.1 hd
  simp only [cleanupFilter, Bool.and_eq_true, decide_eq_true_eq] at hf
  obtain ⟨r, m, hdoc⟩ := hI.stores.doc d hd
  refine ⟨m, ⟨hdoc.stamped, r, hdoc.row, hdoc.message⟩, hdoc.serverMsgID, ?_, ?_⟩
  · rw [← hdoc.convID]; exact hf.1.1
  · rw [← hdoc.seq]; exact hf.2

theorem CleansOnly.of_stores (hI : Inv J w) {conv : String} {cutoff : Int} {own : ℕ}
    (ht : RowsCleaned conv cutoff own w.db w'.db) (hs : StoresCleaned conv cutoff w.stores w'.stores) :
    CleansOnly J conv cutoff own w w' := by
  refine ⟨ht, hs.docs_subset, fun d hd => ?_, hs.cache_subset, fun e he => ?_, fun z hz => ?_, hs.kafka⟩
  · refine (hs.docs d hd).imp_right fun hf => ?_
    simp only [cleanupFilter, Bool.and_eq_true, decide_eq_true_eq] at hf
    exact ⟨hf.1.1, hf.2⟩
  · refine (hs.cache e he).imp_right ?_
    rintro ⟨owner, id, hid, hk⟩
    obtain ⟨m, rfl, hq, -⟩ := hI.stores.cached e he
    obtain rfl := cleanupKeys_msgKey (hI.ids.stamped m hq.1).uuid hk
    obtain ⟨m', hq', hid', hc, hseq⟩ := queued_of_messageID hI hid
    exact ⟨m', hq', congrArg Redis.msgKey hid', hc, hseq⟩
  · exact (hs.deadlines z hz).imp_right fun hid => queued_of_messageID hI hid

/-- **What the worker of a cleanup does in a step.** -/
theorem cleanup_step {a : Action} {n : ℕ} {k : Worker} (hI : Inv J w) (ha : a.worker = some n)
    (hk : w.workers[n]? = some k) (ho : k.task.operation = 2) (h : step J w a = some (w', es)) :
    CleansOnly J k.task.conversation k.task.seq k.task.id w w' := by
  obtain ⟨task, pc⟩ := k
  cases a with
  | runPhase i now lost fuel =>
    cases ha
    obtain ⟨task', pc', o, db', x', hk', -, rfl, -, hs, hd⟩ := runPhase_cases h
    cases Option.some.inj (hk.symm.trans hk')
    refine .of_stores hI ?_ (StoreSteps.cleanup hs ho)
    rcases hd with ⟨b, hc, -⟩ | ⟨rfl, -⟩
    · exact hc.cleanup_rows ho
    · exact .of_outbox rfl rfl
  | retry i now =>
    cases ha
    simp only [step, World.retry, hk] at h
    cases pc with
    | failed => cases h; exact .of_stores hI (retry_rows _ _ _ _ _) (.refl _ _ _)
    | _ => cases h
  | notify i =>
    cases ha
    simp only [step, World.notify, hk] at h
    cases pc with
    | finished => cases h; exact .of_stores hI (.of_outbox rfl rfl) (.refl _ _ _)
    | _ => cases h
  | crash i => cases h; exact .of_stores hI (.of_outbox rfl rfl) (.refl _ _ _)
  | _ => cases ha

/-! ## Over a run -/

/-- The row, the documents and the cache of the message stay as they are. -/
structure KeepsMessage (J : Codec) (m : MsgData) (w w' : World) : Prop where
  row : ∃ r ∈ w.db.outbox, MessageRow J r m ∧ r ∈ w'.db.outbox
  docs : ∀ d ∈ w.stores.mongo, d.serverMsgID = m.serverMsgID → d ∈ w'.stores.mongo
  cache : ∀ v, (Redis.msgKey m.serverMsgID, v) ∈ w.stores.redis.strings →
    (Redis.msgKey m.serverMsgID, v) ∈ w'.stores.redis.strings

theorem CleansOnly.keeps {conv : String} {cutoff : Int} {own : ℕ} (hI : Inv J w)
    (h : CleansOnly J conv cutoff own w w') (hown : ∀ r ∈ w.db.outbox, r.id = own → r.operation ≠ 1)
    {m : MsgData} (hm : Queued J w m) (hseq : m.convID = conv → cutoff < m.seq) :
    KeepsMessage J m w w' := by
  obtain ⟨hs, r, hr, hrow⟩ := hm
  refine ⟨⟨r, hr, hrow, ?_⟩, fun d hd hid => ?_, fun v hv => ?_⟩
  · rcases h.tables.rows r hr with hr' | hid | ⟨-, hc, hle⟩
    · exact hr'
    · exact absurd hrow.operation (hown r hr hid)
    · have := hseq (hrow.conversation.symm.trans hc)
      have := hrow.seq
      omega
  · refine (h.docs d hd).resolve_right ?_
    rintro ⟨hc, hle⟩
    obtain ⟨r', m', hdoc⟩ := hI.stores.doc d hd
    obtain rfl := eq_of_serverMsgID hI.ids hdoc.stamped hs (by rw [← hdoc.serverMsgID, hid])
    have := hseq (hdoc.convID.symm.trans hc)
    have := hdoc.seq
    omega
  · refine (h.cache _ hv).resolve_right ?_
    rintro ⟨m', hm', hkey, hc, hle⟩
    unfold Redis.msgKey at hkey
    obtain rfl := eq_of_serverMsgID hI.ids hm'.1 hs ((String.append_right_inj "msg:").1 hkey).symm
    have := hseq hc
    omega

/-- The task row of a cleanup is no message. -/
theorem own_row (hI : Inv J w) {k : Worker} (hk : k ∈ w.workers) (ho : k.task.operation = 2) :
    ∀ r ∈ w.db.outbox, r.id = k.task.id → r.operation ≠ 1 := by
  intro r hr hid
  obtain ⟨r₀, hW⟩ := hI.calls.worker k hk
  obtain rfl := hI.rows.eq_of_id hr hW.row (hid.trans hW.id.symm)
  rw [hW.operation, ho]
  decide

/-- The key of a cleanup row. -/
theorem cleanup_key (hI : Inv J w) {r : OutboxRow} (hr : r ∈ w.db.outbox) (ho : r.operation = 2) :
    ∃ n : ℕ, r.seq = n ∧ r.dedupeKey = Db.cleanupKey r.conversation n := by
  cases hI.rows.row r hr with
  | message m _ hm => have := hm.operation; omega
  | ack h₃ => omega
  | cleanup n _ _ hs hk => exact ⟨n, hs, hk⟩

/-- An accepted message is in the outbox. -/
theorem accepted_queued (hI : Inv J w) (h : Move J w w' es) {m : MsgData} (he : .accepted m ∈ es) :
    Queued J w' m := by
  obtain ⟨hm, payload, hj, hdb⟩ := h.event _ he
  refine ⟨(grows_of_move hI h).stamped (hI.calls.send _ hm).1,
    Db.newMessageRow w.db.nextOutboxId m payload, ?_, ⟨rfl, rfl, rfl, rfl, rfl, rfl, rfl, Or.inl hj⟩⟩
  rw [hdb]
  exact List.mem_append_right _ (List.mem_singleton.2 rfl)

/-- **Cleanup never destroys newer data.**  Whatever the worker of a cleanup
    task does, it changes and removes only what belongs to messages of its
    conversation up to its cutoff.  A message accepted after a deletion keeps
    its row, its document and its cache through every cleanup with the cutoff
    of this deletion or an earlier one.  Over a whole run there is one task for
    each conversation and cutoff.  Runs draw increasing ids (`SysTrace`). -/
theorem cleanup_frame (T : SysTrace J) :
    (∀ i < T.len, ∀ (n : ℕ) (k : Worker), (T.act i).worker = some n →
      (T.state i).workers[n]? = some k → k.task.operation = 2 →
      CleansOnly J k.task.conversation k.task.seq k.task.id (T.state i) (T.state (i + 1))) ∧
    (∀ i < T.len, ∀ a b (d : ℕ), .deleted a b d ∈ T.out i → ∀ j, i < j → j < T.len → ∀ m,
      .accepted m ∈ T.out j → samePair m.sendID m.recvID a b = true → (d : Int) < m.seq ∧
      ∀ l, j < l → l < T.len → ∀ (n : ℕ) (k : Worker), (T.act l).worker = some n →
        (T.state l).workers[n]? = some k → k.task.operation = 2 → k.task.seq ≤ d →
        KeepsMessage J m (T.state l) (T.state (l + 1))) ∧
    ∀ i j, i ≤ j → j ≤ T.len → ∀ r ∈ (T.state i).db.outbox, ∀ r' ∈ (T.state j).db.outbox,
      r.operation = 2 → r'.operation = 2 → r.conversation = r'.conversation → r.seq = r'.seq →
      Static r r' := by
  refine ⟨fun i hi n k ha hk ho => cleanup_step (inv_trace T hi.le) ha hk ho (T.next i hi),
    fun i hi a b d hd j hij hj m hm hp => ?_, fun i j hij hj r hr r' hr' ho ho' hc hs => ?_⟩
  · obtain ⟨hab, -, hmark⟩ :=
      deleted_watermark (inv_trace T hi.le) ((step_move (T.next i hi)).event _ hd)
    have hIj := inv_trace T hj.le
    have habove := Event.above hIj ((step_move (T.next j hj)).event _ hm) rfl hab (samePair_iff.1 hp)
    have hseq : (d : Int) < m.seq := (trace_grows T hij hj.le).above _ _ _ habove d hmark
    refine ⟨hseq, fun l hjl hl n k ha hk ho hle => ?_⟩
    have hI := inv_trace T hl.le
    have hq : Queued J (T.state l) m := (accepted_queued hIj (step_move (T.next j hj)) hm).grows
      (trace_grows T hjl hl.le)
    exact (cleanup_step hI ha hk ho (T.next l hl)).keeps hI (own_row hI (List.mem_of_getElem? hk) ho) hq
      fun _ => by omega
  · obtain ⟨x, hx, hlater⟩ := trace_later T hij hj r hr
    have hst := hlater.static
    have hI := inv_trace T hj
    obtain ⟨n, hn, hk⟩ := cleanup_key (inv_trace T (hij.trans hj)) hr ho
    obtain ⟨n', hn', hk'⟩ := cleanup_key hI hr' ho'
    have : n = n' := by omega
    rwa [hI.rows.eq_of_dedupe hx hr' (by rw [hst.operation, ho, ho'])
      (by rw [hst.key, hk, hk', hc, this])] at hst

end

end ApeServer
