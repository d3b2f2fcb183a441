/-
  What one step of the system can do.

  `Move` describes a step part by part: how it changes the tables (`Change`)
  and the stores (`StoresMove`), where the new calls in flight come from, what
  it draws from the id generators, and what each of its events has checked
  (`Event.Justified`).  Every invariant of the system is derived from this
  description, and not from the text of the steps.

  * `step_move`: every step is such a move.
-/
import ApeServer.System.Machine
import ApeServer.PhaseSpec

namespace ApeServer

open Table

/-- How a step changes the tables. -/
inductive Change (J : Codec) (w w' : World) (es : List Event) : Prop
  | same (h : w'.db = w.db)
  | lock (a b : Account) (h : w'.db = w.db.lockPair a b)
  | register (u : UserRow) (h : w'.db = { w.db with users := w.db.users ++ [u] })
  | edit (h : w.db.Edits w'.db)
  | insert (m : MsgData) (payload : String) (hm : ⟨m, .insert⟩ ∈ w.sends)
      (hj : J.printMsg m = some payload)
      (hn : ∀ r ∈ w.db.outbox, r.operation = 1 → r.dedupeKey ≠ messageKey m)
      (he : .accepted m ∈ es) (h : w'.db = w.db.insertMessage m payload)
  | claim (r : OutboxRow) (now : Int) (token : String) (hr : r ∈ w.db.outbox)
      (hs : r.state = 0 ∨ r.state = 1) (ht : token ∉ w.uuids)
      (h : w'.db = w.db.updateTask r.id (Db.claimRow now token))
  | retry (k : Worker) (now : Int) (hk : k ∈ w.workers)
      (h : w'.db = w.db.retryOutboxTask k.task now)
  | confirm (c : Consumer) (hc : c ∈ w.consumers)
      (h : w'.db = w.db.confirmMessageDispatch c.serverId)
  | commit (k : Worker) (now : Int) (b : Bool) (hk : k ∈ w.workers)
      (hp : k.pc = .persist ∨ k.pc = .dispatch)
      (h : Commit J w.db k.task (k.pc = .persist) now w'.stores b w'.db)
  | receipt (a : AckCall) (now : Int) (ha : a ∈ w.acks)
      (h : w'.db = w.db.ackCommit a.owner a.serverId a.message now)
  | applications (a b : Account) (apps : List ApplicationRow) (n : ℕ)
      (h : w'.db = { w.db.lockPair a b with applications := apps, nextApplicationId := n })
  | befriend (c : FriendCall) (now : Int) (apps : List ApplicationRow) (hc : c ∈ w.friendCalls)
      (h : w'.db = (w.db.lockPair c.command.actor c.target).befriend c.command.actor c.target now apps)
  | unfriend (c : FriendCall) (now : Int) (seq : ℕ) (hc : c ∈ w.friendCalls)
      (hf : w.pairFree c.command.actor c.target = true) (hs : w.lastId < seq) (hl : w'.lastId = seq)
      (h : w'.db = ((w.db.lockPair c.command.actor c.target).closeFriendship c.command.actor c.target
        now seq).clearConversation c.command.actor c.target)
  | clear (c : FriendCall) (hc : c ∈ w.friendCalls)
      (hn : w.db.friends.any (Db.pairRow c.command.actor c.target) = false)
      (h : w'.db = (w.db.lockPair c.command.actor c.target).clearConversation c.command.actor c.target)

/-- How a step changes the stores. -/
inductive StoresMove (J : Codec) (w : World) (x : Stores) : Prop
  | same (h : x = w.stores)
  | expire (key : String) (h : x = { w.stores with redis := w.stores.redis.del key })
  | phase (k : Worker) (hk : k ∈ w.workers) (hp : k.pc = .persist ∨ k.pc = .dispatch)
      (h : StoreSteps J w.db k.task (k.pc = .persist) w.stores x)

/-- The ids a step draws: none for messages, or those of one message. -/
inductive Draw (w w' : World) : Prop
  | none (h : w'.stamped = w.stamped)
  | message (m : MsgData) (uuid : String) (seq : ℕ) (time : Int) (hg : m.isGroupMsg = false)
      (hu : IsUuid uuid) (hn : uuid ∉ w.uuids) (hw : uuid ∈ w'.uuids) (hs : w.lastId < seq)
      (hl : w'.lastId = seq) (h : w'.stamped = stampMessage m uuid seq time :: w.stamped)

/-- Where a send call that was not there before comes from. -/
inductive SendNew (J : Codec) (w w' : World) : SendCall → Prop
  | queue (m : MsgData) (hm : m ∈ w'.stamped) : SendNew J w w' ⟨m, .queue⟩
  | insert (m : MsgData) (hm : ⟨m, .queue⟩ ∈ w.sends) (hv : validSingleMessage m = true)
      (hl : w.db.queueLookup J m = .ok none) (hd : w'.db = w.db) : SendNew J w w' ⟨m, .insert⟩
  | poll (m : MsgData) (pc : SendPc) (r : OutboxRow) (hm : ⟨m, pc⟩ ∈ w.sends)
      (hr : r ∈ w'.db.outbox)
      (ho : (r.operation = 1 ∧ r.dedupeKey = messageKey m) ∨ ∃ task, pc = .poll task ∧ r.id = task.id) :
      SendNew J w w' ⟨m, .poll (outboxRow r)⟩

/-- Where a worker that was not there before comes from. -/
inductive WorkerNew (J : Codec) (w w' : World) : Worker → Prop
  | claimed (r : OutboxRow) (token : String) (hr : r ∈ w.db.outbox) (hs : r.state = 0 ∨ r.state = 1) :
      WorkerNew J w w'
        ⟨{ outboxRow r with leaseToken := token, attempts := r.attempts + 1, state := 1 },
          if r.operation = 1 then .persist else .dispatch⟩
  | stopped (task : OutboxTask) (pc pc' : WorkerPc) (hk : ⟨task, pc⟩ ∈ w.workers)
      (hp : pc' = .failed ∨ pc' = .finished) : WorkerNew J w w' ⟨task, pc'⟩
  | persisted (task : OutboxTask) (now : Int) (hk : ⟨task, .persist⟩ ∈ w.workers)
      (hc : Commit J w.db task true now w'.stores true w'.db) : WorkerNew J w w' ⟨task, .dispatch⟩

/-- How the lease tokens of the workers in flight change. -/
inductive Tokens (w w' : World) : Prop
  | fewer (h : (w'.workers.map (·.task.leaseToken)).Sublist (w.workers.map (·.task.leaseToken)))
  | claim (token : String) (hn : token ∉ w.uuids) (hw : token ∈ w'.uuids)
      (h : w'.workers.map (·.task.leaseToken) = w.workers.map (·.task.leaseToken) ++ [token])

/-- Where a consumer that was not there before comes from. -/
inductive ConsumerNew (w : World) : Consumer → Prop
  | fetched (r : KafkaRecord) (m : MsgData) (hr : r ∈ w.stores.kafka)
      (hm : w.stores.redis.getMsg (payloadServerId r.payload) = some m ∨
        getMsgByServerMsgID (payloadServerId r.payload) w.stores.mongo = some m) :
      ConsumerNew w ⟨payloadServerId r.payload, m, .fetched⟩
  | moved (serverId : String) (m : MsgData) (pc pc' : ConsumerPc)
      (hc : ⟨serverId, m, pc⟩ ∈ w.consumers) : ConsumerNew w ⟨serverId, m, pc'⟩

/-- What a step has checked when it has an event. -/
def Event.Justified (J : Codec) (w w' : World) : Event → Prop
  | accepted m => ⟨m, .insert⟩ ∈ w.sends ∧
      ∃ payload, J.printMsg m = some payload ∧ w'.db = w.db.insertMessage m payload
  | replayed m => w.db.friendAllows m.sendID m.recvID m.seq = true
  | staged m | dispatched m => ∃ k ∈ w.workers, ∃ r, Ready J w.db k.task r m
  | pushed m => (∃ c ∈ w.consumers, c.message = m) ∧ w.db.friendMessageAllowed m true = true
  | offered m => m ∈ w.deliveries ∧ w.db.friendMessageAllowed m true = true
  | returned m => ∃ q p, getSingleChatHistoryRpc w.db w.stores.mongo q = .page p ∧ m ∈ p.messages
  | deleted a b d => ∃ c ∈ w.friendCalls, ∃ now, c.command.actor = a ∧ c.target = b ∧ w.lastId < d ∧
      w'.db = ((w.db.lockPair a b).closeFriendship a b now d).clearConversation a b
  | acked owner serverId => ∃ a ∈ w.acks, ∃ now, a.owner = owner ∧ a.serverId = serverId ∧
      w'.db = w.db.ackCommit owner serverId a.message now
  | replied m code => code = "0" → ∃ c ∈ w.sends, ∃ task, c.pc = .poll task ∧
      J.parseMsg task.payload = some m ∧ task.stage ≠ 0
  | notified _ _ => True

/-- What a step does to the id generators. -/
structure Ids (w w' : World) : Prop where
  draw : Draw w w'
  lastId : w.lastId ≤ w'.lastId
  bound : w.lastId < 2 ^ 63 → w'.lastId < 2 ^ 63
  uuids : w.uuids ⊆ w'.uuids

/-- What a step does to the calls in flight. -/
structure Calls (J : Codec) (w w' : World) : Prop where
  send : ∀ c ∈ w'.sends, c ∈ w.sends ∨ SendNew J w w' c
  worker : ∀ k ∈ w'.workers, k ∈ w.workers ∨ WorkerNew J w w' k
  tokens : Tokens w w'
  consumer : ∀ c ∈ w'.consumers, c ∈ w.consumers ∨ ConsumerNew w c
  delivery : ∀ m ∈ w'.deliveries, m ∈ w.deliveries ∨ ∃ d ∈ w.stores.mongo, m = decodeMessage d
  ack : ∀ a ∈ w'.acks, a ∈ w.acks ∨
    ackLookup J w.db w.stores.mongo a.owner a.serverId = .ok (.commit a.message)
  friend : ∀ c ∈ w'.friendCalls, c ∈ w.friendCalls ∨ w.db.friendStart c.command = .ok c.target

/-- What one step does. -/
structure Move (J : Codec) (w w' : World) (es : List Event) : Prop where
  change : Change J w w' es
  stores : StoresMove J w w'.stores
  ids : Ids w w'
  calls : Calls J w w'
  event : ∀ e ∈ es, e.Justified J w w'

section
variable {J : Codec} {w : World} {db : Db} {x : Stores} {l : ℕ} {us : List String}
  {ms : List MsgData} {ss : List SendCall} {ks : List Worker} {cs : List Consumer}
  {ds : List MsgData} {as : List AckCall} {fs : List FriendCall}

theorem keep {α : Type} {l : List α} {P : α → Prop} : ∀ a ∈ l, a ∈ l ∨ P a := fun _ => Or.inl

theorem Ids.same : Ids w ⟨db, x, w.lastId, w.uuids, w.stamped, ss, ks, cs, ds, as, fs⟩ :=
  ⟨.none rfl, le_rfl, id, fun _ h => h⟩

theorem Ids.token {u : String} :
    Ids w ⟨db, x, w.lastId, u :: w.uuids, w.stamped, ss, ks, cs, ds, as, fs⟩ :=
  ⟨.none rfl, le_rfl, id, List.subset_cons_self _ _⟩

theorem Calls.same :
    Calls J w ⟨db, x, l, us, ms, w.sends, w.workers, w.consumers, w.deliveries, w.acks, w.friendCalls⟩ :=
  ⟨keep, keep, .fewer (List.Sublist.refl _), keep, keep, keep, keep⟩

theorem Calls.of_sends (h : ∀ c ∈ ss, c ∈ w.sends ∨ SendNew J w
      ⟨db, x, l, us, ms, ss, w.workers, w.consumers, w.deliveries, w.acks, w.friendCalls⟩ c) :
    Calls J w ⟨db, x, l, us, ms, ss, w.workers, w.consumers, w.deliveries, w.acks, w.friendCalls⟩ :=
  ⟨h, keep, .fewer (List.Sublist.refl _), keep, keep, keep, keep⟩

theorem Calls.of_workers
    (h : ∀ k ∈ ks, k ∈ w.workers ∨ WorkerNew J w
      ⟨db, x, l, us, ms, w.sends, ks, w.consumers, w.deliveries, w.acks, w.friendCalls⟩ k)
    (ht : Tokens w
      ⟨db, x, l, us, ms, w.sends, ks, w.consumers, w.deliveries, w.acks, w.friendCalls⟩) :
    Calls J w ⟨db, x, l, us, ms, w.sends, ks, w.consumers, w.deliveries, w.acks, w.friendCalls⟩ :=
  ⟨keep, h, ht, keep, keep, keep, keep⟩

theorem Calls.of_consumers (h : ∀ c ∈ cs, c ∈ w.consumers ∨ ConsumerNew w c) :
    Calls J w ⟨db, x, l, us, ms, w.sends, w.workers, cs, w.deliveries, w.acks, w.friendCalls⟩ :=
  ⟨keep, keep, .fewer (List.Sublist.refl _), h, keep, keep, keep⟩

theorem Calls.of_deliveries
    (h : ∀ m ∈ ds, m ∈ w.deliveries ∨ ∃ d ∈ w.stores.mongo, m = decodeMessage d) :
    Calls J w ⟨db, x, l, us, ms, w.sends, w.workers, w.consumers, ds, w.acks, w.friendCalls⟩ :=
  ⟨keep, keep, .fewer (List.Sublist.refl _), keep, h, keep, keep⟩

theorem Calls.of_acks (h : ∀ a ∈ as, a ∈ w.acks ∨
      ackLookup J w.db w.stores.mongo a.owner a.serverId = .ok (.commit a.message)) :
    Calls J w ⟨db, x, l, us, ms, w.sends, w.workers, w.consumers, w.deliveries, as, w.friendCalls⟩ :=
  ⟨keep, keep, .fewer (List.Sublist.refl _), keep, keep, h, keep⟩

theorem Calls.of_friends
    (h : ∀ c ∈ fs, c ∈ w.friendCalls ∨ w.db.friendStart c.command = .ok c.target) :
    Calls J w ⟨db, x, l, us, ms, w.sends, w.workers, w.consumers, w.deliveries, w.acks, fs⟩ :=
  ⟨keep, keep, .fewer (List.Sublist.refl _), keep, keep, keep, h⟩

end

/-! ## The actions -/

section
variable {J : Codec} {w w' : World} {es : List Event}

/-- The elements after one of them was replaced. -/
theorem mem_set_cases {α : Type} {l : List α} {i : ℕ} {a b : α} {P : α → Prop}
    (hb : P b) (h : a ∈ l.set i b) : a ∈ l ∨ P a := by
  rcases List.mem_or_eq_of_mem_set h with h | rfl
  · exact Or.inl h
  · exact Or.inr hb

/-- The elements after one was added. -/
theorem mem_snoc_cases {α : Type} {l : List α} {a b : α} {P : α → Prop} (hb : P b)
    (h : a ∈ l ++ [b]) : a ∈ l ∨ P a := by
  rcases List.mem_append.1 h with h | h
  · exact Or.inl h
  · rw [List.mem_singleton.1 h]; exact Or.inr hb

theorem send_move {m : MsgData} {uuid : String} {seq : ℕ} {time : Int}
    (h : w.send m uuid seq time = some (w', es)) : Move J w w' es := by
  unfold World.send at h
  split_ifs at h with hg hu
  · cases h
    exact ⟨.same rfl, .same rfl, .same, .same, by simp [Event.Justified]⟩
  · cases h
    obtain ⟨hu, hn, hs, hb⟩ := hu
    refine ⟨.same rfl, .same rfl, ⟨?_, hs.le, fun _ => hb, List.subset_cons_self _ _⟩,
      .of_sends fun c hc => mem_snoc_cases (.queue _ List.mem_cons_self) hc, by simp⟩
    exact .message m uuid seq time (by simpa using hg) hu hn List.mem_cons_self hs rfl rfl

theorem sendErrorCode_ne (e : Thrown) : sendErrorCode e ≠ "0" := by
  cases e <;> simp [sendErrorCode]

theorem queueLookup_move {i : ℕ} (h : w.queueLookup J i = some (w', es)) : Move J w w' es := by
  unfold World.queueLookup at h
  split at h
  · next m hm =>
    have hmem := List.mem_of_getElem? hm
    have herase : ∀ c ∈ w.sends.eraseIdx i, c ∈ w.sends := fun c => List.mem_of_mem_eraseIdx
    split_ifs at h with hv hf
    · cases h
      exact ⟨.same rfl, .same rfl, .same, .of_sends fun c hc => Or.inl (herase c hc),
        by simp [Event.Justified]⟩
    · split at h
      · next e he =>
        cases h
        exact ⟨.same rfl, .same rfl, .same, .of_sends fun c hc => Or.inl (herase c hc),
          by simp [Event.Justified, sendErrorCode_ne]⟩
      · next hl =>
        cases h
        exact ⟨.same rfl, .same rfl, .same, .of_sends fun c hc =>
          mem_set_cases (.insert m hmem (by simpa using hv) hl rfl) hc, by simp⟩
      · next task hl =>
        cases h
        obtain ⟨-, r, original, rfl, hr⟩ := queueLookup_some hl
        obtain ⟨hrow, ho⟩ := messageRow_mem hr.row
        refine ⟨.lock _ _ rfl, .same rfl, .same, .of_sends fun c hc =>
          mem_set_cases (.poll m .queue r hmem hrow (Or.inl ho)) hc, ?_⟩
        have : J.parseMsg (outboxRow r).payload = some original := hr.message
        simpa [this, Event.Justified] using hr.allowed
  · cases h

theorem queueInsert_move {i : ℕ} {lost : Bool} (h : w.queueInsert J i lost = some (w', es)) :
    Move J w w' es := by
  unfold World.queueInsert at h
  split at h
  · next m hm =>
    have hmem := List.mem_of_getElem? hm
    split at h
    · next e he =>
      cases h
      exact ⟨.same rfl, .same rfl, .same, .of_sends fun c hc => Or.inl (List.mem_of_mem_eraseIdx hc),
        by simp [Event.Justified, sendErrorCode_ne]⟩
    · next task db hi =>
      obtain ⟨payload, hj, hn, rfl, rfl⟩ := queueInsert_ok hi
      split_ifs at h
      · cases h
        exact ⟨.insert m payload hmem hj hn (by simp) rfl, .same rfl, .same,
          .of_sends fun c hc => Or.inl (List.mem_of_mem_eraseIdx hc), by simp [Event.Justified, hmem, hj]⟩
      · cases h
        have hrow : Db.newMessageRow w.db.nextOutboxId m payload
            ∈ (w.db.insertMessage m payload).outbox :=
          List.mem_append_right _ (List.mem_singleton.2 rfl)
        exact ⟨.insert m payload hmem hj hn (by simp) rfl, .same rfl, .same, .of_sends fun c hc =>
          mem_set_cases (.poll m .insert _ hmem hrow (Or.inl ⟨rfl, rfl⟩)) hc, by simp [Event.Justified, hmem, hj]⟩
  · cases h

theorem abortSend_move {i : ℕ} (h : w.abortSend i = some (w', es)) : Move J w w' es := by
  unfold World.abortSend at h
  split at h
  · cases h
    exact ⟨.same rfl, .same rfl, .same, .of_sends fun c hc => Or.inl (List.mem_of_mem_eraseIdx hc),
      by simp [Event.Justified]⟩
  · cases h

theorem poll_move {i : ℕ} (h : w.poll i = some (w', es)) : Move J w w' es := by
  unfold World.poll at h
  split at h
  · next m task hm =>
    have hmem := List.mem_of_getElem? hm
    split_ifs at h
    split at h
    · next t ht =>
      cases h
      obtain ⟨r, hr, hid, rfl⟩ := getOutboxTask_ok ht
      exact ⟨.same rfl, .same rfl, .same, .of_sends fun c hc =>
        mem_set_cases (.poll m _ r hmem hr (Or.inr ⟨task, rfl, hid⟩)) hc, by simp⟩
    · next e he =>
      cases h
      exact ⟨.same rfl, .same rfl, .same, .of_sends fun c hc => Or.inl (List.mem_of_mem_eraseIdx hc),
        by simp [Event.Justified, sendErrorCode_ne]⟩
  · cases h

/-- `SendMessages` answers `0` only with a stored message that was staged. -/
theorem sendReply_zero {m : MsgData} {task : OutboxTask} (h : (sendReply J m task).2 = "0") :
    J.parseMsg task.payload = some (sendReply J m task).1 ∧ task.stage ≠ 0 := by
  unfold sendReply at h ⊢
  split at h
  · simp at h
  · next stored hs =>
    split_ifs at h ⊢ with h₁ h₂
    · simp at h
    · simp at h
    · exact ⟨hs, h₂⟩

theorem reply_move {i : ℕ} {timedOut : Bool} (h : w.reply J i timedOut = some (w', es)) :
    Move J w w' es := by
  unfold World.reply at h
  split at h
  · next m task hm =>
    split_ifs at h
    cases h
    refine ⟨.same rfl, .same rfl, .same, .of_sends fun c hc => Or.inl (List.mem_of_mem_eraseIdx hc),
      fun e he => ?_⟩
    rw [List.mem_singleton.1 he]
    intro hc
    exact ⟨_, List.mem_of_getElem? hm, task, rfl, sendReply_zero hc⟩
  · cases h

/-! ### Workers -/

theorem claim_move {now : Int} {locked : List ℕ} {token : String}
    (h : w.claim now locked token = some (w', es)) : Move J w w' es := by
  unfold World.claim at h
  split_ifs at h with ht
  split at h
  · cases h
    exact ⟨.same rfl, .same rfl, .token, .same, by simp⟩
  · next task db hc =>
    cases h
    obtain ⟨r, hr, hs, rfl, rfl⟩ := claimOutboxTask_some hc
    exact ⟨.claim r now token hr hs ht.2 rfl, .same rfl, .token,
      .of_workers (fun k hk => mem_snoc_cases (.claimed r token hr hs) hk)
        (.claim token ht.2 List.mem_cons_self (by simp)), by simp⟩

theorem map_token_set {l : List Worker} {i : ℕ} {task : OutboxTask} {pc pc' : WorkerPc}
    (h : l[i]? = some ⟨task, pc⟩) :
    (l.set i ⟨task, pc'⟩).map (·.task.leaseToken) = l.map (·.task.leaseToken) := by
  refine List.ext_getElem? fun j => ?_
  by_cases hj : i = j
  · subst hj
    obtain ⟨hi, he⟩ := List.getElem?_eq_some_iff.1 h
    simp [hi, he]
  · simp [List.getElem?_set_ne hj]

theorem afterPhase_cases {J : Codec} {w w' : World} {task : OutboxTask} {pc : WorkerPc} {now : Int}
    {o : Except (Failure Thrown) Bool} (hk : ⟨task, pc⟩ ∈ w.workers)
    (hc : ∀ b, o = .ok b → Commit J w.db task (pc = .persist) now w'.stores b w'.db) :
    WorkerNew J w w' ⟨task, World.afterPhase pc o⟩ := by
  rcases o with f | b
  · exact .stopped task pc _ hk (Or.inl rfl)
  · cases b with
    | false => exact .stopped task pc _ hk (Or.inr rfl)
    | true =>
      have hc := hc true rfl
      unfold World.afterPhase
      by_cases hp : pc = .persist
      · rw [if_pos hp]
        subst hp
        exact .persisted task now hk (by simpa using hc)
      · rw [if_neg hp]
        exact .stopped task pc _ hk (Or.inr rfl)

/-- A phase of a worker: a transaction, and where the worker goes after it. -/
theorem runPhase_cases {i : ℕ} {now : Int} {lost : Bool} {fuel : ℕ}
    (h : w.runPhase J i now lost fuel = some (w', es)) :
    ∃ task pc o db' x', w.workers[i]? = some ⟨task, pc⟩ ∧ (pc = .persist ∨ pc = .dispatch) ∧
      w' = { w with db := db', stores := x', workers := w.workers.set i ⟨task, World.afterPhase pc o⟩ } ∧
      es = (db'.recorded.drop w.db.recorded.length).map .staged ++
        (x'.dispatched.drop w.stores.dispatched.length).map .dispatched ∧
      StoreSteps J w.db task (pc = .persist) w.stores x' ∧
      ((∃ b, Commit J w.db task (pc = .persist) now x' b db' ∧ (o = .ok b ∨ ∃ f, o = .error f)) ∨
        (db' = w.db ∧ ∃ f, o = .error f)) := by
  unfold World.runPhase at h
  split at h
  · next task pc hk =>
    split_ifs at h with hp
    dsimp only at h
    rcases hr : Txn.transaction (phase J task (pc = .persist) now) lost w.db w.stores fuel with
      ⟨o, db', x'⟩
    rw [hr] at h
    cases h
    obtain ⟨hs, hd⟩ := phase_cases lost fuel hr
    exact ⟨task, pc, o, db', x', hk, hp.1, rfl, rfl, hs, hd⟩
  · cases h

theorem runPhase_move {i : ℕ} {now : Int} {lost : Bool} {fuel : ℕ}
    (h : w.runPhase J i now lost fuel = some (w', es)) : Move J w w' es := by
  obtain ⟨task, pc, o, db', x', hk, hp, rfl, rfl, hs, hd⟩ := runPhase_cases h
  have hmem := List.mem_of_getElem? hk
  have hcommit : ∀ b, o = .ok b → Commit J w.db task (pc = .persist) now x' b db' := by
    rintro b rfl
    rcases hd with ⟨b', hc, he | ⟨f, he⟩⟩ | ⟨-, f, he⟩
    · cases he; exact hc
    · cases he
    · cases he
  refine ⟨?_, .phase ⟨task, pc⟩ hmem hp hs, .same,
    .of_workers (fun k hk' => mem_set_cases (afterPhase_cases hmem hcommit) hk')
      (.fewer (by rw [map_token_set hk])), ?_⟩
  · rcases hd with ⟨b, hc, -⟩ | ⟨rfl, -⟩
    · exact .commit ⟨task, pc⟩ now b hmem hp hc
    · exact .same rfl
  · intro e he
    rcases List.mem_append.1 he with he | he
    · obtain ⟨m, hm, rfl⟩ := List.mem_map.1 he
      rcases hd with ⟨b, hc, -⟩ | ⟨rfl, -⟩
      · rcases hc.recorded with hrec | ⟨r, m', hready, hrec⟩
        · simp [hrec] at hm
        · simp only [hrec, List.drop_left, List.mem_singleton] at hm
          subst hm
          exact ⟨_, hmem, r, hready⟩
      · simp at hm
    · obtain ⟨m, hm, rfl⟩ := List.mem_map.1 he
      obtain ⟨l, hl, hready⟩ := StoreSteps.dispatched hs
      simp only [hl, List.drop_left] at hm
      obtain ⟨r, hr⟩ := hready m hm
      exact ⟨_, hmem, r, hr⟩

theorem retry_move {i : ℕ} {now : Int} (h : w.retry i now = some (w', es)) : Move J w w' es := by
  unfold World.retry at h
  split at h
  · next task hk =>
    cases h
    have hmem := List.mem_of_getElem? hk
    exact ⟨.retry ⟨task, .failed⟩ now hmem rfl, .same rfl, .same,
      .of_workers (fun k hk' => mem_set_cases (.stopped task _ _ hmem (Or.inr rfl)) hk')
        (.fewer (by rw [map_token_set hk])), by simp⟩
  · cases h

/-- Dropping a worker is a move. -/
theorem dropWorker_move {i : ℕ} (he : ∀ e ∈ es, ∃ m code, e = .notified m code) :
    Move J w { w with workers := w.workers.eraseIdx i } es := by
  refine ⟨.same rfl, .same rfl, .same,
    .of_workers (fun k hk => Or.inl (List.mem_of_mem_eraseIdx hk))
      (.fewer ((List.eraseIdx_sublist _ _).map _)), fun e h => ?_⟩
  obtain ⟨m, code, rfl⟩ := he e h
  trivial

theorem notify_move {i : ℕ} (h : w.notify J i = some (w', es)) : Move J w w' es := by
  unfold World.notify at h
  split at h
  · cases h
    refine dropWorker_move fun e he => ?_
    split at he
    · cases he
    · obtain ⟨r, -, rfl⟩ := Option.map_eq_some_iff.1 (Option.mem_toList.1 he)
      exact ⟨_, _, rfl⟩
  · cases h

/-! ### Consumers, logins and history -/

theorem consume_move {k : ℕ} {hit : Bool} (h : w.consume k hit = some (w', es)) :
    Move J w w' es := by
  unfold World.consume at h
  split at h
  · cases h
  · next r hr =>
    dsimp only at h
    split at h
    · cases h; exact ⟨.same rfl, .same rfl, .same, .same, by simp⟩
    · next m hm =>
      split_ifs at h
      · cases h; exact ⟨.same rfl, .same rfl, .same, .same, by simp⟩
      · cases h
        refine ⟨.same rfl, .same rfl, .same, .of_consumers fun c hc =>
          mem_snoc_cases (.fetched r m (List.mem_of_getElem? hr) ?_) hc, by simp⟩
        rcases (Option.orElse_eq_some _ _ _).1 hm with hm | ⟨-, hm⟩
        · split_ifs at hm
          exact Or.inl hm
        · exact Or.inr hm

theorem checkDispatch_move {j : ℕ} (h : w.checkDispatch j = some (w', es)) : Move J w w' es := by
  unfold World.checkDispatch at h
  split at h
  · next serverId m hc =>
    split_ifs at h
    · cases h
      exact ⟨.same rfl, .same rfl, .same,
        .of_consumers fun c hc => Or.inl (List.mem_of_mem_eraseIdx hc), by simp⟩
    · cases h
      exact ⟨.same rfl, .same rfl, .same, .of_consumers fun c hc' =>
        mem_set_cases (.moved serverId m _ _ (List.mem_of_getElem? hc)) hc', by simp⟩
  · cases h

theorem push_move {j : ℕ} {ok : Bool} (h : w.push j ok = some (w', es)) : Move J w w' es := by
  unfold World.push at h
  split at h
  · next serverId m hc =>
    have hmem := List.mem_of_getElem? hc
    have he : ∀ w', ∀ e ∈ (if w.db.friendMessageAllowed m true then [Event.pushed m] else []),
        e.Justified J w w' := by
      intro w' e he
      split_ifs at he with ha
      · rw [List.mem_singleton.1 he]; exact ⟨⟨_, hmem, rfl⟩, ha⟩
      · cases he
    by_cases hf : w.pairFree m.sendID m.recvID = true
    · rw [if_pos hf] at h
      cases ok with
      | true =>
        cases h
        exact ⟨.lock _ _ rfl, .same rfl, .same, .of_consumers fun c hc =>
          mem_set_cases (.moved serverId m _ _ hmem) hc, he _⟩
      | false =>
        cases h
        exact ⟨.same rfl, .same rfl, .same,
          .of_consumers fun c hc => Or.inl (List.mem_of_mem_eraseIdx hc), he _⟩
    · rw [if_neg hf] at h; cases h
  · cases h

theorem confirm_move {j : ℕ} (h : w.confirm j = some (w', es)) : Move J w w' es := by
  unfold World.confirm at h
  split at h
  · next serverId m hc =>
    cases h
    exact ⟨.confirm ⟨serverId, m, .pushed⟩ (List.mem_of_getElem? hc) rfl, .same rfl, .same,
      .of_consumers fun c hc => Or.inl (List.mem_of_mem_eraseIdx hc), by simp⟩
  · cases h

theorem getMsgsBySeq_mem {user : Account} {after limit : Int} {docs : List Doc} {m : MsgData}
    (h : m ∈ getMsgsBySeq user after limit docs) : ∃ d ∈ docs, m = decodeMessage d := by
  unfold getMsgsBySeq at h
  split_ifs at h
  · cases h
  · obtain ⟨d, hd, rfl⟩ := List.mem_map.1 h
    have := (List.mem_insertionSort _).1 (List.mem_of_mem_take hd)
    exact ⟨d, (List.mem_filter.1 this).1, rfl⟩

theorem scan_move {account : Account} {after limit : Int}
    (h : w.scan account after limit = some (w', es)) : Move J w w' es := by
  cases h
  refine ⟨.same rfl, .same rfl, .same, .of_deliveries fun m hm => ?_, by simp⟩
  rcases List.mem_append.1 hm with hm | hm
  · exact Or.inl hm
  · exact Or.inr (getMsgsBySeq_mem (List.takeWhile_subset _ hm))

theorem deliver_move {j : ℕ} {ok : Bool} (h : w.deliver j ok = some (w', es)) : Move J w w' es := by
  unfold World.deliver at h
  split at h
  · cases h
  · next m hm =>
    have hmem := List.mem_of_getElem? hm
    by_cases hf : w.pairFree m.sendID m.recvID = true
    · rw [if_pos hf] at h
      cases h
      refine ⟨?_, .same rfl, .same, .of_deliveries fun m hm => Or.inl (List.mem_of_mem_eraseIdx hm),
        fun e he => ?_⟩
      · cases ok with
        | true => exact .lock _ _ rfl
        | false => exact .same rfl
      · split_ifs at he with ha
        · rw [List.mem_singleton.1 he]; exact ⟨hmem, ha⟩
        · cases he
    · rw [if_neg hf] at h; cases h

theorem history_move {q : HistoryQuery} (h : w.history q = some (w', es)) : Move J w w' es := by
  unfold World.history at h
  split at h
  · cases h; exact ⟨.same rfl, .same rfl, .same, .same, by simp⟩
  · split_ifs at h
    cases h
    exact ⟨.lock _ _ rfl, .same rfl, .same, .same, by simp⟩
  · next p hp =>
    split_ifs at h
    cases h
    refine ⟨.lock _ _ rfl, .same rfl, .same, .same, fun e he => ?_⟩
    obtain ⟨m, hm, rfl⟩ := List.mem_map.1 he
    exact ⟨q, p, hp, hm⟩

/-! ### Acknowledgements and friends -/

theorem ackStart_move {owner : Account} {serverId : String} {ackType : Int}
    (h : w.ackStart J owner serverId ackType = some (w', es)) : Move J w w' es := by
  unfold World.ackStart at h
  split_ifs at h
  · cases h; exact ⟨.same rfl, .same rfl, .same, .same, by simp⟩
  · split at h
    · cases h; exact ⟨.same rfl, .same rfl, .same, .same, by simp⟩
    · cases h; exact ⟨.same rfl, .same rfl, .same, .same, by simp⟩
    · next m hm =>
      cases h
      exact ⟨.same rfl, .same rfl, .same, .of_acks fun a ha => mem_snoc_cases (P := fun a : AckCall =>
        ackLookup J w.db w.stores.mongo a.owner a.serverId = .ok (.commit a.message)) hm ha, by simp⟩

theorem ackCommit_move {j : ℕ} {now : Int} (h : w.ackCommit j now = some (w', es)) :
    Move J w w' es := by
  unfold World.ackCommit at h
  split at h
  · cases h
  · next owner serverId m ha =>
    have hmem := List.mem_of_getElem? ha
    split_ifs at h
    cases h
    refine ⟨.receipt ⟨owner, serverId, m⟩ now hmem rfl, .same rfl, .same,
      .of_acks fun a ha => Or.inl (List.mem_of_mem_eraseIdx ha), fun e he => ?_⟩
    rw [List.mem_singleton.1 he]
    exact ⟨_, hmem, now, rfl, rfl, rfl⟩

theorem friendStart_move {cmd : FriendCommand} (h : w.friendStart cmd = some (w', es)) :
    Move J w w' es := by
  unfold World.friendStart at h
  split at h
  · cases h; exact ⟨.same rfl, .same rfl, .same, .same, by simp⟩
  · next target ht =>
    cases h
    exact ⟨.same rfl, .same rfl, .same, .of_friends fun c hc =>
      mem_snoc_cases (P := fun c : FriendCall => w.db.friendStart c.command = .ok c.target) ht hc,
      by simp⟩

theorem friendCommit_move {j : ℕ} {now : Int} {seq : ℕ}
    (h : w.friendCommit j now seq = some (w', es)) : Move J w w' es := by
  unfold World.friendCommit at h
  split at h
  · cases h
  · next cmd target hc =>
    have hmem := List.mem_of_getElem? hc
    have herase : ∀ c ∈ w.friendCalls.eraseIdx j, c ∈ w.friendCalls ∨
        w.db.friendStart c.command = .ok c.target := fun c hc => Or.inl (List.mem_of_mem_eraseIdx hc)
    split_ifs at h with hf
    split at h
    · cases h
      exact ⟨.same rfl, .same rfl, .same, .of_friends herase, by simp⟩
    · next reply drawn db hm =>
      split_ifs at h with hd
      cases h
      rcases mutate_cases hm with ⟨rfl, apps, n, rfl⟩ | ⟨rfl, apps, rfl⟩ | ⟨rfl, -, rfl⟩ | ⟨rfl, hn, rfl⟩
      · exact ⟨.applications _ _ apps n rfl, .same rfl, .same, .of_friends herase, by simp⟩
      · exact ⟨.befriend ⟨cmd, target⟩ now apps hmem rfl, .same rfl, .same, .of_friends herase, by simp⟩
      · simp only [Option.all_some, Bool.and_eq_true, decide_eq_true_eq] at hd
        refine ⟨.unfriend ⟨cmd, target⟩ now seq hmem hf hd.1 rfl rfl, .same rfl,
          ⟨.none rfl, hd.1.le, fun _ => hd.2, fun _ h => h⟩, .of_friends herase, fun e he => ?_⟩
        obtain rfl : e = .deleted cmd.actor target seq := by simpa using he
        exact ⟨_, hmem, now, rfl, rfl, hd.1, rfl⟩
      · exact ⟨.clear ⟨cmd, target⟩ hmem hn rfl, .same rfl, .same, .of_friends herase, by simp⟩

/-- **Every step is a move.** -/
theorem step_move {a : Action} (h : step J w a = some (w', es)) : Move J w w' es := by
  cases a with
  | send => exact send_move h
  | queueLookup => exact queueLookup_move h
  | queueInsert => exact queueInsert_move h
  | abortSend => exact abortSend_move h
  | poll => exact poll_move h
  | reply => exact reply_move h
  | claim => exact claim_move h
  | runPhase => exact runPhase_move h
  | retry => exact retry_move h
  | notify => exact notify_move h
  | crash => cases h; exact dropWorker_move (by simp)
  | consume => exact consume_move h
  | checkDispatch => exact checkDispatch_move h
  | push => exact push_move h
  | confirm => exact confirm_move h
  | dropConsumer =>
    cases h
    exact ⟨.same rfl, .same rfl, .same,
      .of_consumers fun c hc => Or.inl (List.mem_of_mem_eraseIdx hc), by simp⟩
  | scan => exact scan_move h
  | deliver => exact deliver_move h
  | dropDelivery =>
    cases h
    exact ⟨.same rfl, .same rfl, .same,
      .of_deliveries fun m hm => Or.inl (List.mem_of_mem_eraseIdx hm), by simp⟩
  | history => exact history_move h
  | ackStart => exact ackStart_move h
  | ackCommit => exact ackCommit_move h
  | dropAck =>
    cases h
    exact ⟨.same rfl, .same rfl, .same,
      .of_acks fun a ha => Or.inl (List.mem_of_mem_eraseIdx ha), by simp⟩
  | friendStart => exact friendStart_move h
  | friendCommit => exact friendCommit_move h
  | dropFriend =>
    cases h
    exact ⟨.same rfl, .same rfl, .same,
      .of_friends fun c hc => Or.inl (List.mem_of_mem_eraseIdx hc), by simp⟩
  | markRead owner conv seq =>
    cases h
    exact ⟨.edit (markConversationRead_edits w.db owner conv seq), .same rfl, .same, .same, by simp⟩
  | updateSettings owner conv pinned opt =>
    dsimp only [step] at h
    split at h
    · cases h; exact ⟨.same rfl, .same rfl, .same, .same, by simp⟩
    · next b db hu =>
      cases h
      exact ⟨.edit (updateConversationSettings_edits hu), .same rfl, .same, .same, by simp⟩
  | deleteConversation owner conv =>
    cases h
    exact ⟨.edit (deleteConversation_edits w.db owner conv), .same rfl, .same, .same, by simp⟩
  | register u =>
    cases h
    exact ⟨.register u rfl, .same rfl, .same, .same, by simp⟩
  | expire key =>
    cases h
    exact ⟨.same rfl, .expire key rfl, .same, .same, by simp⟩

end

end ApeServer
