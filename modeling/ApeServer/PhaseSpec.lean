/-
  What a phase of `ProcessOutboxTask` can do.

  A phase makes a sequence of store writes, each of them a `StoreStep`, and
  then, if its transaction commits, one change of the tables, a `Commit`.
  Both need the lease of the row (`Leased`), except the commit that finds the
  lease gone and only locks the pair.

  * `phase_spec`: the body of a phase, wherever it fails;
  * `phase_cases`: the transaction around it, with rollback and with a lost
    answer of `COMMIT`.
-/
import ApeServer.Process
import Mathlib.Logic.Relation

namespace ApeServer

open Table Txn Relation

/-- The row is leased to the worker of the task. -/
structure Leased (db : Db) (task : OutboxTask) (r : OutboxRow) : Prop where
  found : db.outbox.find? (fun r => r.id = task.id) = some r
  state : r.state = 1
  token : r.leaseToken = task.leaseToken

/-- The worker holds the lease, and the friend check admits the message `m`
    of the task. -/
structure Ready (J : Codec) (db : Db) (task : OutboxTask) (r : OutboxRow) (m : MsgData) : Prop where
  leased : Leased db task r
  operation : task.operation = 1
  allowed : db.friendAllows task.actor task.peer task.seq = true
  message : J.parseMsg task.payload = some m

/-- The document of the message is published. -/
def Stores.Published (x : Stores) (serverId : String) : Prop :=
  ∃ d ∈ x.mongo, d.serverMsgID = serverId ∧ d.committed = true

/-- The stores after the publication of a message was begun. -/
def Stores.publish (x : Stores) (serverId : String) (m : MsgData) : Stores :=
  { x with
    mongo := (publishMessage serverId x.mongo).2
    dispatched := x.dispatched ++ [m] }

/-- One write of a phase to the stores. -/
inductive StoreStep (J : Codec) (db : Db) (task : OutboxTask) (persist : Bool) :
    Stores → Stores → Prop
  | save {x : Stores} {r : OutboxRow} {m : MsgData} (h : Ready J db task r m)
      (hp : persist = true) (hs : r.stage = 0) :
      StoreStep J db task persist x { x with mongo := saveMsgToMongo m false x.mongo }
  | publish {x : Stores} {r : OutboxRow} {m : MsgData} (h : Ready J db task r m)
      (hp : persist = false) :
      StoreStep J db task persist x (x.publish task.serverId m)
  | cache {x : Stores} {r : OutboxRow} {m : MsgData} (h : Ready J db task r m)
      (hp : persist = false) (hx : x.Published task.serverId) :
      StoreStep J db task persist x { x with redis := x.redis.saveMsg m }
  | enqueue {x : Stores} {r : OutboxRow} {m : MsgData} (h : Ready J db task r m)
      (hp : persist = false) (hx : x.Published task.serverId) :
      StoreStep J db task persist x
        { x with kafka := x.kafka ++ [⟨task.conversation, task.serverId⟩] }
  | forget {x : Stores} {r : OutboxRow} {id : String} {owner : Account} {c : Redis → Redis}
      (h : Leased db task r) (ho : task.operation = 2)
      (hid : id ∈ getSingleChatMessageIDs task.conversation task.seq x.mongo)
      (hc : c ∈ Redis.cleanupCommands owner id) :
      StoreStep J db task persist x { x with redis := c x.redis }
  | delete {x : Stores} {r : OutboxRow} (h : Leased db task r) (ho : task.operation = 2) :
      StoreStep J db task persist x
        { x with mongo := deleteSingleChatHistory task.conversation task.seq x.mongo }
  | mark {x : Stores} {r : OutboxRow} (h : Leased db task r) (ho : task.operation = 3) :
      StoreStep J db task persist x
        { x with mongo := markMsgsAsDelivered task.peer [task.serverId] x.mongo }
  | uncache {x : Stores} {r : OutboxRow} {c : Redis → Redis} (h : Leased db task r)
      (ho : task.operation = 3) (hc : c ∈ Redis.cleanupCommands task.peer task.serverId) :
      StoreStep J db task persist x { x with redis := c x.redis }

/-- The change of the tables when a phase commits with its answer, from the
    stores `x` its writes have led to. -/
inductive Commit (J : Codec) (db : Db) (task : OutboxTask) (persist : Bool) (now : Int) (x : Stores) :
    Bool → Db → Prop
  | skip (h : ¬ ∃ r, Leased db task r) :
      Commit J db task persist now x false (db.lockPair task.actor task.peer)
  | cancel {r : OutboxRow} (h : Leased db task r) (ho : task.operation = 1)
      (ha : db.friendAllows task.actor task.peer task.seq = false) :
      Commit J db task persist now x false
        ((db.lockPair task.actor task.peer).updateTask task.id fun r => { r with state := 3 })
  | already {r : OutboxRow} {m : MsgData} (h : Ready J db task r m) (hp : persist = true)
      (hs : r.stage ≠ 0) :
      Commit J db task persist now x true (db.lockPair task.actor task.peer)
  | stage {r : OutboxRow} {m : MsgData} {latest : String} (h : Ready J db task r m)
      (hp : persist = true) (hs : r.stage = 0) (hx : ∃ d ∈ x.mongo, d.serverMsgID = m.serverMsgID) :
      Commit J db task persist now x true
        (((db.lockPair task.actor task.peer).recordConversationMessage m latest).updateTask task.id
          fun r => { r with stage := 1 })
  | requeue {r : OutboxRow} {m : MsgData} (h : Ready J db task r m) (hp : persist = false) :
      Commit J db task persist now x true
        ((db.lockPair task.actor task.peer).updateTask task.id fun r =>
          { r with state := 0, availableAt := now + 5000, leaseToken := "" })
  | complete {r : OutboxRow} {m : MsgData} (h : Ready J db task r m) (hp : persist = false)
      (hr : db.hasReceipt task.peer task.serverId = true) :
      Commit J db task persist now x true
        ((db.lockPair task.actor task.peer).updateTask task.id fun r =>
          { r with state := 2, leaseToken := "" })
  | cleanup {r : OutboxRow} (h : Leased db task r) (ho : task.operation = 2) :
      Commit J db task persist now x true
        (Db.updateTask { db.lockPair task.actor task.peer with
          outbox := updateWhere (cleanupRow task) Db.cancelRow db.outbox } task.id fun r =>
            { r with state := 2, leaseToken := "" })
  | ack {r : OutboxRow} (h : Leased db task r) (ho : task.operation = 3) :
      Commit J db task persist now x true
        ((db.lockPair task.actor task.peer).updateTask task.id fun r =>
          { r with state := 2, leaseToken := "" })

/-- The store writes of a phase. -/
abbrev StoreSteps (J : Codec) (db : Db) (task : OutboxTask) (persist : Bool) :
    Stores → Stores → Prop :=
  ReflTransGen (StoreStep J db task persist)

section
variable {J : Codec} {db : Db} {task : OutboxTask} {persist : Bool} {now : Int} {x x₀ : Stores}
  {r : OutboxRow} {m : MsgData}

/-- The postconditions of a phase that started in the stores `x₀`. -/
def PhaseDone (J : Codec) (db : Db) (task : OutboxTask) (persist : Bool) (now : Int) (x₀ : Stores)
    (b : Bool) (db' : Db) (x : Stores) : Prop :=
  StoreSteps J db task persist x₀ x ∧ Commit J db task persist now x b db'

theorem wp_redisCommands {Q : PUnit → Db → Stores → Prop} {db : Db}
    {cs : List (Redis → Redis)} {I : Stores → Prop} {R : Failure Thrown → Stores → Prop}
    (hI : ∀ c ∈ cs, ∀ x, I x → I { x with redis := c x.redis }) (hR : ∀ x, I x → R .fault x)
    (hQ : ∀ x, I x → Q ⟨⟩ db x) (hx : I x) : wp (redisCommands cs) Q R db x := by
  have h := wp_forM (R := R) (l := cs) (f := fun c => store fun x => { x with redis := c x.redis })
    (I := fun db' x => db' = db ∧ I x) ?_ ⟨rfl, hx⟩
  · refine wp_mono h (fun _ db' x' h' => ?_) fun _ _ hr => hr
    obtain ⟨rfl, h'⟩ := h'
    exact hQ _ h'
  · rintro c hc db' x' ⟨rfl, hi⟩
    exact wp_effect (hR _ hi) ⟨rfl, hI c hc _ hi⟩

theorem mem_saveMsgToMongo (m : MsgData) (b : Bool) (docs : List Doc) :
    ∃ d ∈ saveMsgToMongo m b docs, d.serverMsgID = m.serverMsgID := by
  obtain ⟨d, hd, he⟩ := exists_insertNew (p := fun d : Doc => d.serverMsgID = m.serverMsgID)
    (r := Doc.ofMsg m b) (by simp [Doc.ofMsg]) docs
  exact ⟨d, hd, by simpa using he⟩

theorem published_publish {serverId : String} (h : (publishMessage serverId x.mongo).1 = true) :
    (x.publish serverId m).Published serverId := by
  obtain ⟨d, hd, he⟩ := List.any_eq_true.1 h
  refine ⟨{ d with committed := true }, mem_updateWhere.2 ⟨d, hd, ?_⟩, by simpa using he, rfl⟩
  rw [if_pos he]

theorem persistMessage_spec (h : Ready J db task r m) (hp : persist = true) :
    wp (persistMessage J task r.stage m) (PhaseDone J db task persist now x)
      (fun _ x' => StoreSteps J db task persist x x') (db.lockPair task.actor task.peer) x := by
  unfold persistMessage
  split_ifs with hs hg
  · have hsave := ReflTransGen.single (StoreStep.save (x := x) h hp hs)
    exact wp_effect_bind .refl (wp_fail hsave)
  · have hsave := ReflTransGen.single (StoreStep.save (x := x) h hp hs)
    refine wp_effect_bind .refl ?_
    cases hl : conversationSummary J m with
    | none => exact wp_fail hsave
    | some latest =>
      refine wp_exec_bind hsave (wp_exec_bind hsave (wp_pure ⟨hsave, ?_⟩))
      exact .stage h hp hs (mem_saveMsgToMongo m false x.mongo)
  · exact wp_pure ⟨.refl, .already h hp hs⟩

theorem dispatchMessage_spec (h : Ready J db task r m) (hp : persist = false) :
    wp (dispatchMessage task m now) (PhaseDone J db task persist now x)
      (fun _ x' => StoreSteps J db task persist x x') (db.lockPair task.actor task.peer) x := by
  unfold dispatchMessage
  have hpub := ReflTransGen.single (StoreStep.publish (x := x) h hp)
  refine wp_effect_bind .refl ?_
  split_ifs with hm
  · exact wp_fail hpub
  · have hx := published_publish (x := x) (m := m) (by simpa using hm)
    refine wp_query_bind hpub ?_
    split_ifs with hr
    · exact wp_exec_bind hpub (wp_pure ⟨hpub, .complete h hp hr⟩)
    · have hcache := hpub.tail (.cache h hp hx)
      have hqueue := hcache.tail (.enqueue h hp hx)
      refine wp_effect_bind hpub (wp_effect_bind hcache ?_)
      exact wp_exec_bind hqueue (wp_pure ⟨hqueue, .requeue h hp⟩)

theorem mem_deleteHistoryCommands {a b : Account} {ids : List String} {c : Redis → Redis}
    (h : c ∈ Redis.deleteHistoryCommands a b ids) :
    ∃ id ∈ ids, ∃ owner, c ∈ Redis.cleanupCommands owner id := by
  obtain ⟨id, hid, hc⟩ := List.mem_flatMap.1 h
  refine ⟨id, (List.mem_insertionSort _).1 (List.mem_dedup.1 hid), ?_⟩
  exact (List.mem_append.1 hc).elim (fun h => ⟨a, h⟩) fun h => ⟨b, h⟩

theorem cleanupHistory_spec (h : Leased db task r) (ho : task.operation = 2) :
    wp (cleanupHistory task) (PhaseDone J db task persist now x)
      (fun _ x' => StoreSteps J db task persist x x') (db.lockPair task.actor task.peer) x := by
  refine wp_exec_bind .refl (wp_effect_bind .refl (wp_bind ?_))
  -- the documents stay until the commands have run, so each command is for one of their ids
  refine wp_redisCommands
    (I := fun x' => StoreSteps J db task persist x x' ∧ x'.mongo = x.mongo) ?_ (fun _ hi => hi.1)
    ?_ ⟨.refl, rfl⟩
  · rintro c hc x' ⟨hs, hm⟩
    obtain ⟨id, hid, owner, hc⟩ := mem_deleteHistoryCommands hc
    exact ⟨hs.tail (.forget h ho (hm ▸ hid) hc), hm⟩
  · rintro x' ⟨hs, -⟩
    have hdel := hs.tail (StoreStep.delete h ho)
    exact wp_effect_bind hs (wp_exec_bind hdel (wp_pure ⟨hdel, .cleanup h ho⟩))

theorem acknowledgeMessage_spec (h : Leased db task r) (ho : task.operation = 3) :
    wp (acknowledgeMessage task) (PhaseDone J db task persist now x)
      (fun _ x' => StoreSteps J db task persist x x') (db.lockPair task.actor task.peer) x := by
  refine wp_effect_bind .refl (wp_bind ?_)
  refine wp_redisCommands (I := StoreSteps J db task persist x) ?_ (fun _ hi => hi) ?_
    (.single (.mark h ho))
  · exact fun c hc x' hs => hs.tail (.uncache h ho hc)
  · exact fun x' hs => wp_exec_bind hs (wp_pure ⟨hs, .ack h ho⟩)

theorem phaseBody_spec (h : Leased db task r) :
    wp (phaseBody J task persist now (outboxRow r)) (PhaseDone J db task persist now x)
      (fun _ x' => StoreSteps J db task persist x x') (db.lockPair task.actor task.peer) x := by
  unfold phaseBody
  by_cases h₁ : task.operation = 1
  · rw [if_pos h₁]
    refine wp_query_bind .refl ?_
    rw [lockPair_friendAllows]
    cases ha : db.friendAllows task.actor task.peer task.seq with
    | false => exact wp_exec_bind .refl (wp_pure ⟨.refl, .cancel h h₁ ha⟩)
    | true =>
      unfold outboxMessage
      cases hm : J.parseMsg task.payload with
      | none => exact wp_fail .refl
      | some m =>
        have hr : Ready J db task r m := ⟨h, h₁, ha, hm⟩
        cases hp : persist with
        | true => exact persistMessage_spec hr rfl
        | false => exact dispatchMessage_spec hr rfl
  · rw [if_neg h₁]
    split_ifs with h₂ h₃
    · exact cleanupHistory_spec h h₂
    · exact acknowledgeMessage_spec h h₃
    · exact wp_fail .refl

/-- **What a phase does**, wherever it fails. -/
theorem phase_spec :
    wp (phase J task persist now) (PhaseDone J db task persist now x)
      (fun _ x' => StoreSteps J db task persist x x') db x := by
  refine wp_exec_bind .refl (wp_query_bind .refl ?_)
  simp only [lockPair_outbox]
  cases hf : db.outbox.find? fun r => r.id = task.id with
  | none =>
    refine wp_pure ⟨.refl, .skip ?_⟩
    rintro ⟨r, hr⟩
    rw [hr.found] at hf; cases hf
  | some r =>
    change wp (if r.state ≠ 1 ∨ r.leaseToken ≠ task.leaseToken then _ else _) _ _ _ _
    by_cases hl : r.state = 1 ∧ r.leaseToken = task.leaseToken
    · rw [if_neg (by simp [hl.1, hl.2])]
      exact phaseBody_spec ⟨hf, hl.1, hl.2⟩
    · rw [if_pos (by tauto)]
      refine wp_pure ⟨.refl, .skip ?_⟩
      rintro ⟨r', hr⟩
      have := hr.found
      rw [hf] at this; cases this
      exact hl ⟨hr.state, hr.token⟩

/-- **The transaction of a phase.**  It commits after its store writes, the
    answer possibly lost, or it rolls back after some of them. -/
theorem phase_cases (lost : Bool) (fuel : ℕ) {o : Except (Failure Thrown) Bool} {db' : Db}
    {x' : Stores} (h : transaction (phase J task persist now) lost db x fuel = (o, db', x')) :
    StoreSteps J db task persist x x' ∧
      ((∃ b, Commit J db task persist now x' b db' ∧ (o = .ok b ∨ ∃ f, o = .error f)) ∨
       (db' = db ∧ ∃ f, o = .error f)) := by
  have hspec : wp (phase J task persist now) (PhaseDone J db task persist now x)
      (fun _ x' => StoreSteps J db task persist x x') db x := phase_spec
  rcases transaction_cases hspec lost fuel with
    ⟨b, d, x₁, he, hs, hc⟩ | ⟨f, x₁, he, hr⟩ | ⟨-, b, d, x₁, he, hs, hc⟩
  all_goals rw [h] at he; cases he
  · exact ⟨hs, Or.inl ⟨b, hc, Or.inl rfl⟩⟩
  · exact ⟨hr.elim id fun ⟨_, _, h⟩ => h.1, Or.inr ⟨rfl, f, rfl⟩⟩
  · exact ⟨hs, Or.inl ⟨b, hc, Or.inr ⟨_, rfl⟩⟩⟩

/-- The conversations record a message only when it is staged. -/
theorem Commit.recorded {b : Bool} {db' : Db} (h : Commit J db task persist now x b db') :
    db'.recorded = db.recorded ∨ ∃ r m, Ready J db task r m ∧ db'.recorded = db.recorded ++ [m] := by
  cases h with
  | stage h =>
    refine Or.inr ⟨_, _, h, ?_⟩
    obtain ⟨cs, us, he, -⟩ := recordConversationMessage_eq (db.lockPair task.actor task.peer) _ _
    rw [he]; rfl
  | _ => exact Or.inl rfl

/-- A committed phase keeps the conversation entries. -/
theorem Commit.entries {b : Bool} {db' : Db} (h : Commit J db task persist now x b db') :
    KeepsEntries db.conversations db'.conversations := by
  cases h with
  | stage h => exact (recordConversationMessage_entries (db.lockPair task.actor task.peer) _ _).1
  | _ => exact Evolves.refl .refl _

/-- The messages whose dispatch a phase begins have passed its checks. -/
theorem StoreSteps.dispatched {x x' : Stores} (h : StoreSteps J db task persist x x') :
    ∃ l, x'.dispatched = x.dispatched ++ l ∧ ∀ m ∈ l, ∃ r, Ready J db task r m := by
  induction h with
  | refl => exact ⟨[], by simp, by simp⟩
  | tail _ hs ih =>
    obtain ⟨l, he, hl⟩ := ih
    cases hs with
    | @publish r m hr _ =>
      refine ⟨l ++ [m], by simp [Stores.publish, he], fun m' hm => ?_⟩
      rcases List.mem_append.1 hm with hm | hm
      · exact hl m' hm
      · rw [List.mem_singleton.1 hm]; exact ⟨r, hr⟩
    | _ => exact ⟨l, he, hl⟩

end

end ApeServer
