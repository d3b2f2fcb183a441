/-
  What a step does to the conversation tables.

  `im_conversations` and `im_conversation_unread` are written by three kinds of
  transactions: the persist phase records a message, an owner marks as read,
  changes settings or deletes, and the deletion of a friendship drops the
  conversation.

  * `Filed`: what a phase does to these tables (`runPhase_filed`), with the
    summary that it stores;
  * `BookMove`: what a step does (`step_book`).
-/
import ApeServer.System.Friendship

namespace ApeServer

open Table Txn

/-! ## Phases -/

/-- Entries, unread sets and recorded messages are as before. -/
structure Db.SameBook (db db' : Db) : Prop where
  conversations : db'.conversations = db.conversations
  unread : db'.unread = db.unread
  recorded : db'.recorded = db.recorded

theorem Db.SameBook.trans {db₁ db₂ db₃ : Db} (h : db₁.SameBook db₂) (h' : db₂.SameBook db₃) :
    db₁.SameBook db₃ :=
  ⟨h'.conversations.trans h.conversations, h'.unread.trans h.unread, h'.recorded.trans h.recorded⟩

/-- Recording a message reads no other table. -/
theorem Db.SameBook.record {db db' : Db} (h : db.SameBook db') (m : MsgData) (latest : String) :
    (db.recordConversationMessage m latest).SameBook (db'.recordConversationMessage m latest) := by
  unfold Db.recordConversationMessage
  rw [h.conversations, h.unread, h.recorded]
  dsimp only
  split_ifs
  · exact ⟨rfl, rfl, rfl⟩
  · exact ⟨rfl, rfl, rfl⟩

/-- What a transaction does to these tables: nothing, or it records a message
    with its summary. -/
inductive Filed (J : Codec) (db db' : Db) : Prop
  | same (h : db.SameBook db')
  | record (m : MsgData) (latest : String) (hs : conversationSummary J m = some latest)
      (h : (db.recordConversationMessage m latest).SameBook db')

section
variable {J : Codec} {db d : Db} {task : OutboxTask} {persist : Bool} {now : Int} {x : Stores}

/-- The transaction ends with the tables of `d`, or with these and a message. -/
abbrev Files (J : Codec) (db : Db) (p : Phase Bool) (d : Db) (x : Stores) : Prop :=
  wp p (fun _ d' _ => Filed J db d') (fun _ _ => True) d x

theorem completeTask_files (h : Filed J db (d.updateTask task.id fun r => { r with state := 2, leaseToken := "" })) :
    Files J db (completeTask task) d x :=
  wp_exec_bind trivial (wp_pure h)

theorem persistMessage_files (h : db.SameBook d) (stage : ℕ) (m : MsgData) :
    Files J db (persistMessage J task stage m) d x := by
  unfold persistMessage
  split_ifs
  · exact wp_effect_bind trivial (wp_fail trivial)
  · refine wp_effect_bind trivial ?_
    cases hs : conversationSummary J m with
    | none => exact wp_fail trivial
    | some latest =>
      refine wp_exec_bind trivial (wp_exec_bind trivial (wp_pure (.record m latest hs ?_)))
      exact (h.record m latest).trans ⟨rfl, rfl, rfl⟩
  · exact wp_pure (.same h)

theorem dispatchMessage_files (h : db.SameBook d) (m : MsgData) :
    Files J db (dispatchMessage task m now) d x := by
  have hsame : ∀ f, Filed J db (d.updateTask task.id f) := fun f => .same (h.trans ⟨rfl, rfl, rfl⟩)
  unfold dispatchMessage
  refine wp_effect_bind trivial ?_
  split_ifs
  · exact wp_fail trivial
  · refine wp_query_bind trivial ?_
    split_ifs
    · exact completeTask_files (hsame _)
    · refine wp_effect_bind trivial (wp_effect_bind trivial ?_)
      exact wp_exec_bind trivial (wp_pure (hsame _))

/-- The commands of a phase do not touch the tables. -/
theorem redisCommands_files {cs : List (Redis → Redis)} {k : PUnit → Phase Bool}
    (h : ∀ x, Files J db (k ⟨⟩) d x) : Files J db (redisCommands cs >>= k) d x := by
  refine wp_bind (wp_redisCommands (I := fun _ => True) ?_ ?_ (fun x _ => h x) trivial)
  · exact fun _ _ _ _ => trivial
  · exact fun _ _ => trivial

theorem phaseBody_files (h : db.SameBook d) (current : OutboxTask) :
    Files J db (phaseBody J task persist now current) d x := by
  have hsame : ∀ f, Filed J db (d.updateTask task.id f) := fun f => .same (h.trans ⟨rfl, rfl, rfl⟩)
  unfold phaseBody
  split
  · refine wp_query_bind trivial ?_
    split
    · exact wp_exec_bind trivial (wp_pure (hsame _))
    · cases outboxMessage J task with
      | error e => exact wp_fail trivial
      | ok m =>
        cases persist with
        | true => exact persistMessage_files h _ m
        | false => exact dispatchMessage_files h m
  · split
    · refine wp_exec_bind trivial (wp_effect_bind trivial (redisCommands_files fun x => ?_))
      exact wp_effect_bind trivial (completeTask_files (.same (h.trans ⟨rfl, rfl, rfl⟩)))
    · split
      · exact wp_effect_bind trivial (redisCommands_files fun x => completeTask_files (hsame _))
      · exact wp_fail trivial

theorem phase_files : Files J db (phase J task persist now) db x := by
  have h : db.SameBook (db.lockPair task.actor task.peer) := ⟨rfl, rfl, rfl⟩
  refine wp_exec_bind trivial (wp_query_bind trivial ?_)
  split
  · exact wp_pure (.same h)
  · dsimp only
    split
    · exact wp_pure (.same h)
    · exact phaseBody_files h _

/-- **A phase** leaves the tables as they are, or records a message with its
    summary. -/
theorem runPhase_filed {w w' : World} {es : List Event} {i : ℕ} {lost : Bool} {fuel : ℕ}
    (h : w.runPhase J i now lost fuel = some (w', es)) : Filed J w.db w'.db := by
  unfold World.runPhase at h
  split at h
  · next task pc hk =>
    split_ifs at h
    cases h
    have hfiles : Files J w.db (phase J task (pc = .persist) now) w.db w.stores := phase_files
    rcases transaction_cases hfiles lost fuel with
      ⟨b, d, x₁, he, hf⟩ | ⟨f, x₁, he, -⟩ | ⟨-, b, d, x₁, he, hf⟩
    all_goals rw [he]
    · exact hf
    · exact .same ⟨rfl, rfl, rfl⟩
    · exact hf
  · cases h

end

/-! ## The steps -/

/-- What a step does to entries, unread sets and recorded messages. -/
inductive BookMove (J : Codec) (w w' : World) : Prop
  | same (h : w.db.SameBook w'.db) (hd : w'.db.deletions = w.db.deletions)
  | record (k : Worker) (r : OutboxRow) (m : MsgData) (latest : String) (hk : k ∈ w.workers)
      (hr : Ready J w.db k.task r m) (hs : conversationSummary J m = some latest)
      (h : (w.db.recordConversationMessage m latest).SameBook w'.db)
      (hd : w'.db.deletions = w.db.deletions)
  | markRead (owner : Account) (conv : String) (seq : Int)
      (h : w'.db = (w.db.markConversationRead owner conv seq).2)
  | updateSettings (owner : Account) (conv : String) (pinned : Option Bool) (opt : Option Int) (b : Bool)
      (h : w.db.updateConversationSettings owner conv pinned opt = .ok (b, w'.db))
  | deleteConversation (owner : Account) (conv : String) (h : w'.db = w.db.deleteConversation owner conv)
  | unfriend (a b : Account) (seq : ℕ) (hs : w.lastId < seq)
      (h : (w.db.deleteConversationPair (conversationId a b)).SameBook w'.db)
      (hd : ∀ x y, IsPair a b x y → w'.db.deletedSeq? x y = some seq)
      (hd' : ∀ x y, ¬ IsPair a b x y → w'.db.deletedSeq? x y = w.db.deletedSeq? x y)
  | clear (a b : Account) (hn : ¬ w.db.Friend a b)
      (h : (w.db.deleteConversationPair (conversationId a b)).SameBook w'.db)
      (hd : w'.db.deletions = w.db.deletions)

section
variable {J : Codec} {w w' : World} {es : List Event}

theorem queueInsert_insert {i : ℕ} {lost : Bool} (h : w.queueInsert J i lost = some (w', es)) :
    w'.db = w.db ∨ ∃ m payload, w'.db = w.db.insertMessage m payload := by
  unfold World.queueInsert at h
  split at h
  · split at h
    · cases h
      exact Or.inl rfl
    · next hi =>
      obtain ⟨payload, -, -, rfl, rfl⟩ := queueInsert_ok hi
      split_ifs at h
      · cases h
        exact Or.inr ⟨_, payload, rfl⟩
      · cases h
        exact Or.inr ⟨_, payload, rfl⟩
  · cases h

theorem claim_update {now : Int} {locked : List ℕ} {token : String}
    (h : w.claim now locked token = some (w', es)) :
    w'.db = w.db ∨ ∃ r : OutboxRow, w'.db = w.db.updateTask r.id (Db.claimRow now token) := by
  unfold World.claim at h
  split_ifs at h
  split at h
  · cases h
    exact Or.inl rfl
  · next hc =>
    cases h
    obtain ⟨r, -, -, -, rfl⟩ := claimOutboxTask_some hc
    exact Or.inr ⟨r, rfl⟩

/-- The actions of `step_same` record no message. -/
theorem step_sameBook {a : Action} (h : step J w a = some (w', es)) (ha : ¬ a.Chats) :
    w.db.SameBook w'.db := by
  obtain ⟨-, he⟩ := step_same h ha
  refine ⟨he.conversations, he.unread, ?_⟩
  cases a with
  | friendCommit | runPhase | markRead | updateSettings | deleteConversation => exact absurd trivial ha
  | queueInsert i lost =>
    obtain hdb | ⟨m, payload, hdb⟩ := queueInsert_insert h
    all_goals rw [hdb]
    rfl
  | claim now locked token =>
    obtain hdb | ⟨r, hdb⟩ := claim_update h
    all_goals rw [hdb]
    rfl
  | _ =>
    simp only [step, World.send, World.queueLookup, World.abortSend, World.poll, World.reply,
      World.retry, World.notify, World.crash, World.consume, World.checkDispatch, World.push,
      World.confirm, World.dropConsumer, World.scan, World.deliver, World.dropDelivery, World.history,
      World.ackStart, World.ackCommit, World.dropAck, World.friendStart, World.dropFriend] at h
    repeat' split at h
    all_goals first | (cases h; rfl) | cases h

theorem runPhase_book {i : ℕ} {now : Int} {lost : Bool} {fuel : ℕ}
    (h : w.runPhase J i now lost fuel = some (w', es)) : BookMove J w w' := by
  have hfiled := runPhase_filed h
  rcases runPhase_commit h with hdb | ⟨k, hk, b, hc⟩
  · rw [hdb] at hfiled
    exact .same (by rw [hdb]; exact ⟨rfl, rfl, rfl⟩) (by rw [hdb])
  · have hd := hc.social.deletions
    rcases hfiled with hsame | ⟨m, latest, hs, hrec⟩
    · exact .same hsame hd
    · -- the message of `Filed` is the one the commit has checked
      have hm : w'.db.recorded = w.db.recorded ++ [m] := by
        obtain ⟨cs, us, he, -⟩ := recordConversationMessage_eq w.db m latest
        rw [hrec.recorded, he]
      rcases hc.recorded with he | ⟨r, m', hr, he⟩
      · rw [he] at hm
        simp at hm
      · rw [he] at hm
        obtain rfl : m' = m := by simpa using hm
        exact .record k r m' latest hk hr hs hrec hd

theorem sameBook_clear {db db₁ : Db} {a b : Account} {d : ℕ} (h : db.SameBook db₁)
    (hd : db₁.deletedSeq? a b = some d) :
    (db.deleteConversationPair (conversationId a b)).SameBook (db₁.clearConversation a b) := by
  unfold Db.clearConversation
  rw [hd]
  unfold Db.deleteConversationPair
  rw [← h.conversations, ← h.unread]
  exact ⟨rfl, rfl, h.recorded⟩

/-- A friend command drops the conversation together with the friendship, or
    when the two are no friends. -/
theorem friendCommit_book {j : ℕ} {now : Int} {seq : ℕ}
    (h : w.friendCommit j now seq = some (w', es)) : BookMove J w w' := by
  have hsame : w'.db = w.db → BookMove J w w' := fun hdb => by
    refine .same ?_ ?_
    · rw [hdb]
      exact ⟨rfl, rfl, rfl⟩
    · rw [hdb]
  unfold World.friendCommit at h
  split at h
  · cases h
  · next cmd target hc =>
    split_ifs at h
    split at h
    · cases h
      exact hsame rfl
    · next reply drawn db hm =>
      split_ifs at h with hd
      cases h
      rcases mutate_cases hm with ⟨rfl, apps, n, rfl⟩ | ⟨rfl, apps, rfl⟩ | ⟨rfl, -, rfl⟩ | ⟨rfl, hn, rfl⟩
      · exact .same ⟨rfl, rfl, rfl⟩ rfl
      · exact .same ⟨rfl, rfl, rfl⟩ rfl
      · simp only [Option.all_some, Bool.and_eq_true, decide_eq_true_eq] at hd
        have hframe := (clearConversation_frame ((w.db.lockPair cmd.actor target).closeFriendship cmd.actor
          target now seq) cmd.actor target).2.1
        refine .unfriend cmd.actor target seq hd.1 ?_ (fun x y hp => ?_) fun x y hp => ?_
        · exact sameBook_clear ⟨rfl, rfl, rfl⟩ (deletedSeq_close (Or.inl ⟨rfl, rfl⟩))
        · unfold Db.deletedSeq?
          rw [hframe]
          exact deletedSeq_close hp
        · unfold Db.deletedSeq?
          rw [hframe]
          exact deletedSeq_close_other hp
      · rcases clearConversation_cases (w.db.lockPair cmd.actor target) cmd.actor target with he | ⟨d, hdel, -⟩
        · refine .same ?_ ?_
          all_goals dsimp only; rw [he]
          · exact ⟨rfl, rfl, rfl⟩
          · rfl
        · refine .clear cmd.actor target (fun hf => ?_) (sameBook_clear ⟨rfl, rfl, rfl⟩ hdel) ?_
          · obtain ⟨r, hr, ho, hfr⟩ := hf
            have hp := List.any_eq_false.1 hn r hr
            exact hp (pairRow_iff.2 (Or.inl ⟨ho, hfr⟩))
          · exact (clearConversation_frame _ _ _).2.1

/-- **What a step does to the conversation tables.** -/
theorem step_book {a : Action} (h : step J w a = some (w', es)) : BookMove J w w' := by
  cases a with
  | runPhase => exact runPhase_book h
  | markRead owner conv seq =>
    cases h
    exact .markRead owner conv seq rfl
  | updateSettings owner conv pinned opt =>
    dsimp only [step] at h
    split at h
    · cases h
      exact .same ⟨rfl, rfl, rfl⟩ rfl
    · next b db hu =>
      cases h
      exact .updateSettings owner conv pinned opt b hu
  | deleteConversation owner conv =>
    cases h
    exact .deleteConversation owner conv rfl
  | friendCommit j now seq => exact friendCommit_book h
  | _ => exact .same (step_sameBook h id) (step_same h id).1.deletions

end

end ApeServer
