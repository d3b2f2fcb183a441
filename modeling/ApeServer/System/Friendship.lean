/-
  Friendship, applications and deletions under the friend commands.

  * `SameSocial`: what every step but the transaction of a friend command
    leaves alone (`step_social`);
  * `FriendEffect`: what `mutate` does to these tables;
  * `Social` is their invariant;
  * `friendship`: friendship is symmetric, and after a deletion only a new
    application restores it.
-/
import ApeServer.System.Watermark

namespace ApeServer

open Table

/-! ## The steps that are no friend commands -/

/-- Friends, applications and deletions are as before. -/
structure Db.SameSocial (db db' : Db) : Prop where
  friends : db'.friends = db.friends
  applications : db'.applications = db.applications
  next : db'.nextApplicationId = db.nextApplicationId
  deletions : db'.deletions = db.deletions
  counter : db'.nextFriendId = db.nextFriendId

/-- Conversation entries and unread sets are as before. -/
structure Db.SameEntries (db db' : Db) : Prop where
  conversations : db'.conversations = db.conversations
  unread : db'.unread = db.unread

theorem Db.Edits.social {db db' : Db} (h : db.Edits db') : db.SameSocial db' := by
  obtain ⟨cs, us, rfl, -⟩ := h
  exact ⟨rfl, rfl, rfl, rfl, rfl⟩

section
variable {J : Codec} {w w' : World} {es : List Event}

theorem Commit.social {db db' : Db} {task : OutboxTask} {persist : Bool} {now : Int} {x : Stores}
    {b : Bool} (h : Commit J db task persist now x b db') : db.SameSocial db' := by
  cases h with
  | stage h =>
    obtain ⟨cs, us, he, -⟩ := recordConversationMessage_eq (db.lockPair task.actor task.peer) _ _
    rw [he]
    exact ⟨rfl, rfl, rfl, rfl, rfl⟩
  | _ => exact ⟨rfl, rfl, rfl, rfl, rfl⟩

theorem queueInsert_same {i : ℕ} {lost : Bool} (h : w.queueInsert J i lost = some (w', es)) :
    w.db.SameSocial w'.db ∧ w.db.SameEntries w'.db := by
  unfold World.queueInsert at h
  split at h
  · split at h
    · cases h
      exact ⟨⟨rfl, rfl, rfl, rfl, rfl⟩, rfl, rfl⟩
    · next hi =>
      obtain ⟨payload, -, -, rfl, rfl⟩ := queueInsert_ok hi
      split_ifs at h <;> cases h
      · exact ⟨⟨rfl, rfl, rfl, rfl, rfl⟩, rfl, rfl⟩
      · exact ⟨⟨rfl, rfl, rfl, rfl, rfl⟩, rfl, rfl⟩
  · cases h

theorem claim_same {now : Int} {locked : List ℕ} {token : String}
    (h : w.claim now locked token = some (w', es)) :
    w.db.SameSocial w'.db ∧ w.db.SameEntries w'.db := by
  unfold World.claim at h
  split_ifs at h
  split at h
  · cases h
    exact ⟨⟨rfl, rfl, rfl, rfl, rfl⟩, rfl, rfl⟩
  · next hc =>
    cases h
    obtain ⟨r, -, -, -, rfl⟩ := claimOutboxTask_some hc
    exact ⟨⟨rfl, rfl, rfl, rfl, rfl⟩, rfl, rfl⟩

theorem runPhase_commit {i : ℕ} {now : Int} {lost : Bool} {fuel : ℕ}
    (h : w.runPhase J i now lost fuel = some (w', es)) :
    w'.db = w.db ∨ ∃ k ∈ w.workers, ∃ b, Commit J w.db k.task (k.pc = .persist) now w'.stores b w'.db := by
  obtain ⟨task, pc, o, db', x', hk, -, rfl, -, -, ⟨b, hc, -⟩ | ⟨rfl, -⟩⟩ := runPhase_cases h
  · exact Or.inr ⟨_, List.mem_of_getElem? hk, b, hc⟩
  · exact Or.inl rfl

/-- The actions that may change friends or conversations. -/
def Action.Chats : Action → Prop
  | friendCommit _ _ _ | runPhase _ _ _ _ | markRead _ _ _ | updateSettings _ _ _ _
  | deleteConversation _ _ => True
  | _ => False

/-- The other actions lock a pair, or change other tables, or none. -/
theorem step_same {a : Action} (h : step J w a = some (w', es)) (ha : ¬ a.Chats) :
    w.db.SameSocial w'.db ∧ w.db.SameEntries w'.db := by
  cases a with
  | queueInsert => exact queueInsert_same h
  | claim => exact claim_same h
  | friendCommit | runPhase | markRead | updateSettings | deleteConversation => exact absurd trivial ha
  | _ =>
    simp only [step, World.send, World.queueLookup, World.abortSend, World.poll, World.reply,
      World.retry, World.notify, World.crash, World.consume, World.checkDispatch, World.push,
      World.confirm, World.dropConsumer, World.scan, World.deliver, World.dropDelivery, World.history,
      World.ackStart, World.ackCommit, World.dropAck, World.friendStart, World.dropFriend] at h
    repeat' split at h
    all_goals first | (cases h; exact ⟨⟨rfl, rfl, rfl, rfl, rfl⟩, rfl, rfl⟩) | cases h

/-- **Only the transactions of friend commands touch these tables.** -/
theorem step_social {a : Action} (h : step J w a = some (w', es))
    (ha : ∀ j now seq, a ≠ .friendCommit j now seq) : w.db.SameSocial w'.db := by
  cases a with
  | runPhase i now lost fuel =>
    rcases runPhase_commit h with hdb | ⟨k, -, b, hc⟩
    · rw [hdb]
      exact ⟨rfl, rfl, rfl, rfl, rfl⟩
    · exact hc.social
  | friendCommit j now seq => exact absurd rfl (ha j now seq)
  | markRead owner conv seq =>
    cases h
    exact (markConversationRead_edits w.db owner conv seq).social
  | updateSettings owner conv pinned opt =>
    dsimp only [step] at h
    split at h
    · cases h
      exact ⟨rfl, rfl, rfl, rfl, rfl⟩
    · next hu =>
      cases h
      exact (updateConversationSettings_edits hu).social
  | deleteConversation owner conv =>
    cases h
    exact (deleteConversation_edits w.db owner conv).social
  | _ => exact (step_same h id).1

/-- A friend command either changes nothing, or commits what `mutate` gives. -/
theorem friendCommit_mutate {j : ℕ} {now : Int} {seq : ℕ}
    (h : w.friendCommit j now seq = some (w', es)) :
    ∃ c, w.friendCalls[j]? = some c ∧ (w'.db = w.db ∨
      ∃ reply drawn, w.db.mutate c.command c.target now seq = .ok (reply, drawn, w'.db)) := by
  unfold World.friendCommit at h
  split at h
  · cases h
  · next cmd target hc =>
    refine ⟨⟨cmd, target⟩, hc, ?_⟩
    split_ifs at h
    split at h
    · cases h
      exact Or.inl rfl
    · next reply drawn db hm =>
      split_ifs at h
      cases h
      exact Or.inr ⟨reply, drawn, hm⟩

end

/-! ## What a friend command does -/

/-- The effect of `mutate` on friends, applications and deletions, with the
    watermark that it draws. -/
inductive FriendEffect (db db' : Db) (cmd : FriendCommand) (target : Account) (now : Int) (seq : ℕ) :
    Option ℕ → Prop
  | none (h : db.SameSocial db') : FriendEffect db db' cmd target now seq none
  | applied (hg : ¬ db.Friend cmd.actor target)
      (hn : ∀ a ∈ db.applications, a.fromAccount = cmd.actor → a.toAccount = target → a.status ≠ 0)
      (hf : db'.friends = db.friends) (hd : db'.deletions = db.deletions)
      (ha : db'.applications = db.applications ++
        [⟨db.nextApplicationId, cmd.actor, target, cmd.message, 0, now, 0⟩])
      (hi : db'.nextApplicationId = db.nextApplicationId + 1)
      (hc : db'.nextFriendId = db.nextFriendId) :
      FriendEffect db db' cmd target now seq none
  | handled (a : ApplicationRow) (ho : cmd.operation = .handleApplication) (hm : a ∈ db.applications)
      (hid : a.id = cmd.applicationID) (hs : a.status = 0)
      (hf : db'.friends = if cmd.accept then
        Db.insertFriend (db.nextFriendId + 1) target cmd.actor now
          (Db.insertFriend db.nextFriendId cmd.actor target now db.friends)
        else db.friends)
      (hd : db'.deletions = db.deletions)
      (ha : db'.applications = updateWhere (fun a => a.id = cmd.applicationID && a.status = 0)
        (fun a => { a with status := if cmd.accept then 1 else 2, handledTime := now }) db.applications)
      (hi : db'.nextApplicationId = db.nextApplicationId)
      (hc : db'.nextFriendId = if cmd.accept then db.nextFriendId + 2 else db.nextFriendId) :
      FriendEffect db db' cmd target now seq none
  | removed (h : (db.closeFriendship cmd.actor target now seq).SameSocial db') :
      FriendEffect db db' cmd target now seq (some seq)

theorem clearConversation_social (db : Db) (a b : Account) : db.SameSocial (db.clearConversation a b) := by
  rcases clearConversation_cases db a b with h | ⟨cutoff, -, h⟩ <;> rw [h]
  · exact ⟨rfl, rfl, rfl, rfl, rfl⟩
  · exact ⟨rfl, rfl, rfl, rfl, rfl⟩

theorem applyFriend_effect {db db' : Db} {cmd : FriendCommand} {target : Account} {now : Int} {seq id : ℕ}
    (h : db.applyFriend cmd.actor target cmd.message now = .ok (id, db')) :
    FriendEffect db db' cmd target now seq none := by
  unfold Db.applyFriend at h
  split_ifs at h with hg
  split at h
  · cases h
    exact .none ⟨rfl, rfl, rfl, rfl, rfl⟩
  · next hn =>
    cases h
    refine .applied ?_ (fun a ha h₁ h₂ h₃ => ?_) rfl rfl rfl rfl rfl
    · rintro ⟨r, hr, ho, hf⟩
      exact hg (List.any_eq_true.2 ⟨r, hr, by simp [ho, hf]⟩)
    have := List.find?_eq_none.1 hn a ha
    simp [h₁, h₂, h₃] at this

theorem handleApplication_effect {db db' : Db} {cmd : FriendCommand} {target : Account} {now : Int} {seq : ℕ}
    (ho : cmd.operation = .handleApplication)
    (h : db.handleApplication cmd.actor target cmd.applicationID cmd.accept now = .ok db') :
    FriendEffect db db' cmd target now seq none := by
  unfold Db.handleApplication at h
  split at h
  · cases h
  · next a ha =>
    have hmem := List.mem_of_find?_eq_some ha
    have hid : a.id = cmd.applicationID := by simpa using List.find?_some ha
    dsimp only at h
    by_cases hs : a.status = 0
    · rw [if_neg (by simp [hs]), if_pos hs] at h
      cases h
      by_cases hacc : cmd.accept = true
      · rw [if_pos hacc]
        exact .handled a ho hmem hid hs (if_pos hacc).symm rfl (by rw [if_pos hacc]; rfl) rfl (if_pos hacc).symm
      · rw [if_neg hacc]
        exact .handled a ho hmem hid hs (if_neg hacc).symm rfl (by rw [if_neg hacc]) rfl (if_neg hacc).symm
    · rw [if_neg hs] at h
      split_ifs at h
      · cases h
        exact .none ⟨rfl, rfl, rfl, rfl, rfl⟩
      · cases h
        exact .none ⟨rfl, rfl, rfl, rfl, rfl⟩

/-- Locking the pair first makes no difference. -/
theorem FriendEffect.of_lock {db db' : Db} {cmd : FriendCommand} {target a b : Account} {now : Int}
    {seq : ℕ} {drawn : Option ℕ} (h : FriendEffect (db.lockPair a b) db' cmd target now seq drawn) :
    FriendEffect db db' cmd target now seq drawn := by
  cases h with
  | none h => exact .none ⟨h.friends, h.applications, h.next, h.deletions, h.counter⟩
  | applied hg hn hf hd ha hi hc => exact .applied hg hn hf hd ha hi hc
  | handled a ho hm hid hs hf hd ha hi hc => exact .handled a ho hm hid hs hf hd ha hi hc
  | removed h => exact .removed ⟨h.friends, h.applications, h.next, h.deletions, h.counter⟩

/-- **The effect of a friend command.** -/
theorem mutate_effect {db db' : Db} {cmd : FriendCommand} {target : Account} {now : Int} {seq : ℕ}
    {reply : FriendReply} {drawn : Option ℕ}
    (h : db.mutate cmd target now seq = .ok (reply, drawn, db')) :
    FriendEffect db db' cmd target now seq drawn := by
  apply FriendEffect.of_lock (a := cmd.actor) (b := target)
  rcases mutate_ok h with ⟨rfl, id, h⟩ | ⟨rfl, ho, h⟩ | h
  · exact applyFriend_effect h
  · exact handleApplication_effect ho h
  · unfold Db.deleteFriend at h
    split_ifs at h
    · cases h
      exact .removed (clearConversation_social _ _ _)
    · cases h
      exact .none (clearConversation_social _ _ _)

/-! ## The invariant -/

/-- An application keeps its id and its ends, and once handled its status. -/
structure ApplicationRow.Keeps (a a' : ApplicationRow) : Prop where
  id : a'.id = a.id
  sender : a'.fromAccount = a.fromAccount
  recipient : a'.toAccount = a.toAccount
  handled : a.status ≠ 0 → a'.status = a.status

theorem ApplicationRow.Keeps.refl (a : ApplicationRow) : a.Keeps a := ⟨rfl, rfl, rfl, fun _ => rfl⟩

theorem ApplicationRow.Keeps.trans {a b c : ApplicationRow} (h : a.Keeps b) (h' : b.Keeps c) : a.Keeps c :=
  ⟨h'.id.trans h.id, h'.sender.trans h.sender, h'.recipient.trans h.recipient, fun hs =>
    (h'.handled (by rw [h.handled hs]; exact hs)).trans (h.handled hs)⟩

/-- The applications after an update: those that match get a status, and had
    none. -/
theorem applications_update {p : ApplicationRow → Bool} {status : ℕ} {now : Int} {t : List ApplicationRow}
    (hp : ∀ a, p a = true → a.status = 0) :
    Evolves ApplicationRow.Keeps t
      (updateWhere p (fun a => { a with status := status, handledTime := now }) t) := by
  refine Evolves.updateWhere .refl fun a _ ha => ⟨rfl, rfl, rfl, fun hs => ?_⟩
  exact absurd (hp a ha) hs

/-- Ids are unique and below the counter, one application of an ordered pair is
    pending, and an ordered pair has one deletion. -/
structure Db.Social (db : Db) : Prop where
  ids : (db.applications.map (·.id)).Nodup
  next : ∀ a ∈ db.applications, a.id < db.nextApplicationId
  pending : ∀ a ∈ db.applications, ∀ b ∈ db.applications, a.status = 0 → b.status = 0 →
    a.fromAccount = b.fromAccount → a.toAccount = b.toAccount → a = b
  keys : (db.deletions.map fun r => (r.owner, r.peer)).Nodup

theorem Db.Social.of_same {db db' : Db} (h : db.Social) (hs : db.SameSocial db') : db'.Social := by
  obtain ⟨-, ha, hn, hd, -⟩ := hs
  refine ⟨?_, ?_, ?_, ?_⟩
  · rw [ha]
    exact h.ids
  · rw [ha, hn]
    exact h.next
  · rw [ha]
    exact h.pending
  · rw [hd]
    exact h.keys

/-- An update that only takes the pending status away. -/
theorem Db.Social.update {db db' : Db} (h : db.Social) {p : ApplicationRow → Bool} {status : ℕ} {now : Int}
    (hs : status ≠ 0)
    (ha : db'.applications = updateWhere p (fun a => { a with status := status, handledTime := now })
      db.applications)
    (hi : db'.nextApplicationId = db.nextApplicationId)
    (hk : (db'.deletions.map fun r => (r.owner, r.peer)).Nodup) : db'.Social := by
  -- what is pending afterwards was so before, unchanged
  have hold : ∀ a ∈ db'.applications, a.status = 0 → a ∈ db.applications := by
    intro a hmem h₀
    rw [ha] at hmem
    obtain ⟨a₀, h₁, rfl⟩ := mem_updateWhere.1 hmem
    split_ifs at h₀ ⊢ with hp
    · exact absurd h₀ hs
    · exact h₁
  refine ⟨?_, ?_, ?_, hk⟩
  · rw [ha, map_updateWhere (by intro a; rfl)]
    exact h.ids
  · intro a hmem
    rw [ha] at hmem
    obtain ⟨a₀, h₁, rfl⟩ := mem_updateWhere.1 hmem
    rw [hi]
    split_ifs
    · exact h.next a₀ h₁
    · exact h.next a₀ h₁
  · intro a hmem b hmem' h₀ h₀'
    exact h.pending a (hold a hmem h₀) b (hold b hmem' h₀') h₀ h₀'

theorem nodup_upsertDeletion {a b : Account} {now : Int} {seq : ℕ} {t : List DeletionRow}
    (h : (t.map fun r => (r.owner, r.peer)).Nodup) :
    ((Db.upsertDeletion a b now seq t).map fun r => (r.owner, r.peer)).Nodup := by
  unfold Db.upsertDeletion
  refine nodup_upsert h (fun r => ?_) (fun r _ he => ?_)
  · rfl
  · simpa using he

/-- **A friend command keeps the invariant.** -/
theorem FriendEffect.social {db db' : Db} {cmd : FriendCommand} {target : Account} {now : Int} {seq : ℕ}
    {drawn : Option ℕ} (h : FriendEffect db db' cmd target now seq drawn) (hS : db.Social) : db'.Social := by
  cases h with
  | none h => exact hS.of_same h
  | applied _ hn hf hd ha hi =>
    refine ⟨?_, ?_, ?_, by rw [hd]; exact hS.keys⟩
    · rw [ha]
      exact nodup_append_one hS.ids fun a hmem => (hS.next a hmem).ne
    · intro a hmem
      rw [ha] at hmem
      rw [hi]
      rcases List.mem_append.1 hmem with hmem | hmem
      · exact (hS.next a hmem).trans (Nat.lt_succ_self _)
      · rw [List.mem_singleton.1 hmem]
        exact Nat.lt_succ_self _
    · intro a hmem b hmem' h₀ h₀' hfrom hto
      rw [ha] at hmem hmem'
      rcases List.mem_append.1 hmem with hmem | hmem <;> rcases List.mem_append.1 hmem' with hmem' | hmem'
      · exact hS.pending a hmem b hmem' h₀ h₀' hfrom hto
      · rw [List.mem_singleton.1 hmem'] at hfrom hto
        exact absurd h₀ (hn a hmem hfrom hto)
      · rw [List.mem_singleton.1 hmem] at hfrom hto
        exact absurd h₀' (hn b hmem' hfrom.symm hto.symm)
      · rw [List.mem_singleton.1 hmem, List.mem_singleton.1 hmem']
  | handled a _ _ _ _ hf hd ha hi =>
    refine hS.update ?_ ha hi (by rw [hd]; exact hS.keys)
    split_ifs <;> decide
  | removed h =>
    refine hS.update (by decide : 2 ≠ 0) h.applications h.next ?_
    rw [h.deletions]
    exact nodup_upsertDeletion (nodup_upsertDeletion hS.keys)

/-- **Applications are never removed or reopened.** -/
theorem FriendEffect.evolves {db db' : Db} {cmd : FriendCommand} {target : Account} {now : Int} {seq : ℕ}
    {drawn : Option ℕ} (h : FriendEffect db db' cmd target now seq drawn) :
    Evolves ApplicationRow.Keeps db.applications db'.applications := by
  cases h with
  | none h =>
    rw [h.applications]
    exact Evolves.refl .refl _
  | applied _ _ _ _ ha _ =>
    rw [ha]
    exact Evolves.of_subset .refl (List.subset_append_left _ _)
  | handled a _ _ _ _ _ _ ha _ =>
    rw [ha]
    refine applications_update fun a hp => ?_
    simp only [Bool.and_eq_true, decide_eq_true_eq] at hp
    exact hp.2
  | removed h =>
    rw [h.applications]
    refine applications_update fun a hp => ?_
    simp only [Bool.and_eq_true, decide_eq_true_eq] at hp
    exact hp.1

/-- A new friendship comes from a pending application that is accepted. -/
theorem FriendEffect.new_friend {db db' : Db} {cmd : FriendCommand} {target x y : Account} {now : Int}
    {seq : ℕ} {drawn : Option ℕ} (h : FriendEffect db db' cmd target now seq drawn)
    (hf : db'.Friend x y) :
    db.Friend x y ∨ cmd.operation = .handleApplication ∧ cmd.accept = true ∧
      IsPair cmd.actor target x y ∧
      ∃ a ∈ db.applications, a.id = cmd.applicationID ∧ a.status = 0 := by
  cases h with
  | none h => exact Or.inl ((friend_congr h.friends).1 hf)
  | applied _ _ hf' => exact Or.inl ((friend_congr hf').1 hf)
  | handled a ho hm hid hs hf' =>
    by_cases hacc : cmd.accept = true
    · rw [if_pos hacc] at hf'
      unfold Db.Friend at hf
      rw [hf', mem_insertFriend, mem_insertFriend, or_assoc] at hf
      refine hf.imp_right fun hp => ⟨ho, hacc, ?_, a, hm, hid, hs⟩
      exact hp
    · rw [if_neg hacc] at hf'
      exact Or.inl ((friend_congr hf').1 hf)
  | removed h => exact Or.inl (friend_close.1 ((friend_congr h.friends).1 hf)).1

/-- The sender and the recipient that `HandleApplication` reads are those of
    the application. -/
theorem friendStart_application {db : Db} {cmd : FriendCommand} {target : Account}
    (h : db.friendStart cmd = .ok target) (ho : cmd.operation = .handleApplication) :
    ∃ a ∈ db.applications, a.id = cmd.applicationID ∧ a.fromAccount = target ∧ a.toAccount = cmd.actor := by
  have huser : ∀ {account : Account} {u : UserRow}, db.user account = .ok u → u.account = account := by
    intro account u hu
    unfold Db.user at hu
    split at hu
    · next hf =>
      cases hu
      simpa using List.find?_some hf
    · cases hu
  unfold Db.friendStart at h
  split_ifs at h
  obtain ⟨_, -, h⟩ := ok_of_bind h
  obtain ⟨t, ht, h⟩ := ok_of_bind h
  split_ifs at h
  obtain ⟨_, -, h⟩ := ok_of_bind h
  cases h
  simp only [Db.friendTarget, ho] at ht
  obtain ⟨view, hv, ht⟩ := ok_of_bind ht
  unfold Db.application at hv
  split at hv
  · cases hv
  · next a ha =>
    obtain ⟨sender, hs, hv⟩ := ok_of_bind hv
    obtain ⟨recipient, hr, hv⟩ := ok_of_bind hv
    cases hv
    split_ifs at ht with hne
    · cases ht
    · cases ht
      refine ⟨a, List.mem_of_find?_eq_some ha, by simpa using List.find?_some ha, (huser hs).symm, ?_⟩
      rw [← huser hr]
      exact not_not.1 hne

section
variable {J : Codec} {w w' : World} {es : List Event} {a : Action}

/-- What a step does to friends, applications and deletions. -/
theorem step_friend (h : step J w a = some (w', es)) :
    w.db.SameSocial w'.db ∨ ∃ j now seq c drawn, a = .friendCommit j now seq ∧
      w.friendCalls[j]? = some c ∧ FriendEffect w.db w'.db c.command c.target now seq drawn := by
  by_cases ha : ∀ j now seq, a ≠ .friendCommit j now seq
  · exact Or.inl (step_social h ha)
  · push Not at ha
    obtain ⟨j, now, seq, rfl⟩ := ha
    obtain ⟨c, hc, hdb | ⟨reply, drawn, hm⟩⟩ := friendCommit_mutate h
    · rw [hdb]
      exact Or.inl ⟨rfl, rfl, rfl, rfl, rfl⟩
    · exact Or.inr ⟨j, now, seq, c, drawn, rfl, hc, mutate_effect hm⟩

theorem step_applications (h : step J w a = some (w', es)) :
    Evolves ApplicationRow.Keeps w.db.applications w'.db.applications := by
  rcases step_friend h with hs | ⟨j, now, seq, c, drawn, -, -, he⟩
  · rw [hs.applications]
    exact Evolves.refl .refl _
  · exact he.evolves

/-- The tables, and the calls that handle an application: its ends are those
    of the call. -/
structure SocialOk (w : World) : Prop where
  tables : w.db.Social
  calls : ∀ c ∈ w.friendCalls, c.command.operation = .handleApplication →
    ∃ a ∈ w.db.applications, a.id = c.command.applicationID ∧ a.fromAccount = c.target ∧
      a.toAccount = c.command.actor

theorem socialOk_step (hS : SocialOk w) (h : step J w a = some (w', es)) : SocialOk w' := by
  constructor
  · rcases step_friend h with hs | ⟨j, now, seq, c, drawn, -, -, he⟩
    · exact hS.tables.of_same hs
    · exact he.social hS.tables
  · intro c hc ho
    have hold : ∃ a ∈ w.db.applications, a.id = c.command.applicationID ∧ a.fromAccount = c.target ∧
        a.toAccount = c.command.actor := by
      rcases (step_move h).calls.friend c hc with hc | hc
      · exact hS.calls c hc ho
      · exact friendStart_application hc ho
    obtain ⟨a, ha, hid, hfrom, hto⟩ := hold
    obtain ⟨a', ha', hk⟩ := step_applications h a ha
    exact ⟨a', ha', hk.id.trans hid, hk.sender.trans hfrom, hk.recipient.trans hto⟩

theorem socialOk_trace (T : SysTrace J) {i : ℕ} (hi : i ≤ T.len) : SocialOk (T.state i) := by
  refine T.invariant ?_ (fun _ _ _ _ hS h => socialOk_step hS h) hi
  constructor
  · refine ⟨?_, ?_, ?_, ?_⟩ <;> simp [start]
  · simp [start]

theorem applications_trace (T : SysTrace J) {i j : ℕ} (hij : i ≤ j) (hj : j ≤ T.len) :
    Evolves ApplicationRow.Keeps (T.state i).db.applications (T.state j).db.applications :=
  T.related (P := fun _ => True)
    (R := fun w w' => Evolves ApplicationRow.Keeps w.db.applications w'.db.applications)
    (fun _ _ => trivial) (fun _ => Evolves.refl .refl _)
    (fun _ _ _ h h' => h.trans (fun _ _ _ => .trans) h') (fun _ _ _ _ _ h => step_applications h) hij hj

/-- A deletion closes every application of the pair. -/
theorem deleted_closes {x y : Account} {d : ℕ} (h : Event.Justified J w w' (.deleted x y d)) :
    (∀ a ∈ w'.db.applications, IsPair x y a.fromAccount a.toAccount → a.status ≠ 0) ∧
      ∀ a b, IsPair x y a b → ¬ w'.db.Friend a b := by
  obtain ⟨c, -, now, rfl, rfl, -, hdb⟩ := h
  have hs := clearConversation_social
    ((w.db.lockPair c.command.actor c.target).closeFriendship c.command.actor c.target now d)
    c.command.actor c.target
  rw [← hdb] at hs
  constructor
  · intro a ha hp h₀
    rw [hs.applications] at ha
    obtain ⟨a₀, -, rfl⟩ := mem_updateWhere.1 ha
    by_cases hm : (a₀.status = 0 && ((a₀.fromAccount = c.command.actor && a₀.toAccount = c.target) ||
        (a₀.fromAccount = c.target && a₀.toAccount = c.command.actor))) = true
    · rw [if_pos hm] at h₀
      cases h₀
    · rw [if_neg hm] at h₀ hp
      refine hm ?_
      simpa [h₀, IsPair] using hp
  · intro a b hp hf
    exact (friend_close.1 ((friend_congr hs.friends).1 hf)).2 hp

theorem isPair_trans {x y u v p q : Account} (h : IsPair x y u v) (h' : IsPair p q u v) :
    IsPair x y q p := by
  rcases h with ⟨rfl, rfl⟩ | ⟨rfl, rfl⟩ <;> rcases h' with ⟨rfl, rfl⟩ | ⟨rfl, rfl⟩
  · exact Or.inr ⟨rfl, rfl⟩
  · exact Or.inl ⟨rfl, rfl⟩
  · exact Or.inl ⟨rfl, rfl⟩
  · exact Or.inr ⟨rfl, rfl⟩

/-- The watermark of a pair is that of its row. -/
theorem deletedSeq_of_mem {db : Db} (h : db.Social) {r : DeletionRow} (hr : r ∈ db.deletions) :
    db.deletedSeq? r.owner r.peer = some r.deletedSeq := by
  unfold Db.deletedSeq?
  cases hf : db.deletions.find? fun r' => r'.owner = r.owner && r'.peer = r.peer with
  | none =>
    have := List.find?_eq_none.1 hf r hr
    simp at this
  | some r' =>
    have hp := List.find?_some hf
    simp only [Bool.and_eq_true, decide_eq_true_eq] at hp
    rw [eq_of_key h.keys (List.mem_of_find?_eq_some hf) hr (Prod.ext hp.1 hp.2)]
    rfl

/-- A handled application stays so, whatever happens. -/
theorem handled_stays {db db' : Db} (hS : db'.Social)
    (he : Evolves ApplicationRow.Keeps db.applications db'.applications) {p q : ApplicationRow}
    (hp : p ∈ db.applications) (hq : q ∈ db'.applications) (hid : p.id = q.id) : p.Keeps q := by
  obtain ⟨p', hp', hk⟩ := he p hp
  rwa [eq_of_key hS.ids hp' hq (hk.id.trans hid)] at hk

/-- **Friendship.** In every state of every run friendship is symmetric and
    never with oneself, at most one application of an ordered pair is pending,
    and a deletion is there in both directions with the same watermark.  After
    a deletion that removed a friendship the two are no friends, and become
    friends again only by accepting an application that did not exist then.
    Runs draw increasing ids (`SysTrace`). -/
theorem friendship (J : Codec) (T : SysTrace J) :
    (∀ i ≤ T.len, ∀ a b, ((T.state i).db.Friend a b ↔ (T.state i).db.Friend b a) ∧
      ¬ (T.state i).db.Friend a a) ∧
    (∀ i ≤ T.len, ∀ a b, ((T.state i).db.applications.filter fun p =>
      p.fromAccount = a && p.toAccount = b && p.status = 0).length ≤ 1) ∧
    (∀ i ≤ T.len, ∀ r ∈ (T.state i).db.deletions, ∃ r' ∈ (T.state i).db.deletions,
      r'.owner = r.peer ∧ r'.peer = r.owner ∧ r'.deletedSeq = r.deletedSeq) ∧
    ∀ i < T.len, ∀ a b d, .deleted a b d ∈ T.out i → ∀ x y, IsPair a b x y →
      ¬ (T.state (i + 1)).db.Friend x y ∧
      ∀ j, i < j → j < T.len → ¬ (T.state j).db.Friend x y → (T.state (j + 1)).db.Friend x y →
        ∃ n now seq c, T.act j = .friendCommit n now seq ∧ (T.state j).friendCalls[n]? = some c ∧
          c.command.operation = .handleApplication ∧ c.command.accept = true ∧
          (∃ p ∈ (T.state j).db.applications, p.id = c.command.applicationID ∧
            IsPair a b p.fromAccount p.toAccount) ∧
          ∀ p ∈ (T.state i).db.applications, p.id ≠ c.command.applicationID := by
  refine ⟨fun i hi a b => ?_, fun i hi a b => ?_, fun i hi r hr => ?_, fun i hi a b d hd x y hp => ?_⟩
  · have hF := (inv_trace T hi).friends
    exact ⟨⟨hF.symm a b, hF.symm b a⟩, fun h => hF.apart a a h rfl⟩
  · have hS := (socialOk_trace T hi).tables
    refine length_le_one (hS.ids.of_map.filter _) fun p hp q hq => ?_
    simp only [List.mem_filter, Bool.and_eq_true, decide_eq_true_eq] at hp hq
    exact hS.pending p hp.1 q hq.1 hp.2.2 hq.2.2 (hp.2.1.1.trans hq.2.1.1.symm)
      (hp.2.1.2.trans hq.2.1.2.symm)
  · have hseq := deletedSeq_of_mem (socialOk_trace T hi).tables hr
    rw [(inv_trace T hi).friends.watermark_symm] at hseq
    obtain ⟨r', hf, hd⟩ := Option.map_eq_some_iff.1 hseq
    have hp := List.find?_some hf
    simp only [Bool.and_eq_true, decide_eq_true_eq] at hp
    exact ⟨r', List.mem_of_find?_eq_some hf, hp.1, hp.2, hd⟩
  · obtain ⟨hclosed, hno⟩ := deleted_closes ((step_move (T.next i hi)).event _ hd)
    refine ⟨hno x y hp, fun j hij hj hn hf => ?_⟩
    have hS := socialOk_trace T hj.le
    rcases step_friend (T.next j hj) with hs | ⟨n, now, seq, c, drawn, ha, hc, he⟩
    · exact absurd ((friend_congr hs.friends).1 hf) hn
    · obtain ⟨ho, hacc, hpair, p, hmem, hid, hpend⟩ := (he.new_friend hf).resolve_left hn
      -- the application is one of the pair
      obtain ⟨q, hq, hqid, hfrom, hto⟩ := hS.calls c (List.mem_of_getElem? hc) ho
      obtain rfl := eq_of_key hS.tables.ids hq hmem (hqid.trans hid.symm)
      have hends : IsPair a b q.fromAccount q.toAccount := by
        rw [hfrom, hto]
        exact isPair_trans hp hpair
      refine ⟨n, now, seq, c, ha, hc, ho, hacc, ⟨q, hq, hqid, hends⟩, fun p hp hpid => ?_⟩
      -- one that existed was closed by the deletion, and stays closed
      obtain ⟨p', hp', hk'⟩ := step_applications (T.next i hi) p hp
      have hk := handled_stays hS.tables (applications_trace T hij hj.le) hp' hq
        (hk'.id.trans (hpid.trans hqid.symm))
      have hs' : p'.status ≠ 0 := hclosed p' hp' (by rw [← hk.sender, ← hk.recipient]; exact hends)
      rw [hk.handled hs'] at hpend
      exact hs' hpend

end

end ApeServer
