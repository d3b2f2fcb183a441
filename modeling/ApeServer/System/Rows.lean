/-
  What one step does to friendship, watermarks and the rows of the outbox.

  * `friends_move`: friendship and watermarks change only by an accepted
    application or by a deletion, and a deletion sets a watermark above every
    number drawn before it;
  * `outbox_step`: every row stays in its place and changes by a `RowStep`, and
    at most one row is new (`NewRow`); the conversations record a message
    exactly when its row goes to stage 1.
-/
import ApeServer.System.Invariant

namespace ApeServer

open Table

/-! ## Friendship and watermarks -/

/-- How a step changes friendship and watermarks. -/
inductive FriendsMove (w w' : World) : Prop
  | same (hf : w'.db.friends = w.db.friends) (hd : w'.db.deletions = w.db.deletions)
  | befriend (a b : Account) (hab : a ≠ b) (hd : w'.db.deletions = w.db.deletions)
      (hf : ∀ x y, w'.db.Friend x y ↔ w.db.Friend x y ∨ IsPair a b x y) (hl : w'.db.Locked a b)
  | unfriend (a b : Account) (seq : ℕ) (hfree : w.pairFree a b = true) (hs : w.lastId < seq)
      (hl : w'.lastId = seq) (hf : ∀ x y, w'.db.Friend x y ↔ w.db.Friend x y ∧ ¬ IsPair a b x y)
      (hd : ∀ x y, IsPair a b x y → w'.db.deletedSeq? x y = some seq)
      (hd' : ∀ x y, ¬ IsPair a b x y → w'.db.deletedSeq? x y = w.db.deletedSeq? x y)

section
variable {J : Codec} {w w' : World} {es : List Event}

theorem locked_lockPair (db : Db) (a b : Account) : (db.lockPair a b).Locked a b := by
  obtain ⟨p, hp, he⟩ := exists_insertNew (p := fun p => p = (min a b, max a b))
    (r := (min a b, max a b)) (by simp) db.friendPairs
  simp only [decide_eq_true_eq] at he
  subst he
  exact hp

theorem subset_lockPair (db : Db) (a b : Account) :
    db.friendPairs ⊆ (db.lockPair a b).friendPairs :=
  subset_insertNew _ _ _

theorem Locked.swap {db : Db} {a b : Account} (h : db.Locked a b) : db.Locked b a := by
  unfold Db.Locked at h ⊢
  rwa [← (min_max_comm a b).1, ← (min_max_comm a b).2]

theorem Locked.of_isPair {db : Db} {a b c d : Account} (h : db.Locked a b) (hp : IsPair a b c d) :
    db.Locked c d := by
  rcases hp with ⟨rfl, rfl⟩ | ⟨rfl, rfl⟩
  · exact h
  · exact Locked.swap h

/-- A committed phase leaves friendship, watermarks and receipts alone. -/
theorem Commit.frame {db db' : Db} {task : OutboxTask} {persist : Bool} {now : Int} {x : Stores}
    {b : Bool} (h : Commit J db task persist now x b db') :
    db'.friends = db.friends ∧ db'.deletions = db.deletions ∧ db'.receipts = db.receipts ∧
      db.friendPairs ⊆ db'.friendPairs ∧ db'.nextOutboxId = db.nextOutboxId := by
  have hl := subset_lockPair db task.actor task.peer
  cases h with
  | stage h =>
    obtain ⟨cs, us, he, -⟩ := recordConversationMessage_eq (db.lockPair task.actor task.peer) _ _
    rw [he]
    exact ⟨rfl, rfl, rfl, hl, rfl⟩
  | _ => exact ⟨rfl, rfl, rfl, hl, rfl⟩

theorem friends_move (hI : Inv J w) (h : Change J w w' es) : FriendsMove w w' := by
  cases h with
  | same h => exact .same (by rw [h]) (by rw [h])
  | lock a b h => exact .same (by rw [h]; rfl) (by rw [h]; rfl)
  | register u h => exact .same (by rw [h]) (by rw [h])
  | edit h =>
    obtain ⟨cs, us, he, -⟩ := h
    exact .same (by rw [he]) (by rw [he])
  | insert m payload _ _ _ _ h => exact .same (by rw [h]; rfl) (by rw [h]; rfl)
  | claim r now token _ _ _ h => exact .same (by rw [h]; rfl) (by rw [h]; rfl)
  | retry k now _ h => exact .same (by rw [h]; rfl) (by rw [h]; rfl)
  | confirm c _ h => exact .same (by rw [h]; rfl) (by rw [h]; rfl)
  | commit k now b _ _ h => exact .same h.frame.1 h.frame.2.1
  | receipt a now _ h => exact .same (by rw [h]; rfl) (by rw [h]; rfl)
  | applications a b apps n h => exact .same (by rw [h]; rfl) (by rw [h]; rfl)
  | befriend c now apps hc h =>
    refine .befriend c.command.actor c.target (hI.calls.friend c hc).symm (by rw [h]; rfl)
      (fun x y => ?_) ?_
    · rw [h, friend_befriend]; rfl
    · rw [h]; exact locked_lockPair _ _ _
  | unfriend c now seq hc hf hs hl h =>
    obtain ⟨h₁, h₂, -⟩ := clearConversation_frame
      ((w.db.lockPair c.command.actor c.target).closeFriendship c.command.actor c.target now seq)
      c.command.actor c.target
    rw [← h] at h₁ h₂
    have hdel : ∀ x y, w'.db.deletedSeq? x y = ((w.db.lockPair c.command.actor
        c.target).closeFriendship c.command.actor c.target now seq).deletedSeq? x y :=
      fun x y => by unfold Db.deletedSeq?; rw [h₂]
    refine .unfriend c.command.actor c.target seq hf hs hl (fun x y => ?_) (fun x y hp => ?_)
      fun x y hp => ?_
    · unfold Db.Friend at *
      rw [h₁]
      have hclose : ((w.db.lockPair c.command.actor c.target).closeFriendship c.command.actor c.target
          now seq).Friend x y ↔ _ := friend_close
      exact hclose
    · rw [hdel, deletedSeq_close hp]
    · rw [hdel, deletedSeq_close_other hp]; rfl
  | clear c hc hn h =>
    obtain ⟨h₁, h₂, -⟩ := clearConversation_frame (w.db.lockPair c.command.actor c.target)
      c.command.actor c.target
    exact .same (by rw [h, h₁]; rfl) (by rw [h, h₂]; rfl)

theorem friendPairs_subset (h : Change J w w' es) : w.db.friendPairs ⊆ w'.db.friendPairs := by
  cases h with
  | same h => rw [h]; exact fun _ h => h
  | lock a b h => rw [h]; exact subset_lockPair _ _ _
  | register u h => rw [h]; exact fun _ h => h
  | edit h =>
    obtain ⟨cs, us, he, -⟩ := h
    rw [he]; exact fun _ h => h
  | insert m payload _ _ _ _ h => rw [h]; exact subset_lockPair _ _ _
  | claim r now token _ _ _ h => rw [h]; exact fun _ h => h
  | retry k now _ h => rw [h]; exact fun _ h => h
  | confirm c _ h => rw [h]; exact fun _ h => h
  | commit k now b _ _ h => exact h.frame.2.2.2.1
  | receipt a now _ h => rw [h]; exact subset_lockPair _ _ _
  | applications a b apps n h => rw [h]; exact subset_lockPair _ _ _
  | befriend c now apps _ h => rw [h]; exact subset_lockPair _ _ _
  | unfriend c now seq _ _ _ _ h =>
    rw [h, (clearConversation_frame _ _ _).2.2.1]; exact subset_lockPair w.db _ _
  | clear c _ _ h =>
    rw [h, (clearConversation_frame _ _ _).2.2.1]; exact subset_lockPair _ _ _

theorem above_congr {db db' : Db} (h : db'.deletions = db.deletions) {a b : Account} {seq : Int} :
    db'.Above a b seq ↔ db.Above a b seq := by
  unfold Db.Above Db.deletedSeq?
  rw [h]

theorem friend_congr {db db' : Db} (h : db'.friends = db.friends) {a b : Account} :
    db'.Friend a b ↔ db.Friend a b := by
  unfold Db.Friend
  rw [h]

/-- **The watermark of a pair never falls.** -/
theorem FriendsMove.above (h : FriendsMove w w') (hF : FriendsOk w) {a b : Account} {seq : Int}
    (ha : w'.db.Above a b seq) : w.db.Above a b seq := by
  cases h with
  | same _ hd => exact (above_congr hd).1 ha
  | befriend _ _ _ hd => exact (above_congr hd).1 ha
  | unfriend x y n _ hs _ _ hd hd' =>
    intro d hd₀
    by_cases hp : IsPair x y a b
    · have h₁ := hF.watermark_le _ _ _ hd₀
      have h₂ := ha n (hd a b hp)
      omega
    · exact ha d (by rw [hd' a b hp]; exact hd₀)

/-- A friendship ends only with a watermark above every number drawn. -/
theorem FriendsMove.friend (h : FriendsMove w w') {a b : Account} {seq : Int}
    (hf : w.db.Friend a b) (hs : seq ≤ w.lastId) (ha : w'.db.Above a b seq) : w'.db.Friend a b := by
  cases h with
  | same hf' _ => exact (friend_congr hf').2 hf
  | befriend x y _ _ hf' => exact (hf' a b).2 (Or.inl hf)
  | unfriend x y n _ hn _ hf' hd _ =>
    refine (hf' a b).2 ⟨hf, fun hp => ?_⟩
    have := ha n (hd a b hp)
    omega

theorem friendsOk_move (hI : Inv J w) (h : Change J w w' es) (hid : w.lastId ≤ w'.lastId) :
    FriendsOk w' := by
  have hF := hI.friends
  have hpairs : ∀ a b, w.db.Locked a b → w'.db.Locked a b := fun a b hl => friendPairs_subset h hl
  cases friends_move hI h with
  | same hf hd =>
    have hdel : ∀ a b, w'.db.deletedSeq? a b = w.db.deletedSeq? a b := fun a b => by
      unfold Db.deletedSeq?; rw [hd]
    refine ⟨fun a b hab => ?_, fun a b hab => ?_, fun a b hab => ?_, fun a b => ?_, fun a b d hd => ?_⟩
    · exact (friend_congr hf).2 (hF.symm a b ((friend_congr hf).1 hab))
    · exact hF.apart a b ((friend_congr hf).1 hab)
    · exact hpairs a b (hF.locked a b ((friend_congr hf).1 hab))
    · rw [hdel, hdel]; exact hF.watermark_symm a b
    · exact (hF.watermark_le a b d (hdel a b ▸ hd)).trans hid
  | befriend x y hxy hd hf hl =>
    have hdel : ∀ a b, w'.db.deletedSeq? a b = w.db.deletedSeq? a b := fun a b => by
      unfold Db.deletedSeq?; rw [hd]
    refine ⟨fun a b hab => ?_, fun a b hab => ?_, fun a b hab => ?_, fun a b => ?_, fun a b d hd => ?_⟩
    · exact (hf b a).2 (((hf a b).1 hab).imp (hF.symm a b) IsPair.swap)
    · rcases (hf a b).1 hab with h' | ⟨rfl, rfl⟩ | ⟨rfl, rfl⟩
      · exact hF.apart a b h'
      · exact hxy
      · exact hxy.symm
    · rcases (hf a b).1 hab with h' | h'
      · exact hpairs a b (hF.locked a b h')
      · exact Locked.of_isPair hl h'
    · rw [hdel, hdel]; exact hF.watermark_symm a b
    · exact (hF.watermark_le a b d (hdel a b ▸ hd)).trans hid
  | unfriend x y n _ hn hl hf hd hd' =>
    refine ⟨fun a b hab => ?_, fun a b hab => ?_, fun a b hab => ?_, fun a b => ?_, fun a b d hdab => ?_⟩
    · obtain ⟨h', hp⟩ := (hf a b).1 hab
      exact (hf b a).2 ⟨hF.symm a b h', fun h => hp h.swap⟩
    · exact hF.apart a b ((hf a b).1 hab).1
    · exact hpairs a b (hF.locked a b ((hf a b).1 hab).1)
    · by_cases hp : IsPair x y a b
      · rw [hd a b hp, hd b a hp.swap]
      · rw [hd' a b hp, hd' b a fun h => hp h.swap]
        exact hF.watermark_symm a b
    · by_cases hp : IsPair x y a b
      · rw [hd a b hp] at hdab
        cases hdab; rw [hl]
      · exact (hF.watermark_le a b d (hd' a b hp ▸ hdab)).trans hid

end

/-! ## Rows -/

/-- The columns of a row that never change. -/
structure Static (r r' : OutboxRow) : Prop where
  id : r'.id = r.id
  operation : r'.operation = r.operation
  key : r'.dedupeKey = r.dedupeKey
  actor : r'.actor = r.actor
  peer : r'.peer = r.peer
  conversation : r'.conversation = r.conversation
  serverId : r'.serverId = r.serverId
  seq : r'.seq = r.seq

/-- How one row changes in a step. -/
inductive RowStep (w w' : World) (r : OutboxRow) : OutboxRow → Prop
  | same : RowStep w w' r r
  | claim (now : Int) (token : String) (hs : r.state = 0 ∨ r.state = 1) (ht : token ∉ w.uuids) :
      RowStep w w' r (Db.claimRow now token r)
  | release (time : Int) (hs : r.state = 1) :
      RowStep w w' r { r with state := 0, availableAt := time, leaseToken := "" }
  | confirm (c : Consumer) (hc : c ∈ w.consumers) (ho : r.operation = 1)
      (hi : r.serverId = c.serverId) (hg : r.stage = 1) (hs : r.state ≠ 3) :
      RowStep w w' r { r with state := 2, dispatchDone := true, leaseToken := "" }
  | refuse (ho : r.operation = 1) (hs : r.state = 1) : RowStep w w' r { r with state := 3 }
  | stage (ho : r.operation = 1) (hs : r.state = 1) (hg : r.stage = 0) :
      RowStep w w' r { r with stage := 1 }
  | complete (hs : r.state = 1)
      (h : r.operation = 1 → 1 ≤ r.stage ∧ w.db.hasReceipt r.peer r.serverId = true) :
      RowStep w w' r { r with state := 2, leaseToken := "" }
  | cancel (ho : r.operation = 1) (hb : ¬ w'.db.Live r) : RowStep w w' r (Db.cancelRow r)

/-- The row a step adds to the outbox, if any. -/
inductive NewRow (J : Codec) (w w' : World) (es : List Event) : List OutboxRow → Prop
  | none (hn : w'.db.nextOutboxId = w.db.nextOutboxId) : NewRow J w w' es []
  | message (m : MsgData) (payload : String) (hm : ⟨m, .insert⟩ ∈ w.sends)
      (hj : J.printMsg m = some payload)
      (hk : ∀ r ∈ w.db.outbox, r.operation = 1 → r.dedupeKey ≠ messageKey m)
      (he : .accepted m ∈ es) (hl : w'.db.Locked m.sendID m.recvID)
      (hn : w'.db.nextOutboxId = w.db.nextOutboxId + 1) :
      NewRow J w w' es [Db.newMessageRow w.db.nextOutboxId m payload]
  | cleanup (a b : Account) (cutoff : ℕ) (hd : w'.db.deletedSeq? a b = some cutoff)
      (hk : ∀ r ∈ w.db.outbox, r.operation = 2 →
        r.dedupeKey ≠ Db.cleanupKey (conversationId a b) cutoff)
      (hn : w'.db.nextOutboxId = w.db.nextOutboxId + 1) :
      NewRow J w w' es [Db.newCleanupRow w.db.nextOutboxId a b cutoff]
  | ack (a : AckCall) (ha : a ∈ w.acks)
      (hk : ∀ r ∈ w.db.outbox, r.operation = 3 → r.dedupeKey ≠ ackKey a.owner a.serverId)
      (hr : w'.db.hasReceipt a.owner a.serverId = true)
      (hn : w'.db.nextOutboxId = w.db.nextOutboxId + 1) :
      NewRow J w w' es [Db.newAckRow w.db.nextOutboxId a.owner a.serverId a.message]

/-- The stages, and what the conversations record: nothing, or one message
    whose row goes to stage 1 while its body and its entries are there. -/
inductive Recording (J : Codec) (w w' : World) (f : OutboxRow → OutboxRow) : Prop
  | none (h : w'.db.recorded = w.db.recorded) (hs : ∀ r ∈ w.db.outbox, (f r).stage = r.stage)
  | one (r : OutboxRow) (m : MsgData) (hr : r ∈ w.db.outbox) (hm : MessageRow J r m)
      (hg : r.stage = 0) (hd : Durable w' r) (h : w'.db.recorded = w.db.recorded ++ [m])
      (hs : ∀ r' ∈ w.db.outbox, (f r').stage = if r'.id = r.id then 1 else r'.stage)

structure OutboxStep (J : Codec) (w w' : World) (es : List Event) (f : OutboxRow → OutboxRow)
    (new : List OutboxRow) : Prop where
  outbox : w'.db.outbox = w.db.outbox.map f ++ new
  row : ∀ r ∈ w.db.outbox, RowStep w w' r (f r)
  new : NewRow J w w' es new
  recording : Recording J w w' f

section
variable {J : Codec} {w w' : World} {es : List Event} {r r' : OutboxRow}

theorem RowStep.static (h : RowStep w w' r r') : Static r r' := by
  cases h <;> exact ⟨rfl, rfl, rfl, rfl, rfl, rfl, rfl, rfl⟩

theorem RowStep.stage_le (h : RowStep w w' r r') : r.stage ≤ r'.stage := by
  cases h with
  | stage _ _ hg => rw [hg]; exact Nat.zero_le _
  | _ => exact le_rfl

theorem RowStep.messageRow {m : MsgData} (h : RowStep w w' r r') (hm : MessageRow J r m) :
    MessageRow J r' m := by
  have hc := h.static
  refine ⟨hc.operation.trans hm.operation, hc.key.trans hm.key, hc.actor.trans hm.actor,
    hc.peer.trans hm.peer, hc.conversation.trans hm.conversation, hc.serverId.trans hm.serverId,
    hc.seq.trans hm.seq, ?_⟩
  cases h with
  | same => exact hm.payload
  | claim now token hs => exact Or.inl (hm.parse (by omega))
  | release time hs => exact Or.inl (hm.parse (by omega))
  | confirm c _ _ _ _ hs => exact Or.inl (hm.parse hs)
  | refuse _ hs => exact Or.inl (hm.parse (by omega))
  | stage _ hs _ => exact Or.inl (hm.parse (by omega))
  | complete hs _ => exact Or.inl (hm.parse (by omega))
  | cancel => exact Or.inr ⟨rfl, rfl⟩

theorem RowStep.life (h : RowStep w w' r r') (ho : r.operation = 1) (hl : Life r) : Life r' := by
  have h₀ := hl.state
  have h₁ := hl.stage
  have h₂ := hl.done
  have h₃ := hl.staged
  cases h with
  | same => exact hl
  | claim now token hs =>
    exact ⟨(by decide : 1 ≤ 3), h₁, fun hd => by have := h₂ hd; omega, fun h => by simp [Db.claimRow] at h⟩
  | release time hs =>
    exact ⟨Nat.zero_le 3, h₁, fun hd => by have := h₂ hd; omega, fun h => by simp at h⟩
  | confirm c _ _ _ hg _ => exact ⟨(by decide : 2 ≤ 3), h₁, fun _ => Or.inl rfl, fun _ => hg⟩
  | refuse _ hs => exact ⟨le_rfl, h₁, fun _ => Or.inr rfl, fun h => by simp at h⟩
  | stage _ hs hg => exact ⟨h₀, le_rfl, h₂, fun _ => rfl⟩
  | complete hs h =>
    exact ⟨(by decide : 2 ≤ 3), h₁, fun _ => Or.inl rfl, fun _ => h₁.antisymm (h ho).1⟩
  | cancel => exact ⟨le_rfl, h₁, fun _ => Or.inr rfl, fun h => by simp [Db.cancelRow] at h⟩

theorem insertNew_eq_append {α : Type} (p : α → Bool) (r : α) (t : List α) :
    insertNew p r t = t ++ if t.any p then [] else [r] := by
  unfold insertNew
  split_ifs <;> simp

/-- Steps that leave the outbox alone. -/
theorem OutboxStep.of_same (ho : w'.db.outbox = w.db.outbox)
    (hn : w'.db.nextOutboxId = w.db.nextOutboxId) (hr : w'.db.recorded = w.db.recorded) :
    OutboxStep J w w' es id [] :=
  ⟨by simp [ho], fun _ _ => .same, .none hn, .none hr fun _ _ => rfl⟩

/-- Steps that update some rows. -/
theorem OutboxStep.of_update {p : OutboxRow → Bool} {f : OutboxRow → OutboxRow}
    (ho : w'.db.outbox = updateWhere p f w.db.outbox)
    (hn : w'.db.nextOutboxId = w.db.nextOutboxId) (hr : w'.db.recorded = w.db.recorded)
    (hs : ∀ r, (f r).stage = r.stage)
    (hf : ∀ r ∈ w.db.outbox, p r → RowStep w w' r (f r)) :
    OutboxStep J w w' es (fun r => if p r then f r else r) [] := by
  refine ⟨by simp [ho, updateWhere], fun r hr => ?_, .none hn, .none hr fun r _ => ?_⟩
  · split_ifs with hp
    · exact hf r hr hp
    · exact .same
  · split_ifs
    · exact hs r
    · rfl

/-- Steps that update the row of one id. -/
theorem OutboxStep.of_updateTask (hI : Inv J w) {f : OutboxRow → OutboxRow}
    (hr : r ∈ w.db.outbox) {id : ℕ} (hid : r.id = id)
    (ho : w'.db.outbox = updateWhere (fun r => r.id = id) f w.db.outbox)
    (hn : w'.db.nextOutboxId = w.db.nextOutboxId) (hrec : w'.db.recorded = w.db.recorded)
    (hs : ∀ r, (f r).stage = r.stage) (hf : RowStep w w' r (f r)) :
    OutboxStep J w w' es (fun r => if r.id = id then f r else r) [] := by
  have h : OutboxStep J w w' es (fun r => if decide (r.id = id) = true then f r else r) [] := by
    refine .of_update ho hn hrec hs fun r' hr' hp => ?_
    rw [hI.rows.eq_of_id hr' hr ((by simpa using hp : r'.id = id).trans hid.symm)]
    exact hf
  simpa using h

/-- A row that a watermark of its conversation covers is not live. -/
theorem not_live (hI : Inv J w) {a b : Account} {d : ℕ} {n : Int} (hr : r ∈ w.db.outbox)
    (ho : r.operation = 1) (hc : r.conversation = conversationId a b)
    (hd : ∀ x y, IsPair a b x y → w'.db.deletedSeq? x y = some d) (hn : n ≤ d) (hs : r.seq ≤ n) :
    ¬ w'.db.Live r := by
  intro hl
  have := hl d (hd _ _ (isPair_of_conversation hI.ids hI.rows hr ho hc))
  omega

/-- The watermark of a pair, in both directions. -/
theorem FriendsOk.watermark (h : FriendsOk w) {a b : Account} {d : ℕ}
    (hd : w.db.deletedSeq? a b = some d) : ∀ x y, IsPair a b x y → w.db.deletedSeq? x y = some d := by
  rintro x y (⟨rfl, rfl⟩ | ⟨rfl, rfl⟩)
  · exact hd
  · rw [h.watermark_symm]; exact hd

/-- Clearing a conversation cancels what its watermark covers, and queues a
    cleanup task once. -/
theorem OutboxStep.of_clear (hI : Inv J w) {db : Db} {a b : Account}
    (h : w'.db = db.clearConversation a b) (ho : db.outbox = w.db.outbox)
    (hn : db.nextOutboxId = w.db.nextOutboxId) (hr : db.recorded = w.db.recorded)
    (hd : ∀ d, db.deletedSeq? a b = some d → ∀ x y, IsPair a b x y → w'.db.deletedSeq? x y = some d) :
    ∃ f new, OutboxStep J w w' es f new := by
  rcases clearConversation_cases db a b with hc | ⟨cutoff, hcut, hc⟩
  · rw [hc] at h
    exact ⟨_, _, .of_same (by rw [h, ho]) (by rw [h, hn]) (by rw [h, hr])⟩
  · rw [hc] at h
    have hd := hd cutoff hcut
    let p := Db.cancellable (conversationId a b) cutoff
    let same := fun r : OutboxRow => r.operation = 2 && r.dedupeKey =
      Db.cleanupKey (conversationId a b) cutoff
    have hout : w'.db.outbox = w.db.outbox.map (fun r => if p r then Db.cancelRow r else r) ++
        if w.db.outbox.any same then [] else [Db.newCleanupRow w.db.nextOutboxId a b cutoff] := by
      have : w'.db.outbox = updateWhere p Db.cancelRow
          (insertNew same (Db.newCleanupRow db.nextOutboxId a b cutoff) db.outbox) := by rw [h]; rfl
      rw [this, ho, hn, insertNew_eq_append, updateWhere, List.map_append]
      congr 1
      split_ifs
      · rfl
      · simp [p, Db.cancellable, Db.newCleanupRow]
    have hnext : w'.db.nextOutboxId = if w.db.outbox.any same then w.db.nextOutboxId
        else w.db.nextOutboxId + 1 := by
      rw [h, ← hn, ← ho]; rfl
    refine ⟨_, _, hout, fun r hrow => ?_, ?_, .none (by rw [h, ← hr]; rfl) fun r _ => ?_⟩
    · split_ifs with hp
      · simp only [p, Db.cancellable, Bool.and_eq_true, decide_eq_true_eq] at hp
        obtain ⟨⟨⟨hconv, hop⟩, hseq⟩, -⟩ := hp
        exact .cancel hop (not_live hI hrow hop hconv hd le_rfl hseq)
      · exact .same
    · split_ifs with hany
      · rw [if_pos hany] at hnext
        exact .none hnext
      · rw [if_neg hany] at hnext
        refine .cleanup a b cutoff (hd a b (Or.inl ⟨rfl, rfl⟩)) (fun r hrow ho hk => hany ?_) hnext
        exact List.any_eq_true.2 ⟨r, hrow, by simp [same, ho, hk]⟩
    · split_ifs <;> rfl

/-- The rows after the cleanup task has run. -/
theorem OutboxStep.of_cleanup (hI : Inv J w) {k : Worker} (hk : k ∈ w.workers)
    (hl : Leased w.db k.task r) (ho : k.task.operation = 2)
    (h : w'.db = Db.updateTask { w.db.lockPair k.task.actor k.task.peer with
      outbox := updateWhere (cleanupRow k.task) Db.cancelRow w.db.outbox } k.task.id fun r =>
        { r with state := 2, leaseToken := "" }) :
    ∃ f new, OutboxStep J w w' es f new := by
  obtain ⟨r₀, hW⟩ := hI.calls.worker k hk
  obtain rfl := hW.of_leased hI.rows hl
  have hdel : ∀ x y, w'.db.deletedSeq? x y = w.db.deletedSeq? x y := by rw [h]; exact fun _ _ => rfl
  refine ⟨fun r => if r.id = k.task.id then { r with state := 2, leaseToken := "" }
    else if cleanupRow k.task r then Db.cancelRow r else r, [], ?_, fun r' hr' => ?_, ?_, ?_⟩
  · rw [h, List.append_nil]
    simp only [Db.updateTask, updateWhere, List.map_map]
    refine List.map_congr_left fun r' hr' => ?_
    simp only [Function.comp]
    by_cases hid : r'.id = k.task.id
    · -- the row of the task itself is not a message
      obtain rfl := hI.rows.eq_of_id hr' hW.row (hid.trans hW.id.symm)
      have : cleanupRow k.task r' = false := by simp [cleanupRow, hW.operation, ho]
      simp [this, hid]
    · by_cases hc : cleanupRow k.task r' = true
      · simp [hc, hid, Db.cancelRow]
      · simp [hc, hid]
  · split_ifs with hid hc
    · obtain rfl := hI.rows.eq_of_id hr' hW.row (hid.trans hW.id.symm)
      refine .complete hl.state fun h₁ => ?_
      have := hW.operation
      omega
    · simp only [cleanupRow, Bool.and_eq_true, decide_eq_true_eq] at hc
      obtain ⟨⟨hop, hconv⟩, hseq⟩ := hc
      cases hI.rows.row r hW.row with
      | message m _ hm => have := hm.operation; have := hW.operation; omega
      | ack h₃ => have := hW.operation; omega
      | cleanup n _ hc' hs' _ hd =>
        obtain ⟨d, hd, hn⟩ := hd
        refine .cancel hop (not_live (a := r.actor) (b := r.peer) hI hr' hop ?_ (d := d)
          (fun x y hp => ?_) (n := n) (by omega) ?_)
        · rw [hconv, ← hW.conversation, hc']
        · rw [hdel]; exact hI.friends.watermark hd x y hp
        · rw [← hs', hW.seq]; exact hseq
    · exact .same
  · exact .none (by rw [h]; rfl)
  · refine .none (by rw [h]; rfl) fun r' _ => ?_
    split_ifs <;> rfl

/-- The rows after a message is staged. -/
theorem OutboxStep.of_stage (hI : Inv J w) {k : Worker} (hk : k ∈ w.workers) {m : MsgData}
    {latest : String} (hr : Ready J w.db k.task r m) (hs : r.stage = 0)
    (hx : ∃ d ∈ w'.stores.mongo, d.serverMsgID = m.serverMsgID)
    (h : w'.db = ((w.db.lockPair k.task.actor k.task.peer).recordConversationMessage m
      latest).updateTask k.task.id fun r => { r with stage := 1 }) :
    ∃ f new, OutboxStep J w w' es f new := by
  obtain ⟨r₀, hW⟩ := hI.calls.worker k hk
  obtain rfl := hW.of_leased hI.rows hr.leased
  obtain ⟨-, hm⟩ := hW.ready hr
  obtain ⟨cs, us, he, -⟩ :=
    recordConversationMessage_eq (w.db.lockPair k.task.actor k.task.peer) m latest
  obtain ⟨-, hsend, hrecv⟩ :=
    recordConversationMessage_entries (w.db.lockPair k.task.actor k.task.peer) m latest
  have hdur : Durable w' r := by
    refine ⟨?_, ?_, ?_⟩
    · rw [hm.serverId]; exact hx
    · rw [h, hm.actor, hm.conversation, hm.seq]; exact hsend
    · rw [h, hm.peer, hm.conversation, hm.seq]; exact hrecv
  rw [he] at h
  refine ⟨fun r => if r.id = k.task.id then { r with stage := 1 } else r, [], ?_, fun r' hr' => ?_,
    .none (by rw [h]; rfl), .one r m hW.row hm hs hdur (by rw [h]; rfl) fun r' _ => ?_⟩
  · simp [h, Db.updateTask, updateWhere]
  · split_ifs with hid
    · obtain rfl := hI.rows.eq_of_id hr' hW.row (hid.trans hW.id.symm)
      exact .stage hm.operation hr.leased.state hs
    · exact .same
  · rw [hW.id]
    split_ifs <;> rfl

/-- The rows after a phase has committed. -/
theorem OutboxStep.of_commit (hI : Inv J w) {k : Worker} (hk : k ∈ w.workers) {now : Int} {b : Bool}
    (hp : k.pc = .persist ∨ k.pc = .dispatch)
    (h : Commit J w.db k.task (k.pc = .persist) now w'.stores b w'.db) :
    ∃ f new, OutboxStep J w w' es f new := by
  obtain ⟨r₀, hW⟩ := hI.calls.worker k hk
  generalize hdb : w'.db = db at h
  cases h with
  | skip => exact ⟨_, _, .of_same (by rw [hdb]; rfl) (by rw [hdb]; rfl) (by rw [hdb]; rfl)⟩
  | already => exact ⟨_, _, .of_same (by rw [hdb]; rfl) (by rw [hdb]; rfl) (by rw [hdb]; rfl)⟩
  | cancel hl ho =>
    obtain rfl := hW.of_leased hI.rows hl
    exact ⟨_, _, .of_updateTask hI hW.row hW.id (by rw [hdb]; rfl) (by rw [hdb]; rfl)
      (by rw [hdb]; rfl) (by intro; rfl) (.refuse (hW.operation.trans ho) hl.state)⟩
  | stage hr _ hs hx => exact OutboxStep.of_stage hI hk hr hs hx hdb
  | requeue hr =>
    obtain rfl := hW.of_leased hI.rows hr.leased
    exact ⟨_, _, .of_updateTask hI hW.row hW.id (by rw [hdb]; rfl) (by rw [hdb]; rfl)
      (by rw [hdb]; rfl) (by intro; rfl) (.release _ hr.leased.state)⟩
  | complete hr hpc hrec =>
    obtain rfl := hW.of_leased hI.rows hr.leased
    have hdisp : k.pc = .dispatch := hp.resolve_left (by simpa using hpc)
    refine ⟨_, _, .of_updateTask hI hW.row hW.id (by rw [hdb]; rfl) (by rw [hdb]; rfl)
      (by rw [hdb]; rfl) (by intro; rfl) (.complete hr.leased.state fun ho => ?_)⟩
    exact ⟨hW.staged (hW.operation ▸ ho) hdisp, by rw [hW.peer, hW.serverId]; exact hrec⟩
  | cleanup hl ho => exact OutboxStep.of_cleanup hI hk hl ho hdb
  | ack hl ho =>
    obtain rfl := hW.of_leased hI.rows hl
    refine ⟨_, _, .of_updateTask hI hW.row hW.id (by rw [hdb]; rfl) (by rw [hdb]; rfl)
      (by rw [hdb]; rfl) (by intro; rfl) (.complete hl.state fun h₁ => ?_)⟩
    have := hW.operation
    omega

/-- The rows after an acknowledgement. -/
theorem OutboxStep.of_receipt {a : AckCall} {now : Int} (ha : a ∈ w.acks)
    (h : w'.db = w.db.ackCommit a.owner a.serverId a.message now) :
    ∃ f new, OutboxStep J w w' es f new := by
  let same := fun r : OutboxRow => r.operation = 3 && r.dedupeKey = ackKey a.owner a.serverId
  have hout : w'.db.outbox = w.db.outbox.map id ++ if w.db.outbox.any same then []
      else [Db.newAckRow w.db.nextOutboxId a.owner a.serverId a.message] := by
    rw [h, List.map_id, ← insertNew_eq_append]; rfl
  have hnext : w'.db.nextOutboxId = if w.db.outbox.any same then w.db.nextOutboxId
      else w.db.nextOutboxId + 1 := by rw [h]; rfl
  refine ⟨_, _, hout, fun _ _ => .same, ?_, .none (by rw [h]; rfl) fun _ _ => rfl⟩
  split_ifs with hany
  · rw [if_pos hany] at hnext
    exact .none hnext
  · rw [if_neg hany] at hnext
    refine .ack a ha (fun r hr ho hk => hany ?_) ?_ hnext
    · exact List.any_eq_true.2 ⟨r, hr, by simp [same, ho, hk]⟩
    · rw [h]; exact hasReceipt_ackCommit _ _ _ _ _

/-- **What a step does to the outbox.** -/
theorem outbox_step (hI : Inv J w) (h : Change J w w' es) : ∃ f new, OutboxStep J w w' es f new := by
  have hfr := friends_move hI h
  cases h with
  | same h => exact ⟨_, _, .of_same (by rw [h]) (by rw [h]) (by rw [h])⟩
  | lock a b h => exact ⟨_, _, .of_same (by rw [h]; rfl) (by rw [h]; rfl) (by rw [h]; rfl)⟩
  | register u h => exact ⟨_, _, .of_same (by rw [h]) (by rw [h]) (by rw [h])⟩
  | edit h =>
    obtain ⟨cs, us, he, -⟩ := h
    exact ⟨_, _, .of_same (by rw [he]) (by rw [he]) (by rw [he])⟩
  | applications a b apps n h => exact ⟨_, _, .of_same (by rw [h]; rfl) (by rw [h]; rfl) (by rw [h]; rfl)⟩
  | befriend c now apps hc h => exact ⟨_, _, .of_same (by rw [h]; rfl) (by rw [h]; rfl) (by rw [h]; rfl)⟩
  | insert m payload hm hj hn he h =>
    refine ⟨id, _, by rw [h, List.map_id]; rfl, fun _ _ => .same,
      .message m payload hm hj hn he ?_ (by rw [h]; rfl), .none (by rw [h]; rfl) fun _ _ => rfl⟩
    rw [h]; exact locked_lockPair _ _ _
  | claim r now token hr hs ht h =>
    exact ⟨_, _, .of_updateTask hI hr rfl (by rw [h]; rfl) (by rw [h]; rfl) (by rw [h]; rfl)
      (by intro; rfl) (.claim now token hs ht)⟩
  | retry k now hk h =>
    refine ⟨_, _, .of_update (by rw [h]; rfl) (by rw [h]; rfl) (by rw [h]; rfl) (by intro; rfl)
      fun r hr hp => ?_⟩
    simp only [Bool.and_eq_true, decide_eq_true_eq] at hp
    exact .release _ hp.1.2
  | confirm c hc h =>
    refine ⟨_, _, .of_update (by rw [h]; rfl) (by rw [h]; rfl) (by rw [h]; rfl) (by intro; rfl)
      fun r hr hp => ?_⟩
    simp only [Bool.and_eq_true, decide_eq_true_eq] at hp
    exact .confirm c hc hp.1.1.1 hp.1.1.2 hp.1.2 hp.2
  | commit k now b hk hp h => exact OutboxStep.of_commit hI hk hp h
  | receipt a now ha h => exact OutboxStep.of_receipt ha h
  | unfriend c now seq hc hf hs hl h =>
    refine OutboxStep.of_clear hI h rfl rfl rfl fun d hd x y hp => ?_
    rw [deletedSeq_close (Or.inl ⟨rfl, rfl⟩)] at hd
    rw [h]
    unfold Db.deletedSeq?
    rw [(clearConversation_frame _ _ _).2.1, ← hd]
    exact deletedSeq_close hp
  | clear c hc hn h =>
    refine OutboxStep.of_clear hI h rfl rfl rfl fun d hd x y hp => ?_
    rw [h]
    unfold Db.deletedSeq?
    rw [(clearConversation_frame _ _ _).2.1]
    exact hI.friends.watermark hd x y hp

end

end ApeServer
