/-
  The single-chat system is mail between friends.

  `Db.mail` reads the letters off the tables: a letter is the row of a message
  in the outbox, it stands from stage 1 on, its rank is its number, and the cut
  of a pair is its deletion watermark.  A receipt is what its reader received.

  * `step_mail`: a step of any coroutine is a run of mail, whose deeds are what
    the events of the step tell;
  * `chat_is_mail`: so is a run of the system, and its events are in the order
    of `Mail.Orderly`.
-/
import ApeServer.Lib.Mail
import ApeServer.System.Cancelled

namespace ApeServer

open Table

/-! ## The abstraction -/

/-- The watermark of a pair. -/
def Db.mark (db : Db) (a b : Account) : WithBot ℤ :=
  match db.deletedSeq? a b with
  | none => ⊥
  | some d => ((d : ℤ) : WithBot ℤ)

/-- A row of the outbox as a letter. -/
def OutboxRow.letter (r : OutboxRow) : Letter Account ℤ where
  author := r.actor
  reader := r.peer
  rank := r.seq
  stands := decide (1 ≤ r.stage)

/-- The tables as mail. -/
def Db.mail (db : Db) : Mail String Account ℤ where
  friends := {p | ∃ a b, p = s(a, b) ∧ db.Friend a b}
  cut := Sym2.lift ⟨fun a b => max (db.mark a b) (db.mark b a), fun _ _ => max_comm _ _⟩
  letter id := (db.outboxByServerId? id).map OutboxRow.letter
  received := {id | ∃ r ∈ db.receipts, r.serverId = id}

/-- What an event tells. -/
def Event.deed : Event → Option (Mail.Deed String Account ℤ)
  | accepted m => some (.post m.serverMsgID m.sendID m.recvID m.seq)
  | staged m => some (.stand m.serverMsgID)
  | pushed m | offered m => some (.offer m.serverMsgID)
  | returned m => some (.browse m.serverMsgID)
  | deleted a b d => some (.part s(a, b) d)
  | acked _ serverId => some (.receive serverId)
  | notified m _ => some (.confirm m.serverMsgID)
  | replayed _ | dispatched _ | replied _ _ => none

section
variable {J : Codec} {w w' : World} {es : List Event} {db db' : Db} {r : OutboxRow} {a b : Account}

/-! ### Letters -/

/-- The row of a server id. -/
theorem outboxByServerId_of_row (hI : Inv J w) (hr : r ∈ w.db.outbox) (ho : r.operation = 1) :
    w.db.outboxByServerId? r.serverId = some r := by
  unfold Db.outboxByServerId?
  cases hf : w.db.outbox.find? fun r' => r'.operation = 1 && r'.serverId = r.serverId with
  | none =>
    have := List.find?_eq_none.1 hf r hr
    simp [ho] at this
  | some r' =>
    have hp := List.find?_some hf
    simp only [Bool.and_eq_true, decide_eq_true_eq] at hp
    rw [eq_of_serverId hI.ids hI.rows (List.mem_of_find?_eq_some hf) hr hp.1 ho hp.2]

theorem letter_of_row (hI : Inv J w) (hr : r ∈ w.db.outbox) (ho : r.operation = 1) :
    w.db.mail.letter r.serverId = some r.letter :=
  congrArg (Option.map OutboxRow.letter) (outboxByServerId_of_row hI hr ho)

/-- An update of rows that keeps what a letter has. -/
theorem letter_update {p : OutboxRow → Bool} {f : OutboxRow → OutboxRow}
    (hf : ∀ r, (f r).operation = r.operation ∧ (f r).serverId = r.serverId ∧ (f r).letter = r.letter)
    (t : List OutboxRow) (id : String) :
    ((updateWhere p f t).find? fun r => r.operation = 1 && r.serverId = id).map OutboxRow.letter
      = (t.find? fun r => r.operation = 1 && r.serverId = id).map OutboxRow.letter := by
  rw [find?_updateWhere fun r _ => by rw [(hf r).1, (hf r).2.1], Option.map_map]
  refine Option.map_congr fun r _ => ?_
  simp only [Function.comp]
  split_ifs
  · exact (hf r).2.2
  · rfl

/-- A new row of another operation. -/
theorem letter_insertNew {p : OutboxRow → Bool} (ho : r.operation ≠ 1) (t : List OutboxRow) (id : String) :
    ((insertNew p r t).find? fun r => r.operation = 1 && r.serverId = id)
      = t.find? fun r => r.operation = 1 && r.serverId = id := by
  unfold insertNew
  split_ifs
  · rfl
  · rw [List.find?_append, List.find?_singleton, if_neg (by simp [ho]), Option.or_none]

/-- Tables with the same friends, watermarks, receipts and letters. -/
theorem mail_congr (hf : db'.friends = db.friends) (hd : db'.deletions = db.deletions)
    (hr : db'.receipts = db.receipts) (hl : db'.mail.letter = db.mail.letter) : db'.mail = db.mail := by
  have hmark : db'.mark = db.mark := by
    funext a b
    unfold Db.mark Db.deletedSeq?
    rw [hd]
  refine Mail.ext ?_ ?_ hl ?_
  · ext p
    simp only [Db.mail, Set.mem_ofPred_eq, friend_congr hf]
  · simp only [Db.mail, hmark]
  · simp only [Db.mail, hr]

theorem mail_update {p : OutboxRow → Bool} {f : OutboxRow → OutboxRow}
    (hf : ∀ r, (f r).operation = r.operation ∧ (f r).serverId = r.serverId ∧ (f r).letter = r.letter) :
    { db with outbox := updateWhere p f db.outbox }.mail = db.mail :=
  mail_congr rfl rfl rfl (funext fun id => letter_update hf db.outbox id)

theorem mail_clearConversation (db : Db) (a b : Account) : (db.clearConversation a b).mail = db.mail := by
  rcases clearConversation_cases db a b with h | ⟨cutoff, -, h⟩ <;> rw [h]
  refine mail_congr rfl rfl rfl (funext fun id => ?_)
  refine (letter_update (p := Db.cancellable (conversationId a b) cutoff) (f := Db.cancelRow)
    (fun r => ⟨rfl, rfl, rfl⟩) _ id).trans ?_
  rw [letter_insertNew (by simp [Db.newCleanupRow])]
  rfl

/-! ### Pairs -/

theorem mail_cut (hF : FriendsOk w) (a b : Account) : w.db.mail.cut s(a, b) = w.db.mark a b := by
  change max (w.db.mark a b) (w.db.mark b a) = _
  unfold Db.mark
  rw [hF.watermark_symm b a, max_self]

theorem mark_lt {seq : ℤ} : db.mark a b < (seq : WithBot ℤ) ↔ db.Above a b seq := by
  unfold Db.mark Db.Above
  cases db.deletedSeq? a b with
  | none => simp
  | some d => simp

/-- A letter is live if its row is. -/
theorem live_iff (hF : FriendsOk w) {l : Letter Account ℤ} :
    w.db.mail.Live l ↔ w.db.Above l.author l.reader l.rank := by
  unfold Mail.Live Letter.pair
  rw [mail_cut hF, mark_lt]

theorem mem_mail_friends (hF : FriendsOk w) : s(a, b) ∈ w.db.mail.friends ↔ w.db.Friend a b := by
  constructor
  · rintro ⟨c, d, hp, h⟩
    rcases Sym2.eq_iff.1 hp with ⟨rfl, rfl⟩ | ⟨rfl, rfl⟩
    · exact h
    · exact hF.symm _ _ h
  · exact fun h => ⟨a, b, rfl, h⟩

/-! ## The shows -/

/-- The row of a known message. -/
theorem Known.row {m : MsgData} (hk : Known J w m) : ∃ r ∈ w.db.outbox, r.operation = 1 ∧
    r.serverId = m.serverMsgID ∧ r.actor = m.sendID ∧ r.peer = m.recvID ∧ r.seq = m.seq := by
  obtain ⟨m₀, ⟨-, r, hr, hrow⟩, h₁, h₂, h₃, h₄⟩ := hk
  exact ⟨r, hr, hrow.operation, hrow.serverId.trans h₃.symm, hrow.actor.trans h₁.symm,
    hrow.peer.trans h₂.symm, hrow.seq.trans h₄.symm⟩

theorem Known.serverId_ne (hI : Inv J w) {m : MsgData} (hk : Known J w m) : m.serverMsgID ≠ "" := by
  obtain ⟨m₀, ⟨hs, -⟩, -, -, h₃, -⟩ := hk
  rw [h₃]
  exact (hI.ids.stamped m₀ hs).uuid.1

/-- **What `WithFriendMessage` admits undelivered is an offer.** -/
theorem offered_move (hI : Inv J w) {m : MsgData} (hk : Known J w m)
    (ha : w.db.friendMessageAllowed m true = true) : Mail.Move w.db.mail (.offer m.serverMsgID) w.db.mail := by
  obtain ⟨r, hr, ho, hid, hactor, hpeer, hseq⟩ := hk.row
  obtain ⟨-, -, -, hgate⟩ := friendMessageAllowed_iff.1 ha
  obtain ⟨hstage, hreceipt⟩ := hgate.resolve_left (hk.serverId_ne hI)
  have hletter := letter_of_row hI hr ho
  rw [hid] at hletter
  refine .offer hletter ?_ ?_ ?_
  · rw [← hid] at hstage
    exact decide_eq_true (hstage r (outboxByServerId_of_row hI hr ho)).1
  · refine (live_iff hI.friends).2 ?_
    change w.db.Above r.actor r.peer r.seq
    rw [hactor, hpeer, hseq]
    exact friendMessageAllowed_above hI hk ha
  · rintro ⟨ρ, hρ, hρid⟩
    obtain ⟨r', hr', ho', hid', hpeer'⟩ := hI.receipts.message ρ hρ
    obtain rfl := eq_of_serverId hI.ids hI.rows hr' hr ho' ho (by rw [hid', hid, hρid])
    have := List.any_eq_false.1 (hreceipt rfl) ρ hρ
    simp [hρid, ← hpeer', hpeer] at this

/-- **What a page of history shows is browsed.** -/
theorem browsed_move (hI : Inv J w) (hk : (w.db.friends.map FriendRow.key).Nodup) {q : HistoryQuery}
    {p : HistoryPage} (hp : getSingleChatHistoryRpc w.db w.stores.mongo q = .page p) {m : MsgData}
    (hm : m ∈ p.messages) : Mail.Move w.db.mail (.browse m.serverMsgID) w.db.mail := by
  obtain rfl := getSingleChatHistoryRpc_page hp
  have hfound := List.mem_of_mem_take (List.mem_filter.1 hm).1
  obtain ⟨-, m', hm', hv, hid'⟩ := mem_filterVisibleMessages.1 hfound
  obtain ⟨d, hd, rfl⟩ := List.mem_map.1 hm'
  have hd := (List.mem_filter.1 ((List.mem_insertionSort _).1 (List.mem_of_mem_take hd))).1
  have hknown : Known J w (decodeMessage d) := known_decode hI hd
  obtain ⟨r, hr, ho, hid, hactor, hpeer, hseq⟩ := hknown.row
  obtain ⟨hfriend, hout⟩ := (visible_eq hI hk).1 hv
  rw [← hid']
  have hletter := letter_of_row hI hr ho
  rw [hid] at hletter
  refine .browse hletter (decide_eq_true (hout r hr ho hid).1.ge) ((live_iff hI.friends).2 ?_)
  change w.db.Above r.actor r.peer r.seq
  rw [hactor, hpeer, hseq]
  exact friendAllows_above hfriend

/-- **A sender is notified of a letter that stands.** -/
theorem confirmed_move (hI : Inv J w) (hS : Settled w) (hr : r ∈ w.db.outbox) {m : MsgData} {code : String}
    (hn : notifySender J (outboxRow r) = some (m, code)) :
    Mail.Move w.db.mail (.confirm m.serverMsgID) w.db.mail := by
  obtain ⟨-, hrow, hcount⟩ := notified_recorded hI hS hr hn
  have hletter := letter_of_row hI hr hrow.operation
  rw [← hrow.serverId, hI.stores.count r hr hrow.operation] at hcount
  rw [hrow.serverId] at hletter
  exact .confirm hletter (decide_eq_true hcount.ge)

/-! ## The steps -/

/-- The step is a run of mail whose deeds the events tell. -/
def Deeds (w w' : World) (es : List Event) : Prop :=
  ∃ ls, (Mail.spec String Account ℤ).Run w.db.mail ls w'.db.mail ∧
    ls.filter Mail.Deed.visible = es.filterMap Event.deed

/-- The event shows a letter, or tells nothing. -/
def Event.Looks : Event → Prop
  | accepted _ | staged _ | deleted _ _ _ | acked _ _ => False
  | _ => True

/-- The actions that change the mail. -/
def Action.Writes : Action → Prop
  | queueInsert _ _ | runPhase _ _ _ _ | ackCommit _ _ | friendCommit _ _ _ => True
  | _ => False

/-- The other actions only look at it. -/
theorem step_looks {a : Action} (h : step J w a = some (w', es)) (ha : ¬ a.Writes) :
    w'.db.mail = w.db.mail ∧ ∀ e ∈ es, e.Looks := by
  cases a with
  | queueInsert | runPhase | ackCommit | friendCommit => exact absurd trivial ha
  | claim now locked token =>
    simp only [step, World.claim] at h
    split_ifs at h
    split at h
    · cases h
      exact ⟨rfl, by simp⟩
    · next hc =>
      cases h
      obtain ⟨r, -, -, -, rfl⟩ := claimOutboxTask_some hc
      exact ⟨mail_update fun r => ⟨rfl, rfl, rfl⟩, by simp⟩
  | retry i now =>
    simp only [step, World.retry] at h
    split at h <;> cases h
    exact ⟨mail_update fun r => ⟨rfl, rfl, rfl⟩, by simp⟩
  | confirm j =>
    simp only [step, World.confirm] at h
    split at h <;> cases h
    exact ⟨mail_update fun r => ⟨rfl, rfl, rfl⟩, by simp⟩
  | markRead owner conv seq =>
    cases h
    obtain ⟨cs, us, he, -⟩ := markConversationRead_edits w.db owner conv seq
    exact ⟨by dsimp only; rw [he]; rfl, by simp⟩
  | updateSettings owner conv pinned opt =>
    simp only [step] at h
    split at h
    · cases h
      exact ⟨rfl, by simp⟩
    · next hu =>
      cases h
      obtain ⟨cs, us, he, -⟩ := updateConversationSettings_edits hu
      exact ⟨by dsimp only; rw [he]; rfl, by simp⟩
  | deleteConversation owner conv =>
    cases h
    obtain ⟨cs, us, he, -⟩ := deleteConversation_edits w.db owner conv
    exact ⟨by dsimp only; rw [he]; rfl, by simp⟩
  | notify i =>
    simp only [step, World.notify] at h
    split at h
    · cases h
      refine ⟨rfl, fun e he => ?_⟩
      split at he
      · cases he
      · obtain ⟨x, -, rfl⟩ := Option.map_eq_some_iff.1 (Option.mem_toList.1 he)
        trivial
    · cases h
  | history q =>
    simp only [step, World.history] at h
    split at h
    · cases h
      exact ⟨rfl, by simp⟩
    · split_ifs at h
      cases h
      exact ⟨rfl, by simp⟩
    · split_ifs at h
      cases h
      refine ⟨rfl, fun e he => ?_⟩
      obtain ⟨m, -, rfl⟩ := List.mem_map.1 he
      trivial
  | _ =>
    simp only [step, World.send, World.queueLookup, World.abortSend, World.poll, World.reply, World.crash,
      World.consume, World.checkDispatch, World.push, World.dropConsumer, World.scan, World.deliver,
      World.dropDelivery, World.ackStart, World.dropAck, World.friendStart, World.dropFriend] at h
    repeat' split at h
    all_goals first | (cases h; exact ⟨rfl, by simp [Event.Looks]⟩) | cases h

/-- The shows of a step are moves that change nothing. -/
theorem looks_move {a : Action} (hI : Inv J w) (hk : (w.db.friends.map FriendRow.key).Nodup) (hS : Settled w)
    (h : step J w a = some (w', es)) {e : Event} (he : e ∈ es) (hl : e.Looks) {d : Mail.Deed String Account ℤ}
    (hd : e.deed = some d) : Mail.Move w.db.mail d w.db.mail ∧ d.visible = true := by
  have hj := (step_move h).event e he
  cases e with
  | accepted | staged | deleted | acked => exact absurd hl id
  | replayed | dispatched | replied => cases hd
  | pushed m =>
    cases hd
    obtain ⟨⟨c, hc, rfl⟩, ha⟩ := hj
    exact ⟨offered_move hI (hI.calls.consumer c hc).2.1 ha, rfl⟩
  | offered m =>
    cases hd
    exact ⟨offered_move hI (hI.calls.delivery m hj.1) hj.2, rfl⟩
  | returned m =>
    cases hd
    obtain ⟨q, p, hp, hm⟩ := hj
    exact ⟨browsed_move hI hk hp hm, rfl⟩
  | notified m code =>
    cases hd
    obtain ⟨r, hr, hn⟩ := notified_row h he
    exact ⟨confirmed_move hI hS hr hn, rfl⟩

theorem looks_deeds {a : Action} (hI : Inv J w) (hk : (w.db.friends.map FriendRow.key).Nodup) (hS : Settled w)
    (h : step J w a = some (w', es)) (ha : ¬ a.Writes) : Deeds w w' es := by
  obtain ⟨hmail, hlooks⟩ := step_looks h ha
  have hmoves : ∀ d ∈ es.filterMap Event.deed, Mail.Move w.db.mail d w.db.mail ∧ d.visible = true := by
    intro d hd
    obtain ⟨e, he, hd⟩ := List.mem_filterMap.1 hd
    exact looks_move hI hk hS h he (hlooks e he) hd
  refine ⟨es.filterMap Event.deed, ?_, List.filter_eq_self.2 fun d hd => (hmoves d hd).2⟩
  rw [hmail]
  exact Spec.Run.idle fun d hd => (hmoves d hd).1

/-- A step that changes no letters and tells nothing. -/
theorem Deeds.none (hm : w'.db.mail = w.db.mail) (hes : es.filterMap Event.deed = []) : Deeds w w' es :=
  ⟨[], by rw [hm]; exact .nil, hes.symm⟩

/-- A step that is one move. -/
theorem Deeds.one {d : Mail.Deed String Account ℤ} (hm : Mail.Move w.db.mail d w'.db.mail)
    (hv : d.visible = true) (hes : es.filterMap Event.deed = [d]) : Deeds w w' es :=
  ⟨[d], .one hm, by rw [hes, List.filter_cons_of_pos hv, List.filter_nil]⟩

/-! ### A message is queued -/

theorem letter_insertMessage {m : MsgData} (payload : String) (hn : db.mail.letter m.serverMsgID = none) :
    (db.insertMessage m payload).mail.letter
      = Function.update db.mail.letter m.serverMsgID (some ⟨m.sendID, m.recvID, m.seq, false⟩) := by
  funext id
  change ((db.outbox ++ [Db.newMessageRow db.nextOutboxId m payload]).find? fun r =>
    r.operation = 1 && r.serverId = id).map OutboxRow.letter = _
  rw [List.find?_append, List.find?_singleton, Function.update_apply]
  by_cases hid : id = m.serverMsgID
  · subst hid
    have hnone := Option.map_eq_none_iff.1 hn
    unfold Db.outboxByServerId? at hnone
    rw [if_pos rfl, hnone, if_pos (by simp [Db.newMessageRow])]
    rfl
  · rw [if_neg hid, if_neg (by simp [Db.newMessageRow, Ne.symm hid]), Option.or_none]
    rfl

/-- A message is not in the outbox before it is queued. -/
theorem letter_none (hI : Inv J w) {m : MsgData} (hm : m ∈ w.stamped)
    (hn : ∀ r ∈ w.db.outbox, r.operation = 1 → r.dedupeKey ≠ messageKey m) :
    w.db.mail.letter m.serverMsgID = none := by
  refine Option.map_eq_none_iff.2 (List.find?_eq_none.2 fun r hr hp => ?_)
  simp only [Bool.and_eq_true, decide_eq_true_eq] at hp
  obtain ⟨m', hm', hrow, -⟩ := hI.rows.message hr hp.1
  obtain rfl := eq_of_serverMsgID hI.ids hm' hm (hrow.serverId.symm.trans hp.2)
  exact hn r hr hp.1 hrow.key

theorem queueInsert_deeds {i : ℕ} {lost : Bool} (hI : Inv J w) (h : w.queueInsert J i lost = some (w', es)) :
    Deeds w w' es := by
  unfold World.queueInsert at h
  split at h
  · next m hm =>
    obtain ⟨hstamp, -, hfriend, habove⟩ := hI.calls.send _ (List.mem_of_getElem? hm)
    split at h
    · cases h
      exact .none rfl rfl
    · next task db hi =>
      obtain ⟨payload, hj, hn, rfl, rfl⟩ := queueInsert_ok hi
      have hnone := letter_none hI hstamp hn
      have hmail : (w.db.insertMessage m payload).mail = { w.db.mail with
          letter := Function.update w.db.mail.letter m.serverMsgID (some ⟨m.sendID, m.recvID, m.seq, false⟩) } := by
        rw [← letter_insertMessage payload hnone]
        rfl
      have hmove : Mail.Move w.db.mail (.post m.serverMsgID m.sendID m.recvID m.seq)
          (w.db.insertMessage m payload).mail := by
        rw [hmail]
        exact .post hnone ((mem_mail_friends hI.friends).2 hfriend) ((live_iff hI.friends).2 habove)
      split_ifs at h <;> cases h
      · exact .one hmove rfl rfl
      · exact .one hmove rfl rfl
  · cases h

/-! ### A phase of a worker -/

theorem letter_stage (hI : Inv J w) (hr : r ∈ w.db.outbox) (ho : r.operation = 1) (id : String) :
    ((updateWhere (fun r' : OutboxRow => r'.id = r.id) (fun r => { r with stage := 1 }) w.db.outbox).find? fun r =>
      r.operation = 1 && r.serverId = id).map OutboxRow.letter
        = Function.update w.db.mail.letter r.serverId (some { r.letter with stands := true }) id := by
  rw [find?_updateWhere (f := fun r : OutboxRow => { r with stage := 1 }) fun _ _ => rfl, Function.update_apply]
  split_ifs with hid
  · subst hid
    have hf := outboxByServerId_of_row hI hr ho
    unfold Db.outboxByServerId? at hf
    rw [hf]
    simp [OutboxRow.letter]
  · change _ = (w.db.outboxByServerId? id).map OutboxRow.letter
    unfold Db.outboxByServerId?
    rw [Option.map_map]
    refine Option.map_congr fun r' hf => ?_
    have hp := List.find?_some hf
    simp only [Bool.and_eq_true, decide_eq_true_eq] at hp
    have hne : r'.id ≠ r.id := fun he => by
      rw [← hp.2, hI.rows.eq_of_id (List.mem_of_find?_eq_some hf) hr he] at hid
      exact hid rfl
    simp [hne]

/-- **A phase that commits** records the message of its task, or leaves the mail
    as it is. -/
theorem Commit.mail (hI : Inv J w) {k : Worker} (hk : k ∈ w.workers) {persist b : Bool} {now : Int} {x : Stores}
    (h : Commit J w.db k.task persist now x b db) :
    (db.mail = w.db.mail ∧ db.recorded = w.db.recorded) ∨
      ∃ m, Mail.Move w.db.mail (.stand m.serverMsgID) db.mail ∧ db.recorded = w.db.recorded ++ [m] := by
  cases h with
  | skip => exact Or.inl ⟨rfl, rfl⟩
  | already => exact Or.inl ⟨rfl, rfl⟩
  | cancel | requeue | complete | ack => exact Or.inl ⟨mail_update fun r => ⟨rfl, rfl, rfl⟩, rfl⟩
  | cleanup =>
    have hcancel : { w.db.lockPair k.task.actor k.task.peer with
        outbox := updateWhere (cleanupRow k.task) Db.cancelRow w.db.outbox }.mail = w.db.mail :=
      mail_update (f := Db.cancelRow) fun r => ⟨rfl, rfl, rfl⟩
    exact Or.inl ⟨(mail_update (f := fun r => { r with state := 2, leaseToken := "" })
      fun r => ⟨rfl, rfl, rfl⟩).trans hcancel, rfl⟩
  | @stage r m latest hr _ hs =>
    obtain ⟨r₀, hW⟩ := hI.calls.worker k hk
    obtain rfl := hW.of_leased hI.rows hr.leased
    obtain ⟨-, hrow⟩ := hW.ready hr
    obtain ⟨cs, us, he, -⟩ := recordConversationMessage_eq (w.db.lockPair k.task.actor k.task.peer) m latest
    have hletter := letter_of_row hI hW.row hrow.operation
    refine Or.inr ⟨m, ?_, by rw [he]; rfl⟩
    have hmail : (((w.db.lockPair k.task.actor k.task.peer).recordConversationMessage m latest).updateTask
        k.task.id fun r => { r with stage := 1 }).mail = { w.db.mail with
          letter := Function.update w.db.mail.letter r.serverId (some { r.letter with stands := true }) } := by
      rw [he, ← hW.id, ← funext (letter_stage hI hW.row hrow.operation)]
      rfl
    rw [hmail, ← hrow.serverId]
    refine .stand hletter (decide_eq_false (by omega)) ((live_iff hI.friends).2 ?_)
    change w.db.Above r.actor r.peer r.seq
    rw [hrow.actor, hrow.peer, hrow.seq]
    exact hr.above hI hk

theorem runPhase_deeds {i : ℕ} {now : Int} {lost : Bool} {fuel : ℕ} (hI : Inv J w)
    (h : w.runPhase J i now lost fuel = some (w', es)) : Deeds w w' es := by
  obtain ⟨task, pc, o, db', x', hk, -, rfl, rfl, -, hd⟩ := runPhase_cases h
  have hquiet : ∀ ms : List MsgData, (ms.map Event.dispatched).filterMap Event.deed = [] := fun ms => by
    simp [List.filterMap_eq_nil_iff, Event.deed]
  rcases hd with ⟨b, hc, -⟩ | ⟨rfl, -⟩
  · rcases Commit.mail hI (List.mem_of_getElem? hk) hc with ⟨hm, hrec⟩ | ⟨m, hm, hrec⟩
    · refine .none hm ?_
      rw [hrec, List.drop_length, List.filterMap_append, hquiet]
      rfl
    · refine .one hm rfl ?_
      rw [hrec, List.drop_left, List.filterMap_append, hquiet]
      rfl
  · refine .none rfl ?_
    rw [List.drop_length, List.filterMap_append, hquiet]
    rfl

/-! ### An acknowledgement -/

/-- The receipts after one was inserted. -/
theorem received_insertNew (owner : Account) (serverId : String) (conv : String) (seq now : Int)
    (t : List ReceiptRow) :
    {id | ∃ r ∈ insertNew (fun r => r.owner = owner && r.serverId = serverId) ⟨owner, serverId, conv, seq, now⟩ t,
      r.serverId = id} = insert serverId {id | ∃ r ∈ t, r.serverId = id} := by
  ext id
  constructor
  · rintro ⟨r, hr, rfl⟩
    rcases mem_insertNew.1 hr with hr | ⟨rfl, -⟩
    · exact Or.inr ⟨r, hr, rfl⟩
    · exact Or.inl rfl
  · rintro (rfl | ⟨r, hr, rfl⟩)
    · obtain ⟨r, hr, hp⟩ := exists_insertNew (p := fun r : ReceiptRow => r.owner = owner && r.serverId = id)
        (r := ⟨owner, id, conv, seq, now⟩) (by simp) t
      simp only [Bool.and_eq_true, decide_eq_true_eq] at hp
      exact ⟨r, hr, hp.2⟩
    · exact ⟨r, mem_insertNew.2 (Or.inl hr), rfl⟩

theorem ackCommit_deeds {j : ℕ} {now : Int} (hI : Inv J w) (h : w.ackCommit j now = some (w', es)) :
    Deeds w w' es := by
  unfold World.ackCommit at h
  split at h
  · cases h
  · next owner serverId m hm =>
    split_ifs at h
    cases h
    obtain ⟨hknown, hid, -⟩ := hI.calls.ack _ (List.mem_of_getElem? hm)
    obtain ⟨r, hr, ho, hrid, -⟩ := hknown.row
    have hletter := letter_of_row hI hr ho
    rw [hrid, show m.serverMsgID = serverId from hid] at hletter
    have hmail : (w.db.ackCommit owner serverId m now).mail
        = { w.db.mail with received := insert serverId w.db.mail.received } := by
      have hl : (w.db.ackCommit owner serverId m now).mail.letter = w.db.mail.letter := funext fun id =>
        congrArg (Option.map OutboxRow.letter) (letter_insertNew (by simp [Db.newAckRow]) w.db.outbox id)
      exact Mail.ext rfl rfl hl (received_insertNew owner serverId m.convID m.seq now _)
    refine .one (d := .receive serverId) ?_ rfl rfl
    rw [hmail]
    exact .receive hletter

/-! ### A friend command -/

theorem IsPair.eq {a b c d : Account} (h : IsPair a b c d) : s(c, d) = s(a, b) := by
  rcases h with ⟨rfl, rfl⟩ | ⟨rfl, rfl⟩
  · rfl
  · exact Sym2.eq_swap

theorem isPair_of_eq {a b c d : Account} (h : s(c, d) = s(a, b)) : IsPair a b c d := Sym2.eq_iff.1 h

/-- Two become friends. -/
theorem mail_befriend (now : Int) (apps : List ApplicationRow) :
    (db.befriend a b now apps).mail = { db.mail with friends := insert s(a, b) db.mail.friends } := by
  refine Mail.ext (Set.ext fun p => ?_) rfl rfl rfl
  constructor
  · rintro ⟨c, d, rfl, h⟩
    rcases friend_befriend.1 h with h | h
    · exact Or.inr ⟨c, d, rfl, h⟩
    · exact Or.inl (IsPair.eq h)
  · rintro (rfl | ⟨c, d, rfl, h⟩)
    · exact ⟨a, b, rfl, friend_befriend.2 (Or.inr (Or.inl ⟨rfl, rfl⟩))⟩
    · exact ⟨c, d, rfl, friend_befriend.2 (Or.inl h)⟩

/-- Two part. -/
theorem mail_closeFriendship (now : Int) (seq : ℕ) :
    (db.closeFriendship a b now seq).mail = { db.mail with
      friends := db.mail.friends \ {s(a, b)}
      cut := Function.update db.mail.cut s(a, b) ((seq : ℤ) : WithBot ℤ) } := by
  refine Mail.ext (Set.ext fun p => ?_) (funext fun p => ?_) rfl rfl
  · constructor
    · rintro ⟨c, d, rfl, h⟩
      obtain ⟨h, hn⟩ := friend_close.1 h
      exact ⟨⟨c, d, rfl, h⟩, fun he => hn (isPair_of_eq he)⟩
    · rintro ⟨⟨c, d, rfl, h⟩, hn⟩
      exact ⟨c, d, rfl, friend_close.2 ⟨h, fun hp => hn hp.eq⟩⟩
  · induction p using Sym2.ind with | _ c d =>
    change max ((db.closeFriendship a b now seq).mark c d) ((db.closeFriendship a b now seq).mark d c) = _
    unfold Db.mark
    simp only [Function.update_apply]
    split_ifs with hp
    · rw [deletedSeq_close (isPair_of_eq hp), deletedSeq_close (isPair_of_eq hp).swap]
      exact max_self _
    · rw [deletedSeq_close_other fun h => hp h.eq, deletedSeq_close_other fun h => hp h.swap.eq]
      rfl

/-- The letters of a state are numbered. -/
theorem letter_le (hI : Inv J w) {id : String} {l : Letter Account ℤ} (h : w.db.mail.letter id = some l) :
    l.rank ≤ w.lastId := by
  obtain ⟨r, hf, rfl⟩ := Option.map_eq_some_iff.1 h
  have hp := List.find?_some hf
  simp only [Bool.and_eq_true, decide_eq_true_eq] at hp
  obtain ⟨m, hm, hrow, -⟩ := hI.rows.message (List.mem_of_find?_eq_some hf) hp.1
  change r.seq ≤ _
  rw [hrow.seq]
  exact (hI.ids.stamped m hm).le

/-- **A deletion is a parting** at a number that is not yet drawn. -/
theorem part_move (hI : Inv J w) {now : Int} {seq : ℕ} (hp : w.db.friends.any (Db.pairRow a b) = true)
    (hs : w.lastId < seq) :
    Mail.Move w.db.mail (.part s(a, b) seq) ((w.db.lockPair a b).closeFriendship a b now seq).mail := by
  rw [mail_closeFriendship]
  obtain ⟨r, hr, hrow⟩ := List.any_eq_true.1 hp
  have hmem : s(a, b) ∈ w.db.mail.friends := by
    rw [← (pairRow_iff.1 hrow).eq]
    exact ⟨_, _, rfl, r, hr, rfl, rfl⟩
  refine .part hmem ?_ fun id l hl => ?_
  · rw [mail_cut hI.friends, mark_lt]
    intro d hd
    have := hI.friends.watermark_le a b d hd
    omega
  · have := letter_le hI hl
    omega

theorem friendCommit_deeds {j : ℕ} {now : Int} {seq : ℕ} (hI : Inv J w)
    (h : w.friendCommit j now seq = some (w', es)) : Deeds w w' es := by
  unfold World.friendCommit at h
  split at h
  · cases h
  · next cmd target hc =>
    have hne := hI.calls.friend _ (List.mem_of_getElem? hc)
    split_ifs at h
    split at h
    · cases h
      exact .none rfl rfl
    · next reply drawn db hm =>
      split_ifs at h with hd
      cases h
      rcases mutate_cases hm with ⟨rfl, apps, n, rfl⟩ | ⟨rfl, apps, rfl⟩ | ⟨rfl, hp, rfl⟩ | ⟨rfl, -, rfl⟩
      · exact .none rfl rfl
      · -- the new friendship is no event
        refine ⟨[.befriend s(cmd.actor, target)], .one ?_, rfl⟩
        dsimp only
        rw [mail_befriend]
        exact .befriend fun hdiag => hne (Sym2.mk_isDiag_iff.1 hdiag).symm
      · simp only [Option.all_some, Bool.and_eq_true, decide_eq_true_eq] at hd
        refine .one (d := .part s(cmd.actor, target) seq) ?_ rfl rfl
        dsimp only
        rw [mail_clearConversation]
        exact part_move hI hp hd.1
      · exact .none (mail_clearConversation _ _ _) rfl

theorem mail_start : start.db.mail = (Mail.spec String Account ℤ).start := by
  refine Mail.ext (Set.eq_empty_of_forall_notMem ?_) (funext fun p => ?_) rfl (Set.eq_empty_of_forall_notMem ?_)
  · rintro _ ⟨a, b, -, r, hr, -⟩
    cases hr
  · induction p using Sym2.ind with | _ a b => rfl
  · rintro id ⟨r, hr, -⟩
    cases hr

/-- **Every step is a run of mail.** -/
theorem step_mail {a : Action} (hI : Inv J w) (hk : (w.db.friends.map FriendRow.key).Nodup) (hS : Settled w)
    (h : step J w a = some (w', es)) : Deeds w w' es := by
  cases a with
  | queueInsert => exact queueInsert_deeds hI h
  | runPhase => exact runPhase_deeds hI h
  | ackCommit => exact ackCommit_deeds hI h
  | friendCommit => exact friendCommit_deeds hI h
  | _ => exact looks_deeds hI hk hS h id

end

/-- **Single chat is mail between friends.**  The tables after every prefix of a
    run are what a run of mail leads to, which begins with no friends and no
    letters, and whose deeds are those events of the prefix that accept, stage,
    push, offer, return, delete, acknowledge or notify (`Event.deed`; a replayed
    or dispatched message and a reply to the sender are none), with friendships
    that begin in between.  So whoever accepts, stores, pushes, delivers, pages and
    acknowledges messages in whatever order: a message is accepted once and
    recorded once; it is pushed, delivered, paged or confirmed only after both;
    after a deletion of the friendship no message accepted before is recorded or
    shown; and what was acknowledged is not pushed or delivered.  Runs draw
    increasing ids (`SysTrace`). -/
theorem chat_is_mail (J : Codec) (T : SysTrace J) :
    (∀ j ≤ T.len, ∃ ls, (Mail.spec String Account ℤ).Run (Mail.spec String Account ℤ).start ls (T.state j).db.mail ∧
      ls.filter Mail.Deed.visible = (T.outs 0 j).filterMap Event.deed ∧ (T.state j).db.mail.Ok) ∧
    Mail.Orderly ((T.outs 0 T.len).filterMap Event.deed) := by
  have hrun : ∀ j ≤ T.len, ∃ ls, (Mail.spec String Account ℤ).Run (Mail.spec String Account ℤ).start ls
      (T.state j).db.mail ∧ ls.filter Mail.Deed.visible = (T.outs 0 j).filterMap Event.deed := by
    intro j hj
    have hstart : (T.state 0).db.mail = (Mail.spec String Account ℤ).start := by
      rw [T.start]
      exact mail_start
    rw [← hstart]
    exact T.simulated (fun w => w.db.mail) Event.deed Mail.Deed.visible (fun k hk =>
      step_mail (inv_trace T hk.le) (friendKeys_trace T hk.le) (settled_trace T hk.le) (T.next k hk))
      (Nat.zero_le j) hj
  refine ⟨fun j hj => ?_, ?_⟩
  · obtain ⟨ls, hls, hv⟩ := hrun j hj
    exact ⟨ls, hls, hv, Mail.ok_of_run hls⟩
  · obtain ⟨ls, hls, hv⟩ := hrun T.len le_rfl
    rw [← hv]
    exact (Mail.orderly hls).visible

end ApeServer
