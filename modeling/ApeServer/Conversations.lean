/-
  Conversation entries and unread sets (`RecordConversationMessage`,
  `MarkConversationRead`, `UpdateConversationSettings`, `DeleteConversation`
  and `DeleteConversationPair` of `src/storage/mysqlhandler.cpp`).

  `recordConversationMessage` is the upsert of both owners' rows, followed by
  the conditional insert into the receiver's unread set and the increment of
  its counter.
-/
import ApeServer.Database

namespace ApeServer

open Table

namespace Db

/-- The row of an owner's conversation. -/
def conversation? (db : Db) (owner : Account) (conv : String) : Option ConversationRow :=
  db.conversations.find? fun r => r.owner = owner && r.conversation = conv

/-- The update of an owner's conversations by `f`, where `conversation_id` is
    `conv`. -/
def updateConversation (db : Db) (owner : Account) (conv : String)
    (f : ConversationRow → ConversationRow) : Db :=
  { db with
    conversations := updateWhere (fun r => r.owner = owner && r.conversation = conv) f
      db.conversations }

end Db

/-- The assignments of the upsert, from left to right; `max_seq` comes last,
    so the tests before it see its old value. -/
def ConversationRow.record (seq time : Int) (latest : String) (r : ConversationRow) :
    ConversationRow :=
  { r with
    isHidden := if r.maxSeq < seq then false else r.isHidden
    latestMessage := if r.maxSeq < seq then latest else r.latestMessage
    latestTime := if r.maxSeq < seq then time else r.latestTime
    maxSeq := max r.maxSeq seq }

/-- `INSERT INTO im_conversations … ON DUPLICATE KEY UPDATE …` for one of the
    two rows. -/
def upsertConversation (owner peer : Account) (conv : String) (seq time : Int) (latest : String)
    (t : List ConversationRow) : List ConversationRow :=
  upsert (fun r => r.owner = owner && r.conversation = conv) (·.record seq time latest)
    { owner := owner, conversation := conv, peer := peer, maxSeq := seq, latestTime := time,
      latestMessage := latest } t

namespace Db

/-- The statements of `RecordConversationMessage`, once the summary text is
    built. -/
def recordConversationMessage (db : Db) (m : MsgData) (latest : String) : Db :=
  let conversations :=
    upsertConversation m.recvID m.sendID m.convID m.seq m.sendTime latest
      (upsertConversation m.sendID m.recvID m.convID m.seq m.sendTime latest db.conversations)
  let open? := conversations.any fun r => r.owner = m.recvID && r.conversation = m.convID &&
    r.readSeq < m.seq && r.minSeq < m.seq
  let known? := db.unread.any fun u => u.owner = m.recvID && u.conversation = m.convID && u.seq = m.seq
  let db := { db with conversations := conversations, recorded := db.recorded ++ [m] }
  if open? && !known? then
    Db.updateConversation { db with unread := db.unread ++ [⟨m.recvID, m.convID, m.seq⟩] }
      m.recvID m.convID fun r => { r with unreadCount := r.unreadCount + 1 }
  else db

/-- `DeleteConversationPair`; the unread rows go with their conversation
    (`ON DELETE CASCADE`). -/
def deleteConversationPair (db : Db) (conv : String) : Db :=
  { db with
    conversations := deleteWhere (fun r => r.conversation = conv) db.conversations
    unread := deleteWhere (fun u => u.conversation = conv) db.unread }

/-- `MarkConversationRead`. -/
def markConversationRead (db : Db) (owner : Account) (conv : String) (seq : Int) : Bool × Db :=
  match db.conversation? owner conv with
  | none => (false, db)
  | some r =>
    if seq ≤ 0 ∨ r.maxSeq < seq then (false, db)
    else if seq ≤ r.readSeq then (true, db)
    else
      let read := fun u : UnreadRow => u.owner = owner && u.conversation = conv && u.seq ≤ seq
      let removed := (db.unread.filter read).length
      (true, Db.updateConversation { db with unread := deleteWhere read db.unread } owner conv fun r =>
        { r with readSeq := seq, unreadCount := r.unreadCount - min r.unreadCount removed })

/-- `UpdateConversationSettings`. -/
def updateConversationSettings (db : Db) (owner : Account) (conv : String)
    (pinned : Option Bool) (recvMsgOpt : Option Int) : Except Thrown (Bool × Db) :=
  if (pinned = none ∧ recvMsgOpt = none) ∨ recvMsgOpt.any fun o => o < 0 || 1 < o then
    .error (.invalidArgument "Invalid conversation settings")
  else
    let row := fun r : ConversationRow =>
      r.owner = owner && r.conversation = conv && r.isHidden = false
    .ok (db.conversations.any row,
      { db with
        conversations := updateWhere row (fun r =>
          { r with
            isPinned := pinned.getD r.isPinned
            recvMsgOpt := recvMsgOpt.getD r.recvMsgOpt }) db.conversations })

/-- `DeleteConversation`: hide the owner's entry and mark it read. -/
def deleteConversation (db : Db) (owner : Account) (conv : String) : Db :=
  match db.conversation? owner conv with
  | none => db
  | some _ =>
    let unread := deleteWhere (fun u => u.owner = owner && u.conversation = conv) db.unread
    Db.updateConversation { db with unread := unread } owner conv fun r =>
      { r with isHidden := true, readSeq := r.maxSeq, unreadCount := 0 }

end Db

/-! ## What the operations keep -/

/-- The row is still the entry of the same owner and conversation, and
    `max_seq` has not decreased. -/
structure ConversationRow.Keeps (r r' : ConversationRow) : Prop where
  owner : r'.owner = r.owner
  conversation : r'.conversation = r.conversation
  maxSeq : r.maxSeq ≤ r'.maxSeq

theorem ConversationRow.Keeps.refl (r : ConversationRow) : r.Keeps r := ⟨rfl, rfl, le_rfl⟩

theorem ConversationRow.Keeps.trans {r₁ r₂ r₃ : ConversationRow} (h : r₁.Keeps r₂)
    (h' : r₂.Keeps r₃) : r₁.Keeps r₃ :=
  ⟨h'.owner.trans h.owner, h'.conversation.trans h.conversation, h.maxSeq.trans h'.maxSeq⟩

/-- The entries of `t` are kept in `t'`. -/
abbrev KeepsEntries (t t' : List ConversationRow) : Prop := Evolves ConversationRow.Keeps t t'

theorem KeepsEntries.update {p : ConversationRow → Bool} {f : ConversationRow → ConversationRow}
    (hf : ∀ r : ConversationRow, r.Keeps (f r)) (t : List ConversationRow) : KeepsEntries t (updateWhere p f t) :=
  Evolves.updateWhere .refl fun r _ _ => hf r

/-- A transaction on entries and unread sets that keeps the entries. -/
def Db.Edits (db db' : Db) : Prop :=
  ∃ cs us, db' = { db with conversations := cs, unread := us } ∧ KeepsEntries db.conversations cs

theorem markConversationRead_edits (db : Db) (owner : Account) (conv : String) (seq : Int) :
    db.Edits (db.markConversationRead owner conv seq).2 := by
  unfold Db.markConversationRead
  split
  · exact ⟨_, _, rfl, Evolves.refl .refl _⟩
  · split_ifs
    · exact ⟨_, _, rfl, Evolves.refl .refl _⟩
    · exact ⟨_, _, rfl, Evolves.refl .refl _⟩
    · refine ⟨_, _, rfl, KeepsEntries.update (fun r => ?_) _⟩
      exact ⟨rfl, rfl, le_rfl⟩

theorem updateConversationSettings_edits {db db' : Db} {owner : Account} {conv : String}
    {pinned : Option Bool} {opt : Option Int} {b : Bool}
    (h : db.updateConversationSettings owner conv pinned opt = .ok (b, db')) : db.Edits db' := by
  unfold Db.updateConversationSettings at h
  split_ifs at h
  cases h
  refine ⟨_, _, rfl, KeepsEntries.update (fun r => ?_) _⟩
  exact ⟨rfl, rfl, le_rfl⟩

theorem deleteConversation_edits (db : Db) (owner : Account) (conv : String) :
    db.Edits (db.deleteConversation owner conv) := by
  unfold Db.deleteConversation
  split
  · exact ⟨_, _, rfl, Evolves.refl .refl _⟩
  · refine ⟨_, _, rfl, KeepsEntries.update (fun r => ?_) _⟩
    exact ⟨rfl, rfl, le_rfl⟩

/-- An owner has an entry of the conversation that knows the message number. -/
def Db.Entry (db : Db) (owner : Account) (conv : String) (seq : Int) : Prop :=
  ∃ r ∈ db.conversations, r.owner = owner ∧ r.conversation = conv ∧ seq ≤ r.maxSeq

theorem Db.Entry.of_keeps {db db' : Db} {owner : Account} {conv : String} {seq : Int}
    (h : db.Entry owner conv seq) (hk : KeepsEntries db.conversations db'.conversations) :
    db'.Entry owner conv seq := by
  obtain ⟨r, hr, h₁, h₂, h₃⟩ := h
  obtain ⟨r', hr', hk⟩ := hk r hr
  exact ⟨r', hr', hk.owner.trans h₁, hk.conversation.trans h₂, h₃.trans hk.maxSeq⟩

theorem upsertConversation_keeps (owner peer : Account) (conv : String) (seq time : Int)
    (latest : String) (t : List ConversationRow) :
    KeepsEntries t (upsertConversation owner peer conv seq time latest t) := by
  unfold upsertConversation upsert
  split_ifs
  · refine KeepsEntries.update (fun r => ?_) t
    exact ⟨rfl, rfl, le_max_left _ _⟩
  · exact Evolves.of_subset .refl (List.subset_append_left _ _)

theorem upsertConversation_entry (owner peer : Account) (conv : String) (seq time : Int)
    (latest : String) (t : List ConversationRow) :
    ∃ r ∈ upsertConversation owner peer conv seq time latest t,
      r.owner = owner ∧ r.conversation = conv ∧ seq ≤ r.maxSeq := by
  unfold upsertConversation upsert
  split_ifs with h
  · obtain ⟨r, hr, hp⟩ := List.any_eq_true.1 h
    simp only [Bool.and_eq_true, decide_eq_true_eq] at hp
    refine ⟨_, mem_updateWhere.2 ⟨r, hr, rfl⟩, ?_⟩
    rw [if_pos (by simp [hp])]
    exact ⟨hp.1, hp.2, le_max_right _ _⟩
  · exact ⟨_, List.mem_append_right _ (List.mem_singleton.2 rfl), rfl, rfl, le_rfl⟩

section
variable (db : Db) (m : MsgData) (latest : String)

/-- Recording a message changes entries, unread sets and the ghost list. -/
theorem recordConversationMessage_eq : ∃ cs us,
    db.recordConversationMessage m latest
      = { db with conversations := cs, unread := us, recorded := db.recorded ++ [m] } ∧
    KeepsEntries (upsertConversation m.recvID m.sendID m.convID m.seq m.sendTime latest
      (upsertConversation m.sendID m.recvID m.convID m.seq m.sendTime latest db.conversations)) cs := by
  unfold Db.recordConversationMessage
  dsimp only
  split_ifs
  · refine ⟨_, _, rfl, KeepsEntries.update (fun r => ?_) _⟩
    exact ⟨rfl, rfl, le_rfl⟩
  · exact ⟨_, _, rfl, Evolves.refl .refl _⟩

/-- **Recording a message** keeps the entries, and gives both owners one that
    knows the message. -/
theorem recordConversationMessage_entries :
    KeepsEntries db.conversations (db.recordConversationMessage m latest).conversations ∧
    (db.recordConversationMessage m latest).Entry m.sendID m.convID m.seq ∧
    (db.recordConversationMessage m latest).Entry m.recvID m.convID m.seq := by
  obtain ⟨cs, us, he, hk⟩ := recordConversationMessage_eq db m latest
  have hsend := upsertConversation_entry m.sendID m.recvID m.convID m.seq m.sendTime latest
    db.conversations
  have hkeep := upsertConversation_keeps m.recvID m.sendID m.convID m.seq m.sendTime latest
    (upsertConversation m.sendID m.recvID m.convID m.seq m.sendTime latest db.conversations)
  have hrecv := upsertConversation_entry m.recvID m.sendID m.convID m.seq m.sendTime latest
    (upsertConversation m.sendID m.recvID m.convID m.seq m.sendTime latest db.conversations)
  rw [he]
  refine ⟨?_, ?_, ?_⟩
  · have h₁ := upsertConversation_keeps m.sendID m.recvID m.convID m.seq m.sendTime latest
      db.conversations
    exact (h₁.trans (fun _ _ _ => .trans) hkeep).trans (fun _ _ _ => .trans) hk
  · obtain ⟨r, hr, h₁, h₂, h₃⟩ := hsend
    obtain ⟨r', hr', hk'⟩ := (hkeep.trans (fun _ _ _ => .trans) hk) r hr
    exact ⟨r', hr', hk'.owner.trans h₁, hk'.conversation.trans h₂, h₃.trans hk'.maxSeq⟩
  · obtain ⟨r, hr, h₁, h₂, h₃⟩ := hrecv
    obtain ⟨r', hr', hk'⟩ := hk r hr
    exact ⟨r', hr', hk'.owner.trans h₁, hk'.conversation.trans h₂, h₃.trans hk'.maxSeq⟩

end

/-- Only the receiver gets the message as unread. -/
theorem unread_record {db : Db} {m : MsgData} {latest : String} {u : UnreadRow}
    (hu : u ∈ (db.recordConversationMessage m latest).unread) :
    u ∈ db.unread ∨ u = ⟨m.recvID, m.convID, m.seq⟩ := by
  unfold Db.recordConversationMessage at hu
  dsimp only at hu
  split_ifs at hu
  · exact (List.mem_append.1 hu).imp_right List.mem_singleton.1
  · exact Or.inl hu

end ApeServer
