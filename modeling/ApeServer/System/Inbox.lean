/-
  The conversation tables are a view of the messages.

  What `im_conversations` and `im_conversation_unread` hold is determined by the
  messages recorded so far, the deletion watermarks and how far each owner has
  read.

  * `Db.talk`: the messages of a conversation; `Db.notes` is their log, as the
    owner sees it, and an entry is a box of `Inbox`;
  * `BookOk` is the invariant, `book_step` its step lemma;
  * `entries_show_messages`.
-/
import ApeServer.Lib.Inbox
import ApeServer.RecordOrder
import ApeServer.MarkRead
import ApeServer.System.Book
import ApeServer.System.Entries
import ApeServer.System.Recovery

namespace ApeServer

open Table Inbox

/-! ## The log of a conversation -/

/-- A message as a note for one of its sides. -/
def MsgData.note (J : Codec) (owner : Account) (m : MsgData) : Note Int (Int × Option String) :=
  ⟨m.seq, (m.sendTime, conversationSummary J m), m.recvID = owner⟩

/-- The recorded messages of a conversation of `owner` that are above the
    watermark of their pair. -/
def Db.talk (db : Db) (owner : Account) (conv : String) : Set MsgData :=
  {m | m ∈ db.recorded ∧ db.Above m.sendID m.recvID m.seq ∧ m.convID = conv ∧
    (m.sendID = owner ∨ m.recvID = owner)}

def Db.notes (J : Codec) (db : Db) (owner : Account) (conv : String) : Set (Note Int (Int × Option String)) :=
  {n | ∃ m ∈ db.talk owner conv, n = m.note J owner}

/-- What an entry shows, next to the unread rows. -/
def ConversationRow.box (r : ConversationRow) (us : List UnreadRow) : Box Int (Int × Option String) where
  last := r.maxSeq
  text := (r.latestTime, some r.latestMessage)
  read := r.readSeq
  hidden := r.isHidden = true
  unread := {s | ⟨r.owner, r.conversation, s⟩ ∈ us}

/-! ## The invariant -/

/-- No owner has hidden older messages, and the read position and the option are
    not negative. -/
structure ConversationRow.Plain (r : ConversationRow) : Prop where
  minSeq : r.minSeq = 0
  readSeq : 0 ≤ r.readSeq
  recvMsgOpt : 0 ≤ r.recvMsgOpt

/-- **The invariant**: an entry exists where there are messages, and shows
    them; unread rows are counted. -/
structure Db.BookOk (J : Codec) (db : Db) : Prop where
  counts : UnreadOk db.conversations db.unread
  isSome : ∀ o c, (db.conversation? o c).isSome = true ↔ (db.notes J o c).Nonempty
  plain : ∀ o c r, db.conversation? o c = some r → r.Plain
  view : ∀ o c r, db.conversation? o c = some r → View (db.notes J o c) (r.box db.unread)

section
variable {J : Codec} {db db' : Db} {m : MsgData} {latest : String} {o p : Account} {c : String}
  {r : ConversationRow}

theorem mem_notes {n : Note Int (Int × Option String)} : n ∈ db.notes J o c ↔
    ∃ m ∈ db.recorded, db.Above m.sendID m.recvID m.seq ∧ m.convID = c ∧
      (m.sendID = o ∨ m.recvID = o) ∧ n = m.note J o := by
  simp only [Db.notes, Db.talk, Set.mem_ofPred_eq, and_assoc]

theorem entry_of_some (h : db.conversation? o c = some r) : db.entry o p c = r := by
  rw [Db.entry, h]
  rfl

theorem Db.BookOk.notes_empty (h : db.BookOk J) (hn : db.conversation? o c = none) :
    db.notes J o c = ∅ := by
  rw [← Set.not_nonempty_iff_eq_empty, ← h.isSome, hn]
  simp

/-- An entry that is not there yet shows no message. -/
theorem Db.BookOk.entry (h : db.BookOk J) (o p : Account) (c : String) :
    (db.entry o p c).Plain ∧ View (db.notes J o c) ((db.entry o p c).box db.unread) := by
  cases hr : db.conversation? o c with
  | some r =>
    rw [entry_of_some hr]
    exact ⟨h.plain o c r hr, h.view o c r hr⟩
  | none =>
    have hnil : unreadOf o c db.unread = [] := by
      refine h.counts.unreadOf_nil fun r hr' hk => ?_
      have := List.find?_eq_none.1 hr r hr'
      simp [hk] at this
    rw [h.notes_empty hr, Db.entry, hr]
    refine ⟨⟨rfl, le_rfl, le_rfl⟩, View.empty le_rfl (Set.eq_empty_iff_forall_notMem.2 fun s hs => ?_) fun hh => ?_⟩
    · have hmem : (⟨o, c, s⟩ : UnreadRow) ∈ unreadOf o c db.unread := mem_unreadOf.2 ⟨hs, rfl, rfl⟩
      rw [hnil] at hmem
      cases hmem
    · cases hh

/-- The rows are changed in place, and still show what they have to. -/
theorem Db.BookOk.map (h : db.BookOk J) {f : Account → String → ConversationRow → ConversationRow}
    (hcounts : UnreadOk db'.conversations db'.unread) (hnotes : ∀ o c, db'.notes J o c = db.notes J o c)
    (hconv : ∀ o c, db'.conversation? o c = (db.conversation? o c).map (f o c))
    (hplain : ∀ o c r, db.conversation? o c = some r → r.Plain → (f o c r).Plain)
    (hview : ∀ o c r, db.conversation? o c = some r → View (db.notes J o c) (r.box db.unread) →
      View (db.notes J o c) ((f o c r).box db'.unread)) : db'.BookOk J := by
  refine ⟨hcounts, fun o c => ?_, fun o c r hr => ?_, fun o c r hr => ?_⟩
  · rw [hconv, hnotes, Option.isSome_map]
    exact h.isSome o c
  · rw [hconv] at hr
    obtain ⟨r₀, hr₀, rfl⟩ := Option.map_eq_some_iff.1 hr
    exact hplain o c r₀ hr₀ (h.plain o c r₀ hr₀)
  · rw [hconv] at hr
    obtain ⟨r₀, hr₀, rfl⟩ := Option.map_eq_some_iff.1 hr
    rw [hnotes]
    exact hview o c r₀ hr₀ (h.view o c r₀ hr₀)

/-- What an entry shows depends on its own unread rows. -/
theorem box_congr {us' : List UnreadRow} (us : List UnreadRow)
    (hu : ∀ s, ⟨r.owner, r.conversation, s⟩ ∈ us' ↔ ⟨r.owner, r.conversation, s⟩ ∈ us) :
    r.box us' = r.box us := Box.ext rfl rfl rfl rfl (Set.ext hu)

/-- The same tables and watermarks. -/
theorem Db.BookOk.congr (h : db.BookOk J) (hb : db.SameBook db')
    (ha : ∀ m ∈ db.recorded, db'.Above m.sendID m.recvID m.seq ↔ db.Above m.sendID m.recvID m.seq) :
    db'.BookOk J := by
  refine h.map (f := fun _ _ r => r) ?_ (fun o c => ?_) (fun o c => ?_) (fun _ _ _ _ h => h)
    fun o c r hr hv => ?_
  · rw [hb.conversations, hb.unread]
    exact h.counts
  · ext n
    rw [mem_notes, mem_notes, hb.recorded]
    exact exists_congr fun m => and_congr_right fun hm => and_congr_left fun _ => ha m hm
  · rw [Db.conversation?, hb.conversations, Option.map_id']
    rfl
  · rw [hb.unread]
    exact hv

/-! ### Recording a message -/

theorem recorded_record (db : Db) (m : MsgData) (latest : String) :
    (db.recordConversationMessage m latest).recorded = db.recorded ++ [m] ∧
      (db.recordConversationMessage m latest).deletions = db.deletions := by
  obtain ⟨cs, us, he, -⟩ := recordConversationMessage_eq db m latest
  rw [he]
  exact ⟨rfl, rfl⟩

theorem notes_record (ha : db.Above m.sendID m.recvID m.seq) (o : Account) (c : String) :
    (db.recordConversationMessage m latest).notes J o c =
      {n | n ∈ db.notes J o c ∨ (m.convID = c ∧ (m.sendID = o ∨ m.recvID = o) ∧ n = m.note J o)} := by
  obtain ⟨hrec, hdel⟩ := recorded_record db m latest
  ext n
  simp only [mem_notes, Set.mem_ofPred_eq, hrec, List.mem_append, List.mem_singleton, above_congr hdel]
  constructor
  · rintro ⟨m', hm | rfl, h⟩
    · exact Or.inl ⟨m', hm, h⟩
    · exact Or.inr h.2
  · rintro (⟨m', hm, h⟩ | h)
    · exact ⟨m', Or.inl hm, h⟩
    · exact ⟨m, Or.inr rfl, ha, h⟩

/-- The entry of a side after the message is recorded: its note has arrived. -/
theorem box_recorded (h : db.BookOk J) (hseq : 0 < m.seq) (hop : o ≠ p) (hm : Between o p c m)
    (hs : conversationSummary J m = some latest) :
    (db.recorded? o p m latest).box (db.recordConversationMessage m latest).unread =
      ((db.entry o p c).box db.unread).add (m.note J o) := by
  obtain ⟨howner, hconv⟩ := entry_key db o p c
  have hunread := @unread_between db o p c m latest h.counts.keys hseq hop hm
  have hmin := (h.entry o p c).1.minSeq
  unfold Db.recorded?
  rw [hm.convID]
  refine Box.ext rfl ?_ rfl (propext ?_) (Set.ext fun s => ?_)
  · show (_, some _) = if (db.entry o p c).maxSeq < m.seq then (_, conversationSummary J m) else _
    rw [hs]
    unfold ConversationRow.record
    split_ifs <;> rfl
  · show (if (db.entry o p c).maxSeq < m.seq then false else (db.entry o p c).isHidden) = true ↔
      (db.entry o p c).isHidden = true ∧ m.seq ≤ (db.entry o p c).maxSeq
    split_ifs with hlt
    · simp [hlt]
    · simp [not_lt.1 hlt]
  · show UnreadRow.mk (db.entry o p c).owner (db.entry o p c).conversation s ∈
        (db.recordConversationMessage m latest).unread ↔
      UnreadRow.mk (db.entry o p c).owner (db.entry o p c).conversation s ∈ db.unread ∨
        (m.recvID = o ∧ (db.entry o p c).readSeq < m.seq ∧ s = m.seq)
    rw [howner, hconv, hunread]
    -- a message that is in the set already does not arrive, but is unread as well
    by_cases hmem : (⟨o, c, s⟩ : UnreadRow) ∈ db.unread
    · simp [hmem]
    · simp only [hmem, false_or, Db.Arrives, hmin, hm.convID]
      constructor
      · rintro ⟨⟨h₁, h₂, -, -⟩, rfl⟩
        exact ⟨h₁, h₂, rfl⟩
      · rintro ⟨h₁, h₂, rfl⟩
        exact ⟨⟨h₁, h₂, hseq, hmem⟩, rfl⟩

/-- What recording a message does for one owner: its note arrives, or nothing
    changes. -/
theorem Db.BookOk.record_cases (h : db.BookOk J) (hseq : 0 < m.seq) (hne : m.sendID ≠ m.recvID)
    (ha : db.Above m.sendID m.recvID m.seq) (latest : String) (o : Account) (c : String) :
    (∃ p, o ≠ p ∧ Between o p c m ∧
      (db.recordConversationMessage m latest).notes J o c = insert (m.note J o) (db.notes J o c)) ∨
    ((db.recordConversationMessage m latest).conversation? o c = db.conversation? o c ∧
      (∀ s, ⟨o, c, s⟩ ∈ (db.recordConversationMessage m latest).unread ↔ ⟨o, c, s⟩ ∈ db.unread) ∧
      (db.recordConversationMessage m latest).notes J o c = db.notes J o c) := by
  have hkeys : db.EntryKeys := h.counts.keys
  by_cases ho : m.convID = c ∧ (m.sendID = o ∨ m.recvID = o)
  · have hlog : (db.recordConversationMessage m latest).notes J o c =
        insert (m.note J o) (db.notes J o c) := by
      rw [notes_record ha]
      ext n
      simp only [Set.mem_ofPred_eq, Set.mem_insert_iff, ho, true_and]
      exact or_comm
    obtain ⟨hc, rfl | rfl⟩ := ho
    · exact Or.inl ⟨m.recvID, hne, ⟨hc, Or.inl ⟨rfl, rfl⟩⟩, hlog⟩
    · exact Or.inl ⟨m.sendID, hne.symm, ⟨hc, Or.inr ⟨rfl, rfl⟩⟩, hlog⟩
  · have hs : ¬ (o = m.sendID ∧ c = m.convID) := fun h => ho ⟨h.2.symm, Or.inl h.1.symm⟩
    have hr : ¬ (o = m.recvID ∧ c = m.convID) := fun h => ho ⟨h.2.symm, Or.inr h.1.symm⟩
    refine Or.inr ⟨?_, fun s => ?_, ?_⟩
    · rw [conversation?_record hkeys hseq hne, if_neg hs, if_neg hr]
    · rw [mem_unread_record hkeys hseq hne, UnreadRow.mk.injEq]
      exact or_iff_left fun ⟨_, h₁, h₂, _⟩ => hr ⟨h₁, h₂⟩
    · rw [notes_record ha]
      ext n
      exact or_iff_left fun ⟨h₁, h₂, _⟩ => ho ⟨h₁, h₂⟩

/-- **A message is recorded.** -/
theorem Db.BookOk.record (h : db.BookOk J) (hseq : 0 < m.seq) (hne : m.sendID ≠ m.recvID)
    (ha : db.Above m.sendID m.recvID m.seq) (hs : conversationSummary J m = some latest) :
    (db.recordConversationMessage m latest).BookOk J := by
  have hkeys : db.EntryKeys := h.counts.keys
  refine ⟨unreadOk_record h.counts hseq latest, fun o c => ?_, fun o c r hr => ?_, fun o c r hr => ?_⟩
  · rcases h.record_cases hseq hne ha latest o c with ⟨p, hop, hm, hlog⟩ | ⟨hconv, -, hlog⟩
    · rw [conversation?_between latest hkeys hseq hop hm, hlog]
      exact iff_of_true rfl (Set.insert_nonempty _ _)
    · rw [hconv, hlog]
      exact h.isSome o c
  · rcases h.record_cases hseq hne ha latest o c with ⟨p, hop, hm, -⟩ | ⟨hconv, -, -⟩
    · rw [conversation?_between latest hkeys hseq hop hm] at hr
      cases hr
      have hc := hm.convID
      subst hc
      obtain ⟨hmin, hread, hopt⟩ := (h.entry o p m.convID).1
      exact ⟨hmin, hread, hopt⟩
    · rw [hconv] at hr
      exact h.plain o c r hr
  · rcases h.record_cases hseq hne ha latest o c with ⟨p, hop, hm, hlog⟩ | ⟨hconv, hunread, hlog⟩
    · rw [conversation?_between latest hkeys hseq hop hm] at hr
      cases hr
      rw [box_recorded h hseq hop hm hs, hlog]
      refine (h.entry o p c).2.add fun hempty => ?_
      -- the first message of the conversation
      have hnone : db.conversation? o c = none := by
        have := mt (h.isSome o c).1 (Set.not_nonempty_iff_eq_empty.2 hempty)
        simpa using this
      rw [Db.entry, hnone]
      exact hseq
    · rw [hconv] at hr
      obtain ⟨-, ho, hc⟩ := mem_of_conversation? hr
      rw [box_congr db.unread (by rw [ho, hc]; exact hunread), hlog]
      exact h.view o c r hr

/-! ### The requests of an owner -/

/-- An update of one entry that removes some of its unread rows. -/
theorem Db.BookOk.update (h : db.BookOk J) {q : UnreadRow → Bool} {f : ConversationRow → ConversationRow}
    (hq : ∀ u, q u = true → u.owner = o ∧ u.conversation = c)
    (hf : ∀ r : ConversationRow, (f r).owner = r.owner ∧ (f r).conversation = r.conversation)
    (hplain : ∀ r, db.conversation? o c = some r → r.Plain → (f r).Plain)
    (hdb : db' = Db.updateConversation { db with unread := deleteWhere q db.unread } o c f)
    (hcounts : UnreadOk db'.conversations db'.unread)
    (hview : ∀ r, db.conversation? o c = some r → View (db.notes J o c) (r.box db.unread) →
      View (db.notes J o c) ((f r).box (deleteWhere q db.unread))) : db'.BookOk J := by
  subst hdb
  refine h.map hcounts (fun _ _ => rfl) (fun o' c' => conversation?_update hf _ o' c')
    (fun o' c' r hr hp => ?_) fun o' c' r hr hv => ?_
  · split_ifs with hk
    · obtain ⟨rfl, rfl⟩ := hk
      exact hplain r hr hp
    · exact hp
  · split_ifs with hk
    · obtain ⟨rfl, rfl⟩ := hk
      exact hview r hr hv
    · obtain ⟨-, ho, hc⟩ := mem_of_conversation? hr
      rw [box_congr db.unread]
      · exact hv
      · intro s
        rw [ho, hc]
        refine mem_deleteWhere.trans (and_iff_left_of_imp fun _ => Bool.eq_false_iff.2 fun hqs => hk ?_)
        exact hq _ hqs

/-- The box of an entry that is read up to a later position. -/
theorem box_read {us : List UnreadRow} {seq : Int} (hle : r.readSeq ≤ seq) (n : ℕ) :
    ({ r with readSeq := seq, unreadCount := n } : ConversationRow).box
      (deleteWhere (readRow r.owner r.conversation seq) us) = (r.box us).readTo seq := by
  refine Box.ext rfl rfl (max_eq_right hle).symm rfl (Set.ext fun s => ?_)
  show UnreadRow.mk r.owner r.conversation s ∈ deleteWhere _ us ↔ _ ∈ us ∧ _
  rw [mem_deleteWhere]
  simp [readRow]

/-- The box of an entry that is hidden. -/
theorem box_hide (r : ConversationRow) (us : List UnreadRow) :
    ({ r with isHidden := true, readSeq := r.maxSeq, unreadCount := 0 } : ConversationRow).box
      (deleteWhere (fun u => u.owner = r.owner && u.conversation = r.conversation) us) = (r.box us).hide := by
  refine Box.ext rfl rfl rfl (propext (iff_of_true rfl trivial)) (Set.ext fun s => ?_)
  show UnreadRow.mk r.owner r.conversation s ∈ deleteWhere _ us ↔ s ∈ ∅
  rw [mem_deleteWhere]
  simp

/-- **Marking as read.** -/
theorem Db.BookOk.markRead (h : db.BookOk J) (o : Account) (c : String) (seq : Int) :
    (db.markConversationRead o c seq).2.BookOk J := by
  cases hv : db.validSeq o c seq with
  | false =>
    rw [markConversationRead_invalid hv]
    exact h
  | true =>
    obtain ⟨r, hr, hpos, hle⟩ := validSeq_iff.1 hv
    have hcounts := unreadOk_markRead h.counts o c seq
    have hrow : ∀ r, db.conversation? o c = some r → r.Counts (unreadOf o c db.unread) := by
      intro r hr
      obtain ⟨hmem, rfl, rfl⟩ := mem_of_conversation? hr
      exact h.counts.row r hmem
    rw [markConversationRead_valid ⟨h.counts.keys, hrow⟩ hr hpos hle] at hcounts ⊢
    refine h.update (fun u hu => ?_) (by intro r; exact ⟨rfl, rfl⟩) (fun r' hr' hp => ?_) rfl hcounts
      fun r' hr' hold => ?_
    · simp only [readRow, Bool.and_eq_true, decide_eq_true_eq] at hu
      exact hu.1
    · exact ⟨hp.minSeq, hpos.le.trans (le_max_right _ _), hp.recvMsgOpt⟩
    · rw [hr] at hr'
      cases hr'
      obtain ⟨-, rfl, rfl⟩ := mem_of_conversation? hr
      rw [box_read (le_max_left _ _)]
      exact hold.readTo (max_le (hrow r hr).read hle)

/-- **Changing the settings.** -/
theorem Db.BookOk.settings (h : db.BookOk J) {pinned : Option Bool} {opt : Option Int} {b : Bool}
    (hs : db.updateConversationSettings o c pinned opt = .ok (b, db')) : db'.BookOk J := by
  have hcounts := unreadOk_settings h.counts hs
  unfold Db.updateConversationSettings at hs
  split_ifs at hs with hbad
  cases hs
  refine h.map (f := fun _ _ r => if r.owner = o && r.conversation = c && r.isHidden = false then
    { r with isPinned := pinned.getD r.isPinned, recvMsgOpt := opt.getD r.recvMsgOpt } else r)
    hcounts (fun _ _ => rfl) (fun o' c' => ?_) (fun o' c' r _ hp => ?_) fun o' c' r _ hv => ?_
  · unfold Db.conversation?
    rw [find?_updateWhere]
    intro r _
    rfl
  · split_ifs
    · refine ⟨hp.minSeq, hp.readSeq, ?_⟩
      cases opt with
      | none => exact hp.recvMsgOpt
      | some n =>
        have hn : ¬ (n < 0 ∨ 1 < n) := by simpa using (not_or.1 hbad).2
        exact not_lt.1 (not_or.1 hn).1
    · exact hp
  · split_ifs
    · exact hv
    · exact hv

/-- **Deleting a conversation.** -/
theorem Db.BookOk.delete (h : db.BookOk J) (o : Account) (c : String) :
    (db.deleteConversation o c).BookOk J := by
  have hcounts := unreadOk_delete h.counts o c
  unfold Db.deleteConversation at hcounts ⊢
  cases hr : db.conversation? o c with
  | none => exact h
  | some r =>
    rw [hr] at hcounts
    refine h.update (fun u hu => ?_) (by intro r; exact ⟨rfl, rfl⟩) (fun r' hr' hp => ?_) rfl hcounts
      fun r' hr' hold => ?_
    · simpa using hu
    · have hrow := h.counts.row r' (mem_of_conversation? hr').1
      exact ⟨hp.minSeq, hp.readSeq.trans hrow.read, hp.recvMsgOpt⟩
    · obtain ⟨-, rfl, rfl⟩ := mem_of_conversation? hr'
      rw [box_hide]
      exact hold.hide

/-! ### The end of a conversation -/

theorem conversation?_deletePair (db : Db) (conv : String) (o : Account) (c : String) :
    (db.deleteConversationPair conv).conversation? o c = if c = conv then none else db.conversation? o c := by
  unfold Db.conversation? Db.deleteConversationPair deleteWhere
  rw [List.find?_filter]
  split_ifs with hc
  · subst hc
    rw [List.find?_eq_none]
    intro r _
    by_cases hr : r.conversation = c
    · simp [hr]
    · simp [hr]
  · congr 1
    funext r
    by_cases hr : r.conversation = c
    · simp [hr, hc]
    · simp [hr]

/-- **A conversation is dropped**, and none of its messages is live any more. -/
theorem Db.BookOk.drop (h : db.BookOk J) {conv : String} (hb : (db.deleteConversationPair conv).SameBook db')
    (hdead : ∀ m ∈ db.recorded, m.convID = conv → ¬ db'.Above m.sendID m.recvID m.seq)
    (hlive : ∀ m ∈ db.recorded, m.convID ≠ conv →
      (db'.Above m.sendID m.recvID m.seq ↔ db.Above m.sendID m.recvID m.seq)) : db'.BookOk J := by
  have hrec : db'.recorded = db.recorded := hb.recorded
  have hconv : ∀ o c, db'.conversation? o c = if c = conv then none else db.conversation? o c := by
    intro o c
    rw [← conversation?_deletePair, Db.conversation?, hb.conversations]
    rfl
  have hself : ∀ o, db'.notes J o conv = ∅ := by
    intro o
    rw [Set.eq_empty_iff_forall_notMem]
    rintro n hn
    obtain ⟨m, hm, ha, hc, -⟩ := mem_notes.1 hn
    exact hdead m (hrec ▸ hm) hc ha
  have hother : ∀ o c, c ≠ conv → db'.notes J o c = db.notes J o c := by
    intro o c hc
    ext n
    rw [mem_notes, mem_notes, hrec]
    refine exists_congr fun m => and_congr_right fun hm => ?_
    constructor
    · rintro ⟨ha, rfl, h⟩
      exact ⟨(hlive m hm hc).1 ha, rfl, h⟩
    · rintro ⟨ha, rfl, h⟩
      exact ⟨(hlive m hm hc).2 ha, rfl, h⟩
  refine ⟨?_, fun o c => ?_, fun o c r hr => ?_, fun o c r hr => ?_⟩
  · rw [hb.conversations, hb.unread]
    exact unreadOk_deletePair h.counts conv
  · rw [hconv]
    split_ifs with hc
    · rw [hc, hself]
      simp
    · rw [hother o c hc]
      exact h.isSome o c
  · rw [hconv] at hr
    split_ifs at hr
    exact h.plain o c r hr
  · rw [hconv] at hr
    split_ifs at hr with hc
    obtain ⟨-, ho, hrc⟩ := mem_of_conversation? hr
    rw [hother o c hc, box_congr db.unread]
    · exact h.view o c r hr
    · intro s
      rw [hb.unread]
      refine mem_deleteWhere.trans (and_iff_left ?_)
      simpa [hrc] using hc

end

/-! ## Runs -/

section
variable {J : Codec} {w w' : World} {es : List Event}

/-- The messages of the conversation of a pair are those between the two. -/
theorem isPair_of_convID (hI : Inv J w) (hk : ∀ m ∈ w.db.recorded, m ∈ w.stamped) {m : MsgData}
    (hm : m ∈ w.db.recorded) {a b : Account} :
    m.convID = conversationId a b ↔ IsPair a b m.sendID m.recvID := by
  rw [(hI.ids.stamped m (hk m hm)).conv]
  constructor
  · exact conversationId_inj
  · rintro (⟨h₁, h₂⟩ | ⟨h₁, h₂⟩)
    · rw [h₁, h₂]
    · rw [h₁, h₂, conversationId_comm]

/-- The deletion of a friendship is above all that was recorded. -/
theorem book_unfriend (hI : Inv J w) (hk : ∀ m ∈ w.db.recorded, m ∈ w.stamped) (h : w.db.BookOk J)
    {a b : Account} {seq : ℕ} (hs : w.lastId < seq)
    (hb : (w.db.deleteConversationPair (conversationId a b)).SameBook w'.db)
    (hd : ∀ x y, IsPair a b x y → w'.db.deletedSeq? x y = some seq)
    (hd' : ∀ x y, ¬ IsPair a b x y → w'.db.deletedSeq? x y = w.db.deletedSeq? x y) : w'.db.BookOk J := by
  refine h.drop hb (fun m hm hc ha => ?_) fun m hm hc => ?_
  · have hlt := ha seq (hd _ _ ((isPair_of_convID hI hk hm).1 hc))
    have hle := (hI.ids.stamped m (hk m hm)).le
    omega
  · have he := hd' _ _ (mt (isPair_of_convID hI hk hm).2 hc)
    unfold Db.Above
    rw [he]

/-- Two who are no friends have no live messages. -/
theorem book_clear (hI : Inv J w) (hE : w.db.EntriesOk) (h : w.db.BookOk J) {a b : Account} (hn : ¬ w.db.Friend a b)
    (hb : (w.db.deleteConversationPair (conversationId a b)).SameBook w'.db)
    (hd : w'.db.deletions = w.db.deletions) : w'.db.BookOk J := by
  refine h.drop hb (fun m hm hc ha => hn ?_) fun m _ _ => above_congr hd
  -- a live message has an entry, which is one of friends
  have hnotes : (w.db.notes J m.sendID m.convID).Nonempty :=
    ⟨_, mem_notes.2 ⟨m, hm, (above_congr hd).1 ha, rfl, Or.inl rfl, rfl⟩⟩
  obtain ⟨r, hr⟩ := Option.isSome_iff_exists.1 ((h.isSome _ _).2 hnotes)
  obtain ⟨hmem, -, hrc⟩ := mem_of_conversation? hr
  obtain ⟨hproper, hf⟩ := hE.friend _ (List.mem_map_of_mem hmem)
  have hp : IsPair a b r.owner r.peer := conversationId_inj (hproper.symm.trans (hrc.trans hc))
  rcases hp with ⟨h₁, h₂⟩ | ⟨h₁, h₂⟩
  · rw [← h₁, ← h₂]
    exact hf
  · rw [← h₁, ← h₂]
    exact hI.friends.symm _ _ hf

theorem book_step {a : Action} (hI : Inv J w) (hE : w.db.EntriesOk) (hk : ∀ m ∈ w.db.recorded, m ∈ w.stamped)
    (hB : w.db.BookOk J) (h : step J w a = some (w', es)) :
    (∀ m ∈ w'.db.recorded, m ∈ w'.stamped) ∧ w'.db.BookOk J := by
  have hgrow : w.stamped ⊆ w'.stamped := (grows_of_move hI (step_move h)).stamped
  have hkeep : w'.db.recorded = w.db.recorded → ∀ m ∈ w'.db.recorded, m ∈ w'.stamped := by
    intro he m hm
    exact hgrow (hk m (he ▸ hm))
  rcases step_book h with ⟨hb, hd⟩ | ⟨k, r, m, latest, hkw, hr, hs, hb, hd⟩ | ⟨o, c, seq, he⟩ |
    ⟨o, c, pinned, opt, b, he⟩ | ⟨o, c, he⟩ | ⟨x, y, seq, hs, hb, hd, hd'⟩ | ⟨x, y, hn, hb, hd⟩
  · exact ⟨hkeep hb.recorded, hB.congr hb fun _ _ => above_congr hd⟩
  · obtain ⟨r₀, hW⟩ := hI.calls.worker k hkw
    obtain ⟨hst, hm⟩ := hW.ready hr
    have hfriend : w.db.Friend k.task.actor k.task.peer := friend_of_allows hI.friends hr.allowed
    have hne := hI.friends.apart _ _ hfriend
    rw [← hW.actor, ← hW.peer, hm.actor, hm.peer] at hne
    obtain ⟨hrec, hdel⟩ := recorded_record w.db m latest
    refine ⟨fun m' hm' => ?_, ?_⟩
    · rw [hb.recorded, hrec] at hm'
      rcases List.mem_append.1 hm' with hm' | hm'
      · exact hgrow (hk m' hm')
      · rw [List.mem_singleton.1 hm']
        exact hgrow hst
    · refine (hB.record (hI.ids.stamped m hst).pos hne (hr.above hI hkw) hs).congr hb fun _ _ => ?_
      exact above_congr (hd.trans hdel.symm)
  · rw [he]
    have hrec : (w.db.markConversationRead o c seq).2.recorded = w.db.recorded := by
      obtain ⟨cs, us, he, -⟩ := markConversationRead_edits w.db o c seq
      rw [he]
    exact ⟨he ▸ hkeep (by rw [he, hrec]), hB.markRead o c seq⟩
  · have hrec : w'.db.recorded = w.db.recorded := by
      obtain ⟨cs, us, he, -⟩ := updateConversationSettings_edits he
      rw [he]
    exact ⟨hkeep hrec, hB.settings he⟩
  · have hrec : w'.db.recorded = w.db.recorded := by
      obtain ⟨cs, us, he', -⟩ := deleteConversation_edits w.db o c
      rw [he, he']
    exact ⟨hkeep hrec, he ▸ hB.delete o c⟩
  · exact ⟨hkeep hb.recorded, book_unfriend hI hk hB hs hb hd hd'⟩
  · exact ⟨hkeep hb.recorded, book_clear hI hE hB hn hb hd⟩

theorem book_trace (T : SysTrace J) {i : ℕ} (hi : i ≤ T.len) : (T.state i).db.BookOk J := by
  refine (T.invariant (P := fun w => Inv J w ∧ w.db.EntriesOk ∧ (∀ m ∈ w.db.recorded, m ∈ w.stamped) ∧
    w.db.BookOk J) ?_ (fun _ _ _ _ h hs => ?_) hi).2.2.2
  · refine ⟨inv_start J, ⟨?_, ?_, ?_⟩, ?_, ⟨⟨?_, ?_, ?_, ?_⟩, ?_, ?_, ?_⟩⟩
    all_goals simp [start, Db.keys, Db.conversation?, Db.notes, Db.talk]
  · obtain ⟨hI, hE, hk, hB⟩ := h
    exact ⟨inv_step hI hs, entries_step hI hE hs, book_step hI hE hk hB hs⟩

theorem conversation?_of_mem {db : Db} (h : UnreadOk db.conversations db.unread) {r : ConversationRow}
    (hr : r ∈ db.conversations) : db.conversation? r.owner r.conversation = some r := by
  obtain ⟨r', hr'⟩ : ∃ r', db.conversation? r.owner r.conversation = some r' := by
    refine Option.isSome_iff_exists.1 (List.find?_isSome.2 ⟨r, hr, ?_⟩)
    simp
  obtain ⟨hmem, ho, hc⟩ := mem_of_conversation? hr'
  rw [hr', eq_of_key h.keys hmem hr (Prod.ext ho hc)]

/-- The unread rows of an entry are as many as their positions. -/
theorem ncard_unread (owner : Account) (conv : String) {us : List UnreadRow} (h : us.Nodup) :
    {s | ⟨owner, conv, s⟩ ∈ us}.ncard = (unreadOf owner conv us).length := by
  have hset : {s | (⟨owner, conv, s⟩ : UnreadRow) ∈ us} =
      (((unreadOf owner conv us).map (·.seq)).toFinset : Set Int) := by
    ext s
    simp only [Set.mem_ofPred_eq, List.coe_toFinset, List.mem_map, mem_unreadOf]
    constructor
    · intro hs
      exact ⟨_, ⟨hs, rfl, rfl⟩, rfl⟩
    · rintro ⟨u, ⟨hu, rfl, rfl⟩, rfl⟩
      exact hu
  have hnodup : ((unreadOf owner conv us).map (·.seq)).Nodup := by
    refine List.Nodup.map_on (fun u hu v hv he => ?_) (h.filter _)
    obtain ⟨-, ho, hc⟩ := mem_unreadOf.1 hu
    obtain ⟨-, ho', hc'⟩ := mem_unreadOf.1 hv
    cases u
    cases v
    simp_all
  rw [hset, Set.ncard_coe_finset, List.toFinset_card_of_nodup hnodup, List.length_map]

/-! ## Entries and messages -/

section
variable {db : Db} {o : Account} {c : String} {r : ConversationRow}

theorem notes_nonempty : (db.notes J o c).Nonempty ↔ (db.talk o c).Nonempty := by
  constructor
  · rintro ⟨n, m, hm, -⟩
    exact ⟨m, hm⟩
  · rintro ⟨m, hm⟩
    exact ⟨_, m, hm, rfl⟩

/-- There is an entry where there are messages. -/
theorem Db.BookOk.exists_row (h : db.BookOk J) :
    (∃ r ∈ db.conversations, r.owner = o ∧ r.conversation = c) ↔ (db.talk o c).Nonempty := by
  rw [← notes_nonempty, ← h.isSome, Option.isSome_iff_exists]
  constructor
  · rintro ⟨r, hr, rfl, rfl⟩
    exact ⟨r, conversation?_of_mem h.counts hr⟩
  · rintro ⟨r, hr⟩
    exact ⟨r, mem_of_conversation? hr⟩

theorem Db.BookOk.row_view (h : db.BookOk J) (hr : r ∈ db.conversations) :
    View (db.notes J r.owner r.conversation) (r.box db.unread) :=
  h.view _ _ r (conversation?_of_mem h.counts hr)

/-- The message that an entry shows. -/
theorem Db.BookOk.last (h : db.BookOk J) (hr : r ∈ db.conversations) :
    ∃ m ∈ db.talk r.owner r.conversation, m.seq = r.maxSeq ∧ m.sendTime = r.latestTime ∧
      conversationSummary J m = some r.latestMessage := by
  have hne : (db.notes J r.owner r.conversation).Nonempty := by
    rw [notes_nonempty, ← h.exists_row]
    exact ⟨r, hr, rfl, rfl⟩
  obtain ⟨n, ⟨m, hm, rfl⟩, hpos, htext⟩ := (h.row_view hr).last hne
  obtain ⟨ht, hs⟩ := Prod.mk.inj htext
  exact ⟨m, hm, hpos, ht, hs⟩

theorem Db.BookOk.le_maxSeq (h : db.BookOk J) (hr : r ∈ db.conversations) :
    ∀ m ∈ db.talk r.owner r.conversation, m.seq ≤ r.maxSeq :=
  fun m hm => (h.row_view hr).top _ ⟨m, hm, rfl⟩

/-- What is unread of an entry. -/
theorem Db.BookOk.mem_unread (h : db.BookOk J) (hr : r ∈ db.conversations) (s : Int) :
    ⟨r.owner, r.conversation, s⟩ ∈ db.unread ↔
      ∃ m ∈ db.talk r.owner r.conversation, m.recvID = r.owner ∧ m.seq = s ∧ r.readSeq < s := by
  refine ((h.row_view hr).unread s).trans ?_
  constructor
  · rintro ⟨hlt, n, ⟨m, hm, rfl⟩, hin, rfl⟩
    exact ⟨m, hm, hin, rfl, hlt⟩
  · rintro ⟨m, hm, hin, rfl, hlt⟩
    exact ⟨hlt, _, ⟨m, hm, rfl⟩, hin, rfl⟩

theorem Db.BookOk.count (h : db.BookOk J) (hr : r ∈ db.conversations) :
    r.unreadCount = {s | ∃ m ∈ db.talk r.owner r.conversation, m.recvID = r.owner ∧ m.seq = s ∧ r.readSeq < s}.ncard := by
  rw [(h.counts.row r hr).count, ← ncard_unread r.owner r.conversation h.counts.nodup]
  exact congrArg Set.ncard (Set.ext (h.mem_unread hr))

/-- A hidden entry counts nothing. -/
theorem Db.BookOk.count_hidden (h : db.BookOk J) (hr : r ∈ db.conversations) (hh : r.isHidden = true) :
    r.readSeq = r.maxSeq ∧ r.unreadCount = 0 := by
  have hnone : {s | ⟨r.owner, r.conversation, s⟩ ∈ db.unread} = ∅ := (h.row_view hr).unread_of_hidden hh
  refine ⟨(h.row_view hr).hidden hh, ?_⟩
  rw [(h.counts.row r hr).count, ← ncard_unread r.owner r.conversation h.counts.nodup, hnone]
  exact Set.ncard_empty _

end

/-- **The conversation tables are a view of the messages.**  In every state of
    every run an owner has an entry of a conversation exactly if a recorded
    message of it is above the watermark of its pair.  The entry shows number,
    time and summary of the last one of them, counts as unread those addressed
    to its owner that are above the read position, and counts none while it is
    hidden.  Runs draw increasing ids (`SysTrace`). -/
theorem entries_show_messages (J : Codec) (T : SysTrace J) : ∀ i ≤ T.len, ∀ owner conv,
    ((∃ r ∈ (T.state i).db.conversations, r.owner = owner ∧ r.conversation = conv) ↔
      ((T.state i).db.talk owner conv).Nonempty) ∧
    ∀ r ∈ (T.state i).db.conversations, r.owner = owner → r.conversation = conv →
      (∃ m ∈ (T.state i).db.talk owner conv, m.seq = r.maxSeq ∧ m.sendTime = r.latestTime ∧
        conversationSummary J m = some r.latestMessage) ∧
      (∀ m ∈ (T.state i).db.talk owner conv, m.seq ≤ r.maxSeq) ∧
      r.readSeq ≤ r.maxSeq ∧
      (∀ s, ⟨owner, conv, s⟩ ∈ (T.state i).db.unread ↔
        ∃ m ∈ (T.state i).db.talk owner conv, m.recvID = owner ∧ m.seq = s ∧ r.readSeq < s) ∧
      r.unreadCount =
        {s | ∃ m ∈ (T.state i).db.talk owner conv, m.recvID = owner ∧ m.seq = s ∧ r.readSeq < s}.ncard ∧
      (r.isHidden = true → r.readSeq = r.maxSeq ∧ r.unreadCount = 0) := by
  intro i hi owner conv
  have hB := book_trace T hi
  refine ⟨hB.exists_row, ?_⟩
  rintro r hr rfl rfl
  exact ⟨hB.last hr, hB.le_maxSeq hr, (hB.counts.row r hr).read, hB.mem_unread hr, hB.count hr, hB.count_hidden hr⟩

end

/-- The recipient, who is offline, has the dispatched message unread. -/
theorem entries_show_messages_dispatch :
    ∃ r ∈ (dispatchRun.state 16).db.conversations, r.owner = 2 ∧ r.conversation = "1_2" ∧
      (∃ m ∈ (dispatchRun.state 16).db.talk 2 "1_2", m.recvID = 2 ∧ m.seq = 5) ∧
      {s | ∃ m ∈ (dispatchRun.state 16).db.talk 2 "1_2", m.recvID = 2 ∧ m.seq = s ∧ r.readSeq < s}.ncard = 1 := by
  have hentry : ∃ r ∈ (dispatchRun.state 16).db.conversations, r.owner = 2 ∧ r.conversation = "1_2" ∧
      r.unreadCount = 1 := by decide +kernel
  have hfive : (⟨2, "1_2", 5⟩ : UnreadRow) ∈ (dispatchRun.state 16).db.unread := by decide +kernel
  obtain ⟨r, hr, ho, hc, hcount⟩ := hentry
  obtain ⟨-, -, -, hunread, hncard, -⟩ :=
    (entries_show_messages (helloCodec 0) dispatchRun 16 (by decide) 2 "1_2").2 r hr ho hc
  obtain ⟨m, hm, hin, hseq, -⟩ := (hunread 5).1 hfive
  exact ⟨r, hr, ho, hc, ⟨m, hm, hin, hseq⟩, hncard.symm.trans hcount⟩

end ApeServer
