/-
  Unread accounting: the counters of `im_conversations` against the rows of
  `im_conversation_unread`, under every operation that writes to them and under
  `scripts/migrate_conversations.py`.

  * `Db.migrateConversation`: the import of one legacy record, which is one
    transaction;
  * `ConvOp`, `Db.convStep`: the operations;
  * `UnreadOk` is the invariant, `Continues` what happens to the rows, and
    `convStep_spec` what one operation does;
  * `unread_accounting`.
-/
import ApeServer.Lib.Run
import ApeServer.Conversations
import ApeServer.Stores
import ApeServer.Outbox

namespace ApeServer

open Table

/-! ## The import -/

/-- A document of the old `conversations` collection, with the defaults of the
    script. -/
structure LegacyConversation where
  ownerUserID : Account
  userID : Account
  conversationID : String
  isPinned : Bool := false
  recvMsgOpt : Int := 0
  minSeq : Int := 0
  readSeq : Int := 0
deriving DecidableEq, Repr

/-- The messages of a conversation above `after`; one without `committed` counts
    as committed. -/
def legacyMessages (conv : String) (after : Int) (docs : List Doc) : List Doc :=
  docs.filter fun d => d.convID = conv && d.isGroupMsg = false && d.committed ≠ false && after < d.seq

/-- `INSERT IGNORE INTO im_conversation_unread`, row by row. -/
def insertUnread (owner : Account) (conv : String) (seqs : List Int) (t : List UnreadRow) :
    List UnreadRow :=
  seqs.foldl (fun t seq => insertNew (fun u => u.owner = owner && u.conversation = conv && u.seq = seq)
    ⟨owner, conv, seq⟩ t) t

/-- The loop body of `migrate`; `summary` is the JSON text of its function
    `summary`.  A record that is skipped changes nothing. -/
def Db.migrateConversation (summary : Option Doc → String) (docs : List Doc)
    (record : LegacyConversation) (db : Db) : Db :=
  let owner := record.ownerUserID
  let peer := record.userID
  let conv := record.conversationID
  if conv ≠ conversationId owner peer ∨ owner = peer then db
  else if db.friendCount owner peer ≠ 2 then db
  else
    let minimum := max record.minSeq (((db.deletedSeq? owner peer).map Int.ofNat).getD 0)
    let latest := firstBy (fun d d' => d'.seq < d.seq) (legacyMessages conv minimum docs)
    let maximum := (latest.map (·.seq)).getD 0
    let read := min maximum (max 0 record.readSeq)
    if db.conversations.any fun r => r.owner = owner && r.conversation = conv then db
    else
      let unread := insertUnread owner conv
        (((legacyMessages conv (max read minimum) docs).filter fun d => d.recvID = asInt64 owner).map (·.seq))
        db.unread
      { db with
        unread := unread
        conversations := db.conversations ++
          [{ owner := owner, conversation := conv, peer := peer, isPinned := record.isPinned,
             recvMsgOpt := record.recvMsgOpt, minSeq := minimum, maxSeq := maximum, readSeq := read,
             latestTime := (latest.map (·.sendTime)).getD 0, latestMessage := summary latest
             unreadCount := (unread.filter fun u => u.owner = owner && u.conversation = conv).length }] }

/-! ## The operations -/

/-- What writes to conversations: `RecordConversationMessage`, the requests of
    an owner, `DeleteConversationPair`, the import of a record, and any change
    of the tables of friends. -/
inductive ConvOp where
  | record (m : MsgData)
  | markRead (owner : Account) (conv : String) (seq : Int)
  | updateSettings (owner : Account) (conv : String) (pinned : Option Bool) (recvMsgOpt : Option Int)
  | deleteConversation (owner : Account) (conv : String)
  | deletePair (conv : String)
  | migrate (docs : List Doc) (record : LegacyConversation)
  | friends (friends : List FriendRow) (deletions : List DeletionRow)
deriving DecidableEq, Repr

/-- One operation; one that throws is rolled back. -/
def Db.convStep (J : Codec) (summary : Option Doc → String) (db : Db) : ConvOp → Option (Db × List Unit)
  | .record m =>
    if m.isGroupMsg ∨ m.seq ≤ 0 then none
    else (conversationSummary J m).map fun latest => (db.recordConversationMessage m latest, [])
  | .markRead owner conv seq => some ((db.markConversationRead owner conv seq).2, [])
  | .updateSettings owner conv pinned opt =>
    ((db.updateConversationSettings owner conv pinned opt).toOption).map fun r => (r.2, [])
  | .deleteConversation owner conv => some (db.deleteConversation owner conv, [])
  | .deletePair conv => some (db.deleteConversationPair conv, [])
  | .migrate docs record => some (db.migrateConversation summary docs record, [])
  | .friends fs ds => some ({ db with friends := fs, deletions := ds }, [])

/-- The runs from empty conversation tables. -/
abbrev ConvTrace (J : Codec) (summary : Option Doc → String) :=
  Machine.Trace (Db.convStep J summary) ({} : Db)

/-! ## The invariant -/

/-- The unread rows of an entry. -/
def unreadOf (owner : Account) (conv : String) (us : List UnreadRow) : List UnreadRow :=
  us.filter fun u => u.owner = owner && u.conversation = conv

section
variable {owner peer : Account} {conv : String} {seq : Int} {cs : List ConversationRow}
  {us us' : List UnreadRow}

theorem mem_unreadOf {u : UnreadRow} :
    u ∈ unreadOf owner conv us ↔ u ∈ us ∧ u.owner = owner ∧ u.conversation = conv := by
  simp [unreadOf, List.mem_filter]

/-- The counter of a row is the number of its unread messages, which are above
    what is read and what is hidden, and not above the last one. -/
structure ConversationRow.Counts (r : ConversationRow) (us : List UnreadRow) : Prop where
  count : r.unreadCount = us.length
  seq : ∀ u ∈ us, r.readSeq < u.seq ∧ u.seq ≤ r.maxSeq ∧ r.minSeq < u.seq
  read : r.readSeq ≤ r.maxSeq

/-- **The invariant**, of the entries and the unread rows. -/
structure UnreadOk (cs : List ConversationRow) (us : List UnreadRow) : Prop where
  keys : (cs.map fun r => (r.owner, r.conversation)).Nodup
  nodup : us.Nodup
  parent : ∀ u ∈ us, ∃ r ∈ cs, r.owner = u.owner ∧ r.conversation = u.conversation
  row : ∀ r ∈ cs, r.Counts (unreadOf r.owner r.conversation us)

/-- Rows that keep key, counter and bounds, and may have a later last message. -/
structure ConversationRow.Raises (r r' : ConversationRow) : Prop where
  owner : r'.owner = r.owner
  conversation : r'.conversation = r.conversation
  count : r'.unreadCount = r.unreadCount
  read : r'.readSeq = r.readSeq
  min : r'.minSeq = r.minSeq
  max : r.maxSeq ≤ r'.maxSeq

theorem ConversationRow.Counts.raise {r r' : ConversationRow} (h : r.Counts us) (hr : r.Raises r') :
    r'.Counts us := by
  refine ⟨hr.count.trans h.count, fun u hu => ?_, ?_⟩
  · obtain ⟨h₁, h₂, h₃⟩ := h.seq u hu
    rw [hr.read, hr.min]
    exact ⟨h₁, h₂.trans hr.max, h₃⟩
  · rw [hr.read]
    exact h.read.trans hr.max

/-- An entry without a row has no unread messages. -/
theorem UnreadOk.unreadOf_nil (h : UnreadOk cs us)
    (hn : ∀ r ∈ cs, ¬ (r.owner = owner ∧ r.conversation = conv)) : unreadOf owner conv us = [] := by
  rw [List.eq_nil_iff_forall_not_mem]
  intro u hu
  obtain ⟨hmem, rfl, rfl⟩ := mem_unreadOf.1 hu
  obtain ⟨r, hr, hk⟩ := h.parent u hmem
  exact hn r hr hk

/-- The rows after the upsert of an entry: raised, or new with the message. -/
theorem mem_upsertConversation {time : Int} {latest : String} {r' : ConversationRow}
    (h : r' ∈ upsertConversation owner peer conv seq time latest cs) :
    (∃ r ∈ cs, r.Raises r') ∨
      (r'.owner = owner ∧ r'.conversation = conv ∧ r'.unreadCount = 0 ∧ r'.readSeq = 0 ∧ r'.maxSeq = seq ∧
        ∀ r ∈ cs, ¬ (r.owner = owner ∧ r.conversation = conv)) := by
  rcases mem_upsert h with ⟨r, hr, -, rfl⟩ | ⟨hr, -⟩ | ⟨rfl, hn⟩
  · exact Or.inl ⟨r, hr, rfl, rfl, rfl, rfl, rfl, le_max_left _ _⟩
  · exact Or.inl ⟨r', hr, rfl, rfl, rfl, rfl, rfl, le_rfl⟩
  · exact Or.inr ⟨rfl, rfl, rfl, rfl, rfl, by simpa using hn⟩

theorem UnreadOk.upsert (h : UnreadOk cs us) (hseq : 0 < seq) (owner peer : Account) (conv : String)
    (time : Int) (latest : String) : UnreadOk (upsertConversation owner peer conv seq time latest cs) us := by
  refine ⟨?_, h.nodup, fun u hmem => ?_, fun r' hr' => ?_⟩
  · refine nodup_upsert h.keys (fun r => rfl) fun r _ he => ?_
    simpa using he
  · obtain ⟨r, hr, hk⟩ := h.parent u hmem
    obtain ⟨r', hr', he⟩ := upsertConversation_keeps owner peer conv seq time latest cs r hr
    exact ⟨r', hr', he.owner.trans hk.1, he.conversation.trans hk.2⟩
  · rcases mem_upsertConversation hr' with ⟨r, hr, hraise⟩ | ⟨h₁, h₂, hcount, hread, hmax, hn⟩
    · rw [hraise.owner, hraise.conversation]
      exact (h.row r hr).raise hraise
    · rw [h₁, h₂, h.unreadOf_nil hn]
      refine ⟨hcount, by simp, ?_⟩
      rw [hread, hmax]
      exact hseq.le

/-- An update of one entry with its unread rows. -/
theorem UnreadOk.update (h : UnreadOk cs us) {f : ConversationRow → ConversationRow}
    (hf : ∀ r : ConversationRow, (f r).owner = r.owner ∧ (f r).conversation = r.conversation)
    (hn : us'.Nodup)
    (hu : ∀ u ∈ us', ∃ r ∈ cs, r.owner = u.owner ∧ r.conversation = u.conversation)
    (hother : ∀ o c, ¬ (o = owner ∧ c = conv) → unreadOf o c us' = unreadOf o c us)
    (hself : ∀ r ∈ cs, r.owner = owner → r.conversation = conv → (f r).Counts (unreadOf owner conv us')) :
    UnreadOk (updateWhere (fun r => r.owner = owner && r.conversation = conv) f cs) us' := by
  refine ⟨?_, hn, fun u hmem => ?_, fun r' hr' => ?_⟩
  · rw [map_updateWhere fun r => Prod.ext (hf r).1 (hf r).2]
    exact h.keys
  · obtain ⟨r, hr, hk⟩ := hu u hmem
    refine ⟨_, mem_updateWhere.2 ⟨r, hr, rfl⟩, ?_⟩
    split_ifs
    · exact ⟨(hf r).1.trans hk.1, (hf r).2.trans hk.2⟩
    · exact hk
  · obtain ⟨r, hr, rfl⟩ := mem_updateWhere.1 hr'
    by_cases hp : r.owner = owner ∧ r.conversation = conv
    · rw [if_pos (by simpa using hp), (hf r).1, (hf r).2, hp.1, hp.2]
      exact hself r hr hp.1 hp.2
    · rw [if_neg (by simpa using hp), hother _ _ hp]
      exact h.row r hr

/-- A message that is not read and not known arrives. -/
theorem UnreadOk.arrive (h : UnreadOk cs us)
    (hopen : ∀ r ∈ cs, r.owner = owner → r.conversation = conv →
      r.readSeq < seq ∧ seq ≤ r.maxSeq ∧ r.minSeq < seq)
    (hex : ∃ r ∈ cs, r.owner = owner ∧ r.conversation = conv)
    (hnew : (⟨owner, conv, seq⟩ : UnreadRow) ∉ us) :
    UnreadOk (updateWhere (fun r => r.owner = owner && r.conversation = conv)
      (fun r => { r with unreadCount := r.unreadCount + 1 }) cs) (us ++ [⟨owner, conv, seq⟩]) := by
  refine h.update (fun r => ⟨rfl, rfl⟩) ?_ ?_ ?_ ?_
  · refine List.nodup_append.2 ⟨h.nodup, List.nodup_singleton _, fun u hmem v hv he => hnew ?_⟩
    rw [List.mem_singleton.1 hv] at he
    exact he ▸ hmem
  · intro u hmem
    rcases List.mem_append.1 hmem with hmem | hmem
    · exact h.parent u hmem
    · rw [List.mem_singleton.1 hmem]
      exact hex
  · intro o c hne
    have : ¬ (owner = o ∧ conv = c) := fun he => hne ⟨he.1.symm, he.2.symm⟩
    simpa [unreadOf, List.filter_append] using this
  · intro r hr ho hc
    have hrow := h.row r hr
    have hsame : unreadOf owner conv (us ++ [⟨owner, conv, seq⟩]) =
        unreadOf owner conv us ++ [⟨owner, conv, seq⟩] := by
      simp [unreadOf, List.filter_append]
    rw [ho, hc] at hrow
    rw [hsame]
    refine ⟨?_, fun u hmem => ?_, hrow.read⟩
    · rw [List.length_append]
      exact congrArg (· + 1) hrow.count
    · rcases List.mem_append.1 hmem with hmem | hmem
      · exact hrow.seq u hmem
      · rw [List.mem_singleton.1 hmem]
        exact hopen r hr ho hc

end

/-! ## The operations keep it -/

section
variable {db : Db} {owner : Account} {conv : String}

/-- The entry of the receiver after the two upserts knows the message. -/
theorem seq_le_of_upsert {peer : Account} {seq time : Int} {latest : String} {cs : List ConversationRow}
    (hk : (cs.map fun r => (r.owner, r.conversation)).Nodup) {r : ConversationRow}
    (hr : r ∈ upsertConversation owner peer conv seq time latest cs) (ho : r.owner = owner)
    (hc : r.conversation = conv) : seq ≤ r.maxSeq := by
  have hk' : ((upsertConversation owner peer conv seq time latest cs).map fun r =>
      (r.owner, r.conversation)).Nodup := by
    refine nodup_upsert hk (fun r => rfl) fun r _ he => ?_
    simpa using he
  obtain ⟨r', hr', ho', hc', hle⟩ := upsertConversation_entry owner peer conv seq time latest cs
  obtain rfl := eq_of_key hk' hr' hr (Prod.ext (ho'.trans ho.symm) (hc'.trans hc.symm))
  exact hle

/-- **Recording a message.** -/
theorem unreadOk_record (h : UnreadOk db.conversations db.unread) {m : MsgData} (hseq : 0 < m.seq)
    (latest : String) : UnreadOk (db.recordConversationMessage m latest).conversations
      (db.recordConversationMessage m latest).unread := by
  have h₁ := h.upsert hseq m.sendID m.recvID m.convID m.sendTime latest
  have h₂ := h₁.upsert hseq m.recvID m.sendID m.convID m.sendTime latest
  unfold Db.recordConversationMessage
  dsimp only
  split_ifs with hopen
  · simp only [Bool.and_eq_true, List.any_eq_true, decide_eq_true_eq, Bool.not_eq_true',
      List.any_eq_false, not_and] at hopen
    obtain ⟨⟨r, hr, ⟨⟨ho, hc⟩, hread⟩, hmin⟩, hnew⟩ := hopen
    refine h₂.arrive (fun r' hr' ho' hc' => ?_) ⟨r, hr, ho, hc⟩ fun hmem => hnew _ hmem ⟨rfl, rfl⟩ rfl
    obtain rfl := eq_of_key h₂.keys hr hr' (Prod.ext (ho.trans ho'.symm) (hc.trans hc'.symm))
    exact ⟨hread, seq_le_of_upsert h₁.keys hr ho hc, hmin⟩
  · exact h₂

/-- The unread rows of other entries are not touched. -/
theorem unreadOf_deleteWhere {p : UnreadRow → Bool} {us : List UnreadRow} {o : Account} {c : String}
    (hp : ∀ u, p u = true → u.owner = owner ∧ u.conversation = conv) (hne : ¬ (o = owner ∧ c = conv)) :
    unreadOf o c (deleteWhere p us) = unreadOf o c us := by
  unfold unreadOf deleteWhere
  rw [List.filter_filter]
  refine List.filter_congr fun u _ => ?_
  by_cases hu : u.owner = o ∧ u.conversation = c
  · have hpu : p u = false := by
      by_contra hpu
      obtain ⟨h₁, h₂⟩ := hp u (by simpa using hpu)
      exact hne ⟨hu.1.symm.trans h₁, hu.2.symm.trans h₂⟩
    simp [hpu]
  · simp [hu]

/-- What an entry has read is removed and subtracted. -/
theorem length_unreadOf_read (us : List UnreadRow) (owner : Account) (conv : String) (seq : Int) :
    (unreadOf owner conv (deleteWhere
      (fun u => u.owner = owner && u.conversation = conv && u.seq ≤ seq) us)).length +
      (us.filter fun u => u.owner = owner && u.conversation = conv && u.seq ≤ seq).length =
      (unreadOf owner conv us).length := by
  have hread : (us.filter fun u => u.owner = owner && u.conversation = conv && u.seq ≤ seq).countP
      (fun u => u.owner = owner && u.conversation = conv) =
        (us.filter fun u => u.owner = owner && u.conversation = conv && u.seq ≤ seq).length := by
    refine List.countP_eq_length.2 fun u hu => ?_
    have := (List.mem_filter.1 hu).2
    simp only [Bool.and_eq_true, decide_eq_true_eq] at this ⊢
    exact this.1
  have hsplit := List.countP_eq_countP_filter_add us (fun u => u.owner = owner && u.conversation = conv)
    (fun u => u.owner = owner && u.conversation = conv && u.seq ≤ seq)
  rw [hread] at hsplit
  simp only [unreadOf, deleteWhere, ← List.countP_eq_length_filter] at hsplit ⊢
  omega

/-- **Marking as read.** -/
theorem unreadOk_markRead (h : UnreadOk db.conversations db.unread) (owner : Account) (conv : String)
    (seq : Int) : UnreadOk (db.markConversationRead owner conv seq).2.conversations
      (db.markConversationRead owner conv seq).2.unread := by
  unfold Db.markConversationRead
  split
  · exact h
  · next r hr =>
    split_ifs with hbad hold
    · exact h
    · exact h
    · dsimp only [Db.updateConversation]
      obtain ⟨-, hmax⟩ := not_or.1 hbad
      have hr' := List.mem_of_find?_eq_some hr
      have hkey : r.owner = owner ∧ r.conversation = conv := by simpa using List.find?_some hr
      refine h.update (fun r => ⟨rfl, rfl⟩) (h.nodup.filter _) (fun u hu => ?_) (fun o c hne => ?_)
        fun r₁ hr₁ ho hc => ?_
      · exact h.parent u (mem_deleteWhere.1 hu).1
      · refine unreadOf_deleteWhere (fun u hu => ?_) hne
        simp only [Bool.and_eq_true, decide_eq_true_eq] at hu
        exact hu.1
      · obtain rfl := eq_of_key h.keys hr' hr₁ (Prod.ext (hkey.1.trans ho.symm) (hkey.2.trans hc.symm))
        have hrow := h.row r hr'
        rw [ho, hc] at hrow
        refine ⟨?_, fun u hu => ?_, by simpa using hmax⟩
        · have hlen := length_unreadOf_read db.unread owner conv seq
          have hcount := hrow.count
          dsimp only
          omega
        · obtain ⟨hu, huo, huc⟩ := mem_unreadOf.1 hu
          obtain ⟨hmem, hnot⟩ := mem_deleteWhere.1 hu
          obtain ⟨-, h₂, h₃⟩ := hrow.seq u (mem_unreadOf.2 ⟨hmem, huo, huc⟩)
          exact ⟨by simpa [huo, huc] using hnot, h₂, h₃⟩

/-- Changing the settings. -/
theorem unreadOk_settings {db' : Db} {pinned : Option Bool} {opt : Option Int} {b : Bool}
    (h : UnreadOk db.conversations db.unread)
    (hs : db.updateConversationSettings owner conv pinned opt = .ok (b, db')) :
    UnreadOk db'.conversations db'.unread := by
  unfold Db.updateConversationSettings at hs
  split_ifs at hs
  cases hs
  refine ⟨?_, h.nodup, fun u hu => ?_, fun r' hr' => ?_⟩
  · rw [map_updateWhere (by intro r; rfl)]
    exact h.keys
  · obtain ⟨r, hr, hk⟩ := h.parent u hu
    refine ⟨_, mem_updateWhere.2 ⟨r, hr, rfl⟩, ?_⟩
    split_ifs
    · exact hk
    · exact hk
  · obtain ⟨r, hr, rfl⟩ := mem_updateWhere.1 hr'
    split_ifs
    · exact (h.row r hr).raise ⟨rfl, rfl, rfl, rfl, rfl, le_rfl⟩
    · exact h.row r hr

/-- **Deleting a conversation** hides it and marks all of it as read. -/
theorem unreadOk_delete (h : UnreadOk db.conversations db.unread) (owner : Account) (conv : String) :
    UnreadOk (db.deleteConversation owner conv).conversations (db.deleteConversation owner conv).unread := by
  unfold Db.deleteConversation
  split
  · exact h
  · dsimp only [Db.updateConversation]
    refine h.update (fun r => ⟨rfl, rfl⟩) (h.nodup.filter _) (fun u hu => ?_) (fun o c hne => ?_)
      fun r hr ho hc => ?_
    · exact h.parent u (mem_deleteWhere.1 hu).1
    · refine unreadOf_deleteWhere (fun u hu => ?_) hne
      simpa using hu
    · have hnil : unreadOf owner conv (deleteWhere (fun u => u.owner = owner && u.conversation = conv)
          db.unread) = [] := by
        rw [List.eq_nil_iff_forall_not_mem]
        intro u hu
        obtain ⟨hu, huo, huc⟩ := mem_unreadOf.1 hu
        simpa [huo, huc] using (mem_deleteWhere.1 hu).2
      rw [hnil]
      exact ⟨rfl, by simp, le_rfl⟩

/-- **Deleting the conversation of a pair.** -/
theorem unreadOk_deletePair (h : UnreadOk db.conversations db.unread) (conv : String) :
    UnreadOk (db.deleteConversationPair conv).conversations (db.deleteConversationPair conv).unread := by
  refine ⟨nodup_deleteWhere h.keys _, h.nodup.filter _, fun u hu => ?_, fun r hr => ?_⟩
  · obtain ⟨hu, hne⟩ := mem_deleteWhere.1 hu
    obtain ⟨r, hr, hk⟩ := h.parent u hu
    refine ⟨r, mem_deleteWhere.2 ⟨hr, ?_⟩, hk⟩
    rw [hk.2]
    exact hne
  · obtain ⟨hr, hne⟩ := mem_deleteWhere.1 hr
    have hsame : unreadOf r.owner r.conversation (db.deleteConversationPair conv).unread =
        unreadOf r.owner r.conversation db.unread := by
      unfold unreadOf Db.deleteConversationPair deleteWhere
      rw [List.filter_filter]
      refine List.filter_congr fun u _ => ?_
      by_cases hc : u.conversation = r.conversation
      · simp only [hc]
        simp [by simpa using hne]
      · simp [hc]
    rw [hsame]
    exact h.row r hr

/-! ### The import -/

theorem insertUnread_cons (owner : Account) (conv : String) (seq : Int) (seqs : List Int)
    (us : List UnreadRow) : insertUnread owner conv (seq :: seqs) us =
      insertUnread owner conv seqs (insertNew (fun u => u.owner = owner && u.conversation = conv && u.seq = seq)
        ⟨owner, conv, seq⟩ us) := rfl

theorem mem_insertUnread {seqs : List Int} : ∀ {us : List UnreadRow} {u : UnreadRow},
    u ∈ insertUnread owner conv seqs us → u ∈ us ∨
      (u.owner = owner ∧ u.conversation = conv ∧ u.seq ∈ seqs) := by
  induction seqs with
  | nil => exact fun hu => Or.inl hu
  | cons seq seqs ih =>
    intro us u hu
    rw [insertUnread_cons] at hu
    rcases ih hu with hu | ⟨ho, hc, hs⟩
    · rcases mem_insertNew.1 hu with hu | ⟨rfl, -⟩
      · exact Or.inl hu
      · exact Or.inr ⟨rfl, rfl, List.mem_cons_self⟩
    · exact Or.inr ⟨ho, hc, List.mem_cons_of_mem _ hs⟩

theorem nodup_insertUnread {seqs : List Int} : ∀ {us : List UnreadRow}, us.Nodup →
    (insertUnread owner conv seqs us).Nodup := by
  induction seqs with
  | nil => exact fun h => h
  | cons seq seqs ih =>
    intro us h
    rw [insertUnread_cons]
    refine ih ?_
    unfold insertNew
    split_ifs with hany
    · exact h
    · refine List.nodup_append.2 ⟨h, List.nodup_singleton _, fun u hu v hv he => hany ?_⟩
      rw [List.mem_singleton.1 hv] at he
      subst he
      exact List.any_eq_true.2 ⟨_, hu, by simp⟩

/-- Other entries keep their unread rows. -/
theorem unreadOf_insertUnread {seqs : List Int} {o : Account} {c : String} (hne : ¬ (o = owner ∧ c = conv)) :
    ∀ us : List UnreadRow, unreadOf o c (insertUnread owner conv seqs us) = unreadOf o c us := by
  induction seqs with
  | nil => exact fun us => rfl
  | cons seq seqs ih =>
    intro us
    rw [insertUnread_cons, ih]
    unfold insertNew
    split_ifs
    · rfl
    · have : ¬ (owner = o ∧ conv = c) := fun he => hne ⟨he.1.symm, he.2.symm⟩
      simpa [unreadOf, List.filter_append] using this

/-- A new entry with its unread rows. -/
theorem UnreadOk.append {cs : List ConversationRow} {us us' : List UnreadRow} {r : ConversationRow}
    (h : UnreadOk cs us) (hnew : ∀ r' ∈ cs, ¬ (r'.owner = r.owner ∧ r'.conversation = r.conversation))
    (hn : us'.Nodup) (hu : ∀ u ∈ us', u ∈ us ∨ (u.owner = r.owner ∧ u.conversation = r.conversation))
    (hother : ∀ o c, ¬ (o = r.owner ∧ c = r.conversation) → unreadOf o c us' = unreadOf o c us)
    (hr : r.Counts (unreadOf r.owner r.conversation us')) : UnreadOk (cs ++ [r]) us' := by
  refine ⟨?_, hn, fun u hmem => ?_, fun r' hr' => ?_⟩
  · refine nodup_append_one h.keys fun r' hr' he => hnew r' hr' ?_
    simpa using he
  · rcases hu u hmem with hmem | hk
    · obtain ⟨r', hr', hk⟩ := h.parent u hmem
      exact ⟨r', List.mem_append_left _ hr', hk⟩
    · exact ⟨r, List.mem_append_right _ (List.mem_singleton_self _), hk.1.symm, hk.2.symm⟩
  · rcases List.mem_append.1 hr' with hr' | hr'
    · rw [hother _ _ (hnew r' hr')]
      exact h.row r' hr'
    · rw [List.mem_singleton.1 hr']
      exact hr

theorem mem_legacyMessages {after : Int} {docs : List Doc} {d : Doc} :
    d ∈ legacyMessages conv after docs ↔
      d ∈ docs ∧ d.convID = conv ∧ d.isGroupMsg = false ∧ d.committed = true ∧ after < d.seq := by
  simp [legacyMessages, List.mem_filter, and_assoc]

/-- **Importing a record.** -/
theorem unreadOk_migrate (h : UnreadOk db.conversations db.unread) (summary : Option Doc → String)
    (docs : List Doc) (record : LegacyConversation) :
    UnreadOk (db.migrateConversation summary docs record).conversations
      (db.migrateConversation summary docs record).unread := by
  unfold Db.migrateConversation
  dsimp only
  split_ifs with h₁ h₂ hany
  · exact h
  · exact h
  · exact h
  generalize hmin : max record.minSeq _ = minimum
  generalize hlatest : firstBy _ (legacyMessages record.conversationID minimum docs) = latest
  have hnew : ∀ r ∈ db.conversations,
      ¬ (r.owner = record.ownerUserID ∧ r.conversation = record.conversationID) := by
    simpa using hany
  -- what is imported as unread is not above the last message
  have hle : ∀ d ∈ legacyMessages record.conversationID minimum docs,
      d.seq ≤ (latest.map (·.seq)).getD 0 := by
    intro d hd
    cases latest with
    | none =>
      rw [firstBy_eq_none hlatest] at hd
      cases hd
    | some l => exact le_firstBy hlatest d hd
  refine h.append hnew (nodup_insertUnread h.nodup) (fun u hu => ?_) (fun o c hne => ?_) ?_
  · exact (mem_insertUnread hu).imp_right fun hk => ⟨hk.1, hk.2.1⟩
  · exact unreadOf_insertUnread hne _
  · refine ⟨rfl, fun u hu => ?_, min_le_left _ _⟩
    obtain ⟨hu, ho, hc⟩ := mem_unreadOf.1 hu
    rcases mem_insertUnread hu with hu | ⟨-, -, hs⟩
    · obtain ⟨r, hr, hk⟩ := h.parent u hu
      exact absurd ⟨hk.1.trans ho, hk.2.trans hc⟩ (hnew r hr)
    · obtain ⟨d, hd, hds⟩ := List.mem_map.1 hs
      obtain ⟨hmem, hconv, hgroup, hcom, hafter⟩ := mem_legacyMessages.1 (List.mem_filter.1 hd).1
      obtain ⟨hread, hmin'⟩ := max_lt_iff.1 hafter
      have hmax := hle d (mem_legacyMessages.2 ⟨hmem, hconv, hgroup, hcom, hmin'⟩)
      rw [hds] at hread hmin' hmax
      exact ⟨hread, hmax, hmin'⟩

end

/-! ## Runs -/

/-- The row of the same entry, with no less read and no earlier last message. -/
structure ConversationRow.Later (r r' : ConversationRow) : Prop where
  owner : r'.owner = r.owner
  conversation : r'.conversation = r.conversation
  read : r.readSeq ≤ r'.readSeq
  max : r.maxSeq ≤ r'.maxSeq

theorem ConversationRow.Later.refl (r : ConversationRow) : r.Later r := ⟨rfl, rfl, le_rfl, le_rfl⟩

theorem ConversationRow.Raises.later {r r' : ConversationRow} (h : r.Raises r') : r.Later r' :=
  ⟨h.owner, h.conversation, h.read.ge, h.max⟩

theorem ConversationRow.Later.trans {r₁ r₂ r₃ : ConversationRow} (h : r₁.Later r₂) (h' : r₂.Later r₃) :
    r₁.Later r₃ :=
  ⟨h'.owner.trans h.owner, h'.conversation.trans h.conversation, h.read.trans h'.read, h.max.trans h'.max⟩

/-- Every row of the new table comes from the row of its entry, if there was
    one. -/
def Continues (cs cs' : List ConversationRow) : Prop :=
  ∀ r' ∈ cs', (∃ r ∈ cs, r.Later r') ∨
    ∀ r ∈ cs, ¬ (r.owner = r'.owner ∧ r.conversation = r'.conversation)

theorem Continues.refl (cs : List ConversationRow) : Continues cs cs := fun r hr => Or.inl ⟨r, hr, .refl r⟩

theorem continues_update {p : ConversationRow → Bool} {f : ConversationRow → ConversationRow}
    {cs : List ConversationRow} (hf : ∀ r ∈ cs, p r = true → r.Later (f r)) :
    Continues cs (updateWhere p f cs) := by
  intro r' hr'
  obtain ⟨r, hr, rfl⟩ := mem_updateWhere.1 hr'
  refine Or.inl ⟨r, hr, ?_⟩
  split_ifs with hp
  · exact hf r hr hp
  · exact .refl r

theorem continues_upsert {owner peer : Account} {conv : String} {seq time : Int} {latest : String}
    {cs : List ConversationRow} : Continues cs (upsertConversation owner peer conv seq time latest cs) := by
  intro r' hr'
  rcases mem_upsertConversation hr' with ⟨r, hr, hraise⟩ | ⟨ho, hc, -, -, -, hn⟩
  · exact Or.inl ⟨r, hr, hraise.later⟩
  · rw [ho, hc]
    exact Or.inr hn

/-- Continuation composes where no row is lost in between. -/
theorem Continues.trans {cs₁ cs₂ cs₃ : List ConversationRow} (h : Continues cs₁ cs₂) (h' : Continues cs₂ cs₃)
    (hk : KeepsEntries cs₁ cs₂) : Continues cs₁ cs₃ := by
  intro r hr
  rcases h' r hr with ⟨r₂, hr₂, hl⟩ | hn
  · rcases h r₂ hr₂ with ⟨r₁, hr₁, hl'⟩ | hn
    · exact Or.inl ⟨r₁, hr₁, hl'.trans hl⟩
    · rw [hl.owner, hl.conversation]
      exact Or.inr hn
  · refine Or.inr fun r₁ hr₁ he => ?_
    obtain ⟨r₂, hr₂, hkeep⟩ := hk r₁ hr₁
    exact hn r₂ hr₂ ⟨hkeep.owner.trans he.1, hkeep.conversation.trans he.2⟩

section
variable {J : Codec} {summary : Option Doc → String} {db db' : Db} {op : ConvOp} {es : List Unit}

theorem continues_record (db : Db) (m : MsgData) (latest : String) :
    Continues db.conversations (db.recordConversationMessage m latest).conversations := by
  have hkeep := upsertConversation_keeps m.sendID m.recvID m.convID m.seq m.sendTime latest db.conversations
  have hkeep' := hkeep.trans (fun _ _ _ => .trans) (upsertConversation_keeps m.recvID m.sendID m.convID
    m.seq m.sendTime latest _)
  have hups : Continues db.conversations (upsertConversation m.recvID m.sendID m.convID m.seq m.sendTime latest
      (upsertConversation m.sendID m.recvID m.convID m.seq m.sendTime latest db.conversations)) :=
    continues_upsert.trans continues_upsert hkeep
  unfold Db.recordConversationMessage
  dsimp only
  split_ifs
  · refine hups.trans (continues_update fun r _ _ => ?_) hkeep'
    exact ⟨rfl, rfl, le_rfl, le_rfl⟩
  · exact hups

theorem continues_markRead (h : UnreadOk db.conversations db.unread) (owner : Account) (conv : String)
    (seq : Int) : Continues db.conversations (db.markConversationRead owner conv seq).2.conversations := by
  unfold Db.markConversationRead
  split
  · exact .refl _
  · next r hr =>
    split_ifs with hbad hold
    · exact .refl _
    · exact .refl _
    · refine continues_update fun r' hr' hp => ?_
      have hkey : r.owner = owner ∧ r.conversation = conv := by simpa using List.find?_some hr
      have hkey' : r'.owner = owner ∧ r'.conversation = conv := by simpa using hp
      obtain rfl := eq_of_key h.keys (List.mem_of_find?_eq_some hr) hr'
        (Prod.ext (hkey.1.trans hkey'.1.symm) (hkey.2.trans hkey'.2.symm))
      exact ⟨rfl, rfl, (not_le.1 hold).le, le_rfl⟩

theorem continues_settings {owner : Account} {conv : String} {pinned : Option Bool} {opt : Option Int}
    {b : Bool} (hs : db.updateConversationSettings owner conv pinned opt = .ok (b, db')) :
    Continues db.conversations db'.conversations := by
  unfold Db.updateConversationSettings at hs
  split_ifs at hs
  cases hs
  refine continues_update fun r _ _ => ?_
  exact ⟨rfl, rfl, le_rfl, le_rfl⟩

theorem continues_delete (h : UnreadOk db.conversations db.unread) (owner : Account) (conv : String) :
    Continues db.conversations (db.deleteConversation owner conv).conversations := by
  unfold Db.deleteConversation
  split
  · exact .refl _
  · refine continues_update fun r hr _ => ?_
    exact ⟨rfl, rfl, (h.row r hr).read, le_rfl⟩

theorem continues_migrate (db : Db) (summary : Option Doc → String) (docs : List Doc)
    (record : LegacyConversation) :
    Continues db.conversations (db.migrateConversation summary docs record).conversations := by
  unfold Db.migrateConversation
  dsimp only
  split_ifs with h₁ h₂ hany
  · exact .refl _
  · exact .refl _
  · exact .refl _
  · intro r' hr'
    rcases List.mem_append.1 hr' with hr' | hr'
    · exact Or.inl ⟨r', hr', .refl r'⟩
    · rw [List.mem_singleton.1 hr']
      exact Or.inr (by simpa using hany)

/-- The operation brings the message of an unread row, addressed to its owner. -/
def ConvOp.Incoming (u : UnreadRow) : ConvOp → Prop
  | .record m => u = ⟨m.recvID, m.convID, m.seq⟩
  | .migrate docs _ => ∃ d ∈ docs, d.recvID = asInt64 u.owner ∧ d.convID = u.conversation ∧ d.seq = u.seq
  | _ => False

theorem incoming_migrate {docs : List Doc} {record : LegacyConversation} {u : UnreadRow}
    (hu : u ∈ (db.migrateConversation summary docs record).unread) :
    u ∈ db.unread ∨ ConvOp.Incoming u (.migrate docs record) := by
  unfold Db.migrateConversation at hu
  dsimp only at hu
  split_ifs at hu
  · exact Or.inl hu
  · exact Or.inl hu
  · exact Or.inl hu
  · rcases mem_insertUnread hu with hu | ⟨ho, hc, hs⟩
    · exact Or.inl hu
    · obtain ⟨d, hd, hds⟩ := List.mem_map.1 hs
      obtain ⟨hd, hrecv⟩ := List.mem_filter.1 hd
      obtain ⟨hmem, hconv, -⟩ := mem_legacyMessages.1 hd
      refine Or.inr ⟨d, hmem, ?_, hconv.trans hc.symm, hds⟩
      rw [ho]
      exact of_decide_eq_true hrecv

/-- **One operation** keeps the invariant, continues the rows, and adds only
    what is addressed to the owner. -/
theorem convStep_spec (h : UnreadOk db.conversations db.unread)
    (hs : db.convStep J summary op = some (db', es)) :
    UnreadOk db'.conversations db'.unread ∧ Continues db.conversations db'.conversations ∧
      ∀ u ∈ db'.unread, u ∈ db.unread ∨ op.Incoming u := by
  cases op with
  | record m =>
    simp only [Db.convStep, Option.ite_none_left_eq_some, Option.map_eq_some_iff] at hs
    obtain ⟨hok, latest, -, he⟩ := hs
    cases he
    refine ⟨unreadOk_record h (by omega) latest, continues_record db m latest, fun u hu => ?_⟩
    exact unread_record hu
  | markRead owner conv seq =>
    cases hs
    refine ⟨unreadOk_markRead h owner conv seq, continues_markRead h owner conv seq, fun u hu => Or.inl ?_⟩
    unfold Db.markConversationRead at hu
    split at hu
    · exact hu
    · split_ifs at hu
      · exact hu
      · exact hu
      · exact (mem_deleteWhere.1 hu).1
  | updateSettings owner conv pinned opt =>
    simp only [Db.convStep, Option.map_eq_some_iff] at hs
    obtain ⟨⟨b, db₁⟩, hset, he⟩ := hs
    cases he
    cases hupd : db.updateConversationSettings owner conv pinned opt with
    | error e =>
      rw [hupd] at hset
      cases hset
    | ok p =>
      rw [hupd] at hset
      cases hset
      refine ⟨unreadOk_settings h hupd, continues_settings hupd, fun u hu => Or.inl ?_⟩
      unfold Db.updateConversationSettings at hupd
      split_ifs at hupd
      cases hupd
      exact hu
  | deleteConversation owner conv =>
    cases hs
    refine ⟨unreadOk_delete h owner conv, continues_delete h owner conv, fun u hu => Or.inl ?_⟩
    unfold Db.deleteConversation at hu
    split at hu
    · exact hu
    · exact (mem_deleteWhere.1 hu).1
  | deletePair conv =>
    cases hs
    refine ⟨unreadOk_deletePair h conv, fun r hr => Or.inl ⟨r, (mem_deleteWhere.1 hr).1, .refl r⟩,
      fun u hu => Or.inl ?_⟩
    exact (mem_deleteWhere.1 hu).1
  | migrate docs record =>
    cases hs
    exact ⟨unreadOk_migrate h summary docs record, continues_migrate db summary docs record,
      fun u hu => incoming_migrate hu⟩
  | friends fs ds =>
    cases hs
    exact ⟨h, .refl _, fun u hu => Or.inl hu⟩

/-- The invariant holds in every state of a run. -/
theorem ConvTrace.unreadOk (T : ConvTrace J summary) {i : ℕ} (hi : i ≤ T.len) :
    UnreadOk (T.state i).conversations (T.state i).unread := by
  refine T.invariant (P := fun db => UnreadOk db.conversations db.unread) ?_ ?_ hi
  · exact ⟨List.nodup_nil, List.nodup_nil, by simp, by simp⟩
  · intro db op db' es h hs
    exact (convStep_spec h hs).1

/-- While an entry has a row, the row continues. -/
theorem ConvTrace.later (T : ConvTrace J summary) {i j : ℕ} (hij : i ≤ j) (hj : j ≤ T.len)
    {owner : Account} {conv : String}
    (hex : ∀ k, i ≤ k → k ≤ j → ∃ r ∈ (T.state k).conversations, r.owner = owner ∧ r.conversation = conv) :
    ∀ r ∈ (T.state i).conversations, r.owner = owner → r.conversation = conv →
      ∀ r' ∈ (T.state j).conversations, r'.owner = owner → r'.conversation = conv → r.Later r' := by
  induction j, hij using Nat.le_induction with
  | base =>
    intro r hr ho hc r' hr' ho' hc'
    obtain rfl := eq_of_key (T.unreadOk hj).keys hr hr' (Prod.ext (ho.trans ho'.symm) (hc.trans hc'.symm))
    exact .refl r
  | succ j hij ih =>
    intro r hr ho hc r' hr' ho' hc'
    have hi : j ≤ T.len := by omega
    obtain ⟨r₁, hr₁, ho₁, hc₁⟩ := hex j hij (by omega)
    have hl := ih hi (fun k hk hkj => hex k hk (by omega)) r hr ho hc r₁ hr₁ ho₁ hc₁
    obtain ⟨-, hcont, -⟩ := convStep_spec (T.unreadOk hi) (T.next j (by omega))
    rcases hcont r' hr' with ⟨r₂, hr₂, hl₂⟩ | hn
    · obtain rfl := eq_of_key (T.unreadOk hi).keys hr₁ hr₂ (Prod.ext
        (ho₁.trans (ho'.symm.trans hl₂.owner)) (hc₁.trans (hc'.symm.trans hl₂.conversation)))
      exact hl.trans hl₂
    · exact absurd ⟨ho₁.trans ho'.symm, hc₁.trans hc'.symm⟩ (hn r₁ hr₁)

/-- An unread row came with an operation that brought its message. -/
theorem ConvTrace.incoming (T : ConvTrace J summary) {i : ℕ} (hi : i ≤ T.len) {u : UnreadRow}
    (hu : u ∈ (T.state i).unread) : ∃ l < i, (T.act l).Incoming u := by
  have h₀ : ¬ u ∈ (({} : Db)).unread := by simp
  obtain ⟨l, hl, hn, hk⟩ := T.began (P := fun db => u ∈ db.unread) h₀ hu
  obtain ⟨-, -, hnew⟩ := convStep_spec (T.unreadOk (by omega : l ≤ T.len)) (T.next l (by omega))
  rcases hnew u (hk (l + 1) (by omega) (by omega)) with h | h
  · exact absurd h hn
  · exact ⟨l, hl, h⟩

end

/-- **Unread accounting.**  In every state of every run, the counter of a row
    is the number of its unread messages, which lie above what is read and
    hidden and not above the last one.  While the row exists, `read_seq` and
    `max_seq` do not decrease.  Recording a message leaves the unread messages
    of its sender as they are, and every unread message was addressed to the
    owner of the row. -/
theorem unread_accounting (J : Codec) (summary : Option Doc → String) (T : ConvTrace J summary) :
    (∀ i ≤ T.len, ∀ r ∈ (T.state i).conversations,
      r.unreadCount = (unreadOf r.owner r.conversation (T.state i).unread).length ∧
      r.readSeq ≤ r.maxSeq ∧
      ∀ u ∈ (T.state i).unread, u.owner = r.owner → u.conversation = r.conversation →
        r.readSeq < u.seq ∧ u.seq ≤ r.maxSeq ∧ r.minSeq < u.seq) ∧
    (∀ i j owner conv, i ≤ j → j ≤ T.len →
      (∀ k, i ≤ k → k ≤ j → ∃ r ∈ (T.state k).conversations, r.owner = owner ∧ r.conversation = conv) →
      ∀ r ∈ (T.state i).conversations, r.owner = owner → r.conversation = conv →
      ∀ r' ∈ (T.state j).conversations, r'.owner = owner → r'.conversation = conv →
        r.readSeq ≤ r'.readSeq ∧ r.maxSeq ≤ r'.maxSeq) ∧
    (∀ i < T.len, ∀ m, T.act i = .record m → m.sendID ≠ m.recvID →
      ∀ u ∈ (T.state (i + 1)).unread, u.owner = m.sendID → u ∈ (T.state i).unread) ∧
    ∀ i ≤ T.len, ∀ u ∈ (T.state i).unread, ∃ l < i, (T.act l).Incoming u := by
  refine ⟨fun i hi r hr => ?_, ?_, ?_, fun i hi u hu => T.incoming hi hu⟩
  · have hrow := (T.unreadOk hi).row r hr
    refine ⟨hrow.count, hrow.read, fun u hu ho hc => ?_⟩
    exact hrow.seq u (mem_unreadOf.2 ⟨hu, ho, hc⟩)
  · intro i j owner conv hij hj hex r hr ho hc r' hr' ho' hc'
    have hl := T.later hij hj hex r hr ho hc r' hr' ho' hc'
    exact ⟨hl.read, hl.max⟩
  · intro i hi m hact hne u hu ho
    obtain ⟨-, -, hnew⟩ := convStep_spec (T.unreadOk hi.le) (T.next i hi)
    rcases hnew u hu with hu | hin
    · exact hu
    · rw [hact] at hin
      have hrecv : u.owner = m.recvID := congrArg UnreadRow.owner hin
      exact absurd (ho.symm.trans hrecv) hne

end ApeServer
