/-
  Recording messages in any order, any number of times
  (`RecordConversationMessage` of `src/storage/mysqlhandler.cpp`).

  * `Db.recordMessage` is one call, a transaction; `Db.recordAll` a list of
    them;
  * `conversation?_record` and `mem_unread_record`: what one call
    does to an entry and to the unread sets;
  * `Recorded` is what a list leaves in an entry, as a function of the set of
    its messages (`Recorded.unique`);
  * `record_any_order`.
-/
import ApeServer.Conversations

namespace ApeServer

open Table

/-! ## One call -/

/-- `RecordConversationMessage`; a call that throws is rolled back. -/
def Db.recordMessage (J : Codec) (db : Db) (m : MsgData) : Db :=
  if m.isGroupMsg ∨ m.seq ≤ 0 then db
  else match conversationSummary J m with
    | none => db
    | some latest => db.recordConversationMessage m latest

def Db.recordAll (J : Codec) (db : Db) (ms : List MsgData) : Db := ms.foldl (Db.recordMessage J) db

/-- The call does not throw. -/
def recordable (J : Codec) (m : MsgData) : Bool :=
  !m.isGroupMsg && 0 < m.seq && (conversationSummary J m).isSome

/-- `PRIMARY KEY (owner_account, conversation_id)`. -/
def Db.EntryKeys (db : Db) : Prop := (db.conversations.map fun r => (r.owner, r.conversation)).Nodup

/-- The entry of an owner; one that is not there yet counts as blank. -/
def Db.entry (db : Db) (owner peer : Account) (conv : String) : ConversationRow :=
  (db.conversation? owner conv).getD { owner := owner, conversation := conv, peer := peer }

/-- The message is new to the owner's unread set: it is incoming, above
    `read_seq` and `min_seq`, and not in the set. -/
def Db.Arrives (db : Db) (owner : Account) (r : ConversationRow) (m : MsgData) : Prop :=
  m.recvID = owner ∧ r.readSeq < m.seq ∧ r.minSeq < m.seq ∧ ⟨owner, m.convID, m.seq⟩ ∉ db.unread

instance (db : Db) (owner : Account) (r : ConversationRow) (m : MsgData) : Decidable (db.Arrives owner r m) :=
  inferInstanceAs (Decidable (_ ∧ _))

section
variable {J : Codec} {db : Db} {m : MsgData} {latest : String}

theorem recordMessage_of_not (h : recordable J m = false) : db.recordMessage J m = db := by
  unfold Db.recordMessage
  split_ifs with hc
  · rfl
  · cases hs : conversationSummary J m with
    | none => rfl
    | some latest =>
      rw [recordable, hs] at h
      simp only [Bool.and_eq_false_iff, Bool.not_eq_false', decide_eq_false_iff_not, Option.isSome_some,
        Bool.true_eq_false, or_false] at h
      exact absurd (h.imp id not_lt.1) hc

theorem recordMessage_of (db : Db) (h : recordable J m = true) : ∃ latest, conversationSummary J m = some latest ∧
    0 < m.seq ∧ db.recordMessage J m = db.recordConversationMessage m latest := by
  simp only [recordable, Bool.and_eq_true, Bool.not_eq_true', decide_eq_true_eq] at h
  obtain ⟨⟨hg, hseq⟩, hs⟩ := h
  obtain ⟨latest, hs⟩ := Option.isSome_iff_exists.1 hs
  refine ⟨latest, hs, hseq, ?_⟩
  unfold Db.recordMessage
  rw [if_neg (by simp [hg, hseq]), hs]

/-- After the upsert of one row. -/
theorem find?_upsertConversation {owner peer o : Account} {conv c : String} {seq time : Int}
    (hseq : 0 < seq) (t : List ConversationRow) :
    (upsertConversation owner peer conv seq time latest t).find? (fun r => r.owner = o && r.conversation = c) =
      if o = owner ∧ c = conv then
        some (((t.find? fun r => r.owner = o && r.conversation = c).getD
          { owner := owner, conversation := conv, peer := peer }).record seq time latest)
      else t.find? fun r => r.owner = o && r.conversation = c := by
  split_ifs with h
  · obtain ⟨rfl, rfl⟩ := h
    let blank : ConversationRow := { owner := o, conversation := c, peer := peer }
    have hnew : { blank with maxSeq := seq, latestTime := time, latestMessage := latest } =
        blank.record seq time latest := by
      simp [blank, ConversationRow.record, hseq, hseq.le]
    unfold upsertConversation
    rw [find?_upsert_self (p := fun r : ConversationRow => r.owner = o && r.conversation = c)
      (f := fun r => r.record seq time latest) (fun _ h => h) (by simp)]
    cases t.find? fun r => r.owner = o && r.conversation = c with
    | none => exact congrArg some hnew
    | some r => rfl
  · refine find?_upsert_other (q := fun r : ConversationRow => r.owner = o && r.conversation = c)
      (f := fun r => r.record seq time latest) (fun _ _ => rfl) (fun r hr => ?_) ?_ t
    · simp only [Bool.and_eq_true, decide_eq_true_eq] at hr
      obtain ⟨rfl, rfl⟩ := hr
      simpa using fun h₁ h₂ => h ⟨h₁, h₂⟩
    · simpa using fun h₁ h₂ => h ⟨h₁.symm, h₂.symm⟩

theorem nodup_upsertConversation {owner peer : Account} {conv : String} {seq time : Int}
    {t : List ConversationRow} (h : (t.map fun r => (r.owner, r.conversation)).Nodup) :
    ((upsertConversation owner peer conv seq time latest t).map fun r => (r.owner, r.conversation)).Nodup := by
  refine nodup_upsert h (fun r => ?_) fun r _ he => ?_
  · rfl
  · simpa using he

/-- With unique keys a test of some row is one of the row found. -/
theorem any_entry {t : List ConversationRow} (h : (t.map fun r => (r.owner, r.conversation)).Nodup)
    {o : Account} {c : String} {r : ConversationRow}
    (hr : (t.find? fun r => r.owner = o && r.conversation = c) = some r) (seq : Int) :
    (t.any fun r => r.owner = o && r.conversation = c && r.readSeq < seq && r.minSeq < seq) =
      decide (r.readSeq < seq ∧ r.minSeq < seq) := by
  have hp := List.find?_some hr
  simp only [Bool.and_eq_true, decide_eq_true_eq] at hp
  rw [Bool.eq_iff_iff, List.any_eq_true, decide_eq_true_iff]
  simp only [Bool.and_eq_true, decide_eq_true_eq]
  constructor
  · rintro ⟨r', hr', ⟨⟨ho, hc⟩, h₁⟩, h₂⟩
    obtain rfl := eq_of_key h hr' (List.mem_of_find?_eq_some hr) (Prod.ext (ho.trans hp.1.symm) (hc.trans hp.2.symm))
    exact ⟨h₁, h₂⟩
  · rintro ⟨h₁, h₂⟩
    exact ⟨r, List.mem_of_find?_eq_some hr, ⟨hp, h₁⟩, h₂⟩

/-- The owner's entry after the call. -/
def Db.recorded? (db : Db) (owner peer : Account) (m : MsgData) (latest : String) : ConversationRow :=
  let r := (db.entry owner peer m.convID).record m.seq m.sendTime latest
  { r with unreadCount := r.unreadCount + if db.Arrives owner r m then 1 else 0 }

/-- The rows after the upsert of both. -/
def Db.upserted (db : Db) (m : MsgData) (latest : String) : List ConversationRow :=
  upsertConversation m.recvID m.sendID m.convID m.seq m.sendTime latest
    (upsertConversation m.sendID m.recvID m.convID m.seq m.sendTime latest db.conversations)

theorem find?_upserted (db : Db) (latest : String) (hseq : 0 < m.seq) (hne : m.sendID ≠ m.recvID) (o : Account)
    (c : String) :
    (db.upserted m latest).find? (fun r => r.owner = o && r.conversation = c) =
      if o = m.sendID ∧ c = m.convID then
        some ((db.entry m.sendID m.recvID m.convID).record m.seq m.sendTime latest)
      else if o = m.recvID ∧ c = m.convID then
        some ((db.entry m.recvID m.sendID m.convID).record m.seq m.sendTime latest)
      else db.conversation? o c := by
  simp only [Db.upserted, find?_upsertConversation hseq]
  by_cases hs : o = m.sendID ∧ c = m.convID
  · obtain ⟨rfl, rfl⟩ := hs
    rw [if_neg (by simp [hne]), if_pos ⟨rfl, rfl⟩, if_pos ⟨rfl, rfl⟩]
    rfl
  · rw [if_neg hs, if_neg hs]
    split_ifs with hr
    · obtain ⟨rfl, rfl⟩ := hr
      rfl
    · rfl

theorem nodup_upserted (hk : db.EntryKeys) :
    ((db.upserted m latest).map fun r => (r.owner, r.conversation)).Nodup :=
  nodup_upsertConversation (nodup_upsertConversation hk)

/-- The second statement inserts exactly the arriving message. -/
theorem recordConversationMessage_arrives (hk : db.EntryKeys) (hseq : 0 < m.seq) (hne : m.sendID ≠ m.recvID) :
    db.recordConversationMessage m latest =
      if db.Arrives m.recvID (db.entry m.recvID m.sendID m.convID) m then
        Db.updateConversation { db with conversations := db.upserted m latest, recorded := db.recorded ++ [m],
                                        unread := db.unread ++ [⟨m.recvID, m.convID, m.seq⟩] }
          m.recvID m.convID fun r => { r with unreadCount := r.unreadCount + 1 }
      else { db with conversations := db.upserted m latest, recorded := db.recorded ++ [m] } := by
  have hrow := find?_upserted db latest hseq hne m.recvID m.convID
  rw [if_neg (by simp [hne.symm]), if_pos ⟨rfl, rfl⟩] at hrow
  have hopen := any_entry (nodup_upserted hk) hrow m.seq
  have hknown : (db.unread.any fun u => u.owner = m.recvID && u.conversation = m.convID && u.seq = m.seq) =
      decide ((⟨m.recvID, m.convID, m.seq⟩ : UnreadRow) ∈ db.unread) := by
    rw [Bool.eq_iff_iff, List.any_eq_true, decide_eq_true_iff]
    constructor
    · rintro ⟨u, hu, he⟩
      simp only [Bool.and_eq_true, decide_eq_true_eq] at he
      rwa [← he.1.1, ← he.1.2, ← he.2]
    · intro hu
      exact ⟨_, hu, by simp⟩
  show (if _ && !_ then _ else _) = _
  rw [← Db.upserted, hopen, hknown]
  refine if_congr ?_ rfl rfl
  simp [Db.Arrives, ConversationRow.record, and_assoc]

/-- An update of one entry that keeps its key. -/
theorem conversation?_update {owner : Account} {conv : String} {f : ConversationRow → ConversationRow}
    (hf : ∀ r : ConversationRow, (f r).owner = r.owner ∧ (f r).conversation = r.conversation) (db : Db)
    (o : Account) (c : String) :
    (Db.updateConversation db owner conv f).conversation? o c =
      (db.conversation? o c).map fun r => if o = owner ∧ c = conv then f r else r := by
  unfold Db.updateConversation Db.conversation?
  rw [find?_updateWhere (fun r _ => by rw [(hf r).1, (hf r).2])]
  cases h : db.conversations.find? fun r => r.owner = o && r.conversation = c with
  | none => rfl
  | some r =>
    have hp := List.find?_some h
    simp only [Bool.and_eq_true, decide_eq_true_eq] at hp
    obtain ⟨rfl, rfl⟩ := hp
    simp

/-- The two entries of a message are updated, and no other one. -/
theorem conversation?_record (hk : db.EntryKeys) (hseq : 0 < m.seq) (hne : m.sendID ≠ m.recvID)
    (o : Account) (c : String) :
    (db.recordConversationMessage m latest).conversation? o c =
      if o = m.sendID ∧ c = m.convID then some (db.recorded? m.sendID m.recvID m latest)
      else if o = m.recvID ∧ c = m.convID then some (db.recorded? m.recvID m.sendID m latest)
      else db.conversation? o c := by
  have hrow := find?_upserted db latest hseq hne o c
  have hsend : db.recorded? m.sendID m.recvID m latest =
      (db.entry m.sendID m.recvID m.convID).record m.seq m.sendTime latest := by
    simp [Db.recorded?, Db.Arrives, hne.symm]
  have hrecv : db.recorded? m.recvID m.sendID m latest =
      { (db.entry m.recvID m.sendID m.convID).record m.seq m.sendTime latest with
        unreadCount := (db.entry m.recvID m.sendID m.convID).unreadCount +
          if db.Arrives m.recvID (db.entry m.recvID m.sendID m.convID) m then 1 else 0 } := rfl
  rw [recordConversationMessage_arrives hk hseq hne, hsend, hrecv]
  split_ifs with ha hs hr hs hr
  · obtain ⟨rfl, rfl⟩ := hs
    rw [conversation?_update (by intro r; exact ⟨rfl, rfl⟩)]
    show Option.map _ ((db.upserted m latest).find? _) = _
    rw [hrow, if_pos ⟨rfl, rfl⟩, Option.map_some, if_neg (by simp [hne])]
  · obtain ⟨rfl, rfl⟩ := hr
    rw [conversation?_update (by intro r; exact ⟨rfl, rfl⟩)]
    show Option.map _ ((db.upserted m latest).find? _) = _
    rw [hrow, if_neg hs, if_pos ⟨rfl, rfl⟩, Option.map_some, if_pos ⟨rfl, rfl⟩]
    rfl
  · rw [conversation?_update (by intro r; exact ⟨rfl, rfl⟩)]
    show Option.map _ ((db.upserted m latest).find? _) = _
    rw [hrow, if_neg hs, if_neg hr]
    simp [hr]
  · show (db.upserted m latest).find? _ = _
    rw [hrow, if_pos hs]
  · show (db.upserted m latest).find? _ = _
    rw [hrow, if_neg hs, if_pos hr]
    rfl
  · show (db.upserted m latest).find? _ = _
    rw [hrow, if_neg hs, if_neg hr]

theorem mem_unread_record (hk : db.EntryKeys) (hseq : 0 < m.seq) (hne : m.sendID ≠ m.recvID) {u : UnreadRow} :
    u ∈ (db.recordConversationMessage m latest).unread ↔ u ∈ db.unread ∨
      (db.Arrives m.recvID (db.entry m.recvID m.sendID m.convID) m ∧ u = ⟨m.recvID, m.convID, m.seq⟩) := by
  rw [recordConversationMessage_arrives hk hseq hne]
  split_ifs with ha
  · simp [Db.updateConversation, ha]
  · simp [ha]

theorem entryKeys_record (latest : String) (hk : db.EntryKeys) (hseq : 0 < m.seq) (hne : m.sendID ≠ m.recvID) :
    (db.recordConversationMessage m latest).EntryKeys := by
  rw [recordConversationMessage_arrives hk hseq hne]
  split_ifs
  · unfold Db.EntryKeys Db.updateConversation
    rw [map_updateWhere (by intro r; rfl)]
    exact nodup_upserted hk
  · exact nodup_upserted hk

end

/-! ## A list of calls -/

/-- The numbers that a list adds to the unread set of the owner of `r`. -/
def news (r : ConversationRow) (us : List UnreadRow) (ms : List MsgData) : Finset ℤ :=
  ((ms.filter fun m => m.recvID = r.owner ∧ r.readSeq < m.seq ∧ r.minSeq < m.seq ∧
    ⟨r.owner, r.conversation, m.seq⟩ ∉ us).map (·.seq)).toFinset

/-- What recording the messages `ms` makes of the entry `r`, next to the unread
    rows `us`. -/
structure Recorded (J : Codec) (r : ConversationRow) (us : List UnreadRow) (ms : List MsgData)
    (r' : ConversationRow) : Prop where
  rest : r' = { r with isHidden := r'.isHidden, latestMessage := r'.latestMessage,
                       latestTime := r'.latestTime, maxSeq := r'.maxSeq, unreadCount := r'.unreadCount }
  maxSeq : IsGreatest ({s | s = r.maxSeq ∨ ∃ m ∈ ms, s = m.seq}) r'.maxSeq
  latest : ∀ m ∈ ms, m.seq = r'.maxSeq → r.maxSeq < m.seq →
    conversationSummary J m = some r'.latestMessage ∧ m.sendTime = r'.latestTime
  unchanged : r'.maxSeq = r.maxSeq → r'.latestMessage = r.latestMessage ∧ r'.latestTime = r.latestTime
  isHidden : r'.isHidden = true ↔ r.isHidden = true ∧ ∀ m ∈ ms, m.seq ≤ r.maxSeq
  unreadCount : r'.unreadCount = r.unreadCount + (news r us ms).card

section
variable {J : Codec} {r r' r₁ r₂ : ConversationRow} {us us' : List UnreadRow} {ms ms' : List MsgData} {m : MsgData}

theorem mem_news {s : ℤ} : s ∈ news r us ms ↔ ∃ m ∈ ms, m.seq = s ∧ m.recvID = r.owner ∧ r.readSeq < s ∧
    r.minSeq < s ∧ ⟨r.owner, r.conversation, s⟩ ∉ us := by
  simp only [news, List.mem_toFinset, List.mem_map, List.mem_filter, decide_eq_true_eq]
  constructor
  · rintro ⟨m, ⟨hm, h⟩, rfl⟩
    exact ⟨m, hm, rfl, h⟩
  · rintro ⟨m, hm, rfl, h⟩
    exact ⟨m, ⟨hm, h⟩, rfl⟩

theorem news_congr (h : ∀ m, m ∈ ms ↔ m ∈ ms') : news r us ms = news r us ms' := by
  ext s
  simp only [mem_news, h]

/-- **The messages determine the entry**, whatever their order and however
    often each occurs. -/
theorem Recorded.unique (h₁ : Recorded J r us ms r₁) (h₂ : Recorded J r us ms' r₂)
    (h : ∀ m, m ∈ ms ↔ m ∈ ms') : r₁ = r₂ := by
  have hmax : r₁.maxSeq = r₂.maxSeq := by
    refine h₁.maxSeq.unique ?_
    simpa only [h] using h₂.maxSeq
  have hhidden : r₁.isHidden = r₂.isHidden := by
    rw [Bool.eq_iff_iff, h₁.isHidden, h₂.isHidden]
    simp only [h]
  have hlatest : r₁.latestMessage = r₂.latestMessage ∧ r₁.latestTime = r₂.latestTime := by
    by_cases hold : r₁.maxSeq = r.maxSeq
    · obtain ⟨hm, ht⟩ := h₁.unchanged hold
      obtain ⟨hm', ht'⟩ := h₂.unchanged (hmax.symm.trans hold)
      exact ⟨hm.trans hm'.symm, ht.trans ht'.symm⟩
    · obtain ⟨m, hm, hseq⟩ := h₁.maxSeq.1.resolve_left hold
      have hlt : r.maxSeq < m.seq := by
        have := h₁.maxSeq.2 (.inl rfl)
        omega
      obtain ⟨hs, ht⟩ := h₁.latest m hm hseq.symm hlt
      obtain ⟨hs', ht'⟩ := h₂.latest m ((h m).1 hm) (hseq.symm.trans hmax) hlt
      exact ⟨Option.some.inj (hs.symm.trans hs'), ht.symm.trans ht'⟩
  have hcount : r₁.unreadCount = r₂.unreadCount := by
    rw [h₁.unreadCount, h₂.unreadCount, news_congr h]
  rw [h₁.rest, h₂.rest, hmax, hhidden, hlatest.1, hlatest.2, hcount]

theorem Recorded.nil (r : ConversationRow) (us : List UnreadRow) : Recorded J r us [] r where
  rest := rfl
  maxSeq := ⟨.inl rfl, by rintro s (rfl | ⟨m, hm, -⟩) <;> simp_all⟩
  latest := by simp
  unchanged _ := ⟨rfl, rfl⟩
  isHidden := by simp
  unreadCount := by simp [news]

/-- The entry is hidden still exactly if no message came above it. -/
theorem Recorded.maxSeq_le (h : Recorded J r us ms r') : r.maxSeq ≤ r'.maxSeq := h.maxSeq.2 (.inl rfl)

theorem Recorded.maxSeq_eq (h : Recorded J r us ms r') (hle : ∀ m ∈ ms, m.seq ≤ r.maxSeq) :
    r'.maxSeq = r.maxSeq := by
  rcases h.maxSeq.1 with he | ⟨m, hm, he⟩
  · exact he
  · have := hle m hm
    have := h.maxSeq_le
    omega

/-- **One more message**: it becomes the latest one if its number is above the
    old maximum, and changes nothing but the counter otherwise. -/
theorem Recorded.snoc {latest : String} (h : Recorded J r us ms r') (hs : conversationSummary J m = some latest)
    (hdist : ∀ m' ∈ ms, m'.seq = m.seq → m' = m) :
    Recorded J r us (ms ++ [m]) { r'.record m.seq m.sendTime latest with
      unreadCount := r.unreadCount + (news r us (ms ++ [m])).card } where
  rest := by
    have hr := h.rest
    simp only [ConversationRow.mk.injEq] at hr ⊢
    cases r'
    simp_all [ConversationRow.record]
  maxSeq := by
    refine ⟨?_, ?_⟩
    · rcases max_choice r'.maxSeq m.seq with he | he
      · rcases h.maxSeq.1 with hr | ⟨m', hm', hr⟩
        · exact .inl (he.trans hr)
        · exact .inr ⟨m', by simp [hm'], he.trans hr⟩
      · exact .inr ⟨m, by simp, he⟩
    · rintro s (rfl | ⟨m', hm', rfl⟩)
      · exact h.maxSeq_le.trans (le_max_left _ _)
      · rcases List.mem_append.1 hm' with hm' | hm'
        · exact (h.maxSeq.2 (.inr ⟨m', hm', rfl⟩)).trans (le_max_left _ _)
        · rw [List.mem_singleton.1 hm']
          exact le_max_right _ _
  latest := by
    intro m' hm' hseq hlt
    simp only [ConversationRow.record] at hseq ⊢
    by_cases hnew : r'.maxSeq < m.seq
    · rw [max_eq_right hnew.le] at hseq
      obtain rfl : m' = m := by
        rcases List.mem_append.1 hm' with hm' | hm'
        · exact hdist m' hm' hseq
        · exact List.mem_singleton.1 hm'
      simp [hnew, hs]
    · rw [max_eq_left (not_lt.1 hnew)] at hseq
      have hmem : m' ∈ ms := by
        rcases List.mem_append.1 hm' with hm' | hm'
        · exact hm'
        · -- a repetition: the latest message has this number already
          obtain rfl := List.mem_singleton.1 hm'
          obtain ⟨m₀, hm₀, he⟩ := h.maxSeq.1.resolve_left (by omega)
          rw [← hdist m₀ hm₀ (he.symm.trans hseq.symm)]
          exact hm₀
      simpa [hnew] using h.latest m' hmem hseq hlt
  unchanged := by
    intro he
    simp only [ConversationRow.record] at he ⊢
    have hle := h.maxSeq_le
    have hnew : ¬ r'.maxSeq < m.seq := by omega
    rw [if_neg hnew, if_neg hnew]
    exact h.unchanged (by omega)
  isHidden := by
    have hle := h.maxSeq_le
    simp only [ConversationRow.record, List.forall_mem_append, List.forall_mem_singleton]
    by_cases hnew : r'.maxSeq < m.seq
    · simp only [hnew, ↓reduceIte, Bool.false_eq_true, false_iff]
      rintro ⟨-, -, hm⟩
      omega
    · simp only [hnew, ↓reduceIte, h.isHidden]
      refine and_congr_right fun _ => ⟨fun hall => ⟨hall, ?_⟩, fun hall => hall.1⟩
      have := h.maxSeq_eq hall
      omega
  unreadCount := rfl

theorem news_snoc (r : ConversationRow) (us : List UnreadRow) (ms : List MsgData) (m : MsgData) :
    news r us (ms ++ [m]) =
      if m.recvID = r.owner ∧ r.readSeq < m.seq ∧ r.minSeq < m.seq ∧ ⟨r.owner, r.conversation, m.seq⟩ ∉ us
      then insert m.seq (news r us ms) else news r us ms := by
  ext s
  split_ifs with hm
  · rw [Finset.mem_insert, mem_news, mem_news]
    simp only [List.mem_append, List.mem_singleton, or_and_right, exists_or, exists_eq_left]
    constructor
    · rintro (h | ⟨rfl, -⟩)
      · exact .inr h
      · exact .inl rfl
    · rintro (rfl | h)
      · exact .inr ⟨rfl, hm⟩
      · exact .inl h
  · rw [mem_news, mem_news]
    simp only [List.mem_append, List.mem_singleton, or_and_right, exists_or, exists_eq_left, or_iff_left_iff_imp]
    rintro ⟨rfl, h⟩
    exact absurd h hm

end

/-- The message goes from one of the two accounts to the other, in `conv`. -/
structure Between (o p : Account) (conv : String) (m : MsgData) : Prop where
  convID : m.convID = conv
  ends : (m.sendID = o ∧ m.recvID = p) ∨ (m.sendID = p ∧ m.recvID = o)

section
variable {J : Codec} {db : Db} {o p : Account} {conv : String} {m : MsgData} {latest : String}

theorem Between.symm (h : Between o p conv m) : Between p o conv m := ⟨h.convID, h.ends.symm⟩

theorem Between.ne (h : Between o p conv m) (hop : o ≠ p) : m.sendID ≠ m.recvID := by
  rcases h.ends with ⟨hs, hr⟩ | ⟨hs, hr⟩
  · rwa [hs, hr]
  · rw [hs, hr]
    exact hop.symm

theorem entry_key (db : Db) (o p : Account) (conv : String) :
    (db.entry o p conv).owner = o ∧ (db.entry o p conv).conversation = conv := by
  unfold Db.entry
  cases h : db.conversation? o conv with
  | none => exact ⟨rfl, rfl⟩
  | some r => simpa using List.find?_some h

/-- The call for the entry of either account. -/
theorem conversation?_between (latest : String) (hk : db.EntryKeys) (hseq : 0 < m.seq) (hop : o ≠ p)
    (hm : Between o p conv m) :
    (db.recordConversationMessage m latest).conversation? o conv = some (db.recorded? o p m latest) := by
  rw [conversation?_record hk hseq (hm.ne hop)]
  rcases hm.ends with ⟨rfl, rfl⟩ | ⟨rfl, rfl⟩
  · rw [if_pos ⟨rfl, hm.convID.symm⟩]
  · rw [if_neg (fun h => hop h.1), if_pos ⟨rfl, hm.convID.symm⟩]

/-- The call for the unread set of either account. -/
theorem unread_between (hk : db.EntryKeys) (hseq : 0 < m.seq) (hop : o ≠ p) (hm : Between o p conv m) (s : ℤ) :
    ⟨o, conv, s⟩ ∈ (db.recordConversationMessage m latest).unread ↔
      ⟨o, conv, s⟩ ∈ db.unread ∨ (db.Arrives o (db.entry o p conv) m ∧ s = m.seq) := by
  rw [mem_unread_record hk hseq (hm.ne hop)]
  obtain rfl := hm.convID
  rcases hm.ends with ⟨rfl, rfl⟩ | ⟨rfl, rfl⟩
  · have hno : ¬ db.Arrives m.sendID (db.entry m.sendID m.recvID m.convID) m := fun h => hop h.1.symm
    simp [hno, hop]
  · simp

/-- What a list of calls leaves of one entry and its unread set. -/
structure Db.After (J : Codec) (db : Db) (o p : Account) (conv : String) (ms : List MsgData) (db' : Db) : Prop where
  keys : db'.EntryKeys
  entry : Recorded J (db.entry o p conv) db.unread ms (db'.entry o p conv)
  absent : ms = [] → db'.conversation? o conv = db.conversation? o conv
  present : ms ≠ [] → db'.conversation? o conv = some (db'.entry o p conv)
  unread : ∀ s, ⟨o, conv, s⟩ ∈ db'.unread ↔
    ⟨o, conv, s⟩ ∈ db.unread ∨ s ∈ news (db.entry o p conv) db.unread ms

/-- A message that is in the unread set already, or was put there by an
    earlier message of the list, does not arrive. -/
theorem Db.After.arrives {ms : List MsgData} {db' : Db} (h : db.After J o p conv ms db') (hm : Between o p conv m) :
    db'.Arrives o (db'.entry o p conv) m ↔
      (m.recvID = o ∧ (db.entry o p conv).readSeq < m.seq ∧ (db.entry o p conv).minSeq < m.seq ∧
        ⟨o, conv, m.seq⟩ ∉ db.unread) ∧ m.seq ∉ news (db.entry o p conv) db.unread ms := by
  have hrest := h.entry.rest
  have hread : (db'.entry o p conv).readSeq = (db.entry o p conv).readSeq := by rw [hrest]
  have hmin : (db'.entry o p conv).minSeq = (db.entry o p conv).minSeq := by rw [hrest]
  unfold Db.Arrives
  rw [hm.convID, h.unread, hread, hmin, not_or, and_assoc, and_assoc, and_assoc]

/-- One more call. -/
theorem Db.After.record {ms : List MsgData} {db' : Db} (h : db.After J o p conv ms db') (hop : o ≠ p)
    (hm : Between o p conv m) (hseq : 0 < m.seq) (hs : conversationSummary J m = some latest)
    (hdist : ∀ m' ∈ ms, m'.seq = m.seq → m' = m) :
    db.After J o p conv (ms ++ [m]) (db'.recordConversationMessage m latest) := by
  obtain ⟨ho, hc⟩ := entry_key db o p conv
  have hsnoc := news_snoc (db.entry o p conv) db.unread ms m
  rw [ho, hc] at hsnoc
  have hcard : (db'.entry o p conv).unreadCount + (if db'.Arrives o (db'.entry o p conv) m then 1 else 0) =
      (db.entry o p conv).unreadCount + (news (db.entry o p conv) db.unread (ms ++ [m])).card := by
    rw [h.entry.unreadCount, hsnoc, Nat.add_assoc]
    refine congrArg _ ?_
    simp only [h.arrives hm]
    split_ifs with ha hnew hnew
    · rw [Finset.card_insert_of_notMem ha.2]
    · exact absurd ha.1 hnew
    · rw [Finset.insert_eq_self.2 (not_not.1 fun hn => ha ⟨hnew, hn⟩), Nat.add_zero]
    · rfl
  have hconv := conversation?_between latest h.keys hseq hop hm
  have hentry : (db'.recordConversationMessage m latest).entry o p conv =
      { (db'.entry o p conv).record m.seq m.sendTime latest with
        unreadCount := (db.entry o p conv).unreadCount +
          (news (db.entry o p conv) db.unread (ms ++ [m])).card } := by
    rw [Db.entry, hconv, Option.getD_some, ← hcard]
    simp only [Db.recorded?, hm.convID, ConversationRow.record, Db.Arrives]
  refine ⟨entryKeys_record _ h.keys hseq (hm.ne hop), ?_, by simp, fun _ => ?_, fun s => ?_⟩
  · rw [hentry]
    exact h.entry.snoc hs hdist
  · rw [Db.entry, hconv, Option.getD_some]
  · rw [unread_between h.keys hseq hop hm, h.unread, h.arrives hm, hsnoc]
    split_ifs with hnew
    · rw [Finset.mem_insert]
      by_cases hin : m.seq ∈ news (db.entry o p conv) db.unread ms
      · simp only [hin, not_true_eq_false, and_false, false_and, or_false]
        constructor
        · exact Or.imp_right .inr
        · rintro (h | rfl | h)
          · exact .inl h
          · exact .inr hin
          · exact .inr h
      · simp only [hnew, hin, not_false_eq_true, and_self, true_and]
        tauto
    · simp [hnew]

/-- **A list of calls.** -/
theorem recordAll_after (hk : db.EntryKeys) (hop : o ≠ p) {ms : List MsgData} (hms : ∀ m ∈ ms, Between o p conv m)
    (hdist : ∀ m ∈ ms, ∀ m' ∈ ms, m.seq = m'.seq → m = m') :
    db.After J o p conv (ms.filter (recordable J)) (db.recordAll J ms) := by
  induction ms using List.reverseRecOn with
  | nil =>
    refine ⟨hk, Recorded.nil _ _, fun _ => rfl, by simp, fun s => ?_⟩
    simp [Db.recordAll, news]
  | append_singleton ms m ih =>
    have ih := ih (fun m' hm' => hms m' (by simp [hm'])) fun m₁ h₁ m₂ h₂ => hdist m₁ (by simp [h₁]) m₂ (by simp [h₂])
    have hall : db.recordAll J (ms ++ [m]) = (db.recordAll J ms).recordMessage J m := by
      simp [Db.recordAll, List.foldl_append]
    rw [hall, List.filter_append]
    cases hrec : recordable J m with
    | false =>
      rw [recordMessage_of_not hrec, List.filter_singleton, hrec]
      simpa using ih
    | true =>
      obtain ⟨latest, hs, hseq, he⟩ := recordMessage_of (db.recordAll J ms) hrec
      rw [he, List.filter_singleton, hrec]
      refine ih.record hop (hms m (by simp)) hseq hs fun m' hm' => ?_
      exact hdist m' (by simp [List.mem_of_mem_filter hm']) m (by simp)

/-- Two lists with the same messages leave the same. -/
theorem Db.After.same {ms ms' : List MsgData} {db₁ db₂ : Db} (h₁ : db.After J o p conv ms db₁)
    (h₂ : db.After J o p conv ms' db₂) (h : ∀ m, m ∈ ms ↔ m ∈ ms') :
    db₁.conversation? o conv = db₂.conversation? o conv ∧
      ∀ s, ⟨o, conv, s⟩ ∈ db₁.unread ↔ ⟨o, conv, s⟩ ∈ db₂.unread := by
  refine ⟨?_, fun s => by rw [h₁.unread, h₂.unread, news_congr h]⟩
  by_cases hnil : ms = []
  · have hnil' : ms' = [] := List.eq_nil_iff_forall_not_mem.2 fun m hm => by simpa [hnil] using (h m).2 hm
    rw [h₁.absent hnil, h₂.absent hnil']
  · have hnil' : ms' ≠ [] := fun he =>
      hnil (List.eq_nil_iff_forall_not_mem.2 fun m hm => by simpa [he] using (h m).1 hm)
    rw [h₁.present hnil, h₂.present hnil', h₁.entry.unique h₂.entry h]

/-- The other entries and unread sets are left alone. -/
theorem recordAll_other (hk : db.EntryKeys) (hop : o ≠ p) {ms : List MsgData}
    (hms : ∀ m ∈ ms, Between o p conv m) {x : Account} {c : String} (hx : ¬ ((x = o ∨ x = p) ∧ c = conv)) :
    (db.recordAll J ms).conversation? x c = db.conversation? x c ∧
      ∀ s, ⟨x, c, s⟩ ∈ (db.recordAll J ms).unread ↔ ⟨x, c, s⟩ ∈ db.unread := by
  induction ms generalizing db with
  | nil => exact ⟨rfl, fun _ => Iff.rfl⟩
  | cons m ms ih =>
    have hms' : ∀ m' ∈ ms, Between o p conv m' := fun m' hm' => hms m' (by simp [hm'])
    have hm := hms m (by simp)
    have hall : db.recordAll J (m :: ms) = (db.recordMessage J m).recordAll J ms := rfl
    rw [hall]
    cases hrec : recordable J m with
    | false =>
      rw [recordMessage_of_not hrec]
      exact ih hk hms'
    | true =>
      obtain ⟨latest, -, hseq, he⟩ := recordMessage_of db hrec
      have hne := hm.ne hop
      have hsend : ¬ (x = m.sendID ∧ c = m.convID) := by
        rintro ⟨rfl, rfl⟩
        rcases hm.ends with ⟨h, -⟩ | ⟨h, -⟩
        · exact hx ⟨.inl h, hm.convID⟩
        · exact hx ⟨.inr h, hm.convID⟩
      have hrecv : ¬ (x = m.recvID ∧ c = m.convID) := by
        rintro ⟨rfl, rfl⟩
        rcases hm.ends with ⟨-, h⟩ | ⟨-, h⟩
        · exact hx ⟨.inr h, hm.convID⟩
        · exact hx ⟨.inl h, hm.convID⟩
      obtain ⟨hc, hu⟩ := ih (entryKeys_record latest hk hseq hne) hms'
      rw [he, hc, conversation?_record hk hseq hne, if_neg hsend, if_neg hrecv]
      refine ⟨rfl, fun s => ?_⟩
      rw [hu, mem_unread_record hk hseq hne, or_iff_left]
      rintro ⟨-, heq⟩
      exact hrecv ⟨congrArg (·.owner) heq, congrArg (·.conversation) heq⟩

end

/-- **Recording in any order.**  The entries and unread sets that a list of
    messages of one pair leaves depend on the set of its messages only: each
    entry is the `Recorded` one, the unread set of each account gains its
    `news`, and nothing else changes. -/
theorem record_any_order (J : Codec) (db : Db) (hk : db.EntryKeys) (a b : Account) (hab : a ≠ b) (conv : String)
    (ms : List MsgData) (hms : ∀ m ∈ ms, Between a b conv m)
    (hdist : ∀ m ∈ ms, ∀ m' ∈ ms, m.seq = m'.seq → m = m') :
    (∀ ms', (∀ m, m ∈ ms' ↔ m ∈ ms) →
      (∀ o c, (db.recordAll J ms').conversation? o c = (db.recordAll J ms).conversation? o c) ∧
      ∀ u, u ∈ (db.recordAll J ms').unread ↔ u ∈ (db.recordAll J ms).unread) ∧
    (∀ o p, (o = a ∧ p = b) ∨ (o = b ∧ p = a) →
      (ms.filter (recordable J) ≠ [] → ∃ r', (db.recordAll J ms).conversation? o conv = some r' ∧
        Recorded J (db.entry o p conv) db.unread (ms.filter (recordable J)) r') ∧
      (ms.filter (recordable J) = [] → (db.recordAll J ms).conversation? o conv = db.conversation? o conv) ∧
      ∀ s, ⟨o, conv, s⟩ ∈ (db.recordAll J ms).unread ↔
        ⟨o, conv, s⟩ ∈ db.unread ∨ s ∈ news (db.entry o p conv) db.unread (ms.filter (recordable J))) ∧
    ∀ o c, ¬ ((o = a ∨ o = b) ∧ c = conv) →
      (db.recordAll J ms).conversation? o c = db.conversation? o c ∧
      ∀ s, ⟨o, c, s⟩ ∈ (db.recordAll J ms).unread ↔ ⟨o, c, s⟩ ∈ db.unread := by
  have hafter : ∀ ms', (∀ m, m ∈ ms' ↔ m ∈ ms) → ∀ o p, (o = a ∧ p = b) ∨ (o = b ∧ p = a) →
      db.After J o p conv (ms'.filter (recordable J)) (db.recordAll J ms') := by
    rintro ms' h o p hop
    refine recordAll_after hk ?_ (fun m hm => ?_) fun m hm m' hm' => hdist m ((h m).1 hm) m' ((h m').1 hm')
    · rcases hop with ⟨rfl, rfl⟩ | ⟨rfl, rfl⟩
      · exact hab
      · exact hab.symm
    · rcases hop with ⟨rfl, rfl⟩ | ⟨rfl, rfl⟩
      · exact hms m ((h m).1 hm)
      · exact (hms m ((h m).1 hm)).symm
  refine ⟨fun ms' h => ?_, fun o p hop => ?_, fun o c => recordAll_other hk hab hms⟩
  · have hmem : ∀ m, m ∈ ms'.filter (recordable J) ↔ m ∈ ms.filter (recordable J) := fun m => by
      rw [List.mem_filter, List.mem_filter, h]
    have hms' : ∀ m ∈ ms', Between a b conv m := fun m hm => hms m ((h m).1 hm)
    -- one owner at a time: of the pair, or any other
    have howner : ∀ o c, (db.recordAll J ms').conversation? o c = (db.recordAll J ms).conversation? o c ∧
        ∀ s, ⟨o, c, s⟩ ∈ (db.recordAll J ms').unread ↔ ⟨o, c, s⟩ ∈ (db.recordAll J ms).unread := by
      intro o c
      by_cases hin : (o = a ∨ o = b) ∧ c = conv
      · obtain ⟨ho, rfl⟩ := hin
        obtain ⟨p, hop⟩ : ∃ p, (o = a ∧ p = b) ∨ (o = b ∧ p = a) := by
          rcases ho with rfl | rfl
          · exact ⟨b, .inl ⟨rfl, rfl⟩⟩
          · exact ⟨a, .inr ⟨rfl, rfl⟩⟩
        exact (hafter ms' h o p hop).same (hafter ms (fun _ => Iff.rfl) o p hop) hmem
      · obtain ⟨hc, hu⟩ := recordAll_other (J := J) hk hab hms' hin
        obtain ⟨hc', hu'⟩ := recordAll_other (J := J) hk hab hms hin
        exact ⟨hc.trans hc'.symm, fun s => (hu s).trans (hu' s).symm⟩
    exact ⟨fun o c => (howner o c).1, fun u => (howner u.owner u.conversation).2 u.seq⟩
  · have ha := hafter ms (fun _ => Iff.rfl) o p hop
    exact ⟨fun hne => ⟨_, ha.present hne, ha.entry⟩, ha.absent, ha.unread⟩

/-- A question of account 1 and the answer of account 2. -/
def question : MsgData := { sendID := 1, recvID := 2, convID := "1_2", serverMsgID := "q", seq := 5, sendTime := 100 }
def answer : MsgData := { sendID := 2, recvID := 1, convID := "1_2", serverMsgID := "a", seq := 6, sendTime := 200 }

/-- The answer recorded first, and again at the end. -/
theorem answer_first :
    Db.conversation? (Db.recordAll (.single question "q" "info" "dump" (by decide)) {} [answer, question, answer]) 1 "1_2" =
      Db.conversation? (Db.recordAll (.single question "q" "info" "dump" (by decide)) {} [question, answer]) 1 "1_2" := by
  have hms : ∀ m ∈ [question, answer], Between 1 2 "1_2" m := by
    intro m hm
    rcases List.mem_pair.1 hm with rfl | rfl
    · exact ⟨rfl, .inl ⟨rfl, rfl⟩⟩
    · exact ⟨rfl, .inr ⟨rfl, rfl⟩⟩
  have hdist : ∀ m ∈ [question, answer], ∀ m' ∈ [question, answer], m.seq = m'.seq → m = m' := by decide
  have hmem : ∀ m, m ∈ [answer, question, answer] ↔ m ∈ [question, answer] := by
    intro m
    simp only [List.mem_cons, List.not_mem_nil, or_false]
    tauto
  exact ((record_any_order _ {} (by simp [Db.EntryKeys]) 1 2 (by decide) "1_2" [question, answer] hms hdist).1
    [answer, question, answer] hmem).1 1 "1_2"

end ApeServer
