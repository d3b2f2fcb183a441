/-
  Marking a conversation as read (`MarkConversationRead`).

  A valid call moves the read position of the entry up to its argument, never
  back, so that calls form a semilattice under `max`.

  * `Db.readTo` puts the position of an entry at a given place;
  * `markConversationRead_valid`: a call is `readTo` at the larger position;
  * `markAll_eq`: a list of calls is one call with the largest valid argument;
  * `mark_read` is the statement about calls.
-/
import ApeServer.Unread

namespace ApeServer

open Table

/-! ## The read position -/

/-- The rows of the unread set up to a position. -/
def readRow (owner : Account) (conv : String) (p : Int) (u : UnreadRow) : Bool :=
  u.owner = owner && u.conversation = conv && u.seq ≤ p

namespace Db

/-- The entry is read up to `p`: what is left in its unread set is above `p`,
    and its counter is the size of that set. -/
def readTo (db : Db) (owner : Account) (conv : String) (p : Int) : Db :=
  Db.updateConversation { db with unread := deleteWhere (readRow owner conv p) db.unread } owner conv
    fun r =>
      { r with
        readSeq := p
        unreadCount := (unreadOf owner conv (deleteWhere (readRow owner conv p) db.unread)).length }

/-- An argument that the entry accepts: a position of one of its messages. -/
def validSeq (db : Db) (owner : Account) (conv : String) (seq : Int) : Bool :=
  (db.conversation? owner conv).any fun r => 0 < seq && seq ≤ r.maxSeq

/-- A list of calls, from left to right. -/
def markAll (db : Db) (owner : Account) (conv : String) (seqs : List Int) : Db :=
  seqs.foldl (fun db seq => (db.markConversationRead owner conv seq).2) db

end Db

/-- The entry is the only one with its key, and its counter and unread set are
    in order. -/
structure Db.Counted (db : Db) (owner : Account) (conv : String) : Prop where
  keys : (db.conversations.map fun r => (r.owner, r.conversation)).Nodup
  row : ∀ r, db.conversation? owner conv = some r → r.Counts (unreadOf owner conv db.unread)

section
variable {db : Db} {owner : Account} {conv : String} {p q seq : Int} {r : ConversationRow}

theorem mem_of_conversation? (h : db.conversation? owner conv = some r) :
    r ∈ db.conversations ∧ r.owner = owner ∧ r.conversation = conv :=
  ⟨List.mem_of_find?_eq_some h, by simpa using List.find?_some h⟩

/-- The rows that an update of the entry touches. -/
theorem Db.Counted.eq_row (h : db.Counted owner conv) (hr : db.conversation? owner conv = some r)
    {r' : ConversationRow} (hr' : r' ∈ db.conversations)
    (hp : (r'.owner = owner && r'.conversation = conv) = true) : r' = r := by
  obtain ⟨hmem, ho, hc⟩ := mem_of_conversation? hr
  simp only [Bool.and_eq_true, decide_eq_true_eq] at hp
  exact eq_of_key h.keys hr' hmem (Prod.ext (hp.1.trans ho.symm) (hp.2.trans hc.symm))

theorem deleteWhere_readRow (h : p ≤ q) (us : List UnreadRow) :
    deleteWhere (readRow owner conv q) (deleteWhere (readRow owner conv p) us)
      = deleteWhere (readRow owner conv q) us := by
  unfold deleteWhere
  rw [List.filter_filter]
  refine List.filter_congr fun u _ => ?_
  by_cases hu : u.seq ≤ p
  · simp [readRow, hu, hu.trans h]
  · simp [readRow, hu]

/-- Only the last position counts. -/
theorem readTo_readTo (h : p ≤ q) : (db.readTo owner conv p).readTo owner conv q
    = db.readTo owner conv q := by
  unfold Db.readTo Db.updateConversation
  dsimp only
  rw [deleteWhere_readRow h]
  congr 1
  simp only [updateWhere, List.map_map]
  refine List.map_congr_left fun r _ => ?_
  by_cases hr : (r.owner = owner && r.conversation = conv) = true
  · simp only [Function.comp, hr, if_true]
  · simp only [Function.comp, hr, Bool.false_eq_true, if_false]

/-- What the unread set keeps. -/
theorem unreadOf_readTo : unreadOf owner conv (db.readTo owner conv p).unread
    = (unreadOf owner conv db.unread).filter fun u => p < u.seq := by
  simp only [Db.readTo, Db.updateConversation, unreadOf, deleteWhere, List.filter_filter]
  refine List.filter_congr fun u _ => ?_
  by_cases hk : u.owner = owner ∧ u.conversation = conv
  · by_cases hle : u.seq ≤ p
    · simp [readRow, hk.1, hk.2, hle]
    · simp [readRow, hk.1, hk.2, hle, not_le.1 hle]
  · have hn : (decide (u.owner = owner) && decide (u.conversation = conv)) = false := by
      simpa using hk
    simp only [hn, Bool.false_and, Bool.and_false]

/-- The entry after `readTo`. -/
theorem conversation?_readTo (hr : db.conversation? owner conv = some r) :
    (db.readTo owner conv p).conversation? owner conv = some { r with
      readSeq := p
      unreadCount := (unreadOf owner conv (db.readTo owner conv p).unread).length } := by
  obtain ⟨-, ho, hc⟩ := mem_of_conversation? hr
  unfold Db.conversation? at hr ⊢
  unfold Db.readTo Db.updateConversation
  dsimp only
  rw [find?_updateWhere, hr]
  · simp [ho, hc]
  · intro x _
    rfl

/-! ## One call -/

/-- An entry that is read up to its own position stays as it is. -/
theorem readTo_self (h : db.Counted owner conv) (hr : db.conversation? owner conv = some r) :
    db.readTo owner conv r.readSeq = db := by
  have hcount := h.row r hr
  have hunread : deleteWhere (readRow owner conv r.readSeq) db.unread = db.unread := by
    refine List.filter_eq_self.2 fun u hu => ?_
    by_cases hk : u.owner = owner ∧ u.conversation = conv
    · have := (hcount.seq u (mem_unreadOf.2 ⟨hu, hk⟩)).1
      simp [readRow, this]
    · have : (decide (u.owner = owner) && decide (u.conversation = conv)) = false := by
        simpa using hk
      simp [readRow, this]
  unfold Db.readTo Db.updateConversation
  rw [hunread, ← hcount.count]
  have hconv : updateWhere (fun r' : ConversationRow => r'.owner = owner && r'.conversation = conv)
      (fun r' => { r' with readSeq := r.readSeq, unreadCount := r.unreadCount }) db.conversations
        = db.conversations := by
    conv_rhs => rw [← List.map_id db.conversations]
    refine List.map_congr_left fun r' hr' => ?_
    split_ifs with hp
    · rw [h.eq_row hr hr' hp]
      rfl
    · rfl
  rw [hconv]

theorem validSeq_iff : db.validSeq owner conv seq = true ↔
    ∃ r, db.conversation? owner conv = some r ∧ 0 < seq ∧ seq ≤ r.maxSeq := by
  unfold Db.validSeq
  cases db.conversation? owner conv with
  | none => simp
  | some r => simp

/-- A call with a refused argument. -/
theorem markConversationRead_invalid (h : db.validSeq owner conv seq = false) :
    db.markConversationRead owner conv seq = (false, db) := by
  have hv := mt validSeq_iff.2 (Bool.eq_false_iff.1 h)
  unfold Db.markConversationRead
  split
  · rfl
  · next r hr =>
    refine if_pos ?_
    by_contra hc
    obtain ⟨h₁, h₂⟩ := not_or.1 hc
    exact hv ⟨r, hr, not_le.1 h₁, not_lt.1 h₂⟩

/-- A call with an accepted argument moves the position up to it. -/
theorem markConversationRead_valid (h : db.Counted owner conv)
    (hr : db.conversation? owner conv = some r) (h₀ : 0 < seq) (hmax : seq ≤ r.maxSeq) :
    db.markConversationRead owner conv seq = (true, db.readTo owner conv (max r.readSeq seq)) := by
  unfold Db.markConversationRead
  rw [hr]
  dsimp only
  rw [if_neg (by omega)]
  split_ifs with hold
  · rw [max_eq_left hold, readTo_self h hr]
  · rw [max_eq_right (not_le.1 hold).le]
    unfold Db.readTo Db.updateConversation
    refine congrArg (Prod.mk true) ?_
    congr 1
    -- the saturating subtraction is exact on the only row that it touches
    have hlen := length_unreadOf_read db.unread owner conv seq
    refine List.map_congr_left fun r' hr' => ?_
    split_ifs with hp
    · rw [h.eq_row hr hr' hp]
      have hcount := (h.row r hr).count
      have hsub : r.unreadCount - min r.unreadCount
          (db.unread.filter fun u => u.owner = owner && u.conversation = conv && u.seq ≤ seq).length
          = (unreadOf owner conv (deleteWhere (readRow owner conv seq) db.unread)).length := by
        unfold readRow
        omega
      dsimp only
      rw [hsub]
    · rfl

/-! ## Any number of calls -/

theorem validSeq_readTo (hr : db.conversation? owner conv = some r) (seq : Int) :
    (db.readTo owner conv p).validSeq owner conv seq = db.validSeq owner conv seq := by
  unfold Db.validSeq
  rw [conversation?_readTo hr, hr]
  rfl

/-- An entry that is not read beyond its last message stays in order. -/
theorem Db.Counted.readTo (h : db.Counted owner conv) (hr : db.conversation? owner conv = some r)
    (hmax : p ≤ r.maxSeq) : (db.readTo owner conv p).Counted owner conv := by
  refine ⟨?_, fun r' hr' => ?_⟩
  · refine (congrArg List.Nodup (map_updateWhere ?_ db.conversations)).mpr h.keys
    intro r
    rfl
  · rw [conversation?_readTo hr] at hr'
    cases hr'
    refine ⟨rfl, fun u hu => ?_, hmax⟩
    rw [unreadOf_readTo, List.mem_filter] at hu
    obtain ⟨-, h₂, h₃⟩ := (h.row r hr).seq u hu.1
    exact ⟨by simpa using hu.2, h₂, h₃⟩

/-- The position after some calls is not beyond the last message. -/
theorem position_le (h : db.Counted owner conv) (hr : db.conversation? owner conv = some r)
    (seqs : List Int) : (seqs.filter (db.validSeq owner conv)).foldl max r.readSeq ≤ r.maxSeq := by
  rw [List.foldl_max]
  refine max_le (h.row r hr).read ?_
  cases hm : (seqs.filter (db.validSeq owner conv)).max? with
  | none => exact (h.row r hr).read
  | some m =>
    obtain ⟨r', hr', -, hle⟩ := validSeq_iff.1 (List.mem_filter.1 (List.max?_mem hm)).2
    rw [hr] at hr'
    cases hr'
    exact hle

/-- The calls put the position at the largest of the accepted arguments and the
    position before. -/
theorem markAll_readTo (h : db.Counted owner conv) (hr : db.conversation? owner conv = some r)
    (seqs : List Int) :
    db.markAll owner conv seqs
      = db.readTo owner conv ((seqs.filter (db.validSeq owner conv)).foldl max r.readSeq) := by
  induction seqs using List.reverseRecOn with
  | nil => exact (readTo_self h hr).symm
  | append_singleton seqs seq ih =>
    have hlast : db.markAll owner conv (seqs ++ [seq])
        = ((db.markAll owner conv seqs).markConversationRead owner conv seq).2 := by
      simp [Db.markAll]
    rw [hlast, ih, List.filter_append, List.foldl_append]
    have hbound := position_le h hr seqs
    generalize (seqs.filter (db.validSeq owner conv)).foldl max r.readSeq = p at hbound ⊢
    have hrow := conversation?_readTo (p := p) hr
    cases hv : db.validSeq owner conv seq with
    | false =>
      rw [markConversationRead_invalid ((validSeq_readTo hr seq).trans hv)]
      simp [hv]
    | true =>
      obtain ⟨r', hr', h₀, hle⟩ := validSeq_iff.1 hv
      rw [hr] at hr'
      cases hr'
      rw [markConversationRead_valid (h.readTo hr hbound) hrow h₀ hle,
        readTo_readTo (le_max_left _ _)]
      simp [hv]

theorem markAll_of_no_row (hr : db.conversation? owner conv = none) (seqs : List Int) :
    db.markAll owner conv seqs = db := by
  induction seqs with
  | nil => rfl
  | cons seq seqs ih =>
    have hv : db.validSeq owner conv seq = false := by simp [Db.validSeq, hr]
    rw [Db.markAll, List.foldl_cons, markConversationRead_invalid hv]
    exact ih

/-- **A list of calls** is one call with its largest accepted argument. -/
theorem markAll_eq (h : db.Counted owner conv) (seqs : List Int) :
    db.markAll owner conv seqs =
      ((seqs.filter (db.validSeq owner conv)).max?.map fun m =>
        (db.markConversationRead owner conv m).2).getD db := by
  cases hr : db.conversation? owner conv with
  | none =>
    have hnil : seqs.filter (db.validSeq owner conv) = [] := by simp [Db.validSeq, hr]
    rw [markAll_of_no_row hr, hnil]
    rfl
  | some r =>
    rw [markAll_readTo h hr, List.foldl_max]
    cases hm : (seqs.filter (db.validSeq owner conv)).max? with
    | none => simp [readTo_self h hr]
    | some m =>
      obtain ⟨r', hr', h₀, hle⟩ := validSeq_iff.1 (List.mem_filter.1 (List.max?_mem hm)).2
      rw [hr] at hr'
      cases hr'
      simp [markConversationRead_valid h hr h₀ hle]

end

/-- Every reachable state has its entries in order. -/
theorem ConvTrace.counted {J : Codec} {summary : Option Doc → String} (T : ConvTrace J summary)
    {i : ℕ} (hi : i ≤ T.len) (owner : Account) (conv : String) : (T.state i).Counted owner conv := by
  have h := T.unreadOk hi
  refine ⟨h.keys, fun r hr => ?_⟩
  obtain ⟨hmem, rfl, rfl⟩ := mem_of_conversation? hr
  exact h.row r hmem

/-- **Marking as read.**  On an entry in order, a call succeeds if and only if
    the entry exists and the argument is the position of one of its messages;
    it changes nothing if it fails, and otherwise moves the read position up to
    the argument, takes what is read from the unread set and counts the rest.
    After any list of calls the state is the one after a single call with the
    largest argument that is accepted. -/
theorem mark_read (db : Db) (owner : Account) (conv : String) (h : db.Counted owner conv) :
    (∀ seq, (db.markConversationRead owner conv seq).1 = true ↔
      ∃ r, db.conversation? owner conv = some r ∧ 0 < seq ∧ seq ≤ r.maxSeq) ∧
    (∀ seq, (db.markConversationRead owner conv seq).1 = false →
      (db.markConversationRead owner conv seq).2 = db) ∧
    (∀ seq r, db.conversation? owner conv = some r → (db.markConversationRead owner conv seq).1 = true →
      ∃ us, us = deleteWhere (readRow owner conv (max r.readSeq seq)) db.unread ∧
        unreadOf owner conv us = (unreadOf owner conv db.unread).filter (max r.readSeq seq < ·.seq) ∧
        (db.markConversationRead owner conv seq).2 =
          { db with
            unread := us
            conversations := updateWhere (fun r => r.owner = owner && r.conversation = conv) (fun r' =>
              { r' with readSeq := max r.readSeq seq, unreadCount := (unreadOf owner conv us).length })
              db.conversations }) ∧
    (∀ seqs, db.markAll owner conv seqs =
      ((seqs.filter (db.validSeq owner conv)).max?.map fun m =>
        (db.markConversationRead owner conv m).2).getD db) ∧
    (∀ seqs seqs',
      (seqs.filter (db.validSeq owner conv)).max? = (seqs'.filter (db.validSeq owner conv)).max? →
      db.markAll owner conv seqs = db.markAll owner conv seqs') := by
  have hfail : ∀ seq, db.validSeq owner conv seq = false →
      db.markConversationRead owner conv seq = (false, db) := fun _ => markConversationRead_invalid
  have hok : ∀ seq, db.validSeq owner conv seq = true → ∃ r, db.conversation? owner conv = some r ∧
      db.markConversationRead owner conv seq = (true, db.readTo owner conv (max r.readSeq seq)) := by
    intro seq hv
    obtain ⟨r, hr, h₀, hle⟩ := validSeq_iff.1 hv
    exact ⟨r, hr, markConversationRead_valid h hr h₀ hle⟩
  refine ⟨fun seq => ?_, fun seq hf => ?_, fun seq r hr ht => ?_, fun seqs => markAll_eq h seqs,
    fun seqs seqs' he => ?_⟩
  · rw [← validSeq_iff]
    cases hv : db.validSeq owner conv seq with
    | false => simp [hfail seq hv]
    | true =>
      obtain ⟨r, -, he⟩ := hok seq hv
      simp [he]
  · cases hv : db.validSeq owner conv seq with
    | false => rw [hfail seq hv]
    | true =>
      obtain ⟨r, -, he⟩ := hok seq hv
      rw [he] at hf
      cases hf
  · refine ⟨_, rfl, unreadOf_readTo, ?_⟩
    cases hv : db.validSeq owner conv seq with
    | false =>
      rw [hfail seq hv] at ht
      cases ht
    | true =>
      obtain ⟨r', hr', he⟩ := hok seq hv
      rw [hr] at hr'
      cases hr'
      rw [he]
      rfl
  · rw [markAll_eq h, markAll_eq h, he]


/-- An entry with five messages, of which the last three are unread. -/
def threeUnread : Db :=
  { conversations := [{ owner := 1, conversation := "c", peer := 2, maxSeq := 5, readSeq := 2, unreadCount := 3 }]
    unread := [⟨1, "c", 3⟩, ⟨1, "c", 4⟩, ⟨1, "c", 5⟩] }

theorem mark_read_threeUnread :
    threeUnread.markAll 1 "c" [4, 9, 3, 4] = (threeUnread.markConversationRead 1 "c" 4).2 :=
  (mark_read threeUnread 1 "c" ⟨by decide, fun r hr => by
    cases hr
    exact ⟨by decide, by decide, by decide⟩⟩).2.2.2.1 [4, 9, 3, 4]

end ApeServer
