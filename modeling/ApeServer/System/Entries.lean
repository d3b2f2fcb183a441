/-
  Conversation entries exist only between friends.

  What matters of an entry is its key, `(owner, peer, conversation)`:
  `EntriesOk` speaks of the keys, the unread sets, friendship and watermarks.

  * `mem_keys_record`, `mem_keys_delete`: the keys after a message is recorded
    or a conversation dropped;
  * `entries_step`: a step keeps it;
  * `entries_between_friends`.
-/
import ApeServer.System.Friendship

namespace ApeServer

open Table

/-! ## Keys -/

def ConversationRow.key (r : ConversationRow) : Account × Account × String :=
  (r.owner, r.peer, r.conversation)

/-- The keys of the entries. -/
def Db.keys (db : Db) : List (Account × Account × String) := db.conversations.map (·.key)

/-- The conversation of a key is that of its pair. -/
def Proper (k : Account × Account × String) : Prop := k.2.2 = conversationId k.1 k.2.1

theorem keys_update {p : ConversationRow → Bool} {f : ConversationRow → ConversationRow}
    {t : List ConversationRow} (hf : ∀ r : ConversationRow, (f r).key = r.key) :
    (updateWhere p f t).map (·.key) = t.map (·.key) := map_updateWhere hf t

/-- An upsert adds its key, if it is not there. -/
theorem mem_keys_upsert {owner peer : Account} {conv : String} {seq time : Int} {latest : String}
    {t : List ConversationRow} (ht : ∀ k ∈ t.map ConversationRow.key, Proper k)
    (hc : conv = conversationId owner peer) {k : Account × Account × String} :
    k ∈ (upsertConversation owner peer conv seq time latest t).map ConversationRow.key ↔
      k ∈ t.map ConversationRow.key ∨ k = (owner, peer, conv) := by
  unfold upsertConversation upsert
  split_ifs with h
  · rw [keys_update (by intro r; rfl)]
    refine ⟨Or.inl, fun hk => hk.elim id ?_⟩
    rintro rfl
    obtain ⟨r, hr, hp⟩ := List.any_eq_true.1 h
    simp only [Bool.and_eq_true, decide_eq_true_eq] at hp
    -- the row that is there has the same peer
    have hproper : r.conversation = conversationId r.owner r.peer := ht _ (List.mem_map_of_mem hr)
    have hpeer : r.peer = peer := by
      rw [hp.1, hp.2, hc] at hproper
      rcases conversationId_inj hproper with ⟨-, h₂⟩ | ⟨h₁, h₂⟩
      · exact h₂.symm
      · exact h₁.symm.trans h₂.symm
    refine List.mem_map.2 ⟨r, hr, ?_⟩
    rw [ConversationRow.key, hp.1, hp.2, hpeer]
  · simp [ConversationRow.key]

theorem mem_keys_record {db : Db} {m : MsgData} {latest : String} (hk : ∀ k ∈ db.keys, Proper k)
    (hc : m.convID = conversationId m.sendID m.recvID) {k : Account × Account × String} :
    k ∈ (db.recordConversationMessage m latest).keys ↔
      k ∈ db.keys ∨ k = (m.sendID, m.recvID, m.convID) ∨ k = (m.recvID, m.sendID, m.convID) := by
  have h₁ : ∀ k ∈ (upsertConversation m.sendID m.recvID m.convID m.seq m.sendTime latest
      db.conversations).map ConversationRow.key, Proper k := by
    intro k hmem
    rcases (mem_keys_upsert hk hc).1 hmem with hmem | rfl
    · exact hk k hmem
    · exact hc
  have hkeys : (db.recordConversationMessage m latest).keys =
      (upsertConversation m.recvID m.sendID m.convID m.seq m.sendTime latest
        (upsertConversation m.sendID m.recvID m.convID m.seq m.sendTime latest
          db.conversations)).map ConversationRow.key := by
    unfold Db.keys Db.recordConversationMessage
    dsimp only
    split_ifs
    · exact keys_update (by intro r; rfl)
    · rfl
  rw [hkeys, mem_keys_upsert h₁ (hc.trans (conversationId_comm _ _)), mem_keys_upsert hk hc, or_assoc]
  rfl

theorem mem_keys_delete {db : Db} {conv : String} {k : Account × Account × String} :
    k ∈ (db.deleteConversationPair conv).keys ↔ k ∈ db.keys ∧ k.2.2 ≠ conv := by
  unfold Db.keys Db.deleteConversationPair
  simp only [List.mem_map, mem_deleteWhere, decide_eq_false_iff_not]
  constructor
  · rintro ⟨r, ⟨hr, hne⟩, rfl⟩
    exact ⟨⟨r, hr, rfl⟩, hne⟩
  · rintro ⟨⟨r, hr, rfl⟩, hne⟩
    exact ⟨r, ⟨hr, hne⟩, rfl⟩

/-! ## The invariant -/

/-- An entry is one of a pair of friends, of which both have one, and what is
    unread is above the watermark. -/
structure Db.EntriesOk (db : Db) : Prop where
  friend : ∀ k ∈ db.keys, Proper k ∧ db.Friend k.1 k.2.1
  other : ∀ a b c, (a, b, c) ∈ db.keys → (b, a, c) ∈ db.keys
  unread : ∀ u ∈ db.unread, ∃ peer, (u.owner, peer, u.conversation) ∈ db.keys ∧
    db.Above u.owner peer u.seq

section
variable {J : Codec} {w w' : World} {es : List Event} {db db' : Db}

/-- Fewer unread messages, and more friends. -/
theorem Db.EntriesOk.mono (h : db.EntriesOk) (hk : db'.keys = db.keys) (hu : db'.unread ⊆ db.unread)
    (hf : ∀ a b, db.Friend a b → db'.Friend a b) (hd : db'.deletions = db.deletions) : db'.EntriesOk := by
  refine ⟨?_, ?_, ?_⟩
  · rw [hk]
    exact fun k hmem => ⟨(h.friend k hmem).1, hf _ _ (h.friend k hmem).2⟩
  · rw [hk]
    exact h.other
  · intro u hmem
    obtain ⟨peer, hkey, ha⟩ := h.unread u (hu hmem)
    exact ⟨peer, hk ▸ hkey, (above_congr hd).2 ha⟩

/-- A message between friends, above their watermark, is recorded. -/
theorem Db.EntriesOk.record (h : db.EntriesOk) {m : MsgData} {latest : String}
    (hc : m.convID = conversationId m.sendID m.recvID) (hf : db.Friend m.sendID m.recvID)
    (hf' : db.Friend m.recvID m.sendID) (ha : db.Above m.recvID m.sendID m.seq)
    (hk : db'.keys = (db.recordConversationMessage m latest).keys)
    (hu : db'.unread = (db.recordConversationMessage m latest).unread)
    (hfr : db'.friends = db.friends) (hd : db'.deletions = db.deletions) : db'.EntriesOk := by
  have hmem : ∀ {k}, k ∈ db'.keys ↔
      k ∈ db.keys ∨ k = (m.sendID, m.recvID, m.convID) ∨ k = (m.recvID, m.sendID, m.convID) := by
    intro k
    rw [hk]
    exact mem_keys_record (fun k hk => (h.friend k hk).1) hc
  refine ⟨fun k hk => ?_, fun a b c hk => ?_, fun u hmem' => ?_⟩
  · rcases hmem.1 hk with hk | rfl | rfl
    · exact ⟨(h.friend k hk).1, (friend_congr hfr).2 (h.friend k hk).2⟩
    · exact ⟨hc, (friend_congr hfr).2 hf⟩
    · exact ⟨hc.trans (conversationId_comm _ _), (friend_congr hfr).2 hf'⟩
  · rcases hmem.1 hk with hk | he | he
    · exact hmem.2 (Or.inl (h.other a b c hk))
    · cases he
      exact hmem.2 (Or.inr (Or.inr rfl))
    · cases he
      exact hmem.2 (Or.inr (Or.inl rfl))
  · rw [hu] at hmem'
    rcases unread_record hmem' with hmem' | rfl
    · obtain ⟨peer, hkey, ha⟩ := h.unread u hmem'
      exact ⟨peer, hmem.2 (Or.inl hkey), (above_congr hd).2 ha⟩
    · exact ⟨m.sendID, hmem.2 (Or.inr (Or.inr rfl)), (above_congr hd).2 ha⟩

/-- The conversation of a pair is dropped; other pairs keep friendship and
    watermark. -/
theorem Db.EntriesOk.drop (h : db.EntriesOk) {a b : Account}
    (hk : ∀ k, k ∈ db'.keys ↔ k ∈ db.keys ∧ k.2.2 ≠ conversationId a b)
    (hu : ∀ u ∈ db'.unread, u ∈ db.unread ∧ u.conversation ≠ conversationId a b)
    (hf : ∀ x y, ¬ IsPair a b x y → db.Friend x y → db'.Friend x y)
    (hd : ∀ x y, ¬ IsPair a b x y → db'.deletedSeq? x y = db.deletedSeq? x y) : db'.EntriesOk := by
  have hpair : ∀ k ∈ db.keys, k.2.2 ≠ conversationId a b → ¬ IsPair a b k.1 k.2.1 := by
    intro k hmem hne hp
    refine hne ((h.friend k hmem).1.trans ?_)
    rcases hp with ⟨h₁, h₂⟩ | ⟨h₁, h₂⟩ <;> rw [h₁, h₂]
    exact conversationId_comm _ _
  refine ⟨fun k hmem => ?_, fun x y c hmem => ?_, fun u hmem => ?_⟩
  · obtain ⟨hmem, hne⟩ := (hk k).1 hmem
    exact ⟨(h.friend k hmem).1, hf _ _ (hpair k hmem hne) (h.friend k hmem).2⟩
  · obtain ⟨hmem, hne⟩ := (hk _).1 hmem
    exact (hk _).2 ⟨h.other x y c hmem, hne⟩
  · obtain ⟨hmem, hne⟩ := hu u hmem
    obtain ⟨peer, hkey, ha⟩ := h.unread u hmem
    refine ⟨peer, (hk _).2 ⟨hkey, hne⟩, fun d hdel => ha d ?_⟩
    rw [← hd _ _ (hpair _ hkey hne)]
    exact hdel

/-! ## The steps -/

theorem markConversationRead_trims (db : Db) (owner : Account) (conv : String) (seq : Int) :
    (db.markConversationRead owner conv seq).2.keys = db.keys ∧
      (db.markConversationRead owner conv seq).2.unread ⊆ db.unread := by
  unfold Db.markConversationRead
  split
  · exact ⟨rfl, fun _ h => h⟩
  · split_ifs
    · exact ⟨rfl, fun _ h => h⟩
    · exact ⟨rfl, fun _ h => h⟩
    · exact ⟨keys_update (by intro r; rfl), fun _ h => (mem_deleteWhere.1 h).1⟩

theorem updateConversationSettings_trims {owner : Account} {conv : String} {pinned : Option Bool}
    {opt : Option Int} {b : Bool} (h : db.updateConversationSettings owner conv pinned opt = .ok (b, db')) :
    db'.keys = db.keys ∧ db'.unread = db.unread := by
  unfold Db.updateConversationSettings at h
  split_ifs at h
  cases h
  exact ⟨keys_update (by intro r; rfl), rfl⟩

theorem deleteConversation_trims (db : Db) (owner : Account) (conv : String) :
    (db.deleteConversation owner conv).keys = db.keys ∧
      (db.deleteConversation owner conv).unread ⊆ db.unread := by
  unfold Db.deleteConversation
  split
  · exact ⟨rfl, fun _ h => h⟩
  · exact ⟨keys_update (by intro r; rfl), fun _ h => (mem_deleteWhere.1 h).1⟩

/-- A worker's transaction records its message between friends. -/
theorem entries_commit (hI : Inv J w) (hE : w.db.EntriesOk) {k : Worker} (hk : k ∈ w.workers) {now : Int}
    {b : Bool} (h : Commit J w.db k.task (k.pc = .persist) now w'.stores b w'.db) : w'.db.EntriesOk := by
  have hs := h.social
  have hsame : w'.db.keys = w.db.keys → w'.db.unread = w.db.unread → w'.db.EntriesOk := by
    intro hkeys hunread
    exact hE.mono hkeys (by rw [hunread]; exact fun _ h => h) (fun _ _ => (friend_congr hs.friends).2)
      hs.deletions
  generalize hdb : w'.db = db' at *
  cases h with
  | stage hr =>
    obtain ⟨r₀, hW⟩ := hI.calls.worker k hk
    obtain ⟨hst, hm⟩ := hW.ready hr
    have hactor := hW.actor.symm.trans hm.actor
    have hpeer := hW.peer.symm.trans hm.peer
    have hfriend : w.db.Friend k.task.actor k.task.peer := friend_of_allows hI.friends hr.allowed
    rw [hactor, hpeer] at hfriend
    have hE' : (w.db.lockPair k.task.actor k.task.peer).EntriesOk := ⟨hE.friend, hE.other, hE.unread⟩
    exact hE'.record (hI.ids.stamped _ hst).conv hfriend (hI.friends.symm _ _ hfriend)
      (Above.symm hI.friends (hr.above hI hk)) rfl rfl hs.friends hs.deletions
  | _ => exact hsame rfl rfl

theorem unread_delete {conv : String} {u : UnreadRow} (hu : u ∈ (db.deleteConversationPair conv).unread) :
    u ∈ db.unread ∧ u.conversation ≠ conv := by
  obtain ⟨hmem, hne⟩ := mem_deleteWhere.1 hu
  exact ⟨hmem, by simpa using hne⟩

/-- The end of `DeleteFriend` alone. -/
theorem entries_clear (hE : db.EntriesOk) {a b : Account} : (db.clearConversation a b).EntriesOk := by
  rcases clearConversation_cases db a b with h | ⟨cutoff, -, h⟩ <;> rw [h]
  · exact hE
  · exact hE.drop (a := a) (b := b) (fun _ => mem_keys_delete) (fun _ => unread_delete) (fun _ _ _ h => h)
      fun _ _ _ => rfl

/-- `DeleteFriend` as a whole: the pair loses its conversation with its
    friendship. -/
theorem entries_unfriend (hE : db.EntriesOk) {a b : Account} {now : Int} {seq : ℕ} :
    ((db.closeFriendship a b now seq).clearConversation a b).EntriesOk := by
  have hclear : (db.closeFriendship a b now seq).clearConversation a b =
      ((db.closeFriendship a b now seq).deleteConversationPair
        (conversationId a b)).queueConversationCleanup a b seq := by
    unfold Db.clearConversation
    rw [deletedSeq_close (Or.inl ⟨rfl, rfl⟩)]
  rw [hclear]
  refine hE.drop (a := a) (b := b) (fun _ => mem_keys_delete) (fun _ => unread_delete) (fun x y hp hf => ?_)
    fun x y hp => ?_
  · have hf' : (db.closeFriendship a b now seq).Friend x y := friend_close.2 ⟨hf, hp⟩
    exact hf'
  · have hd : (db.closeFriendship a b now seq).deletedSeq? x y = db.deletedSeq? x y :=
      deletedSeq_close_other hp
    exact hd

theorem entries_step {a : Action} (hI : Inv J w) (hE : w.db.EntriesOk) (h : step J w a = some (w', es)) :
    w'.db.EntriesOk := by
  cases a with
  | runPhase i now lost fuel =>
    rcases runPhase_commit h with hdb | ⟨k, hk, b, hc⟩
    · rw [hdb]
      exact hE
    · exact entries_commit hI hE hk hc
  | friendCommit j now seq =>
    obtain ⟨c, -, hdb | ⟨reply, drawn, hm⟩⟩ := friendCommit_mutate h
    · rw [hdb]
      exact hE
    · have hE' : (w.db.lockPair c.command.actor c.target).EntriesOk := ⟨hE.friend, hE.other, hE.unread⟩
      rcases mutate_cases hm with ⟨-, apps, n, hdb⟩ | ⟨-, apps, hdb⟩ | ⟨-, -, hdb⟩ | ⟨-, -, hdb⟩ <;> rw [hdb]
      · exact ⟨hE.friend, hE.other, hE.unread⟩
      · exact hE'.mono rfl (fun _ h => h) (fun _ _ hf => friend_befriend.2 (Or.inl hf)) rfl
      · exact entries_unfriend hE'
      · exact entries_clear hE'
  | markRead owner conv seq =>
    cases h
    obtain ⟨hk, hu⟩ := markConversationRead_trims w.db owner conv seq
    have hs := (markConversationRead_edits w.db owner conv seq).social
    exact hE.mono hk hu (fun _ _ => (friend_congr hs.friends).2) hs.deletions
  | updateSettings owner conv pinned opt =>
    dsimp only [step] at h
    split at h
    · cases h
      exact hE
    · next hu =>
      cases h
      have hs := (updateConversationSettings_edits hu).social
      obtain ⟨hk, hu⟩ := updateConversationSettings_trims hu
      exact hE.mono hk (by rw [hu]; exact fun _ h => h) (fun _ _ => (friend_congr hs.friends).2) hs.deletions
  | deleteConversation owner conv =>
    cases h
    obtain ⟨hk, hu⟩ := deleteConversation_trims w.db owner conv
    have hs := (deleteConversation_edits w.db owner conv).social
    exact hE.mono hk hu (fun _ _ => (friend_congr hs.friends).2) hs.deletions
  | _ =>
    obtain ⟨hs, he⟩ := step_same h id
    refine hE.mono ?_ (by rw [he.unread]; exact fun _ h => h) (fun _ _ => (friend_congr hs.friends).2) hs.deletions
    unfold Db.keys
    rw [he.conversations]

theorem entries_trace (T : SysTrace J) {i : ℕ} (hi : i ≤ T.len) : (T.state i).db.EntriesOk := by
  refine (T.invariant (P := fun w => Inv J w ∧ w.db.EntriesOk) ⟨inv_start J, ?_⟩
    (fun _ _ _ _ h hs => ⟨inv_step h.1 hs, entries_step h.1 h.2 hs⟩) hi).2
  refine ⟨?_, ?_, ?_⟩ <;> simp [start, Db.keys]

/-- **Conversation entries exist only between friends.** In every state of every
    run an entry of the conversation of `a` and `b` belongs to one of them, the
    other has one too, the two are friends, and everything unread in it is
    above their watermark.  So an entry that is there after a deletion was made
    after the two became friends again, and nothing up to its watermark is
    unread.  Runs draw increasing ids (`SysTrace`). -/
theorem entries_between_friends (J : Codec) (T : SysTrace J) :
    (∀ i ≤ T.len, ∀ a b, ∀ r ∈ (T.state i).db.conversations, r.conversation = conversationId a b →
      (T.state i).db.Friend a b ∧ (T.state i).db.Friend b a ∧ IsPair a b r.owner r.peer ∧
      (∃ r' ∈ (T.state i).db.conversations, r'.conversation = r.conversation ∧ r'.owner = r.peer ∧
        r'.peer = r.owner) ∧
      ∀ u ∈ (T.state i).db.unread, u.conversation = conversationId a b → ∀ d,
        (T.state i).db.deletedSeq? a b = some d → (d : Int) < u.seq) ∧
    ∀ i < T.len, ∀ a b d, .deleted a b d ∈ T.out i → ∀ j, i < j → j ≤ T.len →
      ∀ r ∈ (T.state j).db.conversations, r.conversation = conversationId a b →
        (∃ l, i < l ∧ l < j ∧ ¬ (T.state l).db.Friend a b ∧ (T.state (l + 1)).db.Friend a b) ∧
        ∀ u ∈ (T.state j).db.unread, u.conversation = conversationId a b → (d : Int) < u.seq := by
  have hrow : ∀ i ≤ T.len, ∀ a b, ∀ r ∈ (T.state i).db.conversations,
      r.conversation = conversationId a b → (T.state i).db.Friend a b ∧ IsPair a b r.owner r.peer := by
    intro i hi a b r hr hconv
    obtain ⟨hproper, hf⟩ := (entries_trace T hi).friend _ (List.mem_map_of_mem hr)
    have hp : IsPair a b r.owner r.peer :=
      conversationId_inj (hproper.symm.trans hconv)
    refine ⟨?_, hp⟩
    rcases hp with ⟨h₁, h₂⟩ | ⟨h₁, h₂⟩
    · rw [← h₁, ← h₂]
      exact hf
    · rw [← h₁, ← h₂]
      exact (inv_trace T hi).friends.symm _ _ hf
  have hunread : ∀ i ≤ T.len, ∀ a b, ∀ u ∈ (T.state i).db.unread, u.conversation = conversationId a b →
      (T.state i).db.Above a b u.seq := by
    intro i hi a b u hu hconv
    obtain ⟨peer, hkey, ha⟩ := (entries_trace T hi).unread u hu
    have hproper : u.conversation = conversationId u.owner peer := ((entries_trace T hi).friend _ hkey).1
    refine Above.of_isPair (inv_trace T hi).friends ha ?_
    exact conversationId_inj (hconv.symm.trans hproper)
  refine ⟨fun i hi a b r hr hconv => ?_, fun i hi a b d hd j hij hj r hr hconv => ?_⟩
  · obtain ⟨hf, hp⟩ := hrow i hi a b r hr hconv
    refine ⟨hf, (inv_trace T hi).friends.symm _ _ hf, hp, ?_, fun u hu hc d hd => hunread i hi a b u hu hc d hd⟩
    obtain ⟨r', hr', he⟩ := List.mem_map.1
      ((entries_trace T hi).other r.owner r.peer r.conversation (List.mem_map_of_mem hr))
    cases r'
    cases he
    exact ⟨_, hr', rfl, rfl, rfl⟩
  · have hdel := deleted_watermark (inv_trace T hi.le) ((step_move (T.next i hi)).event _ hd)
    obtain ⟨-, hno⟩ := deleted_closes ((step_move (T.next i hi)).event _ hd)
    constructor
    · obtain ⟨l, hl, hlj, hn, hf⟩ := T.became (P := fun w => w.db.Friend a b) (Nat.succ_le_of_lt hij)
        (hno a b (Or.inl ⟨rfl, rfl⟩)) (hrow j hj a b r hr hconv).1
      exact ⟨l, by omega, hlj, hn, hf⟩
    · intro u hu hc
      exact (trace_grows T (Nat.succ_le_of_lt hij) hj).above _ _ _ (hunread j hj a b u hu hc) d hdel.2.2

end

end ApeServer
