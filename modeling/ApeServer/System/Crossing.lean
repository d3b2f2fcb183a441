/-
  Applications that cross: two accounts apply to each other, and one of the two
  applications is accepted.

  `HandleApplication` handles the one application that it names, so the other
  one stays open between friends (`open_between_friends`), while `DeleteFriend`
  closes both directions and `Apply` refuses friends.

  * `Db.Settled`: no application is open between friends;
  * `World.Uncrossed`: an accepted application meets no open one of the other
    direction;
  * `FriendEffect.settled` is the step, `settled_between_friends` the
    statement about runs.
-/
import ApeServer.System.Friendship

namespace ApeServer

open Table

/-- Between friends no application is pending, in either direction. -/
def Db.Settled (db : Db) : Prop :=
  ∀ a b, db.Friend a b → ∀ p ∈ db.applications, IsPair a b p.fromAccount p.toAccount → p.status ≠ 0

/-- If the step accepts a pending application, none is pending in the other
    direction. -/
def World.Uncrossed (w : World) (a : Action) : Prop :=
  ∀ n now seq c, a = .friendCommit n now seq → w.friendCalls[n]? = some c →
    c.command.operation = .handleApplication → c.command.accept = true →
    (∃ p ∈ w.db.applications, p.id = c.command.applicationID ∧ p.status = 0) →
    ∀ p ∈ w.db.applications, p.fromAccount = c.command.actor → p.toAccount = c.target → p.status ≠ 0

section
variable {db db' : Db} {cmd : FriendCommand} {target : Account} {now : Int} {seq : ℕ} {drawn : Option ℕ}

/-- What is pending after some applications are handled was so before. -/
theorem pending_of_update {q : ApplicationRow → Bool} {status : ℕ} {t : List ApplicationRow}
    {p : ApplicationRow} (hs : status ≠ 0)
    (hp : p ∈ updateWhere q (fun a => { a with status := status, handledTime := now }) t)
    (h₀ : p.status = 0) : p ∈ t ∧ q p = false := by
  obtain ⟨p₀, hmem, rfl⟩ := mem_updateWhere.1 hp
  split_ifs at h₀ ⊢ with hq
  · exact absurd h₀ hs
  · exact ⟨hmem, by simpa using hq⟩

theorem Db.Settled.of_same (h : db.Settled) (hs : db.SameSocial db') : db'.Settled := by
  intro a b hf p hp
  rw [hs.applications] at hp
  exact h a b ((friend_congr hs.friends).1 hf) p hp

/-- **A friend command between accounts whose applications do not cross** leaves
    no application open between friends. -/
theorem FriendEffect.settled (h : FriendEffect db db' cmd target now seq drawn) (hS : db.Social)
    (hsymm : ∀ a b, db.Friend a b → db.Friend b a)
    (hends : cmd.operation = .handleApplication → ∀ p ∈ db.applications, p.id = cmd.applicationID →
      p.fromAccount = target ∧ p.toAccount = cmd.actor)
    (hcross : cmd.operation = .handleApplication → cmd.accept = true →
      (∃ p ∈ db.applications, p.id = cmd.applicationID ∧ p.status = 0) →
      ∀ p ∈ db.applications, p.fromAccount = cmd.actor → p.toAccount = target → p.status ≠ 0)
    (hdb : db.Settled) : db'.Settled := by
  intro a b hf p hp hpair h₀
  cases h with
  | none h => exact hdb.of_same h a b hf p hp hpair h₀
  | applied hg _ hf' _ ha _ =>
    have hf := (friend_congr hf').1 hf
    rw [ha] at hp
    rcases List.mem_append.1 hp with hp | hp
    · exact hdb a b hf p hp hpair h₀
    · -- the new application is between two who are no friends
      rw [List.mem_singleton.1 hp] at hpair
      rcases hpair with ⟨rfl, rfl⟩ | ⟨rfl, rfl⟩
      · exact hg hf
      · exact hg (hsymm _ _ hf)
  | handled q ho hm hid hs hf' _ ha _ =>
    rw [ha] at hp
    obtain ⟨hp, hother⟩ := pending_of_update (by split_ifs <;> decide) hp h₀
    have hne : p.id ≠ cmd.applicationID := by simpa [h₀] using hother
    by_cases hacc : cmd.accept = true
    · rw [if_pos hacc] at hf'
      unfold Db.Friend at hf
      rw [hf', mem_insertFriend, mem_insertFriend, or_assoc] at hf
      rcases hf with hf | hnew
      · exact hdb a b hf p hp hpair h₀
      · -- of the two new friends: the other application is excluded, this one is handled
        have hends' : IsPair cmd.actor target p.fromAccount p.toAccount := by
          rcases hnew with ⟨rfl, rfl⟩ | ⟨rfl, rfl⟩
          · exact hpair
          · exact hpair.symm
        rcases hends' with ⟨hfrom, hto⟩ | ⟨hfrom, hto⟩
        · exact hcross ho hacc ⟨q, hm, hid, hs⟩ p hp hfrom hto h₀
        · obtain ⟨hqf, hqt⟩ := hends ho q hm hid
          have := hS.pending p hp q hm h₀ hs (hfrom.trans hqf.symm) (hto.trans hqt.symm)
          exact hne (this ▸ hid)
    · rw [if_neg hacc] at hf'
      exact hdb a b ((friend_congr hf').1 hf) p hp hpair h₀
  | removed h =>
    have hf := (friend_close.1 ((friend_congr h.friends).1 hf)).1
    rw [h.applications] at hp
    exact hdb a b hf p (pending_of_update (by decide) hp h₀).1 hpair h₀

end

/-- **No application stays open between friends** in the runs in which no
    accepted application crosses an open one.  Runs draw increasing ids
    (`SysTrace`). -/
theorem settled_between_friends (J : Codec) (T : SysTrace J)
    (hT : ∀ i < T.len, (T.state i).Uncrossed (T.act i)) :
    ∀ i ≤ T.len, (T.state i).db.Settled := by
  intro i hi
  refine T.invariant_of (P := fun w => w.db.Settled) (I := fun w => SocialOk w ∧ FriendsOk w)
    (G := World.Uncrossed) (fun i hi => ⟨socialOk_trace T hi, (inv_trace T hi).friends⟩) hT ?_ ?_ hi
  · simp [Db.Settled, Db.Friend, start]
  · rintro w a w' es ⟨hS, hF⟩ hG hdb h
    rcases step_friend h with hs | ⟨j, now, seq, c, drawn, rfl, hc, he⟩
    · exact hdb.of_same hs
    · refine he.settled hS.tables hF.symm (fun ho p hp hid => ?_) (hG j now seq c rfl hc) hdb
      obtain ⟨q, hq, hqid, hfrom, hto⟩ := hS.calls c (List.mem_of_getElem? hc) ho
      rw [eq_of_key hS.tables.ids hp hq (hid.trans hqid.symm)]
      exact ⟨hfrom, hto⟩

theorem settled_befriend : ((sampleRun (helloCodec 0) befriendActions (by decide)).state 6).db.Settled :=
  settled_between_friends (helloCodec 0) (sampleRun (helloCodec 0) befriendActions (by decide)) (by
    intro i hi n now seq c _ hc ho _ _ p hp hfrom
    have hrun : ∀ i < 6,
        (∀ p ∈ ((sampleRun (helloCodec 0) befriendActions (by decide)).state i).db.applications,
          p.fromAccount = 1) ∧
        ∀ c ∈ ((sampleRun (helloCodec 0) befriendActions (by decide)).state i).friendCalls,
          c.command.operation = .handleApplication → c.command.actor = 2 := by decide
    have hactor := (hrun i hi).2 c (List.mem_of_getElem? hc) ho
    rw [(hrun i hi).1 p hp, hactor] at hfrom
    cases hfrom) 6 (by decide)

/-- Both accounts apply, and the second accepts. -/
def crossedActions : List Action :=
  [.register ⟨1, "A"⟩, .register ⟨2, "B"⟩,
    .friendStart { actor := 1, operation := .apply, target := 2 }, .friendCommit 0 10 0,
    .friendStart { actor := 2, operation := .apply, target := 1 }, .friendCommit 0 20 0,
    .friendStart { actor := 2, operation := .handleApplication, applicationID := 1, accept := true },
    .friendCommit 0 30 0]

theorem open_between_friends : ¬ ∀ (J : Codec) (T : SysTrace J), ∀ i ≤ T.len, (T.state i).db.Settled := by
  intro h
  refine h (helloCodec 0) (sampleRun (helloCodec 0) crossedActions (by decide)) 8 (by decide) 1 2 ?_
    ⟨2, 2, 1, "", 0, 20, 0⟩ ?_ ?_ rfl
  · exact ⟨⟨2, 1, 2, "", 30⟩, by decide, rfl, rfl⟩
  · decide
  · exact Or.inr ⟨rfl, rfl⟩

end ApeServer
