/-
  The order of publication, and the single effect of a message on the
  conversations.

  A message is stored and recorded, then published, then cached and put on
  Kafka; a worker may die between any two of these.

  * `Inv.ordered`: each of these steps has the earlier ones behind it, and the
    conversations have recorded a message as often as its stage says;
  * `durable_of_staged`: a staged message had its body and its entries;
  * `publication_order` adds the answers of `SendMessages`.
-/
import ApeServer.System.CallInv

namespace ApeServer

section
variable {J : Codec} {w : World}

/-- What is in Kafka or in Redis is staged and published. -/
def Stores.Holds (x : Stores) (serverId : String) : Prop :=
  (∃ k ∈ x.kafka, k.payload = serverId) ∨ ∃ v, (Redis.msgKey serverId, v) ∈ x.redis.strings

theorem sent_of_holds (hI : Inv J w) {serverId : String} (h : w.stores.Holds serverId) :
    Sent w serverId := by
  rcases h with ⟨k, hk, rfl⟩ | ⟨v, hv⟩
  · exact hI.stores.kafka k hk
  · obtain ⟨m, he, -, hs⟩ := hI.stores.cached _ hv
    have hkey : Redis.msgKey serverId = Redis.msgKey m.serverMsgID := congrArg Prod.fst he
    unfold Redis.msgKey at hkey
    rwa [(String.append_right_inj "msg:").1 hkey]

/-- The state of the publication of a row. -/
structure Ordered (w : World) (r : OutboxRow) : Prop where
  /-- Redis and Kafka have the message only after its publication -/
  held : w.stores.Holds r.serverId → w.stores.Published r.serverId
  /-- it is published only after it is staged -/
  published : w.stores.Published r.serverId → r.stage = 1
  /-- it is staged only with its body and its entries -/
  staged : r.stage = 1 → Durable w r
  /-- the conversations have recorded it once, or not yet -/
  recorded : (r.stage = 0 ∧ w.db.recorded.countP (fun m => m.serverMsgID = r.serverId) = 0) ∨
    (r.stage = 1 ∧ w.db.recorded.countP (fun m => m.serverMsgID = r.serverId) = 1)

theorem Inv.ordered (hI : Inv J w) {r : OutboxRow} (hr : r ∈ w.db.outbox) (ho : r.operation = 1)
    (hl : w.db.Live r) : Ordered w r := by
  obtain ⟨m, hs, hm, -, -, hlife, -⟩ := hI.rows.message hr ho
  have hstage := hlife.stage
  refine ⟨fun h => ?_, fun h => ?_, fun h => hI.stores.staged r hr ho (by omega) hl, ?_⟩
  · obtain ⟨r', hr', ho', he, -, hpub⟩ := sent_of_holds hI h
    have : r' = r := eq_of_serverId hI.ids hI.rows hr' hr ho' ho he
    subst this
    exact hpub hl
  · obtain ⟨d, hd, hid, hc⟩ := h
    obtain ⟨r', m', hdoc⟩ := hI.stores.doc d hd
    have he : r'.serverId = r.serverId := by
      rw [hdoc.message.serverId, ← hdoc.serverMsgID, hid]
    have : r' = r := eq_of_serverId hI.ids hI.rows hdoc.row hr hdoc.message.operation ho he
    subst this
    have := hdoc.committed hc
    omega
  · have := hI.stores.count r hr ho
    omega

theorem Durable.static {r r' : OutboxRow} (h : Durable w r) (hs : Static r r') : Durable w r' := by
  refine ⟨?_, ?_, ?_⟩
  · rw [hs.serverId]; exact h.body
  · rw [hs.actor, hs.conversation, hs.seq]; exact h.sender
  · rw [hs.peer, hs.conversation, hs.seq]; exact h.recipient

/-- A staged message had its body and its entries at some time. -/
theorem durable_of_staged (T : SysTrace J) {i : ℕ} (hi : i ≤ T.len) {r : OutboxRow}
    (hr : r ∈ (T.state i).db.outbox) (ho : r.operation = 1) (hg : 1 ≤ r.stage) :
    ∃ j ≤ i, Durable (T.state j) r := by
  induction i generalizing r with
  | zero => rw [T.start] at hr; cases hr
  | succ i ih =>
    have hI := inv_trace T (show i ≤ T.len by omega)
    obtain ⟨f, new, hstep⟩ := outbox_step hI (step_move (T.next i hi)).change
    rcases hstep.cases hr with ⟨r₀, hr₀, rfl, hrow⟩ | hr
    · by_cases hg₀ : 1 ≤ r₀.stage
      · obtain ⟨j, hj, hd⟩ := ih (by omega) hr₀ (hrow.static.operation.symm.trans ho) hg₀
        exact ⟨j, by omega, hd.static hrow.static⟩
      · cases hstep.recording with
        | none _ hs => rw [hs r₀ hr₀] at hg; exact absurd hg hg₀
        | one r₁ m hr₁ _ _ hd _ hs =>
          rw [hs r₀ hr₀] at hg
          by_cases hid : r₀.id = r₁.id
          · obtain rfl := hI.rows.eq_of_id hr₀ hr₁ hid
            exact ⟨i + 1, le_rfl, hd.static hrow.static⟩
          · rw [if_neg hid] at hg; exact absurd hg hg₀
    · obtain ⟨m, payload, -, -, rfl, -⟩ := hstep.new.initial hr ho
      exact absurd hg (by simp [Db.newMessageRow])

/-- **Publication order and exactly-once conversation effect.**  In every state
    of a run the live messages are published in order and recorded once; and
    `SendMessages` answers `0` only for a staged message of the outbox, whose
    body and entries were committed before, and are still there while the
    message is live.  Runs draw increasing ids (`SysTrace`). -/
theorem publication_order (T : SysTrace J) :
    (∀ i ≤ T.len, ∀ r ∈ (T.state i).db.outbox, r.operation = 1 → (T.state i).db.Live r →
      Ordered (T.state i) r) ∧
    ∀ i < T.len, ∀ m, .replied m "0" ∈ T.out i →
      ∃ r ∈ (T.state i).db.outbox, MessageRow J r m ∧ r.stage = 1 ∧
        (∃ j ≤ i, Durable (T.state j) r) ∧ ((T.state i).db.Live r → Durable (T.state i) r) := by
  refine ⟨fun i hi r hr ho hl => (inv_trace T hi).ordered hr ho hl, fun i hi m he => ?_⟩
  have hI := inv_trace T hi.le
  obtain ⟨c, hc, task, hpc, hparse, hstage⟩ := (step_move (T.next i hi)).event _ he rfl
  obtain ⟨-, hsend⟩ := hI.calls.send c hc
  rw [hpc] at hsend
  obtain ⟨r, hr, m', hs, hm, -, hle, hmsg⟩ := hsend
  obtain rfl := hmsg m hparse
  obtain ⟨-, -, -, -, -, hlife, -⟩ := hI.rows.message hr hm.operation
  have h₁ := hlife.stage
  have hstaged : 1 ≤ r.stage := by omega
  exact ⟨r, hr, hm, by omega, durable_of_staged T hi.le hr hm.operation hstaged,
    fun hl => hI.stores.staged r hr hm.operation hstaged hl⟩

end

end ApeServer
