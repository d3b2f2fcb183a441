/-
  What a step of the consumers can do to a partition.

  A partition sees of a consumer its `Slot`: the flags, the position, the lane
  and its worker.  `Slot.Moves` lists what a step can do to a slot, and
  `Consumer.step_moves` says that the steps of a consumer do nothing else.
-/
import ApeServer.Kafka.Consumer

namespace ApeServer.Kafka

/-! ## Slots -/

structure Slot where
  ready : Bool
  running : Bool
  generation : ℕ
  position : Position
  jobs : List Job
  worker : Worker

/-- A lane that does not exist yet is like an empty one. -/
def Consumer.slot (c : Consumer) (p : TopicPartition) : Slot where
  ready := c.ready
  running := c.running
  generation := c.generation
  position := c.position p
  jobs := ((c.lanes p).getD {}).jobs
  worker := ((c.lanes p).getD {}).worker

/-- The jobs that are not finished, in the order in which they came. -/
def Slot.pending (v : Slot) : List Job := v.worker.job?.toList ++ v.jobs

/-- The offsets of the jobs of the current generation. -/
def Slot.current (v : Slot) : List ℕ := (v.pending.filter fun j => j.generation = v.generation).map (·.offset)

section
variable (log : TopicPartition → ℕ → Option String) (committed : TopicPartition → Option ℕ) (id : ℕ)
  (p : TopicPartition)

/-- What a step can do to a slot. -/
inductive Slot.Moves (v : Slot) : Slot → List Event → Prop
  | stay {running : Bool} {es : List Event} (hr : running = true → v.running = true)
      (hes : ∀ job : Job, job.key = p → Event.dropped id job ∉ es) : Moves v { v with running := running } es
  | rebalance {pos : Position} (hpos : ∀ n, pos ≠ .next n) :
      Moves v { v with generation := v.generation + 1, position := pos } []
  | resolve (hpos : v.position = .starting) :
      Moves v { v with position := .next ((committed p).getD 0) } []
  | fetch {n offset : ℕ} {payload : String} (hpos : v.position = .next n) (hle : n ≤ offset)
      (hgap : ∀ o, n ≤ o → o < offset → log p o = none) (hlog : log p offset = some payload) :
      Moves v
        { v with
          position := .next (offset + 1)
          jobs := if v.ready then v.jobs ++ [⟨p.1, payload, p.2, offset, v.generation⟩] else v.jobs }
        [.fetched id ⟨p.1, payload, p.2, offset, v.generation⟩]
  | take {job : Job} {jobs : List Job} (hw : v.worker = .idle) (hj : v.jobs = job :: jobs) :
      Moves v { v with jobs := jobs, worker := .test job } []
  | turn {job : Job} {worker : Worker} (hw : v.worker.job? = some job)
      (hw' : worker = .test job ∨ worker = .handling job ∨ worker = .waiting job) :
      Moves v { v with worker := worker } []
  | handled {job : Job} (hw : v.worker = .handling job) :
      Moves v { v with worker := .handled job } [.handled id job]
  | check {job : Job} (hw : v.worker = .handled job) (hr : v.running = true)
      (hg : job.generation = v.generation) : Moves v { v with worker := .committing job } []
  | drop {job : Job} (hw : v.worker = .test job ∨ v.worker = .handled job)
      (hg : job.generation ≠ v.generation) : Moves v { v with worker := .idle } [.dropped id job]
  | stop {job : Job} (hw : v.worker.job? = some job) (hr : v.running = false) :
      Moves v { v with worker := .idle } []
  | commit {job : Job} (hw : v.worker = .committing job) :
      Moves v { v with worker := .idle } [.requested id job]
  | halt : Moves v { v with worker := .ended } []

end

/-! ## The steps move the slots -/

section
variable {log : TopicPartition → ℕ → Option String} {committed : TopicPartition → Option ℕ} {id : ℕ}
  {p : TopicPartition} {c c' : Consumer} {es : List Event}

theorem slot_eq {lane : PartitionLane} (hl : c.lanes p = some lane) :
    c.slot p = ⟨c.ready, c.running, c.generation, c.position p, lane.jobs, lane.worker⟩ := by
  simp [Consumer.slot, hl]

/-- The worker's steps. -/
theorem processPartition_moves {lane lane' : PartitionLane} {signal : Signal} (hl : c.lanes p = some lane)
    (h : lane.processPartition c.running c.generation id signal = some (lane', es)) :
    (c.slot p).Moves log committed id p
      ⟨c.ready, c.running, c.generation, c.position p, lane'.jobs, lane'.worker⟩ es := by
  rw [slot_eq hl]
  unfold PartitionLane.processPartition at h
  split at h
  · next hw =>
    split_ifs at h
    · split at h
      · cases h
        exact .stay (fun h => h) (by simp)
      · next job jobs hj =>
        cases h
        exact .take hw hj
    · cases h
      exact .halt
  · next job hw =>
    split_ifs at h with hr hg
    · cases h
      exact .stop (by rw [hw]; rfl) hr
    · cases h
      exact .drop (Or.inl hw) hg
    · cases h
      exact .turn (by rw [hw]; rfl) (Or.inr (Or.inl rfl))
  · next job hw =>
    cases h
    exact .handled hw
  · next job hw =>
    cases h
    exact .turn (by rw [hw]; rfl) (Or.inr (Or.inr rfl))
  · cases h
    exact .halt
  · next job hw =>
    split_ifs at h with hg hr
    · cases h
      exact .drop (Or.inr hw) hg
    · cases h
      exact .stop (by rw [hw]; rfl) hr
    · cases h
      exact .check hw (by simpa using hr) (by simpa using hg)
  · next job hw =>
    cases h
    exact .commit hw
  · next job hw =>
    cases h
    exact .turn (by rw [hw]; rfl) (Or.inr (Or.inr rfl))
  · next job hw =>
    cases h
    exact .turn (by rw [hw]; rfl) (Or.inl rfl)
  · cases h

/-- What a worker can show, from where it stands. -/
inductive Worker.Emits (id : ℕ) : Worker → Event → Prop
  | handled {job : Job} : Emits id (.handling job) (.handled id job)
  | dropped {worker : Worker} {job : Job} (hw : worker.job? = some job) : Emits id worker (.dropped id job)
  | requested {job : Job} : Emits id (.committing job) (.requested id job)

theorem emits_processPartition {running : Bool} {generation : ℕ} {lane lane' : PartitionLane}
    {signal : Signal} {e : Event} (h : lane.processPartition running generation id signal = some (lane', es))
    (he : e ∈ es) : lane.worker.Emits id e := by
  unfold PartitionLane.processPartition at h
  split at h
  · split_ifs at h
    · split at h
      · cases h
        cases he
      · cases h
        cases he
    · cases h
      cases he
  · next hw =>
    split_ifs at h
    · cases h
      cases he
    · cases h
      rw [List.mem_singleton.1 he]
      exact .dropped (by rw [hw]; rfl)
    · cases h
      cases he
  · next hw =>
    cases h
    rw [List.mem_singleton.1 he, hw]
    exact .handled
  · cases h
    cases he
  · cases h
    cases he
  · next hw =>
    split_ifs at h
    · cases h
      rw [List.mem_singleton.1 he]
      exact .dropped (by rw [hw]; rfl)
    · cases h
      cases he
    · cases h
      cases he
  · next hw =>
    cases h
    rw [List.mem_singleton.1 he, hw]
    exact .requested
  · cases h
    cases he
  · cases h
    cases he
  · cases h

/-- **The events of a step**: a record is fetched, or a worker shows what it
    does. -/
theorem Consumer.step_emits {a : ConsumerAction} {e : Event}
    (h : c.step log committed id a = some (c', es)) (he : e ∈ es) :
    (∃ job, e = .fetched id job) ∨ ∃ p signal, a = .work p signal ∧ (c.slot p).worker.Emits id e := by
  cases a with
  | loop ok =>
    simp only [Consumer.step] at h
    split_ifs at h
    · cases h
      cases he
    · cases h
      cases he
  | rebalance err partitions =>
    simp only [Consumer.step] at h
    split_ifs at h
    cases h
    cases he
  | resolve p =>
    simp only [Consumer.step] at h
    split_ifs at h
    cases h
    cases he
  | consume p offset =>
    simp only [Consumer.step] at h
    split at h
    · split_ifs at h
      cases h
      exact Or.inl ⟨_, List.mem_singleton.1 he⟩
    · cases h
  | timeout =>
    simp only [Consumer.step] at h
    split_ifs at h
    cases h
    cases he
  | work p signal =>
    simp only [Consumer.step] at h
    split at h
    · cases h
    · next lane hl =>
      obtain ⟨⟨lane', es'⟩, hp, heq⟩ := Option.map_eq_some_iff.1 h
      cases heq
      refine Or.inr ⟨p, signal, rfl, ?_⟩
      rw [slot_eq hl]
      exact emits_processPartition hp he
  | shutdown =>
    cases h
    cases he

theorem mem_pending {v : Slot} {job : Job} :
    job ∈ v.pending ↔ v.worker.job? = some job ∨ job ∈ v.jobs := by
  simp [Slot.pending]

/-- The job in the worker's hands comes first. -/
theorem pending_cons {v : Slot} {job : Job} (hw : v.worker.job? = some job) : v.pending = job :: v.jobs := by
  unfold Slot.pending
  rw [hw]
  rfl

/-- Only the step of a worker gives up a job, and a job of its lane. -/
theorem dropped_step {a : ConsumerAction} {id' : ℕ} {job : Job}
    (h : c.step log committed id a = some (c', es)) (hd : Event.dropped id' job ∈ es) :
    id' = id ∧ ∃ p signal, a = .work p signal ∧ job ∈ (c.slot p).pending := by
  rcases Consumer.step_emits h hd with ⟨job', he⟩ | ⟨p, signal, ha, he⟩
  · cases he
  · generalize hworker : (c.slot p).worker = worker at he
    cases he with
    | dropped hw =>
      refine ⟨rfl, p, signal, ha, mem_pending.2 (Or.inl ?_)⟩
      rw [hworker]
      exact hw

/-- Only a worker that has passed the check asks to commit. -/
theorem requested_step {a : ConsumerAction} {id' : ℕ} {job : Job}
    (h : c.step log committed id a = some (c', es)) (hd : Event.requested id' job ∈ es) :
    id' = id ∧ ∃ p, (c.slot p).worker = .committing job := by
  rcases Consumer.step_emits h hd with ⟨job', he⟩ | ⟨p, signal, ha, he⟩
  · cases he
  · generalize hworker : (c.slot p).worker = worker at he
    cases he with
    | requested => exact ⟨rfl, p, hworker⟩

theorem slot_updateBackpressure (ok : TopicPartition → Bool) :
    (c.updateBackpressure ok).slot p = c.slot p := by
  unfold Consumer.updateBackpressure Consumer.slot
  cases hl : c.lanes p with
  | none => simp [hl]
  | some lane =>
    simp only [hl, Option.map_some, Option.getD_some]
    unfold PartitionLane.updateBackpressure
    dsimp only
    split_ifs <;> rfl

section
variable {q : TopicPartition}

theorem slot_position_self (pos : Position) :
    Consumer.slot { c with position := Function.update c.position p pos } p =
      { c.slot p with position := pos } := by
  simp [Consumer.slot]

theorem slot_position_other (hpq : p ≠ q) (pos : Position) :
    Consumer.slot { c with position := Function.update c.position q pos } p = c.slot p := by
  simp [Consumer.slot, hpq]

theorem slot_lanes_self (lane : PartitionLane) :
    Consumer.slot { c with lanes := Function.update c.lanes p (some lane) } p =
      { c.slot p with jobs := lane.jobs, worker := lane.worker } := by
  simp [Consumer.slot]

theorem slot_lanes_other (hpq : p ≠ q) (lane : PartitionLane) :
    Consumer.slot { c with lanes := Function.update c.lanes q (some lane) } p = c.slot p := by
  simp [Consumer.slot, hpq]

theorem slot_consumeMsg_self (job : Job) : (c.consumeMsg p job).slot p =
    { c.slot p with jobs := if c.ready then (c.slot p).jobs ++ [job] else (c.slot p).jobs } := by
  unfold Consumer.consumeMsg
  split_ifs
  · exact slot_lanes_self _
  · rfl

theorem slot_consumeMsg_other (hpq : p ≠ q) (job : Job) : (c.consumeMsg q job).slot p = c.slot p := by
  unfold Consumer.consumeMsg
  split_ifs
  · exact slot_lanes_other hpq _
  · rfl

end

/-- `consume` returns the first record at or after the position. -/
theorem consume_moves {q : TopicPartition} {offset : ℕ}
    (h : c.step log committed id (.consume q offset) = some (c', es)) (p : TopicPartition) :
    (c.slot p).Moves log committed id p (c'.slot p) es := by
  simp only [Consumer.step] at h
  split at h
  · next n payload _ hpos hlog =>
    split_ifs at h with hn
    cases h
    obtain ⟨hle, hgap⟩ := hn
    have hgap' : ∀ o, n ≤ o → o < offset → log q o = none := by
      intro o ho hlt
      have := List.all_eq_true.1 hgap o (List.mem_range'_1.2 ⟨ho, by omega⟩)
      simpa using this
    by_cases hpq : p = q
    · subst hpq
      rw [slot_consumeMsg_self]
      show (c.slot p).Moves log committed id p { c.slot p with
        position := Function.update c.position p (.next (offset + 1)) p
        jobs := if c.ready then (c.slot p).jobs ++ [_] else (c.slot p).jobs } _
      rw [Function.update_self]
      exact .fetch hpos hle hgap' hlog
    · rw [slot_consumeMsg_other hpq]
      show (c.slot p).Moves log committed id p
        { c.slot p with position := Function.update c.position q (.next (offset + 1)) p } _
      rw [Function.update_of_ne hpq]
      exact .stay (fun h => h) (by simp)
  · cases h

/-- **A step of a consumer** moves every slot of it. -/
theorem Consumer.step_moves {a : ConsumerAction} (hk : ∀ p, ∀ job ∈ (c.slot p).pending, job.key = p)
    (h : c.step log committed id a = some (c', es)) (p : TopicPartition) :
    (c.slot p).Moves log committed id p (c'.slot p) es := by
  -- the jobs that other workers give up are of other partitions
  have hother : ∀ p' signal, a = .work p' signal → p ≠ p' → ∀ job : Job, job.key = p →
      Event.dropped id job ∉ es := by
    rintro p' signal rfl hne job hkey hd
    obtain ⟨-, p'', signal', ha, hj⟩ := dropped_step h hd
    cases ha
    exact hne (hkey.symm.trans (hk p' job hj))
  cases a with
  | loop ok =>
    simp only [Consumer.step] at h
    split_ifs at h
    · cases h
      show (c.slot p).Moves log committed id p ((c.updateBackpressure ok).slot p) []
      rw [slot_updateBackpressure]
      exact .stay (fun h => h) (by simp)
    · cases h
      exact .stay (fun h => h) (by simp)
  | rebalance err partitions =>
    simp only [Consumer.step] at h
    split_ifs at h
    cases h
    cases err with
    | assignPartitions =>
      refine .rebalance fun n => ?_
      show (if p ∈ partitions then Position.starting else .off) ≠ .next n
      split_ifs <;> simp
    | revokePartitions =>
      refine .rebalance fun n => ?_
      show Position.off ≠ .next n
      simp
  | resolve q =>
    simp only [Consumer.step] at h
    split_ifs at h with hq
    cases h
    by_cases hpq : p = q
    · subst hpq
      rw [slot_position_self]
      exact .resolve hq
    · rw [slot_position_other hpq]
      exact .stay (fun h => h) (by simp)
  | consume q offset => exact consume_moves h p
  | timeout =>
    simp only [Consumer.step] at h
    split_ifs at h
    cases h
    exact .stay (fun h => h) (by simp)
  | work q signal =>
    have hes := hother q signal rfl
    simp only [Consumer.step] at h
    split at h
    · cases h
    · next lane hl =>
      obtain ⟨⟨lane', es'⟩, hp, he⟩ := Option.map_eq_some_iff.1 h
      cases he
      by_cases hpq : p = q
      · subst hpq
        rw [slot_lanes_self]
        exact processPartition_moves hl hp
      · rw [slot_lanes_other hpq]
        exact .stay (fun h => h) (hes hpq)
  | shutdown =>
    cases h
    exact .stay (by simp) (by simp)

end

end ApeServer.Kafka
