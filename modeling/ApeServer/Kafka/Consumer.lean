/-
  The Kafka consumers of a group (`src/messagequeue/kafkaconsumer.cpp`).

  A consumer is a consuming thread (`start`, `consumeMsg`, `rebalance_cb`,
  `updateBackpressure`) and a worker per partition it has seen
  (`processPartition`).  The threads share the lanes, each under its mutex,
  and the atomics `generation_` and `running_`; a step is what happens between
  two accesses to them.

  Of librdkafka and the broker, the model has what the code relies on:

  * `log p o` is the record of partition `p` at offset `o`, if there is one;
    an assigned partition is returned in the order of its offsets, from the
    committed offset on (the beginning, if none is: `auto.offset.reset`);
    `pause` and `resume` only delay it;
  * `rebalance_cb` runs on the consuming thread, with one of two codes;
  * a commit request is in flight until the broker applies it or it is lost,
    in any order.

  Any number of consumers takes part, and each may stop at any point.
-/
import ApeServer.Lib.Run

namespace ApeServer.Kafka

/-- The key of `lanes_`: topic and partition. -/
abbrev TopicPartition := String × Int

structure Job where
  topic : String
  payload : String
  partition : Int
  offset : ℕ
  generation : ℕ
deriving DecidableEq, Repr

def Job.key (job : Job) : TopicPartition := (job.topic, job.partition)

/-- Where `processPartition` stands: at the outer loop; at the test of the
    inner loop; inside `handle`; after it, before the check; after the check,
    before `commitAsync`; in the pause after an exception; or it has
    returned. -/
inductive Worker where
  | idle
  | test (job : Job)
  | handling (job : Job)
  | handled (job : Job)
  | committing (job : Job)
  | waiting (job : Job)
  | ended
deriving DecidableEq, Repr

/-- The job in the worker's hands. -/
def Worker.job? : Worker → Option Job
  | .idle | .ended => none
  | .test job | .handling job | .handled job | .committing job | .waiting job => some job

structure PartitionLane where
  jobs : List Job := []
  worker : Worker := .idle
  paused : Bool := false
  pauseGeneration : ℕ := 0
deriving DecidableEq, Repr

/-- Where the loop of `start` stands. -/
inductive Thread where
  | test
  | polling
  | exited
deriving DecidableEq, Repr

/-- What librdkafka returns next of a partition: nothing, it is not assigned;
    the committed offset is asked for; the records from an offset on. -/
inductive Position where
  | off
  | starting
  | next (offset : ℕ)
deriving DecidableEq, Repr

structure Consumer where
  /-- `msgHandler && ioc_pool_`, set before `start` -/
  ready : Bool := true
  generation : ℕ := 0
  running : Bool := true
  thread : Thread := .test
  lanes : TopicPartition → Option PartitionLane := fun _ => none
  position : TopicPartition → Position := fun _ => .off

/-- What can be seen of the consumers: a record returned by `consume`, a call
    of `handle` that returned normally, a job given up because its generation
    is over, a request accepted by `commitAsync`, and a committed offset. -/
inductive Event where
  | fetched (id : ℕ) (job : Job)
  | handled (id : ℕ) (job : Job)
  | dropped (id : ℕ) (job : Job)
  | requested (id : ℕ) (job : Job)
  | committed (p : TopicPartition) (offset : ℕ)
deriving DecidableEq, Repr

/-! ## The consuming thread -/

/-- The codes librdkafka passes to `rebalance_cb`. -/
inductive RebalanceCode where
  | assignPartitions
  | revokePartitions
deriving DecidableEq, Repr

/-- `rebalance_cb`; `assign` replaces the assignment. -/
def Consumer.rebalanceCb (c : Consumer) (err : RebalanceCode) (partitions : List TopicPartition) : Consumer :=
  { c with
    generation := c.generation + 1
    position := match err with
      | .assignPartitions => fun p => if p ∈ partitions then .starting else .off
      | .revokePartitions => fun _ => .off }

/-- `consumeMsg` for a message without error; the lane is created with its
    worker. -/
def Consumer.consumeMsg (c : Consumer) (p : TopicPartition) (job : Job) : Consumer :=
  if c.ready then
    let lane := (c.lanes p).getD {}
    { c with lanes := Function.update c.lanes p (some { lane with jobs := lane.jobs ++ [job] }) }
  else c

/-- The body of the loop of `updateBackpressure`; `ok` is whether `pause` or
    `resume` succeeds. -/
def PartitionLane.updateBackpressure (generation : ℕ) (ok : Bool) (lane : PartitionLane) : PartitionLane :=
  let lane := if lane.pauseGeneration ≠ generation then
    { lane with pauseGeneration := generation, paused := false } else lane
  if lane.paused = false ∧ 128 ≤ lane.jobs.length then
    if ok then { lane with paused := true } else lane
  else if lane.paused = true ∧ lane.jobs.length ≤ 64 then
    if ok then { lane with paused := false } else lane
  else lane

def Consumer.updateBackpressure (c : Consumer) (ok : TopicPartition → Bool) : Consumer :=
  { c with lanes := fun p => (c.lanes p).map (·.updateBackpressure c.generation (ok p)) }

/-! ## The workers -/

/-- What a worker waits for: its turn; the end of `handle`, normally, with a
    `std::exception` or with another one; the answer of `commitAsync`. -/
inductive Signal where
  | resume
  | returned
  | threw
  | threwOther
  | accepted
  | refused
deriving DecidableEq, Repr

/-- A step of `processPartition`. -/
def PartitionLane.processPartition (running : Bool) (generation id : ℕ) (lane : PartitionLane)
    (signal : Signal) : Option (PartitionLane × List Event) :=
  match lane.worker, signal with
  | .idle, .resume =>
    if running then
      match lane.jobs with
      | [] => some (lane, [])
      | job :: jobs => some ({ lane with jobs := jobs, worker := .test job }, [])
    else some ({ lane with worker := .ended }, [])
  | .test job, .resume =>
    if running = false then some ({ lane with worker := .idle }, [])
    else if job.generation ≠ generation then some ({ lane with worker := .idle }, [.dropped id job])
    else some ({ lane with worker := .handling job }, [])
  | .handling job, .returned => some ({ lane with worker := .handled job }, [.handled id job])
  | .handling job, .threw => some ({ lane with worker := .waiting job }, [])
  | .handling _, .threwOther => some ({ lane with worker := .ended }, [])
  | .handled job, .resume =>
    if job.generation ≠ generation then some ({ lane with worker := .idle }, [.dropped id job])
    else if running = false then some ({ lane with worker := .idle }, [])
    else some ({ lane with worker := .committing job }, [])
  | .committing job, .accepted => some ({ lane with worker := .idle }, [.requested id job])
  | .committing job, .refused => some ({ lane with worker := .waiting job }, [])
  | .waiting job, .resume => some ({ lane with worker := .test job }, [])
  | _, _ => none

/-! ## The group -/

inductive ConsumerAction where
  /-- the test of the loop of `start`, and `updateBackpressure` -/
  | loop (ok : TopicPartition → Bool)
  | rebalance (err : RebalanceCode) (partitions : List TopicPartition)
  /-- the committed offset of an assigned partition is known -/
  | resolve (p : TopicPartition)
  /-- `consume` returns the record at an offset -/
  | consume (p : TopicPartition) (offset : ℕ)
  /-- `consume` returns no record -/
  | timeout
  | work (p : TopicPartition) (signal : Signal)
  | shutdown

/-- A step of the consumer `id`, where the broker has the offsets `committed`. -/
def Consumer.step (log : TopicPartition → ℕ → Option String) (committed : TopicPartition → Option ℕ)
    (id : ℕ) (c : Consumer) : ConsumerAction → Option (Consumer × List Event)
  | .loop ok =>
    if c.thread ≠ .test then none
    else if c.running then some ({ c.updateBackpressure ok with thread := .polling }, [])
    else some ({ c with thread := .exited }, [])
  | .rebalance err partitions =>
    -- inside `consume`, or inside `close`
    if c.thread = .test then none else some (c.rebalanceCb err partitions, [])
  | .resolve p =>
    if c.position p = .starting then
      some ({ c with position := Function.update c.position p (.next ((committed p).getD 0)) }, [])
    else none
  | .consume p offset =>
    match c.thread, c.position p, log p offset with
    | .polling, .next n, some payload =>
      if n ≤ offset ∧ (List.range' n (offset - n)).all (fun o => (log p o).isNone) then
        let job : Job := ⟨p.1, payload, p.2, offset, c.generation⟩
        let c := { c with position := Function.update c.position p (.next (offset + 1)), thread := .test }
        some (c.consumeMsg p job, [.fetched id job])
      else none
    | _, _, _ => none
  | .timeout => if c.thread = .polling then some ({ c with thread := .test }, []) else none
  | .work p signal =>
    match c.lanes p with
    | none => none
    | some lane =>
      (lane.processPartition c.running c.generation id signal).map fun r =>
        ({ c with lanes := Function.update c.lanes p (some r.1) }, r.2)
  | .shutdown => some ({ c with running := false }, [])

structure Group where
  consumers : ℕ → Consumer
  committed : TopicPartition → Option ℕ
  /-- the commit requests in flight -/
  requests : List (TopicPartition × ℕ) := []

inductive Action where
  | consumer (id : ℕ) (a : ConsumerAction)
  /-- the broker applies the `n`-th request -/
  | deliver (n : ℕ)
  /-- the `n`-th request fails -/
  | lose (n : ℕ)

/-- The offset that `processPartition` asks to commit. -/
def Event.request? : Event → Option (TopicPartition × ℕ)
  | .requested _ job => some (job.key, job.offset + 1)
  | _ => none

def Group.step (log : TopicPartition → ℕ → Option String) (w : Group) : Action → Option (Group × List Event)
  | .consumer id a =>
    ((w.consumers id).step log w.committed id a).map fun r =>
      ({ w with
        consumers := Function.update w.consumers id r.1
        requests := w.requests ++ r.2.filterMap Event.request? }, r.2)
  | .deliver n =>
    w.requests[n]?.map fun q =>
      ({ w with committed := Function.update w.committed q.1 (some q.2), requests := w.requests.eraseIdx n },
        [.committed q.1 q.2])
  | .lose n =>
    if n < w.requests.length then some ({ w with requests := w.requests.eraseIdx n }, []) else none

/-- The group at its start, with the offsets committed before. -/
def Group.init (ready : ℕ → Bool) (committed : TopicPartition → Option ℕ) : Group where
  consumers := fun id => { ready := ready id }
  committed := committed

/-- The runs of the group. -/
abbrev GroupTrace (log : TopicPartition → ℕ → Option String) (ready : ℕ → Bool)
    (committed : TopicPartition → Option ℕ) :=
  Machine.Trace (Group.step log) (Group.init ready committed)

end ApeServer.Kafka
