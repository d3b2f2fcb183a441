/-
  The life of a service (`BaseServiceServer` of `include/services/base_service.h`).

  Threads call `Start` and `Stop`, `Start` makes a thread that executes
  `RunServer`, and that one a thread that watches the stop flags.  A step is
  one access to the members, or what is done under `state_mutex_`; the steps
  of all these threads are taken in any order.

  A thread of `RunServer` and the gRPC server it builds have the same number.
-/
import ApeServer.Lib.Run

namespace ApeServer.Service

inductive ServiceState where
  | kStopped | kStarting | kRunning | kStopping
deriving DecidableEq, Repr

/-- `monitor_thread`. -/
inductive Monitor where
  /-- in its loop -/
  | watching
  /-- about to shut the server down -/
  | leaving
  | ended
deriving DecidableEq, Repr

/-- Where `RunServer` is. -/
inductive RunPhase where
  | building
  /-- `BuildAndStart` returned null -/
  | failed
  /-- about to store `kRunning` -/
  | built
  /-- in `RegisterToEtcd` -/
  | registering
  /-- in `Wait` of the server -/
  | waiting (server : ℕ) (monitor : Monitor)
  /-- in `monitor_thread.join` -/
  | joining (monitor : Monitor)
  /-- about to store `kStopped` -/
  | leaving
  /-- in the handler of an exception -/
  | threw
  /-- `state_` was `kStopping` or not when it stored `kStopped` -/
  | ended (asked : Bool)
deriving DecidableEq, Repr

/-- Where a call of `Start` is. -/
inductive StartAt where
  | entered
  | checked
  | globalReset
  | reset
  /-- the thread is made, and not yet assigned -/
  | spawned (thread : ℕ)
  | assigned
deriving DecidableEq, Repr

/-- Where a call of `Stop` is. -/
inductive StopAt where
  | entered
  | checked
  | flagged
  | globalFlagged
  | unregistered
  | shutDown
  | joined
deriving DecidableEq, Repr

/-- What a thread that uses the service does with it. -/
inductive Caller where
  | idle
  | start (phase : StartAt)
  | stop (phase : StopAt)
deriving DecidableEq, Repr

/-- A service and the threads that call it. -/
structure BaseServiceServer (γ : Type) where
  state : ServiceState := .kStopped
  shouldStop : Bool := false
  /-- `g_should_stop_service`, which the services of a type share -/
  globalStop : Bool := false
  /-- `server_` -/
  server : Option ℕ := none
  /-- the servers that are shut down or destroyed -/
  shut : ℕ → Bool := fun _ => false
  /-- `server_thread_`, if it is joinable -/
  serverThread : Option ℕ := none
  runs : ℕ → Option RunPhase := fun _ => none
  spawned : ℕ := 0
  callers : γ → Caller := fun _ => .idle
  /-- `std::terminate`, or a null pointer is used -/
  crashed : Bool := false

inductive Action (γ : Type) where
  | callStart (c : γ)
  | callStop (c : γ)
  /-- the next step of the call -/
  | go (c : γ)
  /-- the thread cannot be made, and `Start` throws -/
  | startThrows (c : γ)
  /-- the next step of `RunServer` -/
  | run (t : ℕ)
  | buildFails (t : ℕ)
  | throws (t : ℕ)
  /-- the next step of the monitor -/
  | monitor (t : ℕ)
  /-- another service of the type, or a signal handler -/
  | setGlobal (b : Bool)
deriving DecidableEq, Repr

namespace BaseServiceServer

section
variable {γ : Type} [DecidableEq γ]

def setCaller (s : BaseServiceServer γ) (c : γ) (p : Caller) : BaseServiceServer γ :=
  { s with callers := Function.update s.callers c p }

def setRun (s : BaseServiceServer γ) (t : ℕ) (p : RunPhase) : BaseServiceServer γ :=
  { s with runs := Function.update s.runs t (some p) }

/-- `server_->Shutdown()`, if there is a server. -/
def shutdown (s : BaseServiceServer γ) : BaseServiceServer γ :=
  match s.server with
  | some u => { s with shut := Function.update s.shut u true }
  | none => s

/-- `Start`. -/
def goStart (s : BaseServiceServer γ) (c : γ) : StartAt → BaseServiceServer γ
  | .entered =>
    if s.state ≠ .kStopped then s.setCaller c .idle
    else { s.setCaller c (.start .checked) with state := .kStarting }
  | .checked => { s.setCaller c (.start .globalReset) with globalStop := false }
  | .globalReset => { s.setCaller c (.start .reset) with shouldStop := false }
  | .reset =>
    { (s.setRun s.spawned .building).setCaller c (.start (.spawned s.spawned)) with spawned := s.spawned + 1 }
  | .spawned t =>
    match s.serverThread with
    -- the assignment to a joinable thread
    | some _ => { s with crashed := true }
    | none => { s.setCaller c (.start .assigned) with serverThread := some t }
  | .assigned => s.setCaller c .idle

/-- `Stop`; the join waits for the end of `RunServer`. -/
def goStop (s : BaseServiceServer γ) (c : γ) : StopAt → Option (BaseServiceServer γ)
  | .entered =>
    if s.state ≠ .kRunning then some (s.setCaller c .idle)
    else some { s.setCaller c (.stop .checked) with state := .kStopping }
  | .checked => some { s.setCaller c (.stop .flagged) with shouldStop := true }
  | .flagged => some { s.setCaller c (.stop .globalFlagged) with globalStop := true }
  | .globalFlagged => some (s.setCaller c (.stop .unregistered))
  | .unregistered => some (s.shutdown.setCaller c (.stop .shutDown))
  | .shutDown =>
    match s.serverThread with
    | none => some (s.setCaller c (.stop .joined))
    | some t =>
      match s.runs t with
      | some (.ended _) => some { s.setCaller c (.stop .joined) with serverThread := none }
      | _ => none
  | .joined => some { s.setCaller c .idle with state := .kStopped }

/-- `RunServer` stores `kStopped` and returns. -/
def leave (s : BaseServiceServer γ) (t : ℕ) : BaseServiceServer γ :=
  { s.setRun t (.ended (s.state = .kStopping)) with state := .kStopped }

/-- `server_` gets a new value, and the server it had is destroyed. -/
def setServer (s : BaseServiceServer γ) (new : Option ℕ) : BaseServiceServer γ :=
  { s.shutdown with server := new }

/-- `RunServer`; the wait is for the server's shutdown, the join for the end of
    the monitor. -/
def goRun (s : BaseServiceServer γ) (t : ℕ) : RunPhase → Option (BaseServiceServer γ)
  | .building => some ((s.setServer (some t)).setRun t .built)
  | .failed => some (s.leave t)
  | .built => some { s.setRun t .registering with state := .kRunning }
  | .registering =>
    match s.server with
    | some u => some (s.setRun t (.waiting u .watching))
    | none => some { s with crashed := true }
  | .waiting u m => if s.shut u then some (s.setRun t (.joining m)) else none
  | .joining m => if m = .ended then some (s.setRun t .leaving) else none
  | .leaving => some (s.leave t)
  | .threw => some (s.leave t)
  | .ended _ => none

/-- The monitor of thread `t`, whose phase is made of the monitor's by `place`. -/
def goMonitor (s : BaseServiceServer γ) (t : ℕ) (place : Monitor → RunPhase) : Monitor → Option (BaseServiceServer γ)
  | .watching =>
    if s.shouldStop || s.globalStop then some (s.setRun t (place .leaving)) else none
  | .leaving => some (s.shutdown.setRun t (place .ended))
  | .ended => none

/-- A step of one of the threads. -/
def act (s : BaseServiceServer γ) : Action γ → Option (BaseServiceServer γ)
  | .callStart c => if s.callers c = .idle then some (s.setCaller c (.start .entered)) else none
  | .callStop c => if s.callers c = .idle then some (s.setCaller c (.stop .entered)) else none
  | .go c =>
    match s.callers c with
    | .idle => none
    | .start p => some (s.goStart c p)
    | .stop p => s.goStop c p
  | .startThrows c => if s.callers c = .start .reset then some (s.setCaller c .idle) else none
  | .run t => (s.runs t).bind (s.goRun t)
  | .buildFails t =>
    if s.runs t = some .building then some ((s.setServer none).setRun t .failed) else none
  | .throws t =>
    if s.runs t = some .building ∨ s.runs t = some .registering then some (s.setRun t .threw) else none
  | .monitor t =>
    match s.runs t with
    | some (.waiting u m) => s.goMonitor t (.waiting u) m
    | some (.joining m) => s.goMonitor t .joining m
    | _ => none
  | .setGlobal b => some { s with globalStop := b }

/-- A step, while the process runs. -/
def step (s : BaseServiceServer γ) (a : Action γ) : Option (BaseServiceServer γ × List Unit) :=
  if s.crashed then none else (s.act a).map (·, [])

/-- The runs of a service. -/
abbrev Trace (γ : Type) [DecidableEq γ] := Machine.Trace step ({} : BaseServiceServer γ)

end

end BaseServiceServer

end ApeServer.Service
