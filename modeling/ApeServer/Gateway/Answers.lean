/-
  The answers of the read loop (`doReadLoop` of `src/gateway/ws_session.cpp`).

  The loop takes one request at a time.  It answers a ping, the messages to
  send, a group command, a query of the history and the commands of the
  conversations and of the friends; acknowledgements, requests that cannot be
  parsed and other types have no answer.

  * `Serves` is what a step of the loop does: it waits for something, answers
    the request it owes, or is left;
  * `answers_in_order`: what is answered are the requests that have an answer,
    each once and in the order they came.
-/
import ApeServer.Gateway.Identity
import ApeServer.Lib.Channel

namespace ApeServer.WS

variable {P : Parsers} {Q : Printers} {C : Clients} {x x' : Session} {r : Session × List Output}

/-! ## Requests and answers -/

/-- A request, or its answer: the type and `requestId`. -/
abbrev Tag := Int × String

def SdkWSReq.tag (req : SdkWSReq) : Tag := (req.type, req.requestId)

def SdkWSResp.tag (f : SdkWSResp) : Tag := (f.type, f.requestId)

/-- The request has an answer. -/
def SdkWSReq.Answered (P : Parsers) (req : SdkWSReq) : Prop :=
  req.type = 0 ∨ (req.type = 101 ∧ (P.send req.data).isSome) ∨ req.type = 250 ∨
    (240 ≤ req.type ∧ req.type ≤ 244) ∨ (220 ≤ req.type ∧ req.type ≤ 225)

instance (req : SdkWSReq) : Decidable (req.Answered P) := inferInstanceAs (Decidable (_ ∨ _))

/-- What a frame asks for. -/
def asks (P : Parsers) (bytes : Bytes) : List Tag :=
  match P.request bytes with
  | none => []
  | some req => if req.Answered P then [req.tag] else []

/-- What the read loop is asked for by what it waits for. -/
def ReadAction.asks (P : Parsers) : ReadAction → List Tag
  | .frame bytes => WS.asks P bytes
  | _ => []

def asked (P : Parsers) : SessionAction → List Output → List Tag
  | .loop a, _ => a.asks P
  | _, _ => []

/-- The frames that a step puts in the write queue. -/
def queuedFrames (es : List Output) : List SdkWSResp :=
  es.filterMap fun
    | .queued f => some f
    | _ => none

/-- The frames that a step writes to the socket. -/
def wroteFrames (es : List Output) : List SdkWSResp :=
  es.filterMap fun
    | .wrote f => some f
    | _ => none

/-- What the read loop answers. -/
def answered : SessionAction → List Output → List Tag
  | .loop _, es => (queuedFrames es).map SdkWSResp.tag
  | _, _ => []

/-- The request that the read loop has taken and not yet answered. -/
def Reader.owes : Reader → List Tag
  | .sending requestId => [(101, requestId)]
  | .executingGroup requestId => [(250, requestId)]
  | .gettingHistory requestId => [(244, requestId)]
  | .callingConversation type requestId | .executingFriend type requestId => [(type, requestId)]
  | _ => []

/-- Nothing is queued or written. -/
structure Frameless (es : List Output) : Prop where
  queued : queuedFrames es = []
  wrote : wroteFrames es = []

/-! ## The steps of the read loop -/

/-- The queue is the same, and the session connected or not. -/
structure Like (x x' : Session) : Prop where
  queue : x'.queue = x.queue
  disconnected : x'.disconnected = x.disconnected

theorem Like.refl (x : Session) : Like x x := ⟨rfl, rfl⟩

/-- A step of the read loop, which is asked for `asks`. -/
inductive Serves (asks : List Tag) (x : Session) : Session × List Output → Prop
  | wait {x' : Session} {reader : Reader} {es : List Output} (hl : Like x x') (hes : Frameless es)
      (howe : x.reader.owes ++ asks = reader.owes) : Serves asks x (x'.read reader es)
  | answer {f : SdkWSResp} {reader : Reader} {es : List Output} (hes : Frameless es)
      (howe : x.reader.owes ++ asks = [f.tag]) (hno : reader.owes = []) : Serves asks x (x.answer f reader es)
  | stop : Serves asks x x.stop

section
variable {asks : List Tag} (ho : x.reader.owes = [])
include ho

/-- Nothing is owed, and nothing asked for. -/
theorem idle_serves {reader : Reader} {es : List Output} (hes : Frameless es) (hno : reader.owes = []) :
    Serves [] x (x.read reader es) :=
  .wait (Like.refl x) hes (by rw [ho, hno]; rfl)

/-- The request is owed from now on. -/
theorem call_serves {reader : Reader} {call : Call} (h : reader.owes = asks) :
    Serves asks x (x.read reader [.rpc call]) :=
  .wait (Like.refl x) ⟨rfl, rfl⟩ (by rw [ho, h]; rfl)

/-- The request is answered at once. -/
theorem reply_serves {f : SdkWSResp} {reader : Reader} (h : asks = [f.tag]) (hno : reader.owes = []) :
    Serves asks x (x.answer f reader []) :=
  .answer ⟨rfl, rfl⟩ (by rw [ho, h]; rfl) hno

end

/-- The answer that is owed. -/
theorem owed_serves {f : SdkWSResp} {es : List Output} (hes : Frameless es) (h : x.reader.owes = [f.tag]) :
    Serves [] x (x.answer f .reading es) :=
  .answer hes (by rw [h]; rfl) rfl

/-! ### The handlers -/

section
variable (ho : x.reader.owes = []) {req : SdkWSReq}
include ho

theorem ackIds_serves (ackType : Int) (ids : List String) : Serves [] x (x.ackIds ackType ids) := by
  cases ids with
  | nil => exact idle_serves ho ⟨rfl, rfl⟩ rfl
  | cons id rest => exact call_serves ho rfl

theorem handleAck_serves : Serves [] x (x.handleAck P req) := by
  unfold Session.handleAck
  cases P.ack req.data with
  | none => exact idle_serves ho ⟨rfl, rfl⟩ rfl
  | some ackReq =>
    dsimp only
    split
    · exact idle_serves ho ⟨rfl, rfl⟩ rfl
    · exact ackIds_serves ho _ _

theorem send_serves {msgs : List MsgData} (hs : P.send req.data = some msgs) (ht : req.type = 101) :
    Serves [req.tag] x (x.send P req) := by
  unfold Session.send
  rw [hs]
  exact call_serves ho (by simp [Reader.owes, SdkWSReq.tag, ht])

theorem executeGroup_serves (ht : req.type = 250) : Serves [req.tag] x (x.executeGroup P Q C req) := by
  have htag : req.tag = (250, req.requestId) := by simp [SdkWSReq.tag, ht]
  unfold Session.executeGroup
  rw [htag]
  cases P.group req.data with
  | none => exact reply_serves ho rfl rfl
  | some command =>
    dsimp only
    split
    · exact call_serves ho rfl
    · exact reply_serves ho rfl rfl

theorem getHistory_serves (ht : req.type = 244) : Serves [req.tag] x (x.getHistory P req) := by
  have htag : req.tag = (244, req.requestId) := by simp [SdkWSReq.tag, ht]
  unfold Session.getHistory
  rw [htag]
  cases P.history req.data with
  | none => exact reply_serves ho rfl rfl
  | some query =>
    dsimp only
    split
    · exact reply_serves ho rfl rfl
    · exact call_serves ho rfl

theorem callConversation_serves : Serves [req.tag] x (x.callConversation P C req) := by
  unfold Session.callConversation
  cases x.conversationCall P C req with
  | error what => exact reply_serves ho rfl rfl
  | ok call => exact call_serves ho rfl

omit ho in
/-- The notifications are pushed, and not put in the queue of this session. -/
theorem pushed_frameless (accounts : List Account) (f : Account → SdkWSResp) :
    Frameless (accounts.map fun account => .pushed account (f account)) := by
  induction accounts with
  | nil => exact ⟨rfl, rfl⟩
  | cons account accounts ih => exact ⟨ih.queued, ih.wrote⟩

theorem executeFriend_serves : Serves [req.tag] x (x.executeFriend P Q C req) := by
  unfold Session.executeFriend
  cases P.friend req.data with
  | none => exact reply_serves ho rfl rfl
  | some command =>
    dsimp only
    split
    · exact call_serves ho rfl
    · exact reply_serves ho rfl rfl

/-- **A frame** is answered, or asks for nothing. -/
theorem doReadLoop_serves (bytes : Bytes) : Serves (asks P bytes) x (x.doReadLoop P Q C bytes) := by
  unfold Session.doReadLoop asks
  cases P.request bytes with
  | none => exact idle_serves ho ⟨rfl, rfl⟩ rfl
  | some req =>
    dsimp only
    have hyes : req.Answered P → (if req.Answered P then [req.tag] else []) = [req.tag] := fun h => if_pos h
    have hno : ¬ req.Answered P → (if req.Answered P then [req.tag] else []) = [] := fun h => if_neg h
    generalize (if req.Answered P then [req.tag] else []) = tags at hyes hno ⊢
    unfold SdkWSReq.Answered at hyes hno
    split_ifs with h₀ h₁ h₂ h₃ h₄ h₅ h₆
    · rw [hyes (Or.inl h₀)]
      exact reply_serves ho (by simp [SdkWSReq.tag, SdkWSResp.tag, h₀]) rfl
    · cases hs : P.send req.data with
      | none =>
        rw [hno (by simp [h₁, hs])]
        unfold Session.send
        rw [hs]
        exact idle_serves ho ⟨rfl, rfl⟩ rfl
      | some msgs =>
        rw [hyes (by simp [h₁, hs])]
        exact send_serves ho hs h₁
    · rw [hno (by omega)]
      exact handleAck_serves ho
    · rw [hyes (by omega)]
      exact executeGroup_serves ho h₃
    · rw [hyes (by omega)]
      exact getHistory_serves ho h₄
    · simp only [Bool.and_eq_true, decide_eq_true_eq] at h₅
      rw [hyes (by omega)]
      exact callConversation_serves ho
    · simp only [Bool.and_eq_true, decide_eq_true_eq] at h₆
      rw [hyes (by omega)]
      exact executeFriend_serves ho
    · simp only [Bool.and_eq_true, decide_eq_true_eq] at h₅ h₆
      rw [hno (by omega)]
      exact idle_serves ho ⟨rfl, rfl⟩ rfl

end

/-- **A step of the read loop** answers what it owes. -/
theorem readStep_serves {a : ReadAction} (h : x.readStep P Q C a = some r) : Serves (a.asks P) x r := by
  unfold Session.readStep at h
  split at h
  · next hr =>
    cases h
    exact doReadLoop_serves (by rw [hr]; rfl) _
  · cases h
    exact .stop
  · next hr =>
    cases h
    exact idle_serves (by rw [hr]; rfl) ⟨rfl, rfl⟩ rfl
  · next requestId result hr =>
    cases h
    refine owed_serves ⟨rfl, rfl⟩ ?_
    rw [hr]
    cases result <;> rfl
  · next ackType id rest failed result hr =>
    cases h
    have ho : x.reader.owes = [] := by rw [hr]; rfl
    cases result with
    | ok u =>
      have hl : Like x (x.accepted id) := ⟨rfl, rfl⟩
      cases rest with
      | nil => exact .wait hl ⟨rfl, rfl⟩ (by rw [ho]; rfl)
      | cons id' rest => exact .wait hl ⟨rfl, rfl⟩ (by rw [ho]; rfl)
    | error what =>
      unfold Session.acknowledged
      dsimp only
      split
      · exact idle_serves ho ⟨rfl, rfl⟩ rfl
      · exact idle_serves ho ⟨rfl, rfl⟩ rfl
  · next hr =>
    cases h
    exact call_serves (by rw [hr]; rfl) rfl
  · next requestId answer hr =>
    cases h
    cases answer with
    | ok reply => exact owed_serves ⟨rfl, rfl⟩ (by rw [hr]; rfl)
    | error what => exact .stop
  · next requestId result hr =>
    cases h
    refine owed_serves ⟨rfl, rfl⟩ ?_
    rw [hr]
    cases result <;> rfl
  · next type requestId result hr =>
    cases h
    refine owed_serves ⟨rfl, rfl⟩ ?_
    rw [hr]
    cases result <;> rfl
  · next type requestId reply online hr =>
    cases h
    refine owed_serves ?_ (by rw [hr]; rfl)
    split
    · exact pushed_frameless _ fun account => { type := 230, account := account, errorCode := "0" }
    · exact ⟨rfl, rfl⟩
  · next type requestId what online hr =>
    cases h
    exact owed_serves ⟨rfl, rfl⟩ (by rw [hr]; rfl)
  · cases h

theorem readStep_ended {a : ReadAction} (h : x.readStep P Q C a = some r) : x.reader ≠ .ended := by
  intro hr
  unfold Session.readStep at h
  rw [hr] at h
  cases h

/-- The loop is left. -/
def Session.Left (x : Session) : Prop := x.reader = .ended

/-- What is owed is the content of a channel: what is asked for goes in, and
    what is answered comes out. -/
theorem Serves.passes {tags : List Tag} (h : Serves tags x r) (hr : x.reader ≠ .ended) :
    Channel.Passes x.Left r.1.Left x.reader.owes tags ((queuedFrames r.2).map SdkWSResp.tag) r.1.reader.owes := by
  have hx : ¬ x.Left := hr
  have hleft : Channel.Passes x.Left x.stop.1.Left x.reader.owes tags [] x.stop.1.reader.owes :=
    { stays := fun h => absurd h hx
      whole := fun h => absurd rfl h
      breaks := List.nil_prefix
      after := fun h => absurd h hx }
  cases h with
  | @wait x' reader es hl hes howe =>
    show Channel.Passes _ _ _ _ ((queuedFrames es).map SdkWSResp.tag) reader.owes
    rw [hes.queued, ← howe]
    exact .put hx
  | @answer f reader es hes howe hno =>
    unfold Session.answer
    rcases queuedWrite_cases x f with ⟨-, q, he⟩ | he
    · rw [he]
      show Channel.Passes _ _ _ _ (f.tag :: (queuedFrames es).map SdkWSResp.tag) reader.owes
      rw [hes.queued, hno]
      exact
        { stays := fun h => absurd h hx
          whole := fun _ => howe
          breaks := by simp [howe]
          after := fun h => absurd h hx }
    · rw [he]
      exact hleft
  | stop => exact hleft

/-! ## Beside the read loop -/

/-- Before the read loop is spawned. -/
def Main.Alone : Main → Prop
  | reading | registering _ | replying | loggingIn _ | validating _ | settingOnline .. => True
  | _ => False

/-- The main coroutine spawns the loop once. -/
theorem MainMove.reader {a : MainAction} (h : MainMove Q x a r) :
    (r.1.reader = x.reader ∧ (r.1.main.Alone → x.main.Alone)) ∨
      (x.main.Alone ∧ r.1.reader = .reading ∧ ¬ r.1.main.Alone) := by
  cases h with
  | start hm =>
    right
    rw [hm]
    exact ⟨trivial, rfl, fun h => h⟩
  | finish _ _ hr => exact Or.inl ⟨hr, fun h => h.elim⟩
  | failed _ _ _ hr => exact Or.inl ⟨hr, fun h => h.elim⟩
  | register hm => exact Or.inl ⟨rfl, fun _ => by rw [hm]; trivial⟩
  | reply hm => exact Or.inl ⟨rfl, fun _ => by rw [hm]; trivial⟩
  | login hm => exact Or.inl ⟨rfl, fun _ => by rw [hm]; trivial⟩
  | validate hm => exact Or.inl ⟨rfl, fun _ => by rw [hm]; trivial⟩
  | loggedIn hm => exact Or.inl ⟨rfl, fun _ => by rw [hm]; trivial⟩
  | validated hm => exact Or.inl ⟨rfl, fun _ => by rw [hm]; trivial⟩
  | _ => exact Or.inl ⟨rfl, fun h => h.elim⟩

/-- The drain and the pushes leave the loop alone. -/
theorem step_reader {a : SessionAction} (h : x.step P Q C a = some r) (hm : ∀ b, a ≠ .main b)
    (hl : ∀ b, a ≠ .loop b) : r.1.reader = x.reader := by
  cases a with
  | main b => exact absurd rfl (hm b)
  | loop b => exact absurd rfl (hl b)
  | drainStarted =>
    simp only [Session.step] at h
    split_ifs at h
    cases h
    rfl
  | written =>
    simp only [Session.step] at h
    split at h <;> cases h
    rfl
  | writeFailed =>
    simp only [Session.step] at h
    split at h <;> cases h
    simp [Session.drained]
  | push f =>
    simp only [Session.step] at h
    split_ifs at h
    cases h
    unfold Session.asyncSend
    split_ifs
    · rfl
    · cases x.trySend f <;> rfl
  | closing =>
    simp only [Session.step] at h
    split_ifs at h
    cases h
    simp

/-! ## Runs -/

section
variable (T : SessionTrace P Q C)

/-- There is no loop before the main coroutine spawns it. -/
theorem alone_trace {i : ℕ} (hi : i ≤ T.len) : (T.state i).main.Alone → (T.state i).reader = .absent := by
  refine T.invariant_of (P := fun x => x.main.Alone → x.reader = .absent) (I := fun x => x.reader.Ok)
    (G := fun _ _ => True) (fun j hj => (named_trace T hj).ok) (fun _ _ => trivial) (fun _ => rfl) ?_ hi
  intro x a x' es hok _ h hs hm
  by_cases ha : ∃ b, a = .main b
  · obtain ⟨b, rfl⟩ := ha
    have hmove : MainMove Q x b (x', es) := main_move hs
    rcases hmove.reader with ⟨hr, halone⟩ | ⟨-, -, hn⟩
    · exact hr.trans (h (halone hm))
    · exact absurd hm hn
  · have hb := step_beside hok hs fun b he => ha ⟨b, he⟩
    have hmain : x'.main = x.main := hb.main
    exact hb.reader (h (hmain ▸ hm))

/-- **A step** passes what it is asked for on to what is owed, and from there
    to what is answered. -/
theorem owes_passes {i : ℕ} (hi : i < T.len) :
    Channel.Passes (T.state i).Left (T.state (i + 1)).Left (T.state i).reader.owes (asked P (T.act i) (T.out i))
      (answered (T.act i) (T.out i)) (T.state (i + 1)).reader.owes := by
  have hs := T.next i hi
  have hidle : ∀ x x' : Session, x'.reader = x.reader →
      Channel.Passes x.Left x'.Left x.reader.owes [] [] x'.reader.owes := by
    intro x x' hr
    exact .idle (fun h => hr.trans h) (fun _ => by rw [hr]) (by rw [hr])
  cases ha : T.act i with
  | main b =>
    rw [ha] at hs
    have hmove : MainMove Q (T.state i) b (T.state (i + 1), T.out i) := main_move hs
    rcases hmove.reader with ⟨hr, -⟩ | ⟨hm, hr, -⟩
    · exact hidle _ _ hr
    · -- the loop is spawned, and owes nothing
      have h₀ := alone_trace T hi.le hm
      have hr : (T.state (i + 1)).reader = .reading := hr
      rw [Session.Left, Session.Left, h₀, hr]
      exact .idle (fun h => nomatch h) (fun _ => rfl) (List.prefix_refl _)
  | loop b =>
    rw [ha] at hs
    have hr : (T.state i).readStep P Q C b = some (T.state (i + 1), T.out i) := hs
    exact (readStep_serves hr).passes (readStep_ended hr)
  | _ => exact hidle _ _ (step_reader hs (by simp [ha]) (by simp [ha]))

/-- **Every request of the read loop** that has an answer is answered once, with
    its type and `requestId`, and in the order the requests came: of what has
    been asked for, at most the last request is not answered, until the loop is
    left. -/
theorem answers_in_order (T : SessionTrace P Q C) {i : ℕ} (hi : i ≤ T.len) :
    T.flow answered i <+: T.flow (asked P) i ∧
    ((T.state i).reader ≠ .ended → T.flow answered i ++ (T.state i).reader.owes = T.flow (asked P) i) ∧
    (T.state i).reader.owes.length ≤ 1 := by
  obtain ⟨hp, hw⟩ := T.passes Session.Left (fun x => x.reader.owes) (asked P) answered rfl
    (fun _ hk => owes_passes T hk) hi
  refine ⟨(List.prefix_append _ _).trans hp, hw, ?_⟩
  cases (T.state i).reader <;> simp [Reader.owes]

end

/-- A login, a message to send, and a push before its answer. -/
def sendActions : List SessionAction :=
  [.main (.frame [1]), .main (.loggedIn (.ok { success := true })), .main .setOnline, .loop (.frame [3]),
   .drainStarted, .push { type := 104 }, .written, .loop (.sent (.ok [5]))]

def sendTrace : SessionTrace fewParsers noPrinters {} :=
  Machine.Trace.ofActions _ _ (fun i => sendActions.getD i .closing) 8 (by decide +kernel)

theorem answers_in_order_sent :
    sendTrace.flow answered 8 ++ (sendTrace.state 8).reader.owes = sendTrace.flow (asked fewParsers) 8 :=
  (answers_in_order sendTrace (i := 8) le_rfl).2.1 (by decide +kernel)

end ApeServer.WS
