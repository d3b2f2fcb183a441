/-
  The writes to the socket (`startWriteQueue`, `doDrainWriteQueue`,
  `queuedWrite` and `asyncSend` of `src/gateway/ws_session.cpp`).

  Before `handleAuth` succeeds, the main coroutine writes to the socket itself;
  afterwards all writes go through the queue.

  * `Touch` is what a coroutine does to the queue: nothing, a disconnect, or
    one frame put in;
  * `Session.Sound` is the invariant of the queue;
  * `writes_in_order`: the drain writes what is queued in order, and no other
    coroutine writes in a session that has a queue.
-/
import ApeServer.Gateway.Answers

namespace ApeServer.WS

variable {P : Parsers} {Q : Printers} {C : Clients} {x x' : Session} {r : Session × List Output} {es : List Output}

/-! ## The queue -/

/-- The frames that a step puts in the queue. -/
def queuedBy (_ : SessionAction) (es : List Output) : List SdkWSResp := queuedFrames es

/-- The frames that `doDrainWriteQueue` has written. -/
def drainedBy : SessionAction → List Output → List SdkWSResp
  | .written, es => wroteFrames es
  | _, _ => []

/-- The frames that another coroutine writes. -/
def directBy : SessionAction → List Output → List SdkWSResp
  | .written, _ => []
  | _, es => wroteFrames es

/-- What is queued and not yet written. -/
def WriteQueue.unwritten (q : WriteQueue) : List SdkWSResp :=
  match q.drain with
  | .writing f => f :: q.frames
  | .ended => []
  | _ => q.frames

def Session.unwritten (x : Session) : List SdkWSResp := (x.queue.map WriteQueue.unwritten).getD []

/-- **The invariant of the queue.** -/
structure Session.Sound (x : Session) : Prop where
  capacity : ∀ q ∈ x.queue, q.frames.length ≤ queueCapacity
  empty : ∀ q ∈ x.queue, q.drain = .receiving → q.frames = []
  closed : ∀ q ∈ x.queue, q.closed = true ∨ q.drain = .ended → x.disconnected = true

/-- A frame goes to the end of what is not yet written. -/
theorem trySend_unwritten {q q' : WriteQueue} {f : SdkWSResp} (h : q.trySend f = some q')
    (he : q.drain = .receiving → q.frames = []) (hd : q.drain ≠ .ended) :
    q'.unwritten = q.unwritten ++ [f] ∧ q'.frames.length ≤ max q.frames.length queueCapacity ∧
      (q'.drain = .receiving → q'.frames = []) ∧ q'.closed = q.closed ∧ q'.drain ≠ .ended := by
  unfold WriteQueue.trySend at h
  split_ifs at h with hc hr hl
  · cases h
    simp [WriteQueue.unwritten, hr, he hr]
  · cases h
    refine ⟨?_, ?_, fun h => absurd h hr, rfl, hd⟩
    · cases hq : q.drain <;> simp_all [WriteQueue.unwritten]
    · simp only [List.length_append, List.length_singleton]
      omega

/-- A frame is taken from the front. -/
theorem receive_unwritten (q : WriteQueue) (hc : q.closed = false) :
    q.receive.unwritten = q.frames ∧ q.receive.frames.length ≤ q.frames.length ∧
      (q.receive.drain = .receiving → q.receive.frames = []) ∧ q.receive.closed = q.closed ∧
      q.receive.drain ≠ .ended := by
  unfold WriteQueue.receive
  cases hf : q.frames with
  | nil => simp [WriteQueue.unwritten, hc]
  | cons f frames => simp [WriteQueue.unwritten]

theorem close_unwritten (q : WriteQueue) : q.close.unwritten <+: q.unwritten ∧ q.close.frames = q.frames := by
  refine ⟨?_, rfl⟩
  unfold WriteQueue.close
  cases hq : q.drain <;> simp [WriteQueue.unwritten, hq]

/-! ## What a coroutine does to the queue -/

theorem Like.trans {x'' : Session} (h : Like x x') (h' : Like x' x'') : Like x x'' :=
  ⟨h'.queue.trans h.queue, h'.disconnected.trans h.disconnected⟩

theorem Like.onDisconnect (h : Like x x') : Like x.onDisconnect x'.onDisconnect := by
  unfold Session.onDisconnect
  rw [h.disconnected]
  split_ifs
  · exact h
  · exact ⟨by simp [h.queue], rfl⟩

theorem onDisconnect_onDisconnect (x : Session) : x.onDisconnect.onDisconnect = x.onDisconnect := by
  conv_lhs => rw [Session.onDisconnect]
  rw [if_pos (by simp)]

theorem Like.trySend (h : Like x x') (f : SdkWSResp) : x'.trySend f = x.trySend f := by
  rw [Session.trySend, Session.trySend, h.disconnected, h.queue]

/-- What a step does to the queue, beside the drain. -/
inductive Touch (x : Session) : Session → List Output → Prop
  | idle {x' : Session} {es : List Output} (hl : Like x x') (hes : Frameless es) : Touch x x' es
  | disconnect {x' : Session} {es : List Output} (hl : Like x.onDisconnect x') (hes : Frameless es) :
      Touch x x' es
  | put {x' : Session} {es : List Output} {f : SdkWSResp} {q : WriteQueue} (ht : x.trySend f = some q)
      (hq : x'.queue = some q) (hd : x'.disconnected = x.disconnected) (hes : queuedFrames es = [f])
      (hw : wroteFrames es = []) : Touch x x' es

theorem Touch.congr (hl : Like x x') {x'' : Session} (h : Touch x' x'' es) : Touch x x'' es := by
  cases h with
  | idle h hes => exact .idle (hl.trans h) hes
  | disconnect h hes => exact .disconnect (hl.onDisconnect.trans h) hes
  | put ht hq hd hes hw => exact .put ((hl.trySend _).symm.trans ht) hq (hd.trans hl.disconnected) hes hw

theorem Touch.wrote (h : Touch x x' es) : wroteFrames es = [] := by
  cases h with
  | idle _ hes => exact hes.wrote
  | disconnect _ hes => exact hes.wrote
  | put _ _ _ _ hw => exact hw

/-- `queuedWrite` puts the frame in the queue, or disconnects. -/
theorem queuedWrite_touch (x : Session) (f : SdkWSResp) :
    (∃ q, x.trySend f = some q ∧ x.queuedWrite f = .ok { x with queue := some q }) ∨
      x.queuedWrite f = .error x.onDisconnect := by
  unfold Session.queuedWrite
  cases x.trySend f with
  | none => exact Or.inr rfl
  | some q => exact Or.inl ⟨q, rfl, rfl⟩

theorem Serves.touch {tags : List Tag} (h : Serves tags x r) : Touch x r.1 r.2 := by
  cases h with
  | wait hl hes => exact .idle ⟨hl.queue, hl.disconnected⟩ hes
  | @answer f reader es hes =>
    unfold Session.answer
    rcases queuedWrite_touch x f with ⟨q, ht, he⟩ | he
    · rw [he]
      exact .put ht rfl rfl (congrArg (f :: ·) hes.queued) hes.wrote
    · rw [he]
      exact .disconnect ⟨rfl, rfl⟩ ⟨rfl, rfl⟩
  | stop => exact .disconnect ⟨rfl, rfl⟩ ⟨rfl, rfl⟩

/-! ### The main coroutine -/

/-- Before `handleAuth` or another handler of the first frame is done. -/
def Main.Early : Main → Prop
  | reading | registering _ | loggingIn _ | validating _ => True
  | _ => False

/-- What a step of the main coroutine does to the socket and the queue. -/
inductive MainTouch (x : Session) (r : Session × List Output) : Prop
  | touch (ht : Touch x r.1 r.2) (he : r.1.main.Early → x.main.Early)
  | direct (f : SdkWSResp) (hm : x.main.Early) (hl : Like x r.1) (hes : queuedFrames r.2 = [])
      (hw : wroteFrames r.2 = [f]) (hn : ¬ r.1.main.Early)
  | start (hm : x.main.Early) (hq : r.1.queue = some {}) (hd : r.1.disconnected = x.disconnected) (hes : r.2 = [])
      (hn : ¬ r.1.main.Early)

theorem finish_touch : MainTouch x (x.finish []) := .touch (.idle ⟨rfl, rfl⟩ ⟨rfl, rfl⟩) fun h => h.elim

theorem fail_touch : MainTouch x x.fail := .touch (.disconnect ⟨rfl, rfl⟩ ⟨rfl, rfl⟩) fun h => h.elim

theorem refuse_touch (hm : x.main.Early) (f : SdkWSResp) : MainTouch x (x.refuse f) :=
  .direct f hm ⟨rfl, rfl⟩ rfl rfl fun h => h

theorem authenticated_touch (hm : x.main.Early) (req : SdkWSReq) (token : String) :
    MainTouch x (x.authenticated req token) :=
  .start hm rfl rfl rfl fun h => h

theorem synced_touch : MainTouch x x.synced := by
  unfold Session.synced
  split_ifs
  · exact finish_touch
  · rcases queuedWrite_touch x (Session.complete x.account) with ⟨q, ht, hw⟩ | hw
    · rw [hw]
      exact .touch (.put ht rfl rfl rfl rfl) fun h => h.elim
    · rw [hw]
      exact .touch (.disconnect ⟨rfl, rfl⟩ ⟨rfl, rfl⟩) fun h => h.elim

theorem syncFailed_touch (what : String) : MainTouch x (x.syncFailed what) := by
  unfold Session.syncFailed
  split_ifs
  · exact finish_touch
  · rcases queuedWrite_touch x (Session.syncError x.account) with ⟨q, ht, hw⟩ | hw
    · rw [hw]
      exact .touch (.put ht rfl rfl rfl rfl) fun h => h.elim
    · rw [hw]
      refine .touch (.disconnect ?_ ⟨rfl, rfl⟩) fun h => h.elim
      show Like x.onDisconnect { x.onDisconnect.onDisconnect with main := .ended }
      rw [onDisconnect_onDisconnect]
      exact ⟨rfl, rfl⟩

theorem waited_touch (next : Int) : MainTouch x (x.waited next) := by
  cases hd : x.disconnected
  · rw [waited_connected x hd]
    exact .touch (.idle ⟨rfl, rfl⟩ ⟨rfl, rfl⟩) fun h => h.elim
  · rw [waited_disconnected x hd]
    exact finish_touch

theorem goOn_touch (s : Scan) : MainTouch x (x.goOn s) := by
  cases s with
  | fetching after => exact .touch (.idle ⟨rfl, rfl⟩ ⟨rfl, rfl⟩) fun h => h.elim
  | delivering m rest => exact .touch (.idle ⟨rfl, rfl⟩ ⟨rfl, rfl⟩) fun h => h.elim
  | waiting next =>
    unfold Session.goOn
    dsimp only
    split_ifs
    · exact waited_touch next
    · exact .touch (.idle ⟨rfl, rfl⟩ ⟨rfl, rfl⟩) fun h => h.elim
  | returned => exact synced_touch
  | threw what => exact syncFailed_touch what

/-- `doRead`, with the first frame. -/
theorem doRead_touch (hm : x.main = .reading) (bytes : Bytes) : MainTouch x (x.doRead P bytes) := by
  have hearly : x.main.Early := by
    rw [hm]
    trivial
  unfold Session.doRead
  cases P.request bytes with
  | none => exact refuse_touch hearly _
  | some req =>
    dsimp only
    split_ifs
    · unfold Session.handleReg
      cases P.register req.data with
      | none => exact refuse_touch hearly _
      | some r =>
        dsimp only
        split_ifs
        · exact refuse_touch hearly _
        · exact .touch (.idle ⟨rfl, rfl⟩ ⟨rfl, rfl⟩) fun _ => hearly
    · unfold Session.handleAuth
      split_ifs
      · exact refuse_touch hearly _
      · exact .touch (.idle ⟨rfl, rfl⟩ ⟨rfl, rfl⟩) fun _ => hearly
      · exact .touch (.idle ⟨rfl, rfl⟩ ⟨rfl, rfl⟩) fun _ => hearly
    · exact refuse_touch hearly _

theorem loggedIn_touch (hm : x.main.Early) (req : SdkWSReq) (answer : Except String AuthRegResponse) :
    MainTouch x (x.loggedIn req answer) := by
  unfold Session.loggedIn
  cases answer with
  | error what => exact fail_touch
  | ok resp =>
    dsimp only
    split_ifs
    · exact authenticated_touch hm _ _
    · exact refuse_touch hm _

theorem validated_touch (hm : x.main.Early) (req : SdkWSReq) (answer : Except String ValidateTokenResponse) :
    MainTouch x (x.validated req answer) := by
  unfold Session.validated
  cases answer with
  | error what => exact refuse_touch hm _
  | ok resp =>
    dsimp only
    split_ifs
    · exact authenticated_touch hm _ _
    · exact refuse_touch hm _

theorem setOnline_touch (req : SdkWSReq) (token : String) : MainTouch x (x.setOnline req token) := by
  unfold Session.setOnline
  dsimp only
  generalize ({ account := x.account, type := req.type, requestId := req.requestId, token := token,
                deviceID := req.deviceID } : SdkWSResp) = f
  rcases queuedWrite_touch x f with ⟨q, ht, hw⟩ | hw
  · have hc : x.disconnected = false := by
      by_contra hd
      rw [Session.trySend, if_pos (by simpa using hd)] at ht
      cases ht
    have hs : Scan.start x.disconnected = .fetching 0 := by simp [Scan.start, Scan.loop, hc]
    rw [hw]
    dsimp only
    rw [hs]
    exact .touch (.put ht rfl rfl rfl rfl) fun h => h.elim
  · rw [hw]
    refine .touch (.disconnect ?_ ⟨rfl, rfl⟩) fun h => h.elim
    show Like x.onDisconnect { x.onDisconnect.onDisconnect with main := .ended }
    rw [onDisconnect_onDisconnect]
    exact ⟨rfl, rfl⟩

theorem deliverAction_touch (m : MsgData) (rest : List MsgData) : MainTouch x (x.deliverAction Q m rest) := by
  have hl : Like x (x.setPending m) := ⟨rfl, rfl⟩
  unfold Session.deliverAction
  split_ifs
  · exact .touch (.idle ⟨rfl, rfl⟩ ⟨rfl, rfl⟩) fun h => h.elim
  · dsimp only
    rcases queuedWrite_touch (x.setPending m) (Session.offlineFrame Q x.account m) with ⟨q, ht, hw⟩ | hw
    · rw [hw]
      exact .touch (.put ((hl.trySend _).symm.trans ht) rfl rfl rfl rfl) fun h => h.elim
    · rw [hw]
      exact .touch (.disconnect (hl.onDisconnect.trans ⟨rfl, rfl⟩) ⟨rfl, rfl⟩) fun h => h.elim

theorem timerFired_touch (next : Int) : MainTouch x (x.timerFired next) := by
  unfold Session.timerFired
  dsimp only
  split_ifs
  · have hl : Like x { x with timer := .unset } := ⟨rfl, rfl⟩
    rcases waited_touch (x := { x with timer := .unset }) next with ⟨ht, he⟩ | ⟨f, hm, hl', hes, hw, hn⟩ |
      ⟨hm, hq, hd, hes, hn⟩
    · exact .touch (ht.congr hl) he
    · exact .direct f hm (hl.trans hl') hes hw hn
    · exact .start hm hq hd hes hn
  · rw [waited_disconnected _ (by simp)]
    have hl : Like x { x with timer := .unset } := ⟨rfl, rfl⟩
    exact .touch (.disconnect (hl.onDisconnect.trans ⟨rfl, rfl⟩) ⟨rfl, rfl⟩) fun h => h.elim

/-- **A step of the main coroutine.** -/
theorem mainStep_touch {a : MainAction} (h : x.mainStep P Q a = some r) : MainTouch x r := by
  unfold Session.mainStep at h
  split at h
  · next hm =>
    cases h
    exact doRead_touch hm _
  · cases h
    exact finish_touch
  · next hm =>
    cases h
    exact .direct _ (by rw [hm]; trivial) ⟨rfl, rfl⟩ rfl rfl fun h => h
  · cases h
    split_ifs
    · exact finish_touch
    · exact fail_touch
  · next hm =>
    cases h
    exact loggedIn_touch (by rw [hm]; trivial) _ _
  · next hm =>
    cases h
    exact validated_touch (by rw [hm]; trivial) _ _
  · cases h
    exact setOnline_touch _ _
  · cases h
    exact goOn_touch _
  · cases h
    exact syncFailed_touch _
  · cases h
    exact deliverAction_touch _ _
  · cases h
  · cases h
    exact goOn_touch _
  · cases h
    exact syncFailed_touch _
  · cases h
    exact timerFired_touch _
  · cases h

/-! ## The queue as a channel -/

/-- The queue passes `puts` in and `takes` out, and stays sound. -/
structure Conveys (x x' : Session) (puts takes : List SdkWSResp) : Prop where
  sound : x'.Sound
  passes : Channel.Passes (x.disconnected = true) (x'.disconnected = true) x.unwritten puts takes x'.unwritten

theorem Session.Sound.like (h : x.Sound) (hl : Like x x') : x'.Sound where
  capacity := hl.queue ▸ h.capacity
  empty := hl.queue ▸ h.empty
  closed := by
    rw [hl.queue, hl.disconnected]
    exact h.closed

theorem Like.unwritten (hl : Like x x') : x'.unwritten = x.unwritten := by
  rw [Session.unwritten, hl.queue]
  rfl

theorem like_conveys (h : x.Sound) (hl : Like x x') : Conveys x x' [] [] where
  sound := h.like hl
  passes := .idle (fun hd => hl.disconnected.trans hd) (fun _ => hl.unwritten) (by rw [hl.unwritten])

/-- What is not yet written is lost at most from the end. -/
theorem onDisconnect_conveys (h : x.Sound) : Conveys x x.onDisconnect [] [] := by
  cases hd : x.disconnected with
  | true =>
    have he : x.onDisconnect = x := if_pos hd
    rw [he]
    exact like_conveys h (Like.refl x)
  | false =>
    cases hq : x.queue with
    | none =>
      have hq' : x.onDisconnect.queue = none := by simp [Session.onDisconnect, hd, hq]
      refine ⟨⟨by simp [hq'], by simp [hq'], by simp⟩, .idle (by simp) (by simp) ?_⟩
      simp [Session.unwritten, hq, hq']
    | some q =>
      have hq' : x.onDisconnect.queue = some q.close := by simp [Session.onDisconnect, hd, hq]
      obtain ⟨hu, hf⟩ := close_unwritten q
      refine ⟨⟨?_, ?_, by simp⟩, .idle (by simp) (by simp) ?_⟩
      · rw [hq']
        rintro _ ⟨⟩
        exact hf ▸ h.capacity q hq
      · rw [hq']
        rintro _ ⟨⟩
        intro hr
        unfold WriteQueue.close at hr
        simp only [ite_eq_iff] at hr
        simp_all
      · simpa [Session.unwritten, hq, hq'] using hu

theorem put_conveys {f : SdkWSResp} {q : WriteQueue} (h : x.Sound) (ht : x.trySend f = some q)
    (hq : x'.queue = some q) (hd : x'.disconnected = x.disconnected) : Conveys x x' [f] [] := by
  unfold Session.trySend at ht
  split_ifs at ht with hc
  obtain ⟨q₀, hq₀, ht⟩ := Option.bind_eq_some_iff.1 ht
  have hend : q₀.drain ≠ .ended := fun he => hc (h.closed q₀ hq₀ (Or.inr he))
  obtain ⟨hu, hl, he, hcl, hn⟩ := trySend_unwritten ht (h.empty q₀ hq₀) hend
  have hl₀ := h.capacity q₀ hq₀
  refine ⟨⟨?_, ?_, ?_⟩, ?_⟩
  · rw [hq]
    rintro _ ⟨⟩
    omega
  · rw [hq]
    rintro _ ⟨⟩
    exact he
  · rw [hq, hd]
    rintro _ ⟨⟩
    rw [hcl]
    exact fun hor => h.closed q₀ hq₀ (Or.inl (hor.resolve_right hn))
  · have hx : x.unwritten = q₀.unwritten := by rw [Session.unwritten, hq₀]; rfl
    have hx' : x'.unwritten = q.unwritten := by rw [Session.unwritten, hq]; rfl
    rw [hx, hx', hu]
    exact .put hc

/-- **A coroutine** beside the drain puts frames at the end. -/
theorem Touch.conveys (h : x.Sound) (ht : Touch x x' es) : Conveys x x' (queuedFrames es) [] := by
  cases ht with
  | idle hl hes =>
    rw [hes.queued]
    exact like_conveys h hl
  | disconnect hl hes =>
    rw [hes.queued]
    have hd := onDisconnect_conveys h
    refine ⟨hd.sound.like hl, ?_⟩
    rw [hl.disconnected, hl.unwritten]
    exact hd.passes
  | put ht hq hd hes =>
    rw [hes]
    exact put_conveys h ht hq hd

/-- **The drain** takes the frame it has written from the front. -/
theorem drain_conveys {q : WriteQueue} {takes : List SdkWSResp} (h : x.Sound) (hq : x.queue = some q)
    (ht : q.unwritten = takes ++ q.frames) : Conveys x x.drain [] takes := by
  have hx : x.unwritten = takes ++ q.frames := by rw [Session.unwritten, hq]; exact ht
  cases hd : x.disconnected with
  | true =>
    have hq' : x.drain.queue = some { q with drain := .ended } := by simp [Session.drain, hq, hd]
    have hx' : x.drain.unwritten = [] := by rw [Session.unwritten, hq']; rfl
    refine ⟨⟨?_, ?_, fun _ _ _ => hd⟩, .take (fun _ => hd) (fun hn => absurd hd hn) ?_⟩
    · rw [hq']
      rintro _ ⟨⟩
      exact h.capacity q hq
    · rw [hq']
      rintro _ ⟨⟩
      exact fun hr => nomatch hr
    · rw [hx, hx', List.append_nil]
      exact List.prefix_append _ _
  | false =>
    have hc : q.closed = false := by
      by_contra hc
      rw [h.closed q hq (Or.inl (by simpa using hc))] at hd
      cases hd
    obtain ⟨hu, hl, he, hcl, hn⟩ := receive_unwritten q hc
    have hq' : x.drain.queue = some q.receive := by simp [Session.drain, hq, hd]
    have hx' : x.drain.unwritten = q.frames := by rw [Session.unwritten, hq']; exact hu
    refine ⟨⟨?_, ?_, ?_⟩, .take (fun hd' => absurd hd' (by simp [hd])) (fun _ => by rw [hx, hx']) (by rw [hx, hx'])⟩
    · rw [hq']
      rintro _ ⟨⟩
      exact hl.trans (h.capacity q hq)
    · rw [hq']
      rintro _ ⟨⟩
      exact he
    · rw [hq']
      rintro _ ⟨⟩
      rw [hcl, hc]
      simp [hn]

/-- The drain is left: what is not yet written is lost. -/
theorem drained_conveys (h : x.Sound) : Conveys x x.drained [] [] := by
  have hd : x.drained.disconnected = true := by simp [Session.drained]
  have hs := (onDisconnect_conveys h).sound
  have hx' : x.drained.unwritten = [] := by
    unfold Session.unwritten Session.drained
    cases x.onDisconnect.queue <;> rfl
  refine ⟨⟨?_, ?_, fun _ _ _ => hd⟩, .idle (fun _ => hd) (fun hn => absurd hd hn) (by simp [hx'])⟩
  · intro q hq
    obtain ⟨q₀, hq₀, rfl⟩ := Option.map_eq_some_iff.1 hq
    exact hs.capacity q₀ hq₀
  · intro q hq hr
    obtain ⟨q₀, hq₀, rfl⟩ := Option.map_eq_some_iff.1 hq
    cases hr

/-! ## Steps -/

theorem asyncSend_touch (f : SdkWSResp) : Touch x (x.asyncSend f).1 (x.asyncSend f).2 := by
  unfold Session.asyncSend
  split_ifs
  · exact .idle (Like.refl x) ⟨rfl, rfl⟩
  · cases ht : x.trySend f with
    | none => exact .idle ⟨rfl, rfl⟩ ⟨rfl, rfl⟩
    | some q => exact .put ht rfl rfl rfl rfl

/-- A step beside the main coroutine and the drain. -/
theorem beside_touch {a : SessionAction} (hs : x.step P Q C a = some r) (hm : ∀ b, a ≠ .main b)
    (hd : a ≠ .drainStarted ∧ a ≠ .written ∧ a ≠ .writeFailed) : Touch x r.1 r.2 := by
  cases a with
  | main b => exact absurd rfl (hm b)
  | loop b =>
    have hr : x.readStep P Q C b = some r := hs
    exact (readStep_serves hr).touch
  | drainStarted => exact absurd rfl hd.1
  | written => exact absurd rfl hd.2.1
  | writeFailed => exact absurd rfl hd.2.2
  | push f =>
    simp only [Session.step] at hs
    split_ifs at hs
    cases hs
    exact asyncSend_touch f
  | closing =>
    simp only [Session.step] at hs
    split_ifs at hs
    cases hs
    exact .disconnect ⟨rfl, rfl⟩ ⟨rfl, rfl⟩

@[simp] theorem onDisconnect_queue_isSome (x : Session) : x.onDisconnect.queue.isSome = x.queue.isSome := by
  unfold Session.onDisconnect
  split_ifs
  · rfl
  · simp

/-- There is a queue before a touch if and only if there is one after it. -/
theorem Touch.queue_isSome (h : Touch x x' es) : x'.queue.isSome = x.queue.isSome := by
  cases h with
  | idle hl => rw [hl.queue]
  | disconnect hl => rw [hl.queue, onDisconnect_queue_isSome]
  | put ht hq =>
    unfold Session.trySend at ht
    split_ifs at ht
    obtain ⟨q₀, hq₀, -⟩ := Option.bind_eq_some_iff.1 ht
    rw [hq, hq₀]
    rfl

/-- A step of the drain. -/
theorem drain_step {a : SessionAction} (h : x.Sound) (hs : x.step P Q C a = some (x', es))
    (ha : a = .drainStarted ∨ a = .written ∨ a = .writeFailed) :
    Conveys x x' (queuedBy a es) (drainedBy a es) ∧ directBy a es = [] ∧ x'.main = x.main ∧
      x'.queue.isSome = x.queue.isSome := by
  rcases ha with rfl | rfl | rfl
  · simp only [Session.step] at hs
    split_ifs at hs with hd
    cases hs
    cases hq : x.queue with
    | none => simp [hq] at hd
    | some q =>
      have hd : q.drain = .starting := by simpa [hq] using hd
      have ht : q.unwritten = [] ++ q.frames := by simp [WriteQueue.unwritten, hd]
      exact ⟨drain_conveys h hq ht, rfl, rfl, by simp [Session.drain, hq]⟩
  · simp only [Session.step] at hs
    split at hs
    · next f hd =>
      cases hs
      obtain ⟨q, hq, hd⟩ := Option.map_eq_some_iff.1 hd
      have ht : q.unwritten = [f] ++ q.frames := by simp [WriteQueue.unwritten, hd]
      exact ⟨drain_conveys h hq ht, rfl, rfl, by simp [Session.drain, hq]⟩
    · cases hs
  · simp only [Session.step] at hs
    split at hs
    · cases hs
      exact ⟨drained_conveys h, rfl, by simp [Session.drained], by simp [Session.drained]⟩
    · cases hs

theorem drainedBy_of_ne {a : SessionAction} (h : a ≠ .written) : drainedBy a es = [] := by
  cases a <;> first | rfl | exact absurd rfl h

theorem directBy_of_ne {a : SessionAction} (h : a ≠ .written) : directBy a es = wroteFrames es := by
  cases a <;> first | rfl | exact absurd rfl h

/-- **The invariant of a run** in which the frames `direct` have been written
    past the queue: there is no queue before `handleAuth` succeeds, and none
    after a direct write. -/
structure Session.Kept (x : Session) (direct : List SdkWSResp) : Prop where
  sound : x.Sound
  early : x.main.Early → x.queue.isSome = false ∧ direct = []
  once : direct.length ≤ 1
  past : direct ≠ [] → x.queue.isSome = false

/-- No frame is written past the queue. -/
theorem Session.Kept.move {direct : List SdkWSResp} (h : x.Kept direct) (hs : x'.Sound)
    (hm : x'.main.Early → x.main.Early) (hq : x'.queue.isSome = x.queue.isSome) : x'.Kept direct where
  sound := hs
  early he := by
    rw [hq]
    exact h.early (hm he)
  once := h.once
  past hn := hq.trans (h.past hn)

/-- **A step** conveys the frames, and keeps the invariant. -/
theorem Session.Kept.step {a : SessionAction} {direct : List SdkWSResp} (h : x.Kept direct) (hok : x.reader.Ok)
    (hs : x.step P Q C a = some (x', es)) :
    Conveys x x' (queuedBy a es) (drainedBy a es) ∧ x'.Kept (direct ++ directBy a es) ∧
      (x.queue.isSome = true → x'.queue.isSome = true) := by
  have htouch : a ≠ .written → Touch x x' es → (x'.main.Early → x.main.Early) →
      Conveys x x' (queuedBy a es) (drainedBy a es) ∧ x'.Kept (direct ++ directBy a es) ∧
        (x.queue.isSome = true → x'.queue.isSome = true) := by
    intro ha ht hm
    rw [drainedBy_of_ne ha, directBy_of_ne ha, ht.wrote, List.append_nil]
    have hc := ht.conveys h.sound
    exact ⟨hc, h.move hc.sound hm ht.queue_isSome, fun hx => ht.queue_isSome.trans hx⟩
  by_cases hm : ∃ b, a = .main b
  · obtain ⟨b, rfl⟩ := hm
    have hmain : x.mainStep P Q b = some (x', es) := hs
    rcases mainStep_touch hmain with ⟨ht, he⟩ | ⟨f, hm, hl, hes, hw, hn⟩ | ⟨hm, hq, hd, hes, hn⟩
    · exact htouch (by simp) ht he
    · -- the only write past the queue
      have hq : x'.queue.isSome = x.queue.isSome := by rw [hl.queue]
      have h₀ := h.early hm
      have hc := like_conveys h.sound hl
      have hes : queuedBy (.main b) es = [] := hes
      have hw : directBy (.main b) es = [f] := hw
      rw [hes, hw, h₀.2]
      exact ⟨hc, ⟨hc.sound, fun he => absurd he hn, le_rfl, fun _ => hq.trans h₀.1⟩, fun hx => hq.trans hx⟩
    · -- `startWriteQueue`
      have h₀ := h.early hm
      have hnone : x.queue = none := by simpa using h₀.1
      have hx : x.unwritten = [] := by rw [Session.unwritten, hnone]; rfl
      have hx' : x'.unwritten = [] := by rw [Session.unwritten, hq]; rfl
      have hes : es = [] := hes
      have hsound : x'.Sound := by
        refine ⟨?_, ?_, ?_⟩ <;> rw [hq]
        · rintro _ ⟨⟩
          exact Nat.zero_le _
        · rintro _ ⟨⟩
          exact fun _ => rfl
        · rintro _ ⟨⟩
          exact fun hor => by simp at hor
      rw [hes, h₀.2]
      refine ⟨⟨hsound, ?_⟩, ⟨hsound, fun he => absurd he hn, Nat.zero_le _, fun hne => absurd rfl hne⟩, ?_⟩
      · rw [hx, hx']
        exact .idle (fun hd' => hd.trans hd') (fun _ => rfl) (List.prefix_refl _)
      · rw [hnone]
        exact fun hx => by cases hx
  · by_cases hd : a = .drainStarted ∨ a = .written ∨ a = .writeFailed
    · obtain ⟨hc, hdir, hmain, hq⟩ := drain_step h.sound hs hd
      rw [hdir, List.append_nil]
      exact ⟨hc, h.move hc.sound (fun he => hmain ▸ he) hq, fun hx => hq.trans hx⟩
    · have hb := step_beside hok hs fun b he => hm ⟨b, he⟩
      have hmain : x'.main = x.main := hb.main
      simp only [not_or] at hd
      exact htouch hd.2.1 (beside_touch hs (fun b he => hm ⟨b, he⟩) hd) fun he => hmain ▸ he

/-! ## Runs -/

section
variable (T : SessionTrace P Q C)

theorem kept_trace {i : ℕ} (hi : i ≤ T.len) : (T.state i).Kept (T.flow directBy i) := by
  induction i with
  | zero =>
    rw [T.start]
    exact ⟨⟨fun _ h => (by cases h), fun _ h => (by cases h), fun _ h => (by cases h)⟩,
      fun _ => ⟨rfl, rfl⟩, Nat.zero_le _, fun h => absurd rfl h⟩
  | succ i ih =>
    rw [T.flow_succ]
    exact ((ih (by omega)).step (named_trace T (by omega)).ok (T.next i hi)).2.1

theorem conveys_trace {i : ℕ} (hi : i < T.len) :
    Conveys (T.state i) (T.state (i + 1)) (queuedBy (T.act i) (T.out i)) (drainedBy (T.act i) (T.out i)) :=
  ((kept_trace T hi.le).step (named_trace T hi.le).ok (T.next i hi)).1

/-- A session does not lose its queue. -/
theorem queue_from {i j : ℕ} (hij : i ≤ j) (hj : j ≤ T.len) (h : (T.state i).queue.isSome = true) :
    (T.state j).queue.isSome = true := by
  induction j, hij using Nat.le_induction with
  | base => exact h
  | succ j _ ih => exact ((kept_trace T (by omega)).step (named_trace T (by omega)).ok (T.next j (by omega))).2.2 (ih (by omega))

/-- **The writes to the socket** of a session:

    * the drain writes frames that were queued, each once and in the order they
      were queued, and leaves out none while the session is connected but the
      one in flight and those that are in the queue, at most 256;
    * another coroutine writes at most once, and then the session never has a
      queue: no two coroutines write in one session. -/
theorem writes_in_order (T : SessionTrace P Q C) {i : ℕ} (hi : i ≤ T.len) :
    T.flow drainedBy i <+: T.flow queuedBy i ∧
    ((T.state i).disconnected = false → T.flow drainedBy i ++ (T.state i).unwritten = T.flow queuedBy i) ∧
    (∀ q ∈ (T.state i).queue, q.frames.length ≤ queueCapacity) ∧
    (T.flow directBy i).length ≤ 1 ∧ (T.flow directBy i ≠ [] → ∀ j ≤ T.len, (T.state j).queue = none) := by
  obtain ⟨hp, hw⟩ := T.passes (fun x => x.disconnected = true) Session.unwritten queuedBy drainedBy rfl
    (fun _ hk => (conveys_trace T hk).passes) hi
  have hk := kept_trace T hi
  refine ⟨(List.prefix_append _ _).trans hp, fun hd => hw (by simp [hd]), hk.sound.capacity, hk.once, ?_⟩
  intro hn j hj
  by_contra hsome
  -- the queue of `j` is still there at the end, and so is the direct write
  have hq := queue_from T hj le_rfl (Option.isSome_iff_ne_none.2 hsome)
  have hend : T.flow directBy T.len ≠ [] := by
    intro h₀
    exact hn (List.prefix_nil.1 (h₀ ▸ T.flow_prefix directBy hi))
  rw [(kept_trace T le_rfl).past hend] at hq
  cases hq

end

/-- The answer of the login is written, and the push and the answer to the
    request follow. -/
theorem writes_in_order_sent :
    sendTrace.flow drainedBy 8 ++ (sendTrace.state 8).unwritten = sendTrace.flow queuedBy 8 :=
  (writes_in_order sendTrace (i := 8) le_rfl).2.1 (by decide +kernel)

end ApeServer.WS
