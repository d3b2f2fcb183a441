/-
  What the steps of a session do.

  * `Keeps`: what is pending has changed at most by a disconnect;
  * `Beside` is a step beside the main coroutine: of the read loop, of the
    drain, or of a push (`step_beside`);
  * `MainMove` lists the steps of the main coroutine (`main_move`).
-/
import ApeServer.Gateway.Session

namespace ApeServer.WS

variable {P : Parsers} {Q : Printers} {C : Clients} {x x' x'' : Session} {r : Session × List Output}

namespace Session

/-! ## Disconnecting -/

@[simp] theorem onDisconnect_account (x : Session) : x.onDisconnect.account = x.account := by
  unfold onDisconnect
  split <;> rfl

@[simp] theorem onDisconnect_main (x : Session) : x.onDisconnect.main = x.main := by
  unfold onDisconnect
  split <;> rfl

@[simp] theorem onDisconnect_reader (x : Session) : x.onDisconnect.reader = x.reader := by
  unfold onDisconnect
  split <;> rfl

@[simp] theorem onDisconnect_disconnected (x : Session) : x.onDisconnect.disconnected = true := by
  unfold onDisconnect
  split
  · assumption
  · rfl

theorem onDisconnect_pending (x : Session) : x.onDisconnect.pending ⊆ x.pending := by
  unfold onDisconnect
  split
  · exact List.Subset.refl _
  · exact List.nil_subset _

end Session

/-- The same messages are pending, unless the session has been disconnected. -/
structure Keeps (x x' : Session) : Prop where
  connected : x'.disconnected = x.disconnected ∨ x'.disconnected = true
  pending : x'.pending = x.pending ∨ (x'.disconnected = true ∧ x'.pending ⊆ x.pending)

theorem Keeps.refl (x : Session) : Keeps x x := ⟨Or.inl rfl, Or.inl rfl⟩

theorem Keeps.onDisconnect (h : Keeps x x') : Keeps x x'.onDisconnect where
  connected := Or.inr x'.onDisconnect_disconnected
  pending := by
    refine Or.inr ⟨x'.onDisconnect_disconnected, fun p hp => ?_⟩
    have hp := x'.onDisconnect_pending hp
    rcases h.pending with he | ⟨-, hs⟩
    · rwa [he] at hp
    · exact hs hp

/-- `queuedWrite` puts the frame in the queue, or disconnects and throws. -/
theorem queuedWrite_cases (x : Session) (f : SdkWSResp) :
    (x.disconnected = false ∧ ∃ q, x.queuedWrite f = .ok { x with queue := some q }) ∨
    x.queuedWrite f = .error x.onDisconnect := by
  unfold Session.queuedWrite
  cases ht : x.trySend f with
  | none => exact Or.inr rfl
  | some q =>
    left
    refine ⟨?_, q, rfl⟩
    by_contra hd
    rw [Session.trySend, if_pos (by simpa using hd)] at ht
    cases ht

/-! ## Beside the main coroutine -/

/-- The types of the answers that are still to come. -/
def Reader.Ok : Reader → Prop
  | callingConversation type _ => 240 ≤ type ∧ type ≤ 243
  | executingFriend type _ => 220 ≤ type ∧ type ≤ 225
  | _ => True

/-- What is put out beside the main coroutine: a call carries the account. -/
def Output.Beside (x : Session) : Output → Prop
  | .rpc call => x.reader ≠ .absent ∧ call.Carries x.account
  | .queued f => x.disconnected = false ∧ f.type ≠ 209
  | .offline _ | .fetch _ => False
  | _ => True

/-- A step beside the main coroutine; what is no longer pending is
    acknowledged, or the session is disconnected. -/
structure Beside (x : Session) (r : Session × List Output) : Prop where
  account : r.1.account = x.account
  main : r.1.main = x.main
  reader : x.reader = .absent → r.1.reader = .absent
  ok : x.reader.Ok → r.1.reader.Ok
  connected : x.disconnected = true → r.1.disconnected = true
  pending : r.1.pending ⊆ x.pending
  kept : ∀ p ∈ x.pending, p ∈ r.1.pending ∨ .acked p.1 ∈ r.2 ∨ r.1.disconnected = true
  outs : ∀ e ∈ r.2, e.Beside x

theorem Keeps.beside {es : List Output} (h : Keeps x x') (ha : x'.account = x.account) (hm : x'.main = x.main)
    (hr : x.reader = .absent → x'.reader = .absent) (ho : x.reader.Ok → x'.reader.Ok)
    (hes : ∀ e ∈ es, e.Beside x) : Beside x (x', es) where
  account := ha
  main := hm
  reader := hr
  ok := ho
  connected := by
    intro hd
    rcases h.connected with hc | hc
    · exact hc.trans hd
    · exact hc
  pending := by
    rcases h.pending with hp | ⟨-, hp⟩
    · exact hp ▸ List.Subset.refl _
    · exact hp
  kept := by
    intro p hp
    rcases h.pending with he | ⟨hd, -⟩
    · exact Or.inl (he.symm ▸ hp)
    · exact Or.inr (Or.inr hd)
  outs := hes

section
variable (hr : x.reader ≠ .absent)
include hr

theorem read_beside {reader : Reader} {es : List Output} (ho : reader.Ok) (hes : ∀ e ∈ es, e.Beside x) :
    Beside x (x.read reader es) :=
  Keeps.beside ⟨Or.inl rfl, Or.inl rfl⟩ rfl rfl (fun h => absurd h hr) (fun _ => ho) hes

theorem call_beside {reader : Reader} {call : Call} (ho : reader.Ok) (hc : call.Carries x.account) :
    Beside x (x.read reader [.rpc call]) :=
  read_beside hr ho fun e he => by rw [List.mem_singleton.1 he]; exact ⟨hr, hc⟩

theorem wait_beside {reader : Reader} (ho : reader.Ok) : Beside x (x.read reader []) :=
  read_beside hr ho fun _ he => absurd he List.not_mem_nil

theorem stop_beside : Beside x x.stop :=
  Keeps.beside ⟨Or.inr (by simp), (Keeps.refl x).onDisconnect.pending⟩ (by simp) (by simp)
    (fun h => absurd h hr) (fun _ => trivial) (fun _ he => absurd he List.not_mem_nil)

theorem answer_beside {f : SdkWSResp} {reader : Reader} {es : List Output} (ho : reader.Ok) (hf : f.type ≠ 209)
    (hes : ∀ e ∈ es, e.Beside x) : Beside x (x.answer f reader es) := by
  unfold Session.answer
  rcases queuedWrite_cases x f with ⟨hd, q, he⟩ | he
  · rw [he]
    refine Keeps.beside ⟨Or.inl rfl, Or.inl rfl⟩ rfl rfl (fun h => absurd h hr) (fun _ => ho) fun e he => ?_
    rcases List.mem_cons.1 he with rfl | he
    · exact ⟨hd, hf⟩
    · exact hes e he
  · rw [he]
    exact stop_beside hr

theorem reply_beside {f : SdkWSResp} {reader : Reader} (ho : reader.Ok) (hf : f.type ≠ 209) :
    Beside x (x.answer f reader []) :=
  answer_beside hr ho hf fun _ he => absurd he List.not_mem_nil

/-! ### The handlers -/

theorem ping_beside (req : SdkWSReq) : Beside x (x.ping req) :=
  reply_beside hr trivial (show (0 : Int) ≠ 209 by decide)

theorem send_beside (req : SdkWSReq) : Beside x (x.send P req) := by
  unfold Session.send
  cases P.send req.data with
  | none => exact wait_beside hr trivial
  | some msgs =>
    refine call_beside hr trivial fun m hm => ?_
    obtain ⟨m, -, rfl⟩ := List.mem_map.1 hm
    rfl

theorem sent_beside (requestId : String) (result : Except String Bytes) :
    Beside x (x.sent requestId result) := by
  refine reply_beside hr trivial ?_
  cases result <;> exact (show (101 : Int) ≠ 209 by decide)

theorem ackMsg_beside (ackType : Int) (id : String) (rest : List String) (failed : ℕ) :
    Beside x (x.ackMsg ackType id rest failed) :=
  call_beside hr trivial rfl

theorem ackIds_beside (ackType : Int) (ids : List String) : Beside x (x.ackIds ackType ids) := by
  cases ids with
  | nil => exact wait_beside hr trivial
  | cons id rest => exact ackMsg_beside hr ackType id rest 0

theorem handleAck_beside (req : SdkWSReq) : Beside x (x.handleAck P req) := by
  unfold Session.handleAck
  cases P.ack req.data with
  | none => exact wait_beside hr trivial
  | some ackReq =>
    dsimp only
    split
    · exact wait_beside hr trivial
    · exact ackIds_beside hr _ _

/-- What is no longer pending is acknowledged. -/
theorem acknowledged_beside (ackType : Int) (id : String) (rest : List String) (failed : ℕ)
    (result : Except String Unit) : Beside x (x.acknowledged ackType id rest failed result) := by
  cases result with
  | error what =>
    unfold Session.acknowledged
    dsimp only
    split
    · exact wait_beside hr trivial
    · refine read_beside hr trivial fun e he => ?_
      rw [List.mem_singleton.1 he]
      trivial
  | ok u =>
    have hr' : (x.accepted id).reader ≠ .absent := hr
    have h := ackIds_beside hr' ackType rest
    exact
      { account := h.account
        main := h.main
        reader := fun h => absurd h hr
        ok := h.ok
        connected := h.connected
        pending := fun p hp => List.mem_of_mem_filter (h.pending hp)
        kept := by
          intro p hp
          by_cases hid : p.1 = id
          · rw [hid]
            exact Or.inr (Or.inl List.mem_cons_self)
          · have hp : p ∈ (x.accepted id).pending := List.mem_filter.2 ⟨hp, by simpa using hid⟩
            rcases h.kept p hp with hp | hp | hp
            · exact Or.inl hp
            · exact Or.inr (Or.inl (List.mem_cons_of_mem _ hp))
            · exact Or.inr (Or.inr hp)
        outs := by
          intro e he
          rcases List.mem_cons.1 he with rfl | he
          · trivial
          · exact h.outs e he }

theorem executeGroup_beside (req : SdkWSReq) : Beside x (x.executeGroup P Q C req) := by
  unfold Session.executeGroup
  cases P.group req.data with
  | none => exact reply_beside hr trivial (show (250 : Int) ≠ 209 by decide)
  | some command =>
    dsimp only
    split
    · exact call_beside hr trivial rfl
    · exact reply_beside hr trivial (show (250 : Int) ≠ 209 by decide)

theorem groupExecuted_beside (requestId : String) (answer : Except String Group.Reply) :
    Beside x (x.groupExecuted Q requestId answer) := by
  cases answer with
  | ok reply => exact reply_beside hr trivial (show (250 : Int) ≠ 209 by decide)
  | error what => exact stop_beside hr

theorem getHistory_beside (req : SdkWSReq) : Beside x (x.getHistory P req) := by
  unfold Session.getHistory
  cases P.history req.data with
  | none => exact reply_beside hr trivial (show (244 : Int) ≠ 209 by decide)
  | some query =>
    dsimp only
    split
    · exact reply_beside hr trivial (show (244 : Int) ≠ 209 by decide)
    · exact call_beside hr trivial rfl

theorem historyGot_beside (requestId : String) (result : Except String Bytes) :
    Beside x (x.historyGot requestId result) := by
  refine reply_beside hr trivial ?_
  cases result <;> exact (show (244 : Int) ≠ 209 by decide)

theorem conversationCalled_beside {type : Int} (ht : 240 ≤ type) (requestId : String)
    (result : Except String Bytes) : Beside x (x.conversationCalled type requestId result) := by
  have hne : type ≠ 209 := by omega
  refine reply_beside hr trivial ?_
  cases result <;> exact hne

omit hr in
theorem command_carries {κ : Type} {command : Except String κ} {call : κ → Call} {c : Call}
    (h : (command >>= fun k => Except.ok (call k)) = .ok c) (hc : ∀ k, (call k).Carries x.account) :
    c.Carries x.account := by
  cases command with
  | error what => cases h
  | ok k =>
    cases h
    exact hc k

omit hr in
/-- Every call of the conversations is for the account. -/
theorem conversationCall_carries {req : SdkWSReq} {call : Call} (h : x.conversationCall P C req = .ok call) :
    call.Carries x.account := by
  unfold Session.conversationCall at h
  split_ifs at h
  · cases h
    rfl
  · exact command_carries h fun _ => rfl
  · exact command_carries h fun _ => rfl
  · exact command_carries h fun _ => rfl

theorem callConversation_beside {req : SdkWSReq} (ht : 240 ≤ req.type ∧ req.type ≤ 243) :
    Beside x (x.callConversation P C req) := by
  unfold Session.callConversation
  cases hc : x.conversationCall P C req with
  | error what => exact conversationCalled_beside hr ht.1 _ _
  | ok call => exact call_beside hr ht (conversationCall_carries hc)

theorem friendExecuted_beside {type : Int} (ht : 220 ≤ type) (requestId : String) (reply : FriendAnswer)
    (online : List Account) : Beside x (x.friendExecuted Q type requestId reply online) := by
  have hne : type ≠ 209 := by omega
  refine answer_beside hr trivial hne fun e he => ?_
  split at he
  · obtain ⟨account, -, rfl⟩ := List.mem_map.1 he
    trivial
  · cases he

theorem executeFriend_beside {req : SdkWSReq} (ht : 220 ≤ req.type ∧ req.type ≤ 225) :
    Beside x (x.executeFriend P Q C req) := by
  unfold Session.executeFriend
  cases P.friend req.data with
  | none => exact friendExecuted_beside hr ht.1 _ _ _
  | some command =>
    dsimp only
    split
    · exact call_beside hr ht rfl
    · exact friendExecuted_beside hr ht.1 _ _ _

/-- **A frame**: whatever it holds, the calls carry the account. -/
theorem doReadLoop_beside (bytes : Bytes) : Beside x (x.doReadLoop P Q C bytes) := by
  unfold Session.doReadLoop
  cases P.request bytes with
  | none => exact wait_beside hr trivial
  | some req =>
    dsimp only
    split_ifs with h₀ h₁ h₂ h₃ h₄ h₅ h₆
    · exact ping_beside hr req
    · exact send_beside hr req
    · exact handleAck_beside hr req
    · exact executeGroup_beside hr req
    · exact getHistory_beside hr req
    · exact callConversation_beside hr (by simpa using h₅)
    · exact executeFriend_beside hr (by simpa using h₆)
    · exact wait_beside hr trivial

end

/-! ### The steps -/

theorem readStep_absent {a : ReadAction} (h : x.readStep P Q C a = some r) : x.reader ≠ .absent := by
  intro hr
  unfold Session.readStep at h
  rw [hr] at h
  cases h

/-- **A step of the read loop.** -/
theorem readStep_beside {a : ReadAction} (hok : x.reader.Ok) (h : x.readStep P Q C a = some r) : Beside x r := by
  have hr := readStep_absent h
  unfold Session.readStep at h
  split at h
  · cases h
    exact doReadLoop_beside hr _
  · cases h
    exact stop_beside hr
  · cases h
    exact wait_beside hr trivial
  · cases h
    exact sent_beside hr _ _
  · cases h
    exact acknowledged_beside hr _ _ _ _ _
  · cases h
    exact ackMsg_beside hr _ _ _ _
  · cases h
    exact groupExecuted_beside hr _ _
  · cases h
    exact historyGot_beside hr _ _
  · next hreader =>
    cases h
    rw [hreader] at hok
    exact conversationCalled_beside hr hok.1 _ _
  · next hreader =>
    cases h
    rw [hreader] at hok
    exact friendExecuted_beside hr hok.1 _ _ _
  · next hreader =>
    cases h
    rw [hreader] at hok
    exact friendExecuted_beside hr hok.1 _ _ _
  · cases h

/-- Nothing but the queue changes. -/
theorem queue_beside {q : Option WriteQueue} {es : List Output} (hes : ∀ e ∈ es, e.Beside x) :
    Beside x ({ x with queue := q }, es) :=
  Keeps.beside ⟨Or.inl rfl, Or.inl rfl⟩ rfl rfl id id hes

theorem asyncSend_beside {f : SdkWSResp} (hf : f.type ∈ pushTypes) : Beside x (x.asyncSend f) := by
  unfold Session.asyncSend
  split_ifs with hd
  · exact (Keeps.refl x).beside rfl rfl id id fun _ he => absurd he List.not_mem_nil
  · cases x.trySend f with
    | none => exact Keeps.beside ⟨Or.inl rfl, Or.inl rfl⟩ rfl rfl id id fun _ he => absurd he List.not_mem_nil
    | some q =>
      refine queue_beside fun e he => ?_
      rw [List.mem_singleton.1 he]
      refine ⟨by simpa using hd, fun ht => ?_⟩
      rw [ht] at hf
      revert hf
      decide

/-- **A step beside the main coroutine.** -/
theorem step_beside {a : SessionAction} (hok : x.reader.Ok) (h : x.step P Q C a = some r)
    (ha : ∀ b, a ≠ .main b) : Beside x r := by
  cases a with
  | main b => exact absurd rfl (ha b)
  | loop b => exact readStep_beside hok h
  | drainStarted =>
    simp only [Session.step] at h
    split_ifs at h
    cases h
    exact queue_beside fun _ he => absurd he List.not_mem_nil
  | written =>
    simp only [Session.step] at h
    split at h
    · cases h
      refine queue_beside fun e he => ?_
      rw [List.mem_singleton.1 he]
      trivial
    · cases h
  | writeFailed =>
    simp only [Session.step] at h
    split at h
    · cases h
      have hk := (Keeps.refl x).onDisconnect
      refine Keeps.beside ⟨hk.connected, hk.pending⟩ ?_ ?_ ?_ ?_ fun _ he => absurd he List.not_mem_nil <;>
        simp [Session.drained]
    · cases h
  | push f =>
    simp only [Session.step] at h
    split_ifs at h with hf
    cases h
    exact asyncSend_beside hf
  | closing =>
    simp only [Session.step] at h
    split_ifs at h
    cases h
    have hk := (Keeps.refl x).onDisconnect
    refine Keeps.beside ⟨hk.connected, hk.pending⟩ (by simp) (by simp) (by simp) (by simp)
      fun _ he => absurd he List.not_mem_nil

/-! ## The main coroutine -/

/-- Between the start of the scan and its end. -/
def Main.Scanning : Main → Prop
  | fetching _ | delivering .. | waiting _ => True
  | _ => False

theorem Main.Scanning.ne_ended {main : Main} (h : main.Scanning) : main ≠ .ended := by
  rintro rfl
  exact h

/-- Past the queue. -/
def Output.OnSocket : Output → Prop
  | .wrote _ | .closed => True
  | _ => False

/-- The steps of the main coroutine. -/
inductive MainMove (Q : Printers) (x : Session) : MainAction → Session × List Output → Prop
  | finish {a : MainAction} {x' : Session} {es : List Output} (hk : Keeps x x') (ha : x'.account = x.account)
      (hr : x'.reader = x.reader) (hes : ∀ e ∈ es, e.OnSocket) : MainMove Q x a (x'.finish es)
  | register {bytes : Bytes} {req : SdkWSReq} {phone nickname password : String} (h : x.main = .reading) :
      MainMove Q x (.frame bytes)
        ({ x with main := .registering req }, [.rpc (.register phone nickname password req.requestId)])
  | reply {req : SdkWSReq} {answer : Except String AuthRegResponse} {f : SdkWSResp}
      (h : x.main = .registering req) :
      MainMove Q x (.registered answer) ({ x with main := .replying }, [.wrote f])
  | login {bytes : Bytes} {req : SdkWSReq} (h : x.main = .reading) (ha : req.account ≠ 0) :
      MainMove Q x (.frame bytes) ({ x with main := .loggingIn req }, [.rpc (.login req.account req.data)])
  | validate {bytes : Bytes} {req : SdkWSReq} (h : x.main = .reading) (ha : req.account ≠ 0) :
      MainMove Q x (.frame bytes) ({ x with main := .validating req }, [.rpc (.validateToken req.token)])
  | loggedIn {req : SdkWSReq} {resp : AuthRegResponse} (h : x.main = .loggingIn req) (hs : resp.success = true) :
      MainMove Q x (.loggedIn (.ok resp)) (x.authenticated req resp.token)
  | validated {req : SdkWSReq} {resp : ValidateTokenResponse} (h : x.main = .validating req)
      (hv : resp.valid = true) (ha : resp.account = req.account) :
      MainMove Q x (.validated (.ok resp)) (x.authenticated req req.token)
  | start {req : SdkWSReq} {token : String} {q : WriteQueue} {f : SdkWSResp}
      (h : x.main = .settingOnline req token) (hc : x.disconnected = false) (hf : f.errorCode = "") :
      MainMove Q x .setOnline
        ({ x with queue := some q, reader := .reading, main := .fetching 0 }, [.queued f, .fetch 0])
  | deliver {a : MainAction} {m : MsgData} {rest : List MsgData} (h : x.main.Scanning) :
      MainMove Q x a ({ x with main := .delivering m rest .asked }, [])
  | queued {m : MsgData} {rest : List MsgData} {q : WriteQueue} (h : x.main = .delivering m rest .asked)
      (hc : x.disconnected = false) :
      MainMove Q x .action
        ({ x.setPending m with queue := some q, main := .delivering m rest .queued },
          [.queued (Session.offlineFrame Q x.account m), .offline m])
  | failed {m : MsgData} {rest : List MsgData} {x' : Session} (h : x.main = .delivering m rest .asked)
      (hk : Keeps x x') (ha : x'.account = x.account) (hr : x'.reader = x.reader) :
      MainMove Q x .action ({ x' with main := .delivering m rest .failed }, [])
  | wait {a : MainAction} {next : Int} (h : x.main.Scanning) :
      MainMove Q x a ({ x with main := .waiting next, timer := .armed }, [])
  | next {a : MainAction} {after : Int} {t : Timer} (h : x.main.Scanning) (hc : x.disconnected = false)
      (hp : x.pending = []) :
      MainMove Q x a ({ x with main := .fetching after, timer := t }, [.fetch after])
  | complete {a : MainAction} {after : Int} {q : WriteQueue} (h : x.main = .fetching after)
      (hc : x.disconnected = false) :
      MainMove Q x a (Session.finish { x with queue := some q } [.queued (Session.complete x.account)])
  | syncError {a : MainAction} {q : WriteQueue} (hc : x.disconnected = false) :
      MainMove Q x a (Session.finish { x with queue := some q } [.queued (Session.syncError x.account)])

section
variable {a : MainAction}

theorem finish_move : MainMove Q x a (x.finish []) :=
  .finish (Keeps.refl x) rfl rfl fun _ he => absurd he List.not_mem_nil

theorem fail_move : MainMove Q x a x.fail :=
  .finish (Keeps.refl x).onDisconnect (by simp) (by simp) fun _ he => absurd he List.not_mem_nil

theorem refuse_move (f : SdkWSResp) : MainMove Q x a (x.refuse f) := by
  refine .finish (Keeps.refl x) rfl rfl fun e he => ?_
  rcases List.mem_pair.1 he with rfl | rfl <;> trivial

theorem doRead_move (h : x.main = .reading) (bytes : Bytes) : MainMove Q x (.frame bytes) (x.doRead P bytes) := by
  unfold Session.doRead
  cases P.request bytes with
  | none => exact refuse_move _
  | some req =>
    dsimp only
    split_ifs
    · unfold Session.handleReg
      cases P.register req.data with
      | none => exact refuse_move _
      | some r =>
        dsimp only
        split_ifs
        · exact refuse_move _
        · exact .register h
    · unfold Session.handleAuth
      split_ifs with ha
      · exact refuse_move _
      · exact .login h ha
      · exact .validate h ha
    · exact refuse_move _

theorem loggedIn_move {req : SdkWSReq} (h : x.main = .loggingIn req) (answer : Except String AuthRegResponse) :
    MainMove Q x (.loggedIn answer) (x.loggedIn req answer) := by
  unfold Session.loggedIn
  cases answer with
  | error what => exact fail_move
  | ok resp =>
    dsimp only
    split_ifs with hs
    · exact .loggedIn h hs
    · exact refuse_move _

theorem validated_move {req : SdkWSReq} (h : x.main = .validating req)
    (answer : Except String ValidateTokenResponse) : MainMove Q x (.validated answer) (x.validated req answer) := by
  unfold Session.validated
  cases answer with
  | error what => exact refuse_move _
  | ok resp =>
    dsimp only
    split_ifs with hv
    · simp only [Bool.and_eq_true, decide_eq_true_eq] at hv
      exact .validated h hv.1 hv.2
    · exact refuse_move _

/-! ### The scan -/

theorem synced_move (h : x.disconnected = true ∨ ∃ after, x.main = .fetching after) :
    MainMove Q x a x.synced := by
  unfold Session.synced
  split_ifs with hd
  · exact finish_move
  · obtain ⟨after, hm⟩ := h.resolve_left hd
    rcases queuedWrite_cases x (Session.complete x.account) with ⟨hc, q, he⟩ | he
    · rw [he]
      exact .complete hm hc
    · rw [he]
      exact fail_move

theorem syncFailed_move (what : String) : MainMove Q x a (x.syncFailed what) := by
  unfold Session.syncFailed
  split_ifs with hd
  · exact finish_move
  · rcases queuedWrite_cases x (Session.syncError x.account) with ⟨hc, q, he⟩ | he
    · rw [he]
      exact .syncError hc
    · rw [he]
      exact .finish (Keeps.refl x).onDisconnect.onDisconnect (by simp) (by simp) fun _ he => absurd he List.not_mem_nil

theorem waited_connected (x : Session) (h : x.disconnected = false) (next : Int) :
    x.waited next = ({ x with main := .fetching next }, [.fetch next]) := by
  simp [Session.waited, Scan.waited, Scan.loop, h]

theorem waited_disconnected (x : Session) (h : x.disconnected = true) (next : Int) : x.waited next = x.finish [] := by
  simp [Session.waited, Scan.waited, Scan.loop, h, Session.synced]

theorem goOn_move {s : Scan} (hm : x.main.Scanning) (hs : ∀ after, s ≠ .fetching after)
    (hr : s = .returned → x.disconnected = true ∨ ∃ after, x.main = .fetching after) :
    MainMove Q x a (x.goOn s) := by
  cases s with
  | fetching after => exact absurd rfl (hs after)
  | delivering m rest => exact .deliver hm
  | waiting next =>
    unfold Session.goOn
    dsimp only
    split_ifs with hw
    · by_cases hd : x.disconnected = true
      · rw [waited_disconnected x hd]
        exact finish_move
      · have hc : x.disconnected = false := by simpa using hd
        rw [waited_connected x hc]
        exact .next hm hc (by simpa [hc] using hw)
    · exact .wait hm
  | returned => exact synced_move (hr rfl)
  | threw what => exact syncFailed_move what

/-- A page does not lead to another one, and ends the scan only if the session
    is disconnected. -/
theorem page_next (account : Account) (disconnected : Bool) (next : Int) (messages : List MsgData) :
    (∀ after, Scan.page account disconnected next messages ≠ .fetching after) ∧
    (Scan.page account disconnected next messages = .returned → disconnected = true) := by
  cases messages with
  | nil => simp [Scan.page]
  | cons m rest =>
    by_cases hd : disconnected = true
    · simp [Scan.page, hd]
    · rw [Scan.page, if_neg hd]
      split_ifs <;> simp

theorem fetched_move {after : Int} (h : x.main = .fetching after) (messages : List MsgData) :
    MainMove Q x a (x.goOn (Scan.fetched x.account x.disconnected after messages)) := by
  refine goOn_move (by rw [h]; trivial) (fun after' => ?_) fun _ => Or.inr ⟨after, h⟩
  unfold Scan.fetched
  split_ifs
  · simp
  · simp
  · simp
  · exact (page_next _ _ _ _).1 after'

theorem delivered_move {m : MsgData} {rest : List MsgData} {d : Delivery} (h : x.main = .delivering m rest d) :
    MainMove Q x a (x.goOn (Scan.delivered x.account x.disconnected m rest)) :=
  goOn_move (by rw [h]; trivial) (page_next _ _ _ _).1 fun hr => Or.inl ((page_next _ _ _ _).2 hr)

theorem timerFired_move {next : Int} (h : x.main = .waiting next) : MainMove Q x a (x.timerFired next) := by
  have hk : Keeps x { x with timer := .unset } := ⟨Or.inl rfl, Or.inl rfl⟩
  unfold Session.timerFired
  dsimp only
  split_ifs with hw
  · by_cases hd : x.disconnected = true
    · rw [waited_disconnected { x with timer := .unset } hd]
      exact .finish hk rfl rfl fun _ he => absurd he List.not_mem_nil
    · have hc : x.disconnected = false := by simpa using hd
      rw [waited_connected { x with timer := .unset } hc]
      exact .next (by rw [h]; trivial) hc (by simpa [hc] using hw)
  · rw [waited_disconnected _ (by simp)]
    exact .finish hk.onDisconnect (by simp) (by simp) fun _ he => absurd he List.not_mem_nil

/-- **The wait ends** with messages pending only by a disconnect. -/
theorem timerFired_pending (next : Int) (hp : x.pending ≠ []) : (x.timerFired next).1.disconnected = true := by
  unfold Session.timerFired
  dsimp only
  by_cases hd : x.disconnected = true
  · rw [if_pos (by simp [hd]), waited_disconnected { x with timer := .unset } hd]
    exact hd
  · rw [if_neg (by simp [hd, hp]), waited_disconnected _ (by simp)]
    exact Session.onDisconnect_disconnected _

theorem setOnline_move {req : SdkWSReq} {token : String} (h : x.main = .settingOnline req token) :
    MainMove Q x .setOnline (x.setOnline req token) := by
  unfold Session.setOnline
  dsimp only
  set f : SdkWSResp := { account := x.account, type := req.type, requestId := req.requestId, token := token,
                         deviceID := req.deviceID }
  have hf : f.errorCode = "" := rfl
  rcases queuedWrite_cases x f with ⟨hc, q, he⟩ | he
  · rw [he]
    have hs : Scan.start x.disconnected = .fetching 0 := by simp [Scan.start, Scan.loop, hc]
    dsimp only
    rw [hs]
    exact .start h hc hf
  · rw [he]
    exact .finish (Keeps.refl x).onDisconnect.onDisconnect (by simp) (by simp) fun _ he => absurd he List.not_mem_nil

theorem action_move {m : MsgData} {rest : List MsgData} (h : x.main = .delivering m rest .asked) :
    MainMove Q x .action (x.deliverAction Q m rest) := by
  unfold Session.deliverAction
  split_ifs with hd
  · exact .failed h (Keeps.refl x) rfl rfl
  · dsimp only
    have hc : x.disconnected = false := by simpa using hd
    rcases queuedWrite_cases (x.setPending m) (Session.offlineFrame Q x.account m) with ⟨-, q, he⟩ | he
    · rw [he]
      exact .queued h hc
    · rw [he]
      have hp : (x.setPending m).onDisconnect.pending ⊆ x.pending := by
        simp [Session.onDisconnect, Session.setPending, hc]
      exact .failed h ⟨Or.inr (by simp), Or.inr ⟨by simp, hp⟩⟩ (by simp [Session.setPending])
        (by simp [Session.setPending])

/-- **A step of the main coroutine.** -/
theorem main_move (h : x.mainStep P Q a = some r) : MainMove Q x a r := by
  unfold Session.mainStep at h
  split at h
  · next hm =>
    cases h
    exact doRead_move hm _
  · cases h
    exact finish_move
  · next hm =>
    cases h
    exact .reply hm
  · cases h
    split_ifs
    · exact finish_move
    · exact fail_move
  · next hm =>
    cases h
    exact loggedIn_move hm _
  · next hm =>
    cases h
    exact validated_move hm _
  · next hm =>
    cases h
    exact setOnline_move hm
  · next hm =>
    cases h
    exact fetched_move hm _
  · cases h
    exact syncFailed_move _
  · next hm =>
    cases h
    exact action_move hm
  · cases h
  · next hm =>
    cases h
    exact delivered_move hm
  · cases h
    exact syncFailed_move _
  · next hm =>
    cases h
    exact timerFired_move hm
  · cases h

end

end ApeServer.WS
