/-
  The online flag of an account (`handleAuth`, `doReadLoop` and `onDisconnect`
  of `src/gateway/ws_session.cpp`, `src/gateway/ws_session_manager.cpp`, and the
  test of `PushMsg` in `src/services/push_service/server.cpp`).

  A session registers itself and then writes `"1"`; at its end it is
  unregistered and writes `"0"` if it was the active one; a heartbeat writes
  `"1"`.  Each `setex` goes over a connection of its own choice, so a write is
  in flight until it lands or fails, in any order; the entry does not expire.

  * `Gateway.InTurn`: a step that does not cross the writes in flight;
  * `Gateway.Orderly` is the invariant of the runs of such steps: all writes in
    flight agree with the table;
  * `online_flag`: in these runs the flag agrees with the table whenever nothing
    is in flight, and the first step out of turn can end in a disagreement.
-/
import ApeServer.Lib.Run
import ApeServer.Message

namespace ApeServer

/-! ## The session table -/

/-- `sessions_` of `WSSessionManager`. -/
abbrev SessionTable := Account → Option ℕ

def SessionTable.registerSession (t : SessionTable) (account : Account) (session : ℕ) : SessionTable :=
  Function.update t account (some session)

/-- `unregisterSession`: only the active session is removed. -/
def SessionTable.unregisterSession (t : SessionTable) (account : Account) (session : ℕ) : Bool × SessionTable :=
  if t account = some session then (true, Function.update t account none) else (false, t)

/-! ## The gateway -/

/-- A session before `handleAuth` succeeds, after it, and after
    `onDisconnect`. -/
inductive SessionStatus where
  | connected
  | authenticated (account : Account)
  | disconnected
deriving DecidableEq, Repr

/-- Who waits for a `setex`. -/
inductive FlagSender where
  | handleAuth
  | heartbeat
  | onDisconnect
deriving DecidableEq, Repr

/-- A `setex` of `user:{account}:online` in flight. -/
structure FlagWrite where
  account : Account
  session : ℕ
  sender : FlagSender
deriving DecidableEq, Repr

def FlagWrite.value (f : FlagWrite) : String :=
  match f.sender with
  | .handleAuth | .heartbeat => "1"
  | .onDisconnect => "0"

structure Gateway where
  sessions : SessionTable := fun _ => none
  status : ℕ → SessionStatus := fun _ => .connected
  /-- the values of `user:{account}:online` -/
  online : Account → Option String := fun _ => none
  writes : List FlagWrite := []

inductive GatewayAction where
  /-- `handleAuth`, once the password or the token is accepted -/
  | login (session : ℕ) (account : Account)
  /-- `doReadLoop` reads a ping -/
  | ping (session : ℕ)
  | disconnect (session : ℕ)
  /-- the `n`-th write in flight is applied -/
  | land (n : ℕ)
  /-- it fails, which is only logged -/
  | fail (n : ℕ)
deriving DecidableEq, Repr

/-- A step of the gateway. -/
def Gateway.step (w : Gateway) : GatewayAction → Option (Gateway × List Unit)
  | .login session account =>
    if w.status session = .connected ∧ account ≠ 0 then
      some ({ w with
        status := Function.update w.status session (.authenticated account)
        sessions := w.sessions.registerSession account session
        writes := w.writes ++ [⟨account, session, .handleAuth⟩] }, [])
    else none
  | .ping session =>
    match w.status session with
    | .authenticated account =>
      -- the loop starts after the write of `handleAuth`, and waits for its own
      if w.writes.any fun f => f.session = session && f.sender ≠ .onDisconnect then none
      else some ({ w with writes := w.writes ++ [⟨account, session, .heartbeat⟩] }, [])
    | _ => none
  | .disconnect session =>
    match w.status session with
    | .connected => some ({ w with status := Function.update w.status session .disconnected }, [])
    | .authenticated account =>
      let (isActive, sessions) := w.sessions.unregisterSession account session
      some ({ w with
        status := Function.update w.status session .disconnected
        sessions := sessions
        writes := if isActive then w.writes ++ [⟨account, session, .onDisconnect⟩] else w.writes }, [])
    | .disconnected => none
  | .land n =>
    w.writes[n]?.map fun f =>
      ({ w with online := Function.update w.online f.account (some f.value), writes := w.writes.eraseIdx n }, [])
  | .fail n =>
    if n < w.writes.length then some ({ w with writes := w.writes.eraseIdx n }, []) else none

/-- The runs of the gateway. -/
abbrev GatewayTrace := Machine.Trace Gateway.step ({} : Gateway)

/-- The test of `PushMsg`. -/
def recvOnline (online : Option String) : Bool := online = some "1" || online = some "true"

/-! ## Steps in turn -/

/-- Nothing is in flight for the account. -/
def Gateway.Quiet (w : Gateway) (account : Account) : Prop := ∀ f ∈ w.writes, f.account ≠ account

/-- A step of the account in its turn: no login while the write of an
    `onDisconnect` is in flight; no end of the active session while the write of
    a `handleAuth` or a heartbeat is; no heartbeat of a replaced session when
    none is registered any more; and no failure of the last write, unless Redis
    has its value already. -/
def Gateway.InTurn (w : Gateway) (account : Account) : GatewayAction → Prop
  | .login _ account' => account' = account →
    ∀ f ∈ w.writes, f.account = account → f.sender ≠ .onDisconnect
  | .ping session => w.status session = .authenticated account → (w.sessions account).isSome
  | .disconnect session => w.status session = .authenticated account → w.sessions account = some session →
    ∀ f ∈ w.writes, f.account = account → f.sender = .onDisconnect
  | .land _ => True
  | .fail n => ∀ f ∈ w.writes[n]?, f.account = account →
    w.online account = some f.value ∨ ∃ f' ∈ w.writes.eraseIdx n, f'.account = account

instance (w : Gateway) (account : Account) : (act : GatewayAction) → Decidable (w.InTurn account act)
  | .login .. | .ping .. | .disconnect .. => inferInstanceAs (Decidable (_ → _))
  | .land .. => inferInstanceAs (Decidable True)
  | .fail n => inferInstanceAs (Decidable (∀ f ∈ w.writes[n]?, _ → _))

/-- **The invariant**: the writes in flight agree with the table, and the flag
    does if there are none. -/
structure Gateway.Orderly (w : Gateway) (account : Account) : Prop where
  inFlight : ∀ f ∈ w.writes, f.account = account → (f.sender = .onDisconnect ↔ w.sessions account = none)
  settled : (∃ f ∈ w.writes, f.account = account) ∨
    (w.online account = some "1" ↔ (w.sessions account).isSome)
  offline : ∀ f ∈ w.writes, f.account = account → f.sender = .onDisconnect → w.online account ≠ none

theorem FlagWrite.value_eq_one {f : FlagWrite} : f.value = "1" ↔ f.sender ≠ .onDisconnect := by
  unfold FlagWrite.value
  cases f.sender <;> decide

theorem FlagWrite.value_cases (f : FlagWrite) : f.value = "0" ∨ f.value = "1" := by
  unfold FlagWrite.value
  cases f.sender <;> decide

section
variable {w w' : Gateway} {act : GatewayAction} {es : List Unit} {account : Account}

/-- What a write in flight writes agrees with the table. -/
theorem Gateway.Orderly.value (h : w.Orderly account) {f : FlagWrite} (hf : f ∈ w.writes)
    (ha : f.account = account) : f.value = "1" ↔ (w.sessions account).isSome := by
  rw [FlagWrite.value_eq_one, Option.isSome_iff_ne_none]
  exact not_congr (h.inFlight f hf ha)

theorem Gateway.Orderly.right (h : w.Orderly account) (hq : w.Quiet account) :
    w.online account = some "1" ↔ (w.sessions account).isSome := by
  rcases h.settled with ⟨f, hf, ha⟩ | h
  · exact absurd ha (hq f hf)
  · exact h

/-- What the invariant is about: the entry of the table, the flag, and the
    writes of the account. -/
theorem Gateway.Orderly.congr (h : w.Orderly account) (hs : w'.sessions account = w.sessions account)
    (ho : w'.online account = w.online account)
    (hw : ∀ f : FlagWrite, f.account = account → (f ∈ w'.writes ↔ f ∈ w.writes)) : w'.Orderly account := by
  refine ⟨fun f hf ha => ?_, ?_, fun f hf ha => ?_⟩
  · rw [hs]
    exact h.inFlight f ((hw f ha).1 hf) ha
  · rw [hs, ho]
    exact h.settled.imp_left fun ⟨f, hf, ha⟩ => ⟨f, (hw f ha).2 hf, ha⟩
  · rw [ho]
    exact h.offline f ((hw f ha).1 hf) ha

/-- A new write, where all writes agree with the table. -/
theorem Gateway.Orderly.send {f : FlagWrite} {entry : Option ℕ} (hw : w'.writes = w.writes ++ [f])
    (ha : f.account = account) (he : w'.sessions account = entry)
    (hold : ∀ f' ∈ w.writes, f'.account = account → (f'.sender = .onDisconnect ↔ entry = none))
    (hnew : f.sender = .onDisconnect ↔ entry = none) (ho : entry = none → w'.online account ≠ none) :
    w'.Orderly account := by
  subst he
  have hall : ∀ f' ∈ w'.writes, f'.account = account →
      (f'.sender = .onDisconnect ↔ w'.sessions account = none) := by
    rw [hw]
    intro f' hf' ha'
    rcases List.mem_append.1 hf' with hf' | hf'
    · exact hold f' hf' ha'
    · rwa [List.mem_singleton.1 hf']
  refine ⟨hall, Or.inl ⟨f, ?_, ha⟩, fun f' hf' ha' hs => ho ((hall f' hf' ha').1 hs)⟩
  rw [hw]
  exact List.mem_append_right _ (List.mem_singleton_self f)

/-- A new write of another account. -/
theorem Gateway.Orderly.sendOther {f : FlagWrite} (h : w.Orderly account)
    (hs : w'.sessions account = w.sessions account) (ho : w'.online account = w.online account)
    (hw : w'.writes = w.writes ++ [f]) (hne : f.account ≠ account) : w'.Orderly account := by
  refine h.congr hs ho fun f' ha => ?_
  rw [hw]
  simp only [List.mem_append, List.mem_singleton, or_iff_left_iff_imp]
  rintro rfl
  exact absurd ha hne

theorem Gateway.login_orderly {session : ℕ} {account' : Account} (h : w.Orderly account)
    (hturn : w.InTurn account (.login session account'))
    (hs : w.step (.login session account') = some (w', es)) : w'.Orderly account := by
  simp only [Gateway.step] at hs
  split_ifs at hs
  cases hs
  by_cases ha : account' = account
  · subst ha
    have hsome : w.sessions.registerSession account' session account' = some session := Function.update_self _ _ _
    refine .send rfl rfl hsome (fun f hf hfa => ?_) (by simp) nofun
    simpa using hturn rfl f hf hfa
  · exact h.sendOther (Function.update_of_ne (Ne.symm ha) _ _) rfl rfl ha

theorem Gateway.ping_orderly {session : ℕ} (h : w.Orderly account) (hturn : w.InTurn account (.ping session))
    (hs : w.step (.ping session) = some (w', es)) : w'.Orderly account := by
  simp only [Gateway.step] at hs
  split at hs
  · next account' hstatus =>
    split_ifs at hs
    cases hs
    by_cases ha : account' = account
    · subst ha
      have hsome := Option.isSome_iff_ne_none.1 (hturn hstatus)
      exact .send rfl rfl rfl h.inFlight (by simpa using hsome) fun hnone => absurd hnone hsome
    · exact h.sendOther rfl rfl rfl ha
  · cases hs

theorem Gateway.disconnect_orderly {session : ℕ} (h : w.Orderly account)
    (hturn : w.InTurn account (.disconnect session))
    (hs : w.step (.disconnect session) = some (w', es)) : w'.Orderly account := by
  simp only [Gateway.step] at hs
  split at hs
  · cases hs
    exact h.congr rfl rfl fun _ _ => Iff.rfl
  · next account' hstatus =>
    cases hs
    by_cases hactive : w.sessions account' = some session
    · simp only [SessionTable.unregisterSession, if_pos hactive, if_true]
      by_cases ha : account' = account
      · subst ha
        have hoff := hturn hstatus hactive
        -- nothing is in flight, so that the flag is set
        have hquiet : w.Quiet account' := by
          intro f hf hfa
          rw [(h.inFlight f hf hfa).1 (hoff f hf hfa)] at hactive
          cases hactive
        have honline : w.online account' = some "1" := (h.right hquiet).2 (by rw [hactive]; rfl)
        have hnone : Function.update w.sessions account' none account' = none := Function.update_self _ _ _
        refine .send rfl rfl hnone (fun f hf hfa => absurd hfa (hquiet f hf)) (by simp) fun _ => ?_
        rw [honline]
        simp
      · exact h.sendOther (Function.update_of_ne (Ne.symm ha) _ _) rfl rfl ha
    · simp only [SessionTable.unregisterSession, if_neg hactive, Bool.false_eq_true, if_false]
      exact h.congr rfl rfl fun _ _ => Iff.rfl
  · cases hs

/-- The other writes stay in flight. -/
theorem mem_eraseIdx_of_account {writes : List FlagWrite} {n : ℕ} {f f' : FlagWrite} (hn : writes[n]? = some f)
    (hf' : f' ∈ writes) (hne : f ≠ f') : f' ∈ writes.eraseIdx n := by
  obtain ⟨m, hm⟩ := List.getElem?_of_mem hf'
  refine List.mem_eraseIdx_iff_getElem?.2 ⟨m, fun hmn => hne ?_, hm⟩
  rw [hmn, hn] at hm
  cases hm
  rfl

/-- A write of another account leaves the flight. -/
theorem Gateway.Orderly.other {n : ℕ} {f : FlagWrite} {online : Account → Option String} (h : w.Orderly account)
    (hn : w.writes[n]? = some f) (hne : f.account ≠ account) (ho : online account = w.online account) :
    Gateway.Orderly { w with online := online, writes := w.writes.eraseIdx n } account := by
  refine h.congr rfl ho fun f' hf' => ⟨List.mem_of_mem_eraseIdx, fun hmem => ?_⟩
  refine mem_eraseIdx_of_account hn hmem ?_
  rintro rfl
  exact hne hf'

theorem Gateway.land_orderly {n : ℕ} (h : w.Orderly account) (hs : w.step (.land n) = some (w', es)) :
    w'.Orderly account := by
  obtain ⟨f, hf, he⟩ := Option.map_eq_some_iff.1 hs
  cases he
  by_cases ha : f.account = account
  · subst ha
    refine ⟨fun f' hf' => h.inFlight f' (List.mem_of_mem_eraseIdx hf'), Or.inr ?_, fun _ _ _ _ => ?_⟩
    · simp only [Function.update_self, Option.some.injEq]
      exact h.value (List.mem_of_getElem? hf) rfl
    · simp
  · exact h.other hf ha (Function.update_of_ne (Ne.symm ha) _ _)

theorem Gateway.fail_orderly {n : ℕ} (h : w.Orderly account) (hturn : w.InTurn account (.fail n))
    (hs : w.step (.fail n) = some (w', es)) : w'.Orderly account := by
  simp only [Gateway.step] at hs
  split_ifs at hs with hn
  cases hs
  have hf := List.getElem?_eq_getElem hn
  by_cases ha : w.writes[n].account = account
  · refine ⟨fun f' hf' => h.inFlight f' (List.mem_of_mem_eraseIdx hf'), ?_,
      fun f' hf' => h.offline f' (List.mem_of_mem_eraseIdx hf')⟩
    rcases hturn _ hf ha with hsame | hother
    · right
      rw [hsame, Option.some.injEq]
      exact h.value (List.getElem_mem hn) ha
    · exact Or.inl hother
  · exact h.other hf ha rfl

/-- **A step in turn keeps the invariant.** -/
theorem Gateway.step_orderly (h : w.Orderly account) (hturn : w.InTurn account act)
    (hs : w.step act = some (w', es)) : w'.Orderly account := by
  cases act with
  | login session account' => exact login_orderly h hturn hs
  | ping session => exact ping_orderly h hturn hs
  | disconnect session => exact disconnect_orderly h hturn hs
  | land n => exact land_orderly h hs
  | fail n => exact fail_orderly h hturn hs

/-- Redis has no other values. -/
theorem Gateway.step_online (h : ∀ v, w.online account = some v → v = "0" ∨ v = "1")
    (hs : w.step act = some (w', es)) : ∀ v, w'.online account = some v → v = "0" ∨ v = "1" := by
  cases act with
  | login session a =>
    simp only [Gateway.step] at hs
    split_ifs at hs
    cases hs
    exact h
  | ping session =>
    simp only [Gateway.step] at hs
    split at hs
    · split_ifs at hs
      cases hs
      exact h
    · cases hs
  | disconnect session =>
    simp only [Gateway.step] at hs
    split at hs
    · cases hs
      exact h
    · cases hs
      exact h
    · cases hs
  | land n =>
    obtain ⟨f, -, he⟩ := Option.map_eq_some_iff.1 hs
    cases he
    by_cases ha : account = f.account
    · subst ha
      simp only [Function.update_self, Option.some.injEq, forall_eq']
      exact f.value_cases
    · simp only [Function.update_of_ne ha]
      exact h
  | fail n =>
    simp only [Gateway.step] at hs
    split_ifs at hs
    cases hs
    exact h

/-! ## Steps out of turn -/

/-- A write in flight that disagrees with the table can land after all
    others. -/
theorem Gateway.lands_last {f : FlagWrite} (hf : f ∈ w.writes)
    (hbad : ¬ (f.value = "1" ↔ (w.sessions f.account).isSome)) :
    ∃ w', Machine.Reachable Gateway.step w w' ∧ w'.Quiet f.account ∧
      ¬ (w'.online f.account = some "1" ↔ (w'.sessions f.account).isSome) := by
  have hland : ∀ {w : Gateway} {m : ℕ} {g : FlagWrite}, w.writes[m]? = some g →
      w.step (.land m) = some ({ w with
        online := Function.update w.online g.account (some g.value)
        writes := w.writes.eraseIdx m }, []) := by
    intro w m g hm
    simp only [Gateway.step, hm, Option.map_some]
  -- induction on the number of writes in flight
  induction hlen : w.writes.length generalizing w with
  | zero =>
    rw [List.eq_nil_of_length_eq_zero hlen] at hf
    cases hf
  | succ n ih =>
    obtain ⟨k, hk⟩ := List.getElem?_of_mem hf
    by_cases hlast : n = 0
    · subst hlast
      refine ⟨_, .next .start (hland hk), ?_, ?_⟩
      · have hnil : w.writes.eraseIdx k = [] := by
          refine List.eq_nil_of_length_eq_zero ?_
          rw [List.length_eraseIdx_of_lt (List.getElem?_eq_some_iff.1 hk).1, hlen]
        simp [Gateway.Quiet, hnil]
      · simpa only [Function.update_self, Option.some.injEq] using hbad
    · obtain ⟨m, hm, hmk⟩ : ∃ m < n + 1, m ≠ k := by
        by_cases h0 : k = 0
        · exact ⟨1, by omega, by omega⟩
        · exact ⟨0, by omega, by omega⟩
      have hm' := List.getElem?_eq_getElem (hlen ▸ hm)
      have hstay : f ∈ w.writes.eraseIdx m := List.mem_eraseIdx_iff_getElem?.2 ⟨k, Ne.symm hmk, hk⟩
      have hlen' : (w.writes.eraseIdx m).length = n := by
        rw [List.length_eraseIdx_of_lt (hlen ▸ hm), hlen]
        rfl
      obtain ⟨w', hreach, hq, hr⟩ := ih (w := { w with
        online := Function.update w.online w.writes[m].account (some w.writes[m].value)
        writes := w.writes.eraseIdx m }) hstay hbad hlen'
      exact ⟨w', (Machine.Reachable.next .start (hland hm')).trans hreach, hq, hr⟩

/-- After a step out of turn the flag can disagree with the table once nothing
    is in flight. -/
theorem Gateway.step_out_of_turn (h : w.Orderly account)
    (hval : ∀ v, w.online account = some v → v = "0" ∨ v = "1") (hturn : ¬ w.InTurn account act)
    (hs : w.step act = some (w', es)) :
    ∃ w'', Machine.Reachable Gateway.step w' w'' ∧ w''.Quiet account ∧
      ¬ (w''.online account = some "1" ↔ (w''.sessions account).isSome) := by
  cases act with
  | login session account' =>
    simp only [Gateway.InTurn, not_forall, not_not] at hturn
    obtain ⟨rfl, f, hf, rfl, hoff⟩ := hturn
    simp only [Gateway.step] at hs
    split_ifs at hs
    cases hs
    refine Gateway.lands_last (List.mem_append_left _ hf) ?_
    simp [FlagWrite.value_eq_one, hoff, SessionTable.registerSession]
  | ping session =>
    simp only [Gateway.InTurn, not_forall] at hturn
    obtain ⟨hstatus, hnone⟩ := hturn
    simp only [Gateway.step, hstatus] at hs
    split_ifs at hs
    cases hs
    refine Gateway.lands_last (f := ⟨account, session, .heartbeat⟩) (by simp) ?_
    simpa [FlagWrite.value_eq_one] using hnone
  | disconnect session =>
    simp only [Gateway.InTurn, not_forall] at hturn
    obtain ⟨hstatus, hactive, f, hf, rfl, hon⟩ := hturn
    simp only [Gateway.step, hstatus, SessionTable.unregisterSession, if_pos hactive, if_true] at hs
    cases hs
    refine Gateway.lands_last (List.mem_append_left _ hf) ?_
    simp [FlagWrite.value_eq_one, hon]
  | land n => exact absurd trivial hturn
  | fail n =>
    simp only [Gateway.InTurn, not_forall, not_or, not_exists, not_and] at hturn
    obtain ⟨f, hf, rfl, hne, hlast⟩ := hturn
    simp only [Gateway.step] at hs
    split_ifs at hs with hn
    cases hs
    have hmem := List.mem_of_getElem? hf
    refine ⟨_, .start, hlast, fun hr => ?_⟩
    -- the flag is what the write should have changed
    have hsame : w.online f.account = some "1" ↔ f.value = "1" := hr.trans (h.value hmem rfl).symm
    rcases f.value_cases with hv | hv
    · have hsome := h.offline f hmem rfl (by
        by_contra hs
        rw [FlagWrite.value_eq_one.2 hs] at hv
        exact absurd hv (by decide))
      obtain ⟨v, hv'⟩ := Option.ne_none_iff_exists'.1 hsome
      rcases hval v hv' with rfl | rfl
      · exact hne (hv'.trans (congrArg some hv.symm))
      · rw [hsame.1 hv'] at hv
        exact absurd hv (by decide)
    · exact hne ((hsame.2 hv).trans (congrArg some hv.symm))

end

namespace GatewayTrace
variable (T : GatewayTrace) {account : Account} {i : ℕ}

theorem orderly (hi : i ≤ T.len) (hturn : ∀ j < i, (T.state j).InTurn account (T.act j)) :
    (T.state i).Orderly account := by
  induction i with
  | zero =>
    rw [T.start]
    refine ⟨?_, Or.inr ?_, ?_⟩ <;> simp
  | succ i ih =>
    exact Gateway.step_orderly (ih (by omega) fun j hj => hturn j (by omega)) (hturn i (by omega)) (T.next i (by omega))

theorem online_values (hi : i ≤ T.len) : ∀ v, (T.state i).online account = some v → v = "0" ∨ v = "1" :=
  T.invariant (P := fun w => ∀ v, w.online account = some v → v = "0" ∨ v = "1") (by simp)
    (fun _ _ _ _ h hs => Gateway.step_online h hs) hi

end GatewayTrace

/-- **The online flag and the session table.**  As long as the steps of an
    account are in turn, its flag is `"1"` exactly when a session is registered,
    whenever nothing is in flight, and so `PushMsg` sees it.  The first step out
    of turn can be followed by steps to a state with nothing in flight where
    they disagree. -/
theorem online_flag (T : GatewayTrace) (account : Account) :
    (∀ i ≤ T.len, (∀ j < i, (T.state j).InTurn account (T.act j)) → (T.state i).Quiet account →
      ((T.state i).online account = some "1" ↔ ((T.state i).sessions account).isSome) ∧
      recvOnline ((T.state i).online account) = ((T.state i).sessions account).isSome) ∧
    ∀ i < T.len, (∀ j < i, (T.state j).InTurn account (T.act j)) → ¬ (T.state i).InTurn account (T.act i) →
      ∃ w, Machine.Reachable Gateway.step (T.state (i + 1)) w ∧ w.Quiet account ∧
        ¬ (w.online account = some "1" ↔ (w.sessions account).isSome) := by
  constructor
  · intro i hi hturn hq
    have hr := (T.orderly hi hturn).right hq
    have hval : (T.state i).online account ≠ some "true" := by
      intro hv
      exact absurd (T.online_values hi _ hv) (by decide)
    refine ⟨hr, ?_⟩
    unfold recvOnline
    rw [Bool.eq_iff_iff]
    simpa [hval] using hr
  · intro i hi hbefore hturn
    exact Gateway.step_out_of_turn (T.orderly hi.le hbefore) (T.online_values hi.le) hturn (T.next i hi)

/-! ## Two runs -/

namespace Relogin

/-- The user of session `0` logs in again with session `1` while a heartbeat of
    session `0` is in flight, and both sessions end after that. -/
def inTurn : GatewayTrace :=
  .ofActions _ _ (fun i => [.login 0 7, .land 0, .ping 0, .login 1 7, .land 1, .fail 0, .disconnect 0,
    .disconnect 1, .land 0].getD i (.land 0)) 9 (by decide +kernel)

/-- Session `0` ends, and its write lands after the next login. -/
def late : GatewayTrace :=
  .ofActions _ _ (fun i => [.login 0 7, .land 0, .disconnect 0, .login 1 7, .land 1, .land 0].getD i (.land 0)) 6
    (by decide +kernel)

end Relogin

theorem online_flag_inTurn :
    ((Relogin.inTurn.state 7).online 7 = some "1" ∧ ((Relogin.inTurn.state 7).sessions 7).isSome) ∧
      ((Relogin.inTurn.state 9).online 7 = some "0" ∧ ¬ ((Relogin.inTurn.state 9).sessions 7).isSome) := by
  have hturn : ∀ j < 9, (Relogin.inTurn.state j).InTurn 7 (Relogin.inTurn.act j) := by decide +kernel
  have hquiet : ∀ i ∈ [7, 9], ∀ f ∈ (Relogin.inTurn.state i).writes, f.account ≠ 7 := by decide +kernel
  have hflag := (online_flag Relogin.inTurn 7).1
  have hlogged := (hflag 7 (by decide) (fun j hj => hturn j (by omega)) (hquiet 7 (by decide))).1
  have hended := (hflag 9 le_rfl hturn (hquiet 9 (by decide))).1
  refine ⟨?_, by decide +kernel, ?_⟩
  · have hsome : ((Relogin.inTurn.state 7).sessions 7).isSome := by decide +kernel
    exact ⟨hlogged.2 hsome, hsome⟩
  · rw [← hended]
    decide +kernel

/-- The end of an old session can mark a user offline who has logged in
    again. -/
theorem relogin_marked_offline : ¬ ∀ (T : GatewayTrace) (i : ℕ) (a : Account), i ≤ T.len →
    (T.state i).Quiet a → ((T.state i).online a = some "1" ↔ ((T.state i).sessions a).isSome) := by
  intro h
  have hquiet : (Relogin.late.state 6).Quiet 7 := by
    intro f hf
    cases hf
  have hflag := h Relogin.late 6 7 le_rfl hquiet
  revert hflag
  decide

end ApeServer
