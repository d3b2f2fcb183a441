/-
  The leases of the registered services (`BackbonServiceImpl::RegisterService`,
  `keep_alive`).

  Requests are handled in any order, with any answers of etcd and Redis; a
  lease that is not renewed may expire at any time, and so may an entry of
  Redis.

  * `Server.Renewed`: the registered services have their keys, under a lease
    that is renewed;
  * `KeepsRenewals`: a registration does not end the renewal for another service;
  * `services_renewed`: both hold exactly in the runs where a service is only
    registered while no other one is.
-/
import ApeServer.Lib.Run
import ApeServer.Backbon.Registry

namespace ApeServer.Backbon

/-! ## The server -/

/-- A coroutine that was spawned and has not called Redis yet. -/
inductive Task where
  | register (request : RegisterServiceReq) (lease : ℕ)
  | unregister (request : UnregisterServiceReq)

/-- A registration whose synchronous part has ended well: its lease, and
    whether it has succeeded. -/
structure Registration where
  lease : ℕ
  succeeded : Bool
deriving DecidableEq, Repr

structure Server where
  registry : Registry := {}
  tasks : List Task := []
  /-- not a part of the program: the last registration of a service, if it has
      not failed and the service is not unregistered -/
  last : String → Option Registration := fun _ => none

inductive Action where
  | registerService (request : RegisterServiceReq) (answer : EtcdAnswer)
  | unregisterService (request : UnregisterServiceReq) (removed : Bool)
  /-- Redis answers the `n`-th task -/
  | redis (n : ℕ) (ok applied : Bool)
  | leaseExpires (lease : ℕ)
  | entryExpires (k : String)

namespace Server

def registerService (s : Server) (request : RegisterServiceReq) (answer : EtcdAnswer) : Server × List Resp :=
  let (registry, handled) := s.registry.registerService request answer
  match handled with
  | .finish response =>
    ({ s with registry := registry, last := Function.update s.last request.service none }, [response])
  | .throws => ({ s with registry := registry, last := Function.update s.last request.service none }, [])
  | .spawn =>
    ({ s with
        registry := registry
        tasks := s.tasks ++ [.register request s.registry.leases]
        last := Function.update s.last request.service (some ⟨s.registry.leases, false⟩) }, [])

/-- The answer of Redis to a task; it decides a registration if that is still
    the last one of the service. -/
def answer (s : Server) (task : Task) (ok applied : Bool) : Server × List Resp :=
  match task with
  | .register request lease =>
    let (registry, response) := s.registry.finishRegister request ok applied
    ({ s with
        registry := registry
        last := if s.last request.service = some ⟨lease, false⟩ then
          Function.update s.last request.service (if ok then some ⟨lease, true⟩ else none) else s.last },
      [response])
  | .unregister request =>
    let (registry, response) := s.registry.finishUnregister request (ok || applied)
    ({ s with registry := registry }, [response])

/-- A step of the server; only a lease without a `KeepAlive` expires. -/
def step (s : Server) : Action → Option (Server × List Resp)
  | .registerService request answer => some (s.registerService request answer)
  | .unregisterService request removed =>
    some ({ s with
      registry := s.registry.unregisterService request removed
      tasks := s.tasks ++ [.unregister request]
      last := Function.update s.last request.service none }, [])
  | .redis n ok applied =>
    s.tasks[n]?.map fun task => answer { s with tasks := s.tasks.eraseIdx n } task ok applied
  | .leaseExpires lease =>
    if s.registry.keepAlive = some lease then none
    else some ({ s with registry := s.registry.dropLease lease }, [])
  | .entryExpires k => some ({ s with registry := s.registry.del k }, [])

/-- The registration of the service is alive: its key is there under its lease,
    which is renewed. -/
structure Alive (s : Server) (service : String) (lease : ℕ) : Prop where
  key : ∃ value, s.registry.etcd (key service) = some ⟨value, lease⟩
  renewed : s.registry.keepAlive = some lease

/-- **Every registered service stays registered.** -/
def Renewed (s : Server) : Prop :=
  ∀ service lease, s.last service = some ⟨lease, true⟩ → s.Alive service lease

/-- What is renewed for the other services is still renewed after the
    registration of one. -/
def KeepsRenewals (s : Server) (a : Action) (s' : Server) : Prop :=
  ∀ request answer, a = .registerService request answer →
    ∀ service ≠ request.service, ∀ reg, s.last service = some reg →
      s.registry.keepAlive = some reg.lease → s'.registry.keepAlive = some reg.lease

/-- A registration that replaces the `KeepAlive` is made while no other service
    is registered or about to be. -/
def Alone (s : Server) (a : Action) : Prop :=
  ∀ request, a = .registerService request .ok → ∀ service ≠ request.service, s.last service = none

/-! ## One step -/

/-- Every registration, also one that Redis has not answered, is alive; the
    leases to come are new. -/
structure Inv (s : Server) : Prop where
  alive : ∀ service reg, s.last service = some reg → s.Alive service reg.lease
  old : ∀ service reg, s.last service = some reg → reg.lease < s.registry.leases

theorem of_update_none {last : String → Option Registration} {service service' : String} {reg : Registration}
    (h : Function.update last service none service' = some reg) : service' ≠ service ∧ last service' = some reg := by
  by_cases hs : service' = service
  · subst hs
    rw [Function.update_self] at h
    cases h
  · exact ⟨hs, by rwa [Function.update_of_ne hs] at h⟩

variable {s s' : Server} {a : Action} {es : List Resp}

/-- What Redis has, and whether a registration has succeeded, does not matter. -/
theorem Inv.of_last (h : s.Inv) (hetcd : s'.registry.etcd = s.registry.etcd)
    (hleases : s'.registry.leases = s.registry.leases) (hkeep : s'.registry.keepAlive = s.registry.keepAlive)
    (hlast : ∀ service reg, s'.last service = some reg →
      ∃ reg', s.last service = some reg' ∧ reg'.lease = reg.lease) : s'.Inv := by
  constructor
  · intro service reg hreg
    obtain ⟨reg', hreg', hl⟩ := hlast service reg hreg
    obtain ⟨hkey, hrenewed⟩ := h.alive service reg' hreg'
    rw [← hetcd, hl] at hkey
    rw [← hkeep, hl] at hrenewed
    exact ⟨hkey, hrenewed⟩
  · intro service reg hreg
    obtain ⟨reg', hreg', hl⟩ := hlast service reg hreg
    rw [hleases, ← hl]
    exact h.old service reg' hreg'

/-- A registration that does not go well leaves the service without one. -/
theorem registerService_failed {request : RegisterServiceReq} {answer : EtcdAnswer} (h : answer ≠ .ok) :
    (s.registerService request answer).1 =
      { s with
        registry := (s.registry.registerService request answer).1
        last := Function.update s.last request.service none } := by
  cases answer with
  | ok => exact absurd rfl h
  | leasegrantFails | putFails | keepAliveThrows => rfl

theorem Inv.registerService (h : s.Inv) {request : RegisterServiceReq} {answer : EtcdAnswer}
    (halone : s.Alone (.registerService request answer)) : (s.registerService request answer).1.Inv := by
  by_cases hok : answer = .ok
  · subst hok
    -- the service is the only one, and it has just put its key
    have honly : ∀ service reg, Function.update s.last request.service
        (some ⟨s.registry.leases, false⟩) service = some reg →
        service = request.service ∧ reg.lease = s.registry.leases := by
      intro service reg hreg
      by_cases hs : service = request.service
      · subst hs
        rw [Function.update_self] at hreg
        cases hreg
        exact ⟨rfl, rfl⟩
      · rw [Function.update_of_ne hs, halone request rfl service hs] at hreg
        cases hreg
    constructor
    · intro service reg hreg
      obtain ⟨rfl, hl⟩ := honly service reg hreg
      rw [hl]
      exact ⟨⟨_, Function.update_self ..⟩, rfl⟩
    · intro service reg hreg
      rw [(honly service reg hreg).2]
      exact Nat.lt_succ_self _
  · rw [registerService_failed hok]
    constructor
    · intro service reg hreg
      obtain ⟨hne, hlast⟩ := of_update_none hreg
      obtain ⟨value, hvalue⟩ := (h.alive service reg hlast).key
      refine ⟨⟨value, Registry.registerService_etcd_other hne hvalue (h.old service reg hlast)⟩, ?_⟩
      exact (Registry.registerService_keepAlive hok).trans (h.alive service reg hlast).renewed
    · intro service reg hreg
      exact (h.old service reg (of_update_none hreg).2).trans_le (Registry.registerService_leases _ _ _)

theorem Inv.unregisterService (h : s.Inv) (request : UnregisterServiceReq) (removed : Bool) (tasks : List Task) :
    Inv { s with
      registry := s.registry.unregisterService request removed
      tasks := tasks
      last := Function.update s.last request.service none } := by
  constructor
  · intro service reg hreg
    obtain ⟨hne, hlast⟩ := of_update_none hreg
    obtain ⟨⟨value, hvalue⟩, hrenewed⟩ := h.alive service reg hlast
    cases removed with
    | false => exact ⟨⟨value, hvalue⟩, hrenewed⟩
    | true =>
      refine ⟨⟨value, ?_⟩, hrenewed⟩
      exact (Function.update_of_ne (fun hk => hne (key_inj.1 hk)) _ _).trans hvalue
  · intro service reg hreg
    have hold := h.old service reg (of_update_none hreg).2
    cases removed <;> exact hold

theorem Inv.answer (h : s.Inv) (task : Task) (ok applied : Bool) : (s.answer task ok applied).1.Inv := by
  cases task with
  | register request lease =>
    have hlast : ∀ service reg, ((s.answer (.register request lease) ok applied).1.last service = some reg) →
        ∃ reg', s.last service = some reg' ∧ reg'.lease = reg.lease := by
      intro service reg hreg
      simp only [Server.answer] at hreg
      by_cases hcur : s.last request.service = some ⟨lease, false⟩
      · rw [if_pos hcur] at hreg
        by_cases hs : service = request.service
        · subst hs
          rw [Function.update_self] at hreg
          split_ifs at hreg
          cases hreg
          exact ⟨_, hcur, rfl⟩
        · rw [Function.update_of_ne hs] at hreg
          exact ⟨reg, hreg, rfl⟩
      · rw [if_neg hcur] at hreg
        exact ⟨reg, hreg, rfl⟩
    refine h.of_last ?_ ?_ ?_ hlast <;> cases ok <;> cases applied <;> rfl
  | unregister request =>
    refine h.of_last ?_ ?_ ?_ fun service reg hreg => ⟨reg, hreg, rfl⟩ <;> cases ok <;> cases applied <;> rfl

theorem Inv.leaseExpires (h : s.Inv) {lease : ℕ} (hne : s.registry.keepAlive ≠ some lease) :
    Inv { s with registry := s.registry.dropLease lease } := by
  constructor
  · intro service reg hreg
    obtain ⟨⟨value, hvalue⟩, hrenewed⟩ := h.alive service reg hreg
    have hl : reg.lease ≠ lease := fun he => hne (he ▸ hrenewed)
    refine ⟨⟨value, ?_⟩, hrenewed⟩
    simp only [Registry.dropLease, hvalue, Option.filter_some, decide_eq_true hl, if_true]
  · exact h.old

/-- **A registration of a service that is alone** keeps every registration alive. -/
theorem step_inv (h : s.Inv) (halone : s.Alone a) (hs : s.step a = some (s', es)) : s'.Inv := by
  cases a with
  | registerService request answer =>
    obtain rfl : (s.registerService request answer).1 = s' := congrArg Prod.fst (Option.some.inj hs)
    exact h.registerService halone
  | unregisterService request removed =>
    cases hs
    exact h.unregisterService request removed _
  | redis n ok applied =>
    obtain ⟨task, -, he⟩ := Option.map_eq_some_iff.1 hs
    have hrest : Inv { s with tasks := s.tasks.eraseIdx n } :=
      h.of_last rfl rfl rfl fun service reg hreg => ⟨reg, hreg, rfl⟩
    have hinv := hrest.answer task ok applied
    rwa [he] at hinv
  | leaseExpires lease =>
    simp only [step] at hs
    split_ifs at hs with hne
    cases hs
    exact h.leaseExpires hne
  | entryExpires k =>
    cases hs
    exact h.of_last rfl rfl rfl fun service reg hreg => ⟨reg, hreg, rfl⟩

theorem step_keepsRenewals (halone : s.Alone a) (hs : s.step a = some (s', es)) : s.KeepsRenewals a s' := by
  rintro request answer rfl service hne reg hreg hkeep
  have hok : answer ≠ .ok := by
    rintro rfl
    rw [halone request rfl service hne] at hreg
    cases hreg
  obtain rfl : (s.registerService request answer).1 = s' := congrArg Prod.fst (Option.some.inj hs)
  rw [registerService_failed hok]
  exact (Registry.registerService_keepAlive hok).trans hkeep

/-- **A registration of a service that is not alone** ends the renewal for
    another one. -/
theorem Inv.alone (h : s.Inv) (hkeeps : s.KeepsRenewals a s') (hs : s.step a = some (s', es)) : s.Alone a := by
  rintro request rfl service hne
  rcases hlast : s.last service with _ | reg
  · rfl
  · have hkeep := hkeeps request .ok rfl service hne reg hlast (h.alive service reg hlast).renewed
    cases hs
    have hlease : s.registry.leases = reg.lease := Option.some.inj hkeep
    have hold := h.old service reg hlast
    omega

/-! ## Runs -/

/-- The runs of the server. -/
abbrev Trace := Machine.Trace Server.step ({} : Server)

theorem Trace.inv (T : Trace) (halone : ∀ i < T.len, (T.state i).Alone (T.act i)) {i : ℕ} (hi : i ≤ T.len) :
    (T.state i).Inv := by
  refine T.invariant_of (I := fun _ => True) (fun _ _ => trivial) halone ⟨nofun, nofun⟩ ?_ hi
  intro s a s' es _ halone h hs
  exact step_inv h halone hs

/-- **Every registered service stays registered**, and no registration ends the
    renewal for another service, exactly if each one is made while no other
    service is registered or about to be. -/
theorem services_renewed (T : Trace) :
    ((∀ i ≤ T.len, (T.state i).Renewed) ∧
        ∀ i < T.len, (T.state i).KeepsRenewals (T.act i) (T.state (i + 1))) ↔
      ∀ i < T.len, (T.state i).Alone (T.act i) := by
  constructor
  · rintro ⟨-, hkeeps⟩
    have hinv : ∀ i ≤ T.len, (T.state i).Inv := by
      intro i hi
      induction i with
      | zero =>
        rw [T.start]
        exact ⟨nofun, nofun⟩
      | succ i ih =>
        have h := ih (by omega)
        exact step_inv h (h.alone (hkeeps i hi) (T.next i hi)) (T.next i hi)
    intro i hi
    exact (hinv i (by omega)).alone (hkeeps i hi) (T.next i hi)
  · intro halone
    constructor
    · intro i hi service lease hlast
      exact (Trace.inv T halone hi).alive service _ hlast
    · intro i hi
      exact step_keepsRenewals (halone i hi) (T.next i hi)

/-- `main` registers `AuthService`, and then `MsgService`. -/
def twoServices : Trace :=
  Machine.Trace.ofActions step {}
    (fun
      | 0 => .registerService ⟨"AuthService", ["0.0.0.0:50051"], ["Register", "Login", "ValidateToken"]⟩ .ok
      | 1 => .redis 0 true false
      | 2 => .registerService ⟨"MsgService", ["0.0.0.0:50053"], ["GetMaxSeq", "SendMessages"]⟩ .ok
      | _ => .redis 0 true false)
    4 (by decide)

/-- After that the lease of `AuthService` is not renewed. -/
theorem first_service_not_renewed : ¬ (twoServices.state twoServices.len).Renewed := by
  intro h
  have hlast : (twoServices.state twoServices.len).last "AuthService" = some ⟨0, true⟩ := by decide
  have hrenewed := (h "AuthService" 0 hlast).renewed
  revert hrenewed
  decide

end Server

end ApeServer.Backbon
