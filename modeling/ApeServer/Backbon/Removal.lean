/-
  Services that register at start and unregister at `Stop` (`RegisterToEtcd`
  and `UnregisterFromEtcd` of `include/services/base_service.h`, and
  `BackbonClient` of `src/services/backbon_service/client.cpp`).

  The name goes from the service into a `ServiceInfo`, from there into the
  request of the client, and the server makes the key of it.  On the way back
  the client sends a request without a name.  etcd and Redis have no faults,
  but entries expire.

  * `RemovesExactly`, `StaysRemoved`: a `Stop` removes the entries of its
    service and no others, and they stay away until it is started again;
  * `stop_removes`: exactly if there was nothing to remove, or the service has
    no name.
-/
import ApeServer.Lib.Run
import ApeServer.Backbon.Registry

namespace ApeServer.Backbon

/-! ## The client -/

/-- `ServiceInfo` of `include/services/backbon_service/client.h`. -/
structure ServiceInfo where
  service : String
  ipports : List String
  methods : List String

namespace BackbonClient

def registerService (r : Registry) (serviceInfo : ServiceInfo) : Registry × Resp :=
  let request : RegisterServiceReq :=
    { service := serviceInfo.service
      ipport := serviceInfo.ipports
      methods := serviceInfo.methods }
  (r.registerService request .ok).1.finishRegister request true true

/-- No field of the request is set. -/
def unregisterService (r : Registry) : Registry × Resp :=
  let request : UnregisterServiceReq := {}
  (r.unregisterService request true).finishUnregister request true

def getServicesList (r : Registry) (serviceName : String) : GetServiceResp :=
  r.getService { service := serviceName }

end BackbonClient

/-! ## The services -/

/-- What a service is constructed with, and `EnableEtcdRegistration` sets. -/
structure ServiceConfig where
  serviceName : String
  listenAddress : String
  backbonAddr : String
  methods : List String

/-- `state_` is `kRunning`, there is a `backbon_client_`, and `etcd_registered_`. -/
structure ServiceStatus where
  running : Bool := false
  backbonClient : Bool := false
  etcdRegistered : Bool := false
deriving DecidableEq, Repr

def registerToEtcd (config : ServiceConfig) (r : Registry) (status : ServiceStatus) : Registry × ServiceStatus :=
  if config.backbonAddr = "" then (r, status)
  else
    let info : ServiceInfo :=
      { service := config.serviceName
        ipports := [config.listenAddress]
        methods := config.methods }
    let (r', resp) := BackbonClient.registerService r info
    (r', { status with backbonClient := true, etcdRegistered := status.etcdRegistered || resp.success })

def unregisterFromEtcd (r : Registry) (status : ServiceStatus) : Registry × ServiceStatus :=
  if status.backbonClient then
    ((BackbonClient.unregisterService r).1, { status with backbonClient := false })
  else (r, status)

/-- `Start`, and `RunServer` up to the wait. -/
def start (config : ServiceConfig) (r : Registry) (status : ServiceStatus) : Registry × ServiceStatus :=
  if status.running then (r, status) else registerToEtcd config r { status with running := true }

def stop (r : Registry) (status : ServiceStatus) : Registry × ServiceStatus :=
  if status.running then
    let (r', status') := unregisterFromEtcd r status
    (r', { status' with running := false })
  else (r, status)

/-! ## Runs -/

section
variable {ι : Type} [DecidableEq ι] {config : ι → ServiceConfig}

/-- All services, and what the registry has of them. -/
structure World (ι : Type) where
  registry : Registry := {}
  status : ι → ServiceStatus := fun _ => {}

inductive Event (ι : Type) where
  | start (i : ι)
  | stop (i : ι)
  | leaseExpires (lease : ℕ)
  | entryExpires (k : String)

def World.set (w : World ι) (i : ι) (new : Registry × ServiceStatus) : World ι :=
  { registry := new.1, status := Function.update w.status i new.2 }

def World.step (config : ι → ServiceConfig) (w : World ι) : Event ι → Option (World ι × List Unit)
  | .start i => some (w.set i (Backbon.start (config i) w.registry (w.status i)), [])
  | .stop i => some (w.set i (Backbon.stop w.registry (w.status i)), [])
  | .leaseExpires lease =>
    if w.registry.keepAlive = some lease then none
    else some ({ w with registry := w.registry.dropLease lease }, [])
  | .entryExpires k => some ({ w with registry := w.registry.del k }, [])

/-- The runs of a set of services. -/
abbrev ServiceTrace (config : ι → ServiceConfig) := Machine.Trace (World.step config) ({} : World ι)

/-- The service runs and has registered. -/
def World.Registered (w : World ι) (i : ι) : Prop :=
  (w.status i).running = true ∧ (w.status i).backbonClient = true

/-! ## What a stop is to do -/

/-- Neither etcd nor Redis has an entry of the service. -/
def Registry.Absent (r : Registry) (service : String) : Prop :=
  r.etcd (key service) = none ∧ r.redis (key service) = none

/-- The entries of the service are removed, and all others are as before. -/
structure RemovesExactly (r r' : Registry) (service : String) : Prop where
  absent : r'.Absent service
  others : ∀ other ≠ service,
    r'.etcd (key other) = r.etcd (key other) ∧ r'.redis (key other) = r.redis (key other)

/-- Until a service of that name starts there is no entry, and `GetService`
    does not report it. -/
def StaysRemoved (T : ServiceTrace config) (i : ℕ) (service : String) : Prop :=
  ∀ j, i ≤ j → j ≤ T.len →
    (∀ k, i ≤ k → k < j → ∀ n, T.act k = .start n → (config n).serviceName ≠ service) →
    (T.state j).registry.Absent service ∧
      (BackbonClient.getServicesList (T.state j).registry service).registered = false

/-! ## What it does -/

/-- The bare key is removed. -/
theorem unregister_etcd (r : Registry) (k : String) :
    (BackbonClient.unregisterService r).1.etcd k = if k = key "" then none else r.etcd k := by
  simp only [BackbonClient.unregisterService, Registry.unregisterService, Registry.finishUnregister,
    Registry.rm, Registry.del, if_true, Function.update_apply]

theorem unregister_redis (r : Registry) (k : String) :
    (BackbonClient.unregisterService r).1.redis k = if k = key "" then none else r.redis k := by
  simp only [BackbonClient.unregisterService, Registry.unregisterService, Registry.finishUnregister,
    Registry.rm, Registry.del, if_true, Function.update_apply]

/-- **The request without a name** removes the entries of the service exactly
    if they are those of the name `""`, or there is nothing to remove. -/
theorem unregister_removes_iff {r : Registry} {service : String} :
    RemovesExactly r (BackbonClient.unregisterService r).1 service ↔
      service = "" ∨ (r.Absent service ∧ r.Absent "") := by
  constructor
  · intro h
    rw [or_iff_not_imp_left]
    intro hne
    have hkey : key service ≠ key "" := fun hk => hne (key_inj.1 hk)
    obtain ⟨he, hr⟩ := h.absent
    rw [unregister_etcd, if_neg hkey] at he
    rw [unregister_redis, if_neg hkey] at hr
    obtain ⟨he', hr'⟩ := h.others "" (Ne.symm hne)
    rw [unregister_etcd, if_pos rfl] at he'
    rw [unregister_redis, if_pos rfl] at hr'
    exact ⟨⟨he, hr⟩, he'.symm, hr'.symm⟩
  · rintro (rfl | ⟨⟨he, hr⟩, he', hr'⟩)
    · constructor
      · exact ⟨by rw [unregister_etcd, if_pos rfl], by rw [unregister_redis, if_pos rfl]⟩
      · intro other hne
        have hkey : key other ≠ key "" := fun hk => hne (key_inj.1 hk)
        rw [unregister_etcd, unregister_redis, if_neg hkey, if_neg hkey]
        exact ⟨rfl, rfl⟩
    · -- nothing is removed
      have hsame : ∀ k, (BackbonClient.unregisterService r).1.etcd k = r.etcd k ∧
          (BackbonClient.unregisterService r).1.redis k = r.redis k := by
        intro k
        rw [unregister_etcd, unregister_redis]
        by_cases hk : k = key ""
        · subst hk
          rw [if_pos rfl, if_pos rfl]
          exact ⟨he'.symm, hr'.symm⟩
        · rw [if_neg hk, if_neg hk]
          exact ⟨rfl, rfl⟩
      exact ⟨⟨(hsame _).1.trans he, (hsame _).2.trans hr⟩, fun other _ => hsame _⟩

theorem stop_registry {r : Registry} {status : ServiceStatus} (hrun : status.running = true)
    (hclient : status.backbonClient = true) : (stop r status).1 = (BackbonClient.unregisterService r).1 := by
  simp only [stop, unregisterFromEtcd, hrun, hclient, if_true]

/-- A registration under another name adds nothing. -/
theorem Registry.Absent.start {r : Registry} {service : String} (h : r.Absent service) {c : ServiceConfig}
    (hne : c.serviceName ≠ service) (status : ServiceStatus) : (start c r status).1.Absent service := by
  have hkey : key service ≠ key c.serviceName := fun hk => hne (key_inj.1 hk).symm
  unfold Backbon.start registerToEtcd
  split_ifs
  · exact h
  · exact h
  · simp only [BackbonClient.registerService, Registry.registerService, Registry.finishRegister, Registry.setex,
      Registry.put, Registry.leasegrant, if_true, Registry.Absent, Function.update_of_ne hkey]
    exact h

theorem Registry.Absent.unregister {r : Registry} {service : String} (h : r.Absent service) :
    (BackbonClient.unregisterService r).1.Absent service := by
  rw [Registry.Absent, unregister_etcd, unregister_redis, h.1, h.2]
  exact ⟨ite_self _, ite_self _⟩

/-- **Entries come back only by a start.** -/
theorem World.step_absent {w w' : World ι} {e : Event ι} {es : List Unit} {service : String}
    (h : w.registry.Absent service) (hstart : ∀ n, e = .start n → (config n).serviceName ≠ service)
    (hs : w.step config e = some (w', es)) : w'.registry.Absent service := by
  cases e with
  | start n =>
    cases hs
    exact h.start (hstart n rfl) _
  | stop n =>
    cases hs
    simp only [World.set, Backbon.stop, unregisterFromEtcd]
    split_ifs
    · exact h.unregister
    · exact h
    · exact h
  | leaseExpires lease =>
    simp only [World.step] at hs
    split_ifs at hs
    cases hs
    refine ⟨?_, h.2⟩
    simp only [Registry.dropLease, h.1, Option.filter_none]
  | entryExpires k =>
    cases hs
    refine ⟨h.1, ?_⟩
    simp only [Registry.del, Function.update_apply, h.2, ite_self]

theorem staysRemoved (T : ServiceTrace config) {i : ℕ} {service : String}
    (h : (T.state i).registry.Absent service) : StaysRemoved T i service := by
  intro j hij hj hstart
  have habsent : (T.state j).registry.Absent service := by
    induction j, hij using Nat.le_induction with
    | base => exact h
    | succ j hij ih =>
      have hprev := ih (by omega) fun k hik hkj => hstart k hik (by omega)
      exact World.step_absent hprev (hstart j hij (by omega)) (T.next j (by omega))
  refine ⟨habsent, ?_⟩
  simp only [BackbonClient.getServicesList, Registry.getService, habsent.1, Option.isSome_none]

/-- **Stopping a service removes exactly its own registration**, for good, only
    if it has an empty name or there is nothing to remove. -/
theorem stop_removes (T : ServiceTrace config) {i : ℕ} {n : ι} (hi : i < T.len) (hact : T.act i = .stop n)
    (hreg : (T.state i).Registered n) :
    RemovesExactly (T.state i).registry (T.state (i + 1)).registry (config n).serviceName ∧
        StaysRemoved T (i + 1) (config n).serviceName ↔
      (config n).serviceName = "" ∨
        ((T.state i).registry.Absent (config n).serviceName ∧ (T.state i).registry.Absent "") := by
  have hs := T.next i hi
  rw [hact] at hs
  have hnext : (T.state (i + 1)).registry = (BackbonClient.unregisterService (T.state i).registry).1 := by
    have hw : (T.state i).set n (stop (T.state i).registry ((T.state i).status n)) = T.state (i + 1) :=
      congrArg Prod.fst (Option.some.inj hs)
    rw [← hw]
    exact stop_registry hreg.1 hreg.2
  rw [hnext, unregister_removes_iff.symm]
  refine and_iff_left_of_imp fun h => staysRemoved T ?_
  rw [hnext]
  exact h.absent

end

/-- A service named `name` is started and stopped. -/
def startStop (name : String) : ServiceTrace fun _ : Unit => ⟨name, "0.0.0.0:50051", "localhost:50052", ["Login"]⟩ :=
  Machine.Trace.ofActions (World.step _) {} (fun | 0 => Event.start () | _ => Event.stop ()) 2 (by
    intro i hi
    interval_cases i <;> rfl)

theorem stop_removes_unnamed :
    RemovesExactly ((startStop "").state 1).registry ((startStop "").state 2).registry "" ∧
      StaysRemoved (startStop "") 2 "" :=
  (stop_removes (startStop "") (i := 1) (n := ()) (by decide) rfl ⟨rfl, rfl⟩).2 (Or.inl rfl)

/-- `AuthService` is still registered after its `Stop`. -/
theorem stop_keeps_entry :
    let T := startStop "AuthService"
    (T.state 1).Registered () ∧ T.act 1 = .stop () ∧
      ¬ RemovesExactly (T.state 1).registry (T.state 2).registry "AuthService" ∧
      (BackbonClient.getServicesList (T.state 2).registry "AuthService").registered = true := by
  refine ⟨⟨rfl, rfl⟩, rfl, fun h => ?_, by decide⟩
  have hetcd := h.absent.1
  revert hetcd
  decide

end ApeServer.Backbon
