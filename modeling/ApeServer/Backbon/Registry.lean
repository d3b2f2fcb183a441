/-
  The registry of the services (`src/services/backbon_service/server.cpp`).

  A service is registered by a key `/services/<name>` of etcd, whose value are
  its addresses and which goes with its lease, and by an entry of Redis with
  the same key, its methods.  `BackbonServiceImpl` renews leases by an
  `etcd::KeepAlive`, of which it holds one.

  Each handler has a synchronous part, which calls etcd, and spawns one that
  calls Redis and finishes the request; the answers of etcd and Redis are
  parameters.

  * `deserialize_serialize`: what the two texts say is read back;
  * `getService_registered`: what `GetService` answers after a registration.
-/
import Mathlib.Tactic

namespace ApeServer.Backbon

/-! ## Texts -/

/-- `serialize_vector`. -/
def serializeVector (vec : List String) : String := ",".intercalate vec

/-- `deserialize_vector`: what `getline` reads up to each comma, without the
    empty texts. -/
def deserializeVector (str : String) : List String :=
  ((str.toList.splitOn ',').map String.ofList).filter (· ≠ "")

/-- **The texts of a vector are read back**, if they have letters and no comma. -/
theorem deserialize_serialize {vec : List String} (hne : ∀ s ∈ vec, s ≠ "")
    (hcomma : ∀ s ∈ vec, ',' ∉ s.toList) : deserializeVector (serializeVector vec) = vec := by
  rw [deserializeVector, serializeVector, String.toList_intercalate]
  rcases eq_or_ne vec [] with rfl | hvec
  · decide
  · have hsplit : ([','].intercalate (vec.map String.toList)).splitOn ',' = vec.map String.toList := by
      refine List.splitOn_intercalate ',' ?_ ?_
      · simpa using hcomma
      · simpa using hvec
    rw [show ",".toList = [','] from rfl, hsplit, List.map_map]
    simpa [Function.comp_def] using hne

/-! ## The two stores -/

/-- The key of a service, in etcd and in Redis. -/
def key (service : String) : String := "/services/" ++ service

theorem key_inj {s s' : String} : key s = key s' ↔ s = s' := by
  refine ⟨fun h => ?_, congrArg key⟩
  have hlist : "/services/".toList ++ s.toList = "/services/".toList ++ s'.toList := by
    rw [← String.toList_append, ← String.toList_append]
    exact congrArg String.toList h
  exact String.toList_inj.1 (List.append_cancel_left hlist)

/-- What etcd has under a key. -/
structure Entry where
  value : String
  lease : ℕ
deriving DecidableEq, Repr

/-- etcd and Redis, with the `keep_alive` of the server. -/
structure Registry where
  etcd : String → Option Entry := fun _ => none
  /-- the leases granted so far; the next one has this number -/
  leases : ℕ := 0
  redis : String → Option String := fun _ => none
  /-- the lease that `keep_alive` renews; replacing the object ends the renewal
      of its lease -/
  keepAlive : Option ℕ := none

namespace Registry

def leasegrant (r : Registry) : Registry := { r with leases := r.leases + 1 }

def put (r : Registry) (k value : String) (lease : ℕ) : Registry :=
  { r with etcd := Function.update r.etcd k (some ⟨value, lease⟩) }

def rm (r : Registry) (k : String) : Registry := { r with etcd := Function.update r.etcd k none }

/-- A lease is revoked or expires: the keys that were put under it go. -/
def dropLease (r : Registry) (lease : ℕ) : Registry :=
  { r with etcd := fun k => (r.etcd k).filter (·.lease ≠ lease) }

def setex (r : Registry) (k value : String) : Registry :=
  { r with redis := Function.update r.redis k (some value) }

/-- `del`, or the entry expires. -/
def del (r : Registry) (k : String) : Registry := { r with redis := Function.update r.redis k none }

end Registry

/-! ## Requests -/

structure RegisterServiceReq where
  service : String := ""
  ipport : List String := []
  methods : List String := []
deriving DecidableEq, Repr

structure UnregisterServiceReq where
  service : String := ""
deriving DecidableEq, Repr

structure GetServiceReq where
  service : String := ""
deriving DecidableEq, Repr

/-- `RegisterServiceResp`, `UnregisterServiceResp`. -/
structure Resp where
  success : Bool := false
  error : String := ""
deriving DecidableEq, Repr

structure GetServiceResp where
  registered : Bool := false
  service : String := ""
  ipport : List String := []
  methods : List String := []
deriving DecidableEq, Repr

/-- How the calls of etcd end in `RegisterService`. -/
inductive EtcdAnswer where
  | ok
  | leasegrantFails (errorCode : ℤ) (errorMessage : String)
  /-- `put` may be applied nevertheless, and `leaserevoke` is not checked -/
  | putFails (errorCode : ℤ) (errorMessage : String) (applied revoked : Bool)
  /-- the constructor of `etcd::KeepAlive` throws -/
  | keepAliveThrows
deriving DecidableEq, Repr

/-- How the synchronous part of `RegisterService` ends. -/
inductive Handled where
  | finish (response : Resp)
  | throws
  /-- the coroutine that writes to Redis is spawned -/
  | spawn
deriving DecidableEq, Repr

namespace Registry

/-- `RegisterService`, up to `co_spawn`. -/
def registerService (r : Registry) (request : RegisterServiceReq) : EtcdAnswer → Registry × Handled
  | .leasegrantFails errorCode errorMessage =>
    (r, .finish ⟨false, "创建租约失败: error_code: " ++ toString errorCode ++
      ", error_message: " ++ errorMessage⟩)
  | .putFails errorCode errorMessage applied revoked =>
    let granted := r.leasegrant
    let tried := if applied then
      granted.put (key request.service) (serializeVector request.ipport) r.leases else granted
    (if revoked then tried.dropLease r.leases else tried,
      .finish ⟨false, "注册服务节点失败: error_code: " ++ toString errorCode ++
        ", error_message: " ++ errorMessage⟩)
  | .keepAliveThrows =>
    (r.leasegrant.put (key request.service) (serializeVector request.ipport) r.leases, .throws)
  | .ok =>
    ({ r.leasegrant.put (key request.service) (serializeVector request.ipport) r.leases with
        keepAlive := some r.leases }, .spawn)

/-- **A registration leaves the keys of other services alone**, whatever etcd
    answers. -/
theorem registerService_etcd_other {r : Registry} {request : RegisterServiceReq} {answer : EtcdAnswer}
    {service : String} {entry : Entry} (hne : service ≠ request.service)
    (he : r.etcd (key service) = some entry) (hold : entry.lease < r.leases) :
    (r.registerService request answer).1.etcd (key service) = some entry := by
  have hkey : key service ≠ key request.service := fun h => hne (key_inj.1 h)
  cases answer with
  | leasegrantFails => exact he
  | putFails errorCode errorMessage applied revoked =>
    have hput : ∀ value, (r.leasegrant.put (key request.service) value r.leases).etcd (key service) = some entry := by
      intro value
      simp only [put, leasegrant, Function.update_of_ne hkey]
      exact he
    have hdrop : ∀ r' : Registry, r'.etcd (key service) = some entry →
        (r'.dropLease r.leases).etcd (key service) = some entry := by
      intro r' h'
      simp only [dropLease, h', Option.filter_some, decide_eq_true (Nat.ne_of_lt hold), if_true]
    cases applied <;> cases revoked
    · exact he
    · exact hdrop _ he
    · exact hput _
    · exact hdrop _ (hput _)
  | keepAliveThrows | ok =>
    simp only [registerService, put, leasegrant, Function.update_of_ne hkey]
    exact he

/-- Only a registration that goes well replaces the `KeepAlive`. -/
theorem registerService_keepAlive {r : Registry} {request : RegisterServiceReq} {answer : EtcdAnswer}
    (h : answer ≠ .ok) : (r.registerService request answer).1.keepAlive = r.keepAlive := by
  cases answer with
  | ok => exact absurd rfl h
  | leasegrantFails | keepAliveThrows => rfl
  | putFails errorCode errorMessage applied revoked => cases applied <;> cases revoked <;> rfl

theorem registerService_leases (r : Registry) (request : RegisterServiceReq) (answer : EtcdAnswer) :
    r.leases ≤ (r.registerService request answer).1.leases := by
  cases answer with
  | leasegrantFails => exact le_rfl
  | putFails errorCode errorMessage applied revoked =>
    cases applied <;> cases revoked <;> exact Nat.le_succ _
  | keepAliveThrows | ok => exact Nat.le_succ _

/-- The coroutine of `RegisterService`; a write that fails may be applied. -/
def finishRegister (r : Registry) (request : RegisterServiceReq) (ok applied : Bool) : Registry × Resp :=
  if ok then (r.setex (key request.service) (serializeVector request.methods), ⟨true, ""⟩)
  else
    (if applied then r.setex (key request.service) (serializeVector request.methods) else r,
      ⟨false, "存入redis失败"⟩)

/-- `UnregisterService`, up to `co_spawn`; a failure of `rm` is only logged. -/
def unregisterService (r : Registry) (request : UnregisterServiceReq) (removed : Bool) : Registry :=
  if removed then r.rm (key request.service) else r

/-- Its coroutine; a failure of `del` is only logged. -/
def finishUnregister (r : Registry) (request : UnregisterServiceReq) (deleted : Bool) : Registry × Resp :=
  (if deleted then r.del (key request.service) else r, ⟨true, ""⟩)

/-- `GetService`, when etcd and Redis answer. -/
def getService (r : Registry) (request : GetServiceReq) : GetServiceResp where
  registered := (r.etcd (key request.service)).isSome
  service := request.service
  ipport := match r.etcd (key request.service) with
    | some entry => deserializeVector entry.value
    | none => []
  methods := match r.redis (key request.service) with
    | some value => deserializeVector value
    | none => []

/-- **A service that has registered is found** under its addresses and methods. -/
theorem getService_registered (r : Registry) (request : RegisterServiceReq)
    (hip : ∀ s ∈ request.ipport, s ≠ "" ∧ ',' ∉ s.toList)
    (hmethods : ∀ s ∈ request.methods, s ≠ "" ∧ ',' ∉ s.toList) :
    ((r.registerService request .ok).1.finishRegister request true true).1.getService ⟨request.service⟩ =
      ⟨true, request.service, request.ipport, request.methods⟩ := by
  have hi := deserialize_serialize (fun s hs => (hip s hs).1) (fun s hs => (hip s hs).2)
  have hm := deserialize_serialize (fun s hs => (hmethods s hs).1) (fun s hs => (hmethods s hs).2)
  simp [getService, finishRegister, registerService, setex, put, leasegrant, hi, hm]

end Registry

end ApeServer.Backbon
