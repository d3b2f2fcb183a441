/-
  The connectors of Redis, MySQL and MongoDB (`src/storage/*connector.cpp`).

  Each of them has a pool of workers with one resource for every worker (a
  connection, a connection pool, a client pool), and picks them in turn:
  `next_idx` takes the remainder of a signed 32-bit counter that is never
  reset.  Once the counter has wrapped around, the remainder can be negative.

  * `step` is a connector that is started, stopped and asked for indices;
  * `Trace.counter`: the counter is the number of calls;
  * `nextIdx_safe`: an index is in range exactly if the counter is not negative
    or a multiple of the pool size;
  * `nextWorker_range`: the index that `WebServer::listener` keeps is in range.
-/
import ApeServer.Lib.Run

namespace ApeServer.Storage

/-! ## Connectors -/

/-- `RedisConnector`, `MySQLConnector`, `MongoConnector`. -/
inductive Kind where
  | redis | mysql | mongo
deriving DecidableEq, Repr

/-- What the three have in common: the number of workers of `_iocPool`, and
    `_connections`, `_pools` or `_mongoPools`. -/
structure Connector (ρ : Type) where
  workers : ℕ := 0
  resources : List ρ := []
  nextIdx : Int32 := 0
  poolSize : Int32 := 0
  running : Bool := false

section
variable {ρ : Type}

namespace Connector

/-- `start`; `made i` is the resource of worker `i`. -/
def start (kind : Kind) (c : Connector ρ) (n : Int32) (made : ℕ → ρ) : Connector ρ :=
  if c.running then c
  else
    let new := (List.range n.toInt.toNat).map made
    { c with
      workers := n.toInt.toNat
      -- `resize` of a vector that `stop` has cleared, or `emplace_back`
      resources := if kind = .mongo then c.resources ++ new else new
      poolSize := n
      running := true }

/-- `MongoConnector::start` throws after it has made some of its pools. -/
def startThrows (c : Connector ρ) (n : Int32) (made : ℕ → ρ) (created : ℕ) : Connector ρ :=
  if c.running then c
  else
    { c with
      workers := n.toInt.toNat
      resources := c.resources ++ (List.range (min created n.toInt.toNat)).map made
      poolSize := n }

def stop (c : Connector ρ) : Connector ρ :=
  if c.running then { c with resources := [], poolSize := 0, running := false } else c

/-- The index that `next_idx` returns. -/
def idx (c : Connector ρ) : Int32 := c.nextIdx % c.poolSize

/-- `operator[]` takes a `size_t`. -/
def subscript (i : Int32) : ℕ := (i.toInt % 2 ^ 64).toNat

/-- The next index is in range, and so are the accesses with it. -/
structure Safe (c : Connector ρ) : Prop where
  range : 0 ≤ c.idx ∧ c.idx < c.poolSize
  worker : subscript c.idx < c.workers
  resource : subscript c.idx < c.resources.length

end Connector

inductive Action (ρ : Type) where
  | start (n : Int32) (made : ℕ → ρ)
  | startThrows (n : Int32) (made : ℕ → ρ) (created : ℕ)
  | stop
  | nextIdx

/-- One step; a call of `next_idx` outputs its index.  Pool sizes are positive,
    and nothing is asked of a connector without a pool. -/
def step (kind : Kind) (c : Connector ρ) : Action ρ → Option (Connector ρ × List Int32)
  | .start n made => if 0 < n then some (c.start kind n made, []) else none
  | .startThrows n made created =>
    if kind = .mongo ∧ 0 < n then some (c.startThrows n made created, []) else none
  | .stop => some (c.stop, [])
  | .nextIdx =>
    if c.poolSize = 0 then none else some ({ c with nextIdx := c.nextIdx + 1 }, [c.idx])

/-! ## The pool -/

/-- A running connector has a worker and a resource for every index. -/
structure Connector.Wf (c : Connector ρ) : Prop where
  positive : c.running = true → 0 < c.poolSize
  workers : c.running = true → c.workers = c.poolSize.toInt.toNat
  resources : c.running = true → c.poolSize.toInt.toNat ≤ c.resources.length

variable {kind : Kind} {c c' : Connector ρ} {a : Action ρ} {is : List Int32}

theorem step_wf (h : c.Wf) (hs : step kind c a = some (c', is)) : c'.Wf := by
  cases a with
  | start n made =>
    simp only [step] at hs
    split_ifs at hs with hn
    cases hs
    unfold Connector.start
    split_ifs with hrun hmongo
    · exact h
    · exact ⟨fun _ => hn, fun _ => rfl, fun _ => by simp⟩
    · exact ⟨fun _ => hn, fun _ => rfl, fun _ => by simp⟩
  | startThrows n made created =>
    simp only [step] at hs
    split_ifs at hs
    cases hs
    unfold Connector.startThrows
    split_ifs with hrun
    · exact h
    · exact ⟨fun hr => absurd hr hrun, fun hr => absurd hr hrun, fun hr => absurd hr hrun⟩
  | stop =>
    cases hs
    unfold Connector.stop
    split_ifs
    · exact ⟨by simp, by simp, by simp⟩
    · exact h
  | nextIdx =>
    simp only [step] at hs
    split_ifs at hs
    cases hs
    exact ⟨h.positive, h.workers, h.resources⟩

/-- The counter moves with the calls of `next_idx`. -/
theorem step_counter (hs : step kind c a = some (c', is)) :
    c'.nextIdx = c.nextIdx + Int32.ofNat is.length := by
  cases a with
  | start n made =>
    simp only [step] at hs
    split_ifs at hs
    cases hs
    unfold Connector.start
    split_ifs <;> simp
  | startThrows n made created =>
    simp only [step] at hs
    split_ifs at hs
    cases hs
    unfold Connector.startThrows
    split_ifs <;> simp
  | stop =>
    cases hs
    unfold Connector.stop
    split_ifs <;> simp
  | nextIdx =>
    simp only [step] at hs
    split_ifs at hs
    cases hs
    rfl

/-- The runs of a connector since the process started. -/
abbrev Trace (kind : Kind) (ρ : Type) := Machine.Trace (step kind) ({} : Connector ρ)

/-- How often `next_idx` was called before a state. -/
def calls (T : Trace kind ρ) (i : ℕ) : ℕ := (T.outs 0 i).length

theorem Trace.wf (T : Trace kind ρ) {i : ℕ} (hi : i ≤ T.len) : (T.state i).Wf :=
  T.invariant ⟨by simp, by simp, by simp⟩ (fun _ _ _ _ h hs => step_wf h hs) hi

/-- **The counter is the number of calls**, as far as 32 bits go. -/
theorem Trace.counter (T : Trace kind ρ) {i : ℕ} (hi : i ≤ T.len) :
    (T.state i).nextIdx = Int32.ofNat (calls T i) := by
  induction i with
  | zero =>
    rw [T.start]
    rfl
  | succ i ih =>
    rw [step_counter (T.next i hi), ih (by omega), calls, calls, T.outs_succ (Nat.zero_le i),
      List.length_append, Int32.ofNat_add]

end

/-! ## The index -/

/-- The sign of a remainder is that of the dividend. -/
theorem tmod_nonneg_iff {a n : ℤ} : 0 ≤ a.tmod n ↔ 0 ≤ a ∨ n ∣ a := by
  constructor
  · intro h
    rw [or_iff_not_imp_left]
    intro ha
    have hneg : 0 ≤ (-a).tmod n := Int.tmod_nonneg n (by omega)
    rw [Int.neg_tmod] at hneg
    exact Int.dvd_of_tmod_eq_zero (by omega)
  · rintro (ha | hd)
    · exact Int.tmod_nonneg n ha
    · rw [Int.tmod_eq_zero_of_dvd hd]

/-- The value of a counter that has wrapped around. -/
theorem toInt_counter (calls : ℕ) :
    (Int32.ofNat calls).toInt =
      if calls % 2 ^ 32 < 2 ^ 31 then ((calls % 2 ^ 32 : ℕ) : ℤ) else ((calls % 2 ^ 32 : ℕ) : ℤ) - 2 ^ 32 := by
  rw [Int32.toInt_ofNat', Int.bmod_def, show Int32.size = 2 ^ 32 from rfl]
  split_ifs <;> omega

/-- When the remainder of the counter is not negative. -/
def Upright (calls : ℕ) (n : Int32) : Prop :=
  calls % 2 ^ 32 < 2 ^ 31 ∨ n.toInt ∣ ((calls % 2 ^ 32 : ℕ) : ℤ) - 2 ^ 32

theorem upright_iff {calls : ℕ} {n : Int32} :
    Upright calls n ↔ 0 ≤ (Int32.ofNat calls).toInt.tmod n.toInt := by
  rw [tmod_nonneg_iff, toInt_counter, Upright]
  split_ifs with hlow
  · exact iff_of_true (Or.inl hlow) (Or.inl (Int.natCast_nonneg _))
  · have hneg : ¬ 0 ≤ ((calls % 2 ^ 32 : ℕ) : ℤ) - 2 ^ 32 := by omega
    rw [or_iff_right hlow, or_iff_right hneg]

section
variable {ρ : Type} {kind : Kind}

/-- A running connector is safe exactly if the index is not negative. -/
theorem Connector.Wf.safe_iff {c : Connector ρ} (h : c.Wf) (hrun : c.running = true) :
    c.Safe ↔ 0 ≤ c.nextIdx.toInt.tmod c.poolSize.toInt := by
  have hpos : 0 < c.poolSize.toInt := Int32.lt_iff_toInt_lt.1 (h.positive hrun)
  have hidx : c.idx.toInt = c.nextIdx.toInt.tmod c.poolSize.toInt := Int32.toInt_mod _ _
  have hlt := Int.tmod_lt_of_pos c.nextIdx.toInt hpos
  rw [← hidx] at hlt ⊢
  constructor
  · intro hs
    exact Int32.le_iff_toInt_le.1 hs.range.1
  · intro hnonneg
    have hsub : Connector.subscript c.idx < c.poolSize.toInt.toNat := by
      have := c.idx.toInt_lt
      rw [Connector.subscript, Int.emod_eq_of_lt hnonneg (by omega)]
      omega
    refine ⟨⟨Int32.le_iff_toInt_le.2 hnonneg, Int32.lt_iff_toInt_lt.2 hlt⟩, ?_, ?_⟩
    · rw [h.workers hrun]
      exact hsub
    · exact hsub.trans_le (h.resources hrun)

/-- **Round robin.** In every state of every run of a connector, the next index
    is in range exactly if the calls of `next_idx` so far, as a signed 32-bit
    number, are not negative or a multiple of the pool size. -/
theorem nextIdx_safe (T : Trace kind ρ) {i : ℕ} (hi : i ≤ T.len) (hrun : (T.state i).running = true) :
    (T.state i).Safe ↔ Upright (calls T i) (T.state i).poolSize := by
  have hwf := T.wf hi
  rw [hwf.safe_iff hrun, upright_iff, T.counter hi]

end

/-- A run that starts a connector and then only calls `next_idx`. -/
def rounds (n : Int32) (hn : 0 < n) (count : ℕ) : Trace .redis ℕ where
  len := count + 1
  state := fun
    | 0 => {}
    | i + 1 => { ({} : Connector ℕ).start .redis n id with nextIdx := Int32.ofNat i }
  act := fun
    | 0 => .start n id
    | _ + 1 => .nextIdx
  out := fun
    | 0 => []
    | i + 1 => [Int32.ofNat i % n]
  start := rfl
  next := by
    rintro (_ | i) -
    · exact if_pos hn
    · have hne : n ≠ 0 := (Int32.ne_of_lt hn).symm
      simp only [step, Connector.start, Bool.false_eq_true, if_false, if_neg hne, Int32.ofNat_add]
      rfl

theorem calls_rounds {n : Int32} (hn : 0 < n) {count i : ℕ} : calls (rounds n hn count) (i + 1) = i := by
  induction i with
  | zero => rfl
  | succ i ih =>
    unfold calls at ih ⊢
    rw [Machine.Trace.outs_succ _ (Nat.zero_le _), List.length_append, ih]
    rfl

/-- After 2 ^ 31 + 4 calls the counter is negative, but a multiple of four. -/
theorem nextIdx_safe_wrapped : ((rounds 4 (by decide) (2 ^ 31 + 4)).state (2 ^ 31 + 5)).Safe := by
  have hpos : (0 : Int32) < 4 := by decide
  have hcalls : calls (rounds 4 hpos (2 ^ 31 + 4)) (2 ^ 31 + 5) = 2 ^ 31 + 4 := calls_rounds hpos
  refine (nextIdx_safe (rounds 4 hpos (2 ^ 31 + 4)) (i := 2 ^ 31 + 5) (Nat.le_refl _) rfl).2 ?_
  rw [hcalls]
  change Upright (2 ^ 31 + 4) 4
  exact Or.inr (by decide)

/-- After 2 ^ 31 + 1 calls the index of a pool of four is negative. -/
theorem nextIdx_negative :
    let T := rounds 4 (by decide) (2 ^ 31 + 1)
    (T.state T.len).running = true ∧ ¬ (T.state T.len).Safe := by
  refine ⟨rfl, fun hs => ?_⟩
  have hrange : 0 ≤ Int32.ofNat (2 ^ 31 + 1) % 4 := hs.range.1
  revert hrange
  decide

/-! ## `WebServer::listener` -/

/-- `nextWorker = (nextWorker + 1) % _iocPool.pool_size()`, after some accepted connections. -/
def nextWorker (n : Int32) : ℕ → Int32
  | 0 => 0
  | i + 1 => (nextWorker n i + 1) % n

/-- **The listener keeps the remainder**, and stays in range. -/
theorem nextWorker_range {n : Int32} (hn : 0 < n) (i : ℕ) :
    0 ≤ nextWorker n i ∧ nextWorker n i < n := by
  have hpos : 0 < n.toInt := Int32.lt_iff_toInt_lt.1 hn
  induction i with
  | zero => exact ⟨Int32.le_refl _, hn⟩
  | succ i ih =>
    have hlo : 0 ≤ (nextWorker n i).toInt := Int32.le_iff_toInt_le.1 ih.1
    have hhi : (nextWorker n i).toInt < n.toInt := Int32.lt_iff_toInt_lt.1 ih.2
    have hsum : (nextWorker n i + 1).toInt = (nextWorker n i).toInt + 1 := by
      have := n.toInt_lt
      rw [Int32.toInt_add, show (1 : Int32).toInt = 1 from rfl]
      exact Int.bmod_eq_of_le (by omega) (by omega)
    rw [nextWorker, Int32.le_iff_toInt_le, Int32.lt_iff_toInt_lt, Int32.toInt_mod, hsum]
    exact ⟨Int.tmod_nonneg _ (by omega), Int.tmod_lt_of_pos _ hpos⟩

end ApeServer.Storage
