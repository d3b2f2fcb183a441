/-
  Snowflake ids (`src/util/snowflake.cpp`, `include/util/snowflake.h`).

  A generator reads the system clock, which may go anywhere between two
  readings; the readings are the input, in the order in which they are made.

  * `Snowflake.nextId`: one call, with the wait for the next millisecond as a
    recursion over the readings;
  * `Snowflake.ids_increasing`: the ids of a run increase exactly if the
    reading made after a small step back is not behind the last timestamp;
  * `Snowflake.ids_separate`: two generators keep apart, with ids that carry
    their fields, exactly if the worker and datacenter ids fit their bits.
-/
import ApeServer.Lib.BitField

namespace ApeServer

structure Snowflake where
  workerId : Int64
  datacenterId : Int64
  sequence : Int64
  lastTimestamp : Int64
deriving DecidableEq, Repr

namespace Snowflake

/-- 2024-01-01 00:00:00 UTC, in milliseconds. -/
def EPOCH : Int64 := 1704067200000

def WORKER_ID_BITS : Int64 := 5
def DATACENTER_ID_BITS : Int64 := 5
def SEQUENCE_BITS : Int64 := 12

def MAX_WORKER_ID : Int64 := (1 <<< WORKER_ID_BITS) - 1
def MAX_DATACENTER_ID : Int64 := (1 <<< DATACENTER_ID_BITS) - 1
def MAX_SEQUENCE : Int64 := (1 <<< SEQUENCE_BITS) - 1

def WORKER_ID_SHIFT : Int64 := SEQUENCE_BITS
def DATACENTER_ID_SHIFT : Int64 := WORKER_ID_SHIFT + WORKER_ID_BITS
def TIMESTAMP_SHIFT : Int64 := DATACENTER_ID_SHIFT + DATACENTER_ID_BITS

/-- The constructor. -/
def new (workerId datacenterId : Int64) : Snowflake := ⟨workerId, datacenterId, 0, -1⟩

/-- The static instance and the flag of `init`. -/
structure Instance where
  inst : Snowflake := new 1 1
  initialized : Bool := false

def init (s : Instance) (workerId datacenterId : Int64) : Instance :=
  if s.initialized then s
  else ⟨{ s.inst with workerId := workerId, datacenterId := datacenterId }, true⟩

/-- The id of the current timestamp and sequence number. -/
def id (g : Snowflake) : Int64 :=
  ((g.lastTimestamp - EPOCH) <<< TIMESTAMP_SHIFT) |||
    (g.datacenterId <<< DATACENTER_ID_SHIFT) |||
    (g.workerId <<< WORKER_ID_SHIFT) |||
    g.sequence

/-- A call of `nextId`, with the readings of the clock that it leaves: it
    returns, throws, or still waits when there is no further reading. -/
inductive Call where
  | returned (g : Snowflake) (clock : List Int64)
  | threw (what : String) (clock : List Int64)
  | waiting
deriving DecidableEq, Repr

/-- `while (timestamp <= lastTimestamp_) timestamp = currentMillis();` -/
def waitNextMillis (last : Int64) : Int64 → List Int64 → Option (Int64 × List Int64)
  | timestamp, [] => if timestamp ≤ last then none else some (timestamp, [])
  | timestamp, t :: clock =>
    if timestamp ≤ last then waitNextMillis last t clock else some (timestamp, t :: clock)

/-- `nextId` from the comparison with the last timestamp on. -/
def nextIdAt (g : Snowflake) (timestamp : Int64) (clock : List Int64) : Call :=
  if timestamp = g.lastTimestamp then
    let sequence := (g.sequence + 1) &&& MAX_SEQUENCE
    if sequence = 0 then
      match waitNextMillis g.lastTimestamp timestamp clock with
      | none => .waiting
      | some (t, rest) => .returned { g with sequence := sequence, lastTimestamp := t } rest
    else .returned { g with sequence := sequence, lastTimestamp := timestamp } clock
  else .returned { g with sequence := 0, lastTimestamp := timestamp } clock

def nextId (g : Snowflake) : List Int64 → Call
  | [] => .waiting
  | timestamp :: clock =>
    if timestamp < g.lastTimestamp then
      let offset := g.lastTimestamp - timestamp
      if offset < 100 then
        -- sleeps for `offset + 1` ms and reads the clock once more
        match clock with
        | [] => .waiting
        | t :: rest => g.nextIdAt t rest
      else
        .threw ("Snowflake: clock moved backwards by " ++ toString offset ++
          "ms, refusing to generate id") clock
    else g.nextIdAt timestamp clock

/-- The generator after each of the calls that returned, among the next `n`
    calls. -/
def run : ℕ → Snowflake → List Int64 → List Snowflake
  | 0, _, _ => []
  | n + 1, g, clock =>
    match g.nextId clock with
    | .returned g' rest => g' :: run n g' rest
    | .threw _ rest => run n g rest
    | .waiting => []

/-- The ids that these calls return. -/
def ids (n : ℕ) (g : Snowflake) (clock : List Int64) : List Int64 := (run n g clock).map id

/-! ## One call -/

/-- A larger timestamp, or the next sequence number of the same one. -/
def Advances (g g' : Snowflake) : Prop :=
  g.lastTimestamp.toInt < g'.lastTimestamp.toInt ∨
    g.lastTimestamp = g'.lastTimestamp ∧ g.sequence.toInt < g'.sequence.toInt

/-- The sequence number stays in its 12 bits. -/
def SequenceOk (g : Snowflake) : Prop := 0 ≤ g.sequence.toInt ∧ g.sequence.toInt < 4096

/-- After a small step back, the reading made after the sleep is not behind
    the last timestamp any more. -/
def Settles (g : Snowflake) : List Int64 → Prop
  | timestamp :: t :: _ =>
    timestamp < g.lastTimestamp → g.lastTimestamp - timestamp < 100 → g.lastTimestamp ≤ t
  | _ => True

instance (g : Snowflake) : (clock : List Int64) → Decidable (g.Settles clock)
  | [] => isTrue trivial
  | [_] => isTrue trivial
  | timestamp :: t :: _ => inferInstanceAs
    (Decidable (timestamp < g.lastTimestamp → g.lastTimestamp - timestamp < 100 → g.lastTimestamp ≤ t))

theorem waitNextMillis_spec {last timestamp t : Int64} {clock rest : List Int64}
    (h : waitNextMillis last timestamp clock = some (t, rest)) :
    last < t ∧ t ∈ timestamp :: clock ∧ rest <:+ clock := by
  induction clock generalizing timestamp with
  | nil =>
    simp only [waitNextMillis] at h
    split at h
    · exact absurd h (by simp)
    · next hlt =>
      obtain ⟨rfl, rfl⟩ : timestamp = t ∧ [] = rest := by simpa using h
      exact ⟨Int64.not_le.1 hlt, by simp, List.suffix_refl _⟩
  | cons u clock ih =>
    simp only [waitNextMillis] at h
    split at h
    · obtain ⟨hlt, ht, hr⟩ := ih h
      exact ⟨hlt, List.mem_cons_of_mem _ ht, hr.trans (List.suffix_cons u clock)⟩
    · next hlt =>
      obtain ⟨rfl, rfl⟩ : timestamp = t ∧ u :: clock = rest := by simpa using h
      exact ⟨Int64.not_le.1 hlt, by simp, List.suffix_refl _⟩

theorem toInt_sequence_succ {g : Snowflake} (hg : g.SequenceOk) :
    ((g.sequence + 1) &&& MAX_SEQUENCE).toInt = (g.sequence.toInt + 1) % 4096 := by
  obtain ⟨h0, h1⟩ := hg
  have hs : (g.sequence + 1).toInt = g.sequence.toInt + 1 := by
    rw [Int64.toInt_add]
    exact Int.bmod_eq_of_le_mul_two (by simp; omega) (by simp; omega)
  rw [← Int64.toInt_toBitVec, Int64.toBitVec_and, BitField.toInt_mask (k := 12) (by decide),
    Int64.toInt_toBitVec, hs]
  · rfl
  · rw [Int64.toInt_toBitVec, hs]
    omega

/-- What a generator holds after a call that returned. -/
structure Issued (g g' : Snowflake) (clock rest : List Int64) : Prop where
  workerId : g'.workerId = g.workerId
  datacenterId : g'.datacenterId = g.datacenterId
  reading : g'.lastTimestamp ∈ clock
  suffix : rest <:+ clock
  sequence : g'.SequenceOk
  /-- the pair advances unless the clock was still behind after the sleep -/
  order : (g.Advances g' ∧ g.Settles clock) ∨
    (g'.lastTimestamp.toInt < g.lastTimestamp.toInt ∧ ¬ g.Settles clock)

theorem nextIdAt_spec {g g' : Snowflake} {timestamp : Int64} {clock rest : List Int64}
    (hg : g.SequenceOk) (h : g.nextIdAt timestamp clock = .returned g' rest) :
    g'.workerId = g.workerId ∧ g'.datacenterId = g.datacenterId ∧
      g'.lastTimestamp ∈ timestamp :: clock ∧ rest <:+ clock ∧ g'.SequenceOk ∧
      (g.lastTimestamp ≤ timestamp → g.Advances g') ∧
      (timestamp < g.lastTimestamp → g'.lastTimestamp = timestamp) := by
  have hsucc := toInt_sequence_succ hg
  obtain ⟨h0, h1⟩ := hg
  simp only [nextIdAt] at h
  split at h
  · next heq =>
    split at h
    · next hz =>
      split at h
      · exact absurd h (by simp)
      · next t r hw =>
        obtain ⟨rfl, rfl⟩ : _ = g' ∧ r = rest := by simpa using h
        obtain ⟨hlt, hmem, hsuf⟩ := waitNextMillis_spec hw
        refine ⟨rfl, rfl, hmem, hsuf, ?_, fun _ => .inl (Int64.lt_iff_toInt_lt.1 hlt), fun hlt' => ?_⟩
        · simp [SequenceOk, hz]
        · exact absurd (heq ▸ hlt') Int64.lt_irrefl
    · next hz =>
      obtain ⟨rfl, rfl⟩ : _ = g' ∧ clock = rest := by simpa using h
      have hne : ((g.sequence + 1) &&& MAX_SEQUENCE).toInt ≠ 0 := by
        intro h
        exact hz (Int64.toInt_inj.1 h)
      refine ⟨rfl, rfl, by simp, List.suffix_refl _, ?_, fun _ => .inr ⟨heq.symm, ?_⟩, fun hlt' => ?_⟩
      · dsimp only [SequenceOk]
        omega
      · dsimp only
        omega
      · exact absurd (heq ▸ hlt') Int64.lt_irrefl
  · next hne =>
    obtain ⟨rfl, rfl⟩ : _ = g' ∧ clock = rest := by simpa using h
    refine ⟨rfl, rfl, by simp, List.suffix_refl _, by simp [SequenceOk], fun hle => .inl ?_, fun _ => rfl⟩
    rw [Int64.le_iff_toInt_le] at hle
    have : timestamp.toInt ≠ g.lastTimestamp.toInt := fun h => hne (Int64.toInt_inj.1 h)
    dsimp only
    omega

theorem nextId_spec {g g' : Snowflake} {clock rest : List Int64} (hg : g.SequenceOk)
    (h : g.nextId clock = .returned g' rest) : Issued g g' clock rest := by
  rcases clock with _ | ⟨timestamp, clock⟩
  · exact absurd h (by simp [nextId])
  simp only [nextId] at h
  split at h
  · next hback =>
    split at h
    · next hsmall =>
      -- the clock is read once more
      rcases clock with _ | ⟨t, clock⟩
      · exact absurd h (by simp)
      obtain ⟨hw, hd, hmem, hsuf, hseq, hadv, hbehind⟩ := nextIdAt_spec hg h
      refine ⟨hw, hd, List.mem_cons_of_mem _ hmem, ?_, hseq, ?_⟩
      · exact hsuf.trans ((List.suffix_cons _ _).trans (List.suffix_cons _ _))
      rcases Int64.le_total g.lastTimestamp t with hle | hle
      · exact .inl ⟨hadv hle, fun _ _ => hle⟩
      · rcases Int64.lt_or_eq_of_le hle with hlt | rfl
        · refine .inr ⟨?_, fun hs => ?_⟩
          · rw [hbehind hlt]
            exact Int64.lt_iff_toInt_lt.1 hlt
          · exact absurd (hs hback hsmall) (Int64.not_le.2 hlt)
        · exact .inl ⟨hadv (Int64.le_refl _), fun _ _ => Int64.le_refl _⟩
    · exact absurd h (by simp)
  · next hback =>
    obtain ⟨hw, hd, hmem, hsuf, hseq, hadv, -⟩ := nextIdAt_spec hg h
    refine ⟨hw, hd, hmem, hsuf.trans (List.suffix_cons _ _), hseq, .inl ⟨hadv (Int64.not_lt.1 hback), ?_⟩⟩
    cases clock with
    | nil => exact trivial
    | cons t clock => exact fun h => absurd h hback

/-! ## The layout of an id -/

/-- The bits that name the generator. -/
def node (g : Snowflake) : Int64 :=
  (g.datacenterId <<< DATACENTER_ID_SHIFT) ||| (g.workerId <<< WORKER_ID_SHIFT)

/-- The node bits stay below the timestamp. -/
def NodeFits (g : Snowflake) : Prop := 0 ≤ g.node.toInt ∧ g.node.toInt < 2 ^ 22

/-- A timestamp within 41 bits of the epoch. -/
def NearEpoch (t : Int64) : Prop :=
  -2 ^ 41 ≤ t.toInt - EPOCH.toInt ∧ t.toInt - EPOCH.toInt < 2 ^ 41

theorem node_toBitVec (g : Snowflake) :
    g.node.toBitVec = (g.datacenterId.toBitVec <<< 5 ||| g.workerId.toBitVec) <<< 12 := by
  rw [BitVec.shiftLeft_or_distrib, ← BitVec.shiftLeft_add]
  rfl

theorem id_toBitVec (g : Snowflake) :
    g.id.toBitVec = (g.lastTimestamp - EPOCH).toBitVec <<< 22 |||
      ((g.datacenterId.toBitVec <<< 5 ||| g.workerId.toBitVec) <<< 12 ||| g.sequence.toBitVec) := by
  rw [← node_toBitVec, ← BitVec.or_assoc]
  simp only [node, Int64.toBitVec_or, ← BitVec.or_assoc]
  rfl

theorem toInt_sub_epoch {t : Int64} (h : NearEpoch t) : (t - EPOCH).toInt = t.toInt - EPOCH.toInt := by
  obtain ⟨h1, h2⟩ := h
  rw [Int64.toInt_sub]
  exact Int.bmod_eq_of_le_mul_two (by simp; omega) (by simp; omega)

/-- The fields of an id as an integer. -/
theorem toInt_id {g : Snowflake} (hn : g.NodeFits) (hs : g.SequenceOk) (ht : NearEpoch g.lastTimestamp) :
    g.id.toInt = (g.lastTimestamp.toInt - EPOCH.toInt) * 2 ^ 22 + g.node.toInt + g.sequence.toInt := by
  have hsub := toInt_sub_epoch ht
  obtain ⟨hn0, hn1⟩ := hn
  obtain ⟨hs0, hs1⟩ := hs
  obtain ⟨ht0, ht1⟩ := ht
  have hseq : (g.sequence.toBitVec.toNat : ℤ) = g.sequence.toInt := BitField.toNat_of_nonneg hs0
  have hnode : (g.node.toBitVec.toNat : ℤ) = g.node.toInt := BitField.toNat_of_nonneg hn0
  have hlt : g.sequence.toBitVec.toNat < 2 ^ 12 := by omega
  -- the node bits are a multiple of 2^12, so the sequence number goes below them
  have hlow := BitField.toNat_pack (x := g.datacenterId.toBitVec <<< 5 ||| g.workerId.toBitVec)
    (k := 12) (by norm_num) hlt
  have hz := BitField.toNat_pack (x := g.datacenterId.toBitVec <<< 5 ||| g.workerId.toBitVec)
    (y := 0#64) (k := 12) (by norm_num) (by norm_num)
  rw [BitVec.or_zero, ← node_toBitVec] at hz
  simp only [BitVec.toNat_ofNat, Nat.zero_mod, Nat.add_zero] at hz
  rw [← hz] at hlow
  rw [← Int64.toInt_toBitVec, id_toBitVec, BitField.toInt_pack (by norm_num), hlow]
  · push_cast
    rw [hnode, hseq, Int64.toInt_toBitVec, hsub]
    ring
  · rw [hlow]
    omega
  · rw [Int64.toInt_toBitVec, hsub]
    exact ht0
  · rw [Int64.toInt_toBitVec, hsub]
    exact ht1

theorem node_eq {g g' : Snowflake} (hw : g'.workerId = g.workerId)
    (hd : g'.datacenterId = g.datacenterId) : g'.node = g.node := by
  simp only [node, hw, hd]

section Order

variable {g g' : Snowflake} (hn : g.NodeFits) (hs : g.SequenceOk) (ht : NearEpoch g.lastTimestamp)
  (hn' : g'.node = g.node) (hs' : g'.SequenceOk) (ht' : NearEpoch g'.lastTimestamp)

include hn hs ht hn' hs' ht'

/-- The ids of one generator are ordered by timestamp, then by sequence
    number. -/
theorem id_lt_of_advances (h : g.Advances g') : g.id < g'.id := by
  rw [Int64.lt_iff_toInt_lt, toInt_id hn hs ht, toInt_id (by rwa [NodeFits, hn']) hs' ht', hn']
  obtain ⟨hs0, hs1⟩ := hs
  obtain ⟨hs0', hs1'⟩ := hs'
  rcases h with h | ⟨h, hlt⟩
  · omega
  · rw [h]
    omega

theorem id_lt_of_behind (h : g'.lastTimestamp.toInt < g.lastTimestamp.toInt) : g'.id < g.id := by
  rw [Int64.lt_iff_toInt_lt, toInt_id hn hs ht, toInt_id (by rwa [NodeFits, hn']) hs' ht', hn']
  obtain ⟨hs0, hs1⟩ := hs
  obtain ⟨hs0', hs1'⟩ := hs'
  omega

end Order

/-! ## Runs -/

/-- Every small step back that an id was issued before settles. -/
def Settled : ℕ → Bool → Snowflake → List Int64 → Prop
  | 0, _, _, _ => True
  | n + 1, issued, g, clock =>
    (issued = true → g.Settles clock) ∧
      match g.nextId clock with
      | .returned g' rest => Settled n true g' rest
      | .threw _ rest => Settled n issued g rest
      | .waiting => True

instance decidableSettled : (n : ℕ) → (issued : Bool) → (g : Snowflake) → (clock : List Int64) →
    Decidable (Settled n issued g clock)
  | 0, _, _, _ => isTrue trivial
  | n + 1, issued, g, clock =>
    have : Decidable (match g.nextId clock with
        | .returned g' rest => Settled n true g' rest
        | .threw _ rest => Settled n issued g rest
        | .waiting => True) :=
      match g.nextId clock with
      | .returned g' rest => decidableSettled n true g' rest
      | .threw _ rest => decidableSettled n issued g rest
      | .waiting => isTrue trivial
    instDecidableAnd

/-- A call that does not return met no small step back, or one that settled. -/
theorem settles_of_not_returned {g : Snowflake} {clock : List Int64}
    (h : ∀ g' rest, g.nextId clock ≠ .returned g' rest) : g.Settles clock := by
  rcases clock with _ | ⟨timestamp, _ | ⟨t, clock⟩⟩
  · exact trivial
  · exact trivial
  intro hback hsmall
  by_contra hlt
  have hlt := Int64.not_le.1 hlt
  refine h { g with sequence := 0, lastTimestamp := t } clock ?_
  have hne : t ≠ g.lastTimestamp := by
    rintro rfl
    exact Int64.lt_irrefl hlt
  simp only [nextId, hback, hsmall, nextIdAt, hne, ↓reduceIte]

theorem nextId_threw_suffix {g : Snowflake} {clock rest : List Int64} {what : String}
    (h : g.nextId clock = .threw what rest) : rest <:+ clock := by
  rcases clock with _ | ⟨timestamp, clock⟩
  · exact absurd h (by simp [nextId])
  have hat : ∀ t c, g.nextIdAt t c ≠ .threw what rest := by
    intro t c h
    simp only [nextIdAt] at h
    split at h
    · split at h
      · split at h <;> exact absurd h (by simp)
      · exact absurd h (by simp)
    · exact absurd h (by simp)
  simp only [nextId] at h
  split at h
  · split at h
    · split at h
      · exact absurd h (by simp)
      · exact absurd h (hat _ _)
    · obtain ⟨-, rfl⟩ : _ = what ∧ clock = rest := by simpa using h
      exact List.suffix_cons _ _
  · exact absurd h (hat _ _)

/-- What holds of a generator in every run, with readings of which `P` holds. -/
structure Made (g g' : Snowflake) (P : Int64 → Prop) : Prop where
  workerId : g'.workerId = g.workerId
  datacenterId : g'.datacenterId = g.datacenterId
  sequence : g'.SequenceOk
  reading : P g'.lastTimestamp

theorem run_spec {P : Int64 → Prop} (n : ℕ) {g : Snowflake} {clock : List Int64} (hg : g.SequenceOk)
    (hc : ∀ t ∈ clock, P t) : ∀ g' ∈ run n g clock, Made g g' P := by
  induction n generalizing g clock with
  | zero => simp [run]
  | succ n ih =>
    intro g' hg'
    simp only [run] at hg'
    split at hg'
    · next g₁ rest h =>
      have hi := nextId_spec hg h
      have hrest : ∀ t ∈ rest, P t := fun t ht => hc t (hi.suffix.subset ht)
      rcases List.mem_cons.1 hg' with rfl | hg'
      · exact ⟨hi.workerId, hi.datacenterId, hi.sequence, hc _ hi.reading⟩
      · have := ih hi.sequence hrest g' hg'
        exact ⟨this.workerId.trans hi.workerId, this.datacenterId.trans hi.datacenterId,
          this.sequence, this.reading⟩
    · next what rest h =>
      exact ih hg (fun t ht => hc t ((nextId_threw_suffix h).subset ht)) g' hg'
    · exact absurd hg' (by simp)

/-- From the last id on, the ids increase as long as the steps back settle. -/
theorem chain_iff_settled (n : ℕ) {g : Snowflake} {clock : List Int64} (hn : g.NodeFits)
    (hs : g.SequenceOk) (ht : NearEpoch g.lastTimestamp) (hc : ∀ t ∈ clock, NearEpoch t) :
    (g.id :: ids n g clock).IsChain (· < ·) ↔ Settled n true g clock := by
  induction n generalizing g clock with
  | zero => simp [ids, run, Settled]
  | succ n ih =>
    simp only [ids, run, Settled]
    split
    · next g' rest h =>
      have hi := nextId_spec hs h
      have hnode := node_eq hi.workerId hi.datacenterId
      have ht' := hc _ hi.reading
      have hrest : ∀ t ∈ rest, NearEpoch t := fun t ht => hc t (hi.suffix.subset ht)
      have hih := ih (by rwa [NodeFits, hnode]) hi.sequence ht' hrest
      rw [List.map_cons, List.isChain_cons_cons, ← ids, hih]
      refine and_congr_left fun _ => ?_
      rcases hi.order with ⟨hadv, hset⟩ | ⟨hlt, hset⟩
      · simp [hset, id_lt_of_advances hn hs ht hnode hi.sequence ht' hadv]
      · have := id_lt_of_behind hn hs ht hnode hi.sequence ht' hlt
        simp [hset, Int64.lt_asymm this]
    · next what rest h =>
      have hset : g.Settles clock := settles_of_not_returned (by simp [h])
      rw [← ids, ih hn hs ht fun t ht => hc t ((nextId_threw_suffix h).subset ht)]
      simp [hset]
    · next h =>
      have hset : g.Settles clock := settles_of_not_returned (by simp [h])
      simp [hset]

/-- Before the first id nothing is compared. -/
theorem chain_iff_settled_new (n : ℕ) {g : Snowflake} {clock : List Int64} (hn : g.NodeFits)
    (hs : g.SequenceOk) (hc : ∀ t ∈ clock, NearEpoch t) :
    (ids n g clock).IsChain (· < ·) ↔ Settled n false g clock := by
  induction n generalizing clock with
  | zero => simp [ids, run, Settled]
  | succ n ih =>
    simp only [ids, run, Settled]
    split
    · next g' rest h =>
      have hi := nextId_spec hs h
      have hrest : ∀ t ∈ rest, NearEpoch t := fun t ht => hc t (hi.suffix.subset ht)
      have hnode := node_eq hi.workerId hi.datacenterId
      have := chain_iff_settled n (g := g') (by rwa [NodeFits, hnode]) hi.sequence (hc _ hi.reading) hrest
      rw [List.map_cons, ← ids, this]
      simp
    · next what rest h =>
      rw [← ids, ih fun t ht => hc t ((nextId_threw_suffix h).subset ht)]
      simp
    · simp

/-- **Increasing ids**: with readings near the epoch and node bits below the
    timestamp, the ids of a run increase exactly if no small step back is
    followed by a reading still behind. -/
theorem ids_increasing (workerId datacenterId : Int64) (n : ℕ) (clock : List Int64)
    (hn : (new workerId datacenterId).NodeFits) (hc : ∀ t ∈ clock, NearEpoch t) :
    (ids n (new workerId datacenterId) clock).Pairwise (· < ·) ↔
      Settled n false (new workerId datacenterId) clock := by
  have : Trans (fun a b : Int64 => a < b) (fun a b : Int64 => a < b) (fun a b : Int64 => a < b) :=
    ⟨Int64.lt_trans⟩
  rw [← List.isChain_iff_pairwise, chain_iff_settled_new n hn (by simp [new, SequenceOk]) hc]

/-- Two ticks, and a second one after a step back of 50 ms that settles. -/
theorem ids_increasing_settled :
    (ids 3 (new 1 1) [1704067201000, 1704067200950, 1704067201001, 1704067201001]).Pairwise (· < ·) := by
  refine (ids_increasing 1 1 3 _ ⟨by decide, by decide⟩ ?_).2 (by decide +kernel)
  intro t ht
  fin_cases ht <;> exact ⟨by decide, by decide⟩

/-- The clock reads 1000, 999 (a step back, and again 999 after the sleep) and
    1000 ms: the first id is returned a second time. -/
theorem repeats_after_step_back :
    ¬ ∀ (n : ℕ) (clock : List Int64), (ids n (new 1 1) clock).Pairwise (· < ·) ∧ (ids n (new 1 1) clock).Nodup := by
  intro h
  have h3 := h 3 [1704067201000, 1704067200999, 1704067200999, 1704067201000]
  exact absurd h3.2 (by decide +kernel)

/-! ## Two generators -/

/-- The fields of an id: `timestamp(41) | datacenter(5) | worker(5) |
    sequence(12)`. -/
structure Layout where
  timestamp : ℤ
  datacenterId : ℤ
  workerId : ℤ
  sequence : ℤ
deriving DecidableEq, Repr

def Layout.ofId (x : Int64) : Layout where
  timestamp := x.toInt / 2 ^ 22 + EPOCH.toInt
  datacenterId := x.toInt / 2 ^ 17 % 2 ^ 5
  workerId := x.toInt / 2 ^ 12 % 2 ^ 5
  sequence := x.toInt % 2 ^ 12

def layout (g : Snowflake) : Layout :=
  ⟨g.lastTimestamp.toInt, g.datacenterId.toInt, g.workerId.toInt, g.sequence.toInt⟩

/-- The ids stay within the declared `MAX_WORKER_ID` and `MAX_DATACENTER_ID`. -/
def InRange (g : Snowflake) : Prop :=
  (0 ≤ g.workerId ∧ g.workerId ≤ MAX_WORKER_ID) ∧
    (0 ≤ g.datacenterId ∧ g.datacenterId ≤ MAX_DATACENTER_ID)

instance (g : Snowflake) : Decidable g.InRange := by unfold InRange; infer_instance

/-- From one millisecond to 41 bits after the epoch. -/
def AfterEpoch (t : Int64) : Prop :=
  EPOCH.toInt < t.toInt ∧ t.toInt < EPOCH.toInt + 2 ^ 41

/-- In every run the ids of `g` are positive and carry their fields. -/
def Recoverable (g : Snowflake) : Prop :=
  ∀ (n : ℕ) (clock : List Int64), (∀ t ∈ clock, AfterEpoch t) →
    ∀ g' ∈ run n g clock, 0 < g'.id ∧ Layout.ofId g'.id = g'.layout

/-- In all runs of `a` and `b` no id of one is an id of the other. -/
def Disjoint (a b : Snowflake) : Prop :=
  ∀ (n m : ℕ) (clock clock' : List Int64), (∀ t ∈ clock, AfterEpoch t) → (∀ t ∈ clock', AfterEpoch t) →
    ∀ x ∈ ids n a clock, ∀ y ∈ ids m b clock', x ≠ y

theorem AfterEpoch.near {t : Int64} (h : AfterEpoch t) : NearEpoch t := by
  obtain ⟨h1, h2⟩ := h
  constructor <;> omega

/-- The node bits of a generator in range are its two ids side by side. -/
theorem toInt_node {g : Snowflake} (hg : g.InRange) :
    g.node.toInt = g.datacenterId.toInt * 2 ^ 17 + g.workerId.toInt * 2 ^ 12 := by
  obtain ⟨⟨hw0, hw1⟩, hd0, hd1⟩ := hg
  have hmw : MAX_WORKER_ID.toInt = 31 := by decide
  have hmd : MAX_DATACENTER_ID.toInt = 31 := by decide
  rw [Int64.le_iff_toInt_le, Int64.toInt_zero] at hw0 hd0
  rw [Int64.le_iff_toInt_le] at hw1 hd1
  have hw : (g.workerId.toBitVec.toNat : ℤ) = g.workerId.toInt := BitField.toNat_of_nonneg hw0
  have hlow : (g.datacenterId.toBitVec <<< 5 ||| g.workerId.toBitVec).toInt =
      g.datacenterId.toInt * 2 ^ 5 + g.workerId.toInt := by
    rw [BitField.toInt_pack (by norm_num) (by omega), hw, Int64.toInt_toBitVec]
    · rw [Int64.toInt_toBitVec]
      omega
    · rw [Int64.toInt_toBitVec]
      omega
  have h12 := BitField.toInt_pack (x := g.datacenterId.toBitVec <<< 5 ||| g.workerId.toBitVec)
    (y := 0#64) (k := 12) (by norm_num) (by norm_num) (by rw [hlow]; omega) (by rw [hlow]; omega)
  rw [BitVec.or_zero, ← node_toBitVec, hlow, Int64.toInt_toBitVec] at h12
  rw [h12]
  simp only [BitVec.toNat_ofNat, Nat.zero_mod, Nat.cast_zero]
  ring

theorem InRange.nodeFits {g : Snowflake} (hg : g.InRange) : g.NodeFits := by
  have hmw : MAX_WORKER_ID.toInt = 31 := by decide
  have hmd : MAX_DATACENTER_ID.toInt = 31 := by decide
  have hnode := toInt_node hg
  obtain ⟨⟨hw0, hw1⟩, hd0, hd1⟩ := hg
  rw [Int64.le_iff_toInt_le, Int64.toInt_zero] at hw0 hd0
  rw [Int64.le_iff_toInt_le] at hw1 hd1
  constructor <;> omega

/-- The fields of an id are recovered from it. -/
theorem layout_ofId {g : Snowflake} (hg : g.InRange) (hs : g.SequenceOk) (ht : AfterEpoch g.lastTimestamp) :
    0 < g.id ∧ Layout.ofId g.id = g.layout := by
  have hid := toInt_id hg.nodeFits hs ht.near
  have hmw : MAX_WORKER_ID.toInt = 31 := by decide
  have hmd : MAX_DATACENTER_ID.toInt = 31 := by decide
  rw [toInt_node hg] at hid
  obtain ⟨⟨hw0, hw1⟩, hd0, hd1⟩ := hg
  obtain ⟨hs0, hs1⟩ := hs
  obtain ⟨ht0, ht1⟩ := ht
  rw [Int64.le_iff_toInt_le, Int64.toInt_zero] at hw0 hd0
  rw [Int64.le_iff_toInt_le] at hw1 hd1
  constructor
  · rw [Int64.lt_iff_toInt_lt, Int64.toInt_zero, hid]
    omega
  · simp only [Layout.ofId, layout, hid, Layout.mk.injEq]
    refine ⟨?_, ?_, ?_, ?_⟩ <;> omega

theorem recoverable_of_inRange {g : Snowflake} (hg : g.InRange) (hs : g.SequenceOk) : Recoverable g := by
  intro n clock hc g' hg'
  obtain ⟨hw, hd, hs', ht⟩ := run_spec n hs hc g' hg'
  exact layout_ofId (by rwa [InRange, hw, hd]) hs' ht

/-- A single id already shows when a field does not fit. -/
theorem inRange_of_recoverable {workerId datacenterId : Int64}
    (h : Recoverable (new workerId datacenterId)) : (new workerId datacenterId).InRange := by
  have hmw : MAX_WORKER_ID.toInt = 31 := by decide
  have hmd : MAX_DATACENTER_ID.toInt = 31 := by decide
  have hc : ∀ t ∈ [EPOCH + 1], AfterEpoch t := by
    intro t ht
    obtain rfl := List.mem_singleton.1 ht
    exact ⟨by decide, by decide⟩
  have hrun : run 1 (new workerId datacenterId) [EPOCH + 1] =
      [{ new workerId datacenterId with lastTimestamp := EPOCH + 1 }] := rfl
  obtain ⟨-, hl⟩ := h 1 [EPOCH + 1] hc _ (by rw [hrun]; exact List.mem_singleton_self _)
  simp only [Layout.ofId, layout, Layout.mk.injEq] at hl
  obtain ⟨-, hd, hw, -⟩ := hl
  simp only [InRange, Int64.le_iff_toInt_le, Int64.toInt_zero]
  dsimp only [new] at hd hw ⊢
  omega

/-- Ids that carry their fields differ when the generators do. -/
theorem disjoint_of_recoverable {a b : Snowflake} (ha : Recoverable a) (hb : Recoverable b)
    (hsa : a.SequenceOk) (hsb : b.SequenceOk)
    (hne : (a.workerId, a.datacenterId) ≠ (b.workerId, b.datacenterId)) : Disjoint a b := by
  intro n m clock clock' hc hc' x hx y hy hxy
  obtain ⟨g, hg, rfl⟩ := List.mem_map.1 hx
  obtain ⟨g', hg', rfl⟩ := List.mem_map.1 hy
  obtain ⟨-, hl⟩ := ha n clock hc g hg
  obtain ⟨-, hl'⟩ := hb m clock' hc' g' hg'
  rw [hxy, hl'] at hl
  obtain ⟨-, hd, hw, -⟩ := Layout.mk.inj hl
  have hm := run_spec n hsa hc g hg
  have hm' := run_spec m hsb hc' g' hg'
  rw [hm.datacenterId, hm'.datacenterId] at hd
  rw [hm.workerId, hm'.workerId] at hw
  exact hne (Prod.ext (Int64.toInt_inj.1 hw.symm) (Int64.toInt_inj.1 hd.symm))

/-- A generator set up by `init`. -/
theorem init_inst (workerId datacenterId : Int64) :
    (init {} workerId datacenterId).inst = new workerId datacenterId := rfl

/-- **Generators keep apart** exactly if their worker and datacenter ids are in
    the declared ranges. -/
theorem ids_separate (w d w' d' : Int64) (hne : (w, d) ≠ (w', d')) :
    (Disjoint (init {} w d).inst (init {} w' d').inst ∧
        Recoverable (init {} w d).inst ∧ Recoverable (init {} w' d').inst) ↔
      (init {} w d).inst.InRange ∧ (init {} w' d').inst.InRange := by
  simp only [init_inst]
  constructor
  · rintro ⟨-, hr, hr'⟩
    exact ⟨inRange_of_recoverable hr, inRange_of_recoverable hr'⟩
  · rintro ⟨hi, hi'⟩
    have hs : ∀ w d, (new w d).SequenceOk := fun _ _ => by simp [new, SequenceOk]
    have hr := recoverable_of_inRange hi (hs w d)
    have hr' := recoverable_of_inRange hi' (hs w' d')
    exact ⟨disjoint_of_recoverable hr hr' (hs w d) (hs w' d') hne, hr, hr'⟩

theorem ids_separate_neighbours :
    Disjoint (init {} 1 1).inst (init {} 2 1).inst ∧
      Recoverable (init {} 1 1).inst ∧ Recoverable (init {} 2 1).inst :=
  (ids_separate 1 1 2 1 (by decide)).2 (by decide)

/-- Worker 32 of datacenter 0 issues the ids of worker 0 of datacenter 1. -/
theorem generators_collide :
    ¬ ∀ w d w' d' : Int64, (w, d) ≠ (w', d') → Disjoint (init {} w d).inst (init {} w' d').inst := by
  intro h
  have hc : ∀ t ∈ [EPOCH + 1], AfterEpoch t := by
    intro t ht
    obtain rfl := List.mem_singleton.1 ht
    exact ⟨by decide, by decide⟩
  have hne := h 32 0 0 1 (by decide) 1 1 [EPOCH + 1] [EPOCH + 1] hc hc
  exact hne 4325376 (by decide +kernel) 4325376 (by decide +kernel) rfl

end Snowflake

end ApeServer
