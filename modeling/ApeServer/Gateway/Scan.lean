/-
  The scan of the offline messages at login (`scanOfflineMessages` of
  `src/gateway/ws_session.cpp`).

  The scan reads pages of candidates after a cursor, delivers each message of
  a page, waits until the page is acknowledged, and goes on after its last
  message, up to an empty page.

  * `Scan` is where the scan stands between two of its waits, and
    `Scan.start`, `fetched`, `delivered` and `waited` are what it does then;
  * `ScanWorld` is a scan over a store that changes meanwhile;
  * `offline_scan`: the scan delivers in order and at most once, misses no
    candidate that stays until its turn, and ends.
-/
import ApeServer.Lib.Paging
import ApeServer.Lib.Run
import ApeServer.Stores

namespace ApeServer

open Paging

/-! ## The scan -/

/-- Where `scanOfflineMessages` stands. -/
inductive Scan where
  /-- `fetch(after, batchSize)` -/
  | fetching (after : Int)
  /-- `deliver(message)`, with the rest of the page -/
  | delivering (m : MsgData) (rest : List MsgData)
  /-- `waitOfflineBatch()`, with the next cursor -/
  | waiting (next : Int)
  | returned
  | threw (what : String)
deriving DecidableEq, Repr

/-- `batchSize`. -/
def batchSize : ℕ := 50

namespace Scan

/-- The head of the `while` loop. -/
def loop (disconnected : Bool) (after : Int) : Scan := if disconnected then returned else fetching after

/-- The start. -/
def start (disconnected : Bool) : Scan := loop disconnected 0

/-- The `for` loop over the messages that are left, and what follows it. -/
def page (account : Account) (disconnected : Bool) (next : Int) : List MsgData → Scan
  | [] => waiting next
  | m :: rest =>
    if disconnected then returned
    else if !isSingleMessageFor account m || m.seq ≤ next then
      threw "Invalid offline candidate or sequence order"
    else delivering m rest

/-- `fetch` returns. -/
def fetched (account : Account) (disconnected : Bool) (after : Int) (messages : List MsgData) : Scan :=
  if disconnected then returned
  else if messages = [] then returned
  else if batchSize < messages.length then threw "Offline batch exceeds limit"
  else page account disconnected after messages

/-- `deliver` returns. -/
def delivered (account : Account) (disconnected : Bool) (m : MsgData) (rest : List MsgData) : Scan :=
  page account disconnected m.seq rest

/-- `waitOfflineBatch` returns. -/
def waited (disconnected : Bool) (next : Int) : Scan := loop disconnected next

/-- The call of `deliver` a scan is in. -/
def call : Scan → List MsgData
  | delivering m _ => [m]
  | _ => []

/-- The sequence number is not after what the scan has come to. -/
def Reached (seq : Int) : Scan → Prop
  | fetching after => seq ≤ after
  | delivering m _ => seq ≤ m.seq
  | waiting next => seq ≤ next
  | _ => True

end Scan

/-! ## A store of candidates -/

/-- A message the scan accepts. -/
structure Candidate (account : Account) (m : MsgData) : Prop where
  single : isSingleMessageFor account m = true
  pos : 0 < m.seq

/-- `fetch`: the first candidates after a cursor. -/
def fetchCandidates (store : List MsgData) (after : Int) (limit : ℕ) : List MsgData :=
  (beyond MsgData.seq after store).take limit

structure ScanWorld where
  scan : Scan
  store : List MsgData
deriving DecidableEq, Repr

inductive ScanAction where
  | fetched (messages : List MsgData)
  | delivered
  | waited
  /-- a new candidate is stored -/
  | add (m : MsgData)
  /-- a candidate is acknowledged, or goes for another reason -/
  | remove (m : MsgData)
deriving DecidableEq, Repr

namespace ScanWorld

/-- The scan goes on. -/
def goOn (w : ScanWorld) (scan : Scan) : ScanWorld × List MsgData := ({ w with scan := scan }, scan.call)

/-- A step of the scan or of the store.  The outputs are the calls of
    `deliver`.  The session stays connected. -/
def step (account : Account) (w : ScanWorld) : ScanAction → Option (ScanWorld × List MsgData)
  | .fetched messages =>
    match w.scan with
    | .fetching after => some (w.goOn (.fetched account false after messages))
    | _ => none
  | .delivered =>
    match w.scan with
    | .delivering m rest => some (w.goOn (.delivered account false m rest))
    | _ => none
  | .waited =>
    match w.scan with
    | .waiting next => some (w.goOn (.waited false next))
    | _ => none
  | .add m =>
    if isSingleMessageFor account m && 0 < m.seq && w.store.all (fun m' => m'.seq ≠ m.seq) then
      some ({ w with store := w.store.orderedInsert (fun m m' => m.seq ≤ m'.seq) m }, [])
    else none
  | .remove m => some ({ w with store := w.store.filter (· ≠ m) }, [])

/-- The page is what the store has. -/
def Honest (w : ScanWorld) : ScanAction → Prop
  | .fetched messages => ∀ after, w.scan = .fetching after → messages = fetchCandidates w.store after batchSize
  | _ => True

instance (w : ScanWorld) (a : ScanAction) : Decidable (w.Honest a) :=
  match a, hs : w.scan with
  | .fetched messages, .fetching after =>
    decidable_of_iff (messages = fetchCandidates w.store after batchSize) (by simp [Honest, hs])
  | .fetched _, .delivering _ _ | .fetched _, .waiting _ | .fetched _, .returned | .fetched _, .threw _ =>
    .isTrue (by simp [Honest, hs])
  | .delivered, _ | .waited, _ | .add _, _ | .remove _, _ => .isTrue trivial

end ScanWorld

/-- The steps of the scan. -/
def ScanAction.ofScan : ScanAction → Bool
  | fetched _ | delivered | waited => true
  | _ => false

/-- The steps that add a candidate. -/
def ScanAction.adds : ScanAction → Bool
  | add _ => true
  | _ => false

/-- The runs of a scan over a store. -/
abbrev ScanTrace (account : Account) (store : List MsgData) :=
  Machine.Trace (ScanWorld.step account) ⟨Scan.start false, store⟩

section
variable {account : Account} {w w' : ScanWorld} {a : ScanAction} {es : List MsgData} {s : Scan}

/-! ## What a step does -/

/-- How the scan goes on. -/
inductive ScanMove (account : Account) : ScanAction → Scan → Scan → Prop
  | fetched {after : Int} {messages : List MsgData} :
      ScanMove account (.fetched messages) (.fetching after) (.fetched account false after messages)
  | delivered {m : MsgData} {rest : List MsgData} :
      ScanMove account .delivered (.delivering m rest) (.page account false m.seq rest)
  | waited {next : Int} : ScanMove account .waited (.waiting next) (.fetching next)

/-- How the store changes. -/
inductive StoreMove (account : Account) (store : List MsgData) : ScanAction → List MsgData → Prop
  | add {m : MsgData} (hc : Candidate account m) (hn : ∀ m' ∈ store, m'.seq ≠ m.seq) :
      StoreMove account store (.add m) (store.orderedInsert (fun m m' => m.seq ≤ m'.seq) m)
  | remove {m : MsgData} : StoreMove account store (.remove m) (store.filter (· ≠ m))

/-- **A step** moves the scan or the store. -/
theorem scan_step_cases (h : w.step account a = some (w', es)) :
    (a.ofScan = true ∧ ScanMove account a w.scan w'.scan ∧ w'.store = w.store ∧ es = w'.scan.call) ∨
    (a.ofScan = false ∧ StoreMove account w.store a w'.store ∧ w'.scan = w.scan ∧ es = []) := by
  cases a with
  | fetched messages =>
    simp only [ScanWorld.step] at h
    split at h
    · next after hs =>
      cases h
      exact Or.inl ⟨rfl, by rw [hs]; exact .fetched, rfl, rfl⟩
    · cases h
  | delivered =>
    simp only [ScanWorld.step] at h
    split at h
    · next m rest hs =>
      cases h
      exact Or.inl ⟨rfl, by rw [hs]; exact .delivered, rfl, rfl⟩
    · cases h
  | waited =>
    simp only [ScanWorld.step] at h
    split at h
    · next after hs =>
      cases h
      exact Or.inl ⟨rfl, by rw [hs]; exact .waited, rfl, rfl⟩
    · cases h
  | add m =>
    simp only [ScanWorld.step] at h
    split_ifs at h with hc
    cases h
    simp only [Bool.and_eq_true, decide_eq_true_eq, List.all_eq_true] at hc
    exact Or.inr ⟨rfl, .add ⟨hc.1.1, hc.1.2⟩ hc.2, rfl, rfl⟩
  | remove m =>
    cases h
    exact Or.inr ⟨rfl, .remove, rfl, rfl⟩

/-! ## Order -/

theorem page_reached (account : Account) (next : Int) (messages : List MsgData) :
    (∀ q ≤ next, (Scan.page account false next messages).Reached q) ∧
    ∀ m ∈ (Scan.page account false next messages).call, next < m.seq ∧
      (Scan.page account false next messages).Reached m.seq := by
  cases messages with
  | nil => exact ⟨fun q hq => hq, fun m hm => absurd hm List.not_mem_nil⟩
  | cons m rest =>
    simp only [Scan.page, Bool.false_eq_true, if_false]
    split_ifs with hv
    · exact ⟨fun q _ => trivial, fun m hm => absurd hm List.not_mem_nil⟩
    · simp only [Bool.or_eq_true, decide_eq_true_eq, not_or, not_le] at hv
      refine ⟨fun q hq => hq.trans hv.2.le, fun m' hm' => ?_⟩
      rw [List.mem_singleton.1 hm']
      exact ⟨hv.2, le_rfl⟩

/-- While the session is connected, a page that is fetched ends the scan, is
    too long, or is delivered. -/
theorem fetched_cases (account : Account) (after : Int) (messages : List MsgData) :
    (messages = [] ∧ Scan.fetched account false after messages = .returned) ∨
    (batchSize < messages.length ∧
      Scan.fetched account false after messages = .threw "Offline batch exceeds limit") ∨
    (messages ≠ [] ∧ messages.length ≤ batchSize ∧
      Scan.fetched account false after messages = .page account false after messages) := by
  by_cases hn : messages = []
  · exact Or.inl ⟨hn, by simp [Scan.fetched, hn]⟩
  · by_cases hb : batchSize < messages.length
    · exact Or.inr (Or.inl ⟨hb, by simp [Scan.fetched, hn, hb]⟩)
    · exact Or.inr (Or.inr ⟨hn, not_lt.1 hb, by simp [Scan.fetched, hn, hb]⟩)

/-- The scan only moves forward, and delivers what it had not reached. -/
theorem ScanMove.reached {s' : Scan} (h : ScanMove account a s s') :
    (∀ q, s.Reached q → s'.Reached q) ∧
    ∀ m ∈ s'.call, s'.Reached m.seq ∧ ∀ q, s.Reached q → q < m.seq := by
  cases h with
  | @fetched after messages =>
    rcases fetched_cases account after messages with ⟨-, he⟩ | ⟨-, he⟩ | ⟨-, -, he⟩
    · rw [he]
      exact ⟨fun _ _ => trivial, fun m hm => absurd hm List.not_mem_nil⟩
    · rw [he]
      exact ⟨fun _ _ => trivial, fun m hm => absurd hm List.not_mem_nil⟩
    · rw [he]
      obtain ⟨hr, hc⟩ := page_reached account after messages
      exact ⟨hr, fun m hm => ⟨(hc m hm).2, fun q hq => lt_of_le_of_lt hq (hc m hm).1⟩⟩
  | @delivered m rest =>
    obtain ⟨hr, hc⟩ := page_reached account m.seq rest
    exact ⟨hr, fun m hm => ⟨(hc m hm).2, fun q hq => lt_of_le_of_lt hq (hc m hm).1⟩⟩
  | waited => exact ⟨fun _ hq => hq, fun m hm => absurd hm List.not_mem_nil⟩

theorem scan_order {store : List MsgData} (T : ScanTrace account store) {i j : ℕ} (hij : i < j) (hj : j < T.len)
    {m m' : MsgData} (hm : m ∈ T.out i) (hm' : m' ∈ T.out j) : m.seq < m'.seq := by
  have hreached : ∀ m, T.past j m → (T.state j).scan.Reached m.seq := by
    refine T.history (P := fun w past => ∀ m, past m → w.scan.Reached m.seq) (fun m h => h.elim) ?_ hj.le
    rintro w a w' es past hP hs m hm
    rcases scan_step_cases hs with ⟨-, hmove, -, rfl⟩ | ⟨-, -, hscan, rfl⟩
    · rcases hm with hm | hm
      · exact hmove.reached.1 _ (hP m hm)
      · exact (hmove.reached.2 m hm).1
    · rw [hscan]
      exact hP m (hm.resolve_right List.not_mem_nil)
  rcases scan_step_cases (T.next j hj) with ⟨-, hmove, -, hes⟩ | ⟨-, -, -, hes⟩
  · rw [hes] at hm'
    exact (hmove.reached.2 m' hm').2 _ (hreached m ⟨i, hij, hm⟩)
  · rw [hes] at hm'
    cases hm'

/-- A step delivers at most one message. -/
theorem length_call_le (s : Scan) : s.call.length ≤ 1 := by
  cases s <;> simp [Scan.call]

/-! ## Honest pages -/

/-- The store holds candidates in order. -/
structure StoreOk (account : Account) (store : List MsgData) : Prop where
  ascending : Ascending MsgData.seq store
  candidate : ∀ m ∈ store, Candidate account m

/-- The page is one of candidates in order. -/
def Scan.Ok (account : Account) : Scan → Prop
  | delivering m rest => Ascending MsgData.seq (m :: rest) ∧ ∀ r ∈ rest, isSingleMessageFor account r = true
  | threw _ => False
  | _ => True

theorem StoreMove.ok {store store' : List MsgData} (h : StoreMove account store a store')
    (hs : StoreOk account store) : StoreOk account store' := by
  cases h with
  | @add m hc hn =>
    refine ⟨hs.ascending.insert hn, fun m' hm' => ?_⟩
    rcases (List.mem_orderedInsert _).1 hm' with rfl | hm'
    · exact hc
    · exact hs.candidate m' hm'
  | remove =>
    exact ⟨hs.ascending.filter _, fun m hm => hs.candidate m (List.mem_of_mem_filter hm)⟩

/-- A page in order goes to its first message. -/
theorem page_ok (account : Account) (next : Int) {messages : List MsgData} (ha : Ascending MsgData.seq messages)
    (hv : ∀ m ∈ messages, isSingleMessageFor account m = true ∧ next < m.seq) :
    (Scan.page account false next messages).Ok account ∧
    ((messages = [] ∧ Scan.page account false next messages = .waiting next) ∨
      ∃ m rest, messages = m :: rest ∧ Scan.page account false next messages = .delivering m rest) := by
  cases messages with
  | nil => exact ⟨trivial, Or.inl ⟨rfl, rfl⟩⟩
  | cons m rest =>
    obtain ⟨hs, hlt⟩ := hv m List.mem_cons_self
    have he : Scan.page account false next (m :: rest) = .delivering m rest := by
      simp [Scan.page, hs, hlt]
    rw [he]
    exact ⟨⟨ha, fun r hr => (hv r (List.mem_cons_of_mem _ hr)).1⟩, Or.inr ⟨m, rest, rfl, rfl⟩⟩

/-- What an honest step does to the scan. -/
inductive HonestMove (store : List MsgData) : Scan → Scan → Prop
  | last {after : Int} (h : beyond MsgData.seq after store = []) : HonestMove store (.fetching after) .returned
  | page {after : Int} {m : MsgData} {rest : List MsgData}
      (h : fetchCandidates store after batchSize = m :: rest) :
      HonestMove store (.fetching after) (.delivering m rest)
  | next {m r : MsgData} {rest : List MsgData} : HonestMove store (.delivering m (r :: rest)) (.delivering r rest)
  | done {m : MsgData} : HonestMove store (.delivering m []) (.waiting m.seq)
  | waited {next : Int} : HonestMove store (.waiting next) (.fetching next)

theorem ScanMove.honest {s' : Scan} {store : List MsgData} (h : ScanMove account a s s')
    (hw : ScanWorld.Honest ⟨s, store⟩ a) (hst : StoreOk account store) (hs : s.Ok account) :
    HonestMove store s s' ∧ s'.Ok account := by
  cases h with
  | @fetched after messages =>
    obtain rfl : messages = fetchCandidates store after batchSize := hw after rfl
    have hsub : ∀ m ∈ fetchCandidates store after batchSize, m ∈ store ∧ after < m.seq := by
      intro m hm
      simpa [beyond] using List.mem_of_mem_take hm
    have hasc : Ascending MsgData.seq (fetchCandidates store after batchSize) :=
      (hst.ascending.filter _).sublist (List.take_sublist _ _)
    obtain ⟨hok, hpage⟩ := page_ok account after hasc fun m hm =>
      ⟨(hst.candidate m (hsub m hm).1).single, (hsub m hm).2⟩
    rcases fetched_cases account after (fetchCandidates store after batchSize) with
      ⟨hn, he⟩ | ⟨hb, he⟩ | ⟨hn, -, he⟩
    · rw [he]
      refine ⟨.last ?_, trivial⟩
      simpa [fetchCandidates, batchSize] using hn
    · exact absurd (List.length_take_le _ _) (not_le.2 hb)
    · rw [he]
      refine ⟨?_, hok⟩
      rcases hpage with ⟨hnil, -⟩ | ⟨m, rest, hc, hp⟩
      · exact absurd hnil hn
      · rw [hp]
        exact .page hc
  | @delivered m rest =>
    obtain ⟨hasc, hv⟩ := hs
    obtain ⟨hm, hrest⟩ := List.pairwise_cons.1 hasc
    obtain ⟨hok, hpage⟩ := page_ok account m.seq hrest fun r hr => ⟨hv r hr, hm r hr⟩
    refine ⟨?_, hok⟩
    rcases hpage with ⟨rfl, hp⟩ | ⟨r, rest', rfl, hp⟩
    · rw [hp]
      exact .done
    · rw [hp]
      exact .next
  | waited => exact ⟨.waited, trivial⟩

/-! ## Nothing is missed -/

/-- The message is still to be delivered. -/
def Scan.Ahead (c : MsgData) : Scan → Prop
  | fetching after => after < c.seq
  | delivering m rest => c ∈ rest ∨ ∀ r ∈ m :: rest, r.seq < c.seq
  | waiting next => next < c.seq
  | _ => False

/-- **The scan does not pass a candidate** that is in the store. -/
theorem HonestMove.ahead {s' : Scan} {store : List MsgData} (h : HonestMove store s s')
    (hst : Ascending MsgData.seq store) {c : MsgData} (hc : c ∈ store) (ha : s.Ahead c) :
    c ∈ s'.call ∨ s'.Ahead c := by
  cases h with
  | @last after hn =>
    have hmem : c ∈ beyond MsgData.seq after store := List.mem_filter.2 ⟨hc, decide_eq_true ha⟩
    rw [hn] at hmem
    cases hmem
  | @page after m rest hp =>
    have hmem : c ∈ beyond MsgData.seq after store := List.mem_filter.2 ⟨hc, decide_eq_true ha⟩
    rw [← List.take_append_drop batchSize (beyond MsgData.seq after store)] at hmem
    change c ∈ fetchCandidates store after batchSize ++ _ at hmem
    rw [hp] at hmem
    rcases List.mem_append.1 hmem with hmem | hmem
    · rcases List.mem_cons.1 hmem with rfl | hmem
      · exact Or.inl List.mem_cons_self
      · exact Or.inr (Or.inl hmem)
    · -- it is on a later page
      refine Or.inr (Or.inr fun r hr => ?_)
      have hasc : Ascending MsgData.seq (beyond MsgData.seq after store) := hst.filter _
      rw [← List.take_append_drop batchSize (beyond MsgData.seq after store)] at hasc
      refine (List.pairwise_append.1 hasc).2.2 r ?_ c hmem
      change r ∈ fetchCandidates store after batchSize
      rw [hp]
      exact hr
  | @next m r rest =>
    rcases ha with ha | ha
    · rcases List.mem_cons.1 ha with rfl | ha
      · exact Or.inl List.mem_cons_self
      · exact Or.inr (Or.inl ha)
    · exact Or.inr (Or.inr fun r' hr' => ha r' (List.mem_cons_of_mem _ hr'))
  | @done m =>
    rcases ha with ha | ha
    · cases ha
    · exact Or.inr (ha m List.mem_cons_self)
  | waited => exact Or.inr ha

/-! ## The end -/

/-- The messages that can still be delivered. -/
def ScanWorld.ahead (w : ScanWorld) : Finset MsgData :=
  match w.scan with
  | .fetching after => (beyond MsgData.seq after w.store).toFinset
  | .delivering m rest => rest.toFinset ∪ (beyond MsgData.seq m.seq w.store).toFinset
  | .waiting next => (beyond MsgData.seq next w.store).toFinset
  | _ => ∅

/-- The steps that are left if nothing is added. -/
def ScanWorld.left (w : ScanWorld) : ℕ :=
  match w.scan with
  | .fetching _ => 3 * w.ahead.card + 1
  | .delivering _ _ => 3 * w.ahead.card + 3
  | .waiting _ => 3 * w.ahead.card + 2
  | _ => 0

/-- While `m` is delivered, what is ahead comes after it. -/
theorem card_ahead_delivering {m : MsgData} {rest store : List MsgData}
    (h : (Scan.delivering m rest).Ok account) {B : Finset MsgData} (hm : m ∈ B)
    (hB : ∀ x, m.seq < x.seq → x ∈ rest ∨ x ∈ store → x ∈ B) :
    (ScanWorld.mk (.delivering m rest) store).ahead.card + 1 ≤ B.card := by
  have hsub : (ScanWorld.mk (.delivering m rest) store).ahead ⊆ B.erase m := by
    intro x hx
    have hx' : m.seq < x.seq ∧ (x ∈ rest ∨ x ∈ store) := by
      rcases Finset.mem_union.1 hx with hx | hx
      · have hx := List.mem_toFinset.1 hx
        exact ⟨(List.pairwise_cons.1 h.1).1 x hx, Or.inl hx⟩
      · have hx : x ∈ store ∧ m.seq < x.seq := by simpa [beyond] using List.mem_toFinset.1 hx
        exact ⟨hx.2, Or.inr hx.1⟩
    refine Finset.mem_erase.2 ⟨?_, hB x hx'.1 hx'.2⟩
    rintro rfl
    exact lt_irrefl _ hx'.1
  have := Finset.card_le_card hsub
  rw [Finset.card_erase_of_mem hm] at this
  have := Finset.card_pos.2 ⟨m, hm⟩
  omega

/-- **The scan comes closer to its end.** -/
theorem HonestMove.left_lt {s' : Scan} {store : List MsgData} (h : HonestMove store s s')
    (hs : s.Ok account) (hs' : s'.Ok account) :
    (ScanWorld.mk s' store).left + 1 ≤ (ScanWorld.mk s store).left := by
  cases h with
  | last => simp [ScanWorld.left]
  | @page after m rest hp =>
    have hsub : ∀ r ∈ m :: rest, r ∈ store ∧ after < r.seq := by
      intro r hr
      rw [← hp] at hr
      simpa [beyond] using List.mem_of_mem_take hr
    have hahead : ∀ r, r ∈ (ScanWorld.mk (.fetching after) store).ahead ↔ r ∈ store ∧ after < r.seq := by
      simp [ScanWorld.ahead, beyond]
    have hm := hsub m List.mem_cons_self
    have hcard : (ScanWorld.mk (.delivering m rest) store).ahead.card + 1
        ≤ (ScanWorld.mk (.fetching after) store).ahead.card := by
      refine card_ahead_delivering hs' ((hahead m).2 hm) fun x hlt hx => (hahead x).2 ?_
      rcases hx with hx | hx
      · exact hsub x (List.mem_cons_of_mem _ hx)
      · exact ⟨hx, hm.2.trans hlt⟩
    simp only [ScanWorld.left] at hcard ⊢
    omega
  | @next m r rest =>
    have hlt : m.seq < r.seq := (List.pairwise_cons.1 hs.1).1 r List.mem_cons_self
    have hcard : (ScanWorld.mk (.delivering r rest) store).ahead.card + 1
        ≤ (ScanWorld.mk (.delivering m (r :: rest)) store).ahead.card := by
      refine card_ahead_delivering hs' (by simp [ScanWorld.ahead]) fun x hx hmem => ?_
      rcases hmem with hmem | hmem
      · simp [ScanWorld.ahead, hmem]
      · simp [ScanWorld.ahead, beyond, hmem, hlt.trans hx]
    simp only [ScanWorld.left] at hcard ⊢
    omega
  | done => simp [ScanWorld.left, ScanWorld.ahead]
  | waited => simp [ScanWorld.left, ScanWorld.ahead]

/-- What comes into the store comes to what is ahead. -/
theorem card_ahead_le {store store' : List MsgData} {E : Finset MsgData}
    (h : ∀ x ∈ store', x ∈ E ∨ x ∈ store) (s : Scan) :
    (ScanWorld.mk s store').ahead.card ≤ (ScanWorld.mk s store).ahead.card + E.card := by
  have hbeyond : ∀ c x, x ∈ beyond MsgData.seq c store' → x ∈ E ∨ x ∈ beyond MsgData.seq c store := by
    intro c x hx
    obtain ⟨hx, hc⟩ := List.mem_filter.1 hx
    exact (h x hx).imp_right fun hx => List.mem_filter.2 ⟨hx, hc⟩
  rw [Nat.add_comm]
  refine le_trans (Finset.card_le_card fun x hx => ?_) (Finset.card_union_le E _)
  rw [Finset.mem_union]
  cases s with
  | fetching after => simpa [ScanWorld.ahead] using hbeyond after x (by simpa [ScanWorld.ahead] using hx)
  | waiting next => simpa [ScanWorld.ahead] using hbeyond next x (by simpa [ScanWorld.ahead] using hx)
  | delivering r rest =>
    simp only [ScanWorld.ahead, Finset.mem_union, List.mem_toFinset] at hx ⊢
    rcases hx with hx | hx
    · exact Or.inr (Or.inl hx)
    · exact (hbeyond r.seq x hx).imp_right Or.inr
  | returned | threw => cases hx

theorem left_le_of_card {store store' : List MsgData} {n : ℕ}
    (h : (ScanWorld.mk s store').ahead.card ≤ (ScanWorld.mk s store).ahead.card + n) :
    (ScanWorld.mk s store').left ≤ (ScanWorld.mk s store).left + 3 * n := by
  cases s <;> simp only [ScanWorld.left] at h ⊢ <;> omega

theorem StoreMove.left_le {store store' : List MsgData} (h : StoreMove account store a store') (s : Scan) :
    (ScanWorld.mk s store').left ≤ (ScanWorld.mk s store).left + 3 * if a.adds = true then 1 else 0 := by
  refine left_le_of_card ?_
  cases h with
  | @add m =>
    refine card_ahead_le (E := {m}) (fun x hx => ?_) s
    rw [Finset.mem_singleton]
    exact (List.mem_orderedInsert _).1 hx
  | remove => exact card_ahead_le (E := ∅) (fun x hx => Or.inr (List.mem_of_mem_filter hx)) s

/-! ## Runs -/

/-- Every page of the run is what the store has. -/
def HonestRun {store : List MsgData} (T : ScanTrace account store) : Prop :=
  ∀ i < T.len, (T.state i).Honest (T.act i)

section
variable {store : List MsgData} {T : ScanTrace account store}

theorem honest_trace (hst : StoreOk account store) (hh : HonestRun T) :
    ∀ {i}, i ≤ T.len → StoreOk account (T.state i).store ∧ (T.state i).scan.Ok account := by
  intro i
  induction i with
  | zero =>
    intro _
    rw [T.start]
    exact ⟨hst, trivial⟩
  | succ i ih =>
    intro hi
    obtain ⟨hs, hok⟩ := ih (by omega)
    rcases scan_step_cases (T.next i (by omega)) with ⟨-, hmove, hstore, -⟩ | ⟨-, hmove, hscan, -⟩
    · rw [hstore]
      exact ⟨hs, (hmove.honest (hh i (by omega)) hs hok).2⟩
    · rw [hscan]
      exact ⟨hmove.ok hs, hok⟩

/-- A step of an honest run. -/
theorem honest_step (hst : StoreOk account store) (hh : HonestRun T) {i : ℕ} (hi : i < T.len) :
    ((T.act i).ofScan = true ∧ HonestMove (T.state i).store (T.state i).scan (T.state (i + 1)).scan ∧
      (T.state (i + 1)).store = (T.state i).store ∧ T.out i = (T.state (i + 1)).scan.call) ∨
    ((T.act i).ofScan = false ∧ StoreMove account (T.state i).store (T.act i) (T.state (i + 1)).store ∧
      (T.state (i + 1)).scan = (T.state i).scan) := by
  obtain ⟨hs, hok⟩ := honest_trace hst hh hi.le
  rcases scan_step_cases (T.next i hi) with ⟨ho, hmove, hstore, hout⟩ | ⟨ho, hmove, hscan, -⟩
  · exact Or.inl ⟨ho, (hmove.honest (hh i hi) hs hok).1, hstore, hout⟩
  · exact Or.inr ⟨ho, hmove, hscan⟩

/-- What stays until its turn is delivered or ahead. -/
theorem delivered_or_ahead (hst : StoreOk account store) (hh : HonestRun T) {c : MsgData} {i : ℕ}
    (hi : i ≤ T.len) (hc : ∀ k ≤ i, T.past k c ∨ c ∈ (T.state k).store) :
    T.past i c ∨ (T.state i).scan.Ahead c := by
  induction i with
  | zero =>
    rcases hc 0 le_rfl with hc | hc
    · exact Or.inl hc
    · rw [T.start] at hc ⊢
      exact Or.inr (hst.candidate c hc).pos
  | succ i ih =>
    rw [T.past_succ]
    rcases ih (by omega) fun k hk => hc k (by omega) with hp | ha
    · exact Or.inl (Or.inl hp)
    rcases hc i (by omega) with hp | hmem
    · exact Or.inl (Or.inl hp)
    rcases honest_step hst hh (i := i) (by omega) with ⟨-, hmove, -, hout⟩ | ⟨-, -, hscan⟩
    · rw [hout]
      rcases hmove.ahead (honest_trace hst hh (i := i) (by omega)).1.ascending hmem ha with hcall | ha
      · exact Or.inl (Or.inr hcall)
      · exact Or.inr ha
    · rw [hscan]
      exact Or.inr ha

/-- The number of actions of a kind in the first `i` steps. -/
def countActs (T : ScanTrace account store) (p : ScanAction → Bool) (i : ℕ) : ℕ :=
  Nat.count (fun k => p (T.act k) = true) i

/-- **A step of an honest run** uses up one of the steps that are left, and
    adding a candidate allows for three more. -/
theorem left_step (hst : StoreOk account store) (hh : HonestRun T) {i : ℕ} (hi : i < T.len) :
    (T.state (i + 1)).left + (if (T.act i).ofScan = true then 1 else 0)
      ≤ (T.state i).left + 3 * if (T.act i).adds = true then 1 else 0 := by
  have hok := (honest_trace hst hh hi.le).2
  have hok' := (honest_trace hst hh (i := i + 1) hi).2
  have hstep := honest_step hst hh hi
  generalize T.state i = w at *
  generalize T.state (i + 1) = w' at *
  obtain ⟨s, store⟩ := w
  obtain ⟨s', store'⟩ := w'
  rcases hstep with ⟨ho, hmove, rfl, -⟩ | ⟨ho, hmove, rfl⟩
  · rw [if_pos ho]
    exact (hmove.left_lt hok hok').trans (Nat.le_add_right _ _)
  · rw [ho]
    exact hmove.left_le s'

theorem scan_steps_le (hst : StoreOk account store) (hh : HonestRun T) {i : ℕ} (hi : i ≤ T.len) :
    countActs T ScanAction.ofScan i + (T.state i).left
      ≤ 3 * (store.length + countActs T ScanAction.adds i) + 1 := by
  induction i with
  | zero =>
    rw [T.start]
    have hcard : (ScanWorld.mk (Scan.start false) store).ahead.card ≤ store.length :=
      (List.toFinset_card_le _).trans (List.length_filter_le _ _)
    simp only [countActs, Nat.count_zero]
    change 0 + (3 * (ScanWorld.mk (Scan.start false) store).ahead.card + 1) ≤ _
    omega
  | succ i ih =>
    have ih := ih (by omega)
    have hleft := left_step hst hh (i := i) (by omega)
    simp only [countActs, Nat.count_succ] at ih ⊢
    omega

/-- What the scan has reached is not ahead of it. -/
theorem Scan.Ok.not_ahead {c : MsgData} (hok : s.Ok account) (hr : s.Reached c.seq) : ¬ s.Ahead c := by
  intro ha
  cases s with
  | fetching after => exact absurd ha (not_lt.2 hr)
  | waiting next => exact absurd ha (not_lt.2 hr)
  | delivering m rest =>
    rcases ha with ha | ha
    · exact absurd ((List.pairwise_cons.1 hok.1).1 c ha) (not_lt.2 hr)
    · exact absurd (ha m List.mem_cons_self) (not_lt.2 hr)
  | returned | threw => exact ha

/-- The scan can go on until it has ended. -/
theorem scan_enabled (w : ScanWorld) (hr : w.scan ≠ .returned) (ht : ∀ what, w.scan ≠ .threw what) :
    ∃ a, a.ofScan = true ∧ w.Honest a ∧ (w.step account a).isSome = true := by
  cases hs : w.scan with
  | fetching after =>
    refine ⟨.fetched (fetchCandidates w.store after batchSize), rfl, ?_, by simp [ScanWorld.step, hs]⟩
    intro after' hs'
    rw [hs] at hs'
    cases hs'
    rfl
  | delivering m rest => exact ⟨.delivered, rfl, trivial, by simp [ScanWorld.step, hs]⟩
  | waiting next => exact ⟨.waited, rfl, trivial, by simp [ScanWorld.step, hs]⟩
  | returned => exact absurd hs hr
  | threw what => exact absurd hs (ht what)

/-! ## Bad pages -/

/-- The message is none for the account, or not after the one before it. -/
def BadAfter (account : Account) (before : Int) (bad : MsgData) : Prop :=
  isSingleMessageFor account bad = false ∨ bad.seq ≤ before

/-- A page goes to its first message, or throws. -/
theorem page_bad {next : Int} {good : List MsgData} (rest : List MsgData) {bad : MsgData}
    (hb : BadAfter account (cursor MsgData.seq next good) bad) :
    (∃ what, Scan.page account false next (good ++ bad :: rest) = .threw what) ∨
    ∃ m post, good = m :: post ∧
      Scan.page account false next (good ++ bad :: rest) = .delivering m (post ++ bad :: rest) := by
  cases good with
  | nil =>
    have hc : (!isSingleMessageFor account bad || decide (bad.seq ≤ next)) = true := by
      rcases hb with hb | hb
      · simp [hb]
      · rw [cursor_nil] at hb
        simp [hb]
    exact Or.inl ⟨_, by rw [List.nil_append, Scan.page, if_neg (by simp), if_pos hc]⟩
  | cons m post =>
    rw [List.cons_append]
    by_cases hc : (!isSingleMessageFor account m || decide (m.seq ≤ next)) = true
    · exact Or.inl ⟨_, by rw [Scan.page, if_neg (by simp), if_pos hc]⟩
    · exact Or.inr ⟨m, post, rfl, by rw [Scan.page, if_neg (by simp), if_neg hc]⟩

/-- The scan is at the messages `good` of a page before its bad one, or has
    thrown; `out` are those it delivered. -/
inductive OnBadPage (bad : MsgData) (rest good : List MsgData) : Scan → List MsgData → Prop
  | delivering {m : MsgData} {before post : List MsgData} (hg : good = before ++ m :: post) :
      OnBadPage bad rest good (.delivering m (post ++ bad :: rest)) (before ++ [m])
  | threw {what : String} {out : List MsgData} (h : out <+: good) : OnBadPage bad rest good (.threw what) out

theorem OnBadPage.step {after : Int} {good rest out : List MsgData} {bad : MsgData} {s' : Scan}
    (h : OnBadPage bad rest good s out) (hb : BadAfter account (cursor MsgData.seq after good) bad)
    (hs : ScanMove account a s s') : OnBadPage bad rest good s' (out ++ s'.call) := by
  cases h with
  | @delivering m before post hg =>
    cases hs with
    | delivered =>
      rw [hg, cursor_append_cons] at hb
      rcases page_bad rest hb with ⟨what, he⟩ | ⟨m', post', rfl, he⟩
      · rw [he]
        exact .threw ⟨post, by simp [hg, Scan.call]⟩
      · rw [he]
        exact .delivering (by simp [hg])
  | threw => cases hs

/-- **A bad message ends the scan**, and nothing is delivered from it on. -/
theorem bad_page {store : List MsgData} (T : ScanTrace account store) {i : ℕ} (hi : i < T.len) {after : Int}
    {good rest : List MsgData} {bad : MsgData} (hact : T.act i = .fetched (good ++ bad :: rest))
    (hscan : (T.state i).scan = .fetching after) (hb : BadAfter account (cursor MsgData.seq after good) bad)
    {j : ℕ} (hij : i < j) (hj : j ≤ T.len) : OnBadPage bad rest good (T.state j).scan (T.outs i j) := by
  induction j, hij using Nat.le_induction with
  | base =>
    rcases scan_step_cases (T.next i hi) with ⟨-, hmove, -, hout⟩ | ⟨ho, -⟩
    · rw [T.outs_succ le_rfl, T.outs_self, List.nil_append, hout]
      rw [hact, hscan] at hmove
      generalize (T.state (i + 1)).scan = s' at hmove
      cases hmove
      rcases fetched_cases account after (good ++ bad :: rest) with ⟨hn, -⟩ | ⟨-, he⟩ | ⟨-, -, he⟩
      · simp at hn
      · rw [he]
        exact .threw List.nil_prefix
      · rw [he]
        rcases page_bad rest hb with ⟨what, he⟩ | ⟨m, post, rfl, he⟩
        · rw [he]
          exact .threw List.nil_prefix
        · rw [he]
          have hg : m :: post = [] ++ m :: post := rfl
          exact .delivering hg
    · rw [hact] at ho
      cases ho
  | succ j hij ih =>
    have ih := ih (by omega)
    rw [T.outs_succ (by omega)]
    rcases scan_step_cases (T.next j (by omega)) with ⟨-, hmove, -, hout⟩ | ⟨-, -, hs, hout⟩
    · rw [hout]
      exact ih.step hb hmove
    · rw [hs, hout, List.append_nil]
      exact ih

end

end

/-! ## MongoDB -/

/-- The candidates of an account in the collection, in order. -/
def offlineStore (account : Account) (docs : List Doc) : List MsgData :=
  ((docs.filter (offlineCandidate account 0)).insertionSort fun d d' => d.seq ≤ d'.seq).map decodeMessage

/-- `GetMsgsBySeqFromMongo` is a `fetch`. -/
theorem getMsgsBySeq_eq {account : Account} (h : account ≠ 0) {after : Int} (h₀ : 0 ≤ after) (docs : List Doc) :
    getMsgsBySeq account after batchSize docs = fetchCandidates (offlineStore account docs) after batchSize := by
  have hcomp : (fun m : MsgData => decide (after < m.seq)) ∘ decodeMessage
      = fun d : Doc => decide (after < d.seq) := rfl
  have hfilter : docs.filter (offlineCandidate account after)
      = (docs.filter (offlineCandidate account 0)).filter fun d => after < d.seq := by
    rw [List.filter_filter]
    refine List.filter_congr fun d _ => ?_
    unfold offlineCandidate
    by_cases hlt : after < d.seq
    · simp [hlt, h₀.trans_lt hlt]
    · simp [hlt]
  unfold getMsgsBySeq fetchCandidates offlineStore beyond
  rw [if_neg (by simp [batchSize, h]), List.filter_map, hcomp, filter_insertionSort Doc.seq, ← hfilter,
    ← List.map_take]
  rfl

/-- **The offline scan** over a store of candidates, in which candidates come
    and go meanwhile.  If every page is what the store has:

    * the scan takes at most three steps for each candidate there was, and one,
      and it can go on until it has returned; it does not throw;
    * a candidate that stays until the scan reaches it is delivered by then.

    And in any run the deliveries are strictly ascending, one at a time; and a
    message on a page that is none for the account, or is not after the one
    before it, makes the scan throw after messages before it at most. -/
theorem offline_scan (account : Account) (store : List MsgData) (hst : StoreOk account store)
    (T : ScanTrace account store) :
    (HonestRun T →
      (∀ i ≤ T.len, countActs T ScanAction.ofScan i ≤ 3 * (store.length + countActs T ScanAction.adds i) + 1) ∧
      (∀ i ≤ T.len, (∀ what, (T.state i).scan ≠ .threw what) ∧ ((T.state i).scan ≠ .returned →
        ∃ a, a.ofScan = true ∧ (T.state i).Honest a ∧ ((T.state i).step account a).isSome = true)) ∧
      (∀ i ≤ T.len, ∀ c, (∀ k ≤ i, T.past k c ∨ c ∈ (T.state k).store) → (T.state i).scan.Reached c.seq →
        T.past i c)) ∧
    (∀ i < T.len, (T.out i).length ≤ 1) ∧
    (∀ i j, i < j → j < T.len → ∀ m ∈ T.out i, ∀ m' ∈ T.out j, m.seq < m'.seq) ∧
    (∀ i < T.len, ∀ after good bad rest, T.act i = .fetched (good ++ bad :: rest) →
      (T.state i).scan = .fetching after → BadAfter account (cursor MsgData.seq after good) bad →
      ∀ j, i < j → j ≤ T.len → T.outs i j <+: good ∧
        ((∃ m left, (T.state j).scan = .delivering m left) ∨ ∃ what, (T.state j).scan = .threw what)) := by
  refine ⟨fun hh => ⟨?_, ?_, ?_⟩, ?_, ?_, ?_⟩
  · intro i hi
    exact (Nat.le_add_right _ _).trans (scan_steps_le hst hh hi)
  · intro i hi
    have hok := (honest_trace hst hh hi).2
    have ht : ∀ what, (T.state i).scan ≠ .threw what := by
      intro what he
      rw [he] at hok
      exact hok
    exact ⟨ht, fun hr => scan_enabled _ hr ht⟩
  · intro i hi c hc hr
    exact (delivered_or_ahead hst hh hi hc).resolve_right ((honest_trace hst hh hi).2.not_ahead hr)
  · intro i hi
    rcases scan_step_cases (T.next i hi) with ⟨-, -, -, hout⟩ | ⟨-, -, -, hout⟩
    · rw [hout]
      exact length_call_le _
    · rw [hout]
      exact Nat.zero_le _
  · intro i j hij hj m hm m' hm'
    exact scan_order T hij hj hm hm'
  · intro i hi after good bad rest hact hscan hb j hij hj
    have h := bad_page T hi hact hscan hb hij hj
    generalize (T.state j).scan = s at *
    generalize T.outs i j = out at *
    cases h with
    | @delivering m before post hg => exact ⟨⟨post, by simp [hg]⟩, Or.inl ⟨_, _, rfl⟩⟩
    | threw h => exact ⟨h, Or.inr ⟨_, rfl⟩⟩

/-- A message to account 7. -/
def offlineMsg (seq : Int) : MsgData :=
  { sendID := 1, recvID := 7, serverMsgID := "m", sessionType := 1, seq := seq }

/-- Of two messages the first goes while the second is delivered; a third comes
    after the first page was fetched. -/
def lateActions : List ScanAction :=
  [.fetched [offlineMsg 1, offlineMsg 5], .delivered, .remove (offlineMsg 1), .delivered, .add (offlineMsg 9),
   .waited, .fetched [offlineMsg 9], .delivered, .waited, .fetched []]

def lateTrace : ScanTrace 7 [offlineMsg 1, offlineMsg 5] :=
  Machine.Trace.ofActions _ _ (fun i => lateActions.getD i .delivered) 10 (by decide +kernel)

/-- All three are delivered, one step each. -/
theorem offline_scan_late :
    (lateTrace.state 10).scan = .returned ∧ lateTrace.outs 0 10 = [offlineMsg 1, offlineMsg 5, offlineMsg 9] ∧
    lateTrace.past 10 (offlineMsg 5) := by
  refine ⟨by decide +kernel, by decide +kernel, ?_⟩
  have hst : StoreOk 7 [offlineMsg 1, offlineMsg 5] := by
    refine ⟨by decide +kernel, fun m hm => ?_⟩
    rcases List.mem_pair.1 hm with rfl | rfl <;> exact ⟨by decide +kernel, by decide⟩
  have hh : ∀ i < 10, (lateTrace.state i).Honest (lateTrace.act i) := by decide +kernel
  have hstore : ∀ k < 11, offlineMsg 5 ∈ (lateTrace.state k).store := by decide +kernel
  exact ((offline_scan 7 _ hst lateTrace).1 hh).2.2 10 le_rfl (offlineMsg 5)
    (fun k hk => Or.inr (hstore k (by omega))) trivial

end ApeServer
