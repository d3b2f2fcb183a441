/-
  Committed offsets never run ahead of `handle`.

  `SlotOk` is the invariant of a slot; it speaks of the events of the past:

  * in a generation, the lane holds, in order, every record below the position
    that no call of `handle` has finished (`Queue.Covers`), as long as the
    worker serves it;
  * between the check and `commitAsync`, everything up to the job is handled,
    whatever has happened to the generation since.

  `Gone`: a job given up by the check of its generation is in no lane any more.
-/
import ApeServer.Lib.Queue
import ApeServer.Kafka.Slots

namespace ApeServer.Kafka

open Queue

/-! ## The invariant -/

section
variable (log : TopicPartition → ℕ → Option String) (start : TopicPartition → Option ℕ)

/-- There is a record at the offset, not below what was committed at the
    start. -/
def Due (p : TopicPartition) (o : ℕ) : Prop := (start p).getD 0 ≤ o ∧ (log p o).isSome

/-- A call of `handle` for the record has returned normally. -/
def Handled (past : Event → Prop) (p : TopicPartition) (o : ℕ) : Prop :=
  ∃ payload, log p o = some payload ∧ ∃ id generation, past (.handled id ⟨p.1, payload, p.2, o, generation⟩)

/-- An offset that may be committed: everything below it is handled. -/
def Below (past : Event → Prop) (p : TopicPartition) (v : ℕ) : Prop :=
  (start p).getD 0 ≤ v ∧ ∀ o < v, Due log start p o → Handled log past p o

/-- The consumer has fetched the record in its generation. -/
def Fetched (past : Event → Prop) (id generation : ℕ) (p : TopicPartition) (o : ℕ) : Prop :=
  ∃ payload, log p o = some payload ∧ past (.fetched id ⟨p.1, payload, p.2, o, generation⟩)

/-- The order in which jobs come. -/
def Job.Before (a b : Job) : Prop := a.generation < b.generation ∨ a.generation = b.generation ∧ a.offset < b.offset

/-- **The invariant of a slot.** -/
structure SlotOk (past : Event → Prop) (id : ℕ) (p : TopicPartition) (v : Slot) : Prop where
  jobs : ∀ job ∈ v.pending, job.key = p ∧ log p job.offset = some job.payload ∧ v.ready = true
  floor : (∀ job ∈ v.pending, (start p).getD 0 ≤ job.offset) ∧
    ∀ n, v.position = .next n → (start p).getD 0 ≤ n
  old : ∀ job ∈ v.pending, job.generation ≤ v.generation
  fresh : ∀ job ∈ v.pending, job.generation = v.generation → ∃ n, v.position = .next n ∧ job.offset < n
  order : v.pending.Pairwise Job.Before
  handled : ∀ job, v.worker = .handled job ∨ v.worker = .committing job → Handled log past p job.offset
  committing : ∀ job, v.worker = .committing job → Below log start past p job.offset
  covers : v.ready = true → v.running = true → v.worker ≠ .ended → ∀ n, v.position = .next n →
    Covers (Due log start p) (Handled log past p) v.current n
  fetched : ∀ n, v.position = .next n → ∀ o < n, Due log start p o →
    Handled log past p o ∨ Fetched log past id v.generation p o

/-- A job that was given up is over. -/
def Gone (past : Event → Prop) (id : ℕ) (p : TopicPartition) (v : Slot) : Prop :=
  ∀ job : Job, job.key = p → past (.dropped id job) → job.generation < v.generation ∧ job ∉ v.pending

end

section
variable {log : TopicPartition → ℕ → Option String} {start committed : TopicPartition → Option ℕ}
  {past past' : Event → Prop} {id : ℕ} {p : TopicPartition} {v v' : Slot} {es : List Event}

theorem Handled.mono (hp : ∀ e, past e → past' e) {o : ℕ} (h : Handled log past p o) :
    Handled log past' p o := by
  obtain ⟨payload, hlog, id, g, h⟩ := h
  exact ⟨payload, hlog, id, g, hp _ h⟩

theorem Below.mono (hp : ∀ e, past e → past' e) {n : ℕ} (h : Below log start past p n) :
    Below log start past' p n :=
  ⟨h.1, fun o ho hdue => (h.2 o ho hdue).mono hp⟩

theorem Fetched.mono (hp : ∀ e, past e → past' e) {g o : ℕ} (h : Fetched log past id g p o) :
    Fetched log past' id g p o := by
  obtain ⟨payload, hlog, h⟩ := h
  exact ⟨payload, hlog, hp _ h⟩

/-- More happens elsewhere. -/
theorem SlotOk.mono (h : SlotOk log start past id p v) (hp : ∀ e, past e → past' e) :
    SlotOk log start past' id p v where
  jobs := h.jobs
  floor := h.floor
  old := h.old
  fresh := h.fresh
  order := h.order
  handled := fun job hw => (h.handled job hw).mono hp
  committing := fun job hw => (h.committing job hw).mono hp
  covers := fun hready hr hw n hn => (h.covers hready hr hw n hn).mono fun _ => Handled.mono hp
  fetched := fun n hn o ho hdue => (h.fetched n hn o ho hdue).imp (Handled.mono hp) (Fetched.mono hp)

/-- The worker goes on with what it has. -/
theorem SlotOk.work (h : SlotOk log start past id p v) {jobs : List Job} {worker : Worker}
    (hpend : worker.job?.toList ++ jobs = v.pending) (hended : v.worker ≠ .ended)
    (hhandled : ∀ job, worker = .handled job ∨ worker = .committing job → Handled log past p job.offset)
    (hcommit : ∀ job, worker = .committing job → Below log start past p job.offset) :
    SlotOk log start past id p { v with jobs := jobs, worker := worker } := by
  have hsame : Slot.pending { v with jobs := jobs, worker := worker } = v.pending := hpend
  have hcurrent : Slot.current { v with jobs := jobs, worker := worker } = v.current := by
    unfold Slot.current
    rw [hsame]
  refine ⟨?_, ⟨?_, h.floor.2⟩, ?_, ?_, ?_, hhandled, hcommit, ?_, h.fetched⟩
  · rw [hsame]
    exact h.jobs
  · rw [hsame]
    exact h.floor.1
  · rw [hsame]
    exact h.old
  · rw [hsame]
    exact h.fresh
  · rw [hsame]
    exact h.order
  · intro hready hr _ n hn
    rw [hcurrent]
    exact h.covers hready hr hended n hn

/-- The job in the worker's hands is the first of its generation. -/
theorem current_cons {job : Job} (hw : v.worker.job? = some job) :
    v.current = if job.generation = v.generation then job.offset :: Slot.current { v with worker := .idle }
      else Slot.current { v with worker := .idle } := by
  unfold Slot.current
  rw [pending_cons hw, List.filter_cons]
  by_cases hg : job.generation = v.generation
  · simp [hg, Slot.pending, Worker.job?]
  · simp [hg, Slot.pending, Worker.job?]

/-- The worker lets its job go: one of an old generation, one that is handled,
    or any after `shutdown`. -/
theorem SlotOk.release (h : SlotOk log start past id p v) {job : Job} (hw : v.worker.job? = some job)
    (hgo : job.generation ≠ v.generation ∨ Handled log past p job.offset ∨ v.running = false) :
    SlotOk log start past id p { v with worker := .idle } := by
  have hpend := pending_cons hw
  have hmem : ∀ j ∈ v.jobs, j ∈ v.pending := by
    intro j hj
    rw [hpend]
    exact List.mem_cons_of_mem _ hj
  refine ⟨fun j hj => h.jobs j (hmem j hj), ⟨fun j hj => h.floor.1 j (hmem j hj), h.floor.2⟩,
    fun j hj => h.old j (hmem j hj), fun j hj => h.fresh j (hmem j hj), ?_, by simp, by simp, ?_, h.fetched⟩
  · have := h.order
    rw [hpend] at this
    exact (List.pairwise_cons.1 this).2
  · intro hready hr _ n hn
    have hended : v.worker ≠ .ended := by
      intro he
      rw [he] at hw
      cases hw
    have hc := h.covers hready hr hended n hn
    rw [current_cons hw] at hc
    split_ifs at hc with hg
    · rcases hgo with hgo | hgo | hgo
      · exact absurd hg hgo
      · exact hc.pop hgo
      · rw [hgo] at hr
        cases hr
    · exact hc

/-- Before the job of the current generation in the worker's hands, everything
    is handled. -/
theorem SlotOk.below (h : SlotOk log start past id p v) {job : Job} (hw : v.worker = .handled job)
    (hr : v.running = true) (hg : job.generation = v.generation) : Below log start past p job.offset := by
  have hpend : v.pending = job :: v.jobs := pending_cons (by rw [hw]; rfl)
  have hmem : job ∈ v.pending := by
    rw [hpend]
    exact List.mem_cons_self
  obtain ⟨n, hn, -⟩ := h.fresh job hmem hg
  have hc := h.covers (h.jobs job hmem).2.2 hr (by rw [hw]; simp) n hn
  rw [current_cons (by rw [hw]; rfl), if_pos hg] at hc
  exact ⟨h.floor.1 job hmem, hc.head⟩

/-- A rebalance: no job is of the new generation. -/
theorem SlotOk.rebalance (h : SlotOk log start past id p v) {pos : Position} (hpos : ∀ n, pos ≠ .next n) :
    SlotOk log start past id p { v with generation := v.generation + 1, position := pos } := by
  refine ⟨h.jobs, ⟨h.floor.1, fun n hn => absurd hn (hpos n)⟩, fun j hj => ?_, fun j hj hg => ?_, h.order,
    h.handled, h.committing, fun _ _ _ n hn => absurd hn (hpos n), fun n hn => absurd hn (hpos n)⟩
  · exact (h.old j hj).trans (Nat.le_succ _)
  · have := h.old j hj
    dsimp only at hg
    omega

/-- The assignment starts at the committed offset, with no job of its
    generation. -/
theorem SlotOk.resolve (h : SlotOk log start past id p v) (hpos : v.position = .starting)
    (hc : Below log start past p ((committed p).getD 0)) :
    SlotOk log start past id p { v with position := .next ((committed p).getD 0) } := by
  have hnone : ∀ j ∈ v.pending, j.generation ≠ v.generation := by
    intro j hj hg
    obtain ⟨n, hn, -⟩ := h.fresh j hj hg
    rw [hpos] at hn
    cases hn
  refine ⟨h.jobs, ⟨h.floor.1, fun n hn => ?_⟩, h.old, fun j hj hg => absurd hg (hnone j hj), h.order,
    h.handled, h.committing, fun _ _ _ n hn => ?_, fun n hn o ho hdue => ?_⟩
  · cases hn
    exact hc.1
  · cases hn
    have hcur : Slot.current { v with position := .next ((committed p).getD 0) } = [] := by
      show (v.pending.filter fun j => j.generation = v.generation).map (·.offset) = []
      simpa using hnone
    rw [hcur]
    exact hc.2
  · cases hn
    exact Or.inl (hc.2 o ho hdue)

/-- Up to the record just fetched, everything is handled or fetched. -/
theorem SlotOk.fetched_next (h : SlotOk log start past id p v) {n offset : ℕ} {payload : String}
    (hpos : v.position = .next n) (hdue : ∀ o, n ≤ o → o < offset → ¬ Due log start p o)
    (hlog : log p offset = some payload)
    (hnew : past (.fetched id ⟨p.1, payload, p.2, offset, v.generation⟩)) :
    ∀ m, Position.next (offset + 1) = .next m → ∀ o < m, Due log start p o →
      Handled log past p o ∨ Fetched log past id v.generation p o := by
  intro m hm o ho hd
  cases hm
  rcases Nat.lt_or_ge o n with hon | hon
  · exact h.fetched n hpos o hon hd
  · rcases Nat.lt_succ_iff_lt_or_eq.1 ho with hlt | rfl
    · exact absurd hd (hdue o hon hlt)
    · exact Or.inr ⟨payload, hlog, hnew⟩

/-- A record at or after the position moves the floor up. -/
theorem SlotOk.floor_next (h : SlotOk log start past id p v) {n offset : ℕ} (hpos : v.position = .next n)
    (hle : n ≤ offset) : ∀ m, Position.next (offset + 1) = .next m → (start p).getD 0 ≤ m := by
  intro m hm
  cases hm
  have := h.floor.2 n hpos
  omega

/-- The jobs of the generation lie before the record. -/
theorem SlotOk.fresh_next (h : SlotOk log start past id p v) {n offset : ℕ} (hpos : v.position = .next n)
    (hle : n ≤ offset) : ∀ j ∈ v.pending, j.generation = v.generation → j.offset < offset := by
  intro j hj hg
  obtain ⟨m, hm, hlt⟩ := h.fresh j hj hg
  rw [hpos] at hm
  cases hm
  omega

/-- The next record is put into a lane. -/
theorem SlotOk.enqueue (h : SlotOk log start past id p v) {n offset : ℕ} {job : Job}
    (hpos : v.position = .next n) (hle : n ≤ offset) (hdue : ∀ o, n ≤ o → o < offset → ¬ Due log start p o)
    (hkey : job.key = p) (hlog : log p job.offset = some job.payload) (hoff : job.offset = offset)
    (hgen : job.generation = v.generation) (hready : v.ready = true)
    (hfetched : ∀ m, Position.next (offset + 1) = .next m → ∀ o < m, Due log start p o →
      Handled log past p o ∨ Fetched log past id v.generation p o) :
    SlotOk log start past id p { v with position := .next (offset + 1), jobs := v.jobs ++ [job] } := by
  have hfresh := h.fresh_next hpos hle
  have hpend : Slot.pending { v with position := .next (offset + 1), jobs := v.jobs ++ [job] } =
      v.pending ++ [job] := by
    simp [Slot.pending]
  have hcur : Slot.current { v with position := .next (offset + 1), jobs := v.jobs ++ [job] } =
      v.current ++ [offset] := by
    unfold Slot.current
    rw [hpend]
    simp [hgen, hoff]
  have hmem : ∀ j ∈ v.pending ++ [job], j ∈ v.pending ∨ j = job := by
    intro j hj
    exact (List.mem_append.1 hj).imp_right List.mem_singleton.1
  refine ⟨fun j hj => ?_, ⟨fun j hj => ?_, h.floor_next hpos hle⟩, fun j hj => ?_, fun j hj hg => ?_, ?_, h.handled,
    h.committing, ?_, hfetched⟩
  · rw [hpend] at hj
    rcases hmem j hj with hj | rfl
    · exact h.jobs j hj
    · exact ⟨hkey, hlog, hready⟩
  · rw [hpend] at hj
    rcases hmem j hj with hj | rfl
    · exact h.floor.1 j hj
    · rw [hoff]
      exact (h.floor.2 n hpos).trans hle
  · rw [hpend] at hj
    rcases hmem j hj with hj | rfl
    · exact h.old j hj
    · exact hgen.le
  · rw [hpend] at hj
    refine ⟨offset + 1, rfl, ?_⟩
    rcases hmem j hj with hj | rfl
    · exact (hfresh j hj hg).trans (Nat.lt_succ_self _)
    · rw [hoff]
      exact Nat.lt_succ_self _
  · rw [hpend]
    refine List.pairwise_append.2 ⟨h.order, List.pairwise_singleton _ _, fun a ha b hb => ?_⟩
    rw [List.mem_singleton.1 hb]
    unfold Job.Before
    rw [hgen, hoff]
    rcases Nat.lt_or_eq_of_le (h.old a ha) with hlt | heq
    · exact Or.inl hlt
    · exact Or.inr ⟨heq, hfresh a ha heq⟩
  · intro _ hr hw m hm
    cases hm
    rw [hcur]
    exact (h.covers hready hr hw n hpos).push hle hdue

/-- The next record is fetched. -/
theorem SlotOk.fetch (h : SlotOk log start past id p v) {n offset : ℕ} {payload : String}
    (hpos : v.position = .next n) (hle : n ≤ offset) (hgap : ∀ o, n ≤ o → o < offset → log p o = none)
    (hlog : log p offset = some payload)
    (hnew : past (.fetched id ⟨p.1, payload, p.2, offset, v.generation⟩)) :
    SlotOk log start past id p
      { v with
        position := .next (offset + 1)
        jobs := if v.ready then v.jobs ++ [⟨p.1, payload, p.2, offset, v.generation⟩] else v.jobs } := by
  have hdue : ∀ o, n ≤ o → o < offset → ¬ Due log start p o := by
    rintro o ho hlt ⟨-, hsome⟩
    rw [hgap o ho hlt] at hsome
    cases hsome
  have hfetched := h.fetched_next hpos hdue hlog hnew
  split_ifs with hready
  · exact h.enqueue hpos hle hdue rfl hlog rfl rfl hready hfetched
  · -- nothing is put into a lane
    refine ⟨h.jobs, ⟨h.floor.1, h.floor_next hpos hle⟩, h.old, fun j hj hg => ?_, h.order, h.handled, h.committing,
      ?_, hfetched⟩
    · exact ⟨offset + 1, rfl, (h.fresh_next hpos hle j hj hg).trans (Nat.lt_succ_self _)⟩
    · exact fun hr => absurd hr hready

theorem ne_ended {job : Job} (hw : v.worker.job? = some job) : v.worker ≠ .ended := by
  intro he
  rw [he] at hw
  cases hw

/-- **A step keeps the invariant of a slot.** -/
theorem SlotOk.moves (h : SlotOk log start past id p v)
    (hc : Below log start past p ((committed p).getD 0))
    (hm : v.Moves log committed id p v' es) :
    SlotOk log start (fun e => past e ∨ e ∈ es) id p v' := by
  have hp : ∀ e, past e → (past e ∨ e ∈ es) := fun e he => Or.inl he
  cases hm with
  | stay hr hes =>
    refine SlotOk.mono ?_ hp
    exact ⟨h.jobs, h.floor, h.old, h.fresh, h.order, h.handled, h.committing,
      fun hready hr' => h.covers hready (hr hr'), h.fetched⟩
  | rebalance hpos => exact (h.rebalance hpos).mono hp
  | resolve hpos => exact (h.resolve hpos hc).mono hp
  | fetch hpos hle hgap hlog =>
    exact (h.mono hp).fetch hpos hle hgap hlog (Or.inr (List.mem_singleton_self _))
  | take hw hj =>
    refine (h.mono hp).work ?_ (by rw [hw]; simp) (by simp) (by simp)
    unfold Slot.pending
    rw [hw, hj]
    rfl
  | turn hw hw' =>
    refine (h.mono hp).work ?_ (ne_ended hw) ?_ ?_
    · unfold Slot.pending
      rcases hw' with rfl | rfl | rfl
      · rw [hw]; rfl
      · rw [hw]; rfl
      · rw [hw]; rfl
    · rcases hw' with rfl | rfl | rfl <;> simp
    · rcases hw' with rfl | rfl | rfl <;> simp
  | @handled job hw =>
    have hpend : v.pending = job :: v.jobs := pending_cons (by rw [hw]; rfl)
    obtain ⟨hkey, hlog, -⟩ := h.jobs job (by rw [hpend]; exact List.mem_cons_self)
    refine (h.mono hp).work hpend.symm (by rw [hw]; simp) ?_ (by simp)
    intro job' hjob'
    simp only [Worker.handled.injEq, reduceCtorEq, or_false] at hjob'
    subst hjob'
    refine ⟨job.payload, hlog, id, job.generation, Or.inr (List.mem_singleton.2 ?_)⟩
    rw [← hkey]
    rfl
  | @check job hw hr hg =>
    refine (h.mono hp).work ?_ (by rw [hw]; simp) ?_ ?_
    · unfold Slot.pending
      rw [hw]
      rfl
    · intro job' hjob'
      simp only [reduceCtorEq, Worker.committing.injEq, false_or] at hjob'
      subst hjob'
      exact (h.handled job (Or.inl hw)).mono hp
    · intro job' hjob'
      cases hjob'
      exact (h.below hw hr hg).mono hp
  | @drop job hw hg =>
    have hjob : v.worker.job? = some job := by
      rcases hw with hw | hw
      · rw [hw]; rfl
      · rw [hw]; rfl
    exact (h.mono hp).release hjob (Or.inl hg)
  | stop hw hr => exact (h.mono hp).release hw (Or.inr (Or.inr hr))
  | commit hw =>
    refine (h.mono hp).release (by rw [hw]; rfl) (Or.inr (Or.inl ?_))
    exact (h.handled _ (Or.inr hw)).mono hp
  | halt =>
    have hmem : ∀ j ∈ v.jobs, j ∈ v.pending := fun j hj => mem_pending.2 (Or.inr hj)
    refine SlotOk.mono ?_ hp
    refine ⟨fun j hj => h.jobs j (hmem j hj), ⟨fun j hj => h.floor.1 j (hmem j hj), h.floor.2⟩,
      fun j hj => h.old j (hmem j hj), fun j hj => h.fresh j (hmem j hj), ?_, by simp, by simp, by simp,
      h.fetched⟩
    exact (List.pairwise_append.1 h.order).2.1

/-- A step adds to the pending jobs only one of the current generation. -/
theorem Slot.Moves.pending (hm : v.Moves log committed id p v' es) {job : Job} (hj : job ∈ v'.pending) :
    job ∈ v.pending ∨ job.generation = v.generation := by
  cases hm with
  | stay hr hes => exact Or.inl hj
  | rebalance hpos => exact Or.inl hj
  | resolve hpos => exact Or.inl hj
  | fetch hpos hle hgap hlog =>
    rcases mem_pending.1 hj with hj | hj
    · exact Or.inl (mem_pending.2 (Or.inl hj))
    · dsimp only at hj
      split_ifs at hj
      · rcases List.mem_append.1 hj with hj | hj
        · exact Or.inl (mem_pending.2 (Or.inr hj))
        · rw [List.mem_singleton.1 hj]
          exact Or.inr rfl
      · exact Or.inl (mem_pending.2 (Or.inr hj))
  | take hw hj' =>
    refine Or.inl (mem_pending.2 (Or.inr ?_))
    rw [hj']
    exact hj
  | turn hw hw' =>
    rcases mem_pending.1 hj with hj | hj
    · refine Or.inl (mem_pending.2 (Or.inl (hw.trans ?_)))
      rcases hw' with rfl | rfl | rfl
      · exact hj
      · exact hj
      · exact hj
    · exact Or.inl (mem_pending.2 (Or.inr hj))
  | handled hw | check hw =>
    rcases mem_pending.1 hj with hj | hj
    · refine Or.inl (mem_pending.2 (Or.inl ?_))
      rw [hw]
      exact hj
    · exact Or.inl (mem_pending.2 (Or.inr hj))
  | drop | stop | commit | halt =>
    rcases mem_pending.1 hj with hj | hj
    · cases hj
    · exact Or.inl (mem_pending.2 (Or.inr hj))

theorem Slot.Moves.generation_le (hm : v.Moves log committed id p v' es) : v.generation ≤ v'.generation := by
  cases hm with
  | rebalance hpos => exact Nat.le_succ _
  | stay | resolve | fetch | take | turn | handled | check | drop | stop | commit | halt => exact le_rfl

/-- A job given up in this step was in the worker's hands, and old. -/
theorem Slot.Moves.dropped (hm : v.Moves log committed id p v' es) {job : Job} (hkey : job.key = p)
    (hd : Event.dropped id job ∈ es) :
    v.worker.job? = some job ∧ job.generation ≠ v.generation ∧ v' = { v with worker := .idle } := by
  cases hm with
  | stay hr hes => exact absurd hd (hes job hkey)
  | drop hw hg =>
    cases List.mem_singleton.1 hd
    refine ⟨?_, hg, rfl⟩
    rcases hw with hw | hw
    · rw [hw]; rfl
    · rw [hw]; rfl
  | fetch | handled | commit => cases List.mem_singleton.1 hd
  | rebalance | resolve | take | turn | check | stop | halt => cases hd

/-- **A step keeps the jobs that are over out of the lane.** -/
theorem Gone.moves (hg : Gone past id p v) (h : SlotOk log start past id p v)
    (hm : v.Moves log committed id p v' es) : Gone (fun e => past e ∨ e ∈ es) id p v' := by
  intro job hkey hd
  rcases hd with hd | hd
  · obtain ⟨hlt, hnot⟩ := hg job hkey hd
    refine ⟨hlt.trans_le hm.generation_le, fun hj => ?_⟩
    rcases hm.pending hj with hj | hj
    · exact hnot hj
    · exact hlt.ne hj
  · obtain ⟨hw, hne, rfl⟩ := hm.dropped hkey hd
    have hpend := pending_cons hw
    have horder := h.order
    rw [hpend] at horder
    refine ⟨lt_of_le_of_ne (h.old job (mem_pending.2 (Or.inl hw))) hne, fun hj => ?_⟩
    -- it is not twice in the lane, since the jobs are in order
    rcases (List.pairwise_cons.1 horder).1 job hj with hb | ⟨-, hb⟩
    · exact lt_irrefl _ hb
    · exact lt_irrefl _ hb

end

/-! ## The group -/

section
variable {log : TopicPartition → ℕ → Option String} {start : TopicPartition → Option ℕ}
  {past : Event → Prop} {w w' : Group} {es : List Event} {ready : ℕ → Bool}

/-- **The invariant of the group.** -/
structure GroupOk (log : TopicPartition → ℕ → Option String) (start : TopicPartition → Option ℕ) (w : Group)
    (past : Event → Prop) : Prop where
  committed : ∀ p, Below log start past p ((w.committed p).getD 0)
  requests : ∀ q ∈ w.requests, Below log start past q.1 q.2
  slots : ∀ id p, SlotOk log start past id p ((w.consumers id).slot p)
  gone : ∀ id p, Gone past id p ((w.consumers id).slot p)

theorem groupOk_init : GroupOk log start (Group.init ready start) fun _ => False := by
  refine ⟨fun p => ⟨le_rfl, fun o ho hdue => absurd hdue.1 (Nat.not_le.2 ho)⟩, by simp [Group.init],
    fun id p => ?_, fun id p job _ hd => hd.elim⟩
  refine ⟨?_, ⟨?_, ?_⟩, ?_, ?_, ?_, ?_, ?_, ?_, ?_⟩
  all_goals simp [Group.init, Consumer.slot, Slot.pending, Worker.job?]

/-- The request of a worker that has passed the check. -/
theorem SlotOk.request {id : ℕ} {p : TopicPartition} {v : Slot} (h : SlotOk log start past id p v) {job : Job}
    (hw : v.worker = .committing job) : Below log start past job.key (job.offset + 1) := by
  obtain ⟨hkey, -, -⟩ := h.jobs job (mem_pending.2 (Or.inl (by rw [hw]; rfl)))
  obtain ⟨hle, hbelow⟩ := h.committing job hw
  rw [hkey]
  refine ⟨by omega, fun o ho hdue => ?_⟩
  rcases Nat.lt_succ_iff_lt_or_eq.1 ho with ho | rfl
  · exact hbelow o ho hdue
  · exact h.handled job (Or.inr hw)

theorem GroupOk.consumer (h : GroupOk log start w past) {id : ℕ} {a : ConsumerAction} {c' : Consumer}
    (hs : (w.consumers id).step log w.committed id a = some (c', es)) :
    GroupOk log start { w with
      consumers := Function.update w.consumers id c'
      requests := w.requests ++ es.filterMap Event.request? } fun e => past e ∨ e ∈ es := by
  have hp : ∀ e, past e → (past e ∨ e ∈ es) := fun e he => Or.inl he
  have hmoves := Consumer.step_moves (fun p job hj => ((h.slots id p).jobs job hj).1) hs
  refine ⟨fun p => (h.committed p).mono hp, fun q hq => ?_, fun id' p => ?_, fun id' p => ?_⟩
  · rcases List.mem_append.1 hq with hq | hq
    · exact (h.requests q hq).mono hp
    · obtain ⟨e, he, hreq⟩ := List.mem_filterMap.1 hq
      cases e with
      | requested id' job =>
        cases hreq
        obtain ⟨rfl, p, hw⟩ := requested_step hs he
        exact ((h.slots id' p).request hw).mono hp
      | fetched | handled | dropped | committed => cases hreq
  · by_cases hid : id' = id
    · subst hid
      simp only [Function.update_self]
      exact (h.slots id' p).moves (h.committed p) (hmoves p)
    · simp only [Function.update_of_ne hid]
      exact (h.slots id' p).mono hp
  · by_cases hid : id' = id
    · subst hid
      simp only [Function.update_self]
      exact (h.gone id' p).moves (h.slots id' p) (hmoves p)
    · simp only [Function.update_of_ne hid]
      intro job hkey hd
      rcases hd with hd | hd
      · exact h.gone id' p job hkey hd
      · exact absurd (dropped_step hs hd).1 hid

/-- **A step keeps the invariant of the group.** -/
theorem GroupOk.step {a : Action} (h : GroupOk log start w past) (hs : w.step log a = some (w', es)) :
    GroupOk log start w' fun e => past e ∨ e ∈ es := by
  have hp : ∀ e, past e → (past e ∨ e ∈ es) := fun e he => Or.inl he
  cases a with
  | consumer id a =>
    obtain ⟨⟨c', es'⟩, hc, he⟩ := Option.map_eq_some_iff.1 hs
    cases he
    exact h.consumer hc
  | deliver n =>
    obtain ⟨q, hq, he⟩ := Option.map_eq_some_iff.1 hs
    cases he
    have hmem : q ∈ w.requests := List.mem_of_getElem? hq
    refine ⟨fun p => ?_, fun q' hq' => (h.requests q' (List.mem_of_mem_eraseIdx hq')).mono hp,
      fun id p => (h.slots id p).mono hp, fun id p job hkey hd => ?_⟩
    · by_cases hpq : p = q.1
      · subst hpq
        simp only [Function.update_self, Option.getD_some]
        exact (h.requests q hmem).mono hp
      · simp only [Function.update_of_ne hpq]
        exact (h.committed p).mono hp
    · rcases hd with hd | hd
      · exact h.gone id p job hkey hd
      · cases List.mem_singleton.1 hd
  | lose n =>
    simp only [Group.step] at hs
    split_ifs at hs
    cases hs
    refine ⟨fun p => (h.committed p).mono hp,
      fun q hq => (h.requests q (List.mem_of_mem_eraseIdx hq)).mono hp,
      fun id p => (h.slots id p).mono hp, fun id p job hkey hd => ?_⟩
    exact h.gone id p job hkey (hd.elim (fun hd => hd) fun hd => by cases hd)

/-- What the broker applies was asked for by a worker. -/
theorem committed_below {a : Action} {p : TopicPartition} {n : ℕ} (h : GroupOk log start w past)
    (hs : w.step log a = some (w', es)) (hc : Event.committed p n ∈ es) : Below log start past p n := by
  cases a with
  | consumer id a =>
    obtain ⟨⟨c', es'⟩, hstep, he⟩ := Option.map_eq_some_iff.1 hs
    cases he
    rcases Consumer.step_emits hstep hc with ⟨job, he⟩ | ⟨p', signal, -, he⟩
    · cases he
    · generalize ((w.consumers id).slot p').worker = worker at he
      cases he
  | deliver m =>
    obtain ⟨q, hq, he⟩ := Option.map_eq_some_iff.1 hs
    cases he
    cases List.mem_singleton.1 hc
    exact h.requests q (List.mem_of_getElem? hq)
  | lose m =>
    simp only [Group.step] at hs
    split_ifs at hs
    cases hs
    cases hc

/-- A worker gives up, or asks to commit, a job of its lane. -/
theorem pending_of_event {a : Action} {id : ℕ} {job : Job} (h : GroupOk log start w past)
    (hs : w.step log a = some (w', es)) (he : Event.dropped id job ∈ es ∨ Event.requested id job ∈ es) :
    job ∈ ((w.consumers id).slot job.key).pending := by
  cases a with
  | consumer id' a =>
    obtain ⟨⟨c', es'⟩, hstep, heq⟩ := Option.map_eq_some_iff.1 hs
    cases heq
    have hp : id = id' ∧ ∃ p, job ∈ ((w.consumers id').slot p).pending := by
      rcases he with he | he
      · obtain ⟨hid, p, -, -, hj⟩ := dropped_step hstep he
        exact ⟨hid, p, hj⟩
      · obtain ⟨hid, p, hw⟩ := requested_step hstep he
        exact ⟨hid, p, mem_pending.2 (Or.inl (by rw [hw]; rfl))⟩
    obtain ⟨rfl, p, hj⟩ := hp
    rw [((h.slots id p).jobs job hj).1]
    exact hj
  | deliver m =>
    obtain ⟨q, -, heq⟩ := Option.map_eq_some_iff.1 hs
    cases heq
    rcases he with he | he <;> cases List.mem_singleton.1 he
  | lose m =>
    simp only [Group.step] at hs
    split_ifs at hs
    cases hs
    rcases he with he | he <;> cases he

/-- The invariant holds in every state of a run. -/
theorem GroupTrace.ok (T : GroupTrace log ready start) {i : ℕ} (hi : i ≤ T.len) :
    GroupOk log start (T.state i) (T.past i) :=
  T.history (P := GroupOk log start) groupOk_init (fun _ _ _ _ _ h hs => h.step hs) hi

end

/-- **Offsets never run ahead of processing.**  When an offset is committed,
    every record below it has had a call of `handle` that returned normally. A
    job given up by the check of its generation is never committed, and
    whoever owns its partition later has still to fetch its record, or has
    fetched it since the assignment, or the record has already been handled. -/
theorem offsets_after_processing (log : TopicPartition → ℕ → Option String) (ready : ℕ → Bool)
    (start : TopicPartition → Option ℕ) (T : GroupTrace log ready start) :
    (∀ i < T.len, ∀ p o, Event.committed p (o + 1) ∈ T.out i →
      ∀ o' ≤ o, Due log start p o' → Handled log (T.past i) p o') ∧
    ∀ i k id job, i < k → k ≤ T.len → Event.dropped id job ∈ T.out i →
      (k < T.len → Event.requested id job ∉ T.out k) ∧
      job.generation < ((T.state k).consumers id).generation ∧
      ∀ id' n, ((T.state k).consumers id').position job.key = .next n → n ≤ job.offset ∨
        Fetched log (T.past k) id' ((T.state k).consumers id').generation job.key job.offset ∨
        Handled log (T.past k) job.key job.offset := by
  refine ⟨fun i hi p o hc o' ho' hdue => ?_, fun i k id job hik hk hd => ?_⟩
  · exact (committed_below (T.ok hi.le) (T.next i hi) hc).2 o' (Nat.lt_succ_of_le ho') hdue
  · have hpast : T.past k (.dropped id job) := ⟨i, hik, hd⟩
    obtain ⟨hlt, hnot⟩ := (T.ok hk).gone id job.key job rfl hpast
    refine ⟨fun hk' hreq => ?_, hlt, fun id' n hn => ?_⟩
    · exact hnot (pending_of_event (T.ok hk) (T.next k hk') (Or.inr hreq))
    · -- the job was pending when it was given up, so its record is due
      have hi : i < T.len := by omega
      have hj := pending_of_event (T.ok hi.le) (T.next i hi) (Or.inl hd)
      have hslot := (T.ok hi.le).slots id job.key
      obtain ⟨-, hlog, -⟩ := hslot.jobs job hj
      have hdue : Due log start job.key job.offset := ⟨hslot.floor.1 job hj, by rw [hlog]; rfl⟩
      rcases Nat.lt_or_ge job.offset n with hlt | hle
      · exact Or.inr (((T.ok hk).slots id' job.key).fetched n hn job.offset hlt hdue).symm
      · exact Or.inl hle


/-! ## A late commit

  A worker passes the check, the partition is assigned again and its record
  fetched again, and only then the worker commits.  The second job is given up
  at the next rebalance and not fetched any more. -/

namespace LateCommit

def partition : TopicPartition := ("msg_topic", 0)

def records : TopicPartition → ℕ → Option String := fun _ _ => some "m"

def job (generation : ℕ) : Job := ⟨"msg_topic", "m", 0, 0, generation⟩

def acts : List Action :=
  let c := Action.consumer 0
  let loop := c (.loop fun _ => true)
  let revoke := c (.rebalance .revokePartitions [partition])
  let assign := [c (.rebalance .assignPartitions [partition]), c (.resolve partition)]
  let work := fun signal => c (.work partition signal)
  [loop] ++ assign ++ [c (.consume partition 0), work .resume, work .resume, work .returned, work .resume] ++
    [loop, revoke] ++ assign ++ [c (.consume partition 0), work .accepted, .deliver 0] ++
    [loop, revoke] ++ assign ++ [work .resume, work .resume]

def act (i : ℕ) : Action := acts.getD i (.lose 0)

def run : GroupTrace records (fun _ => true) fun _ => none :=
  .ofActions _ _ act 21 (by decide +kernel)

theorem fetched_at : ∀ m < 21, Event.fetched 0 (job 3) ∈ run.out m → 12 ≤ m := by decide +kernel

theorem out_after : ∀ l < 21, 12 < l →
    run.out l ∈ [[], [.requested 0 (job 1)], [.committed partition 1], [.dropped 0 (job 3)]] := by
  decide +kernel

end LateCommit

/-- A job that was given up need not be fetched again: the owner of the
    partition may be past its record. -/
theorem dropped_not_fetched_again : ¬ ∀ (log : TopicPartition → ℕ → Option String) (ready : ℕ → Bool)
    (start : TopicPartition → Option ℕ) (T : GroupTrace log ready start) (i k id : ℕ) (job : Job),
    i < k → k ≤ T.len → Event.dropped id job ∈ T.out i →
    ∀ id' n, ((T.state k).consumers id').position job.key = .next n → job.offset < n →
      ∃ m l, m < l ∧ l < k ∧ Event.fetched id job ∈ T.out m ∧ ∃ id'' job',
        Event.fetched id'' job' ∈ T.out l ∧ job'.key = job.key ∧ job'.offset = job.offset := by
  intro h
  obtain ⟨m, l, hml, hl, hm, id, job, hjob, -⟩ := h _ _ _ LateCommit.run 20 21 0 (LateCommit.job 3) (by omega)
    le_rfl (by decide +kernel) 0 1 (by decide +kernel) (by decide)
  have hafter := LateCommit.out_after l hl ((LateCommit.fetched_at m (by omega) hm).trans_lt hml)
  simp only [List.mem_cons, List.not_mem_nil, or_false] at hafter
  rcases hafter with he | he | he | he
  · rw [he] at hjob
    cases hjob
  · rw [he] at hjob
    cases List.mem_singleton.1 hjob
  · rw [he] at hjob
    cases List.mem_singleton.1 hjob
  · rw [he] at hjob
    cases List.mem_singleton.1 hjob

end ApeServer.Kafka
