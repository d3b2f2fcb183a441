/-
  Who may start and stop a service (`Start`, `Stop` and `RunServer` of
  `include/services/base_service.h`).

  `View` is what decides over the state of a service: where the calls are
  between their check and their end (`Stage`), and how the threads of
  `RunServer` stand.  `View.Effect` is what a step does to it, if it is taken
  in order: `Start` passes its check only when no `Stop` is past its own and no
  `RunServer` has ended by itself, and `Stop` passes its own only when no
  `Start` has still to assign its thread.

  * `View.Inv.effect`: these steps keep the invariant `View.Inv`.
-/
import ApeServer.Service.Lifecycle

namespace ApeServer.Service

/-! ## Stages -/

/-- A call between its check and its last step. -/
inductive Stage where
  | outside
  /-- `Start`, before it has made the thread -/
  | creating
  /-- `Start`, before it has assigned the thread -/
  | spawned (thread : ℕ)
  /-- `Stop`, before the join -/
  | stopping
  | joined
deriving DecidableEq, Repr

def Caller.stage : Caller → Stage
  | .idle | .start .entered | .start .assigned | .stop .entered => .outside
  | .start .checked | .start .globalReset | .start .reset => .creating
  | .start (.spawned t) => .spawned t
  | .stop .checked | .stop .flagged | .stop .globalFlagged | .stop .unregistered | .stop .shutDown => .stopping
  | .stop .joined => .joined

/-- `Start` is past its check, and has not assigned the thread. -/
def Stage.pending : Stage → Bool
  | .creating | .spawned _ => true
  | _ => false

/-- `Stop` is past its check. -/
def Stage.past : Stage → Bool
  | .stopping | .joined => true
  | _ => false

/-- A call of `Start` that has not returned. -/
def Caller.starting : Caller → Bool
  | .start _ => true
  | _ => false

/-- `RunServer` has not stored `kRunning` yet, and may do so. -/
def RunPhase.early : RunPhase → Bool
  | .building | .built => true
  | _ => false

def RunPhase.live : RunPhase → Bool
  | .ended _ => false
  | _ => true

theorem Stage.ne_creating {st : Stage} (h : st.pending = false) : st ≠ .creating := by
  rintro rfl
  cases h

theorem RunPhase.live_of_early {p : RunPhase} (h : p.early = true) : p.live = true := by
  cases p with
  | building | built => rfl
  | failed | registering | waiting | joining | leaving | threw | ended => cases h

/-- What decides over `state_`. -/
structure View (γ : Type) where
  state : ServiceState
  serverThread : Option ℕ
  runs : ℕ → Option RunPhase
  stage : γ → Stage

def BaseServiceServer.view {γ : Type} (s : BaseServiceServer γ) : View γ where
  state := s.state
  serverThread := s.serverThread
  runs := s.runs
  stage := fun c => (s.callers c).stage

namespace View
variable {γ : Type} [DecidableEq γ]

/-- What a step does, if it is taken in order. -/
inductive Effect (v : View γ) : View γ → Prop
  | same : Effect v v
  /-- `Start` passes its check -/
  | begins (c : γ) : v.stage c = .outside → v.state = .kStopped → (∀ d, (v.stage d).past = false) →
      (∀ t, v.runs t ≠ some (.ended false)) →
      Effect v { v with state := .kStarting, stage := Function.update v.stage c .creating }
  /-- `Start` throws -/
  | givesUp (c : γ) : v.stage c = .creating →
      Effect v { v with stage := Function.update v.stage c .outside }
  | spawns (c : γ) (t : ℕ) : v.stage c = .creating →
      Effect v { v with
        runs := Function.update v.runs t (some .building)
        stage := Function.update v.stage c (.spawned t) }
  | assigns (c : γ) (t : ℕ) : v.stage c = .spawned t → v.serverThread = none →
      Effect v { v with serverThread := some t, stage := Function.update v.stage c .outside }
  /-- `Stop` passes its check -/
  | asks (c : γ) : v.stage c = .outside → v.state = .kRunning → (∀ d, (v.stage d).pending = false) →
      Effect v { v with state := .kStopping, stage := Function.update v.stage c .stopping }
  | joins (c : γ) : v.stage c = .stopping →
      (∀ t, v.serverThread = some t → ∃ b, v.runs t = some (.ended b)) →
      Effect v { v with serverThread := none, stage := Function.update v.stage c .joined }
  | stops (c : γ) : v.stage c = .joined →
      Effect v { v with state := .kStopped, stage := Function.update v.stage c .outside }
  | advances (t : ℕ) (p p' : RunPhase) : v.runs t = some p → p.live = true → p'.live = true →
      (p'.early = true → p.early = true) →
      Effect v { v with runs := Function.update v.runs t (some p') }
  | runs (t : ℕ) : v.runs t = some .built →
      Effect v { v with state := .kRunning, runs := Function.update v.runs t (some .registering) }
  | ends (t : ℕ) (p : RunPhase) : v.runs t = some p → p.live = true →
      Effect v { v with
        state := .kStopped
        runs := Function.update v.runs t (some (.ended (v.state = .kStopping))) }

/-- All threads of `RunServer` have ended. -/
def Still (v : View γ) : Prop := ∀ t p, v.runs t = some p → p.live = false

/-- **The invariant** of the runs in order. -/
structure Inv (v : View γ) : Prop where
  early : ∀ t p, v.runs t = some p → p.early = true → v.state = .kStarting
  single : ∀ t t' p p', v.runs t = some p → v.runs t' = some p' → p.live = true → p'.live = true → t = t'
  assigned : ∀ t p, v.runs t = some p → p.live = true → v.serverThread = some t ∨ ∃ c, v.stage c = .spawned t
  creating : ∀ c, v.stage c = .creating → v.state = .kStarting ∧ v.Still
  pending : ∀ c, (v.stage c).pending = true → v.serverThread = none ∧
    ∀ d, (v.stage d).pending = true → d = c
  past : ∀ c, (v.stage c).past = true → (v.state = .kStopping ∨ v.state = .kStopped) ∧
    ∀ d, (v.stage d).pending = false
  asked : v.state = .kStopping → ∃ c, (v.stage c).past = true
  joined : ∀ c, v.stage c = .joined → v.serverThread = none ∧ v.Still
  stopped : v.state = .kStopped →
    (v.serverThread = none ∧ v.Still ∧ ∀ c, (v.stage c).pending = false) ∨
      (∃ t, v.runs t = some (.ended false)) ∨ ∃ c, (v.stage c).past = true

variable {v v' : View γ}

theorem Inv.begins (h : v.Inv) (c : γ) (hst : v.state = .kStopped) (hpast : ∀ d, (v.stage d).past = false)
    (hended : ∀ t, v.runs t ≠ some (.ended false)) :
    Inv { v with state := .kStarting, stage := Function.update v.stage c .creating } := by
  -- nobody else is at work
  obtain ⟨hthread, hstill, hpending⟩ : v.serverThread = none ∧ v.Still ∧ ∀ d, (v.stage d).pending = false := by
    rcases h.stopped hst with hidle | ⟨t, ht⟩ | ⟨d, hd⟩
    · exact hidle
    · exact absurd ht (hended t)
    · rw [hpast d] at hd
      cases hd
  constructor
  · intro t p hp hearly
    rfl
  · exact h.single
  · intro t p hp hlive
    rw [hstill t p hp] at hlive
    cases hlive
  · intro d hd
    exact ⟨rfl, hstill⟩
  · intro d hd
    refine ⟨hthread, ?_⟩
    grind [Function.update_apply]
  · grind [Function.update_apply, Stage.past]
  · nofun
  · grind [Function.update_apply, Stage.past]
  · nofun

theorem Inv.asks (h : v.Inv) (c : γ) (hst : v.state = .kRunning) (hpending : ∀ d, (v.stage d).pending = false) :
    Inv { v with state := .kStopping, stage := Function.update v.stage c .stopping } := by
  have hnone : ∀ d, (Function.update v.stage c .stopping d).pending = false := by
    grind [Function.update_apply, Stage.pending]
  have hself : (Function.update v.stage c .stopping c).past = true := by
    rw [Function.update_self]
    rfl
  constructor
  · intro t p hp hearly
    have hstarting := h.early t p hp hearly
    rw [hst] at hstarting
    cases hstarting
  · exact h.single
  · have hassigned := h.assigned
    grind [Function.update_apply, Stage.pending]
  · grind [Function.update_apply, Stage.pending]
  · intro d hd
    exact absurd ((hnone d).symm.trans hd) (by decide)
  · intro d hd
    exact ⟨Or.inl rfl, hnone⟩
  · exact fun _ => ⟨c, hself⟩
  · have hjoined := h.joined
    grind [Function.update_apply, Still]
  · nofun

omit [DecidableEq γ] in
/-- The threads have ended, and nobody starts another. -/
theorem Inv.of_still (hthread : v.serverThread = none) (hstill : v.Still) (hnone : ∀ c, (v.stage c).pending = false)
    (hst : ∀ c, (v.stage c).past = true → v.state = .kStopping ∨ v.state = .kStopped)
    (hasked : v.state = .kStopping → ∃ c, (v.stage c).past = true) : v.Inv where
  early t p hp hearly := by
    have hlive := hstill t p hp
    rw [RunPhase.live_of_early hearly] at hlive
    cases hlive
  single t t' p p' hp hp' hlive := by
    rw [hstill t p hp] at hlive
    cases hlive
  assigned t p hp hlive := by
    rw [hstill t p hp] at hlive
    cases hlive
  creating c hc := absurd hc (Stage.ne_creating (hnone c))
  pending c hc := absurd ((hnone c).symm.trans hc) (by decide)
  past c hc := ⟨hst c hc, hnone⟩
  asked := hasked
  joined _ _ := ⟨hthread, hstill⟩
  stopped _ := Or.inl ⟨hthread, hstill, hnone⟩

theorem Inv.joins (h : v.Inv) {c : γ} (hc : v.stage c = .stopping)
    (hend : ∀ t, v.serverThread = some t → ∃ b, v.runs t = some (.ended b)) :
    Inv { v with serverThread := none, stage := Function.update v.stage c .joined } := by
  obtain ⟨hst, hpending⟩ := h.past c (by rw [hc]; rfl)
  -- a thread that is alive is the one that was joined
  have hstill : v.Still := by
    intro t p hp
    have hassigned := h.assigned t p hp
    grind [RunPhase.live, Stage.pending]
  have hnone : ∀ d, (Function.update v.stage c .joined d).pending = false := by
    grind [Function.update_apply, Stage.pending]
  have hself : (Function.update v.stage c .joined c).past = true := by
    rw [Function.update_self]
    rfl
  exact .of_still rfl hstill hnone (fun _ _ => hst) fun _ => ⟨c, hself⟩

theorem Inv.stops (h : v.Inv) {c : γ} (hc : v.stage c = .joined) :
    Inv { v with state := .kStopped, stage := Function.update v.stage c .outside } := by
  obtain ⟨hst, hpending⟩ := h.past c (by rw [hc]; rfl)
  obtain ⟨hthread, hstill⟩ := h.joined c hc
  have hnone : ∀ d, (Function.update v.stage c .outside d).pending = false := by
    grind [Function.update_apply, Stage.pending]
  exact .of_still hthread hstill hnone (fun _ _ => Or.inr rfl) nofun

omit [DecidableEq γ] in
/-- A call of `Start` in progress leaves no room for a `Stop`. -/
theorem Inv.past_of_pending (h : v.Inv) {c : γ} (hc : (v.stage c).pending = true) (d : γ) :
    (v.stage d).past = false := by
  by_contra hd
  have := (h.past d (by simpa using hd)).2 c
  rw [hc] at this
  cases this

theorem Inv.givesUp (h : v.Inv) {c : γ} (hc : v.stage c = .creating) :
    Inv { v with stage := Function.update v.stage c .outside } := by
  obtain ⟨hst, hstill⟩ := h.creating c hc
  have hpending : (v.stage c).pending = true := by
    rw [hc]
    rfl
  have hone := (h.pending c hpending).2
  have hpast := h.past_of_pending hpending
  constructor
  · exact h.early
  · exact h.single
  · intro t p hp hlive
    rw [hstill t p hp] at hlive
    cases hlive
  · exact fun d _ => ⟨hst, hstill⟩
  · grind [Function.update_apply, Stage.pending]
  · grind [Function.update_apply, Stage.past]
  · grind
  · grind [Function.update_apply, Stage.past]
  · grind

theorem Inv.spawns (h : v.Inv) {c : γ} (t : ℕ) (hc : v.stage c = .creating) :
    Inv { v with
      runs := Function.update v.runs t (some .building)
      stage := Function.update v.stage c (.spawned t) } := by
  obtain ⟨hst, hstill⟩ := h.creating c hc
  have hpending : (v.stage c).pending = true := by
    rw [hc]
    rfl
  obtain ⟨hthread, hone⟩ := h.pending c hpending
  have hpast := h.past_of_pending hpending
  -- the new thread is the only one that is alive
  have hnew : ∀ u p, Function.update v.runs t (some .building) u = some p → p.live = true → u = t := by
    grind [Function.update_apply, Still]
  constructor
  · exact fun _ _ _ _ => hst
  · intro u u' p p' hp hp' hlive hlive'
    rw [hnew u p hp hlive, hnew u' p' hp' hlive']
  · intro u p hp hlive
    rw [hnew u p hp hlive]
    exact Or.inr ⟨c, Function.update_self ..⟩
  · grind [Function.update_apply, Stage.pending]
  · grind [Function.update_apply, Stage.pending]
  · grind [Function.update_apply, Stage.past]
  · grind
  · grind [Function.update_apply, Stage.past]
  · grind

theorem Inv.assigns (h : v.Inv) {c : γ} {t : ℕ} (hc : v.stage c = .spawned t) :
    Inv { v with serverThread := some t, stage := Function.update v.stage c .outside } := by
  have hpending : (v.stage c).pending = true := by
    rw [hc]
    rfl
  obtain ⟨hthread, hone⟩ := h.pending c hpending
  have hpast := h.past_of_pending hpending
  have hnone : ∀ d, (Function.update v.stage c .outside d).pending = false := by
    grind [Function.update_apply, Stage.pending]
  constructor
  · exact h.early
  · exact h.single
  · intro u p hp hlive
    have hassigned := h.assigned u p hp hlive
    grind [Stage.pending]
  · intro d hd
    exact absurd hd (Stage.ne_creating (hnone d))
  · intro d hd
    exact absurd ((hnone d).symm.trans hd) (by decide)
  · grind [Function.update_apply, Stage.past]
  · intro hst
    obtain ⟨d, hd⟩ := h.asked hst
    exact absurd ((hpast d).symm.trans hd) (by decide)
  · grind [Function.update_apply, Stage.past]
  · have hstopped := h.stopped
    grind

omit [DecidableEq γ] in
/-- A step of a thread that is alive: `state` and `runs` after it. -/
theorem Inv.thread (h : v.Inv) {t : ℕ} {p p' : RunPhase} {state : ServiceState} (hp : v.runs t = some p)
    (hlive : p.live = true) (hearly : p'.early = true → state = .kStarting)
    (hpast : ∀ c, (v.stage c).past = true → state = .kStopping ∨ state = .kStopped)
    (hasked : state = .kStopping → v.state = .kStopping)
    (hstopped : state = .kStopped → (v.state = .kStopped ∧ p'.live = true) ∨ p' = .ended false ∨
      v.state = .kStopping) :
    Inv { v with state := state, runs := Function.update v.runs t (some p') } := by
  -- nobody starts or has joined, and no other thread is alive
  have hcreating : ∀ c, v.stage c ≠ .creating := by
    intro c hc
    have := (h.creating c hc).2 t p hp
    rw [hlive] at this
    cases this
  have hjoined : ∀ c, v.stage c ≠ .joined := by
    intro c hc
    have := (h.joined c hc).2 t p hp
    rw [hlive] at this
    cases this
  have hother : ∀ u q, u ≠ t → v.runs u = some q → q.live = false := by
    intro u q hu hq
    by_contra hl
    exact hu (h.single u t q p hq hp (by simpa using hl) hlive)
  constructor
  · intro u q (hq : Function.update v.runs t (some p') u = some q) hq'
    by_cases hu : u = t
    · subst hu
      rw [Function.update_self] at hq
      cases hq
      exact hearly hq'
    · rw [Function.update_of_ne hu] at hq
      have hlive' := hother u q hu hq
      rw [RunPhase.live_of_early hq'] at hlive'
      cases hlive'
  · grind [Function.update_apply]
  · have hassigned := h.assigned t p hp hlive
    grind [Function.update_apply]
  · intro c hc
    exact absurd hc (hcreating c)
  · exact h.pending
  · intro c hc
    exact ⟨hpast c hc, (h.past c hc).2⟩
  · exact fun hs => h.asked (hasked hs)
  · intro c hc
    exact absurd hc (hjoined c)
  · intro hs
    rcases hstopped hs with ⟨hold, -⟩ | rfl | hold
    · rcases h.stopped hold with ⟨-, hstill, -⟩ | ⟨u, hu⟩ | hc
      · have := hstill t p hp
        rw [hlive] at this
        cases this
      · refine Or.inr (Or.inl ⟨u, ?_⟩)
        have hne : u ≠ t := by
          rintro rfl
          rw [hp] at hu
          cases hu
          cases hlive
        exact (Function.update_of_ne hne _ _).trans hu
      · exact Or.inr (Or.inr hc)
    · exact Or.inr (Or.inl ⟨t, Function.update_self ..⟩)
    · exact Or.inr (Or.inr (h.asked hold))

/-- **A step in order keeps the invariant.** -/
theorem Inv.effect (h : v.Inv) (he : Effect v v') : v'.Inv := by
  cases he with
  | same => exact h
  | begins c _ hst hpast hended => exact h.begins c hst hpast hended
  | givesUp c hc => exact h.givesUp hc
  | spawns c t hc => exact h.spawns t hc
  | assigns c t hc _ => exact h.assigns hc
  | asks c _ hst hpending => exact h.asks c hst hpending
  | joins c hc hend => exact h.joins hc hend
  | stops c hc => exact h.stops hc
  | advances t p p' hp hlive hlive' hearly =>
    refine h.thread hp hlive ?_ (fun c hc => (h.past c hc).1) id fun hs => Or.inl ⟨hs, hlive'⟩
    exact fun he => h.early t p hp (hearly he)
  | runs t hp =>
    have hst := h.early t _ hp rfl
    refine h.thread hp rfl nofun ?_ nofun nofun
    intro c hc
    have := (h.past c hc).1
    grind
  | ends t p hp hlive =>
    refine h.thread hp hlive nofun (fun _ _ => Or.inr rfl) nofun fun _ => ?_
    by_cases hs : v.state = .kStopping
    · exact Or.inr (Or.inr hs)
    · exact Or.inr (Or.inl (by rw [decide_eq_false hs]))

end View

end ApeServer.Service
