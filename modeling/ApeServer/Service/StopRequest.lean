/-
  Stop requests (`Start` and `Stop` of `include/services/base_service.h`).

  * `BaseServiceServer.act_effect`: a step that is `Orderly` has one of the
    effects of `View.Effect`;
  * `StopHeld`: a service that was stopped does not run;
    `SafeAssign`: `server_thread_` is not joinable when `Start` is to assign it;
  * `stop_not_lost`: both hold in the runs whose steps are orderly;
  * `stop_lost`: the two ways they fail otherwise.
-/
import ApeServer.Service.Handover

namespace ApeServer.Service

/-! ## The steps of the service -/

namespace BaseServiceServer
variable {γ : Type} [DecidableEq γ] {s s' : BaseServiceServer γ} {a : Action γ} {es : List Unit}

/-- **A step in order**, at the two checks. -/
structure Orderly (s : BaseServiceServer γ) (a : Action γ) : Prop where
  /-- `Start` passes its check only when no `Stop` is past its own, and no
      `RunServer` has ended by itself -/
  start : ∀ c, a = .go c → s.callers c = .start .entered → s.state = .kStopped →
    (∀ d, (s.callers d).stage.past = false) ∧ ∀ t, s.runs t ≠ some (.ended false)
  /-- `Stop` passes its check only when no `Start` has still to assign its
      thread -/
  stop : ∀ c, a = .go c → s.callers c = .stop .entered → s.state = .kRunning →
    ∀ d, (s.callers d).stage.pending = false
  /-- `Stop` finds `kStarting` only while a `Start` is in progress -/
  starting : ∀ c, a = .go c → s.callers c = .stop .entered → s.state = .kStarting →
    ∃ d, (s.callers d).starting = true

theorem view_setCaller (s : BaseServiceServer γ) (c : γ) (p : Caller) :
    (s.setCaller c p).view = { s.view with stage := Function.update s.view.stage c p.stage } := by
  have hstage : (fun d => (Function.update s.callers c p d).stage) =
      Function.update (fun d => (s.callers d).stage) c p.stage := by
    funext d
    by_cases hd : d = c
    · subst hd
      simp
    · simp [Function.update_of_ne hd]
  rw [View.mk.injEq]
  exact ⟨rfl, rfl, rfl, hstage⟩

/-- A call goes on within its stage. -/
theorem setCaller_effect {c : γ} {p : Caller} (h : p.stage = (s.callers c).stage) :
    View.Effect s.view (s.setCaller c p).view := by
  have hview : (s.setCaller c p).view = s.view := by
    rw [view_setCaller, h]
    exact congrArg (fun st => ({ s.view with stage := st } : View γ)) (Function.update_eq_self c s.view.stage)
  rw [hview]
  exact .same

omit [DecidableEq γ] in
theorem shutdown_callers (s : BaseServiceServer γ) : s.shutdown.callers = s.callers := by
  unfold shutdown
  split <;> rfl

omit [DecidableEq γ] in
theorem view_shutdown (s : BaseServiceServer γ) : s.shutdown.view = s.view := by
  unfold shutdown
  split <;> rfl

theorem goStart_effect {c : γ} {p : StartAt} (hc : s.callers c = .start p) (ho : s.Orderly (.go c)) :
    View.Effect s.view (s.goStart c p).view := by
  have hstage : s.view.stage c = (Caller.start p).stage := congrArg Caller.stage hc
  cases p with
  | entered =>
    unfold goStart
    split_ifs with hst
    · exact setCaller_effect (by rw [hc]; rfl)
    · rw [not_not] at hst
      obtain ⟨hpast, hended⟩ := ho.start c rfl hc hst
      show View.Effect s.view { (s.setCaller c (.start .checked)).view with state := .kStarting }
      rw [view_setCaller]
      exact .begins c hstage hst hpast hended
  | checked => exact setCaller_effect (p := .start .globalReset) (by rw [hc]; rfl)
  | globalReset => exact setCaller_effect (p := .start .reset) (by rw [hc]; rfl)
  | reset =>
    show View.Effect s.view ((s.setRun s.spawned .building).setCaller c (.start (.spawned s.spawned))).view
    rw [view_setCaller]
    exact .spawns c s.spawned hstage
  | spawned t =>
    simp only [goStart]
    split
    · exact View.Effect.same (v := s.view)
    · next hthread =>
      show View.Effect s.view { (s.setCaller c (.start .assigned)).view with serverThread := some t }
      rw [view_setCaller]
      exact .assigns c t hstage hthread
  | assigned => exact setCaller_effect (c := c) (p := .idle) (by rw [hc]; rfl)

theorem goStop_effect {c : γ} {p : StopAt} (hc : s.callers c = .stop p) (ho : s.Orderly (.go c))
    (hs : s.goStop c p = some s') : View.Effect s.view s'.view := by
  have hstage : s.view.stage c = (Caller.stop p).stage := congrArg Caller.stage hc
  cases p with
  | entered =>
    simp only [goStop] at hs
    split_ifs at hs with hst
    · cases hs
      exact setCaller_effect (by rw [hc]; rfl)
    · cases hs
      rw [not_not] at hst
      show View.Effect s.view { (s.setCaller c (.stop .checked)).view with state := .kStopping }
      rw [view_setCaller]
      exact .asks c hstage hst (ho.stop c rfl hc hst)
  | checked =>
    cases hs
    exact setCaller_effect (p := .stop .flagged) (by rw [hc]; rfl)
  | flagged =>
    cases hs
    exact setCaller_effect (p := .stop .globalFlagged) (by rw [hc]; rfl)
  | globalFlagged =>
    cases hs
    exact setCaller_effect (by rw [hc]; rfl)
  | unregistered =>
    cases hs
    rw [← view_shutdown s]
    exact setCaller_effect (by rw [shutdown_callers, hc]; rfl)
  | shutDown =>
    simp only [goStop] at hs
    split at hs
    · next hthread =>
      cases hs
      rw [view_setCaller]
      have hnone : s.view.serverThread = none := hthread
      have hview : ({ s.view with stage := Function.update s.view.stage c .joined } : View γ) =
          { s.view with serverThread := none, stage := Function.update s.view.stage c .joined } := by
        rw [← hnone]
      rw [show (Caller.stop .joined).stage = .joined from rfl, hview]
      refine .joins c hstage fun t ht => ?_
      rw [hnone] at ht
      cases ht
    · next t hthread =>
      split at hs
      · next b hb =>
        cases hs
        show View.Effect s.view { (s.setCaller c (.stop .joined)).view with serverThread := none }
        rw [view_setCaller]
        refine .joins c hstage fun u hu => ⟨b, ?_⟩
        rw [show s.view.serverThread = some t from hthread] at hu
        cases hu
        exact hb
      · cases hs
  | joined =>
    cases hs
    show View.Effect s.view { (s.setCaller c .idle).view with state := .kStopped }
    rw [view_setCaller]
    exact .stops c hstage

theorem goRun_effect {t : ℕ} {p : RunPhase} (hp : s.runs t = some p) (hs : s.goRun t p = some s') :
    View.Effect s.view s'.view := by
  cases p with
  | building =>
    cases hs
    show View.Effect s.view ((s.setServer (some t)).setRun t .built).view
    have hview : (s.setServer (some t)).view = s.view := view_shutdown s
    show View.Effect s.view { (s.setServer (some t)).view with
      runs := Function.update (s.setServer (some t)).view.runs t (some .built) }
    rw [hview]
    exact .advances t .building .built hp rfl rfl fun _ => rfl
  | built =>
    cases hs
    exact .runs t hp
  | failed | leaving | threw =>
    cases hs
    exact .ends t _ hp rfl
  | registering =>
    simp only [goRun] at hs
    split at hs
    · cases hs
      exact .advances t _ _ hp rfl rfl nofun
    · cases hs
      exact .same
  | waiting u m =>
    simp only [goRun] at hs
    split_ifs at hs
    cases hs
    exact .advances t _ _ hp rfl rfl nofun
  | joining m =>
    simp only [goRun] at hs
    split_ifs at hs
    cases hs
    exact .advances t _ _ hp rfl rfl nofun
  | ended => cases hs

theorem goMonitor_effect {t : ℕ} {place : Monitor → RunPhase} {m : Monitor} (hp : s.runs t = some (place m))
    (hplace : ∀ m, (place m).live = true ∧ (place m).early = false) (hs : s.goMonitor t place m = some s') :
    View.Effect s.view s'.view := by
  have hearly : ∀ m', (place m').early = true → (place m).early = true := by
    intro m' h
    rw [(hplace m').2] at h
    cases h
  cases m with
  | watching =>
    simp only [goMonitor] at hs
    split_ifs at hs
    cases hs
    exact .advances t _ _ hp (hplace _).1 (hplace _).1 (hearly _)
  | leaving =>
    cases hs
    show View.Effect s.view { s.shutdown.view with
      runs := Function.update s.shutdown.view.runs t (some (place .ended)) }
    rw [view_shutdown]
    exact .advances t _ _ hp (hplace _).1 (hplace _).1 (hearly _)
  | ended => cases hs

/-- **A step in order has one of the effects.** -/
theorem act_effect (ho : s.Orderly a) (hs : s.act a = some s') : View.Effect s.view s'.view := by
  cases a with
  | callStart c =>
    simp only [act] at hs
    split_ifs at hs with hc
    cases hs
    exact setCaller_effect (by rw [hc]; rfl)
  | callStop c =>
    simp only [act] at hs
    split_ifs at hs with hc
    cases hs
    exact setCaller_effect (by rw [hc]; rfl)
  | go c =>
    simp only [act] at hs
    split at hs
    · cases hs
    · next p hc =>
      cases hs
      exact goStart_effect hc ho
    · next p hc => exact goStop_effect hc ho hs
  | startThrows c =>
    simp only [act] at hs
    split_ifs at hs with hc
    cases hs
    rw [view_setCaller]
    exact .givesUp c (congrArg Caller.stage hc)
  | run t =>
    obtain ⟨p, hp, hs⟩ := Option.bind_eq_some_iff.1 hs
    exact goRun_effect hp hs
  | buildFails t =>
    simp only [act] at hs
    split_ifs at hs with hp
    cases hs
    have hview : (s.setServer none).view = s.view := view_shutdown s
    show View.Effect s.view { (s.setServer none).view with
      runs := Function.update (s.setServer none).view.runs t (some .failed) }
    rw [hview]
    exact .advances t .building .failed hp rfl rfl nofun
  | throws t =>
    simp only [act] at hs
    split_ifs at hs with hp
    cases hs
    rcases hp with hp | hp
    · exact .advances t .building .threw hp rfl rfl nofun
    · exact .advances t .registering .threw hp rfl rfl nofun
  | monitor t =>
    simp only [act] at hs
    split at hs
    · next u m hp => exact goMonitor_effect hp (fun _ => ⟨rfl, rfl⟩) hs
    · next m hp => exact goMonitor_effect hp (fun _ => ⟨rfl, rfl⟩) hs
    · cases hs
  | setGlobal b =>
    cases hs
    exact .same

theorem step_act (hs : s.step a = some (s', es)) : s.act a = some s' := by
  unfold step at hs
  split_ifs at hs
  obtain ⟨s₁, hs₁, he⟩ := Option.map_eq_some_iff.1 hs
  cases he
  exact hs₁

/-! ## Runs -/

namespace Trace
variable (T : Trace γ)

theorem view_inv (ho : ∀ i < T.len, (T.state i).Orderly (T.act i)) {i : ℕ} (hi : i ≤ T.len) :
    (T.state i).view.Inv := by
  refine T.invariant_of (P := fun s => s.view.Inv) (I := fun _ => True) (fun _ _ => trivial) ho ?_ ?_ hi
  · exact ⟨nofun, nofun, nofun, nofun, nofun, nofun, nofun, nofun, fun _ => Or.inl ⟨rfl, nofun, fun _ => rfl⟩⟩
  · intro s a s' es _ ho h hs
    exact View.Inv.effect h (act_effect ho (step_act hs))

end Trace

/-- A call of `Stop` is made while no `Start` is in progress, and has returned
    before state `j`; no call of `Start` is made before state `k`. -/
structure Stopped (T : Trace γ) (i j k : ℕ) (c : γ) : Prop where
  order : i < j ∧ j ≤ k ∧ k ≤ T.len
  call : T.act i = .callStop c
  started : ∀ d, ((T.state i).callers d).starting = false
  returned : (T.state j).callers c = .idle
  noStart : ∀ l, i ≤ l → l < k → ∀ d, T.act l ≠ .callStart d

/-- **A stop request is not lost.** -/
def StopHeld (T : Trace γ) : Prop := ∀ i j k c, Stopped T i j k c → (T.state k).state ≠ .kRunning

/-- `server_thread_` is not joinable when `Start` passes its check, and when it
    assigns the thread. -/
def SafeAssign (T : Trace γ) : Prop :=
  ∀ i < T.len, ∀ c, T.act i = .go c →
    ((T.state i).callers c = .start .entered → (T.state i).state = .kStopped → (T.state i).serverThread = none) ∧
    ∀ t, (T.state i).callers c = .start (.spawned t) → (T.state i).serverThread = none

/-! ## After a stop -/

theorem goStart_callers (s : BaseServiceServer γ) (c : γ) (p : StartAt) :
    (s.goStart c p).callers = s.callers ∨ ∃ p', (s.goStart c p).callers = Function.update s.callers c p' := by
  cases p with
  | entered =>
    simp only [goStart]
    split_ifs
    · exact Or.inr ⟨_, rfl⟩
    · exact Or.inr ⟨_, rfl⟩
  | spawned t =>
    simp only [goStart]
    split
    · exact Or.inl rfl
    · exact Or.inr ⟨_, rfl⟩
  | checked | globalReset | reset | assigned => exact Or.inr ⟨_, rfl⟩

theorem goStop_callers {c : γ} {p : StopAt} (hs : s.goStop c p = some s') :
    ∃ p', s'.callers = Function.update s.callers c p' ∧ p'.starting = false := by
  cases p with
  | entered =>
    simp only [goStop] at hs
    split_ifs at hs
    · cases hs
      exact ⟨_, rfl, rfl⟩
    · cases hs
      exact ⟨_, rfl, rfl⟩
  | unregistered =>
    cases hs
    refine ⟨.stop .shutDown, ?_, rfl⟩
    rw [← shutdown_callers s]
    rfl
  | shutDown =>
    simp only [goStop] at hs
    split at hs
    · cases hs
      exact ⟨_, rfl, rfl⟩
    · split at hs
      · cases hs
        exact ⟨_, rfl, rfl⟩
      · cases hs
  | checked | flagged | globalFlagged | joined =>
    cases hs
    exact ⟨_, rfl, rfl⟩

omit [DecidableEq γ] in
theorem goRun_callers {t : ℕ} {p : RunPhase} (hs : s.goRun t p = some s') : s'.callers = s.callers := by
  cases p with
  | building =>
    cases hs
    exact shutdown_callers s
  | registering =>
    simp only [goRun] at hs
    split at hs <;> cases hs <;> rfl
  | waiting | joining =>
    simp only [goRun] at hs
    split_ifs at hs
    cases hs
    rfl
  | failed | built | leaving | threw =>
    cases hs
    rfl
  | ended => cases hs

omit [DecidableEq γ] in
theorem goMonitor_callers {t : ℕ} {place : Monitor → RunPhase} {m : Monitor}
    (hs : s.goMonitor t place m = some s') : s'.callers = s.callers := by
  cases m with
  | watching =>
    simp only [goMonitor] at hs
    split_ifs at hs
    cases hs
    rfl
  | leaving =>
    cases hs
    exact shutdown_callers s
  | ended => cases hs

/-- **A step moves one call**; only `callStart` makes one of `Start`, and only
    `go` takes one of `Stop` past its check. -/
theorem act_callers (hs : s.act a = some s') :
    s'.callers = s.callers ∨ ∃ c p, s'.callers = Function.update s.callers c p ∧
      (a = .go c ∨ s.callers c ≠ .stop .entered) ∧
      (p.starting = true → (s.callers c).starting = true ∨ a = .callStart c) := by
  cases a with
  | callStart c =>
    simp only [act] at hs
    split_ifs at hs with hc
    cases hs
    exact Or.inr ⟨c, _, rfl, Or.inr (by rw [hc]; nofun), fun _ => Or.inr rfl⟩
  | callStop c =>
    simp only [act] at hs
    split_ifs at hs with hc
    cases hs
    exact Or.inr ⟨c, _, rfl, Or.inr (by rw [hc]; nofun), nofun⟩
  | go c =>
    simp only [act] at hs
    split at hs
    · cases hs
    · next p hc =>
      cases hs
      rcases goStart_callers s c p with hsame | ⟨p', hp'⟩
      · exact Or.inl hsame
      · exact Or.inr ⟨c, p', hp', Or.inl rfl, fun _ => Or.inl (by rw [hc]; rfl)⟩
    · next p hc =>
      obtain ⟨p', hp', hfalse⟩ := goStop_callers hs
      refine Or.inr ⟨c, p', hp', Or.inl rfl, fun h => ?_⟩
      rw [hfalse] at h
      cases h
  | startThrows c =>
    simp only [act] at hs
    split_ifs at hs with hc
    cases hs
    exact Or.inr ⟨c, _, rfl, Or.inr (by rw [hc]; nofun), nofun⟩
  | run t =>
    obtain ⟨p, -, hs⟩ := Option.bind_eq_some_iff.1 hs
    exact Or.inl (goRun_callers hs)
  | buildFails t =>
    simp only [act] at hs
    split_ifs at hs
    cases hs
    exact Or.inl (shutdown_callers s)
  | throws t =>
    simp only [act] at hs
    split_ifs at hs
    cases hs
    exact Or.inl rfl
  | monitor t =>
    simp only [act] at hs
    split at hs
    · exact Or.inl (goMonitor_callers hs)
    · exact Or.inl (goMonitor_callers hs)
    · cases hs
  | setGlobal b =>
    cases hs
    exact Or.inl rfl

theorem act_starting (hs : s.act a = some s') {d : γ} (hcalm : (s.callers d).starting = false)
    (ha : a ≠ .callStart d) : (s'.callers d).starting = false := by
  rcases act_callers hs with hsame | ⟨c, p, hp, -, hstart⟩
  · rwa [hsame]
  · rw [hp]
    by_cases hd : d = c
    · subst hd
      rw [Function.update_self]
      by_contra hne
      rcases hstart (by simpa using hne) with h | h
      · rw [hcalm] at h
        cases h
      · exact ha h
    · rwa [Function.update_of_ne hd]

/-- Nobody starts the service, it does not run, and no thread will make it run. -/
structure Quelled (s : BaseServiceServer γ) : Prop where
  calm : ∀ d, (s.callers d).starting = false
  state : s.state = .kStopping ∨ s.state = .kStopped
  runs : ∀ t p, s.runs t = some p → p.early = false

omit [DecidableEq γ] in
theorem stage_outside {d : γ} (h : (s.callers d).starting = false) :
    (s.callers d).stage ≠ .creating ∧ (s.callers d).stage.pending = false := by
  rcases hd : s.callers d with _ | p | p
  · exact ⟨nofun, rfl⟩
  · rw [hd] at h
    cases h
  · cases p <;> exact ⟨nofun, rfl⟩

omit [DecidableEq γ] in
theorem Quelled.orderly (h : s.Quelled) (a : Action γ) : s.Orderly a := by
  constructor
  · intro c _ hc
    have := h.calm c
    rw [hc] at this
    cases this
  · intro c _ _ _ d
    exact (stage_outside (h.calm d)).2
  · intro c _ _ hst
    rcases h.state with h | h <;> rw [h] at hst <;> cases hst

/-- **A stopped service stays stopped**, until it is started. -/
theorem Quelled.act (h : s.Quelled) (ha : ∀ d, a ≠ .callStart d) (hs : s.act a = some s') : s'.Quelled := by
  have hcalm : ∀ d, (s'.callers d).starting = false := fun d => act_starting hs (h.calm d) (ha d)
  have hnone : ∀ d, s.view.stage d ≠ .creating ∧ (s.view.stage d).pending = false := fun d => stage_outside (h.calm d)
  suffices hview : (s'.view.state = .kStopping ∨ s'.view.state = .kStopped) ∧
      ∀ t p, s'.view.runs t = some p → p.early = false from ⟨hcalm, hview.1, hview.2⟩
  have hnew : ∀ d, s'.view.stage d ≠ .creating := fun d => (stage_outside (hcalm d)).1
  have hruns : ∀ t p', (p'.early = true → ∃ p, s.view.runs t = some p ∧ p.early = true) →
      ∀ u q, Function.update s.view.runs t (some p') u = some q → q.early = false := by
    intro t p' hp' u q hq
    by_contra hearly
    rw [Bool.not_eq_false] at hearly
    by_cases hu : u = t
    · subst hu
      rw [Function.update_self] at hq
      cases hq
      obtain ⟨p, hp, hpe⟩ := hp' hearly
      rw [h.runs u p hp] at hpe
      cases hpe
    · rw [Function.update_of_ne hu] at hq
      rw [h.runs u q hq] at hearly
      cases hearly
  have heffect := act_effect (h.orderly a) hs
  generalize s'.view = v' at heffect hnew ⊢
  cases heffect with
  | same => exact ⟨h.state, h.runs⟩
  | begins c => exact absurd (Function.update_self ..) (hnew c)
  | givesUp c hc => exact absurd hc (hnone c).1
  | spawns c t hc => exact absurd hc (hnone c).1
  | assigns c t hc =>
    have := (hnone c).2
    rw [hc] at this
    cases this
  | asks c _ hst =>
    have hstate : s.view.state = .kStopping ∨ s.view.state = .kStopped := h.state
    rw [hst] at hstate
    rcases hstate with h | h <;> cases h
  | joins c => exact ⟨h.state, h.runs⟩
  | stops c => exact ⟨Or.inr rfl, h.runs⟩
  | advances t p p' hp _ _ hearly => exact ⟨h.state, hruns t p' fun he => ⟨p, hp, hearly he⟩⟩
  | runs t hp => exact absurd (h.runs t _ hp) (by decide)
  | ends t p => exact ⟨Or.inr rfl, hruns t _ nofun⟩

/-- **The check of `Stop`** quells a service that nobody starts. -/
theorem quelled_of_check (h : s.view.Inv) {c : γ} (ho : s.Orderly (.go c)) (hc : s.callers c = .stop .entered)
    (hcalm : ∀ d, (s.callers d).starting = false) (hs : s.act (.go c) = some s') : s'.Quelled := by
  have hcalm' : ∀ d, (s'.callers d).starting = false := fun d => act_starting hs (hcalm d) nofun
  have hstarting : s.state ≠ .kStarting := by
    intro hst
    obtain ⟨d, hd⟩ := ho.starting c rfl hc hst
    rw [hcalm d] at hd
    cases hd
  have hruns : ∀ t p, s.runs t = some p → p.early = false := by
    intro t p hp
    by_contra he
    exact hstarting (h.early t p hp (by simpa using he))
  simp only [act, hc, goStop] at hs
  split_ifs at hs with hrun
  · cases hs
    refine ⟨hcalm', ?_, hruns⟩
    show s.state = .kStopping ∨ s.state = .kStopped
    cases hst : s.state with
    | kStopped => exact Or.inr rfl
    | kStarting => exact absurd hst hstarting
    | kRunning => exact absurd hst hrun
    | kStopping => exact Or.inl rfl
  · cases hs
    exact ⟨hcalm', Or.inl rfl, hruns⟩

namespace Trace
variable {T : Trace γ} {i j k : ℕ} {c : γ}

theorem act_some (T : Trace γ) {i : ℕ} (hi : i < T.len) : (T.state i).act (T.act i) = some (T.state (i + 1)) :=
  step_act (T.next i hi)

/-- Nobody starts the service from the call of `Stop` on. -/
theorem calm (h : Stopped T i j k c) {l : ℕ} (hil : i ≤ l) (hlk : l ≤ k) (d : γ) :
    ((T.state l).callers d).starting = false := by
  induction l, hil using Nat.le_induction with
  | base => exact h.started d
  | succ l hil ih =>
    have hl : l < T.len := by
      have := h.order
      omega
    exact act_starting (act_some T hl) (ih (by omega)) (h.noStart l hil hlk d)

/-- The step that takes the call of `Stop` past its check. -/
theorem check (h : Stopped T i j k c) :
    ∃ m, i < m ∧ m < j ∧ T.act m = .go c ∧ (T.state m).callers c = .stop .entered := by
  obtain ⟨hij, hjk, hk⟩ := h.order
  have hcall : (T.state (i + 1)).callers c = .stop .entered := by
    have hs := act_some T (i := i) (by omega)
    rw [h.call] at hs
    simp only [act] at hs
    split_ifs at hs
    rw [← Option.some.inj hs]
    exact Function.update_self ..
  have hback : (T.state j).callers c ≠ .stop .entered := by
    rw [h.returned]
    nofun
  obtain ⟨m, him, hmj, hm, hm'⟩ := T.became (P := fun s => s.callers c ≠ .stop .entered) (k := i + 1) (i := j)
    (by omega) (fun hne => hne hcall) hback
  rw [not_not] at hm
  refine ⟨m, by omega, hmj, ?_, hm⟩
  rcases act_callers (act_some T (i := m) (by omega)) with hsame | ⟨d, p, hp, hgo, -⟩
  · rw [hsame] at hm'
    exact absurd hm hm'
  · by_cases hd : c = d
    · subst hd
      exact hgo.resolve_right fun hne => hne hm
    · rw [hp, Function.update_of_ne hd] at hm'
      exact absurd hm hm'

theorem stopHeld (ho : ∀ i < T.len, (T.state i).Orderly (T.act i)) : StopHeld T := by
  intro i j k c h
  obtain ⟨hij, hjk, hk⟩ := h.order
  obtain ⟨m, him, hmj, hact, hc⟩ := check h
  have hm : m < T.len := by omega
  have hquelled : ∀ l, m + 1 ≤ l → l ≤ k → (T.state l).Quelled := by
    intro l hml hlk
    induction l, hml using Nat.le_induction with
    | base =>
      have hs := act_some T hm
      have horder := ho m hm
      rw [hact] at hs horder
      exact quelled_of_check (view_inv T ho hm.le) horder hc (calm h him.le (by omega)) hs
    | succ l hml ih => exact (ih (by omega)).act (h.noStart l (by omega) (by omega)) (act_some T (by omega))
  rcases (hquelled k (by omega) le_rfl).state with hst | hst <;> rw [hst] <;> nofun

theorem safeAssign (ho : ∀ i < T.len, (T.state i).Orderly (T.act i)) : SafeAssign T := by
  intro i hi c hact
  have hinv := view_inv T ho hi.le
  constructor
  · intro hc hst
    obtain ⟨hpast, hended⟩ := (ho i hi).start c hact hc hst
    rcases hinv.stopped hst with hidle | ⟨t, ht⟩ | ⟨d, hd⟩
    · exact hidle.1
    · exact absurd ht (hended t)
    · exact absurd ((hpast d).symm.trans hd) (by decide)
  · intro t hc
    refine (hinv.pending c ?_).1
    show ((T.state i).callers c).stage.pending = true
    rw [hc]
    rfl

end Trace

/-- **A stop request is never lost**, and a thread is only assigned where none
    is joinable, in the runs whose steps are in order. -/
theorem stop_not_lost (T : Trace γ) (ho : ∀ i < T.len, (T.state i).Orderly (T.act i)) :
    StopHeld T ∧ SafeAssign T :=
  ⟨Trace.stopHeld ho, Trace.safeAssign ho⟩

/-! ## Three runs -/

omit [DecidableEq γ] in
/-- Only the two checks can be out of order. -/
theorem orderly_of_no_check (h : ∀ c, a = .go c → s.callers c ≠ .start .entered ∧ s.callers c ≠ .stop .entered) :
    s.Orderly a :=
  ⟨fun c ha hc => absurd hc (h c ha).1, fun c ha hc => absurd hc (h c ha).2, fun c ha hc => absurd hc (h c ha).2⟩

/-- `Start`, from the call to the return. -/
def startCall : List (Action Unit) := [.callStart (), .go (), .go (), .go (), .go (), .go (), .go ()]

/-- A run that starts the service and goes on by the given actions. -/
def started (acts : List (Action Unit))
    (h : ∀ i < (startCall ++ acts).length,
      (step (Machine.runTo step {} (fun i => (startCall ++ acts).getD i (.go ())) i)
        ((startCall ++ acts).getD i (.go ()))).isSome) : Trace Unit :=
  Machine.Trace.ofActions step {} (fun i => (startCall ++ acts).getD i (.go ())) (startCall ++ acts).length h

/-- The service runs, is stopped, and `RunServer` leaves. -/
def stoppedRun : Trace Unit :=
  started [.run 0, .run 0, .run 0, .callStop (), .go (), .go (), .go (), .go (), .go (), .run 0, .monitor 0,
    .monitor 0, .run 0, .run 0, .go (), .go ()] (by decide)

theorem stop_not_lost_stopped : StopHeld stoppedRun ∧ SafeAssign stoppedRun := by
  refine stop_not_lost stoppedRun fun i hi => ?_
  have hlen : i < 23 := hi
  by_cases hcheck : i = 1 ∨ i = 11
  · rcases hcheck with rfl | rfl
    · refine ⟨fun _ _ _ _ => ⟨fun _ => rfl, nofun⟩, ?_, ?_⟩ <;>
        (rintro ⟨⟩ - hc; exact absurd hc (by decide))
    · refine ⟨?_, fun _ _ _ _ _ => rfl, fun _ _ _ hst => absurd hst (by decide)⟩
      rintro ⟨⟩ - hc
      exact absurd hc (by decide)
  · refine orderly_of_no_check ?_
    interval_cases i <;> first | omega | decide

/-- `Stop` is refused while the service is starting, and then it runs; and
    after a server that cannot be built `Start` would assign to a joinable
    thread. -/
theorem stop_lost :
    ¬ StopHeld (started [.callStop (), .go (), .run 0, .run 0] (by decide)) ∧
      ¬ SafeAssign (started [.buildFails 0, .run 0, .callStart (), .go ()] (by decide)) := by
  constructor
  · intro h
    refine h 7 9 11 () ⟨⟨by decide, by decide, le_rfl⟩, rfl, by decide, by decide, ?_⟩ (by decide)
    intro l hl hl'
    interval_cases l <;> decide
  · intro h
    have hthread := (h 10 (by decide) () rfl).1 (by decide) (by decide)
    revert hthread
    decide

end BaseServiceServer

end ApeServer.Service
