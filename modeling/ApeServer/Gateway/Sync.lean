/-
  The end of the offline synchronization.

  The scan, the acknowledgements, the timer and a disconnect share the pending
  messages.  `Settling` is the invariant: a message that the scan has queued is
  pending or acknowledged while the session is connected, and nothing is
  pending where the scan calls for a page.

  `offline_sync`: the synchronization is reported complete only when all is
  acknowledged.
-/
import ApeServer.Gateway.Steps

namespace ApeServer.WS

variable {P : Parsers} {Q : Printers} {C : Clients} {x x' : Session} {r : Session × List Output}

/-- The frame reports a completed synchronization. -/
def SdkWSResp.Completes (f : SdkWSResp) : Prop := f.type = 209 ∧ f.errorCode = "0"

instance (f : SdkWSResp) : Decidable f.Completes := inferInstanceAs (Decidable (_ ∧ _))

theorem not_completes_offlineFrame (account : Account) (m : MsgData) :
    ¬ (Session.offlineFrame Q account m).Completes := by
  simp [SdkWSResp.Completes, Session.offlineFrame]

theorem not_completes_syncError (account : Account) : ¬ (Session.syncError account).Completes := by
  simp [SdkWSResp.Completes, Session.syncError]

/-- Before the scan, and where it calls for a page. -/
def Main.Clear : Main → Prop
  | delivering .. | waiting _ | ended => False
  | _ => True

/-- The message is pending. -/
def Session.Pending (x : Session) (id : String) : Prop := ∃ p ∈ x.pending, p.1 = id

/-- **The invariant.** -/
structure Settling (x : Session) (past : Output → Prop) : Prop where
  ok : x.reader.Ok
  clear : x.main.Clear → x.pending = []
  kept : ∀ m, past (.offline m) →
    x.disconnected = true ∨ x.Pending m.serverMsgID ∨ past (.acked m.serverMsgID)
  completed : ∀ f, past (.queued f) → f.Completes → x.main = .ended

/-- What a step may put out. -/
def Output.Due (x x' : Session) : Output → Prop
  | .queued f => x.disconnected = false ∧ (f.Completes → x.pending = [] ∧ x.main ≠ .ended ∧ x'.main = .ended)
  | .fetch _ => x'.pending = [] ∧ x'.disconnected = false
  | _ => True

/-- What a step puts out that makes no message pending and reports nothing
    complete. -/
def Output.Plain (x x' : Session) : Output → Prop
  | .queued f => x.disconnected = false ∧ ¬ f.Completes
  | .fetch _ => x'.pending = [] ∧ x'.disconnected = false
  | .offline _ => False
  | _ => True

theorem Output.OnSocket.plain {e : Output} (h : e.OnSocket) : e.Plain x x' := by
  cases e with
  | wrote f => trivial
  | closed => trivial
  | _ => exact h.elim

theorem setPending_pending (x : Session) (m : MsgData) : (x.setPending m).Pending m.serverMsgID :=
  ⟨_, List.mem_append_right _ (List.mem_singleton.2 rfl), rfl⟩

theorem pending_setPending (m : MsgData) {p : String × PendingMsg} (hp : p ∈ x.pending) :
    (x.setPending m).Pending p.1 := by
  by_cases hid : p.1 = m.serverMsgID
  · rw [hid]
    exact setPending_pending x m
  · exact ⟨p, List.mem_append_left _ (List.mem_filter.2 ⟨hp, by simpa using hid⟩), rfl⟩

section
variable {past : Output → Prop} {es : List Output}

/-- A message that was pending or acknowledged still is. -/
theorem Settling.keep (h : Settling x past) (hd : x.disconnected = true → x'.disconnected = true)
    (hp : ∀ p ∈ x.pending, x'.Pending p.1 ∨ .acked p.1 ∈ es ∨ x'.disconnected = true) (m : MsgData)
    (hm : past (.offline m)) :
    x'.disconnected = true ∨ x'.Pending m.serverMsgID ∨ past (.acked m.serverMsgID) ∨ .acked m.serverMsgID ∈ es := by
  rcases h.kept m hm with hm | ⟨p, hmem, hid⟩ | hm
  · exact Or.inl (hd hm)
  · rw [← hid]
    rcases hp p hmem with hp | hp | hp
    · exact Or.inr (Or.inl hp)
    · exact Or.inr (Or.inr (Or.inr hp))
    · exact Or.inl hp
  · exact Or.inr (Or.inr (Or.inl hm))

theorem Beside.settling (h : Settling x past) (hb : Beside x (x', es)) :
    Settling x' (fun e => past e ∨ e ∈ es) ∧ ∀ e ∈ es, e.Due x x' := by
  refine ⟨⟨hb.ok h.ok, ?_, ?_, ?_⟩, ?_⟩
  · intro hc
    rw [show x'.main = x.main from hb.main] at hc
    have hs := hb.pending
    rw [h.clear hc] at hs
    exact List.subset_nil.1 hs
  · rintro m (hm | hm)
    · exact h.keep hb.connected (fun p hp => (hb.kept p hp).imp_left fun hp => ⟨p, hp, rfl⟩) m hm
    · exact (hb.outs _ hm).elim
  · rintro f (hf | hf) hc
    · exact (show x'.main = x.main from hb.main).trans (h.completed f hf hc)
    · exact absurd hc.1 (hb.outs _ hf).2
  · intro e he
    have ho := hb.outs e he
    cases e with
    | queued f => exact ⟨ho.1, fun hc => absurd hc.1 ho.2⟩
    | fetch after => exact ho.elim
    | _ => trivial

/-- A step of the main coroutine that makes no message pending and reports
    nothing complete. -/
theorem Settling.move (h : Settling x past) (hk : Keeps x x') (hr : x'.reader.Ok)
    (hclear : x'.main.Clear → x'.pending = []) (hend : x.main = .ended → x'.main = .ended)
    (hes : ∀ e ∈ es, e.Plain x x') : Settling x' (fun e => past e ∨ e ∈ es) ∧ ∀ e ∈ es, e.Due x x' := by
  refine ⟨⟨hr, hclear, ?_, ?_⟩, fun e he => ?_⟩
  · rintro m (hm | hm)
    · refine h.keep (fun hd => ?_) (fun p hp => ?_) m hm
      · rcases hk.connected with hd' | hd'
        · exact hd'.trans hd
        · exact hd'
      · rcases hk.pending with hp' | ⟨hd, -⟩
        · exact Or.inl ⟨p, hp' ▸ hp, rfl⟩
        · exact Or.inr (Or.inr hd)
    · exact (hes _ hm).elim
  · rintro f (hf | hf) hz
    · exact hend (h.completed f hf hz)
    · exact absurd hz (hes _ hf).2
  · have hp := hes e he
    cases e with
    | queued f => exact ⟨hp.1, fun hz => absurd hz hp.2⟩
    | fetch after => exact hp
    | _ => trivial

/-- The scan queues a message. -/
theorem Settling.queue (h : Settling x past) {m : MsgData} {rest : List MsgData} {q : WriteQueue}
    (hmain : x.main = .delivering m rest .asked) (hc : x.disconnected = false)
    (hx : x' = { x.setPending m with queue := some q, main := .delivering m rest .queued })
    (hes : es = [.queued (Session.offlineFrame Q x.account m), .offline m]) :
    Settling x' (fun e => past e ∨ e ∈ es) ∧ ∀ e ∈ es, e.Due x x' := by
  have hnot := not_completes_offlineFrame (Q := Q) x.account m
  subst hx hes
  refine ⟨⟨h.ok, fun hm => hm.elim, ?_, ?_⟩, fun e he => ?_⟩
  · rintro m' (hm | hm)
    · refine h.keep ?_ ?_ m' hm
      · exact fun hd => hd
      · exact fun p hp => Or.inl (pending_setPending m hp)
    · obtain rfl : m' = m := by simpa using hm
      exact Or.inr (Or.inl (setPending_pending x m'))
  · rintro f (hf | hf) hz
    · exact absurd (h.completed f hf hz) (by simp [hmain])
    · obtain rfl : f = Session.offlineFrame Q x.account m := by simpa using hf
      exact absurd hz hnot
  · rcases List.mem_pair.1 he with rfl | rfl
    · exact ⟨hc, fun hz => absurd hz hnot⟩
    · trivial

theorem MainMove.settling {a : MainAction} (h : Settling x past) (hm : MainMove Q x a (x', es)) :
    Settling x' (fun e => past e ∨ e ∈ es) ∧ ∀ e ∈ es, e.Due x x' := by
  generalize hres : (x', es) = r at hm
  -- nothing is pending before the scan, and where it has called for a page
  have hclear : ∀ {main : Main}, x.main = main → main.Clear → x.pending = [] := fun hm hc => h.clear (hm ▸ hc)
  cases hm with
  | finish hk ha hr hes =>
    cases hres
    refine h.move ⟨hk.connected, hk.pending⟩ (hr ▸ h.ok) (fun hc => hc.elim) (fun _ => rfl) fun e he => ?_
    exact (hes e he).plain
  | register hmain =>
    cases hres
    exact h.move ⟨Or.inl rfl, Or.inl rfl⟩ h.ok (fun _ => hclear hmain trivial) (by simp [hmain])
      (by simp [Output.Plain])
  | reply hmain =>
    cases hres
    exact h.move ⟨Or.inl rfl, Or.inl rfl⟩ h.ok (fun _ => hclear hmain trivial) (by simp [hmain])
      (by simp [Output.Plain])
  | login hmain =>
    cases hres
    exact h.move ⟨Or.inl rfl, Or.inl rfl⟩ h.ok (fun _ => hclear hmain trivial) (by simp [hmain])
      (by simp [Output.Plain])
  | validate hmain =>
    cases hres
    exact h.move ⟨Or.inl rfl, Or.inl rfl⟩ h.ok (fun _ => hclear hmain trivial) (by simp [hmain])
      (by simp [Output.Plain])
  | loggedIn hmain =>
    cases hres
    exact h.move ⟨Or.inl rfl, Or.inl rfl⟩ h.ok (fun _ => hclear hmain trivial) (by simp [hmain]) (by simp)
  | validated hmain =>
    cases hres
    exact h.move ⟨Or.inl rfl, Or.inl rfl⟩ h.ok (fun _ => hclear hmain trivial) (by simp [hmain]) (by simp)
  | start hmain hc hf =>
    cases hres
    have hp := hclear hmain trivial
    exact h.move ⟨Or.inl rfl, Or.inl rfl⟩ trivial (fun _ => hp) (by simp [hmain])
      (by simp [Output.Plain, SdkWSResp.Completes, hf, hp, hc])
  | deliver hscan =>
    cases hres
    exact h.move ⟨Or.inl rfl, Or.inl rfl⟩ h.ok (fun hc => hc.elim) (fun he => absurd he hscan.ne_ended) (by simp)
  | queued hmain hc =>
    cases hres
    exact h.queue hmain hc rfl rfl
  | failed hmain hk ha hr =>
    cases hres
    exact h.move ⟨hk.connected, hk.pending⟩ (hr ▸ h.ok) (fun hc => hc.elim) (by simp [hmain]) (by simp)
  | wait hscan =>
    cases hres
    exact h.move ⟨Or.inl rfl, Or.inl rfl⟩ h.ok (fun hc => hc.elim) (fun he => absurd he hscan.ne_ended) (by simp)
  | next hscan hc hp =>
    cases hres
    exact h.move ⟨Or.inl rfl, Or.inl rfl⟩ h.ok (fun _ => hp) (fun he => absurd he hscan.ne_ended)
      (by simp [Output.Plain, hp, hc])
  | complete hmain hc =>
    cases hres
    have hp := hclear hmain trivial
    refine ⟨⟨h.ok, fun hc => hc.elim, fun m hm => ?_, fun _ _ _ => rfl⟩, fun e he => ?_⟩
    · refine h.keep ?_ ?_ m (by simpa using hm)
      · exact fun hd => hd
      · intro p hmem
        rw [hp] at hmem
        cases hmem
    · rw [List.mem_singleton.1 he]
      exact ⟨hc, fun _ => ⟨hp, by simp [hmain], rfl⟩⟩
  | syncError hc =>
    cases hres
    exact h.move ⟨Or.inl rfl, Or.inl rfl⟩ h.ok (fun hc => hc.elim) (fun _ => rfl)
      (by simp [Output.Plain, not_completes_syncError, hc])

/-- **The invariant is kept.** -/
theorem Settling.step {a : SessionAction} (h : Settling x past) (hs : x.step P Q C a = some (x', es)) :
    Settling x' (fun e => past e ∨ e ∈ es) ∧ ∀ e ∈ es, e.Due x x' := by
  cases a with
  | main b => exact (main_move hs).settling h
  | _ => exact (step_beside h.ok hs (by simp)).settling h

end

/-! ## Runs -/

theorem settling_trace (T : SessionTrace P Q C) {i : ℕ} (hi : i ≤ T.len) : Settling (T.state i) (T.past i) :=
  T.history (P := Settling) ⟨trivial, fun _ => rfl, fun _ h => h.elim, fun _ h => h.elim⟩
    (fun _ _ _ _ _ h hs => (h.step hs).1) hi

theorem due (T : SessionTrace P Q C) {i : ℕ} (hi : i < T.len) {e : Output} (he : e ∈ T.out i) :
    e.Due (T.state i) (T.state (i + 1)) :=
  ((settling_trace T hi.le).step (T.next i hi)).2 e he

/-- A session stays disconnected. -/
theorem step_disconnected {a : SessionAction} {es : List Output} (hok : x.reader.Ok)
    (hs : x.step P Q C a = some (x', es)) (hd : x.disconnected = true) : x'.disconnected = true := by
  cases a with
  | main b =>
    have hm : MainMove Q x b (x', es) := main_move hs
    generalize hres : (x', es) = r at hm
    cases hm with
    | finish hk =>
      cases hres
      rcases hk.connected with hc | hc
      · exact hc.trans hd
      · exact hc
    | failed _ hk =>
      cases hres
      rcases hk.connected with hc | hc
      · exact hc.trans hd
      · exact hc
    | _ =>
      cases hres
      exact hd
  | _ => exact (step_beside hok hs (by simp)).connected hd

theorem disconnected_from (T : SessionTrace P Q C) {i j : ℕ} (hij : i ≤ j) (hj : j ≤ T.len)
    (hd : (T.state i).disconnected = true) : (T.state j).disconnected = true :=
  T.related (P := fun x => x.reader.Ok) (R := fun x x' => x.disconnected = true → x'.disconnected = true)
    (fun _ hk => (settling_trace T hk).ok) (fun _ h => h) (fun _ _ _ h h' hd => h' (h hd))
    (fun _ _ _ _ hok hs hd => step_disconnected hok hs hd) hij hj hd

theorem mainStep_timerFired (h : x.mainStep P Q .timerFired = some r) :
    ∃ next, x.main = .waiting next ∧ r = x.timerFired next := by
  unfold Session.mainStep at h
  cases hm : x.main with
  | waiting next =>
    rw [hm] at h
    cases h
    exact ⟨next, rfl, rfl⟩
  | delivering m rest d =>
    rw [hm] at h
    cases d <;> cases h
  | _ =>
    rw [hm] at h
    cases h

/-- **Offline synchronization** is honest:

    * it is reported complete only when `AckMsg` has returned OK for every
      message that the scan has queued;
    * a page is called for only while nothing is pending and the session is
      connected;
    * a wait that ends with messages pending disconnects the session, and no
      completion is reported then or ever;
    * nothing is queued once the session is disconnected. -/
theorem offline_sync (T : SessionTrace P Q C) :
    (∀ i < T.len, ∀ f, .queued f ∈ T.out i → f.Completes →
      ∀ m, T.past i (.offline m) → T.past i (.acked m.serverMsgID)) ∧
    (∀ i < T.len, ∀ after, .fetch after ∈ T.out i →
      (T.state (i + 1)).pending = [] ∧ (T.state (i + 1)).disconnected = false) ∧
    (∀ i < T.len, T.act i = .main .timerFired → (T.state i).pending ≠ [] →
      (T.state (i + 1)).disconnected = true ∧ ∀ j < T.len, ∀ f, .queued f ∈ T.out j → ¬ f.Completes) ∧
    (∀ i, (T.state i).disconnected = true → ∀ j, i ≤ j → j < T.len → ∀ f, .queued f ∉ T.out j) := by
  have hquiet : ∀ i, (T.state i).disconnected = true → ∀ j, i ≤ j → j < T.len → ∀ f, .queued f ∉ T.out j := by
    intro i hd j hij hj f hf
    have hc := (due T hj hf).1
    rw [disconnected_from T hij hj.le hd] at hc
    cases hc
  refine ⟨?_, fun i hi after he => due T hi he, ?_, hquiet⟩
  · intro i hi f hf hz m hm
    obtain ⟨hc, hdue⟩ := due T hi hf
    obtain ⟨hp, -⟩ := hdue hz
    rcases (settling_trace T hi.le).kept m hm with hd | ⟨p, hmem, -⟩ | ha
    · rw [hc] at hd
      cases hd
    · rw [hp] at hmem
      cases hmem
    · exact ha
  · intro i hi hact hp
    have hs := T.next i hi
    rw [hact] at hs
    obtain ⟨next, hmain, hr⟩ := mainStep_timerFired hs
    have hd : (T.state (i + 1)).disconnected = true := by
      have hd := timerFired_pending next hp
      rwa [← hr] at hd
    refine ⟨hd, fun j hj f hf hz => ?_⟩
    rcases lt_trichotomy j i with hji | rfl | hji
    · have he := (settling_trace T hi.le).completed f ⟨j, hji, hf⟩ hz
      rw [hmain] at he
      cases he
    · exact hp ((due T hj hf).2 hz).1
    · exact hquiet _ hd j hji hj f hf

/-- One offline message; the first `AckMsg` for it fails. -/
def syncActions : List SessionAction :=
  [.main (.frame [1]), .main (.loggedIn (.ok { success := true })), .main .setOnline,
   .main (.fetched (.ok [fewMessage])), .main .action, .main (.delivered (.ok ())), .loop (.frame [2]),
   .loop (.acknowledged (.error "unavailable")), .loop .paused, .loop (.acknowledged (.ok ())), .main .timerFired,
   .main (.fetched (.ok []))]

def syncTrace : SessionTrace fewParsers noPrinters {} :=
  Machine.Trace.ofActions _ _ (fun i => syncActions.getD i .closing) 12 (by decide +kernel)

/-- Its acknowledgement comes before the report. -/
theorem offline_sync_retried :
    Output.queued (Session.complete 7) ∈ syncTrace.out 11 ∧ syncTrace.past 11 (.acked "m") := by
  have hf : Output.queued (Session.complete 7) ∈ syncTrace.out 11 := by decide +kernel
  have hm : Output.offline fewMessage ∈ syncTrace.out 4 := by decide +kernel
  exact ⟨hf, (offline_sync syncTrace).1 11 (by decide) _ hf (by decide) fewMessage ⟨4, by decide, hm⟩⟩

end ApeServer.WS
