/-
  The account of a session.

  `Named` is the invariant: the session has no account until AuthService has
  confirmed one, and no read loop without an account.

  `no_impersonation`: whatever the frames of the client hold, a call other than
  those of AuthService comes after AuthService has confirmed the account of the
  session, and is made in its name; the account does not change.
-/
import ApeServer.Gateway.Steps

namespace ApeServer.WS

variable {P : Parsers} {Q : Printers} {C : Clients} {x x' : Session} {r : Session × List Output}

/-- The account is not confirmed yet. -/
def Main.Anonymous : Main → Prop
  | reading | registering _ | replying | loggingIn _ | validating _ => True
  | _ => False

/-- **The invariant.** -/
structure Named (x : Session) (past : Output → Prop) : Prop where
  ok : x.reader.Ok
  anonymous : x.main.Anonymous → x.account = 0
  reader : x.account = 0 → x.reader = .absent
  online : ∀ req token, x.main = .settingOnline req token → x.account ≠ 0
  login : ∀ req, x.main = .loggingIn req → req.account ≠ 0 ∧ past (.rpc (.login req.account req.data))
  token : ∀ req, x.main = .validating req → req.account ≠ 0 ∧ past (.rpc (.validateToken req.token))

/-- AuthService confirms the account: a login to it succeeds, or a token is
    valid for it. -/
def Confirms (past : Output → Prop) (a : SessionAction) (account : Account) : Prop :=
  (∃ password resp, past (.rpc (.login account password)) ∧ a = .main (.loggedIn (.ok resp)) ∧
    resp.success = true) ∨
  ∃ token resp, past (.rpc (.validateToken token)) ∧ a = .main (.validated (.ok resp)) ∧ resp.valid = true ∧
    resp.account = account

/-- The account stays, or AuthService confirms it. -/
def Identifies (x x' : Session) (past : Output → Prop) (a : SessionAction) : Prop :=
  x'.account = x.account ∨ (x.account = 0 ∧ Confirms past a x'.account)

section
variable {past : Output → Prop} {es : List Output}

/-- A step that is not a step to a call of AuthService. -/
theorem Named.move (h : Named x past) (ha : x'.account = x.account) (hr : x'.reader = x.reader)
    (hm : ¬ x'.main.Anonymous) (ho : ∀ req token, x'.main ≠ .settingOnline req token) :
    Named x' fun e => past e ∨ e ∈ es where
  ok := hr ▸ h.ok
  anonymous := fun hm' => absurd hm' hm
  reader := by
    rw [ha, hr]
    exact h.reader
  online := fun req token hm' => absurd hm' (ho req token)
  login := fun req hm' => absurd (by rw [hm']; trivial) hm
  token := fun req hm' => absurd (by rw [hm']; trivial) hm

theorem Beside.named (h : Named x past) (hb : Beside x (x', es)) : Named x' fun e => past e ∨ e ∈ es := by
  have ha : x'.account = x.account := hb.account
  have hm : x'.main = x.main := hb.main
  exact
    { ok := hb.ok h.ok
      anonymous := by
        rw [ha, hm]
        exact h.anonymous
      reader := by
        rw [ha]
        exact fun h₀ => hb.reader (h.reader h₀)
      online := by
        rw [ha, hm]
        exact h.online
      login := by
        rw [hm]
        exact fun req hreq => (h.login req hreq).imp_right Or.inl
      token := by
        rw [hm]
        exact fun req hreq => (h.token req hreq).imp_right Or.inl }

/-- The session gets its account. -/
theorem Named.authenticated (h : Named x past) (req : SdkWSReq) (token : String) (hn : req.account ≠ 0)
    (hr : x.reader = .absent) : Named (x.authenticated req token).1 fun e => past e ∨ e ∈ es where
  ok := h.ok
  anonymous := fun hm => hm.elim
  reader := fun _ => hr
  online := fun _ _ _ => hn
  login := fun _ hm => by cases hm
  token := fun _ hm => by cases hm

theorem MainMove.named {a : MainAction} (h : Named x past) (hm : MainMove Q x a (x', es)) :
    Named x' (fun e => past e ∨ e ∈ es) ∧ Identifies x x' past (.main a) ∧
      ∀ call, .rpc call ∈ es → call.ofAuth = true := by
  generalize hres : (x', es) = r at hm
  have hanon : ∀ {main : Main}, x.main = main → main.Anonymous → x.account = 0 ∧ x.reader = .absent := by
    intro main hm hc
    have h₀ := h.anonymous (hm ▸ hc)
    exact ⟨h₀, h.reader h₀⟩
  cases hm with
  | finish hk ha hr hes =>
    cases hres
    refine ⟨h.move ha hr (fun hc => hc.elim) (by simp), Or.inl ha, fun call hc => ?_⟩
    exact (hes _ hc).elim
  | register hmain =>
    cases hres
    obtain ⟨h₀, hr⟩ := hanon hmain trivial
    refine ⟨⟨h.ok, fun _ => h₀, fun _ => hr, by simp, by simp, by simp⟩, Or.inl rfl, by simp [Call.ofAuth]⟩
  | reply hmain =>
    cases hres
    obtain ⟨h₀, hr⟩ := hanon hmain trivial
    refine ⟨⟨h.ok, fun _ => h₀, fun _ => hr, by simp, by simp, by simp⟩, Or.inl rfl, by simp⟩
  | login hmain hn =>
    cases hres
    obtain ⟨h₀, hr⟩ := hanon hmain trivial
    refine ⟨⟨h.ok, fun _ => h₀, fun _ => hr, by simp, ?_, by simp⟩, Or.inl rfl, by simp [Call.ofAuth]⟩
    intro req' hreq
    cases hreq
    exact ⟨hn, Or.inr List.mem_cons_self⟩
  | validate hmain hn =>
    cases hres
    obtain ⟨h₀, hr⟩ := hanon hmain trivial
    refine ⟨⟨h.ok, fun _ => h₀, fun _ => hr, by simp, by simp, ?_⟩, Or.inl rfl, by simp [Call.ofAuth]⟩
    intro req' hreq
    cases hreq
    exact ⟨hn, Or.inr List.mem_cons_self⟩
  | @loggedIn req resp hmain hs =>
    obtain ⟨h₀, hr⟩ := hanon hmain trivial
    obtain ⟨hn, hcall⟩ := h.login req hmain
    cases hres
    exact ⟨h.authenticated req resp.token hn hr, Or.inr ⟨h₀, Or.inl ⟨_, _, hcall, rfl, hs⟩⟩, by simp⟩
  | @validated req resp hmain hv ha =>
    obtain ⟨h₀, hr⟩ := hanon hmain trivial
    obtain ⟨hn, hcall⟩ := h.token req hmain
    cases hres
    exact ⟨h.authenticated req req.token hn hr, Or.inr ⟨h₀, Or.inr ⟨_, _, hcall, rfl, hv, ha⟩⟩, by simp⟩
  | start hmain =>
    have hn := h.online _ _ hmain
    cases hres
    exact ⟨⟨trivial, fun hc => hc.elim, fun h₀ => absurd h₀ hn, by simp, by simp, by simp⟩, Or.inl rfl, by simp⟩
  | failed _ _ ha hr =>
    cases hres
    exact ⟨h.move ha hr (fun hc => hc.elim) (by simp), Or.inl ha, by simp⟩
  | _ =>
    cases hres
    exact ⟨h.move rfl rfl (fun hc => hc.elim) (by simp), Or.inl rfl, by simp⟩

/-- **A step.** -/
theorem Named.step {a : SessionAction} (h : Named x past) (hs : x.step P Q C a = some (x', es)) :
    Named x' (fun e => past e ∨ e ∈ es) ∧ Identifies x x' past a ∧
      ∀ call, .rpc call ∈ es → call.ofAuth = true ∨ (x.account ≠ 0 ∧ call.Carries x.account) := by
  have hbeside : Beside x (x', es) → Named x' (fun e => past e ∨ e ∈ es) ∧ Identifies x x' past a ∧
      ∀ call, .rpc call ∈ es → call.ofAuth = true ∨ (x.account ≠ 0 ∧ call.Carries x.account) := by
    intro hb
    refine ⟨hb.named h, Or.inl hb.account, fun call hc => ?_⟩
    obtain ⟨hr, hcarries⟩ := hb.outs _ hc
    exact Or.inr ⟨fun h₀ => hr (h.reader h₀), hcarries⟩
  cases a with
  | main b =>
    obtain ⟨hn, hi, hc⟩ := (main_move hs).named h
    exact ⟨hn, hi, fun call hcall => Or.inl (hc call hcall)⟩
  | _ => exact hbeside (step_beside h.ok hs (by simp))

end

/-! ## Runs -/

section
variable (T : SessionTrace P Q C)

theorem named_trace {i : ℕ} (hi : i ≤ T.len) : Named (T.state i) (T.past i) :=
  T.history (P := Named) ⟨trivial, fun _ => rfl, fun _ => rfl, by simp, by simp, by simp⟩
    (fun _ _ _ _ _ h hs => (h.step hs).1) hi

theorem account_trace {i j : ℕ} (hij : i ≤ j) (hj : j ≤ T.len) (h : (T.state i).account ≠ 0) :
    (T.state j).account = (T.state i).account := by
  induction j, hij using Nat.le_induction with
  | base => rfl
  | succ j hij ih =>
    have ih := ih (by omega)
    rcases ((named_trace T (i := j) (by omega)).step (T.next j (by omega))).2.1 with ha | ⟨h₀, -⟩
    · exact ha.trans ih
    · rw [ih] at h₀
      exact absurd h₀ h

/-- An account has been confirmed. -/
theorem confirmed_trace {i : ℕ} (hi : i ≤ T.len) (h : (T.state i).account ≠ 0) :
    ∃ k < i, Confirms (T.past k) (T.act k) (T.state i).account := by
  obtain ⟨k, hk, h₀, hn⟩ := T.began (P := fun x => x.account ≠ 0) (fun h => h rfl) h
  refine ⟨k, hk, ?_⟩
  have hne := hn (k + 1) (by omega) (by omega)
  rw [account_trace T (i := k + 1) (by omega) hi hne]
  rcases ((named_trace T (i := k) (by omega)).step (T.next k (by omega))).2.1 with ha | ⟨-, hc⟩
  · rw [ha] at hne
    exact absurd hne h₀
  · exact hc

end

/-- **No impersonation.**  Every call but those of AuthService comes after
    AuthService has confirmed the account of the session, and is made in its
    name; the account does not change. -/
theorem no_impersonation (T : SessionTrace P Q C) :
    (∀ i < T.len, ∀ call, .rpc call ∈ T.out i → call.ofAuth = true ∨
      (call.Carries (T.state i).account ∧ ∃ k < i, Confirms (T.past k) (T.act k) (T.state i).account)) ∧
    (∀ i j, i ≤ j → j ≤ T.len → (T.state i).account ≠ 0 → (T.state j).account = (T.state i).account) := by
  refine ⟨fun i hi call hc => ?_, fun i j hij hj h => account_trace T hij hj h⟩
  rcases ((named_trace T hi.le).step (T.next i hi)).2.2 call hc with ha | ⟨hn, hcarries⟩
  · exact Or.inl ha
  · exact Or.inr ⟨hcarries, confirmed_trace T hi.le hn⟩

/-- A login, and a message that names another sender. -/
def spoofActions : List SessionAction :=
  [.main (.frame [1]), .main (.loggedIn (.ok { success := true })), .main .setOnline, .loop (.frame [3])]

def spoofTrace : SessionTrace fewParsers noPrinters {} :=
  Machine.Trace.ofActions _ _ (fun i => spoofActions.getD i .closing) 4 (by decide +kernel)

/-- It is sent in the name of the session, whose account is confirmed. -/
theorem no_impersonation_spoof :
    Output.rpc (.sendMessages [{ sendID := 7, recvID := 3 }]) ∈ spoofTrace.out 3 ∧
    (spoofTrace.state 3).account = 7 ∧ ∃ k < 3, Confirms (spoofTrace.past k) (spoofTrace.act k) 7 := by
  have hcall : Output.rpc (.sendMessages [{ sendID := 7, recvID := 3 }]) ∈ spoofTrace.out 3 := by decide +kernel
  have hacc : (spoofTrace.state 3).account = 7 := by decide +kernel
  refine ⟨hcall, hacc, ?_⟩
  rcases (no_impersonation spoofTrace).1 3 (by decide) _ hcall with h | ⟨-, h⟩
  · cases h
  · rwa [hacc] at h

end ApeServer.WS
