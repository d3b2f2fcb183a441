/-
  Tokens.

  * `LoginMove`, `ValidateMove`, `StoreMove`, `RegMove`: what a step does to
    one call, to the entry of a token, and to registration;
  * `token_provenance`: a token that is accepted was issued to who knows the
    password of its account, within the last seven days;
  * `token_lasts`: a token is accepted until it expires.
-/
import ApeServer.Auth.Texts
import ApeServer.Registration.Origin
import ApeServer.Registration.Allocation

namespace ApeServer.Auth

open Registration

/-! ## Moves -/

section
variable {sha256 : String → Bytes} {w w' : World} {a : Action} {es : List Event}

/-- What a step does to a login. -/
inductive LoginMove (sha256 : String → Bytes) (w w' : World) : LoginCall → LoginCall → Prop
  | refused {request : LoginRequest} : LoginMove sha256 w w' .idle (.answered request invalidParam .ok)
  | asked {request : LoginRequest} {token : String} (h : request.account ≠ 0 ∧ request.password ≠ "") :
      LoginMove sha256 w w' .idle (.asked request token (calculateExpiry w.now))
  | failed {request : LoginRequest} {token : String} {expiresAt : ℕ} {response : AuthRegResponse}
      (h : response = userNotFound ∨ response = wrongPassword) :
      LoginMove sha256 w w' (.asked request token expiresAt) (.answered request response .ok)
  | verified {request : LoginRequest} {token : String} {expiresAt : ℕ} {user : Registration.UserRow}
      (hu : user ∈ w.reg.db.users) (ha : user.account = request.account)
      (hp : hashPassword sha256 request.password user.passwordSalt = user.passwordHash) :
      LoginMove sha256 w w' (.asked request token expiresAt) (.verified request token expiresAt user)
  | stored {request : LoginRequest} {token : String} {expiresAt : ℕ} {user : Registration.UserRow}
      (hr : w'.redis (tokenKey token) = some (tokenValue user, w.now + 1000 * tokenTtlSeconds)) :
      LoginMove sha256 w w' (.verified request token expiresAt user)
        (.answered request (loginOk token expiresAt user) .ok)
  | threw {request : LoginRequest} {token : String} {expiresAt : ℕ} {user : Registration.UserRow} {message : String} :
      LoginMove sha256 w w' (.verified request token expiresAt user)
        (.answered request (internalError message) (.internal message))

/-- What a step does to a validation. -/
inductive ValidateMove (w : World) : ValidateCall → ValidateCall → Prop
  | refused {token : String} : ValidateMove w .idle (.answered token {} .ok)
  | asked {token : String} : ValidateMove w .idle (.asked token)
  | failed {token : String} {status : Status} : ValidateMove w (.asked token) (.answered token {} status)
  | read {token value : String} {userID account : ℕ} (hv : w.redis.get w.now (tokenKey token) = some value)
      (hp : parseValue value = .user userID account) : ValidateMove w (.asked token) (.read token userID account)
  | threw {token : String} {userID account : ℕ} :
      ValidateMove w (.read token userID account) (.answered token {} (.internal "Redis error"))
  | valid {token : String} {userID account : ℕ} :
      ValidateMove w (.read token userID account) (.answered token (w.validToken token userID account) .ok)

/-- What a step does to the entry of a token. -/
inductive StoreMove (w : World) (a : Action) (token : String) :
    Option (String × ℕ) → Option (String × ℕ) → Prop
  | same {x : Option (String × ℕ)} : StoreMove w a token x x
  | lost {x : Option (String × ℕ)} (ha : a = .lose (tokenKey token)) : StoreMove w a token x none
  | stored {x : Option (String × ℕ)} {l : ℕ} {exception : Option String} {request : LoginRequest} {expiresAt : ℕ}
      {user : Registration.UserRow} (ha : a = .setex l true exception)
      (hl : w.logins l = .verified request token expiresAt user) :
      StoreMove w a token x (some (tokenValue user, w.now + 1000 * tokenTtlSeconds))

/-- What a step does to registration. -/
inductive RegMove (sha256 : String → Bytes) (w : World) (a : Action) (es : List Event) : Registration.World → Prop
  | same : RegMove sha256 w a es w.reg
  | register {k : ℕ} {request : RegisterRequest} {uuid : String} {input : Input} {r : Registration.World}
      {us : List Unit} (ha : a = .register k request uuid) (hr : request.register sha256 uuid = .ok input)
      (hs : Registration.step sha256 w.reg (.register k input) = some (r, us)) : RegMove sha256 w a es r
  | other {b : Registration.Action} {r : Registration.World} {us : List Unit}
      (hb : ∀ k input, b ≠ .register k input) (hs : Registration.step sha256 w.reg b = some (r, us)) :
      RegMove sha256 w a es r

/-- **What a step does**, and answers. -/
structure Moves (sha256 : String → Bytes) (w : World) (a : Action) (w' : World) (es : List Event) : Prop where
  reg : RegMove sha256 w a es w'.reg
  now : w.now ≤ w'.now
  logins : ∀ k, w'.logins k = w.logins k ∨ LoginMove sha256 w w' (w.logins k) (w'.logins k)
  validations : ∀ k, w'.validations k = w.validations k ∨ ValidateMove w (w.validations k) (w'.validations k)
  redis : ∀ token, StoreMove w a token (w.redis (tokenKey token)) (w'.redis (tokenKey token))
  loggedIn : ∀ k request response status, .loggedIn k request response status ∈ es →
    LoginMove sha256 w w' (w.logins k) (.answered request response status)
  validated : ∀ k token response status, .validated k token response status ∈ es →
    ValidateMove w (w.validations k) (.answered token response status)

/-- What a login answers when it ends. -/
def LoginCall.events (k : ℕ) : LoginCall → List Event
  | answered request response status => [.loggedIn k request response status]
  | _ => []

def ValidateCall.events (k : ℕ) : ValidateCall → List Event
  | answered token response status => [.validated k token response status]
  | _ => []

/-- A step of one login. -/
theorem Moves.login {k : ℕ} {c c' : LoginCall} (hk : w.logins k = c) (hm : LoginMove sha256 w w' c c')
    (hlogins : w'.logins = Function.update w.logins k c') (hes : es = c'.events k) (hreg : w'.reg = w.reg)
    (hnow : w'.now = w.now) (hval : w'.validations = w.validations)
    (hredis : ∀ token, StoreMove w a token (w.redis (tokenKey token)) (w'.redis (tokenKey token))) :
    Moves sha256 w a w' es where
  reg := hreg ▸ .same
  now := hnow.ge
  logins j := by
    rw [hlogins, Function.update_apply]
    split_ifs with hj
    · rw [hj, hk]
      exact Or.inr hm
    · exact Or.inl rfl
  validations j := Or.inl (by rw [hval])
  redis := hredis
  loggedIn j request response status he := by
    rw [hes] at he
    cases c' with
    | answered =>
      cases List.mem_singleton.1 he
      exact hk ▸ hm
    | idle | asked | verified => cases he
  validated j token response status he := by
    rw [hes] at he
    cases c' with
    | answered => cases List.mem_singleton.1 he
    | idle | asked | verified => cases he

/-- A step of one validation. -/
theorem Moves.validate {k : ℕ} {c c' : ValidateCall} (hk : w.validations k = c) (hm : ValidateMove w c c')
    (hes : es = c'.events k) : Moves sha256 w a (w.setValidation k c') es where
  reg := .same
  now := le_rfl
  logins _ := Or.inl rfl
  validations j := by
    change Function.update w.validations k c' j = _ ∨ ValidateMove w _ (Function.update w.validations k c' j)
    rw [Function.update_apply]
    split_ifs with hj
    · rw [hj, hk]
      exact Or.inr hm
    · exact Or.inl rfl
  redis _ := .same
  loggedIn j request response status he := by
    rw [hes] at he
    cases c' with
    | answered => cases List.mem_singleton.1 he
    | idle | asked | read => cases he
  validated j token response status he := by
    rw [hes] at he
    cases c' with
    | answered =>
      cases List.mem_singleton.1 he
      exact hk ▸ hm
    | idle | asked | read => cases he

/-- A step beside the calls. -/
theorem Moves.beside {r : Registration.World} {redis : Expiring String String} {now : ℕ}
    (hreg : RegMove sha256 w a es r) (hnow : w.now ≤ now)
    (hredis : ∀ token, StoreMove w a token (w.redis (tokenKey token)) (redis (tokenKey token)))
    (hes : ∀ e ∈ es, ∃ k request answer, e = .registered k request answer) :
    Moves sha256 w a { w with reg := r, redis := redis, now := now } es where
  reg := hreg
  now := hnow
  logins _ := Or.inl rfl
  validations _ := Or.inl rfl
  redis := hredis
  loggedIn k request response status he := by
    obtain ⟨_, _, _, h⟩ := hes _ he
    cases h
  validated k token response status he := by
    obtain ⟨_, _, _, h⟩ := hes _ he
    cases h

theorem step_moves (hs : step sha256 w a = some (w', es)) : Moves sha256 w a w' es := by
  cases a with
  | tick ms =>
    cases hs
    exact .beside .same (Nat.le_add_right _ _) (fun _ => .same) (by simp)
  | register k request uuid =>
    simp only [step] at hs
    split at hs
    · cases hs
      exact .beside .same le_rfl (fun _ => .same) (by simp)
    · next input hr =>
      obtain ⟨⟨r, us⟩, hreg, he⟩ := Option.map_eq_some_iff.1 hs
      cases he
      exact .beside (.register rfl hr hreg) le_rfl (fun _ => .same) (by simp)
  | registration b =>
    cases b with
    | register => cases hs
    | refillAccounts | run | fail | settle =>
      obtain ⟨⟨r, us⟩, hreg, he⟩ := Option.map_eq_some_iff.1 hs
      cases he
      exact .beside (.other (by rintro k input ⟨⟩) hreg) le_rfl (fun _ => .same) (by simp)
  | login k request uuid =>
    simp only [step] at hs
    split at hs
    · next hk =>
      simp only [Option.some.injEq, World.login] at hs
      split_ifs at hs with h
      · cases hs
        exact .login hk .refused rfl rfl rfl rfl rfl fun _ => .same
      · cases hs
        exact .login hk (.asked (not_or.1 h)) rfl rfl rfl rfl rfl fun _ => .same
    · cases hs
  | findUser k fails =>
    simp only [step] at hs
    split at hs
    · next request token expiresAt hk =>
      have hfail : ∀ {response}, response = userNotFound ∨ response = wrongPassword →
          Moves sha256 w (.findUser k fails) (w.endLogin k request response .ok).1
            (w.endLogin k request response .ok).2 := fun h =>
        .login hk (.failed h) rfl rfl rfl rfl rfl fun _ => .same
      generalize hfound : (if fails then none else w.findUser request.account) = found at hs
      cases found with
      | none =>
        cases hs
        exact hfail (Or.inl rfl)
      | some user =>
        have hf : w.findUser request.account = some user := by
          cases fails
          · exact hfound
          · cases hfound
        simp only [Option.some.injEq, World.checkUser] at hs
        split_ifs at hs with hp
        · cases hs
          exact hfail (Or.inr rfl)
        · cases hs
          have hmem := List.mem_of_find?_eq_some hf
          have ha : user.account = request.account := by simpa using List.find?_some hf
          exact .login hk (.verified hmem ha (not_not.1 hp)) rfl rfl rfl rfl rfl fun _ => .same
    · cases hs
  | setex k applied exception =>
    simp only [step] at hs
    split at hs
    · next request token expiresAt user hk =>
      have hstore : ∀ t, StoreMove w (.setex k applied exception) t (w.redis (tokenKey t))
          ((if applied then w.storeToken token user else w).redis (tokenKey t)) := by
        intro t
        cases applied with
        | false => exact .same
        | true =>
          by_cases ht : t = token
          · subst ht
            simp only [if_true, World.storeToken, Expiring.setex_self]
            exact .stored rfl hk
          · simp only [if_true, World.storeToken, Expiring.setex_other fun h => ht (tokenKey_inj h)]
            exact .same
      split at hs
      · next message =>
        cases hs
        refine .login hk .threw ?_ rfl ?_ ?_ ?_ hstore
        all_goals cases applied <;> rfl
      · split_ifs at hs with happ
        cases hs
        subst happ
        exact .login hk (.stored Expiring.setex_self) rfl rfl rfl rfl rfl hstore
    · cases hs
  | validate k token =>
    simp only [step] at hs
    split at hs
    · next hk =>
      simp only [Option.some.injEq, World.validate] at hs
      split_ifs at hs with h
      · cases hs
        exact .validate hk .refused rfl
      · cases hs
        exact .validate hk .asked rfl
    · cases hs
  | get k fails =>
    simp only [step] at hs
    split at hs
    · next token hk =>
      split_ifs at hs with hfails
      · cases hs
        exact .validate hk .failed rfl
      · cases hv : w.redis.get w.now (tokenKey token) with
        | none =>
          rw [hv] at hs
          cases hs
          exact .validate hk .failed rfl
        | some value =>
          rw [hv] at hs
          simp only [World.readToken] at hs
          split at hs
          · cases hs
            exact .validate hk .failed rfl
          · cases hs
            exact .validate hk .failed rfl
          · next userID account hp =>
            cases hs
            exact .validate hk (.read hv hp) rfl
    · cases hs
  | ttl k fails =>
    simp only [step] at hs
    split at hs
    · next token userID account hk =>
      split_ifs at hs with hfails
      · cases hs
        exact .validate hk .threw rfl
      · cases hs
        exact .validate hk .valid rfl
    · cases hs
  | other key value sec =>
    cases hs
    refine .beside .same le_rfl (fun token => ?_) (by simp)
    cases value with
    | none =>
      simp only [Expiring.del_other (tokenKey_ne_other token key)]
      exact .same
    | some v =>
      simp only [Expiring.setex_other (tokenKey_ne_other token key)]
      exact .same
  | lose key =>
    cases hs
    refine .beside .same le_rfl (fun token => ?_) (by simp)
    by_cases hkey : tokenKey token = key
    · subst hkey
      simp only [Expiring.del_self]
      exact .lost rfl
    · simp only [Expiring.del_other hkey]
      exact .same

/-! ## Registration and logins in a run -/

/-- Who knows the password of a user: a request with its account. -/
structure Knows (sha256 : String → Bytes) (w : World) (request : LoginRequest) (user : Registration.UserRow) :
    Prop where
  mem : user ∈ w.reg.db.users
  account : user.account = request.account
  password : hashPassword sha256 request.password user.passwordSalt = user.passwordHash

/-- The invariant of registration and of the logins. -/
structure Sound (sha256 : String → Bytes) (w : World) : Prop where
  reg : Registration.Inv w.reg
  asked : ∀ k request token expiresAt, w.logins k = .asked request token expiresAt → expiresAt ≤ calculateExpiry w.now
  verified : ∀ k request token expiresAt user, w.logins k = .verified request token expiresAt user →
    Knows sha256 w request user ∧ expiresAt ≤ calculateExpiry w.now

theorem RegMove.inv {r : Registration.World} (h : RegMove sha256 w a es r) (hi : Registration.Inv w.reg) :
    Registration.Inv r := by
  cases h with
  | same => exact hi
  | register _ _ hs | other _ hs => exact step_inv hi hs

/-- Users stay. -/
theorem RegMove.users {r : Registration.World} (h : RegMove sha256 w a es r) (hi : Registration.Inv w.reg) :
    w.reg.db.users ⊆ r.db.users := by
  have hstep : ∀ {b : Registration.Action} {us : List Unit}, Registration.step sha256 w.reg b = some (r, us) →
      w.reg.db.users ⊆ r.db.users := by
    intro b us hs
    rcases step_db hi hs with hdb | ⟨write, -, hdb⟩
    · rw [hdb]
      exact List.Subset.refl _
    · rw [hdb]
      cases write with
      | user => exact List.subset_append_left _ _
      | accounts => exact List.Subset.refl _
  cases h with
  | same => exact List.Subset.refl _
  | register _ _ hs | other _ hs => exact hstep hs

theorem calculateExpiry_mono {m n : ℕ} (h : m ≤ n) : calculateExpiry m ≤ calculateExpiry n :=
  Nat.add_le_add_right (Nat.div_le_div_right h) _

theorem Sound.step (h : Sound sha256 w) (hs : step sha256 w a = some (w', es)) : Sound sha256 w' := by
  have hm := step_moves hs
  have hle := calculateExpiry_mono hm.now
  have hknows : ∀ {request user}, Knows sha256 w request user → Knows sha256 w' request user :=
    fun hk => ⟨hm.reg.users h.reg hk.mem, hk.account, hk.password⟩
  refine ⟨hm.reg.inv h.reg, ?_, ?_⟩
  · intro k request token expiresAt hk
    rcases hm.logins k with hsame | hmove
    · exact (h.asked k request token expiresAt (hsame ▸ hk)).trans hle
    · rw [hk] at hmove
      generalize w.logins k = c at hmove
      cases hmove
      exact hle
  · intro k request token expiresAt user hk
    rcases hm.logins k with hsame | hmove
    · obtain ⟨hu, he⟩ := h.verified k request token expiresAt user (hsame ▸ hk)
      exact ⟨hknows hu, he.trans hle⟩
    · rw [hk] at hmove
      generalize hc : w.logins k = c at hmove
      cases hmove with
      | verified hu ha hp => exact ⟨hknows ⟨hu, ha, hp⟩, (h.asked k request token expiresAt hc).trans hle⟩

end

section
variable {sha256 : String → Bytes} (T : AuthTrace sha256) {i j : ℕ}

theorem sound_trace (hi : i ≤ T.len) : Sound sha256 (T.state i) := by
  refine T.invariant (P := Sound sha256) ⟨Registration.inv_start, ?_, ?_⟩ (fun _ _ _ _ h hs => h.step hs) hi
  · intro k request token expiresAt h
    cases h
  · intro k request token expiresAt user h
    cases h

/-- A request that `Register` accepted. -/
def Submitted (i : ℕ) (request : RegisterRequest) (input : Input) : Prop :=
  ∃ m < i, ∃ k uuid, T.act m = .register k request uuid ∧ request.register sha256 uuid = .ok input

theorem origin_trace (hi : i ≤ T.len) : Origin (fun input => ∃ request, Submitted T i request input) (T.state i).reg := by
  induction i with
  | zero =>
    rw [T.start]
    exact origin_seeded
  | succ i ih =>
    have hle : ∀ input, (∃ request, Submitted T i request input) → ∃ request, Submitted T (i + 1) request input := by
      rintro input ⟨request, m, hm, hrest⟩
      exact ⟨request, m, Nat.lt_succ_of_lt hm, hrest⟩
    have h := (ih (by omega)).imp hle
    have hm := (step_moves (T.next i (by omega))).reg
    generalize (T.state (i + 1)).reg = r at hm
    cases hm with
    | same => exact h
    | @register k request uuid input r us ha hr hs =>
      refine h.step hs fun k' input' he => ?_
      cases he
      exact ⟨request, i, Nat.lt_succ_self i, k, uuid, ha, hr⟩
    | other hb hs => exact h.step hs fun k' input' he => absurd he (hb k' input')

/-! ## Provenance -/

/-- Step `j` stores the token, for a login that passed its checks. -/
def Stores (j : ℕ) (token : String) (request : LoginRequest) (expiresAt : ℕ) (user : Registration.UserRow) : Prop :=
  ∃ l exception, T.act j = .setex l true exception ∧ (T.state j).logins l = .verified request token expiresAt user

/-- The entry of a token was stored by a login. -/
theorem entry_origin {token v : String} {d : ℕ} (h : (T.state i).redis (tokenKey token) = some (v, d))
    (hi : i ≤ T.len) : ∃ j < i, ∃ request expiresAt user, Stores T j token request expiresAt user ∧
      v = tokenValue user ∧ d = (T.state j).now + 1000 * tokenTtlSeconds := by
  obtain ⟨j, hj, hn, hk⟩ := T.began (P := fun w => w.redis (tokenKey token) = some (v, d)) (by simp) h
  have hnext := hk (j + 1) (by omega) (by omega)
  have hm := (step_moves (T.next j (by omega))).redis token
  rw [hnext] at hm
  generalize hx : (T.state j).redis (tokenKey token) = x at hm
  generalize hy : some (v, d) = y at hm
  cases hm with
  | same => exact absurd (hx.trans hy.symm) hn
  | lost => cases hy
  | stored ha hl =>
    cases hy
    exact ⟨j, hj, _, _, _, ⟨_, _, ha, hl⟩, rfl, rfl⟩

/-- What a validation has read was there. -/
theorem read_origin {k userID account : ℕ} {token : String}
    (h : (T.state i).validations k = .read token userID account) (hi : i ≤ T.len) :
    ∃ g < i, ∃ value, (T.state g).redis.get (T.state g).now (tokenKey token) = some value ∧
      parseValue value = .user userID account := by
  obtain ⟨g, hg, hn, hk⟩ := T.began (P := fun w => w.validations k = .read token userID account) (by simp) h
  have hnext := hk (g + 1) (by omega) (by omega)
  rcases (step_moves (T.next g (by omega))).validations k with hsame | hmove
  · exact absurd (hsame.symm.trans hnext) hn
  · rw [hnext] at hmove
    generalize (T.state g).validations k = c at hmove
    cases hmove with
    | read hv hp => exact ⟨g, hg, _, hv, hp⟩

/-- Two passwords with one hash are one, or a collision. -/
theorem password_eq {p p' salt : String} (h : hashPassword sha256 p salt = hashPassword sha256 p' salt) :
    p = p' ∨ (salt ++ p ≠ salt ++ p' ∧ sha256 (salt ++ p) = sha256 (salt ++ p')) := by
  by_cases hp : salt ++ p = salt ++ p'
  · left
    have h' := congrArg String.toList hp
    rw [String.toList_append, String.toList_append] at h'
    exact String.toList_inj.1 (List.append_cancel_left h')
  · exact Or.inr ⟨hp, Group.hex_inj h⟩

end

/-- **Where a valid token comes from.**  In every run of registrations, logins
    and validations, when `ValidateToken` answers that a token is valid, a login
    stored this token, and it was read within seven days of that.  The answer
    has the id and the account of a user; the login named this account, with a
    password that has the hash of the user.  The user is the seeded one, or an
    accepted registration made it, with the same password or one with which it
    is a collision of the hash function.  Server and Redis share one clock, which
    never goes back. -/
theorem token_provenance (sha256 : String → Bytes) (T : AuthTrace sha256) {i k : ℕ} {token : String}
    {response : ValidateTokenResponse} {status : Status} (hi : i < T.len)
    (he : .validated k token response status ∈ T.out i) (hv : response.valid = true) :
    ∃ j g request expiresAt user, j < g ∧ g < i ∧ Stores T j token request expiresAt user ∧
      (T.state g).now ≤ (T.state j).now + 1000 * tokenTtlSeconds ∧
      response.userID = user.userID ∧ response.account = user.account ∧
      Knows sha256 (T.state j) request user ∧
      (user = seedUser ∨ ∃ r input, Submitted T j r input ∧ user.Of input ∧
        (request.password = r.password ∨ (user.passwordSalt ++ request.password ≠ user.passwordSalt ++ r.password ∧
          sha256 (user.passwordSalt ++ request.password) = sha256 (user.passwordSalt ++ r.password)))) := by
  have hm := (step_moves (T.next i hi)).validated k token response status he
  generalize hc : (T.state i).validations k = c at hm
  cases hm with
  | refused | failed | threw => cases hv
  | @valid _ userID account =>
    obtain ⟨g, hg, value, hget, hparse⟩ := read_origin T hc hi.le
    obtain ⟨d, hentry, hd⟩ := Expiring.get_eq_some.1 hget
    obtain ⟨j, hj, request, expiresAt, user, hstores, rfl, rfl⟩ := entry_origin T hentry (by omega)
    rw [parseValue_tokenValue] at hparse
    split_ifs at hparse
    obtain ⟨rfl, rfl⟩ := Parsed.user.inj hparse
    have hlogin := hstores
    obtain ⟨l, exception, -, hl⟩ := hlogin
    have hknows := ((sound_trace T (by omega : j ≤ T.len)).verified l request token expiresAt user hl).1
    refine ⟨j, g, request, expiresAt, user, hj, hg, hstores, hd, rfl, rfl, hknows, ?_⟩
    refine ((origin_trace T (by omega : j ≤ T.len)).users user hknows.mem).imp_right ?_
    rintro ⟨input, ⟨r, hsub⟩, hof⟩
    refine ⟨r, input, hsub, hof, password_eq ?_⟩
    obtain ⟨m, -, k', uuid, -, hr⟩ := hsub
    obtain ⟨rfl, -⟩ := register_ok hr
    rw [hknows.password, hof.passwordHash, hof.passwordSalt]
    rfl

/-! ### The seeded user -/

/-- The hash function, as far as the seeded user needs it. -/
def seedSha256 (s : String) : Bytes :=
  if s = seedUser.passwordSalt ++ "123456" then Group.unhexChars seedUser.passwordHash.toList
  else List.replicate 32 0

/-- The seeded user logs in, and the token is validated. -/
def seedActions : List Action :=
  [.login 0 ⟨1000000001, "123456"⟩ "t", .findUser 0 false, .setex 0 true none, .validate 0 "t", .tick 1000,
    .get 0 false, .ttl 0 false]

def seedRun : AuthTrace seedSha256 :=
  Machine.Trace.ofActions _ _ (fun i => seedActions.getD i (.tick 0)) 7 (by decide +kernel)

theorem seedRun_validated : .validated 0 "t" ⟨true, 1, 1000000001, 604800⟩ .ok ∈ seedRun.out 6 := by
  decide +kernel

theorem token_provenance_seed : ∃ j g request expiresAt user, j < g ∧ g < 6 ∧
    Stores seedRun j "t" request expiresAt user ∧
    (seedRun.state g).now ≤ (seedRun.state j).now + 1000 * tokenTtlSeconds ∧
    1 = user.userID ∧ 1000000001 = user.account ∧ Knows seedSha256 (seedRun.state j) request user ∧
    (user = seedUser ∨ ∃ r input, Submitted seedRun j r input ∧ user.Of input ∧
      (request.password = r.password ∨ (user.passwordSalt ++ request.password ≠ user.passwordSalt ++ r.password ∧
        seedSha256 (user.passwordSalt ++ request.password) = seedSha256 (user.passwordSalt ++ r.password)))) :=
  token_provenance seedSha256 seedRun (show 6 < 7 by decide) seedRun_validated rfl

/-! ## How long a token is valid -/

section
variable {sha256 : String → Bytes} (T : AuthTrace sha256) {i j g k : ℕ} {token : String}

/-- An entry stays where nothing touches it. -/
theorem entry_stays {v : String} {d : ℕ} (h : (T.state (j + 1)).redis (tokenKey token) = some (v, d)) (hjg : j < g)
    (hg : g ≤ T.len) (hlose : ∀ n, j < n → n < g → T.act n ≠ .lose (tokenKey token))
    (hother : ∀ n, j < n → n < g → ∀ r e u, ¬ Stores T n token r e u) :
    (T.state g).redis (tokenKey token) = some (v, d) := by
  induction g, Nat.succ_le_of_lt hjg using Nat.le_induction with
  | base => exact h
  | succ g hle ih =>
    have hg' := ih (by omega) (by omega) (fun n hn hn' => hlose n hn (by omega))
      fun n hn hn' => hother n hn (by omega)
    have hm := (step_moves (T.next g (by omega))).redis token
    rw [hg'] at hm
    generalize (T.state (g + 1)).redis (tokenKey token) = y at hm ⊢
    cases hm with
    | same => rfl
    | lost ha => exact absurd ha (hlose g (by omega) (by omega))
    | stored ha hl => exact absurd ⟨_, _, ha, hl⟩ (hother g (by omega) (by omega) _ _ _)

/-- How a validation goes on that has read its token. -/
def Accepts (w : World) (k : ℕ) (token : String) (user : Registration.UserRow) : Prop :=
  w.validations k = .read token user.userID user.account ∨
    (∃ response, w.validations k = .answered token response .ok ∧ response.valid = true ∧
      response.userID = user.userID ∧ response.account = user.account) ∨
    w.validations k = .answered token {} (.internal "Redis error")

theorem Accepts.step {w w' : World} {a : Action} {es : List Event} {user : Registration.UserRow}
    (h : Accepts w k token user) (hs : step sha256 w a = some (w', es)) : Accepts w' k token user := by
  rcases (step_moves hs).validations k with hsame | hmove
  · unfold Accepts
    rw [hsame]
    exact h
  · rcases h with h | ⟨response, h, -⟩ | h
    · rw [h] at hmove
      generalize hc : w'.validations k = c at hmove
      cases hmove with
      | threw => exact Or.inr (Or.inr hc)
      | valid => exact Or.inr (Or.inl ⟨_, hc, rfl, rfl, rfl⟩)
    · rw [h] at hmove
      cases hmove
    · rw [h] at hmove
      cases hmove

/-- A validation that finds the entry of a user. -/
theorem get_accepts {user : Registration.UserRow} {d : ℕ} (hg : g < T.len) (hact : T.act g = .get k false)
    (hk : (T.state g).validations k = .asked token)
    (hentry : (T.state g).redis (tokenKey token) = some (tokenValue user, d)) (hd : (T.state g).now ≤ d)
    (hid : user.userID < 2 ^ 64) (hacc : user.account < 2 ^ 64) (hgi : g < i) (hi : i ≤ T.len) :
    Accepts (T.state i) k token user := by
  induction i, Nat.succ_le_of_lt hgi using Nat.le_induction with
  | base =>
    have hs := T.next g hg
    have hget := Expiring.get_eq_some.2 ⟨d, hentry, hd⟩
    rw [hact] at hs
    simp only [Auth.step, hk, hget, World.readToken, parseValue_tokenValue, if_pos (And.intro hid hacc),
      Bool.false_eq_true, if_false, Option.some.injEq, Prod.mk.injEq] at hs
    left
    rw [← hs.1]
    simp [World.setValidation]
  | succ i hle ih => exact (ih (by omega) (by omega)).step (T.next i (by omega))

end

/-- **How long a token is valid.**  In every run, when `Login` answers with a
    token, the user of the answer knows the password, and every validation of
    the token that reads Redis later, up to the `expiresAt` of the answer, is
    for this user: it answers so, or fails at its second statement.  Redis must
    not have lost the entry, and no other login have drawn the same UUID; user
    ids fit in their column.  Server and Redis share one clock, which never goes
    back. -/
theorem token_lasts (sha256 : String → Bytes) (T : AuthTrace sha256) {j l : ℕ} {request : LoginRequest}
    {response : AuthRegResponse} (hj : j < T.len) (he : .loggedIn l request response .ok ∈ T.out j)
    (hok : response.success = true) :
    ∃ user, response = loginOk response.token response.expiresAt user ∧ Knows sha256 (T.state j) request user ∧
      ∀ g k, j < g → g < T.len → T.act g = .get k false →
        (T.state g).validations k = .asked response.token → (T.state g).now ≤ 1000 * response.expiresAt →
        (∀ n, j < n → n < g → T.act n ≠ .lose (tokenKey response.token)) →
        (∀ n, j < n → n < g → ∀ r e u, ¬ Stores T n response.token r e u) → user.userID < 2 ^ 64 →
        ∀ i, g < i → i ≤ T.len → Accepts (T.state i) k response.token user := by
  have hm := (step_moves (T.next j hj)).loggedIn l request response .ok he
  generalize hc : (T.state j).logins l = c at hm
  cases hm with
  | refused => cases hok
  | failed h => rcases h with rfl | rfl <;> cases hok
  | @stored _ token expiresAt user hr =>
    obtain ⟨hknows, hexpiry⟩ := (sound_trace T hj.le).verified l request token expiresAt user hc
    refine ⟨user, rfl, hknows, ?_⟩
    intro g k hjg hg hact hk hnow hlose hother hid i hgi hi
    have hentry := entry_stays T hr hjg hg.le hlose hother
    have hdeadline : (T.state g).now ≤ (T.state j).now + 1000 * tokenTtlSeconds := by
      have hnow : (T.state g).now ≤ 1000 * expiresAt := hnow
      unfold calculateExpiry at hexpiry
      omega
    have hrange := ((sound_trace T hj.le).reg.tables.allocation).range user hknows.mem
    exact get_accepts T hg hact hk hentry hdeadline hid (by have := hrange.2; unfold kMaxAccount at this; omega)
      hgi hi

theorem seedRun_loggedIn : .loggedIn 0 ⟨1000000001, "123456"⟩ (loginOk "t" 604800 seedUser) .ok ∈ seedRun.out 2 := by
  decide +kernel

theorem token_lasts_seed : ∃ user, loginOk "t" 604800 seedUser = loginOk "t" 604800 user ∧
    Knows seedSha256 (seedRun.state 2) ⟨1000000001, "123456"⟩ user ∧
    ∀ g k, 2 < g → g < 7 → seedRun.act g = .get k false → (seedRun.state g).validations k = .asked "t" →
      (seedRun.state g).now ≤ 1000 * 604800 →
      (∀ n, 2 < n → n < g → seedRun.act n ≠ .lose (tokenKey "t")) →
      (∀ n, 2 < n → n < g → ∀ r e u, ¬ Stores seedRun n "t" r e u) → user.userID < 2 ^ 64 →
      ∀ i, g < i → i ≤ 7 → Accepts (seedRun.state i) k "t" user :=
  token_lasts seedSha256 seedRun (show 2 < 7 by decide) seedRun_loggedIn rfl

end ApeServer.Auth
