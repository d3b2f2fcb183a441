/-
  Request ids and the collations of their columns.

  A mutation is told from the others by its client id, and whether two ids are
  equal is up to the columns: the ledger and the messages compare by the
  default collation of their charset.

  * `step_congr`: what a command does depends on the collations only through the
    ids of the ledger rows and messages of its own account;
  * `Traced`: these are ids of executed mutations;
  * `Apart`: no id is equal, for a column, to one of the same account that was
    executed, without being the same text; `Apart.bytes` makes such a run one of
    `bytewise`;
  * `own_requests`: there a mutation is answered by what was done under its own
    id, or does its own work.
-/
import ApeServer.Group.History

namespace ApeServer.Group

open Table Txn

/-- Every id equals itself. -/
def Collations.Reflexive (C : Collations) : Prop :=
  ∀ s, C.requests s s = true ∧ C.messages s s = true

/-- The step runs a mutation that has a valid request id. -/
def Action.Mutates (x : Action) (cmd : Command) : Prop :=
  (∃ S lost fuel, x = .execute cmd S lost fuel) ∧ cmd.operation.mutation = true ∧ ValidRequest cmd

/-! ## What depends on the collations -/

/-- Two collations that give a `Send` the same messages under its id. -/
def SameMessages (C D : Collations) (cmd : Command) (db : GroupDb) : Prop :=
  cmd.operation = .send → ∀ id, groupId cmd.groupID = .ok id → ∀ m ∈ db.messages,
    m.group = id → m.sender = cmd.actor →
      C.messages m.clientID cmd.clientID = D.messages m.clientID cmd.clientID

/-- Two collations that give a command the same rows under its id. -/
structure Agree (C D : Collations) (cmd : Command) (db : GroupDb) : Prop where
  own : C.requests cmd.clientID cmd.clientID = D.requests cmd.clientID cmd.clientID
  requests : ∀ r ∈ db.requests, GroupDb.requestKey C cmd r = GroupDb.requestKey D cmd r
  messages : SameMessages C D cmd db

section
variable {C D : Collations} {W : Wire} {S : Source} {cmd : Command} {db : GroupDb} {id limit : ℕ}
  {nickname : String} {reply : Reply} {g : Info}

theorem insert_congr {α : Type} {taken taken' : GroupDb → Bool} {f : GroupDb → GroupDb}
    {k : Unit → Stmt α} (h : taken db = taken' db) :
    (insert taken f >>= k) db = (insert taken' f >>= k) db :=
  attempt_congr (by rw [h])

theorem sendMessage_congr (h : ∀ m ∈ db.messages, m.group = id → m.sender = cmd.actor →
    C.messages m.clientID cmd.clientID = D.messages m.clientID cmd.clientID) :
    sendMessage C S cmd nickname id g reply db = sendMessage D S cmd nickname id g reply db := by
  have hkey : ∀ m ∈ db.messages,
      (m.group = id && m.sender = cmd.actor && C.messages m.clientID cmd.clientID)
        = (m.group = id && m.sender = cmd.actor && D.messages m.clientID cmd.clientID) := by
    intro m hm
    by_cases hg : m.group = id
    · by_cases hs : m.sender = cmd.actor
      · rw [h m hm hg hs]
      · simp [hs]
    · simp [hg]
  unfold sendMessage
  split_ifs
  · rfl
  refine query_congr (List.find?_congr hkey) ?_
  generalize List.find? _ db.messages = old
  cases old with
  | some m => rfl
  | none =>
    exact insert_congr (any_congr fun m hm => congrArg (_ || ·) (hkey m hm))

theorem memberCommand_congr (h : cmd.operation = .send → ∀ m ∈ db.messages, m.group = id →
    m.sender = cmd.actor → C.messages m.clientID cmd.clientID = D.messages m.clientID cmd.clientID) :
    memberCommand C S cmd nickname limit id g reply db
      = memberCommand D S cmd nickname limit id g reply db := by
  unfold memberCommand
  cases hop : cmd.operation with
  | send => exact sendMessage_congr (h hop)
  | _ => rfl

theorem lockedCommand_congr (h : cmd.operation = .send → ∀ m ∈ db.messages, m.group = id →
    m.sender = cmd.actor → C.messages m.clientID cmd.clientID = D.messages m.clientID cmd.clientID) :
    lockedCommand C S cmd nickname limit id g reply db
      = lockedCommand D S cmd nickname limit id g reply db := by
  unfold lockedCommand
  split_ifs <;> first | rfl | exact memberCommand_congr h

theorem groupCommand_congr (h : SameMessages C D cmd db) :
    groupCommand C S cmd nickname limit reply db = groupCommand D S cmd nickname limit reply db := by
  unfold groupCommand
  cases hid : groupId cmd.groupID with
  | error e => rfl
  | ok number =>
    have hrest : ∀ id, (cmd.operation = .send → id = number) →
        (query (·.group? id) >>= foundGroup C S cmd nickname limit id reply) db
          = (query (·.group? id) >>= foundGroup D S cmd nickname limit id reply) db := by
      intro id hn
      refine query_congr rfl ?_
      cases db.group? id with
      | none => rfl
      | some r =>
        refine bind_congr fun _ => memberState_spec (lockedCommand_congr fun hop => ?_)
        rw [hn hop]
        exact h hop number hid
    by_cases hs : cmd.operation = .search
    · simp only [if_pos hs]
      refine bind_congr fun _ => wp_mono searchId_spec ?_ fun _ _ h => h
      rintro id db' _ rfl
      exact hrest id fun hop => by rw [hs] at hop; cases hop
    · simp only [if_neg hs]
      exact bind_congr fun _ => wp_pure (hrest number fun _ => rfl)

theorem perform_congr (h : SameMessages C D cmd db) : perform C S cmd db = perform D S cmd db := by
  unfold perform
  dsimp only
  by_cases h₁ : cmd.actor = 0 ∨ (!cmd.operation.recognized) = true
  · rw [if_pos h₁, if_pos h₁]
  rw [if_neg h₁, if_neg h₁]
  by_cases h₂ : (if cmd.operation = .send then 65536 else 512) < cmd.text.utf8ByteSize
  · rw [if_pos h₂, if_pos h₂]
  rw [if_neg h₂, if_neg h₂]
  refine query_congr rfl ?_
  cases db.user? cmd.actor with
  | none => rfl
  | some u =>
    cases cmd.operation with
    | myApplications | list | create => rfl
    | _ => exact groupCommand_congr h

theorem openRequest_congr (h : Agree C D cmd db) (payload : String) :
    db.openRequest C cmd payload = db.openRequest D cmd payload := by
  unfold GroupDb.openRequest
  rw [insertNew_congr h.requests]

/-- The keys of the opened ledger. -/
theorem requestKey_opened (h : Agree C D cmd db) {payload : String} {r : RequestRow}
    (hr : r ∈ (db.openRequest D cmd payload).requests) :
    GroupDb.requestKey C cmd r = GroupDb.requestKey D cmd r := by
  rcases mem_insertNew.1 hr with hr | ⟨rfl, -⟩
  · exact h.requests r hr
  · simp [GroupDb.requestKey, h.own]

theorem requestCommand_congr {row : Option RequestRow} (hm : SameMessages C D cmd db)
    (hk : ∀ r ∈ db.requests, GroupDb.requestKey C cmd r = GroupDb.requestKey D cmd r) :
    requestCommand C W S cmd row db = requestCommand D W S cmd row db := by
  cases row with
  | none => rfl
  | some row =>
    unfold requestCommand
    dsimp only
    split_ifs
    · rfl
    · rfl
    · refine (bind_congr_left _ (perform_congr hm)).trans (bind_congr fun _ => ?_)
      refine wp_mono perform_spec (fun reply db' _ hd => ?_) fun _ _ h => h
      -- `perform` left the ledger as it was
      refine exec_congr ?_ rfl
      unfold GroupDb.closeRequest
      rw [updateWhere_congr fun r hr => hk r (by rwa [← hd.2.ledger.1])]

/-- **What a command does** depends on the collations through its rows only. -/
theorem executeOnPool_congr
    (h : cmd.operation.mutation = true → ValidRequest cmd → Agree C D cmd db) :
    executeOnPool C W S cmd db = executeOnPool D W S cmd db := by
  unfold executeOnPool
  split_ifs with hm hv
  · exact perform_congr fun hop => by rw [hop] at hm; cases hm
  · rfl
  · push Not at hv
    have h := h (by simpa using hm) hv
    refine exec_congr (by rw [openRequest_congr h]) ?_
    dsimp only
    rw [openRequest_congr h]
    refine query_congr (List.find?_congr fun r hr => requestKey_opened h hr) ?_
    exact requestCommand_congr h.messages fun r hr => requestKey_opened h hr

theorem step_congr {x : Action} (h : ∀ cmd, x.Mutates cmd → Agree C D cmd db) :
    step C W db x = step D W db x := by
  cases x with
  | execute cmd S lost fuel =>
    have he := executeOnPool_congr (W := W) (S := S) fun hm hv => h cmd ⟨⟨S, lost, fuel, rfl⟩, hm, hv⟩
    simp only [step, transaction]
    rw [bind_congr_left _ he]
  | deliver actor group => rfl
  | register u => rfl

/-! ## Where the rows come from -/

/-- The message is that of the `Send`. -/
structure SentBy (cmd : Command) (m : MessageRow) : Prop where
  op : cmd.operation = .send
  group : groupId cmd.groupID = .ok m.group
  sender : cmd.actor = m.sender
  clientID : cmd.clientID = m.clientID

/-- Every ledger row and every message belongs to an executed mutation. -/
structure Traced (db : GroupDb) : Prop where
  requests : ∀ r ∈ db.requests, ∃ e ∈ db.executed, e.1.actor = r.actor ∧ e.1.clientID = r.clientID
  messages : ∀ m ∈ db.messages, ∃ e ∈ db.executed, SentBy e.1 m

variable {db' : GroupDb}

theorem Effect.sentBy (h : Effect S cmd db reply db') {m : MessageRow} (hm : m ∈ db'.messages) :
    m ∈ db.messages ∨ SentBy cmd m := by
  cases h with
  | same | pull | create | apply | accept | reject | rename | remove | dismiss | ack | read =>
    exact Or.inl hm
  | @send id g m' nickname hA hop =>
    have hm : m ∈ db.messages ++ [newMessage S cmd nickname id g] := hm
    rcases List.mem_append.1 hm with hm | hm
    · exact Or.inl hm
    · rw [List.mem_singleton.1 hm]
      exact Or.inr ⟨hop, hA.number, rfl, rfl⟩

/-- A transaction executes nothing, or its own mutation. -/
theorem Outcome.executed (h : Outcome C W S cmd db reply db') :
    db'.executed = db.executed ∨ (cmd.operation.mutation = true ∧ ValidRequest cmd ∧
      db'.executed = db.executed ++ [(cmd, reply)]) := by
  cases h with
  | plain _ hd => exact Or.inl hd.2.ledger.2
  | replay => exact Or.inl rfl
  | fresh hm hv _ _ hd => exact Or.inr ⟨hm, hv, congrArg (· ++ [(cmd, reply)]) hd.2.ledger.2⟩

/-- The reply is all that changes in the ledger. -/
theorem mem_closeRequest {text : String} {r : RequestRow}
    (h : r ∈ (db.closeRequest C cmd reply text).requests) :
    ∃ r₀ ∈ db.requests, r₀.actor = r.actor ∧ r₀.clientID = r.clientID := by
  obtain ⟨r₀, hr₀, rfl⟩ := mem_updateWhere.1 h
  exact ⟨r₀, hr₀, by split_ifs <;> rfl, by split_ifs <;> rfl⟩

theorem Outcome.traced (h : Outcome C W S cmd db reply db') (ht : Traced db) : Traced db' := by
  cases h with
  | plain hm hd =>
    obtain ⟨hreq, hexe⟩ := hd.2.ledger
    constructor
    · rw [hreq, hexe]; exact ht.requests
    · intro m hmem
      rw [hexe]
      rcases hd.2.sentBy hmem with hmem | hs
      · exact ht.messages m hmem
      · rw [hs.op] at hm; cases hm
  | replay => exact ht
  | @fresh _ db₁ _ _ _ _ hd =>
    obtain ⟨hreq, hexe⟩ := hd.2.ledger
    have hexe : (db₁.closeRequest C cmd reply (hex (W.reply reply))).executed
        = db.executed ++ [(cmd, reply)] := congrArg (· ++ [(cmd, reply)]) hexe
    constructor
    · intro r hr
      obtain ⟨r₀, hr₀, ha, hc⟩ := mem_closeRequest hr
      rw [← ha, ← hc, hexe]
      rw [hreq] at hr₀
      rcases mem_insertNew.1 hr₀ with hr₀ | ⟨rfl, -⟩
      · obtain ⟨e, he, hk⟩ := ht.requests r₀ hr₀
        exact ⟨e, List.mem_append_left _ he, hk⟩
      · exact ⟨(cmd, reply), by simp, rfl, rfl⟩
    · intro m hmem
      rw [hexe]
      rcases hd.2.sentBy hmem with hmem | hs
      · obtain ⟨e, he, hs⟩ := ht.messages m hmem
        exact ⟨e, List.mem_append_left _ he, hs⟩
      · exact ⟨(cmd, reply), by simp, hs⟩

/-- A step executes nothing, or the mutation it runs. -/
theorem step_executed {x : Action} {es : List Event} (h : step C W db x = some (db', es)) :
    db'.executed = db.executed ∨
      ∃ e : Command × Reply, x.Mutates e.1 ∧ db'.executed = db.executed ++ [e] := by
  cases x with
  | execute cmd S lost fuel =>
    rcases execute_cases h with ⟨rfl, -⟩ | ⟨reply, ho, -⟩
    · exact Or.inl rfl
    · refine ho.executed.imp_right fun he => ?_
      exact ⟨(cmd, reply), ⟨⟨S, lost, fuel, rfl⟩, he.1, he.2.1⟩, he.2.2⟩
  | deliver actor group => exact Or.inl (congrArg GroupDb.executed (deliver_same h))
  | register u =>
    simp only [step, Option.some.injEq, Prod.mk.injEq] at h
    obtain ⟨rfl, -⟩ := h
    exact Or.inl rfl

theorem traced_trace (T : GroupTrace C W) {i : ℕ} (hi : i ≤ T.len) : Traced (T.state i) := by
  refine T.invariant (P := Traced) ⟨by simp, by simp⟩ (fun db x db' es ht hs => ?_) hi
  cases x with
  | execute cmd S lost fuel =>
    rcases execute_cases hs with ⟨rfl, -⟩ | ⟨reply, ho, -⟩
    · exact ht
    · exact ho.traced ht
  | deliver actor group => exact deliver_same hs ▸ ht
  | register u =>
    simp only [step, Option.some.injEq, Prod.mk.injEq] at hs
    obtain ⟨rfl, -⟩ := hs
    exact ⟨ht.requests, ht.messages⟩

/-- What was executed, an earlier step ran. -/
theorem executed_act (T : GroupTrace C W) {i : ℕ} (hi : i ≤ T.len) {e : Command × Reply}
    (he : e ∈ (T.state i).executed) : ∃ j < i, (T.act j).Mutates e.1 := by
  obtain ⟨j, hj, hn, hafter⟩ := T.began (P := fun db => e ∈ db.executed) (by simp) he
  refine ⟨j, hj, ?_⟩
  have hin := hafter (j + 1) (by omega) hj
  rcases step_executed (T.next j (by omega)) with hexe | ⟨e', hx, hexe⟩
  · exact absurd (hexe ▸ hin) hn
  · rw [hexe] at hin
    rcases List.mem_append.1 hin with hin | hin
    · exact absurd hin hn
    · rw [List.mem_singleton.1 hin]
      exact hx

end

/-! ## Runs whose ids are apart -/

section
variable {C : Collations} {W : Wire}

/-- When the run takes a mutation whose id is not that of an executed one of the
    same account, the two ids are different for the ledger, and, if both are
    `Send`s to one group, for the messages too. -/
def Apart (T : GroupTrace C W) : Prop :=
  ∀ i < T.len, ∀ cmd, (T.act i).Mutates cmd → ∀ e ∈ (T.state i).executed,
    e.1.actor = cmd.actor → e.1.clientID ≠ cmd.clientID →
    C.requests e.1.clientID cmd.clientID = false ∧
      (e.1.operation = .send → cmd.operation = .send → groupId e.1.groupID = groupId cmd.groupID →
        C.messages e.1.clientID cmd.clientID = false)

variable {T : GroupTrace C W} {i : ℕ} {cmd : Command}

/-- Texts that are only equal when they are the same. -/
theorem eq_bytes {eq : String → String → Bool} {s s' : String} (hr : eq s s = true)
    (h : s ≠ s' → eq s s' = false) : eq s s' = decide (s = s') := by
  by_cases hs : s = s'
  · subst hs
    simpa using hr
  · rw [h hs]
    exact (decide_eq_false hs).symm

theorem Apart.agree (hC : C.Reflexive) (h : Apart T) (hi : i < T.len) (hx : (T.act i).Mutates cmd) :
    Agree C bytewise cmd (T.state i) := by
  have ht := traced_trace T hi.le
  constructor
  · rw [(hC _).1]
    exact (decide_eq_true rfl).symm
  · intro r hr
    obtain ⟨e, he, ha, hc⟩ := ht.requests r hr
    by_cases hact : r.actor = cmd.actor
    · have := eq_bytes (hC r.clientID).1 fun hne => hc ▸ (h i hi cmd hx e he (ha.trans hact) (hc ▸ hne)).1
      simp [GroupDb.requestKey, this, bytewise]
    · simp [GroupDb.requestKey, hact]
  · intro hop id hid m hm hg hs
    obtain ⟨e, he, hsent⟩ := ht.messages m hm
    exact eq_bytes (hC m.clientID).2 fun hne => hsent.clientID ▸
      (h i hi cmd hx e he (hsent.sender.trans hs) (hsent.clientID ▸ hne)).2 hsent.op hop
        (hsent.group.trans (hid.trans (hg ▸ rfl)).symm)

/-- **A run whose ids are apart** is a run of byte by byte comparison. -/
theorem Apart.bytes (hC : C.Reflexive) (h : Apart T) : ∃ T' : GroupTrace bytewise W,
    T'.len = T.len ∧ T'.state = T.state ∧ T'.act = T.act ∧ T'.out = T.out :=
  ⟨⟨T.len, T.state, T.act, T.out, T.start, fun i hi =>
    (step_congr fun _ hx => h.agree hC hi hx).symm.trans (T.next i hi)⟩, rfl, rfl, rfl, rfl⟩

end

/-! ## The first use of an id -/

/-- The error does not come from a repeated id, and is not a reply's code of
    success. -/
abbrev NoConflict (e : GroupError) : Prop := e.code ≠ "IDEMPOTENCY_CONFLICT" ∧ e.code ≠ "0"

section
variable {C : Collations} {W : Wire} {S : Source} {cmd : Command} {db : GroupDb} {id limit : ℕ}
  {nickname : String} {reply : Reply} {g : Info}

theorem memberState_throws {P : GroupError → Prop} (actor : Account) :
    Throws P (memberState g id actor) := by
  unfold memberState
  refine (Throws.query _).bind fun n => (Throws.query _).bind fun row => ?_
  cases row with
  | none => exact Throws.pure _
  | some m =>
    dsimp only
    split_ifs
    · exact (Throws.query _).bind fun _ => Throws.pure _
    · exact Throws.pure _

theorem memberStates_throws {P : GroupError → Prop} (actor : Account) (rows : List GroupRow) :
    Throws P (memberStates actor rows) := by
  induction rows with
  | nil => exact Throws.pure _
  | cons r rows ih => exact (memberState_throws actor).bind fun _ => ih.bind fun _ => Throws.pure _

theorem listGroups_throws : Throws NoConflict (listGroups cmd limit reply) :=
  (Throws.query _).bind fun _ => (memberStates_throws _ _).bind fun _ => Throws.pure _

theorem allocateGroupNumber_throws : Throws NoConflict (allocateGroupNumber id) := by
  refine (Throws.query _).bind fun value => ?_
  split_ifs
  · exact Throws.fail (by decide)
  · exact (Throws.attempt (by decide) _).bind fun _ => (Throws.exec _).bind fun _ => Throws.pure _

theorem createGroup_throws : Throws NoConflict (createGroup S cmd reply) := by
  unfold createGroup
  split_ifs
  · exact Throws.fail (by decide)
  refine (Throws.attempt (by decide) _).bind fun _ => allocateGroupNumber_throws.bind fun _ => ?_
  refine (Throws.attempt (by decide) _).bind fun _ => (Throws.query _).bind fun row => ?_
  cases row with
  | none => exact Throws.fail (by decide)
  | some r => exact (memberState_throws _).bind fun _ => Throws.pure _

theorem searchId_throws : Throws NoConflict (searchId cmd id) := by
  refine (Throws.query _).bind fun lookup => ?_
  cases lookup with
  | some n => exact Throws.pure _
  | none =>
    dsimp only
    split_ifs
    · exact Throws.fail (by decide)
    · exact Throws.pure _

theorem applyToGroup_throws : Throws NoConflict (applyToGroup S cmd id reply) := by
  refine (Throws.query _).bind fun pending => ?_
  split_ifs
  · exact Throws.pure _
  · exact (Throws.exec _).bind fun _ => Throws.pure _

theorem reviewApplication_throws : Throws NoConflict (reviewApplication cmd id g reply) := by
  refine (Throws.query _).bind fun row => ?_
  cases row with
  | none => exact Throws.fail (by decide)
  | some a =>
    dsimp only
    have hdone : Throws NoConflict (do
        update (·.setStatus (fun a => a.id = cmd.applicationID) (if cmd.accept then 1 else 2))
        pure reply : Stmt Reply) := (Throws.exec _).bind fun _ => Throws.pure _
    split_ifs at hdone ⊢
    all_goals first
      | exact Throws.fail (by decide)
      | exact Throws.pure _
      | exact hdone
      | exact (Throws.exec _).bind fun _ => (Throws.exec _).bind fun _ => hdone

theorem renameGroup_throws : Throws NoConflict (renameGroup cmd id g reply) := by
  unfold renameGroup
  split_ifs
  · exact Throws.fail (by decide)
  · exact Throws.fail (by decide)
  · exact (Throws.exec _).bind fun _ => Throws.pure _

theorem removeMember_throws {target : Account} :
    Throws NoConflict (removeMember target id g reply) := by
  unfold removeMember
  split_ifs
  · exact Throws.fail (by decide)
  · exact (Throws.exec _).bind fun _ => (Throws.exec _).bind fun _ => Throws.pure _

theorem advance_throws {f : ℕ → MemberRow → MemberRow} :
    Throws NoConflict (advance f cmd id g reply) := by
  unfold advance
  split_ifs
  · exact Throws.fail (by decide)
  · exact (Throws.exec _).bind fun _ => Throws.pure _

/-- From here the body appends the message of its command if that is a `Send`,
    and it does not find its id in use. -/
def Unused (cmd : Command) (db : GroupDb) (m : Stmt Reply) : Prop :=
  wp m (fun reply db' _ => cmd.operation = .send →
      ∃ r, SentBy cmd r ∧ reply.messages = [messageRow r] ∧ db'.messages = db.messages ++ [r])
    (fun f _ => ∀ err, f = .error err → NoConflict err) db ()

theorem unused_of_throws {m : Stmt Reply} (hop : cmd.operation ≠ .send) (h : Throws NoConflict m) :
    Unused cmd db m :=
  wp_mono (h db ()) (fun _ _ _ _ hs => absurd hs hop) fun _ _ he => he

theorem fail_unused {e : GroupError} (h : NoConflict e) : Unused cmd db (fail e) :=
  wp_fail fun _ he => by cases he; exact h

theorem query_unused {α : Type} {f : GroupDb → α} {k : α → Stmt Reply} (h : Unused cmd db (k (f db))) :
    Unused cmd db (query f >>= k) :=
  wp_query_bind (fun _ he => by cases he) h

theorem sendMessage_unused (hop : cmd.operation = .send) (hid : groupId cmd.groupID = .ok id)
    (h : ∀ m ∈ db.messages, m.group = id → m.sender = cmd.actor →
      C.messages m.clientID cmd.clientID = false) :
    Unused cmd db (sendMessage C S cmd nickname id g reply) := by
  unfold sendMessage
  split_ifs
  · exact fail_unused (by decide)
  refine query_unused ?_
  have hnone : (db.messages.find? fun m => m.group = id && m.sender = cmd.actor &&
      C.messages m.clientID cmd.clientID) = none := by
    refine List.find?_eq_none.2 fun m hm hp => ?_
    simp only [Bool.and_eq_true, decide_eq_true_eq] at hp
    rw [h m hm hp.1.1 hp.1.2] at hp
    exact absurd hp.2 (by simp)
  rw [hnone]
  refine wp_attempt_bind (fun _ he => by cases he) (fun _ he => by cases he; decide) ?_
  intro _ db' hdb
  split_ifs at hdb
  cases hdb
  exact wp_exec_bind (fun _ he => by cases he) (wp_pure fun _ => ⟨_, ⟨hop, hid, rfl, rfl⟩, rfl, rfl⟩)

theorem memberCommand_unused (hid : cmd.operation = .send → groupId cmd.groupID = .ok id)
    (h : cmd.operation = .send → ∀ m ∈ db.messages, m.group = id → m.sender = cmd.actor →
      C.messages m.clientID cmd.clientID = false) :
    Unused cmd db (memberCommand C S cmd nickname limit id g reply) := by
  unfold memberCommand
  by_cases hop : cmd.operation = .send
  · rw [hop]
    exact sendMessage_unused hop (hid hop) (h hop)
  refine unused_of_throws hop ?_
  cases hop' : cmd.operation with
  | members | applications | pull => exact (Throws.query _).bind fun _ => Throws.pure _
  | review => exact reviewApplication_throws
  | rename => exact renameGroup_throws
  | leave | kick => exact removeMember_throws
  | dismiss => exact (Throws.exec _).bind fun _ => (Throws.exec _).bind fun _ => Throws.pure _
  | send => exact absurd hop' hop
  | ack | read => exact advance_throws
  | _ => exact Throws.pure _

theorem lockedCommand_unused (hid : cmd.operation = .send → groupId cmd.groupID = .ok id)
    (h : cmd.operation = .send → ∀ m ∈ db.messages, m.group = id → m.sender = cmd.actor →
      C.messages m.clientID cmd.clientID = false) :
    Unused cmd db (lockedCommand C S cmd nickname limit id g reply) := by
  unfold lockedCommand
  by_cases hop : cmd.operation = .send
  · simp only [hop, reduceCtorEq, if_false, false_and]
    split_ifs
    all_goals first
      | exact fail_unused (by decide)
      | exact memberCommand_unused hid h
  · split_ifs
    all_goals first
      | exact fail_unused (by decide)
      | exact unused_of_throws hop (Throws.pure _)
      | exact unused_of_throws hop applyToGroup_throws
      | exact memberCommand_unused hid h

/-- The `Send` finds no message under its id. -/
def NoMessage (C : Collations) (cmd : Command) (db : GroupDb) : Prop :=
  cmd.operation = .send → ∀ id, groupId cmd.groupID = .ok id → ∀ m ∈ db.messages,
    m.group = id → m.sender = cmd.actor → C.messages m.clientID cmd.clientID = false

theorem groupCommand_unused (h : NoMessage C cmd db) :
    Unused cmd db (groupCommand C S cmd nickname limit reply) := by
  unfold groupCommand
  cases hid : groupId cmd.groupID with
  | error e =>
    refine fail_unused ?_
    have he : e = ⟨"INVALID_GROUP", "请输入有效的数字群号"⟩ := by
      unfold groupId at hid
      dsimp only at hid
      split_ifs at hid <;> exact (Except.error.inj hid).symm
    rw [he]
    decide
  | ok number =>
    have hrest : ∀ id, (cmd.operation = .send → id = number) →
        Unused cmd db (query (·.group? id) >>= foundGroup C S cmd nickname limit id reply) := by
      intro id hn
      refine query_unused ?_
      cases db.group? id with
      | none => exact fail_unused (by decide)
      | some r =>
        refine wp_bind (wp_mono (wp_and (memberState_spec (Q := fun v db' =>
          v = memberView db (groupRow r) id cmd.actor ∧ db' = db) ⟨rfl, rfl⟩)
          (memberState_throws cmd.actor db ())) ?_ fun _ _ hr => hr.2)
        rintro g db' _ ⟨⟨rfl, rfl⟩, -⟩
        refine lockedCommand_unused (fun hop => (hn hop) ▸ hid) fun hop => ?_
        rw [hn hop]
        exact h hop number hid
    by_cases hs : cmd.operation = .search
    · simp only [if_pos hs]
      refine wp_bind (wp_mono (wp_and searchId_spec (searchId_throws db ())) ?_ fun _ _ hr => hr.2)
      rintro id db' _ ⟨rfl, -⟩
      exact hrest id fun hop => by rw [hs] at hop; cases hop
    · simp only [if_neg hs]
      exact wp_bind (wp_pure (hrest number fun _ => rfl))

theorem perform_unused (h : NoMessage C cmd db) : Unused cmd db (perform C S cmd) := by
  unfold perform
  dsimp only
  by_cases h₁ : cmd.actor = 0 ∨ (!cmd.operation.recognized) = true
  · rw [if_pos h₁]; exact fail_unused (by decide)
  rw [if_neg h₁]
  by_cases h₂ : (if cmd.operation = .send then 65536 else 512) < cmd.text.utf8ByteSize
  · rw [if_pos h₂]; exact fail_unused (by decide)
  rw [if_neg h₂]
  refine query_unused ?_
  cases db.user? cmd.actor with
  | none => exact fail_unused (by decide)
  | some u =>
    dsimp only
    split
    · next hop => exact unused_of_throws (by simp [hop]) ((Throws.query _).bind fun _ => Throws.pure _)
    · next hop => exact unused_of_throws (by simp [hop]) listGroups_throws
    · next hop => exact unused_of_throws (by simp [hop]) createGroup_throws
    · exact groupCommand_unused h

/-! ## Steps and runs -/

variable {db' : GroupDb}

/-- A `Send` with a new id finds no message under it. -/
theorem Traced.noMessage (h : Traced db)
    (hn : ∀ e ∈ db.executed, (e.1.actor, e.1.clientID) ≠ (cmd.actor, cmd.clientID)) :
    NoMessage bytewise cmd db := by
  intro _ id _ m hm _ hs
  obtain ⟨e, he, hsent⟩ := h.messages m hm
  exact decide_eq_false fun hc =>
    hn e he (Prod.ext (hsent.sender.trans hs) (hsent.clientID.trans hc))

/-- **The first use of an id**, with the transaction around it. -/
theorem executeOnPool_new (h : Ledger W db) (ht : Traced db) (hm : cmd.operation.mutation = true)
    (hv : ValidRequest cmd)
    (hn : ∀ e ∈ db.executed, (e.1.actor, e.1.clientID) ≠ (cmd.actor, cmd.clientID)) :
    wp (executeOnPool bytewise W S cmd)
      (fun reply db' _ => reply.errorCode = "0" ∧ db'.executed = db.executed ++ [(cmd, reply)] ∧
        (cmd.operation = .send →
          ∃ m, SentBy cmd m ∧ reply.messages = [messageRow m] ∧ db'.messages = db.messages ++ [m]))
      (fun f _ => ∀ err, f = .error err → NoConflict err) db () := by
  rw [executeOnPool_eq S hm hv]
  refine wp_exec_bind (fun _ he => by cases he) (wp_query_bind (fun _ he => by cases he) ?_)
  rw [h.find_opened _ hn]
  simp only [requestCommand, ne_eq, not_true_eq_false, if_false]
  have hno : NoMessage bytewise cmd (db.openRequest bytewise cmd (hex (W.command cmd))) :=
    ht.noMessage hn
  refine wp_bind (wp_mono (wp_and perform_spec (perform_unused hno)) ?_ fun _ _ hr => hr.2)
  rintro reply db' _ ⟨⟨hok, he⟩, hsend⟩
  refine wp_exec_bind (fun _ he => by cases he) (wp_pure ⟨hok, ?_, hsend⟩)
  exact congrArg (· ++ [(cmd, reply)]) he.ledger.2

theorem step_new (h : Ledger W db) (ht : Traced db) (hm : cmd.operation.mutation = true)
    (hv : ValidRequest cmd)
    (hn : ∀ e ∈ db.executed, (e.1.actor, e.1.clientID) ≠ (cmd.actor, cmd.clientID)) {lost : Bool}
    {fuel : ℕ} {es : List Event} (hs : step bytewise W db (.execute cmd S lost fuel) = some (db', es)) :
    ∃ reply, es = [.replied cmd reply] ∧ reply.errorCode ≠ "IDEMPOTENCY_CONFLICT" ∧
      (reply.errorCode = "0" → db'.executed = db.executed ++ [(cmd, reply)] ∧
        (cmd.operation = .send →
          ∃ m, SentBy cmd m ∧ reply.messages = [messageRow m] ∧ db'.messages = db.messages ++ [m])) := by
  have hwp := executeOnPool_new (S := S) h ht hm hv hn
  simp only [step, Option.some.injEq, Prod.mk.injEq] at hs
  obtain ⟨rfl, rfl⟩ := hs
  refine ⟨_, rfl, ?_⟩
  cases hr : (transaction (executeOnPool bytewise W S cmd) lost db () fuel).1 with
  | ok reply =>
    rcases transaction_cases hwp lost fuel with
      ⟨_, _, _, he, hok, hexe⟩ | ⟨_, _, he, -⟩ | ⟨-, _, _, _, he, -⟩
    · rw [he] at hr ⊢
      cases hr
      exact ⟨by rw [answer, hok]; decide, fun _ => hexe⟩
    · rw [he] at hr; cases hr
    · rw [he] at hr; cases hr
  | error f =>
    obtain ⟨_, hf⟩ := transaction_throws hwp (fun _ _ he => by cases he) hr
    cases f with
    | fault => exact ⟨by decide, fun h => absurd h (by decide)⟩
    | error e => exact ⟨(hf e rfl).1, fun h => absurd h (hf e rfl).2⟩

end

/-- In the run a mutation is answered by what was executed under its own id,
    with the same actor and byte for byte the same client id.  Under a new
    id it is no conflict; when it succeeds it was executed itself, and a `Send`
    appended a message of its own; no message stands in its way. -/
def OwnRequests {C : Collations} {W : Wire} (T : GroupTrace C W) : Prop :=
  ∀ i < T.len, ∀ cmd S lost fuel, T.act i = .execute cmd S lost fuel →
    cmd.operation.mutation = true → ValidRequest cmd →
    (∀ c r, (c, r) ∈ (T.state i).executed → c.actor = cmd.actor → c.clientID = cmd.clientID →
      T.state (i + 1) = T.state i ∧ T.out i = [.replied cmd (repeatAnswer W c r cmd lost fuel)]) ∧
    ((∀ e ∈ (T.state i).executed, (e.1.actor, e.1.clientID) ≠ (cmd.actor, cmd.clientID)) →
      NoMessage C cmd (T.state i) ∧
      ∃ reply, T.out i = [.replied cmd reply] ∧ reply.errorCode ≠ "IDEMPOTENCY_CONFLICT" ∧
        (reply.errorCode = "0" →
          (T.state (i + 1)).executed = (T.state i).executed ++ [(cmd, reply)] ∧
          (cmd.operation = .send → ∃ m, SentBy cmd m ∧ reply.messages = [messageRow m] ∧
            (T.state (i + 1)).messages = (T.state i).messages ++ [m])))

/-- **Own requests.**  In every run whose ids are apart for the two columns. -/
theorem own_requests (C : Collations) (hC : C.Reflexive) (W : Wire) (T : GroupTrace C W)
    (h : Apart T) : OwnRequests T := by
  intro i hi cmd S lost fuel hx hm hv
  have hl : Ledger W (T.state i) := by
    obtain ⟨T', hlen, hstate, -⟩ := h.bytes hC
    rw [← hstate]
    exact ledger_trace T' (hlen ▸ hi.le)
  have hs := T.next i hi
  rw [step_congr fun cmd hx => h.agree hC hi hx, hx] at hs
  constructor
  · intro c r he ha hc
    rw [repeat_step hl hm he ha hc S lost fuel] at hs
    simp only [Option.some.injEq, Prod.mk.injEq] at hs
    exact ⟨hs.1.symm, hs.2.symm⟩
  · intro hn
    have ht := traced_trace T hi.le
    refine ⟨?_, step_new hl ht hm hv hn hs⟩
    have hagree := h.agree hC hi ⟨⟨S, lost, fuel, hx⟩, hm, hv⟩
    intro hop id hid m hmem hg hsender
    rw [hagree.messages hop id hid m hmem hg hsender]
    exact ht.noMessage hn hop id hid m hmem hg hsender

/-! ### Ids that differ in case -/

/-- `ascii_general_ci` and `utf8mb4_0900_ai_ci`, on letters and digits. -/
def caseless : Collations where
  requests a b := a.toList.map Char.toLower = b.toList.map Char.toLower
  messages a b := a.toList.map Char.toLower = b.toList.map Char.toLower

/-- A codec that shows the id and the text of a command. -/
noncomputable def Wire.letters : Wire :=
  { Wire.unary with command := fun cmd => (cmd.clientID ++ cmd.text).toList.map fun c => .ofNat c.toNat }

/-- Account 1 makes a group and sends two messages to it, with these ids. -/
def twoSends (first second : String) : ℕ → Action
  | 0 => .register ⟨1, "A"⟩
  | 1 => .execute { operation := .create, actor := 1, text := "g", clientID := "1" } ⟨7, "u", 0⟩ false 20
  | 2 => .execute { operation := .send, actor := 1, groupID := "7", text := "x", clientID := first }
      ⟨8, "v", 0⟩ false 20
  | 3 => .execute { operation := .send, actor := 1, groupID := "7", text := "y", clientID := second }
      ⟨9, "w", 0⟩ false 20
  | _ => .deliver 0 ""

theorem twoSends_ids {first second : String} {i : ℕ} {cmd : Command} {S : Source} {lost : Bool}
    {fuel : ℕ} (h : twoSends first second i = .execute cmd S lost fuel) :
    cmd.clientID = "1" ∨ cmd.clientID = first ∨ cmd.clientID = second := by
  unfold twoSends at h
  split at h
  · cases h
  · cases h; exact Or.inl rfl
  · cases h; exact Or.inr (Or.inl rfl)
  · cases h; exact Or.inr (Or.inr rfl)
  · cases h

noncomputable def sendsApart : GroupTrace caseless Wire.letters :=
  Machine.Trace.ofActions _ _ (twoSends "a" "b") 4 (by decide +kernel)

noncomputable def sendsCased : GroupTrace caseless Wire.letters :=
  Machine.Trace.ofActions _ _ (twoSends "a" "A") 4 (by decide +kernel)

theorem own_requests_sendsApart : OwnRequests sendsApart := by
  refine own_requests caseless (fun s => ⟨?_, ?_⟩) Wire.letters sendsApart ?_
  · exact decide_eq_true rfl
  · exact decide_eq_true rfl
  · rintro i hi cmd ⟨⟨S, lost, fuel, hx⟩, -⟩ e he _ hne
    obtain ⟨j, -, ⟨S', lost', fuel', hx'⟩, -⟩ := executed_act sendsApart hi.le he
    rcases twoSends_ids hx with h | h | h <;> rcases twoSends_ids hx' with h' | h' | h' <;>
      rw [h, h'] at hne ⊢ <;> first | exact absurd rfl hne | exact ⟨by decide, fun _ _ _ => by decide⟩

/-- The second `Send` is refused, though its id is new. -/
theorem own_requests_caseless : ¬ OwnRequests sendsCased := by
  intro h
  obtain ⟨-, reply, ho, hne, -⟩ :=
    (h 3 (by decide) _ _ _ _ rfl rfl ⟨by decide, by decide, by decide +kernel⟩).2 (by decide +kernel)
  have hout : sendsCased.out 3 =
      [.replied { operation := .send, actor := 1, groupID := "7", text := "y", clientID := "A" }
        (answer (.error (.error ⟨"IDEMPOTENCY_CONFLICT", "请求标识重复且内容不同"⟩)))] := by
    decide +kernel
  rw [hout] at ho
  cases ho
  exact hne rfl

end ApeServer.Group
