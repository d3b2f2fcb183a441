/-
  The request ledger: every mutation takes effect once.

  A mutation writes its ledger row before its work and the reply after it, in
  one transaction; a row with an empty reply is never committed.

  * `executeOnPool_spec`: a command has no ledger row to deal with, or its row
    answers it, or `perform` runs between the two ledger statements;
  * `Ledger`: the ledger holds the executed mutations with their replies, one
    for each key; `ledger_step` keeps it;
  * `exactly_once_mutations` says what this means for repeated commands.
-/
import ApeServer.Group.Effect

namespace ApeServer.Group

open Table Txn

/-! ## The transaction -/

/-- How the transaction of a command can end. -/
inductive Outcome (C : Collations) (W : Wire) (S : Source) (cmd : Command)
    (db : GroupDb) (reply : Reply) : GroupDb → Prop
  | plain {db' : GroupDb} (hm : cmd.operation.mutation = false) (h : Done S cmd db reply db') :
      Outcome C W S cmd db reply db'
  | replay {row : RequestRow} (hm : cmd.operation.mutation = true)
      (hr : db.requests.find? (GroupDb.requestKey C cmd) = some row)
      (hp : row.payload = hex (W.command cmd)) (hs : savedReply W row.reply = .ok reply) :
      Outcome C W S cmd db reply db
  | fresh {row : RequestRow} {db' : GroupDb} (hm : cmd.operation.mutation = true)
      (hv : cmd.actor ≠ 0 ∧ cmd.clientID ≠ "" ∧ cmd.clientID.utf8ByteSize ≤ 64)
      (hr : (db.openRequest C cmd (hex (W.command cmd))).requests.find?
        (GroupDb.requestKey C cmd) = some row) (he : row.reply = "")
      (h : Done S cmd (db.openRequest C cmd (hex (W.command cmd))) reply db') :
      Outcome C W S cmd db reply (db'.closeRequest C cmd reply (hex (W.reply reply)))

section
variable {C : Collations} {W : Wire} {S : Source} {cmd : Command} {db : GroupDb}

/-- A row of the key stays when the request is opened again. -/
theorem openRequest_of_find {row : RequestRow} {payload : String}
    (h : db.requests.find? (GroupDb.requestKey C cmd) = some row) :
    db.openRequest C cmd payload = db := by
  have : insertNew (GroupDb.requestKey C cmd) ⟨cmd.actor, cmd.clientID, payload, ""⟩ db.requests
      = db.requests :=
    insertNew_eq_self (List.any_eq_true.2 ⟨row, List.mem_of_find?_eq_some h, List.find?_some h⟩)
  unfold GroupDb.openRequest
  rw [this]

/-- The row found after opening was there, or is the new one. -/
theorem find_openRequest {row : RequestRow} {payload : String}
    (h : (db.openRequest C cmd payload).requests.find? (GroupDb.requestKey C cmd) = some row) :
    db.requests.find? (GroupDb.requestKey C cmd) = some row ∨
      (db.requests.find? (GroupDb.requestKey C cmd) = none ∧ row.reply = "") := by
  cases hf : db.requests.find? (GroupDb.requestKey C cmd) with
  | some row' =>
    rw [openRequest_of_find hf, hf] at h
    exact Or.inl h
  | none =>
    have hmem := List.mem_of_find?_eq_some h
    refine Or.inr ⟨rfl, ?_⟩
    rcases mem_insertNew.1 hmem with hr | ⟨hr, -⟩
    · have := List.find?_eq_none.1 hf row hr
      exact absurd (List.find?_some h) this
    · rw [hr]

/-- The transaction of a command: `perform` runs alone or between the two ledger
    statements, or a row of the ledger answers. -/
theorem executeOnPool_post {Q : GroupDb → Reply → GroupDb → Prop}
    (h : ∀ d, Post (perform C S cmd) (Q d) d) :
    Post (executeOnPool C W S cmd) (fun reply db' =>
      (cmd.operation.mutation = false ∧ Q db reply db') ∨
      (cmd.operation.mutation = true ∧ ∃ row, db.requests.find? (GroupDb.requestKey C cmd) = some row ∧
        row.payload = hex (W.command cmd) ∧ savedReply W row.reply = .ok reply ∧ db' = db) ∨
      (cmd.operation.mutation = true ∧ (cmd.actor ≠ 0 ∧ cmd.clientID ≠ "" ∧ cmd.clientID.utf8ByteSize ≤ 64) ∧
        ∃ row d, (db.openRequest C cmd (hex (W.command cmd))).requests.find?
            (GroupDb.requestKey C cmd) = some row ∧ row.reply = "" ∧
          Q (db.openRequest C cmd (hex (W.command cmd))) reply d ∧
          db' = d.closeRequest C cmd reply (hex (W.reply reply)))) db := by
  unfold executeOnPool
  by_cases hm : cmd.operation.mutation = true
  · rw [if_neg (by simp [hm])]
    by_cases hv : cmd.actor = 0 ∨ cmd.clientID = "" ∨ 64 < cmd.clientID.utf8ByteSize
    · rw [if_pos hv]; exact fail_post
    rw [if_neg hv]
    push Not at hv
    refine update_bind (query_bind ?_)
    cases hr : (db.openRequest C cmd (hex (W.command cmd))).requests.find?
      (GroupDb.requestKey C cmd) with
    | none => exact fail_post
    | some row =>
      unfold requestCommand
      dsimp only
      by_cases hp : row.payload ≠ hex (W.command cmd)
      · rw [if_pos hp]; exact fail_post
      rw [if_neg hp]
      by_cases he : row.reply ≠ ""
      · rw [if_pos he]
        rcases find_openRequest hr with hf | ⟨-, h⟩
        · cases hs : savedReply W row.reply with
          | error e => exact fail_post
          | ok reply =>
            refine wp_pure (Or.inr (Or.inl ⟨hm, row, hf, not_not.1 hp, hs, ?_⟩))
            exact openRequest_of_find hf
        · exact absurd h he
      · rw [if_neg he]
        refine bind_post (wp_mono (h _) ?_ fun _ _ h => h)
        intro reply d _ hq
        exact update_bind (wp_pure (Or.inr (Or.inr ⟨hm, hv, row, d, rfl, not_not.1 he, hq, rfl⟩)))
  · rw [if_pos (by simpa using hm)]
    refine wp_mono (h db) ?_ fun _ _ h => h
    intro reply d _ hq
    exact Or.inl ⟨by simpa using hm, hq⟩

/-- **The transaction of a command.** -/
theorem executeOnPool_spec :
    Post (executeOnPool C W S cmd) (Outcome C W S cmd db) db := by
  refine wp_mono (executeOnPool_post (Q := fun d => Done S cmd d) fun d => perform_spec) ?_
    fun _ _ h => h
  rintro reply db' - (⟨hm, hd⟩ | ⟨hm, row, hf, hp, hs, rfl⟩ | ⟨hm, hv, row, d, hr, he, hd, rfl⟩)
  · exact .plain hm hd
  · exact .replay hm hf hp hs
  · exact .fresh hm hv hr he hd

/-- What a step of the service does for a command. -/
theorem execute_cases {lost : Bool} {fuel : ℕ} {db' : GroupDb} {es : List Event}
    (h : step C W db (.execute cmd S lost fuel) = some (db', es)) :
    (db' = db ∧ ∃ f, es = [.replied cmd (answer (.error f))]) ∨
    ∃ reply, Outcome C W S cmd db reply db' ∧
      (es = [.replied cmd reply] ∨ (lost = true ∧ es = [.replied cmd (answer (.error .fault))])) := by
  have hs : wp (executeOnPool C W S cmd) (fun a db' _ => Outcome C W S cmd db a db')
      (fun _ _ => True) db () := executeOnPool_spec
  simp only [step, Option.some.injEq, Prod.mk.injEq] at h
  obtain ⟨rfl, rfl⟩ := h
  rcases transaction_cases hs lost fuel with
    ⟨reply, d, x, he, ho⟩ | ⟨f, x, he, -⟩ | ⟨hl, reply, d, x, he, ho⟩
  all_goals rw [he]
  · exact Or.inr ⟨reply, ho, Or.inl rfl⟩
  · exact Or.inl ⟨rfl, f, rfl⟩
  · exact Or.inr ⟨reply, ho, Or.inr ⟨hl, rfl⟩⟩

/-- A delivery only reads. -/
theorem deliver_same {actor : Account} {group : String} {db' : GroupDb} {es : List Event}
    (h : step C W db (.deliver actor group) = some (db', es)) : db' = db := by
  simp only [step] at h
  split at h
  · cases h; rfl
  · split at h <;> · cases h; rfl

/-- **What a step does to the groups**: nothing, or the effect of a command,
    since the ledger statements around `perform` keep the other tables. -/
theorem step_effect {a : Action} {db' : GroupDb} {es : List Event}
    (h : step C W db a = some (db', es)) :
    db'.tables = db.tables ∨
    ∃ cmd S lost fuel reply, a = .execute cmd S lost fuel ∧ Effect S cmd db.tables reply db'.tables := by
  cases a with
  | execute cmd S lost fuel =>
    rcases execute_cases h with ⟨rfl, -⟩ | ⟨reply, ho, -⟩
    · exact Or.inl rfl
    · cases ho with
      | plain _ hd => exact Or.inr ⟨cmd, S, lost, fuel, reply, rfl, hd.2.tables⟩
      | replay => exact Or.inl rfl
      | fresh _ _ _ _ hd => exact Or.inr ⟨cmd, S, lost, fuel, reply, rfl, hd.2.tables⟩
  | deliver actor group => exact Or.inl (congrArg GroupDb.tables (deliver_same h))
  | register u =>
    simp only [step, Option.some.injEq, Prod.mk.injEq] at h
    obtain ⟨rfl, -⟩ := h
    exact Or.inl rfl

/-- `perform` leaves the ledger alone. -/
theorem Effect.ledger {reply : Reply} {db' : GroupDb} (h : Effect S cmd db reply db') :
    db'.requests = db.requests ∧ db'.executed = db.executed := by
  cases h <;> exact ⟨rfl, rfl⟩

end

/-! ## The ledger and the executed mutations -/

/-- Client ids compared byte by byte. -/
def bytewise : Collations := ⟨fun a b => a = b, fun a b => a = b⟩

/-- The ledger row of an executed mutation. -/
def entry (W : Wire) (e : Command × Reply) : RequestRow :=
  ⟨e.1.actor, e.1.clientID, hex (W.command e.1), hex (W.reply e.2)⟩

/-- The request id that `executeOnPool` accepts. -/
def ValidRequest (cmd : Command) : Prop :=
  cmd.actor ≠ 0 ∧ cmd.clientID ≠ "" ∧ cmd.clientID.utf8ByteSize ≤ 64

/-- **The invariant of the ledger.** -/
structure Ledger (W : Wire) (db : GroupDb) : Prop where
  rows : db.requests = db.executed.map (entry W)
  keys : (db.executed.map fun e => (e.1.actor, e.1.clientID)).Nodup
  ok : ∀ e ∈ db.executed, e.2.errorCode = "0"
  valid : ∀ e ∈ db.executed, ValidRequest e.1

section
variable {W : Wire} {S : Source} {cmd : Command} {db db' : GroupDb} {reply : Reply}

theorem requestKey_bytewise {r : RequestRow} :
    GroupDb.requestKey bytewise cmd r = true ↔ r.actor = cmd.actor ∧ r.clientID = cmd.clientID := by
  simp [GroupDb.requestKey, bytewise]

/-- The stored reply of a successful command is not empty. -/
theorem entry_reply_ne {e : Command × Reply} (h : e.2.errorCode = "0") : (entry W e).reply ≠ "" := by
  intro hn
  refine W.reply_ne_nil ?_ (hex_eq_empty hn)
  rw [h]
  decide

/-- No committed ledger row has an empty reply. -/
theorem Ledger.reply_ne (h : Ledger W db) {row : RequestRow} (hr : row ∈ db.requests) :
    row.reply ≠ "" := by
  rw [h.rows] at hr
  obtain ⟨e, he, rfl⟩ := List.mem_map.1 hr
  exact entry_reply_ne (h.ok e he)

/-- The row of a key is that of its execution. -/
theorem Ledger.find (h : Ledger W db) {c : Command} {r : Reply} (he : (c, r) ∈ db.executed)
    (ha : c.actor = cmd.actor) (hc : c.clientID = cmd.clientID) :
    db.requests.find? (GroupDb.requestKey bytewise cmd) = some (entry W (c, r)) := by
  have hmem : entry W (c, r) ∈ db.requests := by
    rw [h.rows]; exact List.mem_map_of_mem he
  obtain ⟨row, hrow⟩ : ∃ row, db.requests.find? (GroupDb.requestKey bytewise cmd) = some row :=
    Option.isSome_iff_exists.1 (List.find?_isSome.2 ⟨_, hmem, requestKey_bytewise.2 ⟨ha, hc⟩⟩)
  have hkey := requestKey_bytewise.1 (List.find?_some hrow)
  have hr := List.mem_of_find?_eq_some hrow
  rw [h.rows] at hr
  obtain ⟨e, he', rfl⟩ := List.mem_map.1 hr
  have : e = (c, r) := eq_of_key h.keys he' he
    (Prod.ext (hkey.1.trans ha.symm) (hkey.2.trans hc.symm))
  rw [hrow, this]

/-- A key without a row has no execution. -/
theorem Ledger.find_none (h : Ledger W db)
    (hn : db.requests.find? (GroupDb.requestKey bytewise cmd) = none) :
    ∀ e ∈ db.executed, (e.1.actor, e.1.clientID) ≠ (cmd.actor, cmd.clientID) := by
  intro e he hk
  have hmem : entry W e ∈ db.requests := by rw [h.rows]; exact List.mem_map_of_mem he
  refine List.find?_eq_none.1 hn _ hmem (requestKey_bytewise.2 ?_)
  exact ⟨congrArg Prod.fst hk, congrArg Prod.snd hk⟩

/-- A key without a row gets one. -/
theorem openRequest_fresh (payload : String)
    (hn : db.requests.find? (GroupDb.requestKey bytewise cmd) = none) :
    (db.openRequest bytewise cmd payload).requests
      = db.requests ++ [⟨cmd.actor, cmd.clientID, payload, ""⟩] :=
  if_neg (by simpa using hn)

/-- The ledger after a first execution. -/
theorem closeRequest_fresh (hn : db.requests.find? (GroupDb.requestKey bytewise cmd) = none)
    (h : Done S cmd (db.openRequest bytewise cmd (hex (W.command cmd))) reply db') :
    (db'.closeRequest bytewise cmd reply (hex (W.reply reply))).requests
        = db.requests ++ [entry W (cmd, reply)] ∧
      (db'.closeRequest bytewise cmd reply (hex (W.reply reply))).executed
        = db.executed ++ [(cmd, reply)] := by
  obtain ⟨hreq, hexe⟩ := h.2.ledger
  have hnone : ∀ r ∈ db.requests, GroupDb.requestKey bytewise cmd r = false := by
    intro r hr
    simpa using List.find?_eq_none.1 hn r hr
  have hopen := openRequest_fresh (hex (W.command cmd)) hn
  refine ⟨?_, by rw [← show _ = db.executed from hexe]; rfl⟩
  change updateWhere _ _ db'.requests = _
  rw [hreq, hopen, updateWhere, List.map_append]
  have hold := updateWhere_eq_self (f := fun r : RequestRow => { r with reply := hex (W.reply reply) }) hnone
  rw [updateWhere] at hold
  rw [hold]
  have hkey : GroupDb.requestKey bytewise cmd ⟨cmd.actor, cmd.clientID, hex (W.command cmd), ""⟩ = true :=
    requestKey_bytewise.2 ⟨rfl, rfl⟩
  simp [hkey, entry]

/-- In a good ledger the row a mutation finds empty is its own new one. -/
theorem Ledger.fresh (h : Ledger W db) {row : RequestRow} {payload : String}
    (hr : (db.openRequest bytewise cmd payload).requests.find? (GroupDb.requestKey bytewise cmd)
      = some row) (he : row.reply = "") :
    db.requests.find? (GroupDb.requestKey bytewise cmd) = none := by
  rcases find_openRequest hr with hf | ⟨hf, -⟩
  · exact absurd he (h.reply_ne (List.mem_of_find?_eq_some hf))
  · exact hf

theorem ledger_outcome (h : Ledger W db) (ho : Outcome bytewise W S cmd db reply db') :
    Ledger W db' := by
  cases ho with
  | plain _ hd =>
    obtain ⟨hreq, hexe⟩ := hd.2.ledger
    constructor
    · rw [hreq, hexe]; exact h.rows
    · rw [hexe]; exact h.keys
    · rw [hexe]; exact h.ok
    · rw [hexe]; exact h.valid
  | replay => exact h
  | fresh _ hv hr he hd =>
    have hn := h.fresh hr he
    obtain ⟨hreq, hexe⟩ := closeRequest_fresh hn hd
    constructor
    · rw [hreq, hexe, h.rows, List.map_append]; rfl
    · rw [hexe]
      exact nodup_append_one h.keys (h.find_none hn)
    · intro e hmem
      rw [hexe] at hmem
      rcases List.mem_append.1 hmem with hmem | hmem
      · exact h.ok e hmem
      · rw [List.mem_singleton.1 hmem]; exact hd.1
    · intro e hmem
      rw [hexe] at hmem
      rcases List.mem_append.1 hmem with hmem | hmem
      · exact h.valid e hmem
      · rw [List.mem_singleton.1 hmem]; exact hv

/-- Every step keeps the ledger. -/
theorem ledger_step {a : Action} {es : List Event} (h : Ledger W db)
    (hs : step bytewise W db a = some (db', es)) : Ledger W db' := by
  cases a with
  | execute cmd S lost fuel =>
    rcases execute_cases hs with ⟨rfl, -⟩ | ⟨reply, ho, -⟩
    · exact h
    · exact ledger_outcome h ho
  | deliver actor group => exact deliver_same hs ▸ h
  | register u =>
    simp only [step, Option.some.injEq, Prod.mk.injEq] at hs
    obtain ⟨rfl, -⟩ := hs
    exact ⟨h.rows, h.keys, h.ok, h.valid⟩

/-- The ledger is good in every state of a run. -/
theorem ledger_trace (T : GroupTrace bytewise W) {i : ℕ} (hi : i ≤ T.len) :
    Ledger W (T.state i) := by
  refine T.invariant (P := Ledger W) ?_ (fun s a s' es h hs => ledger_step h hs) hi
  constructor <;> simp

/-! ## Repeated and first requests -/

/-- The answer to a command whose key was executed, as `c` with the reply `r`:
    two statements and the `COMMIT` for the stored reply, two statements to
    find the conflict. -/
def repeatAnswer (W : Wire) (c : Command) (r : Reply) (cmd : Command) (lost : Bool) (fuel : ℕ) :
    Reply :=
  if W.command cmd = W.command c then
    if lost ∨ fuel < 3 then answer (.error .fault) else r
  else if fuel < 2 then answer (.error .fault)
  else answer (.error (.error ⟨"IDEMPOTENCY_CONFLICT", "请求标识重复且内容不同"⟩))

/-- A mutation with a valid id opens its request and reads the row. -/
theorem executeOnPool_eq (S : Source) (hm : cmd.operation.mutation = true) (hv : ValidRequest cmd) :
    executeOnPool bytewise W S cmd = (do
      update (GroupDb.openRequest bytewise cmd (hex (W.command cmd)))
      let old ← query fun db => db.requests.find? (GroupDb.requestKey bytewise cmd)
      requestCommand bytewise W S cmd old) := by
  have hv' : ¬ (cmd.actor = 0 ∨ cmd.clientID = "" ∨ 64 < cmd.clientID.utf8ByteSize) := by
    rintro (h | h | h)
    · exact hv.1 h
    · exact hv.2.1 h
    · exact absurd hv.2.2 (by omega)
  unfold executeOnPool
  rw [if_neg (by simp [hm]), if_neg hv']

/-- The connection fails before the row was read. -/
theorem executeOnPool_fault (db : GroupDb) (S : Source) (hm : cmd.operation.mutation = true)
    (hv : ValidRequest cmd) {fuel : ℕ} (hf : fuel < 2) :
    ∃ e, executeOnPool bytewise W S cmd db ⟨(), fuel⟩ = (.error .fault, e) := by
  rw [executeOnPool_eq S hm hv]
  rcases fuel with _ | _ | n
  · exact ⟨_, rfl⟩
  · exact ⟨_, rfl⟩
  · omega

theorem executeOnPool_run (db : GroupDb) (S : Source) (hm : cmd.operation.mutation = true)
    (hv : ValidRequest cmd) (n : ℕ) :
    executeOnPool bytewise W S cmd db ⟨(), n + 2⟩ =
      requestCommand bytewise W S cmd
        ((db.openRequest bytewise cmd (hex (W.command cmd))).requests.find?
          (GroupDb.requestKey bytewise cmd))
        (db.openRequest bytewise cmd (hex (W.command cmd))) ⟨(), n⟩ := by
  rw [executeOnPool_eq S hm hv]
  rfl

theorem savedReply_hex (W : Wire) (r : Reply) : savedReply W (hex (W.reply r)) = .ok r := by
  simp [savedReply, unhex_hex, W.parse_reply]


/-- The stored reply is returned to the same bytes, and to others a conflict. -/
theorem requestCommand_entry (S : Source) {c : Command} {r : Reply} (hr : r.errorCode = "0") :
    requestCommand bytewise W S cmd (some (entry W (c, r)))
      = if W.command cmd = W.command c then pure r
        else fail ⟨"IDEMPOTENCY_CONFLICT", "请求标识重复且内容不同"⟩ := by
  unfold requestCommand
  dsimp only
  by_cases hp : W.command cmd = W.command c
  · rw [if_pos hp, if_neg (by simp [entry, hp]), if_pos (entry_reply_ne hr)]
    simp only [entry, savedReply_hex]
  · rw [if_neg hp, if_pos]
    intro he
    exact hp (hex_inj he).symm

/-- **A repeated request** changes nothing, and its answer does not depend on
    the tables of the groups. -/
theorem repeat_step (h : Ledger W db) (hm : cmd.operation.mutation = true) {c : Command} {r : Reply}
    (he : (c, r) ∈ db.executed) (ha : c.actor = cmd.actor) (hc : c.clientID = cmd.clientID)
    (S : Source) (lost : Bool) (fuel : ℕ) :
    step bytewise W db (.execute cmd S lost fuel)
      = some (db, [.replied cmd (repeatAnswer W c r cmd lost fuel)]) := by
  have hfind := h.find he ha hc
  have hv : ValidRequest cmd := by
    have := h.valid _ he
    rw [ValidRequest, ha, hc] at this
    exact this
  unfold step repeatAnswer
  dsimp only
  by_cases hf : fuel < 2
  · obtain ⟨e, hrun⟩ := executeOnPool_fault (W := W) db S hm hv hf
    rw [transaction_error hrun, if_pos (Or.inr (by omega)), if_pos hf, ite_self]
  obtain ⟨n, rfl⟩ : ∃ n, fuel = n + 2 := ⟨fuel - 2, by omega⟩
  have hrun := executeOnPool_run (W := W) db S hm hv n
  rw [openRequest_of_find hfind, hfind, requestCommand_entry S (h.ok _ he)] at hrun
  rw [if_neg hf]
  by_cases hp : W.command cmd = W.command c
  · rw [if_pos hp]
    rw [if_pos hp] at hrun
    rw [transaction_run hrun]
    cases n <;> cases lost <;> simp [answer]
  · rw [if_neg hp]
    rw [if_neg hp] at hrun
    rw [transaction_error hrun]

/-- A key that was not executed has no row. -/
theorem Ledger.find_fresh (h : Ledger W db)
    (hn : ∀ e ∈ db.executed, (e.1.actor, e.1.clientID) ≠ (cmd.actor, cmd.clientID)) :
    db.requests.find? (GroupDb.requestKey bytewise cmd) = none := by
  rw [List.find?_eq_none, h.rows]
  intro r hr hk
  obtain ⟨e, he, rfl⟩ := List.mem_map.1 hr
  have := requestKey_bytewise.1 hk
  exact hn e he (Prod.ext this.1 this.2)

/-- Opening it makes one. -/
theorem Ledger.find_opened (h : Ledger W db) (payload : String)
    (hn : ∀ e ∈ db.executed, (e.1.actor, e.1.clientID) ≠ (cmd.actor, cmd.clientID)) :
    (db.openRequest bytewise cmd payload).requests.find? (GroupDb.requestKey bytewise cmd)
      = some ⟨cmd.actor, cmd.clientID, payload, ""⟩ := by
  have hkey : GroupDb.requestKey bytewise cmd ⟨cmd.actor, cmd.clientID, payload, ""⟩ = true :=
    requestKey_bytewise.2 ⟨rfl, rfl⟩
  rw [openRequest_fresh _ (h.find_fresh hn), List.find?_append, h.find_fresh hn]
  simp [hkey]

/-- **A first request** runs `perform` between the two ledger statements. -/
theorem first_run (h : Ledger W db) (hm : cmd.operation.mutation = true) (hv : ValidRequest cmd)
    (hn : ∀ e ∈ db.executed, (e.1.actor, e.1.clientID) ≠ (cmd.actor, cmd.clientID))
    (S : Source) (n : ℕ) :
    executeOnPool bytewise W S cmd db ⟨(), n + 2⟩ =
      (do
        let reply ← perform bytewise S cmd
        update (GroupDb.closeRequest bytewise cmd reply (hex (W.reply reply)))
        pure reply : Stmt Reply) (db.openRequest bytewise cmd (hex (W.command cmd))) ⟨(), n⟩ := by
  rw [executeOnPool_run db S hm hv n, h.find_opened _ hn]
  simp only [requestCommand, ne_eq, not_true_eq_false, if_false]

/-- A first request commits its execution, or changes nothing. -/
theorem first_step (h : Ledger W db) (hm : cmd.operation.mutation = true)
    (hn : ∀ e ∈ db.executed, (e.1.actor, e.1.clientID) ≠ (cmd.actor, cmd.clientID))
    {lost : Bool} {fuel : ℕ} {es : List Event}
    (hs : step bytewise W db (.execute cmd S lost fuel) = some (db', es)) :
    (db' = db ∧ ∃ f, es = [.replied cmd (answer (.error f))]) ∨
    ∃ reply, reply.errorCode = "0" ∧ db'.executed = db.executed ++ [(cmd, reply)] ∧
      (es = [.replied cmd reply] ∨ (lost = true ∧ es = [.replied cmd (answer (.error .fault))])) := by
  rcases execute_cases hs with he | ⟨reply, ho, hes⟩
  · exact Or.inl he
  · refine Or.inr ⟨reply, ?_⟩
    cases ho with
    | plain hm' => rw [hm] at hm'; cases hm'
    | replay _ hr => rw [h.find_fresh hn] at hr; cases hr
    | fresh _ _ _ _ hd => exact ⟨hd.1, (closeRequest_fresh (h.find_fresh hn) hd).2, hes⟩

/-- The executions only grow. -/
theorem executed_step {a : Action} {es : List Event} (h : Ledger W db)
    (hs : step bytewise W db a = some (db', es)) : db.executed <+: db'.executed := by
  cases a with
  | execute cmd S lost fuel =>
    rcases execute_cases hs with ⟨rfl, -⟩ | ⟨reply, ho, -⟩
    · exact List.prefix_rfl
    · cases ho with
      | plain _ hd => rw [hd.2.ledger.2]
      | replay => exact List.prefix_rfl
      | fresh _ _ hr he hd =>
        rw [(closeRequest_fresh (h.fresh hr he) hd).2]
        exact List.prefix_append _ _
  | deliver actor group => rw [deliver_same hs]
  | register u =>
    simp only [step, Option.some.injEq, Prod.mk.injEq] at hs
    obtain ⟨rfl, -⟩ := hs
    exact List.prefix_rfl

end

/-- **Exactly-once mutations.**  In every run, in any order, with any failures
    and retries:

    * every state has at most one execution for each actor and client id, and
      the ledger holds exactly these, each with its reply;
    * executions are never taken back;
    * after an execution, a command with its key leaves every table as it is;
      the same bytes are answered by the reply of that execution, others by
      `IDEMPOTENCY_CONFLICT`, unless the connection fails (`repeatAnswer`);
    * before one, a command with the key leaves every table as it is and fails,
      or commits its own execution, also when the answer of the `COMMIT` is
      lost; and it runs `perform`, from the tables as they are. -/
theorem exactly_once_mutations (W : Wire) (T : GroupTrace bytewise W) :
    (∀ i ≤ T.len, (T.state i).requests = (T.state i).executed.map (entry W) ∧
      ((T.state i).executed.map fun e => (e.1.actor, e.1.clientID)).Nodup ∧
      ∀ row ∈ (T.state i).requests, row.reply ≠ "") ∧
    (∀ i j, i ≤ j → j ≤ T.len → (T.state i).executed <+: (T.state j).executed) ∧
    (∀ i j, i ≤ j → j < T.len → ∀ c r, (c, r) ∈ (T.state i).executed →
      ∀ cmd S lost fuel, T.act j = .execute cmd S lost fuel → cmd.operation.mutation = true →
      c.actor = cmd.actor → c.clientID = cmd.clientID →
      T.state (j + 1) = T.state j ∧ T.out j = [.replied cmd (repeatAnswer W c r cmd lost fuel)]) ∧
    (∀ i < T.len, ∀ cmd S lost fuel, T.act i = .execute cmd S lost fuel →
      cmd.operation.mutation = true →
      (∀ e ∈ (T.state i).executed, (e.1.actor, e.1.clientID) ≠ (cmd.actor, cmd.clientID)) →
      ((T.state (i + 1) = T.state i ∧ ∃ f, T.out i = [.replied cmd (answer (.error f))]) ∨
        ∃ reply, reply.errorCode = "0" ∧
          (T.state (i + 1)).executed = (T.state i).executed ++ [(cmd, reply)] ∧
          (T.out i = [.replied cmd reply] ∨
            (lost = true ∧ T.out i = [.replied cmd (answer (.error .fault))]))) ∧
      (ValidRequest cmd → ∀ S n, executeOnPool bytewise W S cmd (T.state i) ⟨(), n + 2⟩ =
        (do
          let reply ← perform bytewise S cmd
          update (GroupDb.closeRequest bytewise cmd reply (hex (W.reply reply)))
          pure reply : Stmt Reply)
          ((T.state i).openRequest bytewise cmd (hex (W.command cmd))) ⟨(), n⟩)) := by
  have hmono : ∀ i j, i ≤ j → j ≤ T.len → (T.state i).executed <+: (T.state j).executed := by
    intro i j hij hj
    exact T.related (R := fun db db' => db.executed <+: db'.executed) (fun i hi => ledger_trace T hi)
      (fun _ => List.prefix_rfl) (fun _ _ _ => List.IsPrefix.trans)
      (fun s a s' es h hs => executed_step h hs) hij hj
  refine ⟨?_, hmono, ?_, ?_⟩
  · intro i hi
    have h := ledger_trace T hi
    exact ⟨h.rows, h.keys, fun row hr => h.reply_ne hr⟩
  · intro i j hij hj c r he cmd S lost fuel hact hm ha hc
    have h := ledger_trace T (by omega : j ≤ T.len)
    have hs := T.next j hj
    rw [hact, repeat_step h hm ((hmono i j hij (by omega)).subset he) ha hc S lost fuel] at hs
    simp only [Option.some.injEq, Prod.mk.injEq] at hs
    exact ⟨hs.1.symm, hs.2.symm⟩
  · intro i hi cmd S lost fuel hact hm hn
    have h := ledger_trace T (by omega : i ≤ T.len)
    have hs := T.next i hi
    rw [hact] at hs
    exact ⟨first_step h hm hn hs, fun hv S n => first_run h hm hv hn S n⟩

end ApeServer.Group
