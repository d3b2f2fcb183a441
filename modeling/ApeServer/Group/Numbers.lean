/-
  Public numbers of groups.

  A `Create` draws the number of its group inside its transaction.  Groups from
  before there were numbers get theirs from `EnsureGroupNumbers`, which every
  server runs when it starts: it reads which groups have none, and then takes
  a transaction for each of them, which locks the cursor and looks again.

  * `numberStep` is the group service together with running calls of
    `EnsureGroupNumbers`;
  * `numberStep_assigned`: a step draws at most one number, for a new group or
    for one that had none;
  * `search_reply`: what `Search` answers to a number and to an id;
  * `group_numbers` says what holds in every run.
-/
import ApeServer.Group.Ledger
import ApeServer.Lib.Counter
import ApeServer.Lib.Decimal

namespace ApeServer.Group

open Table Txn

/-! ## `EnsureGroupNumbers` -/

/-- The groups without a number, `ORDER BY g.id`. -/
def GroupDb.missing (db : GroupDb) : List ℕ :=
  ((db.groups.filter fun g => !db.numbers.any fun n => n.group = g.id).map GroupRow.id).insertionSort (· ≤ ·)

/-- The transaction for one of them. -/
def ensureNumber (id : ℕ) : Stmt Unit := do
  let _ ← query (·.nextNumber)
  let found ← query (·.number? id)
  match found with
  | some _ => pure ()
  | none => do
    let _ ← allocateGroupNumber id
    pure ()

/-- Where a call is. -/
inductive EnsureCall where
  | idle
  /-- the groups it still goes through; with none left it has returned -/
  | loop (ids : List ℕ)
  | thrown
deriving DecidableEq, Repr

/-- The tables, and the calls of `EnsureGroupNumbers` of all servers. -/
structure Numbering where
  db : GroupDb
  calls : ℕ → EnsureCall

inductive NumberAction where
  | service (x : Action)
  /-- a call reads the groups without a number, or fails at that -/
  | ensure (k : ℕ) (fails : Bool)
  /-- the transaction of the next group; its `COMMIT` may lose its answer -/
  | number (k : ℕ) (lost : Bool) (fuel : ℕ)
deriving DecidableEq, Repr

/-- A call after its transaction: an exception ends it. -/
def EnsureCall.after (ids : List ℕ) : Except (Failure GroupError) Unit → EnsureCall
  | .ok _ => .loop ids
  | .error _ => .thrown

/-- One step of the service, or of a call. -/
def numberStep (C : Collations) (W : Wire) (w : Numbering) :
    NumberAction → Option (Numbering × List Event)
  | .service x => (step C W w.db x).map fun r => ({ w with db := r.1 }, r.2)
  | .ensure k fails =>
    match w.calls k with
    | .idle =>
      some ({ w with calls := Function.update w.calls k (if fails then .thrown else .loop w.db.missing) }, [])
    | _ => none
  | .number k lost fuel =>
    match w.calls k with
    | .loop (id :: ids) =>
      let r := transaction (ensureNumber id) lost w.db () fuel
      some (⟨r.2.1, Function.update w.calls k (.after ids r.1)⟩, [])
    | _ => none

/-- The runs from given tables. -/
abbrev NumberTrace (C : Collations) (W : Wire) (db : GroupDb) :=
  Machine.Trace (numberStep C W) ⟨db, fun _ => .idle⟩

/-- Tables from before there were numbers, with the new cursor. -/
structure Legacy (db : GroupDb) : Prop where
  numbers : db.numbers = []
  cursor : db.nextNumber = 1000000000

/-! ## What is assigned -/

/-- The group has a number. -/
def HasNumber (db : GroupDb) (id : ℕ) : Prop := ∃ n ∈ db.numbers, n.group = id

/-- How groups and numbers change: at most one number is drawn, and a new group
    gets it. -/
inductive Assigned (db db' : GroupDb) : Prop
  | keep (hg : ∀ g' ∈ db'.groups, ∃ g ∈ db.groups, g.id = g'.id) (hn : db'.numbers = db.numbers)
      (hc : db'.nextNumber = db.nextNumber)
  | assign {id : ℕ} (hg : ∀ g' ∈ db'.groups, (∃ g ∈ db.groups, g.id = g'.id) ∨ g'.id = id)
      (hn : db'.numbers = db.numbers ++ [⟨id, db.nextNumber⟩]) (hc : db'.nextNumber = db.nextNumber + 1)
      (hnew : ∀ n ∈ db.numbers, n.group ≠ id) (hmax : db.nextNumber ≤ 9999999999)

section
variable {C : Collations} {W : Wire} {S : Source} {cmd : Command} {db db' : GroupDb} {w w' : Numbering}
  {reply : Reply} {id k : ℕ}

theorem Assigned.refl (db : GroupDb) : Assigned db db := .keep (fun g hg => ⟨g, hg, rfl⟩) rfl rfl

theorem Assigned.update {f : GroupRow → GroupRow}
    (hg : db'.groups = updateWhere (fun g => g.id = id) f db.groups) (hf : ∀ g, (f g).id = g.id) (hn : db'.numbers = db.numbers)
    (hc : db'.nextNumber = db.nextNumber) : Assigned db db' := by
  refine .keep (fun g' hg' => ?_) hn hc
  rw [hg] at hg'
  obtain ⟨g, hmem, rfl⟩ := mem_updateWhere.1 hg'
  refine ⟨g, hmem, ?_⟩
  split_ifs
  · exact (hf g).symm
  · rfl

/-- Only a `Create` assigns a number. -/
theorem Effect.assigned (h : Effect S cmd db reply db') : Assigned db db' := by
  cases h with
  | same | pull => exact .refl db
  | apply | reject | ack | read => exact .keep (fun g hg => ⟨g, hg, rfl⟩) rfl rfl
  | create _ _ hnum hmax =>
    have hg : ∀ g' ∈ (created db S cmd).groups, (∃ g ∈ db.groups, g.id = g'.id) ∨ g'.id = S.snowflake := by
      intro g' hg'
      rcases List.mem_append.1 hg' with hg' | hg'
      · exact Or.inl ⟨g', hg', rfl⟩
      · exact Or.inr (by rw [List.mem_singleton.1 hg']; rfl)
    exact .assign hg rfl rfl (fun n hn => (hnum n hn).1) hmax
  | accept => exact .update rfl (fun _ => rfl) rfl rfl
  | rename => exact .update rfl (fun _ => rfl) rfl rfl
  | remove => exact .update rfl (fun _ => rfl) rfl rfl
  | dismiss => exact .update rfl (fun _ => rfl) rfl rfl
  | send => exact .update rfl (fun _ => rfl) rfl rfl

theorem step_assigned {x : Action} {es : List Event} (h : step C W db x = some (db', es)) :
    Assigned db db' := by
  suffices ht : Assigned db.tables db'.tables by
    cases ht with
    | keep hg hn hc => exact .keep hg hn hc
    | assign hg hn hc hnew hmax => exact .assign hg hn hc hnew hmax
  rcases step_effect h with ht | ⟨cmd, S, lost, fuel, reply, -, he⟩
  · rw [ht]; exact .refl _
  · exact he.assigned

/-- The transaction of `EnsureGroupNumbers`. -/
theorem ensureNumber_spec :
    Post (ensureNumber id) (fun _ db' => Assigned db db' ∧ HasNumber db' id) db := by
  unfold ensureNumber
  refine query_bind (query_bind ?_)
  cases hf : db.number? id with
  | some n =>
    refine wp_pure ⟨.refl db, n, List.mem_of_find?_eq_some hf, ?_⟩
    simpa using List.find?_some hf
  | none =>
    refine bind_post (allocateGroupNumber_spec fun hmax hnum => wp_pure ⟨?_, ?_⟩)
    · exact .assign (fun g hg => Or.inl ⟨g, hg, rfl⟩) rfl rfl (fun n hn => (hnum n hn).1) hmax
    · exact ⟨_, List.mem_append_right _ (List.mem_singleton_self _), rfl⟩

/-- What a transaction of `EnsureGroupNumbers` leaves. -/
theorem ensureNumber_transaction (db : GroupDb) (id : ℕ) (lost : Bool) (fuel : ℕ) :
    Assigned db (transaction (ensureNumber id) lost db () fuel).2.1 ∧
      ((∃ e, (transaction (ensureNumber id) lost db () fuel).1 = .error e) ∨
        HasNumber (transaction (ensureNumber id) lost db () fuel).2.1 id) := by
  have hs : wp (ensureNumber id) (fun _ db' _ => Assigned db db' ∧ HasNumber db' id)
      (fun _ _ => True) db () := ensureNumber_spec
  rcases transaction_cases hs lost fuel with
    ⟨_, d, x, he, h⟩ | ⟨f, x, he, -⟩ | ⟨-, _, d, x, he, h⟩
  all_goals rw [he]
  · exact ⟨h.1, Or.inr h.2⟩
  · exact ⟨.refl db, Or.inl ⟨f, rfl⟩⟩
  · exact ⟨h.1, Or.inr h.2⟩

/-- **Every step assigns at most one number.** -/
theorem numberStep_assigned {x : NumberAction} {es : List Event}
    (h : numberStep C W w x = some (w', es)) : Assigned w.db w'.db := by
  cases x with
  | service x =>
    simp only [numberStep, Option.map_eq_some_iff] at h
    obtain ⟨r, hs, h⟩ := h
    cases h
    exact step_assigned hs
  | ensure k fails =>
    simp only [numberStep] at h
    split at h
    · cases h; exact .refl _
    · cases h
  | number k lost fuel =>
    simp only [numberStep] at h
    split at h
    · cases h
      exact (ensureNumber_transaction _ _ _ _).1
    · cases h

/-! ## Numbers in a run -/

/-- The numbers by group. -/
def GroupDb.drawn (db : GroupDb) : List (ℕ × ℕ) := db.numbers.map fun n => (n.group, n.number)

/-- **The invariant of the numbers.** -/
abbrev Drawn (db : GroupDb) : Prop :=
  Counter.Drawn 1000000000 9999999999 db.drawn db.nextNumber

theorem Assigned.draw (h : Assigned db db') :
    Counter.Draw 9999999999 db.drawn db.nextNumber db'.drawn db'.nextNumber := by
  cases h with
  | keep hg hn hc =>
    rw [GroupDb.drawn, GroupDb.drawn, hn, hc]
    exact .keep
  | assign hg hn hc hnew hmax =>
    rw [GroupDb.drawn, GroupDb.drawn, hn, hc, List.map_append]
    refine .draw (fun x hx => ?_) hmax
    obtain ⟨n, hmem, rfl⟩ := List.mem_map.1 hx
    exact hnew n hmem

/-- Numbers are not taken back. -/
theorem Assigned.grow (h : Assigned db db') : db.numbers <+: db'.numbers := by
  cases h with
  | keep _ hn => rw [hn]
  | assign _ hn => rw [hn]; exact List.prefix_append _ _

theorem HasNumber.grow (h : HasNumber db id) (hn : db.numbers <+: db'.numbers) : HasNumber db' id := by
  obtain ⟨n, hmem, hid⟩ := h
  exact ⟨n, hn.subset hmem, hid⟩

/-- A new group has a number. -/
theorem Assigned.numbered (h : Assigned db db') {g : GroupRow} (hg : g ∈ db'.groups)
    (hnew : ∀ g' ∈ db.groups, g'.id ≠ g.id) : HasNumber db' g.id := by
  cases h with
  | keep hold =>
    obtain ⟨g', hg', hid⟩ := hold g hg
    exact absurd hid (hnew g' hg')
  | @assign id hold hn =>
    rcases hold g hg with ⟨g', hg', hid⟩ | hid
    · exact absurd hid (hnew g' hg')
    · exact ⟨⟨id, db.nextNumber⟩, by rw [hn]; simp, hid.symm⟩

/-- A number determines its row, and so does a group. -/
theorem Drawn.unique (h : Drawn db) {n n' : NumberRow} (hn : n ∈ db.numbers) (hn' : n' ∈ db.numbers)
    (he : n.group = n'.group ∨ n.number = n'.number) : n = n' := by
  have hkeys : (db.numbers.map NumberRow.group).Nodup := by
    have := h.keys
    rwa [GroupDb.drawn, List.map_map] at this
  have hvalues : (db.numbers.map NumberRow.number).Nodup := by
    have := h.numbers
    rwa [GroupDb.drawn, List.map_map] at this
  rcases he with he | he
  · exact eq_of_key hkeys hn hn' he
  · exact eq_of_key hvalues hn hn' he

theorem Drawn.range (h : Drawn db) {n : NumberRow} (hn : n ∈ db.numbers) :
    1000000000 ≤ n.number ∧ n.number ≤ 9999999999 ∧ n.number < db.nextNumber := by
  have hrange := Counter.Drawn.range h (n.group, n.number) (List.mem_map_of_mem hn)
  have hcursor := h.counter
  dsimp only at hrange
  omega

theorem HasNumber.unique (h : HasNumber db id) (hd : Drawn db) :
    ∃! n, n ∈ db.numbers ∧ n.group = id := by
  obtain ⟨n, hn, hid⟩ := h
  refine ⟨n, ⟨hn, hid⟩, ?_⟩
  rintro n' ⟨hn', hid'⟩
  exact hd.unique hn' hn (Or.inl (hid'.trans hid.symm))

variable {T : NumberTrace C W db} {i j : ℕ}

theorem drawn_trace (hL : Legacy db) (hi : i ≤ T.len) : Drawn (T.state i).db := by
  refine T.invariant (P := fun w => Drawn w.db) ?_ (fun _ _ _ _ h hs => ?_) hi
  · change Counter.Drawn _ _ db.drawn db.nextNumber
    rw [GroupDb.drawn, hL.numbers, hL.cursor]
    exact .nil (by decide)
  · exact h.step (numberStep_assigned hs).draw

theorem numbers_trace (hij : i ≤ j) (hj : j ≤ T.len) :
    (T.state i).db.numbers <+: (T.state j).db.numbers :=
  T.related (P := fun _ => True) (R := fun w w' => w.db.numbers <+: w'.db.numbers) (fun _ _ => trivial)
    (fun _ => List.prefix_rfl) (fun _ _ _ => List.IsPrefix.trans)
    (fun _ _ _ _ _ hs => (numberStep_assigned hs).grow) hij hj

theorem nextNumber_trace (hij : i ≤ j) (hj : j ≤ T.len) :
    (T.state i).db.nextNumber ≤ (T.state j).db.nextNumber :=
  T.related (P := fun _ => True) (R := fun w w' => w.db.nextNumber ≤ w'.db.nextNumber) (fun _ _ => trivial)
    (fun _ => le_rfl) (fun _ _ _ => le_trans)
    (fun _ _ _ _ _ hs => (numberStep_assigned hs).draw.next_le) hij hj

/-! ## Calls of `EnsureGroupNumbers` -/

theorem mem_missing {id : ℕ} : id ∈ db.missing ↔ (∃ g ∈ db.groups, g.id = id) ∧ ¬ HasNumber db id := by
  simp only [GroupDb.missing, List.mem_insertionSort, List.mem_map, List.mem_filter, Bool.not_eq_true',
    List.any_eq_false, decide_eq_true_eq, HasNumber, not_exists, not_and]
  constructor
  · rintro ⟨g, ⟨hg, hn⟩, rfl⟩
    exact ⟨⟨g, hg, rfl⟩, hn⟩
  · rintro ⟨⟨g, hg, rfl⟩, hn⟩
    exact ⟨g, ⟨hg, hn⟩, rfl⟩

/-- What a step does to a call: it starts, it goes past a group that has a number
    now, or it ends by an exception. -/
theorem numberStep_calls {x : NumberAction} {es : List Event}
    (h : numberStep C W w x = some (w', es)) (k : ℕ) :
    w'.calls k = w.calls k ∨ w'.calls k = .thrown ∨
    (w.calls k = .idle ∧ w'.calls k = .loop w.db.missing) ∨
    ∃ id ids, w.calls k = .loop (id :: ids) ∧ w'.calls k = .loop ids ∧ HasNumber w'.db id := by
  cases x with
  | service x =>
    simp only [numberStep, Option.map_eq_some_iff] at h
    obtain ⟨r, -, h⟩ := h
    cases h
    exact Or.inl rfl
  | ensure k' fails =>
    simp only [numberStep] at h
    split at h
    · next hidle =>
      cases h
      by_cases hk : k = k'
      · subst hk
        cases fails with
        | true => exact Or.inr (Or.inl (Function.update_self ..))
        | false => exact Or.inr (Or.inr (Or.inl ⟨hidle, Function.update_self ..⟩))
      · exact Or.inl (Function.update_of_ne hk _ _)
    · cases h
  | number k' lost fuel =>
    simp only [numberStep] at h
    split at h
    · next id ids hloop =>
      cases h
      by_cases hk : k = k'
      · subst hk
        simp only [Function.update_self]
        cases hr : (transaction (ensureNumber id) lost w.db () fuel).1 with
        | error e => exact Or.inr (Or.inl rfl)
        | ok _ =>
          have hn := (ensureNumber_transaction w.db id lost fuel).2
          rw [hr] at hn
          exact Or.inr (Or.inr (Or.inr ⟨id, ids, hloop, rfl, hn.resolve_left (by rintro ⟨e, ⟨⟩⟩)⟩))
      · exact Or.inl (Function.update_of_ne hk _ _)
    · cases h

/-- A call that has started read the groups without a number. -/
theorem ensure_starts (hi : i < T.len) (hx : T.act i = .ensure k false) :
    (T.state i).calls k = .idle ∧ (T.state (i + 1)).calls k = .loop (T.state i).db.missing := by
  have hs := T.next i hi
  rw [hx] at hs
  simp only [numberStep] at hs
  split at hs
  · next hidle =>
    simp only [Option.some.injEq, Prod.mk.injEq] at hs
    rw [← hs.1]
    exact ⟨hidle, Function.update_self ..⟩
  · cases hs

/-- **What a call has not numbered yet**, of the groups from when it started, it
    still goes through. -/
theorem ensure_covers (hx : T.act i = .ensure k false) (hij : i + 1 ≤ j) (hj : j ≤ T.len) :
    (T.state j).calls k ≠ .idle ∧ ∀ ids, (T.state j).calls k = .loop ids →
      ∀ g ∈ (T.state i).db.groups, HasNumber (T.state j).db g.id ∨ g.id ∈ ids := by
  induction j, hij using Nat.le_induction with
  | base =>
    obtain ⟨-, hloop⟩ := ensure_starts (by omega) hx
    rw [hloop]
    refine ⟨by simp, ?_⟩
    rintro _ ⟨⟩ g hg
    by_cases hn : HasNumber (T.state i).db g.id
    · exact Or.inl (hn.grow (numbers_trace (Nat.le_succ i) hj))
    · exact Or.inr (mem_missing.2 ⟨⟨g, hg, rfl⟩, hn⟩)
  | succ j hij ih =>
    obtain ⟨hidle, hcov⟩ := ih (by omega)
    have hgrow := numbers_trace (T := T) (Nat.le_succ j) hj
    rcases numberStep_calls (T.next j (by omega)) k with he | he | ⟨he, -⟩ | ⟨id, ids', he, he', hn⟩
    · rw [he]
      exact ⟨hidle, fun ids hids g hg => (hcov ids hids g hg).imp_left fun hn => hn.grow hgrow⟩
    · rw [he]
      exact ⟨by simp, by rintro _ ⟨⟩⟩
    · exact absurd he hidle
    · rw [he']
      refine ⟨by simp, ?_⟩
      rintro _ ⟨⟩ g hg
      rcases hcov _ he g hg with hold | hmem
      · exact Or.inl (hold.grow hgrow)
      · rcases List.mem_cons.1 hmem with hid | hmem
        · exact Or.inl (hid ▸ hn)
        · exact Or.inr hmem

/-! ## No number left -/

/-- A `Create` that succeeds has drawn a number. -/
theorem perform_create (hop : cmd.operation = .create) :
    Post (perform C S cmd) (fun _ _ => db.nextNumber ≤ 9999999999) db := by
  refine perform_post fun u _ => ?_
  simp only [hop]
  unfold createGroup
  split_ifs
  · exact fail_post
  refine insert_bind fun _ => bind_post (allocateGroupNumber_spec fun hmax _ => ?_)
  refine insert_bind fun _ => query_bind ?_
  split
  · exact fail_post
  · exact memberState_bind (wp_pure hmax)

/-- The request was answered before. -/
def Replays (C : Collations) (W : Wire) (db : GroupDb) (cmd : Command) (reply : Reply) : Prop :=
  ∃ row, db.requests.find? (GroupDb.requestKey C cmd) = some row ∧
    row.payload = hex (W.command cmd) ∧ savedReply W row.reply = .ok reply

/-- **Without a number left a `Create` fails**, and leaves no row at all. -/
theorem create_exhausted (hop : cmd.operation = .create) (hmax : 9999999999 < db.nextNumber) {lost : Bool}
    {fuel : ℕ} {es : List Event} (h : step C W db (.execute cmd S lost fuel) = some (db', es)) :
    db' = db ∧ ∃ reply, es = [.replied cmd reply] ∧
      ((∃ f, reply = answer (.error f)) ∨ Replays C W db cmd reply) := by
  have hs : wp (executeOnPool C W S cmd) (fun reply d _ => d = db ∧ Replays C W db cmd reply)
      (fun _ _ => True) db () := by
    refine wp_mono (executeOnPool_post (Q := fun d _ _ => d.nextNumber ≤ 9999999999)
      fun d => perform_create hop) ?_ fun _ _ h => h
    rintro reply d - (⟨-, hle⟩ | ⟨-, row, hf, hp, hr, rfl⟩ | ⟨-, -, row, d', -, -, hle, -⟩)
    · omega
    · exact ⟨rfl, row, hf, hp, hr⟩
    · change db.nextNumber ≤ 9999999999 at hle
      omega
  simp only [step, Option.some.injEq, Prod.mk.injEq] at h
  obtain ⟨rfl, rfl⟩ := h
  rcases transaction_cases hs lost fuel with
    ⟨reply, d, x, he, rfl, hr⟩ | ⟨f, x, he, -⟩ | ⟨-, reply, d, x, he, rfl, -⟩
  all_goals rw [he]
  · exact ⟨rfl, reply, rfl, Or.inr hr⟩
  · exact ⟨rfl, _, rfl, Or.inl ⟨f, rfl⟩⟩
  · exact ⟨rfl, _, rfl, Or.inl ⟨.fault, rfl⟩⟩

/-! ## Search -/

/-- The text of a number is read as that number. -/
theorem groupId_repr {n : ℕ} (h₀ : n ≠ 0) (h : n < 2 ^ 64) : groupId (Nat.repr n) = .ok n := by
  have hsize : (Nat.repr n).utf8ByteSize ≤ 20 := (Decimal.size_repr_le (by decide)).2 (by omega)
  have hdigits : (Nat.repr n).toList.all Char.isDigit = true := by
    rw [Nat.toList_repr, List.all_eq_true]
    exact fun c hc => Nat.isDigit_of_mem_toDigits (by decide) (by decide) hc
  have hvalue : (Nat.repr n).toList.foldl (fun n c => 10 * n + (c.toNat - '0'.toNat)) 0 = n := by
    rw [← Nat.ofDigitChars_eq_foldl, Nat.toList_repr, Nat.ofDigitChars_ten_toDigits]
  unfold groupId
  dsimp only
  rw [hvalue, if_neg, if_neg (by omega)]
  rintro (he | he | he)
  · exact Nat.repr_ne_empty he
  · omega
  · rw [hdigits] at he
    cases he

/-- The view of a group takes at most three statements. -/
theorem memberState_runs (db : GroupDb) (g : Info) (id : ℕ) (actor : Account) (n : ℕ) :
    ∃ n', n ≤ n' ∧ memberState g id actor db ⟨(), n + 3⟩ = (.ok (memberView db g id actor, db), ⟨(), n'⟩) := by
  unfold memberState memberView
  rw [run_bind (query_run _ db _), run_bind (query_run _ db _)]
  generalize withNumber g (db.number? id) = g'
  cases db.member? id actor with
  | none => exact ⟨n + 1, Nat.le_succ n, rfl⟩
  | some m =>
    dsimp only
    by_cases hj : (m.active && !g'.dismissed) = true
    · rw [if_pos hj, if_pos hj]
      exact ⟨n, le_rfl, rfl⟩
    · rw [if_neg hj, if_neg hj]
      exact ⟨n + 1, Nat.le_succ n, rfl⟩

/-- A `Search` by an account that exists. -/
structure Searches (db : GroupDb) (cmd : Command) : Prop where
  operation : cmd.operation = .search
  actor : cmd.actor ≠ 0
  user : ∃ u, db.user? cmd.actor = some u
  text : cmd.text.utf8ByteSize ≤ 512

/-- What the text of a `Search` names: a number first, else an id that is longer. -/
theorem searchId_run (hd : Drawn db) {n : NumberRow} (hn : db.number? id = some n) (hid : 9999999999 < id)
    (hid' : id < 2 ^ 64) (htext : cmd.groupID = Nat.repr n.number ∨ cmd.groupID = Nat.repr id) (m : ℕ) :
    ∃ number, groupId cmd.groupID = .ok number ∧
      searchId cmd number db ⟨(), m + 1⟩ = (.ok (id, db), ⟨(), m⟩) := by
  have hmem := List.mem_of_find?_eq_some hn
  have hgroup : n.group = id := by simpa using List.find?_some hn
  have hrange := hd.range hmem
  rcases htext with htext | htext
  · refine ⟨n.number, by rw [htext, groupId_repr] <;> omega, ?_⟩
    have hfind : db.numbers.find? (fun x => x.number = n.number) = some n := by
      obtain ⟨x, hx⟩ := Option.isSome_iff_exists.1
        (List.find?_isSome.2 ⟨n, hmem, by simp⟩ : (db.numbers.find? fun x => x.number = n.number).isSome)
      have hnum : x.number = n.number := by simpa using List.find?_some hx
      rw [hx, hd.unique (List.mem_of_find?_eq_some hx) hmem (Or.inr hnum)]
    unfold searchId
    rw [run_bind (query_run _ db _), hfind, ← hgroup]
    rfl
  · refine ⟨id, by rw [htext, groupId_repr] <;> omega, ?_⟩
    -- no number is as large as an id
    have hfind : db.numbers.find? (fun x => x.number = id) = none := by
      refine List.find?_eq_none.2 fun x hx => ?_
      have := hd.range hx
      simp
      omega
    have hlong : ¬ cmd.groupID.utf8ByteSize ≤ 10 := by
      rw [htext, Decimal.size_repr_le (by decide)]
      omega
    unfold searchId
    rw [run_bind (query_run _ db _), hfind]
    dsimp only
    rw [if_neg hlong]
    rfl

/-- **What `Search` answers** to the number of a group, and to its id. -/
theorem search_reply (C : Collations) (W : Wire) (S : Source) (hd : Drawn db) {g : GroupRow}
    (hg : db.group? id = some g) {n : NumberRow} (hn : db.number? id = some n) (hid : 9999999999 < id)
    (hid' : id < 2 ^ 64) (hc : Searches db cmd)
    (htext : cmd.groupID = Nat.repr n.number ∨ cmd.groupID = Nat.repr id) {fuel : ℕ} (hf : 7 ≤ fuel) :
    ∃ reply, step C W db (.execute cmd S false fuel) = some (db, [.replied cmd reply]) ∧
      reply.errorCode = "0" ∧ reply.groupID = Nat.repr id ∧ reply.groups.map Info.id = [Nat.repr id] ∧
      reply.groups = [memberView db (groupRow g) id cmd.actor] := by
  obtain ⟨u, hu⟩ := hc.user
  obtain ⟨m, rfl⟩ := Nat.exists_eq_add_of_le' hf
  obtain ⟨number, hnumber, hsearch⟩ := searchId_run hd hn hid hid' htext (m + 5)
  obtain ⟨m', hm', hview⟩ := memberState_runs db (groupRow g) id cmd.actor (m + 1)
  have hviewID : (memberView db (groupRow g) id cmd.actor).id = Nat.repr id := by
    rw [(memberView_row db (groupRow g) id cmd.actor).2.2.2.2]
    exact congrArg Nat.repr (by simpa using List.find?_some hg)
  let view := memberView db (groupRow g) id cmd.actor
  let reply : Reply := { errorCode := "0", groupID := view.id, groups := [view], epoch := view.epoch }
  have hrun : executeOnPool C W S cmd db ⟨(), m + 7⟩ = (.ok (reply, db), ⟨(), m'⟩) := by
    rw [executeOnPool_read (Or.inr hc.operation) hc.actor hc.text hu]
    unfold groupCommand
    simp only [hnumber, hc.operation, if_true]
    rw [run_bind hsearch, run_bind (query_run _ db _), hg]
    unfold foundGroup
    dsimp only
    rw [run_bind hview]
    unfold lockedCommand
    rw [if_pos hc.operation]
    rfl
  refine ⟨reply, ?_, rfl, hviewID, congrArg (fun s => [s]) hviewID, rfl⟩
  simp only [step, transaction_run hrun]
  rw [if_neg (by omega)]
  rfl

end

/-- **Group numbers.**  From tables without numbers, in every run of the service
    and of any calls of `EnsureGroupNumbers`:

    * numbers have ten digits, are below the cursor, and belong to one group;
    * the cursor never falls, and the number of a group never changes;
    * a group that a step makes has exactly one number from then on;
    * when a call has returned, so has every group from when it started;
    * a `Create` without a number left fails, unless it was answered before,
      and leaves all tables as they are;
    * `Search` finds a group whose id is longer than a number by its number
      and by its id, and nothing else. -/
theorem group_numbers (C : Collations) (W : Wire) {db : GroupDb} (hL : Legacy db)
    (T : NumberTrace C W db) :
    (∀ i ≤ T.len, ∀ n ∈ (T.state i).db.numbers,
      (1000000000 ≤ n.number ∧ n.number ≤ 9999999999 ∧ n.number < (T.state i).db.nextNumber) ∧
      ∀ n' ∈ (T.state i).db.numbers, n'.number = n.number → n'.group = n.group) ∧
    (∀ i j, i ≤ j → j ≤ T.len → (T.state i).db.nextNumber ≤ (T.state j).db.nextNumber ∧
      ∀ id n, (T.state i).db.number? id = some n → (T.state j).db.number? id = some n) ∧
    (∀ i < T.len, ∀ g ∈ (T.state (i + 1)).db.groups, (∀ g' ∈ (T.state i).db.groups, g'.id ≠ g.id) →
      ∀ j, i < j → j ≤ T.len → ∃! n, n ∈ (T.state j).db.numbers ∧ n.group = g.id) ∧
    (∀ i j k, i < j → j ≤ T.len → T.act i = .ensure k false → (T.state j).calls k = .loop [] →
      ∀ g ∈ (T.state i).db.groups, ∃! n, n ∈ (T.state j).db.numbers ∧ n.group = g.id) ∧
    (∀ i < T.len, ∀ cmd S lost fuel, T.act i = .service (.execute cmd S lost fuel) →
      cmd.operation = .create → 9999999999 < (T.state i).db.nextNumber →
      (T.state (i + 1)).db = (T.state i).db ∧ ∃ reply, T.out i = [.replied cmd reply] ∧
        ((∃ f, reply = answer (.error f)) ∨ Replays C W (T.state i).db cmd reply)) ∧
    (∀ i ≤ T.len, ∀ id g n, (T.state i).db.group? id = some g → (T.state i).db.number? id = some n →
      9999999999 < id → id < 2 ^ 64 → ∀ cmd, Searches (T.state i).db cmd →
      (cmd.groupID = Nat.repr n.number ∨ cmd.groupID = Nat.repr id) → ∀ S fuel, 7 ≤ fuel →
      ∃ reply, step C W (T.state i).db (.execute cmd S false fuel)
          = some ((T.state i).db, [.replied cmd reply]) ∧
        reply.errorCode = "0" ∧ reply.groupID = Nat.repr id ∧ reply.groups.map Info.id = [Nat.repr id] ∧
        reply.groups = [memberView (T.state i).db (groupRow g) id cmd.actor]) := by
  refine ⟨?_, ?_, ?_, ?_, ?_, ?_⟩
  · intro i hi n hn
    have hd := drawn_trace hL hi
    exact ⟨hd.range hn, fun n' hn' he => congrArg NumberRow.group (hd.unique hn' hn (Or.inr he))⟩
  · intro i j hij hj
    exact ⟨nextNumber_trace hij hj, fun id n hn => (numbers_trace hij hj).find?_eq_some hn⟩
  · intro i hi g hg hnew j hij hj
    have hn := (numberStep_assigned (T.next i hi)).numbered hg hnew
    exact (hn.grow (numbers_trace hij hj)).unique (drawn_trace hL hj)
  · intro i j k hij hj hx hdone g hg
    have hn := ((ensure_covers hx hij hj).2 [] hdone g hg).resolve_right (by simp)
    exact hn.unique (drawn_trace hL hj)
  · intro i hi cmd S lost fuel hx hop hmax
    have hs := T.next i hi
    rw [hx] at hs
    simp only [numberStep, Option.map_eq_some_iff, Prod.mk.injEq] at hs
    obtain ⟨⟨d, es⟩, hs, hw, hout⟩ := hs
    obtain ⟨rfl, hreply⟩ := create_exhausted hop hmax hs
    exact ⟨by rw [← hw], by rw [← hout]; exact hreply⟩
  · intro i hi id g n hg hn hid hid' cmd hc htext S fuel hf
    exact search_reply C W S (drawn_trace hL hi) hg hn hid hid' hc htext hf

/-! ### A group from before -/

/-- Account 1 has a group without a number. -/
def oneLegacy : GroupDb where
  users := [⟨1, "A"⟩]
  groups := [{ id := 987654321098765432, name := "legacy group", owner := 1 }]
  members := [{ group := 987654321098765432, account := 1 }]

/-- Two servers start at once, and account 1 makes a group in between. -/
def startActions : List NumberAction :=
  [.ensure 0 false, .ensure 1 false, .number 1 false 20,
    .service (.execute { operation := .create, actor := 1, text := "g", clientID := "1" }
      ⟨10000000000, "u", 0⟩ false 20),
    .number 0 false 20]

noncomputable def startRun : NumberTrace bytewise Wire.unary oneLegacy :=
  Machine.Trace.ofActions _ _ (fun i => startActions.getD i (.ensure 2 true)) 5 (by decide +kernel)

theorem group_numbers_start :
    (startRun.state 5).db.numbers = [⟨987654321098765432, 1000000000⟩, ⟨10000000000, 1000000001⟩] ∧
    ∃! n, n ∈ (startRun.state 5).db.numbers ∧ n.group = 987654321098765432 :=
  ⟨by decide +kernel,
    (group_numbers bytewise Wire.unary ⟨rfl, rfl⟩ startRun).2.2.2.1 0 5 0 (by decide) (by decide) rfl
      (by decide +kernel) { id := 987654321098765432, name := "legacy group", owner := 1 } (by decide +kernel)⟩

end ApeServer.Group
