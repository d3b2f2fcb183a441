/-
  The sequence numbers of groups.

  A `Send` appends a message and raises `last_seq` in two statements of one
  transaction; nothing else touches the numbers of a group that exists.

  * `step_log`: a step of the service creates a log, or appends the next row
    to one, or keeps them all;
  * `dense_sequence`: what follows for every run.
-/
import ApeServer.Group.Ledger
import ApeServer.Lib.Log

namespace ApeServer.Group

open Table Txn

/-- The groups with their last numbers. -/
def GroupDb.heads (db : GroupDb) : List (ℕ × ℕ) := db.groups.map fun g => (g.id, g.lastSeq)

/-- The messages of a group, in the order they were inserted. -/
def GroupDb.log (db : GroupDb) (id : ℕ) : List MessageRow := Log.rows MessageRow.group id db.messages

/-- How the tables of groups and messages change. -/
def LogStep (db db' : GroupDb) : Prop :=
  Log.Step MessageRow.group MessageRow.seq db.heads db.messages db'.heads db'.messages

section
variable {C : Collations} {W : Wire} {S : Source} {cmd : Command} {db db' : GroupDb}
  {reply : Reply} {id : ℕ} {g : GroupRow}

/-- The head of a group. -/
theorem mem_heads (h : db.group? id = some g) : (id, g.lastSeq) ∈ db.heads := by
  have hid : g.id = id := by simpa using List.find?_some h
  rw [← hid]
  exact List.mem_map_of_mem (f := fun g : GroupRow => (g.id, g.lastSeq)) (List.mem_of_find?_eq_some h)

/-- Setting fields other than `id` and `last_seq` keeps the heads. -/
theorem heads_updateGroup {f : GroupRow → GroupRow}
    (hf : ∀ g, ((f g).id, (f g).lastSeq) = (g.id, g.lastSeq)) :
    (db.updateGroup id f).heads = db.heads :=
  map_updateWhere hf db.groups

/-- Setting `last_seq` sets the head. -/
theorem heads_lastSeq (db : GroupDb) (id n : ℕ) :
    (db.updateGroup id fun g => { g with lastSeq := n }).heads = Log.bump id n db.heads := by
  simp only [GroupDb.heads, GroupDb.updateGroup, Log.bump, updateWhere, List.map_map]
  refine List.map_congr_left fun g _ => ?_
  by_cases hg : g.id = id <;> simp [hg]

theorem heads_setStatus (db : GroupDb) (p : ApplicationRow → Bool) (status : ℕ) :
    (db.setStatus p status).heads = db.heads := rfl

theorem heads_recount (db : GroupDb) (id : ℕ) : (db.recount id).heads = db.heads :=
  heads_updateGroup fun _ => rfl

/-- `perform` moves the logs by a step. -/
theorem Effect.log (h : Effect S cmd db reply db') : LogStep db db' := by
  unfold LogStep
  cases h with
  | same | pull | apply | reject | ack | read => exact .keep
  | create _ hid =>
    have hk : ∀ h ∈ db.heads, h.1 ≠ S.snowflake := by
      intro h hh
      obtain ⟨g, hg, rfl⟩ := List.mem_map.1 hh
      exact hid g hg
    have hh : (created db S cmd).heads = db.heads ++ [(S.snowflake, 0)] := List.map_append
    rw [hh]
    exact .create hk
  | accept =>
    rw [accepted, heads_setStatus, heads_recount]
    exact .keep
  | rename =>
    rw [heads_updateGroup]
    · exact .keep
    · exact fun _ => rfl
  | remove =>
    rw [heads_recount]
    exact .keep
  | dismiss =>
    rw [heads_setStatus, heads_updateGroup]
    · exact .keep
    · exact fun _ => rfl
  | @send id g m nickname ha =>
    have hh : (sent db (newMessage S cmd nickname id g)).heads = Log.bump id (g.lastSeq + 1) db.heads :=
      heads_lastSeq _ id (g.lastSeq + 1)
    rw [hh]
    exact .append (r := newMessage S cmd nickname id g) (mem_heads ha.group) rfl

/-- Every step moves the logs by a step. -/
theorem step_log {a : Action} {es : List Event} (h : step C W db a = some (db', es)) :
    LogStep db db' := by
  change LogStep db.tables db'.tables
  rcases step_effect h with ht | ⟨cmd, S, lost, fuel, reply, -, he⟩
  · rw [ht]; exact .keep
  · exact he.log

/-- The invariant of the logs. -/
def Sequenced (db : GroupDb) : Prop :=
  Log.Dense MessageRow.group MessageRow.seq db.heads db.messages

theorem sequenced_trace (T : GroupTrace C W) {i : ℕ} (hi : i ≤ T.len) : Sequenced (T.state i) := by
  refine T.invariant (P := Sequenced) ?_ (fun _ _ _ _ h hs => h.step (step_log hs)) hi
  constructor <;> simp [GroupDb.heads]

theorem heads_le_trace (T : GroupTrace C W) {i j : ℕ} (hij : i ≤ j) (hj : j ≤ T.len) {n : ℕ}
    (h : (id, n) ∈ (T.state i).heads) : ∃ n', (id, n') ∈ (T.state j).heads ∧ n ≤ n' := by
  refine T.related (P := Sequenced)
    (R := fun db db' => ∀ n, (id, n) ∈ db.heads → ∃ n', (id, n') ∈ db'.heads ∧ n ≤ n')
    (fun i hi => sequenced_trace T hi) (fun _ n hn => ⟨n, hn, le_rfl⟩) ?_ ?_ hij hj n h
  · intro a b c hab hbc n hn
    obtain ⟨n', hn', hle⟩ := hab n hn
    obtain ⟨n'', hn'', hle'⟩ := hbc n' hn'
    exact ⟨n'', hn'', hle.trans hle'⟩
  · intro s a s' es hP hs n hn
    exact (step_log hs).head_le hP hn

/-- The row of a head. -/
theorem group_of_head (h : Sequenced db) {n : ℕ} (hn : (id, n) ∈ db.heads) :
    ∃ g, db.group? id = some g ∧ g.lastSeq = n := by
  obtain ⟨g, hg, he⟩ := List.mem_map.1 hn
  obtain ⟨g', hg'⟩ : ∃ g', db.group? id = some g' :=
    Option.isSome_iff_exists.1 (List.find?_isSome.2 ⟨g, hg, by simpa using congrArg Prod.fst he⟩)
  exact ⟨g', hg', h.head_unique (mem_heads hg') hn⟩

end

/-- **Dense sequence numbers.**  In every state of every run the messages of a
    group are numbered `1, …, last_seq`, each once and in the order they were
    inserted; and later `last_seq` is no smaller, and the messages of the group
    are the same ones followed by new ones. -/
theorem dense_sequence (C : Collations) (W : Wire) (T : GroupTrace C W) :
    (∀ i ≤ T.len, ∀ id g, (T.state i).group? id = some g →
      ((T.state i).log id).map MessageRow.seq = List.range' 1 g.lastSeq) ∧
    (∀ i j, i ≤ j → j ≤ T.len → ∀ id g, (T.state i).group? id = some g →
      ∃ g', (T.state j).group? id = some g' ∧ g.lastSeq ≤ g'.lastSeq) ∧
    (∀ i j, i ≤ j → j ≤ T.len → ∀ id, (T.state i).log id <+: (T.state j).log id) := by
  refine ⟨?_, ?_, ?_⟩
  · intro i hi id g hg
    exact (sequenced_trace T hi).seqs _ (mem_heads hg)
  · intro i j hij hj id g hg
    obtain ⟨n, hn, hle⟩ := heads_le_trace T hij hj (mem_heads hg)
    obtain ⟨g', hg', rfl⟩ := group_of_head (sequenced_trace T hj) hn
    exact ⟨g', hg', hle⟩
  · intro i j hij hj id
    exact T.related (P := fun _ => True) (R := fun db db' => db.log id <+: db'.log id)
      (fun _ _ => trivial) (fun _ => List.prefix_rfl) (fun _ _ _ => List.IsPrefix.trans)
      (fun _ _ _ _ _ hs => (step_log hs).rows_grow id) hij hj

end ApeServer.Group
