/-
  Numbered logs in two tables.

  `heads` names each log once, with the number of its last row; `t` holds the
  rows of all logs.  The tables change by `Step`: a log is created, or a row
  is appended to one with the next number.

  * `Dense.step`: the rows of each log stay numbered `1, …, n`, in order;
  * `Step.rows_grow`, `Step.head_le`: a log only grows at its end, and its
    head only rises.
-/
import ApeServer.Lib.Table

namespace Log

variable {κ ρ : Type} [DecidableEq κ] {key : ρ → κ} {seq : ρ → ℕ} {heads heads' : List (κ × ℕ)}
  {t t' : List ρ}

/-- The rows of one log. -/
def rows (key : ρ → κ) (k : κ) (t : List ρ) : List ρ := t.filter fun r => key r = k

/-- Set the head of the log `k`. -/
def bump (k : κ) (n : ℕ) (heads : List (κ × ℕ)) : List (κ × ℕ) :=
  Table.updateWhere (fun h => h.1 = k) (fun h => (h.1, n)) heads

/-- The changes of the two tables. -/
inductive Step (key : ρ → κ) (seq : ρ → ℕ) (heads : List (κ × ℕ)) (t : List ρ) :
    List (κ × ℕ) → List ρ → Prop
  | keep : Step key seq heads t heads t
  | create {k : κ} (hk : ∀ h ∈ heads, h.1 ≠ k) : Step key seq heads t (heads ++ [(k, 0)]) t
  | append {r : ρ} {n : ℕ} (hn : (key r, n) ∈ heads) (hs : seq r = n + 1) :
      Step key seq heads t (bump (key r) (seq r) heads) (t ++ [r])

/-- Every log has one head, every row a log, and the rows of a log are
    numbered from `1` to its head. -/
structure Dense (key : ρ → κ) (seq : ρ → ℕ) (heads : List (κ × ℕ)) (t : List ρ) : Prop where
  keys : (heads.map Prod.fst).Nodup
  known : ∀ r ∈ t, ∃ h ∈ heads, h.1 = key r
  seqs : ∀ h ∈ heads, (rows key h.1 t).map seq = List.range' 1 h.2

theorem rows_append_self (r : ρ) (t : List ρ) : rows key (key r) (t ++ [r]) = rows key (key r) t ++ [r] := by
  simp [rows]

theorem rows_append_other {r : ρ} {k : κ} (h : key r ≠ k) (t : List ρ) :
    rows key k (t ++ [r]) = rows key k t := by
  simp [rows, h]

theorem rows_eq_nil {k : κ} (h : ∀ r ∈ t, key r ≠ k) : rows key k t = [] := by
  simpa [rows] using h

/-- Of rows that are numbered from `a + 1` on, the first `n` are those up to `a + n`. -/
theorem take_of_seqs {a len : ℕ} (h : t.map seq = List.range' (a + 1) len) (n : ℕ) :
    t.take n = t.filter fun r => seq r ≤ a + n := by
  induction t generalizing a len n with
  | nil => simp
  | cons r t ih =>
    cases len with
    | zero => cases h
    | succ len =>
      rw [List.map_cons, List.range'_succ] at h
      obtain ⟨hr, ht⟩ := List.cons.inj h
      cases n with
      | zero =>
        refine (List.filter_eq_nil_iff.2 fun x hx => ?_).symm
        have hmem : seq x ∈ (r :: t).map seq := List.mem_map_of_mem hx
        rw [List.map_cons, hr, ht, ← List.range'_succ, List.mem_range'_1] at hmem
        simp
        omega
      | succ n =>
        rw [List.take_succ_cons, ih ht n, List.filter_cons, if_pos (by simp; omega)]
        refine congrArg (r :: ·) (List.filter_congr fun x _ => ?_)
        rw [show a + 1 + n = a + (n + 1) by omega]

/-- And what follows them are those after `a + n`. -/
theorem drop_of_seqs {a len : ℕ} (h : t.map seq = List.range' (a + 1) len) (n : ℕ) :
    t.drop n = t.filter fun r => a + n < seq r := by
  induction t generalizing a len n with
  | nil => simp
  | cons r t ih =>
    cases len with
    | zero => cases h
    | succ len =>
      rw [List.map_cons, List.range'_succ] at h
      obtain ⟨hr, ht⟩ := List.cons.inj h
      cases n with
      | zero =>
        refine (List.filter_eq_self.2 fun x hx => ?_).symm
        have hmem : seq x ∈ (r :: t).map seq := List.mem_map_of_mem hx
        rw [List.map_cons, hr, ht, ← List.range'_succ, List.mem_range'_1] at hmem
        simp
        omega
      | succ n =>
        rw [List.drop_succ_cons, ih ht n, List.filter_cons, if_neg (by simp; omega)]
        refine List.filter_congr fun x _ => ?_
        rw [show a + 1 + n = a + (n + 1) by omega]

/-- The heads after one was set. -/
theorem mem_bump {k : κ} {n : ℕ} {h : κ × ℕ} (hh : h ∈ bump k n heads) :
    (h = (k, n) ∧ ∃ h' ∈ heads, h'.1 = k) ∨ (h.1 ≠ k ∧ h ∈ heads) := by
  obtain ⟨h', hmem, rfl⟩ := Table.mem_updateWhere.1 hh
  by_cases hk : h'.1 = k
  · left
    simp only [hk, decide_true, if_true]
    exact ⟨trivial, h', hmem, hk⟩
  · right
    simp only [hk, decide_false, Bool.false_eq_true, if_false]
    exact ⟨hk, hmem⟩

theorem map_fst_bump (k : κ) (n : ℕ) (heads : List (κ × ℕ)) :
    (bump k n heads).map Prod.fst = heads.map Prod.fst := by
  apply Table.map_updateWhere
  intro h
  rfl

namespace Dense
variable (d : Dense key seq heads t)
include d

/-- A log has one head. -/
theorem head_unique {k : κ} {n n' : ℕ} (h : (k, n) ∈ heads) (h' : (k, n') ∈ heads) : n = n' :=
  congrArg Prod.snd (Table.eq_of_key d.keys h h' rfl)

/-- No row is numbered past the head of its log. -/
theorem seq_le {r : ρ} {n : ℕ} (hr : r ∈ t) (hn : (key r, n) ∈ heads) : seq r ≤ n := by
  have hmem : seq r ∈ (rows key (key r) t).map seq :=
    List.mem_map_of_mem (List.mem_filter.2 ⟨hr, by simp⟩)
  rw [d.seqs _ hn, List.mem_range'_1] at hmem
  omega

theorem create {k : κ} (hk : ∀ h ∈ heads, h.1 ≠ k) : Dense key seq (heads ++ [(k, 0)]) t := by
  constructor
  · exact Table.nodup_append_one d.keys hk
  · intro r hr
    obtain ⟨h, hh, he⟩ := d.known r hr
    exact ⟨h, List.mem_append_left _ hh, he⟩
  · intro h hh
    rcases List.mem_append.1 hh with hh | hh
    · exact d.seqs h hh
    · rw [List.mem_singleton.1 hh, rows_eq_nil]
      · rfl
      · intro r hr he
        obtain ⟨h, hh, he'⟩ := d.known r hr
        exact hk h hh (he'.trans he)

theorem append {r : ρ} {n : ℕ} (hn : (key r, n) ∈ heads) (hs : seq r = n + 1) :
    Dense key seq (bump (key r) (seq r) heads) (t ++ [r]) := by
  constructor
  · rw [map_fst_bump]; exact d.keys
  · intro r' hr'
    obtain ⟨h, hh, he⟩ : ∃ h ∈ heads, h.1 = key r' := by
      rcases List.mem_append.1 hr' with hr' | hr'
      · exact d.known r' hr'
      · rw [List.mem_singleton.1 hr']; exact ⟨_, hn, rfl⟩
    have hmem : h.1 ∈ (bump (key r) (seq r) heads).map Prod.fst := by
      rw [map_fst_bump]; exact List.mem_map_of_mem hh
    obtain ⟨h', hh', he'⟩ := List.mem_map.1 hmem
    exact ⟨h', hh', he'.trans he⟩
  · intro h hh
    rcases mem_bump hh with ⟨rfl, -⟩ | ⟨hne, hh⟩
    · -- the log that grows: its old numbers end at `n`
      rw [rows_append_self, List.map_append, d.seqs _ hn, hs, List.range'_1_concat]
      simp [hs, Nat.add_comm]
    · rw [rows_append_other (Ne.symm hne)]
      exact d.seqs h hh

/-- **Logs stay dense.** -/
theorem step (hs : Step key seq heads t heads' t') : Dense key seq heads' t' := by
  cases hs with
  | keep => exact d
  | create hk => exact d.create hk
  | append hn hs => exact d.append hn hs

end Dense

namespace Step

/-- A log only grows at its end. -/
theorem rows_grow (hs : Step key seq heads t heads' t') (k : κ) : rows key k t <+: rows key k t' := by
  cases hs with
  | keep => exact List.prefix_rfl
  | create => exact List.prefix_rfl
  | append => exact (List.prefix_append t _).filter _

/-- The head of a log only rises. -/
theorem head_le (hs : Step key seq heads t heads' t') (d : Dense key seq heads t) {k : κ} {n : ℕ}
    (h : (k, n) ∈ heads) : ∃ n', (k, n') ∈ heads' ∧ n ≤ n' := by
  cases hs with
  | keep => exact ⟨n, h, le_rfl⟩
  | create => exact ⟨n, List.mem_append_left _ h, le_rfl⟩
  | @append r m hm hs =>
    by_cases hk : k = key r
    · subst hk
      have := d.head_unique h hm
      refine ⟨seq r, Table.mem_updateWhere.2 ⟨(key r, n), h, by simp⟩, by omega⟩
    · exact ⟨n, Table.mem_updateWhere.2 ⟨(k, n), h, by simp [hk]⟩, le_rfl⟩

end Step

end Log
