/-
  Pages of rows with ascending keys.

  A page is the first `n` rows after a cursor, and the next cursor is the key
  of its last row.

  * `beyond_cursor`: after a page there are exactly the rows that were not on it;
  * `flatMap_pages`: the pages of one list, one after the other, are the list;
  * `exists_last`: there is a last one;
  * `Walk`: pages of a table that changes from one to the next; they show
    ascending keys (`Walk.ascending_shown`) and miss no key that stays in the
    table (`Walk.complete`);
  * `flatMap_numbered`: the same for pages that are numbered.
-/
import Mathlib.Tactic

namespace Paging

variable {ρ κ : Type} {key : ρ → κ} {rows : List ρ}

/-- The cursor after a page: the key of its last row. -/
def cursor (key : ρ → κ) (start : κ) (page : List ρ) : κ := (page.getLast?.map key).getD start

@[simp] theorem cursor_nil (start : κ) : cursor key start [] = start := rfl

@[simp] theorem cursor_concat (start : κ) (page : List ρ) (r : ρ) :
    cursor key start (page ++ [r]) = key r := by
  simp [cursor]

theorem cursor_append_cons (start : κ) (before rows : List ρ) (r : ρ) :
    cursor key start (before ++ r :: rows) = cursor key (key r) rows := by
  cases h : rows.getLast? <;> simp [cursor, List.getLast?_append, List.getLast?_cons, h]

/-- A cursor that is the key of a row does not depend on the start. -/
theorem cursor_start {page : List ρ} (h : page ≠ []) (start start' : κ) :
    cursor key start page = cursor key start' page := by
  obtain ⟨before, last, rfl⟩ := (List.eq_nil_or_concat' page).resolve_left h
  rw [cursor_concat, cursor_concat]

variable [LinearOrder κ]

/-- The keys of the rows ascend. -/
abbrev Ascending (key : ρ → κ) (rows : List ρ) : Prop := rows.Pairwise fun r r' => key r < key r'

/-- The rows after a cursor. -/
def beyond (key : ρ → κ) (after : κ) (rows : List ρ) : List ρ := rows.filter fun r => after < key r

theorem beyond_beyond (a b : κ) (rows : List ρ) :
    beyond key a (beyond key b rows) = beyond key (max a b) rows := by
  simp only [beyond, List.filter_filter]
  refine List.filter_congr fun r _ => ?_
  simp

/-- Every row of a page is at most at the cursor. -/
theorem le_cursor (start : κ) (h : Ascending key rows) {r : ρ} (hr : r ∈ rows) :
    key r ≤ cursor key start rows := by
  induction rows using List.reverseRecOn with
  | nil => cases hr
  | append_singleton page last =>
    rw [cursor_concat]
    rcases List.mem_append.1 hr with hr | hr
    · exact ((List.pairwise_append.1 h).2.2 r hr last (List.mem_singleton_self last)).le
    · rw [List.mem_singleton.1 hr]

/-- A page does not move the cursor back. -/
theorem start_le_cursor {start : κ} (h : ∀ r ∈ rows, start ≤ key r) : start ≤ cursor key start rows := by
  induction rows using List.reverseRecOn with
  | nil => exact le_rfl
  | append_singleton page last =>
    rw [cursor_concat]
    exact h last (List.mem_append_right _ (List.mem_singleton_self last))

/-- **After a page there are exactly the rows that were not on it.** -/
theorem beyond_cursor {start : κ} (h : Ascending key rows) (hs : ∀ r ∈ rows, start < key r) (n : ℕ) :
    beyond key (cursor key start (rows.take n)) rows = rows.drop n := by
  rcases (rows.take n).eq_nil_or_concat' with hn | ⟨page, last, hn⟩
  · -- an empty page leaves all rows
    have hd : rows.drop n = rows := by simpa [hn] using List.take_append_drop n rows
    rw [hn, hd]
    exact List.filter_eq_self.2 fun r hr => decide_eq_true (hs r hr)
  · have hsplit : Ascending key (rows.take n ++ rows.drop n) := by rwa [List.take_append_drop]
    obtain ⟨htake, -, hlt⟩ := List.pairwise_append.1 hsplit
    have hlast : cursor key start (rows.take n) = key last := by rw [hn, cursor_concat]
    have hmem : last ∈ rows.take n := by simp [hn]
    rw [hlast]
    unfold beyond
    conv_lhs => rw [← List.take_append_drop n rows, List.filter_append]
    rw [List.filter_eq_nil_iff.2, List.filter_eq_self.2, List.nil_append]
    · exact fun r hr => decide_eq_true (hlt last hmem r hr)
    · intro r hr
      have := le_cursor start htake hr
      rw [hlast] at this
      simpa using this

/-! ## Sorting -/

theorem filter_orderedInsert {r : ρ} (h : rows.Pairwise fun r r' => key r ≤ key r') (p : ρ → Bool) :
    (rows.orderedInsert (fun r r' => key r ≤ key r') r).filter p
      = if p r then (rows.filter p).orderedInsert (fun r r' => key r ≤ key r') r else rows.filter p := by
  induction rows with
  | nil => by_cases hp : p r <;> simp [hp]
  | cons r' rows ih =>
    obtain ⟨hr', hrows⟩ := List.pairwise_cons.1 h
    by_cases hle : key r ≤ key r'
    · -- `r` is in front of all rows
      have hfront : ((r' :: rows).filter p).orderedInsert (fun r r' => key r ≤ key r') r
          = r :: (r' :: rows).filter p := by
        cases hf : (r' :: rows).filter p with
        | nil => rfl
        | cons x xs =>
          have hx : x ∈ r' :: rows := List.mem_of_mem_filter (hf ▸ List.mem_cons_self)
          refine if_pos ?_
          rcases List.mem_cons.1 hx with rfl | hx
          · exact hle
          · exact hle.trans (hr' x hx)
      rw [List.orderedInsert_cons, if_pos hle, List.filter_cons, hfront]
    · rw [List.orderedInsert_cons, if_neg hle, List.filter_cons, ih hrows]
      by_cases hp : p r <;> by_cases hp' : p r' <;> simp [hp, hp', hle]

/-- A row with a new key is inserted in its place. -/
theorem Ascending.insert {r : ρ} (h : Ascending key rows) (hn : ∀ r' ∈ rows, key r' ≠ key r) :
    Ascending key (rows.orderedInsert (fun r r' => key r ≤ key r') r) := by
  induction rows with
  | nil => simp [Ascending]
  | cons r' rows ih =>
    obtain ⟨hr', hrows⟩ := List.pairwise_cons.1 h
    have hne := hn r' List.mem_cons_self
    rw [List.orderedInsert_cons]
    split_ifs with hle
    · have hlt : key r < key r' := lt_of_le_of_ne hle hne.symm
      refine List.pairwise_cons.2 ⟨fun x hx => ?_, h⟩
      rcases List.mem_cons.1 hx with rfl | hx
      · exact hlt
      · exact hlt.trans (hr' x hx)
    · refine List.pairwise_cons.2 ⟨fun x hx => ?_, ih hrows fun x hx => hn x (List.mem_cons_of_mem _ hx)⟩
      rcases (List.mem_orderedInsert _).1 hx with rfl | hx
      · exact not_le.1 hle
      · exact hr' x hx

/-- Selecting and sorting can be exchanged. -/
theorem filter_insertionSort (key : ρ → κ) (p : ρ → Bool) (rows : List ρ) :
    (rows.insertionSort fun r r' => key r ≤ key r').filter p
      = (rows.filter p).insertionSort fun r r' => key r ≤ key r' := by
  induction rows with
  | nil => rfl
  | cons r rows ih =>
    have hsorted := List.pairwise_insertionSort (fun r r' => key r ≤ key r') rows
    rw [List.insertionSort_cons, filter_orderedInsert hsorted, ih, List.filter_cons]
    split_ifs <;> rfl

/-- Rows with distinct keys ascend when sorted. -/
theorem ascending_insertionSort {rows : List ρ} (h : (rows.map key).Nodup) :
    Ascending key (rows.insertionSort fun r r' => key r ≤ key r') := by
  have hsorted := List.pairwise_insertionSort (fun r r' => key r ≤ key r') rows
  have hnodup : ((rows.insertionSort fun r r' => key r ≤ key r').map key).Nodup :=
    ((List.perm_insertionSort _ rows).map key).nodup_iff.2 h
  exact (hsorted.and (List.pairwise_map.1 hnodup)).imp fun h => lt_of_le_of_ne h.1 h.2

/-! ## All pages -/

/-- The cursor of page `j`. -/
def cursors (key : ρ → κ) (n : ℕ) (start : κ) (rows : List ρ) : ℕ → κ
  | 0 => start
  | j + 1 => cursor key (cursors key n start rows j) ((beyond key (cursors key n start rows j) rows).take n)

/-- What is left at page `j`. -/
theorem beyond_cursors (h : Ascending key rows) (n : ℕ) (start : κ) (j : ℕ) :
    beyond key (cursors key n start rows j) rows = (beyond key start rows).drop (j * n) := by
  induction j with
  | zero => simp [cursors]
  | succ j ih =>
    have hle : cursors key n start rows j ≤ cursors key n start rows (j + 1) := by
      refine start_le_cursor fun r hr => ?_
      have := List.mem_of_mem_take hr
      simp only [beyond, List.mem_filter, decide_eq_true_eq] at this
      exact this.2.le
    have hlt : ∀ r ∈ beyond key (cursors key n start rows j) rows, cursors key n start rows j < key r := by
      simp [beyond]
    have hasc : Ascending key (beyond key (cursors key n start rows j) rows) := h.filter _
    have hpage := beyond_cursor hasc hlt n
    rw [beyond_beyond] at hpage
    rw [← max_eq_left hle, cursors, hpage, ih, List.drop_drop, Nat.succ_mul]

/-- **The pages are the rows.** -/
theorem flatMap_pages (h : Ascending key rows) (n : ℕ) (start : κ) (k : ℕ) :
    (List.range k).flatMap (fun j => (beyond key (cursors key n start rows j) rows).take n)
      = (beyond key start rows).take (k * n) := by
  induction k with
  | zero => simp
  | succ k ih =>
    rw [List.range_succ, List.flatMap_append, ih, List.flatMap_singleton, beyond_cursors h,
      Nat.succ_mul, List.take_add]

/-- The cursor never goes back. -/
theorem start_le_cursors (n : ℕ) (start : κ) (j : ℕ) : start ≤ cursors key n start rows j := by
  induction j with
  | zero => exact le_rfl
  | succ j ih =>
    refine ih.trans (start_le_cursor fun r hr => ?_)
    have := List.mem_of_mem_take hr
    simp only [beyond, List.mem_filter, decide_eq_true_eq] at this
    exact this.2.le

/-- Rows in pages of `n` end on some page `k`. -/
theorem exists_last {n : ℕ} (hn : 1 ≤ n) (len : ℕ) : ∃ k, len ≤ (k + 1) * n ∧ ∀ j < k, (j + 1) * n < len := by
  refine ⟨(len - 1) / n, ?_, fun j hj => ?_⟩
  · rw [Nat.succ_mul]
    have := Nat.lt_div_mul_add hn (a := len - 1)
    omega
  · have hle : (j + 1) * n ≤ (len - 1) / n * n := Nat.mul_le_mul_right n hj
    have hpos : 0 < (j + 1) * n := Nat.mul_pos (by omega) hn
    have := Nat.div_mul_le_self (len - 1) n
    omega

/-! ## A table that changes -/

/-- Pages `0, …, k` of a table that holds `rows j` when page `j` is read.  There
    is more after every page but the last one, and the next one is read from
    its cursor on. -/
structure Walk (key : ρ → κ) (k : ℕ) where
  rows : ℕ → List ρ
  limit : ℕ → ℕ
  after : ℕ → κ
  ascending : ∀ j ≤ k, Ascending key (rows j)
  more : ∀ j < k, limit j < (beyond key (after j) (rows j)).length
  follow : ∀ j < k, after (j + 1) = cursor key (after j) ((beyond key (after j) (rows j)).take (limit j))

namespace Walk
variable {k : ℕ} (V : Walk key k)

def page (j : ℕ) : List ρ := (beyond key (V.after j) (V.rows j)).take (V.limit j)

/-- The rows of the pages before `j`. -/
def shown (j : ℕ) : List ρ := (List.range j).flatMap V.page

theorem mem_page {j : ℕ} {r : ρ} (h : r ∈ V.page j) : r ∈ V.rows j ∧ V.after j < key r := by
  have := List.mem_of_mem_take h
  simpa [beyond] using this

theorem ascending_page {j : ℕ} (hj : j ≤ k) : Ascending key (V.page j) :=
  ((V.ascending j hj).filter _).sublist (List.take_sublist _ _)

theorem after_le {j : ℕ} (hj : j < k) : V.after j ≤ V.after (j + 1) := by
  rw [V.follow j hj]
  exact start_le_cursor fun r hr => (V.mem_page hr).2.le

theorem le_after {j : ℕ} (hj : j < k) {r : ρ} (hr : r ∈ V.page j) : key r ≤ V.after (j + 1) := by
  rw [V.follow j hj]
  exact le_cursor (V.after j) (V.ascending_page hj.le) hr

theorem shown_succ (j : ℕ) : V.shown (j + 1) = V.shown j ++ V.page j := by
  rw [shown, List.range_succ, List.flatMap_append, List.flatMap_singleton]
  rfl

/-- What was shown is up to the cursor. -/
theorem shown_le {j : ℕ} (hj : j ≤ k) {r : ρ} (hr : r ∈ V.shown j) : key r ≤ V.after j := by
  induction j with
  | zero => cases hr
  | succ j ih =>
    rw [shown_succ] at hr
    rcases List.mem_append.1 hr with hr | hr
    · exact (ih (by omega) hr).trans (V.after_le hj)
    · exact V.le_after hj hr

/-- **No row is shown twice**: the keys ascend over all pages. -/
theorem ascending_shown {j : ℕ} (hj : j ≤ k + 1) : Ascending key (V.shown j) := by
  induction j with
  | zero => exact List.Pairwise.nil
  | succ j ih =>
    rw [shown_succ]
    refine List.pairwise_append.2 ⟨ih (by omega), V.ascending_page (by omega), ?_⟩
    intro r hr r' hr'
    exact (V.shown_le (by omega) hr).trans_lt (V.mem_page hr').2

/-- A key after the cursor that stays in the table is on the page or after the
    next cursor. -/
theorem page_or_after {j : ℕ} (hj : j < k) {r : ρ} (hr : r ∈ V.rows j) (ha : V.after j < key r) :
    r ∈ V.page j ∨ V.after (j + 1) < key r := by
  have hmem : r ∈ beyond key (V.after j) (V.rows j) := by simpa [beyond] using And.intro hr ha
  rw [← List.take_append_drop (V.limit j) (beyond key (V.after j) (V.rows j))] at hmem
  refine (List.mem_append.1 hmem).imp_right fun hdrop => ?_
  have hasc : Ascending key (beyond key (V.after j) (V.rows j)) := (V.ascending j hj.le).filter _
  have hlt : ∀ r ∈ beyond key (V.after j) (V.rows j), V.after j < key r := by simp [beyond]
  rw [← beyond_cursor hasc hlt (V.limit j), ← V.follow j hj] at hdrop
  exact of_decide_eq_true (List.mem_filter.1 hdrop).2

/-- **No key that stays is missed**, once a page had no more after it. -/
theorem complete (hlast : (beyond key (V.after k) (V.rows k)).length ≤ V.limit k) {x : κ}
    (h₀ : V.after 0 < x) (hx : ∀ j ≤ k, ∃ r ∈ V.rows j, key r = x) :
    ∃ r ∈ V.shown (k + 1), key r = x := by
  have hstep : ∀ j ≤ k, (∃ r ∈ V.shown j, key r = x) ∨ V.after j < x := by
    intro j hj
    induction j with
    | zero => exact Or.inr h₀
    | succ j ih =>
      rw [shown_succ]
      rcases ih (by omega) with ⟨r, hr, hk⟩ | ha
      · exact Or.inl ⟨r, List.mem_append_left _ hr, hk⟩
      · obtain ⟨r, hr, rfl⟩ := hx j (by omega)
        exact (V.page_or_after hj hr ha).imp_left fun hp => ⟨r, List.mem_append_right _ hp, rfl⟩
  rw [shown_succ]
  rcases hstep k le_rfl with ⟨r, hr, hk⟩ | ha
  · exact ⟨r, List.mem_append_left _ hr, hk⟩
  · obtain ⟨r, hr, rfl⟩ := hx k le_rfl
    refine ⟨r, List.mem_append_right _ ?_, rfl⟩
    rw [page, List.take_of_length_le hlast]
    simpa [beyond] using And.intro hr ha

end Walk

/-! ## Pages by number -/

omit [LinearOrder κ] in
/-- **Numbered pages are the rows**, one page after the other. -/
theorem flatMap_numbered (rows : List ρ) (n k : ℕ) :
    (List.range k).flatMap (fun j => (rows.drop (j * n)).take n) = rows.take (k * n) := by
  induction k with
  | zero => simp
  | succ k ih => rw [List.range_succ, List.flatMap_append, ih, List.flatMap_singleton, Nat.succ_mul, List.take_add]

end Paging
