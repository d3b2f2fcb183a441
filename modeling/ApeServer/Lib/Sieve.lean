/-
  Pages that are cut before they are sieved.

  The rows are sorted by key, several may have the same.  A page is made of the
  first `n + 1` rows after a cursor: those that `keep` lets through are cut to
  `n`, and `mine` picks the rows that are shown.  There is more if more than
  `n` were kept, and the next cursor is the key of the last row shown, or `bot`
  if there is none.

  * `scan` follows the pages, and `wanted` is what it should show;
  * `Aligned` is the condition on the rows under which it does;
  * `scan_eq_wanted`: this condition is exact;
  * `aligned_of_shown`: it holds if every row is to be shown and has its own
    key.
-/
import ApeServer.Lib.Paging

namespace Sieve

open Paging

/-- The rows and the parameters of the pages. -/
structure Setup (ρ κ : Type) [LinearOrder κ] where
  key : ρ → κ
  rows : List ρ
  keep : ρ → Bool
  mine : ρ → Bool
  size : ℕ
  bot : κ
  sorted : rows.Pairwise fun r r' => key r ≤ key r'
  nodup : rows.Nodup
  bot_lt : ∀ r ∈ rows, bot < key r
  size_pos : 0 < size

namespace Setup
variable {ρ κ : Type} [LinearOrder κ] (P : Setup ρ κ)

/-- The rows after a cursor. -/
def rest (c : κ) : List ρ := beyond P.key c P.rows

/-- The rows of a page that are kept. -/
def found (c : κ) : List ρ := ((P.rest c).take (P.size + 1)).filter P.keep

/-- The rows a page shows. -/
def page (c : κ) : List ρ := ((P.found c).take P.size).filter P.mine

/-- Whether there is said to be more. -/
def more (c : κ) : Bool := P.size < (P.found c).length

/-- The cursor after a page. -/
def next (c : κ) : κ := cursor P.key P.bot (P.page c)

/-- The pages from a cursor on, if there are at most `k`. -/
def scan : ℕ → κ → Option (List ρ)
  | 0, _ => none
  | k + 1, c => if P.more c then (scan k (P.next c)).map (P.page c ++ ·) else some (P.page c)

/-- A row that is to be shown. -/
def shown (r : ρ) : Bool := P.keep r && P.mine r

/-- All rows that are to be shown. -/
def wanted (c : κ) : List ρ := (P.rest c).filter P.shown

/-- The first `n + 1` rows are there and all of them are kept. -/
structure Full (c : κ) : Prop where
  length : P.size < (P.rest c).length
  keep : ∀ r ∈ (P.rest c).take (P.size + 1), P.keep r = true

/-- The rows are such that following the pages from `c` shows all of them.
    Full pages follow one another up to a first one that is not full. -/
inductive Aligned : κ → Prop
  /-- nothing is to be shown after the rows of a page that is not full -/
  | last {c : κ} (hf : ¬ P.Full c) (hr : ∀ r ∈ (P.rest c).drop (P.size + 1), P.shown r = false) :
      Aligned c
  /-- the key of the last row shown on a full page is not that of a row to be
      shown after the page -/
  | more {c : κ} {r : ρ} (hf : P.Full c) (hr : (((P.rest c).take P.size).filter P.mine).getLast? = some r)
      (hkey : ∀ r' ∈ (P.rest c).drop P.size, P.shown r' = true → P.key r < P.key r')
      (hn : Aligned (P.key r)) : Aligned c
  /-- a full page shows no row and sends the reader back to the start; this ends
      well only if there is nothing to show, on the first page either -/
  | restart {c : κ} (hf : P.Full c) (hr : ∀ r ∈ P.rest c, P.shown r = false) (hf' : ¬ P.Full P.bot)
      (hr' : ∀ r ∈ (P.rest P.bot).take (P.size + 1), P.shown r = false) : Aligned c

variable {P} {c : κ} {r : ρ}

/-! ## One page -/

theorem more_iff : P.more c = true ↔ P.Full c := by
  have hle : ((P.rest c).take (P.size + 1)).length ≤ P.size + 1 := List.length_take_le _ _
  rw [more, decide_eq_true_iff, found]
  constructor
  · intro h
    have hfilter := List.length_filter_le P.keep ((P.rest c).take (P.size + 1))
    refine ⟨?_, List.length_filter_eq_length_iff.1 (by omega)⟩
    rw [List.length_take] at hfilter
    omega
  · intro h
    rw [List.filter_eq_self.2 h.keep, List.length_take]
    have := h.length
    omega

/-- A full page shows what is among its first `n` rows. -/
theorem page_full (h : P.Full c) : P.page c = ((P.rest c).take P.size).filter P.mine := by
  rw [page, found, List.filter_eq_self.2 h.keep, List.take_take, min_eq_left (Nat.le_succ _)]

/-- Any other shows what is among all its rows. -/
theorem page_not_full (h : ¬ P.Full c) : P.page c = ((P.rest c).take (P.size + 1)).filter P.shown := by
  have hlen : (P.found c).length ≤ P.size := by
    rw [← more_iff, more, decide_eq_true_iff] at h
    omega
  rw [page, List.take_of_length_le hlen, found, List.filter_filter]
  exact List.filter_congr fun r _ => Bool.and_comm _ _

/-- What is to be shown on a full page is shown there. -/
theorem shown_full (h : P.Full c) :
    ((P.rest c).take P.size).filter P.shown = ((P.rest c).take P.size).filter P.mine := by
  refine List.filter_congr fun r hr => ?_
  rw [shown, h.keep r (List.take_subset_take_left _ (Nat.le_succ _) hr), Bool.true_and]

theorem wanted_split (P : Setup ρ κ) (c : κ) (n : ℕ) :
    P.wanted c = ((P.rest c).take n).filter P.shown ++ ((P.rest c).drop n).filter P.shown := by
  rw [← List.filter_append, List.take_append_drop]
  rfl

theorem mem_rest : r ∈ P.rest c ↔ r ∈ P.rows ∧ c < P.key r := by
  simp [rest, beyond]

/-- The rows after one of them. -/
theorem rest_key (hr : r ∈ P.rest c) : P.rest (P.key r) = beyond P.key (P.key r) (P.rest c) := by
  rw [rest, rest, beyond_beyond, max_eq_left (mem_rest.1 hr).2.le]

theorem rest_bot (P : Setup ρ κ) : P.rest P.bot = P.rows :=
  List.filter_eq_self.2 fun r hr => decide_eq_true (P.bot_lt r hr)

theorem mem_rest_of_page (h : r ∈ P.page c) : r ∈ P.rest c :=
  List.mem_of_mem_take (List.mem_of_mem_filter (List.mem_of_mem_take (List.mem_of_mem_filter h)))

theorem bot_le_next (P : Setup ρ κ) (c : κ) : P.bot ≤ P.next c :=
  start_le_cursor fun r hr => (P.bot_lt r (mem_rest.1 (mem_rest_of_page hr)).1).le

/-- The last row of a sorted list has the greatest key. -/
theorem le_last {rows : List ρ} (h : rows.Pairwise fun r r' => P.key r ≤ P.key r')
    (hr : rows.getLast? = some r) {r' : ρ} (hr' : r' ∈ rows) : P.key r' ≤ P.key r := by
  obtain ⟨before, rfl⟩ := List.getLast?_eq_some_iff.1 hr
  rcases List.mem_append.1 hr' with hr' | hr'
  · exact (List.pairwise_append.1 h).2.2 r' hr' r (List.mem_singleton_self r)
  · rw [List.mem_singleton.1 hr']

theorem sorted_rest (P : Setup ρ κ) (c : κ) : (P.rest c).Pairwise fun r r' => P.key r ≤ P.key r' :=
  P.sorted.filter _

/-- The rows after a cursor come last. -/
theorem rest_suffix (P : Setup ρ κ) (c : κ) : ∃ rows, P.rows = rows ++ P.rest c := by
  have h := P.sorted
  unfold rest
  generalize P.rows = rows at h ⊢
  induction rows with
  | nil => exact ⟨[], rfl⟩
  | cons r rows ih =>
    obtain ⟨hr, hrows⟩ := List.pairwise_cons.1 h
    by_cases hc : c < P.key r
    · refine ⟨[], ?_⟩
      symm
      refine List.filter_eq_self.2 fun r' hr' => decide_eq_true ?_
      rcases List.mem_cons.1 hr' with rfl | hr'
      · exact hc
      · exact hc.trans_le (hr r' hr')
    · obtain ⟨before, hb⟩ := ih hrows
      refine ⟨r :: before, ?_⟩
      rw [beyond, List.filter_cons_of_neg (by simpa using hc), List.cons_append]
      exact congrArg _ hb

/-- After the last row `r` that a full page shows, what is to be shown is what
    follows the page, unless its key is that of `r`. -/
theorem wanted_next (hf : P.Full c) (hr : (P.page c).getLast? = some r)
    (hkey : ∀ r' ∈ (P.rest c).drop P.size, P.shown r' = true → P.key r < P.key r') :
    P.wanted (P.key r) = ((P.rest c).drop P.size).filter P.shown := by
  have hmem : r ∈ P.page c := List.mem_of_getLast? hr
  have hrest : P.rest (P.key r) = beyond P.key (P.key r) (P.rest c) := rest_key (mem_rest_of_page hmem)
  have htake : (beyond P.key (P.key r) ((P.rest c).take P.size)).filter P.shown = [] := by
    refine List.filter_eq_nil_iff.2 fun r' hr' hs => ?_
    obtain ⟨hr', hlt⟩ := List.mem_filter.1 hr'
    have hpage : r' ∈ P.page c := by
      rw [page_full hf]
      exact List.mem_filter.2 ⟨hr', (Bool.and_eq_true_iff.1 hs).2⟩
    have hsorted : (P.page c).Pairwise fun r r' => P.key r ≤ P.key r' := by
      rw [page_full hf]
      exact ((P.sorted_rest c).sublist (List.take_sublist _ _)).filter _
    exact absurd (of_decide_eq_true hlt) (not_lt.2 (le_last hsorted hr hpage))
  have hdrop : (beyond P.key (P.key r) ((P.rest c).drop P.size)).filter P.shown
      = ((P.rest c).drop P.size).filter P.shown := by
    rw [beyond, List.filter_filter]
    refine List.filter_congr fun r' hr' => ?_
    cases hs : P.shown r' with
    | false => rfl
    | true => simpa using hkey r' hr' hs
  rw [wanted, hrest, ← List.take_append_drop P.size (P.rest c), beyond, List.filter_append,
    List.filter_append]
  change (beyond P.key (P.key r) _).filter P.shown ++ (beyond P.key (P.key r) _).filter P.shown = _
  rw [htake, hdrop, List.take_append_drop, List.nil_append]

/-! ## The scan -/

/-- A full first page that shows nothing is met again and again. -/
theorem scan_bot_eq_none (hf : P.Full P.bot) (hp : P.page P.bot = []) (k : ℕ) : P.scan k P.bot = none := by
  induction k with
  | zero => rfl
  | succ k ih =>
    have hnext : P.next P.bot = P.bot := by rw [next, hp, cursor_nil]
    rw [scan, if_pos (more_iff.2 hf), hnext, ih]
    rfl

theorem scan_full {k : ℕ} (hf : P.Full c) :
    P.scan (k + 1) c = (P.scan k (P.next c)).map (P.page c ++ ·) := by
  rw [scan, if_pos (more_iff.2 hf)]

theorem scan_not_full {k : ℕ} (hf : ¬ P.Full c) : P.scan (k + 1) c = some (P.page c) := by
  rw [scan, if_neg (by rwa [more_iff])]

/-- The first row of a scan from the start is on the first page. -/
theorem head_bot {k : ℕ} {rows : List ρ} (h : P.scan k P.bot = some (r :: rows)) :
    r ∈ P.rows.take (P.size + 1) ∧ (P.Full P.bot → r ∈ P.rows.take P.size) := by
  cases k with
  | zero => cases h
  | succ k =>
    by_cases hf : P.Full P.bot
    · have hpage : r ∈ P.page P.bot := by
        cases hp : P.page P.bot with
        | nil =>
          rw [scan_bot_eq_none hf hp] at h
          cases h
        | cons r' page =>
          rw [scan_full hf, hp] at h
          obtain ⟨_, -, he⟩ := Option.map_eq_some_iff.1 h
          cases he
          exact List.mem_cons_self
      rw [page_full hf, rest_bot] at hpage
      have := List.mem_of_mem_filter hpage
      exact ⟨List.take_subset_take_left _ (Nat.le_succ _) this, fun _ => this⟩
    · rw [scan_not_full hf, page_not_full hf, rest_bot] at h
      have hmem : r ∈ (P.rows.take (P.size + 1)).filter P.shown := by
        rw [Option.some.inj h]
        exact List.mem_cons_self
      exact ⟨List.mem_of_mem_filter hmem, fun hf' => absurd hf' hf⟩

/-- It does not come after the first `n` rows of a full page. -/
theorem head_bot_notMem {k : ℕ} {rows : List ρ} (h : P.scan k P.bot = some (r :: rows)) (hf : P.Full c) :
    r ∉ (P.rest c).drop P.size := by
  intro hr
  obtain ⟨hmem, hfull⟩ := head_bot h
  obtain ⟨before, hb⟩ := P.rest_suffix c
  have hsplit : P.rows = (before ++ (P.rest c).take P.size) ++ (P.rest c).drop P.size := by
    rw [List.append_assoc, List.take_append_drop, ← hb]
  have hdis : r ∉ before ++ (P.rest c).take P.size := by
    intro hr'
    have hnodup := P.nodup
    rw [hsplit] at hnodup
    exact (List.nodup_append.1 hnodup).2.2 r hr' r hr rfl
  have hlen : ((P.rest c).take P.size).length = P.size := by
    rw [List.length_take]
    have := hf.length
    omega
  cases before with
  | nil =>
    have hbot : P.rest P.bot = P.rest c := by rw [rest_bot, hb, List.nil_append]
    have hf' : P.Full P.bot := ⟨hbot ▸ hf.length, hbot ▸ hf.keep⟩
    have := hfull hf'
    rw [hb] at this
    exact hdis this
  | cons r' before =>
    rw [hsplit, List.take_append_of_le_length] at hmem
    · exact hdis (List.mem_of_mem_take hmem)
    · simp only [List.length_append, List.length_cons, hlen]
      omega

/-- What a scan finds first is after its cursor, unless the scan starts anew. -/
theorem head_scan {k : ℕ} {rows : List ρ} (h : P.scan k c = some (r :: rows)) :
    c < P.key r ∨ ∃ k', P.scan k' P.bot = some (r :: rows) := by
  cases k with
  | zero => cases h
  | succ k =>
    have hmem : r ∈ P.page c → c < P.key r := fun hp => (mem_rest.1 (mem_rest_of_page hp)).2
    by_cases hf : P.Full c
    · rw [scan_full hf] at h
      cases hp : P.page c with
      | nil =>
        rw [next, hp, cursor_nil] at h
        exact Or.inr ⟨k, by simpa using h⟩
      | cons r' page =>
        obtain ⟨_, -, he⟩ := Option.map_eq_some_iff.1 h
        rw [hp] at he
        cases he
        exact Or.inl (hmem (hp ▸ List.mem_cons_self))
    · rw [scan_not_full hf] at h
      exact Or.inl (hmem (Option.some.inj h ▸ List.mem_cons_self))

/-- On a full page whose last row is `r`, the rest of the scan goes on after `r`. -/
theorem key_lt_of_scan {k : ℕ} (hf : P.Full c)
    (h : P.scan k (P.key r) = some (((P.rest c).drop P.size).filter P.shown)) :
    ∀ r' ∈ (P.rest c).drop P.size, P.shown r' = true → P.key r < P.key r' := by
  intro r' hr' hs
  cases hrows : ((P.rest c).drop P.size).filter P.shown with
  | nil =>
    have := List.filter_eq_nil_iff.1 hrows r' hr'
    exact absurd hs this
  | cons r₀ rows =>
    rw [hrows] at h
    have hdrop : r₀ ∈ (P.rest c).drop P.size := List.mem_of_mem_filter (hrows ▸ List.mem_cons_self)
    have hle : P.key r₀ ≤ P.key r' := by
      have hsorted := ((P.sorted_rest c).sublist (List.drop_sublist P.size _)).filter P.shown
      have hmem : r' ∈ r₀ :: rows := hrows ▸ List.mem_filter.2 ⟨hr', hs⟩
      rw [hrows] at hsorted
      rcases List.mem_cons.1 hmem with rfl | hmem
      · exact le_rfl
      · exact (List.pairwise_cons.1 hsorted).1 r' hmem
    rcases head_scan h with hlt | ⟨k', hk'⟩
    · exact hlt.trans_le hle
    · exact absurd hdrop (head_bot_notMem hk' hf)

/-- A scan from the start that shows nothing ends with its first page. -/
theorem of_scan_bot_nil {k : ℕ} (h : P.scan k P.bot = some []) :
    ¬ P.Full P.bot ∧ ∀ r ∈ (P.rest P.bot).take (P.size + 1), P.shown r = false := by
  cases k with
  | zero => cases h
  | succ k =>
    by_cases hf : P.Full P.bot
    · have hk := h
      rw [scan_full hf] at h
      obtain ⟨rows, -, he⟩ := Option.map_eq_some_iff.1 h
      rw [scan_bot_eq_none hf (List.append_eq_nil_iff.1 he).1] at hk
      cases hk
    · rw [scan_not_full hf, page_not_full hf] at h
      exact ⟨hf, fun r hr => by simpa using List.filter_eq_nil_iff.1 (Option.some.inj h) r hr⟩

theorem aligned_of_scan {k : ℕ} (h : P.scan k c = some (P.wanted c)) : P.Aligned c := by
  induction k generalizing c with
  | zero => cases h
  | succ k ih =>
    by_cases hf : P.Full c
    · -- the rows after the first `n` are left to the rest of the scan
      have hrest : P.scan k (P.next c) = some (((P.rest c).drop P.size).filter P.shown) := by
        rw [scan_full hf, wanted_split P c P.size, shown_full hf, ← page_full hf] at h
        obtain ⟨rows, hrows, he⟩ := Option.map_eq_some_iff.1 h
        rw [hrows, List.append_cancel_left he]
      cases hlast : (P.page c).getLast? with
      | some r =>
        have hnext : P.next c = P.key r := by rw [next, cursor, hlast]; rfl
        rw [hnext] at hrest
        have hkey := key_lt_of_scan hf hrest
        refine .more hf (page_full hf ▸ hlast) hkey (ih ?_)
        rw [wanted_next hf hlast hkey]
        exact hrest
      | none =>
        have hpage : P.page c = [] := List.getLast?_eq_none_iff.1 hlast
        have hnext : P.next c = P.bot := by rw [next, hpage, cursor_nil]
        rw [hnext] at hrest
        have hnone : ((P.rest c).drop P.size).filter P.shown = [] := by
          cases hrows : ((P.rest c).drop P.size).filter P.shown with
          | nil => rfl
          | cons r rows =>
            rw [hrows] at hrest
            have hmem : r ∈ (P.rest c).drop P.size := List.mem_of_mem_filter (hrows ▸ List.mem_cons_self)
            exact absurd hmem (head_bot_notMem hrest hf)
        rw [hnone] at hrest
        obtain ⟨hf', hr'⟩ := of_scan_bot_nil hrest
        refine .restart hf (fun r hr => ?_) hf' hr'
        have hwanted : P.wanted c = [] := by
          rw [wanted_split P c P.size, shown_full hf, ← page_full hf, hpage, hnone, List.append_nil]
        simpa using List.filter_eq_nil_iff.1 hwanted r hr
    · rw [scan_not_full hf, page_not_full hf, wanted_split P c (P.size + 1)] at h
      have hnil := List.append_right_eq_self.1 (Option.some.inj h).symm
      exact .last hf fun r hr => by simpa using List.filter_eq_nil_iff.1 hnil r hr

theorem scan_of_aligned (h : P.Aligned c) : ∃ k, P.scan k c = some (P.wanted c) := by
  induction h with
  | @last c hf hr =>
    refine ⟨1, ?_⟩
    have hnil : ((P.rest c).drop (P.size + 1)).filter P.shown = [] :=
      List.filter_eq_nil_iff.2 fun r hr' => by simp [hr r hr']
    rw [scan_not_full hf, page_not_full hf, wanted_split P c (P.size + 1), hnil, List.append_nil]
  | @more c r hf hr hkey _ ih =>
    obtain ⟨k, hk⟩ := ih
    rw [← page_full hf] at hr
    have hnext : P.next c = P.key r := by rw [next, cursor, hr]; rfl
    refine ⟨k + 1, ?_⟩
    rw [scan_full hf, hnext, hk, wanted_next hf hr hkey, wanted_split P c P.size, shown_full hf,
      page_full hf]
    rfl
  | @restart c hf hr hf' hr' =>
    have hwanted : P.wanted c = [] := List.filter_eq_nil_iff.2 fun r hr' => by simp [hr r hr']
    have hbot : P.page P.bot = [] := by
      rw [page_not_full hf']
      exact List.filter_eq_nil_iff.2 fun r hr => by simp [hr' r hr]
    have hpage : P.page c = [] := by
      rw [wanted_split P c P.size, shown_full hf, ← page_full hf] at hwanted
      exact (List.append_eq_nil_iff.1 hwanted).1
    refine ⟨2, ?_⟩
    rw [scan_full hf, next, hpage, cursor_nil, scan_not_full hf', hbot, hwanted]
    rfl

/-- **The condition is exact.** -/
theorem scan_eq_wanted : (∃ k, P.scan k c = some (P.wanted c)) ↔ P.Aligned c :=
  ⟨fun ⟨_, h⟩ => aligned_of_scan h, scan_of_aligned⟩

/-! ## Rows that are all shown -/

theorem wanted_of_shown (hs : ∀ r ∈ P.rest c, P.shown r = true) : P.wanted c = P.rest c :=
  List.filter_eq_self.2 hs

/-- A page of such rows is full if there are enough of them. -/
theorem full_iff_of_shown (hs : ∀ r ∈ P.rest c, P.shown r = true) :
    P.Full c ↔ P.size < (P.rest c).length :=
  ⟨Full.length, fun h => ⟨h, fun r hr => (Bool.and_eq_true_iff.1 (hs r (List.mem_of_mem_take hr))).1⟩⟩

/-- If a row is left out of the page, there is said to be more. -/
theorem more_of_shown (hs : ∀ r ∈ P.rest c, P.shown r = true) (hr : r ∈ P.rest c) (hn : r ∉ P.page c) :
    P.more c = true := by
  rw [more_iff]
  by_contra hf
  have hlen : (P.rest c).length ≤ P.size := by rwa [full_iff_of_shown hs, not_lt] at hf
  rw [page_not_full hf, List.take_of_length_le (hlen.trans (Nat.le_succ _))] at hn
  exact hn (List.mem_filter.2 ⟨hr, hs r hr⟩)

/-- The rows after a row of a page are fewer than those after its cursor. -/
theorem length_rest_lt (hr : r ∈ P.rest c) : (P.rest (P.key r)).length < (P.rest c).length := by
  rw [rest_key hr, beyond, List.length_filter_lt_length_iff_exists]
  exact ⟨r, hr, by simp⟩

/-- **Nothing goes wrong** if every row after the cursor is to be shown and no
    two have the same key. -/
theorem aligned_of_shown (hs : ∀ r ∈ P.rest c, P.shown r = true)
    (hk : (P.rest c).Pairwise fun r r' => P.key r < P.key r') : P.Aligned c := by
  induction hn : (P.rest c).length using Nat.strong_induction_on generalizing c with
  | _ n ih =>
    by_cases hf : P.Full c
    · have hmine : ((P.rest c).take P.size).filter P.mine = (P.rest c).take P.size :=
        List.filter_eq_self.2 fun r hr => (Bool.and_eq_true_iff.1 (hs r (List.mem_of_mem_take hr))).2
      cases hlast : ((P.rest c).take P.size).getLast? with
      | none =>
        -- the page has room for a row, and there is one
        have hlen := hf.length
        have hpos := P.size_pos
        have := congrArg List.length (List.getLast?_eq_none_iff.1 hlast)
        rw [List.length_take, List.length_nil] at this
        omega
      | some r =>
        have hr : r ∈ (P.rest c).take P.size := List.mem_of_getLast? hlast
        have hrest : r ∈ P.rest c := List.mem_of_mem_take hr
        have hsub : (P.rest (P.key r)).Sublist (P.rest c) := by
          rw [rest_key hrest]
          exact List.filter_sublist
        refine .more hf (hmine.symm ▸ hlast) (fun r' hr' _ => ?_)
          (ih _ (hn ▸ length_rest_lt hrest) (fun r' hr' => hs r' (hsub.subset hr')) (hk.sublist hsub) rfl)
        rw [← List.take_append_drop P.size (P.rest c)] at hk
        exact (List.pairwise_append.1 hk).2.2 r hr r' hr'
    · have hlen : (P.rest c).length ≤ P.size := by rwa [full_iff_of_shown hs, not_lt] at hf
      refine .last hf fun r hr => ?_
      rw [List.drop_of_length_le (hlen.trans (Nat.le_succ _))] at hr
      cases hr

end Setup

end Sieve
