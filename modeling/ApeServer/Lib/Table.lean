/-
  Relational tables as lists of rows.

  A table is the list of its rows in insertion order.  `updateWhere`,
  `deleteWhere`, `insertNew` and `upsert` are the meanings of the SQL
  statements `UPDATE … WHERE`, `DELETE … WHERE`, `INSERT … ON DUPLICATE KEY
  UPDATE k = k` (or `INSERT IGNORE`) and `INSERT … ON DUPLICATE KEY UPDATE …`;
  `orderLimit` is `ORDER BY … LIMIT n`, `firstBy` `ORDER BY … LIMIT 1`.

  A unique key is `(t.map key).Nodup`: the key identifies the row
  (`eq_of_key`), and every statement that leaves the key columns alone keeps
  it (`map_updateWhere`, `nodup_deleteWhere`, `nodup_insertNew`).  `Evolves R`
  says that every row of the old table is still in the new one, changed as
  `R` allows.
-/
import Mathlib.Tactic
import Mathlib.Data.List.Nodup
import Mathlib.Data.List.Sort

namespace Table

universe u
variable {α κ : Type u}

/-- `UPDATE t SET f WHERE p`. -/
def updateWhere (p : α → Bool) (f : α → α) (t : List α) : List α :=
  t.map fun r => if p r then f r else r

/-- `DELETE FROM t WHERE p`. -/
def deleteWhere (p : α → Bool) (t : List α) : List α :=
  t.filter fun r => !p r

/-- `INSERT INTO t VALUES r`, doing nothing if a row already matches the key
    test `p`. -/
def insertNew (p : α → Bool) (r : α) (t : List α) : List α :=
  if t.any p then t else t ++ [r]

/-- `INSERT INTO t VALUES r ON DUPLICATE KEY UPDATE f`, for the key test `p`. -/
def upsert (p : α → Bool) (f : α → α) (r : α) (t : List α) : List α :=
  if t.any p then updateWhere p f t else t ++ [r]

/-- `ORDER BY … LIMIT 1`: the least row for `lt`, the first one among equals. -/
def firstBy (lt : α → α → Bool) : List α → Option α
  | [] => none
  | a :: t =>
    match firstBy lt t with
    | none => some a
    | some b => if lt b a then some b else some a

/-- `ORDER BY key LIMIT n`. -/
def orderLimit (key : α → ℕ) (n : ℕ) (rows : List α) : List α :=
  (rows.insertionSort fun r r' => key r ≤ key r').take n

theorem mem_orderLimit {key : α → ℕ} {n : ℕ} {rows : List α} {x : α} (h : x ∈ orderLimit key n rows) :
    x ∈ rows :=
  (List.mem_insertionSort _).1 (List.mem_of_mem_take h)

theorem firstBy_mem {lt : α → α → Bool} : ∀ {t : List α} {a : α}, firstBy lt t = some a → a ∈ t
  | [], _, h => by simp [firstBy] at h
  | b :: t, a, h => by
    unfold firstBy at h
    split at h
    · cases h; exact List.mem_cons_self
    · next c hc =>
      split_ifs at h
      · cases h; exact List.mem_cons_of_mem _ (firstBy_mem hc)
      · cases h; exact List.mem_cons_self

/-- Only an empty table has no first row. -/
theorem firstBy_eq_none {lt : α → α → Bool} {t : List α} (h : firstBy lt t = none) : t = [] := by
  cases t with
  | nil => rfl
  | cons a t =>
    unfold firstBy at h
    split at h
    · cases h
    · split_ifs at h

/-- `ORDER BY f DESC LIMIT 1` is a greatest row. -/
theorem le_firstBy {β : Type*} [LinearOrder β] {f : α → β} : ∀ {t : List α} {a : α},
    firstBy (fun a b => decide (f b < f a)) t = some a → ∀ b ∈ t, f b ≤ f a
  | [], _, h, _, _ => by simp [firstBy] at h
  | c :: t, a, h, b, hb => by
    unfold firstBy at h
    split at h
    · next hn =>
      cases h
      rcases List.mem_cons.1 hb with rfl | hb
      · exact le_rfl
      · rw [firstBy_eq_none hn] at hb
        cases hb
    · next x hx =>
      have hle := le_firstBy hx
      split_ifs at h with hlt
      · cases h
        rcases List.mem_cons.1 hb with rfl | hb
        · exact (of_decide_eq_true hlt).le
        · exact hle b hb
      · cases h
        have hxc : f x ≤ f c := by simpa using hlt
        rcases List.mem_cons.1 hb with rfl | hb
        · exact le_rfl
        · exact (hle b hb).trans hxc

/-! ## Membership -/

theorem mem_updateWhere {p : α → Bool} {f : α → α} {t : List α} {r' : α} :
    r' ∈ updateWhere p f t ↔ ∃ r ∈ t, (if p r then f r else r) = r' := by
  simp [updateWhere]

theorem updateWhere_eq_self {p : α → Bool} {f : α → α} {t : List α} (h : ∀ r ∈ t, p r = false) :
    updateWhere p f t = t := by
  conv_rhs => rw [← List.map_id t]
  refine List.map_congr_left fun r hr => ?_
  rw [h r hr]; rfl

theorem updateWhere_congr {p q : α → Bool} {f : α → α} {t : List α} (h : ∀ r ∈ t, p r = q r) :
    updateWhere p f t = updateWhere q f t :=
  List.map_congr_left fun r hr => by rw [h r hr]

theorem any_congr {p q : α → Bool} {t : List α} (h : ∀ r ∈ t, p r = q r) : t.any p = t.any q := by
  rw [Bool.eq_iff_iff, List.any_eq_true, List.any_eq_true]
  exact exists_congr fun r => and_congr_right fun hr => by rw [h r hr]

theorem insertNew_congr {p q : α → Bool} {r : α} {t : List α} (h : ∀ r ∈ t, p r = q r) :
    insertNew p r t = insertNew q r t := by
  rw [insertNew, insertNew, any_congr h]

/-- An update elsewhere does not change what `q` selects. -/
theorem filter_updateWhere {p q : α → Bool} {f : α → α} {t : List α}
    (h : ∀ r ∈ t, p r → q r = false ∧ q (f r) = false) : (updateWhere p f t).filter q = t.filter q := by
  induction t with
  | nil => rfl
  | cons r t ih =>
    have ih := ih fun r hr => h r (List.mem_cons_of_mem _ hr)
    simp only [updateWhere, List.map_cons, List.filter_cons] at ih ⊢
    rw [ih]
    split_ifs with hp <;> simp_all

theorem filter_upsert {p q : α → Bool} {f : α → α} {r : α} {t : List α}
    (h : ∀ r ∈ t, p r → q r = false ∧ q (f r) = false) (hr : q r = false) :
    (upsert p f r t).filter q = t.filter q := by
  unfold upsert
  split_ifs
  · exact filter_updateWhere h
  · simp [hr]

theorem mem_deleteWhere {p : α → Bool} {t : List α} {r : α} :
    r ∈ deleteWhere p t ↔ r ∈ t ∧ p r = false := by
  simp [deleteWhere]

@[simp] theorem find?_deleteWhere (p : α → Bool) (t : List α) : (deleteWhere p t).find? p = none := by
  rw [List.find?_eq_none]
  intro r hr
  simpa using (mem_deleteWhere.1 hr).2

theorem mem_insertNew {p : α → Bool} {r r' : α} {t : List α} :
    r' ∈ insertNew p r t ↔ r' ∈ t ∨ (r' = r ∧ ∀ x ∈ t, p x = false) := by
  unfold insertNew
  split_ifs with h
  · obtain ⟨x, hx, hp⟩ := List.any_eq_true.1 h
    refine ⟨Or.inl, fun h' => h'.elim id fun hn => ?_⟩
    rw [hn.2 x hx] at hp; cases hp
  · have hn : ∀ x ∈ t, p x = false := by simpa using h
    rw [List.mem_append, List.mem_singleton]
    exact ⟨fun h' => h'.imp id fun e => ⟨e, hn⟩, fun h' => h'.imp id fun e => e.1⟩

theorem insertNew_eq_self {p : α → Bool} {r : α} {t : List α} (h : t.any p = true) :
    insertNew p r t = t :=
  if_pos h

theorem subset_insertNew (p : α → Bool) (r : α) (t : List α) : t ⊆ insertNew p r t :=
  fun _ hx => mem_insertNew.2 (Or.inl hx)

/-- After the insertion some row matches the key test. -/
theorem exists_insertNew {p : α → Bool} {r : α} (hr : p r) (t : List α) :
    ∃ x ∈ insertNew p r t, p x := by
  by_cases h : ∃ x ∈ t, p x
  · obtain ⟨x, hx, hp⟩ := h
    exact ⟨x, subset_insertNew p r t hx, hp⟩
  · refine ⟨r, mem_insertNew.2 (Or.inr ⟨rfl, fun x hx => ?_⟩), hr⟩
    by_contra hc
    exact h ⟨x, hx, by simpa using hc⟩

theorem mem_upsert {p : α → Bool} {f : α → α} {r r' : α} {t : List α} (h : r' ∈ upsert p f r t) :
    (∃ x ∈ t, p x ∧ r' = f x) ∨ (r' ∈ t ∧ p r' = false) ∨ (r' = r ∧ ∀ x ∈ t, p x = false) := by
  unfold upsert at h
  split_ifs at h with hp
  · obtain ⟨x, hx, rfl⟩ := mem_updateWhere.1 h
    by_cases hpx : p x
    · simp only [hpx, if_true]; exact Or.inl ⟨x, hx, hpx, rfl⟩
    · simp only [hpx]; exact Or.inr (Or.inl ⟨hx, by simpa using hpx⟩)
  · rcases List.mem_append.1 h with h | h
    · have hn : p r' = false := by
        by_contra hc; exact hp (List.any_eq_true.2 ⟨r', h, by simpa using hc⟩)
      exact Or.inr (Or.inl ⟨h, hn⟩)
    · exact Or.inr (Or.inr ⟨by simpa using h, by simpa using hp⟩)

/-- An update that keeps what `q` tests changes the row that `q` finds. -/
theorem find?_updateWhere {p q : α → Bool} {f : α → α} (hf : ∀ x, p x → q (f x) = q x) (t : List α) :
    (updateWhere p f t).find? q = (t.find? q).map fun r => if p r then f r else r := by
  have hcomp : (q ∘ fun r => if p r then f r else r) = q := by
    funext y
    simp only [Function.comp]
    split_ifs with hy
    · exact hf y hy
    · rfl
  rw [updateWhere, List.find?_map, hcomp]

/-- After an upsert, its key finds the updated row, or the new one. -/
theorem find?_upsert_self {p : α → Bool} {f : α → α} {r : α} (hf : ∀ x, p x → p (f x)) (hr : p r)
    (t : List α) : (upsert p f r t).find? p = some (((t.find? p).map f).getD r) := by
  unfold upsert
  split_ifs with h
  · obtain ⟨x, hx⟩ := Option.isSome_iff_exists.1 (List.find?_isSome.2 (List.any_eq_true.1 h))
    have hpx := List.find?_some hx
    rw [find?_updateWhere (fun y hy => by rw [hy, hf y hy]), hx]
    simp [hpx]
  · have hn : t.find? p = none := List.find?_eq_none.2 (by simpa using h)
    simp [hn, hr]

/-- An upsert does not change what another key finds. -/
theorem find?_upsert_other {p q : α → Bool} {f : α → α} {r : α} (hf : ∀ x, p x → q (f x) = q x)
    (hq : ∀ x, q x → p x = false) (hr : q r = false) (t : List α) :
    (upsert p f r t).find? q = t.find? q := by
  unfold upsert
  split_ifs with h
  · rw [find?_updateWhere hf]
    cases hx : t.find? q with
    | none => rfl
    | some x => simp [hq x (List.find?_some hx)]
  · simp [hr]

/-! ## Unique keys -/

/-- Rows without duplicates that are all equal are at most one. -/
theorem length_le_one {t : List α} (hn : t.Nodup) (h : ∀ r ∈ t, ∀ r' ∈ t, r = r') : t.length ≤ 1 := by
  cases t with
  | nil => exact Nat.zero_le _
  | cons r t =>
    cases t with
    | nil => exact le_rfl
    | cons r' t =>
      obtain rfl := h r (by simp) r' (by simp)
      simp at hn

/-- A unique key identifies the row. -/
theorem eq_of_key {key : α → κ} {t : List α} (hk : (t.map key).Nodup) {r r' : α} (hr : r ∈ t)
    (hr' : r' ∈ t) (h : key r = key r') : r = r' :=
  List.inj_on_of_nodup_map hk hr hr' h

@[simp]
theorem map_updateWhere {key : α → κ} {p : α → Bool} {f : α → α} (hf : ∀ r, key (f r) = key r)
    (t : List α) : (updateWhere p f t).map key = t.map key := by
  simp only [updateWhere, List.map_map]
  refine List.map_congr_left fun r _ => ?_
  simp only [Function.comp]; split_ifs
  · exact hf r
  · rfl

theorem nodup_filter {key : α → κ} {t : List α} (hk : (t.map key).Nodup) (p : α → Bool) :
    ((t.filter p).map key).Nodup :=
  hk.sublist (List.filter_sublist.map key)

theorem nodup_deleteWhere {key : α → κ} {t : List α} (hk : (t.map key).Nodup) (p : α → Bool) :
    ((deleteWhere p t).map key).Nodup :=
  nodup_filter hk _

theorem nodup_append_one {key : α → κ} {t : List α} (hk : (t.map key).Nodup) {r : α}
    (hr : ∀ x ∈ t, key x ≠ key r) : ((t ++ [r]).map key).Nodup := by
  rw [List.map_append, List.nodup_append]
  refine ⟨hk, by simp, fun a ha b hb => ?_⟩
  obtain ⟨x, hx, rfl⟩ := List.mem_map.1 ha
  simp only [List.map_cons, List.map_nil, List.mem_singleton] at hb
  rw [hb]; exact hr x hx

theorem nodup_insertNew {key : α → κ} {t : List α} (hk : (t.map key).Nodup) {p : α → Bool} {r : α}
    (hp : ∀ x ∈ t, key x = key r → p x) : ((insertNew p r t).map key).Nodup := by
  unfold insertNew
  split_ifs with h
  · exact hk
  · refine nodup_append_one hk fun x hx he => h ?_
    exact List.any_eq_true.2 ⟨x, hx, hp x hx he⟩

theorem nodup_upsert {key : α → κ} {t : List α} (hk : (t.map key).Nodup) {p : α → Bool}
    {f : α → α} {r : α} (hf : ∀ x, key (f x) = key x) (hp : ∀ x ∈ t, key x = key r → p x) :
    ((upsert p f r t).map key).Nodup := by
  unfold upsert
  split_ifs with h
  · rwa [map_updateWhere hf]
  · refine nodup_append_one hk fun x hx he => h ?_
    exact List.any_eq_true.2 ⟨x, hx, hp x hx he⟩

/-! ## Evolution of the rows -/

/-- Every row of `t` is still in `t'`, changed as `R` allows. -/
def Evolves (R : α → α → Prop) (t t' : List α) : Prop :=
  ∀ r ∈ t, ∃ r' ∈ t', R r r'

theorem Evolves.refl {R : α → α → Prop} (hR : ∀ r, R r r) (t : List α) : Evolves R t t :=
  fun r hr => ⟨r, hr, hR r⟩

theorem Evolves.of_subset {R : α → α → Prop} (hR : ∀ r, R r r) {t t' : List α} (h : t ⊆ t') :
    Evolves R t t' :=
  fun r hr => ⟨r, h hr, hR r⟩

theorem Evolves.trans {R : α → α → Prop} (hR : ∀ a b c, R a b → R b c → R a c)
    {t₁ t₂ t₃ : List α} (h₁ : Evolves R t₁ t₂) (h₂ : Evolves R t₂ t₃) : Evolves R t₁ t₃ := by
  intro r hr
  obtain ⟨r', hr', h⟩ := h₁ r hr
  obtain ⟨r'', hr'', h'⟩ := h₂ r' hr'
  exact ⟨r'', hr'', hR _ _ _ h h'⟩

theorem Evolves.updateWhere {R : α → α → Prop} (hR : ∀ r, R r r) {p : α → Bool} {f : α → α}
    {t : List α} (hf : ∀ r ∈ t, p r → R r (f r)) : Evolves R t (updateWhere p f t) := by
  intro r hr
  refine ⟨_, mem_updateWhere.2 ⟨r, hr, rfl⟩, ?_⟩
  split_ifs with hp
  · exact hf r hr hp
  · exact hR r

/-! ## Joins

A join with the row of another table is a `filterMap`. -/

section
variable {β : Type u} {f : α → Option β} {k : α → ℕ} {key : β → ℕ}

/-- A condition on the key before a join or after it. -/
theorem filter_join (h : ∀ a b, f a = some b → key b = k a) (p : α → Bool) (q : ℕ → Bool) (t : List α) :
    ((t.filter p).filterMap f).filter (fun r => q (key r))
      = (t.filter fun a => p a && q (k a)).filterMap f := by
  induction t with
  | nil => rfl
  | cons a t ih =>
    by_cases hp : p a = true
    · cases hf : f a with
      | none => by_cases hq : q (k a) = true <;> simp [hp, hf, hq, ih]
      | some b =>
        have hb := h a b hf
        by_cases hq : q (k a) = true <;> simp [hp, hf, hb, hq, ih]
    · simp [hp, ih]

/-- A join has the keys of its table. -/
theorem nodup_join (h : ∀ a b, f a = some b → key b = k a) {t : List α} (ht : (t.map k).Nodup) :
    ((t.filterMap f).map key).Nodup := by
  refine ht.sublist ?_
  induction t with
  | nil => exact List.Sublist.slnil
  | cons a t ih =>
    have ih := ih (List.nodup_cons.1 ht).2
    cases hf : f a with
    | none =>
      rw [List.filterMap_cons_none hf]
      exact ih.cons _
    | some b =>
      rw [List.filterMap_cons_some hf, List.map_cons, List.map_cons, h a b hf]
      exact ih.cons_cons _

end

end Table
