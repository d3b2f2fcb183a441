/-
  The trace header of a Kafka payload (`ParseTraceParent` of
  `src/om/otel_trace_propagation.cpp`).

  The parser checks the length, looks for two dashes, and takes three views of
  the characters, of fixed lengths, at the start and behind each dash.  The
  conversion from hexadecimal digits is that of OpenTelemetry, a parameter.

  * `parseTraceParent_exact`: the views lie in the string, and a valid context
    is made of a header of the right shape, exactly if the dashes are at their
    places, or nothing comes of it;
  * `placed_header`: they are in `00-{32}-{16}-{2}`;
  * `parseTraceParent_malformed`: two strings where it goes wrong.
-/
import Mathlib.Tactic

namespace ApeServer.Otel

/-! ## Strings -/

/-- `-`. -/
def dash : UInt8 := 45

/-- A `std::string`: its size, and the memory from `data()` on. -/
structure Str where
  size : ℕ
  data : ℕ → UInt8

/-- A `string_view` of the memory of a string. -/
structure StringView where
  start : ℕ
  length : ℕ
deriving DecidableEq, Repr

namespace Str

def ofList (l : List UInt8) : Str where
  size := l.length
  data := fun i => l.getD i 0

/-- `find(c, pos)`; `none` is `npos`. -/
def find (s : Str) (c : UInt8) (pos : ℕ) : Option ℕ :=
  (List.range' pos (s.size - pos)).find? fun i => s.data i == c

/-- The characters of a view. -/
def read (s : Str) (v : StringView) : List UInt8 := (List.range v.length).map fun i => s.data (v.start + i)

/-- The view lies in the string. -/
def Inside (s : Str) (v : StringView) : Prop := v.start + v.length ≤ s.size

theorem find_eq_some {s : Str} {c : UInt8} {pos i : ℕ} :
    s.find c pos = some i ↔ (pos ≤ i ∧ i < s.size) ∧ s.data i = c ∧ ∀ j, pos ≤ j → j < i → s.data j ≠ c := by
  rw [find, List.find?_range'_eq_some, List.mem_range'_1, beq_iff_eq]
  constructor
  · rintro ⟨hc, ⟨hlo, hhi⟩, hfirst⟩
    exact ⟨⟨hlo, by omega⟩, hc, by simpa using hfirst⟩
  · rintro ⟨⟨hlo, hhi⟩, hc, hfirst⟩
    exact ⟨hc, ⟨hlo, by omega⟩, by simpa using hfirst⟩

end Str

/-! ## The parser -/

/-- The conversions of `HttpTraceContext`, and when the ids are valid. -/
structure HttpTraceContext (τ σ φ : Type) where
  traceIdFromHex : List UInt8 → τ
  spanIdFromHex : List UInt8 → σ
  traceFlagsFromHex : List UInt8 → φ
  traceIdIsValid : τ → Bool
  spanIdIsValid : σ → Bool

structure SpanContext (τ σ φ : Type) where
  traceId : τ
  spanId : σ
  traceFlags : φ
  isRemote : Bool := true
deriving DecidableEq, Repr

/-- The views that were read, and the context; `none` is `GetInvalid()`. -/
structure Parsed (τ σ φ : Type) where
  views : List StringView := []
  context : Option (SpanContext τ σ φ) := none

def traceIdView : StringView := ⟨3, 32⟩

def spanIdView (dash1 : ℕ) : StringView := ⟨dash1 + 1, 16⟩

def flagsView (dash2 : ℕ) : StringView := ⟨dash2 + 1, 2⟩

def dash1 (tp : Str) : Option ℕ := tp.find dash 3

/-- The search goes on behind the first dash; `npos + 1` is 0. -/
def dash2 (tp : Str) : Option ℕ :=
  tp.find dash (match dash1 tp with
    | some d => d + 1
    | none => 0)

section
variable {τ σ φ : Type} (http : HttpTraceContext τ σ φ)

/-- `ParseTraceParent`. -/
def parseTraceParent (tp : Str) : Parsed τ σ φ :=
  if tp.size < 55 ∨ tp.data 2 ≠ dash then {}
  else
    match dash1 tp, dash2 tp with
    | some d₁, some d₂ =>
      let traceId := http.traceIdFromHex (tp.read traceIdView)
      let spanId := http.spanIdFromHex (tp.read (spanIdView d₁))
      let flags := http.traceFlagsFromHex (tp.read (flagsView d₂))
      { views := [traceIdView, spanIdView d₁, flagsView d₂]
        context :=
          if !http.traceIdIsValid traceId || !http.spanIdIsValid spanId then none
          else some { traceId := traceId, spanId := spanId, traceFlags := flags } }
    | _, _ => {}

/-! ## Safe and exact -/

/-- Two characters, a dash, 32 characters, a dash, 16 characters, a dash and
    two characters. -/
structure Shape (tp : Str) : Prop where
  size : 55 ≤ tp.size
  first : tp.data 2 = dash
  second : tp.data 35 = dash
  third : tp.data 52 = dash

/-- **Parsing is safe and exact**: every view lies in the string, and a valid
    context is made of the views of a header of the right shape. -/
structure Exact (tp : Str) : Prop where
  inside : ∀ v ∈ (parseTraceParent http tp).views, tp.Inside v
  shape : ∀ context, (parseTraceParent http tp).context = some context →
    Shape tp ∧ (parseTraceParent http tp).views = [⟨3, 32⟩, ⟨36, 16⟩, ⟨53, 2⟩] ∧
      context.traceId = http.traceIdFromHex (tp.read ⟨3, 32⟩) ∧
      context.spanId = http.spanIdFromHex (tp.read ⟨36, 16⟩) ∧
      context.traceFlags = http.traceFlagsFromHex (tp.read ⟨53, 2⟩)

/-- The checks refuse the string. -/
def Refused (tp : Str) : Prop := tp.size < 55 ∨ tp.data 2 ≠ dash ∨ dash1 tp = none ∨ dash2 tp = none

/-- The dashes stand at their places. -/
def Placed (tp : Str) : Prop := dash1 tp = some 35 ∧ dash2 tp = some 52

/-- The dashes are somewhere else, with enough characters behind them, and
    one of the ids is not valid. -/
def Harmless (tp : Str) : Prop :=
  ∃ d₁ d₂, dash1 tp = some d₁ ∧ dash2 tp = some d₂ ∧ tp.Inside (spanIdView d₁) ∧ tp.Inside (flagsView d₂) ∧
    (http.traceIdIsValid (http.traceIdFromHex (tp.read traceIdView)) = false ∨
      http.spanIdIsValid (http.spanIdFromHex (tp.read (spanIdView d₁))) = false)

theorem parseTraceParent_refused {tp : Str} (h : Refused tp) : parseTraceParent http tp = {} := by
  unfold parseTraceParent
  split_ifs with hcheck
  · rfl
  · rw [not_or, not_not] at hcheck
    rcases h with h | h | h | h
    · exact absurd h hcheck.1
    · exact absurd hcheck.2 h
    · rw [h]
    · rw [h]
      cases dash1 tp <;> rfl

/-- The parse of a string that passes the checks. -/
theorem parseTraceParent_passed {tp : Str} {d₁ d₂ : ℕ} (hsize : 55 ≤ tp.size) (hdash : tp.data 2 = dash)
    (h₁ : dash1 tp = some d₁) (h₂ : dash2 tp = some d₂) :
    (parseTraceParent http tp).views = [traceIdView, spanIdView d₁, flagsView d₂] ∧
      (parseTraceParent http tp).context =
        if !http.traceIdIsValid (http.traceIdFromHex (tp.read traceIdView)) ||
            !http.spanIdIsValid (http.spanIdFromHex (tp.read (spanIdView d₁))) then none
        else some
          { traceId := http.traceIdFromHex (tp.read traceIdView)
            spanId := http.spanIdFromHex (tp.read (spanIdView d₁))
            traceFlags := http.traceFlagsFromHex (tp.read (flagsView d₂)) } := by
  have hcheck : ¬ (tp.size < 55 ∨ tp.data 2 ≠ dash) := by
    rw [not_or, not_not]
    exact ⟨by omega, hdash⟩
  simp only [parseTraceParent, if_neg hcheck, h₁, h₂]
  exact ⟨trivial, trivial⟩

theorem exact_of_refused {tp : Str} (h : Refused tp) : Exact http tp := by
  constructor
  · rw [parseTraceParent_refused http h]
    nofun
  · rw [parseTraceParent_refused http h]
    nofun

/-- **Safe and exact, when**: the string is refused, the dashes are at their
    places, or they are not and the ids are not valid. -/
theorem parseTraceParent_exact (tp : Str) : Exact http tp ↔ Refused tp ∨ Placed tp ∨ Harmless http tp := by
  by_cases hrefused : Refused tp
  · exact iff_of_true (exact_of_refused http hrefused) (Or.inl hrefused)
  rw [or_iff_right hrefused]
  simp only [Refused, not_or, not_lt, not_not] at hrefused
  obtain ⟨hsize, hdash, hne₁, hne₂⟩ := hrefused
  obtain ⟨d₁, h₁⟩ := Option.ne_none_iff_exists'.1 hne₁
  obtain ⟨d₂, h₂⟩ := Option.ne_none_iff_exists'.1 hne₂
  obtain ⟨hviews, hcontext⟩ := parseTraceParent_passed http hsize hdash h₁ h₂
  constructor
  · intro hexact
    have hinside := hexact.inside
    rw [hviews] at hinside
    rw [or_iff_not_imp_right]
    intro hharmful
    -- both ids are valid, so the views are those of the header
    have hvalid : http.traceIdIsValid (http.traceIdFromHex (tp.read traceIdView)) = true ∧
        http.spanIdIsValid (http.spanIdFromHex (tp.read (spanIdView d₁))) = true := by
      by_contra hnot
      refine hharmful ⟨d₁, d₂, h₁, h₂, hinside _ (by simp), hinside _ (by simp), ?_⟩
      rwa [not_and_or, Bool.not_eq_true, Bool.not_eq_true] at hnot
    rw [hvalid.1, hvalid.2] at hcontext
    obtain ⟨-, hsame, -⟩ := hexact.shape _ hcontext
    rw [hviews] at hsame
    have hd : d₁ = 35 ∧ d₂ = 52 := by simpa [traceIdView, spanIdView, flagsView] using hsame
    exact ⟨h₁.trans (congrArg some hd.1), h₂.trans (congrArg some hd.2)⟩
  · rintro (⟨h35, h52⟩ | ⟨d₁', d₂', h₁', h₂', hspan, hflags, hinvalid⟩)
    · obtain rfl : d₁ = 35 := Option.some.inj (h₁.symm.trans h35)
      obtain rfl : d₂ = 52 := Option.some.inj (h₂.symm.trans h52)
      have hsecond : tp.data 35 = dash := (Str.find_eq_some.1 h35).2.1
      have hthird : tp.data 52 = dash := (Str.find_eq_some.1 h52).2.1
      constructor
      · rw [hviews]
        simp only [List.mem_cons, List.not_mem_nil, or_false, Str.Inside]
        rintro v (rfl | rfl | rfl)
        · exact le_trans (by decide) hsize
        · exact le_trans (by decide) hsize
        · exact hsize
      · intro context hc
        rw [hcontext] at hc
        split_ifs at hc
        cases hc
        exact ⟨⟨hsize, hdash, hsecond, hthird⟩, hviews, rfl, rfl, rfl⟩
    · obtain rfl : d₁ = d₁' := Option.some.inj (h₁.symm.trans h₁')
      obtain rfl : d₂ = d₂' := Option.some.inj (h₂.symm.trans h₂')
      constructor
      · rw [hviews]
        simp only [List.mem_cons, List.not_mem_nil, or_false]
        rintro v (rfl | rfl | rfl)
        · exact le_trans (show (35 : ℕ) ≤ 55 by decide) hsize
        · exact hspan
        · exact hflags
      · intro context hc
        rw [hcontext] at hc
        rcases hinvalid with hinvalid | hinvalid <;> simp [hinvalid] at hc

/-! ## Well-formed headers -/

/-- A version, a trace id and a span id with dashes behind them, and the rest:
    the flags. -/
def header (version traceId spanId rest : List UInt8) : List UInt8 :=
  version ++ dash :: (traceId ++ dash :: (spanId ++ dash :: rest))

theorem getElem?_field {pre field post : List UInt8} {j : ℕ} (hlo : pre.length < j)
    (hhi : j < pre.length + 1 + field.length) :
    (pre ++ dash :: (field ++ post))[j]? = field[j - (pre.length + 1)]? := by
  obtain ⟨k, rfl⟩ : ∃ k, j = pre.length + 1 + k := ⟨j - (pre.length + 1), by omega⟩
  have hk : k < field.length := by omega
  rw [List.getElem?_append_right (by omega), show pre.length + 1 + k - pre.length = k + 1 by omega,
    List.getElem?_cons_succ, List.getElem?_append_left hk, Nat.add_sub_cancel_left]

theorem getElem?_dash (pre post : List UInt8) : (pre ++ dash :: post)[pre.length]? = some dash := by
  rw [List.getElem?_append_right le_rfl, Nat.sub_self, List.getElem?_cons_zero]

/-- A field without a dash, between two of them. -/
theorem find_field {field : List UInt8} (pre post : List UInt8) (h : dash ∉ field) :
    (Str.ofList (pre ++ dash :: (field ++ dash :: post))).find dash (pre.length + 1) =
      some (pre.length + 1 + field.length) := by
  refine Str.find_eq_some.2 ⟨⟨by omega, ?_⟩, ?_, ?_⟩
  · simp only [Str.ofList, List.length_append, List.length_cons]
    omega
  · have hget := getElem?_dash (pre ++ dash :: field) post
    rw [List.length_append, List.length_cons, List.append_assoc, List.cons_append] at hget
    rw [show pre.length + 1 + field.length = pre.length + (field.length + 1) by omega]
    simp only [Str.ofList, List.getD, hget, Option.getD_some]
  · intro j hlo hhi hj
    simp only [Str.ofList, List.getD] at hj
    rw [getElem?_field (by omega) hhi, List.getElem?_eq_getElem (by omega)] at hj
    exact h (hj ▸ List.getElem_mem _)

/-- **What is written with the right lengths is parsed**: `EncodeCurrentTraceParent`
    writes hexadecimal digits. -/
theorem placed_header {version traceId spanId rest : List UInt8} (hversion : version.length = 2)
    (htrace : traceId.length = 32) (hspan : spanId.length = 16) (htrace' : dash ∉ traceId) (hspan' : dash ∉ spanId) :
    Placed (Str.ofList (header version traceId spanId rest)) := by
  have h35 : dash1 (Str.ofList (header version traceId spanId rest)) = some 35 := by
    have hfind := find_field version (spanId ++ dash :: rest) htrace'
    rw [hversion, htrace] at hfind
    exact hfind
  refine ⟨h35, ?_⟩
  have hfind := find_field (version ++ dash :: traceId) rest hspan'
  rw [List.length_append, List.length_cons, hversion, htrace, hspan, List.append_assoc, List.cons_append] at hfind
  rw [dash2, h35]
  exact hfind

end

/-! ## Malformed headers -/

/-- `HexToInt` of OpenTelemetry. -/
def hexToInt (c : UInt8) : UInt8 :=
  if 48 ≤ c ∧ c ≤ 57 then c - 48
  else if 65 ≤ c ∧ c ≤ 70 then c - 55
  else if 97 ≤ c ∧ c ≤ 102 then c - 87
  else 255

/-- `HexToBinary` of OpenTelemetry, for an even number of digits. -/
def hexToBinary : List UInt8 → List UInt8
  | a :: b :: rest => (hexToInt a <<< 4 ||| hexToInt b) :: hexToBinary rest
  | _ => []

/-- The conversions of OpenTelemetry; an id is valid if it is not zero. -/
def openTelemetry : HttpTraceContext (List UInt8) (List UInt8) (List UInt8) where
  traceIdFromHex := hexToBinary
  spanIdFromHex := hexToBinary
  traceFlagsFromHex := hexToBinary
  traceIdIsValid := fun id => id.any (· ≠ 0)
  spanIdIsValid := fun id => id.any (· ≠ 0)

/-- `PushHandler::handle`: what is before and behind the first `|` of a Kafka
    message. -/
def splitMsgID (msgID : List UInt8) : List UInt8 × List UInt8 :=
  match msgID.findIdx? (· == 124) with
  | some sep => (msgID.take sep, msgID.drop (sep + 1))
  | none => ([], msgID)

/-- **Every string without `|` reaches the parser.** -/
theorem splitMsgID_append {tp serverMsgID : List UInt8} (h : 124 ∉ tp) :
    splitMsgID (tp ++ 124 :: serverMsgID) = (tp, serverMsgID) := by
  have hnone : tp.findIdx? (· == 124) = none := by
    rw [List.findIdx?_eq_none_iff]
    intro c hc
    rw [beq_eq_false_iff_ne]
    rintro rfl
    exact h hc
  simp [splitMsgID, List.findIdx?_append, hnone, List.findIdx?_cons]

/-- `00-`, 50 letters and two dashes. -/
def lateDashes : List UInt8 := [48, 48, dash] ++ List.replicate 50 97 ++ [dash, dash]

/-- `00-`, 7 letters, a dash, 16 letters, a dash, and 27 letters. -/
def earlyDashes : List UInt8 :=
  [48, 48, dash] ++ List.replicate 7 97 ++ [dash] ++ List.replicate 16 98 ++ [dash] ++ List.replicate 27 99

/-- The views behind late dashes are outside the string, and early dashes make
    a valid context of a header of the wrong shape. -/
theorem parseTraceParent_malformed :
    ¬ Exact openTelemetry (Str.ofList lateDashes) ∧ ¬ Exact openTelemetry (Str.ofList earlyDashes) ∧
      splitMsgID (lateDashes ++ 124 :: [109]) = (lateDashes, [109]) := by
  refine ⟨fun h => ?_, fun h => ?_, by decide⟩
  · have hinside : (Str.ofList lateDashes).Inside ⟨54, 16⟩ := h.inside _ (by decide)
    revert hinside
    unfold Str.Inside
    decide
  · obtain ⟨context, hc⟩ : ∃ context, (parseTraceParent openTelemetry (Str.ofList earlyDashes)).context = some context :=
      Option.isSome_iff_exists.1 (by decide)
    have hsecond := (h.shape context hc).1.second
    revert hsecond
    decide

end ApeServer.Otel
