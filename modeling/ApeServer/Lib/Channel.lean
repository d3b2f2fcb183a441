/-
  Channels: what goes in comes out in order.

  A channel holds a list; a step puts something in at the end and takes
  something out at the front (`Channel.Passes`).  A channel may break: what is
  in it is then lost from the end, and nothing that goes in comes out.

  * `Machine.Trace.flow`: what some steps of a run put in, or take out;
  * `Machine.Trace.passes`: what has come out, and what is in the channel, is
    what has gone in, or the beginning of it once the channel is broken.
-/
import ApeServer.Lib.Run

namespace Channel

variable {β : Type} {broken broken' : Prop} {c c' puts takes : List β}

/-- A step of a channel with `c` in it, which is `broken` or not: it puts
    `puts` in, takes `takes` out, and leaves `c'`. -/
structure Passes (broken broken' : Prop) (c puts takes c' : List β) : Prop where
  /-- a broken channel stays broken -/
  stays : broken → broken'
  whole : ¬ broken' → c ++ puts = takes ++ c'
  breaks : takes ++ c' <+: c ++ puts
  after : broken → takes ++ c' <+: c

/-- Nothing goes in or out, and the channel may break. -/
theorem Passes.idle (hs : broken → broken') (hc : ¬ broken' → c' = c) (hp : c' <+: c) :
    Passes broken broken' c [] [] c' where
  stays := hs
  whole h := by simp [hc h]
  breaks := by simpa using hp
  after _ := by simpa using hp

/-- Something goes into a channel that is not broken. -/
theorem Passes.put (hs : ¬ broken) : Passes broken broken' c puts [] (c ++ puts) where
  stays h := absurd h hs
  whole _ := rfl
  breaks := List.prefix_refl _
  after h := absurd h hs

/-- Something is taken out. -/
theorem Passes.take (hs : broken → broken') (hc : ¬ broken' → c = takes ++ c') (hp : takes ++ c' <+: c) :
    Passes broken broken' c [] takes c' where
  stays := hs
  whole h := by simp [hc h]
  breaks := by simpa using hp
  after _ := hp

end Channel

namespace Machine.Trace

variable {σ α ε β : Type} {step : σ → α → Option (σ × List ε)} {init : σ} (T : Trace step init)

/-- What the steps before `i` make, by their action and outputs. -/
def flow (f : α → List ε → List β) (i : ℕ) : List β :=
  (List.range i).flatMap fun k => f (T.act k) (T.out k)

@[simp] theorem flow_zero (f : α → List ε → List β) : T.flow f 0 = [] := rfl

theorem flow_succ (f : α → List ε → List β) (i : ℕ) :
    T.flow f (i + 1) = T.flow f i ++ f (T.act i) (T.out i) := by
  simp [flow, List.range_succ]

theorem flow_prefix (f : α → List ε → List β) {i j : ℕ} (h : i ≤ j) : T.flow f i <+: T.flow f j := by
  induction j, h using Nat.le_induction with
  | base => exact List.prefix_refl _
  | succ j _ ih =>
    rw [flow_succ]
    exact ih.trans (List.prefix_append _ _)

/-- **The run of a channel**: what has come out with what is in the channel is
    the beginning of what has gone in, and all of it unless it is broken. -/
theorem passes (broken : σ → Prop) (content : σ → List β) (puts takes : α → List ε → List β)
    (h₀ : content init = [])
    (hs : ∀ i < T.len, Channel.Passes (broken (T.state i)) (broken (T.state (i + 1))) (content (T.state i))
      (puts (T.act i) (T.out i)) (takes (T.act i) (T.out i)) (content (T.state (i + 1))))
    {i : ℕ} (hi : i ≤ T.len) :
    T.flow takes i ++ content (T.state i) <+: T.flow puts i ∧
      (¬ broken (T.state i) → T.flow takes i ++ content (T.state i) = T.flow puts i) := by
  induction i with
  | zero => simp [T.start, h₀]
  | succ i ih =>
    obtain ⟨hp, hw⟩ := ih (by omega)
    have hi := hs i hi
    rw [flow_succ, flow_succ, List.append_assoc]
    have hput : T.flow puts i <+: T.flow puts i ++ puts (T.act i) (T.out i) := List.prefix_append _ _
    refine ⟨?_, fun hb => ?_⟩
    · by_cases hb : broken (T.state i)
      · -- what goes in from now on does not come out
        exact ((List.prefix_append_right_inj _).2 (hi.after hb)).trans (hp.trans hput)
      · rw [← hw hb, List.append_assoc]
        exact (List.prefix_append_right_inj _).2 hi.breaks
    · rw [← hi.whole hb, ← List.append_assoc, hw fun h => hb (hi.stays h)]

end Machine.Trace
