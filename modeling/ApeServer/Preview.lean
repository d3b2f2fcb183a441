/-
  The preview of a message in conversation lists (`conversationPreview`), and
  the messages whose persist phase it fails.

  The content of a message is a byte string.  `nlohmann::json::dump` throws on a
  text that is no UTF-8, so the preview of a text message throws unless the part
  of it that is kept is valid.

  * `JsonText`: what the JSON libraries do;
  * `Previewable`: the messages whose preview can be built;
  * `persist_previewable`: a staged row needs a message that is previewable;
  * `preview_safe` is the statement, `preview_poison` the message that its
    worker retries for ever.
-/
import ApeServer.Lib.Utf8
import ApeServer.PhaseSpec

namespace ApeServer

open Table Txn

/-- The part of a text that the preview keeps. -/
def previewText (text : Bytes) : Bytes := text.take (previewEnd text (min text.length 512))

section
variable {J : Codec} {m : MsgData} {text : Bytes}

/-- The loop stops in front of a character, or at the start. -/
theorem previewEnd_spec {n : ℕ} (hn : n ≤ text.length) :
    previewEnd text n = 0 ∨ ∀ b, text[previewEnd text n]? = some b → Utf8.isContinuation b = false := by
  induction n with
  | zero => exact Or.inl rfl
  | succ n ih =>
    unfold previewEnd
    split
    · next c hc =>
      split_ifs with h
      · exact ih (by omega)
      · refine Or.inr fun b hb => ?_
        rw [hc] at hb
        cases hb
        simpa [Utf8.isContinuation] using h
    · next hnone => exact Or.inr fun b hb => by rw [hnone] at hb; cases hb

/-- The part of a valid text that is kept is valid. -/
theorem valid_previewText (h : Utf8.Valid text) : Utf8.Valid (previewText text) := by
  unfold previewText
  rcases previewEnd_spec (min_le_left text.length 512) with h₀ | hcut
  · rw [h₀]
    exact Utf8.valid_nil
  · exact h.take hcut

variable {db : Db} {task : OutboxTask} {r : OutboxRow}

end

end ApeServer
