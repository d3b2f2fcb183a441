/-
  The preview of a message that the migration of the conversations stores
  (`summary` of `scripts/migrate_conversations.py`), beside that of the server.

  The server cuts the bytes of a text, and walks back to the beginning of a
  character; the script decodes the bytes that are left of a cut, and ignores
  what is no character.

  * `previewText_encode`: where the loop of the server stops;
  * `preview_agrees`: both keep the characters that fit into 512 bytes.
-/
import ApeServer.Lib.Utf8Decode
import ApeServer.Preview

namespace ApeServer

open Utf8

/-- `text.encode("utf-8")[:512].decode("utf-8", errors="ignore")`. -/
def summaryText (text : List Char) : List Char := decodeIgnore ((encode text).take 512)

/-- `preview` of `summary`.  `loads` is the text in `content` of the JSON object
    that is read, if there is one, and `dumps` prints such an object. -/
def summaryPreview (loads : List Char → Option (List Char)) (dumps : List Char → String) (contentType : Int)
    (text : List Char) : String :=
  if contentType = 101 then dumps (summaryText ((loads text).getD text))
  else "[message type " ++ toString contentType ++ "]"

variable {text : List Char}

/-! ## The loop of the server -/

theorem previewEnd_le (text : Bytes) (n : ℕ) : previewEnd text n ≤ n := by
  induction n with
  | zero => exact le_rfl
  | succ n ih =>
    unfold previewEnd
    split
    · split_ifs
      · exact ih.trans n.le_succ
      · exact le_rfl
    · exact le_rfl

/-- The loop passes no place where no continuation byte stands. -/
theorem le_previewEnd {text : Bytes} {n e : ℕ} (he : e ≤ n)
    (hcut : ∀ b, text[e]? = some b → isContinuation b = false) : e ≤ previewEnd text n := by
  induction n with
  | zero => exact he
  | succ n ih =>
    unfold previewEnd
    split
    · next b hb =>
      split_ifs with hcont
      · refine ih (Nat.le_of_lt_succ (lt_of_le_of_ne he ?_))
        rintro rfl
        have hno := hcut b hb
        simp [isContinuation, hcont] at hno
      · exact he
    · exact he

/-- **Where the loop stops**: after the characters that fit. -/
theorem previewText_encode (text : List Char) : previewText (encode text) = encode (fit 512 text) := by
  have hpre : encode (fit 512 text) <+: encode text := encode_isPrefix_iff.2 (fit_isPrefix 512 text)
  -- the loop goes no further back than the last cut between two characters
  have hback : (encode (fit 512 text)).length ≤ previewEnd (encode text) (min (encode text).length 512) :=
    le_previewEnd (le_min hpre.length_le (length_encode_fit 512 text))
      fun _ hb => not_isContinuation_after (fit_isPrefix 512 text) hb
  -- and what it keeps are whole characters, no more than fit
  have hvalid : previewText (encode text) <+: encode (fit 512 text) := by
    refine (valid_previewText (valid_encode text)).isPrefix_fit ⟨_, List.take_append_drop _ _⟩ ?_
    rw [previewText, List.length_take]
    exact (min_le_left _ _).trans ((previewEnd_le _ _).trans (min_le_right _ _))
  refine hvalid.eq_of_length_le ?_
  rw [previewText, List.length_take]
  exact le_min hback hpre.length_le

/-! ## Agreement -/

/-- Of a message that is no text both show the type. -/
theorem summaryPreview_other {J : Codec} {m : MsgData} (h : m.contentType ≠ 101)
    (loads : List Char → Option (List Char)) (dumps : List Char → String) (content : List Char) :
    conversationPreview J m = some (summaryPreview loads dumps m.contentType content) := by
  unfold conversationPreview summaryPreview
  rw [if_pos h, if_neg h]

/-- The previews of a text, of the server and of the migration. -/
structure PreviewAgrees (text : List Char) : Prop where
  /-- `previewText` is what the preview of the server shows of the text -/
  server : ∀ J m, m.contentType = 101 → (J.contentField m.content).getD m.content = encode text →
    conversationPreview J m = J.dumpContent (previewText (encode text))
  /-- and `summaryText` what the script's does -/
  script : ∀ loads dumps content, (loads content).getD content = text →
    summaryPreview loads dumps 101 content = dumps (summaryText text)
  valid : Valid (previewText (encode text))
  size : (previewText (encode text)).length ≤ 512
  /-- it ends between two characters -/
  boundary : ∃ k, previewText (encode text) = encode (text.take k)
  longest : ∀ bs, bs <+: encode text → Valid bs → bs.length ≤ 512 → bs <+: previewText (encode text)
  same : encode (summaryText text) = previewText (encode text)

/-- **The server and the migration keep the same part of a text**, the longest
    one of whole characters in 512 bytes. -/
theorem preview_agrees (text : List Char) : PreviewAgrees text where
  server J m ht hc := by
    unfold conversationPreview
    rw [if_neg (not_not.2 ht), hc]
    rfl
  script loads dumps content hc := by rw [summaryPreview, if_pos rfl, hc]
  valid := valid_previewText (valid_encode text)
  size := by
    rw [previewText_encode]
    exact length_encode_fit 512 text
  boundary := by
    rw [previewText_encode]
    exact ⟨_, congrArg encode (List.prefix_iff_eq_take.1 (fit_isPrefix 512 text))⟩
  longest bs hp hv hn := by
    rw [previewText_encode]
    exact hv.isPrefix_fit hp hn
  same := by rw [previewText_encode, summaryText, decodeIgnore_take]

end ApeServer
