import YapInference.Text.Filters

/-!
# Sanitizing prompts

`src/text/prompt.py`: the one-shot cleanup of what a client sends as a prompt or a prefix.
Mojibake repair and Unicode normalisation come from libraries, so they are parameters.
-/

namespace YapInference

open Py

/-- The third-party text functions prompt sanitization calls. -/
structure PromptText where
  /-- `ftfy.fix_text`. -/
  fixText : Text → Text
  /-- `unicodedata.normalize("NFKC", …)`. -/
  nfkc : Text → Text

/-- The class `CTRL_CHAR_PATTERN` deletes. -/
def isCtrlChar (c : Char) : Bool :=
  let n := c.toNat
  n ≤ 8 || (0x0B ≤ n && n ≤ 0x0C) || (0x0E ≤ n && n ≤ 0x1F) || n == 0x7F

/-- The class `BIDI_CHAR_PATTERN` deletes. -/
def isBidiChar (c : Char) : Bool :=
  let n := c.toNat
  (0x202A ≤ n && n ≤ 0x202E) || (0x2066 ≤ n && n ≤ 0x2069) || n == 0x200E || n == 0x200F
    || n == 0x061C

/-- `sanitize_prompt` of a string; the error is the text of its `ValueError`. -/
def sanitizePrompt (pt : PromptText) (raw : Text) (maxChars : Option Nat) : Except Text Text :=
  let text := pt.nfkc (pt.fixText raw)
  let text := (text.filter fun c => !isCtrlChar c).filter fun c => !isBidiChar c
  let text := strip (stripEscapedQuotes text)
  if text.isEmpty then .error "prompt is empty after sanitization".toList
  else if maxChars.any (fun m => decide (m < text.length)) then .error "prompt too large".toList
  else .ok text

end YapInference
