import YapInference.Tokens

/-!
# The tool adapter and its backend

`_format_input` of `src/tool/adapter.py`, and what `src/tool/backend.py` makes of a text. The
model itself is third-party; what it is given of a text is the part its tokenizer leaves.
-/

namespace YapInference

open Py

/-- `ToolAdapter._format_input`. -/
def formatInput (toolUserUtt toolUserHistory : Text) : Text :=
  join ['\n'] ([strip toolUserHistory, strip toolUserUtt].filter fun p => !p.isEmpty)

/-- `TorchToolBackend`, as far as it decides what the model sees. -/
structure TorchToolBackend where
  tokenizer : HfTokenizer
  /-- `_max_length`. -/
  maxLength : Int
  /-- The ids of a text that are left when the tokenizer is called with `truncation=True` and this
  `max_length`. -/
  truncated : Text → Int → List Nat
  /-- `truncation_side` is `"left"`: from the front go as many as the encoding, special tokens
  included, is too long by. -/
  truncated_left : ∀ text n,
    truncated text n = (tokenizer.encodeIds text).drop ((tokenizer.encode text true).length - n).toNat

/-- The ids of a text that `TorchToolBackend.infer` shows the model. -/
def TorchToolBackend.inputIds (backend : TorchToolBackend) (text : Text) : List Nat :=
  backend.truncated text backend.maxLength

end YapInference
