import YapInference.Tokens
import YapInference.State

/-!
# Expected disconnects

`src/handlers/websocket/disconnects.py`.
-/

namespace YapInference

open Py

/-- `fragment in text`. -/
def containsText (text fragment : Text) : Bool := text.tails.any (fragment.isPrefixOf ·)

/-- `WS_EXPECTED_DISCONNECT_RUNTIME_FRAGMENTS`. -/
def wsExpectedDisconnectRuntimeFragments : List Text :=
  ["websocket is not connected".toList, "disconnect message has been received".toList]

/-- `is_expected_ws_disconnect`. -/
def isExpectedWsDisconnect (lower : Lower) : Exc → Bool
  | .webSocketDisconnect | .connectionClosed | .connectionResetError | .brokenPipeError
  | .eofError | .brokenResourceError | .closedResourceError | .endOfStream => true
  | .runtimeError message =>
      wsExpectedDisconnectRuntimeFragments.any (containsText (lower (strip message)))
  | _ => false

end YapInference
