import YapInference.Execution.Executor
import YapInference.Messages.Message
import YapInference.Proof.ChatStore
import YapInference.Proof.PromptFit
import YapInference.Proof.SessionFrame
import YapInference.Proof.StreamRun

/-!
# A shown reply is recorded

What the user said is stripped of a screen prefix when the turn is planned, may get the
server's own prefix before the model sees it, is cut to the budget, and is stripped
again on the way to the history, once before streaming and once at the commit. The
reply is recorded under whatever is left, and not at all when nothing is.
-/

namespace YapInference

open Py Split

/-- Two session states with the same screen prefixes in force. -/
def SamePrefixes (a b : SessionState) : Prop :=
  a.metadata.checkScreenPrefix = b.metadata.checkScreenPrefix
    ∧ a.metadata.screenCheckedPrefix = b.metadata.screenCheckedPrefix

theorem stripScreenPrefixes_congr (sh : SessionHandler) {a b : SessionState}
    (h : SamePrefixes a b) (text : Text) :
    sh.stripScreenPrefixes a text = sh.stripScreenPrefixes b text := by
  simp [SessionHandler.stripScreenPrefixes, resolveScreenPrefix, h.1, h.2]

theorem appendChatMessageToList_push (h : HistoryController) (hchat : h.config.deployChat = true)
    (ms : List ChatMessage) (role : Role) {content : Text} (hc : strip content ≠ []) :
    h.appendChatMessageToList ms role.name content
      = pushChatMessage ms { role := role, content := strip content } := by
  simp [HistoryController.appendChatMessageToList, hc, hchat]

end YapInference
