import YapInference.Tokens

/-!
# Chat prompt construction

`src/execution/chat/template_builder.py`. The tokenizer's own template is used when
it has one; a `RuntimeError` or `ValueError` from it selects the ChatML fallback, and
any other exception escapes.
-/

namespace YapInference

open Py

/-- `_append_message` inside `_build_messages`. -/
def appendTemplateMessage (messages : List TemplateMessage) (role content : Text) :
    List TemplateMessage :=
  let content := strip content
  if content.isEmpty then messages
  else
    match messages.getLast? with
    | some last =>
        if last.role = role then
          messages.dropLast ++ [{ last with content := last.content ++ "\n\n".toList ++ content }]
        else messages ++ [{ role := role, content := content }]
    | none => [{ role := role, content := content }]

/-- The role name a stored message has on the wire and in a template. -/
def Role.name : Role → Text
  | .user => "user".toList
  | .assistant => "assistant".toList

/-- `_build_messages`. -/
def buildMessages (systemPrompt : Text) (historyMessages : List ChatMessage)
    (chatUserUtt : Option Text) : List TemplateMessage :=
  let system := if (strip systemPrompt).isEmpty then []
    else [{ role := "system".toList, content := strip systemPrompt }]
  let messages := historyMessages.foldl
    (fun acc message => appendTemplateMessage acc message.role.name message.content) system
  match chatUserUtt with
  | none => messages
  | some utt => appendTemplateMessage messages Role.user.name utt

/-- `_build_chatml_prompt_from_messages`. -/
def buildChatmlPromptFromMessages (messages : List TemplateMessage) (addGenerationPrompt : Bool) :
    Text :=
  let lines := messages.flatMap fun msg =>
    ["<|im_start|>".toList ++ msg.role, msg.content, "<|im_end|>".toList]
  join ['\n'] (if addGenerationPrompt then lines ++ ["<|im_start|>assistant".toList] else lines)

/-- `_apply_chat_template`. -/
def applyChatTemplate (chatTokenizer : HfTokenizer) (messages : List TemplateMessage)
    (addGenerationPrompt : Bool) : Except Exc Text :=
  match chatTokenizer.applyChatTemplate messages addGenerationPrompt with
  | .ok prompt => .ok prompt
  | .error (.runtimeError _) | .error (.valueError _) =>
      .ok (buildChatmlPromptFromMessages messages addGenerationPrompt)
  | .error e => .error e

/-- `_compose_system_prompt`. -/
def composeSystemPrompt (staticPrefix runtimeText : Text) : Text :=
  join "\n\n".toList (([staticPrefix, runtimeText].map strip).filter fun s => !s.isEmpty)

/-- `build_chat_prompt_with_prefix`. -/
def buildChatPromptWithPrefix (staticPrefix runtimeText : Text)
    (historyMessages : List ChatMessage) (chatUserUtt : Text) (chatTokenizer : HfTokenizer) :
    Except Exc Text :=
  applyChatTemplate chatTokenizer
    (buildMessages (composeSystemPrompt staticPrefix runtimeText) historyMessages
      (some chatUserUtt)) true

end YapInference
