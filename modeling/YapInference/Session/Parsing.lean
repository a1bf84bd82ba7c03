import YapInference.History.Controller
import YapInference.Lib.Lines

/-!
# Client histories

`src/handlers/session/parsing.py`: the two parsers a start message uses, and the one that
reads a rendered transcript back.
-/

namespace YapInference

open Py

/-- `_validate_message_item`: the normalised role and content of a usable item. -/
def validateMessageItem (lower : Lower) : Json → Option (Text × Text)
  | .obj d =>
      match Json.get? d "role".toList, Json.get? d "content".toList with
      | some (.str role), some (.str content) =>
          let normalizedRole := lower (strip role)
          let normalizedContent := strip content
          if normalizedRole.isEmpty || normalizedContent.isEmpty then none
          else some (normalizedRole, normalizedContent)
      | _, _ => none
  | _ => none

/-- `_append_chat_message`. -/
def parseAppendChatMessage (messages : List ChatMessage) (role content : Text) :
    List ChatMessage :=
  let normalizedContent := strip content
  match normalizeChatRole role with
  | none => messages
  | some normalizedRole =>
      if normalizedContent.isEmpty then messages
      else pushChatMessage messages { role := normalizedRole, content := normalizedContent }

/-- `parse_history_for_chat`. -/
def parseHistoryForChat (lower : Lower) (messages : List Json) : List ChatMessage :=
  (messages.filterMap (validateMessageItem lower)).foldl
    (fun parsed item => parseAppendChatMessage parsed item.1 item.2) []

/-- `parse_history_for_tool`: the user items, under ids of their own. -/
def parseHistoryForTool (lower : Lower) (freshId : Nat → TurnId) (messages : List Json) :
    List HistoryTurn :=
  ((messages.filterMap (validateMessageItem lower)).filter
      (fun item => item.1 = "user".toList)).mapIdx fun i item =>
    { turnId := freshId i, user := item.2, assistant := [] }

/-- The loop state of `parse_history_text`. -/
structure TranscriptState where
  messages : List ChatMessage
  currentRole : Option Text
  currentLines : List Text

/-- `_flush` inside `parse_history_text`. -/
def TranscriptState.flush (s : TranscriptState) : TranscriptState :=
  match s.currentRole with
  | none => { s with currentRole := none, currentLines := [] }
  | some currentRole =>
      if s.currentLines.isEmpty then { s with currentRole := none, currentLines := [] }
      else
        { messages :=
            parseAppendChatMessage s.messages currentRole (strip (join ['\n'] s.currentLines))
          currentRole := none
          currentLines := [] }

/-- One line of the loop in `parse_history_text`. -/
def TranscriptState.readLine (s : TranscriptState) (line : Text) : TranscriptState :=
  if startsWith line "User:".toList then
    { s.flush with currentRole := some "user".toList, currentLines := [lstrip (line.drop 5)] }
  else if startsWith line "Assistant:".toList then
    { s.flush with currentRole := some "assistant".toList, currentLines := [lstrip (line.drop 10)] }
  else if s.currentRole.isSome then { s with currentLines := s.currentLines ++ [line] }
  else if !(strip line).isEmpty then
    -- a text without a label is the user's
    { s with currentRole := some "user".toList, currentLines := [line] }
  else s

/-- `parse_history_text`. -/
def parseHistoryText (historyText : Text) : List ChatMessage :=
  let text := strip historyText
  if text.isEmpty then []
  else ((splitLines text).foldl TranscriptState.readLine ⟨[], none, []⟩).flush.messages

/-- A parsed message as an import takes it. -/
def ChatMessage.toImported (m : ChatMessage) : ImportedMessage :=
  { role := m.role.name, content := m.content }

end YapInference
