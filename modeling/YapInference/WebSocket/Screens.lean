import YapInference.WebSocket.Connection

/-!
# Screen follow-ups

A turn whose tool decision asks for a screenshot is sent to the model behind the CHECK SCREEN
prefix, and the session notes that the next message comes with the screenshot
(`_resolve_user_utterance_for_chat` of `src/execution/executor.py`). `_build_message_turn_plan` of
`src/messages/message.py` reads the note, and the turn of that message is sent behind the SCREEN
CHECKED prefix, unless its own decision asks for a screenshot again. In between, turns can be
cancelled at any await, their decision made or not.

`ScreenEvent` is what of this can be told from outside, and `nextFollowup` what it is for.
-/

namespace YapInference

/-- What a turn does about the screen. -/
inductive ScreenEvent where
  /-- It was planned, as the follow-up of a screenshot or not. -/
  | planned (followup : Bool)
  /-- Planned so, it has its tool decision, and the client was sent it. -/
  | decided (followup isTool : Bool)
  deriving DecidableEq

/-- **What the note is for**: a turn is a follow-up, when it is planned and still when it is
decided, exactly if the last decision asked for a screenshot. -/
def nextFollowup (pending : Bool) : ScreenEvent → Option Bool
  | .planned followup => if followup = pending then some pending else none
  | .decided followup isTool => if followup = pending then some isTool else none

/-- The decision a task acts on in a step: `_send_toolcall_status` returned. -/
def TaskPhase.decides {S : Sanitizer} (plan : TurnPlan) (phase : TaskPhase S) (event : TaskEvent) :
    List ScreenEvent :=
  match phase, event with
  | .sendingTool isTool, .chain event _ =>
      match (Conn.sendResult event).map safeSendText with
      | some (.ok _) =>
          if plan.deployChat && plan.deployTool then
            [.decided plan.applyScreenCheckedPrefix isTool]
          else []
      | _ => []
  | _, _ => []

/-- The turn that is planned in a step. -/
def Conn.plansTurn {S : Sanitizer} (c c' : Conn S) : List ScreenEvent :=
  match c.phase, c'.phase with
  | .beginning _, _ => []
  | _, .beginning plan => [.planned plan.applyScreenCheckedPrefix]
  | _, _ => []

/-- What the turns do about the screen in a step. -/
def Conn.screenEvents (deps : Deps) (c : Conn deps.sanitizer) (label : Label)
    (c' : Conn deps.sanitizer) : List ScreenEvent :=
  match label with
  | .task id event =>
      match c.tasks[id]? with
      | some t => t.phase.decides t.plan event
      | none => []
  | _ => c.plansTurn c'

end YapInference
