import YapInference.State

/-!
# `stream_chat_response`

`src/handlers/websocket/helpers.py`, as the machine its awaits make of it. The body
suspends in two places, pulling the next chunk and sending a frame, so a run of it is
a sequence of what those awaits came back with. `StreamPhase` is where it is
suspended; the `on…` functions are the code between two awaits, each ending at the
next one.

The stream it consumes and the socket it writes to are both arbitrary here: any
chunk, any exception and a cancellation may arrive at any await.
-/

namespace YapInference

open Py

/-- `safe_send_text`: only a `WebSocketDisconnect` becomes `False`. -/
def safeSendText : SendResult → Except Raised Bool
  | .ack => .ok true
  | .gone => .ok false
  | .failed .webSocketDisconnect => .ok false
  | .failed e => .error (.exc e)
  | .cancelled => .error .cancelledError

/-- How the coroutine ended: it returned a text, or unwound. -/
inductive StreamOutcome where
  | returned (finalText : Text)
  | raised (r : Raised)
  deriving DecidableEq

/-- The awaits of `stream_chat_response`. -/
inductive StreamPhase where
  /-- In `_send_initial_text`. -/
  | sendInitial
  /-- In `_forward_stream_chunks`, pulling from the stream. -/
  | nextChunk
  /-- In `_forward_stream_chunks`, sending a token. -/
  | sendToken (chunk : Text)
  /-- In `_handle_empty_output`. -/
  | sendEmptyOutput
  /-- In `_send_completion_frames`, on the first frame. -/
  | sendFinal
  /-- In `_send_completion_frames`, on the second. -/
  | sendDone
  | ended (outcome : StreamOutcome)
  deriving DecidableEq

/-- `stream_chat_response` in progress. -/
structure StreamRun where
  state : ChatStreamState
  phase : StreamPhase
  /-- `history_user`. -/
  historyUser : Text
  historyCommitted : Bool
  /-- The arguments of the `append_chat_turn` calls made so far. -/
  appends : List (Text × Text)
  /-- The frames whose send has come back, with what it came back with. -/
  sends : List (Frame × SendResult)
  deriving DecidableEq

/-- The frame of `_handle_empty_output`. -/
def emptyOutputFrame : Frame :=
  .error 500 "internal_error".toList "Model produced no output".toList

namespace StreamRun

/-- The call, up to its first await. -/
def start (historyUser initialText : Text) (initialTextAlreadySent : Bool) : StreamRun where
  state := {
    finalText := initialText
    textVisible := !initialText.isEmpty && initialTextAlreadySent
    interrupted := false }
  phase := if initialText.isEmpty || initialTextAlreadySent then .nextChunk else .sendInitial
  historyUser := historyUser
  historyCommitted := false
  appends := []
  sends := []

/-- The call as every caller makes it, without an initial text. -/
def init (historyUser : Text) : StreamRun := start historyUser [] true

/-- `_should_commit_visible_history`. -/
def shouldCommitVisibleHistory (state : ChatStreamState) : Bool :=
  state.textVisible && !state.finalText.isEmpty

/-- `_commit_history_once`. -/
def commitHistoryOnce (run : StreamRun) : StreamRun :=
  if run.historyCommitted || !shouldCommitVisibleHistory run.state then run
  else
    { run with
      appends := run.appends ++ [(run.historyUser, run.state.finalText)]
      historyCommitted := true }

/-- Leave through one of the three exits that commit. -/
def leave (run : StreamRun) (outcome : StreamOutcome) : StreamRun :=
  { run.commitHistoryOnce with phase := .ended outcome }

/-- A send that found the socket gone: `state.interrupted = True`, and out. -/
def interrupt (run : StreamRun) : StreamRun :=
  leave { run with state := { run.state with interrupted := true } }
    (.returned run.state.finalText)

/-- The frame being sent in a phase. -/
def pendingFrame (run : StreamRun) : Option Frame :=
  match run.phase with
  | .sendInitial => some (.token run.state.finalText)
  | .sendToken chunk => some (.token chunk)
  | .sendEmptyOutput => some emptyOutputFrame
  | .sendFinal => some (.final 200 run.state.finalText)
  | .sendDone => some (.done 200)
  | .nextChunk | .ended _ => none

/-- Every frame handed to the socket so far, the one in flight included. -/
def attempted (run : StreamRun) : List Frame := run.sends.map Prod.fst ++ run.pendingFrame.toList

/-- The stream yielded a chunk. -/
def onChunk (run : StreamRun) (chunk : Text) : StreamRun := { run with phase := .sendToken chunk }

/-- The stream is exhausted. -/
def onExhausted (run : StreamRun) : StreamRun :=
  { run with phase := if run.state.finalText.isEmpty then .sendEmptyOutput else .sendFinal }

/-- The stream raised. -/
def onRaised (run : StreamRun) (r : Raised) : StreamRun := run.leave (.raised r)

/-- What follows a send that returned `True`. -/
def onAck (run : StreamRun) : StreamRun :=
  match run.phase with
  | .sendInitial =>
      { run with state := { run.state with textVisible := true }, phase := .nextChunk }
  | .sendToken chunk =>
      { run with
        state := { run.state with finalText := run.state.finalText ++ chunk, textVisible := true }
        phase := .nextChunk }
  | .sendEmptyOutput => { run with phase := .ended (.returned run.state.finalText) }
  | .sendFinal => { run with phase := .sendDone }
  | .sendDone => run.leave (.returned run.state.finalText)
  | .nextChunk | .ended _ => run

/-- What follows a send that returned `False`: `_handle_empty_output` does not look. -/
def onGone (run : StreamRun) : StreamRun :=
  match run.phase with
  | .sendEmptyOutput => { run with phase := .ended (.returned run.state.finalText) }
  | _ => run.interrupt

/-- The send in flight came back. -/
def onSent (run : StreamRun) (result : SendResult) : StreamRun :=
  let run := { run with sends := run.sends ++ run.pendingFrame.toList.map (·, result) }
  match safeSendText result with
  | .ok true => run.onAck
  | .ok false => run.onGone
  | .error r => run.leave (.raised r)

end StreamRun

/-- What an await of `stream_chat_response` comes back with. -/
inductive StreamEvent where
  | chunk (text : Text)
  | exhausted
  | raised (r : Raised)
  | sent (result : SendResult)
  deriving DecidableEq

/-- One step of the machine, to its next await. -/
def StreamRun.step (run : StreamRun) (event : StreamEvent) : Option StreamRun :=
  match event, run.phase with
  | .chunk text, .nextChunk => some (run.onChunk text)
  | .exhausted, .nextChunk => some run.onExhausted
  | .raised r, .nextChunk => some (run.onRaised r)
  | .sent result, _ => if run.pendingFrame.isSome then some (run.onSent result) else none
  | _, _ => none

end YapInference
