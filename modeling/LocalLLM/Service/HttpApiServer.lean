/-
The streaming RPC of the HTTP server (`service/HttpApiServer.cpp`, `rpc`).

# Threads

The handler of a request dispatches it, builds the `accepted` frame, and
leaves a provider behind that the server calls until the response is done.
Events arrive on any thread, from the moment `dispatch` has been entered.
The parts under the mutex are single steps, and so is every read of the
result and every write to the client; `RpcAction` says whose step it is.

A handler obeys `service/Rpc.h`: once the result is ready, it delivers no
event. So the step of an event asks for a result that is not ready.

The fields `delivered` and `interrupted` have no counterpart in the source.
They list the events the handler has delivered, in order, and say whether
a check has found the server stopping, the client gone or the deadline
past.
-/
import LocalLLM.Core.Types
import LocalLLM.Lib.System

namespace LocalLLM

open Json

/-- `statusFor`. -/
def statusFor : ErrorCode → Int
  | .Unauthorized => 401
  | .InvalidArgument => 400
  | .InvalidManifest => 400
  | .ContextOverflow => 400
  | .NotFound => 404
  | .AlreadyExists => 409
  | .ModelInUse => 409
  | .QueueFull => 429
  | .ResourceLimit => 429
  | .Timeout => 504
  | .RuntimeUnavailable => 503
  | .ShuttingDown => 503
  | .Cancelled => 499
  | _ => 500

/-- `errorObject`. -/
def errorObject (code : ErrorCode) (message : QString) : JsonObject :=
  ofMembers [(qs "error", .object (ofMembers [(qs "message", .string message),
    (qs "type",
      .string (qs (if statusFor code < 500 then "invalid_request_error"
      else "server_error"))),
    (qs "param", .null), (qs "code", .string code.enumName)]))]

/-- A frame of an event stream: an object behind `data: `, or the last one,
`data: [DONE]`. -/
inductive SseFrame
  | data (value : JsonObject)
  | done
deriving DecidableEq

/-- `json(object).size()`, and the limit of the options. -/
structure HttpOptions where
  jsonSize : JsonObject → Nat
  maxBufferedOutputBytes : Int
  limit_pos : 0 < maxBufferedOutputBytes

/-- The bytes of a frame, with `data: ` before it and the empty line behind. -/
def HttpOptions.frameSize (h : HttpOptions) : SseFrame → Nat
  | .data value => h.jsonSize value + 8
  | .done => 14

/-- The bytes of frames. -/
def HttpOptions.framesSize (h : HttpOptions) (frames : List SseFrame) : Nat :=
  (frames.map h.frameSize).sum

/-- The exceptions of `check`. -/
inductive Interruption
  | stopping
  | disconnected
  | deadline
deriving DecidableEq

/-- What `check` throws. -/
def Interruption.error : Interruption → Error
  | .stopping => ⟨.ShuttingDown, qs "HTTP server is stopping"⟩
  | .disconnected => ⟨.Cancelled, qs "HTTP client disconnected"⟩
  | .deadline => ⟨.Timeout, qs "HTTP request deadline exceeded"⟩

namespace Rpc

/-- What a request is answered under. -/
structure Envelope where
  id : QString
  requestId : QString

/-- `envelope`. -/
def Envelope.members (e : Envelope) : JsonObject :=
  ofMembers [(qs "id", .string e.id), (qs "request_id", .string e.requestId)]

/-- `accepted`. -/
def Envelope.accepted (e : Envelope) : SseFrame :=
  .data (insert e.members (qs "event") (.string (qs "accepted")))

/-- The frame of an event. -/
def Envelope.event (e : Envelope) (event : JsonObject) : SseFrame :=
  .data (ofMembers [(qs "id", .string e.id), (qs "event", .string (qs "rpc")),
    (qs "data", .object event)])

/-- What `finish` returns for a result. -/
def Envelope.result (e : Envelope) (value : Json) : JsonObject :=
  insert e.members (qs "result") value

/-- The last frames of a response that succeeds. -/
def Envelope.succeeded (e : Envelope) (value : Json) : List SseFrame :=
  [.data (insert (e.result value) (qs "event") (.string (qs "done"))), .done]

/-- The last frames of a response that fails. -/
def Envelope.failed (e : Envelope) (error : Error) : List SseFrame :=
  [.data (insert (insert e.members (qs "event") (.string (qs "done")))
      (qs "error") ((lookup (errorObject error.code error.message)
        (qs "error")).getD .null)),
    .done]

/-- What the provider makes of an exception. -/
def errorOf : Exn → Error
  | .error e => e
  | .std _ => ⟨.RuntimeFailure, qs "RPC handler failed"⟩
  | .unknown => ⟨.RuntimeFailure, qs "Unknown RPC handler failure"⟩

/-- The future of an operation, once it is ready. -/
abbrev Outcome := Except Exn Json

/-- Where the handler of the request and its provider stand. -/
inductive Phase
  /-- `dispatch` has been entered. -/
  | dispatching
  /-- Between two calls of the provider. -/
  | waiting
  /-- The result has been looked at. -/
  | looked (ready : Option Outcome)
  /-- Frames have been taken and are being written. -/
  | writing (ready : Option Outcome) (pending : List SseFrame)
  /-- An exception has been caught. -/
  | failing (error : Error)
  /-- `sink.done()` has been called. -/
  | ended
  /-- The response has been given up. -/
  | broken

end Rpc

open Rpc

/-- `RpcStreamState`, with the handler of the request and its provider. -/
structure RpcStream where
  frames : List SseFrame := []
  buffered : Int := 0
  overflow : Bool := false
  abandoned : Bool := false
  /-- `operation.result`. -/
  result : Option Outcome := none
  phase : Phase := .dispatching
  /-- What has been written to the client. -/
  body : List SseFrame := []
  delivered : List JsonObject := []
  interrupted : Bool := false

namespace Rpc

inductive Action
  /-- The operation delivers an event, on any thread. -/
  | event (event : JsonObject)
  /-- The result becomes ready. -/
  | complete (outcome : Outcome)
  /-- The handler builds the accepted frame and installs the provider. -/
  | accept
  /-- The provider's check throws. -/
  | interrupt (why : Interruption)
  /-- The provider's check passes and it looks at the result. -/
  | look
  /-- It takes the frames, under the mutex. -/
  | take
  /-- It writes a frame, or ends. -/
  | write
  /-- A write fails. -/
  | sinkFails
  /-- It reports what it has caught. -/
  | report
  /-- The client is gone, or the server stops: it reports nothing. -/
  | giveUp
  /-- The response is destroyed. -/
  | release

end Rpc

namespace RpcStream

/-- The callback of the request. -/
def onEvent (h : HttpOptions) (e : Envelope) (event : JsonObject)
    (s : RpcStream) : RpcStream :=
  if s.abandoned then s
  else if s.overflow ∨ h.maxBufferedOutputBytes - s.buffered
      < (h.frameSize (e.event event) : Int) then { s with overflow := true }
  else { s with
    buffered := s.buffered + h.frameSize (e.event event)
    frames := s.frames ++ [e.event event] }

/-- The accepted frame goes before what has arrived. -/
def accept (h : HttpOptions) (e : Envelope) (s : RpcStream) : RpcStream :=
  { s with
    buffered := s.buffered + h.frameSize e.accepted
    frames := e.accepted :: s.frames
    overflow := s.overflow || decide (h.maxBufferedOutputBytes
      < s.buffered + h.frameSize e.accepted)
    phase := .waiting }

def overflowed : Error := ⟨.ResourceLimit, qs "HTTP RPC output limit exceeded"⟩

/-- The provider under the mutex. -/
def take (ready : Option Outcome) (s : RpcStream) : RpcStream :=
  if s.overflow then { s with phase := .failing overflowed }
  else { s with
    frames := []
    buffered := 0
    phase := .writing ready s.frames }

/-- `finish`. -/
def finish (h : HttpOptions) (e : Envelope) (outcome : Outcome) :
    Except Error Json :=
  match outcome with
  | .error thrown => .error (errorOf thrown)
  | .ok value =>
      if h.maxBufferedOutputBytes < h.jsonSize (e.result value) then .error
        ⟨.ResourceLimit, qs "HTTP RPC result limit exceeded"⟩
      else .ok value

/-- The provider writes the frames it has taken, and then the last ones when
the result was ready before. -/
def write (h : HttpOptions) (e : Envelope) (ready : Option Outcome)
    (s : RpcStream) : List SseFrame → RpcStream
  | frame :: pending =>
      { s with
        body := s.body ++ [frame]
        phase := .writing ready pending }
  | [] => match ready with
      | none => { s with phase := .waiting }
      | some outcome => match finish h e outcome with
          | .ok value => { s with
              body := s.body ++ e.succeeded value
              phase := .ended }
          | .error error => { s with phase := .failing error }

/-- `failed`, with the client there. -/
def report (e : Envelope) (error : Error) (s : RpcStream) : RpcStream :=
  { s with
    body := s.body ++ e.failed error
    phase := .ended }

/-- What is released with the response. -/
def release (s : RpcStream) : RpcStream :=
  { s with
    abandoned := true
    frames := []
    buffered := 0 }

/-- The next state, where an action is possible. -/
def step (h : HttpOptions) (e : Envelope) (s : RpcStream) :
    Action → Option RpcStream
  | .event event =>
      if s.result.isNone then some { onEvent h e event s with
        delivered := s.delivered ++ [event] }
      else none
  | .complete outcome =>
      if s.result.isNone then some { s with result := some outcome } else none
  | .accept => match s.phase with
      | .dispatching => some (accept h e s)
      | _ => none
  | .interrupt why => match s.phase with
      | .waiting => some { s with
          phase := .failing why.error
          interrupted := true }
      | _ => none
  | .look => match s.phase with
      | .waiting => some { s with phase := .looked s.result }
      | _ => none
  | .take => match s.phase with
      | .looked ready => some (take ready s)
      | _ => none
  | .write => match s.phase with
      | .writing ready pending => some (write h e ready s pending)
      | _ => none
  | .sinkFails => match s.phase with
      | .writing _ _ => some { s with phase := .broken }
      | .failing _ => some { s with phase := .broken }
      | _ => none
  | .report => match s.phase with
      | .failing error => some (report e error s)
      | _ => none
  | .giveUp => match s.phase with
      | .failing _ => some { s with phase := .broken }
      | _ => none
  | .release => match s.phase with
      | .ended => some (release s)
      | .broken => some (release s)
      | _ => none

end RpcStream

end LocalLLM
