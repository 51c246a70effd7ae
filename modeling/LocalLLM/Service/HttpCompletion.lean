/-
Chat completions of the HTTP server (`service/HttpApiServer.cpp`, `complete`).

# Threads

The handler of a request hands the callback `onEvent` to the service and
waits. It answers with one object, or, once the service has started, leaves
a provider behind that the server calls until the stream is done. What is
done under the mutex is a single step, and so is every write to the client.

The service obeys `Follows`: `Finished` is its last event, and the result of
a request that succeeds has the text of the deltas before it and calls that
are objects.

The fields `delivered` and `interrupted` have no counterpart in the source:
the events the callback was given, and whether a check has thrown.

# What a client reads

`Collected` is what a client puts together, from the chunks of a stream or
from the message of an answer.
-/
import LocalLLM.Service.HttpApiServer

namespace LocalLLM

open Json

/-- The sizes the callback adds up: `text.toUtf8().size()`, and that of the
calls as a compact document. -/
structure CompletionOptions extends HttpOptions where
  utf8Size : QString → Nat
  arraySize : List Json → Nat

/-- `completionReason`. -/
def completionReason (result : GenerationResult) : QString :=
  if result.toolCalls = [] then result.finishReason.enumName
  else qs "tool_calls"

/-- `usage`. -/
def usage (value : Usage) : JsonObject :=
  ofMembers [(qs "prompt_tokens", jsonInt value.promptTokens),
    (qs "completion_tokens", jsonInt value.generatedTokens),
    (qs "total_tokens", jsonInt (value.promptTokens + value.generatedTokens)),
    (qs "prompt_tokens_details",
      .object (ofMembers [(qs "cached_tokens", jsonInt value.cachedTokens)]))]

/-- `ParsedCompletion`, as far as the response depends on it, with the time
of the request. -/
structure Completion where
  model : QString
  stream : Bool := false
  includeUsage : Bool := false
  created : Int

namespace Completion

/-- The id of a response. -/
def idOf (requestId : QString) : QString := qs "chatcmpl-" ++ requestId

/-- `envelope`. -/
def envelope (q : Completion) (id : QString) (streaming : Bool) : JsonObject :=
  ofMembers [(qs "id", .string id),
    (qs "object", .string (qs (if streaming then "chat.completion.chunk"
      else "chat.completion"))),
    (qs "created", jsonInt q.created), (qs "model", .string q.model)]

/-- `chunk`. -/
def chunk (q : Completion) (id : QString) (delta : JsonObject)
    (reason : Json) : JsonObject :=
  insert (q.envelope id true) (qs "choices")
    (.array [.object (ofMembers [(qs "index", jsonInt 0),
      (qs "delta", .object delta), (qs "finish_reason", reason)])])

/-- `makeChunk`. -/
def makeChunk (q : Completion) (id : QString) (delta : JsonObject)
    (reason : Json := .null) : SseFrame :=
  .data (if q.includeUsage then
      insert (q.chunk id delta reason) (qs "usage") .null
    else q.chunk id delta reason)

/-- A call of the stream: with its index. -/
def withIndex (call : Json) (i : Nat) : Json :=
  .object (insert (toObject (some call)) (qs "index") (jsonInt i))

/-- The last chunks of a completion that succeeds. -/
def lastChunks (q : Completion) (id : QString) (result : GenerationResult) :
    List SseFrame :=
  (if result.reasoning = [] then [] else [q.makeChunk id
      (ofMembers [(qs "reasoning_content", .string result.reasoning)])])
    ++ (if result.toolCalls = [] then [] else [q.makeChunk id
      (ofMembers [(qs "tool_calls",
        .array (result.toolCalls.mapIdx fun i call => withIndex call i))])])
    ++ [q.makeChunk id [] (.string (completionReason result))]
    ++ (if q.includeUsage then
        [.data (insert (insert (q.envelope id true) (qs "choices") (.array []))
          (qs "usage") (.object (usage result.usage)))]
      else [])

/-- The bytes of an event. -/
def bytes (q : Completion) (event : StreamEvent) : List SseFrame :=
  if q.stream = false then []
  else match event with
    | .started requestId _ => [q.makeChunk (idOf requestId)
        (ofMembers [(qs "role", .string (qs "assistant")),
          (qs "content", .string [])])]
    | .delta requestId _ text => [q.makeChunk (idOf requestId)
        (ofMembers [(qs "content", .string text)])]
    | .finished requestId _ result =>
        (if result.errorCode = .None then q.lastChunks (idOf requestId) result
          else [.data (errorObject result.errorCode result.errorMessage)])
          ++ [.done]

/-- The `message` of an answer. -/
def message (result : GenerationResult) : JsonObject :=
  let plain := ofMembers [(qs "role", .string (qs "assistant")),
    (qs "content", .string result.text)]
  let called := if result.toolCalls = [] then plain
    else
      let value := insert plain (qs "tool_calls") (.array result.toolCalls)
      if result.text = [] then insert value (qs "content") .null else value
  if result.reasoning = [] then called
  else insert called (qs "reasoning_content") (.string result.reasoning)

/-- The answer to a request that is not streamed. -/
def answer (q : Completion) (result : GenerationResult) : JsonObject :=
  insert (insert (q.envelope (idOf result.requestId) false) (qs "choices")
      (.array [.object (ofMembers [(qs "index", jsonInt 0),
        (qs "message", .object (message result)),
        (qs "finish_reason", .string (completionReason result))])]))
    (qs "usage") (.object (usage result.usage))

/-- What an event adds to the output. -/
def outputOf (o : CompletionOptions) : StreamEvent → Nat
  | .started _ _ => 0
  | .delta _ _ text => o.utf8Size text
  | .finished _ _ result =>
      (if result.toolCalls = [] then 0 else o.arraySize result.toolCalls)
        + o.utf8Size result.reasoning

/-- What a conforming service may deliver after some events. -/
def Follows (before : List StreamEvent) (event : StreamEvent) : Prop :=
  (∀ old ∈ before, old.isFinished = false)
    ∧ match event with
      | .finished _ _ result => result.errorCode = .None →
          result.text = before.flatMap StreamEvent.text
            ∧ ∀ call ∈ result.toolCalls, isObject (some call) = true
      | _ => True

instance (before : List StreamEvent) (event : StreamEvent) :
    Decidable (Follows before event) := by
  unfold Follows
  cases event <;> dsimp only <;> infer_instance

/-- Where the handler of the request and its provider stand. -/
inductive Phase
  /-- The handler waits. -/
  | waiting
  /-- It has answered with an object, or an error. -/
  | answered (response : Except Error JsonObject)
  /-- The provider waits for frames, or is not called. -/
  | polling
  /-- It writes what it has taken. -/
  | writing (finished : Bool) (pending : List (List SseFrame))
  /-- An exception has been caught. -/
  | failing (error : Error)
  /-- `sink.done()` has been called. -/
  | ended
  /-- The response has been given up. -/
  | broken

inductive Action
  /-- The service delivers an event, on any thread. -/
  | event (event : StreamEvent)
  /-- A check throws. -/
  | interrupt (why : Interruption)
  /-- The handler leaves its loop. -/
  | proceed
  /-- The provider takes the frames, under the mutex. -/
  | take
  /-- It writes what one event has queued, or returns. -/
  | write
  /-- A write fails. -/
  | sinkFails
  /-- The provider reports what it has caught. -/
  | report
  /-- The response is destroyed. -/
  | release

end Completion

open Completion

/-- `StreamState`, with the handler of the request and its provider. -/
structure CompletionStream where
  frames : List (List SseFrame) := []
  buffered : Int := 0
  output : Int := 0
  started : Bool := false
  finished : Bool := false
  overflow : Bool := false
  abandoned : Bool := false
  result : GenerationResult := ⟨[], [], [], .Error, {}, .None, [], [], []⟩
  phase : Phase := .waiting
  /-- What has been written to the client. -/
  body : List SseFrame := []
  delivered : List StreamEvent := []
  interrupted : Bool := false

namespace CompletionStream

def overflowed : Error := ⟨.ResourceLimit, qs "HTTP output limit exceeded"⟩

/-- The flags an event sets. -/
def note (event : StreamEvent) (s : CompletionStream) : CompletionStream :=
  match event with
  | .started _ _ => { s with started := true }
  | .delta _ _ _ => s
  | .finished _ _ result => { s with
      finished := true
      result }

/-- `state->frames.push_back`, when there is something to push. -/
def push (frames : List (List SseFrame)) (bytes : List SseFrame) :
    List (List SseFrame) :=
  if bytes = [] then frames else frames ++ [bytes]

/-- `onEvent`. -/
def onEvent (o : CompletionOptions) (q : Completion) (event : StreamEvent)
    (s : CompletionStream) : CompletionStream :=
  if s.abandoned then s
  else
    let noted := { note event s with output := s.output + outputOf o event }
    let size := o.framesSize (q.bytes event)
    if o.maxBufferedOutputBytes < noted.output
        ∨ o.maxBufferedOutputBytes < s.buffered + size then
      { noted with overflow := true }
    else { noted with
      buffered := s.buffered + size
      frames := push s.frames (q.bytes event) }

/-- What the handler does behind its loop. -/
def proceed (q : Completion) (s : CompletionStream) : CompletionStream :=
  if s.overflow then { s with phase := .answered (.error overflowed) }
  else if s.finished ∧ (q.stream = false ∨ s.started = false) then
    if s.result.errorCode = .None then
      { s with phase := .answered (.ok (q.answer s.result)) }
    else { s with
      phase := .answered (.error ⟨s.result.errorCode, s.result.errorMessage⟩) }
  else { s with phase := .polling }

/-- The provider behind its loop. -/
def take (s : CompletionStream) : CompletionStream :=
  if s.overflow then { s with phase := .failing overflowed }
  else { s with
    frames := []
    buffered := 0
    phase := .writing s.finished s.frames }

/-- The provider writes what it has taken, and then it is done or not. -/
def write (finished : Bool) (s : CompletionStream) :
    List (List SseFrame) → CompletionStream
  | bytes :: pending => { s with
      body := s.body ++ bytes
      phase := .writing finished pending }
  | [] => { s with phase := if finished then .ended else .polling }

/-- The frames of an error. -/
def failed (error : Error) : List SseFrame :=
  [.data (errorObject error.code error.message), .done]

/-- The `catch` of the provider. -/
def report (error : Error) (s : CompletionStream) : CompletionStream :=
  if error.code = .Cancelled ∨ error.code = .ShuttingDown then
    { s with phase := .broken }
  else { s with
    body := s.body ++ failed error
    phase := .ended }

/-- The next state, where an action is possible. -/
def step (o : CompletionOptions) (q : Completion) (s : CompletionStream) :
    Action → Option CompletionStream
  | .event event =>
      if Follows s.delivered event then some { onEvent o q event s with
        delivered := s.delivered ++ [event] }
      else none
  | .interrupt why => match s.phase with
      | .waiting => some { s with
          phase := .answered (.error why.error)
          interrupted := true }
      | .polling => some { s with
          phase := .failing why.error
          interrupted := true }
      | _ => none
  | .proceed => match s.phase with
      | .waiting =>
          if (q.stream ∧ s.started) ∨ s.finished ∨ s.overflow then
            some (proceed q s)
          else none
      | _ => none
  | .take => match s.phase with
      | .polling =>
          if s.frames ≠ [] ∨ s.finished ∨ s.overflow then some (take s)
          else none
      | _ => none
  | .write => match s.phase with
      | .writing finished pending => some (write finished s pending)
      | _ => none
  | .sinkFails => match s.phase with
      | .writing _ _ => some { s with phase := .broken }
      | .failing _ => some { s with phase := .broken }
      | _ => none
  | .report => match s.phase with
      | .failing error => some (report error s)
      | _ => none
  | .release => match s.phase with
      | .answered _ => some { s with abandoned := true }
      | .ended => some { s with abandoned := true }
      | .broken => some { s with abandoned := true }
      | _ => none

end CompletionStream

namespace Completion

-- ======================================================== what a client reads

/-- What a client puts together of a completion. -/
structure Collected where
  text : QString := []
  reasoning : QString := []
  toolCalls : List Json := []
  finishReason : Option QString := none
  usage : Option JsonObject := none

/-- `QJsonObject::remove`. -/
def remove (o : JsonObject) (key : QString) : JsonObject :=
  o.filter fun m => m.1 != key

/-- A call with no index. -/
def withoutIndex (call : Json) : Json :=
  .object (remove (toObject (some call)) (qs "index"))

/-- The first of the choices. -/
def choice (value : JsonObject) : JsonObject :=
  toObject (toArray (lookup value (qs "choices"))).head?

/-- One more chunk: texts are put behind each other, and a reason or a usage
that is given is the last one. -/
def collectChunk (acc : Collected) (value : JsonObject) : Collected :=
  let delta := toObject (lookup (choice value) (qs "delta"))
  { text := acc.text ++ toText (lookup delta (qs "content"))
    reasoning := acc.reasoning
      ++ toText (lookup delta (qs "reasoning_content"))
    toolCalls := acc.toolCalls
      ++ (toArray (lookup delta (qs "tool_calls"))).map withoutIndex
    finishReason := match lookup (choice value) (qs "finish_reason") with
      | some (.string reason) => some reason
      | _ => acc.finishReason
    usage := match lookup value (qs "usage") with
      | some (.object members) => some members
      | _ => acc.usage }

/-- What a stream gives. -/
def collect (frames : List SseFrame) (acc : Collected := {}) : Collected :=
  frames.foldl (fun acc frame => match frame with
    | .data value => collectChunk acc value
    | .done => acc) acc

/-- The calls of an answer, as they stand there. -/
def callsOf (value : JsonObject) : List Json :=
  toArray (lookup (toObject (lookup (choice value) (qs "message")))
    (qs "tool_calls"))

/-- What an answer gives; content that is null is empty. -/
def read (value : JsonObject) : Collected :=
  let message := toObject (lookup (choice value) (qs "message"))
  { text := toText (lookup message (qs "content"))
    reasoning := toText (lookup message (qs "reasoning_content"))
    toolCalls := (callsOf value).map withoutIndex
    finishReason := match lookup (choice value) (qs "finish_reason") with
      | some (.string reason) => some reason
      | _ => none
    usage := match lookup value (qs "usage") with
      | some (.object members) => some members
      | _ => none }

end Completion

end LocalLLM
