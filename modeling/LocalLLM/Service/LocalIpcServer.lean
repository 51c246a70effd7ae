/-
One connection of the IPC server (`service/LocalIpcServer.cpp`).

# Threads

The server runs on one thread: it reads frames, polls every ten
milliseconds, and writes. Events of chats, pulls and RPC operations arrive
on any thread and go into the inbox, under its mutex. `Main` says where the
thread of the server stands, and a step of it ends before and after every
access to the inbox, every look at a future and every write. So the steps of
other threads come between any two of them.

# What is not given

A frame is parsed by Qt (`parse`), and the size of a line is Qt's
(`lineSize`). What the service and the RPC handler answer to a call comes
with the step (`Response`), and so do the events and the outcomes of the
work they have begun. The outcome of a future is the converted one. An
exception that is no `std::exception` leaves the event loop, and no step
follows it.

The fields `requests` and `log` have no counterpart in the source: they
list the requests that were admitted and what was done, in order. A request
is referred to by its place.
-/
import LocalLLM.Core.Types
import LocalLLM.Lib.System

namespace LocalLLM.Ipc

open Json (lookup contains ofMembers isString isObject isDouble toText
  toObject toDouble)

-- ================================================================= parameters

/-- `Error(ErrorCode::InvalidArgument, key + message)`. -/
def invalid (key : QString) (message : String) : Exn :=
  .error ⟨.InvalidArgument, key ++ qs message⟩

/-- `string`. -/
def string (o : JsonObject) (key : String) (required : Bool) :
    Except Exn QString :=
  let value := lookup o (qs key)
  if required = false ∧ value = none then .ok []
  else if isString value = false
      ∨ (required = true ∧ QString.trimmed (toText value) = []) then
    .error (invalid (qs key) " must be a nonempty string")
  else .ok (toText value)

/-- A whole number. -/
def isWhole : Double → Bool
  | .finite q => q.den = 1
  | _ => false

/-- `number`. -/
def number (o : JsonObject) (key : String) (fallback min max : Double)
    (integral : Bool) : Except Exn Double :=
  match lookup o (qs key) with
  | none => .ok fallback
  | some v =>
      let n := toDouble .nan (some v)
      if isDouble (some v) = false ∨ n.isFinite = false ∨ n.lt min = true
          ∨ max.lt n = true ∨ (integral = true ∧ isWhole n = false) then
        .error (invalid (qs key) " has an invalid numeric value")
      else .ok n

/-- `object`. -/
def object (o : JsonObject) (key : String) : Except Exn JsonObject :=
  let v := lookup o (qs key)
  if v ≠ none ∧ isObject v = false
    then .error (invalid (qs key) " must be an object")
  else .ok (toObject v)

-- ===================================================================== frames

/-- `errorObject`. -/
def errorObject (error : Error) : JsonObject :=
  ofMembers [(qs "code", .string error.code.enumName),
    (qs "message", .string error.message)]

/-- `resultObject`. -/
def resultObject (r : GenerationResult) : JsonObject :=
  let usage := ofMembers
    [(qs "prompt_tokens", jsonInt r.usage.promptTokens),
     (qs "generated_tokens", jsonInt r.usage.generatedTokens),
     (qs "cached_tokens", jsonInt r.usage.cachedTokens),
     (qs "dropped_messages", jsonInt r.usage.droppedMessages)]
  let out := ofMembers
    [(qs "request_id", .string r.requestId),
     (qs "session_id", .string r.sessionId),
     (qs "text", .string r.text),
     (qs "finish_reason", .string r.finishReason.enumName),
     (qs "usage", .object usage)]
  if r.errorCode = .None then out
  else Json.insert out (qs "error")
    (.object (errorObject ⟨r.errorCode, r.errorMessage⟩))

/-- The frame of `reply`. -/
def resultFrame (id : QString) (result : Json) : JsonObject :=
  ofMembers [(qs "id", .string id), (qs "result", result)]

/-- The frame of `error`. -/
def errorFrame (id : QString) (error : Error) : JsonObject :=
  ofMembers [(qs "id", .string id), (qs "error", .object (errorObject error))]

def acceptedFrame (id requestId : QString) : JsonObject :=
  ofMembers [(qs "id", .string id), (qs "event", .string (qs "accepted")),
    (qs "request_id", .string requestId)]

structure PullProgress where
  model : QString
  file : QString
  receivedBytes : Int
  totalBytes : Int

/-- What a callback is called with. -/
inductive Payload
  | chat (event : StreamEvent)
  | progress (progress : PullProgress)
  | rpc (value : JsonObject)

/-- The event a callback makes of it. -/
def Payload.event (id : QString) : Payload → JsonObject
  | .chat (.started requestId _) =>
      ofMembers [(qs "id", .string id), (qs "request_id", .string requestId),
        (qs "event", .string (qs "started"))]
  | .chat (.delta requestId _ text) =>
      ofMembers [(qs "id", .string id), (qs "request_id", .string requestId),
        (qs "event", .string (qs "delta")), (qs "text", .string text)]
  | .chat (.finished requestId _ result) =>
      ofMembers [(qs "id", .string id), (qs "request_id", .string requestId),
        (qs "event", .string (qs "done")),
        (qs "result", .object (resultObject result))]
  | .progress p =>
      ofMembers [(qs "id", .string id), (qs "event", .string (qs "progress")),
        (qs "model", .string p.model), (qs "file", .string p.file),
        (qs "received_bytes", jsonInt p.receivedBytes),
        (qs "total_bytes", jsonInt p.totalBytes)]
  | .rpc value =>
      ofMembers [(qs "id", .string id), (qs "event", .string (qs "rpc")),
        (qs "data", .object value)]

/-- `e.value("event") == "done"`. -/
def isDone (event : JsonObject) : Bool :=
  lookup event (qs "event") = some (.string (qs "done"))

-- ================================================================ connections

/-- A future, once it is ready. -/
abbrev Outcome := Except Exn Json

/-- The calls that have a future, by the events they deliver before
it is ready. -/
inductive Operation
  | call
  | pull
  | rpc
deriving DecidableEq

/-- What is left to do for a request. -/
inductive Work
  /-- It is answered when it is dispatched. -/
  | direct
  /-- It is answered when the future is ready. -/
  | future (operation : Operation) (outcome : Option Outcome)
  /-- It ends with its last event. -/
  | chat (finished : Bool)

/-- An admitted request. -/
structure Request where
  id : QString
  method : QString
  work : Work
  /-- The events that were delivered for it. -/
  delivered : List JsonObject := []

/-- An event in the inbox. -/
structure Queued where
  request : Nat
  event : JsonObject

structure Inbox where
  events : List Queued := []
  bytes : Int := 0
  closed : Bool := false
  overflow : Bool := false

/-- What `watch` puts into `pending`. -/
structure Watch where
  request : Nat
  id : QString
  operationId : QString := []

/-- Whom a frame answers. -/
inductive Kind
  /-- Nobody: it refuses a frame that was not admitted. -/
  | refused
  | accepted (request : Nat)
  | event (request : Nat)
  | answer (request : Nat)
deriving DecidableEq

inductive Entry
  | dispatched (request : Nat)
  | sent (kind : Kind) (frame : JsonObject)
  | aborted

/-- What follows a call of `drain`. -/
inductive After
  /-- The rest of `poll`. -/
  | poll
  /-- The answer of a watch whose future is ready; the other watches are
  still to be looked at. -/
  | reply (watch : Watch) (outcome : Outcome) (todo : List Watch)

/-- Where the thread of the server stands. -/
inductive Main
  | idle
  /-- In the loop of `read`. -/
  | reading
  /-- In the loop of `read`, before a frame is sent, an id released
  and a watch added. -/
  | answering (kind : Kind) (frame : JsonObject) (release : Option QString)
      (watch : Option Watch)
  /-- Before `drain` locks the inbox. -/
  | taking (after : After)
  /-- In `drain`, with the events it has taken. -/
  | sending (events : List Queued) (after : After)
  /-- In `poll`, with the watches it has not looked at; those that stay are in
  `pending`. -/
  | polling (todo : List Watch)
  /-- The client has been erased. -/
  | gone

structure Client where
  /-- `socket->state() == ConnectedState`. -/
  connected : Bool := true
  /-- `socket->bytesToWrite()`. -/
  written : Nat := 0
  input : List UInt8 := []
  ids : Finset QString := ∅
  generations : Finset QString := ∅
  pending : List Watch := []
  inbox : Inbox := {}
  main : Main := .idle
  /-- The operations whose tokens were cancelled. -/
  cancelled : Finset QString := ∅
  requests : List Request := []
  log : List Entry := []

/-- The server: its options, and what it asks of others. -/
structure Server where
  parse : List UInt8 → Option JsonObject
  lineSize : JsonObject → Nat
  maxInFlightPerConnection : Int
  maxFrameBytes : Int
  maxBufferedOutputBytes : Int
  limits : 1 ≤ maxInFlightPerConnection ∧ 64 ≤ maxFrameBytes
    ∧ 256 ≤ maxBufferedOutputBytes
  /-- Whether an RPC handler is set. -/
  rpcHandler : Bool
  /-- What `hardware.get`, `parameters.list`, `parameters.get` and
  `parameters.validate` answer. -/
  answer : QString → JsonObject → Except Exn Json
  /-- Whether `generationOptionsFromJson` and `parseKeepAlive` accept. -/
  generationOptions : JsonObject → Except Exn Unit
  keepAlive : Option Json → Except Exn Unit

/-- What the service or the RPC handler does with a call. -/
inductive Response
  | thrown (e : Exn)
  /-- The handle: its request id, and whether its future is valid. -/
  | handle (requestId : QString) (valid : Bool)

namespace Client

variable (v : Server)

/-- `socket->abort()`, which emits `disconnected`. -/
def abort (c : Client) : Client :=
  if c.connected = true then
    { c with
      connected := false
      written := 0
      cancelled := c.cancelled ∪ c.generations
      inbox := { c.inbox with closed := true }
      log := c.log ++ [.aborted] }
  else c

/-- `disconnect`, and the client is erased. -/
def disconnect (c : Client) : Client :=
  { c.abort with
    cancelled := c.cancelled ∪ c.generations
    generations := ∅
    inbox := { c.inbox with
      closed := true
      events := [] }
    main := .gone }

/-- `send`. -/
def send (kind : Kind) (frame : JsonObject) (c : Client) : Client :=
  if c.connected = false then c
  else if (c.written + v.lineSize frame : Int) > v.maxBufferedOutputBytes
    then c.abort
  else { c with
    written := c.written + v.lineSize frame
    log := c.log ++ [.sent kind frame] }

/-- `ids.remove(id)`, where there is one to release. -/
def release (id : Option QString) (c : Client) : Client :=
  match id with
  | none => c
  | some id => { c with ids := c.ids.erase id }

/-- An answer that is to be sent, in the loop of `read`. -/
def answering (kind : Kind) (frame : JsonObject) (release : Option QString)
    (watch : Option Watch) (c : Client) : Client :=
  { c with main := .answering kind frame release watch }

end Client

-- ================================================================ dispatching

/-- What a method leads to. -/
inductive Job
  | answer (result : Json)
  /-- A call of the service, whose future is watched. -/
  | call
  | pull
  | chat
  | rpc
  | cancel (requestId : QString)

/-- The fields of `models.load`. -/
def loadFields : List QString :=
  [qs "model", qs "context_tokens", qs "options", qs "keep_alive"]

section Dispatch

variable (v : Server)

/-- The checks of `models.load`. -/
def checkLoad (p : JsonObject) : Except Exn Unit := do
  match p.find? fun m => m.1 ∉ loadFields with
  | some m => .error (.error ⟨.InvalidArgument,
      qs "Unknown models.load field; execution is selected by the service: "
        ++ m.1⟩)
  | none => .ok ()
  let _ ← string p "model" true
  let _ ← number p "context_tokens" (.finite 0) (.finite 0)
    (.finite 1048576) true
  let _ ← object p "options"
  v.keepAlive (lookup p (qs "keep_alive"))

/-- What the methods that call the service and watch the result ask of their
parameters. -/
def checkCall (method : QString) (p : JsonObject) : Option (Except Exn Unit) :=
  if method = qs "models.list" ∨ method = qs "models.loaded"
    ∨ method = qs "stats" then
    some (.ok ())
  else if method = qs "models.install" then some do
    let _ ← string p "package_directory" true
  else if method = qs "models.remove" ∨ method = qs "models.resolve"
      ∨ method = qs "models.verify" ∨ method = qs "models.unload" then some do
    let _ ← string p "model" true
  else if method = qs "models.load" then some (checkLoad v p)
  else if method = qs "sessions.create" then some do
    let _ ← string p "model" true
    let _ ← string p "system" false
  else if method = qs "sessions.get" ∨ method = qs "sessions.reset"
      ∨ method = qs "sessions.close" then some do
    let _ ← string p "session_id" true
  else none

/-- `dispatch`, up to the call that the method makes. -/
def dispatch (generations : Finset QString) (method : QString)
    (p : JsonObject) : Except Exn Job :=
  if method = qs "hardware.get" ∨ method = qs "parameters.list"
      ∨ method = qs "parameters.get" ∨ method = qs "parameters.validate"
        then do
    let result ← v.answer method p
    return .answer result
  else match checkCall v method p with
  | some check => do
      check
      return .call
  | none =>
    if method = qs "models.pull" then do
      require (p.length = 1) .InvalidArgument
        "models.pull accepts only a model reference"
      let _ ← string p "model" true
      return .pull
    else if method = qs "chat" then do
      let _ ← string p "session_id" true
      let _ ← string p "prompt" true
      v.keepAlive (lookup p (qs "keep_alive"))
      let o ← object p "options"
      v.generationOptions o
      return .chat
    else if method = qs "cancel" then do
      let requestId ← string p "request_id" true
      require (requestId ∈ generations) .NotFound
        "Request not owned by this connection"
      return .cancel requestId
    else if v.rpcHandler = true then return .rpc
    else throw (err .NotFound "Unknown method")

end Dispatch

-- ==================================================================== reading

/-- The error an exception is reported with; none, when nothing catches it. -/
def errorOf : Exn → Option Error
  | .error e => some e
  | .std what => some ⟨.RuntimeFailure, what⟩
  | .unknown => none

/-- The first line of the input, and what is behind it. -/
def takeLine (input : List UInt8) : Option (List UInt8 × List UInt8) :=
  if 10 ∈ input then
    some (input.takeWhile (· != 10), (input.dropWhile (· != 10)).tail)
  else none

namespace Client

variable (v : Server)

/-- The checks of a request before its id is reserved. -/
def admission (c : Client) (id : QString) (request : JsonObject) :
    Except Exn QString := do
  require (id.length ≤ 128) .InvalidArgument "Request id too long"
  require (id ∉ c.ids) .AlreadyExists "Request id already in flight"
  let method ← string request "method" true
  require ((c.ids.card : Int) < v.maxInFlightPerConnection
    ∨ method = qs "cancel")
    .QueueFull "Connection request limit reached"
  return method

/-- `error`, of a frame that was not admitted. -/
def refuse (id : QString) (e : Exn) (c : Client) : Option Client :=
  (errorOf e).map fun error => c.answering .refused
  (errorFrame id error) none none

/-- `error`, of an admitted request. -/
def fail (n : Nat) (id : QString) (e : Exn) (c : Client) : Option Client :=
  (errorOf e).map fun error => c.answering (.answer n) (errorFrame id error)
  (some id) none

/-- `reply`. -/
def reply (n : Nat) (id : QString) (result : Json) (c : Client) : Client :=
  c.answering (.answer n) (resultFrame id result) (some id) none

/-- The request, with the work it has begun. -/
def begin (id method : QString) (work : Work) (c : Client) : Client :=
  { c with
    ids := insert id c.ids
    requests := c.requests ++ [{ id, method, work }] }

/-- A stream that has begun: its token is kept, and it is to be accepted. -/
def accept (n : Nat) (id requestId : QString) (watch : Option Watch)
    (c : Client) : Client :=
  { c with generations := insert requestId c.generations }.answering
      (.accepted n)
    (acceptedFrame id requestId) none watch

/-- What a job does with the answer to its call. -/
def perform (id method : QString) (response : Response) (c : Client) :
    Job → Option Client
  | .answer result =>
      some ((c.begin id method .direct).reply c.requests.length id result)
  | .cancel requestId =>
      some (({ c with cancelled := insert requestId c.cancelled }.begin id
        method .direct).reply
        c.requests.length id (.object
          (ofMembers [(qs "cancel_requested", .bool true)])))
  | job => match response with
    | .thrown e => (c.begin id method .direct).fail c.requests.length id e
    | .handle requestId valid => match job with
      | .chat =>
          some ((c.begin id method (.chat false)).accept c.requests.length id
            requestId none)
      | .pull =>
          some ((c.begin id method (.future .pull none)).accept
            c.requests.length id
            requestId (some ⟨c.requests.length, id, requestId⟩))
      | .rpc =>
          let c' := c.begin id method (.future .rpc none)
          if valid = false ∨ requestId = [] ∨ 128 < requestId.length then
            { c' with cancelled := insert requestId c'.cancelled }.fail
                c.requests.length id
              (err .ProtocolError "Invalid RPC handler response")
          else some (c'.accept c.requests.length id requestId
            (some ⟨c.requests.length, id, requestId⟩))
      | _ => some { c.begin id method (.future .call none) with
          pending := c.pending ++ [⟨c.requests.length, id, []⟩]
          main := .reading }

/-- An admitted request: its arguments, and `dispatch`. -/
def serve (id method : QString) (request : JsonObject) (response : Response)
    (c : Client) : Option Client :=
  let arguments : Except Exn JsonObject := do
    let p ← object request "params"
    let _ ← string request "auth" false
    return p
  match arguments with
  | .error e => (c.begin id method .direct).fail c.requests.length id e
  | .ok p =>
      let c' :
        Client := { c with log := c.log ++ [.dispatched c.requests.length] }
      match dispatch v c.generations method p with
      | .error e => (c'.begin id method .direct).fail c.requests.length id e
      | .ok job => c'.perform id method response job

/-- One frame. -/
def request (response : Response) (c : Client) :
    Option JsonObject → Option Client
  | none =>
      c.refuse [] (err .ProtocolError "Expected one JSON object per line")
  | some request => match string request "id" true with
    | .error e => c.refuse [] e
    | .ok id => match c.admission v id request with
      | .error e => c.refuse id e
      | .ok method => c.serve v id method request response

/-- One pass of the loop of `read`. -/
def frame (response : Response) (c : Client) : Option Client :=
  match takeLine c.input with
  | none =>
      some { (if v.maxFrameBytes < (c.input.length : Int)
        then c.abort else c) with
        main := .idle }
  | some (line, rest) =>
      if v.maxFrameBytes < (line.length : Int)
        then some { c.abort with main := .idle }
      else { c with input := rest }.request v response (v.parse line)

-- ==================================================================== polling

/-- `drain` has failed. -/
def undrained (after : After) (c : Client) : Client :=
  match after with
  | .poll => c.disconnect
  | .reply _ _ todo => { c with main := .polling todo }

/-- `drain` locks the inbox. -/
def take (after : After) (c : Client) : Client :=
  let failed := c.inbox.overflow || c.inbox.closed
  let c' := { c with inbox := { c.inbox with
    events := []
    bytes := 0 } }
  if failed = true then
    { c'.abort with cancelled := c'.abort.cancelled ∪ c.generations }.undrained
        after
  else { c' with main := .sending c.inbox.events after }

/-- `drain` sends an event. -/
def sendEvent (q : Queued) (rest : List Queued) (after : After) (c : Client) :
    Client :=
  let c' := c.send v (.event q.request) q.event
  if isDone q.event = true then
    { c' with
      ids := c'.ids.erase (toText (lookup q.event (qs "id")))
      generations := c'.generations.erase
        (toText (lookup q.event (qs "request_id")))
      main := .sending rest after }
  else { c' with main := .sending rest after }

/-- The rest of `poll`. -/
def pollWatches (c : Client) : Client :=
  { c with
    pending := []
    main := .polling c.pending }

/-- The answer of a watch. -/
def finish (w : Watch) (outcome : Outcome) (todo : List Watch) (c : Client) :
    Option Client :=
  let c' := if w.operationId = [] then c
    else { c with generations := c.generations.erase w.operationId }
  match outcome with
  | .ok result =>
      some { (c'.send v (.answer w.request) (resultFrame w.id result)).release
        (some w.id) with main := .polling todo }
  | .error e => (errorOf e).map fun error =>
      { (c'.send v (.answer w.request) (errorFrame w.id error)).release
          (some w.id) with
        main := .polling todo }

/-- `drain` has sent what it took. -/
def drained (after : After) (c : Client) : Option Client :=
  if c.connected = false then some (c.undrained after)
  else match after with
    | .poll => some c.pollWatches
    | .reply w outcome todo => c.finish v w outcome todo

/-- The future that a watch waits for. -/
def outcome (c : Client) (w : Watch) : Option Outcome :=
  match c.requests[w.request]? with
  | some { work := .future _ outcome, .. } => outcome
  | _ => none

/-- `poll` looks at a watch. -/
def check (w : Watch) (todo : List Watch) (c : Client) : Client :=
  match c.outcome w with
  | none => { c with
      pending := c.pending ++ [w]
      main := .polling todo }
  | some outcome => { c with main := .taking (.reply w outcome todo) }

end Client

-- ============================================================== other threads

/-- The work of a request after a callback, where it may call back. -/
def Work.after : Work → Payload → Option Work
  | .chat false, .chat event => some (.chat event.isFinished)
  | .future .pull none, .progress _ => some (.future .pull none)
  | .future .rpc none, .rpc _ => some (.future .rpc none)
  | _, _ => none

/-- A callback puts an event into the inbox, or throws. -/
def Inbox.push (v : Server) (q : Queued) (inbox : Inbox) : Inbox :=
  if inbox.closed = true ∨ inbox.overflow = true
      ∨ v.maxBufferedOutputBytes < inbox.bytes + v.lineSize q.event then
    { inbox with overflow := true }
  else { inbox with
    bytes := inbox.bytes + v.lineSize q.event
    events := inbox.events ++ [q] }

namespace Client

/-- A callback of a request. -/
def deliver (v : Server) (n : Nat) (payload : Payload) (c : Client) :
    Option Client :=
  match c.requests[n]? with
  | none => none
  | some r => (r.work.after payload).map fun work => { c with
      inbox := c.inbox.push v ⟨n, payload.event r.id⟩
      requests := c.requests.set n { r with
        work
        delivered := r.delivered ++ [payload.event r.id] } }

/-- A future becomes ready. -/
def complete (n : Nat) (outcome : Outcome) (c : Client) : Option Client :=
  match c.requests[n]? with
  | some { id, method, work := .future operation none, delivered } =>
      some { c with
        requests := c.requests.set n
          { id, method, work := .future operation (some outcome), delivered } }
  | _ => none

end Client

-- ====================================================================== steps

inductive Action
  /-- `readyRead`: `read` appends what has arrived and enters its loop. -/
  | receive (bytes : List UInt8)
  | frame (response : Response)
  /-- The frame of `answering` is sent. -/
  | answer
  /-- The timer. -/
  | poll
  | take
  | send
  | check
  /-- The socket writes. -/
  | flush (bytes : Nat)
  /-- The peer is gone: `disconnected`. -/
  | lost
  /-- `close`. -/
  | close
  | deliver (request : Nat) (payload : Payload)
  | complete (request : Nat) (outcome : Outcome)

namespace Client

/-- The next state, where an action is possible. -/
def step (v : Server) (c : Client) : Action → Option Client
  | .receive bytes => match c.main with
      | .idle => if c.connected = true then some { c with
          input := c.input ++ bytes
          main := .reading } else none
      | _ => none
  | .frame response => match c.main with
      | .reading => c.frame v response
      | _ => none
  | .answer => match c.main with
      | .answering kind frame id watch =>
          let c' := (c.send v kind frame).release id
          some { c' with
            pending := c'.pending ++ watch.toList
            main := .reading }
      | _ => none
  | .poll => match c.main with
      | .idle =>
          if c.connected = true then some { c with main := .taking .poll }
            else some c.disconnect
      | _ => none
  | .take => match c.main with
      | .taking after => some (c.take after)
      | _ => none
  | .send => match c.main with
      | .sending (q :: rest) after => some (c.sendEvent v q rest after)
      | .sending [] after => c.drained v after
      | _ => none
  | .check => match c.main with
      | .polling (w :: todo) => some (c.check w todo)
      | .polling [] => some { c with main := .idle }
      | _ => none
  | .flush bytes => some { c with written := c.written - bytes }
  | .lost => match c.main with
      | .idle => some { c with
          connected := false
          written := 0
          cancelled := c.cancelled ∪ c.generations
          inbox := { c.inbox with closed := true } }
      | _ => none
  | .close => match c.main with
      | .idle => some c.disconnect
      | _ => none
  | .deliver n payload => c.deliver v n payload
  | .complete n outcome => c.complete n outcome

end Client

end LocalLLM.Ipc
