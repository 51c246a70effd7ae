/-
The command line client of the IPC server (`tools/IpcClient.cpp`), and the
connection between the two.

# A call

A call writes one request and reads responses until one of them ends it.
The client makes one call at a time. `ended` lists the calls that have
ended, and `requests` what was written for them; the source has neither.

# The connection

Two streams of bytes are in transit. Each side reads a piece of its stream
at a time, as long or as short as it likes, and between any two accesses of
one side the other may do anything. The texts are compact JSON, which has
no line feed.

A connection that is lost stays lost: that the client connects again, in its
next call, is left out. The callback is one that returns.
-/
import LocalLLM.Service.LocalIpcServer

namespace LocalLLM

open Json (lookup contains ofMembers isObject toText toObject)

/-- A call of the client, and the events that its callback was handed. -/
structure IpcCall where
  id : QString
  method : QString
  events : List JsonObject := []

namespace IpcClient

/-- What a call returns or throws. -/
abbrev Outcome := Except Exn (Option Json)

/-- Where the client stands. -/
inductive Main
  | idle
  /-- In the outer loop, before `readAll`. -/
  | waiting (call : IpcCall)
  /-- In the inner loop. -/
  | reading (call : IpcCall)

end IpcClient

structure IpcClient where
  nextId : UInt64 := 0
  /-- `socket_.state() == ConnectedState`. -/
  connected : Bool := true
  input : List UInt8 := []
  main : IpcClient.Main := .idle
  ended : List (IpcCall × IpcClient.Outcome) := []
  requests : List JsonObject := []

namespace IpcClient

/-- `fail`. -/
def fail {α : Type} (message : QString) : Except Exn α := .error (.std message)

/-- The text of an error that was sent. -/
def errorText (error : JsonObject) : QString :=
  toText (lookup error (qs "code")) ++ qs ": "
    ++ toText (lookup error (qs "message"))

/-- `checkError`. -/
def checkError (response : JsonObject) : Except Exn Unit :=
  if contains response (qs "error") = true then
    fail (errorText (toObject (lookup response (qs "error"))))
  else .ok ()

/-- The longest response. -/
def responseLimit : Nat := 4 * 1024 * 1024

/-- The longest request. -/
def requestLimit : Nat := 1024 * 1024

/-- The request of a call. -/
def requestObject (id method : QString) (params : JsonObject)
    (credential : QString) : JsonObject :=
  let request := ofMembers
    [(qs "id", .string id), (qs "method", .string method),
      (qs "params", .object params)]
  if credential = [] then request
  else Json.insert request (qs "auth") (.string credential)

/-- The call has ended. -/
def finish (call : IpcCall) (outcome : Outcome) (c : IpcClient) : IpcClient :=
  { c with
    main := .idle
    ended := c.ended ++ [(call, outcome)] }

/-- `socket_.abort()`, and the call fails. -/
def abort (call : IpcCall) (message : String) (c : IpcClient) : IpcClient :=
  { c with connected := false }.finish call (fail (qs message))

/-- `call`, up to its loop: the client and the bytes that it writes. -/
def begin (toJson : JsonObject → List UInt8) (method : QString)
    (params : JsonObject)
    (credential : QString) (c : IpcClient) : IpcClient × List UInt8 :=
  let id := QString.number (c.nextId + 1).toNat
  let request := requestObject id method params credential
  let bytes := toJson request ++ [10]
  let c' := { c with nextId := c.nextId + 1 }
  if requestLimit < bytes.length then
    (c'.finish { id, method }
      (fail (qs "Request exceeds the service frame limit")), [])
  else
    ({ c' with
      main := .waiting { id, method }
      requests := c.requests ++ [request] }, bytes)

/-- What a response is to a call: the call behind it, and its
outcome if it ends. -/
def respond (call : IpcCall) : Option JsonObject → IpcCall × Option Outcome
  | none => (call, some (fail (qs "Invalid service JSON response")))
  | some response =>
    if toText (lookup response (qs "id")) ≠ call.id then
      (call, some (fail (qs "Unexpected service request id")))
    else match checkError response with
      | .error e => (call, some (.error e))
      | .ok () =>
        let kind := toText (lookup response (qs "event"))
        let call' := if kind = [] then call
          else { call with events := call.events ++ [response] }
        if kind = qs "done"
          ∨ (kind = [] ∧ contains response (qs "result") = true) then
          let result := lookup response (qs "result")
          (call', some do
            if isObject result = true then checkError (toObject result)
            return result)
        else (call', none)

/-- One pass of the inner loop, or what follows it. -/
def line (parse : List UInt8 → Option JsonObject) (call : IpcCall)
    (c : IpcClient) : IpcClient :=
  match Ipc.takeLine c.input with
  | none =>
      if responseLimit < c.input.length then
        c.abort call "Service response exceeds frame limit"
      else if c.connected = false then
        c.finish call
          (fail (qs "iiLocalLLMD disconnected before completing the request"))
      else { c with main := .waiting call }
  | some (line, rest) =>
      if responseLimit < line.length then
        c.abort call "Service response exceeds frame limit"
      else match respond call (parse line) with
        | (call', none) => { c with
            input := rest
            main := .reading call' }
        | (call', some outcome) =>
            { c with input := rest }.finish call' outcome

end IpcClient

-- ============================================================= the connection

/-- A server, and the compact texts of its objects and of the client's. -/
structure IpcWire where
  server : Ipc.Server
  toJson : JsonObject → List UInt8
  oneLine : ∀ o, 10 ∉ toJson o

/-- A client and a connection of the server. -/
structure IpcLink where
  client : IpcClient := {}
  server : Ipc.Client := {}
  /-- What the client has written and the server has not read. -/
  toServer : List UInt8 := []
  /-- What the server has written and the client has not read. -/
  toClient : List UInt8 := []

namespace IpcLink

/-- A frame and whom it answers. -/
abbrev Sent := Ipc.Kind × JsonObject

def sentBy : Ipc.Entry → Option Sent
  | .sent kind frame => some (kind, frame)
  | _ => none

/-- The frames that were sent. -/
def sentOf (log : List Ipc.Entry) : List Sent := log.filterMap sentBy

/-- Their bytes. -/
def bytesOf (w : IpcWire) (frames : List Sent) : List UInt8 :=
  frames.flatMap fun sent => w.toJson sent.2 ++ [10]

inductive Action
  | call (method : QString) (params : JsonObject) (credential : QString)
  /-- The client is interrupted, or its time is up. -/
  | giveUp (interrupted : Bool)
  | readAll (bytes : Nat)
  | line
  /-- The client learns that the connection is lost. -/
  | lost
  | receive (bytes : Nat)
  /-- A step of the server that reads nothing. -/
  | serve (action : Ipc.Action)

/-- A step that reads from the socket. -/
def reads : Ipc.Action → Bool
  | .receive _ => true
  | _ => false

/-- The server takes a step; what it writes is in transit. -/
def served (w : IpcWire) (a : Ipc.Action) (s : IpcLink) : Option IpcLink :=
  (s.server.step w.server a).map fun server => { s with
    server
    toClient := s.toClient
      ++ bytesOf w (sentOf (server.log.drop s.server.log.length)) }

def step (w : IpcWire) (s : IpcLink) : Action → Option IpcLink
  | .call method params credential => match s.client.main with
      | .idle =>
          if s.client.connected = false then none
          else
            let (client, bytes) :=
              s.client.begin w.toJson method params credential
            some { s with
              client
              toServer := s.toServer ++ bytes }
      | _ => none
  | .giveUp interrupted => match s.client.main with
      | .waiting call => some { s with
          client := s.client.abort call
            (if interrupted = true then "Interrupted"
              else "Service request timed out") }
      | _ => none
  | .readAll bytes => match s.client.main with
      | .waiting call => some { s with
          client := { s.client with
            input := s.client.input ++ s.toClient.take bytes
            main := .reading call }
          toClient := s.toClient.drop bytes }
      | _ => none
  | .line => match s.client.main with
      | .reading call =>
          some { s with client := s.client.line w.server.parse call }
      | _ => none
  | .lost => some { s with client := { s.client with connected := false } }
  | .receive bytes =>
      { s with toServer := s.toServer.drop bytes }.served w
        (.receive (s.toServer.take bytes))
  | .serve a => if reads a = true then none else s.served w a

end IpcLink

end LocalLLM
