/-
The runtime side of the MLX worker (`runtimes/MlxRuntime.cpp`).

# The process

The worker process is a queue. For a request that reaches it, it writes an
`WorkerAnswer`: lines, of which only the last may be a result or an error. Its
output arrives in chunks of any size at any time, it may exit at any time,
and it is gone once it is killed. Every byte of output carries the number
of the request it was written for; the code never looks at it.

# A call

A call writes a request and reads lines until one of them ends it. Its
loop looks at the clock in every turn, so the turns of a call are a list:
when it is used up, the time is.

The fields `requests`, `answers`, `processes` and `log` of `MlxWorker` have
no counterpart in the source. They count the requests, keep what the worker
answers to each, list what each process was sent, and which lines were
handed to the consumer or returned.
-/
import LocalLLM.Runtimes.MlxWorker
import LocalLLM.Runtimes.Runtime

namespace LocalLLM

/-- A byte of output, and the request it was written for. -/
structure OutputByte where
  byte : UInt8
  request : Nat
deriving DecidableEq

abbrev Output := List OutputByte

/-- A line, without its newline. -/
abbrev WireLine := List UInt8

/-- What the code relies on: Qt, and the specification of the model. -/
structure Mlx where
  /-- `QJsonDocument::fromJson`, of an object. -/
  fromJson : WireLine → Option JsonObject
  /-- `validateGenerationOptions(options, "mlx")`. -/
  validate : GenerationOptions → Except Exn Unit
  path : QString
  contextTokens : Int
  /-- `enumName(device.backend)`. -/
  backend : QString

/-- `event.value("type").toString()`. -/
def Mlx.typeOf (M : Mlx) (line : WireLine) : QString :=
  ((M.fromJson line).map fun event =>
    Json.toText (Json.lookup event (qs "type"))).getD []

/-- The answer to a request: some lines, of which only the last
one may end it. -/
structure WorkerAnswer (M : Mlx) where
  lines : List WireLine
  no_newline : ∀ line ∈ lines, (10 : UInt8) ∉ line
  only_last : ∀ line ∈ lines.dropLast,
    M.typeOf line ≠ qs "result" ∧ M.typeOf line ≠ qs "error"

/-- A turn of the loop of a call. -/
structure PipeTurn where
  cancelled : Bool := false
  /-- How many more bytes can be read. -/
  arrives : Nat := 0
  /-- The process exits. -/
  exits : Bool := false

/-- What is outside the code, for one call. -/
structure CallOutside (M : Mlx) where
  /-- `process.write` takes the whole line. -/
  writes : Bool := true
  answer : WorkerAnswer M
  turns : List PipeTurn := []
  diagnostics : QString := []

/-- A line that was handed to the consumer or returned. -/
inductive MlxEvent
  | delta (request : Nat) (line : Output)
  | result (request : Nat) (line : Output)
deriving DecidableEq

def MlxEvent.request : MlxEvent → Nat
  | .delta request _ => request
  | .result request _ => request

def MlxEvent.line : MlxEvent → Output
  | .delta _ line => line
  | .result _ line => line

/-- `MlxWorker`. -/
structure MlxWorker where
  /-- `process.state() == Running`. -/
  running : Bool := false
  /-- What the process will have written and has not been read. -/
  output : Output := []
  input : Output := []
  /-- What the consumer of this call was handed. -/
  handed : List QString := []
  requests : Nat := 0
  answers : List (List WireLine) := []
  processes : List (List Worker.Request) := []
  log : List MlxEvent := []

namespace MlxWorker

abbrev MlxM := Exec Exn MlxWorker

/-- A consumer: what it answers to the last of the texts it was handed. -/
abbrev Consumer := List QString → Except Exn Bool

/-- `stop`. -/
def stop : MlxM Unit :=
  modify fun w => { w with running := false, input := [] }

/-- Lines as they are written for a request. -/
def render (request : Nat) (lines : List WireLine) : Output :=
  lines.flatMap fun line => (line ++ [10]).map fun byte => { byte, request }

/-- The request is added to those of the running process. -/
def sent (request : Worker.Request) :
    List (List Worker.Request) → List (List Worker.Request)
  | [] => [[request]]
  | current :: before => (current ++ [request]) :: before

/-- The line of the request is written. A process that runs will answer. -/
def write {M : Mlx} (o : CallOutside M) (request : Worker.Request) :
    MlxM Unit := do
  let w ← get
  if w.running && o.writes then
    set { w with
      output := w.output ++ render w.requests o.answer.lines
      requests := w.requests + 1
      answers := w.answers ++ [o.answer.lines]
      processes := sent request w.processes }
  else do
    stop
    throw (err .RuntimeFailure "MLX worker write failed")

/-- The first line of the input, and what is behind its newline. -/
def cutLine : Output → Option (Output × Output)
  | [] => none
  | b :: rest =>
      if b.byte = 10 then some ([], rest)
      else (cutLine rest).map fun cut => (b :: cut.1, cut.2)

/-- `waitForReadyRead` and `readAllStandardOutput`: what has arrived is
appended to the input. -/
def read (turn : PipeTurn) : MlxM Unit :=
  modify fun w => { w with
    running := w.running && !turn.exits
    input := w.input ++ w.output.take turn.arrives
    output := if turn.exits then [] else w.output.drop turn.arrives }

/-- The consumer is handed a text. -/
def hand (consumer : Consumer) (request : Nat) (line : Output)
    (text : QString) : MlxM Bool := do
  let w ← get
  set { w with
    handed := w.handed ++ [text]
    log := w.log ++ [MlxEvent.delta request line] }
  Exec.ofExcept (consumer (w.handed ++ [text]))

/-- The result that is made up when the consumer has had enough. A counter
that the event does not have is undefined, and an undefined member is left
out of an object. -/
def declined (event : JsonObject) : JsonObject :=
  Json.ofMembers ((qs "finish_reason", .string (qs "stop"))
    :: [qs "generated_tokens", qs "cached_tokens"].filterMap fun name =>
      (Json.lookup event name).map fun value => (name, value))

/-- One line of the input. It returns what ends the call. -/
def handle (M : Mlx) (request : Nat) (onText : Option Consumer)
    (line : Output) : MlxM (Option JsonObject) :=
  match M.fromJson (line.map OutputByte.byte) with
  | none => throw (err .ProtocolError "Invalid MLX worker JSON")
  | some event =>
      let type := Json.toText (Json.lookup event (qs "type"))
      if type = qs "error" then throw (.error ⟨.RuntimeFailure,
        Json.toText (Json.lookup event (qs "message"))⟩)
      else if type = qs "result" then do
        modify fun w => { w with log := w.log ++ [.result request line] }
        return some event
      else match onText, Json.lookup event (qs "text") with
        | some consumer, some (.string text) =>
            if type ≠ qs "delta" then
              throw (err .ProtocolError "Unexpected MLX worker event")
            else do
              let keepGoing ← hand consumer request line text
              if keepGoing then return none
              else do
                stop
                return some (declined event)
        | _, _ => throw (err .ProtocolError "Unexpected MLX worker event")

/-- The lines that have arrived, `left` of them at most. -/
def readLines (M : Mlx) (request : Nat) (onText : Option Consumer) :
    Nat → MlxM (Option JsonObject)
  | 0 => return none
  | left + 1 => do
      let w ← get
      match cutLine w.input with
      | none => return none
      | some (line, rest) => do
          set { w with input := rest }
          let ended ← handle M request onText line
          match ended with
          | some event => return some event
          | none => readLines M request onText left

/-- 16 MiB. -/
def frameLimit : Nat := 16 * 1024 * 1024

/-- The loop of a call. -/
def loop (M : Mlx) (request : Nat) (onText : Option Consumer)
    (diagnostics : QString) : List PipeTurn → MlxM JsonObject
  | [] => throw (err .Timeout "MLX worker timed out")
  | turn :: turns => do
      if turn.cancelled then throw cancelledError
      else do
        read turn
        let w ← get
        if frameLimit < w.input.length then
          throw (err .ProtocolError "MLX worker frame too large")
        else do
          let ended ← readLines M request onText w.input.length
          let w ← get
          match ended with
          | some event => return event
          | none =>
              if w.running then loop M request onText diagnostics turns
              else throw (.error ⟨.RuntimeFailure,
                qs "MLX worker exited: " ++ diagnostics⟩)

/-- `call`. -/
def call (M : Mlx) (o : CallOutside M) (request : Worker.Request)
    (onText : Option Consumer) : MlxM JsonObject := do
  let w ← get
  set { w with handed := [] }
  write o request
  tryCatch (loop M w.requests onText o.diagnostics o.turns) fun e => do
    stop
    throw e

-- ======================================================================= uses

/-- What is outside the code, for one use. -/
structure Outside (M : Mlx) where
  /-- The process has exited since the last use. -/
  exited : Bool := false
  cancelled : Bool := false
  /-- `waitForStarted` fails, with `errorString`. -/
  startFails : Option QString := none
  load : CallOutside M
  call : CallOutside M

/-- `process.start()`: a new process, and nothing of an old one. -/
def launched (w : MlxWorker) : MlxWorker :=
  { w with
    running := true
    input := []
    output := []
    processes := [] :: w.processes }

/-- `start`. -/
def start (M : Mlx) (o : Outside M) : MlxM Unit := do
  let w ← get
  if w.running then pure ()
  else if o.cancelled then throw cancelledError
  else match o.startFails with
    | some error => do
        stop
        throw (.error ⟨.RuntimeUnavailable, error⟩)
    | none => do
        set (launched w)
        let result ← call M o.load
          (.load M.backend M.path M.contextTokens) none
        if Json.toText (Json.lookup result (qs "backend")) ≠ M.backend then do
          stop
          throw (err .ProtocolError
            "MLX worker did not confirm the selected execution backend")
        else pure ()

/-- `QJsonValue::toInt` of a number that is an `int`. -/
def intOf : Option Json → Option Int
  | some (.number (.finite q)) =>
      if q.den = 1 ∧ -2 ^ 31 ≤ q.num ∧ q.num < 2 ^ 31 then some q.num else none
  | _ => none

/-- The result of a generation. -/
def resultOf (result : JsonObject) : Except Exn RuntimeResult :=
  let reason := Json.toText (Json.lookup result (qs "finish_reason"))
  if reason ≠ qs "stop" ∧ reason ≠ qs "length" then
    .error (err .ProtocolError "MLX returned an invalid finish reason")
  else .ok
    { finishReason := if reason = qs "stop" then .Stop else .Length
      generatedTokens :=
        (intOf (Json.lookup result (qs "generated_tokens"))).getD 0
      cachedTokens := (intOf
        (Json.lookup result (qs "cached_tokens"))).getD 0 }

/-- The tokens of a result, one after the other. -/
def tokensOf : List Json → Except Exn TokenList
  | [] => .ok []
  | value :: values =>
      match intOf (some value) with
      | some n =>
          if n < 0 then .error
            (err .ProtocolError "MLX tokenizer returned an invalid token")
          else (tokensOf values).map (Int32.ofInt n :: ·)
      | none => .error
          (err .ProtocolError "MLX tokenizer returned an invalid token")

/-- `MlxContext::generate`. -/
def generate (M : Mlx) (o : Outside M) (request : Worker.GenerateRequest)
    (consumer : Consumer) : MlxM RuntimeResult := do
  Exec.ofExcept (M.validate request.options)
  start M o
  let result ← call M o.call (.generate request) (some consumer)
  Exec.ofExcept (resultOf result)

/-- `MlxModel::tokenize`. -/
def tokenize (M : Mlx) (o : Outside M) (messages : List Json) :
    MlxM TokenList := do
  start M o
  let result ← call M o.call (.tokenize messages) none
  match Json.lookup result (qs "tokens") with
  | some (.array values) => Exec.ofExcept (tokensOf values)
  | _ => throw (err .ProtocolError "MLX tokenizer omitted tokens")

/-- `~MlxContext`. -/
def drop (M : Mlx) (o : Outside M) (contextId : QString) : MlxM Unit := do
  let w ← get
  if w.running then do
    let _ ← Exec.attempt (call M o.call (.drop contextId) none)
    pure ()
  else pure ()

/-- A use of the worker, by the model or by any of its contexts. -/
inductive Use
  | start
  | generate (request : Worker.GenerateRequest) (consumer : Consumer)
  | tokenize (messages : List Json)
  | drop (contextId : QString)
  | stop

/-- A use, with what it returns left out. -/
def perform (M : Mlx) (o : Outside M) : Use → MlxM Unit
  | .start => start M o
  | .generate request consumer => do
      let _ ← generate M o request consumer
      pure ()
  | .tokenize messages => do
      let _ ← tokenize M o messages
      pure ()
  | .drop contextId => drop M o contextId
  | .stop => stop

/-- The worker after a use, before which the process may have exited. -/
def after (M : Mlx) (w : MlxWorker) (use : Outside M × Use) : MlxWorker :=
  (perform M use.1 use.2
    { w with running := w.running && !use.1.exited }).2

/-- The worker after any uses. -/
def used (M : Mlx) (uses : List (Outside M × Use)) : MlxWorker :=
  uses.foldl (after M) {}

end MlxWorker

end LocalLLM
