/-
The vocabulary of the service: errors, messages, requests, results and
options, with the defaults of the source.

A C++ exception is one of three things to the handlers that catch it
(`Exn`): an `Error` with a code, another `std::exception` with a text, or
something else. What is outside the modelled code (a runtime, the files
on disk, the clock, the cancellation flag, the memory that is free) is
asked at named places, and one `Env` holds every answer of one task.
-/
import LocalLLM.Core.Json

namespace LocalLLM

-- ================================================================== errors

inductive ErrorCode
  | None | InvalidArgument | NotFound | AlreadyExists | ModelInUse
  | QueueFull | Cancelled | ContextOverflow | ResourceLimit
  | RuntimeUnavailable | RuntimeFailure | Timeout | ConsumerFailure
  | ShuttingDown | ProtocolError | InvalidManifest | IntegrityFailure
  | StorageFailure | Unauthorized
deriving DecidableEq

/-- `enumName(ErrorCode)`. -/
def ErrorCode.enumName : ErrorCode → QString
  | .None => qs "none"
  | .InvalidArgument => qs "invalid_argument"
  | .NotFound => qs "not_found"
  | .AlreadyExists => qs "already_exists"
  | .ModelInUse => qs "model_in_use"
  | .QueueFull => qs "queue_full"
  | .Cancelled => qs "cancelled"
  | .ContextOverflow => qs "context_overflow"
  | .ResourceLimit => qs "resource_limit"
  | .RuntimeUnavailable => qs "runtime_unavailable"
  | .RuntimeFailure => qs "runtime_failure"
  | .Timeout => qs "timeout"
  | .ConsumerFailure => qs "consumer_failure"
  | .ShuttingDown => qs "shutting_down"
  | .ProtocolError => qs "protocol_error"
  | .InvalidManifest => qs "invalid_manifest"
  | .IntegrityFailure => qs "integrity_failure"
  | .StorageFailure => qs "storage_failure"
  | .Unauthorized => qs "unauthorized"

/-- `Error`: a code and the text of `what()`. -/
structure Error where
  code : ErrorCode
  message : QString
deriving DecidableEq

/-- A thrown value, as the handlers of the service tell them apart. -/
inductive Exn
  | error (e : Error)
  | std (what : QString)
  | unknown
deriving DecidableEq

/-- `throw Error(code, message)`. -/
def err (code : ErrorCode) (message : String) : Exn :=
  .error ⟨code, qs message⟩

/-- `require(condition, code, message)`. -/
def require (condition : Prop) [Decidable condition] (code : ErrorCode)
    (message : String) : Except Exn Unit :=
  if condition then .ok () else .error (err code message)

@[simp] theorem require_eq_ok {condition : Prop} [Decidable condition]
    {code : ErrorCode} {message : String} {u : Unit} :
    require condition code message = .ok u ↔ condition := by
  unfold require
  by_cases h : condition <;> simp [h]

/-- What `throwIfCancelled` throws. -/
def cancelledError : Exn := err .Cancelled "Request cancelled"

/-- `std::map::at` on a key that is absent. -/
def outOfRange : Exn := .std (qs "map::at:  key not found")

-- ============================================================ conversations

inductive Role
  | System | User | Assistant
deriving DecidableEq

/-- `enumName(Role)`. -/
def Role.enumName : Role → QString
  | .System => qs "system"
  | .User => qs "user"
  | .Assistant => qs "assistant"

inductive FinishReason
  | Stop | Length | Cancelled | Error
deriving DecidableEq

/-- `enumName(FinishReason)`. -/
def FinishReason.enumName : FinishReason → QString
  | .Stop => qs "stop"
  | .Length => qs "length"
  | .Cancelled => qs "cancelled"
  | .Error => qs "error"

structure ChatMessage where
  role : Role := .User
  content : QString := []
deriving DecidableEq

abbrev Token := Int32

abbrev TokenList := List Token

structure GenerationOptions where
  maxTokens : Int := 256
  temperature : Double := .finite (7 / 10)
  topP : Double := .finite (9 / 10)
  topK : Int := 40
  seed : UInt32 := 0
  stop : List QString := []
  minP : Double := .finite 0
  typicalP : Double := .finite 1
  minKeep : Int := 1
  repetitionPenalty : Double := .finite 1
  repetitionContextSize : Int := 64
  presencePenalty : Double := .finite 0
  frequencyPenalty : Double := .finite 0
  xtcProbability : Double := .finite 0
  xtcThreshold : Double := .finite (1 / 10)
  logitBias : JsonObject := []

structure ModelLoadRequest where
  model : QString
  contextTokens : Int := 0
  options : JsonObject := []
  keepAliveMs : Int := -1

structure ChatRequest where
  sessionId : QString := []
  prompt : QString := []
  options : GenerationOptions := {}
  keepAliveMs : Int := -1

structure CompletionRequest where
  model : QString
  messages : List ChatMessage
  options : GenerationOptions := {}
  keepAliveMs : Int := -1

structure ConversationRequest where
  model : QString
  messages : List Json
  tools : List Json := []
  toolChoice : QString := qs "auto"
  contextId : QString := []
  options : GenerationOptions := {}
  keepAliveMs : Int := -1
  parallelToolCalls : Bool := true
  responseSchema : JsonObject := []
  enableThinking : Option Bool := none

structure Usage where
  promptTokens : Int := 0
  generatedTokens : Int := 0
  cachedTokens : Int := 0
  droppedMessages : Int := 0
deriving DecidableEq

structure GenerationResult where
  requestId : QString
  sessionId : QString
  text : QString := []
  finishReason : FinishReason := .Error
  usage : Usage := {}
  errorCode : ErrorCode := .None
  errorMessage : QString := []
  toolCalls : List Json := []
  reasoning : QString := []
deriving DecidableEq

/-- A `StreamEvent`, by kind; every kind carries the request and
session ids. -/
inductive StreamEvent
  | started (requestId sessionId : QString)
  | delta (requestId sessionId text : QString)
  | finished (requestId sessionId : QString) (result : GenerationResult)
deriving DecidableEq

/-- The text of an event. -/
def StreamEvent.text : StreamEvent → QString
  | .delta _ _ text => text
  | _ => []

/-- The last event of a request. -/
def StreamEvent.isFinished : StreamEvent → Bool
  | .finished _ _ _ => true
  | _ => false

/-- A stream callback: whether it throws on the last of the events handed
to it so far. -/
abbrev StreamCallback := List StreamEvent → Bool

structure SessionSnapshot where
  id : QString
  modelId : QString
  messages : List ChatMessage
deriving DecidableEq

-- ================================================================= options

/-- `ServiceOptions`, in the integer types of the source. -/
structure ServiceOptions where
  maxQueuedRequests : Int32 := 64
  maxModels : Int32 := 4
  maxSessions : Int32 := 128
  maxCachedContexts : Int32 := 4
  maxCachedContextTokens : Int32 := 16384
  maxInputCharacters : Int32 := 1024 * 1024
  modelsDirectory : QString := qs "Models"
  defaultContextTokens : Int32 := 2048
  memoryBudgetBytes : UInt64 := 0
  memoryReserveBytes : UInt64 := 256 * 1024 * 1024
  keepAliveMs : Int64 := -1
  registryFile : QString := []

/-- Seven days, the longest keep-alive. -/
def maxKeepAliveMs : Int := 7 * 86400000

/-- What `checked` asks of the options. -/
def ServiceOptions.Valid (o : ServiceOptions) : Prop :=
  1 ≤ o.maxQueuedRequests.toInt ∧ 1 ≤ o.maxModels.toInt
    ∧ 1 ≤ o.maxSessions.toInt ∧ 1 ≤ o.maxCachedContexts.toInt
    ∧ 2 ≤ o.maxCachedContextTokens.toInt ∧ 1 ≤ o.maxInputCharacters.toInt
    ∧ 2 ≤ o.defaultContextTokens.toInt
    ∧ QString.trimmed o.modelsDirectory ≠ []
    ∧ -1 ≤ o.keepAliveMs.toInt ∧ o.keepAliveMs.toInt ≤ maxKeepAliveMs

instance (o : ServiceOptions) : Decidable o.Valid := by
  unfold ServiceOptions.Valid
  infer_instance

/-- Options that passed `checked`. -/
abbrev CheckedOptions := { o : ServiceOptions // o.Valid }

/-- `checked`: the options, or the error the service constructor throws. -/
def checked (o : ServiceOptions) : Except Exn CheckedOptions :=
  if h : o.Valid then .ok ⟨o, h⟩
  else .error (err .InvalidArgument "Service limits must be positive")

-- ============================================================= the outside

/-- A number that tells the outside calls of one task from those of
another: the same call with another probe may answer differently. -/
abbrev Probe := Nat

/-- The places that read a cancellation token. -/
inductive Poll
  | start
  | verify
  | admission (turn : Nat)
  | scan (runtime : Nat)
  | attempt (index : Nat)
  | loaded (index : Nat)
  | failed (index : Nat)
  | prepare (turn : Nat)
  | delta (index : Nat)
  | afterGenerate
  | afterFlush
deriving DecidableEq

/-- The places that read the clock. -/
inductive ClockRead
  | touch | acquire | loaded | release | expired | info
deriving DecidableEq

/-- The places that read the available memory, by turn of their loop. -/
inductive RamRead
  | admission (turn : Nat)
  | pressure (turn : Nat)
deriving DecidableEq

/-- What the outside answers during one task of the worker. -/
structure Env where
  probe : Probe := 0
  cancelled : Poll → Bool := fun _ => false
  now : ClockRead → Int := fun _ => 0
  ram : RamRead → Option UInt64 := fun _ => none

/-- `token.throwIfCancelled()` at one of its places. -/
def Env.throwIfCancelled (env : Env) (poll : Poll) : Except Exn Unit :=
  if env.cancelled poll then .error cancelledError else .ok ()

end LocalLLM
