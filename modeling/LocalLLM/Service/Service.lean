/-
The tasks of the service (`Service.cpp`): chats and completions, structured
conversations, embeddings and measurements, and the requests on models and
sessions.

# A task and its local variables

A generation is a computation over its local variables (`Turn`), of which
the worker's state is one. What it does to the state stays done when it
throws: that is what its handler has to clean up. The handler, the closing
of a temporary session, the return of the lease and the last event follow
one another after the `try`, as in the source.

# The consumer

A stream callback is asked, event by event, whether it throws; `delivered`
lists the events it was handed. The result a task returns is the value its
promise is set to, once, as the task's last step.

# A small service

`Sample` is an instance to run: one package on disk, one runtime that offers
the CPU, loads everything and answers with one fixed text, and a run that
chats with it.
-/
import LocalLLM.Service.Conversation
import LocalLLM.Service.PromptEngine

namespace LocalLLM

open ModelManager

-- ================================================================== results

/-- `failure`. -/
def failure (result : GenerationResult) (error : Error) : GenerationResult :=
  { result with
    errorCode := error.code
    errorMessage := error.message
    finishReason := if error.code = .Cancelled then .Cancelled else .Error
    toolCalls := []
    reasoning := [] }

/-- The `Error` a handler makes of what it caught. -/
def Exn.asError (unknown : String) : Exn → Error
  | .error e => e
  | .std what => ⟨.RuntimeFailure, what⟩
  | .unknown => ⟨.RuntimeFailure, qs unknown⟩

/-- The local variables of a generation. -/
structure Turn where
  state : State
  request : ChatRequest := {}
  result : GenerationResult
  temporarySession : QString := []
  leasedModel : QString := []
  cacheId : QString := []
  stop : StopFilter := {}
  raw : QString := []
  texts : Nat := 0
  delivered : List StreamEvent := []

abbrev TurnM := Exec Exn Turn

namespace Turn

/-- A step of the worker inside a generation. -/
def onState {α : Type} (m : Task α) : TurnM α :=
  Exec.zoom Turn.state (fun s t => { t with state := s }) m

/-- A step that does not look at the variables. -/
def lift {α : Type} (r : Except Exn α) : TurnM α := Exec.ofExcept r

/-- `notify`. -/
def notify (callback : Option StreamCallback) (event : StreamEvent) :
    TurnM Unit :=
  match callback with
  | none => pure ()
  | some throwsOn => do
      let t ← get
      set { t with delivered := t.delivered ++ [event] }
      lift (require (throwsOn (t.delivered ++ [event]) = false)
        .ConsumerFailure "Stream consumer threw an exception")

/-- `finish`: what the callback throws is dropped. -/
def finish (callback : Option StreamCallback) : TurnM Unit :=
  match callback with
  | none => pure ()
  | some _ => modify fun t => { t with delivered := t.delivered
      ++ [.finished t.result.requestId t.result.sessionId t.result] }

/-- The return of the lease, if there is one. -/
def giveBack (c : Config) (env : Env) : TurnM Unit := do
  let t ← get
  if t.leasedModel ≠ [] then onState (release c env t.leasedModel) else pure ()

/-- `cache.erase(key)`. -/
def eraseContext (key : QString) : TurnM Unit :=
  modify fun t => { t with state := { t.state with
    cache := t.state.cache.erase key } }

end Turn

/-- `cache.acquire`, on the record of who uses which key. -/
def useContext (c : Config) (env : Env) (key : QString) (model : LoadedModel) :
    Task RuntimeContext := do
  log (.contextUsed key model.spec.id)
  Exec.zoom State.cache (fun cache s => { s with cache })
    (ContextCacheManager.acquire c env key model)

/-- `sessions.create`. -/
def newSession (c : Config) (modelId system : QString) : Task QString := do
  let s ← get
  let sessions ← Exec.ofExcept
    (s.sessions.create c.maxSessions (c.uuid s.issued) modelId system)
  set { s with
    sessions
    issued := s.issued + 1
    trace := s.trace ++ [Event.sessionCreated (c.uuid s.issued) modelId] }
  return c.uuid s.issued

-- ==================================================================== chats

/-- The loop over the messages of a completion. -/
def checkTurns (c : Config) : Bool → Int → Role → List ChatMessage →
    Except Exn Unit
  | _, _, _, [] => .ok ()
  | first, characters, expected, message :: rest => do
      let characters := characters + message.content.length
      require (characters ≤ c.maxInputCharacters
          ∧ QString.trimmed message.content ≠ []) .InvalidArgument
        "messages are empty or exceed the service input limit"
      if first = true ∧ message.role = .System then
        checkTurns c false characters expected rest
      else
        require (message.role = expected) .InvalidArgument
          "messages must alternate user/assistant after an optional initial system message"
        checkTurns c false characters
          (if expected = .User then .Assistant else .User) rest

/-- The part of `generate` that turns a completion into a chat of a
temporary session. -/
def openTemporary (c : Config) (env : Env) (completion : CompletionRequest) :
    TurnM Unit := do
  let t ← get
  let info ← Turn.lift (resolve c env t.state.models completion.model)
  Turn.lift (require (qs "chat" ∈ info.manifest.capabilities) .InvalidArgument
    "Model manifest does not declare the chat capability")
  Turn.lift (require
    ((completion.messages.getLast?).map ChatMessage.role = some .User)
    .InvalidArgument "messages must end with a user message")
  Turn.lift (checkTurns c true 0 .User completion.messages)
  let id ← Turn.onState (newSession c info.manifest.id [])
  modify fun t => { t with temporarySession := id }
  let t ← get
  let temporary ← Turn.lift (t.state.sessions.get id)
  set { t with
    state := { t.state with sessions :=
      t.state.sessions.setMessages temporary completion.messages.dropLast }
    request :=
      { sessionId := id
        prompt := ((completion.messages.getLast?).map ChatMessage.content).getD
          []
        options := completion.options
        keepAliveMs := completion.keepAliveMs } }

/-- `emitText`. -/
def emitText (callback : Option StreamCallback) (text : QString) :
    TurnM Unit :=
  if text = [] then pure ()
  else do
    let t ← get
    set { t with result := { t.result with text := t.result.text ++ text } }
    Turn.notify callback
      (.delta t.result.requestId t.result.sessionId text)

/-- The text callback of a chat. -/
def onText (env : Env) (callback : Option StreamCallback) (text : QString) :
    TurnM Bool := do
  let t ← get
  set { t with texts := t.texts + 1 }
  Turn.lift (env.throwIfCancelled (.delta t.texts))
  modify fun t => { t with stop := (t.stop.push text).2 }
  emitText callback (t.stop.push text).1
  let t ← get
  return !t.stop.stopped

def assistantMessage (text : QString) : ChatMessage :=
  { role := .Assistant, content := text }

/-- The part of a chat from the prompt to the commit. -/
def generateText (c : Config) (env : Env) (callback : Option StreamCallback)
    (session : SessionSnapshot) (model : LoadedModel) : TurnM Unit := do
  let t ← get
  let prepared ← Turn.lift (PromptEngine.prepare c env session t.request model)
  modify fun t =>
      { t with result := { t.result with usage := { t.result.usage with
    promptTokens := prepared.tokens.length
    droppedMessages := prepared.droppedMessages } } }
  let context ← Turn.onState (useContext c env session.id model)
  Turn.notify callback (.started t.result.requestId t.result.sessionId)
  modify fun t => { t with stop := { stops := t.request.options.stop } }
  let generated ←
    (context.generate env.probe prepared.tokens t.request.options).run
      (onText env callback)
  Turn.lift (env.throwIfCancelled .afterGenerate)
  let u ← get
  set { u with stop := u.stop.finish.2 }
  emitText callback u.stop.finish.1
  Turn.lift (env.throwIfCancelled .afterFlush)
  Turn.lift (require (generated.finishReason = .Stop
      ∨ generated.finishReason = .Length) .RuntimeFailure
    "Runtime returned an invalid terminal status")
  let u ← get
  set { u with
    result := { u.result with
      usage := { u.result.usage with
        generatedTokens := generated.generatedTokens
        cachedTokens := generated.cachedTokens }
      finishReason :=
        if u.stop.stopped then .Stop else generated.finishReason }
    state := { u.state with
      sessions := u.state.sessions.setMessages session
        (prepared.messages ++ [assistantMessage u.result.text])
      cache := if u.stop.stopped then u.state.cache.erase session.id
        else u.state.cache } }

/-- What a completion does before it is a chat like any other. -/
def openCompletion (c : Config) (env : Env) :
    Option CompletionRequest → TurnM Unit
  | none => pure ()
  | some completion => openTemporary c env completion

/-- The body of the `try` of `generate`. -/
def generateBody (c : Config) (env : Env) (callback : Option StreamCallback)
    (completion : Option CompletionRequest) : TurnM Unit := do
  Turn.lift (env.throwIfCancelled .start)
  openCompletion c env completion
  let t ← get
  let session ← Turn.lift (t.state.sessions.get t.request.sessionId)
  let model ← Turn.onState
    (acquire c env session.modelId t.request.keepAliveMs)
  modify fun t => { t with leasedModel := session.modelId }
  generateText c env callback session model

/-- The handlers of `generate`. -/
def generateFailed (thrown : Exn) : TurnM Unit := do
  let t ← get
  Turn.eraseContext t.request.sessionId
  modify fun t => { t with
    result := failure t.result (thrown.asError "Unknown runtime failure") }

/-- The end of a temporary session. -/
def closeTemporary : TurnM Unit := do
  let t ← get
  if t.temporarySession ≠ [] then do
    Turn.eraseContext t.temporarySession
    let sessions ← Turn.lift (t.state.sessions.close t.temporarySession)
    modify fun t => { t with state := { t.state with sessions } }
  else pure ()

/-- A generation from its start to the value of its promise. -/
def generateTurn (c : Config) (env : Env) (callback : Option StreamCallback)
    (completion : Option CompletionRequest) : TurnM Unit := do
  tryCatch (generateBody c env callback completion) generateFailed
  closeTemporary
  Turn.giveBack c env
  Turn.finish callback

-- ============================================================ conversations

/-- The cache key of a conversation. -/
def conversationKey (c : Config) (modelId key : QString) : QString :=
  qs "conversation:" ++ modelId ++ [qc ':'] ++ c.sha256Hex key

/-- The text callback of a conversation. -/
def onRaw (c : Config) (env : Env) (text : QString) : TurnM Bool := do
  let t ← get
  set { t with texts := t.texts + 1 }
  Turn.lift (env.throwIfCancelled (.delta t.texts))
  modify fun t => { t with
    stop := (t.stop.push text).2
    raw := t.raw ++ (t.stop.push text).1 }
  let t ← get
  Turn.lift (require ((t.raw.length : Int) ≤ c.maxInputCharacters)
    .ResourceLimit "Structured response exceeds output limit")
  return !t.stop.stopped

/-- The one delta of a conversation. -/
def emitReply (callback : Option StreamCallback) (text : QString) :
    TurnM Unit := do
  let t ← get
  if text ≠ [] then
    Turn.notify callback
      (.delta t.result.requestId t.result.sessionId text)
  else pure ()

/-- The end of a context that a stop string has cut. -/
def dropStopped : TurnM Unit := do
  let t ← get
  if t.stop.stopped then Turn.eraseContext t.cacheId else pure ()

/-- The part of a conversation before it has its model. -/
def converseOpen (c : Config) (env : Env) (request : ConversationRequest) :
    TurnM LoadedModel := do
  Turn.lift (env.throwIfCancelled .start)
  Turn.lift (validateConversationRequest c request c.maxInputCharacters)
  let t ← get
  let record ← Turn.lift (resolve c env t.state.models request.model)
  Turn.lift (require (qs "chat" ∈ record.manifest.capabilities)
    .InvalidArgument
    "Model does not declare chat capability")
  let model ← Turn.onState
    (acquire c env record.manifest.id request.keepAliveMs)
  modify fun t => { t with
    leasedModel := model.spec.id
    cacheId := conversationKey c model.spec.id
      (if request.contextId = [] then t.result.requestId
        else request.contextId) }
  return model

/-- The part from the prompt to the end of the generation. -/
def converseGenerate (c : Config) (env : Env)
    (callback : Option StreamCallback)
    (request : ConversationRequest) (model : LoadedModel) :
    TurnM (RuntimeConversationPrompt × RuntimeResult) := do
  let prepared ← Turn.lift
    (model.runtime.prepareConversation env.probe request)
  Turn.lift (require (0 < prepared.tokenCount ∧ prepared.tokenCount
      ≤ model.spec.contextTokens - request.options.maxTokens) .ContextOverflow
    "Structured conversation exceeds context; compact its complete tool turns before retrying")
  modify fun t =>
      { t with result := { t.result with usage := { t.result.usage with
    promptTokens := prepared.tokenCount } } }
  let t ← get
  let context ← Turn.onState (useContext c env t.cacheId model)
  Turn.notify callback (.started t.result.requestId t.result.sessionId)
  modify fun t => { t with
    stop := { stops := request.options.stop ++ prepared.stop } }
  let generated ←
    (context.generateConversation env.probe prepared request.options).run
      (onRaw c env)
  return (prepared, generated)

/-- The part from the raw text to the reply. -/
def converseReply (c : Config) (env : Env) (callback : Option StreamCallback)
    (request : ConversationRequest) (model : LoadedModel)
    (prepared : RuntimeConversationPrompt) (generated : RuntimeResult) :
    TurnM Unit := do
  Turn.lift (env.throwIfCancelled .afterGenerate)
  modify fun t => { t with
    raw := t.raw ++ t.stop.finish.1
    stop := t.stop.finish.2 }
  Turn.lift (require (generated.finishReason = .Stop
      ∨ generated.finishReason = .Length) .RuntimeFailure
    "Runtime returned an invalid terminal status")
  modify fun t => { t with result := { t.result with
    usage := { t.result.usage with
      generatedTokens := generated.generatedTokens
      cachedTokens := generated.cachedTokens }
    finishReason := if t.stop.stopped then .Stop
      else generated.finishReason } }
  let t ← get
  Turn.lift (require (t.result.finishReason ≠ .Length) .ProtocolError
    "Structured response reached the output limit before a complete turn")
  let parsed ← Turn.lift
    (model.runtime.parseConversation env.probe prepared t.raw)
  let reply ← Turn.onState (validateConversationReply c parsed request)
  modify fun t => { t with result := { t.result with
    text := reply.text
    reasoning := reply.reasoning
    toolCalls := reply.toolCalls } }
  emitReply callback reply.text
  dropStopped

/-- The body of the `try` of `converse`. -/
def converseBody (c : Config) (env : Env) (callback : Option StreamCallback)
    (request : ConversationRequest) : TurnM Unit := do
  let model ← converseOpen c env request
  let (prepared, generated) ← converseGenerate c env callback request model
  converseReply c env callback request model prepared generated

/-- The handlers of `converse`. -/
def converseFailed (thrown : Exn) : TurnM Unit := do
  let t ← get
  Turn.eraseContext t.cacheId
  modify fun t => { t with
    result := failure t.result
      (thrown.asError "Unknown structured runtime failure") }

/-- The end of a context nobody can ask for again. -/
def dropUnnamed (request : ConversationRequest) : TurnM Unit := do
  let t ← get
  if request.contextId = [] then Turn.eraseContext t.cacheId else pure ()

/-- A conversation from its start to the value of its promise. -/
def converseTurn (c : Config) (env : Env) (callback : Option StreamCallback)
    (request : ConversationRequest) : TurnM Unit := do
  tryCatch (converseBody c env callback request) converseFailed
  dropUnnamed request
  Turn.giveBack c env
  Turn.finish callback

-- ========================================================= the whole tasks

/-- What a generation hands to its consumer and to its future. -/
structure Settled where
  events : List StreamEvent
  result : GenerationResult
deriving DecidableEq

/-- A turn as a task of the worker. -/
def settle (turn : TurnM Unit) (t : State → Turn) : Task Settled := fun s =>
  match turn (t s) with
  | (.ok (), u) => (.ok ⟨u.delivered, u.result⟩, u.state)
  | (.error e, u) => (.error e, u.state)

/-- The task of `chat` and `complete`. -/
def generate (c : Config) (env : Env) (requestId : QString)
    (request : ChatRequest) (completion : Option CompletionRequest)
    (callback : Option StreamCallback) : Task Settled :=
  settle (generateTurn c env callback completion) fun s =>
    { state := s
      request
      result := { requestId, sessionId := request.sessionId } }

/-- A conversation at its start. -/
def converseStart (requestId : QString) (request : ConversationRequest)
    (s : State) : Turn :=
  { state := s
    result := { requestId, sessionId := request.contextId } }

/-- The task of `converse`. -/
def converse (c : Config) (env : Env) (requestId : QString)
    (request : ConversationRequest) (callback : Option StreamCallback) :
    Task Settled :=
  settle (converseTurn c env callback request)
    (converseStart requestId request)

/-- The `reject` of both, when the scheduler refuses the task. -/
def rejected (requestId sessionId : QString) (callback : Option StreamCallback)
    (error : Error) : Settled :=
  let result := failure { requestId, sessionId } error
  { events := if callback.isSome then [.finished requestId sessionId result]
      else []
    result }

-- ============================================ embeddings and measurements

/-- The local variables of a task that leases a model. -/
structure Lease where
  state : State
  acquired : QString := []

abbrev LeaseM := Exec Exn Lease

namespace Lease

def onState {α : Type} (m : Task α) : LeaseM α :=
  Exec.zoom Lease.state (fun s l => { l with state := s }) m

/-- The return of the lease inside the `try`. -/
def returned {α : Type} (c : Config) (env : Env) (result : α) : LeaseM α := do
  let l ← get
  onState (release c env l.acquired)
  modify fun l => { l with acquired := [] }
  return result

/-- The return of the lease, if there is one. -/
def giveBack (c : Config) (env : Env) : LeaseM Unit := do
  let l ← get
  if l.acquired ≠ [] then onState (release c env l.acquired) else pure ()

/-- The handler. -/
def failed {α : Type} (c : Config) (env : Env) (thrown : Exn) : LeaseM α := do
  giveBack c env
  throw thrown

/-- A body between its lease and the value of its promise. -/
def around {α : Type} (c : Config) (env : Env) (body : LeaseM α) : Task α :=
  fun s =>
    let outcome := tryCatch (body >>= returned c env) (failed c env)
      { state := s }
    (outcome.1, outcome.2.state)

end Lease

/-- What `embedText` asks of an embedding. The squares of finite floats do
not overflow the sum, so it is positive unless every value is zero. -/
def checkEmbedding (values : List Double) : Except Exn Unit := do
  require (values ≠ [] ∧ values.length ≤ 16384) .RuntimeFailure
    "Runtime returned an invalid embedding dimension"
  require (∀ value ∈ values, value.isFinite = true) .RuntimeFailure
    "Runtime returned a non-finite embedding"
  require (∃ value ∈ values, value ≠ .finite 0) .RuntimeFailure
    "Runtime returned a zero or invalid embedding"

/-- The body of `embedText`. -/
def embedBody (c : Config) (env : Env) (model text : QString) :
    LeaseM (List Double) := do
  Exec.ofExcept (env.throwIfCancelled .start)
  Exec.ofExcept (require (QString.trimmed model ≠ []
      ∧ QString.trimmed text ≠ []
      ∧ (text.length : Int) ≤ c.maxInputCharacters ∧ (0 : QChar) ∉ text
      ∧ roundTripsUtf8 text = true) .InvalidArgument "Invalid embedding input")
  let l ← get
  let record ← Exec.ofExcept (resolve c env l.state.models model)
  Exec.ofExcept (require (qs "embedding" ∈ record.manifest.capabilities)
    .RuntimeUnavailable "Model does not declare embedding capability")
  let loaded ← Lease.onState (acquire c env record.manifest.id (-1))
  modify fun l => { l with acquired := loaded.spec.id }
  match loaded.runtime.embedText with
  | none => throw (err .RuntimeUnavailable
      "Selected runtime does not support embeddings")
  | some embed => do
      modify fun l => { l with state := { l.state with
        cache := l.state.cache.eraseModel loaded.spec.id } }
      let result ← Exec.ofExcept (embed env.probe text)
      Exec.ofExcept (env.throwIfCancelled .afterGenerate)
      Exec.ofExcept (checkEmbedding result)
      return result

/-- `embedText`. -/
def embedText (c : Config) (env : Env) (model text : QString) :
    Task (List Double) :=
  Lease.around c env (embedBody c env model text)

structure ContextBudget where
  inputTokens : Int
  contextTokens : Int
deriving DecidableEq

/-- The body of `measureConversation`. -/
def measureBody (c : Config) (env : Env) (request : ConversationRequest) :
    LeaseM ContextBudget := do
  Exec.ofExcept (env.throwIfCancelled .start)
  Exec.ofExcept (validateConversationRequest c request c.maxInputCharacters)
  let l ← get
  let record ← Exec.ofExcept (resolve c env l.state.models request.model)
  Exec.ofExcept (require (qs "chat" ∈ record.manifest.capabilities)
    .RuntimeUnavailable "Model does not support structured chat")
  let model ← Lease.onState
    (acquire c env record.manifest.id request.keepAliveMs)
  modify fun l => { l with acquired := model.spec.id }
  let prepared ← Exec.ofExcept
    (model.runtime.prepareConversation env.probe request)
  Exec.ofExcept (env.throwIfCancelled .afterGenerate)
  return ⟨prepared.tokenCount, model.spec.contextTokens⟩

/-- `measureConversation`. -/
def measureConversation (c : Config) (env : Env)
    (request : ConversationRequest) : Task ContextBudget :=
  Lease.around c env (measureBody c env request)

-- ====================================================== models and sessions

/-- `registerRuntime`. -/
def registerRuntime (runtime : Runtime) : Task Unit := do
  let s ← get
  let runtimes ← Exec.ofExcept (s.models.runtimes.addRuntime runtime)
  setRuntimes runtimes

/-- The check that `unloadModel` and `removeModel` make first. -/
def refuseUsed (c : Config) (model : QString) (message : String) :
    Task Unit := do
  let uri ← Exec.ofExcept (c.registry.canonical model)
  let id ← Exec.ofExcept (modelId uri)
  let s ← get
  check (s.sessions.usesModel id = false) .ModelInUse message

/-- `unloadModel`. -/
def unloadModel (c : Config) (env : Env) (model : QString) : Task Unit := do
  refuseUsed c model "Close model sessions before unloading"
  unload c env model

/-- `removeModel`. -/
def removeModel (c : Config) (env : Env) (model : QString) : Task Unit := do
  refuseUsed c model "Close model sessions before removing"
  remove c env model

/-- `createSession`. -/
def createSession (c : Config) (env : Env) (model system : QString) :
    Task QString := do
  let s ← get
  let info ← Exec.ofExcept (resolve c env s.models model)
  check (qs "chat" ∈ info.manifest.capabilities) .InvalidArgument
    "Model manifest does not declare the chat capability"
  check ((system.length : Int) ≤ c.maxInputCharacters) .InvalidArgument
    "System prompt exceeds input limit"
  newSession c info.manifest.id system

/-- `resetSession`. -/
def resetSession (id : QString) : Task Unit := do
  let s ← get
  let sessions ← Exec.ofExcept (s.sessions.reset id)
  modify fun s => { s with sessions, cache := s.cache.erase id }

/-- `closeSession`. -/
def closeSession (id : QString) : Task Unit := do
  let s ← get
  let sessions ← Exec.ofExcept (s.sessions.close id)
  modify fun s => { s with sessions, cache := s.cache.erase id }

-- =================================================================== a run

/-- The tasks of the worker that touch its state. -/
inductive Request
  | registerRuntime (runtime : Runtime)
  | loadModel (request : ModelLoadRequest)
  | unloadModel (model : QString)
  | removeModel (model : QString)
  | createSession (model system : QString)
  | resetSession (id : QString)
  | closeSession (id : QString)
  | chat (requestId : QString) (request : ChatRequest)
      (callback : Option StreamCallback)
  | complete (requestId : QString) (request : CompletionRequest)
      (callback : Option StreamCallback)
  | converse (requestId : QString) (request : ConversationRequest)
      (callback : Option StreamCallback)
  | embedText (model text : QString)
  | measureConversation (request : ConversationRequest)
  | maintain

/-- What a task answers. -/
inductive Answer
  | done
  | model (info : ModelInfo)
  | session (id : QString)
  | settled (outcome : Settled)
  | embedding (values : List Double)
  | budget (b : ContextBudget)

/-- A task of the worker. -/
def serve (c : Config) (env : Env) : Request → Task Answer
  | .registerRuntime runtime => do
      LocalLLM.registerRuntime runtime
      return .done
  | .loadModel request => do
      let info ← load c env request
      return .model info
  | .unloadModel model => do
      LocalLLM.unloadModel c env model
      return .done
  | .removeModel model => do
      LocalLLM.removeModel c env model
      return .done
  | .createSession model system => do
      let id ← LocalLLM.createSession c env model system
      return .session id
  | .resetSession id => do
      LocalLLM.resetSession id
      return .done
  | .closeSession id => do
      LocalLLM.closeSession id
      return .done
  | .chat requestId request callback => do
      let outcome ← generate c env requestId request none callback
      return .settled outcome
  | .complete requestId request callback => do
      let outcome ← generate c env requestId {} (some request) callback
      return .settled outcome
  | .converse requestId request callback => do
      let outcome ← LocalLLM.converse c env requestId request callback
      return .settled outcome
  | .embedText model text => do
      let values ← LocalLLM.embedText c env model text
      return .embedding values
  | .measureConversation request => do
      let b ← LocalLLM.measureConversation c env request
      return .budget b
  | .maintain => do
      ModelManager.maintain c env
      return .done

/-- The tasks of a run, one after the other; a task that throws settles
its future with what it threw. -/
def serveAll (c : Config) (s : State) (requests : List (Env × Request)) :
    State :=
  requests.foldl (fun s r => (serve c r.1 r.2 s).2) s

-- ========================================================== a small service

namespace Sample

/-- Options with the defaults of the source. -/
def options : CheckedOptions := ⟨{}, by decide⟩

/-- The one package, `model://tiny`, of 4096 tokens. -/
def package : ResolvedModel :=
  { record :=
      { uri := qs "model://tiny"
        manifest :=
          { id := qs "tiny"
            contextLength := 4096
            capabilities := [qs "chat", qs "embedding"] } }
    directory := qs "Models/tiny"
    entryPath := qs "Models/tiny/tiny.gguf" }

def catalog : ModelCatalog :=
  { scan := fun _ => .ok [package]
    inspect := fun _ _ => .ok { model := qs "model://tiny", valid := true }
    detach := fun _ _ => .ok () }

def registry : ModelRegistry :=
  { aliases := ∅
    syntax_ok := ModelRegistry.empty_syntax_ok
    target_ok := ModelRegistry.empty_target_ok }

/-- The `n`-th UUID: `n` zeros and a one. -/
def uuid (n : Nat) : QString := List.replicate n (qc '0') ++ [qc '1']

def config : Config :=
  { options
    hardware := {}
    registry
    catalog
    fileExists := fun _ _ => true
    uuid
    sha256Hex := fun _ => qs "00"
    fromJson := fun _ => some (.object [])
    toJson := fun _ => []
    validateGenerationOptions := fun _ => .ok ()
    nativeContent := fun content _ => .ok content }

/-- A generation that passes on one text and stops. -/
def generation (text : QString) : Generation :=
  .call text fun
    | .ok _ => .done { generatedTokens := 1 }
    | .error e => .fail e

def context : RuntimeContext :=
  { generate := fun _ _ _ => generation (qs "hi")
    generateConversation := fun _ _ _ => generation (qs "hi") }

def model : RuntimeModel :=
  { tokenize := fun _ messages => .ok (messages.map fun _ => 1)
    createContext := fun _ => .ok (some context)
    prepareConversation := fun _ _ => .ok { tokens := [1] }
    parseConversation := fun _ _ raw => .ok { text := raw } }

def runtime : Runtime :=
  { id := qs "sample"
    supportsModel := fun _ _ => true
    devices := fun _ _ => .ok [{}]
    estimateMemory := fun _ _ _ => .ok { weightsBytes := 1 }
    load := fun _ _ _ => .ok (some model) }

/-- A worker with the one runtime. -/
def state : State :=
  { models := { runtimes :=
      { runtimes := (∅ : Std.ExtTreeMap QString Runtime).insert (qs "sample")
          runtime } } }

/-- The UUIDs are what is asked of them. -/
theorem honest : config.Honest where
  uuid_fresh := fun i j h => by
    have hlength := congrArg List.length h
    simpa [config, uuid] using hlength
  uuid_ne_nil := fun i => by simp [config, uuid]
  uuid_no_colon := fun i => by
    intro h
    rcases List.mem_append.1 h with hzero | hone
    · exact absurd (List.eq_of_mem_replicate hzero) (by decide)
    · exact absurd (List.mem_singleton.1 hone) (by decide)

/-- A run that registers the runtime and opens a session. -/
def opened : List (Env × Request) :=
  [({}, .registerRuntime runtime), ({}, .createSession (qs "model://tiny") [])]

/-- A chat in the session of that run, whose model stays for a second. -/
def chat : ChatRequest :=
  { sessionId := uuid 0, prompt := qs "hello", keepAliveMs := 1000 }

/-- The run with a chat at the end. -/
def chatted : List (Env × Request) :=
  opened ++ [(({} : Env), Request.chat (qs "request") chat none)]

/-- A runtime that refuses every prompt with an `Error` of code `None`. -/
def refusing : Runtime :=
  { runtime with load := fun _ _ _ => .ok (some { model with
      tokenize := fun _ _ => .error (.error ⟨.None, qs "refused"⟩)
      prepareConversation :=
        fun _ _ => .error (.error ⟨.None, qs "refused"⟩) }) }

/-- A run that registers that runtime and opens a session. -/
def refused : List (Env × Request) :=
  [({}, .registerRuntime refusing),
    ({}, .createSession (qs "model://tiny") [])]

/-- A runtime that answers every conversation with a call of `f`. -/
def calling : Runtime :=
  { runtime with load := fun _ _ _ => .ok (some { model with
      parseConversation := fun _ _ raw => .ok
        { text := raw
          toolCalls := [.object [(qs "function", .object
            [(qs "arguments", .string (qs "\x7b\x7d")),
              (qs "name", .string (qs "f"))]),
            (qs "type", .string (qs "function"))]] } }) }

/-- A run that registers that runtime. -/
def called : List (Env × Request) := [({}, .registerRuntime calling)]

/-- A conversation that must call the tool `f`. -/
def conversation : ConversationRequest :=
  { model := qs "model://tiny"
    messages := [.object [(qs "content", .string (qs "hello")),
      (qs "role", .string (qs "user"))]]
    tools := [.object [(qs "function", .object [(qs "name", .string (qs "f")),
      (qs "parameters", .object [])]), (qs "type", .string (qs "function"))]]
    toolChoice := qs "required" }

end Sample

end LocalLLM
