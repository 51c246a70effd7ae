/-
Reading the body of a chat completion (`service/HttpApiServer.cpp`, `parse`).

# Two kinds of bodies

A body is plain or structured, as a whole. One message that only a
structured conversation can have is enough, wherever it stands, and so are
tools, or a choice that demands a call. The messages of a plain body are
read; those of a structured one are passed on as they are, once no member of
theirs is unknown.

The reader of documents is a function of `HttpParser`. The options are read
by the catalog's own reader.
-/
import LocalLLM.Core.GenerationOptions
import LocalLLM.Hardware.KeepAlive
import LocalLLM.Service.HttpCompletion
import LocalLLM.Service.Service

namespace LocalLLM

open Json

/-- What `parse` calls. -/
structure HttpParser where
  /-- `ParameterCatalog::builtin()`. -/
  catalog : ParameterCatalog
  patterns : Patterns
  /-- `QJsonDocument::fromJson`; `none` is an error. -/
  fromJson : Bytes → Option Json

/-- `ParsedCompletion`. -/
structure ParsedCompletion where
  request : CompletionRequest
  conversation : Option ConversationRequest := none
  stream : Bool := false
  includeUsage : Bool := false

namespace HttpParser

-- ============================================================== small readers

/-- `fields`. -/
def fields (object : JsonObject) (allowed : List QString) : Except Exn Unit :=
  each (fun m => orFail (m.1 ∈ allowed)
    (qs "Unsupported field: " ++ m.1)) object

/-- `std::floor(d) == d`. -/
def isWhole : Double → Bool
  | .finite q => q.den = 1
  | .infinite _ => true
  | .nan => false

/-- `number`. -/
def number (object : JsonObject) (name : QString) (fallback : Double)
    (minimum maximum : ℚ) (integer : Bool) : Except Exn Double :=
  match lookup object name with
  | none => .ok fallback
  | some value => do
      let result := toDouble .nan (some value)
      orFail (isDouble (some value) = true ∧ result.isFinite = true
          ∧ Double.le (.finite minimum) result = true
          ∧ Double.le result (.finite maximum) = true
          ∧ (integer = false ∨ isWhole result = true))
        (qs "Invalid numeric field: " ++ name)
      return result

/-- `boolean`. -/
def boolean (object : JsonObject) (name : QString) (fallback : Bool) :
    Except Exn Bool := do
  let value := lookup object name
  orFail (value = none ∨ isBool value = true) (name ++ qs " must be a boolean")
  return if value = none then fallback else Json.toBool value

-- =============================================================== the messages

/-- Whether a message is one of a structured conversation. -/
def marked (value : Json) : Bool :=
  let m := toObject (some value)
  decide (memberIs m "role" "tool") || contains m (qs "tool_calls")
    || contains m (qs "tool_call_id") || contains m (qs "reasoning_content")
    || isArray (lookup m (qs "content"))

/-- The loop over the messages: what is appended to `request.messages`. -/
def readMessages (structured : Bool) :
    List Json → Except Exn (List ChatMessage)
  | [] => .ok []
  | value :: rest => do
      orFail (isObject (some value) = true)
        (qs "Each message must be an object")
      let message := toObject (some value)
      if structured then do
        fields message [qs "role", qs "content", qs "tool_calls",
          qs "tool_call_id", qs "reasoning_content", qs "name"]
        readMessages structured rest
      else do
        fields message [qs "role", qs "content"]
        orFail (isString (lookup message (qs "role")) = true
            ∧ isString (lookup message (qs "content")) = true)
          (qs "Only string role/content messages are supported")
        let role := memberText message "role"
        orFail (role = qs "system" ∨ role = qs "user" ∨ role = qs "assistant")
          (qs "Unsupported message role")
        let others ← readMessages structured rest
        return { role := if role = qs "system" then .System
                  else if role = qs "user" then .User else .Assistant
                 content := memberText message "content" } :: others

-- ================================================================= the whole

/-- The fields of a body. -/
def bodyFields : List QString :=
  [qs "model", qs "messages", qs "stream", qs "stream_options",
    qs "max_tokens",
    qs "max_completion_tokens", qs "temperature", qs "top_p", qs "top_k",
    qs "seed", qs "stop", qs "n", qs "keep_alive", qs "min_p", qs "typical_p",
    qs "min_keep", qs "repetition_penalty", qs "repetition_context_size",
    qs "presence_penalty", qs "frequency_penalty", qs "xtc_probability",
    qs "xtc_threshold", qs "logit_bias", qs "tools", qs "tool_choice",
    qs "parallel_tool_calls"]

/-- `object.value("tool_choice").toString("auto")`. -/
def toolChoiceOf (object : JsonObject) : QString :=
  match lookup object (qs "tool_choice") with
  | some (.string s) => s
  | _ => qs "auto"

/-- The messages of a body. -/
def messagesOf (object : JsonObject) : List Json :=
  toArray (lookup object (qs "messages"))

/-- The tools of a body. -/
def toolsOf (object : JsonObject) :
    List Json := toArray (lookup object (qs "tools"))

/-- `structured`. -/
def isStructured (object : JsonObject) : Bool :=
  decide (toolsOf object ≠ []) || decide (toolChoiceOf object = qs "required")
    || (messagesOf object).any marked

/-- A stop string that is not in a list is a list of one. -/
def withStops (generation : JsonObject) : JsonObject :=
  match lookup generation (qs "stop") with
  | some (.string s) => insert generation (qs "stop") (.array [.string s])
  | _ => generation

/-- A field of the body under a name of the options, if it is there. -/
def copyField (object : JsonObject) (name target : QString)
    (generation : JsonObject) : JsonObject :=
  match lookup object name with
  | some value => insert generation target value
  | none => generation

/-- `generation`. -/
def generationOf (group : ParameterGroupDefinition) (object : JsonObject) :
    JsonObject :=
  let copied := group.parameters.foldl (fun generation field =>
    copyField object field.name field.name generation) []
  withStops (copyField object (qs "max_completion_tokens")
    (qs "max_tokens") copied)

/-- `parsed.includeUsage`. -/
def usageOption (object : JsonObject) (stream : Bool) : Except Exn Bool :=
  match lookup object (qs "stream_options") with
  | none => .ok false
  | some value => do
      orFail (stream = true ∧ isObject (some value) = true)
        (qs "stream_options requires stream=true and an object")
      let options := toObject (some value)
      fields options [qs "include_usage"]
      boolean options (qs "include_usage") false

variable (h : HttpParser)

/-- `parse`, from the object on. -/
def parseObject (object : JsonObject) : Except Exn ParsedCompletion := do
  fields object bodyFields
  orFail (isString (lookup object (qs "model")) = true)
    (qs "model must be a model:// URI")
  let model := memberText object "model"
  orFail (QString.trimmed model ≠ [])
    (qs "model must be a model:// URI or registered alias")
  let keepAliveMs ← parseKeepAlive (lookup object (qs "keep_alive"))
  orFail (isArray (lookup object (qs "messages")) = true)
    (qs "messages must be an array")
  let messages := messagesOf object
  orFail (messages ≠ [] ∧ messages.length ≤ 4096)
    (qs "messages must contain 1 to 4096 text messages")
  orFail (contains object (qs "tools") = false
      ∨ isArray (lookup object (qs "tools")) = true)
        (qs "tools must be an array")
  let toolChoice := toolChoiceOf object
  orFail (contains object (qs "tool_choice") = false
      ∨ (isString (lookup object (qs "tool_choice")) = true
        ∧ (toolChoice = qs "auto" ∨ toolChoice = qs "none"
          ∨ toolChoice = qs "required")))
    (qs "tool_choice supports auto, none, or required")
  let parallel ← boolean object (qs "parallel_tool_calls") true
  let structured := isStructured object
  let texts ← readMessages structured messages
  let stream ← boolean object (qs "stream") false
  let includeUsage ← usageOption object stream
  orFail (contains object (qs "max_tokens") = false
      ∨ contains object (qs "max_completion_tokens") = false)
    (qs "Specify one token limit field")
  let group ← h.catalog.group (qs "iiLocalLLM.GenerationOptions")
  let options ← generationOptionsFromJson h.catalog h.patterns
    (generationOf group object)
  orFail (Double.le options.temperature (.finite 2) = true)
    (qs "HTTP temperature must be in [0, 2]")
  let _ ← number object (qs "n") (.finite 1) 1 1 true
  let request : CompletionRequest :=
    { model, messages := texts, options, keepAliveMs }
  let conversation : ConversationRequest :=
    { model, messages, tools := toolsOf object, toolChoice, options
      keepAliveMs
      parallelToolCalls := parallel }
  return {
    request
    conversation := if structured then some conversation else none
    stream, includeUsage }

/-- `parse`. -/
def parse (body : Bytes) : Except Exn ParsedCompletion :=
  match h.fromJson body with
  | some (.object members) => h.parseObject members
  | _ => fail (qs "Expected a JSON object")

end HttpParser

/-- The task the handler of a request hands to the service. -/
def ParsedCompletion.task (parsed : ParsedCompletion) (requestId : QString)
    (callback : StreamCallback) : Request :=
  match parsed.conversation with
  | some request => .converse requestId request (some callback)
  | none => .complete requestId parsed.request (some callback)

end LocalLLM
