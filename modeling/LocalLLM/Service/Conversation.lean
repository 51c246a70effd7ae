/-
The checks of a structured conversation (`service/Conversation.cpp`): of a
request before it is prepared, and of a reply before its calls reach
whoever executes them.

A request is read message by message with two sets, the call ids seen so
far and those that still wait for a result. A reply is read call by call;
a call without an id is given a fresh UUID, so the check returns the reply
it checked.
-/
import LocalLLM.Service.ModelManager

namespace LocalLLM

open Json

/-- `[A-Za-z0-9_.:-]`. -/
def nameUnit (u : QChar) : Bool :=
  (qc 'A' ≤ u && u ≤ qc 'Z') || (qc 'a' ≤ u && u ≤ qc 'z')
    || (qc '0' ≤ u && u ≤ qc '9') || u == qc '_' || u == qc '.' || u == qc ':'
    || u == qc '-'

/-- `nameValid`: `^[A-Za-z0-9_.:-]{1,128}$`. -/
def nameValid (value : QString) : Bool :=
  decide (1 ≤ (dollarBody value).length ∧ (dollarBody value).length ≤ 128)
    && (dollarBody value).all nameUnit

/-- `fields`. -/
def fields (object : JsonObject) (allowed : List QString) : Except Exn Unit :=
  match object.find? fun m => !allowed.contains m.1 with
  | some (key, _) => .error (.error ⟨.InvalidArgument,
      qs "Unsupported structured conversation field: " ++ key⟩)
  | none => .ok ()

/-- `object["name"] == text`. -/
def memberIs (object : JsonObject) (name text : String) : Prop :=
  lookup object (qs name) = some (.string (qs text))

instance (object : JsonObject) (name text : String) :
    Decidable (memberIs object name text) := by
  unfold memberIs
  infer_instance

/-- `object[name].toString()`. -/
def memberText (object : JsonObject) (name : String) : QString :=
  toText (lookup object (qs name))

/-- `call["function"].toObject()`. -/
def functionOf (call : JsonObject) : JsonObject :=
  toObject (lookup call (qs "function"))

/-- `checkCall`. -/
def checkCall (c : Config) (value : Json) (code : ErrorCode) :
    Except Exn QString := do
  let call := toObject (some value)
  let function := functionOf call
  require (isObject (some value) = true ∧ memberIs call "type" "function"
      ∧ nameValid (memberText function "name") = true) code
    "Invalid function call"
  require (isString (lookup call (qs "id")) = true ∧ memberText call "id" ≠ []
      ∧ (memberText call "id").length ≤ 128) code "Invalid function call ID"
  require (isString (lookup function (qs "arguments")) = true
      ∧ isObject (c.fromJson (memberText function "arguments")) = true) code
    "Function arguments must be a JSON object encoded as a string"
  return memberText call "id"

-- ================================================================= requests

/-- The loop over the tools; `names` are those seen so far. -/
def checkTools : List Json → List QString → Except Exn Unit
  | [], _ => .ok ()
  | value :: rest, names => do
      let tool := toObject (some value)
      let f := functionOf tool
      let name := memberText f "name"
      fields tool [qs "type", qs "function"]
      fields f [qs "name", qs "description", qs "parameters"]
      require (memberIs tool "type" "function" ∧ nameValid name = true
          ∧ name ∉ names ∧ isObject (lookup f (qs "parameters")) = true)
        .InvalidArgument "Invalid or duplicate function definition"
      require (contains f (qs "description") = false
          ∨ isString (lookup f (qs "description")) = true)
        .InvalidArgument "Invalid function description"
      checkTools rest (name :: names)

/-- The loop over the calls of a message. -/
def checkCalls (c : Config) : List Json → List QString → List QString →
    Except Exn (List QString × List QString)
  | [], ids, pending => .ok (ids, pending)
  | call :: rest, ids, pending => do
      let id ← checkCall c call .InvalidArgument
      require (id ∉ ids) .InvalidArgument "Duplicate tool call ID"
      checkCalls c rest (id :: ids) (id :: pending)

/-- The checks of one message that do not depend on its role's body. -/
def checkShape (c : Config) (maxCharacters : Int) (first : Bool) (value : Json)
    (pending : List QString) : Except Exn Unit := do
  let message := toObject (some value)
  let role := memberText message "role"
  let content := lookup message (qs "content")
  fields message [qs "role", qs "content", qs "tool_calls", qs "tool_call_id",
    qs "reasoning_content", qs "name"]
  require (isObject (some value) = true
      ∧ (role = qs "system" ∨ role = qs "user"
      ∨ role = qs "assistant" ∨ role = qs "tool")) .InvalidArgument
    "Unsupported conversation role"
  require (content = none ∨ isNull content = true ∨ isString content = true
      ∨ ((role = qs "user" ∨ role = qs "tool") ∧ isArray content = true))
    .InvalidArgument "Invalid conversation content"
  if isArray content = true then do
    let native ← c.nativeContent (toArray content) maxCharacters
    require (native ≠ []) .InvalidArgument "Empty native content"
  else .ok ()
  let reasoning := lookup message (qs "reasoning_content")
  require (reasoning = none
      ∨ (role = qs "assistant" ∧ isString reasoning = true)) .InvalidArgument
    "Only assistant messages may contain string reasoning_content"
  let name := lookup message (qs "name")
  require (name = none ∨ (role = qs "tool" ∧ isString name = true))
    .InvalidArgument "Invalid tool result name"
  require (role ≠ qs "system" ∨ first = true) .InvalidArgument
    "System message must be first"
  require (role = qs "tool" ∨ pending = []) .InvalidArgument
    "Tool results must precede another conversation message"
  require (role = qs "assistant" ∨ contains message (qs "tool_calls") = false)
    .InvalidArgument "Only assistant messages may call tools"
  require (role = qs "tool" ∨ contains message (qs "tool_call_id") = false)
    .InvalidArgument "Only tool messages may contain a result ID"

/-- What a message does to the two sets. -/
def checkBody (c : Config) (value : Json) (ids pending : List QString) :
    Except Exn (List QString × List QString) := do
  let message := toObject (some value)
  let role := memberText message "role"
  let content := lookup message (qs "content")
  if role = qs "tool" then do
    let id := memberText message "tool_call_id"
    require (id ∈ pending ∧ (isString content = true ∨ isArray content = true))
      .InvalidArgument "Orphan or duplicate tool result"
    return (ids, pending.erase id)
  else if role = qs "assistant" ∧ contains message (qs "tool_calls") = true
      then do
    let calls := lookup message (qs "tool_calls")
    require (isArray calls = true) .InvalidArgument
      "tool_calls must be an array"
    require (toArray calls ≠ [] ∧ (toArray calls).length ≤ 64) .InvalidArgument
      "Invalid tool call count"
    checkCalls c (toArray calls) ids pending
  else do
    require (QString.trimmed (memberText message "content") ≠ []
        ∨ isArray content = true) .InvalidArgument "Empty conversation message"
    return (ids, pending)

/-- The loop over the messages; what it returns still waits. -/
def checkMessages (c : Config) (maxCharacters : Int) :
    Bool → List Json → List QString → List QString → Except Exn (List QString)
  | _, [], _, pending => .ok pending
  | first, value :: rest, ids, pending => do
      checkShape c maxCharacters first value pending
      let (ids, pending) ← checkBody c value ids pending
      checkMessages c maxCharacters false rest ids pending

/-- `validateConversationRequest`. -/
def validateConversationRequest (c : Config) (r : ConversationRequest)
    (maxCharacters : Int) : Except Exn Unit := do
  c.validateGenerationOptions r.options
  require (r.contextId.length ≤ 128 ∧ -1 ≤ r.keepAliveMs
      ∧ r.keepAliveMs ≤ maxKeepAliveMs) .InvalidArgument
    "Invalid conversation context or lifetime"
  require (r.toolChoice = qs "auto" ∨ r.toolChoice = qs "none"
      ∨ r.toolChoice = qs "required") .InvalidArgument "Invalid tool choice"
  require (r.toolChoice ≠ qs "required" ∨ r.tools ≠ []) .InvalidArgument
    "Required tool choice needs tools"
  require (r.messages ≠ [] ∧ r.messages.length ≤ 4096 ∧ r.tools.length ≤ 256)
    .InvalidArgument "Invalid conversation size"
  let input := ofMembers [(qs "messages", .array r.messages),
    (qs "tools", .array r.tools),
    (qs "response_schema", .object r.responseSchema)]
  require (((c.toJson input).length : Int) ≤ maxCharacters) .InvalidArgument
    "Conversation exceeds service input limit"
  checkTools r.tools []
  let pending ← checkMessages c maxCharacters true r.messages [] []
  let lastRole := memberText (toObject r.messages.getLast?) "role"
  require (pending = [] ∧ (lastRole = qs "user" ∨ lastRole = qs "tool"))
    .InvalidArgument
    "Conversation must end in user input or complete tool results"

-- ================================================================== replies

/-- `QUuid::createUuid`. -/
def createUuid (c : Config) : Task QString := do
  let s ← get
  set { s with issued := s.issued + 1 }
  return c.uuid s.issued

/-- The name a call or a tool gives its function. -/
def functionName (value : Json) : QString :=
  memberText (functionOf (toObject (some value))) "name"

/-- The tools of a request, by name. -/
def toolNames (request : ConversationRequest) : List QString :=
  request.tools.map functionName

/-- The ids of all calls in the history of a request. -/
def historyIds (request : ConversationRequest) : List QString :=
  request.messages.flatMap fun message =>
    (toArray (lookup (toObject (some message)) (qs "tool_calls"))).map
      fun call =>
      memberText (toObject (some call)) "id"

/-- A call with an id: its own, or a fresh one. -/
def withId (c : Config) (call : JsonObject) : Task JsonObject :=
  if contains call (qs "id") = false
      ∨ (isString (lookup call (qs "id")) = true ∧ memberText call "id" = [])
        then do
    let id ← createUuid c
    return insert call (qs "id") (.string id)
  else pure call

/-- The loop over the calls of a reply. -/
def checkReplyCalls (c : Config) (names : List QString) :
    List Json → List QString → Task (List Json)
  | [], _ => pure []
  | value :: rest, ids => do
      let call ← withId c (toObject (some value))
      let id ← Exec.ofExcept (checkCall c (.object call) .ProtocolError)
      check (id ∉ ids ∧ memberText (functionOf call) "name" ∈ names)
        .ProtocolError "Runtime returned an unknown tool or duplicate ID"
      let calls ← checkReplyCalls c names rest (id :: ids)
      return .object call :: calls

/-- `validateConversationReply`: the reply with its calls completed. -/
def validateConversationReply (c : Config) (reply : RuntimeConversationReply)
    (request : ConversationRequest) : Task RuntimeConversationReply := do
  check (reply.toolCalls.length ≤ 64) .ProtocolError
    "Runtime returned too many tool calls"
  check (request.parallelToolCalls = true ∨ reply.toolCalls.length ≤ 1)
    .ProtocolError "Runtime ignored parallel_tool_calls false"
  check (request.toolChoice ≠ qs "none" ∨ reply.toolCalls = [])
    .ProtocolError "Runtime ignored tool_choice none"
  check (request.toolChoice ≠ qs "required" ∨ reply.toolCalls ≠ [])
    .ProtocolError "Runtime ignored required tool choice"
  let calls ← checkReplyCalls c (toolNames request) reply.toolCalls
    (historyIds request)
  return { reply with toolCalls := calls }

end LocalLLM
