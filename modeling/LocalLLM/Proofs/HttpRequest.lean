/-
What a chat completion over HTTP can ask for.

# What a body must be

`Accepted` lists what `parse` checks and what it reads, field by field; the
loop over the messages either decodes every one (`Reads`) or only looks at
the names of their members. Everything else about `parse` follows from it.

# What a request can be

A request that `parse` returns is one of `Expressible`: the options are in
their ranges, the temperature is at most 2, and the part of a structured
conversation that a body has no field for keeps its default. Each of these
requests has a body (`bodyOf`), and reading that body gives the request
back, so nothing else limits what a client may ask for.
-/
import LocalLLM.Proofs.GenerationOptions
import LocalLLM.Proofs.Grammar
import LocalLLM.Proofs.KeepAlive
import LocalLLM.Service.HttpRequest

namespace LocalLLM

open Json

namespace HttpParser

variable {h : HttpParser} {object : JsonObject} {p : ParsedCompletion}

-- ============================================================== small readers

/-- An object passes when it has no field but those that are allowed. -/
theorem fields_eq_ok {allowed : List QString} {u : Unit} :
    fields object allowed = .ok u ↔ ∀ m ∈ object, m.1 ∈ allowed := by
  unfold fields
  rw [each_eq_ok]
  exact forall₂_congr fun m _ => orFail_eq_ok

/-- A flag is left out, with its default, or it is a Boolean. -/
theorem boolean_eq_ok {name : QString} {fallback b : Bool} :
    boolean object name fallback = .ok b ↔
      (lookup object name = none ∧ b = fallback)
        ∨ lookup object name = some (.bool b) := by
  unfold boolean
  dsimp only
  rw [bind_eq_ok]
  simp only [orFail_eq_ok, exists_const]
  cases lookup object name with
  | none =>
      rw [if_pos rfl]
      refine ⟨fun hok => Or.inl ⟨rfl, ?_⟩, ?_⟩
      · injection hok.2 with hok
        exact hok.symm
      · rintro (⟨-, rfl⟩ | hsome)
        · exact ⟨Or.inl rfl, rfl⟩
        · cases hsome
  | some value =>
      rw [if_neg (by simp)]
      cases value <;> simp [isBool, Json.toBool, pure, Except.pure]

/-- A field that is absent keeps its default. -/
theorem boolean_none {name : QString} (hnone : lookup object name = none)
    (fallback : Bool) : boolean object name fallback = .ok fallback :=
  boolean_eq_ok.2 (Or.inl ⟨hnone, rfl⟩)

/-- A flag that is given is read, whatever its default. -/
theorem boolean_some {name : QString} {b : Bool}
    (hsome : lookup object name = some (.bool b)) (fallback : Bool) :
    boolean object name fallback = .ok b :=
  boolean_eq_ok.2 (Or.inr hsome)

-- =============================================================== the messages

/-- The members of a message with a text. -/
def textFields : List QString := [qs "role", qs "content"]

/-- A message that is read as a text of its role. -/
structure Reads (value : Json) (t : ChatMessage) : Prop where
  object : isObject (some value) = true
  fields : ∀ m ∈ membersOf value, m.1 ∈ textFields
  role : lookup (membersOf value) (qs "role") = some (.string t.role.enumName)
  content : lookup (membersOf value) (qs "content") = some (.string t.content)

/-- A message of a structured body, as far as `parse` looks at it. -/
structure Passes (value : Json) : Prop where
  object : isObject (some value) = true
  fields : ∀ m ∈ membersOf value, m.1 ∈ messageFields

/-- A text comes from one of three roles. -/
theorem role_cases {role : QString} :
    (role = qs "system" ∨ role = qs "user" ∨ role = qs "assistant")
      ↔ ∃ r : Role, role = r.enumName := by
  constructor
  · rintro (rfl | rfl | rfl)
    · exact ⟨.System, rfl⟩
    · exact ⟨.User, rfl⟩
    · exact ⟨.Assistant, rfl⟩
  · rintro ⟨r, rfl⟩
    cases r
    · exact Or.inl rfl
    · exact Or.inr (Or.inl rfl)
    · exact Or.inr (Or.inr rfl)

/-- A role is read back from its name. -/
theorem enumName_back (r : Role) :
    (if r.enumName = qs "system" then Role.System
      else if r.enumName = qs "user" then .User else .Assistant) = r := by
  cases r <;> decide

/-- A string is a member with a text. -/
theorem isString_iff {v : Option Json} :
    isString v = true ↔ ∃ s, v = some (.string s) := by
  cases v with
  | none => simp [isString]
  | some v => cases v <;> simp [isString]

/-- A structured body passes its messages on. -/
theorem readMessages_structured {messages : List Json}
    {texts : List ChatMessage} :
    readMessages true messages = .ok texts ↔
      (∀ m ∈ messages, Passes m) ∧ texts = [] := by
  induction messages with
  | nil => simp [readMessages, eq_comm]
  | cons value rest ih =>
      rw [readMessages, List.forall_mem_cons]
      simp only [if_true, bind_eq_ok, orFail_eq_ok, fields_eq_ok, ih]
      constructor
      · rintro ⟨_, hobject, _, hfields, hrest, htexts⟩
        exact ⟨⟨⟨hobject, hfields⟩, hrest⟩, htexts⟩
      · rintro ⟨⟨hvalue, hrest⟩, htexts⟩
        exact ⟨(), hvalue.object, (), hvalue.fields, hrest, htexts⟩

/-- A plain one has each of them read. -/
theorem readMessages_plain {messages : List Json} :
    ∀ {texts : List ChatMessage}, readMessages false messages = .ok texts ↔
      List.Forall₂ Reads messages texts := by
  induction messages with
  | nil => simp [readMessages, eq_comm]
  | cons value rest ih =>
      intro texts
      rw [readMessages]
      simp only [Bool.false_eq_true, if_false, bind_eq_ok,
        orFail_eq_ok, fields_eq_ok,
        isString_iff, role_cases, ih]
      constructor
      · rintro ⟨_, hobject, _, hfields, _,
          ⟨⟨role, hrole⟩, content, hcontent⟩, _,
          ⟨r, hr⟩, others, hothers, htexts⟩
        injection htexts with htexts
        subst htexts
        unfold memberText at hr
        rw [hrole] at hr
        refine .cons ⟨hobject, hfields, ?_, ?_⟩ hothers
        · show lookup (toObject (some value)) (qs "role") = _
          unfold memberText
          rw [hrole, hr, enumName_back]
          exact congrArg (fun role => some (Json.string role)) hr
        · show lookup (toObject (some value)) (qs "content") = _
          unfold memberText
          rw [hcontent]
          rfl
      · intro hreads
        obtain ⟨t, others, hvalue, hothers, rfl⟩ :=
          List.forall₂_cons_left_iff.1 hreads
        have hrole : memberText (toObject (some value)) "role"
            = t.role.enumName :=
          congrArg toText hvalue.role
        have hcontent : memberText (toObject (some value)) "content"
            = t.content :=
          congrArg toText hvalue.content
        refine ⟨(), hvalue.object, (), hvalue.fields, (),
          ⟨⟨_, hvalue.role⟩, _, hvalue.content⟩, (), ⟨t.role, hrole⟩,
            others, hothers, ?_⟩
        rw [hrole, hcontent, enumName_back]
        rfl

-- ================================================================= the whole

/-- The part of a structured conversation that a body decides. -/
def conversationOf (object : JsonObject) (q : CompletionRequest)
    (parallel : Bool) : ConversationRequest where
  model := q.model
  messages := messagesOf object
  tools := toolsOf object
  toolChoice := toolChoiceOf object
  options := q.options
  keepAliveMs := q.keepAliveMs
  parallelToolCalls := parallel

/-- A tool choice a body may have. -/
def IsChoice (choice : QString) : Prop :=
  choice = qs "auto" ∨ choice = qs "none" ∨ choice = qs "required"

/-- What a body must be, and what is read from it. -/
structure Accepted (h : HttpParser) (object : JsonObject)
    (p : ParsedCompletion) : Prop where
  fields : ∀ m ∈ object, m.1 ∈ bodyFields
  model : lookup object (qs "model") = some (.string p.request.model)
  named : QString.trimmed p.request.model ≠ []
  lifetime : parseKeepAlive (lookup object (qs "keep_alive"))
    = .ok p.request.keepAliveMs
  messages : isArray (lookup object (qs "messages")) = true
  count : messagesOf object ≠ [] ∧ (messagesOf object).length ≤ 4096
  tools : contains object (qs "tools") = false
    ∨ isArray (lookup object (qs "tools")) = true
  choice : contains object (qs "tool_choice") = false
    ∨ (isString (lookup object (qs "tool_choice")) = true
      ∧ IsChoice (toolChoiceOf object))
  conversation : ∃ parallel,
    boolean object (qs "parallel_tool_calls") true = .ok parallel
      ∧ p.conversation = if isStructured object = true
        then some (conversationOf object p.request parallel) else none
  texts : readMessages (isStructured object) (messagesOf object)
    = .ok p.request.messages
  stream : boolean object (qs "stream") false = .ok p.stream
  usage : usageOption object p.stream = .ok p.includeUsage
  limit : contains object (qs "max_tokens") = false
    ∨ contains object (qs "max_completion_tokens") = false
  options : ∃ group, h.catalog.group (qs "iiLocalLLM.GenerationOptions")
    = .ok group
    ∧ generationOptionsFromJson h.catalog h.patterns
      (generationOf group object)
      = .ok p.request.options
  temperature : Double.le p.request.options.temperature (.finite 2) = true
  choices : ∃ d, number object (qs "n") (.finite 1) 1 1 true = .ok d

/-- And then the member is the text that is read of it. -/
theorem isString_memberText {name : String} :
    isString (lookup object (qs name)) = true
      ↔ lookup object (qs name) = some (.string (memberText object name)) := by
  rw [isString_iff]
  constructor
  · rintro ⟨s, hs⟩
    unfold memberText
    rw [hs]
    rfl
  · exact fun hs => ⟨_, hs⟩

/-- `parse`, whole. -/
theorem parseObject_eq_ok :
    h.parseObject object = .ok p ↔ Accepted h object p := by
  unfold parseObject
  simp only [bind_eq_ok, orFail_eq_ok, fields_eq_ok, exists_const,
    @isString_memberText object "model"]
  constructor
  · rintro ⟨hfields, hmodel, hnamed, keepAlive, hlifetime, hmessages,
      hcount, htools,
      hchoice, parallel, hparallel, texts, htexts, stream, hstream,
        usage, husage,
      hlimit, group, hgroup, options, hoptions, htemperature, d, hn, hp⟩
    injection hp with hp
    subst hp
    exact ⟨hfields, hmodel, hnamed, hlifetime, hmessages, hcount,
      htools, hchoice,
      ⟨parallel, hparallel, rfl⟩, htexts, hstream, husage, hlimit,
      ⟨group, hgroup, hoptions⟩, htemperature, d, hn⟩
  · intro hp
    obtain ⟨parallel, hparallel, hconversation⟩ := hp.conversation
    obtain ⟨group, hgroup, hoptions⟩ := hp.options
    obtain ⟨d, hn⟩ := hp.choices
    have hmodel : memberText object "model" = p.request.model :=
      congrArg toText hp.model
    refine ⟨hp.fields, ?_, ?_, _, hp.lifetime, hp.messages, hp.count, hp.tools,
      hp.choice, parallel, hparallel, _, hp.texts, _, hp.stream, _,
        hp.usage, hp.limit,
      group, hgroup, _, hoptions, hp.temperature, d, hn, ?_⟩
    · rw [hmodel]
      exact hp.model
    · rw [hmodel]
      exact hp.named
    · rw [hmodel]
      refine congrArg Except.ok (?_ : ParsedCompletion.mk p.request _ p.stream
        p.includeUsage = p)
      exact congrArg (fun r => { p with conversation := r }) hconversation.symm

-- ================================================================ the options

/-- Copying a field keeps the members in order. -/
theorem sorted_copyField {generation : JsonObject}
    (hsorted : Sorted generation) (name target : QString) :
    Sorted (copyField object name target generation) := by
  unfold copyField
  split
  · exact hsorted.insert _ _
  · exact hsorted

/-- The copied field is found under its new name, and the others as before. -/
theorem lookup_copyField (name target key : QString)
    (generation : JsonObject) :
    lookup (copyField object name target generation) key
      = (if key = target then lookup object name else none).or
        (lookup generation key) := by
  unfold copyField
  by_cases hkey : key = target
  · subst hkey
    rw [if_pos rfl]
    split
    · next value hvalue =>
        rw [lookup_insert_self, hvalue]
        rfl
    · next hnone =>
        rw [hnone]
        rfl
  · rw [if_neg hkey, Option.none_or]
    split
    · exact lookup_insert_ne _ _ hkey
    · rfl

/-- The options of a body, by name. -/
theorem lookup_copied (parameters : List ParameterDefinition) (key : QString) :
    ∀ generation : JsonObject,
    lookup (parameters.foldl (fun generation field =>
        copyField object field.name field.name generation) generation) key
      = (if key ∈ parameters.map ParameterDefinition.name
        then lookup object key
        else none).or (lookup generation key) := by
  induction parameters with
  | nil => exact fun generation => rfl
  | cons field rest ih =>
      intro generation
      rw [List.foldl_cons, ih, lookup_copyField, ← Option.or_assoc,
        List.map_cons]
      congr 1
      by_cases hkey : key = field.name
      · subst hkey
        rw [if_pos rfl, if_pos List.mem_cons_self]
        split
        · exact Option.or_self
        · rfl
      · simp only [List.mem_cons, hkey, false_or, if_false, Option.or_none]

/-- So the fields of the group are copied in order. -/
theorem sorted_copied (parameters : List ParameterDefinition) :
    ∀ generation : JsonObject, Sorted generation →
    Sorted (parameters.foldl (fun generation field =>
        copyField object field.name field.name generation) generation) := by
  induction parameters with
  | nil => exact fun generation hsorted => hsorted
  | cons field rest ih =>
      intro generation hsorted
      rw [List.foldl_cons]
      exact ih _ (sorted_copyField hsorted _ _)

/-- And so is the document of the options, with the token limit and the stops
that are set behind it. -/
theorem sorted_generationOf (group : ParameterGroupDefinition)
    (object : JsonObject) : Sorted (generationOf group object) := by
  have hcopied := @sorted_copyField object _
    (@sorted_copied object group.parameters [] sorted_nil)
    (qs "max_completion_tokens") (qs "max_tokens")
  unfold generationOf withStops
  dsimp only
  split
  · exact hcopied.insert _ _
  · exact hcopied

/-- Only the fields of the group count, and the other name of one of them. -/
theorem generationOf_congr {group : ParameterGroupDefinition}
    {other : JsonObject}
    (hfields : ∀ f ∈ group.parameters,
      lookup other f.name = lookup object f.name)
    (hlimit : lookup other (qs "max_completion_tokens")
      = lookup object (qs "max_completion_tokens")) :
    generationOf group other = generationOf group object := by
  have hcopied : ∀ {name : QString}, lookup other name = lookup object name →
      ∀ target generation, copyField other name target generation
        = copyField object name target generation := by
    intro name hname target generation
    unfold copyField
    rw [hname]
  unfold generationOf
  dsimp only
  rw [hcopied hlimit]
  congr 2
  exact List.foldl_ext _ _ _ fun generation field hfield =>
    hcopied (hfields field hfield) _ _

-- ================================================================= a body

/-- A text as a message of a body. -/
def textMessage (t : ChatMessage) : Json :=
  .object (ofMembers [(qs "role", .string t.role.enumName),
    (qs "content", .string t.content)])

/-- The messages a request is about, as a client writes them. -/
def statedMessages (p : ParsedCompletion) : List Json :=
  match p.conversation with
  | none => p.request.messages.map textMessage
  | some r => r.messages

/-- What every body has besides the options. -/
def fixedMembers (p : ParsedCompletion) : List (QString × Json) :=
  [(qs "model", .string p.request.model),
    (qs "messages", .array (statedMessages p)), (qs "stream", .bool p.stream)]

/-- A lifetime is written in milliseconds, and the model's own is not. -/
def lifetimeMember (p : ParsedCompletion) : List (QString × Json) :=
  if p.request.keepAliveMs < 0 then []
  else [(qs "keep_alive",
    .string (QString.number p.request.keepAliveMs ++ qs "ms"))]

def usageMember (p : ParsedCompletion) : List (QString × Json) :=
  if p.stream = true then
    [(qs "stream_options",
      .object [(qs "include_usage", .bool p.includeUsage)])]
  else []

def conversationMembers : Option ConversationRequest → List (QString × Json)
  | none => []
  | some r =>
      [(qs "tools", .array r.tools), (qs "tool_choice", .string r.toolChoice),
        (qs "parallel_tool_calls", .bool r.parallelToolCalls)]

def bodyMembers (p : ParsedCompletion) : List (QString × Json) :=
  optionMembers p.request.options ++ (fixedMembers p ++ (lifetimeMember p
    ++ (usageMember p ++ conversationMembers p.conversation)))

/-- The body a client writes for a request. -/
def bodyOf (p : ParsedCompletion) : JsonObject := ofMembers (bodyMembers p)

/-- The names in a body, where none of them is left out. -/
def statedNames : List QString :=
  nativeGroup.parameters.map ParameterDefinition.name
    ++ ([qs "model", qs "messages", qs "stream"] ++ ([qs "keep_alive"]
      ++ ([qs "stream_options"]
        ++ [qs "tools", qs "tool_choice", qs "parallel_tool_calls"])))

/-- No name is stated twice. -/
theorem statedNames_nodup : statedNames.Nodup := by decide

/-- A body states some of these names, in this order: the lifetime, the usage
and the conversation may be left out. -/
theorem bodyNames_sublist (p : ParsedCompletion) :
    ((bodyMembers p).map Prod.fst).Sublist statedNames := by
  unfold bodyMembers statedNames
  simp only [List.map_append]
  refine .append (.refl _) (.append (.refl _) (.append ?_ (.append ?_ ?_)))
  · unfold lifetimeMember
    split
    · exact List.nil_sublist _
    · exact .refl _
  · unfold usageMember
    split
    · exact .refl _
    · exact List.nil_sublist _
  · cases p.conversation with
    | none => exact List.nil_sublist _
    | some r => exact .refl _

/-- So it states no name twice either. -/
theorem bodyNames_nodup (p : ParsedCompletion) :
    ((bodyMembers p).map Prod.fst).Nodup :=
  statedNames_nodup.sublist (bodyNames_sublist p)

/-- With each key once, the order the members are put together in is nobody's
business. -/
theorem lookup_ofMembers_nodup {members : List (QString × Json)}
    (hnodup : (members.map Prod.fst).Nodup) (key : QString) :
    lookup (ofMembers members) key = lookup members key := by
  cases hlookup : lookup members key with
  | some v =>
      rw [lookup_ofMembers]
      refine lookup_of_mem ?_ (List.mem_reverse.2 (mem_of_lookup hlookup))
      rw [List.map_reverse, List.nodup_reverse]
      exact hnodup
  | none =>
      have hcontains := contains_ofMembers members key
      rw [contains_eq, contains_eq, hlookup] at hcontains
      exact Option.isNone_iff_eq_none.1
        (Option.isSome_eq_false_iff.1 hcontains)

/-- Each part of a body can be looked into on its own, since no two
parts share a name. -/
theorem lookup_bodyOf (p : ParsedCompletion) (key : QString) :
    lookup (bodyOf p) key
      = (lookup (optionMembers p.request.options) key).or
        ((lookup (fixedMembers p) key).or ((lookup (lifetimeMember p) key).or
          ((lookup (usageMember p) key).or
            (lookup (conversationMembers p.conversation) key)))) := by
  unfold bodyOf
  rw [lookup_ofMembers_nodup (bodyNames_nodup p)]
  unfold bodyMembers
  simp only [lookup_append]

/-- The model is stated. -/
theorem lookup_model : lookup (bodyOf p) (qs "model")
    = some (.string p.request.model) := by
  rw [lookup_bodyOf]
  rfl

/-- And so are the messages. -/
theorem lookup_messages : lookup (bodyOf p) (qs "messages")
    = some (.array (statedMessages p)) := by
  rw [lookup_bodyOf]
  rfl

/-- And whether it is to be streamed. -/
theorem lookup_stream : lookup (bodyOf p) (qs "stream")
    = some (.bool p.stream) := by
  rw [lookup_bodyOf]
  rfl

/-- A key of one of the optional parts only. -/
theorem lookup_optional {key : QString}
    (hoptions : lookup (optionMembers p.request.options) key = none)
    (hfixed : lookup (fixedMembers p) key = none) :
    lookup (bodyOf p) key = (lookup (lifetimeMember p) key).or
      ((lookup (usageMember p) key).or
        (lookup (conversationMembers p.conversation) key)) := by
  rw [lookup_bodyOf, hoptions, hfixed, Option.none_or, Option.none_or]

/-- The part about the usage has no other name. -/
theorem usageMember_other {key : QString} (hkey : qs "stream_options" ≠ key) :
    lookup (usageMember p) key = none := by
  unfold usageMember
  split
  · rw [lookup_cons, if_neg hkey]
    rfl
  · rfl

/-- Nor has the part about the lifetime. -/
theorem lifetimeMember_other {key : QString} (hkey : qs "keep_alive" ≠ key) :
    lookup (lifetimeMember p) key = none := by
  unfold lifetimeMember
  split
  · rfl
  · rw [lookup_cons, if_neg hkey]
    rfl

/-- A lifetime that is allowed: the model's own, or up to seven days. -/
def IsLifetime (ms : Int) : Prop := ms = -1 ∨ (0 ≤ ms ∧ ms ≤ maxKeepAliveMs)

/-- The lifetime of that body is read as the request's. -/
theorem lifetime_bodyOf (hms : IsLifetime p.request.keepAliveMs) :
    parseKeepAlive (lookup (bodyOf p) (qs "keep_alive"))
      = .ok p.request.keepAliveMs := by
  rw [lookup_optional rfl rfl, usageMember_other (by decide), Option.none_or]
  unfold lifetimeMember
  rcases hms with hown | ⟨hlow, hhigh⟩
  · rw [hown, if_pos (by decide)]
    cases p.conversation <;> rfl
  · obtain ⟨n, hn⟩ := Int.eq_ofNat_of_zero_le hlow
    rw [if_neg (by omega), lookup_cons, if_pos rfl, Option.some_or, hn]
    have hmax : maxKeepAliveMs = 604800000 := by decide
    have hread := @parseKeepAlive_whole n 1 (qs "ms") (by decide) (by omega)
    rwa [mul_one] at hread

/-- The stream options are stated on a stream only, where the
parser allows them. -/
theorem lookup_streamOptions : lookup (bodyOf p) (qs "stream_options")
    = if p.stream = true then
        some (.object [(qs "include_usage", .bool p.includeUsage)])
          else none := by
  rw [lookup_optional rfl rfl, lifetimeMember_other (by decide),
    Option.none_or]
  unfold usageMember
  split
  · rfl
  · cases p.conversation <;> rfl

/-- A key of the part about a conversation only. -/
theorem lookup_conversation {key : QString}
    (hoptions : lookup (optionMembers p.request.options) key = none)
    (hfixed : lookup (fixedMembers p) key = none)
    (hlifetime : qs "keep_alive" ≠ key) (husage : qs "stream_options" ≠ key) :
    lookup (bodyOf p) key
      = lookup (conversationMembers p.conversation) key := by
  rw [lookup_optional hoptions hfixed, lifetimeMember_other hlifetime,
    usageMember_other husage,
    Option.none_or, Option.none_or]

/-- What a client has no need to write. -/
theorem lookup_unstated {key : QString} (hkey : key ∉ statedNames) :
    lookup (bodyOf p) key = none := by
  unfold bodyOf
  rw [lookup_ofMembers_nodup (bodyNames_nodup p)]
  by_contra hsome
  obtain ⟨v, hv⟩ := Option.ne_none_iff_exists'.1 hsome
  exact hkey ((bodyNames_sublist p).subset
    (List.mem_map.2 ⟨(key, v), mem_of_lookup hv, rfl⟩))

/-- A body has no field that the parser does not know. -/
theorem bodyOf_fields : ∀ m ∈ bodyOf p, m.1 ∈ bodyFields := by
  have hstated : ∀ name ∈ statedNames, name ∈ bodyFields := by decide
  intro m hm
  exact hstated _ ((bodyNames_sublist p).subset
    (List.mem_map.2 ⟨m, mem_ofMembers hm, rfl⟩))

/-- The options are stated under the names of the group. -/
theorem lookup_option {key : QString}
    (hkey : key ∈ nativeGroup.parameters.map ParameterDefinition.name) :
    lookup (bodyOf p) key
      = lookup (generationOptionsToJson p.request.options) key := by
  have hnames : key ∈ (optionMembers p.request.options).map Prod.fst := hkey
  obtain ⟨m, hm, rfl⟩ := List.mem_map.1 hnames
  unfold generationOptionsToJson
  rw [lookup_bodyOf, lookup_ofMembers_nodup (written_names _),
    lookup_of_mem (written_names _) hm, Option.some_or]

/-- And under no others. -/
theorem lookup_no_option {key : QString} (o : GenerationOptions)
    (hkey : key ∉ nativeGroup.parameters.map ParameterDefinition.name) :
    lookup (generationOptionsToJson o) key = none := by
  unfold generationOptionsToJson
  rw [lookup_ofMembers_nodup (written_names o)]
  by_contra hsome
  obtain ⟨v, hv⟩ := Option.ne_none_iff_exists'.1 hsome
  have hname : key ∈ (optionMembers o).map Prod.fst :=
    List.mem_map.2 ⟨(key, v), mem_of_lookup hv, rfl⟩
  exact hkey hname

/-- The options of that body are those of the request. -/
theorem generationOf_bodyOf :
    generationOf nativeGroup (bodyOf p)
      = generationOptionsToJson p.request.options := by
  have hlimit : lookup (bodyOf p) (qs "max_completion_tokens") = none :=
    lookup_unstated (by decide)
  let copied := nativeGroup.parameters.foldl (fun generation field =>
    copyField (bodyOf p) field.name field.name generation) []
  have hcopied : copied = generationOptionsToJson p.request.options := by
    refine Sorted.ext (sorted_copied _ [] sorted_nil)
      (sorted_ofMembers _) fun key => ?_
    rw [lookup_copied]
    by_cases hkey : key ∈ nativeGroup.parameters.map ParameterDefinition.name
    · rw [if_pos hkey, lookup_option hkey]
      exact Option.or_none
    · rw [if_neg hkey, lookup_no_option _ hkey]
      rfl
  have hstops : lookup (generationOptionsToJson p.request.options) (qs "stop")
      = some (.array (p.request.options.stop.map .string)) :=
    lookup_written (written_mem p.request.options 5)
  show withStops (copyField (bodyOf p) (qs "max_completion_tokens")
    (qs "max_tokens") copied) = _
  unfold copyField withStops
  rw [hlimit, hcopied, hstops]

-- ====================================================== what can be asked for

/-- The part of a request that only a structured conversation has. -/
structure Structured (q : CompletionRequest) (r : ConversationRequest) :
    Prop where
  same : r.model = q.model ∧ r.options = q.options
    ∧ r.keepAliveMs = q.keepAliveMs
  /-- A body has no field for these. -/
  unset : r.contextId = [] ∧ r.responseSchema = [] ∧ r.enableThinking = none
  texts : q.messages = []
  choice : IsChoice r.toolChoice
  count : r.messages ≠ [] ∧ r.messages.length ≤ 4096
  each : ∀ m ∈ r.messages, Passes m
  marked : r.tools ≠ [] ∨ r.toolChoice = qs "required"
    ∨ ∃ m ∈ r.messages, marked m = true

/-- The other parts are those of the request, or unset. -/
theorem Structured.eq {q : CompletionRequest} {r : ConversationRequest}
    (hr : Structured q r) :
    r = { model := q.model, messages := r.messages, tools := r.tools
          toolChoice := r.toolChoice, options := q.options
          keepAliveMs := q.keepAliveMs, parallelToolCalls :=
              r.parallelToolCalls } := by
  obtain ⟨hmodel, hoptions, hlifetime⟩ := hr.same
  obtain ⟨hcontext, hschema, hthinking⟩ := hr.unset
  rw [← hmodel, ← hoptions, ← hlifetime]
  cases r
  dsimp only at hcontext hschema hthinking
  rw [hcontext, hschema, hthinking]

/-- A request that a body can ask for. -/
structure Expressible (p : ParsedCompletion) : Prop where
  named : QString.trimmed p.request.model ≠ []
  lifetime : IsLifetime p.request.keepAliveMs
  options : InRange p.request.options
  temperature : Double.le p.request.options.temperature (.finite 2) = true
  usage : p.includeUsage = true → p.stream = true
  plain : p.conversation = none →
    p.request.messages ≠ [] ∧ p.request.messages.length ≤ 4096
  structured : ∀ r, p.conversation = some r → Structured p.request r

/-- A body is structured for its tools, for a required call, or for a message
that only a structured conversation has. -/
theorem isStructured_iff : isStructured object = true ↔ toolsOf object ≠ []
    ∨ toolChoiceOf object = qs "required" ∨ ∃ m ∈ messagesOf object,
      marked m = true := by
  unfold isStructured
  simp only [Bool.or_eq_true, decide_eq_true_eq, List.any_eq_true, or_assoc]

/-- The options that are read from a document are in their ranges, because the
group's schemas say so. -/
theorem inRange_of_read {C : ParameterCatalog} {t : Patterns} (hC : Loaded C t)
    (hg : C.group? (qs "iiLocalLLM.GenerationOptions") = some nativeGroup)
    {values : JsonObject} (hsorted : Sorted values) {o : GenerationOptions}
    (hread : generationOptionsFromJson C t values = .ok o) : InRange o := by
  obtain ⟨hsettable, htokens, ho⟩ :=
    (generationOptionsFromJson_eq_ok hg).1 hread
  rw [hsorted.ofMembers_self] at ho
  refine (settable_iff_inRange hC hg o).1 ⟨fun m hm => ?_, htokens⟩
  -- a member is one of the document, or a default
  have hwritten := written_back hC hg hsorted hsettable
  rw [← ho] at hwritten
  have hlookup := (sorted_ofMembers (optionMembers o)).lookup_mem hm
  change lookup (generationOptionsToJson o) m.1 = some m.2 at hlookup
  rw [hwritten, lookup_completed] at hlookup
  cases hvalue : lookup values m.1 with
  | some v =>
      rw [hvalue, Option.some_or, Option.some.injEq] at hlookup
      exact hsettable m (mem_of_lookup (hlookup ▸ hvalue))
  | none =>
      rw [hvalue, Option.none_or] at hlookup
      obtain ⟨field, hfield, hdefault⟩ := Option.bind_eq_some_iff.1 hlookup
      have hmem := (ParameterGroupDefinition.field?_some hfield).1
      have hwritable : ∀ field ∈ nativeGroup.parameters,
          field.readOnly = false := by
        simp [nativeGroup, nativeField]
      exact ⟨nativeGroup, field, hg, hfield, hwritable field hmem,
        native_defaults hC field hmem _ hdefault⟩

/-- The usage can only be asked for on a stream. -/
theorem usageOption_stream {stream usage : Bool}
    (husage : usageOption object stream = .ok usage) (hyes : usage = true) :
    stream = true := by
  unfold usageOption at husage
  split at husage
  · injection husage with husage
    rw [← husage] at hyes
    cases hyes
  · obtain ⟨_, hstream, -⟩ := bind_eq_ok.1 husage
    exact (orFail_eq_ok.1 hstream).1

/-- An accepted body has one of the three choices of a tool, or none, which
counts as the first. -/
theorem Accepted.isChoice (hp : Accepted h object p) :
    IsChoice (toolChoiceOf object) := by
  rcases hp.choice with hnone | ⟨-, hchoice⟩
  · rw [contains_eq, Option.isSome_eq_false_iff,
      Option.isNone_iff_eq_none] at hnone
    unfold toolChoiceOf
    rw [hnone]
    exact Or.inl rfl
  · exact hchoice

/-- A lifetime that is read is the model's own, or within a week. -/
theorem isLifetime_of_read {v : Option Json} {ms : Int}
    (h : parseKeepAlive v = .ok ms) : IsLifetime ms := by
  cases v with
  | none =>
      injection h with h
      exact Or.inl h.symm
  | some v =>
      obtain ⟨-, hlow, hhigh⟩ := parseKeepAlive_eq_ok.1 h
      have hmax : maxKeepAliveMs = 604800000 := by decide
      exact Or.inr ⟨hlow, by omega⟩

/-- What `parse` returns can be asked for: each check that it passed is one of
the clauses. -/
theorem Accepted.expressible (hC : Loaded h.catalog h.patterns)
    (hg : h.catalog.group? (qs "iiLocalLLM.GenerationOptions")
      = some nativeGroup)
    (hp : Accepted h object p) : Expressible p := by
  obtain ⟨parallel, -, hconversation⟩ := hp.conversation
  obtain ⟨group, hgroup, hoptions⟩ := hp.options
  refine ⟨hp.named, isLifetime_of_read hp.lifetime, inRange_of_read hC hg
    (sorted_generationOf _ _)
    hoptions, hp.temperature, usageOption_stream hp.usage, fun hnone => ?_,
      fun r hr => ?_⟩
  · have hplain : isStructured object = false := by
      by_contra hyes
      rw [if_pos (Bool.not_eq_false _ ▸ hyes), hnone] at hconversation
      cases hconversation
    have htexts := hp.texts
    rw [hplain] at htexts
    have hlength := (readMessages_plain.1 htexts).length_eq
    have hcount := hp.count
    rw [← List.length_pos_iff] at hcount ⊢
    omega
  · have hyes : isStructured object = true := by
      by_contra hno
      rw [if_neg hno, hr] at hconversation
      cases hconversation
    have htexts := hp.texts
    rw [hyes] at htexts
    obtain ⟨hpasses, htexts⟩ := readMessages_structured.1 htexts
    rw [if_pos hyes, hr, Option.some.injEq] at hconversation
    subst hconversation
    exact ⟨⟨rfl, rfl, rfl⟩, ⟨rfl, rfl, rfl⟩, htexts, hp.isChoice,
      hp.count, hpasses,
      isStructured_iff.1 hyes⟩

/-- The message of a text is read as that text. -/
theorem textMessage_reads (t : ChatMessage) : Reads (textMessage t) t where
  object := rfl
  fields := by
    intro m hm
    have hm := mem_ofMembers hm
    simp only [List.mem_cons, List.not_mem_nil, or_false] at hm
    rcases hm with rfl | rfl
    · exact List.mem_cons_self
    · exact List.mem_cons_of_mem _ List.mem_cons_self
  role := by
    show lookup (ofMembers _) _ = _
    rw [lookup_ofMembers]
    rfl
  content := by
    show lookup (ofMembers _) _ = _
    rw [lookup_ofMembers]
    rfl

/-- A message that can be read as a text is not one of a structured
conversation. -/
theorem Reads.not_marked {value : Json} {t : ChatMessage}
    (hreads : Reads value t) : marked value = false := by
  have habsent : ∀ key : QString, key ∉ textFields →
      contains (membersOf value) key = false := by
    intro key hkey
    unfold contains
    rw [List.any_eq_false]
    intro m hm heq
    exact hkey (beq_iff_eq.1 heq ▸ hreads.fields m hm)
  have hrole : ¬ memberIs (membersOf value) "role" "tool" := by
    unfold memberIs
    rw [hreads.role]
    intro heq
    injection heq with heq
    injection heq with heq
    revert heq
    cases t.role <;> decide
  unfold marked
  dsimp only
  show (decide (memberIs (membersOf value) "role" "tool") || _ || _ || _
    || isArray (lookup (membersOf value) (qs "content"))) = false
  rw [hreads.content, decide_eq_false hrole]
  simp only [Bool.false_or]
  show (contains (membersOf value) (qs "tool_calls")
    || contains (membersOf value) (qs "tool_call_id")
    || contains (membersOf value) (qs "reasoning_content") || false) = false
  rw [habsent _ (by decide), habsent _ (by decide), habsent _ (by decide)]
  rfl

/-- The messages of a body are the ones that were put there. -/
theorem messagesOf_bodyOf : messagesOf (bodyOf p) = statedMessages p := by
  unfold messagesOf
  rw [lookup_messages]
  rfl

/-- The usage of a body is read back, where it goes with a stream. -/
theorem usageOption_bodyOf (husage : p.includeUsage = true → p.stream = true) :
    usageOption (bodyOf p) p.stream = .ok p.includeUsage := by
  unfold usageOption
  rw [lookup_streamOptions]
  cases hstream : p.stream with
  | false =>
      cases hincluded : p.includeUsage with
      | false => rfl
      | true => exact absurd (husage hincluded) (by simp [hstream])
  | true =>
      rw [if_pos rfl]
      refine bind_eq_ok.2 ⟨(), orFail_eq_ok.2 ⟨rfl, rfl⟩,
        bind_eq_ok.2 ⟨(), fields_eq_ok.2 ?_, boolean_some rfl _⟩⟩
      intro m hm
      rw [List.mem_singleton.1 hm]
      exact List.mem_cons_self

/-- The tools of that body, and the choice between them. -/
theorem tools_bodyOf {r : ConversationRequest} (hr : p.conversation = some r) :
    toolsOf (bodyOf p) = r.tools ∧ toolChoiceOf (bodyOf p) = r.toolChoice := by
  unfold toolsOf toolChoiceOf
  rw [lookup_conversation rfl rfl (by decide) (by decide),
    lookup_conversation rfl rfl (by decide) (by decide), hr]
  exact ⟨rfl, rfl⟩

/-- A plain body has no tools and leaves their choice alone. -/
theorem no_tools_bodyOf (hnone : p.conversation = none) :
    toolsOf (bodyOf p) = [] ∧ toolChoiceOf (bodyOf p) = qs "auto" := by
  unfold toolsOf toolChoiceOf
  rw [lookup_conversation rfl rfl (by decide) (by decide),
    lookup_conversation rfl rfl (by decide) (by decide), hnone]
  exact ⟨rfl, rfl⟩

/-- That body is structured when the request is. -/
theorem isStructured_bodyOf (hp : Expressible p) :
    isStructured (bodyOf p) = p.conversation.isSome := by
  cases hconversation : p.conversation with
  | none =>
      obtain ⟨htools, hchoice⟩ := no_tools_bodyOf hconversation
      rw [Option.isSome_none, ← Bool.not_eq_true, isStructured_iff,
        htools, hchoice,
        messagesOf_bodyOf]
      rintro (hne | hrequired | ⟨m, hm, hmarked⟩)
      · exact hne rfl
      · exact absurd hrequired (by decide)
      · unfold statedMessages at hm
        rw [hconversation] at hm
        obtain ⟨t, -, rfl⟩ := List.mem_map.1 hm
        rw [(textMessage_reads t).not_marked] at hmarked
        cases hmarked
  | some r =>
      obtain ⟨htools, hchoice⟩ := tools_bodyOf hconversation
      rw [Option.isSome_some, isStructured_iff, htools, hchoice,
        messagesOf_bodyOf]
      unfold statedMessages
      rw [hconversation]
      exact (hp.structured r hconversation).marked

/-- The messages of that body are read as the request has them. -/
theorem texts_bodyOf (hp : Expressible p) :
    readMessages (isStructured (bodyOf p)) (messagesOf (bodyOf p))
      = .ok p.request.messages := by
  rw [isStructured_bodyOf hp, messagesOf_bodyOf]
  unfold statedMessages
  cases hconversation : p.conversation with
  | none =>
      refine readMessages_plain.2 (List.forall₂_map_left_iff.2 ?_)
      exact List.forall₂_same.2 fun t _ => textMessage_reads t
  | some r =>
      obtain hr := hp.structured r hconversation
      exact readMessages_structured.2 ⟨hr.each, hr.texts⟩

/-- A body has at least one message and at most 4096, as the request it was
written for. -/
theorem count_bodyOf (hp : Expressible p) :
    messagesOf (bodyOf p) ≠ [] ∧ (messagesOf (bodyOf p)).length ≤ 4096 := by
  rw [messagesOf_bodyOf]
  unfold statedMessages
  cases hconversation : p.conversation with
  | none =>
      obtain ⟨hne, hcount⟩ := hp.plain hconversation
      exact ⟨fun hnil => hne
        (List.map_eq_nil_iff.1 hnil), by rwa [List.length_map]⟩
  | some r => exact (hp.structured r hconversation).count

/-- What can be asked for has a body, and that body is read as the request. The
checks of `parse` are gone through in their order, one field for each. -/
theorem Expressible.accepted
    (hg : h.catalog.group? (qs "iiLocalLLM.GenerationOptions")
      = some nativeGroup)
    (hC : Loaded h.catalog h.patterns) (hp : Expressible p) :
    Accepted h (bodyOf p) p where
  fields := bodyOf_fields
  model := lookup_model
  named := hp.named
  lifetime := lifetime_bodyOf hp.lifetime
  messages := by
    rw [lookup_messages]
    rfl
  count := count_bodyOf hp
  tools := by
    rw [contains_eq, lookup_conversation rfl rfl (by decide) (by decide)]
    cases p.conversation with
    | none => exact Or.inl rfl
    | some r => exact Or.inr rfl
  choice := by
    cases hconversation : p.conversation with
    | none =>
        rw [contains_eq, lookup_conversation rfl rfl (by decide) (by decide),
          hconversation]
        exact Or.inl rfl
    | some r =>
        rw [(tools_bodyOf hconversation).2]
        rw [lookup_conversation rfl rfl (by decide) (by decide), hconversation]
        exact Or.inr ⟨rfl, (hp.structured r hconversation).choice⟩
  conversation := by
    rw [isStructured_bodyOf hp]
    cases hconversation : p.conversation with
    | none =>
        refine ⟨true, boolean_none ?_ true, rfl⟩
        rw [lookup_conversation rfl rfl (by decide) (by decide), hconversation]
        rfl
    | some r =>
        refine ⟨r.parallelToolCalls, boolean_some ?_ true, ?_⟩
        · rw [lookup_conversation rfl rfl (by decide) (by decide),
            hconversation]
          rfl
        · have hr := hp.structured r hconversation
          obtain ⟨htools, hchoice⟩ := tools_bodyOf hconversation
          rw [Option.isSome_some, if_pos rfl]
          unfold conversationOf
          rw [htools, hchoice, messagesOf_bodyOf]
          unfold statedMessages
          rw [hconversation]
          exact congrArg some hr.eq
  texts := texts_bodyOf hp
  stream := boolean_some lookup_stream false
  usage := usageOption_bodyOf hp.usage
  limit := by
    have hunstated : lookup (bodyOf p) (qs "max_completion_tokens") = none :=
      lookup_unstated (by decide)
    rw [contains_eq, contains_eq, hunstated]
    exact Or.inr rfl
  options := by
    refine ⟨nativeGroup, group_eq_ok.2 hg, ?_⟩
    have hwritten : ofMembers (generationOptionsToJson p.request.options)
        = generationOptionsToJson p.request.options :=
      (sorted_ofMembers _).ofMembers_self
    obtain ⟨hsettable, htokens⟩ := (settable_iff_inRange hC hg _).2 hp.options
    rw [generationOf_bodyOf, generationOptionsFromJson_eq_ok hg, hwritten]
    exact ⟨hsettable, htokens, hp.options.read.symm⟩
  temperature := hp.temperature
  choices := by
    unfold number
    rw [lookup_unstated (by decide)]
    exact ⟨_, rfl⟩

/-- A body is text that is read as an object. -/
theorem parse_eq_ok {body : Bytes} {p : ParsedCompletion} :
    h.parse body = .ok p
      ↔ ∃ object, h.fromJson body = some (.object object)
        ∧ h.parseObject object = .ok p := by
  unfold parse
  constructor
  · intro hparse
    split at hparse
    next members hread => exact ⟨members, hread, hparse⟩
    next => cases hparse
  · rintro ⟨object, hread, hparse⟩
    rw [hread]
    exact hparse

/-- **What can be asked for over HTTP is what `Expressible` says**, and each
such request has a body that is read as it. The last clause says the same of
`parse`, over any reader of JSON that reads the body back. -/
theorem parse_exact {document : JsonObject}
    (hC : ParameterCatalog.fromJson h.patterns document = .ok h.catalog)
    (hg : h.catalog.group? (qs "iiLocalLLM.GenerationOptions")
      = some nativeGroup)
    (p : ParsedCompletion) :
    ((∃ object, h.parseObject object = .ok p) ↔ Expressible p)
      ∧ (Expressible p → h.parseObject (bodyOf p) = .ok p)
      ∧ ∀ body, (h.parse body = .ok p → Expressible p)
        ∧ (h.fromJson body = some (.object (bodyOf p)) → Expressible p →
          h.parse body = .ok p) := by
  have hC := ParameterCatalog.fromJson_loaded hC
  have hback : Expressible p → h.parseObject (bodyOf p) = .ok p :=
    fun hp => parseObject_eq_ok.2 (hp.accepted hg hC)
  have hexpressible : ∀ object, h.parseObject object = .ok p → Expressible p :=
    fun _ hparse => (parseObject_eq_ok.1 hparse).expressible hC hg
  refine ⟨⟨?_, fun hp => ⟨_, hback hp⟩⟩, hback, fun body =>
    ⟨fun hparse => ?_, ?_⟩⟩
  · rintro ⟨object, hparse⟩
    exact hexpressible object hparse
  · obtain ⟨object, -, hobject⟩ := parse_eq_ok.1 hparse
    exact hexpressible object hobject
  · exact fun hread hp => parse_eq_ok.2 ⟨_, hread, hback hp⟩

-- ============================================================== on a sample

/-- A user says hello, on a stream and to a model that stays for a minute. -/
def greeting : ParsedCompletion where
  request :=
    { model := qs "model://tiny"
      messages := [{ role := .User, content := qs "hello" }]
      keepAliveMs := 60000 }
  stream := true
  includeUsage := true

theorem greeting_expressible : Expressible greeting where
  named := by decide +kernel
  lifetime := Or.inr (by decide)
  options := inRange_default
  temperature := by decide +kernel
  usage := fun _ => rfl
  plain := fun _ => by decide
  structured := fun _ h => by cases h

/-- A user has a tool called. -/
def asking : ParsedCompletion where
  request := { model := qs "model://tiny", messages := [] }
  conversation := some Sample.conversation

theorem asking_expressible : Expressible asking where
  named := by decide +kernel
  lifetime := Or.inl rfl
  options := inRange_default
  temperature := by decide +kernel
  usage := fun h => by cases h
  plain := fun h => by cases h
  structured := fun r h => by
    obtain rfl := Option.some.inj h
    exact
      { same := ⟨rfl, rfl, rfl⟩
        unset := ⟨rfl, rfl, rfl⟩
        texts := rfl
        choice := Or.inr (Or.inr rfl)
        count := by decide
        each := fun m hm => by
          rw [List.mem_singleton.1 hm]
          exact ⟨rfl, by decide⟩
        marked := Or.inr (Or.inl rfl) }

/-- The greeting, at a temperature that the options allow and HTTP does not. -/
def hot : ParsedCompletion :=
  { greeting with request := { greeting.request with
      options := { temperature := .finite 3 } } }

/-- A parser with the group of the options for a catalog, which
is sent two bodies. -/
def sample : HttpParser where
  catalog := ⟨[nativeGroup]⟩
  patterns := Sample.patterns
  fromJson body := if body = [0] then some (.object (bodyOf greeting))
    else if body = [1] then some (.object (bodyOf asking)) else none

/-- A plain and a structured request are read back, and no body asks for too
high a temperature. -/
theorem parse_exact_greeting :
    sample.parse [0] = .ok greeting ∧ sample.parse [1] = .ok asking
      ∧ ¬ ∃ object, sample.parseObject object = .ok hot := by
  have hexact := fun p => @parse_exact sample Sample.nativeDocument
    native_loaded rfl p
  refine ⟨((hexact greeting).2.2 [0]).2 rfl greeting_expressible,
    ((hexact asking).2.2 [1]).2 rfl asking_expressible, fun hsome => ?_⟩
  exact absurd ((hexact hot).1.1 hsome).temperature (by decide +kernel)

end HttpParser

end LocalLLM
