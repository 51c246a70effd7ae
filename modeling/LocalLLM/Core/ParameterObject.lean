/-
Catalogs read from a document, and the objects that hold values of one
group (`core/Parameters.cpp`).

`fromJson` indexes the groups first and checks all schemas afterwards, since
a schema may refer to a group that comes later. A `ParameterObject` is
changed only through `set`, which asks the validator, and `unset`; a control
document holds one object a group.

The catalog an object is constructed with is an argument of its operations.
-/
import LocalLLM.Core.Parameters

namespace LocalLLM

open Json

-- ================================================================= catalogs

/-- What `phase` knows; the empty name is generation. -/
def phases : List QString :=
  [[], qs "generation", qs "loading", qs "training", qs "fine_tuning",
    qs "quantization", qs "serving", qs "infrastructure"]

/-- `document.value(key) == value`. -/
def memberSame (document : JsonObject) (key : String) (value : Json) : Bool :=
  match lookup document (qs key) with
  | some v => same v value
  | none => false

namespace ParameterCatalog

/-- One definition of the group `id`; `names` are those before it. -/
def parseField (id : QString) (names : List QString) (field : Json) :
    Except Exn ParameterDefinition := do
  let object := toObject (some field)
  orFail (isObject (some field) = true
      ∧ isObject (lookup object (qs "schema")) = true)
    (qs "Parameter definition requires a schema object")
  let p : ParameterDefinition :=
    { name := keywordText object "name"
      nativeType := keywordText object "native_type"
      schema := toObject (lookup object (qs "schema"))
      defaultValue := lookup object (qs "default")
      required := Json.toBool (lookup object (qs "required"))
      readOnly := Json.toBool (lookup object (qs "read_only"))
      sensitive := Json.toBool (lookup object (qs "sensitive")) }
  orFail (p.name ≠ [] ∧ p.name ∉ names ∧ p.nativeType ≠ []
      ∧ keywordText object "description" ≠ [])
    (qs "Invalid parameter definition in " ++ id)
  return p

def parseFields (id : QString) : List QString → List Json →
    Except Exn (List ParameterDefinition)
  | _, [] => .ok []
  | names, field :: rest => do
      let p ← parseField id names field
      let parameters ← parseFields id (p.name :: names) rest
      return p :: parameters

/-- One group, whose id must be new to the catalog. -/
def parseGroup (C : ParameterCatalog) (item : Json) :
    Except Exn ParameterGroupDefinition := do
  orFail (isObject (some item) = true) (qs "Parameter group must be an object")
  let group := toObject (some item)
  let id := keywordText group "id"
  orFail (keywordText group "phase" ∈ phases)
    (qs "Unknown parameter phase: " ++ keywordText group "phase")
  orFail (id ≠ [] ∧ C.contains id = false
      ∧ isArray (lookup group (qs "parameters")) = true)
    (qs "Invalid or duplicate parameter group")
  let parameters ← parseFields id [] (toArray (lookup group (qs "parameters")))
  return { id, parameters }

def parseGroups : ParameterCatalog → List Json → Except Exn ParameterCatalog
  | C, [] => .ok C
  | C, item :: rest => do
      let g ← parseGroup C item
      parseGroups (C.insert g) rest

/-- `ParameterCatalog::fromJson`. -/
def fromJson (t : Patterns) (document : JsonObject) :
    Except Exn ParameterCatalog := do
  orFail (memberSame document "schema_version" (jsonInt 1) = true
      ∧ isArray (lookup document (qs "groups")) = true)
    (qs "Parameter catalog requires schema_version=1 and groups")
  let C ← parseGroups {} (toArray (lookup document (qs "groups")))
  each (fun g => each (fun p => checkSchema C t levels p.schema)
    g.parameters) C.groups
  return C

end ParameterCatalog

-- =================================================================== objects

structure ParameterIssue where
  path : QString
  message : QString
deriving DecidableEq

section Operations

variable (C : ParameterCatalog) (t : Patterns)

/-- `accepts(schema, value)`, of a value that may be `Undefined`. -/
def acceptsValue (schema : JsonObject) : Option Json → Bool
  | none => false
  | some value => accepts C t levels schema value

/-- `validateValue`. -/
def validateValue (group name : QString) (value : Option Json) :
    Except Exn (List ParameterIssue) := do
  let field ← C.parameter group name
  let path := group ++ qs "." ++ name
  if field.readOnly = true then
    return [⟨path, qs "Parameter is derived/read-only"⟩]
  else if acceptsValue C t field.schema value = false then
    return [⟨path, qs "Expected " ++ field.nativeType ++ qs " satisfying "
      ++ t.objectText field.schema⟩]
  else return []

/-- Fails with the first issue, if there is one. -/
def failFirst (text : ParameterIssue → QString) :
    List ParameterIssue → Except Exn Unit
  | [] => .ok ()
  | issue :: _ => fail (text issue)

/-- Path and message of an issue. -/
def ParameterIssue.text (issue : ParameterIssue) : QString :=
  issue.path ++ qs ": " ++ issue.message

/-- What stands in the place of a secret. -/
def redacted : Json := .string (qs "[REDACTED]")

/-- A field of a group, redacted. -/
def redactField (recurse : JsonObject → Json → Json) (object : JsonObject)
    (field : ParameterDefinition) : JsonObject :=
  match lookup object field.name with
  | none => object
  | some v => insert object field.name
      (if field.sensitive = true then redacted else recurse field.schema v)

/-- A value by a schema that says nothing when it is empty. -/
def redactChild (recurse : JsonObject → Json → Json) (child : JsonObject)
    (value : Json) : Json :=
  if child = [] then value else recurse child value

/-- A member, by `properties` or else by `additionalProperties`. -/
def redactMember (recurse : JsonObject → Json → Json) (schema : JsonObject)
    (m : QString × Json) : QString × Json :=
  let property := lookup (toObject (lookup schema (qs "properties"))) m.1
  (m.1, redactChild recurse (if isObject property = true then toObject property
    else toObject (lookup schema (qs "additionalProperties"))) m.2)

/-- An item, by `prefixItems` or else by `items`. -/
def redactItem (recurse : JsonObject → Json → Json) (schema : JsonObject)
    (i : Nat) (item : Json) : Json :=
  let first := toArray (lookup schema (qs "prefixItems"))
  redactChild recurse (if i < first.length then toObject first[i]?
    else toObject (lookup schema (qs "items"))) item

/-- `redactValue`, with the levels that are left. -/
def redactValue : Nat → JsonObject → Json → Json
  | 0 => fun _ _ => redacted
  | n + 1 => fun schema value =>
      match (toArray (lookup schema (qs "anyOf"))).foldl
        (fun v branch => redactValue n (toObject (some branch)) v) value with
      | .object members =>
          let members := match C.group? (keywordText schema "ref") with
            | none => members
            | some g =>
                g.parameters.foldl (redactField (redactValue n)) members
          .object (members.map (redactMember (redactValue n) schema))
      | .array items =>
          .array (items.mapIdx (redactItem (redactValue n) schema))
      | value => value

/-- An object of one group. -/
structure ParameterObject where
  group : QString
  values : JsonObject := []
deriving DecidableEq

namespace ParameterObject

/-- The constructor. -/
def create (group : QString) : Except Exn ParameterObject := do
  let _ ← C.group group
  return { group }

/-- `value`: what was set, or the default. -/
def value (o : ParameterObject) (field : QString) :
    Except Exn (Option Json) := do
  let p ← C.parameter o.group field
  return if contains o.values field = true then lookup o.values field
    else p.defaultValue

/-- `set`. -/
def set (o : ParameterObject) (field : QString) (value : Option Json) :
    Except Exn ParameterObject := do
  let issues ← validateValue C t o.group field value
  failFirst ParameterIssue.text issues
  match value with
  | some v => return { o with values := insert o.values field v }
  | none => return { o with values := remove o.values field }

/-- `setNumber`. -/
def setNumber (o : ParameterObject) (field : QString) (value : Double) :
    Except Exn ParameterObject := do
  orFail (value.isFinite = true)
    (o.group ++ qs "." ++ field ++ qs ": Number must be finite")
  set C t o field (some (.number value))

/-- `unset`. -/
def unset (o : ParameterObject) (field : QString) :
    Except Exn ParameterObject := do
  let _ ← C.parameter o.group field
  return { o with values := remove o.values field }

/-- What `validate` says of one field. -/
def fieldIssues (o : ParameterObject) (required : Bool)
    (field : ParameterDefinition) : Except Exn (List ParameterIssue) :=
  if contains o.values field.name = true then
    validateValue C t o.group field.name (lookup o.values field.name)
  else if required = true ∧ field.required = true ∧ field.hasDefault = false
    then
    .ok [⟨o.group ++ qs "." ++ field.name, qs "Required parameter is unset"⟩]
  else .ok []

def allIssues (o : ParameterObject) (required : Bool) :
    List ParameterDefinition → Except Exn (List ParameterIssue)
  | [] => .ok []
  | field :: rest => do
      let issues ← fieldIssues C t o required field
      let others ← allIssues o required rest
      return issues ++ others

/-- The groups that exclude two precisions at once. -/
def isTraining (group : QString) : Bool :=
  QString.startsWith group (qs "transformers.")
    || QString.startsWith group (qs "trl.")

/-- Both precisions are on. -/
def bothPrecisions (values : JsonObject) : Bool :=
  Json.toBool (lookup values (qs "fp16"))
    && Json.toBool (lookup values (qs "bf16"))

/-- `validate`. -/
def validate (o : ParameterObject) (required : Bool) :
    Except Exn (List ParameterIssue) := do
  let g ← C.group o.group
  let issues ← allIssues C t o required g.parameters
  return issues ++ if isTraining o.group && bothPrecisions o.values
    then [⟨o.group, qs "fp16 and bf16 are mutually exclusive"⟩] else []

/-- What `toNativeJson` does for one field. -/
def exportField (defaults redact : Bool) (object : JsonObject)
    (field : ParameterDefinition) : JsonObject :=
  let object := match field.defaultValue with
    | some v =>
        if defaults && !field.readOnly && !contains object field.name
          then insert object field.name v else object
    | none => object
  match lookup object field.name with
  | some v =>
      if redact = true then insert object field.name
        (if field.sensitive = true then redacted
          else redactValue C levels field.schema v)
      else object
  | none => object

/-- `toNativeJson`. -/
def toNativeJson (o : ParameterObject) (defaults redact : Bool) :
    Except Exn JsonObject := do
  let issues ← validate C t o false
  failFirst ParameterIssue.text issues
  let g ← C.group o.group
  return g.parameters.foldl (exportField C defaults redact) o.values

/-- Sets every member of a document, in order. -/
def setAll : ParameterObject → JsonObject → Except Exn ParameterObject
  | o, [] => .ok o
  | o, m :: rest => do
      let o ← set C t o m.1 (some m.2)
      setAll o rest

/-- `fromNativeJson`. -/
def fromNativeJson (group : QString) (values : JsonObject) :
    Except Exn ParameterObject := do
  let o ← create C group
  let o ← setAll C t o values
  let issues ← validate C t o false
  failFirst ParameterIssue.message issues
  return o

end ParameterObject

-- ========================================================== control documents

/-- `ControlParameters`: the objects, by group. -/
structure ControlParameters where
  objects : Std.ExtTreeMap QString ParameterObject := ∅

namespace ControlParameters

/-- `set`. -/
def set (c : ControlParameters) (object : ParameterObject) :
    Except Exn ControlParameters := do
  let values ← ParameterObject.toNativeJson C t object false false
  let o ← ParameterObject.fromNativeJson C t object.group values
  return { objects := c.objects.insert object.group o }

/-- The members of `objects`, in the order of the groups. -/
def exportAll (defaults redact : Bool) :
    JsonObject → List (QString × ParameterObject) → Except Exn JsonObject
  | objects, [] => .ok objects
  | objects, entry :: rest => do
      let values ← ParameterObject.toNativeJson C t entry.2 defaults redact
      exportAll defaults redact (insert objects entry.1 (.object values)) rest

/-- `toJson`. -/
def toJson (c : ControlParameters) (defaults redact : Bool) :
    Except Exn JsonObject := do
  let objects ← exportAll C t defaults redact [] c.objects.toList
  return ofMembers [(qs "schema_version", jsonInt 1),
    (qs "objects", .object objects)]

/-- Reads every group of a document, in order. -/
def importAll : ControlParameters → JsonObject → Except Exn ControlParameters
  | c, [] => .ok c
  | c, m :: rest => do
      orFail (isObject (some m.2) = true)
        (qs "Control parameter groups must be objects")
      let o ← ParameterObject.fromNativeJson C t m.1 (toObject (some m.2))
      let c ← set C t c o
      importAll c rest

/-- `ControlParameters::fromJson`. -/
def fromJson (document : JsonObject) : Except Exn ControlParameters := do
  orFail (memberSame document "schema_version" (jsonInt 1) = true
      ∧ isObject (lookup document (qs "objects")) = true)
    (qs "Control parameters require schema_version=1 and objects")
  each (fun m => orFail (m.1 = qs "schema_version" ∨ m.1 = qs "objects")
    (qs "Unknown control document field: " ++ m.1)) document
  importAll C t {} (toObject (lookup document (qs "objects")))

end ControlParameters

end Operations

end LocalLLM
