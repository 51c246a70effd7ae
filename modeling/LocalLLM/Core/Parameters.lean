/-
Parameter catalogs (`core/Parameters.cpp`): groups of fields, each with a
schema, the validator of values, and objects that hold checked values.

A schema is a JSON object that may refer to a group by name, so the
validator recurses through values and groups alike and stops at a depth of
32. Here the depth is counted down: `accepts C n` is the validator with `n`
levels left, and a field is checked with `levels` of them.

`Patterns` holds what is asked of Qt: regular expressions, and the text of
an object for the messages.
-/
import LocalLLM.Core.Types

namespace LocalLLM

open Json

structure Patterns where
  /-- `QRegularExpression(pattern).isValid()`. -/
  isValid : QString → Bool
  /-- `QRegularExpression(pattern).match(text).hasMatch()`. -/
  hasMatch : QString → QString → Bool
  /-- `QJsonDocument(object).toJson(Compact)` as text. -/
  objectText : JsonObject → QString

/-- `fail`. -/
def fail {α : Type} (message : QString) : Except Exn α :=
  .error (.error ⟨.InvalidArgument, message⟩)

/-- `fail` unless the condition holds. -/
def orFail (condition : Prop) [Decidable condition] (message : QString) :
    Except Exn Unit :=
  if condition then .ok () else fail message

/-- A check of every element, in order. -/
def each {α : Type} (check : α → Except Exn Unit) : List α → Except Exn Unit
  | [] => .ok ()
  | a :: rest => do
      check a
      each check rest

namespace Json

/-- Whether a number is held as an integer of 64 bits. -/
def heldAsInteger (q : ℚ) : Bool := q.den = 1 ∧ -2 ^ 63 ≤ q.num
    ∧ q.num < 2 ^ 63

/-- Equality of numbers: an integer and a double compare as doubles. -/
def sameNumber : Double → Double → Bool
  | .finite p, .finite q =>
      if heldAsInteger p = heldAsInteger q then p = q
      else toDouble (.finite 0) (some (.number (.finite p)))
        = toDouble (.finite 0) (some (.number (.finite q)))
  | .infinite m, .infinite n => m = n
  | _, _ => false

/-- `QJsonValue::operator==`. -/
def same : Json → Json → Bool
  | .number a, .number b => sameNumber a b
  | a, b => a = b

/-- `QJsonObject::remove`. -/
def remove (o : JsonObject) (key : QString) : JsonObject :=
  o.filter fun m => m.1 != key

end Json

-- =============================================================== definitions

structure ParameterDefinition where
  name : QString
  nativeType : QString
  schema : JsonObject
  /-- The default, when the definition has one. -/
  defaultValue : Option Json := none
  required : Bool := false
  readOnly : Bool := false
  sensitive : Bool := false

/-- `hasDefault`. -/
def ParameterDefinition.hasDefault (p : ParameterDefinition) : Bool :=
  p.defaultValue.isSome

structure ParameterGroupDefinition where
  id : QString
  parameters : List ParameterDefinition

/-- `GroupIndex::fields`. -/
def ParameterGroupDefinition.field? (g : ParameterGroupDefinition)
    (name : QString) : Option ParameterDefinition :=
  g.parameters.find? fun p => p.name == name

/-- `GroupIndex::required`. -/
def ParameterGroupDefinition.required (g : ParameterGroupDefinition) :
    List ParameterDefinition :=
  g.parameters.filter fun p => p.required && !p.hasDefault && !p.readOnly

/-- A catalog: its groups, sorted by id. -/
structure ParameterCatalog where
  groups : List ParameterGroupDefinition := []

namespace ParameterCatalog

/-- `groups.constFind(id)`. -/
def group? (C : ParameterCatalog) (id : QString) :
    Option ParameterGroupDefinition :=
  C.groups.find? fun g => g.id == id

/-- `contains`. -/
def contains (C : ParameterCatalog) (id : QString) :
    Bool := (C.group? id).isSome

/-- `QMap::insert` of a group whose id is new. -/
def insert (C : ParameterCatalog) (g : ParameterGroupDefinition) :
    ParameterCatalog where
  groups := (C.groups.takeWhile fun h => compare h.id g.id == .lt)
    ++ g :: C.groups.dropWhile fun h => compare h.id g.id == .lt

/-- `group(id)`. -/
def group (C : ParameterCatalog) (id : QString) :
    Except Exn ParameterGroupDefinition :=
  match C.group? id with
  | some g => .ok g
  | none => fail (qs "Unknown parameter group: " ++ id)

/-- `parameter(id, name)`. -/
def parameter (C : ParameterCatalog) (id name : QString) :
    Except Exn ParameterDefinition := do
  let g ← C.group id
  match g.field? name with
  | some p => .ok p
  | none => fail (qs "Unknown parameter: " ++ id ++ qs "." ++ name)

end ParameterCatalog

-- =================================================================== schemas

/-- The keywords of a schema. -/
def schemaKeywords : List QString :=
  [qs "type", qs "enum", qs "anyOf", qs "nullable", qs "ref", qs "items",
    qs "prefixItems", qs "minimum", qs "maximum", qs "exclusiveMinimum",
    qs "exclusiveMaximum", qs "minItems", qs "maxItems", qs "minLength",
    qs "maxLength", qs "additionalProperties", qs "properties", qs "required",
    qs "pattern"]

def schemaTypes : List QString :=
  [qs "boolean", qs "integer", qs "number", qs "string",
    qs "array", qs "object",
    qs "null", qs "opaque", qs "external"]

/-- Whether a keyword is a bound. -/
def isBound (key : QString) : Bool :=
  QString.startsWith key (qs "min") || QString.startsWith key (qs "max")
    || QString.startsWith key (qs "exclusive")

/-- Whether a bound counts something. -/
def isSize (key : QString) : Bool :=
  QString.endsWith key (qs "Length") || QString.endsWith key (qs "Items")

/-- `std::isfinite(value.toDouble())`, of a number. -/
def isFiniteNumber : Json → Bool
  | .number d => d.isFinite
  | _ => false

/-- No less than 0, and whole. -/
def isNatural : Json → Bool
  | .number (.finite q) => 0 ≤ q ∧ q.den = 1
  | _ => false

/-- `anyOf` and `prefixItems`; `child` checks the schemas inside. -/
def checkAlternatives (child : JsonObject → Except Exn Unit) (key : QString)
    (value : Json) : Except Exn Unit :=
  if key = qs "anyOf" ∨ key = qs "prefixItems" then do
    orFail (isArray (some value) = true
        ∧ (key = qs "anyOf" → toArray (some value) ≠ []))
      (qs "Invalid schema alternatives")
    each (fun item => do
      orFail (isObject (some item) = true)
        (qs "Schema alternatives must be objects")
      child (toObject (some item))) (toArray (some value))
  else .ok ()

/-- `items` and `additionalProperties`. -/
def checkItems (child : JsonObject → Except Exn Unit) (key : QString)
    (value : Json) : Except Exn Unit :=
  if key = qs "items" ∨ key = qs "additionalProperties" then
    if isObject (some value) = true then child (toObject (some value))
    else
      orFail (key = qs "additionalProperties" ∧ isBool (some value) = true)
        (qs "Invalid item schema")
  else .ok ()

/-- `properties`. -/
def checkProperties (child : JsonObject → Except Exn Unit) (key : QString)
    (value : Json) : Except Exn Unit :=
  if key = qs "properties" then do
    orFail (isObject (some value) = true) (qs "properties must be an object")
    each (fun property => do
      orFail (isObject (some property.2) = true)
        (qs "Property schema must be an object")
      child (toObject (some property.2))) (toObject (some value))
  else .ok ()

/-- `required`. -/
def checkRequired (key : QString) (value : Json) : Except Exn Unit :=
  if key = qs "required" then do
    orFail (isArray (some value) = true) (qs "required must be an array")
    each (fun field => orFail (isString (some field) = true)
      (qs "required entries must be field names")) (toArray (some value))
  else .ok ()

/-- `pattern`, which is compiled here. -/
def checkPattern (t : Patterns) (key : QString) (value : Json) :
    Except Exn Unit :=
  if key = qs "pattern" then do
    orFail (isString (some value) = true) (qs "Invalid string pattern")
    orFail (t.isValid (toText (some value)) = true)
      (qs "Invalid string pattern")
  else .ok ()

/-- The bounds. -/
def checkBound (key : QString) (value : Json) : Except Exn Unit :=
  if isBound key = true then do
    orFail (isFiniteNumber value = true)
      (qs "Schema bounds must be finite numbers")
    orFail (isSize key = true → isNatural value = true)
      (qs "Invalid size bound")
  else .ok ()

/-- The checks of one keyword. -/
def checkKeyword (C : ParameterCatalog) (t : Patterns)
    (child : JsonObject → Except Exn Unit) (m : QString × Json) :
    Except Exn Unit := do
  let value := some m.2
  orFail (m.1 ∈ schemaKeywords)
    (qs "Unsupported parameter schema keyword: " ++ m.1)
  orFail (m.1 = qs "type" → toText value ∈ schemaTypes)
    (qs "Unknown parameter schema type")
  orFail (m.1 = qs "ref" →
    isString value = true ∧ C.contains (toText value) = true)
    (qs "Unknown parameter schema reference")
  orFail (m.1 = qs "nullable" → isBool value = true)
    (qs "nullable must be boolean")
  orFail (m.1 = qs "enum" → isArray value = true ∧ toArray value ≠ [])
    (qs "enum must contain choices")
  checkAlternatives child m.1 m.2
  checkItems child m.1 m.2
  checkProperties child m.1 m.2
  checkRequired m.1 m.2
  checkPattern t m.1 m.2
  checkBound m.1 m.2

/-- The levels of a schema and of a validation. -/
def levels : Nat := 33

/-- `checkSchema`. -/
def checkSchema (C : ParameterCatalog) (t : Patterns) :
    Nat → JsonObject → Except Exn Unit
  | 0, _ => fail (qs "Parameter schema exceeds nesting limit")
  | n + 1, schema => each (checkKeyword C t (checkSchema C t n)) schema

-- ================================================================ validation

/-- `schema.value(key).toString()`. -/
def keywordText (schema : JsonObject) (key : String) : QString :=
  toText (lookup schema (qs key))

/-- Some branch of `anyOf` accepts. -/
def acceptsAnyOf (recurse : JsonObject → Json → Bool) (schema : JsonObject)
    (value : Json) : Bool :=
  !contains schema (qs "anyOf")
    || (toArray (lookup schema (qs "anyOf"))).any fun branch =>
      recurse (toObject (some branch)) value

/-- The value is one of the choices. -/
def acceptsEnum (schema : JsonObject) (value : Json) : Bool :=
  !contains schema (qs "enum")
    || (toArray (lookup schema (qs "enum"))).any fun choice =>
      same choice value

/-- `QJsonValue(value.toInteger()) == value`. -/
def isInteger (value : Json) :
    Bool := same (jsonInt (toInteger (some value))) value

/-- The types of what is neither an array nor an object. -/
def acceptsType (schema : JsonObject) (value : Json) : Bool :=
  let type := keywordText schema "type"
  (type != qs "boolean" || isBool (some value))
    && (type != qs "string" || isString (some value))
    && ((type != qs "integer" && type != qs "number")
      || (isFiniteNumber value && (type != qs "integer" || isInteger value)))

/-- One bound of a number; `outside` is the comparison it excludes. -/
def acceptsBound (schema : JsonObject) (number : Double) (key : String)
    (outside : Double → Double → Bool) : Bool :=
  !contains schema (qs key)
    || !outside number (toDouble (.finite 0) (lookup schema (qs key)))

/-- The four bounds of a number. -/
def acceptsBounds (schema : JsonObject) (value : Json) : Bool :=
  let number := toDouble (.finite 0) (some value)
  !isDouble (some value)
    || (acceptsBound schema number "minimum" (fun x bound => x.lt bound)
      && acceptsBound schema number "maximum" (fun x bound => bound.lt x)
      && acceptsBound schema number "exclusiveMinimum"
        (fun x bound => x.le bound)
      && acceptsBound schema number "exclusiveMaximum"
        (fun x bound => bound.le x))

/-- The two bounds of a size, which are read as integers of 32 bits. -/
def acceptsSize (schema : JsonObject) (size : Nat) (least most : String) :
    Bool :=
  (!contains schema (qs least)
    || decide (toInt (lookup schema (qs least)) ≤ size))
    && (!contains schema (qs most)
      || decide ((size : Int) ≤ toInt (lookup schema (qs most))))

/-- The items of an array. -/
def acceptsItems (recurse : JsonObject → Json → Bool) (schema : JsonObject)
    (array : List Json) : Bool :=
  (!isObject (lookup schema (qs "items"))
      || array.all fun item =>
        recurse (toObject (lookup schema (qs "items"))) item)
    && (!isArray (lookup schema (qs "prefixItems"))
      || (let items := toArray (lookup schema (qs "prefixItems"))
        items.length == array.length
          && (items.zip array).all fun p => recurse (toObject (some p.1)) p.2))

/-- The members of an object, by `properties` and `additionalProperties`. -/
def acceptsMember (recurse : JsonObject → Json → Bool) (schema : JsonObject)
    (m : QString × Json) : Bool :=
  let properties := toObject (lookup schema (qs "properties"))
  let additional := lookup schema (qs "additionalProperties")
  if contains properties m.1
    then recurse (toObject (lookup properties m.1)) m.2
  else if isObject additional then recurse (toObject additional) m.2
  else additional != some (.bool false)

/-- The field rules of a group. -/
def acceptsGroup (recurse : JsonObject → Json → Bool)
    (g : ParameterGroupDefinition) (object : JsonObject) : Bool :=
  (g.required.all fun p => contains object p.name)
    && object.all fun m => match g.field? m.1 with
      | none => false
      | some p => !p.readOnly && recurse p.schema m.2

/-- An object, by all its keywords. -/
def acceptsObject (C : ParameterCatalog) (recurse : JsonObject → Json → Bool)
    (schema : JsonObject) (object : JsonObject) : Bool :=
  ((toArray (lookup schema (qs "required"))).all fun name =>
      contains object (toText (some name)))
    && object.all (acceptsMember recurse schema)
    && match C.group? (keywordText schema "ref") with
      | none => true
      | some g => acceptsGroup recurse g object

/-- A string. -/
def acceptsString (t : Patterns) (schema : JsonObject) (text : QString) :
    Bool :=
  acceptsSize schema text.length "minLength" "maxLength"
    && (!contains schema (qs "pattern")
      || t.hasMatch (keywordText schema "pattern") text)

/-- What an array, an object or a string must be, and nothing else may be
where the schema asks for an array or an object. -/
def acceptsContents (C : ParameterCatalog) (t : Patterns)
    (recurse : JsonObject → Json → Bool) (schema : JsonObject) (value : Json) :
    Bool :=
  let type := keywordText schema "type"
  (type != qs "array" || isArray (some value))
    && (!isArray (some value)
      || (acceptsSize schema (toArray (some value)).length
        "minItems" "maxItems"
        && acceptsItems recurse schema (toArray (some value))))
    && ((type != qs "object" && !contains schema (qs "ref"))
      || isObject (some value))
    && (!isObject (some value)
      || acceptsObject C recurse schema (toObject (some value)))
    && (!isString (some value) || acceptsString t schema (toText (some value)))

/-- One level of `accepts`. -/
def acceptsWith (C : ParameterCatalog) (t : Patterns)
    (recurse : JsonObject → Json → Bool) (schema : JsonObject) (value : Json) :
    Bool :=
  if isNull (some value) && Json.toBool (lookup schema (qs "nullable"))
    then true
  else if !acceptsAnyOf recurse schema value then false
  else if !acceptsEnum schema value then false
  else if keywordText schema "type" == qs "external" then false
  else if keywordText schema "type" == qs "null" then isNull (some value)
  else acceptsType schema value && acceptsBounds schema value
    && acceptsContents C t recurse schema value

/-- `accepts`, with the levels that are left. -/
def accepts (C : ParameterCatalog) (t : Patterns) :
    Nat → JsonObject → Json → Bool
  | 0 => fun _ _ => false
  | n + 1 => acceptsWith C t (accepts C t n)

end LocalLLM
