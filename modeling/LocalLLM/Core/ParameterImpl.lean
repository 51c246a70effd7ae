/-
The parameter catalog as it is held (`ParameterCatalog::Impl`): groups,
their indexes and the compiled patterns in three tables, and the lookups
that the code makes in them without asking whether the key is there.

`Parameters.lean` says what the validator answers. Here it is written once
more with the tables, so that a lookup can miss: it halts with `missing`
where the source would read past the end of a table. The recursion counts
its depth up as the source does, and nothing but that counter stops it; the
`fuel` is not in the source, and running out of it is a halt of its own.
-/
import LocalLLM.Lib.Exec
import LocalLLM.Core.ParameterObject

namespace LocalLLM

open Json

/-- The lookups that are made without a check. -/
inductive Unchecked
  | pattern (text : QString)
  | index (group : QString)
  | position (i : Nat)

/-- How an evaluation ends without a result. -/
inductive Halt
  | thrown (x : Exn)
  | missing (lookup : Unchecked)
  | outOfFuel

/-- Code that can throw and does nothing else of note. -/
def throwing {α : Type} : Except Exn α → Except Halt α
  | .ok a => .ok a
  | .error x => .error (.thrown x)

/-- `constFind(key).value()`, or `[]` with a position. -/
def found {α : Type} (lookup : Unchecked) : Option α → Except Halt α
  | some a => .ok a
  | none => .error (.missing lookup)

/-- A compiled expression: the pattern it was compiled from, which is valid. -/
structure Expression (t : Patterns) where
  pattern : QString
  valid : t.isValid pattern = true

/-- `Impl::patterns`: every expression is filed under its pattern. -/
structure Compiled (t : Patterns) where
  table : Std.ExtTreeMap QString (Expression t) := ∅
  filed : ∀ (pattern : QString) (expression : Expression t),
    table[pattern]? = some expression → expression.pattern = pattern := by simp

/-- `patterns.insert`. -/
def Compiled.insert {t : Patterns} (s : Compiled t)
    (expression : Expression t) : Compiled t where
  table := s.table.insert expression.pattern expression
  filed := by
    intro pattern other hother
    rw [Std.ExtTreeMap.getElem?_insert] at hother
    split at hother
    next heq =>
      injection hother with hother
      exact hother ▸ Std.compare_eq_iff_eq.1 heq
    next => exact s.filed pattern other hother

/-- `Impl::GroupIndex`. -/
structure GroupIndex where
  fields : Std.ExtTreeMap QString Nat := ∅
  required : List Nat := []

/-- `ParameterCatalog::Impl`. -/
structure Impl (t : Patterns) where
  groups : Std.ExtTreeMap QString ParameterGroupDefinition := ∅
  indexes : Std.ExtTreeMap QString GroupIndex := ∅
  patterns : Compiled t := {}

namespace Impl

variable {t : Patterns}

-- ============================================================== schemas

/-- Code that compiles patterns. -/
abbrev Compiling (t : Patterns) : Type → Type := Exec Halt (Compiled t)

/-- A check of every element, in order. -/
def forEach {α : Type} (check : α → Compiling t Unit) :
    List α → Compiling t Unit
  | [] => pure ()
  | a :: rest => do
      check a
      forEach check rest

/-- A check that compiles nothing. -/
def plainly (r : Except Exn Unit) :
    Compiling t Unit := Exec.ofExcept (throwing r)

/-- `anyOf` and `prefixItems`; `child` checks the schemas inside. -/
def checkAlternatives (child : JsonObject → Compiling t Unit) (key : QString)
    (value : Json) : Compiling t Unit :=
  if key = qs "anyOf" ∨ key = qs "prefixItems" then do
    plainly (orFail (isArray (some value) = true
        ∧ (key = qs "anyOf" → toArray (some value) ≠ []))
      (qs "Invalid schema alternatives"))
    forEach (fun item => do
      plainly (orFail (isObject (some item) = true)
        (qs "Schema alternatives must be objects"))
      child (toObject (some item))) (toArray (some value))
  else pure ()

/-- `items` and `additionalProperties`. -/
def checkItems (child : JsonObject → Compiling t Unit) (key : QString)
    (value : Json) : Compiling t Unit :=
  if key = qs "items" ∨ key = qs "additionalProperties" then
    if isObject (some value) = true then child (toObject (some value))
    else
      plainly (orFail (key = qs "additionalProperties"
        ∧ isBool (some value) = true)
        (qs "Invalid item schema"))
  else pure ()

/-- `properties`. -/
def checkProperties (child : JsonObject → Compiling t Unit) (key : QString)
    (value : Json) : Compiling t Unit :=
  if key = qs "properties" then do
    plainly (orFail (isObject (some value) = true)
      (qs "properties must be an object"))
    forEach (fun property => do
      plainly (orFail (isObject (some property.2) = true)
        (qs "Property schema must be an object"))
      child (toObject (some property.2))) (toObject (some value))
  else pure ()

/-- A pattern is compiled unless the table has it. -/
def compile (pattern : QString) : Compiling t Unit := do
  let patterns ← get
  if patterns.table.contains pattern then pure ()
  else if hvalid : t.isValid pattern = true then
    set (patterns.insert ⟨pattern, hvalid⟩)
  else plainly (fail (qs "Invalid string pattern"))

/-- `pattern`. -/
def checkPattern (key : QString) (value : Json) : Compiling t Unit :=
  if key = qs "pattern" then do
    plainly (orFail (isString (some value) = true)
      (qs "Invalid string pattern"))
    compile (toText (some value))
  else pure ()

/-- The checks of one keyword. -/
def checkKeyword (groups : Std.ExtTreeMap QString ParameterGroupDefinition)
    (child : JsonObject → Compiling t Unit) (m : QString × Json) :
    Compiling t Unit := do
  let value := some m.2
  plainly (orFail (m.1 ∈ schemaKeywords)
    (qs "Unsupported parameter schema keyword: " ++ m.1))
  plainly (orFail (m.1 = qs "type" → toText value ∈ schemaTypes)
    (qs "Unknown parameter schema type"))
  plainly (orFail (m.1 = qs "ref"
      → isString value = true ∧ groups.contains (toText value) = true)
    (qs "Unknown parameter schema reference"))
  plainly (orFail (m.1 = qs "nullable" → isBool value = true)
    (qs "nullable must be boolean"))
  plainly (orFail (m.1 = qs "enum" → isArray value = true ∧ toArray value ≠ [])
    (qs "enum must contain choices"))
  checkAlternatives child m.1 m.2
  checkItems child m.1 m.2
  checkProperties child m.1 m.2
  plainly (checkRequired m.1 m.2)
  checkPattern m.1 m.2
  plainly (checkBound m.1 m.2)

/-- `checkSchema`. -/
def checkSchema (groups : Std.ExtTreeMap QString ParameterGroupDefinition) :
    Nat → Nat → JsonObject → Compiling t Unit
  | 0, _, _ => throw .outOfFuel
  | fuel + 1, depth, schema =>
      if 32 < depth then
        plainly (fail (qs "Parameter schema exceeds nesting limit"))
      else forEach (checkKeyword groups
        (checkSchema groups fuel (depth + 1))) schema

-- =========================================================== validation

/-- What `accepts` returns. -/
abbrev Verdict := Except Halt Bool

/-- `if (!first) return false;` in front of the rest. -/
def both (first rest : Verdict) : Verdict := do
  if ← first then rest else return false

/-- A loop that returns false at the first element that is refused. -/
def forAll {α : Type} (check : α → Verdict) : List α → Verdict
  | [] => .ok true
  | a :: rest => both (check a) (forAll check rest)

/-- A loop that is left at the first element that is accepted. -/
def forSome {α : Type} (check : α → Verdict) : List α → Verdict
  | [] => .ok false
  | a :: rest => do
      if ← check a then return true else forSome check rest

section Level

variable (recurse : JsonObject → Option Json → Verdict) (schema : JsonObject)

/-- Some branch of `anyOf` accepts. -/
def acceptsAnyOf (value : Json) : Verdict :=
  if contains schema (qs "anyOf") then
    forSome (fun branch => recurse (toObject (some branch)) (some value))
      (toArray (lookup schema (qs "anyOf")))
  else .ok true

/-- The items of an array. -/
def acceptsItems (array : List Json) : Verdict :=
  both (if isObject (lookup schema (qs "items")) then
      forAll (fun item =>
        recurse (toObject (lookup schema (qs "items"))) (some item)) array
    else .ok true)
    (if isArray (lookup schema (qs "prefixItems")) then
      let items := toArray (lookup schema (qs "prefixItems"))
      if items.length ≠ array.length then .ok false
      else forAll (fun p : Json × Json =>
        recurse (toObject (some p.1)) (some p.2))
        (items.zip array)
    else .ok true)

/-- The members of an object, by `properties` and `additionalProperties`. -/
def acceptsMember (m : QString × Json) : Verdict :=
  let properties := toObject (lookup schema (qs "properties"))
  let additional := lookup schema (qs "additionalProperties")
  if contains properties m.1 then
    recurse (toObject (lookup properties m.1)) (some m.2)
  else if isObject additional then recurse (toObject additional) (some m.2)
  else .ok (additional != some (.bool false))

/-- The field rules of a group, by its index. -/
def acceptsGroup (fields : List ParameterDefinition) (index : GroupIndex)
    (object : JsonObject) : Verdict :=
  both
    (forAll (fun position => do
      let field ← found (.position position) fields[position]?
      return contains object field.name) index.required)
    (forAll (fun m : QString × Json =>
      match index.fields[m.1]? with
      | none => .ok false
      | some position => do
          let field ← found (.position position) fields[position]?
          if field.readOnly then return false
          else recurse field.schema (some m.2)) object)

/-- An object, by all its keywords. -/
def acceptsObject (d : Impl t) (object : JsonObject) : Verdict :=
  both (.ok ((toArray (lookup schema (qs "required"))).all fun name =>
      contains object (toText (some name))))
    (both (forAll (acceptsMember recurse schema) object)
      (let reference := keywordText schema "ref"
      match d.groups[reference]? with
      | none => .ok true
      | some group => do
          let index ← found (.index reference) d.indexes[reference]?
          acceptsGroup recurse group.parameters index object))

/-- A string. -/
def acceptsString (d : Impl t) (text : QString) : Verdict :=
  both (.ok (acceptsSize schema text.length "minLength" "maxLength"))
    (if contains schema (qs "pattern") then do
      let pattern := keywordText schema "pattern"
      let expression ← found (.pattern pattern) d.patterns.table[pattern]?
      return t.hasMatch expression.pattern text
    else .ok true)

/-- What an array, an object or a string must be. -/
def acceptsContents (d : Impl t) (value : Json) : Verdict :=
  let type := keywordText schema "type"
  both (.ok (type != qs "array" || isArray (some value)))
    (both (if isArray (some value) then
        both (.ok (acceptsSize schema (toArray (some value)).length
            "minItems" "maxItems"))
          (acceptsItems recurse schema (toArray (some value)))
      else .ok true)
    (both (.ok ((type != qs "object" && !contains schema (qs "ref"))
        || isObject (some value)))
    (both (if isObject (some value) then
        acceptsObject recurse schema d (toObject (some value))
      else .ok true)
    (if isString (some value) then
      acceptsString schema d (toText (some value))
    else .ok true))))

/-- One level of `accepts`, of a value that is there. -/
def acceptsWith (d : Impl t) (value : Json) : Verdict :=
  if isNull (some value) && Json.toBool (lookup schema (qs "nullable"))
    then .ok true
  else
    both (acceptsAnyOf recurse schema value)
    (both (.ok (acceptsEnum schema value))
    (if keywordText schema "type" == qs "external" then .ok false
    else if keywordText schema "type" == qs "null"
      then .ok (isNull (some value))
    else
      both (.ok (acceptsType schema value))
      (both (.ok (acceptsBounds schema value))
      (acceptsContents recurse schema d value))))

end Level

/-- `accepts`. -/
def accepts (d : Impl t) : Nat → Nat → JsonObject → Option Json → Verdict
  | 0, _, _, _ => .error .outOfFuel
  | fuel + 1, depth, schema, value =>
      match value with
      | none => .ok false
      | some value =>
          if 32 < depth then .ok false
          else acceptsWith (accepts d fuel (depth + 1)) schema d value

-- ============================================================== loading

/-- The loop that builds an index; `i` is the position of the next field. -/
def indexFields : Nat → List ParameterDefinition → GroupIndex → GroupIndex
  | _, [], index => index
  | i, field :: rest, index =>
      indexFields (i + 1) rest
        { fields := index.fields.insert field.name i
          required :=
            if field.required && !field.hasDefault && !field.readOnly
              then index.required ++ [i] else index.required }

/-- One group of the document. -/
def readGroup (d : Impl t) (item : Json) :
    Except Exn ParameterGroupDefinition := do
  orFail (isObject (some item) = true) (qs "Parameter group must be an object")
  let group := toObject (some item)
  let id := keywordText group "id"
  orFail (keywordText group "phase" ∈ phases)
    (qs "Unknown parameter phase: " ++ keywordText group "phase")
  orFail (id ≠ [] ∧ d.groups.contains id = false
      ∧ isArray (lookup group (qs "parameters")) = true)
    (qs "Invalid or duplicate parameter group")
  let parameters ← ParameterCatalog.parseFields id []
    (toArray (lookup group (qs "parameters")))
  return { id, parameters }

/-- A group with its index. -/
def insert (d : Impl t) (g : ParameterGroupDefinition) : Impl t where
  groups := d.groups.insert g.id g
  indexes := d.indexes.insert g.id (indexFields 0 g.parameters {})
  patterns := d.patterns

def readGroups : Impl t → List Json → Except Exn (Impl t)
  | d, [] => .ok d
  | d, item :: rest => do
      let g ← readGroup d item
      readGroups (d.insert g) rest

/-- The loops over all fields. -/
def checkGroups (fuel : Nat) (d : Impl t) : Compiling t Unit :=
  forEach (fun e => forEach (fun p => checkSchema d.groups fuel 0 p.schema)
    e.2.parameters) d.groups.toList

/-- `ParameterCatalog::fromJson`. -/
def fromJson (t : Patterns) (fuel : Nat) (document : JsonObject) :
    Except Halt (Impl t) := do
  throwing (orFail (memberSame document "schema_version" (jsonInt 1) = true
      ∧ isArray (lookup document (qs "groups")) = true)
    (qs "Parameter catalog requires schema_version=1 and groups"))
  let d ← throwing (readGroups {} (toArray (lookup document (qs "groups"))))
  match checkGroups fuel d d.patterns with
  | (.ok (), patterns) => return { d with patterns }
  | (.error h, _) => .error h

end Impl

end LocalLLM
