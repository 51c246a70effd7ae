/-
The language of parameter schemas, and that the validator implements it.

# The reading

`Satisfies` is what the keywords of a schema say, one premise a keyword:
`Plain` holds those that look at the value alone, `inside` lists the parts
of the value with the schemas they are sent to, through items, members and
the fields of a referenced group. The relation is inductive, so that groups
may refer to each other in cycles: the value gets smaller on the way.

How a number is read for its bounds is a parameter (`rounded`, `exactly`).

# The validator

One level of `accepts` asks `Plain`, some branch and every part
(`acceptsWith_eq_true`). From this one equivalence follow that more levels
never take back an acceptance (`accepts_mono`), that every acceptance is
one of the reading (`accepts_sound`), and that the reading is accepted with
enough levels (`accepts_complete`). Where the limit of levels makes no
difference (`Conclusive`, which `Within` implies), the two are the same.

# The bounds of sizes

They are read as integers of 32 bits, and a larger one reads as 0. The
equivalence is about schemas whose size bounds fit (`SizesFit`).
-/
import LocalLLM.Proofs.Catalogs

namespace LocalLLM

open Json

variable {C : ParameterCatalog} {t : Patterns}

-- =============================================================== the reading

/-- A number as the validator compares it: the nearest double. -/
def rounded (value : Json) : Double := toDouble (.finite 0) (some value)

/-- A number as it is. -/
def exactly : Json → Double
  | .number d => d
  | _ => .finite 0

/-- The type a schema names. -/
structure HasType (schema : JsonObject) (value : Json) : Prop where
  boolean : keywordText schema "type" = qs "boolean" →
    isBool (some value) = true
  string : keywordText schema "type" = qs "string" →
    isString (some value) = true
  number : keywordText schema "type" = qs "number" →
    isFiniteNumber value = true
  /-- A whole number of 64 bits. -/
  integer : keywordText schema "type" = qs "integer" →
    ∃ n : Int, value = jsonInt n ∧ -2 ^ 63 ≤ n ∧ n < 2 ^ 63
  array : keywordText schema "type" = qs "array" → isArray (some value) = true
  object : keywordText schema "type" = qs "object" →
    isObject (some value) = true
  null : keywordText schema "type" = qs "null" → value = .null
  external : keywordText schema "type" ≠ qs "external"

/-- The bounds of a number, with `read` for how numbers are compared. -/
structure InBounds (read : Json → Double) (schema : JsonObject)
    (value : Json) : Prop where
  minimum : ∀ bound, lookup schema (qs "minimum") = some bound →
    (read value).lt (read bound) = false
  maximum : ∀ bound, lookup schema (qs "maximum") = some bound →
    (read bound).lt (read value) = false
  exclusiveMinimum : ∀ bound,
    lookup schema (qs "exclusiveMinimum") = some bound →
    (read value).le (read bound) = false
  exclusiveMaximum : ∀ bound,
    lookup schema (qs "exclusiveMaximum") = some bound →
    (read bound).le (read value) = false

/-- The bounds of a size. -/
structure HasSize (schema : JsonObject) (size : Nat) (least most : String) :
    Prop where
  least : ∀ q, lookup schema (qs least) = some (.number (.finite q)) → q ≤ size
  most : ∀ q, lookup schema (qs most) = some (.number (.finite q)) → size ≤ q

/-- What the keywords of objects say of the members alone. -/
structure PlainObject (C : ParameterCatalog) (schema members : JsonObject) :
    Prop where
  required : ∀ name ∈ toArray (lookup schema (qs "required")),
    contains members (toText (some name)) = true
  closed : lookup schema (qs "additionalProperties") = some (.bool false) →
    ∀ m ∈ members, contains (toObject (lookup schema (qs "properties"))) m.1
      = true
  group : ∀ g, C.group? (keywordText schema "ref") = some g →
    (∀ p ∈ g.parameters, p.required = true → p.hasDefault = false →
      p.readOnly = false → contains members p.name = true)
    ∧ ∀ m ∈ members, ∃ p, g.field? m.1 = some p ∧ p.readOnly = false

/-- The keywords that look at the value alone. -/
structure Plain (C : ParameterCatalog) (t : Patterns) (read : Json → Double)
    (schema : JsonObject) (value : Json) : Prop where
  enum : contains schema (qs "enum") = true →
    ∃ choice ∈ toArray (lookup schema (qs "enum")), same choice value = true
  type : HasType schema value
  bounds : isDouble (some value) = true → InBounds read schema value
  /-- A reference asks for an object; the type `null` looks no further. -/
  ref : contains schema (qs "ref") = true →
    keywordText schema "type" ≠ qs "null" →
    isObject (some value) = true
  items : ∀ items, value = .array items →
    HasSize schema items.length "minItems" "maxItems"
  prefixItems : ∀ items first, value = .array items →
    lookup schema (qs "prefixItems") = some (.array first) →
    first.length = items.length
  members : ∀ members, value = .object members → PlainObject C schema members
  length : ∀ text, value = .string text →
    HasSize schema text.length "minLength" "maxLength"
  pattern : ∀ text, value = .string text →
    contains schema (qs "pattern") = true →
    t.hasMatch (keywordText schema "pattern") text = true

/-- The schema a member is sent to by `properties` and
`additionalProperties`. -/
def memberSchema (schema : JsonObject) (key : QString) : Option JsonObject :=
  let properties := toObject (lookup schema (qs "properties"))
  if contains properties key = true
    then some (toObject (lookup properties key))
  else if isObject (lookup schema (qs "additionalProperties")) = true then
    some (toObject (lookup schema (qs "additionalProperties")))
  else none

/-- The schema of a field of the group a schema refers to. -/
def fieldSchema (C : ParameterCatalog) (schema : JsonObject) (key : QString) :
    Option JsonObject := do
  let g ← C.group? (keywordText schema "ref")
  let p ← g.field? key
  return p.schema

/-- The parts of a value, each with a schema it is sent to. -/
def inside (C : ParameterCatalog) (schema : JsonObject) :
    Json → List (JsonObject × Json)
  | .array items =>
      (if isObject (lookup schema (qs "items")) = true
        then items.map fun item => (toObject (lookup schema (qs "items")),
          item) else [])
      ++ ((toArray (lookup schema (qs "prefixItems"))).zip items).map fun p =>
        (toObject (some p.1), p.2)
  | .object members =>
      (members.filterMap fun m => (memberSchema schema m.1).map
        fun s => (s, m.2))
      ++ members.filterMap fun m => (fieldSchema C schema m.1).map
        fun s => (s, m.2)
  | _ => []

/-- The reading of a schema: null where it is nullable, and otherwise what
satisfies every keyword. -/
inductive Satisfies (C : ParameterCatalog) (t : Patterns)
    (read : Json → Double) :
    JsonObject → Json → Prop
  | null {schema : JsonObject}
      (hnullable : Json.toBool (lookup schema (qs "nullable")) = true) :
      Satisfies C t read schema .null
  | keywords {schema : JsonObject} {value branch : Json}
      (hplain : Plain C t read schema value)
      (hbranch : contains schema (qs "anyOf") = true →
        branch ∈ toArray (lookup schema (qs "anyOf")))
      (hany : contains schema (qs "anyOf") = true →
        Satisfies C t read (toObject (some branch)) value)
      (hinside : ∀ p ∈ inside C schema value, Satisfies C t read p.1 p.2) :
      Satisfies C t read schema value

-- ============================================================ bounds of sizes

/-- The keywords that bound a size. -/
def sizeKeys : List String :=
  ["minItems", "maxItems", "minLength", "maxLength"]

/-- A size bound is a whole number, no less than 0. -/
def SizesNatural (schema : JsonObject) : Prop :=
  ∀ key ∈ sizeKeys, ∀ v, lookup schema (qs key) = some v → isNatural v = true

/-- A size bound fits in 32 bits. -/
def SizesSmall (schema : JsonObject) : Prop :=
  ∀ key ∈ sizeKeys, ∀ q, lookup schema (qs key) = some (.number (.finite q)) →
    q < 2 ^ 31

/-- A bound of a size, read. -/
theorem toInt_bound {schema : JsonObject} {key : String}
    (hkey : key ∈ sizeKeys)
    (hnatural : SizesNatural schema) (hsmall : SizesSmall schema) {v : Json}
    (hv : lookup schema (qs key) = some v) :
    ∃ n : Int, v = jsonInt n ∧ toInt (some v) = n := by
  have hn := hnatural key hkey v hv
  unfold isNatural at hn
  split at hn
  next q =>
    obtain ⟨hzero, hden⟩ := of_decide_eq_true hn
    have hq : q = (q.num : ℚ) := (Rat.den_eq_one_iff q).1 hden |>.symm
    have hlt := hsmall key hkey q hv
    refine ⟨q.num, by rw [jsonInt, ← hq], ?_⟩
    have hnum : 0 ≤ q.num := Rat.num_nonneg.2 hzero
    have hnum' : q.num < 2 ^ 31 := by
      rw [hq] at hlt
      exact_mod_cast hlt
    exact if_pos ⟨hden, by omega, hnum'⟩
  next => cases hn

/-- For natural limits below 2^31 the conversion to `int` is exact,
and the comparison is the one on numbers. The limits beyond it are
left out on purpose. -/
theorem acceptsSize_eq_true {schema : JsonObject} {size : Nat}
    {least most : String} (hleast : least ∈ sizeKeys) (hmost : most ∈ sizeKeys)
    (hnatural : SizesNatural schema) (hsmall : SizesSmall schema) :
    acceptsSize schema size least most = true
      ↔ HasSize schema size least most := by
  have hlow : (!contains schema (qs least)
      || decide (toInt (lookup schema (qs least)) ≤ size)) = true ↔
      ∀ q, lookup schema (qs least) = some (.number (.finite q)) →
      q ≤ size := by
    rw [contains_eq]
    cases hv : lookup schema (qs least) with
    | none => simp
    | some v =>
        obtain ⟨n, rfl, hn⟩ := toInt_bound hleast hnatural hsmall hv
        rw [hn]
        simp only [Option.isSome_some, Bool.not_true, Bool.false_or,
          decide_eq_true_eq, jsonInt, Option.some.injEq, Json.number.injEq,
          Double.finite.injEq]
        constructor
        · rintro h q rfl
          exact_mod_cast h
        · intro h
          exact_mod_cast h n rfl
  have hhigh : (!contains schema (qs most)
      || decide ((size : Int) ≤ toInt (lookup schema (qs most)))) = true ↔
      ∀ q, lookup schema (qs most) = some (.number (.finite q)) →
      size ≤ q := by
    rw [contains_eq]
    cases hv : lookup schema (qs most) with
    | none => simp
    | some v =>
        obtain ⟨n, rfl, hn⟩ := toInt_bound hmost hnatural hsmall hv
        rw [hn]
        simp only [Option.isSome_some, Bool.not_true, Bool.false_or,
          decide_eq_true_eq, jsonInt, Option.some.injEq, Json.number.injEq,
          Double.finite.injEq]
        constructor
        · rintro h q rfl
          exact_mod_cast h
        · intro h
          exact_mod_cast h n rfl
  unfold acceptsSize
  rw [Bool.and_eq_true, hlow, hhigh]
  exact ⟨fun h => ⟨h.1, h.2⟩, fun h => ⟨h.least, h.most⟩⟩

-- ======================================================= keywords, one by one

/-- No number that is held as a double rounds to 0 but 0 itself. -/
theorem roundInt_ne_zero {n : Int} (h : 2 ^ 53 ≤ n.natAbs) :
    roundInt n ≠ 0 := by
  have hround := le_roundNat h
  have hn : n ≠ 0 := by
    rintro rfl
    simp at h
  unfold roundInt
  intro hzero
  rcases Int.mul_eq_zero.1 hzero with hsign | hnat
  · exact hn (Int.sign_eq_zero_iff_zero.1 hsign)
  · omega

/-- An integer of the schema language is a whole number of 64 bits. -/
theorem isInteger_eq_true {value : Json} :
    (isFiniteNumber value = true ∧ isInteger value = true) ↔
      ∃ n : Int, value = jsonInt n ∧ -2 ^ 63 ≤ n ∧ n < 2 ^ 63 := by
  constructor
  · rintro ⟨hfinite, hinteger⟩
    cases value with
    | number d =>
        cases d with
        | finite q =>
            by_cases hheld : q.den = 1 ∧ -2 ^ 63 ≤ q.num ∧ q.num < 2 ^ 63
            · refine ⟨q.num, ?_, hheld.2⟩
              rw [jsonInt, (Rat.den_eq_one_iff q).1 hheld.1]
            · exfalso
              have hzero : toInteger (some (.number (.finite q)))
                = 0 := if_neg hheld
              have hheld' : heldAsInteger q = false := decide_eq_false hheld
              unfold isInteger at hinteger
              rw [hzero] at hinteger
              simp only [same, jsonInt, sameNumber, Int.cast_zero,
                hheld'] at hinteger
              rw [if_neg (by decide), decide_eq_true_eq] at hinteger
              have hround : rounded (.number (.finite q)) = .finite 0 := by
                rw [rounded, ← hinteger]
                simp [toDouble, roundInt]
              by_cases hden : q.den = 1
              · have hnum : roundInt q.num = 0 := by
                  simpa [rounded, toDouble, hden] using hround
                refine roundInt_ne_zero ?_ hnum
                omega
              · have hq : q = 0 := by
                  simpa [rounded, toDouble, hden] using hround
                rw [hq] at hden
                exact hden rfl
        | infinite n => cases hfinite
        | nan => cases hfinite
    | _ => cases hfinite
  · rintro ⟨n, rfl, hlow, hhigh⟩
    refine ⟨rfl, ?_⟩
    have hn : toInteger (some (jsonInt n)) = n := by
      exact if_pos ⟨Rat.den_intCast
        n, by simpa using hlow, by simpa using hhigh⟩
    unfold isInteger
    rw [hn]
    simp [same, jsonInt, sameNumber]

/-- A condition on a schema of one type. -/
theorem unless_type {type name : QString} {b : Bool} :
    (type != name || b) = true ↔ (type = name → b = true) := by
  by_cases h : type = name <;> simp [h]

/-- The four types that have a test of their own. Arrays and objects are tested
where their contents are. -/
theorem acceptsType_eq_true {schema : JsonObject} {value : Json} :
    acceptsType schema value = true ↔
      (keywordText schema "type" = qs "boolean" → isBool (some value) = true)
      ∧ (keywordText schema "type" = qs "string" →
        isString (some value) = true)
      ∧ (keywordText schema "type" = qs "number" → isFiniteNumber value = true)
      ∧ (keywordText schema "type" = qs "integer" →
        ∃ n : Int, value = jsonInt n ∧ -2 ^ 63 ≤ n ∧ n < 2 ^ 63) := by
  have hnumber : ∀ type :
    QString, ((type != qs "integer" && type != qs "number")
      || (isFiniteNumber value && (type != qs "integer" || isInteger value)))
        = true ↔
      (type = qs "number" → isFiniteNumber value = true)
        ∧ (type = qs "integer" →
          isFiniteNumber value = true ∧ isInteger value = true) := by
    intro type
    by_cases hinteger : type = qs "integer"
    · have hother : type ≠ qs "number" := by
        rw [hinteger]
        decide
      simp only [hinteger, bne_self_eq_false, Bool.false_and, Bool.false_or,
        Bool.and_eq_true, true_implies]
      exact ⟨fun h => ⟨fun _ => h.1, h⟩, fun h => h.2⟩
    · rw [bne_iff_ne.2 hinteger, Bool.true_and, Bool.true_or, Bool.and_true,
        unless_type]
      exact ⟨fun h => ⟨h, fun hint => absurd hint hinteger⟩, fun h => h.1⟩
  unfold acceptsType
  dsimp only
  rw [Bool.and_eq_true, Bool.and_eq_true, unless_type, unless_type, hnumber,
    isInteger_eq_true, and_assoc]

/-- A bound that is there excludes what is outside. -/
theorem acceptsBound_eq_true {schema : JsonObject} {number : Double}
    {key : String} {outside : Double → Double → Bool} :
    acceptsBound schema number key outside = true ↔
      ∀ bound, lookup schema (qs key) = some bound →
        outside number (rounded bound) = false := by
  unfold acceptsBound
  rw [contains_eq]
  cases hv : lookup schema (qs key) with
  | none => simp
  | some v => simp [rounded]

/-- Bounds are compared as doubles, and only where the value is a
number at all. -/
theorem acceptsBounds_eq_true {schema : JsonObject} {value : Json} :
    acceptsBounds schema value = true ↔
      (isDouble (some value) = true → InBounds rounded schema value) := by
  unfold acceptsBounds
  dsimp only
  simp only [Bool.or_eq_true, Bool.not_eq_true', Bool.and_eq_true,
    acceptsBound_eq_true]
  rw [or_iff_not_imp_left, Bool.not_eq_false]
  refine imp_congr_right fun _ => ⟨?_, ?_⟩
  · rintro ⟨⟨⟨hmin, hmax⟩, hxmin⟩, hxmax⟩
    exact ⟨hmin, hmax, hxmin, hxmax⟩
  · intro h
    exact ⟨⟨⟨h.minimum, h.maximum⟩, h.exclusiveMinimum⟩, h.exclusiveMaximum⟩

/-- One listed value must be the given one, compared as JSON values. -/
theorem acceptsEnum_eq_true {schema : JsonObject} {value : Json} :
    acceptsEnum schema value = true ↔ (contains schema (qs "enum") = true →
      ∃ choice ∈ toArray (lookup schema (qs "enum")),
        same choice value = true) := by
  unfold acceptsEnum
  cases contains schema (qs "enum") <;> simp

/-- One branch has to accept. Branches that are no objects are read as empty
ones and accept everything. -/
theorem acceptsAnyOf_eq_true {recurse : JsonObject → Json → Bool}
    {schema : JsonObject} {value : Json} :
    acceptsAnyOf recurse schema value = true
      ↔ (contains schema (qs "anyOf") = true →
      ∃ branch ∈ toArray (lookup schema (qs "anyOf")),
        recurse (toObject (some branch)) value = true) := by
  unfold acceptsAnyOf
  cases contains schema (qs "anyOf") <;> simp

-- =================================================================== contents

variable {recurse : JsonObject → Json → Bool}

/-- With `prefixItems` the length is fixed and each item has its own schema,
else all items share one. -/
theorem acceptsItems_eq_true {schema : JsonObject} {items : List Json} :
    acceptsItems recurse schema items = true ↔
      (∀ first, lookup schema (qs "prefixItems") = some (.array first) →
        first.length = items.length)
      ∧ ∀ p ∈ inside C schema (.array items), recurse p.1 p.2 = true := by
  have hlength : ∀ b : Bool, (!isArray (lookup schema (qs "prefixItems"))
      || ((toArray (lookup schema (qs "prefixItems"))).length == items.length
        && b))
        = true ↔
      (∀ first, lookup schema (qs "prefixItems") = some (.array first) →
        first.length = items.length)
      ∧ (isArray (lookup schema (qs "prefixItems")) = true → b = true) := by
    intro b
    cases hv : lookup schema (qs "prefixItems") with
    | none => simp [isArray]
    | some v => cases v <;> simp [isArray, toArray]
  have hzip : (isArray (lookup schema (qs "prefixItems")) = true →
      ((toArray (lookup schema (qs "prefixItems"))).zip items).all
        (fun p => recurse (toObject (some p.1)) p.2) = true) ↔
      ∀ p ∈ (toArray (lookup schema (qs "prefixItems"))).zip items,
        recurse (toObject (some p.1)) p.2 = true := by
    rw [List.all_eq_true]
    cases hv : lookup schema (qs "prefixItems") with
    | none => simp [toArray]
    | some v => cases v <;> simp [isArray, toArray]
  unfold acceptsItems inside
  dsimp only
  rw [Bool.and_eq_true, hlength, hzip, List.forall_mem_append,
    List.forall_mem_map]
  cases hitems : isObject (lookup schema (qs "items")) with
  | true =>
      rw [if_pos rfl, List.forall_mem_map, Bool.not_true, Bool.false_or,
        List.all_eq_true]
      exact and_left_comm
  | false =>
      rw [if_neg Bool.false_ne_true]
      simp

/-- A member goes where its schema is, and what has none is kept out where
the object is closed. -/
theorem acceptsMember_eq_true {schema : JsonObject} {m : QString × Json} :
    acceptsMember recurse schema m = true ↔
      (∀ s, memberSchema schema m.1 = some s → recurse s m.2 = true)
      ∧ (lookup schema (qs "additionalProperties") = some (.bool false) →
        contains (toObject (lookup schema (qs "properties"))) m.1 = true) := by
  unfold acceptsMember memberSchema
  dsimp only
  split
  next hproperty => simp [hproperty]
  next hproperty =>
    split
    next hadditional =>
      have hopen : lookup schema (qs "additionalProperties")
          ≠ some (.bool false) := by
        intro h
        rw [h] at hadditional
        cases hadditional
      simp [hopen]
    next hadditional => simp [hproperty]

/-- A referenced group asks for its required members, allows no unknown or
read-only one and then looks into each. -/
theorem acceptsGroup_eq_true {schema : JsonObject}
    {g : ParameterGroupDefinition}
    (hg : C.group? (keywordText schema "ref") = some g)
    {members : JsonObject} :
    acceptsGroup recurse g members = true ↔
      (∀ p ∈ g.parameters, p.required = true → p.hasDefault = false →
        p.readOnly = false → contains members p.name = true)
      ∧ (∀ m ∈ members, ∃ p, g.field? m.1 = some p ∧ p.readOnly = false)
      ∧ ∀ m ∈ members, ∀ s, fieldSchema C schema m.1 = some s →
        recurse s m.2 = true := by
  have hrequired : (g.required.all fun p => contains members p.name) = true ↔
      ∀ p ∈ g.parameters, p.required = true → p.hasDefault = false →
        p.readOnly = false → contains members p.name = true := by
    unfold ParameterGroupDefinition.required
    simp only [List.all_eq_true, List.mem_filter, Bool.and_eq_true,
      Bool.not_eq_true',
      and_imp]
  unfold acceptsGroup
  rw [Bool.and_eq_true, hrequired, List.all_eq_true]
  refine and_congr_right fun _ => ?_
  rw [← forall₂_and]
  refine forall₂_congr fun m _ => ?_
  unfold fieldSchema
  rw [hg]
  cases hp : g.field? m.1 with
  | none => simp
  | some p => simp [hp]

/-- No group, no field rules. -/
theorem fieldSchema_none {schema : JsonObject}
    (hg : C.group? (keywordText schema "ref") = none) (key : QString) :
    fieldSchema C schema key = none := by
  unfold fieldSchema
  rw [hg]
  rfl

/-- Where the schema refers to a group, its rules are the last check. -/
theorem acceptsObject_of_group {schema members : JsonObject}
    {g : ParameterGroupDefinition}
    (hg : C.group? (keywordText schema "ref") = some g) :
    acceptsObject C recurse schema members
      = (((toArray (lookup schema (qs "required"))).all fun name =>
          contains members (toText (some name)))
        && members.all (acceptsMember recurse schema)
        && acceptsGroup recurse g members) := by
  unfold acceptsObject
  rw [hg]

/-- Where it refers to none, the members are the last check. -/
theorem acceptsObject_of_noGroup {schema members : JsonObject}
    (hg : C.group? (keywordText schema "ref") = none) :
    acceptsObject C recurse schema members
      = (((toArray (lookup schema (qs "required"))).all fun name =>
          contains members (toText (some name)))
        && members.all (acceptsMember recurse schema)) := by
  unfold acceptsObject
  rw [hg]
  exact Bool.and_true _

/-- All that an object can be asked at one level, with the members it leads to
as a list of parts. -/
theorem acceptsObject_eq_true {schema members : JsonObject} :
    acceptsObject C recurse schema members = true ↔
      (∀ name ∈ toArray (lookup schema (qs "required")),
        contains members (toText (some name)) = true)
      ∧ (lookup schema (qs "additionalProperties") = some (.bool false) →
        ∀ m ∈ members, contains
          (toObject (lookup schema (qs "properties"))) m.1 = true)
      ∧ (∀ g, C.group? (keywordText schema "ref") = some g →
        (∀ p ∈ g.parameters, p.required = true → p.hasDefault = false →
          p.readOnly = false → contains members p.name = true)
        ∧ ∀ m ∈ members, ∃ p, g.field? m.1 = some p ∧ p.readOnly = false)
      ∧ ∀ p ∈ inside C schema (.object members), recurse p.1 p.2 = true := by
  have hinside : (∀ p ∈ inside C schema (.object members),
    recurse p.1 p.2 = true) ↔
      (∀ m ∈ members, ∀ s, memberSchema schema m.1 = some s →
        recurse s m.2 = true)
      ∧ ∀ m ∈ members, ∀ s, fieldSchema C schema m.1 = some s →
        recurse s m.2 = true := by
    unfold inside
    rw [List.forall_mem_append]
    simp only [List.mem_filterMap, Option.map_eq_some_iff, forall_exists_index,
      and_imp]
    constructor
    · rintro ⟨hmembers, hfields⟩
      exact ⟨fun m hm s hs => hmembers (s, m.2) m hm s hs rfl,
        fun m hm s hs => hfields (s, m.2) m hm s hs rfl⟩
    · rintro ⟨hmembers, hfields⟩
      refine ⟨?_, ?_⟩
      · rintro _ m hm s hs rfl
        exact hmembers m hm s hs
      · rintro _ m hm s hs rfl
        exact hfields m hm s hs
  have hmembers : members.all (acceptsMember recurse schema) = true ↔
      (∀ m ∈ members, ∀ s, memberSchema schema m.1 = some s →
        recurse s m.2 = true)
      ∧ (lookup schema (qs "additionalProperties") = some (.bool false) →
        ∀ m ∈ members,
          contains (toObject (lookup schema (qs "properties"))) m.1
            = true) := by
    simp only [List.all_eq_true, acceptsMember_eq_true]
    constructor
    · intro h
      exact ⟨fun m hm => (h m hm).1, fun hclosed m hm => (h m hm).2 hclosed⟩
    · intro h m hm
      exact ⟨h.1 m hm, fun hclosed => h.2 hclosed m hm⟩
  unfold acceptsObject
  rw [Bool.and_eq_true, Bool.and_eq_true, List.all_eq_true, hmembers, hinside]
  cases hg : C.group? (keywordText schema "ref") with
  | none =>
      simp only [fieldSchema_none hg]
      constructor
      · rintro ⟨⟨hrequired, hmembers, hclosed⟩, -⟩
        exact ⟨hrequired, hclosed, (fun _ h => nomatch h), hmembers,
          (fun _ _ _ h => nomatch h)⟩
      · rintro ⟨hrequired, hclosed, -, hmembers, -⟩
        exact ⟨⟨hrequired, hmembers, hclosed⟩, trivial⟩
  | some g =>
      simp only [acceptsGroup_eq_true hg, Option.some.injEq, forall_eq']
      constructor
      · rintro ⟨⟨hrequired, hmembers, hclosed⟩, hmust, hknown, hvalues⟩
        exact ⟨hrequired, hclosed, ⟨hmust, hknown⟩, hmembers, hvalues⟩
      · rintro ⟨hrequired, hclosed, ⟨hmust, hknown⟩, hmembers, hvalues⟩
        exact ⟨⟨hrequired, hmembers, hclosed⟩, hmust, hknown, hvalues⟩

/-- The keywords of strings. -/
theorem acceptsString_eq_true {schema : JsonObject} {text : QString}
    (hnatural : SizesNatural schema) (hsmall : SizesSmall schema) :
    acceptsString t schema text = true ↔
      HasSize schema text.length "minLength" "maxLength"
      ∧ (contains schema (qs "pattern") = true →
        t.hasMatch (keywordText schema "pattern") text = true) := by
  unfold acceptsString
  rw [Bool.and_eq_true, acceptsSize_eq_true (by decide)
    (by decide) hnatural hsmall]
  refine and_congr_right fun _ => ?_
  cases contains schema (qs "pattern") <;> simp

/-- What the keywords of arrays, objects and strings say. -/
structure PlainContents (C : ParameterCatalog) (t : Patterns)
    (schema : JsonObject) (value : Json) : Prop where
  array : keywordText schema "type" = qs "array" → isArray (some value) = true
  object : keywordText schema "type" = qs "object" →
    isObject (some value) = true
  ref : contains schema (qs "ref") = true → isObject (some value) = true
  items : ∀ items, value = .array items →
    HasSize schema items.length "minItems" "maxItems"
  prefixItems : ∀ items first, value = .array items →
    lookup schema (qs "prefixItems") = some (.array first) →
    first.length = items.length
  members : ∀ members, value = .object members → PlainObject C schema members
  length : ∀ text, value = .string text →
    HasSize schema text.length "minLength" "maxLength"
  pattern : ∀ text, value = .string text →
    contains schema (qs "pattern") = true →
    t.hasMatch (keywordText schema "pattern") text = true

/-- One level of `accepts`: what the value itself has to meet, and what it
leaves to the parts inside it. The induction below only repeats this step. -/
theorem acceptsContents_eq_true {schema : JsonObject} {value : Json}
    (hnatural : SizesNatural schema) (hsmall : SizesSmall schema) :
    acceptsContents C t recurse schema value = true ↔
      PlainContents C t schema value
      ∧ ∀ p ∈ inside C schema value, recurse p.1 p.2 = true := by
  have hobject : ∀ b : Bool, ((keywordText schema "type" != qs "object"
      && !contains schema (qs "ref")) || b) = true ↔
      (keywordText schema "type" = qs "object" → b = true)
        ∧ (contains schema (qs "ref") = true → b = true) := by
    intro b
    by_cases htype : keywordText schema "type" = qs "object"
    · cases contains schema (qs "ref") <;> simp [htype]
    · cases contains schema (qs "ref") <;> simp [htype]
  have hsizes : ∀ size :
    Nat, acceptsSize schema size "minItems" "maxItems" = true ↔
      HasSize schema size "minItems" "maxItems" := fun _ =>
    acceptsSize_eq_true (by decide) (by decide) hnatural hsmall
  unfold acceptsContents
  dsimp only
  simp only [Bool.and_eq_true, unless_type, hobject]
  cases value with
  | array items =>
      simp only [isArray, isObject, isString, toArray, Bool.not_true,
        Bool.not_false,
        Bool.true_or, Bool.false_or, Bool.and_eq_true, hsizes,
        acceptsItems_eq_true (C := C)]
      constructor
      · rintro ⟨⟨⟨⟨-, hsize, hpre, hinside⟩, hobject, href⟩, -⟩, -⟩
        refine ⟨⟨fun _ => rfl, hobject, href, ?_, ?_, ?_, ?_, ?_⟩, hinside⟩
        · rintro _ ⟨⟩
          exact hsize
        · rintro _ first ⟨⟩
          exact hpre first
        · exact fun _ h => nomatch h
        · exact fun _ h => nomatch h
        · exact fun _ h => nomatch h
      · rintro ⟨h, hinside⟩
        exact ⟨⟨⟨⟨fun _ => trivial, h.items items rfl, fun first =>
          h.prefixItems items first rfl,
          hinside⟩, h.object, h.ref⟩, trivial⟩, trivial⟩
  | object members =>
      simp only [isArray, isObject, isString, toObject, Bool.not_true,
        Bool.not_false,
        Bool.true_or, Bool.false_or, acceptsObject_eq_true]
      constructor
      · rintro ⟨⟨⟨⟨harray, -⟩, -, -⟩, hrequired, hclosed, hgroup, hinside⟩, -⟩
        refine ⟨⟨harray, fun _ => rfl, fun _ => rfl, ?_, ?_, ?_,
          ?_, ?_⟩, hinside⟩
        · exact fun _ h => nomatch h
        · exact fun _ _ h => nomatch h
        · rintro _ ⟨⟩
          exact ⟨hrequired, hclosed, hgroup⟩
        · exact fun _ h => nomatch h
        · exact fun _ h => nomatch h
      · rintro ⟨h, hinside⟩
        have hmembers := h.members members rfl
        exact ⟨⟨⟨⟨h.array, trivial⟩, fun _ => trivial, fun _ => trivial⟩,
          hmembers.required,
          hmembers.closed, hmembers.group, hinside⟩, trivial⟩
  | string text =>
      simp only [isArray, isObject, isString, toText, Bool.not_true,
        Bool.not_false,
        Bool.true_or, Bool.false_or, acceptsString_eq_true hnatural hsmall]
      constructor
      · rintro ⟨⟨⟨⟨harray, -⟩, hobject, href⟩, -⟩, hlength, hpattern⟩
        refine ⟨⟨harray, hobject, href, ?_, ?_, ?_, ?_, ?_⟩,
          fun _ h => nomatch h⟩
        · exact fun _ h => nomatch h
        · exact fun _ _ h => nomatch h
        · exact fun _ h => nomatch h
        · rintro _ ⟨⟩
          exact hlength
        · rintro _ ⟨⟩
          exact hpattern
      · rintro ⟨h, -⟩
        exact ⟨⟨⟨⟨h.array, trivial⟩, h.object, h.ref⟩, trivial⟩,
          h.length text rfl,
          h.pattern text rfl⟩
  | _ =>
      simp only [isArray, isObject, isString, Bool.not_false, Bool.true_or]
      constructor
      · rintro ⟨⟨⟨⟨harray, -⟩, hobject, href⟩, -⟩, -⟩
        refine ⟨⟨harray, hobject, href, ?_, ?_, ?_, ?_, ?_⟩,
          fun _ h => nomatch h⟩
        · exact fun _ h => nomatch h
        · exact fun _ _ h => nomatch h
        · exact fun _ h => nomatch h
        · exact fun _ h => nomatch h
        · exact fun _ h => nomatch h
      · rintro ⟨h, -⟩
        exact ⟨⟨⟨⟨h.array, trivial⟩, h.object, h.ref⟩, trivial⟩, trivial⟩

-- ================================================================== one level

/-- The type `null` takes null, whatever else the schema says of a value that
is there. -/
theorem Plain.of_null {read : Json → Double} {schema : JsonObject}
    (htype : keywordText schema "type" = qs "null")
    (henum : contains schema (qs "enum") = true →
      ∃ choice ∈ toArray (lookup schema (qs "enum")),
        same choice .null = true) :
    Plain C t read schema .null where
  enum := henum
  type := by
    have hne : ∀ name : QString, qs "null" ≠ name →
        keywordText schema "type" ≠ name := by
      intro name h
      rwa [htype]
    exact ⟨fun h => absurd h (hne _ (by decide)), fun h =>
      absurd h (hne _ (by decide)),
      fun h => absurd h (hne _ (by decide)), fun h =>
        absurd h (hne _ (by decide)),
      fun h => absurd h (hne _ (by decide)), fun h =>
        absurd h (hne _ (by decide)),
      fun _ => rfl, hne _ (by decide)⟩
  bounds := fun h => nomatch h
  ref := fun _ h => absurd htype h
  items := fun _ h => nomatch h
  prefixItems := fun _ _ h => nomatch h
  members := fun _ h => nomatch h
  length := fun _ h => nomatch h
  pattern := fun _ h => nomatch h

/-- One level asks what the reading asks: the value alone, some branch, and
every part. -/
theorem acceptsWith_eq_true {schema : JsonObject} {value : Json}
    (hnatural : SizesNatural schema) (hsmall : SizesSmall schema) :
    acceptsWith C t recurse schema value = true ↔
      (value = .null ∧ Json.toBool (lookup schema (qs "nullable")) = true)
      ∨ (Plain C t rounded schema value
        ∧ (contains schema (qs "anyOf") = true →
          ∃ branch ∈ toArray (lookup schema (qs "anyOf")),
            recurse (toObject (some branch)) value = true)
        ∧ ∀ p ∈ inside C schema value, recurse p.1 p.2 = true) := by
  have hisNull : ∀ v : Json, isNull (some v) = true ↔ v = .null := by
    intro v
    cases v <;> simp [isNull]
  unfold acceptsWith
  by_cases hnull : value = .null
    ∧ Json.toBool (lookup schema (qs "nullable")) = true
  · rw [if_pos (by rw [Bool.and_eq_true, hisNull]; exact hnull)]
    exact iff_of_true rfl (Or.inl hnull)
  rw [if_neg (by rw [Bool.and_eq_true, hisNull]; exact hnull),
    or_iff_right hnull, ← acceptsAnyOf_eq_true]
  by_cases hany : acceptsAnyOf recurse schema value = true
  case neg =>
    rw [Bool.eq_false_iff.2 hany]
    simp
  by_cases henum : acceptsEnum schema value = true
  case neg =>
    rw [hany, Bool.eq_false_iff.2 henum]
    simp only [Bool.not_true, Bool.not_false, Bool.false_eq_true,
      if_false, if_true,
      false_iff]
    rintro ⟨hplain, -⟩
    exact henum (acceptsEnum_eq_true.2 hplain.enum)
  rw [hany, henum]
  simp only [Bool.not_true, Bool.false_eq_true, if_false, true_and, beq_iff_eq]
  rw [acceptsEnum_eq_true] at henum
  by_cases hexternal : keywordText schema "type" = qs "external"
  · rw [if_pos hexternal]
    simp only [Bool.false_eq_true, false_iff]
    rintro ⟨hplain, -⟩
    exact hplain.type.external hexternal
  rw [if_neg hexternal]
  by_cases htype : keywordText schema "type" = qs "null"
  · rw [if_pos htype, hisNull]
    constructor
    · rintro rfl
      exact ⟨Plain.of_null htype henum, fun _ h => absurd h List.not_mem_nil⟩
    · rintro ⟨hplain, -⟩
      exact hplain.type.null htype
  rw [if_neg htype, Bool.and_eq_true, Bool.and_eq_true, acceptsType_eq_true,
    acceptsBounds_eq_true, acceptsContents_eq_true hnatural hsmall]
  constructor
  · rintro ⟨⟨⟨hboolean, hstring, hnumber, hinteger⟩, hbounds⟩,
      hcontents, hinside⟩
    exact ⟨{
      enum := henum
      type := ⟨hboolean, hstring, hnumber, hinteger, hcontents.array,
        hcontents.object, fun h => absurd h htype, hexternal⟩
      bounds := hbounds
      ref := fun h _ => hcontents.ref h
      items := hcontents.items
      prefixItems := hcontents.prefixItems
      members := hcontents.members
      length := hcontents.length
      pattern := hcontents.pattern }, hinside⟩
  · rintro ⟨h, hinside⟩
    refine ⟨⟨⟨h.type.boolean, h.type.string, h.type.number, h.type.integer⟩,
      h.bounds⟩,
      ⟨h.type.array, h.type.object, fun href => h.ref href htype, h.items,
        h.prefixItems, h.members, h.length, h.pattern⟩, hinside⟩

-- ================================================================= all levels

/-- A schema and one it sends the value, or a part of it, to. -/
inductive Part (C : ParameterCatalog) (schema : JsonObject) : JsonObject → Prop
  | branch {item : Json}
      (hitem : item ∈ toArray (lookup schema (qs "anyOf"))) :
      Part C schema (toObject (some item))
  | inside {value : Json} {p : JsonObject × Json}
      (hp : p ∈ inside C schema value) :
      Part C schema p.1

/-- The size bounds of a schema, and of all it leads to, fit in 32 bits. -/
def SizesFit (C : ParameterCatalog) (schema : JsonObject) : Prop :=
  ∀ s, Relation.ReflTransGen (Part C) schema s → SizesSmall s

theorem SizesFit.small {schema : JsonObject} (h : SizesFit C schema) :
    SizesSmall schema := h schema Relation.ReflTransGen.refl

/-- The limits of a part are limits of the whole, so the assumption passes down
with the recursion. -/
theorem SizesFit.part {schema s : JsonObject} (h : SizesFit C schema)
    (hpart : Part C schema s) : SizesFit C s :=
  fun s' hs' => h s' (Relation.ReflTransGen.head hpart hs')

/-- Where the parts of a value are sent to. -/
theorem inside_cases {schema : JsonObject} {value : Json}
    {p : JsonObject × Json} (hp : p ∈ inside C schema value) :
    (isObject (lookup schema (qs "items")) = true
        ∧ p.1 = toObject (lookup schema (qs "items")))
      ∨ (∃ item ∈ toArray (lookup schema (qs "prefixItems")),
        p.1 = toObject (some item))
      ∨ (∃ key, memberSchema schema key = some p.1)
      ∨ ∃ key, fieldSchema C schema key = some p.1 := by
  unfold inside at hp
  split at hp
  next items =>
    rcases List.mem_append.1 hp with hp | hp
    · split at hp
      next hobject =>
        obtain ⟨item, -, rfl⟩ := List.mem_map.1 hp
        exact Or.inl ⟨hobject, rfl⟩
      next => cases hp
    · obtain ⟨q, hq, rfl⟩ := List.mem_map.1 hp
      exact Or.inr (Or.inl ⟨q.1, (List.of_mem_zip hq).1, rfl⟩)
  next members =>
    rcases List.mem_append.1 hp with hp | hp
    · obtain ⟨m, -, hm⟩ := List.mem_filterMap.1 hp
      obtain ⟨s, hs, rfl⟩ := Option.map_eq_some_iff.1 hm
      exact Or.inr (Or.inr (Or.inl ⟨m.1, hs⟩))
    · obtain ⟨m, -, hm⟩ := List.mem_filterMap.1 hp
      obtain ⟨s, hs, rfl⟩ := Option.map_eq_some_iff.1 hm
      exact Or.inr (Or.inr (Or.inr ⟨m.1, hs⟩))
  next => cases hp

/-- What a checked schema of a loaded catalog leads to was checked too. -/
theorem Checked.part (hC : Loaded C t) {schema s : JsonObject}
    (h : Checked C t schema) (hpart : Part C schema s) : Checked C t s := by
  cases hpart with
  | branch hitem => exact h.alternative (Or.inl rfl) hitem
  | inside hp =>
      rcases inside_cases hp with ⟨hobject, heq⟩ | ⟨item, hitem,
        heq⟩ | ⟨key, hkey⟩
        | ⟨key, hkey⟩
      · rw [heq]
        exact h.items (Or.inl rfl) hobject
      · rw [heq]
        exact h.alternative (Or.inr rfl) hitem
      · unfold memberSchema at hkey
        dsimp only at hkey
        split at hkey
        next hproperty =>
          injection hkey with hkey
          rw [← hkey]
          exact h.property hproperty
        next =>
          split at hkey
          next hobject =>
            injection hkey with hkey
            rw [← hkey]
            exact h.items (Or.inr rfl) hobject
          next => cases hkey
      · unfold fieldSchema at hkey
        obtain ⟨g, hg, hkey⟩ := Option.bind_eq_some_iff.1 hkey
        obtain ⟨q, hq, hkey⟩ := Option.bind_eq_some_iff.1 hkey
        injection hkey with hkey
        rw [← hkey]
        exact hC.checked (C.group?_some hg).1
          (ParameterGroupDefinition.field?_some hq).1

/-- The loader refuses limits that are no natural numbers, so no
loaded schema has one. -/
theorem Checked.sizesNatural {schema : JsonObject} (h : Checked C t schema) :
    SizesNatural schema := by
  have hsizes : ∀ key ∈ sizeKeys,
      isBound (qs key) = true ∧ isSize (qs key) = true := by
    decide
  intro key hkey v hv
  exact h.size (hsizes key hkey).1 (hsizes key hkey).2 hv

/-- A schema that was checked, with size bounds that fit. -/
structure Sound (C : ParameterCatalog) (t : Patterns) (schema : JsonObject) :
    Prop where
  checked : Checked C t schema
  fit : SizesFit C schema

/-- All that the loader has checked of a schema it has checked of the parts
reached from it. -/
theorem Sound.part (hC : Loaded C t) {schema s : JsonObject}
    (h : Sound C t schema) (hpart : Part C schema s) : Sound C t s :=
  ⟨h.checked.part hC hpart, h.fit.part hpart⟩

/-- One level of the validator. -/
theorem Sound.accepts_succ {schema : JsonObject}
    (h : Sound C t schema) {n : Nat} {value : Json} :
    accepts C t (n + 1) schema value = true ↔
      (value = .null ∧ Json.toBool (lookup schema (qs "nullable")) = true)
      ∨ (Plain C t rounded schema value
        ∧ (contains schema (qs "anyOf") = true →
          ∃ branch ∈ toArray (lookup schema (qs "anyOf")),
            accepts C t n (toObject (some branch)) value = true)
        ∧ ∀ p ∈ inside C schema value, accepts C t n p.1 p.2 = true) :=
  acceptsWith_eq_true h.checked.sizesNatural h.fit.small

/-- With fewer levels nothing more is accepted. -/
theorem accepts_succ (hC : Loaded C t) {n : Nat} :
    ∀ {schema : JsonObject} {value : Json}, Sound C t schema →
    accepts C t n schema value = true →
    accepts C t (n + 1) schema value = true := by
  induction n with
  | zero => exact fun _ h => nomatch h
  | succ n ih =>
      intro schema value hschema h
      refine hschema.accepts_succ.2 ?_
      rcases hschema.accepts_succ.1 h with hnull | ⟨hplain, hany, hinside⟩
      · exact Or.inl hnull
      · refine Or.inr ⟨hplain, fun hcontains => ?_, fun p hp => ?_⟩
        · obtain ⟨branch, hbranch, haccepts⟩ := hany hcontains
          exact ⟨branch, hbranch,
            ih (hschema.part hC (.branch hbranch)) haccepts⟩
        · exact ih (hschema.part hC (.inside hp)) (hinside p hp)

/-- More levels never turn an acceptance round: the limit of the
recursion only refuses. -/
theorem accepts_mono (hC : Loaded C t) {n m : Nat} (hle : n ≤ m)
    {schema : JsonObject} {value : Json} (hschema : Sound C t schema)
    (h : accepts C t n schema value = true) :
    accepts C t m schema value = true := by
  induction hle with
  | refl => exact h
  | step _ ih => exact accepts_succ hC hschema ih

/-- What is accepted, satisfies the schema. -/
theorem accepts_sound (hC : Loaded C t) {n : Nat} :
    ∀ {schema : JsonObject} {value : Json}, Sound C t schema →
    accepts C t n schema value = true →
    Satisfies C t rounded schema value := by
  induction n with
  | zero => exact fun _ h => nomatch h
  | succ n ih =>
      intro schema value hschema h
      rcases hschema.accepts_succ.1 h with ⟨rfl, hnullable⟩ | ⟨hplain,
        hany, hinside⟩
      · exact .null hnullable
      · have hparts : ∀ p ∈ inside C schema value,
            Satisfies C t rounded p.1 p.2 :=
          fun p hp => ih (hschema.part hC (.inside hp)) (hinside p hp)
        by_cases hcontains : contains schema (qs "anyOf") = true
        · obtain ⟨branch, hbranch, haccepts⟩ := hany hcontains
          exact .keywords hplain (fun _ => hbranch)
            (fun _ => ih (hschema.part hC (.branch hbranch)) haccepts) hparts
        · exact @Satisfies.keywords C t rounded schema value .null hplain
            (fun h => absurd h hcontains) (fun h => absurd h hcontains) hparts

/-- Enough levels for each of a list are enough for all. -/
theorem enough_levels (hC : Loaded C t) {l : List (JsonObject × Json)}
    (hl : ∀ p ∈ l, Sound C t p.1)
    (h : ∀ p ∈ l, ∃ n, accepts C t n p.1 p.2 = true) :
    ∃ n, ∀ p ∈ l, accepts C t n p.1 p.2 = true := by
  induction l with
  | nil => exact ⟨0, List.forall_mem_nil _⟩
  | cons p rest ih =>
      obtain ⟨hp, hrest⟩ := List.forall_mem_cons.1 h
      obtain ⟨hpsound, hsound⟩ := List.forall_mem_cons.1 hl
      obtain ⟨n, hn⟩ := hp
      obtain ⟨m, hm⟩ := ih hsound hrest
      refine ⟨max n m, List.forall_mem_cons.2 ⟨?_, fun q hq => ?_⟩⟩
      · exact accepts_mono hC (le_max_left n m) hpsound hn
      · exact accepts_mono hC (le_max_right n m) (hsound q hq) (hm q hq)

/-- What satisfies a schema is accepted with enough levels. -/
theorem accepts_complete (hC : Loaded C t) {schema : JsonObject} {value : Json}
    (h : Satisfies C t rounded schema value) :
    Sound C t schema → ∃ n, accepts C t n schema value = true := by
  induction h with
  | null hnullable =>
      exact fun hschema => ⟨1, hschema.accepts_succ.2
        (Or.inl ⟨rfl, hnullable⟩)⟩
  | @keywords schema value branch hplain hbranch _ _ ihany ihinside =>
      intro hschema
      obtain ⟨n, hn⟩ := enough_levels hC
        (fun p hp => hschema.part hC (.inside hp))
        fun p hp => ihinside p hp (hschema.part hC (.inside hp))
      by_cases hcontains : contains schema (qs "anyOf") = true
      · have hpart := hschema.part hC (.branch (hbranch hcontains))
        obtain ⟨m, hm⟩ := ihany hcontains hpart
        refine ⟨max n m + 1, hschema.accepts_succ.2
          (Or.inr ⟨hplain, fun _ => ?_, ?_⟩)⟩
        · exact ⟨branch, hbranch hcontains,
            accepts_mono hC (le_max_right n m) hpart hm⟩
        · exact fun p hp => accepts_mono hC (le_max_left n m)
            (hschema.part hC (.inside hp)) (hn p hp)
      · exact ⟨n + 1, hschema.accepts_succ.2
          (Or.inr ⟨hplain, fun h => absurd h hcontains, hn⟩)⟩

-- ================================================================== the limit

/-- More levels than `n` make no difference to the validation. -/
def Conclusive (C : ParameterCatalog) (t : Patterns) (n : Nat)
    (schema : JsonObject) (value : Json) : Prop :=
  ∀ m, n ≤ m → accepts C t m schema value = accepts C t n schema value

/-- The validation goes down at most `n` levels, whatever it finds there. -/
def Within (C : ParameterCatalog) : Nat → JsonObject → Json → Prop
  | 0, _, _ => False
  | n + 1, schema, value =>
      (∀ item ∈ toArray (lookup schema (qs "anyOf")),
        Within C n (toObject (some item)) value)
      ∧ ∀ p ∈ inside C schema value, Within C n p.1 p.2

/-- A validation that stays within its levels is settled. -/
theorem Within.settled (hC : Loaded C t) {n : Nat} :
    ∀ {schema : JsonObject} {value : Json}, Sound C t schema →
    Within C n schema value → Conclusive C t n schema value := by
  induction n with
  | zero => exact fun _ h => h.elim
  | succ n ih =>
      intro schema value hschema hwithin m hm
      obtain ⟨k, rfl⟩ : ∃ k, m = k + 1 := ⟨m - 1, by omega⟩
      rw [Bool.eq_iff_iff]
      refine ⟨fun h => ?_, accepts_mono hC hm hschema⟩
      refine hschema.accepts_succ.2 ?_
      rcases hschema.accepts_succ.1 h with hnull | ⟨hplain, hany, hinside⟩
      · exact Or.inl hnull
      · refine Or.inr ⟨hplain, fun hcontains => ?_, fun p hp => ?_⟩
        · obtain ⟨branch, hbranch, haccepts⟩ := hany hcontains
          refine ⟨branch, hbranch, ?_⟩
          rwa [← ih (hschema.part hC (.branch hbranch))
            (hwithin.1 branch hbranch) k
            (by omega)]
        · rw [← ih (hschema.part hC (.inside hp))
            (hwithin.2 p hp) k (by omega)]
          exact hinside p hp

/-- Where the limit of levels makes no difference, the validator implements
the schema language. The induction is on the levels: one level of the
validator is one unfolding of the language, and cyclic references use up
levels like any other. -/
theorem accepts_iff_satisfies {document schema : JsonObject} {value : Json}
    (hC : ParameterCatalog.fromJson t document = .ok C)
    (hschema : checkSchema C t levels schema = .ok ())
    (hfit : SizesFit C schema) (hlevels : Conclusive C t levels schema value) :
    accepts C t levels schema value = true
      ↔ Satisfies C t rounded schema value := by
  have hC := ParameterCatalog.fromJson_loaded hC
  have hsound : Sound C t schema := ⟨⟨levels, hschema⟩, hfit⟩
  refine ⟨accepts_sound hC hsound, fun h => ?_⟩
  obtain ⟨n, hn⟩ := accepts_complete hC h hsound
  rw [← hlevels (max n levels) (le_max_right n levels)]
  exact accepts_mono hC (le_max_left n levels) hsound hn

-- ============================================================== on a sample

namespace Sample

/-- Every pattern is valid and matches. -/
def patterns : Patterns :=
  { isValid := fun _ => true
    hasMatch := fun _ _ => true
    objectText := fun _ => [] }

/-- A document without groups. -/
def emptyDocument : JsonObject :=
  [(qs "groups", .array []), (qs "schema_version", jsonInt 1)]

/-- Strings of at most three units. -/
def shortString : JsonObject :=
  [(qs "maxLength", jsonInt 3), (qs "type", .string (qs "string"))]

/-- The document of a catalog with one group. -/
def oneGroup (id phase : String) (parameters : List Json) : JsonObject :=
  [(qs "groups", .array [.object
      [(qs "id", .string (qs id)),
       (qs "parameters", .array parameters),
       (qs "phase", .string (qs phase))]]),
   (qs "schema_version", jsonInt 1)]

/-- Persons have a short name. -/
def person : ParameterGroupDefinition where
  id := qs "person"
  parameters :=
    [{ name := qs "name"
       nativeType := qs "str"
       schema := shortString }]

def personDocument : JsonObject :=
  oneGroup "person" "serving" [.object
    [(qs "description", .string (qs "A name.")),
     (qs "name", .string (qs "name")),
     (qs "native_type", .string (qs "str")),
     (qs "schema", .object shortString)]]

/-- A reference to persons. -/
def personRef : JsonObject := [(qs "ref", .string (qs "person"))]

/-- Two persons at most. -/
def people : JsonObject :=
  [(qs "items", .object personRef), (qs "maxItems", jsonInt 2),
   (qs "type", .string (qs "array"))]

/-- A person with this name, and the list of this person. -/
def personNamed (name : String) :
    Json := .object [(qs "name", .string (qs name))]

def named (name : String) : Json := .array [personNamed name]

/-- Integers up to 2^53. -/
def upToLimit : JsonObject :=
  [(qs "maximum", jsonInt (2 ^ 53)), (qs "type", .string (qs "integer"))]

end Sample

open Sample

/-- Where a schema leads. -/
theorem Part.cases {schema s : JsonObject} (h : Part C schema s) :
    (∃ item ∈ toArray (lookup schema (qs "anyOf")), s = toObject (some item))
      ∨ (isObject (lookup schema (qs "items")) = true
        ∧ s = toObject (lookup schema (qs "items")))
      ∨ (∃ item ∈ toArray (lookup schema (qs "prefixItems")),
        s = toObject (some item))
      ∨ (∃ key, memberSchema schema key = some s)
      ∨ ∃ key, fieldSchema C schema key = some s := by
  cases h with
  | branch hitem => exact Or.inl ⟨_, hitem, rfl⟩
  | inside hp => exact Or.inr (inside_cases hp)

/-- A schema without nested schemas. -/
theorem no_part {schema : JsonObject}
    (hany : lookup schema (qs "anyOf") = none)
    (hitems : lookup schema (qs "items") = none)
    (hpre : lookup schema (qs "prefixItems") = none)
    (hmember : ∀ key, memberSchema schema key = none)
    (hfield : ∀ key, fieldSchema C schema key = none)
    (s : JsonObject) : ¬ Part C schema s := by
  intro hpart
  rcases hpart.cases with ⟨item, hitem, -⟩ | ⟨hobject, -⟩ | ⟨item, hitem, -⟩
    | ⟨key, hkey⟩ | ⟨key, hkey⟩
  · rw [hany] at hitem
    cases hitem
  · rw [hitems] at hobject
    cases hobject
  · rw [hpre] at hitem
    cases hitem
  · rw [hmember] at hkey
    cases hkey
  · rw [hfield] at hkey
    cases hkey

/-- The size bounds fit where they do in some schemas that lead
to no others. -/
theorem sizesFit_of_closed {P : JsonObject → Prop}
    (hsmall : ∀ s, P s → SizesSmall s)
    (hpart : ∀ s s', P s → Part C s s' → P s')
    {schema : JsonObject} (h : P schema) : SizesFit C schema := by
  intro s hs
  refine hsmall s ?_
  induction hs with
  | refl => exact h
  | tail _ hstep ih => exact hpart _ _ ih hstep

/-- The bound that a keyword is. -/
def boundOf : Option Json → ℚ
  | some (.number (.finite q)) => q
  | _ => 0

theorem sizesSmall_of_bounds {schema : JsonObject}
    (h : ∀ key ∈ sizeKeys, boundOf (lookup schema (qs key)) < 2 ^ 31) :
    SizesSmall schema := by
  intro key hkey q hq
  have hbound := h key hkey
  rw [hq] at hbound
  exact hbound

/-- A schema that leads nowhere needs one level. -/
theorem no_part_within {schema : JsonObject} {value : Json} {n : Nat}
    (h : ∀ s, ¬ Part C schema s) : Within C (n + 1) schema value :=
  ⟨fun _ hitem => absurd (.branch hitem) (h _),
    fun _ hp => absurd (.inside hp) (h _)⟩

namespace Sample

theorem person_loaded : ParameterCatalog.fromJson patterns personDocument
    = .ok ⟨[person]⟩ := by
  rfl

theorem shortString_part (s : JsonObject) : ¬ Part ⟨[person]⟩ shortString s :=
  no_part rfl rfl rfl (fun _ => rfl) (fun _ => rfl) s

/-- The reference leads to the field of the group. -/
theorem personRef_part {s : JsonObject} (h : Part ⟨[person]⟩ personRef s) :
    s = shortString := by
  rcases h.cases with ⟨item, hitem, -⟩ | ⟨hobject, -⟩ | ⟨item, hitem, -⟩
    | ⟨key, hkey⟩ | ⟨key, hkey⟩
  · cases hitem
  · cases hobject
  · cases hitem
  · cases hkey
  · have hgroup : ParameterCatalog.group? ⟨[person]⟩
      (keywordText personRef "ref")
        = some person := rfl
    unfold fieldSchema at hkey
    rw [hgroup] at hkey
    obtain ⟨_, hg, hfield⟩ := Option.bind_eq_some_iff.1 hkey
    obtain ⟨p, hp, hschema⟩ := Option.bind_eq_some_iff.1 hfield
    rw [← Option.some.inj hg] at hp
    rw [← Option.some.inj hschema,
      List.mem_singleton.1 (ParameterGroupDefinition.field?_some hp).1]

/-- The list leads to the reference. -/
theorem people_part {s : JsonObject} (h : Part ⟨[person]⟩ people s) :
    s = personRef := by
  rcases h.cases with ⟨item, hitem, -⟩ | ⟨-, hs⟩ | ⟨item, hitem, -⟩
    | ⟨key, hkey⟩ | ⟨key, hkey⟩
  · cases hitem
  · exact hs
  · cases hitem
  · cases hkey
  · cases hkey

/-- The bounds of a list of persons are small, and so are those of
what it leads to. -/
theorem sample_fits {schema : JsonObject}
    (h : schema = people ∨ schema = personRef ∨ schema = shortString) :
    SizesFit ⟨[person]⟩ schema := by
  refine sizesFit_of_closed
    (P := fun s => s = people ∨ s = personRef ∨ s = shortString) ?_ ?_ h
  · rintro s (rfl | rfl | rfl)
    · exact sizesSmall_of_bounds (by decide +kernel)
    · exact sizesSmall_of_bounds (by decide +kernel)
    · exact sizesSmall_of_bounds (by decide +kernel)
  · rintro s s' (rfl | rfl | rfl) hpart
    · exact Or.inr (Or.inl (people_part hpart))
    · exact Or.inr (Or.inr (personRef_part hpart))
    · exact absurd hpart (shortString_part s')

/-- Two levels are enough for a person, and three for a list of persons. -/
theorem personRef_within (name : String) (n : Nat) :
    Within ⟨[person]⟩ (n + 2) personRef (personNamed name) := by
  unfold Within
  refine ⟨fun _ hitem => (nomatch hitem), fun p hp => ?_⟩
  rw [List.mem_singleton.1 hp]
  exact no_part_within shortString_part

/-- Every level of the sample strictly shrinks the value, so three levels above
a name's depth are enough. -/
theorem people_within (name : String) (n : Nat) :
    Within ⟨[person]⟩ (n + 3) people (named name) := by
  unfold Within
  refine ⟨fun _ hitem => (nomatch hitem), fun p hp => ?_⟩
  rw [List.mem_singleton.1 hp]
  exact personRef_within name n

/-- A reference to persons is settled at a person. -/
theorem personRef_settled (name : String) :
    Conclusive ⟨[person]⟩ patterns levels personRef (personNamed name) :=
  Within.settled (ParameterCatalog.fromJson_loaded person_loaded)
    ⟨⟨levels, rfl⟩, sample_fits (.inr (.inl rfl))⟩ (personRef_within name 31)

theorem people_checked :
    checkSchema ⟨[person]⟩ patterns levels people = .ok () := by
  rfl

theorem people_settled (name : String) :
    Conclusive ⟨[person]⟩ patterns levels people (named name) :=
  Within.settled (ParameterCatalog.fromJson_loaded person_loaded)
    ⟨⟨levels, people_checked⟩, sample_fits (.inl rfl)⟩ (people_within name 30)

end Sample

/-- A list that refers to a group: a short name satisfies it, a
long one does not. -/
theorem accepts_iff_satisfies_short :
    Satisfies ⟨[person]⟩ patterns rounded people (named "Ada")
      ∧ ¬ Satisfies ⟨[person]⟩ patterns rounded people (named "Grace") := by
  have hread := fun name => accepts_iff_satisfies person_loaded people_checked
    (sample_fits (.inl rfl)) (people_settled name)
  exact ⟨(hread "Ada").1 (by decide +kernel),
    fun h => absurd ((hread "Grace").2 h) (by decide +kernel)⟩

/-- 2^53 + 1 is above the maximum, and is accepted: both are
compared as doubles. -/
theorem above_maximum_accepted :
    ParameterCatalog.fromJson patterns emptyDocument = .ok {}
      ∧ checkSchema {} patterns levels upToLimit = .ok ()
      ∧ Within {} levels upToLimit (jsonInt (2 ^ 53 + 1))
      ∧ accepts {} patterns levels upToLimit (jsonInt (2 ^ 53 + 1)) = true
      ∧ ¬ Satisfies {} patterns exactly upToLimit (jsonInt (2 ^ 53 + 1)) := by
  refine ⟨rfl, by rfl, no_part_within
    (no_part rfl rfl rfl (fun _ => rfl) fun _ => rfl),
    by decide +kernel, ?_⟩
  intro h
  cases h with
  | keywords hplain =>
      have hmaximum := (hplain.bounds rfl).maximum (jsonInt (2 ^ 53)) rfl
      revert hmaximum
      decide +kernel

end LocalLLM
