/-
What a redacted export hides.

# Positions

A document is seen through its positions (`Json.view`): paths of keys and
indices. `Sensitive` are the positions under a sensitive field that a walk
through a schema comes to. The validator and the redactor walk alike, with
two differences (`validator`, `redactor`). The validator holds every item of
an array against `items`; the redactor leaves out those that `prefixItems`
has a schema for. And where the levels end, the redactor hides what is left.

# The redactor is a mask

`redactValue` hides exactly the positions its walk comes to
(`redactValue_view`), and so does an export (`exported_view`). What the
validator's walk comes to is therefore hidden just where the redactor's walk
covers it.
-/
import LocalLLM.Lib.Masks
import LocalLLM.Proofs.Documents

namespace LocalLLM

open Json

variable {C : ParameterCatalog} {t : Patterns}

-- ================================================================== positions

/-- A step into a document. -/
inductive JsonStep
  | key (name : QString)
  | index (i : Nat)

abbrev JsonPath := List JsonStep

/-- What stands at a position, less what is below it. -/
inductive JsonNode
  | array
  | object
  | scalar (value : Json)

namespace Json

def node : Json → JsonNode
  | .array _ => .array
  | .object _ => .object
  | value => .scalar value

def child : Json → JsonStep → Option Json
  | .object members, .key name => lookup members name
  | .array items, .index i => items[i]?
  | _, _ => none

/-- What stands at each position. -/
def view : Json → View JsonStep JsonNode
  | value, [] => some value.node
  | value, s :: p => (value.child s).bind fun v => view v p

theorem isTree_view : ∀ {value : Json}, IsTree value.view := by
  intro value p q hle hp
  induction q generalizing value p with
  | nil => rfl
  | cons s q ih =>
      cases p with
      | nil => exact absurd (List.prefix_nil.1 hle) (List.cons_ne_nil s q)
      | cons s' p =>
          obtain ⟨rfl, hle'⟩ := List.cons_prefix_cons.1 hle
          unfold view at hp ⊢
          cases hchild : value.child s with
          | none =>
              rw [hchild] at hp
              exact absurd hp Bool.false_ne_true
          | some v =>
              rw [hchild] at hp
              exact ih hle' hp

end Json

/-- What a hidden position shows. -/
def redactedNode : JsonNode := .scalar redacted

/-- In the place of the whole document. -/
theorem redacted_view {S : Set JsonPath} (h : [] ∈ S) (value : Json) :
    redacted.view = mask redactedNode S value.view := by
  funext p
  cases p with
  | nil =>
      rw [mask_at coversAbove_nil h]
      rfl
  | cons s p =>
      rw [mask_above (coversAbove_cons.2 (Or.inl h))]
      rfl

/-- A document whose children are masked. -/
theorem view_of_children {v w : Json} {S : Set JsonPath}
    (F : JsonStep → Json → Json) (hroot : [] ∉ S) (hnode : w.node = v.node)
    (hchild : ∀ s, w.child s = (v.child s).map (F s))
    (hview : ∀ s x, v.child s = some x →
      (F s x).view = mask redactedNode (under s S) x.view) :
    w.view = mask redactedNode S v.view := by
  funext p
  cases p with
  | nil =>
      rw [mask_root hroot]
      exact congrArg some hnode
  | cons s p =>
      rw [mask_cons hroot]
      unfold Json.view
      rw [hchild]
      cases hx : v.child s with
      | none =>
          unfold mask
          simp
      | some x => exact congrFun (hview s x hx) p

-- ================================================================ sensitivity

/-- Whoever walks through a value along its schema. -/
structure Walk where
  /-- Whether the item at an index is held against `items`. -/
  takesItems : JsonObject → Nat → Prop
  /-- Whether the end of the levels counts. -/
  ends : Prop

/-- The schemas of the first items. -/
def prefixSchemas (schema : JsonObject) : List Json :=
  toArray (lookup schema (qs "prefixItems"))

def validator : Walk where
  takesItems _ _ := True
  ends := False

def redactor : Walk where
  takesItems schema i := (prefixSchemas schema).length ≤ i
  ends := True

section Sensitive

variable (C : ParameterCatalog) (w : Walk) (recurse : JsonObject →
    JsonPath → Prop)

/-- By a schema that says nothing when it is empty. -/
def ByChild (child : JsonObject) (p : JsonPath) :
    Prop := child ≠ [] ∧ recurse child p

/-- By the field of a group: everything, when it is sensitive. -/
def ByField (g : ParameterGroupDefinition) (name : QString) (p : JsonPath) :
    Prop :=
  ∃ field, g.field? name = some field
    ∧ (field.sensitive = true ∨ recurse field.schema p)

/-- By `properties`, or else by `additionalProperties`. -/
def ByMember (schema : JsonObject) (name : QString) (p : JsonPath) : Prop :=
  let properties := toObject (lookup schema (qs "properties"))
  let additional := lookup schema (qs "additionalProperties")
  if contains properties name = true then
    ByChild recurse (toObject (lookup properties name)) p
  else isObject additional = true ∧ ByChild recurse (toObject additional) p

/-- By `items`, and by `prefixItems`. -/
def ByItem (schema : JsonObject) (i : Nat) (p : JsonPath) : Prop :=
  (w.takesItems schema i ∧ isObject (lookup schema (qs "items")) = true
      ∧ ByChild recurse (toObject (lookup schema (qs "items"))) p)
    ∨ ∃ item, (prefixSchemas schema)[i]? = some item
      ∧ ByChild recurse (toObject (some item)) p

/-- By the keywords that look into a value. -/
def Inside (schema : JsonObject) : JsonPath → Prop
  | [] => False
  | .key name :: p =>
      (∃ g, C.group? (keywordText schema "ref") = some g
        ∧ ByField recurse g name p)
        ∨ ByMember recurse schema name p
  | .index i :: p => ByItem w recurse schema i p

/-- The positions under a sensitive field. -/
def Sensitive : Nat → JsonObject → JsonPath → Prop
  | 0, _, p => w.ends ∧ p = []
  | n + 1, schema, p =>
      (∃ branch ∈ toArray (lookup schema (qs "anyOf")),
        Sensitive n (toObject (some branch)) p)
      ∨ Inside C w (Sensitive n) schema p

/-- The same, for a document of a group. -/
def Secret (g : ParameterGroupDefinition) : Set JsonPath
  | .key name :: p => ByField (Sensitive C w levels) g name p
  | _ => False

end Sensitive

-- =============================================================== the redactor

/-- What the redactor makes of a member, by its field. -/
def redactedBy (recurse : JsonObject → Json → Json)
    (g : ParameterGroupDefinition) (name : QString) (value : Json) : Json :=
  match g.field? name with
  | none => value
  | some field =>
      if field.sensitive = true then redacted else recurse field.schema value

/-- A member is redacted by the first parameter of its name, which in a loaded
group is the only one. -/
theorem redactedBy_cons {recurse : JsonObject → Json → Json} {id : QString}
    {field : ParameterDefinition} {rest : List ParameterDefinition}
    {name : QString} {value : Json} :
    redactedBy recurse ⟨id, field :: rest⟩ name value
      = if field.name = name then
          if field.sensitive = true then redacted
            else recurse field.schema value
        else redactedBy recurse ⟨id, rest⟩ name value := by
  unfold redactedBy ParameterGroupDefinition.field?
  by_cases hname : field.name = name
  · rw [List.find?_cons_of_pos (by simpa using hname), if_pos hname]
  · rw [List.find?_cons_of_neg (by simpa using hname), if_neg hname]

/-- A field without a name of the group is left as it is. -/
theorem redactedBy_of_not_mem {recurse : JsonObject → Json → Json}
    {g : ParameterGroupDefinition} {name : QString} {value : Json}
    (h : name ∉ g.parameters.map ParameterDefinition.name) :
    redactedBy recurse g name value = value := by
  have hnone : g.field? name = none := by
    unfold ParameterGroupDefinition.field?
    rw [List.find?_eq_none]
    intro field hfield hname
    exact h (List.mem_map.2 ⟨field, hfield, beq_iff_eq.1 hname⟩)
  unfold redactedBy
  rw [hnone]

/-- Redacting one field touches the member of that name and no other. -/
theorem lookup_redactField {recurse : JsonObject → Json → Json}
    (o : JsonObject) (field : ParameterDefinition) (name : QString) :
    lookup (redactField recurse o field) name
      = (lookup o name).map fun value =>
      if field.name = name then
        if field.sensitive = true then redacted else recurse field.schema value
      else value := by
  unfold redactField
  by_cases hname : field.name = name
  · subst hname
    cases hv : lookup o field.name with
    | none => simp [hv]
    | some value => simp
  · simp only [if_neg hname, Option.map_id']
    cases lookup o field.name with
    | none => rfl
    | some value => exact lookup_insert_ne o _ (Ne.symm hname)

/-- Distinct names let the loop over the fields be read as one
pass over the members. -/
theorem lookup_redactFields {recurse : JsonObject → Json → Json} {id : QString}
    (name : QString) : ∀ {parameters : List ParameterDefinition},
      (parameters.map ParameterDefinition.name).Nodup → ∀ o : JsonObject,
      lookup (parameters.foldl (redactField recurse) o) name
        = (lookup o name).map (redactedBy recurse ⟨id, parameters⟩ name) := by
  intro parameters
  induction parameters with
  | nil => exact fun _ o => Option.map_id'.symm
  | cons field rest ih =>
      intro hnames o
      rw [List.map_cons, List.nodup_cons] at hnames
      rw [List.foldl_cons, ih hnames.2, lookup_redactField, Option.map_map]
      congr 1
      funext value
      rw [redactedBy_cons]
      by_cases hname : field.name = name
      · subst hname
        simp only [Function.comp_apply, if_pos]
        exact redactedBy_of_not_mem hnames.1
      · simp only [Function.comp_apply, if_neg hname]

/-- Redacting the members one by one finds each under its old name. -/
theorem lookup_redactMembers {recurse : JsonObject → Json → Json}
    (schema : JsonObject) (members : JsonObject) (name : QString) :
    lookup (members.map (redactMember recurse schema)) name
      = (lookup members name).map fun value =>
        (redactMember recurse schema (name, value)).2 := by
  induction members with
  | nil => rfl
  | cons m rest ih =>
      have hkey : (redactMember recurse schema m).1 = m.1 := rfl
      rw [List.map_cons, lookup_cons, lookup_cons, ih, hkey]
      by_cases hname : m.1 = name
      · subst hname
        rw [if_pos rfl, if_pos rfl]
        rfl
      · rw [if_neg hname, if_neg hname]

/-- A schema that is not empty stands in the document as an object. -/
theorem isObject_of_toObject {value : Option Json} (h : toObject value ≠ []) :
    isObject value = true := by
  cases value with
  | none => exact absurd rfl h
  | some v => cases v <;> first | rfl | exact absurd rfl h

section OneLevel

variable {recurse : JsonObject → Json → Json}
    {below : JsonObject → JsonPath → Prop}

/-- What is hidden one level down. -/
def Hides (C : ParameterCatalog) (t : Patterns)
    (recurse : JsonObject → Json → Json)
    (below : JsonObject → JsonPath → Prop) : Prop :=
  ∀ schema, Checked C t schema → ∀ value : Json,
    (recurse schema value).view
      = mask redactedNode {p | below schema p} value.view

/-- If the recursion hides what is secret one level down, it does
so for a child. Where there is no child schema, nothing is hidden
and nothing is secret. -/
theorem Hides.child (h : Hides C t recurse below) {child : JsonObject}
    (hchecked : child ≠ [] → Checked C t child) (value : Json) :
    (redactChild recurse child value).view
      = mask redactedNode {p | ByChild below child p} value.view := by
  unfold redactChild
  by_cases hchild : child = []
  · have hempty : {p | ByChild below child p} = ∅ :=
      Set.eq_empty_of_forall_notMem fun p hp => hp.1 hchild
    rw [if_pos hchild, hempty, mask_empty]
  · have hsame : {p | ByChild below child p} = {p | below child p} :=
      Set.ext fun p => and_iff_right hchild
    rw [if_neg hchild, hsame]
    exact h child (hchecked hchild) value

/-- A member of a referenced group is hidden as a whole where its parameter is
sensitive, else inside. -/
theorem Hides.field (hC : Loaded C t) (h : Hides C t recurse below)
    {g : ParameterGroupDefinition} (hg : g ∈ C.groups) (name : QString)
    (value : Json) : (redactedBy recurse g name value).view
      = mask redactedNode {p | ByField below g name p} value.view := by
  unfold redactedBy
  cases hfield : g.field? name with
  | none =>
      have hempty : {p | ByField below g name p} = ∅ := by
        refine Set.eq_empty_of_forall_notMem fun p hp => ?_
        obtain ⟨field, hsome, -⟩ := hp
        rw [hfield] at hsome
        cases hsome
      rw [hempty, mask_empty]
  | some field =>
      have hby : ∀ p, ByField below g name p ↔
          field.sensitive = true ∨ below field.schema p := by
        intro p
        unfold ByField
        rw [hfield]
        simp
      dsimp only
      by_cases hsensitive : field.sensitive = true
      · rw [if_pos hsensitive]
        exact redacted_view ((hby []).2 (Or.inl hsensitive)) value
      · have hsame : {p | ByField below g name p}
            = {p | below field.schema p} :=
          Set.ext fun p => (hby p).trans (or_iff_right hsensitive)
        rw [if_neg hsensitive, hsame]
        exact h field.schema
          (hC.checked hg (ParameterGroupDefinition.field?_some hfield).1) value

/-- The redactor takes the schema of a member where the validator does. -/
theorem Hides.member (h : Hides C t recurse below) {schema : JsonObject}
    (hschema : Checked C t schema) (name : QString) (value : Json) :
    (redactMember recurse schema (name, value)).2.view
      = mask redactedNode {p | ByMember below schema name p} value.view := by
  unfold redactMember ByMember
  dsimp only
  by_cases hcontains :
      contains (toObject (lookup schema (qs "properties"))) name = true
  · simp only [if_pos hcontains, if_pos (hschema.property_checked hcontains).1]
    exact h.child (fun _ => hschema.property hcontains) value
  · have hnone : lookup (toObject (lookup schema (qs "properties"))) name
        = none := by
      rw [contains_eq] at hcontains
      simpa using hcontains
    rw [hnone]
    simp only [if_neg hcontains]
    rw [if_neg (by exact Bool.false_ne_true)]
    by_cases hobject : isObject (lookup schema (qs "additionalProperties"))
      = true
    · simp only [hobject, true_and]
      exact h.child (fun _ => hschema.items (Or.inr rfl) hobject) value
    · have hempty : toObject (lookup schema (qs "additionalProperties"))
          = [] := by
        by_contra hne
        exact hobject (isObject_of_toObject hne)
      simp only [hobject, hempty]
      simp [redactChild]

/-- An item is hidden by the schema that stands for its place. -/
theorem Hides.item (h : Hides C t recurse below) {schema : JsonObject}
    (hschema : Checked C t schema) (i : Nat) (item : Json) :
    (redactItem recurse schema i item).view
      = mask redactedNode {p | ByItem redactor below schema i p}
        item.view := by
  show (redactChild recurse (if i < (prefixSchemas schema).length
    then toObject (prefixSchemas schema)[i]?
    else toObject (lookup schema (qs "items"))) item).view = _
  by_cases hi : i < (prefixSchemas schema).length
  · have hfirst : (prefixSchemas schema)[i]?
        = some (prefixSchemas schema)[i] :=
      List.getElem?_eq_getElem hi
    have hsame : {p | ByItem redactor below schema i p}
        = {p | ByChild below (toObject
          (some (prefixSchemas schema)[i])) p} := by
      refine Set.ext fun p => ⟨fun hp => ?_, fun hp => Or.inr ⟨_, hfirst, hp⟩⟩
      rcases hp with ⟨htakes, -⟩ | ⟨first, hsome, hp⟩
      · exact absurd hi (Nat.not_lt.2 htakes)
      · rw [hfirst] at hsome
        injection hsome with hsome
        exact hsome ▸ hp
    rw [if_pos hi, hsame, hfirst]
    exact h.child (fun _ => hschema.alternative (Or.inr rfl)
      (List.getElem_mem hi)) item
  · have hnone : (prefixSchemas schema)[i]? = none :=
      List.getElem?_eq_none (Nat.not_lt.1 hi)
    have hsame : {p | ByItem redactor below schema i p}
        = {p | ByChild below (toObject (lookup schema (qs "items"))) p} := by
      refine Set.ext fun p =>
        ⟨fun hp => ?_, fun hp => Or.inl ⟨Nat.not_lt.1 hi, ?_, hp⟩⟩
      · rcases hp with ⟨-, -, hp⟩ | ⟨first, hsome, -⟩
        · exact hp
        · rw [hnone] at hsome
          cases hsome
      · exact isObject_of_toObject hp.1
    rw [if_neg hi, hsame]
    exact h.child (fun hne => hschema.items (Or.inl rfl)
      (isObject_of_toObject hne)) item

end OneLevel

/-- One mask a branch. -/
theorem view_foldl {α : Type} {f : Json → α → Json} {S : α → Set JsonPath} :
    ∀ {l : List α}, (∀ a ∈ l, ∀ value, (f value a).view
        = mask redactedNode (S a) value.view) →
      ∀ value, (l.foldl f value).view
        = mask redactedNode {p | ∃ a ∈ l, p ∈ S a} value.view := by
  intro l
  induction l with
  | nil =>
      intro _ value
      have hempty : {p | ∃ a ∈ ([] : List α), p ∈ S a} = ∅ :=
        Set.eq_empty_of_forall_notMem fun p ⟨_, ha, _⟩ => List.not_mem_nil ha
      rw [hempty, mask_empty]
      rfl
  | cons a rest ih =>
      intro h value
      obtain ⟨hfirst, hrest⟩ := List.forall_mem_cons.1 h
      have hunion : {p | ∃ a' ∈ rest, p ∈ S a'} ∪ S a
          = {p | ∃ a' ∈ a :: rest, p ∈ S a'} := by
        ext p
        simp [or_comm]
      rw [List.foldl_cons, ih hrest, hfirst, mask_mask, hunion]

/-- The members of an object, by the group alone. -/
def redactedGroup (C : ParameterCatalog) (recurse : JsonObject → Json → Json)
    (schema members : JsonObject) : JsonObject :=
  match C.group? (keywordText schema "ref") with
  | none => members
  | some g => g.parameters.foldl (redactField recurse) members

/-- One member, by the group alone. -/
def redactedByGroup (C : ParameterCatalog) (recurse : JsonObject → Json → Json)
    (schema : JsonObject) (name : QString) (value : Json) : Json :=
  match C.group? (keywordText schema "ref") with
  | none => value
  | some g => redactedBy recurse g name value

/-- The group step is the field step for the group that the schema refers to,
if there is one. -/
theorem Hides.group (hC : Loaded C t) {recurse : JsonObject → Json → Json}
    {below : JsonObject → JsonPath → Prop} (h : Hides C t recurse below)
    {schema : JsonObject} (name : QString) (value : Json) :
    (redactedByGroup C recurse schema name value).view
      = mask redactedNode {p | ∃ g,
          C.group? (keywordText schema "ref") = some g
          ∧ ByField below g name p} value.view := by
  unfold redactedByGroup
  cases hg : C.group? (keywordText schema "ref") with
  | none =>
      have hempty : {p | ∃ g, none = some g ∧ ByField below g name p} = ∅ :=
        Set.eq_empty_of_forall_notMem fun p ⟨_, hsome, _⟩ => nomatch hsome
      rw [hempty, mask_empty]
  | some g =>
      have hsame : {p | ∃ g', some g = some g' ∧ ByField below g' name p}
          = {p | ByField below g name p} := by
        ext p
        simp
      rw [hsame]
      exact h.field hC (ParameterCatalog.group?_some hg).1 name value

/-- One level of an object: the group pass and the pass over the properties
hide together what either would, and nothing else. -/
theorem redacted_members_view (hC : Loaded C t)
    {recurse : JsonObject → Json → Json}
    {below : JsonObject → JsonPath → Prop} (h : Hides C t recurse below)
    {schema : JsonObject} (hschema : Checked C t schema)
    (members : JsonObject) :
    (Json.object ((redactedGroup C recurse schema members).map
        (redactMember recurse schema))).view
      = mask redactedNode {p | Inside C redactor below schema p}
        (Json.object members).view := by
  have hlookup : ∀ name, lookup (redactedGroup C recurse schema members) name
      = (lookup members name).map (redactedByGroup C recurse schema name) := by
    intro name
    unfold redactedGroup redactedByGroup
    cases hg : C.group? (keywordText schema "ref") with
    | none => exact Option.map_id'.symm
    | some g =>
        exact lookup_redactFields name
          (hC.names g (ParameterCatalog.group?_some hg).1)
          members
  refine view_of_children (fun s value => match s with
    | .key name => (redactMember recurse schema
        (name, redactedByGroup C recurse schema name value)).2
    | .index _ => value) id rfl (fun s => ?_) fun s x hx => ?_
  · cases s with
    | key name =>
        show lookup ((redactedGroup C recurse schema members).map _) name = _
        rw [lookup_redactMembers, hlookup, Option.map_map]
        rfl
    | index i => rfl
  · cases s with
    | key name =>
        have hunion : {p | ByMember below schema name p}
            ∪ {p | ∃ g, C.group? (keywordText schema "ref") = some g
              ∧ ByField below g name p}
            = under (.key name) {p | Inside C redactor below schema p} := by
          ext p
          exact or_comm
        rw [← hunion, ← mask_mask, ← h.group hC name x]
        exact h.member hschema name _
    | index i => cases hx

/-- One level of an array, item by item. -/
theorem redacted_items_view {recurse : JsonObject → Json → Json}
    {below : JsonObject → JsonPath → Prop} (h : Hides C t recurse below)
    {schema : JsonObject} (hschema : Checked C t schema) (items : List Json) :
    (Json.array (items.mapIdx (redactItem recurse schema))).view
      = mask redactedNode {p | Inside C redactor below schema p}
        (Json.array items).view := by
  refine view_of_children (fun s value => match s with
    | .key _ => value
    | .index i =>
        redactItem recurse schema i value) id rfl (fun s => ?_)
          fun s x hx => ?_
  · cases s with
    | key name => rfl
    | index i => exact List.getElem?_mapIdx
  · cases s with
    | key name => cases hx
    | index i => exact h.item hschema i x

/-- What is neither is left as it is. -/
theorem scalar_view {value : Json} {S : Set JsonPath} (hroot : [] ∉ S)
    (hchild : ∀ s, value.child s = none) :
    value.view = mask redactedNode S value.view := by
  refine view_of_children (fun _ x => x) hroot rfl (fun s => ?_)
    fun s x hx => ?_
  · rw [hchild]
    rfl
  · rw [hchild] at hx
    cases hx

/-- The redactor hides what its walk comes to, and nothing else. It is an
equation between trees, so it also says that all the rest is shown. -/
theorem redactValue_view (hC : Loaded C t) :
    ∀ n, Hides C t (redactValue C n) (Sensitive C redactor n) := by
  intro n
  induction n with
  | zero =>
      exact fun schema _ value => redacted_view
        (show _ ∧ _ from ⟨trivial, rfl⟩) value
  | succ n ih =>
      intro schema hschema value
      have hbranches := view_foldl (f := fun v branch =>
          redactValue C n (toObject (some branch)) v)
        (S := fun branch => {p | Sensitive C redactor n
          (toObject (some branch)) p})
        (l := toArray (lookup schema (qs "anyOf")))
        (fun branch hbranch v =>
          ih _ (hschema.alternative (Or.inl rfl) hbranch) v) value
      have hunion : {p | Inside C redactor (Sensitive C redactor n) schema p}
            ∪ {p | ∃ branch ∈ toArray (lookup schema (qs "anyOf")),
              p ∈ {p | Sensitive C redactor n (toObject (some branch)) p}}
          = {p | Sensitive C redactor (n + 1) schema p} := by
        ext p
        exact or_comm
      rw [← hunion, ← mask_mask, ← hbranches, redactValue]
      dsimp only
      -- what the branches leave is an object, an array or a scalar
      generalize (toArray (lookup schema (qs "anyOf"))).foldl
        (fun v branch => redactValue C n (toObject (some branch)) v) value = v
      cases v with
      | object members => exact redacted_members_view hC ih hschema members
      | array items => exact redacted_items_view ih hschema items
      | null => exact scalar_view id fun _ => rfl
      | bool b => exact scalar_view id fun _ => rfl
      | number d => exact scalar_view id fun _ => rfl
      | string s => exact scalar_view id fun _ => rfl

-- ==================================================================== exports

namespace ParameterObject

/-- What an export has of a field before anything is redacted. -/
def exported (defaults : Bool) (o : JsonObject) (p : ParameterDefinition) :
    Option Json :=
  (lookup o p.name).or (if defaults = true then p.shownDefault else none)

/-- An object with the default of a field, where the export adds it. -/
def completedBy (defaults : Bool) (o : JsonObject) (p : ParameterDefinition) :
    JsonObject :=
  match p.defaultValue with
  | some v =>
      if defaults && !p.readOnly && !contains o p.name
        then insert o p.name v else o
  | none => o

/-- Completing sets the field it is asked for and leaves the others alone. -/
theorem lookup_completedBy (defaults : Bool) (o : JsonObject)
    (p : ParameterDefinition) (name : QString) :
    lookup (completedBy defaults o p) name
      = if p.name = name then exported defaults o p else lookup o name := by
  by_cases hname : p.name = name
  · subst hname
    rw [if_pos rfl]
    unfold completedBy exported ParameterDefinition.shownDefault
    rw [contains_eq]
    cases p.defaultValue with
    | none => cases defaults <;> cases p.readOnly <;> simp
    | some v =>
        cases hv : lookup o p.name <;> cases defaults
          <;> cases p.readOnly <;> simp [hv]
  · rw [if_neg hname]
    unfold completedBy
    cases p.defaultValue with
    | none => rfl
    | some v =>
        dsimp only
        split
        · exact lookup_insert_ne o v (Ne.symm hname)
        · rfl

/-- What an export shows for the value of a field. -/
def shownValue (C : ParameterCatalog) (redact : Bool) (p : ParameterDefinition)
    (value : Json) : Json :=
  if redact = true then
    if p.sensitive = true then redacted
      else redactValue C levels p.schema value
  else value

/-- Export writes each field as it is shown, which redaction
decides field by field. -/
theorem lookup_exportField_shown (defaults redact : Bool) (o : JsonObject)
    (p : ParameterDefinition) (name : QString) :
    lookup (exportField C defaults redact o p) name
      = if p.name = name then (exported defaults o p).map
        (shownValue C redact p)
        else lookup o name := by
  show lookup (match lookup (completedBy defaults o p) p.name with
    | some v =>
        if redact = true then insert (completedBy defaults o p) p.name
          (if p.sensitive = true then redacted
            else redactValue C levels p.schema v)
        else completedBy defaults o p
    | none => completedBy defaults o p) name = _
  have hself : lookup (completedBy defaults o p) p.name
      = exported defaults o p := by
    rw [lookup_completedBy, if_pos rfl]
  rw [hself]
  unfold shownValue
  by_cases hname : p.name = name
  · subst hname
    rw [if_pos rfl]
    cases hexported : exported defaults o p with
    | none => exact hself.trans hexported
    | some v =>
        cases redact with
        | true => exact lookup_insert_self _ _ _
        | false => exact hself.trans hexported
  · rw [if_neg hname]
    have hother : lookup (completedBy defaults o p) name = lookup o name := by
      rw [lookup_completedBy, if_neg hname]
    cases exported defaults o p with
    | none => exact hother
    | some v =>
        cases redact with
        | true => exact (lookup_insert_ne _ _ (Ne.symm hname)).trans hother
        | false => exact hother

/-- What an export shows of each field, in all its modes: what was set, or else
the default where defaults are asked for. -/
theorem lookup_export (defaults redact : Bool) {id : QString}
    (name : QString) :
    ∀ {parameters : List ParameterDefinition},
      (parameters.map ParameterDefinition.name).Nodup → ∀ o : JsonObject,
      lookup (parameters.foldl (exportField C defaults redact) o) name
        = match (⟨id, parameters⟩ : ParameterGroupDefinition).field? name with
          | none => lookup o name
          | some p => (exported defaults o p).map (shownValue C redact p) := by
  intro parameters
  induction parameters with
  | nil => exact fun _ o => rfl
  | cons p rest ih =>
      intro hnames o
      rw [List.map_cons, List.nodup_cons] at hnames
      rw [List.foldl_cons, ih hnames.2]
      unfold ParameterGroupDefinition.field?
      by_cases hname : p.name = name
      · have hrest : rest.find? (fun q => q.name == name) = none := by
          rw [List.find?_eq_none]
          intro q hq hqname
          exact hnames.1 (List.mem_map.2
            ⟨q, hq, (beq_iff_eq.1 hqname).trans hname.symm⟩)
        rw [hrest, List.find?_cons_of_pos (by simpa using hname)]
        exact (lookup_exportField_shown defaults redact o p name).trans
          (if_pos hname)
      · rw [List.find?_cons_of_neg (by simpa using hname)]
        have hkept : ∀ q : ParameterDefinition, q.name ≠ p.name →
            exported defaults (exportField C defaults redact o p) q
              = exported defaults o q := by
          intro q hq
          unfold exported
          rw [lookup_exportField_shown, if_neg (Ne.symm hq)]
        cases hfield : rest.find? fun q => q.name == name with
        | none =>
            exact (lookup_exportField_shown defaults redact o p name).trans
              (if_neg hname)
        | some q =>
            have hqname : q.name = name := by
              simpa using List.find?_some hfield
            dsimp only
            rw [hkept q fun h => hname (h ▸ hqname)]

end ParameterObject

/-- A redacted export is the export with the secrets hidden that
the redactor knows. -/
theorem exported_view (hC : Loaded C t) {g : ParameterGroupDefinition}
    (hg : g ∈ C.groups) (defaults : Bool) (o : JsonObject) :
    (Json.object (g.parameters.foldl
      (ParameterObject.exportField C defaults true) o)).view
      = mask redactedNode (Secret C redactor g)
        (Json.object (g.parameters.foldl
          (ParameterObject.exportField C defaults false) o)).view := by
  have hlookup : ∀ redact name,
      lookup (g.parameters.foldl
        (ParameterObject.exportField C defaults redact) o) name
        = match g.field? name with
          | none => lookup o name
          | some p => (ParameterObject.exported defaults o p).map
              (ParameterObject.shownValue C redact p) :=
    fun redact name => ParameterObject.lookup_export defaults redact name
      (hC.names g hg) o
  refine view_of_children (fun s value => match s with
    | .key name => redactedBy (redactValue C levels) g name value
    | .index _ => value) id rfl (fun s => ?_) fun s x hx => ?_
  · cases s with
    | key name =>
        show lookup _ name = (lookup _ name).map _
        rw [hlookup, hlookup]
        dsimp only
        have hby : ∀ value, redactedBy (redactValue C levels) g name value
            = match g.field? name with
              | none => value
              | some p =>
                  ParameterObject.shownValue C true p value := fun value => rfl
        simp only [hby]
        cases g.field? name with
        | none => exact Option.map_id'.symm
        | some p =>
            dsimp only
            rw [Option.map_map]
            rfl
    | index i => rfl
  · cases s with
    | key name => exact (redactValue_view hC levels).field hC hg name x
    | index i => cases hx

/-- The sensitive positions of an exported document, as the
validator comes to them. -/
def Exposed (C : ParameterCatalog) (g : ParameterGroupDefinition)
    (values : JsonObject) (p : JsonPath) : Prop :=
  p ∈ Secret C validator g ∧ ((Json.object values).view p).isSome = true

/-- Every sensitive position is reached, or lies below one that is, without
`items` being taken at an index that `prefixItems` covers. -/
def Unshadowed (C : ParameterCatalog) (g : ParameterGroupDefinition)
    (values : JsonObject) : Prop :=
  ∀ p, Exposed C g values p → Covers (Secret C redactor g) p

/-- The same, but for positions where the text of a redaction
stands already. -/
def UnshadowedOrHidden (C : ParameterCatalog) (g : ParameterGroupDefinition)
    (values : JsonObject) : Prop :=
  ∀ p, Exposed C g values p →
    Covers (Secret C redactor g) p
      ∨ Hidden redactedNode (Json.object values).view p

/-- The two exports of a valid object, without redaction and with it. -/
structure Exports (C : ParameterCatalog) (t : Patterns) (o : ParameterObject)
    (defaults : Bool) (plain hidden : JsonObject) : Prop where
  plain : ParameterObject.toNativeJson C t o defaults false = .ok plain
  hidden : ParameterObject.toNativeJson C t o defaults true = .ok hidden

/-- Export succeeds exactly where the object is valid, with or without
redaction. -/
theorem toNativeJson_eq_ok {o : ParameterObject} {g : ParameterGroupDefinition}
    (hg : C.group? o.group = some g) {defaults redact : Bool}
    {values : JsonObject} :
    ParameterObject.toNativeJson C t o defaults redact = .ok values
      ↔ ParameterObject.validate C t o false = .ok []
        ∧ values = g.parameters.foldl
          (ParameterObject.exportField C defaults redact)
          o.values := by
  constructor
  · intro h
    have hvalid := ParameterObject.valid_of_toNativeJson h
    unfold ParameterObject.toNativeJson at h
    rw [hvalid] at h
    simp only [bind_eq_ok, failFirst_eq_ok, group_eq_ok] at h
    obtain ⟨_, -, _, -, g', hg', h⟩ := h
    rw [hg] at hg'
    injection hg' with hg'
    injection h with h
    subst hg'
    exact ⟨hvalid, h.symm⟩
  · intro h
    unfold ParameterObject.toNativeJson
    rw [h.1]
    simp only [bind_eq_ok, failFirst_eq_ok, group_eq_ok]
    exact ⟨[], rfl, (), rfl, g, hg, congrArg Except.ok h.2.symm⟩

/-- A redacted export is the plain one with every secret place
masked, seen as a tree. -/
theorem Exports.view {o : ParameterObject} {g : ParameterGroupDefinition}
    {defaults : Bool} {plain hidden : JsonObject} (hC : Loaded C t)
    (hg : C.group? o.group = some g)
    (h : Exports C t o defaults plain hidden) : (Json.object hidden).view
      = mask redactedNode (Secret C redactor g) (Json.object plain).view := by
  rw [((toNativeJson_eq_ok hg).1 h.plain).2,
    ((toNativeJson_eq_ok hg).1 h.hidden).2]
  exact exported_view hC (ParameterCatalog.group?_some hg).1 defaults o.values

/-- Every valid object can be exported. A redacted export leaves no secret just
where no sensitive position is reached only through `items` at an index of
`prefixItems`; and where that is so for two objects, their redacted exports do
not tell secrets apart. -/
theorem redaction_leaves_no_secret {document : JsonObject}
    (hC : ParameterCatalog.fromJson t document = .ok C) {group : QString}
    {g : ParameterGroupDefinition} (hg : C.group? group = some g)
    (defaults : Bool) :
    (∀ o : ParameterObject, o.group = group →
      ParameterObject.validate C t o false = .ok [] →
      ∃ plain hidden, Exports C t o defaults plain hidden
        ∧ ((∀ p, Exposed C g plain p →
          Hidden redactedNode (Json.object hidden).view p)
          ↔ UnshadowedOrHidden C g plain))
    ∧ ∀ (o o' : ParameterObject) (plain hidden plain' hidden' : JsonObject),
      o.group = group → o'.group = group →
      Exports C t o defaults plain hidden →
      Exports C t o' defaults plain' hidden' →
      Unshadowed C g plain → Unshadowed C g plain' →
      mask redactedNode (Secret C validator g) (Json.object plain).view
        = mask redactedNode (Secret C validator g) (Json.object plain').view →
      (Json.object hidden).view = (Json.object hidden').view := by
  have hloaded := ParameterCatalog.fromJson_loaded hC
  refine ⟨fun o ho hvalid => ?_, ?_⟩
  · subst ho
    have hexports : Exports C t o defaults
        (g.parameters.foldl (ParameterObject.exportField C defaults false)
          o.values)
        (g.parameters.foldl (ParameterObject.exportField C defaults true)
          o.values) :=
      ⟨(toNativeJson_eq_ok hg).2 ⟨hvalid, rfl⟩, (toNativeJson_eq_ok hg).2
        ⟨hvalid, rfl⟩⟩
    refine ⟨_, _, hexports, ?_⟩
    rw [hexports.view hloaded hg]
    unfold UnshadowedOrHidden
    exact forall_congr' fun p => forall_congr' fun hp =>
      hidden_mask isTree_view hp.2
  · intro o o' plain hidden plain' hidden' ho ho' hexports hexports' hcovers
      hcovers' hsame
    subst ho
    have htree : ∀ values : JsonObject, IsTree (Json.object values).view :=
      fun values => isTree_view
    have hleft := mask_of_covered (b := redactedNode)
      (T := Secret C validator g)
      (htree plain) fun p hp hsome => hcovers p ⟨hp, hsome⟩
    have hright := mask_of_covered (b := redactedNode)
      (T := Secret C validator g)
      (htree plain') fun p hp hsome => hcovers' p ⟨hp, hsome⟩
    rw [hexports.view hloaded hg, hexports'.view hloaded
      (ho' ▸ hg), ← hleft, ← hright, hsame]

namespace Sample

/-- A token. -/
def tokenField : ParameterDefinition where
  name := qs "token"
  nativeType := qs "str"
  schema := [(qs "type", .string (qs "string"))]
  sensitive := true

/-- Rows of vaults, whose first may be anything. -/
def rowsField : ParameterDefinition where
  name := qs "rows"
  nativeType := qs "list"
  schema :=
    [(qs "items", .object [(qs "ref", .string (qs "vault"))]),
     (qs "prefixItems", .array [.object []])]

/-- The definition of a field, in a document. -/
def definition (p : ParameterDefinition) : Json :=
  .object
    [(qs "description", .string (qs "A value.")),
     (qs "name", .string p.name),
     (qs "native_type", .string p.nativeType),
     (qs "schema", .object p.schema),
     (qs "sensitive", .bool p.sensitive)]

def vault : ParameterGroupDefinition := ⟨qs "vault", [tokenField]⟩

def shelf : ParameterGroupDefinition := ⟨qs "shelf", [rowsField]⟩

/-- Vaults, of which none may be anything else. -/
def vaultsField : ParameterDefinition where
  name := qs "vaults"
  nativeType := qs "list"
  schema := [(qs "items", .object [(qs "ref", .string (qs "vault"))])]

def rack : ParameterGroupDefinition := ⟨qs "rack", [vaultsField]⟩

def groupDocument (g : ParameterGroupDefinition) : Json :=
  .object
    [(qs "id", .string g.id),
     (qs "parameters", .array (g.parameters.map definition)),
     (qs "phase", .string (qs "serving"))]

def vaultDocument : JsonObject :=
  [(qs "groups", .array
    [groupDocument vault, groupDocument shelf, groupDocument rack]),
   (qs "schema_version", jsonInt 1)]

def vaultCatalog : ParameterCatalog := ⟨[rack, shelf, vault]⟩

def token : JsonObject := [(qs "token", .string (qs "s3cret"))]

/-- One row, which is the first. -/
def rows : JsonObject := [(qs "rows", .array [.object token])]

/-- Two vaults, the second of which has a token. -/
def twoVaults : JsonObject :=
  [(qs "vaults", .array [.object [], .object token])]

end Sample

theorem vault_loaded :
    ParameterCatalog.fromJson Sample.patterns Sample.vaultDocument
    = .ok Sample.vaultCatalog := by
  rfl

/-- Without `anyOf`, a schema makes nothing of the value itself secret. -/
theorem whole_not_sensitive {schema : JsonObject} {n : Nat}
    (hany : lookup schema (qs "anyOf") = none) :
    ¬ Sensitive C validator n schema [] := by
  cases n with
  | zero => exact fun h => h.1
  | succ n =>
      rintro (⟨branch, hbranch, -⟩ | hinside)
      · rw [hany] at hbranch
        cases hbranch
      · exact hinside

namespace Sample

/-- Below the second vault, there is only its token. -/
theorem token_only {p : JsonPath} (hp : p ≠ [])
    (h : ((Json.object token).view p).isSome = true) :
    p = [.key (qs "token")] := by
  cases p with
  | nil => exact absurd rfl hp
  | cons s p =>
      cases s with
      | index i => exact absurd h Bool.false_ne_true
      | key name =>
          change ((lookup token name).bind fun v =>
            v.view p).isSome = true at h
          unfold token at h
          rw [lookup_cons] at h
          split_ifs at h with hname
          · cases p with
            | nil => rw [← hname]
            | cons s p => exact absurd h Bool.false_ne_true
          · exact absurd h Bool.false_ne_true

/-- The token of the second vault is all that is sensitive. -/
theorem twoVaults_exposed {p : JsonPath}
    (h : Exposed vaultCatalog rack twoVaults p) :
    p = [.key (qs "vaults"), .index 1, .key (qs "token")] := by
  obtain ⟨hsecret, hsome⟩ := h
  obtain _ | ⟨_ | _, p⟩ := p
  · exact hsecret.elim
  · obtain ⟨field, hfield, hsensitive⟩ := hsecret
    obtain ⟨hmem, rfl⟩ := ParameterGroupDefinition.field?_some hfield
    obtain rfl := List.mem_singleton.1 hmem
    replace hsensitive := hsensitive.resolve_left Bool.false_ne_true
    obtain _ | ⟨_ | i, p⟩ := p
    · exact absurd hsensitive (whole_not_sensitive rfl)
    · exact absurd hsome Bool.false_ne_true
    · have hbelow : p ≠ [] := by
        rintro rfl
        rcases hsensitive with ⟨branch, hbranch, -⟩ | ⟨-, -, -,
          hitem⟩ | ⟨item, hitem, -⟩
        · cases hbranch
        · exact whole_not_sensitive rfl hitem
        · cases hitem
      obtain _ | _ | i := i
      · obtain ⟨s, p, rfl⟩ := List.exists_cons_of_ne_nil hbelow
        cases s with
        | key name => exact absurd hsome Bool.false_ne_true
        | index i => exact absurd hsome Bool.false_ne_true
      · exact congrArg _ (congrArg _ (token_only hbelow hsome))
      · exact absurd hsome Bool.false_ne_true
  · exact hsecret.elim

end Sample

/-- A vault among others is exported without its token. -/
theorem redaction_leaves_no_secret_vault :
    ∃ plain hidden, Exports Sample.vaultCatalog Sample.patterns
        ⟨qs "rack", Sample.twoVaults⟩ true plain hidden
      ∧ ∀ p, Exposed Sample.vaultCatalog Sample.rack plain p →
        Hidden redactedNode (Json.object hidden).view p := by
  have hgroup : Sample.vaultCatalog.group? (qs "rack")
    = some Sample.rack := rfl
  obtain ⟨plain, hidden, hexports, hiff⟩ :=
    (redaction_leaves_no_secret vault_loaded hgroup true).1
      ⟨qs "rack", Sample.twoVaults⟩ rfl (by rfl)
  refine ⟨plain, hidden, hexports, hiff.2 fun p hp => Or.inl ?_⟩
  have hplain : plain = Sample.twoVaults :=
    ((toNativeJson_eq_ok (g := Sample.rack) hgroup).1 hexports.plain).2
  rw [hplain] at hp
  rw [Sample.twoVaults_exposed hp]
  refine ⟨_, ?_, List.prefix_rfl⟩
  refine ⟨Sample.vaultsField, rfl,
    Or.inr (Or.inr (Or.inl ⟨Nat.zero_le _, rfl, ?_, ?_⟩))⟩
  · exact List.cons_ne_nil _ _
  · exact Or.inr (Or.inl ⟨Sample.vault, rfl, Sample.tokenField,
      rfl, Or.inl rfl⟩)

/-- A vault in the first row is exported with its token. -/
theorem first_row_exposed :
    ¬ ∀ (C : ParameterCatalog) (t : Patterns) (document : JsonObject)
      (g : ParameterGroupDefinition) (o : ParameterObject) (defaults : Bool)
      (plain hidden : JsonObject), ParameterCatalog.fromJson t document
        = .ok C →
      C.group? o.group = some g →
      ParameterObject.validate C t o false = .ok [] →
      Exports C t o defaults plain hidden →
      ∀ p, Exposed C g plain p →
      Hidden redactedNode (Json.object hidden).view p := by
  intro hall
  have hexposed : Exposed Sample.vaultCatalog Sample.shelf Sample.rows
      [.key (qs "rows"), .index 0, .key (qs "token")] := by
    refine ⟨⟨Sample.rowsField, rfl,
      Or.inr (Or.inr (Or.inl ⟨trivial, rfl, ?_, ?_⟩))⟩, rfl⟩
    · exact List.cons_ne_nil _ _
    · exact Or.inr (Or.inl ⟨Sample.vault, rfl, Sample.tokenField,
        rfl, Or.inl rfl⟩)
  obtain ⟨q, hle, hq⟩ :=
    hall Sample.vaultCatalog Sample.patterns Sample.vaultDocument
    Sample.shelf ⟨qs "shelf", Sample.rows⟩ false Sample.rows Sample.rows
      vault_loaded rfl
    (by rfl) ⟨by rfl, by rfl⟩ _ hexposed
  simp only [List.prefix_cons_iff, List.prefix_nil] at hle
  rcases hle with rfl | ⟨_, rfl, rfl | ⟨_, rfl, rfl | ⟨_, rfl, rfl⟩⟩⟩
  all_goals
    injection hq with hq
  · cases hq
  · cases hq
  · cases hq
  · injection hq with hq
    exact absurd hq (by decide)

end LocalLLM
