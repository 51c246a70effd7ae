/-
What a catalog is once it was read from a document.

`fromJson` rejects ids and names that are empty or used twice, and schemas
that `checkSchema` refuses; `Loaded` states what is left. A schema passes
together with all the schemas in it (`checkSchema_inside`), so everything
the validator reaches from a field, through groups too, was checked.
-/
import LocalLLM.Lib.Exec
import LocalLLM.Lib.Maps
import LocalLLM.Core.ParameterObject
import LocalLLM.Core.Objects

namespace LocalLLM

open Json

variable {C : ParameterCatalog} {t : Patterns}

@[simp] theorem orFail_eq_ok {condition : Prop} [Decidable condition]
    {message : QString} {u : Unit} :
    orFail condition message = .ok u ↔ condition := by
  unfold orFail fail
  by_cases h : condition <;> simp [h]

@[simp] theorem fail_ne_ok {α : Type} {message : QString} {a : α} :
    ¬ (fail message : Except Exn α) = .ok a := by
  unfold fail
  simp

/-- A loop of checks passes exactly when every check does. -/
theorem each_eq_ok {α : Type} {check : α → Except Exn Unit}
    {l : List α} {u : Unit} :
    each check l = .ok u ↔ ∀ a ∈ l, check a = .ok () := by
  induction l with
  | nil => simp [each]
  | cons a rest ih =>
      rw [each, List.forall_mem_cons, ← ih, bind_eq_ok]
      constructor
      · rintro ⟨_, ha, hrest⟩
        exact ⟨ha, hrest⟩
      · rintro ⟨ha, hrest⟩
        exact ⟨(), ha, hrest⟩

-- ================================================================ definitions

/-- A field is found under its own name and belongs to the group. -/
theorem ParameterGroupDefinition.field?_some {g : ParameterGroupDefinition}
    {name : QString} {p : ParameterDefinition} (h : g.field? name = some p) :
    p ∈ g.parameters ∧ p.name = name :=
  ⟨List.mem_of_find?_eq_some h, by simpa using List.find?_some h⟩

/-- A field is found by its name. -/
theorem ParameterGroupDefinition.field?_name {g : ParameterGroupDefinition}
    (hnames : (g.parameters.map ParameterDefinition.name).Nodup)
    {p : ParameterDefinition} (hp : p ∈ g.parameters) :
    g.field? p.name = some p :=
  (Maps.find?_key fun _ hq _ hq' => List.inj_on_of_nodup_map hnames hq hq').2
    ⟨hp, rfl⟩

/-- The same for a group of the catalog. -/
theorem ParameterCatalog.group?_some {id : QString}
    {g : ParameterGroupDefinition}
    (h : C.group? id = some g) : g ∈ C.groups ∧ g.id = id :=
  ⟨List.mem_of_find?_eq_some h, by simpa using List.find?_some h⟩

-- ==================================================================== schemas

/-- A schema that passed some check of its nesting. -/
def Checked (C : ParameterCatalog) (t : Patterns) (schema : JsonObject) :
    Prop :=
  ∃ n, checkSchema C t n schema = .ok ()

/-- What a keyword of a checked schema is. -/
theorem Checked.keyword {schema : JsonObject} (h : Checked C t schema) :
    ∃ child, (∀ s, child s = .ok () → Checked C t s)
      ∧ ∀ m ∈ schema, checkKeyword C t child m = .ok () := by
  obtain ⟨n, hn⟩ := h
  cases n with
  | zero => exact absurd hn fail_ne_ok
  | succ n => exact ⟨checkSchema C t n, fun s hs => ⟨n, hs⟩, each_eq_ok.1 hn⟩

/-- The checks of a keyword, one by one. -/
theorem checkKeyword_ok {child : JsonObject → Except Exn Unit} {key : QString}
    {value : Json} (h : checkKeyword C t child (key, value) = .ok ()) :
    (∃ u, checkAlternatives child key value = .ok u)
      ∧ (∃ u, checkItems child key value = .ok u)
      ∧ (∃ u, checkProperties child key value = .ok u)
      ∧ (∃ u, checkBound key value = .ok u)
      ∧ ∃ u, checkPattern t key value = .ok u := by
  unfold checkKeyword at h
  obtain ⟨_, -, h⟩ := bind_eq_ok.1 h
  obtain ⟨_, -, h⟩ := bind_eq_ok.1 h
  obtain ⟨_, -, h⟩ := bind_eq_ok.1 h
  obtain ⟨_, -, h⟩ := bind_eq_ok.1 h
  obtain ⟨_, -, h⟩ := bind_eq_ok.1 h
  obtain ⟨_, halternatives, h⟩ := bind_eq_ok.1 h
  obtain ⟨_, hitems, h⟩ := bind_eq_ok.1 h
  obtain ⟨_, hproperties, h⟩ := bind_eq_ok.1 h
  obtain ⟨_, -, h⟩ := bind_eq_ok.1 h
  obtain ⟨_, hpattern, h⟩ := bind_eq_ok.1 h
  exact ⟨⟨_, halternatives⟩, ⟨_, hitems⟩, ⟨_, hproperties⟩,
    ⟨_, h⟩, _, hpattern⟩

/-- The loader has descended into every alternative and every
positional item. -/
theorem Checked.alternative {schema : JsonObject} (h : Checked C t schema)
    {key : QString} (hkey : key = qs "anyOf" ∨ key = qs "prefixItems")
    {item : Json} (hitem : item ∈ toArray (lookup schema key)) :
    Checked C t (toObject (some item)) := by
  obtain ⟨child, hchild, hall⟩ := h.keyword
  cases hv : lookup schema key with
  | none =>
      rw [hv] at hitem
      cases hitem
  | some v =>
      rw [hv] at hitem
      obtain ⟨⟨_, halternatives⟩, -⟩ :=
        checkKeyword_ok (hall _ (mem_of_lookup hv))
      unfold checkAlternatives at halternatives
      rw [if_pos hkey] at halternatives
      obtain ⟨_, -, hitems⟩ := bind_eq_ok.1 halternatives
      obtain ⟨_, -, hitem⟩ := bind_eq_ok.1 (each_eq_ok.1 hitems item hitem)
      exact hchild _ hitem

/-- It has descended into the schemas for items and for further members. -/
theorem Checked.items {schema : JsonObject} (h : Checked C t schema)
    {key : QString} (hkey : key = qs "items" ∨ key = qs "additionalProperties")
    (hobject : isObject (lookup schema key) = true) :
    Checked C t (toObject (lookup schema key)) := by
  obtain ⟨child, hchild, hall⟩ := h.keyword
  cases hv : lookup schema key with
  | none =>
      rw [hv] at hobject
      cases hobject
  | some v =>
      rw [hv] at hobject
      obtain ⟨-, ⟨_, hitems⟩, -⟩ := checkKeyword_ok (hall _ (mem_of_lookup hv))
      unfold checkItems at hitems
      rw [if_pos hkey, if_pos hobject] at hitems
      exact hchild _ hitems

/-- What is under `properties` was checked to be an object, and as a schema. -/
theorem Checked.property_checked {schema : JsonObject} (h : Checked C t schema)
    {key : QString}
    (hkey : contains (toObject (lookup schema (qs "properties"))) key = true) :
    isObject (lookup (toObject (lookup schema (qs "properties"))) key) = true
      ∧ Checked C t
        (toObject
          (lookup (toObject (lookup schema (qs "properties"))) key)) := by
  obtain ⟨child, hchild, hall⟩ := h.keyword
  cases hv : lookup schema (qs "properties") with
  | none =>
      rw [hv] at hkey
      cases hkey
  | some v =>
      rw [hv, contains_eq] at hkey
      obtain ⟨property, hproperty⟩ := Option.isSome_iff_exists.1 hkey
      obtain ⟨-, -, ⟨_, hproperties⟩, -⟩ :=
        checkKeyword_ok (hall _ (mem_of_lookup hv))
      unfold checkProperties at hproperties
      rw [if_pos rfl] at hproperties
      obtain ⟨_, -, hmembers⟩ := bind_eq_ok.1 hproperties
      obtain ⟨_, hobject, hmember⟩ := bind_eq_ok.1
        (each_eq_ok.1 hmembers _ (mem_of_lookup hproperty))
      rw [hproperty]
      exact ⟨orFail_eq_ok.1 hobject, hchild _ hmember⟩

/-- And into every property, which is what lets the recursion below
rely on its checks. -/
theorem Checked.property {schema : JsonObject} (h : Checked C t schema)
    {key : QString}
    (hkey : contains (toObject (lookup schema (qs "properties"))) key = true) :
    Checked C t
      (toObject (lookup (toObject (lookup schema (qs "properties"))) key)) :=
  (h.property_checked hkey).2

/-- A bound of a size that was checked is a whole number. -/
theorem Checked.size {schema : JsonObject} (h : Checked C t schema)
    {key : QString}
    (hbound : isBound key = true) (hsize : isSize key = true) {v : Json}
    (hv : lookup schema key = some v) : isNatural v = true := by
  obtain ⟨child, -, hall⟩ := h.keyword
  obtain ⟨-, -, -, ⟨_, hcheck⟩, -⟩ :=
    checkKeyword_ok (hall _ (mem_of_lookup hv))
  unfold checkBound at hcheck
  rw [if_pos hbound] at hcheck
  obtain ⟨_, -, hnatural⟩ := bind_eq_ok.1 hcheck
  exact orFail_eq_ok.1 hnatural hsize

/-- The pattern of a checked schema is valid. -/
theorem Checked.pattern {schema : JsonObject} (h : Checked C t schema)
    (hcontains : contains schema (qs "pattern") = true) :
    t.isValid (keywordText schema "pattern") = true := by
  obtain ⟨child, -, hall⟩ := h.keyword
  rw [contains_eq] at hcontains
  obtain ⟨v, hv⟩ := Option.isSome_iff_exists.1 hcontains
  obtain ⟨-, -, -, -, _, hcheck⟩ := checkKeyword_ok (hall _ (mem_of_lookup hv))
  unfold checkPattern at hcheck
  rw [if_pos rfl] at hcheck
  obtain ⟨_, -, hvalid⟩ := bind_eq_ok.1 hcheck
  unfold keywordText
  rw [hv]
  exact orFail_eq_ok.1 hvalid

-- =================================================================== catalogs

/-- A catalog that was read from a document. -/
structure Loaded (C : ParameterCatalog) (t : Patterns) : Prop where
  ids : (C.groups.map ParameterGroupDefinition.id).Nodup
  named : ∀ g ∈ C.groups, g.id ≠ []
  names : ∀ g ∈ C.groups, (g.parameters.map ParameterDefinition.name).Nodup
  schemas : ∀ g ∈ C.groups, ∀ p ∈ g.parameters,
    checkSchema C t levels p.schema = .ok ()

/-- The groups read so far. -/
structure Indexed (C : ParameterCatalog) : Prop where
  ids : (C.groups.map ParameterGroupDefinition.id).Nodup
  named : ∀ g ∈ C.groups, g.id ≠ []
  names : ∀ g ∈ C.groups, (g.parameters.map ParameterDefinition.name).Nodup

/-- A group is added to the others, wherever it is put. -/
theorem insert_perm (C : ParameterCatalog) (g : ParameterGroupDefinition) :
    (C.insert g).groups.Perm (g :: C.groups) := by
  have hsplit := List.takeWhile_append_dropWhile
    (p := fun h : ParameterGroupDefinition => compare h.id g.id == .lt)
    (l := C.groups)
  unfold ParameterCatalog.insert
  refine List.perm_middle.trans ?_
  rw [hsplit]

/-- Adding a group of a new id keeps ids and names distinct. -/
theorem Indexed.insert {g : ParameterGroupDefinition} (h : Indexed C)
    (hnamed : g.id ≠ []) (hid : C.contains g.id = false)
    (hnames : (g.parameters.map ParameterDefinition.name).Nodup) :
    Indexed (C.insert g) := by
  have hperm := insert_perm C g
  refine ⟨(hperm.map _).nodup_iff.2 ?_, fun g' hg' => ?_, fun g' hg' => ?_⟩
  · rw [List.map_cons, List.nodup_cons]
    refine ⟨fun hmem => ?_, h.ids⟩
    obtain ⟨g', hg', heq⟩ := List.mem_map.1 hmem
    unfold ParameterCatalog.contains ParameterCatalog.group? at hid
    rw [Option.isSome_eq_false_iff, Option.isNone_iff_eq_none,
      List.find?_eq_none] at hid
    exact hid g' hg' (beq_iff_eq.2 heq)
  · rcases List.mem_cons.1 (hperm.mem_iff.1 hg') with rfl | hg'
    · exact hnamed
    · exact h.named g' hg'
  · rcases List.mem_cons.1 (hperm.mem_iff.1 hg') with rfl | hg'
    · exact hnames
    · exact h.names g' hg'

namespace ParameterCatalog

/-- A field is refused when its name was used before in the group. -/
theorem parseField_ok {id : QString} {names : List QString} {field : Json}
    {p : ParameterDefinition} (h : parseField id names field = .ok p) :
    p.name ∉ names := by
  unfold parseField at h
  obtain ⟨_, -, h⟩ := bind_eq_ok.1 h
  obtain ⟨_, hnames, h⟩ := bind_eq_ok.1 h
  injection h with h
  rw [← h]
  exact (orFail_eq_ok.1 hnames).2.1

/-- The names of a group are distinct, and differ from those before them. -/
theorem parseFields_ok {id : QString} {fields : List Json} :
    ∀ {names : List QString} {parameters : List ParameterDefinition},
    parseFields id names fields = .ok parameters →
    (parameters.map ParameterDefinition.name).Nodup
      ∧ ∀ p ∈ parameters, p.name ∉ names := by
  induction fields with
  | nil =>
      intro names parameters h
      injection h with h
      rw [← h]
      exact ⟨List.nodup_nil, List.forall_mem_nil _⟩
  | cons field rest ih =>
      intro names parameters h
      obtain ⟨p, hp, h⟩ := bind_eq_ok.1 h
      obtain ⟨others, hothers, h⟩ := bind_eq_ok.1 h
      injection h with h
      obtain ⟨hnodup, hnames⟩ := ih hothers
      rw [← h, List.map_cons, List.nodup_cons, List.forall_mem_cons]
      refine ⟨⟨fun hmem => ?_, hnodup⟩, parseField_ok hp, fun q hq hmem => ?_⟩
      · obtain ⟨q, hq, hname⟩ := List.mem_map.1 hmem
        exact hnames q hq (hname ▸ List.mem_cons_self)
      · exact hnames q hq (List.mem_cons_of_mem _ hmem)

/-- So is a group whose id is empty or taken. -/
theorem parseGroup_ok {item : Json} {g : ParameterGroupDefinition}
    (h : parseGroup C item = .ok g) :
    g.id ≠ [] ∧ C.contains g.id = false
      ∧ (g.parameters.map ParameterDefinition.name).Nodup := by
  unfold parseGroup at h
  obtain ⟨_, -, h⟩ := bind_eq_ok.1 h
  obtain ⟨_, -, h⟩ := bind_eq_ok.1 h
  obtain ⟨_, hid, h⟩ := bind_eq_ok.1 h
  obtain ⟨parameters, hparameters, h⟩ := bind_eq_ok.1 h
  injection h with h
  rw [← h]
  obtain ⟨hnamed, hid, -⟩ := orFail_eq_ok.1 hid
  exact ⟨hnamed, hid, (parseFields_ok hparameters).1⟩

/-- By induction over the document, a loaded catalog has distinct ids, and
distinct names in each group. -/
theorem parseGroups_ok {items : List Json} :
    ∀ {C D : ParameterCatalog}, Indexed C → parseGroups C items = .ok D →
    Indexed D := by
  induction items with
  | nil =>
      intro C D hC h
      injection h with h
      exact h ▸ hC
  | cons item rest ih =>
      intro C D hC h
      obtain ⟨g, hg, h⟩ := bind_eq_ok.1 h
      obtain ⟨hnamed, hid, hnames⟩ := parseGroup_ok hg
      exact ih (hC.insert hnamed hid hnames) h

/-- What `fromJson` accepts. -/
theorem fromJson_loaded {document : JsonObject}
    (h : ParameterCatalog.fromJson t document = .ok C) : Loaded C t := by
  unfold ParameterCatalog.fromJson at h
  obtain ⟨_, -, h⟩ := bind_eq_ok.1 h
  obtain ⟨D, hD, h⟩ := bind_eq_ok.1 h
  obtain ⟨_, hschemas, h⟩ := bind_eq_ok.1 h
  injection h with h
  subst h
  have hempty : Indexed {} :=
    ⟨List.nodup_nil, List.forall_mem_nil _, List.forall_mem_nil _⟩
  have hindexed : Indexed D := parseGroups_ok hempty hD
  exact ⟨hindexed.ids, hindexed.named, hindexed.names,
    fun g hg => each_eq_ok.1 (each_eq_ok.1 hschemas g hg)⟩

end ParameterCatalog

/-- No group has the empty name. -/
theorem Loaded.group?_nil (h : Loaded C t) : C.group? [] = none := by
  cases hg : C.group? [] with
  | none => rfl
  | some g =>
      obtain ⟨hmem, hid⟩ := ParameterCatalog.group?_some hg
      exact absurd hid (h.named g hmem)

/-- The fields of a loaded catalog were checked. -/
theorem Loaded.checked (h : Loaded C t) {g : ParameterGroupDefinition}
    (hg : g ∈ C.groups) {p : ParameterDefinition} (hp : p ∈ g.parameters) :
    Checked C t p.schema := ⟨levels, h.schemas g hg p hp⟩

end LocalLLM
