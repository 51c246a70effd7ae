/-
Objects of one group, and the documents they are written to and read from.

# What a member must be

`Settable` is the whole of `validateValue`: the member names a field that is
not read-only, and the field's schema accepts the value. Setting, importing
and validating are all stated with it (`set_eq_ok`, `fromNativeJson_eq_ok`,
`validate_eq_nil`).

# What an object is

`Built` are the objects the interface can make. Their members are settable
and sorted, so that an object is determined by its lookups, and importing
what it holds gives the object again.
-/
import LocalLLM.Proofs.Schema

namespace LocalLLM

open Json

variable {C : ParameterCatalog} {t : Patterns}

-- ================================================================= one member

/-- A member that names a writable field of the group, with a value its
schema accepts. -/
def Settable (C : ParameterCatalog) (t : Patterns) (group : QString)
    (m : QString × Json) : Prop :=
  ∃ g p, C.group? group = some g ∧ g.field? m.1 = some p ∧ p.readOnly = false
    ∧ accepts C t levels p.schema m.2 = true

/-- Looking a group up fails exactly when the catalog has none of that id. -/
theorem group_eq_ok {id : QString} {g : ParameterGroupDefinition} :
    C.group id = .ok g ↔ C.group? id = some g := by
  unfold ParameterCatalog.group
  cases C.group? id with
  | none => simp
  | some g' => simp

/-- The same for a field of a group. -/
theorem parameter_eq_ok {id name : QString} {p : ParameterDefinition} :
    C.parameter id name = .ok p ↔
      ∃ g, C.group? id = some g ∧ g.field? name = some p := by
  unfold ParameterCatalog.parameter
  simp only [bind_eq_ok, group_eq_ok]
  refine exists_congr fun g => and_congr_right fun _ => ?_
  cases g.field? name with
  | none => simp
  | some q => simp

/-- Assigning fails on the first issue, so it succeeds where there is none. -/
theorem failFirst_eq_ok {text : ParameterIssue → QString}
    {issues : List ParameterIssue} {u : Unit} :
    failFirst text issues = .ok u ↔ issues = [] := by
  cases issues with
  | nil => simp [failFirst]
  | cons issue rest => simp [failFirst]

theorem validateValue_eq_nil {group name : QString} {v : Json} :
    validateValue C t group name (some v) = .ok []
      ↔ Settable C t group (name, v) := by
  unfold validateValue Settable
  simp only [bind_eq_ok, parameter_eq_ok]
  constructor
  · rintro ⟨p, ⟨g, hg, hp⟩, h⟩
    by_cases hro : p.readOnly = true
    · rw [if_pos hro] at h
      injection h with h
      cases h
    · rw [if_neg hro] at h
      by_cases haccepts : acceptsValue C t p.schema (some v) = false
      · rw [if_pos haccepts] at h
        injection h with h
        cases h
      · exact ⟨g, p, hg, hp, Bool.eq_false_iff.2 hro,
          Bool.not_eq_false _ ▸ haccepts⟩
  · rintro ⟨g, p, hg, hp, hro, haccepts⟩
    have haccepts' : acceptsValue C t p.schema (some v) = true := haccepts
    refine ⟨p, ⟨g, hg, hp⟩, ?_⟩
    rw [if_neg (by simp [hro]), if_neg (by simp [haccepts'])]
    rfl

-- ================================================================= one object

namespace ParameterObject

/-- Setting one field succeeds exactly when the value is settable, and then
changes that field only. -/
theorem set_eq_ok {o o' : ParameterObject} {field : QString} {v : Json} :
    set C t o field (some v) = .ok o' ↔ Settable C t o.group (field, v)
      ∧ o' = { o with values := insert o.values field v } := by
  unfold set
  simp only [bind_eq_ok, failFirst_eq_ok]
  constructor
  · rintro ⟨_, hissues, _, rfl, h⟩
    injection h with h
    exact ⟨validateValue_eq_nil.1 hissues, h.symm⟩
  · rintro ⟨hsettable, rfl⟩
    exact ⟨[], validateValue_eq_nil.2 hsettable, (), rfl, rfl⟩

/-- `Undefined` cannot be set. -/
theorem set_none {o o' : ParameterObject} {field : QString} :
    ¬ set C t o field none = .ok o' := by
  intro h
  unfold set at h
  obtain ⟨issues, hissues, h⟩ := bind_eq_ok.1 h
  obtain ⟨_, hnone, -⟩ := bind_eq_ok.1 h
  rw [failFirst_eq_ok] at hnone
  rw [hnone] at hissues
  unfold validateValue at hissues
  obtain ⟨p, -, h⟩ := bind_eq_ok.1 hissues
  dsimp only at h
  by_cases hro : p.readOnly = true
  · rw [if_pos hro] at h
    injection h with h
    cases h
  · have hrefused : acceptsValue C t p.schema none = false := rfl
    rw [if_neg hro, if_pos hrefused] at h
    injection h with h
    cases h

/-- Setting many fields succeeds exactly when each of them is settable, and the
last value of a name counts. -/
theorem setAll_eq_ok {values : JsonObject} :
    ∀ {o o' : ParameterObject}, setAll C t o values = .ok o' ↔
      (∀ m ∈ values, Settable C t o.group m)
        ∧ o' = ⟨o.group, values.foldl (fun object m => insert object m.1 m.2)
          o.values⟩ := by
  induction values with
  | nil =>
      intro o o'
      have hsame : o = o' ↔ o' = ⟨o.group, o.values⟩ := eq_comm
      simpa [setAll] using hsame
  | cons m rest ih =>
      intro o o'
      unfold setAll
      simp only [bind_eq_ok, set_eq_ok, ih, List.forall_mem_cons,
        List.foldl_cons]
      constructor
      · rintro ⟨_, ⟨hm, rfl⟩, hrest, rfl⟩
        exact ⟨⟨hm, hrest⟩, rfl⟩
      · rintro ⟨⟨hm, hrest⟩, rfl⟩
        exact ⟨_, ⟨hm, rfl⟩, hrest, rfl⟩

/-- A field has no issue when what is set is settable, or nothing
is missing. -/
theorem fieldIssues_eq_nil {o : ParameterObject} {required : Bool}
    {p : ParameterDefinition} :
    fieldIssues C t o required p = .ok [] ↔
      (∀ v, lookup o.values p.name = some v → Settable C t o.group (p.name, v))
      ∧ (lookup o.values p.name = none → required = true → p.required = true →
        p.hasDefault = true) := by
  unfold fieldIssues
  rw [contains_eq]
  cases hv : lookup o.values p.name with
  | some v =>
      have hset : (some v).isSome = true := rfl
      rw [if_pos hset, validateValue_eq_nil]
      simp
  | none =>
      rw [if_neg (by simp)]
      by_cases hmissing : required = true ∧ p.required = true
        ∧ p.hasDefault = false
      · rw [if_pos hmissing]
        obtain ⟨hreq, hp, hdefault⟩ := hmissing
        simp [hreq, hp, hdefault]
      · rw [if_neg hmissing]
        refine iff_of_true rfl ⟨(fun _ h => nomatch h), fun _ hreq hp => ?_⟩
        by_contra hdefault
        exact hmissing ⟨hreq, hp, Bool.eq_false_iff.2 hdefault⟩

/-- A whole object has no issue exactly when none of its fields has. -/
theorem allIssues_eq_nil {o : ParameterObject} {required : Bool}
    {parameters : List ParameterDefinition} :
    allIssues C t o required parameters = .ok [] ↔
      ∀ p ∈ parameters, fieldIssues C t o required p = .ok [] := by
  induction parameters with
  | nil => simp [allIssues]
  | cons p rest ih =>
      unfold allIssues
      rw [List.forall_mem_cons, ← ih]
      simp only [bind_eq_ok]
      constructor
      · rintro ⟨issues, hissues, others, hothers, h⟩
        injection h with h
        obtain ⟨rfl, rfl⟩ := List.append_eq_nil_iff.1 h
        exact ⟨hissues, hothers⟩
      · rintro ⟨hissues, hothers⟩
        exact ⟨[], hissues, [], hothers, rfl⟩

/-- An object without issues. -/
theorem validate_eq_nil {o : ParameterObject} {required : Bool} :
    validate C t o required = .ok [] ↔ ∃ g, C.group? o.group = some g
      ∧ (∀ p ∈ g.parameters, fieldIssues C t o required p = .ok [])
      ∧ ¬ (isTraining o.group = true ∧ bothPrecisions o.values = true) := by
  unfold validate
  simp only [bind_eq_ok, group_eq_ok]
  refine exists_congr fun g => and_congr_right fun _ => ?_
  rw [← Bool.and_eq_true, ← allIssues_eq_nil]
  constructor
  · rintro ⟨issues, hissues, h⟩
    injection h with h
    obtain ⟨rfl, hprecisions⟩ := List.append_eq_nil_iff.1 h
    refine ⟨hissues, fun hboth => ?_⟩
    rw [if_pos hboth] at hprecisions
    cases hprecisions
  · rintro ⟨hissues, hboth⟩
    refine ⟨[], hissues, ?_⟩
    rw [if_neg hboth]
    rfl

/-- What is imported: settable members that do not turn on both precisions. -/
theorem fromNativeJson_eq_ok {group : QString} {values : JsonObject}
    {o : ParameterObject} :
    fromNativeJson C t group values = .ok o ↔ (C.group? group).isSome = true
      ∧ (∀ m ∈ values, Settable C t group m)
      ∧ ¬ (isTraining group = true ∧ bothPrecisions (ofMembers values) = true)
      ∧ o = { group, values := ofMembers values } := by
  have hissues : ∀ g, (∀ m ∈ values, Settable C t group m) →
      ∀ p ∈ ParameterGroupDefinition.parameters g,
        fieldIssues C t { group, values := ofMembers values } false p
          = .ok [] := by
    intro g hsettable p _
    refine fieldIssues_eq_nil.2 ⟨fun v hv => ?_, (fun _ h => nomatch h)⟩
    exact hsettable _ (mem_ofMembers (mem_of_lookup hv))
  unfold fromNativeJson create
  simp only [bind_eq_ok, group_eq_ok, setAll_eq_ok, failFirst_eq_ok]
  constructor
  · rintro ⟨_, ⟨g, hg, h⟩, _, ⟨hsettable, rfl⟩, _, hvalidate, _, rfl, h'⟩
    injection h with h
    injection h' with h'
    subst h
    obtain ⟨g', -, -, hprecisions⟩ := validate_eq_nil.1 hvalidate
    exact ⟨by rw [hg]; rfl, hsettable, hprecisions, h'.symm⟩
  · rintro ⟨hgroup, hsettable, hprecisions, rfl⟩
    obtain ⟨g, hg⟩ := Option.isSome_iff_exists.1 hgroup
    refine ⟨{ group }, ⟨g, hg, rfl⟩, _, ⟨hsettable, rfl⟩, [], ?_, (), rfl, rfl⟩
    exact validate_eq_nil.2 ⟨g, hg, hissues g hsettable, hprecisions⟩

end ParameterObject

-- ============================================================== what is built

/-- The objects the interface makes. -/
inductive Built (C : ParameterCatalog) (t : Patterns) : ParameterObject → Prop
  | create {group : QString} {o : ParameterObject} :
      ParameterObject.create C group = .ok o → Built C t o
  | set {o o' : ParameterObject} {field : QString} {v : Option Json} :
      Built C t o → ParameterObject.set C t o field v = .ok o' → Built C t o'
  | setNumber {o o' : ParameterObject} {field : QString} {x : Double} :
      Built C t o → ParameterObject.setNumber C t o field x = .ok o' →
      Built C t o'
  | unset {o o' : ParameterObject} {field : QString} :
      Built C t o → ParameterObject.unset C o field = .ok o' → Built C t o'

/-- What holds of an object: its group exists, and its members are settable
and in order. -/
structure Coherent (C : ParameterCatalog) (t : Patterns)
    (o : ParameterObject) : Prop where
  group : (C.group? o.group).isSome = true
  settable : ∀ m ∈ o.values, Settable C t o.group m
  sorted : Sorted o.values

namespace Coherent

/-- An object that was just created is coherent: it has a group of the catalog
and no values. -/
theorem create {group : QString} {o : ParameterObject}
    (h : ParameterObject.create C group = .ok o) : Coherent C t o := by
  unfold ParameterObject.create at h
  obtain ⟨g, hg, h⟩ := bind_eq_ok.1 h
  injection h with h
  rw [← h]
  have hgroup : (C.group? group).isSome = true := by
    rw [group_eq_ok.1 hg]
    rfl
  exact ⟨hgroup, List.forall_mem_nil _, sorted_nil⟩

/-- Setting keeps it coherent, since only settable values are stored. -/
theorem set {o o' : ParameterObject} {field : QString} {v : Option Json}
    (ho : Coherent C t o) (h : ParameterObject.set C t o field v = .ok o') :
    Coherent C t o' := by
  cases v with
  | none => exact absurd h ParameterObject.set_none
  | some v =>
      obtain ⟨hsettable, rfl⟩ := ParameterObject.set_eq_ok.1 h
      refine ⟨ho.group, fun m hm => ?_, ho.sorted.insert field v⟩
      rcases mem_insert hm with rfl | hm
      · exact hsettable
      · exact ho.settable m hm

/-- So does taking a value out. -/
theorem unset {o o' : ParameterObject} {field : QString} (ho : Coherent C t o)
    (h : ParameterObject.unset C o field = .ok o') : Coherent C t o' := by
  unfold ParameterObject.unset at h
  obtain ⟨p, -, h⟩ := bind_eq_ok.1 h
  injection h with h
  rw [← h]
  exact ⟨ho.group, fun m hm => ho.settable m (List.mem_filter.1 hm).1,
    ho.sorted.filter _⟩

/-- The importer finds nothing to refuse, but for the two precisions. -/
theorem imported {o : ParameterObject} (ho : Coherent C t o)
    (hvalid : ParameterObject.validate C t o false = .ok []) :
    ParameterObject.fromNativeJson C t o.group o.values = .ok o := by
  obtain ⟨g, -, -, hprecisions⟩ := ParameterObject.validate_eq_nil.1 hvalid
  rw [ParameterObject.fromNativeJson_eq_ok, ho.sorted.ofMembers_self]
  exact ⟨ho.group, ho.settable, hprecisions, rfl⟩

end Coherent

/-- Every operation keeps what holds of an object. -/
theorem Built.coherent {o : ParameterObject} (h : Built C t o) :
    Coherent C t o := by
  induction h with
  | create h => exact .create h
  | set _ h ih => exact ih.set h
  | setNumber _ h ih =>
      unfold ParameterObject.setNumber at h
      obtain ⟨_, -, h⟩ := bind_eq_ok.1 h
      exact ih.set h
  | unset _ h ih => exact ih.unset h

-- ==================================================== nested in another group

/-- The schema that refers to a group. -/
def refSchema (group : QString) : JsonObject := [(qs "ref", .string group)]

/-- The members are settable, and no field is left out that a nested object
must have. -/
def Filled (C : ParameterCatalog) (t : Patterns) (g : ParameterGroupDefinition)
    (group : QString) (values : JsonObject) : Prop :=
  (∀ m ∈ values, Settable C t group m)
    ∧ ∀ p ∈ g.required, contains values p.name = true

/-- A field that is required and can never be given. -/
def Unfillable (g : ParameterGroupDefinition) : Prop :=
  ∃ p ∈ g.parameters, p.required = true ∧ p.readOnly = true
    ∧ p.hasDefault = false

/-- A reference asks for the fields of its group, and for nothing else. -/
theorem accepts_refSchema {group : QString} {g : ParameterGroupDefinition}
    (hg : C.group? group = some g) (n : Nat) (values : JsonObject) :
    accepts C t (n + 1) (refSchema group) (.object values)
      = acceptsGroup (accepts C t n) g values := by
  have hmembers : values.all (acceptsMember (accepts C t n) (refSchema group))
      = true :=
    List.all_eq_true.2 fun _ _ => rfl
  have hobject : acceptsObject C (accepts C t n) (refSchema group) values
      = acceptsGroup (accepts C t n) g values := by
    rw [acceptsObject_of_group hg, hmembers]
    rfl
  show (true && (true && (true && true && (true && (false
    || acceptsObject C (accepts C t n) (refSchema group) values)) && true)) :
      Bool) = _
  rw [hobject]
  simp

/-- What a nested schema asks of a referenced group is what the group asks of
its own object. -/
theorem acceptsGroup_iff_filled {group : QString}
    {g : ParameterGroupDefinition}
    (hg : C.group? group = some g) (values : JsonObject) :
    acceptsGroup (accepts C t levels) g values = true
      ↔ Filled C t g group values := by
  unfold acceptsGroup Filled
  rw [Bool.and_eq_true, List.all_eq_true, List.all_eq_true, and_comm]
  refine and_congr_left fun _ => forall₂_congr fun m _ => ?_
  unfold Settable
  rw [hg]
  cases hp : g.field? m.1 with
  | none => simp [hp]
  | some p => simp [hp]

/-- Importing and asking for the required fields is the same as being filled,
so an object of a group and a nested value are held to the same. -/
theorem imported_iff_filled (hC : Loaded C t) {group : QString}
    {g : ParameterGroupDefinition} (hg : C.group? group = some g)
    (htraining : ParameterObject.isTraining group = false)
    (values : JsonObject) :
    (∃ o, ParameterObject.fromNativeJson C t group values = .ok o
      ∧ ParameterObject.validate C t o true = .ok [])
    ↔ Filled C t g group values ∧ ¬ Unfillable g := by
  have hnames := hC.names g (ParameterCatalog.group?_some hg).1
  simp only [ParameterObject.fromNativeJson_eq_ok,
    ParameterObject.validate_eq_nil,
    ParameterObject.fieldIssues_eq_nil]
  constructor
  · rintro ⟨o, ⟨-, hsettable, -, rfl⟩, g', hg', hfields, -⟩
    obtain rfl : g = g' := Option.some.inj (hg.symm.trans hg')
    have hgiven : ∀ p ∈ g.parameters, p.required = true →
      p.hasDefault = false →
        contains values p.name = true := by
      intro p hp hrequired hdefault
      rw [← contains_ofMembers, contains_eq]
      by_contra hnone
      have hnone := Option.not_isSome_iff_eq_none.1 hnone
      rw [(hfields p hp).2 hnone trivial hrequired] at hdefault
      cases hdefault
    refine ⟨⟨hsettable, fun p hp => ?_⟩, ?_⟩
    · unfold ParameterGroupDefinition.required at hp
      obtain ⟨hp, hflags⟩ := List.mem_filter.1 hp
      simp only [Bool.and_eq_true, Bool.not_eq_true'] at hflags
      exact hgiven p hp hflags.1.1 hflags.1.2
    · rintro ⟨p, hp, hrequired, hro, hdefault⟩
      have hgiven := hgiven p hp hrequired hdefault
      unfold contains at hgiven
      obtain ⟨m, hm, hname⟩ := List.any_eq_true.1 hgiven
      obtain ⟨g', q, hg', hq, hwritable, -⟩ := hsettable m hm
      obtain rfl : g = g' := Option.some.inj (hg.symm.trans hg')
      rw [beq_iff_eq.1 hname,
        ParameterGroupDefinition.field?_name hnames hp] at hq
      obtain rfl : p = q := Option.some.inj hq
      rw [hro] at hwritable
      cases hwritable
  · rintro ⟨⟨hsettable, hrequired⟩, hfillable⟩
    have hgroup : (C.group? group).isSome = true := by
      rw [hg]
      rfl
    refine ⟨_, ⟨hgroup, hsettable, ?_, rfl⟩, g, hg, fun p hp =>
      ⟨fun v hv => ?_, ?_⟩, ?_⟩
    · rw [htraining]
      exact fun h => nomatch h.1
    · exact hsettable _ (mem_ofMembers (mem_of_lookup hv))
    · intro hnone _ hreq
      by_contra hdefault
      have hdefault := Bool.eq_false_iff.2 hdefault
      have hwritable : p.readOnly = false := by
        by_contra hro
        exact hfillable ⟨p, hp, hreq, by simpa using hro, hdefault⟩
      have hindex : p ∈ g.required := by
        unfold ParameterGroupDefinition.required
        rw [List.mem_filter, hreq, hdefault, hwritable]
        exact ⟨hp, rfl⟩
      have hgiven := hrequired p hindex
      rw [← contains_ofMembers, contains_eq, hnone] at hgiven
      cases hgiven
    · show ¬ (ParameterObject.isTraining group = true ∧ _)
      rw [htraining]
      exact fun h => nomatch h.1

/-- A reference and an import agree, unless the members are as they should be
and the group has a field that cannot be given: a nested object may leave it
out, and an imported one may not. -/
theorem nested_agrees {document values : JsonObject} {group : QString}
    {g : ParameterGroupDefinition}
    (hC : ParameterCatalog.fromJson t document = .ok C)
    (hg : C.group? group = some g)
    (htraining : ParameterObject.isTraining group = false)
    (hlevels : Conclusive C t levels (refSchema group) (.object values)) :
    (accepts C t levels (refSchema group) (.object values) = true
      ↔ ∃ o, ParameterObject.fromNativeJson C t group values = .ok o
        ∧ ParameterObject.validate C t o true = .ok [])
    ↔ ¬ (Unfillable g ∧ Filled C t g group values) := by
  have hC := ParameterCatalog.fromJson_loaded hC
  rw [imported_iff_filled hC hg htraining, ← hlevels (levels + 1)
    (Nat.le_succ _),
    accepts_refSchema hg, acceptsGroup_iff_filled hg]
  tauto

-- ================================================================ on a sample

namespace Sample

/-- A device, with the type the platform sets. -/
def deviceDocument : JsonObject :=
  oneGroup "vllm.DeviceConfig" "serving"
    [.object
      [(qs "default", .string (qs "auto")),
       (qs "description", .string (qs "Device type for vLLM execution.")),
       (qs "name", .string (qs "device")),
       (qs "native_type", .string (qs "Device")),
       (qs "required", .bool false),
       (qs "schema", .object [(qs "type", .string (qs "opaque"))])],
     .object
      [(qs "description", .string
       (qs "Device type from the current platform.")),
       (qs "name", .string (qs "device_type")),
       (qs "native_type", .string (qs "str")),
       (qs "read_only", .bool true),
       (qs "required", .bool true),
       (qs "schema", .object [(qs "type", .string (qs "string"))])]]

def deviceGroup : ParameterGroupDefinition where
  id := qs "vllm.DeviceConfig"
  parameters :=
    [{ name := qs "device"
       nativeType := qs "Device"
       schema := [(qs "type", .string (qs "opaque"))]
       defaultValue := some (.string (qs "auto")) },
     { name := qs "device_type"
       nativeType := qs "str"
       schema := [(qs "type", .string (qs "string"))]
       required := true
       readOnly := true }]

/-- The field of the device that can be set. -/
def cpuMember : JsonObject := [(qs "device", .string (qs "cpu"))]

end Sample

theorem device_loaded :
    ParameterCatalog.fromJson Sample.patterns Sample.deviceDocument
    = .ok ⟨[Sample.deviceGroup]⟩ := by
  rfl

/-- A reference to an empty object is settled. -/
theorem settled_empty {group : QString} {g : ParameterGroupDefinition}
    (hg : C.group? group = some g) :
    Conclusive C t levels (refSchema group) (.object []) := by
  intro n hn
  obtain ⟨k, rfl⟩ : ∃ k, n = k + 1 := ⟨n - 1, by unfold levels at hn; omega⟩
  rw [accepts_refSchema hg]
  show _ = accepts C t (32 + 1) (refSchema group) (.object [])
  rw [accepts_refSchema hg]
  rfl

/-- A reference to a device is settled at its first field, which may be
anything. -/
theorem device_settled :
    Conclusive ⟨[Sample.deviceGroup]⟩ Sample.patterns levels
    (refSchema (qs "vllm.DeviceConfig")) (.object Sample.cpuMember) := by
  intro n hn
  obtain ⟨k, rfl⟩ : ∃ k, n = k + 2 := ⟨n - 2, by unfold levels at hn; omega⟩
  rw [accepts_refSchema (show ParameterCatalog.group? ⟨[Sample.deviceGroup]⟩
    (qs "vllm.DeviceConfig") = some Sample.deviceGroup from rfl)]
  rfl

/-- A person cannot lack what nobody can give. -/
theorem person_fillable : ¬ Unfillable Sample.person := by
  rintro ⟨p, hp, hrequired, -⟩
  rw [List.mem_singleton.1 hp] at hrequired
  cases hrequired

/-- The device type is required and is not for a document to give. -/
theorem device_unfillable : Unfillable Sample.deviceGroup :=
  ⟨_, List.mem_cons_of_mem _ (List.mem_singleton_self _), rfl, rfl, rfl⟩

/-- Persons with a short and with a long name are accepted where they are
nested just when they can be imported; a device with its first field is not. -/
theorem nested_agrees_device :
    (accepts ⟨[Sample.person]⟩ Sample.patterns levels Sample.personRef
        (Sample.personNamed "Ada") = true
      ↔ ∃ o, ParameterObject.fromNativeJson ⟨[Sample.person]⟩ Sample.patterns
          (qs "person") [(qs "name", .string (qs "Ada"))] = .ok o
        ∧ ParameterObject.validate ⟨[Sample.person]⟩ Sample.patterns o true
          = .ok [])
    ∧ (accepts ⟨[Sample.person]⟩ Sample.patterns levels Sample.personRef
        (Sample.personNamed "Grace") = true
      ↔ ∃ o, ParameterObject.fromNativeJson ⟨[Sample.person]⟩ Sample.patterns
          (qs "person") [(qs "name", .string (qs "Grace"))] = .ok o
        ∧ ParameterObject.validate ⟨[Sample.person]⟩ Sample.patterns o true
          = .ok [])
    ∧ ¬ (accepts ⟨[Sample.deviceGroup]⟩ Sample.patterns levels
        (refSchema (qs "vllm.DeviceConfig")) (.object Sample.cpuMember) = true
      ↔ ∃ o, ParameterObject.fromNativeJson ⟨[Sample.deviceGroup]⟩
          Sample.patterns
          (qs "vllm.DeviceConfig") Sample.cpuMember = .ok o
        ∧ ParameterObject.validate ⟨[Sample.deviceGroup]⟩ Sample.patterns o
          true = .ok []) := by
  refine ⟨(nested_agrees Sample.person_loaded rfl rfl
    (Sample.personRef_settled "Ada")).2
      fun h => person_fillable h.1,
    (nested_agrees Sample.person_loaded rfl rfl
      (Sample.personRef_settled "Grace")).2
      fun h => person_fillable h.1, fun h => ?_⟩
  refine (nested_agrees device_loaded rfl rfl device_settled).1 h
    ⟨device_unfillable, fun m hm => ?_, fun p hp => ?_⟩
  · rw [List.mem_singleton.1 hm]
    exact ⟨_, _, rfl, rfl, rfl, by decide +kernel⟩
  · cases hp

/-- A device without members is accepted where it is nested. Imported, it lacks
its type, which nobody can set. -/
theorem device_type_missing :
    ∃ C, ParameterCatalog.fromJson Sample.patterns Sample.deviceDocument
      = .ok C
      ∧ ParameterObject.isTraining (qs "vllm.DeviceConfig") = false
      ∧ Conclusive C Sample.patterns levels
        (refSchema (qs "vllm.DeviceConfig")) (.object [])
      ∧ accepts C Sample.patterns levels (refSchema (qs "vllm.DeviceConfig"))
          (.object []) = true
      ∧ ¬ ∃ o, ParameterObject.fromNativeJson C Sample.patterns
          (qs "vllm.DeviceConfig") [] = .ok o
        ∧ ParameterObject.validate C Sample.patterns o true = .ok [] := by
  refine ⟨_, device_loaded, rfl, settled_empty rfl, by decide +kernel, ?_⟩
  rintro ⟨o, ho, hvalid⟩
  have himported : ParameterObject.fromNativeJson ⟨[Sample.deviceGroup]⟩
    Sample.patterns
      (qs "vllm.DeviceConfig") [] = .ok ⟨qs "vllm.DeviceConfig", []⟩ := rfl
  rw [himported] at ho
  injection ho with ho
  have hissue : ParameterObject.validate ⟨[Sample.deviceGroup]⟩ Sample.patterns
      ⟨qs "vllm.DeviceConfig", []⟩ true
        = .ok [⟨qs "vllm.DeviceConfig.device_type",
          qs "Required parameter is unset"⟩] := by
    rfl
  rw [← ho, hissue] at hvalid
  injection hvalid with hvalid
  cases hvalid

end LocalLLM
