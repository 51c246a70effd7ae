/-
The documents objects are exported to, and what becomes of them when they
are imported again.

# Without defaults

The export of a valid object is what it holds, and the import of that is the
object (`exported_imported`). A control document holds one export a group,
and is imported to the same document (`control_imported`).

# With defaults

A default goes into the export without being looked at: `fromJson` checks the
schemas of a catalog and not its defaults, and `toNativeJson` validates the
object before they are added. So the import finds what the catalog got wrong
(`reimports_iff`).
-/
import LocalLLM.Lib.Maps
import LocalLLM.Proofs.Parameters

namespace LocalLLM

open Json

variable {C : ParameterCatalog} {t : Patterns}

-- =========================================================== without defaults

namespace ParameterObject

theorem exportField_plain (object : JsonObject) (p : ParameterDefinition) :
    exportField C false false object p = object := by
  unfold exportField
  cases p.defaultValue <;> cases h : lookup object p.name <;> simp [h]

/-- The export of a valid object is what it holds. -/
theorem toNativeJson_plain {o : ParameterObject}
    (hvalid : validate C t o false = .ok []) :
    toNativeJson C t o false false = .ok o.values := by
  obtain ⟨g, hg, -⟩ := validate_eq_nil.1 hvalid
  have hfields : ∀ parameters : List ParameterDefinition,
      parameters.foldl (exportField C false false) o.values = o.values := by
    intro parameters
    induction parameters with
    | nil => rfl
    | cons p rest ih => rw [List.foldl_cons, exportField_plain, ih]
  unfold toNativeJson
  rw [hvalid]
  simp only [bind_eq_ok, failFirst_eq_ok, group_eq_ok]
  exact ⟨[], rfl, (), rfl, g, hg, congrArg Except.ok (hfields g.parameters)⟩

/-- An export succeeds for valid objects only. -/
theorem valid_of_toNativeJson {o : ParameterObject} {defaults redact : Bool}
    {values : JsonObject} (h : toNativeJson C t o defaults redact
      = .ok values) :
    validate C t o false = .ok [] := by
  unfold toNativeJson at h
  obtain ⟨issues, hissues, h⟩ := bind_eq_ok.1 h
  obtain ⟨_, hnone, -⟩ := bind_eq_ok.1 h
  rw [failFirst_eq_ok.1 hnone] at hissues
  exact hissues

end ParameterObject

-- ========================================================== control documents

/-- The control parameters the interface makes. -/
inductive ControlBuilt (C : ParameterCatalog) (t : Patterns) :
    ControlParameters → Prop
  | empty : ControlBuilt C t {}
  | set {c c' : ControlParameters} {o : ParameterObject} :
      ControlBuilt C t c → Built C t o →
      ControlParameters.set C t c o = .ok c' →
      ControlBuilt C t c'

/-- An object under its group, as it was built, that can be exported. -/
structure Filed (C : ParameterCatalog) (t : Patterns)
    (e : QString × ParameterObject) : Prop where
  group : e.2.group = e.1
  coherent : Coherent C t e.2
  valid : ParameterObject.validate C t e.2 false = .ok []

namespace ControlParameters

/-- An object is set as it is. -/
theorem set_eq_ok {c c' : ControlParameters} {o : ParameterObject}
    (ho : Coherent C t o) :
    set C t c o = .ok c' ↔ ParameterObject.validate C t o false = .ok []
      ∧ c' = { objects := c.objects.insert o.group o } := by
  unfold set
  simp only [bind_eq_ok]
  constructor
  · rintro ⟨values, hvalues, o', ho', h⟩
    injection h with h
    have hvalid := ParameterObject.valid_of_toNativeJson hvalues
    rw [ParameterObject.toNativeJson_plain hvalid] at hvalues
    injection hvalues with hvalues
    rw [← hvalues, ho.imported hvalid] at ho'
    injection ho' with ho'
    exact ⟨hvalid, by rw [← h, ho']⟩
  · rintro ⟨hvalid, rfl⟩
    exact ⟨o.values, ParameterObject.toNativeJson_plain hvalid, o,
      ho.imported hvalid, rfl⟩

/-- The member of an object in the document. -/
def member (e : QString × ParameterObject) :
    QString × Json := (e.1, .object e.2.values)

theorem exportAll_eq (entries : List (QString × ParameterObject)) :
    ∀ objects : JsonObject, (∀ e ∈ entries, Filed C t e) →
      exportAll C t false false objects entries
        = .ok ((entries.map member).foldl (fun o m => insert o m.1 m.2)
          objects) := by
  induction entries with
  | nil => exact fun _ _ => rfl
  | cons e rest ih =>
      intro objects hfiled
      rw [List.forall_mem_cons] at hfiled
      unfold exportAll
      rw [ParameterObject.toNativeJson_plain hfiled.1.valid]
      exact ih _ hfiled.2

/-- Importing the members one by one files each object under its key. Later
keys do not disturb earlier ones. -/
theorem importAll_eq (entries : List (QString × ParameterObject)) :
    ∀ c : ControlParameters, (∀ e ∈ entries, Filed C t e) →
      importAll C t c (entries.map member)
        = .ok {
          objects :=
            entries.foldl (fun m e => m.insert e.1 e.2) c.objects } := by
  induction entries with
  | nil => exact fun _ _ => rfl
  | cons e rest ih =>
      intro c hfiled
      rw [List.forall_mem_cons] at hfiled
      obtain ⟨he, hrest⟩ := hfiled
      have himport : ParameterObject.fromNativeJson C t e.1 e.2.values
          = .ok e.2 :=
        he.group ▸ he.coherent.imported he.valid
      have hset : set C t c e.2
          = .ok { objects := c.objects.insert e.1 e.2 } :=
        he.group ▸ (set_eq_ok he.coherent).2 ⟨he.valid, rfl⟩
      show (do
        let o ← ParameterObject.fromNativeJson C t e.1 e.2.values
        let c ← set C t c o
        importAll C t c (rest.map member)) = _
      rw [himport]
      show (do
        let c ← set C t c e.2
        importAll C t c (rest.map member)) = _
      rw [hset]
      exact ih _ hrest

/-- The groups of a document are in order. -/
theorem sorted_members (m : Std.ExtTreeMap QString ParameterObject) :
    Sorted (m.toList.map member) := by
  unfold Sorted
  rw [List.pairwise_map]
  exact Std.ExtTreeMap.ordered_keys_toList

/-- The export of filed objects is imported to the same objects. -/
theorem exported_imported {c : ControlParameters}
    (h : ∀ e ∈ c.objects.toList, Filed C t e) :
    ∃ document, toJson C t c false false = .ok document
      ∧ fromJson C t document = .ok c := by
  have hexport : exportAll C t false false [] c.objects.toList
      = .ok (c.objects.toList.map member) := by
    rw [exportAll_eq _ _ h]
    exact congrArg Except.ok (sorted_members c.objects).ofMembers_self
  have himport : importAll C t {} (c.objects.toList.map member) = .ok c := by
    rw [importAll_eq _ _ h, Maps.foldl_insert_toList]
  refine ⟨ofMembers [(qs "schema_version", jsonInt 1),
    (qs "objects", .object (c.objects.toList.map member))], ?_, ?_⟩
  · unfold toJson
    rw [hexport]
    rfl
  · exact himport

end ControlParameters

/-- What is built is filed. -/
theorem ControlBuilt.filed {c : ControlParameters} (h : ControlBuilt C t c) :
    ∀ e ∈ c.objects.toList, Filed C t e := by
  induction h with
  | empty =>
      intro e he
      cases he
  | set _ ho h ih =>
      obtain ⟨hvalid, rfl⟩ := (ControlParameters.set_eq_ok ho.coherent).1 h
      intro e he
      rcases List.mem_cons.1 ((Maps.toList_insert_perm _ _ _).mem_iff.1 he)
        with rfl | he
      · exact ⟨rfl, ho.coherent, hvalid⟩
      · exact ih e (List.mem_filter.1 he).1

/-- A valid object is what its export is imported to; and control parameters
made of such objects, in any order, are what their document is imported to. -/
theorem documents_round_trip :
    (∀ o, Built C t o → ParameterObject.validate C t o false = .ok [] →
      ∃ values, ParameterObject.toNativeJson C t o false false = .ok values
        ∧ ParameterObject.fromNativeJson C t o.group values = .ok o)
    ∧ ∀ c, ControlBuilt C t c →
      ∃ document c', ControlParameters.toJson C t c false false = .ok document
        ∧ ControlParameters.fromJson C t document = .ok c'
        ∧ ControlParameters.toJson C t c' false false = .ok document := by
  refine ⟨fun o ho hvalid => ?_, fun c hc => ?_⟩
  · exact ⟨o.values, ParameterObject.toNativeJson_plain hvalid,
      ho.coherent.imported hvalid⟩
  · obtain ⟨document, hexport, himport⟩ :=
      ControlParameters.exported_imported hc.filed
    exact ⟨document, c, hexport, himport, hexport⟩

namespace Sample

/-- The catalog of the device. -/
def deviceCatalog : ParameterCatalog := ⟨[deviceGroup]⟩

/-- A catalog with the device and the person, and one of each that was set. -/
def bothCatalog : ParameterCatalog := ⟨[deviceGroup, person]⟩

def cpu : ParameterObject := ⟨qs "vllm.DeviceConfig", cpuMember⟩

def ada : ParameterObject := ⟨qs "person", [(qs "name", .string (qs "Ada"))]⟩

/-- The device was set before the person, whose group sorts first. -/
def control : ControlParameters :=
  ⟨((∅ : Std.ExtTreeMap QString ParameterObject).insert cpu.group cpu).insert
    ada.group ada⟩

theorem cpu_built : Built bothCatalog patterns cpu := by
  have hcreate : ParameterObject.create bothCatalog (qs "vllm.DeviceConfig")
      = .ok ⟨qs "vllm.DeviceConfig", []⟩ := rfl
  have hset : ParameterObject.set bothCatalog patterns
      ⟨qs "vllm.DeviceConfig", []⟩ (qs "device") (some (.string (qs "cpu")))
      = .ok cpu := rfl
  exact (Built.create hcreate).set hset

theorem ada_built : Built bothCatalog patterns ada := by
  have hcreate : ParameterObject.create bothCatalog (qs "person")
      = .ok ⟨qs "person", []⟩ := rfl
  have hset : ParameterObject.set bothCatalog patterns
      ⟨qs "person", []⟩ (qs "name") (some (.string (qs "Ada")))
        = .ok ada := rfl
  exact (Built.create hcreate).set hset

theorem control_built : ControlBuilt bothCatalog patterns control := by
  have hcpu : ControlParameters.set bothCatalog patterns {} cpu
      = .ok ⟨(∅ : Std.ExtTreeMap QString ParameterObject).insert
        cpu.group cpu⟩ := rfl
  have hada : ControlParameters.set bothCatalog patterns
      ⟨(∅ : Std.ExtTreeMap QString ParameterObject).insert cpu.group cpu⟩ ada
      = .ok control := rfl
  exact .set (.set .empty cpu_built hcpu) ada_built hada

end Sample

/-- A device alone, and with a person in a control document. -/
theorem documents_round_trip_cpu :
    (∃ values, ParameterObject.toNativeJson Sample.bothCatalog
      Sample.patterns Sample.cpu
          false false = .ok values
        ∧ ParameterObject.fromNativeJson Sample.bothCatalog Sample.patterns
          (qs "vllm.DeviceConfig") values = .ok Sample.cpu)
    ∧ ∃ document c', ControlParameters.toJson Sample.bothCatalog
      Sample.patterns
          Sample.control false false = .ok document
        ∧ ControlParameters.fromJson Sample.bothCatalog Sample.patterns
          document = .ok c'
        ∧ ControlParameters.toJson Sample.bothCatalog Sample.patterns
          c' false false
          = .ok document :=
  ⟨documents_round_trip.1 Sample.cpu Sample.cpu_built rfl,
    documents_round_trip.2 Sample.control Sample.control_built⟩

-- ============================================================== with defaults

/-- The default that an export adds. -/
def ParameterDefinition.shownDefault (p : ParameterDefinition) : Option Json :=
  if p.readOnly = true then none else p.defaultValue

namespace ParameterObject

/-- What an export with defaults shows of a field. -/
def shown (C : ParameterCatalog) (o : ParameterObject) (name : QString) :
    Option Json :=
  (lookup o.values name).or
    (((C.group? o.group).bind fun g => g.field? name).bind
      ParameterDefinition.shownDefault)

theorem exportField_defaults (object : JsonObject) (p : ParameterDefinition) :
    exportField C true false object p = match lookup object p.name,
      p.shownDefault with
      | none, some v => insert object p.name v
      | _, _ => object := by
  unfold exportField ParameterDefinition.shownDefault
  rw [contains_eq]
  cases hv : lookup object p.name with
  | some v => cases p.defaultValue <;> cases p.readOnly <;> simp [hv]
  | none => cases p.defaultValue <;> cases p.readOnly <;> simp [hv]

theorem lookup_exportField (object : JsonObject) (p : ParameterDefinition)
    (key : QString) :
    lookup (exportField C true false object p) key
      = (lookup object key).or (if p.name = key then p.shownDefault
        else none) := by
  rw [exportField_defaults]
  by_cases hkey : p.name = key
  · subst hkey
    rw [if_pos rfl]
    cases hv : lookup object p.name with
    | some v => simp [hv]
    | none =>
        cases p.shownDefault with
        | none => simp [hv]
        | some d => simp
  · rw [if_neg hkey, Option.or_none]
    cases lookup object p.name with
    | some v => rfl
    | none =>
        cases p.shownDefault with
        | none => rfl
        | some d => exact lookup_insert_ne object d (Ne.symm hkey)

theorem lookup_exportFields {parameters : List ParameterDefinition}
    (key : QString)
    (hnames : (parameters.map ParameterDefinition.name).Nodup) :
    ∀ object : JsonObject,
      lookup (parameters.foldl (exportField C true false) object) key
        = (lookup object key).or
          ((parameters.find? fun p => p.name == key).bind
            ParameterDefinition.shownDefault) := by
  induction parameters with
  | nil =>
      intro object
      simp
  | cons p rest ih =>
      intro object
      rw [List.map_cons, List.nodup_cons] at hnames
      rw [List.foldl_cons, ih hnames.2, lookup_exportField]
      by_cases hkey : p.name = key
      · have hrest : rest.find? (fun p => p.name == key) = none := by
          rw [List.find?_eq_none]
          intro q hq hname
          exact hnames.1 (List.mem_map.2
            ⟨q, hq, (beq_iff_eq.1 hname).trans hkey.symm⟩)
        rw [hrest, List.find?_cons_of_pos (by simpa using hkey), if_pos hkey]
        simp
      · rw [List.find?_cons_of_neg (by simpa using hkey), if_neg hkey,
          Option.or_none]

theorem sorted_exportFields (parameters : List ParameterDefinition) :
    ∀ object : JsonObject, Sorted object →
      Sorted (parameters.foldl (exportField C true false) object) := by
  induction parameters with
  | nil => exact fun _ h => h
  | cons p rest ih =>
      intro object h
      rw [List.foldl_cons]
      refine ih _ ?_
      rw [exportField_defaults]
      cases lookup object p.name with
      | some v => exact h
      | none =>
          cases p.shownDefault with
          | none => exact h
          | some d => exact h.insert p.name d

theorem toNativeJson_defaults {o : ParameterObject}
    {g : ParameterGroupDefinition}
    (hg : C.group? o.group = some g) (hvalid : validate C t o false = .ok []) :
    toNativeJson C t o true false
      = .ok (g.parameters.foldl (exportField C true false) o.values) := by
  unfold toNativeJson
  rw [hvalid]
  simp only [bind_eq_ok, failFirst_eq_ok, group_eq_ok]
  exact ⟨[], rfl, (), rfl, g, hg, rfl⟩

/-- What an object has of a field is what its export with defaults gives. -/
theorem value_congr {o o' : ParameterObject} (hgroup : o'.group = o.group)
    (hvalues : ∀ key, lookup o'.values key = shown C o key) (field : QString) :
    value C o' field = value C o field := by
  unfold value
  rw [hgroup]
  cases hp : C.parameter o.group field with
  | error e => rfl
  | ok p =>
      obtain ⟨g, hg, hfield⟩ := parameter_eq_ok.1 hp
      have hshown : shown C o field
          = (lookup o.values field).or p.shownDefault := by
        unfold shown
        simp [hg, hfield]
      show (pure (if contains o'.values field = true
        then lookup o'.values field
        else p.defaultValue) : Except Exn (Option Json)) = pure _
      rw [contains_eq, contains_eq, hvalues, hshown]
      cases lookup o.values field with
      | some v => rfl
      | none =>
          unfold ParameterDefinition.shownDefault
          cases p.readOnly <;> cases p.defaultValue <;> rfl

end ParameterObject

/-- The export with defaults is imported, to an object without issues that
has what was set and gives the same value for every field. -/
def Reimports (C : ParameterCatalog) (t : Patterns) (o : ParameterObject) :
    Prop :=
  ∃ values o', ParameterObject.toNativeJson C t o true false = .ok values
    ∧ ParameterObject.fromNativeJson C t o.group values = .ok o'
    ∧ ParameterObject.validate C t o' false = .ok []
    ∧ (∀ field v, lookup o.values field = some v →
      lookup o'.values field = some v)
    ∧ ∀ field, ParameterObject.value C o' field
      = ParameterObject.value C o field

/-- The defaults that are shown are accepted by their schemas. -/
def DefaultsAccepted (C : ParameterCatalog) (t : Patterns)
    (o : ParameterObject) : Prop :=
  ∀ g p v, C.group? o.group = some g → p ∈ g.parameters →
    lookup o.values p.name = none → p.shownDefault = some v →
    accepts C t levels p.schema v = true

/-- A training object that shows both precisions. -/
def ShowsBoth (C : ParameterCatalog) (o : ParameterObject) : Prop :=
  ParameterObject.isTraining o.group = true
    ∧ Json.toBool (ParameterObject.shown C o (qs "fp16")) = true
    ∧ Json.toBool (ParameterObject.shown C o (qs "bf16")) = true

/-- What is shown is settable when the defaults are accepted: a value that was
set has passed its schema, and a default is assumed to. -/
theorem shown_settable (hC : Loaded C t) {o : ParameterObject}
    (ho : Coherent C t o) :
    (∀ key v, ParameterObject.shown C o key = some v →
      Settable C t o.group (key, v))
      ↔ DefaultsAccepted C t o := by
  constructor
  · intro h g p v hg hp hnone hdefault
    have hfield := ParameterGroupDefinition.field?_name
      (hC.names g (ParameterCatalog.group?_some hg).1) hp
    have hshown : ParameterObject.shown C o p.name = some v := by
      unfold ParameterObject.shown
      simp [hnone, hg, hfield, hdefault]
    obtain ⟨g', p', hg', hp', -, haccepts⟩ := h p.name v hshown
    obtain rfl : g = g' := Option.some.inj (hg.symm.trans hg')
    obtain rfl : p = p' := Option.some.inj (hfield.symm.trans hp')
    exact haccepts
  · intro h key v hshown
    unfold ParameterObject.shown at hshown
    cases hv : lookup o.values key with
    | some w =>
        rw [hv, Option.some_or] at hshown
        obtain rfl : w = v := Option.some.inj hshown
        exact ho.settable _ (mem_of_lookup hv)
    | none =>
        rw [hv, Option.none_or] at hshown
        obtain ⟨p, hp, hdefault⟩ := Option.bind_eq_some_iff.1 hshown
        obtain ⟨g, hg, hfield⟩ := Option.bind_eq_some_iff.1 hp
        obtain ⟨hmem, rfl⟩ := ParameterGroupDefinition.field?_some hfield
        have hwritable : p.readOnly = false := by
          unfold ParameterDefinition.shownDefault at hdefault
          by_contra hro
          rw [if_pos (by simpa using hro)] at hdefault
          cases hdefault
        exact ⟨g, p, hg, hfield, hwritable, h g p v hg hmem hv hdefault⟩

/-- An export with defaults is imported again exactly when the catalog's
defaults are accepted by its own schemas and do not turn on both precisions. A
default is exported without a check and imported with one, which is why the
schemas come in. -/
theorem reimports_iff {document : JsonObject} {o : ParameterObject}
    (hC : ParameterCatalog.fromJson t document = .ok C) (ho : Built C t o)
    (hvalid : ParameterObject.validate C t o false = .ok []) :
    Reimports C t o ↔ DefaultsAccepted C t o ∧ ¬ ShowsBoth C o := by
  have hC := ParameterCatalog.fromJson_loaded hC
  have ho := ho.coherent
  obtain ⟨g, hg⟩ := Option.isSome_iff_exists.1 ho.group
  have hnames := hC.names g (ParameterCatalog.group?_some hg).1
  obtain ⟨values, hvalues⟩ : ∃ values,
      values = g.parameters.foldl
        (ParameterObject.exportField C true false) o.values :=
    ⟨_, rfl⟩
  have hexport := ParameterObject.toNativeJson_defaults hg hvalid
  rw [← hvalues] at hexport
  have hsorted : Sorted values :=
    hvalues ▸ ParameterObject.sorted_exportFields g.parameters
      o.values ho.sorted
  have hshown : ∀ key, lookup values key = ParameterObject.shown C o key := by
    intro key
    rw [hvalues, ParameterObject.lookup_exportFields key hnames]
    unfold ParameterObject.shown
    rw [hg]
    rfl
  have hsettable : (∀ m ∈ values, Settable C t o.group m)
      ↔ DefaultsAccepted C t o := by
    rw [← shown_settable hC ho]
    constructor
    · intro h key v hv
      exact h _ (mem_of_lookup ((hshown key).trans hv))
    · intro h m hm
      exact h m.1 m.2 ((hshown m.1).symm.trans (hsorted.lookup_mem hm))
  have hboth : (ParameterObject.isTraining o.group = true
      ∧ ParameterObject.bothPrecisions values = true) ↔ ShowsBoth C o := by
    unfold ParameterObject.bothPrecisions ShowsBoth
    rw [hshown, hshown, Bool.and_eq_true]
  have himport : ∀ o', ParameterObject.fromNativeJson C t o.group values
    = .ok o' ↔
      DefaultsAccepted C t o ∧ ¬ ShowsBoth C o ∧ o' = ⟨o.group, values⟩ := by
    intro o'
    rw [ParameterObject.fromNativeJson_eq_ok, hsorted.ofMembers_self,
      hsettable, hboth]
    simp [ho.group]
  constructor
  · rintro ⟨values', o', hexport', himport', -⟩
    rw [hexport] at hexport'
    injection hexport' with hexport'
    rw [← hexport', himport] at himport'
    exact ⟨himport'.1, himport'.2.1⟩
  · rintro ⟨hdefaults, hprecisions⟩
    have hfields : ∀ p ∈ g.parameters, ParameterObject.fieldIssues C t
        ⟨o.group, values⟩ false p = .ok [] := by
      intro p _
      refine ParameterObject.fieldIssues_eq_nil.2
        ⟨fun v hv => ?_, (fun _ h => nomatch h)⟩
      exact hsettable.2 hdefaults _ (mem_of_lookup hv)
    refine ⟨values, ⟨o.group, values⟩, hexport,
      (himport _).2 ⟨hdefaults, hprecisions, rfl⟩, ?_, fun field v hv => ?_,
      ParameterObject.value_congr rfl hshown⟩
    · exact ParameterObject.validate_eq_nil.2 ⟨g, hg, hfields, fun h =>
        hprecisions (hboth.1 h)⟩
    · rw [hshown]
      unfold ParameterObject.shown
      rw [hv, Option.some_or]

/-- A device whose default is shown. -/
theorem reimports_iff_device :
    Reimports Sample.deviceCatalog Sample.patterns ⟨qs "vllm.DeviceConfig", []⟩
      ↔ DefaultsAccepted Sample.deviceCatalog Sample.patterns
        ⟨qs "vllm.DeviceConfig", []⟩
        ∧ ¬ ShowsBoth Sample.deviceCatalog ⟨qs "vllm.DeviceConfig", []⟩ := by
  have hcreate : ParameterObject.create Sample.deviceCatalog
    (qs "vllm.DeviceConfig")
      = .ok ⟨qs "vllm.DeviceConfig", []⟩ := rfl
  exact reimports_iff device_loaded (.create hcreate) rfl

namespace Sample

/-- A plugin with a string whose default is not one. -/
def pluginDocument : JsonObject :=
  oneGroup "accelerate.MegatronLMPlugin" "infrastructure"
    [.object
      [(qs "default", .bool true),
       (qs "description", .string
         (qs "This will decide the micro_batch_size.")),
       (qs "name", .string (qs "is_train_batch_min")),
       (qs "native_type", .string (qs "str")),
       (qs "required", .bool false),
       (qs "schema", .object [(qs "type", .string (qs "string"))])]]

def pluginCatalog : ParameterCatalog where
  groups :=
    [{ id := qs "accelerate.MegatronLMPlugin"
       parameters :=
        [{ name := qs "is_train_batch_min"
           nativeType := qs "str"
           schema := [(qs "type", .string (qs "string"))]
           defaultValue := some (.bool true) }] }]

end Sample

/-- The plugin as it is constructed is valid, and its export with
defaults is refused. -/
theorem plugin_default_refused :
    ParameterCatalog.fromJson Sample.patterns Sample.pluginDocument
      = .ok Sample.pluginCatalog
      ∧ ∃ o, ParameterObject.create Sample.pluginCatalog
          (qs "accelerate.MegatronLMPlugin")
          = .ok o
        ∧ ParameterObject.validate Sample.pluginCatalog Sample.patterns o false
          = .ok []
        ∧ ¬ Reimports Sample.pluginCatalog Sample.patterns o := by
  refine ⟨by rfl, _, rfl, by rfl, ?_⟩
  rintro ⟨values, o', hexport, himport, -⟩
  have hvalues : ParameterObject.toNativeJson Sample.pluginCatalog
    Sample.patterns
      ⟨qs "accelerate.MegatronLMPlugin", []⟩ true false
        = .ok [(qs "is_train_batch_min", .bool true)] := by
    rfl
  rw [hvalues] at hexport
  injection hexport with hexport
  rw [← hexport, ParameterObject.fromNativeJson_eq_ok] at himport
  obtain ⟨g, p, hg, hp, -, haccepts⟩ := himport.2.1 _ List.mem_cons_self
  injection hg with hg
  subst hg
  injection hp with hp
  subst hp
  revert haccepts
  decide +kernel

end LocalLLM
