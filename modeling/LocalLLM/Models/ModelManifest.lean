/-
Model identifiers and the records of the model catalog
(`models/ModelManifest.cpp`, `models/ModelCatalog.cpp`,
`service/ModelRegistry.cpp`).

# Identifiers

`validId` is the pair of regular expressions of the source read as
predicates. Both end in `$`, which also matches before a final line feed;
`atEnd` keeps that. A URI is `model://` and an id, and `modelId` undoes
`modelUri` (`modelId_modelUri`).

# Names

A client names a model by its URI or by an alias of the registry. The
registry holds only aliases of its own syntax, which has no slash, so a
URI is never an alias and stands for itself (`canonical_modelUri`).

# The catalog

What lies on disk is asked of `scan` and `inspect`; finding one model in
a listing and reading a failed inspection as an invalid package is the
catalog's own work.
-/
import LocalLLM.Core.Types

namespace LocalLLM

open Std

-- ============================================================= identifiers

/-- `[a-z0-9]`. -/
def idEdge (u : QChar) : Bool :=
  (qc 'a' ≤ u && u ≤ qc 'z') || (qc '0' ≤ u && u ≤ qc '9')

/-- `[a-z0-9._-]`. -/
def idInner (u : QChar) : Bool :=
  idEdge u || u == qc '.' || u == qc '_' || u == qc '-'

/-- Where `$` matches: at the end, or before a line feed that
ends the subject. -/
def atEnd (rest : QString) : Bool := rest == [] || rest == [qc '\n']

/-- The subject of a pattern that ends in `$`, less the line feed the `$`
may leave out. -/
def dollarBody (s : QString) : QString :=
  if s.getLast? = some (qc '\n') then s.dropLast else s

/-- `[a-z0-9](?:[a-z0-9._-]{0,126}[a-z0-9])?`, over a whole string. -/
def idCore : QString → Bool
  | [] => false
  | c :: rest =>
      idEdge c && (rest == [] ||
        (rest.length ≤ 127 && rest.dropLast.all idInner
          && rest.getLast?.any idEdge))

/-- The device names that are reserved with or without an extension. -/
def reservedNames : List QString :=
  [qs "con", qs "prn", qs "aux", qs "nul"]
    ++ (["1", "2", "3", "4", "5", "6", "7", "8", "9"].flatMap fun d =>
      [qs ("com" ++ d), qs ("lpt" ++ d)])

/-- `^(con|prn|...)(?:\.|$)`. -/
def reservedId (s : QString) : Bool :=
  reservedNames.any fun w =>
    w.isPrefixOf s &&
      ((s.drop w.length).head? == some (qc '.') || atEnd (s.drop w.length))

/-- `validId`. -/
def validId (s : QString) : Bool := idCore (dollarBody s) && !reservedId s

/-- `modelUri`. -/
def modelUri (id : QString) : Except Exn QString :=
  if validId id then .ok (qs "model://" ++ id)
  else .error (err .InvalidArgument "Invalid portable model id")

/-- `modelId`. -/
def modelId (uri : QString) : Except Exn QString :=
  if QString.startsWith uri (qs "model://") && validId (uri.drop 8) then
    .ok (uri.drop 8)
  else .error (err .InvalidArgument
    "Expected a canonical model://id without paths, query, fragment or escaping")

theorem validId_ne_nil {id : QString} (h : validId id = true) : id ≠ [] := by
  rintro rfl
  simp [validId, dollarBody, idCore] at h

/-- The units of an id, with the line feed that may end it. -/
theorem mem_validId {id : QString} (h : validId id = true) {u : QChar}
    (hu : u ∈ id) : idInner u = true ∨ u = qc '\n' := by
  have hcore : idCore (dollarBody id) = true := by
    unfold validId at h
    exact (Bool.and_eq_true _ _ ▸ h).1
  have hedge : ∀ v, idEdge v = true → idInner v = true :=
    fun v hv => by simp [idInner, hv]
  have hbody : ∀ v ∈ dollarBody id, idInner v = true := by
    cases hb : dollarBody id with
    | nil => intro v hv; cases hv
    | cons first rest =>
        rw [hb] at hcore
        simp only [idCore, Bool.and_eq_true, Bool.or_eq_true, beq_iff_eq,
          List.all_eq_true] at hcore
        obtain ⟨hfirst, hrest⟩ := hcore
        intro v hv
        rcases List.mem_cons.1 hv with rfl | hv
        · exact hedge _ hfirst
        · rcases hrest with hnil | ⟨⟨-, hinner⟩, hlast⟩
          · rw [hnil] at hv
            cases hv
          · have hne : rest ≠ [] := List.ne_nil_of_mem hv
            rw [← List.dropLast_concat_getLast hne, List.mem_append,
              List.mem_singleton] at hv
            rcases hv with hv | hv
            · exact hinner v hv
            · rw [List.getLast?_eq_some_getLast hne] at hlast
              exact hedge v (hv ▸ by simpa using hlast)
  unfold dollarBody at hbody
  split at hbody
  next hlast =>
    have hne : id ≠ [] := List.ne_nil_of_mem hu
    rw [← List.dropLast_concat_getLast hne, List.mem_append,
      List.mem_singleton] at hu
    rcases hu with hu | hu
    · exact Or.inl (hbody u hu)
    · rw [List.getLast?_eq_some_getLast hne] at hlast
      injection hlast with hlast
      exact Or.inr (hu.trans hlast)
  next => exact Or.inl (hbody u hu)

/-- An id has no colon. -/
theorem validId_no_colon {id : QString} (h : validId id = true) :
    qc ':' ∉ id := by
  intro hmem
  rcases mem_validId h hmem with hinner | heq
  · exact absurd hinner (by decide)
  · exact absurd heq (by decide)

theorem modelUri_ok {id uri : QString} (h : modelUri id = .ok uri) :
    validId id = true ∧ uri = qs "model://" ++ id := by
  unfold modelUri at h
  split at h
  next hv =>
    injection h with h
    exact ⟨hv, h.symm⟩
  next => cases h

theorem modelUri_of_valid {id : QString} (h : validId id = true) :
    modelUri id = .ok (qs "model://" ++ id) := by
  unfold modelUri
  rw [if_pos h]

/-- The scheme is eight units long. -/
theorem drop_scheme (id : QString) : (qs "model://" ++ id).drop 8 = id := by
  rw [show 8 = (qs "model://").length from rfl]
  exact List.drop_left

theorem modelId_ok {uri id : QString} (h : modelId uri = .ok id) :
    validId id = true ∧ uri = qs "model://" ++ id := by
  unfold modelId at h
  split at h
  next hv =>
    injection h with h
    rw [Bool.and_eq_true] at hv
    obtain ⟨t, ht⟩ := List.isPrefixOf_iff_prefix.1 hv.1
    have hdrop : uri.drop 8 = t := by
      rw [← ht]
      exact drop_scheme t
    rw [hdrop] at h
    exact ⟨h ▸ hdrop ▸ hv.2, by rw [← ht, h]⟩
  next => cases h

/-- `modelId` undoes `modelUri`. -/
theorem modelId_modelUri {id uri : QString} (h : modelUri id = .ok uri) :
    modelId uri = .ok id := by
  obtain ⟨hv, rfl⟩ := modelUri_ok h
  have hdrop := drop_scheme id
  have hpre : QString.startsWith (qs "model://" ++ id) (qs "model://")
      = true :=
    List.isPrefixOf_iff_prefix.2 ⟨id, rfl⟩
  unfold modelId
  rw [hdrop, hpre, hv]
  rfl

-- ================================================================= records

structure ModelFile where
  path : QString
  size : Int := 0
  sha256 : QString
deriving DecidableEq

structure ModelManifest where
  id : QString
  architecture : QString := []
  format : QString := []
  quantization : QString := []
  contextLength : Int := 0
  capabilities : List QString := []
  entryPoint : QString := []
  files : List ModelFile := []
  projector : QString := []
deriving DecidableEq

structure ModelRecord where
  uri : QString
  manifest : ModelManifest
  loaded : Bool := false
deriving DecidableEq

structure ModelVerification where
  model : QString
  valid : Bool := false
  checkedFiles : Int := 0
  checkedBytes : Int := 0
  issues : List QString := []

/-- A listed package: its record and where it lies. -/
structure ResolvedModel where
  record : ModelRecord
  directory : QString
  entryPath : QString

-- ================================================================ registry

/-- `[a-z0-9][a-z0-9._-]*`, over a whole string. -/
def aliasPart : QString → Bool
  | [] => false
  | c :: rest => idEdge c && rest.all idInner

/-- `^[a-z0-9][a-z0-9._-]*(?::[a-z0-9][a-z0-9._-]*)?$`. -/
def aliasSyntax (s : QString) : Bool :=
  aliasPart ((dollarBody s).takeWhile (· != qc ':')) &&
    match (dollarBody s).dropWhile (· != qc ':') with
    | [] => true
    | _ :: tail => aliasPart tail

/-- The alias table of a `ModelRegistry`: its constructor refuses an alias
of another syntax and points each alias at the URI of a package. -/
structure ModelRegistry where
  aliases : ExtTreeMap QString QString := ∅
  syntax_ok : ∀ k uri : QString, aliases[k]? = some uri → aliasSyntax k = true
  target_ok : ∀ k uri : QString, aliases[k]? = some uri →
    ∃ id, modelUri id = .ok uri

/-- An empty table names nothing that has to be checked. -/
theorem ModelRegistry.empty_syntax_ok : ∀ k uri : QString,
    (∅ : ExtTreeMap QString QString)[k]? = some uri →
    aliasSyntax k = true := by
  intro k uri h
  simp at h

theorem ModelRegistry.empty_target_ok : ∀ k uri : QString,
    (∅ : ExtTreeMap QString QString)[k]? = some uri →
    ∃ id, modelUri id = .ok uri := by
  intro k uri h
  simp at h

/-- `ModelRegistry::canonical`. -/
def ModelRegistry.canonical (registry : ModelRegistry) (reference : QString) :
    Except Exn QString :=
  match registry.aliases[reference]? with
  | some uri => .ok uri
  | none => (modelId reference).map fun _ => reference

theorem idInner_ne_slash {u : QChar} (h : idInner u = true) : u ≠ qc '/' := by
  rintro rfl
  exact absurd h (by decide)

theorem aliasPart_no_slash {s : QString} (h : aliasPart s = true) :
    qc '/' ∉ s := by
  cases s with
  | nil => simp
  | cons c rest =>
      simp only [aliasPart, Bool.and_eq_true, List.all_eq_true] at h
      intro hmem
      rcases List.mem_cons.1 hmem with hc | hr
      · exact idInner_ne_slash (u := c) (by simp [idInner, h.1]) hc.symm
      · exact idInner_ne_slash (h.2 _ hr) rfl

/-- An alias has no slash. -/
theorem aliasSyntax_no_slash {s : QString} (h : aliasSyntax s = true) :
    qc '/' ∉ s := by
  have hbody : qc '/' ∉ dollarBody s := by
    unfold aliasSyntax at h
    simp only [Bool.and_eq_true] at h
    obtain ⟨hhead, htail⟩ := h
    intro hmem
    rw [← List.takeWhile_append_dropWhile (p := (· != qc ':'))
      (l := dollarBody s), List.mem_append] at hmem
    rcases hmem with hm | hm
    · exact aliasPart_no_slash hhead hm
    · cases hd : (dollarBody s).dropWhile (· != qc ':') with
      | nil =>
          rw [hd] at hm
          cases hm
      | cons c tail =>
          rw [hd] at hm htail
          rcases List.mem_cons.1 hm with hc | ht
          · have hcolon : (c != qc ':') = false := by
              have := List.head_dropWhile_not (· != qc ':') (l := dollarBody s)
                (by rw [hd]; simp)
              simpa [hd] using this
            rw [← hc] at hcolon
            exact absurd hcolon (by decide)
          · exact aliasPart_no_slash htail ht
  intro hmem
  unfold dollarBody at hbody
  split at hbody
  next hlast =>
    have hne : s ≠ [] := by
      rintro rfl
      simp at hlast
    rw [← List.dropLast_concat_getLast hne, List.mem_append,
      List.mem_singleton] at hmem
    rcases hmem with hm | hm
    · exact hbody hm
    · rw [List.getLast?_eq_some_getLast hne] at hlast
      injection hlast with hlast
      rw [hlast] at hm
      exact absurd hm (by decide)
  next => exact hbody hmem

/-- A model URI stands for itself: no alias has its form. -/
theorem canonical_modelUri (registry : ModelRegistry) {id uri : QString}
    (h : modelUri id = .ok uri) : registry.canonical uri = .ok uri := by
  unfold ModelRegistry.canonical
  cases ha : registry.aliases[uri]? with
  | none =>
      simp only [modelId_modelUri h]
      rfl
  | some target =>
      have hslash := aliasSyntax_no_slash (registry.syntax_ok uri target ha)
      obtain ⟨-, rfl⟩ := modelUri_ok h
      exact absurd (List.mem_append_left id
        (show qc '/' ∈ qs "model://" by decide)) hslash

/-- What a reference stands for is always the URI of a valid id. -/
theorem canonical_ok {registry : ModelRegistry} {reference uri : QString}
    (h : registry.canonical reference = .ok uri) :
    ∃ id, modelId uri = .ok id ∧ modelUri id = .ok uri := by
  unfold ModelRegistry.canonical at h
  split at h
  next target ha =>
    injection h with h
    subst h
    obtain ⟨id, hid⟩ := registry.target_ok _ _ ha
    exact ⟨id, modelId_modelUri hid, hid⟩
  next =>
    cases hid : modelId reference with
    | error e =>
        rw [hid] at h
        cases h
    | ok id =>
        rw [hid] at h
        injection h with h
        subst h
        obtain ⟨hv, huri⟩ := modelId_ok hid
        exact ⟨id, hid, huri ▸ modelUri_of_valid hv⟩

-- ================================================================= catalog

/-- The model directory, as the outside answers for it: the listing of
the readable packages, the inspection of one, and the detaching of one
from the directory. -/
structure ModelCatalog where
  scan : Probe → Except Exn (List ResolvedModel)
  inspect : Probe → ResolvedModel → Except Exn ModelVerification
  detach : Probe → ResolvedModel → Except Exn Unit

namespace ModelCatalog

/-- `ModelCatalog::Impl::find`, and with it `ModelCatalog::resolve`. -/
def resolve (catalog : ModelCatalog) (probe : Probe) (uri : QString) :
    Except Exn ResolvedModel := do
  let id ← modelId uri
  let models ← catalog.scan probe
  match models.filter fun m => m.record.manifest.id == id with
  | [] => .error (err .NotFound
      "Model is not installed; inspect models.list issues for invalid packages")
  | [found] => .ok found
  | _ => .error (err .AlreadyExists
      "Ambiguous model URI: duplicate manifest id")

/-- `ModelCatalog::verify`. -/
def verify (catalog : ModelCatalog) (env : Env) (uri : QString) :
    Except Exn ModelVerification := do
  env.throwIfCancelled .verify
  let model ← catalog.resolve env.probe uri
  match catalog.inspect env.probe model with
  | .ok result => .ok result
  | .error (.error e) =>
      if e.code = .Cancelled then .error (.error e)
      else .ok { model := uri, issues := [e.message] }
  | .error e => .error e

/-- `ModelCatalog::remove`. -/
def remove (catalog : ModelCatalog) (probe : Probe) (uri : QString) :
    Except Exn Unit := do
  let model ← catalog.resolve probe uri
  catalog.detach probe model

/-- A resolved model carries the id it was asked for. -/
theorem resolve_id {catalog : ModelCatalog} {probe : Probe} {uri id : QString}
    {found : ResolvedModel} (hid : modelId uri = .ok id)
    (h : catalog.resolve probe uri = .ok found) :
    found.record.manifest.id = id := by
  unfold resolve at h
  rw [hid] at h
  cases hs : catalog.scan probe with
  | error e =>
      rw [hs] at h
      cases h
  | ok models =>
      rw [hs] at h
      simp only [bind, Except.bind] at h
      split at h
      case h_1 => cases h
      case h_3 => cases h
      case h_2 m hm =>
        injection h with h
        subst h
        have hmem : m ∈ models.filter fun m => m.record.manifest.id == id := by
          rw [hm]
          exact List.mem_singleton_self m
        simpa using (List.mem_filter.1 hmem).2

end ModelCatalog

end LocalLLM
