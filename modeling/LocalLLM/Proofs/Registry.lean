/-
What the registry is, once its constructor has accepted a document.

`Taken` says what one model of the document becomes: a package whose
manifest parses, with one allowed URL for each file and no other source,
since there are as many sources as files and every file has one
(`sources_exact`). `Read` is the loop invariant over the models taken so
far. From it the tables are those that pulls are made with
(`read_registry`): every alias leads to a package, a name is canonical
after one step, and the sizes of a package are small enough for the
arithmetic of a pull, so its check against overflow never fails
(`needed_taken`).
-/
import LocalLLM.Models.ModelRegistry
import LocalLLM.Proofs.Publication

namespace LocalLLM

namespace RegistryTables

open Std Json
open ManifestObject (parseModelManifest)
open ModelsDirectory (RegistryPackage needed)

variable {l : Letters} {urlOf : QString → Url} {t t' : RegistryTables}

-- ================================================================ one package

/-- The members of a model of the document. -/
def manifestOf (value : Json) : JsonObject :=
  toObject (lookup (toObject (some value)) (qs "manifest"))

def sourcesOf (value : Json) : JsonObject :=
  toObject (lookup (toObject (some value)) (qs "sources"))

def aliasesOf (value : Json) : List QString :=
  (toArray (lookup (toObject (some value)) (qs "aliases"))).map fun name =>
    toText (some name)

/-- What is asked of a file and its URL. -/
structure Sourced (urlOf : QString → Url) (sources : JsonObject)
    (file : ModelFile) (url : QString) : Prop where
  given : lookup sources file.path = some (.string url)
  allowed : allowedUrl (urlOf url) = true
  pos : 0 < file.size
  le : file.size ≤ 2 ^ 40
  digest : file.sha256.length = 64

/-- What a model of the document becomes. -/
structure Taken (l : Letters) (urlOf : QString → Url) (value : Json)
    (uri : QString) (e : RegistryEntry) : Prop where
  parsed : parseModelManifest l (manifestOf value) = .ok e.manifest
  named : modelUri e.manifest.id = .ok uri
  files : e.manifest.files ≠ []
  sourced : List.Forall₂ (Sourced urlOf (sourcesOf value))
    e.manifest.files e.urls
  /-- Nothing else is named as a source. -/
  exact : ((sourcesOf value).map Prod.fst).Perm
    (e.manifest.files.map ModelFile.path)

/-- A text that is not empty has been given. -/
theorem lookup_of_toText {value : Option Json} (h : toText value ≠ []) :
    value = some (.string (toText value)) := by
  unfold toText at h ⊢
  split at h
  next text => rfl
  next => exact absurd rfl h

theorem takeSource_ok {sources : JsonObject} {file : ModelFile} {url : QString}
    (hempty : allowedUrl (urlOf []) = false)
    (h : takeSource urlOf sources file = .ok url) :
    Sourced urlOf sources file url := by
  obtain ⟨_, hfacts, h⟩ := bind_eq_ok.1 h
  obtain ⟨hallowed, hpos, hle, hdigest⟩ := require_eq_ok.1 hfacts
  injection h with h
  subst h
  refine ⟨lookup_of_toText fun hnil => ?_, hallowed, hpos, hle, hdigest⟩
  rw [hnil, hempty] at hallowed
  cases hallowed

theorem takeSources_ok {sources : JsonObject}
    (hempty : allowedUrl (urlOf []) = false) :
    ∀ {files : List ModelFile} {urls : List QString},
      takeSources urlOf sources files = .ok urls →
      List.Forall₂ (Sourced urlOf sources) files urls := by
  intro files
  induction files with
  | nil =>
      intro urls h
      injection h with h
      subst h
      exact .nil
  | cons file rest ih =>
      intro urls h
      obtain ⟨url, hurl, h⟩ := bind_eq_ok.1 h
      obtain ⟨more, hmore, h⟩ := bind_eq_ok.1 h
      injection h with h
      subst h
      exact .cons (takeSource_ok hempty hurl) (ih hmore)

/-- Every file has its URL. -/
theorem sourced_of_mem {sources : JsonObject} {files : List ModelFile}
    {urls : List QString}
    (h : List.Forall₂ (Sourced urlOf sources) files urls) {file : ModelFile}
    (hfile : file ∈ files) : ∃ url, Sourced urlOf sources file url := by
  induction h with
  | nil => cases hfile
  | @cons first url files urls hfirst hrest ih =>
      cases List.mem_cons.1 hfile with
      | inl heq => exact ⟨url, heq ▸ hfirst⟩
      | inr hmem => exact ih hmem

/-- As many sources as files, and one for each: there are no others. -/
theorem sources_exact {sources : JsonObject} {files : List ModelFile}
    {urls : List QString}
    (hsourced : List.Forall₂ (Sourced urlOf sources) files urls)
    (hnodup : (files.map ModelFile.path).Nodup)
    (hlength : sources.length = files.length) :
    (sources.map Prod.fst).Perm (files.map ModelFile.path) := by
  have hsub : (files.map ModelFile.path).Subperm (sources.map Prod.fst) := by
    refine List.subperm_of_subset hnodup fun path hpath => ?_
    obtain ⟨file, hfile, rfl⟩ := List.mem_map.1 hpath
    obtain ⟨url, hurl⟩ := sourced_of_mem hsourced hfile
    exact List.mem_map_of_mem (mem_of_lookup hurl.given)
  refine (hsub.perm_of_length_le ?_).symm
  simp [hlength]

/-- The inventory of a manifest: no path twice, and ten thousand
files at most. -/
theorem parsed_inventory {o : JsonObject} {m : ModelManifest}
    (h : parseModelManifest l o = .ok m) :
    (m.files.map ModelFile.path).Nodup ∧ m.files.length ≤ 10000 := by
  obtain ⟨_, -, h⟩ := bind_eq_ok.1 h
  obtain ⟨_, -, h⟩ := bind_eq_ok.1 h
  obtain ⟨id, -, h⟩ := bind_eq_ok.1 h
  obtain ⟨_, -, h⟩ := bind_eq_ok.1 h
  obtain ⟨_, -, h⟩ := bind_eq_ok.1 h
  obtain ⟨_, -, h⟩ := bind_eq_ok.1 h
  obtain ⟨_, -, h⟩ := bind_eq_ok.1 h
  obtain ⟨_, -, h⟩ := bind_eq_ok.1 h
  obtain ⟨_, -, h⟩ := bind_eq_ok.1 h
  obtain ⟨_, -, h⟩ := bind_eq_ok.1 h
  obtain ⟨files, hfiles, h⟩ := bind_eq_ok.1 h
  injection h with h
  subst h
  obtain ⟨-, hfiles⟩ := ManifestObject.demand_bind_eq_ok.1 hfiles
  obtain ⟨hcount, hfiles⟩ := ManifestObject.demand_bind_eq_ok.1 hfiles
  obtain ⟨-, hnodup, hpaths⟩ := ManifestObject.takeFiles_paths hfiles
  refine ⟨List.Nodup.of_map l.toCaseFolded ?_, ?_⟩
  · rw [List.map_map]
    exact hnodup
  · have hlength := congrArg List.length hpaths
    simp only [List.length_map] at hlength
    show files.length ≤ 10000
    omega

-- ================================================================ the aliases

/-- What the aliases of a package add to the table. -/
structure Named (uri : QString) (names : List QString)
    (a a' : ExtTreeMap QString QString) : Prop where
  find : ∀ name, a'[name]? = if name ∈ names then some uri else a[name]?
  fresh : ∀ name ∈ names, a[name]? = none
  nodup : names.Nodup
  syntactic : ∀ name ∈ names, aliasSyntax name = true ∧ name.length ≤ 128

/-- The loop over the aliases of a model: each is well formed, new, and leads
to that model. -/
theorem takeAliases_ok {uri : QString} :
    ∀ {values : List Json} {a a' : ExtTreeMap QString QString},
      takeAliases uri values a = .ok a' →
      Named uri (values.map fun name => toText (some name)) a a' := by
  intro values
  induction values with
  | nil =>
      intro a a' h
      injection h with h
      subst h
      exact ⟨by simp, by simp, by simp, by simp⟩
  | cons value rest ih =>
      intro a a' h
      obtain ⟨_, hformed, h⟩ := bind_eq_ok.1 h
      obtain ⟨_, hfresh, h⟩ := bind_eq_ok.1 h
      obtain ⟨-, hlength, hformed⟩ := require_eq_ok.1 hformed
      have hfresh := (Maps.not_mem_iff_find _ _).1 (require_eq_ok.1 hfresh)
      have hrest := ih h
      have hother : ∀ name ∈ rest.map fun name => toText (some name),
          name ≠ toText (some value) := by
        intro name hname heq
        have hnone := hrest.fresh name hname
        rw [heq, Maps.find_insert_self] at hnone
        cases hnone
      refine ⟨fun name => ?_, fun name hname => ?_, ?_, fun name hname => ?_⟩
      · rw [hrest.find name, Maps.find_insert]
        by_cases hfirst : name = toText (some value)
        · simp [hfirst]
        · simp [hfirst, Ne.symm hfirst]
      · cases List.mem_cons.1 hname with
        | inl heq => exact heq ▸ hfresh
        | inr hmem =>
            have hnone := hrest.fresh name hmem
            rwa [Maps.find_insert_ne _ _ (Ne.symm (hother name hmem))] at hnone
      · rw [List.map_cons, List.nodup_cons]
        exact ⟨fun hmem => hother _ hmem rfl, hrest.nodup⟩
      · cases List.mem_cons.1 hname with
        | inl heq => exact heq ▸ ⟨hformed, hlength⟩
        | inr hmem => exact hrest.syntactic name hmem

-- ================================================================= the tables

/-- The tables, after some models of the document. -/
structure Read (l : Letters) (urlOf : QString → Url) (values : List Json)
    (t : RegistryTables) : Prop where
  packages : ∀ (uri : QString) (e : RegistryEntry), t.packages[uri]? = some e →
    ∃ value ∈ values, Taken l urlOf value uri e
  taken : ∀ value ∈ values, ∃ uri e,
    t.packages[uri]? = some e ∧ Taken l urlOf value uri e
    ∧ ∀ name ∈ aliasesOf value, t.aliases[name]? = some uri
  size : t.packages.size = values.length
  aliases : ∀ name uri : QString, t.aliases[name]? = some uri →
    uri ∈ t.packages ∧ aliasSyntax name = true ∧ name.length ≤ 128
      ∧ ∃ value ∈ values, name ∈ aliasesOf value

theorem read_start : Read l urlOf [] {} where
  packages := by simp
  taken := by simp
  size := by simp
  aliases := by simp

/-- One more model is read: its id and its aliases are new, and the tables gain
exactly them. -/
theorem Read.step {values : List Json} (h : Read l urlOf values t)
    {value : Json} (hempty : allowedUrl (urlOf []) = false)
    (htake : takeModel l urlOf t value = .ok t') :
    Read l urlOf (values ++ [value]) t' := by
  obtain ⟨manifest, hparse, htake⟩ := bind_eq_ok.1 htake
  obtain ⟨_, hfiles, htake⟩ := bind_eq_ok.1 htake
  obtain ⟨_, hlength, htake⟩ := bind_eq_ok.1 htake
  obtain ⟨urls, hurls, htake⟩ := bind_eq_ok.1 htake
  obtain ⟨uri, huri, htake⟩ := bind_eq_ok.1 htake
  obtain ⟨_, hfresh, htake⟩ := bind_eq_ok.1 htake
  obtain ⟨_, -, htake⟩ := bind_eq_ok.1 htake
  obtain ⟨aliases, haliases, htake⟩ := bind_eq_ok.1 htake
  injection htake with htake
  subst htake
  have hsourced := takeSources_ok hempty hurls
  have hfresh := (Maps.not_mem_iff_find _ _).1 (require_eq_ok.1 hfresh)
  have hnamed : Named uri (aliasesOf value) t.aliases aliases :=
    takeAliases_ok haliases
  have htaken : Taken l urlOf value uri ⟨manifest, urls⟩ :=
    ⟨hparse, huri, require_eq_ok.1 hfiles, hsourced,
      sources_exact hsourced (parsed_inventory hparse).1
        (require_eq_ok.1 hlength)⟩
  have hkept : ∀ (other : QString) (e : RegistryEntry),
    t.packages[other]? = some e →
      (t.packages.insert uri ⟨manifest, urls⟩)[other]? = some e := by
    intro other e he
    rw [Maps.find_insert_ne]
    · exact he
    · intro heq
      rw [← heq, hfresh] at he
      cases he
  refine ⟨fun other e he => ?_, fun other hother => ?_, ?_,
    fun name other hname => ?_⟩
  · rw [Maps.find_insert] at he
    split at he
    next heq =>
      injection he with he
      exact ⟨value, by simp, heq ▸ he ▸ htaken⟩
    next =>
      obtain ⟨value', hmem, htaken'⟩ := h.packages other e he
      exact ⟨value', by simp [hmem], htaken'⟩
  · cases List.mem_append.1 hother with
    | inl hold =>
        obtain ⟨uri', e, he, htaken', hnames⟩ := h.taken other hold
        refine ⟨uri', e, hkept uri' e he, htaken', fun name hname => ?_⟩
        rw [hnamed.find name, if_neg, hnames name hname]
        intro hmem
        have hnone := hnamed.fresh name hmem
        rw [hnames name hname] at hnone
        cases hnone
    | inr hnew =>
        rw [List.mem_singleton.1 hnew]
        refine ⟨uri, _, Maps.find_insert_self _ _ _, htaken,
          fun name hname => ?_⟩
        rw [hnamed.find name, if_pos hname]
  · rw [Maps.size_insert_of_none _ hfresh, h.size, List.length_append]
    rfl
  · rw [hnamed.find name] at hname
    split at hname
    next hmem =>
      injection hname with hname
      subst hname
      obtain ⟨hformed, hlength⟩ := hnamed.syntactic name hmem
      exact ⟨by simp, hformed, hlength, value, by simp, hmem⟩
    next =>
      obtain ⟨hmem, hformed, hlength, value', hvalue', hgiven⟩ :=
        h.aliases name other hname
      obtain ⟨e, he⟩ := (Maps.mem_iff_find _ _).1 hmem
      exact ⟨(Maps.mem_iff_find _ _).2 ⟨e, hkept other e he⟩, hformed,
        hlength, value',
        by simp [hvalue'], hgiven⟩

theorem takeModels_read (hempty : allowedUrl (urlOf []) = false) :
    ∀ {rest done : List Json} {t t' : RegistryTables}, Read l urlOf done t →
      takeModels l urlOf rest t = .ok t' → Read l urlOf (done ++ rest) t' := by
  intro rest
  induction rest with
  | nil =>
      intro done t t' h htake
      injection htake with htake
      subst htake
      rwa [List.append_nil]
  | cons value rest ih =>
      intro done t t' h htake
      obtain ⟨u, hu, htake⟩ := bind_eq_ok.1 htake
      have hrest := ih (h.step hempty hu) htake
      rwa [List.append_assoc] at hrest

-- ================================================================== the pulls

/-- The sizes of a package stay far below the limit of the sum. -/
theorem needed_small : ∀ {files : List ModelFile} {bytes : Int},
    (∀ file ∈ files, 0 < file.size ∧ file.size ≤ 2 ^ 40) → 0 ≤ bytes →
    bytes + 2 ^ 41 * files.length ≤ 2 ^ 62 →
    needed files bytes = .ok (bytes + 2 * (files.map ModelFile.size).sum) := by
  intro files
  induction files with
  | nil =>
      intro bytes _ _ _
      simp [needed]
  | cons file rest ih =>
      intro bytes hsizes hbytes hroom
      obtain ⟨hpos, hle⟩ := hsizes file List.mem_cons_self
      rw [List.length_cons, Nat.cast_add, Nat.cast_one] at hroom
      have hsmall : file.size ≤ (2 ^ 63 - 1 - bytes).tdiv 2 := by
        rw [Int.tdiv_eq_ediv_of_nonneg (by omega)]
        omega
      have hrest := @ih (bytes + file.size * 2)
        (fun other hother => hsizes other (List.mem_cons_of_mem _ hother))
        (by omega) (by omega)
      unfold needed
      have hchecked : require (file.size ≤ (2 ^ 63 - 1 - bytes).tdiv 2)
        .ResourceLimit
        "Package is too large" = .ok () := require_eq_ok.2 hsmall
      rw [hchecked]
      refine hrest.trans ?_
      simp only [List.map_cons, List.sum_cons, Except.ok.injEq]
      ring

/-- The size of a package of the registry is known exactly. -/
theorem needed_taken {value : Json} {uri : QString} {e : RegistryEntry}
    (h : Taken l urlOf value uri e) :
    needed e.manifest.files 0
      = .ok (2 * (e.manifest.files.map ModelFile.size).sum) := by
  have hcount := (parsed_inventory h.parsed).2
  rw [needed_small, Int.zero_add]
  · intro file hfile
    obtain ⟨url, hurl⟩ := sourced_of_mem h.sourced hfile
    exact ⟨hurl.pos, hurl.le⟩
  · exact Int.le_refl 0
  · omega

/-- What a pull takes a package for. -/
structure Good (l : Letters) (e : RegistryEntry) : Prop where
  parsed : ∃ document, parseModelManifest l document = .ok e.manifest
  files : e.manifest.files ≠ []
  sources : e.urls.length = e.manifest.files.length

theorem Taken.good {value : Json} {uri : QString} {e : RegistryEntry}
    (h : Taken l urlOf value uri e) : Good l e :=
  ⟨⟨_, h.parsed⟩, h.files, h.sourced.length_eq.symm⟩

open Classical in
/-- The package of an entry. -/
noncomputable def package (l : Letters) (e : RegistryEntry) :
    Option (RegistryPackage l) :=
  if h : Good l e then some ⟨e.manifest, e.urls, h.parsed, h.files, h.sources⟩
    else none

/-- The packages that pulls are made with. -/
noncomputable def pulled (l : Letters) (t : RegistryTables) :
    ExtTreeMap QString (RegistryPackage l) :=
  t.packages.filterMap fun _ e => package l e

theorem Read.pulled {values : List Json} (h : Read l urlOf values t)
    (uri : QString) : ((pulled l t)[uri]?.map fun p => (p.manifest, p.urls))
      = t.packages[uri]?.map fun e => (e.manifest, e.urls) := by
  unfold RegistryTables.pulled
  rw [ExtTreeMap.getElem?_filterMap']
  cases he : t.packages[uri]? with
  | none => rfl
  | some e =>
      obtain ⟨value, -, htaken⟩ := h.packages uri e he
      simp [package, htaken.good]

theorem Read.syntax_ok {values : List Json} (h : Read l urlOf values t) :
    ∀ k uri : QString, t.aliases[k]? = some uri → aliasSyntax k = true :=
  fun k uri hk => (h.aliases k uri hk).2.1

theorem Read.target_ok {values : List Json} (h : Read l urlOf values t) :
    ∀ k uri : QString, t.aliases[k]? = some uri →
    ∃ id, modelUri id = .ok uri := by
  intro k uri hk
  obtain ⟨e, he⟩ := (Maps.mem_iff_find _ _).1 (h.aliases k uri hk).1
  obtain ⟨value, -, htaken⟩ := h.packages uri e he
  exact ⟨_, htaken.named⟩

/-- The alias table that names are looked up in. -/
def Read.registry {values : List Json} (h : Read l urlOf values t) :
    ModelRegistry where
  aliases := t.aliases
  syntax_ok := h.syntax_ok
  target_ok := h.target_ok

/-- What the service has of a registry. -/
structure Registered (l : Letters) (urlOf : QString → Url) (values : List Json)
    (t : RegistryTables) (registry : ModelRegistry)
    (packages : ExtTreeMap QString (RegistryPackage l)) : Prop where
  /-- The tables hold the models of the document, and nothing else. -/
  read : Read l urlOf values t
  same : registry.aliases = t.aliases
  pulled : ∀ uri : QString,
    (packages[uri]?.map fun p : RegistryPackage l => (p.manifest, p.urls))
      = t.packages[uri]?.map fun e : RegistryEntry => (e.manifest, e.urls)
  /-- An alias leads to a package. -/
  known : ∀ name uri : QString, registry.aliases[name]? = some uri →
    uri ∈ packages
  /-- One step leads to the canonical name. -/
  canonical : ∀ reference uri, registry.canonical reference = .ok uri →
    registry.canonical uri = .ok uri
  /-- The bytes of a package are counted without an overflow. -/
  counted : ∀ (uri : QString) (p : RegistryPackage l),
    packages[uri]? = some p →
    needed p.manifest.files 0
      = .ok (2 * (p.manifest.files.map ModelFile.size).sum)

theorem Read.registered {values : List Json} (h : Read l urlOf values t) :
    Registered l urlOf values t h.registry (RegistryTables.pulled l t) where
  read := h
  same := rfl
  pulled := h.pulled
  known := fun name uri hname => by
    obtain ⟨e, he⟩ := (Maps.mem_iff_find _ _).1 (h.aliases name uri hname).1
    have hpulled := h.pulled uri
    rw [he] at hpulled
    obtain ⟨p, hp, -⟩ := Option.map_eq_some_iff.1 hpulled
    exact (Maps.mem_iff_find _ _).2 ⟨p, hp⟩
  canonical := fun reference uri hreference => by
    obtain ⟨id, -, huri⟩ := canonical_ok hreference
    exact canonical_modelUri _ huri
  counted := fun uri p hp => by
    have hpulled := h.pulled uri
    rw [hp] at hpulled
    obtain ⟨e, he, hsame⟩ := Option.map_eq_some_iff.1 hpulled.symm
    obtain ⟨value, -, htaken⟩ := h.packages uri e he
    rw [← (Prod.mk.inj hsame).1]
    exact needed_taken htaken

/-- **What the constructor accepts is what pulls rely on.** For a document
that it accepts, the tables are exactly the models of the document, with an
allowed URL for every file; and they are an alias table and a table of
packages as `pull` takes them. -/
theorem read_registry (hempty : (urlOf []).isValid = false) (size : Nat)
    (document : Option JsonObject) (h : read l urlOf size document = .ok t) :
    ∃ object, document = some object ∧ ∃ registry packages,
      Registered l urlOf (toArray (lookup object (qs "models"))) t registry
        packages := by
  have hnone : allowedUrl (urlOf []) = false := by simp [allowedUrl, hempty]
  obtain ⟨_, -, h⟩ := bind_eq_ok.1 h
  cases document with
  | none => cases h
  | some object =>
      obtain ⟨_, -, h⟩ := bind_eq_ok.1 h
      have hread := takeModels_read hnone read_start h
      exact ⟨object, rfl, hread.registry, RegistryTables.pulled l t,
        hread.registered⟩

/-- The URL of one host. -/
def sampleUrl (text : QString) : Url :=
  if text = qs "https://host/model.gguf" then
    { isValid := true, scheme := qs "https", host := qs "host" }
  else { isValid := false, scheme := [], host := [] }

/-- A registry of one model. -/
def sampleRegistry : JsonObject :=
  [(qs "models", .array [.object (ofMembers
    [(qs "manifest", .object ManifestObject.sampleManifest),
      (qs "sources", .object [(qs "model.gguf",
        .string (qs "https://host/model.gguf"))]),
      (qs "aliases", .array [.string (qs "tiny:latest"),
        .string (qs "tiny")])])])]

/-- A document with two models is read as both of them. -/
theorem read_registry_sample :
    ∃ t, read ManifestObject.asciiLetters sampleUrl 300 (some sampleRegistry)
      = .ok t
      ∧ ∃ object, some sampleRegistry = some object ∧ ∃ registry packages,
        Registered ManifestObject.asciiLetters sampleUrl
          (toArray (lookup object (qs "models"))) t registry packages :=
  ⟨_, rfl, read_registry rfl 300 (some sampleRegistry) rfl⟩

end RegistryTables

end LocalLLM
