/-
Publication in the Models directory, over any sequence of calls.

# One call

What is temporary has a hidden name, so only a rename changes the public
listing: the one that ends an installation (`install_cases`), and the one that
detaches a package (`remove_cases`). A `pull` is an installation with a
temporary directory around it (`pull_cases`).

# Uniqueness

An installation asks a scan for its id. A scan leaves out what it
cannot read, so the answer is right when it can look into each
directory that has the id under another name (`Sees`). Under its own
name the package is met by the rename.
-/
import LocalLLM.Lib.System
import LocalLLM.Proofs.Scanning

namespace LocalLLM.ModelsDirectory

open Std
open ModelInspection
open ManifestObject (parseModelManifest manifestObject)

variable {lib : Library} {chance : Chance} {models models' : Models}

-- ================================================================ the listing

/-- The three kinds of temporary directory are hidden by their names. -/
theorem isHidden_temporary (suffix : QString) :
    isHidden (qs ".install-" ++ suffix) = true
      ∧ isHidden (qs ".remove-" ++ suffix) = true
      ∧ isHidden (qs ".pull-" ++ suffix) = true := ⟨rfl, rfl, rfl⟩

/-- The id of a model is no hidden name. -/
theorem isHidden_of_validId {id : QString} (h : validId id = true) :
    isHidden id = false := by
  unfold isHidden
  cases id with
  | nil => rfl
  | cons u rest =>
      have hcore : idCore (dollarBody (u :: rest)) = true := by
        unfold validId at h
        exact (Bool.and_eq_true _ _ ▸ h).1
      have hedge : idEdge u = true := by
        unfold dollarBody at hcore
        split at hcore
        · cases rest with
          | nil => cases hcore
          | cons v rest =>
              unfold idCore at hcore
              exact (Bool.and_eq_true _ _ ▸ hcore).1
        · unfold idCore at hcore
          exact (Bool.and_eq_true _ _ ▸ hcore).1
      rw [List.head?_cons]
      refine decide_eq_false fun heq => ?_
      injection heq with heq
      rw [heq] at hedge
      exact absurd hedge (by decide)

/-- Work in a hidden directory is invisible to a scan. -/
theorem listed_insert_hidden (models : Models) {name : QString}
    (h : isHidden name = true) (node : Node) :
    listed (models.insert name node) = listed models := by
  funext other
  unfold listed
  by_cases hother : isHidden other = true
  · rw [if_pos hother, if_pos hother]
  · rw [if_neg hother, if_neg hother, Maps.find_insert_ne]
    intro heq
    exact hother (heq ▸ h)

/-- So is clearing it away. -/
theorem listed_erase_hidden {name : QString} (h : isHidden name = true) :
    listed (models.erase name) = listed models := by
  funext other
  unfold listed
  by_cases hother : isHidden other = true
  · rw [if_pos hother, if_pos hother]
  · rw [if_neg hother, if_neg hother, Maps.find_erase_ne]
    intro heq
    exact hother (heq ▸ h)

/-- Nobody sees a temporary directory end. -/
theorem listed_discard {name : QString} (h : isHidden name = true) :
    listed (discard chance name models) = listed models := by
  unfold discard
  split
  · exact listed_insert_hidden models h _
  · exact listed_erase_hidden h

/-- Publishing is one change of the listing, under one name. -/
theorem listed_insert (models : Models) {name : QString}
    (h : isHidden name = false) (node : Node) :
    listed (models.insert name node)
      = Function.update (listed models) name (some node) := by
  funext other
  by_cases heq : other = name
  · rw [heq, Function.update_self]
    exact listed_eq_some.2 ⟨h, Maps.find_insert_self _ _ _⟩
  · rw [Function.update_of_ne heq]
    unfold listed
    rw [Maps.find_insert_ne _ _ fun h => heq h.symm]

/-- So is taking a package out. -/
theorem listed_erase (models : Models) (name : QString) :
    listed (models.erase name)
      = Function.update (listed models) name none := by
  funext other
  by_cases heq : other = name
  · rw [heq, Function.update_self]
    unfold listed
    rw [Maps.find_erase_self]
    exact ite_self _
  · rw [Function.update_of_ne heq]
    unfold listed
    rw [Maps.find_erase_ne _ fun h => heq h.symm]

-- ============================================================ an installation

/-- What `QJsonDocument` writes of a manifest it reads again. -/
def Faithful (lib : Library) : Prop :=
  ∀ document m, parseModelManifest lib.letters document = .ok m →
    (lib.toJson (manifestObject m)).length ≤ maxManifestBytes →
    lib.fromJson (lib.toJson (manifestObject m)) = some (manifestObject m)

/-- What a temporary directory holds is read as its package,
wherever it lies. -/
theorem Copied.reads (hjson : Faithful lib) {m : ModelManifest}
    {staged : Staged} (h : Copied lib m staged) (name : QString) :
    scanEntry lib {} (name, tree staged) = .ok m := by
  obtain ⟨document, hdocument⟩ := h.parsed
  refine scanEntry_ok.2 ⟨rfl, ?_, h.recorded⟩
  have hfollow : follow [qs "manifest.json"] (tree staged)
      = some (.file (lib.toJson (manifestObject m))) :=
    (follow_iff _ (proper_tree h.apart)).2 ((at_tree h.apart).2 h.written)
  unfold readManifest
  dsimp only
  rw [hfollow]
  refine bind_eq_ok.2 ⟨(), rfl, bind_eq_ok.2 ⟨(), require_eq_ok.2 h.short,
    bind_eq_ok.2 ⟨(), rfl, ?_⟩⟩⟩
  rw [if_neg Bool.false_ne_true, List.take_of_length_le
    (Nat.le_succ_of_le h.short),
    hjson _ _ hdocument h.short]
  exact ManifestObject.written_parses hdocument

/-- What an installation that publishes has done before its rename. -/
structure Installs (lib : Library) (chance : Chance) (source : Source)
    (models : Models) (m : ModelManifest) (staged : Staged) : Prop where
  source : ∃ m', readManifest lib chance .source source.node = .ok m'
    ∧ m'.id = m.id
  scanned : ∃ s, scan lib chance models = .ok s
    ∧ ∀ p ∈ s.models, p.model.record.manifest.id ≠ m.id
  copied : Copied lib m staged
  inspected : ∃ result, inspectPackage lib chance .staging (tree staged) m
    = .ok result
    ∧ result.valid = true
  absent : m.id ∉ models

/-- What has been copied into place carries the id that its manifest was
checked for. -/
theorem Copied.validId {m : ModelManifest} {staged : Staged}
    (h : Copied lib m staged) : validId m.id = true := by
  obtain ⟨document, hdocument⟩ := h.parsed
  obtain ⟨uri, huri⟩ := (parsed_inspectable hdocument).named
  exact (modelUri_ok huri).1

/-- What an installation has asked before it makes a temporary directory. -/
theorem admission_ok {source : Source} {m : ModelManifest}
    (h : admission lib chance source models = .ok m) :
    readManifest lib chance .source source.node = .ok m
      ∧ ∃ s, scan lib chance models = .ok s
        ∧ ∀ p ∈ s.models, p.model.record.manifest.id ≠ m.id := by
  unfold admission at h
  obtain ⟨_, -, h⟩ := bind_eq_ok.1 h
  obtain ⟨_, -, h⟩ := bind_eq_ok.1 h
  obtain ⟨m', hread, h⟩ := bind_eq_ok.1 h
  obtain ⟨_, -, h⟩ := bind_eq_ok.1 h
  obtain ⟨_, -, h⟩ := bind_eq_ok.1 h
  obtain ⟨s, hscan, h⟩ := bind_eq_ok.1 h
  obtain ⟨_, hfree, h⟩ := bind_eq_ok.1 h
  obtain ⟨_, -, h⟩ := bind_eq_ok.1 h
  injection h with h
  exact ⟨h ▸ hread, s, hscan, h ▸ require_eq_ok.1 hfree⟩

/-- An installation fails and changes nothing that is listed, or it
publishes one directory. -/
theorem install_cases (lib : Library) (chance : Chance) (source : Source)
    (models : Models) :
    (∃ e, (install lib chance source models).1 = .error e
        ∧ listed (install lib chance source models).2 = listed models)
      ∨ ∃ m staged, Installs lib chance source models m staged
        ∧ install lib chance source models
          = (.ok { uri := qs "model://" ++ m.id, manifest := m },
            models.insert m.id (tree staged)) := by
  have hhidden := (isHidden_temporary chance.suffix).1
  unfold install
  cases hadmission : admission lib chance source models with
  | error e => exact .inl ⟨e, rfl, rfl⟩
  | ok manifest =>
      dsimp only
      by_cases hmake : chance.fails .makeStaging = true
          ∨ qs ".install-" ++ chance.suffix ∈ models
      · rw [if_pos hmake]
        exact .inl ⟨_, rfl, rfl⟩
      · rw [if_neg hmake]
        cases hstage : stage lib chance source.node manifest with
        | error e => exact .inl ⟨e, rfl, listed_discard hhidden⟩
        | ok result =>
            obtain ⟨m, staged⟩ := result
            obtain ⟨hid, hcopied, hinspected⟩ := stage_ok hstage
            obtain ⟨hread, s, hscan, hfree⟩ := admission_ok hadmission
            dsimp only
            by_cases hrename : chance.fails .rename = true
              ∨ manifest.id ∈ models
            · rw [if_pos hrename]
              exact .inl ⟨_, rfl, listed_discard hhidden⟩
            · rw [if_neg hrename, modelUri_of_valid hcopied.validId]
              refine .inr ⟨m, staged, ⟨?_, ?_, hcopied, hinspected, ?_⟩, ?_⟩
              · exact ⟨manifest, hread, hid.symm⟩
              · exact ⟨s, hscan, fun p hp => hid ▸ hfree p hp⟩
              · rw [hid]
                exact fun hmem => hrename (.inr hmem)
              · rw [hid]
                rfl

-- ================================================================= a download

/-- A manifest that was written is the manifest that is read. -/
theorem readManifest_written (hjson : Faithful lib)
    {place : Place} {node : Node} {m m' : ModelManifest}
    (hparsed : ∃ document, parseModelManifest lib.letters document = .ok m)
    (hfile : follow [qs "manifest.json"] node
      = some (.file (lib.toJson (manifestObject m))))
    (h : readManifest lib chance place node = .ok m') : m' = m := by
  obtain ⟨document, hdocument⟩ := hparsed
  have hcalm := readManifest_calm h place
  unfold readManifest at hcalm
  rw [hfile] at hcalm
  obtain ⟨_, -, hcalm⟩ := bind_eq_ok.1 hcalm
  obtain ⟨_, hlength, hcalm⟩ := bind_eq_ok.1 hcalm
  obtain ⟨_, -, hcalm⟩ := bind_eq_ok.1 hcalm
  have hshort := require_eq_ok.1 hlength
  rw [if_neg Bool.false_ne_true, List.take_of_length_le
    (Nat.le_succ_of_le hshort),
    hjson _ _ hdocument hshort] at hcalm
  have hread : parseModelManifest lib.letters (manifestObject m)
    = .ok m' := hcalm
  rw [ManifestObject.written_parses hdocument] at hread
  injection hread with hread
  exact hread.symm

section Downloads

variable {chance : PullChance}

/-- A download that succeeds adds one file, at a path that neither covers a
staged one nor lies below it. -/
theorem download_ok {url : QString} {file : ModelFile}
    {staged staged' : Staged}
    (h : download lib chance url file staged = .ok staged') :
    ∃ data, staged' = staged ++ [(pathParts file.path, data)]
      ∧ blocked staged (pathParts file.path) = false
      ∧ covered staged (pathParts file.path) = false := by
  unfold download at h
  obtain ⟨_, hfree, h⟩ := bind_eq_ok.1 h
  obtain ⟨data, -, h⟩ := bind_eq_ok.1 h
  obtain ⟨-, hblocked, hcovered⟩ := demandThat_eq_ok.1 hfree
  split at h
  · cases h
  · obtain ⟨_, -, h⟩ := bind_eq_ok.1 h
    obtain ⟨_, -, h⟩ := bind_eq_ok.1 h
    obtain ⟨_, -, h⟩ := bind_eq_ok.1 h
    obtain ⟨_, -, h⟩ := bind_eq_ok.1 h
    obtain ⟨_, -, h⟩ := bind_eq_ok.1 h
    injection h with h
    exact ⟨data, h.symm, hblocked, hcovered⟩

/-- What was downloaded has the paths of the files, and none is in
another's way. -/
theorem downloads_ok :
    ∀ {files : List (ModelFile × QString)} {staged staged' : Staged},
    downloads lib chance files staged = .ok staged' → Clear staged →
    (∀ f ∈ files, SafePath f.1.path) →
    (∀ f ∈ staged, ∃ path, f.1 = pathParts path ∧ SafePath path) →
    Clear staged' ∧ ∀ f ∈ staged', ∃ path,
      f.1 = pathParts path ∧ SafePath path := by
  intro files
  induction files with
  | nil =>
      intro staged staged' h hclear _ hpaths
      injection h with h
      exact h ▸ ⟨hclear, hpaths⟩
  | cons first rest ih =>
      obtain ⟨file, url⟩ := first
      intro staged staged' h hclear hsafe hpaths
      unfold downloads at h
      obtain ⟨_, -, h⟩ := bind_eq_ok.1 h
      obtain ⟨_, -, h⟩ := bind_eq_ok.1 h
      obtain ⟨more, hmore, h⟩ := bind_eq_ok.1 h
      obtain ⟨data, rfl, hblocked, hcovered⟩ := download_ok hmore
      refine ih h (hclear.append hblocked hcovered data)
        (fun f hf => hsafe f (List.mem_cons_of_mem _ hf)) fun f hf => ?_
      rcases List.mem_append.1 hf with hf | hf
      · exact hpaths f hf
      · rw [List.mem_singleton.1 hf]
        exact ⟨file.path, rfl, hsafe _ (List.mem_cons_self ..)⟩

/-- The source that a pull installs has the manifest of its package. -/
theorem fetch_ok {package : RegistryPackage lib.letters} {staged : Staged}
    (h : fetch lib chance package = .ok staged) :
    follow [qs "manifest.json"] (tree staged)
      = some (.file (lib.toJson (manifestObject package.manifest))) := by
  unfold fetch at h
  obtain ⟨files, hfiles, h⟩ := bind_eq_ok.1 h
  obtain ⟨_, hfree, h⟩ := bind_eq_ok.1 h
  obtain ⟨_, -, h⟩ := bind_eq_ok.1 h
  injection h with h
  subst h
  obtain ⟨-, hblocked, hcovered⟩ := demandThat_eq_ok.1 hfree
  obtain ⟨document, hdocument⟩ := package.parsed
  obtain ⟨-, -, hsafe⟩ :=
    parsed_files (ManifestObject.written_parses hdocument)
  obtain ⟨hclear, hpaths⟩ := downloads_ok hfiles (List.forall_mem_nil _)
    (fun f hf => hsafe _ (List.of_mem_zip hf).1) (List.forall_mem_nil _)
  have hapart := hclear.apart hblocked hcovered hpaths
    (lib.toJson (manifestObject package.manifest))
  exact (follow_iff _ (proper_tree hapart)).2 ((at_tree hapart).2
    (List.mem_append_right _ (List.mem_singleton_self _)))

end Downloads

-- ================================================================= uniqueness

/-- Uniqueness is about the listing, so hidden work cannot break it. -/
theorem Unique.congr (h : Unique lib models)
    (heq : listed models' = listed models) : Unique lib models' := by
  intro name name' m m' hm hm' hid
  exact h name name' m m' (hm.congr (congrFun heq.symm name))
    (hm'.congr (congrFun heq.symm name')) hid

/-- The scan of an installation can look into every directory that has the id
under another name. -/
def Sees (lib : Library) (chance : Chance) (id : QString) (models : Models) :
    Prop :=
  ∀ name m, Publishes lib models name m → m.id = id → name ≠ id →
  Open chance name

/-- Nor can it hide a package from a look-up. -/
theorem Sees.congr {id : QString} (h : Sees lib chance id models)
    (heq : listed models' = listed models) : Sees lib chance id models' :=
  fun name m hm => h name m (hm.congr (congrFun heq.symm name))

/-- What is published behind an installation. -/
theorem publishes_update {id : QString} {node : Node}
    (heq : listed models' = Function.update (listed models) id (some node))
    {name : QString} {m : ModelManifest} (h : Publishes lib models' name m) :
    (name = id ∧ scanEntry lib {} (name, node) = .ok m)
      ∨ (name ≠ id ∧ Publishes lib models name m) := by
  obtain ⟨other, hother, hread⟩ := h
  rw [heq] at hother
  by_cases hname : name = id
  · rw [hname, Function.update_self] at hother
    injection hother with hother
    exact .inl ⟨hname, hother ▸ hread⟩
  · rw [Function.update_of_ne hname] at hother
    exact .inr ⟨hname, other, hother, hread⟩

/-- Taking a package out leaves the others unique. -/
theorem Unique.update_none (h : Unique lib models) {name : QString}
    (heq : listed models' = Function.update (listed models) name none) :
    Unique lib models' := by
  have hkept : ∀ {other m}, Publishes lib models' other m →
      Publishes lib models other m := by
    intro other m hm
    obtain ⟨node, hnode, hread⟩ := hm
    rw [heq] at hnode
    by_cases hname : other = name
    · rw [hname, Function.update_self] at hnode
      cases hnode
    · rw [Function.update_of_ne hname] at hnode
      exact ⟨node, hnode, hread⟩
  exact fun name name' m m' hm hm' => h name name' m m' (hkept hm) (hkept hm')

section Installed

variable {source : Source} {m : ModelManifest} {staged : Staged}

/-- Behind an installation that could look for its id, ids are unique. -/
theorem Installs.unique (h : Installs lib chance source models m staged)
    (hjson : Faithful lib) (hunique : Unique lib models)
    (hsees : Sees lib chance m.id models)
    (heq : listed models' = Function.update (listed models) m.id
      (some (tree staged))) :
    Unique lib models' := by
  obtain ⟨s, hscan, hfree⟩ := h.scanned
  have hnone : ∀ name m', name ≠ m.id → Publishes lib models name m' →
      m'.id ≠ m.id := by
    intro name m' hname hpublished hid
    obtain ⟨node, hmem⟩ := scan_sees hscan hpublished
      (hsees name m' hpublished hid hname)
    exact hfree _ hmem hid
  have hreads : ∀ {m' : ModelManifest} {name : QString},
      scanEntry lib {} (name, tree staged) = .ok m' → m' = m := by
    intro m' name hread
    rw [h.copied.reads hjson name] at hread
    injection hread with hread
    exact hread.symm
  intro name name' m₁ m₂ h₁ h₂ hid
  rcases publishes_update heq h₁ with ⟨hname, hread⟩ | ⟨hname, hold⟩
  · rcases publishes_update heq h₂ with ⟨hname', -⟩ | ⟨hname', hold'⟩
    · exact hname.trans hname'.symm
    · rw [hreads hread] at hid
      exact absurd hid.symm (hnone name' m₂ hname' hold')
  · rcases publishes_update heq h₂ with ⟨hname', hread'⟩ | ⟨hname', hold'⟩
    · rw [hreads hread'] at hid
      exact absurd hid (hnone name m₁ hname hold)
    · exact hunique name name' m₁ m₂ hold hold' hid

/-- One package was added, under its id; it is found with the manifest of the
record, and its verification is valid. -/
structure Adds (lib : Library) (models models' : Models)
    (record : ModelRecord) : Prop where
  absent : listed models record.manifest.id = none
  listing : ∃ node, listed models'
    = Function.update (listed models) record.manifest.id (some node)
  resolved : ∀ calm, Calm calm → ∃ p, find lib calm record.uri models' = .ok p
    ∧ p.name = record.manifest.id ∧ p.model.record = record
  verified : ∀ calm, Calm calm → ∃ result,
    verify lib calm record.uri models' = .ok result ∧ result.valid = true

/-- An install that was carried out adds exactly its package to what the
catalog shows. -/
theorem Installs.adds (h : Installs lib chance source models m staged)
    (hjson : Faithful lib) (hunique : Unique lib models')
    {models₀ : Models} (hsame : listed models = listed models₀)
    (heq : listed models' = Function.update (listed models₀) m.id
      (some (tree staged))) :
    Adds lib models₀ models'
      { uri := qs "model://" ++ m.id, manifest := m } := by
  have hvalid := h.copied.validId
  have hpublished : Publishes lib models' m.id m := by
    refine ⟨tree staged, ?_, h.copied.reads hjson _⟩
    rw [heq, Function.update_self]
  have hfind : ∀ calm, Calm calm →
      find lib calm (qs "model://" ++ m.id) models'
        = .ok (entryOf lib m.id (tree staged) m) := by
    intro calm hcalm
    obtain ⟨node, hnode, hfind⟩ := find_published hunique hcalm hpublished
      (modelUri_of_valid hvalid)
    rw [heq, Function.update_self] at hnode
    injection hnode with hnode
    exact hnode ▸ hfind
  refine ⟨?_, ⟨tree staged, heq⟩, fun calm hcalm =>
    ⟨_, hfind calm hcalm, rfl, rfl⟩,
    fun calm hcalm => ?_⟩
  · rw [← hsame]
    unfold listed
    rw [(Maps.not_mem_iff_find _ _).1 h.absent]
    exact ite_self _
  · obtain ⟨result, hinspect, hresult⟩ := h.inspected
    obtain ⟨document, hdocument⟩ := h.copied.parsed
    have hagain : ∃ result',
      inspectPackage lib calm (.published m.id) (tree staged) m
        = .ok result' ∧ result'.valid = true :=
      inspectPackage_again h.copied.apart h.copied.listed
        (parsed_inspectable hdocument)
        h.copied.recorded hinspect hresult hcalm
    obtain ⟨result', hagain, hvalid'⟩ := hagain
    refine ⟨result', ?_, hvalid'⟩
    unfold verify throwIf
    rw [hcalm.2, if_neg Bool.false_ne_true, ok_bind, hfind calm hcalm, ok_bind]
    simp only [entryOf, hagain]

end Installed

-- ================================================================== the calls

/-- A removal detaches one package, or it changes nothing that is listed. -/
theorem remove_cases (lib : Library) (chance : Chance) (uri : QString)
    (models : Models) :
    listed (remove lib chance uri models).2 = listed models
      ∨ ∃ name m, Publishes lib models name m ∧ modelId uri = .ok m.id
        ∧ listed (remove lib chance uri models).2
          = Function.update (listed models) name none := by
  have hhidden := (isHidden_temporary chance.suffix).2.1
  unfold remove
  cases hfind : find lib chance uri models with
  | error e => exact .inl rfl
  | ok found =>
      obtain ⟨m, -, hpublished, -, hid⟩ := find_ok hfind
      have hgone : listed (discard chance (qs ".remove-" ++ chance.suffix)
          (models.erase found.name))
            = Function.update (listed models) found.name none :=
        (listed_discard hhidden).trans (listed_erase models found.name)
      dsimp only
      split
      · exact .inl rfl
      · split
        · exact .inl (listed_discard hhidden)
        · split
          · exact .inr ⟨found.name, m, hpublished, hid, hgone⟩
          · exact .inr ⟨found.name, m, hpublished, hid, hgone⟩

/-- A package that is located is that of the reference. -/
theorem locate_ok {chance : PullChance} {registry : ModelRegistry}
    {packages : ExtTreeMap QString (RegistryPackage lib.letters)}
    {reference : QString} {package : RegistryPackage lib.letters}
    (h : locate lib chance registry packages reference models
      = .ok (.inr package)) :
    ∃ uri, registry.canonical reference = .ok uri
      ∧ packages[uri]? = some package := by
  unfold locate at h
  obtain ⟨uri, huri, h⟩ := bind_eq_ok.1 h
  obtain ⟨_, -, h⟩ := bind_eq_ok.1 h
  refine ⟨uri, huri, ?_⟩
  split at h
  · cases h
  · split at h
    · cases h
    · split at h
      · cases h
      next found hfound =>
        obtain ⟨_, -, h⟩ := bind_eq_ok.1 h
        obtain ⟨_, -, h⟩ := bind_eq_ok.1 h
        injection h with h
        injection h with h
        exact h ▸ hfound
  · cases h

/-- A pull fails or has the model already, and changes nothing that is
listed; or it ends with an installation of the package, in a directory
of the same listing. -/
theorem pull_cases (hjson : Faithful lib) (chance : PullChance)
    (registry : ModelRegistry)
    (packages : ExtTreeMap QString (RegistryPackage lib.letters))
    (reference : QString) (models : Models) :
    listed (pull lib chance registry packages reference models).2
      = listed models
      ∨ ∃ (uri : QString) (package : RegistryPackage lib.letters)
          (source : Source)
          (models₀ : Models) (m : ModelManifest) (staged : Staged),
        registry.canonical reference = .ok uri ∧ packages[uri]? = some package
        ∧ m.id = package.manifest.id ∧ listed models₀ = listed models
        ∧ Installs lib chance.install source models₀ m staged
        ∧ (pull lib chance registry packages reference models).1
          = .ok { uri := qs "model://" ++ m.id, manifest := m }
        ∧ listed (pull lib chance registry packages reference models).2
          = Function.update (listed models) m.id (some (tree staged)) := by
  have hhidden := (isHidden_temporary chance.stage.suffix).2.2
  unfold pull
  cases hlocate : locate lib chance registry packages reference models with
  | error e => exact .inl rfl
  | ok located =>
      cases located with
      | inl record => exact .inl rfl
      | inr package =>
          dsimp only
          split
          · exact .inl rfl
          · cases hfetch : fetch lib chance package with
            | error e => exact .inl (listed_discard hhidden)
            | ok staged =>
                dsimp only
                have hinsert := listed_insert_hidden models hhidden
                  (tree staged)
                rcases install_cases lib chance.install
                    ⟨filePath lib.root (qs ".pull-" ++ chance.stage.suffix),
                      tree staged⟩
                    (models.insert (qs ".pull-" ++ chance.stage.suffix)
                      (tree staged)) with
                  ⟨e, -, hsame⟩ | ⟨m, files, hinstalls, heq⟩
                · exact .inl ((listed_discard hhidden).trans
                    (hsame.trans hinsert))
                · have hshown := isHidden_of_validId hinstalls.copied.validId
                  obtain ⟨m', hread, hid⟩ := hinstalls.source
                  have hm' := readManifest_written hjson package.parsed
                    (fetch_ok hfetch) hread
                  obtain ⟨uri, huri, hpackage⟩ := locate_ok hlocate
                  rw [heq]
                  refine .inr ⟨uri, package, _, _, m, files, huri, hpackage,
                    hid.symm.trans (congrArg ModelManifest.id hm'), hinsert,
                      hinstalls, rfl, ?_⟩
                  rw [listed_discard hhidden, listed_insert _ hshown, hinsert]

-- =================================================================== the runs

/-- The scan of an installation that a call makes can look for its id. -/
def Service.Looks (v : Service) (models : Models) : Call → Prop
  | .install chance source =>
      ∀ m, readManifest v.lib {} .source source.node = .ok m →
        Sees v.lib chance m.id models
  | .pull chance reference =>
      ∀ uri package, v.registry.canonical reference = .ok uri →
        v.packages[uri]? = some package →
        Sees v.lib chance.install package.manifest.id models
  | .remove _ _ => True

/-- What a call may lead to. -/
def Service.Settles (v : Service) (models : Models) : Call → Prop
  | .install chance source =>
      ((∃ e, (install v.lib chance source models).1 = .error e)
          ∧ listed (install v.lib chance source models).2 = listed models)
        ∨ ∃ record, (install v.lib chance source models).1 = .ok record
          ∧ Adds v.lib models (install v.lib chance source models).2 record
  | .pull chance reference =>
      listed (pull v.lib chance v.registry v.packages reference models).2
        = listed models
        ∨ ∃ record, (pull v.lib chance v.registry v.packages reference
          models).1 = .ok record
          ∧ Adds v.lib models (pull v.lib chance v.registry v.packages
            reference models).2
            record
  | .remove chance uri =>
      listed (remove v.lib chance uri models).2 = listed models
        ∨ ∃ name m, Publishes v.lib models name m ∧ modelId uri = .ok m.id
          ∧ listed (remove v.lib chance uri models).2
            = Function.update (listed models) name none

/-- One call: it settles, and keeps ids unique. What it has not finished stays
hidden, so a failure between two steps shows nothing. -/
theorem perform_settles (v : Service) (hjson : Faithful v.lib)
    (hunique : Unique v.lib models)
    (call : Call) (hlooks : v.Looks models call) :
    Unique v.lib (v.perform models call) ∧ v.Settles models call := by
  cases call with
  | install chance source =>
      show Unique v.lib (install v.lib chance source models).2 ∧ _
      rcases install_cases v.lib chance source models with
        ⟨e, herror, hsame⟩ | ⟨m, staged, hinstalls, heq⟩
      · exact ⟨hunique.congr hsame, .inl ⟨⟨e, herror⟩, hsame⟩⟩
      · obtain ⟨m', hread, hid⟩ := hinstalls.source
        have hlisted : listed (install v.lib chance source models).2
            = Function.update (listed models) m.id (some (tree staged)) := by
          rw [heq]
          exact listed_insert models
            (isHidden_of_validId hinstalls.copied.validId) _
        have hunique' := hinstalls.unique hjson hunique
          (hid ▸ hlooks m' (readManifest_calm hread _)) hlisted
        exact ⟨hunique', .inr ⟨_, congrArg Prod.fst heq,
          hinstalls.adds hjson hunique' rfl hlisted⟩⟩
  | pull chance reference =>
      show Unique v.lib (pull v.lib chance v.registry v.packages
        reference models).2 ∧ _
      rcases pull_cases hjson chance v.registry v.packages reference models
          with
        hsame | ⟨uri, package, source, models₀, m, staged, huri,
          hpackage, hid, hlisted,
          hinstalls, hok, heq⟩
      · exact ⟨hunique.congr hsame, .inl hsame⟩
      · have hsees : Sees v.lib chance.install m.id models :=
          hid ▸ hlooks uri package huri hpackage
        have hunique' := hinstalls.unique hjson (hunique.congr hlisted)
          (hsees.congr hlisted) (hlisted.symm ▸ heq)
        exact ⟨hunique', .inr ⟨_, hok,
          hinstalls.adds hjson hunique' hlisted heq⟩⟩
  | remove chance uri =>
      show Unique v.lib (remove v.lib chance uri models).2 ∧ _
      have hcases := remove_cases v.lib chance uri models
      refine ⟨?_, hcases⟩
      rcases hcases with hsame | ⟨name, m, -, -, hgone⟩
      · exact hunique.congr hsame
      · exact hunique.update_none hgone

/-- In every run of installations, pulls and removals whose installations can
look for their ids, whatever else fails: ids stay unique, no URI is ever
ambiguous, and every call settles. -/
theorem catalog_atomic (v : Service) (hjson : Faithful v.lib)
    (models models' : Models)
    (calls : List Call) (hunique : Unique v.lib models)
    (hlooks : System.Along v.step v.Looks models calls)
    (hrun : System.run v.step models calls = some models') :
    Unique v.lib models'
      ∧ (∀ chance uri, find v.lib chance uri models' ≠ .error ambiguous)
      ∧ ∀ call, v.Looks models' call → v.Settles models' call := by
  have hunique' : Unique v.lib models' :=
    System.run_invariant_along (fun s call t hs hcall ht => by
      injection ht with ht
      exact ht ▸ (perform_settles v hjson hs call hcall).1) calls
        hunique hlooks hrun
  exact ⟨hunique', find_unambiguous hunique',
    fun call hcall => (perform_settles v hjson hunique' call hcall).2⟩

namespace Sample

/-- A small model. -/
def manifest : ModelManifest where
  id := qs "tiny"
  architecture := qs "llama"
  format := qs "gguf"
  quantization := qs "q4"
  contextLength := 2048
  capabilities := [qs "chat"]
  entryPoint := qs "model.gguf"
  files := [⟨qs "model.gguf", 4,
    qs "b83633aa785344791618f2fddf131b010ea04912a60430760b070bad293f65bd"⟩]

/-- Its manifest, as it is written. -/
def text : List UInt8 := [
  "\x7b", "    \"architecture\": \"llama\",", "    \"capabilities\": [",
  "        \"chat\"", "    ],", "    \"context_length\": 2048,",
  "    \"entry_point\": \"model.gguf\",", "    \"files\": [", "        \x7b",
  "            \"path\": \"model.gguf\",",
  "            \"sha256\": \"b83633aa785344791618f2fddf131b01"
    ++ "0ea04912a60430760b070bad293f65bd\",", "            \"size\": 4",
      "        \x7d",
  "    ],", "    \"format\": \"gguf\",", "    \"id\": \"tiny\",",
  "    \"quantization\": \"q4\",", "    \"schema_version\": 1", "\x7d"].flatMap
    fun line =>
    asciiBytes line ++ [0x0a]

def readText (bytes : List UInt8) : Option JsonObject :=
  if bytes = text then some (manifestObject manifest) else none

theorem readText_text : readText text = some (manifestObject manifest) := by
  unfold readText
  rw [if_pos rfl]

def library : Library where
  root := qs "/models"
  letters := ManifestObject.asciiLetters
  sha256Hex _ :=
    qs "b83633aa785344791618f2fddf131b010ea04912a60430760b070bad293f65bd"
  fromJson := readText
  toJson o := if Json.beqMembers o (manifestObject manifest) = true then text
    else List.replicate (maxManifestBytes + 1) 0x20
  passes _ _ := false
  blocks content := [content]
  errorString _ := qs "Unknown error"
  blocks_flatten content := List.append_nil content
  fromJson_nil := by decide +kernel

theorem library_faithful : Faithful library := by
  intro document m _ hlength
  by_cases hsame : Json.beqMembers (manifestObject m) (manifestObject manifest)
    = true
  · have htext : library.toJson (manifestObject m) = text := if_pos hsame
    have hread : library.fromJson = readText := rfl
    rw [htext, Json.eq_of_beqMembers _ _ hsame, hread, readText_text]
  · have hlong : library.toJson (manifestObject m)
        = List.replicate (maxManifestBytes + 1) 0x20 := if_neg hsame
    rw [hlong, List.length_replicate] at hlength
    omega

/-- Its directory. -/
def package : Node := .dir [(qs "manifest.json", .file text),
  (qs "model.gguf", .file (asciiBytes "GGUF"))]

def source : Source := ⟨qs "/packages/tiny", package⟩

/-- The package lies under a name that is not its id. -/
def before : Models := (∅ : Models).insert (qs "mine") package

theorem before_unique : Unique library before := by
  have hname : ∀ name m, Publishes library before name m →
      name = qs "mine" := by
    intro name m h
    obtain ⟨node, hnode, -⟩ := h
    by_contra hne
    have hfind := (listed_eq_some.1 hnode).2
    rw [before, Maps.find_insert_ne _ _ fun heq => hne heq.symm,
      ExtTreeMap.getElem?_empty] at hfind
    cases hfind
  exact fun name name' m m' h h' _ => (hname name m h).trans
    (hname name' m' h').symm

/-- The manifest of that directory cannot be opened for once. -/
def blind : Chance where
  fails
    | .openManifest (.published name) => name = qs "mine"
    | _ => false

/-- A directory cannot be renamed for once. -/
def pinned : Chance where
  fails
    | .rename => true
    | _ => false

def service : Service where
  lib := library
  registry := ⟨∅, ModelRegistry.empty_syntax_ok, ModelRegistry.empty_target_ok⟩

end Sample

/-- The run of the sample. -/
def Sample.calls : List Call :=
  [.remove Sample.pinned (qs "model://tiny"), .install {} Sample.source,
    .remove {} (qs "model://tiny"), .install {} Sample.source]

/-- The published package cannot be detached for once, and cannot be installed
a second time; then it is removed, and installed under its id. -/
theorem catalog_atomic_sample :
    (remove Sample.library Sample.pinned (qs "model://tiny") Sample.before).1
        = .error (err .StorageFailure
          "Cannot detach model directory for removal")
      ∧ ∃ models', System.run Sample.service.step Sample.before Sample.calls
        = some models'
      ∧ Unique Sample.library models'
      ∧ (∀ chance uri, find Sample.library chance uri models'
        ≠ .error ambiguous)
      ∧ ∀ call, Sample.service.Looks models' call →
      Sample.service.Settles models' call := by
  have hlooks : ∀ models,
      Sample.service.Looks models (.install {} Sample.source) :=
    fun models m _ name m' _ _ _ => Calm.open ⟨fun _ => rfl, fun _ => rfl⟩ name
  have halong : System.Along Sample.service.step
    Sample.service.Looks Sample.before
      Sample.calls :=
    ⟨trivial, fun _ _ => ⟨hlooks _, fun _ _ => ⟨trivial, fun _ _ =>
      ⟨hlooks _, fun _ _ => trivial⟩⟩⟩⟩
  exact ⟨by decide +kernel, _, rfl,
    catalog_atomic Sample.service Sample.library_faithful
    Sample.before _ _ Sample.before_unique halong rfl⟩

/-- An installation that cannot open the manifest of another directory
publishes the same id a second time. -/
theorem catalog_ambiguous :
    Unique Sample.library Sample.before
      ∧ (install Sample.library Sample.blind Sample.source Sample.before).1
        = .ok { uri := qs "model://tiny", manifest := Sample.manifest }
      ∧ ¬ Unique Sample.library
        (install Sample.library Sample.blind Sample.source Sample.before).2
      ∧ find Sample.library {} (qs "model://tiny")
        (install Sample.library Sample.blind Sample.source Sample.before).2
          = .error ambiguous := by
  have hinstall :
    (install Sample.library Sample.blind Sample.source Sample.before).1
      = .ok { uri := qs "model://tiny", manifest := Sample.manifest } := by
    decide +kernel
  have hfind : (match find Sample.library {} (qs "model://tiny")
      (install Sample.library Sample.blind Sample.source Sample.before).2 with
    | .ok _ => false
    | .error e => decide (e = ambiguous)) = true := by decide +kernel
  have hambiguous : find Sample.library {} (qs "model://tiny")
      (install Sample.library Sample.blind Sample.source Sample.before).2
        = .error ambiguous := by
    split at hfind
    next => cases hfind
    next e he => rw [he, of_decide_eq_true hfind]
  exact ⟨Sample.before_unique, hinstall,
    fun h => find_unambiguous h {} _ hambiguous, hambiguous⟩

end LocalLLM.ModelsDirectory
