/-
A pull publishes what the registry has pinned.

An installation inspects its source against the inventory of the manifest
it read, while it copies. When that inspection is valid, the copy is the
inventory: nothing is missing, nothing is beside it, and every file has the
recorded size and digest (`stage_pinned`). A pull writes the manifest of the
registry and installs what it has written, so the inventory is that of the
registry, whatever the network has sent (`pull_pinned`).

# The model that is there

A pull that loads nothing returns a package of the directory: it is published
under the id of the reference, and its verification has found no fault
(`Installed`).
-/
import LocalLLM.Proofs.Registry

namespace LocalLLM.ModelsDirectory

open Std
open ModelInspection
open ManifestObject (parseModelManifest manifestObject)

variable {lib : Library} {chance : Chance} {models : Models}

/-- A published package has the files of an inventory, and no others. -/
structure Pinned (lib : Library) (m : ModelManifest) (node : Node) : Prop where
  files : ∀ file ∈ m.files, ∃ content,
    follow (pathParts file.path) node = some (.file content)
      ∧ (content.length : Int) = file.size
      ∧ lib.sha256Hex content = file.sha256
  only : ∀ path content, follow path node = some (.file content) →
    path = [qs "manifest.json"] ∨ ∃ file ∈ m.files, path = pathParts file.path

/-- The model of a reference is there already: a package with its id is
published, and the verification of it finds no fault. The record is that of
this package. -/
def Installed (lib : Library) (chance : PullChance) (registry : ModelRegistry)
    (reference : QString) (models : Models) (record : ModelRecord) : Prop :=
  ∃ (uri name : QString) (check : ModelVerification),
    registry.canonical reference = .ok uri
    ∧ Publishes lib models name record.manifest
    ∧ modelId uri = .ok record.manifest.id
    ∧ record.uri = qs "model://" ++ record.manifest.id
    ∧ verify lib chance.verify uri models = .ok check ∧ check.valid = true

-- =================================================================== the copy

/-- The loop over the paths checks each file as it copies it. -/
theorem copyFiles_fold {S : PackageStorage} {manifest : ModelManifest} :
    ∀ {paths : List QString} {r r' : Inspection} {staged staged' : Staged},
    copyFiles lib chance S manifest paths r staged = .ok (r', staged') →
    (staged.map Prod.fst).Nodup →
    ∃ more : Staged, staged' = staged ++ more ∧ (staged'.map Prod.fst).Nodup
      ∧ (∀ f ∈ more, ∃ path, f.1 = pathParts path)
      ∧ r' = (more.map fun f => recordOf lib f.1 f.2).foldl
        (fun r file => checkFile manifest file r) r := by
  intro paths
  induction paths with
  | nil =>
      intro r r' staged staged' h hnodup
      injection h with h
      obtain ⟨rfl, rfl⟩ := Prod.mk.inj h
      exact ⟨[], (List.append_nil _).symm, hnodup, by simp, rfl⟩
  | cons path rest ih =>
      intro r r' staged staged' h hnodup
      unfold copyFiles at h
      obtain ⟨⟨file, next⟩, hfile, h⟩ := bind_eq_ok.1 h
      obtain ⟨data, rfl, rfl, hblocked, -⟩ := copyFile_ok hfile
      have hnew :
          ((staged ++ [(pathParts path, data)]).map Prod.fst).Nodup := by
        rw [List.map_append, List.nodup_append]
        refine ⟨hnodup, by simp, ?_⟩
        intro names hnames other hother heq
        obtain ⟨f, hf, rfl⟩ := List.mem_map.1 hnames
        obtain rfl : other = pathParts path := by simpa using hother
        have hprefix := blocked_eq_false.1 hblocked f hf
        exact hprefix (heq ▸ List.prefix_refl _)
      obtain ⟨more, rfl, hnodup', hparts, hr⟩ := ih h hnew
      refine ⟨(pathParts path, data) :: more, by simp, hnodup', ?_, ?_⟩
      · intro f hf
        cases List.mem_cons.1 hf with
        | inl heq => exact ⟨path, heq ▸ rfl⟩
        | inr hmem => exact hparts f hmem
      · rw [hr]
        rfl

/-- A valid inspection of a copy: its files are the recorded ones,
in size and digest. -/
theorem copyPackage_pinned {node : Node} {manifest : ModelManifest}
    {result : ModelVerification} {inventory : List ModelFile} {staged : Staged}
    (h : copyPackage lib chance node manifest
      = .ok (result, inventory, staged))
    (hvalid : result.valid = true) (hsome : manifest.files ≠ [])
    (hrecorded : (manifest.files.map ModelFile.path).Nodup) :
    ∀ file, file ∈ staged.map (fun f => recordOf lib f.1 f.2)
      ↔ file ∈ manifest.files := by
  obtain ⟨model, -, h⟩ := bind_eq_ok.1 h
  obtain ⟨paths, -, h⟩ := bind_eq_ok.1 h
  obtain ⟨⟨r, files⟩, hfiles, h⟩ := bind_eq_ok.1 h
  injection h with h
  obtain ⟨hresult, h⟩ := Prod.mk.inj h
  obtain ⟨-, rfl⟩ := Prod.mk.inj h
  obtain ⟨more, heq, hnodup, hparts, hr⟩ := copyFiles_fold hfiles (by simp)
  rw [List.nil_append] at heq
  subst heq
  have hdistinct :
      ((files.map fun f => recordOf lib f.1 f.2).map
      ModelFile.path).Nodup := by
    rw [List.map_map]
    have hpaths : files.map (ModelFile.path ∘ fun f => recordOf lib f.1 f.2)
        = (files.map Prod.fst).map
          joined := by simp [recordOf, Function.comp_def]
    rw [hpaths]
    refine List.Nodup.map_on ?_ hnodup
    intro names hnames names' hnames' hjoined
    obtain ⟨f, hf, rfl⟩ := List.mem_map.1 hnames
    obtain ⟨f', hf', rfl⟩ := List.mem_map.1 hnames'
    obtain ⟨path, hpath⟩ := hparts f hf
    obtain ⟨path', hpath'⟩ := hparts f' hf'
    rw [hpath, hpath', joined_pathParts, joined_pathParts] at hjoined
    rw [hpath, hpath', hjoined]
  -- no issue, so no discrepancy
  have hnone : ∀ issue, ¬ Discrepancy
      (fun file => file ∈ files.map fun f => recordOf lib f.1 f.2)
        manifest.files issue := by
    intro issue hissue
    have hmem := (conclude_listed
      (S := storage lib chance .source .entryPoint node) hsome
      hrecorded (fun _ => Iff.rfl) hdistinct hr issue).2 (Or.inl hissue)
    rw [← hresult] at hvalid
    have hissues :
      (conclude (storage lib chance .source .entryPoint node) manifest
        r).issues = [] := of_decide_eq_true hvalid
    rw [hissues] at hmem
    cases hmem
  exact (no_discrepancy fun file file' hfile hfile' hpath =>
    List.inj_on_of_nodup_map hdistinct hfile hfile' hpath).1 hnone

/-- What is published of a package with an inventory, is pinned by it. -/
theorem stage_pinned {node : Node} {manifest m : ModelManifest}
    {staged : Staged} (h : stage lib chance node manifest = .ok (m, staged))
    (hsome : manifest.files ≠ [])
    (hrecorded : (manifest.files.map ModelFile.path).Nodup) :
    Pinned lib manifest (tree staged) := by
  have hcopied := (stage_ok h).2.1
  have hproper := proper_tree hcopied.apart
  unfold stage at h
  obtain ⟨⟨result, inventory, files⟩, hcopy, h⟩ := bind_eq_ok.1 h
  obtain ⟨_, hvalid, h⟩ := bind_eq_ok.1 h
  obtain ⟨written, -, h⟩ := bind_eq_ok.1 h
  obtain ⟨_, -, h⟩ := bind_eq_ok.1 h
  obtain ⟨_, -, h⟩ := bind_eq_ok.1 h
  obtain ⟨_, -, h⟩ := bind_eq_ok.1 h
  obtain ⟨copied, -, h⟩ := bind_eq_ok.1 h
  obtain ⟨_, -, h⟩ := bind_eq_ok.1 h
  obtain ⟨_, -, h⟩ := bind_eq_ok.1 h
  injection h with h
  obtain ⟨rfl, rfl⟩ := Prod.mk.inj h
  have hsame := copyPackage_pinned hcopy (demandThat_eq_ok.1 hvalid)
    hsome hrecorded
  have hnames : ∀ f ∈ files
    ++ [([qs "manifest.json"], lib.toJson (manifestObject written))],
      pathParts (joined f.1) = f.1 := by
    intro f hf
    refine pathParts_joined f.1 (hcopied.apart.nonempty f hf)
      fun name hname => ?_
    exact (hcopied.apart.good f hf name hname).2.2
  refine ⟨fun file hfile => ?_, fun path content hfollow => ?_⟩
  · obtain ⟨f, hf, rfl⟩ := List.mem_map.1 ((hsame file).2 hfile)
    refine ⟨f.2, (follow_iff _ hproper).2 ((at_tree hcopied.apart).2 ?_),
      rfl, rfl⟩
    have hmem := List.mem_append_left
      [([qs "manifest.json"], lib.toJson (manifestObject written))] hf
    show (pathParts (joined f.1), f.2) ∈ _
    rw [hnames f hmem]
    exact hmem
  · have hmem := (at_tree hcopied.apart).1 ((follow_iff _ hproper).1 hfollow)
    cases List.mem_append.1 hmem with
    | inl hcopy =>
        right
        refine ⟨recordOf lib path content,
          (hsame _).1 (List.mem_map.2 ⟨(path, content), hcopy, rfl⟩), ?_⟩
        exact (hnames (path, content) hmem).symm
    | inr hlast =>
        left
        exact (Prod.mk.inj (List.mem_singleton.1 hlast)).1

-- ================================================================== the pulls

/-- An installation that returns has staged what it publishes. -/
theorem install_staged {source : Source} {record : ModelRecord}
    (h : (install lib chance source models).1 = .ok record) :
    ∃ manifest staged, readManifest lib chance .source source.node
      = .ok manifest
      ∧ stage lib chance source.node manifest = .ok (record.manifest, staged)
      ∧ record.manifest.id = manifest.id
      ∧ (install lib chance source models).2
        = models.insert manifest.id (tree staged) := by
  unfold install at h ⊢
  cases hadmission : admission lib chance source models with
  | error e =>
      rw [hadmission] at h
      cases h
  | ok manifest =>
      rw [hadmission] at h
      dsimp only at h ⊢
      by_cases hmake : chance.fails .makeStaging = true
          ∨ qs ".install-" ++ chance.suffix ∈ models
      · rw [if_pos hmake] at h
        cases h
      · rw [if_neg hmake] at h ⊢
        cases hstage : stage lib chance source.node manifest with
        | error e =>
            rw [hstage] at h
            cases h
        | ok result =>
            obtain ⟨m, staged⟩ := result
            rw [hstage] at h
            dsimp only at h ⊢
            by_cases hrename : chance.fails .rename = true
              ∨ manifest.id ∈ models
            · rw [if_pos hrename] at h
              cases h
            · rw [if_neg hrename] at h ⊢
              cases huri : modelUri m.id with
              | error e =>
                  rw [huri] at h
                  cases h
              | ok uri =>
                  rw [huri] at h
                  injection h with h
                  subst h
                  exact ⟨manifest, staged, (admission_ok hadmission).1, hstage,
                    (stage_ok hstage).1, rfl⟩

/-- The model that a pull returns without loading it is one that it has found
installed. -/
theorem locate_present {chance : PullChance} {registry : ModelRegistry}
    {packages : ExtTreeMap QString (RegistryPackage lib.letters)}
    {reference : QString} {record : ModelRecord}
    (h : locate lib chance registry packages reference models
      = .ok (.inl record)) :
    Installed lib chance registry reference models record := by
  unfold locate at h
  obtain ⟨uri, huri, h⟩ := bind_eq_ok.1 h
  obtain ⟨_, -, h⟩ := bind_eq_ok.1 h
  cases hexisting : existing lib chance uri models with
  | ok present =>
      rw [hexisting] at h
      injection h with h
      injection h with h
      subst h
      obtain ⟨found, hfind, h⟩ := bind_eq_ok.1 hexisting
      obtain ⟨check, hcheck, h⟩ := bind_eq_ok.1 h
      obtain ⟨_, hvalid, h⟩ := bind_eq_ok.1 h
      injection h with h
      obtain ⟨m, -, hpublished, heq, hid⟩ := find_ok hfind
      have hrecord : present
          = { uri := qs "model://" ++ m.id, manifest := m } := by
        rw [← h, heq]
        rfl
      subst hrecord
      exact ⟨uri, found.name, check, huri, hpublished, hid, rfl, hcheck,
        demandThat_eq_ok.1 hvalid⟩
  | error e =>
      rw [hexisting] at h
      cases e with
      | error e =>
          -- no way out of the other branch returns a model
          dsimp only at h
          split at h
          · cases h
          · split at h
            · cases h
            · obtain ⟨_, -, h⟩ := bind_eq_ok.1 h
              obtain ⟨_, -, h⟩ := bind_eq_ok.1 h
              injection h with h
              cases h
      | _ => cases h

/-- **A pull publishes what the registry has pinned**, and nothing else,
whatever arrives over the network and whatever fails; or the model was there
already and was found to be intact, and nothing changes. -/
theorem pull_pinned (hjson : Faithful lib) (chance : PullChance)
    (registry : ModelRegistry)
    (packages : ExtTreeMap QString (RegistryPackage lib.letters))
    (reference : QString) (models : Models) (record : ModelRecord)
    (h : (pull lib chance registry packages reference models).1 = .ok record) :
    (Installed lib chance registry reference models record
        ∧ (pull lib chance registry packages reference models).2 = models)
      ∨ ∃ (uri : QString) (package : RegistryPackage lib.letters)
        (node : Node),
        registry.canonical reference = .ok uri ∧ packages[uri]? = some package
        ∧ record.manifest.id = package.manifest.id
        ∧ listed (pull lib chance registry packages reference models).2
          = Function.update (listed models) package.manifest.id (some node)
        ∧ Pinned lib package.manifest node := by
  have hhidden := (isHidden_temporary chance.stage.suffix).2.2
  unfold pull at h ⊢
  cases hlocate : locate lib chance registry packages reference models with
  | error e =>
      rw [hlocate] at h
      cases h
  | ok located =>
      rw [hlocate] at h
      cases located with
      | inl present =>
          injection h with h
          subst h
          exact Or.inl ⟨locate_present hlocate, rfl⟩
      | inr package =>
          dsimp only at h ⊢
          by_cases hmake : chance.stage.fails .makeStaging = true
              ∨ qs ".pull-" ++ chance.stage.suffix ∈ models
          · rw [if_pos hmake] at h
            cases h
          · rw [if_neg hmake] at h ⊢
            cases hfetch : fetch lib chance package with
            | error e =>
                rw [hfetch] at h
                cases h
            | ok fetched =>
                rw [hfetch] at h
                dsimp only at h ⊢
                obtain ⟨uri, huri, hpackage⟩ := locate_ok hlocate
                obtain ⟨manifest, staged, hread, hstage, hid, hinstalled⟩ :=
                  install_staged h
                -- the manifest that is installed is the one that was written
                obtain rfl := readManifest_written hjson package.parsed
                  (fetch_ok hfetch) hread
                obtain ⟨document, hdocument⟩ := package.parsed
                have hshown := isHidden_of_validId (modelUri_ok
                  (parsed_inspectable hdocument).named.choose_spec).1
                refine Or.inr ⟨uri, package, tree staged, huri,
                  hpackage, hid, ?_,
                  stage_pinned hstage package.files_ne_nil
                    (parsed_inspectable hdocument).distinct⟩
                rw [hinstalled, listed_discard hhidden, listed_insert _ hshown,
                  listed_insert_hidden models hhidden]

namespace Sample

theorem manifest_parsed :
    ∃ document, parseModelManifest library.letters document = .ok manifest :=
  ⟨manifestObject manifest, by decide +kernel⟩

/-- The model in a registry. -/
def registered : RegistryPackage library.letters where
  manifest := manifest
  urls := [qs "https://host/model.gguf"]
  parsed := manifest_parsed
  files_ne_nil := by decide
  sources := rfl

/-- What its URL delivers. -/
def delivery : PullChance where
  transfer _ := { pieces := [asciiBytes "GG", asciiBytes "UF"] }

/-- A registry of that model. -/
def packages : ExtTreeMap QString (RegistryPackage library.letters) :=
  (∅ : ExtTreeMap QString (RegistryPackage library.letters)).insert
  (qs "model://tiny")
    registered

theorem pull_delivered :
    (pull library delivery service.registry packages (qs "model://tiny") ∅).1
      = .ok { uri := qs "model://tiny", manifest } := by
  decide +kernel

/-- The directory after this pull. -/
def pulled : Models :=
  (pull library delivery service.registry packages (qs "model://tiny") ∅).2

/-- There it is found without any registry. -/
theorem pull_again :
    (pull library delivery service.registry ∅ (qs "model://tiny") pulled).1
      = .ok { uri := qs "model://tiny", manifest } := by
  decide +kernel

theorem pulled_listed : listed pulled ≠ listed ∅ := by
  intro heq
  have hnone : (listed pulled (qs "tiny")).isSome = false := by
    rw [heq]
    rfl
  exact absurd hnone (by decide +kernel)

end Sample

/-- The model is pulled into an empty directory, and found there by a pull that
could not load it. -/
theorem pull_pinned_sample :
    (∃ (uri : QString) (package : RegistryPackage Sample.library.letters)
        (node : Node),
        Sample.service.registry.canonical (qs "model://tiny") = .ok uri
        ∧ Sample.packages[uri]? = some package
        ∧ Sample.manifest.id = package.manifest.id
        ∧ listed Sample.pulled
          = Function.update (listed ∅) package.manifest.id (some node)
        ∧ Pinned Sample.library package.manifest node)
      ∧ Installed Sample.library Sample.delivery Sample.service.registry
          (qs "model://tiny") Sample.pulled
          { uri := qs "model://tiny", manifest := Sample.manifest } := by
  constructor
  · rcases pull_pinned Sample.library_faithful Sample.delivery
      Sample.service.registry
      Sample.packages (qs "model://tiny") ∅ _ Sample.pull_delivered with h | h
    · exact absurd (congrArg listed h.2) Sample.pulled_listed
    · exact h
  · rcases pull_pinned Sample.library_faithful Sample.delivery
      Sample.service.registry
      ∅ (qs "model://tiny") Sample.pulled _ Sample.pull_again with h | h
    · exact h.1
    · obtain ⟨uri, package, node, -, hpackage, -⟩ := h
      rw [Std.ExtTreeMap.getElem?_empty] at hpackage
      cases hpackage

end LocalLLM.ModelsDirectory
