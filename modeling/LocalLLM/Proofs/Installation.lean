/-
An installation: what its copy is, and what it publishes.

# The copy

The files that were copied are those of the recorded inventory, and none is in
another's way (`copyFiles_ok`). What the manifest says of them was read again
(`parsed_files`), so their names can be names, and the copy is what it is taken
for (`Copied`).

# What is published

The work in the temporary directory ends with a copy, and a valid inspection of
it (`stage_ok`).
-/
import LocalLLM.Proofs.Staging

namespace LocalLLM.ModelsDirectory

open Std
open ModelInspection
open ManifestObject (parseModelManifest manifestObject demand_bind_eq_ok
  takeFiles_paths
  takeFile_facts)

variable {lib : Library} {chance : Chance}

-- ================================================================== the paths

/-- A part of a path has no slash. -/
theorem pathParts_no_slash {path part : QString} (h : part ∈ pathParts path) :
    qc '/' ∉ part := by
  unfold pathParts at h
  induction path generalizing part with
  | nil =>
      have hnil : part ∈ ([[]] : List QString) := h
      rw [List.mem_singleton.1 hnil]
      exact List.not_mem_nil
  | cons u rest ih =>
      rw [List.splitOn_cons_eq_if_modifyHead] at h
      by_cases hu : (u == qc '/') = true
      · rw [if_pos hu] at h
        rcases List.mem_cons.1 h with rfl | h
        · exact List.not_mem_nil
        · exact ih h
      · rw [if_neg hu] at h
        cases hparts : rest.splitOn (qc '/') with
        | nil =>
            rw [hparts] at h
            cases h
        | cons first more =>
            rw [hparts] at h ih
            rcases List.mem_cons.1 h with rfl | h
            · intro hmem
              rcases List.mem_cons.1 hmem with heq | hmem
              · rw [← heq] at hu
                exact hu (beq_self_eq_true _)
              · exact ih (List.mem_cons_self ..) hmem
            · exact ih (List.mem_cons_of_mem _ h)

/-- The parts of a path, put together again. -/
theorem joined_pathParts (path : QString) :
    joined (pathParts path) = path := by
  have hslash : qs "/" = [qc '/'] := by decide
  show ((pathParts path).intersperse (qs "/")).flatten = path
  rw [hslash]
  exact List.intercalate_splitOn (qc '/')

theorem good_parts {path : QString} (h : SafePath path) :
    ∀ part ∈ pathParts path, Good part := fun part hpart =>
  ⟨(h.parts.2 part hpart).1.1, (h.parts.2 part hpart).1.2.1,
    pathParts_no_slash hpart⟩

-- =================================================================== the copy

/-- What is copied of a file is what is read of it. -/
theorem copyBlocks_ok {path : QString} {failure : Option QString} :
    ∀ {blocks : List (List UInt8)} {n : Nat} {size size' : Int}
      {data data' : List UInt8},
    copyBlocks lib chance path failure blocks n size data
      = .ok (size', data') →
    failure = none ∧ size' = size + blocks.flatten.length
      ∧ data' = data ++ blocks.flatten := by
  intro blocks
  induction blocks with
  | nil =>
      intro n size size' data data' h
      unfold copyBlocks at h
      obtain ⟨_, -, h⟩ := bind_eq_ok.1 h
      cases failure with
      | none =>
          injection h with h
          obtain ⟨rfl, rfl⟩ := Prod.mk.inj h
          simp
      | some message => cases h
  | cons block rest ih =>
      intro n size size' data data' h
      unfold copyBlocks at h
      obtain ⟨_, -, h⟩ := bind_eq_ok.1 h
      obtain ⟨_, -, h⟩ := bind_eq_ok.1 h
      obtain ⟨hend, hsize, hdata⟩ := ih h
      refine ⟨hend, ?_, ?_⟩
      · rw [hsize, List.flatten_cons, List.length_append]
        push_cast
        omega
      · rw [hdata, List.flatten_cons, List.append_assoc]

theorem blocked_eq_false {staged : Staged} {path : List QString} :
    blocked staged path = false ↔ ∀ f ∈ staged, ¬ f.1 <+: path := by
  unfold blocked
  rw [List.any_eq_false]
  simp only [List.isPrefixOf_iff_prefix]

theorem covered_eq_false {staged : Staged} {path : List QString} :
    covered staged path = false ↔ ∀ f ∈ staged, ¬ path <+: f.1 := by
  unfold covered
  rw [List.any_eq_false]
  simp only [List.isPrefixOf_iff_prefix]

/-- None of the files is in another's way. -/
def Clear (staged : Staged) :
    Prop := ∀ f ∈ staged, ∀ g ∈ staged, f.1 <+: g.1 → f = g

theorem Clear.append {staged : Staged} (h : Clear staged) {path : List QString}
    (hblocked : blocked staged path = false)
    (hcovered : covered staged path = false)
    (content : List UInt8) : Clear (staged ++ [(path, content)]) := by
  rw [blocked_eq_false] at hblocked
  rw [covered_eq_false] at hcovered
  intro f hf g hg hprefix
  rcases List.mem_append.1 hf with hf | hf
  · rcases List.mem_append.1 hg with hg | hg
    · exact h f hf g hg hprefix
    · rw [List.mem_singleton.1 hg] at hprefix
      exact absurd hprefix (hblocked f hf)
  · rcases List.mem_append.1 hg with hg | hg
    · rw [List.mem_singleton.1 hf] at hprefix
      exact absurd hprefix (hcovered g hg)
    · rw [List.mem_singleton.1 hf, List.mem_singleton.1 hg]

theorem checkFile_inventory (manifest : ModelManifest) (file : ModelFile)
    (r : Inspection) :
    (checkFile manifest file r).inventory = r.inventory ++ [file] := by
  unfold checkFile
  by_cases hnone : manifest.files = []
  · simp [hnone]
  · simp [hnone]

/-- The copy of one file. -/
theorem copyFile_ok {S : PackageStorage} {path : QString}
    {staged staged' : Staged}
    {file : ModelFile} (h : copyFile lib chance S path staged
      = .ok (file, staged')) :
    ∃ data, file = recordOf lib (pathParts path) data
      ∧ staged' = staged ++ [(pathParts path, data)]
      ∧ blocked staged (pathParts path) = false
      ∧ covered staged (pathParts path) = false := by
  unfold copyFile at h
  cases hopen : S.openRead path with
  | error message =>
      rw [hopen] at h
      cases h
  | ok stream =>
      rw [hopen] at h
      obtain ⟨_, hmake, h⟩ := bind_eq_ok.1 h
      obtain ⟨⟨size, data⟩, hcopy, h⟩ := bind_eq_ok.1 h
      obtain ⟨_, -, h⟩ := bind_eq_ok.1 h
      injection h with h
      obtain ⟨hfile, hstaged⟩ := Prod.mk.inj h
      obtain ⟨-, hsize, hdata⟩ := copyBlocks_ok hcopy
      obtain ⟨_, -, hmake⟩ := bind_eq_ok.1 hmake
      obtain ⟨-, hblocked, hcovered⟩ := demandThat_eq_ok.1 hmake
      refine ⟨data, ?_, hstaged.symm, hblocked, hcovered⟩
      unfold recordOf
      rw [joined_pathParts, ← hfile, hsize, hdata]
      simp

/-- The files of a copy are those of the inventory, in its order, each under
its own path. -/
theorem copyFiles_ok {S : PackageStorage} {manifest : ModelManifest} :
    ∀ {paths : List QString} {r r' : Inspection} {staged staged' : Staged},
    copyFiles lib chance S manifest paths r staged = .ok (r', staged') →
    Clear staged →
    r.inventory = staged.map (fun f => recordOf lib f.1 f.2) →
    Clear staged' ∧ r'.inventory = staged'.map (fun f => recordOf lib f.1 f.2)
      ∧ ((∀ f ∈ staged, ∃ path, f.1 = pathParts path) →
        ∀ f ∈ staged', ∃ path, f.1 = pathParts path) := by
  intro paths
  induction paths with
  | nil =>
      intro r r' staged staged' h hclear hinventory
      injection h with h
      obtain ⟨rfl, rfl⟩ := Prod.mk.inj h
      exact ⟨hclear, hinventory, fun hparts => hparts⟩
  | cons path rest ih =>
      intro r r' staged staged' h hclear hinventory
      unfold copyFiles at h
      obtain ⟨⟨file, more⟩, hfile, h⟩ := bind_eq_ok.1 h
      obtain ⟨data, rfl, rfl, hblocked, hcovered⟩ := copyFile_ok hfile
      obtain ⟨hclear', hinventory', hparts'⟩ :=
          ih h (hclear.append hblocked hcovered data) (by
        rw [checkFile_inventory, hinventory, List.map_append]
        rfl)
      refine ⟨hclear', hinventory', fun hparts => hparts' fun f hf => ?_⟩
      rcases List.mem_append.1 hf with hf | hf
      · exact hparts f hf
      · rw [List.mem_singleton.1 hf]
        exact ⟨path, rfl⟩

/-- Files under safe paths, none in another's way, and a manifest
beside them. -/
theorem Clear.apart {staged : Staged} (h : Clear staged)
    (hblocked : blocked staged [qs "manifest.json"] = false)
    (hcovered : covered staged [qs "manifest.json"] = false)
    (hpaths : ∀ f ∈ staged, ∃ path, f.1 = pathParts path ∧ SafePath path)
    (content : List UInt8) :
    Apart (staged ++ [([qs "manifest.json"], content)]) := by
  refine ⟨?_, ?_, h.append hblocked hcovered content⟩
  · intro f hf
    rcases List.mem_append.1 hf with hf | hf
    · obtain ⟨path, hpath, -⟩ := hpaths f hf
      rw [hpath]
      exact pathParts_ne_nil path
    · rw [List.mem_singleton.1 hf]
      exact List.cons_ne_nil _ _
  · intro f hf
    rcases List.mem_append.1 hf with hf | hf
    · obtain ⟨path, hpath, hsafe⟩ := hpaths f hf
      rw [hpath]
      exact good_parts hsafe
    · rw [List.mem_singleton.1 hf]
      intro name hname
      rw [List.mem_singleton.1 hname]
      unfold Good
      decide

-- ========================================================= what is read again

/-- What is read again of a manifest that was written: its id, and the paths of
its files, which are safe. -/
theorem parsed_files {l : Letters} {m m' : ModelManifest}
    (h : parseModelManifest l (manifestObject m) = .ok m') :
    m'.id = m.id ∧ m'.files.map ModelFile.path = m.files.map ModelFile.path
      ∧ ∀ file ∈ m'.files, SafePath file.path := by
  obtain ⟨_, -, h⟩ := bind_eq_ok.1 h
  obtain ⟨_, -, h⟩ := bind_eq_ok.1 h
  obtain ⟨id, hid, h⟩ := bind_eq_ok.1 h
  obtain ⟨_, -, h⟩ := bind_eq_ok.1 h
  obtain ⟨_, -, h⟩ := bind_eq_ok.1 h
  obtain ⟨_, -, h⟩ := bind_eq_ok.1 h
  obtain ⟨_, -, h⟩ := bind_eq_ok.1 h
  obtain ⟨_, -, h⟩ := bind_eq_ok.1 h
  obtain ⟨_, -, h⟩ := bind_eq_ok.1 h
  obtain ⟨_, -, h⟩ := bind_eq_ok.1 h
  obtain ⟨files, hfiles, h⟩ := bind_eq_ok.1 h
  injection h with h
  subst h
  obtain ⟨_, hfiles⟩ := demand_bind_eq_ok.1 hfiles
  obtain ⟨_, hfiles⟩ := demand_bind_eq_ok.1 hfiles
  rw [ManifestObject.lookup_files] at hfiles
  obtain ⟨hsafe, -, hpaths⟩ := takeFiles_paths hfiles
  refine ⟨?_, ?_, fun file hfile => (hsafe file hfile).1⟩
  · obtain ⟨htext, -⟩ := ManifestObject.idOf_eq_ok.1 hid
    have hlookup := (ManifestObject.text_eq_ok.1 htext).1
    rw [ManifestObject.lookup_manifestObject (by decide) (by decide)]
      at hlookup
    have hsame : some (Json.string m.id) = some (Json.string id) := hlookup
    injection hsame with hsame
    injection hsame with hsame
    exact hsame.symm
  · rw [hpaths]
    show (m.files.map _).map ManifestObject.pathOf = _
    rw [List.map_map]
    refine List.map_congr_left fun file _ => ?_
    have hpath : Json.lookup (ManifestObject.fileObject file) (qs "path")
        = some (.string file.path) := Json.lookup_ofMembers _ _
    show Json.toText (Json.lookup (ManifestObject.fileObject file) (qs "path"))
      = file.path
    rw [hpath]
    rfl

-- ========================================================== what is published

/-- What an installation has made in its temporary directory. -/
structure Copied (lib : Library) (manifest : ModelManifest) (staged : Staged) :
    Prop where
  apart : Apart staged
  listed : ∀ f ∈ staged, f.1 ≠ [qs "manifest.json"] →
    ∃ file ∈ manifest.files, file.path = joined f.1
  written : ([qs "manifest.json"],
    lib.toJson (manifestObject manifest)) ∈ staged
  short : (lib.toJson (manifestObject manifest)).length ≤ maxManifestBytes
  recorded : manifest.files ≠ []
  parsed : ∃ document, parseModelManifest lib.letters document = .ok manifest

/-- What the work in the temporary directory leads to. -/
theorem stage_ok {node : Node} {manifest manifest' : ModelManifest}
    {staged : Staged}
    (h : stage lib chance node manifest = .ok (manifest', staged)) :
    manifest'.id = manifest.id ∧ Copied lib manifest' staged
      ∧ ∃ result, inspectPackage lib chance .staging (tree staged) manifest'
        = .ok result
        ∧ result.valid = true := by
  unfold stage at h
  obtain ⟨⟨result, inventory, files⟩, hcopy, h⟩ := bind_eq_ok.1 h
  obtain ⟨_, -, h⟩ := bind_eq_ok.1 h
  obtain ⟨m, hparse, h⟩ := bind_eq_ok.1 h
  obtain ⟨_, hsome, h⟩ := bind_eq_ok.1 h
  obtain ⟨_, hshort, h⟩ := bind_eq_ok.1 h
  obtain ⟨_, hfree, h⟩ := bind_eq_ok.1 h
  obtain ⟨copied, hinspect, h⟩ := bind_eq_ok.1 h
  obtain ⟨_, hvalid, h⟩ := bind_eq_ok.1 h
  obtain ⟨_, -, h⟩ := bind_eq_ok.1 h
  injection h with h
  obtain ⟨rfl, rfl⟩ := Prod.mk.inj h
  obtain ⟨-, hblocked, hcovered⟩ := require_eq_ok.1 hfree
  unfold copyPackage at hcopy
  obtain ⟨_, -, hcopy⟩ := bind_eq_ok.1 hcopy
  obtain ⟨paths, -, hcopy⟩ := bind_eq_ok.1 hcopy
  obtain ⟨⟨r, files'⟩, hfiles, hcopy⟩ := bind_eq_ok.1 hcopy
  injection hcopy with hcopy
  obtain ⟨-, hcopy⟩ := Prod.mk.inj hcopy
  obtain ⟨rfl, rfl⟩ := Prod.mk.inj hcopy
  obtain ⟨hclear, hinventory, hparts⟩ :=
    copyFiles_ok hfiles (List.forall_mem_nil _) rfl
  have hparts := hparts (List.forall_mem_nil _)
  obtain ⟨hid, hpaths, hsafe⟩ := parsed_files hparse
  -- each file of the copy has a record, whose path is safe
  have hlisted : ∀ f ∈ files', ∃ file ∈ m.files, file.path = joined f.1 := by
    intro f hf
    have hmem : joined f.1 ∈ r.inventory.map ModelFile.path := by
      rw [hinventory, List.map_map]
      exact List.mem_map_of_mem hf
    have hmem : joined f.1 ∈ m.files.map ModelFile.path := hpaths ▸ hmem
    obtain ⟨file, hfile, hpath⟩ := List.mem_map.1 hmem
    exact ⟨file, hfile, hpath⟩
  have hpaths : ∀ f ∈ files', ∃ path,
      f.1 = pathParts path ∧ SafePath path := by
    intro f hf
    obtain ⟨path, hpath⟩ := hparts f hf
    obtain ⟨file, hfile, hsame⟩ := hlisted f hf
    refine ⟨path, hpath, ?_⟩
    rw [← joined_pathParts path, ← hpath, ← hsame]
    exact hsafe file hfile
  refine ⟨hid, ⟨hclear.apart hblocked hcovered hpaths _, ?_, ?_,
    require_eq_ok.1 hshort,
    require_eq_ok.1 hsome, _, hparse⟩, copied, hinspect,
      demandThat_eq_ok.1 hvalid⟩
  · intro f hf hne
    rcases List.mem_append.1 hf with hf | hf
    · exact hlisted f hf
    · rw [List.mem_singleton.1 hf] at hne
      exact absurd rfl hne
  · exact List.mem_append_right _ (List.mem_singleton_self _)

end LocalLLM.ModelsDirectory
