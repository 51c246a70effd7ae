/-
A temporary directory of the Models directory, and its inspection.

# Trees that a storage shows

A tree is `Proper` when its names can be names. Then following the names of a
path is standing under them (`follow_iff`), and a storage where nothing fails
shows the tree (`storage_shows`).

# Inspections that fail in part

A walk in which operations fail ends in an error or leaves something out; what
it comes to is in the tree, and each file once (`assetPaths_found`). An
inspection that is valid has come to every file of the inventory
(`inspectPackage_valid`).

# The copy

The files of a copy are in no other's way (`Apart`), so its tree has these
files and no others (`at_tree`). What the valid inspection has seen of it is
therefore all there is, and every later inspection where nothing fails is valid
too (`inspectPackage_again`).
-/
import LocalLLM.Models.ModelCatalog
import LocalLLM.Proofs.Inspection

namespace LocalLLM.ModelsDirectory

open Std
open ModelInspection
open ManifestObject (parseModelManifest manifestObject)

variable {lib : Library} {chance : Chance} {place : Place} {purpose : Purpose}
  {node : Node}

-- ================================================================== the trees

/-- A tree whose names can be names of a directory. -/
structure Proper (node : Node) : Prop where
  distinct : ∀ path entries, At node path (.dir entries) →
    (entries.map Prod.fst).Nodup
  named : ∀ path entries, At node path (.dir entries) →
    ∀ name ∈ entries.map Prod.fst, name ≠ [] ∧ name ≠ qs "." ∧ qc '/' ∉ name

/-- A name that can be one. -/
def Good (name : QString) : Prop := name ≠ [] ∧ name ≠ qs "." ∧ qc '/' ∉ name

/-- A directory below a proper tree is proper, for the names on the way are
among those of the tree. -/
theorem Proper.child (h : Proper node) {path : List QString} {child : Node}
    (hat : At node path child) : Proper child :=
  ⟨fun _ _ hbelow => h.distinct _ _ (hat.trans hbelow),
    fun _ _ hbelow => h.named _ _ (hat.trans hbelow)⟩

/-- The names on the way to a node can be names. -/
theorem Proper.good (h : Proper node) {path : List QString} {child : Node}
    (hat : At node path child) : ∀ name ∈ path, Good name := by
  induction hat with
  | here => exact fun _ hname => nomatch hname
  | there hmem _ ih =>
      intro name hname
      rcases List.mem_cons.1 hname with rfl | hname
      · exact h.named [] _ (.here _) _ (List.mem_map_of_mem hmem)
      · exact ih (h.child (.there hmem (.here _))) name hname

/-- Following names is standing under them, where the names of a directory are
distinct. -/
theorem follow_iff :
    ∀ (path : List QString) {node : Node}, Proper node → ∀ {child : Node},
      (follow path node = some child ↔ At node path child) := by
  intro path
  induction path with
  | nil =>
      intro node _ child
      unfold follow
      constructor
      · intro h
        injection h with h
        exact h ▸ .here _
      · intro h
        cases h with
        | here => rfl
  | cons name rest ih =>
      intro node hproper child
      cases node with
      | dir entries =>
          have hdistinct := hproper.distinct [] entries (.here _)
          unfold follow
          constructor
          · intro h
            cases hfind : entries.find? fun e => e.1 = name with
            | none =>
                rw [hfind] at h
                cases h
            | some e =>
                rw [hfind] at h
                obtain ⟨first, below⟩ := e
                have hname :
                  first = name := by simpa using List.find?_some hfind
                have hmem := List.mem_of_find?_eq_some hfind
                rw [hname] at hmem
                exact .there hmem
                  ((ih (hproper.child (.there hmem (.here _)))).1 h)
          · intro h
            cases h with
            | @there _ _ below _ _ hmem hat =>
                have hfind : entries.find? (fun e => e.1 = name)
                    = some (name, below) := by
                  cases hfind : entries.find? fun e => e.1 = name with
                  | none =>
                      have hnot := List.find?_eq_none.1 hfind _ hmem
                      simp at hnot
                  | some e =>
                      have hname :
                        e.1 = name := by simpa using List.find?_some hfind
                      rw [List.inj_on_of_nodup_map hdistinct
                        (List.mem_of_find?_eq_some hfind) hmem hname]
                rw [hfind]
                exact (ih (hproper.child (.there hmem (.here _)))).2 hat
      | file content =>
          constructor
          · exact fun h => nomatch h
          · exact fun h => nomatch h
      | link =>
          constructor
          · exact fun h => nomatch h
          · exact fun h => nomatch h
      | special =>
          constructor
          · exact fun h => nomatch h
          · exact fun h => nomatch h

/-- The names of a path that was put together. -/
theorem names_joined {path : List QString} (h : ∀ name ∈ path, Good name) :
    names (joined path) = path := by
  unfold names
  cases path with
  | nil => decide
  | cons name rest =>
      have hparts := pathParts_joined (name :: rest) (List.cons_ne_nil _ _)
        fun n hn => (h n hn).2.2
      unfold pathParts at hparts
      rw [hparts, List.filter_eq_self]
      intro n hn
      simp only [decide_eq_true_eq]
      exact ⟨(h n hn).1, (h n hn).2.1⟩

-- ================================================================ the storage

/-- A path that was written with slashes leads back to the node it was made
from, as no name contains one. -/
theorem follow_joined (hproper : Proper node) {path : List QString}
    {child : Node} (hat : At node path child) :
    follow (names (joined path)) node = some child := by
  rw [names_joined (hproper.good hat)]
  exact (follow_iff path hproper).2 hat

/-- Nothing fails, and nobody cancels. -/
def Calm (chance : Chance) : Prop :=
  (∀ op, chance.fails op = false) ∧ ∀ poll, chance.cancelled poll = false

/-- A copy that reports no failure has read all of the content: the blocks add
up to it. -/
theorem stream_eq {path : QString} {content : List UInt8}
    (h : (stream lib chance place purpose path content).failure = none) :
    (stream lib chance place purpose path content).blocks.flatten
      = content := by
  unfold stream at h ⊢
  split at h
  next => exact lib.blocks_flatten content
  next => cases h

/-- Where the file system fails nowhere, copying reads the blocks that the
library cuts. -/
theorem stream_calm (hcalm : ∀ op, chance.fails op = false) {path : QString}
    {content : List UInt8} :
    stream lib chance place purpose path content
      = { blocks := lib.blocks content } := by
  unfold stream
  have hnone : ((List.range ((lib.blocks content).length + 1)).find? fun n =>
      chance.fails (.readFile place purpose path n)) = none := by
    rw [List.find?_eq_none]
    intro n _
    rw [hcalm]
    exact Bool.false_ne_true
  rw [hnone]

/-- Where nothing fails, a storage shows the tree. -/
theorem storage_shows (hproper : Proper node)
    (hcalm : ∀ op, chance.fails op = false) :
    Shows (storage lib chance place purpose node) node where
  listed := by
    intro path entries hat
    unfold storage
    dsimp only
    rw [hcalm, hcalm, follow_joined hproper hat]
    exact ⟨rfl, rfl⟩
  content := by
    intro path content hat
    refine ⟨stream lib chance place purpose (joined path) content, ?_, ?_, ?_⟩
    · unfold storage
      dsimp only
      rw [hcalm, follow_joined hproper hat]
      rfl
    · rw [stream_calm hcalm]
    · refine stream_eq ?_
      rw [stream_calm hcalm]

/-- A listing is that of the tree, or it fails. -/
theorem listing_cases (hproper : Proper node) {path : List QString}
    {entries : List (QString × Node)} (hat : At node path (.dir entries)) :
    (storage lib chance place purpose node).entryInfoList (joined path) = []
      ∨ (storage lib chance place purpose node).entryInfoList (joined path)
        = entries.map infoOf := by
  unfold storage
  dsimp only
  rw [follow_joined hproper hat]
  by_cases hfails : chance.fails (.entries place (joined path)) = true
  · rw [if_pos hfails]
    exact .inl rfl
  · rw [if_neg hfails]
    exact .inr rfl

-- =================================================================== the walk

/-- A file that a walk comes to, at most `top` names deep. -/
structure Found (node : Node) (top : Nat) (p : List QString) : Prop where
  depth : p.length ≤ top
  manifest : p ≠ [qs "manifest.json"]
  onnx : isOnnx (joined p) = false
  file : ∃ content, At node p (.file content)

/-- What a walk below `path` adds to the files it has. -/
structure Walked (node : Node) (top : Nat) (path : List QString)
    (files out : List QString) (found : List (List QString)) : Prop where
  all : out = files ++ found.map joined
  count : files.length ≤ 10000 → out.length ≤ 10000
  nodup : found.Nodup
  below : ∀ p ∈ found, path <+: p
  found : ∀ p ∈ found, Found node top p

theorem Walked.none {top : Nat} {path : List QString} {files : List QString} :
    Walked node top path files files [] :=
  ⟨(List.append_nil files).symm, id, List.nodup_nil, List.forall_mem_nil _,
    List.forall_mem_nil _⟩

/-- A guard passes exactly when its condition holds, and its
value says nothing more. -/
theorem demandThat_eq_ok {condition : Prop} [Decidable condition]
    {code : ErrorCode} {message : QString} {u : Unit} :
    demandThat condition code message = .ok u ↔ condition := by
  unfold demandThat
  by_cases h : condition
  · simp [h]
  · simp [h]

/-- A file is added, unless it is the manifest of the package. -/
theorem addFile_walked {top : Nat} {path : List QString} {info : EntryInfo}
    {content : List UInt8} (hdepth : path.length ≤ top)
    (hat : At node path (.file content)) {files out : List QString}
    (h : addFile info (joined path) files = .ok out) :
    ∃ found, Walked node top path files out found := by
  unfold addFile at h
  obtain ⟨_, -, h⟩ := bind_eq_ok.1 h
  by_cases hmanifest : joined path = qs "manifest.json"
  · rw [if_pos hmanifest] at h
    injection h with h
    exact ⟨[], h ▸ Walked.none⟩
  · rw [if_neg hmanifest] at h
    obtain ⟨_, honnx, h⟩ := bind_eq_ok.1 h
    obtain ⟨_, hcount, h⟩ := bind_eq_ok.1 h
    injection h with h
    refine ⟨[path], h.symm, fun _ => ?_, List.nodup_singleton _, ?_, ?_⟩
    · rw [← h, List.length_append, List.length_singleton]
      exact demandThat_eq_ok.1 hcount
    · intro p hp
      rw [List.mem_singleton.1 hp]
    · intro p hp
      rw [List.mem_singleton.1 hp]
      refine ⟨hdepth, fun heq => ?_, demandThat_eq_ok.1 honnx, content, hat⟩
      rw [heq, joined_singleton] at hmanifest
      exact hmanifest rfl

/-- Two walks, one behind the other, below different entries. -/
theorem Walked.append {top : Nat} {path : List QString} {name : QString}
    {files mid out : List QString} {found found' : List (List QString)}
    (h : Walked node top (path ++ [name]) files mid found)
    (h' : Walked node top path mid out found')
    (hother : ∀ p ∈ found', ¬ path ++ [name] <+: p) :
    Walked node top path files out (found ++ found') where
  all := by
    rw [h'.all, h.all, List.map_append, List.append_assoc]
  count := fun hle => h'.count (h.count hle)
  nodup := by
    rw [List.nodup_append]
    refine ⟨h.nodup, h'.nodup, fun p hp q hq heq => ?_⟩
    exact hother q hq (heq ▸ h.below p hp)
  below := by
    intro p hp
    rcases List.mem_append.1 hp with hp | hp
    · exact (List.prefix_append path [name]).trans (h.below p hp)
    · exact h'.below p hp
  found := by
    intro p hp
    rcases List.mem_append.1 hp with hp | hp
    · exact h.found p hp
    · exact h'.found p hp

/-- A walk in which operations may fail comes to files of the tree,
to each of them once. -/
theorem assetPaths_found (hproper : Proper node) {token : InspectPoll → Bool}
    {top : Nat} :
    ∀ (levels : Nat) (path : List QString) (entries : List (QString × Node))
      (files out : List QString), At node path (.dir entries) →
    path.length + levels ≤ top →
    assetPaths (storage lib chance place purpose node) token levels
      (joined path) files
      = .ok out →
    ∃ found, Walked node top path files out found := by
  intro levels
  induction levels with
  | zero =>
      intro path entries files out _ _ h
      unfold assetPaths at h
      obtain ⟨_, -, h⟩ := bind_eq_ok.1 h
      cases h
  | succ levels ih =>
      intro path entries files out hat htop h
      unfold assetPaths at h
      obtain ⟨_, -, h⟩ := bind_eq_ok.1 h
      obtain ⟨_, -, h⟩ := bind_eq_ok.1 h
      have hdistinct := hproper.distinct path entries hat
      -- the loop over the entries, of which some are left
      have hloop : ∀ (rest : List (QString × Node)) (files out : List QString),
          (∀ entry ∈ rest, entry ∈ entries) → (rest.map Prod.fst).Nodup →
          assetEntries token (assetPaths
            (storage lib chance place purpose node) token levels)
            (joined path) (rest.map infoOf) files = .ok out →
          ∃ found, Walked node top path files out found
            ∧ ∀ p ∈ found, ∃ entry ∈ rest, path ++ [entry.1] <+: p := by
        intro rest
        induction rest with
        | nil =>
            intro files out _ _ h
            injection h with h
            exact ⟨[], h ▸ Walked.none, fun _ hp => absurd hp List.not_mem_nil⟩
        | cons entry rest ih' =>
            intro files out hsub hnodup h
            obtain ⟨name, child⟩ := entry
            rw [List.map_cons, List.nodup_cons] at hnodup
            have hmem := hsub _ (List.mem_cons_self ..)
            have hchild := hat.child hmem
            have hpath : childPath (joined path)
              (infoOf (name, child)).fileName
                = joined (path ++ [name]) := by
              rw [show (infoOf (name, child)).fileName
                = name by cases child <;> rfl]
              exact childPath_joined path name fun n hn =>
                (hproper.good hat n hn).1
            rw [List.map_cons, assetEntries_cons, hpath] at h
            obtain ⟨_, -, h⟩ := bind_eq_ok.1 h
            obtain ⟨_, hlink, h⟩ := bind_eq_ok.1 h
            obtain ⟨mid, hmid, h⟩ := bind_eq_ok.1 h
            have hdeep : (path ++ [name]).length + levels ≤ top := by
              rw [List.length_append, List.length_singleton]
              omega
            -- what the entry adds
            have hentry : ∃ found,
                Walked node top (path ++ [name]) files mid found := by
              cases child with
              | file content =>
                  exact addFile_walked (by omega) hchild hmid
              | dir more => exact ih _ more files mid hchild hdeep hmid
              | link => cases demandThat_eq_ok.1 hlink
              | special =>
                  obtain ⟨_, hfile, -⟩ := bind_eq_ok.1 hmid
                  cases demandThat_eq_ok.1 hfile
            obtain ⟨found, hfound⟩ := hentry
            obtain ⟨found', hfound', hin⟩ := ih' mid out
              (fun e he => hsub e (List.mem_cons_of_mem _ he)) hnodup.2 h
            refine ⟨found ++ found', hfound.append hfound' ?_, ?_⟩
            · intro p hp hname
              obtain ⟨other, hother, hbelow⟩ := hin p hp
              obtain ⟨t, ht⟩ := hname
              obtain ⟨t', ht'⟩ := hbelow
              rw [← ht', List.append_assoc, List.append_assoc,
                List.append_cancel_left_eq] at ht
              injection ht with ht
              exact hnodup.1 (List.mem_map.2 ⟨other, hother, ht.symm⟩)
            · intro p hp
              rcases List.mem_append.1 hp with hp | hp
              · exact ⟨_, List.mem_cons_self .., hfound.below p hp⟩
              · obtain ⟨other, hother, hbelow⟩ := hin p hp
                exact ⟨other, List.mem_cons_of_mem _ hother, hbelow⟩
      rcases listing_cases hproper hat with hlisted | hlisted
      · rw [hlisted] at h
        injection h with h
        exact ⟨[], h ▸ Walked.none⟩
      · rw [hlisted] at h
        obtain ⟨found, hfound, -⟩ :=
          hloop entries files out (fun _ he => he) hdistinct h
        exact ⟨found, hfound⟩

-- ================================================================ the digests

/-- A file that was read to its end. -/
theorem hashBlocks_ok {token : InspectPoll → Bool} {relative : QString}
    {failure : Option QString} :
    ∀ {blocks : List (List UInt8)} {n : Nat} {size size' : Int}
      {data data' : List UInt8},
    hashBlocks token relative failure blocks n size data = .ok (size', data') →
    failure = none ∧ size' = size + blocks.flatten.length
      ∧ data' = data ++ blocks.flatten := by
  intro blocks
  induction blocks with
  | nil =>
      intro n size size' data data' h
      unfold hashBlocks at h
      obtain ⟨_, -, h⟩ := bind_eq_ok.1 h
      cases failure with
      | none =>
          injection h with h
          obtain ⟨rfl, rfl⟩ := Prod.mk.inj h
          simp
      | some message => cases h
  | cons block rest ih =>
      intro n size size' data data' h
      unfold hashBlocks at h
      obtain ⟨_, -, h⟩ := bind_eq_ok.1 h
      obtain ⟨hend, hsize, hdata⟩ := ih h
      refine ⟨hend, ?_, ?_⟩
      · rw [hsize, List.flatten_cons, List.length_append]
        push_cast
        omega
      · rw [hdata, List.flatten_cons, List.append_assoc]

/-- The digest is stored under the name that was asked for. -/
theorem hashFile_path {S : PackageStorage} {token : InspectPoll → Bool}
    {sha256Hex : List UInt8 → QString} {path : QString} {file : ModelFile}
    (h : hashFile S token sha256Hex path = .ok file) : file.path = path := by
  unfold hashFile at h
  cases hopen : S.openRead path with
  | error message =>
      rw [hopen] at h
      cases h
  | ok stream =>
      rw [hopen] at h
      obtain ⟨⟨size, data⟩, -, h⟩ := bind_eq_ok.1 h
      injection h with h
      rw [← h]

/-- The record of a file of a tree. -/
def recordOf (lib : Library) (path : List QString) (content : List UInt8) :
    ModelFile :=
  ⟨joined path, content.length, lib.sha256Hex content⟩

/-- What is read of a file is its content, or the reading fails. -/
theorem openRead_cases (hproper : Proper node) {path : List QString}
    {content : List UInt8} (hat : At node path (.file content))
    {found : ReadStream}
    (h : (storage lib chance place purpose node).openRead (joined path)
      = .ok found) :
    found = stream lib chance place purpose (joined path) content := by
  unfold storage at h
  dsimp only at h
  by_cases hfails : chance.fails (.openFile place purpose (joined path)) = true
  · rw [if_pos hfails] at h
    cases h
  · rw [if_neg hfails, follow_joined hproper hat] at h
    injection h with h
    exact h.symm

/-- A file of the tree that was hashed. -/
theorem hashFile_found (hproper : Proper node) {token : InspectPoll → Bool}
    {path : List QString} {content : List UInt8}
    (hat : At node path (.file content)) {file : ModelFile}
    (h : hashFile (storage lib chance place purpose node) token lib.sha256Hex
      (joined path)
      = .ok file) : file = recordOf lib path content := by
  unfold hashFile at h
  cases hopen : (storage lib chance place purpose node).openRead
      (joined path) with
  | error message =>
      rw [hopen] at h
      cases h
  | ok found =>
      rw [hopen] at h
      obtain ⟨⟨size, data⟩, hblocks, h⟩ := bind_eq_ok.1 h
      obtain ⟨hend, hsize, hdata⟩ := hashBlocks_ok hblocks
      have hstream := openRead_cases hproper hat hopen
      rw [hstream] at hend hsize hdata
      rw [stream_eq hend] at hsize hdata
      injection h with h
      rw [← h, hsize, hdata]
      simp [recordOf]

/-- The files behind the loop over the paths. -/
theorem inspectFiles_cases {hash : QString → Except Exn ModelFile}
    (hpath : ∀ path file, hash path = .ok file → file.path = path)
    {manifest : ModelManifest} :
    ∀ {paths : List QString} {r out : Inspection},
    inspectFiles hash manifest paths r = .ok out →
    ∃ files : List ModelFile, files.map ModelFile.path = paths
      ∧ (∀ file ∈ files, hash file.path = .ok file)
      ∧ out = files.foldl (fun r file => checkFile manifest file r) r := by
  intro paths
  induction paths with
  | nil =>
      intro r out h
      injection h with h
      exact ⟨[], rfl, List.forall_mem_nil _, h.symm⟩
  | cons path rest ih =>
      intro r out h
      unfold inspectFiles at h
      obtain ⟨file, hfile, h⟩ := bind_eq_ok.1 h
      obtain ⟨files, hpaths, hhash, hout⟩ := ih h
      have hname := hpath path file hfile
      refine ⟨file :: files, ?_, ?_, hout⟩
      · rw [List.map_cons, hname, hpaths]
      · exact List.forall_mem_cons.2 ⟨by rw [hname]; exact hfile, hhash⟩

-- ========================================================= a valid inspection

/-- What a valid inspection has seen. -/
structure Seen (lib : Library) (node : Node) (manifest : ModelManifest)
    (found : List (List QString)) : Prop where
  nodup : found.Nodup
  count : found.length ≤ 10000
  inside : ∀ p ∈ found, Found node 65 p
  files : ∀ file, file ∈ manifest.files
    ↔ ∃ p content, p ∈ found ∧ At node p (.file content)
      ∧ file = recordOf lib p content

/-- Two files of a proper tree never share a written path, which is what keeps
the inventory free of duplicates. -/
theorem Proper.joined_inj (hproper : Proper node) {p q : List QString}
    {c d : List UInt8}
    (hroot : ∃ entries, node = .dir entries) (hp : At node p (.file c))
    (hq : At node q (.file d)) (h : joined p = joined q) : p = q := by
  have hne : ∀ {path : List QString} {content : List UInt8},
      At node path (.file content) → path ≠ [] := by
    intro path content hat hnil
    obtain ⟨entries, rfl⟩ := hroot
    rw [hnil] at hat
    cases hat
  exact joined_injective (hne hp) (hne hq)
    (fun n hn => (hproper.good hp n hn).2.2)
    (fun n hn => (hproper.good hq n hn).2.2) h

/-- A package with an inventory is valid only when the walk has come to just
the files of the inventory, and the entry point passes. -/
theorem inspectPackage_valid (hproper : Proper node)
    (hroot : ∃ entries, node = .dir entries) {manifest : ModelManifest}
    (hmanifest : Inspectable manifest) (hsome : manifest.files ≠ [])
    {result : ModelVerification}
    (h : inspectPackage lib chance place node manifest = .ok result)
    (hvalid : result.valid = true) :
    (∃ found, Seen lib node manifest found)
      ∧ entryProblem (storage lib chance place .entryPoint node) manifest
        = [] := by
  unfold inspectPackage at h
  obtain ⟨model, -, h⟩ := bind_eq_ok.1 h
  obtain ⟨paths, hpaths, h⟩ := bind_eq_ok.1 h
  obtain ⟨r, hr, h⟩ := bind_eq_ok.1 h
  injection h with h
  subst h
  obtain ⟨entries, hentries⟩ := hroot
  obtain ⟨found, hwalk⟩ := assetPaths_found hproper 65 [] entries [] paths
    (hentries ▸ .here _) (Nat.le_refl 65) hpaths
  obtain ⟨files, hnames, hhash, hout⟩ :=
    inspectFiles_cases (fun _ _ => hashFile_path) hr
  have hperm : (files.map ModelFile.path).Perm (found.map joined) := by
    rw [hnames, hwalk.all, List.nil_append]
    exact List.perm_insertionSort _ _
  have hinj : ∀ p ∈ found, ∀ q ∈ found, joined p = joined q → p = q := by
    intro p hp q hq heq
    obtain ⟨c, hc⟩ := (hwalk.found p hp).file
    obtain ⟨d, hd⟩ := (hwalk.found q hq).file
    exact hproper.joined_inj ⟨entries, hentries⟩ hc hd heq
  have hdistinct : (files.map ModelFile.path).Nodup :=
    hperm.nodup_iff.2 (hwalk.nodup.map_on hinj)
  -- the files that were hashed are those that were found
  have hfiles : ∀ file, file ∈ files
      ↔ ∃ p content, p ∈ found ∧ At node p (.file content)
        ∧ file = recordOf lib p content := by
    intro file
    constructor
    · intro hfile
      obtain ⟨p, hp, hjoined⟩ := List.mem_map.1
        (hperm.mem_iff.1 (List.mem_map_of_mem hfile))
      obtain ⟨content, hat⟩ := (hwalk.found p hp).file
      have hhashed := hhash file hfile
      rw [← hjoined] at hhashed
      exact ⟨p, content, hp, hat, hashFile_found hproper hat hhashed⟩
    · intro hfile
      obtain ⟨p, content, hp, hat, rfl⟩ := hfile
      obtain ⟨file, hfile, hname⟩ := List.mem_map.1
        (hperm.mem_iff.2 (List.mem_map_of_mem (f := joined) hp))
      have hhashed := hhash file hfile
      rw [hname] at hhashed
      rw [← hashFile_found hproper hat hhashed]
      exact hfile
  have hissues := conclude_listed
    (S := storage lib chance place .entryPoint node) hsome
    hmanifest.distinct (fun _ => Iff.rfl) hdistinct hout
  have hnone :
    ∀ issue, issue ∉ (conclude (storage lib chance place .entryPoint node)
      manifest r).issues := by
    rw [← List.eq_nil_iff_forall_not_mem]
    unfold conclude at hvalid ⊢
    exact of_decide_eq_true hvalid
  have hsame := (no_discrepancy fun file file' hfile hfile' hpath =>
    List.inj_on_of_nodup_map hdistinct hfile hfile' hpath).1
    fun issue hissue => hnone issue ((hissues issue).2 (.inl hissue))
  refine ⟨⟨found, hwalk.nodup, ?_, hwalk.found, fun file => ?_⟩, ?_⟩
  · have hcount := hwalk.count (by simp)
    rw [hwalk.all, List.nil_append, List.length_map] at hcount
    exact hcount
  · rw [← hsame, hfiles]
  · by_contra hproblem
    exact hnone _ ((hissues _).2 (.inr ⟨hproblem, rfl⟩))

-- ============================================================ the entry point

/-- What one storage says of a package, another says too. -/
structure Confirms (S S' : PackageStorage) : Prop where
  gguf : ∀ path, isGguf S path = true → isGguf S' path = true
  file : ∀ path, S.isFile path = true → S'.isFile path = true
  dir : ∀ path, S.dirExists path = true → S'.dirExists path = true
  list : ∀ path pattern, S.entryList path pattern ≠ [] →
    S'.entryList path pattern ≠ []

/-- An entry point that passes, passes again. -/
theorem Confirms.entryProblem {S S' : PackageStorage} (h : Confirms S S')
    {manifest : ModelManifest} (hnone : entryProblem S manifest = []) :
    entryProblem S' manifest = [] := by
  unfold ModelInspection.entryProblem at hnone ⊢
  dsimp only at hnone ⊢
  by_cases hprojector : manifest.projector ≠ []
    ∧ isGguf S manifest.projector = false
  · rw [if_pos hprojector] at hnone
    exact absurd hnone (by decide)
  · rw [if_neg hprojector] at hnone
    have hprojector' : ¬ (manifest.projector ≠ []
        ∧ isGguf S' manifest.projector = false) := by
      intro hboth
      refine hprojector ⟨hboth.1, ?_⟩
      by_contra hgguf
      rw [h.gguf _ (Bool.not_eq_false _ ▸ hgguf)] at hboth
      cases hboth.2
    rw [if_neg hprojector']
    by_cases hmlx : manifest.format = qs "mlx"
    · rw [if_pos hmlx] at hnone ⊢
      split at hnone
      next => exact absurd hnone (by decide)
      next hall =>
        rw [not_or, not_or, not_or, Bool.not_eq_false,
          Bool.not_eq_false, not_and_or,
          Bool.not_eq_false, Bool.not_eq_false] at hall
        obtain ⟨hdir, hconfig, htokenizer, hlist⟩ := hall
        rw [if_neg]
        rw [not_or, not_or, not_or, Bool.not_eq_false,
          Bool.not_eq_false, not_and_or,
          Bool.not_eq_false, Bool.not_eq_false]
        exact ⟨h.dir _ hdir, h.file _ hconfig, htokenizer.imp
          (h.file _) (h.file _),
          h.list _ _ hlist⟩
    · rw [if_neg hmlx] at hnone ⊢
      by_cases hfile : S.isFile manifest.entryPoint = false
      · rw [if_pos hfile] at hnone
        exact absurd hnone (by decide)
      · rw [if_neg hfile] at hnone
        rw [Bool.not_eq_false] at hfile
        rw [if_neg (by rw [h.file _ hfile]; decide)]
        by_cases hgguf : manifest.format = qs "gguf"
          ∧ isGguf S manifest.entryPoint = false
        · rw [if_pos hgguf] at hnone
          exact absurd hnone (by decide)
        · rw [if_neg]
          intro hboth
          refine hgguf ⟨hboth.1, ?_⟩
          by_contra hmagic
          rw [h.gguf _ (Bool.not_eq_false _ ▸ hmagic)] at hboth
          cases hboth.2

/-- What is read of a file is a beginning of it. -/
theorem stream_prefix {path : QString} {content : List UInt8} :
    (stream lib chance place purpose path content).blocks.flatten
      <+: content := by
  unfold stream
  split
  next =>
    rw [lib.blocks_flatten]
  next n _ =>
    have hsplit := lib.blocks_flatten content
    rw [← List.take_append_drop n (lib.blocks content),
      List.flatten_append] at hsplit
    exact ⟨_, hsplit⟩

/-- What is answered while operations fail is confirmed where nothing fails. So
a package that passed an inspection is one that passes it. -/
theorem storage_confirms {place' : Place} {calm : Chance}
    (hcalm : ∀ op, calm.fails op = false) :
    Confirms (storage lib chance place purpose node)
      (storage lib calm place' purpose node) where
  gguf := by
    intro path h
    unfold isGguf storage at h ⊢
    dsimp only at h ⊢
    by_cases hfails : chance.fails (.openFile place purpose path) = true
    · rw [if_pos hfails] at h
      cases h
    · rw [if_neg hfails] at h
      rw [if_neg (by rw [hcalm]; decide)]
      cases hfollow : follow (names path) node with
      | none =>
          rw [hfollow] at h
          cases h
      | some found =>
          rw [hfollow] at h
          cases found with
          | file content =>
              dsimp only at h ⊢
              rw [stream_calm hcalm, beq_iff_eq, lib.blocks_flatten]
              obtain ⟨t, ht⟩ : (stream lib chance place purpose path
                  content).blocks.flatten <+: content := stream_prefix
              rw [beq_iff_eq] at h
              have hlength := congrArg List.length h
              rw [List.length_take] at hlength
              have hfour : 4 ≤ (stream lib chance place purpose path
                  content).blocks.flatten.length := by
                have hmagic : ([0x47, 0x47, 0x55, 0x46] : List UInt8).length
                  = 4 := rfl
                omega
              rw [← ht, List.take_append_of_le_length hfour, h]
          | _ => cases h
  file := by
    intro path h
    unfold storage at h ⊢
    dsimp only at h ⊢
    rw [hcalm]
    exact Bool.and_eq_true_iff.2 ⟨(Bool.and_eq_true_iff.1 h).1, rfl⟩
  dir := by
    intro path h
    unfold storage at h ⊢
    dsimp only at h ⊢
    rw [hcalm]
    exact Bool.and_eq_true_iff.2 ⟨(Bool.and_eq_true_iff.1 h).1, rfl⟩
  list := by
    intro path pattern h
    unfold storage at h ⊢
    dsimp only at h ⊢
    rw [if_neg (by rw [hcalm]; decide)]
    by_cases hfails : chance.fails (.names place path) = true
    · rw [if_pos hfails] at h
      exact absurd rfl h
    · rw [if_neg hfails] at h
      exact h

-- ========================================================= the tree of a copy

/-- The files of a directory that is made file by file: none is in
another's way. -/
structure Apart (staged : Staged) : Prop where
  nonempty : ∀ f ∈ staged, f.1 ≠ []
  good : ∀ f ∈ staged, ∀ name ∈ f.1, Good name
  apart : ∀ f ∈ staged, ∀ g ∈ staged, f.1 <+: g.1 → f = g

/-- The first names of the staged files are the entries of the
root directory. -/
theorem mem_heads {staged : Staged} {name : QString} :
    name ∈ heads staged ↔ ∃ rest content, (name :: rest,
      content) ∈ staged := by
  unfold heads
  rw [(List.perm_insertionSort _ _).mem_iff, List.mem_dedup,
    List.mem_filterMap]
  constructor
  · intro h
    obtain ⟨⟨path, content⟩, hmem, hhead⟩ := h
    cases path with
    | nil => cases hhead
    | cons first rest =>
        injection hhead with hhead
        exact ⟨rest, content, hhead ▸ hmem⟩
  · intro h
    obtain ⟨rest, content, hmem⟩ := h
    exact ⟨_, hmem, rfl⟩

/-- Each entry is listed once, although several files may lie below it. -/
theorem nodup_heads (staged : Staged) : (heads staged).Nodup :=
  (List.perm_insertionSort _ _).nodup_iff.2 (List.nodup_dedup _)

/-- The files below an entry are the staged ones that begin with its name. -/
theorem mem_within {staged : Staged} {name : QString} {rest : List QString}
    {content : List UInt8} :
    (rest, content) ∈ within name staged
      ↔ (name :: rest, content) ∈ staged := by
  unfold within
  rw [List.mem_filterMap]
  constructor
  · intro h
    obtain ⟨⟨path, data⟩, hmem, hsome⟩ := h
    cases path with
    | nil => cases hsome
    | cons first more =>
        dsimp only at hsome
        by_cases hname : first = name
        · rw [if_pos hname] at hsome
          injection hsome with hsome
          obtain ⟨rfl, rfl⟩ := Prod.mk.inj hsome
          exact hname ▸ hmem
        · rw [if_neg hname] at hsome
          cases hsome
  · intro h
    refine ⟨_, h, ?_⟩
    dsimp only
    rw [if_pos rfl]

/-- The files in a directory of the copy. -/
theorem Apart.within {staged : Staged} (h : Apart staged) {name : QString}
    (hnone : ∀ content, ([name], content) ∉ staged) :
    Apart (within name staged) where
  nonempty := by
    intro f hf hnil
    obtain ⟨rest, content⟩ := f
    have hnil : rest = [] := hnil
    rw [hnil, mem_within] at hf
    exact hnone content hf
  good := by
    intro f hf n hn
    exact h.good _ (mem_within.1 hf) n (List.mem_cons_of_mem _ hn)
  apart := by
    intro f hf g hg hprefix
    have heq := h.apart _ (mem_within.1 hf) _ (mem_within.1 hg)
      (List.cons_prefix_cons.2 ⟨rfl, hprefix⟩)
    obtain ⟨hpath, hcontent⟩ := Prod.mk.inj heq
    exact Prod.ext (List.cons.inj hpath).2 hcontent

/-- No file stands deeper than this. -/
def Bounded (levels : Nat) (staged : Staged) :
    Prop := ∀ f ∈ staged, f.1.length ≤ levels

/-- One level is used up on the way down, which is what the
recursion on levels counts. -/
theorem Bounded.within {levels : Nat} {staged : Staged}
    (h : Bounded (levels + 1) staged)
    (name : QString) : Bounded levels (within name staged) := by
  intro f hf
  have hle := h _ (mem_within.1 hf)
  rw [List.length_cons] at hle
  omega

theorem at_nil {node child : Node} (h : At node [] child) : child = node := by
  cases h with
  | here => rfl

/-- What stands under a first name. -/
def childOf (levels : Nat) (staged : Staged) (name : QString) :
    QString × Node :=
  match (within name staged).find? fun f => f.1 = [] with
  | some f => (name, .file f.2)
  | none => (name, treeOf levels (within name staged))

/-- A directory holds one entry for each first name. -/
theorem treeOf_succ (levels : Nat) (staged : Staged) :
    treeOf (levels + 1) staged
      = .dir ((heads staged).map (childOf levels staged)) := rfl

theorem childOf_fst (levels : Nat) (staged : Staged) (name : QString) :
    (childOf levels staged name).1 = name := by
  unfold childOf
  split <;> rfl

/-- It is a file, or the tree of the files below. -/
theorem childOf_cases (staged : Staged) (levels : Nat) (name : QString) :
    (∃ content, ([name], content) ∈ staged
        ∧ childOf levels staged name = (name, .file content))
      ∨ ((∀ content, ([name], content) ∉ staged)
        ∧ childOf levels staged name
          = (name, treeOf levels (within name staged))) := by
  unfold childOf
  cases hfind : (within name staged).find? fun f => f.1 = [] with
  | some f =>
      obtain ⟨rest, content⟩ := f
      have hnil : rest = [] := by simpa using List.find?_some hfind
      have hmem := mem_within.1 (List.mem_of_find?_eq_some hfind)
      rw [hnil] at hmem
      exact .inl ⟨content, hmem, rfl⟩
  | none =>
      refine .inr ⟨fun content hmem => ?_, rfl⟩
      have hnot := List.find?_eq_none.1 hfind ([], content) (mem_within.2 hmem)
      simp at hnot

/-- A node of the tree of a copy is a file of the copy, or the tree of its
files in a directory. -/
theorem at_treeOf_cases :
    ∀ (levels : Nat) {staged : Staged}, Apart staged → Bounded levels staged →
    ∀ {path : List QString} {node : Node},
      At (treeOf levels staged) path node →
    (∃ content, node = .file content ∧ (path, content) ∈ staged)
      ∨ ∃ below files, node = treeOf below files ∧ Apart files
        ∧ Bounded below files
        ∧ (path = [] ∨ files ≠ []) ∧ ∀ f ∈ files,
          (path ++ f.1, f.2) ∈ staged := by
  intro levels
  induction levels with
  | zero =>
      intro staged hapart hbounded path node hat
      cases hat with
      | here =>
          exact .inr ⟨0, staged, rfl, hapart, hbounded, .inl rfl,
            fun _ hf => hf⟩
      | there hmem _ => cases hmem
  | succ levels ih =>
      intro staged hapart hbounded path node hat
      rw [treeOf_succ] at hat
      cases hat with
      | here =>
          exact .inr ⟨levels + 1, staged, rfl, hapart, hbounded, .inl rfl,
            fun _ hf => hf⟩
      | @there _ name child _ rest hmem hat =>
          obtain ⟨head, hhead, hchild⟩ := List.mem_map.1 hmem
          have hname : head = name := by
            have hfst := childOf_fst levels staged head
            rw [hchild] at hfst
            exact hfst.symm
          subst hname
          rcases childOf_cases staged levels head with
            ⟨content, hfile, heq⟩ | ⟨hnone, heq⟩
          · rw [heq] at hchild
            obtain ⟨-, rfl⟩ := Prod.mk.inj hchild
            cases hat with
            | here => exact .inl ⟨content, rfl, hfile⟩
          · rw [heq] at hchild
            obtain ⟨-, rfl⟩ := Prod.mk.inj hchild
            by_cases hrest : rest = []
            · -- the directory is there because of a file in it
              subst hrest
              obtain ⟨more, content, hbelow⟩ := mem_heads.1 hhead
              refine .inr ⟨levels, _, at_nil hat, hapart.within hnone,
                hbounded.within head,
                .inr (List.ne_nil_of_mem (mem_within.2 hbelow)), fun f hf =>
                  mem_within.1 hf⟩
            · rcases ih (hapart.within hnone) (hbounded.within head) hat with
                ⟨content, hnode, hmem⟩ | ⟨below, files, hnode, hfiles,
                  hdeep, hne, hin⟩
              · exact .inl ⟨content, hnode, mem_within.1 hmem⟩
              · exact .inr ⟨below, files, hnode, hfiles, hdeep,
                  .inr (hne.resolve_left hrest),
                  fun f hf => mem_within.1 (hin f hf)⟩

/-- The files of a copy stand in its tree. -/
theorem at_treeOf_of_mem :
    ∀ (levels : Nat) {staged : Staged}, Apart staged → Bounded levels staged →
    ∀ {path : List QString} {content : List UInt8}, (path, content) ∈ staged →
    At (treeOf levels staged) path (.file content) := by
  intro levels
  induction levels with
  | zero =>
      intro staged hapart hbounded path content hmem
      have hnil := List.length_eq_zero_iff.1 (Nat.le_zero.1 (hbounded _ hmem))
      exact absurd hnil (hapart.nonempty _ hmem)
  | succ levels ih =>
      intro staged hapart hbounded path content hmem
      rw [treeOf_succ]
      cases path with
      | nil => exact absurd rfl (hapart.nonempty _ hmem)
      | cons name rest =>
          have hhead : name ∈ heads staged := mem_heads.2 ⟨rest, content, hmem⟩
          have hchild := List.mem_map_of_mem (f := childOf levels staged) hhead
          rcases childOf_cases staged levels name with
            ⟨data, hfile, heq⟩ | ⟨hnone, heq⟩
          · -- a file of this name is the only one below it
            have hsame := hapart.apart _ hfile _ hmem
              (List.cons_prefix_cons.2 ⟨rfl, List.nil_prefix⟩)
            obtain ⟨hpath, rfl⟩ := Prod.mk.inj hsame
            rw [heq] at hchild
            rw [← hpath]
            exact .there hchild (.here _)
          · rw [heq] at hchild
            exact .there hchild
              (ih (hapart.within hnone) (hbounded.within name)
                (mem_within.2 hmem))

/-- A directory of the tree, by its entries. -/
theorem treeOf_entries (levels : Nat) {staged : Staged} (hapart : Apart staged)
    {entries : List (QString × Node)}
    (h : treeOf levels staged = .dir entries) :
    (entries.map Prod.fst).Nodup ∧ ∀ name ∈ entries.map Prod.fst,
      Good name := by
  cases levels with
  | zero =>
      injection h with h
      subst h
      exact ⟨List.nodup_nil, List.forall_mem_nil _⟩
  | succ levels =>
      rw [treeOf_succ] at h
      injection h with h
      have hnames : entries.map Prod.fst = heads staged := by
        rw [← h, List.map_map]
        exact (List.map_congr_left fun name _ =>
          childOf_fst levels staged name).trans
          (List.map_id' _)
      rw [hnames]
      refine ⟨nodup_heads staged, fun name hname => ?_⟩
      obtain ⟨rest, content, hmem⟩ := mem_heads.1 hname
      exact hapart.good _ hmem name (List.mem_cons_self ..)

/-- The levels that `tree` allows are enough for the longest staged path. -/
theorem bounded_tree (staged : Staged) :
    Bounded (staged.foldr (fun f levels => max f.1.length levels) 0
      + 1) staged := by
  have hle : ∀ f ∈ staged,
      f.1.length ≤ staged.foldr (fun f levels => max f.1.length levels) 0 := by
    induction staged with
    | nil => exact List.forall_mem_nil _
    | cons g rest ih =>
        intro f hf
        rw [List.foldr_cons]
        rcases List.mem_cons.1 hf with rfl | hf
        · exact Nat.le_max_left _ _
        · exact Nat.le_trans (ih f hf) (Nat.le_max_right _ _)
  exact fun f hf => Nat.le_succ_of_le (hle f hf)

section Tree

variable {staged : Staged}

/-- The tree of a copy has its files and no others. -/
theorem at_tree (h : Apart staged) {path : List QString}
    {content : List UInt8} :
    At (tree staged) path (.file content) ↔ (path, content) ∈ staged := by
  constructor
  · intro hat
    rcases at_treeOf_cases _ h (bounded_tree staged) hat with
      ⟨data, hnode, hmem⟩ | ⟨below, files, hnode, -⟩
    · injection hnode with hnode
      exact hnode ▸ hmem
    · cases below <;> cases hnode
  · exact at_treeOf_of_mem _ h (bounded_tree staged)

/-- Paths that are apart give a tree whose entries have distinct, proper names
at every level. -/
theorem proper_tree (h : Apart staged) : Proper (tree staged) := by
  have hdir : ∀ path entries, At (tree staged) path (.dir entries) →
      (entries.map Prod.fst).Nodup ∧ ∀ name ∈ entries.map Prod.fst,
        Good name := by
    intro path entries hat
    rcases at_treeOf_cases _ h (bounded_tree staged) hat with
      ⟨data, hnode, -⟩ | ⟨below, files, hnode, hfiles, -⟩
    · cases hnode
    · exact treeOf_entries below hfiles hnode.symm
  exact ⟨fun path entries hat => (hdir path entries hat).1,
    fun path entries hat => (hdir path entries hat).2⟩

/-- Every directory but the first is there because of a file in it. -/
theorem dir_tree (h : Apart staged) {path : List QString}
    {entries : List (QString × Node)}
    (hat : At (tree staged) path (.dir entries)) :
    path = [] ∨ ∃ rest content,
      rest ≠ [] ∧ (path ++ rest, content) ∈ staged := by
  rcases at_treeOf_cases _ h (bounded_tree staged) hat with
    ⟨data, hnode, -⟩ | ⟨below, files, -, hfiles, -, hne, hin⟩
  · cases hnode
  · rcases hne with hnil | hne
    · exact .inl hnil
    · obtain ⟨f, rest, rfl⟩ := List.exists_cons_of_ne_nil hne
      have hf := List.mem_cons_self (a := f) (l := rest)
      exact .inr ⟨f.1, f.2, hfiles.nonempty f hf, hin f hf⟩

/-- A staged tree has directories and plain files only: no links and nothing
special, so an inspection finds none. -/
theorem regular_tree (h : Apart staged) (path : List QString) :
    ¬ At (tree staged) path .link ∧ ¬ At (tree staged) path .special := by
  constructor
  · intro hat
    rcases at_treeOf_cases _ h (bounded_tree staged) hat with
      ⟨data, hnode, -⟩ | ⟨below, files, hnode, -⟩
    · cases hnode
    · cases below <;> cases hnode
  · intro hat
    rcases at_treeOf_cases _ h (bounded_tree staged) hat with
      ⟨data, hnode, -⟩ | ⟨below, files, hnode, -⟩
    · cases hnode
    · cases below <;> cases hnode

theorem root_tree (staged : Staged) :
    ∃ entries, tree staged = .dir entries := ⟨_, rfl⟩

end Tree

-- =========================================================== inspected again

/-- Without failures, the digest and the entry point read the same bytes. -/
theorem storage_purpose (hcalm : ∀ op, chance.fails op = false) :
    storage lib chance place .digest node
      = storage lib chance place .entryPoint node := by
  unfold storage
  congr 1
  funext path
  rw [hcalm, hcalm, if_neg Bool.false_ne_true, if_neg Bool.false_ne_true]
  simp only [stream_calm hcalm]

/-- Where nothing fails, the inspection is the one that opens each
file once. -/
theorem inspectPackage_calm (hcalm : Calm chance) {manifest : ModelManifest}
    {result : ModelVerification} {inventory : List ModelFile}
    (h : inspect (storage lib chance place .digest node)
      (fun poll => chance.cancelled (.inspect place poll))
        lib.sha256Hex manifest
      = .ok (result, inventory)) :
    inspectPackage lib chance place node manifest = .ok result := by
  unfold inspect at h
  obtain ⟨model, hmodel, h⟩ := bind_eq_ok.1 h
  obtain ⟨paths, hpaths, h⟩ := bind_eq_ok.1 h
  obtain ⟨r, hr, h⟩ := bind_eq_ok.1 h
  injection h with h
  obtain ⟨rfl, -⟩ := Prod.mk.inj h
  unfold inspectPackage
  refine bind_eq_ok.2 ⟨model, hmodel,
    bind_eq_ok.2 ⟨paths, hpaths, bind_eq_ok.2 ⟨r, hr, ?_⟩⟩⟩
  rw [storage_purpose hcalm.1]
  rfl

section Again

variable {staged : Staged} {manifest : ModelManifest}
    {found : List (List QString)}

/-- The valid inspection of a copy has come to all of its files. -/
theorem Seen.complete (h : Seen lib (tree staged) manifest found)
    (hapart : Apart staged)
    (hlisted : ∀ f ∈ staged, f.1 ≠ [qs "manifest.json"] →
      ∃ file ∈ manifest.files, file.path = joined f.1)
    {path : List QString} {content : List UInt8}
    (hat : At (tree staged) path (.file content))
    (hne : path ≠ [qs "manifest.json"]) :
    path ∈ found := by
  obtain ⟨file, hfile, hpath⟩ := hlisted _ ((at_tree hapart).1 hat) hne
  obtain ⟨p, data, hp, hatp, rfl⟩ := (h.files file).1 hfile
  have heq := (proper_tree hapart).joined_inj (root_tree staged) hatp hat hpath
  exact heq ▸ hp

/-- A copy whose inspection was valid is a package that no
inspection refuses. -/
def Seen.package (h : Seen lib (tree staged) manifest found)
    (hapart : Apart staged)
    (hlisted : ∀ f ∈ staged, f.1 ≠ [qs "manifest.json"] →
      ∃ file ∈ manifest.files, file.path = joined f.1) : Package where
  tree := tree staged
  root := root_tree staged
  distinct := (proper_tree hapart).distinct
  named := fun path entries hat name hname =>
    ⟨((proper_tree hapart).named path entries hat name hname).1,
      ((proper_tree hapart).named path entries hat name hname).2.2⟩
  regular := regular_tree hapart
  onnx := fun path _ hat hne =>
    (h.inside path (h.complete hapart hlisted hat hne)).onnx
  depth := by
    intro path entries hat
    rcases dir_tree hapart hat with rfl | ⟨rest, content, hrest, hmem⟩
    · exact Nat.zero_le _
    · have hlength := List.length_pos_of_ne_nil hrest
      by_cases hmanifest : path ++ rest = [qs "manifest.json"]
      · have hone := congrArg List.length hmanifest
        rw [List.length_append, List.length_singleton] at hone
        omega
      · have hdepth := (h.inside _ (h.complete hapart hlisted
          ((at_tree hapart).2 hmem) hmanifest)).depth
        rw [List.length_append] at hdepth
        omega
  count := by
    intro paths hnodup hfiles
    have hsub : paths ⊆ found := by
      intro path hpath
      obtain ⟨hne, content, hat⟩ := hfiles path hpath
      exact h.complete hapart hlisted hat hne
    exact Nat.le_trans (hnodup.subperm hsub).length_le h.count

/-- A copy whose inspection was valid is valid in every inspection
where nothing fails. -/
theorem inspectPackage_again (hapart : Apart staged)
    (hlisted : ∀ f ∈ staged, f.1 ≠ [qs "manifest.json"] →
      ∃ file ∈ manifest.files, file.path = joined f.1)
    (hmanifest : Inspectable manifest) (hsome : manifest.files ≠ [])
    {result : ModelVerification}
    (h : inspectPackage lib chance place (tree staged) manifest = .ok result)
    (hvalid : result.valid = true) {calm : Chance} (hcalm : Calm calm)
    {place' : Place} :
    ∃ result', inspectPackage lib calm place' (tree staged) manifest
      = .ok result'
      ∧ result'.valid = true := by
  obtain ⟨⟨found, hseen⟩, hproblem⟩ :=
    inspectPackage_valid (proper_tree hapart)
    (root_tree staged) hmanifest hsome h hvalid
  have hshows : Shows (storage lib calm place' .digest (tree staged))
      (tree staged) :=
    storage_shows (proper_tree hapart) hcalm.1
  obtain ⟨result', inventory, hinspect, -⟩ :=
    (hseen.package hapart hlisted).inspect_counts
    lib.sha256Hex hshows (fun poll => hcalm.2 (.inspect place' poll)) hmanifest
  refine ⟨result', inspectPackage_calm hcalm hinspect, ?_⟩
  refine ((hseen.package hapart hlisted).inspect_listed lib.sha256Hex hshows
    (fun poll => hcalm.2 (.inspect place' poll)) hmanifest hsome hinspect).2.2
      ⟨?_, ?_⟩
  · intro file
    rw [hseen.files]
    constructor
    · intro hdisk
      obtain ⟨path, content, hat, hne, rfl⟩ := hdisk
      exact ⟨path, content, hseen.complete hapart hlisted hat hne, hat, rfl⟩
    · intro hfile
      obtain ⟨path, content, hp, hat, rfl⟩ := hfile
      exact ⟨path, content, hat, (hseen.inside path hp).manifest, rfl⟩
  · rw [storage_purpose hcalm.1]
    exact (storage_confirms hcalm.1).entryProblem hproblem

end Again

end LocalLLM.ModelsDirectory
