/-
What an inspection says of a package.

# The tree

A `Package` is a directory tree with names that can be names, without
links, special files and ONNX models, and within the limits. `PackageStorage`
shows it when its answers are those of the tree (`Shows`).

# The walk

The walk comes to every file of the tree once (`assetPaths_eq`); a path is
its names with slashes between, and the names can be read off again
(`joined_injective`).

# The comparison

The map of what is expected loses the paths that were seen and nothing else
(`checkFiles_listed`), so what is left is what is missing. The issues are those
of the files on disk, those of the missing ones, and that of the entry
point.
-/
import LocalLLM.Lib.Maps
import LocalLLM.Models.ModelInspection
import LocalLLM.Proofs.Manifest
import LocalLLM.Proofs.Paths

namespace LocalLLM

open Std

namespace ModelInspection

open ManifestObject (parseModelManifest demand_bind_eq_ok takeFiles_paths)

-- =================================================================== the tree

/-- Under these names stands `node`. -/
inductive At : Node → List QString → Node → Prop
  | here (node : Node) : At node [] node
  | there {entries : List (QString × Node)} {name : QString}
      {child node : Node}
      {path : List QString} : (name, child) ∈ entries → At child path node →
      At (.dir entries) (name :: path) node

/-- Names with slashes between them. -/
def joined (path : List QString) : QString := QString.join path (qs "/")

/-- A file other than the manifest of the package, as the inventory has it. -/
def OnDisk (sha256Hex : List UInt8 → QString) (tree : Node)
    (file : ModelFile) : Prop :=
  ∃ path content, At tree path (.file content) ∧ path ≠ [qs "manifest.json"]
    ∧ file = ⟨joined path, content.length, sha256Hex content⟩

/-- A package directory that the inspection does not refuse. -/
structure Package where
  tree : Node
  root : ∃ entries, tree = .dir entries
  distinct : ∀ path entries, At tree path (.dir entries) →
    (entries.map Prod.fst).Nodup
  named : ∀ path entries, At tree path (.dir entries) →
    ∀ name ∈ entries.map Prod.fst, name ≠ [] ∧ qc '/' ∉ name
  regular : ∀ path, ¬ At tree path .link ∧ ¬ At tree path .special
  onnx : ∀ path content, At tree path (.file content) →
    path ≠ [qs "manifest.json"] → isOnnx (joined path) = false
  depth : ∀ path entries, At tree path (.dir entries) → path.length ≤ 64
  count : ∀ paths : List (List QString), paths.Nodup →
    (∀ path ∈ paths, path ≠ [qs "manifest.json"]
      ∧ ∃ content, At tree path (.file content)) → paths.length ≤ 10000

/-- The storage answers for the tree, and everything can be read. -/
structure Shows (S : PackageStorage) (tree : Node) : Prop where
  listed : ∀ path entries, At tree path (.dir entries) →
    S.isReadable (joined path) = true
      ∧ S.entryInfoList (joined path) = entries.map infoOf
  content : ∀ path content, At tree path (.file content) →
    ∃ stream, S.openRead (joined path) = .ok stream ∧ stream.failure = none
      ∧ stream.blocks.flatten = content

/-- Below a node that stands somewhere. -/
theorem At.trans {tree node below : Node} {path rest : List QString}
    (h : At tree path node) (hbelow : At node rest below) :
    At tree (path ++ rest) below := by
  induction h with
  | here => exact hbelow
  | there hmem _ ih => exact .there hmem (ih hbelow)

/-- Below a directory, each of its entries is reached by one name more. -/
theorem At.child {tree child : Node} {path : List QString} {name : QString}
    {entries : List (QString × Node)} (h : At tree path (.dir entries))
    (hmem : (name, child) ∈ entries) : At tree (path ++ [name]) child :=
  h.trans (.there hmem (.here child))

-- ================================================================== the paths

/-- Names are joined by one slash each, and none stands at the end. -/
theorem joined_cons (name : QString) (rest : List QString) (hne : rest ≠ []) :
    joined (name :: rest) = name ++ qc '/' :: joined rest := by
  cases rest with
  | nil => exact absurd rfl hne
  | cons next rest =>
      unfold joined QString.join
      simp [show qs "/" = [qc '/'] by decide]

theorem joined_singleton (name : QString) : joined [name] = name := by
  unfold joined QString.join
  simp

/-- Names without slashes can be read off their path. -/
theorem pathParts_joined :
    ∀ path : List QString, path ≠ [] → (∀ name ∈ path, qc '/' ∉ name) →
    pathParts (joined path) = path := by
  intro path
  induction path with
  | nil => exact fun hne => absurd rfl hne
  | cons name rest ih =>
      intro _ hslash
      have hname := hslash name (List.mem_cons_self ..)
      by_cases hne : rest = []
      · subst hne
        rw [joined_singleton, pathParts_name hname]
      · rw [joined_cons name rest hne, pathParts_append, pathParts_name hname,
          ih hne fun n hn => hslash n (List.mem_cons_of_mem _ hn)]
        rfl

/-- Names without slashes can be read back from the joined path, so two files
never share one. -/
theorem joined_injective {path path' : List QString} (hne : path ≠ [])
    (hne' : path' ≠ []) (hslash : ∀ name ∈ path, qc '/' ∉ name)
    (hslash' : ∀ name ∈ path', qc '/' ∉ name)
    (h : joined path = joined path') : path = path' := by
  rw [← pathParts_joined path hne hslash, h,
    pathParts_joined path' hne' hslash']

/-- The walk puts a name behind a path as `joined` does. -/
theorem childPath_joined (path : List QString) (name : QString)
    (hnames : ∀ n ∈ path, n ≠ []) :
    childPath (joined path) name = joined (path ++ [name]) := by
  induction path with
  | nil =>
      rw [List.nil_append, joined_singleton]
      rfl
  | cons first rest ih =>
      have hfirst := hnames first (List.mem_cons_self ..)
      unfold childPath at ih ⊢
      by_cases hne : rest = []
      · subst hne
        rw [joined_singleton, if_neg hfirst, List.singleton_append,
          joined_cons _ _ (List.cons_ne_nil _ _), joined_singleton,
          show qs "/" = [qc '/'] by decide]
        simp
      · have hrest : joined rest ≠ [] := by
          cases rest with
          | nil => exact absurd rfl hne
          | cons next more =>
              have hnext := hnames next (by simp)
              by_cases hmore : more = []
              · rw [hmore, joined_singleton]
                exact hnext
              · rw [joined_cons _ _ hmore]
                exact List.append_ne_nil_of_left_ne_nil hnext _
        have ih := ih fun n hn => hnames n (List.mem_cons_of_mem _ hn)
        rw [if_neg hrest] at ih
        rw [joined_cons _ _ hne,
          if_neg (List.append_ne_nil_of_left_ne_nil hfirst _),
          List.cons_append, joined_cons _ _ (by simp), ← ih]
        simp

-- ================================================================== the files

/-- The files that an entry of a directory contributes. -/
def entryFiles (below : Node → List (List QString × List UInt8))
    (entry : QString × Node) : List (List QString × List UInt8) :=
  match entry.2 with
  | .file content => [([entry.1], content)]
  | .dir more => (below (.dir more)).map fun f => (entry.1 :: f.1, f.2)
  | _ => []

/-- The files of a node, under their names, as deep as `levels` directories. -/
def filesUnder : Nat → Node → List (List QString × List UInt8)
  | levels + 1, .dir entries =>
      entries.flatMap (entryFiles (filesUnder levels))
  | _, _ => []

/-- No file stands deeper than the directories. -/
def Shallow (levels : Nat) (node : Node) : Prop :=
  ∀ path entries, At node path (.dir entries) → path.length < levels

/-- A directory below a shallow one is shallow by one level less. -/
theorem Shallow.child {levels : Nat} {entries more : List (QString × Node)}
    {name : QString} (h : Shallow (levels + 1) (.dir entries))
    (hmem : (name, Node.dir more) ∈ entries) : Shallow levels (.dir more) := by
  intro path below hat
  have hlt := h (name :: path) below (.there hmem hat)
  rw [List.length_cons] at hlt
  omega

/-- The files of a directory are those that stand in it. -/
theorem mem_filesUnder :
    ∀ (levels : Nat) (entries : List (QString × Node)),
    Shallow levels (.dir entries) → ∀ path content,
    ((path, content) ∈ filesUnder levels (.dir entries)
      ↔ At (.dir entries) path (.file content)) := by
  intro levels
  induction levels with
  | zero =>
      intro entries hshallow
      have hlt := hshallow [] entries (.here _)
      omega
  | succ levels ih =>
      intro entries hshallow path content
      unfold filesUnder
      rw [List.mem_flatMap]
      constructor
      · intro h
        obtain ⟨⟨name, child⟩, hmem, hfile⟩ := h
        unfold entryFiles at hfile
        cases child with
        | file c =>
            rw [List.mem_singleton, Prod.mk.injEq] at hfile
            obtain ⟨rfl, rfl⟩ := hfile
            exact .there hmem (.here _)
        | dir more =>
            obtain ⟨⟨rest, c⟩, hrest, heq⟩ := List.mem_map.1 hfile
            rw [Prod.mk.injEq] at heq
            obtain ⟨rfl, rfl⟩ := heq
            exact .there hmem ((ih more (hshallow.child hmem) rest c).1 hrest)
        | link => cases hfile
        | special => cases hfile
      · intro h
        cases h with
        | @there _ name child _ rest hmem hat =>
            refine ⟨(name, child), hmem, ?_⟩
            unfold entryFiles
            cases hat with
            | here => exact List.mem_singleton_self _
            | @there more name' child' _ rest' hmem' hat' =>
                exact List.mem_map.2 ⟨(name' :: rest', content),
                  (ih more (hshallow.child hmem) _ _).2
                  (.there hmem' hat'), rfl⟩

/-- Each file is among them once. -/
theorem nodup_filesUnder :
    ∀ (levels : Nat) (node : Node),
    (∀ path entries, At node path (.dir entries) →
      (entries.map Prod.fst).Nodup) →
    ((filesUnder levels node).map Prod.fst).Nodup := by
  intro levels
  induction levels with
  | zero =>
      intro node _
      cases node <;> exact List.nodup_nil
  | succ levels ih =>
      intro node hdistinct
      cases node with
      | dir entries =>
          have hentries := hdistinct [] entries (.here _)
          have hchild : ∀ entry ∈ entries,
              ((entryFiles (filesUnder levels) entry).map Prod.fst).Nodup := by
            intro entry hmem
            unfold entryFiles
            obtain ⟨name, child⟩ := entry
            cases child with
            | file content => exact List.nodup_singleton _
            | dir more =>
                have hmore := ih (.dir more) fun path below hat =>
                  hdistinct (name :: path) below (.there hmem hat)
                rw [List.map_map]
                have hmap := hmore.map (f := fun p => name :: p)
                  fun a b hab => (List.cons.inj hab).2
                rw [List.map_map] at hmap
                exact hmap
            | link => exact List.nodup_nil
            | special => exact List.nodup_nil
          -- the files of an entry begin with its name
          have hhead : ∀ entry : QString × Node, ∀ path,
              path ∈ (entryFiles (filesUnder levels) entry).map Prod.fst →
              path.head? = some entry.1 := by
            intro entry path hpath
            obtain ⟨f, hf, rfl⟩ := List.mem_map.1 hpath
            unfold entryFiles at hf
            obtain ⟨name, child⟩ := entry
            cases child with
            | file content =>
                rw [List.mem_singleton.1 hf]
                rfl
            | dir more =>
                obtain ⟨g, -, rfl⟩ := List.mem_map.1 hf
                rfl
            | link => cases hf
            | special => cases hf
          unfold filesUnder
          rw [List.map_flatMap, List.nodup_flatMap]
          refine ⟨hchild, ?_⟩
          refine (List.pairwise_map.1 hentries).imp ?_
          intro entry entry' hne path hpath hpath'
          have hsame := (hhead entry path hpath).symm.trans
            (hhead entry' path hpath')
          exact hne (Option.some.inj hsame)
      | _ => exact List.nodup_nil

-- =================================================================== the walk

/-- The names on the way to a node can be names. -/
theorem Package.names_ok (P : Package) {node below : Node}
    {path : List QString} (h : At node path below) :
    ∀ above, At P.tree above node →
    ∀ name ∈ path, name ≠ [] ∧ qc '/' ∉ name := by
  induction h with
  | here => exact fun _ _ name hname => (nomatch hname)
  | there hmem _ ih =>
      intro above habove name hname
      rcases List.mem_cons.1 hname with rfl | hname
      · exact P.named above _ habove _ (List.mem_map.2 ⟨_, hmem, rfl⟩)
      · exact ih _ (habove.child hmem) name hname

theorem Package.nonempty (P : Package) {path : List QString} {node : Node}
    (h : At P.tree path node) : ∀ name ∈ path, name ≠ [] := fun name hname =>
  (P.names_ok h [] (.here _) name hname).1

/-- The file system keeps slashes out of names, and the package
carries that as a field. -/
theorem Package.no_slash (P : Package) {path : List QString} {node : Node}
    (h : At P.tree path node) : ∀ name ∈ path, qc '/' ∉ name :=
      fun name hname =>
  (P.names_ok h [] (.here _) name hname).2

/-- A file stands under a name. -/
theorem Package.file_ne_nil (P : Package) {path : List QString}
    {content : List UInt8} (h : At P.tree path (.file content)) :
    path ≠ [] := by
  intro hnil
  subst hnil
  obtain ⟨entries, hroot⟩ := P.root
  rw [hroot] at h
  cases h

/-- Only the manifest has the manifest's path. -/
theorem Package.joined_manifest (P : Package) {path : List QString}
    {content : List UInt8} (h : At P.tree path (.file content)) :
    joined path = qs "manifest.json" ↔ path = [qs "manifest.json"] := by
  constructor
  · intro heq
    rw [← joined_singleton (qs "manifest.json")] at heq
    refine joined_injective (P.file_ne_nil h) (List.cons_ne_nil _ _)
      (P.no_slash h) ?_ heq
    intro name hname
    rw [List.mem_singleton.1 hname]
    decide
  · intro heq
    rw [heq, joined_singleton]

/-- The paths of files in a directory, less the manifest of the package. -/
def assetNames (path : List QString)
    (files : List (List QString × List UInt8)) : List QString :=
  ((files.map fun f => path ++ f.1).filter
    fun p => p ≠ [qs "manifest.json"]).map joined

/-- Names are listed file by file, in the order of the files. -/
theorem assetNames_append (path : List QString)
    (files files' : List (List QString × List UInt8)) :
    assetNames path (files ++ files')
      = assetNames path files ++ assetNames path files' := by
  unfold assetNames
  rw [List.map_append, List.filter_append, List.map_append]

theorem assetNames_below (path : List QString) (name : QString)
    (files : List (List QString × List UInt8)) :
    assetNames path (files.map fun f => (name :: f.1, f.2))
      = assetNames (path ++ [name]) files := by
  unfold assetNames
  rw [List.map_map]
  congr 2
  apply List.map_congr_left
  intro f _
  simp

section Walk

variable (P : Package) {S : PackageStorage} {token : InspectPoll → Bool}

/-- A token that was never cancelled lets every poll pass. -/
theorem live_poll (htoken : ∀ poll, token poll = false) (poll : InspectPoll) :
    throwIfCancelled token poll = .ok () := by
  unfold throwIfCancelled
  rw [htoken]
  rfl

theorem demandThat_ok {condition : Prop} [Decidable condition]
    (h : condition) (code : ErrorCode) (message : QString) :
    demandThat condition code message = .ok () := if_pos h

/-- A file is added unless it is the manifest. -/
theorem addFile_eq {path : List QString} {name : QString}
    {content : List UInt8} (hat : At P.tree (path ++ [name]) (.file content))
    {files : List QString}
    (hcount : files.length + (assetNames path [([name], content)]).length
      ≤ 10000) :
    addFile (infoOf (name, .file content)) (joined (path ++ [name])) files
      = .ok (files ++ assetNames path [([name], content)]) := by
  unfold addFile
  rw [demandThat_ok (show (infoOf (name, Node.file content)).isFile
    = true from rfl),
    ok_bind]
  by_cases hmanifest : path ++ [name] = [qs "manifest.json"]
  · have hnone : assetNames path [([name], content)] = [] := by
      unfold assetNames
      rw [List.map_singleton, hmanifest]
      rfl
    rw [if_pos ((P.joined_manifest hat).2 hmanifest), hnone, List.append_nil]
    rfl
  · have hone : assetNames path [([name], content)]
        = [joined (path ++ [name])] := by
      unfold assetNames
      rw [List.map_singleton, List.filter_cons_of_pos
        (by simpa using hmanifest)]
      rfl
    rw [hone] at hcount ⊢
    rw [List.length_singleton] at hcount
    rw [if_neg fun heq => hmanifest ((P.joined_manifest hat).1 heq),
      demandThat_ok (P.onnx _ _ hat hmanifest), ok_bind, demandThat_ok hcount,
      ok_bind]
    rfl

/-- One turn of the loop over the entries. -/
theorem assetEntries_cons (descend : QString → List QString →
    Except Exn (List QString)) (relative : QString) (entry : EntryInfo)
    (rest : List EntryInfo) (files : List QString) :
    assetEntries token descend relative (entry :: rest) files
      = (do
          throwIfCancelled token (.entry (childPath relative entry.fileName))
          demandThat (entry.isSymbolicLink = false) .IntegrityFailure
            (qs "Package symlinks are not allowed: "
              ++ childPath relative entry.fileName)
          (if entry.isDir = true then
            descend (childPath relative entry.fileName) files
          else addFile entry (childPath relative entry.fileName) files)
            >>= assetEntries token descend relative rest) := by
  by_cases hdir : entry.isDir = true
  · rw [if_pos hdir]
    show (do
      throwIfCancelled token _
      demandThat _ _ _
      if entry.isDir = true then _ else _) = _
    rw [if_pos hdir]
  · rw [if_neg hdir]
    show (do
      throwIfCancelled token _
      demandThat _ _ _
      if entry.isDir = true then _ else _) = _
    rw [if_neg hdir]

/-- The walk adds the files of a directory, in the order of the
listings. The induction is on the levels, and the depth limit is never
reached by a shallow tree. -/
theorem assetPaths_eq (hS : Shows S P.tree)
    (htoken : ∀ poll, token poll = false) :
    ∀ (levels : Nat) (path : List QString) (entries : List (QString × Node))
      (files : List QString), At P.tree path (.dir entries) →
    Shallow levels (.dir entries) →
    files.length + (assetNames path (filesUnder levels (.dir entries))).length
      ≤ 10000 →
    assetPaths S token levels (joined path) files
      = .ok (files ++ assetNames path (filesUnder levels (.dir entries))) := by
  intro levels
  induction levels with
  | zero =>
      intro path entries files _ hshallow
      have hlt := hshallow [] entries (.here _)
      omega
  | succ levels ih =>
      intro path entries files hat hshallow hcount
      obtain ⟨hreadable, hlisted⟩ := hS.listed path entries hat
      unfold assetPaths require
      rw [live_poll htoken, ok_bind, if_pos hreadable, ok_bind, hlisted]
      unfold filesUnder at hcount ⊢
      -- the loop over the entries, of which some are left
      have hloop : ∀ (rest : List (QString × Node)) (files : List QString),
          (∀ entry ∈ rest, entry ∈ entries) →
          files.length + (assetNames path
            (rest.flatMap (entryFiles (filesUnder levels)))).length ≤ 10000 →
          assetEntries token (assetPaths S token levels) (joined path)
              (rest.map infoOf) files
            = .ok (files ++ assetNames path
                (rest.flatMap (entryFiles (filesUnder levels)))) := by
        intro rest
        induction rest with
        | nil =>
            intro files _ _
            show Except.ok files = .ok (files ++ [])
            rw [List.append_nil]
        | cons entry rest ih' =>
            intro files hsub hcount
            obtain ⟨name, child⟩ := entry
            have hmem := hsub _ (List.mem_cons_self ..)
            have hchild := hat.child hmem
            rw [List.flatMap_cons, assetNames_append, List.length_append]
              at hcount
            -- what the entry adds
            have hentry : (if (infoOf (name, child)).isDir = true then
                  assetPaths S token levels (joined (path ++ [name])) files
                else addFile (infoOf (name, child)) (joined (path ++ [name]))
                  files)
                = .ok (files ++ assetNames path
                    (entryFiles (filesUnder levels) (name, child))) := by
              cases child with
              | file content =>
                  have hone : files.length
                      + (assetNames path [([name], content)]).length ≤ 10000 :=
                    Nat.le_trans (Nat.add_le_add_left (Nat.le_add_right ..) _)
                      hcount
                  exact addFile_eq P hchild hone
              | dir more =>
                  have hbelow : assetNames path
                      (entryFiles (filesUnder levels) (name, .dir more))
                      = assetNames (path ++ [name])
                        (filesUnder levels (.dir more)) :=
                    assetNames_below _ _ _
                  rw [hbelow] at hcount ⊢
                  exact ih _ more files hchild (hshallow.child hmem) (by omega)
              | link => exact absurd hchild (P.regular _).1
              | special => exact absurd hchild (P.regular _).2
            have hlink : (infoOf (name, child)).isSymbolicLink = false := by
              cases child with
              | link => exact absurd hchild (P.regular _).1
              | _ => rfl
            have hpath : childPath (joined path)
              (infoOf (name, child)).fileName
                = joined (path ++ [name]) := by
              rw [show (infoOf (name, child)).fileName
                = name by cases child <;> rfl]
              exact childPath_joined path name (P.nonempty hat)
            rw [List.map_cons, assetEntries_cons, live_poll htoken,
              ok_bind, hpath,
              demandThat_ok hlink, ok_bind, hentry, ok_bind,
                ih' _ (fun e he => hsub e (List.mem_cons_of_mem _ he)) (by
                rw [List.length_append]
                omega),
              List.flatMap_cons, assetNames_append, List.append_assoc]
      exact hloop entries files (fun _ h => h) hcount

end Walk

-- ============================================================= the comparison

/-- What is expected under a path is the first record of that path. -/
theorem expectedFiles_find (files : List ModelFile) (path : QString) :
    (expectedFiles files)[path]? = files.find? fun f => f.path = path := by
  -- with the records that are there already in front
  have hfold : ∀ (files : List ModelFile) (m : ExtTreeMap QString ModelFile),
      (files.foldl (fun expected file => expected.insertIfNew file.path file)
        m)[path]? = m[path]?.or (files.find? fun f => f.path = path) := by
    intro files
    induction files with
    | nil =>
        intro m
        simp
    | cons f rest ih =>
        intro m
        rw [List.foldl_cons, ih]
        by_cases hnew : m[f.path]? = none
        · rw [Maps.find_insertIfNew m path f hnew]
          by_cases hpath : f.path = path
          · rw [if_pos hpath, ← hpath, hnew]
            simp
          · rw [if_neg hpath, List.find?_cons_of_neg (by simpa using hpath)]
        · obtain ⟨g, hg⟩ := Option.ne_none_iff_exists'.1 hnew
          have hkeep : (m.insertIfNew f.path f)[path]? = m[path]? := by
            rw [ExtTreeMap.getElem?_insertIfNew, if_neg]
            exact fun h => h.2 ((Maps.mem_iff_find m f.path).2 ⟨g, hg⟩)
          rw [hkeep]
          by_cases hpath : f.path = path
          · rw [← hpath, hg]
            rfl
          · rw [List.find?_cons_of_neg (by simpa using hpath)]
  unfold expectedFiles
  rw [hfold]
  simp

/-- With distinct paths, these are the records themselves. -/
theorem expectedFiles_eq_some {files : List ModelFile}
    (hdistinct : (files.map ModelFile.path).Nodup) {path : QString}
    {file : ModelFile} :
    (expectedFiles files)[path]? = some file
      ↔ file ∈ files ∧ file.path = path := by
  rw [expectedFiles_find]
  constructor
  · intro h
    exact ⟨List.mem_of_find?_eq_some h, by simpa using List.find?_some h⟩
  · intro h
    rcases h with ⟨hmem, hpath⟩
    cases hfind : files.find? fun f => f.path = path with
    | none =>
        have hnot := List.find?_eq_none.1 hfind file hmem
        simp [hpath] at hnot
    | some other =>
        have hother : other.path = path := by simpa using List.find?_some hfind
        rw [List.inj_on_of_nodup_map hdistinct
          (List.mem_of_find?_eq_some hfind)
          hmem (hother.trans hpath.symm)]

/-- A path is missing from the table exactly when no file of the manifest has
it: the table drops no path. -/
theorem expectedFiles_eq_none {files : List ModelFile} {path : QString} :
    (expectedFiles files)[path]? = none
      ↔ ∀ file ∈ files, file.path ≠ path := by
  rw [expectedFiles_find, List.find?_eq_none]
  simp

/-- The loop over the paths of files that can be hashed. -/
theorem inspectFiles_eq {hash : QString → Except Exn ModelFile}
    (manifest : ModelManifest) :
    ∀ (files : List ModelFile) (r : Inspection),
    (∀ file ∈ files, hash file.path = .ok file) →
    inspectFiles hash manifest (files.map ModelFile.path) r
      = .ok (files.foldl (fun r file => checkFile manifest file r) r) := by
  intro files
  induction files with
  | nil => exact fun _ _ => rfl
  | cons file rest ih =>
      intro r hhash
      rw [List.map_cons, List.foldl_cons]
      unfold inspectFiles
      rw [hhash file (List.mem_cons_self ..), ok_bind]
      exact ih _ fun f hf => hhash f (List.mem_cons_of_mem _ hf)

/-- The counts and the inventory. -/
theorem checkFiles_counts (manifest : ModelManifest) :
    ∀ (files : List ModelFile) (r : Inspection),
    let s := files.foldl (fun r file => checkFile manifest file r) r
    s.result.checkedFiles = r.result.checkedFiles + files.length
      ∧ s.result.checkedBytes
        = r.result.checkedBytes + (files.map ModelFile.size).sum
      ∧ s.inventory = r.inventory ++ files := by
  intro files
  induction files with
  | nil =>
      intro r
      simp
  | cons file rest ih =>
      intro r
      obtain ⟨hcount, hbytes, hinventory⟩ := ih (checkFile manifest file r)
      have hstep : (checkFile manifest file r).result.checkedFiles
            = r.result.checkedFiles + 1
          ∧ (checkFile manifest file r).result.checkedBytes
            = r.result.checkedBytes + file.size
          ∧ (checkFile manifest file r).inventory = r.inventory ++ [file] := by
        unfold checkFile
        by_cases hnone : manifest.files = []
        · simp [hnone]
        · simp [hnone]
      obtain ⟨hone, hsize, hadd⟩ := hstep
      rw [List.foldl_cons]
      refine ⟨?_, ?_, ?_⟩
      · rw [hcount, hone, List.length_cons]
        omega
      · rw [hbytes, hsize, List.map_cons, List.sum_cons]
        omega
      · rw [hinventory, hadd, List.append_assoc, List.singleton_append]

/-- A file is judged by its own row of the table, so rows of other
files do not matter. -/
theorem issueOf_congr {expected expected' : ExtTreeMap QString ModelFile}
    {file : ModelFile} (h : expected[file.path]? = expected'[file.path]?) :
    issueOf expected file = issueOf expected' file := by
  unfold issueOf
  rw [h]

/-- With one, each file has its issue, as if it were the first, and what is
expected loses just the paths that were seen. -/
theorem checkFiles_listed {manifest : ModelManifest}
    (hsome : manifest.files ≠ []) :
    ∀ (files : List ModelFile) (r : Inspection),
    (files.map ModelFile.path).Nodup →
    let s := files.foldl (fun r file => checkFile manifest file r) r
    s.result.issues = r.result.issues ++ files.flatMap (issueOf r.expected)
      ∧ ∀ path : QString, s.expected[path]?
        = if path ∈ files.map ModelFile.path then none
          else r.expected[path]? := by
  intro files
  induction files with
  | nil =>
      intro r _
      simp
  | cons file rest ih =>
      intro r hdistinct
      rw [List.map_cons, List.nodup_cons] at hdistinct
      obtain ⟨hnew, hdistinct⟩ := hdistinct
      have hstep : (checkFile manifest file r).result.issues
            = r.result.issues ++ issueOf r.expected file
          ∧ (checkFile manifest file r).expected
            = r.expected.erase file.path := by
        unfold checkFile
        rw [if_neg hsome]
        exact ⟨rfl, rfl⟩
      obtain ⟨hissues, hexpected⟩ := ih (checkFile manifest file r) hdistinct
      rw [hstep.1, hstep.2] at hissues
      rw [List.foldl_cons]
      refine ⟨?_, ?_⟩
      · rw [hissues, List.flatMap_cons, List.append_assoc]
        congr 2
        rw [List.flatMap_def, List.flatMap_def]
        congr 1
        apply List.map_congr_left
        intro f hf
        refine issueOf_congr (Maps.find_erase_ne _ fun heq => hnew ?_)
        exact heq ▸ List.mem_map_of_mem hf
      · intro path
        rw [hexpected path, hstep.2, Maps.find_erase]
        by_cases hpath : file.path = path
        · have hseen : path ∈ file.path :: rest.map ModelFile.path :=
            hpath ▸ List.mem_cons_self
          rw [if_pos hpath, List.map_cons, if_pos hseen]
          by_cases hrest : path ∈ rest.map ModelFile.path
          · rw [if_pos hrest]
          · rw [if_neg hrest]
        · rw [if_neg hpath, List.map_cons]
          have hne : path ≠ file.path := fun h => hpath h.symm
          simp only [List.mem_cons, hne, false_or]

-- ================================================================= the result

/-- What an issue can say about the files on disk and the recorded ones. -/
inductive Discrepancy (onDisk : ModelFile → Prop) (recorded : List ModelFile) :
    QString → Prop
  | unlisted (file : ModelFile) : onDisk file →
      (∀ record ∈ recorded, record.path ≠ file.path) →
      Discrepancy onDisk recorded (qs "Unlisted file: " ++ file.path)
  | mismatch (file record : ModelFile) : onDisk file → record ∈ recorded →
      record.path = file.path → record ≠ file →
      Discrepancy onDisk recorded (qs "Size/SHA-256 mismatch: " ++ file.path)
  | missing (record : ModelFile) : record ∈ recorded →
      (∀ file, onDisk file → file.path ≠ record.path) →
      Discrepancy onDisk recorded (qs "Missing file: " ++ record.path)

/-- Nothing is to be said just when the files are the recorded ones, with
nothing missing and nothing beside them. -/
theorem no_discrepancy {onDisk : ModelFile → Prop} {recorded : List ModelFile}
    (hdistinct : ∀ file file', onDisk file → onDisk file' →
      file.path = file'.path → file = file') :
    (∀ issue, ¬ Discrepancy onDisk recorded issue)
      ↔ ∀ file, onDisk file ↔ file ∈ recorded := by
  constructor
  · intro hnone file
    constructor
    · intro hdisk
      by_contra hrecorded
      by_cases hpath : ∃ record ∈ recorded, record.path = file.path
      · obtain ⟨record, hmem, hpath⟩ := hpath
        refine hnone _ (.mismatch file record hdisk hmem hpath ?_)
        exact fun heq => hrecorded (heq ▸ hmem)
      · exact hnone _ (.unlisted file hdisk fun record hmem heq =>
          hpath ⟨record, hmem, heq⟩)
    · intro hmem
      by_contra hdisk
      by_cases hpath : ∃ other, onDisk other ∧ other.path = file.path
      · obtain ⟨other, hother, hpath⟩ := hpath
        refine hnone _ (.mismatch other file hother hmem hpath.symm ?_)
        exact fun heq => hdisk (heq ▸ hother)
      · exact hnone _ (.missing file hmem fun other hother heq =>
          hpath ⟨other, hother, heq⟩)
  · intro hsame issue hissue
    cases hissue with
    | unlisted file hdisk hnot => exact hnot file ((hsame file).1 hdisk) rfl
    | mismatch file record hdisk hmem hpath hne =>
        exact hne (hdistinct record file ((hsame record).2 hmem) hdisk hpath)
    | missing record hmem hnot => exact hnot record ((hsame record).2 hmem) rfl

/-- What the parser promises of a manifest that is inspected. -/
structure Inspectable (manifest : ModelManifest) : Prop where
  named : ∃ model, modelUri manifest.id = .ok model
  distinct : (manifest.files.map ModelFile.path).Nodup

/-- What the parser of manifests accepts has paths that an
inspection can look for. -/
theorem parsed_inspectable {l : Letters} {o : JsonObject} {m : ModelManifest}
    (h : parseModelManifest l o = .ok m) : Inspectable m := by
  obtain ⟨_, -, h⟩ := bind_eq_ok.1 h
  obtain ⟨_, -, h⟩ := bind_eq_ok.1 h
  obtain ⟨id, hid, h⟩ := bind_eq_ok.1 h
  obtain ⟨_, -, h⟩ := bind_eq_ok.1 h
  obtain ⟨_, -, h⟩ := bind_eq_ok.1 h
  obtain ⟨_, -, h⟩ := bind_eq_ok.1 h
  obtain ⟨_, -, h⟩ := bind_eq_ok.1 h
  obtain ⟨_, -, h⟩ := bind_eq_ok.1 h
  obtain ⟨_, -, h⟩ := bind_eq_ok.1 h
  obtain ⟨_, -, h⟩ := bind_eq_ok.1 h
  obtain ⟨files, hfiles, h⟩ := bind_eq_ok.1 h
  injection h with h
  subst h
  constructor
  · obtain ⟨_, -, hid⟩ := bind_eq_ok.1 hid
    obtain ⟨hvalid, hid⟩ := demand_bind_eq_ok.1 hid
    injection hid with hid
    exact ⟨_, modelUri_of_valid (hid ▸ hvalid)⟩
  · obtain ⟨-, hfiles⟩ := demand_bind_eq_ok.1 hfiles
    obtain ⟨-, hfiles⟩ := demand_bind_eq_ok.1 hfiles
    have hfolded := (takeFiles_paths hfiles).2.1
    have hmap : files.map (fun file => l.toCaseFolded file.path)
        = (files.map ModelFile.path).map l.toCaseFolded := by
      rw [List.map_map]
      rfl
    rw [hmap] at hfolded
    exact hfolded.of_map

section Exact

variable (P : Package) {S : PackageStorage} {token : InspectPoll → Bool}
  (sha256Hex : List UInt8 → QString) {manifest : ModelManifest}

/-- Hashing block by block reads the blocks in order and counts their bytes, by
induction on the blocks. Without a limit and a cancellation it ends. -/
theorem hashBlocks_eq (htoken : ∀ poll, token poll = false)
    (relative : QString) :
    ∀ (blocks : List (List UInt8)) (n : Nat) (size : Int) (data : List UInt8),
    hashBlocks token relative none blocks n size data
      = .ok (size + blocks.flatten.length, data ++ blocks.flatten) := by
  intro blocks
  induction blocks with
  | nil =>
      intro n size data
      unfold hashBlocks
      rw [live_poll htoken, ok_bind]
      simp [pure, Except.pure]
  | cons block rest ih =>
      intro n size data
      unfold hashBlocks
      rw [live_poll htoken, ok_bind, ih, List.flatten_cons, List.length_append,
        List.append_assoc]
      congr 2
      push_cast
      omega

/-- A file of the tree can be hashed. -/
theorem hashFile_eq (hS : Shows S P.tree) (htoken : ∀ poll, token poll = false)
    {path : List QString} {content : List UInt8}
    (hat : At P.tree path (.file content)) :
    hashFile S token sha256Hex (joined path)
      = .ok ⟨joined path, content.length, sha256Hex content⟩ := by
  obtain ⟨stream, hopen, hend, hcontent⟩ := hS.content path content hat
  unfold hashFile
  rw [hopen]
  dsimp only
  rw [hend, hashBlocks_eq htoken, ok_bind, hcontent]
  simp [pure, Except.pure]

/-- Two files of the tree with one path are the same file. -/
theorem Package.onDisk_distinct {file file' : ModelFile}
    (h : OnDisk sha256Hex P.tree file) (h' : OnDisk sha256Hex P.tree file')
    (hpath : file.path = file'.path) : file = file' := by
  obtain ⟨path, content, hat, -, rfl⟩ := h
  obtain ⟨path', content', hat', -, rfl⟩ := h'
  have hsame : path = path' := joined_injective (P.file_ne_nil hat)
    (P.file_ne_nil hat') (P.no_slash hat) (P.no_slash hat') hpath
  subst hsame
  have hshallow : ∀ entries, P.tree = .dir entries →
      Shallow 65 (.dir entries) :=
    fun entries hroot below more hbelow =>
      Nat.lt_succ_of_le (P.depth below more (hroot ▸ hbelow))
  obtain ⟨entries, hroot⟩ := P.root
  have hmem := (mem_filesUnder 65 entries
    (hshallow entries hroot) path content).2
    (hroot ▸ hat)
  have hmem' := (mem_filesUnder 65 entries
    (hshallow entries hroot) path content').2
    (hroot ▸ hat')
  have hnodup := nodup_filesUnder 65 (.dir entries) (hroot ▸ P.distinct)
  have heq := List.inj_on_of_nodup_map hnodup hmem hmem' rfl
  rw [(Prod.mk.inj heq).2]

/-- The files of a package, sorted by path. The paths are distinct, so the
order does not depend on the listings. -/
theorem Package.sorted_files (hS : Shows S P.tree)
    (htoken : ∀ poll, token poll = false) :
    ∃ (paths : List QString) (files : List ModelFile),
      assetPaths S token 65 [] [] = .ok paths
        ∧ (paths.insertionSort fun a b => (compare a b).isLE = true)
          = files.map ModelFile.path
        ∧ (∀ file, file ∈ files ↔ OnDisk sha256Hex P.tree file)
        ∧ (files.map ModelFile.path).Nodup := by
  obtain ⟨entries, hroot⟩ := P.root
  have hshallow : Shallow 65 (.dir entries) := fun below more hbelow =>
    Nat.lt_succ_of_le (P.depth below more (hroot ▸ hbelow))
  have hmem := mem_filesUnder 65 entries hshallow
  -- the files in the order of the walk
  let found := (filesUnder 65 (.dir entries)).filter
    fun f => f.1 ≠ [qs "manifest.json"]
  let hashed : List QString × List UInt8 → ModelFile := fun f =>
    ⟨joined f.1, f.2.length, sha256Hex f.2⟩
  have hnodup : (found.map Prod.fst).Nodup :=
    (nodup_filesUnder 65 (.dir entries) (hroot ▸ P.distinct)).sublist
      (List.filter_sublist.map _)
  have hfound : ∀ f ∈ found, At P.tree f.1 (.file f.2)
      ∧ f.1 ≠ [qs "manifest.json"] := by
    intro f hf
    obtain ⟨hf, hne⟩ := List.mem_filter.1 hf
    exact ⟨hroot ▸ (hmem f.1 f.2).1 hf, by simpa using hne⟩
  have hnames : assetNames [] (filesUnder 65 (.dir entries))
      = (found.map hashed).map ModelFile.path := by
    unfold assetNames
    simp only [List.nil_append, found, hashed, List.map_map, List.filter_map]
    rfl
  have hcount : ([] : List QString).length
      + (assetNames [] (filesUnder 65 (.dir entries))).length ≤ 10000 := by
    have hle := P.count (found.map Prod.fst) hnodup fun path hpath => by
      obtain ⟨f, hf, rfl⟩ := List.mem_map.1 hpath
      exact ⟨(hfound f hf).2, f.2, (hfound f hf).1⟩
    rw [hnames]
    simpa using hle
  have hwalk := assetPaths_eq P hS htoken 65 [] entries []
    (hroot ▸ .here P.tree) hshallow hcount
  refine ⟨_, (found.map hashed).insertionSort fun a b =>
    (compare a.path b.path).isLE = true, hwalk, ?_, ?_, ?_⟩
  · rw [List.nil_append, hnames]
    exact (List.map_insertionSort _ _ ModelFile.path _
      fun _ _ _ _ => Iff.rfl).symm
  · intro file
    rw [List.mem_insertionSort, List.mem_map]
    constructor
    · intro h
      obtain ⟨f, hf, rfl⟩ := h
      exact ⟨f.1, f.2, (hfound f hf).1, (hfound f hf).2, rfl⟩
    · intro h
      obtain ⟨path, content, hat, hne, rfl⟩ := h
      refine ⟨(path, content), List.mem_filter.2 ⟨?_, by simpa using hne⟩, rfl⟩
      exact (hmem path content).2 (hroot ▸ hat)
  · refine ((List.perm_insertionSort _ _).map _).nodup_iff.2 ?_
    have hpaths : (found.map hashed).map ModelFile.path
        = (found.map Prod.fst).map joined := by
      rw [List.map_map, List.map_map]
      rfl
    rw [hpaths]
    refine hnodup.map_on ?_
    intro path hpath path' hpath' heq
    obtain ⟨f, hf, rfl⟩ := List.mem_map.1 hpath
    obtain ⟨f', hf', rfl⟩ := List.mem_map.1 hpath'
    have hat := (hfound f hf).1
    have hat' := (hfound f' hf').1
    exact joined_injective (P.file_ne_nil hat) (P.file_ne_nil hat')
      (P.no_slash hat) (P.no_slash hat') heq

/-- An inspection is the loop over the files, and what is left to
do after it. -/
theorem Package.inspect_eq (hS : Shows S P.tree)
    (htoken : ∀ poll, token poll = false) {model : QString}
    (hmodel : modelUri manifest.id = .ok model) :
    ∃ files : List ModelFile,
      (∀ file, file ∈ files ↔ OnDisk sha256Hex P.tree file)
      ∧ (files.map ModelFile.path).Nodup
      ∧ ∃ r, r = files.foldl (fun r file => checkFile manifest file r)
          { result := { model }, expected := expectedFiles manifest.files }
        ∧ inspect S token sha256Hex manifest
          = .ok (conclude S manifest r, r.inventory) := by
  obtain ⟨paths, files, hwalk, hsorted, hdisk, hdistinct⟩ :=
    P.sorted_files sha256Hex hS htoken
  refine ⟨files, hdisk, hdistinct, _, rfl, ?_⟩
  have hhash : ∀ file ∈ files,
      hashFile S token sha256Hex file.path = .ok file := by
    intro file hmem
    obtain ⟨path, content, hat, -, rfl⟩ := (hdisk file).1 hmem
    exact hashFile_eq P sha256Hex hS htoken hat
  unfold inspect
  rw [hmodel, ok_bind, hwalk, ok_bind, hsorted,
    inspectFiles_eq manifest files _ hhash,
    ok_bind]
  rfl

/-- The issue of a file on disk, by the records: there is none of its path, or
it differs from it in size or digest. A file as recorded has no issue. -/
theorem mem_issueOf {recorded : List ModelFile}
    (hrecorded : (recorded.map ModelFile.path).Nodup) {file : ModelFile}
    {issue : QString} :
    issue ∈ issueOf (expectedFiles recorded) file
      ↔ ((∀ record ∈ recorded, record.path ≠ file.path)
          ∧ issue = qs "Unlisted file: " ++ file.path)
        ∨ ∃ record ∈ recorded, record.path = file.path ∧ record ≠ file
          ∧ issue = qs "Size/SHA-256 mismatch: " ++ file.path := by
  unfold issueOf
  cases hfind : (expectedFiles recorded)[file.path]? with
  | none =>
      have hnot := expectedFiles_eq_none.1 hfind
      rw [List.mem_singleton]
      constructor
      · exact fun h => .inl ⟨hnot, h⟩
      · intro h
        rcases h with ⟨-, h⟩ | ⟨record, hmem, hpath, -⟩
        · exact h
        · exact absurd hpath (hnot record hmem)
  | some found =>
      obtain ⟨hmem, hpath⟩ := (expectedFiles_eq_some hrecorded).1 hfind
      dsimp only
      have hsame : found = file ↔ file.size = found.size
          ∧ file.sha256 = found.sha256 := by
        constructor
        · intro h
          exact ⟨h ▸ rfl, h ▸ rfl⟩
        · intro h
          cases found
          cases file
          simp_all
      have hother : ∀ record ∈ recorded, record.path = file.path →
          record = found := fun record hrecord h =>
        List.inj_on_of_nodup_map hrecorded hrecord hmem (h.trans hpath.symm)
      by_cases hdiffers : file.size ≠ found.size ∨ file.sha256 ≠ found.sha256
      · have hne : found ≠ file := fun h => by
          have hboth := hsame.1 h
          rcases hdiffers with hsize | hdigest
          · exact hsize hboth.1
          · exact hdigest hboth.2
        rw [if_pos hdiffers, List.mem_singleton]
        constructor
        · exact fun h => .inr ⟨found, hmem, hpath, hne, h⟩
        · intro h
          rcases h with ⟨hnot, -⟩ | ⟨_, -, -, -, h⟩
          · exact absurd hpath (hnot found hmem)
          · exact h
      · rw [if_neg hdiffers]
        have heq : found = file := hsame.2 (by
          rw [not_or, not_not, not_not] at hdiffers
          exact hdiffers)
        constructor
        · exact fun h => nomatch h
        · intro h
          rcases h with ⟨hnot, -⟩ | ⟨record, hrecord, hsamepath, hne, -⟩
          · exact absurd hpath (hnot found hmem)
          · exact absurd ((hother record hrecord hsamepath).trans heq) hne

/-- What an inspection says at its end, of files that are all there are: an
issue for each that differs, and one for each record that is left. -/
theorem conclude_listed (hsome : manifest.files ≠ [])
    (hrecorded : (manifest.files.map ModelFile.path).Nodup)
    {onDisk : ModelFile → Prop} {files : List ModelFile}
    (hdisk : ∀ file, file ∈ files ↔ onDisk file)
    (hdistinct : (files.map ModelFile.path).Nodup) {model : QString}
    {r : Inspection} (hr : r
      = files.foldl (fun r file => checkFile manifest file r)
      { result := { model }, expected := expectedFiles manifest.files })
    (issue : QString) :
    issue ∈ (conclude S manifest r).issues
      ↔ Discrepancy onDisk manifest.files issue
        ∨ (entryProblem S manifest ≠ []
          ∧ issue = entryProblem S manifest) := by
  obtain ⟨hissues, hleft⟩ := checkFiles_listed hsome files
    { result := { model }, expected := expectedFiles manifest.files } hdistinct
  rw [← hr] at hissues hleft
  rw [List.nil_append] at hissues
  have hproblem : issue ∈ (if entryProblem S manifest = [] then []
      else [entryProblem S manifest])
      ↔ entryProblem S manifest ≠ [] ∧ issue = entryProblem S manifest := by
    by_cases hnone : entryProblem S manifest = []
    · simp [hnone]
    · simp [hnone]
  -- the records that no file on disk has taken
  have hmissing : ∀ record, (record.path, record) ∈ r.expected.toList
      ↔ record ∈ manifest.files ∧ ∀ file, onDisk file →
      file.path ≠ record.path := by
    intro record
    rw [ExtTreeMap.mem_toList_iff_getElem?_eq_some, hleft]
    by_cases hseen : record.path ∈ files.map ModelFile.path
    · rw [if_pos hseen]
      obtain ⟨file, hmem, hpath⟩ := List.mem_map.1 hseen
      constructor
      · exact fun h => nomatch h
      · exact fun h => absurd hpath (h.2 file ((hdisk file).1 hmem))
    · rw [if_neg hseen, expectedFiles_eq_some hrecorded]
      constructor
      · exact fun h => ⟨h.1, fun file hfile hpath =>
          hseen (hpath ▸ List.mem_map_of_mem ((hdisk file).2 hfile))⟩
      · exact fun h => ⟨h.1, rfl⟩
  have hkey : ∀ entry ∈ r.expected.toList, entry.1 = entry.2.path := by
    intro entry hmem
    rw [ExtTreeMap.mem_toList_iff_getElem?_eq_some, hleft] at hmem
    by_cases hseen : entry.1 ∈ files.map ModelFile.path
    · rw [if_pos hseen] at hmem
      cases hmem
    · rw [if_neg hseen] at hmem
      exact ((expectedFiles_eq_some hrecorded).1 hmem).2.symm
  unfold conclude
  rw [List.mem_append, List.mem_append, hproblem, hissues, List.mem_flatMap,
    List.mem_map]
  refine or_congr_left ?_
  constructor
  · intro h
    rcases h with ⟨file, hmem, h⟩ | ⟨entry, hmem, rfl⟩
    · have hfile := (hdisk file).1 hmem
      rcases (mem_issueOf hrecorded).1 h with
        ⟨hnot, rfl⟩ | ⟨record, hrecord, hpath, hne, rfl⟩
      · exact .unlisted file hfile hnot
      · exact .mismatch file record hfile hrecord hpath hne
    · have hmem' := hmem
      rw [show entry = (entry.2.path, entry.2) from
        Prod.ext (hkey entry hmem) rfl] at hmem'
      obtain ⟨hrecord, hnot⟩ := (hmissing entry.2).1 hmem'
      rw [hkey entry hmem]
      exact .missing entry.2 hrecord hnot
  · intro h
    cases h with
    | unlisted file hfile hnot =>
        exact .inl ⟨file, (hdisk file).2 hfile,
          (mem_issueOf hrecorded).2 (.inl ⟨hnot, rfl⟩)⟩
    | mismatch file record hfile hrecord hpath hne =>
        exact .inl ⟨file, (hdisk file).2 hfile,
          (mem_issueOf hrecorded).2 (.inr ⟨record, hrecord, hpath, hne, rfl⟩)⟩
    | missing record hrecord hnot =>
        exact .inr ⟨(record.path, record),
          (hmissing record).2 ⟨hrecord, hnot⟩, rfl⟩

/-- A manifest with an inventory: the issues are the discrepancies and the
problem of the entry point, and without any the package is valid. -/
theorem Package.inspect_listed (hS : Shows S P.tree)
    (htoken : ∀ poll, token poll = false) (hmanifest : Inspectable manifest)
    (hsome : manifest.files ≠ []) {result : ModelVerification}
    {inventory : List ModelFile}
    (h : inspect S token sha256Hex manifest = .ok (result, inventory)) :
    (∀ issue, issue ∈ result.issues
        ↔ Discrepancy (OnDisk sha256Hex P.tree) manifest.files issue
          ∨ (entryProblem S manifest ≠ [] ∧ issue = entryProblem S manifest))
      ∧ (result.valid = true
        ↔ (∀ file, OnDisk sha256Hex P.tree file ↔ file ∈ manifest.files)
          ∧ entryProblem S manifest = []) := by
  obtain ⟨model, hmodel⟩ := hmanifest.named
  obtain ⟨files, hdisk, hdistinct, r, hr, hinspect⟩ :=
    P.inspect_eq sha256Hex hS htoken hmodel
  rw [hinspect] at h
  injection h with h
  obtain ⟨rfl, rfl⟩ := Prod.mk.inj h
  have hissues := conclude_listed (S := S) hsome hmanifest.distinct
    hdisk hdistinct hr
  refine ⟨hissues, ?_⟩
  have hvalid : (conclude S manifest r).valid = true
      ↔ ∀ issue, issue ∉ (conclude S manifest r).issues := by
    rw [← List.eq_nil_iff_forall_not_mem]
    unfold conclude
    exact decide_eq_true_iff
  rw [hvalid, ← no_discrepancy fun _ _ => P.onDisk_distinct sha256Hex]
  constructor
  · intro hnone
    refine ⟨fun issue hissue => hnone issue
      ((hissues issue).2 (.inl hissue)), ?_⟩
    by_contra hproblem
    exact hnone _ ((hissues _).2 (.inr ⟨hproblem, rfl⟩))
  · intro hboth issue hissue
    rcases (hissues issue).1 hissue with hissue | hissue
    · exact hboth.1 issue hissue
    · exact hissue.1 hboth.2

/-- Every inspection ends, and counts and records the files on disk. -/
theorem Package.inspect_counts (hS : Shows S P.tree)
    (htoken : ∀ poll, token poll = false) (hmanifest : Inspectable manifest) :
    ∃ result inventory, inspect S token sha256Hex manifest = .ok (result,
      inventory)
      ∧ (∀ file, file ∈ inventory ↔ OnDisk sha256Hex P.tree file)
      ∧ (inventory.map ModelFile.path).Nodup
      ∧ result.checkedFiles = inventory.length
      ∧ result.checkedBytes = (inventory.map ModelFile.size).sum := by
  obtain ⟨model, hmodel⟩ := hmanifest.named
  obtain ⟨files, hdisk, hdistinct, r, hr, hinspect⟩ :=
    P.inspect_eq sha256Hex hS htoken hmodel
  obtain ⟨hcount, hbytes, hinventory⟩ := checkFiles_counts manifest files
    { result := { model }, expected := expectedFiles manifest.files }
  rw [← hr] at hcount hbytes hinventory
  rw [List.nil_append] at hinventory
  refine ⟨_, _, hinspect, ?_⟩
  rw [hinventory]
  refine ⟨hdisk, hdistinct, ?_, ?_⟩
  · show r.result.checkedFiles = _
    rw [hcount]
    simp
  · show r.result.checkedBytes = _
    rw [hbytes]
    simp

end Exact

/-- An inspection is exact: with an inventory it is valid just when the files
on disk are those of the inventory and the entry point passes, its issues are
the discrepancies, it counts the files on disk; and without one it records an
inventory with which the files are valid from then on. -/
theorem inspection_exact (P : Package) {S : PackageStorage}
    {token : InspectPoll → Bool} (sha256Hex : List UInt8 → QString)
    {manifest : ModelManifest} (hS : Shows S P.tree)
    (htoken : ∀ poll, token poll = false) (hmanifest : Inspectable manifest) :
    ∃ result inventory, inspect S token sha256Hex manifest = .ok (result,
      inventory)
      ∧ (∀ file, file ∈ inventory ↔ OnDisk sha256Hex P.tree file)
      ∧ (inventory.map ModelFile.path).Nodup
      ∧ result.checkedFiles = inventory.length
      ∧ result.checkedBytes = (inventory.map ModelFile.size).sum
      ∧ (manifest.files ≠ [] →
        (result.valid = true
          ↔ (∀ file, OnDisk sha256Hex P.tree file ↔ file ∈ manifest.files)
            ∧ entryProblem S manifest = [])
        ∧ ∀ issue, issue ∈ result.issues
          ↔ Discrepancy (OnDisk sha256Hex P.tree) manifest.files issue
            ∨ (entryProblem S manifest ≠ [] ∧ issue = entryProblem S manifest))
      ∧ (manifest.files = [] → inventory ≠ [] →
        ∀ (P' : Package) (S' : PackageStorage), Shows S' P'.tree →
          (∀ file, OnDisk sha256Hex P'.tree file
            ↔ OnDisk sha256Hex P.tree file) →
          entryProblem S' { manifest with files := inventory } = [] →
          ∃ result' inventory', inspect S' token sha256Hex
              { manifest with files := inventory } = .ok (result', inventory')
            ∧ result'.valid = true) := by
  obtain ⟨result, inventory, hinspect, hdisk, hdistinct, hcount, hbytes⟩ :=
    P.inspect_counts sha256Hex hS htoken hmanifest
  refine ⟨result, inventory, hinspect, hdisk, hdistinct, hcount,
    hbytes, ?_, ?_⟩
  · intro hsome
    obtain ⟨hissues, hvalid⟩ :=
      P.inspect_listed sha256Hex hS htoken hmanifest hsome hinspect
    exact ⟨hvalid, hissues⟩
  · intro _ hsome P' S' hS' hsame hproblem
    have hlater : Inspectable { manifest with files := inventory } :=
      ⟨hmanifest.named, hdistinct⟩
    obtain ⟨result', inventory', hagain, -⟩ :=
      P'.inspect_counts sha256Hex hS' htoken hlater
    refine ⟨result', inventory', hagain, ?_⟩
    refine (P'.inspect_listed sha256Hex hS' htoken hlater hsome hagain).2.2
      ⟨fun file => ?_, hproblem⟩
    rw [hsame, hdisk]

/-- A package with one model in a directory, beside its manifest. -/
def sampleTree : Node :=
  .dir [(qs "manifest.json", .file [0x7b, 0x7d]),
    (qs "weights", .dir [(qs "model.bin", .file [1, 2, 3])])]

/-- What stands in it. -/
theorem at_sample {path : List QString} {node : Node}
    (h : At sampleTree path node) : (path = [] ∧ node = sampleTree)
      ∨ (path = [qs "manifest.json"] ∧ node = .file [0x7b, 0x7d])
      ∨ (path = [qs "weights"]
        ∧ node = .dir [(qs "model.bin", .file [1, 2, 3])])
      ∨ (path = [qs "weights", qs "model.bin"] ∧ node = .file [1, 2, 3]) := by
  unfold sampleTree at h
  cases h with
  | here => exact .inl ⟨rfl, rfl⟩
  | there hmem hat =>
      rcases List.mem_cons.1 hmem with heq | hmem
      · obtain ⟨rfl, rfl⟩ := Prod.mk.inj heq
        cases hat with
        | here => exact .inr (.inl ⟨rfl, rfl⟩)
      · obtain ⟨rfl, rfl⟩ := Prod.mk.inj (List.mem_singleton.1 hmem)
        cases hat with
        | here => exact .inr (.inr (.inl ⟨rfl, rfl⟩))
        | there hmem hat =>
            obtain ⟨rfl, rfl⟩ := Prod.mk.inj (List.mem_singleton.1 hmem)
            cases hat with
            | here => exact .inr (.inr (.inr ⟨rfl, rfl⟩))

theorem at_sample_model : At sampleTree [qs "weights", qs "model.bin"]
    (.file [1, 2, 3]) :=
  .there (List.mem_cons_of_mem _ (List.mem_singleton_self _))
    (.there (List.mem_singleton_self _) (.here _))

def samplePackage : Package where
  tree := sampleTree
  root := ⟨_, rfl⟩
  distinct := fun path entries h => by
    rcases at_sample h with ⟨-, h⟩ | ⟨-, h⟩ | ⟨-, h⟩ | ⟨-, h⟩
    · injection h with h
      subst h
      decide
    · cases h
    · injection h with h
      subst h
      decide
    · cases h
  named := fun path entries h => by
    rcases at_sample h with ⟨-, h⟩ | ⟨-, h⟩ | ⟨-, h⟩ | ⟨-, h⟩
    · injection h with h
      subst h
      decide
    · cases h
    · injection h with h
      subst h
      decide
    · cases h
  regular := fun path => by
    constructor
    · intro h
      rcases at_sample h with ⟨-, h⟩ | ⟨-, h⟩ | ⟨-, h⟩ | ⟨-, h⟩ <;> cases h
    · intro h
      rcases at_sample h with ⟨-, h⟩ | ⟨-, h⟩ | ⟨-, h⟩ | ⟨-, h⟩ <;> cases h
  onnx := fun path content h hne => by
    rcases at_sample h with ⟨-, h⟩ | ⟨h, -⟩ | ⟨-, h⟩ | ⟨h, -⟩
    · cases h
    · exact absurd h hne
    · cases h
    · rw [h]
      decide
  depth := fun path entries h => by
    rcases at_sample h with ⟨h, -⟩ | ⟨h, -⟩ | ⟨h, -⟩ | ⟨h, -⟩
      <;> rw [h] <;> decide
  count := fun paths hnodup hfiles => by
    have hsub : paths ⊆ [[qs "weights", qs "model.bin"]] := by
      intro path hpath
      obtain ⟨hne, content, hat⟩ := hfiles path hpath
      rcases at_sample hat with ⟨-, h⟩ | ⟨h, -⟩ | ⟨-, h⟩ | ⟨h, -⟩
      · cases h
      · exact absurd h hne
      · cases h
      · exact List.mem_singleton.2 h
    have hle := (hnodup.subperm hsub).length_le
    rw [List.length_singleton] at hle
    omega

/-- A storage that shows it. -/
def sampleStorage : PackageStorage where
  isReadable := fun _ => true
  entryInfoList := fun path =>
    if path = [] then [{ fileName := qs "manifest.json", isFile := true },
      { fileName := qs "weights", isDir := true }]
    else [{ fileName := qs "model.bin", isFile := true }]
  openRead := fun path =>
    if path = qs "manifest.json" then .ok { blocks := [[0x7b, 0x7d]] }
    else .ok { blocks := [[1, 2], [3]] }
  isFile := fun path => path = qs "weights/model.bin"
  dirExists := fun _ => false
  entryList := fun _ _ => []

def sampleListed : ModelManifest where
  id := qs "tiny"
  entryPoint := qs "weights/model.bin"
  files := [⟨qs "weights/model.bin", 3, qs "5e"⟩]

/-- With another checksum, and from before there were inventories. -/
def sampleAltered : ModelManifest :=
  { sampleListed with files := [⟨qs "weights/model.bin", 3, qs "e5"⟩] }

def sampleUnlisted : ModelManifest := { sampleListed with files := [] }

theorem sampleStorage_shows : Shows sampleStorage samplePackage.tree where
  listed := fun path entries h => by
    rcases at_sample h with ⟨rfl, hnode⟩ | ⟨-, hnode⟩ | ⟨rfl,
      hnode⟩ | ⟨-, hnode⟩
    · injection hnode with hnode
      subst hnode
      exact ⟨rfl, rfl⟩
    · cases hnode
    · injection hnode with hnode
      subst hnode
      exact ⟨rfl, rfl⟩
    · cases hnode
  content := fun path content h => by
    rcases at_sample h with ⟨-, hnode⟩ | ⟨rfl, hnode⟩ | ⟨-,
      hnode⟩ | ⟨rfl, hnode⟩
    · cases hnode
    · injection hnode with hnode
      subst hnode
      exact ⟨{ blocks := [[0x7b, 0x7d]] }, rfl, rfl, rfl⟩
    · cases hnode
    · injection hnode with hnode
      subst hnode
      exact ⟨{ blocks := [[1, 2], [3]] }, rfl, rfl, rfl⟩

/-- The model is the only file. -/
theorem sample_onDisk {file : ModelFile} :
    OnDisk (fun _ => qs "5e") samplePackage.tree file
      ↔ file = ⟨qs "weights/model.bin", 3, qs "5e"⟩ := by
  constructor
  · intro h
    obtain ⟨path, content, hat, hne, rfl⟩ := h
    rcases at_sample hat with ⟨-, h⟩ | ⟨h, -⟩ | ⟨-, h⟩ | ⟨rfl, h⟩
    · cases h
    · exact absurd h hne
    · cases h
    · injection h with h
      subst h
      decide
  · intro h
    exact ⟨_, _, at_sample_model, by decide, h.trans (by decide)⟩

/-- With its inventory, the package is valid; with the checksum of another
file, that is the issue; and without an inventory one is recorded, with which
the package is valid from then on. -/
theorem inspection_exact_sample :
    (∃ result inventory, inspect sampleStorage (fun _ => false)
        (fun _ => qs "5e")
        sampleListed = .ok (result, inventory)
      ∧ result.valid = true ∧ result.checkedFiles = inventory.length)
    ∧ (∃ result inventory,
        inspect sampleStorage (fun _ => false) (fun _ => qs "5e")
        sampleAltered = .ok (result, inventory)
      ∧ result.valid = false
      ∧ ∀ issue ∈ result.issues, Discrepancy (OnDisk (fun _ => qs "5e")
        samplePackage.tree) sampleAltered.files issue)
    ∧ ∃ result inventory result' inventory',
        inspect sampleStorage (fun _ => false)
          (fun _ => qs "5e") sampleUnlisted
          = .ok (result, inventory)
      ∧ inventory ≠ []
      ∧ inspect sampleStorage (fun _ => false) (fun _ => qs "5e")
          { sampleUnlisted with files := inventory }
              = .ok (result', inventory')
      ∧ result'.valid = true := by
  refine ⟨?_, ?_, ?_⟩
  · obtain ⟨result, inventory, hinspect, -, -, hcount, -, hlisted, -⟩ :=
      inspection_exact samplePackage (fun _ => qs "5e") sampleStorage_shows
        (fun _ => rfl) (show Inspectable sampleListed from
          ⟨⟨_, modelUri_of_valid (by decide)⟩, by decide⟩)
    refine ⟨result, inventory, hinspect, ?_, hcount⟩
    refine (hlisted (List.cons_ne_nil _ _)).1.2 ⟨fun file => ?_, by decide⟩
    exact sample_onDisk.trans List.mem_singleton.symm
  · obtain ⟨result, inventory, hinspect, -, -, -, -, hlisted, -⟩ :=
      inspection_exact samplePackage (fun _ => qs "5e") sampleStorage_shows
        (fun _ => rfl) (show Inspectable sampleAltered from
          ⟨⟨_, modelUri_of_valid (by decide)⟩, by decide⟩)
    obtain ⟨hvalid, hissues⟩ := hlisted (List.cons_ne_nil _ _)
    refine ⟨result, inventory, hinspect, ?_, fun issue hissue => ?_⟩
    · refine Bool.eq_false_iff.2 fun h => ?_
      have hfile := sample_onDisk.1
        (((hvalid.1 h).1 _).2 (List.mem_singleton_self _))
      exact absurd hfile (by decide)
    · exact ((hissues issue).1 hissue).resolve_right fun h => h.1 (by decide)
  · obtain ⟨result, inventory, hinspect, hdisk, -, -, -, -, hunlisted⟩ :=
      inspection_exact samplePackage (fun _ => qs "5e") sampleStorage_shows
        (fun _ => rfl) (show Inspectable sampleUnlisted from
          ⟨⟨_, modelUri_of_valid (by decide)⟩, List.nodup_nil⟩)
    have hsome : inventory ≠ [] :=
      List.ne_nil_of_mem ((hdisk _).2 (sample_onDisk.2 rfl))
    obtain ⟨result', inventory', hagain, hvalid⟩ :=
      hunlisted rfl hsome samplePackage
      sampleStorage sampleStorage_shows (fun _ => Iff.rfl)
      (show entryProblem sampleStorage sampleUnlisted = [] by decide)
    exact ⟨result, inventory, result', inventory', hinspect, hsome,
      hagain, hvalid⟩

end ModelInspection

end LocalLLM
