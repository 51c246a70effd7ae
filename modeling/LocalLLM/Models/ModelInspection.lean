/-
The inspection of a package (`models/ModelCatalog.cpp`: `assetPaths`,
`hashFile`, `entryProblem`, `inspect`).

# What is not given

`PackageStorage` is what iiFileProvider and `QFileInfo` answer for one
package directory; its functions take paths relative to that directory, and
the empty path is the directory itself. A file is read as blocks, none of
them empty, and then its end or an error. The digest is a parameter.

# Two uses

A manifest with an inventory is compared with what lies on disk. One
without is the manifest of an installation's source: the inspection records
the inventory that the installed manifest gets. The copy that an
installation makes on the way is left out.
-/
import LocalLLM.Models.ModelManifest

namespace LocalLLM

open Std

/-- What a listing says of an entry. -/
structure EntryInfo where
  fileName : QString
  isSymbolicLink : Bool := false
  isDir : Bool := false
  isFile : Bool := false

/-- What reading a file gives: blocks, and how it ends. -/
structure ReadStream where
  blocks : List (List UInt8) := []
  failure : Option QString := none

/-- A package directory, as the outside answers for it. -/
structure PackageStorage where
  isReadable : QString → Bool
  /-- `entryInfoList`: all entries but `.` and `..`, by name. -/
  entryInfoList : QString → List EntryInfo
  /-- `open(ReadOnly)`, or its error string. -/
  openRead : QString → Except QString ReadStream
  isFile : QString → Bool
  dirExists : QString → Bool
  /-- `entryList({pattern}, Files)`. -/
  entryList : QString → QString → List QString

/-- The places at which an inspection looks at its token. -/
inductive InspectPoll
  | directory (path : QString)
  | entry (path : QString)
  | block (path : QString) (n : Nat)

namespace ModelInspection

/-- `token.throwIfCancelled()`. -/
def throwIfCancelled (token : InspectPoll → Bool) (poll : InspectPoll) :
    Except Exn Unit :=
  if token poll then .error cancelledError else .ok ()

/-- `require` with a message that is put together. -/
def demandThat (condition : Prop) [Decidable condition] (code : ErrorCode)
    (message : QString) : Except Exn Unit :=
  if condition then .ok () else .error (.error ⟨code, message⟩)

-- =================================================================== the walk

/-- `endsWith(".onnx", Qt::CaseInsensitive)`. -/
def isOnnx (path : QString) : Bool :=
  (path.drop (path.length - 5)).map (fun u =>
    if qc 'A' ≤ u ∧ u ≤ qc 'Z' then u + 0x20 else u) == qs ".onnx"

/-- The path of an entry of a directory. -/
def childPath (relative fileName : QString) : QString :=
  if relative = [] then fileName else relative ++ qs "/" ++ fileName

/-- What the walk does with an entry that is no directory. -/
def addFile (entry : EntryInfo) (path : QString) (files : List QString) :
    Except Exn (List QString) := do
  demandThat (entry.isFile = true) .IntegrityFailure
    (qs "Package contains a non-regular file: " ++ path)
  if path = qs "manifest.json" then return files
  else do
    demandThat (isOnnx path = false) .InvalidManifest
      (qs "ONNX model files are not supported: " ++ path)
    demandThat (files.length + 1 ≤ 10000) .ResourceLimit
      (qs "Package exceeds 10000 files")
    return files ++ [path]

/-- The loop over the entries of a directory; `descend` walks a
directory in it. -/
def assetEntries (token : InspectPoll → Bool)
    (descend : QString → List QString → Except Exn (List QString))
    (relative : QString) :
    List EntryInfo → List QString → Except Exn (List QString)
  | [], files => .ok files
  | entry :: rest, files => do
      throwIfCancelled token (.entry (childPath relative entry.fileName))
      let path := childPath relative entry.fileName
      demandThat (entry.isSymbolicLink = false) .IntegrityFailure
        (qs "Package symlinks are not allowed: " ++ path)
      let files ←
        if entry.isDir then descend path files else addFile entry path files
      assetEntries token descend relative rest files

/-- `assetPaths`; `levels` says how much deeper directories may nest. -/
def assetPaths (S : PackageStorage) (token : InspectPoll → Bool) :
    Nat → QString → List QString → Except Exn (List QString)
  | 0, relative, _ => do
      throwIfCancelled token (.directory relative)
      .error (err .InvalidManifest
        "Package directory nesting exceeds 64 levels")
  | levels + 1, relative, files => do
      throwIfCancelled token (.directory relative)
      require (S.isReadable relative = true) .StorageFailure
        "Package directory is unreadable"
      assetEntries token (assetPaths S token levels) relative
        (S.entryInfoList relative) files

-- ================================================================ the digests

/-- The loop of `hashFile`: the size and the data so far. -/
def hashBlocks (token : InspectPoll → Bool) (relative : QString)
    (failure : Option QString) :
    List (List UInt8) → Nat → Int → List UInt8 →
      Except Exn (Int × List UInt8)
  | [], n, size, data => do
      throwIfCancelled token (.block relative n)
      match failure with
      | none => return (size, data)
      | some message => .error (.error ⟨.StorageFailure, message⟩)
  | block :: rest, n, size, data => do
      throwIfCancelled token (.block relative n)
      hashBlocks token relative failure rest (n + 1) (size + block.length)
        (data ++ block)

/-- `hashFile`. -/
def hashFile (S : PackageStorage) (token : InspectPoll → Bool)
    (sha256Hex : List UInt8 → QString) (relative : QString) :
    Except Exn ModelFile :=
  match S.openRead relative with
  | .error message => .error (.error ⟨.StorageFailure, message⟩)
  | .ok stream => do
      let (size, data) ←
        hashBlocks token relative stream.failure stream.blocks 0 0 []
      return { path := relative, size, sha256 := sha256Hex data }

-- ============================================================ the entry point

/-- A file that can be opened and begins with the magic of GGUF. -/
def isGguf (S : PackageStorage) (path : QString) : Bool :=
  match S.openRead path with
  | .error _ => false
  | .ok stream => stream.blocks.flatten.take 4 == [0x47, 0x47, 0x55, 0x46]

/-- `entryProblem`; empty when there is none. -/
def entryProblem (S : PackageStorage) (manifest : ModelManifest) : QString :=
  let path := manifest.entryPoint
  if manifest.projector ≠ [] ∧ isGguf S manifest.projector = false then
    qs "Multimodal projector is missing or has invalid GGUF magic"
  else if manifest.format = qs "mlx" then
    if S.dirExists path = false
        ∨ S.isFile (filePath path (qs "config.json")) = false
        ∨ (S.isFile (filePath path (qs "tokenizer.json")) = false
          ∧ S.isFile (filePath path (qs "tokenizer.model")) = false)
        ∨ S.entryList path (qs "*.safetensors") = [] then
      qs "MLX entry_point requires config, tokenizer and safetensors files"
    else []
  else if S.isFile path = false then qs "entry_point is not a model file"
  else if manifest.format = qs "gguf" ∧ isGguf S path = false then
    qs "GGUF entry_point has invalid magic"
  else []

-- ============================================================= the inspection

/-- The local variables of `inspect`. -/
structure Inspection where
  result : ModelVerification
  expected : ExtTreeMap QString ModelFile
  inventory : List ModelFile := []

/-- What is wrong with a file on disk. -/
def issueOf (expected : ExtTreeMap QString ModelFile) (file : ModelFile) :
    List QString :=
  match expected[file.path]? with
  | none => [qs "Unlisted file: " ++ file.path]
  | some found =>
      if file.size ≠ found.size ∨ file.sha256 ≠ found.sha256 then
        [qs "Size/SHA-256 mismatch: " ++ file.path]
      else []

/-- One turn of the loop over the paths, after the file was hashed. -/
def checkFile (manifest : ModelManifest) (file : ModelFile) (r : Inspection) :
    Inspection :=
  let result := { r.result with
    checkedFiles := r.result.checkedFiles + 1
    checkedBytes := r.result.checkedBytes + file.size }
  let inventory := r.inventory ++ [file]
  if manifest.files = [] then { r with result, inventory }
  else
    { result := { result with
        issues := result.issues ++ issueOf r.expected file }
      expected := r.expected.erase file.path
      inventory }

/-- The loop over the paths. -/
def inspectFiles (hash : QString → Except Exn ModelFile)
    (manifest : ModelManifest) :
    List QString → Inspection → Except Exn Inspection
  | [], r => .ok r
  | path :: rest, r => do
      let file ← hash path
      inspectFiles hash manifest rest (checkFile manifest file r)

/-- `expected`: the first record of a path counts. -/
def expectedFiles (files : List ModelFile) : ExtTreeMap QString ModelFile :=
  files.foldl (fun expected file => expected.insertIfNew file.path file) ∅

/-- `inspect` after its loop: the missing files and the entry point. -/
def conclude (S : PackageStorage) (manifest : ModelManifest) (r : Inspection) :
    ModelVerification :=
  let missing := r.expected.toList.map fun entry =>
    qs "Missing file: " ++ entry.1
  let problem := entryProblem S manifest
  let issues := r.result.issues ++ missing
    ++ if problem = [] then [] else [problem]
  { r.result with issues, valid := decide (issues = []) }

/-- `inspect`, and the inventory it appends. -/
def inspect (S : PackageStorage) (token : InspectPoll → Bool)
    (sha256Hex : List UInt8 → QString) (manifest : ModelManifest) :
    Except Exn (ModelVerification × List ModelFile) := do
  let model ← modelUri manifest.id
  let paths ← assetPaths S token 65 [] []
  let r ← inspectFiles (hashFile S token sha256Hex) manifest
    (paths.insertionSort fun a b => (compare a b).isLE = true)
    { result := { model }, expected := expectedFiles manifest.files }
  return (conclude S manifest r, r.inventory)

-- =================================================================== the tree

/-- What a directory may hold. -/
inductive Node
  | file (content : List UInt8)
  | dir (entries : List (QString × Node))
  | link
  | special

/-- What a listing says of a node. -/
def infoOf : QString × Node → EntryInfo
  | (fileName, .file _) => { fileName, isFile := true }
  | (fileName, .dir _) => { fileName, isDir := true }
  | (fileName, .link) => { fileName, isSymbolicLink := true }
  | (fileName, .special) => { fileName }

end ModelInspection

end LocalLLM
