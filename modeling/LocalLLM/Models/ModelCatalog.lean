/-
The Models directory (`models/ModelCatalog.cpp`, and `pull` of
`service/ModelRegistry.cpp`).

# The directory

It is a map from names to nodes. Temporary directories lie in it too, under
names that begin with a dot; what is in them while an operation works is
kept apart, and they are in the map before and behind it.

# What can fail

`FileOp` names every operation on files, with the place it is made at, and
`Chance` says which of them fail in one call. A question that fails is
answered with no, a listing that fails is empty, and a file that cannot be
read gives nothing more. A rename happens or it does not. What is left of a
directory that cannot be removed is anything.

# What is not given

`Library` is what Qt and the file system compute: letters, digests, JSON
texts, file name filters, and the blocks of a file. What arrives over the
network is a `Transfer`.
-/
import LocalLLM.Models.ManifestObject
import LocalLLM.Models.ModelInspection

namespace LocalLLM.ModelsDirectory

open Std
open ModelInspection
open ManifestObject (parseModelManifest manifestObject)

-- ================================================================ the outside

/-- Where a package lies. -/
inductive Place
  | source
  | staging
  | published (name : QString)
deriving DecidableEq

/-- What a file is opened for. -/
inductive Purpose
  | digest
  | entryPoint
deriving DecidableEq

/-- The operations on files. -/
inductive FileOp
  | makeRoot
  | lock
  | sourceDirectory
  | models
  | entry (name : QString)
  | manifest (place : Place)
  | openManifest (place : Place)
  | readManifest (place : Place)
  | readable (place : Place) (path : QString)
  | entries (place : Place) (path : QString)
  | openFile (place : Place) (purpose : Purpose) (path : QString)
  | readFile (place : Place) (purpose : Purpose) (path : QString) (n : Nat)
  | stat (place : Place) (path : QString)
  | names (place : Place) (path : QString)
  | destination
  | makeStaging
  | makeDirectory (path : QString)
  | create (path : QString)
  | write (path : QString) (n : Nat)
  | flush (path : QString)
  | saveManifest
  | rename
  | discard

/-- Where a token is looked at. -/
inductive Poll
  | start
  | inspect (place : Place) (poll : InspectPoll)
  | publish
  | file (path : QString)
  | received (path : QString) (n : Nat)
  | download (path : QString)
  | install

/-- What happens around one call. -/
structure Chance where
  fails : FileOp → Bool := fun _ => false
  cancelled : Poll → Bool := fun _ => false
  /-- The random part of the name of a temporary directory. -/
  suffix : QString := []
  /-- What is left of one that cannot be removed. -/
  leftover : Node := .special

structure Library where
  /-- The path of the Models directory. -/
  root : QString
  letters : Letters
  sha256Hex : List UInt8 → QString
  /-- `QJsonDocument::fromJson`; none, unless it gives an object. -/
  fromJson : List UInt8 → Option JsonObject
  toJson : JsonObject → List UInt8
  /-- Whether a file name filter lets a name pass. -/
  passes : QString → QString → Bool
  /-- The blocks in which a file is read. -/
  blocks : List UInt8 → List (List UInt8)
  errorString : FileOp → QString
  blocks_flatten : ∀ content, (blocks content).flatten = content
  fromJson_nil : fromJson [] = none

/-- `token.throwIfCancelled()`. -/
def throwIf (cancelled : Poll → Bool) (poll : Poll) : Except Exn Unit :=
  if cancelled poll then .error cancelledError else .ok ()

-- ================================================================== the trees

/-- The names of a path; a dot stays where it is. -/
def names (path : QString) : List QString :=
  (path.splitOn (qc '/')).filter fun name => name ≠ [] ∧ name ≠ qs "."

/-- The node under some names. -/
def follow : List QString → Node → Option Node
  | [], node => some node
  | name :: rest, .dir entries =>
      match entries.find? fun e => e.1 = name with
      | some e => follow rest e.2
      | none => none
  | _ :: _, _ => none

def isDirectory : Option Node → Bool
  | some (.dir _) => true
  | _ => false

def isRegular : Option Node → Bool
  | some (.file _) => true
  | _ => false

/-- `maxManifestBytes`. -/
def maxManifestBytes : Nat := 4 * 1024 * 1024

section Reading

variable (lib : Library) (chance : Chance)

/-- What reading a file gives. -/
def stream (place : Place) (purpose : Purpose) (path : QString)
    (content : List UInt8) : ReadStream :=
  match (List.range ((lib.blocks content).length + 1)).find? fun n =>
      chance.fails (.readFile place purpose path n) with
  | none => { blocks := lib.blocks content }
  | some n => { blocks := (lib.blocks content).take n
                failure := some (lib.errorString
                  (.readFile place purpose path n)) }

/-- What the outside answers for a tree. -/
def storage (place : Place) (purpose : Purpose) (tree : Node) :
    PackageStorage where
  isReadable path := isDirectory (follow (names path) tree)
    && !chance.fails (.readable place path)
  entryInfoList path :=
    if chance.fails (.entries place path) then []
    else match follow (names path) tree with
      | some (.dir entries) => entries.map infoOf
      | _ => []
  openRead path :=
    if chance.fails (.openFile place purpose path) then
      .error (lib.errorString (.openFile place purpose path))
    else match follow (names path) tree with
      | some (.file content) =>
          .ok (stream lib chance place purpose path content)
      | _ => .error (lib.errorString (.stat place path))
  isFile path := isRegular (follow (names path) tree)
    && !chance.fails (.stat place path)
  dirExists path := isDirectory (follow (names path) tree)
    && !chance.fails (.stat place path)
  entryList path pattern :=
    if chance.fails (.names place path) then []
    else match follow (names path) tree with
      | some (.dir entries) => (entries.filter fun e =>
          isRegular (some e.2) && lib.passes pattern e.1).map Prod.fst
      | _ => []

/-- `readManifest`. -/
def readManifest (place : Place) (tree : Node) : Except Exn ModelManifest :=
  match follow [qs "manifest.json"] tree with
  | some (.file content) => do
      require (chance.fails (.manifest place) = false) .InvalidManifest
        "Package requires a regular manifest.json"
      require (content.length ≤ maxManifestBytes) .InvalidManifest
        "Manifest exceeds 4 MiB"
      demandThat (chance.fails (.openManifest place) = false) .StorageFailure
        (lib.errorString (.openManifest place))
      match lib.fromJson (if chance.fails (.readManifest place) then []
          else content.take (maxManifestBytes + 1)) with
      | none => .error (err .InvalidManifest "Invalid manifest JSON")
      | some document => parseModelManifest lib.letters document
  | _ =>
      .error (err .InvalidManifest "Package requires a regular manifest.json")

/-- `inspect`, of a package with an inventory. The files are opened anew
for the entry point. -/
def inspectPackage (place : Place) (tree : Node) (manifest : ModelManifest) :
    Except Exn ModelVerification := do
  let S := storage lib chance place .digest tree
  let token := fun poll => chance.cancelled (.inspect place poll)
  let model ← modelUri manifest.id
  let paths ← assetPaths S token 65 [] []
  let r ← inspectFiles (hashFile S token lib.sha256Hex) manifest
    (paths.insertionSort fun a b => (compare a b).isLE = true)
    { result := { model }, expected := expectedFiles manifest.files }
  return conclude (storage lib chance place .entryPoint tree) manifest r

end Reading

-- ============================================================== the directory

abbrev Models := ExtTreeMap QString Node

/-- Temporary directories never appear in the public catalog. -/
def isHidden (name : QString) : Bool := name.head? = some (qc '.')

structure CatalogIssue where
  directory : QString
  code : ErrorCode
  message : QString

/-- A package that a scan has found. -/
structure Published where
  name : QString
  tree : Node
  model : ResolvedModel

/-- The local variables of `scan`. -/
structure Scan where
  models : List Published := []
  ids : List QString := []
  issues : List CatalogIssue := []

section Scanning

variable (lib : Library) (chance : Chance)

/-- `own`. -/
def own : Except Exn Unit := do
  require (chance.fails .makeRoot = false) .StorageFailure
    "Cannot create Models directory"
  require (chance.fails .lock = false) .ModelInUse
    "Models directory is owned by another catalog/service"

/-- The directories that are listed. -/
def listing (models : Models) : List (QString × Node) :=
  if chance.fails .models then []
  else models.toList.filter fun e =>
      !chance.fails (.entry e.1) && match e.2 with
    | .dir _ | .link => true
    | _ => false

/-- What is asked of a directory before its package is listed. -/
def scanEntry (entry : QString × Node) : Except Exn ModelManifest := do
  require (isDirectory (some entry.2) = true) .InvalidManifest
    "Model directory must not be a symlink"
  let manifest ← readManifest lib chance (.published entry.1) entry.2
  require (manifest.files ≠ []) .InvalidManifest
    "Package has no integrity inventory; use install()"
  return manifest

/-- One turn of the loop of `scan`. -/
def scanStep (s : Scan) (entry : QString × Node) : Except Exn Scan :=
  if isHidden entry.1 then .ok s
  else
    let found : Except Exn (ModelManifest × QString) := do
      let manifest ← scanEntry lib chance entry
      let uri ← modelUri manifest.id
      return (manifest, uri)
    match found with
    | .ok (manifest, uri) =>
        let directory := filePath lib.root entry.1
        .ok {
          models := s.models ++ [⟨entry.1, entry.2,
            ⟨{ uri, manifest }, directory,
            filePath directory manifest.entryPoint⟩⟩]
          ids := manifest.id :: s.ids
          issues := if manifest.id ∈ s.ids
            then s.issues ++ [⟨entry.1, .AlreadyExists,
            qs "Duplicate manifest id: " ++ manifest.id⟩] else s.issues }
    | .error (.error e) => .ok { s with
        issues := s.issues ++ [⟨entry.1, e.code, e.message⟩] }
    | .error e => .error e

/-- `scan`. -/
def scan (models : Models) : Except Exn Scan := do
  own chance
  (listing chance models).foldlM (scanStep lib chance) {}

/-- `find`. -/
def find (uri : QString) (models : Models) : Except Exn Published := do
  let id ← modelId uri
  let s ← scan lib chance models
  match s.models.filter fun p => p.model.record.manifest.id = id with
  | [] => .error (err .NotFound
      "Model is not installed; inspect models.list issues for invalid packages")
  | [found] => .ok found
  | _ =>
      .error (err .AlreadyExists "Ambiguous model URI: duplicate manifest id")

/-- `ModelCatalog::verify`. -/
def verify (uri : QString) (models : Models) :
    Except Exn ModelVerification := do
  throwIf chance.cancelled .start
  let found ← find lib chance uri models
  match inspectPackage lib chance (.published found.name) found.tree
      found.model.record.manifest with
  | .ok result => .ok result
  | .error (.error e) =>
      if e.code = .Cancelled then .error (.error e)
      else .ok { model := uri, issues := [e.message] }
  | .error e => .error e

/-- The end of a temporary directory. -/
def discard (name : QString) (models : Models) : Models :=
  if chance.fails .discard then models.insert name chance.leftover
    else models.erase name

end Scanning

-- ================================================================== the copy

/-- The files of a temporary directory, under their names. -/
abbrev Staged := List (List QString × List UInt8)

/-- There is a file on the way, or at its end. -/
def blocked (staged : Staged) (path : List QString) : Bool :=
  staged.any fun f => f.1.isPrefixOf path

/-- There is a directory. -/
def covered (staged : Staged) (path : List QString) : Bool :=
  staged.any fun f => path.isPrefixOf f.1

/-- The first names of the files, as a listing has them. -/
def heads (staged : Staged) : List QString :=
  ((staged.filterMap fun f => f.1.head?).dedup).insertionSort
    fun a b => (compare a b).isLE = true

/-- The files in a directory. -/
def within (name : QString) (staged : Staged) : Staged :=
  staged.filterMap fun f => match f.1 with
    | first :: rest => if first = name then some (rest, f.2) else none
    | [] => none

/-- The tree of some files, as deep as `levels` directories. -/
def treeOf : Nat → Staged → Node
  | 0, _ => .dir []
  | levels + 1, staged => .dir ((heads staged).map fun name =>
      match (within name staged).find? fun f => f.1 = [] with
      | some f => (name, .file f.2)
      | none => (name, treeOf levels (within name staged)))

/-- The tree of a temporary directory. -/
def tree (staged : Staged) : Node :=
  treeOf (staged.foldr (fun f levels => max f.1.length levels) 0 + 1) staged

section Copying

variable (lib : Library) (chance : Chance)

/-- A file is made, in a directory that is made for it. -/
def makeFile (path : QString) (staged : Staged) : Except Exn Unit := do
  let names := path.splitOn (qc '/')
  require (chance.fails (.makeDirectory path) = false
    ∧ blocked staged names.dropLast = false) .StorageFailure
      "Cannot create staging directory"
  demandThat (chance.fails (.create path) = false
    ∧ blocked staged names = false
    ∧ covered staged names = false) .StorageFailure
      (lib.errorString (.create path))

/-- The loop of `hashFile`, with an output. -/
def copyBlocks (path : QString) (failure : Option QString) :
    List (List UInt8) → Nat → Int → List UInt8 → Except Exn (Int × List UInt8)
  | [], n, size, data => do
      throwIf chance.cancelled (.inspect .source (.block path n))
      match failure with
      | none => return (size, data)
      | some message => .error (.error ⟨.StorageFailure, message⟩)
  | block :: rest, n, size, data => do
      throwIf chance.cancelled (.inspect .source (.block path n))
      demandThat (chance.fails (.write path n) = false) .StorageFailure
        (lib.errorString (.write path n))
      copyBlocks path failure rest (n + 1) (size + block.length)
        (data ++ block)

/-- `hashFile`, with an output directory. -/
def copyFile (S : PackageStorage) (path : QString) (staged : Staged) :
    Except Exn (ModelFile × Staged) :=
  match S.openRead path with
  | .error message => .error (.error ⟨.StorageFailure, message⟩)
  | .ok stream => do
      makeFile lib chance path staged
      let (size, data) ← copyBlocks lib chance path stream.failure
        stream.blocks 0 0 []
      demandThat (chance.fails (.flush path) = false) .StorageFailure
        (lib.errorString (.flush path))
      return (⟨path, size, lib.sha256Hex data⟩,
        staged ++ [(path.splitOn (qc '/'), data)])

/-- The loop of `inspect` over the paths, with an output directory. -/
def copyFiles (S : PackageStorage) (manifest : ModelManifest) :
    List QString → Inspection → Staged → Except Exn (Inspection × Staged)
  | [], r, staged => .ok (r, staged)
  | path :: rest, r, staged => do
      let (file, staged) ← copyFile lib chance S path staged
      copyFiles S manifest rest (checkFile manifest file r) staged

/-- `inspect`, of the source of an installation. -/
def copyPackage (node : Node) (manifest : ModelManifest) :
    Except Exn (ModelVerification × List ModelFile × Staged) := do
  let S := storage lib chance .source .digest node
  let token := fun poll => chance.cancelled (.inspect .source poll)
  let model ← modelUri manifest.id
  let paths ← assetPaths S token 65 [] []
  let (r, staged) ← copyFiles lib chance S manifest
    (paths.insertionSort fun a b => (compare a b).isLE = true)
    { result := { model }, expected := expectedFiles manifest.files } []
  return (conclude (storage lib chance .source .entryPoint node) manifest r,
    r.inventory,
    staged)

-- =========================================================== the installation

/-- The source of an installation, by its canonical path. -/
structure Source where
  path : QString
  node : Node

/-- `install`, before there is a temporary directory. -/
def admission (source : Source) (models : Models) :
    Except Exn ModelManifest := do
  throwIf chance.cancelled .start
  require (isDirectory (some source.node) = true
    ∧ chance.fails .sourceDirectory = false) .InvalidArgument
    "Installation requires a local package directory"
  let manifest ← readManifest lib chance .source source.node
  own chance
  require (lib.root ≠ source.path
    ∧ QString.startsWith lib.root (source.path ++ qs "/") = false)
      .InvalidArgument
    "Models storage must not be inside the installation source"
  let s ← scan lib chance models
  require (∀ p ∈ s.models, p.model.record.manifest.id ≠ manifest.id)
    .AlreadyExists
    "Model id is already installed"
  require (chance.fails .destination = true ∨ manifest.id ∉ models)
    .AlreadyExists
    "Installation directory already exists"
  return manifest

/-- `install`, in its temporary directory: the manifest of the
copy, and its files. -/
def stage (node : Node) (manifest : ModelManifest) :
    Except Exn (ModelManifest × Staged) := do
  let (result, inventory, staged) ← copyPackage lib chance node manifest
  demandThat (result.valid = true) .IntegrityFailure
    (QString.join result.issues (qs "; "))
  let manifest ← parseModelManifest lib.letters
    (manifestObject { manifest with files := inventory })
  require (manifest.files ≠ []) .InvalidManifest "Empty model package"
  let bytes := lib.toJson (manifestObject manifest)
  require (bytes.length ≤ maxManifestBytes) .ResourceLimit
    "Generated manifest exceeds 4 MiB"
  require (chance.fails .saveManifest = false
    ∧ blocked staged [qs "manifest.json"] = false
    ∧ covered staged [qs "manifest.json"] = false) .StorageFailure
    "Cannot commit installed manifest"
  let staged := staged ++ [([qs "manifest.json"], bytes)]
  let copied ← inspectPackage lib chance .staging (tree staged) manifest
  demandThat (copied.valid = true) .IntegrityFailure
    (qs "Copied package verification failed: "
      ++ QString.join copied.issues (qs "; "))
  throwIf chance.cancelled .publish
  return (manifest, staged)

/-- `ModelCatalog::install`. -/
def install (source : Source) (models : Models) :
    Except Exn ModelRecord × Models :=
  let staging := qs ".install-" ++ chance.suffix
  match admission lib chance source models with
  | .error e => (.error e, models)
  | .ok manifest =>
      let destination := manifest.id
      if chance.fails .makeStaging = true ∨ staging ∈ models then
        (.error
          (err .StorageFailure "Cannot create installation staging directory"),
            models)
      else match stage lib chance source.node manifest with
        | .error e => (.error e, discard chance staging models)
        | .ok (manifest, staged) =>
            if chance.fails .rename = true ∨ destination ∈ models then
              (.error
                (err .StorageFailure "Cannot publish staged model directory"),
                discard chance staging models)
            else ((modelUri manifest.id).map fun uri => { uri, manifest },
              models.insert destination (tree staged))

/-- `ModelCatalog::remove`. -/
def remove (uri : QString) (models : Models) : Except Exn Unit × Models :=
  let trash := qs ".remove-" ++ chance.suffix
  match find lib chance uri models with
  | .error e => (.error e, models)
  | .ok found =>
      if chance.fails .makeStaging = true ∨ trash ∈ models then
        (.error
          (err .StorageFailure "Cannot create removal staging directory"),
            models)
      else if chance.fails .rename = true then
        (.error
          (err .StorageFailure "Cannot detach model directory for removal"),
          discard chance trash models)
      else if chance.fails .discard = true then
        (.error
            (.error ⟨.StorageFailure,
              qs "Model detached, but removal is incomplete at "
            ++ filePath lib.root trash⟩),
          discard chance trash (models.erase found.name))
      else (.ok (), discard chance trash (models.erase found.name))

end Copying

-- =============================================================== the registry

/-- A package of the registry, as the constructor of
`ModelRegistry` takes it. -/
structure RegistryPackage (l : Letters) where
  manifest : ModelManifest
  urls : List QString
  parsed : ∃ document, parseModelManifest l document = .ok manifest
  files_ne_nil : manifest.files ≠ []
  sources : urls.length = manifest.files.length

/-- What arrives for one file. -/
structure Transfer where
  pieces : List (List UInt8) := []
  /-- A redirect that is refused, or an exception of the callback. -/
  failure : Option Exn := none
  /-- There was no error, and the status is 200. -/
  completed : Bool := true
  errorString : QString := []
  /-- The last call of the callback. -/
  reported : Except Exn Unit := .ok ()

/-- What happens around one `pull`. -/
structure PullChance where
  token : Poll → Bool := fun _ => false
  resolve : Chance := {}
  verify : Chance := {}
  /-- `QStorageInfo`: the bytes that are available, where that is known. -/
  available : Option Int := none
  stage : Chance := {}
  transfer : QString → Transfer := fun _ => {}
  install : Chance := {}

section Pulling

variable (lib : Library) (chance : PullChance)

/-- `drain`, for all that arrives. -/
def receive (file : ModelFile) :
    List (List UInt8) → Nat → List UInt8 → Except Exn (List UInt8)
  | [], _, data => .ok data
  | piece :: rest, n, data => do
      throwIf chance.token (.received file.path n)
      require ((piece.length : Int) ≤ file.size - data.length)
        .IntegrityFailure
        "Download exceeds pinned file size"
      demandThat (chance.stage.fails (.write file.path n) = false)
        .StorageFailure
        (lib.errorString (.write file.path n))
      receive file rest (n + 1) (data ++ piece)

/-- `download`. -/
def download (url : QString) (file : ModelFile) (staged : Staged) :
    Except Exn Staged := do
  let names := file.path.splitOn (qc '/')
  demandThat (chance.stage.fails (.create file.path) = false
    ∧ blocked staged names = false
    ∧ covered staged names = false) .StorageFailure
      (lib.errorString (.create file.path))
  let transfer := chance.transfer url
  let data ← receive lib chance file transfer.pieces 0 []
  match transfer.failure with
  | some e => .error e
  | none => do
      throwIf chance.token (.download file.path)
      demandThat (transfer.completed = true) .RuntimeFailure
        (qs "Model download failed: " ++ transfer.errorString)
      require ((data.length : Int) = file.size
        ∧ lib.sha256Hex data = file.sha256)
        .IntegrityFailure
          "Downloaded size or SHA-256 does not match the registry"
      demandThat (chance.stage.fails (.flush file.path) = false)
        .StorageFailure
        (lib.errorString (.flush file.path))
      transfer.reported
      return staged ++ [(names, data)]

/-- The loop over the files of a package. -/
def downloads : List (ModelFile × QString) → Staged → Except Exn Staged
  | [], staged => .ok staged
  | (file, url) :: rest, staged => do
      throwIf chance.token (.file file.path)
      require (chance.stage.fails (.makeDirectory file.path) = false
        ∧ blocked staged (file.path.splitOn (qc '/')).dropLast = false)
          .StorageFailure
        "Cannot create model asset directory"
      let staged ← download lib chance url file staged
      downloads rest staged

/-- The bytes that a pull needs, twice the size of the files. -/
def needed : List ModelFile → Int → Except Exn Int
  | [], bytes => .ok bytes
  | file :: rest, bytes => do
      require (file.size ≤ (2 ^ 63 - 1 - bytes).tdiv 2) .ResourceLimit
        "Package is too large"
      needed rest (bytes + file.size * 2)

/-- The model that is there already. -/
def existing (uri : QString) (models : Models) : Except Exn ModelRecord := do
  let found ← find lib chance.resolve uri models
  let check ← verify lib chance.verify uri models
  demandThat (check.valid = true) .IntegrityFailure
    (QString.join check.issues (qs "; "))
  return found.model.record

/-- `pull`, before there is a temporary directory: the model that is there, or
the package to load. -/
def locate (registry : ModelRegistry)
    (packages : ExtTreeMap QString (RegistryPackage lib.letters))
    (reference : QString) (models : Models) : Except Exn
    (ModelRecord ⊕ RegistryPackage lib.letters) := do
  let uri ← registry.canonical reference
  throwIf chance.token .start
  match existing lib chance uri models with
  | .ok record => return .inl record
  | .error (.error e) => do
      if e.code ≠ .NotFound then .error (.error e)
      else match packages[uri]? with
        | none =>
            .error
              (err .NotFound
                "Model has no download source in the service registry")
        | some package => do
            let bytes ← needed package.manifest.files 0
            require (∀ available, chance.available = some available →
              bytes ≤ available)
              .StorageFailure
                "Insufficient disk space for download and atomic installation"
            return .inr package
  | .error e => .error e

/-- `pull`, in its temporary directory. -/
def fetch (package : RegistryPackage lib.letters) : Except Exn Staged := do
  let staged ← downloads lib chance
    (package.manifest.files.zip package.urls) []
  demandThat (chance.stage.fails .saveManifest = false
    ∧ blocked staged [qs "manifest.json"] = false
    ∧ covered staged [qs "manifest.json"] = false) .StorageFailure
    (lib.errorString .saveManifest)
  throwIf chance.token .install
  return staged ++ [([qs "manifest.json"],
    lib.toJson (manifestObject package.manifest))]

/-- `ModelRegistry::pull`. -/
def pull (registry : ModelRegistry)
    (packages : ExtTreeMap QString (RegistryPackage lib.letters))
    (reference : QString)
    (models : Models) : Except Exn ModelRecord × Models :=
  let name := qs ".pull-" ++ chance.stage.suffix
  match locate lib chance registry packages reference models with
  | .error e => (.error e, models)
  | .ok (.inl record) => (.ok record, models)
  | .ok (.inr package) =>
      if chance.stage.fails .makeStaging = true ∨ name ∈ models then
        (.error (err .StorageFailure "Cannot create pull staging directory"),
          models)
      else match fetch lib chance package with
        | .error e => (.error e, discard chance.stage name models)
        | .ok staged =>
            let installed := install lib chance.install
              ⟨filePath lib.root name, tree staged⟩
                (models.insert name (tree staged))
            (installed.1, discard chance.stage name installed.2)

end Pulling

-- ================================================================== the calls

/-- A call that changes the directory. -/
inductive Call
  | install (chance : Chance) (source : Source)
  | pull (chance : PullChance) (reference : QString)
  | remove (chance : Chance) (uri : QString)

/-- What the calls are made with. -/
structure Service where
  lib : Library
  registry : ModelRegistry
  packages : ExtTreeMap QString (RegistryPackage lib.letters) := ∅

/-- The directory behind a call. -/
def Service.perform (v : Service) (models : Models) : Call → Models
  | .install chance source => (install v.lib chance source models).2
  | .pull chance reference =>
      (pull v.lib chance v.registry v.packages reference models).2
  | .remove chance uri => (remove v.lib chance uri models).2

def Service.step (v : Service) (models : Models) (call : Call) :
    Option Models :=
  some (v.perform models call)

end LocalLLM.ModelsDirectory
