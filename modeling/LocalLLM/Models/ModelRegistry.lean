/-
The registry of models that can be pulled (`service/ModelRegistry.cpp`, its
constructor).

The registry is a JSON document. Each of its models has a manifest with an
inventory, a URL for each file of it, and aliases. What it becomes are two
tables: the packages by their URIs, and those URIs by the aliases.

A URL is what `QUrl` in strict mode makes of a text.
-/
import LocalLLM.Models.ManifestObject

namespace LocalLLM

open Std Json
open ManifestObject (parseModelManifest)

/-- A `QUrl`. -/
structure Url where
  isValid : Bool
  scheme : QString
  host : QString
  userInfo : QString := []
  hasFragment : Bool := false
  /-- `QHostAddress(host).isLoopback()`. -/
  isLoopback : Bool := false
deriving DecidableEq

/-- `allowedUrl`. -/
def allowedUrl (url : Url) : Bool :=
  url.isValid && url.host != [] && url.userInfo == [] && !url.hasFragment
    && (url.scheme == qs "https"
      || (url.scheme == qs "http" && url.isLoopback))

/-- `ModelRegistry::Package`; its URLs by their texts. -/
structure RegistryEntry where
  manifest : ModelManifest
  urls : List QString := []

/-- `packages_` and `aliases_`. -/
structure RegistryTables where
  packages : ExtTreeMap QString RegistryEntry := ∅
  aliases : ExtTreeMap QString QString := ∅

namespace RegistryTables

variable (l : Letters) (urlOf : QString → Url)

/-- The URL of a file. -/
def takeSource (sources : JsonObject) (file : ModelFile) :
    Except Exn QString := do
  let url := toText (lookup sources file.path)
  require (allowedUrl (urlOf url) = true ∧ 0 < file.size ∧ file.size ≤ 2 ^ 40
    ∧ file.sha256.length = 64) .InvalidManifest
    "Registry source requires HTTPS (or literal loopback HTTP), a positive size and SHA-256"
  return url

/-- The loop over the files of a package. -/
def takeSources (sources : JsonObject) :
    List ModelFile → Except Exn (List QString)
  | [] => .ok []
  | file :: rest => do
      let url ← takeSource urlOf sources file
      let urls ← takeSources sources rest
      return url :: urls

/-- The loop over the aliases of a package. -/
def takeAliases (uri : QString) :
    List Json → ExtTreeMap QString QString →
    Except Exn (ExtTreeMap QString QString)
  | [], aliases => .ok aliases
  | value :: rest, aliases => do
      let name := toText (some value)
      require (isString (some value) = true ∧ name.length ≤ 128
        ∧ aliasSyntax name = true)
        .InvalidManifest "Invalid model alias"
      require (name ∉ aliases) .InvalidManifest "Duplicate registry alias"
      takeAliases uri rest (aliases.insert name uri)

/-- One model of the document. -/
def takeModel (t : RegistryTables) (value : Json) :
    Except Exn RegistryTables := do
  let object := toObject (some value)
  let manifest ← parseModelManifest l
    (toObject (lookup object (qs "manifest")))
  require (manifest.files ≠ []) .InvalidManifest
    "Registry files need pinned size and SHA-256"
  let sources := toObject (lookup object (qs "sources"))
  require (sources.length = manifest.files.length) .InvalidManifest
    "Registry sources must match every manifest file"
  let urls ← takeSources urlOf sources manifest.files
  let uri ← modelUri manifest.id
  require (uri ∉ t.packages) .InvalidManifest "Duplicate registry model"
  require (isArray (lookup object (qs "aliases")) = true) .InvalidManifest
    "Registry aliases must be an array"
  let aliases ← takeAliases uri
    (toArray (lookup object (qs "aliases"))) t.aliases
  return { packages := t.packages.insert uri ⟨manifest, urls⟩, aliases }

/-- The loop over the models. -/
def takeModels : List Json → RegistryTables → Except Exn RegistryTables
  | [], t => .ok t
  | value :: rest, t => do
      let t ← takeModel l urlOf t value
      takeModels rest t

/-- The constructor, for a file of `size` bytes that parses as `document`. -/
def read (size : Nat) (document : Option JsonObject) :
    Except Exn RegistryTables := do
  require (size ≤ 1024 * 1024) .InvalidManifest "Registry exceeds 1 MiB"
  match document with
  | none =>
      .error (err .InvalidManifest "Registry must contain a models array")
  | some registry => do
      let models := lookup registry (qs "models")
      require (isArray models = true) .InvalidManifest
        "Registry must contain a models array"
      takeModels l urlOf (toArray models) {}

end RegistryTables

end LocalLLM
