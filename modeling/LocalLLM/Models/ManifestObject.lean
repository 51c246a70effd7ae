/-
Manifests as JSON objects (`models/ModelManifest.cpp`): `parseModelManifest`
and `manifestObject`.

# Letters

Digests are lowered, paths are compared with their case folded, and the
ending `.onnx` is looked for in any case. `Letters` holds Qt's functions for
these; what is asked of them is that ASCII text without capitals is in lower
case already, and is the lower case of no shorter text.

# Patterns

A pattern that ends in `$` is read on `dollarBody`, the subject less the line
feed that the `$` may leave out.
-/
import LocalLLM.Models.ModelManifest

namespace LocalLLM

open Json

/-- An ASCII unit that is no capital letter. -/
def isLowerAscii (u : QChar) : Bool :=
  u < 0x80 && !(qc 'A' ≤ u && u ≤ qc 'Z')

/-- The letter case of Qt. -/
structure Letters where
  toLower : QString → QString
  toCaseFolded : QString → QString
  /-- `compare(..., Qt::CaseInsensitive) == 0`. -/
  same : QString → QString → Bool
  toLower_ascii : ∀ s : QString, s.all isLowerAscii = true → toLower s = s
  toLower_length : ∀ s : QString, (toLower s).all isLowerAscii = true →
    (toLower s).length ≤ s.length

namespace Letters

/-- `endsWith(ending, Qt::CaseInsensitive)`. -/
def endsWith (l : Letters) (s ending : QString) : Bool :=
  ending.length ≤ s.length && l.same (s.drop (s.length - ending.length)) ending

end Letters

/-- `std::trunc(x) == x`. -/
def Double.isWhole : Double → Bool
  | .finite q => q.den == 1
  | .infinite _ => true
  | .nan => false

namespace ManifestObject

/-- `require` with a text that is put together. -/
def demand (condition : Prop) [Decidable condition] (message : QString) :
    Except Exn Unit :=
  if condition then .ok () else .error (.error ⟨.InvalidManifest, message⟩)

/-- `text`. -/
def text (o : JsonObject) (field : String) (limit : Nat := 128) :
    Except Exn QString := do
  let value := lookup o (qs field)
  demand (isString value = true ∧ QString.trimmed (toText value) ≠ []
      ∧ (toText value).length ≤ limit)
    (qs field ++ qs " must be a nonempty bounded string")
  return toText value

/-- A part of a path that names something in the directory before it. -/
def pathPart (part : QString) : Bool :=
  part ≠ [] && part ≠ qs "." && part ≠ qs ".." && part.getLast? ≠ some (qc '.')
    && part.getLast? ≠ some (qc ' ')

/-- `relativeFile`. -/
def relativeFile (path : QString) : Bool :=
  path ≠ [] && path.length ≤ 1024 && path.head? ≠ some (qc '/')
    && !path.contains (qc '\\') && !path.contains (qc ':') && !path.contains 0
    && (path.splitOn (qc '/')).all pathPart

/-- `[a-z]`. -/
def lowerLetter (u : QChar) : Bool := qc 'a' ≤ u && u ≤ qc 'z'

/-- `[a-z0-9-]`. -/
def nameInner (u : QChar) : Bool :=
  lowerLetter u || (qc '0' ≤ u && u ≤ qc '9') || u == qc '-'

/-- `^[a-z][a-z0-9-]*$`. -/
def formatName (s : QString) : Bool :=
  match dollarBody s with
  | [] => false
  | c :: rest => lowerLetter c && rest.all nameInner

/-- `^[a-z][a-z0-9-]{0,63}$`. -/
def capabilityName (s : QString) : Bool :=
  match dollarBody s with
  | [] => false
  | c :: rest => lowerLetter c && rest.length ≤ 63 && rest.all nameInner

/-- `^[0-9a-f]{64}$`. -/
def sha256Hex (s : QString) : Bool :=
  (dollarBody s).length == 64 && (dollarBody s).all fun u =>
    (qc '0' ≤ u && u ≤ qc '9') || (qc 'a' ≤ u && u ≤ qc 'f')

/-- The names a manifest may use. -/
def fieldNames : List QString :=
  [qs "schema_version", qs "id", qs "architecture", qs "format",
    qs "quantization", qs "context_length", qs "capabilities",
    qs "entry_point", qs "files", qs "projector"]

/-- No field has another name. -/
def knownFields (o : JsonObject) : Except Exn Unit :=
  match o.find? fun m => !fieldNames.contains m.1 with
  | some (key, _) => .error (.error ⟨.InvalidManifest,
      qs "Unknown manifest field: " ++ key⟩)
  | none => .ok ()

def schemaVersion (o : JsonObject) : Except Exn Unit :=
  let version := lookup o (qs "schema_version")
  demand (version = none
      ∨ (isDouble version = true ∧ toDouble (.finite 0) version = .finite 1))
    (qs "Unsupported manifest schema_version")

def idOf (o : JsonObject) : Except Exn QString := do
  let id ← text o "id"
  demand (validId id = true) (qs "Invalid portable manifest id")
  return id

def formatOf (o : JsonObject) : Except Exn QString := do
  let format ← text o "format" 32
  demand (formatName format = true) (qs "Invalid format name")
  demand (format ≠ qs "onnx") (qs "ONNX models are not supported")
  return format

def contextLengthOf (o : JsonObject) : Except Exn Int := do
  let context := lookup o (qs "context_length")
  demand (isDouble context = true
      ∧ toDouble (.finite 0) context = .finite (toInt context)
      ∧ 2 ≤ toInt context ∧ toInt context ≤ 1024 * 1024)
    (qs "context_length must be an integer in [2, 1048576]")
  return toInt context

/-- The loop over the capabilities, with those taken so far. -/
def takeCapabilities : List Json → List QString → Except Exn (List QString)
  | [], taken => .ok taken
  | value :: rest, taken => do
      demand (isString (some value) = true
          ∧ capabilityName (toText (some value)) = true
          ∧ toText (some value) ∉ taken)
        (qs "Invalid or duplicate capability")
      takeCapabilities rest (taken ++ [toText (some value)])

def capabilitiesOf (o : JsonObject) : Except Exn (List QString) := do
  let capabilities := lookup o (qs "capabilities")
  demand (isArray capabilities = true ∧ toArray capabilities ≠ []
      ∧ (toArray capabilities).length ≤ 32)
    (qs "capabilities must contain 1 to 32 names")
  takeCapabilities (toArray capabilities) []

/-- The entry point, or that of the format. -/
def namedEntry (o : JsonObject) (format : QString) : Except Exn QString :=
  if contains o (qs "entry_point") then text o "entry_point" 1024
  else if format = qs "gguf" then .ok (qs "model.gguf")
  else if format = qs "mlx" then .ok (qs ".")
  else .error (err .InvalidManifest
    "Custom formats require an explicit entry_point")

/-- `require(!name.endsWith(".onnx"))`. -/
def notOnnx (l : Letters) (name : QString) : Except Exn Unit :=
  demand (l.endsWith name (qs ".onnx") = false)
    (qs "ONNX models are not supported")

def entryPointOf (l : Letters) (o : JsonObject) (format : QString) :
    Except Exn QString := do
  let entry ← namedEntry o format
  demand ((entry = qs "." ∧ format = qs "mlx") ∨ relativeFile entry = true)
    (qs "entry_point must remain inside the model package")
  notOnnx l entry
  return entry

def projectorOf (l : Letters) (o : JsonObject) (format entry : QString) :
    Except Exn QString :=
  if contains o (qs "projector") then do
    let projector ← text o "projector" 1024
    notOnnx l projector
    demand (format = qs "gguf" ∧ relativeFile projector = true
        ∧ projector ≠ entry)
      (qs "projector must be a separate GGUF inside the model package")
    return projector
  else .ok []

/-- One record of the inventory; `seen` are the folded paths before it. -/
def takeFile (l : Letters) (value : Json) (seen : List QString) :
    Except Exn ModelFile := do
  demand (isObject (some value) = true)
    (qs "Each file record must be an object")
  let file := toObject (some value)
  demand (file.length = 3)
    (qs "File records require only path, size and sha256")
  let path ← text file "path" 1024
  notOnnx l path
  demand (relativeFile path = true ∧ path ≠ qs "manifest.json"
      ∧ l.toCaseFolded path ∉ seen)
    (qs "Invalid or colliding file path: " ++ path)
  let size := lookup file (qs "size")
  let bytes := toDouble (.finite 0) size
  demand (isDouble size = true ∧ Double.le (.finite 0) bytes = true
      ∧ Double.le bytes (.finite 9007199254740991) = true
      ∧ Double.isWhole bytes = true)
    (qs "Invalid file size")
  let digest ← text file "sha256" 64
  demand (sha256Hex (l.toLower digest) = true) (qs "Invalid SHA-256")
  return { path, size := toInteger size, sha256 := l.toLower digest }

/-- The loop over the inventory. -/
def takeFiles (l : Letters) : List Json → List QString →
    Except Exn (List ModelFile)
  | [], _ => .ok []
  | value :: rest, seen => do
      let file ← takeFile l value seen
      let files ← takeFiles l rest (l.toCaseFolded file.path :: seen)
      return file :: files

def filesOf (l : Letters) (o : JsonObject) : Except Exn (List ModelFile) := do
  let files := lookup o (qs "files")
  demand (files = none ∨ isArray files = true) (qs "files must be an array")
  demand ((toArray files).length ≤ 10000) (qs "Too many manifest files")
  takeFiles l (toArray files) []

/-- `parseModelManifest`. -/
def parseModelManifest (l : Letters) (o : JsonObject) :
    Except Exn ModelManifest := do
  knownFields o
  schemaVersion o
  let id ← idOf o
  let architecture ← text o "architecture"
  let format ← formatOf o
  let quantization ← text o "quantization" 64
  let contextLength ← contextLengthOf o
  let capabilities ← capabilitiesOf o
  let entryPoint ← entryPointOf l o format
  let projector ← projectorOf l o format entryPoint
  let files ← filesOf l o
  return ⟨id, architecture, format, quantization, contextLength, capabilities,
    entryPoint, files, projector⟩

/-- A record of the inventory. -/
def fileObject (file : ModelFile) : JsonObject :=
  ofMembers [(qs "path", .string file.path), (qs "size", jsonInt file.size),
    (qs "sha256", .string file.sha256)]

/-- `manifestObject`. -/
def manifestObject (m : ModelManifest) (includeFiles : Bool := true) :
    JsonObject :=
  let out := ofMembers [(qs "schema_version", jsonInt 1),
    (qs "id", .string m.id), (qs "architecture", .string m.architecture),
    (qs "format", .string m.format),
    (qs "quantization", .string m.quantization),
    (qs "context_length", jsonInt m.contextLength),
    (qs "capabilities", .array (m.capabilities.map .string)),
    (qs "entry_point", .string m.entryPoint)]
  let projected := if m.projector = [] then out
    else insert out (qs "projector") (.string m.projector)
  if includeFiles then insert projected (qs "files")
    (.array (m.files.map fun file => .object (fileObject file)))
  else projected

end ManifestObject

end LocalLLM
