/-
Native content (`media/MediaContent.cpp`): the blocks of a message that are
not plain text, brought to four normal kinds, text, image, audio and video.

A block is normalised by itself (`nativeBlock`); what the blocks share is
the limit on their number, on their text as a whole and on their media. The
limit on the text is an argument, with a default of its own
(`nativeLimit`).

`MediaCodec` holds what is asked of Qt: the compact text of arrays and
objects, and base64.
-/
import LocalLLM.Core.Types

namespace LocalLLM

open Json

structure MediaCodec where
  /-- `QJsonDocument(array).toJson(Compact)` as text. -/
  arrayText : List Json → QString
  /-- `QJsonDocument(object).toJson(Compact)` as text. -/
  objectText : JsonObject → QString
  /-- `fromBase64Encoding(text.toLatin1(), AbortOnBase64DecodingErrors)`. -/
  fromBase64 : QString → Option (List UInt8)
  /-- `toBase64`, as text. -/
  toBase64 : List UInt8 → QString

/-- The limit of `nativeContent` where none is given. -/
def nativeLimit : Int := 1024 * 1024

/-- The text of a member. -/
def blockText (block : JsonObject) (key : String) : QString :=
  toText (lookup block (qs key))

section Blocks

variable (q : MediaCodec)

/-- `mediaBytes`. -/
def mediaBytes (block : JsonObject) : Except Exn (List UInt8) := do
  let encoded := blockText block "data"
  require (isString (lookup block (qs "data")) = true ∧ encoded ≠ [])
    .InvalidArgument "Media data must be nonempty base64"
  let decoded := (q.fromBase64 encoded).getD []
  require (q.fromBase64 encoded ≠ none ∧ decoded ≠ []
    ∧ q.toBase64 decoded = encoded)
    .InvalidArgument "Invalid canonical base64 media data"
  return decoded

def imageTypes : List QString :=
  [qs "image/png", qs "image/jpeg", qs "image/bmp", qs "image/gif"]

def audioTypes : List QString :=
  [qs "audio/wav", qs "audio/x-wav", qs "audio/mpeg", qs "audio/flac"]

/-- `media`: an image or audio block. -/
def media (block : JsonObject) : Except Exn JsonObject := do
  let type := blockText block "type"
  let mime := blockText block "mimeType"
  require ((type = qs "image" ∧ mime ∈ imageTypes)
      ∨ (type = qs "audio" ∧ mime ∈ audioTypes)) .InvalidArgument
    "Unsupported native media type; use PNG/JPEG/BMP/GIF images or WAV/MP3/FLAC audio"
  let _ ← mediaBytes q block
  return ofMembers [(qs "type", .string type), (qs "mimeType", .string mime),
    (qs "data", .string (blockText block "data"))]

/-- `QJsonObject{{"type", type}, {"mimeType", mime}, {"data", data}}`. -/
def mediaBlock (type mime : QString) (data : Option Json) : JsonObject :=
  ofMembers ([(qs "type", .string type), (qs "mimeType", .string mime)]
    ++ (data.map fun v => (qs "data", v)).toList)

def textBlock (text : QString) : Json :=
  .object (ofMembers [(qs "type", .string (qs "text")),
    (qs "text", .string text)])

/-- `image_url`: a data URL. -/
def imageUrl (block : JsonObject) : Except Exn Json := do
  let url := blockText (toObject (lookup block (qs "image_url"))) "url"
  let split := QString.indexOf url (qs ";base64,")
  require (QString.startsWith url (qs "data:") = true
      ∧ ∃ at_, split = some at_ ∧ 5 < at_) .InvalidArgument
    "Native image_url requires an inline base64 data URL"
  let at_ := split.getD 0
  return .object (← media q (mediaBlock (qs "image")
    ((url.drop 5).take (at_ - 5)) (some (.string (url.drop (at_ + 8))))))

/-- `input_audio`. -/
def inputAudio (block : JsonObject) : Except Exn Json := do
  let audio := toObject (lookup block (qs "input_audio"))
  let format := blockText audio "format"
  require (format = qs "wav" ∨ format = qs "mp3" ∨ format = qs "flac")
    .InvalidArgument "Unsupported input_audio format"
  return .object (← media q (mediaBlock (qs "audio")
    (if format = qs "mp3" then qs "audio/mpeg" else qs "audio/" ++ format)
    (lookup audio (qs "data"))))

/-- The frames of a video; `previous` is the last timestamp. -/
def videoFrames : List Json → Double → Except Exn (List Json)
  | [], _ => .ok []
  | item :: rest, previous => do
      require (isObject (some item) = true) .InvalidArgument
        "Video frame must be an object"
      let frame := toObject (some item)
      let stamp := lookup frame (qs "timestamp_ms")
      require (isDouble stamp = true
          ∧ (toDouble (.finite 0) stamp).isFinite = true
          ∧ Double.le (.finite 0) (toDouble (.finite 0) stamp) = true
          ∧ Double.le (toDouble (.finite 0) stamp) (.finite 9007199254740991)
            = true
          ∧ Double.lt previous (toDouble (.finite 0) stamp)
            = true) .InvalidArgument
        "Video frame timestamps must strictly increase"
      let normalized ← media q
        (insert frame (qs "type") (.string (qs "image")))
      let frames ← videoFrames rest (toDouble (.finite 0) stamp)
      return .object (insert normalized (qs "timestamp_ms") (stamp.getD .null))
        :: frames

/-- `video`. -/
def video (block : JsonObject) : Except Exn (Json × Nat) := do
  let frames := lookup block (qs "frames")
  require (isArray frames = true ∧ toArray frames ≠ []
      ∧ (toArray frames).length ≤ 64) .InvalidArgument
    "Video requires 1 to 64 timestamped image frames"
  let frames ← videoFrames q (toArray frames) (.finite (-1))
  return (.object (ofMembers [(qs "type", .string (qs "video")),
    (qs "frames", .array frames)]), frames.length)

/-- `resource`: media bytes or a text. -/
def resourceBlock (block : JsonObject) : Except Exn (Json × Nat) := do
  require (isObject (lookup block (qs "resource")) = true) .InvalidArgument
    "Resource must be an object"
  let resource := toObject (lookup block (qs "resource"))
  if contains resource (qs "blob") = true then do
    let mime := blockText resource "mimeType"
    let type := if QString.startsWith mime (qs "image/") = true then qs "image"
      else qs "audio"
    return (.object (← media q
      (mediaBlock type mime (lookup resource (qs "blob")))), 1)
  else do
    require (isString (lookup resource (qs "text")) = true) .InvalidArgument
      "Resource requires text or supported media bytes"
    return (textBlock (blockText resource "text"), 0)

/-- One block, normalised, with the number of its media. -/
def nativeBlock (value : Json) : Except Exn (Json × Nat) := do
  require (isObject (some value) = true) .InvalidArgument
    "Content block must be an object"
  let block := toObject (some value)
  let type := blockText block "type"
  if type = qs "image_url" then
    return (← imageUrl q block, 1)
  else if type = qs "input_audio" then
    return (← inputAudio q block, 1)
  else if type = qs "text" then do
    require (isString (lookup block (qs "text")) = true) .InvalidArgument
      "Content text must be a string"
    return (textBlock (blockText block "text"), 0)
  else if type = qs "image" ∨ type = qs "audio" then
    return (.object (← media q block), 1)
  else if type = qs "video" then video q block
  else if type = qs "resource" then resourceBlock q block
  else if type = qs "resource_link" then do
    require (isString (lookup block (qs "uri")) = true) .InvalidArgument
      "Resource link requires a URI"
    return (textBlock (q.objectText block), 0)
  else .error (.error ⟨.RuntimeUnavailable,
    qs "Unsupported native content block: " ++ type⟩)

/-- The loop over the blocks. -/
def nativeBlocks : List Json → Except Exn (List Json × Nat)
  | [] => .ok ([], 0)
  | value :: rest => do
      let (block, count) ← nativeBlock q value
      let (blocks, mediaCount) ← nativeBlocks rest
      return (block :: blocks, count + mediaCount)

/-- `nativeContent`. -/
def nativeContent (content : List Json) (maxCharacters : Int) :
    Except Exn (List Json) := do
  require (content.length ≤ 64 ∧ 0 < maxCharacters) .InvalidArgument
    "Native content exceeds 64 blocks"
  require (((q.arrayText content).length : Int) ≤ maxCharacters)
    .InvalidArgument
    "Native content exceeds input limit"
  let (blocks, mediaCount) ← nativeBlocks q content
  require (mediaCount ≤ 64) .InvalidArgument
    "Native content exceeds 64 media items"
  return blocks

-- ================================================================= modalities

/-- `Modality`, as bits. -/
def modalityText : Nat := 1
def modalityImage : Nat := 2
def modalityAudio : Nat := 4
def modalityVideo : Nat := 8

/-- What a normalised block asks for besides text. -/
def blockModalities (value : Json) : Nat :=
  let type := blockText (toObject (some value)) "type"
  if type = qs "image" then modalityImage
  else if type = qs "audio" then modalityAudio
  else if type = qs "video" then modalityImage ||| modalityVideo
  else 0

/-- `contentModalities`. -/
def contentModalities (content : List Json) : Except Exn Nat := do
  let blocks ← nativeContent q content nativeLimit
  return blocks.foldl (fun result value => result ||| blockModalities value)
    modalityText

-- =================================================================== evidence

/-- `append`: what is kept of a block with media. -/
def evidenceOf (sha256Hex : List UInt8 → QString) (block : JsonObject) :
    Except Exn Json := do
  let bytes ← mediaBytes q block
  let entry := ofMembers [
    (qs "type", (lookup block (qs "type")).getD .null),
    (qs "mimeType", (lookup block (qs "mimeType")).getD .null),
    (qs "bytes", jsonInt bytes.length),
    (qs "sha256", .string (sha256Hex bytes))]
  return .object (match lookup block (qs "timestamp_ms") with
    | some stamp => insert entry (qs "timestamp_ms") stamp
    | none => entry)

/-- The blocks of a normalised block that have media. -/
def mediaParts (value : Json) : List JsonObject :=
  let block := toObject (some value)
  let type := blockText block "type"
  if type = qs "video" then
    (toArray (lookup block (qs "frames"))).map fun frame =>
      toObject (some frame)
  else if type = qs "image" ∨ type = qs "audio" then [block]
  else []

/-- `mediaEvidence`. -/
def mediaEvidence (sha256Hex : List UInt8 → QString) (content : List Json) :
    Except Exn (List Json) := do
  let blocks ← nativeContent q content nativeLimit
  (blocks.flatMap mediaParts).mapM (evidenceOf q sha256Hex)

end Blocks

end LocalLLM
