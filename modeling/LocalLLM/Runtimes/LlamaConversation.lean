/-
The messages `LlamaModel::prepareConversation` hands to the chat template
(`runtimes/LlamaRuntime.cpp`): native content is normalised once more, and
each of its media becomes a bitmap with a text marker in its place.

`Bitmaps` stands for `addBitmap`, which the projector and the decoders
decide: the state it works on, and the marker it leaves or the error it
throws. The limit given to the normalisation is the default one.
-/
import LocalLLM.Media.MediaContent

namespace LocalLLM

open Json

/-- `addBitmap`, and how a timestamp is written. -/
structure Bitmaps (σ : Type) where
  /-- `addBitmap(block, video, parts)`: what it appends to the parts. -/
  add : JsonObject → Bool → σ → Except Exn (Json × σ)
  /-- `QString::arg(stamp, 0, 'g', 16)`. -/
  stampText : Double → QString

variable {σ : Type}

/-- No bitmap fails. -/
def Bitmaps.Total (b : Bitmaps σ) : Prop :=
  ∀ block video s, ∃ out, b.add block video s = .ok out

section Parts

variable (b : Bitmaps σ)

/-- The frames of a video, each after a text with its time. -/
def frameParts : List Json → List Json → σ → Except Exn (List Json × σ)
  | [], parts, s => .ok (parts, s)
  | frame :: rest, parts, s => do
      let image := toObject (some frame)
      let stamp := toDouble (.finite 0) (lookup image (qs "timestamp_ms"))
      let text := textBlock (qs "[video frame at "
        ++ b.stampText stamp ++ qs " ms]")
      let (marker, s) ← b.add image true s
      frameParts rest (parts ++ [text, marker]) s

/-- The parts of normalised content. -/
def contentParts : List Json → List Json → σ → Except Exn (List Json × σ)
  | [], parts, s => .ok (parts, s)
  | item :: rest, parts, s => do
      let block := toObject (some item)
      let type := blockText block "type"
      if type = qs "text" then contentParts rest (parts ++ [.object block]) s
      else if type = qs "video" then do
        let (parts, s) ← frameParts b
          (toArray (lookup block (qs "frames"))) parts s
        contentParts rest parts s
      else do
        let (marker, s) ← b.add block false s
        contentParts rest (parts ++ [marker]) s

/-- The loop over the messages. -/
def prepareMessages (q : MediaCodec) :
    List Json → σ → Except Exn (List Json × σ)
  | [], s => .ok ([], s)
  | value :: rest, s => do
      let message := toObject (some value)
      let content := lookup message (qs "content")
      if isArray content = true then do
        let blocks ← nativeContent q (toArray content) nativeLimit
        let (parts, s) ← contentParts b blocks [] s
        let (messages, s) ← prepareMessages q rest s
        return (.object (insert message (qs "content") (.array parts))
          :: messages, s)
      else do
        let (messages, s) ← prepareMessages q rest s
        return (.object message :: messages, s)

end Parts

end LocalLLM
