/-
How a rendered prompt is cut at its media markers
(`runtimes/LlamaRuntime.cpp`, `prepareConversation`).

`addBitmap` leaves a marker in the conversation for each medium, with a
UUID in it; the chat template renders the conversation; and the loop below
cuts the rendered prompt into texts and bitmaps. The loop does not depend on
how the markers are made, so it takes any.
-/
import LocalLLM.Core.Types
import LocalLLM.Lib.Search

namespace LocalLLM

/-- `std::string::find(pattern, pos)`. -/
def Bytes.find (s pattern : Bytes) (pos : Nat) : Option Nat :=
  if s.length < pos then none
  else Search.firstFrom pattern s pos

/-- The marker of the `i`-th medium. -/
def mediaMarker (nonce : Bytes) (i : Nat) : Bytes :=
  asciiBytes "<__iillm_" ++ nonce ++ asciiBytes "_" ++ asciiBytes (toString i)
    ++ asciiBytes "__>"

/-- `mtmd_input_part`: a text, or the bitmap of a number. -/
inductive InputPart
  | text (span : Bytes)
  | bitmap (index : Nat)
deriving DecidableEq

/-- What is thrown when the markers are not where they should be. -/
def markersLost : Exn :=
  err .RuntimeUnavailable
    "Chat template did not preserve native media ordering"

/-- A text from one position to another, unless it is empty. -/
def addText (prompt : Bytes) (start stop : Nat) : List InputPart :=
  if start < stop then [.text ((prompt.drop start).take (stop - start))]
    else []

/-- The loop over the markers: `i` is the number of the next one, and `at_`
is where the search for it begins. -/
def splitMarkers (prompt : Bytes) :
    Nat → Nat → List Bytes → List InputPart → Except Exn (List InputPart)
  | _, at_, [], parts => .ok (parts ++ addText prompt at_ prompt.length)
  | i, at_, marker :: rest, parts =>
      match prompt.find marker at_ with
      | none => .error markersLost
      | some pos =>
          if (prompt.find marker (pos + marker.length)).isSome then
            .error markersLost
          else splitMarkers prompt (i + 1) (pos + marker.length) rest
            (parts ++ addText prompt at_ pos ++ [.bitmap i])

end LocalLLM
