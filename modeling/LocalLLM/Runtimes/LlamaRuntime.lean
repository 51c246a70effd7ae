/-
The context of the llama.cpp runtime (`runtimes/LlamaRuntime.cpp`).

# The library

`Llama` is what the context calls of llama.cpp: pure functions of the model,
of the options and of what was evaluated. Its key-value memory is a list of
cells, and the logits are a function of that list. `LlamaOutside` is what
may go otherwise in another call: when the token is cancelled, whether a
part of the memory can be dropped, and which evaluations fail.

# A call

A call is a computation over the context and its own local variables
(`LlamaTurn`). What it has done to the context stays done when it throws.
The field `evaluations` has no counterpart in the source: it lists what was
evaluated, and where.
-/
import LocalLLM.Runtimes.Runtime
import LocalLLM.Lib.Prefix

namespace LocalLLM

/-- One position of the key-value memory: a token, or a part of a media
chunk, and the position it was evaluated at. -/
inductive LlamaCell
  | token (token : Token) (position : Nat)
  | media (chunk part : Nat) (position : Nat)
deriving DecidableEq

/-- `LlamaConversationState`, as far as a generation reads it. -/
structure LlamaConversationState where
  /-- The chunks of a prompt with media, by number. -/
  chunks : Option (List Nat) := none
  inputTokens : Int := 0
  singleTurnTools : List QString := []
  /-- `parser.generation_prompt`. -/
  generationPrompt : QString := []
  /-- The grammar, its triggers and the preserved tokens. -/
  chat : Nat := 0
deriving DecidableEq

/-- What the context calls of llama.cpp and of Qt. -/
structure Llama (Logits : Type) where
  vocabSize : Int
  contextTokens : Int
  batchTokens : Nat
  batchTokens_pos : 0 < batchTokens
  /-- `validateGenerationOptions(options, "llama.cpp")`. -/
  validate : GenerationOptions → Except Exn Unit
  /-- `QString::toInt`. -/
  toInt : QString → Int
  /-- The cells a media chunk fills from a position on, and the position
  after them. -/
  evaluate : Nat → Nat → List LlamaCell × Nat
  logits : List LlamaCell → Logits
  /-- The next token: of the options, the state, the prompt, the logits and
  tokens sampled before, and the logits now. -/
  sample : GenerationOptions → Option LlamaConversationState → TokenList →
    List (Logits × Token) → Logits → Except Exn Token
  isEndOfGeneration : Token → Bool
  /-- The bytes of a token, with its text when it is a preserved one. -/
  toPiece : Token → Bool → Option (List UInt8)
  isPreserved : Option LlamaConversationState → Token → Bool
  /-- `Utf8Stream`: what the last of these pieces adds to the text. -/
  decodeUtf8 : List (List UInt8) → QString
  /-- `Utf8Stream::finish`. -/
  finishUtf8 : List (List UInt8) → QString
  /-- `QJsonDocument::fromJson` of a text in UTF-8. -/
  fromJson : QString → Option Json

/-- A failed evaluation: the status, and how many of the new cells it
leaves behind. -/
structure LlamaFailure where
  status : Int
  status_ne : status ≠ 0
  kept : Nat

/-- What may be otherwise in another call. -/
structure LlamaOutside where
  /-- `cancel.isCancelled()`, look by look. -/
  cancelled : Nat → Bool := fun _ => false
  /-- `llama_memory_seq_rm` refuses. -/
  refuses : Bool := false
  /-- The evaluations that fail. -/
  fails : Nat → Option LlamaFailure := fun _ => none
  /-- What keeps the sampler from being set up. -/
  sampler : Except Exn Unit := .ok ()

structure LlamaContext where
  kv : List LlamaCell := []
  /-- `previous_`. -/
  previous : TokenList := []
  /-- `nextPosition_`. -/
  nextPosition : Nat := 0

/-- An evaluation: how many cells there were before, and from which position
on which tokens were evaluated, none for a media chunk. -/
structure LlamaEvaluation where
  before : Nat
  position : Nat
  tokens : TokenList
deriving DecidableEq

/-- The local variables of a call. -/
structure LlamaTurn where
  context : LlamaContext
  polls : Nat := 0
  evaluations : List LlamaEvaluation := []
  /-- What the consumer was handed. -/
  delivered : List QString := []
  /-- The variables of the callback of a single tool turn. -/
  generated : QString := []
  deliveredSize : Nat := 0
  yielded : Bool := false

abbrev LlamaM := Exec Exn LlamaTurn

-- ================================================================= tool turns

/-- `QString::mid`. -/
def QString.mid (s : QString) (position : Nat) (n : Int) : QString :=
  if n < 0 then s.drop position else (s.drop position).take n.toNat

/-- `QString::indexOf(pattern, from)`. -/
def QString.indexOfFrom (s pattern : QString) (start : Nat) : Option Nat :=
  if s.length < start then none
  else (QString.indexOf (s.drop start) pattern).map (· + start)

/-- Whether a document is a call of one of the tools. -/
def isToolCall (tools : List QString) : Json → Bool
  | .object [(name, .string tool), (arguments, .object _)] =>
      name == qs "name" && arguments == qs "arguments" && tools.contains tool
  | .object [(arguments, .object _), (name, .string tool)] =>
      name == qs "name" && arguments == qs "arguments" && tools.contains tool
  | _ => false

/-- The loop of `completeSingleToolTurn`, over the closing tags. -/
def closingTag (fromJson : QString → Option Json) (generated : QString)
    (tools : List QString) (start : Nat) : Nat → Option Nat → Option Nat
  | 0, _ => none
  | _, none => none
  | turns + 1, some close =>
      match fromJson (QString.trimmed
          (generated.mid start ((close : Int) - start))) with
      | some document =>
          if isToolCall tools document then some (close + 12)
          else closingTag fromJson generated tools start turns
            (generated.indexOfFrom (qs "</tool_call>") (close + 12))
      | none => closingTag fromJson generated tools start turns
          (generated.indexOfFrom (qs "</tool_call>") (close + 12))

/-- `completeSingleToolTurn`. -/
def completeSingleToolTurn (fromJson : QString → Option Json)
    (before generated : QString) (tools : List QString) : Option Nat :=
  let start :=
    if (QString.trimmed before).endsWith (qs "<tool_call>")
        || (QString.trimmed generated).startsWith [qc '\x7b'] then some 0
    else (generated.indexOf (qs "<tool_call>")).map (· + 11)
  match start with
  | none => none
  | some start =>
      closingTag fromJson generated tools start (generated.length + 1)
        (generated.indexOfFrom (qs "</tool_call>") start)

namespace LlamaContext

-- ================================================================== callbacks

/-- A consumer: what it answers to the last of the texts it was handed. -/
abbrev Consumer := List QString → Except Exn Bool

/-- `onText` of the caller. -/
def deliver (consumer : Consumer) (text : QString) : LlamaM Bool := do
  let t ← get
  set { t with delivered := t.delivered ++ [text] }
  Exec.ofExcept (consumer (t.delivered ++ [text]))

/-- A text handed over, unless there is nothing to hand over. -/
def handOver (onText : QString → LlamaM Bool) (isEmpty : Bool)
    (text : QString) : LlamaM Bool :=
  if isEmpty then pure true else onText text

variable {Logits : Type}

/-- The callback of a single tool turn. -/
def deliverTurn (L : Llama Logits) (state : LlamaConversationState)
    (consumer : Consumer) (piece : QString) : LlamaM Bool := do
  let t ← get
  if t.yielded then return false
  else do
    let generated := t.generated ++ piece
    let boundary :=
      if qc '>' ∈ piece then completeSingleToolTurn L.fromJson
        state.generationPrompt generated state.singleTurnTools
      else none
    let stop := boundary.getD generated.length
    set { t with generated }
    let text := generated.mid t.deliveredSize ((stop : Int) - t.deliveredSize)
    let keepGoing ←
      handOver (deliver consumer) (decide (stop = t.deliveredSize)) text
    modify fun t =>
      { t with deliveredSize := stop, yielded := boundary.isSome }
    return keepGoing && !boundary.isSome

-- ================================================================ evaluations

/-- `cancel.throwIfCancelled()`. -/
def throwIfCancelled (o : LlamaOutside) : LlamaM Unit := do
  let t ← get
  set { t with polls := t.polls + 1 }
  if o.cancelled t.polls then throw cancelledError else pure ()

/-- The cells of tokens from a position on. -/
def cells (position : Nat) : TokenList → List LlamaCell
  | [] => []
  | token :: tokens => .token token position :: cells (position + 1) tokens

/-- The record of an evaluation on a context. -/
def evaluationOf (c : LlamaContext) (tokens : TokenList) : LlamaEvaluation :=
  { before := c.kv.length, position := c.nextPosition, tokens }

/-- The cells that an evaluation adds, and its status. -/
def outcomeOf (o : LlamaOutside) (evaluations : List LlamaEvaluation)
    (new : List LlamaCell) : List LlamaCell × Int :=
  match o.fails evaluations.length with
  | none => (new, 0)
  | some failure => (new.take failure.kept, failure.status)

/-- `llama_decode` of a batch, and its status. -/
def llamaDecode (o : LlamaOutside) (batch : TokenList) : LlamaM Int := do
  let t ← get
  let outcome :=
    outcomeOf o t.evaluations (cells t.context.nextPosition batch)
  set { t with
    context := { t.context with kv := t.context.kv ++ outcome.1 }
    evaluations := t.evaluations ++ [evaluationOf t.context batch] }
  return outcome.2

/-- The batches of `decode`. Each takes at least one token. -/
def decodeBatches (L : Llama Logits) (o : LlamaOutside) (trackHistory : Bool) :
    Nat → TokenList → LlamaM Unit
  | _, [] => pure ()
  | 0, _ => throw .unknown
  | turns + 1, tokens => do
      throwIfCancelled o
      let batch := tokens.take L.batchTokens
      let status ← llamaDecode o batch
      throwIfCancelled o
      if status ≠ 0 then throw (.error ⟨.RuntimeFailure,
        qs "llama_decode failed: " ++ qs (toString status)⟩)
      else do
        modify fun t => { t with context := { t.context with
          previous := if trackHistory then t.context.previous ++ batch
            else t.context.previous
          nextPosition := t.context.nextPosition + batch.length } }
        decodeBatches L o trackHistory turns (tokens.drop L.batchTokens)

/-- `decode`. -/
def decode (L : Llama Logits) (o : LlamaOutside) (tokens : TokenList)
    (trackHistory : Bool) : LlamaM Unit :=
  decodeBatches L o trackHistory tokens.length tokens

/-- `mtmd_helper_eval_chunk_single`, and its status. -/
def evaluateChunk (L : Llama Logits) (o : LlamaOutside) (chunk : Nat) :
    LlamaM Int := do
  let t ← get
  let filled := L.evaluate chunk t.context.nextPosition
  let outcome := outcomeOf o t.evaluations filled.1
  set { t with
    context := { t.context with
      kv := t.context.kv ++ outcome.1
      nextPosition := filled.2 }
    evaluations := t.evaluations ++ [evaluationOf t.context []] }
  return outcome.2

/-- The loop over the chunks of a prompt with media. -/
def evaluateChunks (L : Llama Logits) (o : LlamaOutside) :
    List Nat → LlamaM Unit
  | [] => pure ()
  | chunk :: chunks => do
      throwIfCancelled o
      let status ← evaluateChunk L o chunk
      throwIfCancelled o
      if status ≠ 0 then throw (.error ⟨.RuntimeFailure,
        qs "Native media evaluation failed: " ++ qs (toString status)⟩)
      else evaluateChunks L o chunks

-- ================================================================= the prompt

/-- The prompt tokens that need not be evaluated again. The last one always
is, for its logits. -/
def reuseOf (previous prompt : TokenList) : Nat :=
  Prefix.agree previous prompt.dropLast

/-- The memory and the history cut back to the first `reuse` tokens, or to
nothing when a part of the memory cannot be dropped. -/
def rewind (o : LlamaOutside) (reuse : Nat) (c : LlamaContext) :
    Nat × LlamaContext :=
  let kept := if o.refuses then 0 else reuse
  (kept, { kv := c.kv.take kept
           previous := c.previous.take kept
           nextPosition := kept })

/-- The chunks of a prompt with media. -/
def mediaOf (state : Option LlamaConversationState) : Option (List Nat) :=
  state.bind LlamaConversationState.chunks

/-- The length of the prompt, in tokens. -/
def inputTokensOf (prompt : TokenList) : Option LlamaConversationState → Int
  | some { chunks := some _, inputTokens, .. } => inputTokens
  | _ => prompt.length

/-- The checks before anything is evaluated. -/
def check (L : Llama Logits) (prompt : TokenList) (options : GenerationOptions)
    (state : Option LlamaConversationState) : Except Exn Unit := do
  L.validate options
  require (options.minKeep ≤ L.vocabSize) .InvalidArgument
    "min_keep exceeds vocabulary size"
  require (∀ bias ∈ options.logitBias, L.toInt bias.1 < L.vocabSize)
    .InvalidArgument "logit_bias token is outside the vocabulary"
  require (0 < inputTokensOf prompt state
      ∧ inputTokensOf prompt state + options.maxTokens ≤ L.contextTokens)
    .ContextOverflow "llama.cpp context overflow"

/-- The part of `generateImpl` up to the logits of the prompt; it returns
how much of the prompt was kept. -/
def evaluatePrompt (L : Llama Logits) (o : LlamaOutside) (prompt : TokenList)
    (state : Option LlamaConversationState) : LlamaM Nat := do
  let t ← get
  let reuse := match mediaOf state with
    | some _ => 0
    | none => reuseOf t.context.previous prompt
  let (kept, context) := rewind o reuse t.context
  set { t with context }
  match mediaOf state with
  | some chunks => evaluateChunks L o chunks
  | none => decode L o (prompt.drop kept) true
  return kept

-- ================================================================= generation

/-- The last token that is sampled is not evaluated until a later request
needs it. -/
def evaluateSampled (L : Llama Logits) (o : LlamaOutside)
    (state : Option LlamaConversationState) (left : Nat) (token : Token) :
    LlamaM Unit :=
  if left ≠ 0 then decode L o [token] (mediaOf state).isNone else pure ()

/-- The loop over the tokens to sample, `left` of them still allowed. It
returns the finish reason, what was sampled and the pieces. -/
def sampleTokens (L : Llama Logits) (o : LlamaOutside) (prompt : TokenList)
    (options : GenerationOptions) (state : Option LlamaConversationState)
    (onText : QString → LlamaM Bool) :
    Nat → List (Logits × Token) → List (List UInt8) →
    LlamaM (FinishReason × List (Logits × Token) × List (List UInt8))
  | 0, samples, pieces => return (.Length, samples, pieces)
  | left + 1, samples, pieces => do
      throwIfCancelled o
      let t ← get
      let logits := L.logits t.context.kv
      let token ← Exec.ofExcept (L.sample options state prompt samples logits)
      let samples := samples ++ [(logits, token)]
      if L.isEndOfGeneration token then return (.Stop, samples, pieces)
      else do
        match L.toPiece token (L.isPreserved state token) with
        | none => throw (err .RuntimeFailure "Token decoding failed")
        | some piece => do
            let pieces := pieces ++ [piece]
            let text := L.decodeUtf8 pieces
            let keepGoing ← handOver onText (decide (text = [])) text
            if keepGoing then do
              evaluateSampled L o state left token
              sampleTokens L o prompt options state onText left samples pieces
            else return (.Stop, samples, pieces)

/-- `generateImpl`. -/
def generateImpl (L : Llama Logits) (o : LlamaOutside) (prompt : TokenList)
    (options : GenerationOptions) (onText : QString → LlamaM Bool)
    (state : Option LlamaConversationState) : LlamaM RuntimeResult := do
  throwIfCancelled o
  Exec.ofExcept (check L prompt options state)
  let reuse ← evaluatePrompt L o prompt state
  Exec.ofExcept o.sampler
  let (finishReason, samples, pieces) ←
    sampleTokens L o prompt options state onText options.maxTokens.toNat [] []
  let tail := L.finishUtf8 pieces
  let _ ← handOver onText (decide (tail = [])) tail
  modify fun t => { t with context := { t.context with
    previous := if (mediaOf state).isSome then [] else t.context.previous } }
  return { finishReason
           generatedTokens := samples.length
           cachedTokens := reuse }

-- ====================================================================== calls

/-- A call of the context. -/
inductive Call
  | generate (prompt : TokenList) (options : GenerationOptions)
  | generateConversation (prompt : TokenList)
      (state : Option LlamaConversationState) (options : GenerationOptions)

/-- `generate` and `generateConversation`. -/
def perform (L : Llama Logits) (o : LlamaOutside) (consumer : Consumer) :
    Call → LlamaM RuntimeResult
  | .generate prompt options =>
      generateImpl L o prompt options (deliver consumer) none
  | .generateConversation _ none _ => throw (err .InvalidArgument
      "Missing llama.cpp conversation template state")
  | .generateConversation prompt (some state) options =>
      if state.singleTurnTools = [] then
        generateImpl L o prompt options (deliver consumer) (some state)
      else generateImpl L o prompt options (deliverTurn L state consumer)
        (some state)

/-- A call on a context: its outcome, and its variables at the end. -/
def call (L : Llama Logits) (o : LlamaOutside) (consumer : Consumer)
    (c : LlamaContext) (request : Call) :
    Except Exn RuntimeResult × LlamaTurn :=
  perform L o consumer request { context := c }

/-- The context after calls, one after the other. -/
def callAll (L : Llama Logits) (c : LlamaContext)
    (requests : List (LlamaOutside × Consumer × Call)) : LlamaContext :=
  requests.foldl (fun c r => (call L r.1 r.2.1 c r.2.2).2.context) c

end LlamaContext

end LocalLLM
