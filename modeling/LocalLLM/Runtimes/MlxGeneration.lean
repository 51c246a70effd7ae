/-
How the MLX worker draws tokens (`runtimes/mlx_worker.py`,
`full_history_processor`, and in `handle` the sampler and the processors).

# The library

`MlxLm` is what the worker uses of MLX, mlx_lm and `mlx_sample_utils` for it.
`generate_step` evaluates the tokens it is given chunk by chunk and asks for
logits with the last chunk only. That chunk is the history it tells the
processors, and from there on the history grows with each token it draws.

# The closures

The processors and the sampler of the worker are closures: each keeps what it
has found out at its first call (`Closures`).
-/
import LocalLLM.Runtimes.MlxWorker

namespace LocalLLM.Worker

-- ================================================================== arguments

/-- What `make_logits_processors` is called with. -/
structure ProcessorArguments where
  logitBias : List (Nat × Json)
  repetitionPenalty : Option Double
  presencePenalty : Option Double
  frequencyPenalty : Option Double
  /-- All three context sizes. -/
  contextSize : Int

/-- What `make_sampler` is called with. -/
structure SamplerArguments where
  temp : Double
  topP : Double
  topK : Int
  minP : Double
  minTokensToKeep : Int
  xtcProbability : Double
  xtcThreshold : Double

/-- `bias`. The keys are canonical when the service sends them. -/
def biasOf : JsonObject → Except PyError (List (Nat × Json))
  | [] => .ok []
  | (key, value) :: members => do
      let token ← match QString.digitsValue key with
        | some token => .ok token
        | none => .error (valueError "invalid literal for int() with base 10")
      let bias ← biasOf members
      return (token, value) :: bias

def processorArguments (contextTokens : Int) (options : GenerationOptions)
    (logitBias : List (Nat × Json)) : ProcessorArguments :=
  let contextSize := options.repetitionContextSize
  let penaltiesEnabled := decide (contextSize ≠ 0)
  { logitBias
    repetitionPenalty :=
      if penaltiesEnabled && decide (options.repetitionPenalty ≠ .finite 1)
        then
        some options.repetitionPenalty
      else none
    presencePenalty := if penaltiesEnabled then some options.presencePenalty
      else none
    frequencyPenalty :=
      if penaltiesEnabled then some options.frequencyPenalty else none
    contextSize := if contextSize < 0 then contextTokens else contextSize }

/-- The arguments of the sampler, for logits of so many tokens. -/
def samplerArguments (options : GenerationOptions) (vocabulary : Int) :
    Except PyError SamplerArguments :=
  if vocabulary < options.minKeep then
    .error (valueError "min_keep exceeds vocabulary size")
  else .ok
    { temp := options.temperature
      topP := options.topP
      topK := if options.topK < vocabulary then options.topK else 0
      minP := options.minP
      minTokensToKeep := options.minKeep
      xtcProbability := options.xtcProbability
      xtcThreshold := options.xtcThreshold }

-- ================================================================ the library

abbrev Processor (L : Type) := TokenList → L → L

/-- What draws the tokens. -/
structure MlxLm (L : Type) where
  /-- The logits of a model behind what a cache holds and then these tokens. -/
  forward : Nat → Cache → TokenList → L
  /-- `logits.shape[-1]`. -/
  vocabulary : L → Int
  makeProcessors : ProcessorArguments → Except PyError (List (Processor L))
  /-- The sampler of `make_sampler` behind a seed, at its n-th call. -/
  draw : SamplerArguments → UInt32 → Nat → L → Token
  /-- How many of so many tokens are in the last chunk. -/
  lastChunk : Nat → Nat
  lastChunk_pos : ∀ n, 0 < n → 0 < lastChunk n
  lastChunk_le : ∀ n, lastChunk n ≤ n
  isEos : Token → Bool
  lastSegment : TokenList → Bool → QString
  /-- The chunks of `stream_generate`, by the tokens it draws. -/
  streamGenerate : Int → TokenList → List Response
  streamGenerate_prefix : ∀ maximum tokens,
    (streamGenerate maximum tokens).map Response.token <+: tokens

/-- The processors of a generation, and the tokens with a bias. -/
structure Processing (L : Type) where
  processors : List (Processor L)
  biased : List Nat

/-- What the closures keep. -/
structure Closures where
  /-- The tokens that the history does not have. -/
  omitted : Option TokenList := none
  sampler : Option SamplerArguments := none

namespace MlxLm

variable {L : Type} (lib : MlxLm L)

def processingOf (contextTokens : Int) (options : GenerationOptions) :
    Except PyError (Processing L) := do
  let bias ← biasOf options.logitBias
  let processors ← lib.makeProcessors
    (processorArguments contextTokens options bias)
  return ⟨processors, bias.map Prod.fst⟩

/-- What `process` finds out at its first call. -/
def omittedOf (prompt history : TokenList) (biased : List Nat) (logits : L) :
    Except PyError TokenList :=
  if history = [] ∨ prompt.length < history.length
      ∨ prompt.drop (prompt.length - history.length) ≠ history then
    .error (valueError "Unexpected MLX logits-processor history")
  else if ∃ token ∈ biased, lib.vocabulary logits ≤ token then
    .error (valueError "logit_bias token is outside the vocabulary")
  else .ok (prompt.take (prompt.length - history.length))

/-- `process` of `full_history_processor`. -/
def process (prompt : TokenList) (p : Processing L)
    (history : TokenList) (logits : L)
    (c : Closures) : Except PyError (L × Closures) := do
  let omitted ← match c.omitted with
    | none => lib.omittedOf prompt history p.biased logits
    | some omitted => .ok omitted
  let complete := omitted ++ history
  return (p.processors.foldl
    (fun logits processor => processor complete logits) logits,
    { c with omitted := some omitted })

/-- `sampler`, at its n-th call. -/
def sampler (options : GenerationOptions) (n : Nat) (logits : L)
    (c : Closures) :
    Except PyError (Token × Closures) := do
  let arguments ← match c.sampler with
    | none => samplerArguments options (lib.vocabulary logits)
    | some arguments => .ok arguments
  return (lib.draw arguments options.seed n logits,
    { c with sampler := some arguments })

/-- One token of `generate_step`, behind those it has evaluated. -/
def step (model : Nat) (cache : Cache) (request : GenerateRequest)
    (p : Processing L) (n : Nat) (seen history : TokenList) (c : Closures) :
    Except PyError (Token × Closures) := do
  let logits := lib.forward model cache seen
  let (logits, c) ←
    if p.processors.isEmpty then .ok (logits, c)
    else lib.process request.tokens p history logits c
  lib.sampler request.options n logits c

/-- So many tokens, and what is raised behind them. -/
def steps (model : Nat) (cache : Cache) (request : GenerateRequest)
    (p : Processing L) :
    Nat → Nat → TokenList → TokenList → Closures → TokenList × Option PyError
  | 0, _, _, _, _ => ([], none)
  | fuel + 1, n, seen, history, c =>
      match lib.step model cache request p n seen history c with
      | .error e => ([], some e)
      | .ok (token, c) =>
          let rest := steps model cache request p fuel (n + 1)
            (seen ++ [token])
            (history ++ [token]) c
          (token :: rest.1, rest.2)

/-- `generate_step`, of the tokens that are not cached. -/
def generateStep (model : Nat) (cache : Cache) (request : GenerateRequest)
    (p : Processing L) (stream : TokenList) : TokenList × Option PyError :=
  lib.steps model cache request p request.options.maxTokens.toNat 0 stream
    (stream.drop (stream.length - lib.lastChunk stream.length)) {}

end MlxLm

end LocalLLM.Worker
