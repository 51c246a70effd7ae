/-
The worker process of the MLX runtime (`runtimes/mlx_worker.py`).

# The library

What the worker calls of MLX and mlx_lm is not given. `WorkerOutside` says
what it does for one request: what it raises, how many entries a trim
removes, which tokens it generates and how far every layer has evaluated
when the generation ends. The caches are objects that several variables may
hold, so they live in a heap, and a context names its cache by number.

# A cache

A layer of a cache lists the key-value cells it holds, in order. A cell
names the model it was computed with. `offset` counts the cells; some kinds
of layers have none.
-/
import LocalLLM.Core.Types
import LocalLLM.Lib.Exec
import LocalLLM.Lib.Prefix

namespace LocalLLM

open Std

/-- An exception of Python. -/
structure PyError where
  name : QString
  text : QString
deriving DecidableEq

namespace Worker

/-- The keys and values of one token. -/
structure Cell where
  model : Nat
  token : Token
deriving DecidableEq

structure Layer where
  /-- Whether the layer has an `offset`. -/
  counts : Bool
  cells : List Cell := []
deriving DecidableEq

abbrev Cache := List Layer

/-- `getattr(layer, "offset", None)`. -/
def Layer.offset (layer : Layer) : Option Nat :=
  if layer.counts then some layer.cells.length else none

/-- A chunk of a generation. -/
structure Response where
  text : QString
  token : Token
  generationTokens : Nat
  finishReason : Option QString

/-- A run of the generation in the library. -/
structure Steps where
  /-- The tokens it generates, in order. -/
  tokens : TokenList := []
  /-- What it raises after them. -/
  raises : Option PyError := none
  /-- How many tokens each layer evaluates until the generation is left:
  those of the prompt that were not cached, then the generated ones. -/
  evaluates : Nat → Nat := fun _ => 0
  /-- The chunks of `stream_generate`, one for each token until it stops. -/
  responses : List Response := []
  responses_prefix : responses.map Response.token <+: tokens := by
    exact List.nil_prefix

/-- What is outside the worker, for one request. -/
structure Outside where
  /-- The imports. -/
  imports : Except PyError Unit := .ok ()
  metalAvailable : Bool := true
  /-- What `select_device` evaluates on the device. -/
  device : Except PyError Unit := .ok ()
  /-- `install`, the path and `mlx_lm.load`: the number of the model. -/
  loads : Except PyError Nat := .ok 0
  applyChatTemplate : Except PyError TokenList := .ok []
  clearCache : Except PyError Unit := .ok ()
  /-- `make_prompt_cache`: which layers have an offset. -/
  makeCache : Except PyError (List Bool) := .ok [true]
  /-- `can_trim_prompt_cache`, before and after a generation. -/
  canTrim : Bool := true
  canTrimAfter : Bool := true
  /-- `trim_prompt_cache`: how many of these entries it removes. -/
  trim : Nat → Except PyError Nat := fun n => .ok n
  /-- `mx.random.seed` and the logits processors. -/
  seed : Except PyError Unit := .ok ()
  processors : Except PyError Unit := .ok ()
  /-- `tokenizer.eos_token_ids`. -/
  isEos : Token → Bool := fun _ => false
  /-- `detokenizer.last_segment`, after these tokens, and whether they were
  the last. -/
  lastSegment : TokenList → Bool → QString := fun _ _ => []
  /-- `generate_step` and `stream_generate`. -/
  steps : Steps := {}

structure GenerateRequest where
  contextId : QString
  tokens : TokenList
  options : GenerationOptions := {}

inductive Request
  | load (backend path : QString) (contextTokens : Int)
  | tokenize (messages : List Json)
  | drop (contextId : QString)
  | generate (request : GenerateRequest)
  | other (op : QString)

/-- What `handle` returns. -/
inductive Reply
  | loaded (backend : QString)
  | tokens (tokens : TokenList)
  | dropped
  | generated (finishReason : Option QString)
      (generatedTokens cachedTokens : Nat)
deriving DecidableEq

/-- A line of the protocol. -/
inductive Line
  | delta (text : QString) (generatedTokens cachedTokens : Nat)
  | result (reply : Reply)
  | error (message : QString)
deriving DecidableEq

/-- `Line`s that end the answer to a request. -/
def Line.isFinal : Line → Bool
  | .delta _ _ _ => false
  | _ => true

/-- What the worker remembers of a context: the tokens, and the cache. -/
structure Entry where
  tokens : TokenList
  cache : Nat
deriving DecidableEq

end Worker

open Worker

/-- `Worker`, with the heap of its caches and what it has emitted. -/
structure Worker where
  /-- `model` and `tokenizer`. -/
  model : Option Nat := none
  contextTokens : Int := 0
  contexts : ExtTreeMap QString Entry := ∅
  backend : QString := []
  heap : Nat → Cache := fun _ => []
  /-- How many caches have been made. -/
  caches : Nat := 0
  emitted : List Line := []

namespace Worker

abbrev WorkerM := Exec PyError Worker

def valueError (text : String) : PyError := ⟨qs "ValueError", qs text⟩

-- ================================================================= the caches

/-- `common_prefix`. -/
def commonPrefix (left right : TokenList) : Nat := Prefix.agree left right

/-- The cache under a number is replaced. -/
def put (id : Nat) (cache : Cache) (w : Worker) : Worker :=
  { w with heap := Function.update w.heap id cache }

/-- `make_cache(model)`. -/
def makeCache (o : Outside) : WorkerM Nat := do
  let layers ← Exec.ofExcept o.makeCache
  let w ← get
  set { put w.caches (layers.map fun counts => { counts }) w with
    caches := w.caches + 1 }
  return w.caches

/-- Every layer loses its last entries. -/
def dropLast (n : Nat) (cache : Cache) : Cache :=
  cache.map fun layer =>
    { layer with cells := layer.cells.take (layer.cells.length - n) }

/-- `trim(cache, amount)`. -/
def trim (o : Outside) (id amount : Nat) : WorkerM Nat := do
  let removed ← Exec.ofExcept (o.trim amount)
  modify fun w => put id (dropLast removed (w.heap id)) w
  return removed

/-- The tokens to reuse. The last one of the prompt is never among them. -/
def countOf (previous tokens : TokenList) : Nat :=
  min (commonPrefix previous tokens) (tokens.length - 1)

/-- `prepare_cache`. -/
def prepareCache (o : Outside) (entry : Option Entry) (tokens : TokenList) :
    WorkerM (Nat × Nat) :=
  match entry with
  | none => do
      let cache ← makeCache o
      return (cache, 0)
  | some { tokens := previous, cache } =>
      let count := countOf previous tokens
      if count = 0 ∨ o.canTrim = false then do
        let cache ← makeCache o
        return (cache, 0)
      else if previous.length - count = 0 then return (cache, count)
      else do
        let removed ← trim o cache (previous.length - count)
        if removed ≠ previous.length - count then do
          let cache ← makeCache o
          return (cache, 0)
        else return (cache, count)

-- ================================================================= generation

/-- `token_chunks`, after `added` and `count` tokens. -/
def tokenChunks (o : Outside) (maximum : Int) :
    TokenList → Nat → TokenList → List Response
  | _, _, [] => []
  | added, count, token :: steps =>
      let stopped := o.isEos token
      let added := if stopped then added else added ++ [token]
      let final := stopped || decide (((count + 1 : Nat) : Int) = maximum)
      { text := o.lastSegment added final
        token
        generationTokens := count + 1
        finishReason :=
          if final then some (qs (if stopped then "stop" else "length"))
          else none } ::
        (if final then [] else tokenChunks o maximum added (count + 1) steps)

/-- The responses that are looped over. -/
def responsesOf (o : Outside) (backend : QString) (maximum : Int) :
    List Response :=
  if backend = qs "cpu" then tokenChunks o maximum [] 0 o.steps.tokens
  else o.steps.responses

/-- What the loop over the responses raises: `token_chunks` does not look at
the tokens behind its last response. -/
def raisesOf (o : Outside) (backend : QString) (maximum : Int) :
    Except PyError Unit :=
  if backend = qs "cpu"
      && (responsesOf o backend maximum).any (·.finishReason.isSome)
        then .ok ()
  else match o.steps.raises with
    | some e => .error e
    | none => .ok ()

/-- What the layers hold after the generation. -/
def evaluate (model : Nat) (o : Outside) (stream : TokenList) (cache : Cache) :
    Cache :=
  cache.mapIdx fun i layer =>
    { layer with cells := layer.cells
        ++ (stream.take (o.steps.evaluates i)).map (Cell.mk model) }

/-- `self.emit`. -/
def emit (line : Line) : WorkerM Unit :=
  modify fun w => { w with emitted := w.emitted ++ [line] }

/-- The loop over the responses; it emits those with a text. -/
def emitAll (reused : Nat) : List Response → WorkerM Unit
  | [] => pure ()
  | response :: responses => do
      if response.text ≠ [] then
        emit (.delta response.text response.generationTokens reused)
      else pure ()
      emitAll reused responses

/-- The offset of all layers, when there is one and it may be recorded. -/
def recordable (o : Outside) (allTokens : TokenList) (cache : Cache) :
    Option Nat :=
  match cache.map Layer.offset with
  | some n :: offsets =>
      if (∀ offset ∈ offsets, offset = some n) ∧ 0 < n ∧ n ≤ allTokens.length
          ∧ o.canTrimAfter then some n
      else none
  | _ => none

/-- The context is recorded, with the tokens its cache holds. -/
def record (o : Outside) (key : QString) (allTokens : TokenList)
    (cache : Nat) : WorkerM Unit :=
  modify fun w =>
    match recordable o allTokens (w.heap cache) with
    | some n => { w with
        contexts := w.contexts.insert key ⟨allTokens.take n, cache⟩ }
    | none => w

/-- What a generation must satisfy before its entry is taken. -/
def withinBudget (w : Worker) (request : GenerateRequest) : Prop :=
  request.tokens ≠ [] ∧ 1 ≤ request.options.maxTokens
    ∧ request.tokens.length + request.options.maxTokens ≤ w.contextTokens

instance (w : Worker) (request : GenerateRequest) :
    Decidable (withinBudget w request) :=
  inferInstanceAs (Decidable (_ ∧ _))

/-- The part of a generation after its entry has been taken. -/
def generateTaken (model : Nat) (o : Outside) (request : GenerateRequest)
    (entry : Option Entry) : WorkerM Reply := do
  let (cache, reused) ← prepareCache o entry request.tokens
  Exec.ofExcept o.seed
  if request.options.typicalP ≠ .finite 1 then
    throw (valueError "MLX does not support typical_p")
  else do
    Exec.ofExcept o.processors
    let w ← get
    let responses := responsesOf o w.backend request.options.maxTokens
    let stream := request.tokens.drop reused ++ o.steps.tokens
    set (put cache (evaluate model o stream (w.heap cache)) w)
    emitAll reused responses
    Exec.ofExcept (raisesOf o w.backend request.options.maxTokens)
    match responses.getLast? with
    | none =>
        throw ⟨qs "RuntimeError", qs "MLX returned no generation result"⟩
    | some last => do
        record o request.contextId
          (request.tokens ++ responses.map Response.token) cache
        return .generated last.finishReason last.generationTokens reused

/-- `handle` of a generation. -/
def generate (model : Nat) (o : Outside) (request : GenerateRequest) :
    WorkerM Reply := do
  Exec.ofExcept o.imports
  let w ← get
  if ¬ withinBudget w request then
    throw (valueError "Context token budget exceeded")
  else do
    set { w with contexts := w.contexts.erase request.contextId }
    generateTaken model o request w.contexts[request.contextId]?

/-- `select_device`. -/
def selectDevice (o : Outside) (backend : QString) : Except PyError Unit :=
  if backend = qs "metal" then
    if o.metalAvailable then o.device
    else .error ⟨qs "RuntimeError", qs "Selected Metal device is unavailable"⟩
  else if backend = qs "cpu" then o.device
  else .error
    (valueError "Service must select cpu or metal for this MLX worker")

/-- `handle` of a load. -/
def load (o : Outside) (backend : QString) (contextTokens : Int) :
    WorkerM Reply := do
  Exec.ofExcept o.imports
  Exec.ofExcept (selectDevice o backend)
  modify fun w => { w with backend }
  let model ← Exec.ofExcept o.loads
  modify fun w => { w with model := some model, contextTokens, contexts := ∅ }
  return .loaded backend

/-- `handle`. -/
def handle (o : Outside) : Request → WorkerM Reply
  | .load backend _ contextTokens => load o backend contextTokens
  | request => do
      let w ← get
      match w.model with
      | none => throw (valueError "No model loaded")
      | some model => match request with
        | .tokenize _ => do
            let tokens ← Exec.ofExcept o.applyChatTemplate
            return .tokens tokens
        | .drop contextId => do
            set { w with contexts := w.contexts.erase contextId }
            Exec.ofExcept o.clearCache
            return .dropped
        | .generate request => generate model o request
        | _ => throw (valueError "Unknown worker operation")

-- ================================================================== main loop

/-- One turn of the loop of `main`: the request is handled, and what it
returns or raises is the last line. -/
def serve (o : Outside) (request : Request) (w : Worker) : Worker :=
  match handle o request w with
  | (.ok reply, w) => { w with emitted := w.emitted ++ [.result reply] }
  | (.error e, w) => { w with
      emitted := w.emitted ++ [.error (e.name ++ qs ": " ++ e.text)] }

/-- The lines that a turn emits. -/
def replyTo (o : Outside) (request : Request) (w : Worker) : List Line :=
  (serve o request w).emitted.drop w.emitted.length

/-- The worker after requests, one after the other. -/
def serveAll (w : Worker) (requests : List (Outside × Request)) : Worker :=
  requests.foldl (fun w r => serve r.1 r.2 w) w

end Worker

end LocalLLM
