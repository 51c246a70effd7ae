/-
The interface of a runtime (`runtimes/Runtime.h`), as the service sees it.

# Code that is not given

A runtime, a model it loaded and a context of that model are records of
functions: whoever implements them decides what they answer. Each
function takes the `Probe` of the task that calls it, so the same call may
answer differently in another task; a context that remembers its last
prompt, or a loader that fails every other time, are such functions.

`generate` is handed a callback, so its answer is a `Caller`: any code
that calls back any number of times and then returns or throws.

# The default estimate

`estimateMemory` has a default that reserves 256 KiB for every token of
every context (`defaultEstimate`).
-/
import LocalLLM.Lib.Exec
import LocalLLM.Hardware.Hardware
import LocalLLM.Hardware.Memory

namespace LocalLLM

structure ModelSpec where
  id : QString
  path : QString
  contextTokens : Int
  options : JsonObject := []
  format : QString := []
  projector : QString := []
deriving DecidableEq

structure RuntimeResult where
  finishReason : FinishReason := .Stop
  generatedTokens : Int := 0
  cachedTokens : Int := 0
deriving DecidableEq

/-- `RuntimeConversationPrompt`. `state` stands for the prompt state that
a runtime hands from `prepareConversation` to its other calls. -/
structure RuntimeConversationPrompt where
  tokens : TokenList := []
  stop : List QString := []
  state : Option Nat := none
  inputTokens : Int := 0
deriving DecidableEq

/-- `tokenCount`: the native count when there is one. -/
def RuntimeConversationPrompt.tokenCount (p : RuntimeConversationPrompt) :
    Int :=
  if p.inputTokens ≠ 0 then p.inputTokens else p.tokens.length

structure RuntimeConversationReply where
  text : QString := []
  reasoning : QString := []
  toolCalls : List Json := []
deriving DecidableEq

/-- A generation in progress: it calls back with each text, and is told
whether to go on. -/
abbrev Generation := Caller QString Bool Exn RuntimeResult

structure RuntimeContext where
  generate : Probe → TokenList → GenerationOptions → Generation
  generateConversation :
    Probe → RuntimeConversationPrompt → GenerationOptions → Generation

/-- A loaded model. `embedText` is the optional `EmbeddingRuntimeModel`
interface; an empty answer of `createContext` is the null pointer. -/
structure RuntimeModel where
  tokenize : Probe → List ChatMessage → Except Exn TokenList
  createContext : Probe → Except Exn (Option RuntimeContext)
  prepareConversation :
    Probe → ConversationRequest → Except Exn RuntimeConversationPrompt
  parseConversation :
    Probe → RuntimeConversationPrompt → QString →
      Except Exn RuntimeConversationReply
  embedText : Option (Probe → QString → Except Exn (List Double)) := none

structure Runtime where
  id : QString
  supportsModel : Probe → ModelSpec → Bool
  devices : Probe → HardwareInfo → Except Exn (List RuntimeDevice)
  estimateMemory : Probe → ModelSpec → Int → Except Exn MemoryEstimate
  load : Probe → ModelSpec → RuntimeDevice → Except Exn (Option RuntimeModel)

/-- `Runtime::estimateMemory`, the default, over the sizes of the files
the path stands for. -/
def defaultEstimate (fileSizes : List UInt64)
    (contextTokens contextSlots : UInt64) : MemoryEstimate :=
  let weights := fileSizes.foldl (· + ·) 0
  { weightsBytes := weights
    contextBytes := contextTokens * contextSlots * 256 * 1024
    overheadBytes := max (256 * 1024 * 1024) (weights / 4)
    basis := qs
      "file sizes + conservative unknown-architecture context reserve" }

/-- 256 KiB. -/
def contextReserve : Nat := 256 * 1024

/-- A reservation that fits 64 bits is the exact product. -/
theorem defaultEstimate_contextBytes (fileSizes : List UInt64)
    {tokens slots : Nat} (h : tokens * slots * contextReserve < 2 ^ 64) :
    (defaultEstimate fileSizes (UInt64.ofNat tokens)
      (UInt64.ofNat slots)).contextBytes.toNat
      = tokens * slots * contextReserve := by
  have h1 : (256 : UInt64).toNat = 256 := rfl
  have h2 : (1024 : UInt64).toNat = 1024 := rfl
  unfold contextReserve at h ⊢
  unfold defaultEstimate
  simp only [UInt64.toNat_mul, UInt64.toNat_ofNat', h1, h2, ← Nat.mul_mod]
  generalize tokens * slots = product at h
  omega

end LocalLLM
