/-
The generation options as a document (`core/Parameters.cpp`), and the group
they are checked with (`native_group` of
`scripts/native_parameter_bindings.py`).

The writer and the reader name the sixteen fields one by one, and the bounds
are in the schemas of the group. A decimal literal stands for the double it
is read as, in the options and in the schemas alike.
-/
import LocalLLM.Core.ParameterObject

namespace LocalLLM

open Json

-- ================================================================= the group

/-- `type=integer`, with a minimum and a maximum. -/
def integerSchema (minimum maximum : Int) : JsonObject :=
  [(qs "maximum", jsonInt maximum), (qs "minimum", jsonInt minimum),
    (qs "type", .string (qs "integer"))]

/-- `type=number`, with a minimum and a maximum. -/
def numberSchema (minimum maximum : ℚ) : JsonObject :=
  [(qs "maximum", .number (.finite maximum)),
    (qs "minimum", .number (.finite minimum)),
    (qs "type", .string (qs "number"))]

/-- `type=number`, with an exclusive minimum and a maximum. -/
def aboveSchema (minimum maximum : ℚ) : JsonObject :=
  [(qs "exclusiveMinimum", .number (.finite minimum)),
    (qs "maximum", .number (.finite maximum)),
    (qs "type", .string (qs "number"))]

/-- The schema of one stop string. -/
def stopSchema : JsonObject :=
  [(qs "maxLength", jsonInt 1024), (qs "minLength", jsonInt 1),
    (qs "type", .string (qs "string"))]

/-- The schema of the stop strings. -/
def stopsSchema : JsonObject :=
  [(qs "items", .object stopSchema), (qs "maxItems", jsonInt 16),
    (qs "type", .string (qs "array"))]

/-- The schema of the biases, by token. -/
def biasesSchema : JsonObject :=
  [(qs "additionalProperties", .object (numberSchema (-100) 100)),
    (qs "type", .string (qs "object"))]

/-- `add`. -/
def nativeField (name nativeType : String) (default : Json)
    (schema : JsonObject) : ParameterDefinition where
  name := qs name
  nativeType := qs nativeType
  schema := schema
  defaultValue := some default

/-- `native_group`. -/
def nativeGroup : ParameterGroupDefinition where
  id := qs "iiLocalLLM.GenerationOptions"
  parameters :=
    [nativeField "max_tokens" "int" (jsonInt 256) (integerSchema 1 1048576),
     nativeField "temperature" "double" (.number (.finite (7 / 10)))
       (numberSchema 0 10),
     nativeField "top_p" "double" (.number (.finite (9 / 10)))
       (aboveSchema 0 1),
     nativeField "top_k" "int" (jsonInt 40) (integerSchema 0 1000000),
     nativeField "seed" "quint32" (jsonInt 0) (integerSchema 0 4294967295),
     nativeField "stop" "QStringList" (.array []) stopsSchema,
     nativeField "min_p" "double" (jsonInt 0) (numberSchema 0 1),
     nativeField "typical_p" "double" (jsonInt 1) (aboveSchema 0 1),
     nativeField "min_keep" "int" (jsonInt 1) (integerSchema 1 1048576),
     nativeField "repetition_penalty" "double" (jsonInt 1) (aboveSchema 0 100),
     nativeField "repetition_context_size" "int" (jsonInt 64)
       (integerSchema (-1) 1048576),
     nativeField "presence_penalty" "double" (jsonInt 0) (numberSchema (-2) 2),
     nativeField "frequency_penalty" "double" (jsonInt 0)
       (numberSchema (-2) 2),
     nativeField "xtc_probability" "double" (jsonInt 0) (numberSchema 0 1),
     nativeField "xtc_threshold" "double" (.number (.finite (1 / 10)))
       (numberSchema 0 (1 / 2)),
     nativeField "logit_bias" "QJsonObject" (.object []) biasesSchema]

-- ================================================================= the codec

/-- The members of a document, in the order they are named. -/
def optionMembers (o : GenerationOptions) : List (QString × Json) :=
  [(qs "max_tokens", jsonInt o.maxTokens),
   (qs "temperature", .number o.temperature),
   (qs "top_p", .number o.topP),
   (qs "top_k", jsonInt o.topK),
   (qs "seed", jsonInt o.seed.toNat),
   (qs "stop", .array (o.stop.map .string)),
   (qs "min_p", .number o.minP),
   (qs "typical_p", .number o.typicalP),
   (qs "min_keep", jsonInt o.minKeep),
   (qs "repetition_penalty", .number o.repetitionPenalty),
   (qs "repetition_context_size", jsonInt o.repetitionContextSize),
   (qs "presence_penalty", .number o.presencePenalty),
   (qs "frequency_penalty", .number o.frequencyPenalty),
   (qs "xtc_probability", .number o.xtcProbability),
   (qs "xtc_threshold", .number o.xtcThreshold),
   (qs "logit_bias", .object o.logitBias)]

/-- `generationOptionsToJson`. -/
def generationOptionsToJson (o : GenerationOptions) :
    JsonObject := ofMembers (optionMembers o)

/-- Whether a key of `logit_bias` is a token id, written as
`number` writes it. -/
def isTokenKey (key : QString) : Bool :=
  match QString.toLongLong key with
  | none => false
  | some id => 0 ≤ id && id ≤ 2 ^ 31 - 1 && QString.number id == key

section Operations

variable (C : ParameterCatalog) (t : Patterns)

/-- `generationOptionsFromJson`. -/
def generationOptionsFromJson (values : JsonObject) :
    Except Exn GenerationOptions := do
  let p ← ParameterObject.fromNativeJson C t
    (qs "iiLocalLLM.GenerationOptions") values
  let maxTokens ← p.value C (qs "max_tokens")
  let temperature ← p.value C (qs "temperature")
  let topP ← p.value C (qs "top_p")
  let topK ← p.value C (qs "top_k")
  let seed ← p.value C (qs "seed")
  let stop ← p.value C (qs "stop")
  let minP ← p.value C (qs "min_p")
  let typicalP ← p.value C (qs "typical_p")
  let minKeep ← p.value C (qs "min_keep")
  let repetitionPenalty ← p.value C (qs "repetition_penalty")
  let repetitionContextSize ← p.value C (qs "repetition_context_size")
  let presencePenalty ← p.value C (qs "presence_penalty")
  let frequencyPenalty ← p.value C (qs "frequency_penalty")
  let xtcProbability ← p.value C (qs "xtc_probability")
  let xtcThreshold ← p.value C (qs "xtc_threshold")
  let logitBias ← p.value C (qs "logit_bias")
  let o : GenerationOptions :=
    { maxTokens := toInt maxTokens
      temperature := toDouble (.finite 0) temperature
      topP := toDouble (.finite 0) topP
      topK := toInt topK
      seed := UInt32.ofInt (toInteger seed)
      stop := (toArray stop).map fun item => toText (some item)
      minP := toDouble (.finite 0) minP
      typicalP := toDouble (.finite 0) typicalP
      minKeep := toInt minKeep
      repetitionPenalty := toDouble (.finite 0) repetitionPenalty
      repetitionContextSize := toInt repetitionContextSize
      presencePenalty := toDouble (.finite 0) presencePenalty
      frequencyPenalty := toDouble (.finite 0) frequencyPenalty
      xtcProbability := toDouble (.finite 0) xtcProbability
      xtcThreshold := toDouble (.finite 0) xtcThreshold
      logitBias := toObject logitBias }
  each (fun m => orFail (isTokenKey m.1 = true)
    (qs "logit_bias keys must be canonical non-negative int32 token IDs"))
      o.logitBias
  return o

/-- `validateGenerationOptions`. -/
def validateGenerationOptions (options : GenerationOptions)
    (runtime : QString) :
    Except Exn Unit := do
  let _ ← generationOptionsFromJson C t (generationOptionsToJson options)
  orFail (runtime = [] ∨ runtime = qs "llama.cpp" ∨ runtime = qs "mlx")
    (qs "Unknown generation runtime: " ++ runtime)
  if runtime = qs "mlx" ∧ options.typicalP ≠ .finite 1 then
    throw (.error ⟨.RuntimeUnavailable,
      qs "MLX does not support typical_p; use 1 to disable it"⟩)

end Operations

end LocalLLM
