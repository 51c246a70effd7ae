/-
What is fixed while a service lives: its checked options, the hardware it
detected, its alias table, and the functions of Qt and of the directory on
disk that it calls.

`Config.Honest` collects what the service relies on in those functions: a
UUID is fresh, not empty and free of colons.
Nothing is asked of the digest, of the JSON parser and printer or of the
checks of generation options and native content.
-/
import LocalLLM.Models.ModelManifest
import LocalLLM.Service.ModelResidencyManager

namespace LocalLLM

structure Config where
  options : CheckedOptions
  hardware : HardwareInfo
  registry : ModelRegistry
  catalog : ModelCatalog
  /-- `QFileInfo::exists`. -/
  fileExists : Probe → QString → Bool
  /-- `QUuid::createUuid().toString(WithoutBraces)`, by draw. -/
  uuid : Nat → QString
  /-- The hexadecimal SHA-256 of a text in UTF-8. -/
  sha256Hex : QString → QString
  /-- `QJsonDocument::fromJson` of a text in UTF-8; `none` is an error. -/
  fromJson : QString → Option Json
  /-- `QJsonDocument(...).toJson(Compact)` as text. -/
  toJson : JsonObject → QString
  /-- `validateGenerationOptions(options)`. -/
  validateGenerationOptions : GenerationOptions → Except Exn Unit
  /-- `nativeContent(content, maxCharacters)`. -/
  nativeContent : List Json → Int → Except Exn (List Json)

namespace Config

variable (c : Config)

def maxModels : Nat := c.options.val.maxModels.toInt.toNat

def maxSessions : Nat := c.options.val.maxSessions.toInt.toNat

def maxCachedContexts : Int := c.options.val.maxCachedContexts.toInt

def maxCachedContextTokens : Int := c.options.val.maxCachedContextTokens.toInt

def maxInputCharacters : Int := c.options.val.maxInputCharacters.toInt

def defaultContextTokens : Int := c.options.val.defaultContextTokens.toInt

/-- The policy `residency_` is constructed with. -/
def policy : ResidencyPolicy := ResidencyPolicy.ofOptions c.options c.hardware

/-- The contexts the memory of a model is estimated for:
`min(maxCachedContexts, maxCachedContextTokens / context)`. -/
def contextSlots (context : Int) : Int :=
  min c.maxCachedContexts (c.maxCachedContextTokens / context)

/-- What is asked of the functions outside. -/
structure Honest : Prop where
  uuid_fresh : ∀ i j, c.uuid i = c.uuid j → i = j
  uuid_ne_nil : ∀ i, c.uuid i ≠ []
  uuid_no_colon : ∀ i, qc ':' ∉ c.uuid i

theorem one_le_maxCachedContexts : 1 ≤ c.maxCachedContexts :=
  c.options.property.2.2.2.1

theorem two_le_maxCachedContextTokens : 2 ≤ c.maxCachedContextTokens :=
  c.options.property.2.2.2.2.1

/-- A model's own keep-alive is never negative. -/
theorem policy_keepAlive_nonneg : 0 ≤ c.policy.keepAlive := by
  unfold policy ResidencyPolicy.ofOptions
  simp only
  split
  · split <;> omega
  · omega

/-- A context that the cache admits leaves room for at least one. -/
theorem one_le_contextSlots {context : Int} (hpos : 0 < context)
    (hfit : context ≤ c.maxCachedContextTokens) :
    1 ≤ c.contextSlots context := by
  unfold contextSlots
  have hone : 1 ≤ c.maxCachedContextTokens / context := by
    rw [Int.le_ediv_iff_mul_le hpos]
    omega
  exact le_min c.one_le_maxCachedContexts hone

/-- The tokens of all slots together stay within the cache budget. -/
theorem mul_contextSlots_le {context : Int} (hpos : 0 < context) :
    context * c.contextSlots context ≤ c.maxCachedContextTokens := by
  have hslots : c.contextSlots context ≤ c.maxCachedContextTokens / context :=
    min_le_right _ _
  calc context * c.contextSlots context
      ≤ context * (c.maxCachedContextTokens / context) :=
        Int.mul_le_mul_of_nonneg_left hslots (by omega)
    _ ≤ c.maxCachedContextTokens := Int.mul_ediv_self_le (by omega)

end Config

end LocalLLM
