/-
The repair of the tool example in a chat template
(`runtimes/ToolTemplate.h`): some templates have its braces twice.

The loop looks for the malformed example, puts the corrected one in its
place, and looks on behind what it has put there.
-/
import LocalLLM.Runtimes.LlamaMedia

namespace LocalLLM

/-- The example with its braces twice. -/
def malformed : Bytes := asciiBytes
  "\x7b\x7b\\\"name\\\": <function-name>, \\\"arguments\\\": <args-json-object>\x7d\x7d"

/-- The example. -/
def corrected : Bytes := asciiBytes
  "\x7b\\\"name\\\": <function-name>, \\\"arguments\\\": <args-json-object>\x7d"

/-- What is found lies between the start and the end. -/
theorem find_malformed {value : Bytes} {start at_ : Nat}
    (h : value.find malformed start = some at_) :
    start ≤ at_ ∧ at_ + malformed.length ≤ value.length := by
  unfold Bytes.find at h
  by_cases hlength : value.length < start
  · rw [if_pos hlength] at h
    cases h
  · rw [if_neg hlength] at h
    obtain ⟨hle, hoccurs, -⟩ := Search.firstFrom_eq_some.1 h
    exact ⟨hle, hoccurs.le_length (by decide)⟩

/-- The loop of `normalizedToolTemplate`, from `start` on. -/
def repairFrom (value : Bytes) (start : Nat) : Bytes :=
  match h : value.find malformed start with
  | none => value
  | some at_ =>
      have := find_malformed h
      repairFrom (value.take at_ ++ corrected
        ++ value.drop (at_ + malformed.length))
        (at_ + corrected.length)
termination_by value.length - start
decreasing_by
  have hshorter : corrected.length < malformed.length := by decide
  simp only [List.length_append, List.length_take, List.length_drop]
  omega

/-- `normalizedToolTemplate`. -/
def normalizedToolTemplate (value : Bytes) : Bytes := repairFrom value 0

end LocalLLM
