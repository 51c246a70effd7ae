/-
Operations performed one after the other.

A record keeps the key of an operation, its input and its output. `Replays
perform s records t` says that performing the inputs of the records in
order, from `s`, gives their outputs and ends in `t`: what a machine with
many threads shows of an object is then what the object does alone.

The state and every output are determined by the inputs
(`Replays.state_eq`, `Replays.output_eq`), and a record is added at the end
(`Replays.snoc`).
-/
import Mathlib

namespace LocalLLM.Serial

variable {κ σ ι ο : Type}

/-- A performed operation. -/
structure Record (κ ι ο : Type) where
  key : κ
  input : ι
  output : ο

/-- The records are what the operations give, from one state to another. -/
inductive Replays (perform : ι → σ → ο × σ) :
    σ → List (Record κ ι ο) → σ → Prop
  | nil (s : σ) : Replays perform s [] s
  | cons (key : κ) (input : ι) {s t : σ} {rest : List (Record κ ι ο)}
      (h : Replays perform (perform input s).2 rest t) :
      Replays perform s (⟨key, input, (perform input s).1⟩ :: rest) t

/-- The state after the inputs. -/
def after (perform : ι → σ → ο × σ) (s : σ) (inputs : List ι) : σ :=
  inputs.foldl (fun s input => (perform input s).2) s

variable {perform : ι → σ → ο × σ} {s t : σ} {records : List (Record κ ι ο)}

/-- One more operation. -/
theorem Replays.snoc (h : Replays perform s records t) (key : κ) (input : ι) :
    Replays perform s (records ++ [⟨key, input, (perform input t).1⟩])
      (perform input t).2 := by
  induction h with
  | nil s => exact .cons key input (.nil _)
  | cons key' input' _ ih => exact .cons key' input' ih

theorem Replays.state_eq (h : Replays perform s records t) :
    t = after perform s (records.map Record.input) := by
  induction h with
  | nil s => rfl
  | cons key input _ ih => exact ih

/-- A record between others has the output its input gives behind them. -/
theorem Replays.output_eq {before rest : List (Record κ ι ο)}
    {r : Record κ ι ο} (h : Replays perform s (before ++ r :: rest) t) :
    r.output
      = (perform r.input (after perform s (before.map Record.input))).1 := by
  induction before generalizing s with
  | nil =>
      cases h with
      | cons key input h => rfl
  | cons first before ih =>
      cases h with
      | cons key input h => exact ih h

/-- What performing keeps, holds at the end. -/
theorem Replays.invariant {I : σ → Prop} (h : Replays perform s records t)
    (hstep : ∀ input s, I s → I (perform input s).2) (hs : I s) : I t := by
  induction h with
  | nil s => exact hs
  | cons key input _ ih => exact ih (hstep input _ hs)

end LocalLLM.Serial
