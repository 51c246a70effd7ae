/-
Memory estimates (`hardware/Memory.cpp`): three 64-bit parts whose sum is
checked for overflow before it is taken.

`totalBytes_eq` states what the check is worth: the sum is the exact one
whenever the estimate is not refused.
-/
import LocalLLM.Core.Types

namespace LocalLLM

structure MemoryEstimate where
  weightsBytes : UInt64 := 0
  contextBytes : UInt64 := 0
  overheadBytes : UInt64 := 0
  basis : QString := []
deriving DecidableEq

namespace MemoryEstimate

/-- The largest 64-bit number. -/
def maxBytes : Nat := 2 ^ 64 - 1

/-- `MemoryEstimate::totalBytes`. The differences of the checks are exact:
the second one is reached only when the first two parts fit. -/
def totalBytes (e : MemoryEstimate) : Except Exn UInt64 :=
  if maxBytes - e.weightsBytes.toNat < e.contextBytes.toNat
      ∨ maxBytes - e.weightsBytes.toNat - e.contextBytes.toNat
        < e.overheadBytes.toNat then
    .error (err .ResourceLimit "Model memory estimate overflows")
  else .ok (e.weightsBytes + e.contextBytes + e.overheadBytes)

/-- The three parts summed as natural numbers. -/
def exactBytes (e : MemoryEstimate) : Nat :=
  e.weightsBytes.toNat + e.contextBytes.toNat + e.overheadBytes.toNat

/-- An estimate is refused exactly when its sum needs more than 64 bits,
and the sum that is returned is the exact one. -/
theorem totalBytes_eq (e : MemoryEstimate) :
    e.totalBytes = if e.exactBytes < 2 ^ 64
      then .ok (UInt64.ofNat e.exactBytes)
      else .error (err .ResourceLimit "Model memory estimate overflows") := by
  obtain ⟨w, c, o, b⟩ := e
  have hw := w.toNat_lt
  have hc := c.toNat_lt
  have ho := o.toNat_lt
  unfold totalBytes exactBytes maxBytes
  dsimp only
  by_cases hall : w.toNat + c.toNat + o.toNat < 2 ^ 64
  · have hsum : w + c + o = UInt64.ofNat (w.toNat + c.toNat + o.toNat) := by
      apply UInt64.toNat_inj.1
      simp only [UInt64.toNat_add, UInt64.toNat_ofNat']
      omega
    rw [if_neg (by omega), if_pos hall, hsum]
  · rw [if_pos (by omega), if_neg hall]

theorem totalBytes_ok {e : MemoryEstimate} {n : UInt64}
    (h : e.totalBytes = .ok n) : n.toNat = e.exactBytes := by
  rw [totalBytes_eq] at h
  split at h
  next hlt =>
    injection h with h
    rw [← h, UInt64.toNat_ofNat']
    omega
  next => cases h

end MemoryEstimate

end LocalLLM
