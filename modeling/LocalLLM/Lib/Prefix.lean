/-
How far two lists agree.

`agree as bs` is the length of their longest common beginning. A beginning
of one of them that is no longer than that is a beginning of the other
(`take_of_le_agree`).
-/
import Mathlib

namespace LocalLLM.Prefix

variable {α : Type} [DecidableEq α]

/-- The length of the longest common beginning. -/
def agree : List α → List α → Nat
  | a :: as, b :: bs => if a = b then agree as bs + 1 else 0
  | _, _ => 0

theorem agree_le_left (as bs : List α) : agree as bs ≤ as.length := by
  induction as generalizing bs with
  | nil => exact Nat.le_refl _
  | cons a as ih =>
      cases bs with
      | nil => exact Nat.zero_le _
      | cons b bs =>
          unfold agree
          split
          · exact Nat.succ_le_succ (ih bs)
          · exact Nat.zero_le _

theorem agree_le_right (as bs : List α) : agree as bs ≤ bs.length := by
  induction as generalizing bs with
  | nil => exact Nat.zero_le _
  | cons a as ih =>
      cases bs with
      | nil => exact Nat.le_refl _
      | cons b bs =>
          unfold agree
          split
          · exact Nat.succ_le_succ (ih bs)
          · exact Nat.zero_le _

/-- As far as they agree, they are the same. -/
theorem take_of_le_agree {as bs : List α} {n : Nat} (h : n ≤ agree as bs) :
    as.take n = bs.take n := by
  induction n generalizing as bs with
  | zero => rfl
  | succ n ih =>
      cases as with
      | nil => cases h
      | cons a as =>
          cases bs with
          | nil => cases h
          | cons b bs =>
              unfold agree at h
              split at h
              next hab =>
                rw [List.take_succ_cons, List.take_succ_cons, hab,
                  ih (Nat.le_of_succ_le_succ h)]
              next => cases h

end LocalLLM.Prefix
