/-
Sorting by a comparison function.

A sort hands back a permutation in which no element stands behind one that
is smaller; which of several such permutations is left open. Where the
comparison ties no two elements of the list there is only one, and it is
strictly increasing.
-/
import Mathlib

namespace LocalLLM

open Std

namespace Sorting

variable {α : Type} {cmp : α → α → Ordering}

/-- No element stands behind a smaller one. -/
def Sorted (cmp : α → α → Ordering) (l : List α) : Prop :=
  l.Pairwise fun a b => cmp b a ≠ .lt

/-- The comparison ties no two elements of the list. -/
def Strict (cmp : α → α → Ordering) (l : List α) : Prop :=
  ∀ a ∈ l, ∀ b ∈ l, cmp a b = .eq → a = b

theorem ne_lt_iff [OrientedCmp cmp] {a b : α} :
    cmp b a ≠ .lt ↔ (cmp a b).isLE := by
  have hswap : cmp b a = (cmp a b).swap := OrientedCmp.eq_swap
  rw [hswap]
  cases cmp a b <;> simp

theorem sorted_insertionSort [TransCmp cmp]
    {r : α → α → Prop} [DecidableRel r] (hr : ∀ a b, r a b ↔ cmp b a ≠ .lt)
    (l : List α) : Sorted cmp (l.insertionSort r) := by
  have htotal : Std.Total r := ⟨fun a b => by
    have hswap : cmp b a = (cmp a b).swap := OrientedCmp.eq_swap
    rw [hr, hr, hswap]
    cases cmp a b <;> simp⟩
  have htrans : IsTrans α r := ⟨fun a b c hab hbc => by
    rw [hr, ne_lt_iff] at *
    exact TransCmp.isLE_trans hab hbc⟩
  exact (List.pairwise_insertionSort r l).imp fun h => (hr _ _).1 h

/-- Without ties and without repetitions a sorted list is strictly
increasing. -/
theorem Sorted.increasing [OrientedCmp cmp] {l : List α}
    (hsorted : Sorted cmp l) (hnodup : l.Nodup) (hstrict : Strict cmp l) :
    l.Pairwise fun a b => cmp a b = .lt := by
  refine (hsorted.and hnodup).imp_of_mem fun {a b} ha hb hab => ?_
  have hle := ne_lt_iff.1 hab.1
  cases hcmp : cmp a b with
  | lt => rfl
  | eq => exact absurd (hstrict a ha b hb hcmp) hab.2
  | gt => simp [hcmp] at hle

/-- A strictly increasing list is determined by its members. -/
theorem increasing_unique [TransCmp cmp] {l l' : List α}
    (h : l.Pairwise fun a b => cmp a b = .lt)
    (h' : l'.Pairwise fun a b => cmp a b = .lt) (hsame : ∀ a, a ∈ l ↔ a ∈ l') :
    l = l' := by
  have hirrefl : Std.Irrefl fun a b => cmp a b = .lt := ⟨fun a hlt => by
    have hrefl : cmp a a = .eq := ReflCmp.compare_self
    simp [hrefl] at hlt⟩
  have hantisymm : Std.Antisymm fun a b => cmp a b = .lt :=
      ⟨fun a b hab hba => by
    have hswap : cmp b a = (cmp a b).swap := OrientedCmp.eq_swap
    simp [hab, hba] at hswap⟩
  exact List.Pairwise.eq_of_mem_iff h h' hsame

/-- Any sort of a list whose elements never tie gives the same result. -/
theorem sorted_unique [TransCmp cmp] {l l' : List α} (hperm : l'.Perm l)
    (hnodup : l.Nodup) (hstrict : Strict cmp l) (h : Sorted cmp l)
    (h' : Sorted cmp l') : l' = l := by
  have hstrict' : Strict cmp l' := fun a ha b hb =>
    hstrict a (hperm.mem_iff.1 ha) b (hperm.mem_iff.1 hb)
  exact increasing_unique
    (h'.increasing (hperm.nodup_iff.2 hnodup) hstrict')
    (h.increasing hnodup hstrict) fun a => hperm.mem_iff

end Sorting

end LocalLLM
