/-
Trees, seen through their positions, and what is blanked out in them.

A tree is the function that says what stands at each path from its root.
`mask b S` puts `b` in the place of whatever stands at a path of `S`; what
was below such a path is gone. Masks compose (`mask_mask`), a mask goes down
into the children (`mask_cons`), and two sets of paths that cover the same
positions of a tree are the same mask of it (`mask_congr`). So one masked
tree is determined by another that masks less (`mask_of_covered`).
-/
import Mathlib

namespace LocalLLM

variable {σ κ : Type}

/-- What stands at each path. -/
abbrev View (σ κ : Type) := List σ → Option κ

/-- What stands somewhere stands below something. -/
def IsTree (o : View σ κ) : Prop :=
  ∀ {p q : List σ}, q <+: p → (o p).isSome = true → (o q).isSome = true

/-- Some path of the set leads to the position or above it. -/
def Covers (S : Set (List σ)) (p : List σ) : Prop := ∃ q ∈ S, q <+: p

/-- Some path of the set leads above the position. -/
def CoversAbove (S : Set (List σ)) (p : List σ) :
    Prop := ∃ q ∈ S, q <+: p ∧ q ≠ p

open Classical in
/-- The tree with `b` at the paths of the set. -/
noncomputable def mask (b : κ) (S : Set (List σ)) (o : View σ κ) :
    View σ κ := fun p =>
  if CoversAbove S p then none
  else if p ∈ S then (o p).map fun _ => b
  else o p

/-- The value is `b` here or above. -/
def Hidden (b : κ) (o : View σ κ) (p : List σ) :
    Prop := ∃ q, q <+: p ∧ o q = some b

-- ================================================================== coverings

/-- A path is covered at its own end or above it. -/
theorem covers_iff {S : Set (List σ)} {p : List σ} :
    Covers S p ↔ p ∈ S ∨ CoversAbove S p := by
  constructor
  · rintro ⟨q, hq, hle⟩
    by_cases heq : q = p
    · exact Or.inl (heq ▸ hq)
    · exact Or.inr ⟨q, hq, hle, heq⟩
  · intro h
    rcases h with h | ⟨q, hq, hle, -⟩
    · exact ⟨p, h, List.prefix_rfl⟩
    · exact ⟨q, hq, hle⟩

/-- Whatever lies below a covered path is covered. -/
theorem Covers.below {S : Set (List σ)} {p q : List σ} (h : Covers S q)
    (hle : q <+: p) : Covers S p := by
  obtain ⟨r, hr, hrq⟩ := h
  exact ⟨r, hr, hrq.trans hle⟩

/-- More marks cover more. -/
theorem Covers.mono {S T : Set (List σ)} (hsub : S ⊆ T) {p : List σ}
    (h : Covers S p) : Covers T p := by
  obtain ⟨q, hq, hle⟩ := h
  exact ⟨q, hsub hq, hle⟩

/-- Of the paths that cover a position, one is the first. -/
theorem Covers.first {S : Set (List σ)} {p : List σ} (h : Covers S p) :
    ∃ q ∈ S, q <+: p ∧ ¬ CoversAbove S q := by
  obtain ⟨q, hq, hle⟩ := h
  induction hn : q.length using Nat.strong_induction_on generalizing q with
  | _ n ih =>
    by_cases habove : CoversAbove S q
    · obtain ⟨r, hr, hrq, hne⟩ := habove
      have hlt : r.length < n := by
        rw [← hn]
        exact lt_of_le_of_ne hrq.length_le fun hlen =>
          hne (hrq.eq_of_length hlen)
      exact ih r.length hlt r hr (hrq.trans hle) rfl
    · exact ⟨q, hq, hle, habove⟩

theorem coversAbove_union {S T : Set (List σ)} {p : List σ} :
    CoversAbove (S ∪ T) p ↔ CoversAbove S p ∨ CoversAbove T p := by
  constructor
  · rintro ⟨q, hq, h⟩
    rcases hq with hq | hq
    · exact Or.inl ⟨q, hq, h⟩
    · exact Or.inr ⟨q, hq, h⟩
  · intro h
    rcases h with ⟨q, hq, h⟩ | ⟨q, hq, h⟩
    · exact ⟨q, Or.inl hq, h⟩
    · exact ⟨q, Or.inr hq, h⟩

/-- The paths of a set that go into one child. -/
def under (s : σ) (S : Set (List σ)) : Set (List σ) := {p | s :: p ∈ S}

theorem coversAbove_nil {S : Set (List σ)} : ¬ CoversAbove S [] := by
  rintro ⟨q, -, hle, hne⟩
  exact hne (List.prefix_nil.1 hle)

/-- One step down, the question is the same for the marks below that step. -/
theorem coversAbove_cons {S : Set (List σ)} {s : σ} {p : List σ} :
    CoversAbove S (s :: p) ↔ [] ∈ S ∨ CoversAbove (under s S) p := by
  constructor
  · rintro ⟨q, hq, hle, hne⟩
    cases q with
    | nil => exact Or.inl hq
    | cons t q =>
        obtain ⟨rfl, hle'⟩ := List.cons_prefix_cons.1 hle
        exact Or.inr ⟨q, hq, hle', fun heq => hne (by rw [heq])⟩
  · intro h
    rcases h with h | ⟨q, hq, hle, hne⟩
    · exact ⟨[], h, List.nil_prefix, List.cons_ne_nil s p |>.symm⟩
    · exact ⟨s :: q, hq, List.cons_prefix_cons.2 ⟨rfl, hle⟩,
        fun heq => hne (List.cons.inj heq).2⟩

-- ====================================================================== masks

variable {b : κ} {S T : Set (List σ)} {o : View σ κ}

/-- Below a mark nothing is seen. -/
theorem mask_above {p : List σ} (h : CoversAbove S p) :
    mask b S o p = none := if_pos h

/-- At a mark the replacement is seen, where there was something to replace. -/
theorem mask_at {p : List σ} (habove : ¬ CoversAbove S p) (h : p ∈ S) :
    mask b S o p = (o p).map fun _ => b := by
  unfold mask
  rw [if_neg habove, if_pos h]

/-- Away from the marks everything is seen as it was. -/
theorem mask_out {p : List σ} (habove : ¬ CoversAbove S p) (h : p ∉ S) :
    mask b S o p = o p := by
  unfold mask
  rw [if_neg habove, if_neg h]

theorem mask_off {p : List σ} (h : ¬ Covers S p) : mask b S o p = o p := by
  rw [covers_iff, not_or] at h
  exact mask_out h.2 h.1

@[simp] theorem mask_empty : mask b ∅ o = o := by
  funext p
  exact mask_off fun ⟨_, hq, _⟩ => hq

theorem mask_root (h : [] ∉ S) : mask b S o [] = o [] :=
  mask_out coversAbove_nil h

/-- Below a root that stays, a mask is a mask of each child. -/
theorem mask_cons (h : [] ∉ S) (s : σ) (p : List σ) :
    mask b S o (s :: p) = mask b (under s S) (fun q => o (s :: q)) p := by
  have habove : CoversAbove S (s :: p) ↔ CoversAbove (under s S) p := by
    rw [coversAbove_cons, or_iff_right h]
  by_cases hS : CoversAbove S (s :: p)
  · rw [mask_above hS, mask_above (habove.1 hS)]
  · have hunder : ¬ CoversAbove (under s S) p := fun h => hS (habove.2 h)
    by_cases hp : s :: p ∈ S
    · rw [mask_at hS hp, mask_at hunder hp]
    · rw [mask_out hS hp, mask_out hunder hp]

/-- One mask after another. -/
theorem mask_mask : mask b S (mask b T o) = mask b (S ∪ T) o := by
  funext p
  by_cases hS : CoversAbove S p
  · rw [mask_above hS, mask_above (coversAbove_union.2 (Or.inl hS))]
  · by_cases hT : CoversAbove T p
    · rw [mask_above (coversAbove_union.2 (Or.inr hT))]
      by_cases hp : p ∈ S
      · rw [mask_at hS hp, mask_above hT]
        rfl
      · rw [mask_out hS hp, mask_above hT]
    · have hunion : ¬ CoversAbove (S ∪ T) p := by
        rw [coversAbove_union]
        exact not_or.2 ⟨hS, hT⟩
      by_cases hp : p ∈ S
      · rw [mask_at hS hp, mask_at hunion (Or.inl hp)]
        by_cases hq : p ∈ T
        · rw [mask_at hT hq, Option.map_map]
          rfl
        · rw [mask_out hT hq]
      · rw [mask_out hS hp]
        by_cases hq : p ∈ T
        · rw [mask_at hT hq, mask_at hunion (Or.inr hq)]
        · rw [mask_out hT hq, mask_out hunion fun h => h.elim hp hq]

/-- What covers the same positions of a tree is the same mask of it. -/
theorem mask_congr (ho : IsTree o)
    (h : ∀ p, (o p).isSome = true → (Covers S p ↔ Covers T p)) :
    mask b S o = mask b T o := by
  have hnone : ∀ {R : Set (List σ)} {p}, o p = none → mask b R o p = none := by
    intro R p hp
    unfold mask
    split
    · rfl
    · split
      · rw [hp]
        rfl
      · exact hp
  -- above a position that exists, the two sets cover the same
  have habove : ∀ {R R' : Set (List σ)} {p}, (o p).isSome = true →
      (∀ p, (o p).isSome = true → Covers R p → Covers R' p) → CoversAbove R p →
      CoversAbove R' p := by
    intro R R' p hp hsub hR
    obtain ⟨q, hq, hle, hne⟩ := hR
    obtain ⟨r, hr, hrq⟩ := hsub q (ho hle hp) ⟨q, hq, List.prefix_rfl⟩
    refine ⟨r, hr, hrq.trans hle, fun heq => hne ?_⟩
    subst heq
    exact hle.eq_of_length_le hrq.length_le
  funext p
  cases hp : o p with
  | none => rw [hnone hp, hnone hp]
  | some k =>
      have hsome : (o p).isSome = true := by rw [hp]; rfl
      have hiff : CoversAbove S p ↔ CoversAbove T p :=
        ⟨habove hsome fun p hp => (h p hp).1,
          habove hsome fun p hp => (h p hp).2⟩
      by_cases hS : CoversAbove S p
      · rw [mask_above hS, mask_above (hiff.1 hS)]
      · have hT : ¬ CoversAbove T p := fun hT => hS (hiff.2 hT)
        have hmem : p ∈ S ↔ p ∈ T := by
          have hcovers := h p hsome
          rw [covers_iff, covers_iff, or_iff_left hS,
            or_iff_left hT] at hcovers
          exact hcovers
        by_cases hp : p ∈ S
        · rw [mask_at hS hp, mask_at hT (hmem.1 hp)]
        · rw [mask_out hS hp, mask_out hT fun h => hp (hmem.2 h)]

/-- Where a set covers all that another does, its mask sees the
other's mask only. -/
theorem mask_of_covered (ho : IsTree o)
    (h : ∀ p ∈ T, (o p).isSome = true → Covers S p) :
    mask b S (mask b T o) = mask b S o := by
  rw [mask_mask]
  refine mask_congr ho fun p hp =>
    ⟨fun hcovers => ?_, Covers.mono Set.subset_union_left⟩
  obtain ⟨q, hq, hle⟩ := hcovers
  rcases hq with hq | hq
  · exact ⟨q, hq, hle⟩
  · exact (h q hq (ho hle hp)).below hle

/-- What is hidden behind a mask. -/
theorem hidden_mask (ho : IsTree o) {p : List σ} (hp : (o p).isSome = true) :
    Hidden b (mask b S o) p ↔ Covers S p ∨ Hidden b o p := by
  have hcovered : ∀ {q}, q <+: p → Covers S q → Hidden b (mask b S o) p := by
    intro q hle hcovers
    obtain ⟨r, hr, hrq, hfirst⟩ := hcovers.first
    obtain ⟨k, hk⟩ := Option.isSome_iff_exists.1 (ho (hrq.trans hle) hp)
    refine ⟨r, hrq.trans hle, ?_⟩
    rw [mask_at hfirst hr, hk]
    rfl
  constructor
  · rintro ⟨q, hle, hq⟩
    by_cases hcovers : Covers S q
    · exact Or.inl (hcovers.below hle)
    · rw [mask_off hcovers] at hq
      exact Or.inr ⟨q, hle, hq⟩
  · intro h
    rcases h with h | ⟨q, hle, hq⟩
    · exact hcovered List.prefix_rfl h
    · by_cases hcovers : Covers S q
      · exact hcovered hle hcovers
      · exact ⟨q, hle, (mask_off hcovers).trans hq⟩

end LocalLLM
