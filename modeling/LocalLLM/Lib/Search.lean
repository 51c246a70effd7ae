/-
Searching a list for patterns.

# Occurrences

`Occurs p t i` says that `p` starts at position `i` of `t`, and
`Starts ps t i` that one of `ps` does. An occurrence in a list is one in
every extension of it (`Occurs.append_right`); an occurrence in an
extension that does not end within the list has a proper beginning at the
list's end (`Occurs.overhang`).

# The first start

`firstStart ps t` is the least position at which one of `ps` starts, and
`before ps t` is the part of `t` in front of it, or all of `t`. `firstFrom`
looks for one pattern from a position on.
-/
import Mathlib

namespace LocalLLM.Search

variable {α : Type}

-- ============================================================== occurrences

/-- The pattern `p` starts at position `i` of `t`. -/
def Occurs (p t : List α) (i : Nat) : Prop := p <+: t.drop i

/-- One of the patterns starts at position `i` of `t`. -/
def Starts (ps : List (List α)) (t : List α) (i : Nat) : Prop :=
  ∃ p ∈ ps, Occurs p t i

/-- A pattern that is not empty ends within the list. -/
theorem Occurs.le_length {p t : List α} {i : Nat} (h : Occurs p t i)
    (hp : p ≠ []) : i + p.length ≤ t.length := by
  have hle := h.length_le
  have hpos := List.length_pos_iff.2 hp
  rw [List.length_drop] at hle
  omega

theorem Occurs.lt_length {p t : List α} {i : Nat} (h : Occurs p t i)
    (hp : p ≠ []) : i < t.length := by
  have hle := h.le_length hp
  have hpos := List.length_pos_iff.2 hp
  omega

/-- An occurrence stays one when the list goes on. -/
theorem Occurs.append_right {p t : List α} {i : Nat} (h : Occurs p t i)
    (hp : p ≠ []) (u : List α) : Occurs p (t ++ u) i := by
  have hlt := h.lt_length hp
  unfold Occurs at h ⊢
  rw [List.drop_append_of_le_length (by omega)]
  exact h.trans (List.prefix_append _ _)

/-- An occurrence that ends within a beginning of the list is one in that
beginning. -/
theorem Occurs.of_append {p t u : List α} {i : Nat} (h : Occurs p (t ++ u) i)
    (hle : i + p.length ≤ t.length) : Occurs p t i := by
  unfold Occurs at h ⊢
  rw [List.drop_append_of_le_length (by omega)] at h
  refine List.prefix_of_prefix_length_le h (List.prefix_append _ _) ?_
  rw [List.length_drop]
  omega

/-- Positions count from the start of the list. -/
theorem occurs_append_left {p s t : List α} {i : Nat} :
    Occurs p (s ++ t) (s.length + i) ↔ Occurs p t i := by
  unfold Occurs
  rw [← List.drop_drop, List.drop_left]

/-- An occurrence that starts in `t` and ends beyond it: what is left of
`t` is a proper beginning of the pattern. -/
theorem Occurs.overhang {p t u : List α} {i : Nat} (h : Occurs p (t ++ u) i)
    (hi : i ≤ t.length) (hlt : t.length < i + p.length) :
    t.drop i = p.take (t.length - i) := by
  unfold Occurs at h
  rw [List.drop_append_of_le_length hi] at h
  have hprefix : t.drop i <+: p := by
    refine List.prefix_of_prefix_length_le (List.prefix_append _ _) h ?_
    rw [List.length_drop]
    omega
  have htake := List.prefix_iff_eq_take.1 hprefix
  rw [List.length_drop] at htake
  exact htake

/-- A substring is an occurrence somewhere. -/
theorem infix_iff_occurs {p t : List α} : p <:+: t ↔ ∃ i, Occurs p t i := by
  constructor
  · intro h
    obtain ⟨a, b, hab⟩ := h
    refine ⟨a.length, ?_⟩
    unfold Occurs
    rw [← hab, List.append_assoc, List.drop_left]
    exact List.prefix_append _ _
  · intro h
    obtain ⟨i, hi⟩ := h
    exact hi.isInfix.trans (List.drop_suffix i t).isInfix

theorem Starts.append_right {ps : List (List α)} {t : List α} {i : Nat}
    (h : Starts ps t i) (hps : ∀ p ∈ ps, p ≠ []) (u : List α) :
    Starts ps (t ++ u) i := by
  obtain ⟨p, hp, hocc⟩ := h
  exact ⟨p, hp, hocc.append_right (hps p hp) u⟩

theorem starts_append_left {ps : List (List α)} {s t : List α} {i : Nat} :
    Starts ps (s ++ t) (s.length + i) ↔ Starts ps t i := by
  unfold Starts
  simp only [occurs_append_left]

theorem starts_succ {ps : List (List α)} {a : α} {t : List α} {i : Nat} :
    Starts ps (a :: t) (i + 1) ↔ Starts ps t i := by
  unfold Starts Occurs
  simp

/-- An occurrence in an extension is one in the list, or a pattern has what
is left of the list as a beginning. -/
theorem Starts.of_append {ps : List (List α)} {t u : List α} {i : Nat}
    (h : Starts ps (t ++ u) i) (hi : i ≤ t.length) :
    Starts ps t i ∨ ∃ p ∈ ps, t.drop i <+: p := by
  obtain ⟨p, hp, hocc⟩ := h
  by_cases hle : i + p.length ≤ t.length
  · exact Or.inl ⟨p, hp, hocc.of_append hle⟩
  · refine Or.inr ⟨p, hp, ?_⟩
    rw [hocc.overhang hi (by omega)]
    exact List.take_prefix _ _

-- ============================================================ the first start

variable [DecidableEq α]

/-- The least position at which one of the patterns starts. -/
def firstStart (ps : List (List α)) (t : List α) : Option Nat :=
  if ps.any fun p => p.isPrefixOf t then some 0
  else match t with
    | [] => none
    | _ :: rest => (firstStart ps rest).map (· + 1)

/-- The list up to the first start of a pattern. -/
def before (ps : List (List α)) (t : List α) : List α :=
  match firstStart ps t with
  | some i => t.take i
  | none => t

theorem any_isPrefixOf {ps : List (List α)} {t : List α} :
    (ps.any fun p => p.isPrefixOf t) = true ↔ Starts ps t 0 := by
  unfold Starts Occurs
  simp [List.any_eq_true]

/-- A position is the first start when a pattern starts there and none
starts before it. -/
theorem firstStart_eq_some {ps : List (List α)} {t : List α} {i : Nat} :
    firstStart ps t = some i
      ↔ Starts ps t i ∧ ∀ j < i, ¬ Starts ps t j := by
  induction t generalizing i with
  | nil =>
      unfold firstStart
      by_cases h : Starts ps ([] : List α) 0
      · rw [if_pos (any_isPrefixOf.2 h)]
        constructor
        · intro heq
          injection heq with heq
          subst heq
          exact ⟨h, by simp⟩
        · intro hi
          cases i with
          | zero => rfl
          | succ i => exact absurd h (hi.2 0 (Nat.succ_pos i))
      · rw [if_neg fun hany => h (any_isPrefixOf.1 hany)]
        constructor
        · intro heq
          cases heq
        · intro hi
          refine absurd ?_ h
          obtain ⟨p, hp, hocc⟩ := hi.1
          refine ⟨p, hp, ?_⟩
          unfold Occurs at hocc ⊢
          simpa using hocc
  | cons a t ih =>
      unfold firstStart
      by_cases h : Starts ps (a :: t) 0
      · rw [if_pos (any_isPrefixOf.2 h)]
        constructor
        · intro heq
          injection heq with heq
          subst heq
          exact ⟨h, by simp⟩
        · intro hi
          cases i with
          | zero => rfl
          | succ i => exact absurd h (hi.2 0 (Nat.succ_pos i))
      · rw [if_neg fun hany => h (any_isPrefixOf.1 hany)]
        simp only [Option.map_eq_some_iff]
        constructor
        · intro heq
          obtain ⟨j, hj, hji⟩ := heq
          subst hji
          obtain ⟨hstart, hleast⟩ := ih.1 hj
          refine ⟨starts_succ.2 hstart, fun k hk => ?_⟩
          cases k with
          | zero => exact h
          | succ k => exact fun hk' => hleast k (by omega) (starts_succ.1 hk')
        · intro hi
          obtain ⟨hstart, hleast⟩ := hi
          cases i with
          | zero => exact absurd hstart h
          | succ j =>
              refine ⟨j, ih.2 ⟨starts_succ.1 hstart, fun k hk hk' => ?_⟩, rfl⟩
              exact hleast (k + 1) (by omega) (starts_succ.2 hk')

/-- There is no first start when no pattern starts anywhere. -/
theorem firstStart_eq_none {ps : List (List α)} {t : List α} :
    firstStart ps t = none ↔ ∀ i, ¬ Starts ps t i := by
  constructor
  · intro hnone i
    induction i using Nat.strong_induction_on with
    | _ i ih =>
        intro hstart
        have hsome := firstStart_eq_some.2 ⟨hstart, ih⟩
        rw [hnone] at hsome
        cases hsome
  · intro hno
    cases hfirst : firstStart ps t with
    | none => rfl
    | some i => exact absurd (firstStart_eq_some.1 hfirst).1 (hno i)

/-- The least position from `start` on at which the pattern starts. -/
def firstFrom (p t : List α) (start : Nat) : Option Nat :=
  (firstStart [p] (t.drop start)).map (· + start)

/-- The first occurrence at or behind a position: the pattern stands there, and
nowhere in between. -/
theorem firstFrom_eq_some {p t : List α} {start i : Nat} :
    firstFrom p t start = some i
      ↔ start ≤ i ∧ Occurs p t i ∧ ∀ j, start ≤ j → j < i →
      ¬ Occurs p t j := by
  -- positions count from the start
  have hshift : ∀ k, Starts [p] (t.drop start) k ↔ Occurs p t (start + k) := by
    intro k
    unfold Starts Occurs
    simp
  unfold firstFrom
  rw [Option.map_eq_some_iff]
  constructor
  · intro h
    obtain ⟨k, hk, hki⟩ := h
    obtain ⟨hocc, hleast⟩ := firstStart_eq_some.1 hk
    rw [hshift, Nat.add_comm start k, hki] at hocc
    refine ⟨by omega, hocc, fun j hle hlt hj => ?_⟩
    refine hleast (j - start) (by omega) ((hshift _).2 ?_)
    rw [Nat.add_sub_cancel' hle]
    exact hj
  · intro h
    obtain ⟨hle, hocc, hleast⟩ := h
    refine ⟨i - start, firstStart_eq_some.2 ⟨(hshift _).2 ?_,
      fun k hk hk' => ?_⟩,
      by omega⟩
    · rw [Nat.add_sub_cancel' hle]
      exact hocc
    · exact hleast (start + k) (by omega) (by omega) ((hshift _).1 hk')

theorem firstFrom_eq_none {p t : List α} {start : Nat} :
    firstFrom p t start = none ↔ ∀ i, start ≤ i → ¬ Occurs p t i := by
  constructor
  · intro h i
    induction i using Nat.strongRecOn with
    | ind i ih =>
        intro hle hocc
        have hsome := firstFrom_eq_some.2
          ⟨hle, hocc, fun j hj hlt => ih j hlt hj⟩
        rw [h] at hsome
        cases hsome
  · intro h
    cases hfound : firstFrom p t start with
    | none => rfl
    | some i =>
        obtain ⟨hle, hocc, -⟩ := firstFrom_eq_some.1 hfound
        exact absurd hocc (h i hle)

theorem before_of_none {ps : List (List α)} {t : List α}
    (h : ∀ i, ¬ Starts ps t i) : before ps t = t := by
  unfold before
  rw [firstStart_eq_none.2 h]

theorem before_of_start {ps : List (List α)} {t : List α} {i : Nat}
    (h : firstStart ps t = some i) : before ps t = t.take i := by
  unfold before
  rw [h]

theorem before_begins (ps : List (List α)) (t : List α) :
    before ps t <+: t := by
  unfold before
  split
  · exact List.take_prefix _ _
  · exact List.prefix_refl _

/-- What comes before the first start has no pattern in it. -/
theorem not_starts_before {ps : List (List α)} (hps : ∀ p ∈ ps, p ≠ [])
    (t : List α) (i : Nat) : ¬ Starts ps (before ps t) i := by
  intro hstart
  cases hfirst : firstStart ps t with
  | none =>
      rw [before_of_none (firstStart_eq_none.1 hfirst)] at hstart
      exact firstStart_eq_none.1 hfirst i hstart
  | some k =>
      rw [before_of_start hfirst] at hstart
      obtain ⟨p, hp, hocc⟩ := hstart
      have hlt := hocc.lt_length (hps p hp)
      rw [List.length_take] at hlt
      have hall := hocc.append_right (hps p hp) (t.drop k)
      rw [List.take_append_drop] at hall
      exact (firstStart_eq_some.1 hfirst).2 i (by omega) ⟨p, hp, hall⟩

/-- A later start does not come first once the list goes on. -/
theorem firstStart_append_le {ps : List (List α)} (hps : ∀ p ∈ ps, p ≠ [])
    {t u : List α} {i j : Nat} (ht : firstStart ps t = some i)
    (htu : firstStart ps (t ++ u) = some j) : j ≤ i := by
  have hstart := (firstStart_eq_some.1 ht).1.append_right hps u
  by_contra hlt
  exact (firstStart_eq_some.1 htu).2 i (by omega) hstart

end LocalLLM.Search
