/-
Replacing a pattern, one occurrence after the other.

`Replaced p r t out` says that `out` is `t` with `r` in the place of `p`
wherever `p` stands, from the left, without looking at what a replacement
makes together with its neighbours.

# Taking off one pair of brackets

A pattern may be its own replacement between an opening `o` and a closing
`e`, as `{{..}}` is for `{..}`. Where such a pattern stands between two more
brackets, the replacement and these two are the pattern again, and this is
the only way in which the pattern can stand in the outcome
(`Replaced.wrapped_iff`).
-/
import LocalLLM.Lib.Search

namespace LocalLLM.Search

variable {α : Type}

/-- `out` is `t` with `r` for every `p`, from the left. -/
inductive Replaced (p r : List α) : List α → List α → Prop
  | none {t : List α} : (∀ i, ¬ Occurs p t i) → Replaced p r t t
  | next {u t out : List α} :
      (∀ i < u.length, ¬ Occurs p (u ++ p ++ t) i) → Replaced p r t out →
      Replaced p r (u ++ p ++ t) (u ++ r ++ out)

section Replaced

variable {p r t out : List α}

/-- Where the pattern does not stand, nothing changes. -/
theorem Replaced.eq_self (h : Replaced p r t out) (hno : ¬ p <:+: t) :
    out = t := by
  cases h with
  | none => rfl
  | @next u t out =>
      refine absurd ?_ hno
      exact ⟨u, t, rfl⟩

theorem Replaced.length_le (h : Replaced p r t out)
    (hle : r.length ≤ p.length) : out.length ≤ t.length := by
  induction h with
  | none => exact Nat.le_refl _
  | next _ _ ih =>
      simp only [List.length_append]
      omega

/-- With a shorter replacement, what changes becomes shorter. -/
theorem Replaced.length_lt (h : Replaced p r t out) (hlt : r.length < p.length)
    (hoccurs : p <:+: t) : out.length < t.length := by
  cases h with
  | none hno =>
      obtain ⟨i, hi⟩ := infix_iff_occurs.1 hoccurs
      exact absurd hi (hno i)
  | next _ hrest =>
      have hle := hrest.length_le hlt.le
      simp only [List.length_append]
      omega

end Replaced

/-- An occurrence, element by element. -/
theorem occurs_iff_getElem? {p t : List α} {i : Nat} :
    Occurs p t i ↔ ∀ j < p.length, t[i + j]? = p[j]? := by
  unfold Occurs
  rw [List.prefix_iff_getElem?]
  constructor
  · intro h j hj
    have hat := h j hj
    rw [List.getElem?_drop] at hat
    rw [hat, List.getElem?_eq_getElem hj]
  · intro h j hj
    rw [List.getElem?_drop, h j hj, List.getElem?_eq_getElem hj]

-- =================================================================== brackets

section Brackets

variable {o e : α} {body : List α}

/-- A body between brackets. -/
def wrapped (o e : α) (body : List α) : List α := o :: (body ++ [e])

theorem length_wrapped : (wrapped o e body).length = body.length + 2 := by
  unfold wrapped
  simp

/-- In two pairs of brackets, the opening ones stand at the first
two places. -/
theorem getElem?_opening (hne : o ≠ e) (ho : o ∉ body) {j : Nat}
    (h : (wrapped o e (wrapped o e body))[j]? = some o) : j < 2 := by
  by_contra hj
  obtain ⟨j, rfl⟩ := Nat.exists_eq_add_of_le (not_lt.1 hj)
  rw [Nat.add_comm] at h
  unfold wrapped at h
  have hmem : o ∈ body ++ [e] ++ [e] := List.mem_of_getElem? h
  simp only [List.mem_append, List.mem_singleton, hne, or_false] at hmem
  exact ho hmem

/-- And the closing ones at the last two. -/
theorem getElem?_closing (hne : o ≠ e) (he : e ∉ body) {j : Nat}
    (h : (wrapped o e (wrapped o e body))[j]? = some e) :
    body.length + 2 ≤ j := by
  by_contra hj
  have hfront : (wrapped o e (wrapped o e body))[j]?
      = (o :: o :: body)[j]? := by
    have hsplit : wrapped o e (wrapped o e body)
        = (o :: o :: body) ++ [e, e] := by
      unfold wrapped
      simp
    rw [hsplit, List.getElem?_append_left]
    simp only [List.length_cons]
    omega
  rw [hfront] at h
  have hmem : e ∈ o :: o :: body := List.mem_of_getElem? h
  simp only [List.mem_cons, hne.symm, false_or] at hmem
  exact he hmem

/-- A replacement and what it replaces begin alike. -/
theorem Replaced.head? {t out : List α}
    (h : Replaced (wrapped o e (wrapped o e body)) (wrapped o e body) t out) :
    out.head? = t.head? := by
  cases h with
  | none => rfl
  | @next u t out =>
      cases u with
      | nil => rfl
      | cons a u => rfl

theorem length_twice :
    (wrapped o e (wrapped o e body)).length = body.length + 4 := by
  rw [length_wrapped, length_wrapped]

/-- The brackets of a body in a list. -/
theorem getElem?_wrapped (u t : List α) :
    (u ++ wrapped o e body ++ t)[u.length]? = some o
      ∧ (u ++ wrapped o e body ++ t)[u.length + body.length + 1]?
        = some e := by
  rw [List.append_assoc]
  constructor
  · rw [List.getElem?_append_right (Nat.le_refl _), Nat.sub_self]
    rfl
  · rw [List.getElem?_append_right (by omega)]
    have hindex : u.length + body.length + 1 - u.length
      = body.length + 1 := by omega
    rw [hindex]
    unfold wrapped
    simp

/-- A list with an element at its last place. -/
theorem eq_take_append {u : List α} {k : Nat} {a : α} (hk : k + 1 = u.length)
    (h : u[k]? = some a) : u = u.take k ++ [a] := by
  have hlast := List.take_concat_get' u k (by omega)
  rw [hk, List.take_length] at hlast
  rw [List.getElem?_eq_getElem (by omega), Option.some.injEq] at h
  rw [h] at hlast
  exact hlast.symm

section Next

variable {u t out : List α}

/-- Where the pattern stands after a replacement, it stands behind the
replacement, or the replacement was made between two brackets. -/
theorem wrapped_of_occurs (hne : o ≠ e) (ho : o ∉ body) (he : e ∉ body)
    (hfirst : ∀ i < u.length,
      ¬ Occurs (wrapped o e (wrapped o e body))
        (u ++ wrapped o e (wrapped o e body) ++ t) i)
    (hhead : out.head? = t.head?) {k : Nat}
    (h : Occurs (wrapped o e (wrapped o e body))
      (u ++ wrapped o e body ++ out) k) :
    (∃ i, Occurs (wrapped o e (wrapped o e body)) out i)
      ∨ wrapped o e (wrapped o e (wrapped o e body))
        <:+: u ++ wrapped o e (wrapped o e body) ++ t := by
  have hlength : (wrapped o e (wrapped o e body)).length = body.length + 4 :=
    length_twice
  have hat := occurs_iff_getElem?.1 h
  rw [hlength] at hat
  obtain ⟨hopen, hclose⟩ : (u ++ wrapped o e body ++ out)[u.length]? = some o
      ∧ (u ++ wrapped o e body ++ out)[u.length + body.length + 1]? = some e :=
    getElem?_wrapped u out
  by_cases hbehind : u.length + (wrapped o e body).length ≤ k
  · -- behind the replacement
    obtain ⟨i, rfl⟩ := Nat.exists_eq_add_of_le hbehind
    rw [← List.length_append, occurs_append_left] at h
    exact .inl ⟨i, h⟩
  rw [length_wrapped] at hbehind
  by_cases hfrom : u.length ≤ k
  · -- the pattern has no closing bracket where the replacement has one
    have hj := hat (u.length + body.length + 1 - k) (by omega)
    rw [Nat.add_sub_cancel' (by omega), hclose] at hj
    have hlast := getElem?_closing hne he hj.symm
    omega
  by_cases hinside : k + (body.length + 4) ≤ u.length
  · -- the pattern would stand in front of its first place
    rw [List.append_assoc] at h
    have hu : Occurs (wrapped o e (wrapped o e body)) u k :=
      h.of_append (by rw [hlength]; exact hinside)
    have hall := hu.append_right (by unfold wrapped; simp)
      (wrapped o e (wrapped o e body) ++ t)
    rw [← List.append_assoc] at hall
    exact absurd hall (hfirst k (by omega))
  · -- the opening bracket of the replacement is the second one of the pattern
    have hj := hat (u.length - k) (by omega)
    rw [Nat.add_sub_cancel' (by omega), hopen] at hj
    have hsecond := getElem?_opening hne ho hj.symm
    have hk : k + 1 = u.length := by omega
    have hfront := hat 0 (by omega)
    rw [List.append_assoc, List.getElem?_append_left (by omega)] at hfront
    have hu : u = u.take k ++ [o] := eq_take_append hk hfront
    have hback := hat (body.length + 3) (by omega)
    have hend : (wrapped o e (wrapped o e body))[body.length + 3]?
        = some e := by
      unfold wrapped
      simp
    rw [hend, List.getElem?_append_right (by
      rw [List.length_append, length_wrapped]
      omega)] at hback
    have hindex : k + (body.length + 3) - (u ++ wrapped o e body).length
        = 0 := by
      rw [List.length_append, length_wrapped]
      omega
    rw [hindex, ← List.head?_eq_getElem?, hhead] at hback
    obtain ⟨rest, rfl⟩ := List.head?_eq_some_iff.1 hback
    refine .inr ⟨u.take k, rest, ?_⟩
    generalize u.take k = v at hu
    subst hu
    unfold wrapped
    simp

/-- Between two brackets, the replacement makes the pattern again. The
replacement is the pattern without its outer brackets, so the brackets beside
it take their place. -/
theorem infix_of_wrapped (hne : o ≠ e) (ho : o ∉ body)
    (hfirst : ∀ i < u.length,
      ¬ Occurs (wrapped o e (wrapped o e body))
        (u ++ wrapped o e (wrapped o e body) ++ t) i)
    (hhead : out.head? = t.head?) {m : Nat}
    (h : Occurs (wrapped o e (wrapped o e (wrapped o e body)))
      (u ++ wrapped o e (wrapped o e body) ++ t) m) :
    wrapped o e (wrapped o e body) <:+: u ++ wrapped o e body ++ out
      ∨ ∃ i, Occurs (wrapped o e (wrapped o e (wrapped o e body))) t i := by
  have hlength : (wrapped o e (wrapped o e body)).length = body.length + 4 :=
    length_twice
  have hat := occurs_iff_getElem?.1 h
  rw [length_wrapped, hlength] at hat
  -- the pattern stands behind the outer bracket
  have hinner : ∀ j < body.length + 4,
      (u ++ wrapped o e (wrapped o e body) ++ t)[m + 1 + j]?
        = (wrapped o e (wrapped o e body))[j]? := by
    intro j hj
    have hnext := hat (j + 1) (by omega)
    rw [Nat.add_assoc, Nat.add_comm 1 j, hnext]
    show (wrapped o e (wrapped o e body) ++ [e])[j]? = _
    rw [List.getElem?_append_left (by omega)]
  have hlast : u.length ≤ m + 1 := by
    by_contra hlt
    refine hfirst (m + 1) (by omega) (occurs_iff_getElem?.2 ?_)
    rw [hlength]
    exact hinner
  have hthere : ∀ j < body.length + 4,
      (u ++ wrapped o e (wrapped o e body) ++ t)[u.length + j]?
        = (wrapped o e (wrapped o e body))[j]? := by
    intro j hj
    rw [List.append_assoc, List.getElem?_append_right (by omega),
      Nat.add_sub_cancel_left, List.getElem?_append_left (by omega)]
  have hopen : (u ++ wrapped o e (wrapped o e body) ++ t)[m]? = some o :=
    hat 0 (by omega)
  by_cases hbehind : u.length + (body.length + 4) ≤ m
  · -- behind the replacement
    obtain ⟨i, rfl⟩ := Nat.exists_eq_add_of_le hbehind
    rw [← hlength, ← List.length_append, occurs_append_left] at h
    exact .inr ⟨i, h⟩
  by_cases hfrom : u.length ≤ m
  · -- an opening bracket of the pattern, and two more behind it
    obtain ⟨j, rfl⟩ := Nat.exists_eq_add_of_le hfrom
    rw [hthere j (by omega)] at hopen
    have hj := getElem?_opening hne ho hopen
    have hnext := hinner 1 (by omega)
    rw [Nat.add_assoc, Nat.add_assoc, hthere _ (by omega)] at hnext
    have hthird := getElem?_opening hne ho (hnext.trans rfl)
    omega
  · -- between the brackets
    have hm : m + 1 = u.length := by omega
    rw [List.append_assoc, List.getElem?_append_left (by omega)] at hopen
    have hu : u = u.take m ++ [o] := eq_take_append hm hopen
    have hback := hat (body.length + 5) (by omega)
    have hend :
      (wrapped o e (wrapped o e (wrapped o e body)))[body.length + 5]?
        = some e := by
      unfold wrapped
      simp
    rw [hend, List.getElem?_append_right (by
      rw [List.length_append, hlength]
      omega)] at hback
    have hindex : m + (body.length + 5)
        - (u ++ wrapped o e (wrapped o e body)).length = 0 := by
      rw [List.length_append, hlength]
      omega
    rw [hindex, ← List.head?_eq_getElem?, ← hhead] at hback
    obtain ⟨rest, rfl⟩ := List.head?_eq_some_iff.1 hback
    refine .inl ⟨u.take m, rest, ?_⟩
    generalize u.take m = v at hu
    subst hu
    unfold wrapped
    simp

end Next

/-- The pattern stands in the outcome just where it stood between two more
brackets. -/
theorem Replaced.wrapped_iff (hne : o ≠ e) (ho : o ∉ body) (he : e ∉ body)
    {t out : List α}
    (h : Replaced (wrapped o e (wrapped o e body)) (wrapped o e body) t out) :
    wrapped o e (wrapped o e body) <:+: out
      ↔ wrapped o e (wrapped o e (wrapped o e body)) <:+: t := by
  induction h with
  | none hno =>
      constructor
      · intro h
        obtain ⟨i, hi⟩ := infix_iff_occurs.1 h
        exact absurd hi (hno i)
      · intro h
        have hinner : wrapped o e (wrapped o e body)
            <:+: wrapped o e (wrapped o e (wrapped o e body)) :=
              ⟨[o], [e], rfl⟩
        obtain ⟨i, hi⟩ := infix_iff_occurs.1 (hinner.trans h)
        exact absurd hi (hno i)
  | @next u t out hfirst hrest ih =>
      constructor
      · intro h
        obtain ⟨k, hk⟩ := infix_iff_occurs.1 h
        rcases wrapped_of_occurs hne ho he hfirst hrest.head? hk
          with ⟨i, hi⟩ | hw
        · exact (ih.1 (infix_iff_occurs.2 ⟨i, hi⟩)).trans
            (List.suffix_append _ _).isInfix
        · exact hw
      · intro h
        obtain ⟨m, hm⟩ := infix_iff_occurs.1 h
        rcases infix_of_wrapped hne ho hfirst hrest.head? hm with hw | ⟨i, hi⟩
        · exact hw
        · exact (ih.2 (infix_iff_occurs.2 ⟨i, hi⟩)).trans
            (List.suffix_append _ _).isInfix

end Brackets

end LocalLLM.Search
