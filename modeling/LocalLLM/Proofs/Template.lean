/-
What the repair of the tool example does.

# The loop

The loop replaces the malformed example wherever it stands, from the left
(`repair_replaced`).

# Three pairs of braces

What the loop puts in place, it does not look at again. An example between
two more braces therefore leaves an example with two pairs of braces, and
nothing else does: the repair leaves no malformed example, and a second one
changes nothing, exactly for the templates in which no example has three
pairs (`template_repair`).
-/
import LocalLLM.Lib.Replace
import LocalLLM.Proofs.Markers
import LocalLLM.Runtimes.ToolTemplate

namespace LocalLLM

open Search

-- =================================================================== the loop

theorem repairFrom_of_none {value : Bytes} {start : Nat}
    (h : value.find malformed start = none) :
    repairFrom value start = value := by
  rw [repairFrom]
  split
  · rfl
  · rename_i at_ hfound
    rw [h] at hfound
    cases hfound

theorem repairFrom_of_some {value : Bytes} {start at_ : Nat}
    (h : value.find malformed start = some at_) :
    repairFrom value start = repairFrom
      (value.take at_ ++ corrected ++ value.drop (at_ + malformed.length))
      (at_ + corrected.length) := by
  rw [repairFrom]
  split
  · rename_i hfound
    rw [h] at hfound
    cases hfound
  · rename_i at' hfound
    rw [h] at hfound
    cases hfound
    rfl

/-- From a position on, the loop replaces what stands behind it. It
resumes behind the replacement, so it does not see what that has made
with the text before. -/
theorem repairFrom_replaced (t : Bytes) :
    ∀ front : Bytes, ∃ out, Replaced malformed corrected t out
      ∧ repairFrom (front ++ t) front.length = front ++ out := by
  have hne : malformed ≠ [] := by decide
  induction hn : t.length using Nat.strongRecOn generalizing t with
  | ind n ih =>
      intro front
      cases hfound : (front ++ t).find malformed front.length with
      | none =>
          refine ⟨t, .none fun i hi => ?_, repairFrom_of_none hfound⟩
          rw [find_eq_firstFrom hne] at hfound
          exact firstFrom_eq_none.1 hfound (front.length + i) (by omega)
            (occurs_append_left.2 hi)
      | some at_ =>
          rw [repairFrom_of_some hfound]
          rw [find_eq_firstFrom hne] at hfound
          obtain ⟨hle, hoccurs, hleast⟩ := firstFrom_eq_some.1 hfound
          obtain ⟨i, rfl⟩ := Nat.exists_eq_add_of_le hle
          rw [occurs_append_left] at hoccurs
          have hinside := hoccurs.le_length hne
          -- the text in front of the example, and the text behind it
          obtain ⟨rest, hrest⟩ := hoccurs
          have ht : t = t.take i ++ malformed ++ rest := by
            rw [List.append_assoc, hrest, List.take_append_drop]
          have hu : (t.take i).length = i := by
            rw [List.length_take]
            omega
          generalize t.take i = u at ht hu
          subst ht
          have hshorter : rest.length < n := by
            simp only [List.length_append] at hn
            have hpos := List.length_pos_iff.2 hne
            omega
          obtain ⟨out, hout, heq⟩ :=
            ih _ hshorter rest rfl (front ++ u ++ corrected)
          refine ⟨u ++ corrected ++ out, .next (fun j hj hocc => ?_) hout, ?_⟩
          · exact hleast (front.length + j) (by omega) (by omega)
              (occurs_append_left.2 hocc)
          · have htake : (front ++ (u ++ malformed ++ rest)).take
              (front.length + i)
                = front ++ u := by
              rw [List.append_assoc u, ← List.append_assoc front,
                List.take_left' (by rw [List.length_append, hu])]
            have hdrop : (front ++ (u ++ malformed ++ rest)).drop
                (front.length + i + malformed.length) = rest := by
              rw [← List.append_assoc, List.drop_left' (by
                simp only [List.length_append, hu]
                omega)]
            have hstart : (front ++ u ++ corrected).length
                = front.length + i + corrected.length := by
              simp only [List.length_append, hu]
            rw [htake, hdrop, ← hstart, heq]
            simp only [List.append_assoc]

/-- The repair replaces the malformed example, from the left. -/
theorem repair_replaced (t : Bytes) :
    Replaced malformed corrected t (normalizedToolTemplate t) := by
  obtain ⟨out, hout, heq⟩ := repairFrom_replaced t []
  rw [List.nil_append, List.length_nil, List.nil_append] at heq
  unfold normalizedToolTemplate
  rw [heq]
  exact hout

-- =============================================================== the examples

/-- What stands between the braces of the example. -/
def exampleBody : Bytes :=
  asciiBytes
    "\\\"name\\\": <function-name>, \\\"arguments\\\": <args-json-object>"

/-- The braces. -/
def openBrace : UInt8 := 0x7B
def closeBrace : UInt8 := 0x7D

theorem corrected_eq :
    corrected = wrapped openBrace closeBrace exampleBody := by
  decide +kernel

theorem malformed_eq :
    malformed = wrapped openBrace closeBrace
      (wrapped openBrace closeBrace exampleBody) := by
  decide +kernel

theorem braces_outside :
    openBrace ≠ closeBrace ∧ openBrace ∉ exampleBody
      ∧ closeBrace ∉ exampleBody := by
  decide +kernel

/-- The malformed example between two more braces. -/
def tripled : Bytes := [openBrace] ++ malformed ++ [closeBrace]

/-- The malformed example is there after the repair just where there were three
pairs of braces. -/
theorem malformed_repaired (t : Bytes) :
    malformed <:+: normalizedToolTemplate t ↔ tripled <:+: t := by
  obtain ⟨hne, ho, he⟩ := braces_outside
  have h := repair_replaced t
  have htripled : tripled
    = wrapped openBrace closeBrace (wrapped openBrace closeBrace
      (wrapped openBrace closeBrace exampleBody)) := by
    unfold tripled
    rw [malformed_eq]
    rfl
  rw [htripled]
  rw [malformed_eq, corrected_eq] at h
  rw [malformed_eq]
  exact h.wrapped_iff hne ho he

/-- A template without the malformed example is left alone. -/
theorem repair_of_none {t : Bytes} (h : ¬ malformed <:+: t) :
    normalizedToolTemplate t = t := (repair_replaced t).eq_self h

theorem repair_eq_self_iff {t : Bytes} :
    normalizedToolTemplate t = t ↔ ¬ malformed <:+: t := by
  constructor
  · intro heq hthere
    have hlt := (repair_replaced t).length_lt (by decide) hthere
    rw [heq] at hlt
    exact Nat.lt_irrefl _ hlt
  · exact repair_of_none

/-- A template keeps the promise of the repair: a second repair changes
nothing, no malformed example is left, and one without it is unchanged. -/
def Repaired (t : Bytes) : Prop :=
  normalizedToolTemplate (normalizedToolTemplate t) = normalizedToolTemplate t
    ∧ ¬ malformed <:+: normalizedToolTemplate t
    ∧ (¬ malformed <:+: t → normalizedToolTemplate t = t)

/-- It is kept exactly for the templates in which no malformed example stands
between two more braces. Only there does what a replacement puts in read as a
malformed example again, together with the braces beside it. -/
theorem template_repair (t : Bytes) : Repaired t ↔ ¬ tripled <:+: t := by
  unfold Repaired
  rw [repair_eq_self_iff, malformed_repaired]
  constructor
  · exact fun h => h.1
  · exact fun h => ⟨h, h, repair_of_none⟩

/-- Three pairs of braces become two, and these one. -/
theorem template_not_repaired :
    normalizedToolTemplate tripled = malformed
      ∧ normalizedToolTemplate malformed = corrected ∧ ¬ Repaired tripled := by
  have hfound : tripled.find malformed 0 = some 1 := by decide +kernel
  have hagain : malformed.find malformed 0 = some 0 := by decide +kernel
  have hfirst : normalizedToolTemplate tripled = malformed := by
    unfold normalizedToolTemplate
    rw [repairFrom_of_some hfound, repairFrom_of_none (by decide +kernel)]
    decide +kernel
  have hsecond : normalizedToolTemplate malformed = corrected := by
    unfold normalizedToolTemplate
    rw [repairFrom_of_some hagain, repairFrom_of_none (by decide +kernel)]
    decide +kernel
  refine ⟨hfirst, hsecond, fun h => ?_⟩
  have hsame := h.1
  rw [hfirst, hsecond] at hsame
  exact absurd hsame (by decide +kernel)

end LocalLLM
