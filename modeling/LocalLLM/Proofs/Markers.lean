/-
What the cut at the media markers does.

The loop finds a place for every marker, from the end of the marker before
it on, and refuses a marker that comes again after its place (`Placed`). It
does not look back: a marker that also stands in front of the end of the
marker before it, or overlaps its own place, is not seen (`Stray`). Such a
prompt is cut although a marker occurs in it twice; in every other prompt
the cut succeeds exactly when each marker occurs once and in order
(`split_faithful`).
-/
import LocalLLM.Runtimes.LlamaMedia

namespace LocalLLM

open Search

-- ================================================================= the search

theorem find_eq_firstFrom {s pattern : Bytes} (hne : pattern ≠ [])
    (start : Nat) : s.find pattern start = firstFrom pattern s start := by
  unfold Bytes.find
  by_cases hlength : s.length < start
  · rw [if_pos hlength]
    -- a pattern that is not empty does not stand behind the end
    refine (firstFrom_eq_none.2 fun i hi hocc => ?_).symm
    have hlt := hocc.lt_length hne
    omega
  · rw [if_neg hlength]

-- ========================================================== where markers are

/-- From `at_` on, the markers stand at these positions, one after
the other: each begins at its position, not in front of it, and not
again after its end. -/
inductive Placed (prompt : Bytes) : Nat → List Bytes → List Nat → Prop
  | nil (at_ : Nat) : Placed prompt at_ [] []
  | cons {at_ pos : Nat} {marker : Bytes} {rest : List Bytes}
      {places : List Nat} : at_ ≤ pos → Occurs marker prompt pos →
      (∀ j, at_ ≤ j → j < pos → ¬ Occurs marker prompt j) →
      (∀ j, pos + marker.length ≤ j → ¬ Occurs marker prompt j) →
      Placed prompt (pos + marker.length) rest places →
      Placed prompt at_ (marker :: rest) (pos :: places)

/-- The markers have their places, and one of them begins elsewhere, too. -/
def Stray (prompt : Bytes) (markers : List Bytes) : Prop :=
  ∃ places, Placed prompt 0 markers places
    ∧ ∃ p ∈ markers.zip places, ∃ j, j ≠ p.2 ∧ Occurs p.1 prompt j

/-- Every marker occurs once, and they occur in order without overlap. -/
def OnceInOrder (prompt : Bytes) (markers : List Bytes) : Prop :=
  (∀ marker ∈ markers, ∃ i, Occurs marker prompt i
      ∧ ∀ j, Occurs marker prompt j → j = i)
    ∧ markers.Pairwise fun marker marker' => ∀ i j, Occurs marker prompt i →
      Occurs marker' prompt j → i + marker.length ≤ j

section Places

variable {prompt : Bytes}

/-- A position of a marker, and how far the markers before it reach. -/
theorem Placed.mem {at_ : Nat} {markers : List Bytes} {places : List Nat}
    (h : Placed prompt at_ markers places) :
    markers.length = places.length
      ∧ ∀ p ∈ markers.zip places, at_ ≤ p.2 ∧ Occurs p.1 prompt p.2 := by
  induction h with
  | nil at_ => exact ⟨rfl, fun p hp => (nomatch hp)⟩
  | cons hle hocc _ _ _ ih =>
      refine ⟨congrArg (· + 1) ih.1, fun p hp => ?_⟩
      rw [List.zip_cons_cons] at hp
      rcases List.mem_cons.1 hp with rfl | hp
      · exact ⟨hle, hocc⟩
      · obtain ⟨hle', hocc'⟩ := ih.2 p hp
        exact ⟨by omega, hocc'⟩

/-- The places are in order, without overlap. -/
theorem Placed.pairwise {at_ : Nat} {markers : List Bytes} {places : List Nat}
    (h : Placed prompt at_ markers places) :
    (markers.zip places).Pairwise fun p q => p.2 + p.1.length ≤ q.2 := by
  induction h with
  | nil at_ => exact .nil
  | cons _ _ _ _ hrest ih =>
      rw [List.zip_cons_cons]
      exact .cons (fun q hq => (hrest.mem.2 q hq).1) ih

/-- Markers that occur once and in order have their places. -/
theorem OnceInOrder.placed {markers : List Bytes}
    (h : OnceInOrder prompt markers) :
    ∀ at_, (∀ marker ∈ markers, ∀ i, Occurs marker prompt i → at_ ≤ i) →
    (∀ marker ∈ markers, marker ≠ []) →
    ∃ places, Placed prompt at_ markers places := by
  obtain ⟨honce, horder⟩ := h
  induction markers with
  | nil => exact fun at_ _ _ => ⟨[], .nil at_⟩
  | cons marker rest ih =>
      intro at_ hfrom hne
      obtain ⟨pos, hocc, hunique⟩ := honce marker (List.mem_cons_self ..)
      have hpos := List.length_pos_iff.2 (hne marker (List.mem_cons_self ..))
      rw [List.pairwise_cons] at horder
      obtain ⟨places, hplaced⟩ := ih
        (fun m hm => honce m (List.mem_cons_of_mem _ hm)) horder.2
        (pos + marker.length)
        (fun m hm i hi => horder.1 m hm pos i hocc hi)
        (fun m hm => hne m (List.mem_cons_of_mem _ hm))
      refine ⟨pos :: places,
        .cons (hfrom marker (List.mem_cons_self ..) pos hocc)
        hocc ?_ ?_ hplaced⟩
      · intro j _ hlt hj
        have heq := hunique j hj
        omega
      · intro j hle hj
        have heq := hunique j hj
        omega

/-- When no marker begins elsewhere, the markers that have their places
occur once and in order. -/
theorem Placed.onceInOrder {markers : List Bytes} {places : List Nat}
    (h : Placed prompt 0 markers places)
    (hstray : ∀ p ∈ markers.zip places, ∀ j, Occurs p.1 prompt j → j = p.2) :
    OnceInOrder prompt markers := by
  have hlength := h.mem.1
  have hmarkers : markers = (markers.zip places).map Prod.fst :=
    (List.map_fst_zip (Nat.le_of_eq hlength)).symm
  constructor
  · intro marker hmarker
    rw [hmarkers, List.mem_map] at hmarker
    obtain ⟨p, hp, rfl⟩ := hmarker
    exact ⟨p.2, (h.mem.2 p hp).2, hstray p hp⟩
  · rw [hmarkers, List.pairwise_map]
    refine h.pairwise.imp_of_mem ?_
    intro p q hp hq hle i j hi hj
    rw [hstray p hp i hi, hstray q hq j hj]
    exact hle

end Places

-- ==================================================================== the cut

/-- The texts in front of, between and behind the markers. -/
def spansOf (prompt : Bytes) : Nat → List Bytes → List Nat → List Bytes
  | at_, marker :: rest, pos :: places =>
      (prompt.drop at_).take (pos - at_)
        :: spansOf prompt (pos + marker.length) rest places
  | at_, _, _ => [prompt.drop at_]

/-- A text as a part, unless it is empty. -/
def textPart (span : Bytes) : List InputPart :=
  if span = [] then [] else [.text span]

/-- Texts with bitmaps between them: the bitmap of number `i` is the first. -/
def weave : Nat → List Bytes → List InputPart
  | _, [] => []
  | _, [span] => textPart span
  | i, span :: rest => textPart span ++ .bitmap i :: weave (i + 1) rest

/-- Texts with markers between them. -/
def rejoin : List Bytes → List Bytes → Bytes
  | span :: spans, marker :: markers => span ++ marker ++ rejoin spans markers
  | spans, _ => spans.flatten

section Cut

variable {prompt : Bytes}

theorem addText_eq (start stop : Nat) (hle : stop ≤ prompt.length) :
    addText prompt start stop
      = textPart ((prompt.drop start).take (stop - start)) := by
  unfold addText textPart
  by_cases hlt : start < stop
  · rw [if_pos hlt, if_neg]
    intro hnil
    have hlength := congrArg List.length hnil
    rw [List.length_take, List.length_drop, List.length_nil] at hlength
    omega
  · rw [if_neg hlt, if_pos]
    rw [show stop - start = 0 by omega, List.take_zero]

theorem spansOf_ne_nil (at_ : Nat) (markers : List Bytes) (places : List Nat) :
    spansOf prompt at_ markers places ≠ [] := by
  unfold spansOf
  split <;> simp

theorem length_spansOf {at_ : Nat} {markers : List Bytes} {places : List Nat}
    (h : Placed prompt at_ markers places) :
    (spansOf prompt at_ markers places).length = markers.length + 1 := by
  induction h with
  | nil at_ => rfl
  | cons _ _ _ _ _ ih => exact congrArg (· + 1) ih

/-- The texts and the markers make the prompt. -/
theorem rejoin_spansOf {at_ : Nat} {markers : List Bytes} {places : List Nat}
    (h : Placed prompt at_ markers places) :
    rejoin (spansOf prompt at_ markers places) markers = prompt.drop at_ := by
  induction h with
  | nil at_ =>
      show [prompt.drop at_].flatten = _
      simp
  | @cons at_ pos marker rest places hle hocc _ _ _ ih =>
      show (prompt.drop at_).take (pos - at_) ++ marker
        ++ rejoin (spansOf prompt (pos + marker.length) rest places) rest = _
      rw [ih]
      -- the marker is what stands at its place
      have hmarker : (prompt.drop pos).take marker.length = marker :=
        (List.prefix_iff_eq_take.1 hocc).symm
      have hrest : marker ++ prompt.drop (pos + marker.length)
          = prompt.drop pos := by
        rw [← List.drop_drop]
        nth_rewrite 1 [← hmarker]
        exact List.take_append_drop _ _
      rw [List.append_assoc, hrest]
      have hdrop : prompt.drop pos = (prompt.drop at_).drop (pos - at_) := by
        rw [List.drop_drop, Nat.add_sub_cancel' hle]
      rw [hdrop, List.take_append_drop]

/-- The loop finds the places of the markers, or there are none. The position
it carries is the end of the last marker, so the places never overlap. -/
theorem splitMarkers_eq_ok :
    ∀ (markers : List Bytes) (i at_ : Nat) (parts out : List InputPart),
    (∀ marker ∈ markers, marker ≠ []) →
    (splitMarkers prompt i at_ markers parts = .ok out
      ↔ ∃ places, Placed prompt at_ markers places
        ∧ out = parts ++ weave i (spansOf prompt at_ markers places)) := by
  intro markers
  induction markers with
  | nil =>
      intro i at_ parts out _
      have hlast : addText prompt at_ prompt.length
          = weave i (spansOf prompt at_ [] []) := by
        rw [addText_eq _ _ (Nat.le_refl _), List.take_of_length_le
          (by rw [List.length_drop])]
        rfl
      show Except.ok (parts ++ addText prompt at_ prompt.length) = _ ↔ _
      rw [hlast]
      constructor
      · intro h
        injection h with h
        exact ⟨[], .nil at_, h.symm⟩
      · intro h
        obtain ⟨places, hplaced, rfl⟩ := h
        cases hplaced
        rfl
  | cons marker rest ih =>
      intro i at_ parts out hne
      have hmarker := hne marker (List.mem_cons_self ..)
      have hrest : ∀ m ∈ rest, m ≠ [] := fun m hm =>
        hne m (List.mem_cons_of_mem _ hm)
      unfold splitMarkers
      rw [find_eq_firstFrom hmarker]
      cases hfound : firstFrom marker prompt at_ with
      | none =>
          constructor
          · intro h
            cases h
          · intro h
            obtain ⟨places, hplaced, -⟩ := h
            cases hplaced with
            | cons hle hocc _ _ _ =>
                exact absurd hocc (firstFrom_eq_none.1 hfound _ hle)
      | some pos =>
          obtain ⟨hle, hocc, hleast⟩ := firstFrom_eq_some.1 hfound
          have hin := hocc.le_length hmarker
          -- the place is determined
          have hsame : ∀ pos', at_ ≤ pos' → Occurs marker prompt pos' →
              (∀ j, at_ ≤ j → j < pos' → ¬ Occurs marker prompt j) →
              pos' = pos := by
            intro pos' hle' hocc' hleast'
            have hnot : ¬ pos < pos' := fun hlt => hleast' pos hle hlt hocc
            have hnot' : ¬ pos' < pos := fun hlt => hleast pos' hle' hlt hocc'
            omega
          dsimp only
          rw [find_eq_firstFrom hmarker]
          cases hagain : firstFrom marker prompt (pos + marker.length) with
          | some again =>
              obtain ⟨hle', hocc', -⟩ := firstFrom_eq_some.1 hagain
              constructor
              · intro h
                cases h
              · intro h
                obtain ⟨places, hplaced, -⟩ := h
                cases hplaced with
                | cons hle₁ hocc₁ hleast₁ hlast₁ _ =>
                    have heq := hsame _ hle₁ hocc₁ hleast₁
                    subst heq
                    exact absurd hocc' (hlast₁ again hle')
          | none =>
              have hlast := firstFrom_eq_none.1 hagain
              have hweave : ∀ places,
                  weave i (spansOf prompt at_ (marker :: rest) (pos :: places))
                    = addText prompt at_ pos ++ .bitmap i
                      :: weave (i + 1)
                        (spansOf prompt (pos + marker.length)
                          rest places) := by
                intro places
                rw [addText_eq _ _ (by omega)]
                show weave i (_ :: spansOf prompt _ rest places) = _
                cases hspans :
                    spansOf prompt (pos + marker.length) rest places with
                | nil => exact absurd hspans (spansOf_ne_nil _ _ _)
                | cons span spans => rfl
              rw [Option.isSome_none, if_neg Bool.false_ne_true,
                ih (i + 1) (pos + marker.length) _ out hrest]
              constructor
              · intro h
                obtain ⟨places, hplaced, rfl⟩ := h
                refine ⟨pos :: places, .cons hle hocc hleast hlast hplaced, ?_⟩
                rw [hweave]
                simp
              · intro h
                obtain ⟨places, hplaced, rfl⟩ := h
                cases hplaced with
                | @cons _ pos' _ _ places hle₁ hocc₁ hleast₁ _ hplaced =>
                    have heq := hsame _ hle₁ hocc₁ hleast₁
                    subst heq
                    refine ⟨places, hplaced, ?_⟩
                    rw [hweave]
                    simp

/-- A text lies between two positions, and no marker has its place there. -/
theorem mem_spansOf {at_ : Nat} {markers : List Bytes} {places : List Nat}
    (h : Placed prompt at_ markers places) :
    ∀ span ∈ spansOf prompt at_ markers places, ∃ start stop, at_ ≤ start
      ∧ span = (prompt.drop start).take (stop - start)
      ∧ ∀ p ∈ markers.zip places, p.2 + p.1.length ≤ start ∨ stop ≤ p.2 := by
  induction h with
  | nil at_ =>
      intro span hspan
      rw [List.mem_singleton.1 hspan]
      refine ⟨at_, prompt.length, Nat.le_refl _, ?_, fun p hp => (nomatch hp)⟩
      rw [List.take_of_length_le (by rw [List.length_drop])]
  | @cons at_ pos marker rest places hle hocc _ _ hrest ih =>
      intro span hspan
      rcases List.mem_cons.1 hspan with rfl | hspan
      · refine ⟨at_, pos, Nat.le_refl _, rfl, fun p hp => Or.inr ?_⟩
        rw [List.zip_cons_cons] at hp
        rcases List.mem_cons.1 hp with rfl | hp
        · exact Nat.le_refl _
        · have hfrom := (hrest.mem.2 p hp).1
          omega
      · obtain ⟨start, stop, hfrom, heq, hnone⟩ := ih span hspan
        refine ⟨start, stop, by omega, heq, fun p hp => ?_⟩
        rw [List.zip_cons_cons] at hp
        rcases List.mem_cons.1 hp with rfl | hp
        · exact Or.inl hfrom
        · exact hnone p hp

/-- What is promised of the cut: it succeeds exactly when every marker
occurs once and in order; and then the parts are texts with the bitmaps
between them, the texts have no marker in them, and with the markers between
them they are the prompt. -/
def CutFaithful (prompt : Bytes) (markers : List Bytes) : Prop :=
  ((∃ parts, splitMarkers prompt 0 0 markers [] = .ok parts)
      ↔ OnceInOrder prompt markers)
    ∧ ∀ parts, splitMarkers prompt 0 0 markers [] = .ok parts →
      ∃ spans, spans.length = markers.length + 1 ∧ parts = weave 0 spans
        ∧ rejoin spans markers = prompt
        ∧ ∀ span ∈ spans, ∀ marker ∈ markers, ¬ marker <:+: span

/-- The promise is kept unless a marker begins outside its place, too. The cut
takes the first place of each marker behind the one before it, so another
occurrence is left in a text, or is taken for the place itself. -/
theorem split_faithful (prompt : Bytes) (markers : List Bytes)
    (hne : ∀ marker ∈ markers, marker ≠ []) :
    CutFaithful prompt markers ↔ ¬ Stray prompt markers := by
  have hsplit : ∀ parts, splitMarkers prompt 0 0 markers [] = .ok parts
      ↔ ∃ places, Placed prompt 0 markers places
        ∧ parts = weave 0 (spansOf prompt 0 markers places) := fun parts =>
    splitMarkers_eq_ok markers 0 0 [] parts hne
  constructor
  · intro hfaithful hstray
    obtain ⟨places, hplaced, p, hp, j, hj, hocc⟩ := hstray
    have honce := hfaithful.1.1 ⟨_, (hsplit _).2 ⟨places, hplaced, rfl⟩⟩
    obtain ⟨i, -, hunique⟩ := honce.1 p.1 (List.of_mem_zip hp).1
    have hplace := hunique p.2 (hplaced.mem.2 p hp).2
    exact hj ((hunique j hocc).trans hplace.symm)
  · intro hstray
    -- a marker begins at its place only
    have hown : ∀ places, Placed prompt 0 markers places →
        ∀ p ∈ markers.zip places, ∀ j, Occurs p.1 prompt j → j = p.2 := by
      intro places hplaced p hp j hocc
      by_contra hj
      exact hstray ⟨places, hplaced, p, hp, j, hj, hocc⟩
    refine ⟨⟨fun h => ?_, fun h => ?_⟩, fun parts h => ?_⟩
    · obtain ⟨parts, h⟩ := h
      obtain ⟨places, hplaced, -⟩ := (hsplit parts).1 h
      exact hplaced.onceInOrder (hown places hplaced)
    · obtain ⟨places, hplaced⟩ := h.placed 0 (fun _ _ _ _ => Nat.zero_le _) hne
      exact ⟨_, (hsplit _).2 ⟨places, hplaced, rfl⟩⟩
    · obtain ⟨places, hplaced, rfl⟩ := (hsplit parts).1 h
      refine ⟨_, length_spansOf hplaced, rfl, rejoin_spansOf hplaced, ?_⟩
      intro span hspan marker hmarker hinfix
      obtain ⟨start, stop, -, heq, hnone⟩ := mem_spansOf hplaced span hspan
      obtain ⟨k, hk⟩ := infix_iff_occurs.1 hinfix
      have hlength := hk.le_length (hne marker hmarker)
      rw [heq, List.length_take] at hlength
      have hpos := List.length_pos_iff.2 (hne marker hmarker)
      -- it would begin in the prompt, away from its place
      have hocc : Occurs marker prompt (start + k) := by
        unfold Occurs at hk ⊢
        rw [heq] at hk
        rw [← List.drop_drop]
        exact hk.trans ((List.take_prefix _ _).drop k)
      have hmem : marker ∈ (markers.zip places).map Prod.fst := by
        rw [List.map_fst_zip (Nat.le_of_eq hplaced.mem.1)]
        exact hmarker
      obtain ⟨p, hp, rfl⟩ := List.mem_map.1 hmem
      have hplace := hown places hplaced p hp _ hocc
      rcases hnone p hp with hbefore | hafter
      · omega
      · omega

end Cut

-- =================================================================== a sample

/-- The markers of two media. -/
def twoMarkers : List Bytes :=
  [mediaMarker (asciiBytes "u") 0, mediaMarker (asciiBytes "u") 1]

/-- A prompt that begins with the second medium and then has both. -/
def repeated : Bytes :=
  mediaMarker (asciiBytes "u") 1 ++ mediaMarker (asciiBytes "u") 0
    ++ mediaMarker (asciiBytes "u") 1

theorem split_faithful_repeated :
    CutFaithful repeated twoMarkers ↔ ¬ Stray repeated twoMarkers :=
  split_faithful repeated twoMarkers (by decide +kernel)

/-- That prompt is cut, although the second marker occurs in it twice. -/
theorem cut_repeated :
    ¬ ∀ (prompt : Bytes) (markers : List Bytes),
      (∀ marker ∈ markers, marker ≠ []) → markers.Nodup →
      (∀ marker ∈ markers, ∀ marker' ∈ markers, marker ≠ marker' →
        ¬ marker <:+: marker') →
      CutFaithful prompt markers := by
  intro h
  have hfaithful := h repeated twoMarkers (by decide +kernel)
    (by decide +kernel) (by decide +kernel)
  have hcut : (splitMarkers repeated 0 0 twoMarkers []).toOption
      = some [.text (mediaMarker (asciiBytes "u") 1), .bitmap 0,
        .bitmap 1] := by
    decide +kernel
  have hok : ∃ parts, splitMarkers repeated 0 0 twoMarkers [] = .ok parts := by
    cases hsplit : splitMarkers repeated 0 0 twoMarkers [] with
    | ok parts => exact ⟨parts, rfl⟩
    | error e =>
        rw [hsplit] at hcut
        cases hcut
  obtain ⟨i, -, hunique⟩ :=
    (hfaithful.1.1 hok).1 (mediaMarker (asciiBytes "u") 1)
    (by decide +kernel)
  have hfirst := hunique 0 (by
    unfold Occurs
    decide +kernel)
  have hlast := hunique (2 * (mediaMarker (asciiBytes "u") 0).length) (by
    unfold Occurs
    decide +kernel)
  rw [← hfirst] at hlast
  exact absurd hlast (by decide +kernel)

end LocalLLM
