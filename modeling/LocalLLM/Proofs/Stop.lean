/-
The stop filter over a whole text.

`pushAll` pushes the chunks of a text one after another; `outputs` are the
pieces that pass, with what `finish` gives at the end. While the filter is
not stopped, `Filtered` describes it by the text so far alone: the text is
what passed and what is pending, no stop string occurs in it, and none may
still begin within what passed. Each `push` either keeps this for the text
with the new chunk, or stops at the first start in it (`push_spec`).

# Cuts

The first chunk at whose end a stop string occurs decides where the text
is cut (`Stopped`). A stop string that starts earlier and is complete only
in a later chunk is too late (`Overtaken`): so long as this cannot happen,
the cut does not depend on the chunks (`outputs_eq_before`).
-/
import LocalLLM.Service.PromptEngine
import LocalLLM.Lib.Search

namespace LocalLLM

namespace QString

/-- `indexOf` finds the first position at which the pattern starts. -/
theorem indexOf_eq_firstStart (s pattern : QString) :
    indexOf s pattern = Search.firstStart [pattern] s := by
  induction s with
  | nil =>
      unfold indexOf Search.firstStart
      simp
  | cons u rest ih =>
      unfold indexOf Search.firstStart
      simp [ih]

/-- `QString::indexOf` finds the first place at which the pattern stands, and
nothing before it. -/
theorem indexOf_eq_some {s pattern : QString} {i : Nat} :
    indexOf s pattern = some i ↔ Search.Occurs pattern s i
      ∧ ∀ j < i, ¬ Search.Occurs pattern s j := by
  rw [indexOf_eq_firstStart, Search.firstStart_eq_some]
  unfold Search.Starts
  simp

/-- A pattern that stands anywhere is found there or earlier, so a search never
misses a match. -/
theorem exists_indexOf {s pattern : QString} {i : Nat}
    (h : Search.Occurs pattern s i) : ∃ j ≤ i, indexOf s pattern = some j := by
  cases hfound : indexOf s pattern with
  | none =>
      rw [indexOf_eq_firstStart, Search.firstStart_eq_none] at hfound
      exact absurd ⟨pattern, List.mem_singleton_self _, h⟩ (hfound i)
  | some j =>
      refine ⟨j, ?_, rfl⟩
      by_contra hlt
      exact (indexOf_eq_some.1 hfound).2 i (by omega) h

end QString

namespace StopFilter

open Search

-- ============================================================ what is matched

theorem mem_matches {stops : List QString} {t : QString} {i : Nat} :
    (i ∈ stops.filterMap fun stop => QString.indexOf t stop)
      ↔ ∃ stop ∈ stops, QString.indexOf t stop = some i := by
  simp [List.mem_filterMap]

/-- The first match is the first start of a stop string. -/
theorem firstMatch_eq_some {stops : List QString} {t : QString} {i : Nat} :
    firstMatch stops t = some i
      ↔ Starts stops t i ∧ ∀ j < i, ¬ Starts stops t j := by
  unfold firstMatch
  rw [List.min?_eq_some_iff]
  simp only [mem_matches]
  constructor
  · intro h
    obtain ⟨hfound, hleast⟩ := h
    obtain ⟨stop, hstop, hi⟩ := hfound
    refine ⟨⟨stop, hstop, (QString.indexOf_eq_some.1 hi).1⟩, ?_⟩
    intro j hj hstart
    obtain ⟨other, hother, hocc⟩ := hstart
    obtain ⟨k, hk, hfound⟩ := QString.exists_indexOf hocc
    have hle := hleast k ⟨other, hother, hfound⟩
    omega
  · intro h
    obtain ⟨hstart, hleast⟩ := h
    obtain ⟨stop, hstop, hocc⟩ := hstart
    constructor
    · obtain ⟨k, hk, hfound⟩ := QString.exists_indexOf hocc
      have hstart := (QString.indexOf_eq_some.1 hfound).1
      have hge : ¬ k < i := fun hlt => hleast k hlt ⟨stop, hstop, hstart⟩
      have heq : k = i := by omega
      exact ⟨stop, hstop, heq ▸ hfound⟩
    · intro k hk
      obtain ⟨other, hother, hfound⟩ := hk
      by_contra hlt
      exact hleast k (by omega)
        ⟨other, hother, (QString.indexOf_eq_some.1 hfound).1⟩

/-- The loop over the stop strings keeps the earliest of their matches, which
is the first start of the abstract filter. -/
theorem firstMatch_eq (stops : List QString) (t : QString) :
    firstMatch stops t = firstStart stops t := by
  cases hfirst : firstStart stops t with
  | some i => exact firstMatch_eq_some.2 (firstStart_eq_some.1 hfirst)
  | none =>
      cases hmatch : firstMatch stops t with
      | none => rfl
      | some i =>
          have hstart := (firstMatch_eq_some.1 hmatch).1
          exact absurd hstart (firstStart_eq_none.1 hfirst i)

-- =============================================================== what is held

/-- A running maximum is at least each of the numbers it has seen and at least
the one it began with. -/
theorem le_foldl_max {l : List Nat} {n m : Nat} (h : n ≤ m ∨ n ∈ l) :
    n ≤ l.foldl max m := by
  induction l generalizing m with
  | nil =>
      cases h with
      | inl h => exact h
      | inr h => cases h
  | cons a l ih =>
      apply ih
      cases h with
      | inl h => exact Or.inl (le_trans h (Nat.le_max_left _ _))
      | inr h =>
          cases List.mem_cons.1 h with
          | inl h => exact Or.inl (h ▸ Nat.le_max_right _ _)
          | inr h => exact Or.inr h

/-- A running maximum is one of those numbers: it never invents a
value of its own. -/
theorem foldl_max_cases (l : List Nat) (m : Nat) :
    l.foldl max m = m ∨ l.foldl max m ∈ l := by
  induction l generalizing m with
  | nil => exact Or.inl rfl
  | cons a l ih =>
      rw [List.foldl_cons]
      cases ih (max m a) with
      | inr h => exact Or.inr (List.mem_cons_of_mem _ h)
      | inl h =>
          rw [h]
          by_cases hle : a ≤ m
          · exact Or.inl (Nat.max_eq_left hle)
          · rw [Nat.max_eq_right (by omega)]
            exact Or.inr List.mem_cons_self

/-- The lengths `push` tries: of a proper beginning of a stop string that
ends what is pending. -/
theorem mem_held {stops : List QString} {t : QString} {n : Nat} :
    (n ∈ stops.flatMap fun stop => (List.range stop.length).filter fun n =>
      decide (1 ≤ n ∧ n ≤ t.length) && QString.endsWith t (stop.take n))
      ↔ ∃ stop ∈ stops, n < stop.length ∧ 1 ≤ n ∧ n ≤ t.length
        ∧ stop.take n <:+ t := by
  simp [QString.endsWith, and_assoc]

/-- A proper beginning of a stop string at the end of the text is kept back,
since the next chunk may complete it. -/
theorem le_heldBy {stops : List QString} {t stop : QString} {n : Nat}
    (hstop : stop ∈ stops) (hn : n < stop.length) (hpos : 1 ≤ n)
    (hle : n ≤ t.length) (hend : stop.take n <:+ t) : n ≤ heldBy stops t :=
  le_foldl_max (Or.inr (mem_held.2 ⟨stop, hstop, hn, hpos, hle, hend⟩))

/-- What is held back for a stop string is a proper beginning of one. -/
theorem heldBy_cases (stops : List QString) (t : QString) :
    heldBy stops t = 0 ∨ ∃ stop ∈ stops, heldBy stops t < stop.length
      ∧ 1 ≤ heldBy stops t ∧ heldBy stops t ≤ t.length
      ∧ stop.take (heldBy stops t) <:+ t := by
  cases foldl_max_cases (stops.flatMap fun stop =>
      (List.range stop.length).filter fun n =>
        decide (1 ≤ n ∧ n ≤ t.length) && QString.endsWith t (stop.take n)) 0
            with
  | inl h => exact Or.inl h
  | inr h => exact Or.inr (mem_held.1 h)

/-- Keeping back may grow by one code unit, never shrink, where the cut would
fall between two surrogates. -/
theorem heldBy_le_held (stops : List QString) (t : QString) :
    heldBy stops t ≤ held stops t := by
  unfold held
  split
  · exact Nat.le_max_left _ _
  · exact le_rfl

/-- No more is kept back than there is, so the split below never reaches before
the text. -/
theorem held_le_length (stops : List QString) (t : QString) :
    held stops t ≤ t.length := by
  have hby : heldBy stops t ≤ t.length := by
    cases heldBy_cases stops t with
    | inl h => omega
    | inr h =>
        obtain ⟨-, -, -, -, hle, -⟩ := h
        exact hle
  unfold held
  split
  case isFalse => exact hby
  case isTrue hhigh =>
    cases t with
    | nil => cases hhigh
    | cons u t => exact Nat.max_le.2 ⟨hby, by simp⟩

/-- A stop string that is not in the text, but may still begin at its end,
begins within what is held back. -/
theorem length_le_held {stops : List QString} {t stop : QString} {i : Nat}
    (hno : ∀ i, ¬ Starts stops t i) (hstop : stop ∈ stops)
    (hi : i < t.length) (hbegin : t.drop i <+: stop) :
    t.length - i ≤ held stops t := by
  have hlen : (t.drop i).length = t.length - i := List.length_drop
  have hle := hbegin.length_le
  have hproper : t.length - i < stop.length := by
    by_contra hge
    have heq : t.drop i = stop := hbegin.eq_of_length (by omega)
    exact hno i ⟨stop, hstop, by unfold Occurs; rw [heq]⟩
  have htake : t.drop i = stop.take (t.length - i) := by
    have h := List.prefix_iff_eq_take.1 hbegin
    rwa [hlen] at h
  apply le_trans _ (heldBy_le_held stops t)
  exact le_heldBy hstop hproper (by omega) (by omega)
    (htake ▸ List.drop_suffix i t)

-- =================================================================== one push

/-- The pieces that pass for the chunks of a text, and the filter
after them. -/
def pushAll (f : StopFilter) : List QString → List QString × StopFilter
  | [] => ([], f)
  | chunk :: chunks =>
      let (piece, f) := f.push chunk
      let (pieces, f) := pushAll f chunks
      (piece :: pieces, f)

/-- The pieces that pass for the chunks of a text, and what is
left at its end. -/
def outputs (stops : List QString) (chunks : List QString) : List QString :=
  let (pieces, f) := pushAll { stops } chunks
  pieces ++ [f.finish.1]

/-- A filter that has let `out` pass of the text `t` and is not stopped. -/
structure Filtered (stops : List QString) (t out : QString)
    (f : StopFilter) : Prop where
  same : f.stops = stops
  running : f.stopped = false
  text : t = out ++ f.pending
  /-- No stop string occurs. -/
  absent : ∀ i, ¬ Starts stops t i
  /-- None may still begin within what has passed. -/
  closed : ∀ i < out.length, ∀ stop ∈ stops, ¬ t.drop i <+: stop

/-- Before the first chunk nothing is pending and nothing has
been handed on. -/
theorem Filtered.start {stops : List QString}
    (hne : ∀ stop ∈ stops, stop ≠ []) : Filtered stops [] [] { stops } where
  same := rfl
  running := rfl
  text := rfl
  absent := by
    intro i h
    obtain ⟨stop, hstop, hocc⟩ := h
    exact absurd (hocc.lt_length (hne stop hstop)) (Nat.not_lt_zero i)
  closed := fun i h => absurd h (Nat.not_lt_zero i)

/-- With the next chunk, no stop string starts within what has passed. -/
theorem Filtered.starts_ge {stops : List QString} {t out chunk : QString}
    {f : StopFilter} (h : Filtered stops t out f) {i : Nat}
    (hstart : Starts stops (t ++ chunk) i) : out.length ≤ i := by
  by_contra hlt
  have hlen := congrArg List.length h.text
  rw [List.length_append] at hlen
  cases hstart.of_append (by omega) with
  | inl hstart => exact h.absent i hstart
  | inr hbegin =>
      obtain ⟨stop, hstop, hbegin⟩ := hbegin
      exact h.closed i (by omega) stop hstop hbegin

/-- A push either stops the filter at the first start of a stop string, or
leaves a filter that has let the piece pass too. -/
theorem push_spec {stops : List QString} {t out : QString} {f : StopFilter}
    (h : Filtered stops t out f) (chunk : QString) :
    (∃ i, firstStart stops (t ++ chunk) = some i
        ∧ out ++ (f.push chunk).1 = (t ++ chunk).take i
        ∧ (f.push chunk).2.stopped = true
        ∧ (f.push chunk).2.pending = [])
      ∨ Filtered stops (t ++ chunk) (out ++ (f.push chunk).1)
          (f.push chunk).2 := by
  have htext : t ++ chunk = out ++ (f.pending ++ chunk) := by
    rw [h.text, List.append_assoc]
  unfold push
  rw [h.running, h.same]
  simp only [Bool.false_eq_true, if_false]
  cases hmatch : firstMatch stops (f.pending ++ chunk) with
  | some pos =>
      left
      obtain ⟨hstart, hleast⟩ := firstMatch_eq_some.1 hmatch
      refine ⟨out.length + pos, ?_, ?_, rfl, rfl⟩
      · rw [firstStart_eq_some, htext]
        refine ⟨starts_append_left.2 hstart, ?_⟩
        intro j hj hstartj
        have hge := h.starts_ge (htext ▸ hstartj)
        obtain ⟨k, rfl⟩ := Nat.exists_eq_add_of_le hge
        exact hleast k (by omega) (starts_append_left.1 hstartj)
      · rw [htext, List.take_length_add_append]
  | none =>
      right
      have habsent : ∀ i, ¬ Starts stops (f.pending ++ chunk) i := by
        rw [firstMatch_eq] at hmatch
        exact firstStart_eq_none.1 hmatch
      have hheld := held_le_length stops (f.pending ++ chunk)
      -- the part of the pending text that passes
      generalize hn : (f.pending ++ chunk).length
        - held stops (f.pending ++ chunk) = n
      have hlen : ((f.pending ++ chunk).take n).length = n := by
        rw [List.length_take]
        omega
      refine ⟨rfl, rfl, ?_, ?_, ?_⟩
      · simp only [hlen]
        rw [htext, List.append_assoc, List.take_append_drop]
      · intro i hstart
        have hge := h.starts_ge hstart
        obtain ⟨k, rfl⟩ := Nat.exists_eq_add_of_le hge
        rw [htext] at hstart
        exact habsent k (starts_append_left.1 hstart)
      · intro i hi stop hstop hbegin
        rw [List.length_append, hlen] at hi
        by_cases hlt : i < out.length
        · apply h.closed i hlt stop hstop
          have hlen := congrArg List.length h.text
          rw [List.length_append] at hlen
          rw [List.drop_append_of_le_length (by omega)] at hbegin
          exact (List.prefix_append _ _).trans hbegin
        · obtain ⟨k, rfl⟩ := Nat.exists_eq_add_of_le (Nat.le_of_not_lt hlt)
          rw [htext, ← List.drop_drop, List.drop_left] at hbegin
          have hk := length_le_held habsent hstop (by omega) hbegin
          omega

-- ================================================================ a whole run

/-- A text that was cut: at the end of some chunk a stop string occurred
for the first time, and everything before the first start in the text so
far has passed. -/
def Stopped (stops : List QString) (t : QString) (chunks : List QString)
    (out : QString) : Prop :=
  ∃ done chunk rest i, chunks = done ++ chunk :: rest
    ∧ (∀ j, ¬ Starts stops (t ++ done.flatten) j)
    ∧ firstStart stops (t ++ (done ++ [chunk]).flatten) = some i
    ∧ out = (t ++ (done ++ [chunk]).flatten).take i

/-- A stopped filter lets nothing pass. -/
theorem pushAll_stopped {f : StopFilter} (hf : f.stopped = true)
    (chunks : List QString) :
    (pushAll f chunks).2 = f ∧ (pushAll f chunks).1.flatten = [] := by
  induction chunks with
  | nil => exact ⟨rfl, rfl⟩
  | cons chunk chunks ih =>
      have hpush : f.push chunk = ([], f) := by
        unfold push
        rw [if_pos hf]
      unfold pushAll
      simp only [hpush]
      exact ⟨ih.1, by rw [List.flatten_cons, ih.2]; rfl⟩

/-- The whole run: the filter is not stopped, or the text was cut. The
induction is on the chunks, with the text so far as its parameter. -/
theorem pushAll_spec {stops : List QString} (chunks : List QString) :
    ∀ {t out : QString} {f : StopFilter}, Filtered stops t out f →
    Filtered stops (t ++ chunks.flatten) (out ++ (pushAll f chunks).1.flatten)
        (pushAll f chunks).2
      ∨ ((pushAll f chunks).2.stopped = true
          ∧ (pushAll f chunks).2.pending = []
          ∧ Stopped stops t chunks (out ++ (pushAll f chunks).1.flatten)) := by
  induction chunks with
  | nil =>
      intro t out f h
      left
      simpa [pushAll] using h
  | cons chunk chunks ih =>
      intro t out f h
      unfold pushAll
      simp only [List.flatten_cons, ← List.append_assoc]
      cases push_spec h chunk with
      | inl hstop =>
          right
          obtain ⟨i, hfirst, hout, hstopped, hpending⟩ := hstop
          obtain ⟨hsame, hnothing⟩ := pushAll_stopped hstopped chunks
          rw [hsame, hnothing, List.append_nil]
          refine ⟨hstopped, hpending, [], chunk, chunks, i, rfl, ?_, ?_, ?_⟩
          · simpa using h.absent
          · simpa using hfirst
          · simpa using hout
      | inr h =>
          cases ih h with
          | inl h => exact Or.inl h
          | inr hcut =>
              right
              obtain ⟨hstopped, hpending, done, next, rest, i, hsplit, habsent,
                hfirst, hout⟩ := hcut
              refine ⟨hstopped, hpending, chunk :: done, next, rest, i,
                by rw [hsplit]; rfl, ?_, ?_, ?_⟩
              · intro j
                rw [List.flatten_cons, ← List.append_assoc]
                exact habsent j
              · rw [List.cons_append, List.flatten_cons, ← List.append_assoc]
                exact hfirst
              · rw [List.cons_append, List.flatten_cons, ← List.append_assoc]
                exact hout

-- ============================================================ surrogate pairs

/-- The position lies between the two halves of a surrogate pair. -/
def SplitsPair (t : QString) (i : Nat) : Prop :=
  ∃ j u v, i = j + 1 ∧ t[j]? = some u ∧ t[i]? = some v
    ∧ isHighSurrogate u = true ∧ isLowSurrogate v = true

/-- The position does not lie between the halves of a pair, and will not
when the text goes on. -/
def Whole (t : QString) (i : Nat) : Prop :=
  ∀ j u, i = j + 1 → t[j]? = some u → isHighSurrogate u = true →
    ∃ v, t[i]? = some v ∧ isLowSurrogate v = false

theorem whole_zero (t : QString) : Whole t 0 := by
  intro j u h
  cases h

/-- A cut between whole characters leaves no surrogate pair across it. -/
theorem Whole.not_splits {t : QString} {i : Nat} (h : Whole t i) :
    ¬ SplitsPair t i := by
  intro hsplit
  obtain ⟨j, u, v, hij, hu, hv, hhigh, hlow⟩ := hsplit
  obtain ⟨w, hw, hnot⟩ := h j u hij hu hhigh
  rw [hv] at hw
  injection hw with hw
  rw [hw, hnot] at hlow
  cases hlow

/-- Whether a place is between whole characters is decided by the
text before it. -/
theorem Whole.append {t : QString} {i : Nat} (h : Whole t i)
    (hi : i ≤ t.length) (x : QString) : Whole (t ++ x) i := by
  intro j u hij hu hhigh
  rw [List.getElem?_append_left (by omega)] at hu
  obtain ⟨v, hv, hnot⟩ := h j u hij hu hhigh
  have hlt : i < t.length := (List.getElem?_eq_some_iff.1 hv).1
  exact ⟨v, by rw [List.getElem?_append_left hlt]; exact hv, hnot⟩

/-- Where a unit that is not the second half of a pair stands,
nothing is split. -/
theorem whole_of_not_low {t : QString} {i : Nat} {v : QChar}
    (hv : t[i]? = some v) (hnot : isLowSurrogate v = false) : Whole t i :=
  fun _ _ _ _ _ => ⟨v, hv, hnot⟩

/-- The two surrogate ranges are disjoint, so one code unit never ends a pair
and begins another. -/
theorem not_low_of_high {u : QChar} (h : isHighSurrogate u = true) :
    isLowSurrogate u = false := by
  unfold isHighSurrogate at h
  unfold isLowSurrogate
  simp only [Bool.and_eq_true, decide_eq_true_eq, UInt16.le_iff_toNat_le] at h
  simp only [Bool.and_eq_false_iff, decide_eq_false_iff_not,
    UInt16.le_iff_toNat_le]
  have hhigh : u.toNat ≤ 0xDBFF := h.2
  exact Or.inl fun hlow => absurd (le_trans hlow hhigh) (by decide)

/-- A well-formed string does not begin with the second half of a pair. -/
theorem not_low_of_paired {u : QChar} {rest : QString}
    (h : paired (u :: rest) = true) : isLowSurrogate u = false := by
  by_cases hhigh : isHighSurrogate u = true
  · exact not_low_of_high hhigh
  · cases rest with
    | nil =>
        simp only [paired, Bool.and_eq_true, Bool.not_eq_true'] at h
        exact h.2
    | cons v rest =>
        simp only [paired, if_neg hhigh, Bool.and_eq_true,
          Bool.not_eq_true'] at h
        exact h.1

/-- Nothing is split where a string that is well formed begins. -/
theorem whole_of_occurs {p stop t : QString} {i : Nat} (hne : p ≠ [])
    (hbegin : p <+: stop) (hpaired : paired stop = true)
    (hocc : Occurs p t i) : Whole t i := by
  cases p with
  | nil => exact absurd rfl hne
  | cons u p =>
      obtain ⟨rest, rfl⟩ := hbegin
      obtain ⟨after, hafter⟩ := hocc
      apply whole_of_not_low (v := u) _ (not_low_of_paired hpaired)
      have h := congrArg (fun l => l[0]?) hafter
      simpa using h.symm

/-- What is held back is whole: the cut before it does not fall between two
surrogates. -/
theorem whole_held {stops : List QString}
    (hpaired : ∀ stop ∈ stops, paired stop = true) (t : QString) :
    Whole t (t.length - held stops t) := by
  cases heldBy_cases stops t with
  | inr h =>
      obtain ⟨stop, hstop, hlt, hpos, hle, hend⟩ := h
      have hheld : held stops t = heldBy stops t := by
        unfold held
        split <;> omega
      have hlen : (stop.take (heldBy stops t)).length = heldBy stops t := by
        rw [List.length_take]
        omega
      rw [hheld]
      apply whole_of_occurs _ (List.take_prefix _ _) (hpaired stop hstop)
      · have hdrop := List.suffix_iff_eq_drop.1 hend
        rw [hlen] at hdrop
        unfold Occurs
        rw [← hdrop]
      · intro hnil
        rw [hnil, List.length_nil] at hlen
        omega
  | inl h =>
      intro j u hij hu hhigh
      have hlast : t.getLast? = t[t.length - 1]? := List.getLast?_eq_getElem?
      unfold held at hij ⊢
      rw [h] at hij ⊢
      split at hij
      case isTrue hany =>
        rw [if_pos hany]
        simp only [Nat.zero_max] at hij ⊢
        cases hend : t.getLast? with
        | none => rw [hend] at hany; cases hany
        | some v =>
            rw [hend] at hany
            exact ⟨v, hlast ▸ hend, not_low_of_high hany⟩
      case isFalse hany =>
        refine absurd ?_ hany
        have hj : t.length - 1 = j := by omega
        rw [hlast, hj, hu]
        exact hhigh

/-- Places between whole characters of a later text stay such places when a
whole text stands before it. -/
theorem Whole.shift {s t : QString} {n : Nat} (h : Whole t n)
    (hzero : Whole (s ++ t) s.length) : Whole (s ++ t) (s.length + n) := by
  cases n with
  | zero => exact hzero
  | succ n =>
      intro j u hij hu hhigh
      have hj : j = s.length + n := by omega
      rw [hj, List.getElem?_append_right (by omega),
        Nat.add_sub_cancel_left] at hu
      obtain ⟨v, hv, hnot⟩ := h n u rfl hu hhigh
      refine ⟨v, ?_, hnot⟩
      rw [List.getElem?_append_right (by omega), Nat.add_sub_cancel_left]
      exact hv

/-- What passes ends where nothing is split. -/
theorem push_whole {stops : List QString} (hne : ∀ stop ∈ stops, stop ≠ [])
    (hpaired : ∀ stop ∈ stops, paired stop = true) {t out : QString}
    {f : StopFilter} (h : Filtered stops t out f)
    (hwhole : Whole t out.length) (chunk : QString) :
    Whole (t ++ chunk) (out ++ (f.push chunk).1).length := by
  have htext : t ++ chunk = out ++ (f.pending ++ chunk) := by
    rw [h.text, List.append_assoc]
  have hzero : Whole (out ++ (f.pending ++ chunk)) out.length := by
    rw [← htext]
    apply hwhole.append
    rw [h.text, List.length_append]
    omega
  rw [htext, List.length_append]
  unfold push
  rw [h.running, h.same]
  simp only [Bool.false_eq_true, if_false]
  cases hmatch : firstMatch stops (f.pending ++ chunk) with
  | some pos =>
      obtain ⟨stop, hstop, hocc⟩ := (firstMatch_eq_some.1 hmatch).1
      have hlt := hocc.lt_length (hne stop hstop)
      simp only [List.length_take, Nat.min_eq_left (Nat.le_of_lt hlt)]
      exact (whole_of_occurs (hne stop hstop) (List.prefix_refl _)
        (hpaired stop hstop) hocc).shift hzero
  | none =>
      simp only [List.length_take, Nat.min_eq_left (Nat.sub_le _ _)]
      exact (whole_held hpaired _).shift hzero

/-- Wherever a piece of the run ends, nothing is split. -/
theorem pushAll_whole {stops : List QString} (hne : ∀ stop ∈ stops, stop ≠ [])
    (hpaired : ∀ stop ∈ stops, paired stop = true) (chunks : List QString) :
    ∀ {t out : QString} {f : StopFilter}, Filtered stops t out f →
    Whole t out.length → ∀ k,
      Whole (t ++ chunks.flatten)
        (out ++ ((pushAll f chunks).1.take k).flatten).length := by
  induction chunks with
  | nil =>
      intro t out f h hwhole k
      simpa [pushAll] using hwhole
  | cons chunk chunks ih =>
      intro t out f h hwhole k
      have hle : out.length ≤ t.length := by
        rw [h.text, List.length_append]
        omega
      cases k with
      | zero =>
          simpa using hwhole.append hle (chunk :: chunks).flatten
      | succ k =>
          have hnext := push_whole hne hpaired h hwhole chunk
          unfold pushAll
          simp only [List.take_succ_cons, List.flatten_cons,
            ← List.append_assoc]
          cases push_spec h chunk with
          | inr h => exact ih h hnext k
          | inl hstop =>
              obtain ⟨i, hfirst, hout, hstopped, -⟩ := hstop
              -- nothing passes any more
              have hnothing :
                ((pushAll (f.push chunk).2 chunks).1.take k).flatten
                  = [] := by
                have hall := (pushAll_stopped hstopped chunks).2
                rw [List.flatten_eq_nil_iff] at hall ⊢
                exact fun l hl => hall l (List.mem_of_mem_take hl)
              rw [hnothing, List.append_nil]
              apply hnext.append
              rw [hout]
              exact List.length_take_le' _ _

-- ============================================================= the whole text

/-- A run over a whole text. -/
theorem run_spec {stops : List QString} (hne : ∀ stop ∈ stops, stop ≠ [])
    (chunks : List QString) :
    ((pushAll { stops } chunks).2.stopped = false
        ∧ (outputs stops chunks).flatten = chunks.flatten
        ∧ ∀ i, ¬ Starts stops chunks.flatten i)
      ∨ ((pushAll { stops } chunks).2.stopped = true
        ∧ Stopped stops [] chunks (outputs stops chunks).flatten) := by
  unfold outputs finish
  simp only [List.flatten_append, List.flatten_cons, List.flatten_nil,
    List.append_nil]
  cases pushAll_spec chunks (Filtered.start hne) with
  | inl h =>
      have htext := h.text
      have habsent := h.absent
      simp only [List.nil_append] at htext habsent
      exact Or.inl ⟨h.running, htext.symm, habsent⟩
  | inr h =>
      obtain ⟨hstopped, hpending, hcut⟩ := h
      rw [hpending, List.append_nil]
      exact Or.inr ⟨hstopped, hcut⟩

/-- That a stop string occurs somewhere and that one starts at some place are
the same statement. -/
theorem exists_infix_iff {stops : List QString} {t : QString} :
    (∃ stop ∈ stops, stop <:+: t) ↔ ∃ i, Starts stops t i := by
  unfold Starts
  constructor
  · intro h
    obtain ⟨stop, hstop, hinfix⟩ := h
    obtain ⟨i, hi⟩ := infix_iff_occurs.1 hinfix
    exact ⟨i, stop, hstop, hi⟩
  · intro h
    obtain ⟨i, stop, hstop, hi⟩ := h
    exact ⟨stop, hstop, infix_iff_occurs.2 ⟨i, hi⟩⟩

theorem no_infix_iff {stops : List QString} {t : QString} :
    (∀ stop ∈ stops, ¬ stop <:+: t) ↔ ∀ i, ¬ Starts stops t i := by
  rw [← not_exists, ← exists_infix_iff]
  simp

/-- A text that was cut is cut at the first start of a stop string in the
chunks up to some point. -/
theorem Stopped.before {stops : List QString} {chunks : List QString}
    {out : QString} (h : Stopped stops [] chunks out) :
    ∃ t, t <+: chunks.flatten ∧ out = Search.before stops t
      ∧ ∃ i, Starts stops t i := by
  obtain ⟨done, chunk, rest, i, hsplit, -, hfirst, hout⟩ := h
  rw [List.nil_append] at hfirst hout
  refine ⟨(done ++ [chunk]).flatten, ⟨rest.flatten, ?_⟩, ?_, i,
    (firstStart_eq_some.1 hfirst).1⟩
  · rw [hsplit]
    simp
  · rw [hout, before_of_start hfirst]

/-- What has been handed on is a beginning of the model's text: nothing is
added, dropped or reordered. -/
theorem outputs_begin {stops : List QString} (hne : ∀ stop ∈ stops, stop ≠ [])
    (chunks : List QString) :
    (outputs stops chunks).flatten <+: chunks.flatten := by
  cases run_spec hne chunks with
  | inl h =>
      rw [h.2.1]
  | inr h =>
      obtain ⟨t, ht, hout, -⟩ := h.2.before
      rw [hout]
      exact (before_begins stops t).trans ht

/-- No stop string starts anywhere in what has been handed on, also not across
the border of two chunks. -/
theorem outputs_no_stop {stops : List QString}
    (hne : ∀ stop ∈ stops, stop ≠ []) (chunks : List QString) (i : Nat) :
    ¬ Starts stops (outputs stops chunks).flatten i := by
  cases run_spec hne chunks with
  | inl h =>
      rw [h.2.1]
      exact h.2.2 i
  | inr h =>
      obtain ⟨t, -, hout, -⟩ := h.2.before
      rw [hout]
      exact not_starts_before hne t i

/-- The filter stops exactly when some stop string occurs in the whole text,
however the chunks cut it. -/
theorem stopped_iff {stops : List QString} (hne : ∀ stop ∈ stops, stop ≠ [])
    (chunks : List QString) :
    (pushAll { stops } chunks).2.stopped = true
      ↔ ∃ i, Starts stops chunks.flatten i := by
  cases run_spec hne chunks with
  | inl h =>
      obtain ⟨hrunning, -, habsent⟩ := h
      rw [hrunning]
      constructor
      · intro h
        cases h
      · intro h
        obtain ⟨i, hi⟩ := h
        exact absurd hi (habsent i)
  | inr h =>
      obtain ⟨hstopped, hcut⟩ := h
      obtain ⟨t, ⟨u, hu⟩, -, i, hi⟩ := hcut.before
      constructor
      · intro _
        exact ⟨i, hu ▸ hi.append_right hne u⟩
      · intro _
        exact hstopped

/-- No piece of a run ends within a surrogate pair, the last one
included. -/
theorem outputs_whole {stops : List QString} (hne : ∀ stop ∈ stops, stop ≠ [])
    (hpaired : ∀ stop ∈ stops, paired stop = true) (chunks : List QString)
    (k : Nat) :
    ¬ SplitsPair chunks.flatten
      ((outputs stops chunks).take k).flatten.length := by
  have hwhole := fun k =>
    (pushAll_whole hne hpaired chunks (Filtered.start hne) (whole_zero []) k)
  simp only [List.nil_append] at hwhole
  unfold outputs finish
  by_cases hk : k ≤ (pushAll { stops } chunks).1.length
  · rw [List.take_append_of_le_length hk]
    exact (hwhole k).not_splits
  · rw [List.take_of_length_le (by simp; omega), List.flatten_append]
    simp only [List.flatten_cons, List.flatten_nil, List.append_nil]
    cases pushAll_spec chunks (Filtered.start hne) with
    | inl h =>
        have htext := h.text
        simp only [List.nil_append] at htext
        rw [← htext]
        -- the text ends there
        intro hsplit
        obtain ⟨j, u, v, -, -, hv, -⟩ := hsplit
        have hlt := (List.getElem?_eq_some_iff.1 hv).1
        omega
    | inr h =>
        rw [h.2.1, List.append_nil, ← List.take_length
          (l := (pushAll { stops } chunks).1)]
        exact (hwhole _).not_splits

/-- **What passes the filter.** It is a beginning of the text and has no
stop string in it, the filter has stopped if and only if a stop string
occurs in the text, and a text without one passes whole. When the stop
strings are well formed, no piece ends within a surrogate pair. -/
theorem outputs_safe {stops : List QString} (hne : ∀ stop ∈ stops, stop ≠ [])
    (chunks : List QString) :
    (outputs stops chunks).flatten <+: chunks.flatten
      ∧ (∀ stop ∈ stops, ¬ stop <:+: (outputs stops chunks).flatten)
      ∧ ((pushAll { stops } chunks).2.stopped = true
          ↔ ∃ stop ∈ stops, stop <:+: chunks.flatten)
      ∧ ((∀ stop ∈ stops, ¬ stop <:+: chunks.flatten) →
          (outputs stops chunks).flatten = chunks.flatten)
      ∧ ((∀ stop ∈ stops, paired stop = true) → ∀ k,
          ¬ SplitsPair chunks.flatten
            ((outputs stops chunks).take k).flatten.length) := by
  refine ⟨outputs_begin hne chunks, ?_, ?_, ?_, ?_⟩
  · exact no_infix_iff.2 (outputs_no_stop hne chunks)
  · rw [exists_infix_iff]
    exact stopped_iff hne chunks
  · intro hno
    rw [no_infix_iff] at hno
    cases run_spec hne chunks with
    | inl h => exact h.2.1
    | inr h =>
        obtain ⟨i, hi⟩ := (stopped_iff hne chunks).1 h.1
        exact absurd hi (hno i)
  · intro hpaired
    exact outputs_whole hne hpaired chunks

/-- The first chunk ends within a surrogate pair, and the stop string
comes in the two others. -/
def cutChunks : List QString :=
  [qs "ab" ++ [0xd83d], [0xde00] ++ qs "ST", qs "OPtail"]

/-- The pair is handed on in one piece, and the text ends before
the stop string. -/
theorem outputs_safe_across_chunks :
    (outputs [qs "STOP"] cutChunks).flatten = qs "ab" ++ [0xd83d, 0xde00]
      ∧ (pushAll { stops := [qs "STOP"] } cutChunks).2.stopped = true
      ∧ SplitsPair cutChunks.flatten (qs "ab" ++ [0xd83d]).length
      ∧ ∀ k, ¬ SplitsPair cutChunks.flatten
        ((outputs [qs "STOP"] cutChunks).take k).flatten.length :=
  have h := @outputs_safe [qs "STOP"] (by decide) cutChunks
  ⟨by decide, h.2.2.1.2 ⟨qs "STOP", by decide, by decide⟩,
    ⟨2, 0xd83d, 0xde00, rfl, rfl, rfl, by decide⟩,
    h.2.2.2.2 (by decide)⟩

-- ============================================================== where it cuts

/-- At the end of some chunk one stop string is complete, and another that
starts earlier is complete only in a later chunk. -/
def Overtaken (stops chunks : List QString) : Prop :=
  ∃ k i j, Starts stops (chunks.take k).flatten i
    ∧ Starts stops chunks.flatten j
    ∧ ∀ l ≤ j, ¬ Starts stops (chunks.take k).flatten l

/-- Less than the whole of some stop string already has one in it, but none
at its front. -/
def Overtakable (stops : List QString) : Prop :=
  ∃ stop ∈ stops, ∃ n < stop.length, (∃ inner ∈ stops, inner <:+: stop.take n)
    ∧ ∀ inner ∈ stops, ¬ inner <+: stop.take n

theorem take_append_flatten (chunks : List QString) (k : Nat) :
    (chunks.take k).flatten ++ (chunks.drop k).flatten = chunks.flatten := by
  rw [← List.flatten_append, List.take_append_drop]

/-- The text is cut at the first start of a stop string in all of it, unless
another stop string overtakes it. -/
theorem outputs_eq_before {stops : List QString}
    (hne : ∀ stop ∈ stops, stop ≠ []) (chunks : List QString) :
    (outputs stops chunks).flatten = Search.before stops chunks.flatten
      ↔ ¬ Overtaken stops chunks := by
  cases run_spec hne chunks with
  | inl h =>
      obtain ⟨-, htext, habsent⟩ := h
      rw [htext, before_of_none habsent]
      constructor
      · intro _ hover
        obtain ⟨-, -, j, -, hj, -⟩ := hover
        exact habsent j hj
      · intro _
        rfl
  | inr h =>
      obtain ⟨-, done, chunk, rest, i, hsplit, habsent, hfirst, hout⟩ := h
      rw [List.nil_append] at hfirst hout
      simp only [List.nil_append] at habsent
      -- the text so far, and the rest
      have htake : done ++ [chunk] = chunks.take (done.length + 1) := by
        rw [hsplit, List.take_length_add_append]
        rfl
      have htext := take_append_flatten chunks (done.length + 1)
      rw [htake] at hfirst hout
      have hi := (firstStart_eq_some.1 hfirst).1
      have hilt : i < (chunks.take (done.length + 1)).flatten.length := by
        obtain ⟨stop, hstop, hocc⟩ := hi
        exact hocc.lt_length (hne stop hstop)
      cases hall : firstStart stops chunks.flatten with
      | none =>
          rw [← htext] at hall
          exact absurd (hi.append_right hne _) (firstStart_eq_none.1 hall i)
      | some j =>
          obtain ⟨hj, hleast⟩ := firstStart_eq_some.1 hall
          have hji : j ≤ i := by
            rw [← htext] at hall
            exact firstStart_append_le hne hfirst hall
          rw [hout, before_of_start hall]
          constructor
          · intro heq hover
            obtain ⟨k, a, b, ha, hb, hno⟩ := hover
            have hlen := congrArg List.length heq
            rw [List.length_take, List.length_take, ← htext,
              List.length_append] at hlen
            -- a stop string occurs only in chunks that reach the cut
            have hk : done.length < k := by
              by_contra hle
              have hbegin := take_append_flatten done k
              have hdone : chunks.take k = done.take k := by
                rw [hsplit, List.take_append_of_le_length (by omega)]
              rw [hdone] at ha
              exact habsent a (hbegin ▸ ha.append_right hne _)
            have hmore : ∃ u, (chunks.take k).flatten
                = (chunks.take (done.length + 1)).flatten ++ u := by
              have h := take_append_flatten (chunks.take k) (done.length + 1)
              rw [List.take_take, Nat.min_eq_left hk] at h
              exact ⟨_, h.symm⟩
            obtain ⟨u, hu⟩ := hmore
            by_cases hib : i ≤ b
            · exact hno i hib (hu ▸ hi.append_right hne u)
            · exact hleast b (by omega) hb
          · intro hnot
            by_cases hlt : j < i
            · refine absurd ⟨done.length + 1, i, j, hi, hj, ?_⟩ hnot
              intro l hl
              exact (firstStart_eq_some.1 hfirst).2 l (by omega)
            · have heq : j = i := by omega
              rw [heq, ← htext, List.take_append_of_le_length (by omega)]

/-- Only a stop string with another in it can be overtaken. -/
theorem overtakable_of_overtaken {stops chunks : List QString}
    (hne : ∀ stop ∈ stops, stop ≠ []) (h : Overtaken stops chunks) :
    Overtakable stops := by
  obtain ⟨k, i, j, hi, hj, hno⟩ := h
  have hlt : j < i := by
    by_contra hle
    exact hno i (by omega) hi
  obtain ⟨inner, hinner, hocc⟩ := hi
  have hilt := hocc.lt_length (hne inner hinner)
  obtain ⟨stop, hstop, hover⟩ := hj
  rw [← take_append_flatten chunks k] at hover
  have hlong : (chunks.take k).flatten.length < j + stop.length := by
    by_contra hle
    exact hno j le_rfl ⟨stop, hstop, hover.of_append (by omega)⟩
  have htake := hover.overhang (by omega) hlong
  refine ⟨stop, hstop, (chunks.take k).flatten.length - j, by omega, ?_, ?_⟩
  · refine ⟨inner, hinner, infix_iff_occurs.2 ⟨i - j, ?_⟩⟩
    unfold Occurs at hocc ⊢
    rw [← htake, List.drop_drop, Nat.add_sub_cancel' (Nat.le_of_lt hlt)]
    exact hocc
  · intro r hr hfront
    rw [← htake] at hfront
    exact hno j le_rfl ⟨r, hr, hfront⟩

/-- One that can be overtaken is, when the text is cut after the one in it. -/
theorem overtaken_of_overtakable {stops : List QString}
    (h : Overtakable stops) : ∃ chunks, Overtaken stops chunks := by
  obtain ⟨stop, hstop, n, hn, ⟨inner, hinner, hin⟩, hfront⟩ := h
  obtain ⟨i, hi⟩ := infix_iff_occurs.1 hin
  refine ⟨[stop.take n, stop.drop n], 1, i, 0, ?_, ?_, ?_⟩
  · exact ⟨inner, hinner, by simpa using hi⟩
  · refine ⟨stop, hstop, ?_⟩
    unfold Occurs
    simp
  · intro l hl hstart
    obtain ⟨r, hr, hocc⟩ := hstart
    have hzero : l = 0 := by omega
    subst hzero
    unfold Occurs at hocc
    exact hfront r hr (by simpa using hocc)

/-- **When the chunks do not matter.** A text is cut at the first start of a
stop string if and only if, at no chunk's end, another stop string has
overtaken it; and every text is, however it comes in chunks, if and only if
none of the stop strings can be overtaken. -/
theorem chunking_independent_iff {stops : List QString}
    (hne : ∀ stop ∈ stops, stop ≠ []) :
    (∀ chunks, (outputs stops chunks).flatten
        = Search.before stops chunks.flatten ↔ ¬ Overtaken stops chunks)
      ∧ ((∀ chunks, (outputs stops chunks).flatten
          = Search.before stops chunks.flatten) ↔ ¬ Overtakable stops) := by
  refine ⟨outputs_eq_before hne, ?_⟩
  constructor
  · intro hall hcan
    obtain ⟨chunks, hover⟩ := overtaken_of_overtakable hcan
    exact (outputs_eq_before hne chunks).1 (hall chunks) hover
  · intro hcannot chunks
    rw [outputs_eq_before hne]
    exact fun hover => hcannot (overtakable_of_overtaken hne hover)

/-- `STOP` and `END` cannot overtake each other, so a text is cut before
`END` in any chunks. -/
theorem stop_end_independent :
    (outputs [qs "STOP", qs "END"] [qs "oneE", qs "N", qs "Dtwo"]).flatten
      = Search.before [qs "STOP", qs "END"]
        [qs "oneE", qs "N", qs "Dtwo"].flatten :=
  (chunking_independent_iff (by decide)).2.2 (by unfold Overtakable; decide) _

/-- The beginning `abc` of `abcd` has `bc` in it: in two chunks the text
`abcd` is cut before `bc`, and in one chunk before `abcd`. -/
theorem outputs_overtaken :
    (∀ stop ∈ [qs "abcd", qs "bc"], stop ≠ [])
      ∧ (outputs [qs "abcd", qs "bc"] [qs "abc", qs "d"]).flatten = qs "a"
      ∧ (outputs [qs "abcd", qs "bc"] [qs "abcd"]).flatten = []
      ∧ Search.before [qs "abcd", qs "bc"] (qs "abcd") = []
      ∧ ¬ ∀ stops : List QString, (∀ stop ∈ stops, stop ≠ []) →
        ∀ chunks, (outputs stops chunks).flatten
          = Search.before stops chunks.flatten := by
  refine ⟨by decide, by decide, by decide, by decide, ?_⟩
  intro h
  exact absurd (h [qs "abcd", qs "bc"] (by decide) [qs "abc", qs "d"])
    (by decide)

end StopFilter

end LocalLLM
