/-
A single tool turn, piece by piece.

The callback of such a turn looks for the end of a tool call in the text so
far and passes on nothing beyond it. The end is found in the text of the
whole turn, too, and at the same place: a text that goes on begins its call
where it did (`turnStart_append`), and its closing tags stay where they were
(`closes_append`). So each piece either adds to what is passed on or is the
one the end stands in (`deliverTurn_reading`), and that one has a `>`.

# The strings of a call

A closing tag is the end only if the text before it is a whole JSON text;
a reader of that text is outside its strings there (`boundary_outside`).
-/
import LocalLLM.Runtimes.LlamaRuntime
import LocalLLM.Core.JsonText
import LocalLLM.Proofs.Llama
import LocalLLM.Proofs.Stop

namespace LocalLLM

open Search

-- ================================================================ occurrences

/-- The units of an occurrence are those of the pattern. -/
theorem Search.Occurs.getElem {α : Type} {p t : List α} {i k : Nat}
    (h : Occurs p t i) (hk : k < p.length) : t[i + k]? = p[k]? := by
  obtain ⟨rest, hrest⟩ := h
  rw [← List.getElem?_drop, ← hrest, List.getElem?_append_left hk]

namespace QString

/-- The search from a position is the general first occurrence
from there on. -/
theorem indexOfFrom_eq_firstFrom {s pattern : QString} (hne : pattern ≠ [])
    (start : Nat) : s.indexOfFrom pattern start
      = firstFrom pattern s start := by
  unfold indexOfFrom
  by_cases hlength : s.length < start
  · rw [if_pos hlength]
    -- a pattern that is not empty does not stand behind the end
    refine (firstFrom_eq_none.2 fun i hi hocc => ?_).symm
    have hlt := hocc.lt_length hne
    omega
  · rw [if_neg hlength, indexOf_eq_firstStart]
    rfl

/-- The part between two positions does not change when the text goes on. -/
theorem mid_append {t : QString} (u : QString) {start stop : Nat}
    (hle : start ≤ stop) (hstop : stop ≤ t.length) :
    QString.mid (t ++ u) start ((stop : Int) - start)
      = t.mid start ((stop : Int) - start) := by
  unfold mid
  rw [if_neg (by omega), if_neg (by omega),
    List.drop_append_of_le_length (by omega),
    List.take_append_of_le_length (by rw [List.length_drop]; omega)]

end QString

-- ================================================================ white space

/-- A text with a unit that is not white space begins, after its white
space, as every longer one does. -/
theorem dropWhile_append_of_ink {t : QString} (u : QString) {x : QChar}
    (hx : x ∈ t) (hspace : isSpace x = false) :
    (t ++ u).dropWhile isSpace = t.dropWhile isSpace ++ u
      ∧ t.dropWhile isSpace ≠ [] := by
  have hne : t.dropWhile isSpace ≠ [] := by
    intro hnil
    rw [List.dropWhile_eq_nil_iff] at hnil
    have hall := hnil x hx
    rw [hspace] at hall
    cases hall
  refine ⟨?_, hne⟩
  rw [List.dropWhile_append, if_neg]
  simpa using hne

/-- The first unit of a trimmed text is the first one that is not
white space. -/
theorem trimmed_startsWith {t : QString} {x : QChar} :
    (QString.trimmed t).startsWith [x] = true
      ↔ (t.dropWhile isSpace).head? = some x := by
  unfold QString.trimmed QString.startsWith
  cases hdrop : t.dropWhile isSpace with
  | nil => simp
  | cons y rest =>
      have hy : isSpace y = false := by
        have hhead := List.head?_dropWhile_not isSpace t
        rw [hdrop] at hhead
        simpa using hhead
      -- the first unit survives the trimming at the end
      have hend : ∃ l : QString,
        ((y :: rest).reverse.dropWhile isSpace).reverse
          = y :: l := by
        rw [List.reverse_cons, List.dropWhile_append]
        split
        next => exact ⟨[], by simp [hy]⟩
        next => exact ⟨_, by rw [List.reverse_append]; rfl⟩
      obtain ⟨l, hl⟩ := hend
      rw [hl]
      show (x == y && true) = true ↔ some y = some x
      rw [Bool.and_true, beq_iff_eq, Option.some.injEq, eq_comm]

-- =============================================================== the boundary

/-- `close`. -/
def closeTag : QString := qs "</tool_call>"

/-- Where the payload of a call begins: `begin`. -/
def turnStart (before generated : QString) : Option Nat :=
  if (QString.trimmed before).endsWith (qs "<tool_call>")
      || (QString.trimmed generated).startsWith [qc '\x7b'] then some 0
  else (generated.indexOf (qs "<tool_call>")).map (· + 11)

/-- A closing tag after a call of one of the tools. -/
structure Closes (fromJson : QString → Option Json) (tools : List QString)
    (text : QString) (start close : Nat) : Prop where
  le : start ≤ close
  tag : Occurs closeTag text close
  call : ∃ document, fromJson (QString.trimmed
      (text.mid start ((close : Int) - start))) = some document
    ∧ isToolCall tools document = true

theorem closeTag_ne_nil : closeTag ≠ [] := by decide

theorem closeTag_length : closeTag.length = 12 := by decide

theorem openTag_ne_nil : qs "<tool_call>" ≠ [] := by decide

theorem openTag_length : (qs "<tool_call>").length = 11 := by decide

/-- Closing tags do not overlap. -/
theorem closeTag_apart {t : QString} {i j : Nat} (hi : Occurs closeTag t i)
    (hj : Occurs closeTag t j) (hlt : i < j) : i + 12 ≤ j := by
  by_contra hnear
  have hfirst := hj.getElem (show 0 < closeTag.length by decide)
  have hsame := hi.getElem (show j - i < closeTag.length by
    rw [closeTag_length]
    omega)
  rw [Nat.add_sub_cancel' (Nat.le_of_lt hlt)] at hsame
  rw [Nat.add_zero, hsame] at hfirst
  -- a closing tag has its `<` at the front only
  have hno : ∀ k : Fin 12, k.val ≠ 0 → closeTag[k.val]? ≠ closeTag[0]? := by
    decide +kernel
  exact hno ⟨j - i, by omega⟩ (by show j - i ≠ 0; omega) hfirst

section Boundary

variable {fromJson : QString → Option Json} {tools : List QString}

/-- A tag is in the text. -/
theorem Closes.le_length {text : QString} {start close : Nat}
    (h : Closes fromJson tools text start close) :
    close + 12 ≤ text.length := by
  have hle := h.tag.le_length closeTag_ne_nil
  rw [closeTag_length] at hle
  exact hle

/-- One turn of the loop over the closing tags. -/
theorem closingTag_succ (text : QString) (start turns close : Nat) :
    closingTag fromJson text tools start (turns + 1) (some close)
      = match fromJson (QString.trimmed
          (text.mid start ((close : Int) - start))) with
        | some document =>
            if isToolCall tools document then some (close + 12)
            else closingTag fromJson text tools start turns
              (text.indexOfFrom closeTag (close + 12))
        | none => closingTag fromJson text tools start turns
            (text.indexOfFrom closeTag (close + 12)) := rfl

/-- The loop over the closing tags finds the first one after a
call. Tags inside a string of the call do not count, for the text
up to them is no JSON. -/
theorem closingTag_eq_some {text : QString} {start : Nat} :
    ∀ (turns at_ : Nat), start ≤ at_ → text.length < at_ + turns →
    ∀ e, closingTag fromJson text tools start turns
        (text.indexOfFrom closeTag at_) = some e
      ↔ ∃ close, at_ ≤ close ∧ Closes fromJson tools text start close
        ∧ (∀ j, at_ ≤ j → j < close → ¬ Closes fromJson tools text start j)
        ∧ e = close + 12 := by
  intro turns
  induction turns with
  | zero =>
      intro at_ _ hlength e
      constructor
      · intro h
        cases h
      · intro h
        obtain ⟨close, hle, hcloses, -⟩ := h
        have hin := hcloses.le_length
        omega
  | succ turns ih =>
      intro at_ hstart hlength e
      rw [QString.indexOfFrom_eq_firstFrom closeTag_ne_nil]
      cases htag : firstFrom closeTag text at_ with
      | none =>
          constructor
          · intro h
            cases h
          · intro h
            obtain ⟨close, hle, hcloses, -⟩ := h
            exact absurd hcloses.tag
              (firstFrom_eq_none.1 htag close hle)
      | some first =>
          obtain ⟨hle, hocc, hleast⟩ :=
            firstFrom_eq_some.1 htag
          by_cases hcall : Closes fromJson tools text start first
          · obtain ⟨document, hdocument, htool⟩ := hcall.call
            have hturn : closingTag fromJson text tools start (turns + 1)
                (some first) = some (first + 12) := by
              rw [closingTag_succ, hdocument]
              exact if_pos htool
            rw [hturn]
            constructor
            · intro h
              injection h with h
              exact ⟨first, hle, hcall,
                fun j hj hlt hcloses => hleast j hj hlt hcloses.tag, h.symm⟩
            · intro h
              obtain ⟨close, hle', hcloses, hfirst, rfl⟩ := h
              have hnot : ¬ first < close :=
                fun hlt => hfirst first hle hlt hcall
              have hnot' : ¬ close < first :=
                fun hlt => hleast close hle' hlt hcloses.tag
              rw [show close = first by omega]
          · have hturn : closingTag fromJson text tools start (turns + 1)
                (some first)
                = closingTag fromJson text tools start turns
                  (text.indexOfFrom closeTag (first + 12)) := by
              rw [closingTag_succ]
              split
              next document hdocument =>
                exact if_neg fun htool => hcall ⟨by omega, hocc, document,
                  hdocument, htool⟩
              next => rfl
            rw [hturn, ih (first + 12) (by omega) (by omega)]
            -- between the tag and the next search there is no other
            have hskip : ∀ j, at_ ≤ j → Closes fromJson tools text start j →
                first + 12 ≤ j := by
              intro j hj hcloses
              have hne : j ≠ first := by
                intro heq
                rw [heq] at hcloses
                exact hcall hcloses
              have hnot : ¬ j < first :=
                fun hlt => hleast j hj hlt hcloses.tag
              exact closeTag_apart hocc hcloses.tag (by omega)
            constructor
            · intro h
              obtain ⟨close, hle', hcloses, hfirst, he⟩ := h
              exact ⟨close, by omega, hcloses,
                fun j hj hlt hj' => hfirst j (hskip j hj hj') hlt hj', he⟩
            · intro h
              obtain ⟨close, hle', hcloses, hfirst, he⟩ := h
              exact ⟨close, hskip close hle' hcloses, hcloses,
                fun j hj hlt => hfirst j (by omega) hlt, he⟩

/-- The boundary is the end of the first closing tag after a call, from
where the payload begins. -/
theorem boundary_eq_some {before text : QString} {e : Nat} :
    completeSingleToolTurn fromJson before text tools = some e
      ↔ ∃ start close, turnStart before text = some start
        ∧ Closes fromJson tools text start close
        ∧ (∀ j < close, ¬ Closes fromJson tools text start j)
        ∧ e = close + 12 := by
  unfold completeSingleToolTurn
  dsimp only
  rw [← turnStart]
  cases turnStart before text with
  | none =>
      constructor
      · intro h
        cases h
      · intro h
        obtain ⟨_, _, hstart, -⟩ := h
        cases hstart
  | some start =>
      dsimp only
      rw [← closeTag, closingTag_eq_some _ start (Nat.le_refl _) (by omega)]
      constructor
      · intro h
        obtain ⟨close, hle, hcloses, hfirst, he⟩ := h
        exact ⟨start, close, rfl, hcloses,
          fun j hlt hj => hfirst j hj.le hlt hj, he⟩
      · intro h
        obtain ⟨_, close, hstart, hcloses, hfirst, he⟩ := h
        injection hstart with hstart
        subst hstart
        exact ⟨close, hcloses.le, hcloses, fun j _ hlt => hfirst j hlt, he⟩

-- ========================================================== texts that go on

/-- A tag is no white space. -/
theorem exists_ink {pattern t : QString} {i : Nat} (h : Occurs pattern t i)
    (hopen : pattern[0]? = some (qc '<')) : ∃ x ∈ t, isSpace x = false := by
  refine ⟨qc '<', ?_, by decide⟩
  have hpos : 0 < pattern.length := by
    by_contra hnil
    rw [List.getElem?_eq_none (by omega)] at hopen
    cases hopen
  have hunit := h.getElem hpos
  rw [hopen] at hunit
  exact List.mem_of_getElem? hunit

/-- A text that has begun with a brace goes on to do so. -/
theorem startsBrace_append {t : QString} (u : QString) {x : QChar}
    (hx : x ∈ t) (hspace : isSpace x = false) :
    (QString.trimmed (t ++ u)).startsWith [qc '\x7b']
      = (QString.trimmed t).startsWith [qc '\x7b'] := by
  obtain ⟨hdrop, hne⟩ := dropWhile_append_of_ink u hx hspace
  rw [Bool.eq_iff_iff, trimmed_startsWith, trimmed_startsWith, hdrop,
    List.head?_append_of_ne_nil _ hne]

/-- A call that has begun stays where it began. -/
theorem turnStart_append {before t : QString} {start : Nat} (u : QString)
    (h : turnStart before t = some start) :
    turnStart before (t ++ u) = some start := by
  unfold turnStart at h ⊢
  by_cases hprefill : (QString.trimmed before).endsWith (qs "<tool_call>")
    = true
  · rw [hprefill] at h ⊢
    exact h
  · rw [Bool.not_eq_true] at hprefill
    rw [hprefill, Bool.false_or] at h ⊢
    by_cases hbrace : (QString.trimmed t).startsWith [qc '\x7b'] = true
    · obtain ⟨x, hx, hspace⟩ : ∃ x ∈ t, isSpace x = false := by
        rw [trimmed_startsWith] at hbrace
        refine ⟨qc '\x7b', ?_, by decide⟩
        exact (List.dropWhile_sublist _).subset (List.mem_of_mem_head? hbrace)
      rw [startsBrace_append u hx hspace, if_pos hbrace]
      rw [if_pos hbrace] at h
      exact h
    · rw [if_neg hbrace, Option.map_eq_some_iff] at h
      obtain ⟨i, hi, rfl⟩ := h
      obtain ⟨hocc, hleast⟩ := QString.indexOf_eq_some.1 hi
      obtain ⟨x, hx, hspace⟩ := exists_ink hocc (by decide)
      have hend := hocc.le_length openTag_ne_nil
      rw [startsBrace_append u hx hspace, if_neg hbrace,
        Option.map_eq_some_iff]
      refine ⟨i, QString.indexOf_eq_some.2
        ⟨hocc.append_right openTag_ne_nil u, fun j hj hocc' => ?_⟩, rfl⟩
      exact hleast j hj (hocc'.of_append (by omega))

/-- A call that is closed in a text has begun there. -/
theorem turnStart_of_append {before t u : QString} {start close : Nat}
    (h : turnStart before (t ++ u) = some start) (hle : start ≤ close)
    (hclose : Occurs closeTag t close) : turnStart before t = some start := by
  obtain ⟨x, hx, hspace⟩ := exists_ink hclose (by decide)
  have hend := hclose.le_length closeTag_ne_nil
  unfold turnStart at h ⊢
  rw [startsBrace_append u hx hspace] at h
  split at h
  case isTrue hbegun => rw [if_pos hbegun, h]
  case isFalse hbegun =>
    rw [if_neg hbegun]
    rw [Option.map_eq_some_iff] at h ⊢
    obtain ⟨i, hi, rfl⟩ := h
    obtain ⟨hocc, hleast⟩ := QString.indexOf_eq_some.1 hi
    refine ⟨i, QString.indexOf_eq_some.2 ⟨hocc.of_append ?_,
      fun j hj hocc' => ?_⟩,
      rfl⟩
    · rw [openTag_length]
      omega
    · exact hleast j hj (hocc'.append_right openTag_ne_nil u)

/-- The closing tags of a text stay what they are. -/
theorem closes_append {t : QString} (u : QString) {start close : Nat}
    (hin : close + 12 ≤ t.length) :
    Closes fromJson tools (t ++ u) start close
      ↔ Closes fromJson tools t start close := by
  constructor
  · intro h
    obtain ⟨hle, htag, hcall⟩ := h
    rw [QString.mid_append u hle (by omega)] at hcall
    exact ⟨hle, htag.of_append (by rw [closeTag_length]; omega), hcall⟩
  · intro h
    obtain ⟨hle, htag, hcall⟩ := h
    rw [← QString.mid_append u hle (by omega)] at hcall
    exact ⟨hle, htag.append_right closeTag_ne_nil u, hcall⟩

/-- The boundary is where it is in every longer text, and nowhere else. -/
theorem boundary_append {before t u : QString} {e : Nat} :
    completeSingleToolTurn fromJson before t tools = some e
      ↔ completeSingleToolTurn fromJson before (t ++ u) tools = some e
        ∧ e ≤ t.length := by
  rw [boundary_eq_some, boundary_eq_some]
  constructor
  · intro h
    obtain ⟨start, close, hstart, hcloses, hfirst, rfl⟩ := h
    have hin := hcloses.le_length
    refine ⟨⟨start, close, turnStart_append u hstart,
      (closes_append u hin).2 hcloses, fun j hj hj' => ?_, rfl⟩, hin⟩
    exact hfirst j hj ((closes_append u (by omega)).1 hj')
  · intro h
    obtain ⟨⟨start, close, hstart, hcloses, hfirst, rfl⟩, hin⟩ := h
    have hcloses' := (closes_append u hin).1 hcloses
    refine ⟨start, close, turnStart_of_append hstart hcloses'.le hcloses'.tag,
      hcloses', fun j hj hj' => ?_, rfl⟩
    exact hfirst j hj ((closes_append u (by omega)).2 hj')

/-- The boundary is behind a `>` of the text. -/
theorem boundary_behind {before t : QString} {e : Nat}
    (h : completeSingleToolTurn fromJson before t tools = some e) :
    0 < e ∧ e ≤ t.length ∧ t[e - 1]? = some (qc '>') := by
  obtain ⟨start, close, -, hcloses, -, rfl⟩ := boundary_eq_some.1 h
  refine ⟨by omega, hcloses.le_length, ?_⟩
  rw [show close + 12 - 1 = close + 11 by omega]
  exact hcloses.tag.getElem (by decide)

/-- A piece without a `>` does not complete a call. -/
theorem boundary_gate {before t piece : QString} (hpiece : qc '>' ∉ piece)
    (hnone : completeSingleToolTurn fromJson before t tools = none) :
    completeSingleToolTurn fromJson before (t ++ piece) tools = none := by
  cases hfound : completeSingleToolTurn fromJson before (t ++ piece) tools with
  | none => rfl
  | some e =>
      obtain ⟨hpos, -, hunit⟩ := boundary_behind hfound
      by_cases hle : e ≤ t.length
      · rw [boundary_append.2 ⟨hfound, hle⟩] at hnone
        cases hnone
      · rw [List.getElem?_append_right (by omega)] at hunit
        exact absurd (List.mem_of_getElem? hunit) hpiece

/-- Before the tag of the boundary stands a whole JSON text; it does not
stand in a string of it. -/
theorem boundary_outside (hjson : ∀ t v, fromJson t = some v → JsonText t)
    {before t : QString} {e : Nat}
    (h : completeSingleToolTurn fromJson before t tools = some e) :
    ∃ start close, turnStart before t = some start ∧ start ≤ close
      ∧ e = close + 12 ∧ Occurs closeTag t close
      ∧ scan (t.mid start ((close : Int) - start)) = .outside := by
  obtain ⟨start, close, hstart, hcloses, -, he⟩ := boundary_eq_some.1 h
  refine ⟨start, close, hstart, hcloses.le, he, hcloses.tag, ?_⟩
  obtain ⟨document, hdocument, -⟩ := hcloses.call
  have htext := (hjson _ _ hdocument).outside
  -- white space around the text changes nothing
  generalize t.mid start ((close : Int) - start) = payload at htext
  have hspace : ∀ l : QString, (∀ u ∈ l, isSpace u = true) → Closed l := by
    intro l hl
    refine Closed.of_ne_quote fun u hu hquote => ?_
    have hall := hl u hu
    rw [hquote] at hall
    exact absurd hall (by decide)
  have hsplit : ∃ w w' : QString, (∀ u ∈ w, isSpace u = true)
      ∧ (∀ u ∈ w', isSpace u = true)
      ∧ payload = w ++ QString.trimmed payload ++ w' := by
    refine ⟨payload.takeWhile isSpace,
      ((payload.dropWhile isSpace).reverse.takeWhile isSpace).reverse,
      fun u hu => List.mem_takeWhile_imp hu,
      fun u hu => List.mem_takeWhile_imp (List.mem_reverse.1 hu), ?_⟩
    unfold QString.trimmed
    rw [List.append_assoc, ← List.reverse_append,
      List.takeWhile_append_dropWhile,
      List.reverse_reverse, List.takeWhile_append_dropWhile]
  obtain ⟨w, w', hw, hw', heq⟩ := hsplit
  rw [heq]
  exact ((hspace w hw).append htext).append (hspace w' hw')

end Boundary

-- =============================================================== the callback

namespace LlamaContext

open Exec

variable {Logits : Type}

/-- The boundary in the text of a turn. -/
def boundaryOf (L : Llama Logits) (state : LlamaConversationState)
    (text : QString) : Option Nat :=
  completeSingleToolTurn L.fromJson state.generationPrompt text
    state.singleTurnTools

/-- The rest of the callback, when it has looked for a boundary in what was
generated. -/
def passOn (consumer : Consumer) (generated : QString)
    (boundary : Option Nat) :
    LlamaM Bool := do
  let t ← get
  let stop := boundary.getD generated.length
  set { t with generated }
  let text := generated.mid t.deliveredSize ((stop : Int) - t.deliveredSize)
  let keepGoing ←
    handOver (deliver consumer) (decide (stop = t.deliveredSize)) text
  modify fun t => { t with deliveredSize := stop, yielded := boundary.isSome }
  return keepGoing && !boundary.isSome

/-- The callback with the check made for every piece. -/
def deliverTurnChecked (L : Llama Logits) (state : LlamaConversationState)
    (consumer : Consumer) (piece : QString) : LlamaM Bool := do
  let t ← get
  if t.yielded then return false
  else
    let generated := t.generated ++ piece
    passOn consumer generated (boundaryOf L state generated)

/-- The pieces of a generation handed to a callback until it refuses one;
the pieces after that one are returned. -/
def pour (onText : QString → LlamaM Bool) :
    List QString → LlamaM (List QString)
  | [] => return []
  | piece :: rest => do
      let keepGoing ← onText piece
      if keepGoing then pour onText rest else return rest

/-- The text so far is `text`; all of it was passed on, and it has no
boundary. -/
structure Reading (L : Llama Logits) (state : LlamaConversationState)
    (text : QString) (t : LlamaTurn) : Prop where
  generated : t.generated = text
  size : t.deliveredSize = text.length
  delivered : t.delivered.flatten = text
  waiting : t.yielded = false
  unbounded : boundaryOf L state text = none

/-- The text so far is `text`, with a boundary at `e`, and what stands
before it was passed on. -/
structure Cut (L : Llama Logits) (state : LlamaConversationState)
    (text : QString) (e : Nat) (t : LlamaTurn) : Prop where
  generated : t.generated = text
  delivered : t.delivered.flatten = text.take e
  yielded : t.yielded = true
  bounded : boundaryOf L state text = some e

section Callback

variable {L : Llama Logits} {state : LlamaConversationState}
  {consumer : Consumer}

/-- A text handed to a consumer that accepts everything. -/
theorem handOver_accepts (haccepts : ∀ texts, consumer texts = .ok true)
    {isEmpty : Bool} {text : QString} (hempty : isEmpty = true → text = [])
    (t : LlamaTurn) :
    ∃ delivered, handOver (deliver consumer) isEmpty text t
        = (.ok true, { t with delivered })
      ∧ delivered.flatten = t.delivered.flatten ++ text := by
  cases isEmpty with
  | true =>
      refine ⟨t.delivered, rfl, ?_⟩
      rw [hempty rfl, List.append_nil]
  | false =>
      refine ⟨t.delivered ++ [text], ?_, by simp⟩
      show (Except.ok (consumer (t.delivered ++ [text])) >>= id, _) = _
      rw [haccepts]
      rfl

/-- While no call has been yielded, a piece is looked at only where it brings a
`>`, since no call ends without one. -/
theorem deliverTurn_waiting {piece : QString} {t : LlamaTurn}
    (h : t.yielded = false) :
    deliverTurn L state consumer piece t
      = passOn consumer (t.generated ++ piece)
          (if qc '>' ∈ piece then boundaryOf L state (t.generated ++ piece)
            else none) t := by
  show (if t.yielded = true then _ else _ : LlamaM Bool) t = _
  rw [if_neg (by rw [h]; decide)]
  rfl

/-- The same loop without that shortcut, which looks at the text
after every piece. -/
theorem deliverTurnChecked_waiting {piece : QString} {t : LlamaTurn}
    (h : t.yielded = false) :
    deliverTurnChecked L state consumer piece t
      = passOn consumer (t.generated ++ piece)
          (boundaryOf L state (t.generated ++ piece)) t := by
  show (if t.yielded = true then _ else _ : LlamaM Bool) t = _
  rw [if_neg (by rw [h]; decide)]

/-- The gate changes nothing while no boundary was found. -/
theorem deliverTurn_checked {text piece : QString} {t : LlamaTurn}
    (h : Reading L state text t) :
    deliverTurn L state consumer piece t
      = deliverTurnChecked L state consumer piece t := by
  rw [deliverTurn_waiting h.waiting, deliverTurnChecked_waiting h.waiting]
  by_cases hpiece : qc '>' ∈ piece
  · rw [if_pos hpiece]
  · rw [if_neg hpiece]
    have hnone : boundaryOf L state (t.generated ++ piece) = none := by
      rw [h.generated]
      exact boundary_gate hpiece h.unbounded
    rw [hnone]

/-- A boundary that was not there before the piece ends in the piece. -/
theorem Reading.lt_boundary {text piece : QString} {t : LlamaTurn} {e : Nat}
    (h : Reading L state text t)
    (hboundary : boundaryOf L state (text ++ piece) = some e) :
    text.length < e := by
  by_contra hle
  have hbefore := boundary_append.2 ⟨hboundary, by omega⟩
  have hnone := h.unbounded
  unfold boundaryOf at hnone
  rw [hbefore] at hnone
  cases hnone

/-- A piece is passed on up to the boundary, or all of it. Behind the boundary
nothing is passed on, whatever the pieces. -/
theorem passOn_reading (haccepts : ∀ texts, consumer texts = .ok true)
    {text piece : QString} {t : LlamaTurn} (h : Reading L state text t) :
    ∃ t', passOn consumer (text ++ piece)
        (boundaryOf L state (text ++ piece)) t
        = (.ok (boundaryOf L state (text ++ piece)).isNone, t')
      ∧ ((boundaryOf L state (text ++ piece) = none
          ∧ Reading L state (text ++ piece) t')
        ∨ ∃ e, boundaryOf L state (text ++ piece) = some e ∧ text.length < e
          ∧ Cut L state (text ++ piece) e t') := by
  generalize hboundary : boundaryOf L state (text ++ piece) = boundary
  have hstop : text.length ≤ boundary.getD (text ++ piece).length := by
    cases boundary with
    | none =>
        rw [Option.getD_none, List.length_append]
        omega
    | some e => exact Nat.le_of_lt (h.lt_boundary hboundary)
  -- what is new, up to where the callback stops
  have hnew : (text ++ piece).mid t.deliveredSize
      ((boundary.getD (text ++ piece).length : Int) - t.deliveredSize)
      = piece.take (boundary.getD (text ++ piece).length - text.length) := by
    unfold QString.mid
    rw [h.size, if_neg (by omega), List.drop_left]
    congr 1
    omega
  obtain ⟨delivered, hdeliver, hflatten⟩ := @handOver_accepts consumer haccepts
    (decide (boundary.getD (text ++ piece).length = t.deliveredSize))
    (piece.take (boundary.getD (text ++ piece).length - text.length)) (by
      intro heq
      rw [decide_eq_true_eq, h.size] at heq
      rw [heq, Nat.sub_self, List.take_zero])
        { t with generated := text ++ piece }
  have hflatten : delivered.flatten
      = (text ++ piece).take (boundary.getD (text ++ piece).length) := by
    rw [hflatten, List.take_append, List.take_of_length_le hstop]
    exact congrArg (· ++ _) h.delivered
  refine ⟨{ t with
    generated := text ++ piece
    delivered
    deliveredSize := boundary.getD (text ++ piece).length
    yielded := boundary.isSome }, ?_, ?_⟩
  · show (handOver (deliver consumer) _ (QString.mid (text ++ piece) _ _)
      >>= fun _ => _) { t with generated := text ++ piece } = _
    rw [hnew, Exec.bind_apply_ok hdeliver]
    cases boundary <;> rfl
  · cases boundary with
    | none =>
        left
        refine ⟨rfl, rfl, rfl, ?_, rfl, hboundary⟩
        rw [hflatten, Option.getD_none, List.take_length]
    | some e =>
        right
        exact ⟨e, rfl, h.lt_boundary hboundary, rfl, hflatten, rfl, hboundary⟩

/-- A piece while the callback is reading: it goes on, or this is the piece
the boundary ends in. -/
theorem deliverTurn_reading (haccepts : ∀ texts, consumer texts = .ok true)
    {text piece : QString} {t : LlamaTurn} (h : Reading L state text t) :
    ∃ t', deliverTurn L state consumer piece t
        = (.ok (boundaryOf L state (text ++ piece)).isNone, t')
      ∧ ((boundaryOf L state (text ++ piece) = none
          ∧ Reading L state (text ++ piece) t')
        ∨ ∃ e, boundaryOf L state (text ++ piece) = some e ∧ text.length < e
          ∧ Cut L state (text ++ piece) e t') := by
  rw [deliverTurn_checked h, deliverTurnChecked_waiting h.waiting, h.generated]
  exact passOn_reading haccepts h

/-- After the boundary nothing is passed on. -/
theorem deliverTurn_cut {text piece : QString} {e : Nat} {t : LlamaTurn}
    (h : Cut L state text e t) :
    deliverTurn L state consumer piece t = (.ok false, t) := by
  show (if t.yielded = true then _ else _ : LlamaM Bool) t = _
  rw [if_pos h.yielded]
  rfl

/-- A boundary of a text is the boundary of its beginnings that reach so
far, and the others have none. -/
theorem boundaryOf_take {text : QString} {e : Nat}
    (h : boundaryOf L state text = some e) (n : Nat) :
    boundaryOf L state (text.take n) = if e ≤ n then some e else none := by
  have hle := (boundary_behind h).2.1
  have hbegin : ∀ x, boundaryOf L state (text.take n) = some x
      ↔ boundaryOf L state text = some x ∧ x ≤ (text.take n).length := by
    intro x
    have happend := @boundary_append L.fromJson state.singleTurnTools
      state.generationPrompt (text.take n) (text.drop n) x
    rw [List.take_append_drop] at happend
    exact happend
  rw [List.length_take] at hbegin
  by_cases hn : e ≤ n
  · rw [if_pos hn]
    exact (hbegin e).2 ⟨h, by omega⟩
  · rw [if_neg hn]
    cases hfound : boundaryOf L state (text.take n) with
    | none => rfl
    | some x =>
        obtain ⟨hx, hxn⟩ := (hbegin x).1 hfound
        rw [h] at hx
        injection hx with hx
        omega

/-- Pouring hands the pieces on until the consumer says that it
wants no more. -/
theorem pour_cons (onText : QString → LlamaM Bool) {piece : QString}
    {rest : List QString} {t t' : LlamaTurn} {keepGoing : Bool}
    (h : onText piece t = (.ok keepGoing, t')) :
    pour onText (piece :: rest) t
      = if keepGoing then pour onText rest t' else (.ok rest, t') := by
  show (onText piece >>= fun _ => _) t = _
  rw [Exec.bind_apply_ok h]
  cases keepGoing <;> rfl

/-- The pieces of a text go on to its boundary, and with the check for
every piece they do the same. -/
theorem pour_reading (haccepts : ∀ texts, consumer texts = .ok true) :
    ∀ (pieces : List QString) (text : QString) (t : LlamaTurn),
      Reading L state text t →
    ∃ rest t', pour (deliverTurn L state consumer) pieces t = (.ok rest, t')
      ∧ pour (deliverTurnChecked L state consumer) pieces t = (.ok rest, t')
      ∧ ((rest = [] ∧ Reading L state (text ++ pieces.flatten) t')
        ∨ ∃ earlier piece e, pieces = earlier ++ piece :: rest
          ∧ (text ++ earlier.flatten).length < e
          ∧ Cut L state (text ++ earlier.flatten ++ piece) e t') := by
  intro pieces
  induction pieces with
  | nil =>
      intro text t h
      refine ⟨[], t, rfl, rfl, Or.inl ⟨rfl, ?_⟩⟩
      rw [List.flatten_nil, List.append_nil]
      exact h
  | cons piece pieces ih =>
      intro text t h
      obtain ⟨t₁, hpiece, hcases⟩ := @deliverTurn_reading _ L state consumer
        haccepts text piece t h
      have hchecked := hpiece
      rw [deliverTurn_checked h] at hchecked
      rcases hcases with ⟨hnone, hreading⟩ | ⟨e, hsome, hlt, hcut⟩
      · rw [hnone, Option.isNone_none] at hpiece hchecked
        obtain ⟨rest, t', hpour, hpour', hend⟩ :=
          ih (text ++ piece) t₁ hreading
        refine ⟨rest, t', ?_, ?_, ?_⟩
        · rw [pour_cons _ hpiece, if_pos rfl, hpour]
        · rw [pour_cons _ hchecked, if_pos rfl, hpour']
        · rcases hend with ⟨hnil, hreading⟩ | ⟨earlier, last, e,
            heq, hlt, hcut⟩
          · left
            refine ⟨hnil, ?_⟩
            rw [List.flatten_cons, ← List.append_assoc]
            exact hreading
          · right
            refine ⟨piece :: earlier, last, e, by rw [heq]; rfl, ?_, ?_⟩
            · rw [List.flatten_cons, ← List.append_assoc]
              exact hlt
            · rw [List.flatten_cons, ← List.append_assoc text]
              exact hcut
      · rw [hsome, Option.isNone_some] at hpiece hchecked
        refine ⟨pieces, t₁, ?_, ?_, Or.inr ⟨[], piece, e, rfl, ?_, ?_⟩⟩
        · rw [pour_cons _ hpiece]
          rfl
        · rw [pour_cons _ hchecked]
          rfl
        · rw [List.flatten_nil, List.append_nil]
          exact hlt
        · rw [List.flatten_nil, List.append_nil]
          exact hcut

-- =============================================================== a whole call

/-- What a call has passed on is the text so far, up to its boundary. -/
def Faithful (L : Llama Logits) (state : LlamaConversationState)
    (t : LlamaTurn) : Prop :=
  (∃ text, Reading L state text t) ∨ ∃ text e, Cut L state text e t

/-- Faithfulness is about the output, so a step that leaves the output alone
keeps it. -/
theorem Faithful.of_same {t t' : LlamaTurn} (h : Faithful L state t)
    (hsame : SameOutput t t') : Faithful L state t' := by
  rcases h with ⟨text, h⟩ | ⟨text, e, h⟩
  · refine Or.inl ⟨text, ?_, ?_, ?_, ?_, h.unbounded⟩
    · rw [← hsame.generated, h.generated]
    · rw [← hsame.deliveredSize, h.size]
    · rw [← hsame.delivered, h.delivered]
    · rw [← hsame.yielded, h.waiting]
  · refine Or.inr ⟨text, e, ?_, ?_, ?_, h.bounded⟩
    · rw [← hsame.generated, h.generated]
    · rw [← hsame.delivered, h.delivered]
    · rw [← hsame.yielded, h.yielded]

/-- What has been passed on, of what was generated. -/
theorem Faithful.delivered {t : LlamaTurn} (h : Faithful L state t) :
    t.delivered.flatten
      = t.generated.take ((boundaryOf L state t.generated).getD
          t.generated.length) := by
  rcases h with ⟨text, h⟩ | ⟨text, e, h⟩
  · rw [h.generated, h.delivered, h.unbounded, Option.getD_none,
      List.take_length]
  · rw [h.generated, h.delivered, h.bounded, Option.getD_some]

/-- What a callback is told is passed on. -/
theorem deliverTurn_faithful (haccepts : ∀ texts, consumer texts = .ok true)
    (piece : QString) : Keeps (Faithful L state)
    (deliverTurn L state consumer piece) := by
  intro t h
  rcases h with ⟨text, h⟩ | ⟨text, e, h⟩
  · obtain ⟨t', hpiece, hcases⟩ := @deliverTurn_reading _ L state consumer
      haccepts text piece t h
    refine wp_of_ok hpiece ?_
    rcases hcases with ⟨-, hreading⟩ | ⟨e, -, -, hcut⟩
    · exact Or.inl ⟨_, hreading⟩
    · exact Or.inr ⟨_, _, hcut⟩
  · exact wp_of_ok (deliverTurn_cut h) (Or.inr ⟨text, e, h⟩)

/-- The text is handed on at most once, and a callback that keeps faith keeps
it on both paths. -/
theorem handOver_faithful {onText : QString → LlamaM Bool}
    (hcallback : ∀ text, Keeps (Faithful L state) (onText text))
    (isEmpty : Bool) (text : QString) : Keeps (Faithful L state)
    (handOver onText isEmpty text) := by
  intro t h
  unfold handOver
  rw [wp_ite]
  exact ⟨fun _ => h, fun _ => hcallback text t h⟩

variable {o : LlamaOutside}

/-- A cancellation ends the turn without touching its output. -/
theorem throwIfCancelled_faithful :
    Keeps (Faithful L state) (throwIfCancelled o) := by
  intro t h
  apply throwIfCancelled_wp
  · exact h.of_same ⟨rfl, rfl, rfl, rfl⟩
  · intro _
    exact h.of_same ⟨rfl, rfl, rfl, rfl⟩

/-- No step but the callback hands anything out. -/
theorem stepsKeep_faithful {trackHistory : Bool} :
    StepsKeep L o trackHistory (Faithful L state) where
  polled := throwIfCancelled_faithful
  batch _ _ h := h.of_same ⟨rfl, rfl, rfl, rfl⟩
  chunk _ _ h := h.of_same ⟨rfl, rfl, rfl, rfl⟩
  history _ _ h := h.of_same ⟨rfl, rfl, rfl, rfl⟩

theorem evaluatePrompt_faithful {prompt : TokenList}
    {prepared : Option LlamaConversationState} :
    Keeps (Faithful L state) (evaluatePrompt L o prompt prepared) := by
  intro t h
  unfold evaluatePrompt
  rw [wp_bind, wp_get]
  dsimp only
  rw [wp_bind, wp_set]
  have hrewound : ∀ c, Faithful L state { t with context := c } :=
    fun _ => h.of_same ⟨rfl, rfl, rfl, rfl⟩
  have hkept : ∀ kept : Nat,
      Keeps (Faithful L state) (pure kept : LlamaM Nat) :=
    fun _ _ h => h
  have hsteps : StepsKeep L o true (Faithful L state) := stepsKeep_faithful
  split
  · exact (hsteps.evaluateChunks _).bind (fun _ => hkept _) _ (hrewound _)
  · exact (hsteps.decodeBatches _ _).bind (fun _ => hkept _) _ (hrewound _)

/-- A whole generation keeps faith when its callback does: every other step of
it leaves the output alone. -/
theorem generateImpl_faithful {prompt : TokenList}
    {options : GenerationOptions}
    {prepared : Option LlamaConversationState} {onText : QString → LlamaM Bool}
    (hcallback : ∀ text, Keeps (Faithful L state) (onText text)) :
    Keeps (Faithful L state)
      (generateImpl L o prompt options onText prepared) := by
  unfold generateImpl
  apply throwIfCancelled_faithful.bind
  intro _
  apply (Keeps.ofExcept _).bind
  intro _
  apply evaluatePrompt_faithful.bind
  intro reuse
  apply (Keeps.ofExcept _).bind
  intro _
  apply (stepsKeep_faithful.sampleTokens rfl
    (handOver_faithful hcallback) _ _ _).bind
  intro sampled
  apply (handOver_faithful hcallback _ _).bind
  intro _ t h
  rw [wp_bind, wp_modify]
  exact h.of_same ⟨rfl, rfl, rfl, rfl⟩

/-- A callback that was handed nothing yet. -/
structure Fresh (t : LlamaTurn) : Prop where
  generated : t.generated = []
  size : t.deliveredSize = 0
  delivered : t.delivered = []
  waiting : t.yielded = false

theorem Fresh.reading {t : LlamaTurn} (h : Fresh t) :
    Reading L state [] t := by
  refine ⟨h.generated, h.size, ?_, h.waiting, ?_⟩
  · rw [h.delivered]
    rfl
  · cases hfound : boundaryOf L state [] with
    | none => rfl
    | some e =>
        obtain ⟨hpos, hle, -⟩ := boundary_behind hfound
        rw [List.length_nil] at hle
        omega

/-- A single tool turn, for every text and all its pieces. Without a
boundary, the whole text is passed on. With one, it is passed on up to the
boundary, the generation stops at the piece that the boundary ends in, and
what comes after is refused; every beginning of the text that reaches so far
has the same boundary, the others none; and the closing tag does not stand
in a string of the call. The check for every piece would change nothing. And
a call passes on what it generated, up to the boundary. -/
theorem single_turn_exact (haccepts : ∀ texts, consumer texts = .ok true)
    (hjson : ∀ t v, L.fromJson t = some v → JsonText t) :
    (∀ (pieces : List QString) (t : LlamaTurn), Fresh t →
      ∃ rest t', pour (deliverTurn L state consumer) pieces t = (.ok rest, t')
        ∧ pour (deliverTurnChecked L state consumer) pieces t = (.ok rest, t')
        ∧ (boundaryOf L state pieces.flatten = none →
          rest = [] ∧ t'.delivered.flatten = pieces.flatten)
        ∧ ∀ e, boundaryOf L state pieces.flatten = some e →
          t'.delivered.flatten = pieces.flatten.take e
          ∧ (∃ earlier piece, pieces = earlier ++ piece :: rest
            ∧ earlier.flatten.length < e
            ∧ e ≤ (earlier ++ [piece]).flatten.length)
          ∧ (∀ more, deliverTurn L state consumer more t' = (.ok false, t'))
          ∧ (∀ n, boundaryOf L state (pieces.flatten.take n)
            = if e ≤ n then some e else none)
          ∧ ∃ start close, turnStart state.generationPrompt pieces.flatten
              = some start ∧ start ≤ close ∧ e = close + 12
            ∧ Occurs closeTag pieces.flatten close
            ∧ scan (QString.mid pieces.flatten start ((close : Int) - start))
              = .outside)
      ∧ ∀ (o : LlamaOutside) (c : LlamaContext) (prompt : TokenList)
        (options : GenerationOptions), state.singleTurnTools ≠ [] →
        ∀ t', t' = (call L o consumer c
          (.generateConversation prompt (some state) options)).2 →
        t'.delivered.flatten = t'.generated.take
          ((boundaryOf L state t'.generated).getD t'.generated.length) := by
  constructor
  · intro pieces t hfresh
    obtain ⟨rest, t', hpour, hchecked, hend⟩ := pour_reading haccepts pieces []
      t hfresh.reading
    refine ⟨rest, t', hpour, hchecked, fun hnone => ?_, fun e hsome => ?_⟩
    · rcases hend with ⟨hnil, hreading⟩ | ⟨earlier, piece, e, heq, -, hcut⟩
      · exact ⟨hnil, hreading.delivered⟩
      · have hall := (boundary_append (u := rest.flatten)).1 hcut.bounded
        rw [heq, List.flatten_append, List.flatten_cons] at hnone
        rw [List.nil_append, List.append_assoc] at hall
        rw [show boundaryOf L state _ = _ from hall.1] at hnone
        cases hnone
    · rcases hend with ⟨-, hreading⟩ | ⟨earlier, piece, e', heq, hlt, hcut⟩
      · have hnone := hreading.unbounded
        rw [List.nil_append, hsome] at hnone
        cases hnone
      · obtain ⟨hall, hle⟩ := (boundary_append (u := rest.flatten)).1
          hcut.bounded
        have hdelivered := hcut.delivered
        have hwhole : [] ++ earlier.flatten ++ piece ++ rest.flatten
            = pieces.flatten := by
          rw [heq, List.flatten_append, List.flatten_cons]
          simp
        have htake : pieces.flatten.take e'
            = ([] ++ earlier.flatten ++ piece).take e' := by
          rw [← hwhole]
          exact List.take_append_of_le_length hle
        rw [← htake] at hdelivered
        rw [hwhole] at hall
        rw [show boundaryOf L state _ = _ from hall] at hsome
        injection hsome with hsome
        subst hsome
        refine ⟨hdelivered, ⟨earlier, piece, heq, hlt, ?_⟩,
          fun more => deliverTurn_cut hcut, boundaryOf_take hall,
          boundary_outside hjson hall⟩
        rw [List.flatten_append, List.flatten_singleton]
        exact hle
  · intro o c prompt options htools t' ht'
    have hcall : perform L o consumer
        (.generateConversation prompt (some state) options)
        = generateImpl L o prompt options (deliverTurn L state consumer)
          (some state) := if_neg htools
    have hfresh : Fresh { context := c } := ⟨rfl, rfl, rfl, rfl⟩
    have hkeeps := @generateImpl_faithful _ L state o prompt options
      (some state)
      _ (deliverTurn_faithful haccepts) _ (Or.inl ⟨_, hfresh.reading⟩)
    rw [ht']
    unfold call
    rw [hcall]
    exact (wp_final hkeeps).delivered

end Callback

-- =================================================================== a sample

/-- A call of `f` with a closing tag in its one argument. -/
def sampleCall : QString :=
  qs "\x7b\"name\":\"f\",\"arguments\":\x7b\"p\":\"</tool_call>\"\x7d\x7d"

/-- Reads that call only. -/
def sampleReader (t : QString) : Option Json :=
  if t = sampleCall then
    some (.object [(qs "arguments", .object [(qs "p", .string closeTag)]),
      (qs "name", .string (qs "f"))])
  else none

/-- A unit that stands for itself in a string. -/
def isPlain (u : QChar) : Bool := 0x20 ≤ u && u != quote && u != backslash

/-- A text without quotes, backslashes and control characters stands in a JSON
string as it is. -/
theorem stringBody_of_plain (t : QString) (h : t.all isPlain = true) :
    StringBody t := by
  induction t with
  | nil => exact .nil
  | cons u t ih =>
      rw [List.all_cons, Bool.and_eq_true] at h
      have hplain := h.1
      unfold isPlain at hplain
      simp only [Bool.and_eq_true, decide_eq_true_eq, bne_iff_ne] at hplain
      exact .plain hplain.1.1 hplain.1.2 hplain.2 (ih h.2)

theorem sampleCall_jsonText : JsonText sampleCall := by
  have hblank : Blank [] := fun u hu => nomatch hu
  have hstring : ∀ t : QString, t.all isPlain = true →
      Derives .value (quote :: (t ++ [quote])) :=
    fun t ht => .string (stringBody_of_plain t ht)
  have hp := Derives.member hblank
    (stringBody_of_plain (qs "p") (by decide +kernel))
    hblank hblank (hstring closeTag (by decide +kernel)) hblank
  have harguments := Derives.member hblank
    (stringBody_of_plain (qs "arguments") (by decide +kernel)) hblank hblank
    (.object hp) hblank
  have hname := Derives.members hblank
    (stringBody_of_plain (qs "name") (by decide +kernel)) hblank hblank
    (hstring (qs "f") (by decide +kernel)) hblank harguments
  exact ⟨[], _, [], hblank, .object hname, hblank, by decide +kernel⟩

theorem sampleReader_jsonText (t : QString) (v : Json)
    (h : sampleReader t = some v) : JsonText t := by
  unfold sampleReader at h
  split at h
  case isTrue heq =>
    rw [heq]
    exact sampleCall_jsonText
  case isFalse => cases h

/-- The sample model with that reader. -/
def sampleCaller : Llama Nat := { sampleLlama with fromJson := sampleReader }

def sampleTurn : LlamaConversationState := { singleTurnTools := [qs "f"] }

/-- The call in three pieces, the last one with some more text. -/
def samplePieces : List QString :=
  [qs "<tool_call>" ++ sampleCall.take 40, sampleCall.drop 40,
    closeTag ++ qs " more"]

/-- The tag in the argument ends nothing; the one after the call does. -/
theorem single_turn_exact_sample :
    ∃ rest t', pour (deliverTurn sampleCaller sampleTurn willing) samplePieces
        { context := {} } = (.ok rest, t')
      ∧ t'.delivered.flatten = qs "<tool_call>" ++ sampleCall ++ closeTag := by
  obtain ⟨rest, t', hpour, -, -, hsome⟩ :=
    (@single_turn_exact _ sampleCaller sampleTurn willing (fun _ => rfl)
      sampleReader_jsonText).1 samplePieces { context := {} }
        ⟨rfl, rfl, rfl, rfl⟩
  refine ⟨rest, t', hpour, ?_⟩
  rw [(hsome (11 + sampleCall.length + 12) (by decide +kernel)).1]
  decide +kernel

end LlamaContext

end LocalLLM
