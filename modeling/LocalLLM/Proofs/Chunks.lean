/-
How the output of the MLX worker is cut into reads.

# The frames alone

`frames` says what a call makes of the frames of an answer, one after the
other and without reads: which texts are handed on and how the call ends.
`needed` is how many of them it looks at.

# The reads

The buffer is measured after each read and before it is cut into lines, so
what counts is how far the read reaches from the start of the frame that is
open (`Fits`). As long as that stays within the limit, a read brings some
complete frames and the beginning of another one, and the loop does with
them what `frames` does; the induction is over the reads, and it carries
the frames that are not complete and the bytes of the first of them. A read
that reaches further ends the call, although at least one more frame was to
be looked at, so the outcome is another one.
-/
import LocalLLM.Proofs.MlxRuntime

namespace LocalLLM.MlxWorker

open Exec

variable {M : Mlx} {onText : Option Consumer}

-- ============================================================= positions

/-- The bytes of some frames. -/
def size (lines : List WireLine) : Nat :=
  (lines.map fun line => line.length + 1).sum

/-- How many frames lie within the first `n` bytes. -/
def complete : List WireLine → Nat → Nat
  | [], _ => 0
  | line :: lines, n =>
      if line.length + 1 ≤ n then complete lines (n - (line.length + 1)) + 1
      else 0

/-- The bytes that some reads bring. -/
def arrived (turns : List PipeTurn) : Nat := (turns.map PipeTurn.arrives).sum

@[simp] theorem size_nil : size [] = 0 := rfl

@[simp] theorem size_cons (line : WireLine) (lines : List WireLine) :
    size (line :: lines) = line.length + 1 + size lines := rfl

@[simp] theorem size_append (lines lines' : List WireLine) :
    size (lines ++ lines') = size lines + size lines' := by
  simp [size]

/-- The bytes of some lines are those of a beginning and of the rest. -/
theorem size_take_drop (k : Nat) (lines : List WireLine) :
    size lines = size (lines.take k) + size (lines.drop k) := by
  rw [← size_append, List.take_append_drop]

@[simp] theorem arrived_nil : arrived [] = 0 := rfl

@[simp] theorem arrived_cons (turn : PipeTurn) (turns : List PipeTurn) :
    arrived (turn :: turns) = turn.arrives + arrived turns := rfl

/-- Rendered, each line takes its bytes and one for the line feed. -/
theorem length_render (request : Nat) (lines : List WireLine) :
    (render request lines).length = size lines := by
  simp [render, size, List.length_flatMap]

/-- Lines are rendered one after the other. -/
theorem render_append (request : Nat) (lines lines' : List WireLine) :
    render request (lines ++ lines')
      = render request lines ++ render request lines' := by
  simp [render]

/-- There are no more complete lines than lines. -/
theorem complete_le_length (lines : List WireLine) (n : Nat) :
    complete lines n ≤ lines.length := by
  induction lines generalizing n with
  | nil => exact Nat.le_refl _
  | cons line lines ih =>
      unfold complete
      split
      · exact Nat.succ_le_succ (ih _)
      · exact Nat.zero_le _

/-- And every line takes a byte at least, which is its line feed. -/
theorem length_le_size (lines : List WireLine) :
    lines.length ≤ size lines := by
  induction lines with
  | nil => exact Nat.le_refl _
  | cons line lines ih =>
      rw [List.length_cons, size_cons]
      omega

/-- The complete frames lie within the bytes. -/
theorem size_complete_le (lines : List WireLine) (n : Nat) :
    size (lines.take (complete lines n)) ≤ n := by
  induction lines generalizing n with
  | nil => simp
  | cons line lines ih =>
      unfold complete
      split
      next hfits =>
        have := ih (n - (line.length + 1))
        rw [List.take_succ_cons, size_cons]
        omega
      next => simp

/-- Behind some frames the others are counted from their start. -/
theorem complete_add {lines : List WireLine} {k n : Nat}
    (hk : k ≤ lines.length) (hn : size (lines.take k) ≤ n) :
    complete lines n = k + complete (lines.drop k)
      (n - size (lines.take k)) := by
  induction k generalizing lines n with
  | zero => simp
  | succ k ih =>
      cases lines with
      | nil => simp at hk
      | cons line lines =>
          rw [List.take_succ_cons, size_cons] at hn ⊢
          rw [List.drop_succ_cons, complete, if_pos (by omega),
            ih (by simpa using hk) (by omega)]
          rw [Nat.sub_sub]
          omega

/-- Behind the complete frames none is complete. -/
theorem complete_rest (lines : List WireLine) (n : Nat) :
    complete (lines.drop (complete lines n))
      (n - size (lines.take (complete lines n))) = 0 := by
  have := complete_add (complete_le_length lines n) (size_complete_le lines n)
  omega

/-- With more bytes, as many lines are complete or more. -/
theorem complete_mono (lines : List WireLine) {n n' : Nat} (h : n ≤ n') :
    complete lines n ≤ complete lines n' := by
  have hsize := size_complete_le lines n
  have := complete_add (complete_le_length lines n) (Nat.le_trans hsize h)
  omega

/-- With all the bytes, all of them are. -/
theorem complete_all {lines : List WireLine} {n : Nat} (h : size lines ≤ n) :
    complete lines n = lines.length := by
  have hall : size (lines.take lines.length) ≤ n := by rwa [List.take_length]
  have := complete_add (Nat.le_refl _) hall
  rw [List.drop_length] at this
  simpa [complete] using this

-- ============================================================ the frames

/-- What one frame does to a call: the texts that have been handed on, and
how the call ends, if it does. -/
def frame (M : Mlx) (onText : Option Consumer) (handed : List QString)
    (line : WireLine) : List QString × Option (Except Exn JsonObject) :=
  match M.fromJson line with
  | none =>
      (handed, some (.error (err .ProtocolError "Invalid MLX worker JSON")))
  | some event =>
      let type := Json.toText (Json.lookup event (qs "type"))
      if type = qs "error" then
        (handed, some (.error (.error ⟨.RuntimeFailure,
          Json.toText (Json.lookup event (qs "message"))⟩)))
      else if type = qs "result" then (handed, some (.ok event))
      else match onText, Json.lookup event (qs "text") with
        | some consumer, some (.string text) =>
            if type ≠ qs "delta" then
              (handed, some
                (.error (err .ProtocolError "Unexpected MLX worker event")))
            else (handed ++ [text], match consumer (handed ++ [text]) with
              | .error e => some (.error e)
              | .ok true => none
              | .ok false => some (.ok (declined event)))
        | _, _ =>
            (handed, some
              (.error (err .ProtocolError "Unexpected MLX worker event")))

/-- What the frames of an answer do, up to the one that ends the call. -/
def frames (M : Mlx) (onText : Option Consumer) :
    List QString → List WireLine →
    List QString × Option (Except Exn JsonObject)
  | handed, [] => (handed, none)
  | handed, line :: lines =>
      match frame M onText handed line with
      | (handed, some ends) => (handed, some ends)
      | (handed, none) => frames M onText handed lines

/-- How many frames a call looks at. -/
def needed (M : Mlx) (onText : Option Consumer) :
    List QString → List WireLine → Nat
  | _, [] => 0
  | handed, line :: lines =>
      match frame M onText handed line with
      | (_, some _) => 1
      | (handed, none) => needed M onText handed lines + 1

/-- A read that is made before the call has ended reaches no further than
the limit, counted from the start of the frame that is open. -/
def Fits (M : Mlx) (onText : Option Consumer) (handed : List QString)
    (lines : List WireLine) (opened : Nat) (turns : List PipeTurn) : Prop :=
  ∀ before turn after, turns = before ++ turn :: after →
    complete lines (opened + arrived before) < needed M onText handed lines →
    min (size lines) (opened + arrived before + turn.arrives)
      ≤ size (lines.take (complete lines (opened + arrived before)))
        + frameLimit

/-- Frames that do not end the call lead on to those behind them. -/
theorem frames_append {handed handed' : List QString} {lines : List WireLine}
    (h : frames M onText handed lines = (handed', none))
    (lines' : List WireLine) :
    frames M onText handed (lines ++ lines') = frames M onText handed' lines'
      ∧ needed M onText handed (lines ++ lines')
        = lines.length + needed M onText handed' lines' := by
  induction lines generalizing handed with
  | nil =>
      cases h
      simp
  | cons line lines ih =>
      unfold frames at h
      rcases hframe : frame M onText handed line with ⟨handed₁, _ | ends⟩
      · rw [hframe] at h
        obtain ⟨hframes, hneeded⟩ := ih h
        simp only [List.cons_append, frames, needed, hframe, hframes, hneeded,
          List.length_cons]
        exact ⟨trivial, by omega⟩
      · rw [hframe] at h
        cases h

/-- Behind frames that end the call nothing matters. -/
theorem frames_ended {handed handed' : List QString} {lines : List WireLine}
    {ends : Except Exn JsonObject}
    (h : frames M onText handed lines = (handed', some ends))
    (lines' : List WireLine) :
    frames M onText handed (lines ++ lines') = (handed', some ends)
      ∧ needed M onText handed (lines ++ lines') ≤ lines.length := by
  induction lines generalizing handed with
  | nil => cases h
  | cons line lines ih =>
      unfold frames at h
      rcases hframe : frame M onText handed line with ⟨handed₁, _ | ends₁⟩
      · rw [hframe] at h
        obtain ⟨hframes, hneeded⟩ := ih h
        simp only [List.cons_append, frames, needed, hframe, hframes,
          List.length_cons]
        exact ⟨trivial, by omega⟩
      · rw [hframe] at h
        simp only [List.cons_append, frames, needed, hframe, List.length_cons]
        exact ⟨h, by omega⟩

/-- The refusal of the buffer. -/
def tooLarge : Exn := err .ProtocolError "MLX worker frame too large"

/-- A frame hands a text on, or it ends the call, and not as the refusal of
the buffer does. -/
theorem frame_progress {handed handed' : List QString} {line : WireLine}
    {ends : Option (Except Exn JsonObject)}
    (h : frame M onText handed line = (handed', ends)) :
    (∃ text, handed' = handed ++ [text])
      ∨ handed' = handed ∧ ∃ r, ends = some r ∧ r ≠ .error tooLarge := by
  have hjson : (err .ProtocolError "Invalid MLX worker JSON")
    ≠ tooLarge := by decide
  have hevent : (err .ProtocolError "Unexpected MLX worker event")
      ≠ tooLarge := by
    decide
  have hcode : ∀ message, Exn.error ⟨.RuntimeFailure, message⟩ ≠ tooLarge := by
    intro message heq
    cases heq
  unfold frame at h
  cases hline : M.fromJson line with
  | none =>
      rw [hline] at h
      cases h
      exact .inr ⟨rfl, _, rfl, fun heq => hjson (Except.error.inj heq)⟩
  | some event =>
      rw [hline] at h
      dsimp only at h
      split at h
      next =>
        cases h
        exact .inr ⟨rfl, _, rfl, fun heq => hcode _ (Except.error.inj heq)⟩
      next =>
        split at h
        next =>
          cases h
          exact .inr ⟨rfl, _, rfl, fun heq => nomatch heq⟩
        next =>
          split at h
          next consumer text _ =>
            split at h
            next =>
              cases h
              exact .inr ⟨rfl, _, rfl, fun heq =>
                hevent (Except.error.inj heq)⟩
            next =>
              cases h
              exact .inl ⟨text, rfl⟩
          next =>
            cases h
            exact .inr ⟨rfl, _, rfl, fun heq => hevent (Except.error.inj heq)⟩

/-- Reading lines only adds to what was handed on. -/
theorem frames_grow {handed handed' : List QString} {lines : List WireLine}
    {ends : Option (Except Exn JsonObject)}
    (h : frames M onText handed lines = (handed', ends)) :
    handed.length ≤ handed'.length := by
  induction lines generalizing handed with
  | nil =>
      cases h
      exact Nat.le_refl _
  | cons line lines ih =>
      unfold frames at h
      rcases hframe : frame M onText handed line with ⟨handed₁, ends₁⟩
      have hstep : handed.length ≤ handed₁.length := by
        rcases frame_progress hframe with ⟨text, rfl⟩ | ⟨rfl, -⟩ <;> simp
      cases ends₁ with
      | none =>
          rw [hframe] at h
          exact Nat.le_trans hstep (ih h)
      | some _ =>
          rw [hframe] at h
          cases h
          exact hstep

/-- Short of the frames that a call looks at the outcome is
another one than theirs. -/
theorem short_differs {handed handed' : List QString} {lines : List WireLine}
    {k : Nat} (hk : k < needed M onText handed lines)
    (h : frames M onText handed (lines.take k) = (handed', none)) :
    frames M onText handed lines ≠ (handed', some (.error tooLarge)) := by
  intro heq
  obtain ⟨hframes, hneeded⟩ := frames_append h (lines.drop k)
  rw [List.take_append_drop] at hframes hneeded
  cases hrest : lines.drop k with
  | nil =>
      rw [hrest] at hneeded
      have := List.length_take_le k lines
      simp only [needed] at hneeded
      omega
  | cons line rest =>
      rw [heq, hrest] at hframes
      unfold frames at hframes
      rcases hframe : frame M onText handed' line with ⟨handed₁, ends⟩
      rw [hframe] at hframes
      rcases frame_progress hframe with ⟨text, rfl⟩ | ⟨rfl, r, rfl, hr⟩
      · cases ends with
        | none =>
            have := frames_grow hframes.symm
            simp at this
        | some ends =>
            have := congrArg (fun p => p.1.length) hframes
            simp at this
      · cases hframes
        exact hr rfl

-- ================================================================ a frame

/-- Nothing of the pipe has changed. -/
structure Untouched (w w' : MlxWorker) : Prop where
  input : w'.input = w.input
  output : w'.output = w.output
  running : w'.running = w.running

/-- A line does to the call what the frame does. The line is parsed here, and
the frame was never cut. -/
theorem handle_frame (request : Nat) (line : WireLine) (w : MlxWorker) :
    wp (handle M request onText (tagged request line))
      (fun ended w' =>
        frame M onText w.handed line = (w'.handed, ended.map Except.ok)
        ∧ (ended = none → Untouched w w'))
      (fun x w' => frame M onText w.handed line = (w'.handed, some (.error x)))
      w := by
  have hbytes : (tagged request line).map OutputByte.byte = line := by
    unfold tagged
    rw [List.map_map]
    exact List.map_id _
  unfold handle frame
  rw [hbytes]
  cases M.fromJson line with
  | none => exact rfl
  | some event =>
      dsimp only
      split
      next => exact rfl
      next =>
        split
        next =>
          rw [wp_bind, wp_modify, wp_pure]
          exact ⟨rfl, fun h => nomatch h⟩
        next =>
          cases onText with
          | none => exact rfl
          | some consumer =>
              cases Json.lookup event (qs "text") with
              | none => exact rfl
              | some value =>
                  cases value with
                  | string text =>
                      dsimp only
                      split
                      next => exact rfl
                      next =>
                        unfold hand
                        rw [wp_bind, wp_bind, wp_get, wp_bind,
                          wp_set, wp_ofExcept]
                        refine ⟨fun keepGoing hanswer => ?_,
                          fun e hanswer => ?_⟩
                        · rw [hanswer, wp_ite]
                          refine ⟨fun hgo => ?_, fun hstop => ?_⟩
                          · subst hgo
                            exact ⟨rfl, fun _ => ⟨rfl, rfl, rfl⟩⟩
                          · rw [Bool.not_eq_true] at hstop
                            subst hstop
                            unfold stop
                            rw [wp_bind, wp_modify, wp_pure]
                            exact ⟨rfl, fun h => nomatch h⟩
                        · rw [hanswer]
                  | _ => exact rfl

-- ================================================================= a read

/-- The first frame can be cut off as soon as it is complete. -/
theorem cutLine_render (request : Nat) {line : WireLine}
    (hline : (10 : UInt8) ∉ line) (rest : Output) :
    cutLine (tagged request line ++ ⟨10, request⟩ :: rest)
      = some (tagged request line, rest) := by
  unfold tagged
  induction line with
  | nil => simp [cutLine]
  | cons byte line ih =>
      rw [List.mem_cons, not_or] at hline
      have hbyte : ¬ byte = 10 := fun heq => hline.1 heq.symm
      simp only [List.map_cons, List.cons_append, cutLine,
        if_neg hbyte, ih hline.2,
        Option.map_some]

/-- Without a line feed there is no line to cut. -/
theorem cutLine_open {input : Output} (h : ∀ b ∈ input, b.byte ≠ 10) :
    cutLine input = none := by
  induction input with
  | nil => rfl
  | cons b input ih =>
      rw [List.forall_mem_cons] at h
      simp [cutLine, h.1, ih h.2]

/-- What the first bytes of an answer begin with: a whole line once its line
feed is among them, and none before. -/
theorem cutLine_take (request n : Nat) {lines : List WireLine}
    (hlines : ∀ line ∈ lines, (10 : UInt8) ∉ line) :
    cutLine ((render request lines).take n) = match lines with
      | [] => none
      | line :: lines =>
          if line.length + 1 ≤ n then some (tagged request line,
            (render request lines).take (n - (line.length + 1)))
          else none := by
  cases lines with
  | nil => simp [render, cutLine]
  | cons line lines =>
      have hline := hlines line List.mem_cons_self
      have hlength : (tagged request line).length = line.length := by
        simp [tagged]
      rw [render_cons]
      dsimp only
      split
      next hfits =>
        have hsplit :
          (tagged request line ++ ⟨10, request⟩ :: render request lines).take n
            = tagged request line ++ ⟨10, request⟩
              :: (render request lines).take (n - (line.length + 1)) := by
          rw [List.take_append, List.take_of_length_le (by omega), hlength,
            show n - line.length = n - (line.length + 1) + 1 by omega,
            List.take_succ_cons]
        rw [hsplit, cutLine_render request hline]
      next hopen =>
        refine cutLine_open fun b hb => ?_
        rw [List.take_append_of_le_length (by omega)] at hb
        obtain ⟨byte, hbyte, rfl⟩ := List.mem_map.1 (List.mem_of_mem_take hb)
        exact fun heq => hline (heq ▸ hbyte)

/-- The complete frames of the input are looked at, and the rest of
it stays. -/
theorem readLines_frames (onText : Option Consumer) (request : Nat)
    {left n : Nat} {lines : List WireLine}
    (hlines : ∀ line ∈ lines, (10 : UInt8) ∉ line)
    (hleft : complete lines n ≤ left)
    {w : MlxWorker} (hinput : w.input = (render request lines).take n) :
    wp (readLines M request onText left)
      (fun ended w' =>
        frames M onText w.handed (lines.take (complete lines n))
          = (w'.handed, ended.map Except.ok)
        ∧ (ended = none → w'.output = w.output ∧ w'.running = w.running
          ∧ w'.input = (render request (lines.drop (complete lines n))).take
              (n - size (lines.take (complete lines n)))))
      (fun x w' => frames M onText w.handed (lines.take (complete lines n))
        = (w'.handed, some (.error x))) w := by
  induction left generalizing lines n w with
  | zero =>
      have hnone : complete lines n = 0 := Nat.le_zero.1 hleft
      unfold readLines
      rw [wp_pure, hnone, List.take_zero, List.drop_zero,
        size_nil, Nat.sub_zero]
      exact ⟨rfl, fun _ => ⟨rfl, rfl, hinput⟩⟩
  | succ left ih =>
      unfold readLines
      rw [wp_bind, wp_get, hinput, cutLine_take request n hlines]
      cases lines with
      | nil => exact ⟨rfl, fun _ => ⟨rfl, rfl, by simp [hinput, render]⟩⟩
      | cons line lines =>
          by_cases hfits : line.length + 1 ≤ n
          · have hcount : complete (line :: lines) n
                = complete lines (n - (line.length + 1)) + 1 := by
              rw [complete, if_pos hfits]
            have hrest :
              n - size ((line :: lines).take (complete (line :: lines) n))
                = n - (line.length + 1)
                  - size (lines.take (complete lines
                    (n - (line.length + 1)))) := by
              rw [hcount, List.take_succ_cons, size_cons, Nat.sub_sub]
            rw [hrest]
            rw [hcount] at hleft ⊢
            simp only [if_pos hfits]
            rw [wp_bind, wp_set, wp_bind, List.take_succ_cons,
              List.drop_succ_cons]
            apply wp_mono (handle_frame request line _)
            · intro ended w' ⟨hframe, hkept⟩
              unfold frames
              cases ended with
              | some event =>
                  rw [hframe]
                  exact ⟨rfl, fun h => nomatch h⟩
              | none =>
                  rw [hframe]
                  have hsame := hkept rfl
                  have hnext := ih (fun l hl =>
                    hlines l (List.mem_cons_of_mem _ hl))
                    (Nat.le_of_succ_le_succ hleft) hsame.input
                  rw [hsame.output, hsame.running] at hnext
                  exact hnext
            · intro x w' hframe
              unfold frames
              rw [hframe]
          · have hcount : complete (line :: lines) n = 0 := by
              rw [complete, if_neg hfits]
            rw [hcount, List.take_zero, List.drop_zero, size_nil, Nat.sub_zero]
            simp only [if_neg hfits]
            rw [wp_pure]
            exact ⟨rfl, fun _ => ⟨rfl, rfl, hinput⟩⟩

-- ================================================================ the reads

/-- A read in front of others: it fits by itself, and they fit behind it. -/
theorem fits_cons {handed : List QString} {lines : List WireLine}
    {opened : Nat} {turn : PipeTurn} {turns : List PipeTurn}
    (hopened : complete lines opened = 0)
    (hneeded : 0 < needed M onText handed lines) :
    Fits M onText handed lines opened (turn :: turns)
      ↔ min (size lines) (opened + turn.arrives) ≤ frameLimit
        ∧ Fits M onText handed lines (opened + turn.arrives) turns := by
  refine ⟨fun h => ⟨?_, fun before turn' after heq => ?_⟩,
    fun ⟨hfirst, hrest⟩ before turn' after heq => ?_⟩
  · simpa [hopened, hneeded] using h [] turn turns rfl
  · have hlater := h (turn :: before) turn' after (by rw [heq]; rfl)
    rwa [arrived_cons, ← Nat.add_assoc] at hlater
  · cases before with
    | nil =>
        obtain ⟨rfl, rfl⟩ := List.cons_eq_cons.1 heq
        simpa [hopened] using fun _ => hfirst
    | cons first before =>
        rw [List.cons_append] at heq
        injection heq with hfirst' heq
        rw [arrived_cons, ← Nat.add_assoc, ← hfirst']
        exact hrest before turn' after heq

/-- Behind frames that do not end the call the reads are measured
from their end. -/
theorem fits_drop {handed handed' : List QString} {lines : List WireLine}
    {k n : Nat} {turns : List PipeTurn} (hk : k ≤ lines.length)
    (hn : size (lines.take k) ≤ n)
    (h : frames M onText handed (lines.take k) = (handed', none)) :
    Fits M onText handed lines n turns
      ↔ Fits M onText handed' (lines.drop k)
        (n - size (lines.take k)) turns := by
  have hneeded : needed M onText handed lines
      = k + needed M onText handed' (lines.drop k) := by
    have := (frames_append h (lines.drop k)).2
    rwa [List.take_append_drop, List.length_take_of_le hk] at this
  have hread : ∀ a b, (complete lines (n + a) < needed M onText handed lines →
        min (size lines) (n + a + b)
          ≤ size (lines.take (complete lines (n + a))) + frameLimit)
      ↔ (complete (lines.drop k) (n - size (lines.take k) + a)
            < needed M onText handed' (lines.drop k) →
          min (size (lines.drop k)) (n - size (lines.take k) + a + b)
            ≤ size ((lines.drop k).take
              (complete (lines.drop k) (n - size (lines.take k) + a)))
                + frameLimit) := by
    intro a b
    have hsize := size_take_drop k lines
    rw [complete_add hk (Nat.le_trans hn (Nat.le_add_right n a)), hneeded,
      Nat.sub_add_comm hn, List.take_add, size_append]
    omega
  exact forall_congr' fun before => forall_congr' fun turn =>
      forall_congr' fun after =>
    imp_congr Iff.rfl (hread (arrived before) turn.arrives)

/-- Once the frame that ends the call has arrived no read is made. -/
theorem fits_ended {handed : List QString} {lines : List WireLine} {n : Nat}
    (h : needed M onText handed lines ≤ complete lines n)
    (turns : List PipeTurn) : Fits M onText handed lines n turns := by
  intro before turn after _ hmore
  have := complete_mono lines (Nat.le_add_right n (arrived before))
  omega

/-- An answer that ends has needed a line at least. -/
theorem needed_pos {handed : List QString} {lines : List WireLine}
    {ends : Except Exn JsonObject}
    (h : (frames M onText handed lines).2 = some ends) :
    0 < needed M onText handed lines := by
  cases lines with
  | nil => cases h
  | cons line lines =>
      unfold needed
      split
      · exact Nat.one_pos
      · exact Nat.succ_pos _

/-- A read while nothing happens to the process. -/
theorem read_wp {request opened : Nat} {lines : List WireLine}
    {turn : PipeTurn} {w : MlxWorker} (hexits : turn.exits = false)
    (hinput : w.input = (render request lines).take opened)
    (houtput : w.output = (render request lines).drop opened) :
    wp (MlxWorker.read turn)
      (fun _ w' => w'.input = (render request lines).take
        (opened + turn.arrives)
        ∧ w'.output = (render request lines).drop (opened + turn.arrives)
        ∧ w'.running = w.running ∧ w'.handed = w.handed)
      (fun _ _ => False) w := by
  unfold MlxWorker.read
  rw [wp_modify]
  refine ⟨?_, ?_, by simp [hexits], rfl⟩
  · rw [hinput, houtput, List.take_add]
  · simp [hexits, houtput, List.drop_drop]

/-- The loop does what the frames do where the reads fit, and is refused
before all needed frames were looked at where they do not. -/
theorem loop_frames (onText : Option Consumer) (request : Nat)
    (diagnostics : QString) {turns : List PipeTurn} :
    ∀ {lines : List WireLine} {opened : Nat} {w : MlxWorker},
    (∀ line ∈ lines, (10 : UInt8) ∉ line) → complete lines opened = 0 →
    w.running = true → w.input = (render request lines).take opened →
    w.output = (render request lines).drop opened →
    (∀ turn ∈ turns, turn.cancelled = false ∧ turn.exits = false) →
    size lines ≤ opened + arrived turns →
    (∃ ends, (frames M onText w.handed lines).2 = some ends) →
    wp (loop M request onText diagnostics turns)
      (fun event w' => Fits M onText w.handed lines opened turns
        ∧ frames M onText w.handed lines = (w'.handed, some (.ok event)))
      (fun x w' =>
        (Fits M onText w.handed lines opened turns
          ∧ frames M onText w.handed lines = (w'.handed, some (.error x)))
        ∨ (¬ Fits M onText w.handed lines opened turns ∧ x = tooLarge
          ∧ ∃ k < needed M onText w.handed lines,
            frames M onText w.handed (lines.take k)
              = (w'.handed, none))) w := by
  induction turns with
  | nil =>
      intro lines opened w _ hopened _ _ _ _ harrives hneeds
      obtain ⟨ends, hends⟩ := hneeds
      have hall := complete_all
        (Nat.le_trans harrives (by simp) : size lines ≤ opened)
      rw [hopened] at hall
      rw [List.length_eq_zero_iff.1 hall.symm] at hends
      cases hends
  | cons turn turns ih =>
      intro lines opened w hlines hopened hrunning hinput houtput
        hsteady harrives
        hneeds
      obtain ⟨ends, hends⟩ := hneeds
      obtain ⟨hcancelled, hexits⟩ := hsteady turn List.mem_cons_self
      have hneeded := needed_pos hends
      have hcons : Fits M onText w.handed lines opened (turn :: turns)
          ↔ min (size lines) (opened + turn.arrives) ≤ frameLimit
            ∧ Fits M onText w.handed lines (opened + turn.arrives) turns :=
        fits_cons hopened hneeded
      unfold loop
      rw [if_neg (by simp [hcancelled]), wp_bind]
      apply wp_mono (read_wp hexits hinput houtput) _ (fun _ _ h => h.elim)
      intro _ w₁ hread
      obtain ⟨hinput₁, houtput₁, hrunning₁, hhanded₁⟩ := hread
      have hlength : w₁.input.length
          = min (size lines) (opened + turn.arrives) := by
        rw [hinput₁, List.length_take, length_render, Nat.min_comm]
      rw [wp_bind, wp_get, wp_ite, hlength]
      refine ⟨fun hlarge => ?_, fun hsmall => ?_⟩
      · refine .inr ⟨fun hfits => ?_, rfl, 0, hneeded, ?_⟩
        · have := (hcons.1 hfits).1
          omega
        · rw [List.take_zero, hhanded₁]
          rfl
      · have hk := complete_le_length lines (opened + turn.arrives)
        have hsize := size_complete_le lines (opened + turn.arrives)
        have hrest := complete_rest lines (opened + turn.arrives)
        have hwhole := size_take_drop
          (complete lines (opened + turn.arrives)) lines
        have hleft : complete lines (opened + turn.arrives)
            ≤ min (size lines) (opened + turn.arrives) := by
          have := length_le_size
            (lines.take (complete lines (opened + turn.arrives)))
          rw [List.length_take_of_le hk] at this
          omega
        have hreads := readLines_frames
          (M := M) onText request hlines hleft hinput₁
        rw [hhanded₁, houtput₁, hrunning₁, hrunning] at hreads
        rw [wp_bind]
        generalize hcount : complete lines (opened + turn.arrives) = k at *
        have hended : ∀ {r : Except Exn JsonObject} {handed'},
            frames M onText w.handed (lines.take k) = (handed', some r) →
            Fits M onText w.handed lines opened (turn :: turns)
              ∧ frames M onText w.handed lines = (handed', some r) := by
          intro r handed' hframes
          obtain ⟨hsame, hlooked⟩ := frames_ended hframes (lines.drop k)
          rw [List.take_append_drop] at hsame hlooked
          rw [List.length_take_of_le hk, ← hcount] at hlooked
          exact ⟨hcons.2 ⟨by omega, fits_ended hlooked turns⟩, hsame⟩
        apply wp_mono hreads
        · intro ended w₂ hlines'
          obtain ⟨hframes, hkept⟩ := hlines'
          rw [wp_bind, wp_get]
          cases ended with
          | some event => exact hended hframes
          | none =>
              obtain ⟨houtput₂, hrunning₂, hinput₂⟩ := hkept rfl
              obtain ⟨hsame, hlooked⟩ := frames_append hframes (lines.drop k)
              rw [List.take_append_drop] at hsame hlooked
              rw [List.length_take_of_le hk] at hlooked
              have hfits : Fits M onText w.handed lines opened (turn :: turns)
                  ↔ Fits M onText w₂.handed (lines.drop k)
                    (opened + turn.arrives - size (lines.take k)) turns :=
                (hcons.trans (and_iff_right (by omega))).trans
                  (fits_drop hk hsize hframes)
              have hbehind : (render request lines).drop
                (opened + turn.arrives)
                  = (render request (lines.drop k)).drop
                    (opened + turn.arrives - size (lines.take k)) := by
                have hskip := render_append request (lines.take k)
                  (lines.drop k)
                rw [List.take_append_drop] at hskip
                rw [hskip, List.drop_append, length_render,
                  List.drop_of_length_le (by rw [length_render]; exact hsize),
                  List.nil_append]
              rw [arrived_cons] at harrives
              rw [wp_ite]
              refine ⟨fun _ => ?_, fun hstopped => absurd hrunning₂ hstopped⟩
              apply wp_mono (ih (fun l hl =>
                hlines l (List.mem_of_mem_drop hl)) hrest
                hrunning₂ hinput₂ (houtput₂.trans hbehind)
                (fun t ht => hsteady t (List.mem_cons_of_mem _ ht)) (by omega)
                ⟨ends, hsame ▸ hends⟩)
              · intro event w' hrest'
                obtain ⟨hfit, hall⟩ := hrest'
                exact ⟨hfits.2 hfit, hsame.trans hall⟩
              · rintro x w' (⟨hfit, hall⟩ | ⟨hfit, rfl, j, hj, hall⟩)
                · exact .inl ⟨hfits.2 hfit, hsame.trans hall⟩
                · refine .inr ⟨fun h => hfit (hfits.1 h), rfl,
                    k + j, by omega, ?_⟩
                  rw [List.take_add, (frames_append hframes _).1, hall]
        · exact fun x w₂ hframes => .inl (hended hframes)

-- ================================================================= a call

/-- What a call shows: how it ends, and the texts that it handed on. -/
def observed (M : Mlx) (o : CallOutside M) (request : Worker.Request)
    (onText : Option Consumer) (w : MlxWorker) :
    Except Exn JsonObject × List QString :=
  ((call M o request onText w).1, (call M o request onText w).2.handed)

/-- One read for each frame. -/
def frameByFrame (lines : List WireLine) : List PipeTurn :=
  lines.map fun line => { arrives := line.length + 1 }

/-- An answer whose last frame is a result or an error, as the worker writes
it. No frame is longer than the limit, with its newline. -/
structure Answered (M : Mlx) (lines : List WireLine) : Prop where
  last : ∃ line, lines.getLast? = some line
    ∧ (M.typeOf line = qs "result" ∨ M.typeOf line = qs "error")
  limit : ∀ line ∈ lines, line.length + 1 ≤ frameLimit

/-- Bytes arrive, and nothing else happens to the call. -/
def Steady (turns : List PipeTurn) : Prop :=
  ∀ turn ∈ turns, turn.cancelled = false ∧ turn.exits = false

/-- A result or an error ends the call, whatever it says. -/
theorem frame_ends (onText : Option Consumer) (handed : List QString)
    {line : WireLine}
    (h : M.typeOf line = qs "result" ∨ M.typeOf line = qs "error") :
    ∃ ends, (frame M onText handed line).2 = some ends := by
  unfold frame
  cases hline : M.fromJson line with
  | none => exact ⟨_, rfl⟩
  | some event =>
      have htype : M.typeOf line
          = Json.toText (Json.lookup event (qs "type")) := by
        simp [Mlx.typeOf, hline]
      rw [htype] at h
      dsimp only
      split
      next => exact ⟨_, rfl⟩
      next herror =>
        rw [if_pos (h.resolve_right herror)]
        exact ⟨_, rfl⟩

/-- So an answer that has one at its end ends the call there. -/
theorem Answered.ends {lines : List WireLine} (h : Answered M lines) :
    ∃ ends, (frames M onText [] lines).2 = some ends := by
  obtain ⟨last, hlast, htype⟩ := h.last
  obtain ⟨init, rfl⟩ := List.getLast?_eq_some_iff.1 hlast
  rcases hinit : frames M onText [] init with ⟨handed, _ | ends⟩
  · rw [(frames_append hinit [last]).1]
    obtain ⟨ends, hends⟩ := frame_ends onText handed htype
    refine ⟨ends, ?_⟩
    unfold frames
    rcases hframe : frame M onText handed last with ⟨handed', ends'⟩
    rw [hframe] at hends
    cases hends
    rfl
  · exact ⟨ends, by rw [(frames_ended hinit [last]).1]⟩

/-- A call to an idle process. What it has heard is what the frames of the
answer say, as far as they were read before it ended. -/
theorem call_frames {o : CallOutside M} {w : MlxWorker}
    (request : Worker.Request) (onText : Option Consumer)
    (hrunning : w.running = true) (hinput : w.input = [])
    (houtput : w.output = [])
    (hwrites : o.writes = true) (hanswer : Answered M o.answer.lines)
    (hsteady : Steady o.turns)
    (harrives : size o.answer.lines ≤ arrived o.turns) :
    wp (call M o request onText)
      (fun event w' => Fits M onText [] o.answer.lines 0 o.turns
        ∧ frames M onText [] o.answer.lines = (w'.handed, some (.ok event)))
      (fun x w' =>
        (Fits M onText [] o.answer.lines 0 o.turns
          ∧ frames M onText [] o.answer.lines = (w'.handed, some (.error x)))
        ∨ (¬ Fits M onText [] o.answer.lines 0 o.turns ∧ x = tooLarge
          ∧ ∃ k < needed M onText [] o.answer.lines,
            frames M onText [] (o.answer.lines.take k)
              = (w'.handed, none))) w := by
  unfold call write
  rw [wp_bind, wp_get, wp_bind, wp_set, wp_bind, wp_bind, wp_get,
    if_pos (by simp [hrunning, hwrites]), wp_set, wp_tryCatch]
  have hstart : complete o.answer.lines 0 = 0 := by
    have := complete_rest o.answer.lines 0
    have := size_complete_le o.answer.lines 0
    have := length_le_size (o.answer.lines.take (complete o.answer.lines 0))
    rw [List.length_take_of_le (complete_le_length _ _)] at this
    omega
  -- the process once the request is written
  generalize hwritten : ({ w with
      handed := []
      output := w.output ++ render w.requests o.answer.lines
      requests := w.requests + 1
      answers := w.answers ++ [o.answer.lines]
      processes := sent request w.processes } : MlxWorker) = written
  have hhanded : written.handed = [] := by rw [← hwritten]
  have hloop := loop_frames (M := M)
    (w := written) onText w.requests o.diagnostics
    o.answer.no_newline hstart (by rw [← hwritten]; exact hrunning)
    (by rw [← hwritten, List.take_zero]; exact hinput)
    (by rw [← hwritten, List.drop_zero, houtput]; rfl) hsteady
    (by simpa using harrives) (by rw [hhanded]; exact hanswer.ends)
  rw [hhanded] at hloop
  apply wp_mono hloop
  · exact fun _ _ h => h
  · intro x w' h
    unfold stop
    rw [wp_bind, wp_modify, wp_throw]
    exact h

/-- A call does what the frames do exactly where the reads fit. -/
theorem observed_frames {o : CallOutside M} {w : MlxWorker}
    (request : Worker.Request) (onText : Option Consumer)
    (hrunning : w.running = true) (hinput : w.input = [])
    (houtput : w.output = [])
    (hwrites : o.writes = true) (hanswer : Answered M o.answer.lines)
    (hsteady : Steady o.turns)
    (harrives : size o.answer.lines ≤ arrived o.turns) :
    frames M onText [] o.answer.lines
        = ((observed M o request onText w).2,
          some (observed M o request onText w).1)
      ↔ Fits M onText [] o.answer.lines 0 o.turns := by
  have hcall := call_frames request onText hrunning hinput houtput hwrites
    hanswer hsteady harrives
  unfold observed
  rcases wp_cases hcall with ⟨event, w', hrun, hfits, hframes⟩
    | ⟨x, w', hrun, ⟨hfits, hframes⟩ | ⟨hfits, rfl, k, hk, hframes⟩⟩
  · rw [hrun]
    exact ⟨fun _ => hfits, fun _ => hframes⟩
  · rw [hrun]
    exact ⟨fun _ => hfits, fun _ => hframes⟩
  · rw [hrun]
    exact ⟨fun heq => absurd heq (short_differs hk hframes), fun h =>
      absurd h hfits⟩

/-- The outcome of the frames, shown. -/
theorem observed_of_fits {o : CallOutside M} {w : MlxWorker}
    (request : Worker.Request) (onText : Option Consumer)
    (hrunning : w.running = true) (hinput : w.input = [])
    (houtput : w.output = [])
    (hwrites : o.writes = true) (hanswer : Answered M o.answer.lines)
    (hsteady : Steady o.turns)
    (harrives : size o.answer.lines ≤ arrived o.turns)
    (hfits : Fits M onText [] o.answer.lines 0 o.turns) {handed : List QString}
    {ends : Except Exn JsonObject}
    (hframes : frames M onText [] o.answer.lines = (handed, some ends)) :
    observed M o request onText w = (ends, handed) := by
  have hshown := (observed_frames request onText hrunning hinput
    houtput hwrites
    hanswer hsteady harrives).2 hfits
  rw [hframes] at hshown
  obtain ⟨hhanded, houtcome⟩ := Prod.mk.inj hshown
  exact Prod.ext (Option.some.inj houtcome).symm hhanded.symm

/-- A read that does not fit ends the call. -/
theorem observed_refused {o : CallOutside M} {w : MlxWorker}
    (request : Worker.Request) (onText : Option Consumer)
    (hrunning : w.running = true) (hinput : w.input = [])
    (houtput : w.output = [])
    (hwrites : o.writes = true) (hanswer : Answered M o.answer.lines)
    (hsteady : Steady o.turns)
    (harrives : size o.answer.lines ≤ arrived o.turns)
    (hfits : ¬ Fits M onText [] o.answer.lines 0 o.turns) :
    (observed M o request onText w).1 = .error tooLarge := by
  have hcall := call_frames request onText hrunning hinput houtput hwrites
    hanswer hsteady harrives
  unfold observed
  rcases wp_cases hcall with ⟨_, _, -, hfit, -⟩
    | ⟨_, _, hrun, ⟨hfit, -⟩ | ⟨-, rfl, -⟩⟩
  · exact absurd hfit hfits
  · exact absurd hfit hfits
  · rw [hrun]

/-- Frame by frame, all of the bytes arrive. -/
theorem arrived_frameByFrame (lines : List WireLine) :
    arrived (frameByFrame lines) = size lines := by
  simp [arrived, frameByFrame, size, Function.comp_def]

/-- And nothing else happens to the call: it is not cancelled, and the process
does not exit. -/
theorem steady_frameByFrame (lines : List WireLine) :
    Steady (frameByFrame lines) := by
  intro turn hturn
  obtain ⟨line, -, rfl⟩ := List.mem_map.1 hturn
  exact ⟨rfl, rfl⟩

/-- Reading frame by frame fits where every frame does. -/
theorem fits_frameByFrame {handed : List QString} {lines : List WireLine}
    (hlimit : ∀ line ∈ lines, line.length + 1 ≤ frameLimit) :
    Fits M onText handed lines 0 (frameByFrame lines) := by
  intro before turn after heq _
  obtain ⟨front, back, rfl, hbefore, hback⟩ := List.map_eq_append_iff.1 heq
  obtain ⟨line, rest, rfl, rfl, hrest⟩ := List.map_eq_cons_iff.1 hback
  have harrived : arrived before = size front := by
    rw [← hbefore]
    exact arrived_frameByFrame front
  have hcount : complete (front ++ line :: rest) (size front)
      = front.length := by
    have htake : (front ++ line :: rest).take front.length = front := by simp
    have := complete_add (show front.length
      ≤ (front ++ line :: rest).length by simp)
      (Nat.le_of_eq (congrArg size htake))
    rw [htake, Nat.sub_self] at this
    simpa [complete] using this
  have hline := hlimit line (by simp)
  rw [harrived, Nat.zero_add, hcount, List.take_left]
  dsimp only
  omega

/-- However the bytes of an answer are cut into reads, a call shows what it
shows when it reads frame by frame, exactly when no read that is made before
the call has ended reaches further than the limit. -/
theorem chunks_invisible {o : CallOutside M} {w : MlxWorker}
    (request : Worker.Request) (onText : Option Consumer)
    (hrunning : w.running = true) (hinput : w.input = [])
    (houtput : w.output = [])
    (hwrites : o.writes = true) (hanswer : Answered M o.answer.lines)
    (hsteady : Steady o.turns)
    (harrives : size o.answer.lines ≤ arrived o.turns) :
    observed M o request onText w
        = observed M { o with turns := frameByFrame o.answer.lines }
          request onText w
      ↔ Fits M onText [] o.answer.lines 0 o.turns := by
  have hreads := observed_frames request onText hrunning hinput houtput
    hwrites hanswer hsteady harrives
  have hwhole := (observed_frames
    (o := { o with turns := frameByFrame o.answer.lines })
    request onText hrunning hinput houtput hwrites hanswer
    (steady_frameByFrame _) (Nat.le_of_eq (arrived_frameByFrame _).symm)).2
    (fits_frameByFrame hanswer.limit)
  refine ⟨fun heq => hreads.1 (heq ▸ hwhole), fun hfits => ?_⟩
  exact observed_of_fits request onText hrunning hinput houtput hwrites hanswer
    hsteady harrives hfits hwhole

/-- An answer that fits as a whole fits in any reads. -/
theorem fits_of_size {handed : List QString} {lines : List WireLine}
    {opened : Nat} (hsize : size lines ≤ frameLimit) (turns : List PipeTurn) :
    Fits M onText handed lines opened turns := by
  intro before turn after _ _
  omega

/-- A delta and a result, cut in the middle of the delta. -/
theorem chunks_invisible_sample :
    observed sampleMlx (sampleCall [[1], [2]] [1, 2, 1]
        (by decide) (by decide))
        (.generate ⟨qs "k", [7], {}⟩) (some fun _ => .ok true)
        { running := true }
      = observed sampleMlx
        { sampleCall [[1], [2]] [1, 2, 1] (by decide) (by decide) with
          turns := frameByFrame [[1], [2]] }
        (.generate ⟨qs "k", [7], {}⟩) (some fun _ => .ok true)
        { running := true } :=
  (chunks_invisible (o := sampleCall [[1], [2]] [1, 2, 1]
    (by decide) (by decide))
    (.generate ⟨qs "k", [7], {}⟩) (some fun _ => .ok true) rfl rfl rfl rfl
    ⟨⟨[2], rfl, .inl (by decide)⟩, by decide⟩ (by unfold Steady; decide)
    (by decide)).2 (fits_of_size (by decide) _)

-- ============================================================ on a sample

namespace Chunks

/-- A delta with a text of this length, as the worker writes it. -/
def delta (n : Nat) : WireLine :=
  asciiBytes "\x7b\"type\":\"delta\",\"text\":\"" ++ List.replicate n 97
    ++ asciiBytes "\"\x7d"

def result : WireLine :=
  asciiBytes "\x7b\"type\":\"result\",\"finish_reason\":\"stop\"\x7d"

def resultObject : JsonObject :=
  [(qs "finish_reason", .string (qs "stop")),
    (qs "type", .string (qs "result"))]

/-- A reader that knows these two lines. -/
def mlx (n : Nat) : Mlx where
  fromJson := fun line =>
    if line = delta n then some
      [(qs "text", .string (List.replicate n 97)),
        (qs "type", .string (qs "delta"))]
    else if line = result then some resultObject
    else none
  validate := fun _ => .ok ()
  path := qs "/m"
  contextTokens := 512
  backend := qs "cpu"

/-- The line of a delta is its text and 26 bytes around it. -/
theorem length_delta (n : Nat) : (delta n).length = n + 26 := by
  have hfront : (asciiBytes "\x7b\"type\":\"delta\",\"text\":\"").length
    = 24 := by decide
  have hback : (asciiBytes "\"\x7d").length = 2 := by decide
  simp only [delta, List.length_append, List.length_replicate, hfront, hback]
  omega

/-- The line of the result is short. -/
theorem length_result : result.length = 40 := by decide

/-- So it is not the line of a long delta. -/
theorem result_ne_delta {n : Nat} (h : 40 < n) : result ≠ delta n := by
  intro heq
  have := congrArg List.length heq
  rw [length_delta, length_result] at this
  omega

/-- The delta is read as the object it was written for, -/
theorem fromJson_delta (n : Nat) : (mlx n).fromJson (delta n) = some
    [(qs "text", .string (List.replicate n 97)),
      (qs "type", .string (qs "delta"))] :=
  if_pos rfl

/-- and so is the result. -/
theorem fromJson_result {n : Nat} (h : 40 < n) :
    (mlx n).fromJson result = some resultObject := by
  unfold mlx
  dsimp only
  rw [if_neg (result_ne_delta h), if_pos rfl]

/-- The type of a delta is what its object says. -/
theorem typeOf_delta (n : Nat) : (mlx n).typeOf (delta n) = qs "delta" := by
  unfold Mlx.typeOf
  rw [fromJson_delta]
  rfl

/-- What the two frames do, for a consumer that goes on. -/
theorem frames_answer {n : Nat} (h : 40 < n) :
    frames (mlx n) (some fun _ => .ok true) [] [delta n, result]
      = ([List.replicate n 97], some (.ok resultObject)) := by
  have hdelta : frame (mlx n) (some fun _ => .ok true) [] (delta n)
      = ([List.replicate n 97], none) := by
    unfold frame
    rw [fromJson_delta]
    rfl
  have hresult : ∀ handed, frame (mlx n) (some fun _ => .ok true) handed result
      = (handed, some (.ok resultObject)) := by
    intro handed
    unfold frame
    rw [fromJson_result h]
    rfl
  simp only [frames, hdelta, hresult]

/-- The delta and the result. -/
def answer (n : Nat) : WorkerAnswer (mlx n) where
  lines := [delta n, result]
  no_newline := by
    intro line hline
    rcases List.mem_cons.1 hline with rfl | hline
    · simp only [delta, List.mem_append, List.mem_replicate]
      rintro ((hfront | ⟨-, hletter⟩) | hback)
      · exact absurd hfront (by decide)
      · exact absurd hletter (by decide)
      · exact absurd hback (by decide)
    · rw [List.mem_singleton.1 hline]
      decide
  only_last := by
    intro line hline
    rw [List.mem_singleton.1 hline]
    rw [typeOf_delta]
    decide

/-- The longest delta that the worker may write. -/
def longest : Nat := frameLimit - 27

/-- The delta has arrived without its newline when a read brings the rest. -/
def queued : CallOutside (mlx longest) where
  answer := answer longest
  turns := [{ arrives := longest + 26 }, { arrives := 42 }]

/-- The answer that was queued is one delta and the result. -/
theorem queued_answered : Answered (mlx longest) queued.answer.lines where
  last := ⟨result, rfl, .inl (by
    rw [Mlx.typeOf, fromJson_result (by decide)]
    decide)⟩
  limit := by
    intro line hline
    rcases List.mem_cons.1 hline with rfl | hline
    · rw [length_delta]
      decide
    · rw [List.mem_singleton.1 hline, length_result]
      decide

/-- A worker that runs and has been asked nothing. -/
def idle : MlxWorker := { running := true }

/-- Line by line, the delta is handed on and the result returned. -/
theorem frames_queued :
    frames (mlx longest) (some fun _ => .ok true) [] queued.answer.lines
      = ([List.replicate longest 97], some (.ok resultObject)) :=
  frames_answer (by decide)

/-- Together, the lines take 41 bytes more than the limit of a frame. -/
theorem size_queued : size queued.answer.lines = frameLimit + 41 := by
  show size [delta longest, result] = _
  rw [size_cons, size_cons, length_delta, length_result]
  rfl

/-- Nothing happens to the call but that its bytes arrive. -/
theorem steady_queued : Steady queued.turns := by
  intro turn hturn
  rcases List.mem_cons.1 hturn with rfl | hturn
  · exact ⟨rfl, rfl⟩
  · rw [List.mem_singleton.1 hturn]
    exact ⟨rfl, rfl⟩

/-- The second read reaches past the limit, with the delta still open. -/
theorem queued_not_fits (onText : Option Consumer) :
    ¬ Fits (mlx longest) onText [] queued.answer.lines 0 queued.turns := by
  intro hfits
  obtain ⟨ends, hends⟩ : ∃ ends,
      (frames (mlx longest) onText [] queued.answer.lines).2 = some ends :=
    queued_answered.ends
  have hneeded := needed_pos hends
  have hopen : complete queued.answer.lines (longest + 26) = 0 := by
    show complete [delta longest, result] (longest + 26) = 0
    rw [complete, length_delta, if_neg (by omega)]
  have hread := hfits [{ arrives := longest + 26 }] { arrives := 42 } [] rfl
  simp only [arrived_cons, arrived_nil, Nat.add_zero, Nat.zero_add, hopen,
    size_queued, List.take_zero, size_nil] at hread
  have := hread hneeded
  unfold longest frameLimit at this
  omega

end Chunks

/-- A delta of 16 MiB and the result behind it. Read frame by frame the text
is handed on and the result returned. Where one read brings the delta's
newline together with the result, the call is refused. -/
theorem chunks_visible :
    Answered (Chunks.mlx Chunks.longest) Chunks.queued.answer.lines
    ∧ Steady Chunks.queued.turns
    ∧ arrived Chunks.queued.turns = size Chunks.queued.answer.lines
    ∧ observed (Chunks.mlx Chunks.longest)
        { Chunks.queued with turns := frameByFrame Chunks.queued.answer.lines }
        (.generate ⟨qs "k", [7], {}⟩) (some fun _ => .ok true) Chunks.idle
      = (.ok Chunks.resultObject, [List.replicate Chunks.longest 97])
    ∧ (observed (Chunks.mlx Chunks.longest) Chunks.queued
        (.generate ⟨qs "k", [7], {}⟩) (some fun _ => .ok true) Chunks.idle).1
      = .error (err .ProtocolError "MLX worker frame too large") := by
  have harrived : arrived Chunks.queued.turns
      = size Chunks.queued.answer.lines := by
    rw [Chunks.size_queued]
    rfl
  refine ⟨Chunks.queued_answered, Chunks.steady_queued, harrived, ?_, ?_⟩
  · exact observed_of_fits (w := Chunks.idle)
      (o := { Chunks.queued with
        turns := frameByFrame Chunks.queued.answer.lines })
      _ _ rfl rfl rfl rfl Chunks.queued_answered
      (steady_frameByFrame _) (Nat.le_of_eq (arrived_frameByFrame _).symm)
      (fits_frameByFrame Chunks.queued_answered.limit) Chunks.frames_queued
  · exact observed_refused (w := Chunks.idle) (o := Chunks.queued) _ _ rfl rfl
      rfl rfl Chunks.queued_answered
      Chunks.steady_queued (Nat.le_of_eq harrived.symm)
      (Chunks.queued_not_fits (some fun _ => .ok true))

end LocalLLM.MlxWorker
