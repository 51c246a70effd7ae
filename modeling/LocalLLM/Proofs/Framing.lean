/-
How the stream of a connection is cut into frames.

# What is read

The bytes of a stream arrive in pieces, each appended to the input, and the
loop of `read` takes whole lines from its front. What was handled and what is
left in the input is the stream (`Framed`), at every step.

# Two limits

A line is refused for its length when its end is there, and the input is
refused when no end is there: both times what is too long is the first
segment of the input, and it stays too long when more arrives. So the frames
that are handled, and whether the connection is aborted, depend on the stream
and not on its pieces (`framing`).
-/
import LocalLLM.Proofs.Ipc

namespace LocalLLM.Ipc

variable {v : Server} {c c' : Client}

-- =============================================================== the segments

/-- The maximal pieces of a stream without a newline: the lines, and what is
behind the last one. -/
def segments (stream : List UInt8) : List (List UInt8) := stream.splitOn 10

theorem segments_line {line : List UInt8} (h : 10 ∉ line) (rest : List UInt8) :
    segments (line ++ 10 :: rest) = line :: segments rest := by
  unfold segments
  rw [List.splitOn_eq_splitOnP, List.splitOn_eq_splitOnP,
    List.splitOnP_append_cons line rest (by simp), List.splitOnP_eq_singleton]
  · rfl
  · intro u hu
    rw [beq_eq_false_iff_ne]
    exact fun heq => h (heq ▸ hu)

theorem segments_tail {tail : List UInt8} (h : 10 ∉ tail) :
    segments tail = [tail] := by
  unfold segments
  rw [List.splitOn_eq_splitOnP]
  refine List.splitOnP_eq_singleton fun u hu => ?_
  rw [beq_eq_false_iff_ne]
  exact fun heq => h (heq ▸ hu)

theorem takeLine_none {input : List UInt8} :
    takeLine input = none ↔ 10 ∉ input := by
  unfold takeLine
  by_cases h : 10 ∈ input
  · simp [h]
  · simp [h]

/-- The first segment, up to the newline if there is one. -/
theorem takeWhile_line {line : List UInt8} (h : 10 ∉ line)
    (rest : List UInt8) : (line ++ 10 :: rest).takeWhile (· != 10) = line := by
  rw [List.takeWhile_append_of_pos fun u hu => by
    simpa using fun heq : u = 10 => h (heq ▸ hu)]
  simp

theorem takeWhile_tail {tail : List UInt8} (h : 10 ∉ tail) :
    tail.takeWhile (· != 10) = tail := by
  rw [List.takeWhile_eq_self_iff]
  intro u hu
  simpa using fun heq : u = 10 => h (heq ▸ hu)

/-- A stream is one segment, or a line and what is behind it. -/
theorem split_line (input : List UInt8) :
    10 ∉ input ∨ ∃ line rest, 10 ∉ line ∧ input = line ++ 10 :: rest := by
  by_cases h : 10 ∈ input
  · obtain ⟨line, rest, heq, hline⟩ := List.eq_append_cons_of_mem h
    exact .inr ⟨line, rest, hline, heq⟩
  · exact .inl h

/-- A line was found: it is what stands before the first line feed, and the
rest is what stands behind it. -/
theorem takeLine_some {input line rest : List UInt8} :
    takeLine input = some (line, rest)
      ↔ 10 ∉ line ∧ input = line ++ 10 :: rest := by
  rcases split_line input with h | ⟨line', rest', hline, rfl⟩
  · rw [takeLine_none.2 h]
    constructor
    · exact fun h => nomatch h
    · intro h'
      refine absurd ?_ h
      rw [h'.2]
      simp
  · have htake : takeLine (line' ++ 10 :: rest') = some (line', rest') := by
      unfold takeLine
      rw [if_pos (by simp), takeWhile_line hline, List.dropWhile_append_of_pos
          fun u hu => by
        simpa using fun heq : u = 10 => hline (heq ▸ hu)]
      simp
    rw [htake, Option.some.injEq, Prod.mk.injEq]
    constructor
    · intro h
      obtain ⟨rfl, rfl⟩ := h
      exact ⟨hline, rfl⟩
    · intro h
      obtain ⟨hline', heq⟩ := h
      have hsame : line' = line := by
        rw [← takeWhile_line hline rest', heq, takeWhile_line hline']
      subst hsame
      exact ⟨rfl, (List.cons.inj (List.append_cancel_left heq)).2⟩

/-- The segments of some lines and of what is behind them. -/
theorem segments_lines {lines : List (List UInt8)}
    (h : ∀ line ∈ lines, 10 ∉ line) (rest : List UInt8) :
    segments (lines.flatMap (fun line => line ++ [10]) ++ rest)
      = lines ++ segments rest := by
  induction lines with
  | nil => rfl
  | cons line lines ih =>
      have hline := h line (List.mem_cons_self ..)
      rw [List.flatMap_cons, List.append_assoc, List.append_assoc,
        List.singleton_append, segments_line hline,
        ih fun l hl => h l (List.mem_cons_of_mem _ hl)]
      rfl

/-- The first segment is what stands in front of the first newline. -/
theorem segments_first (stream : List UInt8) :
    ∃ more, segments stream = stream.takeWhile (· != 10) :: more := by
  rcases split_line stream with h | ⟨line, rest, hline, rfl⟩
  · exact ⟨[], by rw [segments_tail h, takeWhile_tail h]⟩
  · exact ⟨segments rest, by rw [segments_line hline, takeWhile_line hline]⟩

/-- It does not become shorter when more arrives. -/
theorem first_le (stream more : List UInt8) :
    (stream.takeWhile (· != 10)).length
      ≤ ((stream ++ more).takeWhile (· != 10)).length := by
  rw [List.takeWhile_append]
  by_cases h : (stream.takeWhile (· != 10)).length = stream.length
  · rw [if_pos h, h, List.length_append]
    omega
  · rw [if_neg h]

-- =================================================================== one step

/-- The bytes that arrive in some steps. -/
def received : List Action → List UInt8
  | [] => []
  | .receive bytes :: as => bytes ++ received as
  | _ :: as => received as

/-- What a step handles. The loop of `read` takes a line, up to its newline,
from the front of the input, and the step is what the request that `parse`
makes of this line does; or it takes nothing and is left, with an abort or
without. No other step handles a line. -/
inductive Handles (v : Server) (c : Client) :
    Action → List (List UInt8) → Client → Prop
  | line {response : Response} {line rest : List UInt8} {c' : Client} :
      c.input = line ++ 10 :: rest → 10 ∉ line →
      { c with input := rest }.request v response (v.parse line) = some c' →
      Handles v c (.frame response) [line] c'
  | left {response : Response} {c' : Client} :
      c' = { c with main := .idle } ∨ c' = { c.abort with main := .idle } →
      Handles v c (.frame response) [] c'
  | other {a : Action} {c' : Client} : (∀ response, a ≠ .frame response) →
      Handles v c a [] c'

/-- A run, with the lines that its steps handle, in order. -/
inductive Handling (v : Server) :
    Client → List Action → List (List UInt8) → Client → Prop
  | nil {c : Client} : Handling v c [] [] c
  | cons {c d c' : Client} {a : Action} {as : List Action}
      {lines more : List (List UInt8)} : c.step v a = some d →
      Handles v c a lines d → Handling v d as more c' →
      Handling v c (a :: as) (lines ++ more) c'

/-- No step but those of the loop of `read` ends the connection. -/
def Kept (v : Server) (c : Client) (a : Action) : Prop :=
  (∀ response, a ≠ .frame response) →
    ∀ c', c.step v a = some c' → c'.connected = c.connected

theorem Handled.reads {response : Response} {parsed : Option JsonObject}
    (h : Handled v response parsed c c') :
    c'.input = c.input ∧ c'.connected = c.connected ∧ c'.main.reads := by
  cases h with
  | refuse => exact ⟨rfl, rfl, trivial⟩
  | answer => exact ⟨rfl, rfl, trivial⟩
  | call => exact ⟨rfl, rfl, trivial⟩
  | stream => exact ⟨rfl, rfl, trivial⟩
  | invalid => exact ⟨rfl, rfl, trivial⟩

/-- A step handles the same lines however it is looked at. So what a run has
handled is a function of its steps, and can be compared with the input. -/
theorem Handles.unique {a : Action} {lines lines' : List (List UInt8)}
    (h : Handles v c a lines c') (h' : Handles v c a lines' c') :
    lines = lines' := by
  have hexclusive : ∀ {response line rest}, c.input = line ++ 10 :: rest →
      { c with input := rest }.request v response (v.parse line) = some c' →
      ¬ (c' = { c with main := .idle }
        ∨ c' = { c.abort with main := .idle }) := by
    intro response line rest _ hrequest hleft
    have hreads := (request_cases hrequest).reads.2.2
    rcases hleft with rfl | rfl
    · exact hreads
    · exact hreads
  cases h with
  | line hinput hwhole hrequest =>
      cases h' with
      | line hinput' hwhole' _ =>
          have htake := takeLine_some.2 ⟨hwhole, hinput⟩
          rw [takeLine_some.2 ⟨hwhole', hinput'⟩] at htake
          injection htake with htake
          injection htake with hline
          rw [hline]
      | left hleft => exact absurd hleft (hexclusive hinput hrequest)
      | other hno => exact absurd rfl (hno _)
  | left hleft =>
      cases h' with
      | line hinput _ hrequest =>
          exact absurd hleft (hexclusive hinput hrequest)
      | left => rfl
      | other => rfl
  | other hno =>
      cases h' with
      | line => exact absurd rfl (hno _)
      | left => rfl
      | other => rfl

theorem Handling.unique {as : List Action} {lines lines' : List (List UInt8)}
    (h : Handling v c as lines c') (h' : Handling v c as lines' c') :
    lines = lines' := by
  induction h generalizing lines' with
  | nil =>
      cases h'
      rfl
  | cons hstep hlines _ ih =>
      cases h' with
      | cons hstep' hlines' hmore' =>
          rw [hstep] at hstep'
          injection hstep' with hsame
          subst hsame
          rw [hlines.unique hlines', ih hmore']

-- ============================================================== what was read

/-- Some lines, within the limit, were handled of a stream, and the input is
what is left of it. Between two reads it is a line that is not complete, and
within the limit, or the connection was aborted for its first segment. -/
structure Framed (v : Server) (stream : List UInt8) (lines : List (List UInt8))
    (c : Client) : Prop where
  stream : stream = lines.flatMap (fun line => line ++ [10]) ++ c.input
  whole : ∀ line ∈ lines, 10 ∉ line
  within : ∀ line ∈ lines, (line.length : Int) ≤ v.maxFrameBytes
  open_ : c.connected = true → ¬ c.main.reads →
    10 ∉ c.input ∧ (c.input.length : Int) ≤ v.maxFrameBytes
  aborted : c.connected = false → ¬ c.main.reads
    ∧ v.maxFrameBytes < ((c.input.takeWhile (· != 10)).length : Int)

/-- What is too long is the first segment of the input. -/
theorem first_long (h : c.TooLong v) :
    v.maxFrameBytes < ((c.input.takeWhile (· != 10)).length : Int) := by
  rcases h with ⟨hline, hlong⟩ | ⟨line, rest, hline, hlong⟩
  · rw [takeWhile_tail (takeLine_none.1 hline)]
    exact hlong
  · obtain ⟨hwhole, hinput⟩ := takeLine_some.1 hline
    rw [hinput, takeWhile_line hwhole]
    exact hlong

/-- A connection that reads has not been aborted. -/
theorem Framed.connected {stream : List UInt8} {lines : List (List UInt8)}
    (h : Framed v stream lines c) (hmain : c.main.reads) :
    c.connected = true := by
  by_contra hclosed
  rw [Bool.not_eq_true] at hclosed
  exact (h.aborted hclosed).1 hmain

/-- One line is taken from the input, and is handled. -/
theorem Framed.line {stream : List UInt8} {lines : List (List UInt8)}
    {response : Response} {line rest : List UInt8}
    (h : Framed v stream lines c)
    (hconnected : c.connected = true) (hwhole : 10 ∉ line)
    (hinput : c.input = line ++ 10 :: rest)
    (hsize : (line.length : Int) ≤ v.maxFrameBytes)
    (hrequest : { c with input := rest }.request v response (v.parse line)
      = some c') :
    Framed v stream (lines ++ [line]) c' := by
  obtain ⟨hrest, hkept, hreads⟩ := (request_cases hrequest).reads
  have hrest : c'.input = rest := hrest
  have hall : ∀ {P : List UInt8 → Prop}, (∀ l ∈ lines, P l) → P line →
      ∀ l ∈ lines ++ [line], P l := by
    intro P hlines hline l hl
    rcases List.mem_append.1 hl with hl | hl
    · exact hlines l hl
    · rw [List.mem_singleton.1 hl]
      exact hline
  refine ⟨?_, hall h.whole hwhole, hall h.within hsize, fun _ hno =>
    absurd hreads hno,
    fun hclosed => ?_⟩
  · rw [h.stream, hinput, hrest, List.flatMap_append]
    simp
  · exact absurd ((hconnected.symm.trans hkept.symm).trans hclosed) (by decide)

/-- Every step handles some lines, where only the loop of `read` ends the
connection. -/
theorem framed_step {stream : List UInt8} {lines : List (List UInt8)}
    {a : Action} (h : Framed v stream lines c) (hkept : Kept v c a)
    (hstep : c.step v a = some c') :
    ∃ taken, Handles v c a taken c'
      ∧ Framed v (stream ++ received [a]) (lines ++ taken) c' := by
  have hcases := step_cases hstep
  by_cases hframe : ∃ response, a = .frame response
  · obtain ⟨response, rfl⟩ := hframe
    have hnothing : received [.frame response] = [] := rfl
    rw [hnothing, List.append_nil]
    cases hcases with
    | stop _ hmain hnone hsize =>
        have hconnected := h.connected (hmain ▸ trivial)
        refine ⟨[], .left (.inl rfl), ?_⟩
        rw [List.append_nil]
        refine ⟨h.stream, h.whole, h.within, fun _ _ =>
          ⟨takeLine_none.1 hnone, hsize⟩, ?_⟩
        intro hclosed
        exact absurd (hconnected.symm.trans hclosed) (by decide)
    | long _ hmain hlong =>
        refine ⟨[], .left (.inr rfl), ?_⟩
        rw [List.append_nil]
        refine ⟨?_, h.whole, h.within, fun hc => ?_, fun _ => ⟨not_false, ?_⟩⟩
        · rw [h.stream]
          exact congrArg _ abort_input.symm
        · exact absurd (hc.symm.trans abort_connected) (by decide)
        · show v.maxFrameBytes
            < ((c.abort.input.takeWhile (· != 10)).length : Int)
          rw [abort_input]
          exact first_long hlong
    | line _ line rest _ hmain hline hsize hrequest =>
        obtain ⟨hwhole, hinput⟩ := takeLine_some.1 hline
        exact ⟨[line], .line hinput hwhole hrequest,
          h.line (h.connected (hmain ▸ trivial)) hwhole hinput hsize hrequest⟩
  have hno : ∀ response, a ≠ .frame response := fun response heq =>
    hframe ⟨response, heq⟩
  refine ⟨[], .other hno, ?_⟩
  rw [List.append_nil]
  by_cases hreceive : ∃ bytes, a = .receive bytes
  · obtain ⟨bytes, rfl⟩ := hreceive
    have harrived : received [.receive bytes] = bytes := List.append_nil _
    rw [harrived]
    cases hcases with
    | receive _ _ hconnected =>
        refine ⟨?_, h.whole, h.within, fun _ hno => absurd trivial hno,
          fun hclosed => ?_⟩
        · rw [h.stream, List.append_assoc]
        · exact absurd (hconnected.symm.trans hclosed) (by decide)
  · have hreceive : ∀ bytes, a ≠ .receive bytes := fun bytes heq =>
      hreceive ⟨bytes, heq⟩
    have houtside := hcases.outside hreceive hno
    have hconnected := hkept hno c' hstep
    have hnothing : received [a] = [] := by
      cases a with
      | receive bytes => exact absurd rfl (hreceive bytes)
      | _ => rfl
    rw [hnothing, List.append_nil]
    refine ⟨?_, h.whole, h.within, ?_, ?_⟩
    · rw [houtside.input]
      exact h.stream
    · rw [houtside.input, houtside.reads, hconnected]
      exact h.open_
    · rw [houtside.input, houtside.reads, hconnected]
      exact h.aborted

-- ------------------------------------------------------------------- runs

theorem received_cons (a : Action) (as : List Action) :
    received (a :: as) = received [a] ++ received as := by
  cases a with
  | receive bytes =>
      show bytes ++ received as = bytes ++ [] ++ received as
      rw [List.append_nil]
  | _ => rfl

theorem framed_run :
    ∀ (as : List Action) {c c' : Client} {stream : List UInt8}
      {lines : List (List UInt8)}, Framed v stream lines c →
    System.Along (Client.step v) (Kept v) c as →
    System.run (Client.step v) c as = some c' →
    ∃ taken, Handling v c as taken c'
      ∧ Framed v (stream ++ received as) (lines ++ taken) c' := by
  intro as
  induction as with
  | nil =>
      intro c c' stream lines h _ hrun
      injection hrun with hrun
      subst hrun
      refine ⟨[], .nil, ?_⟩
      show Framed v (stream ++ []) (lines ++ []) c
      rw [List.append_nil, List.append_nil]
      exact h
  | cons a as ih =>
      intro c c' stream lines h hkept hrun
      obtain ⟨d, hstep, hrest⟩ := System.run_cons_eq_some.1 hrun
      obtain ⟨taken, hhandles, hnext⟩ := framed_step h hkept.1 hstep
      obtain ⟨more, hhandling, hend⟩ := ih hnext (hkept.2 d hstep) hrest
      refine ⟨taken ++ more, .cons hstep hhandles hhandling, ?_⟩
      rw [List.append_assoc, ← received_cons, List.append_assoc] at hend
      exact hend

/-- A new connection has read nothing. -/
theorem framed_new : Framed v [] [] {} where
  stream := rfl
  whole := fun _ h => nomatch h
  within := fun _ h => nomatch h
  open_ := fun _ _ => ⟨List.not_mem_nil, by
    have := v.limits.2.1
    simp only [List.length_nil]
    omega⟩
  aborted := fun h => absurd h (by decide)

/-- What was handled of a stream, by its segments: the lines up to the first
that is too long, and all of them when none is. -/
theorem Framed.handled {stream : List UInt8} {arrived : List UInt8}
    {lines : List (List UInt8)} (h : Framed v arrived lines c)
    (hbetween : ¬ c.main.reads) (harrived : arrived <+: stream)
    (hall : c.connected = true → arrived = stream) :
    lines = (segments stream).dropLast.takeWhile
        (fun line => (line.length : Int) ≤ v.maxFrameBytes)
      ∧ (c.connected = false
        ↔ ∃ segment ∈ segments stream,
          v.maxFrameBytes < (segment.length : Int))
      ∧ (c.connected = true → (segments stream).getLast? = some c.input
        ∧ (c.input.length : Int) ≤ v.maxFrameBytes) := by
  cases hc : c.connected with
  | true =>
      obtain ⟨hopen, hsize⟩ := h.open_ hc hbetween
      have hsegments : segments stream = lines ++ [c.input] := by
        rw [← hall hc, h.stream, segments_lines h.whole, segments_tail hopen]
      rw [hsegments]
      refine ⟨?_, ⟨fun hclosed => absurd hclosed (by decide), ?_⟩,
        fun _ => ⟨?_, hsize⟩⟩
      · rw [List.dropLast_concat]
        exact (List.takeWhile_eq_self_iff.2 fun line hline =>
          decide_eq_true (h.within line hline)).symm
      · intro hlong
        obtain ⟨segment, hmem, hlong⟩ := hlong
        rcases List.mem_append.1 hmem with hmem | hmem
        · exact absurd (h.within segment hmem) (not_le.2 hlong)
        · rw [List.mem_singleton.1 hmem] at hlong
          exact absurd hsize (not_le.2 hlong)
      · rw [List.getLast?_append]
        rfl
  | false =>
      obtain ⟨-, hlong⟩ := h.aborted hc
      obtain ⟨more, rfl⟩ := harrived
      obtain ⟨rest, hfirst⟩ := segments_first (c.input ++ more)
      have hlonger : v.maxFrameBytes
          < (((c.input ++ more).takeWhile (· != 10)).length : Int) := by
        have hle := first_le c.input more
        omega
      have hsegments : segments (arrived ++ more) = lines
          ++ (c.input ++ more).takeWhile (· != 10) :: rest := by
        rw [h.stream, List.append_assoc, segments_lines h.whole, hfirst]
      rw [hsegments]
      refine ⟨?_, ⟨fun _ => ?_, fun _ => rfl⟩, fun hopen =>
        absurd hopen (by decide)⟩
      · rw [List.dropLast_append_of_ne_nil (List.cons_ne_nil _ _),
          List.takeWhile_append_of_pos fun line hline =>
            decide_eq_true (h.within line hline)]
        have hnone :
          ((c.input ++ more).takeWhile (· != 10) :: rest).dropLast.takeWhile
            (fun line => decide ((line.length : Int) ≤ v.maxFrameBytes))
              = [] := by
          cases rest with
          | nil => rfl
          | cons next rest =>
              rw [List.dropLast_cons_cons, List.takeWhile_cons_of_neg]
              simpa using hlonger
        rw [hnone, List.append_nil]
      · exact ⟨_, List.mem_append_right _ (List.mem_cons_self ..), hlonger⟩

/-- Between two reads, and however a stream has arrived: the lines that the
steps have parsed and served are those of the stream up to the first that is
too long; the connection was aborted just when there is a segment that is too
long, a line or the tail; and otherwise the tail is its input. Of a connection
that was aborted the rest of the stream is not read. -/
theorem framing (v : Server) {c : Client} {as : List Action}
    {stream : List UInt8} (hkept : System.Along (Client.step v) (Kept v) {} as)
    (hrun : System.run (Client.step v) {} as = some c)
    (hbetween : ¬ c.main.reads) (harrived : received as <+: stream)
    (hall : c.connected = true → received as = stream) :
    (∀ lines, Handling v {} as lines c
        ↔ lines = (segments stream).dropLast.takeWhile
        (fun line => (line.length : Int) ≤ v.maxFrameBytes))
      ∧ (c.connected = false
        ↔ ∃ segment ∈ segments stream,
          v.maxFrameBytes < (segment.length : Int))
      ∧ (c.connected = true → (segments stream).getLast? = some c.input
        ∧ (c.input.length : Int) ≤ v.maxFrameBytes) := by
  obtain ⟨taken, hhandling, h⟩ := framed_run as framed_new hkept hrun
  rw [List.nil_append, List.nil_append] at h
  obtain ⟨htaken, haborted, hinput⟩ := h.handled hbetween harrived hall
  refine ⟨fun lines => ⟨fun hlines => ?_, fun hlines => ?_⟩, haborted, hinput⟩
  · exact (hlines.unique hhandling).trans htaken
  · rw [hlines, ← htaken]
    exact hhandling

theorem kept_of_eq {a : Action}
    (h : (c.step v a).map Client.connected = some c.connected) :
    Kept v c a := by
  intro _ c' hstep
  rw [hstep] at h
  injection h

namespace Sample

/-- One line that is no frame, in two pieces. -/
def pieces : List Action :=
  [.receive (bytes "x"), .frame quietly, .receive (bytes "\n"), .frame quietly,
    .answer, .frame quietly]

end Sample

/-- The line is handled once it is whole. -/
theorem framing_pieces :
    ∃ c, System.run (Client.step Sample.server) {} Sample.pieces = some c
      ∧ Handling Sample.server {} Sample.pieces [Sample.bytes "x"] c
      ∧ c.connected = true := by
  obtain ⟨c, hrun, hidle⟩ : ∃ c,
      System.run (Client.step Sample.server) {} Sample.pieces = some c
        ∧ c.main = .idle := ⟨_, rfl, rfl⟩
  have hkept : System.Along (Client.step Sample.server) (Kept Sample.server) {}
      Sample.pieces :=
    .next (kept_of_eq rfl) rfl
      (.next (kept_of_eq rfl) rfl (.next (kept_of_eq rfl) rfl
      (.next (kept_of_eq rfl) rfl (.next (kept_of_eq rfl) rfl
        (.next (kept_of_eq rfl) rfl trivial)))))
  have hbetween : ¬ c.main.reads := by
    rw [hidle]
    exact not_false
  have hsegments : segments (received Sample.pieces)
      = [Sample.bytes "x", []] :=
    (segments_line (show 10 ∉ Sample.bytes "x" by decide) []).trans
      (congrArg _ (segments_tail List.not_mem_nil))
  obtain ⟨hhandled, haborted, -⟩ := framing Sample.server hkept hrun hbetween
    (List.prefix_refl _) (fun _ => rfl)
  refine ⟨c, hrun, ?_, ?_⟩
  · rw [hhandled, hsegments]
    decide
  · rw [hsegments] at haborted
    by_contra hclosed
    obtain ⟨segment, hmem, hlong⟩ := haborted.1 (by simpa using hclosed)
    rcases List.mem_cons.1 hmem with rfl | hmem
    · exact absurd hlong (by decide)
    · rw [List.mem_singleton.1 hmem] at hlong
      exact absurd hlong (by decide)

end LocalLLM.Ipc
