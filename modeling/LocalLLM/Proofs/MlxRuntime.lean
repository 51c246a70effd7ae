/-
Requests and replies of the MLX worker stay aligned.

# Why no number is needed

Between calls nothing is on its way: either the process is gone, or it has
written everything it owes and all of it has been read (`Idle`). So the
first byte that arrives after a request was written belongs to its answer.
During the call what has arrived and what is still to come begin the lines
of that answer that have not been read (`Reading`). A line that is a result
is the last of them, so a call that ends by reading it leaves nothing
behind; every other end kills the process and drops what had arrived.
-/
import LocalLLM.Runtimes.MlxRuntime
import LocalLLM.Proofs.MlxWorker

namespace LocalLLM.MlxWorker

open Exec

variable {M : Mlx}

-- ================================================================= vocabulary

/-- A line as it is written for a request. -/
def tagged (request : Nat) (line : WireLine) : Output :=
  line.map fun byte => { byte, request }

/-- The line of an event is one that the worker wrote for its request. -/
def Own (answers : List (List WireLine)) (event : MlxEvent) : Prop :=
  ∃ lines line, answers[event.request]? = some lines ∧ line ∈ lines
    ∧ event.line = tagged event.request line

/-- A line is a delta that carries a text. -/
def Says (M : Mlx) (line : WireLine) (text : QString) : Prop :=
  ∃ event, M.fromJson line = some event
    ∧ Json.toText (Json.lookup event (qs "type")) = qs "delta"
    ∧ Json.lookup event (qs "text") = some (.string text)

/-- What a call has handed on: the texts of the first lines of its own
answer, each of them a delta, in their order. -/
def Told (M : Mlx) (request : Nat) (w : MlxWorker) : Prop :=
  ∃ read rest, (w.answers[request]?).getD [] = read ++ rest
    ∧ List.Forall₂ (Says M) read w.handed

/-- The first request a process was sent is a load. -/
def LoadFirst : List Worker.Request → Prop
  | [] => True
  | .load _ _ _ :: _ => True
  | _ :: _ => False

/-- What is true of the past at any time. -/
structure History (w : MlxWorker) : Prop where
  own : ∀ event ∈ w.log, Own w.answers event
  counted : w.answers.length = w.requests
  loadFirst : ∀ process ∈ w.processes, LoadFirst process

/-- The process is gone, and nothing it wrote is left. -/
def Killed (w : MlxWorker) : Prop :=
  w.running = false ∧ w.input = []

/-- The current process was sent something. -/
def Loaded (w : MlxWorker) : Prop :=
  ∃ process before, w.processes = process :: before ∧ process ≠ []

/-- Between calls: nothing is on its way, and a process that runs has been
sent its load. -/
structure Idle (w : MlxWorker) : Prop extends History w where
  input : w.input = []
  output : w.running = true → w.output = []
  loaded : w.running = true → Loaded w

/-- An answer recorded once stays recorded, so an event of an old request keeps
its line when later requests are answered. -/
theorem Own.mono {answers : List (List WireLine)} {event : MlxEvent}
    (h : Own answers event) (more : List (List WireLine)) :
    Own (answers ++ more) event := by
  obtain ⟨lines, line, hanswer, hmem, hline⟩ := h
  refine ⟨lines, line, ?_, hmem, hline⟩
  rw [List.getElem?_append_left
    (List.getElem?_eq_some_iff.1 hanswer).1, hanswer]

/-- During a call: the lines that have been read were handed on, and what has
arrived and what is to come begins those that have not. -/
structure Reading (M : Mlx) (request : Nat) (w : MlxWorker) : Prop
    extends History w where
  loaded : Loaded w
  stream : ∃ read rest, w.answers[request]? = some (read ++ rest)
    ∧ (∀ line ∈ rest, (10 : UInt8) ∉ line)
    ∧ (∀ line ∈ rest.dropLast,
      M.typeOf line ≠ qs "result" ∧ M.typeOf line ≠ qs "error")
    ∧ w.input ++ w.output <+: render request rest
    ∧ List.Forall₂ (Says M) read w.handed

-- ====================================================================== lines

/-- One answer line is its own bytes and a line feed behind them, each byte
marked with the request it belongs to. -/
theorem render_cons (request : Nat) (line : WireLine) (lines : List WireLine) :
    render request (line :: lines)
      = tagged request line ++ ⟨10, request⟩ :: render request lines := by
  show (line ++ [10]).map _ ++ render request lines = _
  rw [List.map_append, List.append_assoc]
  rfl

/-- A line that can be cut ends before the first newline. -/
theorem cutLine_eq_some {input line rest : Output}
    (h : cutLine input = some (line, rest)) :
    ∃ request, input = line ++ ⟨10, request⟩ :: rest
      ∧ ∀ b ∈ line, b.byte ≠ 10 := by
  induction input generalizing line with
  | nil => cases h
  | cons b input ih =>
      unfold cutLine at h
      split at h
      next hnewline =>
        cases h
        refine ⟨b.request, ?_, fun b hb => nomatch hb⟩
        rw [← hnewline]
        rfl
      next hbyte =>
        obtain ⟨⟨line', rest'⟩, hcut, heq⟩ := Option.map_eq_some_iff.1 h
        cases heq
        obtain ⟨request, hinput, hline⟩ := ih hcut
        refine ⟨request, by rw [hinput]; rfl, fun b' hb' => ?_⟩
        cases hb' with
        | head => exact hbyte
        | tail _ hb' => exact hline b' hb'

/-- The first line of a rendered answer is its first line. -/
theorem first_line {request tag : Nat} {line rest : Output}
    {lines : List WireLine} (hnewline : ∀ b ∈ line, b.byte ≠ 10)
    (hlines : ∀ line ∈ lines, (10 : UInt8) ∉ line)
    (h : line ++ ⟨10, tag⟩ :: rest <+: render request lines) :
    ∃ first others, lines = first :: others ∧ line = tagged request first
      ∧ rest <+: render request others := by
  cases lines with
  | nil =>
      have hnil := List.prefix_nil.1 h
      exact absurd hnil (List.append_ne_nil_of_right_ne_nil _
        (List.cons_ne_nil _ _))
  | cons first others =>
      rw [render_cons] at h
      refine ⟨first, others, rfl, ?_⟩
      have hfirst := hlines first List.mem_cons_self
      clear hlines
      -- Both lines run up to the first newline of the same text.
      unfold tagged at h ⊢
      induction first generalizing line with
      | nil =>
          cases line with
          | nil => exact ⟨rfl, (List.cons_prefix_cons.1 h).2⟩
          | cons b line =>
              have hb := (List.cons_prefix_cons.1 h).1
              exact absurd (congrArg OutputByte.byte hb)
                (hnewline b List.mem_cons_self)
      | cons byte first ih =>
          rw [List.mem_cons, not_or] at hfirst
          cases line with
          | nil =>
              have hb := (List.cons_prefix_cons.1 h).1
              exact absurd (congrArg OutputByte.byte hb) hfirst.1
          | cons b line =>
              obtain ⟨hb, h⟩ := List.cons_prefix_cons.1 h
              obtain ⟨hline, hrest⟩ := ih
                (fun b hb => hnewline b (List.mem_cons_of_mem _ hb)) h hfirst.2
              exact ⟨by rw [hb, hline]; rfl, hrest⟩

-- ==================================================================== reading

/-- How a call ends that returns an object. It has read its whole answer, whose
last line is the result that it returns; or it was told to stop behind a
delta, has killed the process, and returns what it makes of that delta. In
both cases it has handed on the texts of the deltas and no others. -/
inductive Ends (M : Mlx) (request : Nat) (onText : Option Consumer)
    (w : MlxWorker) : JsonObject → Prop
  | result {deltas : List WireLine} {line : WireLine} {event : JsonObject}
      (answer : w.answers[request]? = some (deltas ++ [line]))
      (final : M.typeOf line = qs "result")
      (json : M.fromJson line = some event)
      (told : List.Forall₂ (Says M) deltas w.handed)
      (logged : w.log.getLast? = some (.result request (tagged request line)))
      (input : w.input = []) (output : w.output = []) :
      Ends M request onText w event
  | declined {deltas rest : List WireLine} {line : WireLine}
      {event : JsonObject} {consumer : Consumer}
      (answer : w.answers[request]? = some (deltas ++ line :: rest))
      (json : M.fromJson line = some event)
      (told : List.Forall₂ (Says M) (deltas ++ [line]) w.handed)
      (asked : onText = some consumer)
      (enough : consumer w.handed = .ok false) (killed : Killed w) :
      Ends M request onText w (declined event)

/-- The past, with a current process. -/
def Past (w : MlxWorker) : Prop := History w ∧ Loaded w

/-- Adding an event that came from an answered line keeps the whole log backed
by answers. -/
theorem History.log {w : MlxWorker} (h : History w) {event : MlxEvent}
    (hevent : Own w.answers event) :
    ∀ e ∈ w.log ++ [event], Own w.answers e := by
  intro e he
  cases List.mem_append.1 he with
  | inl he => exact h.own e he
  | inr he =>
      rw [List.mem_singleton.1 he]
      exact hevent

/-- Killing the process changes nothing of the past, and nothing of what was
handed on. -/
theorem stop_wp {w : MlxWorker} {Q : Unit → MlxWorker → Prop}
    {E : Exn → MlxWorker → Prop} (h : Past w)
    (hQ : ∀ w', Past w' → Killed w' → w'.answers = w.answers →
      w'.handed = w.handed → Q () w') : wp stop Q E w := by
  unfold stop
  rw [wp_modify]
  exact hQ _ ⟨⟨h.1.own, h.1.counted, h.1.loadFirst⟩, h.2⟩ ⟨rfl, rfl⟩ rfl rfl

/-- What has been read of an answer, and what not. -/
structure Unread (M : Mlx) (request : Nat) (first : WireLine)
    (others : List WireLine) (w : MlxWorker) : Prop where
  past : Past w
  answer : ∃ read, w.answers[request]? = some (read ++ first :: others)
    ∧ List.Forall₂ (Says M) read w.handed
  no_newline : ∀ line ∈ others, (10 : UInt8) ∉ line
  only_last : ∀ line ∈ (first :: others).dropLast,
    M.typeOf line ≠ qs "result" ∧ M.typeOf line ≠ qs "error"
  stream : w.input ++ w.output <+: render request others

/-- The line at the head of what is still unread is a line the worker wrote for
this request. -/
theorem Unread.own {request : Nat} {first : WireLine} {others : List WireLine}
    {w : MlxWorker} (h : Unread M request first others w) {event : MlxEvent}
    (hrequest : event.request = request)
    (hline : event.line = tagged request first) : Own w.answers event := by
  obtain ⟨read, hanswer, -⟩ := h.answer
  refine ⟨_, first, hrequest ▸ hanswer, ?_, hrequest ▸ hline⟩
  exact List.mem_append_right _ List.mem_cons_self

/-- Having lines of this request unread means that the request
was the last one sent. -/
theorem Unread.told {request : Nat} {first : WireLine} {others : List WireLine}
    {w : MlxWorker} (h : Unread M request first others w) :
    Told M request w := by
  obtain ⟨read, hanswer, htold⟩ := h.answer
  refine ⟨read, first :: others, ?_, htold⟩
  rw [hanswer]
  rfl

/-- The lines up to this one have been read and handed on. -/
def Passed (M : Mlx) (request : Nat) (first : WireLine)
    (others : List WireLine) (w : MlxWorker) : Prop :=
  ∃ read, w.answers[request]? = some (read ++ first :: others)
    ∧ List.Forall₂ (Says M) (read ++ [first]) w.handed

/-- The same when the lines have all been read: nothing was sent since. -/
theorem Passed.told {request : Nat} {first : WireLine} {others : List WireLine}
    {w : MlxWorker} (h : Passed M request first others w) :
    Told M request w := by
  obtain ⟨read, hanswer, htold⟩ := h
  refine ⟨read ++ [first], others, ?_, htold⟩
  rw [hanswer, List.append_assoc]
  rfl

/-- The first line has been handed on: the others are still to be read. -/
theorem Unread.reading {request : Nat} {first : WireLine}
    {others : List WireLine} {w w' : MlxWorker}
    (h : Unread M request first others w)
    (hpassed : Passed M request first others w') (hpast : Past w')
    (hinput : w'.input = w.input) (houtput : w'.output = w.output) :
    Reading M request w' where
  toHistory := hpast.1
  loaded := hpast.2
  stream := by
    obtain ⟨read, hanswer, htold⟩ := hpassed
    refine ⟨read ++ [first], others, ?_, h.no_newline, ?_, ?_, htold⟩
    · rw [hanswer, List.append_assoc]
      rfl
    · intro line hline
      apply h.only_last
      cases others with
      | nil => cases hline
      | cons second others => exact List.mem_cons_of_mem _ hline
    · rw [hinput, houtput]
      exact h.stream

/-- A line that is a result is the last one. -/
theorem Unread.last {request : Nat} {first : WireLine} {others : List WireLine}
    {w : MlxWorker} (h : Unread M request first others w)
    (hresult : M.typeOf first = qs "result") :
    others = [] ∧ w.input = [] ∧ w.output = [] := by
  cases others with
  | nil => exact ⟨rfl, List.append_eq_nil_iff.1 (List.prefix_nil.1 h.stream)⟩
  | cons second others =>
      have hmem : first ∈ (first :: second :: others).dropLast :=
        List.mem_cons_self
      exact absurd hresult (h.only_last first hmem).1

/-- The consumer is handed the text of a line of the answer, and what it
answers is said of all it was handed in the call. -/
theorem hand_wp {request : Nat} {first : WireLine} {others : List WireLine}
    {w : MlxWorker} (h : Unread M request first others w) (consumer : Consumer)
    {text : QString} (htells : Says M first text) :
    wp (hand consumer request (tagged request first) text)
      (fun keepGoing w' => Past w' ∧ Reading M request w'
        ∧ Passed M request first others w'
        ∧ consumer w'.handed = .ok keepGoing)
      (fun _ w' => Past w' ∧ Told M request w') w := by
  unfold hand
  have hpast : Past { w with
      handed := w.handed ++ [text]
      log := w.log ++ [.delta request (tagged request first)] } :=
    ⟨⟨h.past.1.log (h.own rfl rfl), h.past.1.counted, h.past.1.loadFirst⟩,
      h.past.2⟩
  have hpassed : Passed M request first others { w with
      handed := w.handed ++ [text]
      log := w.log ++ [.delta request (tagged request first)] } := by
    obtain ⟨read, hanswer, htold⟩ := h.answer
    exact ⟨read, hanswer,
      List.rel_append htold (List.Forall₂.cons htells List.Forall₂.nil)⟩
  rw [wp_bind, wp_get, wp_bind, wp_set, wp_ofExcept]
  exact ⟨fun _ hanswer => ⟨hpast, h.reading hpassed hpast rfl rfl, hpassed,
    hanswer⟩, fun _ _ => ⟨hpast, hpassed.told⟩⟩

/-- A line ends the call or leaves the others to be read. An event of
another request cannot be among them, since the buffer was empty when the
request was written. -/
theorem handle_wp {request : Nat} {first : WireLine} {others : List WireLine}
    {w : MlxWorker} (h : Unread M request first others w)
    (onText : Option Consumer) :
    wp (handle M request onText (tagged request first))
      (fun ended w' => Past w' ∧ (ended = none → Reading M request w')
        ∧ ∀ object, ended = some object → Ends M request onText w' object)
      (fun _ w' => Past w' ∧ Told M request w') w := by
  have hbytes : (tagged request first).map OutputByte.byte = first := by
    unfold tagged
    rw [List.map_map]
    exact List.map_id _
  have hkept : Past w ∧ Told M request w := ⟨h.past, h.told⟩
  unfold handle
  rw [hbytes]
  cases hjson : M.fromJson first with
  | none => exact hkept
  | some event =>
      dsimp only
      rw [wp_ite]
      refine ⟨fun _ => hkept, fun _ => ?_⟩
      rw [wp_ite]
      constructor
      · intro hresult
        rw [wp_bind, wp_modify, wp_pure]
        have htype : M.typeOf first = qs "result" := by
          unfold Mlx.typeOf
          rw [hjson]
          exact hresult
        obtain ⟨hothers, hinput, houtput⟩ := h.last htype
        obtain ⟨read, hanswer, htold⟩ := h.answer
        rw [hothers] at hanswer
        refine ⟨⟨⟨h.past.1.log (h.own rfl rfl), h.past.1.counted,
          h.past.1.loadFirst⟩, h.past.2⟩,
          fun hnone => absurd hnone (Option.some_ne_none _), ?_⟩
        intro object hobject
        cases hobject
        exact .result hanswer htype hjson htold List.getLast?_concat hinput
          houtput
      · intro _
        cases onText with
        | none => exact hkept
        | some consumer =>
            cases htext : Json.lookup event (qs "text") with
            | none => exact hkept
            | some value =>
                cases value with
                | string text =>
                    dsimp only
                    rw [wp_ite]
                    refine ⟨fun _ => hkept, fun hdelta => ?_⟩
                    have htells : Says M first text :=
                      ⟨event, hjson, not_not.1 hdelta, htext⟩
                    rw [wp_bind]
                    apply wp_mono (hand_wp h consumer htells) _
                      (fun _ _ h => h)
                    intro keepGoing w' ⟨hpast, hreading, hpassed, hconsumer⟩
                    rw [wp_ite]
                    constructor
                    · intro _
                      exact ⟨hpast, fun _ => hreading,
                        fun _ hne => nomatch hne⟩
                    · intro hstops
                      rw [wp_bind]
                      apply stop_wp hpast
                      intro w'' hpast' hkilled hanswers hhanded
                      refine ⟨hpast',
                        fun hnone => absurd hnone (Option.some_ne_none _), ?_⟩
                      intro object hobject
                      cases hobject
                      obtain ⟨read, hanswer, htold⟩ := hpassed
                      rw [← hanswers] at hanswer
                      rw [← hhanded] at htold hconsumer
                      rw [Bool.not_eq_true] at hstops
                      rw [hstops] at hconsumer
                      exact .declined hanswer hjson htold rfl hconsumer hkilled
                | _ => exact hkept

/-- In either state of reading, the bytes of earlier requests are gone from the
buffer and from the pipe. -/
theorem Reading.past {request : Nat} {w : MlxWorker}
    (h : Reading M request w) : Past w :=
  ⟨h.toHistory, h.loaded⟩

/-- In either state of reading, the request that is being answered is the one
that was sent last. -/
theorem Reading.told {request : Nat} {w : MlxWorker}
    (h : Reading M request w) : Told M request w := by
  obtain ⟨read, rest, hanswer, -, -, -, htold⟩ := h.stream
  refine ⟨read, rest, ?_, htold⟩
  rw [hanswer]
  rfl

/-- The first line that has arrived is the first unread one. -/
theorem Reading.cut {request : Nat} {w : MlxWorker} {line rest : Output}
    (h : Reading M request w) (hcut : cutLine w.input = some (line, rest)) :
    ∃ first others, line = tagged request first
      ∧ Unread M request first others { w with input := rest } := by
  obtain ⟨tag, hinput, hnewline⟩ := cutLine_eq_some hcut
  obtain ⟨read, lines, hanswer, hlines, hlast, hstream, htold⟩ := h.stream
  rw [hinput, List.append_assoc] at hstream
  obtain ⟨first, others, heq, hline, hrest⟩ :=
    first_line hnewline hlines hstream
  subst heq
  refine ⟨first, others, hline, ⟨⟨h.own, h.counted, h.loadFirst⟩, h.loaded⟩,
    ⟨read, hanswer, htold⟩, fun line hline => ?_, hlast, hrest⟩
  exact hlines line (List.mem_cons_of_mem _ hline)

/-- The loop over the lines that have arrived: what one line does, until one
of them ends the call. -/
theorem readLines_wp {request : Nat} (onText : Option Consumer) (left : Nat) :
    ∀ w : MlxWorker, Reading M request w →
      wp (readLines M request onText left)
        (fun ended w' => Past w' ∧ (ended = none → Reading M request w')
          ∧ ∀ object, ended = some object → Ends M request onText w' object)
        (fun _ w' => Past w' ∧ Told M request w') w := by
  induction left with
  | zero =>
      intro w h
      exact ⟨h.past, fun _ => h, fun _ hne => nomatch hne⟩
  | succ left ih =>
      intro w h
      unfold readLines
      rw [wp_bind, wp_get]
      cases hcut : cutLine w.input with
      | none => exact ⟨h.past, fun _ => h, fun _ hne => nomatch hne⟩
      | some cut =>
          obtain ⟨line, rest⟩ := cut
          obtain ⟨first, others, hline, hunread⟩ := h.cut hcut
          subst hline
          dsimp only
          rw [wp_bind, wp_set, wp_bind]
          apply wp_mono (handle_wp hunread onText) _ (fun _ _ h => h)
          intro ended w' ⟨hpast, hreading, hended⟩
          cases ended with
          | some event =>
              exact ⟨hpast, fun hnone => absurd hnone (Option.some_ne_none _),
                hended⟩
          | none => exact ih w' (hreading rfl)

/-- What arrives was written for the request. -/
theorem Reading.read {request : Nat} {w : MlxWorker} (h : Reading M request w)
    (turn : PipeTurn) :
    wp (read turn) (fun _ => Reading M request) (fun _ _ => False) w := by
  unfold MlxWorker.read
  rw [wp_modify]
  obtain ⟨read, rest, hanswer, hlines, hlast, hstream, htold⟩ := h.stream
  refine ⟨⟨h.own, h.counted, h.loadFirst⟩, h.loaded, read, rest,
    hanswer, hlines,
    hlast, List.IsPrefix.trans ?_ hstream, htold⟩
  dsimp only
  split
  · rw [List.append_nil]
    exact (List.prefix_append_right_inj _).2 (List.take_prefix _ _)
  · rw [List.append_assoc, List.take_append_drop]

/-- The loop of a call ends it, or throws. There is no third way out, so a call
that returns has read its last line. -/
theorem loop_wp {request : Nat} (onText : Option Consumer)
    (diagnostics : QString) (turns : List PipeTurn) :
    ∀ w : MlxWorker, Reading M request w →
      wp (loop M request onText diagnostics turns)
        (fun object w' => Past w' ∧ Ends M request onText w' object)
        (fun _ w' => Past w' ∧ Told M request w') w := by
  induction turns with
  | nil =>
      intro w h
      exact ⟨h.past, h.told⟩
  | cons turn turns ih =>
      intro w h
      unfold loop
      rw [wp_ite]
      refine ⟨fun _ => ⟨h.past, h.told⟩, fun _ => ?_⟩
      rw [wp_bind]
      apply wp_mono (h.read turn) _ (fun _ _ h => h.elim)
      intro _ w₁ h₁
      rw [wp_bind, wp_get, wp_ite]
      refine ⟨fun _ => ⟨h₁.past, h₁.told⟩, fun _ => ?_⟩
      rw [wp_bind]
      apply wp_mono (readLines_wp onText _ w₁ h₁) _ (fun _ _ h => h)
      intro ended w₂ ⟨hpast, hreading, hended⟩
      rw [wp_bind, wp_get]
      cases ended with
      | some event => exact ⟨hpast, hended event rfl⟩
      | none =>
          dsimp only
          rw [wp_ite]
          exact ⟨fun _ => ih w₂ (hreading rfl),
            fun _ => ⟨hpast, (hreading rfl).told⟩⟩

-- ===================================================================== a call

/-- A process that may be sent a request: nothing is on its way, and the
request may come first if it is the first. -/
structure Sendable (request : Worker.Request) (w : MlxWorker) : Prop
    extends History w where
  input : w.input = []
  output : w.running = true → w.output = []
  next : w.running = true → ∃ process before, w.processes = process :: before
    ∧ LoadFirst (process ++ [request])

/-- Once the request is written, its answer is what there is to read, and
nothing else: the pipe was empty before. -/
theorem write_wp {w : MlxWorker} {o : CallOutside M} {request : Worker.Request}
    (h : Sendable request w) (hhanded : w.handed = []) :
    wp (write o request) (fun _ => Reading M w.requests)
      (fun _ w' => History w' ∧ Killed w' ∧ Told M w.requests w') w := by
  unfold write
  rw [wp_bind, wp_get, wp_ite]
  constructor
  · intro hwrites
    rw [Bool.and_eq_true] at hwrites
    obtain ⟨process, before, hprocesses, hload⟩ := h.next hwrites.1
    rw [wp_set]
    refine ⟨⟨fun event he => (h.own event he).mono _, ?_, ?_⟩, ?_, ?_⟩
    · show (w.answers ++ [o.answer.lines]).length = w.requests + 1
      rw [List.length_append, h.counted]
      rfl
    · show ∀ p ∈ sent request w.processes, LoadFirst p
      rw [hprocesses]
      intro p hp
      cases hp with
      | head => exact hload
      | tail _ hp =>
          exact h.loadFirst p (hprocesses ▸ List.mem_cons_of_mem _ hp)
    · show ∃ process before, sent request w.processes = process :: before
        ∧ process ≠ []
      rw [hprocesses]
      exact ⟨_, before, rfl,
        List.append_ne_nil_of_right_ne_nil _ (List.cons_ne_nil _ _)⟩
    · refine ⟨[], o.answer.lines, ?_, o.answer.no_newline, o.answer.only_last,
        ?_, ?_⟩
      · show (w.answers ++ [o.answer.lines])[w.requests]? = some _
        rw [← h.counted, List.getElem?_concat_length]
        rfl
      · show w.input ++ (w.output ++ render w.requests o.answer.lines) <+: _
        rw [h.input, h.output hwrites.1]
        exact List.prefix_refl _
      · show List.Forall₂ (Says M) [] w.handed
        rw [hhanded]
        exact .nil
  · intro _
    rw [wp_bind]
    unfold stop
    rw [wp_modify, wp_throw]
    refine ⟨⟨h.own, h.counted, h.loadFirst⟩, ⟨rfl, rfl⟩, [], [], ?_, ?_⟩
    · show (w.answers[w.requests]?).getD [] = []
      rw [List.getElem?_eq_none (Nat.le_of_eq h.counted)]
      rfl
    · show List.Forall₂ (Says M) [] w.handed
      rw [hhanded]
      exact .nil

/-- A call returns what its own answer says and leaves the process aligned,
or it throws and leaves it killed. -/
theorem call_wp {w : MlxWorker} {o : CallOutside M} {request : Worker.Request}
    (onText : Option Consumer) (h : Sendable request w) :
    wp (call M o request onText)
      (fun object w' => Idle w' ∧ Ends M w.requests onText w' object)
      (fun _ w' => Idle w' ∧ Killed w' ∧ Told M w.requests w') w := by
  have hkilled : ∀ w', History w' → Killed w' → Idle w' := by
    intro w' hhistory hkilled
    refine ⟨hhistory, hkilled.2, fun hrunning => ?_, fun hrunning => ?_⟩
    · rw [hkilled.1] at hrunning
      cases hrunning
    · rw [hkilled.1] at hrunning
      cases hrunning
  unfold call
  rw [wp_bind, wp_get, wp_bind, wp_set, wp_bind]
  have hsend : Sendable request { w with handed := [] } :=
    ⟨⟨h.own, h.counted, h.loadFirst⟩, h.input, h.output, h.next⟩
  apply wp_mono (write_wp hsend rfl)
  · intro _ w₁ hreading
    rw [wp_tryCatch]
    apply wp_mono (loop_wp onText _ _ w₁ hreading)
    · intro object w₂ ⟨hpast, hended⟩
      refine ⟨?_, hended⟩
      cases hended with
      | result _ _ _ _ _ hinput houtput =>
          exact ⟨hpast.1, hinput, fun _ => houtput, fun _ => hpast.2⟩
      | declined _ _ _ _ _ hdead => exact hkilled w₂ hpast.1 hdead
    · intro _ w₂ ⟨hpast, read, rest, hanswer, htold⟩
      rw [wp_bind]
      apply stop_wp hpast
      intro w₃ hpast' hdead hanswers hhanded
      refine ⟨hkilled w₃ hpast'.1 hdead, hdead, read, rest, ?_, ?_⟩
      · rw [hanswers]
        exact hanswer
      · rw [hhanded]
        exact htold
  · intro _ w' ⟨hhistory, hdead, htold⟩
    exact ⟨hkilled w' hhistory hdead, hdead, htold⟩

-- ======================================================= what a call hands on

/-- The events that were added are all of one request. -/
def Adds (request : Nat) (w w' : MlxWorker) : Prop :=
  ∃ events, w'.log = w.log ++ events ∧ ∀ event ∈ events,
    event.request = request

/-- A step that leaves the log alone adds nothing, which every
request allows. -/
theorem Adds.of_same {request : Nat} {w w' : MlxWorker} (h : w'.log = w.log) :
    Adds request w w' :=
  ⟨[], by rw [h, List.append_nil], fun event he => nomatch he⟩

theorem Adds.one {request : Nat} {w w' : MlxWorker} {event : MlxEvent}
    (h : w'.log = w.log ++ [event]) (hrequest : event.request = request) :
    Adds request w w' :=
  ⟨[event], h, fun _ he => List.mem_singleton.1 he ▸ hrequest⟩

/-- Additions for one request compose, so a loop adds what its rounds add. -/
theorem Adds.trans {request : Nat} {w w' w'' : MlxWorker}
    (h : Adds request w w') (h' : Adds request w' w'') :
    Adds request w w'' := by
  obtain ⟨events, hlog, hall⟩ := h
  obtain ⟨events', hlog', hall'⟩ := h'
  refine ⟨events ++ events', by rw [hlog', hlog, List.append_assoc], ?_⟩
  intro event he
  exact (List.mem_append.1 he).elim (hall event) (hall' event)

instance (request : Nat) : IsTrans MlxWorker (Adds request) :=
  ⟨fun _ _ _ h h' => h.trans h'⟩

/-- Whatever it does, it adds events of one request only. -/
abbrev AddsOnly {α : Type} (request : Nat) (m : MlxM α) : Prop :=
  Relates (Adds request) m

/-- Stopping the process drops its buffers and logs nothing. -/
theorem stop_adds (request : Nat) : AddsOnly request stop :=
  fun _ => Adds.of_same rfl

/-- Handing a text to the consumer logs it once, also where the
consumer throws. -/
theorem hand_adds (request : Nat) (consumer : Consumer) (line : Output)
    (text : QString) : AddsOnly request (hand consumer request line text) := by
  intro w
  unfold hand
  rw [wp_bind, wp_get, wp_bind, wp_set, wp_ofExcept]
  exact ⟨fun _ _ => Adds.one rfl rfl, fun _ _ => Adds.one rfl rfl⟩

/-- A line that is read becomes one event, an error, or the end of the call. -/
theorem handle_adds (request : Nat) (onText : Option Consumer)
    (line : Output) : AddsOnly request (handle M request onText line) := by
  intro w
  have hsame : Adds request w w := Adds.of_same rfl
  unfold handle
  cases M.fromJson (line.map OutputByte.byte) with
  | none => exact hsame
  | some event =>
      dsimp only
      rw [wp_ite]
      refine ⟨fun _ => hsame, fun _ => ?_⟩
      rw [wp_ite]
      refine ⟨fun _ => Adds.one rfl rfl, fun _ => ?_⟩
      cases onText with
      | none => exact hsame
      | some consumer =>
          cases Json.lookup event (qs "text") with
          | none => exact hsame
          | some value =>
              cases value with
              | string text =>
                  dsimp only
                  rw [wp_ite]
                  refine ⟨fun _ => hsame, fun _ => ?_⟩
                  apply (hand_adds request consumer line text).bind
                  intro keepGoing w'
                  rw [wp_ite]
                  exact ⟨fun _ => Adds.of_same rfl, fun _ => Adds.of_same rfl⟩
              | _ => exact hsame

/-- Reading the complete lines of the buffer adds the events of those lines and
no others, by induction on the lines left. -/
theorem readLines_adds (request : Nat) (onText : Option Consumer)
    (left : Nat) : AddsOnly request (readLines M request onText left) := by
  induction left with
  | zero =>
      intro w
      exact Adds.of_same rfl
  | succ left ih =>
      intro w
      unfold readLines
      rw [wp_bind, wp_get]
      cases cutLine w.input with
      | none => exact Adds.of_same rfl
      | some cut =>
          dsimp only
          rw [wp_bind, wp_set]
          apply (handle_adds request onText cut.1).bind
          intro ended w'
          cases ended with
          | some event => exact Adds.of_same rfl
          | none => exact ih w'

/-- Waiting for the process adds what each round reads, whatever the pipe
delivers in between. -/
theorem loop_adds (request : Nat) (onText : Option Consumer)
    (diagnostics : QString) (turns : List PipeTurn) :
    AddsOnly request (loop M request onText diagnostics turns) := by
  induction turns with
  | nil =>
      intro w
      exact Adds.of_same rfl
  | cons turn turns ih =>
      intro w
      unfold loop
      rw [wp_ite]
      refine ⟨fun _ => Adds.of_same rfl, fun _ => ?_⟩
      have hread : AddsOnly request (read turn) := fun w => Adds.of_same rfl
      apply hread.bind
      intro _ w'
      rw [wp_bind, wp_get, wp_ite]
      refine ⟨fun _ => Adds.of_same rfl, fun _ => ?_⟩
      apply (readLines_adds request onText _).bind
      intro ended w''
      rw [wp_bind, wp_get]
      cases ended with
      | some event => exact Adds.of_same rfl
      | none =>
          dsimp only
          rw [wp_ite]
          exact ⟨fun _ => ih w'', fun _ => Adds.of_same rfl⟩

/-- A call hands on and returns lines of its own request only. -/
theorem call_adds {w : MlxWorker} (o : CallOutside M)
    (request : Worker.Request) (onText : Option Consumer) :
    wp (call M o request onText) (fun _ => Adds w.requests w)
      (fun _ => Adds w.requests w) w := by
  have hwrite : AddsOnly w.requests (write o request) := by
    intro w'
    unfold write
    rw [wp_bind, wp_get, wp_ite]
    exact ⟨fun _ => Adds.of_same rfl, fun _ => Adds.of_same rfl⟩
  unfold call
  rw [wp_bind, wp_get, wp_bind, wp_set]
  apply hwrite.bind
  intro _ w'
  rw [wp_tryCatch]
  apply wp_mono (loop_adds w.requests onText o.diagnostics o.turns w')
    (fun _ _ h => h)
  intro _ w'' h
  rw [wp_bind]
  exact wp_mono (stop_adds w.requests w'') (fun _ _ h' => h.trans h')
    (fun _ _ h' => h.trans h')

-- ======================================================================= uses

/-- Between calls any request may be sent. -/
theorem Idle.sendable {w : MlxWorker} (h : Idle w) (request : Worker.Request) :
    Sendable request w where
  toHistory := h.toHistory
  input := h.input
  output := h.output
  next := by
    intro hrunning
    obtain ⟨process, before, hprocesses, hne⟩ := h.loaded hrunning
    refine ⟨process, before, hprocesses, ?_⟩
    have hload := h.loadFirst process (hprocesses ▸ List.mem_cons_self)
    cases process with
    | nil => exact absurd rfl hne
    | cons first rest =>
        cases first with
        | load => trivial
        | _ => exact hload.elim

/-- A new process may be sent a load. -/
theorem Idle.launched {w : MlxWorker} (h : Idle w) (backend path : QString)
    (contextTokens : Int) :
    Sendable (.load backend path contextTokens) (launched w) where
  own := h.own
  counted := h.counted
  loadFirst := by
    intro process hprocess
    cases hprocess with
    | head => trivial
    | tail _ hprocess => exact h.loadFirst process hprocess
  input := rfl
  output := fun _ => rfl
  next := fun _ => ⟨[], w.processes, rfl, trivial⟩

/-- After a stop there is no process, and so nothing unread: the worker is idle
whatever it was doing. -/
theorem Idle.stopped {w : MlxWorker} (h : Idle w) :
    wp stop (fun _ => Idle) (fun _ _ => False) w := by
  unfold stop
  rw [wp_modify]
  exact ⟨⟨h.own, h.counted, h.loadFirst⟩, rfl,
    (fun hrunning => nomatch hrunning),
    (fun hrunning => nomatch hrunning)⟩

/-- Starting leaves the worker idle on both paths: a start that fails stops the
process again. -/
theorem start_wp {w : MlxWorker} (h : Idle w) (o : Outside M) :
    wp (start M o) (fun _ => Idle) (fun _ => Idle) w := by
  unfold start
  rw [wp_bind, wp_get, wp_ite]
  refine ⟨fun _ => h, fun _ => ?_⟩
  rw [wp_ite]
  refine ⟨fun _ => h, fun _ => ?_⟩
  cases o.startFails with
  | some error =>
      dsimp only
      rw [wp_bind]
      apply wp_mono h.stopped _ (fun _ _ h => h.elim)
      intro _ w' h'
      exact h'
  | none =>
      dsimp only
      rw [wp_bind, wp_set, wp_bind]
      apply wp_mono (call_wp none (h.launched _ _ _))
      · intro result w' ⟨h', _⟩
        rw [wp_ite]
        refine ⟨fun _ => ?_, fun _ => h'⟩
        rw [wp_bind]
        apply wp_mono h'.stopped _ (fun _ _ h => h.elim)
        intro _ w'' h''
        exact h''
      · intro _ w' ⟨h', _⟩
        exact h'

/-- A call by a model or a context. -/
theorem idle_call {w : MlxWorker} (h : Idle w) (o : CallOutside M)
    (request : Worker.Request) (onText : Option Consumer) :
    wp (call M o request onText) (fun _ => Idle) (fun _ => Idle) w :=
  wp_mono (call_wp onText (h.sendable request)) (fun _ _ h => h.1)
    (fun _ _ h => h.1)

/-- One use leaves the worker idle, for an error stops the process and a
finished call has read its answer to the end. -/
theorem perform_wp {w : MlxWorker} (h : Idle w) (o : Outside M) (use : Use) :
    wp (perform M o use) (fun _ => Idle) (fun _ => Idle) w := by
  cases use with
  | start => exact start_wp h o
  | generate request consumer =>
      unfold perform generate
      rw [wp_bind, wp_bind, wp_ofExcept]
      refine ⟨fun _ _ => ?_, fun _ _ => h⟩
      rw [wp_bind]
      apply wp_mono (start_wp h o) _ (fun _ _ h => h)
      intro _ w₁ h₁
      rw [wp_bind]
      apply wp_mono (idle_call h₁ _ _ _) _ (fun _ _ h => h)
      intro result w₂ h₂
      rw [wp_ofExcept]
      exact ⟨fun _ _ => h₂, fun _ _ => h₂⟩
  | tokenize messages =>
      unfold perform tokenize
      rw [wp_bind, wp_bind]
      apply wp_mono (start_wp h o) _ (fun _ _ h => h)
      intro _ w₁ h₁
      rw [wp_bind]
      apply wp_mono (idle_call h₁ _ _ _) _ (fun _ _ h => h)
      intro result w₂ h₂
      cases Json.lookup result (qs "tokens") with
      | none => exact h₂
      | some value =>
          cases value with
          | array values =>
              dsimp only
              rw [wp_ofExcept]
              exact ⟨fun _ _ => h₂, fun _ _ => h₂⟩
          | _ => exact h₂
  | drop contextId =>
      unfold perform drop
      rw [wp_bind, wp_get, wp_ite]
      refine ⟨fun _ => ?_, fun _ => h⟩
      rw [wp_bind, wp_attempt]
      exact idle_call h _ _ _
  | stop => exact wp_mono h.stopped (fun _ _ h => h) (fun _ _ h => h.elim)

theorem after_idle {w : MlxWorker} (h : Idle w) (use : Outside M × Use) :
    Idle (after M w use) := by
  unfold after
  apply wp_final
  apply perform_wp
  refine ⟨⟨h.own, h.counted, h.loadFirst⟩, h.input, fun hrunning => ?_,
    fun hrunning => ?_⟩
  · exact h.output (Bool.and_eq_true_iff.1 hrunning).1
  · exact h.loaded (Bool.and_eq_true_iff.1 hrunning).1

/-- By induction over the uses, the worker is idle between any two of them. -/
theorem used_idle (uses : List (Outside M × Use)) : Idle (used M uses) := by
  have hall : ∀ w : MlxWorker, Idle w → Idle (uses.foldl (after M) w) := by
    induction uses with
    | nil =>
        intro w h
        exact h
    | cons use uses ih =>
        intro w h
        exact ih _ (after_idle h use)
  apply hall
  exact ⟨⟨(fun event he => nomatch he), rfl, (fun p hp => nomatch hp)⟩, rfl,
    (fun hrunning => nomatch hrunning), (fun hrunning => nomatch hrunning)⟩

/-- What a call from a state does. What it returns and what it hands on
come from the lines that the worker wrote for its request, and it has
read its result or leaves the process killed; all it adds to the log is
of its own request. -/
def CallAligned (M : Mlx) (w : MlxWorker) (request : Worker.Request) : Prop :=
  ∀ (o : CallOutside M) (onText : Option Consumer),
    wp (call M o request onText)
      (fun object w' =>
        Ends M w.requests onText w' object ∧ Adds w.requests w w')
      (fun _ w' => (Killed w' ∧ Told M w.requests w')
        ∧ Adds w.requests w w') w

/-- For a request that can be sent, a fresh number separates its answer from
all earlier ones. -/
theorem Sendable.aligned {w : MlxWorker} {request : Worker.Request}
    (h : Sendable request w) : CallAligned M w request := by
  intro o onText
  exact wp_mono (wp_and (call_wp onText h) (call_adds o request onText))
    (fun _ _ h => ⟨h.1.2, h.2⟩) (fun _ _ h => ⟨h.1.2, h.2⟩)

/-- After any uses: every line that was handed on or returned is one the
worker wrote for that request, every process was sent a load first, and in
every next call, of a context or of `start` for a new process, the texts that
are handed on and the object that is returned are those of its own answer. -/
theorem replies_aligned (M : Mlx) (past : List (Outside M × Use)) :
    (∀ event ∈ (used M past).log, Own (used M past).answers event)
      ∧ (∀ process ∈ (used M past).processes, LoadFirst process)
      ∧ (∀ request, CallAligned M (used M past) request)
      ∧ CallAligned M (launched (used M past))
        (.load M.backend M.path M.contextTokens) := by
  have h := used_idle past
  exact ⟨h.own, h.loadFirst, fun request => (h.sendable request).aligned,
    (h.launched _ _ _).aligned⟩

/-- A worker that writes the byte 1 for a delta and 2 for a result. -/
def sampleMlx : Mlx where
  fromJson := fun line =>
    if line = [1] then some
      [(qs "text", .string (qs "hi")), (qs "type", .string (qs "delta"))]
    else if line = [2] then some [(qs "backend", .string (qs "cpu")),
      (qs "finish_reason", .string (qs "stop")),
      (qs "type", .string (qs "result"))]
    else none
  validate := fun _ => .ok ()
  path := qs "/m"
  contextTokens := 512
  backend := qs "cpu"

/-- A call whose answer arrives in chunks of these sizes. -/
def sampleCall (lines : List WireLine) (sizes : List Nat)
    (hnewline : ∀ line ∈ lines, (10 : UInt8) ∉ line)
    (hlast : ∀ line ∈ lines.dropLast, sampleMlx.typeOf line ≠ qs "result"
      ∧ sampleMlx.typeOf line ≠ qs "error") : CallOutside sampleMlx where
  answer := ⟨lines, hnewline, hlast⟩
  turns := sizes.map fun arrives => { arrives }

-- The answer to the generation is cut in the middle of its lines.
example :
    let o : Outside sampleMlx :=
      { load := sampleCall [[2]] [2] (by decide) (by decide)
        call := sampleCall [[1], [2]] [1, 2, 1] (by decide) (by decide) }
    let w := used sampleMlx
      [(o, .generate ⟨qs "k", [7], {}⟩ fun _ => .ok true)]
    w.log = [.result 0 (tagged 0 [2]), .delta 1 (tagged 1 [1]),
        .result 1 (tagged 1 [2])]
      ∧ w.running = true ∧ w.input = [] := by
  decide +kernel

/-- What the worker writes for a request is an answer: the lines of a turn of
its main loop, for a way of writing them in which no line has a newline
and a delta says that it is one. -/
def answerOf (M : Mlx) (wire : Worker.Line → WireLine)
    (hnewline : ∀ line, (10 : UInt8) ∉ wire line)
    (hdelta : ∀ line, line.isFinal = false → M.typeOf (wire line) = qs "delta")
    (o : Worker.Outside) (request : Worker.Request) (w : Worker) :
    WorkerAnswer M where
  lines := (Worker.replyTo o request w).map wire
  no_newline := by
    intro line hline
    obtain ⟨l, _, heq⟩ := List.mem_map.1 hline
    exact heq ▸ hnewline l
  only_last := by
    intro line hline
    obtain ⟨deltas, last, hreply, hdeltas, _⟩ :=
      Worker.replyTo_ends o request w
    rw [hreply, List.map_append, List.map_singleton, List.dropLast_concat]
      at hline
    obtain ⟨l, hl, heq⟩ := List.mem_map.1 hline
    rw [← heq, hdelta l (hdeltas l hl)]
    decide

end LocalLLM.MlxWorker
