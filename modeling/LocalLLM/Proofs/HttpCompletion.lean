/-
A streamed completion carries what the answer would.

# What carries the stream

Of the frames written, those taken and those queued, only the first two
are sure to be a beginning of what the events owe: once an event has been
refused for its size, later ones may be queued all the same
(`Live.begins`). But nothing is taken from then on, and until then nothing
is missing (`Live.exact`). A provider that took the frames before the last
event was there has taken no `[DONE]` (`Plain`), so an error it reports
afterwards is the only one.
-/
import LocalLLM.Proofs.Renderings
import LocalLLM.Proofs.Converse

namespace LocalLLM

open Json

namespace CompletionStream

open Completion

variable {o : CompletionOptions} {q : Completion} {s s' : CompletionStream}

-- ================================================================== the steps

/-- Whether an event says that the service has started. -/
def isStarted : StreamEvent → Bool
  | .started _ _ => true
  | _ => false

/-- The result after an event. -/
def resultAfter (event : StreamEvent) (result : GenerationResult) :
    GenerationResult :=
  match event with
  | .finished _ _ last => last
  | _ => result

/-- What a callback does to the state of a stream: it is delivered, and the
flags follow. -/
theorem note_eq (event : StreamEvent) (s : CompletionStream) :
    note event s = { s with
      started := s.started || isStarted event
      finished := s.finished || event.isFinished
      result := resultAfter event s.result } := by
  cases event <;> simp [note, isStarted, StreamEvent.isFinished, resultAfter]

/-- What one step can do. -/
inductive Step (o : CompletionOptions) (q : Completion)
    (s : CompletionStream) :
    Action → CompletionStream → Prop
  | late (event : StreamEvent) : Follows s.delivered event →
      s.abandoned = true →
      Step o q s (.event event) { s with delivered := s.delivered ++ [event] }
  | refuse (event : StreamEvent) : Follows s.delivered event →
      s.abandoned = false →
      Step o q s (.event event) { s with
        started := s.started || isStarted event
        finished := s.finished || event.isFinished
        result := resultAfter event s.result
        output := s.output + outputOf o event
        overflow := true
        delivered := s.delivered ++ [event] }
  | queue (event : StreamEvent) : Follows s.delivered event →
      s.abandoned = false →
      Step o q s (.event event) { s with
        started := s.started || isStarted event
        finished := s.finished || event.isFinished
        result := resultAfter event s.result
        output := s.output + outputOf o event
        buffered := s.buffered + o.framesSize (q.bytes event)
        frames := push s.frames (q.bytes event)
        delivered := s.delivered ++ [event] }
  | refuseRequest (why : Interruption) : s.phase = .waiting →
      Step o q s (.interrupt why) { s with
        phase := .answered (.error why.error)
        interrupted := true }
  | interrupt (why : Interruption) : s.phase = .polling →
      Step o q s (.interrupt why) { s with
        phase := .failing why.error
        interrupted := true }
  | answer (response : Except Error JsonObject) : s.phase = .waiting →
      (s.overflow = true ∧ response = .error overflowed)
        ∨ (s.finished = true ∧ response = if s.result.errorCode = .None then
            .ok (q.answer s.result)
          else .error ⟨s.result.errorCode, s.result.errorMessage⟩) →
      Step o q s .proceed { s with phase := .answered response }
  | stream : s.phase = .waiting → q.stream = true →
      Step o q s .proceed { s with phase := .polling }
  | takeNone : s.phase = .polling → s.overflow = true →
      Step o q s .take { s with phase := .failing overflowed }
  | takeAll : s.phase = .polling → s.overflow = false →
      Step o q s .take { s with
        frames := []
        buffered := 0
        phase := .writing s.finished s.frames }
  | write (finished : Bool) (bytes : List SseFrame)
      (pending : List (List SseFrame)) :
      s.phase = .writing finished (bytes :: pending) →
      Step o q s .write { s with
        body := s.body ++ bytes
        phase := .writing finished pending }
  | rest : s.phase = .writing false [] →
      Step o q s .write { s with phase := .polling }
  | finish : s.phase = .writing true [] →
      Step o q s .write { s with phase := .ended }
  | lose (a : Action) :
      (∃ finished pending, s.phase = .writing finished pending)
        ∨ (∃ error, s.phase = .failing error) →
      Step o q s a { s with phase := .broken }
  | report (error : Error) : s.phase = .failing error →
      Step o q s .report { s with
        body := s.body ++ failed error
        phase := .ended }
  | release : (∃ response, s.phase = .answered response) ∨ s.phase = .ended
        ∨ s.phase = .broken →
      Step o q s .release { s with abandoned := true }

/-- The handler answers, or leaves a provider behind for a stream. -/
theorem proceed_cases (hphase : s.phase = .waiting)
    (hgoes : (q.stream ∧ s.started) ∨ s.finished ∨ s.overflow) :
    Step o q s .proceed (proceed q s) := by
  unfold proceed
  by_cases hoverflow : s.overflow = true
  · rw [if_pos hoverflow]
    exact .answer _ hphase (Or.inl ⟨hoverflow, rfl⟩)
  · rw [if_neg hoverflow]
    split
    next hanswer =>
      by_cases hsuccess : s.result.errorCode = .None
      · rw [if_pos hsuccess]
        exact .answer _ hphase (Or.inr ⟨hanswer.1, by rw [if_pos hsuccess]⟩)
      · rw [if_neg hsuccess]
        exact .answer _ hphase (Or.inr ⟨hanswer.1, by rw [if_neg hsuccess]⟩)
    next hstream =>
      refine .stream hphase ?_
      rcases hgoes with hgoes | hfinished | hover
      · exact hgoes.1
      · by_contra hnot
        exact hstream ⟨hfinished, Or.inl (Bool.eq_false_iff.2 hnot)⟩
      · exact absurd hover hoverflow

/-- Every step is one of these. The schedule is free, so each case has to hold
of every state in which its guard does. -/
theorem step_cases {a : Action} (hstep : step o q s a = some s') :
    Step o q s a s' := by
  cases a with
  | event event =>
      dsimp only [step] at hstep
      split at hstep
      next hfollows =>
        cases hstep
        unfold onEvent
        by_cases habandoned : s.abandoned = true
        · rw [if_pos habandoned]
          exact .late event hfollows habandoned
        · rw [if_neg habandoned]
          have habandoned := Bool.eq_false_iff.2 habandoned
          dsimp only
          rw [note_eq]
          split
          · exact .refuse event hfollows habandoned
          · exact .queue event hfollows habandoned
      next => cases hstep
  | interrupt why =>
      dsimp only [step] at hstep
      split at hstep
      next hphase =>
        cases hstep
        exact .refuseRequest why hphase
      next hphase =>
        cases hstep
        exact .interrupt why hphase
      next => cases hstep
  | proceed =>
      dsimp only [step] at hstep
      split at hstep
      next hphase =>
        split at hstep
        next hgoes =>
          cases hstep
          exact proceed_cases hphase hgoes
        next => cases hstep
      next => cases hstep
  | take =>
      dsimp only [step] at hstep
      split at hstep
      next hphase =>
        split at hstep
        next =>
          cases hstep
          unfold take
          by_cases hoverflow : s.overflow = true
          · rw [if_pos hoverflow]
            exact .takeNone hphase hoverflow
          · rw [if_neg hoverflow]
            exact .takeAll hphase (Bool.eq_false_iff.2 hoverflow)
        next => cases hstep
      next => cases hstep
  | write =>
      dsimp only [step] at hstep
      split at hstep
      next finished pending hphase =>
        cases hstep
        cases pending with
        | cons bytes pending => exact .write finished bytes pending hphase
        | nil =>
            cases finished with
            | true => exact .finish hphase
            | false => exact .rest hphase
      next => cases hstep
  | sinkFails =>
      dsimp only [step] at hstep
      split at hstep
      next hphase =>
        cases hstep
        exact .lose _ (Or.inl ⟨_, _, hphase⟩)
      next hphase =>
        cases hstep
        exact .lose _ (Or.inr ⟨_, hphase⟩)
      next => cases hstep
  | report =>
      dsimp only [step] at hstep
      split at hstep
      next error hphase =>
        cases hstep
        unfold report
        split
        · exact .lose _ (Or.inr ⟨_, hphase⟩)
        · exact .report error hphase
      next => cases hstep
  | release =>
      dsimp only [step] at hstep
      split at hstep
      next hphase =>
        cases hstep
        exact .release (Or.inl ⟨_, hphase⟩)
      next hphase =>
        cases hstep
        exact .release (Or.inr (Or.inl hphase))
      next hphase =>
        cases hstep
        exact .release (Or.inr (Or.inr hphase))
      next => cases hstep

-- ================================================================= the frames

/-- A frame that is an error. -/
def isError : SseFrame → Bool
  | .data value => (lookup value (qs "error")).isSome
  | .done => false

/-- Frames that end nothing. -/
def Plain (frames : List SseFrame) : Prop :=
  ∀ frame ∈ frames, frame ≠ .done ∧ isError frame = false

/-- A chunk of text is neither the end of the stream nor an error frame. -/
theorem makeChunk_plain (q : Completion) (id : QString) (delta : JsonObject)
    (reason : Json) : q.makeChunk id delta reason ≠ .done
      ∧ isError (q.makeChunk id delta reason) = false := by
  have hchunk : lookup (q.chunk id delta reason) (qs "error") = none := by
    unfold chunk envelope
    rw [lookup_insert_ne _ _ (by decide), lookup_ofMembers]
    rfl
  refine ⟨(fun h => nomatch h), ?_⟩
  unfold makeChunk isError
  dsimp only
  split
  · rw [lookup_insert_ne _ _ (by decide), hchunk]
    rfl
  · rw [hchunk]
    rfl

/-- An event that is not the last one ends nothing. -/
theorem bytes_plain (q : Completion) {event : StreamEvent}
    (hgoes : event.isFinished = false) : Plain (q.bytes event) := by
  unfold bytes
  intro frame hframe
  split at hframe
  · cases hframe
  · cases event with
    | started requestId sessionId =>
        rw [List.mem_singleton.1 hframe]
        exact makeChunk_plain _ _ _ _
    | delta requestId sessionId text =>
        rw [List.mem_singleton.1 hframe]
        exact makeChunk_plain _ _ _ _
    | finished requestId sessionId result => cases hgoes

/-- The frames the events owe. -/
def owed (q : Completion) (s : CompletionStream) : List SseFrame :=
  s.delivered.flatMap q.bytes

/-- Before the last event only chunks are owed. -/
theorem owed_plain (hopen : ∀ event ∈ s.delivered, event.isFinished = false) :
    Plain (owed q s) := by
  intro frame hframe
  obtain ⟨event, hevent, hframe⟩ := List.mem_flatMap.1 hframe
  exact bytes_plain q (hopen event hevent) frame hframe

/-- Where the writer cuts its output does not change the bytes. -/
theorem push_flatten (frames : List (List SseFrame)) (bytes : List SseFrame) :
    (push frames bytes).flatten = frames.flatten ++ bytes := by
  unfold push
  split
  next hempty => rw [hempty, List.append_nil]
  next => rw [List.flatten_append, List.flatten_singleton]

-- ============================================================== the invariant

/-- The last event has been delivered, and the result is its. -/
def Done (s : CompletionStream) : Prop :=
  ∃ before requestId sessionId,
    s.delivered = before ++ [StreamEvent.finished requestId sessionId s.result]
      ∧ Follows before (.finished requestId sessionId s.result)

/-- Nothing follows the last event. -/
theorem Done.last (hdone : Done s) {event : StreamEvent}
    (hfollows : Follows s.delivered event) : False := by
  obtain ⟨before, requestId, sessionId, hdelivered, _⟩ := hdone
  have hlast := hfollows.1 (.finished requestId sessionId s.result)
    (by rw [hdelivered]; simp)
  cases hlast

/-- The flags say what has been delivered. -/
structure Heard (s : CompletionStream) : Prop where
  kept : s.abandoned = false
  done : s.finished = true → Done s
  goes : s.finished = false → ∀ event ∈ s.delivered, event.isFinished = false

/-- The response is being written, with these frames taken. -/
structure Live (q : Completion) (s : CompletionStream)
    (pending : List (List SseFrame)) : Prop where
  heard : Heard s
  clear : s.interrupted = false
  begins : s.body ++ pending.flatten <+: owed q s
  exact : s.overflow = false →
    s.body ++ pending.flatten ++ s.frames.flatten = owed q s

/-- These frames were written before a limit or a check ended the stream. -/
structure Cut (q : Completion) (s : CompletionStream)
    (before : List SseFrame) : Prop where
  begins : before <+: owed q s
  plain : Plain before
  cause : s.interrupted = true ∨ s.overflow = true

/-- All frames were written. -/
structure Whole (q : Completion) (s : CompletionStream) : Prop where
  stream : q.stream = true
  body : s.body = owed q s
  done : Done s
  clear : s.interrupted = false
  fits : s.overflow = false

/-- Why the handler answered as it did. -/
def Answered (q : Completion) (s : CompletionStream) :
    Except Error JsonObject → Prop
  | .ok value =>
      value = q.answer s.result ∧ s.result.errorCode = .None ∧ Done s
  | .error error => s.interrupted = true ∨ s.overflow = true
      ∨ (error = ⟨s.result.errorCode, s.result.errorMessage⟩
        ∧ s.result.errorCode ≠ .None ∧ Done s)

/-- Where the frames are, by phase. -/
def Flow (q : Completion) (s : CompletionStream) : Prop :=
  match s.phase with
  | .waiting => Live q s [] ∧ s.body = []
  | .answered response => Answered q s response
  | .polling => Live q s [] ∧ Plain s.body ∧ q.stream = true
  | .writing false pending => Live q s pending
      ∧ Plain (s.body ++ pending.flatten) ∧ q.stream = true
  | .writing true pending => Live q s pending ∧ Done s ∧ s.overflow = false
      ∧ s.frames = [] ∧ q.stream = true
  | .failing _ => Cut q s s.body
  | .ended => Whole q s
      ∨ ∃ before error, s.body = before ++ failed error ∧ Cut q s before
  | .broken => True

-- ===================================================================== events

/-- The flags follow an event. -/
theorem Heard.event (hheard : Heard s) {event : StreamEvent}
    (hfollows : Follows s.delivered event) {t : CompletionStream}
    (hkept : t.abandoned = false)
    (hfinished : t.finished = (s.finished || event.isFinished))
    (hresult : t.result = resultAfter event s.result)
    (hdelivered : t.delivered = s.delivered ++ [event]) : Heard t := by
  have hopen : s.finished = false := by
    rw [← Bool.not_eq_true]
    exact fun hset => (hheard.done hset).last hfollows
  rw [hopen, Bool.false_or] at hfinished
  refine ⟨hkept, fun hset => ?_, fun hset => ?_⟩
  · rw [hfinished] at hset
    cases event with
    | finished requestId sessionId result =>
        unfold Done
        rw [hresult, hdelivered]
        exact ⟨s.delivered, requestId, sessionId, rfl, hfollows⟩
    | _ => cases hset
  · rw [hfinished] at hset
    rw [hdelivered]
    intro old hold
    rcases List.mem_append.1 hold with hold | hold
    · exact hheard.goes hopen old hold
    · rw [List.mem_singleton.1 hold]
      exact hset

/-- Each event adds its own frames behind those owed before. -/
theorem owed_event {t : CompletionStream} {event : StreamEvent}
    (hdelivered : t.delivered = s.delivered ++ [event]) :
    owed q t = owed q s ++ q.bytes event := by
  unfold owed
  rw [hdelivered, List.flatMap_append, List.flatMap_singleton]

/-- A cut of the stream stays one when more is delivered. -/
theorem Cut.mono {before : List SseFrame} (hcut : Cut q s before)
    {t : CompletionStream} (howed : owed q s <+: owed q t)
    (hinterrupted : s.interrupted = true → t.interrupted = true)
    (hoverflow : s.overflow = true → t.overflow = true) : Cut q t before :=
  ⟨hcut.begins.trans howed, hcut.plain, hcut.cause.imp hinterrupted hoverflow⟩

/-- An event changes no phase, and comes in none in which the
last one has been. -/
theorem flow_event {t : CompletionStream} {event : StreamEvent}
    (hflow : Flow q s) (hfollows : Follows s.delivered event)
    (hphase : t.phase = s.phase) (hbody : t.body = s.body)
    (hinterrupted : t.interrupted = s.interrupted)
    (hoverflow : s.overflow = true → t.overflow = true)
    (hdelivered : t.delivered = s.delivered ++ [event])
    (hlive : ∀ pending, Live q s pending → Live q t pending) : Flow q t := by
  have hcut : ∀ before, Cut q s before → Cut q t before := fun before hcut =>
    hcut.mono (owed_event hdelivered ▸ List.prefix_append _ _)
      (fun hset => hinterrupted.trans hset) hoverflow
  unfold Flow at hflow ⊢
  rw [hphase]
  cases hs : s.phase with
  | waiting =>
      rw [hs] at hflow
      exact ⟨hlive _ hflow.1, hbody.trans hflow.2⟩
  | answered response =>
      rw [hs] at hflow
      cases response with
      | ok value => exact (hflow.2.2.last hfollows).elim
      | error error =>
          rcases hflow with hset | hset | hset
          · exact Or.inl (hinterrupted.trans hset)
          · exact Or.inr (Or.inl (hoverflow hset))
          · exact (hset.2.2.last hfollows).elim
  | polling =>
      rw [hs] at hflow
      exact ⟨hlive _ hflow.1, hbody ▸ hflow.2.1, hflow.2.2⟩
  | writing finished pending =>
      rw [hs] at hflow
      cases finished with
      | false => exact ⟨hlive _ hflow.1, hbody ▸ hflow.2.1, hflow.2.2⟩
      | true => exact (hflow.2.1.last hfollows).elim
  | failing error =>
      rw [hs] at hflow
      show Cut q t t.body
      rw [hbody]
      exact hcut _ hflow
  | ended =>
      rw [hs] at hflow
      rcases hflow with hwhole | ⟨before, error, hend, hbefore⟩
      · exact (hwhole.done.last hfollows).elim
      · exact Or.inr ⟨before, error, hbody.trans hend, hcut _ hbefore⟩
  | broken => trivial

/-- An event that is refused. -/
theorem Live.refuse {pending : List (List SseFrame)} (hlive : Live q s pending)
    {event : StreamEvent} (hfollows : Follows s.delivered event)
    (output : Int) : Live q { s with
      started := s.started || isStarted event
      finished := s.finished || event.isFinished
      result := resultAfter event s.result
      output
      overflow := true
      delivered := s.delivered ++ [event] } pending where
  heard := hlive.heard.event hfollows hlive.heard.kept rfl rfl rfl
  clear := hlive.clear
  begins := by
    rw [owed_event rfl]
    exact hlive.begins.trans (List.prefix_append _ _)
  exact := fun hoverflow => nomatch hoverflow

/-- An event that is queued. -/
theorem Live.queue {pending : List (List SseFrame)} (hlive : Live q s pending)
    {event : StreamEvent} (hfollows : Follows s.delivered event)
    (output buffered : Int) : Live q { s with
      started := s.started || isStarted event
      finished := s.finished || event.isFinished
      result := resultAfter event s.result
      output
      buffered
      frames := push s.frames (q.bytes event)
      delivered := s.delivered ++ [event] } pending where
  heard := hlive.heard.event hfollows hlive.heard.kept rfl rfl rfl
  clear := hlive.clear
  begins := by
    rw [owed_event rfl]
    exact hlive.begins.trans (List.prefix_append _ _)
  exact := by
    intro hoverflow
    rw [owed_event rfl, ← hlive.exact hoverflow, push_flatten]
    exact (List.append_assoc _ _ _).symm

-- =============================================================== the provider

/-- What is taken at once is all there is: the writer empties the queue under
the lock that callbacks fill it under. -/
theorem flow_takeAll (hflow : Flow q s) (hphase : s.phase = .polling)
    (hoverflow : s.overflow = false) : Flow q { s with
      frames := []
      buffered := 0
      phase := .writing s.finished s.frames } := by
  unfold Flow at hflow
  rw [hphase] at hflow
  obtain ⟨hlive, hplain, hstream⟩ := hflow
  have hall : s.body ++ s.frames.flatten = owed q s := by
    rw [← hlive.exact hoverflow, List.flatten_nil, List.append_nil]
  have hheard := hlive.heard
  have htaken : Live q { s with
      frames := []
      buffered := 0
      phase := .writing s.finished s.frames } s.frames :=
    ⟨⟨hheard.kept, hheard.done, hheard.goes⟩, hlive.clear,
      hall ▸ List.prefix_refl _,
      fun _ => (List.append_nil _).trans hall⟩
  unfold Flow
  dsimp only
  cases hfinished : s.finished with
  | true =>
      rw [hfinished] at htaken
      exact ⟨htaken, hheard.done hfinished, hoverflow, rfl, hstream⟩
  | false =>
      rw [hfinished] at htaken
      refine ⟨htaken, ?_, hstream⟩
      rw [hall]
      exact owed_plain (hheard.goes hfinished)

/-- What one event has queued is written. -/
theorem flow_write {finished : Bool} {bytes : List SseFrame}
    {pending : List (List SseFrame)} (hflow : Flow q s)
    (hphase : s.phase = .writing finished (bytes :: pending)) :
    Flow q { s with
      body := s.body ++ bytes
      phase := .writing finished pending } := by
  have hshift : s.body ++ bytes ++ pending.flatten
      = s.body ++ (bytes :: pending).flatten := by
    rw [List.flatten_cons, List.append_assoc]
  have hwritten : Live q s (bytes :: pending) → Live q { s with
      body := s.body ++ bytes
      phase := .writing finished pending } pending := by
    intro hlive
    have hheard := hlive.heard
    refine ⟨⟨hheard.kept, hheard.done, hheard.goes⟩, hlive.clear, ?_, ?_⟩
    · show s.body ++ bytes ++ pending.flatten <+: owed q s
      rw [hshift]
      exact hlive.begins
    · intro hoverflow
      show s.body ++ bytes ++ pending.flatten ++ s.frames.flatten = owed q s
      rw [hshift]
      exact hlive.exact hoverflow
  unfold Flow at hflow ⊢
  rw [hphase] at hflow
  cases finished with
  | false =>
      refine ⟨hwritten hflow.1, ?_, hflow.2.2⟩
      show Plain (s.body ++ bytes ++ pending.flatten)
      rw [hshift]
      exact hflow.2.1
  | true => exact ⟨hwritten hflow.1, hflow.2⟩

/-- One step keeps the frames where they belong: delivered, queued, taken or
written, in one order and each at one place. -/
theorem flow_step {a : Action} (hflow : Flow q s) (hstep : Step o q s a s') :
    Flow q s' := by
  cases hstep with
  | late event hfollows habandoned =>
      refine flow_event hflow hfollows rfl rfl rfl id rfl
        fun pending hlive => ?_
      have hkept := hlive.heard.kept
      rw [habandoned] at hkept
      cases hkept
  | refuse event hfollows =>
      exact flow_event hflow hfollows rfl rfl rfl (fun _ => rfl) rfl
        fun _ hlive => hlive.refuse hfollows _
  | queue event hfollows =>
      exact flow_event hflow hfollows rfl rfl rfl id rfl
        fun _ hlive => hlive.queue hfollows _ _
  | refuseRequest why hphase => exact Or.inl rfl
  | interrupt why hphase =>
      unfold Flow at hflow
      rw [hphase] at hflow
      refine ⟨List.IsPrefix.trans ?_ hflow.1.begins, hflow.2.1, Or.inl rfl⟩
      exact List.prefix_append _ _
  | answer response hphase hresponse =>
      unfold Flow at hflow
      rw [hphase] at hflow
      show Answered q _ response
      rcases hresponse with ⟨hoverflow, hresponse⟩ | ⟨hfinished, hresponse⟩
      · rw [hresponse]
        exact Or.inr (Or.inl hoverflow)
      · have hdone := hflow.1.heard.done hfinished
        rw [hresponse]
        split
        next hsuccess => exact ⟨rfl, hsuccess, hdone⟩
        next hfails => exact Or.inr (Or.inr ⟨rfl, hfails, hdone⟩)
  | stream hphase hstream =>
      unfold Flow at hflow
      rw [hphase] at hflow
      obtain ⟨hlive, hbody⟩ := hflow
      have hheard := hlive.heard
      refine ⟨⟨⟨hheard.kept, hheard.done, hheard.goes⟩, hlive.clear,
        hlive.begins, hlive.exact⟩, ?_, hstream⟩
      show Plain s.body
      rw [hbody]
      exact fun _ hframe => nomatch hframe
  | takeNone hphase hoverflow =>
      unfold Flow at hflow
      rw [hphase] at hflow
      refine ⟨List.IsPrefix.trans ?_ hflow.1.begins, hflow.2.1,
        Or.inr hoverflow⟩
      exact List.prefix_append _ _
  | takeAll hphase hoverflow => exact flow_takeAll hflow hphase hoverflow
  | write finished bytes pending hphase => exact flow_write hflow hphase
  | rest hphase =>
      unfold Flow at hflow
      rw [hphase] at hflow
      obtain ⟨hlive, hplain, hstream⟩ := hflow
      have hheard := hlive.heard
      refine ⟨⟨⟨hheard.kept, hheard.done, hheard.goes⟩, hlive.clear,
        hlive.begins, hlive.exact⟩, ?_, hstream⟩
      rwa [List.flatten_nil, List.append_nil] at hplain
  | finish hphase =>
      unfold Flow at hflow
      rw [hphase] at hflow
      obtain ⟨hlive, hdone, hoverflow, hframes, hstream⟩ := hflow
      have hexact := hlive.exact hoverflow
      rw [hframes, List.flatten_nil, List.append_nil,
        List.append_nil] at hexact
      exact Or.inl ⟨hstream, hexact, hdone, hlive.clear, hoverflow⟩
  | lose => trivial
  | report error hphase =>
      unfold Flow at hflow
      rw [hphase] at hflow
      exact Or.inr ⟨s.body, error, rfl, hflow.mono (List.prefix_refl _) id id⟩
  | release hphase =>
      have hsame : ({ s with abandoned := true } : CompletionStream).phase
          = s.phase := rfl
      unfold Flow at hflow ⊢
      rw [hsame]
      rcases hphase with ⟨response, hphase⟩ | hphase | hphase
      · rw [hphase] at hflow ⊢
        cases response <;> exact hflow
      · rw [hphase] at hflow ⊢
        rcases hflow with hwhole | ⟨before, error, hend, hcut⟩
        · exact Or.inl ⟨hwhole.stream, hwhole.body, hwhole.done, hwhole.clear,
            hwhole.fits⟩
        · exact Or.inr ⟨before, error, hend,
            hcut.mono (List.prefix_refl _) id id⟩
      · rw [hphase]
        trivial

-- ======================================================================= runs

/-- The state after any steps of any threads. -/
abbrev Reaches (o : CompletionOptions) (q : Completion) (as : List Action)
    (s : CompletionStream) : Prop :=
  System.run (step o q) {} as = some s

theorem flow_start (q : Completion) : Flow q {} :=
  ⟨⟨⟨rfl, (fun h => nomatch h), (fun _ _ h => nomatch h)⟩, rfl,
    List.prefix_refl _, fun _ => rfl⟩, rfl⟩

/-- By induction, the body is a beginning of what is owed in
every reachable state. -/
theorem reaches_flow {as : List Action} (hreach : Reaches o q as s) :
    Flow q s :=
  System.run_invariant (fun _ _ _ hflow hstep => flow_step hflow
    (step_cases hstep))
    as (flow_start q) hreach

/-- Once a stream has ended, it stays as it is. -/
theorem ended_step {a : Action} (hended : s.phase = .ended)
    (hstep : Step o q s a s') : s'.phase = .ended ∧ s'.body = s.body := by
  have hnot : ∀ phase, s.phase = phase → phase = .ended := by
    intro phase hphase
    rw [← hphase]
    exact hended
  cases hstep with
  | late => exact ⟨hended, rfl⟩
  | refuse => exact ⟨hended, rfl⟩
  | queue => exact ⟨hended, rfl⟩
  | release => exact ⟨hended, rfl⟩
  | refuseRequest why hphase => cases hnot _ hphase
  | interrupt why hphase => cases hnot _ hphase
  | answer response hphase _ => cases hnot _ hphase
  | stream hphase _ => cases hnot _ hphase
  | takeNone hphase _ => cases hnot _ hphase
  | takeAll hphase _ => cases hnot _ hphase
  | write finished bytes pending hphase => cases hnot _ hphase
  | rest hphase => cases hnot _ hphase
  | finish hphase => cases hnot _ hphase
  | report error hphase => cases hnot _ hphase
  | lose a hphase =>
      rcases hphase with ⟨_, _, hphase⟩ | ⟨_, hphase⟩
      · cases hnot _ hphase
      · cases hnot _ hphase

/-- Nothing is written once the stream has ended. -/
theorem ended_stays (as : List Action) (hended : s.phase = .ended)
    (hrun : System.run (step o q) s as = some s') :
    s'.phase = .ended ∧ s'.body = s.body := by
  refine System.run_invariant (I := fun t : CompletionStream =>
    t.phase = .ended ∧ t.body = s.body) ?_ as ⟨hended, rfl⟩ hrun
  intro t a t' ht hstep
  obtain ⟨hphase, hbody⟩ := ended_step ht.1 (step_cases hstep)
  exact ⟨hphase, hbody.trans ht.2⟩

-- ================================================================ the endings

/-- Before its `[DONE]` the last event puts none. -/
theorem bytes_finished (hstream : q.stream = true)
    (requestId sessionId : QString) (result : GenerationResult) : ∃ frames,
      q.bytes (.finished requestId sessionId result) = frames ++ [.done]
        ∧ SseFrame.done ∉ frames := by
  unfold bytes
  rw [if_neg (by simp [hstream])]
  refine ⟨_, rfl, ?_⟩
  split
  · unfold lastChunks
    simp only [List.mem_append, not_or]
    refine ⟨⟨⟨?_, ?_⟩, ?_⟩, ?_⟩
    · split <;> simp [makeChunk]
    · split <;> simp [makeChunk]
    · simp [makeChunk]
    · split <;> simp
  · simp

/-- A stream of which all frames were written has one `[DONE]`,
its last frame. -/
theorem Whole.closed (hwhole : Whole q s) :
    ∃ sent, s.body = sent ++ [.done] ∧ SseFrame.done ∉ sent := by
  obtain ⟨before, requestId, sessionId, hdelivered, hfollows⟩ := hwhole.done
  obtain ⟨frames, hbytes, hnone⟩ :=
    bytes_finished hwhole.stream requestId sessionId s.result
  refine ⟨before.flatMap q.bytes ++ frames, ?_, ?_⟩
  · rw [hwhole.body]
    unfold owed
    rw [hdelivered, List.flatMap_append, List.flatMap_singleton, hbytes,
      List.append_assoc]
  · intro hmem
    rcases List.mem_append.1 hmem with hmem | hmem
    · obtain ⟨event, hevent, hmem⟩ := List.mem_flatMap.1 hmem
      exact (bytes_plain q (hfollows.1 event hevent) _ hmem).1 rfl
    · exact hnone hmem

/-- So has one that was cut short. -/
theorem Cut.closed {before : List SseFrame} {error : Error}
    (hcut : Cut q s before) (hbody : s.body = before ++ failed error) :
    ∃ sent, s.body = sent ++ [.done] ∧ SseFrame.done ∉ sent := by
  refine ⟨before ++ [.data (errorObject error.code error.message)], ?_, ?_⟩
  · rw [hbody, List.append_assoc]
    rfl
  · intro hmem
    rcases List.mem_append.1 hmem with hmem | hmem
    · exact (hcut.plain _ hmem).1 rfl
    · cases List.mem_singleton.1 hmem

/-- All frames of a completion that succeeds carry what an answer to the same
events does. -/
theorem Whole.collect_eq (hwhole : Whole q s)
    (hsuccess : s.result.errorCode = .None) (p : Completion) : collect s.body =
      { read (p.answer s.result) with
        usage := if q.includeUsage then (read (p.answer s.result)).usage
          else none } := by
  obtain ⟨before, requestId, sessionId, hdelivered, hfollows⟩ := hwhole.done
  have htext := (hfollows.2 hsuccess).1
  rw [hwhole.body, read_answer]
  unfold owed
  rw [hdelivered, collect_stream hwhole.stream _ _ hfollows.1 hsuccess htext]

/-- The calls themselves, where none has an index of its own. -/
theorem Whole.calls_eq (hwhole : Whole q s)
    (hsuccess : s.result.errorCode = .None)
    (hnone : ∀ call ∈ s.result.toolCalls,
      contains (toObject (some call)) (qs "index") = false) (p : Completion) :
    (collect s.body).toolCalls = callsOf (p.answer s.result) := by
  obtain ⟨before, requestId, sessionId, hdelivered, hfollows⟩ := hwhole.done
  rw [hwhole.collect_eq hsuccess p, read_answer, callsOf_answer]
  show s.result.toolCalls.map withoutIndex = _
  rw [List.map_congr_left fun call hcall => withoutIndex_self
    ((hfollows.2 hsuccess).2 call hcall) (hnone call hcall), List.map_id']

-- ================================================================ the service

/-- The events of a request that is reported, and whose calls are objects,
follow each other as the callback expects. -/
theorem follows_of_reported {callback : Option StreamCallback}
    {requestId sessionId : QString} {settled : Settled}
    (hreported : Reported callback requestId sessionId settled)
    (hcallback : callback.isSome = true)
    (hcalls : ∀ call ∈ settled.result.toolCalls, isObject (some call) = true)
    {before after : List StreamEvent} {event : StreamEvent}
    (hevents : settled.events = before ++ event :: after) :
    Follows before event := by
  obtain ⟨deltas, hall, hgo⟩ := hreported.finished hcallback
  rcases List.eq_nil_or_concat after with hlast | ⟨rest, last, hlast⟩
  · subst hlast
    obtain ⟨hbefore, hevent⟩ := List.append_inj'
      (hevents.symm.trans hall) rfl
    have hevent := List.singleton_inj.1 hevent
    subst hbefore hevent
    refine ⟨hgo, fun _ => ⟨?_, hcalls⟩⟩
    have htext := hreported.text hcallback
    rw [hall, List.flatMap_append] at htext
    simpa [StreamEvent.text] using htext
  · subst hlast
    have hsame : before ++ event :: rest ++ [last] = deltas
        ++ [.finished requestId sessionId settled.result] := by
      rw [← hall, hevents]
      simp
    have hdeltas := (List.append_inj' hsame rfl).1
    have hopen : event.isFinished = false :=
      hgo event (hdeltas ▸ by simp)
    refine ⟨fun old hold => hgo old (hdeltas ▸ by simp [hold]), ?_⟩
    cases event with
    | finished => cases hopen
    | _ => trivial

/-- What a conversation of the service delivers. -/
theorem converse_follows {c : Config} (hc : c.Honest) {s : State}
    (hsound : s.Sound c noLease) (hobserved : Observed s) (env : Env)
    (requestId : QString) (request : ConversationRequest)
    (callback : StreamCallback) :
    ∃ settled s', converse c env requestId request (some callback) s
        = (.ok settled, s')
      ∧ ∀ before event after, settled.events = before ++ event :: after →
        Follows before event := by
  obtain ⟨settled, s', hrun, -, -, -, -, hreported, hsafe, -, -⟩ :=
    converse_spec hc hsound hobserved env requestId request (some callback)
  refine ⟨settled, s', hrun, fun before event after hevents =>
    follows_of_reported hreported rfl (fun call hcall => ?_) hevents⟩
  have hid := (hsafe.each call hcall).id_ne_nil
  cases call with
  | object members => rfl
  | _ => exact absurd rfl hid

-- =============================================================== the response

/-- A stream that has ended. -/
structure Ended (o : CompletionOptions) (q : Completion)
    (s : CompletionStream) : Prop where
  /-- Nothing came in between: every frame of every event, in order. -/
  whole : s.interrupted = false → s.overflow = false →
    s.body = s.delivered.flatMap q.bytes
  /-- A completion that succeeded carries what an answer to the same events
  does, up to the usage, which may not have been asked for. -/
  agrees : s.interrupted = false → s.overflow = false →
    s.result.errorCode = .None →
    ∀ (o' : CompletionOptions) (p : Completion) (bs : List Action)
      (t : CompletionStream) (value : JsonObject), Reaches o' p bs t →
      t.phase = .answered (.ok value) → t.delivered = s.delivered →
      collect s.body = { read value with
          usage := if q.includeUsage then (read value).usage else none }
        ∧ ((∀ call ∈ s.result.toolCalls,
            contains (toObject (some call)) (qs "index") = false) →
          (collect s.body).toolCalls = callsOf value)
  /-- A limit or the deadline: one error, and nothing else has ended. -/
  cut : s.interrupted = true ∨ s.overflow = true → ∃ sent error,
    s.body = sent ++ failed error ∧ Plain sent
  /-- One `[DONE]`, and it is the last frame. -/
  closed : ∃ sent, s.body = sent ++ [.done] ∧ SseFrame.done ∉ sent
  stays : ∀ bs t, System.run (step o q) s bs = some t →
    t.phase = .ended ∧ t.body = s.body

/-- The last event is told by what has been delivered. -/
theorem Done.result_eq {t : CompletionStream} (hs : Done s) (ht : Done t)
    (hsame : t.delivered = s.delivered) : t.result = s.result := by
  obtain ⟨before, requestId, sessionId, hdelivered, _⟩ := hs
  obtain ⟨before', requestId', sessionId', hdelivered', _⟩ := ht
  rw [hdelivered, hdelivered'] at hsame
  have hlast := List.singleton_inj.1 (List.append_inj' hsame rfl).2
  exact (StreamEvent.finished.inj hlast).2.2

/-- At the end, all of what is owed was written, or the stream
was cut and says so. -/
theorem ended_of_flow (hflow : Flow q s) (hended : s.phase = .ended) :
    Ended o q s := by
  unfold Flow at hflow
  rw [hended] at hflow
  rcases hflow with hwhole | ⟨before, error, hbody, hcut⟩
  · refine ⟨fun _ _ => hwhole.body, ?_, fun hcause => ?_, hwhole.closed,
      fun bs t hrun => ended_stays bs hended hrun⟩
    · intro _ _ hsuccess o' p bs t value hreach hanswered hsame
      have ht := reaches_flow hreach
      unfold Flow at ht
      rw [hanswered] at ht
      obtain ⟨hvalue, -, hdone⟩ := ht
      rw [hwhole.done.result_eq hdone hsame] at hvalue
      rw [hvalue]
      exact ⟨hwhole.collect_eq hsuccess p,
        fun hnone => hwhole.calls_eq hsuccess hnone p⟩
    · rw [hwhole.clear, hwhole.fits] at hcause
      rcases hcause with hcause | hcause <;> cases hcause
  · have hnot : s.interrupted = false → s.overflow = false → False := by
      intro hclear hfits
      have hcause := hcut.cause
      rw [hclear, hfits] at hcause
      rcases hcause with hcause | hcause <;> cases hcause
    exact ⟨fun hclear hfits => (hnot hclear hfits).elim,
      fun hclear hfits => (hnot hclear hfits).elim,
      fun _ => ⟨before, error, hbody, hcut.plain⟩, hcut.closed hbody,
      fun bs t hrun => ended_stays bs hended hrun⟩

-- ============================================================== getting there

/-- What the provider does while nothing comes in between. -/
def Forward : Action → Prop
  | .take | .write | .report => True
  | _ => False

/-- The provider ends the stream by itself from here. -/
def CanEnd (o : CompletionOptions) (q : Completion) (s : CompletionStream) :
    Prop :=
  System.Leads (step o q) Forward (fun t : CompletionStream =>
    t.phase = .ended) s

/-- A stream with nothing more to come: the last event has been heard or one
has been refused, or an error is to be reported. -/
def Due (s : CompletionStream) : Prop :=
  match s.phase with
  | .polling => s.finished = true ∨ s.overflow = true
  | .writing finished _ =>
      finished = true ∨ s.finished = true ∨ s.overflow = true
  | .failing error => error.code ≠ .Cancelled ∧ error.code ≠ .ShuttingDown
  | .ended => True
  | _ => False

/-- A stream that fails writes its error frame and ends, unless the client is
gone or the service stops. -/
theorem canEnd_failing {error : Error} (hphase : s.phase = .failing error)
    (hreports : error.code ≠ .Cancelled ∧ error.code ≠ .ShuttingDown) :
    CanEnd o q s := by
  have hstep : step o q s .report = some { s with
      body := s.body ++ failed error
      phase := .ended } := by
    dsimp only [step]
    rw [hphase]
    show some (report error s) = _
    unfold report
    rw [if_neg (not_or.2 hreports)]
  exact .after .report trivial hstep (.here rfl)

/-- One write leads on. -/
theorem step_write {finished : Bool} {pending : List (List SseFrame)}
    (hphase : s.phase = .writing finished pending) :
    step o q s .write = some (write finished s pending) := by
  dsimp only [step]
  rw [hphase]

/-- With the last frames in the buffer, a write ends the stream. -/
theorem canEnd_last {pending : List (List SseFrame)}
    (hphase : s.phase = .writing true pending) : CanEnd o q s := by
  induction pending generalizing s with
  | cons bytes pending ih =>
      refine .after .write trivial (step_write hphase) (ih ?_)
      rfl
  | nil => exact .after .write trivial (step_write hphase) (.here rfl)

/-- A poll sees that the stream is due and goes on to the last write. -/
theorem canEnd_polling (hphase : s.phase = .polling)
    (hdue : s.finished = true ∨ s.overflow = true) : CanEnd o q s := by
  have hstep : step o q s .take = some (take s) := by
    dsimp only [step]
    rw [hphase]
    exact if_pos (Or.inr hdue)
  refine .after .take trivial hstep ?_
  unfold take
  split
  next => exact canEnd_failing rfl ⟨by decide, by decide⟩
  next hfits => exact canEnd_last (congrArg (Phase.writing · s.frames)
      (hdue.resolve_right hfits))

/-- A pending write completes and leads back to the poll. -/
theorem canEnd_writing {finished : Bool} {pending : List (List SseFrame)}
    (hphase : s.phase = .writing finished pending)
    (hdue : s.finished = true ∨ s.overflow = true) : CanEnd o q s := by
  cases finished with
  | true => exact canEnd_last hphase
  | false =>
      induction pending generalizing s with
      | cons bytes pending ih =>
          refine .after .write trivial (step_write hphase) (ih ?_ rfl)
          exact hdue
      | nil =>
          refine .after .write trivial (step_write hphase) ?_
          exact canEnd_polling rfl hdue

/-- A stream that is due comes to its end. -/
theorem canEnd (hdue : Due s) : CanEnd o q s := by
  unfold Due at hdue
  cases hphase : s.phase with
  | polling =>
      rw [hphase] at hdue
      exact canEnd_polling hphase hdue
  | writing finished pending =>
      rw [hphase] at hdue
      rcases hdue with hlast | hdue
      · exact canEnd_last (hphase.trans
          (congrArg (Phase.writing · pending) hlast))
      · exact canEnd_writing hphase hdue
  | failing error =>
      rw [hphase] at hdue
      exact canEnd_failing hphase hdue
  | ended => exact .here hphase
  | waiting =>
      rw [hphase] at hdue
      exact hdue.elim
  | answered response =>
      rw [hphase] at hdue
      exact hdue.elim
  | broken =>
      rw [hphase] at hdue
      exact hdue.elim

/-- After any steps of any threads: a stream that has ended is as it should be,
and one that is due can be ended. The first half is about every schedule of the
callbacks, the writer and the client; the second keeps it from being empty. -/
theorem stream_agrees {as : List Action} (hreach : Reaches o q as s) :
    (s.phase = .ended → Ended o q s) ∧ (Due s → CanEnd o q s) :=
  ⟨ended_of_flow (reaches_flow hreach), canEnd⟩

/-- A result of two deltas, and its events. -/
def greeting : GenerationResult :=
  ⟨[], [], qs "ab", .Stop, {}, .None, [], [], []⟩

def greetingEvents : List StreamEvent :=
  [.started [] [], .delta [] [] (qs "a"), .delta [] [] (qs "b"),
    .finished [] [] greeting]

/-- The second delta arrives while the first is written. -/
def greetingStream : List Action :=
  [.event (.started [] []), .event (.delta [] [] (qs "a")), .proceed, .take,
    .event (.delta [] [] (qs "b")), .write, .write, .write,
    .event (.finished [] [] greeting), .take, .write, .write, .write]

def roomy : CompletionOptions :=
  ⟨⟨fun _ => 20, 1000, by decide⟩, List.length, List.length⟩

/-- The same request, streamed and not. -/
def asked (stream : Bool) : Completion := ⟨qs "m", stream, stream, 0⟩

theorem stream_agrees_greeting : ∃ s t : CompletionStream,
    Reaches roomy (asked true) greetingStream s
      ∧ Reaches roomy (asked false) (greetingEvents.map .event ++ [.proceed]) t
      ∧ s.body.length = 6 ∧ Ended roomy (asked true) s
      ∧ t.phase = .answered (.ok ((asked false).answer greeting))
      ∧ (collect s.body).text
        = (read ((asked false).answer greeting)).text := by
  obtain ⟨t, ht, hanswered, hanswer⟩ : ∃ t : CompletionStream,
      Reaches roomy (asked false) (greetingEvents.map .event ++ [.proceed]) t
        ∧ t.phase = .answered (.ok ((asked false).answer greeting))
        ∧ t.delivered = greetingEvents := ⟨_, rfl, rfl, rfl⟩
  obtain ⟨s, hs, hphase, hclear, hfits, hsuccess, hstream, hlength⟩ :
      ∃ s : CompletionStream, Reaches roomy (asked true) greetingStream s
        ∧ s.phase = .ended ∧ s.interrupted = false ∧ s.overflow = false
        ∧ s.result.errorCode = .None ∧ s.delivered = greetingEvents
        ∧ s.body.length = 6 := ⟨_, rfl, rfl, rfl, rfl, rfl, rfl, rfl⟩
  have hended := (stream_agrees hs).1 hphase
  have hread := (hended.agrees hclear hfits hsuccess roomy
    (asked false) _ t _ ht
    hanswered (hanswer.trans hstream.symm)).1
  exact ⟨s, t, hs, ht, hlength, hended, hanswered,
    congrArg Collected.text hread⟩

end CompletionStream

end LocalLLM
