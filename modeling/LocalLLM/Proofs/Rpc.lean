/-
A streamed RPC response is complete and ordered, under any interleaving.

# What carries it

Whatever the threads do, the frames written, the frames taken and the
frames queued, one after the other, begin the response that is owed: the
accepted frame and then the events in the order of their delivery
(`Flow.begins`). Until an event is refused for its size, they are all of it
(`Flow.exact`). The provider looks at the result before it takes the
frames, and no event comes after the result, so when it has seen the result
and taken the frames there is nothing left in the queue (`Flow.last`).
-/
import LocalLLM.Service.HttpApiServer

namespace LocalLLM.RpcStream

open Rpc

variable {h : HttpOptions} {e : Envelope} {s s' : RpcStream}

-- ================================================================== the steps

/-- What one step can do. -/
inductive Step (h : HttpOptions) (e : Envelope) (s : RpcStream) :
    Action → RpcStream → Prop
  | late (event : JsonObject) : s.result = none → s.abandoned = true →
      Step h e s (.event event) { s with delivered := s.delivered ++ [event] }
  | refuse (event : JsonObject) : s.result = none → s.abandoned = false →
      Step h e s (.event event) { s with
        overflow := true
        delivered := s.delivered ++ [event] }
  | queue (event : JsonObject) : s.result = none → s.abandoned = false →
      s.overflow = false →
      Step h e s (.event event) { s with
        buffered := s.buffered + h.frameSize (e.event event)
        frames := s.frames ++ [e.event event]
        delivered := s.delivered ++ [event] }
  | complete (outcome : Outcome) : s.result = none →
      Step h e s (.complete outcome) { s with result := some outcome }
  | accept : s.phase = .dispatching → Step h e s .accept (accept h e s)
  | interrupt (why : Interruption) : s.phase = .waiting →
      Step h e s (.interrupt why) { s with
        phase := .failing why.error
        interrupted := true }
  | look : s.phase = .waiting →
      Step h e s .look { s with phase := .looked s.result }
  | takeNone (ready : Option Outcome) : s.phase = .looked ready →
      s.overflow = true →
      Step h e s .take { s with phase := .failing overflowed }
  | takeAll (ready : Option Outcome) : s.phase = .looked ready →
      s.overflow = false →
      Step h e s .take { s with
        frames := []
        buffered := 0
        phase := .writing ready s.frames }
  | write (ready : Option Outcome) (frame : SseFrame)
      (pending : List SseFrame) :
      s.phase = .writing ready (frame :: pending) →
      Step h e s .write { s with
        body := s.body ++ [frame]
        phase := .writing ready pending }
  | rest : s.phase = .writing none [] →
      Step h e s .write { s with phase := .waiting }
  | succeed (outcome : Outcome) (value : Json) :
      s.phase = .writing (some outcome) [] → finish h e outcome = .ok value →
      Step h e s .write { s with
        body := s.body ++ e.succeeded value
        phase := .ended }
  | fail (outcome : Outcome) (error : Error) :
      s.phase = .writing (some outcome) [] →
      finish h e outcome = .error error →
      Step h e s .write { s with phase := .failing error }
  | lose (a : Action) : (∃ ready pending, s.phase = .writing ready pending)
      ∨ (∃ error, s.phase = .failing error) → a = .sinkFails ∨ a = .giveUp →
      Step h e s a { s with phase := .broken }
  | report (error : Error) : s.phase = .failing error →
      Step h e s .report (report e error s)
  | release : s.phase = .ended ∨ s.phase = .broken →
      Step h e s .release (release s)

/-- Every step is one of these, for the thread that writes and for the
callbacks that fill its queue. -/
theorem step_cases {a : Action} (hstep : step h e s a = some s') :
    Step h e s a s' := by
  cases a with
  | event event =>
      dsimp only [step] at hstep
      split at hstep
      next hnone =>
        have hresult : s.result = none := Option.isNone_iff_eq_none.1 hnone
        cases hstep
        unfold onEvent
        by_cases habandoned : s.abandoned = true
        · rw [if_pos habandoned]
          exact .late event hresult habandoned
        · rw [if_neg habandoned]
          have habandoned := Bool.eq_false_iff.2 habandoned
          split
          next => exact .refuse event hresult habandoned
          next hfits =>
            rw [not_or] at hfits
            exact .queue event hresult habandoned (Bool.eq_false_iff.2 hfits.1)
      next => cases hstep
  | complete outcome =>
      dsimp only [step] at hstep
      split at hstep
      next hnone =>
        cases hstep
        exact .complete outcome (Option.isNone_iff_eq_none.1 hnone)
      next => cases hstep
  | accept =>
      dsimp only [step] at hstep
      split at hstep
      next hphase =>
        cases hstep
        exact .accept hphase
      next => cases hstep
  | interrupt why =>
      dsimp only [step] at hstep
      split at hstep
      next hphase =>
        cases hstep
        exact .interrupt why hphase
      next => cases hstep
  | look =>
      dsimp only [step] at hstep
      split at hstep
      next hphase =>
        cases hstep
        exact .look hphase
      next => cases hstep
  | take =>
      dsimp only [step] at hstep
      split at hstep
      next ready hphase =>
        cases hstep
        unfold take
        by_cases hoverflow : s.overflow = true
        · rw [if_pos hoverflow]
          exact .takeNone ready hphase hoverflow
        · rw [if_neg hoverflow]
          exact .takeAll ready hphase (Bool.eq_false_iff.2 hoverflow)
      next => cases hstep
  | write =>
      dsimp only [step] at hstep
      split at hstep
      next ready pending hphase =>
        cases hstep
        cases pending with
        | cons frame pending => exact .write ready frame pending hphase
        | nil =>
            cases ready with
            | none => exact .rest hphase
            | some outcome =>
                unfold write
                dsimp only
                cases hfinish : finish h e outcome with
                | ok value => exact .succeed outcome value hphase hfinish
                | error error => exact .fail outcome error hphase hfinish
      next => cases hstep
  | sinkFails =>
      dsimp only [step] at hstep
      split at hstep
      next hphase =>
        cases hstep
        exact .lose _ (Or.inl ⟨_, _, hphase⟩) (Or.inl rfl)
      next hphase =>
        cases hstep
        exact .lose _ (Or.inr ⟨_, hphase⟩) (Or.inl rfl)
      next => cases hstep
  | report =>
      dsimp only [step] at hstep
      split at hstep
      next error hphase =>
        cases hstep
        exact .report error hphase
      next => cases hstep
  | giveUp =>
      dsimp only [step] at hstep
      split at hstep
      next hphase =>
        cases hstep
        exact .lose _ (Or.inr ⟨_, hphase⟩) (Or.inr rfl)
      next => cases hstep
  | release =>
      dsimp only [step] at hstep
      split at hstep
      next hphase =>
        cases hstep
        exact .release (Or.inl hphase)
      next hphase =>
        cases hstep
        exact .release (Or.inr hphase)
      next => cases hstep

-- ================================================================= the frames

/-- The frames a response owes: accepted, and the events in order. -/
def owed (e : Envelope) (s : RpcStream) : List SseFrame :=
  e.accepted :: s.delivered.map e.event

/-- The frames written, those taken, and those queued. -/
def underway (s : RpcStream) (pending : List SseFrame) : List SseFrame :=
  s.body ++ pending ++ s.frames

/-- The response is being written, with these frames taken. -/
structure Live (e : Envelope) (s : RpcStream) (pending : List SseFrame) :
    Prop where
  kept : s.abandoned = false
  begins : underway s pending <+: owed e s
  exact : s.overflow = false → underway s pending = owed e s

/-- Why a response fails, with these frames written before. -/
inductive Reason (h : HttpOptions) (e : Envelope) (s : RpcStream)
    (before : List SseFrame) : Error → Prop
  | interrupted (why : Interruption) : s.interrupted = true →
      before <+: owed e s → Reason h e s before why.error
  | overflow : s.overflow = true → before <+: owed e s →
      Reason h e s before overflowed
  | result (outcome : Outcome) (error : Error) : s.result = some outcome →
      s.overflow = false → finish h e outcome = .error error →
      before = owed e s → Reason h e s before error

/-- A response that has ended well. -/
structure Succeeded (h : HttpOptions) (e : Envelope) (s : RpcStream) :
    Prop where
  result : ∃ outcome value, s.result = some outcome
    ∧ finish h e outcome = .ok value ∧ s.body = owed e s ++ e.succeeded value
  fits : s.overflow = false

/-- A response that has ended with an error. -/
def Failed (h : HttpOptions) (e : Envelope) (s : RpcStream) : Prop :=
  ∃ before error, s.body = before ++ e.failed error ∧ Reason h e s before error

/-- Before the accepted frame: only events are queued. -/
structure Early (e : Envelope) (s : RpcStream) : Prop where
  kept : s.abandoned = false
  body : s.body = []
  begins : s.frames <+: s.delivered.map e.event
  exact : s.overflow = false → s.frames = s.delivered.map e.event

/-- Where the frames are, by phase. -/
def Flow (h : HttpOptions) (e : Envelope) (s : RpcStream) : Prop :=
  match s.phase with
  | .dispatching => Early e s
  | .waiting => Live e s []
  | .looked ready => Live e s [] ∧ (ready = none ∨ ready = s.result)
  | .writing none pending => Live e s pending
  | .writing (some outcome) pending => Live e s pending
      ∧ s.result = some outcome ∧ s.overflow = false ∧ s.frames = []
  | .failing error => Reason h e s s.body error
  | .ended => Succeeded h e s ∨ Failed h e s
  | .broken => True

/-- The counter is the size of the queued frames. -/
def Counted (h : HttpOptions) (s : RpcStream) : Prop :=
  s.buffered = h.framesSize s.frames

/-- An event adds one frame to what the response owes. -/
theorem owed_event (event : JsonObject) :
    owed e { s with delivered := s.delivered ++ [event] }
      = owed e s ++ [e.event event] := by
  unfold owed
  rw [List.map_append, List.cons_append]
  rfl

/-- An event that comes too late, or is refused for its size. -/
theorem Live.refuse {pending : List SseFrame} (hlive : Live e s pending)
    (event : JsonObject) :
    Live e { s with
      overflow := true
      delivered := s.delivered ++ [event] } pending where
  kept := hlive.kept
  begins := by
    show underway s pending <+: owed e { s with delivered := _ }
    rw [owed_event]
    exact hlive.begins.trans (List.prefix_append _ _)
  exact := fun hoverflow => nomatch hoverflow

/-- An event that is queued. -/
theorem Live.queue {pending : List SseFrame} (hlive : Live e s pending)
    (event : JsonObject) (hoverflow : s.overflow = false) (buffered : Int) :
    Live e { s with
      buffered
      frames := s.frames ++ [e.event event]
      delivered := s.delivered ++ [event] } pending := by
  have hexact : s.body ++ pending ++ (s.frames ++ [e.event event])
      = owed e { s with delivered := s.delivered ++ [event] } := by
    rw [owed_event, ← hlive.exact hoverflow, ← List.append_assoc]
    rfl
  refine ⟨hlive.kept, ?_, fun _ => hexact⟩
  show s.body ++ pending ++ (s.frames ++ [e.event event])
    <+: owed e { s with delivered := _ }
  rw [hexact]

/-- A reason stays one, whatever the threads do. -/
theorem Reason.mono {before : List SseFrame} {error : Error}
    (hreason : Reason h e s before error)
    (hinterrupted : s.interrupted = true → s'.interrupted = true)
    (hoverflow : s.overflow = true → s'.overflow = true)
    (howed : owed e s <+: owed e s')
    (hresult : ∀ outcome, s.result = some outcome →
      s'.result = some outcome ∧ s'.overflow = s.overflow
        ∧ owed e s' = owed e s) :
    Reason h e s' before error := by
  cases hreason with
  | interrupted why hset hbefore =>
      exact .interrupted why (hinterrupted hset) (hbefore.trans howed)
  | overflow hset hbefore =>
      exact .overflow (hoverflow hset) (hbefore.trans howed)
  | result outcome error hout hfits hfinish hbefore =>
      obtain ⟨hout', hfits', howed'⟩ := hresult outcome hout
      exact .result outcome error hout' (hfits'.trans hfits) hfinish
        (hbefore.trans howed'.symm)

/-- What a thread does outside the provider while the result is not ready:
an event. -/
theorem Reason.event {before : List SseFrame} {error : Error}
    (hreason : Reason h e s before error) (hnone : s.result = none)
    {event : JsonObject} {t : RpcStream}
    (hinterrupted : t.interrupted = s.interrupted)
    (hoverflow : s.overflow = true → t.overflow = true)
    (hdelivered : t.delivered = s.delivered ++ [event]) :
    Reason h e t before error := by
  apply hreason.mono (fun hset => hinterrupted.trans hset) hoverflow
  · unfold owed
    rw [hdelivered, List.map_append, ← List.cons_append]
    exact List.prefix_append _ _
  · intro outcome hout
    rw [hnone] at hout
    cases hout

/-- What other threads do changes the phase nowhere, and they do nothing once
the result is ready. -/
theorem flow_outside {t : RpcStream} (hflow : Flow h e s)
    (hnone : s.result = none) (hphase : t.phase = s.phase)
    (hbody : t.body = s.body) (hearly : Early e s → Early e t)
    (hlive : ∀ pending, Live e s pending → Live e t pending)
    (hreason : ∀ before error, Reason h e s before error →
      Reason h e t before error) : Flow h e t := by
  unfold Flow at hflow ⊢
  rw [hphase]
  cases hs : s.phase with
  | dispatching =>
      rw [hs] at hflow
      exact hearly hflow
  | waiting =>
      rw [hs] at hflow
      exact hlive _ hflow
  | looked ready =>
      rw [hs] at hflow
      refine ⟨hlive _ hflow.1, Or.inl ?_⟩
      cases hflow.2 with
      | inl hready => exact hready
      | inr hready => exact hready.trans hnone
  | writing ready pending =>
      rw [hs] at hflow
      cases ready with
      | none => exact hlive _ hflow
      | some outcome =>
          have hready := hflow.2.1
          rw [hnone] at hready
          cases hready
  | failing error =>
      rw [hs] at hflow
      dsimp only at hflow ⊢
      rw [hbody]
      exact hreason _ _ hflow
  | ended =>
      rw [hs] at hflow
      cases hflow with
      | inl hsucceeded =>
          obtain ⟨outcome, _, hready, _⟩ := hsucceeded.result
          rw [hnone] at hready
          cases hready
      | inr hfailed =>
          obtain ⟨before, error, hend, hfailed⟩ := hfailed
          exact Or.inr ⟨before, error, hbody.trans hend, hreason _ _ hfailed⟩
  | broken => trivial

/-- Before the accepted frame an event is queued, or refused for its size. -/
theorem Early.refuse (hearly : Early e s) (event : JsonObject) :
    Early e { s with
      overflow := true
      delivered := s.delivered ++ [event] } where
  kept := hearly.kept
  body := hearly.body
  begins := by
    show s.frames <+: (s.delivered ++ [event]).map e.event
    rw [List.map_append]
    exact hearly.begins.trans (List.prefix_append _ _)
  exact := fun hoverflow => nomatch hoverflow

/-- Queueing an event keeps the response early, as long as the buffer has not
overflowed. -/
theorem Early.queue (hearly : Early e s) (event : JsonObject)
    (hoverflow : s.overflow = false) (buffered : Int) :
    Early e { s with
      buffered
      frames := s.frames ++ [e.event event]
      delivered := s.delivered ++ [event] } := by
  have hexact : s.frames ++ [e.event event]
      = (s.delivered ++ [event]).map e.event := by
    rw [List.map_append, hearly.exact hoverflow]
    rfl
  exact ⟨hearly.kept, hearly.body, hexact ▸ List.prefix_refl _,
    fun _ => hexact⟩

/-- The accepted frame goes before what has arrived. -/
theorem Early.accept (hearly : Early e s) : Live e (accept h e s) [] where
  kept := hearly.kept
  begins := by
    show s.body ++ [] ++ e.accepted :: s.frames
      <+: e.accepted :: s.delivered.map e.event
    rw [hearly.body]
    exact (List.prefix_cons_inj _).2 hearly.begins
  exact := by
    intro hoverflow
    have hfits : s.overflow = false := (Bool.or_eq_false_iff.1 hoverflow).1
    show s.body ++ [] ++ e.accepted :: s.frames
      = e.accepted :: s.delivered.map e.event
    rw [hearly.body, hearly.exact hfits]
    rfl

/-- A response that is kept is live in no phase once it is abandoned. -/
theorem flow_late (event : JsonObject) (hflow : Flow h e s)
    (hnone : s.result = none) (habandoned : s.abandoned = true) :
    Flow h e { s with delivered := s.delivered ++ [event] } := by
  have hnot : s.abandoned ≠ false := by
    rw [habandoned]
    exact Bool.noConfusion
  exact flow_outside hflow hnone rfl rfl
    (fun hearly => absurd hearly.kept hnot)
    (fun _ hlive => absurd hlive.kept hnot)
    (fun _ _ hreason => hreason.event hnone rfl id rfl)

/-- The result becomes ready: nothing else changes. -/
theorem flow_complete (outcome : Outcome) (hflow : Flow h e s)
    (hnone : s.result = none) :
    Flow h e { s with result := some outcome } := by
  refine flow_outside hflow hnone rfl rfl
    (fun hearly => ⟨hearly.kept, hearly.body, hearly.begins, hearly.exact⟩)
    (fun _ hlive => ⟨hlive.kept, hlive.begins, hlive.exact⟩)
    (fun before error hreason => ?_)
  refine hreason.mono (fun hset => hset) (fun hset => hset)
    (List.prefix_refl _) (fun outcome hready => ?_)
  rw [hnone] at hready
  cases hready

-- =============================================================== the provider

/-- One step keeps the frames where they belong: what was delivered is owed,
and what was written is the beginning of what is owed. -/
theorem flow_step {a : Action} (hflow : Flow h e s) (hstep : Step h e s a s') :
    Flow h e s' := by
  cases hstep with
  | late event hnone habandoned => exact flow_late event hflow hnone habandoned
  | refuse event hnone _ =>
      exact flow_outside hflow hnone rfl rfl
        (fun hearly => hearly.refuse event)
        (fun _ hlive => hlive.refuse event)
        (fun _ _ hreason => hreason.event hnone rfl (fun _ => rfl) rfl)
  | queue event hnone _ hoverflow =>
      exact flow_outside hflow hnone rfl rfl
        (fun hearly => hearly.queue event hoverflow _)
        (fun _ hlive => hlive.queue event hoverflow _)
        (fun _ _ hreason => hreason.event hnone rfl id rfl)
  | complete outcome hnone => exact flow_complete outcome hflow hnone
  | accept hphase =>
      unfold Flow at hflow
      rw [hphase] at hflow
      exact hflow.accept
  | interrupt why hphase =>
      unfold Flow at hflow
      rw [hphase] at hflow
      refine .interrupted why rfl (List.IsPrefix.trans ?_ hflow.begins)
      exact (List.prefix_append _ _).trans (List.prefix_append _ _)
  | look hphase =>
      unfold Flow at hflow
      rw [hphase] at hflow
      exact ⟨⟨hflow.kept, hflow.begins, hflow.exact⟩, Or.inr rfl⟩
  | takeNone ready hphase hoverflow =>
      unfold Flow at hflow
      rw [hphase] at hflow
      refine .overflow hoverflow (List.IsPrefix.trans ?_ hflow.1.begins)
      exact (List.prefix_append _ _).trans (List.prefix_append _ _)
  | takeAll ready hphase hoverflow =>
      unfold Flow at hflow
      rw [hphase] at hflow
      obtain ⟨hlive, hready⟩ := hflow
      have hall : s.body ++ s.frames ++ [] = owed e s := by
        rw [List.append_nil, ← hlive.exact hoverflow]
        unfold underway
        rw [List.append_nil]
      have htaken : Live e { s with
          frames := []
          buffered := 0
          phase := .writing ready s.frames } s.frames :=
        ⟨hlive.kept, hall ▸ List.prefix_refl _, fun _ => hall⟩
      cases ready with
      | none => exact htaken
      | some outcome =>
          refine ⟨htaken, ?_, hoverflow, rfl⟩
          cases hready with
          | inl hready => cases hready
          | inr hready => exact hready.symm
  | write ready frame pending hphase =>
      unfold Flow at hflow
      rw [hphase] at hflow
      have hshift : s.body ++ [frame] ++ pending ++ s.frames
          = s.body ++ frame :: pending ++ s.frames := by
        rw [List.append_assoc s.body, List.singleton_append]
      have hwritten : Live e s (frame :: pending) → Live e { s with
          body := s.body ++ [frame]
          phase := .writing ready pending } pending := by
        intro hlive
        refine ⟨hlive.kept, ?_, fun hoverflow =>
          hshift.trans (hlive.exact hoverflow)⟩
        show s.body ++ [frame] ++ pending ++ s.frames <+: owed e s
        rw [hshift]
        exact hlive.begins
      cases ready with
      | none => exact hwritten hflow
      | some outcome => exact ⟨hwritten hflow.1, hflow.2⟩
  | rest hphase =>
      unfold Flow at hflow
      rw [hphase] at hflow
      exact ⟨hflow.kept, hflow.begins, hflow.exact⟩
  | succeed outcome value hphase hfinish =>
      unfold Flow at hflow
      rw [hphase] at hflow
      obtain ⟨hlive, hresult, hoverflow, hframes⟩ := hflow
      refine Or.inl ⟨⟨outcome, value, hresult, hfinish, ?_⟩, hoverflow⟩
      have hexact := hlive.exact hoverflow
      unfold underway at hexact
      rw [hframes, List.append_nil, List.append_nil] at hexact
      exact congrArg (· ++ e.succeeded value) hexact
  | fail outcome error hphase hfinish =>
      unfold Flow at hflow
      rw [hphase] at hflow
      obtain ⟨hlive, hresult, hoverflow, hframes⟩ := hflow
      refine .result outcome error hresult hoverflow hfinish ?_
      have hexact := hlive.exact hoverflow
      unfold underway at hexact
      rw [hframes, List.append_nil, List.append_nil] at hexact
      exact hexact
  | lose => trivial
  | report error hphase =>
      unfold Flow at hflow
      rw [hphase] at hflow
      refine Or.inr ⟨s.body, error, rfl, ?_⟩
      exact Reason.mono hflow (fun hset => hset) (fun hset => hset)
        (List.prefix_refl _) (fun _ hready => ⟨hready, rfl, rfl⟩)
  | release hphase =>
      have hsame : (release s).phase = s.phase := rfl
      unfold Flow at hflow ⊢
      rw [hsame]
      cases hphase with
      | inl hended =>
          rw [hended] at hflow ⊢
          cases hflow with
          | inl hsucceeded =>
              exact Or.inl ⟨hsucceeded.result, hsucceeded.fits⟩
          | inr hfailed =>
              obtain ⟨before, error, hend, hreason⟩ := hfailed
              refine Or.inr ⟨before, error, hend, ?_⟩
              exact hreason.mono (fun hset => hset) (fun hset => hset)
                (List.prefix_refl _) (fun _ hready => ⟨hready, rfl, rfl⟩)
      | inr hbroken =>
          rw [hbroken]
          trivial

-- ======================================================================= runs

/-- What holds of a response at any time. -/
structure Sound (h : HttpOptions) (e : Envelope) (s : RpcStream) : Prop where
  counted : Counted h s
  flow : Flow h e s

/-- The state after any steps of any threads. -/
abbrev Reaches (h : HttpOptions) (e : Envelope) (as : List Action)
    (s : RpcStream) : Prop :=
  System.run (step h e) {} as = some s

/-- Once a response has ended, it stays as it is. -/
theorem ended_step {a : Action} (hended : s.phase = .ended)
    (hstep : Step h e s a s') : s'.phase = .ended ∧ s'.body = s.body := by
  have hnot : ∀ phase, s.phase = phase → phase = .ended := by
    intro phase hphase
    rw [← hphase]
    exact hended
  cases hstep with
  | late => exact ⟨hended, rfl⟩
  | refuse => exact ⟨hended, rfl⟩
  | queue => exact ⟨hended, rfl⟩
  | complete => exact ⟨hended, rfl⟩
  | release => exact ⟨hended, rfl⟩
  | accept hphase => cases hnot _ hphase
  | interrupt why hphase => cases hnot _ hphase
  | look hphase => cases hnot _ hphase
  | takeNone ready hphase _ => cases hnot _ hphase
  | takeAll ready hphase _ => cases hnot _ hphase
  | write ready frame pending hphase => cases hnot _ hphase
  | rest hphase => cases hnot _ hphase
  | succeed outcome value hphase _ => cases hnot _ hphase
  | fail outcome error hphase _ => cases hnot _ hphase
  | report error hphase => cases hnot _ hphase
  | lose a hphase _ =>
      cases hphase with
      | inl hwriting =>
          obtain ⟨_, _, hphase⟩ := hwriting
          cases hnot _ hphase
      | inr hfailing =>
          obtain ⟨_, hphase⟩ := hfailing
          cases hnot _ hphase

/-- Nothing is written once the response has ended. -/
theorem ended_stays (as : List Action) (hended : s.phase = .ended)
    (hrun : System.run (step h e) s as = some s') :
    s'.phase = .ended ∧ s'.body = s.body := by
  refine System.run_invariant (I := fun t : RpcStream =>
    t.phase = .ended ∧ t.body = s.body) ?_ as ⟨hended, rfl⟩ hrun
  intro t a t' ht hstep
  obtain ⟨hphase, hbody⟩ := ended_step ht.1 (step_cases hstep)
  exact ⟨hphase, hbody.trans ht.2⟩

-- ============================================================== getting there

/-- What the handler and its provider do while nothing comes in between. -/
def Forward : Action → Prop
  | .accept | .look | .take | .write | .report => True
  | _ => False

/-- The handler and its provider end the response by themselves from here. -/
def CanEnd (h : HttpOptions) (e : Envelope) (s : RpcStream) : Prop :=
  System.Leads (step h e) Forward (fun t : RpcStream => t.phase = .ended) s

/-- A response that fails writes the error and ends. -/
theorem canEnd_failing {error : Error} (hphase : s.phase = .failing error) :
    CanEnd h e s := by
  have hstep : step h e s .report = some (report e error s) := by
    dsimp only [step]
    rw [hphase]
  exact .after .report trivial hstep (.here rfl)

/-- One write leads on. -/
theorem step_write {ready : Option Outcome} {pending : List SseFrame}
    (hphase : s.phase = .writing ready pending) :
    step h e s .write = some (write h e ready s pending) := by
  dsimp only [step]
  rw [hphase]

/-- With the result seen, the frames taken and then the last ones
are written. -/
theorem canEnd_ready {outcome : Outcome} {pending : List SseFrame}
    (hphase : s.phase = .writing (some outcome) pending) : CanEnd h e s := by
  induction pending generalizing s with
  | cons frame pending ih =>
      refine System.Leads.after .write trivial (step_write hphase) (ih ?_)
      rfl
  | nil =>
      refine System.Leads.after .write trivial (step_write hphase) ?_
      dsimp only [write]
      cases finish h e outcome with
      | ok value => exact .here rfl
      | error error => exact canEnd_failing rfl

/-- Once a look has found a result or an overflow, the next step ends the
response. -/
theorem canEnd_looked {ready : Option Outcome}
    (hphase : s.phase = .looked ready)
    (hend : ready.isSome ∨ s.overflow = true) : CanEnd h e s := by
  have hstep : step h e s .take = some (take ready s) := by
    dsimp only [step]
    rw [hphase]
  refine System.Leads.after .take trivial hstep ?_
  unfold take
  split
  next => exact canEnd_failing rfl
  next hfits =>
      obtain ⟨outcome, rfl⟩ := Option.isSome_iff_exists.1
        (hend.resolve_right hfits)
      exact canEnd_ready rfl

/-- The result is ready, or an event did not fit. -/
def Due (s : RpcStream) : Prop := s.result.isSome ∨ s.overflow = true

/-- A response that waits and is due looks first, and then ends. -/
theorem canEnd_waiting (hphase : s.phase = .waiting) (hdue : Due s) :
    CanEnd h e s := by
  have hstep : step h e s .look
      = some { s with phase := .looked s.result } := by
    dsimp only [step]
    rw [hphase]
  exact System.Leads.after .look trivial hstep (canEnd_looked rfl hdue)

/-- What has been taken before is written, and then the result is looked at. -/
theorem canEnd_writing {pending : List SseFrame}
    (hphase : s.phase = .writing none pending) (hdue : Due s) :
    CanEnd h e s := by
  induction pending generalizing s with
  | cons frame pending ih =>
      refine System.Leads.after .write trivial (step_write hphase) (ih ?_ ?_)
      · rfl
      · exact hdue
  | nil =>
      refine System.Leads.after .write trivial (step_write hphase) ?_
      exact canEnd_waiting rfl hdue

/-- A response that is due and not lost comes to its end. -/
theorem canEnd (hdue : Due s) (hbroken : s.phase ≠ .broken) :
    CanEnd h e s := by
  cases hphase : s.phase with
  | dispatching =>
      have hstep : step h e s .accept = some (accept h e s) := by
        dsimp only [step]
        rw [hphase]
      refine System.Leads.after .accept trivial hstep (canEnd_waiting rfl ?_)
      exact hdue.imp id fun hoverflow => Bool.or_eq_true_iff.2
        (Or.inl hoverflow)
  | waiting => exact canEnd_waiting hphase hdue
  | looked ready =>
      have hstep : step h e s .take = some (take ready s) := by
        dsimp only [step]
        rw [hphase]
      refine System.Leads.after .take trivial hstep ?_
      unfold take
      split
      next => exact canEnd_failing rfl
      next =>
          cases ready with
          | some outcome => exact canEnd_ready rfl
          | none => exact canEnd_writing rfl hdue
  | writing ready pending =>
      cases ready with
      | some outcome => exact canEnd_ready hphase
      | none => exact canEnd_writing hphase hdue
  | failing error => exact canEnd_failing hphase
  | ended => exact .here hphase
  | broken => exact absurd hphase hbroken

-- =============================================================== the response

/-- A frame whose event is `done`. -/
def isDone : SseFrame → Bool
  | .data value => Json.lookup value (qs "event") == some (.string (qs "done"))
  | .done => false

/-- No frame that is owed looks like one of the last two. -/
theorem owed_not_last {frame : SseFrame} (hmem : frame ∈ owed e s) :
    isDone frame = false ∧ frame ≠ .done := by
  cases List.mem_cons.1 hmem with
  | inl haccepted =>
      subst haccepted
      refine ⟨?_, fun hframe => nomatch hframe⟩
      unfold Envelope.accepted isDone
      dsimp only
      rw [Json.lookup_insert_self]
      decide +kernel
  | inr hevent =>
      obtain ⟨event, _, hframe⟩ := List.mem_map.1 hevent
      subst hframe
      refine ⟨?_, fun hframe => nomatch hframe⟩
      unfold Envelope.event isDone Json.ofMembers
      dsimp only [List.foldl]
      rw [Json.lookup_insert_ne _ _ (by decide), Json.lookup_insert_self]
      decide +kernel

/-- The last frames of a response are its done frame and `[DONE]`. -/
theorem succeeded_last (value : Json) :
    ∃ last, e.succeeded value = [.data last, .done] ∧ isDone (.data last) := by
  refine ⟨_, rfl, ?_⟩
  unfold isDone
  dsimp only
  rw [Json.lookup_insert_self]
  decide +kernel

/-- An error response ends with its error frame and the end mark, once each. -/
theorem failed_last (error : Error) :
    ∃ last, e.failed error = [.data last, .done] ∧ isDone (.data last) := by
  refine ⟨_, rfl, ?_⟩
  unfold isDone
  dsimp only
  rw [Json.lookup_insert_ne _ _ (by decide), Json.lookup_insert_self]
  decide +kernel

/-- A response with one done frame and one `[DONE]`, both at its end, after
frames that are owed. -/
structure Closed (e : Envelope) (s : RpcStream) : Prop where
  last : ∃ sent value, s.body = sent ++ [.data value, .done]
    ∧ sent <+: owed e s ∧ isDone (.data value)
  once : s.body.countP isDone = 1 ∧ s.body.count .done = 1

/-- A body that ends with a last frame and the mark is closed, for what stands
before them is only what was owed. -/
theorem closed_of_last {sent : List SseFrame} {value : JsonObject}
    (hbody : s.body = sent ++ [.data value, .done]) (hsent : sent <+: owed e s)
    (hlast : isDone (.data value)) : Closed e s := by
  have hnone : sent.countP isDone = 0 :=
    List.countP_eq_zero.2 fun frame hframe hdone =>
      absurd hdone (Bool.eq_false_iff.1
        (owed_not_last (hsent.subset hframe)).1)
  have hzero : sent.count .done = 0 :=
    List.count_eq_zero.2 fun hmem => (owed_not_last (hsent.subset hmem)).2 rfl
  refine ⟨⟨sent, value, hbody, hsent, hlast⟩, ?_, ?_⟩
  · rw [hbody, List.countP_append, hnone, List.countP_cons, if_pos hlast]
    rfl
  · rw [hbody, List.count_append, hzero]
    rfl

/-- What a response that has ended is made of. -/
structure Complete (h : HttpOptions) (e : Envelope) (s : RpcStream) :
    Prop where
  closed : Closed e s
  /-- Nothing came in between: every event, and then the result,
  or why there is none. -/
  whole : s.interrupted = false → s.overflow = false →
    ∃ outcome, s.result = some outcome ∧ s.body = owed e s ++
      match finish h e outcome with
      | .ok value => e.succeeded value
      | .error error => e.failed error
  /-- The events did not fit. -/
  cut : s.interrupted = false → s.overflow = true →
    ∃ sent, sent <+: owed e s ∧ s.body = sent ++ e.failed overflowed

theorem Succeeded.complete (hsucceeded : Succeeded h e s) :
    Complete h e s := by
  obtain ⟨outcome, value, hresult, hfinish, hbody⟩ := hsucceeded.result
  obtain ⟨last, hlast, hdone⟩ := succeeded_last (e := e) value
  refine ⟨closed_of_last (hbody.trans (congrArg _ hlast)) (List.prefix_refl _)
    hdone, fun _ _ => ⟨outcome, hresult, ?_⟩, fun _ hoverflow => ?_⟩
  · rw [hfinish]
    exact hbody
  · rw [hsucceeded.fits] at hoverflow
    cases hoverflow

/-- What has been written before an error is owed. -/
theorem Reason.begins {before : List SseFrame} {error : Error}
    (hreason : Reason h e s before error) : before <+: owed e s := by
  cases hreason with
  | interrupted why _ hbefore => exact hbefore
  | overflow _ hbefore => exact hbefore
  | result outcome error _ _ _ hbefore => exact hbefore ▸ List.prefix_refl _

theorem Failed.complete (hfailed : Failed h e s) : Complete h e s := by
  obtain ⟨before, error, hbody, hreason⟩ := hfailed
  obtain ⟨last, hlast, hdone⟩ := failed_last (e := e) error
  have hclosed : Closed e s :=
    closed_of_last (hbody.trans (congrArg _ hlast)) hreason.begins hdone
  cases hreason with
  | interrupted why hset =>
      refine ⟨hclosed, fun hnot => ?_, fun hnot => ?_⟩
      all_goals
        rw [hset] at hnot
        cases hnot
  | overflow hset hbefore =>
      refine ⟨hclosed, fun _ hfits => ?_, fun _ _ => ⟨before, hbefore, hbody⟩⟩
      rw [hset] at hfits
      cases hfits
  | result outcome error hresult hfits hfinish hbefore =>
      refine ⟨hclosed, fun _ _ => ⟨outcome, hresult, ?_⟩,
        fun _ hoverflow => ?_⟩
      · rw [hfinish, ← hbefore]
        exact hbody
      · rw [hfits] at hoverflow
        cases hoverflow

end LocalLLM.RpcStream
