/-
A chat or a completion, step by step.

# Before the commit

`Underway` is the invariant of the body of the `try`: the worker's state is
sound under the turn's lease, the sessions are those the turn began with
and perhaps its temporary one (`Opened`), and the text of the result is
what the consumer was told (`Told`). Every step keeps it, and a step that
throws hands it to the handler.

# After it

The commit is the last step of the body, so a turn either has failed with
`Underway` or has reached `Committed`. The rest of the task closes the
temporary session, gives back the lease and sends the last event; none of
that can fail.
-/
import LocalLLM.Proofs.Turns

namespace LocalLLM

open Std ModelManager

variable {c : Config} {env : Env} {callback : Option StreamCallback}
  {completion : Option CompletionRequest}

-- ============================================================== the consumer

/-- What a consumer was told so far is the text of the result. -/
structure Told (callback : Option StreamCallback) (t : Turn) : Prop where
  text : callback.isSome = true →
    t.result.text = t.delivered.flatMap StreamEvent.text
  unheard : callback = none → t.delivered = []
  unfinished : ∀ event ∈ t.delivered, event.isFinished = false

theorem Told.congr {t t' : Turn} (h : Told callback t)
    (htext : t'.result.text = t.result.text)
    (hdelivered : t'.delivered = t.delivered) : Told callback t' :=
  ⟨fun hc => by rw [htext, hdelivered, h.text hc],
    fun hc => by rw [hdelivered, h.unheard hc],
    fun event hev => h.unfinished event (hdelivered ▸ hev)⟩

/-- An event that ends nothing, with the text it adds. The callback may throw
behind it, and has been told all the same. -/
theorem Told.notify {t : Turn} {event : StreamEvent} (text : QString)
    (hold : Told callback { t with result := { t.result with text } })
    (htext : t.result.text = text ++ event.text)
    (hgoes : event.isFinished = false) :
    let after := fun t' : Turn => Framed t t' ∧ Told callback t'
    Exec.wp (Turn.notify callback event) (fun _ => after)
      (fun _ => after) t := by
  have hafter : Framed t (if callback.isSome then
        { t with delivered := t.delivered ++ [event] } else t)
      ∧ Told callback (if callback.isSome then
        { t with delivered := t.delivered ++ [event] } else t) := by
    cases hc : callback with
    | none =>
        refine ⟨Framed.refl t, fun hs => ?_, fun _ => hold.unheard hc,
          hold.unfinished⟩
        cases hs
    | some throwsOn =>
        refine ⟨⟨rfl, rfl, rfl, rfl, rfl, rfl, rfl, rfl⟩, fun _ => ?_,
          fun hn => ?_, fun event' hev => ?_⟩
        · have htold := hold.text (by rw [hc]; rfl)
          simp only [Option.isSome_some, if_true, List.flatMap_append]
          rw [htext]
          simpa using htold
        · cases hn
        · rcases List.mem_append.1 hev with hev | hev
          · exact hold.unfinished event' hev
          · rw [List.mem_singleton.1 hev]
            exact hgoes
  refine Exec.wp_mono (notify_spec callback event t) ?_ ?_
  · rintro _ t' rfl
    exact hafter
  · rintro _ t' rfl
    exact hafter

/-- Text goes into the result and to the consumer. -/
theorem emitText_spec {t : Turn} (h : Told callback t) (text : QString) :
    let after := fun t' : Turn => Framed t t' ∧ Told callback t'
    Exec.wp (emitText callback text) (fun _ => after) (fun _ => after) t := by
  unfold emitText
  by_cases hempty : text = []
  · rw [if_pos hempty]
    exact ⟨Framed.refl t, h⟩
  · rw [if_neg hempty]
    dsimp only
    rw [Exec.wp_bind, Exec.wp_get, Exec.wp_bind, Exec.wp_set]
    let t₁ : Turn :=
      { t with result := { t.result with text := t.result.text ++ text } }
    have hframed : Framed t t₁ := ⟨rfl, rfl, rfl, rfl, rfl, rfl, rfl, rfl⟩
    refine Exec.wp_mono (Told.notify (t := t₁) t.result.text
      (h.congr rfl rfl) rfl rfl) ?_ ?_
    · rintro _ t' ⟨hf, htold⟩
      exact ⟨hframed.trans hf, htold⟩
    · rintro _ t' ⟨hf, htold⟩
      exact ⟨hframed.trans hf, htold⟩

/-- What the runtime calls back with, however often: only the consumer and
the stop filter hear of it. -/
theorem onText_spec {t : Turn} (h : Told callback t) (text : QString) :
    let after := fun t' : Turn => Framed t t' ∧ Told callback t'
    Exec.wp (onText env callback text) (fun _ => after)
      (fun _ => after) t := by
  have hframed : ∀ f : StopFilter,
      Framed t { t with texts := t.texts + 1, stop := f } :=
    fun _ => ⟨rfl, rfl, rfl, rfl, rfl, rfl, rfl, rfl⟩
  unfold onText
  dsimp only
  rw [Exec.wp_bind, Exec.wp_get, Exec.wp_bind, Exec.wp_set,
    Exec.wp_bind, wp_lift]
  refine ⟨fun _ _ => ?_, fun _ _ => ⟨hframed t.stop, h.congr rfl rfl⟩⟩
  rw [Exec.wp_bind, Exec.wp_modify, Exec.wp_bind]
  let t₁ : Turn :=
    { t with texts := t.texts + 1, stop := (t.stop.push text).2 }
  have htold : Told callback t₁ := h.congr rfl rfl
  refine Exec.wp_mono (emitText_spec htold (t.stop.push text).1) ?_ ?_
  · rintro _ t' ⟨hf, htold⟩
    exact ⟨(hframed _).trans hf, htold⟩
  · rintro _ t' ⟨hf, htold⟩
    exact ⟨(hframed _).trans hf, htold⟩

-- =============================================================== the sessions

/-- The sessions of a turn that has committed nothing. -/
inductive Opened (completion : Option CompletionRequest) (t₀ t : Turn) : Prop
  | chat (temporary : t.temporarySession = [])
      (sessions : t.state.sessions = t₀.state.sessions)
      (request : t.request = t₀.request)
  | completion (session : SessionSnapshot) (asked : completion.isSome = true)
      (temporary : t.temporarySession ≠ [])
      (fresh : t₀.state.sessions.sessions[t.temporarySession]? = none)
      (sessions : t.state.sessions.sessions
        = t₀.state.sessions.sessions.insert t.temporarySession session)
      (request : t.request.sessionId = t.temporarySession)

theorem Opened.congr {t₀ t t' : Turn} (h : Opened completion t₀ t)
    (hsessions : t'.state.sessions = t.state.sessions)
    (hrequest : t'.request = t.request)
    (htemporary : t'.temporarySession = t.temporarySession) :
    Opened completion t₀ t' := by
  cases h with
  | chat temporary sessions request =>
      exact .chat (htemporary.trans temporary) (hsessions.trans sessions)
        (hrequest.trans request)
  | completion session asked temporary fresh sessions request =>
      exact .completion session asked (htemporary ▸ temporary)
        (by rw [htemporary]; exact fresh)
        (by rw [hsessions, htemporary]; exact sessions)
        (by rw [hrequest, htemporary]; exact request)

-- ========================================================= the two conditions

/-- The invariant of the body, in a turn that began in `t₀`. -/
structure Underway (c : Config) (callback : Option StreamCallback)
    (completion : Option CompletionRequest) (t₀ t : Turn) : Prop where
  inTurn : InTurn c t₀ t
  opened : Opened completion t₀ t
  told : Told callback t
  unfailed : t.result.errorCode = .None

theorem Underway.framed {t₀ t t' : Turn}
    (h : Underway c callback completion t₀ t)
    (hf : Framed t t') (htold : Told callback t') :
    Underway c callback completion t₀ t' :=
  ⟨h.inTurn.framed hf,
    h.opened.congr (by rw [hf.state]) hf.request hf.temporarySession, htold,
    hf.errorCode.trans h.unfailed⟩

/-- A step of the state that leaves the sessions alone. -/
theorem Underway.stepped {t₀ t : Turn}
    (h : Underway c callback completion t₀ t)
    {s' : State} (hstep : Stepped c (leaseOf t.leasedModel) t.state s')
    (hsessions : s'.sessions = t.state.sessions) :
    Underway c callback completion t₀ { t with state := s' } :=
  ⟨h.inTurn.stepped hstep rfl rfl rfl, h.opened.congr hsessions rfl rfl,
    h.told.congr rfl rfl, h.unfailed⟩

/-- A turn that has committed the prompt and the answer to `session`. -/
structure Committed (c : Config) (env : Env) (callback : Option StreamCallback)
    (completion : Option CompletionRequest) (t₀ t : Turn) : Prop where
  inTurn : InTurn c t₀ t
  told : Told callback t
  unfailed : t.result.errorCode = .None
  finished : t.result.finishReason = .Stop ∨ t.result.finishReason = .Length
  opened : completion.isSome = true → t.temporarySession ≠ []
  turn : ∃ (u : Turn) (session : SessionSnapshot) (model : LoadedModel)
    (prepared : PreparedChat), Opened completion t₀ u
      ∧ t.temporarySession = u.temporarySession ∧ t.request = u.request
      ∧ u.state.sessions.sessions[u.request.sessionId]? = some session
      ∧ session.id = u.request.sessionId
      ∧ PromptEngine.prepare c env session u.request model = .ok prepared
      ∧ t.state.sessions = u.state.sessions.setMessages session
        (prepared.messages ++ [assistantMessage t.result.text])

-- =================================================================== the body

/-- The session and the model a turn works with, once it has its lease. -/
structure Ready (session : SessionSnapshot) (model : LoadedModel) (t : Turn) :
    Prop where
  found : t.state.sessions.sessions[t.request.sessionId]? = some session
  named : session.id = t.request.sessionId
  weights : t.state.models.runtimes.models[model.spec.id]? = some model
  bound : session.modelId = model.spec.id

/-- From the prompt to the commit. The history is written in one step at the
very end, which is why a throw before it leaves no history to undo. -/
theorem generateText_spec (hc : c.Honest) {t₀ t : Turn}
    (h : Underway c callback completion t₀ t) {session : SessionSnapshot}
    {model : LoadedModel} (hready : Ready session model t)
    (hasked : completion.isSome = true → t.temporarySession ≠ []) :
    Exec.wp (generateText c env callback session model)
      (fun _ t' => Committed c env callback completion t₀ t')
      (fun _ t' => Underway c callback completion t₀ t') t := by
  unfold generateText
  dsimp only
  rw [Exec.wp_bind, Exec.wp_get, Exec.wp_bind, wp_lift]
  refine ⟨fun prepared hprepared => ?_, fun _ _ => h⟩
  rw [Exec.wp_bind, Exec.wp_modify, Exec.wp_bind, wp_onState]
  -- the usage is on record, the context is not there yet
  let t₁ : Turn := { t with result := { t.result with usage :=
    { t.result.usage with
      promptTokens := prepared.tokens.length
      droppedMessages := prepared.droppedMessages } } }
  have h₁ : Underway c callback completion t₀ t₁ :=
    h.framed ⟨rfl, rfl, rfl, rfl, rfl, rfl, rfl, rfl⟩ (h.told.congr rfl rfl)
  have hkey : Keyed t.state session.id model.spec.id :=
    Or.inl ⟨session, by rw [hready.named]; exact hready.found, hready.bound⟩
  refine Exec.wp_mono
    (useContext_spec hc h.inTurn.sound hready.weights hkey) ?_ ?_
  case refine_2 =>
    rintro _ s' ⟨hstep, hsessions, -⟩
    exact h₁.stepped hstep hsessions
  rintro context s' ⟨hstep, hsessions, -, -⟩
  have h₂ : Underway c callback completion t₀ { t₁ with state := s' } :=
    h₁.stepped hstep hsessions
  rw [Exec.wp_bind]
  refine Exec.wp_mono (Told.notify (t := { t₁ with state := s' })
    t.result.text (h₂.told.congr rfl rfl) (by simp [StreamEvent.text, t₁])
    rfl) ?_ ?_
  case refine_2 =>
    rintro _ t' ⟨hf, htold⟩
    exact h₂.framed hf htold
  rintro _ t₃ ⟨hf₃, htold₃⟩
  rw [Exec.wp_bind, Exec.wp_modify, Exec.wp_bind]
  -- the runtime only reaches the filter, the result and the consumer
  have hrun := Caller.wp_run (f := onText env callback)
    (I := fun t' => Framed { t₁ with state := s' } t' ∧ Told callback t')
    (fun text t' ⟨hf, htold⟩ => Exec.wp_mono (onText_spec htold text)
      (fun _ t'' ⟨hf', htold'⟩ => ⟨hf.trans hf', htold'⟩)
      (fun _ t'' ⟨hf', htold'⟩ => ⟨hf.trans hf', htold'⟩))
    (context.generate env.probe prepared.tokens t.request.options)
    { t₃ with stop := { stops := t₃.request.options.stop } }
    ⟨hf₃.trans (Framed.of_stop t₃ _), htold₃.congr rfl rfl⟩
  refine Exec.wp_mono hrun ?_ ?_
  case refine_2 =>
    rintro _ t' ⟨hf, htold⟩
    exact h₂.framed hf htold
  rintro generated t₄ ⟨hf₄, htold₄⟩
  have h₄ := h₂.framed hf₄ htold₄
  rw [Exec.wp_bind, wp_lift]
  refine ⟨fun _ _ => ?_, fun _ _ => h₄⟩
  -- what the filter has kept back
  rw [Exec.wp_bind, Exec.wp_get, Exec.wp_bind, Exec.wp_set, Exec.wp_bind]
  have htold₄' : Told callback { t₄ with stop := t₄.stop.finish.2 } :=
    htold₄.congr rfl rfl
  refine Exec.wp_mono (emitText_spec htold₄' t₄.stop.finish.1) ?_ ?_
  case refine_2 =>
    rintro _ t' ⟨hf, htold⟩
    exact h₄.framed ((Framed.of_stop t₄ _).trans hf) htold
  rintro _ u ⟨hf, htold⟩
  have hframed : Framed { t₁ with state := s' } u :=
    hf₄.trans ((Framed.of_stop t₄ _).trans hf)
  have hu : Underway c callback completion t₀ u := h₂.framed hframed htold
  rw [Exec.wp_bind, wp_lift]
  refine ⟨fun _ _ => ?_, fun _ _ => hu⟩
  rw [Exec.wp_bind, wp_lift]
  refine ⟨fun _ hfinish => ?_, fun _ _ => hu⟩
  rw [require_eq_ok] at hfinish
  rw [Exec.wp_bind, Exec.wp_get, Exec.wp_set]
  -- the session is still the one the turn began with
  have hfound : u.state.sessions.sessions[u.request.sessionId]?
      = some session := by
    rw [hframed.state, hframed.request]
    show s'.sessions.sessions[t.request.sessionId]? = _
    rw [hsessions]
    exact hready.found
  have hset := stepped_setMessages hu.inTurn.sound hfound
    (prepared.messages ++ [assistantMessage u.result.text])
  refine ⟨?_, htold.congr rfl rfl, hu.unfailed, ?_, ?_, u, session,
    model, prepared,
    hu.opened, rfl, rfl, hfound, ?_, ?_, rfl⟩
  · by_cases hstopped : u.stop.stopped = true
    · refine hu.inTurn.stepped ?_ rfl rfl rfl
      simp only [if_pos hstopped]
      exact hset.trans (stepped_erase hset.sound session.id)
    · refine hu.inTurn.stepped ?_ rfl rfl rfl
      simp only [if_neg hstopped]
      exact hset
  · by_cases hstopped : u.stop.stopped = true
    · exact Or.inl (if_pos hstopped)
    · exact hfinish.imp (if_neg hstopped).trans (if_neg hstopped).trans
  · intro hsome
    rw [hframed.temporarySession]
    exact hasked hsome
  · rw [hready.named, hframed.request]
  · rw [hframed.request]
    exact hprepared

/-- A temporary session for a completion: the turn now is a chat
of that session. -/
theorem openTemporary_spec (hc : c.Honest) {t₀ t : Turn}
    {asked : CompletionRequest} (h : Underway c callback (some asked) t₀ t)
    (hstart : t.temporarySession = []) :
    Exec.wp (openTemporary c env asked)
      (fun _ t' => Underway c callback (some asked) t₀ t'
        ∧ t'.leasedModel = t.leasedModel ∧ t'.temporarySession ≠ [])
      (fun _ t' => Underway c callback (some asked) t₀ t') t := by
  unfold openTemporary
  dsimp only
  rw [Exec.wp_bind, Exec.wp_get, Exec.wp_bind, wp_lift]
  refine ⟨fun info hinfo => ?_, fun _ _ => h⟩
  rw [Exec.wp_bind, wp_lift]
  refine ⟨fun _ _ => ?_, fun _ _ => h⟩
  rw [Exec.wp_bind, wp_lift]
  refine ⟨fun _ _ => ?_, fun _ _ => h⟩
  rw [Exec.wp_bind, wp_lift]
  refine ⟨fun _ _ => ?_, fun _ _ => h⟩
  rw [Exec.wp_bind, wp_onState]
  refine Exec.wp_mono (newSession_spec hc
    h.inTurn.sound (resolve_valid hinfo) []) ?_ ?_
  case refine_2 =>
    rintro _ s' rfl
    exact h
  rintro id s' ⟨hstep, hid, hnone, -, -, messages, hinsert⟩
  rw [Exec.wp_bind, Exec.wp_modify, Exec.wp_bind, Exec.wp_get, Exec.wp_bind,
    wp_lift]
  -- the session is there: it has just been made
  have hfind : s'.sessions.sessions[id]?
      = some ⟨id, info.manifest.id, messages⟩ := by
    rw [hinsert, Maps.find_insert_self]
  unfold SessionManager.get
  rw [hfind]
  refine ⟨fun temporary htemporary => ?_, fun _ he => nomatch he⟩
  injection htemporary with htemporary
  subst htemporary
  rw [Exec.wp_set]
  have hset := hstep.trans (stepped_setMessages hstep.sound hfind
    asked.messages.dropLast)
  have hold : t₀.state.sessions = t.state.sessions := by
    cases h.opened with
    | chat _ hsess _ => exact hsess.symm
    | completion _ _ htemp _ _ _ => exact absurd hstart htemp
  have hne : id ≠ [] := by
    rw [hid]
    exact hc.uuid_ne_nil _
  refine ⟨⟨h.inTurn.stepped hset rfl rfl rfl, .completion
    ⟨id, info.manifest.id, asked.messages.dropLast⟩ rfl hne
    (by rw [hold]; exact hnone) ?_ rfl, h.told.congr rfl rfl, h.unfailed⟩,
      rfl, hne⟩
  show s'.sessions.sessions.insert id _ = _
  rw [hinsert, Maps.insert_insert, hold]

/-- The whole body of a generation: open, prepare, generate and commit, with
the lease held throughout. -/
theorem generateBody_spec (hc : c.Honest) {t₀ t : Turn}
    (h : Underway c callback completion t₀ t)
    (hstart : t.temporarySession = []) (hlease : t.leasedModel = []) :
    Exec.wp (generateBody c env callback completion)
      (fun _ t' => Committed c env callback completion t₀ t')
      (fun _ t' => Underway c callback completion t₀ t') t := by
  unfold generateBody
  rw [Exec.wp_bind, wp_lift]
  refine ⟨fun _ _ => ?_, fun _ _ => h⟩
  -- a completion is a chat with a session of its own
  have hopen : Exec.wp (openCompletion c env completion)
      (fun _ t' => Underway c callback completion t₀ t' ∧ t'.leasedModel = []
        ∧ (completion.isSome = true → t'.temporarySession ≠ []))
      (fun _ t' => Underway c callback completion t₀ t') t := by
    cases completion with
    | none => exact ⟨h, hlease, fun hsome => nomatch hsome⟩
    | some asked =>
        refine Exec.wp_mono (openTemporary_spec hc h hstart) ?_
          fun _ _ ht => ht
        rintro _ t' ⟨ht, heq, hne⟩
        exact ⟨ht, heq.trans hlease, fun _ => hne⟩
  rw [Exec.wp_bind]
  refine Exec.wp_mono hopen ?_ fun _ _ ht => ht
  rintro _ t₁ ⟨h₁, hlease₁, hasked⟩
  rw [Exec.wp_bind, Exec.wp_get, Exec.wp_bind, wp_lift]
  refine ⟨fun session hget => ?_, fun _ _ => h₁⟩
  have hfound : t₁.state.sessions.sessions[t₁.request.sessionId]?
      = some session := by
    unfold SessionManager.get at hget
    split at hget
    next session' hfind =>
      injection hget with hget
      rw [hfind, hget]
    next => cases hget
  obtain ⟨hname, hvalid, -⟩ := h₁.inTurn.sound.grounded.sessions _ _ hfound
  rw [Exec.wp_bind, wp_onState]
  have hsound := h₁.inTurn.sound
  rw [hlease₁, leaseOf_nil] at hsound
  refine Exec.wp_mono (acquire_spec hsound env session.modelId
    t₁.request.keepAliveMs) ?_ ?_
  case refine_2 =>
    rintro _ s' ⟨hred, -⟩
    have hred' : Reduced c (leaseOf t₁.leasedModel) t₁.state s' := by
      rw [hlease₁, leaseOf_nil]
      exact hred
    exact ⟨h₁.inTurn.reduced hred',
      h₁.opened.congr hred.evolved.sessions rfl rfl,
      h₁.told.congr rfl rfl, h₁.unfailed⟩
  rintro model s' ⟨hsound', hobs, hev, ⟨info, entry, remembered, hres⟩, -⟩
  rw [Exec.wp_bind, Exec.wp_modify]
  refine generateText_spec hc
    ⟨h₁.inTurn.acquired hlease₁ (validId_ne_nil hvalid)
    hsound' hobs hev, h₁.opened.congr hev.sessions rfl rfl,
      h₁.told.congr rfl rfl,
    h₁.unfailed⟩ ⟨?_, hname, ?_, ?_⟩ hasked
  · show s'.sessions.sessions[t₁.request.sessionId]? = _
    rw [hev.sessions]
    exact hfound
  · show s'.models.runtimes.models[model.spec.id]? = _
    rw [hres.matched.spec_id]
    exact hres.hasModel
  · exact hres.matched.spec_id.symm

-- ================================================================= the ending

/-- A generation that succeeded. A failure has another finish reason, even
when the error it reports carries the code `None`. -/
def GenerationResult.succeeded (r : GenerationResult) : Prop :=
  r.errorCode = .None ∧ r.finishReason ≠ .Error

theorem not_succeeded_failure (result : GenerationResult) (error : Error) :
    ¬ (failure result error).succeeded := by
  rintro ⟨hcode, hfinish⟩
  have hnone : error.code = .None := hcode
  refine hfinish ?_
  show (if error.code = .Cancelled then FinishReason.Cancelled else .Error) = _
  rw [hnone]
  rfl

/-- A turn after its handler. -/
structure RolledBack (c : Config) (callback : Option StreamCallback)
    (completion : Option CompletionRequest) (t₀ t : Turn) : Prop where
  inTurn : InTurn c t₀ t
  opened : Opened completion t₀ t
  told : Told callback t
  failed : ¬ t.result.succeeded
  erased : t.state.cache.entries[t.request.sessionId]? = none

/-- The handler. -/
theorem generateFailed_spec {t₀ t : Turn}
    (h : Underway c callback completion t₀ t) (thrown : Exn) :
    ∃ t', generateFailed thrown t = (.ok (), t')
      ∧ RolledBack c callback completion t₀ t' := by
  have hstep := stepped_erase h.inTurn.sound t.request.sessionId
  refine ⟨_, rfl, ?_, ?_, ?_, not_succeeded_failure _ _, ?_⟩
  · exact h.inTurn.stepped hstep rfl rfl rfl
  · exact h.opened.congr rfl rfl rfl
  · exact h.told.congr rfl rfl
  · show (t.state.cache.erase t.request.sessionId).entries[_]? = none
    rw [ContextCacheManager.find_erase, if_pos rfl]

/-- The temporary session of a turn that has one, and nothing else, is on
top of the sessions it began with. -/
def Temporary (t₀ t : Turn) : Prop :=
  t.temporarySession = [] ∨ t.temporarySession ≠ []
    ∧ t₀.state.sessions.sessions[t.temporarySession]? = none
    ∧ ∃ session, t.state.sessions.sessions
      = t₀.state.sessions.sessions.insert t.temporarySession session

theorem Opened.temporary {t₀ t : Turn} (h : Opened completion t₀ t) :
    Temporary t₀ t := by
  cases h with
  | chat temporary _ _ => exact Or.inl temporary
  | completion session _ temporary fresh sessions _ =>
      exact Or.inr ⟨temporary, fresh, session, sessions⟩

theorem Committed.temporary {t₀ t : Turn}
    (h : Committed c env callback completion t₀ t) : Temporary t₀ t := by
  obtain ⟨u, session, model, prepared, hopened, htemp, -, -, hid, -,
    hset⟩ := h.turn
  cases hopened with
  | chat temporary _ _ => exact Or.inl (htemp.trans temporary)
  | completion session' _ temporary fresh sessions request =>
      refine Or.inr ⟨htemp ▸ temporary, by rw [htemp]; exact fresh,
        { session with messages := prepared.messages
          ++ [assistantMessage t.result.text] }, ?_⟩
      rw [hset, htemp]
      show u.state.sessions.sessions.insert session.id _ = _
      rw [sessions, hid, request, Maps.insert_insert]

/-- The temporary session and its context go; without one, nothing. The closing
runs on both paths of the body, so no completion leaves a session behind. -/
theorem closeTemporary_spec {t₀ t : Turn} (h : InTurn c t₀ t)
    (htemp : Temporary t₀ t) :
    ∃ s', closeTemporary t = (.ok (), { t with state := s' })
      ∧ InTurn c t₀ { t with state := s' }
      ∧ (t.temporarySession = [] → s' = t.state)
      ∧ (t.temporarySession ≠ [] → s'.sessions = t₀.state.sessions) := by
  unfold closeTemporary
  rw [Exec.bind_apply_ok (Exec.get_apply t)]
  rcases htemp with hnil | ⟨hne, hfresh, session, hsessions⟩
  · rw [if_neg (by simp [hnil])]
    exact ⟨t.state, rfl, h, fun _ => rfl, fun hne => absurd hnil hne⟩
  · rw [if_pos hne]
    have hclose : t.state.sessions.close t.temporarySession = .ok
        { t.state.sessions with
          sessions := t.state.sessions.sessions.erase
              t.temporarySession } := by
      unfold SessionManager.close SessionManager.get
      rw [hsessions, Maps.find_insert_self]
      rfl
    refine ⟨{ t.state with
      sessions := { t.state.sessions with
        sessions := t.state.sessions.sessions.erase t.temporarySession }
      cache := t.state.cache.erase t.temporarySession }, ?_,
      h.stepped (stepped_close h.sound t.temporarySession) rfl rfl rfl,
      fun hnil => absurd hnil hne, fun _ => ?_⟩
    · unfold Turn.eraseContext
      rw [Exec.bind_apply_ok (Exec.modify_apply _ t), hclose]
      rfl
    · show SessionManager.mk (t.state.sessions.sessions.erase _) = _
      rw [hsessions, Maps.erase_insert _ hfresh]

-- =================================================================== results

/-- What a consumer and a future learn of a request: every text once, and
the result last. -/
structure Reported (callback : Option StreamCallback)
    (requestId sessionId : QString) (o : Settled) : Prop where
  text : callback.isSome = true →
    o.result.text = o.events.flatMap StreamEvent.text
  finished : callback.isSome = true → ∃ before,
    o.events = before ++ [.finished requestId sessionId o.result]
      ∧ ∀ event ∈ before, event.isFinished = false
  unheard : callback = none → o.events = []

/-- A chat commits the prompt and the answer, or nothing. -/
structure ChatAtomic (c : Config) (env : Env) (s s' : State)
    (request : ChatRequest) (o : Settled) : Prop where
  committed : o.result.succeeded → ∃ session model prepared k,
    s.sessions.sessions[request.sessionId]? = some session
      ∧ PromptEngine.prepare c env session request model = .ok prepared
      ∧ prepared.messages
        = PromptEngine.trimmedHistory session.messages (2 * k)
        ++ [{ role := .User, content := request.prompt }]
      ∧ s'.sessions.sessions[request.sessionId]? = some { session with
        messages := prepared.messages ++ [assistantMessage o.result.text] }
  rolledBack : ¬ o.result.succeeded → s'.sessions = s.sessions
    ∧ s'.cache.entries[request.sessionId]? = none
  others : ∀ id : QString, id ≠ request.sessionId →
    s'.sessions.sessions[id]? = s.sessions.sessions[id]?

/-- A completion leaves the sessions as they were, and no context of the
sessions it made. -/
structure CompletionAtomic (s s' : State) : Prop where
  sessions : s'.sessions = s.sessions
  erased : ∀ id modelId, .sessionCreated id modelId ∈ s'.trace →
    (∀ modelId', .sessionCreated id modelId' ∉ s.trace) →
    s'.cache.entries[id]? = none

/-- What a generation does to sessions and cache. -/
def Atomic (c : Config) (env : Env) (s s' : State) (request : ChatRequest)
    (o : Settled) : Option CompletionRequest → Prop
  | none => ChatAtomic c env s s' request o
  | some _ => CompletionAtomic s s'

/-- A context of a session that is gone is gone. -/
theorem completionAtomic_of_sessions (hc : c.Honest) {held held' : Held}
    {s s' : State} (h : s.Sound c held) (h' : s'.Sound c held')
    (hsessions : s'.sessions = s.sessions) : CompletionAtomic s s' := by
  refine ⟨hsessions, fun id modelId hcreated hnew => ?_⟩
  cases hfind : s'.cache.entries[id]? with
  | none => rfl
  | some e =>
      exfalso
      rcases h'.grounded.keyed id e hfind with ⟨session, hsession, -⟩ | hconv
      · rw [hsessions] at hsession
        exact hnew _ (h.grounded.sessions id session hsession).2.2
      · exact h'.grounded.session_no_colon hc hcreated
          (conversation_colon hconv)

/-- The body and its handler: a turn commits or is rolled back. -/
theorem attempt_spec (hc : c.Honest) (env : Env) {t : Turn}
    (h : Underway c callback completion t t) (hstart : t.temporarySession = [])
    (hlease : t.leasedModel = []) :
    ∃ t', tryCatch (generateBody c env callback completion) generateFailed t
        = (.ok (), t')
      ∧ (Committed c env callback completion t t'
        ∨ RolledBack c callback completion t t') := by
  rcases Exec.wp_cases (generateBody_spec hc h hstart hlease) with
    ⟨_, t', hrun, hcommitted⟩ | ⟨e, t', hrun, hunderway⟩
  · exact ⟨t', Exec.tryCatch_apply_ok hrun, Or.inl hcommitted⟩
  · obtain ⟨t'', hfailed, hrolled⟩ := generateFailed_spec hunderway e
    exact ⟨t'', (Exec.tryCatch_apply_error hrun).trans hfailed, Or.inr hrolled⟩

/-- The last event, after all the others. -/
theorem finish_spec {t : Turn} (h : Told callback t) :
    ∃ events, Turn.finish callback t = (.ok (), { t with delivered := events })
      ∧ Reported callback t.result.requestId t.result.sessionId
        ⟨events, t.result⟩ := by
  cases hc : callback with
  | none =>
      refine ⟨t.delivered, rfl, fun hs => ?_, fun hs => ?_,
        fun _ => h.unheard hc⟩
      · cases hs
      · cases hs
  | some throwsOn =>
      refine ⟨t.delivered
        ++ [.finished t.result.requestId t.result.sessionId t.result], rfl,
        fun _ => ?_, fun _ => ⟨t.delivered, rfl, h.unfinished⟩, fun hn => ?_⟩
      · have htext := h.text (by rw [hc]; rfl)
        simpa [StreamEvent.text] using htext
      · cases hn

theorem Committed.succeeded {t₀ t : Turn}
    (h : Committed c env callback completion t₀ t) : t.result.succeeded := by
  refine ⟨h.unfailed, fun herror => ?_⟩
  rcases h.finished with hstop | hlength
  · rw [herror] at hstop
    cases hstop
  · rw [herror] at hlength
    cases hlength

/-- A chat has no temporary session. -/
theorem Opened.of_chat {t₀ t : Turn} (h : Opened none t₀ t) :
    t.temporarySession = [] ∧ t.state.sessions = t₀.state.sessions
      ∧ t.request = t₀.request := by
  cases h with
  | chat temporary sessions request => exact ⟨temporary, sessions, request⟩
  | completion _ asked _ _ _ _ => cases asked

/-- What a chat that committed has changed. -/
theorem chatAtomic_of_committed {t₀ t : Turn}
    (h : Committed c env callback none t₀ t) {s' : State}
    (hsessions : s'.sessions = t.state.sessions) (events : List StreamEvent) :
    ChatAtomic c env t₀.state s' t₀.request ⟨events, t.result⟩ := by
  obtain ⟨u, session, model, prepared, hopened, -, -, hfound, hid,
      hprepare, hset⟩ :=
    h.turn
  obtain ⟨-, hsame, hrequest⟩ := hopened.of_chat
  rw [hrequest] at hfound hid hprepare
  rw [hsame] at hfound
  obtain ⟨k, hmessages, -, -⟩ := PromptEngine.prepare_spec hprepare
  have hfind : ∀ id : QString, s'.sessions.sessions[id]?
      = if session.id = id then some { session with
          messages := prepared.messages ++ [assistantMessage t.result.text] }
        else t₀.state.sessions.sessions[id]? := by
    intro id
    rw [hsessions, hset, ← hsame]
    exact Maps.find_insert _ _ _ _
  refine ⟨fun _ => ⟨session, model, prepared, k, hfound, hprepare,
    hmessages, ?_⟩,
    fun hno => absurd h.succeeded hno, fun id hne => ?_⟩
  · rw [hfind, if_pos hid]
  · rw [hfind, if_neg fun heq => hne (heq.symm.trans hid)]

/-- What a chat that was rolled back has changed. -/
theorem chatAtomic_of_rolledBack {t₀ t : Turn}
    (h : RolledBack c callback none t₀ t) {s' : State}
    (hsessions : s'.sessions = t.state.sessions)
    (hcache : ∀ (key : QString) (e : CacheEntry),
      s'.cache.entries[key]? = some e → t.state.cache.entries[key]? = some e)
    (events : List StreamEvent) :
    ChatAtomic c env t₀.state s' t₀.request ⟨events, t.result⟩ := by
  obtain ⟨-, hsame, hrequest⟩ := h.opened.of_chat
  have hkept : s'.sessions = t₀.state.sessions := hsessions.trans hsame
  refine ⟨fun hyes => absurd hyes h.failed, fun _ => ⟨hkept, ?_⟩,
    fun id _ => by rw [hkept]⟩
  cases hfind : s'.cache.entries[t₀.request.sessionId]? with
  | none => rfl
  | some e =>
      have hold := hcache _ e hfind
      rw [← hrequest, h.erased] at hold
      cases hold

/-- A generation: it always settles, its lease is given back, and it is
atomic whatever the runtime, the consumer and the cancellation do. -/
theorem generate_spec (hc : c.Honest) {s : State} (h : s.Sound c noLease)
    (hobs : Observed s) (env : Env) (requestId : QString)
    (request : ChatRequest) (completion : Option CompletionRequest)
    (callback : Option StreamCallback) :
    ∃ o s', generate c env requestId request completion callback s
      = (.ok o, s')
      ∧ s'.Sound c noLease ∧ Observed s' ∧ (∃ id, Progress (balanced id) s s')
      ∧ Reported callback requestId request.sessionId o
      ∧ Atomic c env s s' request o completion := by
  let t₀ : Turn :=
    { state := s, request,
      result := { requestId, sessionId := request.sessionId } }
  have h₀ : Underway c callback completion t₀ t₀ :=
    ⟨InTurn.start h hobs rfl, .chat rfl rfl rfl,
      ⟨fun _ => rfl, fun _ => rfl, by simp [t₀]⟩, rfl⟩
  obtain ⟨t, hrun, hend⟩ := attempt_spec hc env h₀ rfl rfl
  -- both ends of the attempt are alike for what follows
  have hin : InTurn c t₀ t := by
    rcases hend with hcommitted | hrolled
    · exact hcommitted.inTurn
    · exact hrolled.inTurn
  have htemp : Temporary t₀ t := by
    rcases hend with hcommitted | hrolled
    · exact hcommitted.temporary
    · exact hrolled.opened.temporary
  have htold : Told callback t := by
    rcases hend with hcommitted | hrolled
    · exact hcommitted.told
    · exact hrolled.told
  obtain ⟨s₁, hclose, hin₁, hkept, hclosed⟩ := closeTemporary_spec hin htemp
  obtain ⟨s₂, hback, hended, hsessions, -, -, hcache⟩ := giveBack_spec hin₁ env
  have htold₂ : Told callback { t with state := s₂ } := htold.congr rfl rfl
  obtain ⟨events, hfinish, hreported⟩ := finish_spec htold₂
  have hids : t.result.requestId = requestId
      ∧ t.result.sessionId = request.sessionId :=
        ⟨hin.requestId, hin.sessionId⟩
  refine ⟨⟨events, t.result⟩, s₂, ?_, hended.sound, hended.observed,
    hended.progress, ?_, ?_⟩
  · have hturn : generateTurn c env callback completion t₀
        = (.ok (), { t with state := s₂, delivered := events }) := by
      unfold generateTurn
      rw [Exec.bind_apply_ok hrun, Exec.bind_apply_ok hclose,
        Exec.bind_apply_ok hback]
      exact hfinish
    unfold generate settle
    simp only [hturn, t₀]
  · rw [← hids.1, ← hids.2]
    exact hreported
  · cases completion with
    | none =>
        have hnil : t.temporarySession = [] := by
          rcases hend with hcommitted | hrolled
          · obtain ⟨u, -, -, -, hopened, heq, -⟩ := hcommitted.turn
            rw [heq]
            exact hopened.of_chat.1
          · exact hrolled.opened.of_chat.1
        rw [hkept hnil] at hsessions hcache
        rcases hend with hcommitted | hrolled
        · exact chatAtomic_of_committed hcommitted hsessions events
        · exact chatAtomic_of_rolledBack hrolled hsessions hcache events
    | some asked =>
        refine completionAtomic_of_sessions hc h hended.sound
          (hsessions.trans ?_)
        by_cases hnil : t.temporarySession = []
        · rcases hend with hcommitted | hrolled
          · exact absurd hnil (hcommitted.opened rfl)
          · show s₁.sessions = _
            rw [hkept hnil]
            cases hrolled.opened with
            | chat _ hsame _ => exact hsame
            | completion _ _ hne _ _ _ => exact absurd hnil hne
        · exact hclosed hnil

end LocalLLM
