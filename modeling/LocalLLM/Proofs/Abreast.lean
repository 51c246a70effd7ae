/-
One task on two workers that a task cannot tell apart.

# A turn

Two turns are `Abreast` when they differ in the state and in what the
runtime counted, and in nothing else. The steps that only talk to the
consumer keep them so (`emitText_abreast`, `onText_abreast`), hence so does
a generation, however often the runtime calls back. The steps on the state
are those of the comparison of states: `Paced` says that the turns are
abreast and their states are twins under the lease of the turn.

# Where the sides part

They part only where a lease fails because a load has failed. The task has
no lease then, and nothing it still does takes the mark off the trace.
-/
import LocalLLM.Proofs.Reload
import LocalLLM.Proofs.Worker

namespace LocalLLM

open Std ModelManager

variable {c : Config} {base : State} {env env' : Env}
  {callback : Option StreamCallback}

-- ================================================================= the turns

/-- A turn in another state, with other counts of the runtime. -/
def Turn.beside (t : Turn) (s : State) (generated cached : Int) : Turn :=
  { t with
    state := s
    result := { t.result with usage := { t.result.usage with
      generatedTokens := generated
      cachedTokens := cached } } }

@[simp] theorem Turn.beside_temporarySession (t : Turn)
    (s : State) (g k : Int) :
    (t.beside s g k).temporarySession = t.temporarySession := rfl

@[simp] theorem Turn.beside_cacheId (t : Turn) (s : State) (g k : Int) :
    (t.beside s g k).cacheId = t.cacheId := rfl

@[simp] theorem Turn.beside_stop (t : Turn) (s : State) (g k : Int) :
    (t.beside s g k).stop = t.stop := rfl

/-- Two turns in the states `s` and `s'`, and otherwise alike. -/
structure Abreast (s s' : State) (lease : QString) (t u : Turn) : Prop where
  state : t.state = s
  leased : t.leasedModel = lease
  other : ∃ generated cached, u = t.beside s' generated cached

/-- Two turns whose states are twins under their lease. -/
structure Paced (c : Config) (base : State) (t u : Turn) : Prop where
  other : ∃ generated cached, u = t.beside u.state generated cached
  twin : Twin c base (leaseOf t.leasedModel) t.state u.state

variable {s s' : State} {lease : QString} {t u : Turn}

theorem Abreast.paced (h : Abreast s s' lease t u)
    (htwin : Twin c base (leaseOf lease) s s') : Paced c base t u := by
  obtain ⟨generated, cached, rfl⟩ := h.other
  refine ⟨⟨generated, cached, rfl⟩, ?_⟩
  rw [h.state, h.leased]
  exact htwin

theorem Paced.abreast (h : Paced c base t u) :
    Abreast t.state u.state t.leasedModel t u :=
  ⟨rfl, rfl, h.other⟩

/-- A change of both turns that looks neither at the state nor at
the counts. -/
theorem Abreast.update (h : Abreast s s' lease t u) (f : Turn → Turn)
    (hbeside : ∀ t s g k, f (t.beside s g k) = (f t).beside s g k)
    (hstate : (f t).state = t.state)
    (hlease : (f t).leasedModel = t.leasedModel) :
    Abreast s s' lease (f t) (f u) := by
  obtain ⟨generated, cached, rfl⟩ := h.other
  exact ⟨hstate.trans h.state, hlease.trans h.leased, generated, cached,
    hbeside _ _ _ _⟩

/-- One pure outcome on both sides. -/
theorem Turn.lift_together {α : Type} {R : Turn → Turn → Prop}
    {r r' : Except Exn α} (hr : r' = r) (h : R t u) :
    Exec.Together R (Turn.lift r) (Turn.lift r') t u :=
  .ofExcept hr h

/-- What both sides go on with is an answer of the outcome. -/
theorem Turn.lift_ok {α : Type} {R : Turn → Turn → Prop} {r r' : Except Exn α}
    (hr : r' = r) (h : R t u) :
    Exec.Twins (fun _ => False) (Turn.lift r) (Turn.lift r')
      (fun a b t' u' => (r = .ok a ∧ b = a) ∧ R t' u') (fun _ => R) t u := by
  subst hr
  exact .ofExcept (fun _ ha => ⟨⟨ha, rfl⟩, h⟩) (fun _ _ => h)

/-- A step on the states of both turns. -/
theorem Turn.onState_twins {α : Type} {m m' : Task α} {lost : State → Prop}
    {Q : α → α → State → State → Prop} {E : Exn → State → State → Prop}
    (h : Abreast s s' lease t u) (hm : Exec.Twins lost m m' Q E s s') :
    Exec.Twins (fun t' => lost t'.state ∧ t'.leasedModel = lease)
      (Turn.onState m) (Turn.onState m')
      (fun a b t' u' => ∃ s₂ s₂', Abreast s₂ s₂' lease t' u' ∧ Q a b s₂ s₂')
      (fun e t' u' => ∃ s₂ s₂', Abreast s₂ s₂' lease t' u' ∧ E e s₂ s₂')
        t u := by
  obtain ⟨generated, cached, rfl⟩ := h.other
  obtain ⟨rfl, rfl⟩ := And.intro h.state h.leased
  have hmoved : ∀ s₂ s₂', Abreast s₂ s₂' t.leasedModel { t with state := s₂ }
      { t.beside s' generated cached with state := s₂' } :=
    fun s₂ s₂' => ⟨rfl, rfl, generated, cached, rfl⟩
  exact .zoom hm (fun _ h => ⟨⟨h, rfl⟩, ⟨h, rfl⟩⟩)
    (fun a b s₂ s₂' hQ => ⟨s₂, s₂', hmoved s₂ s₂', hQ⟩)
    fun e s₂ s₂' he => ⟨s₂, s₂', hmoved s₂ s₂', he⟩

/-- An event is handed to both consumers, and both throw or neither. -/
theorem notify_abreast (h : Abreast s s' lease t u) (event : StreamEvent) :
    Exec.Together (Abreast s s' lease) (Turn.notify callback event)
      (Turn.notify callback event) t u := by
  cases callback with
  | none => exact .pure ⟨rfl, h⟩
  | some throwsOn =>
      obtain ⟨generated, cached, rfl⟩ := h.other
      unfold Turn.notify
      exact .get (.set (Turn.lift_together rfl
        (h.update (fun t => { t with delivered := t.delivered ++ [event] })
          (fun _ _ _ _ => rfl) rfl rfl)))

/-- Text goes into both results and to both consumers. -/
theorem emitText_abreast (h : Abreast s s' lease t u) (text : QString) :
    Exec.Together (Abreast s s' lease) (emitText callback text)
      (emitText callback text) t u := by
  unfold emitText
  by_cases hempty : text = []
  · rw [if_pos hempty]
    exact .pure ⟨rfl, h⟩
  · rw [if_neg hempty]
    obtain ⟨generated, cached, rfl⟩ := h.other
    exact .get (.set (notify_abreast
      (h.update (fun t => { t with result := { t.result with
        text := t.result.text ++ text } }) (fun _ _ _ _ => rfl) rfl rfl) _))

/-- What the runtime calls back with reaches both sides alike. -/
theorem onText_abreast (henv : env.Same env') (text : QString)
    (h : Abreast s s' lease t u) :
    Exec.Together (Abreast s s' lease) (onText env callback text)
      (onText env' callback text) t u := by
  obtain ⟨generated, cached, rfl⟩ := h.other
  unfold onText
  refine .get (.set (.bind (Turn.lift_together (henv.throwIfCancelled _)
    (h.update (fun t => { t with texts := t.texts + 1 }) (fun _ _ _ _ => rfl)
      rfl rfl)) fun _ _ t₁ u₁ h₁ => ?_))
  refine .update (.bind (emitText_abreast (h₁.2.update
    (fun t => { t with stop := (t.stop.push text).2 }) (fun _ _ _ _ => rfl)
      rfl rfl) _) fun _ _ t₂ u₂ h₂ => ?_)
  obtain ⟨g, k, rfl⟩ := h₂.2.other
  exact .get (.pure ⟨rfl, h₂.2⟩)

-- ==================================================================== chats

/-- The prompt of a chat does not depend on when its model was loaded. -/
theorem prepare_same (henv : env.Same env') {model model' : LoadedModel}
    (hspec : model'.spec = model.spec)
    (halike : model.runtime.Alike model'.runtime)
    (session : SessionSnapshot) (request : ChatRequest) :
    PromptEngine.prepare c env' session request model'
      = PromptEngine.prepare c env session request model := by
  have hfit : ∀ (maxTokens : Int) (first turns : Nat)
    (messages : List ChatMessage)
      (dropped : Int),
      PromptEngine.fit env' model' maxTokens first turns messages dropped
        = PromptEngine.fit env model maxTokens first turns
          messages dropped := by
    intro maxTokens first turns
    induction turns with
    | zero => intro messages dropped; rfl
    | succ turns ih =>
        intro messages dropped
        unfold PromptEngine.fit
        simp only [henv.throwIfCancelled, henv.probe,
          hspec, ← halike.tokenize, ih]
  unfold PromptEngine.prepare
  simp only [hspec, hfit]

/-- A commit to a session. -/
def State.committed (s : State) (session : SessionSnapshot)
    (messages : List ChatMessage) (stopped : Bool) : State :=
  { s with
    sessions := s.sessions.setMessages session messages
    cache := if stopped then s.cache.erase session.id else s.cache }

theorem stepped_committed {held : Held} (h : s.Sound c held)
    {session : SessionSnapshot}
    (hfound : s.sessions.sessions[session.id]? = some session)
    (messages : List ChatMessage) (stopped : Bool) :
    Stepped c held s (s.committed session messages stopped) := by
  have hset := stepped_setMessages h hfound messages
  cases stopped with
  | true => exact hset.trans (stepped_erase hset.sound session.id)
  | false => exact hset

/-- A commit on both sides. -/
theorem Twin.committed {held : Held} (h : Twin c base held s s')
    {session : SessionSnapshot}
    (hfound : s.sessions.sessions[session.id]? = some session)
    (messages : List ChatMessage) (stopped : Bool) :
    Twin c base held (s.committed session messages stopped)
      (s'.committed session messages stopped) := by
  refine h.stepped (stepped_committed h.left.sound hfound messages stopped)
    (stepped_committed h.right.sound
      (by rw [h.sessions]; exact hfound) messages
      stopped) ?_
  unfold State.view State.committed
  rw [h.sessions, h.issued, h.remembered]

/-- From the prompt to the commit. Both sides prepare the same prompt and are
handed the same text; only the counts of tokens are each side's own. -/
theorem generateText_paced (hc : c.Honest) (henv : env.Same env')
    (h : Paced c base t u) {session : SessionSnapshot}
    {model model' : LoadedModel} (hspec : model'.spec = model.spec)
    (halike : model.runtime.Alike model'.runtime)
    (hmodel : t.state.models.runtimes.models[model.spec.id]? = some model)
    (hmodel' : u.state.models.runtimes.models[model.spec.id]? = some model')
    (hfound : t.state.sessions.sessions[session.id]? = some session)
    (hbound : session.modelId = model.spec.id) :
    Exec.Together (Paced c base) (generateText c env callback session model)
      (generateText c env' callback session model') t u := by
  have htwin := h.twin
  obtain ⟨generated, cached, hu⟩ := h.other
  generalize u.state = s' at hu htwin hmodel'
  subst hu
  have hstart : Abreast t.state s' t.leasedModel t
      (t.beside s' generated cached) :=
    ⟨rfl, rfl, generated, cached, rfl⟩
  unfold generateText
  refine .get (Exec.Together.andThen (Turn.lift_together
    (prepare_same henv hspec halike session t.request) hstart)
    (fun _ _ _ h => h.paced htwin) fun prepared t₁ u₁ h₁ => ?_)
  have hkey : Keyed t.state session.id model.spec.id :=
    Or.inl ⟨session, hfound, hbound⟩
  have hcreated := Turn.onState_twins (h₁.update (fun t => { t with
      result := { t.result with usage := { t.result.usage with
        promptTokens := prepared.tokens.length
        droppedMessages := prepared.droppedMessages } } })
      (fun _ _ _ _ => rfl) rfl rfl)
    (htwin.useContext hc env env' hspec halike hmodel hmodel' hkey)
  refine .update (.bind (hcreated.mono (fun _ h => h.1) (fun _ _ _ _ h => h)
    fun _ _ _ h => ?_) fun context context' t₂ u₂ hcontext => ?_)
  · obtain ⟨s₂, s₂', h₂, htwin₂, -⟩ := h
    exact h₂.paced htwin₂
  obtain ⟨s₂, s₂', h₂, htwin₂, hview, hcontexts⟩ := hcontext
  refine Exec.Together.andThen (notify_abreast h₂ _)
    (fun _ _ _ h => h.paced htwin₂) fun _ t₃ u₃ h₃ => ?_
  -- the runtime calls back alike on both sides
  have hecho := hcontexts.generate env.probe prepared.tokens t.request.options
  have hrun := Caller.Echo.run (onText env callback) (onText env' callback)
    (fun text t u h => onText_abreast henv text h) hecho _ _ (h₃.update
      (fun t => { t with stop := { stops := t.request.options.stop } })
      (fun _ _ _ _ => rfl) rfl rfl)
  refine .update (.bind ((hrun.mono (fun _ h => h) (fun _ _ _ _ h => h)
    fun _ _ _ h => h.paced htwin₂).of_eq rfl
      (by rw [henv.probe]; rfl)) fun result result' t₄ u₄ h₄ => ?_)
  obtain ⟨hfinish, h₄⟩ := h₄
  obtain ⟨reason, tokens, hits⟩ := result
  obtain ⟨reason', tokens', hits'⟩ := result'
  obtain rfl : reason = reason' := hfinish
  refine Exec.Together.andThen
    (Turn.lift_together (henv.throwIfCancelled _) h₄)
    (fun _ _ _ h => h.paced htwin₂) fun _ t₅ u₅ h₅ => ?_
  obtain ⟨g₅, k₅, rfl⟩ := h₅.other
  refine .get (.set (Exec.Together.andThen (emitText_abreast (h₅.update
    (fun t => { t with stop := t.stop.finish.2 }) (fun _ _ _ _ => rfl) rfl rfl)
      _)
    (fun _ _ _ h => h.paced htwin₂) fun _ t₆ u₆ h₆ => ?_))
  refine Exec.Together.andThen
    (Turn.lift_together (henv.throwIfCancelled _) h₆)
    (fun _ _ _ h => h.paced htwin₂) fun _ t₇ u₇ h₇ => ?_
  refine Exec.Together.andThen (Turn.lift_together rfl h₇)
    (fun _ _ _ h => h.paced htwin₂) fun _ t₈ u₈ h₈ => ?_
  obtain ⟨g₈, k₈, rfl⟩ := h₈.other
  obtain ⟨rfl, hlease⟩ := And.intro h₈.state h₈.leased
  -- the commit is the same on both sides
  have hfound₂ : t₈.state.sessions.sessions[session.id]? = some session := by
    rw [show t₈.state.sessions = t.state.sessions
      from congrArg TaskView.sessions hview]
    exact hfound
  refine .returned _ _ _ _ rfl rfl ⟨rfl, ⟨tokens', hits', rfl⟩, ?_⟩
  show Twin c base (leaseOf t₈.leasedModel) _ _
  rw [hlease]
  exact htwin₂.committed hfound₂ _ t₈.stop.stopped

/-- Two turns that hold no lease. -/
def Unleased (c : Config) (base : State) (t u : Turn) : Prop :=
  Paced c base t u ∧ t.leasedModel = []

/-- A session that was looked up, under its own id. -/
theorem Side.session {held : Held} (h : Side c base held s) {id : QString}
    {session : SessionSnapshot} (hget : s.sessions.get id = .ok session) :
    s.sessions.sessions[session.id]? = some session
      ∧ validId session.modelId = true := by
  have hfind := sessions_get_ok hget
  obtain ⟨hid, hvalid, -⟩ := h.sound.grounded.sessions _ _ hfind
  exact ⟨by rw [hid]; exact hfind, hvalid⟩

/-- A completion becomes a chat of a temporary session, the same
one on both sides. -/
theorem openTemporary_paced (hc : c.Honest) (henv : env.Same env')
    (completion : CompletionRequest) (h : Unleased c base t u) :
    Exec.Together (Unleased c base) (openTemporary c env completion)
      (openTemporary c env' completion) t u := by
  obtain ⟨⟨⟨generated, cached, hu⟩, htwin⟩, hlease⟩ := h
  generalize u.state = s' at hu htwin
  subst hu
  have hback : ∀ {s₂ s₂' t' u'}, Twin c base (leaseOf t.leasedModel) s₂ s₂' →
      Abreast s₂ s₂' t.leasedModel t' u' → Unleased c base t' u' :=
    fun htwin h => ⟨h.paced htwin, h.leased.trans hlease⟩
  have hstart : Abreast t.state s' t.leasedModel t
      (t.beside s' generated cached) :=
    ⟨rfl, rfl, generated, cached, rfl⟩
  unfold openTemporary
  refine .get (.bind ((resolve_together henv t.state.models s'.models
    completion.model hstart).mono (fun _ h => h) (fun _ _ _ _ h => h)
    fun _ _ _ h => hback htwin h) fun info info' t₁ u₁ hinfo => ?_)
  obtain ⟨⟨hinfo, hmanifest⟩, h₁⟩ := hinfo
  refine Exec.Together.andThen (Turn.lift_together (by rw [hmanifest]) h₁)
    (fun _ _ _ h => hback htwin h) fun _ t₂ u₂ h₂ => ?_
  refine Exec.Together.andThen (Turn.lift_together rfl h₂)
    (fun _ _ _ h => hback htwin h) fun _ t₃ u₃ h₃ => ?_
  refine Exec.Together.andThen (Turn.lift_together rfl h₃)
    (fun _ _ _ h => hback htwin h) fun _ t₄ u₄ h₄ => ?_
  rw [hmanifest]
  refine .bind ((Turn.onState_twins h₄
    (htwin.newSession hc (resolve_valid hinfo)
    [])).mono (fun _ h => h.1) (fun _ _ _ _ h => h) fun _ _ _ h => ?_)
    fun id id' t₅ u₅ hid => ?_
  · obtain ⟨s₂, s₂', h₂, htwin₂⟩ := h
    exact hback htwin₂ h₂
  obtain ⟨s₂, s₂', h₅, rfl, htwin₂⟩ := hid
  have h₆ := h₅.update (fun t => { t with temporarySession := id })
    (fun _ _ _ _ => rfl) rfl rfl
  obtain ⟨g₅, k₅, rfl⟩ := h₅.other
  obtain ⟨rfl, hlease₅⟩ := And.intro h₅.state h₅.leased
  refine .update (.get (.bind ((Turn.lift_ok (show s₂'.sessions.get id
    = t₅.state.sessions.get id by rw [htwin₂.sessions]) h₆).mono (fun _ h => h)
    (fun _ _ _ _ h => h) fun _ _ _ h => hback htwin₂ h)
    fun temporary temporary' t₇ u₇ hget => ?_))
  obtain ⟨⟨hget, rfl⟩, -⟩ := hget
  have hcommitted := htwin₂.committed (htwin₂.left.session hget).1
    completion.messages.dropLast false
  refine .returned _ _ _ _ rfl rfl ⟨rfl, ⟨⟨g₅, k₅, rfl⟩, ?_⟩,
    hlease₅.trans hlease⟩
  show Twin c base (leaseOf t₅.leasedModel) _ _
  rw [hlease₅]
  exact hcommitted

theorem openCompletion_paced (hc : c.Honest) (henv : env.Same env')
    (completion : Option CompletionRequest) (h : Unleased c base t u) :
    Exec.Together (Unleased c base) (openCompletion c env completion)
      (openCompletion c env' completion) t u := by
  cases completion with
  | none => exact .pure ⟨rfl, h⟩
  | some completion => exact openTemporary_paced hc henv completion h

/-- A turn without a lease in whose state a load has failed. -/
def Turn.Astray (base : State) (t : Turn) : Prop :=
  Lost base.trace t.state ∧ t.leasedModel = []

/-- Taking the lease of a turn that has none. -/
theorem acquire_paced (hsteady : SteadyOutside c base.models.runtimes.runtimes)
    (henv : env.Same env') (h : Abreast s s' [] t u)
    (htwin : Twin c base noLease s s') {id : QString} (hid : id ≠ [])
    (keepAlive : Int) :
    Exec.Twins (Turn.Astray base) (Turn.onState (acquire c env id keepAlive))
      (Turn.onState (acquire c env' id keepAlive))
      (fun model model' t' u' => ∃ s₂ s₂', Abreast s₂ s₂' [] t' u'
        ∧ Twin c base (leaseOf id) s₂ s₂' ∧ s₂.sessions = s.sessions
        ∧ model.spec.id = id ∧ model'.spec = model.spec
        ∧ model.runtime.Alike model'.runtime
        ∧ s₂.models.runtimes.models[id]? = some model
        ∧ s₂'.models.runtimes.models[id]? = some model')
      (fun _ => Paced c base) t u := by
  refine (Turn.onState_twins h (htwin.acquire hsteady henv id keepAlive)).mono
    (fun _ h => h) (fun model model' t' u' hacquired => ?_)
    fun e t' u' hthrown => ?_
  · obtain ⟨s₂, s₂', h₂, htwin₂, hfacts⟩ := hacquired
    rw [leaseOf_of_ne hid] at htwin₂
    exact ⟨s₂, s₂', h₂, htwin₂, hfacts⟩
  · obtain ⟨s₂, s₂', h₂, htwin₂, -⟩ := hthrown
    rw [← leaseOf_nil] at htwin₂
    exact h₂.paced htwin₂

/-- The body of a generation: the turns stay in step, or a load has failed. A
failed load is the one event that may set the two sides apart, so it is an
outcome of its own. -/
theorem generateBody_paced (hc : c.Honest)
    (hsteady : SteadyOutside c base.models.runtimes.runtimes)
    (henv : env.Same env')
    (completion : Option CompletionRequest) (h : Unleased c base t u) :
    Exec.Twins (Turn.Astray base) (generateBody c env callback completion)
      (generateBody c env' callback completion) (fun _ _ => Paced c base)
      (fun _ => Paced c base) t u := by
  unfold generateBody
  refine Exec.Together.andThen (Turn.lift_together (henv.throwIfCancelled _) h)
    (fun _ _ _ h => h.1) fun _ t₁ u₁ h₁ => ?_
  refine Exec.Together.andThen (openCompletion_paced hc henv completion h₁)
    (fun _ _ _ h => h.1) fun _ t₂ u₂ h₂ => ?_
  obtain ⟨⟨⟨g₂, k₂, hu⟩, htwin⟩, hlease⟩ := h₂
  rw [hlease] at htwin
  generalize u₂.state = s' at hu htwin
  subst hu
  have hstart : Abreast t₂.state s' [] t₂ (t₂.beside s' g₂ k₂) :=
    ⟨rfl, hlease, g₂, k₂, rfl⟩
  have hnil : Twin c base (leaseOf []) t₂.state s' := htwin
  rw [leaseOf_nil] at htwin
  refine .get (.bind ((Turn.lift_ok (show s'.sessions.get t₂.request.sessionId
    = t₂.state.sessions.get t₂.request.sessionId by rw [htwin.sessions])
    hstart).mono (fun _ h => h.elim) (fun _ _ _ _ h => h)
    fun _ _ _ h => h.paced hnil) fun session session' t₃ u₃ hget => ?_)
  obtain ⟨⟨hget, rfl⟩, h₃⟩ := hget
  obtain ⟨hfound, hvalid⟩ := htwin.left.session hget
  refine .bind (acquire_paced hsteady henv h₃ htwin (validId_ne_nil hvalid)
    t₂.request.keepAliveMs) fun model model' t₄ u₄ hacquired => ?_
  obtain ⟨s₄, s₄', h₄, htwin₄, hsessions, hid, hspec, halike,
      hmodel, hmodel'⟩ :=
    hacquired
  obtain ⟨g₄, k₄, rfl⟩ := h₄.other
  obtain ⟨rfl, -⟩ := And.intro h₄.state h₄.leased
  refine .update (Exec.Together.twins (generateText_paced hc henv
    ⟨⟨g₄, k₄, rfl⟩, htwin₄⟩ hspec halike (by rw [hid]; exact hmodel)
    (by rw [hid]; exact hmodel') ?_ hid.symm) (fun _ _ _ h => h)
      fun _ _ _ h => h)
  show t₄.state.sessions.sessions[session'.id]? = some session'
  rw [hsessions]
  exact hfound

-- ========================================================== the end of a turn

/-- What a consumer makes of a result: all of it but the counts
of the runtime. -/
def GenerationResult.shown (r : GenerationResult) : GenerationResult :=
  { r with usage := { r.usage with generatedTokens := 0, cachedTokens := 0 } }

/-- What a consumer makes of an event. -/
def StreamEvent.shown : StreamEvent → StreamEvent
  | .finished requestId sessionId result =>
      .finished requestId sessionId result.shown
  | event => event

/-- Two turns at their end. -/
structure Finished (c : Config) (base : State) (t u : Turn) : Prop where
  delivered : u.delivered.map StreamEvent.shown
    = t.delivered.map StreamEvent.shown
  result : u.result.shown = t.result.shown
  twin : Twin c base noLease t.state u.state

/-- A context is dropped on both sides. -/
theorem Twin.erased {held : Held} (h : Twin c base held s s') (key : QString) :
    Twin c base held { s with cache := s.cache.erase key }
      { s' with cache := s'.cache.erase key } :=
  h.stepped (stepped_erase h.left.sound key)
    (stepped_erase h.right.sound key) h.view

/-- A session is closed on both sides. -/
theorem Twin.closed {held : Held} (h : Twin c base held s s') (id : QString) :
    Twin c base held
      { s with
        sessions :=
          { s.sessions with sessions := s.sessions.sessions.erase id }
        cache := s.cache.erase id }
      { s' with
        sessions :=
          { s'.sessions with sessions := s'.sessions.sessions.erase id }
        cache := s'.cache.erase id } := by
  refine h.stepped (stepped_close h.left.sound id)
    (stepped_close h.right.sound id) ?_
  unfold State.view
  rw [h.sessions, h.issued, h.remembered]

/-- A context is dropped in both turns. -/
theorem eraseContext_paced (h : Paced c base t u) (key : QString) :
    Exec.Together (Paced c base) (Turn.eraseContext key)
      (Turn.eraseContext key) t u := by
  obtain ⟨⟨generated, cached, hu⟩, htwin⟩ := h
  generalize u.state = s' at hu htwin
  subst hu
  exact .returned _ _ _ _ rfl rfl ⟨rfl, ⟨generated, cached, rfl⟩,
    htwin.erased key⟩

/-- The lease goes back on both sides, and both consumers hear of the end. -/
theorem giveBack_finished (h : Paced c base t u) (env env' : Env) :
    Exec.Together (Finished c base)
      (do
        Turn.giveBack c env
        Turn.finish callback)
      (do
        Turn.giveBack c env'
        Turn.finish callback) t u := by
  obtain ⟨⟨generated, cached, hu⟩, htwin⟩ := h
  generalize u.state = s' at hu htwin
  subst hu
  obtain ⟨r, r', hrun, hrun', htwin', -⟩ := htwin.giveBack env env'
  have hback := giveBack_of_release hrun
  have hback' := giveBack_of_release (t := t.beside s' generated cached) hrun'
  refine .of_eq ?_ (Exec.bind_apply_ok hback) (Exec.bind_apply_ok hback')
  unfold Turn.finish
  cases callback with
  | none => exact .pure ⟨rfl, rfl, rfl, htwin'⟩
  | some throwsOn =>
      refine .returned _ _ _ _ rfl rfl ⟨rfl, ?_, rfl, htwin'⟩
      simp only [List.map_append]
      rfl

/-- Nothing that a turn does after its handler takes a failed
load off the trace. -/
theorem giveBack_astray (h : t.Astray base) (env : Env) :
    Exec.wp (do
        Turn.giveBack c env
        Turn.finish callback)
      (fun _ => Turn.Astray base) (fun _ => Turn.Astray base) t := by
  unfold Turn.giveBack Turn.finish
  rw [Exec.wp_bind, Exec.wp_bind, Exec.wp_get, if_neg (by rw [h.2]; simp)]
  cases callback with
  | none => exact h
  | some throwsOn => exact h

/-- The end of a turn, from its handler on. -/
def endOfTurn (c : Config) (callback : Option StreamCallback)
    (last : TurnM Unit) (env : Env) : TurnM Unit := do
  last
  Turn.giveBack c env
  Turn.finish callback

/-- A turn with its handler and its last steps: both sides end alike, or a
load has failed on one of them. -/
theorem turn_finished {body body' : TurnM Unit} {failed : Exn → TurnM Unit}
    {last : TurnM Unit} (env env' : Env)
    (hbody : Exec.Twins (Turn.Astray base) body body' (fun _ _ => Paced c base)
      (fun _ => Paced c base) t u)
    (hfailed : ∀ e t u, Paced c base t u →
      Exec.Together (Paced c base) (failed e) (failed e) t u)
    (hlast : ∀ t u, Paced c base t u →
      Exec.Together (Paced c base) last last t u)
    (hfailed_astray : ∀ e t, Turn.Astray base t →
      Exec.wp (failed e) (fun _ => Turn.Astray base)
        (fun _ => Turn.Astray base) t)
    (hlast_astray : ∀ t, Turn.Astray base t →
      Exec.wp last (fun _ => Turn.Astray base) (fun _ => Turn.Astray base) t) :
    let turn := fun (body : TurnM Unit) (env : Env) =>
      tryCatch body failed >>= fun _ => endOfTurn c callback last env
    Lost base.trace (turn body env t).2.state
      ∨ Lost base.trace (turn body' env' u).2.state
      ∨ Exec.Twins (fun _ => False) (turn body env) (turn body' env')
        (fun _ _ => Finished c base) (fun _ _ _ => True) t u := by
  have hend : ∀ t u, Paced c base t u →
      Exec.Twins (fun _ => False) (endOfTurn c callback last env)
        (endOfTurn c callback last env') (fun _ _ => Finished c base)
        (fun _ _ _ => True) t u := by
    intro t u h
    refine Exec.Together.andThen (hlast t u h) (fun _ _ _ _ => trivial)
      fun _ t' u' h' => ?_
    exact (giveBack_finished h' env env').twins (fun _ _ _ h => h)
      fun _ _ _ _ => trivial
  -- what is lost stays lost, whatever the outside
  have hastray : ∀ (e : Exn) (v : Turn) (env : Env), Turn.Astray base v →
      Turn.Astray base ((failed e >>= fun _ => endOfTurn c callback last env)
        v).2 := by
    intro e v env h
    refine Exec.wp_final (P := Turn.Astray base) ?_
    unfold endOfTurn
    rw [Exec.wp_bind]
    refine Exec.wp_mono (hfailed_astray e v h) (fun _ v' h' => ?_)
      fun _ _ h => h
    rw [Exec.wp_bind]
    exact Exec.wp_mono (hlast_astray v' h')
      (fun _ v'' h'' => giveBack_astray h'' env)
      fun _ _ h => h
  intro turn
  have hthrown : ∀ {b : TurnM Unit} {e : Exn} {v v' : Turn} (env : Env),
      b v = (.error e, v') → turn b env v
        = (failed e >>= fun _ => endOfTurn c callback last env) v' :=
    fun env h => Exec.bind_apply_congr _ (Exec.tryCatch_apply_error h)
  cases hbody with
  | returned a b t' u' left right post =>
      exact Or.inr (Or.inr ((hend t' u' post).of_eq
        (Exec.bind_apply_ok (Exec.tryCatch_apply_ok left))
        (Exec.bind_apply_ok (Exec.tryCatch_apply_ok right))))
  | thrown e t' u' left right post =>
      refine Or.inr (Or.inr (Exec.Twins.of_eq ?_ (hthrown env left)
        (hthrown env' right)))
      exact Exec.Together.andThen (hfailed e t' u' post)
        (fun _ _ _ _ => trivial)
        fun _ t'' u'' h => hend t'' u'' h
  | lostLeft e t' left gone =>
      refine Or.inl ?_
      rw [hthrown env left]
      exact (hastray e t' env gone).1
  | lostRight e u' right gone =>
      refine Or.inr (Or.inl ?_)
      rw [hthrown env' right]
      exact (hastray e u' env' gone).1

-- ========================================================= a whole generation

theorem generateFailed_paced (e : Exn) (h : Paced c base t u) :
    Exec.Together (Paced c base) (generateFailed e)
      (generateFailed e) t u := by
  obtain ⟨⟨generated, cached, hu⟩, htwin⟩ := h
  generalize u.state = s' at hu htwin
  subst hu
  exact .returned _ _ _ _ rfl rfl ⟨rfl, ⟨generated, cached, rfl⟩,
    htwin.erased _⟩

/-- Both sides close the same temporary session, if there is one. It has the
same id on both, since ids are issued in step. -/
theorem closeTemporary_paced (h : Paced c base t u) :
    Exec.Together (Paced c base) closeTemporary closeTemporary t u := by
  obtain ⟨⟨generated, cached, hu⟩, htwin⟩ := h
  generalize u.state = s' at hu htwin
  subst hu
  unfold closeTemporary Turn.eraseContext
  refine .get ?_
  by_cases hnone : t.temporarySession = []
  · rw [Turn.beside_temporarySession, if_neg (by simp [hnone]),
      if_neg (by simp [hnone])]
    exact .pure ⟨rfl, ⟨generated, cached, rfl⟩, htwin⟩
  · rw [Turn.beside_temporarySession, if_pos hnone, if_pos hnone]
    let key := t.temporarySession
    have herased := htwin.erased key
    have h₁ : Abreast { t.state with cache := t.state.cache.erase key }
        { s' with cache := s'.cache.erase key } t.leasedModel
        { t with state := { t.state with cache := t.state.cache.erase key } }
        { t.beside s' generated cached with
          state := { s' with cache := s'.cache.erase key } } :=
      ⟨rfl, rfl, generated, cached, rfl⟩
    refine .update (.bind ((Turn.lift_ok (show s'.sessions.close key
      = t.state.sessions.close key by rw [htwin.sessions]) h₁).mono
        (fun _ h => h)
      (fun _ _ _ _ h => h) fun _ _ _ h => h.paced herased)
      fun closed closed' t₁ u₁ hclosed => ?_)
    obtain ⟨⟨hclosed, rfl⟩, h₁⟩ := hclosed
    obtain ⟨g, k, rfl⟩ := h₁.other
    -- a session that was closed is gone
    unfold SessionManager.close at hclosed
    obtain ⟨session, -, hclosed⟩ := bind_eq_ok.1 hclosed
    injection hclosed with hclosed
    refine .returned _ _ _ _ rfl rfl ⟨rfl, ⟨g, k, rfl⟩, ?_⟩
    have hgone := htwin.closed key
    rw [htwin.sessions, hclosed] at hgone
    show Twin c base (leaseOf t₁.leasedModel)
      { t₁.state with sessions := closed' } _
    rw [h₁.state, h₁.leased]
    exact hgone

theorem closeTemporary_astray (h : Turn.Astray base t) :
    Exec.wp closeTemporary (fun _ => Turn.Astray base)
      (fun _ => Turn.Astray base)
      t := by
  unfold closeTemporary Turn.eraseContext
  rw [Exec.wp_bind, Exec.wp_get]
  dsimp only
  by_cases hnone : t.temporarySession = []
  · rw [if_neg (by simp [hnone])]
    exact h
  · rw [if_pos hnone, Exec.wp_bind, Exec.wp_modify, Exec.wp_bind, wp_lift]
    exact ⟨fun _ _ => h, fun _ _ => h⟩

-- ============================================================= whole tasks

/-- What a consumer makes of all that a task hands it. -/
def Settled.shown (o : Settled) : Settled :=
  ⟨o.events.map StreamEvent.shown, o.result.shown⟩

/-- A task that ends alike on both sides, unless a load has failed. -/
def Alongside {α : Type} (c : Config) (base : State) (Same : α → α → Prop)
    (m m' : Task α) (s s' : State) : Prop :=
  Lost base.trace (m s).2 ∨ Lost base.trace (m' s').2
    ∨ Exec.Twins (fun _ => False) m m'
      (fun a b t t' => Same a b ∧ Twin c base noLease t t')
      (fun _ => Twin c base noLease) s s'

/-- A task that stays together ends alike. -/
theorem Exec.Together.alongside {α : Type} {m m' : Task α}
    (h : Exec.Together (Twin c base noLease) m m' s s') :
    Alongside c base Eq m m' s s' :=
  Or.inr (Or.inr h)

theorem settle_state (turn : TurnM Unit) (start : State → Turn) (s : State) :
    (settle turn start s).2 = (turn (start s)).2.state := by
  unfold settle
  cases turn (start s) with
  | mk r u => cases r <;> rfl

/-- A turn that never throws, as a task. -/
theorem settle_alongside {turn turn' : TurnM Unit} {start : State → Turn}
    (h : Lost base.trace (turn (start s)).2.state
      ∨ Lost base.trace (turn' (start s')).2.state
      ∨ Exec.Twins (fun _ => False) turn turn' (fun _ _ => Finished c base)
        (fun _ _ _ => True) (start s) (start s'))
    {o : Settled} {r : State} (hok : settle turn start s = (.ok o, r)) :
    Alongside c base (fun o o' => o'.shown = o.shown) (settle turn start)
      (settle turn' start) s s' := by
  rcases h with hlost | hlost | htwins
  · exact Or.inl (by rw [settle_state]; exact hlost)
  · exact Or.inr (Or.inl (by rw [settle_state]; exact hlost))
  · refine Or.inr (Or.inr ?_)
    cases htwins with
    | returned a b t' u' left right post =>
        refine .returned ⟨t'.delivered, t'.result⟩
          ⟨u'.delivered, u'.result⟩ t'.state
          u'.state ?_ ?_ ⟨?_, post.twin⟩
        · unfold settle
          rw [left]
        · unfold settle
          rw [right]
        · show Settled.mk (u'.delivered.map StreamEvent.shown) u'.result.shown
            = _
          rw [post.delivered, post.result]
          rfl
    | thrown e t' u' left right post =>
        unfold settle at hok
        rw [left] at hok
        cases hok
    | lostLeft e s' left gone => exact gone.elim
    | lostRight e t' right gone => exact gone.elim

/-- A chat or a completion. -/
theorem generate_alongside (hc : c.Honest)
    (hsteady : SteadyOutside c base.models.runtimes.runtimes)
    (henv : env.Same env')
    (h : Twin c base noLease s s') (hobs : Observed s) (requestId : QString)
    (request : ChatRequest) (completion : Option CompletionRequest) :
    Alongside c base (fun o o' => o'.shown = o.shown)
      (generate c env requestId request completion callback)
      (generate c env' requestId request completion callback) s s' := by
  obtain ⟨o, r, hok, -⟩ :=
    generate_spec hc h.left.sound hobs env requestId request
    completion callback
  refine settle_alongside ?_ hok
  have hfree : Unleased c base
      { state := s, request,
        result := { requestId, sessionId := request.sessionId } }
      { state := s', request,
        result := { requestId, sessionId := request.sessionId } } :=
    ⟨⟨⟨0, 0, rfl⟩, by rw [leaseOf_nil]; exact h⟩, rfl⟩
  exact turn_finished env env'
    (generateBody_paced hc hsteady henv completion hfree)
    (fun e _ _ h => generateFailed_paced e h)
    (fun _ _ h => closeTemporary_paced h)
    (fun _ _ h => h) fun _ h => closeTemporary_astray h

end LocalLLM
