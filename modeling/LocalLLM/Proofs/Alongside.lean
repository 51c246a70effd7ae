/-
The other tasks on two workers that a task cannot tell apart: structured
conversations, embeddings and measurements, and the requests on sessions.

A conversation is a turn like a chat, with another body; what its reply is
checked with draws UUIDs, the same ones on both sides. An embedding and a
measurement work with a lease and no turn, and part where a turn does: where
the load of their model has failed.
-/
import LocalLLM.Proofs.Abreast

namespace LocalLLM

open Std ModelManager

variable {c : Config} {base : State} {env env' : Env}
  {callback : Option StreamCallback} {s s' : State}
  {lease : QString} {t u : Turn}

-- ============================================================ conversations

theorem onRaw_abreast (henv : env.Same env') (text : QString)
    (h : Abreast s s' lease t u) :
    Exec.Together (Abreast s s' lease) (onRaw c env text) (onRaw c env' text)
      t u := by
  obtain ⟨generated, cached, rfl⟩ := h.other
  unfold onRaw
  refine .get (.set (Exec.Together.andThen (Turn.lift_together
    (henv.throwIfCancelled _)
    (h.update (fun t => { t with texts := t.texts + 1 })
      (fun _ _ _ _ => rfl) rfl rfl)) (fun _ _ _ h => h) fun _ t₁ u₁ h₁ => ?_))
  have h₂ := h₁.update (fun t => { t with
    stop := (t.stop.push text).2
    raw := t.raw ++ (t.stop.push text).1 }) (fun _ _ _ _ => rfl) rfl rfl
  obtain ⟨g, k, rfl⟩ := h₁.other
  refine .update (.get (Exec.Together.andThen (Turn.lift_together rfl h₂)
    (fun _ _ _ h => h) fun _ t₃ u₃ h₃ => ?_))
  exact .pure ⟨rfl, h₃⟩

/-- The id a call is given is the same on both sides. -/
theorem withId_twin {held : Held} (h : Twin c base held s s')
    (call : JsonObject) :
    Exec.Together (Twin c base held) (withId c call) (withId c call) s s' := by
  unfold withId
  by_cases hfresh : Json.contains call (qs "id") = false
      ∨ (Json.isString (Json.lookup call (qs "id")) = true
        ∧ memberText call "id" = [])
  · rw [if_pos hfresh]
    have hissued : Twin c base held { s with issued := s.issued + 1 }
        { s' with issued := s'.issued + 1 } := by
      refine h.stepped (stepped_issued h.left.sound)
        (stepped_issued h.right.sound) ?_
      unfold State.view
      rw [h.sessions, h.issued, h.remembered]
    have huuid : Exec.Together (Twin c base held) (createUuid c) (createUuid c)
        s s' := by
      unfold createUuid
      refine .get (.set (.pure ⟨?_, hissued⟩))
      rw [h.issued]
    exact Exec.Together.andThen huuid (fun _ _ _ h => h)
      fun id _ _ h => .pure ⟨rfl, h⟩
  · rw [if_neg hfresh]
    exact .pure ⟨rfl, h⟩

theorem checkReplyCalls_twin {held : Held} (names : List QString) :
    ∀ (calls : List Json) (ids : List QString) (s s' : State),
    Twin c base held s s' →
    Exec.Together (Twin c base held) (checkReplyCalls c names calls ids)
      (checkReplyCalls c names calls ids) s s' := by
  intro calls
  induction calls with
  | nil => intro ids s s' h; exact .pure ⟨rfl, h⟩
  | cons value rest ih =>
      intro ids s s' h
      unfold checkReplyCalls
      refine Exec.Together.andThen (withId_twin h _) (fun _ _ _ h => h)
        fun call t t' h₁ => ?_
      refine Exec.Together.andThen (.ofExcept rfl h₁) (fun _ _ _ h => h)
        fun id t t' h₂ => ?_
      refine Exec.Together.andThen (.ofExcept rfl h₂) (fun _ _ _ h => h)
        fun _ t t' h₃ => ?_
      exact Exec.Together.andThen (ih _ _ _ h₃) (fun _ _ _ h => h)
        fun calls t t' h₄ => .pure ⟨rfl, h₄⟩

/-- A reply passes on both sides, with the same ids, or on neither. -/
theorem validateConversationReply_twin {held : Held}
    (h : Twin c base held s s')
    (reply : RuntimeConversationReply) (request : ConversationRequest) :
    Exec.Together (Twin c base held)
      (validateConversationReply c reply request)
      (validateConversationReply c reply request) s s' := by
  unfold validateConversationReply
  refine Exec.Together.andThen (.ofExcept rfl h) (fun _ _ _ h => h)
    fun _ t t' h => ?_
  refine Exec.Together.andThen (.ofExcept rfl h) (fun _ _ _ h => h)
    fun _ t t' h => ?_
  refine Exec.Together.andThen (.ofExcept rfl h) (fun _ _ _ h => h)
    fun _ t t' h => ?_
  refine Exec.Together.andThen (.ofExcept rfl h) (fun _ _ _ h => h)
    fun _ t t' h => ?_
  exact Exec.Together.andThen (checkReplyCalls_twin _ _ _ _ _ h)
    (fun _ _ _ h => h)
    fun calls t t' h => .pure ⟨rfl, h⟩

/-- Two conversations that have their models. -/
structure Conversing (c : Config) (base : State) (model model' : LoadedModel)
    (t u : Turn) : Prop where
  paced : Paced c base t u
  spec : model'.spec = model.spec
  alike : model.runtime.Alike model'.runtime
  weights : t.state.models.runtimes.models[model.spec.id]? = some model
  weights' : u.state.models.runtimes.models[model.spec.id]? = some model'
  key : IsConversation model.spec.id t.cacheId

/-- The part of a conversation before it has its model: both sides fail
alike, or both have it, or a load has failed. -/
theorem converseOpen_paced
    (hsteady : SteadyOutside c base.models.runtimes.runtimes)
    (henv : env.Same env') (request : ConversationRequest)
    (h : Unleased c base t u) :
    Exec.Twins (Turn.Astray base) (converseOpen c env request)
      (converseOpen c env' request)
      (fun model model' => Conversing c base model model')
      (fun _ => Paced c base) t u := by
  obtain ⟨⟨⟨generated, cached, hu⟩, htwin⟩, hlease⟩ := h
  rw [hlease] at htwin
  generalize u.state = s' at hu htwin
  subst hu
  have hstart : Abreast t.state s' [] t (t.beside s' generated cached) :=
    ⟨rfl, hlease, generated, cached, rfl⟩
  unfold converseOpen
  refine Exec.Together.andThen
    (Turn.lift_together (henv.throwIfCancelled _) hstart)
    (fun _ _ _ h => h.paced htwin) fun _ t₁ u₁ h₁ => ?_
  refine Exec.Together.andThen (Turn.lift_together rfl h₁)
    (fun _ _ _ h => h.paced htwin) fun _ t₂ u₂ h₂ => ?_
  obtain ⟨g₂, k₂, rfl⟩ := h₂.other
  refine .get (.bind ((resolve_together henv t₂.state.models s'.models
    request.model h₂).mono (fun _ h => h.elim) (fun _ _ _ _ h => h)
    fun _ _ _ h => h.paced htwin) fun record record' t₃ u₃ hrecord => ?_)
  obtain ⟨⟨hrecord, hmanifest⟩, h₃⟩ := hrecord
  refine Exec.Together.andThen (Turn.lift_together (by rw [hmanifest]) h₃)
    (fun _ _ _ h => h.paced htwin) fun _ t₄ u₄ h₄ => ?_
  rw [hmanifest]
  have hvalid := resolve_valid hrecord
  rw [leaseOf_nil] at htwin
  refine .bind (acquire_paced hsteady henv h₄ htwin (validId_ne_nil hvalid)
    request.keepAliveMs) fun model model' t₅ u₅ hacquired => ?_
  obtain ⟨s₅, s₅', h₅, htwin₅, -, hid, hspec, halike, hmodel, hmodel'⟩ :=
    hacquired
  obtain ⟨g₅, k₅, rfl⟩ := h₅.other
  obtain ⟨rfl, -⟩ := And.intro h₅.state h₅.leased
  rw [← hid] at hvalid htwin₅ hmodel hmodel'
  refine .update (.pure ⟨⟨⟨g₅, k₅, ?_⟩, htwin₅⟩, hspec, halike,
    hmodel, hmodel',
    hvalid, _, rfl⟩)
  rw [hspec]
  rfl

/-- From the prompt of a conversation to the end of its generation, which is
the only part of it that touches a context. -/
theorem converseGenerate_paced (hc : c.Honest) (henv : env.Same env')
    (request : ConversationRequest) {model model' : LoadedModel}
    (h : Conversing c base model model' t u) :
    Exec.Twins (fun _ => False) (converseGenerate c env callback request model)
      (converseGenerate c env' callback request model')
      (fun p p' t' u' => p'.1 = p.1 ∧ SameFinish p.2 p'.2 ∧ Paced c base t' u')
      (fun _ => Paced c base) t u := by
  obtain ⟨⟨⟨generated, cached, hu⟩, htwin⟩, hspec, halike, hmodel,
    hmodel', hkey⟩ := h
  generalize u.state = s' at hu htwin hmodel'
  subst hu
  have hstart : Abreast t.state s' t.leasedModel t
      (t.beside s' generated cached) :=
    ⟨rfl, rfl, generated, cached, rfl⟩
  have hstay : ∀ x y, x = t ∧ y = t.beside s' generated cached →
      Paced c base x y := fun x y hxy => by
    rw [hxy.1, hxy.2]
    exact hstart.paced htwin
  unfold converseGenerate
  refine Exec.Together.andThen (R := fun x y => x = t
      ∧ y = t.beside s' generated cached) (Turn.lift_together
    (by rw [henv.probe, halike.prepareConversation]) ⟨rfl, rfl⟩)
    (fun _ _ _ h => hstay _ _ h) fun prepared t₁ u₁ h₁ => ?_
  obtain ⟨rfl, rfl⟩ := h₁
  refine Exec.Together.andThen (R := fun x y => x = t₁
      ∧ y = t₁.beside s' generated cached) (Turn.lift_together
    (by rw [hspec]) ⟨rfl, rfl⟩) (fun _ _ _ h => hstay _ _ h) fun _ t u h₂ => ?_
  obtain ⟨rfl, rfl⟩ := h₂
  have hcreated := Turn.onState_twins (hstart.update (fun t => { t with
      result := { t.result with usage := { t.result.usage with
        promptTokens := prepared.tokenCount } } })
          (fun _ _ _ _ => rfl) rfl rfl)
    (htwin.useContext hc env env' hspec halike hmodel hmodel' (Or.inr hkey))
  refine .update (.get (.bind
    (hcreated.mono (fun _ h => h.1) (fun _ _ _ _ h => h)
    fun _ _ _ h => ?_) fun context context' t₃ u₃ hcontext => ?_))
  · obtain ⟨s₂, s₂', h₂, htwin₂, -⟩ := h
    exact h₂.paced htwin₂
  obtain ⟨s₂, s₂', h₃, htwin₂, -, hcontexts⟩ := hcontext
  refine Exec.Together.andThen (notify_abreast h₃ _)
    (fun _ _ _ h => h.paced htwin₂) fun _ t₄ u₄ h₄ => ?_
  -- the runtime calls back alike on both sides
  have hecho := hcontexts.generateConversation env.probe prepared
    request.options
  have hrun := Caller.Echo.run (onRaw c env) (onRaw c env')
    (fun text t u h => onRaw_abreast henv text h) hecho _ _ (h₄.update
      (fun t =>
        { t with stop := { stops := request.options.stop ++ prepared.stop } })
      (fun _ _ _ _ => rfl) rfl rfl)
  refine .update (.bind ((hrun.mono (fun _ h => h) (fun _ _ _ _ h => h)
    fun _ _ _ h => h.paced htwin₂).of_eq rfl
      (by rw [henv.probe])) fun result result' t₅ u₅ h₅ => ?_)
  exact .pure ⟨rfl, h₅.1, h₅.2.paced htwin₂⟩

theorem emitReply_abreast (h : Abreast s s' lease t u) (text : QString) :
    Exec.Together (Abreast s s' lease) (emitReply callback text)
      (emitReply callback text) t u := by
  obtain ⟨generated, cached, rfl⟩ := h.other
  unfold emitReply
  refine .get ?_
  by_cases hempty : text = []
  · rw [if_neg (by simp [hempty]), if_neg (by simp [hempty])]
    exact .pure ⟨rfl, h⟩
  · rw [if_pos hempty, if_pos hempty]
    exact notify_abreast h _

/-- A context that a stop string has cut is dropped on both sides. -/
theorem dropStopped_paced (h : Paced c base t u) :
    Exec.Together (Paced c base) dropStopped dropStopped t u := by
  have herased := eraseContext_paced h t.cacheId
  obtain ⟨⟨generated, cached, hu⟩, htwin⟩ := h
  generalize u.state = s' at hu htwin
  subst hu
  unfold dropStopped
  refine .get ?_
  rw [Turn.beside_stop, Turn.beside_cacheId]
  by_cases hstopped : t.stop.stopped = true
  · rw [if_pos hstopped]
    exact herased
  · rw [if_neg hstopped]
    exact .pure ⟨rfl, ⟨generated, cached, rfl⟩, htwin⟩

/-- From the raw text of a conversation to its reply. The parser sees the same
text on both sides, so it gives both the same reply or the same error. -/
theorem converseReply_paced (henv : env.Same env')
    (request : ConversationRequest)
    {model model' : LoadedModel} (halike : model.runtime.Alike model'.runtime)
    (prepared : RuntimeConversationPrompt)
    {generated generated' : RuntimeResult}
    (hfinish : SameFinish generated generated') (h : Paced c base t u) :
    Exec.Together (Paced c base)
      (converseReply c env callback request model prepared generated)
      (converseReply c env' callback request model' prepared generated')
        t u := by
  have htwin := h.twin
  obtain ⟨reason, tokens, hits⟩ := generated
  obtain ⟨reason', tokens', hits'⟩ := generated'
  obtain rfl : reason = reason' := hfinish
  unfold converseReply
  refine Exec.Together.andThen
    (Turn.lift_together (henv.throwIfCancelled _) h.abreast)
    (fun _ _ _ h => h.paced htwin) fun _ t₁ u₁ h₁ => ?_
  refine .update (Exec.Together.andThen (Turn.lift_together rfl (h₁.update
    (fun t =>
      { t with raw := t.raw ++ t.stop.finish.1, stop := t.stop.finish.2 })
    (fun _ _ _ _ => rfl) rfl rfl)) (fun _ _ _ h => h.paced htwin)
    fun _ t₂ u₂ h₂ => ?_)
  -- the counts are those of each side
  obtain ⟨g₂, k₂, rfl⟩ := h₂.other
  have h₃ : Abreast t.state u.state t.leasedModel
      { t₂ with result := { t₂.result with
        usage := { t₂.result.usage with
          generatedTokens := tokens
          cachedTokens := hits }
        finishReason := if t₂.stop.stopped then .Stop else reason } }
      { t₂.beside u.state g₂ k₂ with result := {
        (t₂.beside u.state g₂ k₂).result with
        usage := { (t₂.beside u.state g₂ k₂).result.usage with
          generatedTokens := tokens'
          cachedTokens := hits' }
        finishReason := if t₂.stop.stopped then .Stop else reason } } :=
    ⟨h₂.state, h₂.leased, tokens', hits', rfl⟩
  refine .update (.get (Exec.Together.andThen (Turn.lift_together rfl h₃)
    (fun _ _ _ h => h.paced htwin) fun _ t₄ u₄ h₄ => ?_))
  refine Exec.Together.andThen (Turn.lift_together
    (by rw [henv.probe, halike.parseConversation]; rfl) h₄)
    (fun _ _ _ h => h.paced htwin) fun parsed t₅ u₅ h₅ => ?_
  refine .bind ((Turn.onState_twins h₅
    (validateConversationReply_twin htwin parsed request)).mono
      (fun _ h => h.1)
    (fun _ _ _ _ h => h) fun _ _ _ h => ?_) fun reply reply' t₆ u₆ hreply => ?_
  · obtain ⟨s₂, s₂', h₂, htwin₂⟩ := h
    exact h₂.paced htwin₂
  obtain ⟨s₂, s₂', h₆, rfl, htwin₂⟩ := hreply
  refine .update (Exec.Together.andThen (emitReply_abreast (h₆.update
    (fun t => { t with result := { t.result with
      text := reply.text
      reasoning := reply.reasoning
      toolCalls := reply.toolCalls } }) (fun _ _ _ _ => rfl) rfl rfl) _)
    (fun _ _ _ h => h.paced htwin₂) fun _ t₇ u₇ h₇ => ?_)
  exact dropStopped_paced (h₇.paced htwin₂)

/-- The body of a conversation. -/
theorem converseBody_paced (hc : c.Honest)
    (hsteady : SteadyOutside c base.models.runtimes.runtimes)
    (henv : env.Same env')
    (request : ConversationRequest) (h : Unleased c base t u) :
    Exec.Twins (Turn.Astray base) (converseBody c env callback request)
      (converseBody c env' callback request) (fun _ _ => Paced c base)
      (fun _ => Paced c base) t u := by
  unfold converseBody
  refine .bind (converseOpen_paced hsteady henv request h)
    fun model model' t₁ u₁ h₁ => ?_
  refine .bind ((converseGenerate_paced hc henv request h₁).mono
    (fun _ h => h.elim)
    (fun _ _ _ _ h => h) fun _ _ _ h => h) fun p p' t₂ u₂ h₂ => ?_
  obtain ⟨prepared, generated⟩ := p
  obtain ⟨prepared', generated'⟩ := p'
  obtain ⟨rfl, hfinish, hpaced⟩ := h₂
  exact Exec.Together.twins
    (converseReply_paced henv request h₁.alike _ hfinish
    hpaced) (fun _ _ _ h => h) fun _ _ _ h => h

theorem converseFailed_paced (e : Exn) (h : Paced c base t u) :
    Exec.Together (Paced c base) (converseFailed e)
      (converseFailed e) t u := by
  obtain ⟨⟨generated, cached, hu⟩, htwin⟩ := h
  generalize u.state = s' at hu htwin
  subst hu
  exact .returned _ _ _ _ rfl rfl ⟨rfl, ⟨generated, cached, rfl⟩,
    htwin.erased _⟩

theorem dropUnnamed_paced (request : ConversationRequest)
    (h : Paced c base t u) :
    Exec.Together (Paced c base) (dropUnnamed request)
      (dropUnnamed request) t u := by
  have herased := eraseContext_paced h t.cacheId
  obtain ⟨⟨generated, cached, hu⟩, htwin⟩ := h
  generalize u.state = s' at hu htwin
  subst hu
  unfold dropUnnamed
  refine .get ?_
  rw [Turn.beside_cacheId]
  by_cases hnamed : request.contextId = []
  · rw [if_pos hnamed]
    exact herased
  · rw [if_neg hnamed]
    exact .pure ⟨rfl, ⟨generated, cached, rfl⟩, htwin⟩

theorem dropUnnamed_astray (request : ConversationRequest)
    (h : Turn.Astray base t) :
    Exec.wp (dropUnnamed request) (fun _ => Turn.Astray base)
      (fun _ => Turn.Astray base) t := by
  unfold dropUnnamed
  rw [Exec.wp_bind, Exec.wp_get]
  by_cases hnamed : request.contextId = []
  · rw [if_pos hnamed]
    exact h
  · rw [if_neg hnamed]
    exact h

/-- A conversation. -/
theorem converse_alongside (hc : c.Honest)
    (hsteady : SteadyOutside c base.models.runtimes.runtimes)
    (henv : env.Same env')
    (h : Twin c base noLease s s') (hobs : Observed s) (requestId : QString)
    (request : ConversationRequest) :
    Alongside c base (fun o o' => o'.shown = o.shown)
      (converse c env requestId request callback)
      (converse c env' requestId request callback) s s' := by
  obtain ⟨o, r, hok, -⟩ :=
    converse_spec hc h.left.sound hobs env requestId request callback
  refine settle_alongside ?_ hok
  have hfree : Unleased c base (converseStart requestId request s)
      (converseStart requestId request s') :=
    ⟨⟨⟨0, 0, rfl⟩, by
      show Twin c base (leaseOf []) s s'
      rw [leaseOf_nil]
      exact h⟩, rfl⟩
  exact turn_finished env env'
    (converseBody_paced hc hsteady henv request hfree)
    (fun e _ _ h => converseFailed_paced e h)
    (fun _ _ h => dropUnnamed_paced request h)
    (fun _ _ h => h) fun _ h => dropUnnamed_astray request h

-- ============================================ embeddings and measurements

/-- Two tasks whose states are twins under their lease. -/
structure Lent (c : Config) (base : State) (l l' : Lease) : Prop where
  acquired : l'.acquired = l.acquired
  twin : Twin c base (leaseOf l.acquired) l.state l'.state

/-- A task without a lease in whose state a load has failed. -/
def Lease.Astray (base : State) (l : Lease) : Prop :=
  Lost base.trace l.state ∧ l.acquired = []

variable {α : Type}

/-- A body between its lease and the value of its promise: both sides end
alike, or a load has failed on one of them. -/
theorem around_alongside {body body' : LeaseM α} (env env' : Env)
    (hbody : Exec.Twins (Lease.Astray base) body body'
      (fun a b l l' => a = b ∧ Lent c base l l' ∧ l.acquired ≠ [])
      (fun _ => Lent c base) { state := s } { state := s' }) :
    Alongside c base Eq (Lease.around c env body)
      (Lease.around c env' body') s s' := by
  -- without a lease there is nothing to give back
  have hnone : ∀ (e : Env) (l : Lease), l.acquired = [] →
      (if l.acquired ≠ [] then release c e l.acquired else pure ()) l.state
        = (.ok (), l.state) := by
    intro e l hl
    rw [if_neg (by simp [hl])]
    rfl
  cases hbody with
  | returned a b l l' left right post =>
      obtain ⟨rfl, hlent, hne⟩ := post
      obtain ⟨r, r', hback, hback', htwin, -⟩ := hlent.twin.giveBack env env'
      rw [if_pos hne] at hback hback'
      rw [← hlent.acquired] at hback'
      exact Or.inr (Or.inr (.returned a a r r' (around_ok left hback)
        (around_ok right hback') ⟨rfl, htwin⟩))
  | thrown e l l' left right post =>
      obtain ⟨r, r', hback, hback', htwin, -⟩ := post.twin.giveBack env env'
      rw [← post.acquired] at hback'
      exact Or.inr (Or.inr (.thrown e r r' (around_error left hback)
        (around_error right hback') htwin))
  | lostLeft e l left gone =>
      refine Or.inl ?_
      rw [around_error left (hnone env l gone.2)]
      exact gone.1
  | lostRight e l' right gone =>
      refine Or.inr (Or.inl ?_)
      rw [around_error right (hnone env' l' gone.2)]
      exact gone.1

/-- Taking the lease of a task that has none. -/
theorem acquire_lent (hsteady : SteadyOutside c base.models.runtimes.runtimes)
    (henv : env.Same env') (htwin : Twin c base noLease s s') {id : QString}
    (hid : id ≠ []) (keepAlive : Int) :
    Exec.Twins (Lease.Astray base) (Lease.onState (acquire c env id keepAlive))
      (Lease.onState (acquire c env' id keepAlive))
      (fun model model' l l' => Twin c base (leaseOf id) l.state l'.state
        ∧ model.spec.id = id ∧ model'.spec = model.spec
        ∧ model.runtime.Alike model'.runtime)
      (fun _ => Lent c base) { state := s } { state := s' } := by
  refine .zoom (htwin.acquire hsteady henv id keepAlive)
    (fun _ h => ⟨⟨h, rfl⟩, ⟨h, rfl⟩⟩) (fun model model' t t' hacquired => ?_)
    fun e t t' hthrown => ⟨rfl, ?_⟩
  · obtain ⟨htwin₂, -, hspecId, hspec, halike, -⟩ := hacquired
    rw [leaseOf_of_ne hid] at htwin₂
    exact ⟨htwin₂, hspecId, hspec, halike⟩
  · show Twin c base (leaseOf []) t t'
    rw [leaseOf_nil]
    exact hthrown.1

/-- The contexts of a model are dropped on both sides. -/
theorem Twin.erasedModel {held : Held} (h : Twin c base held s s')
    (modelId : QString) :
    Twin c base held { s with cache := s.cache.eraseModel modelId }
      { s' with cache := s'.cache.eraseModel modelId } :=
  h.stepped (stepped_eraseModel h.left.sound modelId)
    (stepped_eraseModel h.right.sound modelId) h.view

/-- An embedding. It takes its lease like any other task, and drops the
contexts of its model on both sides. -/
theorem embedText_alongside
    (hsteady : SteadyOutside c base.models.runtimes.runtimes)
    (henv : env.Same env') (h : Twin c base noLease s s')
    (model text : QString) :
    Alongside c base Eq (embedText c env model text)
      (embedText c env' model text)
      s s' := by
  have hstart : Lent c base { state := s } { state := s' } :=
    ⟨rfl, by rw [leaseOf_nil]; exact h⟩
  let R := fun l l' : Lease => l = { state := s } ∧ l' = { state := s' }
  have hstay : ∀ l l' : Lease, R l l' → Lent c base l l' := fun l l' hl => by
    rw [hl.1, hl.2]
    exact hstart
  refine around_alongside env env' ?_
  unfold embedBody
  refine Exec.Together.andThen (R := R) (.ofExcept (henv.throwIfCancelled _)
    ⟨rfl, rfl⟩) (fun _ => hstay) fun _ l l' hl => ?_
  refine Exec.Together.andThen (R := R) (.ofExcept rfl hl) (fun _ => hstay)
    fun _ l l' hl => ?_
  refine .get
    (.bind ((resolve_together henv l.state.models l'.state.models model
    hl).mono (fun _ h => h.elim) (fun _ _ _ _ h => h) fun _ => hstay)
    fun record record' l l' hrecord => ?_)
  obtain ⟨⟨hrecord, hmanifest⟩, hl⟩ := hrecord
  refine Exec.Together.andThen (R := R) (.ofExcept (by rw [hmanifest]) hl)
    (fun _ => hstay) fun _ l l' hl => ?_
  obtain ⟨rfl, rfl⟩ := hl
  rw [hmanifest]
  have hne := validId_ne_nil (resolve_valid hrecord)
  refine .bind (acquire_lent hsteady henv h hne (-1))
    fun loaded loaded' l l' hl => ?_
  obtain ⟨htwin, hid, hspec, halike⟩ := hl
  have hembed := halike.embedText
  refine .update ?_
  rw [hspec, ← hembed]
  rw [← hid] at hne htwin
  have hlent : Lent c base { l with acquired := loaded.spec.id }
      { l' with acquired := loaded.spec.id } := ⟨rfl, htwin⟩
  cases loaded.runtime.embedText with
  | none => exact .throw hlent
  | some embed =>
      have herased : Lent c base
          { state := { l.state with
              cache := l.state.cache.eraseModel loaded.spec.id }
            acquired := loaded.spec.id }
          { state := { l'.state with
              cache := l'.state.cache.eraseModel loaded.spec.id }
            acquired := loaded.spec.id } :=
        ⟨rfl, htwin.erasedModel loaded.spec.id⟩
      let S := fun l l' : Lease => Lent c base l l' ∧ l.acquired ≠ []
      refine .update (Exec.Together.andThen (R := S)
        (.ofExcept (by rw [henv.probe]) ⟨herased, hne⟩)
        (fun _ _ _ h => h.1) fun result l l' h => ?_)
      refine Exec.Together.andThen (R := S) (.ofExcept
        (henv.throwIfCancelled _) h) (fun _ _ _ h => h.1) fun _ l l' h => ?_
      exact Exec.Together.andThen (R := S) (.ofExcept rfl h)
        (fun _ _ _ h => h.1) fun _ l l' h => .pure ⟨rfl, h⟩

/-- A measurement. -/
theorem measureConversation_alongside
    (hsteady : SteadyOutside c base.models.runtimes.runtimes)
    (henv : env.Same env')
    (h : Twin c base noLease s s') (request : ConversationRequest) :
    Alongside c base Eq (measureConversation c env request)
      (measureConversation c env' request) s s' := by
  have hstart : Lent c base { state := s } { state := s' } :=
    ⟨rfl, by rw [leaseOf_nil]; exact h⟩
  let R := fun l l' : Lease => l = { state := s } ∧ l' = { state := s' }
  have hstay : ∀ l l' : Lease, R l l' → Lent c base l l' := fun l l' hl => by
    rw [hl.1, hl.2]
    exact hstart
  refine around_alongside env env' ?_
  unfold measureBody
  refine Exec.Together.andThen (R := R) (.ofExcept (henv.throwIfCancelled _)
    ⟨rfl, rfl⟩) (fun _ => hstay) fun _ l l' hl => ?_
  refine Exec.Together.andThen (R := R) (.ofExcept rfl hl) (fun _ => hstay)
    fun _ l l' hl => ?_
  refine .get (.bind ((resolve_together henv l.state.models l'.state.models
    request.model hl).mono (fun _ h => h.elim) (fun _ _ _ _ h => h)
      fun _ => hstay)
    fun record record' l l' hrecord => ?_)
  obtain ⟨⟨hrecord, hmanifest⟩, hl⟩ := hrecord
  refine Exec.Together.andThen (R := R) (.ofExcept (by rw [hmanifest]) hl)
    (fun _ => hstay) fun _ l l' hl => ?_
  obtain ⟨rfl, rfl⟩ := hl
  rw [hmanifest]
  have hne := validId_ne_nil (resolve_valid hrecord)
  refine .bind (acquire_lent hsteady henv h hne request.keepAliveMs)
    fun model model' l l' hl => ?_
  obtain ⟨htwin, hid, hspec, halike⟩ := hl
  refine .update ?_
  rw [hspec]
  rw [← hid] at hne htwin
  have hlent : Lent c base { l with acquired := model.spec.id }
      { l' with acquired := model.spec.id } := ⟨rfl, htwin⟩
  let S := fun l l' : Lease => Lent c base l l' ∧ l.acquired ≠ []
  refine Exec.Together.andThen (R := S)
    (.ofExcept (by rw [henv.probe, halike.prepareConversation]) ⟨hlent, hne⟩)
    (fun _ _ _ h => h.1) fun prepared l l' h => ?_
  exact Exec.Together.andThen (R := S) (.ofExcept (henv.throwIfCancelled _) h)
    (fun _ _ _ h => h.1) fun _ l l' h => .pure ⟨rfl, h⟩

-- ================================================================= sessions

/-- A session is created under the same id on both sides. -/
theorem createSession_together (hc : c.Honest) (henv : env.Same env')
    (h : Twin c base noLease s s') (model system : QString) :
    Exec.Together (Twin c base noLease) (createSession c env model system)
      (createSession c env' model system) s s' := by
  unfold createSession
  refine .get (.bind (resolve_together henv s.models s'.models model h)
    fun info info' t t' hinfo => ?_)
  obtain ⟨⟨hinfo, hmanifest⟩, h₁⟩ := hinfo
  rw [hmanifest]
  refine Exec.Together.andThen (.ofExcept rfl h₁) (fun _ _ _ h => h)
    fun _ t t' h₂ => ?_
  refine Exec.Together.andThen (.ofExcept rfl h₂) (fun _ _ _ h => h)
    fun _ t t' h₃ => ?_
  exact h₃.newSession hc (resolve_valid hinfo) system

theorem resetSession_together (h : Twin c base noLease s s') (id : QString) :
    Exec.Together (Twin c base noLease) (resetSession id)
      (resetSession id) s s' := by
  unfold resetSession
  refine .get ?_
  rw [h.sessions]
  cases hreset : s.sessions.reset id with
  | error e => exact .thrown e s s' rfl rfl h
  | ok sessions =>
      unfold SessionManager.reset at hreset
      obtain ⟨session, hget, hreset⟩ := bind_eq_ok.1 hreset
      injection hreset with hreset
      subst hreset
      have hset := stepped_setMessages h.left.sound (sessions_get_ok hget)
        (SessionManager.afterReset session.messages)
      have hset' := stepped_setMessages h.right.sound
        (by rw [h.sessions]; exact sessions_get_ok hget)
        (SessionManager.afterReset session.messages)
      rw [h.sessions] at hset'
      refine .returned _ _ _ _ rfl rfl ⟨rfl, h.stepped
        (hset.trans (stepped_erase hset.sound id))
        (hset'.trans (stepped_erase hset'.sound id)) ?_⟩
      unfold State.view
      rw [h.issued, h.remembered]

theorem closeSession_together (h : Twin c base noLease s s') (id : QString) :
    Exec.Together (Twin c base noLease) (closeSession id)
      (closeSession id) s s' := by
  have hclosed := h.closed id
  unfold closeSession
  refine .get ?_
  rw [h.sessions] at hclosed ⊢
  cases hclose : s.sessions.close id with
  | error e => exact .thrown e s s' rfl rfl h
  | ok sessions =>
      unfold SessionManager.close at hclose
      obtain ⟨session, -, hclose⟩ := bind_eq_ok.1 hclose
      injection hclose with hclose
      subst hclose
      exact .returned _ _ _ _ rfl rfl ⟨rfl, hclosed⟩

end LocalLLM
