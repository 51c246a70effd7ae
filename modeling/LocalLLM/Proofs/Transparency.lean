/-
Automatic evictions are invisible to sessions, over whole runs.

# Two runs

A run of requests is compared with the same run in which, between any two
requests, any loaded models were evicted (`Interspersed`): by an expired
keep-alive, by memory pressure, or to admit another model. The clock and the
memory that is free may read differently in the two. `serve_twin` is the step
lemma, with one case for each request of a client, and `play_twin` the
induction.

# What is asked

Every load that a request triggers succeeds, in both runs, and packages and
runtimes are `SteadyOutside`.
-/
import LocalLLM.Proofs.Alongside

namespace LocalLLM

open Std ModelManager

variable {c : Config} {base s s' : State} {env env' : Env}

-- =================================================================== the runs

/-- What happens to a worker: a request, an eviction, or maintenance. -/
inductive Occurrence
  | request (env : Env) (request : Request)
  | eviction (env : Env) (id : QString)
  | maintenance (env : Env)

/-- An automatic eviction of a model, if it is loaded. -/
def evictLoaded (env : Env) (id : QString) (s : State) : State :=
  if id ∈ s.models.loaded then (evict env id true s).2 else s

/-- A run, with what its requests were answered. -/
def play (c : Config) : State → List Occurrence →
    List (Except Exn Answer) × State
  | s, [] => ([], s)
  | s, .request env request :: rest =>
      let outcome := serve c env request s
      let (answers, last) := play c outcome.2 rest
      (outcome.1 :: answers, last)
  | s, .eviction env id :: rest => play c (evictLoaded env id s) rest
  | s, .maintenance env :: rest => play c (maintain c env s).2 rest

/-- The requests that work in sessions or on models without
configuring them. -/
def Request.ofClient : Request → Bool
  | .createSession .. => true
  | .resetSession .. => true
  | .closeSession .. => true
  | .chat .. => true
  | .complete .. => true
  | .converse .. => true
  | .embedText .. => true
  | .measureConversation .. => true
  | _ => false

/-- The second run has the requests of the first, and evictions
between them. -/
inductive Interspersed : List (Env × Request) → List Occurrence → Prop
  | nil : Interspersed [] []
  | request {l : List (Env × Request)} {r : List Occurrence} (env env' : Env)
      (request : Request) (henv : env.Same env')
      (hclient : request.ofClient = true) (rest : Interspersed l r) :
      Interspersed ((env, request) :: l) (.request env' request :: r)
  | eviction {l : List (Env × Request)} {r : List Occurrence} (env : Env)
      (id : QString) (rest : Interspersed l r) :
      Interspersed l (.eviction env id :: r)
  | maintenance {l : List (Env × Request)} {r : List Occurrence} (env : Env)
      (rest : Interspersed l r) : Interspersed l (.maintenance env :: r)

/-- A run of requests only. -/
def uninterrupted (l : List (Env × Request)) : List Occurrence :=
  l.map fun p => .request p.1 p.2

-- ================================================================== one step

/-- What a client makes of an answer: all of it but the counts of
the runtime. -/
def Answer.shown : Answer → Answer
  | .settled outcome => .settled outcome.shown
  | answer => answer

/-- Two outcomes that a client cannot tell apart. -/
def SameAnswer (r r' : Except Exn Answer) : Prop :=
  r'.map Answer.shown = r.map Answer.shown

/-- A request on both sides: a load has failed on one of them, or the
answers are the same and so are the states, as far as a task can tell. -/
def ServedAlike (c : Config) (base : State) (m m' : Task Answer)
    (s s' : State) : Prop :=
  Lost base.trace (m s).2 ∨ Lost base.trace (m' s').2
    ∨ (SameAnswer (m s).1 (m' s').1 ∧ Twin c base noLease (m s).2 (m' s').2)

theorem bind_answer {α : Type} (m : Task α) (f : α → Answer) (s : State) :
    (m >>= fun a => pure (f a)) s = ((m s).1.map f, (m s).2) := by
  rw [Exec.bind_apply]
  cases m s with
  | mk r t => cases r <;> rfl

/-- A task whose value is made an answer. -/
theorem Alongside.answered {α : Type} {Same : α → α → Prop} {m m' : Task α}
    {f : α → Answer} (h : Alongside c base Same m m' s s')
    (hf : ∀ a b, Same a b → (f b).shown = (f a).shown) :
    ServedAlike c base (m >>= fun a => pure (f a))
      (m' >>= fun a => pure (f a)) s s' := by
  unfold ServedAlike
  rw [bind_answer, bind_answer]
  refine h.imp (fun h => h) (Or.imp (fun h => h) fun h => ?_)
  cases h with
  | returned a b t t' left right post =>
      rw [left, right]
      exact ⟨congrArg Except.ok (hf a b post.1), post.2⟩
  | thrown e t t' left right post =>
      rw [left, right]
      exact ⟨rfl, post⟩
  | lostLeft e t left gone => exact gone.elim
  | lostRight e t' right gone => exact gone.elim

/-- Every request of a client is answered alike, and leaves states that a
task cannot tell apart. -/
theorem serve_twin (hc : c.Honest)
    (hsteady : SteadyOutside c base.models.runtimes.runtimes)
    (henv : env.Same env') (h : Twin c base noLease s s') (hobs : Observed s)
    {request : Request} (hclient : request.ofClient = true) :
    ServedAlike c base (serve c env request) (serve c env' request) s s' := by
  cases request with
  | registerRuntime runtime => cases hclient
  | loadModel request => cases hclient
  | unloadModel model => cases hclient
  | removeModel model => cases hclient
  | maintain => cases hclient
  | createSession model system =>
      exact (createSession_together hc henv h model system).alongside.answered
        fun a b hab => by rw [hab]
  | resetSession id =>
      exact (resetSession_together h id).alongside.answered fun _ _ _ => rfl
  | closeSession id =>
      exact (closeSession_together h id).alongside.answered fun _ _ _ => rfl
  | chat requestId request callback =>
      exact (generate_alongside hc hsteady henv h hobs requestId request
        none).answered fun a b hab => congrArg Answer.settled hab
  | complete requestId request callback =>
      exact (generate_alongside hc hsteady henv h hobs requestId {}
        (some request)).answered fun a b hab => congrArg Answer.settled hab
  | converse requestId request callback =>
      exact (converse_alongside hc hsteady henv h hobs requestId
        request).answered fun a b hab => congrArg Answer.settled hab
  | embedText model text =>
      exact (embedText_alongside hsteady henv h model text).answered
        fun a b hab => by rw [hab]
  | measureConversation request =>
      exact (measureConversation_alongside hsteady henv h request).answered
        fun a b hab => by rw [hab]

-- ================================================================ whole runs

theorem Idle.reduced (h : Idle c s) (hred : Reduced c noLease s s') :
    Idle c s' :=
  ⟨hred.sound, hred.observed h.observed⟩

/-- Between tasks no model is in use, so each can be evicted. -/
theorem evictLoaded_reduced (h : Idle c s) (env : Env) (id : QString) :
    Reduced c noLease s (evictLoaded env id s) := by
  unfold evictLoaded
  by_cases hloaded : id ∈ s.models.loaded
  · rw [if_pos hloaded]
    obtain ⟨info, hinfo⟩ := (Maps.mem_iff_find _ _).1 hloaded
    obtain ⟨entry, model, request, hres⟩ := h.sound.models.of_loaded hinfo
    obtain ⟨t, hrun, hred, -⟩ :=
      evict_spec h.sound hres.hasEntry hres.active env true
    rw [hrun]
    exact hred
  · rw [if_neg hloaded]
    exact Reduced.refl h.sound

theorem maintain_reduced (h : Idle c s) (env : Env) :
    Reduced c noLease s (maintain c env s).2 := by
  obtain ⟨t, hrun, hred⟩ := maintain_spec h.sound env
  rw [hrun]
  exact hred

theorem Reduced.traced {held : Held} (h : Reduced c held s s') :
    ∃ new, s'.trace = s.trace ++ new := by
  obtain ⟨new, hnew, -⟩ := h.evolved.grew
  exact ⟨new, hnew⟩

/-- A run only adds to the trace. -/
theorem play_traced (hc : c.Honest) (r : List Occurrence) :
    ∀ {s : State}, Idle c s →
    ∃ new, (play c s r).2.trace = s.trace ++ new := by
  induction r with
  | nil => intro s _; exact ⟨[], by simp [play]⟩
  | cons occurrence rest ih =>
      -- one step, and the rest of the run
      have hstep : ∀ {s t : State}, Idle c t →
          (∃ new, t.trace = s.trace ++ new) →
          ∃ new, (play c t rest).2.trace = s.trace ++ new := by
        intro s t hidle htraced
        obtain ⟨new, hnew⟩ := htraced
        obtain ⟨new', hnew'⟩ := ih hidle
        exact ⟨new ++ new', by rw [hnew', hnew, List.append_assoc]⟩
      intro s h
      cases occurrence with
      | request env request =>
          have hserved := serve_spec hc h env request
          obtain ⟨id, new, hnew, -⟩ := hserved.progress
          exact hstep hserved.idle ⟨new, hnew⟩
      | eviction env id =>
          have hred := evictLoaded_reduced h env id
          exact hstep (h.reduced hred) hred.traced
      | maintenance env =>
          have hred := maintain_reduced h env
          exact hstep (h.reduced hred) hred.traced

/-- A load that has failed is on the trace to the end of the run. -/
theorem play_lost (hc : c.Honest) (r : List Occurrence) (h : Idle c s)
    (hlost : Lost base.trace s) : Lost base.trace (play c s r).2 := by
  obtain ⟨new, hnew⟩ := play_traced hc r h
  exact hlost.append hnew

/-- The comparison over a whole run. The induction is on the run with
evictions, whose evictions have no counterpart on the other side. -/
theorem play_twin (hc : c.Honest)
    (hsteady : SteadyOutside c base.models.runtimes.runtimes)
    {l : List (Env × Request)} {r : List Occurrence} (h : Interspersed l r) :
    ∀ {s s' : State}, Twin c base noLease s s' → Idle c s → Idle c s' →
      ¬ Lost base.trace (play c s (uninterrupted l)).2 →
      ¬ Lost base.trace (play c s' r).2 →
      List.Forall₂ SameAnswer (play c s (uninterrupted l)).1 (play c s' r).1
        ∧ Twin c base noLease (play c s (uninterrupted l)).2 (play c s' r).2
        ∧ Idle c (play c s' r).2 := by
  induction h with
  | nil => intro s s' htwin _ hidle' _ _; exact ⟨.nil, htwin, hidle'⟩
  | request env env' request henv hclient rest ih =>
      intro s s' htwin hidle hidle' hplain hevicted
      have hserved := (serve_spec hc hidle env request).idle
      have hserved' := (serve_spec hc hidle' env' request).idle
      rcases serve_twin hc hsteady henv htwin hidle.observed hclient with
        hlost | hlost | ⟨hanswer, htwin'⟩
      · exact absurd (play_lost hc _ hserved hlost) hplain
      · exact absurd (play_lost hc _ hserved' hlost) hevicted
      · obtain ⟨hanswers, hlast⟩ := ih htwin' hserved hserved' hplain hevicted
        exact ⟨.cons hanswer hanswers, hlast⟩
  | eviction env id rest ih =>
      intro s s' htwin hidle hidle' hplain hevicted
      have hred := evictLoaded_reduced hidle' env id
      obtain ⟨hside, hview⟩ := htwin.right.reduced hred
      exact ih ⟨htwin.left, hside, hview.trans htwin.view⟩ hidle
        (hidle'.reduced hred) hplain hevicted
  | maintenance env rest ih =>
      intro s s' htwin hidle hidle' hplain hevicted
      have hred := maintain_reduced hidle' env
      obtain ⟨hside, hview⟩ := htwin.right.reduced hred
      exact ih ⟨htwin.left, hside, hview.trans htwin.view⟩ hidle
        (hidle'.reduced hred) hplain hevicted

-- ================================================================== reloads

/-- A model is loaded, with this context length, these options and this
keep-alive. -/
def LoadedWith (s : State) (id : QString) (contextTokens : Int)
    (options : JsonObject) (keepAliveMs : Int) : Prop :=
  ∃ info entry, s.models.loaded[id]? = some info
    ∧ s.models.residency.entries[id]? = some entry
    ∧ info.contextTokens = contextTokens ∧ info.options = options
    ∧ entry.keepAliveMs = keepAliveMs

/-- What a model is loaded with is what is remembered of it. -/
theorem LoadedWith.remembered {held : Held} (hsound : s.Sound c held)
    {id : QString}
    {contextTokens : Int} {options : JsonObject} {keepAliveMs : Int}
    (h : LoadedWith s id contextTokens options keepAliveMs) :
    ∃ model, s.models.remembered[id]?
      = some ⟨model, contextTokens, options, keepAliveMs⟩ := by
  obtain ⟨info, entry, hinfo, hentry, rfl, rfl, rfl⟩ := h
  obtain ⟨entry', model, request, hres⟩ := hsound.models.of_loaded hinfo
  obtain rfl : entry' = entry := by
    have := hres.hasEntry
    rw [hentry] at this
    injection this with this
    exact this.symm
  have hm := hres.matched
  refine ⟨request.model, ?_⟩
  rw [hres.isRemembered, ← hm.request_context, ← hm.request_options,
    ← hm.request_keepAlive]

/-- Evictions and maintenance only evict. -/
theorem play_evictions {r : List Occurrence} {l : List (Env × Request)}
    (h : Interspersed l r) (hnone : l = []) :
    ∀ {s : State}, Idle c s → Reduced c noLease s (play c s r).2 := by
  induction h with
  | nil => intro s h; exact Reduced.refl h.sound
  | request env env' request henv hclient rest ih => cases hnone
  | eviction env id rest ih =>
      intro s h
      have hred := evictLoaded_reduced h env id
      exact hred.trans (ih hnone (h.reduced hred))
  | maintenance env rest ih =>
      intro s h
      have hred := maintain_reduced h env
      exact hred.trans (ih hnone (h.reduced hred))

/-- A lease on a model that was loaded, whatever has been evicted since: the
model has the configuration it had, and the keep-alive it had unless another
one is asked for. -/
theorem acquire_reloads (h : Idle c s) {r : List Occurrence}
    (hevictions : Interspersed [] r) {id : QString} {contextTokens : Int}
    {options : JsonObject} {keepAliveMs : Int}
    (hloaded : LoadedWith s id contextTokens options keepAliveMs)
    {keepAlive : Int} {model : LoadedModel} {u : State}
    (hrun : acquire c env id keepAlive (play c s r).2 = (.ok model, u)) :
    model.spec.contextTokens = contextTokens ∧ model.spec.options = options
      ∧ LoadedWith u id contextTokens options
        (if 0 ≤ keepAlive then keepAlive else keepAliveMs) := by
  have hred := play_evictions hevictions rfl h
  obtain ⟨-, -, -, uri, info, entry, request, -, hres, -, hrenewed⟩ :=
    Exec.wp_ok (acquire_renews hred.sound env id keepAlive) hrun
  obtain ⟨name, hremembered⟩ := hloaded.remembered h.sound
  rw [hred.thinned.remembered, hremembered] at hrenewed
  have hm := hres.matched
  cases hrenewed with
  | again p =>
      refine ⟨?_, ?_, info, entry, hres.isLoaded, hres.hasEntry,
        hm.request_context.symm, hm.request_options.symm,
        hm.request_keepAlive.symm⟩
      · rw [hm.spec_context, ← hm.request_context]
      · rw [hm.spec_options, ← hm.request_options]

-- ============================================================== transparency

/-- What the evictions of a run leave as it is. -/
structure Transparent (c : Config) (base : State)
    (plain evicted : List (Except Exn Answer) × State) : Prop where
  /-- Every request is answered the same. -/
  answers : List.Forall₂ SameAnswer plain.1 evicted.1
  /-- Every session has the same messages. -/
  sessions : evicted.2.sessions = plain.2.sessions
  /-- A model that both runs end with is loaded the same. -/
  configured : ∀ id contextTokens options keepAliveMs contextTokens' options'
    keepAliveMs', LoadedWith plain.2 id contextTokens options keepAliveMs →
    LoadedWith evicted.2 id contextTokens' options' keepAliveMs' →
    contextTokens' = contextTokens ∧ options' = options
      ∧ keepAliveMs' = keepAliveMs
  /-- A model that was loaded before the run, and is at its end, is loaded
  with the context length and the options it had. -/
  kept : ∀ id contextTokens options keepAliveMs contextTokens' options'
    keepAliveMs', LoadedWith base id contextTokens options keepAliveMs →
    LoadedWith evicted.2 id contextTokens' options' keepAliveMs' →
    contextTokens' = contextTokens ∧ options' = options
  /-- The next lease on a loaded model, after any evictions, has the model as
  it was, with its keep-alive or the one that is asked for. -/
  reloaded : ∀ id contextTokens options keepAliveMs,
    LoadedWith evicted.2 id contextTokens options keepAliveMs →
    ∀ evictions, Interspersed [] evictions → ∀ env keepAlive model s,
    acquire c env id keepAlive (play c evicted.2 evictions).2
      = (.ok model, s) →
    model.spec.contextTokens = contextTokens ∧ model.spec.options = options
      ∧ LoadedWith s id contextTokens options
        (if 0 ≤ keepAlive then keepAlive else keepAliveMs)

/-- **Evictions are not seen by clients.** After any requests, in
particular loads with any configuration, take a run of client requests once
with evictions between them and once without. As long as no load fails in
either, both answer the same, leave the same histories, and load a model as
it was loaded before. -/
theorem evictions_transparent (hc : c.Honest) (setup : List (Env × Request))
    {l : List (Env × Request)} {r : List Occurrence} (h : Interspersed l r)
    (hsteady : SteadyOutside c (serveAll c {} setup).models.runtimes.runtimes)
    (hplain : ¬ Lost (serveAll c {} setup).trace
      (play c (serveAll c {} setup) (uninterrupted l)).2)
    (hevicted : ¬ Lost (serveAll c {} setup).trace
      (play c (serveAll c {} setup) r).2) :
    Transparent c (serveAll c {} setup)
      (play c (serveAll c {} setup) (uninterrupted l))
      (play c (serveAll c {} setup) r) := by
  have hbase := serveAll_idle hc setup (idle_start c)
  obtain ⟨hanswers, htwin, hidle⟩ :=
    play_twin hc hsteady h (.start hbase.sound) hbase
    hbase hplain hevicted
  refine ⟨hanswers, htwin.sessions,
    fun id contextTokens options keepAliveMs contextTokens'
      options' keepAliveMs'
      hloaded hloaded' => ?_,
    fun id contextTokens options keepAliveMs contextTokens'
      options' keepAliveMs'
      hloaded hloaded' => ?_,
    fun id contextTokens options keepAliveMs hloaded evictions hevictions env
      keepAlive model s hrun => acquire_reloads hidle hevictions hloaded hrun⟩
  · obtain ⟨name, hremembered⟩ := hloaded.remembered htwin.left.sound
    obtain ⟨name', hremembered'⟩ := hloaded'.remembered htwin.right.sound
    rw [htwin.remembered, hremembered] at hremembered'
    injection hremembered' with heq
    injection heq with _ hcontext hoptions hkeep
    exact ⟨hcontext.symm, hoptions.symm, hkeep.symm⟩
  · obtain ⟨name, hremembered⟩ := hloaded.remembered hbase.sound
    obtain ⟨k, hkept⟩ := htwin.right.kept id _ hremembered
    obtain ⟨name', hremembered'⟩ := hloaded'.remembered htwin.right.sound
    rw [hkept] at hremembered'
    injection hremembered' with heq
    injection heq with _ hcontext hoptions _
    exact ⟨hcontext.symm, hoptions.symm⟩

namespace Sample

/-- A load with a configuration of its own. -/
def tuned : ModelLoadRequest :=
  { model := qs "model://tiny"
    contextTokens := 512
    options := [(qs "threads", jsonInt 4)]
    keepAliveMs := 5000 }

/-- A run that loads the package so and opens a session. -/
def configured : List (Env × Request) :=
  [({}, .registerRuntime runtime), ({}, .loadModel tuned),
    ({}, .createSession (qs "model://tiny") [])]

/-- Two chats of that session. -/
def chats : List (Env × Request) :=
  [({}, .chat (qs "first") chat none), ({}, .chat (qs "second") chat none)]

/-- The two chats, with the model evicted between them. -/
def interrupted : List Occurrence :=
  [.request {} (.chat (qs "first") chat none), .eviction {} (qs "tiny"),
    .request {} (.chat (qs "second") chat none)]

theorem configured_runtimes :
    (serveAll config {} configured).models.runtimes.runtimes
      = (∅ : ExtTreeMap QString Runtime).insert (qs "sample") runtime := rfl

/-- The one package never changes, and the one runtime loads one model. -/
theorem steady :
    SteadyOutside config (serveAll config
      {} configured).models.runtimes.runtimes := by
  have hfinish : ∀ r : RuntimeResult, SameFinish r r := fun _ => rfl
  have hcontext : context.Alike context :=
    ⟨fun _ _ _ => Caller.Echo.refl hfinish _, fun _ _ _ =>
      Caller.Echo.refl hfinish _⟩
  have hmodel : model.Alike model :=
    ⟨rfl, rfl, rfl, rfl, fun _ _ => .some context context hcontext⟩
  have hruntime : ∀ (id : QString) (r : Runtime),
      (serveAll config {} configured).models.runtimes.runtimes[id]? = some r →
        r = runtime := by
    intro id r hr
    rw [configured_runtimes, Maps.find_insert] at hr
    split at hr
    · injection hr with hr
      exact hr.symm
    · simp at hr
  refine ⟨fun probe probe' uri found found' h h' => ?_,
    fun id id' r r' probe probe' spec device device' m m' hr hr'
      hload hload' => ?_⟩
  · have hsame : config.catalog.resolve probe uri
        = config.catalog.resolve probe' uri :=
      rfl
    rw [hsame, h'] at h
    injection h with h
    exact h.symm
  · rw [hruntime id r hr] at hload
    rw [hruntime id' r' hr'] at hload'
    injection hload with hload
    injection hload with hload
    injection hload' with hload'
    injection hload' with hload'
    rw [← hload, ← hload']
    exact hmodel

end Sample

/-- A trace without a mark of a failed load. -/
theorem not_lost {trace : List Event}
    (h : (s.trace.drop trace.length).all (fun event => match event with
      | .loadFailed _ => false
      | _ => true) = true) : ¬ Lost trace s := by
  intro hlost
  obtain ⟨new, id, hnew, hmem⟩ := hlost
  rw [hnew, List.drop_left, List.all_eq_true] at h
  exact absurd (h _ hmem) (by simp)

theorem loadedWith_of {id : QString} {contextTokens : Int}
    {options : JsonObject} {keepAliveMs : Int}
    (hinfo : s.models.loaded[id]?.map
      (fun info => (info.contextTokens, info.options))
      = some (contextTokens, options))
    (hentry : s.models.residency.entries[id]?.map ResidencyEntry.keepAliveMs
      = some keepAliveMs) :
    LoadedWith s id contextTokens options keepAliveMs := by
  obtain ⟨info, hfind, hinfo⟩ := Option.map_eq_some_iff.1 hinfo
  obtain ⟨entry, hfind', hentry⟩ := Option.map_eq_some_iff.1 hentry
  injection hinfo with hcontext hoptions
  exact ⟨info, entry, hfind, hfind', hcontext, hoptions, hentry⟩

/-- Two chats between which the model was evicted; at the end it is loaded as
it had been, with the keep-alive of the chats. -/
theorem evictions_transparent_sample :
    let base := serveAll Sample.config {} Sample.configured
    let plain := play Sample.config base (uninterrupted Sample.chats)
    let evicted := play Sample.config base Sample.interrupted
    Event.evicting (qs "tiny") 0 ∈ evicted.2.trace
      ∧ LoadedWith evicted.2 (qs "tiny") 512 Sample.tuned.options 1000
      ∧ Transparent Sample.config base plain evicted := by
  refine ⟨by decide +kernel,
    loadedWith_of (by decide +kernel) (by decide +kernel), ?_⟩
  exact evictions_transparent Sample.honest Sample.configured
    (.request {} {} _ ⟨rfl, rfl⟩ rfl (.eviction {} (qs "tiny")
      (.request {} {} _ ⟨rfl, rfl⟩ rfl .nil))) Sample.steady
    (not_lost (by decide +kernel)) (not_lost (by decide +kernel))

end LocalLLM
