/-
The worker of the service over whole runs.

# Between tasks

`Idle` is the invariant between two tasks: the state is sound with no lease
held, and the listing last observed is the current one. A task `Served`
from an idle state ends idle, and what it has added to the trace holds one
lease that was taken and given back, or none, and no fault.

# Runs

A run is any list of tasks, each with its own outside, from the state of a
new worker. `serve_spec` is the step lemma, with one case for each request,
and `serveAll_idle` the induction. The results read the invariant: no lease
outlives its task, no context outlives its weights, and no reservation is
exceeded.
-/
import LocalLLM.Proofs.Converse
import LocalLLM.Proofs.Loans

namespace LocalLLM

open Std ModelManager

variable {c : Config} {s : State}

/-- The worker between two tasks. -/
structure Idle (c : Config) (s : State) : Prop where
  sound : s.Sound c noLease
  observed : Observed s

/-- What a task has done by its end. -/
structure Served (c : Config) (s s' : State) : Prop where
  idle : Idle c s'
  progress : ∃ id, Progress (balanced id) s s'

/-- A task without a lease. -/
theorem Served.of_quiet {s' : State} (hsound : s'.Sound c noLease)
    (hobs : Observed s') (hprogress : Progress [] s s') : Served c s s' :=
  ⟨⟨hsound, hobs⟩, [], hprogress⟩

/-- One step of the state machine serves the worker, since nothing is leased
between tasks. -/
theorem Served.of_stepped {s' : State} (h : Idle c s)
    (hstep : Stepped c noLease s s') : Served c s s' :=
  .of_quiet hstep.sound (hstep.observed_iff.2 h.observed) hstep.progress

theorem Served.refl (h : Idle c s) : Served c s s :=
  .of_stepped h (Stepped.refl h.sound)

/-- Dropping contexts and models serves it as well: less is held, and what
remains is sound. -/
theorem Served.of_reduced {s' : State} (h : Idle c s)
    (hred : Reduced c noLease s s') : Served c s s' :=
  .of_quiet hred.sound (hred.observed h.observed)
    (hred.evolved.grew.progress (by simp))

/-- The general form, from what a task has proved of its own end. -/
theorem Served.of_evolved {s' : State} (hsound : s'.Sound c noLease)
    (hobs : Observed s') (hev : Evolved [] s s') : Served c s s' :=
  .of_quiet hsound hobs (hev.grew.progress (by simp))

-- =============================================================== the requests

/-- Registering adds a runtime that no model uses yet. -/
theorem registerRuntime_spec (h : Idle c s) (runtime : Runtime) :
    Served c s (registerRuntime runtime s).2 := by
  refine Exec.wp_final (P := Served c s) ?_
  unfold registerRuntime
  rw [Exec.wp_bind, Exec.wp_get, Exec.wp_bind, Exec.wp_ofExcept]
  refine ⟨fun runtimes hadd => ?_, fun _ _ => Served.refl h⟩
  unfold RuntimeManager.addRuntime at hadd
  obtain ⟨_, -, hadd⟩ := bind_eq_ok.1 hadd
  obtain ⟨_, hnew, hadd⟩ := bind_eq_ok.1 hadd
  rw [require_eq_ok, Maps.not_mem_iff_find] at hnew
  injection hadd with hadd
  -- the runtimes that were there stay
  have hext : runtimes.Extends s.models.runtimes := by
    refine ⟨fun id r hr => ?_, by rw [← hadd]⟩
    rw [← hadd]
    show (s.models.runtimes.runtimes.insert runtime.id runtime)[id]? = some r
    rw [Maps.find_insert_ne _ _ ?_, hr]
    rintro rfl
    rw [hnew] at hr
    cases hr
  have hmodels : runtimes.models = s.models.runtimes.models := by rw [← hadd]
  refine Exec.wp_of_ok (setRuntimes_apply runtimes s) ?_
  exact .of_quiet ⟨h.sound.models.extended hmodels hext,
      { h.sound.grounded with
    weights := fun key e he => by
      rw [hmodels]
      exact h.sound.grounded.weights key e he }⟩ h.observed (Progress.refl s)

/-- A load, completed or failed, leaves the worker idle and sound. -/
theorem loadModel_spec (h : Idle c s) (env : Env)
    (request : ModelLoadRequest) : Served c s (load c env request s).2 := by
  refine Exec.wp_final (P := Served c s)
    (Exec.wp_mono (load_spec h.sound env request) ?_ ?_)
  · rintro _ s' ⟨hsound, hobs, hev, -⟩
    exact .of_evolved hsound hobs hev
  · rintro _ s' ⟨hred, -⟩
    exact .of_reduced h hred

/-- The check before an unload or a removal. -/
theorem refuseUsed_spec (model : QString) (message : String) (s : State) :
    Exec.wp (refuseUsed c model message) (fun _ s' => s' = s)
      (fun _ s' => s' = s) s := by
  unfold refuseUsed check
  rw [Exec.wp_bind, Exec.wp_ofExcept]
  refine ⟨fun _ _ => ?_, fun _ _ => rfl⟩
  rw [Exec.wp_bind, Exec.wp_ofExcept]
  refine ⟨fun _ _ => ?_, fun _ _ => rfl⟩
  rw [Exec.wp_bind, Exec.wp_get, Exec.wp_ofExcept]
  exact ⟨fun _ _ => rfl, fun _ _ => rfl⟩

/-- So does unloading, which is refused while a session uses the model. -/
theorem unloadModel_spec (h : Idle c s) (env : Env) (model : QString) :
    Served c s (unloadModel c env model s).2 := by
  refine Exec.wp_final (P := Served c s) ?_
  unfold unloadModel
  rw [Exec.wp_bind]
  refine Exec.wp_mono (refuseUsed_spec _ _ s) ?_ ?_
  case refine_2 =>
    rintro _ s' rfl
    exact Served.refl h
  rintro _ s' rfl
  refine Exec.wp_mono (unload_spec h.sound model) ?_ ?_
  · rintro _ t ⟨hred, -⟩
    exact .of_reduced h hred
  · rintro _ t (rfl | ⟨id, entry, hentry, hactive, -⟩)
    · exact Served.refl h
    · -- between tasks no model is in use
      obtain ⟨info, lm, request, hres⟩ := h.sound.models.of_entry hentry
      exact absurd hres.active hactive

/-- And removing, which is refused in the same way. -/
theorem removeModel_spec (h : Idle c s) (env : Env) (model : QString) :
    Served c s (removeModel c env model s).2 := by
  refine Exec.wp_final (P := Served c s) ?_
  unfold removeModel
  rw [Exec.wp_bind]
  refine Exec.wp_mono (refuseUsed_spec _ _ s) ?_ ?_
  case refine_2 =>
    rintro _ s' rfl
    exact Served.refl h
  rintro _ s' rfl
  refine Exec.wp_mono (remove_spec h.sound model) ?_ ?_
  · rintro _ t ⟨hsound, hobs, hev, -⟩
    exact .of_evolved hsound (hobs h.observed) hev
  · rintro _ t rfl
    exact Served.refl h

/-- Creating a session looks its model up and loads nothing. -/
theorem createSession_spec (hc : c.Honest) (h : Idle c s) (env : Env)
    (model system : QString) :
    Served c s (createSession c env model system s).2 := by
  refine Exec.wp_final (P := Served c s) ?_
  unfold createSession check
  rw [Exec.wp_bind, Exec.wp_get, Exec.wp_bind, Exec.wp_ofExcept]
  refine ⟨fun info hinfo => ?_, fun _ _ => Served.refl h⟩
  rw [Exec.wp_bind, Exec.wp_ofExcept]
  refine ⟨fun _ _ => ?_, fun _ _ => Served.refl h⟩
  rw [Exec.wp_bind, Exec.wp_ofExcept]
  refine ⟨fun _ _ => ?_, fun _ _ => Served.refl h⟩
  refine Exec.wp_mono
    (newSession_spec hc h.sound (resolve_valid hinfo) system) ?_ ?_
  · rintro _ s' ⟨hstep, -⟩
    exact .of_stepped h hstep
  · rintro _ s' rfl
    exact Served.refl h

theorem sessions_get_ok {sessions : SessionManager} {id : QString}
    {session : SessionSnapshot} (h : sessions.get id = .ok session) :
    sessions.sessions[id]? = some session := by
  unfold SessionManager.get at h
  split at h
  next session' hfind =>
    injection h with h
    rw [hfind, h]
  next => cases h

theorem resetSession_spec (h : Idle c s) (id : QString) :
    Served c s (resetSession id s).2 := by
  refine Exec.wp_final (P := Served c s) ?_
  unfold resetSession
  rw [Exec.wp_bind, Exec.wp_get, Exec.wp_bind, Exec.wp_ofExcept]
  refine ⟨fun sessions hreset => ?_, fun _ _ => Served.refl h⟩
  unfold SessionManager.reset at hreset
  obtain ⟨session, hget, hreset⟩ := bind_eq_ok.1 hreset
  injection hreset with hreset
  subst hreset
  rw [Exec.wp_modify]
  have hset := stepped_setMessages h.sound (sessions_get_ok hget)
    (SessionManager.afterReset session.messages)
  exact .of_stepped h (hset.trans (stepped_erase hset.sound id))

theorem closeSession_spec (h : Idle c s) (id : QString) :
    Served c s (closeSession id s).2 := by
  refine Exec.wp_final (P := Served c s) ?_
  unfold closeSession
  rw [Exec.wp_bind, Exec.wp_get, Exec.wp_bind, Exec.wp_ofExcept]
  refine ⟨fun sessions hclose => ?_, fun _ _ => Served.refl h⟩
  unfold SessionManager.close at hclose
  obtain ⟨session, -, hclose⟩ := bind_eq_ok.1 hclose
  injection hclose with hclose
  subst hclose
  rw [Exec.wp_modify]
  exact .of_stepped h (stepped_close h.sound id)

-- =================================================================== the runs

/-- A request is served by its task; the answer adds nothing. -/
theorem served_bind {α : Type} {m : Task α} {f : α → Answer}
    (h : Served c s (m s).2) :
    Served c s ((m >>= fun a => pure (f a)) s).2 := by
  rw [Exec.bind_pure_state]
  exact h

/-- Every task ends idle, with its lease given back. This is the step of the
induction over a run, and each kind of task has its own lemma above. -/
theorem serve_spec (hc : c.Honest) (h : Idle c s) (env : Env)
    (request : Request) : Served c s (serve c env request s).2 := by
  unfold serve
  cases request with
  | registerRuntime runtime =>
      exact served_bind (registerRuntime_spec h runtime)
  | loadModel request => exact served_bind (loadModel_spec h env request)
  | unloadModel model => exact served_bind (unloadModel_spec h env model)
  | removeModel model => exact served_bind (removeModel_spec h env model)
  | createSession model system =>
      exact served_bind (createSession_spec hc h env model system)
  | resetSession id => exact served_bind (resetSession_spec h id)
  | closeSession id => exact served_bind (closeSession_spec h id)
  | chat requestId request callback =>
      obtain ⟨o, s', hrun, hsound, hobs, hprogress, -⟩ :=
        generate_spec hc h.sound h.observed env requestId request none callback
      refine served_bind ?_
      rw [hrun]
      exact ⟨⟨hsound, hobs⟩, hprogress⟩
  | complete requestId request callback =>
      obtain ⟨o, s', hrun, hsound, hobs, hprogress, -⟩ :=
        generate_spec hc h.sound h.observed env requestId {}
          (some request) callback
      refine served_bind ?_
      rw [hrun]
      exact ⟨⟨hsound, hobs⟩, hprogress⟩
  | converse requestId request callback =>
      obtain ⟨o, s', hrun, hsound, hobs, hprogress, -⟩ :=
        converse_spec hc h.sound h.observed env requestId request callback
      refine served_bind ?_
      rw [hrun]
      exact ⟨⟨hsound, hobs⟩, hprogress⟩
  | embedText model text =>
      have hrepaid := embedText_spec h.sound h.observed env model text
      exact served_bind ⟨⟨hrepaid.sound, hrepaid.observed⟩, hrepaid.progress⟩
  | measureConversation request =>
      have hrepaid := measureConversation_spec h.sound h.observed env request
      exact served_bind ⟨⟨hrepaid.sound, hrepaid.observed⟩, hrepaid.progress⟩
  | maintain =>
      obtain ⟨s', hrun, hred⟩ := maintain_spec h.sound env
      refine served_bind ?_
      rw [hrun]
      exact .of_reduced h hred

/-- A new worker is idle. -/
theorem idle_start (c : Config) : Idle c {} where
  sound :=
    { models :=
        { standing := fun id => Or.inl ⟨by simp, by simp, by simp, rfl⟩
          remembered := fun id request h => by simp at h
          budget := by
            unfold ModelResidencyManager.reservedBytes
            simp
          count := by simp }
      grounded :=
        { weights := fun key e h => by simp at h
          keyed := fun key e h => by simp at h
          sessions := fun id session h => by simp at h
          created := fun id modelId h => nomatch h
          bound := fun id modelId modelId' h => nomatch h
          used := fun key modelId h => nomatch h
          bounded := ContextCacheManager.bounded_empty } }
  observed := by
    show ([] : List _) = (∅ : ExtTreeMap QString ModelInfo).toList.map _
    rw [ExtTreeMap.toList_eq_nil_iff.2 rfl]
    rfl

/-- Every run ends idle. -/
theorem serveAll_idle (hc : c.Honest) (requests : List (Env × Request)) :
    ∀ {s : State}, Idle c s → Idle c (serveAll c s requests) := by
  induction requests with
  | nil => intro s h; exact h
  | cons r rest ih => intro s h; exact ih (serve_spec hc h r.1 r.2).idle

/-- The trace of a run has no fault, and evicts only what is idle. -/
theorem serveAll_fine (hc : c.Honest) (requests : List (Env × Request)) :
    ∀ {s : State}, Idle c s → (∀ event ∈ s.trace, event.fine = true) →
      ∀ event ∈ (serveAll c s requests).trace, event.fine = true := by
  induction requests with
  | nil => intro s _ hs; exact hs
  | cons r rest ih =>
      intro s h hs
      have hserved := serve_spec hc h r.1 r.2
      refine ih hserved.idle fun event hev => ?_
      obtain ⟨id, new, hnew, -, hfine⟩ := hserved.progress
      rw [hnew] at hev
      rcases List.mem_append.1 hev with hold | hnew'
      · exact hs event hold
      · exact hfine event hnew'

-- =================================================================== contexts

/-- The cache holds contexts of the weights that are loaded now, under keys
that stand for one model and, where they are session ids, for a session. -/
structure ContextsLive (s : State) : Prop where
  weights : ∀ (key : QString) (e : CacheEntry),
    s.cache.entries[key]? = some e →
    ∃ model, s.models.runtimes.models[e.modelId]? = some model
      ∧ e.modelId ∈ s.models.loaded ∧ e.weights = model.serial
      ∧ ∃ probe, model.runtime.createContext probe = .ok (some e.context)
  keys : ∀ key modelId modelId', .contextUsed key modelId ∈ s.trace →
    .contextUsed key modelId' ∈ s.trace → modelId = modelId'
  sessions : ∀ id modelId, .sessionCreated id modelId ∈ s.trace →
    ∀ e : CacheEntry, s.cache.entries[id]? = some e →
      ∃ session, s.sessions.sessions[id]? = some session
        ∧ session.modelId = e.modelId

/-- A key that was used stands for one model, over the whole run. -/
theorem Grounded.used_unique (hc : c.Honest) (h : Grounded c s)
    {key modelId modelId' : QString} (hu : .contextUsed key modelId ∈ s.trace)
    (hu' : .contextUsed key modelId' ∈ s.trace) : modelId = modelId' := by
  rcases h.used key modelId hu with hcreated | hconv
  · rcases h.used key modelId' hu' with hcreated' | hconv'
    · exact h.bound key modelId modelId' hcreated hcreated'
    · exact absurd (conversation_colon hconv') (h.session_no_colon hc hcreated)
  · rcases h.used key modelId' hu' with hcreated' | hconv'
    · exact absurd (conversation_colon hconv) (h.session_no_colon hc hcreated')
    · exact hconv.unique hconv'

/-- That the contexts are live is one part of the invariant. -/
theorem contextsLive_of_sound (hc : c.Honest) {held : Held}
    (h : s.Sound c held) : ContextsLive s := by
  refine ⟨fun key e hk => ?_, fun key m m' hu hu' =>
    h.grounded.used_unique hc hu hu',
    fun id modelId hcreated e hk => ?_⟩
  · obtain ⟨model, hmodel, hserial, -, hprobe⟩ := h.grounded.weights key e hk
    obtain ⟨info, entry, request, hres⟩ := h.models.of_model hmodel
    exact ⟨model, hmodel, (Maps.mem_iff_find _ _).2
      ⟨info, hres.isLoaded⟩, hserial,
      hprobe⟩
  · rcases h.grounded.keyed id e hk with hsession | hconv
    · exact hsession
    · exact absurd (conversation_colon hconv)
        (h.grounded.session_no_colon hc hcreated)

/-- **In every run, no context outlives its weights.** Each context that the
cache holds belongs to the current load of its model, so a reload under the
same name never sees one of the load before it. -/
theorem run_contexts_live (hc : c.Honest) (requests : List (Env × Request)) :
    ContextsLive (serveAll c {} requests) :=
  contextsLive_of_sound hc (serveAll_idle hc requests (idle_start c)).sound

namespace Sample

/-- Five seconds later. -/
def later : Env := { now := fun _ => 5000 }

/-- The run with a chat, behind which the lifetime of the model ends. -/
def expired : List (Env × Request) := chatted ++ [(later, .maintain)]

/-- And a second chat of the session, for which the model is loaded again. -/
def resumed : List (Env × Request) :=
  expired ++ [(later, .chat (qs "again") chat none)]

end Sample

/-- The context goes with its model, and after the next chat there is one of
the weights that were loaded for it. -/
theorem chatted_contexts_live :
    (.evicting (qs "tiny") 0 ∈ (serveAll Sample.config {} Sample.expired).trace
      ∧ Sample.uuid 0 ∉ (serveAll Sample.config
        {} Sample.expired).cache.entries
      ∧ Sample.uuid 0 ∈ (serveAll Sample.config
        {} Sample.resumed).cache.entries)
      ∧ ContextsLive (serveAll Sample.config {} Sample.expired)
      ∧ ContextsLive (serveAll Sample.config {} Sample.resumed) :=
  ⟨by decide +kernel, run_contexts_live Sample.honest Sample.expired,
    run_contexts_live Sample.honest Sample.resumed⟩

-- ===================================================================== leases

/-- In every run, the leases of a task are one that is taken and given
back, or none; between tasks no model is in use; and no model in use was
ever up for eviction. -/
theorem run_leases_balanced (hc : c.Honest) (requests : List (Env × Request))
    (env : Env) (request : Request) :
    let s := serveAll c {} requests
    let s' := (serve c env request s).2
    (∃ id new, s'.trace = s.trace ++ new
        ∧ new.filter Event.isLease = balanced id)
      ∧ (∀ f, .fault f ∉ s'.trace)
      ∧ (∀ id active, .evicting id active ∈ s'.trace → active = 0)
      ∧ (∀ (id : QString) (entry : ResidencyEntry),
        s'.models.residency.entries[id]? = some entry → entry.active = 0)
      ∧ ∀ (m : ModelResidencyManager) (id : QString) (now : Int),
        m.oldestIdle = some id ∨ id ∈ m.expired now →
        ∃ entry, m.entries[id]? = some entry ∧ entry.active = 0 := by
  intro s s'
  have hidle := serveAll_idle hc requests (idle_start c)
  have hserved := serve_spec hc hidle env request
  obtain ⟨id, new, hnew, hleases, hfine⟩ := hserved.progress
  have hall : ∀ event ∈ s'.trace, event.fine = true := by
    intro event hev
    rw [hnew] at hev
    rcases List.mem_append.1 hev with hold | hlater
    · exact serveAll_fine hc requests (idle_start c)
        (fun _ h => nomatch h) event hold
    · exact hfine event hlater
  refine ⟨⟨id, new, hnew, hleases⟩, fun f hf => ?_, fun id active hev => ?_,
    fun id entry hentry => ?_, fun m id now hchosen => ?_⟩
  · exact nomatch hall _ hf
  · simpa [Event.fine] using hall _ hev
  · obtain ⟨info, model, request', hres⟩ :=
      hserved.idle.sound.models.of_entry hentry
    exact hres.active
  · rcases hchosen with holdest | hexpired
    · exact ModelResidencyManager.oldestIdle_spec holdest
    · exact ModelResidencyManager.expired_spec hexpired

/-- A chat after the first one takes a lease and gives it back. -/
theorem chatted_leases_balanced :
    let s := serveAll Sample.config {} Sample.opened
    let s' := (serve Sample.config {}
      (.chat (qs "request") Sample.chat none) s).2
    (.acquired (qs "tiny") ∈ s'.trace ∧ .released (qs "tiny") ∈ s'.trace)
      ∧ ∃ id new, s'.trace = s.trace ++ new
        ∧ new.filter Event.isLease = balanced id :=
  ⟨by decide +kernel, (run_leases_balanced Sample.honest Sample.opened {}
    (.chat (qs "request") Sample.chat none)).1⟩

-- =============================================================== reservations

/-- The contexts of one model. -/
def contextsOf (cache : ContextCacheManager) (modelId : QString) : Nat :=
  (cache.entries.filter fun _ e => e.modelId == modelId).size

/-- The reservation of a loaded model, and its contexts. -/
structure Reserved (c : Config) (s : State) (id : QString)
    (model : LoadedModel) : Prop where
  contexts : (contextsOf s.cache id : Int)
    ≤ c.contextSlots model.spec.contextTokens
  slots : 1 ≤ c.contextSlots model.spec.contextTokens
  defaultContext : ∀ fileSizes, (defaultEstimate fileSizes
      (UInt64.ofNat model.spec.contextTokens.toNat)
      (UInt64.ofNat
        (c.contextSlots model.spec.contextTokens).toNat)).contextBytes.toNat
    = model.spec.contextTokens.toNat
      * (c.contextSlots model.spec.contextTokens).toNat * contextReserve
  covered : ∃ entry runtime estimate,
    s.models.residency.entries[id]? = some entry
      ∧ s.models.runtimes.runtimes[model.execution.runtime]? = some runtime
      ∧ runtime.load model.probe model.spec model.execution.device
        = .ok (some model.runtime)
      ∧ runtime.estimateMemory model.probe model.spec
        (c.contextSlots model.spec.contextTokens) = .ok estimate
      ∧ estimate.exactBytes ≤ entry.memory.exactBytes

/-- The accounts of the worker: the exact sum of the reservations is within
the budget, so the sum in 64 bits is the exact one and an admission test
always answers; and each model keeps to its own reservation. -/
structure Accounted (c : Config) (s : State) : Prop where
  budget : s.models.residency.reservedBytes ≤ c.policy.budget.toNat
  sum : ∃ used, s.models.residency.bytes = .ok used
    ∧ used.toNat = s.models.residency.reservedBytes ∧ used ≤ c.policy.budget
  count : s.models.residency.entries.size ≤ c.maxModels
  models : ∀ (id : QString) (model : LoadedModel),
    s.models.runtimes.models[id]? = some model → Reserved c s id model

/-- The contexts of a model share the tokens of the cache, so there are no more
of them than slots. -/
theorem contextsOf_le {held : Held} (h : s.Sound c held) {id : QString}
    {model : LoadedModel} (hmodel : s.models.runtimes.models[id]?
      = some model) :
    (contextsOf s.cache id : Int)
      ≤ c.contextSlots model.spec.contextTokens := by
  obtain ⟨info, entry, request, hres⟩ := h.models.of_model hmodel
  have htwo := hres.matched.two_le_context
  have hbounded := h.grounded.bounded
  let own := s.cache.entries.filter fun _ e => e.modelId == id
  have hfind : ∀ (key : QString) (e : CacheEntry), own[key]? = some e →
      s.cache.entries[key]? = some e ∧ e.modelId = id := by
    intro key e he
    change (s.cache.entries.filter fun _ e => e.modelId == id)[key]?
      = some e at he
    rw [Maps.find_filter] at he
    obtain ⟨hsome, hid⟩ := Option.filter_eq_some_iff.1 he
    exact ⟨hsome, by simpa using hid⟩
  have heach : ∀ (key : QString) (e : CacheEntry), own[key]? = some e →
      model.spec.contextTokens.toNat ≤ e.reservedTokens.toNat := by
    intro key e he
    obtain ⟨hsome, hid⟩ := hfind key e he
    obtain ⟨model', hmodel', -, htokens, -⟩ := h.grounded.weights key e hsome
    rw [hid, hmodel] at hmodel'
    injection hmodel' with hmodel'
    rw [htokens, ← hmodel']
  have hown := Maps.size_mul_le_total (f := fun e : CacheEntry =>
    e.reservedTokens.toNat) heach
  have hsplit := Maps.total_filter (f := fun e : CacheEntry =>
    e.reservedTokens.toNat) s.cache.entries fun _ e => e.modelId == id
  have hsize : own.size ≤ s.cache.entries.size :=
    ExtTreeMap.size_filter_le_size
  have hreserved := hbounded.reserved_eq
  have hlimit := hbounded.reserved_le
  have hcount := hbounded.count_le
  unfold Config.contextSlots
  refine le_min ?_ ?_
  · show (own.size : Int) ≤ _
    omega
  · rw [Int.le_ediv_iff_mul_le (by omega)]
    show (own.size : Int) * _ ≤ _
    have htotal : (own.size : Int) * model.spec.contextTokens
        ≤ (Maps.total (fun e : CacheEntry => e.reservedTokens.toNat)
          own : Nat) := by
      calc (own.size : Int) * model.spec.contextTokens
          = (own.size * model.spec.contextTokens.toNat : Nat) := by
            push_cast
            rw [Int.toNat_of_nonneg (by omega)]
        _ ≤ _ := by exact_mod_cast hown
    have hpart : Maps.total (fun e : CacheEntry => e.reservedTokens.toNat) own
        ≤ Maps.total (fun e : CacheEntry => e.reservedTokens.toNat)
          s.cache.entries := by
      show Maps.total _ (s.cache.entries.filter _) ≤ _
      omega
    omega

/-- The sums of the residency are another. -/
theorem accounted_of_sound {held : Held} (h : s.Sound c held) :
    Accounted c s := by
  have hlt := c.policy.budget.toNat_lt
  have hbudget := h.models.budget
  obtain ⟨used, hused, htoNat⟩ :=
    ModelResidencyManager.bytes_ok h.models.sized (by omega)
  refine ⟨hbudget, ⟨used, hused, htoNat, ?_⟩, h.models.count,
    fun id model hmodel => ?_⟩
  · rw [UInt64.le_iff_toNat_le]
    omega
  obtain ⟨info, entry, request, hres⟩ := h.models.of_model hmodel
  have htwo := hres.matched.two_le_context
  obtain ⟨runtime, estimate, hruntime, hload, hestimate, hle⟩ :=
    hres.matched.estimated
  have hslots := c.one_le_contextSlots (by omega) hres.matched.context_le
  refine ⟨contextsOf_le h hmodel, hslots,
    fun fileSizes => defaultEstimate_contextBytes fileSizes ?_,
    entry, runtime, estimate, hres.hasEntry, hruntime, hload, hestimate, hle⟩
  -- all slots together are within the tokens of the cache, a 32-bit number
  have hpos : 0 < model.spec.contextTokens := by omega
  have hproduct := c.mul_contextSlots_le hpos
  have htokens : c.maxCachedContextTokens < 2 ^ 31 :=
    Int32.toInt_lt _
  have hnat : (model.spec.contextTokens.toNat
      * (c.contextSlots model.spec.contextTokens).toNat : Nat)
      ≤ c.maxCachedContextTokens.toNat := by
    zify
    rw [Int.toNat_of_nonneg (by omega), Int.toNat_of_nonneg (by omega),
      Int.toNat_of_nonneg (by have := c.two_le_maxCachedContextTokens; omega)]
    exact hproduct
  unfold contextReserve
  omega

/-- **In every run, the accounts are in order.** The sum that the service keeps
is the one over the entries and within its budget, and the contexts of each
model fit into the slots that its estimate has paid for. -/
theorem run_accounted (hc : c.Honest) (requests : List (Env × Request)) :
    Accounted c (serveAll c {} requests) :=
  accounted_of_sound (serveAll_idle hc requests (idle_start c)).sound

/-- A run at whose end a model is loaded. -/
theorem chatted_accounted :
    qs "tiny" ∈ (serveAll Sample.config
      {} Sample.chatted).models.residency.entries
      ∧ Accounted Sample.config (serveAll Sample.config {} Sample.chatted) :=
  ⟨by decide +kernel, run_accounted Sample.honest Sample.chatted⟩

end LocalLLM
