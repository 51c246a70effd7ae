/-
The stores of the model manager agree, in every run.

A run is any list of calls with any outside; a lease is given back only
when the run holds one. The invariant of a run is `State.Sound` for the
leases it holds, and each call keeps it by the specification of its
operation. `Consistent` is what follows from it for the reader: three
maps with the same ids, a fourth that covers them and says the same, a
listing that is up to date.
-/
import LocalLLM.Proofs.Leases
import LocalLLM.Service.Service

namespace LocalLLM

open Std ModelManager

-- ================================================================== the run

/-- The calls on a model manager. -/
inductive ManagerCall
  | load (request : ModelLoadRequest)
  | acquire (id : QString) (keepAlive : Int)
  | release (id : QString)
  | unload (reference : QString)
  | remove (reference : QString)
  | maintain

/-- A run so far: the state, and the leases taken and not given back. -/
structure ManagerRun where
  state : State
  leases : List QString := []

namespace ManagerRun

/-- One call. Giving back a lease that is not held is not a call the
service makes, and is skipped. -/
def step (c : Config) (r : ManagerRun) (env : Env) : ManagerCall → ManagerRun
  | .load request => { r with state := (load c env request r.state).2 }
  | .acquire id keepAlive =>
      match acquire c env id keepAlive r.state with
      | (.ok _, s) => ⟨s, id :: r.leases⟩
      | (.error _, s) => { r with state := s }
  | .release id =>
      if id ∈ r.leases then
        ⟨(release c env id r.state).2, r.leases.erase id⟩
      else r
  | .unload reference =>
      { r with state := (ModelManager.unload c env reference r.state).2 }
  | .remove reference =>
      { r with state := (remove c env reference r.state).2 }
  | .maintain => { r with state := (maintain c env r.state).2 }

/-- All calls, in order. -/
def run (c : Config) (r : ManagerRun) (calls : List (Env × ManagerCall)) :
    ManagerRun :=
  calls.foldl (fun r call => r.step c call.1 call.2) r

/-- The worker of a new service with the given runtimes. -/
def start (runtimes : ExtTreeMap QString Runtime) : ManagerRun :=
  { state := { models := { runtimes := { runtimes } } } }

/-- The leases as they are counted. -/
def held (r : ManagerRun) : Held := fun id => r.leases.count id

end ManagerRun

-- ============================================================ what is agreed

/-- The four records of the loaded models and the last listing agree. -/
structure Consistent (s : State) : Prop where
  residency : ∀ id, id ∈ s.models.loaded ↔ id ∈ s.models.residency.entries
  runtimes : ∀ id, id ∈ s.models.loaded ↔ id ∈ s.models.runtimes.models
  remembered : ∀ (id : QString) (info : ModelInfo) (entry : ResidencyEntry)
    (model : LoadedModel), s.models.loaded[id]? = some info →
    s.models.residency.entries[id]? = some entry →
    s.models.runtimes.models[id]? = some model →
    ∃ request, s.models.remembered[id]? = some request
      ∧ request.contextTokens = info.contextTokens
      ∧ request.contextTokens = model.spec.contextTokens
      ∧ request.options = info.options
      ∧ request.options = model.spec.options
      ∧ request.keepAliveMs = entry.keepAliveMs
  observed : Observed s

/-- What a load that fails leaves behind: a model that was not loaded is
in none of the live stores, and a model that was loaded is as it was. -/
def FailureSparesStores (c : Config) (s : State) : Prop :=
  ∀ env request e uri id, (load c env request s).1 = .error e →
    c.registry.canonical request.model = .ok uri → modelId uri = .ok id →
    let m := (load c env request s).2.models
    (id ∉ s.models.loaded → id ∉ m.loaded ∧ id ∉ m.residency.entries
      ∧ id ∉ m.runtimes.models)
    ∧ (id ∈ s.models.loaded → m = s.models)

/-- The invariant in the words of a client: the three stores know
the same models. -/
theorem consistent_of_sound {c : Config} {held : Held} {s : State}
    (h : s.models.Sound c held) (hobserved : Observed s) : Consistent s := by
  refine ⟨fun id => ?_, fun id => ?_, fun id info entry model hi he hm => ?_,
    hobserved⟩
  · rw [Maps.mem_iff_find, Maps.mem_iff_find]
    rcases h.standing id with habs | ⟨i, e, lm, r, hres⟩
    · rw [habs.loaded, habs.entry]
      simp
    · rw [hres.isLoaded, hres.hasEntry]
      simp
  · rw [Maps.mem_iff_find, Maps.mem_iff_find]
    rcases h.standing id with habs | ⟨i, e, lm, r, hres⟩
    · rw [habs.loaded, habs.model]
      simp
    · rw [hres.isLoaded, hres.hasModel]
      simp
  · obtain ⟨entry', model', request, hres⟩ := h.of_loaded hi
    have hentry := hres.hasEntry
    have hmodel := hres.hasModel
    rw [he] at hentry
    rw [hm] at hmodel
    injection hentry with hentry
    injection hmodel with hmodel
    subst hentry hmodel
    have hmatched := hres.matched
    exact ⟨request, hres.isRemembered, hmatched.request_context,
      hmatched.request_context.trans hmatched.spec_context.symm,
      hmatched.request_options,
      hmatched.request_options.trans hmatched.spec_options.symm,
      hmatched.request_keepAlive⟩

/-- A load that throws has evicted at most; see `load_spec`. -/
theorem failureSparesStores_of_sound {c : Config} {held : Held} {s : State}
    (h : s.Sound c held) : FailureSparesStores c s := by
  intro env request e uri id he huri hid
  have hspec := load_spec h env request
  have hrun : load c env request s = (.error e, (load c env request s).2) := by
    rw [← he]
  obtain ⟨hred, hcase⟩ := Exec.wp_error hspec hrun
  refine ⟨fun hnew => ?_, fun hold => ?_⟩
  · rw [Maps.not_mem_iff_find] at hnew
    have habs := hred.sound.models.absent (hred.thinned.not_loaded hnew)
    rw [Maps.not_mem_iff_find, Maps.not_mem_iff_find, Maps.not_mem_iff_find]
    exact ⟨habs.loaded, habs.entry, habs.model⟩
  · rcases hcase with heq | ⟨id', uri', hchecked, hnew, -⟩
    · rw [heq]
    · -- a load that got so far was of a model that is not loaded
      have huri' := hchecked.canonical
      rw [huri] at huri'
      injection huri' with huri'
      have hid' := hchecked.modelId
      rw [← huri', hid] at hid'
      injection hid' with hid'
      rw [← hid'] at hnew
      rw [Maps.mem_iff_find, hnew] at hold
      obtain ⟨_, hold⟩ := hold
      cases hold

-- ============================================================ the invariant

namespace ManagerRun

variable {c : Config} {r : ManagerRun}

/-- The invariant of a run. -/
structure Sound (c : Config) (r : ManagerRun) : Prop where
  state : r.state.Sound c r.held
  observed : Observed r.state
  faultless : ∀ f, .fault f ∉ r.state.trace

theorem held_cons (s : State) (id : QString) (leases : List QString) :
    (ManagerRun.mk s (id :: leases)).held
      = (ManagerRun.mk s leases).held.plus id := by
  funext k
  unfold held Held.plus
  by_cases hk : k = id
  · subst hk
    simp
  · have hne : ¬ id = k := fun h => hk h.symm
    simp [hk, hne]

theorem held_erase (s : State) (id : QString) (leases : List QString) :
    (ManagerRun.mk s (leases.erase id)).held
      = (ManagerRun.mk s leases).held.minus id := by
  funext k
  unfold held Held.minus
  by_cases hk : k = id
  · subst hk
    rw [if_pos rfl]
    exact List.count_erase_self
  · rw [if_neg hk]
    exact List.count_erase_of_ne hk

/-- Quiet growth brings no fault, and neither do leases. -/
theorem faultless_of_grew {loud : List Event} {s s' : State}
    (h : Grew loud s s') (hold : ∀ f, .fault f ∉ s.trace)
    (hloud : ∀ f, .fault f ∉ loud) : ∀ f, .fault f ∉ s'.trace := by
  intro f hf
  rcases (h.mem_trace (.fault f) rfl).1 hf with hs | hl
  · exact hold f hs
  · exact hloud f hl

theorem start_sound (c : Config) (runtimes : ExtTreeMap QString Runtime) :
    (start runtimes).Sound c where
  state :=
    { models :=
        { standing := fun id => Or.inl ⟨by simp [start], by simp [start],
            by simp [start], rfl⟩
          remembered := fun id request h => by simp [start] at h
          budget := by
            show Maps.total _ (∅ : ExtTreeMap QString ResidencyEntry) ≤ _
            simp
          count := by simp [start] }
      grounded :=
        { weights := fun key e h => by simp [start] at h
          keyed := fun key e h => by simp [start] at h
          sessions := fun id session h => by simp [start] at h
          created := fun id modelId h => (nomatch h)
          bound := fun id modelId modelId' h => (nomatch h)
          used := fun key modelId h => (nomatch h)
          bounded := ContextCacheManager.bounded_empty } }
  observed := by
    show ([] : List _) = (∅ : ExtTreeMap QString ModelInfo).toList.map _
    rw [ExtTreeMap.toList_eq_nil_iff.2 rfl]
    rfl
  faultless := fun f h => (nomatch h)

/-- What a reduction keeps. -/
theorem Sound.reduced (h : r.Sound c) {s' : State}
    (hred : Reduced c r.held r.state s') :
    ManagerRun.Sound c { r with state := s' } :=
  ⟨hred.sound, hred.observed h.observed,
    faultless_of_grew hred.evolved.grew h.faultless (by simp)⟩

/-- Every call keeps the invariant. Most of the cases are the specifications of
the manager's operations, applied to the same state. -/
theorem Sound.step (h : r.Sound c) (env : Env) (call : ManagerCall) :
    (r.step c env call).Sound c := by
  cases call with
  | load request =>
      refine Exec.wp_final (P := fun s' =>
        ManagerRun.Sound c { r with state := s' })
        (Exec.wp_mono (load_spec h.state env request) ?_ ?_)
      · rintro _ s' ⟨hsound, hobs, hev, -⟩
        exact ⟨hsound, hobs, faultless_of_grew hev.grew h.faultless (by simp)⟩
      · rintro _ s' ⟨hred, -⟩
        exact h.reduced hred
  | acquire id keepAlive =>
      rcases Exec.wp_cases (acquire_spec h.state env id keepAlive) with
        ⟨model, s', hrun, hsound, hobs, hev, -⟩ | ⟨e, s', hrun, hred, -⟩
      · have hstep : r.step c env (.acquire id keepAlive)
            = ⟨s', id :: r.leases⟩ := by
          simp only [ManagerRun.step, hrun]
        rw [hstep]
        refine ⟨?_, hobs, faultless_of_grew hev.grew h.faultless (by simp)⟩
        rw [held_cons]
        exact hsound
      · have hstep : r.step c env (.acquire id keepAlive)
            = { r with state := s' } := by
          simp only [ManagerRun.step, hrun]
        rw [hstep]
        exact h.reduced hred
  | release id =>
      by_cases hid : id ∈ r.leases
      · obtain ⟨s', hrun, hsound, hobs, hev, -⟩ := release_spec h.state
          (List.count_pos_iff.2 hid) env
        have hstep : r.step c env (.release id) = ⟨s', r.leases.erase id⟩ := by
          simp only [ManagerRun.step, if_pos hid, hrun]
        rw [hstep]
        refine ⟨?_, hobs, faultless_of_grew hev.grew h.faultless (by simp)⟩
        rw [held_erase]
        exact hsound
      · have hstep : r.step c env (.release id) = r := by
          simp only [ManagerRun.step, if_neg hid]
        rw [hstep]
        exact h
  | unload reference =>
      refine Exec.wp_final (P := fun s' =>
        ManagerRun.Sound c { r with state := s' })
        (Exec.wp_mono (unload_spec h.state reference) ?_ ?_)
      · rintro _ s' ⟨hred, -⟩
        exact h.reduced hred
      · rintro _ s' (rfl | ⟨id, entry, -, hactive, rfl⟩)
        · exact h
        · have hgrew : Grew [.evicting id entry.active] r.state
              { r.state with
                trace := r.state.trace ++ [.evicting id entry.active] } :=
            ⟨[.evicting id entry.active], rfl, by simp [Event.quiet, hactive]⟩
          exact ⟨⟨h.state.models, h.state.grounded.evolved
            ⟨rfl, rfl, rfl, fun _ _ hk => hk, hgrew⟩
            (by simp [Event.unkeyed]) h.state.grounded.bounded
            fun _ _ _ _ hother => hother⟩, h.observed,
            faultless_of_grew hgrew h.faultless (by simp)⟩
  | remove reference =>
      refine Exec.wp_final (P := fun s' =>
        ManagerRun.Sound c { r with state := s' })
        (Exec.wp_mono (remove_spec h.state reference) ?_ ?_)
      · rintro _ s' ⟨hsound, hobs, hev, -⟩
        exact ⟨hsound, hobs h.observed,
          faultless_of_grew hev.grew h.faultless (by simp)⟩
      · rintro _ s' rfl
        exact h
  | maintain =>
      obtain ⟨s', hrun, hred⟩ := maintain_spec h.state env
      have hstep : r.step c env .maintain = { r with state := s' } := by
        simp only [ManagerRun.step, hrun]
      rw [hstep]
      exact h.reduced hred

theorem run_sound (h : r.Sound c) (calls : List (Env × ManagerCall)) :
    (r.run c calls).Sound c := by
  induction calls generalizing r with
  | nil => exact h
  | cons call rest ih => exact ih (h.step call.1 call.2)

end ManagerRun

-- ================================================================== results

/-- After every call of every run the stores agree, every lookup that was
made found its key, a lease that is held can be given back, and a load
that fails spares the stores. -/
theorem manager_run_consistent (c : Config)
    (runtimes : ExtTreeMap QString Runtime)
    (calls : List (Env × ManagerCall)) :
    let r := (ManagerRun.start runtimes).run c calls
    Consistent r.state ∧ (∀ f, .fault f ∉ r.state.trace)
      ∧ (∀ id ∈ r.leases, ∀ env, ∃ s', release c env id r.state = (.ok (), s'))
      ∧ FailureSparesStores c r.state := by
  have h := ManagerRun.run_sound (ManagerRun.start_sound c runtimes) calls
  refine ⟨consistent_of_sound h.state.models h.observed, h.faultless,
    fun id hid env => ?_, failureSparesStores_of_sound h.state⟩
  obtain ⟨s', hrun, -⟩ := release_spec h.state (List.count_pos_iff.2 hid) env
  exact ⟨s', hrun⟩

/-- A load that asks a loaded model for another context length fails, and
the model stays loaded. -/
theorem failed_load_keeps_loaded_model :
    let loaded := (ManagerRun.mk Sample.state []).run Sample.config
      [({}, .load { model := qs "model://tiny" })]
    let outcome := load Sample.config {}
      { model := qs "model://tiny", contextTokens := 8 } loaded.state
    outcome.1.toOption.isNone = true
      ∧ qs "tiny" ∈ outcome.2.models.loaded
      ∧ qs "tiny" ∈ outcome.2.models.residency.entries
      ∧ qs "tiny" ∈ outcome.2.models.runtimes.models := by
  decide

end LocalLLM
