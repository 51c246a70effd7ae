/-
What holds of a generation between its steps, and what its last steps do.

`leaseOf id` are the leases of a task whose variable `leasedModel` is
`id`: one on that model, or none while the variable is empty. `InTurn` is
the invariant of the worker's state for these leases, with the trace since
the task began. Giving back ends with no lease and a matched pair in the
trace, whether the task had taken one or not.
-/
import LocalLLM.Proofs.Tasks

namespace LocalLLM

open Std ModelManager

-- ============================================================== the leases

/-- The leases of a task whose variable holds `id`. -/
def leaseOf (id : QString) : Held := fun k => if id ≠ [] ∧ k = id then 1 else 0

theorem leaseOf_nil : leaseOf [] = noLease := by
  funext k
  simp [leaseOf, noLease]

theorem leaseOf_of_ne {id : QString} (h : id ≠ []) :
    noLease.plus id = leaseOf id := by
  funext k
  unfold leaseOf noLease Held.plus
  by_cases hk : k = id
  · rw [if_pos hk, if_pos ⟨h, hk⟩]
  · rw [if_neg hk, if_neg fun hp => hk hp.2]

theorem leaseOf_minus {id : QString} (h : id ≠ []) :
    (leaseOf id).minus id = noLease := by
  rw [← leaseOf_of_ne h, Held.minus_plus]

/-- The lease a task has taken. -/
def taken (id : QString) : List Event := if id = [] then [] else [.acquired id]

/-- The lease a task has taken and given back. -/
def balanced (id : QString) : List Event :=
  if id = [] then [] else [.acquired id, .released id]

variable {c : Config} {env : Env}

/-- The return of a lease, or of none. -/
theorem giveBack_state {s₀ s : State} {id : QString}
    (h : s.Sound c (leaseOf id)) (hobs : Observed s)
    (hprogress : Progress (taken id) s₀ s) (env : Env) :
    ∃ s', (if id ≠ [] then release c env id else pure ()) s = (.ok (), s')
      ∧ s'.Sound c noLease ∧ Observed s' ∧ Progress (balanced id) s₀ s'
      ∧ s'.sessions = s.sessions ∧ s'.issued = s.issued
      ∧ s'.models.remembered = s.models.remembered
      ∧ ∀ (key : QString) (e : CacheEntry),
        s'.cache.entries[key]? = some e → s.cache.entries[key]? = some e := by
  by_cases hid : id = []
  · subst hid
    rw [leaseOf_nil] at h
    exact ⟨s, rfl, h, hobs, hprogress, rfl, rfl, rfl, fun _ _ hk => hk⟩
  · have hheld : 0 < leaseOf id id := by simp [leaseOf, hid]
    obtain ⟨s', hrun, hsound, hobs', hev, hrem, -⟩ := release_spec h hheld env
    rw [leaseOf_minus hid] at hsound
    refine ⟨s', by rw [if_pos hid]; exact hrun, hsound, hobs',
      ?_, hev.sessions,
      hev.issued, hrem, hev.cache⟩
    have hgrew := hprogress.trans (hev.grew.progress (by simp [Event.fine]))
    have hlease : [Event.released id].filter Event.isLease
      = [.released id] := rfl
    rw [hlease, taken, if_neg hid] at hgrew
    rw [balanced, if_neg hid]
    exact hgrew

-- ================================================================ the frame

/-- What the steps that only talk to the consumer leave alone. -/
structure Framed (t t' : Turn) : Prop where
  state : t'.state = t.state
  request : t'.request = t.request
  temporarySession : t'.temporarySession = t.temporarySession
  leasedModel : t'.leasedModel = t.leasedModel
  cacheId : t'.cacheId = t.cacheId
  requestId : t'.result.requestId = t.result.requestId
  sessionId : t'.result.sessionId = t.result.sessionId
  errorCode : t'.result.errorCode = t.result.errorCode

theorem Framed.refl (t : Turn) : Framed t t :=
  ⟨rfl, rfl, rfl, rfl, rfl, rfl, rfl, rfl⟩

theorem Framed.trans {t u v : Turn} (h : Framed t u) (h' : Framed u v) :
    Framed t v :=
  ⟨h'.state.trans h.state, h'.request.trans h.request,
    h'.temporarySession.trans h.temporarySession,
    h'.leasedModel.trans h.leasedModel, h'.cacheId.trans h.cacheId,
    h'.requestId.trans h.requestId, h'.sessionId.trans h.sessionId,
    h'.errorCode.trans h.errorCode⟩

/-- The stop filter is nobody else's business. -/
theorem Framed.of_stop (t : Turn) (f : StopFilter) :
    Framed t { t with stop := f } := ⟨rfl, rfl, rfl, rfl, rfl, rfl, rfl, rfl⟩

theorem wp_lift {α : Type} {r : Except Exn α} {Q : α → Turn → Prop}
    {E : Exn → Turn → Prop} {t : Turn} :
    Exec.wp (Turn.lift r) Q E t
      ↔ (∀ a, r = .ok a → Q a t) ∧ (∀ e, r = .error e → E e t) :=
  Exec.wp_ofExcept

theorem wp_onState {α : Type} {m : Task α} {Q : α → Turn → Prop}
    {E : Exn → Turn → Prop} {t : Turn} :
    Exec.wp (Turn.onState m) Q E t
      ↔ Exec.wp m (fun a s => Q a { t with state := s })
        (fun e s => E e { t with state := s }) t.state :=
  Exec.wp_zoom

/-- An event is handed to the consumer, if there is one, and that is all:
whether or not the consumer throws. -/
theorem notify_spec (callback : Option StreamCallback) (event : StreamEvent)
    (t : Turn) :
    let after := fun t' : Turn =>
      t' = if callback.isSome
        then { t with delivered := t.delivered ++ [event] }
        else t
    Exec.wp (Turn.notify callback event) (fun _ => after)
      (fun _ => after) t := by
  cases callback with
  | none => exact rfl
  | some throwsOn =>
      unfold Turn.notify
      rw [Exec.wp_bind, Exec.wp_get, Exec.wp_bind, Exec.wp_set, wp_lift]
      exact ⟨fun _ _ => rfl, fun _ _ => rfl⟩

/-- A notification leaves the result alone. -/
theorem notify_result (callback : Option StreamCallback) (event : StreamEvent)
    (t : Turn) :
    let after := fun t' : Turn => t'.result = t.result
    Exec.wp (Turn.notify callback event) (fun _ => after)
      (fun _ => after) t := by
  have hafter : (if callback.isSome then
      { t with delivered := t.delivered ++ [event] } else t).result
          = t.result := by
    split <;> rfl
  refine Exec.wp_mono (notify_spec callback event t) ?_ ?_
  · rintro _ t' rfl
    exact hafter
  · rintro _ t' rfl
    exact hafter

-- ============================================================ the invariant

/-- The worker's state during a turn that began in `t₀`. -/
structure InTurn (c : Config) (t₀ t : Turn) : Prop where
  sound : t.state.Sound c (leaseOf t.leasedModel)
  observed : Observed t.state
  progress : Progress (taken t.leasedModel) t₀.state t.state
  requestId : t.result.requestId = t₀.result.requestId
  sessionId : t.result.sessionId = t₀.result.sessionId

/-- A turn begins between tasks. -/
theorem InTurn.start {t : Turn} (h : t.state.Sound c noLease)
    (hobs : Observed t.state) (hlease : t.leasedModel = []) : InTurn c t t :=
  ⟨by rw [hlease, leaseOf_nil]; exact h, hobs,
    by rw [hlease]; exact Progress.refl _, rfl, rfl⟩

theorem InTurn.framed {t₀ t t' : Turn} (h : InTurn c t₀ t) (hf : Framed t t') :
    InTurn c t₀ t' :=
  ⟨by rw [hf.state, hf.leasedModel]; exact h.sound,
    by rw [hf.state]; exact h.observed,
    by rw [hf.state, hf.leasedModel]; exact h.progress,
    hf.requestId.trans h.requestId, hf.sessionId.trans h.sessionId⟩

/-- The cache key of a turn is its own business. -/
theorem InTurn.framedKey {t₀ t : Turn} (h : InTurn c t₀ t) (key : QString) :
    InTurn c t₀ { t with cacheId := key } :=
  ⟨h.sound, h.observed, h.progress, h.requestId, h.sessionId⟩

/-- A step of the state that keeps the leases. -/
theorem InTurn.stepped {t₀ t t' : Turn} (h : InTurn c t₀ t)
    (hstep : Stepped c (leaseOf t.leasedModel) t.state t'.state)
    (hlease : t'.leasedModel = t.leasedModel)
    (hrequest : t'.result.requestId = t.result.requestId)
    (hsession : t'.result.sessionId = t.result.sessionId) : InTurn c t₀ t' :=
  ⟨by rw [hlease]; exact hstep.sound, hstep.observed_iff.2 h.observed,
    by
      rw [hlease]
      have := h.progress.trans hstep.progress
      rwa [List.append_nil] at this,
    hrequest.trans h.requestId, hsession.trans h.sessionId⟩

/-- Taking the lease of a turn that has none. What is new in the state is
what `acquire` says. -/
theorem InTurn.acquired {t₀ t : Turn} (h : InTurn c t₀ t)
    (hlease : t.leasedModel = []) {id : QString} (hid : id ≠ []) {s' : State}
    (hsound : s'.Sound c (noLease.plus id)) (hobs : Observed s')
    (hev : Evolved [.acquired id] t.state s') :
    InTurn c t₀ { t with state := s', leasedModel := id } := by
  refine ⟨?_, hobs, ?_, h.requestId, h.sessionId⟩
  · show s'.Sound c (leaseOf id)
    rw [← leaseOf_of_ne hid]
    exact hsound
  · have hold := h.progress
    rw [hlease] at hold
    have hgrew := hold.trans (hev.grew.progress (by simp [Event.fine]))
    rw [taken, if_pos rfl] at hgrew
    show Progress (taken id) t₀.state s'
    rw [taken, if_neg hid]
    exact hgrew

/-- Only evictions. -/
theorem InTurn.reduced {t₀ t : Turn} (h : InTurn c t₀ t) {s' : State}
    (hred : Reduced c (leaseOf t.leasedModel) t.state s') :
    InTurn c t₀ { t with state := s' } := by
  refine ⟨hred.sound, hred.observed h.observed, ?_, h.requestId, h.sessionId⟩
  have := h.progress.trans (hred.evolved.grew.progress (by simp))
  rwa [List.filter_nil, List.append_nil] at this

/-- What the end of a turn says of the state: no lease is left, and the
trace since the beginning has one pair of lease events or none. -/
structure Ended (c : Config) (t₀ t : Turn) : Prop where
  sound : t.state.Sound c noLease
  observed : Observed t.state
  progress : ∃ id, Progress (balanced id) t₀.state t.state

/-- `giveBack` is a step of the state. -/
theorem giveBack_of_release {t : Turn} {s' : State}
    (h : (if t.leasedModel ≠ [] then release c env t.leasedModel else pure ())
      t.state = (.ok (), s')) :
    Turn.giveBack c env t = (.ok (), { t with state := s' }) := by
  unfold Turn.giveBack
  rw [Exec.bind_apply_ok (Exec.get_apply t)]
  by_cases hid : t.leasedModel = []
  · rw [if_neg (by simp [hid])] at h ⊢
    injection h with _ hs
    subst hs
    rfl
  · rw [if_pos hid] at h ⊢
    show Exec.zoom Turn.state _ _ t = _
    rw [Exec.zoom_apply, h]

/-- `giveBack` never fails. -/
theorem giveBack_spec {t₀ t : Turn} (h : InTurn c t₀ t) (env : Env) :
    ∃ s', Turn.giveBack c env t = (.ok (), { t with state := s' })
      ∧ Ended c t₀ { t with state := s' } ∧ s'.sessions = t.state.sessions
      ∧ s'.issued = t.state.issued
      ∧ s'.models.remembered = t.state.models.remembered
      ∧ ∀ (key : QString) (e : CacheEntry),
        s'.cache.entries[key]? = some e →
        t.state.cache.entries[key]? = some e := by
  obtain ⟨s', hrun, hsound, hobs, hprogress, hsess, hissued, hrem, hcache⟩ :=
    giveBack_state h.sound h.observed h.progress env
  exact ⟨s', giveBack_of_release hrun,
    ⟨hsound, hobs, t.leasedModel, hprogress⟩,
    hsess, hissued, hrem, hcache⟩

end LocalLLM
