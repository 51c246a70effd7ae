/-
Embeddings and measurements: tasks that take a lease, compute, and give the
lease back on one of two paths.

`around_spec` is the rule for both. A body that keeps `OnLoan` and returns
with a lease, gives it back inside the `try`; a body that throws, gives it
back in the handler if it had got that far. The variable `acquired` is
cleared in between, so no lease goes back twice.
-/
import LocalLLM.Proofs.Turns

namespace LocalLLM

open Std ModelManager

variable {c : Config} {env : Env} {α : Type}

/-- The worker's state during a task that began in `s₀`. -/
structure OnLoan (c : Config) (s₀ : State) (l : Lease) : Prop where
  sound : l.state.Sound c (leaseOf l.acquired)
  observed : Observed l.state
  progress : Progress (taken l.acquired) s₀ l.state
  sessions : l.state.sessions = s₀.sessions
  issued : l.state.issued = s₀.issued

/-- What such a task leaves behind. -/
structure Repaid (c : Config) (s₀ s : State) : Prop where
  sound : s.Sound c noLease
  observed : Observed s
  progress : ∃ id, Progress (balanced id) s₀ s
  sessions : s.sessions = s₀.sessions
  issued : s.issued = s₀.issued

theorem OnLoan.start {s : State} (h : s.Sound c noLease) (hobs : Observed s) :
    OnLoan c s { state := s } :=
  ⟨by rw [leaseOf_nil]; exact h, hobs, Progress.refl s, rfl, rfl⟩

/-- The return of the lease, if there is one. -/
theorem OnLoan.giveBack {s₀ : State} {l : Lease}
    (h : OnLoan c s₀ l) (env : Env) :
    ∃ s, (if l.acquired ≠ [] then release c env l.acquired
        else pure ()) l.state
        = (.ok (), s)
      ∧ Repaid c s₀ s := by
  obtain ⟨s, hrun, hsound, hobs, hprogress, hsessions, hissued, -, -⟩ :=
    giveBack_state h.sound h.observed h.progress env
  exact ⟨s, hrun, hsound, hobs, ⟨_, hprogress⟩, hsessions.trans h.sessions,
    hissued.trans h.issued⟩

/-- A body that returns with a lease gives it back inside the `try`. -/
theorem around_ok {s s' : State} {body : LeaseM α} {a : α} {l : Lease}
    (hrun : body { state := s } = (.ok a, l))
    (hback : release c env l.acquired l.state = (.ok (), s')) :
    Lease.around c env body s = (.ok a, s') := by
  have hreturned : (body >>= Lease.returned c env) { state := s }
      = (.ok a, { state := s', acquired := [] }) := by
    rw [Exec.bind_apply_ok hrun]
    unfold Lease.returned Lease.onState
    rw [Exec.bind_apply_ok (Exec.get_apply l)]
    have hzoom : Exec.zoom Lease.state (fun s l => { l with state := s })
        (release c env l.acquired) l = (.ok (), { l with state := s' }) := by
      rw [Exec.zoom_apply, hback]
    rw [Exec.bind_apply_ok hzoom]
    rfl
  unfold Lease.around
  rw [Exec.tryCatch_apply_ok hreturned]

/-- A body that throws gives its lease back in the handler, if it has one. -/
theorem around_error {s s' : State} {body : LeaseM α} {e : Exn} {l : Lease}
    (hrun : body { state := s } = (.error e, l))
    (hback : (if l.acquired ≠ [] then release c env l.acquired
      else pure ()) l.state
      = (.ok (), s')) :
    Lease.around c env body s = (.error e, s') := by
  have hgiven : Lease.giveBack c env l = (.ok (), { l with state := s' }) := by
    unfold Lease.giveBack Lease.onState
    rw [Exec.bind_apply_ok (Exec.get_apply l)]
    by_cases hne : l.acquired = []
    · rw [if_neg (by simp [hne])] at hback ⊢
      injection hback with _ hs
      subst hs
      rfl
    · rw [if_pos hne] at hback ⊢
      rw [Exec.zoom_apply, hback]
  unfold Lease.around
  rw [Exec.tryCatch_apply_error (Exec.bind_apply_error hrun)]
  unfold Lease.failed
  rw [Exec.bind_apply_ok hgiven]
  rfl

/-- A body between its lease and the value of its promise. -/
theorem around_spec {s : State} {body : LeaseM α}
    (hbody : Exec.wp body (fun _ l => OnLoan c s l ∧ l.acquired ≠ [])
      (fun _ l => OnLoan c s l) { state := s }) :
    Repaid c s (Lease.around c env body s).2 := by
  rcases Exec.wp_cases hbody with ⟨a, l, hrun, hloan, hne⟩ | ⟨e,
    l, hrun, hloan⟩
  · obtain ⟨s', hback, hrepaid⟩ := hloan.giveBack env
    rw [if_pos hne] at hback
    rw [around_ok hrun hback]
    exact hrepaid
  · obtain ⟨s', hback, hrepaid⟩ := hloan.giveBack env
    rw [around_error hrun hback]
    exact hrepaid

/-- Taking the lease. -/
theorem acquire_onLoan {s₀ : State} {l : Lease} (h : OnLoan c s₀ l)
    (hfree : l.acquired = []) {id : QString} (hvalid : validId id = true)
    (env : Env) (keepAlive : Int) {Q : LoadedModel → Lease → Prop}
    (hQ : ∀ model s', OnLoan c s₀ { state := s', acquired := model.spec.id } →
      model.spec.id ≠ [] →
      Q model { l with state := s' }) :
    Exec.wp (Lease.onState (acquire c env id keepAlive)) Q
      (fun _ l' => OnLoan c s₀ l') l := by
  unfold Lease.onState
  rw [Exec.wp_zoom]
  have hsound := h.sound
  rw [hfree, leaseOf_nil] at hsound
  refine Exec.wp_mono (acquire_spec hsound env id keepAlive) ?_ ?_
  · rintro model s' ⟨hsound', hobs, hev, ⟨info, entry, remembered, hres⟩, -⟩
    have hid := hres.matched.spec_id
    have hne : model.spec.id ≠ [] := by
      rw [hid]
      exact validId_ne_nil hvalid
    refine hQ model s' ⟨?_, hobs, ?_, hev.sessions.trans h.sessions,
      hev.issued.trans h.issued⟩ hne
    · rw [← leaseOf_of_ne hne, hid]
      exact hsound'
    · have hold := h.progress
      rw [hfree] at hold
      have hgrew := hold.trans (hev.grew.progress (by simp [Event.fine]))
      show Progress (taken model.spec.id) s₀ s'
      rw [taken, if_neg hne, hid]
      exact hgrew
  · rintro _ s' ⟨hred, -⟩
    refine ⟨?_, hred.observed h.observed, ?_,
      hred.evolved.sessions.trans h.sessions,
        hred.evolved.issued.trans h.issued⟩
    · show s'.Sound c (leaseOf l.acquired)
      rw [hfree, leaseOf_nil]
      exact hred.sound
    · have := h.progress.trans (hred.evolved.grew.progress (by simp))
      rwa [List.filter_nil, List.append_nil] at this

/-- `embedText` is repaid, however it ends: the lease is given back behind the
call, also where the runtime throws. -/
theorem embedText_spec {s : State} (h : s.Sound c noLease) (hobs : Observed s)
    (env : Env) (model text : QString) :
    Repaid c s (embedText c env model text s).2 := by
  have h₀ := OnLoan.start h hobs
  refine around_spec ?_
  unfold embedBody
  rw [Exec.wp_bind, Exec.wp_ofExcept]
  refine ⟨fun _ _ => ?_, fun _ _ => h₀⟩
  rw [Exec.wp_bind, Exec.wp_ofExcept]
  refine ⟨fun _ _ => ?_, fun _ _ => h₀⟩
  rw [Exec.wp_bind, Exec.wp_get, Exec.wp_bind, Exec.wp_ofExcept]
  refine ⟨fun record hrecord => ?_, fun _ _ => h₀⟩
  rw [Exec.wp_bind, Exec.wp_ofExcept]
  refine ⟨fun _ _ => ?_, fun _ _ => h₀⟩
  rw [Exec.wp_bind]
  refine acquire_onLoan h₀ rfl (resolve_valid hrecord) env (-1) ?_
  intro loaded s' hloan hne
  rw [Exec.wp_bind, Exec.wp_modify]
  cases hembed : loaded.runtime.embedText with
  | none => exact hloan
  | some embed =>
      show Exec.wp _ _ _ _
      simp only
      rw [Exec.wp_bind, Exec.wp_modify]
      -- the contexts of the model make room
      have hstep := stepped_eraseModel hloan.sound loaded.spec.id
      have herased : OnLoan c s
          { state := { s' with cache := s'.cache.eraseModel loaded.spec.id },
            acquired := loaded.spec.id } :=
        ⟨hstep.sound, hstep.observed_iff.2 hloan.observed, by
          have := hloan.progress.trans hstep.progress
          rwa [List.append_nil] at this, hloan.sessions, hloan.issued⟩
      rw [Exec.wp_bind, Exec.wp_ofExcept]
      refine ⟨fun result _ => ?_, fun _ _ => herased⟩
      rw [Exec.wp_bind, Exec.wp_ofExcept]
      refine ⟨fun _ _ => ?_, fun _ _ => herased⟩
      rw [Exec.wp_bind, Exec.wp_ofExcept]
      exact ⟨fun _ _ => ⟨herased, hne⟩, fun _ _ => herased⟩

/-- `measureConversation` is repaid, however it ends. -/
theorem measureConversation_spec {s : State} (h : s.Sound c noLease)
    (hobs : Observed s) (env : Env) (request : ConversationRequest) :
    Repaid c s (measureConversation c env request s).2 := by
  have h₀ := OnLoan.start h hobs
  refine around_spec ?_
  unfold measureBody
  rw [Exec.wp_bind, Exec.wp_ofExcept]
  refine ⟨fun _ _ => ?_, fun _ _ => h₀⟩
  rw [Exec.wp_bind, Exec.wp_ofExcept]
  refine ⟨fun _ _ => ?_, fun _ _ => h₀⟩
  rw [Exec.wp_bind, Exec.wp_get, Exec.wp_bind, Exec.wp_ofExcept]
  refine ⟨fun record hrecord => ?_, fun _ _ => h₀⟩
  rw [Exec.wp_bind, Exec.wp_ofExcept]
  refine ⟨fun _ _ => ?_, fun _ _ => h₀⟩
  rw [Exec.wp_bind]
  refine acquire_onLoan h₀ rfl (resolve_valid hrecord) env
    request.keepAliveMs ?_
  intro model s' hloan hne
  rw [Exec.wp_bind, Exec.wp_modify, Exec.wp_bind, Exec.wp_ofExcept]
  refine ⟨fun prepared _ => ?_, fun _ _ => hloan⟩
  rw [Exec.wp_bind, Exec.wp_ofExcept]
  exact ⟨fun _ _ => ⟨hloan, hne⟩, fun _ _ => hloan⟩

end LocalLLM
