/-
The operations on a model that is in use: taking a lease, giving it back,
unloading and removing.

Giving back a lease that is held cannot fail (`release_spec` is an
equation, not a triple): it touches the entry without a new keep-alive, so
what is remembered stays what it was, and the maintenance that follows
only evicts.
-/
import LocalLLM.Proofs.Manager

namespace LocalLLM.ModelManager

open Std

variable {c : Config} {held : Held} {env : Env} {s : State}

/-- After a load the model is resident, and a keep-alive that was asked
for is its own. -/
theorem LoadedVia.resident {s' : State} {id uri : QString}
    {request : ModelLoadRequest}
    (h : LoadedVia c held env s s' id uri request) :
    ∃ info entry model remembered,
      s'.models.Resident c held id info entry model remembered
      ∧ (0 ≤ request.keepAliveMs →
        entry.keepAliveMs = request.keepAliveMs) := by
  cases h with
  | existing info entry entry' model remembered _ hkeep hafter _ =>
      refine ⟨info, entry', model, _, hafter, fun hnonneg => ?_⟩
      rw [hkeep]
      exact if_pos hnonneg
  | new info entry model remembered _ hfor hafter _ =>
      refine ⟨info, entry, model, remembered, hafter, fun hnonneg => ?_⟩
      have hmerged : (merged s.models.remembered[id]?
          { request with model := uri }).keepAliveMs
              = request.keepAliveMs := by
        cases s.models.remembered[id]? with
        | none => rfl
        | some previous => exact if_neg (by dsimp only; omega)
      rw [hfor.keepAlive, hmerged, if_neg (by omega)]

/-- The request with which `acquire` loads. -/
def acquireRequest (uri : QString) (keepAlive : Int) : ModelLoadRequest :=
  { model := uri, keepAliveMs := keepAlive }

/-- Once its model is loaded, a lease is taken without fail: the entry is
there, and counting it up needs no room. -/
theorem acquire_of_load {id uri : QString} {keepAlive : Int}
    (huri : modelUri id = .ok uri) {loaded : ModelInfo} {t : State}
    (hload : load c env (acquireRequest uri keepAlive) s = (.ok loaded, t))
    (h : t.Sound c held) {info : ModelInfo} {entry : ResidencyEntry}
    {model : LoadedModel} {remembered : ModelLoadRequest}
    (hres : t.models.Resident c held id info entry model remembered)
    (hkeep : 0 ≤ keepAlive → entry.keepAliveMs = keepAlive) :
    ∃ s', acquire c env id keepAlive s = (.ok model, s')
      ∧ s'.Sound c (held.plus id) ∧ Observed s' ∧ Evolved [.acquired id] t s'
      ∧ (∃ entry', s'.models.Resident c (held.plus id) id info entry' model
        remembered)
      ∧ s'.models.remembered = t.models.remembered
      ∧ s'.models.runtimes = t.models.runtimes
      ∧ s'.models.loaded = t.models.loaded := by
  let entry' : ResidencyEntry :=
    { t.models.residency.touched entry keepAlive (env.now .acquire) with
      active := entry.active + 1 }
  let u : State := { t with
    models := { t.models with
      residency := { t.models.residency with
        clock := t.models.residency.clock + 1
        entries := t.models.residency.entries.insert id entry' } }
    trace := t.trace ++ [.acquired id] }
  have hsame : entry'.keepAliveMs = entry.keepAliveMs := by
    show keptFor entry keepAlive = _
    unfold keptFor
    by_cases hk : 0 ≤ keepAlive
    · rw [if_pos hk, hkeep hk]
    · rw [if_neg hk]
  have hactive : entry'.active = (held.plus id id : Nat) := by
    show entry.active + 1 = _
    rw [hres.active]
    simp [Held.plus]
  obtain ⟨hmodels, hresident⟩ := h.models.rewritten (n := u.models)
    (e := entry') hres rfl rfl rfl
    (Maps.insert_of_find hres.isRemembered).symm rfl rfl rfl rfl
    (by rw [hsame]; exact hres.matched.request_keepAlive)
    (by rw [hsame]; exact hres.matched.keepAlive_nonneg) hactive
    (fun k hk => if_neg hk)
  obtain ⟨infos, hpublish, hobserved⟩ := publish_spec (s := u) hmodels env
  have hevolved : Evolved [.acquired id] t { u with observed := infos } :=
    ⟨rfl, rfl, rfl, fun _ _ hk => hk, [.acquired id], rfl, rfl⟩
  refine ⟨{ u with observed := infos }, ?_,
    ⟨hmodels, h.grounded.evolved hevolved (by simp [Event.unkeyed])
      h.grounded.bounded fun _ _ _ _ hother => hother⟩, hobserved, hevolved,
    ⟨entry', hresident⟩, rfl, rfl, rfl⟩
  unfold acquireRequest at hload
  unfold acquire
  rw [Exec.bind_apply_ok (show Exec.ofExcept (modelUri id) s = (.ok uri, s) by
      rw [Exec.ofExcept_apply, huri]),
    Exec.bind_apply_ok hload,
    Exec.bind_apply_ok (Exec.get_apply t),
    Exec.bind_apply_ok (trust_ok
      (ModelResidencyManager.acquire_ok hres.hasEntry _ _) t),
    Exec.bind_apply_ok (setResidency_apply _ _),
    Exec.bind_apply_ok (log_apply _ _),
    Exec.bind_apply_ok hpublish,
    Exec.bind_apply_ok (Exec.get_apply _)]
  exact trust_ok (RuntimeManager.get_ok hresident.hasModel) _

/-- The URI of a model stands for itself. -/
theorem acquireRequest_checked {id id' uri uri' : QString} {keepAlive : Int}
    (huri : modelUri id = .ok uri)
    (h : RequestChecked c (acquireRequest uri keepAlive) id' uri') :
    id' = id ∧ uri' = uri := by
  have hcanonical := h.canonical
  unfold acquireRequest at hcanonical
  rw [canonical_modelUri c.registry huri] at hcanonical
  injection hcanonical with heq
  subst heq
  have hid := h.modelId
  rw [modelId_modelUri huri] at hid
  injection hid with heq
  exact ⟨heq.symm, rfl⟩

/-- Taking a lease: the model is resident and leased once more, or nothing
but evictions has happened. -/
theorem acquire_spec (h : s.Sound c held) (env : Env) (id : QString)
    (keepAlive : Int) :
    Exec.wp (acquire c env id keepAlive)
      (fun model s' => s'.Sound c (held.plus id) ∧ Observed s'
        ∧ Evolved [.acquired id] s s'
        ∧ (∃ info entry remembered, s'.models.Resident c (held.plus id) id info
          entry model remembered)
        ∧ ∃ uri t, modelUri id = .ok uri
          ∧ LoadedVia c held env s t id uri (acquireRequest uri keepAlive)
          ∧ s'.models.remembered = t.models.remembered
          ∧ s'.models.runtimes = t.models.runtimes
          ∧ s'.models.loaded = t.models.loaded)
      (fun _ s' => Reduced c held s s'
        ∧ (s' = s ∨ s.models.loaded[id]? = none ∧ .loadFailed id ∈ s'.trace))
      s := by
  cases huri : modelUri id with
  | error e =>
      refine Exec.wp_of_error (e := e) (t := s) ?_ ⟨Reduced.refl h, Or.inl rfl⟩
      unfold acquire
      exact Exec.bind_apply_error (by rw [Exec.ofExcept_apply, huri])
  | ok uri =>
      rcases Exec.wp_cases (load_spec h env (acquireRequest uri keepAlive))
          with
        ⟨loaded, t, hload, hsound, -, hev, id', uri', hchecked, hvia⟩
        | ⟨e, t, hload, hred, hcase⟩
      · obtain ⟨rfl, rfl⟩ := acquireRequest_checked huri hchecked
        obtain ⟨info, entry, model, remembered, hres, hkeep⟩ := hvia.resident
        obtain ⟨s', hrun, hsound', hobs, hev', ⟨entry', hres'⟩, hremembered,
          hruntimes, hloaded⟩ := acquire_of_load huri hload hsound hres hkeep
        exact Exec.wp_of_ok hrun ⟨hsound', hobs, hev.trans hev',
          ⟨info, entry', remembered, hres'⟩, uri', t, rfl, hvia, hremembered,
          hruntimes, hloaded⟩
      · refine Exec.wp_of_error (e := e) (t := t) ?_ ⟨hred, hcase.imp_right ?_⟩
        · unfold acquireRequest at hload
          unfold acquire
          rw [Exec.bind_apply_ok (show Exec.ofExcept (modelUri id) s
            = (.ok uri, s)
            by rw [Exec.ofExcept_apply, huri])]
          exact Exec.bind_apply_error hload
        · rintro ⟨id', uri', hchecked, hnew, hfailed⟩
          obtain ⟨rfl, rfl⟩ := acquireRequest_checked huri hchecked
          exact ⟨hnew, hfailed⟩

/-- Giving back a lease that is held. The entry cannot be missing, since a
model in use is never evicted. -/
theorem release_spec (h : s.Sound c held) {id : QString}
    (hheld : 0 < held id) (env : Env) :
    ∃ s', release c env id s = (.ok (), s') ∧ s'.Sound c (held.minus id)
      ∧ Observed s' ∧ Evolved [.released id] s s'
      ∧ s'.models.remembered = s.models.remembered
      ∧ ∀ k : QString, s.models.loaded[k]? = none →
        s'.models.loaded[k]? = none := by
  -- a leased model is resident
  obtain ⟨info, entry, model, remembered, hres⟩ :
    ∃ info entry model remembered,
      s.models.Resident c held id info entry model remembered := by
    rcases h.models.standing id with habs | hres
    · have := habs.held
      omega
    · exact hres
  have hpos : 0 < entry.active := by
    have := hres.active
    omega
  let entry' : ResidencyEntry := s.models.residency.touched
    { entry with active := entry.active - 1 } (-1) (env.now .release)
  let r : State := { s with
    models := { s.models with
      residency := { s.models.residency with
        clock := s.models.residency.clock + 1
        entries := s.models.residency.entries.insert id entry' } }
    trace := s.trace ++ [.released id] }
  let t : State := { r with models := { r.models with
    remembered := s.models.remembered.insert id
      { remembered with keepAliveMs := entry'.keepAliveMs } } }
  have hactive : entry'.active = (held.minus id id : Nat) := by
    show entry.active - 1 = _
    rw [hres.active]
    simp only [Held.minus, if_true]
    omega
  obtain ⟨hmodels, -⟩ := h.models.rewritten (n := t.models) (e := entry')
    hres rfl rfl rfl rfl rfl rfl rfl rfl rfl
      hres.matched.keepAlive_nonneg hactive
    (fun k hk => if_neg hk)
  have hevolved : Evolved [.released id] s t :=
    ⟨rfl, rfl, rfl, fun _ _ hk => hk, [.released id], rfl, rfl⟩
  have htsound : t.Sound c (held.minus id) :=
    ⟨hmodels, h.grounded.evolved hevolved (by simp [Event.unkeyed])
      h.grounded.bounded fun _ _ _ _ hother => hother⟩
  obtain ⟨u, hmaintain, hred⟩ := maintain_spec htsound env
  obtain ⟨infos, hpublish, hobserved⟩ := publish_spec hred.sound.models env
  have hlast : Evolved [] u { u with observed := infos } :=
    ⟨rfl, rfl, rfl, fun _ _ hk => hk, [], by simp, rfl⟩
  -- the touch brought no keep-alive, so nothing new is remembered
  have hremembered : t.models.remembered = s.models.remembered := by
    have hkeep : entry'.keepAliveMs = remembered.keepAliveMs :=
      hres.matched.request_keepAlive.symm
    show s.models.remembered.insert id
      { remembered with keepAliveMs := entry'.keepAliveMs } = _
    rw [hkeep]
    exact Maps.insert_of_find hres.isRemembered
  refine ⟨{ u with observed := infos }, ?_,
    ⟨hred.sound.models, hred.sound.grounded.evolved hlast (by simp)
      hred.sound.grounded.bounded fun _ _ _ _ hother => hother⟩, hobserved,
    (hevolved.trans hred.evolved).trans hlast,
    hred.thinned.remembered.trans hremembered,
    fun k hk => hred.thinned.not_loaded hk⟩
  unfold release
  rw [Exec.bind_apply_ok (Exec.get_apply s),
    Exec.bind_apply_ok (trust_ok
      (ModelResidencyManager.release_ok hres.hasEntry hpos _) s),
    Exec.bind_apply_ok (setResidency_apply _ _),
    Exec.bind_apply_ok (log_apply _ _),
    Exec.bind_apply_ok (mirrorKeepAlive_ok (s := r)
      (Maps.find_insert_self _ _ _) hres.isRemembered),
    Exec.bind_apply_ok hmaintain]
  exact hpublish

/-- Unloading evicts an idle model; it refuses a leased one, and then only
the trace knows of it. -/
theorem unload_spec (h : s.Sound c held) (uri : QString) :
    Exec.wp (unload c env uri)
      (fun _ s' => Reduced c held s s' ∧ Observed s')
      (fun _ s' => s' = s ∨ ∃ id entry,
        s.models.residency.entries[id]? = some entry ∧ entry.active ≠ 0
        ∧ s' = { s with trace := s.trace ++ [.evicting id entry.active] })
          s := by
  unfold unload
  rw [Exec.wp_bind, Exec.wp_ofExcept]
  refine ⟨fun canonical _ => ?_, fun _ _ => Or.inl rfl⟩
  rw [Exec.wp_bind, Exec.wp_ofExcept]
  refine ⟨fun id _ => ?_, fun _ _ => Or.inl rfl⟩
  rw [Exec.wp_bind]
  cases hloaded : s.models.loaded[id]? with
  | none =>
      refine Exec.wp_of_error (e := err .NotFound "Model is not loaded")
        (t := s) ?_ (Or.inl rfl)
      unfold loadedInfo
      rw [Exec.bind_apply_ok (Exec.get_apply s)]
      simp only [hloaded]
      rfl
  | some info =>
      obtain ⟨entry, model, remembered, hres⟩ := h.models.of_loaded hloaded
      refine Exec.wp_of_ok (loadedInfo_ok hloaded hres.hasEntry env) ?_
      by_cases hidle : entry.active = 0
      · obtain ⟨s', hevict, hred, hobs, -⟩ :=
          evict_spec h hres.hasEntry hidle env false
        exact Exec.wp_of_ok hevict ⟨hred, hobs⟩
      · refine Exec.wp_of_error
          (e := err .ModelInUse "Active model cannot be unloaded")
          (t := { s with trace := s.trace ++ [.evicting id entry.active] }) ?_
          (Or.inr ⟨id, entry, hres.hasEntry, hidle, rfl⟩)
        unfold evict
        rw [Exec.bind_apply_ok (Exec.get_apply s),
          Exec.bind_apply_ok
            (trust_ok (ModelResidencyManager.get_ok hres.hasEntry) s),
          Exec.bind_apply_ok (log_apply _ s),
          Exec.bind_apply_error (check_not hidle _ _ _)]

/-- Removing a package forgets the request of a model that is not loaded. -/
theorem remove_spec (h : s.Sound c held) (reference : QString) :
    Exec.wp (remove c env reference)
      (fun _ s' => s'.Sound c held ∧ (Observed s → Observed s')
        ∧ Evolved [] s s' ∧ s'.models.loaded = s.models.loaded)
      (fun _ s' => s' = s) s := by
  unfold remove check
  rw [Exec.wp_bind, Exec.wp_ofExcept]
  refine ⟨fun uri _ => ?_, fun _ _ => rfl⟩
  rw [Exec.wp_bind, Exec.wp_ofExcept]
  refine ⟨fun id _ => ?_, fun _ _ => rfl⟩
  rw [Exec.wp_bind, Exec.wp_get, Exec.wp_bind, Exec.wp_ofExcept]
  refine ⟨fun _ hnew => ?_, fun _ _ => rfl⟩
  rw [Exec.wp_bind, Exec.wp_ofExcept]
  refine ⟨fun _ _ => ?_, fun _ _ => rfl⟩
  rw [require_eq_ok, Maps.not_mem_iff_find] at hnew
  rw [Exec.wp_modify]
  let t : State := { s with models := { s.models with
    remembered := s.models.remembered.erase id } }
  have hevolved : Evolved [] s t :=
    ⟨rfl, rfl, rfl, fun _ _ hk => hk, [], by simp [t], rfl⟩
  exact ⟨⟨h.models.forgotten hnew rfl rfl rfl rfl,
    h.grounded.evolved hevolved (by simp) h.grounded.bounded
      fun _ _ _ _ hother => hother⟩, fun hobs => hobs, hevolved, rfl⟩

end LocalLLM.ModelManager
