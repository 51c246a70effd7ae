/-
One specification for each operation of the model manager.

Each says in which states the operation returns or throws, from a state
that satisfies the invariant: the invariant holds again, the rest of the
worker's state has only `Evolved`, the listing last observed is the
current one (`Observed`), and no assumption was broken. The eviction
loops end because every turn evicts a model.
-/
import LocalLLM.Proofs.Sound

namespace LocalLLM

open Std

/-- The listing last handed to `changed_` has the ids that are loaded,
with their active counts. -/
def Observed (s : State) : Prop :=
  s.observed.map (fun i => (i.model.manifest.id, some i.activeRequests))
    = s.models.loaded.toList.map fun p =>
      (p.1, (s.models.residency.entries[p.1]?).map ResidencyEntry.active)

/-- What evictions do to a state that satisfies the invariant. -/
structure Reduced (c : Config) (held : Held) (s s' : State) : Prop where
  sound : s'.Sound c held
  observed : Observed s → Observed s'
  evolved : Evolved [] s s'
  thinned : s'.models.Thinned s.models

theorem Reduced.refl {c : Config} {held : Held} {s : State}
    (h : s.Sound c held) : Reduced c held s s :=
  ⟨h, fun h => h, Evolved.refl s, ModelManager.Thinned.refl _⟩

theorem Reduced.trans {c : Config} {held : Held} {s t u : State}
    (h : Reduced c held s t) (h' : Reduced c held t u) : Reduced c held s u :=
  ⟨h'.sound, fun hs => h'.observed (h.observed hs), h.evolved.trans h'.evolved,
    h.thinned.trans h'.thinned⟩

-- ============================================================ small steps

theorem trust_ok {α : Type} {r : Except Fault α} {a : α} (h : r = .ok a)
    (s : State) : trust r s = (.ok a, s) := by
  rw [h]
  rfl

theorem check_of {condition : Prop} [Decidable condition] (h : condition)
    (code : ErrorCode) (message : String) (s : State) :
    check condition code message s = (.ok (), s) := by
  unfold check require
  rw [if_pos h]
  rfl

theorem check_not {condition : Prop} [Decidable condition] (h : ¬ condition)
    (code : ErrorCode) (message : String) (s : State) :
    check condition code message s = (.error (err code message), s) := by
  unfold check require
  rw [if_neg h]
  rfl

@[simp] theorem log_apply (event : Event) (s : State) :
    log event s = (.ok (), { s with trace := s.trace ++ [event] }) := rfl

namespace ModelManager

@[simp] theorem setResidency_apply (residency : ModelResidencyManager)
    (s : State) : setResidency residency s
      = (.ok (), { s with models := { s.models with residency } }) := rfl

@[simp] theorem setRuntimes_apply (runtimes : RuntimeManager) (s : State) :
    setRuntimes runtimes s
      = (.ok (), { s with models := { s.models with runtimes } }) := rfl

variable {c : Config} {held : Held} {env : Env} {s : State}

theorem listing_ok (residency : ModelResidencyManager) (now : Int) :
    ∀ l : List (QString × ModelInfo),
    (∀ p ∈ l, (∃ e, residency.entries[p.1]? = some e)
      ∧ p.2.model.manifest.id = p.1) →
    ∃ infos, listing residency now l = .ok infos
      ∧ infos.map (fun i => (i.model.manifest.id, some i.activeRequests))
        = l.map fun p =>
          (p.1, (residency.entries[p.1]?).map ResidencyEntry.active) := by
  intro l
  induction l with
  | nil => intro _; exact ⟨[], rfl, rfl⟩
  | cons p rest ih =>
      obtain ⟨id, info⟩ := p
      intro hl
      obtain ⟨⟨e, he⟩, hid⟩ := hl (id, info) (List.mem_cons_self ..)
      obtain ⟨infos, hinfos, hmap⟩ := ih
        fun q hq => hl q (List.mem_cons_of_mem _ hq)
      refine ⟨live info e now :: infos, ?_, ?_⟩
      · unfold listing
        rw [ModelResidencyManager.get_ok he, hinfos]
        rfl
      · dsimp only at he hid
        rw [List.map_cons, List.map_cons, hmap, he, ← hid]
        rfl

/-- Publishing stores the current listing and changes nothing else. -/
theorem publish_spec (h : s.models.Sound c held) (env : Env) :
    ∃ infos, publish env s = (.ok (), { s with observed := infos })
      ∧ Observed { s with observed := infos } := by
  obtain ⟨infos, hlisting, hmap⟩ := listing_ok s.models.residency
    (env.now .info) s.models.loaded.toList (by
      intro p hp
      have hfind := ExtTreeMap.mem_toList_iff_getElem?_eq_some.1 hp
      obtain ⟨entry, model, request, hres⟩ := h.of_loaded hfind
      exact ⟨⟨entry, hres.hasEntry⟩, hres.matched.named⟩)
  refine ⟨infos, ?_, hmap⟩
  unfold publish
  rw [Exec.bind_apply_ok (Exec.get_apply s),
    Exec.bind_apply_ok (trust_ok hlisting s)]
  rfl

/-- `loadedInfo` of a resident model changes nothing. -/
theorem loadedInfo_ok {id : QString} {info : ModelInfo}
    {entry : ResidencyEntry} (hloaded : s.models.loaded[id]? = some info)
    (hentry : s.models.residency.entries[id]? = some entry) (env : Env) :
    loadedInfo env id s = (.ok (live info entry (env.now .info)), s) := by
  unfold loadedInfo
  rw [Exec.bind_apply_ok (Exec.get_apply s)]
  simp only [hloaded]
  rw [Exec.bind_apply_ok
    (trust_ok (ModelResidencyManager.get_ok hentry) s)]
  rfl

/-- Mirroring a keep-alive rewrites the remembered request. -/
theorem mirrorKeepAlive_ok {id : QString} {entry : ResidencyEntry}
    {request : ModelLoadRequest}
    (hentry : s.models.residency.entries[id]? = some entry)
    (hremembered : s.models.remembered[id]? = some request) :
    mirrorKeepAlive id s = (.ok (), { s with models := { s.models with
      remembered := s.models.remembered.insert id
        { request with keepAliveMs := entry.keepAliveMs } } }) := by
  unfold mirrorKeepAlive
  rw [Exec.bind_apply_ok (Exec.get_apply s)]
  rw [Exec.bind_apply_ok
    (trust_ok (ModelResidencyManager.get_ok hentry) s)]
  simp only [hremembered]
  rfl

-- =============================================================== eviction

/-- Evicting an idle model: its contexts go first, then its weights, then
its reservation and its listing. -/
theorem evict_spec (h : s.Sound c held) {id : QString} {entry : ResidencyEntry}
    (hentry : s.models.residency.entries[id]? = some entry)
    (hidle : entry.active = 0) (env : Env) (automatic : Bool) :
    ∃ s', evict env id automatic s = (.ok (), s') ∧ Reduced c held s s'
      ∧ Observed s' ∧ s'.models.Without s.models id := by
  obtain ⟨info, model, request, hres⟩ := h.models.of_entry hentry
  -- the state before the last step
  let t : State := { s with
    models := { s.models with
      runtimes := { s.models.runtimes with
        models := s.models.runtimes.models.erase id }
      residency := { s.models.residency with
        evictions := if automatic then s.models.residency.evictions + 1
          else s.models.residency.evictions
        entries := s.models.residency.entries.erase id }
      loaded := s.models.loaded.erase id }
    cache := s.cache.eraseModel id
    trace := s.trace ++ [.evicting id entry.active] }
  have hwithout : t.models.Without s.models id :=
    ⟨rfl, rfl, rfl, rfl, rfl, rfl⟩
  have htsound : t.models.Sound c held :=
    h.models.without hentry hidle hwithout
  obtain ⟨infos, hpublish, hobserved⟩ := publish_spec htsound env
  have hrun : evict env id automatic s = publish env t := by
    unfold evict
    rw [Exec.bind_apply_ok (Exec.get_apply s),
      Exec.bind_apply_ok (trust_ok (ModelResidencyManager.get_ok hentry) s),
      Exec.bind_apply_ok (log_apply _ s),
      Exec.bind_apply_ok (check_of hidle _ _ _),
      Exec.bind_apply_ok (Exec.modify_apply _ _),
      Exec.bind_apply_ok (trust_ok (RuntimeManager.unload_ok hres.hasModel) _),
      Exec.bind_apply_ok (setRuntimes_apply _ _),
      Exec.bind_apply_ok
        (trust_ok (ModelResidencyManager.erased_ok hentry hidle automatic) _),
      Exec.bind_apply_ok (setResidency_apply _ _),
      Exec.bind_apply_ok (Exec.modify_apply _ _)]
  have hevolved : Evolved [] s { t with observed := infos } := by
    refine ⟨rfl, rfl, rfl, fun key e hk => ?_,
      [.evicting id entry.active], rfl, by rw [hidle]; rfl⟩
    have hk' : (s.cache.eraseModel id).entries[key]? = some e := hk
    rw [ContextCacheManager.find_eraseModel] at hk'
    exact (Option.filter_eq_some_iff.1 hk').1
  refine ⟨{ t with observed := infos }, hrun.trans hpublish,
    ⟨⟨htsound, h.grounded.evolved hevolved (by simp)
        (h.grounded.bounded.eraseModel id)
      fun key e hk other hother => ?_⟩, fun _ => hobserved, hevolved,
      hwithout.thinned⟩, hobserved, hwithout⟩
  -- an entry that stays is not one of this model
  have hk' : (s.cache.eraseModel id).entries[key]? = some e := hk
  rw [ContextCacheManager.find_eraseModel] at hk'
  have hne : id ≠ e.modelId := by
    have := (Option.filter_eq_some_iff.1 hk').2
    intro heq
    simp [heq] at this
  show (s.models.runtimes.models.erase id)[e.modelId]? = some other
  rw [Maps.find_erase_ne _ hne, hother]

/-- The expired models go one by one; each is still there when its turn
comes, because the list names it once. -/
theorem evictAll_spec (env : Env) : ∀ (ids : List QString) (s : State),
    s.Sound c held → ids.Nodup →
    (∀ id ∈ ids, ∃ entry, s.models.residency.entries[id]? = some entry
      ∧ entry.active = 0) →
    ∃ s', evictAll env ids s = (.ok (), s') ∧ Reduced c held s s' := by
  intro ids
  induction ids with
  | nil => intro s h _ _; exact ⟨s, rfl, Reduced.refl h⟩
  | cons id rest ih =>
      intro s h hnodup hidle
      obtain ⟨hnotin, hnodup⟩ := List.nodup_cons.1 hnodup
      obtain ⟨entry, hentry, hzero⟩ := hidle id (List.mem_cons_self ..)
      obtain ⟨t, ht, hred, -, hwithout⟩ := evict_spec h hentry hzero env true
      obtain ⟨u, hu, hred'⟩ := ih t hred.sound hnodup fun k hk => by
        obtain ⟨e, he, hz⟩ := hidle k (List.mem_cons_of_mem _ hk)
        have hne : id ≠ k := fun heq => hnotin (heq ▸ hk)
        exact ⟨e, by rw [hwithout.entries, Maps.find_erase_ne _ hne, he], hz⟩
      refine ⟨u, ?_, hred.trans hred'⟩
      unfold evictAll
      rw [Exec.bind_apply_ok ht, hu]

/-- An eviction leaves one model less. -/
theorem size_lt_of_without {m m' : ModelManager} {id : QString}
    {entry : ResidencyEntry} (hentry : m.residency.entries[id]? = some entry)
    (hw : m'.Without m id) :
    m'.residency.entries.size + 1 = m.residency.entries.size := by
  rw [hw.entries]
  exact Maps.size_erase_of_some hentry

/-- Under memory pressure the idle models go, and the loop ends: each round
takes one model out, so there are no more rounds than models. -/
theorem relieve_spec (env : Env) : ∀ (turns : Nat) (s : State),
    s.Sound c held → s.models.residency.entries.size < turns →
    ∃ s', relieve c env turns s = (.ok (), s') ∧ Reduced c held s s' := by
  intro turns
  induction turns with
  | zero => intro s _ h; omega
  | succ turns ih =>
      intro s h hsize
      unfold relieve
      rw [Exec.bind_apply_ok (Exec.get_apply s)]
      cases hram : env.ram (.pressure turns) with
      | none => exact ⟨s, rfl, Reduced.refl h⟩
      | some available =>
          by_cases hlow : available < c.policy.reserve
          · cases hvictim : s.models.residency.oldestIdle with
            | none =>
                simp only [if_pos hlow]
                exact ⟨s, rfl, Reduced.refl h⟩
            | some victim =>
                obtain ⟨entry, hentry, hzero⟩ :=
                  ModelResidencyManager.oldestIdle_spec hvictim
                obtain ⟨t, ht, hred, -, hwithout⟩ :=
                  evict_spec h hentry hzero env true
                have hless := size_lt_of_without hentry hwithout
                obtain ⟨u, hu, hred'⟩ := ih t hred.sound (by omega)
                simp only [if_pos hlow]
                exact ⟨u, by rw [Exec.bind_apply_ok ht, hu], hred.trans hred'⟩
          · simp only [if_neg hlow]
            exact ⟨s, rfl, Reduced.refl h⟩

/-- Maintenance never fails and only evicts. -/
theorem maintain_spec (h : s.Sound c held) (env : Env) :
    ∃ s', maintain c env s = (.ok (), s') ∧ Reduced c held s s' := by
  obtain ⟨t, ht, hred⟩ := evictAll_spec env
    (s.models.residency.expired (env.now .expired)) s h
    (ModelResidencyManager.expired_nodup _ _)
    fun id hid => ModelResidencyManager.expired_spec hid
  obtain ⟨u, hu, hred'⟩ := relieve_spec env
    (t.models.residency.entries.size + 1) t hred.sound (by omega)
  refine ⟨u, ?_, hred.trans hred'⟩
  unfold maintain
  rw [Exec.bind_apply_ok (Exec.get_apply s), Exec.bind_apply_ok ht,
    Exec.bind_apply_ok (Exec.get_apply t), hu]

/-- Admission either ends with room for the model, or throws; on the way
it only evicts. -/
theorem admission_spec (env : Env) (required : UInt64) :
    ∀ (turns : Nat) (s : State), s.Sound c held →
    s.models.residency.entries.size < turns →
    Exec.wp (admission c env required turns)
      (fun _ s' => Reduced c held s s'
        ∧ s'.models.residency.entries.size < c.maxModels
        ∧ s'.models.residency.reservedBytes + required.toNat
          ≤ c.policy.budget.toNat
        ∧ s'.models.residency.fits c.policy required none = .ok true)
      (fun _ s' => Reduced c held s s') s := by
  intro turns
  induction turns with
  | zero => intro s _ h; omega
  | succ turns ih =>
      intro s h hsize
      obtain ⟨fits, hfits, hroom⟩ :=
        ModelResidencyManager.fits_ok h.models.sized
        h.models.budget required (env.ram (.admission turns))
      unfold admission
      rw [Exec.wp_bind, Exec.wp_get, Exec.wp_bind]
      refine Exec.wp_of_ok (trust_ok hfits s) ?_
      cases fits with
      | true => exact ⟨Reduced.refl h, hroom rfl⟩
      | false =>
          rw [if_neg (by simp), Exec.wp_bind, Exec.wp_ofExcept]
          refine ⟨fun _ _ => ?_, fun _ _ => Reduced.refl h⟩
          cases hvictim : s.models.residency.oldestIdle with
          | none => exact Reduced.refl h
          | some victim =>
              obtain ⟨entry, hentry, hzero⟩ :=
                ModelResidencyManager.oldestIdle_spec hvictim
              obtain ⟨t, ht, hred, -, hwithout⟩ :=
                evict_spec h hentry hzero env true
              have hless := size_lt_of_without hentry hwithout
              show Exec.wp (evict env victim true >>= fun _ =>
                admission c env required turns) _ _ s
              rw [Exec.wp_bind]
              refine Exec.wp_of_ok ht ?_
              exact Exec.wp_mono (ih t hred.sound (by omega))
                (fun _ u hu => ⟨hred.trans hu.1, hu.2⟩)
                (fun _ u hu => hred.trans hu)

-- ================================================================= loading

/-- What a plan says: the configuration, and an estimate that
fits the budget. -/
theorem plan_ok {m : ModelManager} {id uri : QString}
    {request config : ModelLoadRequest} {resolved : ResolvedModel}
    {spec : ModelSpec} {memory : MemoryEstimate} {bytes : UInt64}
    (h : plan c env m id uri request
      = .ok (config, resolved, spec, memory, bytes)) :
    config = merged m.remembered[id]? { request with model := uri }
      ∧ c.catalog.resolve env.probe uri = .ok resolved
      ∧ spec = specOf id resolved (contextOf c config resolved.record.manifest)
        config.options
      ∧ 2 ≤ spec.contextTokens
      ∧ spec.contextTokens ≤ c.maxCachedContextTokens
      ∧ m.runtimes.estimateMemory env.probe spec
        (c.contextSlots spec.contextTokens) = .ok memory
      ∧ memory.totalBytes = .ok bytes := by
  unfold plan at h
  obtain ⟨found, hfound, h⟩ := bind_eq_ok.1 h
  obtain ⟨_, htwo, h⟩ := bind_eq_ok.1 h
  obtain ⟨_, -, h⟩ := bind_eq_ok.1 h
  obtain ⟨_, hcache, h⟩ := bind_eq_ok.1 h
  obtain ⟨verification, -, h⟩ := bind_eq_ok.1 h
  rw [require_eq_ok] at htwo hcache
  split at h
  case isFalse => cases h
  case isTrue =>
    obtain ⟨estimate, hestimate, h⟩ := bind_eq_ok.1 h
    obtain ⟨n, hn, h⟩ := bind_eq_ok.1 h
    obtain ⟨_, -, h⟩ := bind_eq_ok.1 h
    simp only [pure, Except.pure, Except.ok.injEq, Prod.mk.injEq] at h
    obtain ⟨rfl, rfl, rfl, rfl, rfl⟩ := h
    exact ⟨rfl, hfound, rfl, htwo, hcache, hestimate, hn⟩

@[simp] theorem merged_model (previous : Option ModelLoadRequest)
    (request : ModelLoadRequest) :
    (merged previous request).model = request.model := by
  cases previous <;> rfl

/-- What the records of a model say after it was loaded for a request. -/
structure LoadedFor (c : Config) (env : Env)
    (previous : Option ModelLoadRequest)
    (uri : QString) (request : ModelLoadRequest) (info : ModelInfo)
    (entry : ResidencyEntry) (model : LoadedModel) : Prop where
  probe : model.probe = env.probe
  options : info.options
    = (merged previous { request with model := uri }).options
  context : ∃ resolved, c.catalog.resolve env.probe uri = .ok resolved
    ∧ info.contextTokens
      = contextOf c (merged previous { request with model := uri })
        resolved.record.manifest
  keepAlive : entry.keepAliveMs
    = if (merged previous { request with model := uri }).keepAliveMs < 0
      then c.policy.keepAlive
      else (merged previous { request with model := uri }).keepAliveMs

/-- Registering a model whose weights are there and whose reservation was
admitted cannot fail. -/
theorem register_ok {id : QString} {memory : MemoryEstimate} {bytes : UInt64}
    (env : Env) (config : ModelLoadRequest) (info : ModelInfo)
    (hloaded : s.models.loaded[id]? = none)
    (hentry : s.models.residency.entries[id]? = none)
    (hbytes : memory.totalBytes = .ok bytes)
    (hfits : s.models.residency.fits c.policy bytes none = .ok true) :
    ∃ entry residency,
      entry.memory = memory ∧ entry.active = 0
      ∧ entry.keepAliveMs = (if config.keepAliveMs < 0 then c.policy.keepAlive
        else config.keepAliveMs)
      ∧ residency.entries = s.models.residency.entries.insert id entry
      ∧ register c env id memory config info s
        = (.ok (), { s with models := { s.models with
          residency
          loaded := s.models.loaded.insert id info
          remembered := s.models.remembered.insert id ⟨config.model,
            info.contextTokens, config.options, entry.keepAliveMs⟩ } }) := by
  have hload := ModelResidencyManager.loaded_ok hentry hbytes hfits
    config.keepAliveMs (env.now .loaded)
  let ttl := if config.keepAliveMs < 0 then c.policy.keepAlive
    else config.keepAliveMs
  let entry : ResidencyEntry :=
    { memory
      keepAliveMs := ttl
      expires := env.now .loaded + ttl
      access := s.models.residency.clock + 1 }
  refine ⟨entry, { s.models.residency with
    clock := s.models.residency.clock + 1
    loads := s.models.residency.loads + 1
    entries := s.models.residency.entries.insert id entry },
    rfl, rfl, rfl, rfl, ?_⟩
  unfold register
  rw [Exec.bind_apply_ok (Exec.get_apply s),
    Exec.bind_apply_ok (trust_ok hload s),
    Exec.bind_apply_ok (setResidency_apply _ _),
    Exec.bind_apply_ok (Exec.modify_apply _ _),
    Exec.bind_apply_ok (trust_ok
      (ModelResidencyManager.get_ok (Maps.find_insert_self _ _ _)) _),
    Exec.modify_apply]
  simp only [Maps.insertIfNew_of_none _ info hloaded]
  rfl

/-- Loading a model that is not loaded: it ends resident, or nothing but
evictions has happened. -/
theorem loadNew_spec (h : s.Sound c held) {id uri : QString}
    (huri : modelUri id = .ok uri) (hnew : s.models.loaded[id]? = none)
    (request : ModelLoadRequest) :
    Exec.wp (loadNew c env id uri request)
      (fun _ s' => s'.Sound c held ∧ Observed s' ∧ Evolved [] s s'
        ∧ ∃ info entry model remembered t,
          Reduced c held s t
          ∧ s'.models.With t.models id info entry model remembered
          ∧ s'.models.Resident c held id info entry model remembered
          ∧ LoadedFor c env s.models.remembered[id]? uri request info entry
            model)
      (fun _ s' => Reduced c held s s') s := by
  unfold loadNew
  rw [Exec.wp_bind, Exec.wp_get, Exec.wp_bind, Exec.wp_ofExcept]
  refine ⟨?_, fun _ _ => Reduced.refl h⟩
  rintro ⟨config, resolved, spec, memory, bytes⟩ hplan
  obtain ⟨hconfig, hresolved, hspec, htwo, hcache, hestimate, hbytes⟩ :=
    plan_ok hplan
  show Exec.wp (admission c env bytes (s.models.residency.entries.size + 1)
    >>= fun _ => _) _ _ s
  rw [Exec.wp_bind]
  refine Exec.wp_mono (admission_spec env bytes _ s h (by omega)) ?_
    (fun _ _ hred => hred)
  rintro _ t ⟨hred, hcount, hroom, hfits⟩
  rw [Exec.wp_bind, Exec.wp_get, Exec.wp_bind, Exec.wp_ofExcept]
  refine ⟨?_, fun _ _ => hred⟩
  rintro ⟨runtimes, execution⟩ hload
  obtain ⟨-, -, -, runtime, loaded, hruntime, hsupports,
      hloadedBy, hruntimes⟩ :=
    RuntimeManager.load_ok hload
  have habs := hred.sound.models.absent (hred.thinned.not_loaded hnew)
  have hid : spec.id = id := by rw [hspec]; rfl
  -- the reservation covers the runtime that was selected
  have hcover := (RuntimeManager.estimateMemory_ok hestimate).2
    execution.runtime runtime (by rw [← hred.evolved.runtimes, hruntime])
    hsupports
  obtain ⟨estimate, hest, hle⟩ := hcover
  let info : ModelInfo :=
    { model := { resolved.record with loaded := true }
      contextTokens := spec.contextTokens
      options := config.options
      execution }
  let model : LoadedModel :=
    ⟨spec, execution, loaded, t.models.runtimes.loads, env.probe⟩
  let u : State := { t with models := { t.models with runtimes } }
  obtain ⟨entry, residency, hmemory, hidle, hkeep, hentries, hregister⟩ :=
    register_ok (s := u) (c := c) env config info
      habs.loaded habs.entry hbytes hfits
  let v : State := { u with models := { u.models with
    residency
    loaded := u.models.loaded.insert id info
    remembered := u.models.remembered.insert id ⟨config.model,
      info.contextTokens, config.options, entry.keepAliveMs⟩ } }
  have hext : runtimes.Extends t.models.runtimes := by
    rw [hruntimes]
    exact ⟨fun _ _ hk => hk, Nat.le_succ _⟩
  have hwith : v.models.With t.models id info entry model
      ⟨config.model, info.contextTokens, config.options,
        entry.keepAliveMs⟩ := by
    refine ⟨rfl, hentries, ?_, rfl, hext⟩
    show runtimes.models = _
    rw [hruntimes, hid]
  have hnonneg : 0 ≤ entry.keepAliveMs := by
    rw [hkeep]
    split
    · exact c.policy_keepAlive_nonneg
    · omega
  have hmatched : Matched c v.models.runtimes id info entry model
      ⟨config.model, info.contextTokens, config.options, entry.keepAliveMs⟩ :=
    { valid := (modelUri_ok huri).1
      named := ModelCatalog.resolve_id (modelId_modelUri huri) hresolved
      spec_id := hid
      spec_context := rfl
      spec_options := by
        show spec.options = config.options
        rw [hspec]
        rfl
      request_context := rfl
      request_options := rfl
      request_keepAlive := rfl
      keepAlive_nonneg := hnonneg
      two_le_context := htwo
      context_le := hcache
      sized := ⟨bytes, hmemory ▸ hbytes⟩
      estimated := ⟨runtime, estimate, hext.runtimes _ _ hruntime, hloadedBy,
        hest, hmemory ▸ hle⟩
      found := ⟨uri, resolved, huri, hresolved, by
        show spec = specOf id resolved spec.contextTokens spec.options
        rw [hspec]
        rfl⟩
      serial_lt := by
        show t.models.runtimes.loads < runtimes.loads
        rw [hruntimes]
        exact Nat.lt_succ_self _ }
  obtain ⟨hsound, hresident⟩ := hred.sound.models.with habs
    (by rw [hconfig, merged_model]; exact huri) hidle hwith hmatched
    (by rw [hmemory, ← MemoryEstimate.totalBytes_ok hbytes]; exact hroom)
      hcount
  obtain ⟨infos, hpublish, hobserved⟩ := publish_spec (s := v) hsound env
  have hevolved : Evolved [] t { v with observed := infos } :=
    ⟨rfl, rfl, by show runtimes.runtimes = _; rw [hruntimes],
      fun _ _ hk => hk, [], by simp [v, u], rfl⟩
  refine Exec.wp_of_ok (a := live info entry (env.now .info))
    (t := { v with observed := infos }) ?_ ?_
  · show (setRuntimes runtimes >>= fun _ =>
      tryCatch (register c env id memory config info)
        (rollback id) >>= fun _ =>
      publish env >>= fun _ => loadedInfo env id) t = _
    rw [Exec.bind_apply_ok (setRuntimes_apply _ _),
      Exec.bind_apply_ok (Exec.tryCatch_apply_ok hregister),
      Exec.bind_apply_ok hpublish]
    exact loadedInfo_ok (s := { v with observed := infos })
      hresident.isLoaded hresident.hasEntry env
  · refine ⟨⟨hsound, hred.sound.grounded.evolved hevolved (by simp)
      hred.sound.grounded.bounded fun key e hk other hother => ?_⟩, hobserved,
      hred.evolved.trans hevolved, info, entry, model, _, t, hred, hwith,
      hresident, ⟨rfl, hconfig ▸ rfl, ⟨resolved, hresolved, ?_⟩, ?_⟩⟩
    · -- an entry of the cache is not one of the new model
      have hne : id ≠ e.modelId := by
        rintro rfl
        rw [habs.model] at hother
        cases hother
      show v.models.runtimes.models[e.modelId]? = some other
      rw [hwith.models, Maps.find_insert_ne _ _ hne, hother]
    · show spec.contextTokens = _
      rw [hspec, ← hconfig]
      rfl
    · rw [hkeep, hconfig]

/-- The entry of a resident model that is touched. -/
def keptFor (entry : ResidencyEntry) (keepAlive : Int) : Int :=
  if 0 ≤ keepAlive then keepAlive else entry.keepAliveMs

/-- Loading a model that is loaded already, for a request that does not ask
for another configuration: its keep-alive is renewed and mirrored. -/
theorem loadExisting_ok (h : s.Sound c held) {id : QString}
    {existing : ModelInfo} {entry : ResidencyEntry} {model : LoadedModel}
    {remembered : ModelLoadRequest}
    (hres : s.models.Resident c held id existing entry model remembered)
    {request : ModelLoadRequest}
    (hsame : (request.contextTokens = 0
        ∨ request.contextTokens = existing.contextTokens)
      ∧ (request.options = [] ∨ request.options = existing.options))
    (env : Env) :
    ∃ info s', loadExisting env id existing request s = (.ok info, s')
      ∧ s'.Sound c held ∧ Observed s' ∧ Evolved [] s s'
      ∧ s'.models.runtimes = s.models.runtimes
      ∧ ∃ entry', entry'.keepAliveMs = keptFor entry request.keepAliveMs
        ∧ s'.models.Resident c held id existing entry' model
          { remembered with keepAliveMs := entry'.keepAliveMs }
        ∧ s'.models.remembered = s.models.remembered.insert id
          { remembered with keepAliveMs := entry'.keepAliveMs } := by
  let entry' := s.models.residency.touched entry request.keepAliveMs
    (env.now .touch)
  let r : State := { s with models := { s.models with
    residency := { s.models.residency with
      clock := s.models.residency.clock + 1
      entries := s.models.residency.entries.insert id entry' } } }
  let t : State := { r with models := { r.models with
    remembered := s.models.remembered.insert id
      { remembered with keepAliveMs := entry'.keepAliveMs } } }
  have hkeep : entry'.keepAliveMs = keptFor entry request.keepAliveMs := rfl
  have hnonneg : 0 ≤ entry'.keepAliveMs := by
    have hold := hres.matched.keepAlive_nonneg
    rw [hkeep]
    unfold keptFor
    split <;> omega
  obtain ⟨hsound, hresident⟩ := h.models.rewritten (n := t.models) hres rfl rfl
    rfl rfl rfl rfl rfl rfl rfl hnonneg hres.active (fun _ _ => rfl)
  obtain ⟨infos, hpublish, hobserved⟩ := publish_spec hsound env
  have hevolved : Evolved [] s { t with observed := infos } :=
    ⟨rfl, rfl, rfl, fun _ _ hk => hk, [], by simp [t, r], rfl⟩
  refine ⟨live existing entry' (env.now .info),
    { t with observed := infos }, ?_,
    ⟨hsound, h.grounded.evolved hevolved (by simp) h.grounded.bounded
      fun _ _ _ _ hother => hother⟩, hobserved, hevolved, rfl, entry', hkeep,
    hresident, rfl⟩
  unfold loadExisting
  rw [Exec.bind_apply_ok (check_of hsame _ _ _),
    Exec.bind_apply_ok (Exec.get_apply s),
    Exec.bind_apply_ok (trust_ok
      (ModelResidencyManager.touch_ok hres.hasEntry _ _) s),
    Exec.bind_apply_ok (setResidency_apply _ _),
    Exec.bind_apply_ok (mirrorKeepAlive_ok (s := r)
      (Maps.find_insert_self _ _ _) hres.isRemembered),
    Exec.bind_apply_ok hpublish]
  exact loadedInfo_ok (s := { t with observed := infos }) hresident.isLoaded
    hresident.hasEntry env

/-- Loading a model that is loaded already: its keep-alive is renewed and
mirrored, or nothing happens. -/
theorem loadExisting_spec (h : s.Sound c held) {id : QString}
    {existing : ModelInfo} {entry : ResidencyEntry} {model : LoadedModel}
    {remembered : ModelLoadRequest}
    (hres : s.models.Resident c held id existing entry model remembered)
    (request : ModelLoadRequest) :
    Exec.wp (loadExisting env id existing request)
      (fun _ s' => s'.Sound c held ∧ Observed s' ∧ Evolved [] s s'
        ∧ s'.models.runtimes = s.models.runtimes
        ∧ ∃ entry', entry'.keepAliveMs = keptFor entry request.keepAliveMs
          ∧ s'.models.Resident c held id existing entry' model
            { remembered with keepAliveMs := entry'.keepAliveMs }
          ∧ s'.models.remembered = s.models.remembered.insert id
            { remembered with keepAliveMs := entry'.keepAliveMs })
      (fun _ s' => s' = s) s := by
  by_cases hsame : (request.contextTokens = 0
      ∨ request.contextTokens = existing.contextTokens)
      ∧ (request.options = [] ∨ request.options = existing.options)
  · obtain ⟨info, s', hrun, hfacts⟩ := loadExisting_ok h hres hsame env
    exact Exec.wp_of_ok hrun hfacts
  · unfold loadExisting
    exact Exec.wp_of_error (Exec.bind_apply_error (check_not hsame _ _ _)) rfl

/-- How a load changed the records of its model. -/
inductive LoadedVia (c : Config) (held : Held) (env : Env) (s s' : State)
    (id uri : QString) (request : ModelLoadRequest) : Prop
  /-- The model was there, and its keep-alive was renewed. -/
  | existing (info : ModelInfo) (entry entry' : ResidencyEntry)
      (model : LoadedModel) (remembered : ModelLoadRequest)
      (before : s.models.Resident c held id info entry model remembered)
      (keepAlive : entry'.keepAliveMs = keptFor entry request.keepAliveMs)
      (after : s'.models.Resident c held id info entry' model
        { remembered with keepAliveMs := entry'.keepAliveMs })
      (remembered_eq : s'.models.remembered = s.models.remembered.insert id
        { remembered with keepAliveMs := entry'.keepAliveMs })
  /-- The model was loaded anew. -/
  | new (info : ModelInfo) (entry : ResidencyEntry) (model : LoadedModel)
      (remembered : ModelLoadRequest)
      (before : s.models.loaded[id]? = none)
      (loadedFor : LoadedFor c env s.models.remembered[id]? uri request info
        entry model)
      (after : s'.models.Resident c held id info entry model remembered)
      (remembered_eq :
        s'.models.remembered = s.models.remembered.insert id remembered)

/-- The checks of a request that do not look at the state. -/
structure RequestChecked (c : Config) (request : ModelLoadRequest)
    (id uri : QString) : Prop where
  canonical : c.registry.canonical request.model = .ok uri
  modelId : modelId uri = .ok id
  modelUri : modelUri id = .ok uri
  contextTokens : 0 ≤ request.contextTokens
  keepAlive : -1 ≤ request.keepAliveMs
  keepAlive_le : request.keepAliveMs ≤ maxKeepAliveMs

theorem Reduced.logged (h : s.Sound c held) {event : Event}
    (hquiet : event.quiet = true) :
    Reduced c held s { s with trace := s.trace ++ [event] } := by
  have hevolved : Evolved [] s { s with trace := s.trace ++ [event] } :=
    ⟨rfl, rfl, rfl, fun _ _ hk => hk, [event], rfl, by simp [hquiet]⟩
  exact ⟨⟨h.models, h.grounded.evolved hevolved (by simp) h.grounded.bounded
    fun _ _ _ _ hother => hother⟩, fun h => h, hevolved, Thinned.refl _⟩

/-- `load` in full. A load that throws has only evicted idle models, and
when its model was loaded it has done nothing at all. -/
theorem load_spec (h : s.Sound c held) (env : Env)
    (request : ModelLoadRequest) :
    Exec.wp (load c env request)
      (fun _ s' => s'.Sound c held ∧ Observed s' ∧ Evolved [] s s'
        ∧ ∃ id uri, RequestChecked c request id uri
          ∧ LoadedVia c held env s s' id uri request)
      (fun _ s' => Reduced c held s s'
        ∧ (s' = s ∨ ∃ id uri, RequestChecked c request id uri
          ∧ s.models.loaded[id]? = none ∧ .loadFailed id ∈ s'.trace)) s := by
  have hsame : Reduced c held s s ∧ (s = s ∨ ∃ id uri,
      RequestChecked c request id uri ∧ s.models.loaded[id]? = none
        ∧ .loadFailed id ∈ s.trace) := ⟨Reduced.refl h, Or.inl rfl⟩
  unfold load check
  rw [Exec.wp_bind, Exec.wp_ofExcept]
  refine ⟨fun uri huri => ?_, fun _ _ => hsame⟩
  rw [Exec.wp_bind, Exec.wp_ofExcept]
  refine ⟨fun _ _ => ?_, fun _ _ => hsame⟩
  rw [Exec.wp_bind, Exec.wp_ofExcept]
  refine ⟨fun id hid => ?_, fun _ _ => hsame⟩
  rw [Exec.wp_bind, Exec.wp_ofExcept]
  refine ⟨fun _ hcontext => ?_, fun _ _ => hsame⟩
  rw [Exec.wp_bind, Exec.wp_ofExcept]
  refine ⟨fun _ hkeep => ?_, fun _ _ => hsame⟩
  rw [Exec.wp_bind, Exec.wp_get]
  rw [require_eq_ok] at hcontext hkeep
  obtain ⟨id', hid', hmodelUri⟩ := canonical_ok huri
  rw [hid] at hid'
  injection hid' with hid'
  subst hid'
  have hchecked : RequestChecked c request id uri :=
    ⟨huri, hid, hmodelUri, hcontext, hkeep.1, hkeep.2⟩
  cases hloaded : s.models.loaded[id]? with
  | some existing =>
      obtain ⟨entry, model, remembered, hres⟩ := h.models.of_loaded hloaded
      refine Exec.wp_mono (loadExisting_spec h hres request) ?_ ?_
      · rintro _ s' ⟨hsound, hobs, hev, -, entry', hkeep', hres', hrem⟩
        exact ⟨hsound, hobs, hev, id, uri, hchecked,
          .existing existing entry entry' model remembered hres
            hkeep' hres' hrem⟩
      · rintro _ s' rfl
        exact hsame
  | none =>
      show Exec.wp (tryCatch (loadNew c env id uri request) _) _ _ s
      rw [Exec.wp_tryCatch]
      refine Exec.wp_mono (loadNew_spec h hmodelUri hloaded request) ?_ ?_
      · rintro _ s' ⟨hsound, hobs, hev, info, entry, model,
          remembered, t, hred,
          hwith, hres, hfor⟩
        exact ⟨hsound, hobs, hev, id, uri, hchecked,
          .new info entry model remembered hloaded hfor hres
            (by rw [hwith.remembered, hred.thinned.remembered])⟩
      · intro e t hred
        rw [Exec.wp_bind]
        refine Exec.wp_of_ok (log_apply _ t) ?_
        exact ⟨hred.trans (Reduced.logged hred.sound rfl),
          Or.inr ⟨id, uri, hchecked, hloaded, by simp⟩⟩

end ModelManager

end LocalLLM
