/-
What holds of the worker's state between its steps.

# One model, four records

A model is either absent from the three live stores or resident in all of
them (`Absent`, `Resident`), and then the four records of it agree
(`Matched`): the identifier, the context length and the options of the
loaded weights are those of the listing and of the remembered request, the
keep-alive of the residency entry is the remembered one, and the
reservation is at least what the runtime that loaded it estimates.
`held id` counts the leases on the model; it is not a field of the state,
so an invariant is stated for the leases its context knows of.

# One context, one load

`Grounded` ties the cache to the rest: every entry was created over the
weights that are loaded now, and its key is a session bound to that model
or a conversation of that model. Keys used in the past are kept in the
trace, so that a key stands for one model over a whole run.

Everything here is preserved by four changes of the manager's records,
which are all that its operations do to them: an entry is rewritten in
place, a model leaves, a model enters, and a request is forgotten.
-/
import LocalLLM.Service.ModelManager

namespace LocalLLM

open Std

/-- How many leases are held on each model. -/
abbrev Held := QString → Nat

/-- No lease is held. -/
def noLease : Held := fun _ => 0

/-- One more lease on `id`. -/
def Held.plus (held : Held) (id : QString) : Held := fun k =>
  if k = id then held k + 1 else held k

/-- One lease less on `id`. -/
def Held.minus (held : Held) (id : QString) : Held := fun k =>
  if k = id then held k - 1 else held k

/-- Giving back a lease that was taken restores the count. -/
theorem Held.minus_plus (held : Held) (id : QString) :
    (held.plus id).minus id = held := by
  funext k
  unfold Held.plus Held.minus
  by_cases h : k = id <;> simp [h]

-- ============================================================ the records

/-- What the four records of a resident model say of each other. -/
structure Matched (c : Config) (r : RuntimeManager) (id : QString)
    (info : ModelInfo) (entry : ResidencyEntry) (model : LoadedModel)
    (request : ModelLoadRequest) : Prop where
  valid : validId id = true
  named : info.model.manifest.id = id
  spec_id : model.spec.id = id
  spec_context : model.spec.contextTokens = info.contextTokens
  spec_options : model.spec.options = info.options
  request_context : request.contextTokens = info.contextTokens
  request_options : request.options = info.options
  request_keepAlive : request.keepAliveMs = entry.keepAliveMs
  keepAlive_nonneg : 0 ≤ entry.keepAliveMs
  two_le_context : 2 ≤ model.spec.contextTokens
  context_le : model.spec.contextTokens ≤ c.maxCachedContextTokens
  sized : ∃ bytes, entry.memory.totalBytes = .ok bytes
  estimated : ∃ runtime estimate,
    r.runtimes[model.execution.runtime]? = some runtime
    ∧ runtime.load model.probe model.spec model.execution.device
        = .ok (some model.runtime)
    ∧ runtime.estimateMemory model.probe model.spec
        (c.contextSlots model.spec.contextTokens) = .ok estimate
    ∧ estimate.exactBytes ≤ entry.memory.exactBytes
  found : ∃ uri resolved, modelUri id = .ok uri
    ∧ c.catalog.resolve model.probe uri = .ok resolved
    ∧ model.spec
      = ModelManager.specOf id resolved model.spec.contextTokens
        model.spec.options
  serial_lt : model.serial < r.loads

/-- A runtime manager that knows at least the runtimes and the
loads of another. -/
structure RuntimeManager.Extends (r' r : RuntimeManager) : Prop where
  runtimes : ∀ (id : QString) (runtime : Runtime),
    r.runtimes[id]? = some runtime → r'.runtimes[id]? = some runtime
  loads : r.loads ≤ r'.loads

/-- More runtimes do not disturb a matched model, which keeps its own. -/
theorem Matched.extends {c : Config} {r r' : RuntimeManager} {id : QString}
    {info : ModelInfo} {entry : ResidencyEntry} {model : LoadedModel}
    {request : ModelLoadRequest} (h : Matched c r id info entry model request)
    (hext : r'.Extends r) : Matched c r' id info entry model request := by
  obtain ⟨runtime, estimate, hfind, hload, hest, hle⟩ := h.estimated
  exact { h with
    estimated := ⟨runtime, estimate, hext.runtimes _ _ hfind, hload, hest, hle⟩
    serial_lt := Nat.lt_of_lt_of_le h.serial_lt hext.loads }

namespace ModelManager

/-- A model that no live store knows. -/
structure Absent (m : ModelManager) (held : Held) (id : QString) : Prop where
  loaded : m.loaded[id]? = none
  entry : m.residency.entries[id]? = none
  model : m.runtimes.models[id]? = none
  held : held id = 0

/-- A model that every store knows. -/
structure Resident (c : Config) (m : ModelManager) (held : Held) (id : QString)
    (info : ModelInfo) (entry : ResidencyEntry) (model : LoadedModel)
    (request : ModelLoadRequest) : Prop where
  isLoaded : m.loaded[id]? = some info
  hasEntry : m.residency.entries[id]? = some entry
  hasModel : m.runtimes.models[id]? = some model
  isRemembered : m.remembered[id]? = some request
  active : entry.active = held id
  matched : Matched c m.runtimes id info entry model request

/-- The invariant of the manager's records, under the leases `held`. -/
structure Sound (c : Config) (held : Held) (m : ModelManager) : Prop where
  standing : ∀ id, m.Absent held id
    ∨ ∃ info entry model request,
        m.Resident c held id info entry model request
  remembered : ∀ (id : QString) (request : ModelLoadRequest),
    m.remembered[id]? = some request →
      modelUri id = .ok request.model ∧ 2 ≤ request.contextTokens
        ∧ 0 ≤ request.keepAliveMs
  budget : m.residency.reservedBytes ≤ c.policy.budget.toNat
  count : m.residency.entries.size ≤ c.maxModels

variable {c : Config} {held : Held} {m : ModelManager}

/-- A listed model is resident. -/
theorem Sound.of_loaded (h : m.Sound c held) {id : QString} {info : ModelInfo}
    (hfind : m.loaded[id]? = some info) :
    ∃ entry model request, m.Resident c held id info entry model request := by
  rcases h.standing id with habs | ⟨info', entry, model, request, hres⟩
  · rw [habs.loaded] at hfind
    cases hfind
  · have hinfo := hres.isLoaded
    rw [hfind] at hinfo
    injection hinfo with hinfo
    subst hinfo
    exact ⟨entry, model, request, hres⟩

/-- A model that holds memory is resident. -/
theorem Sound.of_entry (h : m.Sound c held) {id : QString}
    {entry : ResidencyEntry} (hfind : m.residency.entries[id]? = some entry) :
    ∃ info model request, m.Resident c held id info entry model request := by
  rcases h.standing id with habs | ⟨info, entry', model, request, hres⟩
  · rw [habs.entry] at hfind
    cases hfind
  · have hentry := hres.hasEntry
    rw [hfind] at hentry
    injection hentry with hentry
    subst hentry
    exact ⟨info, model, request, hres⟩

/-- A model with weights is resident. -/
theorem Sound.of_model (h : m.Sound c held) {id : QString}
    {model : LoadedModel} (hfind : m.runtimes.models[id]? = some model) :
    ∃ info entry request, m.Resident c held id info entry model request := by
  rcases h.standing id with habs | ⟨info, entry, model', request, hres⟩
  · rw [habs.model] at hfind
    cases hfind
  · have hmodel := hres.hasModel
    rw [hfind] at hmodel
    injection hmodel with hmodel
    subst hmodel
    exact ⟨info, entry, request, hres⟩

/-- A model that is not listed is in no live store. -/
theorem Sound.absent (h : m.Sound c held) {id : QString}
    (hfind : m.loaded[id]? = none) : m.Absent held id := by
  rcases h.standing id with habs | ⟨info, entry, model, request, hres⟩
  · exact habs
  · rw [hres.isLoaded] at hfind
    cases hfind

/-- The residency table of a sound manager adds up. -/
theorem Sound.sized (h : m.Sound c held) : m.residency.Sized := by
  intro id entry hfind
  obtain ⟨info, model, request, hres⟩ := h.of_entry hfind
  exact hres.matched.sized

-- ================================================== an entry is rewritten

/-- Rewriting the entry of a resident model in place, with the request
that is remembered for it. -/
theorem Sound.rewritten (h : m.Sound c held) {n : ModelManager} {id : QString}
    {info : ModelInfo} {entry e : ResidencyEntry} {model : LoadedModel}
    {request request' : ModelLoadRequest} {held' : Held}
    (hres : m.Resident c held id info entry model request)
    (hloaded : n.loaded = m.loaded) (hruntimes : n.runtimes = m.runtimes)
    (hentries : n.residency.entries = m.residency.entries.insert id e)
    (hremembered : n.remembered = m.remembered.insert id request')
    (hmemory : e.memory = entry.memory)
    (hmodel : request'.model = request.model)
    (hcontext : request'.contextTokens = request.contextTokens)
    (hoptions : request'.options = request.options)
    (hkeep : request'.keepAliveMs = e.keepAliveMs)
    (hnonneg : 0 ≤ e.keepAliveMs) (hactive : e.active = held' id)
    (hheld : ∀ k, k ≠ id → held' k = held k) :
    n.Sound c held' ∧ n.Resident c held' id info e model request' := by
  have hmatched : Matched c n.runtimes id info e model request' := by
    have hm := hres.matched
    rw [hruntimes]
    exact { hm with
      request_context := hcontext.trans hm.request_context
      request_options := hoptions.trans hm.request_options
      request_keepAlive := hkeep
      keepAlive_nonneg := hnonneg
      sized := hmemory ▸ hm.sized
      estimated := hmemory ▸ hm.estimated }
  have hres' : n.Resident c held' id info e model request' :=
    { isLoaded := hloaded ▸ hres.isLoaded
      hasEntry := by rw [hentries, Maps.find_insert_self]
      hasModel := hruntimes ▸ hres.hasModel
      isRemembered := by rw [hremembered, Maps.find_insert_self]
      active := hactive
      matched := hmatched }
  refine ⟨⟨fun k => ?_, fun k r hk => ?_, ?_, ?_⟩, hres'⟩
  · by_cases hkid : k = id
    · subst hkid
      exact Or.inr ⟨info, e, model, request', hres'⟩
    · have hne : id ≠ k := fun h => hkid h.symm
      rcases h.standing k with habs | ⟨i, e', lm, r, hk⟩
      · exact Or.inl
          { loaded := hloaded ▸ habs.loaded
            entry := by rw [hentries, Maps.find_insert_ne _ _ hne, habs.entry]
            model := hruntimes ▸ habs.model
            held := (hheld k hkid).trans habs.held }
      · exact Or.inr ⟨i, e', lm, r,
          { isLoaded := hloaded ▸ hk.isLoaded
            hasEntry := by
              rw [hentries, Maps.find_insert_ne _ _ hne, hk.hasEntry]
            hasModel := hruntimes ▸ hk.hasModel
            isRemembered := by
              rw [hremembered, Maps.find_insert_ne _ _ hne, hk.isRemembered]
            active := by rw [hheld k hkid, hk.active]
            matched := hruntimes ▸ hk.matched }⟩
  · rw [hremembered, Maps.find_insert] at hk
    split at hk
    case isTrue heq =>
      injection hk with hk
      subst hk heq
      obtain ⟨huri, htwo, -⟩ := h.remembered id request hres.isRemembered
      exact ⟨hmodel ▸ huri, by omega, by omega⟩
    case isFalse => exact h.remembered k r hk
  · have htotal := Maps.total_insert_of_some
      (f := fun e : ResidencyEntry => e.memory.exactBytes) e hres.hasEntry
    have hbudget := h.budget
    unfold ModelResidencyManager.reservedBytes at hbudget ⊢
    rw [hentries]
    simp only [hmemory] at htotal
    omega
  · rw [hentries, Maps.size_insert_of_some _ hres.hasEntry]
    exact h.count

-- ========================================================== a model leaves

/-- The records of `m` without those of `id`; the counters are free. -/
structure Without (m' m : ModelManager) (id : QString) : Prop where
  loaded : m'.loaded = m.loaded.erase id
  entries : m'.residency.entries = m.residency.entries.erase id
  models : m'.runtimes.models = m.runtimes.models.erase id
  remembered : m'.remembered = m.remembered
  runtimes : m'.runtimes.runtimes = m.runtimes.runtimes
  loads : m'.runtimes.loads = m.runtimes.loads

/-- A manager with some of the models of another, and no other model. -/
structure Thinned (m' m : ModelManager) : Prop where
  loaded : ∀ (id : QString) (info : ModelInfo),
    m'.loaded[id]? = some info → m.loaded[id]? = some info
  entries : ∀ (id : QString) (entry : ResidencyEntry),
    m'.residency.entries[id]? = some entry →
      m.residency.entries[id]? = some entry
  models : ∀ (id : QString) (model : LoadedModel),
    m'.runtimes.models[id]? = some model →
      m.runtimes.models[id]? = some model
  remembered : m'.remembered = m.remembered

theorem Thinned.refl (m : ModelManager) : m.Thinned m :=
  ⟨fun _ _ h => h, fun _ _ h => h, fun _ _ h => h, rfl⟩

/-- Dropping models twice drops models. -/
theorem Thinned.trans {m m' m'' : ModelManager} (h : m'.Thinned m)
    (h' : m''.Thinned m') : m''.Thinned m :=
  ⟨fun _ _ hk => h.loaded _ _ (h'.loaded _ _ hk),
    fun _ _ hk => h.entries _ _ (h'.entries _ _ hk),
    fun _ _ hk => h.models _ _ (h'.models _ _ hk),
    h'.remembered.trans h.remembered⟩

/-- What was not listed is still not listed. -/
theorem Thinned.not_loaded {m m' : ModelManager} (h : m'.Thinned m)
    {id : QString} (hnew : m.loaded[id]? = none) : m'.loaded[id]? = none := by
  cases hk : m'.loaded[id]? with
  | none => rfl
  | some info => rw [h.loaded id info hk] at hnew; cases hnew

/-- Dropping one model thins the manager. -/
theorem Without.thinned {m m' : ModelManager} {id : QString}
    (hw : m'.Without m id) : m'.Thinned m := by
  refine ⟨fun k v hk => ?_, fun k v hk => ?_, fun k v hk => ?_, hw.remembered⟩
  · rw [hw.loaded, Maps.find_erase] at hk
    split at hk
    · cases hk
    · exact hk
  · rw [hw.entries, Maps.find_erase] at hk
    split at hk
    · cases hk
    · exact hk
  · rw [hw.models, Maps.find_erase] at hk
    split at hk
    · cases hk
    · exact hk

/-- Dropping an idle model keeps the manager sound: the three stores lose the
same id at once. -/
theorem Sound.without (h : m.Sound c held) {m' : ModelManager} {id : QString}
    {entry : ResidencyEntry} (hentry : m.residency.entries[id]? = some entry)
    (hidle : entry.active = 0) (hw : m'.Without m id) : m'.Sound c held := by
  have hext : m'.runtimes.Extends m.runtimes :=
    ⟨fun k r hk => hw.runtimes ▸ hk, Nat.le_of_eq hw.loads.symm⟩
  obtain ⟨info, model, request, hres⟩ := h.of_entry hentry
  refine ⟨fun k => ?_, fun k r hk => h.remembered k r (hw.remembered ▸ hk),
    ?_, ?_⟩
  · by_cases hkid : k = id
    · subst hkid
      refine Or.inl ⟨?_, ?_, ?_, ?_⟩
      · rw [hw.loaded, Maps.find_erase_self]
      · rw [hw.entries, Maps.find_erase_self]
      · rw [hw.models, Maps.find_erase_self]
      · have := hres.active
        omega
    · have hne : id ≠ k := fun h => hkid h.symm
      rcases h.standing k with habs | ⟨i, e, lm, r, hk⟩
      · refine Or.inl ⟨?_, ?_, ?_, habs.held⟩
        · rw [hw.loaded, Maps.find_erase_ne _ hne, habs.loaded]
        · rw [hw.entries, Maps.find_erase_ne _ hne, habs.entry]
        · rw [hw.models, Maps.find_erase_ne _ hne, habs.model]
      · refine Or.inr ⟨i, e, lm, r, ?_, ?_, ?_, ?_, hk.active,
          hk.matched.extends hext⟩
        · rw [hw.loaded, Maps.find_erase_ne _ hne, hk.isLoaded]
        · rw [hw.entries, Maps.find_erase_ne _ hne, hk.hasEntry]
        · rw [hw.models, Maps.find_erase_ne _ hne, hk.hasModel]
        · rw [hw.remembered, hk.isRemembered]
  · have htotal := Maps.total_erase
      (f := fun e : ResidencyEntry => e.memory.exactBytes) hentry
    have hbudget := h.budget
    unfold ModelResidencyManager.reservedBytes at hbudget ⊢
    rw [hw.entries]
    omega
  · have hsize := Maps.size_erase_of_some hentry
    have hcount := h.count
    rw [hw.entries]
    omega

-- ========================================================== a model enters

/-- The records of `m` with those of `id` added. -/
structure With (m' m : ModelManager) (id : QString) (info : ModelInfo)
    (entry : ResidencyEntry) (model : LoadedModel)
    (request : ModelLoadRequest) : Prop where
  loaded : m'.loaded = m.loaded.insert id info
  entries : m'.residency.entries = m.residency.entries.insert id entry
  models : m'.runtimes.models = m.runtimes.models.insert id model
  remembered : m'.remembered = m.remembered.insert id request
  extends_ : m'.runtimes.Extends m.runtimes

/-- Adding a model keeps it sound, when the id was absent and the three new
records match each other. -/
theorem Sound.with (h : m.Sound c held) {m' : ModelManager} {id : QString}
    {info : ModelInfo} {entry : ResidencyEntry} {model : LoadedModel}
    {request : ModelLoadRequest} (habs : m.Absent held id)
    (huri : modelUri id = .ok request.model) (hidle : entry.active = 0)
    (hw : m'.With m id info entry model request)
    (hmatched : Matched c m'.runtimes id info entry model request)
    (hroom : m.residency.reservedBytes + entry.memory.exactBytes
      ≤ c.policy.budget.toNat)
    (hcount : m.residency.entries.size < c.maxModels) :
    m'.Sound c held ∧ m'.Resident c held id info entry model request := by
  have hres' : m'.Resident c held id info entry model request :=
    { isLoaded := by rw [hw.loaded, Maps.find_insert_self]
      hasEntry := by rw [hw.entries, Maps.find_insert_self]
      hasModel := by rw [hw.models, Maps.find_insert_self]
      isRemembered := by rw [hw.remembered, Maps.find_insert_self]
      active := by rw [hidle, habs.held]; rfl
      matched := hmatched }
  refine ⟨⟨fun k => ?_, fun k r hk => ?_, ?_, ?_⟩, hres'⟩
  · by_cases hkid : k = id
    · subst hkid
      exact Or.inr ⟨info, entry, model, request, hres'⟩
    · have hne : id ≠ k := fun h => hkid h.symm
      rcases h.standing k with hk | ⟨i, e, lm, r, hk⟩
      · refine Or.inl ⟨?_, ?_, ?_, hk.held⟩
        · rw [hw.loaded, Maps.find_insert_ne _ _ hne, hk.loaded]
        · rw [hw.entries, Maps.find_insert_ne _ _ hne, hk.entry]
        · rw [hw.models, Maps.find_insert_ne _ _ hne, hk.model]
      · refine Or.inr ⟨i, e, lm, r, ?_, ?_, ?_, ?_, hk.active,
          hk.matched.extends hw.extends_⟩
        · rw [hw.loaded, Maps.find_insert_ne _ _ hne, hk.isLoaded]
        · rw [hw.entries, Maps.find_insert_ne _ _ hne, hk.hasEntry]
        · rw [hw.models, Maps.find_insert_ne _ _ hne, hk.hasModel]
        · rw [hw.remembered, Maps.find_insert_ne _ _ hne, hk.isRemembered]
  · rw [hw.remembered, Maps.find_insert] at hk
    split at hk
    case isTrue heq =>
      injection hk with hk
      subst hk heq
      have hspec := hmatched.spec_context
      have hreq := hmatched.request_context
      have htwo := hmatched.two_le_context
      have hkeep := hmatched.request_keepAlive
      have hnonneg := hmatched.keepAlive_nonneg
      exact ⟨huri, by omega, by omega⟩
    case isFalse => exact h.remembered k r hk
  · have htotal := Maps.total_insert
      (f := fun e : ResidencyEntry => e.memory.exactBytes) entry habs.entry
    unfold ModelResidencyManager.reservedBytes at hroom ⊢
    rw [hw.entries]
    omega
  · rw [hw.entries, Maps.size_insert_of_none _ habs.entry]
    omega

-- ================================================ a runtime is registered

/-- Runtimes may be added under the models that are loaded. -/
theorem Sound.extended (h : m.Sound c held) {r : RuntimeManager}
    (hmodels : r.models = m.runtimes.models) (hext : r.Extends m.runtimes) :
    ({ m with runtimes := r } : ModelManager).Sound c held := by
  refine ⟨fun id => ?_, h.remembered, h.budget, h.count⟩
  rcases h.standing id with habs | ⟨info, entry, model, request, hres⟩
  · exact Or.inl ⟨habs.loaded, habs.entry, by rw [hmodels]; exact habs.model,
      habs.held⟩
  · exact Or.inr ⟨info, entry, model, request, hres.isLoaded, hres.hasEntry,
      by rw [hmodels]; exact hres.hasModel, hres.isRemembered, hres.active,
      hres.matched.extends hext⟩

-- ================================================== a request is forgotten

/-- Forgetting the remembered request of a model that is not
loaded touches no store. -/
theorem Sound.forgotten (h : m.Sound c held) {m' : ModelManager} {id : QString}
    (hnew : m.loaded[id]? = none) (hloaded : m'.loaded = m.loaded)
    (hruntimes : m'.runtimes = m.runtimes)
    (hresidency : m'.residency = m.residency)
    (hremembered : m'.remembered = m.remembered.erase id) :
    m'.Sound c held := by
  refine ⟨fun k => ?_, fun k r hk => ?_, hresidency ▸ h.budget,
    hresidency ▸ h.count⟩
  · rcases h.standing k with hk | ⟨i, e, lm, r, hk⟩
    · exact Or.inl ⟨hloaded ▸ hk.loaded, hresidency ▸ hk.entry,
        hruntimes ▸ hk.model, hk.held⟩
    · have hne : id ≠ k := by
        rintro rfl
        rw [hk.isLoaded] at hnew
        cases hnew
      exact Or.inr ⟨i, e, lm, r, hloaded ▸ hk.isLoaded,
        hresidency ▸ hk.hasEntry,
        hruntimes ▸ hk.hasModel,
        by rw [hremembered, Maps.find_erase_ne _ hne, hk.isRemembered],
        hk.active, hruntimes ▸ hk.matched⟩
  · rw [hremembered, Maps.find_erase] at hk
    split at hk
    · cases hk
    · exact h.remembered k r hk

end ModelManager

-- ============================================== the cache and the sessions

/-- The key of a conversation of a model. -/
def IsConversation (modelId key : QString) : Prop :=
  validId modelId = true
    ∧ ∃ digest, key = qs "conversation:" ++ modelId ++ [qc ':'] ++ digest

/-- What a cache key stands for. -/
def Keyed (s : State) (key modelId : QString) : Prop :=
  (∃ session, s.sessions.sessions[key]? = some session
    ∧ session.modelId = modelId) ∨ IsConversation modelId key

/-- Every context is one of the models that are loaded. -/
structure Grounded (c : Config) (s : State) : Prop where
  weights : ∀ (key : QString) (e : CacheEntry),
    s.cache.entries[key]? = some e →
    ∃ model, s.models.runtimes.models[e.modelId]? = some model
      ∧ e.weights = model.serial
      ∧ e.reservedTokens = model.spec.contextTokens
      ∧ ∃ probe, model.runtime.createContext probe = .ok (some e.context)
  keyed : ∀ (key : QString) (e : CacheEntry), s.cache.entries[key]? = some e →
    Keyed s key e.modelId
  sessions : ∀ (id : QString) (session : SessionSnapshot),
    s.sessions.sessions[id]? = some session →
    session.id = id ∧ validId session.modelId = true
      ∧ .sessionCreated id session.modelId ∈ s.trace
  created : ∀ id modelId, .sessionCreated id modelId ∈ s.trace →
    ∃ n < s.issued, id = c.uuid n
  bound : ∀ id modelId modelId', .sessionCreated id modelId ∈ s.trace →
    .sessionCreated id modelId' ∈ s.trace → modelId = modelId'
  used : ∀ key modelId, .contextUsed key modelId ∈ s.trace →
    .sessionCreated key modelId ∈ s.trace ∨ IsConversation modelId key
  bounded : s.cache.Bounded c

/-- The invariant of the worker's state, under the leases `held`. -/
structure State.Sound (c : Config) (held : Held) (s : State) : Prop where
  models : s.models.Sound c held
  grounded : Grounded c s

-- =============================================================== the trace

/-- An event that neither leases nor faults, evicts only what is idle, and
makes or uses nothing. -/
def Event.quiet : Event → Bool
  | .evicting _ active => active == 0
  | .loadFailed _ => true
  | _ => false

/-- The trace has grown by quiet events and, in this order, by `loud`. -/
def Grew (loud : List Event) (s s' : State) : Prop :=
  ∃ new, s'.trace = s.trace ++ new ∧ (new.filter fun e => !e.quiet) = loud

theorem Grew.refl (s : State) : Grew [] s s := ⟨[], by simp, rfl⟩

/-- Traces grow by appending, so growth composes. -/
theorem Grew.trans {loud loud' : List Event} {s t u : State}
    (h : Grew loud s t) (h' : Grew loud' t u) : Grew (loud ++ loud') s u := by
  obtain ⟨new, hnew, hloud⟩ := h
  obtain ⟨new', hnew', hloud'⟩ := h'
  exact ⟨new ++ new', by rw [hnew', hnew, List.append_assoc],
    by rw [List.filter_append, hloud, hloud']⟩

/-- Quiet events aside, the trace holds what it held and `loud`. -/
theorem Grew.mem_trace {loud : List Event} {s s' : State} (h : Grew loud s s')
    (event : Event) (hloud : event.quiet = false) :
    event ∈ s'.trace ↔ event ∈ s.trace ∨ event ∈ loud := by
  obtain ⟨new, hnew, rfl⟩ := h
  rw [hnew, List.mem_append, List.mem_filter, hloud]
  simp

/-- What the manager's own steps do to the rest of the state: sessions
stay, contexts only leave, and the trace grows by `loud`. -/
structure Evolved (loud : List Event) (s s' : State) : Prop where
  sessions : s'.sessions = s.sessions
  issued : s'.issued = s.issued
  runtimes : s'.models.runtimes.runtimes = s.models.runtimes.runtimes
  cache : ∀ (key : QString) (e : CacheEntry),
    s'.cache.entries[key]? = some e → s.cache.entries[key]? = some e
  grew : Grew loud s s'

theorem Evolved.refl (s : State) : Evolved [] s s :=
  ⟨rfl, rfl, rfl, fun _ _ h => h, Grew.refl s⟩

/-- And so do whole developments of the state. -/
theorem Evolved.trans {loud loud' : List Event} {s t u : State}
    (h : Evolved loud s t) (h' : Evolved loud' t u) :
    Evolved (loud ++ loud') s u :=
  ⟨h'.sessions.trans h.sessions, h'.issued.trans h.issued,
    h'.runtimes.trans h.runtimes, fun k e hk => h.cache k e (h'.cache k e hk),
    h.grew.trans h'.grew⟩

/-- An event that names no cache key. -/
def Event.unkeyed : Event → Bool
  | .sessionCreated _ _ => false
  | .contextUsed _ _ => false
  | _ => true

/-- The manager's steps keep the cache grounded as long as the models of
the entries that stay keep their weights. -/
theorem Grounded.evolved {c : Config} {s s' : State} {loud : List Event}
    (h : Grounded c s) (hev : Evolved loud s s')
    (hloud : ∀ event ∈ loud, event.unkeyed = true)
    (hbounded : s'.cache.Bounded c)
    (hmodels : ∀ (key : QString) (e : CacheEntry),
      s'.cache.entries[key]? = some e → ∀ model,
      s.models.runtimes.models[e.modelId]? = some model →
      s'.models.runtimes.models[e.modelId]? = some model) :
    Grounded c s' := by
  have hmem : ∀ event, event.quiet = false → event.unkeyed = false →
      (event ∈ s'.trace ↔ event ∈ s.trace) := by
    intro event hquiet hkeyed
    rw [hev.grew.mem_trace event hquiet]
    constructor
    · rintro (hold | hnew)
      · exact hold
      · rw [hloud event hnew] at hkeyed
        cases hkeyed
    · exact Or.inl
  have hcreated : ∀ id modelId, Event.sessionCreated id modelId ∈ s'.trace
      ↔ Event.sessionCreated id modelId ∈ s.trace :=
    fun id modelId => hmem _ rfl rfl
  refine ⟨fun key e hk => ?_, fun key e hk => ?_, fun id session hid => ?_,
    fun id modelId hc => ?_, fun id modelId modelId' hc hc' => ?_,
    fun key modelId hu => ?_, hbounded⟩
  · obtain ⟨model, hmodel, hfacts⟩ := h.weights key e (hev.cache key e hk)
    exact ⟨model, hmodels key e hk model hmodel, hfacts⟩
  · have hkeyed := h.keyed key e (hev.cache key e hk)
    unfold Keyed at hkeyed ⊢
    rwa [hev.sessions]
  · rw [hev.sessions] at hid
    rw [hcreated]
    exact h.sessions id session hid
  · rw [hev.issued]
    exact h.created id modelId ((hcreated id modelId).1 hc)
  · exact h.bound id modelId modelId' ((hcreated _ _).1 hc)
      ((hcreated _ _).1 hc')
  · rw [hcreated]
    exact h.used key modelId ((hmem (.contextUsed key modelId) rfl rfl).1 hu)

end LocalLLM
