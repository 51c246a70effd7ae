/-
The runtime manager (`service/Managers.cpp`): the registered runtimes, and
the models they have loaded.

A model is loaded by trying the devices in the order of the hardware
policy and, for each device, the runtimes that offer it. A device other
than the CPU that fails for a reason of its own (`fallsBack`) passes the
turn to the next one; anything else ends the search.

Three fields of the model have no counterpart in the source, which never
reads them: `serial` numbers the loads of one manager, `probe` names the
task that loaded a model, and `loads` counts the loads so far.
-/
import LocalLLM.Runtimes.Runtime
import LocalLLM.Service.Config

namespace LocalLLM

open Std

structure LoadedModel where
  spec : ModelSpec
  execution : ExecutionSelection
  runtime : RuntimeModel
  serial : Nat
  probe : Probe

structure RuntimeManager where
  runtimes : ExtTreeMap QString Runtime := ∅
  models : ExtTreeMap QString LoadedModel := ∅
  loads : Nat := 0

namespace RuntimeManager

/-- `addRuntime`. -/
def addRuntime (m : RuntimeManager) (runtime : Runtime) :
    Except Exn RuntimeManager := do
  require (QString.trimmed runtime.id ≠ []) .InvalidArgument
    "Runtime id is required"
  require (runtime.id ∉ m.runtimes) .AlreadyExists
    "Runtime already registered"
  return { m with runtimes := m.runtimes.insert runtime.id runtime }

-- =============================================================== estimation

/-- The loop of `estimateMemory`: the largest estimate of the runtimes
that support the model. -/
def estimateOver (probe : Probe) (model : ModelSpec) (contextSlots : Int) :
    List (QString × Runtime) → Option MemoryEstimate →
      Except Exn (Option MemoryEstimate)
  | [], result => .ok result
  | (_, runtime) :: rest, result =>
      if runtime.supportsModel probe model then do
        let estimate ← runtime.estimateMemory probe model contextSlots
        match result with
        | none => estimateOver probe model contextSlots rest (some estimate)
        | some best =>
            let bytes ← estimate.totalBytes
            let bestBytes ← best.totalBytes
            estimateOver probe model contextSlots rest
              (if bytes > bestBytes then some estimate else some best)
      else estimateOver probe model contextSlots rest result

/-- `estimateMemory`. -/
def estimateMemory (m : RuntimeManager) (probe : Probe) (model : ModelSpec)
    (contextSlots : Int) : Except Exn MemoryEstimate := do
  match ← estimateOver probe model contextSlots m.runtimes.toList none with
  | none => .error (err .RuntimeUnavailable
      "No installed runtime supports this model format")
  | some result =>
      let bytes ← result.totalBytes
      require (bytes > 0) .RuntimeFailure
        "Runtime returned an empty memory estimate"
      return result

-- ================================================================== loading

/-- The options only the service may set. -/
def reservedOptions : List QString :=
  [qs "runtime", qs "backend", qs "device", qs "device_id", qs "gpu_layers",
    qs "n_gpu_layers"]

/-- A runtime that supports the model, with the devices it offers. -/
structure Candidate where
  id : QString
  runtime : Runtime
  devices : List RuntimeDevice

/-- The first loop of `load`. -/
def candidates (hardware : HardwareInfo) (env : Env) (model : ModelSpec) :
    Nat → List (QString × Runtime) → Except Exn (List Candidate)
  | _, [] => .ok []
  | i, (id, runtime) :: rest => do
      env.throwIfCancelled (.scan i)
      if runtime.supportsModel env.probe model then
        let devices ← runtime.devices env.probe hardware
        let found ← candidates hardware env model (i + 1) rest
        return ⟨id, runtime, devices⟩ :: found
      else candidates hardware env model (i + 1) rest

/-- A runtime and a device it offers. -/
structure Attempt where
  id : QString
  runtime : Runtime
  device : RuntimeDevice

/-- The turns of the two inner loops of `load`, in their order. -/
def attempts (ordered : List RuntimeDevice) (found : List Candidate) :
    List Attempt :=
  ordered.flatMap fun device =>
    (found.filter fun k => k.devices.contains device).map fun k =>
      ⟨k.id, k.runtime, device⟩

/-- The `reason` of a selection. -/
def reason (device : RuntimeDevice) (failures : List QString) : QString :=
  match device.backend with
  | .Metal => qs "Apple Silicon with usable Metal"
  | .Cuda => qs "NVIDIA GPU with usable CUDA"
  | .Vulkan => qs "AMD/Intel GPU with usable Vulkan"
  | .Cpu =>
      if failures = [] then qs
        "No policy-compatible GPU acceleration supported by this model runtime"
      else qs "GPU model initialization failed; using CPU"

/-- An error that passes the turn to the next attempt. -/
def fallsBack (device : RuntimeDevice) (e : Error) : Bool :=
  device.backend != .Cpu && (e.code == .RuntimeUnavailable
    || e.code == .RuntimeFailure || e.code == .ResourceLimit)

/-- The part of one attempt inside the `try`. -/
def tryLoad (env : Env) (model : ModelSpec) (i : Nat) (a : Attempt) :
    Except Exn RuntimeModel := do
  let loaded ← a.runtime.load env.probe model a.device
  env.throwIfCancelled (.loaded i)
  match loaded with
  | some m => return m
  | none => .error (err .RuntimeFailure "Runtime returned a null model")

/-- The inner loops of `load`, over all attempts. -/
def loadFirst (env : Env) (model : ModelSpec) :
    Nat → List Attempt → List QString →
      Except Exn (RuntimeModel × ExecutionSelection)
  | _, [], failures => .error (.error ⟨.RuntimeUnavailable,
      qs "No execution device could load the model: "
        ++ QString.join failures (qs "; ")⟩)
  | i, a :: rest, failures => do
      env.throwIfCancelled (.attempt i)
      match tryLoad env model i a with
      | .ok loaded =>
          return (loaded, ⟨a.id, a.device, reason a.device failures, failures⟩)
      | .error (.error e) =>
          env.throwIfCancelled (.failed i)
          if fallsBack a.device e then
            loadFirst env model (i + 1) rest (failures ++
              [a.id ++ qs "/" ++ a.device.backend.enumName ++ qs ": "
                ++ e.message])
          else .error (.error e)
      | .error e => .error e

/-- `load`; the selection is the part of its answer that is new. -/
def load (c : Config) (env : Env) (m : RuntimeManager) (model : ModelSpec) :
    Except Exn (RuntimeManager × ExecutionSelection) := do
  require (QString.trimmed model.id ≠ [] ∧ QString.trimmed model.path ≠ []
      ∧ 1 < model.contextTokens) .InvalidArgument
    "Model id, path and contextTokens > 1 are required"
  require (model.id ∉ m.models) .AlreadyExists "Model already loaded"
  require (m.models.size < c.maxModels) .ResourceLimit
    "Loaded model limit reached"
  require (∀ key ∈ reservedOptions, Json.contains model.options key = false)
    .InvalidArgument
    "Execution backend and device are selected by the service; remove model options overrides"
  let found ← candidates c.hardware env model 0 m.runtimes.toList
  require (found ≠ [] ∨ c.fileExists env.probe model.path = true) .NotFound
    "Local model path not found"
  require (found ≠ []) .RuntimeUnavailable
    "No installed runtime supports this local model format"
  let ordered := orderExecutionDevices c.hardware
    (found.flatMap Candidate.devices)
  require (ordered ≠ []) .RuntimeUnavailable
    "No policy-compatible execution device is available for this model"
  let (loaded, execution) ← loadFirst env model 0 (attempts ordered found) []
  return ({ m with
    models := m.models.insert model.id
      ⟨model, execution, loaded, m.loads, env.probe⟩
    loads := m.loads + 1 }, execution)

/-- `get`. -/
def get (m : RuntimeManager) (id : QString) : Except Fault LoadedModel :=
  match m.models[id]? with
  | some loaded => .ok loaded
  | none => .error .runtimeGet

/-- `unload`. -/
def unload (m : RuntimeManager) (id : QString) :
    Except Fault RuntimeManager := do
  let _ ← m.get id
  return { m with models := m.models.erase id }

-- ============================================================ one-step facts

/-- The estimate is one of a supporting runtime's, and no supporting
runtime estimates more. -/
theorem estimateOver_spec {probe : Probe} {model : ModelSpec}
    {contextSlots : Int} :
    ∀ (l : List (QString × Runtime)) (start : Option MemoryEstimate)
      (result : MemoryEstimate),
    estimateOver probe model contextSlots l start = .ok (some result) →
    (∀ best ∈ start, best.exactBytes ≤ result.exactBytes)
      ∧ ∀ r ∈ l, r.2.supportsModel probe model = true →
        ∃ estimate, r.2.estimateMemory probe model contextSlots = .ok estimate
          ∧ estimate.exactBytes ≤ result.exactBytes := by
  intro l
  induction l with
  | nil =>
      intro start result h
      injection h with h
      subst h
      refine ⟨fun best hbest => ?_, fun r hr => (nomatch hr)⟩
      injection hbest with hbest
      rw [hbest]
  | cons r rest ih =>
      obtain ⟨id, runtime⟩ := r
      intro start result h
      unfold estimateOver at h
      by_cases hsup : runtime.supportsModel probe model = true
      · rw [if_pos hsup] at h
        obtain ⟨estimate, hest, h⟩ := bind_eq_ok.1 h
        -- what is carried on is at least this runtime's estimate
        obtain ⟨next, hnext, hle, hstart⟩ : ∃ next,
            estimateOver probe model contextSlots rest (some next)
              = .ok (some result) ∧ estimate.exactBytes ≤ next.exactBytes
            ∧ ∀ best ∈ start, best.exactBytes ≤ next.exactBytes := by
          cases start with
          | none =>
              exact ⟨estimate, h, Nat.le_refl _, fun _ hb => (nomatch hb)⟩
          | some best =>
              obtain ⟨bytes, hbytes, h⟩ := bind_eq_ok.1 h
              obtain ⟨bestBytes, hbest, h⟩ := bind_eq_ok.1 h
              have hb := MemoryEstimate.totalBytes_ok hbytes
              have hbb := MemoryEstimate.totalBytes_ok hbest
              by_cases hgt : bytes > bestBytes
              · rw [if_pos hgt] at h
                have hlt := UInt64.lt_iff_toNat_lt.1 hgt
                refine ⟨estimate, h, Nat.le_refl _, fun b hmem => ?_⟩
                injection hmem with hmem
                subst hmem
                omega
              · rw [if_neg hgt] at h
                have hle := UInt64.le_iff_toNat_le.1 (UInt64.not_lt.1 hgt)
                refine ⟨best, h, by omega, fun b hmem => ?_⟩
                injection hmem with hmem
                subst hmem
                exact Nat.le_refl _
        obtain ⟨hcarry, hrest⟩ := ih _ _ hnext
        have hnextle := hcarry next rfl
        refine ⟨fun best hb => Nat.le_trans (hstart best hb) hnextle, ?_⟩
        intro r hr hrsup
        rcases List.mem_cons.1 hr with heq | hmem
        · subst heq
          exact ⟨estimate, hest, Nat.le_trans hle hnextle⟩
        · exact hrest r hmem hrsup
      · rw [if_neg hsup] at h
        obtain ⟨hcarry, hrest⟩ := ih _ _ h
        refine ⟨hcarry, fun r hr hrsup => ?_⟩
        rcases List.mem_cons.1 hr with heq | hmem
        · subst heq
          exact absurd hrsup hsup
        · exact hrest r hmem hrsup

/-- No runtime that supports a model estimates more than `estimateMemory`
answers, and the answer fits 64 bits. -/
theorem estimateMemory_ok {m : RuntimeManager} {probe : Probe}
    {model : ModelSpec} {contextSlots : Int} {result : MemoryEstimate}
    (h : m.estimateMemory probe model contextSlots = .ok result) :
    (∃ bytes, result.totalBytes = .ok bytes)
      ∧ ∀ (id : QString) (runtime : Runtime), m.runtimes[id]? = some runtime →
        runtime.supportsModel probe model = true →
        ∃ estimate, runtime.estimateMemory probe model contextSlots
          = .ok estimate
          ∧ estimate.exactBytes ≤ result.exactBytes := by
  unfold estimateMemory at h
  obtain ⟨best, hbest, h⟩ := bind_eq_ok.1 h
  cases best with
  | none => cases h
  | some best =>
      obtain ⟨bytes, hbytes, h⟩ := bind_eq_ok.1 h
      obtain ⟨-, -, h⟩ := bind_eq_ok.1 h
      injection h with h
      subst h
      refine ⟨⟨bytes, hbytes⟩, fun id runtime hid hsup => ?_⟩
      exact (estimateOver_spec _ _ _ hbest).2 (id, runtime)
        (ExtTreeMap.mem_toList_iff_getElem?_eq_some.2 hid) hsup

/-- A candidate is a registered runtime that supports the model. -/
theorem candidates_spec {hardware : HardwareInfo} {env : Env}
    {model : ModelSpec} :
    ∀ (l : List (QString × Runtime)) (i : Nat) (found : List Candidate),
    candidates hardware env model i l = .ok found →
    ∀ k ∈ found, (k.id, k.runtime) ∈ l
      ∧ k.runtime.supportsModel env.probe model = true := by
  intro l
  induction l with
  | nil =>
      intro i found h
      injection h with h
      subst h
      exact fun k hk => (nomatch hk)
  | cons r rest ih =>
      obtain ⟨id, runtime⟩ := r
      intro i found h k hk
      unfold candidates at h
      obtain ⟨-, -, h⟩ := bind_eq_ok.1 h
      by_cases hsup : runtime.supportsModel env.probe model = true
      · rw [if_pos hsup] at h
        obtain ⟨devices, -, h⟩ := bind_eq_ok.1 h
        obtain ⟨others, hothers, h⟩ := bind_eq_ok.1 h
        injection h with h
        subst h
        rcases List.mem_cons.1 hk with heq | hmem
        · subst heq
          exact ⟨List.mem_cons_self .., hsup⟩
        · obtain ⟨hin, hk⟩ := ih _ _ hothers k hmem
          exact ⟨List.mem_cons_of_mem _ hin, hk⟩
      · rw [if_neg hsup] at h
        obtain ⟨hin, hk⟩ := ih _ _ h k hk
        exact ⟨List.mem_cons_of_mem _ hin, hk⟩

theorem mem_attempts {ordered : List RuntimeDevice} {found : List Candidate}
    {a : Attempt} (h : a ∈ attempts ordered found) :
    ∃ k ∈ found, k.id = a.id ∧ k.runtime = a.runtime := by
  unfold attempts at h
  obtain ⟨device, -, h⟩ := List.mem_flatMap.1 h
  obtain ⟨k, hk, rfl⟩ := List.mem_map.1 h
  exact ⟨k, (List.mem_filter.1 hk).1, rfl, rfl⟩

/-- What is loaded was loaded by one of the attempts. -/
theorem loadFirst_spec {env : Env} {model : ModelSpec} :
    ∀ (l : List Attempt) (i : Nat) (failures : List QString)
      (loaded : RuntimeModel) (execution : ExecutionSelection),
    loadFirst env model i l failures = .ok (loaded, execution) →
    ∃ a ∈ l, execution.runtime = a.id ∧ execution.device = a.device
      ∧ a.runtime.load env.probe model a.device = .ok (some loaded) := by
  intro l
  induction l with
  | nil => intro i failures loaded execution h; cases h
  | cons a rest ih =>
      intro i failures loaded execution h
      unfold loadFirst at h
      obtain ⟨-, -, h⟩ := bind_eq_ok.1 h
      split at h
      case h_1 got hgot =>
        injection h with h
        injection h with h1 h2
        subst h1 h2
        unfold tryLoad at hgot
        obtain ⟨m, hm, hgot⟩ := bind_eq_ok.1 hgot
        obtain ⟨-, -, hgot⟩ := bind_eq_ok.1 hgot
        cases m with
        | none => cases hgot
        | some m =>
            injection hgot with hgot
            subst hgot
            exact ⟨a, List.mem_cons_self .., rfl, rfl, hm⟩
      case h_2 e he =>
        obtain ⟨-, -, h⟩ := bind_eq_ok.1 h
        split at h
        case isTrue =>
          obtain ⟨b, hb, hspec⟩ := ih _ _ _ _ h
          exact ⟨b, List.mem_cons_of_mem _ hb, hspec⟩
        case isFalse => cases h
      case h_3 => cases h

/-- A load that returns adds the model under its id, with the runtime and
the device it selected. -/
theorem load_ok {c : Config} {env : Env} {m m' : RuntimeManager}
    {model : ModelSpec} {execution : ExecutionSelection}
    (h : m.load c env model = .ok (m', execution)) :
    model.id ∉ m.models ∧ m.models.size < c.maxModels ∧ 1 < model.contextTokens
      ∧ ∃ runtime loaded, m.runtimes[execution.runtime]? = some runtime
        ∧ runtime.supportsModel env.probe model = true
        ∧ runtime.load env.probe model execution.device = .ok (some loaded)
        ∧ m' = { m with
            models := m.models.insert model.id
              ⟨model, execution, loaded, m.loads, env.probe⟩
            loads := m.loads + 1 } := by
  unfold load at h
  obtain ⟨_, hid, h⟩ := bind_eq_ok.1 h
  obtain ⟨_, hnew, h⟩ := bind_eq_ok.1 h
  obtain ⟨_, hsize, h⟩ := bind_eq_ok.1 h
  obtain ⟨-, -, h⟩ := bind_eq_ok.1 h
  obtain ⟨found, hfound, h⟩ := bind_eq_ok.1 h
  obtain ⟨-, -, h⟩ := bind_eq_ok.1 h
  obtain ⟨-, -, h⟩ := bind_eq_ok.1 h
  obtain ⟨-, -, h⟩ := bind_eq_ok.1 h
  obtain ⟨⟨loaded, selected⟩, hload, h⟩ := bind_eq_ok.1 h
  injection h with h
  injection h with h1 h2
  subst h2
  obtain ⟨a, ha, hname, hdevice, hloaded⟩ := loadFirst_spec _ _ _ _ _ hload
  obtain ⟨k, hk, hkid, hkrt⟩ := mem_attempts ha
  obtain ⟨hin, hsup⟩ := candidates_spec _ _ _ hfound k hk
  rw [require_eq_ok] at hid hnew hsize
  refine ⟨hnew, hsize, hid.2.2, a.runtime, loaded, ?_, ?_, ?_, h1.symm⟩
  · rw [hname, ← hkid, ← hkrt]
    exact ExtTreeMap.mem_toList_iff_getElem?_eq_some.1 hin
  · rw [← hkrt]
    exact hsup
  · rw [hdevice]
    exact hloaded

theorem get_ok {m : RuntimeManager} {id : QString} {loaded : LoadedModel}
    (h : m.models[id]? = some loaded) : m.get id = .ok loaded := by
  unfold get
  rw [h]

theorem unload_ok {m : RuntimeManager} {id : QString} {loaded : LoadedModel}
    (h : m.models[id]? = some loaded) :
    m.unload id = .ok { m with models := m.models.erase id } := by
  unfold unload
  rw [get_ok h]
  rfl

end RuntimeManager

end LocalLLM
