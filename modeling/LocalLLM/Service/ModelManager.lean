/-
The model manager (`service/ModelManager.cpp`) over the state of the
service worker (`Service::Impl::State`).

# One worker, one state

Every operation runs on the worker, one at a time, over one `State`. The
two callbacks of the manager are part of it: `beforeUnload_` erases the
contexts of the model from the cache, and `changed_` stores the listing it
is handed in `observed`.

# Broken assumptions

`trust` takes the answer of a lookup that is assumed to succeed. When it
does not, the fault is written into the trace and then thrown as the
source throws it, so "this lookup never fails" is a statement about the
trace.

The trace is not part of the source. It records what the results speak
about: leases, evictions, sessions and contexts as they are made and used,
loads that failed, and faults.
-/
import LocalLLM.Service.ContextCacheManager
import LocalLLM.Service.SessionManager

namespace LocalLLM

open Std

structure ModelInfo where
  model : ModelRecord
  contextTokens : Int := 0
  options : JsonObject := []
  execution : ExecutionSelection
  memory : MemoryEstimate := {}
  keepAliveMs : Int := 0
  expiresInMs : Int := 0
  activeRequests : Int := 0

structure ModelManager where
  runtimes : RuntimeManager := {}
  residency : ModelResidencyManager := {}
  loaded : ExtTreeMap QString ModelInfo := ∅
  remembered : ExtTreeMap QString ModelLoadRequest := ∅

/-- What the trace records. -/
inductive Event
  | fault (f : Fault)
  | acquired (id : QString)
  | released (id : QString)
  | evicting (id : QString) (active : Int)
  | loadFailed (id : QString)
  | sessionCreated (id modelId : QString)
  | contextUsed (key modelId : QString)
deriving DecidableEq

/-- `Service::Impl::State`, with the listing last observed, the number of
UUIDs drawn, and the trace. -/
structure State where
  models : ModelManager := {}
  sessions : SessionManager := {}
  cache : ContextCacheManager := {}
  observed : List ModelInfo := []
  issued : Nat := 0
  trace : List Event := []

/-- A computation of the worker. -/
abbrev Task := Exec Exn State

def log (event : Event) : Task Unit :=
  modify fun s => { s with trace := s.trace ++ [event] }

/-- The answer of a lookup or a call that is assumed to succeed. -/
def trust {α : Type} (r : Except Fault α) : Task α :=
  match r with
  | .ok a => pure a
  | .error f => do
      log (.fault f)
      throw f.toExn

/-- A check of the source at the point where it throws. -/
def check (condition : Prop) [Decidable condition] (code : ErrorCode)
    (message : String) : Task Unit :=
  Exec.ofExcept (require condition code message)

namespace ModelManager

def setResidency (residency : ModelResidencyManager) : Task Unit :=
  modify fun s => { s with models := { s.models with residency } }

def setRuntimes (runtimes : RuntimeManager) : Task Unit :=
  modify fun s => { s with models := { s.models with runtimes } }

/-- What `loadedInfo` adds to a stored `ModelInfo`. -/
def live (info : ModelInfo) (entry : ResidencyEntry) (now : Int) : ModelInfo :=
  { info with
    memory := entry.memory
    keepAliveMs := entry.keepAliveMs
    activeRequests := entry.active
    expiresInMs :=
      if entry.active ≠ 0 then -1 else max 0 (entry.expires - now) }

/-- `loadedInfo`. -/
def loadedInfo (env : Env) (id : QString) : Task ModelInfo := do
  let s ← get
  match s.models.loaded[id]? with
  | none => throw (err .NotFound "Model is not loaded")
  | some info => do
      let entry ← trust (s.models.residency.get id)
      return live info entry (env.now .info)

/-- `loaded`, over the entries of `loaded_`. -/
def listing (residency : ModelResidencyManager) (now : Int) :
    List (QString × ModelInfo) → Except Fault (List ModelInfo)
  | [] => .ok []
  | (id, info) :: rest => do
      let entry ← residency.get id
      let infos ← listing residency now rest
      return live info entry now :: infos

/-- `publish`. -/
def publish (env : Env) : Task Unit := do
  let s ← get
  let infos ← trust
    (listing s.models.residency (env.now .info) s.models.loaded.toList)
  modify fun s => { s with observed := infos }

/-- `remembered_.at(id).keepAliveMs = residency_.get(id).keepAliveMs`. -/
def mirrorKeepAlive (id : QString) : Task Unit := do
  let s ← get
  let entry ← trust (s.models.residency.get id)
  match s.models.remembered[id]? with
  | none => trust (.error .rememberedAt)
  | some previous =>
      modify fun s => { s with models := { s.models with
        remembered := s.models.remembered.insert id
          { previous with keepAliveMs := entry.keepAliveMs } } }

/-- `evict`. -/
def evict (env : Env) (id : QString) (automatic : Bool) : Task Unit := do
  let s ← get
  let entry ← trust (s.models.residency.get id)
  log (.evicting id entry.active)
  check (entry.active = 0) .ModelInUse "Active model cannot be unloaded"
  modify fun s => { s with cache := s.cache.eraseModel id }
  let runtimes ← trust (s.models.runtimes.unload id)
  setRuntimes runtimes
  let residency ← trust (s.models.residency.erased id automatic)
  setResidency residency
  modify fun s => { s with models := { s.models with
    loaded := s.models.loaded.erase id } }
  publish env

/-- The eviction loop of `load`. Every turn evicts a model, so one turn
more than there are models is enough. -/
def admission (c : Config) (env : Env) (required : UInt64) : Nat → Task Unit
  | 0 => trust (.error .outOfTurns)
  | turns + 1 => do
      let s ← get
      let fits ← trust (s.models.residency.fits c.policy required
        (env.ram (.admission turns)))
      if fits then pure ()
      else do
        Exec.ofExcept (env.throwIfCancelled (.admission turns))
        match s.models.residency.oldestIdle with
        | none => throw (err .ResourceLimit
            "Insufficient available RAM or no idle model can be evicted")
        | some victim => do
            evict env victim true
            admission c env required turns

/-- The fields of a request that a remembered load fills in. -/
def merged (previous : Option ModelLoadRequest) (request : ModelLoadRequest) :
    ModelLoadRequest :=
  match previous with
  | none => request
  | some p => { request with
      contextTokens := if request.contextTokens = 0 then p.contextTokens
        else request.contextTokens
      options := if request.options = [] then p.options else request.options
      keepAliveMs := if request.keepAliveMs < 0 then p.keepAliveMs
        else request.keepAliveMs }

/-- The context length of a load. -/
def contextOf (c : Config) (config : ModelLoadRequest)
    (manifest : ModelManifest) : Int :=
  if config.contextTokens ≠ 0 then config.contextTokens
  else min (min manifest.contextLength c.defaultContextTokens)
    c.maxCachedContextTokens

/-- The `ModelSpec` of a load. -/
def specOf (id : QString) (resolved : ResolvedModel) (context : Int)
    (options : JsonObject) : ModelSpec :=
  { id
    path := resolved.entryPath
    contextTokens := context
    options
    format := resolved.record.manifest.format
    projector := if resolved.record.manifest.projector = [] then []
      else filePath resolved.directory resolved.record.manifest.projector }

/-- The body of the `try` in `load`. -/
def register (c : Config) (env : Env) (id : QString) (memory : MemoryEstimate)
    (config : ModelLoadRequest) (info : ModelInfo) : Task Unit := do
  let s ← get
  let residency ← trust (s.models.residency.loaded c.policy id memory
    config.keepAliveMs (env.now .loaded))
  setResidency residency
  modify fun s => { s with models := { s.models with
    loaded := s.models.loaded.insertIfNew id info } }
  let entry ← trust (residency.get id)
  modify fun s => { s with models := { s.models with
    remembered := s.models.remembered.insert id
      ⟨config.model, info.contextTokens, config.options, entry.keepAliveMs⟩ } }

/-- The handler of that `try`. -/
def rollback (id : QString) (thrown : Exn) : Task Unit := do
  let s ← get
  let runtimes ← trust (s.models.runtimes.unload id)
  setRuntimes runtimes
  let residency ← trust (s.models.residency.erased id false)
  setResidency residency
  modify fun s => { s with models := { s.models with
    loaded := s.models.loaded.erase id } }
  throw thrown

/-- `load` of a model that is loaded already. -/
def loadExisting (env : Env) (id : QString) (existing : ModelInfo)
    (request : ModelLoadRequest) : Task ModelInfo := do
  check ((request.contextTokens = 0
      ∨ request.contextTokens = existing.contextTokens)
      ∧ (request.options = [] ∨ request.options = existing.options))
    .ModelInUse "Unload the model before changing its load configuration"
  let s ← get
  let residency ← trust (s.models.residency.touch id request.keepAliveMs
    (env.now .touch))
  setResidency residency
  mirrorKeepAlive id
  publish env
  loadedInfo env id

/-- What `load` asks of a model and of the memory before it evicts: the
configuration, the package, the specification and the estimate. -/
def plan (c : Config) (env : Env) (m : ModelManager) (id uri : QString)
    (request : ModelLoadRequest) :
    Except Exn (ModelLoadRequest × ResolvedModel × ModelSpec × MemoryEstimate
      × UInt64) := do
  let config := merged m.remembered[id]? { request with model := uri }
  let resolved ← c.catalog.resolve env.probe uri
  let context := contextOf c config resolved.record.manifest
  require (2 ≤ context) .InvalidArgument "Model context must exceed one token"
  require (context ≤ resolved.record.manifest.contextLength) .ContextOverflow
    "Requested context exceeds manifest context_length"
  require (context ≤ c.maxCachedContextTokens) .ResourceLimit
    "Model context exceeds cache token budget"
  let verification ← c.catalog.verify env uri
  if verification.valid then
    let spec := specOf id resolved context config.options
    let memory ← m.runtimes.estimateMemory env.probe spec
      (c.contextSlots context)
    let bytes ← memory.totalBytes
    require (bytes ≤ c.policy.budget) .ResourceLimit
      "Model weights, KV and runtime reservation exceed the service memory budget"
    return (config, resolved, spec, memory, bytes)
  else .error (.error ⟨.IntegrityFailure,
    QString.join verification.issues (qs "; ")⟩)

/-- `load` of a model that is not loaded. -/
def loadNew (c : Config) (env : Env) (id uri : QString)
    (request : ModelLoadRequest) : Task ModelInfo := do
  let s ← get
  let (config, resolved, spec, memory, bytes) ←
    Exec.ofExcept (plan c env s.models id uri request)
  admission c env bytes (s.models.residency.entries.size + 1)
  let s ← get
  let (runtimes, execution) ← Exec.ofExcept
    (s.models.runtimes.load c env spec)
  setRuntimes runtimes
  let info : ModelInfo :=
    { model := { resolved.record with loaded := true }
      contextTokens := spec.contextTokens
      options := config.options
      execution }
  tryCatch (register c env id memory config info) (rollback id)
  publish env
  loadedInfo env id

/-- `load`. -/
def load (c : Config) (env : Env) (request : ModelLoadRequest) :
    Task ModelInfo := do
  let uri ← Exec.ofExcept (c.registry.canonical request.model)
  check (∀ key ∈ RuntimeManager.reservedOptions,
      Json.contains request.options key = false) .InvalidArgument
    "Execution device is selected by the service"
  let id ← Exec.ofExcept (modelId uri)
  check (0 ≤ request.contextTokens) .InvalidArgument
    "contextTokens must be zero or positive"
  check (-1 ≤ request.keepAliveMs ∧ request.keepAliveMs ≤ maxKeepAliveMs)
    .InvalidArgument "keepAliveMs must be -1 or 0..7 days"
  let s ← get
  match s.models.loaded[id]? with
  | some existing => loadExisting env id existing request
  | none => tryCatch (loadNew c env id uri request) fun thrown => do
      log (.loadFailed id)
      throw thrown

/-- `unload`. -/
def unload (c : Config) (env : Env) (uri : QString) : Task Unit := do
  let canonical ← Exec.ofExcept (c.registry.canonical uri)
  let id ← Exec.ofExcept (modelId canonical)
  let _ ← loadedInfo env id
  evict env id false

/-- `remove`. -/
def remove (c : Config) (env : Env) (reference : QString) : Task Unit := do
  let uri ← Exec.ofExcept (c.registry.canonical reference)
  let id ← Exec.ofExcept (modelId uri)
  let s ← get
  check (id ∉ s.models.loaded) .ModelInUse
    "Unload the model before removing its installed files"
  Exec.ofExcept (c.catalog.remove env.probe uri)
  modify fun s => { s with models := { s.models with
    remembered := s.models.remembered.erase id } }

/-- `resolve`. -/
def resolve (c : Config) (env : Env) (m : ModelManager) (uri : QString) :
    Except Exn ModelRecord := do
  let canonical ← c.registry.canonical uri
  let found ← c.catalog.resolve env.probe canonical
  return { found.record with
    loaded := decide (found.record.manifest.id ∈ m.loaded) }

/-- The loop of `maintain` over the expired models. -/
def evictAll (env : Env) : List QString → Task Unit
  | [] => pure ()
  | id :: rest => do
      evict env id true
      evictAll env rest

/-- The loop of `maintain` under memory pressure. -/
def relieve (c : Config) (env : Env) : Nat → Task Unit
  | 0 => trust (.error .outOfTurns)
  | turns + 1 => do
      let s ← get
      match env.ram (.pressure turns) with
      | none => pure ()
      | some available =>
          if available < c.policy.reserve then
            match s.models.residency.oldestIdle with
            | none => pure ()
            | some victim => do
                evict env victim true
                relieve c env turns
          else pure ()

/-- `maintain`. -/
def maintain (c : Config) (env : Env) : Task Unit := do
  let s ← get
  evictAll env (s.models.residency.expired (env.now .expired))
  let s ← get
  relieve c env (s.models.residency.entries.size + 1)

/-- `acquire`. -/
def acquire (c : Config) (env : Env) (id : QString) (keepAlive : Int) :
    Task LoadedModel := do
  let uri ← Exec.ofExcept (modelUri id)
  let _ ← load c env { model := uri, keepAliveMs := keepAlive }
  let s ← get
  let residency ← trust (s.models.residency.acquire id keepAlive
    (env.now .acquire))
  setResidency residency
  log (.acquired id)
  publish env
  let s ← get
  trust (s.models.runtimes.get id)

/-- `release`. -/
def release (c : Config) (env : Env) (id : QString) : Task Unit := do
  let s ← get
  let residency ← trust (s.models.residency.release id (env.now .release))
  setResidency residency
  log (.released id)
  mirrorKeepAlive id
  maintain c env
  publish env

end ModelManager

end LocalLLM
