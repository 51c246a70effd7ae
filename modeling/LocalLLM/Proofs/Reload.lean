/-
Evicting a model and loading it again, seen from a task.

# Two workers side by side

`Twin` compares two states of the worker that may have different models
loaded. They agree on what a task can tell apart (`State.view`): the
sessions, the UUIDs drawn, and the request remembered for each model. Every
model that both have loaded was loaded from one specification
(`Twin.models`), because a specification can be read off the remembered
request and the package on disk.

# A lease

`acquire` either finds its model or loads it, and what it leaves remembered
is the same (`Renewed`): the context length and the options it was loaded
with before, and the keep-alive that was asked for or else the one it had.
A lease that fails has failed a check that does not look at the state, or
its load has failed, and then the trace says so (`Lost`).

# The outside

`SteadyOutside` is what the comparison asks of the packages and of
the runtimes.
-/
import LocalLLM.Lib.Twins
import LocalLLM.Proofs.Turns

namespace LocalLLM

open Std ModelManager

-- ============================================================== the outside

/-- Generations are compared up to what they counted. -/
def SameFinish (r r' : RuntimeResult) : Prop :=
  r.finishReason = r'.finishReason

/-- Two contexts that answer a prompt alike, whatever either has cached. -/
structure RuntimeContext.Alike (x y : RuntimeContext) : Prop where
  generate : ∀ probe tokens options,
    (x.generate probe tokens options).Echo SameFinish
      (y.generate probe tokens options)
  generateConversation : ∀ probe prompt options,
    (x.generateConversation probe prompt options).Echo SameFinish
      (y.generateConversation probe prompt options)

/-- Two answers of `createContext` that are alike. -/
inductive ContextsAgree : Except Exn (Option RuntimeContext) →
    Except Exn (Option RuntimeContext) → Prop
  | some (x y : RuntimeContext) (h : x.Alike y) :
      ContextsAgree (.ok (some x)) (.ok (some y))
  | none : ContextsAgree (.ok none) (.ok none)
  | error (e : Exn) : ContextsAgree (.error e) (.error e)

/-- Two loaded models that behave alike. -/
structure RuntimeModel.Alike (m m' : RuntimeModel) : Prop where
  tokenize : m.tokenize = m'.tokenize
  prepareConversation : m.prepareConversation = m'.prepareConversation
  parseConversation : m.parseConversation = m'.parseConversation
  embedText : m.embedText = m'.embedText
  contexts : ∀ probe probe',
    ContextsAgree (m.createContext probe) (m'.createContext probe')

/-- The packages stay as they are on disk, and a specification that is
loaded twice gives two models that behave alike. -/
structure SteadyOutside (c : Config) (runtimes : ExtTreeMap QString Runtime) :
    Prop where
  packages : ∀ probe probe' uri found found',
    c.catalog.resolve probe uri = .ok found →
    c.catalog.resolve probe' uri = .ok found' → found = found'
  loads : ∀ (id id' : QString) (runtime runtime' : Runtime) probe probe' spec
    device device' model model',
    runtimes[id]? = some runtime → runtimes[id']? = some runtime' →
    runtime.load probe spec device = .ok (some model) →
    runtime'.load probe' spec device' = .ok (some model') → model.Alike model'

/-- Two outsides that differ in the clock and in the memory that is free. -/
structure Env.Same (env env' : Env) : Prop where
  probe : env'.probe = env.probe
  cancelled : env'.cancelled = env.cancelled

/-- The two runs are cancelled at the same polls, so they take the same
branches there. -/
theorem Env.Same.throwIfCancelled {env env' : Env} (h : env.Same env')
    (poll : Poll) : env'.throwIfCancelled poll
      = env.throwIfCancelled poll := by
  unfold Env.throwIfCancelled
  rw [h.cancelled]

-- ============================================================= the two sides

/-- The part of the state a task can tell apart. -/
structure TaskView where
  sessions : SessionManager
  issued : Nat
  remembered : ExtTreeMap QString ModelLoadRequest

def State.view (s : State) :
    TaskView := ⟨s.sessions, s.issued, s.models.remembered⟩

/-- A load has failed since the trace was `base`. -/
def Lost (base : List Event) (s : State) : Prop :=
  ∃ new id, s.trace = base ++ new ∧ .loadFailed id ∈ new

variable {c : Config} {base : State} {held : Held}

/-- One side of a comparison that began in `base`. A model is remembered
with the context length and the options it had then. -/
structure Side (c : Config) (base : State) (held : Held) (s : State) :
    Prop where
  sound : s.Sound c held
  runtimes : s.models.runtimes.runtimes = base.models.runtimes.runtimes
  traced : ∃ new, s.trace = base.trace ++ new
  kept : ∀ (id : QString) (r : ModelLoadRequest),
    base.models.remembered[id]? = some r →
      ∃ keepAliveMs, s.models.remembered[id]? = some { r with keepAliveMs }

/-- Two sides that a task cannot tell apart. -/
structure Twin (c : Config) (base : State) (held : Held) (s s' : State) :
    Prop where
  left : Side c base held s
  right : Side c base held s'
  view : s'.view = s.view

/-- Every sound state is the start of a run that has added nothing yet. -/
theorem Side.start {s : State} (h : s.Sound c held) : Side c s held s :=
  ⟨h, rfl, ⟨[], by simp⟩, fun _ r hr => ⟨r.keepAliveMs, hr⟩⟩

/-- Two runs from one state agree at the start. -/
theorem Twin.start {s : State} (h : s.Sound c held) : Twin c s held s s :=
  ⟨.start h, .start h, rfl⟩

/-- Once a reload has failed in the trace, it stays there. -/
theorem Lost.append {trace new : List Event} {s s' : State} (h : Lost trace s)
    (hnew : s'.trace = s.trace ++ new) : Lost trace s' := by
  obtain ⟨old, id, hold, hmem⟩ := h
  exact ⟨old ++ new, id, by rw [hnew, hold, List.append_assoc],
    List.mem_append_left _ hmem⟩

variable {s s' t : State}

/-- Each step of a run adds to its trace behind what was there. -/
theorem Side.progress {leases : List Event} (h : Side c base held s)
    (hp : Progress leases s t) : ∃ new, t.trace = base.trace ++ new := by
  obtain ⟨old, hold⟩ := h.traced
  obtain ⟨new, hnew, -⟩ := hp
  exact ⟨old ++ new, by rw [hnew, hold, List.append_assoc]⟩

/-- The manager's own steps keep a side, as far as the remembered
requests do. -/
theorem Side.evolved {held' : Held} {loud : List Event}
    (h : Side c base held s)
    (hsound : t.Sound c held') (hev : Evolved loud s t)
    (hkept : ∀ (id : QString) (r : ModelLoadRequest),
      s.models.remembered[id]? = some r →
        ∃ keepAliveMs, t.models.remembered[id]?
          = some { r with keepAliveMs }) :
    Side c base held' t := by
  obtain ⟨old, hold⟩ := h.traced
  obtain ⟨new, hnew, -⟩ := hev.grew
  refine ⟨hsound, hev.runtimes.trans h.runtimes,
    ⟨old ++ new, by rw [hnew, hold, List.append_assoc]⟩, fun id r hr => ?_⟩
  obtain ⟨k, hs⟩ := h.kept id r hr
  obtain ⟨k', ht⟩ := hkept id _ hs
  exact ⟨k', ht⟩

/-- Evictions keep a side, and a task does not see them. -/
theorem Side.reduced (h : Side c base held s) (hred : Reduced c held s t) :
    Side c base held t ∧ t.view = s.view := by
  refine ⟨h.evolved hred.sound hred.evolved fun id r hr =>
    ⟨r.keepAliveMs, by rw [hred.thinned.remembered, hr]⟩, ?_⟩
  unfold State.view
  rw [hred.evolved.sessions, hred.evolved.issued, hred.thinned.remembered]

/-- A step that leaves the models alone keeps a side. -/
theorem Side.stepped (h : Side c base held s) (hstep : Stepped c held s t) :
    Side c base held t :=
  ⟨hstep.sound, by rw [hstep.models]; exact h.runtimes,
    h.progress hstep.progress,
    by rw [hstep.models]; exact h.kept⟩

/-- Steps on both sides that leave the models alone. -/
theorem Twin.stepped {t' : State} (h : Twin c base held s s')
    (hstep : Stepped c held s t) (hstep' : Stepped c held s' t')
    (hview : t'.view = t.view) : Twin c base held t t' :=
  ⟨h.left.stepped hstep, h.right.stepped hstep', hview⟩

theorem Twin.sessions (h : Twin c base held s s') : s'.sessions = s.sessions :=
  congrArg TaskView.sessions h.view

theorem Twin.issued (h : Twin c base held s s') : s'.issued = s.issued :=
  congrArg TaskView.issued h.view

theorem Twin.remembered (h : Twin c base held s s') :
    s'.models.remembered = s.models.remembered :=
  congrArg TaskView.remembered h.view

/-- A model that both sides have loaded was loaded from one specification,
for one request, and behaves alike. -/
theorem Twin.models (hsteady : SteadyOutside c base.models.runtimes.runtimes)
    (h : Twin c base held s s') {id : QString} {info info' : ModelInfo}
    {entry entry' : ResidencyEntry} {model model' : LoadedModel}
    {request request' : ModelLoadRequest}
    (hres : s.models.Resident c held id info entry model request)
    (hres' : s'.models.Resident c held id info' entry' model' request') :
    model'.spec = model.spec ∧ model.runtime.Alike model'.runtime
      ∧ request' = request := by
  have hrequest : request' = request := by
    have hfind := hres'.isRemembered
    rw [h.remembered, hres.isRemembered] at hfind
    injection hfind with hfind
    exact hfind.symm
  subst hrequest
  have hm := hres.matched
  have hm' := hres'.matched
  have hcontext : model'.spec.contextTokens = model.spec.contextTokens := by
    rw [hm'.spec_context, ← hm'.request_context, hm.request_context,
      ← hm.spec_context]
  have hoptions : model'.spec.options = model.spec.options := by
    rw [hm'.spec_options, ← hm'.request_options, hm.request_options,
      ← hm.spec_options]
  -- the package is the same, so is the specification
  obtain ⟨uri, found, huri, hfound, hspec⟩ := hm.found
  obtain ⟨uri', found', huri', hfound', hspec'⟩ := hm'.found
  obtain rfl : uri' = uri := by
    rw [huri] at huri'
    injection huri' with huri'
    exact huri'.symm
  obtain rfl := hsteady.packages _ _ _ _ _ hfound hfound'
  have heq : model'.spec = model.spec := by
    rw [hspec', hspec, hcontext, hoptions]
  obtain ⟨runtime, -, hruntime, hload, -⟩ := hm.estimated
  obtain ⟨runtime', -, hruntime', hload', -⟩ := hm'.estimated
  rw [h.left.runtimes] at hruntime
  rw [h.right.runtimes] at hruntime'
  rw [heq] at hload'
  exact ⟨heq, hsteady.loads _ _ _ _ _ _ _ _ _ _ _ hruntime
    hruntime' hload hload',
    rfl⟩

-- ================================================================== leases

/-- The checks of `load` that do not look at the state: the URI and the id
of the model. -/
def requestChecks (c : Config) (request : ModelLoadRequest) :
    Except Exn (QString × QString) := do
  let uri ← c.registry.canonical request.model
  require (∀ key ∈ RuntimeManager.reservedOptions,
      Json.contains request.options key = false) .InvalidArgument
    "Execution device is selected by the service"
  let id ← modelId uri
  require (0 ≤ request.contextTokens) .InvalidArgument
    "contextTokens must be zero or positive"
  require (-1 ≤ request.keepAliveMs ∧ request.keepAliveMs ≤ maxKeepAliveMs)
    .InvalidArgument "keepAliveMs must be -1 or 0..7 days"
  return (uri, id)

/-- What a load does once its request has passed. -/
def loadChecked (c : Config) (env : Env) (request : ModelLoadRequest)
    (place : QString × QString) : Task ModelInfo := do
  let s ← get
  match s.models.loaded[place.2]? with
  | some existing => loadExisting env place.2 existing request
  | none => tryCatch (loadNew c env place.2 place.1 request) fun thrown => do
      log (.loadFailed place.2)
      throw thrown

/-- A load makes its checks, and then looks whether the model is there. -/
theorem load_eq (c : Config) (env : Env) (request : ModelLoadRequest) :
    load c env request
      = Exec.ofExcept (requestChecks c request)
        >>= loadChecked c env request := by
  unfold requestChecks
  simp only [Exec.ofExcept_bind]
  rfl

/-- What is remembered of a model after a lease, from what was
remembered before. -/
inductive Renewed (c : Config) (probe : Probe) (uri : QString)
    (keepAlive : Int) :
    Option ModelLoadRequest → ModelLoadRequest → Prop
  /-- All that changes is the keep-alive, if there is a new one. -/
  | again (p : ModelLoadRequest) :
      Renewed c probe uri keepAlive (some p) { p with
        keepAliveMs := if 0 ≤ keepAlive then keepAlive else p.keepAliveMs }
  /-- The first load takes the defaults. -/
  | first (found : ResolvedModel) (h : c.catalog.resolve probe uri
      = .ok found) :
      Renewed c probe uri keepAlive none
        { model := uri
          contextTokens := contextOf c (acquireRequest uri keepAlive)
            found.record.manifest
          options := []
          keepAliveMs := if 0 ≤ keepAlive then keepAlive
            else c.policy.keepAlive }

/-- A reload is determined by the package and the last request, so both runs
reload the same thing. -/
theorem Renewed.unique {probe : Probe} {uri : QString} {keepAlive : Int}
    {previous : Option ModelLoadRequest} {r r' : ModelLoadRequest}
    (h : Renewed c probe uri keepAlive previous r)
    (h' : Renewed c probe uri keepAlive previous r') : r' = r := by
  cases h with
  | again p =>
      cases h'
      rfl
  | first found hfound =>
      cases h' with
      | first found' hfound' =>
          rw [hfound] at hfound'
          injection hfound' with hfound'
          rw [hfound']

variable {env : Env}

/-- The two ways in which the source writes the same choice of a
keep-alive value. -/
theorem ite_neg_comm (k p : Int) :
    (if k < 0 then p else k) = if 0 ≤ k then k else p := by
  split <;> split <;> omega

/-- Found or loaded anew, a leased model is remembered as it was, but for
its keep-alive. -/
theorem renewed_of_loaded {id uri : QString} {keepAlive : Int}
    (h : s.models.Sound c held) (huri : modelUri id = .ok uri)
    (hsound : t.models.Sound c held)
    (hvia : LoadedVia c held env s t id uri (acquireRequest uri keepAlive)) :
    ∃ request, t.models.remembered = s.models.remembered.insert id request
      ∧ Renewed c env.probe uri keepAlive
        s.models.remembered[id]? request := by
  cases hvia with
  | existing info entry entry' model remembered before hkeep after
      hremembered =>
      refine ⟨_, hremembered, ?_⟩
      rw [before.isRemembered, hkeep]
      unfold keptFor
      rw [← before.matched.request_keepAlive]
      exact .again remembered
  | new info entry model remembered before loadedFor after hremembered =>
      refine ⟨remembered, hremembered, ?_⟩
      have hm := after.matched
      obtain ⟨found, hfound, hcontext⟩ := loadedFor.context
      have hoptions := loadedFor.options
      have hkeep := loadedFor.keepAlive
      have hmodel : remembered.model = uri := by
        have := (hsound.remembered id remembered after.isRemembered).1
        rw [huri] at this
        injection this with this
        exact this.symm
      -- the four fields of what is remembered
      have hfields : remembered = { model := uri
                                    contextTokens := info.contextTokens
                                    options := info.options
                                    keepAliveMs := entry.keepAliveMs } := by
        rw [← hm.request_context, ← hm.request_options, ← hm.request_keepAlive,
          ← hmodel]
      rw [hfields]
      cases hprevious : s.models.remembered[id]? with
      | none =>
          rw [hprevious] at hcontext hoptions hkeep
          have hopts : info.options = [] := hoptions
          have hka : entry.keepAliveMs
              = if keepAlive < 0 then c.policy.keepAlive
                else keepAlive := hkeep
          rw [hcontext, hopts, hka, ite_neg_comm]
          exact .first found hfound
      | some p =>
          rw [hprevious] at hcontext hoptions hkeep
          obtain ⟨hpuri, htwo, hnonneg⟩ := h.remembered id p hprevious
          have hpmodel : p.model = uri := by
            rw [huri] at hpuri
            injection hpuri with hpuri
            exact hpuri.symm
          -- the request asks for nothing but the keep-alive
          have hmctx :
            (merged (some p) (acquireRequest uri keepAlive)).contextTokens
              = p.contextTokens := by simp [merged, acquireRequest]
          have hctx : info.contextTokens = p.contextTokens := by
            rw [show info.contextTokens = contextOf c
              (merged (some p) (acquireRequest uri keepAlive))
                found.record.manifest
              from hcontext]
            unfold contextOf
            rw [hmctx, if_pos (by omega)]
          have hopts : info.options = p.options := by
            rw [hoptions]
            simp [merged, acquireRequest]
          have hka : entry.keepAliveMs
              = if 0 ≤ keepAlive then keepAlive else p.keepAliveMs := by
            have hmerged : (merged (some p) { acquireRequest uri keepAlive with
                model := uri }).keepAliveMs
                = if 0 ≤ keepAlive then keepAlive else p.keepAliveMs :=
              ite_neg_comm keepAlive p.keepAliveMs
            rw [hkeep, hmerged]
            split <;> exact if_neg (by omega)
          rw [hctx, hopts, hka, ← hpmodel]
          exact .again p

/-- A checked request names its package by the URI that the
registry derives. -/
theorem requestChecks_ok {request : ModelLoadRequest}
    {place : QString × QString} (h : requestChecks c request = .ok place) :
    modelUri place.2 = .ok place.1 := by
  unfold requestChecks at h
  obtain ⟨uri, huri, h⟩ := bind_eq_ok.1 h
  obtain ⟨-, -, h⟩ := bind_eq_ok.1 h
  obtain ⟨id, hid, h⟩ := bind_eq_ok.1 h
  obtain ⟨-, -, h⟩ := bind_eq_ok.1 h
  obtain ⟨-, -, h⟩ := bind_eq_ok.1 h
  injection h with h
  obtain ⟨id', hid', hmodelUri⟩ := canonical_ok huri
  rw [hid] at hid'
  injection hid' with hid'
  rw [← h, hid', hmodelUri]

/-- A load that asks for no configuration fails in its checks, or it leaves
a mark in the trace. -/
theorem load_throws (h : s.Sound c held) (env : Env)
    (request : ModelLoadRequest)
    (hcontext : request.contextTokens = 0) (hoptions : request.options = []) :
    Exec.wp (load c env request)
      (fun _ _ => ∃ place, requestChecks c request = .ok place)
      (fun e s' => (requestChecks c request = .error e ∧ s' = s)
        ∨ Lost s.trace s') s := by
  rw [load_eq, Exec.wp_bind, Exec.wp_ofExcept]
  refine ⟨fun place hplace => ?_, fun e he => Or.inl ⟨he, rfl⟩⟩
  unfold loadChecked
  rw [Exec.wp_bind, Exec.wp_get]
  cases hloaded : s.models.loaded[place.2]? with
  | some existing =>
      obtain ⟨entry, model, remembered, hres⟩ := h.models.of_loaded hloaded
      obtain ⟨info, s', hrun, -⟩ := loadExisting_ok h hres
        ⟨Or.inl hcontext, Or.inl hoptions⟩ env
      exact Exec.wp_of_ok hrun ⟨place, hplace⟩
  | none =>
      show Exec.wp (tryCatch (loadNew c env place.2 place.1 request) _) _ _ s
      rw [Exec.wp_tryCatch]
      refine Exec.wp_mono (loadNew_spec h (requestChecks_ok hplace)
        hloaded request)
        (fun _ _ _ => ⟨place, hplace⟩) fun e u hred => ?_
      rw [Exec.wp_bind]
      refine Exec.wp_of_ok (log_apply _ u) (Or.inr ?_)
      obtain ⟨new, hnew, -⟩ := hred.evolved.grew
      exact ⟨new ++ [.loadFailed place.2], place.2,
        by rw [← List.append_assoc, ← hnew], by simp⟩

/-- The checks of a lease that do not look at the state. -/
def leaseChecks (c : Config) (id : QString) (keepAlive : Int) :
    Except Exn (QString × QString) := do
  let uri ← modelUri id
  requestChecks c (acquireRequest uri keepAlive)

/-- How a lease ends: its model is resident and remembered as before, or a
check has failed, or a load has. -/
theorem acquire_renews (h : s.Sound c held) (env : Env) (id : QString)
    (keepAlive : Int) :
    Exec.wp (acquire c env id keepAlive)
      (fun model s' => s'.Sound c (held.plus id) ∧ Evolved [.acquired id] s s'
        ∧ (∃ place, leaseChecks c id keepAlive = .ok place)
        ∧ ∃ uri info entry request, modelUri id = .ok uri
          ∧ s'.models.Resident c (held.plus id) id info entry model request
          ∧ s'.models.remembered = s.models.remembered.insert id request
          ∧ Renewed c env.probe uri keepAlive s.models.remembered[id]? request)
      (fun e s' => (leaseChecks c id keepAlive = .error e ∧ s' = s)
        ∨ Lost s.trace s') s := by
  cases huri : modelUri id with
  | error e =>
      refine Exec.wp_of_error (e := e) (t := s) ?_ (Or.inl ⟨?_, rfl⟩)
      · unfold acquire
        exact Exec.bind_apply_error (by rw [Exec.ofExcept_apply, huri])
      · unfold leaseChecks
        rw [huri]
        rfl
  | ok uri =>
      have hchecks : leaseChecks c id keepAlive
          = requestChecks c (acquireRequest uri keepAlive) := by
        unfold leaseChecks
        rw [huri]
        rfl
      rcases Exec.wp_cases (Exec.wp_and
        (load_spec h env (acquireRequest uri keepAlive))
        (load_throws h env (acquireRequest uri keepAlive) rfl rfl)) with
        ⟨loaded, t, hload, ⟨hsound, -, hev, id', uri', hchecked, hvia⟩, hplace⟩
        | ⟨e, t, hload, -, hcase⟩
      · obtain ⟨rfl, rfl⟩ := acquireRequest_checked huri hchecked
        obtain ⟨info, entry, model, remembered, hres, hkeep⟩ := hvia.resident
        obtain ⟨s', hrun, hsound', -, hev', ⟨entry', hres'⟩, hremembered, -⟩ :=
          acquire_of_load huri hload hsound hres hkeep
        obtain ⟨request, hrequest, hrenewed⟩ :=
          renewed_of_loaded h.models huri hsound.models hvia
        obtain rfl : remembered = request := by
          have hfind := hres.isRemembered
          rw [hrequest, Maps.find_insert_self] at hfind
          injection hfind with hfind
          exact hfind.symm
        exact Exec.wp_of_ok hrun
          ⟨hsound', hev.trans hev', by rw [hchecks]; exact hplace,
          uri', info, entry', remembered, rfl, hres',
            hremembered.trans hrequest,
          hrenewed⟩
      · refine Exec.wp_of_error (e := e) (t := t) ?_
          (by rw [hchecks]; exact hcase)
        unfold acquireRequest at hload
        unfold acquire
        rw [Exec.bind_apply_ok (show Exec.ofExcept (modelUri id) s
            = (.ok uri, s) by
          rw [Exec.ofExcept_apply, huri])]
        exact Exec.bind_apply_error hload

/-- A lease keeps a side. -/
theorem Side.leased {id uri : QString} {keepAlive : Int}
    {request : ModelLoadRequest} (h : Side c base held s)
    (hsound : t.Sound c (held.plus id)) (hev : Evolved [.acquired id] s t)
    (hremembered : t.models.remembered = s.models.remembered.insert id request)
    (hrenewed : Renewed c env.probe uri keepAlive
      s.models.remembered[id]? request) :
    Side c base (held.plus id) t := by
  refine h.evolved hsound hev fun k r hr => ?_
  rw [hremembered, Maps.find_insert]
  by_cases hk : id = k
  · subst hk
    rw [hr] at hrenewed
    cases hrenewed with
    | again => exact ⟨_, if_pos rfl⟩
  · exact ⟨r.keepAliveMs, by rw [if_neg hk, hr]⟩

/-- A failure inside the current step is a failure of the whole run. -/
theorem Side.lost (h : Side c base held s) (hlost : Lost s.trace t) :
    Lost base.trace t := by
  obtain ⟨old, hold⟩ := h.traced
  obtain ⟨new, id, hnew, hmem⟩ := hlost
  exact ⟨old ++ new, id, by rw [hnew, hold, List.append_assoc],
    List.mem_append_right _ hmem⟩

/-- A lease on both sides: it fails the same check on both, or a load fails,
or both have a model of one specification that behaves alike. -/
theorem Twin.acquire (hsteady : SteadyOutside c base.models.runtimes.runtimes)
    (h : Twin c base held s s') {env' : Env} (henv : env.Same env')
    (id : QString) (keepAlive : Int) :
    Exec.Twins (Lost base.trace) (acquire c env id keepAlive)
      (acquire c env' id keepAlive)
      (fun model model' t t' => Twin c base (held.plus id) t t'
        ∧ t.sessions = s.sessions
        ∧ model.spec.id = id ∧ model'.spec = model.spec
        ∧ model.runtime.Alike model'.runtime
        ∧ t.models.runtimes.models[id]? = some model
        ∧ t'.models.runtimes.models[id]? = some model')
      (fun _ t t' => Twin c base held t t' ∧ t = s ∧ t' = s') s s' := by
  rcases Exec.wp_cases (acquire_renews h.left.sound env id keepAlive) with
    ⟨model, t, hrun, hsound, hev, ⟨place, hplace⟩, uri, info, entry,
      request, huri,
      hres, hremembered, hrenewed⟩ | ⟨e, t, hrun, hcase⟩
  case inr =>
    rcases hcase with ⟨hchecks, rfl⟩ | hlost
    case inr => exact .lostLeft e t hrun (h.left.lost hlost)
    -- the right side makes the same check
    rcases Exec.wp_cases (acquire_renews h.right.sound env' id keepAlive) with
      ⟨model', t', hrun', -, -, ⟨place', hplace'⟩, -⟩ | ⟨e', t', hrun', hcase'⟩
    · rw [hchecks] at hplace'
      cases hplace'
    · rcases hcase' with ⟨hchecks', rfl⟩ | hlost'
      · rw [hchecks] at hchecks'
        injection hchecks' with heq
        subst heq
        exact .thrown e t t' hrun hrun' ⟨h, rfl, rfl⟩
      · exact .lostRight e' t' hrun' (h.right.lost hlost')
  rcases Exec.wp_cases (acquire_renews h.right.sound env' id keepAlive) with
    ⟨model', t', hrun', hsound', hev', -, uri', info', entry', request', huri',
      hres', hremembered', hrenewed'⟩ | ⟨e', t', hrun', hcase'⟩
  · -- what was remembered is the same, so what is remembered is
    obtain rfl : uri' = uri := by
      rw [huri] at huri'
      injection huri' with huri'
      exact huri'.symm
    rw [henv.probe, h.remembered] at hrenewed'
    obtain rfl := hrenewed.unique hrenewed'
    rw [h.remembered] at hremembered'
    have hrenewed₂ : Renewed c env.probe uri' keepAlive
        s'.models.remembered[id]? request' := by
      rw [h.remembered]
      exact hrenewed
    have htwin : Twin c base (held.plus id) t t' := by
      refine ⟨h.left.leased hsound hev hremembered hrenewed,
        h.right.leased hsound' hev' (by rw [h.remembered]; exact hremembered')
          hrenewed₂, ?_⟩
      unfold State.view
      rw [hev'.sessions, hev'.issued, hremembered', hev.sessions, hev.issued,
        hremembered, h.sessions, h.issued]
    obtain ⟨hspec, halike, -⟩ := htwin.models hsteady hres hres'
    exact .returned model model' t t' hrun hrun' ⟨htwin, hev.sessions,
      hres.matched.spec_id, hspec, halike, hres.hasModel, hres'.hasModel⟩
  · rcases hcase' with ⟨hchecks', rfl⟩ | hlost'
    · rw [hplace] at hchecks'
      cases hchecks'
    · exact .lostRight e' t' hrun' (h.right.lost hlost')

/-- A lease that is held is given back. -/
theorem Side.release {id : QString} (h : Side c base held s)
    (hheld : 0 < held id) (env : Env) :
    ∃ s', release c env id s = (.ok (), s') ∧ Side c base (held.minus id) s'
      ∧ s'.view = s.view := by
  obtain ⟨s', hrun, hsound, -, hev, hremembered, -⟩ :=
    release_spec h.sound hheld env
  refine ⟨s', hrun, h.evolved hsound hev fun k r hr =>
    ⟨r.keepAliveMs, by rw [hremembered, hr]⟩, ?_⟩
  unfold State.view
  rw [hev.sessions, hev.issued, hremembered]

/-- The lease of a task is given back on both sides, if there is one. -/
theorem Twin.giveBack {id : QString} (h : Twin c base (leaseOf id) s s')
    (env env' : Env) :
    ∃ t t', (if id ≠ [] then release c env id else pure ()) s = (.ok (), t)
      ∧ (if id ≠ [] then release c env' id else pure ()) s' = (.ok (), t')
      ∧ Twin c base noLease t t' ∧ t.view = s.view := by
  by_cases hid : id = []
  · subst hid
    rw [leaseOf_nil] at h
    exact ⟨s, s', rfl, rfl, h, rfl⟩
  · have hheld : 0 < leaseOf id id := by simp [leaseOf, hid]
    obtain ⟨t, hrun, hside, hview⟩ := h.left.release hheld env
    obtain ⟨t', hrun', hside', hview'⟩ := h.right.release hheld env'
    rw [leaseOf_minus hid] at hside hside'
    rw [if_pos hid, if_pos hid]
    exact ⟨t, t', hrun, hrun',
      ⟨hside, hside', by rw [hview', hview, h.view]⟩, hview⟩

-- =============================================================== references

/-- A reference is resolved on both sides; only whether the model is loaded
may differ. -/
theorem resolve_together {σ : Type} {R : σ → σ → Prop} {env' : Env}
    (henv : env.Same env') (m m' : ModelManager)
    (reference : QString) {x y : σ} (h : R x y) :
    Exec.Twins (fun _ => False) (Exec.ofExcept (resolve c env m reference))
      (Exec.ofExcept (resolve c env' m' reference))
      (fun a b x' y' => (resolve c env m reference = .ok a
        ∧ b.manifest = a.manifest) ∧ R x' y')
      (fun _ => R) x y := by
  have hresolve : ∀ (e : Env) (n : ModelManager), resolve c e n reference
      = (do
          let canonical ← c.registry.canonical reference
          let found ← c.catalog.resolve e.probe canonical
          return { found.record with
            loaded := decide (found.record.manifest.id ∈ n.loaded) }) :=
    fun _ _ => rfl
  cases hcanonical : c.registry.canonical reference with
  | error e =>
      have hfail : ∀ (e' : Env) (n : ModelManager),
          resolve c e' n reference = .error e := by
        intro e' n
        rw [hresolve, hcanonical]
        rfl
      rw [hfail, hfail]
      exact .thrown e x y rfl rfl h
  | ok uri =>
      cases hfound : c.catalog.resolve env.probe uri with
      | error e =>
          have hfail : ∀ (e' : Env) (n : ModelManager), e'.probe = env.probe →
              resolve c e' n reference = .error e := by
            intro e' n hprobe
            rw [hresolve, hcanonical, ok_bind, hprobe, hfound]
            rfl
          rw [hfail env m rfl, hfail env' m' henv.probe]
          exact .thrown e x y rfl rfl h
      | ok found =>
          have hok : ∀ (e' : Env) (n : ModelManager), e'.probe = env.probe →
              resolve c e' n reference = .ok { found.record with
                loaded := decide (found.record.manifest.id ∈ n.loaded) } := by
            intro e' n hprobe
            rw [hresolve, hcanonical, ok_bind, hprobe, hfound]
            rfl
          rw [hok env m rfl, hok env' m' henv.probe]
          exact .returned _ _ x y rfl rfl ⟨⟨rfl, rfl⟩, h⟩

-- ================================================================= sessions

/-- Creating a session depends on the session table and the number of issued
ids only, on which the runs agree. -/
theorem newSession_eq (c : Config) (modelId system : QString) (s : State) :
    newSession c modelId system s
      = match s.sessions.create c.maxSessions
        (c.uuid s.issued) modelId system with
        | .ok sessions => (.ok (c.uuid s.issued), { s with
            sessions
            issued := s.issued + 1
            trace := s.trace ++ [.sessionCreated (c.uuid s.issued) modelId] })
        | .error e => (.error e, s) := by
  unfold newSession
  rw [Exec.bind_apply_ok (Exec.get_apply s), Exec.bind_apply,
    Exec.ofExcept_apply]
  cases s.sessions.create c.maxSessions (c.uuid s.issued) modelId system
    <;> rfl

/-- A new session has the same id on both sides. -/
theorem Twin.newSession (hc : c.Honest) (h : Twin c base held s s')
    {modelId : QString} (hvalid : validId modelId = true) (system : QString) :
    Exec.Together (Twin c base held) (newSession c modelId system)
      (newSession c modelId system) s s' := by
  have hleft := newSession_eq c modelId system s
  have hright := newSession_eq c modelId system s'
  rw [h.sessions, h.issued] at hright
  cases hcreate : s.sessions.create c.maxSessions
      (c.uuid s.issued) modelId system with
  | error e =>
      rw [hcreate] at hleft hright
      exact .thrown e s s' hleft hright h
  | ok sessions =>
      rw [hcreate] at hleft hright
      have hstep := (Exec.wp_ok
        (newSession_spec hc h.left.sound hvalid system) hleft).1
      have hstep' :=
        (Exec.wp_ok (newSession_spec hc h.right.sound hvalid system) hright).1
      refine .returned _ _ _ _ hleft hright ⟨rfl, h.stepped hstep hstep' ?_⟩
      unfold State.view
      rw [h.remembered]

-- ================================================================ contexts

/-- What a task gets of an answer of `createContext`. -/
def created (answer : Except Exn (Option RuntimeContext)) :
    Except Exn RuntimeContext := do
  match ← answer with
  | none => .error (err .RuntimeFailure "Runtime returned a null context")
  | some context => return context

/-- Where contexts agree, either both runs get one and the two are alike, or
both get the same error. -/
theorem ContextsAgree.created {r r' : Except Exn (Option RuntimeContext)}
    (h : ContextsAgree r r') :
    (∃ x y, created r = .ok x ∧ created r' = .ok y ∧ x.Alike y)
      ∨ ∃ e, created r = .error e ∧ created r' = .error e := by
  cases h with
  | some x y h => exact Or.inl ⟨x, y, rfl, rfl, h⟩
  | none => exact Or.inr ⟨_, rfl, rfl⟩
  | error e => exact Or.inr ⟨e, rfl, rfl⟩

/-- The context of a key is what the runtime has created for it,
now or earlier. -/
theorem useContext_created (hc : c.Honest) (h : s.Sound c held) (env : Env)
    {key : QString} {model : LoadedModel}
    (hmodel : s.models.runtimes.models[model.spec.id]? = some model)
    (hkey : Keyed s key model.spec.id) :
    ∃ probe t, useContext c env key model s
        = (created (model.runtime.createContext probe), t)
      ∧ Stepped c held s t ∧ t.view = s.view := by
  obtain ⟨info, entry, request, hres⟩ := h.models.of_model hmodel
  have hthrown : Exec.wp (useContext c env key model) (fun _ _ => True)
      (fun e _ => created (model.runtime.createContext env.probe)
        = .error e) s := by
    unfold useContext
    rw [Exec.wp_bind]
    refine Exec.wp_of_ok (log_apply _ s) ?_
    rw [Exec.wp_zoom]
    unfold ContextCacheManager.acquire created
    rw [Exec.wp_bind, Exec.wp_get]
    dsimp only
    cases s.cache.entries[key]? with
    | some e => trivial
    | none =>
        show Exec.wp (Exec.ofExcept _ >>= _) _ _ s.cache
        rw [Exec.wp_bind, Exec.wp_ofExcept]
        refine ⟨fun _ _ => ?_, fun e he => ?_⟩
        · rw [Exec.wp_bind, Exec.wp_set, Exec.wp_bind, Exec.wp_ofExcept]
          refine ⟨fun answer hanswer => ?_, fun e he => by rw [he]; rfl⟩
          rw [hanswer]
          cases answer with
          | none => rfl
          | some context => trivial
        · -- a model that is loaded fits the cache
          have hfit := hres.matched.context_le
          unfold require at he
          rw [if_pos hfit] at he
          cases he
  have hview : ∀ t, Stepped c held s t → t.sessions = s.sessions →
      t.issued = s.issued → t.view = s.view := by
    intro t hstep hsessions hissued
    unfold State.view
    rw [hsessions, hissued, hstep.models]
  rcases Exec.wp_cases (Exec.wp_and (useContext_spec hc h hmodel hkey) hthrown)
      with
    ⟨context, t, hrun, ⟨hstep, hsessions, hissued, probe, hprobe⟩, -⟩
    | ⟨e, t, hrun, ⟨hstep, hsessions, hissued⟩, he⟩
  · exact ⟨probe, t, by rw [hrun, hprobe]; rfl, hstep,
      hview t hstep hsessions hissued⟩
  · exact ⟨env.probe, t, by rw [hrun, he], hstep,
      hview t hstep hsessions hissued⟩

/-- A context is asked for on both sides: they answer alike, whether they
were cached or are new. -/
theorem Twin.useContext (hc : c.Honest) (h : Twin c base held s s')
    (env env' : Env) {key : QString} {model model' : LoadedModel}
    (hspec : model'.spec = model.spec)
    (halike : model.runtime.Alike model'.runtime)
    (hmodel : s.models.runtimes.models[model.spec.id]? = some model)
    (hmodel' : s'.models.runtimes.models[model.spec.id]? = some model')
    (hkey : Keyed s key model.spec.id) :
    Exec.Twins (fun _ => False) (useContext c env key model)
      (useContext c env' key model')
      (fun x y t t' => Twin c base held t t' ∧ t.view = s.view ∧ x.Alike y)
      (fun _ t t' => Twin c base held t t' ∧ t.view = s.view) s s' := by
  have hkey' : Keyed s' key model'.spec.id := by
    unfold Keyed at hkey ⊢
    rwa [h.sessions, hspec]
  obtain ⟨p, t, hrun, hstep, hview⟩ :=
    useContext_created hc h.left.sound env hmodel hkey
  obtain ⟨q, t', hrun', hstep', hview'⟩ :=
    useContext_created hc h.right.sound env'
      (by rw [hspec]; exact hmodel') hkey'
  have htwin : Twin c base held t t' :=
    h.stepped hstep hstep' (by rw [hview', hview, h.view])
  rcases (halike.contexts p q).created with ⟨x, y, hx, hy, hxy⟩ | ⟨e, hx, hy⟩
  · exact .returned x y t t' (by rw [hrun, hx]) (by rw [hrun', hy])
      ⟨htwin, hview, hxy⟩
  · exact .thrown e t t' (by rw [hrun, hx]) (by rw [hrun', hy]) ⟨htwin, hview⟩

end LocalLLM
