/-
How a model finds its device.

`load` walks over attempts: pairs of a runtime and a device it offers. Here
it is written once more with the manager as a state that is written in
place, inside the `try` block as in the source, and with a trace of the
loads that runtimes were asked for (`loadInPlace`). The two agree
(`loadInPlace_load`).

# The search

An attempt passes the turn on (`PassesOn`), loads (`Loads`) or ends the
search (`Ends`), and always one of the three (`attempt_cases`). So the
search runs over some attempts that pass the turn on, and then comes to one
that does not, or to none (`SearchEnds`).

# The order

Devices are tried in the order of the policy, each once; for one device the
runtimes that offer it are tried in the order of their ids
(`attempts_ordered`).
-/
import LocalLLM.Service.RuntimeManager
import LocalLLM.Proofs.Devices
import LocalLLM.Service.Service

namespace LocalLLM

open Std

namespace RuntimeManager

-- ========================================================= the load, in place

/-- The manager during a `load`, and the loads that runtimes were
asked for so far. -/
structure Loading where
  manager : RuntimeManager
  calls : List (QString × RuntimeDevice) := []

/-- The runtime's id and the device, as the trace has them. -/
def Attempt.pair (a : Attempt) : QString × RuntimeDevice := (a.id, a.device)

/-- `runtimes_.at(id)->load(model, device, token)`. -/
def Attempt.call (env : Env) (model : ModelSpec) (a : Attempt) :
    Exec Exn Loading (Option RuntimeModel) := do
  modify fun s => { s with calls := s.calls ++ [a.pair] }
  Exec.ofExcept (a.runtime.load env.probe model a.device)

/-- `models_.emplace`. -/
def emplace (m : RuntimeManager) (env : Env) (model : ModelSpec)
    (selection : ExecutionSelection) (loaded : RuntimeModel) :
    RuntimeManager :=
  { m with
    models := m.models.insertIfNew model.id
      ⟨model, selection, loaded, m.loads, env.probe⟩
    loads := m.loads + 1 }

/-- `ExecutionSelection{id, device, reason, failures}`. -/
def selected (a : Attempt) (failures : List QString) : ExecutionSelection :=
  ⟨a.id, a.device, reason a.device failures, failures⟩

/-- What `failures` records of an attempt. -/
def failureLine (a : Attempt) (e : Error) : QString :=
  a.id ++ qs "/" ++ a.device.backend.enumName ++ qs ": " ++ e.message

/-- The `try` block of an attempt. -/
def tryInPlace (env : Env) (model : ModelSpec) (failures : List QString)
    (i : Nat) (a : Attempt) : Exec Exn Loading ExecutionSelection := do
  let loaded ← a.call env model
  Exec.ofExcept (env.throwIfCancelled (.loaded i))
  match loaded with
  | none => throw (err .RuntimeFailure "Runtime returned a null model")
  | some loaded =>
      modify fun s => { s with
        manager := s.manager.emplace env model (selected a failures) loaded }
      return selected a failures

/-- What is thrown when no attempt is left. -/
def noDevice (failures : List QString) : Exn :=
  .error ⟨.RuntimeUnavailable, qs "No execution device could load the model: "
    ++ QString.join failures (qs "; ")⟩

/-- The inner loops of `load`. -/
def searchInPlace (env : Env) (model : ModelSpec) :
    Nat → List Attempt → List QString → Exec Exn Loading ExecutionSelection
  | _, [], failures => throw (noDevice failures)
  | i, a :: rest, failures => do
      Exec.ofExcept (env.throwIfCancelled (.attempt i))
      tryCatch (tryInPlace env model failures i a) fun
        | .error e => do
            Exec.ofExcept (env.throwIfCancelled (.failed i))
            if fallsBack a.device e then
              searchInPlace env model (i + 1) rest
                (failures ++ [failureLine a e])
            else throw (.error e)
        | x => throw x

/-- `load`. -/
def loadInPlace (c : Config) (env : Env) (model : ModelSpec) :
    Exec Exn Loading ExecutionSelection := do
  let s ← getThe Loading
  Exec.ofExcept (require (QString.trimmed model.id ≠ []
      ∧ QString.trimmed model.path ≠ [] ∧ 1 < model.contextTokens)
    .InvalidArgument "Model id, path and contextTokens > 1 are required")
  Exec.ofExcept (require (model.id ∉ s.manager.models) .AlreadyExists
    "Model already loaded")
  Exec.ofExcept (require (s.manager.models.size < c.maxModels) .ResourceLimit
    "Loaded model limit reached")
  Exec.ofExcept (require (∀ key ∈ reservedOptions,
      Json.contains model.options key = false) .InvalidArgument
    "Execution backend and device are selected by the service; remove model options overrides")
  let found ← Exec.ofExcept
    (candidates c.hardware env model 0 s.manager.runtimes.toList)
  Exec.ofExcept (require (found ≠ []
      ∨ c.fileExists env.probe model.path = true) .NotFound
    "Local model path not found")
  Exec.ofExcept (require (found ≠ []) .RuntimeUnavailable
    "No installed runtime supports this local model format")
  let ordered := orderExecutionDevices c.hardware
    (found.flatMap Candidate.devices)
  Exec.ofExcept (require (ordered ≠ []) .RuntimeUnavailable
    "No policy-compatible execution device is available for this model")
  searchInPlace env model 0 (attempts ordered found) []

-- ================================================= what comes of one attempt

/-- The error that an attempt fails with by itself: the runtime throws it,
or returns no model. -/
inductive Fails (env : Env) (model : ModelSpec) (i : Nat) (a : Attempt) :
    Error → Prop
  | thrown {e : Error} :
      a.runtime.load env.probe model a.device = .error (.error e) →
      Fails env model i a e
  | null : a.runtime.load env.probe model a.device = .ok none →
      env.cancelled (.loaded i) = false →
      Fails env model i a
        ⟨.RuntimeFailure, qs "Runtime returned a null model"⟩

/-- The codes of the errors that another device may not have. -/
def passing : List ErrorCode :=
  [.RuntimeUnavailable, .RuntimeFailure, .ResourceLimit]

/-- The attempt fails on a device other than the CPU, with an error that
another device may not have, and nobody has cancelled. -/
structure PassesOn (env : Env) (model : ModelSpec) (i : Nat) (a : Attempt)
    (e : Error) : Prop where
  before : env.cancelled (.attempt i) = false
  fails : Fails env model i a e
  after : env.cancelled (.failed i) = false
  device : a.device.backend ≠ .Cpu
  code : e.code ∈ passing

/-- The attempt returns a model, and nobody has cancelled. -/
structure Loads (env : Env) (model : ModelSpec) (i : Nat) (a : Attempt)
    (loaded : RuntimeModel) : Prop where
  before : env.cancelled (.attempt i) = false
  loads : a.runtime.load env.probe model a.device = .ok (some loaded)
  after : env.cancelled (.loaded i) = false

/-- The attempt ends the search: what is thrown, and whether the
runtime was asked. -/
inductive Ends (env : Env) (model : ModelSpec) (i : Nat) (a : Attempt) :
    Bool → Exn → Prop
  | cancelledBefore : env.cancelled (.attempt i) = true →
      Ends env model i a false cancelledError
  | cancelledLoading {r : Option RuntimeModel} :
      env.cancelled (.attempt i) = false →
      a.runtime.load env.probe model a.device = .ok r →
      env.cancelled (.loaded i) = true → Ends env model i a true cancelledError
  | cancelledFailing {e : Error} : env.cancelled (.attempt i) = false →
      Fails env model i a e → env.cancelled (.failed i) = true →
      Ends env model i a true cancelledError
  | refused {e : Error} : env.cancelled (.attempt i) = false →
      Fails env model i a e → env.cancelled (.failed i) = false →
      a.device.backend = .Cpu ∨ e.code ∉ passing →
      Ends env model i a true (.error e)
  | foreign {x : Exn} : env.cancelled (.attempt i) = false →
      a.runtime.load env.probe model a.device = .error x →
      (∀ e, x ≠ .error e) → Ends env model i a true x

theorem fallsBack_iff (device : RuntimeDevice) (e : Error) :
    fallsBack device e = true ↔ device.backend ≠ .Cpu ∧ e.code ∈ passing := by
  unfold fallsBack passing
  simp [or_assoc]

theorem fallsBack_false_iff (device : RuntimeDevice) (e : Error) :
    fallsBack device e = false ↔ device.backend = .Cpu ∨ e.code ∉ passing := by
  rw [← Bool.not_eq_true, fallsBack_iff]
  tauto

/-- An attempt passes the turn on, loads, or ends the search. Whether a failure
passes it on depends on the device and the code of the error. -/
theorem attempt_cases (env : Env) (model : ModelSpec) (i : Nat) (a : Attempt) :
    (∃ e, PassesOn env model i a e) ∨ (∃ loaded, Loads env model i a loaded)
      ∨ ∃ called x, Ends env model i a called x := by
  -- what follows a failure depends on the token and the error
  have hfails : env.cancelled (.attempt i) = false →
      ∀ e, Fails env model i a e → (∃ e, PassesOn env model i a e)
        ∨ ∃ called x, Ends env model i a called x := by
    intro hbefore e hfail
    cases hafter : env.cancelled (.failed i) with
    | true => exact Or.inr ⟨_, _, .cancelledFailing hbefore hfail hafter⟩
    | false =>
        cases hback : fallsBack a.device e with
        | true =>
            obtain ⟨hdevice, hcode⟩ := (fallsBack_iff _ _).1 hback
            exact Or.inl ⟨e, hbefore, hfail, hafter, hdevice, hcode⟩
        | false =>
            exact Or.inr ⟨_, _, .refused hbefore hfail hafter
              ((fallsBack_false_iff _ _).1 hback)⟩
  cases hbefore : env.cancelled (.attempt i) with
  | true => exact Or.inr (Or.inr ⟨_, _, .cancelledBefore hbefore⟩)
  | false =>
      cases hload : a.runtime.load env.probe model a.device with
      | error x =>
          by_cases herror : ∃ e, x = .error e
          · obtain ⟨e, rfl⟩ := herror
            rcases hfails hbefore e (.thrown hload) with hpass | hend
            · exact Or.inl hpass
            · exact Or.inr (Or.inr hend)
          · exact Or.inr (Or.inr ⟨_, _, .foreign hbefore hload
              fun e he => herror ⟨e, he⟩⟩)
      | ok r =>
          cases hloaded : env.cancelled (.loaded i) with
          | true =>
              exact Or.inr (Or.inr ⟨_, _,
                .cancelledLoading hbefore hload hloaded⟩)
          | false =>
              cases r with
              | some loaded =>
                  exact Or.inr (Or.inl ⟨loaded, hbefore, hload, hloaded⟩)
              | none =>
                  rcases hfails hbefore _ (.null hload hloaded)
                    with hpass | hend
                  · exact Or.inl hpass
                  · exact Or.inr (Or.inr hend)

-- ================================================================ the search

/-- A run of attempts that pass the turn on, from the `i`-th on, and what is
recorded of them. -/
inductive Passed (env : Env) (model : ModelSpec) :
    Nat → List Attempt → List QString → Prop
  | nil (i : Nat) : Passed env model i [] []
  | cons {i : Nat} {a : Attempt} {e : Error} {rest : List Attempt}
      {lines : List QString} : PassesOn env model i a e →
      Passed env model (i + 1) rest lines →
      Passed env model i (a :: rest) (failureLine a e :: lines)

theorem live_of {env : Env} {poll : Poll} (h : env.cancelled poll = false) :
    env.throwIfCancelled poll = .ok () := by
  unfold Env.throwIfCancelled
  rw [h]
  rfl

theorem cancelled_of {env : Env} {poll : Poll}
    (h : env.cancelled poll = true) :
    env.throwIfCancelled poll = .error cancelledError := by
  unfold Env.throwIfCancelled
  rw [h]
  rfl

section Search

variable {env : Env} {model : ModelSpec} {i : Nat} {a : Attempt}
  {rest : List Attempt} {failures : List QString} (s : Loading)

/-- Past the first check, an attempt is its `try` block and the handler. -/
theorem search_cons (hbefore : env.cancelled (.attempt i) = false) :
    searchInPlace env model i (a :: rest) failures s
      = tryCatch (tryInPlace env model failures i a) (fun
          | .error e => do
              Exec.ofExcept (env.throwIfCancelled (.failed i))
              if fallsBack a.device e then
                searchInPlace env model (i + 1) rest
                  (failures ++ [failureLine a e])
              else throw (.error e)
          | x => throw x) s := by
  show (Exec.ofExcept (env.throwIfCancelled (.attempt i)) >>= fun _ => _) s = _
  rw [live_of hbefore]
  rfl

/-- The `try` block after the runtime's answer. -/
theorem try_apply {r : Except Exn (Option RuntimeModel)}
    (hload : a.runtime.load env.probe model a.device = r) :
    tryInPlace env model failures i a s
      = (Exec.ofExcept r >>= fun loaded => do
          Exec.ofExcept (env.throwIfCancelled (.loaded i))
          match loaded with
          | none => throw (err .RuntimeFailure "Runtime returned a null model")
          | some loaded =>
              modify fun s => { s with
                manager :=
                  s.manager.emplace env model (selected a failures) loaded }
              return selected a failures : Exec Exn Loading ExecutionSelection)
        { s with calls := s.calls ++ [a.pair] } := by
  rw [← hload]
  rfl

theorem try_fails {e : Error} (h : Fails env model i a e) :
    tryInPlace env model failures i a s
      = (.error (.error e), { s with calls := s.calls ++ [a.pair] }) := by
  cases h with
  | thrown hload =>
      rw [try_apply s hload]
      rfl
  | null hload hloaded =>
      rw [try_apply s hload, Exec.bind_apply_ok (Exec.ofExcept_apply _ _),
        live_of hloaded]
      rfl

/-- An attempt that passes the turn on leaves its line and its call. -/
theorem search_passes {e : Error} (h : PassesOn env model i a e) :
    searchInPlace env model i (a :: rest) failures s
      = searchInPlace env model (i + 1) rest (failures ++ [failureLine a e])
          { s with calls := s.calls ++ [a.pair] } := by
  rw [search_cons s h.before, Exec.tryCatch_apply_error (try_fails s h.fails)]
  dsimp only
  rw [live_of h.after, if_pos ((fallsBack_iff _ _).2 ⟨h.device, h.code⟩)]
  rfl

/-- An attempt that loads puts its model into the manager. -/
theorem search_loads {loaded : RuntimeModel} (h : Loads env model i a loaded) :
    searchInPlace env model i (a :: rest) failures s
      = (.ok (selected a failures),
        ⟨s.manager.emplace env model (selected a failures) loaded,
          s.calls ++ [a.pair]⟩) := by
  rw [search_cons s h.before]
  apply Exec.tryCatch_apply_ok
  rw [try_apply s h.loads, Exec.bind_apply_ok (Exec.ofExcept_apply _ _),
    live_of h.after]
  rfl

/-- An attempt that ends the search leaves the manager alone, so an error of
the search changes nothing. -/
theorem search_ends {called : Bool} {x : Exn}
    (h : Ends env model i a called x) :
    searchInPlace env model i (a :: rest) failures s
      = (.error x,
        ⟨s.manager, s.calls ++ if called then [a.pair] else []⟩) := by
  cases h with
  | cancelledBefore hbefore =>
      show (Exec.ofExcept (env.throwIfCancelled (.attempt i)) >>= fun _ => _) s
        = _
      rw [cancelled_of hbefore, Exec.bind_apply_error
        (Exec.ofExcept_apply _ _)]
      simp
  | cancelledLoading hbefore hload hloaded =>
      have htry : tryInPlace env model failures i a s
          = (.error cancelledError,
            { s with calls := s.calls ++ [a.pair] }) := by
        rw [try_apply s hload, Exec.bind_apply_ok (Exec.ofExcept_apply _ _),
          cancelled_of hloaded]
        rfl
      rw [search_cons s hbefore, Exec.tryCatch_apply_error htry]
      unfold cancelledError err
      dsimp only
      -- the handler finds it cancelled too, or does not fall back on it
      cases hfailed : env.cancelled (.failed i) with
      | true =>
          rw [cancelled_of hfailed]
          rfl
      | false =>
          rw [live_of hfailed, if_neg]
          · rfl
          · rw [fallsBack_iff]
            simp [passing]
  | cancelledFailing hbefore hfail hafter =>
      rw [search_cons s hbefore, Exec.tryCatch_apply_error (try_fails s hfail)]
      dsimp only
      rw [cancelled_of hafter]
      rfl
  | refused hbefore hfail hafter hends =>
      rw [search_cons s hbefore, Exec.tryCatch_apply_error (try_fails s hfail)]
      dsimp only
      rw [live_of hafter, (fallsBack_false_iff _ _).2 hends]
      rfl
  | foreign hbefore hload hforeign =>
      have htry : tryInPlace env model failures i a s
          = (.error x, { s with calls := s.calls ++ [a.pair] }) := by
        rw [try_apply s hload]
        rfl
      rw [search_cons s hbefore, Exec.tryCatch_apply_error htry]
      cases x with
      | error e => exact absurd rfl (hforeign e)
      | _ => rfl

/-- The search passes over attempts that pass the turn on. -/
theorem search_passed {passed : List Attempt} {lines : List QString}
    (h : Passed env model i passed lines) :
    ∀ (failures : List QString) (s : Loading),
    searchInPlace env model i (passed ++ rest) failures s
      = searchInPlace env model (i + passed.length) rest (failures ++ lines)
          ⟨s.manager, s.calls ++ passed.map Attempt.pair⟩ := by
  induction h with
  | nil i =>
      intro failures s
      simp
  | @cons i a e rest' lines hpass _ ih =>
      intro failures s
      show searchInPlace env model i (a :: (rest' ++ rest)) failures s = _
      rw [search_passes s hpass, ih]
      simp [Nat.add_assoc, Nat.add_comm 1]

/-- Attempts that pass the turn on, and then one that does not, or none. -/
theorem exists_passed (env : Env) (model : ModelSpec) :
    ∀ (l : List Attempt) (i : Nat), ∃ passed lines rest,
      l = passed ++ rest ∧ Passed env model i passed lines
        ∧ (rest = [] ∨ ∃ a more, rest = a :: more
          ∧ ((∃ loaded, Loads env model (i + passed.length) a loaded)
            ∨ ∃ called x, Ends env model (i + passed.length) a called x)) := by
  intro l
  induction l with
  | nil => exact fun i => ⟨[], [], [], rfl, .nil i, Or.inl rfl⟩
  | cons a l ih =>
      intro i
      rcases attempt_cases env model i a with ⟨e, hpass⟩ | hstop
      · obtain ⟨passed, lines, rest, heq, hpassed, hrest⟩ := ih (i + 1)
        refine ⟨a :: passed, failureLine a e :: lines, rest, by rw [heq]; rfl,
          .cons hpass hpassed, ?_⟩
        rw [List.length_cons, show i + (passed.length + 1)
          = i + 1 + passed.length by omega]
        exact hrest
      · exact ⟨[], [], a :: l, rfl, .nil i, Or.inr ⟨a, l, rfl, hstop⟩⟩

end Search

/-- How a search over `tried` ends that starts with the manager `m`: with
which outcome, manager and calls. -/
inductive SearchEnds (env : Env) (model : ModelSpec) (m : RuntimeManager)
    (tried : List Attempt) : Except Exn ExecutionSelection → Loading → Prop
  | loaded {passed : List Attempt} {lines : List QString} {a : Attempt}
      {rest : List Attempt} {loaded : RuntimeModel} :
      tried = passed ++ a :: rest → Passed env model 0 passed lines →
      Loads env model passed.length a loaded →
      SearchEnds env model m tried (.ok (selected a lines))
        ⟨m.emplace env model (selected a lines) loaded,
          (passed ++ [a]).map Attempt.pair⟩
  | ended {passed : List Attempt} {lines : List QString} {a : Attempt}
      {rest : List Attempt} {called : Bool} {x : Exn} :
      tried = passed ++ a :: rest → Passed env model 0 passed lines →
      Ends env model passed.length a called x →
      SearchEnds env model m tried (.error x)
        ⟨m, (passed ++ if called then [a] else []).map Attempt.pair⟩
  | exhausted {lines : List QString} : Passed env model 0 tried lines →
      SearchEnds env model m tried (.error (noDevice lines))
        ⟨m, tried.map Attempt.pair⟩

/-- The search ends as `SearchEnds` says, and no other way. It is an
equivalence, since the search is a function of its attempts. -/
theorem search_iff {env : Env} {model : ModelSpec} {m : RuntimeManager}
    {tried : List Attempt} {r : Except Exn ExecutionSelection} {s' : Loading} :
    searchInPlace env model 0 tried [] ⟨m, []⟩ = (r, s')
      ↔ SearchEnds env model m tried r s' := by
  have hsound : ∀ r s', SearchEnds env model m tried r s' →
      searchInPlace env model 0 tried [] ⟨m, []⟩ = (r, s') := by
    intro r s' h
    cases h with
    | loaded heq hpassed hloads =>
        rw [heq, search_passed hpassed, Nat.zero_add, search_loads _ hloads]
        simp
    | @ended passed lines a rest called x heq hpassed hends =>
        rw [heq, search_passed hpassed, Nat.zero_add, search_ends _ hends]
        cases called <;> simp
    | exhausted hpassed =>
        have h := @search_passed env model 0 [] tried _ hpassed [] ⟨m, []⟩
        rw [List.append_nil] at h
        rw [h]
        rfl
  refine ⟨fun h => ?_, hsound r s'⟩
  -- the search ends in one of the ways, so in the one it ends in
  obtain ⟨passed, lines, rest, heq, hpassed, hrest⟩ :=
    exists_passed env model tried 0
  rw [Nat.zero_add] at hrest
  have hends : ∃ r s', SearchEnds env model m tried r s' := by
    rcases hrest with hnil | ⟨a, more, hmore,
      ⟨loaded, hload⟩ | ⟨called, x, hend⟩⟩
    · rw [hnil, List.append_nil] at heq
      rw [heq]
      exact ⟨_, _, .exhausted hpassed⟩
    · rw [hmore] at heq
      exact ⟨_, _, .loaded heq hpassed hload⟩
    · rw [hmore] at heq
      exact ⟨_, _, .ended heq hpassed hend⟩
  obtain ⟨r₁, s₁, hends⟩ := hends
  have hsame := (hsound _ _ hends).symm.trans h
  injection hsame with hr hs
  rw [← hr, ← hs]
  exact hends

/-- A search that throws has left the manager alone. -/
theorem search_throws {env : Env} {model : ModelSpec} {m : RuntimeManager}
    {tried : List Attempt} {x : Exn} {s' : Loading}
    (h : searchInPlace env model 0 tried [] ⟨m, []⟩ = (.error x, s')) :
    s'.manager = m := by
  cases search_iff.1 h <;> rfl

-- ========================================================== the load in place

/-- A spec that passes the checks made before the runtimes are asked. -/
structure Loadable (c : Config) (m : RuntimeManager) (model : ModelSpec) :
    Prop where
  named : QString.trimmed model.id ≠ [] ∧ QString.trimmed model.path ≠ []
    ∧ 1 < model.contextTokens
  new : model.id ∉ m.models
  room : m.models.size < c.maxModels
  options : ∀ key ∈ reservedOptions, Json.contains model.options key = false

/-- Past its checks, `load` is the search. -/
theorem loadInPlace_search {c : Config} {env : Env} {m : RuntimeManager}
    {model : ModelSpec} {found : List Candidate} (hok : Loadable c m model)
    (hfound : candidates c.hardware env model 0 m.runtimes.toList = .ok found)
    (hsome : found ≠ [])
    (hordered : orderExecutionDevices c.hardware
      (found.flatMap Candidate.devices) ≠ []) :
    loadInPlace c env model ⟨m, []⟩
      = searchInPlace env model 0 (attempts (orderExecutionDevices c.hardware
          (found.flatMap Candidate.devices)) found) [] ⟨m, []⟩ := by
  unfold loadInPlace require
  have hget : (getThe Loading : Exec Exn Loading Loading) ⟨m, []⟩
      = (.ok ⟨m, []⟩, ⟨m, []⟩) := rfl
  rw [Exec.bind_apply_ok hget, if_pos hok.named, Exec.bind_apply_ok
    (Exec.ofExcept_apply _ _),
    if_pos hok.new, Exec.bind_apply_ok (Exec.ofExcept_apply _ _),
    if_pos hok.room, Exec.bind_apply_ok (Exec.ofExcept_apply _ _),
    if_pos hok.options, Exec.bind_apply_ok (Exec.ofExcept_apply _ _),
    hfound, Exec.bind_apply_ok (Exec.ofExcept_apply _ _),
    if_pos (Or.inl hsome), Exec.bind_apply_ok (Exec.ofExcept_apply _ _),
    if_pos hsome, Exec.bind_apply_ok (Exec.ofExcept_apply _ _),
    if_pos hordered, Exec.bind_apply_ok (Exec.ofExcept_apply _ _)]

/-- A load that throws has left the manager alone. -/
theorem loadInPlace_throws {c : Config} {env : Env} {m : RuntimeManager}
    {model : ModelSpec} :
    Exec.wp (loadInPlace c env model) (fun _ _ => True)
      (fun _ s' => s'.manager = m) ⟨m, []⟩ := by
  unfold loadInPlace
  -- every check leaves the state alone
  have hcheck : ∀ {α : Type} (r : Except Exn α)
      (next : α → Exec Exn Loading ExecutionSelection),
      (∀ a, Exec.wp (next a) (fun _ _ => True) (fun _ s' => s'.manager = m)
        ⟨m, []⟩) →
      Exec.wp (Exec.ofExcept r >>= next) (fun _ _ => True)
        (fun _ s' => s'.manager = m) ⟨m, []⟩ := by
    intro α r next hnext
    rw [Exec.wp_bind, Exec.wp_ofExcept]
    exact ⟨fun a _ => hnext a, fun _ _ => rfl⟩
  rw [Exec.wp_bind]
  refine hcheck _ _ fun _ => hcheck _ _ fun _ => hcheck _ _ fun _ =>
    hcheck _ _ fun _ => hcheck _ _ fun found => hcheck _ _ fun _ =>
    hcheck _ _ fun _ => hcheck _ _ fun _ => ?_
  refine Exec.wp_mono (Exec.wp_self _ _) (fun _ _ _ => trivial) ?_
  intro x s' h
  exact search_throws h

-- ================================================================= the order

/-- The supporting runtimes with the devices they report, each runtime at most
once and in the order of the table. -/
theorem mem_candidates {hardware : HardwareInfo} {env : Env}
    {model : ModelSpec} :
    ∀ (l : List (QString × Runtime)) (i : Nat) (found : List Candidate),
    candidates hardware env model i l = .ok found →
    (∀ k, k ∈ found ↔ (k.id, k.runtime) ∈ l
        ∧ k.runtime.supportsModel env.probe model = true
        ∧ k.runtime.devices env.probe hardware = .ok k.devices)
      ∧ (found.map Candidate.id).Sublist (l.map Prod.fst) := by
  intro l
  induction l with
  | nil =>
      intro i found h
      injection h with h
      subst h
      exact ⟨fun k => by simp, .slnil⟩
  | cons r rest ih =>
      obtain ⟨id, runtime⟩ := r
      intro i found h
      unfold candidates at h
      obtain ⟨-, -, h⟩ := bind_eq_ok.1 h
      by_cases hsup : runtime.supportsModel env.probe model = true
      · rw [if_pos hsup] at h
        obtain ⟨devices, hdevices, h⟩ := bind_eq_ok.1 h
        obtain ⟨others, hothers, h⟩ := bind_eq_ok.1 h
        injection h with h
        subst h
        obtain ⟨hmem, hsub⟩ := ih _ _ hothers
        refine ⟨fun k => ?_, hsub.cons_cons id⟩
        rw [List.mem_cons, List.mem_cons, hmem]
        constructor
        · rintro (rfl | ⟨hin, hk⟩)
          · exact ⟨Or.inl rfl, hsup, hdevices⟩
          · exact ⟨Or.inr hin, hk⟩
        · rintro ⟨heq | hin, hk⟩
          · left
            injection heq with hid hruntime
            obtain ⟨kid, kruntime, kdevices⟩ := k
            dsimp only at hid hruntime hk
            subst hid hruntime
            rw [hdevices] at hk
            injection hk.2 with hk
            rw [hk]
          · exact Or.inr ⟨hin, hk⟩
      · rw [if_neg hsup] at h
        obtain ⟨hmem, hsub⟩ := ih _ _ h
        refine ⟨fun k => ?_, hsub.cons id⟩
        rw [hmem, List.mem_cons]
        constructor
        · intro h
          exact ⟨Or.inr h.1, h.2⟩
        · rintro ⟨heq | hin, hk⟩
          · injection heq with _ hruntime
            rw [hruntime] at hk
            exact absurd hk.1 hsup
          · exact ⟨hin, hk⟩

/-- `a` is tried before `b`: the policy prefers its device, or the device is
the same and the runtime's id is less. -/
def Before (ordered : List RuntimeDevice) (a b : Attempt) : Prop :=
  ordered.idxOf a.device < ordered.idxOf b.device
    ∨ a.device = b.device ∧ compare a.id b.id = .lt

/-- The attempts are the supporting runtimes with the devices they report
and the policy admits, device by device and runtime by runtime. -/
theorem attempts_ordered {hardware : HardwareInfo} {env : Env}
    {m : RuntimeManager} {model : ModelSpec} {found : List Candidate}
    (hfound : candidates hardware env model 0 m.runtimes.toList = .ok found)
    {ordered : List RuntimeDevice} (hordered : ordered.Nodup) :
    (attempts ordered found).Pairwise (Before ordered)
      ∧ ∀ a, a ∈ attempts ordered found
        ↔ a.device ∈ ordered ∧ m.runtimes[a.id]? = some a.runtime
          ∧ a.runtime.supportsModel env.probe model = true
          ∧ ∃ devices, a.runtime.devices env.probe hardware = .ok devices
            ∧ a.device ∈ devices := by
  obtain ⟨hmem, hsub⟩ := mem_candidates _ _ _ hfound
  have hids : found.Pairwise fun k k' => compare k.id k'.id = .lt := by
    have hkeys : (m.runtimes.toList.map Prod.fst).Pairwise
        fun id id' => compare id id' = .lt :=
      List.pairwise_map.2 ExtTreeMap.ordered_keys_toList
    exact List.pairwise_map.1 (hkeys.sublist hsub)
  unfold attempts
  constructor
  · rw [List.pairwise_flatMap]
    constructor
    · intro device _
      rw [List.pairwise_map]
      refine (hids.filter _).imp ?_
      intro k k' hlt
      exact Or.inr ⟨rfl, hlt⟩
    · rw [List.pairwise_iff_getElem]
      intro i j hi hj hij a ha b hb
      obtain ⟨k, -, rfl⟩ := List.mem_map.1 ha
      obtain ⟨k', -, rfl⟩ := List.mem_map.1 hb
      left
      show ordered.idxOf ordered[i] < ordered.idxOf ordered[j]
      rw [hordered.idxOf_getElem, hordered.idxOf_getElem]
      exact hij
  · intro a
    simp only [List.mem_flatMap, List.mem_map, List.mem_filter,
      List.contains_iff_mem]
    constructor
    · rintro ⟨device, hdevice, k, ⟨hk, hoffer⟩, rfl⟩
      obtain ⟨hin, hsup, hreport⟩ := (hmem k).1 hk
      exact ⟨hdevice, ExtTreeMap.mem_toList_iff_getElem?_eq_some.1 hin, hsup,
        k.devices, hreport, hoffer⟩
    · rintro ⟨hdevice, hin, hsup, devices, hreport, hoffer⟩
      exact ⟨a.device, hdevice, ⟨a.id, a.runtime, devices⟩,
        ⟨(hmem _).2 ⟨ExtTreeMap.mem_toList_iff_getElem?_eq_some.2 hin, hsup,
          hreport⟩, hoffer⟩, rfl⟩

-- =============================================== the load as a pure function

theorem try_tryLoad (env : Env) (model : ModelSpec) (failures : List QString)
    (i : Nat) (a : Attempt) (s : Loading) :
    tryInPlace env model failures i a s
      = match tryLoad env model i a with
        | .ok loaded => (.ok (selected a failures),
            ⟨s.manager.emplace env model (selected a failures) loaded,
              s.calls ++ [a.pair]⟩)
        | .error x => (.error x, ⟨s.manager, s.calls ++ [a.pair]⟩) := by
  rw [try_apply s rfl]
  unfold tryLoad
  cases a.runtime.load env.probe model a.device with
  | error x => rfl
  | ok r =>
      rw [Exec.bind_apply_ok (Exec.ofExcept_apply _ _), ok_bind]
      cases env.throwIfCancelled (.loaded i) with
      | error x => rfl
      | ok _ => cases r <;> rfl

/-- The search in place and the pure one come to the same. -/
theorem search_loadFirst (env : Env) (model : ModelSpec) :
    ∀ (l : List Attempt) (i : Nat) (failures : List QString) (s : Loading),
    (searchInPlace env model i l failures s).1
        = (loadFirst env model i l failures).map Prod.snd
      ∧ (searchInPlace env model i l failures s).2.manager
        = match loadFirst env model i l failures with
          | .ok (loaded, selection) =>
              s.manager.emplace env model selection loaded
          | .error _ => s.manager := by
  intro l
  induction l with
  | nil => exact fun i failures s => ⟨rfl, rfl⟩
  | cons a rest ih =>
      intro i failures s
      unfold loadFirst
      cases hbefore : env.cancelled (.attempt i) with
      | true =>
          rw [search_ends s (.cancelledBefore hbefore), cancelled_of hbefore]
          exact ⟨rfl, rfl⟩
      | false =>
          rw [search_cons s hbefore, live_of hbefore, ok_bind]
          have htry := try_tryLoad env model failures i a s
          cases hload : tryLoad env model i a with
          | ok loaded =>
              rw [hload] at htry
              rw [Exec.tryCatch_apply_ok htry]
              exact ⟨rfl, rfl⟩
          | error x =>
              rw [hload] at htry
              rw [Exec.tryCatch_apply_error htry]
              cases x with
              | error e =>
                  dsimp only
                  cases env.throwIfCancelled (.failed i) with
                  | error x => exact ⟨rfl, rfl⟩
                  | ok _ =>
                      rw [Exec.bind_apply_ok
                        (Exec.ofExcept_apply _ _), ok_bind]
                      by_cases hback : fallsBack a.device e = true
                      · rw [if_pos hback, if_pos hback]
                        exact ih _ _ _
                      · rw [if_neg hback, if_neg hback]
                        exact ⟨rfl, rfl⟩
              | _ => exact ⟨rfl, rfl⟩

/-- From the manager `m`, a load in place and a pure one come to the same. -/
def Agree (m : RuntimeManager) (x : Exec Exn Loading ExecutionSelection)
    (y : Except Exn (RuntimeManager × ExecutionSelection)) : Prop :=
  (x ⟨m, []⟩).1 = y.map Prod.snd
    ∧ (x ⟨m, []⟩).2.manager = match y with
      | .ok (m', _) => m'
      | .error _ => m

theorem Agree.bind {m : RuntimeManager} {α : Type} {r : Except Exn α}
    {next : α → Exec Exn Loading ExecutionSelection}
    {next' : α → Except Exn (RuntimeManager × ExecutionSelection)}
    (h : ∀ a, r = .ok a → Agree m (next a) (next' a)) :
    Agree m (Exec.ofExcept r >>= next) (r >>= next') := by
  cases hr : r with
  | error x => exact ⟨rfl, rfl⟩
  | ok a => exact h a hr

/-- The load in place is `load`: the same outcome, and the manager that
`load` returns, or the old one. -/
theorem loadInPlace_load (c : Config) (env : Env) (m : RuntimeManager)
    (model : ModelSpec) :
    Agree m (loadInPlace c env model) (m.load c env model) := by
  unfold load
  show Agree m (Exec.ofExcept _ >>= _) _
  refine Agree.bind fun _ _ => Agree.bind fun _ hnew => Agree.bind fun _ _ =>
    Agree.bind fun _ _ => Agree.bind fun found _ => Agree.bind fun _ _ =>
    Agree.bind fun _ _ => Agree.bind fun _ _ => ?_
  rw [require_eq_ok, Maps.not_mem_iff_find] at hnew
  obtain ⟨houtcome, hmanager⟩ := search_loadFirst env model
    (attempts (orderExecutionDevices c.hardware
      (found.flatMap Candidate.devices)) found) 0 [] ⟨m, []⟩
  unfold Agree
  rw [houtcome, hmanager]
  cases loadFirst env model 0 (attempts (orderExecutionDevices c.hardware
      (found.flatMap Candidate.devices)) found) [] with
  | error x => exact ⟨rfl, rfl⟩
  | ok p =>
      refine ⟨rfl, ?_⟩
      show m.emplace env model p.2 p.1 = _
      unfold emplace
      rw [Maps.insertIfNew_of_none _ _ hnew]
      rfl

-- =============================================================== the fallback

/-- A `load` that throws leaves the loaded models as they were. One that
passes its checks tries the runtimes that support the model with the devices
they report, in the order of the policy and then of the ids, and ends with
the first attempt that does not pass the turn on. -/
theorem load_falls_back (c : Config) (env : Env) (m : RuntimeManager)
    (model : ModelSpec) :
    (∀ x s', loadInPlace c env model ⟨m, []⟩ = (.error x, s') → s'.manager = m)
      ∧ ∀ found, Loadable c m model →
        candidates c.hardware env model 0 m.runtimes.toList = .ok found →
        found ≠ [] →
        ∀ ordered, ordered = orderExecutionDevices c.hardware
          (found.flatMap Candidate.devices) → ordered ≠ [] →
        (∀ r s', loadInPlace c env model ⟨m, []⟩ = (r, s')
            ↔ SearchEnds env model m (attempts ordered found) r s')
          ∧ (attempts ordered found).Pairwise (Before ordered)
          ∧ ∀ a, a ∈ attempts ordered found
            ↔ a.device ∈ ordered ∧ m.runtimes[a.id]? = some a.runtime
              ∧ a.runtime.supportsModel env.probe model = true
              ∧ ∃ devices, a.runtime.devices env.probe c.hardware = .ok devices
                ∧ a.device ∈ devices := by
  constructor
  · intro x s' h
    have hsame := Exec.wp_error (@loadInPlace_throws c env m model) h
    exact hsame
  · intro found hok hfound hsome ordered heq hordered
    subst heq
    refine ⟨fun r s' => ?_, attempts_ordered hfound
      (Devices.orderExecutionDevices_nodup _ _)⟩
    rw [loadInPlace_search hok hfound hsome hordered]
    exact search_iff

end RuntimeManager

-- =================================================================== a sample

namespace Sample

/-- A machine with one Vulkan device. -/
def vulkan : HardwareInfo :=
  { gpus := [{ id := qs "g", vendor := .Amd, availableBackends := [.Vulkan] }]
    vulkanAvailable := true }

/-- A runtime that fails on every device but the CPU. -/
def flaky : Runtime :=
  { runtime with
    devices := fun _ _ => .ok [{}, ⟨.Vulkan, qs "g"⟩]
    load := fun _ _ device =>
      if device.backend = .Cpu then .ok (some model)
      else .error (err .RuntimeFailure "lost") }

def flakyManager : RuntimeManager :=
  { runtimes := (∅ : ExtTreeMap QString Runtime).insert (qs "sample") flaky }

def spec : ModelSpec :=
  { id := qs "tiny", path := qs "tiny.gguf", contextTokens := 5 }

/-- The attempt on the Vulkan device, and the one on the CPU. -/
def flakyAttempt (device : RuntimeDevice) : RuntimeManager.Attempt :=
  ⟨qs "sample", flaky, device⟩

theorem flaky_passed :
    RuntimeManager.Passed {} spec 0 [flakyAttempt ⟨.Vulkan, qs "g"⟩]
      [qs "sample/vulkan: lost"] := by
  have hpass : RuntimeManager.PassesOn {} spec 0
      (flakyAttempt ⟨.Vulkan, qs "g"⟩) ⟨.RuntimeFailure, qs "lost"⟩ :=
    { before := rfl
      fails := .thrown rfl
      after := rfl
      device := by decide
      code := by decide }
  exact .cons hpass (.nil _)

end Sample

/-- The sample runtime fails on the Vulkan device and loads on the CPU. -/
theorem load_falls_back_flaky :
    RuntimeManager.loadInPlace { Sample.config with hardware := Sample.vulkan }
        {} Sample.spec ⟨Sample.flakyManager, []⟩
      = (.ok (RuntimeManager.selected (Sample.flakyAttempt {})
          [qs "sample/vulkan: lost"]),
        ⟨Sample.flakyManager.emplace {} Sample.spec
            (RuntimeManager.selected (Sample.flakyAttempt {})
              [qs "sample/vulkan: lost"]) Sample.model,
          [(qs "sample", ⟨.Vulkan, qs "g"⟩), (qs "sample", {})]⟩) :=
  (((RuntimeManager.load_falls_back
      { Sample.config with hardware := Sample.vulkan } {} Sample.flakyManager
      Sample.spec).2 [⟨qs "sample", Sample.flaky, [{}, ⟨.Vulkan, qs "g"⟩]⟩]
    ⟨by decide, ExtTreeMap.not_mem_empty, by decide, by decide⟩ rfl
    (List.cons_ne_nil _ _) [⟨.Vulkan, qs "g"⟩, {}] (by decide +kernel)
    (List.cons_ne_nil _ _)).1 _ _).2
    (@RuntimeManager.SearchEnds.loaded {} Sample.spec Sample.flakyManager _
      [Sample.flakyAttempt ⟨.Vulkan, qs "g"⟩] _ (Sample.flakyAttempt {}) []
      Sample.model rfl Sample.flaky_passed ⟨rfl, rfl, rfl⟩)

end LocalLLM
