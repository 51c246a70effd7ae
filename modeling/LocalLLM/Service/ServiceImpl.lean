/-
The service behind its scheduler (`Service::Impl`).

The calls of the service come from any number of threads. Each of them
enqueues an item, whose `run` is a task on the state that the worker alone
touches, and whose `reject` settles the future of the call without it.
Between items the worker maintains the models, and when it leaves it
destroys the state.

A state is that of the scheduler with the state of the service, the
requests of the items by their ids, and the futures that are settled. The
history is what the worker has performed; nothing reads it.

The calls that only look at the state, and those that change the models
directory, are not here.
-/
import LocalLLM.Lib.Serial
import LocalLLM.Service.Scheduler
import LocalLLM.Service.Service

namespace LocalLLM

/-- The calls that go through `submit`, whose item looks at its token once
more before it runs. -/
def Request.submitted : Request → Bool
  | .registerRuntime _ | .loadModel _ | .unloadModel _ | .removeModel _
  | .createSession _ _ | .resetSession _ | .closeSession _ => true
  | .chat _ _ _ | .complete _ _ _ | .converse _ _ _ | .embedText _ _
  | .measureConversation _ | .maintain => false

/-- What the `reject` of an item settles its future with. -/
def Request.rejection (error : Error) : Request → Except Exn Answer
  | .chat requestId request callback =>
      .ok (.settled (rejected requestId request.sessionId callback error))
  | .complete requestId _ callback =>
      .ok (.settled (rejected requestId [] callback error))
  | .converse requestId request callback =>
      .ok (.settled (rejected requestId request.contextId callback error))
  | _ => .error (.error error)

/-- `Service::Impl`. -/
structure ServiceImpl where
  scheduler : Scheduler := {}
  /-- `state`, which the exit hook resets. -/
  state : Option State := some {}
  /-- The requests of the calls of `enqueue`, in their order. -/
  requests : List Request := []
  /-- The futures, in the order in which they were settled. -/
  settled : List (Nat × Except Exn Answer) := []
  /-- What the worker has performed; maintenance has no key. -/
  history : List (Serial.Record (Option Nat) (Env × Request)
    (Except Exn Answer)) := []

namespace ServiceImpl

inductive Action
  /-- A call with its token. -/
  | call (token : Nat) (request : Request)
  | refuse (index : Nat)
  | cancel (token : Nat)
  /-- `~Impl`. -/
  | shutdown
  /-- A step of the worker, with what the outside answers to what it
  performs there. -/
  | work (env : Env)

/-- `options.maxQueuedRequests`. -/
def capacity (c : Config) : Nat := c.options.val.maxQueuedRequests.toInt.toNat

/-- A task of the worker, on what the outside answers. -/
def perform (c : Config) (input : Env × Request) (s : State) :
    Except Exn Answer × State :=
  serve c input.1 input.2 s

/-- The future of a call is settled. -/
def settle (id : Nat) (outcome : Except Exn Answer) (s : ServiceImpl) :
    ServiceImpl :=
  { s with settled := s.settled ++ [(id, outcome)] }

/-- The worker performs a task. -/
def performed (c : Config) (key : Option Nat) (input : Env × Request)
    (state : State) (s : ServiceImpl) : ServiceImpl :=
  let done := perform c input state
  { s with
    state := some done.2
    history := s.history ++ [⟨key, input, done.1⟩] }

/-- `run` of an item. -/
def runItem (c : Config) (env : Env) (item : SchedulerItem) (request : Request)
    (state : State) (s : ServiceImpl) : ServiceImpl :=
  if request.submitted = true ∧ item.token ∈ s.scheduler.cancelled then
    s.settle item.id (.error cancelledError)
  else
    (s.performed c (some item.id) (env, request) state).settle item.id
      (perform c (env, request) state).1

/-- What a step of the worker does besides its step in `loop`. -/
def worked (c : Config) (env : Env) (s : ServiceImpl) : Option ServiceImpl :=
  match s.scheduler.worker with
  | .running item =>
      match s.state, s.requests[item.id]? with
      | some state, some request => some (s.runItem c env item request state)
      | _, _ => none
  | .rejecting item =>
      match s.requests[item.id]? with
      | some request =>
          some (s.settle item.id (request.rejection Scheduler.cancelledItem))
      | none => none
  | .idle | .maintaining =>
      match s.state with
      | some state => some (s.performed c none (env, .maintain) state)
      | none => none
  | .leaving => some { s with state := none }
  | .waiting | .holding _ | .left => some s

/-- The `reject` of a refused call. -/
def refused (index : Nat) (s : ServiceImpl) : Option ServiceImpl :=
  match s.scheduler.refused[index]? with
  | some (id, code) =>
      match s.requests[id]? with
      | some request =>
          some (s.settle id (request.rejection ⟨code, code.enumName⟩))
      | none => none
  | none => none

def step (c : Config) (s : ServiceImpl) : Action → Option ServiceImpl
  | .call token request => some { s with
      scheduler := s.scheduler.enqueue (capacity c) token
      requests := s.requests ++ [request] }
  | .refuse index => do
      let scheduler ← s.scheduler.refuse index
      let s ← s.refused index
      return { s with scheduler }
  | .cancel token => some { s with scheduler := s.scheduler.cancel token }
  | .shutdown => some { s with scheduler := s.scheduler.shutdown }
  | .work env => do
      let scheduler ← s.scheduler.loop
      let s ← s.worked c env
      return { s with scheduler }

end ServiceImpl

end LocalLLM
