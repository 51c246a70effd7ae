/-
The scheduler of the service (`service/Scheduler.cpp`): one worker, a queue
with a limit, and requests from any number of threads.

# Interleaving

A state is what the threads share, with the places at which they stand. The
parts under the mutex are single steps, and so is every read or write
outside it; `Action` says whose step it is. A call of `enqueue` takes two
steps when it is refused: the part under the mutex, and then its `reject`,
before which any other thread may move.

An item's `id` has no counterpart in the source. It counts the calls of
`enqueue` in the order of their parts under the mutex. The log lists what
has become of them.
-/
import LocalLLM.Core.Types
import LocalLLM.Lib.System

namespace LocalLLM

/-- `Scheduler::Item`, with the flag of its token. -/
structure SchedulerItem where
  id : Nat
  token : Nat
deriving DecidableEq

namespace Scheduler

/-- Where the worker stands in `loop`. -/
inductive Phase
  /-- Before the part under the mutex. -/
  | waiting
  /-- In the maintenance of a turn without an item. -/
  | idle
  /-- Past the mutex, before the check of the item's token. -/
  | holding (item : SchedulerItem)
  | running (item : SchedulerItem)
  | rejecting (item : SchedulerItem)
  /-- In the maintenance after an item. -/
  | maintaining
  /-- Past the loop, before `onExit_`. -/
  | leaving
  | left
deriving DecidableEq

inductive Event
  | queued (id : Nat)
  /-- `run()` is called. -/
  | started (id : Nat)
  /-- `run()` returns. -/
  | finished (id : Nat)
  | rejected (id : Nat) (error : Error)
  /-- `shutdown`, with the items queued then. -/
  | stopped (ids : List Nat)
  | exited
deriving DecidableEq

end Scheduler

structure Scheduler where
  queue : List SchedulerItem := []
  active : Option Nat := none
  stopping : Bool := false
  /-- The tokens whose flag is set. -/
  cancelled : List Nat := []
  worker : Scheduler.Phase := .waiting
  /-- The calls of `enqueue` so far. -/
  issued : Nat := 0
  /-- The calls of `enqueue` that are about to `reject`. -/
  refused : List (Nat × ErrorCode) := []
  log : List Scheduler.Event := []

namespace Scheduler

inductive Action
  | enqueue (token : Nat)
  /-- The `reject` of a refused call. -/
  | refuse (index : Nat)
  | cancel (token : Nat)
  | shutdown
  | work
deriving DecidableEq

/-- `enqueue`, under the mutex. -/
def enqueue (capacity : Nat) (token : Nat) (s : Scheduler) : Scheduler :=
  let called := { s with issued := s.issued + 1 }
  if s.stopping then
    { called with refused := s.refused ++ [(s.issued, .ShuttingDown)] }
  else if capacity ≤ s.queue.length then
    { called with refused := s.refused ++ [(s.issued, .QueueFull)] }
  else
    { called with
      queue := s.queue ++ [⟨s.issued, token⟩]
      log := s.log ++ [.queued s.issued] }

/-- `reject(Error(code, enumName(code)))`. -/
def refuse (index : Nat) (s : Scheduler) : Option Scheduler :=
  match s.refused[index]? with
  | some (id, code) => some { s with
      refused := s.refused.eraseIdx index
      log := s.log ++ [.rejected id ⟨code, code.enumName⟩] }
  | none => none

/-- `token.cancel()`. -/
def cancel (token : Nat) (s : Scheduler) : Scheduler :=
  { s with cancelled := token :: s.cancelled }

/-- `shutdown`, under the mutex. -/
def shutdown (s : Scheduler) : Scheduler :=
  { s with
    stopping := true
    cancelled := s.active.toList ++ s.queue.map SchedulerItem.token
      ++ s.cancelled
    log := s.log ++ [.stopped (s.queue.map SchedulerItem.id)] }

/-- What a cancelled item is rejected with. -/
def cancelledItem : Error :=
  ⟨.Cancelled, qs "Request cancelled before execution"⟩

/-- The part of `loop` under the mutex. -/
def take (s : Scheduler) : Scheduler :=
  match s.queue with
  | [] => if s.stopping then { s with worker := .leaving }
      else { s with worker := .idle }
  | item :: rest => { s with
      queue := rest
      active := some item.token
      worker := .holding item }

/-- The next step of `loop`. -/
def loop (s : Scheduler) : Option Scheduler :=
  match s.worker with
  | .waiting => some s.take
  | .idle => some { s with worker := .waiting }
  | .holding item =>
      if item.token ∈ s.cancelled
        then some { s with worker := .rejecting item }
      else some { s with
        worker := .running item
        log := s.log ++ [.started item.id] }
  | .running item => some { s with
      worker := .maintaining
      log := s.log ++ [.finished item.id] }
  | .rejecting item => some { s with
      worker := .maintaining
      log := s.log ++ [.rejected item.id cancelledItem] }
  | .maintaining => some { s with worker := .waiting }
  | .leaving => some { s with
      worker := .left
      log := s.log ++ [.exited] }
  | .left => none

def step (capacity : Nat) (s : Scheduler) : Action → Option Scheduler
  | .enqueue token => some (s.enqueue capacity token)
  | .refuse index => s.refuse index
  | .cancel token => some (s.cancel token)
  | .shutdown => some s.shutdown
  | .work => s.loop

end Scheduler

end LocalLLM
