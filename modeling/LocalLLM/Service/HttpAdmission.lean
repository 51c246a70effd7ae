/-
Which requests the HTTP server works on (`service/HttpApiServer.cpp`,
`admit`).

A response of `/v1/models`, `/v1/chat/completions` or `/v1/rpc` holds a
lease from its admission until it is destroyed, and the leases of work and
of control methods are counted apart. The server has one thread for each
lease there can be, and four more, which parse and reject requests and
serve `/health`.

Every thread of the pool serves one request at a time: a thread without a
lease is `free`, whatever else it does.
-/
import LocalLLM.Core.Types
import LocalLLM.Lib.Slots

namespace LocalLLM

/-- The thread limits of the `HttpOptions` that the constructor accepts. -/
structure HttpThreads where
  workerThreads : Int
  maxControlRequests : Int
  work_ok : 1 ≤ workerThreads ∧ workerThreads ≤ 64
  control_ok : 1 ≤ maxControlRequests ∧ maxControlRequests ≤ 16

/-- `control`. -/
inductive HttpLease
  | work
  | control
deriving DecidableEq

/-- Both. -/
theorem HttpLease.mem_all (kind : HttpLease) :
    kind ∈ ({.work, .control} : Finset HttpLease) := by
  cases kind <;> simp

instance : Fintype HttpLease := ⟨{.work, .control}, HttpLease.mem_all⟩

namespace HttpThreads

/-- `limit`. -/
def limit (h : HttpThreads) : HttpLease → Int
  | .work => h.workerThreads
  | .control => h.maxControlRequests

/-- The size of the thread pool. -/
def pool (h : HttpThreads) : Nat :=
  (h.workerThreads + h.maxControlRequests + 4).toNat

/-- What `admit` throws. -/
def refusal : HttpLease → Error
  | .work => ⟨.QueueFull, qs "HTTP work capacity reached"⟩
  | .control => ⟨.QueueFull, qs "HTTP control capacity reached"⟩

/-- `workResponses` and `controlResponses`, with the threads of the pool. -/
abbrev Admission := Slots.State HttpLease

/-- A new server. -/
def start (h : HttpThreads) : Admission := Slots.start h.pool

/-- A step of one thread: the load, a compare or the end of `admit`, or the
destructor of the lease. -/
def step (h : HttpThreads) : Admission → Slots.Action HttpLease →
    Option Admission :=
  Slots.step h.limit

theorem limit_pos (h : HttpThreads) (kind : HttpLease) : 0 < h.limit kind := by
  have hwork := h.work_ok
  have hcontrol := h.control_ok
  cases kind with
  | work =>
      show 0 < h.workerThreads
      omega
  | control =>
      show 0 < h.maxControlRequests
      omega

/-- The pool is larger than all leases by four. -/
theorem pool_eq (h : HttpThreads) :
    (h.pool : Int) = (∑ kind, h.limit kind) + 4 := by
  have hwork := h.work_ok
  have hcontrol := h.control_ok
  have hsum : ∑ kind, h.limit kind
      = h.workerThreads + h.maxControlRequests := by
    show ∑ kind ∈ ({.work, .control} : Finset HttpLease), h.limit kind = _
    rw [Finset.sum_pair (by simp)]
    rfl
  unfold pool
  omega

end HttpThreads

end LocalLLM
