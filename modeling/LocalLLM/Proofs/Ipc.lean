/-
What one step of an IPC connection does, and when it stops reading.

# The loop goes on

`send` aborts the connection when its line does not fit in the output
buffer, and returns. The loop of `read` does not look at the socket: it takes
the next frame of its input and dispatches it. `Roomy` is the state in which
this cannot happen, and a run through such states dispatches nothing after an
abort (`nothing_after_abort`).
-/
import LocalLLM.Lib.Exec
import LocalLLM.Service.LocalIpcServer

namespace LocalLLM.Ipc

variable {v : Server} {c c' : Client}

-- ========================================================== what a frame does

/-- What handling a frame does to a connection whose input it was
taken from. -/
inductive Handled (v : Server) (response : Response)
    (parsed : Option JsonObject) (c : Client) : Client → Prop
  | refuse (id : QString) (error : Error) :
      Handled v response parsed c
        (c.answering .refused (errorFrame id error) none none)
  /-- The request is answered at once. -/
  | answer (id method : QString) (log : List Entry)
      (cancelled : Finset QString)
      (frame : JsonObject) :
      id ∉ c.ids → (c.ids.card : Int) < v.maxInFlightPerConnection
        ∨ method = qs "cancel" →
      log = c.log ∨ log = c.log ++ [Entry.dispatched c.requests.length] →
      Handled v response parsed c
        ({ c.begin id method .direct with log, cancelled }.answering
        (.answer c.requests.length) frame (some id) none)
  | call (id method : QString) :
      id ∉ c.ids → (c.ids.card : Int) < v.maxInFlightPerConnection →
      Handled v response parsed c { c.begin id method (.future .call none) with
        log := c.log ++ [Entry.dispatched c.requests.length]
        pending := c.pending ++ [⟨c.requests.length, id, []⟩]
        main := .reading }
  | stream (id method requestId : QString) (work : Work)
      (watch : Option Watch) :
      id ∉ c.ids → (c.ids.card : Int) < v.maxInFlightPerConnection →
      (work = .chat false ∧ watch = none)
        ∨ (∃ operation, work = .future operation none
          ∧ watch = some ⟨c.requests.length, id, requestId⟩) →
      Handled v response parsed c ({ c.begin id method work with
        log := c.log ++ [Entry.dispatched c.requests.length]
        generations := insert requestId c.generations }.answering
          (.accepted c.requests.length)
          (acceptedFrame id requestId) none watch)
  /-- The handle of the RPC handler is not as it should be. -/
  | invalid (id method requestId : QString) (valid : Bool)
      (frame request p : JsonObject) :
      id ∉ c.ids → (c.ids.card : Int) < v.maxInFlightPerConnection →
      parsed = some request → string request "method" true = .ok method →
      dispatch v c.generations method p = .ok .rpc →
      response = .handle requestId valid →
      valid = false ∨ requestId = [] ∨ 128 < requestId.length →
      Handled v response parsed c ({ c.begin id method (.future .rpc none) with
        log := c.log ++ [Entry.dispatched c.requests.length]
        cancelled := insert requestId c.cancelled }.answering
          (.answer c.requests.length) frame (some id) none)

/-- What a call needs to be let in: a fresh id, a method that is a text, and
room below the limit unless it cancels. -/
theorem admission_eq_ok {id method : QString} {request : JsonObject}
    (h : c.admission v id request = .ok method) :
    id ∉ c.ids ∧ string request "method" true = .ok method
      ∧ ((c.ids.card : Int) < v.maxInFlightPerConnection
        ∨ method = qs "cancel") := by
  unfold Client.admission at h
  obtain ⟨_, -, h⟩ := bind_eq_ok.1 h
  obtain ⟨_, hid, h⟩ := bind_eq_ok.1 h
  obtain ⟨method', hmethod, h⟩ := bind_eq_ok.1 h
  obtain ⟨_, hroom, h⟩ := bind_eq_ok.1 h
  injection h with h
  subst h
  exact ⟨require_eq_ok.1 hid, hmethod, require_eq_ok.1 hroom⟩

/-- A call that throws is answered by one error frame that names its id. -/
theorem fail_cases {n : Nat} {id : QString} {e : Exn}
    (h : c.fail n id e = some c') :
    ∃ error, c' = c.answering (.answer n) (errorFrame id error)
      (some id) none := by
  unfold Client.fail at h
  obtain ⟨error, -, rfl⟩ := Option.map_eq_some_iff.1 h
  exact ⟨error, rfl⟩

/-- Of the methods that call somebody, none is `cancel`. -/
theorem dispatch_cancel {generations : Finset QString}
    {p : JsonObject} {job : Job}
    (h : dispatch v generations (qs "cancel") p = .ok job) :
    ∃ requestId, job = .cancel requestId := by
  unfold dispatch at h
  rw [if_neg (by decide), show checkCall v (qs "cancel") p = none
    from rfl] at h
  dsimp only at h
  rw [if_neg (by decide), if_neg (by decide), if_pos rfl] at h
  obtain ⟨requestId, -, h⟩ := bind_eq_ok.1 h
  obtain ⟨-, -, h⟩ := bind_eq_ok.1 h
  injection h with h
  exact ⟨requestId, h.symm⟩

/-- What a job does: it leaves a future to watch, or its answer
is known at once. -/
theorem perform_cases {id method : QString} {response : Response} {job : Job}
    {request p : JsonObject} (hid : id ∉ c.ids)
    (hroom : (c.ids.card : Int) < v.maxInFlightPerConnection
      ∨ method = qs "cancel")
    (hmethod : string request "method" true = .ok method)
    (hjob : dispatch v c.generations method p = .ok job)
    (h :
      { c with log := c.log ++ [Entry.dispatched c.requests.length] }.perform
        id method
      response job = some c') :
    Handled v response (some request) c c' := by
  have hlog : c.log ++ [Entry.dispatched c.requests.length] = c.log
      ∨ c.log ++ [Entry.dispatched c.requests.length]
        = c.log ++ [Entry.dispatched c.requests.length] := Or.inr rfl
  have hthrown :
    ∀ e,
    ({ c with log := c.log ++ [Entry.dispatched c.requests.length] }.begin id
      method .direct).fail c.requests.length id e = some c' →
      Handled v response (some request) c c' := by
    intro e h
    obtain ⟨error, rfl⟩ := fail_cases h
    exact .answer id method _ c.cancelled _ hid hroom hlog
  -- only a cancellation comes when there is no room
  have hroomy : (∀ requestId, job ≠ .cancel requestId) →
      (c.ids.card : Int) < v.maxInFlightPerConnection := by
    intro hnot
    rcases hroom with hroom | rfl
    · exact hroom
    · obtain ⟨requestId, heq⟩ := dispatch_cancel hjob
      exact absurd heq (hnot requestId)
  cases job with
  | answer result =>
      injection h with h
      subst h
      exact .answer id method _ c.cancelled _ hid hroom hlog
  | cancel requestId =>
      injection h with h
      subst h
      exact .answer id method _ (insert requestId c.cancelled) _ hid hroom hlog
  | call =>
      cases response with
      | thrown e => exact hthrown e h
      | handle requestId valid =>
          injection h with h
          subst h
          exact .call id method hid (hroomy fun _ => Job.noConfusion)
  | chat =>
      cases response with
      | thrown e => exact hthrown e h
      | handle requestId valid =>
          injection h with h
          subst h
          exact .stream id method requestId _ _ hid
            (hroomy fun _ => Job.noConfusion) (Or.inl ⟨rfl, rfl⟩)
  | pull =>
      cases response with
      | thrown e => exact hthrown e h
      | handle requestId valid =>
          injection h with h
          subst h
          exact .stream id method requestId _ _ hid
            (hroomy fun _ => Job.noConfusion) (Or.inr ⟨.pull, rfl, rfl⟩)
  | rpc =>
      cases response with
      | thrown e => exact hthrown e h
      | handle requestId valid =>
          unfold Client.perform at h
          dsimp only at h
          by_cases hbad : valid = false ∨ requestId = []
            ∨ 128 < requestId.length
          · rw [if_pos hbad] at h
            obtain ⟨error, rfl⟩ := fail_cases h
            exact .invalid id method requestId valid _ request p hid
              (hroomy fun _ => Job.noConfusion) rfl hmethod hjob rfl hbad
          · rw [if_neg hbad] at h
            injection h with h
            subst h
            exact .stream id method requestId _ _ hid
              (hroomy fun _ => Job.noConfusion) (Or.inr ⟨.rpc, rfl, rfl⟩)

/-- What a frame does, once it was read as a request: the checks refuse it, or
its method is performed. -/
theorem request_cases {response : Response} {request : Option JsonObject}
    (h : c.request v response request = some c') :
    Handled v response request c c' := by
  have hrefuse : ∀ {id e}, c.refuse id e = some c' →
      Handled v response request c c' := by
    intro id e h
    unfold Client.refuse at h
    obtain ⟨error, -, rfl⟩ := Option.map_eq_some_iff.1 h
    exact .refuse id error
  unfold Client.request at h
  cases request with
  | none => exact hrefuse h
  | some request =>
      dsimp only at h
      cases hid : string request "id" true with
      | error e =>
          rw [hid] at h
          exact hrefuse h
      | ok id =>
          rw [hid] at h
          dsimp only at h
          cases hadmitted : c.admission v id request with
          | error e =>
              rw [hadmitted] at h
              exact hrefuse h
          | ok method =>
              rw [hadmitted] at h
              obtain ⟨hid, hmethod, hroom⟩ := admission_eq_ok hadmitted
              have h : c.serve v id method request response = some c' := h
              unfold Client.serve at h
              dsimp only at h
              split at h
              next e _ =>
                obtain ⟨error, rfl⟩ := fail_cases h
                exact .answer id method c.log c.cancelled _ hid hroom
                  (Or.inl rfl)
              next p _ =>
                split at h
                next e _ =>
                  obtain ⟨error, rfl⟩ := fail_cases h
                  exact .answer id method _ c.cancelled _ hid hroom
                    (Or.inr rfl)
                next job hjob => exact perform_cases hid hroom hmethod hjob h

-- =========================================================== what a step does

theorem abort_connected : c.abort.connected = false := by
  unfold Client.abort
  split
  next => rfl
  next h => simpa using h

/-- Aborting stops the reading. What has been received stays in the buffer and
is never looked at again. -/
theorem abort_input : c.abort.input = c.input := by
  unfold Client.abort
  split <;> rfl

/-- Sending does not read, so the buffer is the same behind it. -/
theorem send_input {kind : Kind} {frame : JsonObject} :
    (c.send v kind frame).input = c.input := by
  unfold Client.send
  split
  · rfl
  · split
    · exact abort_input
    · rfl

/-- An id that is given back changes the set of ids and nothing else. -/
theorem release_eq (id : Option QString) :
    c.release id = { c with ids := (c.release id).ids } := by
  cases id <;> rfl

/-- The inbox is emptied before its events are sent. -/
def Client.emptied (c : Client) : Client :=
  { c with inbox := { c.inbox with
      events := []
      bytes := 0 } }

/-- What ends the loop of `read` with an abort: a line that is too long, or an
input without one. -/
def Client.TooLong (v : Server) (c : Client) : Prop :=
  (takeLine c.input = none ∧ v.maxFrameBytes < (c.input.length : Int))
    ∨ ∃ line rest, takeLine c.input = some (line, rest)
      ∧ v.maxFrameBytes < (line.length : Int)

/-- The frame that answers a watch. -/
inductive Answering (w : Watch) : Outcome → JsonObject → Prop
  | result (result : Json) : Answering w (.ok result) (resultFrame w.id result)
  | error (e : Exn) (error : Error) : errorOf e = some error →
      Answering w (.error e) (errorFrame w.id error)

/-- What an action does, and where the thread of the server stood before it.
Every proof about a step goes through these cases (`step_cases`). -/
inductive Stepped (v : Server) (c : Client) : Action → Client → Prop
  | receive (bytes : List UInt8) : c.main = .idle → c.connected = true →
      Stepped v c (.receive bytes) { c with
        input := c.input ++ bytes
        main := .reading }
  | stop (response : Response) : c.main = .reading → takeLine c.input = none →
      (c.input.length : Int) ≤ v.maxFrameBytes →
      Stepped v c (.frame response) { c with main := .idle }
  | long (response : Response) : c.main = .reading → c.TooLong v →
      Stepped v c (.frame response) { c.abort with main := .idle }
  | line (response : Response) (line rest : List UInt8) (c' : Client) :
      c.main = .reading → takeLine c.input = some (line, rest) →
      (line.length : Int) ≤ v.maxFrameBytes →
      { c with input := rest }.request v response (v.parse line) = some c' →
      Stepped v c (.frame response) c'
  | answer (kind : Kind) (frame : JsonObject) (id : Option QString)
      (watch : Option Watch) : c.main = .answering kind frame id watch →
      Stepped v c .answer { (c.send v kind frame).release id with
        pending := ((c.send v kind frame).release id).pending ++ watch.toList
        main := .reading }
  | poll : c.main = .idle → c.connected = true →
      Stepped v c .poll { c with main := .taking .poll }
  | erase : c.main = .idle → c.connected = false →
      Stepped v c .poll c.disconnect
  | take (after : After) : c.main = .taking after →
      (c.inbox.overflow || c.inbox.closed) = false →
      Stepped v c .take
        { c.emptied with main := .sending c.inbox.events after }
  | fail (after : After) : c.main = .taking after →
      (c.inbox.overflow || c.inbox.closed) = true →
      Stepped v c .take ({ c.emptied.abort with
        cancelled := c.emptied.abort.cancelled
          ∪ c.generations }.undrained after)
  | event (q : Queued) (rest : List Queued) (after : After) :
      c.main = .sending (q :: rest) after →
      Stepped v c .send (c.sendEvent v q rest after)
  | undrained (after : After) :
      c.main = .sending [] after → c.connected = false →
      Stepped v c .send (c.undrained after)
  | watches : c.main = .sending [] .poll → c.connected = true →
      Stepped v c .send c.pollWatches
  | finish (w : Watch) (outcome : Outcome) (todo : List Watch)
      (frame : JsonObject) :
      c.main = .sending [] (.reply w outcome todo) → c.connected = true →
      Answering w outcome frame →
      Stepped v c .send { ({ c with
          generations := if w.operationId = [] then c.generations
            else c.generations.erase w.operationId }.send v (.answer w.request)
        frame).release (some w.id) with main := .polling todo }
  | wait (w : Watch) (todo : List Watch) : c.main = .polling (w :: todo) →
      c.outcome w = none →
      Stepped v c .check { c with
        pending := c.pending ++ [w]
        main := .polling todo }
  | ready (w : Watch) (todo : List Watch) (outcome : Outcome) :
      c.main = .polling (w :: todo) → c.outcome w = some outcome →
      Stepped v c .check { c with main := .taking (.reply w outcome todo) }
  | polled : c.main = .polling [] → Stepped v c .check { c with main := .idle }
  | flush (bytes : Nat) :
      Stepped v c (.flush bytes) { c with written := c.written - bytes }
  | lost : c.main = .idle → Stepped v c .lost { c with
      connected := false
      written := 0
      cancelled := c.cancelled ∪ c.generations
      inbox := { c.inbox with closed := true } }
  | close : c.main = .idle → Stepped v c .close c.disconnect
  | deliver (n : Nat) (payload : Payload) (r : Request) (work : Work) :
      c.requests[n]? = some r → r.work.after payload = some work →
      Stepped v c (.deliver n payload) { c with
        inbox := c.inbox.push v ⟨n, payload.event r.id⟩
        requests := c.requests.set n { r with
          work
          delivered := r.delivered ++ [payload.event r.id] } }
  | complete (n : Nat) (outcome : Outcome) (r : Request)
      (operation : Operation) :
      c.requests[n]? = some r → r.work = .future operation none →
      Stepped v c (.complete n outcome) { c with
        requests := c.requests.set n { r with
          work := .future operation (some outcome) } }

/-- What handling one frame can do: refuse it, answer it at once, or hand it to
the service and wait. -/
theorem frame_stepped {response : Response} (hmain : c.main = .reading)
    (hstep : c.frame v response = some c') :
    Stepped v c (.frame response) c' := by
  unfold Client.frame at hstep
  cases hline : takeLine c.input with
  | none =>
      rw [hline] at hstep
      injection hstep with hstep
      subst hstep
      by_cases hlong : v.maxFrameBytes < (c.input.length : Int)
      · rw [if_pos hlong]
        exact .long response hmain (.inl ⟨hline, hlong⟩)
      · rw [if_neg hlong]
        exact .stop response hmain hline (not_lt.1 hlong)
  | some taken =>
      obtain ⟨line, rest⟩ := taken
      rw [hline] at hstep
      dsimp only at hstep
      by_cases hlong : v.maxFrameBytes < (line.length : Int)
      · rw [if_pos hlong] at hstep
        injection hstep with hstep
        subst hstep
        exact .long response hmain (.inr ⟨line, rest, hline, hlong⟩)
      · rw [if_neg hlong] at hstep
        exact .line response line rest c' hmain hline (not_lt.1 hlong) hstep

/-- What the end of a call can do, once its last frame is written. -/
theorem finish_stepped {w : Watch} {outcome : Outcome} {todo : List Watch}
    (hmain : c.main = .sending [] (.reply w outcome todo))
    (hc : c.connected = true)
    (hstep : c.finish v w outcome todo = some c') : Stepped v c .send c' := by
  have hforget : (if w.operationId = [] then c
      else { c with generations := c.generations.erase w.operationId })
        = { c with generations := if w.operationId = [] then c.generations
            else c.generations.erase w.operationId } := by
    split <;> rfl
  unfold Client.finish at hstep
  dsimp only at hstep
  rw [hforget] at hstep
  cases outcome with
  | ok result =>
      injection hstep with hstep
      subst hstep
      exact .finish w _ todo _ hmain hc (.result result)
  | error e =>
      obtain ⟨error, herror, rfl⟩ := Option.map_eq_some_iff.1 hstep
      exact .finish w _ todo _ hmain hc (.error e error herror)

/-- What follows when a queue of frames has been written, for each of the
things the server was writing it for. -/
theorem drained_stepped {after : After} (hmain : c.main = .sending [] after)
    (hstep : c.drained v after = some c') : Stepped v c .send c' := by
  unfold Client.drained at hstep
  split at hstep
  next hc =>
    injection hstep with hstep
    subst hstep
    exact .undrained after hmain hc
  next hc =>
    rw [Bool.not_eq_false] at hc
    cases after with
    | poll =>
        injection hstep with hstep
        subst hstep
        exact .watches hmain hc
    | reply w outcome todo => exact finish_stepped hmain hc hstep

/-- One action, case by case. All later proofs about steps start from
`Stepped`, so the loop of the server is unfolded here only. -/
theorem step_cases {a : Action} (hstep : c.step v a = some c') :
    Stepped v c a c' := by
  cases a with
  | receive bytes =>
      unfold Client.step at hstep
      dsimp only at hstep
      split at hstep
      next hmain =>
        split at hstep
        next hc =>
          injection hstep with hstep
          subst hstep
          exact .receive bytes hmain hc
        next => cases hstep
      next => cases hstep
  | frame response =>
      unfold Client.step at hstep
      dsimp only at hstep
      split at hstep
      next hmain => exact frame_stepped hmain hstep
      next => cases hstep
  | answer =>
      unfold Client.step at hstep
      dsimp only at hstep
      split at hstep
      next kind frame id watch hmain =>
        injection hstep with hstep
        subst hstep
        exact .answer kind frame id watch hmain
      next => cases hstep
  | poll =>
      unfold Client.step at hstep
      dsimp only at hstep
      split at hstep
      next hmain =>
        split at hstep
        next hc =>
          injection hstep with hstep
          subst hstep
          exact .poll hmain hc
        next hc =>
          injection hstep with hstep
          subst hstep
          exact .erase hmain (Bool.not_eq_true _ ▸ hc)
      next => cases hstep
  | take =>
      unfold Client.step at hstep
      dsimp only at hstep
      split at hstep
      next after hmain =>
        injection hstep with hstep
        subst hstep
        unfold Client.take
        dsimp only
        split
        next hfailed => exact .fail after hmain hfailed
        next hgood => exact .take after hmain (Bool.not_eq_true _ ▸ hgood)
      next => cases hstep
  | send =>
      unfold Client.step at hstep
      dsimp only at hstep
      split at hstep
      next q rest after hmain =>
        injection hstep with hstep
        subst hstep
        exact .event q rest after hmain
      next after hmain => exact drained_stepped hmain hstep
      next => cases hstep
  | check =>
      unfold Client.step at hstep
      dsimp only at hstep
      split at hstep
      next w todo hmain =>
        injection hstep with hstep
        subst hstep
        unfold Client.check
        split
        next houtcome => exact .wait w todo hmain houtcome
        next outcome houtcome => exact .ready w todo outcome hmain houtcome
      next hmain =>
        injection hstep with hstep
        subst hstep
        exact .polled hmain
      next => cases hstep
  | flush bytes =>
      injection hstep with hstep
      subst hstep
      exact .flush bytes
  | lost =>
      unfold Client.step at hstep
      dsimp only at hstep
      split at hstep
      next hmain =>
        injection hstep with hstep
        subst hstep
        exact .lost hmain
      next => cases hstep
  | close =>
      unfold Client.step at hstep
      dsimp only at hstep
      split at hstep
      next hmain =>
        injection hstep with hstep
        subst hstep
        exact .close hmain
      next => cases hstep
  | deliver n payload =>
      have hstep : c.deliver v n payload = some c' := hstep
      unfold Client.deliver at hstep
      split at hstep
      next => cases hstep
      next r hr =>
        obtain ⟨work, hafter, rfl⟩ := Option.map_eq_some_iff.1 hstep
        exact .deliver n payload r work hr hafter
  | complete n outcome =>
      have hstep : c.complete n outcome = some c' := hstep
      unfold Client.complete at hstep
      split at hstep
      next hr =>
        injection hstep with hstep
        subst hstep
        exact .complete n outcome _ _ hr rfl
      next => cases hstep

-- ============================================================= after an abort

/-- Nothing is dispatched after an abort. -/
def Quiet (log : List Entry) : Prop :=
  log.Pairwise fun a b => a = .aborted → ∀ n, b ≠ .dispatched n

/-- Only a dispatch behind an abort breaks the silence. -/
theorem quiet_append {log : List Entry} {e : Entry} :
    Quiet (log ++ [e])
      ↔ Quiet log ∧ (Entry.aborted ∈ log → ∀ n, e ≠ .dispatched n) := by
  unfold Quiet
  simp only [List.pairwise_append, List.pairwise_singleton, true_and,
    List.mem_singleton,
    forall_eq]
  constructor
  · intro h
    exact ⟨h.1, fun ha => h.2 _ ha rfl⟩
  · intro h
    refine ⟨h.1, fun a ha heq => ?_⟩
    subst heq
    exact h.2 ha

theorem quiet_of_not_mem {log : List Entry} (h : Entry.aborted ∉ log) :
    Quiet log :=
  List.Pairwise.imp_of_mem (R := fun _ _ => True)
    (fun ha _ _ heq => (h (heq ▸ ha)).elim)
    (List.pairwise_of_forall fun _ _ => trivial)

/-- Where the server is in the loop of `read`. -/
def Main.reads : Main → Prop
  | .reading | .answering .. => True
  | _ => False

/-- A frame that is sent from the loop of `read` fits, or is the last line. -/
def Roomy (v : Server) (c : Client) (_ : Action) : Prop :=
  match c.main with
  | .answering _ frame _ _ => c.connected = true →
      (c.written + v.lineSize frame : Int) ≤ v.maxBufferedOutputBytes
        ∨ takeLine c.input = none
  | _ => True

/-- Once aborted, a connection has no further line that the loop of
`read` would take. -/
structure Still (c : Client) : Prop where
  quiet : Quiet c.log
  closed : Entry.aborted ∈ c.log → c.connected = false
  done : Entry.aborted ∈ c.log → c.main.reads → takeLine c.input = none

/-- What the steps outside of the loop of `read` write down. -/
inductive Writes (c c' : Client) : Prop
  | nothing : c'.log = c.log → (c.connected = false → c'.connected = false) →
      Writes c c'
  | sent (kind : Kind) (frame : JsonObject) :
      c'.log = c.log ++ [.sent kind frame] →
      c'.connected = c.connected → Writes c c'
  | aborted : c'.log = c.log ++ [.aborted] → c'.connected = false → Writes c c'

theorem abort_writes : Writes c c.abort := by
  unfold Client.abort
  by_cases h : c.connected = true
  · rw [if_pos h]
    exact .aborted rfl rfl
  · rw [if_neg h]
    exact .nothing rfl id

theorem send_writes {kind : Kind} {frame : JsonObject} :
    Writes c (c.send v kind frame) := by
  unfold Client.send
  by_cases h : c.connected = false
  · rw [if_pos h]
    exact .nothing rfl id
  · rw [if_neg h]
    split
    · exact abort_writes
    · exact .sent kind frame rfl rfl

/-- Only the log and the state of the socket matter. -/
theorem Writes.to {d c' : Client} (h : Writes c d) (hlog : c'.log = d.log)
    (hconnected : c'.connected = d.connected) : Writes c c' := by
  cases h with
  | nothing h hc =>
      exact .nothing (hlog.trans h) fun hf => hconnected.trans (hc hf)
  | sent kind frame h hc =>
      exact .sent kind frame (hlog.trans h) (hconnected.trans hc)
  | aborted h hc => exact .aborted (hlog.trans h) (hconnected.trans hc)

/-- What comes after the same log. -/
theorem Writes.behind {d : Client} (h : Writes d c') (hlog : d.log = c.log)
    (hconnected : d.connected = c.connected) : Writes c c' := by
  cases h with
  | nothing h hc =>
      exact .nothing (h.trans hlog) fun hf => hc (hconnected.trans hf)
  | sent kind frame h hc =>
      exact .sent kind frame (hlog ▸ h) (hc.trans hconnected)
  | aborted h hc => exact .aborted (hlog ▸ h) hc

/-- A step that only writes cannot break the silence of a client
that is still. -/
theorem Writes.quiet (hw : Writes c c') (h : Still c) :
    Quiet c'.log ∧ (Entry.aborted ∈ c'.log → c'.connected = false) := by
  cases hw with
  | nothing hlog hc =>
      rw [hlog]
      exact ⟨h.quiet, fun ha => hc (h.closed ha)⟩
  | sent kind frame hlog hc =>
      rw [hlog, hc]
      refine ⟨quiet_append.2 ⟨h.quiet, fun _ _ => nofun⟩,
        fun ha => h.closed ?_⟩
      simpa using ha
  | aborted hlog hc =>
      rw [hlog]
      exact ⟨quiet_append.2 ⟨h.quiet, fun _ _ => nofun⟩, fun _ => hc⟩

/-- On a connection that is closed, a `drain` that fails only goes on. -/
theorem undrained_closed (after : After) (hclosed : c.connected = false) :
    (c.undrained after).log = c.log
      ∧ (c.undrained after).connected = c.connected
      ∧ (c.undrained after).requests = c.requests
      ∧ (c.undrained after).input = c.input
      ∧ ¬ (c.undrained after).main.reads := by
  cases after with
  | poll =>
      have habort : c.abort = c :=
        if_neg (by rw [hclosed]; exact Bool.false_ne_true)
      unfold Client.undrained Client.disconnect
      rw [habort]
      exact ⟨rfl, rfl, rfl, rfl, not_false⟩
  | reply w outcome todo => exact ⟨rfl, rfl, rfl, rfl, not_false⟩

/-- Sending a queued event touches the log and the ids, the latter where the
event ends its call. -/
theorem sendEvent_eq {q : Queued} {rest : List Queued} {after : After} :
    c.sendEvent v q rest after = { c.send v (.event q.request) q.event with
      ids := (c.sendEvent v q rest after).ids
      generations := (c.sendEvent v q rest after).generations
      main := .sending rest after } := by
  unfold Client.sendEvent
  dsimp only
  split <;> rfl

/-- What the steps have in common that neither read from the socket nor take a
frame: the input stays, the loop of `read` is not entered and not left, and of
the steps inside of it only the answer writes something down. -/
structure Outside (c : Client) (a : Action) (c' : Client) : Prop where
  writes : Writes c c'
  input : c'.input = c.input
  reads : c'.main.reads ↔ c.main.reads
  silent : c.main.reads → a = .answer ∨ c'.log = c.log

/-- A step from one place outside of the loop to another. -/
theorem Outside.moved {a : Action} (hw : Writes c c')
    (hinput : c'.input = c.input)
    (hmain : ¬ c.main.reads) (hmain' : ¬ c'.main.reads) : Outside c a c' :=
  ⟨hw, hinput, iff_of_false hmain' hmain, fun hr => (hmain hr).elim⟩

/-- A step of another thread. -/
theorem Outside.elsewhere {a : Action} (hlog : c'.log = c.log)
    (hconnected : c'.connected = c.connected) (hinput : c'.input = c.input)
    (hmain : c'.main = c.main) : Outside c a c' :=
  ⟨.nothing hlog fun hc => hconnected.trans hc, hinput, by rw [hmain],
    fun _ => .inr hlog⟩

/-- Every action but a receipt and a handled frame leaves the input alone. -/
theorem Stepped.outside {a : Action} (h : Stepped v c a c')
    (hreceive : ∀ bytes, a ≠ .receive bytes)
    (hframe : ∀ response, a ≠ .frame response) : Outside c a c' := by
  -- where the thread of the server stood, it was not in the loop
  have hnot : ∀ {m : Main}, c.main = m → ¬ m.reads → ¬ c.main.reads :=
    fun hmain hno => hmain ▸ hno
  cases h with
  | receive bytes => exact absurd rfl (hreceive bytes)
  | stop response => exact absurd rfl (hframe response)
  | long response => exact absurd rfl (hframe response)
  | line response => exact absurd rfl (hframe response)
  | answer kind frame id watch hmain =>
      rw [release_eq]
      refine ⟨send_writes.to rfl rfl, send_input, ?_, fun _ => .inl rfl⟩
      rw [hmain]
      exact Iff.rfl
  | poll hmain =>
      exact .moved (.nothing rfl id) rfl (hnot hmain not_false) not_false
  | erase hmain =>
      exact .moved (abort_writes.to rfl rfl) abort_input
        (hnot hmain not_false) not_false
  | take after hmain =>
      exact .moved (.nothing rfl id) rfl (hnot hmain not_false) not_false
  | fail after hmain =>
      have hclosed : ({ c.emptied.abort with
          cancelled := c.emptied.abort.cancelled ∪ c.generations } :
            Client).connected
            = false := abort_connected
      obtain ⟨hlog, hopen, -, hinput, hreads⟩ := undrained_closed after hclosed
      have hw : Writes c.emptied _ := abort_writes.to hlog hopen
      exact .moved (hw.behind rfl rfl) (hinput.trans abort_input)
        (hnot hmain not_false)
        hreads
  | event q rest after hmain =>
      rw [sendEvent_eq]
      exact .moved (send_writes.to rfl rfl) send_input
        (hnot hmain not_false) not_false
  | undrained after hmain hclosed =>
      obtain ⟨hlog, hopen, -, hinput, hreads⟩ := undrained_closed after hclosed
      exact .moved (.nothing hlog fun _ => hopen.trans hclosed) hinput
        (hnot hmain not_false) hreads
  | watches hmain =>
      exact .moved (.nothing rfl id) rfl (hnot hmain not_false) not_false
  | finish w outcome todo frame hmain =>
      rw [release_eq]
      generalize hd :
        ({ c with generations := if w.operationId = [] then c.generations
        else c.generations.erase w.operationId } : Client) = d
      have hw : Writes c (d.send v (.answer w.request) frame) :=
        send_writes.behind (hd ▸ rfl) (hd ▸ rfl)
      exact .moved (hw.to rfl rfl) (send_input.trans (hd ▸ rfl))
        (hnot hmain not_false) not_false
  | wait w todo hmain =>
      exact .moved (.nothing rfl id) rfl (hnot hmain not_false) not_false
  | ready w todo outcome hmain =>
      exact .moved (.nothing rfl id) rfl (hnot hmain not_false) not_false
  | polled hmain =>
      exact .moved (.nothing rfl id) rfl (hnot hmain not_false) not_false
  | flush bytes => exact .elsewhere rfl rfl rfl rfl
  | lost hmain =>
      exact .moved (.nothing rfl fun _ => rfl) rfl (hnot hmain not_false)
        (hnot hmain not_false)
  | close hmain =>
      exact .moved (abort_writes.to rfl rfl) abort_input
        (hnot hmain not_false) not_false
  | deliver => exact .elsewhere rfl rfl rfl rfl
  | complete => exact .elsewhere rfl rfl rfl rfl

-- ---------------------------------------------------------------- one step

/-- A frame that was taken: its request is dispatched before
anything is sent. -/
theorem Handled.log {response : Response} {parsed : Option JsonObject}
    (h : Handled v response parsed c c') :
    c'.log = c.log ∨ c'.log
      = c.log ++ [Entry.dispatched c.requests.length] := by
  cases h with
  | refuse => exact Or.inl rfl
  | answer id method log cancelled frame _ _ hlog => exact hlog
  | call => exact Or.inr rfl
  | stream => exact Or.inr rfl
  | invalid => exact Or.inr rfl

/-- An answer that aborts the connection did not fit. -/
theorem answer_aborted {kind : Kind} {frame : JsonObject}
    (hbefore : Entry.aborted ∉ c.log)
    (ha : Entry.aborted ∈ (c.send v kind frame).log) :
    c.connected = true
      ∧ v.maxBufferedOutputBytes < (c.written + v.lineSize frame : Int) := by
  unfold Client.send at ha
  split at ha
  next => exact absurd ha hbefore
  next hc =>
    split at ha
    next hover => exact ⟨by simpa using hc, hover⟩
    next => simp [hbefore] at ha

/-- Every step, where the answers of the loop fit or are the last.
The loop looks at the connection only between two reads, which is
what the condition is for. -/
theorem still_step {a : Action} (h : Still c) (hroomy : Roomy v c a)
    (hstep : c.step v a = some c') : Still c' := by
  have hcases := step_cases hstep
  by_cases hreceive : ∃ bytes, a = .receive bytes
  · obtain ⟨bytes, rfl⟩ := hreceive
    cases hcases with
    | receive _ hmain hc =>
        have hnone : Entry.aborted ∉ c.log := by
          intro ha
          rw [h.closed ha] at hc
          cases hc
        exact ⟨h.quiet, h.closed, fun ha => (hnone ha).elim⟩
  by_cases hframe : ∃ response, a = .frame response
  · obtain ⟨response, rfl⟩ := hframe
    cases hcases with
    | stop _ hmain => exact ⟨h.quiet, h.closed, fun _ hr => hr.elim⟩
    | long _ hmain =>
        have hw : Writes c { c.abort with main := .idle } :=
          abort_writes.to rfl rfl
        exact ⟨(hw.quiet h).1, (hw.quiet h).2, fun _ hr => hr.elim⟩
    | line _ line rest _ hmain hline _ hrequest =>
        have hnone : Entry.aborted ∉ c.log := by
          intro ha
          have hread : c.main.reads := by
            rw [hmain]
            trivial
          rw [h.done ha hread] at hline
          cases hline
        have hnone' : Entry.aborted ∉ c'.log := by
          rcases (request_cases hrequest).log with hlog | hlog
          · rw [hlog]
            exact hnone
          · rw [hlog]
            simpa using hnone
        exact ⟨quiet_of_not_mem hnone', fun ha => (hnone' ha).elim,
          fun ha => (hnone' ha).elim⟩
  have houtside := hcases.outside (fun bytes heq => hreceive ⟨bytes, heq⟩)
    (fun response heq => hframe ⟨response, heq⟩)
  have hwritten := houtside.writes.quiet h
  refine ⟨hwritten.1, hwritten.2, fun ha hr => ?_⟩
  have hr := houtside.reads.1 hr
  rw [houtside.input]
  by_cases hbefore : Entry.aborted ∈ c.log
  · exact h.done hbefore hr
  · rcases houtside.silent hr with rfl | hlog
    · cases hcases with
      | answer kind frame id watch hmain =>
          rw [release_eq] at ha
          obtain ⟨hc, hover⟩ := answer_aborted hbefore ha
          unfold Roomy at hroomy
          rw [hmain] at hroomy
          rcases hroomy hc with hfits | hlast
          · omega
          · exact hlast
    · exact absurd (hlog ▸ ha) hbefore

-- ------------------------------------------------------------------- runs

/-- A connection whose answers fit, or come last, starts nothing once it was
aborted. The condition is on the refusals: one that overflows the output buffer
aborts the connection while frames behind it are still being read. -/
theorem nothing_after_abort (v : Server) {c c' : Client} {as : List Action}
    (h : Entry.aborted ∉ c.log)
    (hroomy : System.Along (Client.step v) (Roomy v) c as)
    (hrun : System.run (Client.step v) c as = some c') : Quiet c'.log := by
  have hstart : Still c :=
    ⟨quiet_of_not_mem h, fun ha => (h ha).elim, fun ha => (h ha).elim⟩
  have hend := System.run_invariant_along (I := Still)
    (fun s a s' hs hp hstep => still_step hs hp hstep) as hstart hroomy hrun
  exact hend.quiet

-- ============================================================= a small server

namespace Sample

/-- A line of ASCII characters. -/
def bytes (text : String) :
    List UInt8 := text.toList.map fun c => c.toNat.toUInt8

/-- The frame of a client that asks for the statistics. -/
def stats : JsonObject :=
  Json.ofMembers [(qs "id", .string (qs "1")),
    (qs "method", .string (qs "stats"))]

def statsLine : String := "\x7b\"id\":\"1\",\"method\":\"stats\"\x7d"

/-- A server with the least output buffer. The only frame it sends is the
answer to a line that is no frame, of 90 bytes. -/
def server : Server where
  parse line := if line = bytes statsLine then some stats else none
  lineSize _ := 90
  maxInFlightPerConnection := 1
  maxFrameBytes := 64
  maxBufferedOutputBytes := 256
  limits := by decide
  rpcHandler := false
  answer _ _ := throw (err .NotFound "Unknown method")
  generationOptions _ := .ok ()
  keepAlive _ := .ok ()

/-- No call of this client is answered with a handle that matters. -/
def quietly : Response := .handle [] true

/-- Three lines that are no frames, and then one that is. -/
def flood : List Action :=
  [.receive (bytes "x\nx\nx\n" ++ bytes statsLine ++ [10]),
    .frame quietly, .answer, .frame quietly, .answer, .frame quietly, .answer,
    .frame quietly]

/-- One line that is no frame, one that is, and then more bytes than a frame
may have. -/
def patient : List Action :=
  [.receive (bytes "x\n" ++ bytes statsLine ++ [10]), .frame quietly, .answer,
    .frame quietly, .frame quietly, .receive (List.replicate 65 120),
    .frame quietly, .poll]

def refusal : Entry :=
  .sent .refused (errorFrame []
    ⟨.ProtocolError, qs "Expected one JSON object per line"⟩)

theorem flood_log :
    (System.run (Client.step server) {} flood).map Client.log
      = some [refusal, refusal, .aborted, .dispatched 0] := by rfl

theorem patient_log :
    (System.run (Client.step server) {} patient).map Client.log
      = some [refusal, .dispatched 0, .aborted] := by rfl

end Sample

/-- A run whose only answer fits, and which ends with an abort. -/
theorem nothing_after_abort_patient :
    ∃ c', System.run (Client.step Sample.server) {} Sample.patient = some c'
      ∧ Entry.aborted ∈ c'.log ∧ Quiet c'.log := by
  obtain ⟨c', hrun, hlog⟩ := Option.map_eq_some_iff.1 Sample.patient_log
  have hroomy : System.Along (Client.step Sample.server)
    (Roomy Sample.server) {}
      Sample.patient :=
    .next trivial rfl (.next trivial rfl
      (.next (fun _ => Or.inl (by decide)) rfl
      (.next trivial rfl (.next trivial rfl
        (.next trivial rfl (.next trivial rfl
        (.next trivial rfl trivial)))))))
  refine ⟨c', hrun, ?_, ?_⟩
  · rw [hlog]
    exact List.mem_append_right [Sample.refusal, .dispatched 0]
      List.mem_cons_self
  · exact nothing_after_abort Sample.server List.not_mem_nil hroomy hrun

/-- The third answer does not fit, and the request behind it is
served all the same. -/
theorem dispatched_after_abort :
    ¬ ∀ (v : Server) (c c' : Client) (as : List Action),
      Entry.aborted ∉ c.log →
      System.run (Client.step v) c as = some c' → Quiet c'.log := by
  intro hall
  obtain ⟨c', hrun, hlog⟩ := Option.map_eq_some_iff.1 Sample.flood_log
  have hquiet := hall Sample.server {} c' Sample.flood List.not_mem_nil hrun
  rw [hlog] at hquiet
  simp [Quiet] at hquiet

end LocalLLM.Ipc
