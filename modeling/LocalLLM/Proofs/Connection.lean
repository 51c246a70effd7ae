/-
The protocol of one IPC connection, over whole runs.

# The ledger

The log of a connection lists what was sent. `Ended log n` is that request
`n` has had its last frame, and `eventsOf n log` are the events that were
sent for it. `Protocol` is what a client may rely on, in these terms.

# The invariant

What a request still has to come is in one place: an answer that the loop of
`read` is about to send, a watch, or events in the inbox or taken from it
(`Served`). Every event that was delivered is in the log or in a queue, in
order, as long as the inbox has not overflowed; and a request whose work is
over delivers nothing any more, so the queue is empty behind its last frame.

# The handle that is too long

Of an RPC handle the server asks more than its contract does: a request id
of at most 128 characters. An operation with a longer one is cancelled and
answered with an error, but its callback is not cut off, and what it delivers
is sent behind the error (`protocol_broken`). Every other run keeps the
protocol (`protocol_kept`).
-/
import LocalLLM.Proofs.Ipc

namespace LocalLLM.Ipc

open Json (lookup ofMembers toText)

variable {v : Server} {c c' : Client}

-- ================================================================= the ledger

/-- The frame is about request `n`. -/
def Kind.about (n : Nat) : Kind → Prop
  | .refused => False
  | .accepted m | .event m | .answer m => m = n

def Entry.about (n : Nat) : Entry → Prop
  | .sent kind _ => kind.about n
  | _ => False

/-- It is the last one: an answer, or an event that says so. -/
def Entry.ends (n : Nat) : Entry → Prop
  | .sent (.answer m) _ => m = n
  | .sent (.event m) frame => m = n ∧ isDone frame = true
  | _ => False

/-- It accepts the request. -/
def Entry.accepts (n : Nat) : Entry → Prop
  | .sent (.accepted m) _ => m = n
  | _ => False

/-- A request has had its last frame. -/
def Ended (log : List Entry) (n : Nat) : Prop := ∃ e ∈ log, e.ends n

def Accepted (log : List Entry) (n : Nat) : Prop := ∃ e ∈ log, e.accepts n

/-- The event of request `n` that an entry sends. -/
def Entry.eventOf (n : Nat) : Entry → Option JsonObject
  | .sent (.event m) frame => if m = n then some frame else none
  | _ => none

/-- The events that were sent for a request. -/
def eventsOf (n : Nat) (log : List Entry) : List JsonObject :=
  log.filterMap (Entry.eventOf n)

/-- The events of a request in a queue. -/
def queuedFor (n : Nat) (queue : List Queued) : List JsonObject :=
  queue.filterMap fun q => if q.request = n then some q.event else none

/-- What a client may rely on, of a connection that was not aborted. -/
structure Protocol (v : Server) (c : Client) : Prop where
  /-- A request has one last frame at most, and nothing comes behind it. -/
  once : ∀ n, c.log.Pairwise fun a b => a.ends n → ¬ b.about n
  /-- It is accepted before its first event. -/
  accepted : ∀ n front frame back,
    c.log = front ++ .sent (.event n) frame :: back →
    Accepted front n
  /-- By its last frame, every event was sent, in order. -/
  complete : ∀ n r, c.requests[n]? = some r → Ended c.log n →
    eventsOf n c.log = r.delivered
  /-- The ids are those of the requests that have not ended. -/
  ids : ∀ id, id ∈ c.ids
    ↔ ∃ n r, c.requests[n]? = some r ∧ r.id = id ∧ ¬ Ended c.log n
  unique : ∀ n m r s, c.requests[n]? = some r → c.requests[m]? = some s →
    ¬ Ended c.log n → ¬ Ended c.log m → r.id = s.id → n = m
  /-- They are within the limit, but for a cancellation that is handled. -/
  room : (c.ids.card : Int) ≤ v.maxInFlightPerConnection
    ∨ ((c.ids.card : Int) ≤ v.maxInFlightPerConnection + 1
      ∧ ∃ n frame id r, c.main = .answering (.answer n) frame id none
        ∧ c.requests[n]? = some r ∧ r.method = qs "cancel")
  /-- The inbox counts its lines. -/
  bytes : c.inbox.closed = false →
    c.inbox.bytes = (c.inbox.events.map fun q =>
      (v.lineSize q.event : Int)).sum
      ∧ c.inbox.bytes ≤ v.maxBufferedOutputBytes

-- ------------------------------------------------------------- one entry more

/-- Appending an entry ends a call where the entry is an ending of it, and
otherwise changes nothing. -/
theorem ended_append {log : List Entry} {e : Entry} {n : Nat} :
    Ended (log ++ [e]) n ↔ Ended log n ∨ e.ends n := by
  unfold Ended
  simp only [List.mem_append, List.mem_singleton, or_and_right, exists_or,
    exists_eq_left]

/-- The same for the frame that accepts a call. -/
theorem accepted_append {log : List Entry} {e : Entry} {n : Nat} :
    Accepted (log ++ [e]) n ↔ Accepted log n ∨ e.accepts n := by
  unfold Accepted
  simp only [List.mem_append, List.mem_singleton, or_and_right, exists_or,
    exists_eq_left]

/-- The events of a call are read off the log in order, one entry at a time. -/
theorem eventsOf_append {log : List Entry} {e : Entry} {n : Nat} :
    eventsOf n (log ++ [e]) = eventsOf n log ++ (e.eventOf n).toList := by
  unfold eventsOf
  rw [List.filterMap_append]
  cases h : e.eventOf n <;> simp [h]

/-- What is queued for a call keeps its order when queues are joined. -/
theorem queuedFor_append {queue queue' : List Queued} {n : Nat} :
    queuedFor n (queue ++ queue')
      = queuedFor n queue ++ queuedFor n queue' := by
  unfold queuedFor
  rw [List.filterMap_append]

theorem queuedFor_cons {q : Queued} {queue : List Queued} {n : Nat} :
    queuedFor n (q :: queue)
      = (if q.request = n then [q.event] else []) ++ queuedFor n queue := by
  unfold queuedFor
  by_cases h : q.request = n
  · simp [h]
  · simp [h]

/-- What was sent and what is queued, after the first event is sent. -/
theorem sent_queue {log : List Entry} {q : Queued}
    {queue : List Queued} {n : Nat} :
    eventsOf n (log ++ [.sent (.event q.request) q.event]) ++ queuedFor n queue
      = eventsOf n log ++ queuedFor n (q :: queue) := by
  rw [eventsOf_append, queuedFor_cons, List.append_assoc]
  congr 2
  show (if q.request = n then some q.event else none).toList = _
  by_cases hn : q.request = n
  · rw [if_pos hn, if_pos hn]
    rfl
  · rw [if_neg hn, if_neg hn]
    rfl

/-- An entry that ends a request is about it. -/
theorem Entry.ends.about {e : Entry} {n : Nat} (h : e.ends n) : e.about n := by
  cases e with
  | sent kind frame =>
      cases kind with
      | answer m => exact h
      | event m => exact h.1
      | accepted m => exact h.elim
      | refused => exact h.elim
  | _ => exact h.elim

/-- Adding an entry keeps all calls ending once, provided that no call it
speaks about has ended before. -/
theorem once_append {log : List Entry} {e : Entry} {n : Nat} :
    (log ++ [e]).Pairwise (fun a b => a.ends n → ¬ b.about n)
      ↔ log.Pairwise (fun a b => a.ends n → ¬ b.about n)
        ∧ (Ended log n → ¬ e.about n) := by
  rw [List.pairwise_append]
  simp only [List.pairwise_singleton, true_and, List.mem_singleton, forall_eq]
  unfold Ended
  constructor
  · intro h
    refine ⟨h.1, fun hended => ?_⟩
    obtain ⟨a, ha, hends⟩ := hended
    exact h.2 a ha hends
  · exact fun h => ⟨h.1, fun a ha hends => h.2 ⟨a, ha, hends⟩⟩

-- =============================================================== the requests

/-- Nothing is delivered for it any more. -/
def Work.over : Work → Bool
  | .direct => true
  | .future _ outcome => outcome.isSome
  | .chat finished => finished

/-- It delivers events. -/
def Work.streams : Work → Bool
  | .direct => false
  | .future operation _ => operation ≠ .call
  | .chat _ => true

/-- A payload is taken from work that streams and is not over, and leaves work
that still streams. -/
theorem Work.after_some {w w' : Work} {payload : Payload}
    (h : w.after payload = some w') :
    w.over = false ∧ w.streams = true ∧ w'.streams = true := by
  cases w with
  | direct => cases h
  | chat finished =>
      cases finished with
      | true => cases h
      | false =>
          cases payload with
          | chat event =>
              injection h with h
              subst h
              exact ⟨rfl, rfl, rfl⟩
          | _ => cases h
  | future operation outcome =>
      cases outcome with
      | some o => cases operation <;> cases h
      | none =>
          cases operation with
          | call => cases h
          | pull =>
              cases payload with
              | progress p =>
                  injection h with h
                  subst h
                  exact ⟨rfl, rfl, rfl⟩
              | _ => cases h
          | rpc =>
              cases payload with
              | rpc value =>
                  injection h with h
                  subst h
                  exact ⟨rfl, rfl, rfl⟩
              | _ => cases h

/-- A future stays one. -/
theorem Work.after_future {operation : Operation} {outcome : Option Outcome}
    {w' : Work}
    {payload : Payload} (h : (Work.future operation outcome).after payload
      = some w') :
    w' = .future operation none := by
  cases outcome with
  | some o => cases operation <;> cases h
  | none =>
      cases operation with
      | call => cases h
      | pull =>
          cases payload with
          | progress p =>
              injection h with h
              exact h.symm
          | _ => cases h
      | rpc =>
          cases payload with
          | rpc value =>
              injection h with h
              exact h.symm
          | _ => cases h

theorem lookup_event_id (id : QString) (payload : Payload) :
    lookup (payload.event id) (qs "id") = some (.string id) := by
  cases payload with
  | chat event =>
      cases event <;>
      · unfold Payload.event
        rw [Json.lookup_ofMembers]
        rfl
  | progress p =>
      unfold Payload.event
      rw [Json.lookup_ofMembers]
      rfl
  | rpc value =>
      unfold Payload.event
      rw [Json.lookup_ofMembers]
      rfl

/-- Only the last event of a chat says that it is the last. The server goes by
that word when it frees an id. -/
theorem isDone_event {id : QString} {payload : Payload}
    (h : isDone (payload.event id) = true) :
    ∃ requestId sessionId result,
      payload = .chat (.finished requestId sessionId result) := by
  have hevent : lookup (payload.event id) (qs "event")
      = some (.string (qs "done")) := by
    unfold isDone at h
    exact of_decide_eq_true h
  cases payload with
  | chat event =>
      cases event with
      | finished requestId sessionId result => exact ⟨_, _, _, rfl⟩
      | started requestId sessionId =>
          unfold Payload.event at hevent
          rw [Json.lookup_ofMembers] at hevent
          injection hevent with hevent
          injection hevent with hevent
          exact absurd hevent (by decide)
      | delta requestId sessionId text =>
          unfold Payload.event at hevent
          rw [Json.lookup_ofMembers] at hevent
          injection hevent with hevent
          injection hevent with hevent
          exact absurd hevent (by decide)
  | progress p =>
      unfold Payload.event at hevent
      rw [Json.lookup_ofMembers] at hevent
      injection hevent with hevent
      injection hevent with hevent
      exact absurd hevent (by decide)
  | rpc value =>
      unfold Payload.event at hevent
      rw [Json.lookup_ofMembers] at hevent
      injection hevent with hevent
      injection hevent with hevent
      exact absurd hevent (by decide)

/-- What is delivered for a request bears its id, and ends with the
last event. -/
structure Request.Orderly (r : Request) : Prop where
  streams : r.delivered ≠ [] → r.work.streams = true
  id : ∀ e ∈ r.delivered, lookup e (qs "id") = some (.string r.id)
  last : ∀ front e back, r.delivered = front ++ e :: back → isDone e = true →
    back = [] ∧ r.work = .chat true

/-- A request whose events came in the order of its work stays so when the next
one is delivered. -/
theorem Request.Orderly.delivered {r : Request}
    {payload : Payload} {work : Work}
    (h : r.Orderly) (hafter : r.work.after payload = some work) :
    Request.Orderly { r with
      work
      delivered := r.delivered ++ [payload.event r.id] } := by
  obtain ⟨hnot, -, hstreams⟩ := Work.after_some hafter
  refine ⟨fun _ => hstreams, ?_, ?_⟩
  · intro e he
    rcases List.mem_append.1 he with he | he
    · exact h.id e he
    · rw [List.mem_singleton.1 he]
      exact lookup_event_id r.id payload
  · intro front e back heq hdone
    have heq : r.delivered ++ [payload.event r.id] = front ++ e :: back := heq
    rcases List.eq_nil_or_concat back with rfl | ⟨rest, last, rfl⟩
    · obtain ⟨-, hlast⟩ := List.append_inj' heq rfl
      injection hlast with hlast
      obtain ⟨requestId, sessionId, result, hpayload⟩ :=
        isDone_event (hlast ▸ hdone)
      refine ⟨rfl, ?_⟩
      rw [hpayload] at hafter
      cases hwork : r.work with
      | chat finished =>
          rw [hwork] at hafter
          cases finished with
          | true => cases hafter
          | false =>
              injection hafter with hafter
              exact hafter.symm
      | direct =>
          rw [hwork] at hafter
          cases hafter
      | future operation outcome =>
          rw [hwork] at hafter
          cases operation <;> cases outcome <;> cases hafter
    · -- an event that says so would have been the last before
      rw [List.concat_eq_append, ← List.cons_append, ← List.append_assoc]
        at heq
      obtain ⟨hbefore, -⟩ := List.append_inj' heq rfl
      obtain ⟨-, hchat⟩ := h.last front e rest hbefore hdone
      rw [hchat] at hnot
      cases hnot

-- ================================================================== the books

/-- The id of a request. -/
def idOf (requests : List Request) (n : Nat) : Option QString :=
  requests[n]?.map Request.id

/-- A request that has begun stands behind the others. -/
theorem getElem?_begun {requests : List Request} {new : Request} :
    (requests ++ [new])[requests.length]? = some new := by
  rw [List.getElem?_append_right (Nat.le_refl _), Nat.sub_self]
  rfl

/-- A request found behind a new one is an old request at its old place, or the
new one at the end. -/
theorem getElem?_begin {requests : List Request} {new r : Request} {n : Nat}
    (h : (requests ++ [new])[n]? = some r) :
    requests[n]? = some r ∨ (n = requests.length ∧ r = new) := by
  by_cases hn : n < requests.length
  · rw [List.getElem?_append_left hn] at h
    exact .inl h
  · have hlt := (List.getElem?_eq_some_iff.1 h).1
    rw [List.length_append, List.length_singleton] at hlt
    have heq : n = requests.length := by omega
    rw [heq, getElem?_begun] at h
    injection h with h
    exact .inr ⟨heq, h.symm⟩

/-- How the log, the requests, the ids, the queue and the watches fit together.
`flowing` is that no event was lost. -/
structure Ledger (log : List Entry) (requests : List Request)
    (ids : Finset QString)
    (queue : List Queued) (watches : List Watch) (flowing : Prop) : Prop where
  once : ∀ n, log.Pairwise fun a b => a.ends n → ¬ b.about n
  accepted : ∀ n front frame back,
    log = front ++ .sent (.event n) frame :: back →
    Accepted front n
  known : ∀ n, (∃ e ∈ log, e.about n) → n < requests.length
  queued : ∀ q ∈ queue, q.request < requests.length
  flow : ∀ (n : Nat) (r : Request), requests[n]? = some r →
    eventsOf n log ++ queuedFor n queue <+: r.delivered
  full : flowing → ∀ (n : Nat) (r : Request), requests[n]? = some r →
    eventsOf n log ++ queuedFor n queue = r.delivered
  orderly : ∀ (n : Nat) (r : Request), requests[n]? = some r → r.Orderly
  ended : ∀ (n : Nat) (r : Request), requests[n]? = some r → Ended log n →
    eventsOf n log = r.delivered ∧ r.work.over = true
  watched : ∀ w ∈ watches,
    ¬ Ended log w.request ∧ ∃ (r : Request) (operation : Operation)
    (outcome : Option Outcome),
    requests[w.request]? = some r ∧ r.id = w.id
      ∧ r.work = .future operation outcome
  distinct : (watches.map Watch.request).Nodup
  ids : ∀ id, id ∈ ids ↔ ∃ n, idOf requests n = some id ∧ ¬ Ended log n
  unique : ∀ n m id, idOf requests n = some id → idOf requests m = some id →
    ¬ Ended log n → ¬ Ended log m → n = m

section Ledger

variable {log : List Entry} {requests : List Request} {ids : Finset QString}
  {queue : List Queued} {watches watches' : List Watch}
  {flowing flowing' : Prop}

/-- A ledger for a connection that flows is also one for a connection that has
stopped, which owes less. -/
theorem Ledger.weaken (h : Ledger log requests ids queue watches flowing)
    (himp : flowing' → flowing) :
    Ledger log requests ids queue watches flowing' :=
  { h with full := fun hflow => h.full (himp hflow) }

/-- The order in which the watches are polled does not matter to the ledger. -/
theorem Ledger.perm (h : Ledger log requests ids queue watches flowing)
    (hperm : watches'.Perm watches) :
    Ledger log requests ids queue watches' flowing :=
  { h with
    watched := fun w hw => h.watched w (hperm.mem_iff.1 hw)
    distinct := (hperm.map _).nodup_iff.2 h.distinct }

/-- The queue is thrown away. -/
theorem Ledger.drop (h : Ledger log requests ids queue watches flowing) :
    Ledger log requests ids [] watches False :=
  { h with
    queued := fun _ hq => nomatch hq
    flow := fun n r hr => by
      have hflow := h.flow n r hr
      unfold queuedFor
      rw [List.filterMap_nil, List.append_nil]
      exact (List.prefix_append _ _).trans hflow
    full := fun hfalse => hfalse.elim }

/-- A request of which nothing is known has no events. -/
theorem Ledger.fresh (h : Ledger log requests ids queue watches flowing)
    {n : Nat} (hn : requests.length ≤ n) :
    ¬ Ended log n ∧ eventsOf n log = [] ∧ queuedFor n queue = [] := by
  refine ⟨fun hended => ?_, ?_, ?_⟩
  · obtain ⟨e, he, hends⟩ := hended
    have hlt := h.known n ⟨e, he, hends.about⟩
    omega
  · unfold eventsOf
    rw [List.filterMap_eq_nil_iff]
    intro e he
    by_contra hsome
    have habout : e.about n := by
      cases e with
      | sent kind frame =>
          cases kind with
          | event m =>
              by_cases hm : m = n
              · exact hm
              · exact absurd (if_neg hm) hsome
          | _ => exact absurd rfl hsome
      | _ => exact absurd rfl hsome
    have hlt := h.known n ⟨e, he, habout⟩
    omega
  · unfold queuedFor
    rw [List.filterMap_eq_nil_iff]
    intro q hq
    have hlt := h.queued q hq
    rw [if_neg (by omega)]

/-- A frame that ends nothing and is no event. It leaves what every request is
owed as it was. -/
theorem Ledger.note (h : Ledger log requests ids queue watches flowing)
    {e : Entry} (habout : ∀ n, e.about n → n < requests.length ∧ ¬ Ended log n)
    (hends : ∀ n, ¬ e.ends n)
    (hevent : ∀ n frame, e ≠ .sent (.event n) frame) :
    Ledger (log ++ [e]) requests ids queue watches flowing := by
  have hended : ∀ n, Ended (log ++ [e]) n ↔ Ended log n := fun n => by
    rw [ended_append, or_iff_left (hends n)]
  have hevents : ∀ n, eventsOf n (log ++ [e]) = eventsOf n log := by
    intro n
    have hnone : e.eventOf n = none := by
      cases e with
      | sent kind frame =>
          cases kind with
          | event m => exact absurd rfl (hevent m frame)
          | _ => rfl
      | _ => rfl
    rw [eventsOf_append, hnone, Option.toList_none, List.append_nil]
  refine
    { once := fun n =>
        once_append.2 ⟨h.once n, fun hn ha => (habout n ha).2 hn⟩
      accepted := ?_
      known := ?_
      queued := h.queued
      flow := fun n r hr => by rw [hevents]; exact h.flow n r hr
      full := fun hflow n r hr => by rw [hevents]; exact h.full hflow n r hr
      orderly := h.orderly
      ended := fun n r hr hn => by
        rw [hevents]
        exact h.ended n r hr ((hended n).1 hn)
      watched := fun w hw => by rw [hended]; exact h.watched w hw
      distinct := h.distinct
      ids := fun id => by simp only [hended]; exact h.ids id
      unique := fun n m id hn hm => by
        rw [hended, hended]
        exact h.unique n m id hn hm }
  · intro n front frame back heq
    rcases List.eq_nil_or_concat back with rfl | ⟨rest, last, rfl⟩
    · obtain ⟨-, hlast⟩ := List.append_inj' heq rfl
      injection hlast with hlast
      exact absurd hlast (hevent n frame)
    · rw [List.concat_eq_append, ← List.cons_append, ← List.append_assoc]
        at heq
      exact h.accepted n front frame rest (List.append_inj' heq rfl).1
  · intro n hn
    obtain ⟨a, ha, hsome⟩ := hn
    rcases List.mem_append.1 ha with ha | ha
    · exact h.known n ⟨a, ha, hsome⟩
    · rw [List.mem_singleton.1 ha] at hsome
      exact (habout n hsome).1

/-- An answer, to a request whose work is over and whose events were sent. It
ends the request, and frees its id for the next one. -/
theorem Ledger.answer (h : Ledger log requests ids queue watches flowing)
    {n : Nat}
    {r : Request} (hr : requests[n]? = some r) (hover : r.work.over = true)
    (hopen : ¬ Ended log n) (hevents : eventsOf n log = r.delivered)
    (hwatches : ∀ w ∈ watches, w.request ≠ n) (frame : JsonObject) :
    Ledger (log ++ [.sent (.answer n) frame]) requests
      (ids.erase r.id) queue watches
      flowing := by
  have hlt : n < requests.length := (List.getElem?_eq_some_iff.1 hr).1
  have hended : ∀ m, Ended (log ++ [.sent (.answer n) frame]) m
      ↔ Ended log m ∨ n = m := fun m => by rw [ended_append]; rfl
  have hsame : ∀ m, eventsOf m (log ++ [.sent (.answer n) frame])
      = eventsOf m log := by
    intro m
    rw [eventsOf_append, show (Entry.sent (.answer n) frame).eventOf m
      = none from rfl,
      Option.toList_none, List.append_nil]
  have hid : idOf requests n = some r.id := by
    unfold idOf
    rw [hr]
    rfl
  refine
    { once := fun m => once_append.2 ⟨h.once m, fun hm ha => hopen (ha ▸ hm)⟩
      accepted := ?_
      known := ?_
      queued := h.queued
      flow := fun m r hr => by rw [hsame]; exact h.flow m r hr
      full := fun hflow m r hr => by rw [hsame]; exact h.full hflow m r hr
      orderly := h.orderly
      ended := ?_
      watched := ?_
      distinct := h.distinct
      ids := ?_
      unique := ?_ }
  · intro m front event back heq
    rcases List.eq_nil_or_concat back with rfl | ⟨rest, last, rfl⟩
    · obtain ⟨-, hlast⟩ := List.append_inj' heq rfl
      injection hlast with hlast
      injection hlast with hkind
      cases hkind
    · rw [List.concat_eq_append, ← List.cons_append, ← List.append_assoc]
        at heq
      exact h.accepted m front event rest (List.append_inj' heq rfl).1
  · intro m hm
    obtain ⟨a, ha, hsome⟩ := hm
    rcases List.mem_append.1 ha with ha | ha
    · exact h.known m ⟨a, ha, hsome⟩
    · rw [List.mem_singleton.1 ha] at hsome
      have heq : n = m := hsome
      exact heq ▸ hlt
  · intro m s hs hm
    rw [hsame]
    rcases (hended m).1 hm with hm | rfl
    · exact h.ended m s hs hm
    · rw [hr] at hs
      injection hs with hs
      exact hs ▸ ⟨hevents, hover⟩
  · intro w hw
    obtain ⟨hnot, hwork⟩ := h.watched w hw
    refine ⟨fun hw' => ?_, hwork⟩
    rcases (hended _).1 hw' with hw' | heq
    · exact hnot hw'
    · exact hwatches w hw heq.symm
  · intro id
    rw [Finset.mem_erase, h.ids]
    constructor
    · intro hid'
      obtain ⟨hne, m, hm, hmopen⟩ := hid'
      refine ⟨m, hm, fun hm' => ?_⟩
      rcases (hended m).1 hm' with hm' | rfl
      · exact hmopen hm'
      · rw [hid] at hm
        injection hm with hm
        exact hne hm.symm
    · intro hid'
      obtain ⟨m, hm, hmopen⟩ := hid'
      rw [hended, not_or] at hmopen
      refine ⟨fun heq => ?_, m, hm, hmopen.1⟩
      rw [heq] at hm
      exact hmopen.2 (h.unique n m _ hid hm hopen hmopen.1)
  · intro m k id hm hk hmopen hkopen
    rw [hended, not_or] at hmopen hkopen
    exact h.unique m k id hm hk hmopen.1 hkopen.1

/-- The first event of the queue is sent; if it is the last of its request,
the id is free. -/
theorem Ledger.send {q : Queued}
    (h : Ledger log requests ids (q :: queue) watches flowing)
    (haccepted : Accepted log q.request) :
    Ledger (log ++ [.sent (.event q.request) q.event]) requests
      (if isDone q.event = true
        then ids.erase (toText (lookup q.event (qs "id")))
        else ids) queue watches flowing := by
  obtain ⟨r, hr⟩ : ∃ r, requests[q.request]? = some r :=
    ⟨_, List.getElem?_eq_getElem (h.queued q (List.mem_cons_self ..))⟩
  -- where the event stands among those that were delivered
  have hflow := h.flow q.request r hr
  rw [queuedFor_cons, if_pos rfl] at hflow
  obtain ⟨back, hback⟩ := hflow
  have hback : r.delivered = eventsOf q.request log ++ q.event
      :: (queuedFor q.request queue ++ back) := by
    rw [← hback]
    simp
  have hopen : ¬ Ended log q.request := by
    intro hended
    have hall := (h.ended q.request r hr hended).1
    have hlength := congrArg List.length hback
    rw [← hall, List.length_append, List.length_cons] at hlength
    omega
  have hended : ∀ n, Ended (log ++ [.sent (.event q.request) q.event]) n
      ↔ Ended log n ∨ (q.request = n ∧ isDone q.event = true) := fun n => by
    rw [ended_append]
    rfl
  have hid : idOf requests q.request = some r.id := by
    unfold idOf
    rw [hr]
    rfl
  have htext : toText (lookup q.event (qs "id")) = r.id := by
    have hmem : q.event ∈ r.delivered := by
      rw [hback]
      exact List.mem_append_right _ (List.mem_cons_self ..)
    rw [(h.orderly _ r hr).id _ hmem]
    rfl
  refine
    { once := fun n => once_append.2 ⟨h.once n, fun hn ha => hopen (ha ▸ hn)⟩
      accepted := ?_
      known := ?_
      queued := fun a ha => h.queued a (List.mem_cons_of_mem _ ha)
      flow := fun n r hr => by rw [sent_queue]; exact h.flow n r hr
      full := fun hflow n r hr => by rw [sent_queue]; exact h.full hflow n r hr
      orderly := h.orderly
      ended := ?_
      watched := ?_
      distinct := h.distinct
      ids := ?_
      unique := ?_ }
  · intro n front frame rest heq
    rcases List.eq_nil_or_concat rest with rfl | ⟨more, last, rfl⟩
    · obtain ⟨hfront, hlast⟩ := List.append_inj' heq rfl
      injection hlast with hlast
      injection hlast with hkind
      injection hkind with hkind
      rw [← hfront, ← hkind]
      exact haccepted
    · rw [List.concat_eq_append, ← List.cons_append, ← List.append_assoc]
        at heq
      exact h.accepted n front frame more (List.append_inj' heq rfl).1
  · intro n hn
    obtain ⟨a, ha, hsome⟩ := hn
    rcases List.mem_append.1 ha with ha | ha
    · exact h.known n ⟨a, ha, hsome⟩
    · rw [List.mem_singleton.1 ha] at hsome
      have heq : q.request = n := hsome
      exact heq ▸ h.queued q (List.mem_cons_self ..)
  · intro n s hs hn
    rw [eventsOf_append]
    rcases (hended n).1 hn with hn | ⟨rfl, hdone⟩
    · have hne : q.request ≠ n := fun heq => hopen (heq ▸ hn)
      have hnone : (Entry.sent (.event q.request) q.event).eventOf n = none :=
        if_neg hne
      rw [hnone, Option.toList_none, List.append_nil]
      exact h.ended n s hs hn
    · rw [hr] at hs
      injection hs with hs
      subst hs
      obtain ⟨hnil, hwork⟩ := (h.orderly _ r hr).last _ _ _ hback hdone
      have hsome : (Entry.sent (.event q.request) q.event).eventOf q.request
          = some q.event := if_pos rfl
      rw [hsome, hwork, hback, hnil]
      exact ⟨rfl, rfl⟩
  · intro w hw
    obtain ⟨hnot, s, operation, outcome, hs, hid', hwork⟩ := h.watched w hw
    refine ⟨fun hw' => ?_, s, operation, outcome, hs, hid', hwork⟩
    rcases (hended _).1 hw' with hw' | ⟨heq, hdone⟩
    · exact hnot hw'
    · rw [← heq, hr] at hs
      injection hs with hs
      subst hs
      rw [((h.orderly _ r hr).last _ _ _ hback hdone).2] at hwork
      cases hwork
  · intro id
    by_cases hdone : isDone q.event = true
    · rw [if_pos hdone, htext, Finset.mem_erase, h.ids]
      constructor
      · intro hid'
        obtain ⟨hne, m, hm, hmopen⟩ := hid'
        refine ⟨m, hm, fun hm' => ?_⟩
        rcases (hended m).1 hm' with hm' | ⟨rfl, -⟩
        · exact hmopen hm'
        · rw [hid] at hm
          injection hm with hm
          exact hne hm.symm
      · intro hid'
        obtain ⟨m, hm, hmopen⟩ := hid'
        rw [hended, not_or] at hmopen
        refine ⟨fun heq => ?_, m, hm, hmopen.1⟩
        rw [heq] at hm
        exact hmopen.2 ⟨h.unique _ m _ hid hm hopen hmopen.1, hdone⟩
    · rw [if_neg hdone, h.ids]
      have hsame : ∀ m, Ended (log ++ [.sent (.event q.request) q.event]) m
          ↔ Ended log m := fun m => by
        rw [hended, or_iff_left fun hboth => hdone hboth.2]
      simp only [hsame]
  · intro m k id hm hk hmopen hkopen
    rw [hended, not_or] at hmopen hkopen
    exact h.unique m k id hm hk hmopen.1 hkopen.1

/-- A request begins, under an id that is free. Nothing was said of it before,
so all that the protocol asks of it is still to come. -/
theorem Ledger.begin (h : Ledger log requests ids queue watches flowing)
    {new : Request} (hid : new.id ∉ ids) (hnone : new.delivered = []) :
    Ledger log (requests ++ [new])
      (insert new.id ids) queue watches flowing := by
  obtain ⟨hnew, hevents, hqueue⟩ := h.fresh (Nat.le_refl requests.length)
  have hids : ∀ n id', idOf (requests ++ [new]) n = some id' ↔
      idOf requests n = some id' ∨ (n = requests.length ∧ new.id = id') := by
    intro n id'
    unfold idOf
    by_cases hn : n < requests.length
    · rw [List.getElem?_append_left hn]
      have hne : n ≠ requests.length := by omega
      simp [hne]
    · by_cases heq : n = requests.length
      · rw [heq, List.getElem?_append_right (Nat.le_refl _), Nat.sub_self]
        simp
      · rw [List.getElem?_eq_none (by simp; omega),
          List.getElem?_eq_none (by omega)]
        simp [heq]
  refine
    { once := h.once
      accepted := h.accepted
      known := fun n hn => by
        have hlt := h.known n hn
        rw [List.length_append]
        omega
      queued := fun q hq => by
        have hlt := h.queued q hq
        rw [List.length_append]
        omega
      flow := ?_
      full := ?_
      orderly := ?_
      ended := ?_
      watched := ?_
      distinct := h.distinct
      ids := ?_
      unique := ?_ }
  · intro n r hr
    rcases getElem?_begin hr with hr | ⟨rfl, rfl⟩
    · exact h.flow n r hr
    · rw [hevents, hqueue]
      exact List.nil_prefix
  · intro hflow n r hr
    rcases getElem?_begin hr with hr | ⟨rfl, rfl⟩
    · exact h.full hflow n r hr
    · rw [hevents, hqueue, hnone]
      rfl
  · intro n r hr
    rcases getElem?_begin hr with hr | ⟨rfl, rfl⟩
    · exact h.orderly n r hr
    · refine ⟨fun hne => absurd hnone hne, fun e he => ?_,
        fun front e back heq => ?_⟩
      · rw [hnone] at he
        cases he
      · rw [hnone] at heq
        exact absurd heq (by simp)
  · intro n r hr hn
    rcases getElem?_begin hr with hr | ⟨rfl, rfl⟩
    · exact h.ended n r hr hn
    · exact absurd hn hnew
  · intro w hw
    obtain ⟨hnot, r, operation, outcome, hr, hid', hwork⟩ := h.watched w hw
    refine ⟨hnot, r, operation, outcome, ?_, hid', hwork⟩
    rw [List.getElem?_append_left (List.getElem?_eq_some_iff.1 hr).1]
    exact hr
  · intro id'
    rw [Finset.mem_insert, h.ids]
    simp only [hids]
    constructor
    · intro hid'
      rcases hid' with rfl | ⟨n, hn, hopen⟩
      · exact ⟨requests.length, .inr ⟨rfl, rfl⟩, hnew⟩
      · exact ⟨n, .inl hn, hopen⟩
    · intro hid'
      obtain ⟨n, hn | ⟨-, heq⟩, hopen⟩ := hid'
      · exact .inr ⟨n, hn, hopen⟩
      · exact .inl heq.symm
  · intro n m id' hn hm hnopen hmopen
    rw [hids] at hn hm
    rcases hn with hn | ⟨rfl, rfl⟩
    · rcases hm with hm | ⟨rfl, rfl⟩
      · exact h.unique n m id' hn hm hnopen hmopen
      · exact absurd ((h.ids _).2 ⟨n, hn, hnopen⟩) hid
    · rcases hm with hm | ⟨hm, -⟩
      · exact absurd ((h.ids _).2 ⟨m, hm, hmopen⟩) hid
      · exact hm.symm

/-- A watch is added, for a request that has none. -/
theorem Ledger.watch (h : Ledger log requests ids queue watches flowing)
    {w : Watch}
    {r : Request} {operation : Operation} {outcome : Option Outcome}
    (hr : requests[w.request]? = some r) (hid : r.id = w.id)
    (hwork : r.work = .future operation outcome)
    (hopen : ¬ Ended log w.request)
    (hnew : ∀ w' ∈ watches, w'.request ≠ w.request) :
    Ledger log requests ids queue (w :: watches) flowing :=
  { h with
    watched := fun w' hw' => by
      rcases List.mem_cons.1 hw' with rfl | hw'
      · exact ⟨hopen, r, operation, outcome, hr, hid, hwork⟩
      · exact h.watched w' hw'
    distinct := by
      rw [List.map_cons, List.nodup_cons]
      refine ⟨fun hmem => ?_, h.distinct⟩
      obtain ⟨w', hw', heq⟩ := List.mem_map.1 hmem
      exact hnew w' hw' heq }

/-- A request whose work goes on is replaced, and its events are queued. The
order of the queue is the order in which the work produced them. -/
theorem Ledger.set (h : Ledger log requests ids queue watches flowing)
    {n : Nat}
    {r r' : Request} {queue' : List Queued} (hr : requests[n]? = some r)
    (hid : r'.id = r.id) (hover : r.work.over = false) (horderly : r'.Orderly)
    (hwork : ∀ operation outcome, r.work = .future operation outcome →
      ∃ operation outcome, r'.work = .future operation outcome)
    (hqueued : ∀ q ∈ queue', q.request < requests.length)
    (hother : ∀ m, m ≠ n → queuedFor m queue' = queuedFor m queue)
    (hflow : eventsOf n log ++ queuedFor n queue' <+: r'.delivered)
    (hfull : flowing' → flowing ∧ eventsOf n log ++ queuedFor n queue'
      = r'.delivered) :
    Ledger log (requests.set n r') ids queue' watches flowing' := by
  have hlt : n < requests.length := (List.getElem?_eq_some_iff.1 hr).1
  have hself : (requests.set n r')[n]? = some r' := by
    rw [List.getElem?_set_self hlt]
  have hkeep : ∀ m, m ≠ n → (requests.set n r')[m]? = requests[m]? :=
      fun m hm =>
    List.getElem?_set_ne (fun heq => hm heq.symm)
  have hids : ∀ m, idOf (requests.set n r') m = idOf requests m := by
    intro m
    unfold idOf
    by_cases hm : m = n
    · rw [hm, hself, hr, Option.map_some, Option.map_some, hid]
    · rw [hkeep m hm]
  refine
    { once := h.once
      accepted := h.accepted
      known := fun m hm => by
        rw [List.length_set]
        exact h.known m hm
      queued := fun q hq => by
        rw [List.length_set]
        exact hqueued q hq
      flow := ?_
      full := ?_
      orderly := ?_
      ended := ?_
      watched := ?_
      distinct := h.distinct
      ids := fun id => by simp only [hids]; exact h.ids id
      unique := fun m k id => by simp only [hids]; exact h.unique m k id }
  · intro m s hs
    by_cases hm : m = n
    · rw [hm, hself] at hs
      injection hs with hs
      rw [hm, ← hs]
      exact hflow
    · rw [hkeep m hm] at hs
      rw [hother m hm]
      exact h.flow m s hs
  · intro hflowing m s hs
    obtain ⟨hbefore, hall⟩ := hfull hflowing
    by_cases hm : m = n
    · rw [hm, hself] at hs
      injection hs with hs
      rw [hm, ← hs]
      exact hall
    · rw [hkeep m hm] at hs
      rw [hother m hm]
      exact h.full hbefore m s hs
  · intro m s hs
    by_cases hm : m = n
    · rw [hm, hself] at hs
      injection hs with hs
      exact hs ▸ horderly
    · rw [hkeep m hm] at hs
      exact h.orderly m s hs
  · intro m s hs hended
    by_cases hm : m = n
    · have hdone := (h.ended n r hr (hm ▸ hended)).2
      rw [hover] at hdone
      cases hdone
    · rw [hkeep m hm] at hs
      exact h.ended m s hs hended
  · intro w hw
    obtain ⟨hnot, s, operation, outcome, hs, hsid, hswork⟩ := h.watched w hw
    refine ⟨hnot, ?_⟩
    by_cases hm : w.request = n
    · rw [hm, hr] at hs
      injection hs with hs
      subst hs
      obtain ⟨operation, outcome, hr'⟩ := hwork _ _ hswork
      exact ⟨r', operation, outcome, hm ▸ hself, hid.trans hsid, hr'⟩
    · exact ⟨s, operation, outcome, (hkeep _ hm).trans hs, hsid, hswork⟩

/-- A callback delivers an event, which goes into the queue. It is not on the
wire yet, and the ledger keeps the two apart. -/
theorem Ledger.deliver (h : Ledger log requests ids queue watches flowing)
    (hflowing : flowing) {n : Nat} {r : Request}
    {payload : Payload} {work : Work}
    (hr : requests[n]? = some r) (hafter : r.work.after payload = some work) :
    Ledger log (requests.set n { r with
        work
        delivered := r.delivered ++ [payload.event r.id] }) ids
      (queue ++ [⟨n, payload.event r.id⟩]) watches flowing := by
  have hlt : n < requests.length := (List.getElem?_eq_some_iff.1 hr).1
  have hall : eventsOf n log
    ++ queuedFor n (queue ++ [⟨n, payload.event r.id⟩])
      = r.delivered ++ [payload.event r.id] := by
    rw [queuedFor_append, ← List.append_assoc, h.full hflowing n r hr,
      queuedFor_cons,
      if_pos rfl]
    rfl
  refine h.set hr rfl (Work.after_some hafter).1
    ((h.orderly n r hr).delivered hafter)
    ?_ ?_ ?_ ?_ ?_
  · intro operation outcome hwork
    rw [hwork] at hafter
    exact ⟨operation, none, Work.after_future hafter⟩
  · intro q hq
    rcases List.mem_append.1 hq with hq | hq
    · exact h.queued q hq
    · rw [List.mem_singleton.1 hq]
      exact hlt
  · intro m hm
    rw [queuedFor_append, queuedFor_cons, if_neg fun heq => hm heq.symm]
    exact List.append_nil _
  · rw [hall]
  · exact fun _ => ⟨hflowing, hall⟩

/-- An event is lost: the inbox has overflowed or is closed. -/
theorem Ledger.lose (h : Ledger log requests ids queue watches flowing)
    {n : Nat} {r : Request} {payload : Payload} {work : Work}
    (hr : requests[n]? = some r) (hafter : r.work.after payload = some work) :
    Ledger log (requests.set n { r with
        work
        delivered := r.delivered ++ [payload.event r.id] }) ids queue
            watches False := by
  refine h.set hr rfl (Work.after_some hafter).1
    ((h.orderly n r hr).delivered hafter)
    ?_ h.queued (fun _ _ => rfl) ?_ (fun hfalse => hfalse.elim)
  · intro operation outcome hwork
    rw [hwork] at hafter
    exact ⟨operation, none, Work.after_future hafter⟩
  · exact (h.flow n r hr).trans (List.prefix_append _ _)

/-- A future becomes ready. -/
theorem Ledger.complete (h : Ledger log requests ids queue watches flowing)
    {n : Nat}
    {r : Request} {operation : Operation} (hr : requests[n]? = some r)
    (hwork : r.work = .future operation none) (outcome : Outcome) :
    Ledger log (requests.set n
      { r with work := .future operation (some outcome) }) ids
      queue watches flowing := by
  have horderly := h.orderly n r hr
  refine h.set hr rfl (by rw [hwork]; rfl) ⟨fun hne => ?_, horderly.id, ?_⟩
    (fun _ _ _ => ⟨operation, some outcome, rfl⟩) h.queued (fun _ _ => rfl)
    (h.flow n r hr) (fun hflowing => ⟨hflowing, h.full hflowing n r hr⟩)
  · have hstreams := horderly.streams hne
    rw [hwork] at hstreams
    exact hstreams
  · intro front e back heq hdone
    have hchat := (horderly.last front e back heq hdone).2
    rw [hwork] at hchat
    cases hchat

end Ledger

-- ============================================================= the connection

/-- The events that `drain` has taken. -/
def Main.queue : Main → List Queued
  | .sending events _ => events
  | _ => []

/-- The watches that are not in `pending`. -/
def Main.watches : Main → List Watch
  | .answering _ _ _ watch => watch.toList
  | .taking (.reply w _ todo) => w :: todo
  | .sending _ (.reply w _ todo) => w :: todo
  | .polling todo => todo
  | _ => []

def Client.queue (c : Client) : List Queued := c.main.queue ++ c.inbox.events

def Client.watches (c : Client) : List Watch := c.pending ++ c.main.watches

/-- What the thread of the server is about to do is due. -/
def Main.Fits (requests : List Request) (log : List Entry) : Main → Prop
  | .answering (.answer n) _ id watch => ¬ Ended log n ∧ watch = none
      ∧ ∃ r, requests[n]? = some r ∧ r.work = .direct ∧ id = some r.id
  | .answering .refused _ id watch => id = none ∧ watch = none
  | .answering (.accepted n) _ id _ =>
      id = none ∧ n < requests.length ∧ ¬ Ended log n
  | .answering (.event _) _ _ _ => False
  | .taking (.reply w _ _) =>
      ∃ r, requests[w.request]? = some r ∧ r.work.over = true
  | .sending events (.reply w _ _) => ∃ r, requests[w.request]? = some r
      ∧ r.work.over = true
      ∧ eventsOf w.request log ++ queuedFor w.request events = r.delivered
  | _ => True

/-- It is about to send a frame from the loop of `read`. -/
def Main.Answers : Main → Prop
  | .answering .. => True
  | _ => False

structure Served (v : Server) (c : Client) : Prop where
  ledger : Ledger c.log c.requests c.ids c.queue c.watches
    (c.inbox.overflow = false ∧ c.inbox.closed = false)
  fits : c.main.Fits c.requests c.log
  streams : ∀ n r, c.requests[n]? = some r → r.work.streams = true →
    Accepted c.log n ∨ ∃ frame id watch,
      c.main = .answering (.accepted n) frame id watch
  room : (c.ids.card : Int) ≤ v.maxInFlightPerConnection
    ∨ ((c.ids.card : Int) ≤ v.maxInFlightPerConnection + 1
      ∧ ∃ n frame id r, c.main = .answering (.answer n) frame id none
        ∧ c.requests[n]? = some r ∧ r.method = qs "cancel")
  bytes : c.inbox.closed = false →
    c.inbox.bytes = (c.inbox.events.map fun q =>
      (v.lineSize q.event : Int)).sum
      ∧ c.inbox.bytes ≤ v.maxBufferedOutputBytes
  calm : c.connected = false → c.main = .idle ∨ c.main = .gone

/-- What the ledger records about every call is what the protocol
promises for it. -/
theorem Served.protocol (h : Served v c) : Protocol v c where
  once := h.ledger.once
  accepted := h.ledger.accepted
  complete := fun n r hr hended => (h.ledger.ended n r hr hended).1
  ids := by
    intro id
    rw [h.ledger.ids]
    constructor
    · intro hid
      obtain ⟨n, hn, hopen⟩ := hid
      obtain ⟨r, hr, hid⟩ := Option.map_eq_some_iff.1 hn
      exact ⟨n, r, hr, hid, hopen⟩
    · intro hid
      obtain ⟨n, r, hr, hid, hopen⟩ := hid
      exact ⟨n, Option.map_eq_some_iff.2 ⟨r, hr, hid⟩, hopen⟩
  unique := fun n m r s hr hs hn hm hid => h.ledger.unique n m r.id
    (Option.map_eq_some_iff.2 ⟨r, hr, rfl⟩)
    (Option.map_eq_some_iff.2 ⟨s, hs, hid.symm⟩) hn hm
  room := h.room
  bytes := h.bytes

/-- Outside of the answers, every stream was accepted and the ids are within
the limit. -/
theorem Served.steady (h : Served v c) (hnot : ¬ c.main.Answers) :
    (∀ n r, c.requests[n]? = some r → r.work.streams = true → Accepted c.log n)
      ∧ (c.ids.card : Int) ≤ v.maxInFlightPerConnection := by
  constructor
  · intro n r hr hstreams
    rcases h.streams n r hr hstreams with haccepted | ⟨frame, id, watch, hmain⟩
    · exact haccepted
    · refine absurd ?_ hnot
      rw [hmain]
      trivial
  · rcases h.room with hroom | ⟨-, n, frame, id, r, hmain, -⟩
    · exact hroom
    · refine absurd ?_ hnot
      rw [hmain]
      trivial

/-- A server that is at work has a connection. -/
theorem Served.connected (h : Served v c) (hidle : c.main ≠ .idle)
    (hgone : c.main ≠ .gone) : c.connected = true := by
  by_contra hclosed
  rw [Bool.not_eq_true] at hclosed
  rcases h.calm hclosed with hmain | hmain
  · exact hidle hmain
  · exact hgone hmain

/-- The thread of the server goes on, and nothing else changes. -/
theorem Served.move (h : Served v c) (hnot : ¬ c.main.Answers)
    (hlog : c'.log = c.log) (hrequests : c'.requests = c.requests)
    (hids : c'.ids = c.ids) (hinbox : c'.inbox = c.inbox)
    (hqueue : c'.main.queue = c.main.queue)
    (hwatches : c'.watches.Perm c.watches)
    (hfits : c'.main.Fits c.requests c.log)
    (hcalm : c'.connected = false → c'.main = .idle ∨ c'.main = .gone) :
    Served v c' := by
  obtain ⟨hstreams, hroom⟩ := h.steady hnot
  have hqueue : c'.queue = c.queue := by
    unfold Client.queue
    rw [hqueue, hinbox]
  refine ⟨?_, ?_, ?_, ?_, ?_, hcalm⟩
  · rw [hlog, hrequests, hids, hqueue, hinbox]
    exact h.ledger.perm hwatches
  · rw [hlog, hrequests]
    exact hfits
  · rw [hlog, hrequests]
    exact fun n r hr hs => .inl (hstreams n r hr hs)
  · rw [hids]
    exact .inl hroom
  · rw [hinbox]
    exact h.bytes

/-- The thread of the server goes on to another place, with the same work in
its hands. -/
theorem Served.turn (h : Served v c) {m : Main} (hmain : c.main = m)
    (hnot : ¬ m.Answers)
    (hlog : c'.log = c.log) (hrequests : c'.requests = c.requests)
    (hids : c'.ids = c.ids) (hinbox : c'.inbox = c.inbox)
    (hqueue : c'.main.queue = m.queue) (hpending : c'.pending = c.pending)
    (hwatches : c'.main.watches = m.watches)
    (hfits : c'.main.Fits c.requests c.log)
    (hcalm : c'.connected = true ∨ c'.main = .idle) : Served v c' := by
  subst hmain
  refine h.move hnot hlog hrequests hids hinbox hqueue ?_ hfits
    fun hclosed => ?_
  · unfold Client.watches
    rw [hpending, hwatches]
  · rcases hcalm with hopen | hidle
    · exact absurd (hopen.symm.trans hclosed) (by decide)
    · exact .inl hidle

/-- The client is erased after the peer was lost. -/
theorem Served.gone (h : Served v c) (hmain : c.main = .idle)
    (hclosed : c.connected = false) : Served v c.disconnect := by
  have hnot : ¬ c.main.Answers := by
    rw [hmain]
    exact not_false
  obtain ⟨hstreams, hroom⟩ := h.steady hnot
  have habort : c.abort = c :=
    if_neg (by rw [hclosed]; exact Bool.false_ne_true)
  unfold Client.disconnect
  rw [habort]
  refine ⟨?_, trivial, fun n r hr hs => .inl (hstreams n r hr hs), .inl hroom,
    fun hopen => absurd hopen (by simp), fun _ => .inr rfl⟩
  have hwatches : c.watches = c.pending := by
    unfold Client.watches
    rw [hmain]
    exact List.append_nil _
  have hdropped := h.ledger.drop
  rw [hwatches] at hdropped
  have hledger : Ledger c.log c.requests c.ids [] c.pending
      (c.inbox.overflow = false ∧ (true : Bool) = false) :=
    hdropped.weaken fun hflow => absurd hflow.2 (by decide)
  show Ledger c.log c.requests c.ids [] (c.pending ++ []) _
  rw [List.append_nil]
  exact hledger

-- ----------------------------------------------------------------- the writes

/-- What `send` does, unless it aborts. -/
theorem send_live {kind : Kind} {frame : JsonObject}
    (hconnected : c.connected = true)
    (hlive : Entry.aborted ∉ (c.send v kind frame).log) :
    c.send v kind frame = { c with
      written := c.written + v.lineSize frame
      log := c.log ++ [.sent kind frame] } := by
  unfold Client.send at hlive ⊢
  rw [if_neg (by rw [hconnected]; decide)] at hlive ⊢
  by_cases hover : (c.written + v.lineSize frame : Int)
    > v.maxBufferedOutputBytes
  · rw [if_pos hover] at hlive
    unfold Client.abort at hlive
    rw [if_pos hconnected] at hlive
    exact absurd (List.mem_append_right _ (List.mem_singleton_self _)) hlive
  · rw [if_neg hover]

/-- Nothing is taken out of the log. -/
theorem Writes.mem {e : Entry} (hw : Writes c c') (h : e ∈ c.log) :
    e ∈ c'.log := by
  cases hw with
  | nothing hlog _ => exact hlog ▸ h
  | sent kind frame hlog _ =>
      rw [hlog]
      exact List.mem_append_left _ h
  | aborted hlog _ =>
      rw [hlog]
      exact List.mem_append_left _ h

/-- Aborting an open connection is visible in its log. -/
theorem mem_aborted (hconnected : c.connected = true) :
    Entry.aborted ∈ c.abort.log := by
  unfold Client.abort
  rw [if_pos hconnected]
  exact List.mem_append_right _ (List.mem_singleton_self _)

/-- No step takes anything out of the log. -/
theorem mem_step {a : Action} {e : Entry} (h : e ∈ c.log)
    (hstep : c.step v a = some c') : e ∈ c'.log := by
  have hcases := step_cases hstep
  by_cases hreceive : ∃ bytes, a = .receive bytes
  · obtain ⟨bytes, rfl⟩ := hreceive
    cases hcases with
    | receive => exact h
  by_cases hframe : ∃ response, a = .frame response
  · obtain ⟨response, rfl⟩ := hframe
    cases hcases with
    | stop => exact h
    | long => exact abort_writes.mem h
    | line _ _ _ _ _ _ _ hrequest =>
        rcases (request_cases hrequest).log with hlog | hlog
        · exact hlog ▸ h
        · rw [hlog]
          exact List.mem_append_left _ h
  exact (hcases.outside (fun bytes heq => hreceive ⟨bytes, heq⟩)
    (fun response heq => hframe ⟨response, heq⟩)).writes.mem h

-- ----------------------------------------------------------------- the frames

/-- The frame that is next asks for a method of the RPC handler. -/
def Client.asksRpc (v : Server) (c : Client) : Prop :=
  ∃ line rest request method p, takeLine c.input = some (line, rest)
    ∧ v.parse line = some request ∧ string request "method" true = .ok method
    ∧ dispatch v c.generations method p = .ok .rpc

/-- What `Rpc.h` asks of a handle: a valid future, and a request id that is not
empty and is no other operation's. -/
def Contract (v : Server) (c : Client) (a : Action) : Prop :=
  ∀ requestId valid, a = .frame (.handle requestId valid) → c.asksRpc v →
    valid = true ∧ requestId ≠ [] ∧ requestId ∉ c.generations ∪ c.cancelled

/-- The handles of the RPC handler are valid, and their request ids are not
empty and no longer than the server takes. -/
def Obeys (v : Server) (c : Client) (a : Action) : Prop :=
  ∀ requestId valid, a = .frame (.handle requestId valid) → c.asksRpc v →
    valid = true ∧ requestId ≠ [] ∧ requestId.length ≤ 128

/-- An entry that is about no request. -/
theorem Ledger.dispatched {log : List Entry} {requests : List Request}
    {ids : Finset QString} {queue : List Queued} {watches : List Watch}
    {flowing : Prop}
    (h : Ledger log requests ids queue watches flowing) (n : Nat) :
    Ledger (log ++ [.dispatched n]) requests ids queue watches flowing :=
  h.note (fun _ ha => ha.elim) (fun _ he => he) (fun _ _ heq => nomatch heq)

/-- A dispatch ends nothing. -/
theorem ended_dispatched {log : List Entry} {m : Nat} (n : Nat) :
    Ended (log ++ [.dispatched m]) n ↔ Ended log n := by
  rw [ended_append]
  exact or_iff_left fun he => he

/-- A request that has only begun is not watched. -/
theorem Ledger.unwatched {log : List Entry} {requests : List Request}
    {ids : Finset QString} {queue : List Queued} {watches : List Watch}
    {flowing : Prop} (h : Ledger log requests ids queue watches flowing) :
    ∀ w ∈ watches, w.request ≠ requests.length := by
  intro w hw heq
  obtain ⟨-, r, -, -, hr, -⟩ := h.watched w hw
  have hlt := (List.getElem?_eq_some_iff.1 hr).1
  omega

/-- The card of the ids, with one more. -/
theorem card_insert {ids : Finset QString} {id : QString} (h : id ∉ ids) :
    ((insert id ids).card : Int) = ids.card + 1 := by
  rw [Finset.card_insert_of_notMem h]
  push_cast
  rfl

/-- A frame that is handled. It is refused, answered at once, or begins a
request; a cancellation speaks for another request than its own. -/
theorem Served.handled (h : Served v c) (hmain : c.main = .reading)
    {response : Response}
    {line rest : List UInt8} (hline : takeLine c.input = some (line, rest))
    (hobeys : Obeys v c (.frame response))
    (hhandled : Handled v response (v.parse line)
      { c with input := rest } c') :
    Served v c' := by
  have hnot : ¬ c.main.Answers := by
    rw [hmain]
    exact not_false
  obtain ⟨hstreams, hroom⟩ := h.steady hnot
  have hconnected : c.connected = true := by
    refine h.connected ?_ ?_ <;>
    · rw [hmain]
      exact Main.noConfusion
  have hqueue : c.queue = c.inbox.events := by
    unfold Client.queue
    rw [hmain]
    rfl
  have hwatches : c.watches = c.pending := by
    unfold Client.watches
    rw [hmain]
    exact List.append_nil _
  have hledger := h.ledger
  rw [hqueue, hwatches] at hledger
  obtain ⟨hnew, hevents, -⟩ := hledger.fresh (Nat.le_refl c.requests.length)
  have hcalm : c.connected = false → ∀ P : Prop, P := fun hclosed =>
    absurd (hconnected.symm.trans hclosed) (by decide)
  cases hhandled with
  | refuse id error =>
      refine h.move hnot rfl rfl rfl rfl ?_ ?_ ⟨rfl, rfl⟩ fun hclosed =>
        hcalm hclosed _
      · rw [hmain]
        rfl
      · rw [hwatches]
        show (c.pending ++ []).Perm _
        rw [List.append_nil]
  | answer id method log cancelled frame hid hfree hlog =>
      have hbegun : Ledger c.log
        (c.requests ++ [{ id, method, work := .direct }])
          (insert id c.ids) c.inbox.events c.pending
          (c.inbox.overflow = false ∧ c.inbox.closed = false) :=
            hledger.begin hid rfl
      -- the request is dispatched, or it has failed before
      have hlogged : Ledger log
        (c.requests ++ [{ id, method, work := .direct }])
          (insert id c.ids) c.inbox.events c.pending
          (c.inbox.overflow = false ∧ c.inbox.closed = false)
          ∧ (∀ n, Ended log n ↔ Ended c.log n) ∧ ∀ n, Accepted c.log n →
          Accepted log n := by
        rcases hlog with rfl | rfl
        · exact ⟨hbegun, fun _ => Iff.rfl, fun _ ha => ha⟩
        · exact ⟨hbegun.dispatched _, ended_dispatched, fun _ ha =>
            accepted_append.2 (.inl ha)⟩
      obtain ⟨hbooks, hended, haccepted⟩ := hlogged
      have hcard : ((insert id c.ids).card : Int) = c.ids.card + 1 :=
        card_insert hid
      refine ⟨?_, ⟨(hended _).not.2 hnew, rfl, _, getElem?_begun,
        rfl, rfl⟩, ?_, ?_,
        h.bytes, fun hclosed => hcalm hclosed _⟩
      · show Ledger log _ _ ([] ++ c.inbox.events) (c.pending ++ []) _
        rw [List.append_nil]
        exact hbooks
      · intro n r hr hs
        rcases getElem?_begin hr with hr | ⟨-, rfl⟩
        · exact .inl (haccepted n (hstreams n r hr hs))
        · cases hs
      · show ((insert id c.ids).card : Int) ≤ _
          ∨ (((insert id c.ids).card : Int) ≤ _ ∧ _)
        rw [hcard]
        rcases hfree with hfree | hcancel
        · have hfree : (c.ids.card : Int) < v.maxInFlightPerConnection := hfree
          exact .inl (by omega)
        · exact .inr ⟨by omega, _, _, _, _, rfl, getElem?_begun, hcancel⟩
  | call id method hid hfree =>
      have hfree : (c.ids.card : Int) < v.maxInFlightPerConnection := hfree
      have hbegun : Ledger c.log
          (c.requests ++ [{ id, method, work := .future .call none }])
          (insert id c.ids) c.inbox.events c.pending
          (c.inbox.overflow = false ∧ c.inbox.closed = false) :=
            hledger.begin hid rfl
      have hbooks := (hbegun.dispatched c.requests.length).watch
        (w := ⟨c.requests.length, id, []⟩) getElem?_begun rfl rfl
        ((ended_dispatched _).not.2 hnew) hledger.unwatched
      have hcard : ((insert id c.ids).card : Int) = c.ids.card + 1 :=
        card_insert hid
      refine ⟨?_, trivial, ?_, ?_, h.bytes, fun hclosed => hcalm hclosed _⟩
      · refine hbooks.perm ?_
        show ((c.pending ++ [_]) ++ []).Perm _
        rw [List.append_nil]
        exact List.perm_append_singleton _ _
      · intro n r hr hs
        rcases getElem?_begin hr with hr | ⟨-, rfl⟩
        · exact .inl (accepted_append.2 (.inl (hstreams n r hr hs)))
        · cases hs
      · show ((insert id c.ids).card : Int) ≤ _ ∨ _
        rw [hcard]
        exact .inl (by omega)
  | stream id method requestId work watch hid hfree hwork =>
      have hfree : (c.ids.card : Int) < v.maxInFlightPerConnection := hfree
      have hbegun : Ledger c.log
        (c.requests ++ [({ id, method, work } : Request)])
          (insert id c.ids) c.inbox.events c.pending
          (c.inbox.overflow = false ∧ c.inbox.closed = false) :=
            hledger.begin hid rfl
      have hdispatched := hbegun.dispatched c.requests.length
      have hbooks : Ledger (c.log ++ [.dispatched c.requests.length])
          (c.requests ++ [({ id, method, work } : Request)]) (insert id c.ids)
          c.inbox.events (c.pending ++ watch.toList)
          (c.inbox.overflow = false ∧ c.inbox.closed = false) := by
        rcases hwork with ⟨-, rfl⟩ | ⟨operation, rfl, rfl⟩
        · show Ledger _ _ _ _ (c.pending ++ []) _
          rw [List.append_nil]
          exact hdispatched
        · exact (hdispatched.watch (w := ⟨c.requests.length, id, requestId⟩)
            getElem?_begun rfl rfl ((ended_dispatched _).not.2 hnew)
            hledger.unwatched).perm (List.perm_append_singleton _ _)
      have hcard : ((insert id c.ids).card : Int) = c.ids.card + 1 :=
        card_insert hid
      refine ⟨hbooks, ⟨rfl, ?_, (ended_dispatched _).not.2 hnew⟩,
        ?_, ?_, h.bytes,
        fun hclosed => hcalm hclosed _⟩
      · show c.requests.length < (c.requests ++ [_]).length
        rw [List.length_append, List.length_singleton]
        omega
      · intro n r hr hs
        rcases getElem?_begin hr with hr | ⟨rfl, -⟩
        · exact .inl (accepted_append.2 (.inl (hstreams n r hr hs)))
        · exact .inr ⟨_, _, _, rfl⟩
      · show ((insert id c.ids).card : Int) ≤ _ ∨ _
        rw [hcard]
        exact .inl (by omega)
  | invalid id method requestId valid frame request p hid hfree
      hparsed hmethod hrpc
      hresponse hbad =>
      obtain ⟨hvalid, hne, hshort⟩ :=
        hobeys requestId valid (by rw [hresponse])
        ⟨line, rest, request, method, p, hline, hparsed, hmethod, hrpc⟩
      rcases hbad with hbad | hbad | hbad
      · rw [hvalid] at hbad
        cases hbad
      · exact absurd hbad hne
      · omega

/-- Without the id of a request that has not ended, the ids are one less. -/
theorem Served.card_erase (h : Served v c) {n : Nat} {r : Request}
    (hr : c.requests[n]? = some r) (hopen : ¬ Ended c.log n) :
    ((c.ids.erase r.id).card : Int) + 1 = c.ids.card := by
  have hmem : r.id ∈ c.ids := (h.ledger.ids r.id).2
    ⟨n, Option.map_eq_some_iff.2 ⟨r, hr, rfl⟩, hopen⟩
  have hcard := Finset.card_erase_add_one hmem
  omega

/-- The frame of the loop of `read` is sent, and what was waiting
behind it goes on. -/
theorem Served.answer (h : Served v c) {kind : Kind} {frame : JsonObject}
    {id : Option QString} {watch : Option Watch}
    (hmain : c.main = .answering kind frame id watch)
    (hlive : Entry.aborted ∉ (c.send v kind frame).log)
    (hstep : c' = { (c.send v kind frame).release id with
      pending := ((c.send v kind frame).release id).pending ++ watch.toList
      main := .reading }) : Served v c' := by
  have hconnected : c.connected = true := by
    refine h.connected ?_ ?_ <;>
    · rw [hmain]
      exact Main.noConfusion
  have hcalm : c.connected = false → ∀ P : Prop, P := fun hclosed =>
    absurd (hconnected.symm.trans hclosed) (by decide)
  rw [send_live hconnected hlive] at hstep
  have hqueue : c.queue = c.inbox.events := by
    unfold Client.queue
    rw [hmain]
    rfl
  have hledger := h.ledger
  have hfits := h.fits
  have hstreams := h.streams
  have hroom := h.room
  rw [hqueue] at hledger
  unfold Client.watches at hledger
  rw [hmain] at hledger hfits hstreams hroom
  -- only an acceptance changes what is accepted
  have haccepted : (∀ n, kind ≠ .accepted n) → ∀ n r, c.requests[n]? = some r →
      r.work.streams = true → Accepted (c.log ++ [.sent kind frame]) n := by
    intro hkind n r hr hs
    rcases hstreams n r hr hs with ha | ⟨frame', id', watch', heq⟩
    · exact accepted_append.2 (.inl ha)
    · injection heq with heq
      exact absurd heq (hkind n)
  cases kind with
  | refused =>
      obtain ⟨rfl, rfl⟩ := hfits
      subst hstep
      refine ⟨?_, trivial, fun n r hr hs =>
        .inl (haccepted (fun _ => Kind.noConfusion)
        n r hr hs), ?_, h.bytes, fun hclosed => hcalm hclosed _⟩
      · have hnoted : Ledger (c.log ++ [.sent .refused frame]) c.requests c.ids
            c.inbox.events (c.pending ++ [])
            (c.inbox.overflow = false ∧ c.inbox.closed = false) :=
          hledger.note (fun _ ha => ha.elim) (fun _ he => he)
            (fun _ _ heq => nomatch heq)
        exact hnoted.perm
          (by simp [Client.watches, Main.watches, Client.release])
      · rcases hroom with hroom | ⟨-, n, frame', id', r, heq, -⟩
        · exact .inl hroom
        · injection heq with heq
          cases heq
  | event n => exact hfits.elim
  | accepted n =>
      obtain ⟨rfl, hn, hopen⟩ := hfits
      subst hstep
      refine ⟨?_, trivial, ?_, ?_, h.bytes, fun hclosed => hcalm hclosed _⟩
      · have habout : ∀ m, (Entry.sent (.accepted n) frame).about m →
            m < c.requests.length ∧ ¬ Ended c.log m := by
          intro m hm
          have heq : n = m := hm
          exact heq ▸ ⟨hn, hopen⟩
        have hnoted : Ledger (c.log ++ [.sent (.accepted n) frame])
          c.requests c.ids
            c.inbox.events (c.pending ++ watch.toList)
            (c.inbox.overflow = false ∧ c.inbox.closed = false) :=
          hledger.note habout (fun _ he => he) (fun _ _ heq => nomatch heq)
        exact hnoted.perm
          (by simp [Client.watches, Main.watches, Client.release])
      · intro m r hr hs
        rcases hstreams m r hr hs with ha | ⟨frame', id', watch', heq⟩
        · exact .inl (accepted_append.2 (.inl ha))
        · injection heq with heq
          injection heq with heq
          exact .inl (accepted_append.2 (.inr heq))
      · rcases hroom with hroom | ⟨-, m, frame', id', r, heq, -⟩
        · exact .inl hroom
        · injection heq with heq
          cases heq
  | answer n =>
      obtain ⟨hopen, rfl, r, hr, hwork, rfl⟩ := hfits
      have horderly := hledger.orderly n r hr
      have hnone : r.delivered = [] := by
        by_contra hne
        have hs := horderly.streams hne
        rw [hwork] at hs
        cases hs
      have hevents : eventsOf n c.log = r.delivered := by
        have hflow := hledger.flow n r hr
        rw [hnone] at hflow ⊢
        exact (List.append_eq_nil_iff.1 (List.prefix_nil.1 hflow)).1
      have hwatches : ∀ w ∈ c.pending ++ [], w.request ≠ n := by
        intro w hw heq
        obtain ⟨-, s, operation, outcome, hs, -, hfuture⟩ :=
          hledger.watched w hw
        rw [heq, hr] at hs
        injection hs with hs
        rw [← hs, hwork] at hfuture
        cases hfuture
      have hcard := h.card_erase hr hopen
      subst hstep
      refine ⟨?_, trivial, fun m s hs hstream => .inl (haccepted
        (fun _ => Kind.noConfusion) m s hs hstream), ?_, h.bytes,
        fun hclosed => hcalm hclosed _⟩
      · exact (hledger.answer hr (by rw [hwork]; rfl) hopen hevents
          hwatches frame).perm
          (by simp [Client.watches, Main.watches, Client.release])
      · refine .inl ?_
        show ((c.ids.erase r.id).card : Int) ≤ _
        rcases hroom with hroom | ⟨hroom, -⟩
        · omega
        · omega

-- ----------------------------------------------------------------- the drains

/-- `drain` takes the events. -/
theorem Served.take (h : Served v c) {after : After}
    (hmain : c.main = .taking after)
    (hgood : (c.inbox.overflow || c.inbox.closed) = false) :
    Served v { c.emptied with main := .sending c.inbox.events after } := by
  have hconnected : c.connected = true := by
    refine h.connected ?_ ?_ <;>
    · rw [hmain]
      exact Main.noConfusion
  have hnot : ¬ c.main.Answers := by
    rw [hmain]
    exact not_false
  obtain ⟨hstreams, hroom⟩ := h.steady hnot
  have hledger := h.ledger
  have hfits := h.fits
  unfold Client.queue Client.watches at hledger
  rw [hmain] at hledger hfits
  rw [Bool.or_eq_false_iff] at hgood
  have hqueue : (Main.taking after).queue ++ c.inbox.events
    = c.inbox.events := rfl
  rw [hqueue] at hledger
  refine ⟨?_, ?_, fun n r hr hs => .inl (hstreams n r hr hs), .inl hroom, ?_,
    fun hclosed => absurd (hconnected.symm.trans hclosed) (by decide)⟩
  · show Ledger _ _ _ (c.inbox.events ++ [])
      (c.pending ++ (Main.sending _ after).watches) _
    rw [List.append_nil]
    refine hledger.perm ?_
    cases after with
    | poll => exact List.Perm.refl _
    | reply w outcome todo => exact List.Perm.refl _
  · cases after with
    | poll => trivial
    | reply w outcome todo =>
        obtain ⟨r, hr, hover⟩ := hfits
        exact ⟨r, hr, hover, hledger.full hgood _ r hr⟩
  · have hlimit := v.limits.2.2
    exact fun _ => ⟨rfl, show (0 : Int) ≤ v.maxBufferedOutputBytes by omega⟩

/-- `drain` sends an event. The last event of a request is its
end, and is sent once. -/
theorem Served.sendEvent (h : Served v c) {q : Queued} {rest : List Queued}
    {after : After} (hmain : c.main = .sending (q :: rest) after)
    (hlive : Entry.aborted ∉ (c.sendEvent v q rest after).log) :
    Served v (c.sendEvent v q rest after) := by
  have hconnected : c.connected = true := by
    refine h.connected ?_ ?_ <;>
    · rw [hmain]
      exact Main.noConfusion
  have hnot : ¬ c.main.Answers := by
    rw [hmain]
    exact not_false
  obtain ⟨hstreams, hroom⟩ := h.steady hnot
  have hledger := h.ledger
  have hfits := h.fits
  unfold Client.queue Client.watches at hledger
  rw [hmain] at hledger hfits
  have hledger : Ledger c.log c.requests c.ids (q :: (rest ++ c.inbox.events))
      (c.pending ++ (Main.sending rest after).watches)
      (c.inbox.overflow = false ∧ c.inbox.closed = false) := by
    refine hledger.perm ?_
    cases after with
    | poll => exact List.Perm.refl _
    | reply w outcome todo => exact List.Perm.refl _
  have hsendlog : Entry.aborted
      ∉ (c.send v (.event q.request) q.event).log := by
    rw [sendEvent_eq] at hlive
    exact hlive
  have haccepted : Accepted c.log q.request := by
    obtain ⟨r, hr⟩ : ∃ r, c.requests[q.request]? = some r :=
      ⟨_, List.getElem?_eq_getElem (hledger.queued q (List.mem_cons_self ..))⟩
    refine hstreams _ r hr ((hledger.orderly _ r hr).streams fun hnone => ?_)
    have hflow := hledger.flow _ r hr
    rw [queuedFor_cons, if_pos rfl, hnone] at hflow
    have hnil := List.prefix_nil.1 hflow
    simp at hnil
  have hsent := hledger.send haccepted
  have hfits' : (Main.sending rest after).Fits c.requests
      (c.log ++ [.sent (.event q.request) q.event]) := by
    cases after with
    | poll => trivial
    | reply w outcome todo =>
        obtain ⟨r, hr, hover, hall⟩ := hfits
        exact ⟨r, hr, hover, by rw [sent_queue]; exact hall⟩
  have hkept : ∀ n r, c.requests[n]? = some r → r.work.streams = true →
      Accepted (c.log ++ [.sent (.event q.request) q.event]) n :=
        fun n r hr hs =>
    accepted_append.2 (.inl (hstreams n r hr hs))
  have hcalm : c.connected = false → ∀ P : Prop, P := fun hclosed =>
    absurd (hconnected.symm.trans hclosed) (by decide)
  unfold Client.sendEvent
  dsimp only
  rw [send_live hconnected hsendlog]
  by_cases hdone : isDone q.event = true
  · rw [if_pos hdone] at hsent ⊢
    refine ⟨hsent, hfits', fun n r hr hs => .inl (hkept n r hr hs),
      .inl ?_, h.bytes,
      fun hclosed => hcalm hclosed _⟩
    have hle := Finset.card_erase_le (s := c.ids)
      (a := toText (lookup q.event (qs "id")))
    show ((c.ids.erase _).card : Int) ≤ _
    omega
  · rw [if_neg hdone] at hsent ⊢
    exact ⟨hsent, hfits', fun n r hr hs => .inl (hkept n r hr hs),
      .inl hroom, h.bytes,
      fun hclosed => hcalm hclosed _⟩

/-- A watch whose request is answered is gone. -/
theorem Ledger.unwatch {log : List Entry} {requests : List Request}
    {ids : Finset QString} {queue : List Queued} {w : Watch}
    {watches : List Watch}
    {flowing : Prop} (h : Ledger log requests ids queue
      (w :: watches) flowing) :
    Ledger log requests ids queue watches flowing
      ∧ ∀ w' ∈ watches, w'.request ≠ w.request := by
  have hdistinct := h.distinct
  rw [List.map_cons, List.nodup_cons] at hdistinct
  refine ⟨{ h with
    watched := fun w' hw' => h.watched w' (List.mem_cons_of_mem _ hw')
    distinct := hdistinct.2 }, fun w' hw' heq => hdistinct.1 ?_⟩
  exact heq ▸ List.mem_map_of_mem hw'

/-- The answer of a watch, behind all events of its request: the watch looks at
the future only after the queue was drained. -/
theorem Served.finish (h : Served v c) {w : Watch} {outcome : Outcome}
    {todo : List Watch} (hmain : c.main = .sending [] (.reply w outcome todo))
    (frame : JsonObject) (generations : Finset QString)
    (hlive : Entry.aborted
      ∉ ({ c with generations }.send v (.answer w.request) frame).log) :
    Served v
      { ({ c with generations }.send v (.answer w.request) frame).release
      (some w.id) with main := .polling todo } := by
  have hconnected : c.connected = true := by
    refine h.connected ?_ ?_ <;>
    · rw [hmain]
      exact Main.noConfusion
  have hnot : ¬ c.main.Answers := by
    rw [hmain]
    exact not_false
  obtain ⟨hstreams, hroom⟩ := h.steady hnot
  have hledger := h.ledger
  have hfits := h.fits
  unfold Client.queue Client.watches at hledger
  rw [hmain] at hledger hfits
  obtain ⟨r, hr, hover, hall⟩ := hfits
  have hall : eventsOf w.request c.log = r.delivered := by
    rw [← hall]
    exact (List.append_nil _).symm
  obtain ⟨hrest, hothers⟩ := (hledger.perm
    (show (w :: (c.pending ++ todo)).Perm (c.pending ++ w :: todo) from
      List.perm_middle.symm)).unwatch
  obtain ⟨hopen, s, -, -, hs, hid, -⟩ := hledger.watched w
    (List.mem_append_right _ (List.mem_cons_self ..))
  rw [hr] at hs
  injection hs with hs
  subst hs
  have hcard := h.card_erase hr hopen
  rw [hid] at hcard
  rw [send_live (c := { c with generations }) hconnected hlive]
  have hanswered := hrest.answer hr hover hopen hall hothers frame
  rw [hid] at hanswered
  refine ⟨hanswered, trivial, fun n r hr hs => .inl (accepted_append.2
    (.inl (hstreams n r hr hs))), .inl ?_, h.bytes,
    fun hclosed => absurd (hconnected.symm.trans hclosed) (by decide)⟩
  show ((c.ids.erase w.id).card : Int) ≤ _
  omega

/-- The rest of `poll`, behind a `drain` that has sent what it took. -/
theorem Served.pollWatches (h : Served v c)
    (hmain : c.main = .sending [] .poll)
    (hconnected : c.connected = true) : Served v c.pollWatches := by
  refine h.move ?_ rfl rfl rfl rfl ?_ ?_ trivial
    fun hclosed => absurd (hconnected.symm.trans hclosed) (by decide)
  · rw [hmain]
    exact not_false
  · rw [hmain]
    rfl
  · unfold Client.watches
    rw [hmain]
    show ([] ++ c.pending).Perm (c.pending ++ [])
    rw [List.append_nil]
    exact List.Perm.refl _

/-- The work of a request whose outcome is known is over. -/
theorem outcome_over {w : Watch} {outcome : Outcome}
    (h : c.outcome w = some outcome) :
    ∃ r, c.requests[w.request]? = some r ∧ r.work.over = true := by
  unfold Client.outcome at h
  cases hr : c.requests[w.request]? with
  | none =>
      rw [hr] at h
      cases h
  | some r =>
      rw [hr] at h
      obtain ⟨id, method, work, delivered⟩ := r
      cases work with
      | future operation found =>
          have h : found = some outcome := h
          exact ⟨_, rfl, by rw [h]; rfl⟩
      | direct => cases h
      | chat finished => cases h

/-- `poll` keeps a watch whose future is not ready. -/
theorem Served.wait (h : Served v c) {w : Watch} {todo : List Watch}
    (hmain : c.main = .polling (w :: todo)) :
    Served v { c with
      pending := c.pending ++ [w]
      main := .polling todo } := by
  have hconnected : c.connected = true := by
    refine h.connected ?_ ?_ <;>
    · rw [hmain]
      exact Main.noConfusion
  refine h.move ?_ rfl rfl rfl rfl ?_ ?_ trivial
    fun hclosed => absurd (hconnected.symm.trans hclosed) (by decide)
  · rw [hmain]
    exact not_false
  · rw [hmain]
    rfl
  · unfold Client.watches
    rw [hmain]
    show ((c.pending ++ [w]) ++ todo).Perm (c.pending ++ w :: todo)
    rw [List.append_assoc]
    exact List.Perm.refl _

-- -------------------------------------------------------------- other threads

/-- What the thread of the server is about to do stays due when a request
whose work goes on is replaced. -/
theorem Main.Fits.set {m : Main} {requests : List Request}
    {log : List Entry} {n : Nat}
    {r r' : Request} (h : m.Fits requests log) (hr : requests[n]? = some r)
    (hover : r.work.over = false) : m.Fits (requests.set n r') log := by
  -- the requests it speaks of are over
  have hkeep : ∀ (k : Nat) (s : Request), requests[k]? = some s →
    s.work.over = true →
      (requests.set n r')[k]? = some s := by
    intro k s hs hdone
    by_cases hk : n = k
    · rw [← hk, hr] at hs
      injection hs with hs
      rw [hs, hdone] at hover
      cases hover
    · rw [List.getElem?_set_ne hk]
      exact hs
  cases m with
  | answering kind frame id watch =>
      cases kind with
      | answer k =>
          obtain ⟨hopen, hwatch, s, hs, hdirect, hid⟩ := h
          exact ⟨hopen, hwatch, s, hkeep k s hs (by rw [hdirect]; rfl),
            hdirect, hid⟩
      | accepted k =>
          obtain ⟨hid, hk, hopen⟩ := h
          exact ⟨hid, by rw [List.length_set]; exact hk, hopen⟩
      | refused => exact h
      | event k => exact h
  | taking after =>
      cases after with
      | poll => trivial
      | reply w outcome todo =>
          obtain ⟨s, hs, hdone⟩ := h
          exact ⟨s, hkeep _ s hs hdone, hdone⟩
  | sending events after =>
      cases after with
      | poll => trivial
      | reply w outcome todo =>
          obtain ⟨s, hs, hdone, hall⟩ := h
          exact ⟨s, hkeep _ s hs hdone, hdone, hall⟩
  | idle => trivial
  | reading => trivial
  | polling todo => trivial
  | gone => trivial

/-- A request whose work goes on is replaced by one of the same name, whose
events are in the books. -/
theorem Served.replaced (h : Served v c) {n : Nat} {r r' : Request}
    {inbox : Inbox}
    (hr : c.requests[n]? = some r) (hover : r.work.over = false)
    (hmethod : r'.method = r.method)
    (hstreams : r'.work.streams = true → r.work.streams = true)
    (hledger : Ledger c.log (c.requests.set n r') c.ids
      (c.main.queue ++ inbox.events)
      c.watches (inbox.overflow = false ∧ inbox.closed = false))
    (hbytes : inbox.closed = false →
      inbox.bytes = (inbox.events.map fun q => (v.lineSize q.event : Int)).sum
        ∧ inbox.bytes ≤ v.maxBufferedOutputBytes) :
    Served v { c with inbox, requests := c.requests.set n r' } := by
  have hlt : n < c.requests.length := (List.getElem?_eq_some_iff.1 hr).1
  refine ⟨hledger, h.fits.set hr hover, ?_, ?_, hbytes, h.calm⟩
  · intro m s hs hstream
    have hs : (c.requests.set n r')[m]? = some s := hs
    by_cases hm : n = m
    · rw [← hm, List.getElem?_set_self hlt] at hs
      injection hs with hs
      exact hm ▸ h.streams n r hr (hstreams (hs ▸ hstream))
    · rw [List.getElem?_set_ne hm] at hs
      exact h.streams m s hs hstream
  · rcases h.room with hroom | ⟨hroom, m, frame, id, s, hmain, hs, hcancel⟩
    · exact .inl hroom
    · by_cases hm : n = m
      · refine .inr ⟨hroom, m, frame, id, r', hmain, ?_, ?_⟩
        · show (c.requests.set n r')[m]? = some r'
          rw [← hm, List.getElem?_set_self hlt]
        · rw [← hm, hr] at hs
          injection hs with hs
          rw [hmethod, hs, hcancel]
      · refine .inr ⟨hroom, m, frame, id, s, hmain, ?_, hcancel⟩
        show (c.requests.set n r')[m]? = some s
        rw [List.getElem?_set_ne hm]
        exact hs

/-- A callback of a request. -/
theorem Served.deliver (h : Served v c) {n : Nat}
    {payload : Payload} {r : Request}
    {work : Work} (hr : c.requests[n]? = some r)
    (hafter : r.work.after payload = some work) :
    Served v { c with
      inbox := c.inbox.push v ⟨n, payload.event r.id⟩
      requests := c.requests.set n { r with
        work
        delivered := r.delivered ++ [payload.event r.id] } } := by
  obtain ⟨hover, hstreams, -⟩ := Work.after_some hafter
  refine h.replaced hr hover rfl (fun _ => hstreams) ?_ ?_
  · unfold Inbox.push
    by_cases hfull : c.inbox.closed = true ∨ c.inbox.overflow = true
        ∨ v.maxBufferedOutputBytes
          < c.inbox.bytes + v.lineSize (payload.event r.id)
    · rw [if_pos hfull]
      exact (h.ledger.lose hr hafter).weaken fun hflow =>
        absurd hflow.1 (by simp)
    · rw [if_neg hfull]
      rw [not_or, not_or, Bool.not_eq_true, Bool.not_eq_true] at hfull
      have hdelivered := h.ledger.deliver ⟨hfull.2.1, hfull.1⟩ hr hafter
      rw [Client.queue, List.append_assoc] at hdelivered
      exact hdelivered
  · unfold Inbox.push
    by_cases hfull : c.inbox.closed = true ∨ c.inbox.overflow = true
        ∨ v.maxBufferedOutputBytes
          < c.inbox.bytes + v.lineSize (payload.event r.id)
    · rw [if_pos hfull]
      exact h.bytes
    · rw [if_neg hfull]
      rw [not_or, not_or] at hfull
      intro hopen
      obtain ⟨hsum, -⟩ := h.bytes hopen
      refine ⟨?_, Int.not_lt.1 hfull.2.2⟩
      show c.inbox.bytes + _ = ((c.inbox.events ++ [_]).map _).sum
      rw [hsum]
      simp

/-- A future becomes ready. -/
theorem Served.complete (h : Served v c) {n : Nat}
    {outcome : Outcome} {r : Request}
    {operation : Operation} (hr : c.requests[n]? = some r)
    (hwork : r.work = .future operation none) :
    Served v { c with
      requests := c.requests.set n { r with
        work := .future operation (some outcome) } } := by
  obtain ⟨id, method, work, delivered⟩ := r
  subst hwork
  exact h.replaced hr rfl rfl (fun hs => hs)
    (h.ledger.complete hr rfl outcome) h.bytes

-- =================================================================== the runs

/-- What is thrown away with the queue may be more, and is no
longer counted. -/
theorem Served.lost (h : Served v c) (hmain : c.main = .idle) :
    Served v { c with
      connected := false
      written := 0
      cancelled := c.cancelled ∪ c.generations
      inbox := { c.inbox with closed := true } } := by
  have hnot : ¬ c.main.Answers := by
    rw [hmain]
    exact not_false
  obtain ⟨hstreams, hroom⟩ := h.steady hnot
  exact ⟨h.ledger.weaken fun hflow => absurd hflow.2 (by simp), h.fits,
    fun n r hr hs => .inl (hstreams n r hr hs), .inl hroom, fun hopen =>
      absurd hopen (by simp),
    fun _ => .inl hmain⟩

/-- The client is erased, and nothing was left to abort. -/
theorem Served.disconnected (h : Served v c) (hmain : c.main = .idle)
    (hlive : Entry.aborted ∉ c.disconnect.log) : Served v c.disconnect := by
  refine h.gone hmain ?_
  by_contra hconnected
  rw [Bool.not_eq_false] at hconnected
  exact hlive (mem_aborted hconnected)

/-- Every step keeps the invariant, unless it aborts the connection. An aborted
one owes nothing any more. -/
theorem served_step {a : Action} (h : Served v c) (hobeys : Obeys v c a)
    (hstep : c.step v a = some c') (hlive : Entry.aborted ∉ c'.log) :
    Served v c' := by
  -- at work, the server has a connection
  have hbusy : ∀ {m : Main}, c.main = m → m ≠ .idle → m ≠ .gone →
      c.connected = true :=
    fun hmain hidle hgone => h.connected (hmain ▸ hidle) (hmain ▸ hgone)
  cases step_cases hstep with
  | receive bytes hmain hconnected =>
      exact h.turn hmain not_false rfl rfl rfl rfl rfl rfl rfl trivial
        (.inl hconnected)
  | stop response hmain =>
      exact h.turn hmain not_false rfl rfl rfl rfl rfl rfl rfl trivial
        (.inr rfl)
  | long response hmain =>
      exact absurd (mem_aborted (hbusy hmain nofun nofun)) hlive
  | line response line rest _ hmain hline _ hrequest =>
      exact h.handled hmain hline hobeys (request_cases hrequest)
  | answer kind frame id watch hmain =>
      refine h.answer hmain ?_ rfl
      rw [release_eq] at hlive
      exact hlive
  | poll hmain hconnected =>
      exact h.turn hmain not_false rfl rfl rfl rfl rfl rfl rfl trivial
        (.inl hconnected)
  | erase hmain => exact h.disconnected hmain hlive
  | take after hmain hgood => exact h.take hmain hgood
  | fail after hmain =>
      have hclosed : ({ c.emptied.abort with
          cancelled := c.emptied.abort.cancelled ∪ c.generations } :
            Client).connected
            = false := abort_connected
      rw [(undrained_closed after hclosed).1] at hlive
      exact absurd (mem_aborted (c := c.emptied)
        (hbusy hmain nofun nofun)) hlive
  | event q rest after hmain => exact h.sendEvent hmain hlive
  | undrained after hmain hclosed =>
      exact absurd ((hbusy hmain nofun nofun).symm.trans hclosed) (by decide)
  | watches hmain hconnected => exact h.pollWatches hmain hconnected
  | finish w outcome todo frame hmain =>
      refine h.finish hmain frame _ ?_
      rw [release_eq] at hlive
      exact hlive
  | wait w todo hmain => exact h.wait hmain
  | ready w todo outcome hmain houtcome =>
      exact h.turn hmain not_false rfl rfl rfl rfl rfl rfl rfl
        (outcome_over houtcome)
        (.inl (hbusy hmain nofun nofun))
  | polled hmain =>
      exact h.turn hmain not_false rfl rfl rfl rfl rfl rfl rfl trivial
        (.inr rfl)
  | flush bytes => exact ⟨h.ledger, h.fits, h.streams, h.room, h.bytes, h.calm⟩
  | lost hmain => exact h.lost hmain
  | close hmain => exact h.disconnected hmain hlive
  | deliver n payload r work hr hafter => exact h.deliver hr hafter
  | complete n outcome r operation hr hwork => exact h.complete hr hwork

/-- A connection that has been accepted keeps the protocol, for nothing was
said on it. -/
theorem served_start (v : Server) : Served v {} where
  ledger :=
    { once := fun _ => List.Pairwise.nil
      accepted := fun _ front _ _ heq => absurd heq (by simp)
      known := fun _ hn => by
        obtain ⟨e, he, -⟩ := hn
        cases he
      queued := fun _ hq => nomatch hq
      flow := fun _ _ hr => nomatch hr
      full := fun _ _ _ hr => nomatch hr
      orderly := fun _ _ hr => nomatch hr
      ended := fun _ _ hr => nomatch hr
      watched := fun _ hw => nomatch hw
      distinct := List.Pairwise.nil
      ids := fun id => by
        refine ⟨fun hid => absurd hid (Finset.notMem_empty id), fun hid => ?_⟩
        obtain ⟨n, hn, -⟩ := hid
        cases hn
      unique := fun _ _ _ hn => nomatch hn }
  fits := trivial
  streams := fun _ _ hr => nomatch hr
  room := .inl (by
    have hlimit := v.limits.1
    show (0 : Int) ≤ v.maxInFlightPerConnection
    omega)
  bytes := fun _ => ⟨rfl, by
    have hlimit := v.limits.2.2
    show (0 : Int) ≤ v.maxBufferedOutputBytes
    omega⟩
  calm := fun hclosed => nomatch hclosed

/-- **A connection that was not aborted has kept the protocol**, whatever the
client, the service and the other threads do, and in whatever order. The
condition is on the handles that the service returns: one with an over-long id
is answered by an error and watched all the same. -/
theorem protocol_kept (v : Server) {c : Client} {as : List Action}
    (hobeys : System.Along (Client.step v) (Obeys v) {} as)
    (hrun : System.run (Client.step v) {} as = some c)
    (hlive : Entry.aborted ∉ c.log) : Protocol v c := by
  have hinvariant : Entry.aborted ∉ c.log → Served v c :=
    System.run_invariant_along
      (I := fun c => Entry.aborted ∉ c.log → Served v c)
      (fun s a s' hs hp hstep hlive =>
        served_step (hs fun habort => hlive (mem_step habort hstep))
          hp hstep hlive)
      as (fun _ => served_start v) hobeys hrun
  exact (hinvariant hlive).protocol

-- ============================================================= an RPC handler

namespace Sample

/-- The frame of a client that asks for a method of the RPC handler. -/
def tool : JsonObject :=
  Json.ofMembers [(qs "id", .string (qs "1")),
    (qs "method", .string (qs "tool"))]

/-- A server that has an RPC handler, and reads no other frame. -/
def tools : Server where
  parse _ := some tool
  lineSize _ := 90
  maxInFlightPerConnection := 1
  maxFrameBytes := 64
  maxBufferedOutputBytes := 1024
  limits := by decide
  rpcHandler := true
  answer _ _ := throw (err .NotFound "Unknown method")
  generationOptions _ := .ok ()
  keepAlive _ := .ok ()

/-- One call, whose handle bears this request id, one event of it, and what
comes behind the event. -/
def call (requestId : QString) (ending : List Action) : List Action :=
  [.receive (bytes "x\n"), .frame (.handle requestId true), .answer,
    .frame (.handle requestId true), .deliver 0 (.rpc []), .poll, .take, .send]
      ++ ending

/-- The operation ends, and its watch is seen. -/
def completed : List Action :=
  [.complete 0 (.ok .null), .send, .check, .take, .send, .check]

/-- A request id that is as its contract asks, and longer than the
server takes. -/
def long : QString := List.replicate 129 120

/-- The event of the call. -/
def event : JsonObject := (Payload.rpc []).event (qs "1")

def failure : JsonObject :=
  errorFrame (qs "1") ⟨.ProtocolError, qs "Invalid RPC handler response"⟩

theorem call_short_log :
    (System.run (Client.step tools) {} (call (qs "op") completed)).map
      Client.log
      = some [.dispatched 0, .sent (.accepted 0)
        (acceptedFrame (qs "1") (qs "op")),
        .sent (.event 0) event,
        .sent (.answer 0) (resultFrame (qs "1") .null)] := by rfl

set_option maxRecDepth 4000 in
theorem call_long_log :
    (System.run (Client.step tools) {} (call long [])).map Client.log
      = some [.dispatched 0, .sent (.answer 0) failure,
        .sent (.event 0) event] := by rfl

/-- The steps of the call that take no frame are as anybody asks. -/
theorem call_along {P : Client → Action → Prop} {requestId : QString}
    {ending : List Action}
    (hending : ∀ a ∈ ending, ∀ response, a ≠ .frame response)
    (hother : ∀ c a, (∀ response, a ≠ .frame response) → P c a)
    (hframe : P { input := bytes "x\n", main := .reading }
      (.frame (.handle requestId true)))
    (hnone : ∀ c, takeLine c.input = none →
      P c (.frame (.handle requestId true)))
    {t u : Client}
    (ht : Client.step tools { input := bytes "x\n", main := .reading }
      (.frame (.handle requestId true)) = some t)
    (hu : Client.step tools t .answer = some u)
    (hinput : takeLine u.input = none) :
    System.Along (Client.step tools) P {} (call requestId ending) := by
  refine .next (hother _ _ nofun) rfl
    (.next hframe ht (.next (hother _ _ nofun) hu
    ⟨hnone _ hinput, fun _ _ =>
      ⟨hother _ _ nofun, fun _ _ => ⟨hother _ _ nofun,
      fun _ _ => ⟨hother _ _ nofun, fun _ _ => ⟨hother _ _ nofun,
        fun _ _ => System.Along.of_forall fun a ha s =>
          hother s a (hending a ha)⟩⟩⟩⟩⟩))

end Sample

/-- A call whose handle has a short request id is answered behind its event,
and has ended then. -/
theorem protocol_kept_call :
    ∃ c, System.run (Client.step Sample.tools) {}
        (Sample.call (qs "op") Sample.completed)
        = some c
      ∧ Ended c.log 0 ∧ Protocol Sample.tools c := by
  obtain ⟨c, hrun, hlog⟩ := Option.map_eq_some_iff.1 Sample.call_short_log
  have hobeys : System.Along (Client.step Sample.tools) (Obeys Sample.tools) {}
      (Sample.call (qs "op") Sample.completed) := by
    refine Sample.call_along ?_ ?_ ?_ ?_ rfl rfl rfl
    · simp [Sample.completed]
    · exact fun _ _ hno _ _ heq => absurd heq (hno _)
    · intro requestId valid heq _
      injection heq with heq
      injection heq with hid hvalid
      exact ⟨hvalid.symm, hid ▸ by decide, hid ▸ by decide⟩
    · intro c hnone requestId valid _ hasks
      obtain ⟨line, rest, request, method, p, hline, -⟩ := hasks
      rw [hnone] at hline
      cases hline
  have hlive : Entry.aborted ∉ c.log := by
    rw [hlog]
    simp
  refine ⟨c, hrun, ?_, protocol_kept Sample.tools hobeys hrun hlive⟩
  rw [hlog]
  exact ⟨_, List.mem_append_right [_, _, _] (List.mem_singleton_self _), rfl⟩

set_option maxRecDepth 4000 in
/-- The handle of a call has a long request id: it is answered with an error,
and its event is sent behind the answer. -/
theorem protocol_broken :
    ¬ ∀ (v : Server) (c : Client) (as : List Action),
      System.Along (Client.step v) (Contract v) {} as →
      System.run (Client.step v) {} as = some c → Entry.aborted ∉ c.log →
      Protocol v c := by
  intro hall
  obtain ⟨c, hrun, hlog⟩ := Option.map_eq_some_iff.1 Sample.call_long_log
  have hcontract : System.Along (Client.step Sample.tools)
    (Contract Sample.tools) {}
      (Sample.call Sample.long []) := by
    refine Sample.call_along (by simp) ?_ ?_ ?_ rfl rfl rfl
    · exact fun _ _ hno _ _ heq => absurd heq (hno _)
    · intro requestId valid heq _
      injection heq with heq
      injection heq with hid hvalid
      refine ⟨hvalid.symm, ?_, by simp⟩
      rw [← hid]
      exact List.cons_ne_nil _ _
    · intro c hnone requestId valid _ hasks
      obtain ⟨line, rest, request, method, p, hline, -⟩ := hasks
      rw [hnone] at hline
      cases hline
  have hprotocol := hall Sample.tools c (Sample.call Sample.long [])
      hcontract hrun (by
    rw [hlog]
    simp)
  have honce := hprotocol.once 0
  rw [hlog] at honce
  -- the event stands behind the answer, and both are about the request
  have hlast := (List.pairwise_cons.1 (List.pairwise_cons.1 honce).2).1
  exact hlast _ (List.mem_singleton_self _) rfl rfl

end LocalLLM.Ipc
