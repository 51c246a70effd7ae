/-
What a step of the IPC server does, as the other end of the connection sees
it.

# Effects

A step of the server rests, sends one frame, takes one line, or aborts
(`Effect`). A frame is sent from the loop of `read`, from the queue of
events, or for a watch whose future is ready (`Due`). Requests are never
taken back: their ids and methods stay, and callbacks add to what was
delivered for them (`Became`).

# What a line becomes

A line with an id becomes a refusal under that id, or a request with that id
and its method, whose first frame bears it (`request_begun`).
-/
import LocalLLM.Proofs.Connection
import LocalLLM.Tools.IpcClient

namespace LocalLLM.Ipc

open Json (lookup)

variable {v : Server} {c c' d : Client}

-- =================================================================== requests

/-- A request, some time later. -/
structure Request.Became (r r' : Request) : Prop where
  id : r'.id = r.id
  method : r'.method = r.method
  delivered : r'.delivered = r.delivered
    ∨ ∃ payload : Payload, r'.delivered = r.delivered ++ [payload.event r.id]

/-- A request that nothing happened to has become itself. -/
theorem Request.Became.refl (r : Request) : r.Became r := ⟨rfl, rfl, .inl rfl⟩

/-- A step that leaves the requests alone makes each of them itself. -/
theorem became_refl (requests : List Request) :
    List.Forall₂ Request.Became requests requests :=
  List.forall₂_same.2 fun r _ => .refl r

/-- A step that changes one request changes it as `Became` allows, and leaves
the others. -/
theorem became_set {requests : List Request} {n : Nat} {r r' : Request}
    (hr : requests[n]? = some r) (h : r.Became r') :
    List.Forall₂ Request.Became requests (requests.set n r') := by
  induction requests generalizing n with
  | nil => cases hr
  | cons first requests ih =>
      cases n with
      | zero =>
          injection hr with hr
          exact .cons (hr ▸ h) (became_refl requests)
      | succ n => exact .cons (.refl first) (ih hr)

/-- Requests are never taken out of the list, so each is found
again where it was. -/
theorem became_getElem? {requests requests' : List Request}
    (h : List.Forall₂ Request.Became requests requests')
    {n : Nat} {r : Request} (hr : requests[n]? = some r) :
    ∃ r', requests'[n]? = some r' ∧ r.Became r' := by
  induction h generalizing n with
  | nil => cases hr
  | cons hfirst _ ih =>
      cases n with
      | zero =>
          injection hr with hr
          exact ⟨_, rfl, hr ▸ hfirst⟩
      | succ n => exact ih hr

-- ==================================================================== effects

/-- Where a frame that is sent comes from. -/
inductive Due (c : Client) : Kind → JsonObject → Prop
  | answering (kind : Kind) (frame : JsonObject) (id : Option QString)
      (watch : Option Watch) :
      c.main = .answering kind frame id watch → Due c kind frame
  | event (q : Queued) :
      ¬ c.main.Answers → q ∈ c.queue → Due c (.event q.request) q.event
  | result (w : Watch) (result : Json) : ¬ c.main.Answers → w ∈ c.watches →
      Due c (.answer w.request) (resultFrame w.id result)
  | error (w : Watch) (error : Error) : ¬ c.main.Answers → w ∈ c.watches →
      Due c (.answer w.request) (errorFrame w.id error)

/-- What a step does that reads nothing from the socket. -/
inductive Effect (v : Server) (c c' : Client) : Prop
  | rest : c'.log = c.log → (c.connected = false → c'.connected = false) →
      List.Forall₂ Request.Became c.requests c'.requests → c'.input = c.input →
      c'.main = c.main
        ∨ (¬ c'.main.Answers ∧ (c.connected = false ∨ ¬ c.main.Answers)) →
        Effect v c c'
  | sent (kind : Kind) (frame : JsonObject) : Due c kind frame →
      c'.log = c.log ++ [.sent kind frame] → c.connected = true →
      c'.requests = c.requests →
      c'.input = c.input → ¬ c'.main.Answers → Effect v c c'
  | handled (line rest : List UInt8) (response : Response) :
      c.main = .reading →
      takeLine c.input = some (line, rest) →
      { c with input := rest }.request v response (v.parse line) = some c' →
          Effect v c c'
  | aborted : c'.log = c.log ++ [.aborted] → c'.connected = false →
      c'.requests = c.requests → Effect v c c'

/-- An abort is the whole effect of a step that does nothing else to the log,
and closes the connection with it. -/
theorem Effect.of_abort (hlog : c'.log = d.abort.log)
    (hconnected : c'.connected = d.abort.connected)
    (hrequests : c'.requests = c.requests)
    (hinput : c'.input = c.input) (hmain : ¬ c'.main.Answers)
    (hsame : d.log = c.log)
    (hopen : d.connected = c.connected) : Effect v c c' := by
  -- whether or not there is a connection left
  by_cases h : d.connected = true
  · refine .aborted ?_ (hconnected.trans abort_connected) hrequests
    rw [hlog, ← hsame]
    unfold Client.abort
    rw [if_pos h]
  · have habort : d.abort = d := if_neg h
    rw [habort] at hlog hconnected
    have hclosed : c.connected = false := by
      rw [← hopen]
      exact Bool.not_eq_true _ ▸ h
    exact .rest (hlog.trans hsame)
      (fun _ => by rw [hconnected, hopen, hclosed])
      (hrequests ▸ became_refl _) hinput (.inr ⟨hmain, .inl hclosed⟩)

/-- A step that sends one frame has the effect of `send`: the frame is logged
if it fits, and the connection is aborted if not. -/
theorem Effect.of_send {kind : Kind} {frame : JsonObject}
    (hdue : Due c kind frame) (hlog : c'.log = (d.send v kind frame).log)
    (hconnected : c'.connected = (d.send v kind frame).connected)
    (hrequests : c'.requests = c.requests) (hinput : c'.input = c.input)
    (hmain : ¬ c'.main.Answers) (hsame : d.log = c.log)
    (hopen : d.connected = c.connected) : Effect v c c' := by
  unfold Client.send at hlog hconnected
  by_cases hclosed : d.connected = false
  · rw [if_pos hclosed] at hlog hconnected
    exact .rest (hlog.trans hsame) (fun _ => hconnected.trans hclosed)
      (hrequests ▸ became_refl _) hinput (.inr ⟨hmain, .inl (hopen ▸ hclosed)⟩)
  · rw [if_neg hclosed] at hlog hconnected
    by_cases hover : (d.written + v.lineSize frame : Int)
      > v.maxBufferedOutputBytes
    · rw [if_pos hover] at hlog hconnected
      exact .of_abort hlog hconnected hrequests hinput hmain hsame hopen
    · rw [if_neg hover] at hlog hconnected
      refine .sent kind frame hdue (hlog.trans (by rw [hsame])) ?_
        hrequests hinput hmain
      rw [← hopen]
      exact Bool.not_eq_false _ ▸ hclosed

/-- A step that writes nothing and goes on elsewhere. -/
theorem Effect.moved (hlog : c'.log = c.log) (hconnected : c'.connected
    = c.connected)
    (hrequests : c'.requests = c.requests) (hinput : c'.input = c.input)
    (hmain : ¬ c'.main.Answers)
    (hnot : c.connected = false ∨ ¬ c.main.Answers) : Effect v c c' :=
  .rest hlog (fun hclosed => hconnected.trans hclosed)
    (hrequests ▸ became_refl _) hinput
    (.inr ⟨hmain, hnot⟩)

/-- What is not an answer is none. -/
theorem not_answers {m : Main} (h : c.main = m) (hnot : ¬ m.Answers) :
    ¬ c.main.Answers :=
  h ▸ hnot

/-- An abort is about the socket, and forgets no request. What was begun is
still worked on and is answered to nobody. -/
theorem abort_requests : c.abort.requests = c.requests := by
  unfold Client.abort
  split <;> rfl

/-- Neither does a frame that is sent, whether it fits or not. -/
theorem send_requests {kind : Kind} {frame : JsonObject} :
    (c.send v kind frame).requests = c.requests := by
  unfold Client.send
  split
  · rfl
  · split
    · exact abort_requests
    · rfl

/-- Outside of the loop of `read` no answer is at hand. -/
theorem Main.Answers.reads {m : Main} (h : m.Answers) : m.reads := by
  cases m with
  | answering => trivial
  | _ => exact h.elim

/-- Every step that reads nothing has one of the four effects. The wire between
the parties needs no more of the server than this. -/
theorem step_effect {a : Action} (hstep : c.step v a = some c')
    (hreads : IpcLink.reads a = false) : Effect v c c' := by
  cases step_cases hstep with
  | receive bytes => cases hreads
  | stop response hmain =>
      exact .moved rfl rfl rfl rfl not_false
        (.inr (not_answers hmain not_false))
  | long response hmain =>
      exact .of_abort (d := c) rfl rfl abort_requests abort_input
        not_false rfl rfl
  | line response line rest _ hmain hline _ hrequest =>
      exact .handled line rest response hmain hline hrequest
  | answer kind frame id watch hmain =>
      rw [release_eq]
      exact .of_send (d := c) (.answering kind frame id watch hmain) rfl
        rfl send_requests
        send_input not_false rfl rfl
  | poll hmain =>
      exact .moved rfl rfl rfl rfl not_false
        (.inr (not_answers hmain not_false))
  | erase hmain =>
      exact .of_abort (d := c) rfl rfl abort_requests abort_input
        not_false rfl rfl
  | take after hmain =>
      exact .moved rfl rfl rfl rfl not_false
        (.inr (not_answers hmain not_false))
  | fail after hmain =>
      have hclosed : ({ c.emptied.abort with
          cancelled := c.emptied.abort.cancelled ∪ c.generations } :
            Client).connected
            = false := abort_connected
      obtain ⟨hlog, hopen, hrequests, hinput, hmain'⟩ :=
        undrained_closed after hclosed
      exact .of_abort (d := c.emptied) hlog hopen
        (hrequests.trans abort_requests)
        (hinput.trans abort_input) (fun h => hmain' h.reads) rfl rfl
  | event q rest after hmain =>
      have hq : q ∈ c.queue := by
        unfold Client.queue
        rw [hmain]
        exact List.mem_append_left _ List.mem_cons_self
      rw [sendEvent_eq]
      exact .of_send (d := c)
        (.event q (not_answers hmain not_false) hq) rfl rfl
        send_requests send_input not_false rfl rfl
  | undrained after hmain hclosed =>
      obtain ⟨hlog, hopen, hrequests, hinput, hmain'⟩ :=
        undrained_closed after hclosed
      exact .moved hlog hopen hrequests hinput (fun h => hmain' h.reads)
        (.inr (not_answers hmain not_false))
  | watches hmain =>
      exact .moved rfl rfl rfl rfl not_false
        (.inr (not_answers hmain not_false))
  | finish w outcome todo frame hmain _ hanswering =>
      have hnot : ¬ c.main.Answers := not_answers hmain not_false
      have hw : w ∈ c.watches := by
        unfold Client.watches
        rw [hmain]
        exact List.mem_append_right _ List.mem_cons_self
      have hdue : Due c (.answer w.request) frame := by
        cases hanswering with
        | result result => exact .result w result hnot hw
        | error e error => exact .error w error hnot hw
      rw [release_eq]
      generalize hd :
        ({ c with generations := if w.operationId = [] then c.generations
        else c.generations.erase w.operationId } : Client) = d
      exact .of_send hdue rfl rfl (send_requests.trans (hd ▸ rfl))
        (send_input.trans (hd ▸ rfl)) not_false (hd ▸ rfl) (hd ▸ rfl)
  | wait w todo hmain =>
      exact .moved rfl rfl rfl rfl not_false
        (.inr (not_answers hmain not_false))
  | ready w todo outcome hmain =>
      exact .moved rfl rfl rfl rfl not_false
        (.inr (not_answers hmain not_false))
  | polled hmain =>
      exact .moved rfl rfl rfl rfl not_false
        (.inr (not_answers hmain not_false))
  | flush bytes => exact .rest rfl id (became_refl _) rfl (.inl rfl)
  | lost hmain => exact .rest rfl (fun _ => rfl) (became_refl _) rfl (.inl rfl)
  | close hmain =>
      exact .of_abort (d := c) rfl rfl abort_requests abort_input
        not_false rfl rfl
  | deliver n payload r work hr =>
      exact .rest rfl id (became_set hr ⟨rfl, rfl, .inr ⟨payload, rfl⟩⟩) rfl
        (.inl rfl)
  | complete n outcome r operation hr =>
      exact .rest rfl id (became_set hr ⟨rfl, rfl, .inl rfl⟩) rfl (.inl rfl)

/-- A step that reads appends what it reads, and looks at it only
in a later step. -/
theorem receive_cases {bytes : List UInt8}
    (hstep : c.step v (.receive bytes) = some c') :
    c.main = .idle ∧ c.connected = true ∧ c' = { c with
      input := c.input ++ bytes
      main := .reading } := by
  cases step_cases hstep with
  | receive _ hmain hconnected => exact ⟨hmain, hconnected, rfl⟩

/-- The log only grows, whatever the effect of a step was. So what it says of a
call stays said. -/
theorem Effect.log (h : Effect v c c') : ∃ more, c'.log = c.log ++ more := by
  cases h with
  | rest hlog => exact ⟨[], by rw [hlog, List.append_nil]⟩
  | sent kind frame _ hlog => exact ⟨_, hlog⟩
  | handled line rest response _ _ hrequest =>
      rcases (request_cases hrequest).log with hlog | hlog
      · exact ⟨[], by rw [hlog, List.append_nil]⟩
      · exact ⟨_, hlog⟩
  | aborted hlog => exact ⟨_, hlog⟩

-- ================================================================ the wording

/-- The request that a frame is about. -/
def Kind.request : Kind → Option Nat
  | .refused => none
  | .accepted n | .event n | .answer n => some n

/-- A frame is about one request at most, which its kind names. The client
never has to guess whose frame it has read. -/
theorem Kind.about_iff {kind : Kind} {n : Nat} :
    kind.about n ↔ kind.request = some n := by
  cases kind <;> simp [Kind.about, Kind.request]

/-- What the server says under an id. -/
inductive Worded (id : QString) : Kind → JsonObject → Prop
  | refused (error : Error) : Worded id .refused (errorFrame id error)
  | accepted (n : Nat) (requestId : QString) :
      Worded id (.accepted n) (acceptedFrame id requestId)
  | event (n : Nat) (payload : Payload) :
      Worded id (.event n) (payload.event id)
  | result (n : Nat) (result : Json) :
      Worded id (.answer n) (resultFrame id result)
  | error (n : Nat) (error : Error) :
      Worded id (.answer n) (errorFrame id error)

/-- A line has become a request. -/
structure Begun (id method : QString) (c c' : Client) : Prop where
  requests : ∃ work, c'.requests = c.requests ++ [⟨id, method, work, []⟩]
  input : c'.input = c.input
  connected : c'.connected = c.connected
  main : ∀ kind frame release watch,
    c'.main = .answering kind frame release watch →
    Worded id kind frame ∧ kind.request = some c.requests.length

/-- The frame that `answering` has at hand. -/
theorem worded_answering {kind : Kind} {frame : JsonObject} {id : QString}
    {release : Option QString} {watch : Option Watch} {n : Nat}
    (hworded : Worded id kind frame) (hrequest : kind.request = some n) :
    ∀ kind' frame' release' watch',
      (d.answering kind frame release watch).main
        = .answering kind' frame' release' watch' →
      Worded id kind' frame' ∧ kind'.request = some n := by
  intro kind' frame' release' watch' hmain
  injection hmain with hkind hframe
  rw [← hkind, ← hframe]
  exact ⟨hworded, hrequest⟩

/-- A request that fails while it is begun is answered with the
error at once. -/
theorem fail_begun {id method : QString} {e : Exn}
    (h : (c.begin id method .direct).fail c.requests.length id e = some c') :
    Begun id method c c' := by
  obtain ⟨error, rfl⟩ := fail_cases h
  exact ⟨⟨.direct, rfl⟩, rfl, rfl, worded_answering (.error _ error) rfl⟩

/-- A job that is performed leaves a future to watch, or an answer. In both
cases the request stands in the list under the id of the frame. -/
theorem perform_begun {id method : QString} {response : Response} {job : Job}
    (h : c.perform id method response job = some c') :
    Begun id method c c' := by
  cases job with
  | answer result =>
      injection h with h
      subst h
      exact ⟨⟨_, rfl⟩, rfl, rfl, worded_answering (.result _ result) rfl⟩
  | cancel requestId =>
      injection h with h
      subst h
      exact ⟨⟨_, rfl⟩, rfl, rfl, worded_answering (.result _ _) rfl⟩
  | call =>
      cases response with
      | thrown e => exact fail_begun h
      | handle requestId valid =>
          injection h with h
          subst h
          exact ⟨⟨_, rfl⟩, rfl, rfl, fun _ _ _ _ hmain =>
            Main.noConfusion hmain⟩
  | chat =>
      cases response with
      | thrown e => exact fail_begun h
      | handle requestId valid =>
          injection h with h
          subst h
          exact ⟨⟨_, rfl⟩, rfl, rfl, worded_answering
            (.accepted _ requestId) rfl⟩
  | pull =>
      cases response with
      | thrown e => exact fail_begun h
      | handle requestId valid =>
          injection h with h
          subst h
          exact ⟨⟨_, rfl⟩, rfl, rfl, worded_answering
            (.accepted _ requestId) rfl⟩
  | rpc =>
      cases response with
      | thrown e => exact fail_begun h
      | handle requestId valid =>
          unfold Client.perform at h
          dsimp only at h
          by_cases hbad : valid = false ∨ requestId = []
            ∨ 128 < requestId.length
          · rw [if_pos hbad] at h
            obtain ⟨error, rfl⟩ := fail_cases h
            exact ⟨⟨_, rfl⟩, rfl, rfl, worded_answering (.error _ error) rfl⟩
          · rw [if_neg hbad] at h
            injection h with h
            subst h
            exact ⟨⟨_, rfl⟩, rfl, rfl, worded_answering
              (.accepted _ requestId) rfl⟩

/-- Whatever the method is, and whatever its parameters: the request is begun,
under the id and the method it came with. -/
theorem serve_begun {id method : QString} {request : JsonObject}
    {response : Response}
    (h : c.serve v id method request response = some c') :
    Begun id method c c' := by
  unfold Client.serve at h
  dsimp only at h
  split at h
  next => exact fail_begun h
  next =>
    -- that it is dispatched is only written down
    have hsame : ∀ {d : Client},
        Begun id method
          { c with log := c.log ++ [.dispatched c.requests.length] } d →
        Begun id method c d := fun hbegun =>
      ⟨hbegun.requests, hbegun.input, hbegun.connected, hbegun.main⟩
    split at h
    next => exact hsame (fail_begun h)
    next => exact hsame (perform_begun h)

/-- The check of a string field throws nothing but an invalid argument, so a
client never takes it for a fault of the service. -/
theorem string_fault {o : JsonObject} {key : String}
    {required : Bool} {e : Exn} (h : string o key required = .error e) :
    ∃ message, e = .error ⟨.InvalidArgument, message⟩ := by
  unfold string at h
  dsimp only at h
  split at h
  next => cases h
  next =>
    split at h
    next =>
      injection h with h
      exact ⟨_, h.symm⟩
    next => cases h

/-- A refusal on a connection that has no request in flight finds fault with
the request itself. -/
theorem admission_fault {id : QString} {request : JsonObject} {e : Exn}
    (hids : c.ids = ∅) (h : c.admission v id request = .error e) :
    ∃ message, e = .error ⟨.InvalidArgument, message⟩ := by
  by_cases hlong : id.length ≤ 128
  · have hfresh : id ∉ c.ids := by
      rw [hids]
      exact Finset.notMem_empty id
    have hroom : (c.ids.card : Int) < v.maxInFlightPerConnection := by
      rw [hids]
      exact v.limits.1
    cases hmethod : string request "method" true with
    | error e' =>
        obtain ⟨message, rfl⟩ := string_fault hmethod
        refine ⟨message, ?_⟩
        unfold Client.admission require at h
        rw [if_pos hlong, if_pos hfresh, hmethod] at h
        injection h with h
        exact h.symm
    | ok method =>
        have hadmitted : c.admission v id request = .ok method :=
          bind_eq_ok.2 ⟨(), require_eq_ok.2 hlong,
            bind_eq_ok.2 ⟨(), require_eq_ok.2 hfresh,
            bind_eq_ok.2 ⟨method, hmethod, bind_eq_ok.2
              ⟨(), require_eq_ok.2 (.inl hroom), rfl⟩⟩⟩⟩
        rw [hadmitted] at h
        cases h
  · unfold Client.admission require at h
    rw [if_neg hlong] at h
    injection h with h
    exact ⟨_, h.symm⟩

/-- A frame that is read is refused without a request, for its id or its
method, or it begins one under the id that it bears. -/
theorem request_begun {response : Response} {request : JsonObject}
    {id : QString} (hid : string request "id" true = .ok id) (hids : c.ids = ∅)
    (h : c.request v response (some request) = some c') :
    (∃ message, c' = c.answering .refused
        (errorFrame id ⟨.InvalidArgument, message⟩)
        none none)
      ∨ ∃ method, string request "method" true = .ok method
        ∧ Begun id method c c' := by
  unfold Client.request at h
  dsimp only at h
  rw [hid] at h
  dsimp only at h
  cases hadmitted : c.admission v id request with
  | error e =>
      rw [hadmitted] at h
      obtain ⟨message, rfl⟩ := admission_fault hids hadmitted
      injection h with h
      exact .inl ⟨message, h.symm⟩
  | ok method =>
      rw [hadmitted] at h
      exact .inr ⟨method, (admission_eq_ok hadmitted).2.1, serve_begun h⟩

end LocalLLM.Ipc
