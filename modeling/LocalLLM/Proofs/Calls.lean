/-
The calls of the client, over the connection, end to end.

# One request at a time

A call that is on its way is at one `Stage`: its line has not been taken, a
refusal is about to be sent or has been sent, or it is the last request and
the only one that has not ended. The frames that were sent since are its
dialogue: each bears its id, and only the last one ends it. What the client
has read is the front of the dialogue, and what is in transit is the rest,
in whatever pieces. When the last frame is read nothing is left in transit,
so the next call begins on an empty line.

# Lost connections

A server that has aborted sends nothing any more. The client may still read
what was sent, and a call that ends with it has its answer.
-/
import LocalLLM.Proofs.Framing
import LocalLLM.Proofs.GenerationOptions
import LocalLLM.Proofs.Wire

namespace LocalLLM.IpcLink

open Json (lookup contains isObject toText toObject)
open IpcClient (Outcome respond checkError)
open Ipc (Kind Worded errorFrame resultFrame acceptedFrame isDone)

-- ================================================================== responses

/-- A frame that ends a call. -/
def final : Sent → Bool
  | (.refused, _) | (.answer _, _) => true
  | (.accepted _, _) => false
  | (.event _, frame) => isDone frame

/-- A frame that the callback is handed. -/
def heard : Sent → Option JsonObject
  | (.accepted _, frame) | (.event _, frame) => some frame
  | _ => none

def eventsIn (frames : List Sent) : List JsonObject := frames.filterMap heard

/-- What a call makes of the frame that ends it. -/
def outcomeOf (frame : JsonObject) : Outcome := do
  checkError frame
  let result := lookup frame (qs "result")
  if isObject result = true then checkError (toObject result)
  return result

/-- Events are counted frame by frame. -/
theorem eventsIn_append (frames more : List Sent) :
    eventsIn (frames ++ more) = eventsIn frames ++ eventsIn more :=
  List.filterMap_append

/-- The members of a frame that say what it is. -/
structure Reports (id kind : QString) (frame : JsonObject) : Prop where
  named : lookup frame (qs "id") = some (.string id)
  fine : contains frame (qs "error") = false
  kinded : lookup frame (qs "event") = some (.string kind)
  kind_ne : kind ≠ []

/-- An event is handed on, and ends the call if it says so. -/
theorem respond_event {call : IpcCall} {frame : JsonObject} {kind : QString}
    (h : Reports call.id kind frame) :
    respond call (some frame)
      = ({ call with events := call.events ++ [frame] },
      if isDone frame = true then some (outcomeOf frame) else none) := by
  have hchecked : checkError frame = .ok () := by
    unfold checkError
    rw [h.fine]
    rfl
  have hdone : isDone frame = true ↔ kind = qs "done" := by
    unfold isDone
    rw [h.kinded]
    simp
  have hid : toText (lookup frame (qs "id")) = call.id := by
    rw [h.named]
    rfl
  have hkind : toText (lookup frame (qs "event")) = kind := by
    rw [h.kinded]
    rfl
  unfold respond
  dsimp only
  rw [hid, hchecked, hkind, if_neg (not_not.2 rfl)]
  dsimp only
  rw [if_neg h.kind_ne]
  by_cases hlast : kind = qs "done"
  · rw [if_pos (.inl hlast), if_pos (hdone.2 hlast)]
    unfold outcomeOf
    rw [hchecked]
    rfl
  · rw [if_neg (not_or.2 ⟨hlast, fun hnone => h.kind_ne hnone.1⟩),
      if_neg fun h => hlast (hdone.1 h)]

/-- An error ends the call. -/
theorem respond_error {call : IpcCall} (error : Error) :
    respond call (some (errorFrame call.id error))
      = (call, some (outcomeOf (errorFrame call.id error))) := by
  have hid : toText (lookup (errorFrame call.id error) (qs "id"))
      = call.id := by
    unfold errorFrame
    rw [Json.lookup_ofMembers]
    rfl
  have hcontains : contains (errorFrame call.id error) (qs "error")
      = true := by
    unfold errorFrame
    rw [Json.contains_ofMembers]
    rfl
  unfold respond outcomeOf checkError
  dsimp only
  rw [hid, if_pos hcontains, if_neg (not_not.2 rfl)]
  rfl

/-- And so does a result. -/
theorem respond_result {call : IpcCall} (result : Json) :
    respond call (some (resultFrame call.id result))
      = (call, some (outcomeOf (resultFrame call.id result))) := by
  have hid : toText (lookup (resultFrame call.id result) (qs "id"))
      = call.id := by
    unfold resultFrame
    rw [Json.lookup_ofMembers]
    rfl
  have hevent : toText (lookup (resultFrame call.id result) (qs "event"))
      = [] := by
    unfold resultFrame
    rw [Json.lookup_ofMembers]
    rfl
  have hcontains : contains (resultFrame call.id result) (qs "result")
      = true := by
    unfold resultFrame
    rw [Json.contains_ofMembers]
    rfl
  have herror : contains (resultFrame call.id result) (qs "error")
      = false := by
    unfold resultFrame
    rw [Json.contains_ofMembers]
    rfl
  have hchecked : checkError (resultFrame call.id result) = .ok () := by
    unfold checkError
    rw [herror]
    rfl
  unfold respond
  dsimp only
  rw [hid, hchecked, hevent, if_neg (not_not.2 rfl)]
  dsimp only
  rw [if_pos rfl, if_pos (.inr ⟨rfl, hcontains⟩)]
  unfold outcomeOf
  rw [hchecked]
  rfl

/-- The frame that accepts a request reports its acceptance. -/
theorem reports_accepted (id requestId : QString) :
    Reports id (qs "accepted") (acceptedFrame id requestId) := by
  unfold acceptedFrame
  refine ⟨?_, ?_, ?_, by decide⟩
  · rw [Json.lookup_ofMembers]
    rfl
  · rw [Json.contains_ofMembers]
    rfl
  · rw [Json.lookup_ofMembers]
    rfl

/-- And the frame of a payload reports an event of some kind. -/
theorem reports_event (id : QString) (payload : Ipc.Payload) :
    ∃ kind, Reports id kind (payload.event id) := by
  cases payload with
  | chat event =>
      cases event with
      | started requestId sessionId =>
          refine ⟨qs "started", Ipc.lookup_event_id _ _, ?_, ?_, by decide⟩
          · exact (Json.contains_ofMembers ..).trans rfl
          · exact (Json.lookup_ofMembers ..).trans rfl
      | delta requestId sessionId text =>
          refine ⟨qs "delta", Ipc.lookup_event_id _ _, ?_, ?_, by decide⟩
          · exact (Json.contains_ofMembers ..).trans rfl
          · exact (Json.lookup_ofMembers ..).trans rfl
      | finished requestId sessionId result =>
          refine ⟨qs "done", Ipc.lookup_event_id _ _, ?_, ?_, by decide⟩
          · exact (Json.contains_ofMembers ..).trans rfl
          · exact (Json.lookup_ofMembers ..).trans rfl
  | progress p =>
      refine ⟨qs "progress", Ipc.lookup_event_id _ _, ?_, ?_, by decide⟩
      · exact (Json.contains_ofMembers ..).trans rfl
      · exact (Json.lookup_ofMembers ..).trans rfl
  | rpc value =>
      refine ⟨qs "rpc", Ipc.lookup_event_id _ _, ?_, ?_, by decide⟩
      · exact (Json.contains_ofMembers ..).trans rfl
      · exact (Json.lookup_ofMembers ..).trans rfl

/-- What the server says under the id of a call, the client understands: each
kind of frame has the members that the client asks for. -/
theorem respond_worded {call : IpcCall} {kind : Kind} {frame : JsonObject}
    (h : Worded call.id kind frame) :
    respond call (some frame)
      = ({ call with events := call.events ++ eventsIn [(kind, frame)] },
        if final (kind, frame) = true then some (outcomeOf frame)
            else none) := by
  have hsilent : { call with events := call.events ++ [] } = call := by
    rw [List.append_nil]
  cases h with
  | refused error =>
      rw [respond_error]
      exact congrArg (·, _) hsilent.symm
  | error n error =>
      rw [respond_error]
      exact congrArg (·, _) hsilent.symm
  | result n result =>
      rw [respond_result]
      exact congrArg (·, _) hsilent.symm
  | accepted n requestId =>
      rw [respond_event (reports_accepted call.id requestId), if_neg]
      · rfl
      · unfold isDone
        rw [(reports_accepted call.id requestId).kinded]
        decide
  | event n payload =>
      obtain ⟨kind, hreports⟩ := reports_event call.id payload
      exact respond_event hreports

-- ============================================================== what was sent

variable {w : IpcWire} {c c' : Ipc.Client}

/-- The frames about a request. -/
def framesOf (n : Nat) (frames : List Sent) : List Sent :=
  frames.filter fun sent => sent.1.request = some n

/-- What was sent is read off the log entry by entry. -/
theorem sentOf_append (log more : List Ipc.Entry) :
    sentOf (log ++ more) = sentOf log ++ sentOf more := List.filterMap_append

/-- And so are the frames of one request. -/
theorem framesOf_append (n : Nat) (frames more : List Sent) :
    framesOf n (frames ++ more) = framesOf n frames ++ framesOf n more :=
  List.filter_append ..

/-- The bytes on the wire are those of the frames, one after the other. -/
theorem bytesOf_append (frames more : List Sent) :
    bytesOf w (frames ++ more) = bytesOf w frames ++ bytesOf w more :=
  List.flatMap_append

/-- A frame was sent when the log says so. -/
theorem mem_sentOf {log : List Ipc.Entry} {kind : Kind} {frame : JsonObject} :
    (kind, frame) ∈ sentOf log ↔ Ipc.Entry.sent kind frame ∈ log := by
  unfold sentOf
  rw [List.mem_filterMap]
  constructor
  · intro h
    obtain ⟨e, he, hsent⟩ := h
    cases e with
    | sent kind' frame' =>
        injection hsent with hsent
        injection hsent with hkind hframe
        exact hkind ▸ hframe ▸ he
    | dispatched n => cases hsent
    | aborted => cases hsent
  · exact fun h => ⟨_, h, rfl⟩

/-- A frame of a request is a frame that was sent and names it. -/
theorem mem_framesOf {n : Nat} {frames : List Sent} {sent : Sent} :
    sent ∈ framesOf n frames ↔ sent ∈ frames ∧ sent.1.request = some n := by
  unfold framesOf
  rw [List.mem_filter, decide_eq_true_eq]

/-- A final frame about a request is its last. -/
theorem ended_of_final {log : List Ipc.Entry} {n : Nat} {sent : Sent}
    (h : sent ∈ framesOf n (sentOf log)) (hfinal : final sent = true) :
    Ipc.Ended log n := by
  obtain ⟨kind, frame⟩ := sent
  obtain ⟨hsent, hrequest⟩ := mem_framesOf.1 h
  refine ⟨_, mem_sentOf.1 hsent, ?_⟩
  cases kind with
  | refused => cases hrequest
  | accepted m => cases hfinal
  | event m => exact ⟨Option.some.inj hrequest, hfinal⟩
  | answer m => exact Option.some.inj hrequest

/-- What the log was followed by when it was not sent is not sent. -/
theorem sentOf_dispatched (log : List Ipc.Entry) (n : Nat) :
    sentOf (log ++ [.dispatched n]) = sentOf log := by
  rw [sentOf_append]
  exact List.append_nil _

/-- An abort sends nothing. -/
theorem sentOf_aborted (log : List Ipc.Entry) :
    sentOf (log ++ [.aborted]) = sentOf log := by
  rw [sentOf_append]
  exact List.append_nil _

-- ==================================================================== answers

/-- How a call fails that has no answer. -/
inductive Loss : String → Prop
  | interrupted : Loss "Interrupted"
  | late : Loss "Service request timed out"
  | long : Loss "Service response exceeds frame limit"
  | lost : Loss "iiLocalLLMD disconnected before completing the request"
  | request : Loss "Request exceeds the service frame limit"

/-- How a call has ended, and which request of the connection it was. -/
inductive Settled (c : Ipc.Client) : IpcCall × Outcome → Option Nat → Prop
  | lost (call : IpcCall) (reason : String) : Loss reason →
      Settled c (call, IpcClient.fail (qs reason)) none
  /-- The server has found fault with the request. -/
  | refused (call : IpcCall) (message : QString) : call.events = [] →
      (.refused, errorFrame call.id ⟨.InvalidArgument, message⟩)
        ∈ sentOf c.log →
      Settled c (call, outcomeOf
        (errorFrame call.id ⟨.InvalidArgument, message⟩)) none
  /-- The client has the whole dialogue about its own request. -/
  | answered (call : IpcCall) (n : Nat) (r : Ipc.Request) (front : List Sent)
      (last : Sent) : c.requests[n]? = some r → r.id = call.id →
      r.method = call.method →
      framesOf n (sentOf c.log) = front ++ [last] → final last = true →
      (∀ sent ∈ (front ++ [last]).tail, ∀ m, sent.1 ≠ .accepted m) →
      call.events = eventsIn (front ++ [last]) →
      Settled c (call, outcomeOf last.2) (some n)

/-- A server, some time later. -/
structure Grown (c c' : Ipc.Client) : Prop where
  requests : ∀ (n : Nat) (r : Ipc.Request), c.requests[n]? = some r →
    ∃ r' : Ipc.Request, c'.requests[n]? = some r' ∧ r'.id = r.id
      ∧ r'.method = r.method
  sent : ∃ more, sentOf c'.log = sentOf c.log ++ more
  ended : ∀ n, Ipc.Ended c.log n →
    framesOf n (sentOf c'.log) = framesOf n (sentOf c.log)

/-- What settled a call stays in the log, so a settled call stays settled while
the connection goes on. -/
theorem Settled.grown {ended : IpcCall × Outcome} {answer : Option Nat}
    (h : Settled c ended answer) (hgrown : Grown c c') :
    Settled c' ended answer := by
  cases h with
  | lost call reason hreason => exact .lost call reason hreason
  | refused call message hevents hsent =>
      obtain ⟨more, hmore⟩ := hgrown.sent
      exact .refused call message hevents
        (hmore ▸ List.mem_append_left _ hsent)
  | answered call n r front last hr hid hmethod hframes hfinal htail hevents =>
      obtain ⟨r', hr', hid', hmethod'⟩ := hgrown.requests n r hr
      refine .answered call n r' front last hr' (hid'.trans hid)
        (hmethod'.trans hmethod)
        ?_ hfinal htail hevents
      have hlast : last ∈ framesOf n (sentOf c.log) := by
        rw [hframes]
        simp
      rw [hgrown.ended n (ended_of_final hlast hfinal), hframes]

-- ================================================================= the server

/-- What is delivered for a request are events under its id. -/
def Spoken (c : Ipc.Client) : Prop :=
  ∀ r ∈ c.requests, ∀ e ∈ r.delivered, ∃ payload :
  Ipc.Payload, e = payload.event r.id

/-- While a frame is handled, the connection stays open, its input is left
alone, and the requests that come in have delivered nothing yet. -/
theorem handled_same {response : Ipc.Response} {parsed : Option JsonObject}
    (h : Ipc.Handled w.server response parsed c c') :
    c'.connected = c.connected ∧ c'.input = c.input
      ∧ ∃ more : List Ipc.Request, c'.requests = c.requests ++ more
        ∧ ∀ r ∈ more, r.delivered = [] := by
  have hone : ∀ r : Ipc.Request, r.delivered = [] →
      ∀ s ∈ [r], s.delivered = [] := by
    intro r hr s hs
    rw [List.mem_singleton.1 hs]
    exact hr
  cases h with
  | refuse => exact ⟨rfl, rfl, [], (List.append_nil _).symm,
      fun _ hr => absurd hr List.not_mem_nil⟩
  | answer => exact ⟨rfl, rfl, _, rfl, hone _ rfl⟩
  | call => exact ⟨rfl, rfl, _, rfl, hone _ rfl⟩
  | stream => exact ⟨rfl, rfl, _, rfl, hone _ rfl⟩
  | invalid => exact ⟨rfl, rfl, _, rfl, hone _ rfl⟩

/-- Handling a frame only makes an answer due; sending it is a
step of its own. -/
theorem handled_sent {response : Ipc.Response} {parsed : Option JsonObject}
    (h : Ipc.Handled w.server response parsed c c') :
    sentOf c'.log = sentOf c.log := by
  rcases h.log with hlog | hlog
  · rw [hlog]
  · rw [hlog]
    exact sentOf_dispatched ..

/-- Whatever a step delivers is an event under the id of its request. -/
theorem spoken_effect (h : Ipc.Effect w.server c c') (hspoken : Spoken c) :
    Spoken c' := by
  cases h with
  | rest _ _ hrequests =>
      intro r' hr' e he
      obtain ⟨n, hn⟩ := List.getElem?_of_mem hr'
      have hlt : n < c.requests.length :=
        hrequests.length_eq ▸ (List.getElem?_eq_some_iff.1 hn).1
      obtain ⟨s, hs, hbecame⟩ :=
        Ipc.became_getElem? hrequests (List.getElem?_eq_getElem hlt)
      rw [hn] at hs
      injection hs with hs
      subst hs
      have hold := hspoken _ (List.getElem_mem hlt)
      rw [hbecame.id]
      rcases hbecame.delivered with hsame | ⟨payload, hmore⟩
      · exact hold e (hsame ▸ he)
      · rw [hmore] at he
        rcases List.mem_append.1 he with he | he
        · exact hold e he
        · exact ⟨payload, List.mem_singleton.1 he⟩
  | sent kind frame _ _ _ hrequests =>
      unfold Spoken
      rw [hrequests]
      exact hspoken
  | handled line rest response _ _ hrequest =>
      obtain ⟨-, -, more, hmore, hempty⟩ :=
        handled_same (Ipc.request_cases hrequest)
      intro r hr e he
      rw [hmore] at hr
      rcases List.mem_append.1 hr with hr | hr
      · exact hspoken r hr e he
      · rw [hempty r hr] at he
        cases he
  | aborted _ _ hrequests =>
      unfold Spoken
      rw [hrequests]
      exact hspoken

/-- Requests are never taken back. -/
theorem effect_requests (h : Ipc.Effect w.server c c') (n : Nat)
    (r : Ipc.Request) (hr : c.requests[n]? = some r) :
    ∃ r' : Ipc.Request, c'.requests[n]? = some r' ∧ r'.id = r.id ∧ r'.method
      = r.method := by
  cases h with
  | rest _ _ hrequests =>
      obtain ⟨r', hr', hbecame⟩ := Ipc.became_getElem? hrequests hr
      exact ⟨r', hr', hbecame.id, hbecame.method⟩
  | sent kind frame _ _ _ hrequests => exact ⟨r, hrequests ▸ hr, rfl, rfl⟩
  | handled line rest response _ _ hrequest =>
      obtain ⟨-, -, more, hmore, -⟩ :=
        handled_same (Ipc.request_cases hrequest)
      refine ⟨r, ?_, rfl, rfl⟩
      rw [hmore, List.getElem?_append_left (List.getElem?_eq_some_iff.1 hr).1]
      exact hr
  | aborted _ _ hrequests => exact ⟨r, hrequests ▸ hr, rfl, rfl⟩

/-- A server that has aborted sends nothing. -/
theorem effect_dead (h : Ipc.Effect w.server c c')
    (habort : Ipc.Entry.aborted ∈ c'.log)
    (hclosed : Ipc.Entry.aborted ∈ c.log → c.connected = false) :
    sentOf c'.log = sentOf c.log ∧ c'.connected = false := by
  cases h with
  | rest hlog hconnected =>
      rw [hlog] at habort ⊢
      exact ⟨rfl, hconnected (hclosed habort)⟩
  | sent kind frame _ hlog hopen =>
      rw [hlog] at habort
      have hbefore : Ipc.Entry.aborted ∈ c.log := by simpa using habort
      rw [hclosed hbefore] at hopen
      cases hopen
  | handled line rest response _ _ hrequest =>
      have hhandled := Ipc.request_cases hrequest
      have hbefore : Ipc.Entry.aborted ∈ c.log := by
        rcases hhandled.log with hlog | hlog
        · exact hlog ▸ habort
        · rw [hlog] at habort
          simpa using habort
      have hsent := handled_sent hhandled
      exact ⟨hsent, (handled_same hhandled).1.trans (hclosed hbefore)⟩
  | aborted hlog hconnected =>
      rw [hlog]
      exact ⟨sentOf_aborted _, hconnected⟩

/-- A step that sends nothing more of the requests that had ended only makes
the server grow. -/
theorem effect_grown (h : Ipc.Effect w.server c c')
    (hended : ∀ n, Ipc.Ended c.log n →
      framesOf n (sentOf c'.log) = framesOf n (sentOf c.log)) :
        Grown c c' where
  requests := effect_requests h
  sent := by
    obtain ⟨more, hmore⟩ := h.log
    exact ⟨sentOf more, by rw [hmore, sentOf_append]⟩
  ended := hended

/-- On a connection that keeps the protocol, nothing is sent about a
request that has ended. -/
theorem once_framesOf {log more : List Ipc.Entry} {n : Nat}
    (honce : (log ++ more).Pairwise fun a b => a.ends n → ¬ b.about n)
    (hended : Ipc.Ended log n) :
    framesOf n (sentOf (log ++ more)) = framesOf n (sentOf log) := by
  rw [sentOf_append, framesOf_append]
  refine List.append_right_eq_self.2
    (List.eq_nil_iff_forall_not_mem.2 fun sent hsent => ?_)
  obtain ⟨kind, frame⟩ := sent
  obtain ⟨hsent, hrequest⟩ := mem_framesOf.1 hsent
  obtain ⟨e, he, hends⟩ := hended
  exact (List.pairwise_append.1 honce).2.2 e he _ (mem_sentOf.1 hsent) hends
    (Ipc.Kind.about_iff.2 hrequest)

/-- Where a frame comes from that is sent, and how it is worded. The texts of
errors are the service's; their shape is the server's. -/
theorem due_worded {kind : Kind} {frame : JsonObject}
    (h : Ipc.Served w.server c)
    (hspoken : Spoken c) (hdue : Ipc.Due c kind frame) :
    (∃ id watch, c.main = .answering kind frame id watch)
      ∨ (¬ c.main.Answers ∧ (∀ m, kind ≠ .accepted m) ∧ ∃ n r,
        kind.request = some n
        ∧ c.requests[n]? = some r ∧ Worded r.id kind frame) := by
  cases hdue with
  | answering kind frame id watch hmain => exact .inl ⟨id, watch, hmain⟩
  | event q hnot hq =>
      refine .inr ⟨hnot, fun _ => Kind.noConfusion, q.request, ?_⟩
      have hlt := h.ledger.queued q hq
      refine ⟨_, rfl, List.getElem?_eq_getElem hlt, ?_⟩
      have hdelivered : q.event ∈ (c.requests[q.request]).delivered := by
        refine (h.ledger.flow _ _ (List.getElem?_eq_getElem hlt)).subset
          (List.mem_append_right _ ?_)
        exact List.mem_filterMap.2 ⟨q, hq, if_pos rfl⟩
      obtain ⟨payload, hpayload⟩ :=
        hspoken _ (List.getElem_mem hlt) _ hdelivered
      rw [hpayload]
      exact .event ..
  | result watch result hnot hwatch =>
      obtain ⟨-, r, -, -, hr, hid, -⟩ := h.ledger.watched watch hwatch
      exact .inr ⟨hnot, fun _ => Kind.noConfusion, watch.request, r, rfl, hr,
        hid ▸ .result ..⟩
  | error watch error hnot hwatch =>
      obtain ⟨-, r, -, -, hr, hid, -⟩ := h.ledger.watched watch hwatch
      exact .inr ⟨hnot, fun _ => Kind.noConfusion, watch.request, r, rfl, hr,
        hid ▸ .error ..⟩

-- ============================================================== the invariant

variable {s s' : IpcLink}

/-- Every request has ended, and nothing is about to be sent from
the loop of `read`. -/
def Rest (c : Ipc.Client) : Prop :=
  (∀ n < c.requests.length, Ipc.Ended c.log n) ∧ ¬ c.main.Answers

/-- The frames that were sent since a call began. -/
structure Dialogue (c : Ipc.Client) (answers : List (Option Nat))
    (id method : QString) (frames : List Sent) : Prop where
  worded : ∀ sent ∈ frames, Worded id sent.1 sent.2
  last : frames.Pairwise fun a _ => final a = false
  accepted : ∀ sent ∈ frames.tail, ∀ m, sent.1 ≠ .accepted m
  owner : frames = []
    ∨ (∃ message, frames
      = [(.refused, errorFrame id ⟨.InvalidArgument, message⟩)]
      ∧ (.refused, errorFrame id ⟨.InvalidArgument, message⟩) ∈ sentOf c.log)
    ∨ ∃ (n : Nat) (r : Ipc.Request), framesOf n (sentOf c.log) = frames
      ∧ c.requests[n]? = some r ∧ r.id = id ∧ r.method = method
      ∧ ∀ m, some m ∈ answers → m < n

/-- How far the request of a call has come, on a server that has
not aborted. -/
inductive Stage (w : IpcWire) (s : IpcLink) (answers : List (Option Nat))
    (id method : QString) (frames : List Sent) : Prop
  /-- Its line has not been taken. -/
  | asked (request : JsonObject) :
      s.server.input ++ s.toServer = w.toJson request ++ [10] →
      request ∈ s.client.requests → Ipc.string request "id" true = .ok id →
      lookup request (qs "method") = some (.string method) →
      frames = [] → Rest s.server → Stage w s answers id method frames
  | refusing (message : QString) :
      s.server.input ++ s.toServer = [] → frames = [] →
      (∀ n < s.server.requests.length, Ipc.Ended s.server.log n) →
      s.server.main = .answering .refused
        (errorFrame id ⟨.InvalidArgument, message⟩) none none →
      Stage w s answers id method frames
  | refused (message : QString) : s.server.input ++ s.toServer = [] →
      frames = [(.refused, errorFrame id ⟨.InvalidArgument, message⟩)] →
      (.refused, errorFrame id ⟨.InvalidArgument, message⟩)
        ∈ sentOf s.server.log →
      Rest s.server → Stage w s answers id method frames
  | serving (n : Nat) (r : Ipc.Request) : s.server.input ++ s.toServer = [] →
      s.server.requests.length = n + 1 → s.server.requests[n]? = some r →
      r.id = id →
      r.method = method → (∀ m, some m ∈ answers → m < n) →
      (∀ m < n, Ipc.Ended s.server.log m) →
      framesOf n (sentOf s.server.log) = frames →
      (∀ kind frame id' watch,
        s.server.main = .answering kind frame id' watch →
        Worded id kind frame ∧ kind.request = some n ∧ frames = []) →
      Stage w s answers id method frames

/-- The connection keeps the protocol. -/
def Live (s : IpcLink) : Prop := Ipc.Entry.aborted ∉ s.server.log

/-- A call that is on its way: what the client has read of its dialogue,
and what it has not. -/
structure Talk (w : IpcWire) (s : IpcLink) (answers : List (Option Nat))
    (call : IpcCall) : Prop where
  talk : ∃ done unread, s.client.input ++ s.toClient = bytesOf w unread
    ∧ Dialogue s.server answers call.id call.method (done ++ unread)
    ∧ (∀ sent ∈ done, final sent = false) ∧ call.events = eventsIn done
    ∧ (Live s → Stage w s answers call.id call.method (done ++ unread))

/-- No call is on its way. -/
structure Still (s : IpcLink) : Prop where
  empty : s.client.input ++ s.toClient = []
  asked : Live s → s.server.input ++ s.toServer = []
  rest : Live s → Rest s.server

structure Kept (w : IpcWire) (s : IpcLink) (answers : List (Option Nat)) :
    Prop where
  settled : List.Forall₂ (Settled s.server) s.client.ended answers
  order : answers.Pairwise fun a b => ∀ m ∈ a, ∀ n ∈ b, m < n
  known : ∀ m, some m ∈ answers → m < s.server.requests.length
  spoken : Spoken s.server
  served : Live s → Ipc.Served w.server s.server
  dead : Ipc.Entry.aborted ∈ s.server.log → s.server.connected = false
  idle : s.client.main = .idle → s.client.connected = true → Still s
  talk : ∀ call, s.client.main = .waiting call
    ∨ s.client.main = .reading call →
    Talk w s answers call

/-- Before the first call, nothing is owed to anybody. -/
theorem kept_start : Kept w {} [] where
  settled := .nil
  order := .nil
  known := fun _ hm => absurd hm (List.not_mem_nil)
  spoken := fun _ hr => absurd hr (List.not_mem_nil)
  served := fun _ => Ipc.served_start w.server
  dead := fun h => absurd h (List.not_mem_nil)
  idle := fun _ _ => ⟨rfl, fun _ => rfl,
    fun _ => ⟨fun _ hn => absurd hn (Nat.not_lt_zero _), not_false⟩⟩
  talk := fun _ h => h.elim IpcClient.Main.noConfusion
    IpcClient.Main.noConfusion

-- ======================================================== steps of the client

variable {answers : List (Option Nat)} {call : IpcCall} {id method : QString}
  {frames : List Sent}

/-- What matters of the link to a stage. -/
theorem Stage.moved (h : Stage w s answers id method frames)
    (hserver : s'.server = s.server) (htoServer : s'.toServer = s.toServer)
    (hrequests : s'.client.requests = s.client.requests) :
    Stage w s' answers id method frames := by
  cases h with
  | asked request hinput hrequest hid hmethod hframes hrest =>
      exact .asked request (by rw [hserver, htoServer, hinput])
        (hrequests ▸ hrequest) hid
        hmethod hframes (hserver ▸ hrest)
  | refusing message hinput hframes hended hmain =>
      exact .refusing message (by rw [hserver, htoServer, hinput]) hframes
        (hserver ▸ hended)
        (hserver ▸ hmain)
  | refused message hinput hframes hsent hrest =>
      exact .refused message (by rw [hserver, htoServer, hinput]) hframes
        (hserver ▸ hsent)
        (hserver ▸ hrest)
  | serving n r hinput hlength hr hid hmethod hused hended hframes hmain =>
      exact .serving n r (by rw [hserver, htoServer, hinput])
        (hserver ▸ hlength)
        (hserver ▸ hr) hid hmethod hused (hserver ▸ hended) (hserver ▸ hframes)
        (hserver ▸ hmain)

/-- The client alone has moved. -/
theorem Kept.client (h : Kept w s answers) (hserver : s'.server = s.server)
    (hended : s'.client.ended = s.client.ended)
    (hidle : s'.client.main = .idle → s'.client.connected = true → Still s')
    (htalk : ∀ call, s'.client.main = .waiting call
      ∨ s'.client.main = .reading call →
      Talk w s' answers call) : Kept w s' answers where
  settled := by
    rw [hserver, hended]
    exact h.settled
  order := h.order
  known := hserver ▸ h.known
  spoken := hserver ▸ h.spoken
  served := fun hlive => by
    unfold Live at hlive
    rw [hserver] at hlive ⊢
    exact h.served hlive
  dead := hserver ▸ h.dead
  idle := hidle
  talk := htalk

/-- A call has ended. -/
theorem Kept.finish (h : Kept w s answers) {outcome : Outcome}
    {answer : Option Nat} (hsettled : Settled s.server (call, outcome) answer)
    (hnew : ∀ n ∈ answer, (∀ m, some m ∈ answers → m < n)
      ∧ n < s.server.requests.length)
    (hserver : s'.server = s.server)
    (hended : s'.client.ended = s.client.ended ++ [(call, outcome)])
    (hmain : s'.client.main = .idle)
    (hstill : s'.client.connected = true → Still s') :
    Kept w s' (answers ++ [answer]) where
  settled := by
    rw [hserver, hended]
    exact List.rel_append h.settled (.cons hsettled .nil)
  order := by
    rw [List.pairwise_append]
    refine ⟨h.order, List.pairwise_singleton .., fun a ha b hb m hm n hn => ?_⟩
    rw [List.mem_singleton.1 hb] at hn
    exact (hnew n hn).1 m (by rwa [Option.mem_def.1 hm] at ha)
  known := by
    intro m hm
    rw [hserver]
    rcases List.mem_append.1 hm with hm | hm
    · exact h.known m hm
    · exact (hnew m (List.mem_singleton.1 hm).symm).2
  spoken := hserver ▸ h.spoken
  served := fun hlive => by
    unfold Live at hlive
    rw [hserver] at hlive ⊢
    exact h.served hlive
  dead := hserver ▸ h.dead
  idle := fun _ => hstill
  talk := by
    intro call htalk
    rw [hmain] at htalk
    exact htalk.elim IpcClient.Main.noConfusion IpcClient.Main.noConfusion

/-- A call that is given up owes nothing more: it ends with the reason, and
nothing answers it. -/
theorem Kept.lose (h : Kept w s answers) (call : IpcCall) {reason : String}
    (hreason : Loss reason) (hserver : s'.server = s.server)
    (hended : s'.client.ended
      = s.client.ended ++ [(call, IpcClient.fail (qs reason))])
    (hmain : s'.client.main = .idle)
    (hstill : s'.client.connected = true → Still s') :
    Kept w s' (answers ++ [none]) :=
  h.finish (.lost call reason hreason)
    (fun _ hn => absurd hn (Option.not_mem_none _)) hserver
    hended hmain hstill

/-- The first line of what is unread. -/
theorem bytesOf_line {unread : List Sent}
    {input transit line rest : List UInt8}
    (h : input ++ transit = bytesOf w unread)
    (hline : Ipc.takeLine input = some (line, rest)) :
    ∃ kind frame later, unread = (kind, frame) :: later ∧ line = w.toJson frame
      ∧ rest ++ transit = bytesOf w later := by
  obtain ⟨hnewline, rfl⟩ := Ipc.takeLine_some.1 hline
  cases unread with
  | nil => simp [bytesOf] at h
  | cons sent later =>
      refine ⟨sent.1, sent.2, later, rfl, ?_⟩
      have heq : line ++ 10 :: (rest ++ transit)
          = w.toJson sent.2 ++ 10 :: bytesOf w later := by
        simpa [bytesOf] using h
      have hsame : line = w.toJson sent.2 := by
        rw [← Ipc.takeWhile_line hnewline (rest ++ transit), heq,
          Ipc.takeWhile_line (w.oneLine _)]
      rw [hsame] at heq
      exact ⟨hsame, (List.cons.inj (List.append_cancel_left heq)).2⟩

/-- What a dialogue consists of was sent. -/
theorem Dialogue.mem_sent {answers : List (Option Nat)}
    (h : Dialogue c answers id method frames) {sent : Sent}
    (hsent : sent ∈ frames) : sent ∈ sentOf c.log := by
  rcases h.owner with hnone | ⟨message, heq, hrefused⟩ | ⟨n, r, heq, -⟩
  · rw [hnone] at hsent
    cases hsent
  · rw [heq] at hsent
    rw [List.mem_singleton.1 hsent]
    exact hrefused
  · rw [← heq] at hsent
    exact (mem_framesOf.1 hsent).1

/-- When its last frame is sent, a request is over. -/
theorem Stage.over (h : Stage w s answers id method frames) {sent : Sent}
    (hsent : sent ∈ frames) (hfinal : final sent = true) :
    s.server.input ++ s.toServer = [] ∧ Rest s.server := by
  cases h with
  | asked request _ _ _ _ hframes =>
      rw [hframes] at hsent
      cases hsent
  | refusing message _ hframes =>
      rw [hframes] at hsent
      cases hsent
  | refused message hinput _ _ hrest => exact ⟨hinput, hrest⟩
  | serving n r hinput hlength _ _ _ _ hended hframes hmain =>
      refine ⟨hinput, fun m hm => ?_, fun hanswers => ?_⟩
      · rcases Nat.lt_succ_iff_lt_or_eq.1 (hlength ▸ hm) with hm | rfl
        · exact hended m hm
        · exact ended_of_final (hframes ▸ hsent) hfinal
      · cases hat : s.server.main with
        | answering kind frame id' watch =>
            rw [(hmain kind frame id' watch hat).2.2] at hsent
            cases hsent
        | _ =>
            rw [hat] at hanswers
            exact hanswers

/-- A whole dialogue settles the call. -/
theorem Dialogue.settled (call : IpcCall) {front : List Sent} {last : Sent}
    (h : Dialogue c answers call.id call.method (front ++ [last]))
    (hfinal : final last = true)
    (hevents : call.events = eventsIn (front ++ [last])) :
    ∃ answer, Settled c (call, outcomeOf last.2) answer
      ∧ ∀ n ∈ answer, (∀ m, some m ∈ answers → m < n)
      ∧ n < c.requests.length := by
  rcases h.owner with hnone | ⟨message, heq, hrefused⟩ | ⟨n, r, heq, hr,
    hid, hmethod, hlt⟩
  · simp at hnone
  · have hlast : last = (.refused, errorFrame call.id ⟨.InvalidArgument,
        message⟩) := by
      rw [← List.nil_append [(Kind.refused, _)]] at heq
      exact (List.cons.inj (List.append_inj' heq rfl).2).1
    rw [hlast]
    refine ⟨none, .refused call message ?_ hrefused,
      fun _ hn => absurd hn (Option.not_mem_none _)⟩
    rw [hevents, heq]
    rfl
  · refine ⟨some n, .answered call n r front last hr hid hmethod heq hfinal
      h.accepted hevents,
      fun m hm => ?_⟩
    rw [← Option.some.inj hm]
    exact ⟨hlt, (List.getElem?_eq_some_iff.1 hr).1⟩

/-- What every frame of the connection is read back as. -/
structure Legible (w : IpcWire) (s : IpcLink) : Prop where
  requests : ∀ request ∈ s.client.requests,
    w.server.parse (w.toJson request) = some request
  frames : ∀ kind frame, Ipc.Entry.sent kind frame ∈ s.server.log →
    w.server.parse (w.toJson frame) = some frame

/-- The client takes a line, or goes on. A line under the id of the call is an
event, a result or an error, each of which the client knows. -/
theorem Kept.line (h : Kept w s answers) (hlegible : Legible w s)
    (hmain : s.client.main = .reading call)
    (hs' : s' = { s with client := s.client.line w.server.parse call }) :
    ∃ answers', Kept w s' answers' := by
  obtain ⟨done, unread, hbytes, hdialogue, hsilent, hevents, hstage⟩ :=
    (h.talk call (.inr hmain)).talk
  unfold IpcClient.line at hs'
  cases hline : Ipc.takeLine s.client.input with
  | none =>
      rw [hline] at hs'
      dsimp only at hs'
      by_cases hlong : IpcClient.responseLimit < s.client.input.length
      · rw [if_pos hlong] at hs'
        subst hs'
        exact ⟨_, h.lose call .long rfl rfl rfl Bool.noConfusion⟩
      rw [if_neg hlong] at hs'
      by_cases hclosed : s.client.connected = false
      · rw [if_pos hclosed] at hs'
        subst hs'
        refine ⟨_, h.lose call .lost rfl rfl rfl fun hopen => ?_⟩
        rw [show s.client.connected = true from hopen] at hclosed
        cases hclosed
      · rw [if_neg hclosed] at hs'
        subst hs'
        refine ⟨answers, h.client rfl rfl IpcClient.Main.noConfusion
          fun call' htalk => ?_⟩
        rcases htalk with htalk | htalk
        · injection htalk with htalk
          subst htalk
          exact ⟨done, unread, hbytes, hdialogue, hsilent, hevents,
            fun hlive => (hstage hlive).moved rfl rfl rfl⟩
        · cases htalk
  | some taken =>
      obtain ⟨line, rest⟩ := taken
      rw [hline] at hs'
      dsimp only at hs'
      by_cases hlong : IpcClient.responseLimit < line.length
      · rw [if_pos hlong] at hs'
        subst hs'
        exact ⟨_, h.lose call .long rfl rfl rfl Bool.noConfusion⟩
      rw [if_neg hlong] at hs'
      obtain ⟨kind, frame, later, rfl, rfl, hrest⟩ := bytesOf_line hbytes hline
      have hmem : (kind, frame) ∈ done ++ (kind, frame) :: later := by simp
      rw [hlegible.frames kind frame (mem_sentOf.1 (hdialogue.mem_sent hmem)),
        respond_worded (hdialogue.worded _ hmem)] at hs'
      have hheard : call.events ++ eventsIn [(kind, frame)]
          = eventsIn (done ++ [(kind, frame)]) := by
        rw [eventsIn_append, hevents]
      by_cases hfinal : final (kind, frame) = true
      · -- nothing is behind the last frame
        rw [if_pos hfinal] at hs'
        have hlater : later = [] := by
          refine List.eq_nil_iff_forall_not_mem.2 fun sent hsent => ?_
          have hpair := (List.pairwise_append.1 hdialogue.last).2.1
          rw [(List.pairwise_cons.1 hpair).1 sent hsent] at hfinal
          cases hfinal
        subst hlater
        subst hs'
        obtain ⟨answer, hsettled, hnew⟩ := Dialogue.settled
          { call with events := call.events ++ eventsIn [(kind, frame)] }
          hdialogue hfinal hheard
        exact ⟨_, h.finish hsettled hnew rfl rfl rfl fun _ => ⟨hrest,
          fun hlive => ((hstage hlive).over hmem hfinal).1,
          fun hlive => ((hstage hlive).over hmem hfinal).2⟩⟩
      · rw [if_neg hfinal] at hs'
        subst hs'
        refine ⟨answers, h.client rfl rfl IpcClient.Main.noConfusion
          fun call' htalk => ?_⟩
        rcases htalk with htalk | htalk
        · cases htalk
        · injection htalk with htalk
          subst htalk
          have hmore : (done ++ [(kind, frame)]) ++ later
              = done ++ (kind, frame) :: later :=
            List.append_cons .. |>.symm
          refine ⟨done ++ [(kind, frame)], later, hrest, hmore ▸ hdialogue,
            fun sent hsent => ?_,
            hheard, fun hlive => hmore ▸ (hstage hlive).moved rfl rfl rfl⟩
          rcases List.mem_append.1 hsent with hsent | hsent
          · exact hsilent sent hsent
          · rw [List.mem_singleton.1 hsent]
            exact Bool.not_eq_true _ ▸ hfinal

/-- The number of a call is an id. -/
theorem string_number {o : JsonObject} {n : Nat}
    (h : lookup o (qs "id") = some (.string (QString.number n))) :
    Ipc.string o "id" true = .ok (QString.number n) := by
  have hunits : ∀ u ∈ QString.number n, isSpace u = false := by
    intro u hu
    rw [number_natCast] at hu
    obtain ⟨d, hd, rfl⟩ := List.mem_map.1 hu
    exact (digit_unit (decimal_lt hd)).1
  have hne : QString.number n ≠ [] := by
    rw [number_natCast]
    simpa using decimal_ne_nil n
  unfold Ipc.string
  dsimp only
  rw [h, if_neg (fun hnot => absurd hnot.1 (by decide)), if_neg]
  · rfl
  · refine not_or.2 ⟨fun hnot : true = false => absurd hnot (by decide),
      fun hnot => hne ?_⟩
    rw [← trimmed_self hunits]
    exact hnot.2

/-- The request that goes out bears the id and the method of the call. -/
theorem requestObject_members (id method : QString) (params : JsonObject)
    (credential : QString) :
    lookup (IpcClient.requestObject id method params credential) (qs "id")
        = some (.string id)
      ∧ lookup (IpcClient.requestObject id method params credential)
        (qs "method")
        = some (.string method) := by
  unfold IpcClient.requestObject
  dsimp only
  split
  · constructor
    · rw [Json.lookup_ofMembers]
      rfl
    · rw [Json.lookup_ofMembers]
      rfl
  · rw [Json.lookup_insert_ne _ _ (by decide),
      Json.lookup_insert_ne _ _ (by decide)]
    constructor
    · rw [Json.lookup_ofMembers]
      rfl
    · rw [Json.lookup_ofMembers]
      rfl

/-- A call begins on an empty line. -/
theorem Kept.begin (h : Kept w s answers) (hmain : s.client.main = .idle)
    (hconnected : s.client.connected = true) {method : QString}
    {params : JsonObject}
    {credential : QString} {client : IpcClient} {bytes : List UInt8}
    (hbegin : s.client.begin w.toJson method params credential
      = (client, bytes)) :
    ∃ answers', Kept w { s with
      client
      toServer := s.toServer ++ bytes } answers' := by
  have hstill := h.idle hmain hconnected
  unfold IpcClient.begin at hbegin
  dsimp only at hbegin
  split at hbegin
  · obtain ⟨rfl, rfl⟩ := Prod.mk.inj hbegin
    refine ⟨_, h.lose _ .request rfl rfl rfl fun _ => ?_⟩
    rw [List.append_nil]
    exact ⟨hstill.empty, hstill.asked, hstill.rest⟩
  · obtain ⟨rfl, rfl⟩ := Prod.mk.inj hbegin
    refine ⟨answers, h.client rfl rfl IpcClient.Main.noConfusion
      fun call htalk => ?_⟩
    rcases htalk with htalk | htalk
    · injection htalk with htalk
      subst htalk
      obtain ⟨hid, hmethod⟩ := requestObject_members
        (QString.number (s.client.nextId + 1).toNat) method params credential
      refine ⟨[], [], hstill.empty, ?_, fun _ hsent =>
        absurd hsent List.not_mem_nil, rfl,
        fun hlive => .asked _ ?_ (List.mem_append_right _ List.mem_cons_self)
          (string_number hid) hmethod rfl (hstill.rest hlive)⟩
      · exact ⟨fun _ hsent => absurd hsent List.not_mem_nil, .nil,
          fun _ hsent => absurd hsent List.not_mem_nil, .inl rfl⟩
      · show s.server.input ++ (s.toServer ++ _) = _
        rw [← List.append_assoc, hstill.asked hlive, List.nil_append]
    · cases htalk

/-- The steps of the client, one by one: it begins a call, reads what has come,
and hands on or returns what it has read. -/
theorem Kept.client_step {a : Action} (h : Kept w s answers)
    (hlegible : Legible w s)
    (hstep : step w s a = some s') (hserve : ∀ b, a ≠ .serve b)
    (hreceive : ∀ n, a ≠ .receive n) : ∃ answers', Kept w s' answers' := by
  cases a with
  | serve b => exact absurd rfl (hserve b)
  | receive n => exact absurd rfl (hreceive n)
  | call method params credential =>
      unfold step at hstep
      dsimp only at hstep
      split at hstep
      next hmain =>
        split at hstep
        next => cases hstep
        next hconnected =>
          injection hstep with hstep
          subst hstep
          exact h.begin hmain (Bool.not_eq_false _ ▸ hconnected) rfl
      next => cases hstep
  | giveUp interrupted =>
      unfold step at hstep
      dsimp only at hstep
      split at hstep
      next call hmain =>
        injection hstep with hstep
        subst hstep
        cases interrupted with
        | true =>
            exact ⟨_, h.lose call .interrupted rfl rfl rfl Bool.noConfusion⟩
        | false => exact ⟨_, h.lose call .late rfl rfl rfl Bool.noConfusion⟩
      next => cases hstep
  | readAll n =>
      unfold step at hstep
      dsimp only at hstep
      split at hstep
      next call hmain =>
        injection hstep with hstep
        subst hstep
        refine ⟨answers, h.client rfl rfl IpcClient.Main.noConfusion
          fun call' htalk => ?_⟩
        rcases htalk with htalk | htalk
        · cases htalk
        · injection htalk with htalk
          subst htalk
          obtain ⟨done, unread, hbytes, hdialogue, hsilent, hevents, hstage⟩ :=
            (h.talk call (.inl hmain)).talk
          refine ⟨done, unread, ?_, hdialogue, hsilent, hevents,
            fun hlive => (hstage hlive).moved rfl rfl rfl⟩
          show s.client.input ++ s.toClient.take n ++ s.toClient.drop n = _
          rw [List.append_assoc, List.take_append_drop, hbytes]
      next => cases hstep
  | line =>
      unfold step at hstep
      dsimp only at hstep
      split at hstep
      next call hmain =>
        injection hstep with hstep
        exact h.line hlegible hmain hstep.symm
      next => cases hstep
  | lost =>
      injection hstep with hstep
      subst hstep
      refine ⟨answers, h.client rfl rfl (fun _ => Bool.noConfusion)
        fun call htalk => ?_⟩
      obtain ⟨done, unread, hbytes, hdialogue, hsilent, hevents, hstage⟩ :=
        (h.talk call htalk).talk
      exact ⟨done, unread, hbytes, hdialogue, hsilent, hevents,
        fun hlive => (hstage hlive).moved rfl rfl rfl⟩

-- ======================================================== steps of the server

/-- The server has moved, and so have the bytes in transit. -/
theorem Kept.server (h : Kept w s answers) (hclient : s'.client = s.client)
    (hgrown : Grown s.server s'.server) (hspoken : Spoken s'.server)
    (hserved : Live s' → Ipc.Served w.server s'.server)
    (hdead : Ipc.Entry.aborted ∈ s'.server.log → s'.server.connected = false)
    (hidle : s.client.main = .idle → s.client.connected = true → Still s')
    (htalk : ∀ call, s.client.main = .waiting call
      ∨ s.client.main = .reading call →
      Talk w s' answers call) : Kept w s' answers where
  settled := by
    rw [hclient]
    exact h.settled.imp fun _ _ hsettled => hsettled.grown hgrown
  order := h.order
  known := by
    intro m hm
    obtain ⟨r, hr, -⟩ :=
      hgrown.requests m _ (List.getElem?_eq_getElem (h.known m hm))
    exact (List.getElem?_eq_some_iff.1 hr).1
  spoken := hspoken
  served := hserved
  dead := hdead
  idle := by
    rw [hclient]
    exact hidle
  talk := by
    rw [hclient]
    exact htalk

/-- A dialogue is left as it is by steps that send nothing. -/
theorem Dialogue.grown (h : Dialogue c answers id method frames)
    (hgrown : Grown c c') (hsame : sentOf c'.log = sentOf c.log) :
    Dialogue c' answers id method frames where
  worded := h.worded
  last := h.last
  accepted := h.accepted
  owner := by
    rw [hsame]
    refine h.owner.imp_right fun howner => howner.imp_right fun hserving => ?_
    obtain ⟨n, r, hframes, hr, hid, hmethod, hlt⟩ := hserving
    obtain ⟨r', hr', hid', hmethod'⟩ := hgrown.requests n r hr
    exact ⟨n, r', hframes, hr', hid'.trans hid, hmethod'.trans hmethod, hlt⟩

/-- A step that changes neither the log nor the requests leaves the server as
grown as it was. -/
theorem grown_of_eq (hlog : c'.log = c.log) (hrequests : c'.requests
    = c.requests) :
    Grown c c' where
  requests := fun n r hr => ⟨r, hrequests ▸ hr, rfl, rfl⟩
  sent := ⟨[], by rw [hlog, List.append_nil]⟩
  ended := fun _ _ => by rw [hlog]

/-- The server reads what is in transit. The bytes may be cut anywhere, so only
whole lines count for the stage. -/
theorem Kept.receive (h : Kept w s answers) {n : Nat}
    (hstep : step w s (.receive n) = some s') : Kept w s' answers := by
  obtain ⟨c, hc, rfl⟩ := Option.map_eq_some_iff.1 hstep
  obtain ⟨hmain, hconnected, rfl⟩ := Ipc.receive_cases hc
  have hlive : Live s := fun habort => by
    rw [h.dead habort] at hconnected
    cases hconnected
  have hread : s.server.input ++ s.toServer.take n ++ s.toServer.drop n
      = s.server.input ++ s.toServer := by
    rw [List.append_assoc, List.take_append_drop]
  have htransit : s.toClient
    ++ bytesOf w (sentOf (s.server.log.drop s.server.log.length))
      = s.toClient := by
    rw [List.drop_length]
    exact List.append_nil _
  have hrest : Rest s.server → Rest { s.server with
      input := s.server.input ++ s.toServer.take n
      main := .reading } := fun hrest => ⟨hrest.1, not_false⟩
  have hgrown : Grown s.server { s.server with
      input := s.server.input ++ s.toServer.take n
      main := .reading } := grown_of_eq rfl rfl
  refine h.server rfl hgrown h.spoken (fun _ => ?_) h.dead
    (fun hidle hopen => ?_)
    fun call htalk => ?_
  · exact Ipc.served_step (h.served hlive)
      (fun _ _ heq => Ipc.Action.noConfusion heq) hc hlive
  · have hstill := h.idle hidle hopen
    refine ⟨?_, fun _ => hread.trans (hstill.asked hlive), fun _ =>
      hrest (hstill.rest hlive)⟩
    show s.client.input ++ (s.toClient ++ _) = []
    rw [htransit, hstill.empty]
  · obtain ⟨done, unread, hbytes, hdialogue, hsilent, hevents, hstage⟩ :=
      (h.talk call htalk).talk
    refine ⟨done, unread, ?_, hdialogue.grown hgrown rfl, hsilent,
      hevents, fun _ => ?_⟩
    · show s.client.input ++ (s.toClient ++ _) = _
      rw [htransit, hbytes]
    · cases hstage hlive with
      | asked request hinput hrequest hid hmethod hframes hresting =>
          exact .asked request (hread.trans hinput) hrequest hid
            hmethod hframes
            (hrest hresting)
      | refusing message hinput hframes hended hanswering =>
          rw [hmain] at hanswering
          cases hanswering
      | refused message hinput hframes hsent hresting =>
          exact .refused message (hread.trans hinput) hframes hsent
            (hrest hresting)
      | serving m r hinput hlength hr hid hmethod hlt hended
          hframes hanswering =>
          exact .serving m r (hread.trans hinput) hlength hr hid hmethod hlt
            hended hframes
            fun _ _ _ _ hnot => Ipc.Main.noConfusion hnot

/-- What an effect of a live server does to the frames and to a stage. -/
structure Moves (w : IpcWire) (s s' : IpcLink) (answers : List (Option Nat))
    (id method : QString) (frames more : List Sent) : Prop where
  sent : sentOf s'.server.log = sentOf s.server.log ++ more
  stage : Stage w s' answers id method (frames ++ more)
  worded : ∀ sent ∈ more, Worded id sent.1 sent.2
  first : more ≠ [] → ∀ sent ∈ frames, final sent = false
  short : more.length ≤ 1
  accepted : frames ≠ [] → ∀ sent ∈ more, ∀ m, sent.1 ≠ .accepted m

/-- When nothing is sent, the stage of the call is what has to be shown. -/
theorem Moves.none (hsent : sentOf s'.server.log = sentOf s.server.log)
    (hstage : Stage w s' answers id method frames) :
    Moves w s s' answers id method frames [] where
  sent := hsent.trans (List.append_nil _).symm
  stage := by
    rw [List.append_nil]
    exact hstage
  worded := fun _ hsent => absurd hsent List.not_mem_nil
  first := fun h => absurd rfl h
  short := Nat.zero_le _
  accepted := fun _ _ hsent => absurd hsent List.not_mem_nil

/-- Nothing is sent where every request has ended. -/
theorem Rest.silent {kind : Kind} {frame : JsonObject} (hrest : Rest c)
    (hserved : Ipc.Served w.server c) (hspoken : Spoken c)
    (hdue : Ipc.Due c kind frame) (hlog : c'.log = c.log ++ [.sent kind frame])
    (hserved' : Ipc.Served w.server c') : False := by
  rcases due_worded hserved hspoken hdue with ⟨id, watch, hmain⟩ | ⟨-, -,
    n, r, hn, hr, -⟩
  · refine hrest.2 ?_
    rw [hmain]
    trivial
  · obtain ⟨e, he, hends⟩ := hrest.1 n (List.getElem?_eq_some_iff.1 hr).1
    have honce := hserved'.ledger.once n
    rw [hlog] at honce
    exact (List.pairwise_append.1 honce).2.2 e he _ List.mem_cons_self hends
      (Ipc.Kind.about_iff.2 hn)

/-- A connection stays at rest while nothing is logged, no request comes in and
nothing becomes due. -/
theorem Rest.moved (hrest : Rest c) (hlog : c'.log = c.log)
    (hlength : c'.requests.length = c.requests.length)
    (hmain : c'.main = c.main ∨ ¬ c'.main.Answers) : Rest c' := by
  refine ⟨?_, ?_⟩
  · rw [hlog, hlength]
    exact hrest.1
  · rcases hmain with hmain | hmain
    · exact hmain ▸ hrest.2
    · exact hmain

/-- The ids of the requests in flight, where every request has ended. -/
theorem Rest.ids (hrest : Rest c) (hserved : Ipc.Served w.server c) :
    c.ids = ∅ := by
  refine Finset.eq_empty_iff_forall_notMem.2 fun id hid => ?_
  obtain ⟨n, hn, hopen⟩ := (hserved.ledger.ids id).1 hid
  obtain ⟨r, hr, -⟩ := Option.map_eq_some_iff.1 hn
  exact hopen (hrest.1 n (List.getElem?_eq_some_iff.1 hr).1)

/-- Of a request that has not begun, nothing is sent. -/
theorem framesOf_fresh (hserved : Ipc.Served w.server c) :
    framesOf c.requests.length (sentOf c.log) = [] := by
  refine List.eq_nil_iff_forall_not_mem.2 fun sent hsent => ?_
  obtain ⟨hsent, hrequest⟩ := mem_framesOf.1 hsent
  have hlt := hserved.ledger.known c.requests.length
    ⟨_, mem_sentOf.1 (show (sent.1, sent.2) ∈ sentOf c.log from hsent),
      Ipc.Kind.about_iff.2 hrequest⟩
  exact absurd hlt (Nat.lt_irrefl _)

/-- The server rests: it has answered the call and waits for the next line. -/
theorem Stage.rest (h : Stage w s answers id method frames)
    (hserved : Ipc.Served w.server s.server) (hclient : s'.client = s.client)
    (htoServer : s'.toServer = s.toServer)
    (hlog : s'.server.log = s.server.log)
    (hrequests : List.Forall₂ Ipc.Request.Became s.server.requests
      s'.server.requests)
    (hinput : s'.server.input = s.server.input)
    (hmain : s'.server.main = s.server.main ∨ (¬ s'.server.main.Answers
      ∧ (s.server.connected = false ∨ ¬ s.server.main.Answers))) :
    Stage w s' answers id method frames := by
  have hread : s'.server.input ++ s'.toServer
      = s.server.input ++ s.toServer := by
    rw [hinput, htoServer]
  have hlength := hrequests.length_eq.symm
  cases h with
  | asked request hasked hrequest hid hmethod hframes hrest =>
      exact .asked request (hread.trans hasked)
        (hclient ▸ hrequest) hid hmethod hframes
        (hrest.moved hlog hlength (hmain.imp_right And.left))
  | refusing message hasked hframes hended hanswering =>
      refine .refusing message (hread.trans hasked) hframes
        (by rwa [hlog, hlength]) ?_
      rcases hmain with hmain | ⟨-, hclosed | hnot⟩
      · exact hmain.trans hanswering
      · -- a server that is about to answer has a connection
        have hopen := hserved.connected
          (by rw [hanswering]; exact Ipc.Main.noConfusion)
          (by rw [hanswering]; exact Ipc.Main.noConfusion)
        rw [hopen] at hclosed
        cases hclosed
      · refine absurd ?_ hnot
        rw [hanswering]
        trivial
  | refused message hasked hframes hsent hrest =>
      exact .refused message (hread.trans hasked) hframes (hlog ▸ hsent)
        (hrest.moved hlog hlength (hmain.imp_right And.left))
  | serving n r hasked hone hr hid hmethod hlt hended hframes hanswering =>
      obtain ⟨r', hr', hbecame⟩ := Ipc.became_getElem? hrequests hr
      refine .serving n r' (hread.trans hasked) (hlength.trans hone) hr'
        (hbecame.id.trans hid) (hbecame.method.trans hmethod) hlt
        (hlog ▸ hended) (hlog ▸ hframes) fun kind frame id' watch hat => ?_
      rcases hmain with hmain | ⟨hnot, -⟩
      · exact hanswering kind frame id' watch (hmain ▸ hat)
      · refine absurd ?_ hnot
        rw [hat]
        trivial

/-- The server sends a frame. It is about the call in flight, or about none,
and the client reads it in the order in which it was sent. -/
theorem Stage.sent {kind : Kind} {frame : JsonObject}
    (h : Stage w s answers id method frames)
    (hserved : Ipc.Served w.server s.server)
    (hspoken : Spoken s.server) (htoServer : s'.toServer = s.toServer)
    (hdue : Ipc.Due s.server kind frame)
    (hlog : s'.server.log = s.server.log ++ [.sent kind frame])
    (hrequests : s'.server.requests = s.server.requests)
    (hinput : s'.server.input = s.server.input)
    (hmain : ¬ s'.server.main.Answers)
    (hserved' : Ipc.Served w.server s'.server) :
    Moves w s s' answers id method frames [(kind, frame)] := by
  have hread : s'.server.input ++ s'.toServer
      = s.server.input ++ s.toServer := by
    rw [hinput, htoServer]
  have hsent : sentOf s'.server.log
      = sentOf s.server.log ++ [(kind, frame)] := by
    rw [hlog, sentOf_append]
    rfl
  have hended : ∀ n, Ipc.Ended s.server.log n → Ipc.Ended s'.server.log n := by
    intro n hn
    rw [hlog]
    exact Ipc.ended_append.2 (.inl hn)
  cases h with
  | asked request _ _ _ _ _ hrest =>
      exact (hrest.silent hserved hspoken hdue hlog hserved').elim
  | refused message _ _ _ hrest =>
      exact (hrest.silent hserved hspoken hdue hlog hserved').elim
  | refusing message hasked hframes hover hanswering =>
      rcases due_worded hserved hspoken hdue with ⟨id', watch, hat⟩ | ⟨hnot, -⟩
      · rw [hanswering] at hat
        injection hat with hkind hframe
        subst hkind hframe
        refine ⟨hsent, .refused message (hread.trans hasked)
          (by rw [hframes]; rfl) ?_ ?_,
          ?_, ?_, Nat.le_refl _, fun hne => absurd hframes hne⟩
        · rw [hsent]
          simp
        · refine ⟨fun n hn => hended n (hover n (hrequests ▸ hn)), hmain⟩
        · intro sent hmem
          rw [List.mem_singleton.1 hmem]
          exact .refused _
        · intro _ sent hmem
          rw [hframes] at hmem
          cases hmem
      · refine absurd ?_ hnot
        rw [hanswering]
        trivial
  | serving n r hasked hone hr hid hmethod hlt hover hframes hanswering =>
      -- it is about the only request that has not ended
      have hopen : ∀ m, kind.request = some m →
          ¬ Ipc.Ended s.server.log m := by
        intro m hm hover
        obtain ⟨e, he, hends⟩ := hover
        have honce := hserved'.ledger.once m
        rw [hlog] at honce
        exact (List.pairwise_append.1 honce).2.2 e he _
          List.mem_cons_self hends
          (Ipc.Kind.about_iff.2 hm)
      have hsays : Worded id kind frame ∧ kind.request = some n
          ∧ (frames ≠ [] → ∀ m, kind ≠ .accepted m) := by
        rcases due_worded hserved hspoken hdue with
          ⟨id', watch, hat⟩ | ⟨-, hkind, m, r', hm, hr', hworded⟩
        · obtain ⟨hworded, hn, hnone⟩ := hanswering kind frame id' watch hat
          exact ⟨hworded, hn, fun hne => absurd hnone hne⟩
        · have hmn : m = n := by
            have hlt := (List.getElem?_eq_some_iff.1 hr').1
            by_contra hne
            exact hopen m hm (hover m (by omega))
          subst hmn
          rw [hr] at hr'
          injection hr' with hr'
          exact ⟨by rw [← hid, hr']; exact hworded, hm, fun _ => hkind⟩
      obtain ⟨hworded, hn, haccepted⟩ := hsays
      refine ⟨hsent, .serving n r (hread.trans hasked) (hrequests ▸ hone)
        (hrequests ▸ hr) hid
        hmethod hlt (fun m hm => hended m (hover m hm)) ?_ ?_, ?_, ?_,
          Nat.le_refl _, ?_⟩
      · rw [hsent, framesOf_append, hframes]
        unfold framesOf
        rw [List.filter_cons_of_pos (by simpa using hn)]
        rfl
      · intro kind' frame' id' watch hat
        refine absurd ?_ hmain
        rw [hat]
        trivial
      · intro sent hmem
        rw [List.mem_singleton.1 hmem]
        exact hworded
      · intro _ sent hmem
        refine Bool.not_eq_true _ ▸ fun hfinal => hopen n hn
          (ended_of_final ?_ hfinal)
        rw [hframes]
        exact hmem
      · intro hne sent hmem
        rw [List.mem_singleton.1 hmem]
        exact haccepted hne

/-- The server takes the line of the call. What it does with it is the handling
of the frame, which knows nothing of the client. -/
theorem Stage.handled {line rest : List UInt8} {response : Ipc.Response}
    (h : Stage w s answers id method frames)
    (hserved : Ipc.Served w.server s.server) (hlegible : Legible w s)
    (hknown : ∀ m, some m ∈ answers → m < s.server.requests.length)
    (htoServer : s'.toServer = s.toServer)
    (hline : Ipc.takeLine s.server.input = some (line, rest))
    (hrequest : { s.server with input := rest }.request w.server response
      (w.server.parse line) = some s'.server) :
    Moves w s s' answers id method frames [] := by
  have hsent := handled_sent (Ipc.request_cases hrequest)
  have hlog := (Ipc.request_cases hrequest).log
  refine Moves.none hsent ?_
  obtain ⟨hnewline, hinput⟩ := Ipc.takeLine_some.1 hline
  have hsome : s.server.input ++ s.toServer ≠ [] := by
    rw [hinput]
    simp
  cases h with
  | refusing message hasked => exact absurd hasked hsome
  | refused message hasked => exact absurd hasked hsome
  | serving n r hasked => exact absurd hasked hsome
  | asked request hasked hwritten hid hmethod hframes hresting =>
      -- the line is that of the request, and nothing is behind it
      have heq : line ++ 10 :: (rest ++ s.toServer)
          = w.toJson request ++ 10 :: [] := by
        rw [← hasked, hinput]
        simp
      have hsame : line = w.toJson request := by
        rw [← Ipc.takeWhile_line hnewline (rest ++ s.toServer), heq,
          Ipc.takeWhile_line (w.oneLine _)]
      rw [hsame] at heq
      have hnone : rest ++ s.toServer = [] :=
        (List.cons.inj (List.append_cancel_left heq)).2
      rw [hsame, hlegible.requests request hwritten] at hrequest
      have hcases := Ipc.request_begun
        (c := { s.server with input := rest }) hid
        (hresting.ids hserved) hrequest
      rcases hcases with ⟨message, hrefused⟩ | ⟨method', hm, hbegun⟩
      · have hparts : s'.server.input = rest ∧ s'.server.log = s.server.log
            ∧ s'.server.requests = s.server.requests ∧ s'.server.main
              = .answering .refused (errorFrame id ⟨.InvalidArgument, message⟩)
                none none := by
          rw [hrefused]
          exact ⟨rfl, rfl, rfl, rfl⟩
        obtain ⟨hinput', hkept, hrequests, hat⟩ := hparts
        exact .refusing message (by rw [hinput', htoServer, hnone]) hframes
          (by rw [hkept, hrequests]; exact hresting.1) hat
      · have hmethod' : method' = method := by
          unfold Ipc.string at hm
          dsimp only at hm
          rw [hmethod] at hm
          split at hm
          next hnot => exact absurd hnot.1 (by decide)
          next =>
            split at hm
            next => cases hm
            next =>
              injection hm with hm
              exact hm.symm
        obtain ⟨work, hrequests⟩ := hbegun.requests
        have hlength : s'.server.requests.length
            = s.server.requests.length + 1 := by
          rw [hrequests]
          simp
        refine .serving s.server.requests.length ⟨id, method', work, []⟩ ?_
          hlength ?_ rfl
          hmethod' hknown ?_ ?_ ?_
        · rw [hbegun.input, htoServer]
          exact hnone
        · rw [hrequests]
          exact Ipc.getElem?_begun
        · intro m hm
          have hended := hresting.1 m hm
          rcases hlog with hlog | hlog
          · exact hlog ▸ hended
          · exact hlog ▸ Ipc.ended_append.2 (.inl hended)
        · rw [hsent, hframes]
          exact framesOf_fresh hserved
        · intro kind frame id' watch hat
          obtain ⟨hworded, hn⟩ := hbegun.main kind frame id' watch hat
          exact ⟨hworded, hn, hframes⟩

/-- The dialogue that belongs to a stage. -/
theorem Stage.owner (h : Stage w s answers id method frames) : frames = []
    ∨ (∃ message, frames
      = [(.refused, errorFrame id ⟨.InvalidArgument, message⟩)]
      ∧ (.refused, errorFrame id ⟨.InvalidArgument, message⟩)
        ∈ sentOf s.server.log)
    ∨ ∃ (n : Nat) (r : Ipc.Request), framesOf n (sentOf s.server.log) = frames
      ∧ s.server.requests[n]? = some r ∧ r.id = id ∧ r.method = method
      ∧ ∀ m, some m ∈ answers → m < n := by
  cases h with
  | asked request _ _ _ _ hframes => exact .inl hframes
  | refusing message _ hframes => exact .inl hframes
  | refused message _ hframes hsent =>
      exact .inr (.inl ⟨message, hframes, hsent⟩)
  | serving n r _ _ hr hid hmethod hlt _ hframes =>
      exact .inr (.inr ⟨n, r, hframes, hr, hid, hmethod, hlt⟩)

/-- A move adds to the dialogue what it sends. -/
theorem Moves.dialogue {more : List Sent}
    (h : Moves w s s' answers id method frames more)
    (hdialogue : Dialogue s.server answers id method frames) :
    Dialogue s'.server answers id method (frames ++ more) where
  worded := by
    intro sent hsent
    rcases List.mem_append.1 hsent with hsent | hsent
    · exact hdialogue.worded sent hsent
    · exact h.worded sent hsent
  last := by
    refine List.pairwise_append.2 ⟨hdialogue.last, ?_, fun a ha b hb => ?_⟩
    · have hshort := h.short
      cases more with
      | nil => exact .nil
      | cons sent more =>
          cases more with
          | nil => exact List.pairwise_singleton ..
          | cons _ _ => simp at hshort
    · exact h.first (List.ne_nil_of_mem hb) a ha
  accepted := by
    intro sent hsent
    cases frames with
    | nil =>
        have hshort := h.short
        cases more with
        | nil => cases hsent
        | cons first more =>
            cases more with
            | nil => cases hsent
            | cons _ _ => simp at hshort
    | cons first frames =>
        rcases List.mem_append.1 hsent with hsent | hsent
        · exact hdialogue.accepted sent hsent
        · exact h.accepted (by simp) sent hsent
  owner := h.stage.owner

/-- The effect of a live server on a call that is on its way. -/
theorem Stage.effect (h : Stage w s answers id method frames)
    (hkept : Kept w s answers)
    (hlegible : Legible w s) (hlive : Live s) (hclient : s'.client = s.client)
    (htoServer : s'.toServer = s.toServer)
    (heffect : Ipc.Effect w.server s.server s'.server)
    (hlive' : Live s') (hserved' : Ipc.Served w.server s'.server) :
    ∃ more, Moves w s s' answers id method frames more := by
  have hserved := hkept.served hlive
  cases heffect with
  | rest hlog _ hrequests hinput hmain =>
      exact ⟨[], .none (congrArg sentOf hlog)
        (h.rest hserved hclient htoServer hlog hrequests
        hinput hmain)⟩
  | sent kind frame hdue hlog _ hrequests hinput hmain =>
      exact ⟨_, h.sent hserved hkept.spoken htoServer hdue hlog
        hrequests hinput hmain
        hserved'⟩
  | handled line rest response _ hline hrequest =>
      exact ⟨[], h.handled hserved hlegible hkept.known htoServer
        hline hrequest⟩
  | aborted hlog =>
      refine absurd ?_ hlive'
      rw [hlog]
      simp

/-- And where no call is on its way. -/
theorem Still.effect (h : Still s) (hkept : Kept w s answers) (hlive : Live s)
    (htoServer : s'.toServer = s.toServer)
    (heffect : Ipc.Effect w.server s.server s'.server)
    (hlive' : Live s') (hserved' : Ipc.Served w.server s'.server) :
    sentOf s'.server.log = sentOf s.server.log
      ∧ s'.server.input ++ s'.toServer = []
      ∧ Rest s'.server := by
  have hrest := h.rest hlive
  have hasked := h.asked hlive
  cases heffect with
  | rest hlog _ hrequests hinput hmain =>
      exact ⟨congrArg sentOf hlog, by rw [hinput, htoServer, hasked],
        hrest.moved hlog hrequests.length_eq.symm (hmain.imp_right And.left)⟩
  | sent kind frame hdue hlog =>
      exact (hrest.silent (hkept.served hlive) hkept.spoken hdue hlog
        hserved').elim
  | handled line rest response _ hline =>
      rw [(Ipc.takeLine_some.1 hline).2] at hasked
      simp at hasked
  | aborted hlog =>
      refine absurd ?_ hlive'
      rw [hlog]
      simp

/-- The steps of the server that read nothing. They write to the pipe what the
stage of the call allows, and in no other order. -/
theorem Kept.serve (h : Kept w s answers) (hlegible : Legible w s)
    {a : Ipc.Action} (hobeys : Ipc.Obeys w.server s.server a)
    (hstep : step w s (.serve a) = some s') : Kept w s' answers := by
  unfold step at hstep
  dsimp only at hstep
  split at hstep
  next => cases hstep
  next hreads =>
    obtain ⟨c, hc, rfl⟩ := Option.map_eq_some_iff.1 hstep
    have heffect := Ipc.step_effect hc (Bool.not_eq_true _ ▸ hreads)
    obtain ⟨later, hlater⟩ := heffect.log
    have hdrop : c.log.drop s.server.log.length = later := by
      rw [hlater, List.drop_left]
    generalize hs' : ({ s with
      server := c
      toClient := s.toClient
        ++ bytesOf w (sentOf (c.log.drop s.server.log.length)) } :
        IpcLink) = s'
    have hserver : s'.server = c := by rw [← hs']
    have hclient : s'.client = s.client := by rw [← hs']
    have htoServer : s'.toServer = s.toServer := by rw [← hs']
    have htoClient : s'.toClient = s.toClient ++ bytesOf w (sentOf later) := by
      rw [← hs', ← hdrop]
    clear hs' hdrop
    subst hserver
    have hsplit : sentOf s'.server.log
        = sentOf s.server.log ++ sentOf later := by
      rw [hlater, sentOf_append]
    have hspoken := spoken_effect heffect h.spoken
    by_cases hlive' : Live s'
    · have hlive : Live s :=
        fun habort => hlive' (hlater ▸ List.mem_append_left _ habort)
      have hserved' := Ipc.served_step (h.served hlive) hobeys hc hlive'
      have hgrown := effect_grown heffect fun n hn => by
        have honce := hserved'.ledger.once n
        rw [hlater] at honce ⊢
        exact once_framesOf honce hn
      refine h.server hclient hgrown hspoken (fun _ => hserved')
        (fun habort => absurd habort hlive') (fun hidle hopen => ?_)
          fun call htalk => ?_
      · have hstill := h.idle hidle hopen
        obtain ⟨hsame, hasked, hrest⟩ :=
          hstill.effect h hlive htoServer heffect hlive' hserved'
        have hnone : sentOf later = [] := by
          rw [hsplit] at hsame
          exact List.append_right_eq_self.1 hsame
        refine ⟨?_, fun _ => hasked, fun _ => hrest⟩
        rw [hclient, htoClient, hnone]
        exact (congrArg _ (List.append_nil _)).trans hstill.empty
      · obtain ⟨done, unread, hbytes, hdialogue, hsilent, hevents, hstage⟩ :=
          (h.talk call htalk).talk
        obtain ⟨more, hmoves⟩ :=
          (hstage hlive).effect h hlegible hlive hclient htoServer
          heffect hlive' hserved'
        have hmore : sentOf later = more :=
          List.append_cancel_left (hsplit.symm.trans hmoves.sent)
        have hdialogue' := hmoves.dialogue hdialogue
        have hstage' := hmoves.stage
        rw [List.append_assoc] at hdialogue' hstage'
        refine ⟨done, unread ++ more, ?_, hdialogue', hsilent, hevents,
          fun _ => hstage'⟩
        rw [hclient, htoClient, hmore, ← List.append_assoc, hbytes,
          bytesOf_append]
    · -- an aborted connection sends nothing any more
      have habort := not_not.1 hlive'
      obtain ⟨hsame, hclosed⟩ := effect_dead heffect habort h.dead
      have hnone : sentOf later = [] := by
        rw [hsplit] at hsame
        exact List.append_right_eq_self.1 hsame
      have hsilent : s'.toClient = s.toClient := by
        rw [htoClient, hnone]
        exact List.append_nil _
      have hgrown := effect_grown heffect fun n _ => by rw [hsame]
      refine h.server hclient hgrown hspoken (fun hlive => absurd hlive hlive')
        (fun _ => hclosed) (fun hidle hopen => ?_) fun call htalk => ?_
      · refine ⟨?_, fun hlive => absurd hlive hlive', fun hlive =>
          absurd hlive hlive'⟩
        rw [hclient, hsilent]
        exact (h.idle hidle hopen).empty
      · obtain ⟨done, unread, hbytes, hdialogue, hdone, hevents, -⟩ :=
          (h.talk call htalk).talk
        refine ⟨done, unread, ?_, hdialogue.grown hgrown hsame, hdone, hevents,
          fun hlive => absurd hlive hlive'⟩
        rw [hclient, hsilent, hbytes]

-- ================================================================= whole runs

/-- The RPC handler gives the handles that the server takes. -/
def Obeys (w : IpcWire) (s : IpcLink) (a : Action) : Prop :=
  ∀ b, a = .serve b → Ipc.Obeys w.server s.server b

/-- Whatever the next step is, the calls and their answers go on
being paired. -/
theorem kept_step {a : Action} (h : Kept w s answers) (hlegible : Legible w s)
    (hobeys : Obeys w s a) (hstep : step w s a = some s') :
    ∃ answers', Kept w s' answers' := by
  cases a with
  | receive n => exact ⟨answers, h.receive hstep⟩
  | serve b => exact ⟨answers, h.serve hlegible (hobeys b rfl) hstep⟩
  | call method params credential =>
      exact h.client_step hlegible hstep (fun _ => Action.noConfusion)
        fun _ => Action.noConfusion
  | giveUp interrupted =>
      exact h.client_step hlegible hstep (fun _ => Action.noConfusion)
        fun _ => Action.noConfusion
  | readAll n =>
      exact h.client_step hlegible hstep (fun _ => Action.noConfusion)
        fun _ => Action.noConfusion
  | line =>
      exact h.client_step hlegible hstep (fun _ => Action.noConfusion)
        fun _ => Action.noConfusion
  | lost =>
      exact h.client_step hlegible hstep (fun _ => Action.noConfusion)
        fun _ => Action.noConfusion

/-- Reading a line adds no request of the client. -/
theorem line_requests {parse : List UInt8 → Option JsonObject}
    {client : IpcClient} :
    (client.line parse call).requests = client.requests := by
  unfold IpcClient.line
  split
  · split
    · rfl
    · split
      · rfl
      · rfl
  · split
    · rfl
    · split
      · rfl
      · rfl

/-- What was written is not taken back: the log and the output only grow, which
is how a later state still speaks of an earlier one. -/
theorem step_grows {a : Action} (hstep : step w s a = some s') :
    (∃ more, s'.client.requests = s.client.requests ++ more)
      ∧ ∃ more, s'.server.log = s.server.log ++ more := by
  have hserved : ∀ {t : IpcLink} {b : Ipc.Action}, t.client = s.client →
      t.server = s.server → (∀ c, s.server.step w.server b = some c →
        ∃ more, c.log = s.server.log ++ more) → t.served w b = some s' →
      (∃ more, s'.client.requests = s.client.requests ++ more)
        ∧ ∃ more, s'.server.log = s.server.log ++ more := by
    intro t b hclient hserver hlog hserved
    obtain ⟨c, hc, rfl⟩ := Option.map_eq_some_iff.1 hserved
    rw [hserver] at hc
    refine ⟨⟨[], ?_⟩, hlog c hc⟩
    rw [List.append_nil, ← hclient]
  have hsame : s'.client.requests = s.client.requests → s'.server = s.server →
      (∃ more, s'.client.requests = s.client.requests ++ more)
        ∧ ∃ more, s'.server.log = s.server.log ++ more := by
    intro hrequests hserver
    exact ⟨⟨[], by rw [hrequests, List.append_nil]⟩,
      [], by rw [hserver, List.append_nil]⟩
  cases a with
  | call method params credential =>
      unfold step at hstep
      dsimp only at hstep
      split at hstep
      next =>
        split at hstep
        next => cases hstep
        next =>
          injection hstep with hstep
          subst hstep
          refine ⟨?_, [], (List.append_nil _).symm⟩
          unfold IpcClient.begin
          dsimp only
          split
          · exact ⟨[], (List.append_nil _).symm⟩
          · exact ⟨_, rfl⟩
      next => cases hstep
  | giveUp interrupted =>
      unfold step at hstep
      dsimp only at hstep
      split at hstep
      next =>
        injection hstep with hstep
        subst hstep
        exact hsame rfl rfl
      next => cases hstep
  | readAll n =>
      unfold step at hstep
      dsimp only at hstep
      split at hstep
      next =>
        injection hstep with hstep
        subst hstep
        exact hsame rfl rfl
      next => cases hstep
  | line =>
      unfold step at hstep
      dsimp only at hstep
      split at hstep
      next =>
        injection hstep with hstep
        subst hstep
        exact hsame line_requests rfl
      next => cases hstep
  | lost =>
      injection hstep with hstep
      subst hstep
      exact hsame rfl rfl
  | receive n =>
      refine hserved (t := { s with toServer := s.toServer.drop n }) rfl rfl
        (fun c hc => ?_) hstep
      rw [(Ipc.receive_cases hc).2.2]
      exact ⟨[], (List.append_nil _).symm⟩
  | serve b =>
      unfold step at hstep
      dsimp only at hstep
      split at hstep
      next => cases hstep
      next hreads =>
        exact hserved rfl rfl
          (fun c hc => (Ipc.step_effect hc (Bool.not_eq_true _ ▸ hreads)).log)
            hstep

/-- Frames that are read back now were read back before: the log only grows. -/
theorem Legible.back {a : Action} (hstep : step w s a = some s')
    (h : Legible w s') : Legible w s := by
  obtain ⟨⟨requests, hrequests⟩, ⟨log, hlog⟩⟩ := step_grows hstep
  exact ⟨fun request hmem => h.requests request
    (hrequests ▸ List.mem_append_left _ hmem),
    fun kind frame hmem => h.frames kind frame
      (hlog ▸ List.mem_append_left _ hmem)⟩

/-- So the pairing holds after every run that obeys and is legible. -/
theorem run_kept {actions : List Action}
    (hobeys : System.Along (step w) (Obeys w) {} actions)
    (hrun : System.run (step w) {} actions = some s) (hlegible : Legible w s) :
    ∃ answers, Kept w s answers :=
  System.run_invariant_along (I := fun s => Legible w s →
    ∃ answers, Kept w s answers)
    (fun _ _ _ hs hp hstep hlegible => by
      obtain ⟨answers, hkept⟩ := hs (hlegible.back hstep)
      exact kept_step hkept (hlegible.back hstep) hp hstep)
    actions (fun _ => ⟨[], kept_start⟩) hobeys hrun hlegible

/-- The events of a request, among the frames about it. -/
def event : Sent → Option JsonObject
  | (.event _, frame) => some frame
  | _ => none

/-- The events of a request are those of its frames. -/
theorem eventsOf_eq (n : Nat) (log : List Ipc.Entry) :
    Ipc.eventsOf n log = (framesOf n (sentOf log)).filterMap event := by
  unfold Ipc.eventsOf framesOf sentOf
  rw [List.filterMap_filter, List.filterMap_filterMap]
  refine List.filterMap_congr fun e _ => ?_
  cases e with
  | dispatched m => rfl
  | aborted => rfl
  | sent kind frame =>
      show _ = if decide (kind.request = some n) = true
        then event (kind, frame) else none
      cases kind with
      | event m => simp [Ipc.Entry.eventOf, Kind.request, event]
      | _ => simp [Ipc.Entry.eventOf, event]

/-- What the callback is handed is the acceptance, if there is one,
and the events. -/
theorem eventsIn_eq (h : ∀ sent ∈ frames.tail, ∀ m, sent.1 ≠ .accepted m) :
    ∃ accepted : List JsonObject, accepted.length ≤ 1
      ∧ eventsIn frames = accepted ++ frames.filterMap event := by
  have hsame : ∀ sent : Sent, (∀ m, sent.1 ≠ .accepted m) →
      heard sent = event sent := by
    intro sent hnot
    obtain ⟨kind, frame⟩ := sent
    cases kind with
    | accepted m => exact absurd rfl (hnot m)
    | _ => rfl
  cases frames with
  | nil => exact ⟨[], Nat.zero_le _, rfl⟩
  | cons first rest =>
      have hrest : rest.filterMap heard = rest.filterMap event :=
        List.filterMap_congr fun sent hsent => hsame sent (h sent hsent)
      by_cases hfirst : ∀ m, first.1 ≠ .accepted m
      · refine ⟨[], Nat.zero_le _, ?_⟩
        unfold eventsIn
        rw [List.filterMap_cons, List.filterMap_cons,
          hsame first hfirst, hrest]
        rfl
      · obtain ⟨m, hm⟩ := not_forall_not.1 hfirst
        obtain ⟨kind, frame⟩ := first
        have hkind : kind = .accepted m := hm
        subst hkind
        refine ⟨[frame], Nat.le_refl _, ?_⟩
        unfold eventsIn
        rw [List.filterMap_cons, List.filterMap_cons, hrest]
        rfl

/-- The callback of a call that was answered was handed everything that was
delivered for its request. -/
def Heard (c : Ipc.Client) (call : IpcCall) (answer : Option Nat) : Prop :=
  ∀ n ∈ answer, ∃ (r : Ipc.Request) (accepted : List JsonObject),
    c.requests[n]? = some r ∧ accepted.length ≤ 1
      ∧ call.events = accepted ++ r.delivered

/-- The callback of an answered call has been handed everything that was
delivered for its request: the dialogue has all of its events, and the server
has served them in order. -/
theorem Settled.heard {ended : IpcCall × Outcome} {answer : Option Nat}
    (h : Settled c ended answer) (hserved : Ipc.Served w.server c) :
    Heard c ended.1 answer := by
  cases h with
  | lost => exact fun _ hn => absurd hn (Option.not_mem_none _)
  | refused => exact fun _ hn => absurd hn (Option.not_mem_none _)
  | answered call n r front last hr _ _ hframes hfinal htail hevents =>
      intro m hm
      rw [← Option.some.inj hm]
      obtain ⟨accepted, hshort, hin⟩ := eventsIn_eq htail
      refine ⟨r, accepted, hr, hshort, ?_⟩
      have hlast : last ∈ framesOf n (sentOf c.log) := by
        rw [hframes]
        simp
      show call.events = _
      rw [hevents, hin, ← hframes, ← eventsOf_eq,
        hserved.protocol.complete n r hr (ended_of_final hlast hfinal)]

/-- The request in flight is that of the call. -/
theorem Stage.ids (h : Stage w s answers id method frames)
    (hserved : Ipc.Served w.server s.server) :
    ∀ other ∈ s.server.ids, other = id := by
  have hnone : Rest s.server → ∀ other ∈ s.server.ids, other = id := by
    intro hrest other hother
    rw [hrest.ids hserved] at hother
    exact absurd hother (Finset.notMem_empty _)
  cases h with
  | asked request _ _ _ _ _ hrest => exact hnone hrest
  | refused message _ _ _ hrest => exact hnone hrest
  | refusing message _ _ hended =>
      intro other hother
      obtain ⟨n, hn, hopen⟩ := (hserved.ledger.ids other).1 hother
      obtain ⟨r, hr, -⟩ := Option.map_eq_some_iff.1 hn
      exact absurd (hended n (List.getElem?_eq_some_iff.1 hr).1) hopen
  | serving n r _ hone hr hid _ _ hended =>
      intro other hother
      obtain ⟨m, hm, hopen⟩ := (hserved.ledger.ids other).1 hother
      obtain ⟨r', hr', hid'⟩ := Option.map_eq_some_iff.1 hm
      have hmn : m = n := by
        have hlt := (List.getElem?_eq_some_iff.1 hr').1
        by_contra hne
        exact hopen (hended m (by omega))
      rw [hmn, hr] at hr'
      injection hr' with hr'
      rw [← hid', ← hr', hid]

/-- What the two sides of a connection keep. -/
structure Calls (s : IpcLink) : Prop where
  /-- Every call that has ended was settled: it lost its connection,
  was refused, or has the whole dialogue of a request of its own; no
  two calls share one. -/
  settled : ∃ answers, answers.Pairwise (fun a b => ∀ m ∈ a, ∀ n ∈ b, m < n)
    ∧ List.Forall₂ (fun ended answer => Settled s.server ended answer
      ∧ (Live s → Heard s.server ended.1 answer)) s.client.ended answers
  /-- No request is in flight but that of the call that is on its way. -/
  alone : Live s → s.client.connected = true → ∀ id ∈ s.server.ids, ∃ call,
    (s.client.main = .waiting call ∨ s.client.main = .reading call)
      ∧ id = call.id

/-- What the pairing says, in the words of the client. -/
theorem Kept.calls (h : Kept w s answers) : Calls s where
  settled := by
    refine ⟨answers, h.order, h.settled.imp fun ended answer hsettled =>
      ⟨hsettled, ?_⟩⟩
    exact fun hlive => hsettled.heard (h.served hlive)
  alone := by
    intro hlive hconnected id hid
    have hcall : ∀ call, s.client.main = .waiting call ∨ s.client.main
      = .reading call →
        id = call.id := by
      intro call htalk
      obtain ⟨done, unread, -, -, -, -, hstage⟩ := (h.talk call htalk).talk
      exact (hstage hlive).ids (h.served hlive) id hid
    cases hmain : s.client.main with
    | idle =>
        rw [((h.idle hmain hconnected).rest hlive).ids (h.served hlive)] at hid
        exact absurd hid (Finset.notMem_empty _)
    | waiting call => exact ⟨call, .inl rfl, hcall call (.inl hmain)⟩
    | reading call => exact ⟨call, .inr rfl, hcall call (.inr hmain)⟩

/-- **Every call gets the answer to its own request.** However the two streams
are cut and the two sides interleave, and whatever the threads of the server do
in between: a call that ends with an answer has read the frames about one
request, under its id and of its method, from the first to the last. -/
theorem run_calls {actions : List Action}
    (hobeys : System.Along (step w) (Obeys w) {} actions)
    (hrun : System.run (step w) {} actions = some s) (hlegible : Legible w s) :
    Calls s := by
  obtain ⟨answers, hkept⟩ := run_kept hobeys hrun hlegible
  exact hkept.calls

namespace Sample

set_option maxRecDepth 8000

def params : JsonObject :=
  Json.ofMembers [(qs "session_id", .string (qs "s")),
    (qs "prompt", .string (qs "Hi"))]

def asked : JsonObject := IpcClient.requestObject (qs "1")
    (qs "chat") params []

def accepted : JsonObject := acceptedFrame (qs "1") (qs "op")

def payload : Ipc.Payload := .chat (.finished (qs "op") (qs "s")
  { requestId := qs "op", sessionId := qs "s", text := qs "Hello",
    finishReason := .Stop })

def finished : JsonObject := payload.event (qs "1")

/-- The compact texts of what is sent. -/
def texts : List (JsonObject × List UInt8) :=
  [(asked,
      asciiBytes
        "\x7b\"id\":\"1\",\"method\":\"chat\",\"params\":\x7b\"prompt\":\"Hi\","
      ++ asciiBytes "\"session_id\":\"s\"\x7d\x7d"),
    (accepted,
      asciiBytes
        "\x7b\"event\":\"accepted\",\"id\":\"1\",\"request_id\":\"op\"\x7d"),
    (finished,
      asciiBytes "\x7b\"event\":\"done\",\"id\":\"1\",\"request_id\":\"op\","
      ++ asciiBytes
        "\"result\":\x7b\"finish_reason\":\"stop\",\"request_id\":\"op\","
      ++ asciiBytes "\"session_id\":\"s\",\"text\":\"Hello\",\"usage\":"
      ++ asciiBytes "\x7b\"cached_tokens\":0,\"dropped_messages\":0,"
      ++ asciiBytes "\"generated_tokens\":0,\"prompt_tokens\":0\x7d\x7d\x7d")]

def toJson (o : JsonObject) : List UInt8 :=
  match texts.find? fun text => decide (text.1 = o) with
  | some text => text.2
  | none => []

theorem texts_oneLine : ∀ text ∈ texts, 10 ∉ text.2 := by decide

theorem toJson_oneLine (o : JsonObject) : 10 ∉ toJson o := by
  unfold toJson
  split
  next text htext => exact texts_oneLine text (List.mem_of_find?_eq_some htext)
  next => exact List.not_mem_nil

/-- A server that reads these texts. -/
def wire : IpcWire where
  server :=
    { parse := fun line =>
        (texts.find? fun text => text.2 == line).map Prod.fst
      lineSize := fun o => (toJson o).length + 1
      maxInFlightPerConnection := 1
      maxFrameBytes := 128
      maxBufferedOutputBytes := 1024
      limits := by decide
      rpcHandler := false
      answer := fun _ _ => throw (err .NotFound "Unknown method")
      generationOptions := fun _ => .ok ()
      keepAlive := fun _ => .ok () }
  toJson := toJson
  oneLine := toJson_oneLine

theorem asked_read : wire.server.parse (wire.toJson asked)
    = some asked := by rfl

theorem accepted_read : wire.server.parse (wire.toJson accepted)
    = some accepted := by rfl

theorem finished_read : wire.server.parse (wire.toJson finished)
    = some finished := by rfl

def handle : Ipc.Response := .handle (qs "op") true

/-- A chat, whose lines arrive in pieces. -/
def actions : List Action :=
  [.call (qs "chat") params [], .receive 20,
    .serve (.frame handle), .receive 80,
    .serve (.frame handle), .serve .answer, .serve (.frame handle),
      .readAll 10, .line,
    .serve (.deliver 0 payload), .serve .poll, .serve .take,
    .serve .send, .serve .send,
    .serve .check, .readAll 1000, .line, .line]

theorem chat_read :
    (System.run (step wire) {} actions).map
    (fun s => (s.client.ended.map fun e => e.1.events,
        s.client.requests, sentOf s.server.log))
      = some ([[accepted, finished]], [asked],
        [(.accepted 0, accepted), (.event 0, finished)]) := by rfl

end Sample

/-- A chat: its callback is handed the acceptance and the last event. -/
theorem run_calls_chat :
    ∃ s, System.run (step Sample.wire) {} Sample.actions = some s
      ∧ s.client.ended.map (fun e => e.1.events)
        = [[Sample.accepted, Sample.finished]]
      ∧ Calls s := by
  obtain ⟨s, hrun, hread⟩ := Option.map_eq_some_iff.1 Sample.chat_read
  obtain ⟨hevents, hread⟩ := Prod.mk.inj hread
  obtain ⟨hrequests, hsent⟩ := Prod.mk.inj hread
  have hobeys : System.Along (step Sample.wire) (Obeys Sample.wire)
      {} Sample.actions := by
    refine System.Along.of_forall fun a ha s b hb requestId valid
      hframe _ => ?_
    rw [hb, hframe] at ha
    have hop : requestId = qs "op" ∧ valid = true := by
      simpa [Sample.actions, Sample.handle] using ha
    rw [hop.1, hop.2]
    exact ⟨rfl, by decide, by decide⟩
  have hlegible : Legible Sample.wire s := by
    refine ⟨fun request hrequest => ?_, fun kind frame hframe => ?_⟩
    · rw [hrequests, List.mem_singleton] at hrequest
      exact hrequest ▸ Sample.asked_read
    · have hmem := mem_sentOf.2 hframe
      rw [hsent] at hmem
      rcases List.mem_cons.1 hmem with heq | hmem
      · exact (Prod.mk.inj heq).2 ▸ Sample.accepted_read
      · exact (Prod.mk.inj (List.mem_singleton.1 hmem)).2 ▸
          Sample.finished_read
  exact ⟨s, hrun, hevents, run_calls hobeys hrun hlegible⟩

end LocalLLM.IpcLink
