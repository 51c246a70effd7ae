/-
What the calls of the service see of each other, under any interleaving.

# One after the other

`Move` lists what one step of the service can do, and `Passed` what the
service needs to know of the step of the scheduler below it. `Told` is the
invariant: what the worker has performed replays from a new state to the
one it has, the performed items and those still to come are in the order of
their calls, and a future is settled with what its own task gave, or with
its own rejection.

So a run with any number of threads shows what the tasks do alone, one
after the other (`run_serial`), and what holds between two tasks holds in
every state of every run (`run_state_sound`).
-/
import LocalLLM.Proofs.History
import LocalLLM.Proofs.Scheduler
import LocalLLM.Service.ServiceImpl

namespace LocalLLM

namespace ServiceImpl

open Serial (Record Replays)

variable {c : Config} {s s' : ServiceImpl}

-- ================================================================== the steps

/-- The step of the scheduler in a step of the service. -/
def Action.below : Action → Scheduler.Action
  | .call token _ => .enqueue token
  | .refuse index => .refuse index
  | .cancel token => .cancel token
  | .shutdown => .shutdown
  | .work _ => .work

/-- A step of the scheduler that settles some calls and hands
over some items. -/
structure Passed (ids : List Nat) (items : List SchedulerItem)
    (t t' : Scheduler) : Prop where
  settled : Scheduler.settled t'.log = Scheduler.settled t.log ++ ids
  unsettled : t.unsettled = items ++ t'.unsettled
  issued : t'.issued = t.issued
  left : t'.worker = .left ↔ t.worker = .left

/-- What one step can do. -/
inductive Move (c : Config) (s : ServiceImpl) : Action → ServiceImpl → Prop
  | call (token : Nat) (request : Request) (t : Scheduler)
      (more : List SchedulerItem) :
      (∀ item ∈ more, item.id = s.scheduler.issued) → more.length ≤ 1 →
      t.unsettled = s.scheduler.unsettled ++ more →
      Scheduler.settled t.log = Scheduler.settled s.scheduler.log →
      t.issued = s.scheduler.issued + 1 → t.worker = s.scheduler.worker →
      Move c s (.call token request)
        { s with scheduler := t, requests := s.requests ++ [request] }
  | refuse (index id : Nat) (code : ErrorCode) (request : Request)
      (t : Scheduler) :
      (id, code) ∈ s.scheduler.refused → s.requests[id]? = some request →
      Passed [id] [] s.scheduler t →
      Move c s (.refuse index)
        { s.settle id (request.rejection ⟨code, code.enumName⟩) with
          scheduler := t }
  | quiet (a : Action) (t : Scheduler) :
      Passed [] [] s.scheduler t → Move c s a { s with scheduler := t }
  | perform (env : Env) (item : SchedulerItem) (request : Request)
      (state : State)
      (t : Scheduler) :
      s.state = some state → s.requests[item.id]? = some request →
      s.scheduler.worker = .running item →
      Passed [item.id] [item] s.scheduler t →
      Move c s (.work env)
        { (s.performed c (some item.id) (env, request) state).settle item.id
            (perform c (env, request) state).1 with scheduler := t }
  | skip (env : Env) (item : SchedulerItem) (request : Request)
      (t : Scheduler) :
      s.requests[item.id]? = some request → request.submitted = true →
      Passed [item.id] [item] s.scheduler t →
      Move c s (.work env)
        { s.settle item.id (.error cancelledError) with scheduler := t }
  | reject (env : Env) (item : SchedulerItem) (request : Request)
      (t : Scheduler) :
      s.requests[item.id]? = some request →
      Passed [item.id] [item] s.scheduler t →
      Move c s (.work env)
        { s.settle item.id (request.rejection Scheduler.cancelledItem) with
          scheduler := t }
  | maintain (env : Env) (state : State) (t : Scheduler) :
      s.state = some state → t.worker ≠ .left → Passed [] [] s.scheduler t →
      Move c s (.work env)
        { s.performed c none (env, .maintain) state with scheduler := t }
  | leave (env : Env) (t : Scheduler) :
      t.worker = .left → s.scheduler.worker = .leaving →
      t.unsettled = s.scheduler.unsettled →
      Scheduler.settled t.log = Scheduler.settled s.scheduler.log →
      t.issued = s.scheduler.issued →
      Move c s (.work env) { s with state := none, scheduler := t }

/-- A step moves the scheduler. -/
theorem step_below {a : Action} (h : step c s a = some s') :
    Scheduler.step (capacity c) s.scheduler a.below = some s'.scheduler := by
  cases a with
  | call token request =>
      injection h with h
      subst h
      rfl
  | refuse index =>
      obtain ⟨t, ht, h⟩ := Option.bind_eq_some_iff.1 h
      obtain ⟨u, hu, h⟩ := Option.bind_eq_some_iff.1 h
      injection h with h
      subst h
      exact ht
  | cancel token =>
      injection h with h
      subst h
      rfl
  | shutdown =>
      injection h with h
      subst h
      rfl
  | work env =>
      obtain ⟨t, ht, h⟩ := Option.bind_eq_some_iff.1 h
      obtain ⟨u, hu, h⟩ := Option.bind_eq_some_iff.1 h
      injection h with h
      subst h
      exact ht

/-- A call is queued behind the others, or it is not. -/
theorem enqueue_passed {t t' : Scheduler} {capacity token : Nat}
    (h : Scheduler.Step capacity t (.enqueue token) t') :
    ∃ more : List SchedulerItem,
      (∀ item ∈ more, item.id = t.issued) ∧ more.length ≤ 1
      ∧ t'.unsettled = t.unsettled ++ more
      ∧ Scheduler.settled t'.log = Scheduler.settled t.log
      ∧ t'.issued = t.issued + 1 ∧ t'.worker = t.worker := by
  cases h with
  | refuseStopping =>
      exact ⟨[], by simp, by simp, by simp [Scheduler.unsettled],
        rfl, rfl, rfl⟩
  | refuseFull =>
      exact ⟨[], by simp, by simp, by simp [Scheduler.unsettled],
        rfl, rfl, rfl⟩
  | queue =>
      refine ⟨[⟨t.issued, token⟩], by simp, by simp, ?_, ?_, rfl, rfl⟩
      · simp [Scheduler.unsettled]
      · simp [Scheduler.Event.settles]

theorem refuse_passed {t t' : Scheduler} {capacity index : Nat}
    (h : Scheduler.Step capacity t (.refuse index) t') :
    ∃ id code, t.refused[index]? = some (id, code) ∧ Passed [id] [] t t' := by
  cases h with
  | refuse index id code hfind =>
      exact ⟨id, code, hfind, by simp [Scheduler.Event.settles],
        rfl, rfl, Iff.rfl⟩

/-- A step outside `enqueue` and the worker settles nothing. -/
theorem outside_passed {t t' : Scheduler} {capacity : Nat}
    {a : Scheduler.Action} (h : Scheduler.Step capacity t a t')
    (ha : a = .shutdown ∨ ∃ token, a = .cancel token) : Passed [] [] t t' := by
  cases h with
  | cancel token => exact ⟨by simp, rfl, rfl, Iff.rfl⟩
  | shutdown => exact ⟨by simp [Scheduler.Event.settles], rfl, rfl, Iff.rfl⟩
  | _ => simp at ha

/-- A step of the worker away from an item settles nothing. -/
theorem quiet_passed {t t' : Scheduler} {capacity : Nat}
    (h : Scheduler.Step capacity t .work t')
    (hworker : t.worker = .waiting ∨ (∃ item, t.worker = .holding item)
      ∨ t.worker = .idle ∨ t.worker = .maintaining) :
    Passed [] [] t t' ∧ t'.worker ≠ .left := by
  cases h with
  | leave hw hqueue hstop =>
      exact ⟨⟨by simp,
        by simp [Scheduler.unsettled, hw, Scheduler.Phase.items], rfl,
        by simp [hw]⟩, by simp⟩
  | rest hw hqueue hstop =>
      exact ⟨⟨by simp,
        by simp [Scheduler.unsettled, hw, Scheduler.Phase.items], rfl,
        by simp [hw]⟩, by simp⟩
  | take item rest hw hqueue =>
      exact ⟨⟨by simp,
        by simp [Scheduler.unsettled, hw, Scheduler.Phase.items, hqueue], rfl,
        by simp [hw]⟩, by simp⟩
  | wake hw =>
      refine ⟨⟨by simp, ?_, rfl, ?_⟩, by simp⟩
      · cases hw with
        | inl hw => simp [Scheduler.unsettled, hw, Scheduler.Phase.items]
        | inr hw => simp [Scheduler.unsettled, hw, Scheduler.Phase.items]
      · cases hw with
        | inl hw => simp [hw]
        | inr hw => simp [hw]
  | doom item hw hcancelled =>
      exact ⟨⟨by simp,
        by simp [Scheduler.unsettled, hw, Scheduler.Phase.items], rfl,
        by simp [hw]⟩, by simp⟩
  | start item hw hcancelled =>
      exact ⟨⟨by simp [Scheduler.Event.settles],
        by simp [Scheduler.unsettled, hw, Scheduler.Phase.items], rfl,
        by simp [hw]⟩, by simp⟩
  | finish item hw => simp [hw] at hworker
  | reject item hw => simp [hw] at hworker
  | exit hw => simp [hw] at hworker

/-- The worker settles the item that it runs or rejects. -/
theorem settling_passed {t t' : Scheduler} {capacity : Nat}
    {item : SchedulerItem} (h : Scheduler.Step capacity t .work t')
    (hworker : t.worker = .running item ∨ t.worker = .rejecting item) :
    Passed [item.id] [item] t t' := by
  cases h with
  | finish other hw =>
      have hitem : other = item := by simpa [hw] using hworker
      subst hitem
      exact ⟨by simp [Scheduler.Event.settles],
        by simp [Scheduler.unsettled, hw, Scheduler.Phase.items], rfl,
        by simp [hw]⟩
  | reject other hw =>
      have hitem : other = item := by simpa [hw] using hworker
      subst hitem
      exact ⟨by simp [Scheduler.Event.settles],
        by simp [Scheduler.unsettled, hw, Scheduler.Phase.items], rfl,
        by simp [hw]⟩
  | wake hw =>
      cases hw with
      | inl hw => simp [hw] at hworker
      | inr hw => simp [hw] at hworker
  | leave hw => simp [hw] at hworker
  | rest hw => simp [hw] at hworker
  | take other rest hw => simp [hw] at hworker
  | doom other hw => simp [hw] at hworker
  | start other hw => simp [hw] at hworker
  | exit hw => simp [hw] at hworker

/-- Every step is one of these: a call is made, an item is performed or
refused, or the scheduler moves alone. -/
theorem step_move {a : Action} (h : step c s a = some s') : Move c s a s' := by
  have hbelow := Scheduler.step_cases (step_below h)
  cases a with
  | call token request =>
      injection h with h
      subst h
      obtain ⟨more, hmore, hone, hunsettled, hsettled, hissued, hworker⟩ :=
        enqueue_passed hbelow
      exact .call token request _ more hmore hone hunsettled hsettled
        hissued hworker
  | refuse index =>
      obtain ⟨t, ht, h⟩ := Option.bind_eq_some_iff.1 h
      obtain ⟨u, hu, h⟩ := Option.bind_eq_some_iff.1 h
      injection h with h
      subst h
      obtain ⟨id, code, hfind, hpassed⟩ := refuse_passed hbelow
      unfold refused at hu
      rw [hfind] at hu
      cases hrequest : s.requests[id]? with
      | none => simp [hrequest] at hu
      | some request =>
          simp only [hrequest, Option.some.injEq] at hu
          subst hu
          exact .refuse index id code request t
            (List.mem_of_getElem? hfind) hrequest
            hpassed
  | cancel token =>
      injection h with h
      subst h
      exact .quiet _ _ (outside_passed hbelow (Or.inr ⟨token, rfl⟩))
  | shutdown =>
      injection h with h
      subst h
      exact .quiet _ _ (outside_passed hbelow (Or.inl rfl))
  | work env =>
      obtain ⟨t, ht, h⟩ := Option.bind_eq_some_iff.1 h
      obtain ⟨u, hu, h⟩ := Option.bind_eq_some_iff.1 h
      injection h with h
      subst h
      unfold worked at hu
      cases hworker : s.scheduler.worker with
      | waiting =>
          simp only [hworker, Option.some.injEq] at hu
          subst hu
          exact .quiet _ _ (quiet_passed hbelow (Or.inl hworker)).1
      | holding item =>
          simp only [hworker, Option.some.injEq] at hu
          subst hu
          exact .quiet _ _ (quiet_passed hbelow
            (Or.inr (Or.inl ⟨item, hworker⟩))).1
      | left =>
          unfold Scheduler.loop at ht
          simp [hworker] at ht
      | leaving =>
          simp only [hworker, Option.some.injEq] at hu
          subst hu
          unfold Scheduler.loop at ht
          simp only [hworker, Option.some.injEq] at ht
          subst ht
          refine .leave env _ rfl hworker ?_ ?_ rfl
          · simp [Scheduler.unsettled, hworker, Scheduler.Phase.items]
          · simp [Scheduler.Event.settles]
      | idle =>
          cases hstate : s.state with
          | none => simp [hworker, hstate] at hu
          | some state =>
              simp only [hworker, hstate, Option.some.injEq] at hu
              subst hu
              obtain ⟨hpassed, hleft⟩ :=
                quiet_passed hbelow (Or.inr (Or.inr (Or.inl hworker)))
              exact .maintain env state t hstate hleft hpassed
      | maintaining =>
          cases hstate : s.state with
          | none => simp [hworker, hstate] at hu
          | some state =>
              simp only [hworker, hstate, Option.some.injEq] at hu
              subst hu
              obtain ⟨hpassed, hleft⟩ :=
                quiet_passed hbelow (Or.inr (Or.inr (Or.inr hworker)))
              exact .maintain env state t hstate hleft hpassed
      | rejecting item =>
          cases hrequest : s.requests[item.id]? with
          | none => simp [hworker, hrequest] at hu
          | some request =>
              simp only [hworker, hrequest, Option.some.injEq] at hu
              subst hu
              exact .reject env item request t hrequest
                (settling_passed hbelow (Or.inr hworker))
      | running item =>
          have hpassed := settling_passed hbelow (Or.inl hworker)
          cases hstate : s.state with
          | none => simp [hworker, hstate] at hu
          | some state =>
              cases hrequest : s.requests[item.id]? with
              | none => simp [hworker, hstate, hrequest] at hu
              | some request =>
                  simp only [hworker, hstate, hrequest,
                    Option.some.injEq] at hu
                  subst hu
                  unfold runItem
                  split
                  next hskip =>
                    exact .skip env item request t hrequest hskip.1 hpassed
                  next =>
                    exact .perform env item request state t hstate
                      hrequest hworker
                      hpassed

-- ============================================================== the invariant

/-- The calls whose items the worker has run, in their order. -/
def ran (s : ServiceImpl) : List Nat := s.history.filterMap Record.key

/-- What a record says of the call it is of. -/
def Own (s : ServiceImpl)
    (r : Record (Option Nat) (Env × Request) (Except Exn Answer)) : Prop :=
  (r.key = none → r.input.2 = .maintain)
    ∧ ∀ id, r.key = some id →
      s.requests[id]? = some r.input.2 ∧ (id, r.output) ∈ s.settled

/-- How the future of a call is settled. -/
inductive Settled (s : ServiceImpl) (id : Nat) (request : Request) :
    Except Exn Answer → Prop
  | performed (r : Record (Option Nat) (Env × Request) (Except Exn Answer)) :
      r ∈ s.history → r.key = some id → Settled s id request r.output
  | skipped : id ∉ s.ran → request.submitted = true →
      Settled s id request (.error cancelledError)
  | rejected (error : Error) : id ∉ s.ran →
      error = Scheduler.cancelledItem
        ∨ (∃ code, error = ⟨code, code.enumName⟩ ∧ Scheduler.Refusal code) →
      Settled s id request (request.rejection error)

/-- What holds in every state. -/
structure Told (c : Config) (s : ServiceImpl) : Prop where
  sane : Scheduler.Sane (capacity c) s.scheduler
  requests : s.requests.length = s.scheduler.issued
  told : s.settled.map Prod.fst = Scheduler.settled s.scheduler.log
  state : ∃ t, Replays (perform c) {} s.history t
    ∧ s.state = if s.scheduler.worker = .left then none else some t
  sorted : (s.ran ++ s.scheduler.unsettled.map SchedulerItem.id).Pairwise
    (· < ·)
  own : ∀ r ∈ s.history, Own s r
  answered : ∀ id outcome, (id, outcome) ∈ s.settled →
    ∃ request, s.requests[id]? = some request ∧ Settled s id request outcome

theorem told_start (c : Config) : Told c {} where
  sane := Scheduler.sane_start _
  requests := rfl
  told := rfl
  state := ⟨{}, .nil _, rfl⟩
  sorted := by simp [ran, Scheduler.unsettled, Scheduler.Phase.items]
  own := by simp
  answered := by simp

theorem Told.mem_settled (h : Told c s) {id : Nat} :
    id ∈ Scheduler.settled s.scheduler.log
      ↔ ∃ outcome, (id, outcome) ∈ s.settled := by
  simp [← h.told]

/-- A call in the worker's hands or in the queue has its request. -/
theorem Told.request (h : Told c s) {item : SchedulerItem}
    (hitem : item ∈ s.scheduler.unsettled) :
    ∃ request, s.requests[item.id]? = some request := by
  have hlt := h.sane.accounts.past _ (h.sane.accounts.present item hitem)
  rw [← h.requests] at hlt
  exact ⟨_, List.getElem?_eq_getElem hlt⟩

theorem Told.ran_settled (h : Told c s) {id : Nat} (hid : id ∈ s.ran) :
    id ∈ Scheduler.settled s.scheduler.log := by
  obtain ⟨r, hr, hkey⟩ := List.mem_filterMap.1 hid
  exact h.mem_settled.2 ⟨_, ((h.own r hr).2 id hkey).2⟩

/-- A call that waits for the worker has not been settled. -/
theorem not_settled_of_unsettled {capacity : Nat} {t : Scheduler}
    (h : Scheduler.Sane capacity t) {item : SchedulerItem}
    (hitem : item ∈ t.unsettled) : item.id ∉ Scheduler.settled t.log := by
  intro hmem
  have honce := h.accounts.once item.id
  have hone := List.count_pos_iff.2 hmem
  have htwo := List.count_pos_iff.2
    (List.mem_map_of_mem (f := SchedulerItem.id) hitem)
  unfold Scheduler.places at honce
  split at honce <;> omega

/-- Nor has one that is about to be refused. -/
theorem not_settled_of_refused {capacity : Nat} {t : Scheduler}
    (h : Scheduler.Sane capacity t) {id : Nat} {code : ErrorCode}
    (hmem : (id, code) ∈ t.refused) : id ∉ Scheduler.settled t.log := by
  intro hsettled
  have honce := h.accounts.once id
  have hone := List.count_pos_iff.2 hsettled
  have htwo := List.count_pos_iff.2 (List.mem_map_of_mem (f := Prod.fst) hmem)
  unfold Scheduler.places at honce
  simp only at htwo
  split at honce <;> omega

/-- What has been settled stays so when more is, and the requests stay. -/
theorem Own.mono {r : Record (Option Nat) (Env × Request) (Except Exn Answer)}
    (h : Own s r) {requests : List Request}
    {settled : List (Nat × Except Exn Answer)}
    (hrequests : s'.requests = s.requests ++ requests)
    (hsettled : s'.settled = s.settled ++ settled) : Own s' r := by
  refine ⟨h.1, fun id hkey => ?_⟩
  obtain ⟨hrequest, hmem⟩ := h.2 id hkey
  refine ⟨?_, by rw [hsettled]; exact List.mem_append_left _ hmem⟩
  rw [hrequests, List.getElem?_append_left
    (List.getElem?_eq_some_iff.1 hrequest).1]
  exact hrequest

/-- A call that is settled is not performed later. -/
theorem Settled.mono {id : Nat} {request : Request}
    {outcome : Except Exn Answer} (h : Settled s id request outcome)
    {more : List (Record (Option Nat) (Env × Request) (Except Exn Answer))}
    (hhistory : s'.history = s.history ++ more)
    (hmore : ∀ r ∈ more, r.key ≠ some id) : Settled s' id request outcome := by
  have hran : id ∉ s.ran → id ∉ s'.ran := by
    intro hnot hmem
    unfold ran at hmem
    rw [hhistory, List.filterMap_append] at hmem
    cases List.mem_append.1 hmem with
    | inl hold => exact hnot hold
    | inr hnew =>
        obtain ⟨r, hr, hkey⟩ := List.mem_filterMap.1 hnew
        exact hmore r hr hkey
  cases h with
  | performed r hr hkey =>
      exact .performed r (by rw [hhistory]; exact List.mem_append_left _ hr)
        hkey
  | skipped hnot hsubmitted => exact .skipped (hran hnot) hsubmitted
  | rejected error hnot herror => exact .rejected error (hran hnot) herror

-- =================================================================== the step

/-- The state, the order and the requests after a step. -/
theorem Told.plain_step (h : Told c s) {a : Action} (hmove : Move c s a s') :
    s'.requests.length = s'.scheduler.issued
      ∧ s'.settled.map Prod.fst = Scheduler.settled s'.scheduler.log := by
  have hrequests := h.requests
  have htold := h.told
  cases hmove with
  | call token request t more hmore hone hunsettled hsettled hissued hworker =>
      simp [hrequests, htold, hsettled, hissued]
  | refuse index id code request t hrefused hrequest hpassed =>
      simp [settle, hrequests, htold, hpassed.settled, hpassed.issued]
  | quiet a t hpassed =>
      simp [hrequests, htold, hpassed.settled, hpassed.issued]
  | perform env item request state t hstate hrequest hworker hpassed =>
      simp [settle, performed, hrequests, htold, hpassed.settled,
        hpassed.issued]
  | skip env item request t hrequest hsubmitted hpassed =>
      simp [settle, hrequests, htold, hpassed.settled, hpassed.issued]
  | reject env item request t hrequest hpassed =>
      simp [settle, hrequests, htold, hpassed.settled, hpassed.issued]
  | maintain env state t hstate hleft hpassed =>
      simp [performed, hrequests, htold, hpassed.settled, hpassed.issued]
  | leave env t hleft hworker hunsettled hsettled hissued =>
      simp [hrequests, htold, hsettled, hissued]

/-- The state replays: it is what the performed items make of the first state,
one behind the other. -/
theorem Told.state_step (h : Told c s) {a : Action} (hmove : Move c s a s') :
    ∃ t, Replays (perform c) {} s'.history t
      ∧ s'.state = if s'.scheduler.worker = .left then none else some t := by
  obtain ⟨u, hreplays, hstate⟩ := h.state
  -- a task is performed on the state that the history gives
  have hhere : ∀ {state : State}, s.state = some state →
      s.scheduler.worker ≠ .left ∧ state = u := by
    intro state hsome
    rw [hsome] at hstate
    split at hstate
    next => cases hstate
    next hleft => exact ⟨hleft, Option.some.inj hstate⟩
  cases hmove with
  | call token request t more hmore hone hunsettled hsettled hissued hworker =>
      exact ⟨u, hreplays, by rw [hworker]; exact hstate⟩
  | refuse index id code request t hrefused hrequest hpassed =>
      exact ⟨u, hreplays, by simp [settle, hpassed.left, hstate]⟩
  | quiet a t hpassed => exact ⟨u, hreplays, by simp [hpassed.left, hstate]⟩
  | perform env item request state t hsome hrequest hworker hpassed =>
      obtain ⟨hleft, rfl⟩ := hhere hsome
      exact ⟨_, hreplays.snoc (some item.id) (env, request),
        by simp [settle, performed, hpassed.left, hleft]⟩
  | skip env item request t hrequest hsubmitted hpassed =>
      exact ⟨u, hreplays, by simp [settle, hpassed.left, hstate]⟩
  | reject env item request t hrequest hpassed =>
      exact ⟨u, hreplays, by simp [settle, hpassed.left, hstate]⟩
  | maintain env state t hsome hleft hpassed =>
      obtain ⟨-, rfl⟩ := hhere hsome
      exact ⟨_, hreplays.snoc none
        (env, .maintain), by simp [performed, hleft]⟩
  | leave env t hleft hworker hunsettled hsettled hissued =>
      exact ⟨u, hreplays, by simp [hleft]⟩

/-- The items are performed in the order of their calls. The queue is first in,
first out, and cancelling only takes calls out of it. -/
theorem Told.sorted_step (h : Told c s) {a : Action} (hmove : Move c s a s') :
    (s'.ran ++ s'.scheduler.unsettled.map SchedulerItem.id).Pairwise
    (· < ·) := by
  have hsorted := h.sorted
  -- an item that is settled without being performed leaves the order
  have hdrop : ∀ {item : SchedulerItem} {t : Scheduler},
      s.scheduler.unsettled = [item] ++ t.unsettled →
      (s.ran ++ t.unsettled.map SchedulerItem.id).Pairwise (· < ·) := by
    intro item t hitems
    rw [hitems] at hsorted
    refine List.Pairwise.sublist ?_ hsorted
    exact (List.Sublist.refl _).append
      ((List.sublist_append_right [item] t.unsettled).map _)
  cases hmove with
  | call token request t more hmore hone hunsettled hsettled hissued hworker =>
      show (s.ran ++ t.unsettled.map SchedulerItem.id).Pairwise (· < ·)
      rw [hunsettled, List.map_append, ← List.append_assoc]
      refine List.pairwise_append.2 ⟨hsorted, ?_, ?_⟩
      · cases more with
        | nil => exact .nil
        | cons item rest =>
            have hrest : rest = [] :=
              List.length_eq_zero_iff.1 (by simpa using hone)
            simp [hrest]
      · intro id hid other hother
        obtain ⟨item, hitem, rfl⟩ := List.mem_map.1 hother
        rw [hmore item hitem]
        cases List.mem_append.1 hid with
        | inl hid =>
            obtain ⟨outcome, hmem⟩ := h.mem_settled.1 (h.ran_settled hid)
            obtain ⟨request', hrequest, -⟩ := h.answered id outcome hmem
            rw [← h.requests]
            exact (List.getElem?_eq_some_iff.1 hrequest).1
        | inr hid =>
            obtain ⟨item', hitem', rfl⟩ := List.mem_map.1 hid
            exact h.sane.accounts.past _ (h.sane.accounts.present item' hitem')
  | refuse index id code request t hrefused hrequest hpassed =>
      have hitems := hpassed.unsettled
      rw [hitems] at hsorted
      exact hsorted
  | quiet a t hpassed =>
      have hitems := hpassed.unsettled
      rw [hitems] at hsorted
      exact hsorted
  | perform env item request state t hsome hrequest hworker hpassed =>
      rw [hpassed.unsettled] at hsorted
      simpa [ran, settle, performed] using hsorted
  | skip env item request t hrequest hsubmitted hpassed =>
      exact hdrop hpassed.unsettled
  | reject env item request t hrequest hpassed => exact hdrop hpassed.unsettled
  | maintain env state t hsome hleft hpassed =>
      rw [hpassed.unsettled] at hsorted
      simpa [ran, performed] using hsorted
  | leave env t hleft hworker hunsettled hsettled hissued =>
      show (s.ran ++ t.unsettled.map SchedulerItem.id).Pairwise (· < ·)
      rwa [hunsettled]

theorem Told.own_step (h : Told c s) {a : Action} (hmove : Move c s a s') :
    ∀ r ∈ s'.history, Own s' r := by
  have hown := h.own
  cases hmove with
  | call token request t more hmore hone hunsettled hsettled hissued hworker =>
      exact fun r hr => (hown r hr).mono rfl (List.append_nil _).symm
  | refuse index id code request t hrefused hrequest hpassed =>
      exact fun r hr => (hown r hr).mono (List.append_nil _).symm rfl
  | quiet a t hpassed => exact hown
  | perform env item request state t hsome hrequest hworker hpassed =>
      intro r hr
      cases List.mem_append.1 hr with
      | inl hold => exact (hown r hold).mono (List.append_nil _).symm rfl
      | inr hnew =>
          rw [List.mem_singleton.1 hnew]
          refine ⟨by simp, fun id hkey => ?_⟩
          obtain rfl : item.id = id := by simpa using hkey
          exact ⟨hrequest, List.mem_append_right _ (List.mem_singleton_self _)⟩
  | skip env item request t hrequest hsubmitted hpassed =>
      exact fun r hr => (hown r hr).mono (List.append_nil _).symm rfl
  | reject env item request t hrequest hpassed =>
      exact fun r hr => (hown r hr).mono (List.append_nil _).symm rfl
  | maintain env state t hsome hleft hpassed =>
      intro r hr
      cases List.mem_append.1 hr with
      | inl hold => exact hown r hold
      | inr hnew =>
          rw [List.mem_singleton.1 hnew]
          exact ⟨fun _ => rfl, by simp⟩
  | leave env t hleft hworker hunsettled hsettled hissued => exact hown

/-- The futures settled before keep their reasons. -/
theorem Told.answered_mono (h : Told c s) {requests : List Request}
    {more : List (Record (Option Nat) (Env × Request) (Except Exn Answer))}
    (hrequests : s'.requests = s.requests ++ requests)
    (hhistory : s'.history = s.history ++ more)
    (hmore : ∀ r ∈ more, ∀ id, r.key = some id →
      id ∉ Scheduler.settled s.scheduler.log) :
    ∀ id outcome, (id, outcome) ∈ s.settled →
      ∃ request, s'.requests[id]? = some request
        ∧ Settled s' id request outcome := by
  intro id outcome hmem
  obtain ⟨request, hrequest, hsettled⟩ := h.answered id outcome hmem
  refine ⟨request, ?_, hsettled.mono hhistory fun r hr hkey => ?_⟩
  · rw [hrequests, List.getElem?_append_left
      (List.getElem?_eq_some_iff.1 hrequest).1]
    exact hrequest
  · exact hmore r hr id hkey (h.mem_settled.2 ⟨outcome, hmem⟩)

/-- One more future is settled. -/
theorem answered_settle {id : Nat} {outcome : Except Exn Answer}
    {request : Request} (hold : ∀ id' outcome', (id', outcome') ∈ s.settled →
      ∃ request, s'.requests[id']? = some request
        ∧ Settled s' id' request outcome')
    (hsettled : s'.settled = s.settled ++ [(id, outcome)])
    (hrequest : s'.requests[id]? = some request)
    (hnew : Settled s' id request outcome) :
    ∀ id' outcome', (id', outcome') ∈ s'.settled →
      ∃ request, s'.requests[id']? = some request
        ∧ Settled s' id' request outcome' := by
  intro id' outcome' hmem
  rw [hsettled] at hmem
  cases List.mem_append.1 hmem with
  | inl hmem => exact hold id' outcome' hmem
  | inr hmem =>
      obtain ⟨rfl, rfl⟩ : id' = id ∧ outcome' = outcome := by simpa using hmem
      exact ⟨request, hrequest, hnew⟩

/-- What a call was answered is what performing its item gave, in the state
that the items before it had left. -/
theorem Told.answered_step (h : Told c s) {a : Action}
    (hmove : Move c s a s') :
    ∀ id outcome, (id, outcome) ∈ s'.settled →
      ∃ request, s'.requests[id]? = some request
        ∧ Settled s' id request outcome := by
  -- what waits for the worker has not been performed
  have hwaits : ∀ {item : SchedulerItem} {t : Scheduler},
      Passed [item.id] [item] s.scheduler t →
      item.id ∉ Scheduler.settled s.scheduler.log := by
    intro item t hpassed
    apply not_settled_of_unsettled h.sane
    rw [hpassed.unsettled]
    exact List.mem_cons_self
  have hkeep : ∀ {s' : ServiceImpl}, s'.requests = s.requests →
    s'.history = s.history →
      ∀ id outcome, (id, outcome) ∈ s.settled →
        ∃ request, s'.requests[id]? = some request
          ∧ Settled s' id request outcome := by
    intro s' hrequests hhistory
    have hrequests' : s'.requests = s.requests ++ [] := by
      rw [hrequests, List.append_nil]
    have hhistory' : s'.history = s.history ++ [] := by
      rw [hhistory, List.append_nil]
    exact h.answered_mono hrequests' hhistory' (by simp)
  cases hmove with
  | call token request t more hmore hone hunsettled hsettled hissued hworker =>
      exact h.answered_mono rfl (List.append_nil _).symm (by simp)
  | refuse index id code request t hrefused hrequest hpassed =>
      refine answered_settle (hkeep rfl rfl) rfl hrequest (.rejected _ ?_ ?_)
      · exact fun hran => not_settled_of_refused h.sane hrefused
          (h.ran_settled hran)
      · exact Or.inr ⟨code, rfl, (h.sane.accounts.refused id code hrefused).2⟩
  | quiet a t hpassed => exact hkeep rfl rfl
  | perform env item request state t hsome hrequest hworker hpassed =>
      refine answered_settle
        (h.answered_mono (List.append_nil _).symm rfl ?_) rfl hrequest
        (.performed ⟨some item.id, (env, request),
          (perform c (env, request) state).1⟩
          (List.mem_append_right _ (List.mem_singleton_self _)) rfl)
      intro r hr id hkey
      rw [List.mem_singleton.1 hr] at hkey
      obtain rfl : item.id = id := by simpa using hkey
      exact hwaits hpassed
  | skip env item request t hrequest hsubmitted hpassed =>
      refine answered_settle (hkeep rfl rfl) rfl hrequest
        (.skipped ?_ hsubmitted)
      exact fun hran => hwaits hpassed (h.ran_settled hran)
  | reject env item request t hrequest hpassed =>
      refine answered_settle (hkeep rfl rfl) rfl hrequest
        (.rejected _ ?_ (Or.inl rfl))
      exact fun hran => hwaits hpassed (h.ran_settled hran)
  | maintain env state t hsome hleft hpassed =>
      refine h.answered_mono (List.append_nil _).symm rfl ?_
      intro r hr id hkey
      rw [List.mem_singleton.1 hr] at hkey
      cases hkey
  | leave env t hleft hworker hunsettled hsettled hissued =>
      exact hkeep rfl rfl

theorem Told.step (h : Told c s) {a : Action} (hstep : step c s a = some s') :
    Told c s' :=
  have hmove := step_move hstep
  { sane := h.sane.step (Scheduler.step_cases (step_below hstep))
    requests := (h.plain_step hmove).1
    told := (h.plain_step hmove).2
    state := h.state_step hmove
    sorted := h.sorted_step hmove
    own := h.own_step hmove
    answered := h.answered_step hmove }

/-- It holds in every state of every run. -/
theorem run_told {actions : List Action}
    (hrun : System.run (step c) {} actions = some s) : Told c s :=
  System.run_invariant (fun _ _ _ h hstep => h.step hstep) actions
    (told_start c) hrun

-- =================================================================== the runs

/-- A step of the worker finds what it needs. -/
theorem Told.work_enabled (h : Told c s) (hleft : s.scheduler.worker ≠ .left)
    (env : Env) : (ServiceImpl.step c s (.work env)).isSome = true := by
  obtain ⟨u, -, hstate⟩ := h.state
  rw [if_neg hleft] at hstate
  have hrequest : ∀ item ∈ s.scheduler.worker.items,
      ∃ request, s.requests[item.id]? = some request :=
    fun item hitem => h.request (List.mem_append_left _ hitem)
  have hloop : ∃ t, s.scheduler.loop = some t :=
    Option.isSome_iff_exists.1 (h.sane.settles.enabled.1 hleft)
  obtain ⟨t, hloop⟩ := hloop
  have hworked : ∃ u, s.worked c env = some u := by
    unfold worked
    cases hworker : s.scheduler.worker with
    | running item =>
        obtain ⟨request, hrequest⟩ :=
          hrequest item (by simp [hworker, Scheduler.Phase.items])
        simp [hstate, hrequest]
    | rejecting item =>
        obtain ⟨request, hrequest⟩ :=
          hrequest item (by simp [hworker, Scheduler.Phase.items])
        simp [hrequest]
    | _ => simp [hstate]
  obtain ⟨v, hworked⟩ := hworked
  simp [ServiceImpl.step, hloop, hworked]

/-- And the `reject` of a refused call finds its request. -/
theorem Told.refuse_enabled (h : Told c s) {index : Nat}
    (hindex : index < s.scheduler.refused.length) :
    (ServiceImpl.step c s (.refuse index)).isSome = true := by
  obtain ⟨t, hrefuse⟩ := Option.isSome_iff_exists.1
    (h.sane.settles.enabled.2 index hindex)
  have hrefuse : s.scheduler.refuse index = some t := hrefuse
  have hfind := List.getElem?_eq_getElem hindex
  have hmem := List.mem_of_getElem? hfind
  have hlt : (s.scheduler.refused[index]).1 < s.requests.length := by
    have honce := h.sane.accounts.once (s.scheduler.refused[index]).1
    have hone := List.count_pos_iff.2
      (List.mem_map_of_mem (f := Prod.fst) hmem)
    unfold Scheduler.places at honce
    rw [h.requests]
    split at honce
    next hlt => exact hlt
    next => omega
  have hrefused : ∃ u, s.refused index = some u := by
    unfold refused
    rw [hfind]
    simp [List.getElem?_eq_getElem hlt]
  obtain ⟨u, hrefused⟩ := hrefused
  simp [ServiceImpl.step, hrefuse, hrefused]

/-- What the calls of the service see of each other: they could as well
have been made one after the other, in the order in which they are. -/
structure Serialised (c : Config) (s : ServiceImpl) : Prop where
  /-- The state is the one that the performed tasks give alone; the exit of
  the worker destroys it, and nothing else does. -/
  state : s.state = if s.scheduler.worker = .left then none
    else some (Serial.after (perform c) {} (s.history.map Record.input))
  /-- A task gives what it gives alone behind those before it. -/
  output : ∀ before r rest, s.history = before ++ r :: rest →
    r.output = (perform c r.input
      (Serial.after (perform c) {} (before.map Record.input))).1
  /-- Calls are performed in the order in which they are made,
  each at most once. -/
  order : s.ran.Pairwise (· < ·)
  /-- What is performed is the request of its call, or maintenance. -/
  own : ∀ r ∈ s.history, (r.key = none → r.input.2 = .maintain)
    ∧ ∀ id, r.key = some id →
      s.requests[id]? = some r.input.2 ∧ (id, r.output) ∈ s.settled
  /-- A future is settled at most once. -/
  once : (s.settled.map Prod.fst).Nodup
  /-- With the answer of its own task, or with its own rejection, and then
  the task is never performed. -/
  settled : ∀ id outcome, (id, outcome) ∈ s.settled →
    ∃ request, s.requests[id]? = some request ∧ Settled s id request outcome
  /-- When the worker has left, every call has been settled, but for those
  whose own thread is about to. -/
  finished : s.scheduler.worker = .left → ∀ id < s.requests.length,
    id ∉ s.scheduler.refused.map Prod.fst →
    ∃ outcome, (id, outcome) ∈ s.settled
  /-- No thread finds the state destroyed or a request missing. -/
  enabled : (s.scheduler.worker ≠ .left →
    ∀ env, (step c s (.work env)).isSome = true)
    ∧ ∀ index < s.scheduler.refused.length,
      (step c s (.refuse index)).isSome = true

theorem Told.serialised (h : Told c s) : Serialised c s where
  state := by
    obtain ⟨t, hreplays, hstate⟩ := h.state
    rw [hstate, hreplays.state_eq]
  output := by
    intro before r rest hhistory
    obtain ⟨t, hreplays, -⟩ := h.state
    rw [hhistory] at hreplays
    exact hreplays.output_eq
  order := (List.pairwise_append.1 h.sorted).1
  own := h.own
  once := by
    rw [h.told, List.nodup_iff_count_le_one]
    exact h.sane.settles.atMostOnce
  settled := h.answered
  finished := by
    intro hleft id hid hrefused
    apply h.mem_settled.1
    rw [h.requests] at hid
    have hunsettled : s.scheduler.unsettled = [] := by
      obtain ⟨hqueue, -⟩ := h.sane.settles.left hleft
      simp [Scheduler.unsettled, hleft, Scheduler.Phase.items, hqueue]
    apply List.count_pos_iff.1
    rw [h.sane.settles.once id hid hrefused (by simp [hunsettled])]
    exact Nat.one_pos
  enabled := ⟨fun hleft env => h.work_enabled hleft env,
    fun _ hindex => h.refuse_enabled hindex⟩

/-- **The calls are serialised.** In any interleaving of calls,
cancellations, the shutdown and the worker, the service shows what its
tasks do alone, in the order of their calls. -/
theorem run_serial (actions : List Action)
    (hrun : System.run (step c) {} actions = some s) : Serialised c s :=
  (run_told hrun).serialised

/-- Two calls, of which the first is performed; the second is cancelled
while it waits. -/
theorem run_serial_cancelled :
    ∃ s, System.run (step Sample.config)
        {} [.call 7 (.registerRuntime Sample.runtime),
        .call 8 (.closeSession []), .work {}, .work {}, .work {},
          .cancel 8, .work {},
        .work {}, .work {}, .work {}] = some s
      ∧ s.ran = [0] ∧ s.settled.map Prod.fst = [0, 1]
      ∧ Serialised Sample.config s :=
  ⟨_, rfl, rfl, rfl, run_serial [.call 7 (.registerRuntime Sample.runtime),
    .call 8 (.closeSession []), .work {}, .work {}, .work {},
      .cancel 8, .work {},
    .work {}, .work {}, .work {}] rfl⟩

/-- What holds of the state between two tasks. -/
structure StateSound (c : Config) (t : State) : Prop where
  contexts : ContextsLive t
  accounted : Accounted c t
  histories : AllShaped t.sessions
  /-- No model is in use. -/
  unused : ∀ (id : QString) (entry : ResidencyEntry),
    t.models.residency.entries[id]? = some entry → entry.active = 0
  /-- The worker's maintenance throws nothing, which would end it. -/
  maintained : ∀ env, ∃ t', ModelManager.maintain c env t = (.ok (), t')

/-- **The state is sound in every state of every run**, whatever the threads
do: between two steps the worker's state is as it is between two tasks. -/
theorem run_state_sound (hc : c.Honest) (actions : List Action)
    (hrun : System.run (step c) {} actions = some s) :
    ∀ t, s.state = some t → StateSound c t := by
  intro t ht
  obtain ⟨u, hreplays, hstate⟩ := (run_told hrun).state
  have heq : t = u := by
    rw [ht] at hstate
    split at hstate
    next => cases hstate
    next => exact Option.some.inj hstate
  have hkept : Idle c t ∧ AllShaped t.sessions := by
    rw [heq]
    refine hreplays.invariant (I := fun t => Idle c t
      ∧ AllShaped t.sessions) ?_ ?_
    · intro input t h
      exact ⟨(serve_spec hc h.1 input.1 input.2).idle,
        serve_shaped hc h.1 h.2 input.1 input.2⟩
    · exact ⟨idle_start c, fun id session h => by simp at h⟩
  obtain ⟨hidle, hshaped⟩ := hkept
  exact
    { contexts := contextsLive_of_sound hc hidle.sound
      accounted := accounted_of_sound hidle.sound
      histories := hshaped
      unused := fun id entry hentry => by
        obtain ⟨info, model, request, hres⟩ :=
          hidle.sound.models.of_entry hentry
        exact hres.active
      maintained := fun env => by
        obtain ⟨t', ht', -⟩ := ModelManager.maintain_spec hidle.sound env
        exact ⟨t', ht'⟩ }

/-- A runtime is registered, a session is opened, and its chat loads the
model; the worker takes the three calls and settles them. -/
def sampleChat : List Action :=
  [.call 7 (.registerRuntime Sample.runtime),
    .call 8 (.createSession (qs "model://tiny") []),
    .call 9 (.chat (qs "request") Sample.chat none)]
      ++ List.replicate 12 (.work {})

/-- When the chat is over, the model, its context and the session are there,
and the state is sound. -/
theorem run_state_sound_registered :
    ∃ s, System.run (step Sample.config) {} sampleChat = some s
      ∧ s.ran = [0, 1, 2]
      ∧ ∃ t, s.state = some t
        ∧ (qs "tiny" ∈ t.models.residency.entries
          ∧ Sample.uuid 0 ∈ t.cache.entries
          ∧ Sample.uuid 0 ∈ t.sessions.sessions)
        ∧ StateSound Sample.config t :=
  ⟨_, rfl, by decide +kernel, _, rfl, by decide +kernel,
    run_state_sound Sample.honest sampleChat rfl _ rfl⟩

end ServiceImpl

end LocalLLM
