/-
What the scheduler guarantees, under any interleaving.

`Step` lists what one step can do, and each part of the invariant is kept
by a case for each. `Accounts` says where every call of `enqueue` stands:
exactly one of settled, about to be refused, in the worker's hands and
queued. `Order` says that the items that run do so in order and one at a
time, and `Closing` what is true once `shutdown` has been called.

Settling is not only safe: an item in the queue is settled after a number
of steps of the worker that its position bounds (`worksLeft`), whatever the
other threads do in between.
-/
import LocalLLM.Service.Scheduler

namespace LocalLLM

namespace Scheduler

variable {capacity : Nat} {s s' : Scheduler}

-- ================================================================== the steps

/-- What one step can do. -/
inductive Step (capacity : Nat) (s : Scheduler) : Action → Scheduler → Prop
  | refuseStopping (token : Nat) : s.stopping = true →
      Step capacity s (.enqueue token) { s with
        issued := s.issued + 1
        refused := s.refused ++ [(s.issued, .ShuttingDown)] }
  | refuseFull (token : Nat) : s.stopping = false →
      capacity ≤ s.queue.length →
      Step capacity s (.enqueue token) { s with
        issued := s.issued + 1
        refused := s.refused ++ [(s.issued, .QueueFull)] }
  | queue (token : Nat) : s.stopping = false → s.queue.length < capacity →
      Step capacity s (.enqueue token) { s with
        issued := s.issued + 1
        queue := s.queue ++ [⟨s.issued, token⟩]
        log := s.log ++ [.queued s.issued] }
  | refuse (index id : Nat) (code : ErrorCode) :
      s.refused[index]? = some (id, code) →
      Step capacity s (.refuse index) { s with
        refused := s.refused.eraseIdx index
        log := s.log ++ [.rejected id ⟨code, code.enumName⟩] }
  | cancel (token : Nat) :
      Step capacity s (.cancel token)
        { s with cancelled := token :: s.cancelled }
  | shutdown : Step capacity s .shutdown { s with
      stopping := true
      cancelled := s.active.toList ++ s.queue.map SchedulerItem.token
        ++ s.cancelled
      log := s.log ++ [.stopped (s.queue.map SchedulerItem.id)] }
  | leave : s.worker = .waiting → s.queue = [] → s.stopping = true →
      Step capacity s .work { s with worker := .leaving }
  | rest : s.worker = .waiting → s.queue = [] → s.stopping = false →
      Step capacity s .work { s with worker := .idle }
  | take (item : SchedulerItem) (rest : List SchedulerItem) :
      s.worker = .waiting → s.queue = item :: rest →
      Step capacity s .work { s with
        queue := rest
        active := some item.token
        worker := .holding item }
  | wake : s.worker = .idle ∨ s.worker = .maintaining →
      Step capacity s .work { s with worker := .waiting }
  | doom (item : SchedulerItem) : s.worker = .holding item →
      item.token ∈ s.cancelled →
      Step capacity s .work { s with worker := .rejecting item }
  | start (item : SchedulerItem) : s.worker = .holding item →
      item.token ∉ s.cancelled →
      Step capacity s .work { s with
        worker := .running item
        log := s.log ++ [.started item.id] }
  | finish (item : SchedulerItem) : s.worker = .running item →
      Step capacity s .work { s with
        worker := .maintaining
        log := s.log ++ [.finished item.id] }
  | reject (item : SchedulerItem) : s.worker = .rejecting item →
      Step capacity s .work { s with
        worker := .maintaining
        log := s.log ++ [.rejected item.id cancelledItem] }
  | exit : s.worker = .leaving →
      Step capacity s .work { s with
        worker := .left
        log := s.log ++ [.exited] }

/-- Every step is one of these. The invariants below are derived from the
cases, one clause at a time. -/
theorem step_cases {a : Action} (h : step capacity s a = some s') :
    Step capacity s a s' := by
  cases a with
  | enqueue token =>
      injection h with h
      subst h
      unfold enqueue
      by_cases hstop : s.stopping = true
      · simp only [if_pos hstop]
        exact .refuseStopping token hstop
      · simp only [if_neg hstop]
        by_cases hfull : capacity ≤ s.queue.length
        · simp only [if_pos hfull]
          exact .refuseFull token (by simpa using hstop) hfull
        · simp only [if_neg hfull]
          exact .queue token (by simpa using hstop) (by omega)
  | refuse index =>
      have h : s.refuse index = some s' := h
      unfold refuse at h
      split at h
      next id code hfind =>
        injection h with h
        subst h
        exact .refuse index id code hfind
      next => cases h
  | cancel token =>
      injection h with h
      subst h
      exact .cancel token
  | shutdown =>
      injection h with h
      subst h
      exact .shutdown
  | work =>
      have h : s.loop = some s' := h
      unfold loop at h
      cases hworker : s.worker with
      | waiting =>
          rw [hworker] at h
          injection h with h
          subst h
          unfold take
          cases hqueue : s.queue with
          | nil =>
              by_cases hstop : s.stopping = true
              · simp only [if_pos hstop]
                have hleave := @Step.leave capacity s hworker hqueue hstop
                rw [hqueue] at hleave
                exact hleave
              · simp only [if_neg hstop]
                have hrest := @Step.rest capacity s hworker hqueue
                  (by simpa using hstop)
                rw [hqueue] at hrest
                exact hrest
          | cons item rest => exact .take item rest hworker hqueue
      | idle =>
          rw [hworker] at h
          injection h with h
          subst h
          exact .wake (Or.inl hworker)
      | holding item =>
          rw [hworker] at h
          dsimp only at h
          split at h
          next hcancelled =>
            injection h with h
            subst h
            exact .doom item hworker hcancelled
          next hcancelled =>
            injection h with h
            subst h
            exact .start item hworker hcancelled
      | running item =>
          rw [hworker] at h
          injection h with h
          subst h
          exact .finish item hworker
      | rejecting item =>
          rw [hworker] at h
          injection h with h
          subst h
          exact .reject item hworker
      | maintaining =>
          rw [hworker] at h
          injection h with h
          subst h
          exact .wake (Or.inr hworker)
      | leaving =>
          rw [hworker] at h
          injection h with h
          subst h
          exact .exit hworker
      | left =>
          rw [hworker] at h
          cases h

-- =============================================================== the accounts

/-- What an event settles. -/
def Event.settles : Event → List Nat
  | .finished id => [id]
  | .rejected id _ => [id]
  | _ => []

/-- The calls that are settled, once for each time. -/
def settled (log : List Event) : List Nat := log.flatMap Event.settles

def Event.queues : Event → List Nat
  | .queued id => [id]
  | _ => []

/-- The calls whose item was queued. -/
def wasQueued (log : List Event) : List Nat := log.flatMap Event.queues

/-- The item in the worker's hands. -/
def Phase.items : Phase → List SchedulerItem
  | .holding item => [item]
  | .running item => [item]
  | .rejecting item => [item]
  | _ => []

/-- The items that the worker is going to settle. -/
def unsettled (s : Scheduler) : List SchedulerItem := s.worker.items ++ s.queue

/-- What a call that is not queued is refused with. -/
def Refusal (code : ErrorCode) : Prop :=
  code = .QueueFull ∨ code = .ShuttingDown

@[simp] theorem settled_append (log more : List Event) :
    settled (log ++ more) = settled log ++ settled more :=
  List.flatMap_append

@[simp] theorem wasQueued_append (log more : List Event) :
    wasQueued (log ++ more) = wasQueued log ++ wasQueued more :=
  List.flatMap_append

@[simp] theorem settled_singleton (e : Event) : settled [e] = e.settles := by
  simp [settled]

@[simp] theorem wasQueued_singleton (e : Event) :
    wasQueued [e] = e.queues := by
  simp [wasQueued]

/-- A call is settled when its task has ended or its promise was rejected;
nothing else in the log settles it. -/
theorem mem_settled {log : List Event} {id : Nat} :
    id ∈ settled log
      ↔ .finished id ∈ log ∨ ∃ error, .rejected id error ∈ log := by
  unfold settled
  rw [List.mem_flatMap]
  constructor
  · intro h
    obtain ⟨e, he, hid⟩ := h
    cases e with
    | finished id' =>
        rw [List.mem_singleton.1 hid]
        exact Or.inl he
    | rejected id' error =>
        rw [List.mem_singleton.1 hid]
        exact Or.inr ⟨error, he⟩
    | _ => cases hid
  · intro h
    cases h with
    | inl h => exact ⟨_, h, List.mem_singleton_self id⟩
    | inr h =>
        obtain ⟨error, h⟩ := h
        exact ⟨_, h, List.mem_singleton_self id⟩

/-- A call that ran and was rejected is settled twice, which is what the
accounts exclude. -/
theorem count_settled_two {log : List Event} {id : Nat} {error : Error}
    (hfinished : .finished id ∈ log) (hrejected : .rejected id error ∈ log) :
    2 ≤ (settled log).count id := by
  induction log with
  | nil => cases hfinished
  | cons e log ih =>
      have hone : ∀ e, id ∈ e.settles → e ∈ log → 1 ≤ (settled log).count id :=
        fun e hid he => List.count_pos_iff.2 (List.mem_flatMap.2 ⟨e, he, hid⟩)
      show 2 ≤ (e.settles ++ settled log).count id
      rw [List.count_append]
      cases List.mem_cons.1 hfinished with
      | inl hfirst =>
          subst hfirst
          cases List.mem_cons.1 hrejected with
          | inl h => cases h
          | inr h =>
              have := hone (.rejected id error) (List.mem_singleton_self id) h
              simp only [Event.settles, List.count_singleton_self]
              omega
      | inr hlater =>
          cases List.mem_cons.1 hrejected with
          | inl hfirst =>
              subst hfirst
              have := hone (.finished id) (List.mem_singleton_self id) hlater
              simp only [Event.settles, List.count_singleton_self]
              omega
          | inr hrejected =>
              have := ih hlater hrejected
              omega

/-- Taking one refused call out of the list takes its id once, and leaves the
count of every other id as it was. -/
theorem count_eraseIdx {l : List (Nat × ErrorCode)} {index id : Nat}
    {code : ErrorCode} (h : l[index]? = some (id, code)) (other : Nat) :
    ((l.eraseIdx index).map Prod.fst).count other + [id].count other
      = (l.map Prod.fst).count other := by
  obtain ⟨hlt, hget⟩ := List.getElem?_eq_some_iff.1 h
  have hperm := (List.getElem_cons_eraseIdx_perm hlt).map Prod.fst
  rw [hget] at hperm
  rw [← hperm.count_eq other, List.map_cons, List.count_cons]
  simp [List.count_cons]

/-- How often a call is settled, about to be refused, or with the worker. -/
def places (s : Scheduler) (id : Nat) : Nat :=
  (settled s.log).count id + (s.refused.map Prod.fst).count id
    + ((unsettled s).map SchedulerItem.id).count id

/-- Every call of `enqueue` is in one place. -/
structure Accounts (capacity : Nat) (s : Scheduler) : Prop where
  once : ∀ id, s.places id = if id < s.issued then 1 else 0
  limit : s.queue.length ≤ capacity
  past : ∀ id ∈ wasQueued s.log, id < s.issued
  present : ∀ item ∈ s.unsettled, item.id ∈ wasQueued s.log
  refused : ∀ id code, (id, code) ∈ s.refused →
    id ∉ wasQueued s.log ∧ Refusal code
  ran : ∀ id, .started id ∈ s.log ∨ .finished id ∈ s.log →
    id ∈ wasQueued s.log
  rejected : ∀ id error, .rejected id error ∈ s.log →
    id ∈ wasQueued s.log ∧ error = cancelledItem
      ∨ id ∉ wasQueued s.log
        ∧ ∃ code, error = ⟨code, code.enumName⟩ ∧ Refusal code

/-- A scheduler that was just made has no call to account for. -/
theorem accounts_start (capacity : Nat) : Accounts capacity {} where
  once := by simp [places, settled, unsettled, Phase.items]
  limit := Nat.zero_le _
  past := by simp [wasQueued]
  present := by simp [unsettled, Phase.items]
  refused := by simp
  ran := by simp
  rejected := by simp

/-- The next id is new: what was queued has a smaller one. -/
theorem Accounts.fresh (h : Accounts capacity s) :
    s.issued ∉ wasQueued s.log :=
  fun hmem => Nat.lt_irrefl _ (h.past _ hmem)

/-- A step moves a call from one place to the next, and never back, which is
what makes it settle at most once. -/
theorem places_step {a : Action} (hstep : Step capacity s a s') (id : Nat) :
    s'.places id + (if id < s.issued then 1 else 0)
      = s.places id + if id < s'.issued then 1 else 0 := by
  unfold places unsettled
  cases hstep with
  | refuseStopping token hstop => grind
  | refuseFull token hstop hfull => grind
  | queue token hstop hroom =>
      simp only [settled_append, settled_singleton, Event.settles]
      grind
  | refuse index id' code hfind =>
      have herase := count_eraseIdx hfind id
      simp only [settled_append, settled_singleton, Event.settles]
      grind
  | cancel token => rfl
  | shutdown => simp [Event.settles]
  | leave hworker hqueue hstop => simp [hworker, Phase.items]
  | rest hworker hqueue hstop => simp [hworker, Phase.items]
  | take item rest hworker hqueue =>
      simp [hworker, hqueue, Phase.items]
  | wake hworker =>
      cases hworker with
      | inl hworker => simp [hworker, Phase.items]
      | inr hworker => simp [hworker, Phase.items]
  | doom item hworker hcancelled => simp [hworker, Phase.items]
  | start item hworker hcancelled => simp [hworker, Phase.items, Event.settles]
  | finish item hworker =>
      simp only [hworker, Phase.items, settled_append, settled_singleton,
        Event.settles]
      grind
  | reject item hworker =>
      simp only [hworker, Phase.items, settled_append, settled_singleton,
        Event.settles]
      grind
  | exit hworker => simp [hworker, Phase.items, Event.settles]

/-- Only a call that finds room is queued. All other steps leave the record of
what was queued as it is. -/
theorem wasQueued_step {a : Action} (hstep : Step capacity s a s') :
    (wasQueued s'.log = wasQueued s.log ∧ s.issued ≤ s'.issued
        ∧ ∀ item ∈ s'.unsettled, item ∈ s.unsettled)
      ∨ wasQueued s'.log = wasQueued s.log ++ [s.issued]
        ∧ s'.issued = s.issued + 1 ∧ s'.refused = s.refused
        ∧ s.queue.length < capacity ∧ s'.queue.length = s.queue.length + 1
        ∧ ∀ item ∈ s'.unsettled, item ∈ s.unsettled ∨ item.id = s.issued := by
  unfold unsettled
  cases hstep with
  | queue token hstop hroom =>
      right
      simp [Event.queues, hroom]
      grind
  | wake hworker =>
      left
      cases hworker with
      | inl hworker => simp [hworker, Phase.items]
      | inr hworker => simp [hworker, Phase.items]
  | _ =>
      left
      simp_all [Event.queues, Phase.items]

/-- The log only grows, so what was queued once stays queued in the record. -/
theorem wasQueued_mono {a : Action} (hstep : Step capacity s a s') {id : Nat}
    (h : id ∈ wasQueued s.log) : id ∈ wasQueued s'.log := by
  cases wasQueued_step hstep with
  | inl hsame => rwa [hsame.1]
  | inr hnew =>
      rw [hnew.1]
      exact List.mem_append_left _ h

/-- A call that is not the next one is queued after a step if it was before. -/
theorem wasQueued_of_ne {a : Action} (hstep : Step capacity s a s') {id : Nat}
    (h : id ∈ wasQueued s'.log) (hne : id ≠ s.issued) :
    id ∈ wasQueued s.log := by
  cases wasQueued_step hstep with
  | inl hsame => rwa [← hsame.1]
  | inr hnew =>
      rw [hnew.1] at h
      cases List.mem_append.1 h with
      | inl h => exact h
      | inr h => exact absurd (List.mem_singleton.1 h) hne

/-- A call that is in some place has been made. So an id that was not issued
yet is in none of them. -/
theorem Accounts.lt_issued (h : Accounts capacity s) {id : Nat}
    (hmem : id ∈ settled s.log ∨ id ∈ s.refused.map Prod.fst
      ∨ id ∈ s.unsettled.map SchedulerItem.id) : id < s.issued := by
  by_contra hge
  have honce := h.once id
  rw [if_neg hge] at honce
  unfold places at honce
  have hzero : ∀ l : List Nat, l.count id = 0 → id ∉ l :=
    fun l hl => List.count_eq_zero.1 hl
  cases hmem with
  | inl hmem => exact hzero _ (by omega) hmem
  | inr hmem =>
      cases hmem with
      | inl hmem => exact hzero _ (by omega) hmem
      | inr hmem => exact hzero _ (by omega) hmem

/-- Only `enqueue` makes the queue longer, and it looks at the capacity under
the same lock. -/
theorem Accounts.limit_step (h : Accounts capacity s) {a : Action}
    (hstep : Step capacity s a s') : s'.queue.length ≤ capacity := by
  have hlimit := h.limit
  cases hstep with
  | queue token hstop hroom =>
      show (s.queue ++ [_]).length ≤ capacity
      rw [List.length_append, List.length_singleton]
      omega
  | take item rest hworker hqueue =>
      rw [hqueue, List.length_cons] at hlimit
      show rest.length ≤ capacity
      omega
  | _ => exact hlimit

/-- A call is refused without ever having been in the queue: the queue was
full, or the service is shutting down. -/
theorem Accounts.refused_step (h : Accounts capacity s) {a : Action}
    (hstep : Step capacity s a s') {id : Nat} {code : ErrorCode}
    (hmem : (id, code) ∈ s'.refused) :
    id ∉ wasQueued s'.log ∧ Refusal code := by
  -- a call that was refused before is not the next one
  have hold : (id, code) ∈ s.refused →
      id ∉ wasQueued s'.log ∧ Refusal code := by
    intro hmem
    obtain ⟨hnot, hcode⟩ := h.refused id code hmem
    have hlt := h.lt_issued (Or.inr (Or.inl (List.mem_map_of_mem hmem)))
    exact ⟨fun hq => hnot (wasQueued_of_ne hstep hq (Nat.ne_of_lt hlt)), hcode⟩
  cases hstep with
  | refuseStopping token hstop =>
      cases List.mem_append.1 hmem with
      | inl hmem => exact hold hmem
      | inr hmem =>
          injection List.mem_singleton.1 hmem with hid hcode
          subst hid
          exact ⟨h.fresh, Or.inr hcode⟩
  | refuseFull token hstop hfull =>
      cases List.mem_append.1 hmem with
      | inl hmem => exact hold hmem
      | inr hmem =>
          injection List.mem_singleton.1 hmem with hid hcode
          subst hid
          exact ⟨h.fresh, Or.inl hcode⟩
  | refuse index id' code' hfind => exact hold (List.mem_of_mem_eraseIdx hmem)
  | _ => exact hold hmem

/-- What the worker starts it has taken from the queue, where
only queued calls are. -/
theorem Accounts.ran_step (h : Accounts capacity s) {a : Action}
    (hstep : Step capacity s a s') {id : Nat}
    (hmem : .started id ∈ s'.log ∨ .finished id ∈ s'.log) :
    id ∈ wasQueued s'.log := by
  have hold : .started id ∈ s.log ∨ .finished id ∈ s.log →
      id ∈ wasQueued s'.log :=
    fun hmem => wasQueued_mono hstep (h.ran id hmem)
  -- an item that starts or ends is in the worker's hands
  cases hstep with
  | start item hworker hcancelled =>
      have hthere := h.present item (by simp [unsettled, hworker, Phase.items])
      have hran := h.ran id
      show id ∈ wasQueued (s.log ++ [_])
      rw [wasQueued_append]
      apply List.mem_append_left
      simp at hmem
      grind
  | finish item hworker =>
      have hthere := h.present item (by simp [unsettled, hworker, Phase.items])
      have hran := h.ran id
      show id ∈ wasQueued (s.log ++ [_])
      rw [wasQueued_append]
      apply List.mem_append_left
      simp at hmem
      grind
  | _ =>
      apply hold
      simpa using hmem

/-- A rejection tells its reason: a queued item was cancelled, or a call was
refused with the name of its code. -/
theorem Accounts.rejected_step (h : Accounts capacity s) {a : Action}
    (hstep : Step capacity s a s') {id : Nat} {error : Error}
    (hmem : .rejected id error ∈ s'.log) :
    id ∈ wasQueued s'.log ∧ error = cancelledItem
      ∨ id ∉ wasQueued s'.log
        ∧ ∃ code, error = ⟨code, code.enumName⟩ ∧ Refusal code := by
  have hold : .rejected id error ∈ s.log →
      id ∈ wasQueued s'.log ∧ error = cancelledItem
        ∨ id ∉ wasQueued s'.log
          ∧ ∃ code, error = ⟨code, code.enumName⟩ ∧ Refusal code := by
    intro hmem
    have hlt := h.lt_issued (Or.inl (mem_settled.2 (Or.inr ⟨error, hmem⟩)))
    cases h.rejected id error hmem with
    | inl hcancelled =>
        exact Or.inl ⟨wasQueued_mono hstep hcancelled.1, hcancelled.2⟩
    | inr hrefused =>
        exact Or.inr ⟨fun hq => hrefused.1
          (wasQueued_of_ne hstep hq (Nat.ne_of_lt hlt)), hrefused.2⟩
  cases hstep with
  | refuse index id' code hfind =>
      cases List.mem_append.1 hmem with
      | inl hmem => exact hold hmem
      | inr hmem =>
          injection List.mem_singleton.1 hmem with hid herror
          subst hid herror
          obtain ⟨hnot, hcode⟩ := h.refused _ _ (List.mem_of_getElem? hfind)
          right
          refine ⟨?_, code, rfl, hcode⟩
          simpa [Event.queues] using hnot
  | reject item hworker =>
      cases List.mem_append.1 hmem with
      | inl hmem => exact hold hmem
      | inr hmem =>
          injection List.mem_singleton.1 hmem with hid herror
          subst hid herror
          left
          refine ⟨?_, rfl⟩
          have hpresent := h.present item (by
            simp [unsettled, hworker, Phase.items])
          simpa [Event.queues] using hpresent
  | _ =>
      apply hold
      simpa using hmem

/-- The accounts are kept by every step, one clause at a time. Each clause
looks at one place only, and a step changes two at most. -/
theorem Accounts.step (h : Accounts capacity s) {a : Action}
    (hstep : Step capacity s a s') : Accounts capacity s' where
  once := by
    intro id
    have hplaces := places_step hstep id
    rw [h.once id] at hplaces
    omega
  limit := h.limit_step hstep
  past := by
    intro id hid
    cases wasQueued_step hstep with
    | inl hsame =>
        rw [hsame.1] at hid
        exact Nat.lt_of_lt_of_le (h.past id hid) hsame.2.1
    | inr hnew =>
        rw [hnew.1] at hid
        rw [hnew.2.1]
        cases List.mem_append.1 hid with
        | inl hid => exact Nat.lt_succ_of_lt (h.past id hid)
        | inr hid =>
            rw [List.mem_singleton.1 hid]
            exact Nat.lt_succ_self _
  present := by
    intro item hitem
    cases wasQueued_step hstep with
    | inl hsame =>
        rw [hsame.1]
        exact h.present item (hsame.2.2 item hitem)
    | inr hnew =>
        rw [hnew.1]
        cases hnew.2.2.2.2.2 item hitem with
        | inl hold => exact List.mem_append_left _ (h.present item hold)
        | inr hid =>
            rw [hid]
            exact List.mem_append_right _ (List.mem_singleton_self _)
  refused := fun id code hmem => h.refused_step hstep hmem
  ran := fun id hmem => h.ran_step hstep hmem
  rejected := fun id error hmem => h.rejected_step hstep hmem

-- ================================================================== the order

def Event.starts : Event → List Nat
  | .started id => [id]
  | _ => []

/-- The items that ran, in the order in which they started. -/
def started (log : List Event) : List Nat := log.flatMap Event.starts

@[simp] theorem started_append (log more : List Event) :
    started (log ++ more) = started log ++ started more :=
  List.flatMap_append

@[simp] theorem started_singleton (e : Event) : started [e] = e.starts := by
  simp [started]

/-- The started ids are those of the entries that say so. -/
theorem mem_started {log : List Event} {id : Nat} :
    id ∈ started log ↔ .started id ∈ log := by
  unfold started
  rw [List.mem_flatMap]
  constructor
  · intro h
    obtain ⟨e, he, hid⟩ := h
    cases e with
    | started id' => rwa [List.mem_singleton.1 hid]
    | _ => cases hid
  · intro h
    exact ⟨_, h, List.mem_singleton_self id⟩

/-- The starts and the ends of runs. -/
def Event.isRun : Event → Bool
  | .started _ => true
  | .finished _ => true
  | _ => false

/-- The items that may still start. -/
def Phase.ahead : Phase → List SchedulerItem
  | .holding item => [item]
  | _ => []

/-- The run that has started and not ended. -/
def Phase.open : Phase → List Event
  | .running item => [.started item.id]
  | _ => []

/-- Items run in the order of their ids, and one ends before the
next starts. -/
structure Order (s : Scheduler) : Prop where
  sorted : (started s.log
    ++ (s.worker.ahead ++ s.queue).map SchedulerItem.id).Pairwise (· < ·)
  serial : ∃ done : List Nat, s.log.filter Event.isRun
    = done.flatMap (fun id => [.started id, .finished id]) ++ s.worker.open

/-- Nothing has started yet, so nothing is out of order. -/
theorem order_start : Order {} where
  sorted := by simp [started, Phase.ahead]
  serial := ⟨[], rfl⟩

/-- The items that may still start are unsettled, so starting one settles it
for the first time. -/
theorem mem_unsettled_of_ahead {item : SchedulerItem}
    (h : item ∈ s.worker.ahead ++ s.queue) : item ∈ s.unsettled := by
  unfold unsettled
  cases hworker : s.worker with
  | holding held =>
      rw [hworker] at h
      exact h
  | _ =>
      rw [hworker] at h
      exact List.mem_append_right _ h

/-- Ids are given out in the order of the calls and the queue is taken from the
front, so what has started, what the worker holds and what waits are one
increasing list. -/
theorem Order.sorted_step (h : Order s) (haccounts : Accounts capacity s)
    {a : Action} (hstep : Step capacity s a s') :
    (started s'.log
      ++ (s'.worker.ahead ++ s'.queue).map SchedulerItem.id).Pairwise
        (· < ·) := by
  have hsorted := h.sorted
  cases hstep with
  | queue token hstop hroom =>
      -- the new item comes after all the others
      have hlast : ∀ id ∈ started s.log
          ++ (s.worker.ahead ++ s.queue).map SchedulerItem.id,
            id < s.issued := by
        intro id hid
        cases List.mem_append.1 hid with
        | inl hid =>
            exact haccounts.past id
              (haccounts.ran id (Or.inl (mem_started.1 hid)))
        | inr hid =>
            obtain ⟨item, hitem, rfl⟩ := List.mem_map.1 hid
            exact haccounts.past _
              (haccounts.present item (mem_unsettled_of_ahead hitem))
      simp only [started_append, started_singleton, Event.starts,
        List.append_nil, List.map_append, List.map_cons, List.map_nil,
        ← List.append_assoc] at hsorted hlast ⊢
      refine List.pairwise_append.2 ⟨hsorted, List.pairwise_singleton _ _, ?_⟩
      intro id hid other hother
      rw [List.mem_singleton.1 hother]
      exact hlast id hid
  | take item rest hworker hqueue =>
      rw [hworker, hqueue] at hsorted
      exact hsorted
  | wake hworker =>
      cases hworker with
      | inl hworker =>
          rw [hworker] at hsorted
          exact hsorted
      | inr hworker =>
          rw [hworker] at hsorted
          exact hsorted
  | doom item hworker hcancelled =>
      rw [hworker] at hsorted
      refine List.Pairwise.sublist ?_ hsorted
      exact (List.Sublist.refl _).append
        ((List.sublist_append_right [item] s.queue).map _)
  | start item hworker hcancelled =>
      rw [hworker] at hsorted
      simpa [Phase.ahead, Event.starts] using hsorted
  | _ => simp_all [Event.starts, Phase.ahead]

/-- The worker opens a task only when the one before is closed: the log is a
list of whole tasks, and at most one open at its end. -/
theorem Order.serial_step (h : Order s) {a : Action}
    (hstep : Step capacity s a s') :
    ∃ done : List Nat, s'.log.filter Event.isRun
      = done.flatMap (fun id => [.started id, .finished id])
        ++ s'.worker.open := by
  obtain ⟨done, hdone⟩ := h.serial
  cases hstep with
  | finish item hworker =>
      refine ⟨done ++ [item.id], ?_⟩
      rw [hworker] at hdone
      simp [List.filter_append, hdone, Phase.open, Event.isRun]
  | wake hworker =>
      refine ⟨done, ?_⟩
      cases hworker with
      | inl hworker =>
          rw [hworker] at hdone
          exact hdone
      | inr hworker =>
          rw [hworker] at hdone
          exact hdone
  | _ =>
      refine ⟨done, ?_⟩
      simp_all [List.filter_append, Phase.open, Event.isRun]

/-- The order is kept by every step; the serial part needs nothing of the
accounts. -/
theorem Order.step (h : Order s) (haccounts : Accounts capacity s) {a : Action}
    (hstep : Step capacity s a s') : Order s' where
  sorted := h.sorted_step haccounts hstep
  serial := h.serial_step hstep

/-- An item that started has ended, or is running. The worker has one item in
its hands at a time, so there is no third case. -/
theorem Order.started_or_running (h : Order s) {id : Nat}
    (hid : .started id ∈ s.log) :
    .finished id ∈ s.log ∨ ∃ item,
      s.worker = .running item ∧ item.id = id := by
  obtain ⟨done, hdone⟩ := h.serial
  have hmem : .started id ∈ s.log.filter Event.isRun :=
    List.mem_filter.2 ⟨hid, rfl⟩
  rw [hdone] at hmem
  cases List.mem_append.1 hmem with
  | inl hmem =>
      left
      obtain ⟨other, hother, hin⟩ := List.mem_flatMap.1 hmem
      have heq : id = other := by simpa using hin
      have hfinished : .finished id ∈ s.log.filter Event.isRun := by
        rw [hdone]
        exact List.mem_append_left _
          (List.mem_flatMap.2 ⟨other, hother, by simp [heq]⟩)
      exact (List.mem_filter.1 hfinished).1
  | inr hmem =>
      right
      cases hworker : s.worker with
      | running item =>
          rw [hworker] at hmem
          injection List.mem_singleton.1 hmem with heq
          exact ⟨item, rfl, heq.symm⟩
      | _ =>
          rw [hworker] at hmem
          cases hmem

-- =============================================================== the shutdown

/-- A call whose item cannot run any more: it waits with its token
cancelled, or has been rejected. -/
def Doomed (s : Scheduler) (id : Nat) : Prop :=
  (∃ item ∈ s.queue, item.id = id ∧ item.token ∈ s.cancelled)
    ∨ (∃ item, (s.worker = .holding item ∨ s.worker = .rejecting item)
      ∧ item.id = id ∧ item.token ∈ s.cancelled)
    ∨ .rejected id cancelledItem ∈ s.log

/-- Everything that was queued is settled before `onExit_`, which
is called once. -/
def Exited (log : List Event) : Prop :=
  ∃ before after, log = before ++ .exited :: after
    ∧ (∀ id ∈ wasQueued log, id ∈ settled before)
    ∧ .exited ∉ before ∧ .exited ∉ after

/-- What holds from the call of `shutdown` on. -/
structure Closing (s : Scheduler) : Prop where
  doomed : ∀ ids, .stopped ids ∈ s.log →
    s.stopping = true ∧ ∀ id ∈ ids, Doomed s id
  shut : s.stopping = true → ∀ item ∈ s.queue, item.token ∈ s.cancelled
  empty : s.worker = .leaving ∨ s.worker = .left →
    s.stopping = true ∧ s.queue = []
  inside : s.worker ≠ .left → .exited ∉ s.log
  outside : s.worker = .left → Exited s.log

/-- Before `shutdown` there is nothing to close. -/
theorem closing_start : Closing {} where
  doomed := by simp
  shut := by simp
  empty := by simp
  inside := by simp
  outside := by simp

/-- What is doomed stays doomed until it is rejected: a cancelled call is not
started, and nobody uncancels it. -/
theorem Doomed.step {id : Nat} (h : Doomed s id) {a : Action}
    (hstep : Step capacity s a s') : Doomed s' id := by
  unfold Doomed at h ⊢
  cases hstep with
  | take item rest hworker hqueue =>
      simp only [hqueue, hworker] at h ⊢
      cases h with
      | inl h =>
          obtain ⟨waiting, hmem, hid, htoken⟩ := h
          cases List.mem_cons.1 hmem with
          | inl heq =>
              subst heq
              exact Or.inr (Or.inl ⟨waiting, Or.inl rfl, hid, htoken⟩)
          | inr hmem => exact Or.inl ⟨waiting, hmem, hid, htoken⟩
      | inr h =>
          cases h with
          | inl h =>
              obtain ⟨held, hheld, -⟩ := h
              cases hheld with
              | inl hheld => cases hheld
              | inr hheld => cases hheld
          | inr h => exact Or.inr (Or.inr h)
  | reject item hworker =>
      simp only [hworker] at h ⊢
      cases h with
      | inl h => exact Or.inl h
      | inr h =>
          right
          right
          cases h with
          | inl h =>
              obtain ⟨held, hheld, hid, -⟩ := h
              cases hheld with
              | inl hheld => cases hheld
              | inr hheld =>
                  injection hheld with hheld
                  rw [← hid, ← hheld]
                  exact List.mem_append_right _ (List.mem_singleton_self _)
          | inr h => exact List.mem_append_left _ h
  | wake hworker => grind
  | _ => grind

/-- What was queued at the shutdown stays doomed: it waits with its token
cancelled, or the worker holds it so, or it has been rejected. -/
theorem Closing.doomed_step (h : Closing s) {a : Action}
    (hstep : Step capacity s a s') {ids : List Nat}
    (hmem : .stopped ids ∈ s'.log) :
    s'.stopping = true ∧ ∀ id ∈ ids, Doomed s' id := by
  -- a shutdown is not taken back
  have hold : .stopped ids ∈ s.log →
      s'.stopping = true ∧ ∀ id ∈ ids, Doomed s' id := by
    intro hmem
    obtain ⟨hstop, hids⟩ := h.doomed ids hmem
    refine ⟨?_, fun id hid => (hids id hid).step hstep⟩
    cases hstep <;> first | exact hstop | rfl
  cases hstep with
  | shutdown =>
      cases List.mem_append.1 hmem with
      | inl hmem => exact hold hmem
      | inr hmem =>
          injection List.mem_singleton.1 hmem with heq
          subst heq
          refine ⟨rfl, fun id hid => ?_⟩
          obtain ⟨item, hitem, hid⟩ := List.mem_map.1 hid
          left
          refine ⟨item, hitem, hid, ?_⟩
          exact List.mem_append_left _
            (List.mem_append_right _ (List.mem_map_of_mem hitem))
  | _ =>
      apply hold
      simpa using hmem

/-- After the shutdown nothing is queued, and what was has its
token cancelled. -/
theorem Closing.shut_step (h : Closing s) {a : Action}
    (hstep : Step capacity s a s') (hstop : s'.stopping = true) :
    ∀ item ∈ s'.queue, item.token ∈ s'.cancelled := by
  have hshut := h.shut
  cases hstep with
  | shutdown =>
      intro item hitem
      exact List.mem_append_left _
        (List.mem_append_right _ (List.mem_map_of_mem hitem))
  | _ => grind

/-- The worker leaves its loop only with `stopping` set and an empty queue, and
nothing is queued from then on. -/
theorem Closing.empty_step (h : Closing s) {a : Action}
    (hstep : Step capacity s a s')
    (hworker' : s'.worker = .leaving ∨ s'.worker = .left) :
    s'.stopping = true ∧ s'.queue = [] := by
  have hempty := h.empty
  cases hstep with
  | _ => grind

/-- The exit is logged by the last step of the worker, and by no other. -/
theorem Closing.inside_step (h : Closing s) {a : Action}
    (hstep : Step capacity s a s') (hworker' : s'.worker ≠ .left) :
    .exited ∉ s'.log := by
  have hinside := h.inside
  cases hstep with
  | _ => grind

/-- A log that goes on after `onExit_`, with nothing queued. Rejections of late
calls may still follow it. -/
theorem Exited.append {log : List Event} (h : Exited log) {e : Event}
    (hexit : e ≠ .exited) (hqueue : e.queues = []) : Exited (log ++ [e]) := by
  obtain ⟨before, after, heq, hsettled, hbefore, hafter⟩ := h
  refine ⟨before, after ++ [e], ?_, ?_, hbefore, ?_⟩
  · rw [heq, List.append_assoc, List.cons_append]
  · intro id hid
    rw [wasQueued_append, wasQueued_singleton, hqueue, List.append_nil] at hid
    exact hsettled id hid
  · intro hmem
    cases List.mem_append.1 hmem with
    | inl hmem => exact hafter hmem
    | inr hmem => exact hexit (List.mem_singleton.1 hmem).symm

/-- When the worker has no item and the queue is empty, everything that was
queued is settled. -/
theorem Accounts.all_settled (h : Accounts capacity s)
    (hnone : s.unsettled = []) :
    ∀ id ∈ wasQueued s.log, id ∈ settled s.log := by
  intro id hid
  have honce := h.once id
  rw [if_pos (h.past id hid)] at honce
  unfold places at honce
  rw [hnone, List.map_nil, List.count_nil, Nat.add_zero] at honce
  by_contra hnot
  rw [List.count_eq_zero.2 hnot, Nat.zero_add] at honce
  have hmem : id ∈ s.refused.map Prod.fst := by
    apply List.count_pos_iff.1
    omega
  obtain ⟨refusal, hrefused, heq⟩ := List.mem_map.1 hmem
  subst heq
  exact (h.refused refusal.1 refusal.2 hrefused).1 hid

/-- When the worker is gone it has called `onExit_` once, behind the settling
of everything that was ever queued. -/
theorem Closing.outside_step (h : Closing s) (haccounts : Accounts capacity s)
    {a : Action} (hstep : Step capacity s a s')
    (hworker' : s'.worker = .left) : Exited s'.log := by
  have houtside := h.outside
  have hempty := h.empty
  cases hstep with
  | exit hworker =>
      obtain ⟨-, hqueue⟩ := hempty (Or.inl hworker)
      have hinside := h.inside (by rw [hworker]; simp)
      refine ⟨s.log, [], rfl, ?_, hinside, List.not_mem_nil⟩
      intro id hid
      apply haccounts.all_settled
      · unfold unsettled
        rw [hworker, hqueue]
        rfl
      · simpa [Event.queues] using hid
  | queue token hstop hroom =>
      have hstop' := (hempty (Or.inr hworker')).1
      rw [hstop] at hstop'
      cases hstop'
  | refuse index id code hfind => exact (houtside hworker').append nofun rfl
  | shutdown => exact (houtside hworker').append nofun rfl
  | refuseStopping token hstop => exact houtside hworker'
  | refuseFull token hstop hfull => exact houtside hworker'
  | cancel token => exact houtside hworker'
  | _ => cases hworker'

/-- What the shutdown promises is kept by every step: behind it what is queued
is cancelled, and the worker leaves with an empty queue only. -/
theorem Closing.step (h : Closing s) (haccounts : Accounts capacity s)
    {a : Action} (hstep : Step capacity s a s') : Closing s' where
  doomed := fun _ hmem => h.doomed_step hstep hmem
  shut := h.shut_step hstep
  empty := h.empty_step hstep
  inside := h.inside_step hstep
  outside := h.outside_step haccounts hstep

-- =============================================================== the progress

/-- The steps of the worker until it waits again. -/
def Phase.turnLeft : Phase → Nat
  | .holding _ => 3
  | .running _ => 2
  | .rejecting _ => 2
  | .idle => 1
  | .maintaining => 1
  | _ => 0

/-- The steps until the item in the worker's hands is settled. -/
def Phase.handLeft : Phase → Nat
  | .holding _ => 2
  | _ => 1

/-- The steps until it has left, without the items in the queue. -/
def Phase.exitLeft : Phase → Nat
  | .leaving => 1
  | .left => 0
  | phase => phase.turnLeft + 2

/-- The call is settled, or will be within `n` steps of the worker. -/
def SettledWithin (id : Nat) (s : Scheduler) (n : Nat) : Prop :=
  id ∈ settled s.log
    ∨ (∃ item ∈ s.worker.items, item.id = id ∧ s.worker.handLeft ≤ n)
    ∨ ∃ (i : Nat) (item : SchedulerItem), s.queue[i]? = some item
      ∧ item.id = id ∧ s.worker.turnLeft + 4 * i + 3 ≤ n

/-- The worker has left, or will have within `n` of its steps. -/
def LeftWithin (s : Scheduler) (n : Nat) : Prop :=
  s.worker = .left
    ∨ s.stopping = true ∧ s.worker.exitLeft + 4 * s.queue.length ≤ n

def Action.isWork : Action → Bool
  | .work => true
  | _ => false

/-- What a step does to the queue and to the worker's place in its turn. -/
inductive Turned (s : Scheduler) : Action → Scheduler → Prop
  /-- Another thread moved. -/
  | other {a : Action} {s' : Scheduler} : a.isWork = false →
      s'.worker = s.worker → s.queue <+: s'.queue → Turned s a s'
  /-- The worker went on in its turn. -/
  | on {s' : Scheduler} : s'.queue = s.queue → s'.stopping = s.stopping →
      s'.worker.turnLeft + 1 = s.worker.turnLeft →
      s'.worker.exitLeft + 1 = s.worker.exitLeft → Turned s .work s'
  /-- It took the first item. -/
  | take {s' : Scheduler} (item : SchedulerItem) :
      s.worker = .waiting → s.queue = item :: s'.queue →
      s'.worker = .holding item → s'.stopping = s.stopping → Turned s .work s'
  /-- It found the queue empty. -/
  | none {s' : Scheduler} : s.queue = [] → s'.queue = [] →
      s.worker = .waiting → s'.stopping = s.stopping →
      (s.stopping = true → s'.worker = .leaving) → Turned s .work s'
  | exit {s' : Scheduler} : s.worker = .leaving → s'.worker = .left →
      Turned s .work s'

/-- Every step is another thread's, which leaves the worker where it is, or
takes the worker on in its turn, or takes the first item. -/
theorem step_turned {a : Action} (hstep : Step capacity s a s') :
    Turned s a s' := by
  cases hstep with
  | queue token hstop hroom => exact .other rfl rfl (List.prefix_append _ _)
  | leave hworker hqueue hstop =>
      exact .none hqueue hqueue hworker rfl fun _ => rfl
  | rest hworker hqueue hstop =>
      refine .none hqueue hqueue hworker rfl fun h => ?_
      rw [hstop] at h
      cases h
  | take item rest hworker hqueue => exact .take item hworker hqueue rfl rfl
  | wake hworker =>
      cases hworker with
      | inl hworker =>
          exact .on rfl rfl (by rw [hworker]; rfl) (by rw [hworker]; rfl)
      | inr hworker =>
          exact .on rfl rfl (by rw [hworker]; rfl) (by rw [hworker]; rfl)
  | doom item hworker hcancelled =>
      exact .on rfl rfl (by rw [hworker]; rfl) (by rw [hworker]; rfl)
  | start item hworker hcancelled =>
      exact .on rfl rfl (by rw [hworker]; rfl) (by rw [hworker]; rfl)
  | finish item hworker =>
      exact .on rfl rfl (by rw [hworker]; rfl) (by rw [hworker]; rfl)
  | reject item hworker =>
      exact .on rfl rfl (by rw [hworker]; rfl) (by rw [hworker]; rfl)
  | exit hworker => exact .exit hworker rfl
  | _ => exact .other rfl rfl (List.prefix_refl _)

/-- A settled call stays settled: the log only grows. -/
theorem settled_mono {a : Action} (hstep : Step capacity s a s') {id : Nat}
    (h : id ∈ settled s.log) : id ∈ settled s'.log := by
  cases hstep <;> simp_all

/-- The item in the worker's hands is settled in at most two steps: it is
started or rejected, and then it ends. -/
theorem SettledWithin.hand {item : SchedulerItem} {n : Nat}
    (hitem : item ∈ s.worker.items) (hn : s.worker.handLeft ≤ n) {a : Action}
    (hstep : Step capacity s a s') :
    SettledWithin item.id s' (n - if a.isWork = true then 1 else 0) := by
  unfold SettledWithin
  cases hstep with
  | doom held hworker hcancelled =>
      rw [hworker] at hitem hn
      exact Or.inr (Or.inl ⟨item, hitem, rfl, Nat.le_sub_of_add_le hn⟩)
  | start held hworker hcancelled =>
      rw [hworker] at hitem hn
      exact Or.inr (Or.inl ⟨item, hitem, rfl, Nat.le_sub_of_add_le hn⟩)
  | finish held hworker =>
      rw [hworker] at hitem
      rw [List.mem_singleton.1 hitem]
      simp [Event.settles]
  | reject held hworker =>
      rw [hworker] at hitem
      rw [List.mem_singleton.1 hitem]
      simp [Event.settles]
  | wake hworker =>
      cases hworker with
      | inl hworker => rw [hworker] at hitem; cases hitem
      | inr hworker => rw [hworker] at hitem; cases hitem
  | leave hworker _ _ => rw [hworker] at hitem; cases hitem
  | rest hworker _ _ => rw [hworker] at hitem; cases hitem
  | take _ _ hworker _ => rw [hworker] at hitem; cases hitem
  | exit hworker => rw [hworker] at hitem; cases hitem
  | _ => exact Or.inr (Or.inl ⟨item, hitem, rfl, hn⟩)

/-- One step of the worker is one step fewer until the call is settled; the
steps of other threads cost nothing. -/
theorem SettledWithin.step {id n : Nat} (h : SettledWithin id s n)
    (hclosing : Closing s) {a : Action} (hstep : Step capacity s a s') :
    SettledWithin id s' (n - if a.isWork = true then 1 else 0) := by
  cases h with
  | inl h => exact Or.inl (settled_mono hstep h)
  | inr h =>
      cases h with
      | inl h =>
          obtain ⟨item, hitem, hid, hn⟩ := h
          rw [← hid]
          exact SettledWithin.hand hitem hn hstep
      | inr h =>
          obtain ⟨i, item, hitem, hid, hn⟩ := h
          right
          cases step_turned hstep with
          | other hother hworker hqueue =>
              right
              obtain ⟨more, hmore⟩ := hqueue
              have hlt := (List.getElem?_eq_some_iff.1 hitem).1
              refine ⟨i, item, ?_, hid, ?_⟩
              · rw [← hmore, List.getElem?_append_left hlt]
                exact hitem
              · rw [hother, hworker]
                exact hn
          | on hqueue hstop hturn hexit =>
              right
              refine ⟨i, item, by rw [hqueue]; exact hitem, hid, ?_⟩
              show _ ≤ n - 1
              omega
          | take held hworker hqueue hholding hstop =>
              rw [hqueue] at hitem
              rw [hworker] at hn
              simp only [Phase.turnLeft, Nat.zero_add] at hn
              rw [hholding]
              cases i with
              | zero =>
                  left
                  injection hitem with hitem
                  subst hitem
                  refine ⟨held, List.mem_singleton_self _, hid, ?_⟩
                  show 2 ≤ n - 1
                  omega
              | succ i =>
                  right
                  refine ⟨i, item, hitem, hid, ?_⟩
                  show 3 + 4 * i + 3 ≤ n - 1
                  omega
          | none hnone _ _ _ _ =>
              rw [hnone] at hitem
              cases hitem
          | exit hworker hleft =>
              rw [(hclosing.empty (Or.inl hworker)).2] at hitem
              cases hitem

/-- The same for the steps until the worker has left. The measure falls with
each step of the worker, and no other step raises it. -/
theorem LeftWithin.step {n : Nat} (h : LeftWithin s n) {a : Action}
    (hstep : Step capacity s a s') :
    LeftWithin s' (n - if a.isWork = true then 1 else 0) := by
  cases h with
  | inl h =>
      left
      cases hstep <;> simp_all
  | inr h =>
      obtain ⟨hstop, hn⟩ := h
      -- while it stops, nothing is queued
      have hsame : a.isWork = false →
          s'.stopping = true ∧ s'.queue = s.queue := by
        intro hother
        cases hstep with
        | queue token hnot hroom =>
            rw [hstop] at hnot
            cases hnot
        | refuseStopping token h => exact ⟨hstop, rfl⟩
        | refuseFull token h h' => exact ⟨hstop, rfl⟩
        | refuse index id code h => exact ⟨hstop, rfl⟩
        | cancel token => exact ⟨hstop, rfl⟩
        | shutdown => exact ⟨rfl, rfl⟩
        | _ => cases hother
      cases step_turned hstep with
      | other hother hworker hqueue =>
          obtain ⟨hstop', hqueue'⟩ := hsame hother
          right
          rw [hother, hworker, hqueue']
          exact ⟨hstop', hn⟩
      | on hqueue hstop' hturn hexit =>
          right
          rw [hqueue, hstop']
          refine ⟨hstop, ?_⟩
          show _ ≤ n - 1
          omega
      | take held hworker hqueue hholding hstop' =>
          right
          refine ⟨hstop'.trans hstop, ?_⟩
          rw [hworker, hqueue, List.length_cons] at hn
          rw [hholding]
          show 5 + 4 * s'.queue.length ≤ n - 1
          simp only [Phase.exitLeft, Phase.turnLeft] at hn
          omega
      | none hnone hnone' hworker hstop' hleaving =>
          right
          refine ⟨hstop'.trans hstop, ?_⟩
          rw [hworker, hnone] at hn
          rw [hleaving hstop, hnone']
          show 1 ≤ n - 1
          exact Nat.le_sub_of_add_le hn
      | exit hworker hleft => exact Or.inl hleft

-- =================================================================== the runs

/-- What holds in every state of a run. -/
structure Sane (capacity : Nat) (s : Scheduler) : Prop where
  accounts : Accounts capacity s
  order : Order s
  closing : Closing s

/-- The three invariants hold of a scheduler that was just made. -/
theorem sane_start (capacity : Nat) : Sane capacity {} :=
  ⟨accounts_start capacity, order_start, closing_start⟩

/-- And every step keeps all three, since each needs only those before it: the
accounts, then the order, then the closing. -/
theorem Sane.step (h : Sane capacity s) {a : Action}
    (hstep : Step capacity s a s') : Sane capacity s' :=
  ⟨h.accounts.step hstep, h.order.step h.accounts hstep,
    h.closing.step h.accounts hstep⟩

/-- So every run keeps them. -/
theorem run_sane (h : Sane capacity s) {actions : List Action}
    (hrun : System.run (step capacity) s actions = some s') :
    Sane capacity s' :=
  System.run_invariant (fun _ _ _ h hstep => h.step (step_cases hstep)) actions
    h hrun

/-- What cannot run has not run: a call that was refused, or cancelled before
it began, never starts later. -/
theorem Sane.not_started (h : Sane capacity s) {id : Nat} (hid : Doomed s id) :
    .started id ∉ s.log := by
  intro hstarted
  have hplaces := h.accounts.once id
  have hle : s.places id ≤ 1 := by
    rw [hplaces]
    split <;> omega
  unfold places unsettled at hle
  rw [List.map_append, List.count_append] at hle
  -- a run that started takes up one place, what is doomed another
  have htwo : ∀ {l : List Nat}, id ∈ l → 1 ≤ l.count id :=
    fun hmem => List.count_pos_iff.2 hmem
  cases h.order.started_or_running hstarted with
  | inl hfinished =>
      have hone := htwo (mem_settled.2 (Or.inl hfinished))
      cases hid with
      | inl hid =>
          obtain ⟨item, hitem, hid, -⟩ := hid
          have := htwo (List.mem_map.2 ⟨item, hitem, hid⟩)
          omega
      | inr hid =>
          cases hid with
          | inl hid =>
              obtain ⟨item, hworker, hid, -⟩ := hid
              have : 1 ≤ (s.worker.items.map SchedulerItem.id).count id := by
                apply htwo
                cases hworker with
                | inl hworker => simp [hworker, Phase.items, hid]
                | inr hworker => simp [hworker, Phase.items, hid]
              omega
          | inr hid =>
              have := count_settled_two hfinished hid
              omega
  | inr hrunning =>
      obtain ⟨running, hworker, hrunning⟩ := hrunning
      have hone : 1 ≤ (s.worker.items.map SchedulerItem.id).count id := by
        apply htwo
        simp [hworker, Phase.items, hrunning]
      cases hid with
      | inl hid =>
          obtain ⟨item, hitem, hid, -⟩ := hid
          have := htwo (List.mem_map.2 ⟨item, hitem, hid⟩)
          omega
      | inr hid =>
          cases hid with
          | inl hid =>
              obtain ⟨item, hheld, -⟩ := hid
              rw [hworker] at hheld
              cases hheld with
              | inl hheld => cases hheld
              | inr hheld => cases hheld
          | inr hid =>
              have := htwo (mem_settled.2 (Or.inr ⟨_, hid⟩))
              omega

/-- What a scheduler promises in any state of any run. -/
structure Settles (capacity : Nat) (s : Scheduler) : Prop where
  /-- No call is settled twice. -/
  atMostOnce : ∀ id, (settled s.log).count id ≤ 1
  /-- A call that is not settled is about to be, by the thread that made it
  or by the worker. -/
  once : ∀ id < s.issued, id ∉ s.refused.map Prod.fst →
    id ∉ s.unsettled.map SchedulerItem.id → (settled s.log).count id = 1
  order : Order s
  limit : s.queue.length ≤ capacity
  /-- A call is queued, or refused for the reason it found. -/
  enqueued : ∀ token s', step capacity s (.enqueue token) = some s' →
    s'.issued = s.issued + 1
      ∧ (s.stopping = true → s'.queue = s.queue
        ∧ s'.refused = s.refused ++ [(s.issued, .ShuttingDown)])
      ∧ (s.stopping = false → capacity ≤ s.queue.length → s'.queue = s.queue
        ∧ s'.refused = s.refused ++ [(s.issued, .QueueFull)])
      ∧ (s.stopping = false → s.queue.length < capacity →
        s'.queue = s.queue ++ [⟨s.issued, token⟩])
  rejected : ∀ id error, .rejected id error ∈ s.log →
    id ∈ wasQueued s.log ∧ error = cancelledItem
      ∨ id ∉ wasQueued s.log
        ∧ ∃ code, error = ⟨code, code.enumName⟩ ∧ Refusal code
  /-- What is queued at a shutdown never runs. -/
  stopped : ∀ ids, .stopped ids ∈ s.log → ∀ id ∈ ids,
    .started id ∉ s.log
      ∧ (s.worker = .left → .rejected id cancelledItem ∈ s.log)
  left : s.worker = .left → s.queue = [] ∧ Exited s.log
  /-- The worker can always go on until it leaves, and so can a
  refused call. -/
  enabled : (s.worker ≠ .left → (step capacity s .work).isSome = true)
    ∧ ∀ index < s.refused.length,
      (step capacity s (.refuse index)).isSome = true
  /-- Enough steps of the worker settle an item, and end a shutdown. -/
  progress : ∀ more s', System.run (step capacity) s more = some s' →
    (∀ item ∈ s.worker.items, 2 ≤ more.countP Action.isWork →
      item.id ∈ settled s'.log)
    ∧ (∀ i item, s.queue[i]? = some item →
      4 * i + 6 ≤ more.countP Action.isWork → item.id ∈ settled s'.log)
    ∧ (s.stopping = true → 4 * s.queue.length + 5 ≤ more.countP Action.isWork →
      s'.worker = .left)

/-- With no step left to wait for, the call is settled. This is how a measure
that has run down is read. -/
theorem settled_of_within {id : Nat} (h : SettledWithin id s 0) :
    id ∈ settled s.log := by
  cases h with
  | inl h => exact h
  | inr h =>
      cases h with
      | inl h =>
          obtain ⟨item, -, -, hn⟩ := h
          have hpos : 1 ≤ s.worker.handLeft := by
            unfold Phase.handLeft
            split <;> omega
          omega
      | inr h =>
          obtain ⟨i, item, -, -, hn⟩ := h
          omega

/-- With no step left to wait for, the worker has left. -/
theorem left_of_within (h : LeftWithin s 0) :
    s.worker = .left := by
  cases h with
  | inl h => exact h
  | inr h =>
      obtain ⟨-, hn⟩ := h
      cases hworker : s.worker with
      | left => rfl
      | _ =>
          rw [hworker] at hn
          simp [Phase.exitLeft] at hn

/-- As many steps of the worker as a call may need are enough to settle it,
wherever among the other steps they stand. -/
theorem Sane.settled_within (h : Sane capacity s) {id n : Nat}
    (hn : SettledWithin id s n) {more : List Action}
    (hrun : System.run (Scheduler.step capacity) s more = some s')
    (hle : n ≤ more.countP Action.isWork) : id ∈ settled s'.log := by
  have hwithin := System.run_within (I := Sane capacity)
    (W := SettledWithin id) (p := Action.isWork)
    (fun s a s' n h hn hstep => ⟨h.step (step_cases hstep),
      hn.step h.closing (step_cases hstep)⟩) more h hn hrun
  rw [Nat.sub_eq_zero_of_le hle] at hwithin
  exact settled_of_within hwithin

/-- The same for the exit of the worker. -/
theorem Sane.left_within (h : Sane capacity s) {n : Nat} (hn : LeftWithin s n)
    {more : List Action}
    (hrun : System.run (Scheduler.step capacity) s more = some s')
    (hle : n ≤ more.countP Action.isWork) : s'.worker = .left := by
  have hwithin := System.run_within (I := Sane capacity)
    (W := LeftWithin) (p := Action.isWork)
    (fun s a s' n h hn hstep => ⟨h.step (step_cases hstep),
      hn.step (step_cases hstep)⟩) more h hn hrun
  rw [Nat.sub_eq_zero_of_le hle] at hwithin
  exact left_of_within hwithin

/-- What the invariants say in a state, in the words of a caller: each call is
in one place, and settled once or not yet. -/
theorem Sane.settles (h : Sane capacity s) : Settles capacity s where
  atMostOnce := by
    intro id
    have honce := h.accounts.once id
    unfold places at honce
    split at honce <;> omega
  once := by
    intro id hid hrefused hunsettled
    have honce := h.accounts.once id
    unfold places at honce
    rw [if_pos hid, List.count_eq_zero.2 hrefused,
      List.count_eq_zero.2 hunsettled] at honce
    omega
  order := h.order
  limit := h.accounts.limit
  enqueued := by
    intro token s' hstep
    injection hstep with hstep
    subst hstep
    unfold enqueue
    by_cases hstop : s.stopping = true
    · simp [hstop]
    · by_cases hfull : capacity ≤ s.queue.length
      · simp [hstop, hfull]
      · simp [hstop, hfull]
  rejected := h.accounts.rejected
  stopped := by
    intro ids hmem id hid
    have hdoomed := (h.closing.doomed ids hmem).2 id hid
    refine ⟨h.not_started hdoomed, fun hleft => ?_⟩
    cases hdoomed with
    | inl hwaits =>
        obtain ⟨item, hitem, -⟩ := hwaits
        rw [(h.closing.empty (Or.inr hleft)).2] at hitem
        cases hitem
    | inr hdoomed =>
        cases hdoomed with
        | inl hheld =>
            obtain ⟨item, hworker, -⟩ := hheld
            rw [hleft] at hworker
            cases hworker with
            | inl hworker => cases hworker
            | inr hworker => cases hworker
        | inr hrejected => exact hrejected
  left := fun hleft => ⟨(h.closing.empty (Or.inr hleft)).2,
    h.closing.outside hleft⟩
  enabled := by
    constructor
    · intro hnot
      show s.loop.isSome = true
      unfold loop
      cases hworker : s.worker with
      | left => exact absurd hworker hnot
      | holding item =>
          dsimp only
          split <;> rfl
      | _ => rfl
    · intro index hindex
      show (s.refuse index).isSome = true
      unfold refuse
      rw [List.getElem?_eq_getElem hindex]
      rfl
  progress := by
    intro more s' hrun
    refine ⟨?_, ?_, ?_⟩
    · intro item hitem hle
      refine h.settled_within (Or.inr (Or.inl ⟨item, hitem, rfl, ?_⟩)) hrun hle
      unfold Phase.handLeft
      split <;> omega
    · intro i item hitem hle
      refine h.settled_within
        (Or.inr (Or.inr ⟨i, item, hitem, rfl, ?_⟩)) hrun hle
      have hturn : s.worker.turnLeft ≤ 3 := by
        unfold Phase.turnLeft
        split <;> omega
      omega
    · intro hstop hle
      refine h.left_within (Or.inr ⟨hstop, ?_⟩) hrun hle
      have hexit : s.worker.exitLeft ≤ 5 := by
        unfold Phase.exitLeft Phase.turnLeft
        repeat' split
        all_goals omega
      omega

/-- **Every call is settled.** In any interleaving of calls of `enqueue`,
cancellations, the shutdown and the worker, the scheduler keeps its
promises. -/
theorem run_settles (actions : List Action)
    (hrun : System.run (step capacity) {} actions = some s) :
    Settles capacity s :=
  (run_sane (sane_start capacity) hrun).settles

/-- Two items for a queue of one: the first runs, the second is refused; a
third is queued and the scheduler is shut down. -/
theorem run_settles_shutdown :
    ∃ s, System.run (step 1) {} [.enqueue 7, .enqueue 8, .work,
        .work, .refuse 0,
        .enqueue 9, .work, .shutdown, .work, .work, .work, .work, .work, .work,
        .work] = some s
      ∧ s.log = [.queued 0, .started 0,
        .rejected 1 ⟨.QueueFull, ErrorCode.enumName .QueueFull⟩, .queued 2,
        .finished 0, .stopped [2], .rejected 2 cancelledItem, .exited]
      ∧ Settles 1 s :=
  ⟨_, rfl, by decide, run_settles [.enqueue 7, .enqueue 8, .work, .work,
    .refuse 0, .enqueue 9, .work, .shutdown, .work, .work, .work, .work, .work,
    .work, .work] rfl⟩

end Scheduler

end LocalLLM
