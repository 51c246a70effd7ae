/-
What the admission of HTTP requests guarantees, under any interleaving.

The counters are compared and swapped without a lock (`Slots`). The results
are those of the library at the two kinds of leases: the counters count,
four threads are always left over, and a refused request has met all leases
of its kind taken.
-/
import LocalLLM.Service.HttpAdmission

namespace LocalLLM

namespace HttpThreads

/-- What the admission guarantees in a state of a run. -/
structure Admits (h : HttpThreads) (actions : List (Slots.Action HttpLease))
    (s : Admission) : Prop where
  /-- The counters count the leases, within the limits. -/
  counted : ∀ kind, s.count kind = Slots.holders s.threads kind
    ∧ (Slots.holders s.threads kind : Int) ≤ h.limit kind
  /-- Four threads are left over for everything else. -/
  spare : 4 ≤ s.threads.countP fun t => !t.holds
  /-- A refused request has met all leases of its kind taken. -/
  refused : ∀ (i : Nat) (kind : HttpLease),
    s.threads[i]? = some (.refused kind) →
    ∃ as bs u, actions = as ++ bs ∧ System.run h.step h.start as = some u
      ∧ (Slots.holders u.threads kind : Int) = h.limit kind
      ∧ ∀ other, Slots.Action.ask i other ∉ bs
  /-- A request that is alone at the counter is done after two compares. -/
  alone : ∀ (i : Nat) (kind : HttpLease) (seen : Int),
    s.threads[i]? = some (.trying kind seen) →
    ∃ as t, as.length ≤ 2 ∧ (∀ a ∈ as, a = Slots.Action.swap i false)
      ∧ System.run h.step s as = some t
      ∧ (t.threads[i]? = some (.holding kind)
        ∨ t.threads[i]? = some (.refused kind))

/-- **Admission is exact.** However the threads of the pool interleave, and
however often their compares fail, no lease is given out twice, none is
lost, and a request is refused only when its kind was full. -/
theorem run_admits (h : HttpThreads) {s : Admission}
    (actions : List (Slots.Action HttpLease))
    (hrun : System.run h.step h.start actions = some s) :
    Admits h actions s where
  counted := fun kind => by
    have hcounted := Slots.run_counted
      (Slots.counted_start (fun kind => (h.limit_pos kind).le) h.pool) hrun
    exact ⟨hcounted.count kind, hcounted.count kind ▸ hcounted.le kind⟩
  spare := by
    have hcounted := Slots.run_counted
      (Slots.counted_start (fun kind => (h.limit_pos kind).le) h.pool) hrun
    apply hcounted.spare
    rw [Slots.run_length hrun]
    show ((List.replicate h.pool Slots.Thread.free).length : Int) = _
    rw [List.length_replicate]
    exact h.pool_eq
  refused := fun i kind hi =>
    Slots.run_sawFull (fun kind => (h.limit_pos kind).le) hrun hi
  alone := fun i kind seen hi => Slots.alone hi

/-- Two requests for one lease read the counter at once: the first takes
it, and the second is refused; a control method is served beside them. -/
theorem run_admits_race :
    ∃ s, System.run (step ⟨1, 1, by decide, by decide⟩)
        (start ⟨1, 1, by decide, by decide⟩)
        [.ask 0 .work, .ask 1 .work, .load 0, .load 1, .swap 1 true,
          .swap 0 false,
          .swap 1 false, .swap 1 false, .ask 2 .control, .load 2,
          .swap 2 false] = some s
      ∧ s.threads = [.holding .work, .refused .work, .holding .control,
        .free, .free, .free]
      ∧ Admits ⟨1, 1, by decide, by decide⟩
          [.ask 0 .work, .ask 1 .work, .load 0, .load 1, .swap 1 true,
            .swap 0 false,
            .swap 1 false, .swap 1 false, .ask 2 .control, .load 2,
            .swap 2 false] s :=
  ⟨_, rfl, rfl, run_admits ⟨1, 1, by decide, by decide⟩ _ rfl⟩

end HttpThreads

end LocalLLM
