/-
Slots of several kinds, taken by compare and swap.

A counter says how many slots of a kind are taken. A thread that wants one
reads the counter; while what it has read is below the limit, it tries to
put one more in its place. A compare that fails hands it the value found,
and a weak one may fail without a reason. Whoever has a slot gives it back
by a decrement.

No thread holds a lock, so the steps of the threads interleave freely.
`Counted` is kept by all of them: the counters count the holders and stay
within the limits. So the holders of all kinds leave some threads over
(`Counted.spare`), a refused thread has found every slot taken
(`run_sawFull`), and a thread that runs alone is done after two compares
(`alone`).
-/
import LocalLLM.Lib.System

namespace LocalLLM.Slots

variable {κ : Type} [DecidableEq κ]

inductive Thread (κ : Type)
  | free
  /-- Before the first read. -/
  | asking (kind : κ)
  | trying (kind : κ) (seen : Int)
  | refused (kind : κ)
  | holding (kind : κ)
deriving DecidableEq

structure State (κ : Type) where
  count : κ → Int
  threads : List (Thread κ)

inductive Action (κ : Type)
  | ask (thread : Nat) (kind : κ)
  | load (thread : Nat)
  /-- The test against the limit, and the compare, which may fail
  without a reason. -/
  | swap (thread : Nat) (fails : Bool)
  | release (thread : Nat)
  /-- A refused thread goes on. -/
  | leave (thread : Nat)

def start (threads : Nat) : State κ :=
  { count := fun _ => 0, threads := List.replicate threads .free }

def step (limit : κ → Int) (s : State κ) : Action κ → Option (State κ)
  | .ask i kind =>
      match s.threads[i]? with
      | some .free => some { s with threads := s.threads.set i (.asking kind) }
      | _ => none
  | .load i =>
      match s.threads[i]? with
      | some (.asking kind) =>
          some
            { s with threads := s.threads.set i (.trying kind (s.count kind)) }
      | _ => none
  | .swap i fails =>
      match s.threads[i]? with
      | some (.trying kind seen) =>
          if limit kind ≤ seen then
            some { s with threads := s.threads.set i (.refused kind) }
          else if fails = false ∧ s.count kind = seen then
            some {
              count := Function.update s.count kind (seen + 1)
              threads := s.threads.set i (.holding kind) }
          else
            some { s with
              threads := s.threads.set i (.trying kind (s.count kind)) }
      | _ => none
  | .release i =>
      match s.threads[i]? with
      | some (.holding kind) =>
          some {
            count := Function.update s.count kind (s.count kind - 1)
            threads := s.threads.set i .free }
      | _ => none
  | .leave i =>
      match s.threads[i]? with
      | some (.refused _) => some { s with threads := s.threads.set i .free }
      | _ => none

variable {limit : κ → Int} {s s' : State κ}

-- ================================================================== the steps

/-- What one step can do. -/
inductive Step (limit : κ → Int) (s : State κ) : Action κ → State κ → Prop
  | ask (i : Nat) (kind : κ) : s.threads[i]? = some .free →
      Step limit s (.ask i kind)
        { s with threads := s.threads.set i (.asking kind) }
  | load (i : Nat) (kind : κ) : s.threads[i]? = some (.asking kind) →
      Step limit s (.load i)
        { s with threads := s.threads.set i (.trying kind (s.count kind)) }
  | refuse (i : Nat) (fails : Bool) (kind : κ) (seen : Int) :
      s.threads[i]? = some (.trying kind seen) → limit kind ≤ seen →
      Step limit s (.swap i fails)
        { s with threads := s.threads.set i (.refused kind) }
  | take (i : Nat) (kind : κ) :
      s.threads[i]? = some (.trying kind (s.count kind)) →
      s.count kind < limit kind →
      Step limit s (.swap i false) {
        count := Function.update s.count kind (s.count kind + 1)
        threads := s.threads.set i (.holding kind) }
  | again (i : Nat) (fails : Bool) (kind : κ) (seen : Int) :
      s.threads[i]? = some (.trying kind seen) → seen < limit kind →
      fails = true ∨ s.count kind ≠ seen →
      Step limit s (.swap i fails)
        { s with threads := s.threads.set i (.trying kind (s.count kind)) }
  | release (i : Nat) (kind : κ) : s.threads[i]? = some (.holding kind) →
      Step limit s (.release i) {
        count := Function.update s.count kind (s.count kind - 1)
        threads := s.threads.set i .free }
  | leave (i : Nat) (kind : κ) : s.threads[i]? = some (.refused kind) →
      Step limit s (.leave i) { s with threads := s.threads.set i .free }

/-- Every step is one of these. The invariants below are proved over the cases
and never unfold the step. -/
theorem step_cases {a : Action κ} (h : step limit s a = some s') :
    Step limit s a s' := by
  unfold step at h
  cases a with
  | ask i kind =>
      dsimp only at h
      split at h
      next hi =>
        injection h with h
        subst h
        exact .ask i kind hi
      next => cases h
  | load i =>
      dsimp only at h
      split at h
      next kind hi =>
        injection h with h
        subst h
        exact .load i kind hi
      next => cases h
  | swap i fails =>
      dsimp only at h
      split at h
      next kind seen hi =>
        split at h
        next hfull =>
          injection h with h
          subst h
          exact .refuse i fails kind seen hi hfull
        next hroom =>
          split at h
          next hsame =>
            obtain ⟨rfl, rfl⟩ := hsame
            injection h with h
            subst h
            exact .take i kind hi (by omega)
          next hother =>
            injection h with h
            subst h
            refine .again i fails kind seen hi (by omega) ?_
            cases fails with
            | true => exact Or.inl rfl
            | false => exact Or.inr fun heq => hother ⟨rfl, heq⟩
      next => cases h
  | release i =>
      dsimp only at h
      split at h
      next kind hi =>
        injection h with h
        subst h
        exact .release i kind hi
      next => cases h
  | leave i =>
      dsimp only at h
      split at h
      next kind hi =>
        injection h with h
        subst h
        exact .leave i kind hi
      next => cases h

-- ================================================================ the holders

/-- How many threads have a slot of a kind. -/
def holders (threads : List (Thread κ)) (kind : κ) : Nat :=
  threads.countP fun t => t == .holding kind

/-- A thread goes from one place to another. -/
theorem holders_set {threads : List (Thread κ)} {i : Nat} {t : Thread κ}
    (h : threads[i]? = some t) (t' : Thread κ) (kind : κ) :
    (holders (threads.set i t') kind : Int)
      = holders threads kind - (if t = .holding kind then 1 else 0)
        + if t' = .holding kind then 1 else 0 := by
  obtain ⟨hlt, hget⟩ := List.getElem?_eq_some_iff.1 h
  have hpos : t = .holding kind → 0 < holders threads kind := by
    intro ht
    exact List.countP_pos_iff.2 ⟨t, List.mem_of_getElem? h, by simp [ht]⟩
  unfold holders at hpos ⊢
  rw [List.countP_set hlt, hget]
  by_cases ht : t = .holding kind
  · have := hpos ht
    by_cases ht' : t' = .holding kind
    · simp [ht, ht']
      omega
    · simp [ht, ht']
      omega
  · by_cases ht' : t' = .holding kind
    · simp [ht, ht']
    · simp [ht, ht']

/-- The counters count, within the limits. -/
structure Counted (limit : κ → Int) (s : State κ) : Prop where
  count : ∀ kind, s.count kind = holders s.threads kind
  le : ∀ kind, s.count kind ≤ limit kind

theorem counted_start (hlimit : ∀ kind, 0 ≤ limit kind) (threads : Nat) :
    Counted limit (start threads) where
  count := fun kind => by
    have hnone : holders (List.replicate threads (Thread.free : Thread κ)) kind
        = 0 := by
      unfold holders
      rw [List.countP_eq_zero]
      intro t ht
      rw [List.eq_of_mem_replicate ht]
      simp
    simp [start, hnone]
  le := hlimit

/-- The counter is the number of holders, and within its limit: the
swap compares with the value that was read, so a slot is only taken
where there is one. -/
theorem Counted.step (h : Counted limit s) {a : Action κ}
    (hstep : Step limit s a s') : Counted limit s' := by
  have hcount := h.count
  have hle := h.le
  cases hstep with
  | take i kind hi hroom =>
      refine ⟨fun other => ?_, fun other => ?_⟩
      · rw [holders_set hi, ← hcount]
        by_cases heq : other = kind
        · simp [heq]
        · simp [heq, Ne.symm heq]
      · by_cases heq : other = kind
        · simp only [heq, Function.update_self]
          omega
        · simp only [ne_eq, heq, not_false_eq_true, Function.update_of_ne]
          exact hle other
  | release i kind hi =>
      refine ⟨fun other => ?_, fun other => ?_⟩
      · rw [holders_set hi, ← hcount]
        by_cases heq : other = kind
        · simp [heq]
        · simp [heq, Ne.symm heq]
      · by_cases heq : other = kind
        · have := hle kind
          simp only [heq, Function.update_self]
          omega
        · simp only [ne_eq, heq, not_false_eq_true, Function.update_of_ne]
          exact hle other
  | ask i kind hi =>
      exact ⟨fun other => by rw [holders_set hi, ← hcount]; simp, hle⟩
  | load i kind hi =>
      exact ⟨fun other => by rw [holders_set hi, ← hcount]; simp, hle⟩
  | refuse i fails kind seen hi hfull =>
      exact ⟨fun other => by rw [holders_set hi, ← hcount]; simp, hle⟩
  | again i fails kind seen hi hroom hwhy =>
      exact ⟨fun other => by rw [holders_set hi, ← hcount]; simp, hle⟩
  | leave i kind hi =>
      exact ⟨fun other => by rw [holders_set hi, ← hcount]; simp, hle⟩

theorem run_counted (h : Counted limit s) {actions : List (Action κ)}
    (hrun : System.run (step limit) s actions = some s') : Counted limit s' :=
  System.run_invariant (fun _ _ _ h hstep => h.step (step_cases hstep))
    actions h hrun

theorem step_length {a : Action κ} (hstep : Step limit s a s') :
    s'.threads.length = s.threads.length := by
  cases hstep <;> simp

theorem run_length {actions : List (Action κ)}
    (hrun : System.run (step limit) s actions = some s') :
    s'.threads.length = s.threads.length :=
  System.run_invariant (I := fun t => t.threads.length = s.threads.length)
    (fun _ _ _ h hstep => (step_length (step_cases hstep)).trans h)
      actions rfl hrun

-- ============================================================= what is spared

def Thread.holds : Thread κ → Bool
  | .holding _ => true
  | _ => false

/-- The holders are those of each kind. -/
theorem countP_holds [Fintype κ] (threads : List (Thread κ)) :
    threads.countP Thread.holds = ∑ kind, holders threads kind := by
  induction threads with
  | nil => simp [holders]
  | cons t threads ih =>
      have hone : ∀ kind, holders (t :: threads) kind
          = holders threads kind + if t = .holding kind then 1 else 0 := by
        intro kind
        simp [holders, List.countP_cons]
      simp only [hone, Finset.sum_add_distrib, ← ih, List.countP_cons]
      cases t with
      | holding kind => simp [Thread.holds]
      | _ => simp [Thread.holds]

/-- As many threads as there are above the slots are never all of
them holders. -/
theorem Counted.spare [Fintype κ] (h : Counted limit s) {spare : Nat}
    (hlength : (s.threads.length : Int) = (∑ kind, limit kind) + spare) :
    spare ≤ s.threads.countP fun t => !t.holds := by
  have hsplit := List.length_eq_countP_add_countP (l := s.threads) Thread.holds
  have hsum : (s.threads.countP Thread.holds : Int) ≤ ∑ kind, limit kind := by
    rw [countP_holds, Nat.cast_sum]
    refine Finset.sum_le_sum fun kind _ => ?_
    rw [← h.count kind]
    exact h.le kind
  have hnot : (s.threads.countP fun t => !t.holds)
      = s.threads.countP fun t => decide ¬t.holds = true := by
    congr 1
    funext t
    simp
  omega

-- =========================================================== what was refused

/-- A thread has found `seen` slots taken since it last asked. -/
def Seen (limit : κ → Int) (threads : Nat) (actions : List (Action κ))
    (i : Nat) (kind : κ) (seen : Int) : Prop :=
  ∃ as bs u, actions = as ++ bs
    ∧ System.run (step limit) (start threads) as = some u
    ∧ u.count kind = seen ∧ ∀ other, Action.ask i other ∉ bs

theorem Seen.snoc {threads i : Nat} {actions : List (Action κ)}
    {kind : κ} {seen : Int}
    (h : Seen limit threads actions i kind seen) {a : Action κ}
    (ha : ∀ other, a ≠ .ask i other) :
    Seen limit threads (actions ++ [a]) i kind seen := by
  obtain ⟨as, bs, u, rfl, hrun, hseen, hbs⟩ := h
  refine ⟨as, bs ++ [a], u, List.append_assoc _ _ _, hrun, hseen,
    fun other hmem => ?_⟩
  cases List.mem_append.1 hmem with
  | inl hmem => exact hbs other hmem
  | inr hmem => exact ha other (List.mem_singleton.1 hmem).symm

theorem Seen.now {threads i : Nat} {actions : List (Action κ)} {kind : κ}
    (hrun : System.run (step limit) (start threads) actions = some s) :
    Seen limit threads actions i kind (s.count kind) :=
  ⟨actions, [], s, (List.append_nil _).symm, hrun, rfl, by simp⟩

/-- What a thread goes by, it has found. -/
structure Witnessed (limit : κ → Int) (threads : Nat)
    (actions : List (Action κ)) (s : State κ) : Prop where
  trying : ∀ i kind seen, s.threads[i]? = some (.trying kind seen) →
    Seen limit threads actions i kind seen
  refused : ∀ i kind, s.threads[i]? = some (.refused kind) →
    ∃ seen, limit kind ≤ seen ∧ Seen limit threads actions i kind seen

/-- A step of another thread, or one that ends an attempt. -/
theorem Witnessed.other {threads i : Nat} {actions : List (Action κ)}
    {a : Action κ} (h : Witnessed limit threads actions s) (t : Thread κ)
    (hthreads : s'.threads = s.threads.set i t)
    (ha : ∀ j other, j ≠ i → a ≠ .ask j other)
    (htrying : ∀ kind seen, s'.threads[i]? = some (.trying kind seen) →
      Seen limit threads (actions ++ [a]) i kind seen)
    (hrefused : ∀ kind, s'.threads[i]? = some (.refused kind) →
      ∃ seen, limit kind ≤ seen
        ∧ Seen limit threads (actions ++ [a]) i kind seen) :
    Witnessed limit threads (actions ++ [a]) s' := by
  refine ⟨fun j kind seen hj => ?_, fun j kind hj => ?_⟩
  · by_cases heq : j = i
    · exact heq ▸ htrying kind seen (heq ▸ hj)
    · rw [hthreads, List.getElem?_set_ne (Ne.symm heq)] at hj
      exact (h.trying j kind seen hj).snoc fun other => ha j other heq
  · by_cases heq : j = i
    · exact heq ▸ hrefused kind (heq ▸ hj)
    · rw [hthreads, List.getElem?_set_ne (Ne.symm heq)] at hj
      obtain ⟨seen, hfull, hseen⟩ := h.refused j kind hj
      exact ⟨seen, hfull, hseen.snoc fun other => ha j other heq⟩

/-- Whoever was refused has read a full counter at some time since asking. Each
step either is that reading or leaves the earlier ones as they were. -/
theorem Witnessed.step {threads : Nat} {actions : List (Action κ)}
    (h : Witnessed limit threads actions s) {a : Action κ}
    (hrun : System.run (Slots.step limit) (start threads) (actions ++ [a])
      = some s')
    (hstep : Step limit s a s') :
    Witnessed limit threads (actions ++ [a]) s' := by
  have hset : ∀ {i : Nat} {t t' : Thread κ}, s.threads[i]? = some t →
      (s.threads.set i t')[i]? = some t' := by
    intro i t t' hi
    exact List.getElem?_set_self (List.getElem?_eq_some_iff.1 hi).1
  cases hstep with
  | ask i kind hi =>
      exact h.other _ rfl (by simp +contextual [eq_comm]) (by simp [hset hi])
        (by simp [hset hi])
  | load i kind hi =>
      refine h.other _ rfl (by simp) (fun kind' seen hj => ?_)
        (by simp [hset hi])
      obtain ⟨rfl, rfl⟩ : kind = kind' ∧ s.count kind = seen := by
        simpa [hset hi] using hj
      have hnow : Seen limit threads _ i kind _ := Seen.now hrun
      exact hnow
  | refuse i fails kind seen hi hfull =>
      refine h.other _ rfl (by simp) (by simp [hset hi]) fun kind' hj => ?_
      obtain rfl : kind = kind' := by simpa [hset hi] using hj
      exact ⟨seen, hfull, (h.trying i kind seen hi).snoc (by simp)⟩
  | take i kind hi hroom =>
      exact h.other _ rfl (by simp) (by simp [hset hi]) (by simp [hset hi])
  | again i fails kind seen hi hroom hwhy =>
      refine h.other _ rfl (by simp) (fun kind' seen' hj => ?_)
        (by simp [hset hi])
      obtain ⟨rfl, rfl⟩ : kind = kind' ∧ s.count kind = seen' := by
        simpa [hset hi] using hj
      have hnow : Seen limit threads _ i kind _ := Seen.now hrun
      exact hnow
  | release i kind hi =>
      exact h.other _ rfl (by simp) (by simp [hset hi]) (by simp [hset hi])
  | leave i kind hi =>
      exact h.other _ rfl (by simp) (by simp [hset hi]) (by simp [hset hi])

theorem run_witnessed {threads : Nat} {actions : List (Action κ)} :
    ∀ {s : State κ}, System.run (step limit) (start threads) actions = some s →
      Witnessed limit threads actions s := by
  induction actions using List.reverseRecOn with
  | nil =>
      intro s hrun
      injection hrun with hrun
      subst hrun
      have hfree : ∀ {i : Nat} {t : Thread κ},
          (start threads : State κ).threads[i]? = some t → t = .free := by
        intro i t hi
        exact List.eq_of_mem_replicate (List.mem_of_getElem? hi)
      refine ⟨fun i kind seen hi => ?_, fun i kind hi => ?_⟩
      · cases hfree hi
      · cases hfree hi
  | append_singleton actions a ih =>
      intro s hrun
      obtain ⟨t, ht, hstep⟩ := System.run_append_eq_some.1 hrun
      obtain ⟨u, hu, hend⟩ := System.run_cons_eq_some.1 hstep
      injection hend with hend
      exact (ih ht).step hrun (step_cases (hend ▸ hu))

/-- A refused thread has found every slot taken since it last asked. -/
theorem run_sawFull {threads : Nat} (hlimit : ∀ kind, 0 ≤ limit kind)
    {actions : List (Action κ)}
    (hrun : System.run (step limit) (start threads) actions = some s)
    {i : Nat} {kind : κ} (hi : s.threads[i]? = some (.refused kind)) :
    ∃ as bs u, actions = as ++ bs
      ∧ System.run (step limit) (start threads) as = some u
      ∧ (holders u.threads kind : Int) = limit kind
      ∧ ∀ other, Action.ask i other ∉ bs := by
  obtain ⟨seen, hfull, as, bs, u, hactions, hu, hseen, hbs⟩ :=
    (run_witnessed hrun).refused i kind hi
  have hcounted := run_counted (counted_start hlimit threads) hu
  have hcount := hcounted.count kind
  have hle := hcounted.le kind
  exact ⟨as, bs, u, hactions, hu, by omega, hbs⟩

-- =============================================================== the attempts

/-- A thread that runs alone, and whose compares do not fail without a
reason, is done after two of them. -/
theorem alone {i : Nat} {kind : κ} {seen : Int}
    (hi : s.threads[i]? = some (.trying kind seen)) :
    ∃ as t, as.length ≤ 2 ∧ (∀ a ∈ as, a = Action.swap i false)
      ∧ System.run (step limit) s as = some t
      ∧ (t.threads[i]? = some (.holding kind)
        ∨ t.threads[i]? = some (.refused kind)) := by
  have hlt := (List.getElem?_eq_some_iff.1 hi).1
  have hset : ∀ t, (s.threads.set i t)[i]? = some t :=
    fun t => List.getElem?_set_self hlt
  by_cases hfull : limit kind ≤ seen
  · exact ⟨[.swap i false],
      _, by simp, by simp, by simp [System.run, step, hi, hfull]; rfl,
      Or.inr (hset _)⟩
  by_cases hsame : s.count kind = seen
  · exact ⟨[.swap i false], _, by simp, by simp,
      by simp [System.run, step, hi, hfull, hsame]; rfl, Or.inl (hset _)⟩
  -- the failed compare has read the counter, which nobody changes in between
  have hfirst : step limit s (.swap i false)
      = some { s with
          threads := s.threads.set i (.trying kind (s.count kind)) } := by
    simp [step, hi, hfull, hsame]
  by_cases hroom : limit kind ≤ s.count kind
  · exact ⟨[.swap i false, .swap i false], _, by simp, by simp,
      by simp [System.run, hfirst]; simp [step, hset, hroom]; rfl,
      Or.inr (hset _)⟩
  · exact ⟨[.swap i false, .swap i false], _, by simp, by simp,
      by simp [System.run, hfirst]; simp [step, hset, hroom]; rfl,
      Or.inl (hset _)⟩

end LocalLLM.Slots
