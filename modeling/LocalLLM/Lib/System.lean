/-
Systems that move by actions.

A step function says which state an action leads to, and `none` where the
action is not possible. `run` performs a list of actions, in any order a
scheduler may choose.

`run_invariant` is the induction over runs: what holds of a state and is
kept by every step holds after every run. `run_relates` is the same for a
relation between a state and those after it, and `run_within` counts down
the steps of one kind that something may still take. `Leads` says that
actions of one kind are enough to get somewhere.
-/
import Mathlib

namespace LocalLLM.System

variable {σ α : Type} {step : σ → α → Option σ}

/-- The state after a list of actions. -/
def run (step : σ → α → Option σ) (s : σ) : List α → Option σ
  | [] => some s
  | a :: as => (step s a).bind fun s => run step s as

@[simp] theorem run_nil (s : σ) : run step s [] = some s := rfl

theorem run_cons_eq_some {s s' : σ} {a : α} {as : List α} :
    run step s (a :: as) = some s'
      ↔ ∃ t, step s a = some t ∧ run step t as = some s' := by
  show (step s a).bind _ = _ ↔ _
  rw [Option.bind_eq_some_iff]

theorem run_append {s : σ} {as bs : List α} :
    run step s (as ++ bs) = (run step s as).bind fun t => run step t bs := by
  induction as generalizing s with
  | nil => rfl
  | cons a as ih =>
      show (step s a).bind _ = ((step s a).bind _).bind _
      cases step s a with
      | none => rfl
      | some t => exact ih

/-- A run can be cut anywhere. -/
theorem run_append_eq_some {s s' : σ} {as bs : List α} :
    run step s (as ++ bs) = some s'
      ↔ ∃ t, run step s as = some t ∧ run step t bs = some s' := by
  rw [run_append, Option.bind_eq_some_iff]

/-- What every step keeps, every run keeps. -/
theorem run_invariant {I : σ → Prop}
    (hstep : ∀ s a s', I s → step s a = some s' → I s') :
    ∀ (as : List α) {s s' : σ}, I s → run step s as = some s' → I s' := by
  intro as
  induction as with
  | nil =>
      intro s s' h hrun
      injection hrun with hrun
      exact hrun ▸ h
  | cons a as ih =>
      intro s s' h hrun
      obtain ⟨t, ht, hrun⟩ := run_cons_eq_some.1 hrun
      exact ih (hstep s a t h ht) hrun

/-- Every step of a run is taken as `P` asks. -/
def Along (step : σ → α → Option σ) (P : σ → α → Prop) (s : σ) : List α → Prop
  | [] => True
  | a :: as => P s a ∧ ∀ t, step s a = some t → Along step P t as

theorem Along.next {P : σ → α → Prop} {s t : σ} {a : α}
    {as : List α} (h : P s a)
    (hstep : step s a = some t) (hrest : Along step P t as) :
    Along step P s (a :: as) := by
  refine ⟨h, fun u hu => ?_⟩
  rw [hstep] at hu
  injection hu with hu
  exact hu ▸ hrest

theorem Along.of_forall {P : σ → α → Prop} :
    ∀ {as : List α} {s : σ}, (∀ a ∈ as, ∀ s, P s a) → Along step P s as := by
  intro as
  induction as with
  | nil => exact fun _ => trivial
  | cons a as ih =>
      intro s h
      exact ⟨h a List.mem_cons_self s,
        fun _ _ => ih fun b hb => h b (List.mem_cons_of_mem a hb)⟩

/-- What every such step keeps, such runs keep. -/
theorem run_invariant_along {I : σ → Prop} {P : σ → α → Prop}
    (hstep : ∀ s a s', I s → P s a → step s a = some s' → I s') :
    ∀ (as : List α) {s s' : σ}, I s → Along step P s as →
      run step s as = some s' →
      I s' := by
  intro as
  induction as with
  | nil =>
      intro s s' h _ hrun
      injection hrun with hrun
      exact hrun ▸ h
  | cons a as ih =>
      intro s s' h halong hrun
      obtain ⟨t, ht, hrun⟩ := run_cons_eq_some.1 hrun
      exact ih (hstep s a t h halong.1 ht) (halong.2 t ht) hrun

/-- A relation that every step satisfies relates the two ends of a run. -/
theorem run_relates {I : σ → Prop} {R : σ → σ → Prop} (hrefl : ∀ s, R s s)
    (htrans : ∀ s t u, R s t → R t u → R s u)
    (hstep : ∀ s a s', I s → step s a = some s' → I s' ∧ R s s') :
    ∀ (as : List α) {s s' : σ}, I s → run step s as = some s' →
      I s' ∧ R s s' := by
  intro as
  induction as with
  | nil =>
      intro s s' h hrun
      injection hrun with hrun
      exact hrun ▸ ⟨h, hrefl s⟩
  | cons a as ih =>
      intro s s' h hrun
      obtain ⟨t, ht, hrun⟩ := run_cons_eq_some.1 hrun
      obtain ⟨hI, hR⟩ := hstep s a t h ht
      obtain ⟨hI', hR'⟩ := ih hI hrun
      exact ⟨hI', htrans s t s' hR hR'⟩

/-- When a step of one kind takes one from what is left and no other step
adds to it, a run takes off as many as it has of these steps. -/
theorem run_within {I : σ → Prop} {W : σ → Nat → Prop} {p : α → Bool}
    (hstep : ∀ s a s' n, I s → W s n → step s a = some s' →
      I s' ∧ W s' (n - if p a = true then 1 else 0)) :
    ∀ (as : List α) {s s' : σ} {n : Nat}, I s → W s n →
      run step s as = some s' → W s' (n - as.countP p) := by
  intro as
  induction as with
  | nil =>
      intro s s' n _ hn hrun
      injection hrun with hrun
      exact hrun ▸ hn
  | cons a as ih =>
      intro s s' n h hn hrun
      obtain ⟨t, ht, hrun⟩ := run_cons_eq_some.1 hrun
      obtain ⟨hI, ht⟩ := hstep s a t n h hn ht
      have hrest := ih hI ht hrun
      rwa [Nat.sub_sub, Nat.add_comm, ← List.countP_cons] at hrest

/-- Some actions of a kind lead from here to a goal. -/
def Leads (step : σ → α → Option σ) (own : α → Prop) (goal : σ → Prop)
    (s : σ) : Prop :=
  ∃ (as : List α) (t : σ), (∀ a ∈ as, own a) ∧ run step s as = some t ∧ goal t

theorem Leads.here {own : α → Prop} {goal : σ → Prop} {s : σ} (h : goal s) :
    Leads step own goal s :=
  ⟨[], s, fun _ ha => (List.not_mem_nil ha).elim, rfl, h⟩

theorem Leads.after {own : α → Prop} {goal : σ → Prop} {s t : σ} (a : α)
    (hown : own a) (hstep : step s a = some t) (h : Leads step own goal t) :
    Leads step own goal s := by
  obtain ⟨as, u, has, hrun, hgoal⟩ := h
  exact ⟨a :: as, u, List.forall_mem_cons.2 ⟨hown, has⟩,
    run_cons_eq_some.2 ⟨t, hstep, hrun⟩, hgoal⟩

end LocalLLM.System
