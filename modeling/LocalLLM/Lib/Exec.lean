/-
Computations that read and write a state and may throw, with their
weakest preconditions.

# The throw keeps the writes

`Exec ε σ α` pairs the outcome with the state that was reached, so a
throw does NOT roll the state back: what a computation wrote before it
threw stays written. That is how exceptions act on objects that outlive
the unwound frames, and it is the reason the monad is not
`StateT σ (Except ε)`.

# The rules

`wp m Q E s` says that `m`, run from `s`, either returns some `a` in a
state with `Q a`, or throws some `e` in a state with `E e`. There is one
equation per constructor of the monad (`wp_pure`, `wp_bind`, ...), all
tagged `simp`, and one consequence rule (`wp_mono`). A specification of
an operation is a `wp` statement, and a caller steps over the operation
with `wp_bind` and `wp_mono` instead of unfolding it.

`Keeps I m` says that `m` keeps an invariant however it ends, and
`Relates R m` that the state it leaves stands in a relation to the one it
found. Both go through a sequence (`Keeps.bind`, `Relates.bind`), so that a
computation of many steps has them from its steps.

`Caller` is code that is not given: it may call back any number of
times, look at each answer, and end by returning or throwing. Its run
keeps whatever every single callback keeps (`Caller.wp_run`).
-/
import Mathlib

namespace LocalLLM

/-- A computation over the state `σ` that may throw an `ε`; a throw keeps
the writes made before it. -/
def Exec (ε σ α : Type) : Type := σ → Except ε α × σ

namespace Exec

variable {ε σ τ α β : Type}

instance : Monad (Exec ε σ) where
  pure a := fun s => (.ok a, s)
  bind m f := fun s =>
    match m s with
    | (.ok a, s') => f a s'
    | (.error e, s') => (.error e, s')

instance : MonadStateOf σ (Exec ε σ) where
  get := fun s => (.ok s, s)
  set s := fun _ => (.ok (), s)
  modifyGet f := fun s => (.ok (f s).1, (f s).2)

instance : MonadExceptOf ε (Exec ε σ) where
  throw e := fun s => (.error e, s)
  tryCatch m handler := fun s =>
    match m s with
    | (.ok a, s') => (.ok a, s')
    | (.error e, s') => handler e s'

/-- Runs a computation to its outcome, without throwing. -/
def attempt (m : Exec ε σ α) : Exec ε σ (Except ε α) := fun s =>
  (.ok (m s).1, (m s).2)

/-- A pure outcome as a computation that leaves the state alone. -/
def ofExcept (r : Except ε α) : Exec ε σ α := fun s => (r, s)

/-- Runs a computation on a part of the state: `view` reads the part and
`put` writes it back, after a throw too. -/
def zoom (view : τ → σ) (put : σ → τ → τ) (m : Exec ε σ α) : Exec ε τ α :=
  fun t => ((m (view t)).1, put (m (view t)).2 t)

-- ================================================ running the constructors

@[simp] theorem pure_apply (a : α) (s : σ) :
    (pure a : Exec ε σ α) s = (.ok a, s) := rfl

/-- Binding runs the second part from the state the first one left. On an error
nothing more runs, and the state stays as it was at the throw. -/
theorem bind_apply (m : Exec ε σ α) (f : α → Exec ε σ β) (s : σ) :
    (m >>= f) s = match m s with
      | (.ok a, s') => f a s'
      | (.error e, s') => (.error e, s') := rfl

/-- Past a computation that returns, a sequence goes on from its state. -/
theorem bind_apply_ok {m : Exec ε σ α} {f : α → Exec ε σ β} {s s' : σ} {a : α}
    (h : m s = (.ok a, s')) : (m >>= f) s = f a s' := by
  rw [bind_apply, h]

/-- Past a computation that throws, a sequence has thrown. -/
theorem bind_apply_error {m : Exec ε σ α} {f : α → Exec ε σ β} {s s' : σ}
    {e : ε} (h : m s = (.error e, s')) : (m >>= f) s = (.error e, s') := by
  rw [bind_apply, h]

@[simp] theorem get_apply (s : σ) : (get : Exec ε σ σ) s = (.ok s, s) := rfl

@[simp] theorem set_apply (s s' : σ) :
    (set s' : Exec ε σ PUnit) s = (.ok (), s') := rfl

@[simp] theorem modify_apply (f : σ → σ) (s : σ) :
    (modify f : Exec ε σ PUnit) s = (.ok (), f s) := rfl

@[simp] theorem throw_apply (e : ε) (s : σ) :
    (throw e : Exec ε σ α) s = (.error e, s) := rfl

@[simp] theorem attempt_apply (m : Exec ε σ α) (s : σ) :
    attempt m s = (.ok (m s).1, (m s).2) := rfl

@[simp] theorem ofExcept_apply (r : Except ε α) (s : σ) :
    (ofExcept r : Exec ε σ α) s = (r, s) := rfl

theorem tryCatch_apply_ok {m : Exec ε σ α} {handler : ε → Exec ε σ α}
    {s s' : σ} {a : α} (h : m s = (.ok a, s')) :
    tryCatch m handler s = (.ok a, s') := by
  show (match m s with
    | (Except.ok a, s') => (Except.ok a, s')
    | (Except.error e, s') => handler e s') = _
  rw [h]

/-- The handler starts from the state at the throw: nothing is rolled back. -/
theorem tryCatch_apply_error {m : Exec ε σ α} {handler : ε → Exec ε σ α}
    {s s' : σ} {e : ε} (h : m s = (.error e, s')) :
    tryCatch m handler s = handler e s' := by
  show (match m s with
    | (Except.ok a, s') => (Except.ok a, s')
    | (Except.error e, s') => handler e s') = _
  rw [h]

@[simp] theorem zoom_apply (view : τ → σ) (put : σ → τ → τ) (m : Exec ε σ α)
    (t : τ) :
    zoom view put m t = ((m (view t)).1, put (m (view t)).2 t) := rfl

-- ==================================================== weakest preconditions

/-- From `s`, `m` returns into `Q` or throws into `E`. -/
def wp (m : Exec ε σ α) (Q : α → σ → Prop) (E : ε → σ → Prop) (s : σ) : Prop :=
  match m s with
  | (.ok a, s') => Q a s'
  | (.error e, s') => E e s'

variable {Q Q' : α → σ → Prop} {E E' : ε → σ → Prop} {s : σ}

/-- The rule of consequence. -/
theorem wp_mono {m : Exec ε σ α} (h : wp m Q E s)
    (hQ : ∀ a s', Q a s' → Q' a s') (hE : ∀ e s', E e s' → E' e s') :
    wp m Q' E' s := by
  unfold wp at h ⊢
  split
  next a s' heq =>
    rw [heq] at h
    exact hQ a s' h
  next e s' heq =>
    rw [heq] at h
    exact hE e s' h

/-- Two specifications of one computation hold together. -/
theorem wp_and {m : Exec ε σ α} (h : wp m Q E s) (h' : wp m Q' E' s) :
    wp m (fun a t => Q a t ∧ Q' a t) (fun e t => E e t ∧ E' e t) s := by
  unfold wp at h h' ⊢
  split
  next a s' heq =>
    rw [heq] at h h'
    exact ⟨h, h'⟩
  next e s' heq =>
    rw [heq] at h h'
    exact ⟨h, h'⟩

/-- A run whose outcome is known satisfies the condition when
that outcome does. -/
theorem wp_of_ok {m : Exec ε σ α} {a : α} {t : σ} (h : m s = (.ok a, t))
    (hQ : Q a t) : wp m Q E s := by
  unfold wp
  rw [h]
  exact hQ

/-- The same for a run that is known to throw. -/
theorem wp_of_error {m : Exec ε σ α} {e : ε} {t : σ}
    (h : m s = (.error e, t)) (hE : E e t) : wp m Q E s := by
  unfold wp
  rw [h]
  exact hE

/-- What a specification says of a run that returned. -/
theorem wp_ok {m : Exec ε σ α} {a : α} {s' : σ} (h : wp m Q E s)
    (hm : m s = (.ok a, s')) : Q a s' := by
  unfold wp at h
  rwa [hm] at h

/-- What a specification says of a run that threw. -/
theorem wp_error {m : Exec ε σ α} {e : ε} {s' : σ} (h : wp m Q E s)
    (hm : m s = (.error e, s')) : E e s' := by
  unfold wp at h
  rwa [hm] at h

/-- What a specification says, by outcome. -/
theorem wp_cases {m : Exec ε σ α} (h : wp m Q E s) :
    (∃ a s', m s = (.ok a, s') ∧ Q a s')
      ∨ ∃ e s', m s = (.error e, s') ∧ E e s' := by
  cases hm : m s with
  | mk r s' =>
      cases r with
      | ok a => exact Or.inl ⟨a, s', rfl, wp_ok h hm⟩
      | error e => exact Or.inr ⟨e, s', rfl, wp_error h hm⟩

/-- The run itself, as a specification. -/
theorem wp_self (m : Exec ε σ α) (s : σ) :
    wp m (fun a s' => m s = (.ok a, s'))
      (fun e s' => m s = (.error e, s')) s := by
  unfold wp
  cases hm : m s with
  | mk r s' => cases r <;> rfl

/-- What holds however a run ends, holds of the state it reaches. -/
theorem wp_final {m : Exec ε σ α} {P : σ → Prop}
    (h : wp m (fun _ => P) (fun _ => P) s) : P (m s).2 := by
  rcases wp_cases h with ⟨a, s', hm, hP⟩ | ⟨e, s', hm, hP⟩
  · rw [hm]
    exact hP
  · rw [hm]
    exact hP

@[simp] theorem wp_pure (a : α) : wp (pure a : Exec ε σ α) Q E s ↔ Q a s :=
  Iff.rfl

@[simp] theorem wp_throw (e : ε) : wp (throw e : Exec ε σ α) Q E s ↔ E e s :=
  Iff.rfl

/-- The rule for sequencing: the condition of the rest is what the first part
has to reach. Both share the condition on errors. -/
theorem wp_bind {m : Exec ε σ α} {f : α → Exec ε σ β} {R : β → σ → Prop} :
    wp (m >>= f) R E s ↔ wp m (fun a s' => wp (f a) R E s') E s := by
  unfold wp
  rw [bind_apply]
  cases h : m s with
  | mk r s' => cases r <;> rfl

@[simp] theorem wp_get {R : σ → σ → Prop} :
    wp (get : Exec ε σ σ) R E s ↔ R s s := Iff.rfl

@[simp] theorem wp_set {R : PUnit → σ → Prop} (t : σ) :
    wp (set t : Exec ε σ PUnit) R E s ↔ R ⟨⟩ t := Iff.rfl

@[simp] theorem wp_modify {R : PUnit → σ → Prop} (f : σ → σ) :
    wp (modify f : Exec ε σ PUnit) R E s ↔ R ⟨⟩ (f s) := Iff.rfl

/-- A pure check changes no state, so only its verdict has to be looked at. -/
theorem wp_ofExcept {r : Except ε α} :
    wp (ofExcept r : Exec ε σ α) Q E s
      ↔ (∀ a, r = .ok a → Q a s) ∧ (∀ e, r = .error e → E e s) := by
  cases r <;> simp [wp]

/-- One obligation for each branch, each with its test at hand. -/
theorem wp_ite {p : Prop} [Decidable p] {m m' : Exec ε σ α} :
    wp (if p then m else m') Q E s
      ↔ (p → wp m Q E s) ∧ (¬ p → wp m' Q E s) := by
  by_cases h : p <;> simp [h]

/-- Attempting turns both outcomes into values, so that the code behind it can
see which one it was. -/
@[simp] theorem wp_attempt {m : Exec ε σ α} {R : Except ε α → σ → Prop} :
    wp (attempt m) R E s
      ↔ wp m (fun a s' => R (.ok a) s') (fun e s' => R (.error e) s') s := by
  unfold wp
  rw [attempt_apply]
  cases h : m s with
  | mk r s' => cases r <;> rfl

/-- Errors of the body are what the handler has to deal with, from the state of
the throw. -/
theorem wp_tryCatch {m : Exec ε σ α} {handler : ε → Exec ε σ α} :
    wp (tryCatch m handler) Q E s
      ↔ wp m Q (fun e s' => wp (handler e) Q E s') s := by
  unfold wp
  rw [show tryCatch m handler s = (match m s with
    | (.ok a, s') => (.ok a, s')
    | (.error e, s') => handler e s') from rfl]
  cases h : m s with
  | mk r s' => cases r <;> rfl

/-- A computation on a part of the state is judged on that part
and put back. -/
@[simp] theorem wp_zoom {view : τ → σ} {put : σ → τ → τ} {m : Exec ε σ α}
    {R : α → τ → Prop} {F : ε → τ → Prop} {t : τ} :
    wp (zoom view put m) R F t
      ↔ wp m (fun a s => R a (put s t)) (fun e s => F e (put s t))
        (view t) := by
  unfold wp
  rw [zoom_apply]
  cases h : m (view t) with
  | mk r s' => cases r <;> rfl

-- ============================================================ what is kept

/-- However it ends, it keeps the invariant. -/
def Keeps (I : σ → Prop) (m : Exec ε σ α) : Prop :=
  ∀ s, I s → wp m (fun _ => I) (fun _ => I) s

/-- However it ends, the state it leaves stands in this relation
to the one it found. -/
def Relates (R : σ → σ → Prop) (m : Exec ε σ α) : Prop :=
  ∀ s, wp m (fun _ => R s) (fun _ => R s) s

/-- What both steps of a sequence keep, the sequence keeps: the second one
starts where the first has left the invariant. -/
theorem Keeps.bind {I : σ → Prop} {m : Exec ε σ α} {f : α → Exec ε σ β}
    (hm : Keeps I m) (hf : ∀ a, Keeps I (f a)) : Keeps I (m >>= f) := by
  intro s h
  rw [wp_bind]
  exact wp_mono (hm s h) (fun a s' h' => hf a s' h') (fun _ _ h' => h')

theorem Keeps.ofExcept {I : σ → Prop} (r : Except ε α) :
    Keeps I (Exec.ofExcept r : Exec ε σ α) := by
  intro s h
  rw [wp_ofExcept]
  exact ⟨fun _ _ => h, fun _ _ => h⟩

/-- A relation that goes through one state after the other goes through a
sequence. -/
theorem Relates.bind {R : σ → σ → Prop} [IsTrans σ R] {m : Exec ε σ α}
    {f : α → Exec ε σ β} (hm : Relates R m) (hf : ∀ a, Relates R (f a)) :
    Relates R (m >>= f) := by
  intro s
  rw [wp_bind]
  apply wp_mono (hm s)
  · intro a t h
    exact wp_mono (hf a t) (fun _ _ h' => trans_of R h h')
      (fun _ _ h' => trans_of R h h')
  · intro _ t h
    exact h

/-- What an answer is made into does not change the state. -/
theorem bind_pure_state (m : Exec ε σ α) (f : α → β) (s : σ) :
    ((m >>= fun a => pure (f a)) s).2 = (m s).2 := by
  rw [bind_apply]
  cases m s with
  | mk r t =>
      cases r with
      | ok a => rfl
      | error e => rfl

end Exec

-- ======================================================== pure computations

/-- A sequence of pure steps that returns: its first step returned. -/
theorem ok_bind {ε α β : Type} (a : α) (f : α → Except ε β) :
    ((Except.ok a : Except ε α) >>= f) = f a := rfl

/-- A chain of checks passes exactly when each of them does. -/
theorem bind_eq_ok {ε α β : Type} {x : Except ε α}
    {f : α → Except ε β} {b : β} :
    (x >>= f) = .ok b ↔ ∃ a, x = .ok a ∧ f a = .ok b := by
  cases x with
  | ok a =>
      exact ⟨fun h => ⟨a, rfl, h⟩, fun ⟨_, ha, h⟩ => by cases ha; exact h⟩
  | error e => exact ⟨fun h => (nomatch h), fun ⟨_, ha, _⟩ => (nomatch ha)⟩

-- ============================================================ unknown code

/-- Code that is not given and works through one callback: it returns,
throws, or calls back with a `ι` and goes on as the answer says. The
answer is the callback's outcome, so the code may also swallow what the
callback threw. -/
inductive Caller (ι ο ε ρ : Type) : Type
  | done (result : ρ)
  | fail (thrown : ε)
  | call (argument : ι) (resume : Except ε ο → Caller ι ο ε ρ)

namespace Caller

variable {ι ο ε ρ σ : Type}

/-- The code run against a callback. -/
def run (callback : ι → Exec ε σ ο) : Caller ι ο ε ρ → Exec ε σ ρ
  | .done r => pure r
  | .fail e => throw e
  | .call x resume => fun s =>
      (resume (callback x s).1).run callback (callback x s).2

/-- What each callback keeps, whether it returns or throws, the
whole run keeps. -/
theorem wp_run {f : ι → Exec ε σ ο} {I : σ → Prop}
    (hcall : ∀ x s, I s → Exec.wp (f x) (fun _ => I) (fun _ => I) s) :
    ∀ (c : Caller ι ο ε ρ) (s : σ), I s →
      Exec.wp (c.run f) (fun _ => I) (fun _ => I) s := by
  intro c
  induction c with
  | done r => intro s hs; exact hs
  | fail e => intro s hs; exact hs
  | call x resume ih =>
      intro s hs
      exact ih (f x s).1 (f x s).2 (Exec.wp_final (hcall x s hs))

end Caller

end LocalLLM
