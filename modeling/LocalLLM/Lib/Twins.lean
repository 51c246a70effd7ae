/-
Two computations side by side.

# Together, or lost

`Twins lost m m' Q E s t` compares `m` from `s` with `m'` from `t`: both
return, into `Q`, or both throw the same, into `E`, or one of them throws
into a state that counts as `lost`. What is lost ends the comparison: the
other side may do as it likes. The rules follow those of `wp`, and the
comparison is carried from step to step by `Twins.bind`.

# Unknown code

Two pieces of code that is not given are an `Echo` of each other when they
call back with the same arguments as long as they get the same answers, and
end alike. Run against callbacks that do not fall apart, they do not fall
apart either (`Caller.Echo.run`).
-/
import LocalLLM.Lib.Exec

namespace LocalLLM

namespace Exec

variable {ε σ τ α β : Type}

/-- A sequence of pure steps is run step by step. -/
theorem ofExcept_bind {γ : Type} (r : Except ε α) (f : α → Except ε β)
    (g : β → Exec ε σ γ) :
    (ofExcept (r >>= f) >>= g)
      = (ofExcept r >>= fun a => ofExcept (f a) >>= g) := by
  cases r <;> rfl

/-- Sequences whose first steps end alike are alike. -/
theorem bind_apply_congr {m : Exec ε σ α} {m' : Exec ε σ α} {s s' : σ}
    (f : α → Exec ε σ β) (h : m s = m' s') : (m >>= f) s = (m' >>= f) s' := by
  rw [bind_apply, bind_apply, h]

/-- Two runs that end alike, or of which one is lost. -/
inductive Twins (lost : σ → Prop) (m m' : Exec ε σ α)
    (Q : α → α → σ → σ → Prop) (E : ε → σ → σ → Prop) (s t : σ) : Prop
  | returned (a b : α) (s' t' : σ) (left : m s = (.ok a, s'))
      (right : m' t = (.ok b, t')) (post : Q a b s' t')
  | thrown (e : ε) (s' t' : σ) (left : m s = (.error e, s'))
      (right : m' t = (.error e, t')) (post : E e s' t')
  | lostLeft (e : ε) (s' : σ) (left : m s = (.error e, s')) (gone : lost s')
  | lostRight (e : ε) (t' : σ) (right : m' t = (.error e, t')) (gone : lost t')

variable {lost lost' : σ → Prop} {m m' : Exec ε σ α}
  {Q Q' : α → α → σ → σ → Prop} {E E' : ε → σ → σ → Prop} {s t : σ}

/-- The rule of consequence. -/
theorem Twins.mono (h : Twins lost m m' Q E s t)
    (hlost : ∀ u, lost u → lost' u)
    (hQ : ∀ a b s' t', Q a b s' t' → Q' a b s' t')
    (hE : ∀ e s' t', E e s' t' → E' e s' t') : Twins lost' m m' Q' E' s t := by
  cases h with
  | returned a b s' t' left right post =>
      exact .returned a b s' t' left right (hQ _ _ _ _ post)
  | thrown e s' t' left right post =>
      exact .thrown e s' t' left right (hE _ _ _ post)
  | lostLeft e s' left gone => exact .lostLeft e s' left (hlost _ gone)
  | lostRight e t' right gone => exact .lostRight e t' right (hlost _ gone)

theorem Twins.pure {a b : α} (h : Q a b s t) :
    Twins lost (Pure.pure a) (Pure.pure b) Q E s t :=
  .returned a b s t rfl rfl h

theorem Twins.throw {e : ε} (h : E e s t) :
    Twins lost (MonadExcept.throw e) (MonadExcept.throw e) Q E s t :=
  .thrown e s t rfl rfl h

/-- One pure outcome on both sides. -/
theorem Twins.ofExcept {r : Except ε α} (hQ : ∀ a, r = .ok a → Q a a s t)
    (hE : ∀ e, r = .error e → E e s t) :
    Twins lost (Exec.ofExcept r) (Exec.ofExcept r) Q E s t := by
  cases r with
  | ok a => exact .returned a a s t rfl rfl (hQ a rfl)
  | error e => exact .thrown e s t rfl rfl (hE e rfl)

/-- Two sequences, one step each. -/
theorem Twins.bind {f f' : α → Exec ε σ β} {R : β → β → σ → σ → Prop}
    (h : Twins lost m m' Q E s t)
    (hf : ∀ a b s' t', Q a b s' t' → Twins lost (f a) (f' b) R E s' t') :
    Twins lost (m >>= f) (m' >>= f') R E s t := by
  cases h with
  | returned a b s' t' left right post =>
      cases hf a b s' t' post with
      | returned a' b' u v left' right' post' =>
          exact .returned a' b' u v ((bind_apply_ok left).trans left')
            ((bind_apply_ok right).trans right') post'
      | thrown e u v left' right' post' =>
          exact .thrown e u v ((bind_apply_ok left).trans left')
            ((bind_apply_ok right).trans right') post'
      | lostLeft e u left' gone =>
          exact .lostLeft e u ((bind_apply_ok left).trans left') gone
      | lostRight e v right' gone =>
          exact .lostRight e v ((bind_apply_ok right).trans right') gone
  | thrown e s' t' left right post =>
      exact .thrown e s' t' (bind_apply_error left)
        (bind_apply_error right) post
  | lostLeft e s' left gone =>
      exact .lostLeft e s' (bind_apply_error left) gone
  | lostRight e t' right gone =>
      exact .lostRight e t' (bind_apply_error right) gone

/-- Where a step only changes the point from which the rest runs, the
comparison is one of the rest. -/
theorem Twins.of_eq {n n' : Exec ε σ α} {u v : σ} (h : Twins lost m m' Q E s t)
    (left : n u = m s) (right : n' v = m' t) : Twins lost n n' Q E u v := by
  cases h with
  | returned a b s' t' hm hm' post =>
      exact .returned a b s' t' (left.trans hm) (right.trans hm') post
  | thrown e s' t' hm hm' post =>
      exact .thrown e s' t' (left.trans hm) (right.trans hm') post
  | lostLeft e s' hm gone => exact .lostLeft e s' (left.trans hm) gone
  | lostRight e t' hm' gone => exact .lostRight e t' (right.trans hm') gone

/-- Each side reads its own state. -/
theorem Twins.get {f f' : σ → Exec ε σ α}
    (h : Twins lost (f s) (f' t) Q E s t) :
    Twins lost (MonadState.get >>= f) (MonadState.get >>= f') Q E s t :=
  h.of_eq rfl rfl

/-- Each side writes its own state. -/
theorem Twins.set {f f' : PUnit → Exec ε σ α} {s' t' : σ}
    (h : Twins lost (f ⟨⟩) (f' ⟨⟩) Q E s' t') :
    Twins lost (MonadStateOf.set s' >>= f)
      (MonadStateOf.set t' >>= f') Q E s t :=
  h.of_eq rfl rfl

/-- Each side rewrites its own state. -/
theorem Twins.update {f f' : PUnit → Exec ε σ α} {g g' : σ → σ}
    (h : Twins lost (f ⟨⟩) (f' ⟨⟩) Q E (g s) (g' t)) :
    Twins lost (modify g >>= f) (modify g' >>= f') Q E s t :=
  h.of_eq rfl rfl

/-- Both sides run on a part of the state. -/
theorem Twins.zoom {view : τ → σ} {put : σ → τ → τ} {gone : τ → Prop}
    {R : α → α → τ → τ → Prop} {F : ε → τ → τ → Prop} {u v : τ}
    (h : Twins lost m m' Q E (view u) (view v))
    (hgone : ∀ s, lost s → gone (put s u) ∧ gone (put s v))
    (hQ : ∀ a b s' t', Q a b s' t' → R a b (put s' u) (put t' v))
    (hE : ∀ e s' t', E e s' t' → F e (put s' u) (put t' v)) :
    Twins gone (Exec.zoom view put m) (Exec.zoom view put m') R F u v := by
  cases h with
  | returned a b s' t' left right post =>
      exact .returned a b _ _ (by rw [zoom_apply, left])
        (by rw [zoom_apply, right])
        (hQ _ _ _ _ post)
  | thrown e s' t' left right post =>
      exact .thrown e _ _ (by rw [zoom_apply, left])
        (by rw [zoom_apply, right])
        (hE _ _ _ post)
  | lostLeft e s' left gone =>
      exact .lostLeft e _ (by rw [zoom_apply, left]) (hgone _ gone).1
  | lostRight e t' right gone =>
      exact .lostRight e _ (by rw [zoom_apply, right]) (hgone _ gone).2

/-- Two runs that stay together and agree on what they return. -/
abbrev Together (R : σ → σ → Prop) (m m' : Exec ε σ α) (s t : σ) : Prop :=
  Twins (fun _ => False) m m' (fun a b s' t' => a = b ∧ R s' t')
    (fun _ => R) s t

/-- One pure outcome on both sides. -/
theorem Together.ofExcept {R : σ → σ → Prop} {r r' : Except ε α} (hr : r' = r)
    (h : R s t) : Together R (Exec.ofExcept r) (Exec.ofExcept r') s t := by
  subst hr
  exact Twins.ofExcept (fun _ _ => ⟨rfl, h⟩) fun _ _ => h

/-- What stays together has one outcome. -/
theorem Together.outcome {R : σ → σ → Prop} (h : Together R m m' s t) :
    (m s).1 = (m' t).1 ∧ R (m s).2 (m' t).2 := by
  cases h with
  | returned a b s' t' left right post =>
      obtain ⟨rfl, hR⟩ := post
      rw [left, right]
      exact ⟨rfl, hR⟩
  | thrown e s' t' left right post =>
      rw [left, right]
      exact ⟨rfl, post⟩
  | lostLeft e s' left gone => exact gone.elim
  | lostRight e t' right gone => exact gone.elim

/-- What stays together is never lost. -/
theorem Together.twins {R : σ → σ → Prop} (h : Together R m m' s t)
    (hQ : ∀ a s' t', R s' t' → Q a a s' t')
    (hE : ∀ e s' t', R s' t' → E e s' t') : Twins lost m m' Q E s t :=
  h.mono (fun _ hu => hu.elim)
    (fun a b s' t' hab => by
      obtain ⟨rfl, hR⟩ := hab
      exact hQ a s' t' hR)
    hE

/-- What stays together is one step of a comparison. -/
theorem Together.andThen {R : σ → σ → Prop} {f f' : α → Exec ε σ β}
    {Q : β → β → σ → σ → Prop} (h : Together R m m' s t)
    (hE : ∀ e s' t', R s' t' → E e s' t')
    (hf : ∀ a s' t', R s' t' → Twins lost (f a) (f' a) Q E s' t') :
    Twins lost (m >>= f) (m' >>= f') Q E s t :=
  (h.twins (Q := fun a b s' t' => a = b ∧ R s' t') (fun _ _ _ hR => ⟨rfl, hR⟩)
    hE).bind fun a b s' t' hab => by
      obtain ⟨rfl, hR⟩ := hab
      exact hf a s' t' hR

end Exec

-- ============================================================ unknown code

namespace Caller

variable {ι ο ε ρ σ : Type}

/-- Code that calls back and ends alike, up to `V` on what it returns. -/
inductive Echo (V : ρ → ρ → Prop) : Caller ι ο ε ρ → Caller ι ο ε ρ → Prop
  | done (r r' : ρ) (h : V r r') : Echo V (.done r) (.done r')
  | fail (e : ε) : Echo V (.fail e) (.fail e)
  | call (x : ι) (resume resume' : Except ε ο → Caller ι ο ε ρ)
      (h : ∀ answer, Echo V (resume answer) (resume' answer)) :
      Echo V (.call x resume) (.call x resume')

/-- Code echoes itself. -/
theorem Echo.refl {V : ρ → ρ → Prop} (hV : ∀ r, V r r) :
    ∀ k : Caller ι ο ε ρ, Echo V k k := by
  intro k
  induction k with
  | done r => exact .done r r (hV r)
  | fail e => exact .fail e
  | call x resume ih => exact .call x resume resume ih

/-- Callbacks that stay together keep the code that calls them together. -/
theorem Echo.run {V : ρ → ρ → Prop} {R : σ → σ → Prop} (f f' : ι → Exec ε σ ο)
    (hcall : ∀ x s t, R s t → Exec.Together R (f x) (f' x) s t)
    {k k' : Caller ι ο ε ρ} (h : Echo V k k') :
    ∀ s t, R s t → Exec.Twins (fun _ => False) (k.run f) (k'.run f')
      (fun a b s' t' => V a b ∧ R s' t') (fun _ => R) s t := by
  induction h with
  | done r r' h => exact fun s t hR => .returned r r' s t rfl rfl ⟨h, hR⟩
  | fail e => exact fun s t hR => .thrown e s t rfl rfl hR
  | call x resume resume' h ih =>
      intro s t hR
      obtain ⟨hanswer, hR'⟩ := (hcall x s t hR).outcome
      have hrest := ih (f x s).1 _ _ hR'
      -- the answers agree, so both sides resume at the same place
      cases hrest with
      | returned a b s' t' left right post =>
          exact .returned a b s' t' left
            (by rw [hanswer] at right; exact right) post
      | thrown e s' t' left right post =>
          exact .thrown e s' t' left
            (by rw [hanswer] at right; exact right) post
      | lostLeft e s' left gone => exact gone.elim
      | lostRight e t' right gone => exact gone.elim

end Caller

end LocalLLM
