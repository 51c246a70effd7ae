/-
One computation that does what another did.

`follows m m' Q s t` says: where `m` returns from `s`, `m'` returns from
`t`, and `Q` relates what they return and the states they reach. Of a run
of `m` that throws it says nothing, so `m` may fail where `m'` does not.

There is one rule for each way to build a computation, as for `wp`, and a
rule of consequence. `follows_bind_left` is for a step that only the first
computation takes.
-/
import LocalLLM.Lib.Exec

namespace LocalLLM.Exec

variable {ε σ τ α β γ δ : Type}

/-- Where `m` returns from `s`, `m'` returns from `t`, and `Q` relates the
two ends. -/
def follows (m : Exec ε σ α) (m' : Exec ε τ β) (Q : α → β → σ → τ → Prop)
    (s : σ) (t : τ) : Prop :=
  ∀ a s', m s = (.ok a, s') → ∃ b t', m' t = (.ok b, t') ∧ Q a b s' t'

variable {Q Q' : α → β → σ → τ → Prop} {s : σ} {t : τ}

/-- The rule of consequence. -/
theorem follows_mono {m : Exec ε σ α} {m' : Exec ε τ β}
    (h : follows m m' Q s t) (hQ : ∀ a b s t, Q a b s t → Q' a b s t) :
    follows m m' Q' s t := by
  intro a s' hm
  obtain ⟨b, t', hm', hq⟩ := h a s' hm
  exact ⟨b, t', hm', hQ a b s' t' hq⟩

theorem follows_pure {a : α} {b : β} (h : Q a b s t) :
    follows (pure a : Exec ε σ α) (pure b : Exec ε τ β) Q s t := by
  intro a' s' hm
  cases hm
  exact ⟨b, t, rfl, h⟩

/-- After a throw there is nothing to follow. -/
theorem follows_throw {e : ε} {m' : Exec ε τ β} :
    follows (throw e : Exec ε σ α) m' Q s t := by
  intro a s' hm
  cases hm

/-- A sequence is followed step by step. -/
theorem follows_bind {m : Exec ε σ α} {m' : Exec ε τ β} {f : α → Exec ε σ γ}
    {f' : β → Exec ε τ δ} {R : γ → δ → σ → τ → Prop}
    (h : follows m m' (fun a b s t => follows (f a) (f' b) R s t) s t) :
    follows (m >>= f) (m' >>= f') R s t := by
  intro c s'' hm
  rw [bind_apply] at hm
  cases hms : m s with
  | mk r s' =>
      rw [hms] at hm
      cases r with
      | error e => cases hm
      | ok a =>
          obtain ⟨b, t', hm', hf⟩ := h a s' hms
          obtain ⟨d, t'', hd, hR⟩ := hf c s'' hm
          exact ⟨d, t'', (bind_apply_ok hm').trans hd, hR⟩

/-- A sequence whose first step is known is followed where its rest is. -/
theorem follows_bind_left {m : Exec ε σ α} {m' : Exec ε τ δ}
    {f : α → Exec ε σ γ} {R : γ → δ → σ → τ → Prop}
    (h : wp m (fun a s' => follows (f a) m' R s' t) (fun _ _ => True) s) :
    follows (m >>= f) m' R s t := by
  intro c s'' hm
  rw [bind_apply] at hm
  cases hms : m s with
  | mk r s' =>
      rw [hms] at hm
      cases r with
      | error e => cases hm
      | ok a => exact wp_ok h hms c s'' hm

/-- The outcome of a pure step is the same from any state. -/
theorem follows_ofExcept {r : Except ε α} {P : α → α → σ → τ → Prop}
    (h : ∀ a, r = .ok a → P a a s t) :
    follows (ofExcept r : Exec ε σ α) (ofExcept r : Exec ε τ α) P s t := by
  intro a s' hm
  cases hm
  exact ⟨a, t, rfl, h a rfl⟩

theorem follows_set {s₁ : σ} {t₁ : τ} {P : PUnit → PUnit → σ → τ → Prop}
    (h : P ⟨⟩ ⟨⟩ s₁ t₁) :
    follows (set s₁ : Exec ε σ PUnit) (set t₁ : Exec ε τ PUnit) P s t := by
  intro a s' hm
  cases hm
  exact ⟨⟨⟩, t₁, rfl, h⟩

theorem follows_modify {f : σ → σ} {g : τ → τ}
    {P : PUnit → PUnit → σ → τ → Prop} (h : P ⟨⟩ ⟨⟩ (f s) (g t)) :
    follows (modify f : Exec ε σ PUnit) (modify g : Exec ε τ PUnit) P s t := by
  intro a s' hm
  cases hm
  exact ⟨⟨⟩, g t, rfl, h⟩

/-- Both sides look at their own state. -/
theorem follows_get_bind {f : σ → Exec ε σ γ} {f' : τ → Exec ε τ δ}
    {R : γ → δ → σ → τ → Prop} (h : follows (f s) (f' t) R s t) :
    follows (get >>= f) (get >>= f') R s t :=
  h

theorem follows_ite {p : Prop} [Decidable p] {m₁ m₂ : Exec ε σ α}
    {n₁ n₂ : Exec ε τ β} (h₁ : p → follows m₁ n₁ Q s t)
    (h₂ : ¬ p → follows m₂ n₂ Q s t) :
    follows (if p then m₁ else m₂) (if p then n₁ else n₂) Q s t := by
  by_cases h : p
  · rw [if_pos h, if_pos h]
    exact h₁ h
  · rw [if_neg h, if_neg h]
    exact h₂ h

end LocalLLM.Exec
