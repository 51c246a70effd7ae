/-
What `prepare` returns.

The history is a system message, or none, and then whole turns. The prompts
that `prepare` may come to are its candidates: the history less its `k`
oldest turns, and the new user message. They are tried in the order of `k`,
so the first one that fits is the answer. A tokenizer need not count less
when it is given less; that the candidate of all turns is too long says
nothing about the others.
-/
import LocalLLM.Proofs.History

namespace LocalLLM

namespace PromptEngine

-- ============================================================= the candidates

/-- The prompt whose `k` oldest turns are dropped. -/
def candidate (system turns : List ChatMessage) (prompt : QString) (k : Nat) :
    List ChatMessage :=
  system ++ turns.drop (2 * k) ++ [{ role := .User, content := prompt }]

/-- A prompt of these tokens leaves room for the answer. -/
def Fits (model : LoadedModel) (maxTokens : Int) (tokens : TokenList) : Prop :=
  (tokens.length : Int) ≤ model.spec.contextTokens - maxTokens

instance (model : LoadedModel) (maxTokens : Int) (tokens : TokenList) :
    Decidable (Fits model maxTokens tokens) :=
  inferInstanceAs (Decidable (_ ≤ _))

/-- A request that `prepare` has nothing to say against. -/
structure ValidChat (c : Config) (model : LoadedModel)
    (request : ChatRequest) : Prop where
  prompt : QString.trimmed request.prompt ≠ []
    ∧ (request.prompt.length : Int) ≤ c.maxInputCharacters
  options : c.validateGenerationOptions request.options = .ok ()
  bounds : 0 < request.options.maxTokens
    ∧ request.options.maxTokens < model.spec.contextTokens
    ∧ request.options.temperature.isFinite = true
    ∧ Double.le (.finite 0) request.options.temperature = true
    ∧ Double.le request.options.temperature (.finite 10) = true
    ∧ request.options.topP.isFinite = true
    ∧ Double.lt (.finite 0) request.options.topP = true
    ∧ Double.le request.options.topP (.finite 1) = true
    ∧ 0 ≤ request.options.topK ∧ request.options.stop.length ≤ 16
  stops : ∀ stop ∈ request.options.stop, stop ≠ [] ∧ stop.length ≤ 1024

/-- What a prompt that nothing can be dropped from any more is refused with. -/
def overflow : Exn :=
  err .ContextOverflow
    "System prompt and newest turn do not fit the context with reserved output tokens"

theorem candidate_zero (system turns : List ChatMessage) (prompt : QString) :
    candidate system turns prompt 0
      = system ++ turns ++ [{ role := .User, content := prompt }] := rfl

/-- One more turn is dropped from a candidate by dropping a turn
from the history. -/
theorem candidate_succ (system turns : List ChatMessage) (prompt : QString)
    (k : Nat) :
    candidate system turns prompt (k + 1)
      = candidate system (turns.drop 2) prompt k := by
  unfold candidate
  rw [List.drop_drop, show 2 + 2 * k = 2 * (k + 1) by omega]

/-- What the loop drops from a candidate is its oldest turn. -/
theorem dropTurn_candidate (system turns : List ChatMessage) (prompt : QString)
    (hroom : 2 ≤ turns.length) :
    dropTurn system.length (candidate system turns prompt 0)
      = candidate system (turns.drop 2) prompt 0 := by
  rw [candidate_zero, candidate_zero]
  unfold dropTurn
  rw [List.append_assoc, List.take_left, ← List.drop_drop, List.drop_left,
    List.drop_append_of_le_length hroom, List.append_assoc]

-- =================================================================== the loop

section Loop

variable {env : Env} {model : LoadedModel} {maxTokens : Int}
  {tok : List ChatMessage → TokenList}

/-- One turn of the loop: the prompt fits, or its oldest turn
goes, or there is none. -/
theorem fit_step (hlive : ∀ poll, env.cancelled poll = false)
    (htok : ∀ messages, model.runtime.tokenize env.probe messages
      = .ok (tok messages))
    (hne : ∀ messages, tok messages ≠ []) (system turns : List ChatMessage)
    (prompt : QString) (fuel : Nat) (dropped : Int) :
    fit env model maxTokens system.length (fuel + 1)
        (candidate system turns prompt 0) dropped
      = if Fits model maxTokens (tok (candidate system turns prompt 0)) then
          .ok ⟨candidate system turns prompt 0,
            tok (candidate system turns prompt 0), dropped⟩
        else if 2 ≤ turns.length then
          fit env model maxTokens system.length fuel
            (candidate system (turns.drop 2) prompt 0) (dropped + 2)
        else .error overflow := by
  have hthrow : env.throwIfCancelled (.prepare fuel) = .ok () := by
    unfold Env.throwIfCancelled
    rw [if_neg (by rw [hlive]; decide)]
  have hlength : (candidate system turns prompt 0).length
      = system.length + turns.length + 1 := by
    rw [candidate_zero, List.length_append, List.length_append]
    rfl
  show (env.throwIfCancelled (.prepare fuel) >>= fun _ => _) = _
  rw [hthrow, ok_bind, htok, ok_bind]
  unfold require
  rw [if_pos (hne _), ok_bind]
  by_cases hfits :
      Fits model maxTokens (tok (candidate system turns prompt 0))
  · rw [if_pos hfits]
    exact if_pos hfits
  · rw [if_neg hfits]
    refine (if_neg hfits).trans ?_
    by_cases hroom : 2 ≤ turns.length
    · rw [if_pos (by omega), if_pos hroom, ok_bind,
        dropTurn_candidate system turns prompt hroom]
    · rw [if_neg (by omega), if_neg hroom]
      rfl

/-- The first candidate that fits is the answer: all before it were measured
and were too long. -/
theorem fit_first (hlive : ∀ poll, env.cancelled poll = false)
    (htok : ∀ messages, model.runtime.tokenize env.probe messages
      = .ok (tok messages))
    (hne : ∀ messages, tok messages ≠ []) (system : List ChatMessage)
    (prompt : QString) :
    ∀ (k : Nat) (turns : List ChatMessage) (fuel : Nat) (dropped : Int),
    2 * k ≤ turns.length → k < fuel →
    Fits model maxTokens (tok (candidate system turns prompt k)) →
    (∀ j < k, ¬ Fits model maxTokens (tok (candidate system turns prompt j))) →
    fit env model maxTokens system.length fuel
        (candidate system turns prompt 0) dropped
      = .ok ⟨candidate system turns prompt k,
          tok (candidate system turns prompt k), dropped + (2 * k : Nat)⟩ := by
  intro k
  induction k with
  | zero =>
      intro turns fuel dropped _ hfuel hfits _
      obtain ⟨fuel, rfl⟩ : ∃ n, fuel = n + 1 := ⟨fuel - 1, by omega⟩
      rw [fit_step hlive htok hne, if_pos hfits]
      simp
  | succ k ih =>
      intro turns fuel dropped hk hfuel hfits hleast
      obtain ⟨fuel, rfl⟩ : ∃ n, fuel = n + 1 := ⟨fuel - 1, by omega⟩
      rw [fit_step hlive htok hne, if_neg (hleast 0 (by omega)),
        if_pos (by omega), candidate_succ]
      rw [candidate_succ] at hfits
      rw [ih (turns.drop 2) fuel (dropped + 2)
        (by rw [List.length_drop]; omega) (by omega) hfits]
      · congr 2
        push_cast
        ring
      · intro j hj
        rw [← candidate_succ]
        exact hleast (j + 1) (by omega)

/-- When no candidate fits, the prompt is refused, and each candidate was
measured. -/
theorem fit_none (hlive : ∀ poll, env.cancelled poll = false)
    (htok : ∀ messages, model.runtime.tokenize env.probe messages
      = .ok (tok messages))
    (hne : ∀ messages, tok messages ≠ []) (system : List ChatMessage)
    (prompt : QString) :
    ∀ (n : Nat) (turns : List ChatMessage) (fuel : Nat) (dropped : Int),
    turns.length / 2 = n → n < fuel →
    (∀ k ≤ n, ¬ Fits model maxTokens (tok (candidate system turns prompt k))) →
    fit env model maxTokens system.length fuel
        (candidate system turns prompt 0) dropped = .error overflow := by
  intro n
  induction n with
  | zero =>
      intro turns fuel dropped hlength hfuel hnone
      obtain ⟨fuel, rfl⟩ : ∃ n, fuel = n + 1 := ⟨fuel - 1, by omega⟩
      rw [fit_step hlive htok hne, if_neg (hnone 0 (by omega)),
        if_neg (by omega)]
  | succ n ih =>
      intro turns fuel dropped hlength hfuel hnone
      obtain ⟨fuel, rfl⟩ : ∃ n, fuel = n + 1 := ⟨fuel - 1, by omega⟩
      rw [fit_step hlive htok hne, if_neg (hnone 0 (by omega)),
        if_pos (by omega)]
      apply ih (turns.drop 2) fuel (dropped + 2)
        (by rw [List.length_drop]; omega) (by omega)
      intro k hk
      rw [← candidate_succ]
      exact hnone (k + 1) (by omega)

end Loop

-- ================================================================= the answer

/-- A valid request comes to the loop. -/
theorem prepare_valid {c : Config} {env : Env} {session : SessionSnapshot}
    {request : ChatRequest} {model : LoadedModel}
    {system turns : List ChatMessage} (hvalid : ValidChat c model request)
    (hsession : session.messages = system ++ turns)
    (hsystem : Preamble system) (hturns : Turns turns) :
    prepare c env session request model
      = fit env model request.options.maxTokens system.length
          (system.length + turns.length + 1)
          (candidate system turns request.prompt 0) 0 := by
  have hfirst := (firstTurn_append hsystem hturns
    { role := .User, content := request.prompt } (by simp)).1
  unfold prepare require
  dsimp only
  rw [if_pos hvalid.prompt, ok_bind, hvalid.options, ok_bind,
    if_pos hvalid.bounds, ok_bind, if_pos hvalid.stops, ok_bind, hsession,
    hfirst, ← candidate_zero]
  congr 1
  rw [candidate_zero, List.length_append, List.length_append]
  rfl

/-- For every history of whole turns, every valid request and every
tokenizer, the answer of `prepare` is the first candidate that fits, with
its tokens and the number of messages that it lacks; and it is refused for
want of room exactly when no candidate fits. -/
theorem prepare_first_candidate {c : Config} {env : Env}
    {session : SessionSnapshot} {request : ChatRequest} {model : LoadedModel}
    {system turns : List ChatMessage} {tok : List ChatMessage → TokenList}
    (hsession : session.messages = system ++ turns)
    (hsystem : Preamble system) (hturns : Turns turns)
    (hvalid : ValidChat c model request)
    (hlive : ∀ poll, env.cancelled poll = false)
    (htok : ∀ messages, model.runtime.tokenize env.probe messages
      = .ok (tok messages))
    (hne : ∀ messages, tok messages ≠ []) :
    (∀ k, 2 * k ≤ turns.length →
      Fits model request.options.maxTokens
        (tok (candidate system turns request.prompt k)) →
      (∀ j < k, ¬ Fits model request.options.maxTokens
        (tok (candidate system turns request.prompt j))) →
      prepare c env session request model
        = .ok ⟨candidate system turns request.prompt k,
            tok (candidate system turns request.prompt k), (2 * k : Nat)⟩)
      ∧ (prepare c env session request model = .error overflow
          ↔ ∀ k, 2 * k ≤ turns.length →
            ¬ Fits model request.options.maxTokens
              (tok (candidate system turns request.prompt k))) := by
  have hloop := @prepare_valid c env session request model system turns hvalid
    hsession hsystem hturns
  have hanswer : ∀ k, 2 * k ≤ turns.length →
      Fits model request.options.maxTokens
        (tok (candidate system turns request.prompt k)) →
      (∀ j < k, ¬ Fits model request.options.maxTokens
        (tok (candidate system turns request.prompt j))) →
      prepare c env session request model
        = .ok ⟨candidate system turns request.prompt k,
            tok (candidate system turns request.prompt k), (2 * k : Nat)⟩ := by
    intro k hk hfits hleast
    rw [hloop, fit_first hlive htok hne system request.prompt k turns _ 0 hk
      (by omega) hfits hleast]
    simp
  refine ⟨hanswer, fun herror k => ?_, fun hnone => ?_⟩
  · -- a candidate that fits has a first one before it, which would be returned
    induction k using Nat.strongRecOn with
    | ind k ih =>
        intro hk hfits
        have hok := hanswer k hk hfits fun j hj => ih j hj (by omega)
        rw [herror] at hok
        cases hok
  · rw [hloop]
    exact fit_none hlive htok hne system request.prompt _ turns _ 0 rfl
      (by omega) fun k hk => hnone k (by omega)

end PromptEngine

-- ================================================================ two samples

namespace Sample

open PromptEngine

/-- The sample model loaded with room for five tokens. -/
def small (tok : List ChatMessage → TokenList) : LoadedModel :=
  { spec := { id := qs "tiny", path := qs "tiny.gguf", contextTokens := 5 }
    execution := ⟨qs "sample", {}, [], []⟩
    runtime := { model with tokenize := fun _ messages => .ok (tok messages) }
    serial := 0
    probe := 0 }

/-- A first token, and one for each message. -/
def oneEach (messages : List ChatMessage) : TokenList :=
  1 :: messages.map fun _ => 1

/-- A tokenizer that counts more when there is only the new prompt. -/
def padded (messages : List ChatMessage) : TokenList :=
  if messages.length ≤ 1 then [1, 1, 1, 1] else [1, 1]

def instruction : List ChatMessage :=
  [{ role := .System, content := qs "s" }]

def turn : List ChatMessage :=
  [{ role := .User, content := qs "a" },
    { role := .Assistant, content := qs "b" }]

/-- A chat that reserves two tokens for its answer. -/
def brief : ChatRequest := { chat with options := { maxTokens := 2 } }

theorem turns_turn : Turns turn := .cons rfl rfl .nil

theorem padded_ne_nil (messages : List ChatMessage) :
    padded messages ≠ [] := by
  unfold padded
  split <;> simp

theorem brief_valid (tok : List ChatMessage → TokenList) :
    ValidChat config (small tok) brief where
  prompt := by decide +kernel
  options := rfl
  bounds := ⟨by decide, by show (2 : Int) < 5; decide, by decide +kernel⟩
  stops := by decide

end Sample

/-- The sample history is one turn too long. -/
theorem prepare_first_candidate_brief :
    PromptEngine.prepare Sample.config {}
        ⟨[], [], Sample.instruction ++ Sample.turn⟩ Sample.brief
        (Sample.small Sample.oneEach)
      = .ok ⟨PromptEngine.candidate Sample.instruction Sample.turn
          Sample.brief.prompt 1, [1, 1, 1], 2⟩ :=
  (@PromptEngine.prepare_first_candidate Sample.config {}
    ⟨[], [], Sample.instruction ++ Sample.turn⟩ Sample.brief
    (Sample.small Sample.oneEach) Sample.instruction Sample.turn Sample.oneEach
    rfl (Or.inr ⟨_, rfl, rfl⟩) Sample.turns_turn
    (Sample.brief_valid Sample.oneEach) (fun _ => rfl) (fun _ => rfl)
    (fun _ => List.cons_ne_nil _ _)).1 1 (by decide) (by decide) (by decide)

/-- A prompt may fit although it does not when all old turns are dropped:
the refusal is not decided by the shortest candidate alone. -/
theorem prepare_longer_candidate :
    ¬ ∀ (c : Config) (env : Env) (session : SessionSnapshot)
      (request : ChatRequest) (model : LoadedModel)
      (system turns : List ChatMessage) (tok : List ChatMessage → TokenList),
      session.messages = system ++ turns → Preamble system → Turns turns →
      PromptEngine.ValidChat c model request →
      (∀ poll, env.cancelled poll = false) →
      (∀ messages, model.runtime.tokenize env.probe messages
        = .ok (tok messages)) →
      (∀ messages, tok messages ≠ []) →
      (PromptEngine.prepare c env session request model
          = .error PromptEngine.overflow
        ↔ ¬ PromptEngine.Fits model request.options.maxTokens
            (tok (PromptEngine.candidate system turns request.prompt
              (turns.length / 2)))) := by
  intro h
  have hiff := h Sample.config {} ⟨[], [], Sample.turn⟩ Sample.brief
    (Sample.small Sample.padded) [] Sample.turn Sample.padded rfl (Or.inl rfl)
    Sample.turns_turn (Sample.brief_valid Sample.padded) (fun _ => rfl)
    (fun _ => rfl) Sample.padded_ne_nil
  have hshort := hiff.2 (by decide)
  -- nothing has to be dropped from the whole history
  rw [PromptEngine.prepare_valid (Sample.brief_valid Sample.padded) rfl
    (Or.inl rfl) Sample.turns_turn,
    PromptEngine.fit_first (fun _ => rfl) (fun _ => rfl) Sample.padded_ne_nil
      [] Sample.brief.prompt 0 Sample.turn _ 0 (by decide) (by decide)
      (by decide) (fun j hj => absurd hj (Nat.not_lt_zero j))] at hshort
  cases hshort

end LocalLLM
