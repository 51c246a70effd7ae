/-
The prompt engine and the stop filter (`service/Managers.cpp`).

`prepare` checks a chat request and drops the oldest turns of the history
until the prompt fits the context. `StopFilter` cuts generated text at the
first stop string; it holds back what may turn out to be the beginning of
one, and never half of a surrogate pair.
-/
import LocalLLM.Service.RuntimeManager

namespace LocalLLM

structure PreparedChat where
  messages : List ChatMessage
  tokens : TokenList
  droppedMessages : Int := 0

namespace PromptEngine

/-- `QList::remove(firstTurn, 2)`. -/
def dropTurn (firstTurn : Nat) (messages : List ChatMessage) :
    List ChatMessage :=
  messages.take firstTurn ++ messages.drop (firstTurn + 2)

/-- The loop of `prepare`. A turn that does not return drops two
messages, and the last two are never dropped, so there are fewer turns
than messages. -/
def fit (env : Env) (model : LoadedModel) (maxTokens : Int) (firstTurn : Nat) :
    Nat → List ChatMessage → Int → Except Exn PreparedChat
  | 0, _, _ => .error .unknown
  | turns + 1, messages, dropped => do
      env.throwIfCancelled (.prepare turns)
      let tokens ← model.runtime.tokenize env.probe messages
      require (tokens ≠ []) .RuntimeFailure
        "Tokenizer returned an empty prompt"
      if (tokens.length : Int) ≤ model.spec.contextTokens - maxTokens then
        return ⟨messages, tokens, dropped⟩
      else
        require (firstTurn + 2 < messages.length) .ContextOverflow
          "System prompt and newest turn do not fit the context with reserved output tokens"
        fit env model maxTokens firstTurn turns (dropTurn firstTurn messages)
          (dropped + 2)

/-- The position of the oldest turn: after a system message. -/
def firstTurn : List ChatMessage → Nat
  | front :: _ => if front.role = .System then 1 else 0
  | [] => 0

/-- `prepare`. -/
def prepare (c : Config) (env : Env) (session : SessionSnapshot)
    (request : ChatRequest) (model : LoadedModel) :
    Except Exn PreparedChat := do
  let o := request.options
  require (QString.trimmed request.prompt ≠ []
      ∧ (request.prompt.length : Int) ≤ c.maxInputCharacters) .InvalidArgument
    "Prompt is empty or exceeds input limit"
  c.validateGenerationOptions o
  require (0 < o.maxTokens ∧ o.maxTokens < model.spec.contextTokens
      ∧ o.temperature.isFinite = true
      ∧ Double.le (.finite 0) o.temperature = true
      ∧ Double.le o.temperature (.finite 10) = true
      ∧ o.topP.isFinite = true ∧ Double.lt (.finite 0) o.topP = true
      ∧ Double.le o.topP (.finite 1) = true ∧ 0 ≤ o.topK
      ∧ o.stop.length ≤ 16) .InvalidArgument "Invalid generation options"
  require (∀ stop ∈ o.stop, stop ≠ [] ∧ stop.length ≤ 1024) .InvalidArgument
    "Invalid stop string"
  let messages := session.messages
    ++ [{ role := .User, content := request.prompt }]
  fit env model o.maxTokens (firstTurn messages) messages.length messages 0

-- =================================================== what a prompt is made of

/-- The history a turn starts from, less the first `n` messages after the
system message, and the new prompt. -/
def trimmedHistory (messages : List ChatMessage) (n : Nat) :
    List ChatMessage :=
  messages.take (firstTurn messages)
    ++ (messages.drop (firstTurn messages)).drop n

theorem firstTurn_le (messages : List ChatMessage) :
    firstTurn messages ≤ messages.length := by
  cases messages with
  | nil => exact Nat.zero_le _
  | cons front rest =>
      show (if front.role = .System then 1 else 0) ≤ rest.length + 1
      split <;> omega

/-- The loop only drops whole turns from the front, keeps the last message
and counts what it drops. -/
theorem fit_spec {env : Env} {model : LoadedModel} {maxTokens : Int}
    {f : Nat} :
    ∀ (turns : Nat) (head body : List ChatMessage) (last : ChatMessage)
      (dropped : Int) (p : PreparedChat), head.length = f →
    fit env model maxTokens f turns (head ++ body ++ [last]) dropped = .ok p →
    ∃ k, 2 * k ≤ body.length ∧ p.messages = head ++ body.drop (2 * k) ++ [last]
      ∧ p.droppedMessages = dropped + (2 * k : Nat)
      ∧ p.tokens ≠ []
      ∧ model.runtime.tokenize env.probe p.messages = .ok p.tokens := by
  intro turns
  induction turns with
  | zero => intro head body last dropped p _ h; cases h
  | succ turns ih =>
      intro head body last dropped p hhead h
      unfold fit at h
      obtain ⟨_, -, h⟩ := bind_eq_ok.1 h
      obtain ⟨tokens, htokens, h⟩ := bind_eq_ok.1 h
      obtain ⟨_, hne, h⟩ := bind_eq_ok.1 h
      rw [require_eq_ok] at hne
      split at h
      case isTrue =>
        injection h with h
        subst h
        exact ⟨0, by omega, by simp, by simp, hne, htokens⟩
      case isFalse =>
        obtain ⟨_, hroom, h⟩ := bind_eq_ok.1 h
        rw [require_eq_ok] at hroom
        simp only [List.length_append, List.length_singleton] at hroom
        have hdrop : dropTurn f (head ++ body ++ [last])
            = head ++ body.drop 2 ++ [last] := by
          unfold dropTurn
          rw [List.append_assoc, ← hhead, List.take_left,
            ← List.drop_drop, List.drop_left,
            List.drop_append_of_le_length (by omega), List.append_assoc]
        rw [hdrop] at h
        obtain ⟨k, hk, hmsgs, hcount, htok⟩ := ih _ _ _ _ _ hhead h
        rw [List.length_drop] at hk
        refine ⟨k + 1, by omega, ?_, by rw [hcount]; push_cast; ring, htok⟩
        rw [hmsgs, List.drop_drop]
        congr 3
        omega

/-- A prepared prompt is the history with some of its oldest turns
dropped, and the new user message at the end. -/
theorem prepare_spec {c : Config} {env : Env} {session : SessionSnapshot}
    {request : ChatRequest} {model : LoadedModel} {p : PreparedChat}
    (h : prepare c env session request model = .ok p) :
    ∃ k, p.messages = trimmedHistory session.messages (2 * k)
        ++ [{ role := .User, content := request.prompt }]
      ∧ 2 * k + firstTurn session.messages ≤ session.messages.length
      ∧ p.droppedMessages = (2 * k : Nat) := by
  unfold prepare at h
  obtain ⟨_, -, h⟩ := bind_eq_ok.1 h
  obtain ⟨_, -, h⟩ := bind_eq_ok.1 h
  obtain ⟨_, -, h⟩ := bind_eq_ok.1 h
  obtain ⟨_, -, h⟩ := bind_eq_ok.1 h
  have hle := firstTurn_le session.messages
  -- the new message never moves the oldest turn
  have hfirst : firstTurn (session.messages
      ++ [{ role := .User, content := request.prompt }])
      = firstTurn session.messages := by
    cases session.messages with
    | nil => rfl
    | cons front rest => rfl
  simp only [hfirst] at h
  have htake : (session.messages.take (firstTurn session.messages)).length
      = firstTurn session.messages := by
    rw [List.length_take]
    omega
  obtain ⟨k, hk, hmsgs, hcount, -⟩ := fit_spec _
    (session.messages.take (firstTurn session.messages))
    (session.messages.drop (firstTurn session.messages)) _ 0 p htake
    (by rw [List.take_append_drop]; exact h)
  rw [List.length_drop] at hk
  exact ⟨k, hmsgs, by omega, by rw [hcount]; simp⟩

end PromptEngine

-- ============================================================== stop strings

structure StopFilter where
  stops : List QString := []
  pending : QString := []
  stopped : Bool := false
deriving DecidableEq

namespace StopFilter

/-- The first position at which one of the stop strings occurs. -/
def firstMatch (stops : List QString) (pending : QString) : Option Nat :=
  (stops.filterMap fun stop => QString.indexOf pending stop).min?

/-- The longest proper beginning of a stop string at the end of
what is pending. -/
def heldBy (stops : List QString) (pending : QString) : Nat :=
  (stops.flatMap fun stop => (List.range stop.length).filter fun n =>
    decide (1 ≤ n ∧ n ≤ pending.length)
      && QString.endsWith pending (stop.take n)).foldl max 0

/-- The units that `push` keeps back. -/
def held (stops : List QString) (pending : QString) : Nat :=
  if pending.getLast?.any isHighSurrogate then max (heldBy stops pending) 1
  else heldBy stops pending

/-- `push`: the text to pass on, and the filter after it. -/
def push (f : StopFilter) (text : QString) : QString × StopFilter :=
  if f.stopped then ([], f)
  else
    let pending := f.pending ++ text
    match firstMatch f.stops pending with
    | some pos => (pending.take pos, { f with pending := [], stopped := true })
    | none =>
        let output := pending.take (pending.length - held f.stops pending)
        (output, { f with pending := pending.drop output.length })

/-- `finish`. -/
def finish (f : StopFilter) : QString × StopFilter :=
  (f.pending, { f with pending := [] })

end StopFilter

end LocalLLM
