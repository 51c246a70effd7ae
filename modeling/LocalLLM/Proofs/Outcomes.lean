/-
What a client of the service may rely on when its request has settled, in
any run and whatever the runtime, the consumer and the cancellation do.

A request that the worker runs ends by `generate_spec` or `converse_spec`;
one that the scheduler refuses ends by `rejected`, which touches nothing.
An exception that carries the code `None` is a failure without an error
code: the result reports no error, and nothing is committed. So success is
`succeeded`, and the code alone is not enough.
-/
import LocalLLM.Proofs.Worker

namespace LocalLLM

open ModelManager

variable {c : Config}

/-- A refusal is reported like any other result. -/
theorem rejected_reported (requestId sessionId : QString)
    (callback : Option StreamCallback) (error : Error) :
    Reported callback requestId sessionId
        (rejected requestId sessionId callback error)
      ∧ ¬ (rejected requestId sessionId callback error).result.succeeded := by
  refine ⟨?_, not_succeeded_failure _ _⟩
  cases callback with
  | none =>
      refine ⟨fun hs => ?_, fun hs => ?_, fun _ => rfl⟩
      · cases hs
      · cases hs
  | some throwsOn =>
      refine ⟨fun _ => rfl, fun _ => ⟨[], rfl, by simp⟩, fun hn => ?_⟩
      cases hn

-- ==================================================================== chats

/-- **Every chat and every completion of every run is atomic, and
reported.** A chat that succeeds has added the prompt and its answer to the
trimmed history, one that does not has added nothing, and the callback has
every text once and the result last. The same holds of a request that was
rejected before it ran. -/
theorem generation_atomic (hc : c.Honest) (requests : List (Env × Request))
    (env : Env) (requestId : QString) (request : ChatRequest)
    (completion : Option CompletionRequest)
    (callback : Option StreamCallback) :
    let s := serveAll c {} requests
    (∃ o s', generate c env requestId request completion callback s
      = (.ok o, s')
      ∧ Atomic c env s s' request o completion
      ∧ Reported callback requestId request.sessionId o)
      ∧ ∀ error, Reported callback requestId request.sessionId
          (rejected requestId request.sessionId callback error)
        ∧ ¬ (rejected requestId request.sessionId callback
          error).result.succeeded := by
  intro s
  have hidle := serveAll_idle hc requests (idle_start c)
  obtain ⟨o, s', hrun, -, -, -, hreported, hatomic⟩ :=
    generate_spec hc hidle.sound hidle.observed env requestId
      request completion
      callback
  exact ⟨⟨o, s', hrun, hatomic, hreported⟩, rejected_reported _ _ _⟩

/-- A chat that commits. -/
theorem chat_commits :
    let s := serveAll Sample.config {} Sample.opened
    let o := (generate Sample.config {} (qs "request") Sample.chat
      none none s).1
    (o.toOption.map fun o => o.result.text) = some (qs "hi")
      ∧ ∃ o s', generate Sample.config {}
          (qs "request") Sample.chat none none s
          = (.ok o, s')
        ∧ ChatAtomic Sample.config {} s s' Sample.chat o :=
  ⟨by decide +kernel,
    have ⟨o, s', hrun, hatomic, _⟩ := (generation_atomic Sample.honest
      Sample.opened {} (qs "request") Sample.chat none none).1
    ⟨o, s', hrun, hatomic⟩⟩

/-- A runtime that throws an error of code `None`: the result carries no
error code, and the session has no new message. -/
theorem error_without_code_commits_nothing :
    let s := serveAll Sample.config {} Sample.refused
    let outcome :=
      generate Sample.config {} (qs "request") Sample.chat none none s
    (outcome.1.toOption.map fun o => o.result.errorCode) = some .None
      ∧ (outcome.2.sessions.sessions[Sample.uuid 0]?.map fun session =>
        session.messages) = some [] := by
  decide +kernel

-- ============================================================ conversations

/-- **The calls of every conversation of every run are safe to execute**, and
none comes from a generation that was cut off. Each names a tool of the request
and has an object for its arguments, their ids are distinct and new, and a
failure carries none. -/
theorem conversation_executor_safe (hc : c.Honest)
    (requests : List (Env × Request)) (env : Env) (requestId : QString)
    (request : ConversationRequest) (callback : Option StreamCallback) :
    let s := serveAll c {} requests
    ∃ o s', converse c env requestId request callback s = (.ok o, s')
      ∧ ExecutorSafe c request o.result
      ∧ (Overran c env callback request (converseStart requestId request s) →
        o.result.errorCode ≠ .None) := by
  intro s
  have hidle := serveAll_idle hc requests (idle_start c)
  obtain ⟨o, s', hrun, -, -, -, -, -, hsafe, -, hover⟩ :=
    converse_spec hc hidle.sound hidle.observed env requestId request callback
  exact ⟨o, s', hrun, hsafe, hover⟩

/-- A conversation with a call. -/
theorem conversation_with_call :
    let s := serveAll Sample.config {} Sample.called
    let outcome := (converse Sample.config {}
      (qs "request") Sample.conversation
      none s).1
    (outcome.toOption.map fun o => o.result.toolCalls.length) = some 1
      ∧ ∃ o s', converse Sample.config {}
          (qs "request") Sample.conversation none s
          = (.ok o, s')
        ∧ ExecutorSafe Sample.config Sample.conversation o.result :=
  ⟨by decide +kernel,
    have ⟨o, s', hrun, hsafe, _⟩ := conversation_executor_safe Sample.honest
      Sample.called {} (qs "request") Sample.conversation none
    ⟨o, s', hrun, hsafe⟩⟩

/-- A runtime that throws an error of code `None`: no call, although one is
required, and no error code either. -/
theorem error_without_code_calls_nothing :
    let outcome := converse Sample.config {} (qs "request") Sample.conversation
      none (serveAll Sample.config {} Sample.refused)
    Sample.conversation.toolChoice = qs "required"
      ∧ (outcome.1.toOption.map fun o => o.result.errorCode) = some .None
      ∧ (outcome.1.toOption.map fun o => o.result.toolCalls) = some [] := by
  decide +kernel

end LocalLLM
