/-
A chat over HTTP goes on.

# The client

The server keeps nothing between two requests: a client sends the whole
conversation each time. It takes the body of its last request, puts the
message of the answer behind the messages, and then what it has to say
(`followed`): the results of the calls, in any order, or a text of the user.

# What carries over

A body stays of its kind: no text makes a plain body structured, and nothing
makes a structured one plain. So it is read as before, with more messages
(`Accepted.continued`). What the service checks of the messages it has checked
of the old ones; the reply it has checked itself (`Backed`), and a completion
answers with a text and nothing else (`Voiced`). One turn is
`Accepted.structuredTurn` or `Accepted.plainTurn`, and the induction over the
turns is `dialogue_continues`.
-/
import LocalLLM.Proofs.HttpRequest
import LocalLLM.Proofs.Continuation

namespace LocalLLM

open Json

variable {c : Config} {h : HttpParser} {object : JsonObject}
    {p : ParsedCompletion}

-- ================================================================== the body

namespace HttpParser

/-- The body of the next request. -/
def followed (object : JsonObject) (said : List Json) : JsonObject :=
  insert object (qs "messages") (.array (messagesOf object ++ said))

/-- Reading is message by message, so what was read of a conversation does not
change when more is said behind it. -/
theorem readMessages_append {structured : Bool} {said : List Json}
    {others : List ChatMessage}
    (hsaid : readMessages structured said = .ok others) :
    ∀ {messages : List Json} {texts : List ChatMessage},
    readMessages structured messages = .ok texts →
    readMessages structured (messages ++ said) = .ok (texts ++ others) := by
  intro messages texts hmessages
  cases structured with
  | true =>
      obtain ⟨hpasses, rfl⟩ := readMessages_structured.1 hmessages
      obtain ⟨hpasses', rfl⟩ := readMessages_structured.1 hsaid
      refine readMessages_structured.2 ⟨fun m hm => ?_, rfl⟩
      exact (List.mem_append.1 hm).elim (hpasses m) (hpasses' m)
  | false =>
      exact readMessages_plain.2
        (List.rel_append (readMessages_plain.1 hmessages)
          (readMessages_plain.1 hsaid))

/-- The next body keeps the messages of the one before it, in order, and puts
the new ones behind them. -/
theorem messagesOf_followed (said : List Json) :
    messagesOf (followed object said) = messagesOf object ++ said := by
  unfold messagesOf followed
  rw [lookup_insert_self]
  rfl

/-- Every member but `messages` is carried over, which is why the two bodies
agree on the model, the options and the flags. -/
theorem lookup_followed {key : QString} (hkey : key ≠ qs "messages")
    (said : List Json) :
    lookup (followed object said) key = lookup object key :=
  lookup_insert_ne _ _ hkey

/-- A body stays of its kind: its members are carried over, and what is said
behind it fits the kind that it has. -/
theorem isStructured_followed {said : List Json} {texts : List ChatMessage}
    (hsaid : readMessages (isStructured object) said = .ok texts) :
    isStructured (followed object said) = isStructured object := by
  have htools : toolsOf (followed object said) = toolsOf object := by
    unfold toolsOf
    rw [lookup_followed (by decide)]
  have hchoice : toolChoiceOf (followed object said)
      = toolChoiceOf object := by
    unfold toolChoiceOf
    rw [lookup_followed (by decide)]
  have hmarked : (messagesOf (followed object said)).any marked
      = ((messagesOf object).any marked || said.any marked) := by
    rw [messagesOf_followed, List.any_append]
  cases hkind : isStructured object with
  | true =>
      rw [isStructured_iff] at hkind ⊢
      rw [htools, hchoice, messagesOf_followed]
      refine hkind.imp_right (Or.imp_right ?_)
      rintro ⟨m, hm, hmarked⟩
      exact ⟨m, List.mem_append_left _ hm, hmarked⟩
  | false =>
      rw [hkind] at hsaid
      have hreads : List.Forall₂ (fun m t => marked m = false
          ∧ Reads m t) said texts :=
        (readMessages_plain.1 hsaid).imp fun _ _ hread =>
          ⟨hread.not_marked, hread⟩
      have hplain : said.any marked = false := by
        rw [List.any_eq_false]
        intro m hm
        rw [((List.forall₂_and_left _ _).1 hreads).1 m hm]
        decide
      unfold isStructured at hkind ⊢
      rw [htools, hchoice, hmarked, hplain, Bool.or_false]
      exact hkind

/-- A request with more messages. -/
def more (p : ParsedCompletion) (said : List Json) (texts : List ChatMessage) :
    ParsedCompletion :=
  { p with
    request := { p.request with messages := p.request.messages ++ texts }
    conversation := p.conversation.map fun r => extended r said }

/-- Which of the two requests a body becomes is decided by the body alone,
before any message of it is read. -/
theorem Accepted.isSome_eq (hp : Accepted h object p) :
    p.conversation.isSome = isStructured object := by
  obtain ⟨parallel, -, hconversation⟩ := hp.conversation
  rw [hconversation]
  cases isStructured object <;> rfl

/-- With more messages, a body is read as the request with more messages. All
other members are carried over, so only the messages are read anew. -/
theorem Accepted.continued (hp : Accepted h object p)
    (hg : h.catalog.group? (qs "iiLocalLLM.GenerationOptions")
      = some nativeGroup)
    {said : List Json} {texts : List ChatMessage}
    (hsaid : readMessages p.conversation.isSome said = .ok texts)
    (hcount : (messagesOf object ++ said).length ≤ 4096) :
    Accepted h (followed object said) (more p said texts) := by
  have hother : ∀ {key : QString}, key ≠ qs "messages" →
      lookup (followed object said) key = lookup object key :=
    fun hkey => lookup_followed hkey said
  have hcontains : ∀ {key : QString}, key ≠ qs "messages" →
      contains (followed object said) key = contains object key := by
    intro key hkey
    rw [contains_eq, contains_eq, hother hkey]
  have hboolean : ∀ {key : QString}, key ≠ qs "messages" → ∀ fallback,
      boolean (followed object said) key fallback
        = boolean object key fallback := by
    intro key hkey fallback
    unfold boolean
    rw [hother hkey]
  rw [hp.isSome_eq] at hsaid
  have hkind := isStructured_followed hsaid
  have hchoice : toolChoiceOf (followed object said)
      = toolChoiceOf object := by
    unfold toolChoiceOf
    rw [hother (by decide)]
  obtain ⟨parallel, hparallel, hconversation⟩ := hp.conversation
  obtain ⟨group, hgroup, hoptions⟩ := hp.options
  refine ⟨?_, ?_, hp.named, ?_, ?_, ?_, ?_, ?_, ⟨parallel, ?_, ?_⟩,
    ?_, ?_, ?_, ?_,
    ⟨group, hgroup, ?_⟩, hp.temperature, ?_⟩
  · intro m hm
    rcases mem_insert hm with rfl | hm
    · show qs "messages" ∈ bodyFields
      decide
    · exact hp.fields m hm
  · rw [hother (by decide)]
    exact hp.model
  · rw [hother (by decide)]
    exact hp.lifetime
  · unfold followed
    rw [lookup_insert_self]
    rfl
  · rw [messagesOf_followed]
    exact ⟨List.append_ne_nil_of_left_ne_nil hp.count.1 said, hcount⟩
  · rw [hcontains (by decide), hother (by decide)]
    exact hp.tools
  · rw [hcontains (by decide), hother (by decide), hchoice]
    exact hp.choice
  · rw [hboolean (by decide)]
    exact hparallel
  · rw [hkind]
    show p.conversation.map _ = _
    rw [hconversation]
    cases isStructured object with
    | false => rfl
    | true =>
        have htools : toolsOf (followed object said) = toolsOf object := by
          unfold toolsOf
          rw [hother (by decide)]
        simp only [if_true, Option.map_some]
        unfold extended conversationOf
        rw [messagesOf_followed, hchoice, htools]
        rfl
  · rw [hkind, messagesOf_followed]
    exact readMessages_append hsaid hp.texts
  · rw [hboolean (by decide)]
    exact hp.stream
  · have husage : usageOption (followed object said) p.stream
        = usageOption object p.stream := by
      unfold usageOption
      rw [hother (by decide)]
    exact husage.trans hp.usage
  · rw [hcontains (by decide), hcontains (by decide)]
    exact hp.limit
  · obtain rfl : nativeGroup = group := by
      exact Option.some.inj (hg.symm.trans (group_eq_ok.1 hgroup))
    have hnames : ∀ f ∈ nativeGroup.parameters, f.name ≠ qs "messages" := by
      decide
    rw [generationOf_congr (fun f hf => hother (hnames f hf))
      (hother (by decide))]
    exact hoptions
  · obtain ⟨d, hd⟩ := hp.choices
    refine ⟨d, ?_⟩
    unfold number
    rw [hother (by decide)]
    exact hd

end HttpParser

-- ============================================================== conversations

/-- A step that may do what it likes. -/
theorem Exec.wp_skip {ε σ α β : Type} {m : Exec ε σ α} {f : α → Exec ε σ β}
    {Q : β → σ → Prop} {s : σ}
    (hrest : ∀ a t, Exec.wp (f a) Q (fun _ _ => True) t) :
    Exec.wp (m >>= f) Q (fun _ _ => True) s := by
  rw [Exec.wp_bind]
  exact Exec.wp_mono (Exec.wp_self m s) (fun a t _ => hrest a t)
    fun _ _ _ => trivial

/-- A step that keeps the result of the turn. -/
theorem wp_kept {α β : Type} {m : TurnM α} {f : α → TurnM β}
    {Q : β → Turn → Prop} {t : Turn}
    (hm : Exec.wp m (fun _ t' => t'.result = t.result) (fun _ _ => True) t)
    (hrest : ∀ a t', t'.result = t.result →
      Exec.wp (f a) Q (fun _ _ => True) t') :
    Exec.wp (m >>= f) Q (fun _ _ => True) t := by
  rw [Exec.wp_bind]
  exact Exec.wp_mono hm hrest fun _ _ _ => trivial

/-- A check that throws ends the turn; one that passes leaves the
result as it was. -/
theorem lift_result {α : Type} (r : Except Exn α) (t : Turn) :
    Exec.wp (Turn.lift r) (fun _ t' => t'.result = t.result)
      (fun _ _ => True) t :=
  wp_lift.2 ⟨fun _ _ => rfl, fun _ _ => trivial⟩

theorem onState_result {α : Type} (m : Task α) (t : Turn) :
    Exec.wp (Turn.onState m) (fun _ t' => t'.result = t.result)
      (fun _ _ => True) t :=
  wp_onState.2 (Exec.wp_mono (Exec.wp_self m t.state) (fun _ _ _ => rfl)
    fun _ _ _ => trivial)

/-- A callback sees an event. It cannot reach the result of the turn, whether
it returns or throws. -/
theorem notify_keeps (callback : Option StreamCallback)
    (event : StreamEvent) (t : Turn) :
    Exec.wp (Turn.notify callback event) (fun _ t' => t'.result = t.result)
      (fun _ _ => True) t :=
  Exec.wp_mono (notify_result callback event t) (fun _ _ h => h)
    fun _ _ _ => trivial

/-- A result whose text and calls are those of a reply that was checked. -/
structure Backed (c : Config) (request : ConversationRequest)
    (result : GenerationResult) : Prop where
  valid : validateConversationRequest c request c.maxInputCharacters = .ok ()
  reply : ∃ parsed reply s s',
    validateConversationReply c parsed request s = (.ok reply, s')
      ∧ result.text = reply.text ∧ result.reasoning = reply.reasoning
      ∧ result.toolCalls = reply.toolCalls

variable {env : Env} {callback : Option StreamCallback}

/-- Handing on the text of a reply tells the callback about it and writes
nothing into the result. -/
theorem emitReply_result (text : QString) (t : Turn) :
    Exec.wp (emitReply callback text) (fun _ t' => t'.result = t.result)
      (fun _ _ => True) t := by
  unfold emitReply
  rw [Exec.wp_bind, Exec.wp_get, Exec.wp_ite]
  exact ⟨fun _ => notify_keeps _ _ t, fun _ => rfl⟩

theorem dropStopped_result (t : Turn) :
    Exec.wp dropStopped (fun _ t' => t'.result = t.result)
      (fun _ _ => True) t := by
  unfold dropStopped
  rw [Exec.wp_bind, Exec.wp_get, Exec.wp_ite]
  exact ⟨fun _ => rfl, fun _ => rfl⟩

/-- The reply of a turn is checked for its request. -/
theorem converseReply_checked {request : ConversationRequest}
    (hvalid : validateConversationRequest c request c.maxInputCharacters
      = .ok ())
    (model : LoadedModel) (prepared : RuntimeConversationPrompt)
    (generated : RuntimeResult) (t : Turn) :
    Exec.wp (converseReply c env callback request model prepared generated)
      (fun _ t' => Backed c request t'.result) (fun _ _ => True) t := by
  unfold converseReply
  refine Exec.wp_skip fun _ t => Exec.wp_skip fun _ t =>
      Exec.wp_skip fun _ t =>
    Exec.wp_skip fun _ t => Exec.wp_skip fun _ t => Exec.wp_skip fun _ t =>
    Exec.wp_skip fun parsed t => ?_
  rw [Exec.wp_bind, wp_onState]
  refine Exec.wp_mono (Exec.wp_self _ t.state) ?_ fun _ _ _ => trivial
  intro reply s' hreply
  rw [Exec.wp_bind, Exec.wp_modify]
  refine wp_kept (emitReply_result _ _) fun _ t' ht' => ?_
  refine Exec.wp_mono (dropStopped_result t') ?_ fun _ _ _ => trivial
  intro _ t'' ht''
  refine ⟨hvalid, parsed, reply, _, _, hreply, ?_⟩
  rw [ht'', ht']
  exact ⟨rfl, rfl, rfl⟩

/-- A turn that has its model has a request that was checked. -/
theorem converseOpen_checked (request : ConversationRequest) (t : Turn) :
    Exec.wp (converseOpen c env request)
      (fun _ _ => validateConversationRequest c request c.maxInputCharacters
        = .ok ())
      (fun _ _ => True) t := by
  unfold converseOpen
  refine Exec.wp_skip fun _ t => ?_
  rw [Exec.wp_bind, wp_lift]
  refine ⟨fun _ hvalid => ?_, fun _ _ => trivial⟩
  refine Exec.wp_skip fun _ t => Exec.wp_skip fun _ t =>
      Exec.wp_skip fun _ t =>
    Exec.wp_skip fun model t => Exec.wp_skip fun _ t => hvalid

/-- The body of a structured turn ends with a result that the checks of the
native reply have passed. The path that throws owes nothing, since no reply is
then returned. -/
theorem converseBody_checked (request : ConversationRequest) (t : Turn) :
    Exec.wp (converseBody c env callback request)
      (fun _ t' => Backed c request t'.result) (fun _ _ => True) t := by
  unfold converseBody
  rw [Exec.wp_bind]
  refine Exec.wp_mono (converseOpen_checked request t) ?_ fun _ _ _ => trivial
  intro model t hvalid
  exact Exec.wp_skip fun out t => converseReply_checked hvalid _ _ _ t

theorem dropUnnamed_result (request : ConversationRequest) (t : Turn) :
    Exec.wp (dropUnnamed request) (fun _ t' => t'.result = t.result)
      (fun _ _ => True) t := by
  unfold dropUnnamed
  rw [Exec.wp_bind, Exec.wp_get, Exec.wp_ite]
  exact ⟨fun _ => rfl, fun _ => rfl⟩

theorem giveBack_result (t : Turn) :
    Exec.wp (Turn.giveBack c env) (fun _ t' => t'.result = t.result)
      (fun _ _ => True) t := by
  unfold Turn.giveBack
  rw [Exec.wp_bind, Exec.wp_get, Exec.wp_ite]
  exact ⟨fun _ => onState_result _ t, fun _ => rfl⟩

theorem finish_result (t : Turn) :
    Exec.wp (Turn.finish callback) (fun _ t' => t'.result = t.result)
      (fun _ _ => True) t := by
  cases callback with
  | none => exact rfl
  | some throwsOn => exact rfl

/-- A task that settles has run its turn. -/
theorem settle_ok {turn : TurnM Unit} {start : State → Turn} {s s' : State}
    {outcome : Settled} (hrun : settle turn start s = (.ok outcome, s')) :
    ∃ t, turn (start s) = (.ok (), t) ∧ outcome.result = t.result := by
  unfold settle at hrun
  cases hturn : turn (start s) with
  | mk r t =>
      cases r with
      | ok u =>
          rw [hturn] at hrun
          injection hrun with houtcome _
          injection houtcome with houtcome
          exact ⟨t, rfl, houtcome ▸ rfl⟩
      | error e =>
          rw [hturn] at hrun
          injection hrun with herror _
          cases herror

/-- A conversation that succeeds answers with a checked reply. -/
theorem converse_backed {requestId : QString} {request : ConversationRequest}
    {s s' : State} {outcome : Settled}
    (hrun : converse c env requestId request callback s = (.ok outcome, s'))
    (hok : outcome.result.succeeded) : Backed c request outcome.result := by
  obtain ⟨t, hturn, hresult⟩ := settle_ok hrun
  rw [hresult] at hok ⊢
  refine Exec.wp_ok (Q := fun _ t => t.result.succeeded →
    Backed c request t.result)
    (E := fun _ _ => True) ?_ hturn hok
  unfold converseTurn
  rw [Exec.wp_bind]
  refine Exec.wp_mono (Q := fun _ t => t.result.succeeded →
    Backed c request t.result)
    (E := fun _ _ => True) (Exec.wp_tryCatch.2 ?_) ?_ fun _ _ _ => trivial
  · refine Exec.wp_mono (converseBody_checked request _) (fun _ _ h _ => h) ?_
    exact fun e u _ hyes => absurd hyes (not_succeeded_failure _ _)
  · intro _ u hu
    refine wp_kept (dropUnnamed_result request u) fun _ v hv => ?_
    refine wp_kept (giveBack_result v) fun _ w hw => ?_
    refine Exec.wp_mono (finish_result w) (fun _ x hx => ?_)
      fun _ _ _ => trivial
    rw [hx, hw, hv]
    exact hu

-- ================================================================ completions

/-- A turn whose result has a text at most. -/
def Wordy (t : Turn) : Prop := t.result.toolCalls = []
    ∧ t.result.reasoning = []

/-- `Wordy` speaks about the result only, so every step that leaves the result
alone preserves it. -/
theorem Wordy.of_eq {t t' : Turn} (hw : Wordy t)
    (hresult : t'.result = t.result) : Wordy t' := by
  unfold Wordy
  rw [hresult]
  exact hw

/-- The one step that adds to the text of a plain turn adds what the stop
filter let through, also when the callback then throws. -/
theorem emitText_wordy {t : Turn} (hw : Wordy t) (text : QString) :
    Exec.wp (emitText callback text) (fun _ => Wordy) (fun _ => Wordy) t := by
  unfold emitText
  rw [Exec.wp_ite]
  refine ⟨fun _ => hw, fun _ => ?_⟩
  rw [Exec.wp_bind, Exec.wp_get, Exec.wp_bind, Exec.wp_set]
  let longer :
    Turn :=
    { t with result := { t.result with text := t.result.text ++ text } }
  have hlonger : Wordy longer := hw
  exact Exec.wp_mono (notify_result callback _ longer)
    (fun _ _ h => hlonger.of_eq h)
    fun _ _ h => hlonger.of_eq h

theorem onText_wordy {t : Turn} (hw : Wordy t) (text : QString) :
    Exec.wp (onText env callback text) (fun _ => Wordy)
      (fun _ => Wordy) t := by
  unfold onText
  rw [Exec.wp_bind, Exec.wp_get, Exec.wp_bind, Exec.wp_set,
    Exec.wp_bind, wp_lift]
  refine ⟨fun _ _ => ?_, fun _ _ => hw⟩
  rw [Exec.wp_bind, Exec.wp_modify, Exec.wp_bind]
  refine Exec.wp_mono (emitText_wordy ?_ _) (fun _ t' ht' => ?_) fun _ _ h => h
  · exact hw
  · exact ht'

/-- The text of a plain turn is settled when the model has ended: the pieces,
then what the filter still held. -/
theorem generateText_wordy {t : Turn} (hw : Wordy t)
    (session : SessionSnapshot) (model : LoadedModel) :
    Exec.wp (generateText c env callback session model) (fun _ => Wordy)
      (fun _ _ => True) t := by
  unfold generateText
  rw [Exec.wp_bind, Exec.wp_get]
  refine wp_kept (lift_result _ t) fun prepared t₁ h₁ => ?_
  have hw₁ : Wordy t₁ := hw.of_eq h₁
  rw [Exec.wp_bind, Exec.wp_modify]
  refine wp_kept (onState_result _ _) fun context t₂ h₂ => ?_
  refine wp_kept (notify_keeps _ _ t₂) fun _ t₃ h₃ => ?_
  have hw₃ : Wordy t₃ := by
    unfold Wordy
    rw [h₃, h₂]
    exact hw₁
  rw [Exec.wp_bind, Exec.wp_modify, Exec.wp_bind]
  refine Exec.wp_mono (Caller.wp_run (I := Wordy)
    (fun text u hu => onText_wordy hu text)
    _ _ hw₃) ?_ fun _ _ _ => trivial
  intro generated t₄ hw₄
  refine wp_kept (lift_result _ t₄) fun _ t₅ h₅ => ?_
  have hw₅ : Wordy t₅ := hw₄.of_eq h₅
  rw [Exec.wp_bind, Exec.wp_get, Exec.wp_bind, Exec.wp_set, Exec.wp_bind]
  refine Exec.wp_mono (emitText_wordy ?_ _) ?_ fun _ _ _ => trivial
  · exact hw₅
  intro _ t₆ hw₆
  refine wp_kept (lift_result _ t₆) fun _ t₇ h₇ => ?_
  refine wp_kept (lift_result _ t₇) fun _ t₈ h₈ => ?_
  have hw₈ : Wordy t₈ := hw₆.of_eq (h₈.trans h₇)
  rw [Exec.wp_bind, Exec.wp_get, Exec.wp_set]
  exact hw₈

/-- The messages of a completion that the service does not refuse. -/
def Alternating (c : Config) (messages : List ChatMessage) : Prop :=
  (messages.getLast?).map ChatMessage.role = some .User
    ∧ checkTurns c true 0 .User messages = .ok ()

theorem openTemporary_checked {t : Turn} (completion : CompletionRequest) :
    Exec.wp (openTemporary c env completion)
      (fun _ t' => t'.result = t.result ∧ Alternating c completion.messages)
      (fun _ _ => True) t := by
  unfold openTemporary
  rw [Exec.wp_bind, Exec.wp_get]
  refine wp_kept (lift_result _ t) fun _ t₁ h₁ => ?_
  refine wp_kept (lift_result _ t₁) fun _ t₂ h₂ => ?_
  rw [Exec.wp_bind, wp_lift]
  refine ⟨fun _ hlast => ?_, fun _ _ => trivial⟩
  rw [require_eq_ok] at hlast
  rw [Exec.wp_bind, wp_lift]
  refine ⟨fun _ hturns => ?_, fun _ _ => trivial⟩
  refine wp_kept (onState_result _ t₂) fun _ t₃ h₃ => ?_
  rw [Exec.wp_bind, Exec.wp_modify, Exec.wp_bind, Exec.wp_get]
  refine wp_kept (lift_result _ _) fun _ t₄ h₄ => ?_
  rw [Exec.wp_set]
  exact ⟨(h₃.trans h₂).trans h₁, hlast, hturns⟩

/-- A result that is a text, for messages that were checked. -/
structure Voiced (c : Config) (q : CompletionRequest)
    (result : GenerationResult) : Prop where
  checked : Alternating c q.messages
  calls : result.toolCalls = []
  reasoning : result.reasoning = []

/-- A plain turn over a temporary session ends with a reply of text under the
alternation that the next request asks for. -/
theorem generateBody_voiced {t : Turn} (hw : Wordy t) (q : CompletionRequest) :
    Exec.wp (generateBody c env callback (some q))
      (fun _ t' => Voiced c q t'.result) (fun _ _ => True) t := by
  unfold generateBody openCompletion
  refine wp_kept (lift_result _ t) fun _ t₁ h₁ => ?_
  rw [Exec.wp_bind]
  refine Exec.wp_mono (openTemporary_checked q) ?_ fun _ _ _ => trivial
  rintro _ t₂ ⟨h₂, hchecked⟩
  rw [Exec.wp_bind, Exec.wp_get]
  refine wp_kept (lift_result _ t₂) fun session t₃ h₃ => ?_
  refine wp_kept (onState_result _ t₃) fun model t₄ h₄ => ?_
  have hw₄ : Wordy t₄ := by
    unfold Wordy
    rw [h₄, h₃, h₂]
    exact hw.of_eq h₁
  rw [Exec.wp_bind, Exec.wp_modify]
  refine Exec.wp_mono (generateText_wordy ?_ session model) ?_
    fun _ _ _ => trivial
  · exact hw₄
  · exact fun _ t₅ hw₅ => ⟨hchecked, hw₅.1, hw₅.2⟩

theorem closeTemporary_result (t : Turn) :
    Exec.wp closeTemporary (fun _ t' => t'.result = t.result)
      (fun _ _ => True) t := by
  unfold closeTemporary
  rw [Exec.wp_bind, Exec.wp_get, Exec.wp_ite]
  refine ⟨fun _ => ?_, fun _ => rfl⟩
  unfold Turn.eraseContext
  rw [Exec.wp_bind, Exec.wp_modify]
  refine wp_kept (lift_result _ _) fun sessions t' ht' => ?_
  rw [Exec.wp_modify]
  exact ht'

/-- A completion that succeeds answers with a text. -/
theorem generate_voiced {requestId : QString} {q : CompletionRequest}
    {s s' : State} {outcome : Settled}
    (hrun : generate c env requestId {} (some q) callback s
      = (.ok outcome, s'))
    (hok : outcome.result.succeeded) : Voiced c q outcome.result := by
  obtain ⟨t, hturn, hresult⟩ := settle_ok hrun
  rw [hresult] at hok ⊢
  refine Exec.wp_ok (Q := fun _ t => t.result.succeeded → Voiced c q t.result)
    (E := fun _ _ => True) ?_ hturn hok
  unfold generateTurn
  rw [Exec.wp_bind]
  refine Exec.wp_mono (Q := fun _ t => t.result.succeeded →
    Voiced c q t.result)
    (E := fun _ _ => True) (Exec.wp_tryCatch.2 ?_) ?_ fun _ _ _ => trivial
  · refine Exec.wp_mono (generateBody_voiced ⟨rfl, rfl⟩ q)
      (fun _ _ h _ => h) ?_
    exact fun e u _ hyes => absurd hyes (not_succeeded_failure _ _)
  · intro _ u hu
    refine wp_kept (closeTemporary_result u) fun _ v hv => ?_
    refine wp_kept (giveBack_result v) fun _ w hw => ?_
    refine Exec.wp_mono (finish_result w) (fun _ x hx => ?_)
      fun _ _ _ => trivial
    rw [hx, hw, hv]
    exact hu

-- ============================================================== the next turn

/-- A checked reply and what comes behind it make a request that passes. -/
theorem extended_valid {maxCharacters : Int} {r : ConversationRequest}
    {parsed reply : RuntimeConversationReply} {s s' : State} {m : Json}
    {next : List Json}
    (hrequest : validateConversationRequest c r maxCharacters = .ok ())
    (hreply : validateConversationReply c parsed r s = (.ok reply, s'))
    (hm : Answers reply m) (hnext : Continues c maxCharacters reply next)
    (hspeaks : QString.trimmed reply.text ≠ [] ∨ reply.toolCalls ≠ [])
    (hcount : (r.messages ++ m :: next).length ≤ 4096)
    (hsize : ((c.toJson (ofMembers
      [(qs "messages", .array (r.messages ++ m :: next)),
        (qs "tools", .array r.tools),
        (qs "response_schema", .object r.responseSchema)])).length : Int)
          ≤ maxCharacters) :
    validateConversationRequest c (extended r (m :: next)) maxCharacters
      = .ok () := by
  obtain ⟨hadmissible, hwell, hlanguage⟩ :=
    validateConversationRequest_eq_ok.1 hrequest
  have hsafe := (Exec.wp_ok
    (validateConversationReply_spec parsed r s) hreply).2.1
  obtain ⟨hlimit, hchecked⟩ := reply_checked hreply
  have hids : (m :: next).flatMap callIds = reply.toolCalls.map callId := by
    rw [List.flatMap_cons, hnext.callIds_nil, List.append_nil, hm.callIds_eq]
  obtain ⟨last, hlast, hrole⟩ := hnext.last
  refine validateConversationRequest_eq_ok.2 ⟨{ hadmissible with
    count := ⟨hcount, hadmissible.count.2⟩
    size := hsize }, fun v hv => ?_, ?_⟩
  · rcases List.mem_append.1 hv with hv | hv
    · exact hwell v hv
    · rcases List.mem_cons.1 hv with rfl | hv
      · exact hm.wellFormed hchecked hspeaks
      · exact hnext.wellFormed v hv
  · refine hlanguage.append (hnext.turns hm hspeaks hlimit) ?_ ?_ ?_ hrole
    · rw [hids]
      exact hsafe.distinct
    · rw [hids]
      intro id hid
      obtain ⟨call, hcall, rfl⟩ := List.mem_map.1 hid
      exact (hsafe.each call hcall).id_new
    · rw [List.getLast?_cons, hlast]
      rfl

/-- The characters of texts. -/
def characters (messages : List ChatMessage) : Nat :=
  (messages.map fun t => t.content.length).sum

/-- After messages that end with the user, it is the assistant's turn. -/
theorem checkTurns_append (rest : List ChatMessage) :
    ∀ (messages : List ChatMessage)
    (first : Bool) (count : Int) (expected : Role),
    checkTurns c first count expected messages = .ok () →
    (messages.getLast?).map ChatMessage.role = some .User →
    checkTurns c false (count + characters messages) .Assistant rest = .ok () →
    checkTurns c first count expected (messages ++ rest) = .ok () := by
  intro messages
  induction messages with
  | nil =>
      intro first count expected _ hlast
      cases hlast
  | cons m tail ih =>
      intro first count expected hcheck hlast hrest
      have hcount : count + characters (m :: tail)
          = count + m.content.length + characters tail := by
        unfold characters
        rw [List.map_cons, List.sum_cons]
        push_cast
        ring
      rw [hcount] at hrest
      rw [List.cons_append]
      unfold checkTurns at hcheck ⊢
      dsimp only at hcheck ⊢
      obtain ⟨u, hsize, hcheck⟩ := bind_eq_ok.1 hcheck
      refine bind_eq_ok.2 ⟨u, hsize, ?_⟩
      by_cases hsystem : first = true ∧ m.role = .System
      · rw [if_pos hsystem] at hcheck ⊢
        cases tail with
        | nil =>
            have hrole : some m.role = some Role.User := hlast
            rw [hsystem.2] at hrole
            cases hrole
        | cons m' tail' => exact ih _ _ _ hcheck hlast hrest
      · rw [if_neg hsystem] at hcheck ⊢
        obtain ⟨v, hrole, hcheck⟩ := bind_eq_ok.1 hcheck
        refine bind_eq_ok.2 ⟨v, hrole, ?_⟩
        rw [require_eq_ok] at hrole
        cases tail with
        | nil =>
            have hlast : some m.role = some Role.User := hlast
            injection hlast with hlast
            rw [← hrole, if_pos hlast]
            simpa [characters] using hrest
        | cons m' tail' => exact ih _ _ _ hcheck hlast hrest

/-- A text of the assistant and one of the user. -/
theorem Alternating.continued {messages : List ChatMessage}
    {text prompt : QString}
    (hchecked : Alternating c messages) (htext : QString.trimmed text ≠ [])
    (hprompt : QString.trimmed prompt ≠ [])
    (hsize :
      (characters (messages ++ [⟨.Assistant, text⟩, ⟨.User, prompt⟩]) : Int)
      ≤ c.maxInputCharacters) :
    Alternating c (messages ++ [⟨.Assistant, text⟩, ⟨.User, prompt⟩]) := by
  refine ⟨by simp, checkTurns_append _ _ _ _ _ hchecked.2 hchecked.1 ?_⟩
  have hsplit : characters (messages ++ [⟨.Assistant, text⟩, ⟨.User, prompt⟩])
      = characters messages + (text.length + prompt.length) := by
    simp [characters]
  rw [hsplit] at hsize
  have hlast : checkTurns c false (0 + characters messages + text.length) .User
      [⟨.User, prompt⟩] = .ok () := by
    refine bind_eq_ok.2 ⟨(), require_eq_ok.2 ⟨?_, hprompt⟩, ?_⟩
    · show (0 : Int) + characters messages + text.length + prompt.length ≤ _
      omega
    · rw [if_neg (by simp)]
      exact bind_eq_ok.2 ⟨(), require_eq_ok.2 rfl, rfl⟩
  refine bind_eq_ok.2 ⟨(), require_eq_ok.2 ⟨?_, htext⟩, ?_⟩
  · show (0 : Int) + characters messages + text.length ≤ _
    omega
  · rw [if_neg (by simp)]
    exact bind_eq_ok.2 ⟨(), require_eq_ok.2 rfl, hlast⟩

-- =============================================================== the dialogue

namespace HttpParser

/-- The reply a result stands for. -/
def replyOf (result : GenerationResult) : RuntimeConversationReply where
  text := result.text
  reasoning := result.reasoning
  toolCalls := result.toolCalls

/-- An answer that says something. -/
def Speaking (result : GenerationResult) : Prop :=
  QString.trimmed result.text ≠ [] ∨ result.toolCalls ≠ []

/-- What a client may put behind an answer: the results of its calls or a
message of the user, and in a plain body a text. -/
inductive Adds (c : Config) (p : ParsedCompletion)
    (result : GenerationResult) :
    List Json → Prop
  | structured {r : ConversationRequest} {next : List Json}
      (hkind : p.conversation = some r)
      (hnext : Continues c c.maxInputCharacters (replyOf result) next) :
      Adds c p result next
  | plain {prompt : QString} (hkind : p.conversation = none)
      (hprompt : QString.trimmed prompt ≠ []) :
      Adds c p result [textMessage ⟨.User, prompt⟩]

/-- The limit of the service on what it is sent. -/
def Fits (c : Config) (p : ParsedCompletion) : Prop :=
  match p.conversation with
  | some r => ((c.toJson (ofMembers [(qs "messages", .array r.messages),
      (qs "tools", .array r.tools),
      (qs "response_schema", .object r.responseSchema)])).length : Int)
        ≤ c.maxInputCharacters
  | none => (characters p.request.messages : Int) ≤ c.maxInputCharacters

/-- The service does not refuse the request for its messages. -/
def Passable (c : Config) (p : ParsedCompletion) : Prop :=
  match p.conversation with
  | some r => validateConversationRequest c r c.maxInputCharacters = .ok ()
  | none => Alternating c p.request.messages

/-- The message of an answer that is a text. -/
theorem message_text {result : GenerationResult}
    (hcalls : result.toolCalls = []) (hreasoning : result.reasoning = []) :
    Json.object (Completion.message result)
      = textMessage ⟨.Assistant, result.text⟩ := by
  unfold Completion.message textMessage
  dsimp only
  rw [if_pos hcalls, if_pos hreasoning]
  rfl

/-- The message of an answer is one a structured body may have. -/
theorem message_passes (result : GenerationResult) :
    Passes (.object (Completion.message result)) where
  object := rfl
  fields := by
    have hknown : ∀ f ∈ answerFields, f ∈ messageFields := by decide
    exact fun m hm => hknown _ ((message_answers result).fields m hm)

/-- What a task of the worker settles with. -/
theorem settled_of_serve {m : Task Settled} {s s' : State} {outcome : Settled}
    (hserve : (do let o ← m; return Answer.settled o : Task Answer) s
      = (.ok (.settled outcome), s')) : m s = (.ok outcome, s') := by
  rw [Exec.bind_apply] at hserve
  cases hm : m s with
  | mk r t =>
      rw [hm] at hserve
      cases r with
      | ok o =>
          injection hserve with hsettled hstate
          injection hsettled with hsettled
          injection hsettled with hsettled
          rw [hsettled, hstate]
      | error e =>
          injection hserve with herror _
          cases herror

/-- What a structured request hands to the runtime is the `messages` of its
body, unread. -/
theorem Accepted.messages_eq (hp : Accepted h object p)
    {r : ConversationRequest}
    (hkind : p.conversation = some r) : r.messages = messagesOf object := by
  obtain ⟨parallel, -, hconversation⟩ := hp.conversation
  rw [hkind] at hconversation
  split at hconversation
  · injection hconversation with hconversation
    rw [hconversation]
    rfl
  · cases hconversation

variable {env : Env} {requestId : QString} {callback : StreamCallback}
    {s s' : State}
  {outcome : Settled} {next said : List Json}

/-- One turn of a structured conversation. The checked reply is what the next
body carries, as the endpoint has worded it. -/
theorem Accepted.structuredTurn (hp : Accepted h object p)
    (hg : h.catalog.group? (qs "iiLocalLLM.GenerationOptions")
      = some nativeGroup)
    {r : ConversationRequest} (hkind : p.conversation = some r)
    (hserve : serve c env (p.task requestId callback) s
      = (.ok (.settled outcome), s'))
    (hok : outcome.result.succeeded) (hspeaks : Speaking outcome.result)
    (hnext : Continues c c.maxInputCharacters (replyOf outcome.result) next)
    (hsaid : said = .object (Completion.message outcome.result) :: next)
    (hcount : (messagesOf object ++ said).length ≤ 4096)
    (hfits : ∀ q, h.parseObject (followed object said) = .ok q → Fits c q) :
    ∃ texts, readMessages p.conversation.isSome said = .ok texts
      ∧ Accepted h (followed object said) (more p said texts)
      ∧ Passable c (more p said texts) := by
  have hpasses : readMessages p.conversation.isSome said = .ok [] := by
    rw [hkind, hsaid]
    refine readMessages_structured.2 ⟨List.forall_mem_cons.2
      ⟨message_passes _, fun m hm => ?_⟩, rfl⟩
    have hwell := hnext.wellFormed m hm
    exact ⟨hwell.object, hwell.fields⟩
  have hnew := hp.continued hg hpasses hcount
  have hsize := hfits _ (parseObject_eq_ok.2 hnew)
  refine ⟨[], hpasses, hnew, ?_⟩
  unfold ParsedCompletion.task at hserve
  rw [hkind] at hserve
  obtain ⟨hvalid, parsed, reply, t, t', hreply, htext, hreasoning, hcalls⟩ :=
    converse_backed (settled_of_serve hserve) hok
  have hsame : reply = replyOf outcome.result := by
    unfold replyOf
    rw [htext, hreasoning, hcalls]
  have hmore : (more p said []).conversation = some (extended r said) := by
    unfold more
    rw [hkind]
    rfl
  unfold Fits at hsize
  unfold Passable
  rw [hmore] at hsize ⊢
  rw [← hp.messages_eq hkind] at hcount
  subst hsaid hsame
  exact extended_valid hvalid hreply
    (message_answers _) hnext hspeaks hcount hsize

/-- One turn of a plain one. -/
theorem Accepted.plainTurn (hp : Accepted h object p)
    (hg : h.catalog.group? (qs "iiLocalLLM.GenerationOptions")
      = some nativeGroup)
    (hkind : p.conversation = none)
    (hserve : serve c env (p.task requestId callback) s
      = (.ok (.settled outcome), s'))
    (hok : outcome.result.succeeded) (hspeaks : Speaking outcome.result)
    {prompt : QString} (hprompt : QString.trimmed prompt ≠ [])
    (hsaid : said = [.object (Completion.message outcome.result),
      textMessage ⟨.User, prompt⟩])
    (hcount : (messagesOf object ++ said).length ≤ 4096)
    (hfits : ∀ q, h.parseObject (followed object said) = .ok q → Fits c q) :
    ∃ texts, readMessages p.conversation.isSome said = .ok texts
      ∧ Accepted h (followed object said) (more p said texts)
      ∧ Passable c (more p said texts) := by
  unfold ParsedCompletion.task at hserve
  rw [hkind] at hserve
  obtain ⟨hchecked, hcalls, hreasoning⟩ :=
    generate_voiced (settled_of_serve hserve) hok
  have htext : QString.trimmed outcome.result.text ≠ [] :=
    hspeaks.resolve_right fun hne => hne hcalls
  rw [message_text hcalls hreasoning] at hsaid
  have hreads : readMessages p.conversation.isSome said
      = .ok [⟨.Assistant, outcome.result.text⟩, ⟨.User, prompt⟩] := by
    rw [hkind, hsaid]
    exact readMessages_plain.2
      (.cons (textMessage_reads _) (.cons (textMessage_reads _) .nil))
  have hnew := hp.continued hg hreads hcount
  have hsize := hfits _ (parseObject_eq_ok.2 hnew)
  refine ⟨_, hreads, hnew, ?_⟩
  have hmore :
    (more p said [⟨.Assistant, outcome.result.text⟩,
    ⟨.User, prompt⟩]).conversation
      = none := by
    unfold more
    rw [hkind]
    rfl
  unfold Fits at hsize
  unfold Passable
  rw [hmore] at hsize ⊢
  exact hchecked.continued htext hprompt hsize

/-- The bodies a client comes to that goes on from the first one, and what has
been said since. Between two of its requests the worker may serve others. -/
inductive GoesOn (c : Config) (h : HttpParser) (first : JsonObject) :
    JsonObject → List Json → Prop
  | start : GoesOn c h first first []
  | turn {object : JsonObject} {before : List Json}
      {p : ParsedCompletion} {env : Env}
      {requestId : QString} {callback : StreamCallback} {s s' : State}
      {outcome : Settled} {next said : List Json}
      (hbefore : GoesOn c h first object before)
      (hparse : h.parseObject object = .ok p)
      (hserve : serve c env (p.task requestId callback) s
        = (.ok (.settled outcome), s'))
      (hok : outcome.result.succeeded) (hspeaks : Speaking outcome.result)
      (hnext : Adds c p outcome.result next)
      (hsaid : said = .object (Completion.message outcome.result) :: next)
      (hcount : (messagesOf object ++ said).length ≤ 4096)
      (hfits : ∀ q, h.parseObject (followed object said) = .ok q → Fits c q) :
      GoesOn c h first (followed object said) (before ++ said)

/-- Two steps of a conversation make one longer step, which is how the
induction over turns composes. -/
theorem more_more (before said : List Json) (texts others : List ChatMessage) :
    more (more p before texts) said others
      = more p (before ++ said) (texts ++ others) := by
  unfold more
  cases p.conversation <;>
    simp [extended, List.append_assoc]

/-- The induction over the turns: what was said so far is behind the first
messages, and what is said next is behind that. -/
theorem GoesOn.continued
    (hg : h.catalog.group? (qs "iiLocalLLM.GenerationOptions")
      = some nativeGroup)
    {first object : JsonObject} {said : List Json}
    (hfirst : h.parseObject first = .ok p)
    (hgoes : GoesOn c h first object said) :
    ∃ texts, readMessages p.conversation.isSome said = .ok texts
      ∧ h.parseObject object = .ok (more p said texts)
      ∧ (said ≠ [] → Passable c (more p said texts)) := by
  induction hgoes with
  | start =>
      refine ⟨[], ?_, ?_, fun hne => absurd rfl hne⟩
      · cases p.conversation <;> rfl
      · rw [hfirst]
        unfold more extended
        simp
  | turn hbefore hparse hserve hok hspeaks hnext hsaid hcount hfits ih =>
      rename_i object before q env requestId callback s s' outcome next said
      obtain ⟨texts, hreads, hread, -⟩ := ih
      obtain rfl : more p before texts = q :=
        Except.ok.inj (hread.symm.trans hparse)
      have hp := parseObject_eq_ok.1 hread
      have hturn : ∃ others,
        readMessages (more p before texts).conversation.isSome said
            = .ok others
          ∧ Accepted h (followed object said)
            (more (more p before texts) said others)
          ∧ Passable c (more (more p before texts) said others) := by
        cases hnext with
        | structured hkind hnext =>
            exact hp.structuredTurn hg hkind hserve hok hspeaks hnext
              hsaid hcount hfits
        | plain hkind hprompt =>
            exact hp.plainTurn hg hkind hserve hok hspeaks hprompt
              hsaid hcount hfits
      obtain ⟨others, hsaid', hnew, hpassable⟩ := hturn
      have hkind : (more p before texts).conversation.isSome
          = p.conversation.isSome := by
        unfold more
        rw [Option.isSome_map]
      rw [hkind] at hsaid'
      rw [more_more] at hnew hpassable
      exact ⟨texts ++ others, readMessages_append hsaid' hreads,
        parseObject_eq_ok.2 hnew, fun _ => hpassable⟩

/-- However long a client goes on, its next body is read as its
first one with all that was said since, and the service does not
refuse it for its messages. -/
theorem dialogue_continues
    (hg : h.catalog.group? (qs "iiLocalLLM.GenerationOptions")
      = some nativeGroup)
    {first object : JsonObject} {said : List Json}
    (hfirst : h.parseObject first = .ok p)
    (hgoes : GoesOn c h first object said) :
    ∃ texts, readMessages p.conversation.isSome said = .ok texts
      ∧ h.parseObject object = .ok (more p said texts)
      ∧ (∀ body, h.fromJson body = some (.object object) →
        h.parse body = .ok (more p said texts))
      ∧ (said ≠ [] → Passable c (more p said texts)) := by
  obtain ⟨texts, hreads, hread, hpassable⟩ := hgoes.continued hg hfirst
  exact ⟨texts, hreads, hread, fun body hbody =>
    parse_eq_ok.2 ⟨_, hbody, hread⟩,
    hpassable⟩

-- ============================================================== on a sample

/-- A client that keeps up with its stream. -/
def hears : StreamCallback := fun _ => false

/-- The result a task settles with. -/
def resultOf (answer : Except Exn Answer × State) : Option GenerationResult :=
  match answer.1 with
  | .ok (.settled outcome) => some outcome.result
  | _ => none

/-- The parts of a result that the next turn depends on. -/
def partsOf (r : GenerationResult) :
    QString × List Json × QString × ErrorCode × FinishReason :=
  (r.text, r.toolCalls, r.reasoning, r.errorCode, r.finishReason)

/-- What a task settles with, by these parts. -/
theorem settled_of_parts {answer : Except Exn Answer × State}
    {text reasoning : QString} {calls : List Json}
    (h : (resultOf answer).map partsOf
      = some (text, calls, reasoning, .None, .Stop)) :
    ∃ outcome s', answer = (.ok (.settled outcome), s')
      ∧ outcome.result.succeeded ∧ outcome.result.text = text
      ∧ outcome.result.toolCalls = calls
      ∧ outcome.result.reasoning = reasoning := by
  obtain ⟨result, hresult, hparts⟩ := Option.map_eq_some_iff.1 h
  unfold partsOf at hparts
  injection hparts with htext hparts
  injection hparts with hcalls hparts
  injection hparts with hreasoning hparts
  injection hparts with hcode hfinish
  unfold resultOf at hresult
  split at hresult
  next outcome hanswer =>
    obtain rfl := Option.some.inj hresult
    refine ⟨outcome, answer.2, Prod.ext hanswer rfl, ⟨hcode, ?_⟩,
      htext, hcalls,
      hreasoning⟩
    rw [hfinish]
    decide
  next => cases hresult

theorem greeting_read : sample.parseObject (bodyOf greeting) = .ok greeting :=
  parseObject_eq_ok.2 (greeting_expressible.accepted rfl
    (ParameterCatalog.fromJson_loaded native_loaded))

theorem asking_read : sample.parseObject (bodyOf asking) = .ok asking :=
  parseObject_eq_ok.2 (asking_expressible.accepted rfl
    (ParameterCatalog.fromJson_loaded native_loaded))

theorem greeting_answered :
    ((resultOf (serve Sample.config {} (greeting.task (qs "request") hears)
        Sample.state)).map partsOf)
      = some (qs "hi", [], [], .None, .Stop) := by
  decide +kernel

/-- What is said after the greeting. -/
def smallTalk : List Json :=
  [textMessage ⟨.Assistant, qs "hi"⟩, textMessage ⟨.User, qs "and you?"⟩]

/-- The second request of the sample stays within the limits of its service:
two short turns in a default configuration. -/
theorem smallTalk_fits (q : ParsedCompletion)
    (hq : sample.parseObject (followed (bodyOf greeting) smallTalk) = .ok q) :
    Fits Sample.config q := by
  have hread := parseObject_eq_ok.1 hq
  have hplain : q.conversation = none := by
    have hsome := hread.isSome_eq
    rw [show isStructured (followed (bodyOf greeting) smallTalk) = false by
      decide +kernel] at hsome
    exact Option.not_isSome_iff_eq_none.1 (by simp [hsome])
  have htexts := hread.texts
  rw [show readMessages (isStructured (followed (bodyOf greeting) smallTalk))
      (messagesOf (followed (bodyOf greeting) smallTalk))
        = .ok [⟨.User, qs "hello"⟩, ⟨.Assistant, qs "hi"⟩,
          ⟨.User, qs "and you?"⟩] by
      rfl] at htexts
  unfold Fits
  rw [hplain, ← Except.ok.inj htexts]
  decide

/-- The call of the tool, as the service sends it. -/
def calledTool : Json :=
  .object
    [(qs "function", .object [(qs "arguments", .string (qs "\x7b\x7d")),
      (qs "name", .string (qs "f"))]),
     (qs "id", .string (qs "1")), (qs "type", .string (qs "function"))]

/-- What is said after the question: the call, and its result. -/
def toolTalk : List Json :=
  [.object [(qs "content", .string (qs "hi")),
    (qs "role", .string (qs "assistant")),
    (qs "tool_calls", .array [calledTool])], sampleResult "1"]

theorem toolResult_wellFormed :
    ∀ r ∈ [sampleResult "1"],
      WellFormed Sample.config Sample.config.maxInputCharacters r := by
  have haccepted : checkMessages Sample.config
    Sample.config.maxInputCharacters false
      [sampleResult "1"] [] [qs "1"] = .ok [] := by
    rfl
  exact (checkMessages_rest.1 haccepted).1

/-- The sample service sizes every request at nothing. -/
theorem toolTalk_fits (q : ParsedCompletion)
    (hq : sample.parseObject (followed (bodyOf asking) toolTalk) = .ok q) :
    Fits Sample.config q := by
  have hsome := (parseObject_eq_ok.1 hq).isSome_eq
  rw [show isStructured (followed (bodyOf asking) toolTalk) = true by
    decide +kernel] at hsome
  obtain ⟨r, hr⟩ := Option.isSome_iff_exists.1 hsome
  unfold Fits
  rw [hr]
  show (0 : Int) ≤ Sample.config.maxInputCharacters
  decide

/-- The greeting goes on: the client is answered, and asks on. -/
theorem smallTalk_goesOn : GoesOn Sample.config sample (bodyOf greeting)
    (followed (bodyOf greeting) smallTalk) smallTalk := by
  obtain ⟨outcome, s', hserve, hok, htext, hcalls, hreasoning⟩ :=
    settled_of_parts greeting_answered
  have hsaid : smallTalk = .object (Completion.message outcome.result)
      :: [textMessage ⟨.User, qs "and you?"⟩] := by
    rw [message_text hcalls hreasoning, htext]
    rfl
  have hspeaks : Speaking outcome.result := by
    unfold Speaking
    rw [htext]
    exact Or.inl (by decide)
  exact .turn .start greeting_read hserve hok hspeaks
    (.plain rfl (by decide)) hsaid
    (by decide +kernel) smallTalk_fits

/-- The tool is called with the id that was drawn. -/
theorem asking_answered :
    ((resultOf (serve Sample.config {} (asking.task (qs "request") hears)
        (serveAll Sample.config {} Sample.called))).map partsOf)
      = some (qs "hi", [calledTool], [], .None, .Stop) := by
  decide +kernel

/-- A client has a tool called, and sends its result. -/
theorem toolTalk_goesOn : GoesOn Sample.config sample (bodyOf asking)
    (followed (bodyOf asking) toolTalk) toolTalk := by
  obtain ⟨outcome, s', hserve, hok, htext, hcalls, hreasoning⟩ :=
    settled_of_parts asking_answered
  have hsaid : toolTalk = .object (Completion.message outcome.result)
      :: [sampleResult "1"] := by
    unfold Completion.message
    dsimp only
    rw [hcalls, hreasoning, htext]
    rfl
  have hnext : Adds Sample.config asking outcome.result
      [sampleResult "1"] := by
    refine .structured rfl (.results ?_ ?_ ?_ ?_)
    · show outcome.result.toolCalls ≠ []
      rw [hcalls]
      exact List.cons_ne_nil _ _
    · exact fun r hr => toolResult_wellFormed r hr
    · intro r hr
      rw [List.mem_singleton.1 hr]
      rfl
    · show ([sampleResult "1"].map resultId).Perm
        (outcome.result.toolCalls.map callId)
      rw [hcalls]
      exact List.Perm.refl _
  have hspeaks : Speaking outcome.result := by
    unfold Speaking
    rw [htext]
    exact Or.inl (by decide)
  exact .turn .start asking_read hserve hok hspeaks hnext hsaid
    (by decide +kernel)
    toolTalk_fits

/-- A client says hello, is answered, and asks on; another one has a tool
called and sends its result. -/
theorem dialogue_continues_greeting :
    (∃ texts, sample.parseObject (followed (bodyOf greeting) smallTalk)
        = .ok (more greeting smallTalk texts)
      ∧ Passable Sample.config (more greeting smallTalk texts))
    ∧ ∃ texts, sample.parseObject (followed (bodyOf asking) toolTalk)
        = .ok (more asking toolTalk texts)
      ∧ Passable Sample.config (more asking toolTalk texts) := by
  obtain ⟨texts, -, hread, -, hpassable⟩ :=
    dialogue_continues rfl greeting_read smallTalk_goesOn
  obtain ⟨others, -, hread', -, hpassable'⟩ :=
    dialogue_continues rfl asking_read toolTalk_goesOn
  exact ⟨⟨texts, hread, hpassable (List.cons_ne_nil _ _)⟩,
    others, hread', hpassable' (List.cons_ne_nil _ _)⟩

end HttpParser

end LocalLLM
