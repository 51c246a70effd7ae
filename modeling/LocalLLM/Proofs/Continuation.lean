/-
What a reply leaves behind: the turn it opens goes on.

# The reply

`validateConversationReply` checks calls only. Each call it lets through is
one for the checker of requests too (`reply_checked`), and its id is new, so
the message built from the reply (`Answers`) is one more turn of the
language once its calls have their results or, without calls, the user has
spoken (`Continues`).

# What it does not check

A reply that says nothing, blank text and no call, passes, and its message
is one the checker of requests refuses. That is the only way for a turn not
to go on (`reply_continues`).
-/
import LocalLLM.Proofs.Grammar
import LocalLLM.Proofs.Renderings

namespace LocalLLM

open Json

variable {c : Config} {maxCharacters : Int}

-- ================================================================= the reply

/-- The code is for the error only. -/
theorem checkCall_code {value : Json} {code other : ErrorCode} {id : QString}
    (h : checkCall c value code = .ok id) :
    checkCall c value other = .ok id := by
  unfold checkCall at h ⊢
  simpa only [bind_eq_ok, require_eq_ok] using h

/-- The loop over the calls of a reply: each of them passes by itself, and
their ids differ. -/
theorem checkReplyCalls_checked (names : List QString) :
    ∀ (calls : List Json) (ids : List QString) (s : State),
    Exec.wp (checkReplyCalls c names calls ids)
      (fun out _ => out.length = calls.length
        ∧ ∀ call ∈ out, ∃ id, checkCall c call .InvalidArgument = .ok id)
      (fun _ _ => True) s := by
  intro calls
  induction calls with
  | nil =>
      intro ids s
      exact ⟨rfl, fun _ h => nomatch h⟩
  | cons value rest ih =>
      intro ids s
      unfold checkReplyCalls check
      rw [Exec.wp_bind]
      refine Exec.wp_mono (Exec.wp_self _ s) ?_ fun _ _ _ => trivial
      intro call t _
      rw [Exec.wp_bind, Exec.wp_ofExcept]
      refine ⟨fun id hid => ?_, fun _ _ => trivial⟩
      rw [Exec.wp_bind, Exec.wp_ofExcept]
      refine ⟨fun _ _ => ?_, fun _ _ => trivial⟩
      rw [Exec.wp_bind]
      refine Exec.wp_mono (ih (id :: ids) t) ?_ fun _ _ _ => trivial
      rintro out u ⟨hlength, hout⟩
      rw [Exec.wp_pure]
      refine ⟨by simp [hlength], ?_⟩
      exact List.forall_mem_cons.2 ⟨⟨id, checkCall_code hid⟩, hout⟩

/-- The calls of a reply that passed are what a request may hold: new ids and
known names, with arguments that are read as objects. -/
theorem reply_checked {parsed reply : RuntimeConversationReply}
    {r : ConversationRequest} {s s' : State}
    (h : validateConversationReply c parsed r s = (.ok reply, s')) :
    reply.toolCalls.length ≤ 64
      ∧ ∀ call ∈ reply.toolCalls, ∃ id,
        checkCall c call .InvalidArgument = .ok id := by
  refine Exec.wp_ok (Q := fun reply _ => reply.toolCalls.length ≤ 64
    ∧ ∀ call ∈ reply.toolCalls, ∃ id,
      checkCall c call .InvalidArgument = .ok id)
    (E := fun _ _ => True) ?_ h
  unfold validateConversationReply check
  rw [Exec.wp_bind, Exec.wp_ofExcept]
  refine ⟨fun _ hcount => ?_, fun _ _ => trivial⟩
  rw [Exec.wp_bind, Exec.wp_ofExcept]
  refine ⟨fun _ _ => ?_, fun _ _ => trivial⟩
  rw [Exec.wp_bind, Exec.wp_ofExcept]
  refine ⟨fun _ _ => ?_, fun _ _ => trivial⟩
  rw [Exec.wp_bind, Exec.wp_ofExcept]
  refine ⟨fun _ _ => ?_, fun _ _ => trivial⟩
  rw [Exec.wp_bind]
  refine Exec.wp_mono (checkReplyCalls_checked (toolNames r) parsed.toolCalls
    (historyIds r) s) ?_ fun _ _ _ => trivial
  rintro calls t ⟨hlength, hcalls⟩
  rw [Exec.wp_pure]
  rw [require_eq_ok] at hcount
  exact ⟨hlength ▸ hcount, hcalls⟩

-- =============================================================== the message

/-- The members of an assistant message. -/
def answerFields : List QString :=
  [qs "role", qs "content", qs "tool_calls", qs "reasoning_content"]

/-- The assistant message built from a reply: its text as content (or null,
beside calls, where there is none), its calls when there are any, its
reasoning or none. -/
structure Answers (reply : RuntimeConversationReply) (m : Json) : Prop where
  object : isObject (some m) = true
  fields : ∀ f ∈ membersOf m, f.1 ∈ answerFields
  role : roleOf m = qs "assistant"
  content : contentOf m = some (.string reply.text)
    ∨ (contentOf m = some .null ∧ reply.text = [] ∧ reply.toolCalls ≠ [])
  calls : lookup (membersOf m) (qs "tool_calls")
    = if reply.toolCalls = [] then none else some (.array reply.toolCalls)
  reasoning : lookup (membersOf m) (qs "reasoning_content") = none
    ∨ lookup (membersOf m) (qs "reasoning_content")
      = some (.string reply.reasoning)

/-- What comes after that message: a result for each call, in any order, or
a message of the user. -/
inductive Continues (c : Config) (maxCharacters : Int)
    (reply : RuntimeConversationReply) : List Json → Prop
  | results {results : List Json} (hcalls : reply.toolCalls ≠ [])
      (hwell : ∀ r ∈ results, WellFormed c maxCharacters r)
      (htool : ∀ r ∈ results, roleOf r = qs "tool")
      (hids : (results.map resultId).Perm (reply.toolCalls.map callId)) :
      Continues c maxCharacters reply results
  | user {m : Json} (hcalls : reply.toolCalls = [])
      (hwell : WellFormed c maxCharacters m) (hrole : roleOf m = qs "user") :
      Continues c maxCharacters reply [m]

variable {reply : RuntimeConversationReply} {m : Json} {next : List Json}

theorem Answers.toolCallsOf_eq (h : Answers reply m) :
    toolCallsOf m = reply.toolCalls := by
  unfold toolCallsOf
  rw [h.calls]
  by_cases hnil : reply.toolCalls = []
  · rw [if_pos hnil, hnil]
    rfl
  · rw [if_neg hnil]
    rfl

theorem Answers.callIds_eq (h : Answers reply m) :
    callIds m = reply.toolCalls.map callId := by
  unfold callIds
  rw [h.toolCallsOf_eq]

/-- The message has the text of the reply. -/
theorem Answers.hasText (h : Answers reply m) :
    HasText m ↔ QString.trimmed reply.text ≠ [] := by
  unfold HasText memberText
  rcases h.content with htext | ⟨hnull, hempty, -⟩
  · unfold contentOf at htext
    rw [htext]
    rfl
  · unfold contentOf at hnull
    rw [hnull, hempty]
    rfl

/-- The message is well formed when the reply says something. A blank text
without calls is the one form that the validator refuses. -/
theorem Answers.wellFormed (h : Answers reply m)
    (hcalls : ∀ call ∈ reply.toolCalls, ∃ id,
      checkCall c call .InvalidArgument = .ok id)
    (hspeaks : QString.trimmed reply.text ≠ [] ∨ reply.toolCalls ≠ []) :
    WellFormed c maxCharacters m := by
  have hcontent : isArray (contentOf m) = false := by
    rcases h.content with htext | ⟨hnull, -⟩
    · rw [htext]
      rfl
    · rw [hnull]
      rfl
  have hother : ∀ key : QString, key ∉ answerFields →
      contains (membersOf m) key = false := by
    intro key hkey
    unfold contains
    rw [List.any_eq_false]
    intro f hf heq
    exact hkey (beq_iff_eq.1 heq ▸ h.fields f hf)
  refine ⟨⟨h.object, ?_, Or.inr (Or.inr (Or.inl h.role)), ?_, ?_,
    ?_, ?_, ?_, ?_⟩,
    ?_, ?_, ?_⟩
  · intro f hf
    have hmem := h.fields f hf
    simp only [answerFields, List.mem_cons, List.not_mem_nil, or_false] at hmem
    unfold messageFields
    rcases hmem with heq | heq | heq | heq <;> simp [heq]
  · rcases h.content with htext | ⟨hnull, -⟩
    · exact Or.inr (Or.inr (Or.inl (by rw [htext]; rfl)))
    · exact Or.inr (Or.inl (by rw [hnull]; rfl))
  · intro harray
    rw [hcontent] at harray
    cases harray
  · rcases h.reasoning with hnone | hsome
    · exact Or.inl hnone
    · exact Or.inr ⟨h.role, by rw [hsome]; rfl⟩
  · have hname := hother (qs "name") (by decide)
    rw [contains_eq, Option.isSome_eq_false_iff,
      Option.isNone_iff_eq_none] at hname
    exact Or.inl hname
  · exact Or.inl h.role
  · exact Or.inr (hother (qs "tool_call_id") (by decide))
  · intro htool
    rw [h.role] at htool
    exact absurd htool (by decide)
  · intro hcontains
    rw [contains_eq, h.calls] at hcontains
    rw [h.toolCallsOf_eq, h.calls]
    by_cases hnil : reply.toolCalls = []
    · rw [if_pos hnil] at hcontains
      cases hcontains
    · rw [if_neg hnil]
      exact ⟨rfl, hcalls⟩
  · intro _ hnil
    rw [h.toolCallsOf_eq] at hnil
    exact Or.inl (h.hasText.2 (hspeaks.resolve_right fun hne => hne hnil))

-- ============================================================== the next turn

theorem Dialogue.append {assistant : Json → Prop} {before after : List Json}
    (h : Dialogue assistant before) (hafter : Dialogue assistant after) :
    Dialogue assistant (before ++ after) := by
  induction h with
  | nil => exact hafter
  | user hrole _ ih => exact .user hrole ih
  | assistant hrole hm htool hresults _ ih =>
      rw [List.cons_append, List.append_assoc]
      exact .assistant hrole hm htool hresults ih

/-- A turn can be added to a conversation when it is one, its ids are new
and it ends in input. -/
theorem Conversational.append {assistant : Json → Prop}
    {before after : List Json}
    (h : Conversational assistant before) (hafter : Dialogue assistant after)
    (hids : (after.flatMap callIds).Nodup)
    (hnew : ∀ id ∈ after.flatMap callIds, id ∉ before.flatMap callIds)
    {last : Json} (hlast : after.getLast? = some last)
    (hrole : roleOf last = qs "user" ∨ roleOf last = qs "tool") :
    Conversational assistant (before ++ after) where
  turns := by
    rcases h.turns with hturns | ⟨m, rest, rfl, hsystem, hturns⟩
    · exact Or.inl (hturns.append hafter)
    · exact Or.inr ⟨m, rest ++ after, rfl, hsystem, hturns.append hafter⟩
  distinct := by
    rw [List.flatMap_append, List.nodup_append']
    exact ⟨h.distinct, hids, fun id hid hmem => hnew id hmem hid⟩
  ends := ⟨last, by rw [List.getLast?_append, hlast]; rfl, hrole⟩

/-- Messages that are not an assistant's call nothing. -/
theorem flatMap_callIds_nil {messages : List Json}
    (hwell : ∀ r ∈ messages, WellFormed c maxCharacters r)
    (hrole : ∀ r ∈ messages, roleOf r ≠ qs "assistant") :
    messages.flatMap callIds = [] :=
  List.flatMap_eq_nil_iff.2 fun r hr => (hwell r hr).callIds_nil (hrole r hr)

theorem Continues.wellFormed (h : Continues c maxCharacters reply next) :
    ∀ r ∈ next, WellFormed c maxCharacters r := by
  cases h with
  | results _ hwell => exact hwell
  | user _ hwell =>
      intro r hr
      rw [List.mem_singleton.1 hr]
      exact hwell

theorem Continues.callIds_nil (h : Continues c maxCharacters reply next) :
    next.flatMap callIds = [] := by
  refine flatMap_callIds_nil h.wellFormed ?_
  cases h with
  | results _ _ htool =>
      intro r hr
      rw [htool r hr]
      decide
  | user _ _ hrole =>
      intro r hr
      rw [List.mem_singleton.1 hr, hrole]
      decide

/-- What comes after the message ends in input. -/
theorem Continues.last (h : Continues c maxCharacters reply next) :
    ∃ last, next.getLast? = some last
      ∧ (roleOf last = qs "user" ∨ roleOf last = qs "tool") := by
  cases h with
  | results hcalls _ htool hids =>
      cases hlast : next.getLast? with
      | none =>
          have hnil := List.getLast?_eq_none_iff.1 hlast
          rw [hnil, List.map_nil, List.nil_perm, List.map_eq_nil_iff] at hids
          exact absurd hids hcalls
      | some last =>
          exact ⟨last, rfl, Or.inr (htool last (List.mem_of_getLast? hlast))⟩
  | user _ _ hrole => exact ⟨_, rfl, Or.inl hrole⟩

/-- The message and what comes after it are one turn, or two. -/
theorem Continues.turns (h : Continues c maxCharacters reply next)
    (hm : Answers reply m)
    (hspeaks : QString.trimmed reply.text ≠ [] ∨ reply.toolCalls ≠ [])
    (hcount : reply.toolCalls.length ≤ 64) : Dialogue Proper (m :: next) := by
  refine (turns_assistant hm.role).2 ⟨?_, ?_⟩
  · unfold Proper
    rw [contains_eq, hm.calls, hm.toolCallsOf_eq, hm.hasText]
    by_cases hnil : reply.toolCalls = []
    · rw [if_pos hnil]
      exact Or.inl ⟨rfl, hspeaks.resolve_right fun hne => hne hnil⟩
    · rw [if_neg hnil]
      exact Or.inr ⟨rfl, List.length_pos_iff.2 hnil, hcount⟩
  · rw [hm.callIds_eq]
    cases h with
    | results _ _ htool hids =>
        exact ⟨next, [], (List.append_nil next).symm, htool, hids, .nil⟩
    | user hnil _ hrole =>
        rw [hnil]
        exact awaiting_nothing.2 (.user hrole .nil)

/-- The message that the completion endpoint sends for a result is built so:
the text, and the calls when there are any. -/
theorem message_answers (result : GenerationResult) :
    Answers { text := result.text
              reasoning := result.reasoning
              toolCalls := result.toolCalls }
      (.object (Completion.message result)) := by
  have hinsert : ∀ (o : JsonObject) (key : QString) (v : Json),
      (∀ f ∈ o, f.1 ∈ answerFields) → key ∈ answerFields →
      ∀ f ∈ insert o key v, f.1 ∈ answerFields := by
    intro o key v ho hkey f hf
    rcases mem_insert hf with rfl | hf
    · exact hkey
    · exact ho f hf
  have hplain : ∀ f ∈ ofMembers [(qs "role", .string (qs "assistant")),
      (qs "content", .string result.text)], f.1 ∈ answerFields := by
    intro f hf
    have hf := mem_ofMembers hf
    simp only [List.mem_cons, List.not_mem_nil, or_false] at hf
    rcases hf with rfl | rfl
    · show qs "role" ∈ answerFields
      decide
    · show qs "content" ∈ answerFields
      decide
  refine ⟨rfl, ?_, ?_, ?_, ?_, ?_⟩
  · show ∀ f ∈ Completion.message result, f.1 ∈ answerFields
    unfold Completion.message
    dsimp only
    split_ifs
    · exact hplain
    · exact hinsert _ _ _ (hinsert _ _ _ hplain (by decide)) (by decide)
    · exact hinsert _ _ _ hplain (by decide)
    · exact hinsert _ _ _ hplain (by decide)
    · exact hinsert _ _ _ (hinsert _ _ _ (hinsert _ _ _ hplain (by decide))
        (by decide)) (by decide)
    · exact hinsert _ _ _ (hinsert _ _ _ hplain (by decide)) (by decide)
  · show toText (lookup (Completion.message result) (qs "role")) = _
    unfold Completion.message
    dsimp only
    rw [Completion.lookup_reasoned _ _ (by decide)]
    split_ifs
    · rw [lookup_ofMembers]
      rfl
    · rw [lookup_insert_ne _ _ (by decide), lookup_insert_ne _ _ (by decide),
        lookup_ofMembers]
      rfl
    · rw [lookup_insert_ne _ _ (by decide), lookup_ofMembers]
      rfl
  · show lookup (Completion.message result) (qs "content") = _
      ∨ (lookup (Completion.message result) (qs "content") = _ ∧ _ ∧ _)
    unfold Completion.message
    dsimp only
    rw [Completion.lookup_reasoned _ _ (by decide)]
    split_ifs with hcalls htext
    · rw [lookup_ofMembers]
      exact Or.inl rfl
    · rw [lookup_insert_self]
      exact Or.inr ⟨rfl, htext, hcalls⟩
    · rw [lookup_insert_ne _ _ (by decide), lookup_ofMembers]
      exact Or.inl rfl
  · show lookup (Completion.message result) (qs "tool_calls") = _
    unfold Completion.message
    dsimp only
    rw [Completion.lookup_reasoned _ _ (by decide)]
    split_ifs
    · rw [lookup_ofMembers]
      rfl
    · rw [lookup_insert_ne _ _ (by decide), lookup_insert_self]
    · rw [lookup_insert_self]
  · show lookup (Completion.message result) (qs "reasoning_content") = _
      ∨ lookup (Completion.message result) (qs "reasoning_content") = _
    by_cases hreasoning : result.reasoning = []
    · unfold Completion.message
      dsimp only
      rw [if_pos hreasoning]
      split_ifs
      · rw [lookup_ofMembers]
        exact Or.inl rfl
      · rw [lookup_insert_ne _ _ (by decide), lookup_insert_ne _ _ (by decide),
          lookup_ofMembers]
        exact Or.inl rfl
      · rw [lookup_insert_ne _ _ (by decide), lookup_ofMembers]
        exact Or.inl rfl
    · unfold Completion.message
      dsimp only
      rw [if_neg hreasoning, lookup_insert_self]
      exact Or.inr rfl

/-- The request after the turn. -/
def extended (r : ConversationRequest) (messages : List Json) :
    ConversationRequest := { r with messages := r.messages ++ messages }

/-- **A turn goes on exactly when its reply says something.** A reply with
neither text nor calls passes the check of replies, and the validator of the
next request refuses it as a message. All other replies are continued by any
order of results, or by a user. -/
theorem reply_continues {r : ConversationRequest}
    {parsed : RuntimeConversationReply} {s s' : State}
    (hrequest : validateConversationRequest c r maxCharacters = .ok ())
    (hreply : validateConversationReply c parsed r s = (.ok reply, s'))
    (hm : Answers reply m) (hnext : Continues c maxCharacters reply next)
    (hcount : (r.messages ++ m :: next).length ≤ 4096)
    (hsize : ((c.toJson (ofMembers
      [(qs "messages", .array (r.messages ++ m :: next)),
        (qs "tools", .array r.tools),
        (qs "response_schema", .object r.responseSchema)])).length : Int)
          ≤ maxCharacters) :
    validateConversationRequest c (extended r (m :: next)) maxCharacters
      = .ok ()
      ↔ QString.trimmed reply.text ≠ [] ∨ reply.toolCalls ≠ [] := by
  obtain ⟨hadmissible, hwell, hlanguage⟩ :=
    validateConversationRequest_eq_ok.1 hrequest
  rw [validateConversationRequest_eq_ok]
  constructor
  · rintro ⟨-, hwell, -⟩
    by_cases hnil : reply.toolCalls = []
    · have hmwell := hwell m (List.mem_append_right _ List.mem_cons_self)
      have htool : roleOf m ≠ qs "tool" := by
        rw [hm.role]
        decide
      refine Or.inl (hm.hasText.1 ((hmwell.text htool ?_).resolve_right ?_))
      · rw [hm.toolCallsOf_eq, hnil]
      · intro harray
        rcases hmwell.sender harray with huser | htool'
        · rw [hm.role] at huser
          exact absurd huser (by decide)
        · exact htool htool'
    · exact Or.inr hnil
  · intro hspeaks
    have hcalls := Exec.wp_ok
      (validateConversationReply_spec parsed r s) hreply
    obtain ⟨hlimit, hchecked⟩ := reply_checked hreply
    have hmwell : WellFormed c maxCharacters m :=
      hm.wellFormed hchecked hspeaks
    refine ⟨{ hadmissible with
      count := ⟨hcount, hadmissible.count.2⟩
      size := hsize }, ?_, ?_⟩
    · intro v hv
      rcases List.mem_append.1 hv with hv | hv
      · exact hwell v hv
      · rcases List.mem_cons.1 hv with rfl | hv
        · exact hmwell
        · exact hnext.wellFormed v hv
    · have hids : (m :: next).flatMap callIds
          = reply.toolCalls.map callId := by
        rw [List.flatMap_cons, hnext.callIds_nil, List.append_nil,
          hm.callIds_eq]
      obtain ⟨last, hlast, hrole⟩ := hnext.last
      refine hlanguage.append (hnext.turns hm hspeaks hlimit) ?_ ?_ ?_ hrole
      · rw [hids]
        exact hcalls.2.1.distinct
      · rw [hids]
        intro id hid
        obtain ⟨call, hcall, rfl⟩ := List.mem_map.1 hid
        exact (hcalls.2.1.each call hcall).id_new
      · rw [List.getLast?_cons, hlast]
        rfl

-- ============================================================== on a sample

/-- A message without calls, with the given text. -/
def answer (text : String) : Json :=
  .object [(qs "content", .string (qs text)),
    (qs "role", .string (qs "assistant"))]

theorem answer_answers (text : String) :
    Answers { text := qs text } (answer text) where
  object := rfl
  fields := by
    intro f hf
    rcases List.mem_cons.1 hf with rfl | hf
    · show qs "content" ∈ _
      decide
    · rw [List.mem_singleton.1 hf]
      show qs "role" ∈ _
      decide
  role := rfl
  content := Or.inl rfl
  calls := rfl
  reasoning := Or.inl rfl

theorem userMessage_continues {reply : RuntimeConversationReply}
    (hcalls : reply.toolCalls = []) :
    Continues printing defaultLimit reply [userMessage] :=
  .user hcalls userMessage_wellFormed rfl

/-- A request with a tool. -/
def lookRequest : ConversationRequest :=
  { plainRequest [userMessage] with
    tools := [.object
      [(qs "function", .object [(qs "name", .string (qs "look")),
        (qs "parameters", .object [])]),
       (qs "type", .string (qs "function"))]] }

/-- A reply that calls it twice. -/
def callingReply : RuntimeConversationReply :=
  { toolCalls := [sampleCall "a", sampleCall "b"] }

theorem twoCalls_answers : Answers callingReply twoCalls where
  object := rfl
  fields := by
    intro f hf
    simp only [twoCalls, membersOf, toObject, List.mem_cons, List.not_mem_nil,
      or_false] at hf
    rcases hf with rfl | rfl | rfl
    · show qs "content" ∈ _
      decide
    · show qs "role" ∈ _
      decide
    · show qs "tool_calls" ∈ _
      decide
  role := rfl
  content := Or.inr ⟨rfl, rfl, List.cons_ne_nil _ _⟩
  calls := rfl
  reasoning := Or.inl rfl

/-- The results come in the other order. -/
theorem twoCalls_continues :
    Continues printing defaultLimit callingReply [sampleResult "b",
      sampleResult "a"] := by
  refine .results (List.cons_ne_nil _ _)
    (fun r hr => answeredTurn_wellFormed r ?_) ?_
    (List.Perm.swap _ _ _)
  · exact List.mem_cons_of_mem _
      (List.mem_cons_of_mem _ (List.mem_append_left _ hr))
  · intro r hr
    rcases List.mem_pair.1 hr with rfl | rfl
    · rfl
    · rfl

/-- A text is answered by the user, and two calls by their results. -/
theorem reply_continues_text :
    validateConversationRequest printing
        (extended (plainRequest [userMessage]) [answer "b", userMessage])
          defaultLimit
        = .ok ()
    ∧ validateConversationRequest printing
        (extended lookRequest [twoCalls, sampleResult "b", sampleResult "a"])
          defaultLimit
        = .ok () := by
  constructor
  · refine (reply_continues (by decide +kernel)
      (show validateConversationReply printing { text := qs "b" }
        (plainRequest [userMessage]) {} = (.ok { text := qs "b" }, {})
          from rfl)
      (answer_answers "b") (userMessage_continues rfl) (by decide)
      (by decide +kernel)).2 ?_
    exact Or.inl (by decide +kernel)
  · refine (reply_continues (by decide +kernel)
      (show validateConversationReply printing callingReply lookRequest {}
        = (.ok callingReply, {}) from rfl)
      twoCalls_answers twoCalls_continues (by decide) (by decide +kernel)).2 ?_
    exact Or.inr (List.cons_ne_nil _ _)

/-- A blank reply passes its check, and the conversation cannot go on. -/
theorem blank_reply_stuck :
    validateConversationRequest printing
        (plainRequest [userMessage]) defaultLimit
        = .ok ()
      ∧ validateConversationReply printing {} (plainRequest [userMessage]) {}
        = (.ok {}, {})
      ∧ Answers {} (answer "")
      ∧ Continues printing defaultLimit {} [userMessage]
      ∧ (compact (.object (ofMembers [(qs "messages",
          .array [userMessage, answer "", userMessage]),
            (qs "tools", .array []),
        (qs "response_schema", .object [])]))).length ≤ 1024 * 1024
      ∧ validateConversationRequest printing
          (extended (plainRequest [userMessage]) [answer "", userMessage])
            defaultLimit
        = .error (err .InvalidArgument "Empty conversation message") := by
  refine ⟨by decide +kernel, rfl, answer_answers "", userMessage_continues rfl,
    by decide +kernel, by decide +kernel⟩

end LocalLLM
