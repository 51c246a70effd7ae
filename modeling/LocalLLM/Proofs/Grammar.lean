/-
The language of structured conversations, and that the validator of
requests decides it.

# The language

`Dialogue` is the grammar: a user message stands alone, and an assistant
message is followed at once by the results of its calls, in any order.
`Conversational` adds the three conditions that are not local: a system
message may only open the list, no call id is used twice anywhere, and the
list ends in input. What an assistant message must be is a parameter of the
grammar (`Speaks`, `Proper`).

# The validator

It reads the list once with the ids seen and the ids that still wait. The
induction is over the list: what waits is a permutation of the results that
must come next (`Awaiting`), and what was seen is disjoint from the ids to
come. The two conditions that each message meets by itself are `WellFormed`.
-/
import LocalLLM.Proofs.Converse
import LocalLLM.Core.Objects

namespace LocalLLM

open Json

variable {c : Config} {maxCharacters : Int}

-- ============================================================== one message

/-- The members of a message. -/
def membersOf (value : Json) : JsonObject := toObject (some value)

/-- The role of a message. -/
def roleOf (value : Json) : QString := memberText (membersOf value) "role"

def contentOf (value : Json) :
    Option Json := lookup (membersOf value) (qs "content")

/-- The calls of a message. -/
def toolCallsOf (value : Json) : List Json :=
  toArray (lookup (membersOf value) (qs "tool_calls"))

/-- The ids of the calls of a message. -/
def callIds (value : Json) : List QString := (toolCallsOf value).map callId

/-- The id a tool result answers. -/
def resultId (value : Json) :
    QString := memberText (membersOf value) "tool_call_id"

/-- The text of a message is not blank. -/
def HasText (value : Json) : Prop :=
  QString.trimmed (memberText (membersOf value) "content") ≠ []

/-- The members a message may have. -/
def messageFields : List QString :=
  [qs "role", qs "content", qs "tool_calls", qs "tool_call_id",
    qs "reasoning_content", qs "name"]

/-- What the members of a message must be, whatever stands around it. -/
@[mk_iff] structure WellShaped (c : Config) (maxCharacters : Int)
    (value : Json) : Prop where
  object : isObject (some value) = true
  fields : ∀ m ∈ membersOf value, m.1 ∈ messageFields
  role : roleOf value = qs "system" ∨ roleOf value = qs "user"
    ∨ roleOf value = qs "assistant" ∨ roleOf value = qs "tool"
  content : contentOf value = none ∨ isNull (contentOf value) = true
    ∨ isString (contentOf value) = true
    ∨ ((roleOf value = qs "user" ∨ roleOf value = qs "tool")
      ∧ isArray (contentOf value) = true)
  native : isArray (contentOf value) = true → ∃ blocks,
    c.nativeContent (toArray (contentOf value)) maxCharacters = .ok blocks
      ∧ blocks ≠ []
  reasoning : lookup (membersOf value) (qs "reasoning_content") = none
    ∨ (roleOf value = qs "assistant"
      ∧ isString (lookup (membersOf value) (qs "reasoning_content")) = true)
  name : lookup (membersOf value) (qs "name") = none
    ∨ (roleOf value = qs "tool"
      ∧ isString (lookup (membersOf value) (qs "name")) = true)
  caller : roleOf value = qs "assistant"
    ∨ contains (membersOf value) (qs "tool_calls") = false
  result : roleOf value = qs "tool"
    ∨ contains (membersOf value) (qs "tool_call_id") = false

/-- A message that is well formed by itself. -/
structure WellFormed (c : Config) (maxCharacters : Int) (value : Json) : Prop
    extends WellShaped c maxCharacters value where
  /-- A result has text, blank or not, or native content. -/
  answer : roleOf value = qs "tool" →
    isString (contentOf value) = true ∨ isArray (contentOf value) = true
  calls : contains (membersOf value) (qs "tool_calls") = true →
    isArray (lookup (membersOf value) (qs "tool_calls")) = true
      ∧ ∀ call ∈ toolCallsOf value, ∃ id,
        checkCall c call .InvalidArgument = .ok id
  /-- Without calls there is something to read. -/
  text : roleOf value ≠ qs "tool" → toolCallsOf value = [] →
    HasText value ∨ isArray (contentOf value) = true

-- ============================================================= the language

/-- What follows the system message, with `assistant` for what an assistant
message must be. -/
inductive Dialogue (assistant : Json → Prop) : List Json → Prop
  | nil : Dialogue assistant []
  | user {m : Json} {rest : List Json} (hrole : roleOf m = qs "user")
      (hrest : Dialogue assistant rest) : Dialogue assistant (m :: rest)
  | assistant {m : Json} {results rest : List Json}
      (hrole : roleOf m = qs "assistant") (hm : assistant m)
      (htool : ∀ r ∈ results, roleOf r = qs "tool")
      (hresults : (results.map resultId).Perm (callIds m))
      (hrest : Dialogue assistant rest) :
      Dialogue assistant (m :: (results ++ rest))

/-- Text that is not blank, or 1 to 64 calls. -/
def Speaks (m : Json) : Prop :=
  HasText m ∨ (1 ≤ (toolCallsOf m).length ∧ (toolCallsOf m).length ≤ 64)

/-- Text that is not blank and no list of calls at all, or 1 to 64 calls. -/
def Proper (m : Json) : Prop :=
  (contains (membersOf m) (qs "tool_calls") = false ∧ HasText m)
    ∨ (contains (membersOf m) (qs "tool_calls") = true
      ∧ 1 ≤ (toolCallsOf m).length ∧ (toolCallsOf m).length ≤ 64)

/-- The language of conversations. -/
structure Conversational (assistant : Json → Prop) (messages : List Json) :
    Prop where
  turns : Dialogue assistant messages ∨ ∃ m rest, messages = m :: rest
    ∧ roleOf m = qs "system" ∧ Dialogue assistant rest
  distinct : (messages.flatMap callIds).Nodup
  ends : ∃ last, messages.getLast? = some last
    ∧ (roleOf last = qs "user" ∨ roleOf last = qs "tool")

/-- The messages that may come while `pending` waits: the results of
`pending`, in any order, and then turns. -/
def Awaiting (assistant : Json → Prop) (pending : List QString)
    (messages : List Json) : Prop :=
  ∃ results rest, messages = results ++ rest
    ∧ (∀ r ∈ results, roleOf r = qs "tool")
    ∧ (results.map resultId).Perm pending ∧ Dialogue assistant rest

section Language

variable {assistant : Json → Prop} {m : Json} {rest : List Json}
  {pending : List QString}

/-- No result opens a turn. -/
theorem Dialogue.head (h : Dialogue assistant (m :: rest)) :
    roleOf m ≠ qs "tool" := by
  cases h with
  | user hrole =>
      rw [hrole]
      decide
  | assistant hrole =>
      rw [hrole]
      decide

/-- At the end of a conversation no call may be open. -/
theorem awaiting_nil : Awaiting assistant pending [] ↔ pending = [] := by
  constructor
  · rintro ⟨results, rest, hsplit, -, hperm, -⟩
    obtain ⟨rfl, -⟩ := List.append_eq_nil_iff.1 hsplit.symm
    exact hperm.nil_eq.symm
  · rintro rfl
    exact ⟨[], [], rfl, by simp, List.Perm.refl _, .nil⟩

/-- A result answers one of the ids that wait. -/
theorem awaiting_tool (hrole : roleOf m = qs "tool") :
    Awaiting assistant pending (m :: rest) ↔ resultId m ∈ pending
      ∧ Awaiting assistant (pending.erase (resultId m)) rest := by
  constructor
  · rintro ⟨results, after, hsplit, htool, hperm, hturns⟩
    cases results with
    | nil =>
        have hturns : Dialogue assistant (m :: rest) := hsplit ▸ hturns
        exact absurd hrole hturns.head
    | cons r results =>
        obtain ⟨rfl, rfl⟩ := List.cons.inj hsplit
        obtain ⟨hmem, hperm⟩ := List.cons_perm_iff_perm_erase.1 hperm
        exact ⟨hmem, results, after, rfl,
          fun r hr => htool r (List.mem_cons_of_mem _ hr), hperm, hturns⟩
  · rintro ⟨hmem, results, after, rfl, htool, hperm, hturns⟩
    refine ⟨m :: results, after, rfl, List.forall_mem_cons.2
      ⟨hrole, htool⟩, ?_,
      hturns⟩
    exact List.cons_perm_iff_perm_erase.2 ⟨hmem, hperm⟩

/-- Nothing else may come while something waits. -/
theorem awaiting_speaker (hrole : roleOf m ≠ qs "tool") :
    Awaiting assistant pending (m :: rest) ↔
      pending = [] ∧ Dialogue assistant (m :: rest) := by
  constructor
  · rintro ⟨results, after, hsplit, htool, hperm, hturns⟩
    cases results with
    | nil => exact ⟨hperm.nil_eq.symm, hsplit ▸ hturns⟩
    | cons r results =>
        obtain ⟨rfl, -⟩ := List.cons.inj hsplit
        exact absurd (htool m List.mem_cons_self) hrole
  · rintro ⟨rfl, hturns⟩
    exact ⟨[], m :: rest, rfl, by simp, List.Perm.refl _, hturns⟩

/-- Without open calls the next message begins a new turn. -/
theorem awaiting_nothing {messages : List Json} :
    Awaiting assistant [] messages ↔ Dialogue assistant messages := by
  constructor
  · rintro ⟨results, rest, rfl, -, hperm, hturns⟩
    rw [List.perm_nil, List.map_eq_nil_iff] at hperm
    rw [hperm]
    exact hturns
  · intro hturns
    exact ⟨[], messages, rfl, by simp, List.Perm.refl _, hturns⟩

/-- The order in which results arrive is free, so the open calls
count as a set. -/
theorem Awaiting.perm {others : List QString} {messages : List Json}
    (h : Awaiting assistant pending messages) (hperm : pending.Perm others) :
    Awaiting assistant others messages := by
  obtain ⟨results, rest, hsplit, htool, hresults, hturns⟩ := h
  exact ⟨results, rest, hsplit, htool, hresults.trans hperm, hturns⟩

/-- A user message leaves the conversation where it was: at the
beginning of a turn. -/
theorem turns_user (hrole : roleOf m = qs "user") :
    Dialogue assistant (m :: rest) ↔ Dialogue assistant rest := by
  refine ⟨fun h => ?_, Dialogue.user hrole⟩
  cases h with
  | user _ hrest => exact hrest
  | assistant hother =>
      rw [hrole] at hother
      exact absurd hother (by decide)

/-- An assistant message opens the calls it makes. -/
theorem turns_assistant (hrole : roleOf m = qs "assistant") :
    Dialogue assistant (m :: rest) ↔
      assistant m ∧ Awaiting assistant (callIds m) rest := by
  constructor
  · intro h
    cases h with
    | user hother =>
        rw [hrole] at hother
        exact absurd hother (by decide)
    | assistant _ hm htool hresults hrest =>
        exact ⟨hm, _, _, rfl, htool, hresults, hrest⟩
  · rintro ⟨hm, results, after, rfl, htool, hresults, hrest⟩
    exact .assistant hrole hm htool hresults hrest

/-- A turn begins with a user or an assistant, never with a result. -/
theorem turns_speaker (h : Dialogue assistant (m :: rest)) :
    roleOf m = qs "user" ∨ roleOf m = qs "assistant" := by
  cases h with
  | user hrole => exact Or.inl hrole
  | assistant hrole => exact Or.inr hrole

end Language

-- ====================================================== checks of one message

/-- The guard on members refuses any name that is not listed. -/
theorem fields_eq_ok {object : JsonObject}
    {allowed : List QString} {u : Unit} :
    fields object allowed = .ok u ↔ ∀ m ∈ object, m.1 ∈ allowed := by
  unfold fields
  cases hfind : object.find? fun m => !allowed.contains m.1 with
  | none =>
      rw [List.find?_eq_none] at hfind
      simpa using hfind
  | some m =>
      have hm := List.mem_of_find?_eq_some hfind
      have hout := List.find?_some hfind
      simp only [reduceCtorEq, false_iff, not_forall]
      exact ⟨m, hm, by simpa using hout⟩

/-- A message passes exactly when it is shaped, a system message is the
first, and nothing but a result interrupts the results. -/
theorem checkShape_eq_ok {first : Bool} {value : Json} {pending : List QString}
    {u : Unit} :
    checkShape c maxCharacters first value pending = .ok u ↔
      WellShaped c maxCharacters value
        ∧ (roleOf value = qs "system" → first = true)
        ∧ (roleOf value = qs "tool" ∨ pending = []) := by
  have hsystem : (roleOf value ≠ qs "system" ∨ first = true)
      ↔ (roleOf value = qs "system" → first = true) := by
    rw [or_iff_not_imp_left, not_not]
  rw [wellShaped_iff, ← hsystem]
  unfold checkShape
  dsimp only
  by_cases harray : isArray (lookup (toObject (some value)) (qs "content"))
    = true
  · rw [if_pos harray]
    simp only [bind_eq_ok, require_eq_ok, fields_eq_ok, exists_const]
    constructor
    · rintro ⟨hfields, ⟨hobject, hrole⟩, hcontent, blocks, hnative, hblocks,
        hreasoning, hname, hsystem, hpending, hcaller, hresult⟩
      exact ⟨⟨hobject, hfields, hrole, hcontent,
        fun _ => ⟨blocks, hnative, hblocks⟩, hreasoning, hname,
          hcaller, hresult⟩,
        hsystem, hpending⟩
    · rintro ⟨⟨hobject, hfields, hrole, hcontent, hnative, hreasoning, hname,
        hcaller, hresult⟩, hsystem, hpending⟩
      obtain ⟨blocks, hnative, hblocks⟩ := hnative harray
      exact ⟨hfields, ⟨hobject, hrole⟩, hcontent, blocks, hnative, hblocks,
        hreasoning, hname, hsystem, hpending, hcaller, hresult⟩
  · rw [if_neg harray]
    simp only [bind_eq_ok, require_eq_ok, fields_eq_ok, exists_const]
    constructor
    · rintro ⟨hfields, ⟨hobject, hrole⟩, hcontent, -, hreasoning, hname,
        hsystem, hpending, hcaller, hresult⟩
      exact ⟨⟨hobject, hfields, hrole, hcontent, fun h => absurd h harray,
        hreasoning, hname, hcaller, hresult⟩, hsystem, hpending⟩
    · rintro ⟨⟨hobject, hfields, hrole, hcontent, -, hreasoning, hname,
        hcaller, hresult⟩, hsystem, hpending⟩
      exact ⟨hfields, ⟨hobject, hrole⟩, hcontent, trivial, hreasoning,
        hname, hsystem, hpending, hcaller, hresult⟩

/-- The calls of a message pass when each is a call and their ids are new, also
against each other. -/
theorem checkCalls_eq_ok {calls : List Json} :
    ∀ {ids pending : List QString} {out : List QString × List QString},
    checkCalls c calls ids pending = .ok out ↔
      (∀ call ∈ calls, ∃ id, checkCall c call .InvalidArgument = .ok id)
        ∧ (calls.map callId).Nodup ∧ (∀ id ∈ calls.map callId, id ∉ ids)
        ∧ out = ((calls.map callId).reverse ++ ids,
          (calls.map callId).reverse ++ pending) := by
  induction calls with
  | nil =>
      intro ids pending out
      simp [checkCalls, eq_comm]
  | cons call rest ih =>
      intro ids pending out
      unfold checkCalls
      simp only [bind_eq_ok, require_eq_ok]
      constructor
      · rintro ⟨id, hcall, _, hnew, hrest⟩
        obtain ⟨rfl, -⟩ := checkCall_ok hcall
        obtain ⟨hcalls, hnodup, hids, rfl⟩ := ih.1 hrest
        refine ⟨?_, ?_, ?_, by simp⟩
        · exact List.forall_mem_cons.2 ⟨⟨_, hcall⟩, hcalls⟩
        · refine List.nodup_cons.2 ⟨fun hmem => ?_, hnodup⟩
          exact hids _ hmem List.mem_cons_self
        · refine List.forall_mem_cons.2 ⟨hnew, fun id hid hmem => ?_⟩
          exact hids id hid (List.mem_cons_of_mem _ hmem)
      · rintro ⟨hcalls, hnodup, hids, rfl⟩
        obtain ⟨⟨id, hcall⟩, hcalls⟩ := List.forall_mem_cons.1 hcalls
        obtain ⟨hfresh, hnodup⟩ := List.nodup_cons.1 hnodup
        obtain ⟨hnew, hids⟩ := List.forall_mem_cons.1 hids
        obtain ⟨rfl, -⟩ := checkCall_ok hcall
        refine ⟨callId call, hcall, (), hnew,
          ih.2 ⟨hcalls, hnodup, ?_, by simp⟩⟩
        intro id hid hmem
        rcases List.mem_cons.1 hmem with rfl | hmem
        · exact hfresh hid
        · exact hids id hid hmem

/-- A result passes when it has content and its call waits. -/
theorem checkBody_tool {value : Json} (hrole : roleOf value = qs "tool")
    {ids pending : List QString} {out : List QString × List QString} :
    checkBody c value ids pending = .ok out ↔
      (isString (contentOf value) = true ∨ isArray (contentOf value) = true)
        ∧ resultId value ∈ pending
        ∧ out = (ids, pending.erase (resultId value)) := by
  unfold roleOf membersOf at hrole
  unfold checkBody
  dsimp only
  rw [if_pos hrole]
  simp only [bind_eq_ok, require_eq_ok, exists_const]
  constructor
  · rintro ⟨⟨hmem, hcontent⟩, hout⟩
    injection hout with hout
    exact ⟨hcontent, hmem, hout.symm⟩
  · rintro ⟨hcontent, hmem, rfl⟩
    exact ⟨⟨hmem, hcontent⟩, rfl⟩

/-- A message with calls passes when each of its 1 to 64 calls is one and
their ids are new. -/
theorem checkBody_calls {value : Json} (hrole : roleOf value = qs "assistant")
    (hcalls : contains (membersOf value) (qs "tool_calls") = true)
    {ids pending : List QString} {out : List QString × List QString} :
    checkBody c value ids pending = .ok out ↔
      isArray (lookup (membersOf value) (qs "tool_calls")) = true
        ∧ (1 ≤ (toolCallsOf value).length ∧ (toolCallsOf value).length ≤ 64)
        ∧ (∀ call ∈ toolCallsOf value, ∃ id,
          checkCall c call .InvalidArgument = .ok id)
        ∧ (callIds value).Nodup ∧ (∀ id ∈ callIds value, id ∉ ids)
        ∧ out = ((callIds value).reverse ++ ids,
          (callIds value).reverse ++ pending) := by
  have hne : roleOf value ≠ qs "tool" := by
    rw [hrole]
    decide
  have hlength : ∀ calls : List Json, calls ≠ [] ↔ 1 ≤ calls.length := by
    intro calls
    rw [← List.length_pos_iff]
    rfl
  unfold roleOf membersOf at hrole hne
  unfold membersOf at hcalls
  unfold checkBody
  dsimp only
  rw [if_neg hne, if_pos ⟨hrole, hcalls⟩]
  simp only [bind_eq_ok, require_eq_ok, exists_const, hlength,
    checkCalls_eq_ok]
  exact Iff.rfl

/-- Any other message passes when there is something to read in it. -/
theorem checkBody_text {value : Json} (htool : roleOf value ≠ qs "tool")
    (hcalls : ¬ (roleOf value = qs "assistant"
      ∧ contains (membersOf value) (qs "tool_calls") = true))
    {ids pending : List QString} {out : List QString × List QString} :
    checkBody c value ids pending = .ok out ↔
      (HasText value ∨ isArray (contentOf value) = true)
        ∧ out = (ids, pending) := by
  unfold roleOf membersOf at htool hcalls
  unfold checkBody
  dsimp only
  rw [if_neg htool, if_neg hcalls]
  simp only [bind_eq_ok, require_eq_ok, exists_const]
  constructor
  · rintro ⟨htext, hout⟩
    injection hout with hout
    exact ⟨htext, hout.symm⟩
  · rintro ⟨htext, rfl⟩
    exact ⟨htext, rfl⟩

-- ========================================================== the whole request

/-- Only an assistant message carries calls. -/
theorem WellShaped.no_calls {value : Json}
    (h : WellShaped c maxCharacters value)
    (hrole : roleOf value ≠ qs "assistant") :
    contains (membersOf value) (qs "tool_calls") = false :=
  h.caller.resolve_left hrole

theorem toolCallsOf_eq_nil {value : Json}
    (h : contains (membersOf value) (qs "tool_calls") = false) :
    toolCallsOf value = [] := by
  rw [contains_eq, Option.isSome_eq_false_iff, Option.isNone_iff_eq_none] at h
  unfold toolCallsOf
  rw [h]
  rfl

/-- Only users and tools send native content. -/
theorem WellShaped.sender {value : Json} (h : WellShaped c maxCharacters value)
    (harray : isArray (contentOf value) = true) :
    roleOf value = qs "user" ∨ roleOf value = qs "tool" := by
  rcases h.content with hnone | hnull | hstring | ⟨hrole, -⟩
  · rw [hnone] at harray
    cases harray
  · cases hcontent : contentOf value with
    | none => simp [hcontent, isArray] at harray
    | some v => cases v <;> simp_all [isArray, isNull]
  · cases hcontent : contentOf value with
    | none => simp [hcontent, isArray] at harray
    | some v => cases v <;> simp_all [isArray, isString]
  · exact hrole

/-- What a result does to the two sets. -/
theorem step_tool {value : Json} (hrole : roleOf value = qs "tool")
    {first : Bool}
    {ids pending : List QString} {next : List QString × List QString} :
    (checkShape c maxCharacters first value pending = .ok ()
        ∧ checkBody c value ids pending = .ok next) ↔
      WellFormed c maxCharacters value ∧ resultId value ∈ pending
        ∧ next = (ids, pending.erase (resultId value)) := by
  rw [checkShape_eq_ok, checkBody_tool hrole]
  have hother : roleOf value ≠ qs "assistant" := by
    rw [hrole]
    decide
  constructor
  · rintro ⟨⟨hshape, -⟩, hanswer, hmem, hnext⟩
    refine ⟨⟨hshape, fun _ => hanswer, ?_, ?_⟩, hmem, hnext⟩
    · intro hcalls
      rw [hshape.no_calls hother] at hcalls
      cases hcalls
    · exact fun htool => absurd hrole htool
  · rintro ⟨hwell, hmem, hnext⟩
    refine ⟨⟨hwell.toWellShaped, ?_, Or.inl hrole⟩,
      hwell.answer hrole, hmem, hnext⟩
    intro hsystem
    rw [hrole] at hsystem
    exact absurd hsystem (by decide)

/-- What any other message does to the two sets. A turn begins only when no
call is open. -/
theorem step_speaker {value : Json} (hrole : roleOf value ≠ qs "tool")
    {first : Bool} {ids pending : List QString}
    {next : List QString × List QString} :
    (checkShape c maxCharacters first value pending = .ok ()
        ∧ checkBody c value ids pending = .ok next) ↔
      WellFormed c maxCharacters value
        ∧ (roleOf value = qs "system" → first = true) ∧ pending = []
        ∧ (roleOf value = qs "assistant" → Proper value)
        ∧ (callIds value).Nodup ∧ (∀ id ∈ callIds value, id ∉ ids)
        ∧ next = ((callIds value).reverse ++ ids,
          (callIds value).reverse) := by
  rw [checkShape_eq_ok]
  by_cases hcalls : roleOf value = qs "assistant"
      ∧ contains (membersOf value) (qs "tool_calls") = true
  · rw [checkBody_calls hcalls.1 hcalls.2]
    constructor
    · rintro ⟨⟨hshape, hsystem, hpending⟩, harray, hcount, heach,
        hnodup, hids, hnext⟩
      have hpending := hpending.resolve_left hrole
      refine ⟨⟨hshape, fun h => absurd h hrole, fun _ => ⟨harray, heach⟩, ?_⟩,
        hsystem, hpending, fun _ => Or.inr ⟨hcalls.2, hcount⟩,
          hnodup, hids, ?_⟩
      · intro _ hnil
        rw [hnil] at hcount
        exact absurd hcount.1 (by decide)
      · rw [hnext, hpending, List.append_nil]
    · rintro ⟨hwell, hsystem, hpending, hproper, hnodup, hids, hnext⟩
      obtain ⟨harray, heach⟩ := hwell.calls hcalls.2
      refine ⟨⟨hwell.toWellShaped, hsystem, Or.inr hpending⟩, harray, ?_,
        heach, hnodup,
        hids, ?_⟩
      · rcases hproper hcalls.1 with ⟨hnone, -⟩ | ⟨-, hcount⟩
        · rw [hcalls.2] at hnone
          cases hnone
        · exact hcount
      · rw [hnext, hpending, List.append_nil]
  · rw [checkBody_text hrole hcalls]
    have hnone : WellShaped c maxCharacters value →
        contains (membersOf value) (qs "tool_calls") = false := by
      intro hshape
      rcases hshape.caller with hassistant | hnone
      · exact Bool.eq_false_iff.2 fun h => hcalls ⟨hassistant, h⟩
      · exact hnone
    have hids : WellShaped c maxCharacters value → callIds value = [] := by
      intro hshape
      unfold callIds
      rw [toolCallsOf_eq_nil (hnone hshape), List.map_nil]
    constructor
    · rintro ⟨⟨hshape, hsystem, hpending⟩, htext, hnext⟩
      have hpending := hpending.resolve_left hrole
      rw [hids hshape, hnext, hpending]
      refine ⟨⟨hshape, fun h => absurd h hrole, ?_, fun _ _ => htext⟩,
        hsystem, rfl,
        ?_, List.nodup_nil, by simp, rfl⟩
      · intro h
        rw [hnone hshape] at h
        cases h
      · intro hassistant
        refine Or.inl ⟨hnone hshape, htext.resolve_right fun harray => ?_⟩
        rcases hshape.sender harray with huser | htool
        · rw [hassistant] at huser
          exact absurd huser (by decide)
        · exact hrole htool
    · rintro ⟨hwell, hsystem, hpending, -, -, -, hnext⟩
      rw [hids hwell.toWellShaped] at hnext
      rw [hnext, hpending]
      exact ⟨⟨hwell.toWellShaped, hsystem, Or.inr rfl⟩,
        hwell.text hrole (toolCallsOf_eq_nil (hnone hwell.toWellShaped)), rfl⟩

/-- One round of the loop: the shape of a message, then what its body does to
the ids and the open calls. -/
theorem checkMessages_cons {first : Bool} {value : Json} {rest : List Json}
    {ids pending out : List QString} :
    checkMessages c maxCharacters first (value :: rest) ids pending = .ok out ↔
      ∃ next, (checkShape c maxCharacters first value pending = .ok ()
          ∧ checkBody c value ids pending = .ok next)
        ∧ checkMessages c maxCharacters false rest next.1 next.2
          = .ok out := by
  rw [checkMessages]
  simp only [bind_eq_ok]
  constructor
  · rintro ⟨_, hshape, next, hbody, hrest⟩
    exact ⟨next, ⟨hshape, hbody⟩, hrest⟩
  · rintro ⟨next, ⟨hshape, hbody⟩, hrest⟩
    exact ⟨(), hshape, next, hbody, hrest⟩

/-- The ids of a list of messages are distinct, and none of them was seen. -/
def Fresh (ids : List QString) (messages : List Json) : Prop :=
  (messages.flatMap callIds).Nodup ∧ ∀ id ∈ messages.flatMap callIds, id ∉ ids

/-- Ids are fresh against all calls before them, which the loop keeps in
reverse order. -/
theorem fresh_cons {ids : List QString} {m : Json} {rest : List Json} :
    Fresh ids (m :: rest) ↔ (callIds m).Nodup ∧ (∀ id ∈ callIds m, id ∉ ids)
      ∧ Fresh ((callIds m).reverse ++ ids) rest := by
  unfold Fresh
  rw [List.flatMap_cons, List.nodup_append']
  constructor
  · rintro ⟨⟨hm, hrest, hdisjoint⟩, hids⟩
    refine ⟨hm, fun id h => hids id (List.mem_append_left _ h), hrest, ?_⟩
    intro id hid hmem
    rcases List.mem_append.1 hmem with hmem | hmem
    · exact hdisjoint (List.mem_reverse.1 hmem) hid
    · exact hids id (List.mem_append_right _ hid) hmem
  · rintro ⟨hm, hids, hrest, hnew⟩
    refine ⟨⟨hm, hrest, fun id hid hmem => ?_⟩, fun id hid hmem => ?_⟩
    · exact hnew id hmem (List.mem_append_left _ (List.mem_reverse.2 hid))
    · rcases List.mem_append.1 hid with hid | hid
      · exact hids id hid hmem
      · exact hnew id hid (List.mem_append_right _ hmem)

/-- So a message of any other role opens none. -/
theorem WellShaped.callIds_nil {value : Json}
    (h : WellShaped c maxCharacters value)
    (hrole : roleOf value ≠ qs "assistant") : callIds value = [] := by
  unfold callIds
  rw [toolCallsOf_eq_nil (h.no_calls hrole), List.map_nil]

/-- The loop after the first message: what it accepts is the language, from
any two sets. -/
theorem checkMessages_rest {messages : List Json} :
    ∀ {ids pending : List QString},
    checkMessages c maxCharacters false messages ids pending = .ok [] ↔
      (∀ m ∈ messages, WellFormed c maxCharacters m)
        ∧ Awaiting Proper pending messages ∧ Fresh ids messages := by
  induction messages with
  | nil =>
      intro ids pending
      simp [checkMessages, awaiting_nil, Fresh]
  | cons m rest ih =>
      intro ids pending
      rw [checkMessages_cons, List.forall_mem_cons, fresh_cons]
      by_cases htool : roleOf m = qs "tool"
      · have hnil : WellFormed c maxCharacters m → callIds m = [] := by
          refine fun hwell => hwell.toWellShaped.callIds_nil ?_
          rw [htool]
          decide
        simp only [step_tool htool, ih, awaiting_tool htool]
        constructor
        · rintro ⟨_, ⟨hwell, hmem, rfl⟩, hrest, hawait, hfresh⟩
          refine ⟨⟨hwell, hrest⟩, ⟨hmem, hawait⟩, ?_⟩
          rw [hnil hwell]
          exact ⟨List.nodup_nil, by simp, hfresh⟩
        · rintro ⟨⟨hwell, hrest⟩, ⟨hmem, hawait⟩, -, -, hfresh⟩
          rw [hnil hwell] at hfresh
          exact ⟨_, ⟨hwell, hmem, rfl⟩, hrest, hawait, hfresh⟩
      · simp only [step_speaker htool, ih, awaiting_speaker htool]
        constructor
        · rintro ⟨_, ⟨hwell, hsystem, hpending, hproper, hnodup,
            hids, rfl⟩, hrest,
            hawait, hfresh⟩
          refine ⟨⟨hwell, hrest⟩, ⟨hpending, ?_⟩, hnodup, hids, hfresh⟩
          rcases hwell.role with hrole | hrole | hrole | hrole
          · exact absurd (hsystem hrole) (by decide)
          · rw [hwell.callIds_nil (by rw [hrole]; decide), List.reverse_nil,
              awaiting_nothing] at hawait
            exact (turns_user hrole).2 hawait
          · exact (turns_assistant hrole).2
              ⟨hproper hrole, hawait.perm (by simp)⟩
          · exact absurd hrole htool
        · rintro ⟨⟨hwell, hrest⟩, ⟨hpending, hturns⟩, hnodup, hids, hfresh⟩
          refine ⟨_, ⟨hwell, ?_, hpending, ?_, hnodup, hids, rfl⟩,
            hrest, ?_, hfresh⟩
          · intro hrole
            rcases turns_speaker hturns with huser | hassistant
            · rw [hrole] at huser
              exact absurd huser (by decide)
            · rw [hrole] at hassistant
              exact absurd hassistant (by decide)
          · exact fun hrole => ((turns_assistant hrole).1 hturns).1
          · rcases turns_speaker hturns with hrole | hrole
            · rw [hwell.callIds_nil (by rw [hrole]; decide), List.reverse_nil,
                awaiting_nothing]
              exact (turns_user hrole).1 hturns
            · exact ((turns_assistant hrole).1 hturns).2.perm (by simp)

/-- Being first matters to a system message only. -/
theorem checkMessages_first {m : Json} {rest : List Json}
    {ids pending out : List QString} (hrole : roleOf m ≠ qs "system") :
    checkMessages c maxCharacters true (m :: rest) ids pending = .ok out ↔
      checkMessages c maxCharacters false (m :: rest) ids pending
        = .ok out := by
  simp only [checkMessages_cons, checkShape_eq_ok, hrole, false_implies]

/-- The loop over all messages: a system message may come first. The loop
carries the ids that were used and the calls that are open, and both are empty
at the start. -/
theorem checkMessages_eq_ok {messages : List Json} :
    checkMessages c maxCharacters true messages [] [] = .ok [] ↔
      (∀ m ∈ messages, WellFormed c maxCharacters m)
        ∧ (Dialogue Proper messages ∨ ∃ m rest, messages = m :: rest
          ∧ roleOf m = qs "system" ∧ Dialogue Proper rest)
        ∧ (messages.flatMap callIds).Nodup := by
  cases messages with
  | nil => simp [checkMessages, Dialogue.nil]
  | cons m rest =>
      by_cases hrole : roleOf m = qs "system"
      · have htool : roleOf m ≠ qs "tool" := by
          rw [hrole]
          decide
        have hother : roleOf m ≠ qs "assistant" := by
          rw [hrole]
          decide
        have hturns : ¬ Dialogue Proper (m :: rest) := by
          intro h
          rcases turns_speaker h with huser | hassistant
          · rw [hrole] at huser
            exact absurd huser (by decide)
          · exact hother hassistant
        simp only [checkMessages_cons, step_speaker htool, checkMessages_rest]
        constructor
        · rintro ⟨_, ⟨hwell, -, -, -, -, -, rfl⟩, hrest, hawait, hfresh⟩
          have hnil := hwell.callIds_nil hother
          rw [hnil, List.reverse_nil, awaiting_nothing] at hawait
          refine ⟨List.forall_mem_cons.2 ⟨hwell, hrest⟩,
            Or.inr ⟨m, rest, rfl, hrole, hawait⟩, ?_⟩
          rw [List.flatMap_cons, hnil]
          exact hfresh.1
        · rintro ⟨hwell, hopening, hnodup⟩
          obtain ⟨hwell, hrest⟩ := List.forall_mem_cons.1 hwell
          obtain ⟨_, _, hsplit, -, hafter⟩ := hopening.resolve_left hturns
          obtain ⟨rfl, rfl⟩ := List.cons.inj hsplit
          have hnil := hwell.callIds_nil hother
          rw [List.flatMap_cons, hnil, List.nil_append] at hnodup
          refine ⟨([], []), ⟨hwell, fun _ => trivial, trivial, fun h =>
            absurd h hother, ?_⟩,
            hrest, awaiting_nothing.2 hafter, hnodup, by simp⟩
          rw [hnil]
          exact ⟨List.nodup_nil, by simp, rfl⟩
      · rw [checkMessages_first hrole, checkMessages_rest, awaiting_nothing]
        constructor
        · rintro ⟨hwell, hturns, hnodup, -⟩
          exact ⟨hwell, Or.inl hturns, hnodup⟩
        · rintro ⟨hwell, hopening, hnodup⟩
          refine ⟨hwell, ?_, hnodup, by simp⟩
          rcases hopening with hturns | ⟨_, _, hsplit, hsystem, -⟩
          · exact hturns
          · obtain ⟨rfl, -⟩ := List.cons.inj hsplit
            exact absurd hsystem hrole

/-- What a request must be besides its messages. -/
structure Admissible (c : Config) (r : ConversationRequest)
    (maxCharacters : Int) : Prop where
  options : ∃ u, c.validateGenerationOptions r.options = .ok u
  lifetime : r.contextId.length ≤ 128 ∧ -1 ≤ r.keepAliveMs
    ∧ r.keepAliveMs ≤ maxKeepAliveMs
  choice : r.toolChoice = qs "auto" ∨ r.toolChoice = qs "none"
    ∨ r.toolChoice = qs "required"
  demand : r.toolChoice ≠ qs "required" ∨ r.tools ≠ []
  count : r.messages.length ≤ 4096 ∧ r.tools.length ≤ 256
  size : ((c.toJson (ofMembers [(qs "messages", .array r.messages),
    (qs "tools", .array r.tools),
    (qs "response_schema", .object r.responseSchema)])).length : Int)
      ≤ maxCharacters
  tools : ∃ u, checkTools r.tools [] = .ok u

/-- The validator, whole: what surrounds the messages, each message by
itself, and the language. -/
theorem validateConversationRequest_eq_ok {r : ConversationRequest}
    {u : Unit} :
    validateConversationRequest c r maxCharacters = .ok u ↔
      Admissible c r maxCharacters
        ∧ (∀ m ∈ r.messages, WellFormed c maxCharacters m)
        ∧ Conversational Proper r.messages := by
  unfold validateConversationRequest
  simp only [bind_eq_ok, require_eq_ok]
  constructor
  · rintro ⟨_, hoptions, _, hlifetime, _, hchoice, _, hdemand, _,
      hcount, _, hsize,
      _, htools, pending, hmessages, rfl, hlast⟩
    obtain ⟨hwell, hopening, hnodup⟩ := checkMessages_eq_ok.1 hmessages
    refine ⟨⟨⟨_, hoptions⟩, hlifetime, hchoice, hdemand, hcount.2,
      hsize, _, htools⟩,
      hwell, hopening, hnodup, ?_⟩
    cases hget : r.messages.getLast? with
    | none => exact absurd (List.getLast?_eq_none_iff.1 hget) hcount.1
    | some last =>
        rw [hget] at hlast
        exact ⟨last, rfl, hlast⟩
  · rintro ⟨⟨⟨_, hoptions⟩, hlifetime, hchoice, hdemand, hcount,
      hsize, _, htools⟩,
      hwell, hopening, hnodup, last, hlast, hrole⟩
    have hne : r.messages ≠ [] := by
      intro h
      rw [h] at hlast
      cases hlast
    refine ⟨_, hoptions, (), hlifetime, (), hchoice, (), hdemand, (),
      ⟨hne, hcount⟩,
      (), hsize, _, htools, [], checkMessages_eq_ok.2
        ⟨hwell, hopening, hnodup⟩,
      rfl, ?_⟩
    rw [hlast]
    exact hrole

/-- The validator decides the language, for requests whose other parts are
admissible and whose messages are well formed each by itself. What remains is
the order of the messages, their ids and their calls, which is what
`Conversational` says. -/
theorem validator_decides_language {r : ConversationRequest}
    (hadmissible : Admissible c r maxCharacters)
    (hwell : ∀ m ∈ r.messages, WellFormed c maxCharacters m) :
    validateConversationRequest c r maxCharacters = .ok ()
      ↔ Conversational Proper r.messages := by
  rw [validateConversationRequest_eq_ok]
  exact ⟨fun h => h.2.2, fun h => ⟨hadmissible, hwell, h⟩⟩

mutual

/-- The compact text of a value whose strings need no escape and that holds
no numbers. -/
def compact : Json → QString
  | .null => qs "null"
  | .bool b => if b then qs "true" else qs "false"
  | .number _ => []
  | .string s => [qc '"'] ++ s ++ [qc '"']
  | .array items => [qc '['] ++ compactItems items ++ [qc ']']
  | .object members => [qc '\x7b'] ++ compactMembers members ++ [qc '\x7d']

def compactItems : List Json → QString
  | [] => []
  | [v] => compact v
  | v :: rest => compact v ++ [qc ','] ++ compactItems rest

def compactMembers : List (QString × Json) → QString
  | [] => []
  | [(k, v)] => [qc '"'] ++ k ++ [qc '"', qc ':'] ++ compact v
  | (k, v) :: rest =>
      [qc '"'] ++ k ++ [qc '"', qc ':'] ++ compact v ++ [qc ',']
        ++ compactMembers rest

end

/-- The sample service, with that text for the size of a request. -/
def printing : Config :=
  { Sample.config with toJson := fun o => compact (.object o) }

/-- The limit a service has by default. -/
def defaultLimit : Int := 1024 * 1024

/-- A message of the user with a text. -/
def userMessage : Json :=
  .object [(qs "content", .string (qs "a")), (qs "role", .string (qs "user"))]

/-- An assistant message with a text and an empty list of calls. -/
def emptyCalls : Json :=
  .object [(qs "content", .string (qs "b")),
    (qs "role", .string (qs "assistant")),
    (qs "tool_calls", .array [])]

theorem userMessage_wellFormed :
    WellFormed printing defaultLimit userMessage := by
  have haccepted : checkMessages printing defaultLimit false
    [userMessage] [] []
      = .ok [] := by
    rfl
  exact (checkMessages_rest.1 haccepted).1 _ List.mem_cons_self

theorem emptyCalls_wellFormed :
    WellFormed printing defaultLimit emptyCalls where
  object := rfl
  fields := by decide
  role := by decide
  content := by decide
  native := fun h => nomatch h
  reasoning := Or.inl rfl
  name := Or.inl rfl
  caller := Or.inl rfl
  result := Or.inr rfl
  answer := by decide
  calls := fun _ => ⟨rfl, fun _ h => nomatch h⟩
  text := fun _ _ => Or.inl (by
    show QString.trimmed (qs "b") ≠ []
    decide +kernel)

/-- A request with the given messages. -/
def plainRequest (messages : List Json) : ConversationRequest :=
  { model := qs "model://tiny", messages }

/-- A request without tools and schema is admitted when its options are and its
messages fit. -/
theorem plainRequest_admissible {c : Config} {maxCharacters : Int}
    {messages : List Json}
    (hoptions : ∃ u, c.validateGenerationOptions {} = .ok u)
    (hcount : messages.length ≤ 4096)
    (hsize : ((c.toJson (ofMembers [(qs "messages", .array messages),
      (qs "tools", .array []), (qs "response_schema", .object [])])).length :
        Int)
        ≤ maxCharacters) :
    Admissible c (plainRequest messages) maxCharacters where
  options := hoptions
  lifetime := ⟨Nat.zero_le _, by show (-1 : Int) ≤ -1; decide,
    by show (-1 : Int) ≤ maxKeepAliveMs; decide⟩
  choice := Or.inl rfl
  demand := Or.inl (by show qs "auto" ≠ qs "required"; decide)
  count := ⟨hcount, Nat.zero_le _⟩
  size := hsize
  tools := ⟨(), rfl⟩

/-- A call of a tool, without arguments. -/
def sampleCall (id : String) : Json :=
  .object
    [(qs "function", .object [(qs "arguments", .string (qs "\x7b\x7d")),
      (qs "name", .string (qs "look"))]),
     (qs "id", .string (qs id)), (qs "type", .string (qs "function"))]

/-- An assistant message with two calls. -/
def twoCalls : Json :=
  .object [(qs "content", .null), (qs "role", .string (qs "assistant")),
    (qs "tool_calls", .array [sampleCall "a", sampleCall "b"])]

/-- The result of a call. -/
def sampleResult (id : String) : Json :=
  .object [(qs "content", .string (qs "seen")),
    (qs "role", .string (qs "tool")),
    (qs "tool_call_id", .string (qs id))]

/-- Both calls are answered, the second one first. -/
def answeredTurn : List Json :=
  [userMessage, twoCalls, sampleResult "b", sampleResult "a", userMessage]

/-- One of the calls is not answered. -/
def openTurn : List Json :=
  [userMessage, twoCalls, sampleResult "b", userMessage]

theorem answeredTurn_wellFormed :
    ∀ m ∈ answeredTurn, WellFormed printing defaultLimit m := by
  have haccepted : checkMessages printing defaultLimit false answeredTurn [] []
      = .ok [] := by
    rfl
  exact (checkMessages_rest.1 haccepted).1

/-- Two calls may be answered in the other order, and each has to
be answered. -/
theorem validator_decides_language_user :
    Conversational Proper answeredTurn ∧ ¬ Conversational Proper openTurn := by
  constructor
  · refine (validator_decides_language
      (plainRequest_admissible ⟨(), rfl⟩ (by decide) (by decide +kernel))
      answeredTurn_wellFormed).1 ?_
    decide +kernel
  · intro h
    have hwell : ∀ m ∈ openTurn, WellFormed printing defaultLimit m := by
      intro m hm
      refine answeredTurn_wellFormed m ?_
      unfold openTurn at hm
      unfold answeredTurn
      simp only [List.mem_cons] at hm ⊢
      tauto
    have haccepted := (validator_decides_language
      (plainRequest_admissible ⟨(), rfl⟩ (by decide) (by decide +kernel))
        hwell).2 h
    exact absurd haccepted (by decide +kernel)

/-- A text beside an empty list of calls: the message has text that is not
blank, and the validator refuses it for its calls. -/
theorem empty_calls_refused :
    Admissible printing
        (plainRequest [userMessage, emptyCalls, userMessage]) defaultLimit
      ∧ (∀ m ∈ [userMessage, emptyCalls, userMessage],
        WellFormed printing defaultLimit m)
      ∧ Conversational Speaks [userMessage, emptyCalls, userMessage]
      ∧ validateConversationRequest printing
          (plainRequest [userMessage, emptyCalls, userMessage]) defaultLimit
        = .error (err .InvalidArgument "Invalid tool call count") := by
  refine ⟨plainRequest_admissible ⟨(), rfl⟩ (by decide)
    (by decide +kernel), ?_,
    ⟨Or.inl ?_, ?_, ?_⟩, by decide +kernel⟩
  · intro m hm
    simp only [List.mem_cons, List.not_mem_nil, or_false] at hm
    rcases hm with rfl | rfl | rfl
    · exact userMessage_wellFormed
    · exact emptyCalls_wellFormed
    · exact userMessage_wellFormed
  · have hspeaks : Speaks emptyCalls := by
      refine Or.inl ?_
      show QString.trimmed (qs "b") ≠ []
      decide +kernel
    have hlast : Dialogue Speaks [userMessage] := .user rfl .nil
    exact .user rfl ((turns_assistant rfl).2
      ⟨hspeaks, awaiting_nothing.2 hlast⟩)
  · exact List.nodup_nil
  · exact ⟨userMessage, rfl, Or.inl rfl⟩

end LocalLLM
