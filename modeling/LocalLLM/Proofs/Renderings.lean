/-
The two renderings of a completion.

`bytes` renders an event as chunks and `answer` the result as one object.
`collect_stream` and `read_answer` say what a client reads from either; they
meet because the text of a result is that of the deltas before it.
-/
import LocalLLM.Service.HttpCompletion

namespace LocalLLM

open Json

namespace Completion

variable {q : Completion}

-- ===================================================================== chunks

theorem lookup_envelope_usage (q : Completion) (id : QString)
    (streaming : Bool) : lookup (q.envelope id streaming) (qs "usage")
      = none := by
  unfold envelope
  rw [lookup_ofMembers]
  rfl

theorem choice_chunk (q : Completion) (id : QString) (delta : JsonObject)
    (reason : Json) : choice (q.chunk id delta reason)
      = ofMembers [(qs "index", jsonInt 0), (qs "delta", .object delta),
        (qs "finish_reason", reason)] := by
  unfold choice chunk
  rw [lookup_insert_self]
  rfl

/-- What one chunk adds. -/
theorem collectChunk_chunk (acc : Collected) (id : QString)
    (delta : JsonObject) (reason : Json) :
    collectChunk acc (q.chunk id delta reason) =
      { text := acc.text ++ toText (lookup delta (qs "content"))
        reasoning := acc.reasoning
          ++ toText (lookup delta (qs "reasoning_content"))
        toolCalls := acc.toolCalls
          ++ (toArray (lookup delta (qs "tool_calls"))).map withoutIndex
        finishReason := match reason with
          | .string text => some text
          | _ => acc.finishReason
        usage := acc.usage } := by
  have hdelta : lookup (choice (q.chunk id delta reason)) (qs "delta")
      = some (.object delta) := by
    rw [choice_chunk, lookup_ofMembers]
    rfl
  have hreason : lookup (choice (q.chunk id delta reason)) (qs "finish_reason")
      = some reason := by
    rw [choice_chunk, lookup_ofMembers]
    rfl
  have husage : lookup (q.chunk id delta reason) (qs "usage") = none := by
    unfold chunk
    rw [lookup_insert_ne _ _ (by decide), lookup_envelope_usage]
  unfold collectChunk
  rw [hdelta, hreason, husage]
  cases reason <;> rfl

/-- A usage that is null adds nothing. -/
theorem collectChunk_null_usage (acc : Collected) (value : JsonObject)
    (hnone : lookup value (qs "usage") = none) :
    collectChunk acc (insert value (qs "usage") .null)
      = collectChunk acc value := by
  have hchoice : choice (insert value (qs "usage") .null) = choice value := by
    unfold choice
    rw [lookup_insert_ne _ _ (by decide)]
  unfold collectChunk
  rw [hchoice, lookup_insert_self, hnone]

theorem collect_cons_data (value : JsonObject) (frames : List SseFrame)
    (acc : Collected) :
    collect (.data value :: frames) acc
      = collect frames (collectChunk acc value) :=
  rfl

theorem collect_append (xs ys : List SseFrame) (acc : Collected) :
    collect (xs ++ ys) acc = collect ys (collect xs acc) :=
  List.foldl_append

/-- What a chunk of the callback adds. -/
theorem collect_makeChunk (acc : Collected) (id : QString) {delta : JsonObject}
    (text reasoning : QString) (calls : List Json) (reason : Json)
    (htext : toText (lookup delta (qs "content")) = text)
    (hreasoning : toText (lookup delta (qs "reasoning_content")) = reasoning)
    (hcalls : toArray (lookup delta (qs "tool_calls")) = calls) :
    collect [q.makeChunk id delta reason] acc =
      { acc with
        text := acc.text ++ text
        reasoning := acc.reasoning ++ reasoning
        toolCalls := acc.toolCalls ++ calls.map withoutIndex
        finishReason := match reason with
          | .string text => some text
          | _ => acc.finishReason } := by
  have hnone : lookup (q.chunk id delta reason) (qs "usage") = none := by
    unfold chunk
    rw [lookup_insert_ne _ _ (by decide), lookup_envelope_usage]
  have hsame : collect [q.makeChunk id delta reason] acc
      = collectChunk acc (q.chunk id delta reason) := by
    show collectChunk acc _ = _
    by_cases husage : q.includeUsage = true
    · rw [if_pos husage, collectChunk_null_usage _ _ hnone]
    · rw [if_neg husage]
  rw [hsame, collectChunk_chunk, htext, hreasoning, hcalls]

-- ====================================================================== calls

/-- An index that was put in is taken out again. -/
theorem withoutIndex_withIndex (call : Json) (i : Nat) :
    withoutIndex (withIndex call i) = withoutIndex call := by
  unfold withoutIndex withIndex remove Json.insert
  show Json.object (List.filter _ (_ ++ _ :: _)) = _
  rw [List.filter_append, List.filter_cons_of_neg (by simp),
    List.filter_filter]
  simp only [Bool.and_self]
  rw [← List.filter_append, List.takeWhile_append_dropWhile]

/-- The calls of a stream are those of the result, but for an index. -/
theorem map_withIndex (calls : List Json) :
    (calls.mapIdx fun i call => withIndex call i).map withoutIndex
      = calls.map withoutIndex := by
  apply List.ext_getElem
  · simp
  · intro i _ _
    simp [withoutIndex_withIndex]

/-- A call that has no index is itself without it. -/
theorem withoutIndex_self {call : Json} (hobject : isObject (some call) = true)
    (hnone : contains (toObject (some call)) (qs "index") = false) :
    withoutIndex call = call := by
  cases call with
  | object members =>
      unfold withoutIndex remove
      congr 1
      show members.filter _ = members
      rw [List.filter_eq_self]
      intro m hm
      unfold contains at hnone
      have hm := List.any_eq_false.1 hnone m hm
      simpa using hm
  | _ => cases hobject

-- ============================================================== whole streams

/-- An event that is not the last one adds its text. -/
theorem collect_bytes (hstream : q.stream = true) {event : StreamEvent}
    (hgoes : event.isFinished = false) (acc : Collected) :
    collect (q.bytes event) acc
      = { acc with text := acc.text ++ event.text } := by
  unfold bytes
  rw [if_neg (by simp [hstream])]
  cases event with
  | started requestId sessionId =>
      dsimp only
      rw [collect_makeChunk acc _ [] [] [] .null rfl rfl rfl]
      simp [StreamEvent.text]
  | delta requestId sessionId text =>
      dsimp only
      rw [collect_makeChunk acc _ text [] [] .null rfl rfl rfl]
      simp [StreamEvent.text]
  | finished requestId sessionId result => cases hgoes

/-- The events before the last one add the text of the deltas. -/
theorem collect_deltas (hstream : q.stream = true) {events : List StreamEvent}
    (hgo : ∀ event ∈ events, event.isFinished = false) (acc : Collected) :
    collect (events.flatMap q.bytes) acc
      = { acc with text := acc.text ++ events.flatMap StreamEvent.text } := by
  induction events generalizing acc with
  | nil => simp [collect]
  | cons event events ih =>
      obtain ⟨hgoes, hgo⟩ := List.forall_mem_cons.1 hgo
      rw [List.flatMap_cons, collect_append,
        collect_bytes hstream hgoes, ih hgo,
        List.flatMap_cons, List.append_assoc]

/-- The last chunks of a completion that succeeds add the rest of
the result. -/
theorem collect_lastChunks (acc : Collected) (id : QString)
    (result : GenerationResult) : collect (q.lastChunks id result) acc =
      { acc with
        reasoning := acc.reasoning ++ result.reasoning
        toolCalls := acc.toolCalls ++ result.toolCalls.map withoutIndex
        finishReason := some (completionReason result)
        usage := if q.includeUsage then some (usage result.usage)
          else acc.usage } := by
  have hreasoning : ∀ acc : Collected, collect
      (if result.reasoning = [] then [] else [q.makeChunk id
        (ofMembers [(qs "reasoning_content", .string result.reasoning)])]) acc
      = { acc with reasoning := acc.reasoning ++ result.reasoning } := by
    intro acc
    split
    next hnone => simp [hnone, collect]
    next =>
      rw [collect_makeChunk acc _ [] result.reasoning [] .null rfl rfl rfl]
      simp
  have hcalls : ∀ acc : Collected, collect
      (if result.toolCalls = [] then [] else [q.makeChunk id
        (ofMembers [(qs "tool_calls",
          .array (result.toolCalls.mapIdx fun i call => withIndex call i))])])
            acc
      = { acc with
        toolCalls := acc.toolCalls ++ result.toolCalls.map withoutIndex } := by
    intro acc
    split
    next hnone => simp [hnone, collect]
    next =>
      rw [collect_makeChunk acc _ [] []
        (result.toolCalls.mapIdx fun i call => withIndex call i) .null
        rfl rfl rfl, map_withIndex]
      simp
  have husage : ∀ acc : Collected, collect
      (if q.includeUsage then
        [.data (insert (insert (q.envelope id true) (qs "choices") (.array []))
          (qs "usage") (.object (usage result.usage)))]
      else []) acc
      = { acc with usage := if q.includeUsage then some (usage result.usage)
          else acc.usage } := by
    intro acc
    split
    next =>
      rw [collect_cons_data]
      unfold collectChunk choice
      rw [lookup_insert_self, lookup_insert_ne _ _ (by decide),
        lookup_insert_self]
      simp [collect, toText, toArray, toObject, lookup]
    next => rfl
  unfold lastChunks
  rw [collect_append, collect_append, collect_append, hreasoning,
    hcalls, husage,
    collect_makeChunk _ _ [] [] [] _ rfl rfl rfl]
  simp

/-- A stream of a completion that succeeds, put together. -/
theorem collect_stream (hstream : q.stream = true) {before : List StreamEvent}
    (requestId sessionId : QString) {result : GenerationResult}
    (hgo : ∀ event ∈ before, event.isFinished = false)
    (hsuccess : result.errorCode = .None)
    (htext : result.text = before.flatMap StreamEvent.text) :
    collect ((before
        ++ [StreamEvent.finished requestId sessionId result]).flatMap q.bytes)
      = { text := result.text
          reasoning := result.reasoning
          toolCalls := result.toolCalls.map withoutIndex
          finishReason := some (completionReason result)
          usage := if q.includeUsage then some (usage result.usage)
            else none } := by
  have hlast : q.bytes (.finished requestId sessionId result)
      = q.lastChunks (idOf requestId) result ++ [.done] := by
    unfold bytes
    rw [if_neg (by simp [hstream])]
    dsimp only
    rw [if_pos hsuccess]
  rw [List.flatMap_append, List.flatMap_singleton, collect_append, hlast,
    collect_append, collect_deltas hstream hgo, collect_lastChunks]
  simp [collect, htext]

-- ==================================================================== answers

/-- The reasoning is put in last, and changes no other member. -/
theorem lookup_reasoned (value : JsonObject) (reasoning : QString)
    {key : QString} (hkey : key ≠ qs "reasoning_content") :
    lookup (if reasoning = [] then value
      else insert value (qs "reasoning_content") (.string reasoning)) key
      = lookup value key := by
  split
  · rfl
  · exact lookup_insert_ne _ _ hkey

/-- Content that is null reads as the empty text it stands for. -/
theorem message_content (result : GenerationResult) :
    toText (lookup (message result) (qs "content")) = result.text := by
  unfold message
  dsimp only
  rw [lookup_reasoned _ _ (by decide)]
  split
  · rw [lookup_ofMembers]
    rfl
  · split
    next hempty =>
      rw [lookup_insert_self, hempty]
      rfl
    next =>
      rw [lookup_insert_ne _ _ (by decide), lookup_ofMembers]
      rfl

theorem message_calls (result : GenerationResult) :
    toArray (lookup (message result) (qs "tool_calls"))
      = result.toolCalls := by
  unfold message
  dsimp only
  rw [lookup_reasoned _ _ (by decide)]
  split
  next hnone =>
    rw [lookup_ofMembers, hnone]
    rfl
  next =>
    split
    · rw [lookup_insert_ne _ _ (by decide), lookup_insert_self]
      rfl
    · rw [lookup_insert_self]
      rfl

theorem message_reasoning (result : GenerationResult) :
    toText (lookup (message result) (qs "reasoning_content"))
      = result.reasoning := by
  unfold message
  dsimp only
  split
  next hnone =>
    rw [hnone]
    split
    · rw [lookup_ofMembers]
      rfl
    · split
      · rw [lookup_insert_ne _ _ (by decide), lookup_insert_ne _ _ (by decide),
          lookup_ofMembers]
        rfl
      · rw [lookup_insert_ne _ _ (by decide), lookup_ofMembers]
        rfl
  next =>
    rw [lookup_insert_self]
    rfl

theorem choice_answer (q : Completion) (result : GenerationResult) :
    choice (q.answer result) = ofMembers [(qs "index", jsonInt 0),
      (qs "message", .object (message result)),
      (qs "finish_reason", .string (completionReason result))] := by
  unfold choice answer
  rw [lookup_insert_ne _ _ (by decide), lookup_insert_self]
  rfl

theorem message_answer (q : Completion) (result : GenerationResult) :
    lookup (choice (q.answer result)) (qs "message")
      = some (.object (message result)) := by
  rw [choice_answer, lookup_ofMembers]
  rfl

theorem callsOf_answer (q : Completion) (result : GenerationResult) :
    callsOf (q.answer result) = result.toolCalls := by
  unfold callsOf
  rw [message_answer]
  exact message_calls result

/-- An answer, read. -/
theorem read_answer (q : Completion) (result : GenerationResult) :
    read (q.answer result) =
      { text := result.text
        reasoning := result.reasoning
        toolCalls := result.toolCalls.map withoutIndex
        finishReason := some (completionReason result)
        usage := some (usage result.usage) } := by
  have hreason : lookup (choice (q.answer result)) (qs "finish_reason")
      = some (.string (completionReason result)) := by
    rw [choice_answer, lookup_ofMembers]
    rfl
  have husage : lookup (q.answer result) (qs "usage")
      = some (.object (usage result.usage)) := lookup_insert_self _ _ _
  unfold read
  rw [message_answer, callsOf_answer, hreason, husage]
  simp only [toObject, message_content, message_reasoning]

end Completion

end LocalLLM
