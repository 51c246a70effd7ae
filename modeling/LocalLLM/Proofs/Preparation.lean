/-
Native content, validated and then prepared.

# One normalisation, two limits

A limit decides whether content is normalised at all, and never what comes
out (`nativeContent_limit`). The validator gives the limit of the service,
the runtime gives none and so gets the default: what the validator accepted
is prepared exactly when the text of each content is within the default
(`accepted_prepares`). A service with a larger limit accepts content that
its runtime refuses.

# The rest of the loop

Nothing else in the loop over the messages fails: with bitmaps that do not
fail, the messages are prepared when their content is (`prepareMessages_ok`).
-/
import LocalLLM.Proofs.Grammar
import LocalLLM.Runtimes.LlamaConversation

namespace LocalLLM

open Json

variable {q : MediaCodec} {σ : Type} {b : Bitmaps σ}

-- ============================================================== normalisation

/-- Normalised content is the same within every limit. -/
theorem nativeContent_limit {content blocks : List Json} {limit other : Int}
    (h : nativeContent q content limit = .ok blocks) (hother : 0 < other) :
    nativeContent q content other = .ok blocks
      ↔ ((q.arrayText content).length : Int) ≤ other := by
  unfold nativeContent at h ⊢
  simp only [bind_eq_ok, require_eq_ok, exists_const] at h ⊢
  obtain ⟨⟨hcount, -⟩, -, out, hblocks, hmedia, hout⟩ := h
  constructor
  · rintro ⟨-, hsize, -⟩
    exact hsize
  · intro hsize
    exact ⟨⟨hcount, hother⟩, hsize, out, hblocks, hmedia, hout⟩

theorem nativeContent_too_long {content : List Json} {limit : Int}
    (hcount : content.length ≤ 64) (hlimit : 0 < limit)
    (hsize : limit < (q.arrayText content).length) :
    nativeContent q content limit
      = .error (err .InvalidArgument
        "Native content exceeds input limit") := by
  unfold nativeContent require
  rw [if_pos ⟨hcount, hlimit⟩, if_neg (not_le.2 hsize)]
  rfl

-- ================================================================ preparation

theorem frameParts_ok (hb : b.Total) :
    ∀ (frames parts : List Json) (s : σ), ∃ out,
      frameParts b frames parts s = .ok out := by
  intro frames
  induction frames with
  | nil => exact fun parts s => ⟨_, rfl⟩
  | cons frame rest ih =>
      intro parts s
      unfold frameParts
      obtain ⟨out, hout⟩ := hb (toObject (some frame)) true s
      obtain ⟨after, hafter⟩ := ih (parts ++ [_, out.1]) out.2
      exact ⟨after, bind_eq_ok.2 ⟨out, hout, hafter⟩⟩

theorem contentParts_ok (hb : b.Total) :
    ∀ (blocks parts : List Json) (s : σ),
      ∃ out, contentParts b blocks parts s = .ok out := by
  intro blocks
  induction blocks with
  | nil => exact fun parts s => ⟨_, rfl⟩
  | cons item rest ih =>
      intro parts s
      unfold contentParts
      dsimp only
      split_ifs
      · exact ih _ s
      · obtain ⟨out, hout⟩ := frameParts_ok hb _ parts s
        obtain ⟨after, hafter⟩ := ih out.1 out.2
        exact ⟨after, bind_eq_ok.2 ⟨out, hout, hafter⟩⟩
      · obtain ⟨out, hout⟩ := hb (toObject (some item)) false s
        obtain ⟨after, hafter⟩ := ih (parts ++ [out.1]) out.2
        exact ⟨after, bind_eq_ok.2 ⟨out, hout, hafter⟩⟩

/-- The native content of every message is normalised within the
default limit. -/
def Normalises (q : MediaCodec) (messages : List Json) : Prop :=
  ∀ m ∈ messages, isArray (contentOf m) = true →
    ∃ blocks, nativeContent q (toArray (contentOf m)) nativeLimit = .ok blocks

/-- Content is all that can stop the loop, when no bitmap does. -/
theorem prepareMessages_ok (hb : b.Total) :
    ∀ (messages : List Json) (s : σ),
      (∃ out, prepareMessages b q messages s = .ok out)
        ↔ Normalises q messages := by
  intro messages
  induction messages with
  | nil => exact fun s => ⟨fun _ => List.forall_mem_nil _, fun _ => ⟨_, rfl⟩⟩
  | cons m rest ih =>
      intro s
      unfold Normalises prepareMessages
      dsimp only
      rw [List.forall_mem_cons]
      by_cases harray : isArray (lookup (toObject (some m)) (qs "content"))
        = true
      · rw [if_pos harray]
        constructor
        · rintro ⟨out, hout⟩
          obtain ⟨blocks, hblocks, hout⟩ := bind_eq_ok.1 hout
          obtain ⟨parts, -, hout⟩ := bind_eq_ok.1 hout
          obtain ⟨after, hafter, -⟩ := bind_eq_ok.1 hout
          exact ⟨fun _ => ⟨blocks, hblocks⟩, (ih parts.2).1 ⟨after, hafter⟩⟩
        · rintro ⟨hm, hrest⟩
          obtain ⟨blocks, hblocks⟩ := hm harray
          obtain ⟨parts, hparts⟩ := contentParts_ok hb blocks [] s
          obtain ⟨after, hafter⟩ := (ih parts.2).2 hrest
          exact ⟨_, bind_eq_ok.2 ⟨blocks, hblocks, bind_eq_ok.2 ⟨parts, hparts,
            bind_eq_ok.2 ⟨after, hafter, rfl⟩⟩⟩⟩
      · rw [if_neg harray]
        constructor
        · rintro ⟨out, hout⟩
          obtain ⟨after, hafter, -⟩ := bind_eq_ok.1 hout
          exact ⟨fun h => absurd h harray, (ih s).1 ⟨after, hafter⟩⟩
        · rintro ⟨-, hrest⟩
          obtain ⟨after, hafter⟩ := (ih s).2 hrest
          exact ⟨_, bind_eq_ok.2 ⟨after, hafter, rfl⟩⟩

-- ========================================================== what was accepted

/-- The service, with that normalisation in its validator. -/
def normalising (c : Config) (q : MediaCodec) : Config :=
  { c with nativeContent := nativeContent q }

/-- What is normalised within `maxCharacters` is normalised to the same
blocks when it is prepared, and content does not stop the preparation. -/
structure Prepares (q : MediaCodec) (maxCharacters : Int)
    (messages : List Json) : Prop where
  same : ∀ m ∈ messages, isArray (contentOf m) = true →
    ∃ blocks, nativeContent q (toArray (contentOf m)) maxCharacters
      = .ok blocks
      ∧ nativeContent q (toArray (contentOf m)) nativeLimit = .ok blocks
  prepared : ∀ {σ : Type} (b : Bitmaps σ), b.Total → ∀ s,
    ∃ out, prepareMessages b q messages s = .ok out

/-- What is normalised within `maxCharacters` and is also within the default
limit is normalised to the same blocks there, for the limit is only compared
with, and content stops nothing else. -/
theorem prepares_of_within {messages : List Json} {maxCharacters : Int}
    (hblocks : ∀ m ∈ messages, isArray (contentOf m) = true →
      ∃ blocks, nativeContent q (toArray (contentOf m)) maxCharacters
        = .ok blocks)
    (hsize : ∀ m ∈ messages, isArray (contentOf m) = true →
      ((q.arrayText (toArray (contentOf m))).length : Int) ≤ nativeLimit) :
    Prepares q maxCharacters messages := by
  have hsame : ∀ m ∈ messages, isArray (contentOf m) = true →
      ∃ blocks, nativeContent q (toArray (contentOf m)) maxCharacters
        = .ok blocks
        ∧ nativeContent q (toArray (contentOf m)) nativeLimit
          = .ok blocks := by
    intro m hm harray
    obtain ⟨blocks, hnative⟩ := hblocks m hm harray
    refine ⟨blocks, hnative, ?_⟩
    exact (nativeContent_limit hnative (by decide)).2 (hsize m hm harray)
  refine ⟨hsame, fun b hb s => (prepareMessages_ok hb messages s).2 ?_⟩
  intro m hm harray
  obtain ⟨blocks, -, hnative⟩ := hsame m hm harray
  exact ⟨blocks, hnative⟩

/-- The validator has normalised every content of an accepted request. -/
theorem accepted_normalised {c : Config} {r : ConversationRequest}
    {maxCharacters : Int}
    (h : validateConversationRequest (normalising c q) r maxCharacters
      = .ok ()) :
    ∀ m ∈ r.messages, isArray (contentOf m) = true →
      ∃ blocks, nativeContent q (toArray (contentOf m)) maxCharacters
        = .ok blocks := by
  obtain ⟨-, hwell, -⟩ := validateConversationRequest_eq_ok.1 h
  intro m hm harray
  obtain ⟨blocks, hblocks, -⟩ := (hwell m hm).native harray
  exact ⟨blocks, hblocks⟩

/-- An accepted request is prepared exactly when each of its contents is within
the default limit. The validator measures against the limit of the service and
the preparation against its own, which is where the two can differ. -/
theorem accepted_prepares {c : Config} {r : ConversationRequest}
    {maxCharacters : Int}
    (h : validateConversationRequest (normalising c q) r maxCharacters
      = .ok ()) :
    Prepares q maxCharacters r.messages ↔
      ∀ m ∈ r.messages, isArray (contentOf m) = true →
        ((q.arrayText (toArray (contentOf m))).length : Int)
          ≤ nativeLimit := by
  constructor
  · intro hprepares m hm harray
    obtain ⟨blocks, hblocks, hnative⟩ := hprepares.same m hm harray
    exact (nativeContent_limit hblocks (by decide)).1 hnative
  · exact prepares_of_within (accepted_normalised h)

/-- A service with the default limit, or a smaller one, accepts nothing that
is not prepared. -/
theorem default_limit_prepares {c : Config} {r : ConversationRequest}
    {maxCharacters : Int} (hlimit : maxCharacters ≤ nativeLimit)
    (h : validateConversationRequest (normalising c q) r maxCharacters
      = .ok ()) :
    Prepares q maxCharacters r.messages := by
  have hblocks := accepted_normalised h
  refine prepares_of_within hblocks fun m hm harray => ?_
  obtain ⟨blocks, hnative⟩ := hblocks m hm harray
  unfold nativeContent at hnative
  simp only [bind_eq_ok, require_eq_ok, exists_const] at hnative
  exact le_trans hnative.2.1 hlimit

-- ============================================================== on a sample

/-- The compact text, with no media. -/
def textCodec : MediaCodec :=
  { arrayText := fun items => compact (.array items)
    objectText := fun o => compact (.object o)
    fromBase64 := fun _ => none
    toBase64 := fun _ => [] }

/-- A block with a text. -/
def spoken (text : QString) : Json :=
  .object [(qs "text", .string text), (qs "type", .string (qs "text"))]

/-- A message of the user with one block. -/
def spokenMessage (text : QString) : Json :=
  .object [(qs "content", .array [spoken text]),
    (qs "role", .string (qs "user"))]

theorem length_spoken (text : QString) :
    (compact (.array [spoken text])).length = text.length + 27 := by
  have hkeys : (qs "text").length = 4 ∧ (qs "type").length = 4 := ⟨rfl, rfl⟩
  simp only [compact, compactItems, compactMembers, spoken, List.length_append,
    List.length_cons, List.length_nil, hkeys]
  omega

theorem nativeContent_spoken {text : QString} {limit : Int}
    (hsize : (text.length : Int) + 27 ≤ limit) :
    nativeContent textCodec [spoken text] limit = .ok [spoken text] := by
  have hblocks : nativeBlocks textCodec [spoken text]
      = .ok ([spoken text], 0) := by
    rfl
  have htext : ((textCodec.arrayText [spoken text]).length : Int)
      = text.length + 27 := by
    exact_mod_cast length_spoken text
  unfold nativeContent
  simp only [bind_eq_ok, require_eq_ok, exists_const, htext, hblocks]
  exact ⟨⟨Nat.le_of_ble_eq_true rfl, by omega⟩, hsize, _, rfl,
    Nat.zero_le _, rfl⟩

theorem spokenMessage_wellFormed {text : QString} {limit : Int}
    (hsize : (text.length : Int) + 27 ≤ limit) :
    WellFormed (normalising printing textCodec) limit
      (spokenMessage text) where
  object := rfl
  fields := by
    intro f hf
    rcases List.mem_cons.1 hf with rfl | hf
    · show qs "content" ∈ messageFields
      decide
    · rw [List.mem_singleton.1 hf]
      show qs "role" ∈ messageFields
      decide
  role := Or.inr (Or.inl rfl)
  content := Or.inr (Or.inr (Or.inr ⟨Or.inl rfl, rfl⟩))
  native := fun _ => ⟨_, nativeContent_spoken hsize, List.cons_ne_nil _ _⟩
  reasoning := Or.inl rfl
  name := Or.inl rfl
  caller := Or.inr rfl
  result := Or.inr rfl
  answer := fun h => absurd h (by show qs "user" ≠ qs "tool"; decide)
  calls := fun h => nomatch h
  text := fun _ _ => Or.inr rfl

theorem spokenRequest_accepted {text : QString} {limit : Int}
    (hsize : (text.length : Int) + 200 ≤ limit) :
    validateConversationRequest (normalising printing textCodec)
      (plainRequest [spokenMessage text]) limit = .ok () := by
  have hlength : (compact (.object (ofMembers [(qs "messages",
      .array [spokenMessage text]), (qs "tools", .array []),
      (qs "response_schema", .object [])]))).length = text.length + 100 := by
    have hmembers : ofMembers [(qs "messages", .array [spokenMessage text]),
        (qs "tools", .array []), (qs "response_schema", .object [])]
        = [(qs "messages", .array [spokenMessage text]),
          (qs "response_schema", .object []), (qs "tools", .array [])] := by
      rfl
    have hkeys : (qs "text").length = 4 ∧ (qs "type").length = 4
        ∧ (qs "messages").length = 8 ∧ (qs "response_schema").length = 15
        ∧ (qs "tools").length = 5 ∧ (qs "content").length = 7
        ∧ (qs "role").length = 4 ∧ (qs "user").length = 4 :=
      ⟨rfl, rfl, rfl, rfl, rfl, rfl, rfl, rfl⟩
    rw [hmembers]
    simp only [compact, compactItems, compactMembers, spokenMessage, spoken,
      List.length_append, List.length_cons, List.length_nil, hkeys]
    omega
  refine validateConversationRequest_eq_ok.2 ⟨?_, ?_, ?_⟩
  · refine plainRequest_admissible ⟨(), rfl⟩ (Nat.le_of_ble_eq_true rfl) ?_
    show ((List.length (compact _) : Nat) : Int) ≤ limit
    rw [hlength]
    push_cast
    omega
  · exact List.forall_mem_cons.2 ⟨spokenMessage_wellFormed (by omega),
      List.forall_mem_nil _⟩
  · exact ⟨Or.inl (.user rfl .nil), List.nodup_nil, _, rfl, Or.inl rfl⟩

/-- A short text is prepared. -/
theorem accepted_prepares_short :
    Prepares textCodec nativeLimit
      (plainRequest [spokenMessage (qs "hello")]).messages
      ↔ ∀ m ∈ (plainRequest [spokenMessage (qs "hello")]).messages,
        isArray (contentOf m) = true →
        ((textCodec.arrayText (toArray (contentOf m))).length : Int)
          ≤ nativeLimit :=
  accepted_prepares (spokenRequest_accepted (by decide))

/-- A text longer than the default limit, in a service that takes twice as
much: the request is accepted, and its content is refused when it is
prepared. -/
theorem long_content_refused :
    let text : QString := List.replicate 1048576 (qc 'a')
    validateConversationRequest (normalising printing textCodec)
        (plainRequest [spokenMessage text]) 2097152 = .ok ()
      ∧ nativeContent textCodec [spoken text] 2097152 = .ok [spoken text]
      ∧ nativeContent textCodec [spoken text] nativeLimit
        = .error (err .InvalidArgument
          "Native content exceeds input limit") := by
  intro text
  have hlength : text.length = 1048576 := List.length_replicate
  have htext : ((textCodec.arrayText [spoken text]).length : Int)
      = text.length + 27 := by
    exact_mod_cast length_spoken text
  refine ⟨spokenRequest_accepted (by omega), nativeContent_spoken (by omega),
    nativeContent_too_long (Nat.le_of_ble_eq_true rfl) (by decide) ?_⟩
  rw [htext, hlength]
  decide

end LocalLLM
