/-
Prefix reuse in the llama.cpp context cannot be seen.

# The memory and the history

Between calls the tokens of `previous_` are the first cells of the memory,
each at its own position (`Prefixed`). Nothing is said of the cells behind
them: a failed evaluation may leave some. A text turn cuts the memory back
to what it shares with the prompt, and from there on the memory is exactly
the history (`Text`): every evaluation starts at the position that is the
number of cells, and the history behind the kept part is what was
evaluated. A media turn starts from an empty memory and keeps no history.

# A fresh context

What a call hands out depends on the cells alone. `Agree` relates two
calls whose memories and outputs are the same; once the prompt is in, a
call on a used context and the same call on a fresh one, where nothing
fails, go on in step (`follows`).
-/
import LocalLLM.Runtimes.LlamaRuntime
import LocalLLM.Lib.Follows

namespace LocalLLM.LlamaContext

open Exec

variable {Logits : Type} {L : Llama Logits} {o : LlamaOutside}

-- ====================================================================== cells

/-- The cells of two lists stand behind each other, at positions that go on. -/
theorem cells_append (position : Nat) (as bs : TokenList) :
    cells position (as ++ bs)
      = cells position as ++ cells (position + as.length) bs := by
  induction as generalizing position with
  | nil => rfl
  | cons a as ih =>
      rw [List.cons_append, cells, cells, ih, List.length_cons,
        Nat.add_assoc, Nat.add_comm 1, List.cons_append]

@[simp] theorem length_cells (position : Nat) (as : TokenList) :
    (cells position as).length = as.length := by
  induction as generalizing position with
  | nil => rfl
  | cons a as ih => rw [cells, List.length_cons, List.length_cons, ih]

/-- And the cells of a beginning are the first cells. -/
theorem cells_take (position n : Nat) (as : TokenList) :
    cells position (as.take n) = (cells position as).take n := by
  induction as generalizing position n with
  | nil => rw [List.take_nil, cells, List.take_nil]
  | cons a as ih =>
      cases n with
      | zero => rfl
      | succ n =>
          rw [List.take_succ_cons, cells, cells, ih, List.take_succ_cons]

-- ================================================================= vocabulary

/-- The history is the beginning of the memory. -/
def Prefixed (c : LlamaContext) : Prop :=
  cells 0 c.previous <+: c.kv

/-- Every evaluation starts at the position that is the number of cells. -/
def Placed (evaluations : List LlamaEvaluation) : Prop :=
  ∀ e ∈ evaluations, e.position = e.before

/-- The tokens that were evaluated. -/
def evaluated (evaluations : List LlamaEvaluation) : TokenList :=
  evaluations.flatMap LlamaEvaluation.tokens

/-- A text turn that kept `kept` tokens and has not failed. -/
structure Text (kept : Nat) (t : LlamaTurn) : Prop where
  exact : t.context.kv = cells 0 t.context.previous
  next : t.context.nextPosition = t.context.previous.length
  placed : Placed t.evaluations
  evaluated : evaluated t.evaluations = t.context.previous.drop kept
  kept_le : kept ≤ t.context.previous.length

/-- A text turn, failed or not. -/
def TextOrFailed (t : LlamaTurn) : Prop :=
  Prefixed t.context ∧ Placed t.evaluations

/-- A memory that is the history's begins with it. -/
theorem Text.prefixed {kept : Nat} {t : LlamaTurn} (h : Text kept t) :
    Prefixed t.context := by
  unfold Prefixed
  rw [h.exact]

/-- A turn that has not failed is one that may have. -/
theorem Text.textOrFailed {kept : Nat} {t : LlamaTurn} (h : Text kept t) :
    TextOrFailed t :=
  ⟨h.prefixed, h.placed⟩

/-- Looking at the token changes nothing that matters. -/
theorem throwIfCancelled_wp {Q : Unit → LlamaTurn → Prop}
    {E : Exn → LlamaTurn → Prop} {t : LlamaTurn}
    (hQ : Q () { t with polls := t.polls + 1 })
    (hE : ∀ e, E e { t with polls := t.polls + 1 }) :
    wp (throwIfCancelled o) Q E t := by
  unfold throwIfCancelled
  rw [wp_bind, wp_get, wp_bind, wp_set, wp_ite]
  exact ⟨fun _ => hE _, fun _ => hQ⟩

-- ================================================================= text turns

/-- What an evaluation adds begins the new cells, and is all of them when
its status is zero. -/
theorem outcomeOf_spec (o : LlamaOutside) (evaluations : List LlamaEvaluation)
    (new : List LlamaCell) :
    (outcomeOf o evaluations new).1 <+: new
      ∧ ((outcomeOf o evaluations new).2 = 0 →
        (outcomeOf o evaluations new).1 = new) := by
  unfold outcomeOf
  cases o.fails evaluations.length with
  | none => exact ⟨List.prefix_refl _, fun _ => rfl⟩
  | some failure =>
      exact ⟨List.take_prefix _ _, fun h => absurd h failure.status_ne⟩

/-- One more evaluation at its place. -/
theorem placed_append {evaluations : List LlamaEvaluation}
    {e : LlamaEvaluation}
    (h : Placed evaluations) (he : e.position = e.before) :
    Placed (evaluations ++ [e]) := by
  intro e' hmem
  cases List.mem_append.1 hmem with
  | inl hmem => exact h e' hmem
  | inr hmem =>
      rw [List.mem_singleton.1 hmem]
      exact he

/-- In a text turn the next position is the number of cells, so the next
evaluation is at its place. -/
theorem Text.evaluation {kept : Nat} {t : LlamaTurn} (h : Text kept t)
    (tokens : TokenList) :
    (evaluationOf t.context tokens).position
      = (evaluationOf t.context tokens).before := by
  show t.context.nextPosition = t.context.kv.length
  rw [h.exact, h.next, length_cells]

/-- The turn after a batch has been evaluated. -/
theorem Text.batch {kept : Nat} {t : LlamaTurn} (h : Text kept t)
    (batch : TokenList) (polls : Nat) :
    Text kept { t with
      polls
      context :=
        { kv := t.context.kv ++ cells t.context.nextPosition batch
          previous := t.context.previous ++ batch
          nextPosition := t.context.nextPosition + batch.length }
      evaluations := t.evaluations ++ [evaluationOf t.context batch] } where
  exact := by
    show t.context.kv ++ _ = cells 0 (t.context.previous ++ batch)
    rw [cells_append, Nat.zero_add, ← h.exact, h.next]
  next := by
    show t.context.nextPosition + batch.length
      = (t.context.previous ++ batch).length
    rw [List.length_append, h.next]
  placed := placed_append h.placed (h.evaluation batch)
  evaluated := by
    have hold := h.evaluated
    unfold LlamaContext.evaluated at hold ⊢
    rw [List.flatMap_append, hold, List.drop_append_of_le_length h.kept_le]
    exact congrArg _ (List.append_nil batch)
  kept_le := by
    show kept ≤ (t.context.previous ++ batch).length
    rw [List.length_append]
    exact Nat.le_add_right_of_le h.kept_le

/-- The turn after an evaluation that may have failed. -/
theorem Text.afterDecode {kept : Nat} {t : LlamaTurn} (h : Text kept t)
    (batch : TokenList) (new : List LlamaCell) (polls : Nat) :
    TextOrFailed { t with
      polls
      context := { t.context with kv := t.context.kv ++ new }
      evaluations := t.evaluations ++ [evaluationOf t.context batch] } :=
  ⟨h.prefixed.trans (List.prefix_append _ _),
    placed_append h.placed (h.evaluation batch)⟩

/-- Looking at the token does not count. -/
theorem Text.polled {kept : Nat} {t : LlamaTurn} (h : Text kept t)
    (polls : Nat) : Text kept { t with polls } :=
  ⟨h.exact, h.next, h.placed, h.evaluated, h.kept_le⟩

/-- Decoding adds its tokens to the history and to the memory, batch by batch.
Where a batch fails, so has the turn. -/
theorem decodeBatches_text {kept : Nat} (turns : Nat) :
    ∀ (tokens : TokenList) (t : LlamaTurn), Text kept t →
      wp (decodeBatches L o true turns tokens)
        (fun _ t' => Text kept t'
          ∧ t'.context.previous = t.context.previous ++ tokens)
        (fun _ => TextOrFailed) t := by
  induction turns with
  | zero =>
      intro tokens t h
      cases tokens with
      | nil => exact ⟨h, (List.append_nil _).symm⟩
      | cons token tokens => exact h.textOrFailed
  | succ turns ih =>
      intro tokens t h
      cases tokens with
      | nil => exact ⟨h, (List.append_nil _).symm⟩
      | cons token tokens =>
          unfold decodeBatches
          rw [wp_bind]
          apply throwIfCancelled_wp _ (fun _ => (h.polled _).textOrFailed)
          unfold llamaDecode
          simp only [wp_bind, wp_get, wp_set, wp_pure]
          apply throwIfCancelled_wp _ (fun _ => (h.polled _).afterDecode _ _ _)
          rw [wp_ite]
          constructor
          · intro _
            exact (h.polled _).afterDecode _ _ _
          · intro hstatus
            rw [(outcomeOf_spec _ _ _).2 (not_not.1 hstatus)]
            apply wp_mono (ih _ _ (h.batch _ _))
            · intro _ t' h'
              obtain ⟨htext, hprevious⟩ := h'
              refine ⟨htext, ?_⟩
              rw [hprevious]
              show _ ++ _ ++ _ = _
              rw [List.append_assoc, List.take_append_drop]
            · intro _ t' hfailed
              exact hfailed

/-- The same for `decode`, which has a turn for every token. -/
theorem decode_text {kept : Nat} {tokens : TokenList} {t : LlamaTurn}
    (h : Text kept t) :
    wp (decode L o tokens true)
      (fun _ t' => Text kept t'
        ∧ t'.context.previous = t.context.previous ++ tokens)
      (fun _ => TextOrFailed) t :=
  decodeBatches_text tokens.length tokens t h

/-- Two moments of a call between which nothing was evaluated. -/
def SameContext (t t' : LlamaTurn) : Prop :=
  t'.context = t.context ∧ t'.evaluations = t.evaluations

/-- A callback that leaves the context alone. -/
def Quiet (onText : QString → LlamaM Bool) : Prop :=
  ∀ text t, wp (onText text) (fun _ => SameContext t)
    (fun _ => SameContext t) t

/-- The callback of a plain generation hands a text on and
touches no context. -/
theorem deliver_quiet (consumer : Consumer) : Quiet (deliver consumer) := by
  intro text t
  unfold deliver
  rw [wp_bind, wp_get, wp_bind, wp_set, wp_ofExcept]
  exact ⟨fun _ _ => ⟨rfl, rfl⟩, fun _ _ => ⟨rfl, rfl⟩⟩

/-- An empty text is not handed on, which touches no context either. -/
theorem Quiet.handOver {onText : QString → LlamaM Bool} (hquiet : Quiet onText)
    (isEmpty : Bool) : Quiet (handOver onText isEmpty) := by
  intro text t
  unfold LlamaContext.handOver
  rw [wp_ite]
  exact ⟨fun _ => ⟨rfl, rfl⟩, fun _ => hquiet text t⟩

/-- The callback of a single tool turn keeps its own account,
beside the context. -/
theorem deliverTurn_quiet (state : LlamaConversationState)
    (consumer : Consumer) : Quiet (deliverTurn L state consumer) := by
  intro piece t
  unfold deliverTurn
  rw [wp_bind, wp_get, wp_ite]
  constructor
  · intro _
    exact ⟨rfl, rfl⟩
  · intro _
    rw [wp_bind, wp_set, wp_bind]
    apply wp_mono ((deliver_quiet consumer).handOver _ _ _)
    · intro _ t' ⟨hcontext, hevaluations⟩
      exact ⟨hcontext, hevaluations⟩
    · intro _ t' ⟨hcontext, hevaluations⟩
      exact ⟨hcontext, hevaluations⟩

/-- What a text turn says of a context and its evaluations does not depend on
the rest. -/
theorem Text.of_same {kept : Nat} {t t' : LlamaTurn} (h : Text kept t)
    (hcontext : t'.context = t.context)
    (hevaluations : t'.evaluations = t.evaluations) : Text kept t' where
  exact := by rw [hcontext, h.exact]
  next := by rw [hcontext, h.next]
  placed := hevaluations ▸ h.placed
  evaluated := by rw [hcontext, hevaluations, h.evaluated]
  kept_le := hcontext ▸ h.kept_le

/-- A callback in a text turn. -/
theorem Quiet.text {onText : QString → LlamaM Bool} (hquiet : Quiet onText)
    {kept : Nat} {t : LlamaTurn} (h : Text kept t) (text : QString) :
    wp (onText text)
      (fun _ t' => Text kept t' ∧ t'.context = t.context)
      (fun _ => TextOrFailed) t := by
  apply wp_mono (hquiet text t)
  · intro _ t' ⟨hcontext, hevaluations⟩
    exact ⟨h.of_same hcontext hevaluations, hcontext⟩
  · intro _ t' ⟨hcontext, hevaluations⟩
    exact (h.of_same hcontext hevaluations).textOrFailed

/-- A sampled token goes behind the history, if another one may follow. -/
theorem evaluateSampled_text {kept : Nat}
    {state : Option LlamaConversationState} {t : LlamaTurn}
    (hmedia : mediaOf state = none) (left : Nat) (token : Token)
    (h : Text kept t) :
    wp (evaluateSampled L o state left token)
      (fun _ t' => Text kept t'
        ∧ t.context.previous <+: t'.context.previous)
      (fun _ => TextOrFailed) t := by
  unfold evaluateSampled
  rw [wp_ite, hmedia]
  constructor
  · intro _
    apply wp_mono (decode_text h) _ (fun _ _ h => h)
    intro _ t' ⟨h', hprevious⟩
    exact ⟨h', hprevious ▸ List.prefix_append _ _⟩
  · intro _
    exact ⟨h, List.prefix_refl _⟩

/-- Sampling in a text turn: the tokens that are evaluated go
behind the history. -/
theorem sampleTokens_text {kept : Nat} {prompt : TokenList}
    {options : GenerationOptions} {state : Option LlamaConversationState}
    {onText : QString → LlamaM Bool} (hmedia : mediaOf state = none)
    (hquiet : Quiet onText) (left : Nat) :
    ∀ (samples : List (Logits × Token)) (pieces : List (List UInt8))
      (t : LlamaTurn), Text kept t →
      wp (sampleTokens L o prompt options state onText left samples pieces)
        (fun _ t' => Text kept t'
          ∧ t.context.previous <+: t'.context.previous)
        (fun _ => TextOrFailed) t := by
  induction left with
  | zero =>
      intro samples pieces t h
      exact ⟨h, List.prefix_refl _⟩
  | succ left ih =>
      intro samples pieces t h
      unfold sampleTokens
      rw [wp_bind]
      apply throwIfCancelled_wp _ (fun _ => (h.polled _).textOrFailed)
      have h := h.polled (t.polls + 1)
      rw [wp_bind, wp_get, wp_bind, wp_ofExcept]
      refine ⟨fun token _ => ?_, fun _ _ => h.textOrFailed⟩
      rw [wp_ite]
      refine ⟨fun _ => ⟨h, List.prefix_refl _⟩, fun _ => ?_⟩
      cases L.toPiece token (L.isPreserved state token) with
      | none => exact h.textOrFailed
      | some piece =>
          dsimp only
          rw [wp_bind]
          apply wp_mono ((hquiet.handOver _).text h _) _ (fun _ _ h => h)
          intro keepGoing t₁ ⟨h₁, hcontext⟩
          rw [wp_ite]
          refine ⟨fun _ => ?_, fun _ => ⟨h₁, by rw [hcontext]⟩⟩
          rw [wp_bind]
          apply wp_mono (evaluateSampled_text hmedia left token h₁) _
            (fun _ _ h => h)
          intro _ t₂ ⟨h₂, hprevious⟩
          apply wp_mono (ih _ _ t₂ h₂) _ (fun _ _ h => h)
          intro _ t₃ ⟨h₃, hprefix⟩
          rw [hcontext] at hprevious
          exact ⟨h₃, hprevious.trans hprefix⟩

-- ================================================================= the prompt

/-- The last token of a prompt is never reused: its logits are needed. -/
theorem reuseOf_lt {previous prompt : TokenList} (h : prompt ≠ []) :
    reuseOf previous prompt < prompt.length := by
  have hle := Prefix.agree_le_right previous prompt.dropLast
  have hpos := List.length_pos_iff.2 h
  rw [List.length_dropLast] at hle
  unfold reuseOf
  omega

/-- What is kept of the history is the beginning of the prompt. -/
theorem take_previous {previous prompt : TokenList} {kept : Nat}
    (h : kept ≤ reuseOf previous prompt) :
    previous.take kept = prompt.take kept := by
  rw [Prefix.take_of_le_agree h, List.dropLast_eq_take, List.take_take]
  congr 1
  have hle := Prefix.agree_le_right previous prompt.dropLast
  rw [List.length_dropLast] at hle
  unfold reuseOf at h
  omega

/-- Rewinding keeps no more than it is asked to, and nothing when
the library refuses. -/
theorem rewind_le (reuse : Nat) (c : LlamaContext) :
    (rewind o reuse c).1 ≤ reuse := by
  unfold rewind
  split
  · exact Nat.zero_le _
  · exact Nat.le_refl _

/-- The turn once the memory is cut back. -/
theorem rewind_text {reuse : Nat} {t : LlamaTurn} (h : Prefixed t.context)
    (hreuse : reuse ≤ t.context.previous.length) (hnone : t.evaluations = []) :
    Text (rewind o reuse t.context).1
      { t with context := (rewind o reuse t.context).2 } := by
  have hle : (rewind o reuse t.context).1 ≤ t.context.previous.length :=
    Nat.le_trans (rewind_le _ _) hreuse
  constructor
  · show t.context.kv.take (rewind o reuse t.context).1
      = cells 0 (t.context.previous.take (rewind o reuse t.context).1)
    obtain ⟨rest, hrest⟩ := h
    rw [← hrest, cells_take, List.take_append_of_le_length]
    rw [length_cells]
    exact hle
  · show (rewind o reuse t.context).1
      = (t.context.previous.take (rewind o reuse t.context).1).length
    rw [List.length_take, Nat.min_eq_left hle]
  · show Placed t.evaluations
    rw [hnone]
    intro e hmem
    cases hmem
  · show evaluated t.evaluations
      = (t.context.previous.take (rewind o reuse t.context).1).drop _
    rw [hnone, List.drop_take, Nat.sub_self, List.take_zero]
    rfl
  · show (rewind o reuse t.context).1
      ≤ (t.context.previous.take (rewind o reuse t.context).1).length
    rw [List.length_take, Nat.min_eq_left hle]

/-- A text prompt: the kept part stays, the rest is evaluated behind it. -/
theorem evaluatePrompt_text {prompt : TokenList}
    {state : Option LlamaConversationState} {t : LlamaTurn}
    (hmedia : mediaOf state = none) (hprompt : prompt ≠ [])
    (h : Prefixed t.context) (hnone : t.evaluations = []) :
    wp (evaluatePrompt L o prompt state)
      (fun kept t' => kept < prompt.length ∧ Text kept t'
        ∧ t'.context.previous = prompt)
      (fun _ => TextOrFailed) t := by
  unfold evaluatePrompt
  rw [hmedia, wp_bind, wp_get]
  dsimp only
  rw [wp_bind, wp_set, wp_bind]
  have hreuse : reuseOf t.context.previous prompt
      ≤ t.context.previous.length :=
    Prefix.agree_le_left _ _
  have hle := @rewind_le o (reuseOf t.context.previous prompt) t.context
  apply wp_mono (decode_text (rewind_text h hreuse hnone)) _ (fun _ _ h => h)
  intro _ t' ⟨htext, hprevious⟩
  refine ⟨Nat.lt_of_le_of_lt hle (reuseOf_lt hprompt), htext, ?_⟩
  rw [hprevious]
  show t.context.previous.take (rewind o (reuseOf _ prompt) t.context).1 ++ _
    = prompt
  rw [take_previous hle, List.take_append_drop]

-- ============================================================ what is kept

/-- What the single steps of a call keep, where decoding tracks its history or
does not. -/
structure StepsKeep (L : Llama Logits) (o : LlamaOutside) (trackHistory : Bool)
    (I : LlamaTurn → Prop) : Prop where
  polled : Keeps I (throwIfCancelled o)
  batch : ∀ batch, Keeps I (llamaDecode o batch)
  chunk : ∀ chunk, Keeps I (evaluateChunk L o chunk)
  history : ∀ t batch, I t → I { t with context := { t.context with
    previous := if trackHistory then t.context.previous ++ batch
      else t.context.previous
    nextPosition := t.context.nextPosition + batch.length } }

namespace StepsKeep

variable {trackHistory : Bool} {I : LlamaTurn → Prop}

/-- What each batch keeps, decoding keeps. -/
theorem decodeBatches (h : StepsKeep L o trackHistory I) (turns : Nat) :
    ∀ tokens :
    TokenList, Keeps I (decodeBatches L o trackHistory turns tokens) := by
  induction turns with
  | zero =>
      intro tokens t ht
      cases tokens <;> exact ht
  | succ turns ih =>
      intro tokens
      cases tokens with
      | nil =>
          intro t ht
          exact ht
      | cons token tokens =>
          unfold LlamaContext.decodeBatches
          apply h.polled.bind
          intro _
          apply (h.batch _).bind
          intro status
          apply h.polled.bind
          intro _ t ht
          rw [wp_ite]
          refine ⟨fun _ => ht, fun _ => ?_⟩
          rw [wp_bind, wp_modify]
          exact ih _ _ (h.history t _ ht)

/-- What each chunk keeps, the prompt with media keeps. -/
theorem evaluateChunks (h : StepsKeep L o trackHistory I) (chunks : List Nat) :
    Keeps I (evaluateChunks L o chunks) := by
  induction chunks with
  | nil =>
      intro t ht
      exact ht
  | cons chunk chunks ih =>
      unfold LlamaContext.evaluateChunks
      apply h.polled.bind
      intro _
      apply (h.chunk chunk).bind
      intro status
      apply h.polled.bind
      intro _ t ht
      rw [wp_ite]
      exact ⟨fun _ => ht, fun _ => ih t ht⟩

/-- What decoding and the callback keep, sampling keeps: the induction is on
the tokens that are still allowed. -/
theorem sampleTokens (h : StepsKeep L o trackHistory I) {prompt : TokenList}
    {options : GenerationOptions} {state : Option LlamaConversationState}
    {onText : QString → LlamaM Bool}
    (htracks : (mediaOf state).isNone = trackHistory)
    (hcallback : ∀ isEmpty text, Keeps I (handOver onText isEmpty text))
    (left : Nat) :
    ∀ (samples : List (Logits × Token)) (pieces : List (List UInt8)),
      Keeps I (sampleTokens L o prompt options state onText left
        samples pieces) := by
  induction left with
  | zero =>
      intro samples pieces t ht
      exact ht
  | succ left ih =>
      intro samples pieces
      unfold LlamaContext.sampleTokens
      apply h.polled.bind
      intro _ t ht
      rw [wp_bind, wp_get, wp_bind, wp_ofExcept]
      refine ⟨fun token _ => ?_, fun _ _ => ht⟩
      rw [wp_ite]
      refine ⟨fun _ => ht, fun _ => ?_⟩
      cases L.toPiece token (L.isPreserved state token) with
      | none => exact ht
      | some piece =>
          apply (hcallback _ _).bind _ t ht
          intro keepGoing t ht
          rw [wp_ite]
          refine ⟨fun _ => ?_, fun _ => ht⟩
          apply Keeps.bind _ (fun _ => ih _ _) t ht
          intro t ht
          unfold evaluateSampled
          rw [wp_ite, htracks]
          exact ⟨fun _ => h.decodeBatches _ _ t ht, fun _ => ht⟩

end StepsKeep

-- ================================================================ media turns

/-- A media turn, failed or not: it has no history, and its first evaluation
finds an empty memory. -/
structure Media (t : LlamaTurn) : Prop where
  previous : t.context.previous = []
  start : t.evaluations = [] → t.context.kv = []
  first : ∀ e ∈ t.evaluations.head?, e.before = 0

/-- The same for a media turn. -/
theorem Media.of_same {t t' : LlamaTurn} (h : Media t)
    (hsame : SameContext t t') : Media t' where
  previous := hsame.1 ▸ h.previous
  start := fun hnone => hsame.1 ▸ h.start (hsame.2 ▸ hnone)
  first := hsame.2 ▸ h.first

/-- A media turn has no history that the memory could fail to begin with. -/
theorem Media.prefixed {t : LlamaTurn} (h : Media t) : Prefixed t.context := by
  unfold Prefixed
  rw [h.previous]
  exact List.nil_prefix

/-- The turn after an evaluation, whatever it added. -/
theorem Media.evaluation {t : LlamaTurn} (h : Media t) (tokens : TokenList)
    (polls : Nat) (c : LlamaContext)
    (hprevious : c.previous = t.context.previous) :
    Media { t with
      polls
      context := c
      evaluations := t.evaluations ++ [evaluationOf t.context tokens] } where
  previous := hprevious.trans h.previous
  start := fun hnone => absurd hnone (List.append_ne_nil_of_right_ne_nil _
    (List.cons_ne_nil _ _))
  first := by
    intro e he
    have hstart := h.start
    have hfirst := h.first
    cases hold : t.evaluations with
    | nil =>
        rw [hold] at he
        cases he
        exact congrArg List.length (hstart hold)
    | cons e' rest =>
        rw [hold] at he hfirst
        exact hfirst e he

/-- Looking at the token leaves a media turn as it is. -/
theorem throwIfCancelled_media : Keeps Media (throwIfCancelled o) := by
  intro t h
  apply throwIfCancelled_wp
  · exact h.of_same ⟨rfl, rfl⟩
  · intro _
    exact h.of_same ⟨rfl, rfl⟩

/-- Every step of a media turn keeps this; without a history, decoding does. -/
theorem stepsKeep_media : StepsKeep L o false Media where
  polled := throwIfCancelled_media
  batch batch t h := h.evaluation batch t.polls _ rfl
  chunk _ t h := h.evaluation [] t.polls _ rfl
  history _ _ h := ⟨h.previous, h.start, h.first⟩

/-- And so does a callback. -/
theorem Quiet.media {onText : QString → LlamaM Bool} (hquiet : Quiet onText)
    (text : QString) : Keeps Media (onText text) := by
  intro t h
  exact wp_mono (hquiet text t) (fun _ _ hsame => h.of_same hsame)
    (fun _ _ hsame => h.of_same hsame)

/-- A prompt with media is evaluated from an empty memory: nothing is kept of
the turn before. -/
theorem evaluatePrompt_media {prompt : TokenList} {chunks : List Nat}
    {state : Option LlamaConversationState} {t : LlamaTurn}
    (hmedia : mediaOf state = some chunks) (hnone : t.evaluations = []) :
    wp (evaluatePrompt L o prompt state)
      (fun kept t' => kept = 0 ∧ Media t') (fun _ => Media) t := by
  unfold evaluatePrompt
  rw [hmedia, wp_bind, wp_get]
  dsimp only
  rw [wp_bind, wp_set, wp_bind]
  have hzero : (rewind o 0 t.context).1 = 0 := Nat.le_zero.1 (rewind_le 0 _)
  have hstart : Media { t with context := (rewind o 0 t.context).2 } := by
    constructor
    · show t.context.previous.take (rewind o 0 t.context).1 = []
      rw [hzero, List.take_zero]
    · intro _
      show t.context.kv.take (rewind o 0 t.context).1 = []
      rw [hzero, List.take_zero]
    · show ∀ e ∈ t.evaluations.head?, _
      rw [hnone]
      intro e he
      cases he
  exact wp_mono (stepsKeep_media.evaluateChunks chunks _ hstart)
    (fun _ _ h => ⟨hzero, h⟩) (fun _ _ h => h)

-- ============================================================= one generation

/-- No empty prompt passes the checks. -/
theorem check_prompt {prompt : TokenList} {options : GenerationOptions}
    {state : Option LlamaConversationState}
    (hcheck : check L prompt options state = .ok ())
    (hmedia : mediaOf state = none) : prompt ≠ [] := by
  intro hempty
  have hlength : inputTokensOf prompt state = 0 := by
    rw [hempty]
    cases state with
    | none => rfl
    | some state =>
        cases state with
        | mk chunks =>
            cases chunks with
            | none => rfl
            | some chunks => cases hmedia
  unfold check at hcheck
  obtain ⟨_, _, hcheck⟩ := bind_eq_ok.1 hcheck
  obtain ⟨_, _, hcheck⟩ := bind_eq_ok.1 hcheck
  obtain ⟨_, _, hcheck⟩ := bind_eq_ok.1 hcheck
  have hpos := (require_eq_ok.1 hcheck).1
  omega

/-- A generation from a text prompt. -/
theorem generateImpl_text {prompt : TokenList} {options : GenerationOptions}
    {state : Option LlamaConversationState} {onText : QString → LlamaM Bool}
    {t : LlamaTurn} (hmedia : mediaOf state = none) (hquiet : Quiet onText)
    (h : Prefixed t.context) (hnone : t.evaluations = []) :
    wp (generateImpl L o prompt options onText state)
      (fun r t' => ∃ kept : Nat, r.cachedTokens = kept ∧ kept < prompt.length
        ∧ Text kept t' ∧ prompt <+: t'.context.previous)
      (fun _ => TextOrFailed) t := by
  have hfailed : TextOrFailed { t with polls := t.polls + 1 } := by
    refine ⟨h, ?_⟩
    show Placed t.evaluations
    rw [hnone]
    intro e hmem
    cases hmem
  unfold generateImpl
  rw [wp_bind]
  apply throwIfCancelled_wp _ (fun _ => hfailed)
  rw [wp_bind, wp_ofExcept]
  refine ⟨fun _ hcheck => ?_, fun _ _ => hfailed⟩
  rw [wp_bind]
  apply wp_mono (evaluatePrompt_text hmedia (check_prompt hcheck hmedia)
    (by exact h) (by exact hnone)) _ (fun _ _ hfailed => hfailed)
  intro kept t₂ ⟨hkept, h₂, hprevious⟩
  rw [wp_bind, wp_ofExcept]
  refine ⟨fun _ _ => ?_, fun _ _ => h₂.textOrFailed⟩
  rw [wp_bind]
  apply wp_mono (sampleTokens_text hmedia hquiet _ _ _ t₂ h₂) _
    (fun _ _ hfailed => hfailed)
  intro sampled t₃ ⟨h₃, hprefix⟩
  dsimp only
  rw [wp_bind]
  apply wp_mono ((hquiet.handOver _).text h₃ _) _ (fun _ _ hfailed => hfailed)
  intro _ t₄ ⟨h₄, hcontext⟩
  rw [wp_bind, wp_modify, hmedia]
  refine ⟨kept, rfl, hkept, h₄.of_same rfl rfl, ?_⟩
  rw [hprevious, ← hcontext] at hprefix
  exact hprefix

/-- A generation from a prompt with media: one that the checks refuse leaves
the context as it was. -/
theorem generateImpl_media {prompt : TokenList} {options : GenerationOptions}
    {state : Option LlamaConversationState} {onText : QString → LlamaM Bool}
    {t : LlamaTurn} (hmedia : (mediaOf state).isSome) (hquiet : Quiet onText)
    (hnone : t.evaluations = []) :
    wp (generateImpl L o prompt options onText state)
      (fun r t' => r.cachedTokens = 0 ∧ Media t')
      (fun _ t' => SameContext t t' ∨ Media t') t := by
  obtain ⟨chunks, hchunks⟩ := Option.isSome_iff_exists.1 hmedia
  unfold generateImpl
  rw [wp_bind]
  apply throwIfCancelled_wp _ (fun _ => Or.inl ⟨rfl, rfl⟩)
  rw [wp_bind, wp_ofExcept]
  refine ⟨fun _ _ => ?_, fun _ _ => Or.inl ⟨rfl, rfl⟩⟩
  rw [wp_bind]
  apply wp_mono (evaluatePrompt_media hchunks (by exact hnone)) _
    (fun _ _ h => Or.inr h)
  intro kept t₂ ⟨hkept, h₂⟩
  rw [wp_bind, wp_ofExcept]
  refine ⟨fun _ _ => ?_, fun _ _ => Or.inr h₂⟩
  rw [wp_bind]
  apply wp_mono (stepsKeep_media.sampleTokens
    (Option.isNone_eq_false_iff.2 hmedia)
    (fun _ => (hquiet.handOver _).media) _ _ _ t₂ h₂) _
    (fun _ _ h => Or.inr h)
  intro sampled t₃ h₃
  dsimp only
  rw [wp_bind]
  apply wp_mono ((hquiet.handOver _).media _ t₃ h₃) _ (fun _ _ h => Or.inr h)
  intro _ t₄ h₄
  rw [wp_bind, wp_modify, if_pos hmedia]
  exact ⟨congrArg Nat.cast hkept, rfl, h₄.start, h₄.first⟩

-- ============================================================ a fresh context

/-- Two calls that have handed out the same. -/
structure SameOutput (t t' : LlamaTurn) : Prop where
  delivered : t.delivered = t'.delivered
  generated : t.generated = t'.generated
  deliveredSize : t.deliveredSize = t'.deliveredSize
  yielded : t.yielded = t'.yielded

/-- Two calls in step: their memories are the same, too. -/
structure Agree (t t' : LlamaTurn) : Prop extends SameOutput t t' where
  kv : t.context.kv = t'.context.kv
  next : t.context.nextPosition = t'.context.nextPosition

/-- On the fresh side nothing is ever cancelled; where the other side goes on,
both have looked at their tokens. -/
theorem throwIfCancelled_follows {t t' : LlamaTurn}
    {Q : Unit → Unit → LlamaTurn → LlamaTurn → Prop}
    (h : Q () () { t with polls := t.polls + 1 }
      { t' with polls := t'.polls + 1 }) :
    follows (throwIfCancelled o) (throwIfCancelled {}) Q t t' := by
  unfold throwIfCancelled
  apply follows_get_bind
  apply follows_bind
  apply follows_set
  by_cases hcancelled : o.cancelled t.polls = true
  · rw [if_pos hcancelled]
    exact follows_throw
  · rw [if_neg hcancelled, if_neg Bool.false_ne_true]
    exact follows_pure h

/-- Whatever else changes, the outputs and the memories stay the same. -/
theorem SameOutput.agree {t t' : LlamaTurn} (h : SameOutput t t')
    {c c' : LlamaContext} (hkv : c.kv = c'.kv)
    (hnext : c.nextPosition = c'.nextPosition) (polls polls' : Nat)
    (evaluations evaluations' : List LlamaEvaluation) :
    Agree { t with polls, evaluations, context := c }
      { t' with
        polls := polls'
        evaluations := evaluations'
        context := c' } :=
  ⟨⟨h.delivered, h.generated, h.deliveredSize, h.yielded⟩, hkv, hnext⟩

/-- An evaluation in step: where it succeeds, it adds the same cells. -/
theorem llamaDecode_follows {t t' : LlamaTurn} (h : Agree t t')
    (batch : TokenList) :
    follows (llamaDecode o batch) (llamaDecode {} batch)
      (fun status status' t t' => status' = 0 ∧ (status = 0 → Agree t t'))
      t t' := by
  unfold llamaDecode
  apply follows_get_bind
  apply follows_bind
  apply follows_set
  apply follows_pure
  refine ⟨rfl, fun hstatus => h.agree ?_ ?_ _ _ _ _⟩
  · show t.context.kv ++ (outcomeOf o t.evaluations _).1
      = t'.context.kv ++ cells t'.context.nextPosition batch
    rw [(outcomeOf_spec o _ _).2 hstatus, h.kv, h.next]
  · exact h.next

/-- Where a chunk is evaluated on one side, it adds to the other side's memory
just what it adds there. -/
theorem evaluateChunk_follows {t t' : LlamaTurn} (h : Agree t t')
    (chunk : Nat) :
    follows (evaluateChunk L o chunk) (evaluateChunk L {} chunk)
      (fun status status' t t' => status' = 0 ∧ (status = 0 → Agree t t'))
      t t' := by
  unfold evaluateChunk
  apply follows_get_bind
  apply follows_bind
  apply follows_set
  apply follows_pure
  refine ⟨rfl, fun hstatus => h.agree ?_ ?_ _ _ _ _⟩
  · show t.context.kv ++ (outcomeOf o t.evaluations _).1
      = t'.context.kv ++ (L.evaluate chunk t'.context.nextPosition).1
    rw [(outcomeOf_spec o _ _).2 hstatus, h.kv, h.next]
  · show (L.evaluate chunk t.context.nextPosition).2 = _
    rw [h.next]

/-- After an evaluation in step, and a look at the token. -/
theorem follows_status {α β : Type} {status : Int} {m : LlamaM α}
    {m' : LlamaM β}
    {thrown thrown' : Exn} {Q : α → β → LlamaTurn → LlamaTurn → Prop}
    {t t' : LlamaTurn} (h : status = 0 → follows m m' Q t t') :
    follows (if status ≠ 0 then throw thrown else m)
      (if (0 : Int) ≠ 0 then throw thrown' else m') Q t t' := by
  rw [if_neg (not_not.2 rfl)]
  by_cases hstatus : status = 0
  · rw [if_neg (not_not.2 hstatus)]
    exact h hstatus
  · rw [if_pos hstatus]
    exact follows_throw

/-- In step batch by batch: where the one side does not fail, both have the
same memory. -/
theorem decodeBatches_follows (trackHistory : Bool) (turns : Nat) :
    ∀ (tokens : TokenList) (t t' : LlamaTurn), Agree t t' →
      follows (decodeBatches L o trackHistory turns tokens)
        (decodeBatches L {} trackHistory turns tokens)
        (fun _ _ => Agree) t t' := by
  induction turns with
  | zero =>
      intro tokens t t' h
      cases tokens with
      | nil => exact follows_pure h
      | cons token tokens => exact follows_throw
  | succ turns ih =>
      intro tokens t t' h
      cases tokens with
      | nil => exact follows_pure h
      | cons token tokens =>
          unfold decodeBatches
          apply follows_bind
          apply throwIfCancelled_follows
          apply follows_bind
          apply follows_mono
            (llamaDecode_follows (h.agree h.kv h.next _ _ _ _) _)
          intro status status' t₁ t₁' ⟨hzero, hagree⟩
          cases hzero
          apply follows_bind
          apply throwIfCancelled_follows
          apply follows_status
          intro hstatus
          have hagree := hagree hstatus
          apply follows_bind
          apply follows_modify
          apply ih
          refine hagree.agree ?_ ?_ _ _ _ _
          · exact hagree.kv
          · exact congrArg (· + (_ : TokenList).length) hagree.next

/-- And chunk by chunk. -/
theorem evaluateChunks_follows (chunks : List Nat) :
    ∀ t t' : LlamaTurn, Agree t t' →
      follows (evaluateChunks L o chunks) (evaluateChunks L {} chunks)
        (fun _ _ => Agree) t t' := by
  induction chunks with
  | nil =>
      intro t t' h
      exact follows_pure h
  | cons chunk chunks ih =>
      intro t t' h
      unfold evaluateChunks
      apply follows_bind
      apply throwIfCancelled_follows
      apply follows_bind
      apply follows_mono
        (evaluateChunk_follows (h.agree h.kv h.next _ _ _ _) _)
      intro status status' t₁ t₁' ⟨hzero, hagree⟩
      cases hzero
      apply follows_bind
      apply throwIfCancelled_follows
      apply follows_status
      intro hstatus
      have hagree := hagree hstatus
      exact ih _ _ (hagree.agree hagree.kv hagree.next _ _ _ _)

/-- What two calls do in step, with the same results. -/
abbrev InStep {α : Type} (m m' : LlamaM α) : Prop :=
  ∀ t t', Agree t t' →
    follows m m' (fun a a' t t' => a = a' ∧ Agree t t') t t'

/-- A callback that has handed on the same hands on the same. -/
theorem deliver_inStep (consumer : Consumer) (text : QString) :
    InStep (deliver consumer text) (deliver consumer text) := by
  intro t t' h
  unfold deliver
  apply follows_get_bind
  rw [h.delivered]
  apply follows_bind
  apply follows_set
  apply follows_ofExcept
  intro a _
  exact ⟨rfl, ⟨rfl, h.generated, h.deliveredSize, h.yielded⟩, h.kv, h.next⟩

/-- An empty text is handed on by neither side. -/
theorem handOver_inStep {onText : QString → LlamaM Bool}
    (hcallback : ∀ text, InStep (onText text) (onText text)) (isEmpty : Bool)
    (text : QString) :
    InStep (handOver onText isEmpty text) (handOver onText isEmpty text) := by
  intro t t' h
  unfold handOver
  apply follows_ite
  · intro _
    exact follows_pure ⟨rfl, h⟩
  · intro _
    exact hcallback text t t' h

/-- The callback of a single tool turn looks at what was handed on so far,
which is the same on both sides. -/
theorem deliverTurn_inStep (state : LlamaConversationState)
    (consumer : Consumer) (piece : QString) :
    InStep (deliverTurn L state consumer piece)
      (deliverTurn L state consumer piece) := by
  intro t t' h
  unfold deliverTurn
  apply follows_get_bind
  rw [h.yielded, h.generated, h.deliveredSize]
  apply follows_ite
  · intro _
    exact follows_pure ⟨rfl, h⟩
  · intro _
    apply follows_bind
    apply follows_set
    apply follows_bind
    refine follows_mono
      (handOver_inStep (deliver_inStep consumer) _ _ _ _ ?_) ?_
    · exact ⟨⟨h.delivered, rfl, rfl, rfl⟩, h.kv, h.next⟩
    intro keepGoing keepGoing' t₁ t₁' ⟨hsame, hagree⟩
    apply follows_bind
    apply follows_modify
    apply follows_pure
    rw [hsame]
    exact ⟨rfl, ⟨hagree.delivered, hagree.generated, rfl, rfl⟩, hagree.kv,
      hagree.next⟩

/-- A sampled token is evaluated on both sides or on neither. -/
theorem evaluateSampled_inStep (state : Option LlamaConversationState)
    (left : Nat) (token : Token) :
    InStep (evaluateSampled L o state left token)
      (evaluateSampled L {} state left token) := by
  intro t t' h
  unfold evaluateSampled
  apply follows_ite
  · intro _
    apply follows_mono (decodeBatches_follows _ _ _ t t' h)
    intro _ _ t₁ t₁' hagree
    exact ⟨rfl, hagree⟩
  · intro _
    exact follows_pure ⟨rfl, h⟩

/-- Sampling in step: the logits are those of the same memory, so the same
token is drawn on both sides, round after round. -/
theorem sampleTokens_inStep {prompt : TokenList} {options : GenerationOptions}
    {state : Option LlamaConversationState} {onText : QString → LlamaM Bool}
    (hcallback : ∀ text, InStep (onText text) (onText text)) (left : Nat) :
    ∀ (samples : List (Logits × Token)) (pieces : List (List UInt8)),
      InStep (sampleTokens L o prompt options state onText left samples pieces)
        (sampleTokens L {} prompt options state onText left
          samples pieces) := by
  induction left with
  | zero =>
      intro samples pieces t t' h
      exact follows_pure ⟨rfl, h⟩
  | succ left ih =>
      intro samples pieces t t' h
      unfold sampleTokens
      apply follows_bind
      apply throwIfCancelled_follows
      have h := h.agree h.kv h.next (t.polls + 1) (t'.polls + 1)
        t.evaluations t'.evaluations
      apply follows_get_bind
      rw [h.kv]
      apply follows_bind
      apply follows_ofExcept
      intro token _
      dsimp only
      apply follows_ite
      · intro _
        exact follows_pure ⟨rfl, h⟩
      · intro _
        cases L.toPiece token (L.isPreserved state token) with
        | none => exact follows_throw
        | some piece =>
            dsimp only
            apply follows_bind
            apply follows_mono (handOver_inStep hcallback _ _ _ _ h)
            intro keepGoing keepGoing' t₁ t₁' ⟨hsame, hagree⟩
            rw [hsame]
            apply follows_ite
            · intro _
              apply follows_bind
              apply follows_mono (evaluateSampled_inStep _ _ _ _ _ hagree)
              intro _ _ t₂ t₂' ⟨_, hagree⟩
              exact ih _ _ t₂ t₂' hagree
            · intro _
              exact follows_pure ⟨rfl, hagree⟩

/-- Where nothing fails, an evaluation adds all its cells. -/
theorem outcomeOf_calm (evaluations : List LlamaEvaluation)
    (new : List LlamaCell) : outcomeOf {} evaluations new = (new, 0) := rfl

/-- Decoding hands nothing out, and fails only for a reason from outside. -/
theorem decodeBatches_output (trackHistory : Bool) (turns : Nat) :
    ∀ (tokens : TokenList) (t₀ t : LlamaTurn), tokens.length ≤ turns →
      SameOutput t₀ t →
      wp (decodeBatches L o trackHistory turns tokens)
        (fun _ => SameOutput t₀) (fun _ _ => o ≠ {}) t := by
  induction turns with
  | zero =>
      intro tokens t₀ t hlength h
      cases tokens with
      | nil => exact h
      | cons token tokens => cases hlength
  | succ turns ih =>
      intro tokens t₀ t hlength h
      cases tokens with
      | nil => exact h
      | cons token tokens =>
          have hpos := L.batchTokens_pos
          have hrest : ((token :: tokens).drop L.batchTokens).length
              ≤ turns := by
            rw [List.length_drop]
            omega
          unfold decodeBatches throwIfCancelled llamaDecode
          simp only [wp_bind, wp_get, wp_set, wp_pure, wp_ite, wp_throw,
            wp_modify]
          refine ⟨fun hcancelled hcalm => ?_, fun _ =>
            ⟨fun hcancelled hcalm => ?_, fun _ => ⟨fun hstatus hcalm => ?_,
              fun _ => ?_⟩⟩⟩
          · rw [hcalm] at hcancelled
            cases hcancelled
          · rw [hcalm] at hcancelled
            cases hcancelled
          · rw [hcalm, outcomeOf_calm] at hstatus
            exact hstatus rfl
          · exact ih _ t₀ _ hrest
              ⟨h.delivered, h.generated, h.deliveredSize, h.yielded⟩

/-- A text prompt: the rest of it behind what was kept is, cell by cell, the
whole prompt in an empty memory. -/
theorem evaluatePrompt_text_follows {prompt : TokenList}
    {state : Option LlamaConversationState} {t t' : LlamaTurn}
    (hmedia : mediaOf state = none) (hprompt : prompt ≠ [])
    (h : Prefixed t.context) (hnone : t.evaluations = [])
    (hfresh : t'.context = {}) (hnone' : t'.evaluations = [])
    (hsame : SameOutput t t') :
    follows (evaluatePrompt L o prompt state)
      (evaluatePrompt L {} prompt state)
      (fun _ _ => Agree) t t' := by
  -- Both sides end with exactly the prompt in their memories.
  have houtput : ∀ (o : LlamaOutside) (t₀ t : LlamaTurn), SameOutput t₀ t →
      wp (evaluatePrompt L o prompt state) (fun _ => SameOutput t₀)
        (fun _ _ => o ≠ {}) t := by
    intro o t₀ t h
    unfold evaluatePrompt
    rw [hmedia, wp_bind, wp_get]
    dsimp only
    rw [wp_bind, wp_set, wp_bind]
    exact decodeBatches_output true _ _ t₀ _ (Nat.le_refl _)
      ⟨h.delivered, h.generated, h.deliveredSize, h.yielded⟩
  have hright : Prefixed t'.context := by
    rw [hfresh]
    exact List.nil_prefix
  intro kept t₁ hm
  have houtput₁ := wp_ok (houtput o t' t
    ⟨hsame.1.symm, hsame.2.symm, hsame.3.symm, hsame.4.symm⟩) hm
  obtain ⟨_, htext, hprevious⟩ :=
    wp_ok (evaluatePrompt_text hmedia hprompt h hnone) hm
  rcases wp_cases (wp_and (houtput {} t₁ t'
      ⟨houtput₁.1.symm, houtput₁.2.symm, houtput₁.3.symm, houtput₁.4.symm⟩)
      (evaluatePrompt_text hmedia hprompt hright hnone')) with
    ⟨kept', t₁', hm', houtput₁', _, htext', hprevious'⟩ | ⟨_, _, _, hcalm, _⟩
  · refine ⟨kept', t₁', hm', houtput₁', ?_, ?_⟩
    · rw [htext.exact, htext'.exact, hprevious, hprevious']
    · rw [htext.next, htext'.next, hprevious, hprevious']
  · exact absurd rfl hcalm

/-- A prompt with media: both sides start from an empty memory. -/
theorem evaluatePrompt_media_follows {prompt : TokenList} {chunks : List Nat}
    {state : Option LlamaConversationState} {t t' : LlamaTurn}
    (hmedia : mediaOf state = some chunks) (hsame : SameOutput t t') :
    follows (evaluatePrompt L o prompt state)
      (evaluatePrompt L {} prompt state)
      (fun _ _ => Agree) t t' := by
  unfold evaluatePrompt
  rw [hmedia]
  have hzero : ∀ (o : LlamaOutside) c, (rewind o 0 c).1 = 0 :=
    fun o c => Nat.le_zero.1 (rewind_le 0 c)
  apply follows_get_bind
  dsimp only
  apply follows_bind
  apply follows_set
  apply follows_bind
  refine follows_mono (evaluateChunks_follows chunks _ _
    (hsame.agree ?_ ?_ _ _ _ _)) ?_
  · show t.context.kv.take (rewind o 0 t.context).1
      = t'.context.kv.take (rewind {} 0 t'.context).1
    rw [hzero, hzero, List.take_zero, List.take_zero]
  · exact (hzero o t.context).trans (hzero {} t'.context).symm
  · intro _ _ t₁ t₁' hagree
    exact follows_pure hagree

/-- A generation does what the same generation does on a fresh context,
where nothing fails. -/
theorem generateImpl_follows {prompt : TokenList} {options : GenerationOptions}
    {state : Option LlamaConversationState} {onText : QString → LlamaM Bool}
    (hcallback : ∀ text, InStep (onText text) (onText text)) {t t' : LlamaTurn}
    (h : Prefixed t.context) (hnone : t.evaluations = [])
    (hfresh : t'.context = {}) (hnone' : t'.evaluations = [])
    (hsame : SameOutput t t') :
    follows (generateImpl L o prompt options onText state)
      (generateImpl L {} prompt options onText state)
      (fun r r' t t' => r.finishReason = r'.finishReason
        ∧ r.generatedTokens = r'.generatedTokens ∧ t.delivered = t'.delivered)
      t t' := by
  unfold generateImpl
  apply follows_bind
  apply throwIfCancelled_follows
  apply follows_bind
  apply follows_ofExcept
  intro _ hcheck
  have hsame : SameOutput { t with polls := t.polls + 1 }
      { t' with polls := t'.polls + 1 } :=
    ⟨hsame.delivered, hsame.generated, hsame.deliveredSize, hsame.yielded⟩
  have hevaluate : follows (evaluatePrompt L o prompt state)
      (evaluatePrompt L {} prompt state) (fun _ _ => Agree)
      { t with polls := t.polls + 1 } { t' with polls := t'.polls + 1 } := by
    cases hmedia : mediaOf state with
    | none =>
        exact evaluatePrompt_text_follows hmedia (check_prompt hcheck hmedia)
          h hnone hfresh hnone' hsame
    | some chunks => exact evaluatePrompt_media_follows hmedia hsame
  apply follows_bind
  apply follows_mono hevaluate
  intro kept kept' t₁ t₁' hagree
  -- The sampler can be set up on the fresh side.
  apply follows_bind
  intro _ t₂ hsampler
  obtain ⟨_, hstate⟩ := Prod.mk.inj hsampler
  rw [← hstate]
  refine ⟨(), t₁', rfl, ?_⟩
  apply follows_bind
  apply follows_mono (sampleTokens_inStep hcallback _ _ _ _ _ hagree)
  intro sampled sampled' t₂ t₂' ⟨hsampled, hagree⟩
  rw [hsampled]
  apply follows_bind
  apply follows_mono (handOver_inStep hcallback _ _ _ _ hagree)
  intro _ _ t₃ t₃' ⟨_, hagree⟩
  apply follows_bind
  apply follows_modify
  apply follows_pure
  exact ⟨rfl, rfl, hagree.delivered⟩

-- ====================================================================== calls

/-- The state of a call's conversation. -/
def Call.state : Call → Option LlamaConversationState
  | .generate _ _ => none
  | .generateConversation _ state _ => state

def Call.prompt : Call → TokenList
  | .generate prompt _ => prompt
  | .generateConversation prompt _ _ => prompt

def Call.options : Call → GenerationOptions
  | .generate _ options => options
  | .generateConversation _ _ options => options

/-- A media turn is one whose prompt has chunks. -/
def Call.isMedia (request : Call) : Bool := (mediaOf request.state).isSome

/-- A call is a generation with a callback that leaves the context alone, or
it is refused at once. -/
theorem perform_cases (consumer : Consumer) (request : Call) :
    (∃ onText, Quiet onText ∧ (∀ text, InStep (onText text) (onText text))
      ∧ ∀ o, perform L o consumer request = generateImpl L o request.prompt
        request.options onText request.state)
    ∨ request.state = none ∧ ∃ e, ∀ o,
      perform L o consumer request = throw e := by
  cases request with
  | generate prompt options =>
      exact Or.inl ⟨deliver consumer, deliver_quiet consumer,
        deliver_inStep consumer, fun _ => rfl⟩
  | generateConversation prompt state options =>
      cases state with
      | none => exact Or.inr ⟨rfl, _, fun _ => rfl⟩
      | some state =>
          by_cases htools : state.singleTurnTools = []
          · refine Or.inl ⟨deliver consumer, deliver_quiet consumer,
              deliver_inStep consumer, fun o => ?_⟩
            exact if_pos htools
          · refine Or.inl ⟨deliverTurn L state consumer,
              deliverTurn_quiet state consumer,
              deliverTurn_inStep state consumer, fun o => ?_⟩
            exact if_neg htools

/-- What a text call does to a context. -/
theorem perform_text {consumer : Consumer} {request : Call} {t : LlamaTurn}
    (htext : request.isMedia = false) (h : Prefixed t.context)
    (hnone : t.evaluations = []) :
    wp (perform L o consumer request)
      (fun r t' => ∃ kept : Nat, r.cachedTokens = kept
        ∧ kept < request.prompt.length ∧ Text kept t'
        ∧ request.prompt <+: t'.context.previous)
      (fun _ => TextOrFailed) t := by
  have hmedia : mediaOf request.state = none :=
    Option.isSome_eq_false_iff.1 htext |> Option.isNone_iff_eq_none.1
  rcases perform_cases (L := L) consumer request with
    ⟨onText, hquiet, _, heq⟩ | ⟨_, e, heq⟩
  · rw [heq]
    exact generateImpl_text hmedia hquiet h hnone
  · rw [heq, wp_throw]
    refine ⟨h, ?_⟩
    rw [hnone]
    intro _ hmem
    cases hmem

/-- What a media call does to a context. -/
theorem perform_media {consumer : Consumer} {request : Call} {t : LlamaTurn}
    (hmedia : request.isMedia = true) (hnone : t.evaluations = []) :
    wp (perform L o consumer request)
      (fun r t' => r.cachedTokens = 0 ∧ Media t')
      (fun _ t' => SameContext t t' ∨ Media t') t := by
  rcases perform_cases (L := L) consumer request with
    ⟨onText, hquiet, _, heq⟩ | ⟨hstate, _⟩
  · rw [heq]
    exact generateImpl_media hmedia hquiet hnone
  · unfold Call.isMedia at hmedia
    rw [hstate] at hmedia
    cases hmedia

/-- Every call leaves a history that begins the memory. -/
theorem call_prefixed {consumer : Consumer} {c : LlamaContext} {request : Call}
    (h : Prefixed c) : Prefixed (call L o consumer c request).2.context := by
  unfold call
  cases hmedia : request.isMedia with
  | false =>
      apply wp_final (P := fun t : LlamaTurn => Prefixed t.context)
      apply wp_mono (perform_text hmedia h rfl)
      · intro _ t' ⟨_, _, _, htext, _⟩
        exact htext.prefixed
      · intro _ t' hfailed
        exact hfailed.1
  | true =>
      apply wp_final (P := fun t : LlamaTurn => Prefixed t.context)
      apply wp_mono (perform_media hmedia rfl)
      · intro _ t' ⟨_, h'⟩
        exact h'.prefixed
      · intro _ t' hfailed
        cases hfailed with
        | inl hsame => exact hsame.1 ▸ h
        | inr h' => exact h'.prefixed

/-- So does every sequence of calls. -/
theorem callAll_prefixed (requests : List (LlamaOutside × Consumer × Call)) :
    ∀ {c : LlamaContext}, Prefixed c → Prefixed (callAll L c requests) := by
  induction requests with
  | nil =>
      intro c h
      exact h
  | cons request requests ih =>
      intro c h
      exact ih (call_prefixed h)

/-- The context after any calls, from a fresh one on. -/
def usedContext (L : Llama Logits)
    (past : List (LlamaOutside × Consumer × Call)) : LlamaContext :=
  callAll L {} past

/-- However a context was used, its memory begins with its history: failed and
cancelled calls included. -/
theorem usedContext_prefixed (past : List (LlamaOutside × Consumer × Call)) :
    Prefixed (usedContext L past) :=
  callAll_prefixed past List.nil_prefix

/-- A text call that completed kept `cachedTokens` tokens of its prompt, not
all of them, and evaluated what follows them once: the rest of the prompt,
and tokens it sampled. -/
def Reused (prompt : TokenList) (r : RuntimeResult) (t : LlamaTurn) : Prop :=
  ∃ (kept : Nat) (sampled : TokenList), r.cachedTokens = kept
    ∧ kept < prompt.length
    ∧ t.context.kv = cells 0 (prompt ++ sampled)
    ∧ evaluated t.evaluations = prompt.drop kept ++ sampled

/-- A media turn that found an empty memory and leaves no history. -/
def FromEmpty (t : LlamaTurn) : Prop :=
  t.context.previous = [] ∧ ∀ e ∈ t.evaluations.head?, e.before = 0

/-- A completed call has delivered and returned what the same call does on
a fresh context, where nothing fails. -/
def SameAsFresh (L : Llama Logits) (consumer : Consumer) (request : Call)
    (r : RuntimeResult) (t : LlamaTurn) : Prop :=
  ∃ r' fresh, call L {} consumer {} request = (.ok r', fresh)
    ∧ fresh.delivered = t.delivered ∧ r'.finishReason = r.finishReason
    ∧ r'.generatedTokens = r.generatedTokens

/-- A call that returns has done what it does on a fresh context. -/
theorem call_sameAsFresh {consumer : Consumer} {c : LlamaContext}
    {request : Call} {r : RuntimeResult} (h : Prefixed c)
    (hok : (call L o consumer c request).1 = .ok r) :
    SameAsFresh L consumer request r (call L o consumer c request).2 := by
  unfold call at hok ⊢
  have hm := Prod.ext (x := perform L o consumer request { context := c })
    (y := (.ok r, (perform L o consumer request { context := c }).2)) hok rfl
  rcases perform_cases (L := L) consumer request with
    ⟨onText, _, hcallback, heq⟩ | ⟨_, e, heq⟩
  · rw [heq] at hm ⊢
    have hfollows : follows (generateImpl L o request.prompt request.options
        onText request.state) (generateImpl L {} request.prompt request.options
        onText request.state) _ { context := c } { context := {} } :=
      generateImpl_follows hcallback h rfl rfl rfl ⟨rfl, rfl, rfl, rfl⟩
    obtain ⟨r', fresh, hfresh, hreason, htokens, hdelivered⟩ := hfollows r _ hm
    exact ⟨r', fresh, (congrFun (heq {}) _).trans hfresh, hdelivered.symm,
      hreason.symm, htokens.symm⟩
  · rw [heq] at hok
    cases hok

/-- And, for a text, it has evaluated what it did not reuse, and
nothing else. -/
theorem call_reused {consumer : Consumer} {c : LlamaContext} {request : Call}
    {r : RuntimeResult} (h : Prefixed c) (htext : request.isMedia = false)
    (hok : (call L o consumer c request).1 = .ok r) :
    Reused request.prompt r (call L o consumer c request).2 := by
  obtain ⟨kept, hcached, hkept, h', sampled, hsampled⟩ :=
    wp_ok (perform_text (t := { context := c }) htext h rfl) (Prod.ext hok rfl)
  refine ⟨kept, sampled, hcached, hkept, ?_, ?_⟩
  · rw [hsampled]
    exact h'.exact
  · exact h'.evaluated.trans
      (hsampled ▸ List.drop_append_of_le_length (Nat.le_of_lt hkept))

/-- **Prefix reuse is invisible**, after any calls on one context: what failed,
was cancelled, or used media before. What the context keeps as its history is
the beginning of its memory, a text turn evaluates each batch where the memory
ends, a media turn starts from an empty one, and what is answered is what a
fresh context would answer. -/
theorem reuse_invisible (L : Llama Logits)
    (past : List (LlamaOutside × Consumer × Call)) (o : LlamaOutside)
    (consumer : Consumer) (request : Call) :
    Prefixed (usedContext L past)
      ∧ (request.isMedia = false →
        Placed (call L o consumer (usedContext L past) request).2.evaluations)
      ∧ (request.isMedia = true →
        SameContext { context := usedContext L past }
            (call L o consumer (usedContext L past) request).2
          ∨ FromEmpty (call L o consumer (usedContext L past) request).2)
      ∧ ∀ r, (call L o consumer (usedContext L past) request).1 = .ok r →
        SameAsFresh L consumer request r
            (call L o consumer (usedContext L past) request).2
          ∧ (request.isMedia = false → Reused request.prompt r
            (call L o consumer (usedContext L past) request).2)
          ∧ (request.isMedia = true → r.cachedTokens = 0
            ∧ FromEmpty (call L o consumer
              (usedContext L past) request).2) := by
  have h := @usedContext_prefixed Logits L past
  refine ⟨h, fun htext => ?_, fun hmedia => ?_, fun r hok =>
    ⟨call_sameAsFresh h hok, fun htext => call_reused h htext hok,
      fun hmedia => ?_⟩⟩
  · apply wp_final (P := fun t : LlamaTurn => Placed t.evaluations)
    exact wp_mono (perform_text htext h rfl)
      (fun _ _ ⟨_, _, _, htext, _⟩ => htext.placed)
      (fun _ _ hfailed => hfailed.2)
  · apply wp_final (P := fun t =>
      SameContext { context := usedContext L past } t ∨ FromEmpty t)
    apply wp_mono (perform_media hmedia rfl)
    · intro _ t' ⟨_, h'⟩
      exact Or.inr ⟨h'.previous, h'.first⟩
    · intro _ t' hfailed
      cases hfailed with
      | inl hsame => exact Or.inl hsame
      | inr h' => exact Or.inr ⟨h'.previous, h'.first⟩
  · obtain ⟨hcached, h'⟩ := wp_ok (perform_media
      (t := { context := usedContext L past }) hmedia rfl) (Prod.ext hok rfl)
    exact ⟨hcached, h'.previous, h'.first⟩

/-- A model whose next token is the number of cells, until there are five. -/
def sampleLlama : Llama Nat where
  vocabSize := 100
  contextTokens := 512
  batchTokens := 2
  batchTokens_pos := by decide
  validate := fun _ => .ok ()
  toInt := fun _ => 0
  evaluate := fun chunk position => ([.media chunk 0 position], position + 1)
  logits := List.length
  sample := fun _ _ _ _ n => .ok (Int32.ofNat n)
  isEndOfGeneration := fun token => token == 5
  toPiece := fun token _ => some [token.toUInt32.toUInt8]
  isPreserved := fun _ _ => false
  decodeUtf8 := fun pieces => (pieces.getLast?.getD []).map fun b => b.toUInt16
  finishUtf8 := fun _ => []
  fromJson := fun _ => none

def willing : Consumer := fun _ => .ok true

-- The second prompt shares two tokens with what the first left.
example :
    let c := usedContext sampleLlama [({}, willing, .generate [7, 8, 9] {})]
    let after := call sampleLlama {} willing c (.generate [7, 8, 6] {})
    (after.1.toOption.map fun r => r.cachedTokens) = some 2
      ∧ after.2.delivered = [[3], [4]] := by
  decide +kernel

end LocalLLM.LlamaContext
