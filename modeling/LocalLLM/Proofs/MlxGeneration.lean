/-
Cached answers of the MLX worker.

# What a cache must not change

With a cache, the library is given a part of the prompt only, evaluates that
in chunks, and tells the processors the last chunk. `plain` is the generation
that has none of this: each token is drawn from the logits behind all tokens
before it, processed with all of them.

# The argument

The logits are those of what the cache holds and of the tokens behind it
(`Causal`), and the cache holds what is left out of the prompt (`Ready`). The
processors complete the history at their first call, and from there on it
grows as the tokens do (`steps_told`). So what is generated is `plain`, and
the answer is that of a worker that has just been loaded, up to the number of
cached tokens (`cache_transparent`).
-/
import LocalLLM.Runtimes.MlxGeneration
import LocalLLM.Proofs.MlxWorker

namespace LocalLLM.Worker

open Exec Std

variable {L : Type} {lib : MlxLm L} {logits : Nat → TokenList → L}
    {o : Outside}
variable {model reused : Nat} {request : GenerateRequest} {w w' : Worker}

-- ============================================================ without a cache

namespace MlxLm

variable {p : Processing L} {a : SamplerArguments} {c : Closures}
    {cache : Cache}
variable {seen stream history tokens : TokenList}

/-- The logits behind tokens, processed with all of them. -/
def processed (logits : Nat → TokenList → L) (model : Nat) (p : Processing L)
    (tokens : TokenList) : L :=
  p.processors.foldl (fun l processor => processor tokens l)
    (logits model tokens)

/-- Tokens that are drawn one by one, each behind all before it. -/
def drawn (lib : MlxLm L) (logits : Nat → TokenList → L) (model : Nat)
    (p : Processing L) (a : SamplerArguments) (seed : UInt32) :
    Nat → Nat → TokenList → TokenList
  | 0, _, _ => []
  | fuel + 1, n, tokens =>
      let token := lib.draw a seed n (processed logits model p tokens)
      token :: drawn lib logits model p a seed fuel (n + 1) (tokens ++ [token])

/-- Some token with a bias is outside the vocabulary. -/
def Outlying (lib : MlxLm L) (logits : Nat → TokenList → L) (model : Nat)
    (p : Processing L) (tokens : TokenList) : Prop :=
  ∃ token ∈ p.biased, lib.vocabulary (logits model tokens) ≤ token

instance {tokens : TokenList} :
    Decidable (Outlying lib logits model p tokens) :=
  inferInstanceAs (Decidable (∃ token ∈ p.biased, _))

/-- What is generated behind a prompt, and what is raised. -/
def plain (lib : MlxLm L) (logits : Nat → TokenList → L) (model : Nat)
    (request : GenerateRequest) (p : Processing L) :
    TokenList × Option PyError :=
  if p.processors.isEmpty = false ∧ Outlying lib logits model p request.tokens
    then
    ([], some (valueError "logit_bias token is outside the vocabulary"))
  else match samplerArguments request.options
      (lib.vocabulary (processed logits model p request.tokens)) with
    | .error e => ([], some e)
    | .ok a => (lib.drawn logits model p a request.options.seed
        request.options.maxTokens.toNat 0 request.tokens, none)

/-- Without processors, the logits are those of the model. -/
theorem processed_of_isEmpty (h : p.processors.isEmpty = true) :
    processed logits model p tokens = logits model tokens := by
  unfold processed
  rw [List.isEmpty_iff.1 h]
  rfl

/-- The library sees these tokens as it would see those without a cache. -/
def Agrees (lib : MlxLm L) (logits : Nat → TokenList → L) (model : Nat)
    (cache : Cache) (seen tokens : TokenList) : Prop :=
  ∀ more, lib.forward model cache (seen ++ more)
    = logits model (tokens ++ more)

/-- A cache that agrees with some tokens gives the logits of these tokens, for
the model only sees what is in the cache and what it is given. -/
theorem Agrees.now (h : Agrees lib logits model cache seen tokens) :
    lib.forward model cache seen = logits model tokens := by
  have hnil := h []
  rwa [List.append_nil, List.append_nil] at hnil

/-- And goes on agreeing when one more token is seen: agreement is about all
continuations. -/
theorem Agrees.next (h : Agrees lib logits model cache seen tokens)
    (token : Token) :
    Agrees lib logits model cache (seen ++ [token]) (tokens ++ [token]) := by
  intro more
  simp only [List.append_assoc]
  exact h _

/-- The closures know what they need behind tokens of which the
history is the end. -/
structure Told (p : Processing L) (a : SamplerArguments)
    (history tokens : TokenList) (c : Closures) : Prop where
  sampler : c.sampler = some a
  omitted : p.processors.isEmpty = false →
    ∃ omitted, c.omitted = some omitted ∧ omitted ++ history = tokens

/-- The history grows as the tokens do, so the processors see at every call
what they would see without a cache. -/
theorem Told.next (h : Told p a history tokens c) (token : Token) :
    Told p a (history ++ [token]) (tokens ++ [token]) c := by
  refine ⟨h.sampler, fun hsome => ?_⟩
  obtain ⟨omitted, homitted, htokens⟩ := h.omitted hsome
  refine ⟨omitted, homitted, ?_⟩
  rw [← htokens, List.append_assoc]

/-- A call behind the first. The token drawn before is the only new one, on
both sides. -/
theorem step_told (h : Told p a history tokens c)
    (hagrees : Agrees lib logits model cache seen tokens) (n : Nat) :
    lib.step model cache request p n seen history c
      = .ok (lib.draw a request.options.seed n
        (processed logits model p tokens), c) := by
  obtain ⟨omitted, arguments⟩ := c
  obtain rfl : arguments = some a := h.sampler
  unfold step
  rw [hagrees.now]
  cases hempty : p.processors.isEmpty with
  | true =>
      rw [processed_of_isEmpty hempty]
      rfl
  | false =>
      obtain ⟨omitted', homitted, htokens⟩ := h.omitted hempty
      obtain rfl : omitted = some omitted' := homitted
      unfold processed
      rw [← htokens]
      rfl

/-- All calls behind the first, by induction on the fuel. None of them raises,
for the processors have found out all they ask for. -/
theorem steps_told (fuel : Nat) :
    ∀ {n : Nat} {seen history tokens : TokenList},
    Told p a history tokens c → Agrees lib logits model cache seen tokens →
    lib.steps model cache request p fuel n seen history c
      = (lib.drawn logits model p a request.options.seed fuel n tokens,
        none) := by
  induction fuel with
  | zero =>
      intro n seen history tokens _ _
      rfl
  | succ fuel ih =>
      intro n seen history tokens h hagrees
      unfold steps
      rw [step_told h hagrees]
      dsimp only
      rw [ih (h.next _) (hagrees.next _)]
      rfl

/-- What the processors find out at their first call: the tokens that the cache
has kept from them, which they put in front from then on. -/
theorem omittedOf_told (hhistory : history <:+ request.tokens)
    (hne : history ≠ []) : (Outlying lib logits model p request.tokens →
      lib.omittedOf request.tokens history p.biased
        (logits model request.tokens)
        = .error (valueError "logit_bias token is outside the vocabulary"))
    ∧ (¬ Outlying lib logits model p request.tokens →
      lib.omittedOf request.tokens history p.biased
        (logits model request.tokens)
        = .ok (request.tokens.take
          (request.tokens.length - history.length))) := by
  have hlength := hhistory.length_le
  have hdrop := List.suffix_iff_eq_drop.1 hhistory
  have htold : ¬(history = [] ∨ request.tokens.length < history.length
      ∨ request.tokens.drop (request.tokens.length - history.length)
        ≠ history) := by
    rintro (hnil | hlong | hother)
    · exact hne hnil
    · omega
    · exact hother hdrop.symm
  unfold omittedOf
  rw [if_neg htold]
  exact ⟨fun hout => if_pos hout, fun hin => if_neg hin⟩

/-- The first call, which may raise. It evaluates the rest of the prompt, so
this is where the cached part comes in. -/
theorem step_first (hagrees : Agrees lib logits model cache seen
    request.tokens)
    (hhistory : history <:+ request.tokens) (hne : history ≠ []) :
    (lib.step model cache request p 0 seen history {}
        = .error (valueError "logit_bias token is outside the vocabulary")
      ∧ p.processors.isEmpty = false
      ∧ Outlying lib logits model p request.tokens)
    ∨ ¬(p.processors.isEmpty = false
      ∧ Outlying lib logits model p request.tokens)
      ∧ ((∃ e, samplerArguments request.options
            (lib.vocabulary (processed logits model p request.tokens))
              = .error e
          ∧ lib.step model cache request p 0 seen history {} = .error e)
        ∨ ∃ a c, samplerArguments request.options
            (lib.vocabulary (processed logits model p request.tokens)) = .ok a
          ∧ Told p a history request.tokens c
          ∧ lib.step model cache request p 0 seen history {}
            = .ok (lib.draw a request.options.seed 0
                (processed logits model p request.tokens), c)) := by
  unfold step
  rw [hagrees.now]
  cases hempty : p.processors.isEmpty with
  | true =>
      refine Or.inr ⟨fun h => Bool.noConfusion h.1, ?_⟩
      rw [processed_of_isEmpty hempty]
      cases hsampler : samplerArguments request.options
          (lib.vocabulary (logits model request.tokens)) with
      | error e =>
          refine Or.inl ⟨e, rfl, ?_⟩
          show (do let r ← samplerArguments _ _; _) = _
          rw [hsampler]
          rfl
      | ok a =>
          refine Or.inr ⟨a, ⟨none, some a⟩, rfl, ⟨rfl, fun h => ?_⟩, ?_⟩
          · rw [hempty] at h
            cases h
          · show (do let r ← samplerArguments _ _; _) = _
            rw [hsampler]
            rfl
  | false =>
      by_cases hout : Outlying lib logits model p request.tokens
      · refine Or.inl ⟨?_, rfl, hout⟩
        show (do let r ← (do let omitted ← lib.omittedOf _ _ _ _; _); _) = _
        rw [(omittedOf_told hhistory hne).1 hout]
        rfl
      · refine Or.inr ⟨fun h => hout h.2, ?_⟩
        have hall : request.tokens.take
          (request.tokens.length - history.length)
            ++ history = request.tokens := by
          obtain ⟨before, hbefore⟩ := hhistory
          rw [← hbefore, List.length_append, Nat.add_sub_cancel_right,
            List.take_left]
        have hprocessed : p.processors.foldl (fun l processor => processor
            (request.tokens.take (request.tokens.length - history.length)
              ++ history) l)
            (logits model request.tokens)
              = processed logits model p request.tokens := by
          rw [hall]
          rfl
        have hprocess : lib.process request.tokens p history
          (logits model request.tokens) {}
            = .ok (processed logits model p request.tokens,
              ⟨some (request.tokens.take
                (request.tokens.length - history.length)),
                none⟩) := by
          unfold process
          dsimp only
          rw [(omittedOf_told hhistory hne).2 hout]
          show Except.ok _ = _
          rw [hprocessed]
        dsimp only
        rw [if_neg Bool.false_ne_true, hprocess]
        cases hsampler : samplerArguments request.options
            (lib.vocabulary (processed logits model p request.tokens)) with
        | error e =>
            refine Or.inl ⟨e, rfl, ?_⟩
            show (do let r ← samplerArguments _ _; _) = _
            rw [hsampler]
            rfl
        | ok a =>
            refine Or.inr ⟨a, ⟨some _, some a⟩, rfl,
              ⟨rfl, fun _ => ⟨_, rfl, hall⟩⟩, ?_⟩
            show (do let r ← samplerArguments _ _; _) = _
            rw [hsampler]
            rfl

/-- However much of the prompt is cached, and however it is evaluated: a causal
model sees the same prefix, and gives the same logits. -/
theorem generateStep_plain
    (hagrees : Agrees lib logits model cache stream request.tokens)
    (hstream : stream <:+ request.tokens) (hne : stream ≠ [])
    (hmax : 1 ≤ request.options.maxTokens) :
    lib.generateStep model cache request p stream
      = lib.plain logits model request p := by
  have hchunk := lib.lastChunk_pos _ (List.length_pos_iff.2 hne)
  have hle := lib.lastChunk_le stream.length
  obtain ⟨fuel, hfuel⟩ : ∃ fuel, request.options.maxTokens.toNat = fuel + 1 :=
    ⟨request.options.maxTokens.toNat - 1, by omega⟩
  unfold generateStep
  generalize hhistory : stream.drop
    (stream.length - lib.lastChunk stream.length) = history
  have hhistory_ne : history ≠ [] := by
    rw [← hhistory]
    refine List.length_pos_iff.1 ?_
    rw [List.length_drop]
    omega
  have hsuffix : history <:+ request.tokens :=
    hhistory ▸ (List.drop_suffix _ _).trans hstream
  rw [hfuel]
  unfold steps plain
  rcases step_first (p := p) hagrees hsuffix hhistory_ne with
    ⟨hstep, hprocessors, hout⟩ | ⟨hin, ⟨e, hsampler, hstep⟩ | ⟨a, c, hsampler,
      htold, hstep⟩⟩
  · rw [hstep, if_pos ⟨hprocessors, hout⟩]
  · rw [hstep, if_neg hin, hsampler]
  · rw [hstep, if_neg hin, hsampler]
    dsimp only
    rw [hfuel, steps_told fuel (htold.next _) (hagrees.next _)]
    rfl

end MlxLm

-- ================================================================= the layers

/-- Every cache has a layer. -/
def Layered (w : Worker) : Prop := ∀ id < w.caches, w.heap id ≠ []

/-- A cache that is written to keeps its layers if what is written has any. -/
theorem Layered.put (h : Layered w) (id : Nat) {cache : Cache}
    (hcache : w.heap id ≠ [] → cache ≠ []) : Layered (put id cache w) := by
  intro id' hid'
  by_cases heq : id' = id
  · subst heq
    rw [put_heap_self]
    exact hcache (h id' hid')
  · rw [put_heap_ne cache w heq]
    exact h id' hid'

/-- `make_prompt_cache` makes a layer at least. -/
def MakesLayers (o : Outside) : Prop :=
  ∀ layers, o.makeCache = .ok layers → layers ≠ []

/-- A new cache is made of the layers the library gives, of which there is one
at least. -/
theorem makeCache_layered (ho : MakesLayers o) :
    Keeps Layered (makeCache o) := by
  intro w h
  unfold makeCache
  rw [wp_bind, wp_ofExcept]
  refine ⟨fun layers hlayers => ?_, fun _ _ => h⟩
  rw [wp_bind, wp_get, wp_bind, wp_set, wp_pure]
  have hne := ho layers hlayers
  intro id hid
  rcases Nat.lt_succ_iff_lt_or_eq.1 hid with hlt | heq
  · show (Worker.put w.caches _ w).heap id ≠ []
    rw [put_heap_ne _ _ (Nat.ne_of_lt hlt)]
    exact h id hlt
  · show (Worker.put w.caches _ w).heap id ≠ []
    rw [heq, put_heap_self]
    simpa using hne

/-- Trimming shortens the layers and drops none of them. -/
theorem trim_layered (id amount : Nat) : Keeps Layered (trim o id amount) := by
  unfold trim
  refine (Keeps.ofExcept _).bind fun removed w h => ?_
  rw [wp_bind, wp_modify, wp_pure]
  refine h.put id fun hne => ?_
  unfold dropLast
  simpa using hne

/-- A kept cache has its layers already, whether it is trimmed or not, and a
new one is made with some. -/
theorem prepareCache_layered (ho : MakesLayers o) (entry : Option Entry)
    (tokens : TokenList) : Keeps Layered (prepareCache o entry tokens) := by
  have hnew : Keeps Layered (do let cache ← makeCache o; return (cache, 0)) :=
    (makeCache_layered ho).bind fun _ _ h => h
  unfold prepareCache
  cases entry with
  | none => exact hnew
  | some e =>
      intro w h
      dsimp only
      rw [wp_ite]
      refine ⟨fun _ => hnew w h, fun _ => ?_⟩
      rw [wp_ite]
      refine ⟨fun _ => h, fun _ => ?_⟩
      refine (trim_layered _ _).bind (fun removed w' h' => ?_) w h
      rw [wp_ite]
      exact ⟨fun _ => hnew w' h', fun _ => h'⟩

/-- Emitting does not touch the caches. -/
theorem emitAll_layered (reused : Nat) (responses : List Response) :
    Keeps Layered (emitAll reused responses) := by
  intro w h
  refine wp_mono (emitAll_wp reused responses w) ?_ fun _ _ h' => h'.elim
  rintro _ _ ⟨emitted, rfl⟩
  exact h

/-- A generation takes an entry, prepares a cache and stores it again: each
step keeps the layers. -/
theorem generate_layered (ho : MakesLayers o) (model : Nat)
    (request : GenerateRequest) :
    Keeps Layered (generate model o request) := by
  unfold generate
  refine (Keeps.ofExcept _).bind fun _ w h => ?_
  rw [wp_bind, wp_get, wp_ite]
  refine ⟨fun _ => h, fun _ => ?_⟩
  rw [wp_bind, wp_set]
  unfold generateTaken
  refine (prepareCache_layered ho _ _).bind (fun prepared => ?_) _ h
  refine (Keeps.ofExcept _).bind fun _ w₁ h₁ => ?_
  rw [wp_ite]
  refine ⟨fun _ => h₁, fun _ => ?_⟩
  refine (Keeps.ofExcept _).bind (fun _ w₂ h₂ => ?_) w₁ h₁
  rw [wp_bind, wp_get, wp_bind, wp_set]
  refine (emitAll_layered _ _).bind (fun _ => ?_) _ (h₂.put _ fun hne => ?_)
  · refine (Keeps.ofExcept _).bind fun _ w₃ h₃ => ?_
    cases (responsesOf o w₂.backend request.options.maxTokens).getLast? with
    | none => exact h₃
    | some last =>
        dsimp only
        rw [wp_bind]
        unfold record
        rw [wp_modify, wp_pure]
        split
        · exact h₃
        · exact h₃
  · unfold evaluate
    simpa using hne

/-- A request loads, generates or closes, and only the second
touches a cache. -/
theorem handle_layered (ho : MakesLayers o) (request : Request) :
    Keeps Layered (handle o request) := by
  cases request with
  | load backend path contextTokens =>
      show Keeps Layered (load o backend contextTokens)
      unfold load
      refine (Keeps.ofExcept _).bind fun _ => ?_
      refine (Keeps.ofExcept _).bind fun _ w h => ?_
      rw [wp_bind, wp_modify]
      refine (Keeps.ofExcept _).bind (fun _ w' h' => ?_) _ h
      exact h'
  | generate request =>
      intro w h
      unfold handle
      rw [wp_bind, wp_get]
      cases w.model with
      | none => exact h
      | some model => exact generate_layered ho model request w h
  | tokenize messages =>
      intro w h
      unfold handle
      rw [wp_bind, wp_get]
      cases w.model with
      | none => exact h
      | some model =>
          refine (Keeps.ofExcept _).bind (fun _ w' h' => ?_) w h
          exact h'
  | drop contextId =>
      intro w h
      unfold handle
      rw [wp_bind, wp_get]
      cases w.model with
      | none => exact h
      | some model =>
          dsimp only
          rw [wp_bind, wp_set]
          refine (Keeps.ofExcept _).bind (fun _ w' h' => ?_) _ h
          exact h'
  | other op =>
      intro w h
      unfold handle
      rw [wp_bind, wp_get]
      cases w.model with
      | none => exact h
      | some model => exact h

/-- What a request throws is answered, and the caches are as the
throw left them. -/
theorem serve_layered (ho : MakesLayers o) (request : Request)
    (h : Layered w) : Layered (serve o request w) := by
  unfold serve
  rcases wp_cases (handle_layered ho request w h) with
    ⟨reply, w', hw', h'⟩ | ⟨e, w', hw', h'⟩
  · rw [hw']
    exact h'
  · rw [hw']
    exact h'

/-- So the caches keep their layers over any list of requests, whatever the
library answered to each. -/
theorem serveAll_layered (requests : List (Outside × Request)) :
    ∀ w, Layered w → (∀ r ∈ requests, MakesLayers r.1) →
    Layered (serveAll w requests) := by
  induction requests with
  | nil => exact fun w h _ => h
  | cons r requests ih =>
      intro w h hmakes
      exact ih _ (serve_layered (hmakes r List.mem_cons_self) r.2 h)
        fun r' hr' => hmakes r' (List.mem_cons_of_mem _ hr')

-- ================================================================= the answer

/-- What a generation does not touch before it emits. -/
structure Untouched (w w' : Worker) : Prop where
  model : w'.model = w.model
  backend : w'.backend = w.backend
  contextTokens : w'.contextTokens = w.contextTokens
  emitted : w'.emitted = w.emitted

/-- The library makes and trims caches without raising. -/
structure Serves (o : Outside) : Prop where
  imports : o.imports = .ok ()
  makeCache : ∃ layers, o.makeCache = .ok layers
  trim : ∀ n, ∃ removed, o.trim n = .ok removed
  seed : o.seed = .ok ()

/-- With a library that serves, a cache is made, and the model, the settings
and what was emitted stay as they are. -/
theorem makeCache_ok (ho : Serves o) (w : Worker) :
    ∃ cache w', makeCache o w = (.ok cache, w') ∧ Untouched w w' := by
  obtain ⟨layers, hlayers⟩ := ho.makeCache
  unfold makeCache
  rw [hlayers]
  exact ⟨_, _, rfl, rfl, rfl, rfl, rfl⟩

/-- The same for trimming, whatever amount the library reports. -/
theorem trim_ok (ho : Serves o) (id amount : Nat) (w : Worker) :
    ∃ removed w', trim o id amount w = (.ok removed, w') ∧ Untouched w w' := by
  obtain ⟨removed, hremoved⟩ := ho.trim amount
  unfold trim
  rw [hremoved]
  exact ⟨_, _, rfl, rfl, rfl, rfl, rfl⟩

/-- So a cache is prepared, made or trimmed or kept, without touching these. -/
theorem prepareCache_ok (ho : Serves o) (entry : Option Entry)
    (tokens : TokenList)
    (w : Worker) : ∃ cache reused w', prepareCache o entry tokens w
      = (.ok (cache, reused), w') ∧ Untouched w w' := by
  have hnew : ∀ w, ∃ cache reused w', (do
      let cache ← makeCache o
      return (cache, 0) : WorkerM (Nat × Nat)) w = (.ok (cache, reused), w')
        ∧ Untouched w w' := by
    intro w
    obtain ⟨cache, w', hmade, hsame⟩ := makeCache_ok ho w
    exact ⟨cache, 0, w', bind_apply_ok hmade, hsame⟩
  unfold prepareCache
  cases entry with
  | none => exact hnew w
  | some e =>
      dsimp only
      split_ifs with hcount hlength
      · exact hnew w
      · exact ⟨_, _, _, rfl, rfl, rfl, rfl, rfl⟩
      · obtain ⟨removed, w', htrimmed, hsame⟩ :=
          trim_ok ho e.cache (e.tokens.length - countOf e.tokens tokens) w
        rw [bind_apply_ok htrimmed]
        split_ifs with hremoved
        · obtain ⟨cache, reused, w'', hmade, hsame'⟩ := hnew w'
          exact ⟨cache, reused, w'', hmade, hsame'.model.trans hsame.model,
            hsame'.backend.trans hsame.backend,
            hsame'.contextTokens.trans hsame.contextTokens,
            hsame'.emitted.trans hsame.emitted⟩
        · exact ⟨_, _, _, rfl, hsame⟩

/-- The line for what was raised. -/
def PyError.line (e : PyError) : Line := .error (e.name ++ qs ": " ++ e.text)

/-- The responses as lines. -/
def deltasOf (reused : Nat) (responses : List Response) : List Line :=
  (responses.filter fun r => decide (r.text ≠ [])).map fun r =>
    .delta r.text r.generationTokens reused

/-- The line behind the responses. -/
def lastLine (o : Outside) (backend : QString) (maximum : Int) (reused : Nat) :
    Line :=
  match raisesOf o backend maximum,
      (responsesOf o backend maximum).getLast? with
  | .error e, _ => PyError.line e
  | .ok (), none => PyError.line
      ⟨qs "RuntimeError", qs "MLX returned no generation result"⟩
  | .ok (), some last =>
      .result (.generated last.finishReason last.generationTokens reused)

/-- The lines that answer a generation whose entry has been taken. -/
def answerTaken (o : Outside) (backend : QString) (request : GenerateRequest)
    (reused : Nat) : List Line :=
  if request.options.typicalP ≠ .finite 1 then
    [PyError.line (valueError "MLX does not support typical_p")]
  else match o.processors with
    | .error e => [PyError.line e]
    | .ok () =>
        deltasOf reused (responsesOf o backend request.options.maxTokens)
          ++ [lastLine o backend request.options.maxTokens reused]

/-- The lines that answer a generation. -/
def answer (o : Outside) (w : Worker) (request : GenerateRequest)
    (reused : Nat) : List Line :=
  if ¬ withinBudget w request then
    [PyError.line (valueError "Context token budget exceeded")]
  else answerTaken o w.backend request reused

/-- The line that ends an answer. -/
def closing : Except PyError Reply → Line
  | .ok reply => .result reply
  | .error e => PyError.line e

/-- The responses are emitted as the lines that `deltasOf` lists, in order and
all of them. -/
theorem emitAll_eq (reused : Nat) (responses : List Response) :
    ∀ w : Worker, emitAll reused responses w
      = (.ok (),
        { w with emitted := w.emitted ++ deltasOf reused responses }) := by
  induction responses with
  | nil =>
      intro w
      show (_, w) = (_, { w with emitted := w.emitted ++ [] })
      rw [List.append_nil]
  | cons response responses ih =>
      intro w
      unfold emitAll deltasOf
      by_cases htext : response.text ≠ []
      · rw [if_pos htext, List.filter_cons_of_pos (by simpa using htext),
          List.map_cons]
        have hemit :
          emit (.delta response.text response.generationTokens reused) w
            = (.ok (), { w with emitted := w.emitted
              ++ [.delta response.text response.generationTokens reused] }) :=
                rfl
        refine (bind_apply_ok hemit).trans ((ih _).trans ?_)
        dsimp only
        rw [List.append_assoc]
        rfl
      · rw [if_neg htext, List.filter_cons_of_neg (by simpa using htext)]
        exact ih w

/-- Recording a context stores an entry and evicts others; it emits nothing. -/
theorem record_ok (key : QString) (tokens : TokenList) (cache : Nat)
    (w : Worker) :
    ∃ w', record o key tokens cache w = (.ok (), w')
      ∧ w'.emitted = w.emitted := by
  unfold record
  rw [modify_apply]
  refine ⟨_, rfl, ?_⟩
  split
  · rfl
  · rfl

/-- Whatever way its cache was prepared, a generation emits what
`answerTaken` computes from the number of reused tokens alone, and
closes with its outcome. -/
theorem generateTaken_lines (ho : Serves o)
    {entry : Option Entry} {cache : Nat}
    (hprepare : prepareCache o entry request.tokens w
      = (.ok (cache, reused), w'))
    (hsame : Untouched w w') :
    ∃ r w'', generateTaken model o request entry w = (r, w'')
      ∧ w''.emitted ++ [closing r]
        = w.emitted ++ answerTaken o w.backend request reused := by
  have hseed : (Exec.ofExcept o.seed : WorkerM Unit) w' = (.ok (), w') := by
    rw [ho.seed]
    rfl
  unfold generateTaken answerTaken
  rw [bind_apply_ok hprepare]
  dsimp only
  rw [bind_apply_ok hseed]
  by_cases htypical : request.options.typicalP ≠ .finite 1
  · rw [if_pos htypical, if_pos htypical]
    exact ⟨_, _, rfl, by rw [hsame.emitted]; rfl⟩
  rw [if_neg htypical, if_neg htypical]
  cases hprocessors : o.processors with
  | error e =>
      exact ⟨.error e, w', rfl, by rw [hsame.emitted]; rfl⟩
  | ok u =>
      -- the cache is evaluated, and then the responses are looped over
      rw [← hsame.backend, ← hsame.emitted]
      let w₂ := put cache (evaluate model o
        (request.tokens.drop reused ++ o.steps.tokens) (w'.heap cache)) w'
      let responses := responsesOf o w'.backend request.options.maxTokens
      let w₃ := { w₂ with emitted := w₂.emitted ++ deltasOf reused responses }
      have hemit : emitAll reused responses w₂ = (.ok (), w₃) :=
        emitAll_eq _ _ _
      refine (?_ : ∃ r w'', (emitAll reused responses >>= _) w₂ = (r, w'') ∧ _)
      rw [bind_apply_ok hemit]
      unfold lastLine
      cases hraises : raisesOf o w'.backend request.options.maxTokens with
      | error e =>
          exact ⟨.error e, w₃, rfl, List.append_assoc _ _ _⟩
      | ok u' =>
          cases hlast :
              (responsesOf o w'.backend request.options.maxTokens).getLast?
              with
          | none =>
              refine ⟨.error ⟨qs "RuntimeError",
                qs "MLX returned no generation result"⟩,
                w₃, rfl, List.append_assoc _ _ _⟩
          | some last =>
              obtain ⟨w'', hrecord, hemitted⟩ :=
                record_ok (o := o) request.contextId
                (request.tokens ++ responses.map Response.token) cache w₃
              refine ⟨.ok (.generated last.finishReason
                last.generationTokens reused),
                w'', ?_, ?_⟩
              · show (record o request.contextId _ cache >>= fun _ =>
                  pure _) w₃ = _
                exact bind_apply_ok hrecord
              · rw [hemitted]
                exact List.append_assoc _ _ _

/-- A generation is answered with these lines, whatever the cache was: only the
number of cached tokens tells the difference. -/
theorem replyTo_answer (ho : Serves o) (hmodel : w.model = some model) :
    ∃ reused, replyTo o (.generate request) w = answer o w request reused
      ∧ (withinBudget w request →
          ∃ cache w', prepareCache o w.contexts[request.contextId]?
          request.tokens
            { w with contexts := w.contexts.erase request.contextId }
        = (.ok (cache, reused), w')) := by
  have himports : (Exec.ofExcept o.imports : WorkerM Unit) w
      = (.ok (), w) := by
    rw [ho.imports]
    rfl
  obtain ⟨cache, reused, w', hprepare, hsame⟩ := prepareCache_ok ho
    w.contexts[request.contextId]? request.tokens
    { w with contexts := w.contexts.erase request.contextId }
  have hgenerate : ∃ r w'', generate model o request w = (r, w'')
      ∧ w''.emitted ++ [closing r]
        = w.emitted ++ answer o w request reused := by
    unfold generate answer
    rw [bind_apply_ok himports, bind_apply_ok (get_apply w)]
    by_cases hbudget : withinBudget w request
    · rw [if_neg (not_not.2 hbudget), if_neg (not_not.2 hbudget)]
      obtain ⟨r, w'', htaken, hlines⟩ :=
        @generateTaken_lines _ model _ _ _ _ ho _ _
        hprepare hsame
      exact ⟨r, w'', htaken, hlines⟩
    · rw [if_pos hbudget, if_pos hbudget]
      exact ⟨_, _, rfl, rfl⟩
  obtain ⟨r, w'', hgenerate, hlines⟩ := hgenerate
  have hhandle : handle o (.generate request) w = (r, w'') := by
    unfold handle
    refine (bind_apply_ok (get_apply w)).trans ?_
    dsimp only
    rw [hmodel]
    exact hgenerate
  have hserve : (serve o (.generate request) w).emitted
      = w''.emitted ++ [closing r] := by
    unfold serve
    rw [hhandle]
    cases r with
    | ok reply => rfl
    | error e => rfl
  refine ⟨reused, ?_, fun _ => ⟨cache, w', hprepare⟩⟩
  unfold replyTo
  rw [hserve, hlines, List.drop_left]

-- ============================================================ the same answer

/-- Logits are those of what the cache holds and of the tokens behind it. -/
def Causal (lib : MlxLm L) (logits : Nat → TokenList → L) : Prop :=
  ∀ (model : Nat) (cache : Cache) (held seen : TokenList), cache ≠ [] →
    Holds model cache held →
    lib.forward model cache seen = logits model (held ++ seen)

/-- A request is answered by the library, from the cache that is prepared. -/
structure Follows (lib : MlxLm L) (o : Outside) (w : Worker) (model : Nat)
    (request : GenerateRequest) : Prop extends Serves o where
  layers : MakesLayers o
  processors : o.processors
    = (lib.processingOf w.contextTokens request.options).map fun _ => ()
  isEos : o.isEos = lib.isEos
  lastSegment : o.lastSegment = lib.lastSegment
  responses : o.steps.responses
    = lib.streamGenerate request.options.maxTokens o.steps.tokens
  steps : withinBudget w request → ∀ cache reused w' p,
    prepareCache o w.contexts[request.contextId]? request.tokens
        { w with contexts := w.contexts.erase request.contextId }
      = (.ok (cache, reused), w') →
    lib.processingOf w.contextTokens request.options = .ok p →
    (o.steps.tokens, o.steps.raises)
      = lib.generateStep model (w'.heap cache) request p
        (request.tokens.drop reused)

/-- What is generated, if the processors can be made. -/
def MlxLm.generated (lib : MlxLm L) (logits : Nat → TokenList → L)
    (model : Nat) (contextTokens : Int) (request : GenerateRequest) :
    TokenList × Option PyError :=
  match lib.processingOf contextTokens request.options with
  | .ok p => lib.plain logits model request p
  | .error _ => ([], none)

/-- The library, without a cache. -/
def MlxLm.plainly (lib : MlxLm L) (logits : Nat → TokenList → L) (model : Nat)
    (contextTokens : Int) (request : GenerateRequest) : Outside where
  processors := (lib.processingOf contextTokens request.options).map
    fun _ => ()
  isEos := lib.isEos
  lastSegment := lib.lastSegment
  steps :=
    { tokens := (lib.generated logits model contextTokens request).1
      raises := (lib.generated logits model contextTokens request).2
      responses := lib.streamGenerate request.options.maxTokens
        (lib.generated logits model contextTokens request).1
      responses_prefix := lib.streamGenerate_prefix _ _ }

/-- A worker that has just been loaded. -/
def loaded (model : Nat) (backend : QString) (contextTokens : Int) :
    Worker where
  model := some model
  contextTokens
  backend

/-- A line with another number of cached tokens. -/
def Line.cached (reused : Nat) : Line → Line
  | .delta text generatedTokens _ => .delta text generatedTokens reused
  | .result (.generated finishReason generatedTokens _) =>
      .result (.generated finishReason generatedTokens reused)
  | line => line

variable {past : List (Outside × Request)} {o' : Outside}

/-- The worker behind some requests has its layers, where every one of them was
served with some. -/
theorem used_layered (hpast : ∀ r ∈ past, MakesLayers r.1) :
    Layered (used past) :=
  serveAll_layered past {}
    (fun id hid => absurd hid (Nat.not_lt_zero id)) hpast

/-- From any cache that is prepared, what is generated is what is
generated without. -/
theorem generateStep_prepared (hcausal : Causal lib logits)
    (hpast : ∀ r ∈ past, MakesLayers r.1) (hmakes : MakesLayers o)
    (hmodel : (used past).model = some model)
    (hbudget : withinBudget (used past) request) {cache : Nat}
    (hprepare : prepareCache o (used past).contexts[request.contextId]?
        request.tokens
        { used past with
          contexts := (used past).contexts.erase request.contextId }
      = (.ok (cache, reused), w')) (p : Processing L) :
    reused < request.tokens.length
      ∧ lib.generateStep model (w'.heap cache) request p
        (request.tokens.drop reused)
        = lib.plain logits model request p := by
  obtain ⟨hlt, hready, -⟩ := wp_ok
    (prepareCache_prepared (used_sound past) hmodel hbudget.1) hprepare
  have hlayered := wp_ok (prepareCache_layered hmakes _ _
    { used past with contexts := (used past).contexts.erase request.contextId }
    (used_layered hpast)) hprepare
  refine ⟨hlt, MlxLm.generateStep_plain (fun more => ?_)
    (List.drop_suffix _ _) ?_
    hbudget.2.1⟩
  · rw [hcausal model _ _ _
      (hlayered _ hready.made) hready.held, ← List.append_assoc,
      List.take_append_drop]
  · exact List.drop_eq_nil_iff.not.2 (by omega)

/-- The library without interruptions serves every request. -/
theorem plainly_serves (contextTokens : Int) :
    Serves (lib.plainly logits model contextTokens request) :=
  ⟨rfl, ⟨[true], rfl⟩, fun n => ⟨n, rfl⟩, rfl⟩

/-- And makes caches with a layer. -/
theorem plainly_makes (contextTokens : Int) :
    MakesLayers (lib.plainly logits model contextTokens request) := by
  intro layers hlayers
  cases hlayers
  exact List.cons_ne_nil _ _

/-- A library without a cache is one that answers, whatever is cached. It
stands on the other side of the comparison. -/
theorem plainly_follows (hcausal : Causal lib logits)
    (hpast : ∀ r ∈ past, MakesLayers r.1)
    (hmodel : (used past).model = some model) :
    Follows lib (lib.plainly logits model (used past).contextTokens request)
      (used past)
      model request where
  toServes := plainly_serves _
  layers := plainly_makes _
  processors := rfl
  isEos := rfl
  lastSegment := rfl
  responses := rfl
  steps := by
    intro hbudget cache reused w' p hprepare hprocessing
    rw [(generateStep_prepared hcausal hpast
      (plainly_makes _) hmodel hbudget hprepare
      p).2]
    show lib.generated logits model (used past).contextTokens request = _
    unfold MlxLm.generated
    rw [hprocessing]

/-- The chunks depend on the end token and the segmentation of the library, and
on nothing else of the outside. -/
theorem tokenChunks_congr (heos : o.isEos = o'.isEos)
    (hsegment : o.lastSegment = o'.lastSegment) (maximum : Int)
    (tokens : TokenList) :
    ∀ added count, tokenChunks o maximum added count tokens
      = tokenChunks o' maximum added count tokens := by
  induction tokens with
  | nil => exact fun _ _ => rfl
  | cons token tokens ih =>
      intro added count
      unfold tokenChunks
      rw [heos, hsegment]
      simp only [ih]

/-- The lines of two generations of the same responses differ only in the
number of cached tokens that they report. -/
theorem cached_deltasOf (reused reused' : Nat) (responses : List Response) :
    (deltasOf reused' responses).map (Line.cached reused)
      = deltasOf reused responses := by
  unfold deltasOf
  rw [List.map_map]
  rfl

/-- The number of cached tokens is all that an answer has of the cache. Two
answers of the same responses differ in it, and in nothing else. -/
theorem answerTaken_congr (hprocessors : o.processors = o'.processors)
    {backend : QString}
    (hresponses : o.processors = .ok () →
      responsesOf o backend request.options.maxTokens
          = responsesOf o' backend request.options.maxTokens
        ∧ raisesOf o backend request.options.maxTokens
          = raisesOf o' backend request.options.maxTokens)
            (reused reused' : Nat) :
    answerTaken o backend request reused
      = (answerTaken o' backend request reused').map (Line.cached reused) := by
  unfold answerTaken
  rw [← hprocessors]
  by_cases htypical : request.options.typicalP ≠ .finite 1
  · rw [if_pos htypical, if_pos htypical]
    rfl
  rw [if_neg htypical, if_neg htypical]
  cases hmade : o.processors with
  | error e => rfl
  | ok u =>
      obtain ⟨hresponses, hraises⟩ := hresponses hmade
      dsimp only
      rw [List.map_append, cached_deltasOf, hresponses]
      unfold lastLine
      rw [hresponses, hraises]
      cases raisesOf o' backend request.options.maxTokens with
      | error e => rfl
      | ok u' =>
          cases (responsesOf o' backend request.options.maxTokens).getLast?
              with
          | none => rfl
          | some last => rfl

/-- The same tokens come out as the same responses: what stops a generation,
and how its text is cut, looks at the tokens only. -/
theorem Follows.outcome (h : Follows lib o w model request)
    {contextTokens : Int} (hgenerated : (o.steps.tokens, o.steps.raises)
      = lib.generated logits model contextTokens request) (backend : QString) :
    responsesOf o backend request.options.maxTokens
        = responsesOf (lib.plainly logits model contextTokens request) backend
          request.options.maxTokens
      ∧ raisesOf o backend request.options.maxTokens
        = raisesOf (lib.plainly logits model contextTokens request) backend
          request.options.maxTokens := by
  have htokens : o.steps.tokens
      = (lib.generated logits model contextTokens request).1 :=
    congrArg Prod.fst hgenerated
  have hraises : o.steps.raises
      = (lib.plainly logits model contextTokens request).steps.raises :=
    congrArg Prod.snd hgenerated
  have hresponses : responsesOf o backend request.options.maxTokens
      = responsesOf (lib.plainly logits model contextTokens request) backend
        request.options.maxTokens := by
    unfold responsesOf
    rw [h.responses, htokens]
    by_cases hcpu : backend = qs "cpu"
    · rw [if_pos hcpu, if_pos hcpu]
      exact tokenChunks_congr h.isEos h.lastSegment _ _ _ _
    · rw [if_neg hcpu, if_neg hcpu]
      rfl
  refine ⟨hresponses, ?_⟩
  unfold raisesOf
  rw [hresponses, hraises]

/-- Whatever was asked before, a generation is answered as by a worker that has
just been loaded and whose library draws each token behind all tokens before
it; only the number of cached tokens is another. -/
theorem cache_transparent (hcausal : Causal lib logits)
    (past : List (Outside × Request)) (hpast : ∀ r ∈ past, MakesLayers r.1)
    (hmodel : (used past).model = some model)
    (hfollows : Follows lib o (used past) model request) :
    ∃ reused, (request.tokens ≠ [] → reused < request.tokens.length)
      ∧ replyTo o (.generate request) (used past)
        = (replyTo (lib.plainly logits model (used past).contextTokens request)
            (.generate request)
            (loaded model (used past).backend (used past).contextTokens)).map
          (Line.cached reused) := by
  obtain ⟨reused, hreply, hprepare⟩ := @replyTo_answer o model request _
    hfollows.toServes hmodel
  obtain ⟨reused', hreply', -⟩ := @replyTo_answer _ model request
    (loaded model (used past).backend (used past).contextTokens)
    (plainly_serves _) rfl
  rw [hreply, hreply']
  unfold answer
  by_cases hbudget : withinBudget (used past) request
  · obtain ⟨cache, w', hprepare⟩ := hprepare hbudget
    have hprepared := @generateStep_prepared _ lib logits o model reused
      request w' past
      hcausal hpast hfollows.layers hmodel hbudget cache hprepare
    have hbudget' : withinBudget
        (loaded model (used past).backend (used past).contextTokens)
          request := hbudget
    rw [if_neg (not_not.2 hbudget), if_neg (not_not.2 hbudget')]
    refine ⟨reused, fun _ => (hprepared ⟨[], []⟩).1,
      answerTaken_congr hfollows.processors (fun hmade => ?_) _ _⟩
    obtain ⟨p, hprocessing⟩ : ∃ p,
        lib.processingOf (used past).contextTokens request.options
          = .ok p := by
      rw [hfollows.processors] at hmade
      cases hprocessing : lib.processingOf
          (used past).contextTokens request.options with
      | ok p => exact ⟨p, rfl⟩
      | error e =>
          rw [hprocessing] at hmade
          cases hmade
    have hgenerated : (o.steps.tokens, o.steps.raises)
        = lib.generated logits model (used past).contextTokens request := by
      rw [hfollows.steps hbudget cache reused w' p hprepare hprocessing,
        (hprepared p).2]
      unfold MlxLm.generated
      rw [hprocessing]
    exact hfollows.outcome hgenerated _
  · have hbudget' : ¬ withinBudget
        (loaded model (used past).backend (used past).contextTokens)
          request := hbudget
    refine ⟨0, fun hne => List.length_pos_iff.2 hne, ?_⟩
    rw [if_pos hbudget, if_pos hbudget']
    rfl

-- =================================================================== a sample

/-- Logits that are the tokens themselves, of which the next one is the number;
the only processor puts the history in their place. -/
def sampleLm : MlxLm TokenList where
  forward := fun _ cache seen =>
    ((cache.head?.map Layer.cells).getD []).map Cell.token ++ seen
  vocabulary := fun _ => 1000
  makeProcessors := fun _ => .ok [fun tokens _ => tokens]
  draw := fun _ _ _ l => Int32.ofNat l.length
  lastChunk := fun n => min n 1
  lastChunk_pos := fun n h => by omega
  lastChunk_le := fun n => Nat.min_le_left _ _
  isEos := fun _ => false
  lastSegment := fun _ _ => qs "x"
  streamGenerate := fun _ _ => []
  streamGenerate_prefix := fun _ _ => List.nil_prefix

def sampleLogits (_ : Nat) (tokens : TokenList) : TokenList := tokens

/-- The sample model sees its tokens from left to right only. -/
theorem sampleLm_causal : Causal sampleLm sampleLogits := by
  intro model cache held seen hne hholds
  cases cache with
  | nil => exact absurd rfl hne
  | cons layer layers =>
      show layer.cells.map Cell.token ++ seen = held ++ seen
      rw [hholds layer List.mem_cons_self, List.map_map]
      exact congrArg (· ++ seen) (List.map_id held)

/-- A model is loaded, and a prompt is answered. -/
def samplePast : List (Outside × Request) := sampleRequests [[7, 8, 9]]

/-- A prompt that shares two tokens with it. -/
def sampleRequest : GenerateRequest := ⟨qs "k", [7, 8, 6], { maxTokens := 2 }⟩

def sampleAnswers : Outside :=
  sampleLm.plainly sampleLogits 0 (used samplePast).contextTokens sampleRequest

/-- Its library makes a layer at every request. -/
theorem samplePast_makes : ∀ r ∈ samplePast, MakesLayers r.1 := by
  intro r hr layers hlayers
  have hmade : r.1.makeCache = .ok [true] := by
    rcases List.mem_cons.1 hr with rfl | hr
    · rfl
    · rw [List.mem_singleton.1 hr]
      rfl
  rw [hmade] at hlayers
  cases hlayers
  exact List.cons_ne_nil _ _

/-- Its answer, from a cache that is used. -/
theorem cache_transparent_sample :
    ∃ reused, (sampleRequest.tokens ≠ [] →
      reused < sampleRequest.tokens.length)
      ∧ replyTo sampleAnswers (.generate sampleRequest) (used samplePast)
        = (replyTo sampleAnswers (.generate sampleRequest)
            (loaded 0 (used samplePast).backend
              (used samplePast).contextTokens)).map
          (Line.cached reused) :=
  have hmodel : (used samplePast).model = some 0 := by decide +kernel
  cache_transparent sampleLm_causal samplePast samplePast_makes hmodel
    (plainly_follows sampleLm_causal samplePast_makes hmodel)

-- Two tokens are cached.
example : replyTo sampleAnswers (.generate sampleRequest) (used samplePast) =
    [.delta (qs "x") 1 2, .delta (qs "x") 2 2,
      .result (.generated (some (qs "length")) 2 2)] := by
  decide +kernel

end LocalLLM.Worker
