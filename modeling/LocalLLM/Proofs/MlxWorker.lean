/-
The caches of the MLX worker.

# The invariant

Every context that the worker remembers has a cache of its own, and each
layer of it holds the keys and values of exactly the remembered tokens, in
order, under the loaded model (`Sound`). An entry leaves `contexts` before
its cache is touched, so a generation may fail anywhere: what it leaves
behind is a cache that no context names.

# A generation

`prepareCache` hands out a cache no context names that holds the beginning
of the prompt (`Ready`); evaluating appends cells of the stream that starts
behind it, so the first cells, however many there are, are those of the
prompt and the generated tokens. The recorded number of tokens is the
number of cells, and the tokens up to there were all seen.
-/
import LocalLLM.Runtimes.MlxWorker
import LocalLLM.Lib.Maps

namespace LocalLLM.Worker

open Exec Std

variable {o : Outside}

/-- The cells of tokens. -/
abbrev kv (model : Nat) (tokens : TokenList) : List Cell :=
  tokens.map (Cell.mk model)

/-- Every layer of a cache holds exactly these tokens. -/
def Holds (model : Nat) (cache : Cache) (tokens : TokenList) : Prop :=
  ∀ layer ∈ cache, layer.cells = kv model tokens

/-- The caches of the contexts are what the contexts say. -/
structure Sound (w : Worker) : Prop where
  held : ∀ (key : QString) (entry : Entry), w.contexts[key]? = some entry →
    ∃ model, w.model = some model
      ∧ Holds model (w.heap entry.cache) entry.tokens
  made : ∀ (key : QString) (entry : Entry), w.contexts[key]? = some entry →
    entry.cache < w.caches
  alone : ∀ (key key' : QString) (entry entry' : Entry),
    w.contexts[key]? = some entry → w.contexts[key']? = some entry' →
    entry.cache = entry'.cache → key = key'

/-- No context names the cache. -/
def Unnamed (w : Worker) (id : Nat) : Prop :=
  ∀ (key : QString) (entry : Entry), w.contexts[key]? = some entry →
    entry.cache ≠ id

-- =================================================================== the heap

@[simp] theorem put_heap_self (id : Nat) (cache : Cache) (w : Worker) :
    (put id cache w).heap id = cache :=
  Function.update_self _ _ _

/-- A write to one cache leaves the other ones alone, so entries that do not
name it keep what they hold. -/
theorem put_heap_ne {id id' : Nat} (cache : Cache) (w : Worker)
    (h : id' ≠ id) : (put id cache w).heap id' = w.heap id' :=
  Function.update_of_ne h _ _

/-- A cache that no context names may change. -/
theorem Sound.put {w : Worker} (h : Sound w) {id : Nat} (hfree : Unnamed w id)
    (cache : Cache) : Sound (put id cache w) where
  held := by
    intro key entry hentry
    obtain ⟨model, hmodel, hheld⟩ := h.held key entry hentry
    refine ⟨model, hmodel, ?_⟩
    rw [put_heap_ne _ _ (hfree key entry hentry)]
    exact hheld
  made := h.made
  alone := h.alone

/-- An entry is taken: the others stay sound, and its cache is unnamed. -/
theorem Sound.erase {w : Worker} (h : Sound w) (key : QString) :
    Sound { w with contexts := w.contexts.erase key }
      ∧ ∀ entry : Entry, w.contexts[key]? = some entry →
        Unnamed { w with contexts := w.contexts.erase key } entry.cache := by
  have hfind : ∀ (key' : QString) (entry : Entry),
      (w.contexts.erase key)[key']? = some entry →
      key ≠ key' ∧ w.contexts[key']? = some entry := by
    intro key' entry hentry
    rw [Maps.find_erase] at hentry
    split at hentry
    next => cases hentry
    next hne => exact ⟨hne, hentry⟩
  refine ⟨⟨?_, ?_, ?_⟩, ?_⟩
  · intro key' entry hentry
    exact h.held key' entry (hfind key' entry hentry).2
  · intro key' entry hentry
    exact h.made key' entry (hfind key' entry hentry).2
  · intro key₁ key₂ entry₁ entry₂ h₁ h₂
    exact h.alone key₁ key₂ entry₁ entry₂ (hfind _ _ h₁).2 (hfind _ _ h₂).2
  · intro entry hentry key' entry' hentry' hsame
    obtain ⟨hne, hentry'⟩ := hfind key' entry' hentry'
    exact hne (h.alone key key' entry entry' hentry hentry' hsame.symm)

/-- A context is recorded with a cache that holds its tokens. The cache must
have no other name, or a later trim would take from both. -/
theorem Sound.insert {w : Worker} (h : Sound w) {model : Nat}
    (hmodel : w.model = some model) {entry : Entry} (key : QString)
    (hheld : Holds model (w.heap entry.cache) entry.tokens)
    (hmade : entry.cache < w.caches) (hfree : Unnamed w entry.cache) :
    Sound { w with contexts := w.contexts.insert key entry } := by
  have hfind : ∀ (key' : QString) (entry' : Entry),
      (w.contexts.insert key entry)[key']? = some entry' →
      (key' = key ∧ entry' = entry) ∨ w.contexts[key']? = some entry' := by
    intro key' entry' hentry'
    rw [Maps.find_insert] at hentry'
    split at hentry'
    next heq =>
      injection hentry' with hentry'
      exact Or.inl ⟨heq.symm, hentry'.symm⟩
    next => exact Or.inr hentry'
  constructor
  · intro key' entry' hentry'
    cases hfind key' entry' hentry' with
    | inl hnew =>
        rw [hnew.2]
        exact ⟨model, hmodel, hheld⟩
    | inr hold => exact h.held key' entry' hold
  · intro key' entry' hentry'
    cases hfind key' entry' hentry' with
    | inl hnew =>
        rw [hnew.2]
        exact hmade
    | inr hold => exact h.made key' entry' hold
  · intro key₁ key₂ entry₁ entry₂ h₁ h₂ hsame
    cases hfind key₁ entry₁ h₁ with
    | inl hnew₁ =>
        cases hfind key₂ entry₂ h₂ with
        | inl hnew₂ => rw [hnew₁.1, hnew₂.1]
        | inr hold₂ =>
            rw [hnew₁.2] at hsame
            exact absurd hsame.symm (hfree key₂ entry₂ hold₂)
    | inr hold₁ =>
        cases hfind key₂ entry₂ h₂ with
        | inl hnew₂ =>
            rw [hnew₂.2] at hsame
            exact absurd hsame (hfree key₁ entry₁ hold₁)
        | inr hold₂ => exact h.alone key₁ key₂ entry₁ entry₂ hold₁ hold₂ hsame

/-- Without contexts there is nothing to say. -/
theorem sound_of_empty {w : Worker} (h : w.contexts = ∅) : Sound w := by
  have hnone : ∀ (key : QString) (entry : Entry),
      w.contexts[key]? ≠ some entry := by
    intro key entry hentry
    rw [h] at hentry
    simp only [ExtTreeMap.getElem?_empty, reduceCtorEq] at hentry
  exact ⟨fun key entry hentry => absurd hentry (hnone key entry),
    fun key entry hentry => absurd hentry (hnone key entry),
    fun key _ entry _ hentry => absurd hentry (hnone key entry)⟩

-- ========================================================== preparing a cache

/-- A cache that is about to be used holds the first `reused` tokens of the
prompt, and no context names it. -/
structure Ready (model : Nat) (prompt : TokenList) (cache reused : Nat)
    (w : Worker) : Prop where
  sound : Sound w
  loaded : w.model = some model
  free : Unnamed w cache
  made : cache < w.caches
  held : Holds model (w.heap cache) (prompt.take reused)

/-- Two moments between which no context changed. -/
def SameContexts (w w' : Worker) : Prop :=
  w'.contexts = w.contexts ∧ w'.model = w.model

/-- A new cache is empty. -/
theorem makeCache_wp {w : Worker} {model : Nat} (h : Sound w)
    (hmodel : w.model = some model) (prompt : TokenList) :
    wp (makeCache o)
      (fun cache w' => Ready model prompt cache 0 w' ∧ SameContexts w w')
      (fun _ w' => Sound w' ∧ SameContexts w w') w := by
  have hfree : Unnamed w w.caches := by
    intro key entry hentry
    exact Nat.ne_of_lt (h.made key entry hentry)
  unfold makeCache
  rw [wp_bind, wp_ofExcept]
  refine ⟨fun layers _ => ?_, fun _ _ => ⟨h, rfl, rfl⟩⟩
  rw [wp_bind, wp_get, wp_bind, wp_set, wp_pure]
  have hput := h.put hfree (layers.map fun counts => { counts })
  refine ⟨⟨⟨hput.held, ?_, hput.alone⟩, hmodel, hfree, Nat.lt_succ_self _, ?_⟩,
    rfl, rfl⟩
  · intro key entry hentry
    exact Nat.lt_succ_of_lt (h.made key entry hentry)
  · show Holds model ((put w.caches _ w).heap w.caches) (prompt.take 0)
    rw [put_heap_self]
    intro layer hlayer
    obtain ⟨counts, _, hcounts⟩ := List.mem_map.1 hlayer
    rw [← hcounts]
    rfl

/-- A cache trimmed by `n` entries holds `n` tokens less. -/
theorem holds_dropLast {model n : Nat} {cache : Cache} {tokens : TokenList}
    (h : Holds model cache tokens) :
    Holds model (dropLast n cache) (tokens.take (tokens.length - n)) := by
  intro layer hlayer
  obtain ⟨old, hold, heq⟩ := List.mem_map.1 hlayer
  rw [← heq]
  dsimp only
  rw [h old hold, List.length_map, ← List.map_take]

/-- Trimming cuts the end off an unnamed cache, or raises and leaves everything
as it was. No entry of the worker can see the change. -/
theorem trim_wp {w : Worker} {id amount : Nat} (h : Sound w)
    (hfree : Unnamed w id) :
    wp (trim o id amount)
      (fun removed w' => o.trim amount = .ok removed ∧ Sound w'
        ∧ w' = put id (dropLast removed (w.heap id)) w)
      (fun _ w' => w' = w) w := by
  unfold trim
  rw [wp_bind, wp_ofExcept]
  refine ⟨fun removed hremoved => ?_, fun _ _ => rfl⟩
  rw [wp_bind, wp_modify, wp_pure]
  exact ⟨hremoved, h.put hfree _, rfl⟩

/-- `count` is less than the prompt, and the history agrees that far. -/
theorem countOf_spec {previous tokens : TokenList} (h : tokens ≠ []) :
    countOf previous tokens < tokens.length
      ∧ countOf previous tokens ≤ previous.length
      ∧ previous.take (countOf previous tokens)
        = tokens.take (countOf previous tokens) := by
  have hpos := List.length_pos_iff.2 h
  have hle : countOf previous tokens ≤ Prefix.agree previous tokens :=
    Nat.min_le_left _ _
  have hlast : countOf previous tokens ≤ tokens.length - 1 :=
    Nat.min_le_right _ _
  refine ⟨by omega, Nat.le_trans hle (Prefix.agree_le_left _ _), ?_⟩
  exact Prefix.take_of_le_agree hle

/-- A trim that was refused, or that removed something else than it was
asked for. -/
def Refused (o : Outside) (entry : Entry) (tokens : TokenList) : Prop :=
  o.canTrim = false
    ∨ entry.tokens.length - countOf entry.tokens tokens ≠ 0
      ∧ o.trim (entry.tokens.length - countOf entry.tokens tokens)
        ≠ .ok (entry.tokens.length - countOf entry.tokens tokens)

/-- What `prepare_cache` hands out. -/
def Prepared (o : Outside) (model : Nat) (entry : Option Entry)
    (tokens : TokenList) (cache reused : Nat) (w : Worker) : Prop :=
  reused < tokens.length ∧ Ready model tokens cache reused w
    ∧ ∀ e, entry = some e → Refused o e tokens → reused = 0

/-- Preparing makes a cache that holds a beginning of the tokens, copied from
the entry or fresh, and does not touch the contexts. -/
theorem prepareCache_wp {w : Worker} {model : Nat} {entry : Option Entry}
    {tokens : TokenList} (h : Sound w) (hmodel : w.model = some model)
    (hentry : ∀ e, entry = some e → Unnamed w e.cache ∧ e.cache < w.caches
      ∧ Holds model (w.heap e.cache) e.tokens)
    (htokens : tokens ≠ []) :
    wp (prepareCache o entry tokens)
      (fun r w' => Prepared o model entry tokens r.1 r.2 w'
        ∧ SameContexts w w')
      (fun _ w' => Sound w' ∧ SameContexts w w') w := by
  -- A cache that is made anew, in any of the branches.
  have hnew : ∀ w', Sound w' → SameContexts w w' →
      wp (do let cache ← makeCache o; return (cache, 0))
        (fun r w' => Prepared o model entry tokens r.1 r.2 w'
          ∧ SameContexts w w')
        (fun _ w' => Sound w' ∧ SameContexts w w') w' := by
    intro w' h' hsame
    rw [wp_bind]
    apply wp_mono (makeCache_wp h' (hsame.2.trans hmodel) tokens)
    · intro cache w'' ⟨hready, hsame'⟩
      exact ⟨⟨List.length_pos_iff.2 htokens, hready, fun _ _ _ => rfl⟩,
        hsame'.1.trans hsame.1, hsame'.2.trans hsame.2⟩
    · intro _ w'' ⟨hsound, hsame'⟩
      exact ⟨hsound, hsame'.1.trans hsame.1, hsame'.2.trans hsame.2⟩
  have hself : SameContexts w w := ⟨rfl, rfl⟩
  unfold prepareCache
  cases entry with
  | none => exact hnew w h hself
  | some e =>
      obtain ⟨hfree, hmade, hheld⟩ := hentry e rfl
      obtain ⟨hlt, hle, htake⟩ := @countOf_spec e.tokens tokens htokens
      dsimp only
      rw [wp_ite]
      refine ⟨fun _ => hnew w h hself, fun hgood => ?_⟩
      rw [not_or] at hgood
      rw [wp_ite]
      refine ⟨fun hzero => ?_, fun hamount => ?_⟩
      · -- The whole history begins the prompt.
        have hall : countOf e.tokens tokens = e.tokens.length := by omega
        refine ⟨⟨hlt, ⟨h, hmodel, hfree, hmade, ?_⟩, ?_⟩, hself⟩
        · rw [← htake, hall, List.take_length]
          exact hheld
        · intro e' he' hrefused
          cases he'
          cases hrefused with
          | inl hcan => exact absurd hcan hgood.2
          | inr hshort => exact absurd hzero hshort.1
      · rw [wp_bind]
        apply wp_mono (trim_wp h hfree)
        · intro removed w' ⟨htrim, hsound, hw'⟩
          rw [wp_ite]
          refine ⟨fun _ => hnew w' hsound (by rw [hw']; exact hself),
            fun hall => ?_⟩
          have hall := not_not.1 hall
          subst hw'
          refine ⟨⟨hlt, ⟨hsound, hmodel, hfree, hmade, ?_⟩, ?_⟩, hself⟩
          · rw [put_heap_self, hall, ← htake]
            have hcut : e.tokens.length
                - (e.tokens.length - countOf e.tokens tokens)
                = countOf e.tokens tokens := by omega
            have hdrop := holds_dropLast hheld
              (n := e.tokens.length - countOf e.tokens tokens)
            rw [hcut] at hdrop
            exact hdrop
          · intro e' he' hrefused
            cases he'
            cases hrefused with
            | inl hcan => exact absurd hcan hgood.2
            | inr hshort =>
                rw [hall] at htrim
                exact absurd htrim hshort.2
        · intro _ w' hw'
          rw [hw']
          exact ⟨h, hself⟩

-- =============================================================== a generation

/-- `token_chunks` hands on the tokens it is given, up to its last one. -/
theorem tokenChunks_prefix (maximum : Int) (tokens : TokenList) :
    ∀ (added : TokenList) (count : Nat),
      (tokenChunks o maximum added count tokens).map Response.token
        <+: tokens := by
  induction tokens with
  | nil =>
      intro added count
      exact List.prefix_refl _
  | cons token tokens ih =>
      intro added count
      unfold tokenChunks
      dsimp only
      rw [List.map_cons, List.prefix_cons_inj]
      split
      · exact List.nil_prefix
      · exact ih _ _

/-- The reported tokens are a beginning of those the model produced: a limit
only cuts. -/
theorem responsesOf_begin (backend : QString) (maximum : Int) :
    (responsesOf o backend maximum).map Response.token <+: o.steps.tokens := by
  unfold responsesOf
  split
  · exact tokenChunks_prefix maximum _ _ _
  · exact o.steps.responses_prefix

/-- After a generation each layer holds some of the first tokens of the
prompt and the generated ones. -/
theorem evaluate_spec {model reused : Nat} {prompt : TokenList} {cache : Cache}
    (h : Holds model cache (prompt.take reused))
    (hreused : reused ≤ prompt.length) :
    ∀ layer ∈ evaluate model o (prompt.drop reused ++ o.steps.tokens) cache,
      ∃ n, layer.cells = kv model ((prompt ++ o.steps.tokens).take n) := by
  intro layer hlayer
  obtain ⟨i, hi, heq⟩ := List.mem_mapIdx.1 hlayer
  refine ⟨reused + o.steps.evaluates i, ?_⟩
  rw [← heq]
  dsimp only
  rw [h _ (List.getElem_mem hi), ← List.map_append, List.take_add,
    List.take_append_of_le_length hreused,
      List.drop_append_of_le_length hreused]

/-- A cache may be recorded when all its layers count the same tokens, and
these have been seen. -/
theorem recordable_spec {allTokens : TokenList} {cache : Cache} {n : Nat}
    (h : recordable o allTokens cache = some n) :
    n ≤ allTokens.length ∧ ∀ layer ∈ cache, layer.cells.length = n := by
  have hoffset : ∀ layer : Layer, layer.offset = some n →
      layer.cells.length = n := by
    intro layer hlayer
    unfold Layer.offset at hlayer
    split at hlayer
    · injection hlayer
    · cases hlayer
  unfold recordable at h
  cases cache with
  | nil => cases h
  | cons first rest =>
      cases hfirst : first.offset with
      | none =>
          rw [List.map_cons, hfirst] at h
          cases h
      | some m =>
          rw [List.map_cons, hfirst] at h
          dsimp only at h
          split at h
          next hgood =>
            injection h with h
            subst h
            refine ⟨hgood.2.2.1, fun layer hlayer => ?_⟩
            cases hlayer with
            | head => exact hoffset first hfirst
            | tail _ hlayer =>
                exact hoffset layer (hgood.1 _ (List.mem_map_of_mem hlayer))
          next => cases h

/-- What is recorded is what the cache holds. -/
theorem holds_of_recordable {model n : Nat} {seen stream : TokenList}
    {cache : Cache} (hrecord : recordable o seen cache = some n)
    (hseen : seen <+: stream)
    (hcells : ∀ layer ∈ cache, ∃ n, layer.cells = kv model (stream.take n)) :
    Holds model cache (seen.take n) := by
  intro layer hlayer
  obtain ⟨hle, hlength⟩ := recordable_spec hrecord
  obtain ⟨m, hm⟩ := hcells layer hlayer
  have hn : min m stream.length = n := by
    rw [← hlength layer hlayer, hm, List.length_map, List.length_take]
  obtain ⟨rest, hrest⟩ := hseen
  have htake : stream.take m = stream.take n := by
    rw [List.take_eq_take_min, hn]
  rw [hm, htake, ← hrest, List.take_append_of_le_length hle]

/-- Emitting changes nothing else. -/
theorem emitAll_wp (reused : Nat) (responses : List Response) :
    ∀ w : Worker, wp (emitAll reused responses)
      (fun _ w' => ∃ emitted, w' = { w with emitted })
      (fun _ _ => False) w := by
  induction responses with
  | nil =>
      intro w
      exact ⟨w.emitted, rfl⟩
  | cons response responses ih =>
      intro w
      unfold emitAll
      by_cases htext : response.text ≠ []
      · rw [if_pos htext, wp_bind]
        exact ih _
      · rw [if_neg htext]
        exact ih w

/-- What a generation leaves of the worker, when it raises: every context is
sound, and there is none for its own. -/
def Abandoned (key : QString) (w : Worker) : Prop :=
  Sound w ∧ w.contexts[key]? = none

/-- A sound worker keeps its contexts while the cache is evaluated. -/
theorem Ready.evaluated {model reused : Nat} {prompt : TokenList} {cache : Nat}
    {w : Worker} (h : Ready model prompt cache reused w)
    (hreused : reused ≤ prompt.length) :
    let w' := put cache (evaluate model o
      (prompt.drop reused ++ o.steps.tokens) (w.heap cache)) w
    Sound w' ∧ ∀ layer ∈ w'.heap cache,
      ∃ n, layer.cells = kv model ((prompt ++ o.steps.tokens).take n) := by
  refine ⟨h.sound.put h.free _, ?_⟩
  rw [put_heap_self]
  exact evaluate_spec h.held hreused

/-- Recording stores a key under what its cache really holds, counted in tokens
the model has seen. -/
theorem record_wp {w : Worker} {model cache : Nat} {key : QString}
    {seen stream : TokenList} (h : Sound w) (hmodel : w.model = some model)
    (hfree : Unnamed w cache) (hmade : cache < w.caches)
    (hseen : seen <+: stream)
    (hcells : ∀ layer ∈ w.heap cache,
      ∃ n, layer.cells = kv model (stream.take n)) :
    wp (record o key seen cache) (fun _ => Sound) (fun _ _ => False) w := by
  unfold record
  rw [wp_modify]
  cases hrecord : recordable o seen (w.heap cache) with
  | none => exact h
  | some n =>
      exact h.insert hmodel key (holds_of_recordable hrecord hseen hcells)
        hmade hfree

/-- A generation whose entry has been taken: it leaves the contexts sound,
and when it raises there is no context of its own. -/
theorem generateTaken_wp {w : Worker} {model : Nat} {request : GenerateRequest}
    {entry : Option Entry} (h : Sound w) (hmodel : w.model = some model)
    (hentry : ∀ e, entry = some e → Unnamed w e.cache ∧ e.cache < w.caches
      ∧ Holds model (w.heap e.cache) e.tokens)
    (hnone : w.contexts[request.contextId]? = none)
    (htokens : request.tokens ≠ []) :
    wp (generateTaken model o request entry) (fun _ => Sound)
      (fun _ => Abandoned request.contextId) w := by
  unfold generateTaken
  rw [wp_bind]
  apply wp_mono (prepareCache_wp h hmodel hentry htokens)
  · intro prepared w₁ ⟨⟨hlt, hready, _⟩, hsame⟩
    have hnone₁ : w₁.contexts[request.contextId]? = none := by
      rw [hsame.1, hnone]
    have habandoned : Abandoned request.contextId w₁ := ⟨hready.sound, hnone₁⟩
    dsimp only
    rw [wp_bind, wp_ofExcept]
    refine ⟨fun _ _ => ?_, fun _ _ => habandoned⟩
    rw [wp_ite]
    refine ⟨fun _ => habandoned, fun _ => ?_⟩
    rw [wp_bind, wp_ofExcept]
    refine ⟨fun _ _ => ?_, fun _ _ => habandoned⟩
    rw [wp_bind, wp_get, wp_bind, wp_set, wp_bind]
    obtain ⟨hsound, hcells⟩ := @Ready.evaluated o _ _ _ _ _ hready
      (Nat.le_of_lt hlt)
    apply wp_mono (emitAll_wp _ _ _) _ (fun _ _ h => h.elim)
    intro _ w₂ ⟨emitted, hw₂⟩
    subst hw₂
    have hsound₂ : Sound { put prepared.1 _ w₁ with emitted } :=
      ⟨hsound.held, hsound.made, hsound.alone⟩
    have hnone₂ : Abandoned request.contextId
        { put prepared.1 _ w₁ with emitted } := ⟨hsound₂, hnone₁⟩
    rw [wp_bind, wp_ofExcept]
    refine ⟨fun _ _ => ?_, fun _ _ => hnone₂⟩
    cases (responsesOf o w₁.backend request.options.maxTokens).getLast? with
    | none => exact hnone₂
    | some last =>
        dsimp only
        rw [wp_bind]
        have hseen : request.tokens
            ++ (responsesOf o w₁.backend request.options.maxTokens).map
              Response.token <+: request.tokens ++ o.steps.tokens :=
          List.prefix_append_right_inj _ |>.2 (responsesOf_begin _ _)
        exact wp_mono (record_wp hsound₂ hready.loaded hready.free hready.made
          hseen hcells) (fun _ _ hsound => hsound) (fun _ _ h => h.elim)
  · intro _ w' ⟨hsound, hsame⟩
    exact ⟨hsound, by rw [hsame.1, hnone]⟩

/-- A generation that may take its entry: the imports succeed and the tokens
are within the budget. -/
def Takes (o : Outside) (request : GenerateRequest) (w : Worker) : Prop :=
  w.model ≠ none ∧ o.imports = .ok () ∧ withinBudget w request

/-- One request leaves every entry sound. Where it takes an entry and then
fails, the entry is gone and is not put back half used. -/
theorem generate_wp {w : Worker} {model : Nat} {request : GenerateRequest}
    (h : Sound w) (hmodel : w.model = some model) :
    wp (generate model o request) (fun _ => Sound)
      (fun _ w' => Sound w'
        ∧ (Takes o request w → w'.contexts[request.contextId]? = none)) w := by
  unfold generate
  rw [wp_bind, wp_ofExcept]
  refine ⟨fun _ himports => ?_, fun e himports => ⟨h, fun htakes => ?_⟩⟩
  · rw [wp_bind, wp_get, wp_ite]
    refine ⟨fun hbudget => ⟨h, fun htakes => absurd htakes.2.2 hbudget⟩,
      fun hbudget => ?_⟩
    have hbudget := not_not.1 hbudget
    rw [wp_bind, wp_set]
    obtain ⟨hsound, hfree⟩ := h.erase request.contextId
    apply wp_mono (generateTaken_wp hsound hmodel _
      (Maps.find_erase_self _ _) hbudget.1)
    · intro _ _ hsound
      exact hsound
    · intro _ _ hfailed
      exact ⟨hfailed.1, fun _ => hfailed.2⟩
    · intro e he
      obtain ⟨model', hmodel', hheld⟩ := h.held _ _ he
      rw [hmodel] at hmodel'
      cases hmodel'
      exact ⟨hfree e he, h.made _ _ he, hheld⟩
  · rw [htakes.2.1] at himports
    cases himports

-- =================================================================== requests

/-- What a request leaves, returning or raising. -/
def Left (o : Outside) (request : Request) (w : Worker) (w' : Worker) : Prop :=
  Sound w' ∧ ∀ r, request = .generate r → Takes o r w →
    w'.contexts[r.contextId]? = none

/-- Loading drops all entries, so the caches of the model before it cannot be
taken for the new one. -/
theorem load_wp {w : Worker} (h : Sound w) (backend : QString)
    (contextTokens : Int) :
    wp (load o backend contextTokens) (fun _ => Sound) (fun _ => Sound) w := by
  unfold load
  rw [wp_bind, wp_ofExcept]
  refine ⟨fun _ _ => ?_, fun _ _ => h⟩
  rw [wp_bind, wp_ofExcept]
  refine ⟨fun _ _ => ?_, fun _ _ => h⟩
  have hbackend : Sound { w with backend } := ⟨h.held, h.made, h.alone⟩
  rw [wp_bind, wp_modify, wp_bind, wp_ofExcept]
  refine ⟨fun model _ => ?_, fun _ _ => hbackend⟩
  rw [wp_bind, wp_modify, wp_pure]
  exact sound_of_empty rfl

/-- A request keeps the contexts sound. One that raises after it has taken an
entry leaves none. -/
theorem handle_wp {w : Worker} (h : Sound w) (request : Request) :
    wp (handle o request) (fun _ => Sound) (fun _ => Left o request w) w := by
  cases request with
  | load backend path contextTokens =>
      apply wp_mono (load_wp h backend contextTokens) (fun _ _ h => h)
      intro _ w' hsound
      exact ⟨hsound, fun r hr => nomatch hr⟩
  | tokenize messages =>
      unfold handle
      rw [wp_bind, wp_get]
      have hleft : Left o (.tokenize messages) w w :=
        ⟨h, fun r hr => nomatch hr⟩
      cases w.model with
      | none => exact hleft
      | some model =>
          dsimp only
          rw [wp_bind, wp_ofExcept]
          exact ⟨fun _ _ => h, fun _ _ => hleft⟩
  | drop contextId =>
      unfold handle
      rw [wp_bind, wp_get]
      have herase := (h.erase contextId).1
      cases hmodel : w.model with
      | none => exact ⟨h, fun r hr => nomatch hr⟩
      | some model =>
          rw [hmodel] at herase
          dsimp only
          rw [wp_bind, wp_set, wp_bind, wp_ofExcept]
          exact ⟨fun _ _ => herase, fun _ _ =>
            ⟨herase, fun r hr => nomatch hr⟩⟩
  | generate request =>
      unfold handle
      rw [wp_bind, wp_get]
      cases hmodel : w.model with
      | none =>
          refine ⟨h, fun r hr htakes => ?_⟩
          exact absurd hmodel htakes.1
      | some model =>
          apply wp_mono (generate_wp h hmodel) (fun _ _ h => h)
          intro _ w' ⟨hsound, hnone⟩
          refine ⟨hsound, fun r hr htakes => ?_⟩
          cases hr
          exact hnone htakes
  | other op =>
      unfold handle
      rw [wp_bind, wp_get]
      have hleft : Left o (.other op) w w := ⟨h, fun r hr => nomatch hr⟩
      cases w.model with
      | none => exact hleft
      | some model => exact hleft

/-- One request of any kind, answered or failed, keeps the worker sound. -/
theorem serve_sound {w : Worker} (h : Sound w) (request : Request) :
    Sound (serve o request w) := by
  unfold serve
  rcases wp_cases (handle_wp (o := o) h request) with
    ⟨reply, w', hw', hsound⟩ | ⟨e, w', hw', hleft⟩
  · rw [hw']
    exact ⟨hsound.held, hsound.made, hsound.alone⟩
  · rw [hw']
    exact ⟨hleft.1.held, hleft.1.made, hleft.1.alone⟩

/-- By induction over the requests, so does a whole session. -/
theorem serveAll_sound (requests : List (Outside × Request)) :
    ∀ {w : Worker}, Sound w → Sound (serveAll w requests) := by
  induction requests with
  | nil =>
      intro w h
      exact h
  | cons request requests ih =>
      intro w h
      exact ih (serve_sound h request.2)

/-- The worker of a process, after any requests. -/
def used (past : List (Outside × Request)) : Worker := serveAll {} past

theorem used_sound (past : List (Outside × Request)) : Sound (used past) :=
  serveAll_sound past (sound_of_empty rfl)

/-- What `prepare_cache` hands out for the entry of a context, once that
entry has been taken. -/
theorem prepareCache_prepared {w : Worker} {model : Nat} {key : QString}
    {prompt : TokenList} (h : Sound w) (hmodel : w.model = some model)
    (hprompt : prompt ≠ []) :
    wp (prepareCache o w.contexts[key]? prompt)
      (fun r => Prepared o model w.contexts[key]? prompt r.1 r.2)
      (fun _ => Sound) { w with contexts := w.contexts.erase key } := by
  obtain ⟨hsound, hfree⟩ := h.erase key
  apply wp_mono (prepareCache_wp hsound hmodel _ hprompt)
  · intro _ _ hprepared
    exact hprepared.1
  · intro _ _ hfailed
    exact hfailed.1
  · intro e he
    obtain ⟨model', hmodel', hheld⟩ := h.held key e he
    rw [hmodel] at hmodel'
    cases hmodel'
    exact ⟨hfree e he, h.made key e he, hheld⟩

/-- **The caches are sound after any requests**: what a context holds, what
`prepare_cache` hands out, and what a failed generation leaves. Every entry has
a cache of its own, which holds exactly the tokens that the entry names. -/
theorem caches_sound (past : List (Outside × Request)) (o : Outside) :
    Sound (used past)
      ∧ (∀ key model prompt, (used past).model = some model → prompt ≠ [] →
        wp (prepareCache o (used past).contexts[key]? prompt)
          (fun r => Prepared o model (used past).contexts[key]? prompt r.1 r.2)
          (fun _ => Sound)
          { used past with contexts := (used past).contexts.erase key })
      ∧ ∀ request e w', handle o (.generate request) (used past)
        = (.error e, w') →
        Takes o request (used past) →
        w'.contexts[request.contextId]? = none := by
  have h := used_sound past
  refine ⟨h, fun key model prompt hmodel hprompt =>
    prepareCache_prepared h hmodel hprompt,
      fun request e w' hfails htakes => ?_⟩
  have hleft := wp_error (handle_wp h (.generate request)) hfails
  exact hleft.2 request rfl htakes

-- ==================================================================== replies

/-- What is emitted on the way is a list of deltas. -/
def Deltas (w w' : Worker) : Prop :=
  ∃ deltas, w'.emitted = w.emitted ++ deltas
    ∧ ∀ line ∈ deltas, Line.isFinal line = false

/-- A step that emits nothing emits only deltas. -/
theorem Deltas.of_same {w w' : Worker} (h : w'.emitted = w.emitted) :
    Deltas w w' :=
  ⟨[], by rw [h, List.append_nil], fun line hline => nomatch hline⟩

/-- Emissions append, so the property composes along a computation. -/
theorem Deltas.trans {w w' w'' : Worker} (h : Deltas w w')
    (h' : Deltas w' w'') : Deltas w w'' := by
  obtain ⟨deltas, hemitted, hall⟩ := h
  obtain ⟨deltas', hemitted', hall'⟩ := h'
  refine ⟨deltas ++ deltas', by rw [hemitted', hemitted, List.append_assoc],
    ?_⟩
  intro line hline
  exact (List.mem_append.1 hline).elim (hall line) (hall' line)

instance : IsTrans Worker Deltas := ⟨fun _ _ _ h h' => h.trans h'⟩

/-- Whatever it does, it emits deltas only. -/
abbrev EmitsDeltas {α : Type} (m : WorkerM α) : Prop := Relates Deltas m

theorem ofExcept_deltas {α : Type} (r : Except PyError α) :
    EmitsDeltas (Exec.ofExcept r : WorkerM α) := by
  intro w
  rw [wp_ofExcept]
  exact ⟨fun _ _ => Deltas.of_same rfl, fun _ _ => Deltas.of_same rfl⟩

theorem makeCache_deltas : EmitsDeltas (makeCache o) := by
  unfold makeCache
  apply (ofExcept_deltas _).bind
  intro layers w
  exact Deltas.of_same rfl

theorem prepareCache_deltas (entry : Option Entry) (tokens : TokenList) :
    EmitsDeltas (prepareCache o entry tokens) := by
  have hnew : EmitsDeltas (do let cache ← makeCache o; return (cache, 0)) :=
    makeCache_deltas.bind fun cache w => Deltas.of_same rfl
  unfold prepareCache
  cases entry with
  | none => exact hnew
  | some e =>
      intro w
      dsimp only
      rw [wp_ite]
      refine ⟨fun _ => hnew w, fun _ => ?_⟩
      rw [wp_ite]
      refine ⟨fun _ => Deltas.of_same rfl, fun _ => ?_⟩
      have htrim : ∀ amount, EmitsDeltas (trim o e.cache amount) := by
        intro amount
        unfold trim
        apply (ofExcept_deltas _).bind
        intro removed w
        exact Deltas.of_same rfl
      apply (htrim _).bind
      intro removed w'
      rw [wp_ite]
      exact ⟨fun _ => hnew w', fun _ => Deltas.of_same rfl⟩

/-- Each response becomes one delta line, by induction on the responses. -/
theorem emitAll_deltas (reused : Nat) (responses : List Response) :
    EmitsDeltas (emitAll reused responses) := by
  induction responses with
  | nil =>
      intro w
      exact Deltas.of_same rfl
  | cons response responses ih =>
      have hemit : EmitsDeltas (emit
          (.delta response.text response.generationTokens reused)) := by
        intro w
        refine ⟨[_], rfl, fun line hline => ?_⟩
        rw [List.mem_singleton.1 hline]
        rfl
      unfold emitAll
      split
      · exact hemit.bind fun _ => ih
      · exact ih

/-- A generation emits deltas only. Its final line is written by the caller,
once the generation has returned. -/
theorem generate_deltas (model : Nat) (request : GenerateRequest) :
    EmitsDeltas (generate model o request) := by
  unfold generate
  apply (ofExcept_deltas _).bind
  intro _ w
  rw [wp_bind, wp_get, wp_ite]
  refine ⟨fun _ => Deltas.of_same rfl, fun _ => ?_⟩
  rw [wp_bind, wp_set]
  unfold generateTaken
  apply (prepareCache_deltas _ _).bind
  intro prepared
  apply (ofExcept_deltas _).bind
  intro _ w₁
  rw [wp_ite]
  refine ⟨fun _ => Deltas.of_same rfl, fun _ => ?_⟩
  apply (ofExcept_deltas _).bind
  intro _ w₂
  rw [wp_bind, wp_get, wp_bind, wp_set]
  apply (emitAll_deltas _ _).bind
  intro _
  apply (ofExcept_deltas _).bind
  intro _ w₃
  cases (responsesOf o w₂.backend request.options.maxTokens).getLast? with
  | none => exact Deltas.of_same rfl
  | some last =>
      dsimp only
      rw [wp_bind]
      unfold record
      rw [wp_modify, wp_pure]
      split
      · exact Deltas.of_same rfl
      · exact Deltas.of_same rfl

/-- No request emits a final line while it is handled, which is why the last
line of an answer is the only one of its kind. -/
theorem handle_deltas (request : Request) :
    EmitsDeltas (handle o request) := by
  cases request with
  | load backend path contextTokens =>
      show EmitsDeltas (load o backend contextTokens)
      unfold load
      apply (ofExcept_deltas _).bind
      intro _
      apply (ofExcept_deltas _).bind
      intro _ w
      rw [wp_bind, wp_modify]
      apply (ofExcept_deltas _).bind
      intro model w'
      exact Deltas.of_same rfl
  | generate request =>
      intro w
      unfold handle
      rw [wp_bind, wp_get]
      cases w.model with
      | none => exact Deltas.of_same rfl
      | some model => exact generate_deltas model request w
  | tokenize messages =>
      intro w
      unfold handle
      rw [wp_bind, wp_get]
      cases w.model with
      | none => exact Deltas.of_same rfl
      | some model =>
          apply (ofExcept_deltas _).bind
          intro tokens w'
          exact Deltas.of_same rfl
  | drop contextId =>
      intro w
      unfold handle
      rw [wp_bind, wp_get]
      cases w.model with
      | none => exact Deltas.of_same rfl
      | some model =>
          dsimp only
          rw [wp_bind, wp_set]
          apply (ofExcept_deltas _).bind
          intro _ w'
          exact Deltas.of_same rfl
  | other op =>
      intro w
      unfold handle
      rw [wp_bind, wp_get]
      cases w.model with
      | none => exact Deltas.of_same rfl
      | some model => exact Deltas.of_same rfl

/-- A request is answered with deltas and then one line that is none. -/
theorem replyTo_ends (o : Outside) (request : Request) (w : Worker) :
    ∃ deltas last, replyTo o request w = deltas ++ [last]
      ∧ (∀ line ∈ deltas, Line.isFinal line = false)
      ∧ Line.isFinal last = true := by
  unfold replyTo serve
  rcases wp_cases (handle_deltas (o := o) request w) with
    ⟨reply, w', hw', deltas, hemitted, hall⟩ | ⟨e, w', hw', deltas,
      hemitted, hall⟩
  · refine ⟨deltas, .result reply, ?_, hall, rfl⟩
    rw [hw']
    dsimp only
    rw [hemitted, List.append_assoc, List.drop_left]
  · refine ⟨deltas, .error (e.name ++ qs ": " ++ e.text), ?_, hall, rfl⟩
    rw [hw']
    dsimp only
    rw [hemitted, List.append_assoc, List.drop_left]

/-- A generation of the token 5, evaluated on every layer with the prompt. -/
def sampleOutside : Outside where
  steps :=
    { tokens := [5]
      evaluates := fun _ => 3 }
  lastSegment := fun _ _ => qs "x"

def sampleRequests (prompts : List TokenList) : List (Outside × Request) :=
  ({}, .load (qs "cpu") (qs "m") 512) :: prompts.map fun tokens =>
    (sampleOutside, .generate ⟨qs "k", tokens, { maxTokens := 1 }⟩)

-- The second prompt shares two tokens with the first.
example : (used (sampleRequests [[7, 8, 9], [7, 8, 6]])).emitted =
    [.result (.loaded (qs "cpu")), .delta (qs "x") 1 0,
      .result (.generated (some (qs "length")) 1 0), .delta (qs "x") 1 2,
      .result (.generated (some (qs "length")) 1 2)] := by
  decide +kernel

end LocalLLM.Worker
