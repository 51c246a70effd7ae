/-
A structured conversation, step by step, and what its calls are worth.

# The reply

`validateConversationReply` is the only way for a call to reach a result.
`CallSafe` is what it asks of one call; the ids of all calls are distinct
and new (`checkReplyCalls_spec`). Drawing ids for the calls that have none
is all it does to the worker.

# The turn

`Talking` is the invariant of the body and `Replied` its last condition: a
turn that has thrown on the way reaches neither calls nor reasoning, since
its handler clears both (`ExecutorSafe`). A generation that was cut off by
its token limit never gets as far as the parser (`Overran`).
-/
import LocalLLM.Proofs.Chat

namespace LocalLLM

open Std Json ModelManager

variable {c : Config} {env : Env} {callback : Option StreamCallback}

-- ================================================================== one call

/-- The id of a call. -/
def callId (value : Json) : QString := memberText (toObject (some value)) "id"

/-- What an executor may rely on in a call. -/
structure CallSafe (c : Config) (request : ConversationRequest) (call : Json) :
    Prop where
  named : functionName call ∈ toolNames request
  arguments : isObject (c.fromJson (memberText
    (functionOf (toObject (some call))) "arguments")) = true
  id_ne_nil : callId call ≠ []
  id_length : (callId call).length ≤ 128
  id_new : callId call ∉ historyIds request

theorem checkCall_ok {value : Json} {code : ErrorCode} {id : QString}
    (h : checkCall c value code = .ok id) :
    id = callId value ∧ callId value ≠ [] ∧ (callId value).length ≤ 128
      ∧ isObject (c.fromJson (memberText
        (functionOf (toObject (some value))) "arguments")) = true := by
  unfold checkCall at h
  obtain ⟨_, -, h⟩ := bind_eq_ok.1 h
  obtain ⟨_, hid, h⟩ := bind_eq_ok.1 h
  obtain ⟨_, harguments, h⟩ := bind_eq_ok.1 h
  rw [require_eq_ok] at hid harguments
  injection h with h
  exact ⟨h.symm, hid.2.1, hid.2.2, harguments.2⟩

-- ================================================================= all calls

/-- A step that only draws UUIDs. -/
structure Drawn (s s' : State) : Prop where
  state : s' = { s with issued := s'.issued }
  issued : s.issued ≤ s'.issued

theorem Drawn.refl (s : State) : Drawn s s := ⟨rfl, Nat.le_refl _⟩

theorem Drawn.trans {s t u : State} (h : Drawn s t) (h' : Drawn t u) :
    Drawn s u := by
  refine ⟨?_, Nat.le_trans h.issued h'.issued⟩
  rw [h'.state, h.state]

theorem withId_spec (call : JsonObject) (s : State) :
    Exec.wp (withId c call) (fun _ s' => Drawn s s')
      (fun _ s' => Drawn s s') s := by
  unfold withId
  split
  · exact ⟨rfl, Nat.le_succ _⟩
  · exact Drawn.refl s

/-- Every call that comes back is safe, and its id is that of no other
call: neither of `ids` nor of the calls after it. -/
theorem checkReplyCalls_spec (request : ConversationRequest) :
    ∀ (calls : List Json) (ids : List QString) (s : State),
    (∀ id ∈ historyIds request, id ∈ ids) →
    Exec.wp (checkReplyCalls c (toolNames request) calls ids)
      (fun out s' => Drawn s s' ∧ out.length = calls.length
        ∧ (∀ call ∈ out, CallSafe c request call ∧ callId call ∉ ids)
        ∧ (out.map callId).Nodup)
      (fun _ s' => Drawn s s') s := by
  intro calls
  induction calls with
  | nil =>
      intro ids s _
      exact ⟨Drawn.refl s, rfl, by simp, List.nodup_nil⟩
  | cons value rest ih =>
      intro ids s hids
      unfold checkReplyCalls check
      rw [Exec.wp_bind]
      refine Exec.wp_mono (withId_spec _ s) ?_ fun _ _ h => h
      intro call t ht
      rw [Exec.wp_bind, Exec.wp_ofExcept]
      refine ⟨fun id hid => ?_, fun _ _ => ht⟩
      obtain ⟨rfl, hne, hlength, harguments⟩ := checkCall_ok hid
      rw [Exec.wp_bind, Exec.wp_ofExcept]
      refine ⟨fun _ hfresh => ?_, fun _ _ => ht⟩
      rw [require_eq_ok] at hfresh
      rw [Exec.wp_bind]
      refine Exec.wp_mono (ih (callId (.object call) :: ids) t
        fun id h => List.mem_cons_of_mem _ (hids id h)) ?_ ?_
      case refine_2 => exact fun _ u hu => ht.trans hu
      rintro out u ⟨hu, hlen, hsafe, hnodup⟩
      have hcall : CallSafe c request (.object call) :=
        ⟨hfresh.2, harguments, hne, hlength, fun h => hfresh.1 (hids _ h)⟩
      refine ⟨ht.trans hu, by simp [hlen], fun call' hmem => ?_, ?_⟩
      · rcases List.mem_cons.1 hmem with rfl | hmem
        · exact ⟨hcall, hfresh.1⟩
        · obtain ⟨hs, hnew⟩ := hsafe call' hmem
          exact ⟨hs, fun h => hnew (List.mem_cons_of_mem _ h)⟩
      · rw [List.map_cons, List.nodup_cons]
        refine ⟨fun hmem => ?_, hnodup⟩
        obtain ⟨call', hcall', heq⟩ := List.mem_map.1 hmem
        exact (hsafe call' hcall').2 (heq ▸ List.mem_cons_self ..)

/-- The calls of a reply that passed. -/
structure CallsSafe (c : Config) (request : ConversationRequest)
    (calls : List Json) : Prop where
  each : ∀ call ∈ calls, CallSafe c request call
  distinct : (calls.map callId).Nodup
  allowed : request.toolChoice = qs "none" → calls = []
  required : request.toolChoice = qs "required" → calls ≠ []
  single : request.parallelToolCalls = false → calls.length ≤ 1

/-- A reply that passes keeps its text and its reasoning, and its
calls are safe. -/
theorem validateConversationReply_spec (parsed : RuntimeConversationReply)
    (request : ConversationRequest) (s : State) :
    Exec.wp (validateConversationReply c parsed request)
      (fun reply s' => Drawn s s' ∧ CallsSafe c request reply.toolCalls
        ∧ reply.text = parsed.text ∧ reply.reasoning = parsed.reasoning)
      (fun _ s' => Drawn s s') s := by
  unfold validateConversationReply check
  rw [Exec.wp_bind, Exec.wp_ofExcept]
  refine ⟨fun _ _ => ?_, fun _ _ => Drawn.refl s⟩
  rw [Exec.wp_bind, Exec.wp_ofExcept]
  refine ⟨fun _ hparallel => ?_, fun _ _ => Drawn.refl s⟩
  rw [Exec.wp_bind, Exec.wp_ofExcept]
  refine ⟨fun _ hnone => ?_, fun _ _ => Drawn.refl s⟩
  rw [Exec.wp_bind, Exec.wp_ofExcept]
  refine ⟨fun _ hrequired => ?_, fun _ _ => Drawn.refl s⟩
  rw [require_eq_ok] at hparallel hnone hrequired
  rw [Exec.wp_bind]
  refine Exec.wp_mono (checkReplyCalls_spec request parsed.toolCalls
    (historyIds request) s fun _ h => h) ?_ fun _ _ h => h
  rintro calls s' ⟨hdrawn, hlen, hsafe, hnodup⟩
  rw [Exec.wp_pure]
  have hnil : calls = [] ↔ parsed.toolCalls = [] := by
    rw [← List.length_eq_zero_iff, hlen, List.length_eq_zero_iff]
  refine ⟨hdrawn, ⟨fun call hmem => (hsafe call hmem).1, hnodup,
    fun hchoice => ?_,
    fun hchoice => ?_, fun hparallel' => ?_⟩, rfl, rfl⟩
  · rcases hnone with hne | hempty
    · exact absurd hchoice hne
    · exact hnil.2 hempty
  · rcases hrequired with hne | hfull
    · exact absurd hchoice hne
    · exact fun hempty => hfull (hnil.1 hempty)
  · rcases hparallel with hyes | hone
    · rw [hparallel'] at hyes
      cases hyes
    · rw [hlen]
      exact hone

/-- Drawing UUIDs is a step like any other. -/
theorem Drawn.stepped {held : Held} {s s' : State} (h : Drawn s s')
    (hsound : s.Sound c held) : Stepped c held s s' := by
  rw [h.state]
  exact ⟨⟨hsound.models, { hsound.grounded with
    created := fun id modelId hcreated => by
      obtain ⟨n, hn, hid⟩ := hsound.grounded.created id modelId hcreated
      exact ⟨n, Nat.lt_of_lt_of_le hn h.issued, hid⟩ }⟩, rfl, rfl, [], by simp,
    rfl, by simp⟩

-- ================================================================== the turn

/-- The invariant of the body, in a turn that began in `t₀`. -/
structure Talking (c : Config) (callback : Option StreamCallback)
    (t₀ t : Turn) : Prop where
  inTurn : InTurn c t₀ t
  sessions : t.state.sessions = t₀.state.sessions
  told : Told callback t
  silent : t.result.text = []
  unfailed : t.result.errorCode = .None

theorem Talking.framed {t₀ t t' : Turn} (h : Talking c callback t₀ t)
    (hf : Framed t t') (htext : t'.result.text = t.result.text)
    (htold : Told callback t') : Talking c callback t₀ t' :=
  ⟨h.inTurn.framed hf, by rw [hf.state]; exact h.sessions, htold,
    htext.trans h.silent, hf.errorCode.trans h.unfailed⟩

/-- A step of the state that leaves the sessions alone. -/
theorem Talking.stepped {t₀ t : Turn} (h : Talking c callback t₀ t)
    {s' : State} (hstep : Stepped c (leaseOf t.leasedModel) t.state s')
    (hsessions : s'.sessions = t.state.sessions) :
    Talking c callback t₀ { t with state := s' } :=
  ⟨h.inTurn.stepped hstep rfl rfl rfl, hsessions.trans h.sessions,
    h.told.congr rfl rfl, h.silent, h.unfailed⟩

/-- What a handler and a finished body have in common. -/
structure Spoken (c : Config) (callback : Option StreamCallback)
    (t₀ t : Turn) : Prop where
  inTurn : InTurn c t₀ t
  sessions : t.state.sessions = t₀.state.sessions
  told : Told callback t

theorem Talking.spoken {t₀ t : Turn} (h : Talking c callback t₀ t) :
    Spoken c callback t₀ t := ⟨h.inTurn, h.sessions, h.told⟩

/-- A turn whose reply was accepted. -/
structure Replied (c : Config) (callback : Option StreamCallback)
    (request : ConversationRequest) (t₀ t : Turn) : Prop where
  spoken : Spoken c callback t₀ t
  unfailed : t.result.errorCode = .None
  finished : t.result.finishReason = .Stop
  calls : CallsSafe c request t.result.toolCalls

/-- The runtime reaches the filter and the raw text, and nothing else. -/
theorem onRaw_spec (text : QString) (t : Turn) :
    let after := fun t' : Turn =>
      Framed t t' ∧ t'.result = t.result ∧ t'.delivered = t.delivered
    Exec.wp (onRaw c env text) (fun _ => after) (fun _ => after) t := by
  unfold onRaw
  dsimp only
  rw [Exec.wp_bind, Exec.wp_get, Exec.wp_bind, Exec.wp_set,
    Exec.wp_bind, wp_lift]
  refine ⟨fun _ _ => ?_,
    fun _ _ => ⟨⟨rfl, rfl, rfl, rfl, rfl, rfl, rfl, rfl⟩, rfl, rfl⟩⟩
  rw [Exec.wp_bind, Exec.wp_modify, Exec.wp_bind, Exec.wp_get,
    Exec.wp_bind, wp_lift]
  exact ⟨fun _ _ => ⟨⟨rfl, rfl, rfl, rfl, rfl, rfl, rfl, rfl⟩, rfl, rfl⟩,
    fun _ _ => ⟨⟨rfl, rfl, rfl, rfl, rfl, rfl, rfl, rfl⟩, rfl, rfl⟩⟩

/-- The one delta of a reply is its text. -/
theorem emitReply_spec {t : Turn} (text : QString)
    (hold : Told callback { t with result := { t.result with text := [] } })
    (htext : t.result.text = text) :
    let after := fun t' : Turn =>
      (Framed t t' ∧ Told callback t') ∧ t'.result = t.result
    Exec.wp (emitReply callback text) (fun _ => after) (fun _ => after) t := by
  unfold emitReply
  rw [Exec.wp_bind, Exec.wp_get]
  by_cases hempty : text = []
  · rw [if_neg (by simp [hempty])]
    exact ⟨⟨Framed.refl t, hold.congr (by rw [htext, hempty]) rfl⟩, rfl⟩
  · rw [if_pos hempty]
    refine Exec.wp_and (Told.notify (t := t) [] hold ?_ rfl)
      (notify_result _ _ t)
    rw [htext]
    rfl

/-- From the prompt to the end of the generation. The text is kept back from
the callback, since a part of it may be a call. -/
theorem converseGenerate_spec (hc : c.Honest) {t₀ t : Turn}
    (h : Talking c callback t₀ t) {request : ConversationRequest}
    {model : LoadedModel}
    (hmodel : t.state.models.runtimes.models[model.spec.id]? = some model)
    (hkey : IsConversation model.spec.id t.cacheId) :
    Exec.wp (converseGenerate c env callback request model)
      (fun _ t' => Talking c callback t₀ t')
      (fun _ t' => Talking c callback t₀ t') t := by
  unfold converseGenerate
  dsimp only
  rw [Exec.wp_bind, wp_lift]
  refine ⟨fun prepared hprepared => ?_, fun _ _ => h⟩
  rw [Exec.wp_bind, wp_lift]
  refine ⟨fun _ _ => ?_, fun _ _ => h⟩
  rw [Exec.wp_bind, Exec.wp_modify, Exec.wp_bind, Exec.wp_get, Exec.wp_bind,
    wp_onState]
  let t₁ : Turn := { t with result := { t.result with usage :=
    { t.result.usage with promptTokens := prepared.tokenCount } } }
  have h₁ : Talking c callback t₀ t₁ :=
    h.framed ⟨rfl, rfl, rfl, rfl, rfl, rfl, rfl, rfl⟩ rfl
      (h.told.congr rfl rfl)
  refine Exec.wp_mono
    (useContext_spec hc h₁.inTurn.sound hmodel (Or.inr hkey)) ?_ ?_
  case refine_2 =>
    rintro _ s' ⟨hstep, hsessions, -⟩
    exact h₁.stepped hstep hsessions
  rintro context s' ⟨hstep, hsessions, -, -⟩
  have h₂ : Talking c callback t₀ { t₁ with state := s' } :=
    h₁.stepped hstep hsessions
  rw [Exec.wp_bind]
  refine Exec.wp_mono (Exec.wp_and (Told.notify (t := { t₁ with state := s' })
    [] (h₂.told.congr h₂.silent.symm rfl) h₂.silent rfl) (notify_result _ _ _))
      ?_ ?_
  case refine_2 =>
    rintro _ t' ⟨⟨hf, htold⟩, hresult⟩
    exact h₂.framed hf (by rw [hresult]) htold
  rintro _ t₃ ⟨⟨hf₃, htold₃⟩, hresult₃⟩
  have h₃ := h₂.framed hf₃ (by rw [hresult₃]) htold₃
  rw [Exec.wp_bind, Exec.wp_modify, Exec.wp_bind]
  -- the turn the runtime is started in
  let u :
    Turn :=
    { t₃ with stop := { stops := request.options.stop ++ prepared.stop } }
  have hu : Talking c callback t₀ u :=
    h₃.framed (Framed.of_stop t₃ _) rfl (htold₃.congr rfl rfl)
  have hrun := Caller.wp_run (f := onRaw c env)
    (I := fun t' => Framed u t' ∧ t'.result = u.result
      ∧ t'.delivered = u.delivered)
    (fun text t' ⟨hf, hresult, hdelivered⟩ => Exec.wp_mono (onRaw_spec text t')
      (fun _ t'' ⟨hf', hresult', hdelivered'⟩ => ⟨hf.trans hf',
        hresult'.trans hresult, hdelivered'.trans hdelivered⟩)
      (fun _ t'' ⟨hf', hresult', hdelivered'⟩ => ⟨hf.trans hf',
        hresult'.trans hresult, hdelivered'.trans hdelivered⟩))
    (context.generateConversation env.probe prepared request.options) u
    ⟨Framed.refl u, rfl, rfl⟩
  have hkept : ∀ t', (Framed u t' ∧ t'.result = u.result
      ∧ t'.delivered = u.delivered) → Talking c callback t₀ t' :=
    fun t' ⟨hf, hresult, hdelivered⟩ => hu.framed hf (by rw [hresult])
      (hu.told.congr (by rw [hresult]) hdelivered)
  exact Exec.wp_mono hrun (fun _ t' ht' => hkept t' ht') fun _ t' ht' =>
    hkept t' ht'

/-- From the raw text to the reply: parse, check, hand on. Nothing of it
reaches the result before the checks have passed. -/
theorem converseReply_spec {t₀ v : Turn} (hv : Talking c callback t₀ v)
    (request : ConversationRequest) (model : LoadedModel)
    (prepared : RuntimeConversationPrompt) (generated : RuntimeResult) :
    Exec.wp (converseReply c env callback request model prepared generated)
      (fun _ t' => Replied c callback request t₀ t')
      (fun _ t' => Spoken c callback t₀ t') v := by
  unfold converseReply
  dsimp only
  rw [Exec.wp_bind, wp_lift]
  refine ⟨fun _ _ => ?_, fun _ _ => hv.spoken⟩
  rw [Exec.wp_bind, Exec.wp_modify, Exec.wp_bind, wp_lift]
  have hflushed : Talking c callback t₀
      { v with raw := v.raw ++ v.stop.finish.1, stop := v.stop.finish.2 } :=
    hv.framed ⟨rfl, rfl, rfl, rfl, rfl, rfl, rfl, rfl⟩ rfl
      (hv.told.congr rfl rfl)
  refine ⟨fun _ hfinish => ?_, fun _ _ => hflushed.spoken⟩
  rw [require_eq_ok] at hfinish
  rw [Exec.wp_bind, Exec.wp_modify, Exec.wp_bind, Exec.wp_get,
    Exec.wp_bind, wp_lift]
  -- the turn with its usage and its finish reason
  let w : Turn := { v with
    raw := v.raw ++ v.stop.finish.1
    stop := v.stop.finish.2
    result := { v.result with
      usage := { v.result.usage with
        generatedTokens := generated.generatedTokens
        cachedTokens := generated.cachedTokens }
      finishReason := if v.stop.stopped then .Stop
        else generated.finishReason } }
  have hw : Talking c callback t₀ w :=
    hv.framed ⟨rfl, rfl, rfl, rfl, rfl, rfl, rfl, rfl⟩ rfl
      (hv.told.congr rfl rfl)
  refine ⟨fun _ hlength => ?_, fun _ _ => hw.spoken⟩
  rw [require_eq_ok] at hlength
  have hstopped : v.stop.stopped = true ∨ generated.finishReason = .Stop := by
    by_cases hs : v.stop.stopped = true
    · exact Or.inl hs
    · refine Or.inr (hfinish.resolve_right fun hl => hlength ?_)
      exact (if_neg hs).trans hl
  have hreason : w.result.finishReason = .Stop := by
    rcases hstopped with hs | hs
    · exact if_pos hs
    · show (if v.stop.stopped then FinishReason.Stop
        else generated.finishReason) = _
      rw [hs, ite_self]
  rw [Exec.wp_bind, wp_lift]
  refine ⟨fun parsed _ => ?_, fun _ _ => hw.spoken⟩
  rw [Exec.wp_bind, wp_onState]
  refine Exec.wp_mono (validateConversationReply_spec parsed request
    w.state) ?_ ?_
  case refine_2 =>
    intro _ s'' hdrawn
    refine (hw.stepped (hdrawn.stepped hw.inTurn.sound) ?_).spoken
    rw [hdrawn.state]
  rintro reply s'' ⟨hdrawn, hcalls, -, -⟩
  have hx : Talking c callback t₀ { w with state := s'' } :=
    hw.stepped (hdrawn.stepped hw.inTurn.sound) (by rw [hdrawn.state])
  rw [Exec.wp_bind, Exec.wp_modify, Exec.wp_bind]
  let x : Turn := { w with
    state := s''
    result := { w.result with
      text := reply.text
      reasoning := reply.reasoning
      toolCalls := reply.toolCalls } }
  have hxin : InTurn c t₀ x :=
    hx.inTurn.framed ⟨rfl, rfl, rfl, rfl, rfl, rfl, rfl, rfl⟩
  have hspoken : ∀ t', Framed x t' → Told callback t' →
      Spoken c callback t₀ t' :=
    fun t' hf' htold' => ⟨hxin.framed
      hf', by rw [hf'.state]; exact hx.sessions,
      htold'⟩
  refine Exec.wp_mono (emitReply_spec (t := x) reply.text
    (hx.told.congr hx.silent.symm rfl) rfl) ?_ ?_
  case refine_2 =>
    rintro _ t' ⟨⟨hf', htold'⟩, -⟩
    exact hspoken t' hf' htold'
  rintro _ y ⟨⟨hf', htold'⟩, hresult'⟩
  have hy := hspoken y hf' htold'
  have hdone : ∀ t', Spoken c callback t₀ t' → t'.result = y.result →
      Replied c callback request t₀ t' := by
    intro t' hs' heq
    rw [hresult'] at heq
    refine ⟨hs', ?_, ?_, ?_⟩
    · rw [heq]
      exact hx.unfailed
    · rw [heq]
      exact hreason
    · rw [heq]
      exact hcalls
  -- a context cut by a stop string goes
  unfold dropStopped
  rw [Exec.wp_bind, Exec.wp_get, Exec.wp_ite]
  refine ⟨fun _ => ?_, fun _ => hdone y hy rfl⟩
  refine hdone _ ⟨hy.inTurn.stepped
    (stepped_erase hy.inTurn.sound y.cacheId) rfl rfl
    rfl, hy.sessions, hy.told.congr rfl rfl⟩ rfl

/-- A turn has its model: it is loaded, and the turn's key is one of its
conversations. -/
theorem converseOpen_spec {t₀ t : Turn} (h : Talking c callback t₀ t)
    (hlease : t.leasedModel = []) (request : ConversationRequest) :
    Exec.wp (converseOpen c env request)
      (fun model t' => Talking c callback t₀ t'
        ∧ t'.state.models.runtimes.models[model.spec.id]? = some model
        ∧ IsConversation model.spec.id t'.cacheId)
      (fun _ t' => Talking c callback t₀ t') t := by
  unfold converseOpen
  rw [Exec.wp_bind, wp_lift]
  refine ⟨fun _ _ => ?_, fun _ _ => h⟩
  rw [Exec.wp_bind, wp_lift]
  refine ⟨fun _ _ => ?_, fun _ _ => h⟩
  rw [Exec.wp_bind, Exec.wp_get, Exec.wp_bind, wp_lift]
  refine ⟨fun record hrecord => ?_, fun _ _ => h⟩
  rw [Exec.wp_bind, wp_lift]
  refine ⟨fun _ _ => ?_, fun _ _ => h⟩
  rw [Exec.wp_bind, wp_onState]
  have hsound := h.inTurn.sound
  rw [hlease, leaseOf_nil] at hsound
  have hvalid := resolve_valid hrecord
  refine Exec.wp_mono
    (acquire_spec hsound env record.manifest.id request.keepAliveMs) ?_ ?_
  case refine_2 =>
    rintro _ s' ⟨hred, -⟩
    have hred' : Reduced c (leaseOf t.leasedModel) t.state s' := by
      rw [hlease, leaseOf_nil]
      exact hred
    exact ⟨h.inTurn.reduced hred', hred.evolved.sessions.trans h.sessions,
      h.told.congr rfl rfl, h.silent, h.unfailed⟩
  rintro model s' ⟨hsound', hobs, hev, ⟨info, entry, remembered, hres⟩, -⟩
  rw [Exec.wp_bind, Exec.wp_modify, Exec.wp_pure]
  have hid := hres.matched.spec_id
  have hin := h.inTurn.acquired hlease (validId_ne_nil hvalid) hsound' hobs hev
  rw [← hid] at hin
  refine ⟨⟨hin.framedKey _, hev.sessions.trans h.sessions,
    h.told.congr rfl rfl,
    h.silent, h.unfailed⟩, ?_, ?_⟩
  · show s'.models.runtimes.models[model.spec.id]? = _
    rw [hid]
    exact hres.hasModel
  · refine ⟨?_, _, rfl⟩
    rw [hid]
    exact hvalid

/-- The whole body. -/
theorem converseBody_spec (hc : c.Honest) {t₀ t : Turn}
    (h : Talking c callback t₀ t) (hlease : t.leasedModel = [])
    (request : ConversationRequest) :
    Exec.wp (converseBody c env callback request)
      (fun _ t' => Replied c callback request t₀ t')
      (fun _ t' => Spoken c callback t₀ t') t := by
  unfold converseBody
  rw [Exec.wp_bind]
  refine Exec.wp_mono (converseOpen_spec h hlease request) ?_
    fun _ _ ht => ht.spoken
  rintro model u ⟨hu, hmodel, hkey⟩
  rw [Exec.wp_bind]
  refine Exec.wp_mono (converseGenerate_spec hc hu hmodel hkey) ?_
    fun _ _ ht => ht.spoken
  rintro ⟨prepared, generated⟩ v hv
  exact converseReply_spec hv request model prepared generated

-- ================================================================== results

/-- What an executor may rely on in a result. -/
structure ExecutorSafe (c : Config) (request : ConversationRequest)
    (r : GenerationResult) : Prop where
  calls : r.toolCalls ≠ [] → r.errorCode = .None ∧ r.finishReason = .Stop
    ∧ request.toolChoice ≠ qs "none"
    ∧ (request.parallelToolCalls = false → r.toolCalls.length = 1)
  each : ∀ call ∈ r.toolCalls, CallSafe c request call
  distinct : (r.toolCalls.map callId).Nodup
  required : request.toolChoice = qs "required" → r.succeeded →
    r.toolCalls ≠ []
  failed : r.errorCode ≠ .None → r.toolCalls = [] ∧ r.reasoning = []

theorem executorSafe_failure (request : ConversationRequest)
    (result : GenerationResult) (error : Error) :
    ExecutorSafe c request (failure result error) :=
  ⟨fun hne => absurd rfl hne, by simp [failure], List.nodup_nil,
    fun _ hyes => absurd hyes (not_succeeded_failure result error),
    fun _ => ⟨rfl, rfl⟩⟩

theorem Replied.executorSafe {request : ConversationRequest} {t₀ t : Turn}
    (h : Replied c callback request t₀ t) :
    ExecutorSafe c request t.result := by
  refine ⟨fun hne => ⟨h.unfailed, h.finished, fun hnone => ?_,
    fun hsingle => ?_⟩,
    h.calls.each, h.calls.distinct, fun hrequired _ =>
      h.calls.required hrequired,
    fun hfailed => absurd h.unfailed hfailed⟩
  · exact hne (h.calls.allowed hnone)
  · have hle := h.calls.single hsingle
    have hpos := List.length_pos_iff.2 hne
    omega

/-- The generation of a conversation was cut off by its token limit, and
not by a stop string. -/
def Overran (c : Config) (env : Env) (callback : Option StreamCallback)
    (request : ConversationRequest) (t : Turn) : Prop :=
  ∃ model u prepared generated v, converseOpen c env request t = (.ok model, u)
    ∧ converseGenerate c env callback request model u
      = (.ok (prepared, generated), v)
    ∧ generated.finishReason = .Length ∧ v.stop.stopped = false

/-- A reply that was cut off is refused, or the request was cancelled. -/
theorem converseBody_overran {request : ConversationRequest} {t : Turn}
    (h : Overran c env callback request t) :
    ∃ e t', converseBody c env callback request t = (.error (.error e), t')
      ∧ e.code ≠ .None := by
  obtain ⟨model, u, prepared, generated, v, hopen, hgenerate,
    hlength, hstop⟩ := h
  have hbody : converseBody c env callback request t
      = converseReply c env callback request model prepared generated v := by
    unfold converseBody
    rw [Exec.bind_apply_ok hopen, Exec.bind_apply_ok hgenerate]
  rw [hbody]
  unfold converseReply
  cases hcancelled : env.cancelled .afterGenerate with
  | true =>
      refine ⟨⟨.Cancelled, qs "Request cancelled"⟩, v, ?_, by simp⟩
      refine Exec.bind_apply_error ?_
      unfold Turn.lift Env.throwIfCancelled
      rw [hcancelled]
      rfl
  | false =>
      have hlive : Turn.lift (env.throwIfCancelled .afterGenerate) v
          = (.ok (), v) := by
        unfold Turn.lift Env.throwIfCancelled
        rw [hcancelled]
        rfl
      rw [Exec.bind_apply_ok hlive, Exec.bind_apply_ok (Exec.modify_apply _ v)]
      have hstatus : ∀ w : Turn,
        Turn.lift (require (generated.finishReason = .Stop
          ∨ generated.finishReason = .Length) .RuntimeFailure
          "Runtime returned an invalid terminal status") w = (.ok (), w) := by
        intro w
        unfold Turn.lift require
        rw [if_pos (Or.inr hlength)]
        rfl
      rw [Exec.bind_apply_ok (hstatus _), Exec.bind_apply_ok
        (Exec.modify_apply _ _),
        Exec.bind_apply_ok (Exec.get_apply _)]
      -- the finish reason on record is that of the generation
      let w : Turn := { v with
        raw := v.raw ++ v.stop.finish.1
        stop := v.stop.finish.2
        result := { v.result with
          usage := { v.result.usage with
            generatedTokens := generated.generatedTokens
            cachedTokens := generated.cachedTokens }
          finishReason := if v.stop.stopped then .Stop
            else generated.finishReason } }
      have hreason : w.result.finishReason = .Length := by
        show (if v.stop.stopped then FinishReason.Stop
          else generated.finishReason) = _
        rw [hstop, hlength]
        rfl
      have hthrown : Turn.lift (require (w.result.finishReason ≠ .Length)
          .ProtocolError
          "Structured response reached the output limit before a complete turn") w
          = (.error (err .ProtocolError
            "Structured response reached the output limit before a complete turn"),
            w) := by
        unfold Turn.lift require
        rw [if_neg fun hne => hne hreason]
        rfl
      exact ⟨_, w, Exec.bind_apply_error hthrown, by simp⟩

/-- A context is dropped. -/
theorem Spoken.erase {t₀ t : Turn} (h : Spoken c callback t₀ t)
    (key : QString) :
    Spoken c callback t₀ { t with state := { t.state with
      cache := t.state.cache.erase key } } :=
  ⟨h.inTurn.stepped (stepped_erase h.inTurn.sound key) rfl rfl rfl, h.sessions,
    h.told.congr rfl rfl⟩

/-- The body and its handler. The handler clears what a reply would have left,
so a failure carries no calls. -/
theorem converseAttempt_spec (hc : c.Honest) {t : Turn}
    (h : Talking c callback t t) (hlease : t.leasedModel = [])
    (request : ConversationRequest) :
    ∃ t', tryCatch (converseBody c env callback request) converseFailed t
        = (.ok (), t')
      ∧ Spoken c callback t t' ∧ ExecutorSafe c request t'.result
      ∧ (t'.result.succeeded → t'.result.finishReason = .Stop)
      ∧ (Overran c env callback request t → t'.result.errorCode ≠ .None) := by
  rcases Exec.wp_cases (converseBody_spec hc h hlease request) with
    ⟨_, t', hrun, hreplied⟩ | ⟨e, t', hrun, hspoken⟩
  · refine ⟨t', Exec.tryCatch_apply_ok hrun, hreplied.spoken,
      hreplied.executorSafe,
      fun _ => hreplied.finished, fun hover => ?_⟩
    obtain ⟨e, t'', herror, -⟩ := converseBody_overran hover
    rw [herror] at hrun
    cases hrun
  · have hin := (hspoken.erase t'.cacheId).inTurn
    refine ⟨_, Exec.tryCatch_apply_error hrun, ⟨?_, hspoken.sessions,
      hspoken.told.congr rfl rfl⟩, executorSafe_failure _ _ _,
      fun hyes => absurd hyes (not_succeeded_failure _ _), fun hover => ?_⟩
    · exact ⟨hin.sound, hin.observed, hin.progress, hin.requestId,
        hin.sessionId⟩
    · obtain ⟨e', t'', herror, hcode⟩ := converseBody_overran hover
      rw [herror] at hrun
      injection hrun with he _
      injection he with he
      subst he
      exact hcode

/-- A conversation: it always settles, its lease is given back, sessions
are not touched, and its calls are safe to execute. -/
theorem converse_spec (hc : c.Honest) {s : State} (h : s.Sound c noLease)
    (hobs : Observed s) (env : Env) (requestId : QString)
    (request : ConversationRequest) (callback : Option StreamCallback) :
    ∃ o s', converse c env requestId request callback s = (.ok o, s')
      ∧ s'.Sound c noLease ∧ Observed s' ∧ (∃ id, Progress (balanced id) s s')
      ∧ s'.sessions = s.sessions
      ∧ Reported callback requestId request.contextId o
      ∧ ExecutorSafe c request o.result
      ∧ (o.result.succeeded → o.result.finishReason = .Stop)
      ∧ (Overran c env callback request (converseStart requestId request s) →
        o.result.errorCode ≠ .None) := by
  let t₀ : Turn := converseStart requestId request s
  have h₀ : Talking c callback t₀ t₀ :=
    ⟨InTurn.start h hobs rfl, rfl, ⟨fun _ => rfl, fun _ => rfl, by
      simp [t₀, converseStart]⟩, rfl, rfl⟩
  obtain ⟨t, hrun, hspoken, hsafe, hstop, hover⟩ :=
    converseAttempt_spec hc h₀ rfl request
  -- a context without a name goes
  obtain ⟨s₁, hdrop, hspoken₁⟩ : ∃ s₁, dropUnnamed request t
      = (.ok (), { t with state := s₁ })
      ∧ Spoken c callback t₀ { t with state := s₁ } := by
    unfold dropUnnamed
    rw [Exec.bind_apply_ok (Exec.get_apply t)]
    by_cases hnamed : request.contextId = []
    · rw [if_pos hnamed]
      exact ⟨_, rfl, hspoken.erase t.cacheId⟩
    · rw [if_neg hnamed]
      exact ⟨t.state, rfl, hspoken⟩
  obtain ⟨s₂, hback, hended, hsessions, -, -, -⟩ :=
    giveBack_spec hspoken₁.inTurn env
  have htold : Told callback { t with state := s₂ } :=
    hspoken₁.told.congr rfl rfl
  obtain ⟨events, hfinish, hreported⟩ := finish_spec htold
  have hids : t.result.requestId = requestId
      ∧ t.result.sessionId = request.contextId :=
    ⟨hspoken.inTurn.requestId, hspoken.inTurn.sessionId⟩
  refine ⟨⟨events, t.result⟩, s₂, ?_, hended.sound, hended.observed,
    hended.progress, hsessions.trans hspoken₁.sessions, ?_,
      hsafe, hstop, hover⟩
  · have hturn : converseTurn c env callback request t₀
        = (.ok (), { t with state := s₂, delivered := events }) := by
      unfold converseTurn
      rw [Exec.bind_apply_ok hrun, Exec.bind_apply_ok hdrop,
        Exec.bind_apply_ok hback]
      exact hfinish
    unfold converse settle
    simp only [hturn, t₀]
  · rw [← hids.1, ← hids.2]
    exact hreported

end LocalLLM
