/-
What the steps of a task do to the worker's state.

Between taking and returning its lease a task changes sessions and the
cache, and never the models. Each such step is one lemma here, and all of
them have one conclusion, `Stepped`: the invariant holds under the same
leases, models and listing are as they were, and the trace has grown
without leases or faults.

A cache key stands for one model (`Keyed.unique`): a session id has no
colon, a conversation key has one, and the model can be read off either.
-/
import LocalLLM.Proofs.Leases
import LocalLLM.Service.Service

namespace LocalLLM

open Std

-- =============================================================== the trace

/-- A lease taken or given back. -/
def Event.isLease : Event → Bool
  | .acquired _ => true
  | .released _ => true
  | _ => false

/-- No fault, and no eviction of a model in use. -/
def Event.fine : Event → Bool
  | .fault _ => false
  | .evicting _ active => active == 0
  | _ => true

/-- The trace since `s₀` has the leases `leases`, in this order, and only
fine events. -/
def Progress (leases : List Event) (s₀ s : State) : Prop :=
  ∃ new, s.trace = s₀.trace ++ new ∧ new.filter Event.isLease = leases
    ∧ ∀ event ∈ new, event.fine = true

theorem Progress.refl (s : State) : Progress [] s s :=
  ⟨[], by simp, rfl, by simp⟩

theorem Progress.trans {leases leases' : List Event} {s t u : State}
    (h : Progress leases s t) (h' : Progress leases' t u) :
    Progress (leases ++ leases') s u := by
  obtain ⟨new, hnew, hleases, hfine⟩ := h
  obtain ⟨new', hnew', hleases', hfine'⟩ := h'
  refine ⟨new ++ new', by rw [hnew', hnew, List.append_assoc],
    by rw [List.filter_append, hleases, hleases'], fun event hev => ?_⟩
  rcases List.mem_append.1 hev with hev | hev
  · exact hfine event hev
  · exact hfine' event hev

/-- Quiet growth is progress without leases. -/
theorem Grew.progress {loud : List Event} {s s' : State} (h : Grew loud s s')
    (hfine : ∀ event ∈ loud, event.fine = true) :
    Progress (loud.filter Event.isLease) s s' := by
  obtain ⟨new, hnew, rfl⟩ := h
  refine ⟨new, hnew, ?_, fun event hev => ?_⟩
  · rw [List.filter_filter]
    refine List.filter_congr fun event _ => ?_
    cases event <;> rfl
  · cases hquiet : event.quiet with
    | false => exact hfine event (List.mem_filter.2 ⟨hev, by rw [hquiet]; rfl⟩)
    | true =>
        cases event with
        | evicting id active => exact hquiet
        | loadFailed id => rfl
        | _ => cases hquiet

/-- One event more. -/
theorem Progress.logged (s : State) {event : Event}
    (hlease : event.isLease = false) (hfine : event.fine = true) :
    Progress [] s { s with trace := s.trace ++ [event] } :=
  ⟨[event], rfl, by simp [hlease], by simp [hfine]⟩

-- ================================================================ the keys

theorem conversation_colon {modelId key : QString}
    (h : IsConversation modelId key) : qc ':' ∈ key := by
  obtain ⟨-, digest, rfl⟩ := h
  simp

theorem IsConversation.unique {modelId modelId' key : QString}
    (h : IsConversation modelId key) (h' : IsConversation modelId' key) :
    modelId = modelId' := by
  have hread : ∀ id digest : QString, qc ':' ∉ id →
      (id ++ ([qc ':'] ++ digest)).takeWhile (· != qc ':') = id := by
    intro id digest hid
    rw [List.takeWhile_append_of_pos]
    · simp
    · intro u hu
      have hne : u ≠ qc ':' := fun heq => hid (heq ▸ hu)
      simp [hne]
  obtain ⟨hv, digest, hkey⟩ := h
  obtain ⟨hv', digest', hkey'⟩ := h'
  rw [hkey, List.append_assoc, List.append_assoc, List.append_assoc,
    List.append_assoc] at hkey'
  have hcancel := List.append_cancel_left hkey'
  rw [← hread modelId digest (validId_no_colon hv), hcancel,
    hread modelId' digest' (validId_no_colon hv')]

variable {c : Config} {held : Held} {env : Env} {s : State}

/-- A session id is a UUID. -/
theorem Grounded.session_no_colon (hc : c.Honest) (h : Grounded c s)
    {id modelId : QString} (hcreated : .sessionCreated id modelId ∈ s.trace) :
    qc ':' ∉ id := by
  obtain ⟨n, -, rfl⟩ := h.created id modelId hcreated
  exact hc.uuid_no_colon n

/-- A key stands for one model. -/
theorem Keyed.unique (hc : c.Honest) (h : Grounded c s)
    {key modelId modelId' : QString} (hk : Keyed s key modelId)
    (hk' : Keyed s key modelId') : modelId = modelId' := by
  rcases hk with ⟨session, hfind, rfl⟩ | hconv
  · have hcolon := h.session_no_colon hc (h.sessions key session hfind).2.2
    rcases hk' with ⟨session', hfind', rfl⟩ | hconv'
    · rw [hfind] at hfind'
      injection hfind' with hfind'
      rw [hfind']
    · exact absurd (conversation_colon hconv') hcolon
  · rcases hk' with ⟨session', hfind', rfl⟩ | hconv'
    · exact absurd (conversation_colon hconv)
        (h.session_no_colon hc (h.sessions key session' hfind').2.2)
    · exact hconv.unique hconv'

-- =============================================================== the steps

/-- A step that leaves the models alone. -/
structure Stepped (c : Config) (held : Held) (s s' : State) : Prop where
  sound : s'.Sound c held
  models : s'.models = s.models
  observed : s'.observed = s.observed
  progress : Progress [] s s'

theorem Stepped.refl (h : s.Sound c held) : Stepped c held s s :=
  ⟨h, rfl, rfl, Progress.refl s⟩

theorem Stepped.trans {t u : State} (h : Stepped c held s t)
    (h' : Stepped c held t u) : Stepped c held s u :=
  ⟨h'.sound, h'.models.trans h.models, h'.observed.trans h.observed,
    h.progress.trans h'.progress⟩

theorem Stepped.observed_iff {s' : State} (h : Stepped c held s s') :
    Observed s' ↔ Observed s := by
  unfold Observed
  rw [h.models, h.observed]

/-- Entries of the cache are dropped or used. -/
theorem stepped_cache (h : s.Sound c held) {cache : ContextCacheManager}
    (hbounded : cache.Bounded c)
    (hsub : ∀ (k : QString) (e : CacheEntry), cache.entries[k]? = some e →
      ∃ e', s.cache.entries[k]? = some e' ∧ e.modelId = e'.modelId
        ∧ e.reservedTokens = e'.reservedTokens ∧ e.context = e'.context
        ∧ e.weights = e'.weights) :
    Stepped c held s { s with cache } := by
  refine ⟨⟨h.models, { h.grounded with
    weights := fun k e hk => ?_
    keyed := fun k e hk => ?_
    bounded := hbounded }⟩, rfl, rfl, [], by simp, rfl, by simp⟩
  · obtain ⟨e', he', hid, htokens, hcontext, hweights⟩ := hsub k e hk
    rw [hid, htokens, hcontext, hweights]
    exact h.grounded.weights k e' he'
  · obtain ⟨e', he', hid, -⟩ := hsub k e hk
    rw [hid]
    exact h.grounded.keyed k e' he'

/-- A context is dropped. -/
theorem stepped_erase (h : s.Sound c held) (key : QString) :
    Stepped c held s { s with cache := s.cache.erase key } := by
  refine stepped_cache h (h.grounded.bounded.erase key) fun k e hk => ?_
  rw [ContextCacheManager.find_erase] at hk
  split at hk
  · cases hk
  · exact ⟨e, hk, rfl, rfl, rfl, rfl⟩

/-- The contexts of a model are dropped. -/
theorem stepped_eraseModel (h : s.Sound c held) (modelId : QString) :
    Stepped c held s { s with cache := s.cache.eraseModel modelId } := by
  refine stepped_cache h (h.grounded.bounded.eraseModel modelId)
    fun k e hk => ?_
  rw [ContextCacheManager.find_eraseModel] at hk
  exact ⟨e, (Option.filter_eq_some_iff.1 hk).1, rfl, rfl, rfl, rfl⟩

/-- The messages of a session are replaced. -/
theorem stepped_setMessages (h : s.Sound c held) {id : QString}
    {session : SessionSnapshot}
    (hfind : s.sessions.sessions[id]? = some session)
    (messages : List ChatMessage) :
    Stepped c held s
      { s with sessions := s.sessions.setMessages session messages } := by
  obtain ⟨hid, hvalid, hcreated⟩ := h.grounded.sessions id session hfind
  have hfind' : ∀ k : QString,
      (s.sessions.setMessages session messages).sessions[k]?
        = if id = k then some { session with messages }
          else s.sessions.sessions[k]? := by
    intro k
    unfold SessionManager.setMessages
    dsimp only
    rw [Maps.find_insert, hid]
  refine ⟨⟨h.models, { h.grounded with
    keyed := fun k e hk => ?_
    sessions := fun k session' hk => ?_ }⟩, rfl, rfl,
      [], by simp, rfl, by simp⟩
  · rcases h.grounded.keyed k e hk with ⟨session', hk', hmodel⟩ | hconv
    · refine Or.inl ?_
      dsimp only
      rw [hfind']
      by_cases heq : id = k
      · subst heq
        rw [hfind] at hk'
        injection hk' with hk'
        subst hk'
        exact ⟨_, if_pos rfl, hmodel⟩
      · exact ⟨session', by rw [if_neg heq, hk'], hmodel⟩
    · exact Or.inr hconv
  · dsimp only at hk
    rw [hfind'] at hk
    split at hk
    case isTrue heq =>
      injection hk with hk
      subst hk heq
      exact ⟨hid, hvalid, hcreated⟩
    case isFalse => exact h.grounded.sessions k session' hk

/-- A session and its context go together. -/
theorem stepped_close (h : s.Sound c held) (id : QString) :
    Stepped c held s { s with
      sessions := { s.sessions with sessions := s.sessions.sessions.erase id }
      cache := s.cache.erase id } := by
  have hcache := stepped_erase h id
  refine ⟨⟨h.models, { hcache.sound.grounded with
    keyed := fun k e hk => ?_
    sessions := fun k session hk => ?_ }⟩, rfl, rfl, [], by simp, rfl, by simp⟩
  · have hk' : (s.cache.erase id).entries[k]? = some e := hk
    rw [ContextCacheManager.find_erase] at hk'
    split at hk'
    case isTrue => cases hk'
    case isFalse hne =>
      rcases h.grounded.keyed k e hk' with ⟨session, hsession, hmodel⟩ | hconv
      · refine Or.inl ⟨session, ?_, hmodel⟩
        dsimp only
        rw [Maps.find_erase_ne _ hne, hsession]
      · exact Or.inr hconv
  · dsimp only at hk
    rw [Maps.find_erase] at hk
    split at hk
    · cases hk
    · exact h.grounded.sessions k session hk

/-- A UUID is drawn. -/
theorem stepped_issued (h : s.Sound c held) :
    Stepped c held s { s with issued := s.issued + 1 } :=
  ⟨⟨h.models, { h.grounded with
    created := fun id modelId hc => by
      obtain ⟨n, hn, hid⟩ := h.grounded.created id modelId hc
      exact ⟨n, Nat.lt_succ_of_lt hn, hid⟩ }⟩, rfl, rfl, [], by simp, rfl,
    by simp⟩

-- ================================================================ references

/-- A reference that resolves names the model of its URI. -/
theorem resolve_ok {m : ModelManager} {reference : QString}
    {record : ModelRecord}
    (h : ModelManager.resolve c env m reference = .ok record) :
    ∃ uri resolved, c.registry.canonical reference = .ok uri
      ∧ modelUri record.manifest.id = .ok uri
      ∧ c.catalog.resolve env.probe uri = .ok resolved
      ∧ record.manifest = resolved.record.manifest := by
  unfold ModelManager.resolve at h
  obtain ⟨uri, huri, h⟩ := bind_eq_ok.1 h
  obtain ⟨resolved, hresolved, h⟩ := bind_eq_ok.1 h
  injection h with h
  subst h
  obtain ⟨id, hid, hmodelUri⟩ := canonical_ok huri
  refine ⟨uri, resolved, huri, ?_, hresolved, rfl⟩
  rw [ModelCatalog.resolve_id hid hresolved, hmodelUri]

theorem resolve_valid {m : ModelManager} {reference : QString}
    {record : ModelRecord}
    (h : ModelManager.resolve c env m reference = .ok record) :
    validId record.manifest.id = true := by
  obtain ⟨uri, -, -, huri, -⟩ := resolve_ok h
  exact (modelUri_ok huri).1

-- ============================================================= new sessions

theorem create_ok {sessions sessions' : SessionManager} {limit : Nat}
    {id modelId system : QString}
    (h : sessions.create limit id modelId system = .ok sessions') :
    ∃ messages, sessions'
      = { sessions with
          sessions := sessions.sessions.insertIfNew id
              ⟨id, modelId, messages⟩ } := by
  unfold SessionManager.create at h
  obtain ⟨_, -, h⟩ := bind_eq_ok.1 h
  injection h with h
  exact ⟨_, h.symm⟩

/-- A UUID that is drawn is the id of no session, past or present. -/
theorem fresh_session (hc : c.Honest) (h : Grounded c s) :
    s.sessions.sessions[c.uuid s.issued]? = none
      ∧ ∀ modelId, .sessionCreated (c.uuid s.issued) modelId ∉ s.trace := by
  have hfresh : ∀ modelId,
      .sessionCreated (c.uuid s.issued) modelId ∉ s.trace := by
    intro modelId hcreated
    obtain ⟨n, hn, hid⟩ := h.created _ _ hcreated
    have := hc.uuid_fresh _ _ hid
    omega
  refine ⟨?_, hfresh⟩
  cases hfind : s.sessions.sessions[c.uuid s.issued]? with
  | none => rfl
  | some session => exact absurd (h.sessions _ session hfind).2.2 (hfresh _)

/-- A new session: its id is the UUID that was next, and every other
session is as it was. -/
theorem newSession_spec (hc : c.Honest) (h : s.Sound c held)
    {modelId : QString} (hvalid : validId modelId = true) (system : QString) :
    Exec.wp (newSession c modelId system)
      (fun id s' => Stepped c held s s' ∧ id = c.uuid s.issued
        ∧ s.sessions.sessions[id]? = none ∧ s'.issued = s.issued + 1
        ∧ s'.cache = s.cache
        ∧ ∃ messages, s'.sessions.sessions
          = s.sessions.sessions.insert id ⟨id, modelId, messages⟩)
      (fun _ s' => s' = s) s := by
  unfold newSession
  rw [Exec.wp_bind, Exec.wp_get, Exec.wp_bind, Exec.wp_ofExcept]
  refine ⟨fun sessions hcreate => ?_, fun _ _ => rfl⟩
  obtain ⟨messages, rfl⟩ := create_ok hcreate
  obtain ⟨hnone, hfresh⟩ := fresh_session hc h.grounded
  rw [Exec.wp_bind, Exec.wp_set, Exec.wp_pure]
  refine ⟨⟨⟨h.models, ?_⟩, rfl, rfl, _, rfl, rfl, by simp [Event.fine]⟩, rfl,
    hnone, rfl, rfl, messages, Maps.insertIfNew_of_none _ _ hnone⟩
  have hmem : ∀ id m, Event.sessionCreated id m
      ∈ s.trace ++ [.sessionCreated (c.uuid s.issued) modelId] ↔
      Event.sessionCreated id m ∈ s.trace
        ∨ (id = c.uuid s.issued ∧ m = modelId) := by
    intro id m
    simp
  refine ⟨h.grounded.weights, fun k e hk => ?_, fun k session hk => ?_,
    fun id m hcr => ?_, fun id m m' hcr hcr' => ?_, fun k m hu => ?_,
    h.grounded.bounded⟩
  · rcases h.grounded.keyed k e hk with ⟨session, hsession, hmodel⟩ | hconv
    · refine Or.inl ⟨session, ?_, hmodel⟩
      dsimp only
      rw [Maps.find_insertIfNew _ _ _ hnone]
      have hne : ¬ c.uuid s.issued = k := by
        rintro rfl
        rw [hnone] at hsession
        cases hsession
      rw [if_neg hne, hsession]
    · exact Or.inr hconv
  · dsimp only at hk
    rw [Maps.find_insertIfNew _ _ _ hnone] at hk
    rw [hmem]
    split at hk
    case isTrue heq =>
      injection hk with hk
      subst hk heq
      exact ⟨rfl, hvalid, Or.inr ⟨rfl, rfl⟩⟩
    case isFalse =>
      obtain ⟨hid, hv, hcr⟩ := h.grounded.sessions k session hk
      exact ⟨hid, hv, Or.inl hcr⟩
  · rcases (hmem id m).1 hcr with hold | ⟨rfl, -⟩
    · obtain ⟨n, hn, hid⟩ := h.grounded.created id m hold
      exact ⟨n, Nat.lt_succ_of_lt hn, hid⟩
    · exact ⟨s.issued, Nat.lt_succ_self _, rfl⟩
  · rcases (hmem id m).1 hcr with hold | ⟨rfl, rfl⟩
    · rcases (hmem id m').1 hcr' with hold' | ⟨rfl, rfl⟩
      · exact h.grounded.bound id m m' hold hold'
      · exact absurd hold (hfresh m)
    · rcases (hmem _ m').1 hcr' with hold' | ⟨-, rfl⟩
      · exact absurd hold' (hfresh m')
      · rfl
  · have hold : Event.contextUsed k m ∈ s.trace := by
      rcases List.mem_append.1 hu with hold | hnew
      · exact hold
      · simp at hnew
    rcases h.grounded.used k m hold with hcr | hconv
    · exact Or.inl ((hmem k m).2 (Or.inl hcr))
    · exact Or.inr hconv

-- ================================================================= contexts

/-- A context is asked for under a key of its model. What is found was
created over the weights that are loaded now. -/
theorem useContext_spec (hc : c.Honest) (h : s.Sound c held) {key : QString}
    {model : LoadedModel}
    (hmodel : s.models.runtimes.models[model.spec.id]? = some model)
    (hkey : Keyed s key model.spec.id) :
    Exec.wp (useContext c env key model)
      (fun context s' => Stepped c held s s' ∧ s'.sessions = s.sessions
        ∧ s'.issued = s.issued
        ∧ ∃ probe, model.runtime.createContext probe = .ok (some context))
      (fun _ s' => Stepped c held s s' ∧ s'.sessions = s.sessions
        ∧ s'.issued = s.issued) s := by
  unfold useContext
  rw [Exec.wp_bind]
  refine Exec.wp_of_ok (log_apply _ s) ?_
  rw [Exec.wp_zoom]
  -- the use is recorded for a key of this model
  let t : State :=
    { s with trace := s.trace ++ [.contextUsed key model.spec.id] }
  have hstep : Stepped c held s t := by
    refine ⟨⟨h.models, { h.grounded with
      sessions := fun id session hid => ?_
      created := fun id m hcr => ?_
      bound := fun id m m' hcr hcr' => ?_
      used := fun k m hu => ?_ }⟩, rfl, rfl, Progress.logged s rfl rfl⟩
    · obtain ⟨hsid, hv, hcr⟩ := h.grounded.sessions id session hid
      exact ⟨hsid, hv, List.mem_append_left _ hcr⟩
    · exact h.grounded.created id m (by simpa [t] using hcr)
    · exact h.grounded.bound id m m' (by simpa [t] using hcr)
        (by simpa [t] using hcr')
    · rcases List.mem_append.1 hu with hold | hnew
      · exact (h.grounded.used k m hold).imp (List.mem_append_left _) id
      · obtain ⟨rfl, rfl⟩ : k = key ∧ m = model.spec.id := by simpa using hnew
        rcases hkey with ⟨session, hfind, hm⟩ | hconv
        · obtain ⟨-, -, hcr⟩ := h.grounded.sessions k session hfind
          rw [hm] at hcr
          exact Or.inl (List.mem_append_left _ hcr)
        · exact Or.inr hconv
  obtain ⟨info, entry, request, hres⟩ := h.models.of_model hmodel
  have hpos : 0 < model.spec.contextTokens := by
    have := hres.matched.two_le_context
    omega
  refine Exec.wp_mono (ContextCacheManager.acquire_spec
    hstep.sound.grounded.bounded hpos) ?_ ?_
  · rintro context cache ⟨hbounded, ⟨e, hfind, hcontext, hcache⟩
      | ⟨-, hcreated, r, hsub, hcache⟩⟩
    · -- an entry under this key is one of this model
      have hid := Keyed.unique hc h.grounded
        (h.grounded.keyed key e hfind) hkey
      obtain ⟨model', hmodel', -, -, probe, hprobe⟩ :=
        h.grounded.weights key e hfind
      rw [hid, hmodel] at hmodel'
      injection hmodel' with hmodel'
      refine ⟨hstep.trans (stepped_cache hstep.sound hbounded
        fun k e' hk => ?_),
        rfl, rfl, probe, ?_⟩
      · rw [hcache] at hk
        have hk' : (t.cache.entries.insert key
          { e with access := t.cache.clock + 1 })[k]? = some e' := hk
        rw [Maps.find_insert] at hk'
        split at hk'
        case isTrue heq =>
          injection hk' with hk'
          subst hk' heq
          exact ⟨e, hfind, rfl, rfl, rfl, rfl⟩
        case isFalse => exact ⟨e', hk', rfl, rfl, rfl, rfl⟩
      · rw [hmodel', hprobe, hcontext]
    · -- a new entry over the weights that are loaded
      refine ⟨hstep.trans ⟨⟨hstep.sound.models, { hstep.sound.grounded with
        weights := fun k e hk => ?_
        keyed := fun k e hk => ?_
        bounded := hbounded }⟩, rfl, rfl, [], by simp [t], rfl, by simp⟩,
          rfl, rfl,
        env.probe, hcreated⟩
      · rw [hcache] at hk
        have hk' :
          (r.entries.insert key ⟨model.spec.id, model.spec.contextTokens,
          r.clock + 1, context, model.serial⟩)[k]? = some e := hk
        rw [Maps.find_insert] at hk'
        split at hk'
        · injection hk' with hk'
          subst hk'
          exact ⟨model, hmodel, rfl, rfl, env.probe, hcreated⟩
        · exact h.grounded.weights k e (hsub k e hk')
      · rw [hcache] at hk
        have hk' :
          (r.entries.insert key ⟨model.spec.id, model.spec.contextTokens,
          r.clock + 1, context, model.serial⟩)[k]? = some e := hk
        rw [Maps.find_insert] at hk'
        split at hk'
        case isTrue heq =>
          injection hk' with hk'
          subst hk' heq
          exact hkey
        case isFalse => exact h.grounded.keyed k e (hsub k e hk')
  · rintro _ cache ⟨hbounded, hsub⟩
    exact ⟨hstep.trans (stepped_cache hstep.sound hbounded fun k e hk =>
      ⟨e, hsub k e hk, rfl, rfl, rfl, rfl⟩), rfl, rfl⟩

end LocalLLM
