/-
The context cache (`service/Managers.cpp`): contexts kept from one request
to the next, bounded in number and in tokens.

A context that is missing is made room for first, by dropping the entries
used longest ago, and created afterwards: when its creation throws, the
room stays empty (`acquire` is an `Exec`, so the drops are kept).

The field `weights` of an entry has no counterpart in the source. It holds
the serial number of the load whose weights the context was created over.
-/
import LocalLLM.Service.RuntimeManager

namespace LocalLLM

open Std

/-- `ContextCacheManager::Entry`. -/
structure CacheEntry where
  modelId : QString
  reservedTokens : Int
  access : Nat
  context : RuntimeContext
  weights : Nat

structure ContextCacheManager where
  reserved : Int := 0
  clock : Nat := 0
  evictions : Nat := 0
  entries : ExtTreeMap QString CacheEntry := ∅

namespace ContextCacheManager

/-- `erase`. -/
def erase (m : ContextCacheManager) (id : QString) : ContextCacheManager :=
  match m.entries[id]? with
  | some e => { m with
      reserved := m.reserved - e.reservedTokens
      entries := m.entries.erase id }
  | none => m

/-- The entries of a model, summed as `eraseModel` meets them. -/
def tokensOf (m : ContextCacheManager) (modelId : QString) : Int :=
  (((m.entries.filter fun _ e => e.modelId == modelId).toList).map
    fun p => p.2.reservedTokens).sum

/-- `eraseModel`. -/
def eraseModel (m : ContextCacheManager) (modelId : QString) :
    ContextCacheManager :=
  { m with
    reserved := m.reserved - m.tokensOf modelId
    evictions := m.evictions
      + (m.entries.filter fun _ e => e.modelId == modelId).size
    entries := m.entries.filter fun _ e => e.modelId != modelId }

/-- `std::min_element` by access. -/
def leastOf : List (QString × CacheEntry) → Option (QString × CacheEntry)
  | [] => none
  | p :: rest =>
      match leastOf rest with
      | none => some p
      | some q => if q.2.access < p.2.access then some q else some p

/-- The loop of `acquire`. Every turn drops an entry, so as many turns as
there are entries are enough. -/
def makeRoom (maxCount maxTokens needed : Int) :
    Nat → ContextCacheManager → ContextCacheManager
  | 0, m => m
  | turns + 1, m =>
      if maxCount ≤ m.entries.size ∨ m.reserved > maxTokens - needed then
        match leastOf m.entries.toList with
        | none => m
        | some (oldest, _) =>
            let m := m.erase oldest
            makeRoom maxCount maxTokens needed turns
              { m with evictions := m.evictions + 1 }
      else m

/-- A new entry for a context of a model. -/
def inserted (m : ContextCacheManager) (id : QString) (model : LoadedModel)
    (context : RuntimeContext) : ContextCacheManager :=
  { m with
    reserved := m.reserved + model.spec.contextTokens
    clock := m.clock + 1
    entries := m.entries.insert id ⟨model.spec.id, model.spec.contextTokens,
      m.clock + 1, context, model.serial⟩ }

/-- The use of an entry that is there. -/
def used (m : ContextCacheManager) (id : QString) (e : CacheEntry) :
    ContextCacheManager :=
  { m with
    clock := m.clock + 1
    entries := m.entries.insert id { e with access := m.clock + 1 } }

/-- `acquire`. -/
def acquire (c : Config) (env : Env) (id : QString) (model : LoadedModel) :
    Exec Exn ContextCacheManager RuntimeContext := do
  let m ← get
  match m.entries[id]? with
  | some e => do
      set (m.used id e)
      return e.context
  | none => do
      let needed := model.spec.contextTokens
      Exec.ofExcept (require (needed ≤ c.maxCachedContextTokens) .ResourceLimit
        "Model context exceeds cache token budget")
      set (makeRoom c.maxCachedContexts c.maxCachedContextTokens needed
        m.entries.size m)
      match ← Exec.ofExcept (model.runtime.createContext env.probe) with
      | none => throw (err .RuntimeFailure "Runtime returned a null context")
      | some context => do
          modify fun m => m.inserted id model context
          return context

-- ================================================================== bounds

/-- The counter of reserved tokens is the sum over the entries, and it and
the number of entries are within their bounds. -/
structure Bounded (c : Config) (m : ContextCacheManager) : Prop where
  positive : ∀ (key : QString) (e : CacheEntry), m.entries[key]? = some e →
    0 < e.reservedTokens
  reserved_eq :
    m.reserved = (Maps.total (fun e => e.reservedTokens.toNat) m.entries : Nat)
  reserved_le : m.reserved ≤ c.maxCachedContextTokens
  count_le : (m.entries.size : Int) ≤ c.maxCachedContexts

variable {c : Config} {m : ContextCacheManager}

theorem erase_of_none {key : QString} (h : m.entries[key]? = none) :
    m.erase key = m := by
  unfold erase
  rw [h]

theorem erase_of_some {key : QString} {e : CacheEntry}
    (h : m.entries[key]? = some e) : m.erase key = { m with
      reserved := m.reserved - e.reservedTokens
      entries := m.entries.erase key } := by
  unfold erase
  rw [h]

/-- Erasing drops the entry of the key and no other. -/
theorem find_erase (m : ContextCacheManager) (key other : QString) :
    (m.erase key).entries[other]?
      = if key = other then none else m.entries[other]? := by
  cases h : m.entries[key]? with
  | none =>
      rw [erase_of_none h]
      by_cases hk : key = other
      · rw [if_pos hk, ← hk, h]
      · rw [if_neg hk]
  | some e =>
      rw [erase_of_some h]
      exact Maps.find_erase m.entries key other

theorem find_eraseModel (m : ContextCacheManager) (modelId key : QString) :
    (m.eraseModel modelId).entries[key]?
      = m.entries[key]?.filter fun e => e.modelId != modelId :=
  Maps.find_filter m.entries _ key

/-- The empty cache. -/
theorem bounded_empty : ({} : ContextCacheManager).Bounded c where
  positive := fun key e h => by simp at h
  reserved_eq := by simp
  reserved_le := by
    have := c.two_le_maxCachedContextTokens
    show (0 : Int) ≤ _
    omega
  count_le := by
    have := c.one_le_maxCachedContexts
    show ((∅ : ExtTreeMap QString CacheEntry).size : Int) ≤ _
    simp
    omega

theorem Bounded.erase (h : m.Bounded c) (key : QString) :
    (m.erase key).Bounded c := by
  cases hfind : m.entries[key]? with
  | none => rwa [erase_of_none hfind]
  | some e =>
      have hpos := h.positive key e hfind
      have htotal := Maps.total_erase (f := fun e : CacheEntry =>
        e.reservedTokens.toNat) hfind
      have hsize := Maps.size_erase_of_some hfind
      have heq := h.reserved_eq
      have hle := h.reserved_le
      have hcount := h.count_le
      rw [erase_of_some hfind]
      refine ⟨fun k e' hk => ?_, ?_, ?_, ?_⟩
      · dsimp only at hk
        rw [Maps.find_erase] at hk
        split at hk
        · cases hk
        · exact h.positive k e' hk
      · dsimp only at htotal ⊢
        omega
      · dsimp only
        omega
      · dsimp only
        omega

theorem sum_reservedTokens : ∀ l : List (QString × CacheEntry),
    (∀ p ∈ l, 0 < p.2.reservedTokens) →
    (l.map fun p => p.2.reservedTokens).sum
      = ((l.map fun p => p.2.reservedTokens.toNat).sum : Nat) := by
  intro l
  induction l with
  | nil => intro _; rfl
  | cons p rest ih =>
      intro hpos
      have hp := hpos p (List.mem_cons_self ..)
      have hrest := ih fun q hq => hpos q (List.mem_cons_of_mem _ hq)
      simp only [List.map_cons, List.sum_cons, hrest]
      push_cast
      omega

theorem Bounded.eraseModel (h : m.Bounded c) (modelId : QString) :
    (m.eraseModel modelId).Bounded c := by
  have hsplit := Maps.total_filter (f := fun e : CacheEntry =>
    e.reservedTokens.toNat) m.entries fun _ e => e.modelId == modelId
  have htokens : m.tokensOf modelId = (Maps.total
      (fun e : CacheEntry => e.reservedTokens.toNat)
      (m.entries.filter fun _ e => e.modelId == modelId) : Nat) := by
    refine sum_reservedTokens _ fun p hp => ?_
    have hfind := ExtTreeMap.mem_toList_iff_getElem?_eq_some.1 hp
    rw [Maps.find_filter] at hfind
    obtain ⟨hfind, -⟩ := Option.filter_eq_some_iff.1 hfind
    exact h.positive _ _ hfind
  have hsize : (m.entries.filter fun _ e => e.modelId != modelId).size
      ≤ m.entries.size := ExtTreeMap.size_filter_le_size
  have heq := h.reserved_eq
  have hle := h.reserved_le
  have hcount := h.count_le
  refine ⟨fun k e hk => ?_, ?_, ?_, ?_⟩
  · rw [find_eraseModel] at hk
    exact h.positive k e (Option.filter_eq_some_iff.1 hk).1
  · show m.reserved - m.tokensOf modelId = _
    rw [htokens, heq, ← hsplit]
    push_cast
    unfold ContextCacheManager.eraseModel
    simp only [bne]
    omega
  · show m.reserved - m.tokensOf modelId ≤ _
    omega
  · show ((m.entries.filter fun _ e => e.modelId != modelId).size : Int) ≤ _
    omega

theorem Bounded.used (h : m.Bounded c) {key : QString} {e : CacheEntry}
    (hfind : m.entries[key]? = some e) : (m.used key e).Bounded c := by
  have htotal := Maps.total_insert_of_some (f := fun e : CacheEntry =>
    e.reservedTokens.toNat) { e with access := m.clock + 1 } hfind
  have hsize := Maps.size_insert_of_some { e with access := m.clock + 1 } hfind
  refine ⟨fun k e' hk => ?_, ?_, h.reserved_le, ?_⟩
  · have hk' : (m.entries.insert key { e with access := m.clock + 1 })[k]?
        = some e' := hk
    rw [Maps.find_insert] at hk'
    split at hk'
    · injection hk' with hk'
      subst hk'
      exact h.positive key e hfind
    · exact h.positive k e' hk'
  · have heq := h.reserved_eq
    unfold ContextCacheManager.used
    dsimp only at htotal ⊢
    omega
  · have hcount := h.count_le
    unfold ContextCacheManager.used
    dsimp only
    omega

theorem leastOf_mem : ∀ (l : List (QString × CacheEntry))
    (p : QString × CacheEntry), leastOf l = some p → p ∈ l := by
  intro l
  induction l with
  | nil => intro p h; cases h
  | cons q rest ih =>
      intro p h
      unfold leastOf at h
      cases hrest : leastOf rest with
      | none =>
          rw [hrest] at h
          injection h with h
          exact h ▸ List.mem_cons_self ..
      | some r =>
          rw [hrest] at h
          dsimp only at h
          split at h
          · injection h with h
            exact h ▸ List.mem_cons_of_mem _ (ih r hrest)
          · injection h with h
            exact h ▸ List.mem_cons_self ..

theorem leastOf_eq_none {l : List (QString × CacheEntry)}
    (h : leastOf l = none) : l = [] := by
  cases l with
  | nil => rfl
  | cons q rest =>
      unfold leastOf at h
      cases hrest : leastOf rest with
      | none => rw [hrest] at h; cases h
      | some r =>
          rw [hrest] at h
          dsimp only at h
          split at h <;> cases h

/-- Making room keeps the bounds and only drops entries, and afterwards
there is room for one more context of `needed` tokens. -/
theorem makeRoom_spec {needed : Int}
    (hneeded : needed ≤ c.maxCachedContextTokens) :
    ∀ (turns : Nat) (m : ContextCacheManager), m.Bounded c →
      m.entries.size ≤ turns →
      let m' := makeRoom c.maxCachedContexts c.maxCachedContextTokens needed
        turns m
      m'.Bounded c
        ∧ (∀ (key : QString) (e : CacheEntry), m'.entries[key]? = some e →
          m.entries[key]? = some e)
        ∧ (m'.entries.size : Int) < c.maxCachedContexts
        ∧ m'.reserved + needed ≤ c.maxCachedContextTokens := by
  have hone := c.one_le_maxCachedContexts
  -- with no entries left there is nothing reserved
  have hempty : ∀ m : ContextCacheManager, m.Bounded c → m.entries.size = 0 →
      (m.entries.size : Int) < c.maxCachedContexts
        ∧ m.reserved + needed ≤ c.maxCachedContextTokens := by
    intro m h hsize
    have hnone := ExtTreeMap.eq_empty_iff_size_eq_zero.2 hsize
    have heq := h.reserved_eq
    rw [hnone, Maps.total_empty] at heq
    constructor
    · omega
    · push_cast at heq
      omega
  intro turns
  induction turns with
  | zero =>
      intro m h hsize
      exact ⟨h, fun _ _ hk => hk, hempty m h (by omega)⟩
  | succ turns ih =>
      intro m h hsize
      unfold makeRoom
      by_cases hfull : c.maxCachedContexts ≤ m.entries.size
          ∨ m.reserved > c.maxCachedContextTokens - needed
      · rw [if_pos hfull]
        cases hleast : leastOf m.entries.toList with
        | none =>
            have hnil := leastOf_eq_none hleast
            have hzero : m.entries.size = 0 := by
              rw [← ExtTreeMap.length_toList, hnil]
              rfl
            exact ⟨h, fun _ _ hk => hk, hempty m h hzero⟩
        | some p =>
            obtain ⟨oldest, e⟩ := p
            have hfind := ExtTreeMap.mem_toList_iff_getElem?_eq_some.1
              (leastOf_mem _ _ hleast)
            have hsmaller := Maps.size_erase_of_some hfind
            have herase := h.erase oldest
            have hentries : (m.erase oldest).entries
                = m.entries.erase oldest := by
              rw [erase_of_some hfind]
            obtain ⟨hb, hsub, hroom⟩ := ih
              { m.erase oldest with
                evictions := (m.erase oldest).evictions + 1 }
              ⟨herase.positive, herase.reserved_eq, herase.reserved_le,
                herase.count_le⟩
              (by dsimp only; rw [hentries]; omega)
            refine ⟨hb, fun key e' hk => ?_, hroom⟩
            have hk' := hsub key e' hk
            dsimp only at hk'
            rw [find_erase] at hk'
            split at hk'
            · cases hk'
            · exact hk'
      · rw [if_neg hfull]
        exact ⟨h, fun _ _ hk => hk, by omega, by omega⟩

theorem Bounded.inserted (h : m.Bounded c) {key : QString}
    (hnew : m.entries[key]? = none) {model : LoadedModel}
    (hpos : 0 < model.spec.contextTokens)
    (hcount : (m.entries.size : Int) < c.maxCachedContexts)
    (hroom : m.reserved + model.spec.contextTokens ≤ c.maxCachedContextTokens)
    (context : RuntimeContext) : (m.inserted key model context).Bounded c := by
  have htotal := Maps.total_insert (f := fun e : CacheEntry =>
    e.reservedTokens.toNat) ⟨model.spec.id, model.spec.contextTokens,
      m.clock + 1, context, model.serial⟩ hnew
  have hsize := Maps.size_insert_of_none (⟨model.spec.id,
    model.spec.contextTokens, m.clock + 1, context, model.serial⟩ : CacheEntry)
    hnew
  have heq := h.reserved_eq
  unfold ContextCacheManager.inserted
  refine ⟨fun k e' hk => ?_, ?_, hroom, ?_⟩
  · dsimp only at hk
    rw [Maps.find_insert] at hk
    split at hk
    · injection hk with hk
      subst hk
      exact hpos
    · exact h.positive k e' hk
  · dsimp only at htotal ⊢
    omega
  · dsimp only
    omega

/-- `acquire` finds the context of its key, or creates one over the model
it is given; besides that it only drops entries. -/
theorem acquire_spec (h : m.Bounded c) {env : Env} {key : QString}
    {model : LoadedModel} (hpos : 0 < model.spec.contextTokens) :
    Exec.wp (acquire c env key model)
      (fun context m' => m'.Bounded c
        ∧ ((∃ e, m.entries[key]? = some e ∧ e.context = context
            ∧ m' = m.used key e)
          ∨ (m.entries[key]? = none
            ∧ model.runtime.createContext env.probe = .ok (some context)
            ∧ ∃ r : ContextCacheManager,
              (∀ (k : QString) (e : CacheEntry), r.entries[k]? = some e →
                m.entries[k]? = some e)
              ∧ m' = r.inserted key model context)))
      (fun _ m' => m'.Bounded c
        ∧ ∀ (k : QString) (e : CacheEntry), m'.entries[k]? = some e →
          m.entries[k]? = some e) m := by
  unfold acquire
  rw [Exec.wp_bind, Exec.wp_get]
  cases hfind : m.entries[key]? with
  | some e => exact ⟨h.used hfind, Or.inl ⟨e, rfl, rfl, rfl⟩⟩
  | none =>
      show Exec.wp (Exec.ofExcept _ >>= _) _ _ m
      rw [Exec.wp_bind, Exec.wp_ofExcept]
      refine ⟨fun _ hneeded => ?_, fun _ _ => ⟨h, fun _ _ hk => hk⟩⟩
      rw [require_eq_ok] at hneeded
      obtain ⟨hb, hsub, hcount, hroom⟩ :=
        makeRoom_spec hneeded m.entries.size m h le_rfl
      rw [Exec.wp_bind, Exec.wp_set, Exec.wp_bind, Exec.wp_ofExcept]
      refine ⟨fun created hcreated => ?_, fun _ _ => ⟨hb, hsub⟩⟩
      cases created with
      | none => exact ⟨hb, hsub⟩
      | some context =>
          have hnew : (makeRoom c.maxCachedContexts c.maxCachedContextTokens
              model.spec.contextTokens m.entries.size m).entries[key]?
              = none := by
            cases hk : (makeRoom c.maxCachedContexts c.maxCachedContextTokens
              model.spec.contextTokens m.entries.size m).entries[key]? with
            | none => rfl
            | some e =>
                rw [hsub key e hk] at hfind
                cases hfind
          exact ⟨hb.inserted hnew hpos hcount hroom context,
            Or.inr ⟨rfl, hcreated, _, hsub, rfl⟩⟩

end ContextCacheManager

end LocalLLM
