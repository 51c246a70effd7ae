/-
The context cache over whole runs.

`Acquired` lists what one `acquire` can do: find its entry, refuse a model
that is too large, or make room and then create a context, which may fail.
Making room drops the entries used longest ago, and no more of them than
it takes (`Shortest`).

# Runs

A run is a list of operations on the empty cache. `Represented` is what
holds after each: the bounds, and that the stamps of the entries are in
the order in which their keys were last acquired.
-/
import LocalLLM.Service.Service

namespace LocalLLM

open Std

namespace ContextCacheManager

variable {c : Config} {m : ContextCacheManager}

-- =========================================================== used longest ago

/-- The entries, the one used longest ago first. -/
def byUse (entries : ExtTreeMap QString CacheEntry) :
    List (QString × CacheEntry) :=
  entries.toList.mergeSort fun p q => decide (p.2.access ≤ q.2.access)

/-- No two entries have the same stamp. -/
def Stamped (entries : ExtTreeMap QString CacheEntry) : Prop :=
  ∀ (k l : QString) (d e : CacheEntry), entries[k]? = some d →
    entries[l]? = some e → d.access = e.access → k = l

/-- Sorting by use rearranges the entries and loses none. -/
theorem byUse_perm (entries : ExtTreeMap QString CacheEntry) :
    (byUse entries).Perm entries.toList :=
  List.mergeSort_perm _ _

theorem mem_byUse {entries : ExtTreeMap QString CacheEntry}
    {p : QString × CacheEntry} :
    p ∈ byUse entries ↔ entries[p.1]? = some p.2 := by
  rw [(byUse_perm entries).mem_iff]
  exact ExtTreeMap.mem_toList_iff_getElem?_eq_some

/-- The entry used longest ago stands first. -/
theorem byUse_sorted (entries : ExtTreeMap QString CacheEntry) :
    (byUse entries).Pairwise fun p q => p.2.access ≤ q.2.access := by
  have h : (byUse entries).Pairwise fun p q =>
      decide (p.2.access ≤ q.2.access) = true := by
    apply List.pairwise_mergeSort
    · intro a b d hab hbd
      simp only [decide_eq_true_eq] at hab hbd ⊢
      omega
    · intro a b
      simp only [Bool.or_eq_true, decide_eq_true_eq]
      omega
  exact h.imp fun hle => of_decide_eq_true hle

theorem length_byUse (entries : ExtTreeMap QString CacheEntry) :
    (byUse entries).length = entries.size := by
  rw [(byUse_perm entries).length_eq, ExtTreeMap.length_toList]

/-- Distinct stamps stay distinct when entries are dropped. -/
theorem Stamped.mono {entries other : ExtTreeMap QString CacheEntry}
    (h : Stamped entries)
    (hsub : ∀ (k : QString) (e : CacheEntry), other[k]? = some e →
      entries[k]? = some e) : Stamped other :=
  fun k l d e hk hl => h k l d e (hsub k d hk) (hsub l e hl)

/-- `min_element` finds the entry used longest ago. Of equal stamps it takes
the first; here the stamps are distinct. -/
theorem leastOf_le {l : List (QString × CacheEntry)} :
    ∀ {p : QString × CacheEntry}, leastOf l = some p →
      ∀ q ∈ l, p.2.access ≤ q.2.access := by
  induction l with
  | nil =>
      intro p h
      cases h
  | cons a rest ih =>
      intro p h q hq
      unfold leastOf at h
      cases hrest : leastOf rest with
      | none =>
          rw [hrest] at h
          injection h with h
          rw [leastOf_eq_none hrest] at hq
          rw [List.mem_singleton.1 hq, h]
      | some r =>
          have hr := ih hrest
          rw [hrest] at h
          dsimp only at h
          split at h
          case isTrue hlt =>
            injection h with h
            subst h
            cases List.mem_cons.1 hq with
            | inl hqa => rw [hqa]; omega
            | inr hq => exact hr q hq
          case isFalse hge =>
            injection h with h
            subst h
            cases List.mem_cons.1 hq with
            | inl hqa => rw [hqa]
            | inr hq =>
                have := hr q hq
                omega

/-- Dropping the entry used longest ago leaves the others in order. -/
theorem byUse_erase {entries : ExtTreeMap QString CacheEntry}
    (h : Stamped entries) {p : QString × CacheEntry}
    (hleast : leastOf entries.toList = some p) :
    byUse entries = p :: byUse (entries.erase p.1) := by
  have hfind : entries[p.1]? = some p.2 :=
    ExtTreeMap.mem_toList_iff_getElem?_eq_some.1 (leastOf_mem _ _ hleast)
  have hperm : (byUse entries).Perm (p :: byUse (entries.erase p.1)) :=
    ((byUse_perm entries).trans (Maps.toList_perm_of_find hfind)).trans
      ((byUse_perm (entries.erase p.1)).symm.cons p)
  apply List.Perm.eq_of_pairwise _ (byUse_sorted entries) _ hperm
  · intro a b ha hb hab hba
    have ha := mem_byUse.1 ha
    have hb := mem_byUse.1 (hperm.symm.subset hb)
    have hkey := h a.1 b.1 a.2 b.2 ha hb (by omega)
    rw [hkey, hb] at ha
    injection ha with hval
    exact Prod.ext hkey hval.symm
  · refine List.pairwise_cons.2 ⟨fun q hq => ?_, byUse_sorted _⟩
    have hq := hperm.symm.subset (List.mem_cons_of_mem p hq)
    exact leastOf_le hleast q ((byUse_perm entries).subset hq)

-- ================================================================ making room

/-- Beside these entries there is room for one more of `needed` tokens. -/
def Fits (c : Config) (needed : Int) (l : List (QString × CacheEntry)) :
    Prop :=
  (l.length : Int) + 1 ≤ c.maxCachedContexts
    ∧ (l.map fun p => p.2.reservedTokens).sum + needed
      ≤ c.maxCachedContextTokens

/-- The first `n` entries must go to make room, and no fewer. -/
def Shortest (c : Config) (needed : Int) (l : List (QString × CacheEntry))
    (n : Nat) : Prop :=
  n ≤ l.length ∧ Fits c needed (l.drop n)
    ∧ ∀ k < n, ¬ Fits c needed (l.drop k)

/-- The running sum of reservations is the sum over the entries. -/
theorem Bounded.reserved_sum (h : m.Bounded c) :
    m.reserved = (m.entries.toList.map fun p => p.2.reservedTokens).sum := by
  rw [h.reserved_eq, sum_reservedTokens]
  · rfl
  · intro p hp
    exact h.positive p.1 p.2 (ExtTreeMap.mem_toList_iff_getElem?_eq_some.1 hp)

theorem Bounded.sum_byUse (h : m.Bounded c) :
    ((byUse m.entries).map fun p => p.2.reservedTokens).sum = m.reserved := by
  rw [h.reserved_sum]
  exact ((byUse_perm m.entries).map _).sum_eq

/-- The loop of `acquire` goes on while there is no room. -/
theorem Bounded.fits_iff (h : m.Bounded c) (needed : Int) :
    Fits c needed (byUse m.entries)
      ↔ ¬ (c.maxCachedContexts ≤ m.entries.size
        ∨ m.reserved > c.maxCachedContextTokens - needed) := by
  unfold Fits
  rw [h.sum_byUse, length_byUse]
  omega

/-- A cache from which the first `n` entries were evicted. -/
structure Evicted (m : ContextCacheManager) (n : Nat)
    (r : ContextCacheManager) : Prop where
  left : byUse r.entries = (byUse m.entries).drop n
  clock : r.clock = m.clock
  evictions : r.evictions = m.evictions + n

/-- Making room evicts the shortest beginning that must go, of the entries in
order of use. The induction is on their number, since each round drops one. -/
theorem makeRoom_evicted {needed : Int}
    (hneeded : needed ≤ c.maxCachedContextTokens) :
    ∀ (turns : Nat) (m : ContextCacheManager), m.Bounded c →
      Stamped m.entries → m.entries.size ≤ turns →
      ∃ n, Shortest c needed (byUse m.entries) n
        ∧ Evicted m n (makeRoom c.maxCachedContexts c.maxCachedContextTokens
          needed turns m) := by
  intro turns
  induction turns with
  | zero =>
      intro m h _ hsize
      have hspec := makeRoom_spec hneeded 0 m h hsize
      refine ⟨0, ⟨Nat.zero_le _, ?_, fun k hk =>
        absurd hk (Nat.not_lt_zero k)⟩,
        rfl, rfl, rfl⟩
      rw [List.drop_zero, h.fits_iff]
      have hroom := hspec.2.2
      unfold makeRoom at hroom
      omega
  | succ turns ih =>
      intro m h hstamped hsize
      have hspec := makeRoom_spec hneeded (turns + 1) m h hsize
      unfold makeRoom at hspec ⊢
      by_cases hfull : c.maxCachedContexts ≤ m.entries.size
          ∨ m.reserved > c.maxCachedContextTokens - needed
      · rw [if_pos hfull] at hspec ⊢
        have hnot : ¬ Fits c needed (byUse m.entries) :=
          fun hfits => (h.fits_iff needed).1 hfits hfull
        cases hleast : leastOf m.entries.toList with
        | none =>
            -- without entries there is room already
            rw [hleast] at hspec
            have hroom := hspec.2.2
            dsimp only at hroom
            omega
        | some p =>
            obtain ⟨oldest, e⟩ := p
            have hfind : m.entries[oldest]? = some e :=
              ExtTreeMap.mem_toList_iff_getElem?_eq_some.1
                (leastOf_mem _ _ hleast)
            have hsmaller := Maps.size_erase_of_some hfind
            have herased := h.erase oldest
            have horder := byUse_erase hstamped hleast
            dsimp only
            rw [erase_of_some hfind] at herased ⊢
            dsimp only at horder ⊢
            obtain ⟨n, ⟨hle, hfits, hleastn⟩, hevicted⟩ := ih
              { m with
                reserved := m.reserved - e.reservedTokens
                evictions := m.evictions + 1
                entries := m.entries.erase oldest }
              ⟨herased.positive, herased.reserved_eq, herased.reserved_le,
                herased.count_le⟩
              (hstamped.mono fun k e' hk => by
                rw [Maps.find_erase] at hk
                split at hk
                · cases hk
                · exact hk)
              (by dsimp only; omega)
            refine ⟨n + 1, ⟨?_, ?_, ?_⟩, ?_, hevicted.clock, ?_⟩
            · rw [horder, List.length_cons]
              exact Nat.succ_le_succ hle
            · rw [horder, List.drop_succ_cons]
              exact hfits
            · intro k hk
              cases k with
              | zero => exact hnot
              | succ k =>
                  rw [horder, List.drop_succ_cons]
                  exact hleastn k (by omega)
            · rw [horder, List.drop_succ_cons]
              exact hevicted.left
            · rw [hevicted.evictions, Nat.add_assoc, Nat.add_comm 1 n]
      · rw [if_neg hfull]
        refine ⟨0, ⟨Nat.zero_le _, ?_, fun k hk =>
          absurd hk (Nat.not_lt_zero k)⟩,
          rfl, rfl, rfl⟩
        rw [List.drop_zero]
        exact (h.fits_iff needed).2 hfull

/-- An eviction only drops entries; none is changed. -/
theorem Evicted.sub {n : Nat} {r : ContextCacheManager} (h : Evicted m n r)
    (k : QString) (e : CacheEntry) (hk : r.entries[k]? = some e) :
    m.entries[k]? = some e := by
  have hmem : (k, e) ∈ byUse r.entries := mem_byUse.2 hk
  rw [h.left] at hmem
  exact mem_byUse.1 (List.mem_of_mem_drop hmem)

-- ==================================================================== acquire

/-- What `acquire` can do. -/
inductive Acquired (c : Config) (env : Env) (id : QString)
    (model : LoadedModel) (m : ContextCacheManager) :
    Except Exn RuntimeContext → ContextCacheManager → Prop
  /-- The entry is there, and only its stamp changes. -/
  | hit (e : CacheEntry) : m.entries[id]? = some e →
      Acquired c env id model m (.ok e.context)
        { m with
          clock := m.clock + 1
          entries := m.entries.insert id { e with access := m.clock + 1 } }
  /-- The model is larger than the whole cache, and nothing changes. -/
  | tooLarge : m.entries[id]? = none →
      c.maxCachedContextTokens < model.spec.contextTokens →
      Acquired c env id model m (.error (err .ResourceLimit
        "Model context exceeds cache token budget")) m
  /-- There is room after the shortest beginning was evicted, and a context
  was created. -/
  | created (n : Nat) (r : ContextCacheManager) (context : RuntimeContext) :
      m.entries[id]? = none →
      model.spec.contextTokens ≤ c.maxCachedContextTokens →
      Shortest c model.spec.contextTokens (byUse m.entries) n →
      Evicted m n r →
      model.runtime.createContext env.probe = .ok (some context) →
      Acquired c env id model m (.ok context)
        { r with
          reserved := r.reserved + model.spec.contextTokens
          clock := m.clock + 1
          entries := r.entries.insert id ⟨model.spec.id,
            model.spec.contextTokens, m.clock + 1, context, model.serial⟩ }
  /-- There is room after the shortest beginning was evicted, but no context
  was created. -/
  | failed (n : Nat) (r : ContextCacheManager) (e : Exn) :
      m.entries[id]? = none →
      model.spec.contextTokens ≤ c.maxCachedContextTokens →
      Shortest c model.spec.contextTokens (byUse m.entries) n →
      Evicted m n r →
      (model.runtime.createContext env.probe = .error e
        ∨ model.runtime.createContext env.probe = .ok none
          ∧ e = err .RuntimeFailure "Runtime returned a null context") →
      Acquired c env id model m (.error e) r

/-- The exact outcome of one acquire, as a case of the specification: found,
created with the evictions that were needed, or refused. -/
theorem acquire_acquired (h : m.Bounded c) (hstamped : Stamped m.entries)
    (env : Env) (id : QString) (model : LoadedModel) :
    Acquired c env id model m (acquire c env id model m).1
      (acquire c env id model m).2 := by
  unfold acquire
  cases hfind : m.entries[id]? with
  | some e =>
      simp only [Exec.bind_apply, Exec.get_apply, hfind, Exec.set_apply,
        Exec.pure_apply]
      exact Acquired.hit e hfind
  | none =>
      simp only [Exec.bind_apply, Exec.get_apply, hfind, Exec.ofExcept_apply]
      by_cases hneeded : model.spec.contextTokens ≤ c.maxCachedContextTokens
      · obtain ⟨n, hshortest, hevicted⟩ :=
          makeRoom_evicted hneeded m.entries.size m h hstamped le_rfl
        rw [(require_eq_ok (u := ())).2 hneeded]
        simp only [Exec.set_apply]
        cases hcreate : model.runtime.createContext env.probe with
        | error e =>
            exact Acquired.failed n _ e hfind hneeded hshortest hevicted
              (Or.inl hcreate)
        | ok created =>
            cases created with
            | none =>
                exact Acquired.failed n _ _ hfind hneeded hshortest hevicted
                  (Or.inr ⟨hcreate, rfl⟩)
            | some context =>
                have hcreated := Acquired.created n _ context hfind hneeded
                  hshortest hevicted hcreate
                rw [← hevicted.clock] at hcreated
                exact hcreated
      · have hrefused : require (model.spec.contextTokens
            ≤ c.maxCachedContextTokens) ErrorCode.ResourceLimit
            "Model context exceeds cache token budget"
            = .error (err .ResourceLimit
              "Model context exceeds cache token budget") := by
          unfold require
          rw [if_neg hneeded]
        rw [hrefused]
        exact Acquired.tooLarge hfind (by omega)

/-- Failing adds no entry. -/
theorem Acquired.sub_of_error {env : Env} {id : QString} {model : LoadedModel}
    {e : Exn} {m' : ContextCacheManager}
    (h : Acquired c env id model m (.error e) m') :
    m.entries[id]? = none ∧ m'.clock = m.clock
      ∧ ∀ (k : QString) (d : CacheEntry), m'.entries[k]? = some d →
        m.entries[k]? = some d := by
  cases h with
  | tooLarge hnone => exact ⟨hnone, rfl, fun _ _ hk => hk⟩
  | failed n r _ hnone _ _ hevicted =>
      exact ⟨hnone, hevicted.clock, hevicted.sub⟩

/-- A context that was acquired is in the cache with the newest stamp, and
the other entries are old ones. -/
theorem Acquired.newest {env : Env} {id : QString} {model : LoadedModel}
    {context : RuntimeContext} {m' : ContextCacheManager}
    (h : Acquired c env id model m (.ok context) m') :
    m'.clock = m.clock + 1
      ∧ (∃ d, m'.entries[id]? = some d ∧ d.access = m.clock + 1)
      ∧ ∀ (k : QString) (d : CacheEntry), k ≠ id →
        m'.entries[k]? = some d → m.entries[k]? = some d := by
  cases h with
  | hit e hfind =>
      refine ⟨rfl, ⟨_, Maps.find_insert_self _ _ _, rfl⟩, fun k d hne hk => ?_⟩
      dsimp only at hk
      rwa [Maps.find_insert_ne _ _ (Ne.symm hne)] at hk
  | created n r _ _ _ _ hevicted _ =>
      refine ⟨rfl, ⟨_, Maps.find_insert_self _ _ _, rfl⟩, fun k d hne hk => ?_⟩
      dsimp only at hk
      rw [Maps.find_insert_ne _ _ (Ne.symm hne)] at hk
      exact hevicted.sub k d hk

-- ======================================================================= runs

/-- An operation on the cache. -/
inductive Op where
  | acquire (env : Env) (id : QString) (model : LoadedModel)
  | erase (id : QString)
  | eraseModel (modelId : QString)

/-- A model that is loaded has a context of at least two tokens. -/
def Op.Proper : Op → Prop
  | .acquire _ _ model => 2 ≤ model.spec.contextTokens
  | .erase _ => True
  | .eraseModel _ => True

def Op.apply (c : Config) : Op → ContextCacheManager → ContextCacheManager
  | .acquire env id model, m =>
      (ContextCacheManager.acquire c env id model m).2
  | .erase id, m => m.erase id
  | .eraseModel modelId, m => m.eraseModel modelId

def Op.acquires (key : QString) : Op → Bool
  | .acquire _ id _ => id == key
  | .erase _ => false
  | .eraseModel _ => false

/-- The cache after a run. -/
def runOps (c : Config) (ops : List Op) : ContextCacheManager :=
  ops.foldl (fun m op => op.apply c m) {}

/-- The place in a run, counted from one, of the last `acquire` of a key. -/
def lastAcquire (key : QString) (ops : List Op) : Nat :=
  ops.length - ops.reverse.findIdx (Op.acquires key)

/-- The last use of a key is its last acquire, which a new operation either is
or leaves alone. -/
theorem lastAcquire_snoc (key : QString) (ops : List Op) (op : Op) :
    lastAcquire key (ops ++ [op])
      = if op.acquires key = true then ops.length + 1
        else lastAcquire key ops := by
  unfold lastAcquire
  rw [List.reverse_append, List.reverse_singleton, List.singleton_append,
    List.findIdx_cons, List.length_append, List.length_singleton]
  cases op.acquires key with
  | true => rfl
  | false =>
      simp only [cond_false, Bool.false_eq_true, if_false]
      omega

theorem lastAcquire_le (key : QString) (ops : List Op) :
    lastAcquire key ops ≤ ops.length :=
  Nat.sub_le _ _

/-- What holds of the cache after a run. -/
structure Represented (c : Config) (ops : List Op) (m : ContextCacheManager) :
    Prop where
  bounded : m.Bounded c
  /-- No stamp is ahead of the clock. -/
  past : ∀ (k : QString) (e : CacheEntry), m.entries[k]? = some e →
    e.access ≤ m.clock
  stamped : Stamped m.entries
  ordered : ∀ (k l : QString) (d e : CacheEntry), m.entries[k]? = some d →
    m.entries[l]? = some e → d.access < e.access →
    lastAcquire k ops < lastAcquire l ops

theorem represented_empty (c : Config) : Represented c [] {} where
  bounded := bounded_empty
  past := by simp
  stamped := by
    intro k l d e hk
    simp at hk
  ordered := by
    intro k l d e hk
    simp at hk

/-- An operation that acquires none of the entries it leaves. -/
theorem Represented.shrunk {ops : List Op} (h : Represented c ops m) {op : Op}
    {m' : ContextCacheManager} (hb : m'.Bounded c)
    (hclock : m'.clock = m.clock)
    (hsub : ∀ (k : QString) (e : CacheEntry), m'.entries[k]? = some e →
      m.entries[k]? = some e)
    (hother : ∀ (k : QString) (e : CacheEntry), m'.entries[k]? = some e →
      op.acquires k = false) :
    Represented c (ops ++ [op]) m' := by
  refine ⟨hb, ?_, h.stamped.mono hsub, ?_⟩
  · intro k e hk
    rw [hclock]
    exact h.past k e (hsub k e hk)
  · intro k l d e hk hl hlt
    rw [lastAcquire_snoc, lastAcquire_snoc, hother k d hk, hother l e hl]
    exact h.ordered k l d e (hsub k d hk) (hsub l e hl) hlt

/-- An `acquire` that returns. Its key is now the most recent one, and the
entries that went are those with the oldest last use. -/
theorem Represented.acquired {ops : List Op} (h : Represented c ops m)
    {env : Env} {id : QString} {model : LoadedModel}
    {context : RuntimeContext} {m' : ContextCacheManager} (hb : m'.Bounded c)
    (hacquired : Acquired c env id model m (.ok context) m') :
    Represented c (ops ++ [.acquire env id model]) m' := by
  obtain ⟨hclock, ⟨new, hnew, hstamp⟩, hsub⟩ := hacquired.newest
  have hself : lastAcquire id (ops ++ [.acquire env id model])
      = ops.length + 1 := by
    rw [lastAcquire_snoc, if_pos (by simp [Op.acquires])]
  have hother : ∀ k ≠ id, lastAcquire k (ops ++ [.acquire env id model])
      = lastAcquire k ops := by
    intro k hne
    rw [lastAcquire_snoc, if_neg]
    simpa [Op.acquires] using Ne.symm hne
  have holder : ∀ k e, k ≠ id → m'.entries[k]? = some e →
      e.access < new.access := by
    intro k e hne hk
    have := h.past k e (hsub k e hne hk)
    omega
  refine ⟨hb, ?_, ?_, ?_⟩
  · intro k e hk
    rw [hclock]
    by_cases hne : k = id
    · subst hne
      rw [hnew] at hk
      injection hk with hk
      subst hk
      omega
    · have := h.past k e (hsub k e hne hk)
      omega
  · intro k l d e hk hl heq
    by_cases hkid : k = id
    · by_cases hlid : l = id
      · rw [hkid, hlid]
      · subst hkid
        rw [hnew] at hk
        injection hk with hk
        subst hk
        have := holder l e hlid hl
        omega
    · by_cases hlid : l = id
      · subst hlid
        rw [hnew] at hl
        injection hl with hl
        subst hl
        have := holder k d hkid hk
        omega
      · exact h.stamped k l d e (hsub k d hkid hk) (hsub l e hlid hl) heq
  · intro k l d e hk hl hlt
    by_cases hkid : k = id
    · -- nothing is newer
      subst hkid
      rw [hnew] at hk
      injection hk with hk
      subst hk
      by_cases hlk : l = k
      · subst hlk
        rw [hnew] at hl
        injection hl with hl
        subst hl
        omega
      · have := holder l e hlk hl
        omega
    · rw [hother k hkid]
      by_cases hlid : l = id
      · rw [hlid, hself]
        have := lastAcquire_le k ops
        omega
      · rw [hother l hlid]
        exact h.ordered k l d e (hsub k d hkid hk) (hsub l e hlid hl) hlt

/-- One operation keeps the list of past operations and the cache in accord:
every entry was acquired, and its stamp orders it as its last acquire does. -/
theorem Represented.step {ops : List Op} (h : Represented c ops m) {op : Op}
    (hproper : op.Proper) : Represented c (ops ++ [op]) (op.apply c m) := by
  cases op with
  | erase id =>
      refine h.shrunk (h.bounded.erase id) ?_ ?_ (fun _ _ _ => rfl)
      · show (m.erase id).clock = m.clock
        unfold ContextCacheManager.erase
        split <;> rfl
      · intro k e hk
        have hk : (m.erase id).entries[k]? = some e := hk
        rw [find_erase] at hk
        split at hk
        · cases hk
        · exact hk
  | eraseModel modelId =>
      refine h.shrunk (h.bounded.eraseModel modelId) rfl ?_ (fun _ _ _ => rfl)
      intro k e hk
      have hk : (m.eraseModel modelId).entries[k]? = some e := hk
      rw [find_eraseModel] at hk
      exact (Option.filter_eq_some_iff.1 hk).1
  | acquire env id model =>
      have hproper : 2 ≤ model.spec.contextTokens := hproper
      have hspec := @acquire_spec c m h.bounded env id model (by omega)
      have hacquired := acquire_acquired h.bounded h.stamped env id model
      show Represented c _ (acquire c env id model m).2
      unfold Exec.wp at hspec
      cases hrun : acquire c env id model m with
      | mk outcome m' =>
          rw [hrun] at hspec hacquired
          cases outcome with
          | ok context => exact h.acquired hspec.1 hacquired
          | error e =>
              obtain ⟨hnone, hclock, hsub⟩ := hacquired.sub_of_error
              refine h.shrunk hspec.1 hclock hsub fun k d hk => ?_
              simp only [Op.acquires, beq_eq_false_iff_ne]
              intro heq
              rw [← heq] at hk
              rw [hsub id d hk] at hnone
              cases hnone

/-- Every run keeps it. -/
theorem run_represented (c : Config) (ops : List Op)
    (hproper : ∀ op ∈ ops, op.Proper) : Represented c ops (runOps c ops) := by
  induction ops using List.reverseRecOn with
  | nil => exact represented_empty c
  | append_singleton ops op ih =>
      have hstep := (ih fun o ho => hproper o (List.mem_append_left _ ho)).step
        (hproper op (List.mem_append_right _ (List.mem_singleton_self op)))
      unfold runOps at hstep ⊢
      rw [List.foldl_append]
      exact hstep

/-- **The cache after any run.** The counter is the sum over the entries, it
and their number are within their limits, and the stamps differ and are in
the order of the last `acquire` of each key. The next `acquire` finds its
entry, refuses a model that is too large, or evicts the shortest beginning
that makes room; and a failed one adds nothing. -/
theorem run_bounded_and_ordered (c : Config) (ops : List Op)
    (hproper : ∀ op ∈ ops, op.Proper) :
    (runOps c ops).reserved
        = ((runOps c ops).entries.toList.map fun p =>
          p.2.reservedTokens).sum
      ∧ (runOps c ops).reserved ≤ c.maxCachedContextTokens
      ∧ ((runOps c ops).entries.size : Int) ≤ c.maxCachedContexts
      ∧ (∀ (k l : QString) (d e : CacheEntry),
        (runOps c ops).entries[k]? = some d →
        (runOps c ops).entries[l]? = some e →
        (k ≠ l → d.access ≠ e.access)
          ∧ (d.access < e.access
            ↔ lastAcquire k ops < lastAcquire l ops))
      ∧ ∀ (env : Env) (id : QString) (model : LoadedModel),
        Acquired c env id model (runOps c ops)
          (acquire c env id model (runOps c ops)).1
          (acquire c env id model (runOps c ops)).2 := by
  have h := run_represented c ops hproper
  refine ⟨h.bounded.reserved_sum, h.bounded.reserved_le, h.bounded.count_le,
    ?_, acquire_acquired h.bounded h.stamped⟩
  intro k l d e hk hl
  constructor
  · intro hne heq
    exact hne (h.stamped k l d e hk hl heq)
  · constructor
    · exact h.ordered k l d e hk hl
    · intro hlt
      by_contra hge
      by_cases heq : d.access = e.access
      · rw [h.stamped k l d e hk hl heq] at hlt
        omega
      · have := h.ordered l k e d hl hk (by omega)
        omega

/-- A model of which two contexts fill the cache. -/
def half : LoadedModel where
  spec := { id := qs "tiny", path := [], contextTokens := 8192 }
  execution := ⟨qs "sample", {}, [], []⟩
  runtime := Sample.model
  serial := 0
  probe := 0

/-- The third key takes the place of the second, which was used
before the first. -/
def thirdKey : List Op :=
  [.acquire {} (qs "a") half, .acquire {} (qs "b") half,
    .acquire {} (qs "a") half,
    .acquire {} (qs "c") half, .eraseModel (qs "other")]

/-- The cache is full, without the key that was evicted and in the order of the
two others; the evicted one is acquired as any other. -/
theorem run_bounded_and_ordered_sample :
    (runOps Sample.config thirdKey).entries[qs "b"]? = none
      ∧ (runOps Sample.config thirdKey).reserved
        = ((runOps Sample.config thirdKey).entries.toList.map fun p =>
          p.2.reservedTokens).sum
      ∧ (runOps Sample.config thirdKey).reserved
        ≤ Sample.config.maxCachedContextTokens
      ∧ (∀ d e, (runOps Sample.config thirdKey).entries[qs "a"]? = some d →
        (runOps Sample.config thirdKey).entries[qs "c"]? = some e →
        d.access < e.access)
      ∧ Acquired Sample.config {} (qs "b") half (runOps Sample.config thirdKey)
        (acquire Sample.config {} (qs "b") half
          (runOps Sample.config thirdKey)).1
        (acquire Sample.config {} (qs "b") half
          (runOps Sample.config thirdKey)).2 := by
  obtain ⟨hsum, hbound, -, horder, hnext⟩ :=
    run_bounded_and_ordered Sample.config thirdKey
      (by simp [thirdKey, Op.Proper, half])
  exact ⟨by decide +kernel, hsum, hbound,
    fun d e hd he => (horder _ _ d e hd he).2.2 (by decide),
    hnext {} (qs "b") half⟩

end ContextCacheManager

end LocalLLM
