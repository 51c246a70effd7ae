/-
The residency policy (`service/ModelResidencyManager.cpp`): which models
hold memory, for how long, and which one goes next.

An operation refuses with a `Fault`. None of these refusals is an answer
a client is meant to see: each marks a lookup that was assumed to find
its key or a call that was assumed to be balanced, and `Fault.toExn` is
what the source throws there.
-/
import LocalLLM.Hardware.Hardware
import LocalLLM.Hardware.Memory
import LocalLLM.Lib.Maps

namespace LocalLLM

open Std

/-- A broken assumption of the managers on one another. -/
inductive Fault
  | residencyAt
  | residencyRegistered
  | residencyBudget
  | residencyOverflow
  | unbalancedLease
  | activeEvicted
  | rememberedAt
  | runtimeGet
  | outOfTurns
deriving DecidableEq

/-- What the source throws when the assumption breaks. `outOfTurns` has
no counterpart: it marks the bound of a modelled loop. -/
def Fault.toExn : Fault → Exn
  | .residencyAt => outOfRange
  | .residencyRegistered =>
      err .AlreadyExists "Residency already registered"
  | .residencyBudget => err .ResourceLimit "Model exceeds residency budget"
  | .residencyOverflow =>
      err .ResourceLimit "Model memory estimate overflows"
  | .unbalancedLease => err .RuntimeFailure "Unbalanced model lease"
  | .activeEvicted => err .ModelInUse "Active model cannot be evicted"
  | .rememberedAt => outOfRange
  | .runtimeGet => err .NotFound "Model not found"
  | .outOfTurns => .unknown

/-- The members the constructor sets once: `limit_`, `budget_`,
`reserve_` and `keepAlive_`. -/
structure ResidencyPolicy where
  limit : Nat
  budget : UInt64
  reserve : UInt64
  keepAlive : Int

def gib : UInt64 := 0x40000000

/-- The constructor of `ModelResidencyManager`. -/
def ResidencyPolicy.ofOptions (o : CheckedOptions) (hardware : HardwareInfo) :
    ResidencyPolicy :=
  let total := hardware.ramBytes.getD (4 * gib)
  let system := max (2 * gib) (total / 4)
  let automatic := if total > system then total - system else total / 2
  { limit := o.val.maxModels.toInt.toNat
    budget := if o.val.memoryBudgetBytes ≠ 0
      then min o.val.memoryBudgetBytes total
      else automatic
    reserve := o.val.memoryReserveBytes
    keepAlive := if o.val.keepAliveMs.toInt < 0 then
        (if total ≤ 8 * gib then 0 else 300000)
      else o.val.keepAliveMs.toInt }

/-- `ModelResidencyManager::Entry`. -/
structure ResidencyEntry where
  memory : MemoryEstimate
  keepAliveMs : Int
  expires : Int
  access : Nat
  active : Int := 0
deriving DecidableEq

structure ModelResidencyManager where
  clock : Nat := 0
  loads : Nat := 0
  evictions : Nat := 0
  entries : ExtTreeMap QString ResidencyEntry := ∅

namespace ModelResidencyManager

/-- The sum of the reservations in 64-bit arithmetic; a summand that
overflows by itself throws. -/
def bytesOf : List (QString × ResidencyEntry) → UInt64 → Except Fault UInt64
  | [], result => .ok result
  | (_, e) :: rest, result =>
      match e.memory.totalBytes with
      | .ok n => bytesOf rest (result + n)
      | .error _ => .error .residencyOverflow

/-- `bytes`. -/
def bytes (m : ModelResidencyManager) : Except Fault UInt64 :=
  bytesOf m.entries.toList 0

/-- `fits`. -/
def fits (p : ResidencyPolicy) (m : ModelResidencyManager) (required : UInt64)
    (available : Option UInt64) : Except Fault Bool := do
  let used ← m.bytes
  return decide (m.entries.size < p.limit) && decide (used ≤ p.budget)
    && decide (required ≤ p.budget - used)
    && match available with
      | none => true
      | some a => decide (p.reserve ≤ a) && decide (required ≤ a - p.reserve)

/-- The scan of `oldestIdle`: the first idle entry with the least
access stamp. -/
def oldestOf : List (QString × ResidencyEntry) →
    Option (QString × ResidencyEntry) → Option (QString × ResidencyEntry)
  | [], oldest => oldest
  | (id, e) :: rest, oldest =>
      if e.active = 0 ∧ oldest.all (fun o => decide (e.access < o.2.access))
        then
        oldestOf rest (some (id, e))
      else oldestOf rest oldest

/-- `oldestIdle`; the empty id of the source is `none`. -/
def oldestIdle (m : ModelResidencyManager) : Option QString :=
  (oldestOf m.entries.toList none).map Prod.fst

/-- `expired`. -/
def expired (m : ModelResidencyManager) (now : Int) : List QString :=
  (m.entries.toList.filter fun p =>
    decide (p.2.active = 0) && decide (p.2.expires ≤ now)).map Prod.fst

/-- `get`. -/
def get (m : ModelResidencyManager) (id : QString) :
    Except Fault ResidencyEntry :=
  match m.entries[id]? with
  | some e => .ok e
  | none => .error .residencyAt

/-- `loaded`. -/
def loaded (p : ResidencyPolicy) (m : ModelResidencyManager) (id : QString)
    (memory : MemoryEstimate) (keepAlive now : Int) :
    Except Fault ModelResidencyManager := do
  if id ∈ m.entries then .error .residencyRegistered
  match memory.totalBytes with
  | .error _ => .error .residencyOverflow
  | .ok total =>
    if ← m.fits p total none then
      let ttl := if keepAlive < 0 then p.keepAlive else keepAlive
      .ok { m with
        clock := m.clock + 1
        loads := m.loads + 1
        entries := m.entries.insert id
          { memory, keepAliveMs := ttl, expires := now + ttl,
            access := m.clock + 1 } }
    else .error .residencyBudget

/-- What `touch` makes of an entry. -/
def touched (m : ModelResidencyManager) (e : ResidencyEntry)
    (keepAlive now : Int) : ResidencyEntry :=
  let ttl := if 0 ≤ keepAlive then keepAlive else e.keepAliveMs
  { e with keepAliveMs := ttl, access := m.clock + 1, expires := now + ttl }

/-- `touch`. -/
def touch (m : ModelResidencyManager) (id : QString) (keepAlive now : Int) :
    Except Fault ModelResidencyManager := do
  let e ← m.get id
  return { m with
    clock := m.clock + 1
    entries := m.entries.insert id (m.touched e keepAlive now) }

/-- `acquire`. -/
def acquire (m : ModelResidencyManager) (id : QString) (keepAlive now : Int) :
    Except Fault ModelResidencyManager := do
  let m ← m.touch id keepAlive now
  let e ← m.get id
  return { m with
    entries := m.entries.insert id { e with active := e.active + 1 } }

/-- `release`. -/
def release (m : ModelResidencyManager) (id : QString) (now : Int) :
    Except Fault ModelResidencyManager := do
  let e ← m.get id
  if e.active ≤ 0 then .error .unbalancedLease
  let m := { m with
    entries := m.entries.insert id { e with active := e.active - 1 } }
  m.touch id (-1) now

/-- `erased`. -/
def erased (m : ModelResidencyManager) (id : QString) (eviction : Bool) :
    Except Fault ModelResidencyManager :=
  match m.entries[id]? with
  | none => .ok m
  | some e =>
      if e.active ≠ 0 then .error .activeEvicted
      else .ok { m with
        evictions := if eviction then m.evictions + 1 else m.evictions
        entries := m.entries.erase id }

-- ============================================================ one-step facts

theorem get_ok {m : ModelResidencyManager} {id : QString} {e : ResidencyEntry}
    (h : m.entries[id]? = some e) : m.get id = .ok e := by
  unfold get
  rw [h]

/-- Touching a resident model rewrites its entry and nothing else. -/
theorem touch_ok {m : ModelResidencyManager} {id : QString}
    {e : ResidencyEntry} (h : m.entries[id]? = some e) (keepAlive now : Int) :
    m.touch id keepAlive now = .ok { m with
      clock := m.clock + 1
      entries := m.entries.insert id (m.touched e keepAlive now) } := by
  unfold touch
  rw [get_ok h]
  rfl

/-- A lease on a resident model: a touch and one more active use. -/
theorem acquire_ok {m : ModelResidencyManager} {id : QString}
    {e : ResidencyEntry} (h : m.entries[id]? = some e) (keepAlive now : Int) :
    m.acquire id keepAlive now = .ok { m with
      clock := m.clock + 1
      entries := m.entries.insert id
        { m.touched e keepAlive now with active := e.active + 1 } } := by
  unfold acquire
  rw [touch_ok h]
  simp only [bind, Except.bind]
  rw [get_ok (Maps.find_insert_self _ _ _)]
  simp only [Maps.insert_insert]
  rfl

/-- The end of a lease that is held. -/
theorem release_ok {m : ModelResidencyManager} {id : QString}
    {e : ResidencyEntry} (h : m.entries[id]? = some e) (hactive : 0 < e.active)
    (now : Int) :
    m.release id now = .ok { m with
      clock := m.clock + 1
      entries := m.entries.insert id
        (m.touched { e with active := e.active - 1 } (-1) now) } := by
  unfold release
  rw [get_ok h]
  simp only [bind, Except.bind]
  rw [if_neg (by omega)]
  have htouch := touch_ok (m := { m with
    entries := m.entries.insert id { e with active := e.active - 1 } })
    (Maps.find_insert_self _ _ _) (-1) now
  rw [Maps.insert_insert] at htouch
  exact htouch

/-- An idle model can always be erased. -/
theorem erased_ok {m : ModelResidencyManager} {id : QString}
    {e : ResidencyEntry} (h : m.entries[id]? = some e) (hidle : e.active = 0)
    (eviction : Bool) :
    m.erased id eviction = .ok { m with
      evictions := if eviction then m.evictions + 1 else m.evictions
      entries := m.entries.erase id } := by
  unfold erased
  rw [h]
  exact if_neg (by omega)

/-- The exact bytes reserved for all entries. -/
def reservedBytes (m : ModelResidencyManager) : Nat :=
  Maps.total (fun e => e.memory.exactBytes) m.entries

/-- Every entry's own reservation fits 64 bits. -/
def Sized (m : ModelResidencyManager) : Prop :=
  ∀ (id : QString) (e : ResidencyEntry), m.entries[id]? = some e →
    ∃ bytes, e.memory.totalBytes = .ok bytes

theorem bytesOf_ok : ∀ (l : List (QString × ResidencyEntry)) (start : UInt64),
    (∀ p ∈ l, ∃ bytes, p.2.memory.totalBytes = .ok bytes) →
    start.toNat + (l.map fun p => p.2.memory.exactBytes).sum < 2 ^ 64 →
    ∃ n, bytesOf l start = .ok n
      ∧ n.toNat = start.toNat
        + (l.map fun p => p.2.memory.exactBytes).sum := by
  intro l
  induction l with
  | nil => intro start _ _; exact ⟨start, rfl, by simp⟩
  | cons p rest ih =>
      obtain ⟨id, e⟩ := p
      intro start hsized hlt
      obtain ⟨bytes, hbytes⟩ : ∃ bytes, e.memory.totalBytes = .ok bytes :=
        hsized (id, e) (List.mem_cons_self ..)
      have hexact := MemoryEstimate.totalBytes_ok hbytes
      simp only [List.map_cons, List.sum_cons] at hlt ⊢
      have hadd : (start + bytes).toNat
          = start.toNat + e.memory.exactBytes := by
        rw [UInt64.toNat_add, hexact]
        exact Nat.mod_eq_of_lt (by omega)
      obtain ⟨n, hn, htoNat⟩ := ih (start + bytes)
        (fun q hq => hsized q (List.mem_cons_of_mem _ hq)) (by omega)
      refine ⟨n, ?_, by omega⟩
      unfold bytesOf
      rw [hbytes]
      exact hn

/-- The 64-bit sum of the reservations is the exact one. -/
theorem bytes_ok {m : ModelResidencyManager} (hsized : m.Sized)
    (hlt : m.reservedBytes < 2 ^ 64) :
    ∃ n, m.bytes = .ok n ∧ n.toNat = m.reservedBytes := by
  obtain ⟨n, hn, htoNat⟩ := bytesOf_ok m.entries.toList 0
    (fun p hp => hsized p.1 p.2
      (ExtTreeMap.mem_toList_iff_getElem?_eq_some.1 hp))
    (by rw [UInt64.toNat_zero, Nat.zero_add]; exact hlt)
  refine ⟨n, hn, ?_⟩
  rw [htoNat, UInt64.toNat_zero, Nat.zero_add]
  rfl

/-- The admission test answers, and a yes leaves room for one more model
within the budget, whatever the available memory was. -/
theorem fits_ok {p : ResidencyPolicy} {m : ModelResidencyManager}
    (hsized : m.Sized) (hbudget : m.reservedBytes ≤ p.budget.toNat)
    (required : UInt64) (available : Option UInt64) :
    ∃ b, m.fits p required available = .ok b
      ∧ (b = true → m.entries.size < p.limit
        ∧ m.reservedBytes + required.toNat ≤ p.budget.toNat
        ∧ m.fits p required none = .ok true) := by
  have hlt := p.budget.toNat_lt
  obtain ⟨used, hused, htoNat⟩ := bytes_ok hsized (by omega)
  unfold fits
  rw [hused]
  refine ⟨_, rfl, fun hb => ?_⟩
  simp only [Bool.and_eq_true, decide_eq_true_eq] at hb
  obtain ⟨⟨⟨hsize, hle⟩, hreq⟩, -⟩ := hb
  have hsub := UInt64.toNat_sub_of_le _ _ hle
  have hreq' := UInt64.le_iff_toNat_le.1 hreq
  refine ⟨hsize, by omega, ?_⟩
  simp only [bind, Except.bind, pure, Except.pure, hsize, hle, hreq,
    decide_true, Bool.and_self]

/-- A new model enters with the reservation it was admitted with. -/
theorem loaded_ok {p : ResidencyPolicy} {m : ModelResidencyManager}
    {id : QString} {memory : MemoryEstimate} {required : UInt64}
    (hnew : m.entries[id]? = none) (hbytes : memory.totalBytes = .ok required)
    (hfits : m.fits p required none = .ok true) (keepAlive now : Int) :
    m.loaded p id memory keepAlive now = .ok { m with
      clock := m.clock + 1
      loads := m.loads + 1
      entries := m.entries.insert id
        { memory
          keepAliveMs := if keepAlive < 0 then p.keepAlive else keepAlive
          expires := now + if keepAlive < 0 then p.keepAlive else keepAlive
          access := m.clock + 1 } } := by
  have hmem := (Maps.not_mem_iff_find m.entries id).2 hnew
  unfold loaded
  simp only [if_neg hmem, bind, Except.bind, hbytes, hfits]
  rfl

/-- What the eviction scan picks is idle and among the entries it saw. -/
theorem oldestOf_mem : ∀ (l : List (QString × ResidencyEntry))
    (o : Option (QString × ResidencyEntry)) (p : QString × ResidencyEntry),
    oldestOf l o = some p → o = some p ∨ (p ∈ l ∧ p.2.active = 0) := by
  intro l
  induction l with
  | nil => intro o p h; exact Or.inl h
  | cons a l ih =>
      obtain ⟨id, e⟩ := a
      intro o p h
      unfold oldestOf at h
      split at h
      next hcond =>
        rcases ih _ p h with hp | ⟨hmem, hidle⟩
        · injection hp with hp
          subst hp
          exact Or.inr ⟨List.mem_cons_self .., hcond.1⟩
        · exact Or.inr ⟨List.mem_cons_of_mem _ hmem, hidle⟩
      next =>
        rcases ih _ p h with hp | ⟨hmem, hidle⟩
        · exact Or.inl hp
        · exact Or.inr ⟨List.mem_cons_of_mem _ hmem, hidle⟩

/-- The model chosen for eviction is resident and idle. -/
theorem oldestIdle_spec {m : ModelResidencyManager} {id : QString}
    (h : m.oldestIdle = some id) :
    ∃ e, m.entries[id]? = some e ∧ e.active = 0 := by
  unfold oldestIdle at h
  obtain ⟨p, hp, rfl⟩ := Option.map_eq_some_iff.1 h
  rcases oldestOf_mem _ _ p hp with hnone | ⟨hmem, hidle⟩
  · cases hnone
  · exact ⟨p.2, ExtTreeMap.mem_toList_iff_getElem?_eq_some.1 hmem, hidle⟩

/-- An expired model is resident and idle. -/
theorem expired_spec {m : ModelResidencyManager} {now : Int} {id : QString}
    (h : id ∈ m.expired now) :
    ∃ e, m.entries[id]? = some e ∧ e.active = 0 := by
  unfold expired at h
  obtain ⟨p, hp, rfl⟩ := List.mem_map.1 h
  obtain ⟨hmem, hcond⟩ := List.mem_filter.1 hp
  simp only [Bool.and_eq_true, decide_eq_true_eq] at hcond
  exact ⟨p.2, ExtTreeMap.mem_toList_iff_getElem?_eq_some.1 hmem, hcond.1⟩

/-- No model is listed twice as expired. -/
theorem expired_nodup (m : ModelResidencyManager) (now : Int) :
    (m.expired now).Nodup := by
  have hkeys : (m.entries.toList.map Prod.fst).Nodup := by
    rw [ExtTreeMap.map_fst_toList_eq_keys]
    exact ExtTreeMap.nodup_keys
  exact hkeys.sublist (List.filter_sublist.map Prod.fst)

end ModelResidencyManager

end LocalLLM
