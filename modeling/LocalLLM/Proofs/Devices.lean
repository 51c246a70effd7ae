/-
The order in which devices are tried is a policy, not an accident of how
they were listed.

# Overview

The policy is stated first, without the search and the sort of the source:
which devices a machine admits (`Compatible`) and which of two admitted
devices is tried first (`Precedes`). Where no two GPUs share an id, the rank
and the memory that the source computes are functions of the device alone
(`rankDevice_iff`). So its comparison ties no two ranked devices, and any
sort by it gives the one list that the policy allows.
-/
import LocalLLM.Hardware.Hardware
import LocalLLM.Lib.Maps
import LocalLLM.Lib.Sorting

namespace LocalLLM

open Std

namespace Devices

-- ========================================================== the policy

/-- The devices that a machine admits: the processor, and each GPU under
the backend of its vendor where the GPU and the machine both offer it. -/
inductive Compatible (h : HardwareInfo) : RuntimeDevice → Prop
  | cpu : Compatible h ⟨.Cpu, []⟩
  | metal {gpu : GpuInfo} (listed : gpu ∈ h.gpus)
      (vendor : gpu.vendor = .Apple) (silicon : h.appleSilicon = true)
      (offered : .Metal ∈ gpu.availableBackends)
      (available : h.metalAvailable = true) : Compatible h ⟨.Metal, gpu.id⟩
  | cuda {gpu : GpuInfo} (listed : gpu ∈ h.gpus)
      (vendor : gpu.vendor = .Nvidia) (offered : .Cuda ∈ gpu.availableBackends)
      (available : h.cudaAvailable = true) : Compatible h ⟨.Cuda, gpu.id⟩
  | vulkan {gpu : GpuInfo} (listed : gpu ∈ h.gpus)
      (vendor : gpu.vendor = .Amd ∨ gpu.vendor = .Intel)
      (offered : .Vulkan ∈ gpu.availableBackends)
      (available : h.vulkanAvailable = true) : Compatible h ⟨.Vulkan, gpu.id⟩

/-- Metal, CUDA, Vulkan, CPU. -/
def classOf : ComputeBackend → Nat
  | .Metal => 0
  | .Cuda => 1
  | .Vulkan => 2
  | .Cpu => 3

/-- Distinct back ends have distinct classes, so a class tells its back end. -/
theorem classOf_inj {b b' : ComputeBackend} (h : classOf b = classOf b') :
    b = b' := by
  cases b <;> cases b' <;> simp [classOf] at h <;> rfl

/-- The memory of the GPU with an id. -/
def memoryOf (h : HardwareInfo) (id : QString) : UInt64 :=
  match h.gpus.find? fun g => g.id == id with
  | none => 0
  | some gpu => gpu.vramBytes.getD (gpu.recommendedWorkingSetBytes.getD 0)

/-- Which of two devices is tried first: the one of the earlier
class, and within a class the one with more memory, and then the one
whose id comes first. -/
def Precedes (h : HardwareInfo) (a b : RuntimeDevice) : Prop :=
  classOf a.backend < classOf b.backend
  ∨ a.backend = b.backend
    ∧ (memoryOf h b.deviceId < memoryOf h a.deviceId
      ∨ memoryOf h a.deviceId = memoryOf h b.deviceId
        ∧ compare a.deviceId b.deviceId = .lt)

-- ======================================================= the comparison

/-- The comparison of the source as one three-way comparison. -/
def policyCompare : Ranked → Ranked → Ordering :=
  compareLex (compareOn Ranked.rank)
    (compareLex (fun a b => compareOn Ranked.memory b a)
      (compareOn fun r => r.device.deviceId))

instance : TransCmp policyCompare := by
  unfold policyCompare
  infer_instance

/-- The policy in full: rank first, then more memory, then the
device id as a text. -/
theorem policyCompare_lt {a b : Ranked} :
    policyCompare a b = .lt ↔ a.rank < b.rank
      ∨ a.rank = b.rank ∧ (b.memory < a.memory
        ∨ a.memory = b.memory
          ∧ compare a.device.deviceId b.device.deviceId = .lt) := by
  simp only [policyCompare, compareLex, compareOn, Ordering.then_eq_lt,
    Std.compare_eq_iff_eq, Std.compare_eq_lt]
  rw [eq_comm (a := b.memory)]

/-- Two devices tie only where all three parts of the policy agree. -/
theorem policyCompare_eq {a b : Ranked} :
    policyCompare a b = .eq ↔ a.rank = b.rank ∧ a.memory = b.memory
      ∧ a.device.deviceId = b.device.deviceId := by
  simp only [policyCompare, compareLex, compareOn, Ordering.then_eq_eq,
    Std.compare_eq_iff_eq]
  rw [eq_comm (a := b.memory)]

/-- The comparison of the source is the strict half of the policy. -/
theorem before_iff (a b : Ranked) :
    Ranked.before a b = true ↔ policyCompare a b = .lt := by
  rw [policyCompare_lt]
  unfold Ranked.before
  split
  next hrank => simp [hrank]
  next hrank =>
    rw [ne_eq, not_not] at hrank
    split
    next hmemory => simp [hrank, hmemory]
    next hmemory =>
      rw [ne_eq, not_not] at hmemory
      simp [hrank, hmemory]

-- =========================================================== the ranking

/-- No two GPUs share an id. A GPU that is listed twice is still one. -/
def Distinct (gpus : List GpuInfo) : Prop :=
  ∀ g ∈ gpus, ∀ g' ∈ gpus, g.id = g'.id → g = g'

/-- A hardware report lists each device once, by its id. -/
theorem distinct_of_nodup {gpus : List GpuInfo}
    (h : (gpus.map GpuInfo.id).Nodup) : Distinct gpus :=
  fun _ hg _ hg' hid => List.inj_on_of_nodup_map h hg hg' hid

/-- What the source computes for a device that it keeps. -/
def ranking (h : HardwareInfo) (device : RuntimeDevice) : Ranked where
  device := device
  rank := classOf device.backend
  memory := if device.backend = .Cpu then 0 else memoryOf h device.deviceId

/-- A device is ranked when the policy admits it, and its rank and memory
follow from the device. -/
theorem rankDevice_iff {h : HardwareInfo} (hdistinct : Distinct h.gpus)
    {device : RuntimeDevice} {r : Ranked} :
    rankDevice h device = some r
      ↔ Compatible h device ∧ r = ranking h device := by
  refine ⟨fun hrank => ?_, fun ⟨hcompatible, heq⟩ => ?_⟩
  · rcases device with ⟨backend, id⟩
    unfold rankDevice at hrank
    dsimp only at hrank
    split at hrank
    next hcpu =>
      subst hcpu
      split at hrank
      next hempty =>
        injection hrank with hrank
        subst hempty hrank
        exact ⟨.cpu, rfl⟩
      next => cases hrank
    next hcpu =>
      split at hrank
      next => cases hrank
      next gpu hfound =>
        have hmemory : memoryOf h id
            = gpu.vramBytes.getD (gpu.recommendedWorkingSetBytes.getD 0) := by
          simp only [memoryOf, hfound]
        obtain ⟨hlisted, rfl⟩ := (Maps.find?_key hdistinct).1 hfound
        split at hrank
        next => cases hrank
        next hoffered =>
          rw [not_not] at hoffered
          split at hrank
          next hmetal =>
            obtain ⟨hsilicon, havailable, hvendor, rfl⟩ := hmetal
            injection hrank with hrank
            refine ⟨.metal hlisted hvendor hsilicon hoffered havailable, ?_⟩
            simp [← hrank, ranking, classOf, hmemory]
          next =>
            split at hrank
            next hcuda =>
              obtain ⟨havailable, hvendor, rfl⟩ := hcuda
              injection hrank with hrank
              refine ⟨.cuda hlisted hvendor hoffered havailable, ?_⟩
              simp [← hrank, ranking, classOf, hmemory]
            next =>
              split at hrank
              next hvulkan =>
                obtain ⟨havailable, hvendor, rfl⟩ := hvulkan
                injection hrank with hrank
                refine ⟨.vulkan hlisted hvendor hoffered havailable, ?_⟩
                simp [← hrank, ranking, classOf, hmemory]
              next => cases hrank
  · subst heq
    cases hcompatible with
    | cpu => rfl
    | @metal gpu hlisted hvendor hsilicon hoffered havailable =>
        have hfound := (Maps.find?_key hdistinct).2 ⟨hlisted, rfl⟩
        simp [rankDevice, ranking, classOf, memoryOf, hfound,
          hvendor, hsilicon,
          hoffered, havailable]
    | @cuda gpu hlisted hvendor hoffered havailable =>
        have hfound := (Maps.find?_key hdistinct).2 ⟨hlisted, rfl⟩
        simp [rankDevice, ranking, classOf, memoryOf, hfound,
          hvendor, hoffered,
          havailable]
    | @vulkan gpu hlisted hvendor hoffered havailable =>
        have hfound := (Maps.find?_key hdistinct).2 ⟨hlisted, rfl⟩
        simp [rankDevice, ranking, classOf, memoryOf, hfound,
          hvendor, hoffered,
          havailable]

/-- The ranking only asks which GPUs there are. -/
theorem rankDevice_congr {h : HardwareInfo} (hdistinct : Distinct h.gpus)
    {gpus : List GpuInfo} (hsame : ∀ g, g ∈ gpus ↔ g ∈ h.gpus)
    (device : RuntimeDevice) :
    rankDevice { h with gpus := gpus } device = rankDevice h device := by
  have hdistinct' : Distinct gpus := fun g hg g' hg' =>
    hdistinct g ((hsame g).1 hg) g' ((hsame g').1 hg')
  have hfind : (gpus.find? fun g => g.id == device.deviceId)
      = h.gpus.find? fun g => g.id == device.deviceId :=
    Option.ext fun gpu => by
      rw [Maps.find?_key hdistinct, Maps.find?_key hdistinct', hsame]
  simp only [rankDevice, hfind]

-- ================================================ the loop and the sort

/-- One turn of the loop over the supported devices. -/
def rankStep (h : HardwareInfo) (ranked : List Ranked)
    (device : RuntimeDevice) : List Ranked :=
  if ranked.any fun r => r.device == device then ranked
  else match rankDevice h device with
    | none => ranked
    | some r => ranked ++ [r]

/-- The list that the source sorts. -/
def rankedDevices (h : HardwareInfo) (supported : List RuntimeDevice) :
    List Ranked :=
  supported.foldl (rankStep h) []

/-- The source ranks, sorts and then drops the ranks. The sort is stable, and
any sort gives the same result below. -/
theorem orderExecutionDevices_eq (h : HardwareInfo)
    (supported : List RuntimeDevice) :
    orderExecutionDevices h supported
      = ((rankedDevices h supported).insertionSort
          fun a b => Ranked.before b a = false).map Ranked.device :=
  rfl

/-- Ranking keeps the device that it ranks. -/
theorem rankDevice_device {h : HardwareInfo} {device : RuntimeDevice}
    {r : Ranked} (hrank : rankDevice h device = some r) :
    r.device = device := by
  unfold rankDevice at hrank
  dsimp only at hrank
  repeat' split at hrank
  all_goals cases hrank <;> rfl

/-- What the loop has kept: the ranked ones of the devices it has passed,
each once. -/
structure Kept (h : HardwareInfo) (passed : List RuntimeDevice)
    (ranked : List Ranked) : Prop where
  nodup : (ranked.map Ranked.device).Nodup
  mem : ∀ r, r ∈ ranked ↔ ∃ d ∈ passed, rankDevice h d = some r

/-- One round of the loop keeps one entry for each compatible device passed so
far, by its first mention. -/
theorem Kept.step {h : HardwareInfo} {passed : List RuntimeDevice}
    {ranked : List Ranked} (hkept : Kept h passed ranked)
    (device : RuntimeDevice) :
    Kept h (passed ++ [device]) (rankStep h ranked device) := by
  have hpassed : ∀ r, (∃ d ∈ passed ++ [device], rankDevice h d = some r)
      ↔ r ∈ ranked ∨ rankDevice h device = some r := by
    intro r
    rw [hkept.mem]
    simp [or_and_right, exists_or]
  unfold rankStep
  split
  case isTrue hseen =>
    -- the same device has been ranked, so its rank is there already
    refine ⟨hkept.nodup, fun r => ?_⟩
    rw [hpassed]
    refine ⟨.inl, fun hr => hr.elim id fun hrank => ?_⟩
    obtain ⟨r', hr', hdevice⟩ := List.any_eq_true.1 hseen
    obtain ⟨d, -, hrank'⟩ := (hkept.mem r').1 hr'
    have hd : d = device := (rankDevice_device hrank').symm.trans
      (by simpa using hdevice)
    rw [hd, hrank] at hrank'
    injection hrank' with hrank'
    exact hrank' ▸ hr'
  case isFalse hnew =>
    split
    next hnone =>
      refine ⟨hkept.nodup, fun r => ?_⟩
      rw [hpassed, hnone]
      simp
    next r hrank =>
      refine ⟨?_, fun r' => ?_⟩
      · rw [List.map_append, List.nodup_append]
        refine ⟨hkept.nodup, List.nodup_singleton _, ?_⟩
        intro d hd d' hd' heq
        obtain ⟨r', hr', rfl⟩ := List.mem_map.1 hd
        rw [List.map_singleton, List.mem_singleton] at hd'
        refine hnew (List.any_eq_true.2 ⟨r', hr', ?_⟩)
        rw [beq_iff_eq, heq, hd']
        exact rankDevice_device hrank
      · rw [hpassed, List.mem_append, List.mem_singleton, hrank,
          Option.some.injEq,
          eq_comm]

/-- By induction over the supported devices, the loop ends with
one entry each. -/
theorem kept_rankedDevices (h : HardwareInfo)
    (supported : List RuntimeDevice) :
    Kept h supported (rankedDevices h supported) := by
  have hrun : ∀ (rest passed : List RuntimeDevice) (ranked : List Ranked),
      Kept h passed ranked →
      Kept h (passed ++ rest) (rest.foldl (rankStep h) ranked) := by
    intro rest
    induction rest with
    | nil =>
        intro passed ranked hkept
        rwa [List.append_nil]
    | cons device rest ih =>
        intro passed ranked hkept
        simpa using ih _ _ (hkept.step device)
  exact hrun supported [] [] ⟨List.nodup_nil, by simp⟩

/-- Every ranked device is one that is supported and admitted, and its rank
and memory follow from it. -/
theorem mem_rankedDevices {h : HardwareInfo} (hdistinct : Distinct h.gpus)
    {supported : List RuntimeDevice} {r : Ranked} :
    r ∈ rankedDevices h supported
      ↔ r.device ∈ supported ∧ Compatible h r.device
        ∧ r = ranking h r.device := by
  rw [(kept_rankedDevices h supported).mem]
  refine ⟨fun ⟨d, hd, hrank⟩ => ?_, fun ⟨hd, hcompatible, heq⟩ =>
    ⟨r.device, hd, (rankDevice_iff hdistinct).2 ⟨hcompatible, heq⟩⟩⟩
  have hdevice := rankDevice_device hrank
  subst hdevice
  exact ⟨hd, (rankDevice_iff hdistinct).1 hrank⟩

/-- A device that is reported twice is ranked once. -/
theorem nodup_rankedDevices (h : HardwareInfo)
    (supported : List RuntimeDevice) : (rankedDevices h supported).Nodup :=
  List.Nodup.of_map _ (kept_rankedDevices h supported).nodup

/-- Two ranked devices that tie have one class, so one backend, and one id. -/
theorem strict_rankedDevices {h : HardwareInfo} (hdistinct : Distinct h.gpus)
    (supported : List RuntimeDevice) :
    Sorting.Strict policyCompare (rankedDevices h supported) := by
  intro a ha b hb htie
  obtain ⟨hrank, -, hid⟩ := policyCompare_eq.1 htie
  obtain ⟨-, -, ha⟩ := (mem_rankedDevices hdistinct).1 ha
  obtain ⟨-, -, hb⟩ := (mem_rankedDevices hdistinct).1 hb
  have hbackend : a.device.backend = b.device.backend := by
    rw [ha, hb] at hrank
    exact classOf_inj hrank
  have hdevice : a.device = b.device := by
    rcases hda : a.device with ⟨backend, id⟩
    rcases hdb : b.device with ⟨backend', id'⟩
    simp only [hda, hdb] at hbackend hid
    rw [hbackend, hid]
  rw [ha, hb, hdevice]

/-- On admitted devices the comparison is the policy's. -/
theorem precedes_of_lt {h : HardwareInfo} {a b : RuntimeDevice}
    (ha : Compatible h a) (hb : Compatible h b)
    (hlt : policyCompare (ranking h a) (ranking h b) = .lt) :
    Precedes h a b := by
  rcases policyCompare_lt.1 hlt with hclass | ⟨hclass, hrest⟩
  · exact .inl hclass
  have hbackend : a.backend = b.backend := classOf_inj hclass
  by_cases hcpu : a.backend = .Cpu
  · -- the processor is one device, and it does not precede itself
    have hprocessor : ∀ d, Compatible h d → d.backend = .Cpu →
        d = ⟨.Cpu, []⟩ := by
      intro d hd hbackend
      cases hd <;> first | rfl | cases hbackend
    rw [hprocessor a ha hcpu, hprocessor b hb (hbackend ▸ hcpu)] at hlt
    simp [Std.ReflCmp.compare_self] at hlt
  · have hcpu' : b.backend ≠ .Cpu := hbackend ▸ hcpu
    simp only [ranking, if_neg hcpu, if_neg hcpu'] at hrest
    exact .inr ⟨hbackend, hrest⟩

/-- The list that is sorted, sorted. -/
def sortedDevices (h : HardwareInfo) (supported : List RuntimeDevice) :
    List Ranked :=
  (rankedDevices h supported).insertionSort fun a b =>
    Ranked.before b a = false

theorem not_before_iff (a b : Ranked) :
    Ranked.before b a = false ↔ policyCompare b a ≠ .lt := by
  rw [← Bool.not_eq_true, before_iff]

/-- Insertion sort orders by the policy, which is total. -/
theorem sorted_sortedDevices (h : HardwareInfo)
    (supported : List RuntimeDevice) :
    Sorting.Sorted policyCompare (sortedDevices h supported) :=
  Sorting.sorted_insertionSort not_before_iff _

theorem perm_sortedDevices (h : HardwareInfo)
    (supported : List RuntimeDevice) :
    (sortedDevices h supported).Perm (rankedDevices h supported) :=
  List.perm_insertionSort _ _

/-- Nothing but the compatible devices is ranked, each with the rank that it
has by itself. -/
theorem mem_sortedDevices {h : HardwareInfo} (hdistinct : Distinct h.gpus)
    {supported : List RuntimeDevice} {r : Ranked} :
    r ∈ sortedDevices h supported
      ↔ r.device ∈ supported ∧ Compatible h r.device
        ∧ r = ranking h r.device := by
  rw [(perm_sortedDevices h supported).mem_iff, mem_rankedDevices hdistinct]

/-- With distinct ids the order is strict: no two devices tie. -/
theorem increasing_sortedDevices {h : HardwareInfo}
    (hdistinct : Distinct h.gpus) (supported : List RuntimeDevice) :
    (sortedDevices h supported).Pairwise fun a b => policyCompare a b
      = .lt := by
  have hperm := perm_sortedDevices h supported
  refine (sorted_sortedDevices h supported).increasing
    (hperm.nodup_iff.2 (nodup_rankedDevices h supported)) fun a ha b hb => ?_
  exact strict_rankedDevices hdistinct supported a (hperm.mem_iff.1 ha) b
    (hperm.mem_iff.1 hb)

-- ============================================================ the order

/-- The devices that are tried, each once. -/
theorem orderExecutionDevices_nodup (h : HardwareInfo)
    (supported : List RuntimeDevice) :
    (orderExecutionDevices h supported).Nodup := by
  rw [orderExecutionDevices_eq,
    ((List.perm_insertionSort _ _).map Ranked.device).nodup_iff]
  exact (kept_rankedDevices h supported).nodup

/-- The order is over exactly the supported and compatible devices. -/
theorem mem_orderExecutionDevices {h : HardwareInfo}
    (hdistinct : Distinct h.gpus) {supported : List RuntimeDevice}
    {d : RuntimeDevice} :
    d ∈ orderExecutionDevices h supported
      ↔ d ∈ supported ∧ Compatible h d := by
  refine List.mem_map.trans ⟨?_, fun ⟨hd, hcompatible⟩ =>
    ⟨ranking h d, (mem_sortedDevices hdistinct).2 ⟨hd, hcompatible, rfl⟩, rfl⟩⟩
  rintro ⟨r, hr, rfl⟩
  obtain ⟨hd, hcompatible, -⟩ := (mem_sortedDevices hdistinct).1 hr
  exact ⟨hd, hcompatible⟩

/-- Every earlier device precedes every later one by the policy, not only the
next one. -/
theorem ordered_orderExecutionDevices {h : HardwareInfo}
    (hdistinct : Distinct h.gpus) (supported : List RuntimeDevice) :
    (orderExecutionDevices h supported).Pairwise (Precedes h) := by
  refine List.pairwise_map.2 ((increasing_sortedDevices hdistinct
    supported).imp_of_mem fun {a b} ha hb hlt => ?_)
  obtain ⟨-, hadmitted, ha⟩ := (mem_sortedDevices hdistinct).1 ha
  obtain ⟨-, hadmitted', hb⟩ := (mem_sortedDevices hdistinct).1 hb
  rw [ha, hb] at hlt
  exact precedes_of_lt hadmitted hadmitted' hlt

/-- The order only asks which devices are supported and which
GPUs there are. -/
theorem orderExecutionDevices_congr {h : HardwareInfo}
    (hdistinct : Distinct h.gpus) {gpus : List GpuInfo}
    (hgpus : ∀ g, g ∈ gpus ↔ g ∈ h.gpus)
    {supported supported' : List RuntimeDevice}
    (hsupported : ∀ d, d ∈ supported' ↔ d ∈ supported) :
    orderExecutionDevices { h with gpus := gpus } supported'
      = orderExecutionDevices h supported := by
  have hdistinct' : Distinct gpus := fun g hg g' hg' =>
    hdistinct g ((hgpus g).1 hg) g' ((hgpus g').1 hg')
  have hmem : ∀ r, r ∈ sortedDevices { h with gpus := gpus } supported'
      ↔ r ∈ sortedDevices h supported := by
    intro r
    rw [(perm_sortedDevices _ _).mem_iff, (perm_sortedDevices _ _).mem_iff,
      (kept_rankedDevices _ _).mem, (kept_rankedDevices _ _).mem]
    simp only [hsupported, rankDevice_congr hdistinct hgpus]
  have hsame := Sorting.increasing_unique
    (increasing_sortedDevices (h := { h with gpus := gpus })
      hdistinct' supported')
    (increasing_sortedDevices hdistinct supported) hmem
  exact congrArg (List.map Ranked.device) hsame

/-- Where no two GPUs share an id the order is the policy's: the supported
devices that the machine admits, each once, the earlier ones preferred. It
does not depend on which sort is used, nor on the order or the repetitions
of the devices and of the GPUs. -/
theorem order_canonical (h : HardwareInfo) (supported : List RuntimeDevice)
    (hids : (h.gpus.map GpuInfo.id).Nodup) :
    (orderExecutionDevices h supported).Nodup
    ∧ (∀ d, d ∈ orderExecutionDevices h supported
        ↔ d ∈ supported ∧ Compatible h d)
    ∧ (orderExecutionDevices h supported).Pairwise (Precedes h)
    ∧ (∀ sorted : List Ranked, sorted.Perm (rankedDevices h supported) →
        sorted.Pairwise (fun a b => Ranked.before b a = false) →
        sorted.map Ranked.device = orderExecutionDevices h supported)
    ∧ ∀ (gpus : List GpuInfo) (supported' : List RuntimeDevice),
        (∀ g, g ∈ gpus ↔ g ∈ h.gpus) →
        (∀ d, d ∈ supported' ↔ d ∈ supported) →
        orderExecutionDevices { h with gpus := gpus } supported'
          = orderExecutionDevices h supported := by
  have hdistinct := distinct_of_nodup hids
  refine ⟨orderExecutionDevices_nodup h supported,
    fun d => mem_orderExecutionDevices hdistinct,
    ordered_orderExecutionDevices hdistinct supported,
    fun sorted hperm hsorted => ?_,
    fun gpus supported' hgpus hsupported =>
      orderExecutionDevices_congr hdistinct hgpus hsupported⟩
  have hsame := Sorting.sorted_unique
    (hperm.trans (perm_sortedDevices h supported).symm)
    ((perm_sortedDevices h supported).nodup_iff.2
      (nodup_rankedDevices h supported))
    (fun a ha b hb => strict_rankedDevices hdistinct supported a
      ((perm_sortedDevices h supported).mem_iff.1 ha) b
      ((perm_sortedDevices h supported).mem_iff.1 hb))
    (sorted_sortedDevices h supported)
    (hsorted.imp fun {a b} h => (not_before_iff a b).1 h)
  exact congrArg (List.map Ranked.device) hsame

/-- Two cards of one class, listed in either order. -/
theorem order_canonical_sample :
    orderExecutionDevices
        ⟨none, false, [⟨qs "z", .Amd, some 32, none, [.Vulkan]⟩,
          ⟨qs "a", .Intel, some 32, none, [.Vulkan]⟩], false, false, true⟩
        [⟨.Vulkan, qs "z"⟩, ⟨.Cpu, []⟩, ⟨.Vulkan, qs "a"⟩, ⟨.Vulkan, qs "z"⟩]
      = orderExecutionDevices
        ⟨none, false, [⟨qs "a", .Intel, some 32, none, [.Vulkan]⟩,
          ⟨qs "z", .Amd, some 32, none, [.Vulkan]⟩], false, false, true⟩
        [⟨.Cpu, []⟩, ⟨.Vulkan, qs "a"⟩, ⟨.Vulkan, qs "z"⟩] := by
  refine (order_canonical
    ⟨none, false, [⟨qs "a", .Intel, some 32, none, [.Vulkan]⟩,
      ⟨qs "z", .Amd, some 32, none, [.Vulkan]⟩], false, false, true⟩
    [⟨.Cpu, []⟩, ⟨.Vulkan, qs "a"⟩, ⟨.Vulkan, qs "z"⟩] (by decide)).2.2.2.2 _ _
    (fun g => ?_) (fun d => ?_)
  · simp [or_comm]
  · simp only [List.mem_cons, List.not_mem_nil, or_false]
    tauto

end Devices

end LocalLLM
