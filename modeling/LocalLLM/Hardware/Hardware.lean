/-
The hardware snapshot and the order in which devices are tried
(`hardware/Hardware.cpp`): Metal, CUDA, Vulkan, CPU, and within a class
by decreasing memory and then by id.
-/
import LocalLLM.Core.Types

namespace LocalLLM

inductive ComputeBackend
  | Cpu | Metal | Cuda | Vulkan
deriving DecidableEq

/-- `enumName(ComputeBackend)`. -/
def ComputeBackend.enumName : ComputeBackend → QString
  | .Cpu => qs "cpu"
  | .Metal => qs "metal"
  | .Cuda => qs "cuda"
  | .Vulkan => qs "vulkan"

inductive GpuVendor
  | Unknown | Apple | Nvidia | Amd | Intel
deriving DecidableEq

structure GpuInfo where
  id : QString
  vendor : GpuVendor := .Unknown
  vramBytes : Option UInt64 := none
  recommendedWorkingSetBytes : Option UInt64 := none
  availableBackends : List ComputeBackend := []

structure HardwareInfo where
  ramBytes : Option UInt64 := none
  appleSilicon : Bool := false
  gpus : List GpuInfo := []
  metalAvailable : Bool := false
  cudaAvailable : Bool := false
  vulkanAvailable : Bool := false

structure RuntimeDevice where
  backend : ComputeBackend := .Cpu
  deviceId : QString := []
deriving DecidableEq

structure ExecutionSelection where
  runtime : QString
  device : RuntimeDevice
  reason : QString
  fallbackReasons : List QString
deriving DecidableEq

/-- A device with what orders it. -/
structure Ranked where
  device : RuntimeDevice
  rank : Nat
  memory : UInt64
deriving DecidableEq

/-- The class and the memory of a device that the policy admits. -/
def rankDevice (h : HardwareInfo) (device : RuntimeDevice) : Option Ranked :=
  if device.backend = .Cpu then
    if device.deviceId = [] then some ⟨device, 3, 0⟩ else none
  else
    match h.gpus.find? fun g => g.id == device.deviceId with
    | none => none
    | some gpu =>
        let memory := gpu.vramBytes.getD
          (gpu.recommendedWorkingSetBytes.getD 0)
        if device.backend ∉ gpu.availableBackends then none
        else if h.appleSilicon ∧ h.metalAvailable ∧ gpu.vendor = .Apple
            ∧ device.backend = .Metal then some ⟨device, 0, memory⟩
        else if h.cudaAvailable ∧ gpu.vendor = .Nvidia
            ∧ device.backend = .Cuda then some ⟨device, 1, memory⟩
        else if h.vulkanAvailable ∧ (gpu.vendor = .Amd ∨ gpu.vendor = .Intel)
            ∧ device.backend = .Vulkan then some ⟨device, 2, memory⟩
        else none

/-- The comparison handed to `std::sort`. -/
def Ranked.before (a b : Ranked) : Bool :=
  if a.rank ≠ b.rank then a.rank < b.rank
  else if a.memory ≠ b.memory then b.memory < a.memory
  else compare a.device.deviceId b.device.deviceId == .lt

/-- `orderExecutionDevices`. -/
def orderExecutionDevices (h : HardwareInfo) (supported : List RuntimeDevice) :
    List RuntimeDevice :=
  let ranked := supported.foldl (fun ranked device =>
    if ranked.any fun r => r.device == device then ranked
    else match rankDevice h device with
      | none => ranked
      | some r => ranked ++ [r]) []
  (ranked.insertionSort fun a b => Ranked.before b a = false).map Ranked.device

end LocalLLM
