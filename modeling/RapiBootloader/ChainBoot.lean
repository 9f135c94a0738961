import RapiBootloader.Lib.Memory

namespace RapiBootloader.ChainBoot

open Lib.Memory

/-- The value of `KERNEL_MAX_SIZE` a loader is built with. -/
structure KernelMaxSize where
  bytes : Nat
  small : bytes < 0x80000000

inductive HeapType
  | heapLow
  | heapHigh
deriving DecidableEq, Repr

/-- What Circle's memory system answers at the time of a call. The cells of a
fresh block hold whatever was there. -/
structure MemorySystem where
  highMemSize : Nat
  heapFreeSpace : HeapType → Nat
  new : HeapType → Nat → Option (Mem UInt8)

def stageAlloc (pMem : MemorySystem) (size : Nat) : Option (Mem UInt8) :=
  if pMem.highMemSize ≥ size ∧ pMem.heapFreeSpace .heapHigh ≥ size then pMem.new .heapHigh size
  else if pMem.heapFreeSpace .heapLow ≥ size then pMem.new .heapLow size
  else none

variable {P : Type}

/-- The statics of the Pi 5 chain-boot that its callers see, over the type of the
image pointers. -/
structure Statics (P : Type) where
  kernelImage : Option P
  kernelSize : Nat
  loaderMainReturned : Bool

def Statics.init : Statics P := ⟨none, 0, false⟩

def enableChainBoot (c : Statics P) (kernelImage : P) (kernelSize : Nat) : Statics P :=
  { c with kernelImage := some kernelImage, kernelSize := kernelSize }

def rapiChainBootMainReturning (c : Statics P) : Statics P :=
  { c with loaderMainReturned := true }

/-- How a call of `IsChainBootEnabled` ends: in the hand-off it does not return. -/
inductive Poll
  | disabled
  | enabled
  | handOff
deriving DecidableEq, Repr

def isChainBootEnabled (c : Statics P) : Poll :=
  if c.kernelImage.isNone then .disabled
  else if !c.loaderMainReturned then .enabled
  else .handOff

end RapiBootloader.ChainBoot
