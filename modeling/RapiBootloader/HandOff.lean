import RapiBootloader.ChainBoot
import RapiBootloader.Lib.Strings
import RapiBootloader.Lib.Words

namespace RapiBootloader.HandOff

open Lib.Memory Lib.Words Lib.Strings ChainBoot

def memKernelStart : Nat := 0x80000
def armDTBPtr32 : Nat := 0xF8
def rapiStubMaxSize : Nat := 0x400

def fdtMagic : Nat := 0xD00DFEED
def fdtLastCompVersion : Nat := 16
def fdtWordMagic : Nat := 0
def fdtWordTotalSize : Nat := 1
def fdtWordLastCompVer : Nat := 6
def fdtMaxSize : Nat := 0x100000

def dtbEthernetNode : List UInt8 := ascii "/axi/pcie@1000120000/rp1/ethernet@100000"
def dtbMACProperty : List UInt8 := ascii "local-mac-address"

structure MemoryMap where
  kernelMaxSize : Nat
  wholeWords : 4 ∣ kernelMaxSize
  addressable : memKernelStart + kernelMaxSize ≤ 0x10000000000000000

def MemoryMap.memKernelEnd (map : MemoryMap) : Nat := memKernelStart + map.kernelMaxSize

def Outside (map : MemoryMap) (p size : Nat) : Prop :=
  p + size ≤ memKernelStart ∨ map.memKernelEnd ≤ p

/-- Circle's heap at the time of a call: what it answers, and the addresses of the blocks it
hands out. Here and below 0 is the null pointer. -/
structure Heap where
  highMemSize : Nat
  heapFreeSpace : HeapType → Nat
  new : HeapType → Nat → Nat
  newDefault : Nat → Nat

def stageAlloc (pMem : Heap) (size : Nat) : Nat :=
  if pMem.highMemSize ≥ size ∧ pMem.heapFreeSpace .heapHigh ≥ size then pMem.new .heapHigh size
  else if pMem.heapFreeSpace .heapLow ≥ size then pMem.new .heapLow size
  else 0

/-- Circle's parser of the device tree: its only data member, and what it answers. -/
structure DeviceTreeBlob where
  blob : Nat
  findNode : List UInt8 → Nat
  findProperty : Nat → List UInt8 → Nat
  getPropertyValueLength : Nat → Nat
  getPropertyValue : Nat → Nat

structure Statics where
  kernelImage : Nat
  kernelSize : Nat
  stub : Nat
  loaderMainReturned : Bool
  dtbCopy : Nat
  dtbSize : Nat

def Statics.init : Statics := ⟨0, 0, 0, false, 0, 0⟩

inductive LogLine
  | dtbAbove4GB
  | dtbStaged (totalSize copy : Nat) (mac : List UInt8)
deriving DecidableEq, Repr

def be2le32 (n : Nat) : Nat := wordOf (wordBytes 4 n).reverse

def headerWord (m : Mem UInt8) (blob i : Nat) : Nat := be2le32 (load 4 m (blob + 4 * i))

/-- The checks of `CaptureDTB` on what the parser holds. The result is the size of the tree
and the bytes of the MAC address in it. -/
def checkedDTB (m : Mem UInt8) (pDTB : DeviceTreeBlob) : Option (Nat × List UInt8) :=
  if pDTB.blob = 0 then none
  else if headerWord m pDTB.blob fdtWordMagic ≠ fdtMagic then none
  else
    let totalSize := headerWord m pDTB.blob fdtWordTotalSize
    if totalSize < 40 ∨ totalSize > fdtMaxSize ∨
        headerWord m pDTB.blob fdtWordLastCompVer ≠ fdtLastCompVersion then none
    else
      let pNode := pDTB.findNode dtbEthernetNode
      if pNode = 0 then none
      else
        let pMAC := pDTB.findProperty pNode dtbMACProperty
        if pMAC = 0 ∨ pDTB.getPropertyValueLength pMAC ≠ 6 then none
        else
          let macValue := pDTB.getPropertyValue pMAC
          if macValue < pDTB.blob ∨ macValue + 6 > pDTB.blob + totalSize then none
          else some (totalSize, read m macValue 6)

def captureDTB (pMem : Heap) (pDTB : Option DeviceTreeBlob) (m : Mem UInt8) (s : Statics) :
    Mem UInt8 × Statics × Option LogLine :=
  if s.dtbCopy ≠ 0 then (m, s, none)
  else
    match pDTB with
    | none => (m, s, none)
    | some pDTB =>
      match checkedDTB m pDTB with
      | none => (m, s, none)
      | some (totalSize, mac) =>
        let pCopy := stageAlloc pMem totalSize
        if pCopy = 0 then (m, s, none)
        else if pCopy + totalSize > 0x100000000 then (m, s, some .dtbAbove4GB)
        else
          (write m pCopy (read m pDTB.blob totalSize),
            { s with dtbCopy := pCopy, dtbSize := totalSize },
            some (.dtbStaged totalSize pCopy mac))

/-- Where the stub is staged: the first cache line of a fresh block, unless it has a place. -/
def stubPlace (pMem : Heap) (s : Statics) : Nat :=
  if s.stub = 0 then (pMem.newDefault (rapiStubMaxSize + 63) + 63) / 64 * 64 else s.stub

/-- `stubAt` is the address `RapiChainBootStub` was linked to. -/
def enableChainBoot (stubAt : Nat) (pMem : Heap) (pDTB : Option DeviceTreeBlob) (m : Mem UInt8)
    (s : Statics) (kernelImage kernelSize : Nat) : Mem UInt8 × Statics × Option LogLine :=
  let captured := captureDTB pMem pDTB m { s with kernelImage, kernelSize }
  let stub := stubPlace pMem captured.2.1
  (write captured.1 stub (read captured.1 stubAt rapiStubMaxSize),
    { captured.2.1 with stub }, captured.2.2)

def rapiChainBootMainReturning (s : Statics) : Statics := { s with loaderMainReturned := true }

/-- `while (nKernelSize--) *pDest++ = *pSrc++;` on 32-bit words. The second result is the
address of each store. -/
def wordLoop (m : Mem UInt8) (pSrc pDest : Nat) : Nat → Mem UInt8 × List Nat
  | 0 => (m, [])
  | kernelSize + 1 =>
    let rest := wordLoop (store 4 m pDest (load 4 m pSrc)) (pSrc + 4) (pDest + 4) kernelSize
    (rest.1, pDest :: rest.2)

/-- The two statements on `nKernelSize` before the loop. -/
def wordCount (kernelSize : Nat) : Nat := (kernelSize + 3) % 0x10000000000000000 / 4

def rapiChainBootStub (m : Mem UInt8) (kernelImage kernelSize : Nat) : Mem UInt8 × List Nat :=
  wordLoop m kernelImage memKernelStart (wordCount kernelSize)

def pointDTBSlot (m : Mem UInt8) (s : Statics) : Mem UInt8 :=
  if s.dtbCopy ≠ 0 then store 4 m armDTBPtr32 s.dtbCopy else m

def doChainBoot (m : Mem UInt8) (s : Statics) : Mem UInt8 × List Nat :=
  rapiChainBootStub (pointDTBSlot m s) s.kernelImage s.kernelSize

theorem wordLoop_mem (m : Mem UInt8) (pSrc pDest k : Nat) :
    (wordLoop m pSrc pDest k).1 = copyChunks 4 m pSrc pDest k := by
  induction k generalizing m pSrc pDest with
  | zero => rfl
  | succ k ih =>
    rw [copyChunks, ← store_load]
    exact ih _ _ _

theorem wordLoop_stores (m : Mem UInt8) (pSrc pDest k : Nat) :
    (wordLoop m pSrc pDest k).2 = List.range' pDest k 4 := by
  induction k generalizing m pSrc pDest with
  | zero => rfl
  | succ k ih =>
    rw [List.range'_succ]
    exact congrArg (pDest :: ·) (ih _ _ _)

theorem mem_stores {m : Mem UInt8} {kernelImage kernelSize p : Nat} :
    p ∈ (rapiChainBootStub m kernelImage kernelSize).2 ↔
      ∃ i < wordCount kernelSize, p = memKernelStart + 4 * i := by
  rw [rapiChainBootStub, wordLoop_stores]
  exact List.mem_range'

theorem stub_changes {m : Mem UInt8} {kernelImage kernelSize a : Nat}
    (h : (rapiChainBootStub m kernelImage kernelSize).1 a ≠ m a) :
    ∃ p ∈ (rapiChainBootStub m kernelImage kernelSize).2, p ≤ a ∧ a < p + 4 := by
  have hin : ¬ (a < memKernelStart ∨ memKernelStart + 4 * wordCount kernelSize ≤ a) := by
    intro hout
    apply h
    rw [rapiChainBootStub, wordLoop_mem]
    exact copyChunks_outside 4 m _ _ _ a hout
  refine ⟨memKernelStart + 4 * ((a - memKernelStart) / 4), mem_stores.mpr ⟨_, ?_, rfl⟩, ?_, ?_⟩
  all_goals omega

variable {map : MemoryMap}

theorem wordCount_eq {n : Nat} (h : n ≤ map.kernelMaxSize) : wordCount n = n ⌈/⌉ 4 := by
  have haddr := map.addressable
  rw [memKernelStart] at haddr
  rw [wordCount, Nat.mod_eq_of_lt (by omega)]
  rfl

def imageEnd (n : Nat) : Nat := memKernelStart + 4 * (n ⌈/⌉ 4)

theorem imageEnd_in_region {n : Nat} (h : n ≤ map.kernelMaxSize) :
    imageEnd n ≤ map.memKernelEnd :=
  Nat.add_le_add_left (words_le (by decide) h map.wholeWords) memKernelStart

theorem stub_keeps {m : Mem UInt8} {kernelImage n p size : Nat} (hn : n ≤ map.kernelMaxSize)
    (h : Outside map p size) :
    read (rapiChainBootStub m kernelImage n).1 p size = read m p size := by
  have hend := imageEnd_in_region hn
  rw [rapiChainBootStub, wordLoop_mem, wordCount_eq hn]
  apply read_copyChunks_outside
  exact h.imp_right hend.trans

theorem stub_copies {m : Mem UInt8} {kernelImage n : Nat} (hn : n ≤ map.kernelMaxSize)
    (h : Outside map kernelImage n) :
    read (rapiChainBootStub m kernelImage n).1 memKernelStart n = read m kernelImage n := by
  have hend := imageEnd_in_region hn
  rw [rapiChainBootStub, wordLoop_mem, wordCount_eq hn]
  apply read_copyChunks
  · exact le_words (by decide) n
  · exact h.imp_right hend.trans

theorem stub_stores {m : Mem UInt8} {kernelImage n p : Nat} (hn : n ≤ map.kernelMaxSize)
    (h : p ∈ (rapiChainBootStub m kernelImage n).2) :
    memKernelStart ≤ p ∧ p + 4 ≤ imageEnd n := by
  obtain ⟨i, hi, rfl⟩ := mem_stores.mp h
  rw [wordCount_eq hn] at hi
  rw [imageEnd]
  omega

/-- Nothing the hand-off uses lies in the copy region, which has room for the image. -/
structure Clear (map : MemoryMap) (s : Statics) : Prop where
  fits : s.kernelSize ≤ map.kernelMaxSize
  source : Outside map s.kernelImage s.kernelSize
  stub : Outside map s.stub rapiStubMaxSize
  dtb : s.dtbCopy ≠ 0 → Outside map s.dtbCopy s.dtbSize

/-- What the copy has made of `m`, and where it wrote. -/
structure Installed (map : MemoryMap) (s : Statics) (m : Mem UInt8)
    (copied : Mem UInt8 × List Nat) : Prop where
  image : read copied.1 memKernelStart s.kernelSize = read m s.kernelImage s.kernelSize
  stores : ∀ p ∈ copied.2, memKernelStart ≤ p ∧ p + 4 ≤ imageEnd s.kernelSize
  inRegion : imageEnd s.kernelSize ≤ map.memKernelEnd
  changes : ∀ a, copied.1 a ≠ m a → ∃ p ∈ copied.2, p ≤ a ∧ a < p + 4
  stub : read copied.1 s.stub rapiStubMaxSize = read m s.stub rapiStubMaxSize
  source : read copied.1 s.kernelImage s.kernelSize = read m s.kernelImage s.kernelSize
  dtb : s.dtbCopy ≠ 0 → read copied.1 s.dtbCopy s.dtbSize = read m s.dtbCopy s.dtbSize

/-- The last word may take bytes from behind the source. They land behind the image. -/
theorem stub_installs_image {s : Statics} (h : Clear map s) (m : Mem UInt8) :
    Installed map s m (rapiChainBootStub m s.kernelImage s.kernelSize) where
  image := stub_copies h.fits h.source
  stores _ hp := stub_stores h.fits hp
  inRegion := imageEnd_in_region h.fits
  changes _ ha := stub_changes ha
  stub := stub_keeps h.fits h.stub
  source := stub_keeps h.fits h.source
  dtb hd := stub_keeps h.fits (h.dtb hd)

def eightBytes : MemoryMap := ⟨8, by decide, by decide⟩

def armedFive : Statics := ⟨0x90000, 5, 0xA0000, true, 0xB0000, 40⟩

theorem stub_installs_five :
    Clear eightBytes armedFive ∧
      Installed eightBytes armedFive (fun a => UInt8.ofNat a)
        (rapiChainBootStub (fun a => UInt8.ofNat a) armedFive.kernelImage
          armedFive.kernelSize) := by
  have hclear : Clear eightBytes armedFive := by
    constructor
    · decide
    · exact Or.inr (by decide)
    · exact Or.inr (by decide)
    · exact fun _ => Or.inr (by decide)
  exact ⟨hclear, stub_installs_image hclear _⟩

/-- What the copy of an image writes stays in the region just if the image fits it. -/
theorem stub_in_region_iff {m : Mem UInt8} {kernelImage n : Nat}
    (hn : n + 3 < 0x10000000000000000) :
    (∀ p ∈ (rapiChainBootStub m kernelImage n).2, p + 4 ≤ map.memKernelEnd) ↔
      n ≤ map.kernelMaxSize := by
  constructor
  · intro h
    by_contra hlt
    have hword := map.wholeWords
    have hcount : map.kernelMaxSize / 4 < wordCount n := by
      rw [wordCount, Nat.mod_eq_of_lt hn]
      omega
    have hlast := h _ (mem_stores.mpr ⟨_, hcount, rfl⟩)
    rw [MemoryMap.memKernelEnd] at hlast
    omega
  · intro h p hp
    exact (stub_stores h hp).2.trans (imageEnd_in_region h)

end RapiBootloader.HandOff
