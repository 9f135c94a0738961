import RapiBootloader.HandOff
import RapiBootloader.Lib.Run

namespace RapiBootloader.HandOff

open Lib.Memory Lib.Words Lib.Run ChainBoot

/-- The heap as the callers of `StageAlloc` see it: its blocks as what a pointer to them shows. -/
def Heap.memorySystem (pMem : Heap) (m : Mem UInt8) : MemorySystem :=
  ⟨pMem.highMemSize, pMem.heapFreeSpace, fun type size =>
    if pMem.new type size = 0 then none else some (fun i => m (pMem.new type size + i))⟩

theorem stageAlloc_memorySystem (pMem : Heap) (m : Mem UInt8) (size : Nat) :
    ChainBoot.stageAlloc (pMem.memorySystem m) size =
      if stageAlloc pMem size = 0 then none
      else some (fun i => m (stageAlloc pMem size + i)) := by
  by_cases hhigh : pMem.highMemSize ≥ size ∧ pMem.heapFreeSpace .heapHigh ≥ size
  · have hblock : stageAlloc pMem size = pMem.new .heapHigh size := if_pos hhigh
    rw [hblock]
    exact if_pos hhigh
  · by_cases hlow : pMem.heapFreeSpace .heapLow ≥ size
    · have hblock : stageAlloc pMem size = pMem.new .heapLow size :=
        (if_neg hhigh).trans (if_pos hlow)
      rw [hblock]
      exact (if_neg hhigh).trans (if_pos hlow)
    · have hblock : stageAlloc pMem size = 0 := (if_neg hhigh).trans (if_neg hlow)
      rw [hblock]
      exact (if_neg hhigh).trans (if_neg hlow)

theorem stageAlloc_cases (pMem : Heap) (size : Nat) :
    stageAlloc pMem size = 0 ∨ ∃ type, stageAlloc pMem size = pMem.new type size := by
  rw [stageAlloc]
  split
  · exact Or.inr ⟨.heapHigh, rfl⟩
  · split
    · exact Or.inr ⟨.heapLow, rfl⟩
    · exact Or.inl rfl

structure IsTree (m : Mem UInt8) (p n : Nat) : Prop where
  magic : headerWord m p fdtWordMagic = fdtMagic
  totalSize : headerWord m p fdtWordTotalSize = n
  lastCompVersion : headerWord m p fdtWordLastCompVer = fdtLastCompVersion
  holdsHeader : 40 ≤ n
  atMost : n ≤ fdtMaxSize

theorem IsTree.congr {m m' : Mem UInt8} {p q n : Nat} (h : IsTree m p n)
    (hread : read m' q n = read m p n) : IsTree m' q n := by
  have hn := h.holdsHeader
  have hword : ∀ i, i < 10 → headerWord m' q i = headerWord m p i := by
    intro i hi
    rw [headerWord, headerWord, load_congr hread (by omega)]
  constructor
  · exact (hword _ (by decide)).trans h.magic
  · exact (hword _ (by decide)).trans h.totalSize
  · exact (hword _ (by decide)).trans h.lastCompVersion
  · exact hn
  · exact h.atMost

theorem checkedDTB_isTree {m : Mem UInt8} {pDTB : DeviceTreeBlob} {n : Nat} {mac : List UInt8}
    (h : checkedDTB m pDTB = some (n, mac)) : IsTree m pDTB.blob n := by
  simp only [checkedDTB, ite_eq_iff, reduceCtorEq, and_false, false_or, not_or, not_not, ne_eq,
    not_lt, gt_iff_lt, Option.some.injEq, Prod.mk.injEq] at h
  obtain ⟨-, hmagic, ⟨hlow, hhigh, hversion⟩, -, -, -, hn, -⟩ := h
  rw [hn] at hlow hhigh
  exact ⟨hmagic, hn, hversion, hlow, hhigh⟩

/-- `CaptureDTB` does nothing to the memory and the statics, or it has put a copy of a device
tree into a staging block the slot can address. -/
inductive Captures (pMem : Heap) (m : Mem UInt8) (s : Statics) : Mem UInt8 → Statics → Prop
  | nothing : Captures pMem m s m s
  | copy (blob n : Nat) (hfirst : s.dtbCopy = 0) (htree : IsTree m blob n)
      (hblock : stageAlloc pMem n ≠ 0) (hslot : stageAlloc pMem n + n ≤ 0x100000000) :
      Captures pMem m s (write m (stageAlloc pMem n) (read m blob n))
        { s with dtbCopy := stageAlloc pMem n, dtbSize := n }

theorem Captures.frame {pMem : Heap} {m m' : Mem UInt8} {s s' : Statics}
    (h : Captures pMem m s m' s') :
    s'.kernelImage = s.kernelImage ∧ s'.kernelSize = s.kernelSize ∧
      s'.loaderMainReturned = s.loaderMainReturned := by
  cases h <;> exact ⟨rfl, rfl, rfl⟩

theorem captureDTB_captures (pMem : Heap) (pDTB : Option DeviceTreeBlob) (m : Mem UInt8)
    (s : Statics) :
    Captures pMem m s (captureDTB pMem pDTB m s).1 (captureDTB pMem pDTB m s).2.1 := by
  unfold captureDTB
  split
  · exact .nothing
  rename_i hfirst
  cases pDTB with
  | none => exact .nothing
  | some pDTB =>
    dsimp only
    cases hc : checkedDTB m pDTB with
    | none => exact .nothing
    | some checked =>
      obtain ⟨n, mac⟩ := checked
      dsimp only
      split
      · exact .nothing
      · rename_i hblock
        split
        · exact .nothing
        · rename_i hslot
          exact .copy pDTB.blob n (not_not.mp hfirst) (checkedDTB_isTree hc) hblock
            (Nat.not_lt.mp hslot)

variable {map : MemoryMap} {stubAt : Nat} {code : List UInt8}

/-- What the memory map and the heap promise of the blocks that one call of `EnableChainBoot`
can take. -/
structure Promises (map : MemoryMap) (s : Statics) (pMem : Heap) : Prop where
  staged : ∀ type size, pMem.new type size ≠ 0 → map.memKernelEnd ≤ pMem.new type size
  stub : map.memKernelEnd ≤ pMem.newDefault (rapiStubMaxSize + 63)
  stagedFresh : s.stub ≠ 0 → ∀ type size, pMem.new type size ≠ 0 →
    Apart (pMem.new type size) size s.stub rapiStubMaxSize
  stubFresh : s.dtbCopy ≠ 0 →
    Apart s.dtbCopy s.dtbSize (pMem.newDefault (rapiStubMaxSize + 63)) (rapiStubMaxSize + 63)
  distinct : ∀ type size, pMem.new type size ≠ 0 →
    Apart (pMem.new type size) size (pMem.newDefault (rapiStubMaxSize + 63)) (rapiStubMaxSize + 63)

/-- The stub and the device tree are where the hand-off expects them, above the copy region and
clear of each other. -/
structure Kept (map : MemoryMap) (stubAt : Nat) (code : List UInt8) (m : Mem UInt8) (s : Statics) :
    Prop where
  text : read m stubAt rapiStubMaxSize = code
  stub : s.stub ≠ 0 → map.memKernelEnd ≤ s.stub ∧ read m s.stub rapiStubMaxSize = code
  dtb : s.dtbCopy ≠ 0 → map.memKernelEnd ≤ s.dtbCopy ∧
    s.dtbCopy + s.dtbSize ≤ 0x100000000 ∧ IsTree m s.dtbCopy s.dtbSize
  apart : s.stub ≠ 0 → s.dtbCopy ≠ 0 → Apart s.dtbCopy s.dtbSize s.stub rapiStubMaxSize

theorem Kept.capture {m m' : Mem UInt8} {s s' : Statics} {pMem : Heap}
    (htext : stubAt + rapiStubMaxSize ≤ map.memKernelEnd) (h : Kept map stubAt code m s)
    (hp : Promises map s pMem) (hc : Captures pMem m s m' s') :
    Kept map stubAt code m' s' ∧ (s'.dtbCopy ≠ 0 →
      Apart s'.dtbCopy s'.dtbSize (pMem.newDefault (rapiStubMaxSize + 63))
        (rapiStubMaxSize + 63)) := by
  cases hc with
  | nothing => exact ⟨h, hp.stubFresh⟩
  | copy blob n hfirst htree hblock hslot =>
    obtain hnull | ⟨type, htype⟩ := stageAlloc_cases pMem n
    · exact absurd hnull hblock
    rw [htype] at hblock hslot ⊢
    have habove := hp.staged type n hblock
    have hlen := length_read m blob n
    have hcopy : read (write m (pMem.new type n) (read m blob n)) (pMem.new type n) n =
        read m blob n := by
      have hread := (holds_write m (pMem.new type n) (read m blob n)).read_eq
      rwa [hlen] at hread
    refine ⟨?_, fun _ => hp.distinct type n hblock⟩
    constructor
    · rw [read_write_apart (Or.inl (htext.trans habove)), h.text]
    · intro hs
      refine ⟨(h.stub hs).1, ?_⟩
      rw [read_write_apart, (h.stub hs).2]
      rw [hlen]
      exact (hp.stagedFresh hs type n hblock).symm
    · exact fun _ => ⟨habove, hslot, htree.congr hcopy⟩
    · exact fun hs _ => hp.stagedFresh hs type n hblock

theorem Kept.place {m : Mem UInt8} {s : Statics} {stub : Nat}
    (htext : stubAt + rapiStubMaxSize ≤ map.memKernelEnd) (h : Kept map stubAt code m s)
    (habove : map.memKernelEnd ≤ stub)
    (hapart : s.dtbCopy ≠ 0 → Apart s.dtbCopy s.dtbSize stub rapiStubMaxSize) :
    Kept map stubAt code (write m stub (read m stubAt rapiStubMaxSize)) { s with stub } := by
  have hlen := length_read m stubAt rapiStubMaxSize
  refine ⟨?_, fun _ => ⟨habove, ?_⟩, fun hd => ?_, fun _ hd => hapart hd⟩
  · rw [read_write_apart (Or.inl (htext.trans habove)), h.text]
  · have hread := (holds_write m stub (read m stubAt rapiStubMaxSize)).read_eq
    rw [hlen] at hread
    rw [hread, h.text]
  · obtain ⟨hlow, hslot, htree⟩ := h.dtb hd
    refine ⟨hlow, hslot, htree.congr ?_⟩
    apply read_write_apart
    rw [hlen]
    exact hapart hd

theorem stubPlace_fresh (pMem : Heap) {s : Statics} (h : s.stub = 0) :
    pMem.newDefault (rapiStubMaxSize + 63) ≤ stubPlace pMem s ∧
      stubPlace pMem s + rapiStubMaxSize ≤
        pMem.newDefault (rapiStubMaxSize + 63) + (rapiStubMaxSize + 63) := by
  rw [stubPlace, if_pos h]
  omega

theorem Kept.stubPlace {m : Mem UInt8} {s : Statics} {pMem : Heap} (h : Kept map stubAt code m s)
    (habove : map.memKernelEnd ≤ pMem.newDefault (rapiStubMaxSize + 63))
    (hapart : s.dtbCopy ≠ 0 →
      Apart s.dtbCopy s.dtbSize (pMem.newDefault (rapiStubMaxSize + 63)) (rapiStubMaxSize + 63)) :
    map.memKernelEnd ≤ stubPlace pMem s ∧
      (s.dtbCopy ≠ 0 → Apart s.dtbCopy s.dtbSize (stubPlace pMem s) rapiStubMaxSize) := by
  by_cases hs : s.stub = 0
  · obtain ⟨hlow, hhigh⟩ := stubPlace_fresh pMem hs
    exact ⟨habove.trans hlow, fun hd => (hapart hd).imp hlow.trans' hhigh.trans⟩
  · rw [HandOff.stubPlace, if_neg hs]
    exact ⟨(h.stub hs).1, h.apart hs⟩

/-- What the statics say of the image that is to be started. -/
structure Armed (map : MemoryMap) (s : Statics) : Prop where
  stub : s.stub ≠ 0
  above : map.memKernelEnd ≤ s.kernelImage
  fits : s.kernelSize ≤ map.kernelMaxSize

theorem Kept.enable {m : Mem UInt8} {s : Statics} {pMem : Heap} {kernelImage kernelSize : Nat}
    (htext : stubAt + rapiStubMaxSize ≤ map.memKernelEnd) (h : Kept map stubAt code m s)
    (hp : Promises map s pMem) (himage : map.memKernelEnd ≤ kernelImage)
    (hsize : kernelSize ≤ map.kernelMaxSize) (pDTB : Option DeviceTreeBlob) :
    let out := enableChainBoot stubAt pMem pDTB m s kernelImage kernelSize
    Kept map stubAt code out.1 out.2.1 ∧ Armed map out.2.1 := by
  have hkept : Kept map stubAt code m { s with kernelImage, kernelSize } :=
    ⟨h.text, h.stub, h.dtb, h.apart⟩
  have hpromises : Promises map { s with kernelImage, kernelSize } pMem :=
    ⟨hp.staged, hp.stub, hp.stagedFresh, hp.stubFresh, hp.distinct⟩
  have hc := captureDTB_captures pMem pDTB m { s with kernelImage, kernelSize }
  obtain ⟨hcaptured, hblock⟩ := hkept.capture htext hpromises hc
  obtain ⟨hpointer, hlength, -⟩ := hc.frame
  obtain ⟨habove, hapart⟩ := hcaptured.stubPlace hp.stub hblock
  refine ⟨hcaptured.place htext habove hapart, ?_, ?_, ?_⟩
  · intro hnull
    have hstart : 0 < map.memKernelEnd := Nat.add_pos_left (by decide) _
    exact absurd (hnull ▸ habove) (Nat.not_le.mpr hstart)
  · exact hpointer ▸ himage
  · exact hlength ▸ hsize

structure Machine where
  mem : Mem UInt8
  statics : Statics

/-- What happens before the hand-off: the calls of a rider, and whatever else the loader does to
the memory. -/
inductive Event
  | enableChainBoot (pMem : Heap) (pDTB : Option DeviceTreeBlob) (kernelImage kernelSize : Nat)
  | rapiChainBootMainReturning
  | other (mem : Mem UInt8)

def step (stubAt : Nat) (c : Machine) : Event → Option Machine
  | .enableChainBoot pMem pDTB kernelImage kernelSize =>
    let out := enableChainBoot stubAt pMem pDTB c.mem c.statics kernelImage kernelSize
    some ⟨out.1, out.2.1⟩
  | .rapiChainBootMainReturning => some { c with statics := rapiChainBootMainReturning c.statics }
  | .other mem => some { c with mem }

/-- The image comes from a staging block and fits the region, and the rest of the loader leaves
alone what belongs to the chain-boot. -/
def Behaves (map : MemoryMap) (stubAt : Nat) (c : Machine) : Event → Prop
  | .enableChainBoot pMem _ kernelImage kernelSize =>
    Promises map c.statics pMem ∧ map.memKernelEnd ≤ kernelImage ∧ kernelSize ≤ map.kernelMaxSize
  | .rapiChainBootMainReturning => True
  | .other mem =>
    read mem stubAt rapiStubMaxSize = read c.mem stubAt rapiStubMaxSize ∧
      (c.statics.stub ≠ 0 →
        read mem c.statics.stub rapiStubMaxSize = read c.mem c.statics.stub rapiStubMaxSize) ∧
      (c.statics.dtbCopy ≠ 0 →
        read mem c.statics.dtbCopy c.statics.dtbSize =
          read c.mem c.statics.dtbCopy c.statics.dtbSize)

def Ready (map : MemoryMap) (stubAt : Nat) (code : List UInt8) (c : Machine) : Prop :=
  Kept map stubAt code c.mem c.statics ∧ (c.statics.kernelImage ≠ 0 → Armed map c.statics)

theorem step_ready (htext : stubAt + rapiStubMaxSize ≤ map.memKernelEnd) (c : Machine) (ev : Event)
    (u : Machine) (hc : Ready map stubAt code c) (hb : Behaves map stubAt c ev)
    (hu : step stubAt c ev = some u) : Ready map stubAt code u := by
  obtain ⟨hkept, harmed⟩ := hc
  cases ev with
  | enableChainBoot pMem pDTB kernelImage kernelSize =>
    cases hu
    obtain ⟨hp, himage, hsize⟩ := hb
    obtain ⟨hk, ha⟩ := hkept.enable htext hp himage hsize pDTB
    exact ⟨hk, fun _ => ha⟩
  | rapiChainBootMainReturning =>
    cases hu
    exact ⟨⟨hkept.text, hkept.stub, hkept.dtb, hkept.apart⟩,
      fun hi => ⟨(harmed hi).stub, (harmed hi).above, (harmed hi).fits⟩⟩
  | other mem =>
    cases hu
    obtain ⟨htextual, hstub, hdtb⟩ := hb
    refine ⟨⟨htextual.trans hkept.text, fun hs => ?_, fun hd => ?_, hkept.apart⟩, harmed⟩
    · exact ⟨(hkept.stub hs).1, (hstub hs).trans (hkept.stub hs).2⟩
    · obtain ⟨hlow, hslot, htree⟩ := hkept.dtb hd
      exact ⟨hlow, hslot, htree.congr (hdtb hd)⟩

theorem run_ready {m : Mem UInt8} {evs : List Event} {c : Machine}
    (htext : stubAt + rapiStubMaxSize ≤ map.memKernelEnd)
    (hcode : read m stubAt rapiStubMaxSize = code)
    (hb : Along (step stubAt) (Behaves map stubAt) ⟨m, Statics.init⟩ evs)
    (hr : run (step stubAt) ⟨m, Statics.init⟩ evs = some c) : Ready map stubAt code c := by
  refine run_invariant (step_ready htext) ?_ hb hr
  constructor
  · constructor
    · exact hcode
    all_goals exact fun h => absurd rfl h
  · exact fun h => absurd rfl h

def Statics.armed (s : Statics) : ChainBoot.Statics Nat :=
  ⟨if s.kernelImage = 0 then none else some s.kernelImage, s.kernelSize, s.loaderMainReturned⟩

theorem enableChainBoot_armed {m : Mem UInt8} {s : Statics} {pMem : Heap}
    {pDTB : Option DeviceTreeBlob} {kernelImage kernelSize : Nat} (h : kernelImage ≠ 0) :
    (enableChainBoot stubAt pMem pDTB m s kernelImage kernelSize).2.1.armed =
      ChainBoot.enableChainBoot s.armed kernelImage kernelSize := by
  have hc := captureDTB_captures pMem pDTB m { s with kernelImage, kernelSize }
  obtain ⟨hpointer, hlength, hreturned⟩ := hc.frame
  simp only [enableChainBoot, Statics.armed, ChainBoot.enableChainBoot, hpointer, hlength,
    hreturned, if_neg h]

theorem polled_handOff {s : Statics} (h : isChainBootEnabled s.armed = .handOff) :
    s.kernelImage ≠ 0 := by
  intro hnull
  simp [isChainBootEnabled, Statics.armed, hnull] at h

theorem read_pointDTBSlot {m : Mem UInt8} {s : Statics} {p size : Nat}
    (h : map.memKernelEnd ≤ p) : read (pointDTBSlot m s) p size = read m p size := by
  have hslot : armDTBPtr32 + 4 ≤ map.memKernelEnd :=
    Nat.le_trans (by decide) (Nat.le_add_right memKernelStart map.kernelMaxSize)
  rw [pointDTBSlot]
  split
  · exact read_store_apart (Or.inr (hslot.trans h))
  · rfl

/-- The hand-off leaves alone what lies above the copy region. -/
theorem read_doChainBoot {m : Mem UInt8} {s : Statics} {p size : Nat}
    (hfits : s.kernelSize ≤ map.kernelMaxSize) (h : map.memKernelEnd ≤ p) :
    read (doChainBoot m s).1 p size = read m p size := by
  rw [doChainBoot, stub_keeps hfits (Or.inr h), read_pointDTBSlot h]

/-- What the payload finds when the stub jumps to it. -/
structure HandedOver (map : MemoryMap) (code : List UInt8) (c : Machine)
    (handed : Mem UInt8 × List Nat) : Prop where
  image : read handed.1 memKernelStart c.statics.kernelSize =
    read c.mem c.statics.kernelImage c.statics.kernelSize
  inRegion : ∀ p ∈ handed.2, memKernelStart ≤ p ∧ p + 4 ≤ map.memKernelEnd
  stub : read handed.1 c.statics.stub rapiStubMaxSize = code
  slot : c.statics.dtbCopy ≠ 0 → load 4 handed.1 armDTBPtr32 = c.statics.dtbCopy
  dtb : c.statics.dtbCopy ≠ 0 →
    read handed.1 c.statics.dtbCopy c.statics.dtbSize =
        read c.mem c.statics.dtbCopy c.statics.dtbSize ∧
      IsTree handed.1 c.statics.dtbCopy c.statics.dtbSize

theorem Ready.handedOver {c : Machine} (h : Ready map stubAt code c)
    (hpoll : isChainBootEnabled c.statics.armed = .handOff) :
    HandedOver map code c (doChainBoot c.mem c.statics) := by
  obtain ⟨hkept, harmed⟩ := h
  obtain ⟨hstub, himage, hfits⟩ := harmed (polled_handOff hpoll)
  constructor
  · rw [doChainBoot, stub_copies hfits (Or.inr himage), read_pointDTBSlot himage]
  · intro p hp
    obtain ⟨hlow, hhigh⟩ := stub_stores hfits hp
    exact ⟨hlow, hhigh.trans (imageEnd_in_region hfits)⟩
  · obtain ⟨habove, hread⟩ := hkept.stub hstub
    rw [read_doChainBoot hfits habove, hread]
  · intro hd
    obtain ⟨-, hslot, htree⟩ := hkept.dtb hd
    have hsize := htree.holdsHeader
    have hkeeps : read (doChainBoot c.mem c.statics).1 armDTBPtr32 4 =
        read (pointDTBSlot c.mem c.statics) armDTBPtr32 4 :=
      stub_keeps hfits (Or.inl (by decide))
    rw [load, hkeeps, ← load, pointDTBSlot, if_pos hd, load_store]
    exact Nat.mod_eq_of_lt (by omega)
  · intro hd
    obtain ⟨habove, -, htree⟩ := hkept.dtb hd
    have hkeeps : read (doChainBoot c.mem c.statics).1 c.statics.dtbCopy c.statics.dtbSize =
        read c.mem c.statics.dtbCopy c.statics.dtbSize := read_doChainBoot hfits habove
    exact ⟨hkeeps, htree.congr hkeeps⟩

/-- Whatever the loader did before, the hand-off that `IsChainBootEnabled` makes starts the image
that is staged, with the stub that copies it and the device tree intact. -/
theorem handOff_of_run {m : Mem UInt8} {evs : List Event} {c : Machine}
    (htext : stubAt + rapiStubMaxSize ≤ map.memKernelEnd)
    (hcode : read m stubAt rapiStubMaxSize = code)
    (hb : Along (step stubAt) (Behaves map stubAt) ⟨m, Statics.init⟩ evs)
    (hr : run (step stubAt) ⟨m, Statics.init⟩ evs = some c)
    (hpoll : isChainBootEnabled c.statics.armed = .handOff) :
    HandedOver map code c (doChainBoot c.mem c.statics) :=
  (run_ready htext hcode hb hr).handedOver hpoll

def treeHeader : List UInt8 :=
  [0xD0, 0x0D, 0xFE, 0xED, 0, 0, 0, 40] ++ List.replicate 16 0 ++ [0, 0, 0, 16] ++
    List.replicate 12 0

def treeAt : Nat := 0x200000

def treeMemory : Mem UInt8 := write (fun _ => 0) treeAt treeHeader

def someTree : DeviceTreeBlob :=
  ⟨treeAt, fun _ => 1, fun _ _ => 2, fun _ => 6, fun _ => treeAt + 30⟩

def roomyHeap : Heap :=
  ⟨0x40000000, fun _ => fdtMaxSize, fun _ size => if size ≤ fdtMaxSize then 0x40000000 else 0,
    fun _ => 0x90001⟩

theorem roomyHeap_promises : Promises eightBytes Statics.init roomyHeap where
  staged type size h := by
    by_cases hs : size ≤ fdtMaxSize
    · simp only [roomyHeap, if_pos hs]
      decide
    · simp only [roomyHeap, if_neg hs] at h
      exact absurd rfl h
  stub := by decide
  stagedFresh h := absurd rfl h
  stubFresh h := absurd rfl h
  distinct type size h := by
    by_cases hs : size ≤ fdtMaxSize
    · simp only [roomyHeap, if_pos hs]
      exact Or.inr (by decide)
    · simp only [roomyHeap, if_neg hs] at h
      exact absurd rfl h

def armingRun : List Event :=
  [.enableChainBoot roomyHeap (some someTree) 0xA0000 5, .rapiChainBootMainReturning]

theorem handOff_of_armingRun :
    ∃ c, run (step 0x70000) ⟨treeMemory, Statics.init⟩ armingRun = some c ∧
      c.statics.dtbCopy = 0x40000000 ∧
      HandedOver eightBytes (read treeMemory 0x70000 rapiStubMaxSize) c
        (doChainBoot c.mem c.statics) := by
  have hb : Along (step 0x70000) (Behaves eightBytes 0x70000) ⟨treeMemory, Statics.init⟩
      armingRun :=
    ⟨⟨roomyHeap_promises, by decide, by decide⟩, fun _ _ => ⟨trivial, fun _ _ => trivial⟩⟩
  exact ⟨_, rfl, by decide, handOff_of_run (by decide) rfl hb rfl (by decide)⟩

end RapiBootloader.HandOff
