import RapiBootloader.HandOffRun
import Mathlib.Logic.Relation

namespace RapiBootloader.BootChain

open Lib.Memory Lib.Words Lib.Run ChainBoot HandOff

variable {map : MemoryMap} {stubAt : Nat} {tree : List UInt8}

/-- The bytes are a device tree that says how many they are. -/
def Tree (tree : List UInt8) : Prop := IsTree (write (fun _ => 0) 0 tree) 0 tree.length

/-- The low slot points at this tree, as the firmware leaves it and the hand-off does. -/
structure Carries (tree : List UInt8) (m : Mem UInt8) : Prop where
  slot : load 4 m armDTBPtr32 ≠ 0
  tree : read m (load 4 m armDTBPtr32) tree.length = tree

/-- While no copy has been staged, the kernel's own copy is intact. Once one has, it is the tree. -/
structure Keeps (tree : List UInt8) (pDTB : DeviceTreeBlob) (c : Machine) : Prop where
  own : c.statics.dtbCopy = 0 → read c.mem pDTB.blob tree.length = tree
  staged : c.statics.dtbCopy ≠ 0 →
    c.statics.dtbSize = tree.length ∧ read c.mem c.statics.dtbCopy tree.length = tree
  armed : c.statics.kernelImage ≠ 0 → c.statics.dtbCopy ≠ 0

/-- The parser knows the tree it has been given, the heap has room for the tree below 4 GB, and the
rest of the loader leaves the kernel's own copy alone until there is another. -/
def Spares (tree : List UInt8) (pDTB : DeviceTreeBlob) (c : Machine) : Event → Prop
  | .enableChainBoot pMem given _ _ =>
    given = some pDTB ∧ (c.statics.dtbCopy = 0 →
      (checkedDTB c.mem pDTB).isSome = true ∧ stageAlloc pMem tree.length ≠ 0 ∧
        stageAlloc pMem tree.length + tree.length ≤ 0x100000000)
  | .rapiChainBootMainReturning => True
  | .other mem =>
    c.statics.dtbCopy = 0 →
      read mem pDTB.blob tree.length = read c.mem pDTB.blob tree.length

theorem Tree.isTree {m : Mem UInt8} {p : Nat} (h : Tree tree) (hread : read m p tree.length = tree) :
    IsTree m p tree.length := by
  apply IsTree.congr h
  rw [hread, (holds_write (fun _ => 0) 0 tree).read_eq]

theorem captureDTB_stages {pMem : Heap} {pDTB : DeviceTreeBlob} {m : Mem UInt8} {s : Statics}
    {n : Nat} {mac : List UInt8} (hfirst : s.dtbCopy = 0) (hc : checkedDTB m pDTB = some (n, mac))
    (hblock : stageAlloc pMem n ≠ 0) (hslot : stageAlloc pMem n + n ≤ 0x100000000) :
    captureDTB pMem (some pDTB) m s =
      (write m (stageAlloc pMem n) (read m pDTB.blob n),
        { s with dtbCopy := stageAlloc pMem n, dtbSize := n },
        some (.dtbStaged n (stageAlloc pMem n) mac)) := by
  unfold captureDTB
  rw [if_neg (not_not.mpr hfirst)]
  dsimp only
  rw [hc]
  dsimp only
  rw [if_neg hblock, if_neg (Nat.not_lt.mpr hslot)]

theorem captureDTB_again {pMem : Heap} {pDTB : Option DeviceTreeBlob} {m : Mem UInt8} {s : Statics}
    (h : s.dtbCopy ≠ 0) : captureDTB pMem pDTB m s = (m, s, none) := if_pos h

theorem checkedDTB_size {m : Mem UInt8} {pDTB : DeviceTreeBlob} (htree : Tree tree)
    (hown : read m pDTB.blob tree.length = tree) (hc : (checkedDTB m pDTB).isSome = true) :
    ∃ mac, checkedDTB m pDTB = some (tree.length, mac) := by
  obtain ⟨⟨n, mac⟩, hcheck⟩ := Option.isSome_iff_exists.mp hc
  have hsize := (checkedDTB_isTree hcheck).totalSize
  rw [(htree.isTree hown).totalSize] at hsize
  exact ⟨mac, by rw [hcheck, hsize]⟩

/-- After `CaptureDTB` the tree is in its staging block. -/
theorem captured_tree {pMem : Heap} {pDTB : DeviceTreeBlob} {m : Mem UInt8} {s : Statics}
    (htree : Tree tree) (hown : s.dtbCopy = 0 → read m pDTB.blob tree.length = tree)
    (hstaged : s.dtbCopy ≠ 0 → s.dtbSize = tree.length ∧ read m s.dtbCopy tree.length = tree)
    (hroom : s.dtbCopy = 0 → (checkedDTB m pDTB).isSome = true ∧
      stageAlloc pMem tree.length ≠ 0 ∧
        stageAlloc pMem tree.length + tree.length ≤ 0x100000000) :
    let out := captureDTB pMem (some pDTB) m s
    out.2.1.dtbCopy ≠ 0 ∧ out.2.1.dtbSize = tree.length ∧
      read out.1 out.2.1.dtbCopy tree.length = tree := by
  by_cases hfirst : s.dtbCopy = 0
  · obtain ⟨hc, hblock, hslot⟩ := hroom hfirst
    obtain ⟨mac, hcheck⟩ := checkedDTB_size htree (hown hfirst) hc
    rw [captureDTB_stages hfirst hcheck hblock hslot, hown hfirst]
    exact ⟨hblock, rfl, (holds_write m _ tree).read_eq⟩
  · obtain ⟨hsize, hread⟩ := hstaged hfirst
    rw [captureDTB_again hfirst]
    exact ⟨hfirst, hsize, hread⟩

theorem Keeps.enable {code : List UInt8} {pDTB : DeviceTreeBlob} {c : Machine} {pMem : Heap}
    (htree : Tree tree) (h : Keeps tree pDTB c) (hkept : Kept map stubAt code c.mem c.statics)
    (htext : stubAt + rapiStubMaxSize ≤ map.memKernelEnd) (hp : Promises map c.statics pMem)
    (hroom : c.statics.dtbCopy = 0 → (checkedDTB c.mem pDTB).isSome = true ∧
      stageAlloc pMem tree.length ≠ 0 ∧ stageAlloc pMem tree.length + tree.length ≤ 0x100000000)
    (kernelImage kernelSize : Nat) :
    let out := enableChainBoot stubAt pMem (some pDTB) c.mem c.statics kernelImage kernelSize
    Keeps tree pDTB ⟨out.1, out.2.1⟩ := by
  have harmed : Kept map stubAt code c.mem { c.statics with kernelImage, kernelSize } :=
    ⟨hkept.text, hkept.stub, hkept.dtb, hkept.apart⟩
  have hpromises : Promises map { c.statics with kernelImage, kernelSize } pMem :=
    ⟨hp.staged, hp.stub, hp.stagedFresh, hp.stubFresh, hp.distinct⟩
  have hcaptures := captureDTB_captures pMem (some pDTB) c.mem
    { c.statics with kernelImage, kernelSize }
  obtain ⟨hcaptured, hblock⟩ := harmed.capture htext hpromises hcaptures
  obtain ⟨-, hapart⟩ := hcaptured.stubPlace hp.stub hblock
  obtain ⟨hstaged, hsize, hread⟩ := @captured_tree tree pMem pDTB c.mem
    { c.statics with kernelImage, kernelSize } htree h.own h.staged hroom
  refine ⟨fun hnone => absurd hnone hstaged, fun _ => ⟨hsize, ?_⟩, fun _ => hstaged⟩
  refine (read_write_apart ?_).trans hread
  have hclear := hapart hstaged
  rwa [hsize, ← length_read _ stubAt rapiStubMaxSize] at hclear

def Passes (map : MemoryMap) (stubAt : Nat) (code tree : List UInt8) (pDTB : DeviceTreeBlob)
    (c : Machine) : Prop :=
  Ready map stubAt code c ∧ Keeps tree pDTB c

theorem step_passes {code : List UInt8} {pDTB : DeviceTreeBlob} (htree : Tree tree)
    (htext : stubAt + rapiStubMaxSize ≤ map.memKernelEnd) (c : Machine) (ev : Event) (u : Machine)
    (h : Passes map stubAt code tree pDTB c)
    (hev : Behaves map stubAt c ev ∧ Spares tree pDTB c ev) (hu : step stubAt c ev = some u) :
    Passes map stubAt code tree pDTB u := by
  obtain ⟨hready, hkeeps⟩ := h
  refine ⟨step_ready htext c ev u hready hev.1 hu, ?_⟩
  cases ev with
  | enableChainBoot pMem given kernelImage kernelSize =>
    cases hu
    obtain ⟨rfl, hroom⟩ := hev.2
    exact hkeeps.enable htree hready.1 htext hev.1.1 hroom kernelImage kernelSize
  | rapiChainBootMainReturning =>
    cases hu
    exact ⟨hkeeps.own, hkeeps.staged, hkeeps.armed⟩
  | other mem =>
    cases hu
    obtain ⟨-, -, hdtb⟩ := hev.1
    refine ⟨fun hnone => (hev.2 hnone).trans (hkeeps.own hnone), fun hsome => ?_, hkeeps.armed⟩
    obtain ⟨hsize, hread⟩ := hkeeps.staged hsome
    have hsame := hdtb hsome
    rw [hsize] at hsame
    exact ⟨hsize, hsame.trans hread⟩

theorem Passes.handOff {code : List UInt8} {pDTB : DeviceTreeBlob} {c : Machine}
    (h : Passes map stubAt code tree pDTB c)
    (hpoll : isChainBootEnabled c.statics.armed = .handOff) :
    Carries tree (doChainBoot c.mem c.statics).1 := by
  obtain ⟨hready, hkeeps⟩ := h
  have hhanded := hready.handedOver hpoll
  have hstaged := hkeeps.armed (polled_handOff hpoll)
  obtain ⟨hsize, hread⟩ := hkeeps.staged hstaged
  have hslot := hhanded.slot hstaged
  have hdtb := (hhanded.dtb hstaged).1
  rw [hsize, hread] at hdtb
  constructor
  · rw [hslot]
    exact hstaged
  · rw [hslot]
    exact hdtb

/-- From the memory a kernel is started with to the memory it starts the next one with. Its start-up
copies the tree that the slot points at to its heap before it zeroes the slot; then it runs as a
loader does, up to the hand-off. -/
inductive Generation (tree : List UInt8) (h : Mem UInt8) : Mem UInt8 → Prop
  | mk {map : MemoryMap} {stubAt : Nat} {pDTB : DeviceTreeBlob} {m : Mem UInt8} {evs : List Event}
      {c : Machine} (hfetch : Carries tree h → read m pDTB.blob tree.length = tree)
      (htext : stubAt + rapiStubMaxSize ≤ map.memKernelEnd)
      (hevs : Along (step stubAt) (fun c ev => Behaves map stubAt c ev ∧ Spares tree pDTB c ev)
        ⟨m, Statics.init⟩ evs)
      (hr : run (step stubAt) ⟨m, Statics.init⟩ evs = some c)
      (hpoll : isChainBootEnabled c.statics.armed = .handOff) :
      Generation tree h (doChainBoot c.mem c.statics).1

theorem Generation.carries {h h' : Mem UInt8} (htree : Tree tree) (hgen : Generation tree h h')
    (hc : Carries tree h) : Carries tree h' := by
  cases hgen with
  | @mk map stubAt pDTB m evs c hfetch htext hevs hr hpoll =>
    have hstart : Passes map stubAt (read m stubAt rapiStubMaxSize) tree pDTB ⟨m, Statics.init⟩ := by
      refine ⟨⟨⟨rfl, ?_, ?_, ?_⟩, ?_⟩, fun _ => hfetch hc, ?_, ?_⟩
      all_goals exact fun hno => absurd rfl hno
    exact (run_invariant (step_passes htree htext) hstart hevs hr).handOff hpoll

/-- The device tree the firmware has handed over reaches every kernel of a chain of chain-boots. -/
theorem tree_survives {h h' : Mem UInt8} (htree : Tree tree) (hc : Carries tree h)
    (hchain : Relation.ReflTransGen (Generation tree) h h') : Carries tree h' := by
  induction hchain with
  | refl => exact hc
  | tail _ hgen ih => exact hgen.carries htree ih

theorem arming_generation (h : Mem UInt8) : ∃ c,
    run (step 0x70000) ⟨treeMemory, Statics.init⟩ armingRun = some c ∧
      Generation treeHeader h (doChainBoot c.mem c.statics).1 := by
  have hevs : Along (step 0x70000)
      (fun c ev => Behaves eightBytes 0x70000 c ev ∧ Spares treeHeader someTree c ev)
      ⟨treeMemory, Statics.init⟩ armingRun :=
    ⟨⟨⟨roomyHeap_promises, by decide, by decide⟩, rfl, fun _ => by decide⟩,
      fun _ _ => ⟨⟨trivial, trivial⟩, fun _ _ => trivial⟩⟩
  exact ⟨_, rfl, @Generation.mk treeHeader h eightBytes 0x70000 someTree treeMemory armingRun _
    (fun _ => (holds_write (fun _ => 0) treeAt treeHeader).read_eq) (by decide) hevs rfl
      (by decide)⟩

def firmwareMemory : Mem UInt8 := store 4 (write (fun _ => 0) 0x300000 treeHeader) armDTBPtr32 0x300000

theorem tree_survives_twice : ∃ c,
    run (step 0x70000) ⟨treeMemory, Statics.init⟩ armingRun = some c ∧
      Carries treeHeader (doChainBoot c.mem c.statics).1 := by
  obtain ⟨c, hr, hfirst⟩ := arming_generation firmwareMemory
  obtain ⟨c', hr', hsecond⟩ := arming_generation (doChainBoot c.mem c.statics).1
  have htree : Tree treeHeader := ⟨by decide, by decide, by decide, by decide, by decide⟩
  have hstart : Carries treeHeader firmwareMemory := ⟨by decide, by decide⟩
  exact ⟨c', hr', tree_survives htree hstart ((Relation.ReflTransGen.single hfirst).tail hsecond)⟩

end RapiBootloader.BootChain
