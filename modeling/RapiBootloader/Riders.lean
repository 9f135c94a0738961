import RapiBootloader.HandOffRun

namespace RapiBootloader.Riders

open Lib.Memory Lib.Run HandOff
open ChainBoot (isChainBootEnabled)

variable {L E P : Type}

def withArmed (arms : Option (P × Nat)) (s : ChainBoot.Statics P) : ChainBoot.Statics P :=
  match arms with
  | none => s
  | some (p, n) => ChainBoot.enableChainBoot s p n

def announced (returns : Bool) (s : ChainBoot.Statics P) : ChainBoot.Statics P :=
  if returns then ChainBoot.rapiChainBootMainReturning s else s

/-- A loader that boots through the chain-boot: its machine, the calls its events make, and what
its image pointers show. -/
structure Rider (L E P : Type) where
  step : L → E → Option L
  chainBoot : L → ChainBoot.Statics P
  arms : L → E → Option (P × Nat)
  returns : L → E → Bool
  image : L → P → Option (Mem UInt8)
  follows : ∀ l ev u, step l ev = some u →
    chainBoot u = announced (returns l ev) (withArmed (arms l ev) (chainBoot l))

/-- An event of the rider, with the memory as the rider has made it by then, the address of the
image that it arms, and what Circle answers to the calls. -/
structure Turn (E : Type) where
  event : E
  mem : Mem UInt8
  kernelImage : Nat
  pMem : Heap
  pDTB : Option DeviceTreeBlob

structure System (L : Type) where
  loader : L
  machine : Machine

def armCalls (t : Turn E) (arms : Option (P × Nat)) : List HandOff.Event :=
  (arms.map (fun armed => .enableChainBoot t.pMem t.pDTB t.kernelImage armed.2)).toList

def returnCalls (returns : Bool) : List HandOff.Event :=
  if returns then [.rapiChainBootMainReturning] else []

def Rider.calls (r : Rider L E P) (l : L) (t : Turn E) : List HandOff.Event :=
  .other t.mem :: (armCalls t (r.arms l t.event) ++ returnCalls (r.returns l t.event))

def Rider.play (r : Rider L E P) (stubAt : Nat) (y : System L) (t : Turn E) : Option (System L) :=
  (r.step y.loader t.event).bind (fun u =>
    (run (HandOff.step stubAt) y.machine (r.calls y.loader t)).map (fun c => ⟨u, c⟩))

/-- The block of the image is none of those that one call of `EnableChainBoot` writes to. -/
structure Fresh (s : HandOff.Statics) (pMem : Heap) (kernelImage size : Nat) : Prop where
  staged : ∀ type n, pMem.new type n ≠ 0 → Apart kernelImage size (pMem.new type n) n
  block : Apart kernelImage size (pMem.newDefault (rapiStubMaxSize + 63)) (rapiStubMaxSize + 63)
  stub : s.stub ≠ 0 → Apart kernelImage size s.stub rapiStubMaxSize

/-- The memory at the armed address begins with what the armed pointer shows. -/
def Shows (s : ChainBoot.Statics P) (image : P → Option (Mem UInt8)) (kernelImage : Nat)
    (m : Mem UInt8) : Prop :=
  ∀ p shown, s.kernelImage = some p → image p = some shown →
    read m kernelImage s.kernelSize = read shown 0 s.kernelSize

def placed (s : ChainBoot.Statics P) (kernelImage : Nat) : ChainBoot.Statics Nat :=
  ⟨s.kernelImage.map (fun _ => kernelImage), s.kernelSize, s.loaderMainReturned⟩

def armedAt (t : Turn E) (c : Machine) : Option (P × Nat) → Nat
  | none => c.statics.kernelImage
  | some _ => t.kernelImage

/-- What a turn may do: the rider leaves alone what belongs to the chain-boot and arms blocks of
its own, and the memory has in it what the rider's pointers show. -/
structure Plays (r : Rider L E P) (map : MemoryMap) (stubAt : Nat) (y : System L) (t : Turn E) :
    Prop where
  other : Behaves map stubAt y.machine (.other t.mem)
  promises : ∀ armed ∈ r.arms y.loader t.event, Promises map y.machine.statics t.pMem
  above : ∀ armed ∈ r.arms y.loader t.event, map.memKernelEnd ≤ t.kernelImage
  fresh : ∀ armed ∈ r.arms y.loader t.event,
    Fresh y.machine.statics t.pMem t.kernelImage armed.2
  shows : ∀ u, r.step y.loader t.event = some u →
    Shows (r.chainBoot u) (r.image u) (armedAt t y.machine (r.arms y.loader t.event)) t.mem

structure Stands (s : ChainBoot.Statics P) (image : P → Option (Mem UInt8)) (c : Machine) :
    Prop where
  armed : c.statics.armed = placed s c.statics.kernelImage
  shows : Shows s image c.statics.kernelImage c.mem

theorem isChainBootEnabled_placed (s : ChainBoot.Statics P) (kernelImage : Nat) :
    isChainBootEnabled (placed s kernelImage) = isChainBootEnabled s := by
  simp [isChainBootEnabled, placed]

/-- Both copies that `EnableChainBoot` makes go to blocks of their own. -/
theorem read_enableChainBoot {stubAt : Nat} {m : Mem UInt8} {s : HandOff.Statics} {pMem : Heap}
    {kernelImage n : Nat} (h : Fresh s pMem kernelImage n) (pDTB : Option DeviceTreeBlob) :
    read (HandOff.enableChainBoot stubAt pMem pDTB m s kernelImage n).1 kernelImage n =
      read m kernelImage n := by
  have hc := captureDTB_captures pMem pDTB m
    { s with kernelImage := kernelImage, kernelSize := n }
  simp only [HandOff.enableChainBoot]
  generalize captureDTB pMem pDTB m { s with kernelImage := kernelImage, kernelSize := n } =
    captured at hc ⊢
  obtain ⟨m', s', line⟩ := captured
  dsimp only at hc ⊢
  have hcaptured : s'.stub = s.stub ∧ read m' kernelImage n = read m kernelImage n := by
    cases hc with
    | nothing => exact ⟨rfl, rfl⟩
    | copy blob size hfirst htree hblock hslot =>
      obtain hnull | ⟨type, htype⟩ := stageAlloc_cases pMem size
      · exact absurd hnull hblock
      refine ⟨rfl, read_write_apart ?_⟩
      rw [length_read, htype]
      exact h.staged type size (htype ▸ hblock)
  -- The first call stages the stub in a block it asks for, a later one where it is already.
  have hplace : Apart kernelImage n (stubPlace pMem s') rapiStubMaxSize := by
    by_cases hs : s'.stub = 0
    · obtain ⟨hlow, hhigh⟩ := stubPlace_fresh pMem hs
      exact h.block.imp hlow.trans' hhigh.trans
    · rw [stubPlace, if_neg hs]
      rw [hcaptured.1] at hs ⊢
      exact h.stub hs
  rw [read_write_apart, hcaptured.2]
  rwa [length_read]

variable {r : Rider L E P} {map : MemoryMap} {stubAt : Nat} {code : List UInt8}

theorem play_some {y z : System L} {t : Turn E} (h : r.play stubAt y t = some z) :
    r.step y.loader t.event = some z.loader ∧
      run (HandOff.step stubAt) y.machine (r.calls y.loader t) = some z.machine := by
  obtain ⟨u, hu, hz⟩ := Option.bind_eq_some_iff.mp h
  obtain ⟨c, hc, rfl⟩ := Option.map_eq_some_iff.mp hz
  exact ⟨hu, hc⟩

theorem play_of {y : System L} {t : Turn E} {u : L} {c : Machine}
    (hstep : r.step y.loader t.event = some u)
    (hcalls : run (HandOff.step stubAt) y.machine (r.calls y.loader t) = some c) :
    r.play stubAt y t = some ⟨u, c⟩ := by
  rw [Rider.play, hstep, Option.bind_some, hcalls]
  rfl

/-- The rider's part of a run of the system is a run of the rider. -/
theorem run_loader {y z : System L} {ts : List (Turn E)} (h : run (r.play stubAt) y ts = some z) :
    run r.step y.loader (ts.map Turn.event) = some z.loader :=
  run_map (fun _ _ _ hplay => (play_some hplay).1) h

theorem shows_announced {s : ChainBoot.Statics P} {image : P → Option (Mem UInt8)}
    {kernelImage : Nat} {m : Mem UInt8} (returns : Bool) :
    Shows (announced returns s) image kernelImage m ↔ Shows s image kernelImage m := by
  cases returns <;> exact Iff.rfl

theorem stands_armed {s : ChainBoot.Statics P} {image : P → Option (Mem UInt8)} {c d : Machine}
    {t : Turn E} {arms : Option (P × Nat)}
    (harmed : c.statics.armed = placed s c.statics.kernelImage)
    (hb : Along (HandOff.step stubAt) (Behaves map stubAt) c (armCalls t arms))
    (hfresh : ∀ armed ∈ arms, Fresh c.statics t.pMem t.kernelImage armed.2)
    (hshows : Shows (withArmed arms s) image (armedAt t c arms) c.mem)
    (h : run (HandOff.step stubAt) c (armCalls t arms) = some d) :
    Stands (withArmed arms s) image d := by
  cases arms with
  | none =>
    cases h
    exact ⟨harmed, hshows⟩
  | some armed =>
    obtain ⟨p, n⟩ := armed
    cases h
    obtain ⟨⟨-, himage, -⟩, -⟩ := hb
    have hstart : 0 < map.memKernelEnd := Nat.add_pos_left (by decide) _
    have hne : t.kernelImage ≠ 0 := Nat.ne_of_gt (hstart.trans_le himage)
    obtain ⟨hpointer, -, -⟩ := (captureDTB_captures t.pMem t.pDTB c.mem
      { c.statics with kernelImage := t.kernelImage, kernelSize := n }).frame
    have hat : (HandOff.enableChainBoot stubAt t.pMem t.pDTB c.mem c.statics
        t.kernelImage n).2.1.kernelImage = t.kernelImage := hpointer
    constructor
    · rw [hat, enableChainBoot_armed hne, harmed]
      rfl
    · rw [hat]
      intro q shown hq hshown
      exact (read_enableChainBoot (hfresh (p, n) rfl) t.pDTB).trans (hshows q shown hq hshown)

theorem Stands.announced {s : ChainBoot.Statics P} {image : P → Option (Mem UInt8)} {c d : Machine}
    (hs : Stands s image c) (returns : Bool)
    (h : run (HandOff.step stubAt) c (returnCalls returns) = some d) :
    Stands (announced returns s) image d := by
  cases returns with
  | false =>
    cases h
    exact hs
  | true =>
    cases h
    exact ⟨congrArg ChainBoot.rapiChainBootMainReturning hs.armed, hs.shows⟩

structure Sound (r : Rider L E P) (map : MemoryMap) (stubAt : Nat) (code : List UInt8)
    (y : System L) : Prop where
  ready : Ready map stubAt code y.machine
  stands : Stands (r.chainBoot y.loader) (r.image y.loader) y.machine

theorem Plays.quiet {y : System L} {t : Turn E} (harms : r.arms y.loader t.event = none)
    (hother : Behaves map stubAt y.machine (.other t.mem))
    (hshows : ∀ u, r.step y.loader t.event = some u →
      Shows (r.chainBoot u) (r.image u) y.machine.statics.kernelImage t.mem) :
    Plays r map stubAt y t := by
  have hno : ∀ armed, armed ∉ r.arms y.loader t.event := by simp [harms]
  constructor
  case other => exact hother
  case shows =>
    rw [harms]
    exact hshows
  all_goals exact fun armed h => absurd h (hno armed)

theorem Plays.behaves {y : System L} {t : Turn E} (h : Plays r map stubAt y t)
    (hfits : ∀ armed ∈ r.arms y.loader t.event, armed.2 ≤ map.kernelMaxSize) :
    Along (HandOff.step stubAt) (Behaves map stubAt) y.machine (r.calls y.loader t) := by
  refine ⟨h.other, fun c hc => ?_⟩
  obtain rfl := Option.some.inj hc
  have hreturns : ∀ c, Along (HandOff.step stubAt) (Behaves map stubAt) c
      (returnCalls (r.returns y.loader t.event)) := by
    intro c
    cases r.returns y.loader t.event
    · trivial
    · exact ⟨trivial, fun _ _ => trivial⟩
  cases harms : r.arms y.loader t.event with
  | none => exact hreturns _
  | some armed =>
    refine ⟨⟨?_, h.above armed harms, hfits armed harms⟩, fun c _ => hreturns c⟩
    exact h.promises armed harms

theorem play_sound (htext : stubAt + rapiStubMaxSize ≤ map.memKernelEnd) {y z : System L}
    {t : Turn E} (hs : Sound r map stubAt code y) (hp : Plays r map stubAt y t)
    (hfits : ∀ armed ∈ r.arms y.loader t.event, armed.2 ≤ map.kernelMaxSize)
    (h : r.play stubAt y t = some z) : Sound r map stubAt code z := by
  obtain ⟨hstep, hrun⟩ := play_some h
  have hbehaves := hp.behaves hfits
  refine ⟨run_invariant (step_ready htext) hs.ready hbehaves hrun, ?_⟩
  have hshows := hp.shows _ hstep
  rw [r.follows _ _ _ hstep] at hshows ⊢
  obtain ⟨c, hmem, hcalls⟩ := run_cons_some.mp hrun
  have hrest := hbehaves.2 c hmem
  obtain rfl := Option.some.inj hmem
  -- What the pointers show is in the memory before the calls. Arming has to keep it there.
  obtain ⟨d, harms, hreturns⟩ := run_append_some.mp hcalls
  have harmed := stands_armed (c := ⟨t.mem, y.machine.statics⟩) hs.stands.armed
    ((along_append harms).mp hrest).1 hp.fresh ((shows_announced _).mp hshows) harms
  exact harmed.announced _ hreturns

def System.start (l : L) (m : Mem UInt8) : System L := ⟨l, ⟨m, HandOff.Statics.init⟩⟩

/-- `J` is what the rider knows of itself, from which it follows that what it arms fits. -/
theorem run_sound {J : L → Prop} {Q : L → E → Prop}
    (keep : ∀ l ev u, J l → Q l ev → r.step l ev = some u →
      J u ∧ ∀ armed ∈ r.arms l ev, armed.2 ≤ map.kernelMaxSize)
    {l : L} {m : Mem UInt8} {ts : List (Turn E)} {y : System L}
    (htext : stubAt + rapiStubMaxSize ≤ map.memKernelEnd)
    (hcode : read m stubAt rapiStubMaxSize = code)
    (hl : r.chainBoot l = ChainBoot.Statics.init) (hj : J l)
    (hp : Along (r.play stubAt) (Plays r map stubAt) (.start l m) ts)
    (hq : Along r.step Q l (ts.map Turn.event))
    (hr : run (r.play stubAt) (.start l m) ts = some y) :
    Sound r map stubAt code y ∧ J y.loader := by
  have hstart : run (HandOff.step stubAt) (System.start l m).machine [] =
      some (System.start l m).machine := rfl
  have hready := run_ready htext hcode (by trivial) hstart
  have hloader : Along (r.play stubAt) (fun y t => Q y.loader t.event) (.start l m) ts :=
    along_map (fun _ _ _ h => (play_some h).1) hq
  refine run_invariant (I := fun y => Sound r map stubAt code y ∧ J y.loader)
    (fun y t z hy hb h => ?_) ⟨⟨hready, ?_, ?_⟩, hj⟩ (hp.and hloader) hr
  · obtain ⟨hj, hfits⟩ := keep _ _ _ hy.2 hb.2 (play_some h).1
    exact ⟨play_sound htext hy.1 hb.1 hfits h, hj⟩
  · rw [System.start, hl]
    rfl
  · intro p shown hpointer
    rw [System.start, hl] at hpointer
    cases hpointer

theorem Sound.handedOver {y : System L} (h : Sound r map stubAt code y)
    (hpoll : isChainBootEnabled (r.chainBoot y.loader) = .handOff) :
    HandedOver map code y.machine (doChainBoot y.machine.mem y.machine.statics) ∧
      ∃ p, (r.chainBoot y.loader).kernelImage = some p ∧
        ∀ shown, r.image y.loader p = some shown →
          read (doChainBoot y.machine.mem y.machine.statics).1 memKernelStart
              (r.chainBoot y.loader).kernelSize =
            read shown 0 (r.chainBoot y.loader).kernelSize := by
  have hmachine : isChainBootEnabled y.machine.statics.armed = .handOff := by
    rw [h.stands.armed, isChainBootEnabled_placed, hpoll]
  have hover := h.ready.handedOver hmachine
  have hsize : y.machine.statics.kernelSize = (r.chainBoot y.loader).kernelSize :=
    congrArg ChainBoot.Statics.kernelSize h.stands.armed
  refine ⟨hover, ?_⟩
  cases hp : (r.chainBoot y.loader).kernelImage with
  | none => simp [isChainBootEnabled, hp] at hpoll
  | some p =>
    refine ⟨p, rfl, fun shown hshown => ?_⟩
    rw [← h.stands.shows p shown hp hshown, ← hsize]
    exact hover.image

def eightMax : ChainBoot.KernelMaxSize := ⟨8, by decide⟩

def kernelMemory : Mem UInt8 := write (fun _ => 0) 0xA0000 [1, 2, 3]

def stagedMemory : Mem UInt8 :=
  (HandOff.enableChainBoot 0x70000 roomyHeap none kernelMemory HandOff.Statics.init 0xA0000 3).1

theorem roomyHeap_fresh : Fresh HandOff.Statics.init roomyHeap 0xA0000 3 := by
  constructor
  · intro type n hblock
    by_cases hn : n ≤ fdtMaxSize
    · simp only [roomyHeap, if_pos hn]
      exact Or.inl (by decide)
    · simp only [roomyHeap, if_neg hn] at hblock
      exact absurd rfl hblock
  · exact Or.inr (by decide)
  · exact fun h => absurd rfl h

theorem read_stagedMemory : read stagedMemory 0xA0000 3 = [1, 2, 3] :=
  (read_enableChainBoot roomyHeap_fresh none).trans rfl

def turnOf (mem : Mem UInt8) (ev : E) : Turn E := ⟨ev, mem, 0xA0000, roomyHeap, none⟩

structure ArmsThree (r : Rider L E P) (u : L) : Prop where
  size : (r.chainBoot u).kernelSize = 3
  bytes : ∀ p shown, (r.chainBoot u).kernelImage = some p → r.image u p = some shown →
    read shown 0 3 = [1, 2, 3]

theorem ArmsThree.shows {u : L} (h : ArmsThree r u) {m : Mem UInt8}
    (hm : read m 0xA0000 3 = [1, 2, 3]) : Shows (r.chainBoot u) (r.image u) 0xA0000 m := by
  intro p shown hp himage
  rw [h.size, hm, h.bytes p shown hp himage]

theorem plays_unarmed {y : System L} {ev : E} (harms : r.arms y.loader ev = none)
    (hmachine : y.machine = ⟨kernelMemory, HandOff.Statics.init⟩)
    (hnone : ∀ u, r.step y.loader ev = some u → (r.chainBoot u).kernelImage = none) :
    Plays r eightBytes 0x70000 y (turnOf kernelMemory ev) := by
  apply Plays.quiet harms
  · rw [hmachine]
    exact ⟨rfl, fun h => absurd rfl h, fun h => absurd rfl h⟩
  · intro u hu p shown hp
    exact absurd ((hnone u hu).symm.trans hp) (by simp)

theorem plays_arming {y : System L} {ev : E} {pointer : P}
    (harms : r.arms y.loader ev = some (pointer, 3))
    (hmachine : y.machine = ⟨kernelMemory, HandOff.Statics.init⟩)
    (hthree : ∀ u, r.step y.loader ev = some u → ArmsThree r u) :
    Plays r eightBytes 0x70000 y (turnOf kernelMemory ev) := by
  have harmed : ∀ armed ∈ r.arms y.loader ev, armed = (pointer, 3) := by
    intro armed hmem
    rw [harms] at hmem
    exact (Option.some.inj hmem).symm
  constructor
  · rw [hmachine]
    exact ⟨rfl, fun h => absurd rfl h, fun h => absurd rfl h⟩
  · rw [hmachine]
    exact fun _ _ => roomyHeap_promises
  · exact fun _ _ => (by decide : eightBytes.memKernelEnd ≤ 0xA0000)
  · intro armed hmem
    rw [hmachine, harmed armed hmem]
    exact roomyHeap_fresh
  · intro u hu
    have hat : armedAt (turnOf kernelMemory ev) y.machine (r.arms y.loader ev) = 0xA0000 := by
      rw [harms]
      rfl
    rw [show (turnOf kernelMemory ev).event = ev from rfl, hat]
    exact (hthree u hu).shows rfl

theorem plays_armed {y : System L} {ev : E} (harms : r.arms y.loader ev = none)
    (hmem : y.machine.mem = stagedMemory) (hdtb : y.machine.statics.dtbCopy = 0)
    (hat : y.machine.statics.kernelImage = 0xA0000)
    (hthree : ∀ u, r.step y.loader ev = some u → ArmsThree r u) :
    Plays r eightBytes 0x70000 y (turnOf stagedMemory ev) := by
  apply Plays.quiet harms
  · refine ⟨?_, fun _ => ?_, fun h => absurd hdtb h⟩
    all_goals
      rw [hmem]
      rfl
  · intro u hu
    rw [hat]
    exact (hthree u hu).shows read_stagedMemory

end RapiBootloader.Riders
