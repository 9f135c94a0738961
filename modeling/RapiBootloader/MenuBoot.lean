import RapiBootloader.CopyRegion
import RapiBootloader.MenuLoader
import RapiBootloader.Riders

namespace RapiBootloader.MenuBoot

open Lib.Memory Lib.Run Lib.Strings DefaultsBlock BootImage BootMenu BootSelection CopyRegion
open KeyRace MenuLoader HandOff Riders
open ChainBoot (KernelMaxSize isChainBootEnabled)
open MenuTables (stringOf)

def selectionArms (setup : Setup) (index : Nat) (card : CardTurn) (p : Picker) :
    Option (Unit × Nat) :=
  match bootSelection setup.kernelMaxSize setup.menu p.imageBuffer (setup.selection index card) with
  | .fatal _ => none
  | .armed b => some ((), b.imageSize)

def menuArms (setup : Setup) (p : Picker) : MenuLoader.Event → Option (Unit × Nat)
  | .main input =>
    match p.pc with
    | .settle start =>
      if input.ticks - start < 2 * setup.hz then none else selectionArms setup 0 input.card p
    | .turn =>
      let keys := advance setup.count setup.page input.received p.keys
      match keys.pc with
      | .booted => selectionArms setup keys.kernel.cursor input.card p
      | _ => none
    | _ => none
  | _ => none

def menuReturns (p : Picker) : MenuLoader.Event → Bool
  | .main _ => p.pc = .sleep
  | _ => false

theorem boot_chainBoot (setup : Setup) (index : Nat) (card : CardTurn) (p : Picker) :
    (boot setup index card p).chainBoot =
      withArmed (selectionArms setup index card p) p.chainBoot := by
  unfold boot selectionArms
  cases bootSelection setup.kernelMaxSize setup.menu p.imageBuffer
    (setup.selection index card) <;> rfl

theorem selectionArms_fits {setup : Setup} {index : Nat} {card : CardTurn} {p : Picker}
    {armed : Unit × Nat} (h : armed ∈ selectionArms setup index card p) :
    armed.2 ≤ setup.kernelMaxSize.bytes := by
  unfold selectionArms at h
  cases hsel : bootSelection setup.kernelMaxSize setup.menu p.imageBuffer
    (setup.selection index card) with
  | fatal message =>
    rw [hsel] at h
    cases h
  | armed b =>
    rw [hsel] at h
    cases h
    exact (menu_boot_fits hsel).2

theorem menuArms_cases (setup : Setup) (p : Picker) (ev : MenuLoader.Event) :
    menuArms setup p ev = none ∨
      ∃ index card, menuArms setup p ev = selectionArms setup index card p := by
  cases ev with
  | report | removed => exact Or.inl rfl
  | main input =>
    unfold menuArms
    dsimp only
    cases p.pc with
    | settle start =>
      by_cases hwaits : input.ticks - start < 2 * setup.hz
      · exact Or.inl (if_pos hwaits)
      · exact Or.inr ⟨0, input.card, if_neg hwaits⟩
    | turn =>
      dsimp only
      cases (advance setup.count setup.page input.received p.keys).pc with
      | booted => exact Or.inr ⟨_, input.card, rfl⟩
      | _ => exact Or.inl rfl
    | _ => exact Or.inl rfl

theorem mainStep_chainBoot {setup : Setup} {p u : Picker} {input : Input}
    (h : MenuLoader.mainStep setup p input = some u) :
    u.chainBoot = announced (menuReturns p (.main input))
      (withArmed (menuArms setup p (.main input)) p.chainBoot) := by
  unfold MenuLoader.mainStep at h
  unfold menuReturns menuArms
  cases hpc : p.pc with
  | idle | halted | returned =>
    rw [hpc] at h
    cases h
    try rfl
  | sleep =>
    rw [hpc] at h
    cases h
    rfl
  | settle start =>
    rw [hpc] at h
    cases h
    dsimp only
    split
    · rfl
    · exact boot_chainBoot setup 0 input.card p
  | loop =>
    rw [hpc] at h
    dsimp only at h
    split at h <;> cases h <;> rfl
  | turn =>
    rw [hpc] at h
    cases h
    unfold turn
    dsimp only
    cases hkeys : (advance setup.count setup.page input.received p.keys).pc with
    | booted => exact boot_chainBoot setup _ input.card _
    | _ => rfl

def menuRider (setup : Setup) : Rider Picker MenuLoader.Event Unit where
  step := MenuLoader.step setup
  chainBoot := Picker.chainBoot
  arms := menuArms setup
  returns := menuReturns
  image p _ := p.imageBuffer
  follows p ev u h := by
    cases ev with
    | report r =>
      rw [MenuLoader.step] at h
      split at h
      · cases h
        rfl
      · cases h
    | removed =>
      cases h
      rfl
    | main input => exact mainStep_chainBoot h

/-- What runs at the start address is the whole kernel file, stamped with the string of the entry
that was highlighted on the screen, or of the only one there is, and the stub and the device tree
are intact: in whatever order key reports, unplugging and the accesses of the main task come. -/
theorem starts_what_is_shown {setup : Setup} {map : MemoryMap} {stubAt : Nat} {code : List UInt8}
    {ticks : UInt32} {m : Mem UInt8} {ts : List (Turn MenuLoader.Event)} {y : System Picker}
    (hmap : setup.kernelMaxSize.bytes = map.kernelMaxSize)
    (htext : stubAt + rapiStubMaxSize ≤ map.memKernelEnd)
    (hcode : Lib.Memory.read m stubAt rapiStubMaxSize = code)
    (hp : Along ((menuRider setup).play stubAt) (Plays (menuRider setup) map stubAt)
      (.start (begin setup ticks) m) ts)
    (hr : run ((menuRider setup).play stubAt) (.start (begin setup ticks) m) ts = some y)
    (hpoll : isChainBootEnabled y.loader.chainBoot = .handOff) :
    HandedOver map code y.machine (doChainBoot y.machine.mem y.machine.statics) ∧
      ∃ index b line image, Boots setup y.loader index b line ∧ Holds image 0 setup.kernel ∧
        Lib.Memory.read (doChainBoot y.machine.mem y.machine.statics).1 memKernelStart
            setup.kernel.length =
          Lib.Memory.read (bootImageWithDefaults image setup.kernel.length
            (some (ofBytes (stringOf line)))).image 0 setup.kernel.length := by
  have keep : ∀ (p : Picker) (ev : MenuLoader.Event) (u : Picker),
      (Waiting setup p ∨ ∃ index b line, Boots setup p index b line) → True →
      MenuLoader.step setup p ev = some u →
      (Waiting setup u ∨ ∃ index b line, Boots setup u index b line) ∧
        ∀ armed ∈ menuArms setup p ev, armed.2 ≤ map.kernelMaxSize := by
    intro p ev u hp _ hstep
    constructor
    case right =>
      intro armed harmed
      obtain hnone | ⟨index, card, hselection⟩ := menuArms_cases setup p ev
      · rw [hnone] at harmed
        cases harmed
      · rw [hselection] at harmed
        exact hmap ▸ selectionArms_fits harmed
    obtain hwaiting | ⟨index, b, line, hboots⟩ := hp
    · exact hwaiting.step hstep
    · exact Or.inr ⟨index, b, line, hboots.step hstep⟩
  have hstart := waiting_begin setup ticks
  obtain ⟨hsound, hplace⟩ := run_sound (r := menuRider setup) keep htext hcode hstart.chainBoot
    (Or.inl hstart) hp (along_true _ _) hr
  obtain ⟨hover, _, -, hshown⟩ := hsound.handedOver hpoll
  refine ⟨hover, ?_⟩
  obtain hwaiting | ⟨index, b, line, hboots⟩ := hplace
  · rw [hwaiting.chainBoot] at hpoll
    cases hpoll
  · obtain ⟨image, hholds, hb⟩ := hboots.whole
    refine ⟨index, b, line, image, hboots, hholds, ?_⟩
    have hread := hshown b.image hboots.image
    have hsize : ((menuRider setup).chainBoot y.loader).kernelSize = setup.kernel.length :=
      congrArg ChainBoot.Statics.kernelSize hboots.chainBoot
    rw [hsize] at hread
    rw [hread, hb]

section quiet

variable {setup : Setup} {p q : Picker}

def Quiet (setup : Setup) (p : Picker) (ev : MenuLoader.Event) : Prop :=
  menuArms setup p ev = none ∧ menuReturns p ev = false

instance (setup : Setup) (p : Picker) (ev : MenuLoader.Event) : Decidable (Quiet setup p ev) :=
  inferInstanceAs (Decidable (_ ∧ _))

theorem Quiet.chainBoot {ev : MenuLoader.Event} (h : Quiet setup p ev)
    (hstep : MenuLoader.step setup p ev = some q) : q.chainBoot = p.chainBoot := by
  have hfollows := (menuRider setup).follows p ev q hstep
  have harms : (menuRider setup).arms p ev = none := h.1
  have hreturns : (menuRider setup).returns p ev = false := h.2
  rw [harms, hreturns] at hfollows
  exact hfollows

theorem menu_calls (setup : Setup) (p : Picker) (mem : Mem UInt8) (ev : MenuLoader.Event) :
    (menuRider setup).calls p (turnOf mem ev) =
      .other mem :: (armCalls (turnOf mem ev) (menuArms setup p ev) ++
        returnCalls (menuReturns p ev)) := rfl

theorem Quiet.play {ev : MenuLoader.Event} (h : Quiet setup p ev)
    (hstep : MenuLoader.step setup p ev = some q) (mem : Mem UInt8) (c : Machine) :
    (menuRider setup).play 0x70000 ⟨p, c⟩ (turnOf mem ev) = some ⟨q, ⟨mem, c.statics⟩⟩ := by
  apply play_of hstep
  rw [menu_calls, h.1, h.2]
  rfl

theorem quiet_turns {es : List MenuLoader.Event} (hnone : p.chainBoot.kernelImage = none)
    (hquiet : Along (MenuLoader.step setup) (Quiet setup) p es)
    (hrun : run (MenuLoader.step setup) p es = some q) :
    Along ((menuRider setup).play 0x70000) (Plays (menuRider setup) eightBytes 0x70000)
        (.start p kernelMemory) (es.map (turnOf kernelMemory)) ∧
      run ((menuRider setup).play 0x70000) (.start p kernelMemory)
        (es.map (turnOf kernelMemory)) = some (.start q kernelMemory) := by
  induction es generalizing p with
  | nil =>
    cases hrun
    exact ⟨trivial, rfl⟩
  | cons ev es ih =>
    obtain ⟨u, hu, hrun⟩ := run_cons_some.mp hrun
    obtain ⟨hev, hrest⟩ := hquiet
    have hnext : u.chainBoot.kernelImage = none := by rw [hev.chainBoot hu, hnone]
    obtain ⟨hplays, hruns⟩ := ih hnext (hrest u hu) hrun
    refine ⟨⟨plays_unarmed hev.1 rfl fun v hv => ?_, fun y hy => ?_⟩,
      run_cons_some.mpr ⟨_, hev.play hu _ _, hruns⟩⟩
    · cases hu.symm.trans hv
      exact hnext
    · cases (hev.play hu _ _).symm.trans hy
      exact hplays

end quiet

def pairSetup : Setup := { twoSetup with kernelMaxSize := eightMax }

def enter : MenuLoader.Event := .main ⟨0, false, false, [13], fineCard⟩

/-- A keyboard comes up and Down is pressed; what Enter does is seen in the last three turns. -/
def pairTurns : List (Turn MenuLoader.Event) :=
  (downEnter.take 10).map (turnOf kernelMemory) ++
    [turnOf kernelMemory enter, turnOf stagedMemory enter, turnOf stagedMemory enter]

def buffered (p : Picker) : Option (List UInt8) := p.imageBuffer.map (Lib.Memory.read · 0 3)

def Arming (q u v w : Picker) : Prop :=
  q.chainBoot.kernelImage = none ∧ menuArms pairSetup q enter = some ((), 3) ∧
    menuReturns q enter = false ∧ Quiet pairSetup u enter ∧
    menuArms pairSetup v enter = none ∧ menuReturns v enter = true ∧
    (∀ p ∈ [u, v, w], p.chainBoot.kernelSize = 3 ∧ buffered p = some [1, 2, 3]) ∧
    isChainBootEnabled w.chainBoot = .handOff ∧ w.booted.map Prod.fst = [1]

instance (q u v w : Picker) : Decidable (Arming q u v w) :=
  inferInstanceAs (Decidable (_ ∧ _))

theorem pair_arming : ∃ q u v w,
    run (MenuLoader.step pairSetup) (begin pairSetup 0) (downEnter.take 10) = some q ∧
      MenuLoader.step pairSetup q enter = some u ∧ MenuLoader.step pairSetup u enter = some v ∧
      MenuLoader.step pairSetup v enter = some w ∧ Arming q u v w := by
  have hall : ((run (MenuLoader.step pairSetup) (begin pairSetup 0) (downEnter.take 10)).bind
      fun q => (MenuLoader.step pairSetup q enter).bind fun u =>
        (MenuLoader.step pairSetup u enter).bind fun v =>
          (MenuLoader.step pairSetup v enter).map fun w => decide (Arming q u v w)) =
      some true := by decide +kernel
  obtain ⟨q, hq, hall⟩ := Option.bind_eq_some_iff.mp hall
  obtain ⟨u, hu, hall⟩ := Option.bind_eq_some_iff.mp hall
  obtain ⟨v, hv, hall⟩ := Option.bind_eq_some_iff.mp hall
  obtain ⟨w, hw, hall⟩ := Option.map_eq_some_iff.mp hall
  exact ⟨q, u, v, w, hq, hu, hv, hw, of_decide_eq_true hall⟩

theorem armsThree_of_buffered {u : Picker}
    (h : u.chainBoot.kernelSize = 3 ∧ buffered u = some [1, 2, 3]) :
    ArmsThree (menuRider pairSetup) u := by
  refine ⟨h.1, fun _ shown _ himage => ?_⟩
  have hread := congrArg (Option.map (Lib.Memory.read · 0 3)) himage
  exact Option.some.inj (hread.symm.trans h.2)

/-- The second entry is the one in reverse video when Enter comes. -/
theorem starts_what_is_shown_second :
    ∃ y, run ((menuRider pairSetup).play 0x70000) (.start (begin pairSetup 0) kernelMemory)
        pairTurns = some y ∧ y.loader.booted.map Prod.fst = [1] ∧
      HandedOver eightBytes (Lib.Memory.read kernelMemory 0x70000 rapiStubMaxSize) y.machine
        (doChainBoot y.machine.mem y.machine.statics) ∧
      ∃ index b line image, Boots pairSetup y.loader index b line ∧
        Holds image 0 pairSetup.kernel ∧
        Lib.Memory.read (doChainBoot y.machine.mem y.machine.statics).1 memKernelStart
            pairSetup.kernel.length =
          Lib.Memory.read (bootImageWithDefaults image pairSetup.kernel.length
            (some (ofBytes (stringOf line)))).image 0 pairSetup.kernel.length := by
  obtain ⟨q, u, v, w, hq, hu, hv, hw, hnone, harms, hreturns, hquiet, harmsV, hreturnsV, hthree,
    hpoll, hbooted⟩ := pair_arming
  obtain ⟨hplays, hruns⟩ := @quiet_turns pairSetup _ _ (downEnter.take 10) rfl (by decide +kernel) hq
  obtain ⟨c, hc, hmem, hdtb, hat⟩ : ∃ c, run (HandOff.step 0x70000)
      ⟨kernelMemory, HandOff.Statics.init⟩
      [.other kernelMemory, .enableChainBoot roomyHeap none 0xA0000 3] = some c ∧
      c.mem = stagedMemory ∧ c.statics.dtbCopy = 0 ∧ c.statics.kernelImage = 0xA0000 :=
    ⟨_, rfl, rfl, rfl, rfl⟩
  have hfirst : (menuRider pairSetup).play 0x70000 (.start q kernelMemory)
      (turnOf kernelMemory enter) = some ⟨u, c⟩ := by
    apply play_of hu
    change run _ _ ((menuRider pairSetup).calls q _) = _
    rw [menu_calls, harms, hreturns]
    exact hc
  have hsecond := hquiet.play hv stagedMemory c
  have hthird : (menuRider pairSetup).play 0x70000 ⟨v, ⟨stagedMemory, c.statics⟩⟩
      (turnOf stagedMemory enter) =
        some ⟨w, ⟨stagedMemory, { c.statics with loaderMainReturned := true }⟩⟩ := by
    apply play_of hw
    change run _ _ ((menuRider pairSetup).calls v _) = _
    rw [menu_calls, harmsV, hreturnsV]
    rfl
  have hrun : run ((menuRider pairSetup).play 0x70000) (.start (begin pairSetup 0) kernelMemory)
      pairTurns = some ⟨w, ⟨stagedMemory, { c.statics with loaderMainReturned := true }⟩⟩ :=
    run_append_some.mpr ⟨_, hruns, run_cons_some.mpr ⟨_, hfirst,
      run_cons_some.mpr ⟨_, hsecond, run_cons_some.mpr ⟨_, hthird, rfl⟩⟩⟩⟩
  have hthreeOf : ∀ p ∈ [u, v, w], ArmsThree (menuRider pairSetup) p :=
    fun p hp => armsThree_of_buffered (hthree p hp)
  have hplay : Along ((menuRider pairSetup).play 0x70000)
      (Plays (menuRider pairSetup) eightBytes 0x70000)
      (.start (begin pairSetup 0) kernelMemory) pairTurns := by
    refine (along_append hruns).mpr ⟨hplays, plays_arming harms rfl fun p hp => ?_, fun y hy => ?_⟩
    · cases hu.symm.trans hp
      exact hthreeOf u (by simp)
    cases hfirst.symm.trans hy
    refine ⟨plays_armed hquiet.1 hmem hdtb hat fun p hp => ?_, fun y hy => ?_⟩
    · cases hv.symm.trans hp
      exact hthreeOf v (by simp)
    cases hsecond.symm.trans hy
    refine ⟨plays_armed harmsV rfl hdtb hat fun p hp => ?_, fun _ _ => trivial⟩
    cases hw.symm.trans hp
    exact hthreeOf w (by simp)
  exact ⟨_, hrun, hbooted, starts_what_is_shown rfl (by decide) rfl hplay hrun hpoll⟩

end RapiBootloader.MenuBoot
