import RapiBootloader.ArmedImage
import RapiBootloader.CopyRegion
import RapiBootloader.Riders

namespace RapiBootloader.NetworkBoot

open Lib.Memory Lib.Run DefaultsBlock BootImage TftpServer TftpDaemon HttpServer NetworkLoader
open ArmedImage CopyRegion HandOff Riders Lib.Strings
open ChainBoot (KernelMaxSize isChainBootEnabled)

variable {kernelMaxSize : KernelMaxSize}

def networkArms (site : Site) (l : Loader) :
    NetworkLoader.Event kernelMaxSize → Option (Pointer × Nat)
  | .tftp ev => (reply l.tftp ev).boot.map (fun b => (.kernelBuffer, b.imageSize))
  | .http r => (getContent site r).boot.map (fun b => (.httpImage b.image, b.imageSize))
  | .main _ => none

def networkReturns (l : Loader) : NetworkLoader.Event kernelMaxSize → Bool
  | .main elapsed => l.pc = .settling && elapsed
  | _ => false

/-- The buffer of the TFTP server shows what pushes have put there, an upload what it had in it. -/
def networkImage (l : Loader) : Pointer → Option (Mem UInt8)
  | .kernelBuffer => l.tftp.server.kernelBuffer
  | .httpImage image => some image

theorem arm_chainBoot (l : Loader) (pointer : Boot → Pointer) (boot : Option Boot) :
    (arm l pointer boot).chainBoot =
      withArmed (boot.map (fun b => (pointer b, b.imageSize))) l.chainBoot := by
  cases boot <;> rfl

theorem mainStep_announced {l u : Loader} {elapsed : Bool} (h : mainStep l elapsed = some u) :
    u.chainBoot = announced (l.pc = .settling && elapsed) l.chainBoot := by
  unfold mainStep at h
  cases hpc : l.pc with
  | polling =>
    rw [hpc] at h
    dsimp only at h
    split at h <;> cases h <;> rfl
  | quiescing | rebootQuiescing | rebootSettling =>
    rw [hpc] at h
    cases h
    rfl
  | settling =>
    rw [hpc] at h
    cases h
    cases elapsed <;> rfl
  | returned =>
    rw [hpc] at h
    cases h

def networkRider (site : Site) : Rider Loader (NetworkLoader.Event kernelMaxSize) Pointer where
  step := NetworkLoader.step site
  chainBoot := Loader.chainBoot
  arms := networkArms site
  returns := networkReturns
  image := networkImage
  follows l ev u h := by
    obtain ⟨-, hs⟩ := step_cases h
    cases hs with
    | tftp ev t ht hu =>
      rw [hu, arm_chainBoot]
      rfl
    | http r hu =>
      rw [hu, arm_chainBoot]
      rfl
    | main elapsed hu => exact mainStep_announced hu

/-- The bytes that came whole, as a kernel push or as the kernel of a form. -/
def Sent (evs : List (NetworkLoader.Event kernelMaxSize)) (l : Loader) (data : List UInt8) : Prop :=
  (∃ t ∈ l.tftp.daemon.finished, Boots t ∧ t.data = data) ∨
    ∃ r p, .http r ∈ evs ∧ isIndex r.path = true ∧ lastImage r.form.parts = some p ∧ p.data = data

/-- An upload that is armed is the kernel of a form that came, at most stamped. -/
def Uploaded (evs : List (NetworkLoader.Event kernelMaxSize)) (l : Loader) : Prop :=
  ∀ image, l.chainBoot.kernelImage = some (.httpImage image) →
    ∃ r p, .http r ∈ evs ∧ isIndex r.path = true ∧ lastImage r.form.parts = some p ∧
      p.data.length = l.chainBoot.kernelSize ∧ StampedOnly p.data image

theorem form_stamps {site : Site} {r : Request (kernelMaxSize.bytes + 2000)} {b : Boot}
    (h : (getContent site r).boot = some b) :
    isIndex r.path = true ∧ ∃ p, lastImage r.form.parts = some p ∧ p.data.length = b.imageSize ∧
      StampedOnly p.data b.image := by
  rw [getContent_boot] at h
  split at h
  · rename_i hidx
    obtain ⟨m, hm, rfl⟩ := Option.map_eq_some_iff.mp h
    rw [takeForm_image] at hm
    obtain ⟨p, hp, hstaged⟩ := Option.bind_eq_some_iff.mp hm
    obtain ⟨block, hblock, rfl⟩ := Option.map_eq_some_iff.mp hstaged
    have hlen := takeForm_length r.stack _ p hp (by rw [hblock]; rfl)
    refine ⟨hidx, p, hp, ?_, ?_⟩
    · rw [boot_imageSize, hlen]
    · rw [hlen]
      exact boot_stampedOnly (holds_write block 0 p.data) _
  · cases h

theorem Uploaded.later {evs : List (NetworkLoader.Event kernelMaxSize)} {l u : Loader}
    (h : Uploaded evs l) (ev : NetworkLoader.Event kernelMaxSize)
    (himage : u.chainBoot.kernelImage = l.chainBoot.kernelImage)
    (hsize : u.chainBoot.kernelSize = l.chainBoot.kernelSize) : Uploaded (evs ++ [ev]) u := by
  intro image hi
  rw [himage] at hi
  rw [hsize]
  obtain ⟨r, p, hr, hrest⟩ := h image hi
  exact ⟨r, p, List.mem_append_left _ hr, hrest⟩

theorem step_uploaded {site : Site} {evs : List (NetworkLoader.Event kernelMaxSize)} {l u : Loader}
    {ev : NetworkLoader.Event kernelMaxSize} (h : Uploaded evs l)
    (hstep : NetworkLoader.step site l ev = some u) : Uploaded (evs ++ [ev]) u := by
  obtain ⟨-, hs⟩ := step_cases hstep
  cases hs with
  | tftp ev t ht hu =>
    rw [hu]
    cases (reply l.tftp ev).boot with
    | none => exact h.later _ rfl rfl
    | some b => exact fun image hi => by cases hi
  | http r hu =>
    rw [hu]
    cases hb : (getContent site r).boot with
    | none => exact h.later _ rfl rfl
    | some b =>
      intro image hi
      cases hi
      obtain ⟨hidx, p, hp, hlen, hstamped⟩ := form_stamps hb
      exact ⟨r, p, List.mem_append_right _ List.mem_cons_self, hidx, hp, hlen, hstamped⟩
  | main elapsed hu =>
    obtain ⟨-, himage, hsize, -⟩ := mainStep_frame hu
    exact h.later _ himage hsize

/-- What the loader knows of itself in a run that does not overwrite what is armed. -/
structure Known (kernelMaxSize : KernelMaxSize) (l : Loader) : Prop where
  sized : Sized kernelMaxSize l
  complete : ArmedComplete l

def Careful (l : Loader) (ev : NetworkLoader.Event kernelMaxSize) : Prop :=
  overwrites l ev = false ∧ ∀ r, ev = .http r → FormFits r

theorem step_known {site : Site} {map : MemoryMap} (hmap : kernelMaxSize.bytes = map.kernelMaxSize)
    (l : Loader) (ev : NetworkLoader.Event kernelMaxSize) (u : Loader) (h : Known kernelMaxSize l)
    (hq : Careful l ev) (hstep : NetworkLoader.step site l ev = some u) :
    Known kernelMaxSize u ∧ ∀ armed ∈ networkArms site l ev, armed.2 ≤ map.kernelMaxSize := by
  have hsized := (step_sized h.sized hstep).1
  refine ⟨⟨hsized, step_armedComplete h.sized.1 h.complete hq.1 hstep⟩, fun armed harmed => ?_⟩
  rw [← hmap]
  cases ev with
  | tftp ev =>
    obtain ⟨-, hs⟩ := step_cases hstep
    cases hs with
    | tftp _ t ht hu =>
      obtain ⟨b, hb, rfl⟩ := Option.map_eq_some_iff.mp harmed
      exact (tftp_boot_fits h.sized.1 h.sized.2 ht b hb).2
  | http r =>
    obtain ⟨b, hb, rfl⟩ := Option.map_eq_some_iff.mp harmed
    exact ((form_fits_iff site r).mpr (hq.2 r rfl) b hb).2
  | main elapsed => cases harmed

/-- What runs at the start address is, byte for byte, a kernel that came whole over the network,
with at most the defaults block it declares stamped, and the stub and the device tree are intact:
in whatever order the callbacks of the daemon, the requests and the main loop come, if no push goes
over what is armed and no form has a kernel in it that does not fit. -/
theorem boots_what_was_sent {site : Site} {map : MemoryMap} {stubAt : Nat} {code : List UInt8}
    {offset : Nat} {text : Mem UInt8} {m : Mem UInt8}
    {ts : List (Turn (NetworkLoader.Event kernelMaxSize))} {y : System Loader}
    (hmap : kernelMaxSize.bytes = map.kernelMaxSize)
    (htext : stubAt + rapiStubMaxSize ≤ map.memKernelEnd)
    (hcode : read m stubAt rapiStubMaxSize = code)
    (hp : Along ((networkRider site).play stubAt) (Plays (networkRider site) map stubAt)
      (.start (Loader.init kernelMaxSize offset text) m) ts)
    (hq : Along (NetworkLoader.step site) Careful (Loader.init kernelMaxSize offset text)
      (ts.map Turn.event))
    (hr : run ((networkRider site).play stubAt)
      (.start (Loader.init kernelMaxSize offset text) m) ts = some y)
    (hpoll : isChainBootEnabled y.loader.chainBoot = .handOff) :
    HandedOver map code y.machine (doChainBoot y.machine.mem y.machine.statics) ∧
      ∃ data, Sent (ts.map Turn.event) y.loader data ∧
        data.length = y.machine.statics.kernelSize ∧
        StampedOnly data (fun i =>
          (doChainBoot y.machine.mem y.machine.statics).1 (memKernelStart + i)) := by
  have hstart : Known kernelMaxSize (Loader.init kernelMaxSize offset text) :=
    ⟨⟨consistent_init kernelMaxSize offset text, rfl⟩, fun hi => by cases hi⟩
  obtain ⟨hsound, hknown⟩ := run_sound (step_known hmap) htext hcode rfl hstart hp hq hr
  have huploaded : Uploaded (ts.map Turn.event) y.loader :=
    run_history (fun _ _ _ _ _ h hu => step_uploaded h hu) (fun _ hi => by cases hi)
      (run_loader hr)
  obtain ⟨hover, p, hpointer, hshown⟩ := hsound.handedOver hpoll
  have hsize : y.machine.statics.kernelSize = y.loader.chainBoot.kernelSize :=
    congrArg ChainBoot.Statics.kernelSize hsound.stands.armed
  refine ⟨hover, ?_⟩
  -- The buffer of the pushes is written to again and needs the invariant of the whole run; an
  -- upload stays as it is, so the history of the requests is enough.
  have hsent : ∃ data image, Sent (ts.map Turn.event) y.loader data ∧
      data.length = y.loader.chainBoot.kernelSize ∧ StampedOnly data image ∧
      networkImage y.loader p = some image := by
    cases p with
    | kernelBuffer =>
      obtain ⟨t, ht, hboots, hlen, image, himage, hstamped⟩ := hknown.complete hpointer
      exact ⟨t.data, image, Or.inl ⟨t, ht, hboots, rfl⟩, hlen, hstamped, himage⟩
    | httpImage image =>
      obtain ⟨r, q, hr, hidx, hq, hlen, hstamped⟩ := huploaded image hpointer
      exact ⟨q.data, image, Or.inr ⟨r, q, hr, hidx, hq, rfl⟩, hlen, hstamped, rfl⟩
  obtain ⟨data, image, hdata, hlen, hstamped, himage⟩ := hsent
  refine ⟨data, hdata, hlen.trans hsize.symm, hstamped.congr fun i hi => ?_⟩
  have hread : Lib.Memory.read (doChainBoot y.machine.mem y.machine.statics).1 memKernelStart
      data.length = Lib.Memory.read image 0 data.length := hlen ▸ hshown image himage
  have hbyte := congrArg (·[i]?) hread
  simpa [Lib.Memory.read, hi] using hbyte

def bootTurns : List (Turn (NetworkLoader.Event eightMax)) :=
  (push (ascii "kernel.img") someKernel .statusWriteCompleted).map
      (turnOf kernelMemory ∘ NetworkLoader.Event.tftp) ++
    [.main false, .main true, .main true].map (turnOf stagedMemory)

theorem pushed_three {u : Loader} (hpointer : u.chainBoot.kernelImage = some .kernelBuffer)
    (hsize : u.chainBoot.kernelSize = 3)
    (hbuffer : u.tftp.server.kernelBuffer.map (Lib.Memory.read · 0 3) = some [1, 2, 3]) :
    ArmsThree (@networkRider eightMax bareSite) u := by
  refine ⟨hsize, fun p shown hp himage => ?_⟩
  obtain rfl := Option.some.inj (hp.symm.trans hpointer)
  have hread := congrArg (Option.map (Lib.Memory.read · 0 3)) himage
  exact Option.some.inj (hread.symm.trans hbuffer)

theorem bootTurns_careful : Along (NetworkLoader.step bareSite) Careful
    (Loader.init eightMax 0 (fun _ => 0)) (bootTurns.map Turn.event) := by
  apply Along.and
  · decide
  · apply along_of_forall
    intro ev hev _ r hr
    rw [hr] at hev
    simp [bootTurns, push, turnOf] at hev

theorem bootTurns_plays : Along ((networkRider bareSite).play 0x70000)
    (Plays (networkRider bareSite) eightBytes 0x70000)
    (.start (Loader.init eightMax 0 (fun _ => 0)) kernelMemory) bootTurns := by
  refine ⟨plays_unarmed rfl rfl fun u hu => ?_, fun y hy => ?_⟩
  · cases hu
    rfl
  cases hy
  refine ⟨plays_unarmed rfl rfl fun u hu => ?_, fun y hy => ?_⟩
  · cases hu
    rfl
  cases hy
  refine ⟨plays_unarmed rfl rfl fun u hu => ?_, fun y hy => ?_⟩
  · cases hu
    rfl
  cases hy
  refine ⟨plays_arming rfl rfl fun u hu => ?_, fun y hy => ?_⟩
  · cases hu
    exact pushed_three rfl rfl rfl
  cases hy
  refine ⟨plays_armed rfl rfl rfl rfl fun u hu => ?_, fun y hy => ?_⟩
  · cases hu
    exact pushed_three rfl rfl rfl
  cases hy
  refine ⟨plays_armed rfl rfl rfl rfl fun u hu => ?_, fun y hy => ?_⟩
  · cases hu
    exact pushed_three rfl rfl rfl
  cases hy
  refine ⟨plays_armed rfl rfl rfl rfl fun u hu => ?_, fun _ _ => trivial⟩
  cases hu
  exact pushed_three rfl rfl rfl

theorem boots_what_was_sent_push :
    ∃ y, run ((networkRider bareSite).play 0x70000)
        (.start (Loader.init eightMax 0 (fun _ => 0)) kernelMemory) bootTurns = some y ∧
      HandedOver eightBytes (Lib.Memory.read kernelMemory 0x70000 rapiStubMaxSize) y.machine
        (doChainBoot y.machine.mem y.machine.statics) ∧
      ∃ data, Sent (bootTurns.map Turn.event) y.loader data ∧
        data.length = y.machine.statics.kernelSize ∧
        StampedOnly data (fun i =>
          (doChainBoot y.machine.mem y.machine.statics).1 (memKernelStart + i)) :=
  ⟨_, rfl, boots_what_was_sent rfl (by decide) rfl bootTurns_plays bootTurns_careful rfl rfl⟩

end RapiBootloader.NetworkBoot
