import RapiBootloader.TftpDaemon
import RapiBootloader.HttpServer

namespace RapiBootloader.NetworkLoader

open Lib.Memory Lib.Strings Lib.Run DefaultsBlock BootImage ChainBoot TftpServer TftpDaemon
open HttpServer

variable {kernelMaxSize : KernelMaxSize}

/-- The image pointers that get armed: the TFTP server's buffer, which later pushes
use again, and a heap block of the HTTP server, which nothing does. -/
inductive Pointer
  | kernelBuffer
  | httpImage (image : Mem UInt8)

/-- Where `Run` gives way to the tasks. Pumping plug-and-play and sleeping come
once on each of the two ways out. -/
inductive Pc
  | polling
  | quiescing
  | settling
  | rebootQuiescing
  | rebootSettling
  | returned
deriving DecidableEq, Repr

structure Loader where
  tftp : Tftp
  chainBoot : Statics Pointer
  rebootRequested : Bool
  pc : Pc
  boots : List Boot

/-- One thing at a time happens while `Run` yields: a callback of the TFTP daemon,
a request, or the main loop going on to its next yield. -/
inductive Event (kernelMaxSize : KernelMaxSize)
  | tftp (ev : TftpDaemon.Event)
  | http (r : Request (kernelMaxSize.bytes + 2000))
  | main (elapsed : Bool)

def Loader.init (kernelMaxSize : KernelMaxSize) (offset : Nat) (text : Mem UInt8) : Loader :=
  ⟨Tftp.init kernelMaxSize offset text, Statics.init, false, .polling, []⟩

/-- The `EnableChainBoot` at the end of `BootImageWithDefaults`. -/
def arm (l : Loader) (pointer : Boot → Pointer) : Option Boot → Loader
  | none => l
  | some b =>
    { l with
      chainBoot := enableChainBoot l.chainBoot (pointer b) b.imageSize
      boots := b :: l.boots }

def mainStep (l : Loader) (elapsed : Bool) : Option Loader :=
  match l.pc with
  | .polling =>
    match isChainBootEnabled l.chainBoot with
    | .disabled => some { l with pc := if l.rebootRequested then .rebootQuiescing else .polling }
    | .enabled => some { l with pc := .quiescing }
    | .handOff => none
  | .quiescing => some { l with pc := if elapsed then .settling else .quiescing }
  | .settling =>
    some (if elapsed then
      { l with pc := .returned, chainBoot := rapiChainBootMainReturning l.chainBoot } else l)
  | .rebootQuiescing => some { l with pc := if elapsed then .rebootSettling else .rebootQuiescing }
  | .rebootSettling => some { l with pc := if elapsed then .returned else .rebootSettling }
  | .returned => none

def step (site : Site) (l : Loader) (ev : Event kernelMaxSize) : Option Loader :=
  if l.pc = .returned then none
  else
    match ev with
    | .tftp ev =>
      (TftpDaemon.step l.tftp ev).map
        (fun t => arm { l with tftp := t } (fun _ => .kernelBuffer) (reply l.tftp ev).boot)
    | .http r =>
      let response := getContent site r
      some (arm { l with rebootRequested := l.rebootRequested || response.reboot }
        (fun b => .httpImage b.image) response.boot)
    | .main elapsed => mainStep l elapsed

@[simp] theorem arm_tftp (l : Loader) (pointer : Boot → Pointer) (boot : Option Boot) :
    (arm l pointer boot).tftp = l.tftp := by
  cases boot <;> rfl

@[simp] theorem arm_pc (l : Loader) (pointer : Boot → Pointer) (boot : Option Boot) :
    (arm l pointer boot).pc = l.pc := by
  cases boot <;> rfl

@[simp] theorem arm_boots (l : Loader) (pointer : Boot → Pointer) (boot : Option Boot) :
    (arm l pointer boot).boots = boot.toList ++ l.boots := by
  cases boot <;> rfl

@[simp] theorem arm_returned (l : Loader) (pointer : Boot → Pointer) (boot : Option Boot) :
    (arm l pointer boot).chainBoot.loaderMainReturned = l.chainBoot.loaderMainReturned := by
  cases boot <;> rfl

def kernelPush : List (Event smallMax) :=
  (push (ascii "kernel.img") someKernel .statusWriteCompleted).map .tftp

def bootRun : List (Event smallMax) := kernelPush ++ [.main false, .main true, .main true]

/-- What a step of the loader can be. -/
inductive Steps (site : Site) (l : Loader) (u : Loader) : Event kernelMaxSize → Prop
  | tftp (ev : TftpDaemon.Event) (t : Tftp) (ht : TftpDaemon.step l.tftp ev = some t)
      (hu : u = arm { l with tftp := t } (fun _ => .kernelBuffer) (reply l.tftp ev).boot) :
      Steps site l u (.tftp ev)
  | http (r : Request (kernelMaxSize.bytes + 2000))
      (hu : u = arm
        { l with rebootRequested := l.rebootRequested || (getContent site r).reboot }
        (fun b => .httpImage b.image) (getContent site r).boot) : Steps site l u (.http r)
  | main (elapsed : Bool) (hu : mainStep l elapsed = some u) : Steps site l u (.main elapsed)

theorem step_cases {site : Site} {l u : Loader} {ev : Event kernelMaxSize}
    (h : step site l ev = some u) : l.pc ≠ .returned ∧ Steps site l u ev := by
  simp only [step] at h
  split at h
  · cases h
  · rename_i hpc
    refine ⟨hpc, ?_⟩
    cases ev with
    | tftp ev =>
      obtain ⟨t, ht, hu⟩ := Option.map_eq_some_iff.mp h
      exact .tftp ev t ht hu.symm
    | http r => exact .http r (Option.some.inj h).symm
    | main elapsed => exact .main elapsed h

theorem mainStep_frame {l u : Loader} {elapsed : Bool} (h : mainStep l elapsed = some u) :
    u.tftp = l.tftp ∧ u.chainBoot.kernelImage = l.chainBoot.kernelImage ∧
      u.chainBoot.kernelSize = l.chainBoot.kernelSize ∧ u.boots = l.boots := by
  simp only [mainStep] at h
  split at h
  · split at h <;> cases h <;> exact ⟨rfl, rfl, rfl, rfl⟩
  · cases h
    exact ⟨rfl, rfl, rfl, rfl⟩
  · split at h <;> cases h <;> exact ⟨rfl, rfl, rfl, rfl⟩
  all_goals
    cases h
    try exact ⟨rfl, rfl, rfl, rfl⟩

theorem step_consistent {site : Site} {l u : Loader} {ev : Event kernelMaxSize}
    (hc : Consistent l.tftp.server l.tftp.daemon.phase) (h : step site l ev = some u) :
    Consistent u.tftp.server u.tftp.daemon.phase := by
  obtain ⟨-, hs⟩ := step_cases h
  cases hs with
  | tftp ev t ht hu =>
    rw [hu, arm_tftp]
    exact (step_moves hc ht).2
  | http r hu =>
    rw [hu, arm_tftp]
    exact hc
  | main elapsed hu =>
    rw [(mainStep_frame hu).1]
    exact hc

end RapiBootloader.NetworkLoader
