import RapiBootloader.NetworkLoader

namespace RapiBootloader.Announce

open Lib.Memory Lib.Strings Lib.Run DefaultsBlock BootImage ChainBoot TftpServer TftpDaemon
open HttpServer NetworkLoader

variable {kernelMaxSize : KernelMaxSize}

/-- `sysinit` finds an armed image announced, and hands over to it. -/
def Announced (l : Loader) : Prop :=
  l.chainBoot.kernelImage.isSome →
    l.chainBoot.loaderMainReturned = true ∧ isChainBootEnabled l.chainBoot = .handOff

def completesKernel : Phase → Callback → Bool
  | .closed fileName data, .updateStatus .statusWriteCompleted =>
    kindOf fileName = some .kernel ∧ data ≠ []
  | _, _ => false

def uploads (r : Request (kernelMaxSize.bytes + 2000)) : Bool :=
  isIndex r.path && (stagedImage r.form.parts).isSome

def arms (l : Loader) : NetworkLoader.Event kernelMaxSize → Bool
  | .tftp ev => completesKernel l.tftp.daemon.phase ev.1
  | .http r => uploads r
  | .main _ => false

/-- A push that is finished when `Run` is already on its way to the reboot. -/
def armsLate (l : Loader) (ev : NetworkLoader.Event kernelMaxSize) : Bool :=
  (l.pc = .rebootQuiescing ∨ l.pc = .rebootSettling) ∧ arms l ev

theorem updateStatus_completed {s : Server} {data : List UInt8} (e : Env)
    (hk : s.kernelClosed = decide (data ≠ [])) (hs : Staged s data) :
    (updateStatus e .statusWriteCompleted s).1.isSome = decide (data ≠ []) := by
  obtain ⟨m, hm, -⟩ := hs.buffer
  rw [← hk]
  cases hc : s.kernelClosed <;> simp [updateStatus, hc, hm]

theorem reply_boot_isSome {t : Tftp} (hc : Consistent t.server t.daemon.phase)
    (ev : TftpDaemon.Event) :
    (reply t ev).boot.isSome = completesKernel t.daemon.phase ev.1 := by
  obtain ⟨c, e⟩ := ev
  cases c with
  | updateStatus status =>
    change (updateStatus e status t.server).1.isSome = _
    cases hp : t.daemon.phase with
    | closed fileName data =>
      rw [hp] at hc
      cases status with
      | statusWriteCompleted =>
        have hk := hc.2
        by_cases hn : kindOf fileName = some .kernel
        · rw [if_pos hn] at hk
          rw [updateStatus_completed e hk.1 hk.2]
          simp [completesKernel, hn]
        · rw [if_neg hn] at hk
          rw [updateStatus_open e _ hk]
          simp [completesKernel, hn]
      | statusWriteAborted =>
        rw [updateStatus]
        split <;> rfl
      | statusOther => rw [updateStatus_other]; rfl
    | _ =>
      rw [hp] at hc
      rw [updateStatus_open e _ hc.1]
      rfl
  | _ => cases t.daemon.phase <;> rfl

theorem getContent_boot_isSome (site : Site) (r : Request (kernelMaxSize.bytes + 2000)) :
    (getContent site r).boot.isSome = uploads r := by
  rw [getContent_boot, uploads]
  cases isIndex r.path with
  | false => rfl
  | true => simp [formBoot, takeForm_image]

theorem arm_isSome (l : Loader) (pointer : Boot → Pointer) (boot : Option Boot) :
    (arm l pointer boot).chainBoot.kernelImage.isSome =
      (boot.isSome || l.chainBoot.kernelImage.isSome) := by
  cases boot <;> rfl

/-- Between its yields the main loop sees a task's step as this: it stays where it
is, and the image gets armed exactly if the event arms. -/
theorem task_step {site : Site} {l u : Loader} {ev : NetworkLoader.Event kernelMaxSize}
    (hc : Consistent l.tftp.server l.tftp.daemon.phase) (h : NetworkLoader.step site l ev = some u) :
    (u.pc = l.pc ∧ u.chainBoot.loaderMainReturned = l.chainBoot.loaderMainReturned ∧
      u.chainBoot.kernelImage.isSome = (arms l ev || l.chainBoot.kernelImage.isSome)) ∨
    ∃ elapsed, arms l ev = false ∧ mainStep l elapsed = some u := by
  obtain ⟨-, hs⟩ := step_cases h
  cases hs with
  | tftp ev t ht hu =>
    rw [hu, arm_pc, arm_returned, arm_isSome, reply_boot_isSome hc]
    exact Or.inl ⟨rfl, rfl, rfl⟩
  | http r hu =>
    rw [hu, arm_pc, arm_returned, arm_isSome, getContent_boot_isSome]
    exact Or.inl ⟨rfl, rfl, rfl⟩
  | main elapsed hu => exact Or.inr ⟨elapsed, rfl, hu⟩

/-- What `Run` knows at each of its yields. -/
def OnPath (l : Loader) : Prop :=
  match l.pc with
  | .polling => l.chainBoot.loaderMainReturned = false
  | .quiescing | .settling =>
    l.chainBoot.loaderMainReturned = false ∧ l.chainBoot.kernelImage.isSome = true
  | .rebootQuiescing | .rebootSettling =>
    l.chainBoot.loaderMainReturned = false ∧ l.chainBoot.kernelImage.isSome = false
  | .returned => l.chainBoot.kernelImage.isSome = true → l.chainBoot.loaderMainReturned = true

theorem mainStep_onPath {l u : Loader} {elapsed : Bool} (hp : OnPath l)
    (h : mainStep l elapsed = some u) : OnPath u := by
  simp only [mainStep] at h
  cases hpc : l.pc with
  | polling =>
    simp only [OnPath, hpc] at hp
    rw [hpc] at h
    cases hi : l.chainBoot.kernelImage with
    | none =>
      simp only [isChainBootEnabled, hi, Option.isNone_none, if_true] at h
      cases h
      cases l.rebootRequested with
      | true => exact ⟨hp, by rw [hi]; rfl⟩
      | false => exact hp
    | some p =>
      simp only [isChainBootEnabled, hi, hp, Option.isNone_some, Bool.false_eq_true, if_false,
        Bool.not_false, if_true] at h
      cases h
      exact ⟨hp, by rw [hi]; rfl⟩
  | settling =>
    simp only [OnPath, hpc] at hp
    rw [hpc] at h
    cases elapsed <;> cases h
    · rw [if_neg Bool.false_ne_true, OnPath, hpc]
      exact hp
    · exact fun _ => rfl
  | rebootSettling =>
    simp only [OnPath, hpc] at hp
    rw [hpc] at h
    cases elapsed <;> cases h
    · exact hp
    · exact fun hi => absurd (hi.symm.trans hp.2) (by decide)
  | quiescing | rebootQuiescing =>
    simp only [OnPath, hpc] at hp
    rw [hpc] at h
    cases elapsed <;> cases h <;> exact hp
  | returned =>
    rw [hpc] at h
    cases h

theorem step_onPath {site : Site} {l u : Loader} {ev : NetworkLoader.Event kernelMaxSize}
    (hc : Consistent l.tftp.server l.tftp.daemon.phase) (hp : OnPath l)
    (hl : armsLate l ev = false) (h : NetworkLoader.step site l ev = some u) : OnPath u := by
  obtain ⟨hpc, hret, hi⟩ | ⟨elapsed, -, hm⟩ := task_step hc h
  · have hne := (step_cases h).1
    simp only [OnPath] at hp ⊢
    rw [hpc, hret, hi]
    cases hat : l.pc with
    | polling =>
      rw [hat] at hp
      exact hp
    | quiescing | settling =>
      rw [hat] at hp
      exact ⟨hp.1, by rw [hp.2, Bool.or_true]⟩
    | rebootQuiescing | rebootSettling =>
      rw [hat] at hp
      have ha : arms l ev = false := by simpa [armsLate, hat] using hl
      exact ⟨hp.1, by rw [ha, hp.2]; rfl⟩
    | returned => exact absurd hat hne
  · exact mainStep_onPath hp hm

def Unannounced (l : Loader) : Prop :=
  l.pc ≠ .returned → l.chainBoot.loaderMainReturned = false

theorem step_unannounced {site : Site} {l u : Loader} {ev : NetworkLoader.Event kernelMaxSize}
    (hc : Consistent l.tftp.server l.tftp.daemon.phase) (hu : Unannounced l)
    (h : NetworkLoader.step site l ev = some u) : Unannounced u := by
  obtain ⟨hpc, hret, -⟩ | ⟨elapsed, -, hm⟩ := task_step hc h
  · intro hne
    rw [hret]
    exact hu (hpc ▸ hne)
  · have hflag := hu (step_cases h).1
    intro hne
    simp only [mainStep] at hm
    split at hm
    · split at hm <;> cases hm <;> exact hflag
    · cases hm
      exact hflag
    · split at hm <;> cases hm
      · exact absurd rfl hne
      · exact hflag
    all_goals cases hm; try exact hflag

/-- Armed on the way to the reboot, which announces nothing. -/
def Late (l : Loader) : Prop :=
  (l.pc = .rebootQuiescing ∨ l.pc = .rebootSettling ∨ l.pc = .returned) ∧
    l.chainBoot.kernelImage.isSome = true ∧ l.chainBoot.loaderMainReturned = false

theorem step_late {site : Site} {l u : Loader} {ev : NetworkLoader.Event kernelMaxSize}
    (hc : Consistent l.tftp.server l.tftp.daemon.phase) (hl : Late l)
    (h : NetworkLoader.step site l ev = some u) : Late u := by
  obtain ⟨hpcs, himage, hflag⟩ := hl
  obtain ⟨hpc, hret, hi⟩ | ⟨elapsed, -, hm⟩ := task_step hc h
  · refine ⟨?_, ?_, hret.trans hflag⟩
    · rw [hpc]
      exact hpcs
    · rw [hi, himage, Bool.or_true]
  · simp only [mainStep] at hm
    obtain hat | hat | hat := hpcs
    · rw [hat] at hm
      cases elapsed <;> cases hm
      · exact ⟨Or.inl rfl, himage, hflag⟩
      · exact ⟨Or.inr (Or.inl rfl), himage, hflag⟩
    · rw [hat] at hm
      cases elapsed <;> cases hm
      · exact ⟨Or.inr (Or.inl rfl), himage, hflag⟩
      · exact ⟨Or.inr (Or.inr rfl), himage, hflag⟩
    · exact absurd hat (step_cases h).1

theorem late_of_armsLate {site : Site} {l u : Loader} {ev : NetworkLoader.Event kernelMaxSize}
    (hc : Consistent l.tftp.server l.tftp.daemon.phase) (hu : Unannounced l)
    (hl : armsLate l ev = true) (h : NetworkLoader.step site l ev = some u) : Late u := by
  simp only [armsLate, Bool.decide_and, Bool.and_eq_true, decide_eq_true_eq] at hl
  obtain ⟨hat, ha⟩ := hl
  obtain ⟨hpc, hret, hi⟩ | ⟨elapsed, hna, -⟩ := task_step hc h
  · refine ⟨?_, by rw [hi, ha]; rfl, hret.trans (hu (step_cases h).1)⟩
    rw [hpc]
    exact hat.imp_right Or.inl
  · rw [hna] at ha
    cases ha

theorem late_not_announced {l : Loader} (h : Late l) : ¬ Announced l := by
  intro ha
  have := (ha h.2.1).1
  rw [h.2.2] at this
  cases this

/-- `Run` returns to an announced image exactly if no push is finished during the
three seconds it takes on the way to the reboot. -/
theorem announced_iff (site : Site) (offset : Nat) (text : Mem UInt8)
    (evs : List (NetworkLoader.Event kernelMaxSize)) (l : Loader)
    (hr : run (NetworkLoader.step site) (Loader.init kernelMaxSize offset text) evs = some l)
    (hret : l.pc = .returned) :
    Announced l ↔ Along (NetworkLoader.step site) (fun l ev => armsLate l ev = false)
      (Loader.init kernelMaxSize offset text) evs := by
  constructor
  · intro ha
    by_contra hn
    obtain ⟨pre, ev, post, t, rfl, hpre, hev⟩ := exists_of_not_along hn
    obtain ⟨t', ht', hrest⟩ := run_append_some.mp hr
    rw [hpre, Option.some.injEq] at ht'
    subst ht'
    obtain ⟨u, hu, hpost⟩ := run_cons_some.mp hrest
    have hinv := run_invariant_all (I := fun l : Loader =>
        Consistent l.tftp.server l.tftp.daemon.phase ∧ Unannounced l)
      (fun _ _ _ hi hs => ⟨step_consistent hi.1 hs, step_unannounced hi.1 hi.2 hs⟩)
      ⟨consistent_init kernelMaxSize offset text, fun _ => rfl⟩ hpre
    have hlate := late_of_armsLate hinv.1 hinv.2 (Bool.not_eq_false _ ▸ hev) hu
    have hend := run_invariant_all (I := fun l : Loader =>
        Consistent l.tftp.server l.tftp.daemon.phase ∧ Late l)
      (fun _ _ _ hi hs => ⟨step_consistent hi.1 hs, step_late hi.1 hi.2 hs⟩)
      ⟨step_consistent hinv.1 hu, hlate⟩ hpost
    exact late_not_announced hend.2 ha
  · intro hs hi
    have hstart : OnPath (Loader.init kernelMaxSize offset text) := rfl
    have hpath := (run_invariant (I := fun l : Loader =>
        Consistent l.tftp.server l.tftp.daemon.phase ∧ OnPath l)
      (fun _ _ _ hi hq hs => ⟨step_consistent hi.1 hs, step_onPath hi.1 hi.2 hq hs⟩)
      ⟨consistent_init kernelMaxSize offset text, hstart⟩ hs hr).2
    simp only [OnPath, hret] at hpath
    have hflag := hpath hi
    refine ⟨hflag, ?_⟩
    obtain ⟨p, hp⟩ := Option.isSome_iff_exists.mp hi
    simp only [isChainBootEnabled, hp, hflag, Option.isNone_some, Bool.false_eq_true, if_false,
      Bool.not_true]

theorem announced_iff_run :
    ∃ l, run (NetworkLoader.step bareSite) (Loader.init smallMax 0 (fun _ => 0)) bootRun =
      some l ∧ (Announced l ↔ Along (NetworkLoader.step bareSite)
        (fun l ev => armsLate l ev = false) (Loader.init smallMax 0 (fun _ => 0)) bootRun) :=
  ⟨_, rfl, announced_iff bareSite 0 (fun _ => 0) bootRun _ rfl rfl⟩

def rebootRequest : Request (smallMax.bytes + 2000) :=
  ⟨⟨ascii "/reboot", by decide⟩, ⟨⟨[], by decide⟩, [], Or.inl rfl⟩, fun _ => 0, 4000⟩

def lateRun : List (NetworkLoader.Event smallMax) :=
  [.http rebootRequest, .main false] ++ kernelPush ++ [.main true, .main true]

theorem late_push_is_not_announced :
    ¬ ∀ (kernelMaxSize : KernelMaxSize) (site : Site) (offset : Nat) (text : Mem UInt8)
      (evs : List (NetworkLoader.Event kernelMaxSize)) (l : Loader),
      run (NetworkLoader.step site) (Loader.init kernelMaxSize offset text) evs = some l →
        l.pc = .returned → Announced l := by
  intro h
  have ha := h smallMax bareSite 0 (fun _ => 0) lateRun _ rfl rfl
  exact absurd (ha rfl).1 (by decide)

end RapiBootloader.Announce
