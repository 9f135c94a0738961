import RapiBootloader.NetworkLoader
import RapiBootloader.BootSelection

namespace RapiBootloader.CopyRegion

open Lib.Memory Lib.Strings Lib.Run DefaultsBlock BootImage ChainBoot TftpServer TftpDaemon
open HttpServer NetworkLoader BootMenu BootSelection

variable {kernelMaxSize : KernelMaxSize}

/-- The image can be copied to the region the kernels run in. -/
def FitsRegion (kernelMaxSize : KernelMaxSize) (b : Boot) : Prop :=
  0 < b.imageSize ∧ b.imageSize ≤ kernelMaxSize.bytes

/-- The kernel a form leaves behind, if it can be staged, is not above the maximum. -/
def FormFits (r : Request (kernelMaxSize.bytes + 2000)) : Prop :=
  isIndex r.path = true → ∀ p, lastImage r.form.parts = some p →
    (stageAlloc p.memory p.data.length).isSome = true → p.data.length ≤ kernelMaxSize.bytes

theorem form_boot_iff (site : Site) (r : Request (kernelMaxSize.bytes + 2000)) (n : Nat) :
    (∃ b, (getContent site r).boot = some b ∧ b.imageSize = n) ↔
      isIndex r.path = true ∧ ∃ p, lastImage r.form.parts = some p ∧
        (stageAlloc p.memory p.data.length).isSome = true ∧ p.data.length = n := by
  rw [getContent_boot]
  constructor
  · rintro ⟨b, hb, rfl⟩
    split at hb
    · rename_i hidx
      refine ⟨hidx, ?_⟩
      obtain ⟨m, hm, rfl⟩ := Option.map_eq_some_iff.mp hb
      rw [takeForm_image] at hm
      obtain ⟨p, hp, hst⟩ := Option.bind_eq_some_iff.mp hm
      have hsome : (stageAlloc p.memory p.data.length).isSome = true := by
        have := congrArg Option.isSome hst
        rwa [Option.isSome_map] at this
      rw [boot_imageSize, takeForm_length r.stack _ p hp hsome]
      exact ⟨p, hp, hsome, rfl⟩
    · cases hb
  · rintro ⟨hidx, p, hp, hsome, rfl⟩
    obtain ⟨m, hm⟩ := Option.isSome_iff_exists.mp hsome
    have himage : (takeForm r.stack r.form.parts).kernelImage = some (write m 0 p.data) := by
      rw [takeForm_image, stagedImage, hp, Option.bind_some, hm, Option.map_some]
    rw [if_pos hidx, formBoot, himage]
    refine ⟨_, rfl, ?_⟩
    rw [boot_imageSize, takeForm_length r.stack _ p hp hsome]

theorem lastImage_pos {parts : List Part} {p : Part} (h : lastImage parts = some p) :
    0 < p.data.length := by
  have hi := List.find?_some h
  simp only [isImagePart, decide_eq_true_eq] at hi
  exact hi.2.2.2

/-- A form arms what fits the region exactly if it leaves behind what fits. -/
theorem form_fits_iff (site : Site) (r : Request (kernelMaxSize.bytes + 2000)) :
    (∀ b ∈ (getContent site r).boot, FitsRegion kernelMaxSize b) ↔ FormFits r := by
  constructor
  · intro h hidx p hp hsome
    obtain ⟨b, hb, hsize⟩ := (form_boot_iff site r p.data.length).mpr ⟨hidx, p, hp, hsome, rfl⟩
    exact hsize ▸ (h b hb).2
  · intro h b hb
    obtain ⟨hidx, p, hp, hsome, hsize⟩ := (form_boot_iff site r b.imageSize).mp ⟨b, hb, rfl⟩
    rw [FitsRegion, ← hsize]
    exact ⟨lastImage_pos hp, h hidx p hp hsome⟩

theorem step_maxKernelSize {t u : Tftp} {ev : TftpDaemon.Event}
    (hc : Consistent t.server t.daemon.phase) (h : TftpDaemon.step t ev = some u) :
    u.server.maxKernelSize = t.server.maxKernelSize := by
  have hm := (step_moves hc h).1
  generalize (reply t ev).boot = boot at hm
  cases hm with
  | quiet hk | startInject _ _ _ _ hk | closeInject _ _ _ _ _ hk => exact hk.maxKernelSize
  | refuse fileName data block he hp hd hk => exact hk.maxKernelSize
  | takeInject fileName data block he hn hp hd hsv =>
    rw [hsv, writeInject]
    split <;> rfl
  | takeKernel fileName data block he hn hp hd hsv =>
    rw [hsv, writeKernel]
    split <;> rfl
  | startKernel fileName hn hp hd hi m hb hkeep hx => exact hx
  | closeKernel fileName data hn hp hd hb hx => exact hx
  | finish fileName data outcome he hd hp hb hx => exact hx
  | boot fileName data image he hn hp hne hd hm hs b hb hu hx => exact hx

theorem tftp_boot_fits {t u : Tftp} {ev : TftpDaemon.Event}
    (hc : Consistent t.server t.daemon.phase) (hx : t.server.maxKernelSize = kernelMaxSize)
    (h : TftpDaemon.step t ev = some u) : ∀ b ∈ (reply t ev).boot, FitsRegion kernelMaxSize b := by
  intro b hb
  have hm := (step_moves hc h).1
  generalize (reply t ev).boot = boot at hm hb
  cases hm with
  | boot fileName data image he hn hp hne hd hm hs b' hb' hu hx' =>
    cases hb
    rw [FitsRegion, hb', boot_imageSize, ← hx]
    exact ⟨List.length_pos_iff.mpr hne, hs.fits⟩
  | _ => cases hb

def Sized (kernelMaxSize : KernelMaxSize) (l : Loader) : Prop :=
  Consistent l.tftp.server l.tftp.daemon.phase ∧ l.tftp.server.maxKernelSize = kernelMaxSize

theorem forall_mem_boots (boot : Option Boot) (boots : List Boot) (P : Boot → Prop) :
    (∀ b ∈ boot.toList ++ boots, P b) ↔ (∀ b ∈ boot, P b) ∧ ∀ b ∈ boots, P b := by
  simp only [List.mem_append, Option.mem_toList, or_imp, forall_and, Option.mem_def]

theorem step_sized {site : Site} {l u : Loader} {ev : NetworkLoader.Event kernelMaxSize}
    (hl : Sized kernelMaxSize l) (h : NetworkLoader.step site l ev = some u) :
    Sized kernelMaxSize u ∧
      ((∀ b ∈ u.boots, FitsRegion kernelMaxSize b) ↔
        (∀ r, ev = .http r → FormFits r) ∧ ∀ b ∈ l.boots, FitsRegion kernelMaxSize b) := by
  obtain ⟨hc, hx⟩ := hl
  have hcu := step_consistent hc h
  obtain ⟨-, hs⟩ := step_cases h
  cases hs with
  | tftp ev t ht hu =>
    subst hu
    refine ⟨⟨hcu, ?_⟩, ?_⟩
    · rw [arm_tftp]
      exact (step_maxKernelSize hc ht).trans hx
    · rw [arm_boots, forall_mem_boots]
      have hfits := tftp_boot_fits hc hx ht
      constructor
      · rintro ⟨-, hrest⟩
        exact ⟨fun r hr => by simp at hr, hrest⟩
      · rintro ⟨-, hrest⟩
        exact ⟨hfits, hrest⟩
  | http r hu =>
    subst hu
    refine ⟨⟨hcu, ?_⟩, ?_⟩
    · rw [arm_tftp]
      exact hx
    · rw [arm_boots, forall_mem_boots, form_fits_iff]
      simp
  | main elapsed hu =>
    obtain ⟨ht, -, -, hb⟩ := mainStep_frame hu
    refine ⟨⟨hcu, by rw [ht]; exact hx⟩, ?_⟩
    rw [hb]
    simp

theorem run_sized {site : Site} {l u : Loader} {evs : List (NetworkLoader.Event kernelMaxSize)}
    (hl : Sized kernelMaxSize l) (h : run (NetworkLoader.step site) l evs = some u) :
    (∀ b ∈ u.boots, FitsRegion kernelMaxSize b) ↔
      (∀ r, .http r ∈ evs → FormFits r) ∧ ∀ b ∈ l.boots, FitsRegion kernelMaxSize b := by
  induction evs generalizing l with
  | nil =>
    cases h
    simp
  | cons ev evs ih =>
    obtain ⟨t, ht, hu⟩ := run_cons_some.mp h
    obtain ⟨hst, hiff⟩ := step_sized hl ht
    rw [ih hst hu, hiff, ← and_assoc]
    refine and_congr_left (fun _ => ?_)
    constructor
    · rintro ⟨hrest, hev⟩ r hr
      obtain hr | hr := List.mem_cons.mp hr
      · exact hev r hr.symm
      · exact hrest r hr
    · intro hall
      exact ⟨fun r hr => hall r (List.mem_cons_of_mem ev hr),
        fun r hr => hall r (List.mem_cons.mpr (Or.inl hr.symm))⟩

theorem menu_boot_fits {menu : Menu} {imageBuffer : Option (Mem UInt8)} {s : Selection} {b : Boot}
    (h : bootSelection kernelMaxSize menu imageBuffer s = .armed b) :
    FitsRegion kernelMaxSize b := by
  obtain ⟨string, image, hl⟩ := bootSelection_armed h
  rw [FitsRegion, hl.boot, boot_imageSize]
  exact ⟨hl.positive, hl.fits⟩

/-- Of the three ways to an armed image two check its size. The form has only the
limit on its whole body, which leaves the image 2000 bytes more than fit. -/
theorem armed_sizes_fit_iff (site : Site) (offset : Nat) (text : Mem UInt8)
    (evs : List (NetworkLoader.Event kernelMaxSize)) (l : Loader)
    (hr : run (NetworkLoader.step site) (Loader.init kernelMaxSize offset text) evs = some l) :
    ((∀ b ∈ l.boots, FitsRegion kernelMaxSize b) ∧
      ∀ menu imageBuffer s b, bootSelection kernelMaxSize menu imageBuffer s = .armed b →
        FitsRegion kernelMaxSize b) ↔
    ∀ r, .http r ∈ evs → FormFits r := by
  have hstart : Sized kernelMaxSize (Loader.init kernelMaxSize offset text) :=
    ⟨consistent_init kernelMaxSize offset text, rfl⟩
  rw [run_sized hstart hr]
  constructor
  · exact fun h => h.1.1
  · exact fun h => ⟨⟨h, fun b hb => by cases hb⟩, fun _ _ _ _ => menu_boot_fits⟩

theorem upload_fits (data : List UInt8) :
    bodyLength formBoundary [uploadPart data] < data.length + 2000 := by
  have hb : strlen formBoundary = 12 := by decide
  rw [bodyLength, List.foldr_cons, List.foldr_nil, wireLength_uploadPart, hb]
  omega

theorem lastImage_upload {data : List UInt8} (h : data ≠ []) :
    lastImage [uploadPart data] = some (uploadPart data) := by
  have himage : isImagePart (uploadPart data) = true :=
    (isImagePart_iff _).mpr ⟨isUpload_uploadHeader, h⟩
  have hcat := lastImage_concat [] (uploadPart data)
  rwa [if_pos himage, List.nil_append] at hcat

def smallRequest : Request (smallMax.bytes + 2000) :=
  ⟨indexPath, ⟨formBoundary, [uploadPart [1, 2, 3]],
    Or.inr ((upload_fits _).le.trans (by decide))⟩, fun _ => 0, 4000⟩

def formRun : List (NetworkLoader.Event smallMax) := kernelPush ++ [.http smallRequest]

/-- Both arm the loader. -/
theorem armed_sizes_fit_iff_run :
    ∃ l, run (NetworkLoader.step bareSite) (Loader.init smallMax 0 (fun _ => 0)) formRun = some l ∧
      l.boots.map Boot.imageSize = [3, 3] ∧ (∀ b ∈ l.boots, FitsRegion smallMax b) ∧
        ∀ menu imageBuffer s b, bootSelection smallMax menu imageBuffer s = .armed b →
          FitsRegion smallMax b := by
  have hlast : lastImage [uploadPart [1, 2, 3]] = some (uploadPart [1, 2, 3]) :=
    lastImage_upload (by decide)
  obtain ⟨b, hb, hsize⟩ := (form_boot_iff bareSite smallRequest 3).mpr
    ⟨isIndex_indexPath, _, hlast, by decide, rfl⟩
  refine ⟨_, rfl, ?_, (armed_sizes_fit_iff bareSite 0 (fun _ => 0) formRun _ rfl).mpr ?_⟩
  · rw [arm_boots, hb, List.map_append, Option.toList_some, List.map_singleton, hsize]
    rfl
  · intro r hr
    obtain rfl : r = smallRequest := by
      simpa [formRun, kernelPush] using hr
    intro _ p hp _
    obtain rfl := Option.some.inj (hlast.symm.trans hp)
    decide

def configured : KernelMaxSize := ⟨255 * 1024 * 1024, by decide⟩

def hugePart : Part := uploadPart (List.replicate (configured.bytes + 1) 0)

theorem length_hugePart : hugePart.data.length = configured.bytes + 1 := List.length_replicate

theorem hugePart_fits : bodyLength formBoundary [hugePart] ≤ configured.bytes + 2000 := by
  have hlt := upload_fits (List.replicate (configured.bytes + 1) 0)
  rw [List.length_replicate] at hlt
  rw [hugePart]
  omega

def hugeRequest : Request (configured.bytes + 2000) :=
  ⟨indexPath, ⟨formBoundary, [hugePart], Or.inr hugePart_fits⟩, fun _ => 0, 4000⟩

theorem lastImage_huge : lastImage [hugePart] = some hugePart :=
  lastImage_upload (List.cons_ne_nil _ _)

theorem huge_form_is_armed :
    ¬ ∀ (kernelMaxSize : KernelMaxSize) (site : Site) (offset : Nat) (text : Mem UInt8)
      (evs : List (NetworkLoader.Event kernelMaxSize)) (l : Loader),
      run (NetworkLoader.step site) (Loader.init kernelMaxSize offset text) evs = some l →
        ∀ b ∈ l.boots, FitsRegion kernelMaxSize b := by
  intro h
  have hall := h configured bareSite 0 (fun _ => 0) [.http hugeRequest] _ rfl
  have hroom : (stageAlloc hugePart.memory hugePart.data.length).isSome = true := by
    rw [length_hugePart]
    decide
  obtain ⟨b, hb, hsize⟩ := (form_boot_iff bareSite hugeRequest _).mpr
    ⟨isIndex_indexPath, hugePart, lastImage_huge, hroom, rfl⟩
  have hmem : b ∈ (getContent bareSite hugeRequest).boot.toList := by
    rw [hb]
    exact List.mem_cons_self
  have hfits := hall b (by
    rw [arm_boots]
    exact List.mem_append_left _ hmem)
  rw [FitsRegion, hsize, length_hugePart] at hfits
  exact Nat.not_succ_le_self _ hfits.2

end RapiBootloader.CopyRegion
