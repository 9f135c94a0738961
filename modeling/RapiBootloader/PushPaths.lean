import RapiBootloader.TftpClient
import RapiBootloader.HttpServer

namespace RapiBootloader.PushPaths

open Lib.Memory Lib.Strings DefaultsBlock BootImage ChainBoot Card TftpServer TftpDaemon
open TftpInject TftpClient HttpServer

variable {maxMultipartSize : Nat}

/-- The form of the index page, in whichever order the browser sends its two parts. -/
structure OneForm (parts : List Part) (p q : Part) (image text : List UInt8) : Prop where
  order : parts = [p, q] ∨ parts = [q, p]
  upload : isUpload p.header
  noDefaults : isDefaultsPart p = false
  defaults : isDefaultsPart q = true
  noUpload : ¬ isUpload q.header
  image : p.data = image
  text : q.data = text

def SameBytes (a b : Boot) : Prop :=
  a.imageSize = b.imageSize ∧ ∀ i, i < a.imageSize → a.image i = b.image i

/-- Nothing but this string is stamped. -/
def StampsOnly (text : List UInt8) (b : Boot) : Prop :=
  b.result = some .patchOK → ∃ string ∈ b.defaults, string.chars = text

/-- Both paths arm the same bytes or nothing, and neither stamps another string. -/
def Agree (text : List UInt8) (tftp http : Option Boot) : Prop :=
  Option.Rel SameBytes tftp http ∧ (∀ b ∈ tftp, StampsOnly text b) ∧ ∀ b ∈ http, StampsOnly text b

def clamped (text : List UInt8) : CString := ofBytes (text.take (defaultsBufferBytes - 1))

theorem clamped_chars {text : List UInt8} (h : 0 ∉ text) :
    (clamped text).chars = text.take (defaultsBufferBytes - 1) := by
  have hn : 0 ∉ text.take (defaultsBufferBytes - 1) := fun hm => h (List.mem_of_mem_take hm)
  exact congrArg CString.chars (ofBytes_chars ⟨_, hn⟩)

theorem OneForm.noImage {parts : List Part} {p q : Part} {image text : List UInt8}
    (h : OneForm parts p q image text) : isImagePart q = false := by
  rw [← Bool.not_eq_true, isImagePart_iff]
  exact fun hq => h.noUpload hq.1

theorem OneForm.lastImage {parts : List Part} {p q : Part} {image text : List UInt8}
    (h : OneForm parts p q image text) :
    HttpServer.lastImage parts = if image = [] then none else some p := by
  have hq := h.noImage
  have hp : isImagePart p = decide (image ≠ []) := by
    rw [← h.image]
    have hiff := isImagePart_iff p
    by_cases hd : p.data = []
    · simpa [hd, ← Bool.not_eq_true] using hiff
    · simpa [hd, h.upload] using hiff
  obtain ho | ho := h.order
  all_goals
    rw [ho, HttpServer.lastImage]
    by_cases hd : image = [] <;> simp [hq, hp, hd]

theorem OneForm.formText {parts : List Part} {p q : Part} {image text : List UInt8}
    (h : OneForm parts p q image text) :
    HttpServer.formText parts = text.take (defaultsBufferBytes - 1) := by
  have hq := h.noImage
  have hlast : lastDefaults parts = some q := by
    obtain ho | ho := h.order
    all_goals
      rw [ho, lastDefaults]
      simp [hq, h.defaults, h.noDefaults]
  rw [HttpServer.formText, hlast, Option.map_some, Option.getD_some, h.text]

theorem OneForm.boot {r : Request maxMultipartSize} {p q : Part} {image text : List UInt8}
    (h : OneForm r.form.parts p q image text) (hidx : isIndex r.path = true) (site : Site) :
    ((image = [] ∨ (stageAlloc p.memory image.length).isSome = false) ∧
      (getContent site r).boot = none) ∨
    ((image ≠ [] ∧ (stageAlloc p.memory image.length).isSome = true) ∧ ∃ m, Holds m 0 image ∧
      (getContent site r).boot =
        some (bootImageWithDefaults m image.length (some (clamped text)))) := by
  have hlast := h.lastImage
  rw [getContent_boot, if_pos hidx, formBoot, takeForm_image, defaultsString_takeForm, h.formText,
    stagedImage]
  by_cases hi : image = []
  · rw [hlast, if_pos hi]
    exact Or.inl ⟨Or.inl hi, rfl⟩
  · rw [if_neg hi] at hlast
    rw [hlast, Option.bind_some, h.image]
    cases hs : stageAlloc p.memory image.length with
    | none => exact Or.inl ⟨Or.inr rfl, rfl⟩
    | some m =>
      have hlen := takeForm_length r.stack r.form.parts p hlast (by
        rw [h.image, hs]
        rfl)
      rw [h.image] at hlen
      refine Or.inr ⟨⟨hi, rfl⟩, write m 0 image, holds_write m 0 image, ?_⟩
      rw [Option.map_some, Option.map_some, hlen]
      rfl

/-- The two paths on an image both have staged. -/
theorem staged_agree_iff {m n : Mem UInt8} {image text : List UInt8} (hm : Holds m 0 image)
    (hn : Holds n 0 image) (hnul : 0 ∉ text) :
    Agree text
      (some (bootImageWithDefaults m image.length
        ((if text.length ≤ defaultsBufferBytes - 1 then some text else none).map ofBytes)))
      (some (bootImageWithDefaults n image.length (some (clamped text)))) ↔
    text.length ≤ defaultsBufferBytes - 1 ∨
      ¬ Accepts (imageOf image) image.length (clamped text) := by
  have hmn : ∀ i, i < image.length → m i = n i := fun i hi =>
    (eq_imageOf hm i hi).trans (eq_imageOf hn i hi).symm
  have hchars := clamped_chars hnul
  constructor
  · rintro ⟨-, -, hhttp⟩
    by_contra hno
    obtain ⟨hlong, ha⟩ := not_or.mp hno
    have han := (accepts_congr (eq_imageOf hn) _).mpr (not_not.mp ha)
    have hne : (clamped text).chars ≠ [] := by
      intro he
      rw [hchars, List.take_eq_nil_iff] at he
      obtain he | he := he
      · exact absurd he (by decide)
      · exact hlong (by rw [he]; exact Nat.zero_le _)
    obtain ⟨string, hs, hc⟩ := hhttp _ rfl (by
      rw [boot_result _ _ _ hne, patchDefaults_of_accepts han])
    rw [boot_defaults, Option.mem_def, Option.some.injEq] at hs
    rw [← hs, hchars] at hc
    have hle := List.length_take_le (defaultsBufferBytes - 1) text
    rw [hc] at hle
    exact hlong hle
  · intro h
    by_cases hshort : text.length ≤ defaultsBufferBytes - 1
    · have hwhole : clamped text = ofBytes text := by
        rw [clamped, List.take_of_length_le hshort]
      have hsame : (ofBytes text).chars = text := by
        rw [← hwhole, hchars, List.take_of_length_le hshort]
      rw [if_pos hshort, hwhole, Option.map_some]
      refine ⟨.some ⟨by rw [boot_imageSize, boot_imageSize], fun i hi => ?_⟩, ?_, ?_⟩
      · rw [boot_imageSize] at hi
        exact boot_congr hmn _ i hi
      all_goals
        intro b hb _
        cases hb
        exact ⟨ofBytes text, boot_defaults _ _ _, hsame⟩
    · have ha := h.resolve_left hshort
      rw [← accepts_congr (eq_imageOf hn)] at ha
      obtain ⟨himage, hresult⟩ := boot_unpatched ha
      rw [if_neg hshort, Option.map_none]
      refine ⟨.some ⟨by rw [boot_imageSize, boot_imageSize], fun i hi => ?_⟩, ?_, ?_⟩
      · rw [boot_imageSize] at hi
        rw [himage, boot_image_none]
        exact hmn i hi
      · intro b hb hok
        cases hb
        cases hok
      · intro b hb hok
        cases hb
        exact absurd hok hresult

/-- The string pushed as `inject` and then the image, as a client does that goes on
whatever became of the string. -/
def tftpPush (closes : Bool) (e₁ e₂ : Env) (kernelName : List UInt8)
    (injectBlocks kernelBlocks : List Block) (server : Server) : Option Boot :=
  (transfer closes e₂ kernelName kernelBlocks
    (transfer closes e₁ injectFileName injectBlocks server).2).1

theorem tftpPush_boot (closes : Bool) (e₁ e₂ : Env) {kernelName : List UInt8}
    (injectBlocks kernelBlocks : List Block) {server : Server}
    (hn : kindOf kernelName = some .kernel) (hr : Ready server)
    (hp : server.injectPending = false)
    (hend : trimNewlines (bytesOf injectBlocks) = bytesOf injectBlocks)
    (hfit : (bytesOf kernelBlocks).length ≤ server.maxKernelSize.bytes) :
    ((bytesOf kernelBlocks = [] ∨ canStage e₂ server = false) ∧
      tftpPush closes e₁ e₂ kernelName injectBlocks kernelBlocks server = none) ∨
    ((bytesOf kernelBlocks ≠ [] ∧ canStage e₂ server = true) ∧
      ∃ m, Holds m 0 (bytesOf kernelBlocks) ∧
        tftpPush closes e₁ e₂ kernelName injectBlocks kernelBlocks server =
          some (bootImageWithDefaults m (bytesOf kernelBlocks).length
            ((if (bytesOf injectBlocks).length ≤ defaultsBufferBytes - 1 then
              some (bytesOf injectBlocks) else none).map ofBytes))) := by
  obtain ⟨hready, hsame, harmed⟩ := transfer_inject closes e₁ injectBlocks server hr hp
  rw [hend] at harmed
  have hstage : canStage e₂ (transfer closes e₁ injectFileName injectBlocks server).2 =
      canStage e₂ server := by
    rw [canStage, canStage, hsame.kernelBuffer, hsame.maxKernelSize]
  rw [← hstage]
  exact transfer_kernel closes e₂ kernelName kernelBlocks _ _ hn hready harmed
    (hsame.maxKernelSize ▸ hfit)

theorem trimNewlines_of_last {text : List UInt8}
    (h : ∀ hne : text ≠ [], isNewline (text.getLast hne) = false) : trimNewlines text = text := by
  rw [trimNewlines, List.rdropWhile_eq_self_iff]
  exact fun hne => by rw [h hne]; decide

/-- The form cuts a string that the injection refuses. Beyond that the paths differ
only when one of them finds no memory for the image. -/
theorem push_paths_agree_iff (kernelMaxSize : KernelMaxSize) (site : Site) (closes : Bool) (e₁ e₂ : Env)
    (kernelName : List UInt8) (injectBlocks kernelBlocks : List Block) (server : Server)
    (r : Request (kernelMaxSize.bytes + 2000)) (p q : Part)
    (hn : kindOf kernelName = some .kernel) (hr : Ready server)
    (hmax : server.maxKernelSize = kernelMaxSize)
    (hp : server.injectPending = false) (hnul : 0 ∉ bytesOf injectBlocks)
    (hend : ∀ hne : bytesOf injectBlocks ≠ [],
      isNewline ((bytesOf injectBlocks).getLast hne) = false)
    (hfit : (bytesOf kernelBlocks).length ≤ kernelMaxSize.bytes)
    (hidx : isIndex r.path = true)
    (hf : OneForm r.form.parts p q (bytesOf kernelBlocks) (bytesOf injectBlocks)) :
    Agree (bytesOf injectBlocks)
      (tftpPush closes e₁ e₂ kernelName injectBlocks kernelBlocks server)
      (getContent site r).boot ↔
    bytesOf kernelBlocks = [] ∨
      (canStage e₂ server = (stageAlloc p.memory (bytesOf kernelBlocks).length).isSome ∧
        (canStage e₂ server = true → (bytesOf injectBlocks).length ≤ defaultsBufferBytes - 1 ∨
          ¬ Accepts (imageOf (bytesOf kernelBlocks)) (bytesOf kernelBlocks).length
            (clamped (bytesOf injectBlocks)))) := by
  have htftp := tftpPush_boot closes e₁ e₂ injectBlocks kernelBlocks hn hr hp
    (trimNewlines_of_last hend) (hmax ▸ hfit)
  have hhttp := hf.boot hidx site
  generalize canStage e₂ server = canTftp at htftp ⊢
  generalize (stageAlloc p.memory (bytesOf kernelBlocks).length).isSome = canHttp at hhttp ⊢
  obtain ⟨htn, ht⟩ | ⟨⟨hne, htc⟩, m, hm, ht⟩ := htftp
  · obtain ⟨hhn, hh⟩ | ⟨⟨hne, hhc⟩, n, hn', hh⟩ := hhttp
    · rw [ht, hh]
      have hagree : Agree (bytesOf injectBlocks) none none :=
        ⟨.none, fun b hb => (by cases hb), fun b hb => (by cases hb)⟩
      refine ⟨fun _ => ?_, fun _ => hagree⟩
      obtain hempty | htc := htn
      · exact Or.inl hempty
      · obtain hempty | hhc := hhn
        · exact Or.inl hempty
        · exact Or.inr ⟨htc.trans hhc.symm, fun h => absurd (htc.symm.trans h) (by decide)⟩
    · have htc := htn.resolve_left hne
      rw [ht, hh]
      constructor
      · rintro ⟨hrel, -⟩
        cases hrel
      · rintro (hempty | ⟨hsame, -⟩)
        · exact absurd hempty hne
        · exact absurd (htc.symm.trans (hsame.trans hhc)) (by decide)
  · obtain ⟨hhn, hh⟩ | ⟨⟨-, hhc⟩, n, hn', hh⟩ := hhttp
    · have hhc := hhn.resolve_left hne
      rw [ht, hh]
      constructor
      · rintro ⟨hrel, -⟩
        cases hrel
      · rintro (hempty | ⟨hsame, -⟩)
        · exact absurd hempty hne
        · exact absurd (htc.symm.trans (hsame.trans hhc)) (by decide)
    · rw [ht, hh, staged_agree_iff hm hn' hnul]
      constructor
      · exact fun h => Or.inr ⟨htc.trans hhc.symm, fun _ => h⟩
      · rintro (hempty | ⟨-, h⟩)
        · exact absurd hempty hne
        · exact h htc

def defaultsHeader : CString :=
  ⟨ascii "Content-Disposition: form-data; name=\"defaults\"", by decide⟩

def defaultsPart (text : List UInt8) : Part := ⟨defaultsHeader, text, wideMemory⟩

theorem twoParts_fit {image text : List UInt8} (h : image.length + text.length ≤ smallMax.bytes) :
    bodyLength formBoundary [uploadPart image, defaultsPart text] ≤ smallMax.bytes + 2000 := by
  have hb : strlen formBoundary = 12 := by decide
  have hd : (defaultsPart text).wireLength formBoundary = text.length + 69 := by
    have hh : strlen defaultsHeader = 47 := by decide
    have hp : (defaultsPart text).header = defaultsHeader := rfl
    have ht : (defaultsPart text).data = text := rfl
    rw [Part.wireLength, hp, ht, hb, hh]
    omega
  rw [bodyLength, List.foldr_cons, List.foldr_cons, List.foldr_nil, wireLength_uploadPart, hd, hb]
  omega

def twoParts (image text : List UInt8) (h : image.length + text.length ≤ smallMax.bytes) :
    Request (smallMax.bytes + 2000) :=
  ⟨indexPath, ⟨formBoundary, [uploadPart image, defaultsPart text],
    Or.inr (twoParts_fit h)⟩, fun _ => 0, 4000⟩

theorem twoParts_oneForm (image text : List UInt8) :
    OneForm [uploadPart image, defaultsPart text] (uploadPart image) (defaultsPart text) image
      text where
  order := Or.inl rfl
  upload := isUpload_uploadHeader
  noDefaults := by
    change decide (_ <:+: uploadHeader.chars) = false
    decide +kernel
  defaults := by
    change decide (_ <:+: defaultsHeader.chars) = true
    decide
  noUpload := by
    change ¬ isUpload defaultsHeader
    decide
  image := rfl
  text := rfl

def freshServer : Server := Server.init smallMax 0 (fun _ => 0)

def manyAs : Block := ⟨List.replicate 600 97, by rw [List.length_replicate]; decide⟩

def wideKernel : Block := ⟨wideImage, by rw [length_wideImage]; decide⟩

theorem bytesOf_manyAs : bytesOf [manyAs] = List.replicate 600 97 := List.append_nil _

theorem bytesOf_wideKernel : bytesOf [wideKernel] = wideImage := List.append_nil _

theorem wideKernel_fits : (bytesOf [wideKernel]).length ≤ smallMax.bytes := by
  rw [bytesOf_wideKernel, length_wideImage]
  decide

theorem form_fits : (bytesOf [wideKernel]).length + (bytesOf [textBlock]).length ≤ smallMax.bytes := by
  rw [bytesOf_wideKernel, length_wideImage]
  decide

/-- A string that the image takes. -/
theorem push_paths_agree_wide :
    Accepts (imageOf wideImage) wideImage.length (clamped (ascii "-v 1")) ∧
      Agree (bytesOf [textBlock])
        (tftpPush true fineEnv fineEnv (ascii "kernel.img") [textBlock] [wideKernel] freshServer)
        (getContent bareSite (twoParts _ _ form_fits)).boot := by
  have hwide : Holds (write (fun _ => 0) 0 wideImage) 0 wideImage := holds_write _ _ _
  refine ⟨(accepts_congr (eq_imageOf hwide) _).mp (accepts_wideImage hwide _ (by decide)), ?_⟩
  apply (push_paths_agree_iff smallMax bareSite true fineEnv fineEnv (ascii "kernel.img")
    [textBlock] [wideKernel] freshServer (twoParts _ _ form_fits) _ _ (by decide) ⟨rfl, rfl⟩ rfl rfl
    (by decide) (by decide) wideKernel_fits isIndex_indexPath (twoParts_oneForm _ _)).mpr
  refine Or.inr ⟨?_, fun _ => Or.inl (by decide)⟩
  rw [bytesOf_wideKernel, length_wideImage]
  decide

/-- The injection refuses 600 characters, the form stamps 511 of them. -/
theorem long_string_splits_paths :
    ¬ ∀ (kernelMaxSize : KernelMaxSize) (site : Site) (closes : Bool) (e₁ e₂ : Env)
      (kernelName : List UInt8) (injectBlocks kernelBlocks : List Block) (server : Server)
      (r : Request (kernelMaxSize.bytes + 2000)) (p q : Part),
      kindOf kernelName = some .kernel → Ready server → server.maxKernelSize = kernelMaxSize →
      server.injectPending = false → 0 ∉ bytesOf injectBlocks →
      (∀ hne : bytesOf injectBlocks ≠ [],
        isNewline ((bytesOf injectBlocks).getLast hne) = false) →
      (bytesOf kernelBlocks).length ≤ kernelMaxSize.bytes →
      isIndex r.path = true →
      OneForm r.form.parts p q (bytesOf kernelBlocks) (bytesOf injectBlocks) →
      Agree (bytesOf injectBlocks)
        (tftpPush closes e₁ e₂ kernelName injectBlocks kernelBlocks server)
        (getContent site r).boot := by
  intro h
  have hnul : 0 ∉ bytesOf [manyAs] := by
    rw [bytesOf_manyAs]
    exact fun hm => absurd (List.eq_of_mem_replicate hm) (by decide)
  have hend : ∀ hne : bytesOf [manyAs] ≠ [],
      isNewline ((bytesOf [manyAs]).getLast hne) = false := by
    rw [bytesOf_manyAs]
    intro hne
    rw [List.eq_of_mem_replicate (List.getLast_mem hne)]
    decide
  have hform : (bytesOf [wideKernel]).length + (bytesOf [manyAs]).length ≤ smallMax.bytes := by
    rw [bytesOf_wideKernel, length_wideImage, bytesOf_manyAs, List.length_replicate]
    decide
  have hname : kindOf (ascii "kernel.img") = some .kernel := by decide
  have hready : Ready freshServer := ⟨rfl, rfl⟩
  have hparts := twoParts_oneForm (bytesOf [wideKernel]) (bytesOf [manyAs])
  have hall := h smallMax bareSite true fineEnv fineEnv (ascii "kernel.img") [manyAs] [wideKernel]
    freshServer (twoParts _ _ hform) _ _ hname hready rfl rfl hnul hend wideKernel_fits isIndex_indexPath hparts
  have hne : bytesOf [wideKernel] ≠ [] := by
    intro he
    have hlen := congrArg List.length he
    rw [bytesOf_wideKernel, length_wideImage] at hlen
    cases hlen
  obtain ⟨hno, -⟩ | ⟨-, m, hm, ht⟩ := tftpPush_boot true fineEnv fineEnv [manyAs] [wideKernel]
    hname hready rfl (trimNewlines_of_last hend) wideKernel_fits
  · exact absurd (hno.resolve_left hne) (by decide)
  · obtain ⟨hno, -⟩ | ⟨-, n, hn, hh⟩ := OneForm.boot (r := twoParts _ _ hform) hparts
      isIndex_indexPath bareSite
    · have hroom := hno.resolve_left hne
      rw [bytesOf_wideKernel, length_wideImage] at hroom
      exact absurd hroom (by decide)
    · rw [ht, hh, staged_agree_iff hm hn hnul] at hall
      obtain hshort | hrefused := hall
      · rw [bytesOf_manyAs, List.length_replicate] at hshort
        exact absurd hshort (by decide)
      · refine hrefused ((accepts_congr (eq_imageOf hn) _).mp ?_)
        rw [bytesOf_wideKernel] at hn ⊢
        apply accepts_wideImage hn _
        have hle := List.length_take_le (defaultsBufferBytes - 1) (bytesOf [manyAs])
        have hmax : defaultsBufferBytes = 512 := rfl
        rw [strlen, clamped_chars hnul]
        omega

end RapiBootloader.PushPaths
