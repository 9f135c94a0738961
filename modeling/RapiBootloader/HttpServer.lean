import RapiBootloader.BootImage
import RapiBootloader.ChainBoot
import Mathlib.Data.List.Infix

namespace RapiBootloader.HttpServer

open Lib.Memory Lib.Strings DefaultsBlock BootImage ChainBoot

/-- A part as `GetMultipartFormPart` hands it out, and what the memory system
answers while the loop is at it. -/
structure Part where
  header : CString
  data : List UInt8
  memory : MemorySystem

/-- The bytes of a part on the wire: its delimiter line, the header with its blank
line, the data and the line end behind it. -/
def Part.wireLength (boundary : CString) (p : Part) : Nat :=
  (2 + strlen boundary + 2) + (strlen p.header + 4) + (p.data.length + 2)

def bodyLength (boundary : CString) (parts : List Part) : Nat :=
  parts.foldr (fun p n => p.wireLength boundary + n) (2 + strlen boundary + 4)

structure Form (maxMultipartSize : Nat) where
  boundary : CString
  parts : List Part
  fits : parts = [] ∨ bodyLength boundary parts ≤ maxMultipartSize

/-- A request with the buffer it is answered in. `stack` is what the `Defaults`
array holds before the loop. -/
structure Request (maxMultipartSize : Nat) where
  path : CString
  form : Form maxMultipartSize
  stack : Mem UInt8
  bufferLength : Nat

structure Site where
  index : String → List UInt8
  style : List UInt8
  favicon : List UInt8

inductive THTTPStatus
  | httpOK
  | httpNotFound
  | httpInternalServerError
deriving DecidableEq, Repr

structure Staging where
  kernelImage : Option (Mem UInt8)
  kernelLength : Nat
  defaults : Mem UInt8
  haveForm : Bool

def isImagePart (p : Part) : Bool :=
  ascii "name=\"kernelimg\"" <:+: p.header.chars ∧ ascii "filename=\"kernel" <:+: p.header.chars ∧
    ascii ".img\"" <:+: p.header.chars ∧ p.data.length > 0

def isDefaultsPart (p : Part) : Bool := ascii "name=\"defaults\"" <:+: p.header.chars

def Staging.init (stack : Mem UInt8) : Staging := ⟨none, 0, write stack 0 [0], false⟩

def takePart (s : Staging) (p : Part) : Staging :=
  if isImagePart p then
    match stageAlloc p.memory p.data.length with
    | none => { s with kernelImage := none, haveForm := true }
    | some m =>
      { s with
        kernelImage := some (write m 0 p.data)
        kernelLength := p.data.length
        haveForm := true }
  else if isDefaultsPart p then
    let n := if p.data.length < defaultsBufferBytes - 1 then p.data.length
      else defaultsBufferBytes - 1
    { s with
      defaults := write (write s.defaults 0 (p.data.take n)) n [0]
      haveForm := true }
  else { s with haveForm := true }

def takeForm (stack : Mem UInt8) (parts : List Part) : Staging :=
  parts.foldl takePart (Staging.init stack)

def defaultsString (s : Staging) : CString := ofBytes (read s.defaults 0 defaultsBufferBytes)

def formBoot (s : Staging) : Option Boot :=
  s.kernelImage.map (fun m => bootImageWithDefaults m s.kernelLength (some (defaultsString s)))

def formMessage (s : Staging) : String :=
  if !s.haveForm then
    "Select the kernel image file to boot, optionally enter ABI parameters, and press the boot button!"
  else
    match formBoot s with
    | none => "Invalid request, or out of memory staging the image"
    | some boot => boot.message

structure Page where
  content : List UInt8
  contentType : String
  boot : Option Boot
  reboot : Bool

def isIndex (path : CString) : Bool := path.chars = ascii "/" ∨ path.chars = ascii "/index.html"

variable {maxMultipartSize : Nat}

def page (site : Site) (r : Request maxMultipartSize) : Option Page :=
  if isIndex r.path then
    let s := takeForm r.stack r.form.parts
    some ⟨site.index (formMessage s), "text/html; charset=iso-8859-1", formBoot s, false⟩
  else if r.path.chars = ascii "/style.css" then some ⟨site.style, "text/css", none, false⟩
  else if r.path.chars = ascii "/reboot" then some ⟨ascii "Rebooting.", "text/plain", none, true⟩
  else if r.path.chars = ascii "/favicon.ico" then some ⟨site.favicon, "image/x-icon", none, false⟩
  else none

structure Response where
  status : THTTPStatus
  content : List UInt8
  contentType : Option String
  boot : Option Boot
  reboot : Bool

/-- The size of the buffer is looked at when the page is made and the image armed. -/
def getContent (site : Site) (r : Request maxMultipartSize) : Response :=
  match page site r with
  | none => ⟨.httpNotFound, [], none, none, false⟩
  | some p =>
    if r.bufferLength < p.content.length then
      ⟨.httpInternalServerError, [], some p.contentType, p.boot, p.reboot⟩
    else ⟨.httpOK, p.content, some p.contentType, p.boot, p.reboot⟩

/-- The part the loop is left with: the last one that uploads a kernel. -/
def lastImage (parts : List Part) : Option Part := parts.reverse.find? isImagePart

def lastDefaults (parts : List Part) : Option Part :=
  parts.reverse.find? (fun p => !isImagePart p && isDefaultsPart p)

/-- The image behind the loop. A failed allocation drops an earlier image. -/
def stagedImage (parts : List Part) : Option (Mem UInt8) :=
  (lastImage parts).bind
    (fun p => (stageAlloc p.memory p.data.length).map (fun m => write m 0 p.data))

def formText (parts : List Part) : List UInt8 :=
  (((lastDefaults parts).map Part.data).getD []).take (defaultsBufferBytes - 1)

theorem takeForm_concat (stack : Mem UInt8) (parts : List Part) (p : Part) :
    takeForm stack (parts ++ [p]) = takePart (takeForm stack parts) p := by
  simp [takeForm]

theorem lastImage_concat (parts : List Part) (p : Part) :
    lastImage (parts ++ [p]) = if isImagePart p then some p else lastImage parts := by
  rw [lastImage, List.reverse_concat, List.find?_cons]
  cases isImagePart p <;> rfl

theorem lastDefaults_concat (parts : List Part) (p : Part) :
    lastDefaults (parts ++ [p]) =
      if !isImagePart p && isDefaultsPart p then some p else lastDefaults parts := by
  rw [lastDefaults, List.reverse_concat, List.find?_cons]
  cases !isImagePart p && isDefaultsPart p <;> rfl

theorem takeForm_image (stack : Mem UInt8) (parts : List Part) :
    (takeForm stack parts).kernelImage = stagedImage parts := by
  induction parts using List.reverseRecOn with
  | nil => rfl
  | append_singleton parts p ih =>
    rw [takeForm_concat, stagedImage, lastImage_concat, takePart]
    by_cases hi : isImagePart p = true
    · rw [if_pos hi, if_pos hi, Option.bind_some]
      cases stageAlloc p.memory p.data.length <;> rfl
    · rw [if_neg hi, if_neg hi]
      rw [stagedImage] at ih
      split <;> exact ih

theorem takeForm_length (stack : Mem UInt8) (parts : List Part) (p : Part)
    (hp : lastImage parts = some p) (hs : (stageAlloc p.memory p.data.length).isSome) :
    (takeForm stack parts).kernelLength = p.data.length := by
  induction parts using List.reverseRecOn with
  | nil => cases hp
  | append_singleton parts q ih =>
    rw [lastImage_concat] at hp
    rw [takeForm_concat, takePart]
    by_cases hi : isImagePart q = true
    · rw [if_pos hi, Option.some.injEq] at hp
      subst hp
      rw [if_pos hi]
      obtain ⟨m, hm⟩ := Option.isSome_iff_exists.mp hs
      rw [hm]
    · rw [if_neg hi] at hp
      rw [if_neg hi]
      split <;> exact ih hp

/-- The array always holds the text of the last defaults part, cut to its length. -/
theorem takeForm_defaults (stack : Mem UInt8) (parts : List Part) :
    Holds (takeForm stack parts).defaults 0 (formText parts ++ [0]) := by
  induction parts using List.reverseRecOn with
  | nil => exact holds_write stack 0 [0]
  | append_singleton parts p ih =>
    rw [takeForm_concat, formText, lastDefaults_concat, takePart]
    by_cases hi : isImagePart p = true
    · have hlast : (!isImagePart p && isDefaultsPart p) = false := by rw [hi]; rfl
      rw [if_pos hi, hlast]
      cases stageAlloc p.memory p.data.length <;> exact ih
    · rw [if_neg hi]
      by_cases hd : isDefaultsPart p = true
      · have hlast : (!isImagePart p && isDefaultsPart p) = true := by simp [hi, hd]
        have hn : (if p.data.length < defaultsBufferBytes - 1 then p.data.length
            else defaultsBufferBytes - 1) = (p.data.take (defaultsBufferBytes - 1)).length := by
          rw [List.length_take]
          split <;> omega
        have ht : p.data.take (p.data.take (defaultsBufferBytes - 1)).length =
            p.data.take (defaultsBufferBytes - 1) := by
          rw [List.length_take]
          exact (List.take_eq_take_min (l := p.data)).symm
        have hw := (holds_write (takeForm stack parts).defaults 0
          (p.data.take (defaultsBufferBytes - 1))).append [0]
        rw [Nat.zero_add] at hw
        rw [if_pos hd, hlast, hn]
        dsimp only
        rw [ht]
        exact hw
      · have hlast : (!isImagePart p && isDefaultsPart p) = false := by simp [hd]
        rw [if_neg hd, hlast]
        exact ih

theorem defaultsString_takeForm (stack : Mem UInt8) (parts : List Part) :
    defaultsString (takeForm stack parts) = ofBytes (formText parts) := by
  have hl : (formText parts ++ [0]).length ≤ defaultsBufferBytes := by
    rw [List.length_append, formText]
    exact Nat.add_le_add_right (List.length_take_le _ _) 1
  exact ofBytes_of_prefix (holds_take (takeForm_defaults stack parts) hl)

def isUpload (header : CString) : Prop :=
  ascii "name=\"kernelimg\"" <:+: header.chars ∧ ascii "filename=\"kernel" <:+: header.chars ∧
    ascii ".img\"" <:+: header.chars

instance (header : CString) : Decidable (isUpload header) :=
  inferInstanceAs (Decidable (_ ∧ _ ∧ _))

theorem isImagePart_iff (p : Part) :
    isImagePart p = true ↔ isUpload p.header ∧ p.data ≠ [] := by
  rw [isImagePart, decide_eq_true_eq, isUpload, gt_iff_lt, List.length_pos_iff]
  exact ⟨fun ⟨a, b, c, d⟩ => ⟨⟨a, b, c⟩, d⟩, fun ⟨⟨a, b, c⟩, d⟩ => ⟨a, b, c, d⟩⟩

def indexPath : CString := ⟨ascii "/", by decide⟩

theorem isIndex_indexPath : isIndex indexPath = true := by decide

def bareSite : Site := ⟨ascii, ascii "p", [0]⟩

def uploadHeader : CString :=
  ⟨ascii "Content-Disposition: form-data; name=\"kernelimg\"; filename=\"kernel8.img\"", by decide⟩

theorem isUpload_uploadHeader : isUpload uploadHeader := by decide +kernel

def wideMemory : MemorySystem := ⟨0x100000000, fun _ => 0x100000000, fun _ _ => some (fun _ => 0)⟩

def uploadPart (image : List UInt8) : Part := ⟨uploadHeader, image, wideMemory⟩

def formBoundary : CString := ⟨ascii "----boundary", by decide⟩

theorem wireLength_uploadPart (image : List UInt8) :
    (uploadPart image).wireLength formBoundary = image.length + 94 := by
  have hb : strlen formBoundary = 12 := by decide
  have hh : strlen uploadHeader = 72 := by decide
  have hp : (uploadPart image).header = uploadHeader := rfl
  have hd : (uploadPart image).data = image := rfl
  rw [Part.wireLength, hp, hd, hb, hh]
  omega

theorem getContent_boot (site : Site) (r : Request maxMultipartSize) :
    (getContent site r).boot =
      if isIndex r.path then formBoot (takeForm r.stack r.form.parts) else none := by
  have hp : (getContent site r).boot = (page site r).bind Page.boot := by
    rw [getContent]
    cases page site r with
    | none => rfl
    | some p =>
      dsimp only
      split <;> rfl
  rw [hp, page]
  split
  · rfl
  · repeat' split
    all_goals rfl

end RapiBootloader.HttpServer
