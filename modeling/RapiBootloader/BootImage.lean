import RapiBootloader.DefaultsBlock

namespace RapiBootloader.BootImage

open Lib.Memory Lib.Strings DefaultsBlock

/-- A call of `BootImageWithDefaults`: the memory at `pImage` and the size it hands
to `EnableChainBoot`, the defaults it was given, and what the writer of the block
returned if there was something to stamp. -/
structure Boot where
  image : Mem UInt8
  imageSize : Nat
  defaults : Option CString
  result : Option TPatchResult

/-- The account `BootImageWithDefaults` returns. -/
def Boot.message (b : Boot) : String :=
  match b.result with
  | none => "booting"
  | some .patchOK => "defaults stamped, booting"
  | some .patchTooLong => "defaults too long for this image, booting unpatched"
  | some .patchImageTooSmall | some .patchNoMagic => "image takes no defaults, booting unpatched"

def bootImageWithDefaults (image : Mem UInt8) (imageSize : Nat) (defaults : Option CString) : Boot :=
  match defaults with
  | none => ⟨image, imageSize, defaults, none⟩
  | some string =>
    if string.chars = [] then ⟨image, imageSize, defaults, none⟩
    else
      let patched := patchDefaults image imageSize string
      ⟨patched.2, imageSize, defaults, some patched.1⟩

@[simp] theorem boot_imageSize (image : Mem UInt8) (imageSize : Nat) (defaults : Option CString) :
    (bootImageWithDefaults image imageSize defaults).imageSize = imageSize := by
  cases defaults with
  | none => rfl
  | some string => by_cases h : string.chars = [] <;> simp [bootImageWithDefaults, h]

@[simp] theorem boot_defaults (image : Mem UInt8) (imageSize : Nat) (defaults : Option CString) :
    (bootImageWithDefaults image imageSize defaults).defaults = defaults := by
  cases defaults with
  | none => rfl
  | some string => by_cases h : string.chars = [] <;> simp [bootImageWithDefaults, h]

theorem boot_image (image : Mem UInt8) (imageSize : Nat) (string : CString)
    (h : string.chars ≠ []) :
    (bootImageWithDefaults image imageSize (some string)).image =
      (patchDefaults image imageSize string).2 := by
  simp [bootImageWithDefaults, h]

@[simp] theorem boot_image_none (image : Mem UInt8) (imageSize : Nat) :
    (bootImageWithDefaults image imageSize none).image = image := rfl

theorem boot_result (image : Mem UInt8) (imageSize : Nat) (string : CString)
    (h : string.chars ≠ []) :
    (bootImageWithDefaults image imageSize (some string)).result =
      some (patchDefaults image imageSize string).1 := by
  simp [bootImageWithDefaults, h]

theorem boot_result_empty (image : Mem UInt8) (imageSize : Nat) (string : CString)
    (h : string.chars = []) :
    (bootImageWithDefaults image imageSize (some string)).result = none := by
  simp [bootImageWithDefaults, h]

theorem boot_image_empty (image : Mem UInt8) (imageSize : Nat) (string : CString)
    (h : string.chars = []) :
    (bootImageWithDefaults image imageSize (some string)).image = image := by
  simp [bootImageWithDefaults, h]

theorem boot_unpatched {image : Mem UInt8} {imageSize : Nat} {string : CString}
    (h : ¬ Accepts image imageSize string) :
    (bootImageWithDefaults image imageSize (some string)).image = image ∧
      (bootImageWithDefaults image imageSize (some string)).result ≠ some .patchOK := by
  by_cases hs : string.chars = []
  · rw [boot_image_empty image imageSize string hs, boot_result_empty image imageSize string hs]
    exact ⟨rfl, fun he => by cases he⟩
  · rw [boot_image image imageSize string hs, boot_result image imageSize string hs]
    obtain ⟨hr, hi⟩ := patchDefaults_of_not_accepts h
    exact ⟨hi, fun he => hr (Option.some.inj he)⟩

theorem boot_congr {image other : Mem UInt8} {imageSize : Nat}
    (h : ∀ i, i < imageSize → image i = other i) (defaults : Option CString) (i : Nat)
    (hi : i < imageSize) :
    (bootImageWithDefaults image imageSize defaults).image i =
      (bootImageWithDefaults other imageSize defaults).image i := by
  cases defaults with
  | none => exact h i hi
  | some string =>
    by_cases ha : Accepts image imageSize string
    · by_cases hs : string.chars = []
      · rw [boot_image_empty _ _ _ hs, boot_image_empty _ _ _ hs]
        exact h i hi
      · rw [boot_image _ _ _ hs, boot_image _ _ _ hs, patchDefaults_of_accepts ha,
          patchDefaults_of_accepts ((accepts_congr h string).mp ha)]
        exact write_congr _ _ (write_congr _ _ (write_congr _ _ (h i hi)))
    · rw [(boot_unpatched ha).1, (boot_unpatched (fun ho => ha ((accepts_congr h string).mpr ho))).1]
      exact h i hi

def imageOf (bytes : List UInt8) : Mem UInt8 := fun i => (bytes[i]?).getD 0

theorem eq_imageOf {image : Mem UInt8} {bytes : List UInt8} (h : Holds image 0 bytes) :
    ∀ i, i < bytes.length → image i = imageOf bytes i := by
  intro i hi
  have hb := h i hi
  rw [Nat.zero_add] at hb
  rw [hb, imageOf, List.getElem?_eq_getElem hi, Option.getD_some]

/-- The bytes of the block an image declares that a writer may set. -/
def InBlock (image : Mem UInt8) (i : Nat) : Prop :=
  lengthOffset ≤ i ∧ i < textOffset + capacity image

/-- Whatever defaults it is given, the booted image is the one it was given outside
the block, and is that image byte for byte when it has none. -/
theorem boot_changed (image : Mem UInt8) (imageSize : Nat) (defaults : Option CString) (i : Nat)
    (h : (bootImageWithDefaults image imageSize defaults).image i ≠ image i) :
    defaultsBlockOffset + sizeofDefaultsBlock ≤ imageSize ∧ hasMagic image ∧ InBlock image i := by
  cases defaults with
  | none => exact absurd rfl h
  | some string =>
    by_cases hs : string.chars = []
    · rw [boot_image_empty image imageSize string hs] at h
      exact absurd rfl h
    · rw [boot_image image imageSize string hs] at h
      obtain ⟨ha, hlo, hhi⟩ := patchDefaults_changed _ _ _ _ h
      have hcap := ha.2.2
      exact ⟨ha.1, ha.2.1, hlo, by omega⟩

def StampedOnly (data : List UInt8) (m : Mem UInt8) : Prop :=
  ∃ image, Holds image 0 data ∧ ∀ i, i < data.length → m i ≠ image i →
    defaultsBlockOffset + sizeofDefaultsBlock ≤ data.length ∧ hasMagic image ∧ InBlock image i

theorem boot_stampedOnly {image : Mem UInt8} {data : List UInt8} (h : Holds image 0 data)
    (defaults : Option CString) :
    StampedOnly data (bootImageWithDefaults image data.length defaults).image :=
  ⟨image, h, fun i _ hi => boot_changed image data.length defaults i hi⟩

theorem StampedOnly.congr {data : List UInt8} {m n : Mem UInt8} (h : StampedOnly data m)
    (hn : ∀ i, i < data.length → n i = m i) : StampedOnly data n := by
  obtain ⟨image, hh, hd⟩ := h
  exact ⟨image, hh, fun i hi hne => hd i hi (hn i hi ▸ hne)⟩

end RapiBootloader.BootImage
