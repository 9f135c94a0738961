import RapiBootloader.Lib.Memory
import RapiBootloader.Lib.Strings

namespace RapiBootloader.DefaultsBlock

open Lib.Memory Lib.Strings

def defaultsBlockOffset : Nat := 0x800

def defaultsMagic : List UInt8 := ascii "PM8D"

def defaultsBufferBytes : Nat := 512

/-- The packed `TDefaultsBlock`: magic, `Capacity`, `Length` and the text buffer. -/
def sizeofDefaultsBlock : Nat := 4 + 2 + 2 + defaultsBufferBytes

def capacityOffset : Nat := defaultsBlockOffset + 4
def lengthOffset : Nat := defaultsBlockOffset + 6
def textOffset : Nat := defaultsBlockOffset + 8

inductive TPatchResult
  | patchOK
  | patchImageTooSmall
  | patchNoMagic
  | patchTooLong
deriving DecidableEq, Repr

def u16 (m : Mem UInt8) (off : Nat) : Nat := (m off).toNat + 256 * (m (off + 1)).toNat

def u16Bytes (n : Nat) : List UInt8 := [UInt8.ofNat n, UInt8.ofNat (n / 256)]

def capacity (image : Mem UInt8) : Nat := u16 image capacityOffset

def hasMagic (image : Mem UInt8) : Bool := read image defaultsBlockOffset 4 = defaultsMagic

/-- The three stores behind the checks: the text, its NUL and the length. -/
def stamp (image : Mem UInt8) (string : CString) : Mem UInt8 :=
  write (write (write image textOffset string.chars) (textOffset + strlen string) [0])
    lengthOffset (u16Bytes (strlen string))

/-- The writer of the block. `image` is the memory from `pImage` on, of which the
first `imageSize` bytes are the image. -/
def patchDefaults (image : Mem UInt8) (imageSize : Nat) (string : CString) :
    TPatchResult × Mem UInt8 :=
  if imageSize < defaultsBlockOffset + sizeofDefaultsBlock then (.patchImageTooSmall, image)
  else if !hasMagic image then (.patchNoMagic, image)
  else if strlen string + 1 > capacity image then (.patchTooLong, image)
  else (.patchOK, stamp image string)

/-- What the three checks of `patchDefaults` ask for together. -/
def Accepts (image : Mem UInt8) (imageSize : Nat) (string : CString) : Prop :=
  defaultsBlockOffset + sizeofDefaultsBlock ≤ imageSize ∧ hasMagic image ∧
    strlen string + 1 ≤ capacity image

instance (image : Mem UInt8) (imageSize : Nat) (string : CString) :
    Decidable (Accepts image imageSize string) := inferInstanceAs (Decidable (_ ∧ _ ∧ _))

theorem patchDefaults_of_accepts {image : Mem UInt8} {imageSize : Nat} {string : CString}
    (h : Accepts image imageSize string) :
    patchDefaults image imageSize string = (.patchOK, stamp image string) := by
  obtain ⟨hs, hm, hc⟩ := h
  simp only [patchDefaults]
  rw [if_neg (by omega), if_neg (by simp [hm]), if_neg (by omega)]

theorem patchDefaults_of_not_accepts {image : Mem UInt8} {imageSize : Nat} {string : CString}
    (h : ¬ Accepts image imageSize string) :
    (patchDefaults image imageSize string).1 ≠ .patchOK ∧
      (patchDefaults image imageSize string).2 = image := by
  simp only [patchDefaults]
  split
  · simp
  · split
    · simp
    · split
      · simp
      · rename_i hs hm hc
        exact absurd ⟨by omega, by simpa using hm, by omega⟩ h

theorem patchDefaults_ok_iff (image : Mem UInt8) (imageSize : Nat) (string : CString) :
    (patchDefaults image imageSize string).1 = .patchOK ↔ Accepts image imageSize string := by
  by_cases h : Accepts image imageSize string
  · simp [patchDefaults_of_accepts h, h]
  · simp [(patchDefaults_of_not_accepts h).1, h]

/-- A stamp touches the length field, the text and its NUL. -/
theorem stamp_changed (image : Mem UInt8) (string : CString) (i : Nat)
    (h : stamp image string i ≠ image i) :
    lengthOffset ≤ i ∧ i < textOffset + strlen string + 1 := by
  simp only [stamp] at h
  by_cases hl : write (write image textOffset string.chars) (textOffset + strlen string) [0] i = image i
  · rw [← hl] at h
    have := write_changed _ _ _ _ h
    simp only [u16Bytes, List.length_cons, List.length_nil, lengthOffset, textOffset] at this ⊢
    omega
  · by_cases hn : write image textOffset string.chars i = image i
    · rw [← hn] at hl
      have := write_changed _ _ _ _ hl
      simp only [List.length_cons, List.length_nil, lengthOffset, textOffset] at this ⊢
      omega
    · have := write_changed _ _ _ _ hn
      simp only [strlen, lengthOffset, textOffset] at this ⊢
      omega

theorem u16_u16Bytes (m : Mem UInt8) (off n : Nat) (h : n < 0x10000) :
    u16 (write m off (u16Bytes n)) off = n := by
  have hlo : write m off (u16Bytes n) off = UInt8.ofNat n := write_inside m off _ 0 (by simp [u16Bytes])
  have hhi : write m off (u16Bytes n) (off + 1) = UInt8.ofNat (n / 256) :=
    write_inside m off _ 1 (by simp [u16Bytes])
  rw [u16, hlo, hhi, UInt8.toNat_ofNat', UInt8.toNat_ofNat']
  omega

theorem u16_lt (m : Mem UInt8) (off : Nat) : u16 m off < 0x10000 := by
  have hlo := (m off).toNat_lt
  have hhi := (m (off + 1)).toNat_lt
  rw [u16]
  omega

theorem stamp_holds (image : Mem UInt8) (string : CString) :
    Holds (stamp image string) textOffset (string.chars ++ [0]) := by
  refine ((holds_write image textOffset string.chars).append [0]).write_outside _ _ (Or.inr ?_)
  exact Nat.le_refl _

theorem u16_stamp (image : Mem UInt8) (string : CString) (h : strlen string < 0x10000) :
    u16 (stamp image string) lengthOffset = strlen string := u16_u16Bytes _ _ _ h

theorem accepts_congr {image other : Mem UInt8} {imageSize : Nat}
    (h : ∀ i, i < imageSize → image i = other i) (string : CString) :
    Accepts image imageSize string ↔ Accepts other imageSize string := by
  simp only [Accepts]
  constructor
  all_goals
    rintro ⟨hs, hm, hc⟩
    have hsize : 0xA08 ≤ imageSize := hs
    have hread : read image defaultsBlockOffset 4 = read other defaultsBlockOffset 4 := by
      apply List.map_congr_left
      intro i hi
      exact h _ (by simp only [List.mem_range, defaultsBlockOffset] at hi ⊢; omega)
    have hcap : capacity image = capacity other := by
      rw [capacity, capacity, u16, u16, h _ (by simp only [capacityOffset, defaultsBlockOffset]; omega),
        h _ (by simp only [capacityOffset, defaultsBlockOffset]; omega)]
    simp only [hasMagic, hread, hcap] at hm hc ⊢
    exact ⟨hs, hm, hc⟩

theorem patchDefaults_changed (image : Mem UInt8) (imageSize : Nat) (string : CString) (i : Nat)
    (h : (patchDefaults image imageSize string).2 i ≠ image i) :
    Accepts image imageSize string ∧ lengthOffset ≤ i ∧ i < textOffset + strlen string + 1 := by
  by_cases ha : Accepts image imageSize string
  · rw [patchDefaults_of_accepts ha] at h
    exact ⟨ha, stamp_changed image string i h⟩
  · exact absurd (congrFun (patchDefaults_of_not_accepts ha).2 i) h

/-- The writer stays inside the image it was given: it changes bytes of the block
below `imageSize` only, an accepted string ends inside the image, and a refusal
changes nothing. -/
def StaysInside (image : Mem UInt8) (imageSize : Nat) (string : CString) : Prop :=
  (∀ i, (patchDefaults image imageSize string).2 i ≠ image i →
    lengthOffset ≤ i ∧ i < textOffset + capacity image ∧ i < imageSize) ∧
  ((patchDefaults image imageSize string).1 = .patchOK →
    textOffset + strlen string + 1 ≤ imageSize) ∧
  ((patchDefaults image imageSize string).1 ≠ .patchOK →
    (patchDefaults image imageSize string).2 = image)

/-- The size check knows the 512 bytes of the first revision, the length check the
capacity the image declares. Between the two only the string itself can tell
whether the text ends inside the image. -/
theorem patchDefaults_inside_iff (image : Mem UInt8) (imageSize : Nat) (string : CString) :
    StaysInside image imageSize string ↔
      (Accepts image imageSize string → textOffset + strlen string + 1 ≤ imageSize) := by
  constructor
  · rintro ⟨-, hok, -⟩ ha
    exact hok ((patchDefaults_ok_iff _ _ _).mpr ha)
  · intro h
    refine ⟨fun i hi => ?_, fun hok => h ((patchDefaults_ok_iff _ _ _).mp hok), fun hne => ?_⟩
    · obtain ⟨ha, hlo, hhi⟩ := patchDefaults_changed _ _ _ _ hi
      have hend := h ha
      have hcap := ha.2.2
      exact ⟨hlo, by omega, by omega⟩
    · exact (patchDefaults_of_not_accepts (fun ha => hne ((patchDefaults_ok_iff _ _ _).mpr ha))).2

theorem block_of_holds {image : Mem UInt8} {n : Nat} (hn : n < 0x10000)
    (h : Holds image defaultsBlockOffset (defaultsMagic ++ u16Bytes n)) :
    hasMagic image ∧ capacity image = n := by
  obtain ⟨hm, hc⟩ := (holds_append _ _ _ _).mp h
  have hlen : defaultsMagic.length = 4 := rfl
  have hread := hm.read_eq
  rw [hlen] at hread
  have hlo : image capacityOffset = UInt8.ofNat n := hc 0 (by simp [u16Bytes])
  have hhi : image (capacityOffset + 1) = UInt8.ofNat (n / 256) := hc 1 (by simp [u16Bytes])
  refine ⟨by rw [hasMagic, hread, decide_eq_true rfl], ?_⟩
  rw [capacity, u16, hlo, hhi, UInt8.toNat_ofNat', UInt8.toNat_ofNat']
  omega

def wideImage : List UInt8 :=
  List.replicate defaultsBlockOffset 0 ++ (defaultsMagic ++ u16Bytes 1024) ++
    List.replicate 1026 0

theorem length_wideImage : wideImage.length = 0xC08 := by
  simp only [wideImage, List.length_append, List.length_replicate]
  rfl

theorem wideImage_block {image : Mem UInt8} (h : Holds image 0 wideImage) :
    hasMagic image ∧ capacity image = 1024 := by
  have hp := ((holds_append _ _ _ _).mp ((holds_append _ _ _ _).mp h).1).2
  rw [List.length_replicate, Nat.zero_add] at hp
  exact block_of_holds (by decide) hp

theorem accepts_wideImage {image : Mem UInt8} (h : Holds image 0 wideImage) (string : CString)
    (hs : strlen string + 1 ≤ 1024) : Accepts image wideImage.length string := by
  obtain ⟨hm, hc⟩ := wideImage_block h
  refine ⟨?_, hm, ?_⟩
  · rw [length_wideImage]
    decide
  · rwa [hc]

def wideBlock : Mem UInt8 :=
  write (fun _ => 0) defaultsBlockOffset (defaultsMagic ++ u16Bytes 1024)

theorem capacity_wideBlock : capacity wideBlock = 1024 :=
  (block_of_holds (by decide) (holds_write _ _ _)).2

def longDefaults : CString := filled 600 97 (by decide)

theorem patchDefaults_overruns : ¬ StaysInside wideBlock 0xA08 longDefaults := by
  intro h
  have ha : Accepts wideBlock 0xA08 longDefaults := by
    refine ⟨by decide, by decide, ?_⟩
    rw [longDefaults, strlen_filled, capacity_wideBlock]
    decide
  have hend := h.2.1 ((patchDefaults_ok_iff _ _ _).mpr ha)
  rw [longDefaults, strlen_filled] at hend
  exact absurd hend (by decide)

end RapiBootloader.DefaultsBlock
