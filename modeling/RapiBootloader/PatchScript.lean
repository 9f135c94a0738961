import RapiBootloader.BootImage
import RapiBootloader.Lib.Slices

namespace RapiBootloader.PatchScript

open Lib.Memory Lib.Strings Lib.Slices DefaultsBlock BootImage

/-- What ends the README's `patch.py` early: its two messages, and the exceptions of
`encode` and `struct`. -/
inductive PatchError
  | noMagic
  | tooLong (encoded capacity : Nat)
  | unicodeEncodeError
  | structError
deriving DecidableEq, Repr

def encodeAscii (text : List Char) : Option (List UInt8) :=
  text.mapM (fun c => if c.toNat < 128 then some (UInt8.ofNat c.toNat) else none)

/-- The `unpack_from` of a little-endian `u16`. -/
def unpackU16 (data : List UInt8) (off : Nat) : Option Nat :=
  if off + 2 ≤ data.length then some (u16 (imageOf data) off) else none

def packU16 (data : List UInt8) (off n : Nat) : Option (List UInt8) :=
  if off + 2 ≤ data.length ∧ n < 0x10000 then some (splice data off (u16Bytes n)) else none

/-- The worked example's `patch`: why it gave up, if it did, and the file it leaves. -/
def patch (file : List UInt8) (text : List Char) : Option PatchError × List UInt8 :=
  if slice file defaultsBlockOffset (defaultsBlockOffset + 4) ≠ defaultsMagic then
    (some .noMagic, file)
  else
    match unpackU16 file capacityOffset with
    | none => (some .structError, file)
    | some cap =>
      match encodeAscii text with
      | none => (some .unicodeEncodeError, file)
      | some chars =>
        let encoded := chars ++ [0]
        if encoded.length > cap then (some (.tooLong encoded.length cap), file)
        else
          match packU16 (splice file textOffset encoded) lengthOffset (encoded.length - 1) with
          | none => (some .structError, file)
          | some data =>
            (none, splice file defaultsBlockOffset (slice data defaultsBlockOffset (textOffset + cap)))

def patchImage (data : List UInt8) (string : CString) : TPatchResult × List UInt8 :=
  let patched := patchDefaults (imageOf data) data.length string
  (patched.1, read patched.2 0 data.length)

def textOf (string : CString) : List Char := string.chars.map (fun c => Char.ofNat c.toNat)

def Fits (data : List UInt8) (string : CString) : Prop :=
  hasMagic (imageOf data) ∧ strlen string + 1 ≤ capacity (imageOf data)

instance (data : List UInt8) (string : CString) : Decidable (Fits data string) :=
  inferInstanceAs (Decidable (_ ∧ _))

/-- The two writers take the same strings, leave the image alone when they take none and
make the same image of it otherwise. -/
structure Agree (data : List UInt8) (string : CString) : Prop where
  codeTakes : (patchImage data string).1 = .patchOK ↔ Fits data string
  scriptTakes : (patch data (textOf string)).1 = none ↔ Fits data string
  codeRefuses : (patchImage data string).1 ≠ .patchOK → (patchImage data string).2 = data
  scriptRefuses : (patch data (textOf string)).1 ≠ none → (patch data (textOf string)).2 = data
  same : (patchImage data string).1 = .patchOK → (patch data (textOf string)).1 = none →
    (patchImage data string).2 = (patch data (textOf string)).2

def stamped (data : List UInt8) (string : CString) : List UInt8 :=
  splice (splice data textOffset (string.chars ++ [0])) lengthOffset (u16Bytes (strlen string))

theorem holds_imageOf (data : List UInt8) : Holds (imageOf data) 0 data := by
  intro i hi
  simp [imageOf, hi]

theorem toNat_charOfNat {n : Nat} (h : n < 128) : (Char.ofNat n).toNat = n := by
  have hvalid : n.isValidChar := Or.inl (by omega)
  rw [Char.ofNat, dif_pos hvalid]
  rfl

theorem encodeAscii_textOf {string : CString} (h : ∀ c ∈ string.chars, c < 128) :
    encodeAscii (textOf string) = some string.chars := by
  obtain ⟨chars, hnul⟩ := string
  simp only [encodeAscii, textOf, List.mapM_map] at h ⊢
  clear hnul
  induction chars with
  | nil => rfl
  | cons c chars ih =>
    have hc : c.toNat < 128 := h c List.mem_cons_self
    have hrest := ih (fun d hd => h d (List.mem_cons_of_mem c hd))
    simp [List.mapM_cons, hrest, toNat_charOfNat hc, hc]

variable {data : List UInt8} {string : CString}

theorem length_stamped (hroom : textOffset + (string.chars ++ [0]).length ≤ data.length) :
    (stamped data string).length = data.length := by
  rw [stamped, length_splice, length_splice hroom]
  rw [length_splice hroom]
  simp only [textOffset, lengthOffset, u16Bytes, List.length_cons, List.length_nil] at hroom ⊢
  omega

theorem getElem?_stamped (hroom : textOffset + (string.chars ++ [0]).length ≤ data.length) {i : Nat}
    (hi : i < lengthOffset ∨ textOffset + (string.chars ++ [0]).length ≤ i) :
    (stamped data string)[i]? = data[i]? := by
  have hlength : lengthOffset + (u16Bytes (strlen string)).length = textOffset := rfl
  rw [stamped, getElem?_splice, if_neg, getElem?_splice hroom, if_neg]
  · omega
  · omega
  · rw [length_splice hroom]
    omega

theorem patch_eq (hascii : ∀ c ∈ string.chars, c < 128)
    (hwhole : textOffset + capacity (imageOf data) ≤ data.length) :
    patch data (textOf string) =
      if ¬ hasMagic (imageOf data) then (some .noMagic, data)
      else if strlen string + 1 > capacity (imageOf data) then
        (some (.tooLong (strlen string + 1) (capacity (imageOf data))), data)
      else (none, stamped data string) := by
  have hmagic : slice data defaultsBlockOffset (defaultsBlockOffset + 4) =
      read (imageOf data) defaultsBlockOffset 4 := by
    apply slice_eq_read 0
    simp only [textOffset] at hwhole
    omega
  have hunpack : unpackU16 data capacityOffset = some (capacity (imageOf data)) := by
    apply if_pos
    simp only [textOffset, capacityOffset] at hwhole ⊢
    omega
  have hlen : (string.chars ++ [0]).length = strlen string + 1 := List.length_append
  simp only [patch, hmagic, hunpack, encodeAscii_textOf hascii, hlen, hasMagic, decide_eq_true_eq,
    Nat.add_sub_cancel]
  split
  · rfl
  · split
    · rfl
    · rename_i hfit
      have hroom : textOffset + (string.chars ++ [0]).length ≤ data.length := by omega
      have hcap := u16_lt (imageOf data) capacityOffset
      have hpack : packU16 (splice data textOffset (string.chars ++ [0])) lengthOffset
          (strlen string) = some (stamped data string) := by
        apply if_pos
        rw [length_splice hroom]
        simp only [capacity, textOffset, lengthOffset] at hwhole hfit ⊢
        omega
      simp only [hpack, Prod.mk.injEq, true_and]
      -- all of the script's changes lie in the stretch it writes back
      apply splice_slice
      · simp only [textOffset]
        omega
      · rwa [length_stamped hroom]
      · exact (length_stamped hroom).symm
      · intro i hi
        symm
        apply getElem?_stamped hroom
        simp only [textOffset, lengthOffset, List.length_append, List.length_singleton] at hi hroom ⊢
        simp only [strlen] at hfit
        omega

/-- The same bytes reach the image in three stores or in two. -/
theorem patchImage_stamped (h : Accepts (imageOf data) data.length string)
    (hroom : textOffset + (string.chars ++ [0]).length ≤ data.length) :
    patchImage data string = (.patchOK, stamped data string) := by
  have hlength : lengthOffset + (u16Bytes (strlen string)).length ≤
      (splice data textOffset (string.chars ++ [0])).length := by
    rw [length_splice hroom]
    simp only [textOffset, lengthOffset, u16Bytes, List.length_cons, List.length_nil] at hroom ⊢
    omega
  have hmem : stamp (imageOf data) string = memOf 0 (stamped data string) := by
    rw [stamped, memOf_splice 0 hlength, memOf_splice 0 hroom, ← write_append]
    rfl
  simp only [patchImage, patchDefaults_of_accepts h, hmem, Prod.mk.injEq, true_and]
  rw [← length_stamped hroom]
  exact read_memOf 0 (stamped data string)

theorem patchImage_takes (data : List UInt8) (string : CString) :
    (patchImage data string).1 = .patchOK ↔
      defaultsBlockOffset + sizeofDefaultsBlock ≤ data.length ∧ Fits data string :=
  patchDefaults_ok_iff (imageOf data) data.length string

theorem patchImage_refuses (h : (patchImage data string).1 ≠ .patchOK) :
    (patchImage data string).2 = data := by
  have hrefused : ¬ Accepts (imageOf data) data.length string :=
    fun ha => h ((patchDefaults_ok_iff _ _ _).mpr ha)
  simp only [patchImage, (patchDefaults_of_not_accepts hrefused).2]
  exact read_memOf 0 data

theorem script_takes (hascii : ∀ c ∈ string.chars, c < 128)
    (hwhole : textOffset + capacity (imageOf data) ≤ data.length) :
    (patch data (textOf string)).1 = none ↔ Fits data string := by
  rw [patch_eq hascii hwhole]
  by_cases hm : hasMagic (imageOf data) = true
  · rw [if_neg (not_not.mpr hm)]
    by_cases hc : strlen string + 1 > capacity (imageOf data)
    · rw [if_pos hc]
      exact iff_of_false (Option.some_ne_none _) (fun hf => Nat.not_le.mpr hc hf.2)
    · rw [if_neg hc]
      exact iff_of_true rfl ⟨hm, Nat.not_lt.mp hc⟩
  · rw [if_pos hm]
    exact iff_of_false (Option.some_ne_none _) (fun hf => hm hf.1)

theorem script_refuses (hascii : ∀ c ∈ string.chars, c < 128)
    (hwhole : textOffset + capacity (imageOf data) ≤ data.length)
    (h : (patch data (textOf string)).1 ≠ none) : (patch data (textOf string)).2 = data := by
  rw [patch_eq hascii hwhole] at h ⊢
  split
  · rfl
  · split
    · rfl
    · rename_i hm hc
      rw [if_neg hm, if_neg hc] at h
      exact absurd rfl h

/-- For a file that has the whole block it declares, the two writers part just where the
block is smaller than that of the first revision and takes the string. -/
theorem patch_agrees_iff (data : List UInt8) (string : CString)
    (hascii : ∀ c ∈ string.chars, c < 128)
    (hwhole : textOffset + capacity (imageOf data) ≤ data.length) :
    Agree data string ↔
      defaultsBlockOffset + sizeofDefaultsBlock ≤ data.length ∨ ¬ Fits data string := by
  constructor
  · intro h
    by_cases hf : Fits data string
    · exact Or.inl ((patchImage_takes data string).mp (h.codeTakes.mpr hf)).1
    · exact Or.inr hf
  · intro h
    refine ⟨?_, script_takes hascii hwhole, patchImage_refuses, script_refuses hascii hwhole, ?_⟩
    · rw [patchImage_takes]
      constructor
      · exact fun ht => ht.2
      · exact fun hf => ⟨h.resolve_right (fun hn => hn hf), hf⟩
    · intro hcode _
      obtain ⟨hsize, hm, hc⟩ := (patchImage_takes data string).mp hcode
      have hroom : textOffset + (string.chars ++ [0]).length ≤ data.length := by
        simp only [List.length_append, List.length_singleton, strlen] at hc ⊢
        omega
      rw [patchImage_stamped ⟨hsize, hm, hc⟩ hroom, patch_eq hascii hwhole]
      simp [hm, Nat.not_lt.mpr hc]

def smallBlock : List UInt8 :=
  List.replicate defaultsBlockOffset 0 ++ (defaultsMagic ++ u16Bytes 16 ++ List.replicate 18 0)

def someDefaults : CString := ⟨ascii "c64", by decide⟩

theorem length_smallBlock : smallBlock.length = 0x818 := by
  simp only [smallBlock, List.length_append, List.length_replicate]
  rfl

theorem smallBlock_block : hasMagic (imageOf smallBlock) ∧ capacity (imageOf smallBlock) = 16 := by
  have hblock := ((holds_append _ _ _ _).mp (holds_imageOf smallBlock)).2
  rw [List.length_replicate, Nat.zero_add] at hblock
  exact block_of_holds (by decide) ((holds_append _ _ _ _).mp hblock).1

theorem small_block_splits_writers :
    (∀ c ∈ someDefaults.chars, c < 128) ∧
      textOffset + capacity (imageOf smallBlock) ≤ smallBlock.length ∧
      (patch smallBlock (textOf someDefaults)).1 = none ∧
      (patchImage smallBlock someDefaults).1 = .patchImageTooSmall ∧
      ¬ Agree smallBlock someDefaults := by
  obtain ⟨hm, hc⟩ := smallBlock_block
  have hascii : ∀ c ∈ someDefaults.chars, c < 128 := by decide +kernel
  have hwhole : textOffset + capacity (imageOf smallBlock) ≤ smallBlock.length := by
    rw [hc, length_smallBlock]
    decide
  have hfits : Fits smallBlock someDefaults := by
    refine ⟨hm, ?_⟩
    rw [hc]
    decide
  have hsmall : (patchImage smallBlock someDefaults).1 = .patchImageTooSmall := by
    rw [patchImage, patchDefaults, if_pos]
    rw [length_smallBlock]
    decide
  refine ⟨hascii, hwhole, (script_takes hascii hwhole).mpr hfits, hsmall, fun h => ?_⟩
  have htakes := h.codeTakes.mpr hfits
  rw [hsmall] at htakes
  cases htakes

theorem writers_agree_wide : Agree wideImage longDefaults := by
  obtain ⟨-, hc⟩ := wideImage_block (holds_imageOf wideImage)
  have hascii : ∀ c ∈ longDefaults.chars, c < 128 := by
    intro c hmem
    rw [List.eq_of_mem_replicate hmem]
    decide
  have hwhole : textOffset + capacity (imageOf wideImage) ≤ wideImage.length := by
    rw [hc, length_wideImage]
    decide
  apply (patch_agrees_iff wideImage longDefaults hascii hwhole).mpr
  left
  rw [length_wideImage]
  decide

end RapiBootloader.PatchScript
