import RapiBootloader.BootMenu
import RapiBootloader.BootImage
import RapiBootloader.ChainBoot

namespace RapiBootloader.BootSelection

open Lib.Memory Lib.Strings DefaultsBlock BootImage ChainBoot Card BootMenu

/-- A call of `BootSelection`: the kernel file on the card and how the calls it makes
turn out. `f_read` gives `reads` at most, and never more than it is asked for. -/
structure Selection where
  index : Nat
  memory : MemorySystem
  kernelPath : String
  openResult : FResult
  kernel : List UInt8
  reads : Nat → FResult × Nat

/-- `Fatal` does not return. -/
inductive Selected
  | fatal (message : String)
  | armed (boot : Boot)

def chunkBytes : Nat := 0x1000000

/-- The loop that reads the kernel file, from its `call`-th read on. It gives
`bReadOK`, `nOffset` and the staging buffer. -/
def readImage (s : Selection) : Nat → Nat → Nat → Mem UInt8 → Bool × Nat × Mem UInt8
  | 0, _, offset, buffer => (true, offset, buffer)
  | fuel + 1, call, offset, buffer =>
    if offset < s.kernel.length then
      let chunk := if s.kernel.length - offset > chunkBytes then chunkBytes
        else s.kernel.length - offset
      let nRead := min (s.reads call).2 chunk
      if (s.reads call).1 ≠ .frOk ∨ nRead = 0 then (false, offset, buffer)
      else
        readImage s fuel (call + 1) (offset + nRead)
          (write buffer offset ((s.kernel.drop offset).take nRead))
    else (true, offset, buffer)

def bootSelection (kernelMaxSize : KernelMaxSize) (menu : Menu) (imageBuffer : Option (Mem UInt8))
    (s : Selection) : Selected :=
  match getLabel menu s.index, getString menu s.index with
  | some _, some string =>
    match if imageBuffer.isNone then stageAlloc s.memory kernelMaxSize.bytes else imageBuffer with
    | none => .fatal "out of memory staging the kernel image"
    | some buffer =>
      if s.openResult ≠ .frOk then
        .fatal ("cannot open " ++ s.kernelPath ++ " (FR=" ++ toString s.openResult.code ++ ")")
      else if s.kernel.length = 0 ∨ s.kernel.length > kernelMaxSize.bytes then
        .fatal "kernel image size out of range"
      else
        let r := readImage s s.kernel.length 0 0 buffer
        if !r.1 ∨ r.2.1 ≠ s.kernel.length then .fatal "read error on the kernel image"
        else .armed (bootImageWithDefaults r.2.2 s.kernel.length (some string))
  | _, _ => .fatal "selected menu entry has no label or defaults string"

/-- As many rounds as the file has bytes are enough: the loop ends with a failed read
or with the whole file in the buffer. -/
theorem readImage_holds (s : Selection) (fuel call offset : Nat) (buffer : Mem UInt8)
    (hoff : offset ≤ s.kernel.length) (hfuel : s.kernel.length ≤ offset + fuel)
    (h : Holds buffer 0 (s.kernel.take offset)) :
    (readImage s fuel call offset buffer).1 = false ∨
      ((readImage s fuel call offset buffer).2.1 = s.kernel.length ∧
        Holds (readImage s fuel call offset buffer).2.2 0 s.kernel) := by
  induction fuel generalizing call offset buffer with
  | zero =>
    have hend : offset = s.kernel.length := by omega
    rw [hend, List.take_length] at h
    exact Or.inr ⟨hend, h⟩
  | succ fuel ih =>
    rw [readImage]
    split
    · rename_i hlt
      have hchunk : (if s.kernel.length - offset > chunkBytes then chunkBytes
          else s.kernel.length - offset) ≤ s.kernel.length - offset := by
        split <;> omega
      generalize (if s.kernel.length - offset > chunkBytes then chunkBytes
        else s.kernel.length - offset) = chunk at hchunk ⊢
      dsimp only
      split
      · exact Or.inl rfl
      · rename_i hread
        have hpos : min (s.reads call).2 chunk ≠ 0 := fun h0 => hread (Or.inr h0)
        have hle := (Nat.min_le_right (s.reads call).2 chunk).trans hchunk
        generalize min (s.reads call).2 chunk = nRead at hpos hle ⊢
        apply ih (call + 1) (offset + nRead) _ (by omega) (by omega)
        have happ := h.append ((s.kernel.drop offset).take nRead)
        rw [List.length_take_of_le hoff, Nat.zero_add, ← List.take_add] at happ
        exact happ
    · have hend : offset = s.kernel.length := by omega
      rw [hend, List.take_length] at h
      exact Or.inr ⟨hend, h⟩

/-- What leads to an armed image: the string of the entry, and the whole kernel file
in the staging buffer. -/
structure Loaded (kernelMaxSize : KernelMaxSize) (menu : Menu) (s : Selection) (b : Boot)
    (string : CString) (image : Mem UInt8) : Prop where
  chosen : getString menu s.index = some string
  positive : 0 < s.kernel.length
  fits : s.kernel.length ≤ kernelMaxSize.bytes
  holds : Holds image 0 s.kernel
  boot : b = bootImageWithDefaults image s.kernel.length (some string)

theorem bootSelection_armed {kernelMaxSize : KernelMaxSize} {menu : Menu}
    {imageBuffer : Option (Mem UInt8)} {s : Selection} {b : Boot}
    (h : bootSelection kernelMaxSize menu imageBuffer s = .armed b) :
    ∃ string image, Loaded kernelMaxSize menu s b string image := by
  unfold bootSelection at h
  split at h
  · rename_i label string hl hs
    split at h
    · cases h
    · rename_i buffer _
      split at h
      · cases h
      · split at h
        · cases h
        · rename_i hsize
          dsimp only at h
          split at h
          · cases h
          · rename_i hread
            have hpos : 0 < s.kernel.length := Nat.pos_of_ne_zero (fun h0 => hsize (Or.inl h0))
            have hfit := Nat.not_lt.mp (fun hgt => hsize (Or.inr hgt))
            have hstart : Holds buffer 0 (s.kernel.take 0) := fun i hi => by simp at hi
            obtain hfail | ⟨-, hh⟩ := readImage_holds s s.kernel.length 0 0 buffer
              (Nat.zero_le _) (by omega) hstart
            · exact absurd (Or.inl (by rw [hfail]; rfl)) hread
            · cases h
              exact ⟨string, _, hs, hpos, hfit, hh, rfl⟩
  · cases h

theorem bootSelection_one_read {kernelMaxSize : KernelMaxSize} {menu : Menu} {s : Selection}
    {label string : CString} (buffer : Mem UInt8) (hl : getLabel menu s.index = some label)
    (hs : getString menu s.index = some string) (ho : s.openResult = .frOk)
    (hpos : 0 < s.kernel.length) (hfit : s.kernel.length ≤ kernelMaxSize.bytes)
    (hchunk : s.kernel.length ≤ chunkBytes) (hr : (s.reads 0).1 = .frOk)
    (hn : s.kernel.length ≤ (s.reads 0).2) :
    bootSelection kernelMaxSize menu (some buffer) s =
      .armed (bootImageWithDefaults (write buffer 0 s.kernel) s.kernel.length (some string)) := by
  have hmin : min (s.reads 0).2 s.kernel.length = s.kernel.length := Nat.min_eq_right hn
  have hread : readImage s s.kernel.length 0 0 buffer =
      (true, s.kernel.length, write buffer 0 s.kernel) := by
    obtain ⟨n, hlen⟩ := Nat.exists_eq_add_of_lt hpos
    have hfuel : s.kernel.length = n + 1 := by omega
    have hend : readImage s n 1 s.kernel.length (write buffer 0 s.kernel) =
        (true, s.kernel.length, write buffer 0 s.kernel) := by
      cases n with
      | zero => rfl
      | succ n => rw [readImage, if_neg (Nat.lt_irrefl _)]
    rw [hfuel, readImage, ← hfuel, if_pos hpos, Nat.sub_zero, if_neg (Nat.not_lt.mpr hchunk)]
    dsimp only
    rw [hmin, if_neg (by simp [hr, hpos.ne']), List.drop_zero, List.take_length, Nat.zero_add,
      Nat.zero_add]
    exact hend
  simp only [bootSelection]
  simp only [hl, hs, Option.isNone_some, Bool.false_eq_true, if_false]
  rw [if_neg (not_not.mpr ho), if_neg (by omega), hread]
  simp

end RapiBootloader.BootSelection
