import RapiBootloader.BootSelection

namespace RapiBootloader.StampedWhole

open Lib.Memory Lib.Strings Lib.Text DefaultsBlock BootImage ChainBoot Card BootMenu
open BootSelection

/-- Nothing was stamped, or the block of the booted image holds the whole text. -/
def LeavesWhole (b : Boot) (full : List UInt8) : Prop :=
  b.result ≠ some .patchOK ∨
    (u16 b.image lengthOffset = full.length ∧ Holds b.image textOffset (full ++ [0]) ∧
      textOffset + full.length + 1 ≤ b.imageSize)

def kept (cut : List UInt8) : CString := ofBytes (cut.take (maxString - 1))

theorem kept_chars {cut : List UInt8} (h : 0 ∉ cut) :
    (kept cut).chars = cut.take (maxString - 1) := by
  have hn : 0 ∉ cut.take (maxString - 1) := fun hm => h (List.mem_of_mem_take hm)
  exact congrArg CString.chars (ofBytes_chars ⟨_, hn⟩)

theorem holds_unique {m : Mem UInt8} {off : Nat} {xs ys : List UInt8} (hx : Holds m off xs)
    (hy : Holds m off ys) (hl : xs.length = ys.length) : xs = ys := by
  have hread := hx.read_eq
  rw [hl, hy.read_eq] at hread
  exact hread.symm

/-- A stamp of the part of a text that was kept. -/
theorem stamped_iff {image : Mem UInt8} {n : Nat} {cut full : List UInt8} (hnul : 0 ∉ cut)
    (hp : cut <+: full) (ha : Accepts image n (kept cut)) :
    (u16 (stamp image (kept cut)) lengthOffset = full.length ∧
      Holds (stamp image (kept cut)) textOffset (full ++ [0]) ∧
      textOffset + full.length + 1 ≤ n) ↔
    cut = full ∧ full.length < maxString ∧ textOffset + full.length + 1 ≤ n := by
  have hchars := kept_chars hnul
  have hlen : strlen (kept cut) < 0x10000 := by
    have hcap := ha.2.2
    have hlt := u16_lt image capacityOffset
    rw [capacity] at hcap
    omega
  have hheld := stamp_holds image (kept cut)
  rw [hchars] at hheld
  rw [u16_stamp image (kept cut) hlen, strlen, hchars]
  constructor
  · rintro ⟨hl, hh, hend⟩
    have heq : cut.take (maxString - 1) = full := by
      have hsame := holds_unique hheld hh (by rw [List.length_append, List.length_append, hl])
      exact List.append_cancel_right hsame
    have hshort : cut.length ≤ maxString - 1 := by
      have hle := hp.length_le
      rw [← heq, List.length_take] at hle
      omega
    rw [List.take_of_length_le hshort] at heq
    exact ⟨heq, heq ▸ Nat.lt_succ_of_le hshort, hend⟩
  · rintro ⟨rfl, hshort, hend⟩
    rw [List.take_of_length_le (Nat.le_sub_one_of_lt hshort)] at hheld ⊢
    exact ⟨rfl, hheld, hend⟩

theorem leavesWhole_iff {image : Mem UInt8} {n : Nat} {cut full : List UInt8} (hnul : 0 ∉ cut)
    (hp : cut <+: full) :
    LeavesWhole (bootImageWithDefaults image n (some (kept cut))) full ↔
      cut = [] ∨ ¬ Accepts image n (kept cut) ∨
        (cut = full ∧ full.length < maxString ∧ textOffset + full.length + 1 ≤ n) := by
  rw [LeavesWhole, boot_imageSize]
  by_cases he : cut = []
  · have hkept : (kept cut).chars = [] := by rw [kept_chars hnul, he, List.take_nil]
    rw [boot_result_empty _ _ _ hkept]
    simp [he]
  · have hkept : (kept cut).chars ≠ [] := by
      rw [kept_chars hnul]
      simp [he, maxString]
    rw [boot_result _ _ _ hkept, boot_image _ _ _ hkept]
    by_cases ha : Accepts image n (kept cut)
    · rw [patchDefaults_of_accepts ha, stamped_iff hnul hp ha]
      simp [he, ha]
    · have hr := (patchDefaults_of_not_accepts ha).1
      simp [ha, hr]

/-- The table row and the 64 KiB only do no harm where they cut nothing off, or where
the image refuses what is left. -/
theorem stamped_text_whole_iff (kernelMaxSize : KernelMaxSize) (file : List UInt8)
    (hnul : 0 ∉ file) (a : LoadAnswers) (imageBuffer : Option (Mem UInt8)) (s : Selection)
    (b : Boot) (hb : bootSelection kernelMaxSize (load file a).2 imageBuffer s = .armed b) :
    ∃ cut full, (texts (file.take maxConfigBytes))[s.index]? = some cut ∧
      (texts file)[s.index]? = some full ∧
      (LeavesWhole b full ↔
        cut = [] ∨ ¬ Accepts (imageOf s.kernel) s.kernel.length (kept cut) ∨
          (cut = full ∧ full.length < maxString ∧
            textOffset + full.length + 1 ≤ s.kernel.length)) := by
  obtain ⟨string, image, hl⟩ := bootSelection_armed hb
  obtain ⟨cut, hcut, rfl⟩ := getString_load hl.chosen
  obtain ⟨full, hfull, hp⟩ := texts_append (file.drop maxConfigBytes) hcut
  rw [List.take_append_drop] at hfull
  have hcutnul : 0 ∉ cut := fun hm =>
    hnul ((List.take_subset _ _) (texts_subset (List.mem_of_getElem? hcut) hm))
  refine ⟨cut, full, hcut, hfull, ?_⟩
  rw [← accepts_congr (eq_imageOf hl.holds), hl.boot]
  exact leavesWhole_iff hcutnul hp

def firstEntry (kernel : List UInt8) : Selection :=
  ⟨0, ⟨0, fun _ => 0, fun _ _ => none⟩, "SD:/kernel.img", .frOk, kernel, fun _ => (.frOk, chunkBytes)⟩

def roomy : KernelMaxSize := ⟨8192, by decide⟩

theorem boot_wideImage {file cut : List UInt8} {label : CString}
    (hlabel : getLabel (load file fineLoad).2 0 = some label)
    (hstring : getString (load file fineLoad).2 0 = some (kept cut)) :
    bootSelection roomy (load file fineLoad).2 (some fun _ => 0) (firstEntry wideImage) =
      .armed (bootImageWithDefaults (write (fun _ => 0) 0 wideImage) wideImage.length
        (some (kept cut))) := by
  have hsize : (firstEntry wideImage).kernel.length = 0xC08 := length_wideImage
  exact bootSelection_one_read (s := firstEntry wideImage) (fun _ => 0) hlabel hstring rfl
    (by rw [hsize]; decide) (by rw [hsize]; decide) (by rw [hsize]; decide) rfl
    (by rw [hsize]; decide)

/-- A string of four characters for a block of 1024. -/
theorem stamped_text_whole_wide :
    ∃ b, bootSelection roomy (load (ascii "mame|-v 1\n") fineLoad).2 (some fun _ => 0)
        (firstEntry wideImage) = .armed b ∧
      b.result = some .patchOK ∧ LeavesWhole b (ascii "-v 1") := by
  have hstring : getString (load (ascii "mame|-v 1\n") fineLoad).2 0 =
      some (kept (ascii "-v 1")) := by decide +kernel
  have haccepts := accepts_wideImage (holds_write (fun _ => 0) 0 wideImage) (kept (ascii "-v 1"))
    (by decide)
  have hboot := @boot_wideImage (ascii "mame|-v 1\n") (ascii "-v 1") _ rfl hstring
  refine ⟨_, hboot, ?_, ?_⟩
  · rw [boot_result _ _ _ (by decide), patchDefaults_of_accepts haccepts]
  · obtain ⟨cut, full, hcut, hfull, hiff⟩ := stamped_text_whole_iff roomy (ascii "mame|-v 1\n")
      (by decide) fineLoad (some fun _ => 0) (firstEntry wideImage) _ hboot
    obtain rfl : ascii "-v 1" = cut := Option.some.inj ((by decide +kernel : _ = _).trans hcut)
    obtain rfl : ascii "-v 1" = full := Option.some.inj ((by decide +kernel : _ = _).trans hfull)
    refine hiff.mpr (Or.inr (Or.inr ⟨rfl, by decide, ?_⟩))
    have hsize : (firstEntry wideImage).kernel.length = 0xC08 := length_wideImage
    rw [hsize]
    decide

def longText : List UInt8 := List.replicate maxString 97

def longFile : List UInt8 := [97] ++ 124 :: longText

theorem length_longText : longText.length = maxString := List.length_replicate

theorem trim_longText : trim isSpace longText = longText := by
  have hd : longText.dropWhile isSpace = longText := by
    rw [longText, maxString, List.replicate_succ, List.dropWhile_cons_of_neg (by decide)]
  rw [trim, hd, List.rdropWhile_eq_self_iff]
  intro hne hs
  rw [List.eq_of_mem_replicate (List.getLast_mem hne)] at hs
  exact absurd hs (by decide)

theorem mem_longFile {c : UInt8} (h : c ∈ longFile) : c = 97 ∨ c = 124 := by
  obtain h | h := List.mem_append.mp h
  · exact Or.inl (List.mem_singleton.mp h)
  · obtain h | h := List.mem_cons.mp h
    · exact Or.inr h
    · exact Or.inl (List.eq_of_mem_replicate h)

theorem entryText_longFile : entryText longFile = some longText := by
  rw [longFile, entryText_append_pipe [97] longText (by decide) (by decide), trim_longText]

theorem lines_longFile : longFile.splitOn 10 = [longFile] :=
  List.splitOn_eq_singleton (fun h => by
    obtain h | h := mem_longFile h
    all_goals exact absurd h (by decide))

theorem texts_longFile : texts longFile = [longText] := by
  rw [texts, lines_longFile, List.filterMap_cons_some entryText_longFile, List.filterMap_nil]

theorem menu_longFile : ∃ e, (load longFile fineLoad).2.entries = [e] ∧
    e.string = longText.take (maxString - 1) := by
  have htake : longFile.take maxConfigBytes = longFile := by
    apply List.take_of_length_le
    simp only [longFile, List.length_append, List.length_cons, List.length_nil, length_longText]
    decide
  have hload : (load longFile fineLoad).2 = parseLine Menu.empty longFile := by
    rw [load_fine, htake, lines_longFile, List.foldl_cons, List.foldl_nil]
  have hs := foldl_parseLine [longFile]
  rw [List.foldl_cons, List.foldl_nil, ← hload, List.filterMap_cons_some entryText_longFile] at hs
  obtain ⟨e, he, hstr⟩ := List.map_eq_singleton_iff.mp hs
  exact ⟨e, he, hstr⟩

/-- 1024 characters for a block of 1024 are one too many, but the 1023 that the table
keeps of them are stamped. -/
theorem long_text_is_stamped_short :
    ¬ ∀ (kernelMaxSize : KernelMaxSize) (file : List UInt8) (a : LoadAnswers)
      (imageBuffer : Option (Mem UInt8)) (s : Selection) (b : Boot) (full : List UInt8),
      0 ∉ file → bootSelection kernelMaxSize (load file a).2 imageBuffer s = .armed b →
        (texts file)[s.index]? = some full → LeavesWhole b full := by
  intro h
  obtain ⟨e, he, hstr⟩ := menu_longFile
  have hlabel : getLabel (load longFile fineLoad).2 0 = some (ofBytes e.label) := by
    rw [getLabel, he]
    rfl
  have hstring : getString (load longFile fineLoad).2 0 = some (kept longText) := by
    rw [getString, he, kept, ← hstr]
    rfl
  have hnul : 0 ∉ longText := fun hm => absurd (List.eq_of_mem_replicate hm) (by decide)
  have hboot := boot_wideImage hlabel hstring
  have hwhole := h roomy longFile fineLoad (some fun _ => 0) (firstEntry wideImage) _ longText
    (fun hm => by
      obtain hm | hm := mem_longFile hm
      all_goals exact absurd hm (by decide))
    hboot (by rw [texts_longFile]; rfl)
  have hkept : strlen (kept longText) + 1 ≤ 1024 := by
    have hle := List.length_take_le (maxString - 1) longText
    have hmax : maxString = 1024 := rfl
    rw [strlen, kept_chars hnul]
    omega
  have hlen := length_longText
  obtain hcut | hrefused | ⟨-, hshort, -⟩ :=
    (leavesWhole_iff hnul (List.prefix_refl longText)).mp hwhole
  · rw [hcut] at hlen
    exact absurd hlen (by decide)
  · exact hrefused (accepts_wideImage (holds_write _ _ _) _ hkept)
  · omega

end RapiBootloader.StampedWhole
