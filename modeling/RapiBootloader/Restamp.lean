import RapiBootloader.BootImage

namespace RapiBootloader.Restamp

open Lib.Memory Lib.Strings DefaultsBlock BootImage

def patchAll (imageSize : Nat) : Mem UInt8 → List CString → List TPatchResult × Mem UInt8
  | image, [] => ([], image)
  | image, string :: strings =>
    let patched := patchDefaults image imageSize string
    let rest := patchAll imageSize patched.2 strings
    (patched.1 :: rest.1, rest.2)

def accepted (image : Mem UInt8) (imageSize : Nat) (strings : List CString) : List CString :=
  strings.filter (fun string => decide ((patchDefaults image imageSize string).1 = .patchOK))

def textByLength (m : Mem UInt8) : List UInt8 := read m textOffset (u16 m lengthOffset)

def textByNul (m : Mem UInt8) : CString := ofBytes (read m textOffset (capacity m))

/-- The memory differs from the image in its block only, which has the last string. -/
structure Carries (image m : Mem UInt8) (last : Option CString) : Prop where
  frame : ∀ i, ¬ InBlock image i → m i = image i
  untouched : last = none → m = image
  fits : ∀ string ∈ last, strlen string + 1 ≤ capacity image
  length : ∀ string ∈ last, u16 m lengthOffset = strlen string
  text : ∀ string ∈ last, Holds m textOffset (string.chars ++ [0])

variable {image m : Mem UInt8} {last : Option CString}

theorem carries_refl (image : Mem UInt8) : Carries image image none where
  frame _ _ := rfl
  untouched _ := rfl
  fits _ h := by cases h
  length _ h := by cases h
  text _ h := by cases h

theorem Carries.capacity_eq (h : Carries image m last) : capacity m = capacity image := by
  have hlo : m capacityOffset = image capacityOffset := by
    apply h.frame
    simp [InBlock, lengthOffset, capacityOffset]
  have hhi : m (capacityOffset + 1) = image (capacityOffset + 1) := by
    apply h.frame
    simp only [InBlock, lengthOffset, capacityOffset]
    omega
  simp only [capacity, u16, hlo, hhi]

theorem Carries.hasMagic_eq (h : Carries image m last) : hasMagic m = hasMagic image := by
  have hread : read m defaultsBlockOffset 4 = read image defaultsBlockOffset 4 := by
    apply List.map_congr_left
    intro i hi
    apply h.frame
    simp only [List.mem_range] at hi
    simp only [InBlock, lengthOffset, defaultsBlockOffset]
    omega
  simp only [hasMagic, hread]

/-- What the checks look at is never stamped over. -/
theorem Carries.result_eq (h : Carries image m last) (imageSize : Nat) (string : CString) :
    (patchDefaults m imageSize string).1 = (patchDefaults image imageSize string).1 := by
  simp only [patchDefaults, h.capacity_eq, h.hasMagic_eq]
  split
  · rfl
  · split
    · rfl
    · split <;> rfl

theorem Carries.accepts_iff (h : Carries image m last) (imageSize : Nat) (string : CString) :
    Accepts m imageSize string ↔ Accepts image imageSize string := by
  simp only [Accepts, h.capacity_eq, h.hasMagic_eq]

theorem Carries.stamp (h : Carries image m last) (string : CString)
    (hfit : strlen string + 1 ≤ capacity image) :
    Carries image (stamp m string) (some string) where
  frame i hi := by
    have hs : DefaultsBlock.stamp m string i = m i := by
      by_contra hne
      obtain ⟨hlo, hhi⟩ := stamp_changed m string i hne
      exact hi ⟨hlo, by omega⟩
    exact hs.trans (h.frame i hi)
  untouched hnone := by cases hnone
  fits s hs := by
    cases hs
    exact hfit
  length s hs := by
    cases hs
    have hcap : capacity image < 0x10000 := u16_lt image capacityOffset
    exact u16_stamp m string (by omega)
  text s hs := by
    cases hs
    exact stamp_holds m string

theorem Carries.step (h : Carries image m last) (imageSize : Nat) (string : CString) :
    Carries image (patchDefaults m imageSize string).2
      (if Accepts image imageSize string then some string else last) := by
  by_cases ha : Accepts image imageSize string
  · rw [if_pos ha, patchDefaults_of_accepts ((h.accepts_iff imageSize string).mpr ha)]
    exact h.stamp string ha.2.2
  · have hm : ¬ Accepts m imageSize string := fun hm => ha ((h.accepts_iff imageSize string).mp hm)
    rw [if_neg ha, (patchDefaults_of_not_accepts hm).2]
    exact h

theorem Carries.patchAll (h : Carries image m last) (imageSize : Nat) (strings : List CString) :
    (patchAll imageSize m strings).1 =
        strings.map (fun string => (patchDefaults image imageSize string).1) ∧
      Carries image (patchAll imageSize m strings).2
        ((accepted image imageSize strings).getLast?.or last) := by
  induction strings generalizing m last with
  | nil => exact ⟨rfl, h⟩
  | cons string strings ih =>
    obtain ⟨hresults, hcarries⟩ := ih (h.step imageSize string)
    constructor
    · simp only [Restamp.patchAll, List.map_cons, h.result_eq, hresults]
    · by_cases ha : Accepts image imageSize string
      · simp only [if_pos ha] at hcarries
        simp only [Restamp.patchAll, accepted, List.filter_cons, patchDefaults_ok_iff, ha,
          decide_true, if_true, List.getLast?_cons] at hcarries ⊢
        revert hcarries
        cases (List.filter (fun s => decide (Accepts image imageSize s)) strings).getLast? with
        | none => exact id
        | some s => exact id
      · simp only [if_neg ha] at hcarries
        simpa only [Restamp.patchAll, accepted, List.filter_cons, patchDefaults_ok_iff, ha,
          decide_false, Bool.false_eq_true, if_false] using hcarries

theorem Carries.readers {string : CString} (h : Carries image m (some string)) :
    textByLength m = string.chars ∧ m (textOffset + u16 m lengthOffset) = 0 ∧
      textByNul m = string := by
  have hlen := h.length string rfl
  obtain ⟨htext, hnul⟩ := (holds_append _ _ _ _).mp (h.text string rfl)
  refine ⟨?_, ?_, ?_⟩
  · simp only [textByLength, hlen]
    exact htext.read_eq
  · simp only [hlen]
    exact hnul 0 (by simp)
  · have hfit := h.fits string rfl
    have hp : string.chars ++ [0] <+: read m textOffset (capacity m) := by
      apply holds_take (h.text string rfl)
      simpa only [h.capacity_eq, List.length_append, List.length_singleton, strlen] using hfit
    rw [textByNul, ofBytes_of_prefix hp, ofBytes_chars]

/-- However many strings are stamped over one another, each is taken or refused as if it were
the first, only the block changes, and both kinds of reader find the last one taken. -/
theorem stamps_settle (image : Mem UInt8) (imageSize : Nat) (strings : List CString)
    (hsize : textOffset + max defaultsBufferBytes (capacity image) ≤ imageSize) :
    let final := patchAll imageSize image strings
    final.1 = strings.map (fun string => (patchDefaults image imageSize string).1) ∧
      (∀ i, final.2 i ≠ image i → InBlock image i ∧ i < imageSize) ∧
      ((accepted image imageSize strings).getLast? = none → final.2 = image) ∧
      ∀ string, (accepted image imageSize strings).getLast? = some string →
        textByLength final.2 = string.chars ∧
          final.2 (textOffset + u16 final.2 lengthOffset) = 0 ∧ textByNul final.2 = string := by
  obtain ⟨hresults, hcarries⟩ := (carries_refl image).patchAll imageSize strings
  rw [Option.or_none] at hcarries
  refine ⟨hresults, fun i hi => ?_, hcarries.untouched, fun string hlast => ?_⟩
  · have hin : InBlock image i := by
      by_contra hout
      exact hi (hcarries.frame i hout)
    have hend := hin.2
    exact ⟨hin, by omega⟩
  · rw [hlast] at hcarries
    exact hcarries.readers

def shortDefaults : CString := ⟨ascii "-v 1", by decide⟩

theorem accepts_wideBlock {string : CString} (h : strlen string + 1 ≤ 1024) :
    Accepts wideBlock 0xC08 string := by
  refine ⟨by decide, by decide, ?_⟩
  rwa [capacity_wideBlock]

/-- A short text over the leftovers of a long one. -/
theorem short_over_long :
    textByNul (patchAll 0xC08 wideBlock [longDefaults, shortDefaults]).2 = shortDefaults := by
  have hsize : textOffset + max defaultsBufferBytes (capacity wideBlock) ≤ 0xC08 := by
    rw [capacity_wideBlock]
    decide
  have hlong : Accepts wideBlock 0xC08 longDefaults := by
    apply accepts_wideBlock
    simp [longDefaults]
  have hshort : Accepts wideBlock 0xC08 shortDefaults := accepts_wideBlock (by decide)
  have hlast : (accepted wideBlock 0xC08 [longDefaults, shortDefaults]).getLast? =
      some shortDefaults := by
    simp [accepted, patchDefaults_ok_iff, hlong, hshort]
  exact ((stamps_settle wideBlock 0xC08 _ hsize).2.2.2 shortDefaults hlast).2.2

end RapiBootloader.Restamp
