import Mathlib.Data.List.Infix
import RapiBootloader.Lib.CLibrary
import RapiBootloader.Lib.Strings

namespace RapiBootloader.WebDavText

open Lib.Memory Lib.Strings Lib.CLibrary

def isHexDigit (c : UInt8) : Bool :=
  (48 ≤ c && c ≤ 57) || (97 ≤ c && c ≤ 102) || (65 ≤ c && c ≤ 70)

def hexValue (c : UInt8) : UInt8 :=
  if 48 ≤ c && c ≤ 57 then c - 48 else if 97 ≤ c && c ≤ 102 then c - 97 + 10 else c - 65 + 10

/-- The loop of `UrlDecode`, with a bound on its turns. -/
def urlDecode (m : Mem UInt8) : Nat → Nat → Nat → Mem UInt8
  | 0, _, pOut => write m pOut [0]
  | fuel + 1, pIn, pOut =>
    if m pIn = 0 then write m pOut [0]
    else if m pIn = 37 ∧ isHexDigit (m (pIn + 1)) ∧ isHexDigit (m (pIn + 2)) then
      urlDecode (write m pOut [hexValue (m (pIn + 1)) * 16 + hexValue (m (pIn + 2))]) fuel
        (pIn + 3) (pOut + 1)
    else urlDecode (write m pOut [m pIn]) fuel (pIn + 1) (pOut + 1)

def skipSpaces (s : List UInt8) : List UInt8 := s.dropWhile (fun c => c = 32 || c = 9)

def mapPath (requestPath : List UInt8) : Option (List UInt8) :=
  if ascii ".." <:+: requestPath then none
  else if requestPath = ascii "/" then some (ascii "SD:/")
  else some (ascii "SD:" ++ requestPath)

def xmlChar (c : UInt8) : List UInt8 :=
  if c = 38 then ascii "&amp;"
  else if c = 60 then ascii "&lt;"
  else if c = 62 then ascii "&gt;"
  else if c = 34 then ascii "&quot;"
  else [c]

def appendXmlEscaped (xml text : List UInt8) : List UInt8 := xml ++ text.flatMap xmlChar

/-- The string with every `%XX` of two hex digits replaced. -/
def percentDecode : List UInt8 → List UInt8
  | [] => []
  | [c] => [c]
  | [c, a] => [c, a]
  | c :: a :: b :: s =>
    if c = 37 ∧ isHexDigit a ∧ isHexDigit b then (hexValue a * 16 + hexValue b) :: percentDecode s
    else c :: percentDecode (a :: b :: s)

def Escape (s : List UInt8) : Prop :=
  ∃ a b t, s = 37 :: a :: b :: t ∧ isHexDigit a = true ∧ isHexDigit b = true

theorem percentDecode_escape {a b : UInt8} (ha : isHexDigit a = true) (hb : isHexDigit b = true)
    (s : List UInt8) :
    percentDecode (37 :: a :: b :: s) = (hexValue a * 16 + hexValue b) :: percentDecode s := by
  simp [percentDecode, ha, hb]

theorem percentDecode_plain {c : UInt8} {s : List UInt8} (h : ¬ Escape (c :: s)) :
    percentDecode (c :: s) = c :: percentDecode s := by
  match s with
  | [] => rfl
  | [_] => rfl
  | a :: b :: t =>
    rw [percentDecode, if_neg]
    rintro ⟨rfl, ha, hb⟩
    exact h ⟨a, b, t, rfl, ha, hb⟩

theorem percentDecode_slash (s : List UInt8) : percentDecode (47 :: s) = 47 :: percentDecode s := by
  apply percentDecode_plain
  rintro ⟨a, b, t, heq, -, -⟩
  cases heq

theorem not_isHexDigit_nul : isHexDigit 0 = false := by decide

theorem escape_iff {m : Mem UInt8} {size p : Nat} {c : UInt8} {s : List UInt8}
    (h : StringAt m size p (c :: s)) :
    (m p = 37 ∧ isHexDigit (m (p + 1)) = true ∧ isHexDigit (m (p + 2)) = true) ↔
      Escape (c :: s) := by
  have hhead := h.head
  constructor
  · rintro ⟨hc, ha, hb⟩
    match s, h with
    | [], h =>
      rw [h.tail.nul, not_isHexDigit_nul] at ha
      cases ha
    | [a], h =>
      rw [h.tail.tail.nul, not_isHexDigit_nul] at hb
      cases hb
    | a :: b :: t, h =>
      rw [h.tail.head] at ha
      rw [h.tail.tail.head] at hb
      exact ⟨a, b, t, by rw [← hc, hhead], ha, hb⟩
  · rintro ⟨a, b, t, heq, ha, hb⟩
    rw [heq] at h
    exact ⟨h.head, by rw [h.tail.head]; exact ha, by rw [h.tail.tail.head]; exact hb⟩

/-- `UrlDecode` never writes where it has yet to read, so what it leaves is the decoded string. -/
theorem urlDecode_holds {size start : Nat} (fuel : Nat) {m : Mem UInt8} {pIn : Nat}
    {s done : List UInt8} (hs : StringAt m size pIn s) (hd : Holds m start done)
    (hle : start + done.length ≤ pIn) (hfuel : s.length < fuel) :
    Holds (urlDecode m fuel pIn (start + done.length)) start (done ++ percentDecode s ++ [0]) := by
  induction fuel generalizing m pIn s done with
  | zero => exact absurd hfuel (Nat.not_lt_zero _)
  | succ fuel ih =>
    have put : ∀ {q : Nat} {t : List UInt8} (c : UInt8), StringAt m size q t → pIn < q →
        t.length < fuel →
        Holds (urlDecode (write m (start + done.length) [c]) fuel q (start + done.length + 1)) start
          (done ++ c :: percentDecode t ++ [0]) := by
      intro q t c ht hq hlen
      have hdone : Holds (write m (start + done.length) [c]) start (done ++ [c]) := hd.append [c]
      have hnext := ih (ht.write_before (by omega) c) hdone
        (by rw [List.length_append, List.length_singleton]; omega) hlen
      simpa [← Nat.add_assoc] using hnext
    cases s with
    | nil =>
      rw [urlDecode, if_pos hs.nul]
      simpa [percentDecode] using hd.append [0]
    | cons c t =>
      rw [List.length_cons] at hfuel
      have hc : m pIn ≠ 0 := by
        rw [hs.head]
        exact hs.ne_nul
      rw [urlDecode, if_neg hc]
      by_cases hesc : Escape (c :: t)
      · rw [if_pos ((escape_iff hs).mpr hesc)]
        obtain ⟨a, b, u, heq, ha, hb⟩ := hesc
        cases heq
        rw [hs.tail.head, hs.tail.tail.head, percentDecode_escape ha hb]
        simp only [List.length_cons] at hfuel
        exact put _ hs.tail.tail.tail (by omega) (by omega)
      · rw [if_neg (mt (escape_iff hs).mp hesc), percentDecode_plain hesc, hs.head]
        exact put c hs.tail (by omega) (by omega)

theorem percentDecode_length_le (s : List UInt8) : (percentDecode s).length ≤ s.length := by
  fun_induction percentDecode s with
  | case1 | case2 | case3 => exact Nat.le_refl _
  | case4 c a b s _ ih =>
    simp only [List.length_cons]
    omega
  | case5 c a b s _ ih =>
    simp only [List.length_cons] at ih ⊢
    omega

theorem urlDecode_string {m : Mem UInt8} {size : Nat} {s : List UInt8} (h : StringAt m size 0 s) :
    StringAt (urlDecode m size 0 0) size 0 ((percentDecode s).takeWhile (· != 0)) := by
  have hfits := h.fits
  have hlen := percentDecode_length_le s
  have hnone : Holds m 0 ([] : List UInt8) := fun i hi => absurd hi (Nat.not_lt_zero i)
  have hholds := urlDecode_holds size h hnone (Nat.le_refl _) (by omega)
  exact stringAt_of_holds hholds (by omega)

end RapiBootloader.WebDavText
