import RapiBootloader.Lib.Window
import RapiBootloader.WebDavText

namespace RapiBootloader.UrlBuffer

open Lib.Window Lib.Strings Lib.CLibrary WebDavText

/-- The test for an escape. What stands behind a character is read only if that one fits. -/
def testEscape (b : Buffer UInt8) (pIn : Nat) : Option (Bool × Buffer UInt8) :=
  (b.load pIn).bind (fun (c, b) =>
    if c ≠ 37 then some (false, b)
    else (b.load (pIn + 1)).bind (fun (high, b) =>
      if !isHexDigit high then some (false, b)
      else (b.load (pIn + 2)).map (fun (low, b) => (isHexDigit low, b))))

def loadEscape (b : Buffer UInt8) (pIn : Nat) : Option (UInt8 × Buffer UInt8) :=
  (b.load (pIn + 1)).bind (fun (high, b) =>
    (b.load (pIn + 2)).map (fun (low, b) => (hexValue high * 16 + hexValue low, b)))

/-- The loop of `UrlDecode` with a bound on its turns. There is no result if it reads what it must
not read, or writes where it has not read yet. -/
def urlDecode : Nat → Nat → Nat → Buffer UInt8 → Option (Buffer UInt8)
  | 0, _, _, _ => none
  | fuel + 1, pIn, pOut, b =>
    (b.load pIn).bind (fun (c, b) =>
      if c = 0 then b.store pOut 0
      else (testEscape b pIn).bind (fun (escape, b) =>
        if escape then
          (loadEscape b pIn).bind (fun (c, b) =>
            (b.store pOut c).bind (urlDecode fuel (pIn + 3) (pOut + 1)))
        else
          (b.load pIn).bind (fun (c, b) =>
            (b.store pOut c).bind (urlDecode fuel (pIn + 1) (pOut + 1)))))

/-- A C string of which nothing has been read, in memory of which nothing else may be read. -/
def bufferOf (p : Nat) (text : List UInt8) : Buffer UInt8 := ⟨window p (text ++ [0]), 0⟩

def IsDigitOf (n : Nat) (c : UInt8) : Prop :=
  (ascii "0123456789abcdef")[n]? = some c ∨ (ascii "0123456789ABCDEF")[n]? = some c

/-- Each `%` is written as an escape, and so may be any other character. -/
inductive Encodes : List UInt8 → List UInt8 → Prop
  | nil : Encodes [] []
  | plain {c : UInt8} {s e : List UInt8} (hc : c ≠ 37) (h : Encodes s e) : Encodes (c :: s) (c :: e)
  | escaped {c high low : UInt8} {s e : List UInt8} (hhigh : IsDigitOf (c.toNat / 16) high)
      (hlow : IsDigitOf (c.toNat % 16) low) (h : Encodes s e) :
      Encodes (c :: s) (37 :: high :: low :: e)

theorem hexValue_of_isDigitOf {n : Nat} {c : UInt8} (h : IsDigitOf n c) :
    isHexDigit c = true ∧ (hexValue c).toNat = n ∧ c ≠ 0 := by
  have hlower : ∀ d ∈ (ascii "0123456789abcdef").zipIdx,
      isHexDigit d.1 = true ∧ (hexValue d.1).toNat = d.2 ∧ d.1 ≠ 0 := by decide
  have hupper : ∀ d ∈ (ascii "0123456789ABCDEF").zipIdx,
      isHexDigit d.1 = true ∧ (hexValue d.1).toNat = d.2 ∧ d.1 ≠ 0 := by decide
  obtain h | h := h
  · exact hlower (c, n) (List.mem_zipIdx_iff_getElem?.mpr h)
  · exact hupper (c, n) (List.mem_zipIdx_iff_getElem?.mpr h)

theorem Encodes.percentDecode {s e : List UInt8} (h : Encodes s e) :
    WebDavText.percentDecode e = s := by
  induction h with
  | nil => rfl
  | plain hc _ ih =>
    rw [percentDecode_plain, ih]
    rintro ⟨a, b, t, heq, -, -⟩
    cases heq
    exact hc rfl
  | @escaped c high low s e hhigh hlow _ ih =>
    obtain ⟨hhex, hvalue, -⟩ := hexValue_of_isDigitOf hhigh
    obtain ⟨hhex', hvalue', -⟩ := hexValue_of_isDigitOf hlow
    have hbyte : hexValue high * 16 + hexValue low = c := by
      apply UInt8.toNat_inj.mp
      have hlt := c.toNat_lt
      have h16 : UInt8.toNat 16 = 16 := rfl
      rw [UInt8.toNat_add, UInt8.toNat_mul, hvalue, hvalue', h16]
      omega
    rw [percentDecode_escape hhex hhex', ih, hbyte]

theorem Encodes.nul_notMem {s e : List UInt8} (h : Encodes s e) (hs : 0 ∉ s) : 0 ∉ e := by
  induction h with
  | nil => exact hs
  | plain _ _ ih =>
    rw [List.mem_cons, not_or] at hs ⊢
    exact ⟨hs.1, ih hs.2⟩
  | escaped hhigh hlow _ ih =>
    rw [List.mem_cons, not_or] at hs
    simp only [List.mem_cons, not_or]
    exact ⟨by decide, Ne.symm (hexValue_of_isDigitOf hhigh).2.2,
      Ne.symm (hexValue_of_isDigitOf hlow).2.2, ih hs.2⟩

section

variable {w : Cells UInt8} {b : Buffer UInt8} {pIn : Nat}

theorem testEscape_sees {c : UInt8} {t : List UInt8} (hb : b.cells = w)
    (h : Sees w pIn (c :: (t ++ [0]))) :
    ∃ escape d, testEscape b pIn = some (escape, d) ∧ (escape = true ↔ Escape (c :: t)) ∧
      d.cells = w := by
  have hnone : ∀ {d : Buffer UInt8}, d.cells = w → ¬ Escape (c :: t) →
      ∃ escape d', some (false, d) = some (escape, d') ∧ (escape = true ↔ Escape (c :: t)) ∧
        d'.cells = w :=
    fun {d} hd hno => ⟨false, d, rfl, iff_of_false Bool.false_ne_true hno, hd⟩
  obtain ⟨b₁, hload₁, hcells₁, -⟩ := Buffer.load_sees hb h
  rw [testEscape, hload₁, Option.bind_some]
  dsimp only
  by_cases hc : c ≠ 37
  · rw [if_pos hc]
    apply hnone hcells₁
    rintro ⟨_, _, _, heq, -, -⟩
    cases heq
    exact hc rfl
  rw [if_neg hc]
  cases t with
  | nil =>
    obtain ⟨b₂, hload₂, hcells₂, -⟩ := Buffer.load_sees hcells₁ h.tail
    rw [hload₂]
    apply hnone hcells₂
    rintro ⟨_, _, _, heq, -, -⟩
    cases heq
  | cons high u =>
    obtain ⟨b₂, hload₂, hcells₂, -⟩ := Buffer.load_sees hcells₁ h.tail
    rw [hload₂, Option.bind_some]
    dsimp only
    cases hhigh : isHexDigit high with
    | false =>
      apply hnone hcells₂
      rintro ⟨_, _, _, heq, hhex, -⟩
      cases heq
      rw [hhigh] at hhex
      cases hhex
    | true =>
      rw [Bool.not_true, if_neg Bool.false_ne_true]
      cases u with
      | nil =>
        obtain ⟨b₃, hload₃, hcells₃, -⟩ := Buffer.load_sees hcells₂ h.tail.tail
        rw [hload₃]
        apply hnone hcells₃
        rintro ⟨_, _, _, heq, -, -⟩
        cases heq
      | cons low v =>
        obtain ⟨b₃, hload₃, hcells₃, -⟩ := Buffer.load_sees hcells₂ h.tail.tail
        rw [hload₃]
        refine ⟨isHexDigit low, b₃, rfl, ?_, hcells₃⟩
        constructor
        · intro hlow
          rw [not_not] at hc
          exact ⟨high, low, v, by rw [hc], hhigh, hlow⟩
        · rintro ⟨_, _, _, heq, -, hlow⟩
          cases heq
          exact hlow

theorem loadEscape_sees {c high low : UInt8} {t : List UInt8} (hb : b.cells = w)
    (h : Sees w pIn (c :: high :: low :: t)) :
    ∃ d, loadEscape b pIn = some (hexValue high * 16 + hexValue low, d) ∧ d.cells = w ∧
      pIn + 2 < d.seen := by
  obtain ⟨b₁, hload₁, hcells₁, -⟩ := Buffer.load_sees hb h.tail
  obtain ⟨b₂, hload₂, hcells₂, hseen⟩ := Buffer.load_sees hcells₁ h.tail.tail
  rw [loadEscape, hload₁, Option.bind_some]
  dsimp only
  rw [hload₂]
  exact ⟨b₂, rfl, hcells₂, hseen⟩

/-- The write position stays behind the read position, so the loop comes to the terminator and
leaves the decoded string. -/
theorem urlDecode_sees {start : Nat} (fuel : Nat) {t done : List UInt8} (hb : b.cells = w)
    (ht : 0 ∉ t) (hs : Sees w pIn (t ++ [0])) (hd : Sees w start done)
    (hle : start + done.length ≤ pIn) (hfuel : t.length < fuel) :
    ∃ d, urlDecode fuel pIn (start + done.length) b = some d ∧
      Sees d.cells start (done ++ percentDecode t ++ [0]) := by
  induction fuel generalizing w b pIn t done with
  | zero => exact absurd hfuel (Nat.not_lt_zero _)
  | succ fuel ih =>
    have put : ∀ {d : Buffer UInt8} {q : Nat} {u : List UInt8} (c : UInt8), d.cells = w →
        pIn < d.seen → 0 ∉ u → Sees w q (u ++ [0]) → pIn < q → u.length < fuel →
        ∃ d', (d.store (start + done.length) c).bind
            (urlDecode fuel q (start + done.length + 1)) = some d' ∧
          Sees d'.cells start (done ++ c :: percentDecode u ++ [0]) := by
      intro d q u c hcells hseen hu hq hlt hlen
      obtain ⟨d', hstore, hd'⟩ := Buffer.store_seen hcells (Nat.lt_of_le_of_lt hle hseen) c
      have hbefore : start + done.length < q := Nat.lt_of_le_of_lt hle hlt
      have hnext : start + (done ++ [c]).length ≤ q := by
        rw [List.length_append, List.length_singleton]
        omega
      obtain ⟨d'', hrun, hend⟩ := ih hd' hu (hq.update_before hbefore c) (hd.concat c) hnext hlen
      refine ⟨d'', ?_, ?_⟩
      · rw [hstore, Option.bind_some]
        simpa [← Nat.add_assoc] using hrun
      · simpa using hend
    cases t with
    | nil =>
      obtain ⟨b₁, hload, hcells, hseen⟩ := Buffer.load_sees hb hs
      obtain ⟨d, hstore, hd'⟩ := Buffer.store_seen hcells (Nat.lt_of_le_of_lt hle hseen) 0
      rw [urlDecode, hload, Option.bind_some]
      dsimp only
      rw [if_pos rfl, hstore]
      refine ⟨d, rfl, ?_⟩
      rw [hd', percentDecode, List.append_nil]
      exact hd.concat 0
    | cons c t =>
      rw [List.mem_cons, not_or] at ht
      rw [List.length_cons] at hfuel
      obtain ⟨b₁, hload₁, hcells₁, -⟩ := Buffer.load_sees hb hs
      obtain ⟨escape, b₂, htest, hescape, hcells₂⟩ := testEscape_sees hcells₁ hs
      rw [urlDecode, hload₁, Option.bind_some]
      dsimp only
      rw [if_neg (Ne.symm ht.1), htest, Option.bind_some]
      dsimp only
      by_cases hesc : Escape (c :: t)
      · rw [if_pos (hescape.mpr hesc)]
        obtain ⟨high, low, u, heq, hhigh, hlow⟩ := hesc
        cases heq
        obtain ⟨b₃, hvalue, hcells₃, hseen⟩ := loadEscape_sees hcells₂ hs
        have hpast : pIn < b₃.seen := by omega
        rw [hvalue, Option.bind_some, percentDecode_escape hhigh hlow]
        simp only [List.length_cons] at hfuel
        simp only [List.mem_cons, not_or] at ht
        exact put _ hcells₃ hpast ht.2.2.2 hs.tail.tail.tail (by omega) (by omega)
      · rw [if_neg (mt hescape.mp hesc), percentDecode_plain hesc]
        obtain ⟨b₃, hload₃, hcells₃, hseen⟩ := Buffer.load_sees hcells₂ hs
        rw [hload₃, Option.bind_some]
        exact put c hcells₃ hseen ht.2 hs.tail (Nat.lt_succ_self pIn) (by omega)

end

theorem urlDecode_bufferOf {p : Nat} {t : List UInt8} (ht : 0 ∉ t) {fuel : Nat}
    (hfuel : t.length < fuel) :
    ∃ d, urlDecode fuel p p (bufferOf p t) = some d ∧ Sees d.cells p (percentDecode t ++ [0]) :=
  @urlDecode_sees _ (bufferOf p t) p p fuel t [] rfl ht (sees_window p (t ++ [0]))
    (fun i hi => absurd hi (Nat.not_lt_zero i)) (Nat.le_refl p) hfuel

/-- `UrlDecode` reads nothing behind the terminator of a string, whatever the string ends in, and
writes nowhere it has not read yet. What was encoded it gives back. -/
theorem url_decode_inverts (p : Nat) :
    (∀ t, 0 ∉ t → ∀ fuel, t.length < fuel →
      (urlDecode fuel p p (bufferOf p t)).isSome = true) ∧
    ∀ s e, 0 ∉ s → Encodes s e → ∀ fuel, e.length < fuel →
      ∃ d, urlDecode fuel p p (bufferOf p e) = some d ∧ Sees d.cells p (s ++ [0]) := by
  constructor
  · intro t ht fuel hfuel
    obtain ⟨d, hd, -⟩ := urlDecode_bufferOf (p := p) ht hfuel
    rw [hd]
    rfl
  · intro s e hs he fuel hfuel
    have hdecoded := urlDecode_bufferOf (p := p) (he.nul_notMem hs) hfuel
    rwa [he.percentDecode] at hdecoded

/-- Digits of either case, and a string that breaks off in the middle of an escape. -/
theorem url_decode_inverts_cases :
    (urlDecode 5 7 7 (bufferOf 7 (ascii "50%4"))).isSome = true ∧
      ∃ d, urlDecode 8 7 7 (bufferOf 7 (ascii "%4fb%2F")) = some d ∧
        Sees d.cells 7 (ascii "Ob/" ++ [0]) :=
  ⟨(url_decode_inverts 7).1 (ascii "50%4") (by decide) 5 (by decide),
    (url_decode_inverts 7).2 (ascii "Ob/") (ascii "%4fb%2F") (by decide)
      (.escaped (Or.inl rfl) (Or.inl rfl)
        (.plain (by decide) (.escaped (Or.inl rfl) (Or.inr rfl) .nil))) 8 (by decide)⟩

/-- What the server's decoder leaves is what is left here. -/
theorem urlDecode_agrees {m : Lib.Memory.Mem UInt8} {size : Nat} {t : List UInt8}
    (h : StringAt m size 0 t) :
    ∃ d, urlDecode size 0 0 (bufferOf 0 t) = some d ∧
      Sees d.cells 0 (Lib.Memory.read (WebDavText.urlDecode m size 0 0) 0
        (percentDecode t ++ [0]).length) := by
  have hnone : Lib.Memory.Holds m 0 ([] : List UInt8) := fun i hi => absurd hi (Nat.not_lt_zero i)
  have hfits := h.fits
  rw [Nat.zero_add] at hfits
  have hholds : Lib.Memory.Holds (WebDavText.urlDecode m size 0 0) 0
      ([] ++ percentDecode t ++ [0]) :=
    urlDecode_holds size h hnone (Nat.le_refl _) hfits
  obtain ⟨d, hd, hsees⟩ := @urlDecode_bufferOf 0 t h.noNul size hfits
  refine ⟨d, hd, ?_⟩
  rw [List.nil_append] at hholds
  rw [hholds.read_eq]
  exact hsees

end RapiBootloader.UrlBuffer
