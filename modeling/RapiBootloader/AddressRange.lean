import RapiBootloader.Lib.Window
import RapiBootloader.NetAddress

namespace RapiBootloader.AddressRange

open Lib.Window Lib.Strings Lib.Text NetAddress

variable (w : Cells UInt8)

/-- There is a character left, and it is a digit. -/
def atDigit (p : Nat) : Nat → Option Bool
  | 0 => some false
  | _ + 1 => (w p).map isDigit

/-- The digits of one octet from `p` on, where so many characters are left. The result is a refusal
or the value and the range behind it. -/
def readNumber (value digits p : Nat) : Nat → Option (Option (Nat × Nat × Nat))
  | 0 => some (some (value, p, 0))
  | n + 1 => (w p).bind (fun c =>
    if isDigit c then
      if digits + 1 > 3 ∨ value * 10 + digit c > 255 then some none
      else readNumber (value * 10 + digit c) (digits + 1) (p + 1) n
    else some (some (value, p, n + 1)))

def readDot (octet : Fin 4) (p : Nat) : Nat → Option (Option (Nat × Nat))
  | 0 => some (if octet.val < 3 then none else some (p, 0))
  | n + 1 =>
    if octet.val < 3 then (w p).map (fun c => if c = 46 then some (p + 1, n) else none)
    else some (some (p, n + 1))

def parseOctets (address : Quad) : List (Fin 4) → Nat × Nat → Option (Bool × Quad)
  | [], r => some (r.2 = 0, address)
  | octet :: octets, r =>
    (atDigit w r.1 r.2).bind (fun starts =>
      if !starts then some (false, address)
      else (readNumber w 0 0 r.1 r.2).bind (fun
        | none => some (false, address)
        | some (value, r) =>
          let address := Function.update address octet (UInt8.ofNat value)
          (readDot w octet r.1 r.2).bind (fun
            | none => some (false, address)
            | some r => parseOctets address octets r)))

/-- `ParseAddress` on the range of `n` characters from `p` on. There is no result if it reads a
character it must not read. -/
def parseAddress (address : Quad) (p n : Nat) : Option (Bool × Quad) :=
  (skip isSpace w p n).bind (fun r =>
    (cut isSpace w r.1 r.2).bind (fun r => parseOctets w address (List.finRange 4) r))

variable {w}

theorem atDigit_spans {r : Nat × Nat} {text : List UInt8} (h : Spans w r text) :
    atDigit w r.1 r.2 = some (text.head?.any isDigit) := by
  obtain ⟨p, n⟩ := r
  obtain ⟨hn, hs⟩ := h
  dsimp only at hn hs
  subst hn
  cases text with
  | nil => rfl
  | cons c text =>
    rw [List.length_cons, atDigit, hs.head]
    rfl

theorem readNumber_sees {value digits p : Nat} {text : List UInt8} (h : Sees w p text) :
    match takeNumber value digits text with
    | none => readNumber w value digits p text.length = some none
    | some (v, rest) => ∃ r, readNumber w value digits p text.length = some (some (v, r)) ∧
        Spans w r rest := by
  induction text generalizing value digits p with
  | nil => exact ⟨(p, 0), rfl, rfl, h⟩
  | cons c text ih =>
    rw [List.length_cons, readNumber, h.head, Option.bind_some, takeNumber]
    by_cases hc : isDigit c = true
    · rw [if_pos hc, if_pos hc]
      by_cases hbad : digits + 1 > 3 ∨ value * 10 + digit c > 255
      · rw [if_pos hbad, if_pos hbad]
      · rw [if_neg hbad, if_neg hbad]
        exact ih h.tail
    · rw [if_neg hc, if_neg hc]
      exact ⟨_, rfl, rfl, h⟩

theorem afterOctet_cons {octet : Fin 4} (ho : octet < 3) (c : UInt8) (text : List UInt8) :
    afterOctet octet (c :: text) = if c = 46 then some text else none := by
  by_cases hc : c = 46
  · subst hc
    rw [if_pos rfl]
    exact if_pos ho
  · rw [if_neg hc]
    simp only [afterOctet]
    rw [if_pos ho]
    split
    · rename_i heq
      cases heq
      exact absurd rfl hc
    · rfl

theorem readDot_spans (octet : Fin 4) {r : Nat × Nat} {text : List UInt8} (h : Spans w r text) :
    match afterOctet octet text with
    | none => readDot w octet r.1 r.2 = some none
    | some rest => ∃ r', readDot w octet r.1 r.2 = some (some r') ∧ Spans w r' rest := by
  obtain ⟨p, n⟩ := r
  obtain ⟨hn, hs⟩ := h
  dsimp only at hn hs
  subst hn
  by_cases ho : octet < 3
  · have ho' : octet.val < 3 := ho
    cases text with
    | nil =>
      have hnone : afterOctet octet [] = none := if_pos ho
      rw [hnone]
      dsimp only
      rw [List.length_nil, readDot, if_pos ho']
    | cons c text =>
      rw [List.length_cons, readDot, if_pos ho', hs.head, Option.map_some, afterOctet_cons ho]
      by_cases hc : c = 46
      · rw [if_pos hc, if_pos hc]
        exact ⟨_, rfl, rfl, hs.tail⟩
      · rw [if_neg hc, if_neg hc]
  · have ho' : ¬ octet.val < 3 := ho
    have hall : afterOctet octet text = some text := if_neg ho
    rw [hall]
    dsimp only
    cases text with
    | nil =>
      rw [List.length_nil, readDot, if_neg ho']
      exact ⟨_, rfl, rfl, hs⟩
    | cons c text =>
      rw [List.length_cons, readDot, if_neg ho']
      exact ⟨_, rfl, rfl, hs⟩

theorem parseOctets_spans (octets : List (Fin 4)) {r : Nat × Nat} {text : List UInt8}
    (h : Spans w r text) (address : Quad) :
    parseOctets w address octets r = some (NetAddress.parseOctets address octets text) := by
  induction octets generalizing r text address with
  | nil =>
    have hempty : (r.2 = 0) = (text = []) := by
      rw [h.1]
      exact propext List.length_eq_zero_iff
    simp only [parseOctets, NetAddress.parseOctets, hempty]
  | cons octet octets ih =>
    rw [parseOctets, atDigit_spans h, Option.bind_some, NetAddress.parseOctets]
    by_cases hd : text.head?.any isDigit = true
    · rw [hd, if_pos rfl, Bool.not_true, if_neg Bool.false_ne_true]
      have hnumber := @readNumber_sees w 0 0 r.1 text h.2
      rw [← h.1] at hnumber
      cases ht : takeNumber 0 0 text with
      | none =>
        rw [ht] at hnumber
        dsimp only at hnumber
        rw [hnumber]
        rfl
      | some value =>
        obtain ⟨value, rest⟩ := value
        rw [ht] at hnumber
        obtain ⟨r', hread, hrest⟩ := hnumber
        rw [hread, Option.bind_some]
        dsimp only
        have hdot := readDot_spans octet hrest
        cases ha : afterOctet octet rest with
        | none =>
          rw [ha] at hdot
          dsimp only at hdot
          rw [hdot]
          rfl
        | some more =>
          rw [ha] at hdot
          obtain ⟨r'', hread', hmore⟩ := hdot
          rw [hread', Option.bind_some]
          exact ih hmore _
    · rw [Bool.not_eq_true] at hd
      rw [hd]
      rfl

/-- In memory of which nothing but the range can be read `ParseAddress` has a result. -/
theorem parseAddress_sees {p : Nat} {text : List UInt8} (h : Sees w p text) (address : Quad) :
    parseAddress w address p text.length = some (NetAddress.parseAddress text address) := by
  obtain ⟨r, hskip, hlength, hs⟩ := skip_spans (q := isSpace) h
  obtain ⟨r', hcut, hr'⟩ := cut_spans (q := isSpace) hs
  rw [parseAddress, hskip, Option.bind_some, hlength, hcut, Option.bind_some,
    parseOctets_spans (List.finRange 4) hr' address]
  rfl

/-- Trimmed, the text is four groups of digits with dots between them. -/
structure FourGroups (text : List UInt8) (groups : Fin 4 → List UInt8) : Prop where
  text : trim isSpace text = groups 0 ++ 46 :: (groups 1 ++ 46 :: (groups 2 ++ 46 :: groups 3))
  someDigit : ∀ i, groups i ≠ []
  short : ∀ i, (groups i).length ≤ 3
  digits : ∀ i, ∀ c ∈ groups i, isDigit c = true
  small : ∀ i, numeral (groups i) ≤ 255

theorem FourGroups.octetOf {text : List UInt8} {groups : Fin 4 → List UInt8}
    (h : FourGroups text groups) (i : Fin 4) :
    NetAddress.octetOf (groups i) = some (UInt8.ofNat (numeral (groups i))) :=
  if_pos ⟨h.someDigit i, List.all_eq_true.mpr (h.digits i), h.short i, h.small i⟩

theorem FourGroups.dottedQuad {text : List UInt8} {groups : Fin 4 → List UInt8}
    (h : FourGroups text groups) :
    ∃ q : Quad, NetAddress.dottedQuad text = some q ∧ ∀ i, (q i).toNat = numeral (groups i) := by
  refine ⟨_, dottedQuad_of_parts h.text (h.octetOf 0) (h.octetOf 1) (h.octetOf 2) (h.octetOf 3), ?_⟩
  have hvalue : ∀ i, (UInt8.ofNat (numeral (groups i))).toNat = numeral (groups i) := by
    intro i
    have hsmall := h.small i
    rw [UInt8.toNat_ofNat']
    omega
  intro i
  fin_cases i
  · exact hvalue 0
  · exact hvalue 1
  · exact hvalue 2
  · exact hvalue 3

theorem fourGroups_of_dottedQuad {text : List UInt8} {q : Quad}
    (h : NetAddress.dottedQuad text = some q) : ∃ groups, FourGroups text groups := by
  obtain ⟨a, b, c, d, _, _, _, _, ht, ha, hb, hc, hd, -⟩ := parts_of_dottedQuad h
  have hgroup : ∀ i, ∃ x, NetAddress.octetOf (![a, b, c, d] i) = some x := by
    intro i
    fin_cases i
    · exact ⟨_, ha⟩
    · exact ⟨_, hb⟩
    · exact ⟨_, hc⟩
    · exact ⟨_, hd⟩
  refine ⟨![a, b, c, d], ht, ?_, ?_, ?_, ?_⟩
  all_goals
    intro i
    obtain ⟨x, hx⟩ := hgroup i
    obtain ⟨hne, hdigits, hshort, hsmall, -⟩ := octetOf_some hx
    assumption

/-- `ParseAddress` accepts a range just when it is a dotted quad, and then has its four values. It
reads nothing outside the range. -/
theorem parse_address_exact (p : Nat) (text : List UInt8) (address : Quad) :
    ∃ accepted result,
      parseAddress (window p text) address p text.length = some (accepted, result) ∧
      (accepted = true ↔ ∃ groups, FourGroups text groups) ∧
      ∀ groups, FourGroups text groups → ∀ i, (result i).toNat = numeral (groups i) := by
  refine ⟨(NetAddress.parseAddress text address).1, (NetAddress.parseAddress text address).2,
    parseAddress_sees (sees_window p text) address, ?_, ?_⟩
  · rw [parseAddress_fst]
    constructor
    · intro hsome
      obtain ⟨q, hq⟩ := Option.isSome_iff_exists.mp hsome
      exact fourGroups_of_dottedQuad hq
    · rintro ⟨groups, hgroups⟩
      obtain ⟨q, hq, -⟩ := hgroups.dottedQuad
      rw [hq]
      rfl
  · intro groups hgroups
    obtain ⟨q, hq, hvalues⟩ := hgroups.dottedQuad
    rw [parseAddress_quad hq]
    exact hvalues

end RapiBootloader.AddressRange
