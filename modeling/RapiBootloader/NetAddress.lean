import RapiBootloader.Lib.Overlay
import RapiBootloader.Lib.Strings
import RapiBootloader.Lib.Text
import Mathlib.Data.Fin.VecNotation
import Mathlib.Data.Fintype.Pi
import Mathlib.Tactic.FinCases

namespace RapiBootloader.NetAddress

open Lib.Overlay Lib.Strings Lib.Text

def isSpace (c : UInt8) : Bool := c = 32 || c = 9 || c = 13 || c = 10

abbrev Quad := Fin 4 → UInt8

def isDigit (c : UInt8) : Bool := 48 ≤ c && c ≤ 57

def digit (c : UInt8) : Nat := c.toNat - 48

/-- The digits of one octet, at most three and at most 255. -/
def takeNumber (value digits : Nat) : List UInt8 → Option (Nat × List UInt8)
  | [] => some (value, [])
  | c :: text =>
    if isDigit c then
      if digits + 1 > 3 ∨ value * 10 + digit c > 255 then none
      else takeNumber (value * 10 + digit c) (digits + 1) text
    else some (value, c :: text)

def afterOctet (octet : Fin 4) (text : List UInt8) : Option (List UInt8) :=
  if octet < 3 then
    match text with
    | 46 :: text => some text
    | _ => none
  else some text

/-- The loop over the octets. Each one is stored as soon as its digits are read. -/
def parseOctets (address : Quad) : List (Fin 4) → List UInt8 → Bool × Quad
  | [], text => (text = [], address)
  | octet :: octets, text =>
    if text.head?.any isDigit then
      match takeNumber 0 0 text with
      | none => (false, address)
      | some (value, rest) =>
        let address := Function.update address octet (UInt8.ofNat value)
        match afterOctet octet rest with
        | none => (false, address)
        | some rest => parseOctets address octets rest
    else (false, address)

def parseAddress (text : List UInt8) (address : Quad) : Bool × Quad :=
  parseOctets address [0, 1, 2, 3] (trim isSpace text)

def numeral (digits : List UInt8) : Nat := digits.foldl (fun n c => n * 10 + digit c) 0

def octetOf (digits : List UInt8) : Option UInt8 :=
  if digits ≠ [] ∧ digits.all isDigit ∧ digits.length ≤ 3 ∧ numeral digits ≤ 255 then
    some (UInt8.ofNat (numeral digits))
  else none

/-- Four numbers of 0..255 separated by dots. -/
def dottedQuad (text : List UInt8) : Option Quad :=
  match (trim isSpace text).splitOn 46 with
  | [a, b, c, d] =>
    match octetOf a, octetOf b, octetOf c, octetOf d with
    | some a, some b, some c, some d => some ![a, b, c, d]
    | _, _, _, _ => none
  | _ => none

example : dottedQuad (ascii " 192.168.0.1") = some ![192, 168, 0, 1] := by decide

example : parseAddress (ascii "192.168.") ![10, 0, 0, 1] = (false, ![192, 168, 0, 1]) := by decide

def leadingFrom : List (Fin 4) → List UInt8 → Fin 4 → Option UInt8
  | [], _, _ => none
  | octet :: octets, text, i =>
    if text.head?.any isDigit then
      match takeNumber 0 0 text with
      | none => none
      | some (value, rest) =>
        ((afterOctet octet rest).bind (fun rest => leadingFrom octets rest i)).or
          (if i = octet then some (UInt8.ofNat value) else none)
    else none

/-- The octets a value reaches before it ends or goes wrong. -/
def leading (text : List UInt8) : Fin 4 → Option UInt8 :=
  leadingFrom [0, 1, 2, 3] (trim isSpace text)

theorem overlay_update (address : Quad) (octet : Fin 4) (value : UInt8)
    (p : Fin 4 → Option UInt8) :
    overlay (Function.update address octet value) p =
      overlay address (fun i => (p i).or (if i = octet then some value else none)) := by
  funext i
  simp only [overlay, Function.update_apply]
  cases p i with
  | some x => rfl
  | none => by_cases hi : i = octet <;> simp [hi]

theorem parseOctets_snd (octets : List (Fin 4)) (text : List UInt8) (address : Quad) :
    (parseOctets address octets text).2 = overlay address (leadingFrom octets text) := by
  induction octets generalizing text address with
  | nil => rfl
  | cons octet octets ih =>
    rw [parseOctets]
    by_cases hd : text.head?.any isDigit = true
    · rw [if_pos hd]
      cases ht : takeNumber 0 0 text with
      | none =>
        funext i
        simp [overlay, leadingFrom, hd, ht]
      | some r =>
        obtain ⟨value, rest⟩ := r
        have hlead : leadingFrom (octet :: octets) text = fun i =>
            ((afterOctet octet rest).bind (fun rest => leadingFrom octets rest i)).or
              (if i = octet then some (UInt8.ofNat value) else none) := by
          funext i
          simp only [leadingFrom, hd, ht, if_true]
        rw [hlead]
        dsimp only
        cases afterOctet octet rest with
        | none => exact overlay_update address octet (UInt8.ofNat value) (fun _ => none)
        | some more =>
          dsimp only
          rw [ih, overlay_update]
          rfl
    · rw [if_neg hd]
      funext i
      simp [overlay, leadingFrom, hd]

theorem parseAddress_snd (text : List UInt8) (address : Quad) :
    (parseAddress text address).2 = overlay address (leading text) :=
  parseOctets_snd _ _ _

theorem foldl_digit_le (digits : List UInt8) (n : Nat) :
    n ≤ digits.foldl (fun n c => n * 10 + digit c) n := by
  induction digits generalizing n with
  | nil => exact Nat.le_refl n
  | cons c digits ih => exact Nat.le_trans (by omega) (ih (n * 10 + digit c))

theorem takeNumber_digits (digits rest : List UInt8) (value n : Nat)
    (hd : ∀ c ∈ digits, isDigit c = true) (hn : n + digits.length ≤ 3)
    (hv : digits.foldl (fun n c => n * 10 + digit c) value ≤ 255)
    (hr : rest.head?.any isDigit = false) :
    takeNumber value n (digits ++ rest) =
      some (digits.foldl (fun n c => n * 10 + digit c) value, rest) := by
  induction digits generalizing value n with
  | nil =>
    cases rest with
    | nil => rfl
    | cons c rest =>
      have hc : isDigit c = false := hr
      simp [takeNumber, hc]
  | cons c digits ih =>
    have hc := hd c List.mem_cons_self
    rw [List.length_cons] at hn
    rw [List.foldl_cons] at hv ⊢
    have hle := foldl_digit_le digits (value * 10 + digit c)
    have hok : ¬ (n + 1 > 3 ∨ value * 10 + digit c > 255) := by omega
    rw [List.cons_append, takeNumber, if_pos hc, if_neg hok]
    exact ih _ _ (fun c' hc' => hd c' (List.mem_cons_of_mem c hc')) (by omega) hv

theorem takeNumber_some {text rest : List UInt8} {value n w : Nat} (hn : n ≤ 3) (hv : value ≤ 255)
    (h : takeNumber value n text = some (w, rest)) :
    ∃ digits, text = digits ++ rest ∧ (∀ c ∈ digits, isDigit c = true) ∧
      n + digits.length ≤ 3 ∧ w = digits.foldl (fun n c => n * 10 + digit c) value ∧ w ≤ 255 := by
  induction text generalizing value n with
  | nil =>
    cases h
    exact ⟨[], rfl, by simp, hn, rfl, hv⟩
  | cons c text ih =>
    rw [takeNumber] at h
    split at h
    · rename_i hc
      split at h
      · cases h
      · rename_i hok
        obtain ⟨digits, rfl, hd, hlen, hw, hle⟩ := ih (by omega) (by omega) h
        refine ⟨c :: digits, rfl, ?_, by rw [List.length_cons]; omega, hw, hle⟩
        intro c' hc'
        obtain rfl | hm := List.mem_cons.mp hc'
        · exact hc
        · exact hd c' hm
    · cases h
      exact ⟨[], rfl, by simp, hn, rfl, hv⟩

theorem octetOf_some {digits : List UInt8} {x : UInt8} (h : octetOf digits = some x) :
    digits ≠ [] ∧ (∀ c ∈ digits, isDigit c = true) ∧ digits.length ≤ 3 ∧
      numeral digits ≤ 255 ∧ x = UInt8.ofNat (numeral digits) := by
  simp only [octetOf] at h
  split at h
  · rename_i hok
    obtain ⟨hne, hd, hl, hv⟩ := hok
    exact ⟨hne, List.all_eq_true.mp hd, hl, hv, (Option.some.inj h).symm⟩
  · cases h

theorem dot_notMem {digits : List UInt8} (h : ∀ c ∈ digits, isDigit c = true) : 46 ∉ digits :=
  fun hm => absurd (h 46 hm) (by decide)

theorem parseOctets_octet {digits rest more : List UInt8} {x : UInt8} {octet : Fin 4}
    (hx : octetOf digits = some x) (hr : rest.head?.any isDigit = false)
    (ha : afterOctet octet rest = some more) (address : Quad) (octets : List (Fin 4)) :
    parseOctets address (octet :: octets) (digits ++ rest) =
      parseOctets (Function.update address octet x) octets more := by
  obtain ⟨hne, hd, hl, hv, rfl⟩ := octetOf_some hx
  have hhead : (digits ++ rest).head?.any isDigit = true := by
    obtain ⟨c, tail, rfl⟩ := List.exists_cons_of_ne_nil hne
    exact hd c List.mem_cons_self
  have ht : takeNumber 0 0 (digits ++ rest) = some (numeral digits, rest) :=
    takeNumber_digits digits rest 0 0 hd (by omega) hv hr
  rw [parseOctets, if_pos hhead, ht]
  dsimp only
  rw [ha]

theorem takeNumber_octet {text rest : List UInt8} {value : Nat}
    (hd : text.head?.any isDigit = true) (h : takeNumber 0 0 text = some (value, rest)) :
    ∃ digits, text = digits ++ rest ∧ octetOf digits = some (UInt8.ofNat value) := by
  cases text with
  | nil => cases hd
  | cons c text =>
    have hc : isDigit c = true := hd
    rw [takeNumber, if_pos hc] at h
    split at h
    · cases h
    · rename_i hok
      obtain ⟨digits, rfl, hdig, hlen, hw, hle⟩ := takeNumber_some (by omega) (by omega) h
      have hnum : numeral (c :: digits) = value := hw.symm
      have hall : (c :: digits).all isDigit = true := by
        rw [List.all_cons, hc, List.all_eq_true.mpr hdig, Bool.and_true]
      have hshort : (c :: digits).length ≤ 3 := by
        rw [List.length_cons]
        omega
      refine ⟨c :: digits, rfl, ?_⟩
      rw [octetOf, if_pos ⟨List.cons_ne_nil c digits, hall, hshort, hnum ▸ hle⟩, hnum]

theorem parseOctets_true {address : Quad} {octet : Fin 4} {octets : List (Fin 4)}
    {text : List UInt8} (h : (parseOctets address (octet :: octets) text).1 = true) :
    ∃ digits x rest more, text = digits ++ rest ∧ octetOf digits = some x ∧
      afterOctet octet rest = some more ∧
      (parseOctets (Function.update address octet x) octets more).1 = true := by
  rw [parseOctets] at h
  split at h
  · rename_i hd
    split at h
    · cases h
    · rename_i value rest ht
      obtain ⟨digits, htext, hx⟩ := takeNumber_octet hd ht
      dsimp only at h
      split at h
      · cases h
      · rename_i more ha
        exact ⟨digits, _, rest, more, htext, hx, ha, h⟩
  · cases h

theorem afterOctet_dot {octet : Fin 4} {rest more : List UInt8} (ho : octet < 3)
    (h : afterOctet octet rest = some more) : rest = 46 :: more := by
  simp only [afterOctet] at h
  rw [if_pos ho] at h
  split at h
  · rw [Option.some.injEq] at h
    rw [h]
  · cases h

theorem dottedQuad_of_parts {text a b c d : List UInt8} {w x y z : UInt8}
    (ht : trim isSpace text = a ++ 46 :: (b ++ 46 :: (c ++ 46 :: d))) (ha : octetOf a = some w)
    (hb : octetOf b = some x) (hc : octetOf c = some y) (hd : octetOf d = some z) :
    dottedQuad text = some ![w, x, y, z] := by
  have hsplit : (trim isSpace text).splitOn 46 = [a, b, c, d] := by
    rw [ht, List.splitOn_append_cons_self_of_not_mem (dot_notMem (octetOf_some ha).2.1),
      List.splitOn_append_cons_self_of_not_mem (dot_notMem (octetOf_some hb).2.1),
      List.splitOn_append_cons_self_of_not_mem (dot_notMem (octetOf_some hc).2.1),
      List.splitOn_eq_singleton (dot_notMem (octetOf_some hd).2.1)]
  rw [dottedQuad, hsplit]
  simp only [ha, hb, hc, hd]

theorem parts_of_dottedQuad {text : List UInt8} {q : Quad} (h : dottedQuad text = some q) :
    ∃ a b c d w x y z, trim isSpace text = a ++ 46 :: (b ++ 46 :: (c ++ 46 :: d)) ∧
      octetOf a = some w ∧ octetOf b = some x ∧ octetOf c = some y ∧ octetOf d = some z ∧
      q = ![w, x, y, z] := by
  simp only [dottedQuad] at h
  split at h
  · rename_i a b c d hs
    split at h
    · rename_i w x y z ha hb hc hd
      have hjoin : [46].intercalate ((trim isSpace text).splitOn 46) = trim isSpace text :=
        List.intercalate_splitOn 46
      rw [hs] at hjoin
      refine ⟨a, b, c, d, w, x, y, z, ?_, ha, hb, hc, hd, (Option.some.inj h).symm⟩
      rw [← hjoin]
      simp [List.intercalate, List.intersperse]
    · cases h
  · cases h

theorem parseAddress_quad {text : List UInt8} {q : Quad} (h : dottedQuad text = some q)
    (address : Quad) : parseAddress text address = (true, q) := by
  obtain ⟨a, b, c, d, w, x, y, z, ht, ha, hb, hc, hd, rfl⟩ := parts_of_dottedQuad h
  rw [parseAddress, ht, parseOctets_octet ha rfl rfl, parseOctets_octet hb rfl rfl,
    parseOctets_octet hc rfl rfl]
  have hlast : ∀ address, parseOctets address [3] (d ++ []) =
      parseOctets (Function.update address 3 z) [] [] :=
    fun address => parseOctets_octet hd rfl rfl address []
  rw [List.append_nil] at hlast
  rw [hlast, parseOctets]
  refine Prod.ext rfl ?_
  funext i
  fin_cases i <;> rfl

/-- Nothing else is taken for an address. -/
theorem dottedQuad_of_parseAddress {text : List UInt8} {address : Quad}
    (h : (parseAddress text address).1 = true) : (dottedQuad text).isSome = true := by
  obtain ⟨a, w, ra, ma, ht, ha, haf, h⟩ := parseOctets_true h
  obtain ⟨b, x, rb, mb, htb, hb, hbf, h⟩ := parseOctets_true h
  obtain ⟨c, y, rc, mc, htc, hc, hcf, h⟩ := parseOctets_true h
  obtain ⟨d, z, rd, md, htd, hd, hdf, h⟩ := parseOctets_true h
  have hend : md = [] := by simpa [parseOctets] using h
  have hrd : rd = [] := by
    cases hdf
    exact hend
  rw [afterOctet_dot (by decide) haf, htb, afterOctet_dot (by decide) hbf, htc,
    afterOctet_dot (by decide) hcf, htd, hrd, List.append_nil] at ht
  rw [dottedQuad_of_parts ht ha hb hc hd]
  rfl

theorem parseAddress_fst (text : List UInt8) (address : Quad) :
    (parseAddress text address).1 = (dottedQuad text).isSome := by
  cases hq : dottedQuad text with
  | some q => rw [parseAddress_quad hq]; rfl
  | none =>
    cases hp : (parseAddress text address).1 with
    | false => rfl
    | true =>
      have hsome := dottedQuad_of_parseAddress hp
      rw [hq] at hsome
      cases hsome

theorem leading_quad {text : List UInt8} {q : Quad} (h : dottedQuad text = some q) :
    leading text = fun i => some (q i) := by
  funext i
  have hall : ∀ address : Quad, overlay address (leading text) i = q i := fun address => by
    rw [← parseAddress_snd, parseAddress_quad h]
  cases hl : leading text i with
  | some x =>
    have hx := hall q
    rw [overlay, hl] at hx
    exact congrArg some hx
  | none =>
    have hx := hall (fun _ => q i + 1)
    rw [overlay, hl, Option.getD_none] at hx
    exact absurd hx (by simp)

end RapiBootloader.NetAddress
