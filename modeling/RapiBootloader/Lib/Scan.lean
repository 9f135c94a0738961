import Mathlib.Data.List.Basic
import Mathlib.Data.List.TakeWhile

namespace RapiBootloader.Lib.Scan

variable {α β : Type}

/-- A scanner takes a value off the front of a text, and refuses a text that does not start with
one. -/
abbrev Scanner (α β : Type) := List α → Option (β × List α)

/-- The scanner takes `b` off any text that starts with `text`. -/
def Reads (scan : Scanner α β) (text : List α) (b : β) : Prop :=
  ∀ rest, scan (text ++ rest) = some (b, rest)

section
variable [DecidableEq α]

def eat (word text : List α) : Option (List α) :=
  if word <+: text then some (text.drop word.length) else none

@[simp] theorem eat_append (word rest : List α) : eat word (word ++ rest) = some rest := by
  rw [eat, if_pos (List.prefix_append word rest), List.drop_left]

theorem eat_eq_none {word text : List α} (h : ¬ word <+: text) : eat word text = none := if_neg h

end

/-- Values one after the other, until the scanner refuses, with a bound on their number. -/
def many (scan : Scanner α β) : Nat → List α → List β × List α
  | 0, text => ([], text)
  | n + 1, text =>
    match scan text with
    | none => ([], text)
    | some (b, text) =>
      let (bs, text) := many scan n text
      (b :: bs, text)

theorem takeWhile_stop {p : α → Bool} {xs rest : List α} {c : α} (h : ∀ x ∈ xs, p x = true)
    (hc : p c = false) : (xs ++ c :: rest).takeWhile p = xs := by
  rw [List.takeWhile_append_of_pos h, List.takeWhile_cons_of_neg (by simp [hc]), List.append_nil]

theorem dropWhile_stop {p : α → Bool} {xs rest : List α} {c : α} (h : ∀ x ∈ xs, p x = true)
    (hc : p c = false) : (xs ++ c :: rest).dropWhile p = c :: rest := by
  rw [List.dropWhile_append_of_pos h, List.dropWhile_cons_of_neg (by simp [hc])]

section
variable {γ : Type} {render : γ → List α}

/-- What was written item by item is read item by item, up to what is none. -/
theorem many_flatMap {scan : Scanner α β} {value : γ → β} {items : List γ} {last : List α}
    (hreads : ∀ x ∈ items, Reads scan (render x) (value x)) (hlast : scan last = none) {n : Nat}
    (hn : items.length < n) :
    many scan n (items.flatMap render ++ last) = (items.map value, last) := by
  induction items generalizing n with
  | nil =>
    obtain ⟨n, rfl⟩ := Nat.exists_eq_succ_of_ne_zero (Nat.ne_of_gt hn)
    rw [List.flatMap_nil, List.nil_append, many, hlast]
    rfl
  | cons x items ih =>
    obtain ⟨hx, hitems⟩ := List.forall_mem_cons.mp hreads
    cases n with
    | zero => exact absurd hn (Nat.not_lt_zero _)
    | succ n =>
      rw [List.flatMap_cons, List.append_assoc, many, hx]
      dsimp only
      rw [ih hitems (Nat.lt_of_succ_lt_succ hn)]
      rfl

theorem length_le_flatMap {items : List γ} (h : ∀ x ∈ items, render x ≠ []) :
    items.length ≤ (items.flatMap render).length := by
  induction items with
  | nil => exact Nat.zero_le _
  | cons x items ih =>
    obtain ⟨hx, hitems⟩ := List.forall_mem_cons.mp h
    have hpos := List.length_pos_iff.mpr hx
    have hle := ih hitems
    rw [List.flatMap_cons, List.length_append, List.length_cons]
    omega

end

end RapiBootloader.Lib.Scan
