import Mathlib.Data.List.DropRight
import Mathlib.Data.List.Basic
import Mathlib.Logic.Function.Basic

namespace RapiBootloader.Lib.Window

variable {α : Type}

/-- Memory of which only some cells may be read. -/
abbrev Cells (α : Type) := Nat → Option α

def window (p : Nat) (xs : List α) : Cells α := fun i => if p ≤ i then xs[i - p]? else none

def Sees (w : Cells α) (p : Nat) (xs : List α) : Prop :=
  ∀ i (h : i < xs.length), w (p + i) = some xs[i]

theorem sees_window (p : Nat) (xs : List α) : Sees (window p xs) p xs := by
  intro i hi
  rw [window, if_pos (Nat.le_add_right p i), Nat.add_sub_cancel_left, List.getElem?_eq_getElem hi]

theorem Sees.head {w : Cells α} {p : Nat} {x : α} {xs : List α} (h : Sees w p (x :: xs)) :
    w p = some x := h 0 (Nat.zero_lt_succ _)

theorem Sees.tail {w : Cells α} {p : Nat} {x : α} {xs : List α} (h : Sees w p (x :: xs)) :
    Sees w (p + 1) xs := by
  intro i hi
  have hcell := h (i + 1) (Nat.succ_lt_succ hi)
  rwa [← Nat.add_assoc, Nat.add_right_comm] at hcell

theorem Sees.init {w : Cells α} {p : Nat} {xs ys : List α} (h : Sees w p (xs ++ ys)) :
    Sees w p xs := by
  intro i hi
  have hcell := h i (by rw [List.length_append]; omega)
  rwa [List.getElem_append_left hi] at hcell

theorem Sees.last {w : Cells α} {p : Nat} {x : α} {xs : List α} (h : Sees w p (xs ++ [x])) :
    w (p + xs.length) = some x := by
  have hcell := h xs.length (by rw [List.length_append, List.length_singleton]; omega)
  rwa [List.getElem_concat_length rfl] at hcell

/-- A range, by its start and its length, that can be read and reads as this. -/
def Spans (w : Cells α) (r : Nat × Nat) (xs : List α) : Prop := r.2 = xs.length ∧ Sees w r.1 xs

def skip (q : α → Bool) (w : Cells α) : Nat → Nat → Option (Nat × Nat)
  | p, 0 => some (p, 0)
  | p, n + 1 => (w p).bind (fun c => if q c then skip q w (p + 1) n else some (p, n + 1))

def cut (q : α → Bool) (w : Cells α) (p : Nat) : Nat → Option (Nat × Nat)
  | 0 => some (p, 0)
  | n + 1 => (w (p + n)).bind (fun c => if q c then cut q w p n else some (p, n + 1))

variable {q : α → Bool} {w : Cells α}

theorem skip_spans {p : Nat} {xs : List α} (h : Sees w p xs) :
    ∃ r, skip q w p xs.length = some r ∧ Spans w r (xs.dropWhile q) := by
  induction xs generalizing p with
  | nil => exact ⟨(p, 0), rfl, rfl, h⟩
  | cons x xs ih =>
    rw [List.length_cons, skip, h.head, Option.bind_some]
    by_cases hq : q x = true
    · rw [if_pos hq, List.dropWhile_cons_of_pos hq]
      exact ih h.tail
    · rw [if_neg hq, List.dropWhile_cons_of_neg hq]
      exact ⟨_, rfl, rfl, h⟩

theorem cut_spans {p : Nat} {xs : List α} (h : Sees w p xs) :
    ∃ r, cut q w p xs.length = some r ∧ Spans w r (xs.rdropWhile q) := by
  induction xs using List.reverseRecOn with
  | nil => exact ⟨(p, 0), rfl, rfl, h⟩
  | append_singleton xs x ih =>
    rw [List.length_append, List.length_singleton, cut, h.last, Option.bind_some]
    by_cases hq : q x = true
    · rw [if_pos hq, List.rdropWhile_concat_pos q _ _ hq]
      exact ih h.init
    · rw [if_neg hq, List.rdropWhile_concat_neg q _ _ hq]
      refine ⟨_, rfl, ?_, h⟩
      rw [List.length_append, List.length_singleton]

theorem Sees.update_before {p i : Nat} {xs : List α} (h : Sees w p xs) (hi : i < p) (x : α) :
    Sees (Function.update w i (some x)) p xs := by
  intro j hj
  rw [Function.update_of_ne (by omega)]
  exact h j hj

theorem Sees.concat {p : Nat} {xs : List α} (h : Sees w p xs) (x : α) :
    Sees (Function.update w (p + xs.length) (some x)) p (xs ++ [x]) := by
  intro i hi
  rw [List.length_append, List.length_singleton] at hi
  by_cases hlast : i = xs.length
  · subst hlast
    rw [Function.update_self, List.getElem_concat_length rfl]
  · rw [Function.update_of_ne (by omega), List.getElem_append_left (by omega)]
    exact h i (by omega)

/-- Memory that is read and written in the same place, and how far it has been read. -/
structure Buffer (α : Type) where
  cells : Cells α
  seen : Nat

def Buffer.load (b : Buffer α) (i : Nat) : Option (α × Buffer α) :=
  (b.cells i).map (fun x => (x, { b with seen := max b.seen (i + 1) }))

/-- A cell can be written when it has been read, or one behind it. -/
def Buffer.store (b : Buffer α) (i : Nat) (x : α) : Option (Buffer α) :=
  if i < b.seen then some { b with cells := Function.update b.cells i (some x) } else none

theorem Buffer.load_sees {b : Buffer α} {i : Nat} {x : α} {xs : List α} (hb : b.cells = w)
    (h : Sees w i (x :: xs)) : ∃ c, b.load i = some (x, c) ∧ c.cells = w ∧ i < c.seen := by
  rw [Buffer.load, hb, h.head]
  exact ⟨_, rfl, rfl, Nat.lt_of_lt_of_le (Nat.lt_succ_self i) (Nat.le_max_right _ _)⟩

theorem Buffer.store_seen {b : Buffer α} {i : Nat} (hb : b.cells = w) (h : i < b.seen) (x : α) :
    ∃ c, b.store i x = some c ∧ c.cells = Function.update w i (some x) := by
  rw [← hb]
  exact ⟨_, if_pos h, rfl⟩

end RapiBootloader.Lib.Window
