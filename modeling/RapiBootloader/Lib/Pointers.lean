import Mathlib.Data.List.DropRight
import RapiBootloader.Lib.Memory

namespace RapiBootloader.Lib.Pointers

open Memory

variable {α : Type} (q : α → Bool) (m : Mem α)

/-- Step over the cells of a range in front that satisfy `q`. The result is the range that is
left. -/
def skip : Nat → Nat → Nat × Nat
  | p, 0 => (p, 0)
  | p, n + 1 => if q (m p) then skip (p + 1) n else (p, n + 1)

def cut (p : Nat) : Nat → Nat
  | 0 => 0
  | n + 1 => if q (m (p + n)) then cut p n else n + 1

def seek : Nat → Nat → Nat
  | _, 0 => 0
  | p, n + 1 => if q (m p) then 0 else seek (p + 1) n + 1

variable {q m}

theorem read_skip (p n : Nat) :
    read m (skip q m p n).1 (skip q m p n).2 = (read m p n).dropWhile q := by
  induction n generalizing p with
  | zero => rfl
  | succ n ih =>
    rw [read_succ, skip]
    by_cases hq : q (m p) = true
    · rw [if_pos hq, ih, List.dropWhile_cons_of_pos hq]
    · rw [if_neg hq, List.dropWhile_cons_of_neg hq, ← read_succ]

theorem read_cut (p n : Nat) : read m p (cut q m p n) = (read m p n).rdropWhile q := by
  induction n with
  | zero => rfl
  | succ n ih =>
    rw [read_concat, cut]
    by_cases hq : q (m (p + n)) = true
    · rw [if_pos hq, ih, List.rdropWhile_concat_pos q _ _ hq]
    · rw [if_neg hq, List.rdropWhile_concat_neg q _ _ hq, ← read_concat]

theorem seek_eq (p n : Nat) : seek q m p n = ((read m p n).takeWhile (fun c => !q c)).length := by
  induction n generalizing p with
  | zero => rfl
  | succ n ih =>
    rw [read_succ, seek]
    by_cases hq : q (m p) = true
    · rw [if_pos hq, List.takeWhile_cons_of_neg (by simp [hq])]
      rfl
    · rw [if_neg hq, ih, List.takeWhile_cons_of_pos (by simp [hq]), List.length_cons]

end RapiBootloader.Lib.Pointers
