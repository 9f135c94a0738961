import RapiBootloader.Lib.Memory

namespace RapiBootloader.Lib.Slices

open Lib.Memory

variable {α : Type}

/-- The elements from `a` up to `b`, as far as there are any. -/
def slice (xs : List α) (a b : Nat) : List α := (xs.take b).drop a

def splice (xs : List α) (off : Nat) (ys : List α) : List α :=
  xs.take off ++ ys ++ xs.drop (off + ys.length)

theorem length_splice {xs ys : List α} {off : Nat} (h : off + ys.length ≤ xs.length) :
    (splice xs off ys).length = xs.length := by
  simp only [splice, List.length_append, List.length_take, List.length_drop]
  omega

theorem getElem?_splice {xs ys : List α} {off : Nat} (h : off + ys.length ≤ xs.length) (i : Nat) :
    (splice xs off ys)[i]? =
      if off ≤ i ∧ i < off + ys.length then ys[i - off]? else xs[i]? := by
  have hoff : (xs.take off).length = off := by
    rw [List.length_take]
    omega
  by_cases hlo : i < off
  · rw [if_neg (by omega), splice, List.append_assoc, List.getElem?_append_left (by omega),
      List.getElem?_take_of_lt hlo]
  · by_cases hhi : i < off + ys.length
    · rw [if_pos (by omega), splice, List.append_assoc, List.getElem?_append_right (by omega), hoff,
        List.getElem?_append_left (by omega)]
    · rw [if_neg (by omega), splice, List.append_assoc, List.getElem?_append_right (by omega), hoff,
        List.getElem?_append_right (by omega), List.getElem?_drop]
      congr 1
      omega

theorem getElem?_slice (xs : List α) (a b i : Nat) :
    (slice xs a b)[i]? = if a + i < b then xs[a + i]? else none := by
  simp only [slice, List.getElem?_drop, List.getElem?_take]

theorem length_slice {xs : List α} {a b : Nat} (h : b ≤ xs.length) :
    (slice xs a b).length = b - a := by
  simp only [slice, List.length_drop, List.length_take]
  omega

/-- Putting back a stretch that has all the differences makes the lists the same. -/
theorem splice_slice {xs ys : List α} {a b : Nat} (hab : a ≤ b) (hb : b ≤ ys.length)
    (hl : xs.length = ys.length) (h : ∀ i, i < a ∨ b ≤ i → xs[i]? = ys[i]?) :
    splice xs a (slice ys a b) = ys := by
  have hlen : (slice ys a b).length = b - a := length_slice hb
  apply List.ext_getElem?
  intro i
  rw [getElem?_splice (by omega), getElem?_slice, hlen]
  split
  · rw [if_pos (by omega)]
    congr 1
    omega
  · exact h i (by omega)

def memOf (z : α) (xs : List α) : Mem α := fun i => (xs[i]?).getD z

theorem memOf_splice (z : α) {xs ys : List α} {off : Nat} (h : off + ys.length ≤ xs.length) :
    memOf z (splice xs off ys) = write (memOf z xs) off ys := by
  funext i
  simp only [memOf, write, getElem?_splice h]
  by_cases hlo : off ≤ i
  · by_cases hhi : i < off + ys.length
    · have hin : i - off < ys.length := by omega
      simp [hlo, hhi, List.getElem?_eq_getElem hin]
    · have hout : ys.length ≤ i - off := by omega
      simp [hlo, hhi, List.getElem?_eq_none hout]
  · simp [hlo]

theorem read_memOf (z : α) (xs : List α) : read (memOf z xs) 0 xs.length = xs := by
  apply List.ext_getElem?
  intro i
  by_cases hi : i < xs.length <;> simp [Memory.read, memOf, hi]

theorem slice_eq_read (z : α) {xs : List α} {a b : Nat} (hb : b ≤ xs.length) :
    slice xs a b = read (memOf z xs) a (b - a) := by
  apply List.ext_getElem?
  intro i
  rw [getElem?_slice]
  by_cases hi : a + i < b
  · have hx : a + i < xs.length := by omega
    have hr : i < b - a := by omega
    simp [Memory.read, memOf, hi, hx, hr]
  · have hr : b - a ≤ i := by omega
    simp [Memory.read, hi, hr]

end RapiBootloader.Lib.Slices
