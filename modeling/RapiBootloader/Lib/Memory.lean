import Mathlib.Data.List.Basic
import Mathlib.Data.List.GetD

namespace RapiBootloader.Lib.Memory

variable {α : Type}

/-- Memory seen through a pointer: the cell at each offset from it. -/
abbrev Mem (α : Type) := Nat → α

/-- Copy the cells `xs` to offset `off`, as `memcpy` does. -/
def write (m : Mem α) (off : Nat) (xs : List α) : Mem α :=
  fun i => if off ≤ i then (xs[i - off]?).getD (m i) else m i

def read (m : Mem α) (off n : Nat) : List α := (List.range n).map (fun i => m (off + i))

/-- The cells from `off` on begin with `xs`. -/
def Holds (m : Mem α) (off : Nat) (xs : List α) : Prop :=
  ∀ i (h : i < xs.length), m (off + i) = xs[i]

theorem write_inside (m : Mem α) (off : Nat) (xs : List α) (i : Nat) (h : i < xs.length) :
    write m off xs (off + i) = xs[i] := by
  simp [write, h]

theorem write_outside (m : Mem α) (off : Nat) (xs : List α) (i : Nat)
    (h : i < off ∨ off + xs.length ≤ i) : write m off xs i = m i := by
  simp only [write]
  split
  · rw [List.getElem?_eq_none (by omega), Option.getD_none]
  · rfl

theorem write_congr {m n : Mem α} (off : Nat) (xs : List α) {i : Nat} (h : m i = n i) :
    write m off xs i = write n off xs i := by
  rw [write, write, h]

theorem write_changed (m : Mem α) (off : Nat) (xs : List α) (i : Nat)
    (h : write m off xs i ≠ m i) : off ≤ i ∧ i < off + xs.length := by
  by_contra hi
  exact h (write_outside m off xs i (by omega))

theorem write_append (m : Mem α) (off : Nat) (xs ys : List α) :
    write (write m off xs) (off + xs.length) ys = write m off (xs ++ ys) := by
  funext i
  simp only [write]
  by_cases hx : i < off + xs.length
  · by_cases hlo : off ≤ i
    · have hin : i - off < xs.length := by omega
      simp [hlo, Nat.not_le.mpr hx, List.getElem?_append_left hin]
    · simp [hlo, Nat.not_le.mpr hx]
  · have hlo : off ≤ i := by omega
    have hout : xs.length ≤ i - off := by omega
    simp [hlo, Nat.not_lt.mp hx, List.getElem?_append_right hout, List.getElem?_eq_none hout,
      Nat.sub_sub]

theorem write_behind (m : Mem α) (xs ys : List α) :
    write (write m 0 xs) xs.length ys = write m 0 (xs ++ ys) := by
  have happend := write_append m 0 xs ys
  rwa [Nat.zero_add] at happend

theorem holds_write (m : Mem α) (off : Nat) (xs : List α) : Holds (write m off xs) off xs :=
  fun i h => write_inside m off xs i h

theorem Holds.write_outside {m : Mem α} {off : Nat} {xs : List α} (h : Holds m off xs)
    (at' : Nat) (ys : List α) (hd : off + xs.length ≤ at' ∨ at' + ys.length ≤ off) :
    Holds (write m at' ys) off xs := by
  intro i hi
  rw [Memory.write_outside _ _ _ _ (by omega)]
  exact h i hi

theorem holds_append (m : Mem α) (off : Nat) (xs ys : List α) :
    Holds m off (xs ++ ys) ↔ Holds m off xs ∧ Holds m (off + xs.length) ys := by
  constructor
  · intro h
    constructor
    · intro i hi
      have := h i (by rw [List.length_append]; omega)
      rwa [List.getElem_append_left hi] at this
    · intro i hi
      have := h (xs.length + i) (by rw [List.length_append]; omega)
      rw [List.getElem_append_right (by omega)] at this
      simpa [Nat.add_assoc] using this
  · rintro ⟨hx, hy⟩ i hi
    by_cases hlt : i < xs.length
    · rw [List.getElem_append_left hlt]
      exact hx i hlt
    · obtain ⟨k, rfl⟩ := Nat.exists_eq_add_of_le (Nat.not_lt.mp hlt)
      have := hy k (by rw [List.length_append] at hi; omega)
      rw [List.getElem_append_right (by omega)]
      simpa [Nat.add_assoc] using this

theorem Holds.prefix {m : Mem α} {off : Nat} {xs ys : List α} (h : Holds m off ys)
    (hp : xs <+: ys) : Holds m off xs := by
  obtain ⟨zs, rfl⟩ := hp
  exact ((holds_append m off xs zs).mp h).1

/-- Appending a block behind what a buffer already holds. -/
theorem Holds.append {m : Mem α} {off : Nat} {xs : List α} (h : Holds m off xs) (ys : List α) :
    Holds (write m (off + xs.length) ys) off (xs ++ ys) :=
  (holds_append _ _ _ _).mpr
    ⟨h.write_outside _ _ (Or.inl (Nat.le_refl _)), holds_write _ _ _⟩

@[simp] theorem length_read (m : Mem α) (off n : Nat) : (read m off n).length = n := by
  simp [read]

theorem getElem_read (m : Mem α) (off n i : Nat) (h : i < (read m off n).length) :
    (read m off n)[i] = m (off + i) := by
  simp [read]

theorem read_congr {m n : Mem α} {off k : Nat} (h : ∀ i, off ≤ i → i < off + k → m i = n i) :
    read m off k = read n off k := by
  apply List.ext_getElem (by rw [length_read, length_read])
  intro i hi _
  rw [length_read] at hi
  rw [getElem_read, getElem_read]
  exact h (off + i) (by omega) (by omega)

def Apart (p n q k : Nat) : Prop := p + n ≤ q ∨ q + k ≤ p

theorem read_write_apart {m : Mem α} {p n off : Nat} {xs : List α} (h : Apart p n off xs.length) :
    read (write m off xs) p n = read m p n := by
  apply read_congr
  intro i hlo hhi
  apply write_outside
  exact h.imp (by omega) (by omega)

theorem Holds.read_eq {m : Mem α} {off : Nat} {xs : List α} (h : Holds m off xs) :
    read m off xs.length = xs := by
  apply List.ext_getElem (length_read m off xs.length)
  intro i _ hi
  rw [getElem_read]
  exact h i hi

theorem Holds.read_drop {m : Mem α} {off : Nat} {xs : List α} (h : Holds m off xs) {j n : Nat}
    (hn : j + n ≤ xs.length) : read m (off + j) n = (xs.drop j).take n := by
  apply List.ext_getElem
  · rw [length_read, List.length_take, List.length_drop]
    omega
  intro i hi _
  rw [length_read] at hi
  rw [getElem_read, List.getElem_take, List.getElem_drop, Nat.add_assoc]
  exact h (j + i) (by omega)

theorem read_add (m : Mem α) (off a b : Nat) :
    read m off (a + b) = read m off a ++ read m (off + a) b := by
  simp [read, List.range_add, Nat.add_assoc]

theorem read_succ (m : Mem α) (off n : Nat) : read m off (n + 1) = m off :: read m (off + 1) n := by
  rw [Nat.add_comm n 1, read_add]
  rfl

theorem read_concat (m : Mem α) (off n : Nat) :
    read m off (n + 1) = read m off n ++ [m (off + n)] := by
  rw [read_add]
  rfl

theorem take_read (m : Mem α) (off k n : Nat) :
    (read m off k).take n = read m off (min n k) := by
  rw [read, ← List.map_take, List.take_range, read]

theorem drop_read (m : Mem α) (off k n : Nat) : (read m off k).drop n = read m (off + n) (k - n) := by
  apply List.ext_getElem
  · rw [List.length_drop, length_read, length_read]
  intro i _ hi
  rw [List.getElem_drop, getElem_read, getElem_read, Nat.add_assoc]

theorem read_write_end (m : Mem α) (off n : Nat) (ys : List α) :
    read (write m (off + n) ys) off (n + ys.length) = read m off n ++ ys := by
  rw [read_add, read_write_apart (Or.inl (Nat.le_refl _)), (holds_write m (off + n) ys).read_eq]

theorem read_write_start (m : Mem α) {xs : List α} {n : Nat} (h : xs.length ≤ n) :
    read (write m 0 xs) 0 n = xs ++ (read m 0 n).drop xs.length := by
  obtain ⟨k, rfl⟩ := Nat.exists_eq_add_of_le h
  rw [read_add, (holds_write m 0 xs).read_eq, read_write_apart (Or.inr (Nat.le_refl _)), read_add,
    List.drop_left' (length_read m 0 xs.length)]

theorem holds_take {m : Mem α} {off : Nat} {xs : List α} (h : Holds m off xs) {n : Nat}
    (hn : xs.length ≤ n) : xs <+: read m off n := by
  obtain ⟨k, rfl⟩ := Nat.exists_eq_add_of_le hn
  rw [read_add, h.read_eq]
  exact List.prefix_append _ _

end RapiBootloader.Lib.Memory
