import Mathlib.Algebra.Order.Floor.Div
import RapiBootloader.Lib.Memory

namespace RapiBootloader.Lib.Words

open Memory

section Chunks

variable {α : Type} (c : Nat)

/-- Copy forward, `c` cells at a time. -/
def copyChunks (m : Mem α) (src dest : Nat) : Nat → Mem α
  | 0 => m
  | k + 1 => copyChunks (write m dest (read m src c)) (src + c) (dest + c) k

theorem copyChunks_outside (m : Mem α) (src dest k a : Nat)
    (h : a < dest ∨ dest + c * k ≤ a) : copyChunks c m src dest k a = m a := by
  induction k generalizing m src dest with
  | zero => rfl
  | succ k ih =>
    rw [Nat.mul_succ] at h
    rw [copyChunks, ih _ _ _ (by omega), write_outside]
    rw [length_read]
    omega

/-- A cell that the copy does not write arrives in its place, whatever happens to the cells
around it. -/
theorem copyChunks_copied (m : Mem α) (src dest k i : Nat) (hi : i < c * k)
    (h : src + i < dest ∨ dest + c * k ≤ src + i) :
    copyChunks c m src dest k (dest + i) = m (src + i) := by
  induction k generalizing m src dest i with
  | zero => simp at hi
  | succ k ih =>
    rw [Nat.mul_succ] at hi h
    rw [copyChunks]
    by_cases hc : i < c
    · -- the first chunk: what follows it is written behind it
      have hlen : i < (read m src c).length := by rwa [length_read]
      rw [copyChunks_outside c _ _ _ _ _ (by omega), write_inside m dest _ i hlen, getElem_read]
    · obtain ⟨j, rfl⟩ := Nat.exists_eq_add_of_le (Nat.not_lt.mp hc)
      have hsrc : src + c + j < dest ∨ dest + c ≤ src + c + j := by omega
      rw [← Nat.add_assoc, ih _ _ _ j (by omega) (by omega), write_outside, Nat.add_assoc]
      rwa [length_read]

theorem read_copyChunks {m : Mem α} {src dest k n : Nat} (hn : n ≤ c * k)
    (h : src + n ≤ dest ∨ dest + c * k ≤ src) :
    read (copyChunks c m src dest k) dest n = read m src n := by
  apply List.ext_getElem
  · rw [length_read, length_read]
  intro i hi _
  rw [length_read] at hi
  rw [getElem_read, getElem_read]
  exact copyChunks_copied c m src dest k i (by omega) (by omega)

theorem read_copyChunks_outside {m : Mem α} {src dest k p n : Nat}
    (h : p + n ≤ dest ∨ dest + c * k ≤ p) :
    read (copyChunks c m src dest k) p n = read m p n := by
  apply read_congr
  intro a hlo hhi
  exact copyChunks_outside c m src dest k a (by omega)

end Chunks

/-- The number whose bytes these are, the lowest first. -/
def wordOf : List UInt8 → Nat
  | [] => 0
  | b :: bs => b.toNat + 256 * wordOf bs

def wordBytes : Nat → Nat → List UInt8
  | 0, _ => []
  | k + 1, n => UInt8.ofNat n :: wordBytes k (n / 256)

@[simp] theorem length_wordBytes (k n : Nat) : (wordBytes k n).length = k := by
  induction k generalizing n with
  | zero => rfl
  | succ k ih => rw [wordBytes, List.length_cons, ih]

theorem wordBytes_wordOf (bs : List UInt8) : wordBytes bs.length (wordOf bs) = bs := by
  induction bs with
  | nil => rfl
  | cons b bs ih =>
    have hb := b.toNat_lt
    have hlow : UInt8.ofNat (b.toNat + 256 * wordOf bs) = b := by
      apply UInt8.toNat_inj.mp
      rw [UInt8.toNat_ofNat']
      omega
    have hrest : (b.toNat + 256 * wordOf bs) / 256 = wordOf bs := by omega
    rw [List.length_cons, wordOf, wordBytes, hlow, hrest, ih]

theorem wordOf_wordBytes (k n : Nat) : wordOf (wordBytes k n) = n % 256 ^ k := by
  induction k generalizing n with
  | zero => simp [wordBytes, wordOf, Nat.mod_one]
  | succ k ih =>
    have hpow : 256 ^ (k + 1) = 256 * 256 ^ k := Nat.pow_succ'
    rw [wordBytes, wordOf, ih, UInt8.toNat_ofNat', hpow]
    exact Nat.mod_mul.symm

def load (k : Nat) (m : Mem UInt8) (p : Nat) : Nat := wordOf (read m p k)

def store (k : Nat) (m : Mem UInt8) (p n : Nat) : Mem UInt8 := write m p (wordBytes k n)

theorem store_load (k : Nat) (m : Mem UInt8) (src dest : Nat) :
    store k m dest (load k m src) = write m dest (read m src k) := by
  have hbytes := wordBytes_wordOf (read m src k)
  rw [length_read] at hbytes
  rw [store, load, hbytes]

theorem load_store (k : Nat) (m : Mem UInt8) (p n : Nat) :
    load k (store k m p n) p = n % 256 ^ k := by
  have hread := (holds_write m p (wordBytes k n)).read_eq
  rw [length_wordBytes] at hread
  rw [load, store, hread, wordOf_wordBytes]

theorem read_store_apart {k : Nat} {m : Mem UInt8} {p q n size : Nat} (h : Apart p size q k) :
    read (store k m q n) p size = read m p size := by
  apply read_write_apart
  rwa [length_wordBytes]

theorem load_congr {m m' : Mem UInt8} {p q n : Nat} (h : read m p n = read m' q n) {k off : Nat}
    (hk : off + k ≤ n) : load k m (p + off) = load k m' (q + off) := by
  have hpart : ((read m p n).drop off).take k = ((read m' q n).drop off).take k := by rw [h]
  rw [drop_read, drop_read, take_read, take_read, Nat.min_eq_left (by omega)] at hpart
  rw [load, load, hpart]

theorem words_le {k n bound : Nat} (hk : 0 < k) (hn : n ≤ bound) (hw : k ∣ bound) :
    k * (n ⌈/⌉ k) ≤ bound := by
  obtain ⟨q, rfl⟩ := hw
  exact Nat.mul_le_mul_left k ((ceilDiv_le_iff_le_mul hk).mpr hn)

theorem le_words {k : Nat} (hk : 0 < k) (n : Nat) : n ≤ k * (n ⌈/⌉ k) := le_smul_ceilDiv hk

end RapiBootloader.Lib.Words
