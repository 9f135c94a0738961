import Mathlib.Data.List.Basic

namespace RapiBootloader.Lib.Fnv

def offsetBasis : Nat := 2166136261

def prime : Nat := 16777619

def absorb (hash : Nat) (byte : UInt8) : Nat := (hash ^^^ byte.toNat) * prime % 0x100000000

/-- The 32-bit FNV-1a hash of the bytes. -/
def fnv1a (bytes : List UInt8) : Nat := bytes.foldl absorb offsetBasis

theorem fnv1a_append (xs ys : List UInt8) : fnv1a (xs ++ ys) = ys.foldl absorb (fnv1a xs) :=
  List.foldl_append

theorem foldl_toNat {step : UInt32 → UInt8 → UInt32}
    (h : ∀ hash byte, (step hash byte).toNat = absorb hash.toNat byte) (bytes : List UInt8)
    (hash : UInt32) : (bytes.foldl step hash).toNat = bytes.foldl absorb hash.toNat := by
  induction bytes generalizing hash with
  | nil => rfl
  | cons byte bytes ih => rw [List.foldl_cons, List.foldl_cons, ih, h]

example : fnv1a [97] = 0xE40C292C := by decide

end RapiBootloader.Lib.Fnv
