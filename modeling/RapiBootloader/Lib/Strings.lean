import Mathlib.Data.List.TakeWhile

namespace RapiBootloader.Lib.Strings

structure CString where
  chars : List UInt8
  noNul : 0 ∉ chars
deriving DecidableEq

/-- The byte of each character of an ASCII literal. -/
def ascii (s : String) : List UInt8 := s.toList.map (fun c => UInt8.ofNat c.toNat)

def strlen (s : CString) : Nat := s.chars.length

def filled (n : Nat) (c : UInt8) (h : c ≠ 0) : CString :=
  ⟨List.replicate n c, fun hm => h (List.eq_of_mem_replicate hm).symm⟩

@[simp] theorem strlen_filled (n : Nat) (c : UInt8) (h : c ≠ 0) : strlen (filled n c h) = n :=
  List.length_replicate

/-- The string a pointer to these bytes denotes. -/
def ofBytes (bs : List UInt8) : CString :=
  ⟨bs.takeWhile (· != 0), fun h => by simpa using List.mem_takeWhile_imp h⟩

theorem ofBytes_chars (s : CString) : ofBytes s.chars = s := by
  cases s with
  | mk chars noNul =>
    simp only [ofBytes, CString.mk.injEq, List.takeWhile_eq_self_iff, bne_iff_ne]
    exact fun x hx h0 => noNul (h0 ▸ hx)

theorem ofBytes_append_nul (bs rest : List UInt8) : ofBytes (bs ++ 0 :: rest) = ofBytes bs := by
  simp only [ofBytes, CString.mk.injEq]
  induction bs with
  | nil => simp
  | cons b bs ih => by_cases hb : b = 0 <;> simp [hb, ih]

theorem ofBytes_of_prefix {bs mem : List UInt8} (h : bs ++ [0] <+: mem) : ofBytes mem = ofBytes bs := by
  obtain ⟨rest, rfl⟩ := h
  rw [List.append_assoc, List.singleton_append, ofBytes_append_nul]

theorem takeWhile_overlay {bs mem : List UInt8} (h : bs.length ≤ mem.length) :
    (bs ++ mem.drop bs.length).takeWhile (· != 0) = mem.takeWhile (· != 0) ↔
      bs <+: mem.takeWhile (· != 0) ++ [0] ∨ mem.takeWhile (· != 0) ++ [0] <+: bs := by
  induction bs generalizing mem with
  | nil => simp
  | cons b bs ih =>
    cases mem with
    | nil => cases h
    | cons c mem =>
      have hrest := ih (Nat.le_of_succ_le_succ h)
      by_cases hc : c = 0
      · subst hc
        by_cases hb : b = 0
        · subst hb
          simp
        · simp [hb, Ne.symm hb]
      · by_cases hb : b = 0
        · subst hb
          simp [hc, Ne.symm hc]
        · by_cases heq : b = c
          · subst heq
            simpa [hb] using hrest
          · simp [hb, hc, heq, Ne.symm heq]

theorem takeWhile_append_inj {xs ys : List UInt8} (h : xs.length = ys.length) (rest : List UInt8) :
    (xs ++ rest).takeWhile (· != 0) = (ys ++ rest).takeWhile (· != 0) ↔
      xs.takeWhile (· != 0) = ys.takeWhile (· != 0) := by
  induction xs generalizing ys with
  | nil =>
    cases ys with
    | nil => simp
    | cons y ys => cases h
  | cons x xs ih =>
    cases ys with
    | nil => cases h
    | cons y ys =>
      have hrest := ih (Nat.succ.inj h)
      by_cases hx : x = 0 <;> by_cases hy : y = 0 <;> simp [hx, hy, hrest]

end RapiBootloader.Lib.Strings
