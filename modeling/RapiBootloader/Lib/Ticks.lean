import Mathlib.Data.List.Chain

namespace RapiBootloader.Lib.Ticks

def reading (t : Nat) : UInt32 := UInt32.ofNat t

def Steady (gap : Nat) (ts : List Nat) : Prop := List.IsChain (fun a b => a ≤ b ∧ b ≤ a + gap) ts

/-- How often a loop turns that looks at the counter until `limit` has passed. -/
def spin (limit start : UInt32) : List UInt32 → Option Nat
  | [] => none
  | now :: looks => if now - start < limit then (spin limit start looks).map (· + 1) else some 0

/-- The marks that a loop sets: it looks at the counter, and looks again to set a mark when the
last one is `period` old. -/
def beats (period mark : UInt32) : List (UInt32 × UInt32) → List UInt32
  | [] => []
  | (now, again) :: looks =>
    if now - mark ≥ period then again :: beats period again looks else beats period mark looks

/-- `beats` with a counter that never comes round. -/
def beatsAt (period mark : Nat) : List (Nat × Nat) → List Nat
  | [] => []
  | (now, again) :: looks =>
    if mark + period ≤ now then again :: beatsAt period again looks
    else beatsAt period mark looks

def times (looks : List (Nat × Nat)) : List Nat := looks.flatMap fun look => [look.1, look.2]

theorem steady_cons {gap a b : Nat} {ts : List Nat} :
    Steady gap (a :: b :: ts) ↔ (a ≤ b ∧ b ≤ a + gap) ∧ Steady gap (b :: ts) :=
  List.isChain_cons_cons

theorem steady_last {gap bound first t : Nat} {ts : List Nat} (h : Steady gap (first :: (ts ++ [t])))
    (hfirst : first ≤ bound) (hts : ∀ s ∈ ts, s ≤ bound) : first ≤ t ∧ t ≤ bound + gap := by
  induction ts generalizing first with
  | nil =>
    obtain ⟨hnear, -⟩ := steady_cons.mp h
    omega
  | cons s ts ih =>
    obtain ⟨hnear, hrest⟩ := steady_cons.mp h
    obtain ⟨hs, hts⟩ := List.forall_mem_cons.mp hts
    obtain ⟨hle, hbound⟩ := ih hrest hs hts
    omega

/-- The difference of two readings is the time between them, up to a full turn of the counter. -/
theorem reading_sub {start now : Nat} (h : start ≤ now) :
    (reading now - reading start).toNat = (now - start) % UInt32.size := by
  rw [reading, reading, UInt32.toNat_sub, UInt32.toNat_ofNat', UInt32.toNat_ofNat', UInt32.size]
  omega

/-- So it tells what has passed as long as that is less than a turn. -/
theorem since_lt_iff {limit : UInt32} {start now : Nat} (h : start ≤ now)
    (hturn : now - start < UInt32.size) :
    reading now - reading start < limit ↔ now < start + limit.toNat := by
  rw [UInt32.lt_iff_toNat_lt, reading_sub h, Nat.mod_eq_of_lt hturn]
  omega

theorem spin_eq {limit : UInt32} {gap start last : Nat} {ts : List Nat}
    (hgap : limit.toNat + gap < UInt32.size) (hsteady : Steady gap (last :: ts)) (hstart : start ≤ last)
    (hlast : last ≤ start + limit.toNat) :
    spin limit (reading start) (ts.map reading) =
      ts.findIdx? (fun t => start + limit.toNat ≤ t) := by
  induction ts generalizing last with
  | nil => rfl
  | cons now ts ih =>
    obtain ⟨⟨hle, hnear⟩, hrest⟩ := steady_cons.mp hsteady
    rw [List.map_cons, spin, List.findIdx?_cons]
    have hiff := @since_lt_iff limit start now (by omega) (by omega)
    by_cases hpast : now < start + limit.toNat
    · rw [if_pos (hiff.mpr hpast), ih hrest (by omega) (by omega), if_neg (by simpa using hpast)]
    · rw [if_neg (fun h => hpast (hiff.mp h)), if_pos (by simpa using Nat.not_lt.mp hpast)]

theorem beats_eq {period : UInt32} {gap mark last : Nat} {looks : List (Nat × Nat)}
    (hgap : period.toNat + 2 * gap < UInt32.size) (hsteady : Steady gap (last :: times looks))
    (hmark : mark ≤ last) (hlast : last ≤ mark + period.toNat + gap) :
    beats period (reading mark) (looks.map fun look => (reading look.1, reading look.2)) =
      (beatsAt period.toNat mark looks).map reading := by
  induction looks generalizing mark last with
  | nil => rfl
  | cons look looks ih =>
    obtain ⟨now, again⟩ := look
    obtain ⟨⟨hle, hnear⟩, hrest⟩ := steady_cons.mp hsteady
    obtain ⟨⟨hle', hnear'⟩, hrest⟩ := steady_cons.mp hrest
    have hiff := @since_lt_iff period mark now (by omega) (by omega)
    rw [List.map_cons, beats, beatsAt]
    by_cases hdue : mark + period.toNat ≤ now
    · have hold : reading now - reading mark ≥ period :=
        UInt32.not_lt.mp fun h => absurd (hiff.mp h) (Nat.not_lt.mpr hdue)
      rw [if_pos hold, if_pos hdue, List.map_cons, ih hrest (Nat.le_refl again) (by omega)]
    · have hyoung : ¬ reading now - reading mark ≥ period :=
        UInt32.not_le.mpr (hiff.mpr (Nat.not_le.mp hdue))
      rw [if_neg hyoung, if_neg hdue, ih hrest (by omega) (by omega)]

theorem beatsAt_spaced {period gap mark last : Nat} {looks : List (Nat × Nat)}
    (hsteady : Steady gap (last :: times looks)) :
    List.IsChain (fun a b => a + period ≤ b) (mark :: beatsAt period mark looks) := by
  induction looks generalizing mark last with
  | nil => exact .singleton mark
  | cons look looks ih =>
    obtain ⟨now, again⟩ := look
    obtain ⟨-, hrest⟩ := steady_cons.mp hsteady
    obtain ⟨⟨hle, -⟩, hrest⟩ := steady_cons.mp hrest
    rw [beatsAt]
    split
    · rename_i hdue
      exact List.isChain_cons_cons.mpr ⟨hdue.trans hle, ih hrest⟩
    · exact ih hrest

theorem beatsAt_prompt {period gap mark last : Nat} {looks : List (Nat × Nat)}
    (hsteady : Steady gap (last :: times looks)) (hmark : mark ≤ last) :
    ∀ look ∈ looks, ∃ r ∈ mark :: beatsAt period mark looks,
      r = look.2 ∨ r ≤ look.1 ∧ look.1 < r + period := by
  induction looks generalizing mark last with
  | nil => exact fun _ hlook => absurd hlook List.not_mem_nil
  | cons look looks ih =>
    obtain ⟨now, again⟩ := look
    obtain ⟨⟨hle, -⟩, hrest⟩ := steady_cons.mp hsteady
    obtain ⟨⟨hle', -⟩, hrest⟩ := steady_cons.mp hrest
    rw [beatsAt]
    intro look hlook
    by_cases hdue : mark + period ≤ now
    · rw [if_pos hdue]
      obtain rfl | hlook := List.mem_cons.mp hlook
      · exact ⟨again, List.mem_cons_of_mem _ List.mem_cons_self, Or.inl rfl⟩
      · obtain ⟨r, hr, hyoung⟩ := ih hrest (Nat.le_refl again) look hlook
        exact ⟨r, List.mem_cons_of_mem _ hr, hyoung⟩
    · rw [if_neg hdue]
      obtain rfl | hlook := List.mem_cons.mp hlook
      · exact ⟨mark, List.mem_cons_self, Or.inr ⟨hmark.trans hle, Nat.not_le.mp hdue⟩⟩
      · exact ih hrest (hmark.trans (hle.trans hle')) look hlook

end RapiBootloader.Lib.Ticks
