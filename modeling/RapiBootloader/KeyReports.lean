import Mathlib.Data.List.Forall2
import Mathlib.Data.List.Nodup
import RapiBootloader.MenuLoop

namespace RapiBootloader.KeyReports

open MenuLoop

def hidKeyUp : UInt8 := 0x52
def hidKeyDown : UInt8 := 0x51
def hidKeyEnter : UInt8 := 0x28
def hidKeyKpEnter : UInt8 := 0x58
def hidKeyDigit1 : UInt8 := 0x1E
def hidKeyDigit9 : UInt8 := 0x26
def hidKeyPageUp : UInt8 := 0x4B
def hidKeyPageDown : UInt8 := 0x4E

structure Report where
  keys : List UInt8
  six : keys.length = 6
deriving DecidableEq

def Report.idle : Report := ⟨[0, 0, 0, 0, 0, 0], rfl⟩

structure Keyboard where
  intents : Intents
  prevRawKeys : Report
deriving DecidableEq

def press (nKey : UInt8) (k : Intents) : Intents :=
  if nKey = hidKeyUp then { k with moveAccum := k.moveAccum - 1 }
  else if nKey = hidKeyDown then { k with moveAccum := k.moveAccum + 1 }
  else if nKey = hidKeyEnter ∨ nKey = hidKeyKpEnter then { k with selectPending := true }
  else if nKey = hidKeyPageUp then { k with pageAccum := k.pageAccum - 1 }
  else if nKey = hidKeyPageDown then { k with pageAccum := k.pageAccum + 1 }
  else if hidKeyDigit1 ≤ nKey ∧ nKey ≤ hidKeyDigit9 then
    { k with jumpTo := some (nKey.toNat - hidKeyDigit1.toNat) }
  else k

def slot (prevRawKeys : Report) (k : Intents) (nKey : UInt8) : Intents :=
  if nKey = 0 then k else if nKey ∈ prevRawKeys.keys then k else press nKey k

def keyStatusHandlerRaw (rawKeys : Report) (k : Keyboard) : Keyboard :=
  ⟨rawKeys.keys.foldl (slot k.prevRawKeys) k.intents, rawKeys⟩

def reports (k : Keyboard) (rs : List Report) : Keyboard :=
  rs.foldl (fun k r => keyStatusHandlerRaw r k) k

/-- The key is down now and was not in the report before. -/
def Appears (key : UInt8) (prev r : Report) : Prop := key ∈ r.keys ∧ key ∉ prev.keys

instance (key : UInt8) (prev r : Report) : Decidable (Appears key prev r) :=
  inferInstanceAs (Decidable (_ ∧ _))

def presses (key : UInt8) : Report → List Report → Nat
  | _, [] => 0
  | prev, r :: rs => (if Appears key prev r then 1 else 0) + presses key r rs

def Distinct (r : Report) : Prop := (r.keys.filter (· ≠ 0)).Nodup

instance (r : Report) : Decidable (Distinct r) := inferInstanceAs (Decidable (List.Nodup _))

def fresh (key : UInt8) (prev : Report) (keys : List UInt8) : Nat :=
  if key ∈ prev.keys then 0 else keys.count key

theorem fresh_cons (key : UInt8) (prev : Report) (c : UInt8) (keys : List UInt8) :
    fresh key prev (c :: keys) = fresh key prev [c] + fresh key prev keys := by
  unfold fresh
  split
  · rfl
  · rw [List.count_cons, List.count_singleton, Nat.add_comm]

theorem fresh_singleton (key : UInt8) (prev : Report) (c : UInt8) :
    fresh key prev [c] = if c = key ∧ c ∉ prev.keys then 1 else 0 := by
  unfold fresh
  by_cases hc : c = key
  · subst hc
    by_cases hprev : c ∈ prev.keys
    · rw [if_pos hprev, if_neg (fun h => h.2 hprev)]
    · rw [if_neg hprev, if_pos ⟨rfl, hprev⟩, List.count_singleton_self]
  · have hcount : [c].count key = 0 :=
      List.count_eq_zero.mpr (fun h => hc (List.mem_singleton.mp h).symm)
    rw [hcount, ite_self, if_neg (fun h => hc h.1)]

def keyMove (c : UInt8) : Int := if c = hidKeyUp then -1 else if c = hidKeyDown then 1 else 0

def keyPage (c : UInt8) : Int := if c = hidKeyPageUp then -1 else if c = hidKeyPageDown then 1 else 0

theorem press_accums (c : UInt8) (k : Intents) :
    (press c k).moveAccum = k.moveAccum + keyMove c ∧
      (press c k).pageAccum = k.pageAccum + keyPage c ∧
      ((press c k).selectPending = true ↔
        k.selectPending = true ∨ c = hidKeyEnter ∨ c = hidKeyKpEnter) := by
  by_cases hup : c = hidKeyUp
  · subst hup
    exact ⟨rfl, (Int.add_zero _).symm, by simp [press, hidKeyUp, hidKeyEnter, hidKeyKpEnter]⟩
  by_cases hdown : c = hidKeyDown
  · subst hdown
    exact ⟨rfl, (Int.add_zero _).symm, by
      simp [press, hidKeyUp, hidKeyDown, hidKeyEnter, hidKeyKpEnter]⟩
  by_cases henter : c = hidKeyEnter ∨ c = hidKeyKpEnter
  · have hpage : keyPage c = 0 := by obtain rfl | rfl := henter <;> decide
    simp [press, keyMove, hup, hdown, henter, hpage]
  by_cases hpageUp : c = hidKeyPageUp
  · subst hpageUp
    exact ⟨(Int.add_zero _).symm, rfl, by
      simp [press, hidKeyUp, hidKeyDown, hidKeyEnter, hidKeyKpEnter, hidKeyPageUp]⟩
  by_cases hpageDown : c = hidKeyPageDown
  · subst hpageDown
    exact ⟨(Int.add_zero _).symm, rfl, by
      simp [press, hidKeyUp, hidKeyDown, hidKeyEnter, hidKeyKpEnter, hidKeyPageUp, hidKeyPageDown]⟩
  unfold press keyMove keyPage
  simp only [hup, hdown, henter, hpageUp, hpageDown, if_false, Int.add_zero, or_false]
  split
  · exact ⟨rfl, rfl, Iff.rfl⟩
  · exact ⟨rfl, rfl, Iff.rfl⟩

theorem slot_accums (prev : Report) (k : Intents) (c : UInt8) :
    (slot prev k c).moveAccum =
        k.moveAccum + fresh hidKeyDown prev [c] - fresh hidKeyUp prev [c] ∧
      (slot prev k c).pageAccum =
        k.pageAccum + fresh hidKeyPageDown prev [c] - fresh hidKeyPageUp prev [c] ∧
      ((slot prev k c).selectPending = true ↔ k.selectPending = true ∨
        c ∉ prev.keys ∧ (c = hidKeyEnter ∨ c = hidKeyKpEnter)) := by
  have hmove : keyMove c =
      (if c = hidKeyDown then 1 else 0 : Nat) - (if c = hidKeyUp then 1 else 0 : Nat) := by
    unfold keyMove
    by_cases hup : c = hidKeyUp
    · subst hup
      decide
    · by_cases hdown : c = hidKeyDown
      · subst hdown
        decide
      · simp [hup, hdown]
  have hpage : keyPage c =
      (if c = hidKeyPageDown then 1 else 0 : Nat) - (if c = hidKeyPageUp then 1 else 0 : Nat) := by
    unfold keyPage
    by_cases hup : c = hidKeyPageUp
    · subst hup
      decide
    · by_cases hdown : c = hidKeyPageDown
      · subst hdown
        decide
      · simp [hup, hdown]
  simp only [fresh_singleton]
  unfold slot
  by_cases h0 : c = 0
  · subst h0
    simp [hidKeyDown, hidKeyUp, hidKeyPageDown, hidKeyPageUp, hidKeyEnter, hidKeyKpEnter]
  rw [if_neg h0]
  by_cases hprev : c ∈ prev.keys
  · rw [if_pos hprev]
    simp [hprev]
  · obtain ⟨hm, hp, hs⟩ := press_accums c k
    rw [if_neg hprev]
    simp only [hprev, not_false_eq_true, and_true, true_and]
    exact ⟨by rw [hm, hmove]; omega, by rw [hp, hpage]; omega, hs⟩

theorem foldl_slot (prev : Report) (keys : List UInt8) (k : Intents) :
    (keys.foldl (slot prev) k).moveAccum =
        k.moveAccum + fresh hidKeyDown prev keys - fresh hidKeyUp prev keys ∧
      (keys.foldl (slot prev) k).pageAccum =
        k.pageAccum + fresh hidKeyPageDown prev keys - fresh hidKeyPageUp prev keys ∧
      ((keys.foldl (slot prev) k).selectPending = true ↔ k.selectPending = true ∨
        ∃ c ∈ keys, c ∉ prev.keys ∧ (c = hidKeyEnter ∨ c = hidKeyKpEnter)) := by
  induction keys generalizing k with
  | nil =>
    have hnil : ∀ key, fresh key prev [] = 0 := fun key => by simp [fresh]
    simp [hnil]
  | cons c keys ih =>
    obtain ⟨hm, hp, hs⟩ := slot_accums prev k c
    obtain ⟨ihm, ihp, ihs⟩ := ih (slot prev k c)
    rw [List.foldl_cons, ihm, ihp, ihs, hm, hp, hs, fresh_cons hidKeyDown prev c keys,
      fresh_cons hidKeyUp prev c keys, fresh_cons hidKeyPageDown prev c keys,
      fresh_cons hidKeyPageUp prev c keys]
    refine ⟨by omega, by omega, ?_⟩
    rw [List.exists_mem_cons_iff, or_assoc]

/-- A key that is down is found once. -/
theorem fresh_distinct {key : UInt8} (hkey : key ≠ 0) (prev : Report) {r : Report}
    (h : Distinct r) :
    fresh key prev r.keys = if Appears key prev r then 1 else 0 := by
  unfold fresh
  by_cases hprev : key ∈ prev.keys
  · have hno : ¬ Appears key prev r := fun hno => hno.2 hprev
    rw [if_pos hprev, if_neg hno]
  · rw [if_neg hprev]
    have hcount : (r.keys.filter (· ≠ 0)).count key = r.keys.count key :=
      List.count_filter (by simpa using hkey)
    by_cases hin : key ∈ r.keys
    · have hyes : Appears key prev r := ⟨hin, hprev⟩
      have hin' : key ∈ r.keys.filter (· ≠ 0) := List.mem_filter.mpr ⟨hin, by simpa using hkey⟩
      rw [if_pos hyes, ← hcount]
      exact List.count_eq_one_of_mem h hin'
    · have hno : ¬ Appears key prev r := fun hno => hin hno.1
      rw [if_neg hno, List.count_eq_zero.mpr hin]

/-- What the reports have added, counted in presses. -/
structure Counted (k : Keyboard) (rs : List Report) (k' : Keyboard) : Prop where
  moves : k'.intents.moveAccum =
    k.intents.moveAccum + presses hidKeyDown k.prevRawKeys rs - presses hidKeyUp k.prevRawKeys rs
  pages : k'.intents.pageAccum = k.intents.pageAccum +
    presses hidKeyPageDown k.prevRawKeys rs - presses hidKeyPageUp k.prevRawKeys rs
  select : k'.intents.selectPending = true ↔ k.intents.selectPending = true ∨
    0 < presses hidKeyEnter k.prevRawKeys rs + presses hidKeyKpEnter k.prevRawKeys rs

theorem counted_report (k : Keyboard) {r : Report} (h : Distinct r) :
    Counted k [r] (keyStatusHandlerRaw r k) := by
  obtain ⟨hm, hp, hs⟩ := foldl_slot k.prevRawKeys r.keys k.intents
  have hone : ∀ key, key ≠ 0 → fresh key k.prevRawKeys r.keys = presses key k.prevRawKeys [r] :=
    fun key hkey => (fresh_distinct hkey k.prevRawKeys h).trans (Nat.add_zero _).symm
  refine ⟨?_, ?_, hs.trans (or_congr_right ?_)⟩
  · rw [← hone _ (by decide), ← hone _ (by decide)]
    exact hm
  · rw [← hone _ (by decide), ← hone _ (by decide)]
    exact hp
  · rw [presses, presses, presses, presses]
    constructor
    · rintro ⟨c, hc, hprev, rfl | rfl⟩
      · have hin : Appears hidKeyEnter k.prevRawKeys r := ⟨hc, hprev⟩
        rw [if_pos hin]
        omega
      · have hin : Appears hidKeyKpEnter k.prevRawKeys r := ⟨hc, hprev⟩
        rw [if_pos hin]
        omega
    · intro hpos
      by_cases henter : Appears hidKeyEnter k.prevRawKeys r
      · exact ⟨_, henter.1, henter.2, Or.inl rfl⟩
      · by_cases hkp : Appears hidKeyKpEnter k.prevRawKeys r
        · exact ⟨_, hkp.1, hkp.2, Or.inr rfl⟩
        · rw [if_neg henter, if_neg hkp] at hpos
          exact absurd hpos (Nat.lt_irrefl 0)

theorem reports_cons (k : Keyboard) (r : Report) (rs : List Report) :
    reports k (r :: rs) = reports (keyStatusHandlerRaw r k) rs := rfl

theorem presses_cons (key : UInt8) (prev r : Report) (rs : List Report) :
    presses key prev (r :: rs) = presses key prev [r] + presses key r rs := by
  rw [presses, presses, presses, Nat.add_zero]

theorem counted_reports (k : Keyboard) {rs : List Report} (h : ∀ r ∈ rs, Distinct r) :
    Counted k rs (reports k rs) := by
  induction rs generalizing k with
  | nil => exact ⟨by simp [presses, reports], by simp [presses, reports], by simp [presses, reports]⟩
  | cons r rs ih =>
    obtain ⟨hr, hrs⟩ := List.forall_mem_cons.mp h
    have hfirst := counted_report k hr
    have hrest := ih (keyStatusHandlerRaw r k) hrs
    have hprev : (keyStatusHandlerRaw r k).prevRawKeys = r := rfl
    rw [reports_cons]
    refine ⟨?_, ?_, ?_⟩
    · rw [hrest.moves, hfirst.moves, hprev, presses_cons hidKeyDown k.prevRawKeys r rs,
        presses_cons hidKeyUp k.prevRawKeys r rs]
      omega
    · rw [hrest.pages, hfirst.pages, hprev, presses_cons hidKeyPageDown k.prevRawKeys r rs,
        presses_cons hidKeyPageUp k.prevRawKeys r rs]
      omega
    · rw [hrest.select, hfirst.select, hprev, presses_cons hidKeyEnter k.prevRawKeys r rs,
        presses_cons hidKeyKpEnter k.prevRawKeys r rs, or_assoc]
      exact or_congr_right (by omega)

theorem presses_congr {key : UInt8} {prev prev' : Report} {rs rs' : List Report}
    (hprev : key ∈ prev.keys ↔ key ∈ prev'.keys)
    (h : List.Forall₂ (fun r r' => key ∈ r.keys ↔ key ∈ r'.keys) rs rs') :
    presses key prev rs = presses key prev' rs' := by
  induction h generalizing prev prev' with
  | nil => rfl
  | cons hr _ ih =>
    have happears : (Appears key prev _ ↔ Appears key prev' _) :=
      and_congr hr (not_congr hprev)
    rw [presses, presses, ih hr]
    simp only [happears]

theorem distinct_perm {rs rs' : List Report}
    (h : List.Forall₂ (fun r r' => r.keys.Perm r'.keys) rs rs') (hd : ∀ r ∈ rs, Distinct r) :
    ∀ r ∈ rs', Distinct r := by
  induction h with
  | nil => exact hd
  | cons hp _ ih =>
    obtain ⟨hr, hrs⟩ := List.forall_mem_cons.mp hd
    exact List.forall_mem_cons.mpr ⟨(hp.filter _).nodup_iff.mp hr, ih hrs⟩

/-- Each press counts once, in whatever slot the keys of a report stand and whatever other keys do
meanwhile. -/
theorem presses_count_once (k : Keyboard) {rs : List Report} (h : ∀ r ∈ rs, Distinct r) :
    Counted k rs (reports k rs) ∧
      (∀ rs', List.Forall₂ (fun r r' => r.keys.Perm r'.keys) rs rs' →
        Counted k rs (reports k rs')) ∧
      ∀ key rs', List.Forall₂ (fun r r' => key ∈ r.keys ↔ key ∈ r'.keys) rs rs' →
        presses key k.prevRawKeys rs' = presses key k.prevRawKeys rs := by
  refine ⟨counted_reports k h, fun rs' hperm => ?_, fun key rs' hsame =>
    (presses_congr Iff.rfl hsame).symm⟩
  have hsame : ∀ key, presses key k.prevRawKeys rs = presses key k.prevRawKeys rs' :=
    fun key => presses_congr Iff.rfl (hperm.imp (fun _ _ hp => hp.mem_iff))
  have hcounted := counted_reports k (distinct_perm hperm h)
  refine ⟨?_, ?_, ?_⟩
  · rw [hsame, hsame]
    exact hcounted.moves
  · rw [hsame, hsame]
    exact hcounted.pages
  · rw [hsame, hsame]
    exact hcounted.select

def Keyboard.start : Keyboard := ⟨Intents.none, Report.idle⟩

def heldDown : List Report :=
  [⟨[0x51, 0, 0, 0, 0, 0], rfl⟩, ⟨[0x51, 4, 0, 0, 0, 0], rfl⟩, ⟨[4, 0x51, 0, 0, 0, 0], rfl⟩]

theorem presses_count_once_held :
    Counted Keyboard.start heldDown (reports Keyboard.start heldDown) ∧
      (∀ rs', List.Forall₂ (fun r r' => r.keys.Perm r'.keys) heldDown rs' →
        Counted Keyboard.start heldDown (reports Keyboard.start rs')) ∧
      ∀ key rs', List.Forall₂ (fun r r' => key ∈ r.keys ↔ key ∈ r'.keys) heldDown rs' →
        presses key Keyboard.start.prevRawKeys rs' = presses key Keyboard.start.prevRawKeys heldDown :=
  presses_count_once Keyboard.start (by decide)

end RapiBootloader.KeyReports
