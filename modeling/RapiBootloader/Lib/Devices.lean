import Mathlib.Logic.Relation
import RapiBootloader.Lib.Ticks

namespace RapiBootloader.Lib.Devices

open Ticks

variable {σ α β : Type}

/-- Registers of 32 bits, and the timer beside them. Whatever is behind them answers as it likes
and may change with every access. -/
structure Device (σ : Type) where
  read32 : UInt64 → σ → UInt32 × σ
  write32 : UInt64 → UInt32 → σ → σ
  getTicks : σ → UInt32 × σ

/-- A program has no result while it is still running. -/
abbrev Prog (σ α : Type) := StateT σ Option α

def Device.read (dev : Device σ) (address : UInt64) : Prog σ UInt32 :=
  fun s => some (dev.read32 address s)

def Device.write (dev : Device σ) (address : UInt64) (value : UInt32) : Prog σ Unit :=
  fun s => some ((), dev.write32 address value s)

def Device.look (dev : Device σ) : Prog σ UInt32 := fun s => some (dev.getTicks s)

def loop (body : Prog σ (Option α)) : Nat → Prog σ α
  | 0 => fun _ => none
  | fuel + 1 => do
    match ← body with
    | some a => pure a
    | none => loop body fuel

theorem bind_run {prog : Prog σ α} {next : α → Prog σ β} {a : α} {s t : σ}
    (h : prog s = some (a, t)) : (prog >>= next) s = next a t := by
  show (prog s).bind (fun p => next p.1 p.2) = next a t
  rw [h]
  rfl

/-- Started where `P` holds the program ends, and then `Q` holds. -/
def Meets (P : σ → Prop) (prog : Prog σ α) (Q : α → σ → Prop) : Prop :=
  ∀ s, P s → ∃ a t, prog s = some (a, t) ∧ Q a t

namespace Meets

variable {P P' : σ → Prop} {Q Q' : α → σ → Prop} {R : β → σ → Prop} {prog : Prog σ α}

theorem mono (h : Meets P prog Q) (hpre : ∀ s, P' s → P s) (hpost : ∀ a t, Q a t → Q' a t) :
    Meets P' prog Q' := by
  intro s hs
  obtain ⟨a, t, hrun, ht⟩ := h s (hpre s hs)
  exact ⟨a, t, hrun, hpost a t ht⟩

theorem ret {a : α} (h : ∀ s, P s → Q a s) : Meets P (pure a : Prog σ α) Q :=
  fun s hs => ⟨a, s, rfl, h s hs⟩

theorem bind {next : α → Prog σ β} (h : Meets P prog Q) (hnext : ∀ a, Meets (Q a) (next a) R) :
    Meets P (prog >>= next) R := by
  intro s hs
  obtain ⟨a, t, hrun, ht⟩ := h s hs
  obtain ⟨b, u, hrun', hu⟩ := hnext a t ht
  exact ⟨b, u, (bind_run hrun).trans hrun', hu⟩

theorem cond {c : Prop} [Decidable c] {other : Prog σ α} (hthen : c → Meets P prog Q)
    (helse : ¬ c → Meets P other Q) : Meets P (if c then prog else other) Q := by
  by_cases h : c
  · rw [if_pos h]
    exact hthen h
  · rw [if_neg h]
    exact helse h

/-- The rule for loops: a turn without an answer keeps the invariant and brings the variant
down. -/
theorem loop {body : Prog σ (Option α)} (inv : σ → Prop) (variant : σ → Nat)
    (hturn : ∀ s, inv s → ∃ r t, body s = some (r, t) ∧
      (∀ a, r = some a → Q a t) ∧ (r = none → inv t ∧ variant t < variant s))
    {fuel : Nat} : Meets (fun s => inv s ∧ variant s < fuel) (loop body fuel) Q := by
  induction fuel with
  | zero => exact fun s hs => absurd hs.2 (Nat.not_lt_zero _)
  | succ fuel ih =>
    intro s hs
    obtain ⟨r, t, hbody, hsome, hnone⟩ := hturn s hs.1
    have hunroll : Devices.loop body (fuel + 1) s =
        (body s).bind fun p => (match p.1 with
          | some a => pure a
          | none => Devices.loop body fuel : Prog σ α) p.2 := rfl
    rw [hunroll, hbody, Option.bind_some]
    cases r with
    | some a => exact ⟨a, t, rfl, hsome a rfl⟩
    | none =>
      obtain ⟨hinv, hless⟩ := hnone rfl
      exact ih t ⟨hinv, by omega⟩

end Meets

/-- What a program may do at a cost: nothing is free of charge for none, and the costs add up. -/
structure Graded (R : Nat → σ → σ → Prop) : Prop where
  refl : ∀ s, R 0 s s
  comp : ∀ {m n s t u}, R m s t → R n t u → R (m + n) s u
  mono : ∀ {m n s t}, m ≤ n → R m s t → R n s t

/-- From wherever it is started the program ends, at the cost `n` at most. -/
def Ends (R : Nat → σ → σ → Prop) (n : Nat) (prog : Prog σ α) : Prop :=
  ∀ s, Meets (s = ·) prog fun _ t => R n s t

namespace Ends

variable {R : Nat → σ → σ → Prop} {m n : Nat} {prog : Prog σ α}

theorem mono (hR : Graded R) (h : Ends R m prog) (hle : m ≤ n) : Ends R n prog :=
  fun s => (h s).mono (fun _ hs => hs) fun _ _ ht => hR.mono hle ht

theorem ret (hR : Graded R) (a : α) : Ends R n (pure a : Prog σ α) :=
  fun s => Meets.ret fun t (ht : s = t) => by
    rw [← ht]
    exact hR.mono (Nat.zero_le n) (hR.refl s)

theorem bind (hR : Graded R) {next : α → Prog σ β} (h : Ends R m prog)
    (hnext : ∀ a, Ends R n (next a)) : Ends R (m + n) (prog >>= next) := by
  intro s
  apply Meets.bind (h s)
  intro a t ht
  obtain ⟨b, u, hrun, hu⟩ := hnext a t t rfl
  exact ⟨b, u, hrun, hR.comp ht hu⟩

theorem cond {c : Prop} [Decidable c] {other : Prog σ α} (hthen : Ends R n prog)
    (helse : Ends R n other) : Ends R n (if c then prog else other) :=
  fun s => Meets.cond (fun _ => hthen s) fun _ => helse s

end Ends

/-- A device and the time at it. Time passes with every access, no more than `gap` with one, and
the timer shows a time of the access that looks at it. -/
structure Clock (dev : Device σ) where
  time : σ → Nat
  perTick : Nat
  gap : Nat
  runs : 0 < perTick
  read_later : ∀ address s,
    time s < time (dev.read32 address s).2 ∧ time (dev.read32 address s).2 ≤ time s + gap
  write_later : ∀ address value s,
    time s < time (dev.write32 address value s) ∧ time (dev.write32 address value s) ≤ time s + gap
  look_later : ∀ s, time s < time (dev.getTicks s).2 ∧ time (dev.getTicks s).2 ≤ time s + gap
  shown : ∀ s, ∃ t, time s ≤ t ∧ t ≤ time (dev.getTicks s).2 ∧
    (dev.getTicks s).1 = reading (t / perTick)

namespace Clock

variable {dev : Device σ} (clock : Clock dev)

/-- The longest that a wait of `limit` ticks can last. -/
def limit (ticks : UInt32) : Nat := (ticks.toNat + 1) * clock.perTick

theorem look_inside {ticks : UInt32} {start now : Nat} (hle : start ≤ now)
    (hnow : now ≤ start + clock.limit ticks + 3 * clock.gap)
    (hroom : ticks.toNat + 3 * clock.gap + 2 < UInt32.size)
    (hyoung : ¬ reading (now / clock.perTick) - reading (start / clock.perTick) > ticks) :
    now < start + clock.limit ticks := by
  have hticks : start / clock.perTick ≤ now / clock.perTick := Nat.div_le_div_right hle
  have hstart := Nat.div_add_mod' start clock.perTick
  have hmod := Nat.mod_lt start clock.runs
  have hgap : 3 * clock.gap ≤ 3 * clock.gap * clock.perTick := Nat.le_mul_of_pos_right _ clock.runs
  have hfar : now / clock.perTick < start / clock.perTick + ticks.toNat + 2 + 3 * clock.gap := by
    rw [Nat.div_lt_iff_lt_mul clock.runs, Nat.add_mul, Nat.add_mul, Nat.add_mul]
    rw [limit, Nat.add_mul] at hnow
    omega
  have hsince := UInt32.le_iff_toNat_le.mp (UInt32.not_lt.mp hyoung)
  rw [reading_sub hticks, Nat.mod_eq_of_lt (by omega)] at hsince
  have hnear : now < (start / clock.perTick + ticks.toNat + 1) * clock.perTick := by
    rw [← Nat.div_lt_iff_lt_mul clock.runs]
    omega
  rw [Nat.add_mul, Nat.add_mul] at hnear
  rw [limit, Nat.add_mul]
  omega

theorem look_early {ticks : UInt32} {start now : Nat} (hle : start ≤ now)
    (hnow : now < start + ticks.toNat * clock.perTick) :
    ¬ reading (now / clock.perTick) - reading (start / clock.perTick) > ticks := by
  have hticks : start / clock.perTick ≤ now / clock.perTick := Nat.div_le_div_right hle
  have hstart := Nat.div_add_mod' start clock.perTick
  have hmod := Nat.mod_lt start clock.runs
  have hnear : now / clock.perTick < start / clock.perTick + 1 + ticks.toNat := by
    rw [Nat.div_lt_iff_lt_mul clock.runs, Nat.add_mul, Nat.add_mul]
    omega
  apply UInt32.not_lt.mpr
  rw [UInt32.le_iff_toNat_le, reading_sub hticks]
  exact (Nat.mod_le _ _).trans (by omega)

structure Within (access : σ → σ → Prop) (n : Nat) (s t : σ) : Prop where
  later : clock.time s ≤ clock.time t
  soon : clock.time t ≤ clock.time s + n
  path : Relation.ReflTransGen access s t

theorem within_graded (access : σ → σ → Prop) : Graded (clock.Within access) where
  refl _ := ⟨Nat.le_refl _, Nat.le_refl _, .refl⟩
  comp h h' := ⟨h.later.trans h'.later, by have := h.soon; have := h'.soon; omega,
    h.path.trans h'.path⟩
  mono hle h := ⟨h.later, h.soon.trans (Nat.add_le_add_left hle _), h.path⟩

variable {access : σ → σ → Prop}

theorem read_ends {address : UInt64} (h : ∀ s, access s (dev.read32 address s).2) :
    Ends (clock.Within access) clock.gap (dev.read address) := by
  rintro s _ rfl
  obtain ⟨hlater, hsoon⟩ := clock.read_later address s
  exact ⟨_, _, rfl, Nat.le_of_lt hlater, hsoon, .single (h s)⟩

theorem write_ends {address : UInt64} {value : UInt32}
    (h : ∀ s, access s (dev.write32 address value s)) :
    Ends (clock.Within access) clock.gap (dev.write address value) := by
  rintro s _ rfl
  obtain ⟨hlater, hsoon⟩ := clock.write_later address value s
  exact ⟨_, _, rfl, Nat.le_of_lt hlater, hsoon, .single (h s)⟩

end Clock

end RapiBootloader.Lib.Devices
