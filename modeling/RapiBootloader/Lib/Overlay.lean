import Mathlib.Data.List.Basic
import Mathlib.Data.List.Induction

namespace RapiBootloader.Lib.Overlay

variable {ι γ : Type}

/-- Store the cells that `p` has over those of `a`. -/
def overlay (a : ι → γ) (p : ι → Option γ) : ι → γ := fun i => (p i).getD (a i)

/-- Of several partial writes in a row the last one that reaches a cell. -/
def latest : List (ι → Option γ) → ι → Option γ
  | [], _ => none
  | p :: ps, i => (latest ps i).or (p i)

/-- What is stored has to agree with the outcome, and so has what is left. -/
theorem overlay_eq_iff {a q : ι → γ} {p : ι → Option γ} :
    overlay a p = q ↔ (∀ i, ∀ x ∈ p i, x = q i) ∧ ∀ i, p i = none → q i = a i := by
  constructor
  · rintro rfl
    constructor
    · intro i x hx
      rw [overlay, hx]
      rfl
    · intro i hi
      rw [overlay, hi]
      rfl
  · rintro ⟨hstored, hleft⟩
    funext i
    cases hp : p i with
    | some x =>
      rw [overlay, hp]
      exact hstored i x hp
    | none =>
      rw [overlay, hp]
      exact (hleft i hp).symm

/-- Writing one after the other is writing what stays. -/
theorem foldl_overlay (a : ι → γ) (ps : List (ι → Option γ)) :
    ps.foldl overlay a = overlay a (latest ps) := by
  induction ps generalizing a with
  | nil => rfl
  | cons p ps ih =>
    rw [List.foldl_cons, ih]
    funext i
    simp only [overlay, latest]
    cases latest ps i <;> rfl

theorem latest_append (ps qs : List (ι → Option γ)) (i : ι) :
    latest (ps ++ qs) i = (latest qs i).or (latest ps i) := by
  induction ps with
  | nil => simp [latest]
  | cons p ps ih => rw [List.cons_append, latest, latest, ih, Option.or_assoc]

theorem latest_eq_none {ps : List (ι → Option γ)} {i : ι} :
    latest ps i = none ↔ ∀ p ∈ ps, p i = none := by
  induction ps with
  | nil => simp [latest]
  | cons p ps ih => simp [latest, ih, and_comm]

theorem latest_total (qs : List (ι → γ)) (i : ι) :
    latest (qs.map (fun q i => some (q i))) i = qs.getLast?.map (fun q => q i) := by
  induction qs using List.reverseRecOn with
  | nil => rfl
  | append_singleton qs q ih => simp [latest_append, latest]

end RapiBootloader.Lib.Overlay
