import Mathlib.Data.Nat.Dist

namespace RapiBootloader.Lib.Scroll

def clampTo (bound : Nat) (x : Int) : Nat := (min x bound).toNat

/-- Of the windows of `page` places with `cursor` in them the one closest to `top`. -/
def scroll (page top cursor : Nat) : Nat := max (cursor + 1 - page) (min top cursor)

theorem clampTo_le (bound : Nat) (x : Int) : clampTo bound x ≤ bound := by
  simp only [clampTo]
  omega

theorem clampTo_of_mem {bound : Nat} {x : Int} (h : 0 ≤ x ∧ x ≤ bound) :
    (clampTo bound x : Int) = x := by
  simp only [clampTo]
  omega

/-- A clamped walk ends where the whole way leads, unless an end stopped it before it
turned round. -/
theorem clampTo_add {bound : Nat} {x y : Int}
    (h : (0 ≤ x ∧ x ≤ bound) ∨ (0 ≤ x ∧ 0 ≤ y) ∨ (x ≤ bound ∧ y ≤ 0)) :
    clampTo bound (clampTo bound x + y) = clampTo bound (x + y) := by
  simp only [clampTo]
  omega

theorem le_clampTo {bound n : Nat} {x : Int} (hn : n ≤ bound) (h : n ≤ x) :
    n ≤ clampTo bound x := by
  simp only [clampTo]
  omega

theorem clampTo_le_of_le {bound n : Nat} {x : Int} (h : x ≤ n) : clampTo bound x ≤ n := by
  simp only [clampTo]
  omega

theorem clampTo_mono (bound : Nat) {x y : Int} (h : x ≤ y) : clampTo bound x ≤ clampTo bound y := by
  simp only [clampTo]
  omega

theorem scroll_of_onPage {page top cursor : Nat} (h : top ≤ cursor ∧ cursor < top + page) :
    scroll page top cursor = top := by
  simp only [scroll]
  omega

theorem scroll_onPage {page : Nat} (hpage : 0 < page) (top cursor : Nat) :
    scroll page top cursor ≤ cursor ∧ cursor < scroll page top cursor + page := by
  simp only [scroll]
  omega

theorem scroll_le {page top cursor count : Nat} (htop : top ≤ count - page)
    (hcursor : cursor < count) : scroll page top cursor ≤ count - page := by
  simp only [scroll]
  omega

/-- Scrolling in two steps is scrolling at once, as long as the first one does not go past
what the second one needs. -/
theorem scroll_scroll {page top a b : Nat} (hpage : 0 < page)
    (h : (top ≤ a ∧ a ≤ b) ∨ (a < top + page ∧ b ≤ a) ∨ (top ≤ a ∧ a < top + page) ∨ a = b ∨
      page = 1) :
    scroll page (scroll page top a) b = scroll page top b := by
  simp only [scroll]
  omega

def Nearest (P : Nat → Prop) (x t : Nat) : Prop :=
  P t ∧ ∀ u, P u → u ≠ t → Nat.dist x t < Nat.dist x u

theorem Nearest.unique {P : Nat → Prop} {x t u : Nat} (ht : Nearest P x t) (hu : Nearest P x u) :
    t = u := by
  by_contra hne
  exact Nat.lt_asymm (ht.2 u hu.1 (Ne.symm hne)) (hu.2 t ht.1 hne)

theorem Nearest.self {P : Nat → Prop} {t : Nat} (h : P t) : Nearest P t t := by
  refine ⟨h, fun u _ hne => ?_⟩
  rw [Nat.dist_self]
  exact Nat.dist_pos_of_ne (Ne.symm hne)

theorem nearest_interval {lo hi : Nat} (h : lo ≤ hi) (x : Nat) :
    Nearest (fun t => lo ≤ t ∧ t ≤ hi) x (max lo (min x hi)) := by
  constructor
  · omega
  · rintro u ⟨hlo, hhi⟩ hne
    simp only [Nat.dist]
    omega

/-- A window of `page` places that starts at `t` has `cursor` in it, and it is full if the list is
long enough. -/
def Fits (count page cursor t : Nat) : Prop := t ≤ count - page ∧ t ≤ cursor ∧ cursor < t + page

def leastScroll (count page cursor top : Nat) : Nat :=
  max (cursor + 1 - page) (min top (min cursor (count - page)))

theorem nearest_leastScroll {count page cursor : Nat} (hpage : 0 < page) (hcursor : cursor < count)
    (top : Nat) : Nearest (Fits count page cursor) top (leastScroll count page cursor top) := by
  have hfits : Fits count page cursor =
      fun t => cursor + 1 - page ≤ t ∧ t ≤ min cursor (count - page) := by
    funext t
    apply propext
    unfold Fits
    omega
  rw [hfits]
  apply nearest_interval
  omega

end RapiBootloader.Lib.Scroll
