import RapiBootloader.MenuScreen

namespace RapiBootloader.MenuWindow

open Lib.Scroll BootMenu MenuLoop MenuScreen

structure Drawn where
  topVisible : Nat
  rows : List Nat
deriving DecidableEq

def subtract (a b : Nat) : Option Nat := if b ≤ a then some (a - b) else none

def unsigned (n : Nat) : Nat := n % 0x100000000

/-- The first two branches. `wrap` is what becomes of a sum. -/
def followCursor (wrap : Nat → Nat) (page cursor top : Nat) : Option Nat :=
  if cursor < top then some cursor
  else if cursor ≥ wrap (top + page) then (subtract cursor page).map (fun n => wrap (n + 1))
  else some top

def fillPage (count page top : Nat) : Option Nat :=
  if count > page then (subtract count page).map (fun last => if top > last then last else top)
  else some top

/-- `DrawMenu` without the texts. There is no result if a subtraction underflows. -/
def drawWindow (wrap : Nat → Nat) (count page cursor top : Nat) : Option Drawn :=
  (followCursor wrap page cursor top).bind (fun top =>
    (fillPage count page top).map (fun top =>
      let top := if count ≤ page then 0 else top
      let last := if wrap (top + page) > count then count else wrap (top + page)
      ⟨top, List.range' top (last - top)⟩))

def windowAt (count page t : Nat) : Drawn := ⟨t, List.range' t (min (t + page) count - t)⟩

theorem lastRow_eq (count page t : Nat) :
    (if t + page > count then count else t + page) = min (t + page) count := by
  split <;> omega

section

variable {wrap : Nat → Nat} {count page cursor : Nat}

theorem followCursor_some (hwrap : ∀ n < count + page, wrap n = n) (hcursor : cursor < count)
    (hpage : 0 < page) (top : Nat) :
    followCursor wrap page cursor top = some (max (cursor + 1 - page) (min top cursor)) := by
  unfold followCursor
  by_cases habove : cursor < top
  · rw [if_pos habove]
    congr 1
    omega
  · rw [if_neg habove, hwrap (top + page) (by omega)]
    by_cases hbelow : cursor ≥ top + page
    · have hsub : subtract cursor page = some (cursor - page) := if_pos (by omega)
      rw [if_pos hbelow, hsub, Option.map_some, hwrap _ (by omega)]
      congr 1
      omega
    · rw [if_neg hbelow]
      congr 1
      omega

theorem fillPage_some (hcursor : cursor < count) (top : Nat) :
    ∃ filled, fillPage count page (max (cursor + 1 - page) (min top cursor)) = some filled ∧
      (if count ≤ page then 0 else filled) = leastScroll count page cursor top := by
  unfold fillPage leastScroll
  by_cases hlong : count > page
  · have hsub : subtract count page = some (count - page) := if_pos (Nat.le_of_lt hlong)
    rw [if_pos hlong, hsub, Option.map_some]
    refine ⟨_, rfl, ?_⟩
    rw [if_neg (Nat.not_le.mpr hlong)]
    split <;> omega
  · rw [if_neg hlong]
    refine ⟨_, rfl, ?_⟩
    rw [if_pos (Nat.not_lt.mp hlong)]
    omega

/-- As long as no sum wraps, `DrawMenu` scrolls least, and no subtraction underflows. -/
theorem drawWindow_some (hwrap : ∀ n < count + page, wrap n = n) (hpage : 0 < page)
    (hcursor : cursor < count) (top : Nat) :
    drawWindow wrap count page cursor top =
      some (windowAt count page (leastScroll count page cursor top)) := by
  obtain ⟨filled, hfill, htop⟩ := @fillPage_some count page cursor hcursor top
  rw [drawWindow, followCursor_some hwrap hcursor hpage top, Option.bind_some, hfill,
    Option.map_some, htop]
  have hfits := (nearest_leastScroll hpage hcursor top).1
  generalize leastScroll count page cursor top = t at hfits ⊢
  have hsum := hwrap (t + page) (Nat.add_lt_add_right (Nat.lt_of_le_of_lt hfits.2.1 hcursor) page)
  dsimp only
  rw [hsum, lastRow_eq, windowAt]

end

theorem leastScroll_self {count page cursor t : Nat} (hpage : 0 < page) (hcursor : cursor < count)
    (h : Fits count page cursor t) : leastScroll count page cursor t = t :=
  (nearest_leastScroll hpage hcursor t).unique (Nearest.self h)

/-- `DrawMenu` moves the window to the closest start at which the cursor is in it and its page is
full, wherever it was before, and there it stays. What it draws are the entries of that window. The
sums fit an `unsigned` when `count` and `page` together do. -/
theorem menu_scrolls_least (count page cursor top : Nat) (hpage : 0 < page)
    (hcursor : cursor < count) :
    ∃ t, Nearest (Fits count page cursor) top t ∧
      (∀ i, i ∈ (windowAt count page t).rows ↔ t ≤ i ∧ i < min (t + page) count) ∧
      ∀ wrap, wrap = id ∨ count + page ≤ 0x100000000 ∧ wrap = unsigned →
        drawWindow wrap count page cursor top = some (windowAt count page t) ∧
        drawWindow wrap count page cursor t = some (windowAt count page t) := by
  have hnearest := nearest_leastScroll hpage hcursor top
  refine ⟨leastScroll count page cursor top, hnearest, fun i => ?_, ?_⟩
  · rw [windowAt, List.mem_range'_1]
    omega
  · intro wrap hcases
    have hwrap : ∀ n < count + page, wrap n = n := by
      obtain rfl | ⟨hsmall, rfl⟩ := hcases
      · exact fun n _ => rfl
      · exact fun n hn => Nat.mod_eq_of_lt (Nat.lt_of_lt_of_le hn hsmall)
    refine ⟨drawWindow_some hwrap hpage hcursor top, ?_⟩
    rw [drawWindow_some hwrap hpage hcursor, leastScroll_self hpage hcursor hnearest.1]

/-- A jump far below a window that starts behind the last full page. -/
theorem menu_scrolls_least_jump :
    ∃ t, Nearest (Fits 40 10 35) 38 t ∧
      drawWindow unsigned 40 10 35 38 = some (windowAt 40 10 t) := by
  obtain ⟨t, hnearest, -, hdraw⟩ := menu_scrolls_least 40 10 35 38 (by decide) (by decide)
  exact ⟨t, hnearest, (hdraw unsigned (Or.inr ⟨by decide, rfl⟩)).1⟩

theorem drawMenu_drawn (menu : Menu) (page : Nat) (s : CKernel) (hpage : 0 < page)
    (hcursor : s.cursor < getCount menu) :
    ∃ drawn, drawWindow id (getCount menu) page s.cursor s.topVisible = some drawn ∧
      (drawMenu (getCount menu) page s).topVisible = drawn.topVisible ∧
      (drawFrame menu page (drawMenu (getCount menu) page s)).rows =
        drawn.rows.map (drawRow menu s.cursor) := by
  have htop : (drawMenu (getCount menu) page s).topVisible =
      leastScroll (getCount menu) page s.cursor s.topVisible := by
    have hfollow : (if s.cursor < s.topVisible then s.cursor
        else if s.cursor ≥ s.topVisible + page then s.cursor - page + 1 else s.topVisible) =
        max (s.cursor + 1 - page) (min s.topVisible s.cursor) := by
      split
      · omega
      · split <;> omega
    unfold drawMenu leastScroll
    dsimp only
    rw [hfollow]
    by_cases hshort : getCount menu ≤ page
    · rw [if_pos hshort]
      omega
    · rw [if_neg hshort]
      split <;> omega
  refine ⟨_, drawWindow_some (fun n _ => rfl) hpage hcursor s.topVisible, htop, ?_⟩
  simp only [drawFrame, htop, lastRow_eq, windowAt]
  rfl

end RapiBootloader.MenuWindow
