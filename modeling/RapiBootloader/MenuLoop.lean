import RapiBootloader.BootMenu
import RapiBootloader.MenuView

namespace RapiBootloader.MenuLoop

open Lib.Scroll BootMenu MenuView

/-- The rows of the screen without header and footer. There is always one. -/
def visibleRows (rows : Nat) : Nat := if rows > 6 then rows - 6 else 1

/-- What keys have asked for and the main loop has not done yet. No jump is `-1` in
the source. -/
structure Intents where
  moveAccum : Int
  pageAccum : Int
  jumpTo : Option Nat
  selectPending : Bool
deriving DecidableEq, Repr

def Intents.none : Intents := ⟨0, 0, Option.none, false⟩

def inject (k : Intents) (c : UInt8) : Intents :=
  if c = 106 then { k with moveAccum := k.moveAccum + 1 }
  else if c = 107 then { k with moveAccum := k.moveAccum - 1 }
  else if c = 102 then { k with pageAccum := k.pageAccum + 1 }
  else if c = 98 then { k with pageAccum := k.pageAccum - 1 }
  else if c = 13 ∨ c = 10 then { k with selectPending := true }
  else if 49 ≤ c ∧ c ≤ 57 then { k with jumpTo := some (c.toNat - 49) }
  else k

structure CKernel where
  intents : Intents
  cursor : Nat
  topVisible : Nat
deriving DecidableEq, Repr

/-- The part of `DrawMenu` that moves the window. -/
def drawMenu (count page : Nat) (s : CKernel) : CKernel :=
  let top :=
    if s.cursor < s.topVisible then s.cursor
    else if s.cursor ≥ s.topVisible + page then s.cursor - page + 1
    else s.topVisible
  let top := if count > page ∧ top > count - page then count - page else top
  let top := if count ≤ page then 0 else top
  { s with topVisible := top }

def drainMove (count : Nat) (s : CKernel) : CKernel × Bool :=
  let nMove := s.intents.moveAccum
  if nMove ≠ 0 then
    let s := { s with intents := { s.intents with moveAccum := 0 } }
    let nPos : Int := s.cursor + nMove
    let nPos : Int := if nPos < 0 then 0 else nPos
    let nPos : Int := if nPos ≥ count then count - 1 else nPos
    if nPos.toNat ≠ s.cursor then ({ s with cursor := nPos.toNat }, true) else (s, false)
  else (s, false)

def drainPage (count page : Nat) (s : CKernel) : CKernel × Bool :=
  let nPage := s.intents.pageAccum
  if nPage ≠ 0 then
    let s := { s with intents := { s.intents with pageAccum := 0 } }
    let nMaxTop : Int := if count > page then count - page else 0
    let nTop : Int := s.topVisible + nPage * page
    let nTop : Int := if nTop < 0 then 0 else nTop
    let nTop : Int := if nTop > nMaxTop then nMaxTop else nTop
    if nTop.toNat ≠ s.topVisible ∨ s.cursor ≠ nTop.toNat then
      ({ s with topVisible := nTop.toNat, cursor := nTop.toNat }, true)
    else (s, false)
  else (s, false)

def drainJump (count : Nat) (s : CKernel) : CKernel × Bool :=
  match s.intents.jumpTo with
  | some nJump =>
    let s := { s with intents := { s.intents with jumpTo := none } }
    if nJump < count ∧ nJump ≠ s.cursor then ({ s with cursor := nJump }, true) else (s, false)
  | none => (s, false)

/-- One turn of the main loop with what the serial port had: the bytes are folded into the
intents, and these are drained. With a select pending the entry at the cursor is booted. -/
def poll (count page : Nat) (s : CKernel) (batch : List UInt8) : CKernel × Option Nat :=
  let s := { s with intents := batch.foldl inject s.intents }
  let (s, moved) := drainMove count s
  let (s, paged) := drainPage count page s
  let (s, jumped) := drainJump count s
  let s := if moved || paged || jumped then drawMenu count page s else s
  if s.intents.selectPending then
    ({ s with intents := { s.intents with selectPending := false } }, some s.cursor)
  else (s, none)

/-- `BootSelection` arms chain-boot or hangs. The loop ends with it either way. -/
def mainLoop (count page : Nat) : CKernel → List (List UInt8) → Option Nat
  | _, [] => none
  | s, batch :: batches =>
    match poll count page s batch with
    | (_, some index) => some index
    | (s, none) => mainLoop count page s batches

def run (menu : Menu) (rows : Nat) (batches : List (List UInt8)) : Option Nat :=
  let count := getCount menu
  let page := visibleRows rows
  if count = 0 then none
  else if count = 1 then some 0
  else mainLoop count page (drawMenu count page ⟨Intents.none, 0, 0⟩) batches

variable {l : Layout}

def landTop (v : View l) (k : Intents) : Nat :=
  if k.pageAccum = 0 then v.top else clampTo (l.count - l.page) (v.top + k.pageAccum * l.page)

/-- Where the accumulators put the cursor: a jump overrides a page, and a page a move. -/
def landCursor (v : View l) (k : Intents) : Nat :=
  (k.jumpTo.filter (· < l.count)).getD
    (if k.pageAccum = 0 then clampTo (l.count - 1) (v.cursor + k.moveAccum) else landTop v k)

theorem landTop_le (v : View l) (k : Intents) : landTop v k ≤ l.count - l.page := by
  simp only [landTop]
  split
  · exact v.full
  · exact clampTo_le _ _

theorem landCursor_lt (v : View l) (k : Intents) : landCursor v k < l.count := by
  simp only [landCursor, landTop]
  cases hj : k.jumpTo.filter (· < l.count) with
  | some index => exact of_decide_eq_true (Option.filter_eq_some_iff.mp hj).2
  | none =>
    rw [Option.getD_none]
    split
    · exact clampTo_lt l _
    · exact clampTo_page_lt l _

def settle (v : View l) (k : Intents) : View l :=
  View.scrolled l (landTop v k) (landCursor v k) (landTop_le v k) (landCursor_lt v k)

def kernelOf (v : View l) : CKernel := ⟨Intents.none, v.cursor, v.top⟩

theorem drawMenu_eq (l : Layout) (k : Intents) {cursor top : Nat} (hcursor : cursor < l.count)
    (htop : top ≤ l.count - l.page) :
    drawMenu l.count l.page ⟨k, cursor, top⟩ = ⟨k, cursor, scroll l.page top cursor⟩ := by
  have hrow := l.someRow
  have hscroll : scroll l.page top cursor =
      if cursor < top then cursor else if cursor ≥ top + l.page then cursor - l.page + 1 else top := by
    simp only [scroll]
    split
    · omega
    · split <;> omega
  have hle := scroll_le htop hcursor
  have hlast : ¬ (l.count > l.page ∧ scroll l.page top cursor > l.count - l.page) := by omega
  have hshort : (if l.count ≤ l.page then 0 else scroll l.page top cursor) =
      scroll l.page top cursor := by
    split <;> omega
  rw [drawMenu]
  dsimp only
  rw [← hscroll, if_neg hlast, hshort]

theorem drainMove_eq (v : View l) (k : Intents) :
    ∃ moved, drainMove l.count ⟨k, v.cursor, v.top⟩ =
        (⟨{ k with moveAccum := 0 }, clampTo (l.count - 1) (v.cursor + k.moveAccum), v.top⟩,
          moved) ∧
      (moved = false → clampTo (l.count - 1) (v.cursor + k.moveAccum) = v.cursor) := by
  have hlist := v.inList
  unfold drainMove
  dsimp only
  by_cases hk : k.moveAccum = 0
  · have hsame : clampTo (l.count - 1) (v.cursor + k.moveAccum) = v.cursor := by
      simp only [clampTo]
      omega
    rw [if_neg (not_not.mpr hk), hsame, ← hk]
    exact ⟨false, rfl, fun _ => rfl⟩
  · rw [if_pos hk]
    have hpos : ∀ x : Int,
        (if (if x < 0 then 0 else x) ≥ l.count then (l.count : Int) - 1
          else if x < 0 then 0 else x).toNat = clampTo (l.count - 1) x := by
      intro x
      simp only [clampTo]
      split <;> split <;> omega
    rw [hpos]
    split
    · exact ⟨true, rfl, fun h => absurd h (by decide)⟩
    · rename_i hne
      rw [not_not] at hne
      rw [hne]
      exact ⟨false, rfl, fun _ => rfl⟩

theorem drainPage_eq (v : View l) (k : Intents) (cursor : Nat) :
    ∃ paged, drainPage l.count l.page ⟨k, cursor, v.top⟩ =
        (⟨{ k with pageAccum := 0 }, if k.pageAccum = 0 then cursor else landTop v k,
          landTop v k⟩, paged) ∧
      (paged = false → landTop v k = v.top ∧ (k.pageAccum ≠ 0 → landTop v k = cursor)) := by
  unfold drainPage landTop
  dsimp only
  by_cases hk : k.pageAccum = 0
  · rw [if_neg (not_not.mpr hk), if_pos hk, if_pos hk, ← hk]
    exact ⟨false, rfl, fun _ => ⟨rfl, fun h => absurd rfl h⟩⟩
  · rw [if_pos hk, if_neg hk, if_neg hk]
    have htop : ∀ x : Int,
        (if (if x < 0 then 0 else x) >
            (if l.count > l.page then (l.count : Int) - l.page else 0) then
          (if l.count > l.page then (l.count : Int) - l.page else 0)
          else if x < 0 then 0 else x).toNat = clampTo (l.count - l.page) x := by
      intro x
      simp only [clampTo]
      split <;> split <;> omega
    rw [htop]
    split
    · exact ⟨true, rfl, fun h => absurd h (by decide)⟩
    · rename_i hsame
      obtain ⟨ht, hc⟩ := not_or.mp hsame
      rw [not_not] at ht hc
      rw [ht, hc, ht]
      exact ⟨false, rfl, fun _ => ⟨rfl, fun _ => rfl⟩⟩

theorem drainJump_eq (count : Nat) (k : Intents) (cursor top : Nat) :
    ∃ jumped, drainJump count ⟨k, cursor, top⟩ =
        (⟨{ k with jumpTo := none }, (k.jumpTo.filter (· < count)).getD cursor, top⟩, jumped) ∧
      (jumped = false → (k.jumpTo.filter (· < count)).getD cursor = cursor) := by
  obtain ⟨moveAccum, pageAccum, jumpTo, selectPending⟩ := k
  simp only [drainJump]
  cases jumpTo with
  | none => exact ⟨false, rfl, fun _ => rfl⟩
  | some index =>
    dsimp only
    by_cases hlt : index < count
    · have hfilter : (some index).filter (· < count) = some index :=
        Option.filter_eq_some_iff.mpr ⟨rfl, decide_eq_true hlt⟩
      rw [hfilter]
      by_cases hne : index ≠ cursor
      · rw [if_pos ⟨hlt, hne⟩]
        exact ⟨true, rfl, fun h => absurd h (by decide)⟩
      · rw [if_neg (fun h => hne h.2)]
        rw [not_not] at hne
        rw [hne]
        exact ⟨false, rfl, fun _ => rfl⟩
    · have hfilter : (some index).filter (· < count) = none := by
        simpa using Nat.le_of_not_lt hlt
      rw [if_neg (fun h => hlt h.1), hfilter]
      exact ⟨false, rfl, fun _ => rfl⟩

def drainAll (count page : Nat) (s : CKernel) : CKernel × Bool :=
  let (s, moved) := drainMove count s
  let (s, paged) := drainPage count page s
  let (s, jumped) := drainJump count s
  (s, moved || paged || jumped)

theorem poll_drainAll (count page : Nat) (s : CKernel) (batch : List UInt8) :
    poll count page s batch =
      let r := drainAll count page { s with intents := batch.foldl inject s.intents }
      let s := if r.2 then drawMenu count page r.1 else r.1
      if s.intents.selectPending then
        ({ s with intents := { s.intents with selectPending := false } }, some s.cursor)
      else (s, none) := rfl

theorem settle_of_land {v : View l} {k : Intents} (hcursor : landCursor v k = v.cursor)
    (htop : landTop v k = v.top) : settle v k = v := by
  apply View.ext
  · exact hcursor
  · change scroll l.page (landTop v k) (landCursor v k) = v.top
    rw [htop, hcursor]
    exact scroll_of_onPage v.onPage

theorem drainAll_eq (v : View l) (k : Intents) :
    ∃ redraw, drainAll l.count l.page ⟨k, v.cursor, v.top⟩ =
        (⟨⟨0, 0, none, k.selectPending⟩, landCursor v k, landTop v k⟩, redraw) ∧
      (redraw = false → landCursor v k = v.cursor ∧ landTop v k = v.top) := by
  obtain ⟨moved, hmove, hmoved⟩ := drainMove_eq v k
  obtain ⟨paged, hpage, hpaged⟩ := drainPage_eq v { k with moveAccum := 0 }
    (clampTo (l.count - 1) (v.cursor + k.moveAccum))
  have htop : landTop v { k with moveAccum := 0 } = landTop v k := rfl
  rw [htop] at hpage hpaged
  obtain ⟨jumped, hjump, hjumped⟩ := drainJump_eq l.count ⟨0, 0, k.jumpTo, k.selectPending⟩
    (if k.pageAccum = 0 then clampTo (l.count - 1) (v.cursor + k.moveAccum) else landTop v k)
    (landTop v k)
  have hcursor : (k.jumpTo.filter (· < l.count)).getD
      (if k.pageAccum = 0 then clampTo (l.count - 1) (v.cursor + k.moveAccum)
        else landTop v k) = landCursor v k := rfl
  rw [hcursor] at hjump hjumped
  refine ⟨moved || paged || jumped, ?_, fun hdraw => ?_⟩
  · simp only [drainAll, hmove, hpage, hjump]
  · rw [Bool.or_eq_false_iff, Bool.or_eq_false_iff] at hdraw
    obtain ⟨⟨hmf, hpf⟩, hjf⟩ := hdraw
    refine ⟨?_, (hpaged hpf).1⟩
    rw [hjumped hjf]
    split
    · exact hmoved hmf
    · rename_i hk
      exact ((hpaged hpf).2 hk).trans (hmoved hmf)

/-- Whatever the intents were, the turn folds the bytes into them and leaves the settled view
and a kernel at rest. -/
theorem poll_from (v : View l) (k : Intents) (batch : List UInt8) :
    poll l.count l.page ⟨k, v.cursor, v.top⟩ batch =
      (kernelOf (settle v (batch.foldl inject k)),
        if (batch.foldl inject k).selectPending then
          some (settle v (batch.foldl inject k)).cursor
        else none) := by
  rw [poll_drainAll]
  dsimp only
  generalize batch.foldl inject k = k
  obtain ⟨redraw, hdrain, hkeep⟩ := drainAll_eq v k
  have hscroll : (if redraw = true then
        drawMenu l.count l.page ⟨⟨0, 0, none, k.selectPending⟩, landCursor v k, landTop v k⟩
        else ⟨⟨0, 0, none, k.selectPending⟩, landCursor v k, landTop v k⟩) =
      ⟨⟨0, 0, none, k.selectPending⟩, (settle v k).cursor, (settle v k).top⟩ := by
    cases redraw with
    | true => exact drawMenu_eq l _ (landCursor_lt v k) (landTop_le v k)
    | false =>
      obtain ⟨hcursor, htop⟩ := hkeep rfl
      rw [settle_of_land hcursor htop, hcursor, htop]
      rfl
  rw [hdrain]
  dsimp only
  rw [hscroll]
  cases hs : k.selectPending with
  | true => rfl
  | false => rfl

theorem poll_eq (v : View l) (batch : List UInt8) :
    poll l.count l.page (kernelOf v) batch =
      (kernelOf (settle v (batch.foldl inject Intents.none)),
        if (batch.foldl inject Intents.none).selectPending then
          some (settle v (batch.foldl inject Intents.none)).cursor
        else none) := poll_from v Intents.none batch

end RapiBootloader.MenuLoop
