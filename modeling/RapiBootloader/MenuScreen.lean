import RapiBootloader.MenuScript

namespace RapiBootloader.MenuScreen

open Lib.Scroll Lib.Strings BootMenu MenuView MenuLoop MenuScript

/-- A line of the list as it is written. The resting line is in reverse video. -/
structure Row where
  index : Nat
  reverse : Bool
  line : List UInt8
deriving DecidableEq

structure Frame where
  header : List UInt8
  rows : List Row
  footer : Option (List UInt8)
deriving DecidableEq

def decimal (n : Nat) : List UInt8 := ascii (toString n)

def labelText (menu : Menu) (i : Nat) : List UInt8 := ((getLabel menu i).map CString.chars).getD []

def drawRow (menu : Menu) (cursor i : Nat) : Row :=
  let text := decimal (i + 1) ++ ascii ". " ++ labelText menu i
  if i = cursor then ⟨i, true, 27 :: ascii "[7m> " ++ text ++ 27 :: ascii "[0m\n"⟩
  else ⟨i, false, ascii "  " ++ text ++ ascii "\n"⟩

def menuHeader : List UInt8 :=
  27 :: ascii "[H" ++ 27 :: ascii "[J" ++ ascii "rapi-bootloader boot picker\n" ++
    ascii "select an entry, then press Enter\n" ++
    ascii "(up/down move, PgUp/PgDn page, 1-9 jump)\n\n"

/-- The part of `DrawMenu` behind the scrolling. A list that fits has no footer. -/
def drawFrame (menu : Menu) (page : Nat) (s : CKernel) : Frame :=
  let count := getCount menu
  let top := s.topVisible
  let last := if top + page > count then count else top + page
  { header := menuHeader
    rows := (List.range' top (last - top)).map (drawRow menu s.cursor)
    footer :=
      if count > page then
        some (ascii "\n  [ " ++ decimal (top + 1) ++ ascii "-" ++ decimal last ++ ascii " of " ++
          decimal count ++ ascii " ]   " ++ (if top > 0 then ascii "^PgUp " else []) ++
          (if last < count then ascii "vPgDn" else []))
      else none }

structure Shown where
  kernel : CKernel
  frame : Frame

def turn (menu : Menu) (page : Nat) (t : Shown) (input : Intents × List UInt8) :
    Shown × Option Nat :=
  let count := getCount menu
  let s := { t.kernel with intents := input.1 }
  let r := poll count page s input.2
  let redraw := (drainAll count page { s with intents := input.2.foldl inject s.intents }).2
  (⟨r.1, if redraw then drawFrame menu page r.1 else t.frame⟩, r.2)

def turns (menu : Menu) (page : Nat) (t : Shown) : List (Intents × List UInt8) → Shown × Option Nat
  | [] => (t, none)
  | input :: inputs =>
    match turn menu page t input with
    | (t, some index) => (t, some index)
    | (t, none) => turns menu page t inputs

def firstShown (menu : Menu) (page : Nat) : Shown :=
  let s := drawMenu (getCount menu) page ⟨Intents.none, 0, 0⟩
  ⟨s, drawFrame menu page s⟩

/-- `Run` with what it shows and the index it gives to `BootSelection`. A single entry is
booted without a menu. -/
def runShown (menu : Menu) (page : Nat) (inputs : List (Intents × List UInt8)) :
    Option Shown × Option Nat :=
  if getCount menu = 0 then (none, none)
  else if getCount menu = 1 then (none, some 0)
  else
    let r := turns menu page (firstShown menu page) inputs
    (some r.1, r.2)

theorem filter_range' {top n cursor : Nat} (hlo : top ≤ cursor) (hhi : cursor < top + n) :
    (List.range' top n).filter (fun i => decide (i = cursor)) = [cursor] := by
  induction n generalizing top with
  | zero => omega
  | succ n ih =>
    rw [List.range'_succ, List.filter_cons]
    by_cases hc : top = cursor
    · subst hc
      simp only [decide_true, if_true, List.cons.injEq, true_and, List.filter_eq_nil_iff,
        decide_eq_true_eq, List.mem_range'_1]
      omega
    · rw [if_neg (by simpa using hc)]
      exact ih (by omega) (by omega)

def shownLayout (menu : Menu) (page : Nat) (hcount : 0 < getCount menu) (hpage : 0 < page) :
    Layout := ⟨getCount menu, page, hcount, hpage⟩

def Shows (menu : Menu) {l : Layout} (v : View l) (t : Shown) : Prop :=
  t = ⟨kernelOf v, drawFrame menu l.page (kernelOf v)⟩

section shown

variable {menu : Menu} {l : Layout} (hl : l.count = getCount menu)
include hl

theorem turn_shows {v : View l} {t : Shown} (h : Shows menu v t) (input : Intents × List UInt8) :
    Shows menu (settle v (input.2.foldl inject input.1)) (turn menu l.page t input).1 ∧
      ∀ index, (turn menu l.page t input).2 = some index →
        index = (settle v (input.2.foldl inject input.1)).cursor := by
  obtain ⟨k, batch⟩ := input
  rw [Shows] at h
  subst h
  have hpoll := poll_from v k batch
  obtain ⟨redraw, hdrain, hkeep⟩ := drainAll_eq v (batch.foldl inject k)
  simp only [turn, kernelOf, ← hl, hpoll, hdrain, Shows]
  constructor
  · cases redraw with
    | true => rfl
    | false =>
      obtain ⟨hcursor, htop⟩ := hkeep rfl
      rw [settle_of_land hcursor htop]
      rfl
  · intro index hindex
    split at hindex
    · exact (Option.some.inj hindex).symm
    · cases hindex

/-- Without a keyboard the loop is the one the serial scripts are about. -/
theorem turns_serial {v : View l} {t : Shown} (h : Shows menu v t) (batches : List (List UInt8)) :
    (turns menu l.page t (batches.map (fun batch => (Intents.none, batch)))).2 =
      mainLoop (getCount menu) l.page (kernelOf v) batches := by
  induction batches generalizing v t with
  | nil => rfl
  | cons batch batches ih =>
    have hpoll := poll_eq v batch
    have hboots : (turn menu l.page t (Intents.none, batch)).2 =
        (poll (getCount menu) l.page (kernelOf v) batch).2 := by
      rw [Shows] at h
      subst h
      rfl
    have hshows := (turn_shows hl h (Intents.none, batch)).1
    rw [← hl] at hboots ih ⊢
    rw [hpoll] at hboots
    rw [List.map_cons, turns, mainLoop, hpoll]
    generalize turn menu l.page t (Intents.none, batch) = r at hshows hboots ⊢
    obtain ⟨u, _ | index⟩ := r
    all_goals
      dsimp only at hboots
      rw [← hboots]
    exact ih hshows

end shown

theorem shows_first (menu : Menu) (page : Nat) (hcount : 0 < getCount menu) (hpage : 0 < page) :
    Shows menu (View.first (shownLayout menu page hcount hpage)) (firstShown menu page) := by
  have hdraw : drawMenu (getCount menu) page ⟨Intents.none, 0, 0⟩ =
      kernelOf (View.first (shownLayout menu page hcount hpage)) := by
    let v := View.first (shownLayout menu page hcount hpage)
    apply (drawMenu_eq (shownLayout menu page hcount hpage) Intents.none v.inList v.full).trans
    rw [scroll_of_onPage v.onPage]
    rfl
  simp only [Shows, firstShown, hdraw]
  rfl

theorem runShown_serial (menu : Menu) (rows : Nat) (batches : List (List UInt8)) :
    (runShown menu (visibleRows rows) (batches.map (fun batch => (Intents.none, batch)))).2 =
      run menu rows batches := by
  by_cases hzero : getCount menu = 0
  · simp [runShown, run, hzero]
  · by_cases hone : getCount menu = 1
    · simp [runShown, run, hone]
    · have hcount := Nat.pos_of_ne_zero hzero
      have hshows := shows_first menu (visibleRows rows) hcount (visibleRows_pos rows)
      have hserial := turns_serial rfl hshows batches
      have hrun := run_eq menu rows (by omega) batches
      simp only [runShown, hzero, hone, if_false, hrun]
      exact hserial

end RapiBootloader.MenuScreen
