import RapiBootloader.Lib.Scroll
import Mathlib.Tactic.Ext

namespace RapiBootloader.MenuView

open Lib.Scroll

structure Layout where
  count : Nat
  page : Nat
  someEntry : 0 < count
  someRow : 0 < page

variable {l : Layout}

@[ext]
structure View (l : Layout) where
  cursor : Nat
  top : Nat
  inList : cursor < l.count
  onPage : top ≤ cursor ∧ cursor < top + l.page
  full : top ≤ l.count - l.page

def View.scrolled (l : Layout) (top cursor : Nat) (htop : top ≤ l.count - l.page)
    (hcursor : cursor < l.count) : View l where
  cursor := cursor
  top := scroll l.page top cursor
  inList := hcursor
  onPage := scroll_onPage l.someRow top cursor
  full := scroll_le htop hcursor

def View.first (l : Layout) : View l where
  cursor := 0
  top := 0
  inList := l.someEntry
  onPage := ⟨Nat.le_refl 0, Nat.lt_of_lt_of_eq l.someRow (Nat.zero_add l.page).symm⟩
  full := Nat.zero_le _

theorem clampTo_lt (l : Layout) (x : Int) : clampTo (l.count - 1) x < l.count :=
  Nat.lt_of_le_of_lt (clampTo_le _ x) (Nat.sub_lt l.someEntry Nat.one_pos)

theorem clampTo_page_lt (l : Layout) (x : Int) : clampTo (l.count - l.page) x < l.count :=
  Nat.lt_of_le_of_lt (clampTo_le _ x) (Nat.sub_lt l.someEntry l.someRow)

def step (down : Bool) : Int := if down then 1 else -1

def View.move (v : View l) (down : Bool) : View l :=
  View.scrolled l v.top (clampTo (l.count - 1) (v.cursor + step down)) v.full (clampTo_lt l _)

def View.turn (v : View l) (down : Bool) : View l :=
  View.scrolled l (clampTo (l.count - l.page) (v.top + step down * l.page))
    (clampTo (l.count - l.page) (v.top + step down * l.page)) (clampTo_le _ _)
    (clampTo_page_lt l _)

def View.jump (v : View l) (index : Nat) : View l :=
  if h : index < l.count then View.scrolled l v.top index v.full h else v

inductive Action
  | move (down : Bool)
  | turn (down : Bool)
  | jump (index : Nat)
  | enter
deriving DecidableEq, Repr

def View.act (v : View l) : Action → View l
  | .move down => v.move down
  | .turn down => v.turn down
  | .jump index => v.jump index
  | .enter => v

/-- `j` and `k` move, `f` and `b` turn the page, `1` to `9` jump, CR and LF boot. -/
def action (c : UInt8) : Option Action :=
  if c = 106 then some (.move true)
  else if c = 107 then some (.move false)
  else if c = 102 then some (.turn true)
  else if c = 98 then some (.turn false)
  else if c = 13 ∨ c = 10 then some .enter
  else if 49 ≤ c ∧ c ≤ 57 then some (.jump (c.toNat - 49))
  else none

def bootedEntry (v : View l) : List UInt8 → Option Nat
  | [] => none
  | c :: script =>
    match action c with
    | none => bootedEntry v script
    | some .enter => some v.cursor
    | some a => bootedEntry (v.act a) script

end RapiBootloader.MenuView
