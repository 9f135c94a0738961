import Mathlib.Tactic.IntervalCases
import RapiBootloader.KeyRace
import RapiBootloader.MenuScreen
import RapiBootloader.MenuTables
import RapiBootloader.BootSelection

namespace RapiBootloader.MenuLoader

open Lib.Memory Lib.Strings Lib.Run Lib.Scroll DefaultsBlock BootImage ChainBoot Card BootMenu
open MenuView MenuLoop KeyReports KeyRace MenuScreen BootSelection
open MenuTables (wellFormed labelOf stringOf entries_eq)
open MenuScript (visibleRows_pos)

/-- What `Run` is started on: the files of the card, the rows of the screen, and the ticks of a
second. -/
structure Setup where
  kernelMaxSize : KernelMaxSize
  hz : UInt32
  rows : Nat
  menuFile : List UInt8
  loadAnswers : LoadAnswers
  kernelPath : String
  kernel : List UInt8

def Setup.menu (setup : Setup) : Menu := (BootMenu.load setup.menuFile setup.loadAnswers).2

def Setup.count (setup : Setup) : Nat := getCount setup.menu

def Setup.page (setup : Setup) : Nat := visibleRows setup.rows

def Setup.lines (setup : Setup) : List (List UInt8) :=
  ((setup.menuFile.take maxConfigBytes).splitOn 10).filter wellFormed

structure CardTurn where
  memory : MemorySystem
  openResult : FResult
  reads : Nat → FResult × Nat

def Setup.selection (setup : Setup) (index : Nat) (card : CardTurn) : Selection :=
  ⟨index, card.memory, setup.kernelPath, card.openResult, setup.kernel, card.reads⟩

/-- Where `Run` is. `turn` is in a turn of the main loop, whose own place is in the keys. -/
inductive Pc
  | idle
  | settle (start : UInt32)
  | loop
  | turn
  | halted (message : String)
  | sleep
  | returned
deriving DecidableEq

/-- The boot picker. There is one staging buffer, which is all that is ever armed. -/
structure Picker where
  pc : Pc
  keys : State
  frame : Option Frame
  keyboard : Bool
  imageBuffer : Option (Mem UInt8)
  chainBoot : Statics Unit
  booted : List (Nat × Boot)

structure Input where
  ticks : UInt32
  updated : Bool
  device : Bool
  received : List UInt8
  card : CardTurn

/-- A report comes from the keyboard, it is unplugged, or the main task goes on. -/
inductive Event
  | report (r : Report)
  | removed
  | main (input : Input)

def Picker.init : Picker where
  pc := .idle
  keys := { start 0 0 with kernel := ⟨Intents.none, 0, 0⟩ }
  frame := none
  keyboard := false
  imageBuffer := none
  chainBoot := Statics.init
  booted := []

def begin (setup : Setup) (ticks : UInt32) : Picker :=
  if setup.count = 0 then Picker.init
  else if setup.count = 1 then { Picker.init with pc := .settle ticks }
  else
    let keys := start setup.count setup.page
    { Picker.init with
      pc := .loop
      keys := keys
      frame := some (drawFrame setup.menu setup.page keys.kernel) }

/-- `BootSelection`. `Fatal` clears the screen. -/
def boot (setup : Setup) (index : Nat) (card : CardTurn) (p : Picker) : Picker :=
  match bootSelection setup.kernelMaxSize setup.menu p.imageBuffer (setup.selection index card) with
  | .fatal message => { p with pc := .halted message, frame := none }
  | .armed b =>
    { p with
      pc := .loop
      imageBuffer := some b.image
      chainBoot := enableChainBoot p.chainBoot () b.imageSize
      booted := p.booted ++ [(index, b)] }

/-- The next access in a turn of the main loop. The menu is drawn again behind the drains. -/
def turn (setup : Setup) (input : Input) (p : Picker) : Picker :=
  let keys := advance setup.count setup.page input.received p.keys
  let frame :=
    if p.keys.pc = .select ∧ p.keys.redraw then
      some (drawFrame setup.menu setup.page keys.kernel)
    else p.frame
  let p := { p with keys := keys, frame := frame }
  match keys.pc with
  | .booted => boot setup keys.kernel.cursor input.card { p with keys := { keys with pc := .receive } }
  | .receive => { p with pc := .loop }
  | _ => p

def mainStep (setup : Setup) (p : Picker) (input : Input) : Option Picker :=
  match p.pc with
  | .idle => some p
  | .settle start =>
    some (if input.ticks - start < 2 * setup.hz then p else boot setup 0 input.card p)
  | .loop =>
    match isChainBootEnabled p.chainBoot with
    | .disabled =>
      some { p with pc := .turn, keyboard := p.keyboard || (input.updated && input.device) }
    | .enabled => some { p with pc := .sleep }
    | .handOff => none
  | .turn => some (turn setup input p)
  | .halted _ => some p
  | .sleep =>
    some { p with pc := .returned, chainBoot := rapiChainBootMainReturning p.chainBoot }
  | .returned => none

/-- A report finds a handler while the keyboard is there. -/
def step (setup : Setup) (p : Picker) : Event → Option Picker
  | .report r => if p.keyboard then some { p with keys := interrupt r p.keys } else none
  | .removed => some { p with keyboard := false }
  | .main input => mainStep setup p input

def Setup.layout (setup : Setup) (h : 2 ≤ setup.count) : Layout :=
  ⟨setup.count, setup.page, Nat.lt_of_lt_of_le Nat.two_pos h, visibleRows_pos setup.rows⟩

def settled : KeyRace.Pc → Bool
  | .receive | .resetSelect | .booted => true
  | _ => false

def Fresh (keys : State) : Prop := keys.redraw = false ∨ settled keys.pc = true

/-- The cursor is in the list, and the frame shows it while nothing has moved. -/
structure Framed (setup : Setup) (keys : State) (frame : Option Frame) : Prop where
  inList : keys.kernel.cursor < setup.count
  full : keys.kernel.topVisible ≤ setup.count - setup.page
  drawn : Fresh keys →
    (keys.kernel.topVisible ≤ keys.kernel.cursor ∧
      keys.kernel.cursor < keys.kernel.topVisible + setup.page) ∧
      frame = some (drawFrame setup.menu setup.page keys.kernel)

/-- A step of the drain moves the cursor and the window inside the list, or not at all. -/
structure Moves (count page : Nat) (s : CKernel) (r : CKernel × Bool) : Prop where
  inList : s.cursor < count → r.1.cursor < count
  full : s.topVisible ≤ count - page → r.1.topVisible ≤ count - page
  still : r.2 = false → r.1.cursor = s.cursor ∧ r.1.topVisible = s.topVisible

theorem Moves.refl {count page : Nat} (s : CKernel) : Moves count page s (s, false) :=
  ⟨id, id, fun _ => ⟨rfl, rfl⟩⟩

theorem drainMove_moves (count page : Nat) (s : CKernel) : Moves count page s (drainMove count s) := by
  have hlast : ∀ x : Int, 0 < count →
      (if (if x < 0 then 0 else x) ≥ count then (count : Int) - 1
        else if x < 0 then 0 else x).toNat < count := by
    intro x hcount
    split <;> split <;> omega
  unfold drainMove
  dsimp only
  by_cases hmove : s.intents.moveAccum ≠ 0
  · rw [if_pos hmove]
    have hpos := hlast (s.cursor + s.intents.moveAccum)
    generalize (if (if s.cursor + s.intents.moveAccum < 0 then 0
      else s.cursor + s.intents.moveAccum) ≥ (count : Int) then (count : Int) - 1
      else if s.cursor + s.intents.moveAccum < 0 then 0
      else s.cursor + s.intents.moveAccum).toNat = pos at hpos ⊢
    split
    · exact ⟨fun h => hpos (Nat.zero_lt_of_lt h), id, fun h => Bool.noConfusion h⟩
    · exact ⟨id, id, fun _ => ⟨rfl, rfl⟩⟩
  · rw [if_neg hmove]
    exact .refl s

theorem drainPage_moves {count : Nat} (page : Nat) (hpage : 0 < page) (s : CKernel) :
    Moves count page s (drainPage count page s) := by
  have hlast : ∀ x : Int,
      (if (if x < 0 then 0 else x) > (if count > page then (count : Int) - page else 0) then
        (if count > page then (count : Int) - page else 0)
        else if x < 0 then 0 else x).toNat ≤ count - page := by
    intro x
    split <;> split <;> omega
  unfold drainPage
  dsimp only
  by_cases hturn : s.intents.pageAccum ≠ 0
  · rw [if_pos hturn]
    have htop := hlast (s.topVisible + s.intents.pageAccum * page)
    generalize (if (if s.topVisible + s.intents.pageAccum * page < 0 then 0
      else s.topVisible + s.intents.pageAccum * page) >
        (if count > page then (count : Int) - page else 0) then
      (if count > page then (count : Int) - page else 0)
      else if s.topVisible + s.intents.pageAccum * page < 0 then 0
      else s.topVisible + s.intents.pageAccum * page).toNat = top at htop ⊢
    split
    · refine ⟨fun h => ?_, fun _ => htop, fun h => Bool.noConfusion h⟩
      dsimp only
      omega
    · exact ⟨id, id, fun _ => ⟨rfl, rfl⟩⟩
  · rw [if_neg hturn]
    exact .refl s

theorem drainJump_moves (count page : Nat) (s : CKernel) : Moves count page s (drainJump count s) := by
  unfold drainJump
  split
  · dsimp only
    split
    · rename_i hjump
      exact ⟨fun _ => hjump.1, id, fun h => Bool.noConfusion h⟩
    · exact ⟨id, id, fun _ => ⟨rfl, rfl⟩⟩
  · exact .refl s

section framed

variable {setup : Setup} {keys keys' : State} {frame : Option Frame}

theorem drawFrame_congr (menu : Menu) (page : Nat) {s t : CKernel} (hcursor : t.cursor = s.cursor)
    (htop : t.topVisible = s.topVisible) : drawFrame menu page t = drawFrame menu page s := by
  simp only [drawFrame, hcursor, htop]

theorem Framed.congr (h : Framed setup keys frame)
    (hcursor : keys'.kernel.cursor = keys.kernel.cursor)
    (htop : keys'.kernel.topVisible = keys.kernel.topVisible) (hfresh : Fresh keys' → Fresh keys) :
    Framed setup keys' frame := by
  refine ⟨by rw [hcursor]; exact h.inList, by rw [htop]; exact h.full, fun hf => ?_⟩
  rw [hcursor, htop, drawFrame_congr _ _ hcursor htop]
  exact h.drawn (hfresh hf)

theorem Framed.goOn (h : Framed setup keys frame)
    (hcursor : keys'.kernel.cursor = keys.kernel.cursor)
    (htop : keys'.kernel.topVisible = keys.kernel.topVisible)
    (hredraw : keys'.redraw = keys.redraw) (hpc : settled keys'.pc = false) :
    Framed setup keys' frame := by
  refine h.congr hcursor htop fun hf => Or.inl ?_
  rw [← hredraw]
  exact hf.resolve_right (hpc ▸ Bool.false_ne_true)

theorem Framed.drain (h : Framed setup keys frame) (k : Intents) {r : CKernel × Bool}
    (hmoves : Moves setup.count setup.page (setIntents keys.kernel k) r)
    (hkernel : keys'.kernel = r.1) (hredraw : keys'.redraw = (keys.redraw || r.2))
    (hpc : settled keys'.pc = false) : Framed setup keys' frame := by
  refine ⟨?_, ?_, fun hf => ?_⟩
  · rw [hkernel]
    exact hmoves.inList h.inList
  · rw [hkernel]
    exact hmoves.full h.full
  · have hnone := hf.resolve_right (hpc ▸ Bool.false_ne_true)
    rw [hredraw, Bool.or_eq_false_iff] at hnone
    obtain ⟨hcursor, htop⟩ := hmoves.still hnone.2
    rw [hkernel, hcursor, htop, drawFrame_congr _ _ hcursor htop]
    exact h.drawn (Or.inl hnone.1)

theorem framed_interrupt (h : Framed setup keys frame) (r : Report) :
    Framed setup (interrupt r keys) frame :=
  h.congr rfl rfl id

theorem framed_drawn (hcount : 2 ≤ setup.count) (hcursor : keys.kernel.cursor < setup.count)
    (htop : keys.kernel.topVisible ≤ setup.count - setup.page)
    (hkernel : keys'.kernel = drawMenu setup.count setup.page keys.kernel) :
    Framed setup keys' (some (drawFrame setup.menu setup.page keys'.kernel)) := by
  have hdraw := drawMenu_eq (setup.layout hcount) keys.kernel.intents hcursor htop
  have hsame : keys'.kernel = ⟨keys.kernel.intents, keys.kernel.cursor,
      scroll setup.page keys.kernel.topVisible keys.kernel.cursor⟩ := hkernel.trans hdraw
  refine ⟨?_, ?_, fun _ => ⟨?_, rfl⟩⟩
  · rw [hsame]
    exact hcursor
  · rw [hsame]
    exact scroll_le htop hcursor
  · rw [hsame]
    exact scroll_onPage (visibleRows_pos setup.rows) _ _

theorem framed_serialByte (h : Framed setup keys frame) (c : UInt8) (rest : List UInt8) :
    Framed setup (serialByte c rest keys) frame := by
  obtain ⟨accum, amount, hbyte, -⟩ | ⟨hbyte, -⟩ := serialByte_cases c rest keys
  · rw [hbyte]
    exact h.goOn rfl rfl rfl rfl
  · rw [hbyte]
    exact h.goOn rfl rfl rfl rfl

theorem framed_advance (hcount : 2 ≤ setup.count) (h : Framed setup keys frame)
    (received : List UInt8) :
    Framed setup (advance setup.count setup.page received keys)
      (if keys.pc = .select ∧ keys.redraw then
        some (drawFrame setup.menu setup.page
          (advance setup.count setup.page received keys).kernel)
      else frame) := by
  have hpage := visibleRows_pos setup.rows
  have hsame : keys.pc ≠ .select →
      (if keys.pc = .select ∧ keys.redraw then
        some (drawFrame setup.menu setup.page
          (advance setup.count setup.page received keys).kernel)
      else frame) = frame := fun hpc => if_neg (fun hand => hpc hand.1)
  cases hpc : keys.pc with
  | receive =>
    rw [← hpc, hsame (by simp [hpc])]
    simp only [advance, hpc]
    exact h.congr rfl rfl fun _ => Or.inr (by rw [hpc]; rfl)
  | bytes rest =>
    rw [← hpc, hsame (by simp [hpc])]
    cases rest with
    | nil =>
      simp only [advance, hpc]
      exact h.goOn rfl rfl rfl rfl
    | cons c rest =>
      simp only [advance, hpc]
      exact framed_serialByte h c rest
  | bump accum loaded amount rest =>
    rw [← hpc, hsame (by simp [hpc])]
    simp only [advance, hpc]
    cases accum with
    | move => exact h.goOn rfl rfl rfl rfl
    | page => exact h.goOn rfl rfl rfl rfl
  | move =>
    rw [← hpc, hsame (by simp [hpc])]
    simp only [advance, hpc]
    split
    · exact h.goOn rfl rfl rfl rfl
    · exact h.goOn rfl rfl rfl rfl
  | resetMove nMove =>
    rw [← hpc, hsame (by simp [hpc])]
    simp only [advance, hpc]
    exact h.drain _ (drainMove_moves setup.count setup.page
      (setIntents keys.kernel (store .move nMove keys.kernel.intents))) rfl rfl rfl
  | page =>
    rw [← hpc, hsame (by simp [hpc])]
    simp only [advance, hpc]
    split
    · exact h.goOn rfl rfl rfl rfl
    · exact h.goOn rfl rfl rfl rfl
  | resetPage nPage =>
    rw [← hpc, hsame (by simp [hpc])]
    simp only [advance, hpc]
    exact h.drain _ (drainPage_moves setup.page hpage
      (setIntents keys.kernel (store .page nPage keys.kernel.intents))) rfl rfl rfl
  | jump =>
    rw [← hpc, hsame (by simp [hpc])]
    simp only [advance, hpc]
    split
    · exact h.goOn rfl rfl rfl rfl
    · exact h.goOn rfl rfl rfl rfl
  | resetJump nJump =>
    rw [← hpc, hsame (by simp [hpc])]
    simp only [advance, hpc]
    exact h.drain _ (drainJump_moves setup.count setup.page
      (setIntents keys.kernel { keys.kernel.intents with jumpTo := some nJump })) rfl rfl rfl
  | select =>
    cases hredraw : keys.redraw with
    | true =>
      rw [if_pos ⟨rfl, rfl⟩]
      refine framed_drawn hcount h.inList h.full ?_
      simp only [advance, hpc, hredraw, if_true]
    | false =>
      rw [if_neg (fun hand => Bool.false_ne_true hand.2)]
      simp only [advance, hpc, hredraw, Bool.false_eq_true, if_false]
      exact h.congr rfl rfl fun _ => Or.inl hredraw
  | resetSelect =>
    rw [← hpc, hsame (by simp [hpc])]
    simp only [advance, hpc]
    exact h.congr rfl rfl fun _ => Or.inr (by rw [hpc]; rfl)
  | booted =>
    rw [← hpc, hsame (by simp [hpc])]
    simp only [advance, hpc]
    exact h

end framed

def highlight (index : Nat) (line : List UInt8) : Row :=
  ⟨index, true, 27 :: ascii "[7m> " ++
    (decimal (index + 1) ++ ascii ". " ++ (ofBytes (labelOf line)).chars) ++ 27 :: ascii "[0m\n"⟩

theorem entry_line {setup : Setup} {index : Nat} {e : Entry}
    (h : setup.menu.entries[index]? = some e) :
    ∃ line, setup.lines[index]? = some line ∧ e.label = labelOf line ∧ e.string = stringOf line := by
  have hload : setup.menu.entries =
      (((setup.menuFile.take maxConfigBytes).splitOn 10).filterMap lineEntry).take maxEntries := by
    unfold Setup.menu BootMenu.load at h ⊢
    split at h
    · cases h
    split at h
    · cases h
    split at h
    · cases h
    rename_i hopen hroom hread
    rw [if_neg hopen, if_neg hroom, if_neg hread]
    exact foldl_parseLine_entries _
  have htexts : setup.menu.entries.map (fun e => (e.label, e.string)) =
      (setup.lines.map (fun line => (labelOf line, stringOf line))).take maxEntries := by
    rw [hload, List.map_take, entries_eq]
    rfl
  have hentry : ((setup.lines.map (fun line => (labelOf line, stringOf line))).take
      maxEntries)[index]? = some (e.label, e.string) := by
    rw [← htexts, List.getElem?_map, h]
    rfl
  rw [List.getElem?_take] at hentry
  split at hentry
  · rw [List.getElem?_map, Option.map_eq_some_iff] at hentry
    obtain ⟨line, hline, hpair⟩ := hentry
    obtain ⟨hlabel, hstring⟩ := Prod.mk.inj hpair
    exact ⟨line, hline, hlabel.symm, hstring.symm⟩
  · cases hentry

theorem drawFrame_highlights {setup : Setup} {s : CKernel} {line : List UInt8} {e : Entry}
    (he : setup.menu.entries[s.cursor]? = some e) (hlabel : e.label = labelOf line)
    (hlist : s.cursor < setup.count)
    (hpage : s.topVisible ≤ s.cursor ∧ s.cursor < s.topVisible + setup.page) :
    (drawFrame setup.menu setup.page s).rows.filter Row.reverse = [highlight s.cursor line] := by
  have hrow : drawRow setup.menu s.cursor s.cursor = highlight s.cursor line := by
    rw [drawRow, if_pos rfl, highlight, labelText, getLabel, he, Option.map_some, Option.map_some,
      Option.getD_some, hlabel]
  have hreverse : ∀ is : List Nat, (is.map (drawRow setup.menu s.cursor)).filter Row.reverse =
      (is.filter (fun i => decide (i = s.cursor))).map (drawRow setup.menu s.cursor) := by
    intro is
    rw [List.filter_map]
    congr 1
    apply List.filter_congr
    intro i _
    by_cases hi : i = s.cursor <;> simp [drawRow, hi]
  have hcount : getCount setup.menu = setup.count := rfl
  simp only [drawFrame, hreverse, hcount]
  rw [filter_range' hpage.1]
  · rw [List.map_singleton, hrow]
  · split <;> omega

def Place (setup : Setup) (p : Picker) : Prop :=
  match p.pc with
  | .idle => setup.count = 0
  | .settle _ => setup.count = 1
  | .loop => 2 ≤ setup.count ∧ p.keys.pc = .receive ∧ Framed setup p.keys p.frame
  | .turn => 2 ≤ setup.count ∧ p.keys.pc ≠ .booted ∧ Framed setup p.keys p.frame
  | .halted _ => True
  | .sleep | .returned => False

structure Waiting (setup : Setup) (p : Picker) : Prop where
  booted : p.booted = []
  chainBoot : p.chainBoot = Statics.init
  place : Place setup p

/-- The whole kernel file is armed, for an entry of the menu that is highlighted on the screen or
is the only one, with the string of its line. -/
structure Boots (setup : Setup) (p : Picker) (index : Nat) (b : Boot) (line : List UInt8) :
    Prop where
  booted : p.booted = [(index, b)]
  image : p.imageBuffer = some b.image
  chainBoot : p.chainBoot = ⟨some (), setup.kernel.length, decide (p.pc = .returned)⟩
  place : p.pc = .loop ∨ p.pc = .sleep ∨ p.pc = .returned
  listed : setup.lines[index]? = some line
  whole : ∃ image, Holds image 0 setup.kernel ∧
    b = bootImageWithDefaults image setup.kernel.length (some (ofBytes (stringOf line)))
  fits : 0 < setup.kernel.length ∧ setup.kernel.length ≤ setup.kernelMaxSize.bytes
  shown : if setup.count = 1 then index = 0
    else ∃ f, p.frame = some f ∧ f.rows.filter Row.reverse = [highlight index line]

theorem boot_cases {setup : Setup} {p : Picker} (hbooted : p.booted = [])
    (hchain : p.chainBoot = Statics.init) (index : Nat) (card : CardTurn)
    (hshown : ∀ e line, setup.menu.entries[index]? = some e → e.label = labelOf line →
      if setup.count = 1 then index = 0
      else ∃ f, p.frame = some f ∧ f.rows.filter Row.reverse = [highlight index line]) :
    Waiting setup (boot setup index card p) ∨
      ∃ b line, Boots setup (boot setup index card p) index b line := by
  unfold boot
  cases hsel : bootSelection setup.kernelMaxSize setup.menu p.imageBuffer
    (setup.selection index card) with
  | fatal message => exact Or.inl ⟨hbooted, hchain, trivial⟩
  | armed b =>
    obtain ⟨string, image, hloaded⟩ := bootSelection_armed hsel
    obtain ⟨e, he, hstring⟩ := Option.map_eq_some_iff.mp hloaded.chosen
    obtain ⟨line, hline, hlabel, htext⟩ := entry_line he
    have hsize : b.imageSize = setup.kernel.length := by
      rw [hloaded.boot, boot_imageSize]
      rfl
    refine Or.inr ⟨b, line, ?_, rfl, ?_, Or.inl rfl, hline, ⟨image, hloaded.holds, ?_⟩, ?_, ?_⟩
    · dsimp only
      rw [hbooted]
      rfl
    · dsimp only
      rw [hchain, hsize]
      rfl
    · rw [hloaded.boot, ← hstring, htext]
      rfl
    · exact ⟨hloaded.positive, hloaded.fits⟩
    · exact hshown e line he hlabel

/-- A turn of the main loop boots the entry that is on the screen. -/
theorem turn_cases {setup : Setup} {p : Picker} (h : Waiting setup p) (hpc : p.pc = .turn)
    (input : Input) :
    Waiting setup (turn setup input p) ∨
      ∃ index b line, Boots setup (turn setup input p) index b line := by
  have hplace := h.place
  rw [Place, hpc] at hplace
  obtain ⟨hcount, -, hframed⟩ := hplace
  have hnext := framed_advance hcount hframed input.received
  unfold turn
  dsimp only
  generalize (if p.keys.pc = .select ∧ p.keys.redraw = true then
    some (drawFrame setup.menu setup.page
      (advance setup.count setup.page input.received p.keys).kernel) else p.frame) = frame
    at hnext ⊢
  generalize advance setup.count setup.page input.received p.keys = keys at hnext ⊢
  cases hkeys : keys.pc with
  | booted =>
    obtain ⟨hpage, hframe⟩ := hnext.drawn (Or.inr (by rw [hkeys]; rfl))
    have hmany : setup.count ≠ 1 := by omega
    have hboot := @boot_cases setup
      { p with keys := { keys with pc := .receive }, frame := frame } h.booted h.chainBoot
      keys.kernel.cursor input.card (fun e line he hlabel => by
        rw [if_neg hmany]
        exact ⟨_, hframe, drawFrame_highlights he hlabel hnext.inList hpage⟩)
    exact hboot.imp_right fun ⟨b, line, hb⟩ => ⟨_, b, line, hb⟩
  | receive => exact Or.inl ⟨h.booted, h.chainBoot, hcount, hkeys, hnext⟩
  | _ =>
    refine Or.inl ⟨h.booted, h.chainBoot, ?_⟩
    rw [Place]
    dsimp only
    rw [hpc]
    exact ⟨hcount, by simp [hkeys], hnext⟩

theorem Waiting.keys {setup : Setup} {p : Picker} (h : Waiting setup p) (r : Report) :
    Waiting setup { p with keys := interrupt r p.keys } := by
  obtain ⟨hbooted, hchain, hplace⟩ := h
  refine ⟨hbooted, hchain, ?_⟩
  unfold Place at hplace ⊢
  cases hpc : p.pc with
  | loop =>
    rw [hpc] at hplace
    exact ⟨hplace.1, hplace.2.1, framed_interrupt hplace.2.2 r⟩
  | turn =>
    rw [hpc] at hplace
    exact ⟨hplace.1, hplace.2.1, framed_interrupt hplace.2.2 r⟩
  | _ =>
    rw [hpc] at hplace
    exact hplace

theorem Waiting.step {setup : Setup} {p p' : Picker} (h : Waiting setup p) {ev : Event}
    (hstep : MenuLoader.step setup p ev = some p') :
    Waiting setup p' ∨ ∃ index b line, Boots setup p' index b line := by
  cases ev with
  | report r =>
    rw [MenuLoader.step] at hstep
    split at hstep
    · cases hstep
      exact Or.inl (h.keys r)
    · cases hstep
  | removed =>
    cases hstep
    exact Or.inl ⟨h.booted, h.chainBoot, h.place⟩
  | main input =>
    have hplace := h.place
    unfold Place at hplace
    rw [MenuLoader.step, mainStep] at hstep
    cases hpc : p.pc with
    | idle | halted =>
      rw [hpc] at hstep
      cases hstep
      exact Or.inl h
    | settle start =>
      rw [hpc] at hstep hplace
      cases hstep
      split
      · exact Or.inl h
      · have hboot := @boot_cases setup p h.booted h.chainBoot 0 input.card
          (fun e line _ _ => by rw [if_pos hplace])
        exact hboot.imp_right fun ⟨b, line, hb⟩ => ⟨0, b, line, hb⟩
    | loop =>
      rw [hpc, h.chainBoot] at hstep
      rw [hpc] at hplace
      cases hstep
      obtain ⟨hcount, hreceive, hframed⟩ := hplace
      exact Or.inl ⟨h.booted, rfl, hcount, by simp [hreceive], hframed⟩
    | turn =>
      rw [hpc] at hstep
      cases hstep
      exact turn_cases h hpc input
    | sleep | returned =>
      rw [hpc] at hplace
      exact hplace.elim

theorem Boots.step {setup : Setup} {p p' : Picker} {index : Nat} {b : Boot} {line : List UInt8}
    (h : Boots setup p index b line) {ev : Event} (hstep : MenuLoader.step setup p ev = some p') :
    Boots setup p' index b line := by
  obtain ⟨hbooted, himage, hchain, hplace, hlisted, hwhole, hfits, hshown⟩ := h
  cases ev with
  | report r =>
    rw [MenuLoader.step] at hstep
    split at hstep
    · cases hstep
      exact ⟨hbooted, himage, hchain, hplace, hlisted, hwhole, hfits, hshown⟩
    · cases hstep
  | removed =>
    cases hstep
    exact ⟨hbooted, himage, hchain, hplace, hlisted, hwhole, hfits, hshown⟩
  | main input =>
    rw [MenuLoader.step, mainStep] at hstep
    obtain hpc | hpc | hpc := hplace
    · rw [hpc] at hstep hchain
      rw [hchain] at hstep
      cases hstep
      exact ⟨hbooted, himage, rfl, Or.inr (Or.inl rfl), hlisted, hwhole, hfits, hshown⟩
    · rw [hpc] at hstep hchain
      cases hstep
      refine ⟨hbooted, himage, ?_, Or.inr (Or.inr rfl), hlisted, hwhole, hfits, hshown⟩
      rw [hchain]
      rfl
    · rw [hpc] at hstep
      cases hstep

theorem waiting_begin (setup : Setup) (ticks : UInt32) : Waiting setup (begin setup ticks) := by
  unfold begin
  by_cases hzero : setup.count = 0
  · rw [if_pos hzero]
    exact ⟨rfl, rfl, hzero⟩
  rw [if_neg hzero]
  by_cases hone : setup.count = 1
  · rw [if_pos hone]
    exact ⟨rfl, rfl, hone⟩
  rw [if_neg hone]
  have hcount : 2 ≤ setup.count := by omega
  refine ⟨rfl, rfl, hcount, rfl, ?_⟩
  exact @framed_drawn setup { start setup.count setup.page with kernel := ⟨Intents.none, 0, 0⟩ }
    (start setup.count setup.page) hcount (Nat.lt_of_lt_of_le Nat.two_pos hcount) (Nat.zero_le _)
    rfl

theorem sound_of_run {setup : Setup} {ticks : UInt32} {es : List Event} {p : Picker}
    (h : run (step setup) (begin setup ticks) es = some p) :
    Waiting setup p ∨ ∃ index b line, Boots setup p index b line := by
  refine @run_invariant_all _ _ (step setup)
    (fun p => Waiting setup p ∨ ∃ index b line, Boots setup p index b line)
    (fun p ev p' hp hstep => ?_) _ _ _ (Or.inl (waiting_begin setup ticks)) h
  obtain hwaiting | ⟨index, b, line, hboots⟩ := hp
  · exact hwaiting.step hstep
  · exact Or.inr ⟨index, b, line, hboots.step hstep⟩

/-- In whatever order key reports, unplugging and the accesses of the main task come: the picker
arms at most one entry, it is the one in reverse video on the screen, or the only one there is,
what is armed is the whole kernel file with the string of the entry's line, and `Run` does not
return without it. -/
theorem boots_what_is_shown {setup : Setup} {ticks : UInt32} {es : List Event} {p : Picker}
    (h : run (step setup) (begin setup ticks) es = some p) :
    (p.booted = [] ∧ p.chainBoot = Statics.init ∧ p.pc ≠ .returned) ∨
      ∃ index b line, Boots setup p index b line := by
  refine (sound_of_run h).imp_left fun hwaiting => ⟨hwaiting.booted, hwaiting.chainBoot, fun hpc => ?_⟩
  have hplace := hwaiting.place
  rw [Place, hpc] at hplace
  exact hplace

def fineCard : CardTurn :=
  ⟨⟨0x100000, fun _ => 0x100000, fun _ _ => some fun _ => 0⟩, .frOk, fun _ => (.frOk, chunkBytes)⟩

def twoSetup : Setup :=
  ⟨⟨0x3000, by decide⟩, 100, 25, ascii "first|\nsecond|-v\n", fineLoad, "SD:/kernel.img", [1, 2, 3]⟩

def downEnter : List Event :=
  .main ⟨0, true, true, [], fineCard⟩ :: .report downPressed ::
    List.replicate 11 (.main ⟨0, false, false, [13], fineCard⟩)

theorem boots_what_is_shown_second : ∃ p,
    run (step twoSetup) (begin twoSetup 0) downEnter = some p ∧ p.pc = .returned ∧
      ((p.booted = [] ∧ p.chainBoot = Statics.init ∧ p.pc ≠ .returned) ∨
        ∃ index b line, Boots twoSetup p index b line) := by
  have hsome : ((run (step twoSetup) (begin twoSetup 0) downEnter).map Picker.pc) =
      some .returned := by decide +kernel
  obtain ⟨p, hp, hpc⟩ := Option.map_eq_some_iff.mp hsome
  exact ⟨p, hp, hpc, boots_what_is_shown hp⟩

section serial

variable {setup : Setup} {p : Picker} {card : CardTurn} {index : Nat}

def digitEnter (index : Nat) : List UInt8 := [UInt8.ofNat (49 + index), 13]

def rank : KeyRace.Pc → Nat
  | .receive => 12
  | .bytes rest => rest.length + 9
  | .move => 8
  | .resetMove _ => 7
  | .page => 6
  | .resetPage _ => 5
  | .jump => 4
  | .resetJump _ => 3
  | .select => 2
  | .resetSelect => 1
  | .booted | .bump _ _ _ _ => 0

/-- A turn that has got a digit and Enter, with what is left for it to find. -/
def Heading (index : Nat) (keys : State) : Prop :=
  match keys.pc with
  | .receive => True
  | .bytes rest => rest = digitEnter index ∨
      keys.kernel.intents.jumpTo = some index ∧
        (rest = [13] ∨ rest = [] ∧ keys.kernel.intents.selectPending = true)
  | .move | .resetMove _ | .page | .resetPage _ | .jump =>
    keys.kernel.intents.jumpTo = some index ∧ keys.kernel.intents.selectPending = true
  | .resetJump nJump => nJump = index ∧ keys.kernel.intents.selectPending = true
  | .select => keys.kernel.cursor = index ∧ keys.kernel.intents.selectPending = true
  | .resetSelect | .booted => keys.kernel.cursor = index
  | .bump _ _ _ _ => False

theorem serialByte_digit (hnine : index < 9) (rest : List UInt8) (keys : State) :
    serialByte (UInt8.ofNat (49 + index)) rest keys =
      { keys with
        kernel := setIntents keys.kernel { keys.kernel.intents with jumpTo := some index }
        pc := .bytes rest } := by
  interval_cases index <;> rfl

theorem drainJump_cursor {count : Nat} {s : CKernel} (hjump : s.intents.jumpTo = some index)
    (hindex : index < count) : (drainJump count s).1.cursor = index := by
  rw [drainJump, hjump]
  dsimp only
  by_cases hsame : index = s.cursor
  · rw [if_neg (fun h => h.2 hsame)]
    exact hsame.symm
  · rw [if_pos ⟨hindex, hsame⟩]

/-- Whatever keys have left pending, the jump comes last and Enter finds its entry. -/
theorem heading_advance {count page : Nat} {keys : State} (hindex : index < count)
    (hnine : index < 9) (h : Heading index keys) (hgoing : keys.pc ≠ .booted) :
    Heading index (advance count page (digitEnter index) keys) ∧
      rank (advance count page (digitEnter index) keys).pc < rank keys.pc ∧
      (advance count page (digitEnter index) keys).pc ≠ .receive := by
  unfold Heading at h
  cases hpc : keys.pc with
  | receive =>
    simp only [advance, hpc]
    exact ⟨Or.inl rfl, Nat.lt_succ_self 11, by simp⟩
  | bytes rest =>
    rw [hpc] at h
    obtain rfl | ⟨hjump, rfl | ⟨rfl, hselect⟩⟩ := h
    · simp only [advance, hpc, digitEnter, serialByte_digit hnine]
      exact ⟨Or.inr ⟨rfl, Or.inl rfl⟩, Nat.lt_succ_self 10, by simp⟩
    · simp only [advance, hpc]
      exact ⟨Or.inr ⟨hjump, Or.inr ⟨rfl, rfl⟩⟩, Nat.lt_succ_self 9, by simp [serialByte]⟩
    · simp only [advance, hpc]
      exact ⟨⟨hjump, hselect⟩, Nat.lt_succ_self 8, by simp⟩
  | bump accum loaded amount rest =>
    rw [hpc] at h
    exact h.elim
  | move =>
    rw [hpc] at h
    simp only [advance, hpc]
    split
    · exact ⟨h, Nat.lt_succ_self 7, by simp⟩
    · exact ⟨h, (by decide : 6 < 8), by simp⟩
  | resetMove nMove =>
    rw [hpc] at h
    simp only [advance, hpc]
    refine ⟨?_, Nat.lt_succ_self 6, by simp⟩
    simp only [Heading, drainMove_intents]
    exact h
  | page =>
    rw [hpc] at h
    simp only [advance, hpc]
    split
    · exact ⟨h, Nat.lt_succ_self 5, by simp⟩
    · exact ⟨h, (by decide : 4 < 6), by simp⟩
  | resetPage nPage =>
    rw [hpc] at h
    simp only [advance, hpc]
    refine ⟨?_, Nat.lt_succ_self 4, by simp⟩
    simp only [Heading, drainPage_intents]
    exact h
  | jump =>
    rw [hpc] at h
    simp only [advance, hpc, h.1]
    exact ⟨⟨rfl, h.2⟩, Nat.lt_succ_self 3, by simp⟩
  | resetJump nJump =>
    rw [hpc] at h
    obtain ⟨rfl, hselect⟩ := h
    simp only [advance, hpc]
    refine ⟨⟨drainJump_cursor rfl hindex, ?_⟩, Nat.lt_succ_self 2, by simp⟩
    rw [drainJump_intents]
    exact hselect
  | select =>
    rw [hpc] at h
    simp only [advance, hpc, h.2, if_true]
    refine ⟨?_, Nat.lt_succ_self 1, by simp⟩
    simp only [Heading]
    split
    · exact h.1
    · exact h.1
  | resetSelect =>
    rw [hpc] at h
    simp only [advance, hpc]
    exact ⟨h, Nat.one_pos, by simp⟩
  | booted => exact absurd hpc hgoing

structure Finds (card : CardTurn) (index : Nat) (input : Input) : Prop where
  received : input.received = digitEnter index
  card : input.card = card

theorem heading_boots (hindex : index < setup.count) (hnine : index < 9) {inputs : List Input}
    (hpc : p.pc = .turn) (h : Heading index p.keys) (hgoing : p.keys.pc ≠ .booted)
    (hlong : rank p.keys.pc ≤ inputs.length) (hinputs : ∀ input ∈ inputs, Finds card index input) :
    ∃ used rest q, inputs = used ++ rest ∧ rest.length + rank p.keys.pc ≥ inputs.length ∧
      run (step setup) p (used.map .main) = some (boot setup index card q) ∧
      q.booted = p.booted ∧ q.chainBoot = p.chainBoot ∧ q.imageBuffer = p.imageBuffer := by
  induction inputs generalizing p with
  | nil =>
    obtain ⟨-, hrank, -⟩ := @heading_advance index setup.count setup.page p.keys hindex hnine h hgoing
    rw [List.length_nil] at hlong
    omega
  | cons input inputs ih =>
    obtain ⟨hinput, hrest⟩ := List.forall_mem_cons.mp hinputs
    obtain ⟨hnext, hrank, hon⟩ :=
      @heading_advance index setup.count setup.page p.keys hindex hnine h hgoing
    have hturn : step setup p (.main input) = some (turn setup input p) := by
      simp only [step, mainStep, hpc]
    unfold turn at hturn
    dsimp only at hturn
    rw [hinput.received, hinput.card] at hturn
    generalize (if p.keys.pc = .select ∧ p.keys.redraw = true then
      some (drawFrame setup.menu setup.page
        (advance setup.count setup.page (digitEnter index) p.keys).kernel) else p.frame) = frame
      at hturn
    generalize advance setup.count setup.page (digitEnter index) p.keys = keys at hturn hnext hrank hon
    rw [List.length_cons] at hlong ⊢
    cases hkeys : keys.pc with
    | booted =>
      rw [hkeys] at hturn
      have hcursor : keys.kernel.cursor = index := by
        rw [Heading, hkeys] at hnext
        exact hnext
      rw [hcursor] at hturn
      exact ⟨[input], inputs, _, rfl, by omega, run_cons_some.mpr ⟨_, hturn, rfl⟩, rfl, rfl, rfl⟩
    | receive => exact absurd hkeys hon
    | _ =>
      rw [hkeys] at hturn
      obtain ⟨used, rest, q, rfl, hfew, hrun, hq⟩ := @ih { p with keys := keys, frame := frame } hpc
        hnext (by simp [hkeys]) (by dsimp only; omega) hrest
      refine ⟨input :: used, rest, q, rfl, ?_, run_cons_some.mpr ⟨_, hturn, hrun⟩, hq⟩
      dsimp only at hfew
      omega

theorem armed_returns (hpc : p.pc = .loop) {size : Nat}
    (hchain : p.chainBoot = enableChainBoot Statics.init () size) (second third : Input) :
    run (step setup) p [.main second, .main third] =
      some { p with pc := .returned, chainBoot := rapiChainBootMainReturning p.chainBoot } := by
  have hleave : step setup p (.main second) = some { p with pc := .sleep } := by
    simp only [step, mainStep, hpc, hchain]
    rfl
  exact run_cons_some.mpr ⟨_, hleave, rfl⟩

/-- A digit and Enter that come in one read boot that entry, whatever the keys have left pending:
from the head of the main loop, wherever a run has come to it with nothing armed, the picker returns
with that entry after at most fifteen accesses without a report, if the kernel file loads. -/
theorem digit_boots {ticks : UInt32} {es : List Event}
    (h : run (step setup) (begin setup ticks) es = some p) (hpc : p.pc = .loop)
    (hnone : p.booted = []) (hindex : index < setup.count) (hnine : index < 9) {b : Boot}
    (hcard : bootSelection setup.kernelMaxSize setup.menu p.imageBuffer
      (setup.selection index card) = .armed b) {inputs : List Input}
    (hinputs : ∀ input ∈ inputs, Finds card index input) (hlong : 15 ≤ inputs.length) :
    ∃ used rest q, inputs = used ++ rest ∧ run (step setup) p (used.map .main) = some q ∧
      q.pc = .returned ∧ q.booted = [(index, b)] := by
  obtain hwaiting | ⟨index', b', line, hboots⟩ := sound_of_run h
  case inr =>
    rw [hboots.booted] at hnone
    cases hnone
  have hplace := hwaiting.place
  rw [Place, hpc] at hplace
  obtain ⟨-, hreceive, -⟩ := hplace
  cases inputs with
  | nil => exact absurd hlong (by decide)
  | cons first inputs =>
    rw [List.length_cons] at hlong
    have henter : step setup p (.main first) = some
        { p with pc := .turn, keyboard := p.keyboard || (first.updated && first.device) } := by
      simp only [step, mainStep, hpc, hwaiting.chainBoot, isChainBootEnabled, Statics.init]
      rfl
    have hrank : rank p.keys.pc = 12 := by rw [hreceive]; rfl
    obtain ⟨used, rest, q, rfl, hfew, hrun, hq, hchain, himage⟩ := @heading_boots setup
      { p with pc := .turn, keyboard := p.keyboard || (first.updated && first.device) } card index
      hindex hnine inputs rfl (by rw [Heading, hreceive]; trivial) (by simp [hreceive])
      (by dsimp only; omega) (List.forall_mem_cons.mp hinputs).2
    rw [boot, himage, hcard] at hrun
    dsimp only at hrun hfew
    match rest with
    | [] | [_] =>
      simp only [List.length_append, List.length_cons, List.length_nil] at hfew hlong
      omega
    | second :: third :: rest =>
      have hleave := @armed_returns setup
        { q with
          pc := .loop
          imageBuffer := some b.image
          chainBoot := enableChainBoot q.chainBoot () b.imageSize
          booted := q.booted ++ [(index, b)] } rfl b.imageSize
        (by rw [hchain, hwaiting.chainBoot]) second third
      have hlist : first :: (used ++ second :: third :: rest) =
          (first :: (used ++ [second, third])) ++ rest := by simp
      have hall := run_cons_some.mpr ⟨_, henter, run_append_some.mpr ⟨_, hrun, hleave⟩⟩
      have hbooted : q.booted ++ [(index, b)] = [(index, b)] := by
        rw [hq, hnone]
        rfl
      rw [← List.map_singleton, ← List.map_cons, ← List.map_append, ← List.map_cons] at hall
      exact ⟨_, rest, _, hlist, hall, rfl, hbooted⟩

theorem digit_boots_second : ∃ used rest q b,
    List.replicate 15 ⟨0, false, false, digitEnter 1, fineCard⟩ = used ++ rest ∧
      run (step twoSetup) (begin twoSetup 0) (used.map .main) = some q ∧ q.pc = .returned ∧
      q.booted = [(1, b)] := by
  have hcard : ∃ b, bootSelection twoSetup.kernelMaxSize twoSetup.menu (begin twoSetup 0).imageBuffer
      (twoSetup.selection 1 fineCard) = .armed b := ⟨_, rfl⟩
  obtain ⟨b, hb⟩ := hcard
  obtain ⟨used, rest, q, h⟩ := @digit_boots twoSetup (begin twoSetup 0) fineCard 1 0 [] rfl rfl rfl
    (by decide) (by decide) b hb (List.replicate 15 ⟨0, false, false, digitEnter 1, fineCard⟩)
    (fun input hinput => by
      rw [List.eq_of_mem_replicate hinput]
      exact ⟨rfl, rfl⟩) (by decide)
  exact ⟨used, rest, q, b, h⟩

end serial

end RapiBootloader.MenuLoader
