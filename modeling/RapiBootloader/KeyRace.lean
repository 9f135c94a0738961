import RapiBootloader.KeyReports
import RapiBootloader.Lib.Run

namespace RapiBootloader.KeyRace

open Lib.Run MenuLoop KeyReports

inductive Accum
  | move
  | page
deriving DecidableEq

/-- The access to a shared variable that the main loop comes to next, with what it has loaded. -/
inductive Pc
  | receive
  | bytes (rest : List UInt8)
  | bump (accum : Accum) (loaded : Int) (amount : Int) (rest : List UInt8)
  | move
  | resetMove (nMove : Int)
  | page
  | resetPage (nPage : Int)
  | jump
  | resetJump (nJump : Nat)
  | select
  | resetSelect
  | booted
deriving DecidableEq

/-- What keys and serial bytes have asked of an accumulator, and what the loop has taken from it. -/
structure Tally where
  asked : Int
  applied : Int
deriving DecidableEq

def Tally.ask (t : Tally) (n : Int) : Tally := { t with asked := t.asked + n }

def Tally.apply (t : Tally) (n : Int) : Tally := { t with applied := t.applied + n }

/-- The menu-loader between two accesses, and what has happened so far. `jumpSince` tells whether a
digit has been recorded since the loop read `m_nJumpTo`, and `jumpLost` whether one was erased so. -/
structure State where
  kernel : CKernel
  prevRawKeys : Report
  redraw : Bool
  pc : Pc
  moves : Tally
  pages : Tally
  jumpSince : Bool
  jumpLost : Bool
deriving DecidableEq

/-- The interrupt handler runs with a report, or the main loop goes on by one access. `received` is
what the serial port has when the loop reads it. -/
inductive Event
  | report (r : Report)
  | loop (received : List UInt8)

def setIntents (s : CKernel) (k : Intents) : CKernel := { s with intents := k }

def load : Accum → Intents → Int
  | .move, k => k.moveAccum
  | .page, k => k.pageAccum

def store : Accum → Int → Intents → Intents
  | .move, n, k => { k with moveAccum := n }
  | .page, n, k => { k with pageAccum := n }

def ask : Accum → Int → State → State
  | .move, n, s => { s with moves := s.moves.ask n }
  | .page, n, s => { s with pages := s.pages.ask n }

def edges (key : UInt8) (prev r : Report) : Int := fresh key prev r.keys

def records (prev r : Report) : Bool :=
  r.keys.any (fun c => c ∉ prev.keys ∧ hidKeyDigit1 ≤ c ∧ c ≤ hidKeyDigit9)

def interrupt (r : Report) (s : State) : State :=
  let keys := keyStatusHandlerRaw r ⟨s.kernel.intents, s.prevRawKeys⟩
  { s with
    kernel := setIntents s.kernel keys.intents
    prevRawKeys := keys.prevRawKeys
    moves := s.moves.ask (edges hidKeyDown s.prevRawKeys r - edges hidKeyUp s.prevRawKeys r)
    pages := s.pages.ask (edges hidKeyPageDown s.prevRawKeys r - edges hidKeyPageUp s.prevRawKeys r)
    jumpSince := s.jumpSince || records s.prevRawKeys r }

/-- A byte from the serial port: a load, if it is for an accumulator, or a store. -/
def serialByte (c : UInt8) (rest : List UInt8) (s : State) : State :=
  if c = 106 then { s with pc := .bump .move (load .move s.kernel.intents) 1 rest }
  else if c = 107 then { s with pc := .bump .move (load .move s.kernel.intents) (-1) rest }
  else if c = 102 then { s with pc := .bump .page (load .page s.kernel.intents) 1 rest }
  else if c = 98 then { s with pc := .bump .page (load .page s.kernel.intents) (-1) rest }
  else { s with
    kernel := setIntents s.kernel (inject s.kernel.intents c)
    pc := .bytes rest }

/-- The main loop up to its next access. The drains work with the value that has been loaded. -/
def advance (count page : Nat) (received : List UInt8) (s : State) : State :=
  match s.pc with
  | .receive => { s with redraw := false, pc := .bytes (received.take 32) }
  | .bytes (c :: rest) => serialByte c rest s
  | .bytes [] => { s with pc := .move }
  | .bump accum loaded amount rest =>
    ask accum amount { s with
      kernel := setIntents s.kernel (store accum (loaded + amount) s.kernel.intents)
      pc := .bytes rest }
  | .move =>
    if s.kernel.intents.moveAccum ≠ 0 then { s with pc := .resetMove s.kernel.intents.moveAccum }
    else { s with pc := .page }
  | .resetMove nMove =>
    let drained := drainMove count (setIntents s.kernel (store .move nMove s.kernel.intents))
    { s with
      kernel := drained.1
      redraw := s.redraw || drained.2
      pc := .page
      moves := s.moves.apply nMove }
  | .page =>
    if s.kernel.intents.pageAccum ≠ 0 then { s with pc := .resetPage s.kernel.intents.pageAccum }
    else { s with pc := .jump }
  | .resetPage nPage =>
    let drained := drainPage count page
      (setIntents s.kernel (store .page nPage s.kernel.intents))
    { s with
      kernel := drained.1
      redraw := s.redraw || drained.2
      pc := .jump
      pages := s.pages.apply nPage }
  | .jump =>
    match s.kernel.intents.jumpTo with
    | some nJump => { s with pc := .resetJump nJump, jumpSince := false }
    | none => { s with pc := .select, jumpSince := false }
  | .resetJump nJump =>
    let drained := drainJump count
      (setIntents s.kernel { s.kernel.intents with jumpTo := some nJump })
    { s with
      kernel := drained.1
      redraw := s.redraw || drained.2
      pc := .select
      jumpLost := s.jumpLost || s.jumpSince }
  | .select =>
    { s with
      kernel := if s.redraw then drawMenu count page s.kernel else s.kernel
      pc := if s.kernel.intents.selectPending then .resetSelect else .receive }
  | .resetSelect =>
    { s with
      kernel := setIntents s.kernel { s.kernel.intents with selectPending := false }
      pc := .booted }
  | .booted => s

def next (count page : Nat) (s : State) : Event → State
  | .report r => interrupt r s
  | .loop received => advance count page received s

def step (count page : Nat) (s : State) (e : Event) : Option State := some (next count page s e)

def start (count page : Nat) : State where
  kernel := drawMenu count page ⟨Intents.none, 0, 0⟩
  prevRawKeys := Report.idle
  redraw := false
  pc := .receive
  moves := ⟨0, 0⟩
  pages := ⟨0, 0⟩
  jumpSince := false
  jumpLost := false

variable {count page : Nat}

theorem serialByte_cases (c : UInt8) (rest : List UInt8) (s : State) :
    (∃ accum amount,
      serialByte c rest s = { s with
        pc := .bump accum (load accum s.kernel.intents) amount rest } ∧
      inject s.kernel.intents c =
        store accum (load accum s.kernel.intents + amount) s.kernel.intents) ∨
    (serialByte c rest s = { s with
        kernel := setIntents s.kernel (inject s.kernel.intents c)
        pc := .bytes rest } ∧
      (inject s.kernel.intents c).moveAccum = s.kernel.intents.moveAccum ∧
      (inject s.kernel.intents c).pageAccum = s.kernel.intents.pageAccum) := by
  unfold serialByte inject
  by_cases hj : c = 106
  · rw [if_pos hj, if_pos hj]
    exact Or.inl ⟨.move, 1, rfl, rfl⟩
  rw [if_neg hj, if_neg hj]
  by_cases hk : c = 107
  · rw [if_pos hk, if_pos hk]
    exact Or.inl ⟨.move, -1, rfl, rfl⟩
  rw [if_neg hk, if_neg hk]
  by_cases hf : c = 102
  · rw [if_pos hf, if_pos hf]
    exact Or.inl ⟨.page, 1, rfl, rfl⟩
  rw [if_neg hf, if_neg hf]
  by_cases hb : c = 98
  · rw [if_pos hb, if_pos hb]
    exact Or.inl ⟨.page, -1, rfl, rfl⟩
  rw [if_neg hb, if_neg hb]
  refine Or.inr ⟨rfl, ?_⟩
  split
  · exact ⟨rfl, rfl⟩
  · split
    · exact ⟨rfl, rfl⟩
    · exact ⟨rfl, rfl⟩

def Calm (count page : Nat) (s t : State) : Prop :=
  ∃ received : List (List UInt8), run (step count page) s (received.map Event.loop) = some t

theorem Calm.trans {s t u : State} (hst : Calm count page s t) (htu : Calm count page t u) :
    Calm count page s u := by
  obtain ⟨rs, hrs⟩ := hst
  obtain ⟨rs', hrs'⟩ := htu
  refine ⟨rs ++ rs', ?_⟩
  rw [List.map_append]
  exact run_append_some.mpr ⟨t, hrs, hrs'⟩

theorem calm_advance (received : List UInt8) (s : State) :
    Calm count page s (advance count page received s) := ⟨[received], rfl⟩

theorem calm_bump {accum : Accum} {amount : Int} {rest : List UInt8} {s : State}
    (hpc : s.pc = .bump accum (load accum s.kernel.intents) amount rest) :
    ∃ t, Calm count page s t ∧ t.pc = .bytes rest ∧ t.redraw = s.redraw ∧
      t.kernel = setIntents s.kernel
        (store accum (load accum s.kernel.intents + amount) s.kernel.intents) := by
  refine ⟨_, calm_advance [] s, ?_⟩
  cases accum with
  | move =>
    simp only [advance, hpc, ask]
    exact ⟨trivial, trivial, trivial⟩
  | page =>
    simp only [advance, hpc, ask]
    exact ⟨trivial, trivial, trivial⟩

theorem calm_byte {c : UInt8} {rest : List UInt8} {s : State} (hpc : s.pc = .bytes (c :: rest)) :
    ∃ t, Calm count page s t ∧ t.pc = .bytes rest ∧ t.redraw = s.redraw ∧
      t.kernel = setIntents s.kernel (inject s.kernel.intents c) := by
  have hfirst : Calm count page s (serialByte c rest s) := by
    have hadv := @calm_advance count page [] s
    rw [advance, hpc] at hadv
    exact hadv
  obtain ⟨accum, amount, hbyte, hinject⟩ | ⟨hbyte, -⟩ := serialByte_cases c rest s
  · rw [hbyte] at hfirst
    rw [hinject]
    obtain ⟨t, ht, hend⟩ := @calm_bump count page accum amount rest
      { s with pc := .bump accum (load accum s.kernel.intents) amount rest } rfl
    exact ⟨t, hfirst.trans ht, hend⟩
  · refine ⟨_, hfirst, ?_⟩
    rw [hbyte]
    exact ⟨rfl, rfl, rfl⟩

theorem calm_bytes (rest : List UInt8) {s : State} (hpc : s.pc = .bytes rest) :
    ∃ t, Calm count page s t ∧ t.pc = .move ∧ t.redraw = s.redraw ∧
      t.kernel = setIntents s.kernel (rest.foldl inject s.kernel.intents) := by
  induction rest generalizing s with
  | nil =>
    refine ⟨advance count page [] s, calm_advance [] s, ?_, ?_, ?_⟩
    · rw [advance, hpc]
    · rw [advance, hpc]
    · rw [advance, hpc]
      rfl
  | cons c rest ih =>
    obtain ⟨t, hst, htpc, hredraw, hkernel⟩ := calm_byte hpc
    obtain ⟨u, htu, hupc, huredraw, hukernel⟩ := ih htpc
    refine ⟨u, hst.trans htu, hupc, huredraw.trans hredraw, ?_⟩
    rw [hukernel, hkernel]
    rfl

theorem calm_move {s : State} (hpc : s.pc = .move) :
    ∃ t, Calm count page s t ∧ t.pc = .page ∧
      t.redraw = (s.redraw || (drainMove count s.kernel).2) ∧
      t.kernel = (drainMove count s.kernel).1 := by
  by_cases h : s.kernel.intents.moveAccum ≠ 0
  · refine ⟨_, (calm_advance [] s).trans (calm_advance [] _), ?_⟩
    simp only [advance, hpc, if_pos h]
    exact ⟨trivial, rfl, rfl⟩
  · refine ⟨_, calm_advance [] s, ?_⟩
    have hdrain : drainMove count s.kernel = (s.kernel, false) := by
      unfold drainMove
      exact if_neg h
    simp only [advance, hpc, if_neg h, hdrain, Bool.or_false]
    exact ⟨trivial, trivial, trivial⟩

theorem calm_page {s : State} (hpc : s.pc = .page) :
    ∃ t, Calm count page s t ∧ t.pc = .jump ∧
      t.redraw = (s.redraw || (drainPage count page s.kernel).2) ∧
      t.kernel = (drainPage count page s.kernel).1 := by
  by_cases h : s.kernel.intents.pageAccum ≠ 0
  · refine ⟨_, (calm_advance [] s).trans (calm_advance [] _), ?_⟩
    simp only [advance, hpc, if_pos h]
    exact ⟨trivial, rfl, rfl⟩
  · refine ⟨_, calm_advance [] s, ?_⟩
    have hdrain : drainPage count page s.kernel = (s.kernel, false) := by
      unfold drainPage
      exact if_neg h
    simp only [advance, hpc, if_neg h, hdrain, Bool.or_false]
    exact ⟨trivial, trivial, trivial⟩

theorem calm_jump {s : State} (hpc : s.pc = .jump) :
    ∃ t, Calm count page s t ∧ t.pc = .select ∧
      t.redraw = (s.redraw || (drainJump count s.kernel).2) ∧
      t.kernel = (drainJump count s.kernel).1 := by
  cases hjump : s.kernel.intents.jumpTo with
  | some nJump =>
    refine ⟨_, (calm_advance [] s).trans (calm_advance [] _), ?_⟩
    have hsame : setIntents s.kernel { s.kernel.intents with jumpTo := some nJump } = s.kernel := by
      rw [← hjump]
      rfl
    simp only [advance, hpc, hjump, hsame]
    exact ⟨trivial, trivial, trivial⟩
  | none =>
    refine ⟨_, calm_advance [] s, ?_⟩
    have hdrain : drainJump count s.kernel = (s.kernel, false) := by
      unfold drainJump
      rw [hjump]
    simp only [advance, hpc, hjump, hdrain, Bool.or_false]
    exact ⟨trivial, trivial, trivial⟩

theorem calm_select {s : State} (hpc : s.pc = .select) :
    let drawn := if s.redraw then drawMenu count page s.kernel else s.kernel
    ∃ t, Calm count page s t ∧
      t.pc = (if drawn.intents.selectPending then .booted else .receive) ∧
      t.kernel = (if drawn.intents.selectPending then
        setIntents drawn { drawn.intents with selectPending := false } else drawn) := by
  intro drawn
  have hkeys : drawn.intents = s.kernel.intents := by
    dsimp only [drawn]
    split
    · rfl
    · rfl
  rw [hkeys]
  by_cases h : s.kernel.intents.selectPending = true
  · refine ⟨_, (calm_advance [] s).trans (calm_advance [] _), ?_⟩
    simp only [advance, hpc, if_pos h]
    refine ⟨trivial, ?_⟩
    rw [show (if s.redraw = true then drawMenu count page s.kernel else s.kernel) = drawn from rfl,
      hkeys]
  · refine ⟨_, calm_advance [] s, ?_⟩
    simp only [advance, hpc, if_neg h]
    exact ⟨trivial, rfl⟩

/-- A turn of the main loop in which no report arrives is `poll`. -/
theorem calm_turn (received : List UInt8) {s : State} (hpc : s.pc = .receive) :
    let polled := poll count page s.kernel (received.take 32)
    ∃ t, Calm count page s t ∧ t.kernel = polled.1 ∧
      t.pc = (if polled.2.isSome then .booted else .receive) := by
  have hreceive : ∃ t, Calm count page s t ∧ t.pc = .bytes (received.take 32) ∧
      t.redraw = false ∧ t.kernel = s.kernel := by
    refine ⟨_, calm_advance received s, ?_⟩
    simp only [advance, hpc]
    exact ⟨trivial, trivial, trivial⟩
  obtain ⟨t₁, h₁, hpc₁, hredraw₁, hkernel₁⟩ := hreceive
  obtain ⟨t₂, h₂, hpc₂, hredraw₂, hkernel₂⟩ := calm_bytes (received.take 32) hpc₁
  obtain ⟨t₃, h₃, hpc₃, hredraw₃, hkernel₃⟩ := calm_move hpc₂
  obtain ⟨t₄, h₄, hpc₄, hredraw₄, hkernel₄⟩ := calm_page hpc₃
  obtain ⟨t₅, h₅, hpc₅, hredraw₅, hkernel₅⟩ := calm_jump hpc₄
  obtain ⟨t₆, h₆, hpc₆, hkernel₆⟩ := calm_select hpc₅
  have hcalm : Calm count page s t₆ := h₁.trans (h₂.trans (h₃.trans (h₄.trans (h₅.trans h₆))))
  intro polled
  have hpolled : polled =
      let drawn := if t₅.redraw then drawMenu count page t₅.kernel else t₅.kernel
      if drawn.intents.selectPending then
        (setIntents drawn { drawn.intents with selectPending := false }, some drawn.cursor)
      else (drawn, none) := by
    rw [hredraw₅, hkernel₅, hredraw₄, hkernel₄, hredraw₃, hkernel₃, hredraw₂, hkernel₂, hredraw₁,
      hkernel₁, Bool.false_or]
    rfl
  refine ⟨t₆, hcalm, ?_⟩
  rw [hpc₆, hkernel₆, hpolled]
  generalize (if t₅.redraw then drawMenu count page t₅.kernel else t₅.kernel) = drawn
  dsimp only
  by_cases h : drawn.intents.selectPending = true
  · simp only [if_pos h, Option.isSome_some, if_true]
    exact ⟨trivial, trivial⟩
  · simp only [if_neg h, Option.isSome_none, Bool.false_eq_true, if_false]
    exact ⟨trivial, trivial⟩

/-- What was applied and what is pending is what was asked for, and no digit was erased unseen. -/
structure Kept (s : State) : Prop where
  moves : s.moves.applied + s.kernel.intents.moveAccum = s.moves.asked
  pages : s.pages.applied + s.kernel.intents.pageAccum = s.pages.asked
  jumps : s.jumpLost = false

/-- Where the main loop is about to store, nothing has come in since it loaded. -/
def Undisturbed (s : State) : Event → Prop
  | .report _ => True
  | .loop _ =>
    match s.pc with
    | .bump accum loaded _ _ => load accum s.kernel.intents = loaded
    | .resetMove nMove => s.kernel.intents.moveAccum = nMove
    | .resetPage nPage => s.kernel.intents.pageAccum = nPage
    | .resetJump _ => s.jumpSince = false
    | _ => True

theorem drainMove_intents (count : Nat) (s : CKernel) :
    (drainMove count s).1.intents = { s.intents with moveAccum := 0 } := by
  unfold drainMove
  dsimp only
  by_cases h : s.intents.moveAccum ≠ 0
  · rw [if_pos h, apply_ite Prod.fst, apply_ite CKernel.intents]
    exact ite_self _
  · rw [if_neg h]
    rw [not_not] at h
    rw [← h]

theorem drainPage_intents (count page : Nat) (s : CKernel) :
    (drainPage count page s).1.intents = { s.intents with pageAccum := 0 } := by
  unfold drainPage
  dsimp only
  by_cases h : s.intents.pageAccum ≠ 0
  · rw [if_pos h, apply_ite Prod.fst, apply_ite CKernel.intents]
    exact ite_self _
  · rw [if_neg h]
    rw [not_not] at h
    rw [← h]

theorem drainJump_intents (count : Nat) (s : CKernel) :
    (drainJump count s).1.intents = { s.intents with jumpTo := none } := by
  obtain ⟨⟨moveAccum, pageAccum, jumpTo, selectPending⟩, cursor, topVisible⟩ := s
  unfold drainJump
  cases jumpTo with
  | none => rfl
  | some nJump =>
    dsimp only
    rw [apply_ite Prod.fst, apply_ite CKernel.intents]
    exact ite_self _

theorem kept_interrupt {s : State} (h : Kept s) (r : Report) : Kept (interrupt r s) := by
  obtain ⟨hmove, hpage, -⟩ := foldl_slot s.prevRawKeys r.keys s.kernel.intents
  have hm := h.moves
  have hp := h.pages
  refine ⟨?_, ?_, h.jumps⟩
  · simp only [interrupt, setIntents, keyStatusHandlerRaw, Tally.ask, hmove, edges]
    omega
  · simp only [interrupt, setIntents, keyStatusHandlerRaw, Tally.ask, hpage, edges]
    omega

theorem Kept.congr {s t : State} (h : Kept s) (hmoves : t.moves = s.moves)
    (hpages : t.pages = s.pages) (hlost : t.jumpLost = s.jumpLost)
    (hmove : t.kernel.intents.moveAccum = s.kernel.intents.moveAccum)
    (hpage : t.kernel.intents.pageAccum = s.kernel.intents.pageAccum) : Kept t :=
  ⟨by rw [hmoves, hmove, h.moves], by rw [hpages, hpage, h.pages], by rw [hlost, h.jumps]⟩

theorem kept_serialByte {s : State} (h : Kept s) (c : UInt8) (rest : List UInt8) :
    Kept (serialByte c rest s) := by
  obtain ⟨accum, amount, hbyte, -⟩ | ⟨hbyte, hmove, hpage⟩ := serialByte_cases c rest s
  · rw [hbyte]
    exact h.congr rfl rfl rfl rfl rfl
  · rw [hbyte]
    exact h.congr rfl rfl rfl hmove hpage

/-- A store keeps count just when it puts back what is still there. -/
theorem kept_bump_iff {s : State} (h : Kept s) (accum : Accum) (loaded amount : Int) (pc : Pc) :
    Kept (ask accum amount { s with
      kernel := setIntents s.kernel (store accum (loaded + amount) s.kernel.intents), pc := pc }) ↔
      load accum s.kernel.intents = loaded := by
  have hm := h.moves
  have hp := h.pages
  cases accum with
  | move =>
    simp only [ask, setIntents, store, load, Tally.ask]
    constructor
    · intro hkept
      have hmoves := hkept.moves
      dsimp only at hmoves
      omega
    · intro hload
      refine ⟨?_, hp, h.jumps⟩
      dsimp only
      omega
  | page =>
    simp only [ask, setIntents, store, load, Tally.ask]
    constructor
    · intro hkept
      have hpages := hkept.pages
      dsimp only at hpages
      omega
    · intro hload
      refine ⟨hm, ?_, h.jumps⟩
      dsimp only
      omega

/-- The main loop keeps count just when nothing has come in between its load and its store. -/
theorem kept_advance_iff {count page : Nat} {s : State} (h : Kept s) (received : List UInt8) :
    Kept (advance count page received s) ↔ Undisturbed s (.loop received) := by
  have hm := h.moves
  have hp := h.pages
  unfold advance Undisturbed
  cases hpc : s.pc with
  | receive => exact iff_of_true (h.congr rfl rfl rfl rfl rfl) trivial
  | bytes rest =>
    cases rest with
    | nil => exact iff_of_true (h.congr rfl rfl rfl rfl rfl) trivial
    | cons c rest => exact iff_of_true (kept_serialByte h c rest) trivial
  | bump accum loaded amount rest => exact kept_bump_iff h accum loaded amount (.bytes rest)
  | move =>
    dsimp only
    split
    · exact iff_of_true (h.congr rfl rfl rfl rfl rfl) trivial
    · exact iff_of_true (h.congr rfl rfl rfl rfl rfl) trivial
  | resetMove nMove =>
    dsimp only
    constructor
    · intro hkept
      have hmoves := hkept.moves
      rw [drainMove_intents] at hmoves
      simp only [Tally.apply] at hmoves
      omega
    · intro hload
      refine ⟨?_, ?_, h.jumps⟩
      · rw [drainMove_intents]
        simp only [Tally.apply]
        omega
      · rw [drainMove_intents]
        exact hp
  | page =>
    dsimp only
    split
    · exact iff_of_true (h.congr rfl rfl rfl rfl rfl) trivial
    · exact iff_of_true (h.congr rfl rfl rfl rfl rfl) trivial
  | resetPage nPage =>
    dsimp only
    constructor
    · intro hkept
      have hpages := hkept.pages
      rw [drainPage_intents] at hpages
      simp only [Tally.apply] at hpages
      omega
    · intro hload
      refine ⟨?_, ?_, h.jumps⟩
      · rw [drainPage_intents]
        exact hm
      · rw [drainPage_intents]
        simp only [Tally.apply]
        omega
  | jump =>
    dsimp only
    split
    · exact iff_of_true (h.congr rfl rfl rfl rfl rfl) trivial
    · exact iff_of_true (h.congr rfl rfl rfl rfl rfl) trivial
  | resetJump nJump =>
    dsimp only
    constructor
    · intro hkept
      have hlost := hkept.jumps
      dsimp only at hlost
      exact (Bool.or_eq_false_iff.mp hlost).2
    · intro hsince
      refine ⟨?_, ?_, ?_⟩
      · rw [drainJump_intents]
        exact hm
      · rw [drainJump_intents]
        exact hp
      · exact Bool.or_eq_false_iff.mpr ⟨h.jumps, hsince⟩
  | select =>
    refine iff_of_true (h.congr rfl rfl rfl ?_ ?_) trivial
    · dsimp only
      split <;> rfl
    · dsimp only
      split <;> rfl
  | resetSelect => exact iff_of_true (h.congr rfl rfl rfl rfl rfl) trivial
  | booted => exact iff_of_true h trivial

/-- Every key press is counted, and no digit is erased, throughout a run just when nothing comes in
between a load of the main loop and the store that follows it. -/
theorem keys_kept_iff (count page : Nat) (es : List Event) :
    Throughout (step count page) Kept (start count page) es ↔
      Along (step count page) Undisturbed (start count page) es := by
  apply throughout_iff_along
  · exact fun s e => rfl
  · intro s e t hs ht
    cases ht
    cases e with
    | report r => exact iff_of_true (kept_interrupt hs r) trivial
    | loop received => exact kept_advance_iff hs received
  · exact ⟨rfl, rfl, rfl⟩

theorem kept_last {count page : Nat} {s : State} {es : List Event}
    (h : Throughout (step count page) Kept s es) : Kept (es.foldl (next count page) s) := by
  induction es generalizing s with
  | nil => exact h
  | cons e es ih => exact ih (h.2 (next count page s e) rfl)

def downPressed : Report := ⟨[hidKeyDown, 0, 0, 0, 0, 0], rfl⟩

def pressedTwice : List Event :=
  [.report downPressed, .loop [], .loop [], .loop [], .report Report.idle, .report downPressed,
    .loop []]

/-- The second press is lost. -/
theorem not_keys_kept :
    ¬ ∀ count page es, Throughout (step count page) Kept (start count page) es := by
  intro h
  have hmoves := (kept_last (h 3 3 pressedTwice)).moves
  exact absurd hmoves (by decide)

end RapiBootloader.KeyRace
