import RapiBootloader.MenuLoader
import RapiBootloader.Lib.Ticks

namespace RapiBootloader.Waits

open Lib.Run Lib.Strings Lib.Ticks MenuLoader

/-- `QuiesceUSB`. The turns of its loop each pump plug-and-play and yield. -/
def quiesceUSB (hz nStart : UInt32) (looks : List UInt32) : Option Nat := spin (2 * hz) nStart looks

inductive LogLine
  | report (ticks : UInt32) (text : String)
  | network (text : String)
deriving DecidableEq

/-- A turn of the loop of `WaitForNetwork`: whether the network runs, and what the timer shows when
it is asked. -/
structure Round where
  running : Bool
  now : UInt32
  again : UInt32

def stillWaiting (bDHCP : Bool) : String :=
  if bDHCP then "still asking DHCP for an address" else "still waiting for the network link"

def networkLine (bDHCP : Bool) (ipString : String) : String :=
  "network: " ++ ipString ++ " (" ++ (if bDHCP then "DHCP" else "config.txt") ++ ")"

/-- `WaitForNetwork` has no deadline: it has no result while the network does not run. -/
def waitForNetwork (hz : UInt32) (bDHCP : Bool) (ipString : String) (nLastReport : UInt32) :
    List Round → Option (List LogLine)
  | [] => none
  | round :: rounds =>
    if round.running then some [.network (networkLine bDHCP ipString)]
    else if round.now - nLastReport ≥ 10 * hz then
      (waitForNetwork hz bDHCP ipString round.again rounds).map
        (.report round.again (stillWaiting bDHCP) :: ·)
    else waitForNetwork hz bDHCP ipString nLastReport rounds

def waiting (look : UInt32 × UInt32) : Round := ⟨false, look.1, look.2⟩

/-- The reports are the marks of a loop that looks at the timer. -/
theorem waitForNetwork_eq (hz : UInt32) (bDHCP : Bool) (ipString : String) (nLastReport : UInt32)
    (looks : List (UInt32 × UInt32)) {last : Round} (hrunning : last.running = true) :
    waitForNetwork hz bDHCP ipString nLastReport (looks.map waiting ++ [last]) =
      some ((beats (10 * hz) nLastReport looks).map (.report · (stillWaiting bDHCP)) ++
        [.network (networkLine bDHCP ipString)]) := by
  induction looks generalizing nLastReport with
  | nil =>
    rw [List.map_nil, List.nil_append, waitForNetwork, if_pos hrunning]
    rfl
  | cons look looks ih =>
    obtain ⟨now, again⟩ := look
    have hturn : ∀ rounds, waitForNetwork hz bDHCP ipString nLastReport
        (waiting (now, again) :: rounds) =
          if now - nLastReport ≥ 10 * hz then
            (waitForNetwork hz bDHCP ipString again rounds).map
              (.report again (stillWaiting bDHCP) :: ·)
          else waitForNetwork hz bDHCP ipString nLastReport rounds := fun _ => rfl
    rw [List.map_cons, List.cons_append, hturn, beats]
    by_cases hdue : now - nLastReport ≥ 10 * hz
    · rw [if_pos hdue, if_pos hdue, ih, Option.map_some, List.map_cons, List.cons_append]
    · rw [if_neg hdue, if_neg hdue, ih]

/-- However the 32-bit timer comes round: two reports are ten seconds apart at least, so is the
first one from the start, and whenever the loop looks at the timer it reports or has done so less
than ten seconds ago. -/
theorem reports_spaced {hz : UInt32} {gap start : Nat} {looks : List (Nat × Nat)}
    (hgap : (10 * hz).toNat + 2 * gap < UInt32.size) (hsteady : Steady gap (start :: times looks))
    (bDHCP : Bool) (ipString : String) {last : Round} (hrunning : last.running = true) :
    ∃ reports : List Nat,
      waitForNetwork hz bDHCP ipString (reading start)
          ((looks.map fun look => waiting (reading look.1, reading look.2)) ++ [last]) =
        some ((reports.map fun t => .report (reading t) (stillWaiting bDHCP)) ++
          [.network (networkLine bDHCP ipString)]) ∧
      List.IsChain (fun a b => a + (10 * hz).toNat ≤ b) (start :: reports) ∧
      ∀ look ∈ looks, ∃ r ∈ start :: reports,
        r = look.2 ∨ r ≤ look.1 ∧ look.1 < r + (10 * hz).toNat := by
  refine ⟨beatsAt (10 * hz).toNat start looks, ?_, beatsAt_spaced hsteady,
    beatsAt_prompt hsteady (Nat.le_refl start)⟩
  have hwait := waitForNetwork_eq hz bDHCP ipString (reading start)
    (looks.map fun look => (reading look.1, reading look.2)) hrunning
  rw [List.map_map] at hwait
  have hbeats := @beats_eq (10 * hz) gap start start looks hgap hsteady (Nat.le_refl start) (by omega)
  rw [hbeats, List.map_map] at hwait
  exact hwait

theorem reports_spaced_wrap : ∃ reports : List Nat,
    waitForNetwork 100 true "10.0.0.2" (reading (2 ^ 32 - 500))
        (([(2 ^ 32 - 100, 2 ^ 32 - 100), (2 ^ 32 + 600, 2 ^ 32 + 601)].map
          fun look => waiting (reading look.1, reading look.2)) ++ [⟨true, 0, 0⟩]) =
      some ((reports.map fun t => .report (reading t) (stillWaiting true)) ++
        [.network (networkLine true "10.0.0.2")]) ∧
    List.IsChain (fun a b => a + (10 * (100 : UInt32)).toNat ≤ b) ((2 ^ 32 - 500) :: reports) ∧
    ∀ look ∈ [(2 ^ 32 - 100, 2 ^ 32 - 100), (2 ^ 32 + 600, 2 ^ 32 + 601)],
      ∃ r ∈ (2 ^ 32 - 500) :: reports,
        r = look.2 ∨ r ≤ look.1 ∧ look.1 < r + (10 * (100 : UInt32)).toNat :=
  @reports_spaced 100 1000 (2 ^ 32 - 500) _ (by decide) (by
    simp only [times, List.flatMap_cons, List.flatMap_nil, List.append_nil, List.cons_append,
      List.nil_append, steady_cons]
    exact ⟨by omega, by omega, by omega, by omega, .singleton _⟩) true "10.0.0.2" _ rfl

section settle

variable {setup : Setup} {gap start : Nat}

theorem begin_settle (hone : setup.count = 1) (ticks : UInt32) :
    begin setup ticks = { Picker.init with pc := .settle ticks } := by
  rw [begin, hone, if_neg Nat.one_ne_zero, if_pos rfl]

theorem settle_run (hone : setup.count = 1) {last : Nat} {inputs : List Input} {ts : List Nat}
    (hgap : (2 * setup.hz).toNat + gap < UInt32.size) (hsteady : Steady gap (last :: ts))
    (hstart : start ≤ last) (hlast : last ≤ start + (2 * setup.hz).toNat)
    (hticks : inputs.map Input.ticks = ts.map reading)
    (hearly : ∀ t ∈ ts, t < start + (2 * setup.hz).toNat) :
    run (step setup) (begin setup (reading start)) (inputs.map .main) =
      some (begin setup (reading start)) := by
  induction ts generalizing last inputs with
  | nil =>
    rw [List.map_nil, List.map_eq_nil_iff] at hticks
    rw [hticks]
    rfl
  | cons now ts ih =>
    cases inputs with
    | nil => cases hticks
    | cons input inputs =>
      obtain ⟨hnow, hrest⟩ := List.cons.inj hticks
      obtain ⟨⟨hle, hnear⟩, hsteady⟩ := steady_cons.mp hsteady
      obtain ⟨hpast, hothers⟩ := List.forall_mem_cons.mp hearly
      have hiff := @since_lt_iff (2 * setup.hz) start now (by omega) (by omega)
      have hstay : step setup (begin setup (reading start)) (.main input) =
          some (begin setup (reading start)) := by
        rw [begin_settle hone, step, mainStep]
        dsimp only
        rw [hnow, if_pos (hiff.mpr hpast)]
      exact run_cons_some.mpr ⟨_, hstay, ih hsteady (by omega) (by omega) hrest hothers⟩

/-- Before they let go of the USB stack both loaders pump it for two seconds, and no longer,
wherever the 32-bit timer comes round: the network loader in `QuiesceUSB`, and the picker before
it boots the only entry of its menu. -/
theorem usb_settles {hz : UInt32} {ts : List Nat} (hgap : (2 * hz).toNat + gap < UInt32.size)
    (hsteady : Steady gap (start :: ts)) :
    quiesceUSB hz (reading start) (ts.map reading) =
        ts.findIdx? (fun t => start + (2 * hz).toNat ≤ t) ∧
      ∀ (setup : Setup) (inputs : List Input) (input : Input) (early : List Nat) (t : Nat),
        setup.count = 1 → setup.hz = hz → ts = early ++ [t] →
        inputs.map Input.ticks = early.map reading → input.ticks = reading t →
        (∀ t ∈ early, t < start + (2 * hz).toNat) →
        run (step setup) (begin setup (reading start)) ((inputs ++ [input]).map .main) =
          some (if t < start + (2 * hz).toNat then begin setup (reading start)
            else boot setup 0 input.card (begin setup (reading start))) := by
  refine ⟨spin_eq hgap hsteady (Nat.le_refl start) (by omega), ?_⟩
  rintro setup inputs input early t hone rfl rfl hticks ht hearly
  have hfirst : Steady gap (start :: early) :=
    List.IsChain.left_of_append (by simpa [Steady] using hsteady)
  have hpump := settle_run hone hgap hfirst (Nat.le_refl start) (by omega) hticks hearly
  rw [List.map_append]
  refine run_append_some.mpr ⟨_, hpump, run_cons_some.mpr ⟨_, ?_, rfl⟩⟩
  obtain ⟨hle, hbound⟩ := @steady_last gap (start + (2 * setup.hz).toNat) start t early hsteady
    (by omega) (fun s hs => Nat.le_of_lt (hearly s hs))
  have hiff := @since_lt_iff (2 * setup.hz) start t hle (by omega)
  rw [begin_settle hone, step, mainStep]
  dsimp only
  rw [ht]
  by_cases hpast : t < start + (2 * setup.hz).toNat
  · rw [if_pos (hiff.mpr hpast), if_pos hpast]
  · rw [if_neg (fun h => hpast (hiff.mp h)), if_neg hpast]

def oneSetup : Setup := { twoSetup with menuFile := ascii "only|-v\n" }

def wrapInput (t : Nat) : Input := ⟨reading t, true, false, [], fineCard⟩

theorem usb_settles_wrap :
    quiesceUSB 100 (reading (2 ^ 32 - 50)) ([2 ^ 32 - 1, 2 ^ 32 + 149, 2 ^ 32 + 150].map reading) =
        [2 ^ 32 - 1, 2 ^ 32 + 149, 2 ^ 32 + 150].findIdx?
          (fun t => 2 ^ 32 - 50 + (2 * (100 : UInt32)).toNat ≤ t) ∧
      run (step oneSetup) (begin oneSetup (reading (2 ^ 32 - 50)))
          (([2 ^ 32 - 1, 2 ^ 32 + 149].map wrapInput ++ [wrapInput (2 ^ 32 + 150)]).map .main) =
        some (boot oneSetup 0 fineCard (begin oneSetup (reading (2 ^ 32 - 50)))) := by
  have hsteady : Steady 1000 [2 ^ 32 - 50, 2 ^ 32 - 1, 2 ^ 32 + 149, 2 ^ 32 + 150] := by
    simp only [steady_cons]
    exact ⟨by omega, by omega, by omega, .singleton _⟩
  obtain ⟨hquiesce, hpicker⟩ := @usb_settles 1000 (2 ^ 32 - 50) 100 _ (by decide) hsteady
  have hboot := hpicker oneSetup ([2 ^ 32 - 1, 2 ^ 32 + 149].map wrapInput)
    (wrapInput (2 ^ 32 + 150)) [2 ^ 32 - 1, 2 ^ 32 + 149] (2 ^ 32 + 150) (by decide +kernel) rfl rfl
    rfl rfl (by decide)
  exact ⟨hquiesce, hboot⟩

end settle

end RapiBootloader.Waits
