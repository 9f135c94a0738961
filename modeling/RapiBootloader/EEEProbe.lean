import RapiBootloader.Lib.Devices

namespace RapiBootloader.EEEProbe

open Lib.Ticks Lib.Devices

def genetUmacOff : UInt64 := 0x0800
def umacMDIOCmd : UInt64 := 0x614
def umacEEECtrl : UInt64 := 0x064

def mdioStartBusy : UInt32 := (1 : UInt32) <<< 29
def mdioReadFail : UInt32 := (1 : UInt32) <<< 28
def mdioRD : UInt32 := (2 : UInt32) <<< 26
def mdioWR : UInt32 := (1 : UInt32) <<< 26
def mdioPmdShift : UInt32 := 21
def mdioRegShift : UInt32 := 16

def phyAddr : UInt32 := 0x01

def miiBMCR : UInt32 := 0x00
def miiBMSR : UInt32 := 0x01
def miiLPA : UInt32 := 0x05
def miiStat1000 : UInt32 := 0x0A
def miiMMDCtrl : UInt32 := 0x0D
def miiMMDData : UInt32 := 0x0E

def bmcrANRestart : UInt16 := (1 : UInt16) <<< 9

def mmdAN : UInt16 := 7
def mmdANEEEAdv : UInt16 := 0x3C
def mmdANEEELpAble : UInt16 := 0x3D

/-- The MAC, where its registers are, and how many ticks a second has. -/
structure Board (σ : Type) where
  dev : Device σ
  armBCM54213Base : UInt64
  hz : UInt32

variable {σ : Type} (b : Board σ)

def Board.mdioCmd : UInt64 := b.armBCM54213Base + genetUmacOff + umacMDIOCmd

def mdioCmdRead : Prog σ UInt32 := b.dev.read b.mdioCmd

def mdioCmdWrite (nValue : UInt32) : Prog σ Unit := b.dev.write b.mdioCmd nValue

def waitTurn (nStart : UInt32) : Prog σ (Option Int) := do
  let nCmd ← mdioCmdRead b
  if nCmd &&& mdioStartBusy ≠ 0 then
    let nNow ← b.dev.look
    if nNow - nStart > b.hz then return some (-1) else return none
  else return some 0

def mdioWait (fuel : Nat) : Prog σ Int := do
  let nStart ← b.dev.look
  loop (waitTurn b nStart) fuel

def readCommand (nReg : UInt32) : UInt32 :=
  mdioRD ||| (phyAddr <<< mdioPmdShift) ||| (nReg <<< mdioRegShift)

def writeCommand (nReg : UInt32) (nValue : UInt16) : UInt32 :=
  mdioWR ||| (phyAddr <<< mdioPmdShift) ||| (nReg <<< mdioRegShift) ||| nValue.toUInt32

/-- What both transactions begin with: the command, and the same again with the bit that
starts it. -/
def mdioStart (fuel : Nat) (nCommand : UInt32) : Prog σ Int := do
  mdioCmdWrite b nCommand
  let nCmd ← mdioCmdRead b
  mdioCmdWrite b (nCmd ||| mdioStartBusy)
  mdioWait b fuel

def mdioRead (fuel : Nat) (nReg : UInt32) : Prog σ Int := do
  let nWait ← mdioStart b fuel (readCommand nReg)
  if nWait < 0 then return -1
  else
    let nCmd ← mdioCmdRead b
    if nCmd &&& mdioReadFail ≠ 0 then return -1 else return (nCmd &&& 0xFFFF).toNat

def mdioWrite (fuel : Nat) (nReg : UInt32) (nValue : UInt16) : Prog σ Int :=
  mdioStart b fuel (writeCommand nReg nValue)

/-- The condition that `mmd_read` and `mmd_write` begin with: that a transaction of the
three failed, which are the address function and the data function. -/
def mmdFails (fuel : Nat) (nDevAd nReg : UInt16) : Prog σ Bool := do
  let nAddress ← mdioWrite b fuel miiMMDCtrl nDevAd
  if nAddress < 0 then return true
  else
    let nReg ← mdioWrite b fuel miiMMDData nReg
    if nReg < 0 then return true
    else
      let nData ← mdioWrite b fuel miiMMDCtrl (0x4000 ||| nDevAd)
      return nData < 0

def mmdRead (fuel : Nat) (nDevAd nReg : UInt16) : Prog σ Int := do
  let bFails ← mmdFails b fuel nDevAd nReg
  if bFails then return -1 else mdioRead b fuel miiMMDData

def mmdWrite (fuel : Nat) (nDevAd nReg nValue : UInt16) : Prog σ Int := do
  let bFails ← mmdFails b fuel nDevAd nReg
  if bFails then return -1 else mdioWrite b fuel miiMMDData nValue

structure TEEEState where
  nBMSR : Int
  nLPA : Int
  nStat1000 : Int
  nEEEAdv : Int
  nEEELpAbility : Int
  nUmacEEECtrl : UInt32

def eeeProbeRead (fuel : Nat) : Prog σ TEEEState := do
  let nBMSR ← mdioRead b fuel miiBMSR
  let nLPA ← mdioRead b fuel miiLPA
  let nStat1000 ← mdioRead b fuel miiStat1000
  let nEEEAdv ← mmdRead b fuel mmdAN mmdANEEEAdv
  let nEEELpAbility ← mmdRead b fuel mmdAN mmdANEEELpAble
  let nUmacEEECtrl ← b.dev.read (b.armBCM54213Base + genetUmacOff + umacEEECtrl)
  return ⟨nBMSR, nLPA, nStat1000, nEEEAdv, nEEELpAbility, nUmacEEECtrl⟩

def eeeProbeDisable (fuel : Nat) : Prog σ Int := do
  let _ ← mmdWrite b fuel mmdAN mmdANEEEAdv 0
  let nReadback ← mmdRead b fuel mmdAN mmdANEEEAdv
  let nBMCR ← mdioRead b fuel miiBMCR
  if nBMCR ≥ 0 then
    let _ ← mdioWrite b fuel miiBMCR (UInt16.ofNat nBMCR.toNat ||| bmcrANRestart)
    return nReadback
  else return nReadback

structure Report where
  adv : Int
  advAfter : Int
  partner : Int
deriving DecidableEq

def disableEEE (fuel : Nat) : Prog σ Report := do
  let state ← eeeProbeRead b fuel
  let nAdvAfter ← eeeProbeDisable b fuel
  return ⟨state.nEEEAdv, nAdvAfter, state.nEEELpAbility⟩

/-- An access that reads, looks at the timer or writes the command register. -/
inductive Access (s : σ) : σ → Prop
  | read (address : UInt64) : Access s (b.dev.read32 address s).2
  | command (value : UInt32) : Access s (b.dev.write32 b.mdioCmd value s)
  | look : Access s (b.dev.getTicks s).2

section time

variable {b} (clock : Clock b.dev) {fuel : Nat}

abbrev Takes (n : Nat) (s t : σ) : Prop := clock.Within (Access b) n s t

theorem takes_graded : Graded (Takes clock) := clock.within_graded (Access b)

theorem mdioCmdRead_ends : Ends (Takes clock) clock.gap (mdioCmdRead b) :=
  clock.read_ends fun _ => .read _

theorem mdioCmdWrite_ends (nValue : UInt32) :
    Ends (Takes clock) clock.gap (mdioCmdWrite b nValue) :=
  clock.write_ends fun _ => .command nValue

def transactionTime : Nat := clock.limit b.hz + 8 * clock.gap

structure Waiting (start : Nat) (first s : σ) : Prop where
  after : start ≤ clock.time s
  inside : clock.time s ≤ start + clock.limit b.hz + clock.gap
  path : Relation.ReflTransGen (Access b) first s

structure Waited (start : Nat) (first s : σ) : Prop where
  after : start ≤ clock.time s
  inside : clock.time s ≤ start + clock.limit b.hz + 3 * clock.gap
  path : Relation.ReflTransGen (Access b) first s

theorem waitTurn_goes {start : Nat} {first s : σ}
    (hroom : b.hz.toNat + 3 * clock.gap + 2 < UInt32.size) (h : Waiting clock start first s) :
    Meets (s = ·) (waitTurn b (reading (start / clock.perTick))) fun r t =>
      Waited clock start first t ∧
        (r = none → Waiting clock start first t ∧ clock.time s < clock.time t) := by
  obtain ⟨hafter, hinside, hpath⟩ := h
  apply Meets.bind (Q := fun _ t => clock.time s < clock.time t ∧
    clock.time t ≤ clock.time s + clock.gap ∧ Relation.ReflTransGen (Access b) first t)
  · rintro _ rfl
    obtain ⟨hlater, hsoon⟩ := clock.read_later b.mdioCmd s
    exact ⟨_, _, rfl, hlater, hsoon, hpath.tail (.read _)⟩
  intro nCmd
  apply Meets.cond
  · intro hbusy
    apply Meets.bind (Q := fun nNow t => Waited clock start first t ∧ clock.time s < clock.time t ∧
      (¬ nNow - reading (start / clock.perTick) > b.hz → Waiting clock start first t))
    · rintro t ⟨hlater, hsoon, hpath⟩
      obtain ⟨hlater', hsoon'⟩ := clock.look_later t
      obtain ⟨now, hnow, hnow', hshown⟩ := clock.shown t
      refine ⟨_, (b.dev.getTicks t).2, rfl, ⟨by omega, by omega, hpath.tail .look⟩, by omega, ?_⟩
      intro hyoung
      rw [hshown] at hyoung
      have hinside' := clock.look_inside (by omega) (by omega) hroom hyoung
      exact ⟨by omega, by omega, hpath.tail .look⟩
    · intro nNow
      apply Meets.cond
      · intro hlate
        apply Meets.ret
        rintro t ⟨hwaited, -, -⟩
        exact ⟨hwaited, by simp⟩
      · intro hyoung
        apply Meets.ret
        rintro t ⟨hwaited, hlater, hgo⟩
        exact ⟨hwaited, fun _ => ⟨hgo hyoung, hlater⟩⟩
  · intro hdone
    apply Meets.ret
    rintro t ⟨hlater, hsoon, hpath⟩
    exact ⟨⟨by omega, by omega, hpath⟩, by simp⟩

theorem mdioWait_ends (hroom : b.hz.toNat + 3 * clock.gap + 2 < UInt32.size)
    (hfuel : clock.limit b.hz + clock.gap < fuel) :
    Ends (Takes clock) (clock.limit b.hz + 4 * clock.gap) (mdioWait b fuel) := by
  intro s
  apply Meets.bind (Q := fun nStart t => ∃ start, nStart = reading (start / clock.perTick) ∧
    clock.time s ≤ start ∧ start ≤ clock.time s + clock.gap ∧ Waiting clock start s t)
  · rintro _ rfl
    obtain ⟨hlater, hsoon⟩ := clock.look_later s
    obtain ⟨start, hstart, hstart', hshown⟩ := clock.shown s
    exact ⟨_, (b.dev.getTicks s).2, rfl, start, hshown, hstart, by omega, hstart', by omega,
      .single .look⟩
  · rintro nStart t ⟨start, rfl, hstart, hstart', hwaiting⟩
    have hturn : ∀ u, Waiting clock start s u → ∃ r v,
        waitTurn b (reading (start / clock.perTick)) u = some (r, v) ∧
          (∀ a, r = some a → Waited clock start s v) ∧
          (r = none → Waiting clock start s v ∧
            start + clock.limit b.hz + clock.gap - clock.time v <
              start + clock.limit b.hz + clock.gap - clock.time u) := by
      intro u hu
      obtain ⟨r, v, hrun, hv, hnone⟩ := waitTurn_goes clock hroom hu u rfl
      refine ⟨r, v, hrun, fun _ _ => hv, fun hr => ?_⟩
      obtain ⟨hgo, hlater⟩ := hnone hr
      have hinside := hgo.inside
      exact ⟨hgo, by omega⟩
    have hafter := hwaiting.after
    have hloop : Meets (fun u => Waiting clock start s u ∧
        start + clock.limit b.hz + clock.gap - clock.time u < fuel)
        (loop (waitTurn b (reading (start / clock.perTick))) fuel)
        fun _ v => Waited clock start s v := Meets.loop _ _ hturn
    obtain ⟨a, u, hrun, hafter, hinside, hpath⟩ := hloop t ⟨hwaiting, by omega⟩
    exact ⟨a, u, hrun, by omega, by omega, hpath⟩

section transactions

variable (hroom : b.hz.toNat + 3 * clock.gap + 2 < UInt32.size)
  (hfuel : clock.limit b.hz + clock.gap < fuel)

include hroom hfuel

theorem mdioStart_ends (nCommand : UInt32) :
    Ends (Takes clock) (clock.limit b.hz + 7 * clock.gap) (mdioStart b fuel nCommand) := by
  have hgraded := takes_graded clock
  have hwait : ∀ nCmd, Ends (Takes clock) (clock.gap + (clock.limit b.hz + 4 * clock.gap))
      (mdioCmdWrite b (nCmd ||| mdioStartBusy) >>= fun _ => mdioWait b fuel) := fun nCmd =>
    (mdioCmdWrite_ends clock _).bind hgraded fun _ => mdioWait_ends clock hroom hfuel
  have hstart := (mdioCmdWrite_ends clock nCommand).bind hgraded fun _ =>
    (mdioCmdRead_ends clock).bind hgraded hwait
  exact hstart.mono hgraded (by omega)

theorem mdioRead_ends (nReg : UInt32) :
    Ends (Takes clock) (transactionTime clock) (mdioRead b fuel nReg) := by
  have hgraded := takes_graded clock
  have hdata : Ends (Takes clock) (clock.gap + 0) (mdioCmdRead b >>= fun nCmd =>
      if nCmd &&& mdioReadFail ≠ 0 then pure (-1) else pure ((nCmd &&& 0xFFFF).toNat : Int)) :=
    (mdioCmdRead_ends clock).bind hgraded fun _ => .cond (.ret hgraded _) (.ret hgraded _)
  have hread := (mdioStart_ends clock hroom hfuel (readCommand nReg)).bind hgraded fun nWait =>
    Ends.cond (c := nWait < 0) (.ret hgraded (-1)) hdata
  exact hread.mono hgraded (by rw [transactionTime]; omega)

theorem mdioWrite_ends (nReg : UInt32) (nValue : UInt16) :
    Ends (Takes clock) (transactionTime clock) (mdioWrite b fuel nReg nValue) :=
  (mdioStart_ends clock hroom hfuel _).mono (takes_graded clock) (by rw [transactionTime]; omega)

theorem mmdFails_ends (nDevAd nReg : UInt16) :
    Ends (Takes clock) (3 * transactionTime clock) (mmdFails b fuel nDevAd nReg) := by
  have hgraded := takes_graded clock
  have hwrite := mdioWrite_ends clock hroom hfuel
  have hdata := (hwrite miiMMDCtrl (0x4000 ||| nDevAd)).bind hgraded fun nData =>
    Ends.ret (n := 0) hgraded (decide (nData < 0))
  have hreg := (hwrite miiMMDData nReg).bind hgraded fun nReg =>
    Ends.cond (c := nReg < 0) (.ret hgraded true) hdata
  have hselect := (hwrite miiMMDCtrl nDevAd).bind hgraded fun nAddress =>
    Ends.cond (c := nAddress < 0) (.ret hgraded true) hreg
  exact hselect.mono hgraded (by omega)

theorem mmdRead_ends (nDevAd nReg : UInt16) :
    Ends (Takes clock) (4 * transactionTime clock) (mmdRead b fuel nDevAd nReg) := by
  have hgraded := takes_graded clock
  have hread := (mmdFails_ends clock hroom hfuel nDevAd nReg).bind hgraded fun bFails =>
    Ends.cond (c := bFails = true) (.ret hgraded (-1)) (mdioRead_ends clock hroom hfuel miiMMDData)
  exact hread.mono hgraded (by omega)

theorem mmdWrite_ends (nDevAd nReg nValue : UInt16) :
    Ends (Takes clock) (4 * transactionTime clock) (mmdWrite b fuel nDevAd nReg nValue) := by
  have hgraded := takes_graded clock
  have hwrite := (mmdFails_ends clock hroom hfuel nDevAd nReg).bind hgraded fun bFails =>
    Ends.cond (c := bFails = true) (.ret hgraded (-1))
      (mdioWrite_ends clock hroom hfuel miiMMDData nValue)
  exact hwrite.mono hgraded (by omega)

theorem eeeProbeRead_ends :
    Ends (Takes clock) (11 * transactionTime clock + clock.gap) (eeeProbeRead b fuel) := by
  have hgraded := takes_graded clock
  have hread := mdioRead_ends clock hroom hfuel
  have hmmd := mmdRead_ends clock hroom hfuel mmdAN
  have hctrl : Ends (Takes clock) clock.gap
      (b.dev.read (b.armBCM54213Base + genetUmacOff + umacEEECtrl)) :=
    clock.read_ends fun _ => .read _
  have hprobe := (hread miiBMSR).bind hgraded fun nBMSR =>
    (hread miiLPA).bind hgraded fun nLPA =>
    (hread miiStat1000).bind hgraded fun nStat1000 =>
    (hmmd mmdANEEEAdv).bind hgraded fun nEEEAdv =>
    (hmmd mmdANEEELpAble).bind hgraded fun nEEELpAbility =>
    hctrl.bind hgraded fun nUmacEEECtrl =>
    Ends.ret (n := 0) hgraded
      (TEEEState.mk nBMSR nLPA nStat1000 nEEEAdv nEEELpAbility nUmacEEECtrl)
  exact hprobe.mono hgraded (by omega)

theorem eeeProbeDisable_ends :
    Ends (Takes clock) (10 * transactionTime clock) (eeeProbeDisable b fuel) := by
  have hgraded := takes_graded clock
  have hclear := mmdWrite_ends clock hroom hfuel mmdAN mmdANEEEAdv 0
  have hback := mmdRead_ends clock hroom hfuel mmdAN mmdANEEEAdv
  have hrestart : ∀ nReadback nBMCR : Int, Ends (Takes clock) (transactionTime clock + 0)
      (mdioWrite b fuel miiBMCR (UInt16.ofNat nBMCR.toNat ||| bmcrANRestart) >>= fun _ =>
        pure nReadback) := fun nReadback nBMCR =>
    (mdioWrite_ends clock hroom hfuel _ _).bind hgraded fun _ => .ret hgraded nReadback
  have hdisable := hclear.bind hgraded fun _ => hback.bind hgraded fun nReadback =>
    (mdioRead_ends clock hroom hfuel miiBMCR).bind hgraded fun nBMCR =>
    Ends.cond (c := nBMCR ≥ 0) (hrestart nReadback nBMCR) (.ret hgraded nReadback)
  exact hdisable.mono hgraded (by omega)

theorem disableEEE_ends :
    Ends (Takes clock) (21 * transactionTime clock + clock.gap) (disableEEE b fuel) := by
  have hgraded := takes_graded clock
  have hdisable := (eeeProbeRead_ends clock hroom hfuel).bind hgraded fun state =>
    (eeeProbeDisable_ends clock hroom hfuel).bind hgraded fun nAdvAfter =>
    Ends.ret (n := 0) hgraded (Report.mk state.nEEEAdv nAdvAfter state.nEEELpAbility)
  exact hdisable.mono hgraded (by omega)

end transactions

/-- However the MAC and the PHY answer, the boot goes on: no wait is longer than the timer lets it
be, and nothing but the command register is written. -/
theorem disableEEE_returns (hroom : b.hz.toNat + 3 * clock.gap + 2 < UInt32.size)
    (hfuel : clock.limit b.hz + clock.gap < fuel) (s : σ) :
    ∃ report t, disableEEE b fuel s = some (report, t) ∧ clock.time s ≤ clock.time t ∧
      clock.time t ≤ clock.time s + 21 * (clock.limit b.hz + 8 * clock.gap) + clock.gap ∧
      Relation.ReflTransGen (Access b) s t := by
  obtain ⟨report, t, hrun, hlater, hsoon, hpath⟩ := disableEEE_ends clock hroom hfuel s s rfl
  rw [transactionTime] at hsoon
  exact ⟨report, t, hrun, hlater, by omega, hpath⟩

def stuckBoard : Board Nat where
  dev :=
    { read32 := fun _ s => (mdioStartBusy, s + 1)
      write32 := fun _ _ s => s + 1
      getTicks := fun s => (reading (s + 1), s + 1) }
  armBCM54213Base := 0xFD580000
  hz := 100

def stuckClock : Clock stuckBoard.dev where
  time := id
  perTick := 1
  gap := 1
  runs := Nat.one_pos
  read_later _ s := ⟨Nat.lt_succ_self s, Nat.le_refl _⟩
  write_later _ _ s := ⟨Nat.lt_succ_self s, Nat.le_refl _⟩
  look_later s := ⟨Nat.lt_succ_self s, Nat.le_refl _⟩
  shown s := ⟨s + 1, Nat.le_succ s, Nat.le_refl _, by rw [Nat.div_one]; rfl⟩

theorem disableEEE_returns_stuck : ∃ report t, disableEEE stuckBoard 200 0 = some (report, t) ∧
    stuckClock.time 0 ≤ stuckClock.time t ∧
    stuckClock.time t ≤
      stuckClock.time 0 + 21 * (stuckClock.limit stuckBoard.hz + 8 * stuckClock.gap) +
        stuckClock.gap ∧
    Relation.ReflTransGen (Access stuckBoard) 0 t :=
  disableEEE_returns stuckClock (by decide) (by decide) 0

end time

end RapiBootloader.EEEProbe
