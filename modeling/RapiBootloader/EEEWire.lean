import RapiBootloader.EEEProbe

namespace RapiBootloader.EEEWire

open Lib.Ticks Lib.Devices EEEProbe

/-- What the command register asks of the PHY. -/
inductive Request
  | read (nReg : UInt32)
  | write (nReg : UInt32) (nValue : UInt16)
deriving DecidableEq

def Request.reg : Request → UInt32
  | .read nReg => nReg
  | .write nReg _ => nReg

def Request.command : Request → UInt32
  | .read nReg => readCommand nReg
  | .write nReg nValue => writeCommand nReg nValue

/-- What goes over the two wires. A read may fail. -/
inductive Transaction
  | read (nReg : UInt32) (data : Option UInt16)
  | write (nReg : UInt32) (nValue : UInt16)
deriving DecidableEq

def Answers (nCmd : UInt32) : Option UInt16 → Prop
  | none => nCmd &&& mdioReadFail ≠ 0
  | some data => nCmd &&& mdioReadFail = 0 ∧ nCmd &&& 0xFFFF = data.toUInt32

def Carried (nCmd : UInt32) : Request → Transaction → Prop
  | .read nReg, t => ∃ data, t = .read nReg data ∧ Answers nCmd data
  | .write nReg nValue, t => t = .write nReg nValue

/-- What a PHY has behind its registers 13 and 14: the register of one of its devices that it was
last sent to, and what has been written there. -/
structure Mmd where
  control : UInt16
  address : UInt16 → UInt16
  regs : UInt16 → UInt16 → Option UInt16

namespace Mmd

def init : Mmd := ⟨0, fun _ => 0, fun _ _ => none⟩

def devAd (m : Mmd) : UInt16 := m.control &&& 0x1F

/-- Address, data, and data with the address going on after both accesses or after writes. -/
def function (m : Mmd) : UInt16 := m.control >>> 14

def goOn (m : Mmd) : Mmd :=
  { m with address := Function.update m.address m.devAd (m.address m.devAd + 1) }

def store (m : Mmd) (data : UInt16) : Mmd :=
  if m.function = 0 then { m with address := Function.update m.address m.devAd data }
  else
    let stored := { m with
      regs := Function.update m.regs m.devAd
        (Function.update (m.regs m.devAd) (m.address m.devAd) (some data)) }
    if m.function = 1 then stored else stored.goOn

def step (m : Mmd) : Transaction → Mmd
  | .write nReg nValue =>
    if nReg = miiMMDCtrl then { m with control := nValue }
    else if nReg = miiMMDData then m.store nValue
    else m
  | .read nReg _ => if nReg = miiMMDData ∧ m.function = 2 then m.goOn else m

def after (wire : List Transaction) : Mmd := wire.foldl step init

def Selects (m : Mmd) (nDevAd nReg : UInt16) : Prop :=
  m.function ≠ 0 ∧ m.devAd = nDevAd ∧ m.address nDevAd = nReg

end Mmd

def selects (nReg : UInt16) : List Transaction :=
  [.write miiMMDCtrl mmdAN, .write miiMMDData nReg, .write miiMMDCtrl (0x4000 ||| mmdAN)]

theorem step_control (m : Mmd) (nValue : UInt16) :
    m.step (.write miiMMDCtrl nValue) = { m with control := nValue } := by
  rw [Mmd.step, if_pos rfl]

theorem step_data (m : Mmd) (nValue : UInt16) :
    m.step (.write miiMMDData nValue) = m.store nValue := by
  have hother : miiMMDData ≠ miiMMDCtrl := by decide
  rw [Mmd.step, if_neg hother, if_pos rfl]

theorem after_selects (wire : List Transaction) (nReg : UInt16) :
    Mmd.after (wire ++ selects nReg) =
      ⟨0x4000 ||| mmdAN, Function.update (Mmd.after wire).address mmdAN nReg,
        (Mmd.after wire).regs⟩ := by
  have hdevAd : mmdAN &&& 0x1F = mmdAN := by decide
  have hfunction : mmdAN >>> 14 = 0 := by decide
  rw [Mmd.after, List.foldl_append, selects, List.foldl_cons, List.foldl_cons, List.foldl_cons,
    List.foldl_nil, step_control, step_data, step_control, Mmd.store, Mmd.function,
    if_pos hfunction, Mmd.devAd, hdevAd]
  rfl

theorem selected (wire : List Transaction) (nReg : UInt16) :
    (Mmd.after (wire ++ selects nReg)).Selects mmdAN nReg := by
  have hfunction : (0x4000 ||| mmdAN) >>> 14 ≠ 0 := by decide
  have hdevAd : (0x4000 ||| mmdAN) &&& 0x1F = mmdAN := by decide
  rw [after_selects]
  exact ⟨hfunction, hdevAd, Function.update_self mmdAN nReg (Mmd.after wire).address⟩

/-- Data that is written is in the register that is selected, and nowhere else. -/
theorem after_data (wire : List Transaction) (nReg nValue : UInt16) :
    (Mmd.after (wire ++ selects nReg ++ [.write miiMMDData nValue])).regs =
      Function.update (Mmd.after wire).regs mmdAN
        (Function.update ((Mmd.after wire).regs mmdAN) nReg (some nValue)) := by
  have hfunction : (0x4000 ||| mmdAN) >>> 14 = 1 := by decide
  have hdevAd : (0x4000 ||| mmdAN) &&& 0x1F = mmdAN := by decide
  have hdata : (1 : UInt16) ≠ 0 := by decide
  rw [Mmd.after, List.foldl_append, ← Mmd.after, after_selects, List.foldl_cons, List.foldl_nil,
    step_data, Mmd.store, Mmd.function, hfunction, if_neg hdata, Mmd.devAd, hdevAd]
  dsimp only
  rw [if_pos rfl, Function.update_self]

theorem read_regs (wire : List Transaction) (nReg : UInt32) (data : Option UInt16) :
    (Mmd.after (wire ++ [.read nReg data])).regs = (Mmd.after wire).regs := by
  rw [Mmd.after, List.foldl_append, List.foldl_cons, List.foldl_nil, Mmd.step]
  split <;> rfl

theorem control_regs (wire : List Transaction) (nValue : UInt16) :
    (Mmd.after (wire ++ [.write miiBMCR nValue])).regs = (Mmd.after wire).regs := by
  have hcontrol : miiBMCR ≠ miiMMDCtrl := by decide
  have hdata : miiBMCR ≠ miiMMDData := by decide
  rw [Mmd.after, List.foldl_append, List.foldl_cons, List.foldl_nil, Mmd.step, if_neg hcontrol,
    if_neg hdata, Mmd.after]

theorem selects_regs (wire : List Transaction) (nReg : UInt16) :
    (Mmd.after (wire ++ selects nReg)).regs = (Mmd.after wire).regs := by
  rw [after_selects]

def probing (bmsr lpa stat1000 adv partner : Option UInt16) : List Transaction :=
  [.read miiBMSR bmsr, .read miiLPA lpa, .read miiStat1000 stat1000] ++
    selects mmdANEEEAdv ++ [.read miiMMDData adv] ++
    selects mmdANEEELpAble ++ [.read miiMMDData partner]

def restarting : Option UInt16 → List Transaction
  | none => []
  | some bmcr => [.write miiBMCR (bmcr ||| bmcrANRestart)]

def disabling (back bmcr : Option UInt16) : List Transaction :=
  selects mmdANEEEAdv ++ [.write miiMMDData 0] ++ selects mmdANEEEAdv ++
    [.read miiMMDData back] ++ [.read miiBMCR bmcr] ++ restarting bmcr

theorem probing_regs (wire : List Transaction) (bmsr lpa stat1000 adv partner : Option UInt16) :
    (Mmd.after (wire ++ probing bmsr lpa stat1000 adv partner)).regs = (Mmd.after wire).regs := by
  have hsplit : wire ++ probing bmsr lpa stat1000 adv partner =
      wire ++ [.read miiBMSR bmsr] ++ [.read miiLPA lpa] ++ [.read miiStat1000 stat1000] ++
        selects mmdANEEEAdv ++ [.read miiMMDData adv] ++ selects mmdANEEELpAble ++
        [.read miiMMDData partner] := by
    simp only [probing, List.append_assoc, List.cons_append, List.nil_append]
  rw [hsplit, read_regs, selects_regs, read_regs, selects_regs, read_regs, read_regs, read_regs]

theorem disabling_regs (wire : List Transaction) (back bmcr : Option UInt16) :
    (Mmd.after (wire ++ disabling back bmcr)).regs = Function.update (Mmd.after wire).regs mmdAN
      (Function.update ((Mmd.after wire).regs mmdAN) mmdANEEEAdv (some 0)) := by
  have hsplit : wire ++ disabling back bmcr = wire ++ selects mmdANEEEAdv ++
      [.write miiMMDData 0] ++ selects mmdANEEEAdv ++ [.read miiMMDData back] ++
      [.read miiBMCR bmcr] ++ restarting bmcr := by
    simp only [disabling, List.append_assoc]
  rw [hsplit]
  cases bmcr with
  | none => rw [restarting, List.append_nil, read_regs, read_regs, selects_regs, after_data]
  | some bmcr => rw [restarting, control_regs, read_regs, read_regs, selects_regs, after_data]

def Kept (wire : List Transaction) (t : Transaction) : Prop :=
  ∀ data adv, t = .read miiMMDData (some data) →
    (Mmd.after wire).Selects mmdAN mmdANEEEAdv →
    (Mmd.after wire).regs mmdAN mmdANEEEAdv = some adv → data = adv

/-- Between transactions, with what the command register shows, or in one that is over in time. -/
inductive Mode
  | idle (nCmd : UInt32)
  | busy (request : Request) (due : Nat)

variable {σ : Type}

/-- What the driver may rely on: a transaction that is started is carried out once, the bit that
started it shows until then, and the PHY gives its advertisement back as it was written. -/
structure Controller (b : Board σ) (clock : Clock b.dev) where
  mode : σ → Mode
  wire : σ → List Transaction
  patience : Nat
  inTime : patience + clock.gap < b.hz.toNat * clock.perTick
  look_keeps : ∀ s, mode (b.dev.getTicks s).2 = mode s ∧ wire (b.dev.getTicks s).2 = wire s
  other_keeps : ∀ address s, address ≠ b.mdioCmd →
    mode (b.dev.read32 address s).2 = mode s ∧ wire (b.dev.read32 address s).2 = wire s
  shows : ∀ s nCmd, mode s = .idle nCmd → (b.dev.read32 b.mdioCmd s).1 = nCmd ∧
    mode (b.dev.read32 b.mdioCmd s).2 = .idle nCmd ∧ wire (b.dev.read32 b.mdioCmd s).2 = wire s
  latches : ∀ s nCmd nValue, mode s = .idle nCmd → nValue &&& mdioStartBusy = 0 →
    mode (b.dev.write32 b.mdioCmd nValue s) = .idle nValue ∧
      wire (b.dev.write32 b.mdioCmd nValue s) = wire s
  starts : ∀ s nCmd (request : Request), mode s = .idle nCmd → request.reg < 32 →
    ∃ due, due ≤ clock.time s + patience ∧
      mode (b.dev.write32 b.mdioCmd (request.command ||| mdioStartBusy) s) =
        .busy request due ∧
      wire (b.dev.write32 b.mdioCmd (request.command ||| mdioStartBusy) s) = wire s
  carries : ∀ s request due nCmd t, mode s = .busy request due →
    b.dev.read32 b.mdioCmd s = (nCmd, t) →
    nCmd &&& mdioStartBusy ≠ 0 ∧ clock.time t ≤ due ∧ mode t = .busy request due ∧
        wire t = wire s ∨
      nCmd &&& mdioStartBusy = 0 ∧ mode t = .idle nCmd ∧ ∃ transaction,
        Carried nCmd request transaction ∧ Kept (wire s) transaction ∧
          wire t = wire s ++ [transaction]

theorem data_and_mask (nValue : UInt16) : nValue.toUInt32 &&& 0xFFFF = nValue.toUInt32 := by
  apply UInt32.toNat_inj.mp
  rw [UInt32.toNat_and, UInt16.toNat_toUInt32]
  exact Nat.and_two_pow_sub_one_of_lt_two_pow (n := 16) nValue.toNat_lt

theorem data_and {mask : UInt32} (h : 0xFFFF &&& mask = 0) (nValue : UInt16) :
    nValue.toUInt32 &&& mask = 0 := by
  rw [← data_and_mask, UInt32.and_assoc, h, UInt32.and_zero]

theorem or_and_distrib (x y mask : UInt32) : (x ||| y) &&& mask = x &&& mask ||| y &&& mask :=
  UInt32.toBitVec_inj.mp BitVec.and_or_distrib_right

theorem or_and {x y mask : UInt32} (hx : x &&& mask = 0) (hy : y &&& mask = 0) :
    (x ||| y) &&& mask = 0 := by
  rw [or_and_distrib, hx, hy, UInt32.or_self]

theorem below_32 {P : UInt32 → Prop} (hall : ∀ n < 32, P (UInt32.ofNat n)) {nReg : UInt32}
    (h : nReg < 32) : P nReg := by
  have hreg := hall nReg.toNat (UInt32.lt_iff_toNat_lt.mp h)
  rwa [UInt32.ofNat_toNat] at hreg

theorem reg_startBusy {nReg : UInt32} (h : nReg < 32) :
    (nReg <<< mdioRegShift) &&& mdioStartBusy = 0 :=
  below_32 (P := fun nReg => (nReg <<< mdioRegShift) &&& mdioStartBusy = 0) (by decide) h

theorem command_startBusy {request : Request} (h : request.reg < 32) :
    request.command &&& mdioStartBusy = 0 := by
  cases request with
  | read nReg => exact or_and rfl (reg_startBusy h)
  | write nReg nValue => exact or_and (or_and rfl (reg_startBusy h)) (data_and rfl nValue)

/-- How `mdio_read` gives the data. -/
def given : Option UInt16 → Int
  | none => -1
  | some data => data.toNat

theorem given_of_answers {nCmd : UInt32} {data : Option UInt16} (h : Answers nCmd data) :
    (if nCmd &&& mdioReadFail ≠ 0 then (-1 : Int) else (nCmd &&& 0xFFFF).toNat) = given data := by
  cases data with
  | none => exact if_pos h
  | some data =>
    obtain ⟨hfine, hdata⟩ := h
    rw [if_neg (not_not.mpr hfine), hdata, UInt16.toNat_toUInt32, given]

section controller

variable {b : Board σ} {clock : Clock b.dev} (c : Controller b clock) {fuel : Nat}

structure Idle (wire : List Transaction) (s : σ) : Prop where
  idle : ∃ nCmd, c.mode s = .idle nCmd
  wire_eq : c.wire s = wire

structure Over (wire : List Transaction) (request : Request) (s : σ) : Prop where
  done : ∃ nCmd t, c.mode s = .idle nCmd ∧ c.wire s = wire ++ [t] ∧ Carried nCmd request t ∧
    Kept wire t

structure Polling (start due : Nat) (wire : List Transaction) (request : Request) (s : σ) :
    Prop where
  busy : c.mode s = .busy request due
  wire_eq : c.wire s = wire
  after : start ≤ clock.time s
  inTime : due ≤ start + c.patience

theorem waitTurn_polls {start due : Nat} {wire : List Transaction} {request : Request} {s : σ}
    (h : Polling c start due wire request s) :
    Meets (s = ·) (waitTurn b (reading (start / clock.perTick))) fun r t =>
      (∀ a, r = some a → a = 0 ∧ Over c wire request t) ∧
        (r = none → Polling c start due wire request t ∧
          due - clock.time t < due - clock.time s) := by
  obtain ⟨hmode, hwire, hafter, htime⟩ := h
  apply Meets.bind (Q := fun nCmd t => nCmd &&& mdioStartBusy ≠ 0 ∧
      clock.time s < clock.time t ∧ clock.time t ≤ due ∧ Polling c start due wire request t ∨
    nCmd &&& mdioStartBusy = 0 ∧ Over c wire request t)
  · rintro _ rfl
    have hlater := (clock.read_later b.mdioCmd s).1
    refine ⟨_, (b.dev.read32 b.mdioCmd s).2, rfl, ?_⟩
    obtain ⟨hbusy, hdue, hmode', hwire'⟩ | ⟨hdone, hidle, t, hcarried, hkept, hwire'⟩ :=
      c.carries s request due _ _ hmode rfl
    · exact .inl ⟨hbusy, hlater, hdue, hmode', hwire'.trans hwire, by omega, htime⟩
    · rw [hwire] at hkept hwire'
      exact .inr ⟨hdone, _, t, hidle, hwire', hcarried, hkept⟩
  intro nCmd
  apply Meets.cond
  · intro hbusy
    apply Meets.bind (Q := fun nNow t => ¬ nNow - reading (start / clock.perTick) > b.hz ∧
      Polling c start due wire request t ∧ due - clock.time t < due - clock.time s)
    · rintro t (⟨-, hlater, hdue, hmode, hwire, hafter, -⟩ | ⟨hdone, -⟩)
      · obtain ⟨hlater', hsoon⟩ := clock.look_later t
        obtain ⟨now, hnow, hnow', hshown⟩ := clock.shown t
        have hinTime := c.inTime
        have hearly : ¬ reading (now / clock.perTick) - reading (start / clock.perTick) > b.hz :=
          clock.look_early (by omega) (by omega)
        rw [← hshown] at hearly
        obtain ⟨hlook, hlook'⟩ := c.look_keeps t
        exact ⟨_, (b.dev.getTicks t).2, rfl, hearly, ⟨hlook.trans hmode, hlook'.trans hwire,
          by omega, htime⟩, by omega⟩
      · exact absurd hdone hbusy
    · intro nNow
      apply Meets.cond
      · exact fun hlate t ht => absurd hlate ht.1
      · intro _
        apply Meets.ret
        rintro t ⟨-, hpolling, hless⟩
        exact ⟨by simp, fun _ => ⟨hpolling, hless⟩⟩
  · intro hdone
    apply Meets.ret
    rintro t (⟨hbusy, -⟩ | ⟨-, hover⟩)
    · exact absurd hbusy hdone
    · exact ⟨fun a ha => ⟨(Option.some.inj ha).symm, hover⟩, by simp⟩

variable (hfuel : clock.limit b.hz < fuel)

include hfuel

theorem mdioWait_over {wire : List Transaction} {request : Request} {due : Nat} :
    Meets (fun s => c.mode s = .busy request due ∧ c.wire s = wire ∧
      due ≤ clock.time s + c.patience) (mdioWait b fuel) fun r t =>
      r = 0 ∧ Over c wire request t := by
  apply Meets.bind (Q := fun nStart t => ∃ start, nStart = reading (start / clock.perTick) ∧
    Polling c start due wire request t)
  · rintro s ⟨hmode, hwire, hdue⟩
    obtain ⟨hlater, hsoon⟩ := clock.look_later s
    obtain ⟨start, hstart, hstart', hshown⟩ := clock.shown s
    obtain ⟨hlook, hlook'⟩ := c.look_keeps s
    exact ⟨_, (b.dev.getTicks s).2, rfl, start, hshown, hlook.trans hmode,
      hlook'.trans hwire, hstart', by omega⟩
  · rintro nStart s ⟨start, rfl, hpolling⟩
    have hloop : Meets _ (loop (waitTurn b (reading (start / clock.perTick))) fuel)
        fun r t => r = 0 ∧ Over c wire request t :=
      Meets.loop (Polling c start due wire request) (fun u => due - clock.time u)
        fun u hu => waitTurn_polls c hu u rfl
    have hafter := hpolling.after
    have hdue := hpolling.inTime
    have hinTime := c.inTime
    have hlimit : clock.limit b.hz = b.hz.toNat * clock.perTick + 1 * clock.perTick :=
      Nat.add_mul _ _ _
    exact hloop s ⟨hpolling, by omega⟩

theorem mdioStart_over {wire : List Transaction} {request : Request} (hreg : request.reg < 32) :
    Meets (Idle c wire) (mdioStart b fuel request.command) fun r t =>
      r = 0 ∧ Over c wire request t := by
  apply Meets.bind (Q := fun _ t => c.mode t = .idle request.command ∧ c.wire t = wire)
  · rintro s ⟨⟨nCmd, hidle⟩, hwire⟩
    obtain ⟨hlatched, hlatched'⟩ := c.latches s nCmd _ hidle (command_startBusy hreg)
    exact ⟨_, _, rfl, hlatched, hlatched'.trans hwire⟩
  intro _
  apply Meets.bind (Q := fun nCmd t => nCmd = request.command ∧
    c.mode t = .idle request.command ∧ c.wire t = wire)
  · rintro s ⟨hidle, hwire⟩
    obtain ⟨hshown, hidle', hwire'⟩ := c.shows s _ hidle
    exact ⟨_, _, rfl, hshown, hidle', hwire'.trans hwire⟩
  rintro nCmd s ⟨rfl, hidle, hwire⟩
  obtain ⟨due, hdue, hbusy, hwire'⟩ := c.starts s _ request hidle hreg
  have hlater := (clock.write_later b.mdioCmd (request.command ||| mdioStartBusy) s).1
  exact mdioWait_over c hfuel _ ⟨hbusy, hwire'.trans hwire, by omega⟩

theorem mdioWrite_wire {wire : List Transaction} {nReg : UInt32} (hreg : nReg < 32)
    (nValue : UInt16) :
    Meets (Idle c wire) (mdioWrite b fuel nReg nValue) fun r t =>
      r = 0 ∧ Idle c (wire ++ [.write nReg nValue]) t := by
  apply (@mdioStart_over σ b clock c fuel hfuel wire (.write nReg nValue) hreg).mono fun _ h => h
  rintro r s ⟨hr, ⟨nCmd, t, hidle, hwire, rfl, -⟩⟩
  exact ⟨hr, ⟨nCmd, hidle⟩, hwire⟩

theorem mdioRead_wire {wire : List Transaction} {nReg : UInt32} (hreg : nReg < 32) :
    Meets (Idle c wire) (mdioRead b fuel nReg) fun r t => ∃ data, r = given data ∧
      Idle c (wire ++ [.read nReg data]) t ∧ Kept wire (.read nReg data) := by
  apply Meets.bind (@mdioStart_over σ b clock c fuel hfuel wire (.read nReg) hreg)
  intro nWait
  apply Meets.cond
  · rintro hfails s ⟨rfl, -⟩
    exact absurd hfails (by decide)
  intro _
  apply Meets.bind (Q := fun nCmd t => ∃ data, Answers nCmd data ∧
    Idle c (wire ++ [.read nReg data]) t ∧ Kept wire (.read nReg data))
  · rintro s ⟨-, ⟨nCmd, _, hidle, hwire, ⟨data, rfl, hanswers⟩, hkept⟩⟩
    obtain ⟨hshown, hidle', hwire'⟩ := c.shows s nCmd hidle
    exact ⟨_, _, rfl, data, hshown ▸ hanswers, ⟨⟨nCmd, hidle'⟩, hwire'.trans hwire⟩, hkept⟩
  · rintro nCmd s ⟨data, hanswers, hidle, hkept⟩
    have hgiven := given_of_answers hanswers
    refine ⟨given data, s, ?_, data, rfl, hidle, hkept⟩
    rw [← hgiven]
    split <;> rfl

theorem mmdFails_wire {wire : List Transaction} (nReg : UInt16) :
    Meets (Idle c wire) (mmdFails b fuel mmdAN nReg) fun r t =>
      r = false ∧ Idle c (wire ++ selects nReg) t := by
  apply Meets.bind (mdioWrite_wire c hfuel (by decide) mmdAN)
  intro nAddress
  apply Meets.cond
  · rintro hfails s ⟨rfl, -⟩
    exact absurd hfails (by decide)
  intro _
  apply Meets.bind (Q := fun r t => r = 0 ∧
    Idle c (wire ++ [.write miiMMDCtrl mmdAN] ++ [.write miiMMDData nReg]) t)
  · rintro s ⟨-, hidle⟩
    exact mdioWrite_wire c hfuel (by decide) nReg s hidle
  intro nData
  apply Meets.cond
  · rintro hfails s ⟨rfl, -⟩
    exact absurd hfails (by decide)
  intro _
  apply Meets.bind (Q := fun r t => r = 0 ∧ Idle c (wire ++ [.write miiMMDCtrl mmdAN] ++
    [.write miiMMDData nReg] ++ [.write miiMMDCtrl (0x4000 ||| mmdAN)]) t)
  · rintro s ⟨-, hidle⟩
    exact mdioWrite_wire c hfuel (by decide) (0x4000 ||| mmdAN) s hidle
  rintro nWrite
  apply Meets.ret
  rintro s ⟨rfl, hidle⟩
  rw [List.append_assoc, List.append_assoc] at hidle
  exact ⟨rfl, hidle⟩

theorem mmdRead_wire {wire : List Transaction} (nReg : UInt16) :
    Meets (Idle c wire) (mmdRead b fuel mmdAN nReg) fun r t => ∃ data, r = given data ∧
      Idle c (wire ++ selects nReg ++ [.read miiMMDData data]) t ∧
      Kept (wire ++ selects nReg) (.read miiMMDData data) := by
  apply Meets.bind (mmdFails_wire c hfuel nReg)
  intro bFails
  apply Meets.cond
  · rintro hfails s ⟨rfl, -⟩
    cases hfails
  · intro _
    exact (mdioRead_wire c hfuel (by decide)).mono (fun _ hs => hs.2) fun _ _ ht => ht

theorem mmdWrite_wire {wire : List Transaction} (nReg nValue : UInt16) :
    Meets (Idle c wire) (mmdWrite b fuel mmdAN nReg nValue) fun r t =>
      r = 0 ∧ Idle c (wire ++ selects nReg ++ [.write miiMMDData nValue]) t := by
  apply Meets.bind (mmdFails_wire c hfuel nReg)
  intro bFails
  apply Meets.cond
  · rintro hfails s ⟨rfl, -⟩
    cases hfails
  · intro _
    exact (mdioWrite_wire c hfuel (by decide) nValue).mono (fun _ hs => hs.2) fun _ _ ht => ht

theorem eeeProbeRead_wire {wire : List Transaction} :
    Meets (Idle c wire) (eeeProbeRead b fuel) fun state t =>
      ∃ bmsr lpa stat1000 adv partner, state.nEEEAdv = given adv ∧
        state.nEEELpAbility = given partner ∧
        Idle c (wire ++ probing bmsr lpa stat1000 adv partner) t := by
  have hbmsr : miiBMSR < 32 := by decide
  have hlpa : miiLPA < 32 := by decide
  have hstat : miiStat1000 < 32 := by decide
  intro s₀ h₀
  obtain ⟨_, s₁, hrun₁, bmsr, rfl, h₁, -⟩ := mdioRead_wire c hfuel hbmsr s₀ h₀
  obtain ⟨_, s₂, hrun₂, lpa, rfl, h₂, -⟩ := mdioRead_wire c hfuel hlpa s₁ h₁
  obtain ⟨_, s₃, hrun₃, stat1000, rfl, h₃, -⟩ := mdioRead_wire c hfuel hstat s₂ h₂
  obtain ⟨_, s₄, hrun₄, adv, rfl, h₄, -⟩ := mmdRead_wire c hfuel mmdANEEEAdv s₃ h₃
  obtain ⟨_, s₅, hrun₅, partner, rfl, h₅, -⟩ := mmdRead_wire c hfuel mmdANEEELpAble s₄ h₄
  have hother : b.armBCM54213Base + genetUmacOff + umacEEECtrl ≠ b.mdioCmd := fun h =>
    absurd ((UInt64.add_right_inj _).mp h) (by decide)
  obtain ⟨hmode, hwire⟩ := c.other_keeps _ s₅ hother
  obtain ⟨⟨nCmd, hidle⟩, hwire₅⟩ := h₅
  refine ⟨⟨given bmsr, given lpa, given stat1000, given adv, given partner,
    (b.dev.read32 (b.armBCM54213Base + genetUmacOff + umacEEECtrl) s₅).1⟩,
    (b.dev.read32 (b.armBCM54213Base + genetUmacOff + umacEEECtrl) s₅).2, ?_, bmsr, lpa,
    stat1000, adv, partner, rfl, rfl, ⟨nCmd, hmode.trans hidle⟩, ?_⟩
  · rw [eeeProbeRead, bind_run hrun₁, bind_run hrun₂, bind_run hrun₃, bind_run hrun₄,
      bind_run hrun₅]
    rfl
  · rw [hwire, hwire₅]
    simp only [probing, List.append_assoc, List.cons_append, List.nil_append]

theorem eeeProbeDisable_wire {wire : List Transaction} :
    Meets (Idle c wire) (eeeProbeDisable b fuel) fun r t =>
      ∃ back bmcr, r = given back ∧ (back = none ∨ back = some 0) ∧
        Idle c (wire ++ disabling back bmcr) t := by
  have hbmcr : miiBMCR < 32 := by decide
  intro s₀ h₀
  obtain ⟨_, s₁, hrun₁, -, h₁⟩ := mmdWrite_wire c hfuel mmdANEEEAdv 0 s₀ h₀
  obtain ⟨_, s₂, hrun₂, back, rfl, h₂, hkept⟩ := mmdRead_wire c hfuel mmdANEEEAdv s₁ h₁
  obtain ⟨_, s₃, hrun₃, bmcr, rfl, h₃, -⟩ := mdioRead_wire c hfuel hbmcr s₂ h₂
  have hback : back = none ∨ back = some 0 := by
    cases back with
    | none => exact .inl rfl
    | some data =>
      have hcleared : data = 0 := hkept data 0 rfl (selected _ _) (by
        rw [selects_regs, after_data, Function.update_self, Function.update_self])
      rw [hcleared]
      exact .inr rfl
  cases bmcr with
  | none =>
    refine ⟨given back, s₃, ?_, back, none, rfl, hback, ?_⟩
    · rw [eeeProbeDisable, bind_run hrun₁, bind_run hrun₂, bind_run hrun₃]
      rfl
    · rw [disabling, restarting, List.append_nil]
      simpa only [List.append_assoc] using h₃
  | some bmcr =>
    obtain ⟨_, s₄, hrun₄, -, h₄⟩ := mdioWrite_wire c hfuel hbmcr (bmcr ||| bmcrANRestart) s₃ h₃
    refine ⟨given back, s₄, ?_, back, some bmcr, rfl, hback, ?_⟩
    · have hgiven : given (some bmcr) ≥ 0 := Int.natCast_nonneg _
      have hback : UInt16.ofNat (given (some bmcr)).toNat = bmcr := by
        rw [given, Int.toNat_natCast, UInt16.ofNat_toNat]
      rw [eeeProbeDisable, bind_run hrun₁, bind_run hrun₂, bind_run hrun₃, if_pos hgiven, hback,
        bind_run hrun₄]
      rfl
    · rw [disabling, restarting]
      simpa only [List.append_assoc] using h₄

/-- On a MAC and a PHY that do as they are told the boot clears the advertisement and nothing else
behind the two registers, asks for a new negotiation with what the control register holds, and logs
what it has read; what it logs as the advertisement after that is 0, or that it could not be
read. -/
theorem eee_disabled {s : σ} {nCmd : UInt32} (hidle : c.mode s = .idle nCmd) :
    ∃ t bmsr lpa stat1000 adv partner back bmcr,
      disableEEE b fuel s = some (⟨given adv, given back, given partner⟩, t) ∧
      (∃ nCmd, c.mode t = .idle nCmd) ∧
      c.wire t = c.wire s ++ probing bmsr lpa stat1000 adv partner ++ disabling back bmcr ∧
      (back = none ∨ back = some 0) ∧
      (Mmd.after (c.wire t)).regs = Function.update (Mmd.after (c.wire s)).regs mmdAN
        (Function.update ((Mmd.after (c.wire s)).regs mmdAN) mmdANEEEAdv (some 0)) := by
  obtain ⟨state, s', hread, bmsr, lpa, stat1000, adv, partner, hadv, hpartner, hprobed⟩ :=
    eeeProbeRead_wire c hfuel s ⟨⟨nCmd, hidle⟩, rfl⟩
  obtain ⟨_, t, hdisable, back, bmcr, rfl, hback, hidle', hwire⟩ :=
    eeeProbeDisable_wire c hfuel s' hprobed
  refine ⟨t, bmsr, lpa, stat1000, adv, partner, back, bmcr, ?_, hidle', hwire, hback, ?_⟩
  · rw [disableEEE, bind_run hread, bind_run hdisable, hadv, hpartner]
    rfl
  · rw [hwire, disabling_regs, probing_regs]

end controller

structure Bench where
  time : Nat
  mode : Mode
  wire : List Transaction

def requested (nValue : UInt32) : Option Request :=
  if nValue &&& mdioStartBusy = 0 then none
  else if nValue &&& mdioRD ≠ 0 then some (.read ((nValue >>> mdioRegShift) &&& 31))
  else some (.write ((nValue >>> mdioRegShift) &&& 31) nValue.toUInt16)

theorem requested_read {nReg : UInt32} (h : nReg < 32) :
    requested (readCommand nReg ||| mdioStartBusy) = some (.read nReg) :=
  below_32 (P := fun nReg => requested (readCommand nReg ||| mdioStartBusy) = some (.read nReg))
    (by decide) h

theorem requested_write {nReg : UInt32} (h : nReg < 32) (nValue : UInt16) :
    requested (writeCommand nReg nValue ||| mdioStartBusy) = some (.write nReg nValue) := by
  have hreg : (nReg <<< mdioRegShift) &&& mdioRD = 0 :=
    below_32 (P := fun nReg => (nReg <<< mdioRegShift) &&& mdioRD = 0) (by decide) h
  have hshift : ((mdioWR ||| (phyAddr <<< mdioPmdShift) ||| (nReg <<< mdioRegShift)) >>>
      mdioRegShift ||| 0 ||| mdioStartBusy >>> mdioRegShift) &&& 31 = nReg :=
    below_32 (P := fun nReg => ((mdioWR ||| (phyAddr <<< mdioPmdShift) |||
      (nReg <<< mdioRegShift)) >>> mdioRegShift ||| 0 ||| mdioStartBusy >>> mdioRegShift) &&& 31 =
        nReg) (by decide) h
  have hlow : (mdioWR ||| (phyAddr <<< mdioPmdShift) ||| (nReg <<< mdioRegShift)).toUInt16 = 0 :=
    below_32 (P := fun nReg => (mdioWR ||| (phyAddr <<< mdioPmdShift) |||
      (nReg <<< mdioRegShift)).toUInt16 = 0) (by decide) h
  have hdata : nValue.toUInt32 >>> mdioRegShift = 0 := by
    apply UInt32.toNat_inj.mp
    rw [UInt32.toNat_shiftRight, UInt16.toNat_toUInt32]
    exact Nat.shiftRight_eq_zero nValue.toNat 16 nValue.toNat_lt
  have hbusy : (writeCommand nReg nValue ||| mdioStartBusy) &&& mdioStartBusy ≠ 0 := by
    rw [or_and_distrib]
    exact fun hzero => absurd (UInt32.or_eq_zero_iff.mp hzero).2 (by decide)
  have hwrite : (writeCommand nReg nValue ||| mdioStartBusy) &&& mdioRD = 0 :=
    or_and (or_and (or_and rfl hreg) (data_and rfl nValue)) rfl
  have hregs : ((writeCommand nReg nValue ||| mdioStartBusy) >>> mdioRegShift) &&& 31 = nReg := by
    rw [writeCommand, UInt32.shiftRight_or, UInt32.shiftRight_or, hdata, hshift]
  have hvalue : (writeCommand nReg nValue ||| mdioStartBusy).toUInt16 = nValue := by
    have hhigh : mdioStartBusy.toUInt16 = 0 := rfl
    rw [writeCommand, UInt32.toUInt16_or, UInt32.toUInt16_or, hlow, UInt16.toUInt16_toUInt32,
      hhigh, UInt16.or_zero, UInt16.zero_or]
  rw [requested, if_neg hbusy, if_neg (not_not.mpr hwrite), hregs, hvalue]

/-- What a read gives: what is selected behind the data register, 6 where nothing has been written,
and 0x1140 elsewhere. -/
def contents (wire : List Transaction) (nReg : UInt32) : UInt16 :=
  if nReg = miiMMDData then
    let m := Mmd.after wire
    (m.regs m.devAd (m.address m.devAd)).getD 6
  else 0x1140

def answer (wire : List Transaction) : Request → UInt32 × Transaction
  | .read nReg => ((contents wire nReg).toUInt32, .read nReg (some (contents wire nReg)))
  | .write nReg nValue => (0, .write nReg nValue)

def benchCmd : UInt64 := 0xFD580000 + genetUmacOff + umacMDIOCmd

def Bench.later (s : Bench) : Bench := { s with time := s.time + 1 }

def Bench.poll (s : Bench) : UInt32 × Bench :=
  match s.mode with
  | .idle nCmd => (nCmd, s.later)
  | .busy request due =>
    if s.time + 1 < due then (mdioStartBusy, s.later)
    else ((answer s.wire request).1,
      ⟨s.time + 1, .idle (answer s.wire request).1, s.wire ++ [(answer s.wire request).2]⟩)

def Bench.command (s : Bench) (nValue : UInt32) : Bench :=
  match s.mode with
  | .idle _ =>
    match requested nValue with
    | none => { s.later with mode := .idle nValue }
    | some request => { s.later with mode := .busy request (s.time + 3) }
  | .busy _ _ => s.later

def benchBoard : Board Bench where
  dev :=
    { read32 := fun address s => if address = benchCmd then s.poll else (0, s.later)
      write32 := fun address nValue s => if address = benchCmd then s.command nValue else s.later
      getTicks := fun s => (reading (s.time + 1), s.later) }
  armBCM54213Base := 0xFD580000
  hz := 100

theorem Bench.poll_time (s : Bench) : s.poll.2.time = s.time + 1 := by
  rw [poll]
  split
  · rfl
  · split <;> rfl

theorem Bench.command_time (s : Bench) (nValue : UInt32) :
    (s.command nValue).time = s.time + 1 := by
  rw [command]
  split
  · split <;> rfl
  · rfl

theorem bench_read32 (address : UInt64) (s : Bench) : benchBoard.dev.read32 address s =
    if address = benchBoard.mdioCmd then s.poll else (0, s.later) :=
  rfl

theorem bench_write32 (address : UInt64) (nValue : UInt32) (s : Bench) :
    benchBoard.dev.write32 address nValue s =
      if address = benchBoard.mdioCmd then s.command nValue else s.later :=
  rfl

theorem bench_read_time (address : UInt64) (s : Bench) :
    (benchBoard.dev.read32 address s).2.time = s.time + 1 := by
  rw [bench_read32]
  split
  · exact s.poll_time
  · rfl

theorem bench_write_time (address : UInt64) (nValue : UInt32) (s : Bench) :
    (benchBoard.dev.write32 address nValue s).time = s.time + 1 := by
  rw [bench_write32]
  split
  · exact s.command_time nValue
  · rfl

def benchClock : Clock benchBoard.dev where
  time := Bench.time
  perTick := 1
  gap := 1
  runs := Nat.one_pos
  read_later address s := by
    rw [bench_read_time]
    exact ⟨Nat.lt_succ_self _, Nat.le_refl _⟩
  write_later address nValue s := by
    rw [bench_write_time]
    exact ⟨Nat.lt_succ_self _, Nat.le_refl _⟩
  look_later s := ⟨Nat.lt_succ_self s.time, Nat.le_refl _⟩
  shown s := ⟨s.time + 1, Nat.le_succ _, Nat.le_refl _, by rw [Nat.div_one]; rfl⟩

theorem requested_command {request : Request} (h : request.reg < 32) :
    requested (request.command ||| mdioStartBusy) = some request := by
  cases request with
  | read nReg => exact requested_read h
  | write nReg nValue => exact requested_write h nValue

theorem Bench.poll_idle {s : Bench} {nCmd : UInt32} (h : s.mode = .idle nCmd) :
    s.poll = (nCmd, s.later) := by
  rw [poll, h]

theorem Bench.command_idle {s : Bench} {nCmd nValue : UInt32} (h : s.mode = .idle nCmd)
    (hclear : nValue &&& mdioStartBusy = 0) :
    s.command nValue = { s.later with mode := .idle nValue } := by
  have hnone : requested nValue = none := if_pos hclear
  rw [command, h]
  dsimp only
  rw [hnone]

theorem Bench.command_starts {s : Bench} {nCmd : UInt32} {request : Request}
    (h : s.mode = .idle nCmd) (hreg : request.reg < 32) :
    s.command (request.command ||| mdioStartBusy) =
      { s.later with mode := .busy request (s.time + 3) } := by
  rw [command, h]
  dsimp only
  rw [requested_command hreg]

theorem answer_carried (wire : List Transaction) (request : Request) :
    (answer wire request).1 &&& mdioStartBusy = 0 ∧
      Carried (answer wire request).1 request (answer wire request).2 ∧
      Kept wire (answer wire request).2 := by
  cases request with
  | write nReg nValue => exact ⟨UInt32.zero_and, rfl, fun _ _ h => by cases h⟩
  | read nReg =>
    refine ⟨data_and rfl _, ⟨contents wire nReg, rfl, data_and rfl _, data_and_mask _⟩, ?_⟩
    rintro data adv heq ⟨-, hdevAd, haddress⟩ hadv
    obtain ⟨rfl, hdata⟩ := Transaction.read.inj heq
    rw [← Option.some.inj hdata, contents, if_pos rfl]
    dsimp only
    rw [hdevAd, haddress, hadv, Option.getD_some]

def benchController : Controller benchBoard benchClock where
  mode := Bench.mode
  wire := Bench.wire
  patience := 3
  inTime := by decide
  look_keeps _ := ⟨rfl, rfl⟩
  other_keeps address s h := by
    rw [bench_read32, if_neg h]
    exact ⟨rfl, rfl⟩
  shows s nCmd h := by
    rw [bench_read32, if_pos rfl, Bench.poll_idle h]
    exact ⟨rfl, h, rfl⟩
  latches s nCmd nValue h hclear := by
    rw [bench_write32, if_pos rfl, Bench.command_idle h hclear]
    exact ⟨rfl, rfl⟩
  starts s nCmd request h hreg := by
    rw [bench_write32, if_pos rfl, Bench.command_starts h hreg]
    exact ⟨s.time + 3, Nat.le_refl _, rfl, rfl⟩
  carries s request due nCmd t h hread := by
    rw [bench_read32, if_pos rfl, Bench.poll, h] at hread
    dsimp only at hread
    split at hread
    · rename_i hearly
      obtain ⟨rfl, rfl⟩ := Prod.mk.inj hread
      exact .inl ⟨by decide, Nat.le_of_lt hearly, h, rfl⟩
    · obtain ⟨rfl, rfl⟩ := Prod.mk.inj hread
      obtain ⟨hdone, hcarried, hkept⟩ := answer_carried s.wire request
      exact .inr ⟨hdone, rfl, _, hcarried, hkept, rfl⟩

def freshBench : Bench := ⟨0, .idle 0, []⟩

theorem eee_disabled_bench : ∃ t bmsr lpa stat1000 adv partner back bmcr,
    disableEEE benchBoard 200 freshBench = some (⟨given adv, given back, given partner⟩, t) ∧
    (∃ nCmd, benchController.mode t = .idle nCmd) ∧
    benchController.wire t = benchController.wire freshBench ++
      probing bmsr lpa stat1000 adv partner ++ disabling back bmcr ∧
    (back = none ∨ back = some 0) ∧
    (Mmd.after (benchController.wire t)).regs =
      Function.update (Mmd.after (benchController.wire freshBench)).regs mmdAN
        (Function.update ((Mmd.after (benchController.wire freshBench)).regs mmdAN) mmdANEEEAdv
          (some 0)) :=
  eee_disabled benchController (by decide) rfl

end RapiBootloader.EEEWire
