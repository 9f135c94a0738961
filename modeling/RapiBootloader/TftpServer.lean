import RapiBootloader.BootImage
import RapiBootloader.ChainBoot
import RapiBootloader.Card

namespace RapiBootloader.TftpServer

open Lib.Memory Lib.Strings DefaultsBlock BootImage ChainBoot Card

inductive TMode
  | modeNone
  | modeKernel
  | modeInject
  | modeSDWrite
  | modeSDRead
deriving DecidableEq, Repr

/-- The daemon's verdicts as `UpdateStatus` tells them apart. -/
inductive TStatus
  | statusWriteCompleted
  | statusWriteAborted
  | statusOther
deriving DecidableEq, Repr

/-- The data of one packet, which travels in one UDP datagram. -/
structure Block where
  bytes : List UInt8
  short : bytes.length ≤ 65536

/-- What lies outside the server during one callback: FatFs, the heap, and the bytes
of the object behind `m_InjectText`, where `strlen` goes on if the array has no NUL. -/
structure Env where
  card : Answers
  memory : MemorySystem
  overrun : List UInt8

structure Server where
  maxKernelSize : KernelMaxSize
  mode : TMode
  kernelBuffer : Option (Mem UInt8)
  currentOffset : Nat
  kernelClosed : Bool
  kernelHash : UInt32
  injectPending : Bool
  injectFill : Nat
  injectText : Mem UInt8
  writeBuf : Option (Mem UInt8)
  writeBufFill : Nat
  calls : List CardCall

def fnvOffsetBasis : UInt32 := 2166136261

def writeBufSize : Nat := 1024 * 1024

def injectFileName : List UInt8 := ascii "inject"

def isKernelName (fileName : List UInt8) : Prop :=
  ascii "kernel" <+: fileName ∧ ascii ".img" <:+ fileName

instance (fileName : List UInt8) : Decidable (isKernelName fileName) :=
  inferInstanceAs (Decidable (_ ∧ _))

/-- The constructor leaves `m_nCurrentOffset` and all of `m_InjectText` but its first
byte as the heap has them. -/
def Server.init (maxKernelSize : KernelMaxSize) (offset : Nat) (text : Mem UInt8) : Server where
  maxKernelSize := maxKernelSize
  mode := .modeNone
  kernelBuffer := none
  currentOffset := offset
  kernelClosed := false
  kernelHash := fnvOffsetBasis
  injectPending := false
  injectFill := 0
  injectText := write text 0 [0]
  writeBuf := none
  writeBufFill := 0
  calls := []

def flushWriteBuf (e : Env) (s : Server) : Bool × Server :=
  if s.writeBufFill = 0 then (true, s)
  else
    let bytes := read (s.writeBuf.getD (fun _ => 0)) 0 s.writeBufFill
    (e.card.writeResult = .frOk && e.card.written = s.writeBufFill,
      { s with
        writeBufFill := 0
        calls := s.calls ++ [.write bytes e.card.writeResult e.card.written] })

def fileOpen (e : Env) (fileName : List UInt8) (s : Server) : Bool × Server :=
  if s.mode ≠ .modeNone then (false, s)
  else
    match mapSDPath fileName with
    | none => (false, s)
    | some path =>
      let s := { s with calls := s.calls ++ [.openRead path e.card.openResult] }
      if e.card.openResult ≠ .frOk then (false, s)
      else (true, { s with mode := .modeSDRead })

/-- The `sd/<path>` branch of `FileCreate`. -/
def createSD (e : Env) (path : List UInt8) (s : Server) : Bool × Server :=
  let s := { s with
    calls := s.calls ++ parentDirs path ++ [.openWrite path e.card.openResult] }
  if e.card.openResult ≠ .frOk then (false, s)
  else
    (true,
      { s with
        writeBuf := if s.writeBuf.isNone then stageAlloc e.memory writeBufSize else s.writeBuf
        writeBufFill := 0
        mode := .modeSDWrite })

def fileCreate (e : Env) (fileName : List UInt8) (s : Server) : Bool × Server :=
  if s.mode ≠ .modeNone then (false, s)
  else if fileName = injectFileName then
    (true,
      { s with
        injectFill := 0
        injectText := write s.injectText 0 [0]
        mode := .modeInject })
  else
    match mapSDPath fileName with
    | some path => createSD e path s
    | none =>
      if ¬ isKernelName fileName then (false, s)
      else
        let kernelBuffer :=
          if s.kernelBuffer.isNone then stageAlloc e.memory s.maxKernelSize.bytes else s.kernelBuffer
        if kernelBuffer.isNone then (false, s)
        else
          (true,
            { s with
              kernelBuffer := kernelBuffer
              currentOffset := 0
              kernelHash := fnvOffsetBasis
              mode := .modeKernel })

def isNewline (c : UInt8) : Bool := c = 10 || c = 13

def trimFill (text : Mem UInt8) : Nat → Nat
  | 0 => 0
  | n + 1 => if isNewline (text n) then trimFill text n else n + 1

/-- The default branch asserts; built without assertions it does what is here. -/
def fileClose (e : Env) (s : Server) : Bool × Server :=
  let s : Server := match s.mode with
    | .modeKernel => { s with kernelClosed := decide (s.currentOffset > 0) }
    | .modeInject =>
      let fill := trimFill s.injectText s.injectFill
      { s with
        injectFill := fill
        injectText := write s.injectText fill [0]
        injectPending := true }
    | .modeSDWrite =>
      let s := (flushWriteBuf e s).2
      { s with calls := s.calls ++ [.close] }
    | .modeSDRead => { s with calls := s.calls ++ [.close] }
    | .modeNone => s
  (true, { s with mode := .modeNone })

def injectString (e : Env) (s : Server) : CString :=
  ofBytes (read s.injectText 0 defaultsBufferBytes ++ e.overrun)

/-- A closed kernel has a buffer. Without one `BootImageWithDefaults` asserts. -/
def updateStatus (e : Env) (status : TStatus) (s : Server) : Option Boot × Server :=
  if !s.kernelClosed then (none, s)
  else
    match status with
    | .statusWriteCompleted =>
      match s.kernelBuffer with
      | none => (none, s)
      | some image =>
        let boot := bootImageWithDefaults image s.currentOffset
          (if s.injectPending then some (injectString e s) else none)
        (some boot,
          { s with
            kernelClosed := false
            kernelBuffer := some boot.image
            injectPending := false
            injectFill := 0
            injectText := write s.injectText 0 [0] })
    | .statusWriteAborted => (none, { s with kernelClosed := false, currentOffset := 0 })
    | .statusOther => (none, s)

def fileRead (e : Env) (count : Nat) (s : Server) : Int × Server :=
  if s.mode ≠ .modeSDRead then (-1, s)
  else
    let s := { s with
      calls := s.calls ++ [.read count e.card.readResult e.card.readBytes] }
    if e.card.readResult ≠ .frOk then (-1, s) else (e.card.readBytes.length, s)

def hashByte (hash : UInt32) (byte : UInt8) : UInt32 := (hash ^^^ byte.toUInt32) * 16777619

def writeKernel (block : Block) (s : Server) : Int × Server :=
  -- `unsigned` plus `unsigned`, compared as `size_t`
  if (s.currentOffset + block.bytes.length) % 0x100000000 > s.maxKernelSize.bytes then
    (-1, { s with mode := .modeNone })
  else
    (block.bytes.length,
      { s with
        kernelBuffer := s.kernelBuffer.map (fun m => write m s.currentOffset block.bytes)
        kernelHash := block.bytes.foldl hashByte s.kernelHash
        currentOffset := (s.currentOffset + block.bytes.length) % 0x100000000 })

def writeInject (block : Block) (s : Server) : Int × Server :=
  if s.injectFill + block.bytes.length > defaultsBufferBytes - 1 then
    (-1, { s with mode := .modeNone })
  else
    (block.bytes.length,
      { s with
        injectText := write s.injectText s.injectFill block.bytes
        injectFill := s.injectFill + block.bytes.length })

/-- `FileWrite` closes the file and gives up when it has no buffer or a flush fails. -/
def giveUp (s : Server) : Int × Server :=
  (-1, { s with mode := .modeNone, calls := s.calls ++ [.close] })

def copyIn (bytes : List UInt8) (s : Server) : Int × Server :=
  (bytes.length,
    { s with
      writeBuf := s.writeBuf.map (fun m => write m s.writeBufFill bytes)
      writeBufFill := s.writeBufFill + bytes.length })

/-- `FileWrite` in `ModeSDWrite`, for bytes that need not have come in one packet. -/
def sdWrite (e : Env) (bytes : List UInt8) (s : Server) : Int × Server :=
  match s.writeBuf with
  | none => giveUp s
  | some _ =>
    let flushed :=
      if s.writeBufFill + bytes.length > writeBufSize then flushWriteBuf e s else (true, s)
    if !flushed.1 then giveUp flushed.2 else copyIn bytes flushed.2

def writeSD (e : Env) (block : Block) (s : Server) : Int × Server := sdWrite e block.bytes s

def fileWrite (e : Env) (block : Block) (s : Server) : Int × Server :=
  match s.mode with
  | .modeKernel => writeKernel block s
  | .modeInject => writeInject block s
  | .modeSDWrite => writeSD e block s
  | _ => (-1, s)

def feed : List (Env × Block) → Server → Bool × Server
  | [], s => (true, s)
  | (e, block) :: blocks, s =>
    if 0 ≤ (fileWrite e block s).1 then feed blocks (fileWrite e block s).2
    else (false, (fileWrite e block s).2)

structure SameKernel (s t : Server) : Prop where
  maxKernelSize : t.maxKernelSize = s.maxKernelSize
  kernelBuffer : t.kernelBuffer = s.kernelBuffer
  currentOffset : t.currentOffset = s.currentOffset
  kernelClosed : t.kernelClosed = s.kernelClosed

structure SameInject (s t : Server) : Prop where
  injectPending : t.injectPending = s.injectPending
  injectFill : t.injectFill = s.injectFill
  injectText : t.injectText = s.injectText

theorem sameKernel_refl (s : Server) : SameKernel s s := ⟨rfl, rfl, rfl, rfl⟩

theorem sameInject_refl (s : Server) : SameInject s s := ⟨rfl, rfl, rfl⟩

theorem SameKernel.trans {s t u : Server} (h : SameKernel s t) (h' : SameKernel t u) :
    SameKernel s u :=
  ⟨h'.1.trans h.1, h'.2.trans h.2, h'.3.trans h.3, h'.4.trans h.4⟩

theorem SameInject.trans {s t u : Server} (h : SameInject s t) (h' : SameInject t u) :
    SameInject s u :=
  ⟨h'.1.trans h.1, h'.2.trans h.2, h'.3.trans h.3⟩

theorem flushWriteBuf_same (e : Env) (s : Server) :
    SameKernel s (flushWriteBuf e s).2 ∧ SameInject s (flushWriteBuf e s).2 ∧
      (flushWriteBuf e s).2.mode = s.mode := by
  simp only [flushWriteBuf]
  split <;> exact ⟨⟨rfl, rfl, rfl, rfl⟩, ⟨rfl, rfl, rfl⟩, rfl⟩

theorem fileOpen_cases (e : Env) (fileName : List UInt8) (s : Server) :
    SameKernel s (fileOpen e fileName s).2 ∧ SameInject s (fileOpen e fileName s).2 ∧
      (if (fileOpen e fileName s).1 then
        s.mode = .modeNone ∧ (fileOpen e fileName s).2.mode = .modeSDRead
      else (fileOpen e fileName s).2.mode = s.mode) := by
  unfold fileOpen
  split
  · exact ⟨sameKernel_refl s, sameInject_refl s, rfl⟩
  · rename_i hm
    split
    · exact ⟨sameKernel_refl s, sameInject_refl s, rfl⟩
    · dsimp only
      split
      · exact ⟨⟨rfl, rfl, rfl, rfl⟩, ⟨rfl, rfl, rfl⟩, rfl⟩
      · exact ⟨⟨rfl, rfl, rfl, rfl⟩, ⟨rfl, rfl, rfl⟩, not_not.mp hm, rfl⟩

theorem fileRead_same (e : Env) (count : Nat) (s : Server) :
    SameKernel s (fileRead e count s).2 ∧ SameInject s (fileRead e count s).2 ∧
      (fileRead e count s).2.mode = s.mode := by
  unfold fileRead
  split
  · exact ⟨sameKernel_refl s, sameInject_refl s, rfl⟩
  · dsimp only
    split <;> exact ⟨⟨rfl, rfl, rfl, rfl⟩, ⟨rfl, rfl, rfl⟩, rfl⟩

inductive Kind
  | inject
  | sd
  | kernel
deriving DecidableEq, Repr

def kindOf (fileName : List UInt8) : Option Kind :=
  if fileName = injectFileName then some .inject
  else if (mapSDPath fileName).isSome then some .sd
  else if isKernelName fileName then some .kernel
  else none

/-- `FileCreate` refuses and changes nothing the pushes work on, or it starts a push
of the kind the name says. -/
inductive Created (s t : Server) : Option Kind → Bool → Prop
  | refused {k : Option Kind} (hk : SameKernel s t) (hi : SameInject s t)
      (hm : t.mode = s.mode) : Created s t k false
  | inject (h : s.mode = .modeNone) (hk : SameKernel s t) (hp : t.injectPending = s.injectPending)
      (hf : t.injectFill = 0) (hm : t.mode = .modeInject) : Created s t (some .inject) true
  | sd (h : s.mode = .modeNone) (hk : SameKernel s t) (hi : SameInject s t)
      (hm : t.mode = .modeSDWrite) : Created s t (some .sd) true
  | kernel (h : s.mode = .modeNone) (hi : SameInject s t) (m : Mem UInt8)
      (hb : t.kernelBuffer = some m) (hkeep : ∀ m', s.kernelBuffer = some m' → m = m')
      (ho : t.currentOffset = 0) (hc : t.kernelClosed = s.kernelClosed)
      (hx : t.maxKernelSize = s.maxKernelSize) (hm : t.mode = .modeKernel) :
      Created s t (some .kernel) true

theorem createSD_cases (e : Env) (path : List UInt8) (s : Server) (h : s.mode = .modeNone) :
    Created s (createSD e path s).2 (some .sd) (createSD e path s).1 := by
  unfold createSD
  dsimp only
  split
  · exact .refused ⟨rfl, rfl, rfl, rfl⟩ ⟨rfl, rfl, rfl⟩ rfl
  · exact .sd h ⟨rfl, rfl, rfl, rfl⟩ ⟨rfl, rfl, rfl⟩ rfl

theorem fileCreate_cases (e : Env) (fileName : List UInt8) (s : Server) :
    Created s (fileCreate e fileName s).2 (kindOf fileName) (fileCreate e fileName s).1 := by
  simp only [fileCreate]
  by_cases hm : s.mode = .modeNone
  · rw [if_neg (not_not.mpr hm)]
    by_cases hi : fileName = injectFileName
    · rw [if_pos hi, kindOf, if_pos hi]
      exact .inject hm ⟨rfl, rfl, rfl, rfl⟩ rfl rfl rfl
    · rw [if_neg hi, kindOf, if_neg hi]
      cases hp : mapSDPath fileName with
      | some path => exact createSD_cases e path s hm
      | none =>
        rw [Option.isSome_none, if_neg Bool.false_ne_true]
        by_cases hk : isKernelName fileName
        · rw [if_pos hk]
          dsimp only
          rw [if_neg (not_not.mpr hk)]
          generalize hb : (if s.kernelBuffer.isNone then stageAlloc e.memory s.maxKernelSize.bytes
            else s.kernelBuffer) = buffer
          cases buffer with
          | none => exact .refused (sameKernel_refl s) (sameInject_refl s) rfl
          | some m =>
            refine .kernel hm ⟨rfl, rfl, rfl⟩ m rfl (fun m' hm' => ?_) rfl rfl rfl rfl
            rw [hm', Option.isNone_some, if_neg Bool.false_ne_true, Option.some.injEq] at hb
            exact hb.symm
        · rw [if_neg hk]
          dsimp only
          rw [if_pos hk]
          exact .refused (sameKernel_refl s) (sameInject_refl s) rfl
  · rw [if_pos hm]
    exact .refused (sameKernel_refl s) (sameInject_refl s) rfl

/-- One block of a push, by the mode it arrives in. A refusal ends the push. -/
inductive Written (s t : Server) (block : Block) : Bool → Prop
  | kernel (h : s.mode = .modeKernel)
      (hfit : (s.currentOffset + block.bytes.length) % 0x100000000 ≤ s.maxKernelSize.bytes)
      (ht : t = (writeKernel block s).2) : Written s t block true
  | inject (h : s.mode = .modeInject)
      (hfit : s.injectFill + block.bytes.length ≤ defaultsBufferBytes - 1)
      (ht : t = (writeInject block s).2) : Written s t block true
  | sd (h : s.mode = .modeSDWrite) (hk : SameKernel s t) (hi : SameInject s t)
      (hm : t.mode = .modeSDWrite) : Written s t block true
  | refused (hk : SameKernel s t) (hi : SameInject s t)
      (hm : t.mode = .modeNone ∨ t.mode = s.mode ∧ s.mode = .modeSDRead)
      (hkernel : s.mode = .modeKernel →
        s.maxKernelSize.bytes < (s.currentOffset + block.bytes.length) % 0x100000000)
      (hinject : s.mode = .modeInject →
        defaultsBufferBytes - 1 < s.injectFill + block.bytes.length) : Written s t block false

theorem writeSD_cases (e : Env) (block : Block) (s : Server) (h : s.mode = .modeSDWrite) :
    Written s (writeSD e block s).2 block (decide (0 ≤ (writeSD e block s).1)) := by
  unfold writeSD sdWrite
  have hk : s.mode ≠ .modeKernel := fun hm => by rw [h] at hm; cases hm
  have hi : s.mode ≠ .modeInject := fun hm => by rw [h] at hm; cases hm
  cases hb : s.writeBuf with
  | none =>
    exact .refused ⟨rfl, rfl, rfl, rfl⟩ ⟨rfl, rfl, rfl⟩ (Or.inl rfl) (fun hm => absurd hm hk)
      (fun hm => absurd hm hi)
  | some _ =>
    dsimp only
    generalize hf : (if s.writeBufFill + block.bytes.length > writeBufSize then flushWriteBuf e s
      else (true, s)) = flushed
    have hsame : SameKernel s flushed.2 ∧ SameInject s flushed.2 ∧ flushed.2.mode = s.mode := by
      rw [← hf]
      split
      · exact flushWriteBuf_same e s
      · exact ⟨sameKernel_refl s, sameInject_refl s, rfl⟩
    obtain ⟨ok, u⟩ := flushed
    obtain ⟨hsk, hsi, hsm⟩ := hsame
    cases ok with
    | false =>
      exact .refused ⟨hsk.1, hsk.2, hsk.3, hsk.4⟩ ⟨hsi.1, hsi.2, hsi.3⟩ (Or.inl rfl)
        (fun hm => absurd hm hk) (fun hm => absurd hm hi)
    | true =>
      simp only [copyIn, Bool.not_true, Bool.false_eq_true, if_false, Int.natCast_nonneg, decide_true]
      exact .sd h ⟨hsk.1, hsk.2, hsk.3, hsk.4⟩ ⟨hsi.1, hsi.2, hsi.3⟩ (hsm.trans h)

theorem writeKernel_fits {block : Block} {s : Server}
    (h : (s.currentOffset + block.bytes.length) % 0x100000000 ≤ s.maxKernelSize.bytes) :
    0 ≤ (writeKernel block s).1 ∧ (writeKernel block s).2.mode = s.mode ∧
      (writeKernel block s).2.kernelClosed = s.kernelClosed ∧
      (writeKernel block s).2.maxKernelSize = s.maxKernelSize ∧
      SameInject s (writeKernel block s).2 := by
  rw [writeKernel, if_neg (Nat.not_lt.mpr h)]
  exact ⟨Int.natCast_nonneg _, rfl, rfl, rfl, rfl, rfl, rfl⟩

theorem writeInject_fits {block : Block} {s : Server}
    (h : s.injectFill + block.bytes.length ≤ defaultsBufferBytes - 1) :
    0 ≤ (writeInject block s).1 ∧ (writeInject block s).2.mode = s.mode ∧
      (writeInject block s).2.injectPending = s.injectPending ∧
      SameKernel s (writeInject block s).2 := by
  rw [writeInject, if_neg (Nat.not_lt.mpr h)]
  exact ⟨Int.natCast_nonneg _, rfl, rfl, rfl, rfl, rfl, rfl⟩

theorem fileWrite_cases (e : Env) (block : Block) (s : Server) :
    Written s (fileWrite e block s).2 block (decide (0 ≤ (fileWrite e block s).1)) := by
  unfold fileWrite
  cases hm : s.mode with
  | modeKernel =>
    dsimp only
    by_cases hfit : (s.currentOffset + block.bytes.length) % 0x100000000 ≤ s.maxKernelSize.bytes
    · rw [decide_eq_true (writeKernel_fits hfit).1]
      exact .kernel hm hfit rfl
    · have hw : writeKernel block s = (-1, { s with mode := .modeNone }) :=
        if_pos (Nat.lt_of_not_le hfit)
      rw [hw]
      exact .refused ⟨rfl, rfl, rfl, rfl⟩ ⟨rfl, rfl, rfl⟩ (Or.inl rfl)
        (fun _ => Nat.lt_of_not_le hfit) (fun h => by rw [hm] at h; cases h)
  | modeInject =>
    dsimp only
    by_cases hfit : s.injectFill + block.bytes.length ≤ defaultsBufferBytes - 1
    · rw [decide_eq_true (writeInject_fits hfit).1]
      exact .inject hm hfit rfl
    · have hw : writeInject block s = (-1, { s with mode := .modeNone }) :=
        if_pos (Nat.lt_of_not_le hfit)
      rw [hw]
      exact .refused ⟨rfl, rfl, rfl, rfl⟩ ⟨rfl, rfl, rfl⟩ (Or.inl rfl)
        (fun h => by rw [hm] at h; cases h) (fun _ => Nat.lt_of_not_le hfit)
  | modeSDWrite => exact writeSD_cases e block s hm
  | modeNone =>
    exact .refused (sameKernel_refl s) (sameInject_refl s) (Or.inl hm)
      (fun h => by rw [hm] at h; cases h) (fun h => by rw [hm] at h; cases h)
  | modeSDRead =>
    exact .refused (sameKernel_refl s) (sameInject_refl s) (Or.inr ⟨rfl, hm⟩)
      (fun h => by rw [hm] at h; cases h) (fun h => by rw [hm] at h; cases h)

end RapiBootloader.TftpServer
