import RapiBootloader.TftpServer
import RapiBootloader.Lib.Run
import Mathlib.Data.List.DropRight

namespace RapiBootloader.TftpDaemon

open Lib.Memory Lib.Strings DefaultsBlock BootImage ChainBoot Card TftpServer

inductive Callback
  | fileOpen (fileName : List UInt8)
  | fileCreate (fileName : List UInt8)
  | fileClose
  | fileRead (count : Nat)
  | fileWrite (block : Block)
  | updateStatus (status : TStatus)

/-- What a callback leaves behind: whether it returned TRUE or a count, the server,
and the call of `BootImageWithDefaults` it made. -/
structure Reply where
  accepted : Bool
  server : Server
  boot : Option Boot

def call (e : Env) (c : Callback) (s : Server) : Reply :=
  match c with
  | .fileOpen fileName => ⟨(fileOpen e fileName s).1, (fileOpen e fileName s).2, none⟩
  | .fileCreate fileName => ⟨(fileCreate e fileName s).1, (fileCreate e fileName s).2, none⟩
  | .fileClose => ⟨(fileClose e s).1, (fileClose e s).2, none⟩
  | .fileRead count => ⟨decide (0 ≤ (fileRead e count s).1), (fileRead e count s).2, none⟩
  | .fileWrite block => ⟨decide (0 ≤ (fileWrite e block s).1), (fileWrite e block s).2, none⟩
  | .updateStatus status => ⟨true, (updateStatus e status s).2, (updateStatus e status s).1⟩

inductive Outcome
  | completed
  | aborted
  | refused
deriving DecidableEq, Repr

/-- A write the daemon is done with: the data `FileWrite` took and how it ended. -/
structure Transfer where
  fileName : List UInt8
  data : List UInt8
  outcome : Outcome
deriving DecidableEq, Repr

def Boots (t : Transfer) : Prop :=
  kindOf t.fileName = some .kernel ∧ t.outcome = .completed ∧ t.data ≠ []

instance (t : Transfer) : Decidable (Boots t) := inferInstanceAs (Decidable (_ ∧ _ ∧ _))

inductive Phase
  | idle
  | receiving (fileName data : List UInt8)
  | refused (fileName data : List UInt8) (closed : Bool)
  | closed (fileName data : List UInt8)
  | sending (failed : Bool)
deriving DecidableEq, Repr

structure Daemon where
  phase : Phase
  finished : List Transfer

def Daemon.init : Daemon := ⟨.idle, []⟩

def Daemon.finish (d : Daemon) (fileName data : List UInt8) (outcome : Outcome) : Daemon :=
  ⟨.idle, ⟨fileName, data, outcome⟩ :: d.finished⟩

/-- The order in which the daemon makes its callbacks, one transfer after the other.
Behind a refused block it may call `FileClose` or leave it out; a progress report
can come at any time. -/
def Daemon.next (d : Daemon) (c : Callback) (accepted : Bool) : Option Daemon :=
  match d.phase, c with
  | .idle, .fileCreate fileName =>
    some { d with phase := if accepted then .receiving fileName [] else .idle }
  | .idle, .fileOpen _ => some { d with phase := if accepted then .sending false else .idle }
  | .receiving fileName data, .fileWrite block =>
    some { d with
      phase := if accepted then .receiving fileName (data ++ block.bytes)
        else .refused fileName data false }
  | .receiving fileName data, .fileClose => some { d with phase := .closed fileName data }
  | .refused fileName data false, .fileClose =>
    some { d with phase := .refused fileName data true }
  | .refused fileName data _, .updateStatus .statusWriteAborted =>
    some (d.finish fileName data .refused)
  | .closed fileName data, .updateStatus .statusWriteCompleted =>
    some (d.finish fileName data .completed)
  | .closed fileName data, .updateStatus .statusWriteAborted =>
    some (d.finish fileName data .aborted)
  | .sending false, .fileRead _ => some { d with phase := .sending (!accepted) }
  | .sending _, .fileClose => some { d with phase := .idle }
  | .sending true, .updateStatus .statusOther => some { d with phase := .idle }
  | _, .updateStatus .statusOther => some d
  | _, _ => none

structure Tftp where
  server : Server
  daemon : Daemon

abbrev Event := Callback × Env

def reply (t : Tftp) (ev : Event) : Reply := call ev.2 ev.1 t.server

def step (t : Tftp) (ev : Event) : Option Tftp :=
  (t.daemon.next ev.1 (reply t ev).accepted).map (fun d => ⟨(reply t ev).server, d⟩)

def Tftp.init (maxKernelSize : KernelMaxSize) (offset : Nat) (text : Mem UInt8) : Tftp :=
  ⟨Server.init maxKernelSize offset text, Daemon.init⟩

structure Staged (s : Server) (data : List UInt8) : Prop where
  offset : s.currentOffset = data.length
  fits : data.length ≤ s.maxKernelSize.bytes
  buffer : ∃ m, s.kernelBuffer = some m ∧ Holds m 0 data

structure Filled (s : Server) (data : List UInt8) : Prop where
  fill : s.injectFill = data.length
  fits : data.length ≤ defaultsBufferBytes - 1
  text : Holds s.injectText 0 data

/-- The server's mode and what it has received, for the kind of push under way. -/
inductive Receiving (s : Server) (data : List UInt8) : Option Kind → Prop
  | inject (hm : s.mode = .modeInject) (h : Filled s data) : Receiving s data (some .inject)
  | sd (hm : s.mode = .modeSDWrite) : Receiving s data (some .sd)
  | kernel (hm : s.mode = .modeKernel) (h : Staged s data) : Receiving s data (some .kernel)

def Consistent (s : Server) : Phase → Prop
  | .idle => s.kernelClosed = false ∧ (s.mode = .modeNone ∨ s.mode = .modeSDRead)
  | .receiving fileName data => s.kernelClosed = false ∧ Receiving s data (kindOf fileName)
  | .refused _ _ _ => s.kernelClosed = false ∧ s.mode = .modeNone
  | .closed fileName data =>
    s.mode = .modeNone ∧
      if kindOf fileName = some .kernel then
        s.kernelClosed = decide (data ≠ []) ∧ Staged s data
      else s.kernelClosed = false
  | .sending _ => s.kernelClosed = false ∧ s.mode = .modeSDRead

theorem SameKernel.staged {s t : Server} {data : List UInt8} (h : SameKernel s t)
    (hs : Staged s data) : Staged t data := by
  obtain ⟨ho, hf, m, hb, hh⟩ := hs
  exact ⟨h.currentOffset.trans ho, h.maxKernelSize ▸ hf, m, h.kernelBuffer.trans hb, hh⟩

theorem Staged.offset_add {s : Server} {data : List UInt8} (h : Staged s data) (block : Block) :
    (s.currentOffset + block.bytes.length) % 0x100000000 = data.length + block.bytes.length := by
  have hshort := block.short
  have hsmall := s.maxKernelSize.small
  have hfits := h.fits
  rw [h.offset, Nat.mod_eq_of_lt (by omega)]

theorem Staged.take {s : Server} {data : List UInt8} (h : Staged s data) (block : Block)
    (hfit : (s.currentOffset + block.bytes.length) % 0x100000000 ≤ s.maxKernelSize.bytes) :
    Staged (writeKernel block s).2 (data ++ block.bytes) := by
  have hadd := h.offset_add block
  obtain ⟨ho, hf, m, hb, hh⟩ := h
  have hw := hh.append block.bytes
  rw [Nat.zero_add, ← ho] at hw
  rw [writeKernel, if_neg (Nat.not_lt.mpr hfit)]
  rw [hadd] at hfit
  exact ⟨hadd.trans List.length_append.symm, List.length_append.trans_le hfit,
    _, congrArg (Option.map _) hb, hw⟩

theorem Filled.take {s : Server} {data : List UInt8} (h : Filled s data) (block : Block)
    (hfit : s.injectFill + block.bytes.length ≤ defaultsBufferBytes - 1) :
    Filled (writeInject block s).2 (data ++ block.bytes) := by
  obtain ⟨hl, hf, hh⟩ := h
  have hw := hh.append block.bytes
  rw [Nat.zero_add, ← hl] at hw
  rw [writeInject, if_neg (Nat.not_lt.mpr hfit)]
  rw [hl] at hfit
  refine ⟨?_, List.length_append.trans_le hfit, hw⟩
  rw [List.length_append, ← hl]

def trimNewlines (data : List UInt8) : List UInt8 := data.rdropWhile isNewline

theorem trimFill_eq (text : Mem UInt8) (data : List UInt8) (h : Holds text 0 data) :
    trimFill text data.length = (trimNewlines data).length := by
  induction data using List.reverseRecOn with
  | nil => rfl
  | append_singleton data c ih =>
    have hd : Holds text 0 data := h.prefix (List.prefix_append _ _)
    have hc : text data.length = c := by
      have := h data.length (by simp)
      simpa using this
    rw [List.length_append, List.length_singleton, trimFill, hc, trimNewlines,
      List.rdropWhile_concat]
    split
    · exact ih hd
    · simp

theorem Filled.closed {s : Server} {data : List UInt8} (h : Filled s data) :
    Holds (write s.injectText (trimFill s.injectText s.injectFill) [0]) 0
      (trimNewlines data ++ [0]) := by
  have hp : Holds s.injectText 0 (trimNewlines data) :=
    h.text.prefix (List.rdropWhile_prefix isNewline data)
  have ha := hp.append [0]
  rwa [Nat.zero_add, ← trimFill_eq _ _ h.text, ← h.fill] at ha

def Phase.Free : Phase → Prop
  | .receiving fileName _ | .closed fileName _ => kindOf fileName = some .sd
  | _ => True

/-- Everything one callback in daemon order can do to what inject and kernel pushes
work on, and the call of `BootImageWithDefaults` it makes. -/
inductive Moves (t : Tftp) (ev : Event) (u : Tftp) : Option Boot → Prop
  | quiet (hk : SameKernel t.server u.server) (hi : SameInject t.server u.server)
      (hf : u.daemon.finished = t.daemon.finished)
      (hp : u.daemon.phase = t.daemon.phase ∨ t.daemon.phase.Free ∧ u.daemon.phase.Free) :
      Moves t ev u none
  | startInject (fileName : List UInt8) (hn : kindOf fileName = some .inject)
      (hp : t.daemon.phase = .idle) (hd : u.daemon = ⟨.receiving fileName [], t.daemon.finished⟩)
      (hk : SameKernel t.server u.server)
      (hi : u.server.injectPending = t.server.injectPending) : Moves t ev u none
  | startKernel (fileName : List UInt8) (hn : kindOf fileName = some .kernel)
      (hp : t.daemon.phase = .idle) (hd : u.daemon = ⟨.receiving fileName [], t.daemon.finished⟩)
      (hi : SameInject t.server u.server) (m : Mem UInt8) (hb : u.server.kernelBuffer = some m)
      (hkeep : ∀ m', t.server.kernelBuffer = some m' → m = m')
      (hx : u.server.maxKernelSize = t.server.maxKernelSize) : Moves t ev u none
  | takeInject (fileName data : List UInt8) (block : Block) (he : ev.1 = .fileWrite block)
      (hn : kindOf fileName = some .inject) (hp : t.daemon.phase = .receiving fileName data)
      (hd : u.daemon = ⟨.receiving fileName (data ++ block.bytes), t.daemon.finished⟩)
      (hs : u.server = (writeInject block t.server).2) : Moves t ev u none
  | takeKernel (fileName data : List UInt8) (block : Block) (he : ev.1 = .fileWrite block)
      (hn : kindOf fileName = some .kernel) (hp : t.daemon.phase = .receiving fileName data)
      (hd : u.daemon = ⟨.receiving fileName (data ++ block.bytes), t.daemon.finished⟩)
      (hs : u.server = (writeKernel block t.server).2) : Moves t ev u none
  | refuse (fileName data : List UInt8) (block : Block) (he : ev.1 = .fileWrite block)
      (hp : t.daemon.phase = .receiving fileName data)
      (hd : u.daemon = ⟨.refused fileName data false, t.daemon.finished⟩)
      (hk : SameKernel t.server u.server) (hi : SameInject t.server u.server)
      (hkernel : kindOf fileName = some .kernel →
        t.server.maxKernelSize.bytes < data.length + block.bytes.length)
      (hinject : kindOf fileName = some .inject →
        defaultsBufferBytes - 1 < data.length + block.bytes.length) : Moves t ev u none
  | closeInject (fileName data : List UInt8) (hn : kindOf fileName = some .inject)
      (hp : t.daemon.phase = .receiving fileName data)
      (hd : u.daemon = ⟨.closed fileName data, t.daemon.finished⟩)
      (hk : SameKernel t.server u.server) (hi : u.server.injectPending = true)
      (hl : data.length ≤ defaultsBufferBytes - 1)
      (ht : Holds u.server.injectText 0 (trimNewlines data ++ [0])) : Moves t ev u none
  | closeKernel (fileName data : List UInt8) (hn : kindOf fileName = some .kernel)
      (hp : t.daemon.phase = .receiving fileName data)
      (hd : u.daemon = ⟨.closed fileName data, t.daemon.finished⟩)
      (hb : u.server.kernelBuffer = t.server.kernelBuffer)
      (hx : u.server.maxKernelSize = t.server.maxKernelSize)
      (hi : SameInject t.server u.server) : Moves t ev u none
  | finish (fileName data : List UInt8) (outcome : Outcome)
      (he : ev.1 = .updateStatus
        (if outcome = .completed then .statusWriteCompleted else .statusWriteAborted))
      (hd : u.daemon = t.daemon.finish fileName data outcome)
      (hp : match outcome with
        | .completed => t.daemon.phase = .closed fileName data ∧
            (kindOf fileName = some .kernel → data = [])
        | .aborted => t.daemon.phase = .closed fileName data
        | .refused => ∃ closed, t.daemon.phase = .refused fileName data closed)
      (hb : u.server.kernelBuffer = t.server.kernelBuffer)
      (hx : u.server.maxKernelSize = t.server.maxKernelSize)
      (hi : SameInject t.server u.server) : Moves t ev u none
  | boot (fileName data : List UInt8) (image : Mem UInt8)
      (he : ev.1 = .updateStatus .statusWriteCompleted) (hn : kindOf fileName = some .kernel)
      (hp : t.daemon.phase = .closed fileName data) (hne : data ≠ [])
      (hd : u.daemon = t.daemon.finish fileName data .completed)
      (hm : t.server.kernelBuffer = some image) (hs : Staged t.server data) (b : Boot)
      (hb : b = bootImageWithDefaults image data.length
        (if t.server.injectPending then some (injectString ev.2 t.server) else none))
      (hu : u.server.kernelBuffer = some b.image)
      (hx : u.server.maxKernelSize = t.server.maxKernelSize)
      (hi : u.server.injectPending = false) : Moves t ev u (some b)

theorem step_some {t u : Tftp} {ev : Event} (h : step t ev = some u) :
    t.daemon.next ev.1 (reply t ev).accepted = some u.daemon ∧ u.server = (reply t ev).server := by
  simp only [step] at h
  rw [Option.map_eq_some_iff] at h
  obtain ⟨d, hd, rfl⟩ := h
  exact ⟨hd, rfl⟩

theorem updateStatus_open {s : Server} (e : Env) (status : TStatus) (h : s.kernelClosed = false) :
    updateStatus e status s = (none, s) := by
  simp [updateStatus, h]

theorem updateStatus_other (e : Env) (s : Server) : updateStatus e .statusOther s = (none, s) := by
  simp only [updateStatus]
  split <;> rfl

section phases

variable (e : Env) (s : Server) (finished : List Transfer)

theorem open_moves (fileName : List UInt8) (hc : Consistent s .idle) :
    let r := fileOpen e fileName s
    let d : Daemon := ⟨if r.1 then .sending false else .idle, finished⟩
    Moves ⟨s, .idle, finished⟩ (.fileOpen fileName, e) ⟨r.2, d⟩ none ∧ Consistent r.2 d.phase := by
  have ho := fileOpen_cases e fileName s
  revert ho
  generalize fileOpen e fileName s = r
  obtain ⟨b, t⟩ := r
  rintro ⟨hk, hi, hm⟩
  cases b with
  | false =>
    exact ⟨.quiet hk hi rfl (Or.inl rfl), hk.kernelClosed.trans hc.1, hm ▸ hc.2⟩
  | true =>
    exact ⟨.quiet hk hi rfl (Or.inr ⟨trivial, trivial⟩), hk.kernelClosed.trans hc.1, hm.2⟩

theorem create_moves (fileName : List UInt8) (hc : Consistent s .idle) :
    let r := fileCreate e fileName s
    let d : Daemon := ⟨if r.1 then .receiving fileName [] else .idle, finished⟩
    Moves ⟨s, .idle, finished⟩ (.fileCreate fileName, e) ⟨r.2, d⟩ none ∧
      Consistent r.2 d.phase := by
  have hcr := fileCreate_cases e fileName s
  revert hcr
  generalize fileCreate e fileName s = r
  obtain ⟨b, t⟩ := r
  generalize hk : kindOf fileName = k
  rintro (⟨hk', hi, hm⟩ | ⟨h, hk', hp, hf, hm⟩ | ⟨h, hk', hi, hm⟩ |
    ⟨h, hi, m, hb, hkeep, ho, hcl, hx, hm⟩)
  · exact ⟨.quiet hk' hi rfl (Or.inl rfl), hk'.kernelClosed.trans hc.1, hm ▸ hc.2⟩
  · refine ⟨.startInject fileName hk rfl rfl hk' hp, hk'.kernelClosed.trans hc.1, ?_⟩
    rw [hk]
    exact .inject hm ⟨hf, Nat.zero_le _, fun i hi => absurd hi (Nat.not_lt_zero i)⟩
  · refine ⟨.quiet hk' hi rfl (Or.inr ⟨trivial, hk⟩), hk'.kernelClosed.trans hc.1, ?_⟩
    rw [hk]
    exact .sd hm
  · refine ⟨.startKernel fileName hk rfl rfl hi m hb hkeep hx, hcl.trans hc.1, ?_⟩
    rw [hk]
    exact .kernel hm ⟨ho, Nat.zero_le _, m, hb, fun i hi => absurd hi (Nat.not_lt_zero i)⟩

theorem write_moves (fileName data : List UInt8) (block : Block)
    (hc : Consistent s (.receiving fileName data)) :
    let r := fileWrite e block s
    let d : Daemon := ⟨if decide (0 ≤ r.1) then .receiving fileName (data ++ block.bytes)
      else .refused fileName data false, finished⟩
    Moves ⟨s, .receiving fileName data, finished⟩ (.fileWrite block, e) ⟨r.2, d⟩ none ∧
      Consistent r.2 d.phase := by
  obtain ⟨hcl, hr⟩ := hc
  have hw := fileWrite_cases e block s
  revert hw
  generalize fileWrite e block s = r
  obtain ⟨n, t⟩ := r
  dsimp only
  generalize decide (0 ≤ n) = b
  rintro (⟨h, hfit, rfl⟩ | ⟨h, hfit, rfl⟩ | ⟨h, hk, hi, hm⟩ | ⟨hk, hi, hm, hkernel, hinject⟩)
  · generalize hk : kindOf fileName = k at hr
    cases hr with
    | kernel hm hs =>
      obtain ⟨-, hmode, hclosed, -⟩ := writeKernel_fits hfit
      refine ⟨.takeKernel fileName data block rfl hk rfl rfl rfl, hclosed.trans hcl, ?_⟩
      rw [hk]
      exact .kernel (hmode.trans h) (hs.take block hfit)
    | inject hm _ | sd hm => rw [hm] at h; cases h
  · generalize hk : kindOf fileName = k at hr
    cases hr with
    | inject hm hf =>
      obtain ⟨-, hmode, -, hsame⟩ := writeInject_fits hfit
      refine ⟨.takeInject fileName data block rfl hk rfl rfl rfl, hsame.kernelClosed.trans hcl, ?_⟩
      rw [hk]
      exact .inject (hmode.trans h) (hf.take block hfit)
    | kernel hm _ | sd hm => rw [hm] at h; cases h
  · generalize hk' : kindOf fileName = k at hr
    cases hr with
    | sd _ =>
      refine ⟨.quiet hk hi rfl (Or.inr ⟨hk', hk'⟩), hk.kernelClosed.trans hcl, ?_⟩
      rw [hk']
      exact .sd hm
    | kernel hm _ | inject hm _ => rw [hm] at h; cases h
  · refine ⟨.refuse fileName data block rfl rfl rfl hk hi ?_ ?_, hk.kernelClosed.trans hcl, ?_⟩
    · intro hn
      rw [hn] at hr
      cases hr with
      | kernel hm hs => exact hs.offset_add block ▸ hkernel hm
    · intro hn
      rw [hn] at hr
      cases hr with
      | inject hm hf => exact hf.fill ▸ hinject hm
    · obtain hm | ⟨_, hm⟩ := hm
      · exact hm
      · generalize kindOf fileName = k at hr
        cases hr with
        | inject h _ | kernel h _ | sd h => rw [hm] at h; cases h

theorem close_moves (fileName data : List UInt8) (hc : Consistent s (.receiving fileName data)) :
    Moves ⟨s, .receiving fileName data, finished⟩ (.fileClose, e)
        ⟨(fileClose e s).2, .closed fileName data, finished⟩ none ∧
      Consistent (fileClose e s).2 (.closed fileName data) := by
  obtain ⟨hcl, hr⟩ := hc
  generalize hk : kindOf fileName = k at hr
  cases hr with
  | inject hm hf =>
    refine ⟨.closeInject fileName data hk rfl rfl ?_ ?_ hf.fits ?_, ?_, ?_⟩
    all_goals simp only [fileClose, hm]
    · exact ⟨rfl, rfl, rfl, rfl⟩
    · exact hf.closed
    · rw [if_neg (by rw [hk]; decide)]
      exact hcl
  | sd hm =>
    obtain ⟨hk', hi, -⟩ := flushWriteBuf_same e s
    refine ⟨.quiet ?_ ?_ rfl (Or.inr ⟨hk, hk⟩), ?_, ?_⟩
    all_goals simp only [fileClose, hm]
    · exact ⟨hk'.1, hk'.2, hk'.3, hk'.4⟩
    · exact ⟨hi.1, hi.2, hi.3⟩
    · rw [if_neg (by rw [hk]; decide)]
      exact hk'.kernelClosed.trans hcl
  | kernel hm hs =>
    obtain ⟨ho, hf, m, hb, hh⟩ := hs
    refine ⟨.closeKernel fileName data hk rfl rfl ?_ ?_ ?_, ?_, ?_⟩
    all_goals simp only [fileClose, hm]
    · exact ⟨rfl, rfl, rfl⟩
    · rw [if_pos hk]
      refine ⟨?_, ho, hf, m, hb, hh⟩
      simp [ho, List.length_pos_iff]

theorem refused_close_moves (fileName data : List UInt8)
    (hc : Consistent s (.refused fileName data false)) :
    Moves ⟨s, .refused fileName data false, finished⟩ (.fileClose, e)
        ⟨(fileClose e s).2, .refused fileName data true, finished⟩ none ∧
      Consistent (fileClose e s).2 (.refused fileName data true) := by
  obtain ⟨hcl, hm⟩ := hc
  refine ⟨.quiet ?_ ?_ rfl (Or.inr ⟨trivial, trivial⟩), ?_, ?_⟩
  all_goals simp only [fileClose, hm]
  · exact ⟨rfl, rfl, rfl, rfl⟩
  · exact ⟨rfl, rfl, rfl⟩
  · exact hcl

theorem verdict_moves (fileName data : List UInt8) (hc : Consistent s (.closed fileName data)) :
    let r := updateStatus e .statusWriteCompleted s
    Moves ⟨s, .closed fileName data, finished⟩ (.updateStatus .statusWriteCompleted, e)
        ⟨r.2, .idle, ⟨fileName, data, .completed⟩ :: finished⟩ r.1 ∧ Consistent r.2 .idle := by
  obtain ⟨hm, hk⟩ := hc
  by_cases hn : kindOf fileName = some .kernel
  · rw [if_pos hn] at hk
    obtain ⟨hcl, hs⟩ := hk
    by_cases hd : data = []
    · have hopen : s.kernelClosed = false := by simpa [hd] using hcl
      rw [updateStatus_open e _ hopen]
      exact ⟨.finish fileName data .completed rfl rfl ⟨rfl, fun _ => hd⟩ rfl rfl (sameInject_refl s),
        hopen, Or.inl hm⟩
    · have hclosed : s.kernelClosed = true := by simpa [hd] using hcl
      obtain ⟨image, hb, _⟩ := hs.buffer
      have hu : updateStatus e .statusWriteCompleted s =
          let boot := bootImageWithDefaults image s.currentOffset
            (if s.injectPending then some (injectString e s) else none)
          (some boot,
            { s with
              kernelClosed := false
              kernelBuffer := some boot.image
              injectPending := false
              injectFill := 0
              injectText := write s.injectText 0 [0] }) := by
        simp only [updateStatus, hclosed, hb, Bool.not_true, Bool.false_eq_true, if_false]
      rw [hu, hs.offset]
      exact ⟨.boot fileName data image rfl hn rfl hd rfl hb hs _ rfl rfl rfl rfl, rfl, Or.inl hm⟩
  · rw [if_neg hn] at hk
    rw [updateStatus_open e _ hk]
    exact ⟨.finish fileName data .completed rfl rfl ⟨rfl, fun h => absurd h hn⟩ rfl rfl
      (sameInject_refl s), hk, Or.inl hm⟩

theorem abort_moves (fileName data : List UInt8) (hc : Consistent s (.closed fileName data)) :
    let r := updateStatus e .statusWriteAborted s
    Moves ⟨s, .closed fileName data, finished⟩ (.updateStatus .statusWriteAborted, e)
        ⟨r.2, .idle, ⟨fileName, data, .aborted⟩ :: finished⟩ r.1 ∧ Consistent r.2 .idle := by
  by_cases hopen : s.kernelClosed = false
  · rw [updateStatus_open e _ hopen]
    exact ⟨.finish fileName data .aborted rfl rfl rfl rfl rfl (sameInject_refl s), hopen, Or.inl hc.1⟩
  · have hu : updateStatus e .statusWriteAborted s =
        (none, { s with kernelClosed := false, currentOffset := 0 }) := by
      simp only [updateStatus, Bool.not_eq_false] at hopen ⊢
      rw [hopen]
      rfl
    rw [hu]
    exact ⟨.finish fileName data .aborted rfl rfl rfl rfl rfl ⟨rfl, rfl, rfl⟩, rfl, Or.inl hc.1⟩

end phases

theorem quiet_refl (s : Server) (phase : Phase) (finished : List Transfer) (ev : Event) :
    Moves ⟨s, phase, finished⟩ ev ⟨s, phase, finished⟩ none :=
  .quiet (sameKernel_refl s) (sameInject_refl s) rfl (Or.inl rfl)

/-- A callback in daemon order makes one of these moves and leaves the server in the
state the daemon's next phase asks for. -/
theorem step_moves {t u : Tftp} {ev : Event} (hc : Consistent t.server t.daemon.phase)
    (h : step t ev = some u) :
    Moves t ev u (reply t ev).boot ∧ Consistent u.server u.daemon.phase := by
  obtain ⟨hn, hu⟩ := step_some h
  obtain ⟨s, phase, finished⟩ := t
  obtain ⟨s', d'⟩ := u
  obtain ⟨c, e⟩ := ev
  simp only [reply] at hn hu hc ⊢
  subst hu
  cases phase with
  | idle =>
    cases c with
    | fileOpen fileName =>
      cases hn
      exact open_moves e s finished fileName hc
    | fileCreate fileName =>
      cases hn
      exact create_moves e s finished fileName hc
    | updateStatus status =>
      cases status <;> cases hn
      simp only [call, updateStatus_other]
      exact ⟨quiet_refl _ _ _ _, hc⟩
    | _ => cases hn
  | receiving fileName data =>
    cases c with
    | fileWrite block =>
      cases hn
      exact write_moves e s finished fileName data block hc
    | fileClose =>
      cases hn
      exact close_moves e s finished fileName data hc
    | updateStatus status =>
      cases status <;> cases hn
      simp only [call, updateStatus_other]
      exact ⟨quiet_refl _ _ _ _, hc⟩
    | _ => cases hn
  | refused fileName data closed =>
    cases c with
    | fileClose =>
      cases closed <;> cases hn
      exact refused_close_moves e s finished fileName data hc
    | updateStatus status =>
      cases closed <;> cases status <;> cases hn
      all_goals simp only [call, updateStatus_open e _ hc.1]
      · exact ⟨.finish fileName data .refused rfl rfl ⟨_, rfl⟩ rfl rfl (sameInject_refl s), hc.1,
          Or.inl hc.2⟩
      · exact ⟨quiet_refl _ _ _ _, hc⟩
      · exact ⟨.finish fileName data .refused rfl rfl ⟨_, rfl⟩ rfl rfl (sameInject_refl s), hc.1,
          Or.inl hc.2⟩
      · exact ⟨quiet_refl _ _ _ _, hc⟩
    | _ => cases closed <;> cases hn
  | closed fileName data =>
    cases c with
    | updateStatus status =>
      cases status <;> cases hn
      · exact verdict_moves e s finished fileName data hc
      · exact abort_moves e s finished fileName data hc
      · simp only [call, updateStatus_other]
        exact ⟨quiet_refl _ _ _ _, hc⟩
    | _ => cases hn
  | sending failed =>
    cases c with
    | fileRead count =>
      cases failed <;> cases hn
      obtain ⟨hk, hi, hm⟩ := fileRead_same e count s
      exact ⟨.quiet hk hi rfl (Or.inr ⟨trivial, trivial⟩), hk.kernelClosed.trans hc.1, hm.trans hc.2⟩
    | fileClose =>
      cases failed <;> cases hn
      all_goals
        refine ⟨.quiet ?_ ?_ rfl (Or.inr ⟨trivial, trivial⟩), ?_, Or.inl rfl⟩
        all_goals simp only [call, fileClose, hc.2]
        · exact ⟨rfl, rfl, rfl, rfl⟩
        · exact ⟨rfl, rfl, rfl⟩
        · exact hc.1
    | updateStatus status =>
      cases failed <;> cases status <;> cases hn
      all_goals simp only [call, updateStatus_other]
      · exact ⟨quiet_refl _ _ _ _, hc⟩
      · exact ⟨.quiet (sameKernel_refl s) (sameInject_refl s) rfl (Or.inr ⟨trivial, trivial⟩), hc.1,
          Or.inr hc.2⟩
    | _ => cases failed <;> cases hn

def fineEnv : Env where
  card := ⟨.frOk, .frOk, 0, .frOk, []⟩
  memory := ⟨0, fun _ => 0x10000000000, fun _ _ => some (fun _ => 0)⟩
  overrun := []

def smallMax : KernelMaxSize := ⟨4096, by decide⟩

def someKernel : Block := ⟨[1, 2, 3], by decide⟩

def push (fileName : List UInt8) (block : Block) (verdict : TStatus) : List Event :=
  [(.fileCreate fileName, fineEnv), (.fileWrite block, fineEnv), (.fileClose, fineEnv),
    (.updateStatus verdict, fineEnv)]

theorem consistent_init (maxKernelSize : KernelMaxSize) (offset : Nat) (text : Mem UInt8) :
    Consistent (Tftp.init maxKernelSize offset text).server
      (Tftp.init maxKernelSize offset text).daemon.phase := ⟨rfl, Or.inl rfl⟩

end RapiBootloader.TftpDaemon
