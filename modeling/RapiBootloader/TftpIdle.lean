import RapiBootloader.TftpDaemon

namespace RapiBootloader.TftpIdle

open Lib.Memory Lib.Strings Lib.Run DefaultsBlock ChainBoot Card TftpServer TftpDaemon

/-- What one call does to `m_File`: whether it is open, or `none` once it was opened twice,
closed twice or used while closed. -/
def handle : Option Bool → CardCall → Option Bool
  | some isOpen, .openRead _ result | some isOpen, .openWrite _ result =>
    if result ≠ .frOk then some isOpen else if isOpen then none else some true
  | some isOpen, .close => if isOpen then some false else none
  | some isOpen, .read _ _ _ | some isOpen, .write _ _ _ => if isOpen then some true else none
  | state, .mkdir _ => state
  | none, _ => none

def fileAfter (calls : List CardCall) : Option Bool := calls.foldl handle (some false)

def holdsFile : TMode → Bool
  | .modeSDRead | .modeSDWrite => true
  | _ => false

def FileKept (s : Server) : Prop := fileAfter s.calls = some (holdsFile s.mode)

theorem fileAfter_append (calls more : List CardCall) :
    fileAfter (calls ++ more) = more.foldl handle (fileAfter calls) := List.foldl_append

theorem foldl_handle_parentDirs (path : List UInt8) (state : Option Bool) :
    (parentDirs path).foldl handle state = state := by
  have hmkdir := parentDirs_mkdir path
  generalize parentDirs path = calls at hmkdir
  induction calls with
  | nil => rfl
  | cons c calls ih =>
    obtain ⟨dir, rfl⟩ := hmkdir c List.mem_cons_self
    have hkeep : handle state (.mkdir dir) = state := by cases state <;> rfl
    rw [List.foldl_cons, hkeep]
    exact ih (fun c hc => hmkdir c (List.mem_cons_of_mem _ hc))

theorem fileOpen_fileKept {e : Env} {fileName : List UInt8} {s : Server} (h : FileKept s) :
    FileKept (fileOpen e fileName s).2 := by
  simp only [fileOpen, FileKept] at h ⊢
  split
  · exact h
  · rename_i hm
    rw [not_not] at hm
    rw [hm] at h
    split
    · rwa [hm]
    · split <;> simp_all [fileAfter_append, handle, holdsFile]

theorem createSD_fileKept {e : Env} {path : List UInt8} {s : Server} (hm : s.mode = .modeNone)
    (h : FileKept s) : FileKept (createSD e path s).2 := by
  simp only [FileKept, hm, createSD] at h ⊢
  split <;> simp_all [fileAfter_append, foldl_handle_parentDirs, handle, holdsFile]

theorem fileCreate_fileKept {e : Env} {fileName : List UInt8} {s : Server} (h : FileKept s) :
    FileKept (fileCreate e fileName s).2 := by
  simp only [fileCreate]
  split
  · exact h
  · rename_i hm
    rw [not_not] at hm
    split
    · simpa [FileKept, hm, holdsFile] using h
    · split
      · exact createSD_fileKept hm h
      · split
        · exact h
        · generalize (if s.kernelBuffer.isNone then stageAlloc e.memory s.maxKernelSize.bytes
            else s.kernelBuffer) = buffer
          cases buffer with
          | none => exact h
          | some m => simpa [FileKept, hm, holdsFile] using h

theorem flushWriteBuf_fileKept {e : Env} {s : Server} (hm : s.mode = .modeSDWrite)
    (h : FileKept s) : FileKept (flushWriteBuf e s).2 := by
  simp only [FileKept, hm, flushWriteBuf] at h ⊢
  split <;> simp_all [fileAfter_append, handle, holdsFile]

theorem closed_fileKept {s : Server} (hm : holdsFile s.mode = true) (h : FileKept s) :
    FileKept { s with mode := .modeNone, calls := s.calls ++ [.close] } := by
  simp_all [FileKept, fileAfter_append, handle, holdsFile]

theorem fileClose_fileKept {e : Env} {s : Server} (h : FileKept s) :
    FileKept (fileClose e s).2 := by
  cases hm : s.mode with
  | modeSDWrite =>
    have hflush := flushWriteBuf_fileKept (e := e) hm h
    have hmode := (flushWriteBuf_same e s).2.2.trans hm
    simp only [fileClose, hm]
    exact closed_fileKept (by rw [hmode]; rfl) hflush
  | modeSDRead =>
    simp only [fileClose, hm]
    exact closed_fileKept (by rw [hm]; rfl) h
  | modeNone | modeKernel | modeInject => simpa [fileClose, hm, FileKept, holdsFile] using h

theorem fileRead_fileKept {e : Env} {count : Nat} {s : Server} (h : FileKept s) :
    FileKept (fileRead e count s).2 := by
  simp only [fileRead]
  split
  · exact h
  · rename_i hm
    rw [not_not] at hm
    split <;> simp_all [FileKept, fileAfter_append, handle, holdsFile]

theorem writeSD_fileKept {e : Env} {block : Block} {s : Server} (hm : s.mode = .modeSDWrite)
    (h : FileKept s) : FileKept (writeSD e block s).2 := by
  have hheld : holdsFile s.mode = true := by rw [hm]; rfl
  cases hb : s.writeBuf with
  | none =>
    simp only [writeSD, sdWrite, hb]
    exact closed_fileKept hheld h
  | some buffer =>
    simp only [writeSD, sdWrite, hb]
    generalize hf : (if s.writeBufFill + block.bytes.length > writeBufSize then flushWriteBuf e s
      else (true, s)) = flushed
    have hflushed : FileKept flushed.2 ∧ holdsFile flushed.2.mode = true := by
      rw [← hf]
      split
      · exact ⟨flushWriteBuf_fileKept hm h, by rw [(flushWriteBuf_same e s).2.2]; exact hheld⟩
      · exact ⟨h, hheld⟩
    split
    · exact closed_fileKept hflushed.2 hflushed.1
    · exact hflushed.1

theorem fileWrite_fileKept {e : Env} {block : Block} {s : Server} (h : FileKept s) :
    FileKept (fileWrite e block s).2 := by
  simp only [fileWrite]
  cases hm : s.mode with
  | modeKernel =>
    simp only [writeKernel]
    split <;> simpa [FileKept, hm, holdsFile] using h
  | modeInject =>
    simp only [writeInject]
    split <;> simpa [FileKept, hm, holdsFile] using h
  | modeSDWrite => exact writeSD_fileKept hm h
  | modeNone | modeSDRead => exact h

theorem updateStatus_fileKept {e : Env} {status : TStatus} {s : Server} (h : FileKept s) :
    FileKept (updateStatus e status s).2 := by
  simp only [updateStatus]
  split
  · exact h
  · cases status with
    | statusWriteCompleted => cases s.kernelBuffer <;> exact h
    | statusWriteAborted | statusOther => exact h

/-- No callback, in whatever order, opens `m_File` twice or loses it. -/
theorem call_fileKept (e : Env) (c : Callback) {s : Server} (h : FileKept s) :
    FileKept (call e c s).server := by
  cases c with
  | fileOpen fileName => exact fileOpen_fileKept h
  | fileCreate fileName => exact fileCreate_fileKept h
  | fileClose => exact fileClose_fileKept h
  | fileRead count => exact fileRead_fileKept h
  | fileWrite block => exact fileWrite_fileKept h
  | updateStatus status => exact updateStatus_fileKept h

/-- What the daemon does behind a `FileRead` or `FileWrite` that returned a negative value. -/
inductive FailureRule
  | closes
  | leaves
deriving DecidableEq, Repr

def breaks (rule : FailureRule) (t : Tftp) (ev : Event) : Bool :=
  match rule, t.daemon.phase, ev.1 with
  | .closes, .refused _ _ false, .updateStatus .statusWriteAborted => true
  | .closes, .sending true, .updateStatus .statusOther => true
  | .leaves, .refused _ _ _, .fileClose => true
  | .leaves, .sending true, .fileClose => true
  | _, _, _ => false

def Follows (rule : FailureRule) (t : Tftp) (ev : Event) : Prop := breaks rule t ev = false

instance (rule : FailureRule) (t : Tftp) (ev : Event) : Decidable (Follows rule t ev) :=
  inferInstanceAs (Decidable (_ = _))

/-- The callback runs into the `assert (0)` of `FileClose`. -/
def Asserts (t : Tftp) (ev : Event) : Prop := ev.1 = .fileClose ∧ t.server.mode = .modeNone

/-- Between transfers the server is free for the next one, with `m_File` closed. -/
structure Accounted (t : Tftp) : Prop where
  idle : t.daemon.phase = .idle → t.server.mode = .modeNone
  file : fileAfter t.server.calls ≠ none
  closed : t.daemon.phase = .idle → fileAfter t.server.calls = some false

/-- No event of the run asserts, and every state it reaches is accounted for. -/
def ReturnsToIdle (start : Tftp) (es : List Event) : Prop :=
  Along step (fun t ev => ¬ Asserts t ev ∧ ∀ u, step t ev = some u → Accounted u) start es

/-- `FileWrite` has room for the block, or gets it by a flush that succeeds. -/
def takes (e : Env) (block : Block) (s : Server) : Bool :=
  match s.mode with
  | .modeKernel => (s.currentOffset + block.bytes.length) % 0x100000000 ≤ s.maxKernelSize.bytes
  | .modeInject => s.injectFill + block.bytes.length ≤ defaultsBufferBytes - 1
  | .modeSDWrite =>
    s.writeBuf.isSome ∧
      (s.writeBufFill + block.bytes.length ≤ writeBufSize ∨ s.writeBufFill = 0 ∨
        e.card.writeResult = .frOk ∧ e.card.written = s.writeBufFill)
  | _ => false

/-- The failure that the rule has no good answer to does not happen. -/
def Spared (rule : FailureRule) (t : Tftp) (ev : Event) : Prop :=
  (match rule, ev.1 with
    | .closes, .fileWrite block => takes ev.2 block t.server
    | .leaves, .fileRead _ => ev.2.card.readResult = .frOk
    | _, _ => true) = true

instance (rule : FailureRule) (t : Tftp) (ev : Event) : Decidable (Spared rule t ev) :=
  inferInstanceAs (Decidable (_ = _))

theorem fileWrite_takes_iff (e : Env) (block : Block) (s : Server) :
    0 ≤ (fileWrite e block s).1 ↔ takes e block s = true := by
  simp only [fileWrite, takes]
  cases hm : s.mode with
  | modeKernel =>
    simp only [writeKernel]
    split <;> simp_all
  | modeInject =>
    simp only [writeInject]
    split <;> simp_all
  | modeSDWrite =>
    cases hb : s.writeBuf with
    | none => simp [writeSD, sdWrite, giveUp, hb]
    | some buffer =>
      simp only [writeSD, sdWrite, giveUp, copyIn, hb, flushWriteBuf]
      by_cases hroom : s.writeBufFill + block.bytes.length ≤ writeBufSize
      · simp [hroom, Nat.not_lt.mpr hroom]
      · by_cases hzero : s.writeBufFill = 0
        · simp [hzero]
        · have hfull := Nat.lt_of_not_le hroom
          by_cases hflush : e.card.writeResult = .frOk ∧ e.card.written = s.writeBufFill
          · simp [hroom, hzero, hflush, hfull]
          · simpa [hroom, hzero, hfull, not_and_or.mp hflush] using hflush
  | modeNone | modeSDRead => simp

theorem fileClose_mode (e : Env) (s : Server) : (fileClose e s).2.mode = .modeNone := by
  simp only [fileClose]

theorem updateStatus_mode (e : Env) (status : TStatus) (s : Server) :
    (updateStatus e status s).2.mode = s.mode := by
  simp only [updateStatus]
  split
  · rfl
  · cases status with
    | statusWriteCompleted => cases s.kernelBuffer <;> rfl
    | statusWriteAborted | statusOther => rfl

theorem fileCreate_refused_mode {e : Env} {fileName : List UInt8} {s : Server}
    (h : (fileCreate e fileName s).1 = false) : (fileCreate e fileName s).2.mode = s.mode := by
  have hc := fileCreate_cases e fileName s
  rw [h] at hc
  generalize kindOf fileName = kind at hc
  cases hc with
  | refused hk hi hm => exact hm

theorem receiving_mode {s : Server} {data : List UInt8} {kind : Option Kind}
    (h : Receiving s data kind) : s.mode ≠ .modeNone := by
  cases h with
  | inject hm _ | sd hm | kernel hm _ => simp [hm]

structure Settled (rule : FailureRule) (t : Tftp) : Prop where
  consistent : Consistent t.server t.daemon.phase
  file : FileKept t.server
  idle : t.daemon.phase = .idle → t.server.mode = .modeNone
  refused : rule = .closes → ∀ fileName data closed, t.daemon.phase ≠ .refused fileName data closed
  failed : rule = .leaves → t.daemon.phase ≠ .sending true

theorem Settled.accounted {rule : FailureRule} {t : Tftp} (h : Settled rule t) : Accounted t := by
  have hfile := h.file
  refine ⟨h.idle, ?_, fun hp => ?_⟩
  · rw [FileKept] at hfile
    rw [hfile]
    exact Option.some_ne_none _
  · rw [FileKept, h.idle hp] at hfile
    exact hfile

theorem Settled.no_assert {rule : FailureRule} {t u : Tftp} {ev : Event} (h : Settled rule t)
    (hf : Follows rule t ev) (hs : step t ev = some u) : ¬ Asserts t ev := by
  rintro ⟨hev, hmode⟩
  obtain ⟨hn, -⟩ := step_some hs
  have hc := h.consistent
  rw [hev] at hn
  cases hp : t.daemon.phase with
  | idle | closed => simp [Daemon.next, hp] at hn
  | receiving fileName data =>
    rw [hp] at hc
    exact receiving_mode hc.2 hmode
  | refused fileName data closed =>
    cases rule with
    | closes => exact h.refused rfl _ _ _ hp
    | leaves => simp [Follows, breaks, hp, hev] at hf
  | sending failed =>
    rw [hp] at hc
    exact absurd (hmode.symm.trans hc.2) (by decide)

section next

variable {d d' : Daemon} {c : Callback} {accepted : Bool}

theorem next_refused (h : d.next c accepted = some d') {fileName data : List UInt8} {closed : Bool}
    (hp : d'.phase = .refused fileName data closed) :
    (∃ closed, d.phase = .refused fileName data closed) ∨
      (∃ block, c = .fileWrite block) ∧ accepted = false := by
  simp only [Daemon.next] at h
  cases accepted <;> split at h <;> cases h <;> simp_all [Daemon.finish]

theorem next_failed (h : d.next c accepted = some d') (hp : d'.phase = .sending true) :
    d.phase = .sending true ∨ (∃ count, c = .fileRead count) ∧ accepted = false := by
  simp only [Daemon.next] at h
  cases accepted <;> split at h <;> cases h <;> simp_all [Daemon.finish]

/-- Between transfers the daemon has refused to start one, has closed the file of the last one,
or has given its verdict, which comes on its own only behind a failed read. -/
theorem next_idle (h : d.next c accepted = some d') (hp : d'.phase = .idle) :
    (d.phase = .idle ∧ accepted = false ∧
        ∃ fileName, c = .fileOpen fileName ∨ c = .fileCreate fileName) ∨
      c = .fileClose ∨
      (∃ status, c = .updateStatus status) ∧
        (d.phase = .idle ∨ (∃ fileName data closed, d.phase = .refused fileName data closed) ∨
          (∃ fileName data, d.phase = .closed fileName data) ∨
          d.phase = .sending true ∧ c = .updateStatus .statusOther) := by
  simp only [Daemon.next] at h
  cases accepted <;> split at h <;> cases h <;> simp_all [Daemon.finish]

end next

theorem fileRead_ok_iff {e : Env} {count : Nat} {s : Server} (hm : s.mode = .modeSDRead) :
    0 ≤ (fileRead e count s).1 ↔ e.card.readResult = .frOk := by
  by_cases hr : e.card.readResult = .frOk <;> simp [fileRead, hm, hr]

theorem fileRead_phase {d d' : Daemon} {count : Nat} {accepted : Bool}
    (h : d.next (.fileRead count) accepted = some d') : d.phase = .sending false := by
  cases hp : d.phase with
  | sending failed => cases failed <;> simp [Daemon.next, hp] at h ⊢
  | refused _ _ closed => cases closed <;> simp [Daemon.next, hp] at h
  | idle | receiving | closed => simp [Daemon.next, hp] at h

theorem Settled.idle_step {rule : FailureRule} {t u : Tftp} {ev : Event} (h : Settled rule t)
    (hf : Follows rule t ev) (hs : step t ev = some u) (hp : u.daemon.phase = .idle) :
    u.server.mode = .modeNone := by
  obtain ⟨hn, hserver⟩ := step_some hs
  obtain ⟨c, e⟩ := ev
  rw [hserver]
  obtain ⟨hidle, haccepted, fileName, hc⟩ | hc | ⟨⟨status, hc⟩, hcases⟩ := next_idle hn hp
  · have hmode := h.idle hidle
    simp only at hc
    obtain rfl | rfl := hc
    · have hopen := (fileOpen_cases e fileName t.server).2.2
      have hrefused : (fileOpen e fileName t.server).1 = false := haccepted
      rw [hrefused] at hopen
      exact hopen.trans hmode
    · exact (fileCreate_refused_mode haccepted).trans hmode
  · simp only at hc
    subst hc
    exact fileClose_mode e t.server
  · simp only at hc
    subst hc
    apply (updateStatus_mode e status t.server).trans
    have hcons := h.consistent
    obtain hidle | ⟨fileName, data, closed, hphase⟩ | ⟨fileName, data, hphase⟩ | ⟨hphase, hc⟩ := hcases
    · exact h.idle hidle
    · rw [hphase] at hcons
      exact hcons.2
    · rw [hphase] at hcons
      exact hcons.1
    · cases rule with
      | closes =>
        cases hc
        simp [Follows, breaks, hphase] at hf
      | leaves => exact absurd hphase (h.failed rfl)

theorem Settled.step {rule : FailureRule} {t u : Tftp} {ev : Event} (h : Settled rule t)
    (hf : Follows rule t ev) (hq : Spared rule t ev) (hs : step t ev = some u) :
    Settled rule u := by
  obtain ⟨hn, hserver⟩ := step_some hs
  obtain ⟨c, e⟩ := ev
  refine ⟨(step_moves h.consistent hs).2, ?_, h.idle_step hf hs, ?_, ?_⟩
  · rw [hserver]
    exact call_fileKept e c h.file
  · rintro rfl fileName data closed hp
    obtain ⟨closed', hphase⟩ | ⟨⟨block, hc⟩, haccepted⟩ := next_refused hn hp
    · exact h.refused rfl _ _ _ hphase
    · simp only at hc
      subst hc
      have htakes : 0 ≤ (fileWrite e block t.server).1 := (fileWrite_takes_iff e block t.server).mpr hq
      simp [reply, call, htakes] at haccepted
  · rintro rfl hp
    obtain hphase | ⟨⟨count, hc⟩, haccepted⟩ := next_failed hn hp
    · exact h.failed rfl hphase
    · simp only at hc
      subst hc
      have hcons := h.consistent
      rw [fileRead_phase hn] at hcons
      have hread : 0 ≤ (fileRead e count t.server).1 := (fileRead_ok_iff hcons.2).mpr (of_decide_eq_true hq)
      simp [reply, call, hread] at haccepted

theorem settled_init (rule : FailureRule) (maxKernelSize : KernelMaxSize) (offset : Nat)
    (text : Mem UInt8) : Settled rule (Tftp.init maxKernelSize offset text) where
  consistent := consistent_init maxKernelSize offset text
  file := rfl
  idle _ := rfl
  refused _ _ _ _ h := by cases h
  failed _ h := by cases h

theorem Settled.run {rule : FailureRule} {t u : Tftp} {es : List Event} (h : Settled rule t)
    (hf : Along TftpDaemon.step (Follows rule) t es) (hq : Along TftpDaemon.step (Spared rule) t es)
    (hr : run TftpDaemon.step t es = some u) : ReturnsToIdle t es := by
  induction es generalizing t with
  | nil => trivial
  | cons ev es ih =>
    obtain ⟨v, hv, hu⟩ := run_cons_some.mp hr
    have hnext := h.step hf.1 hq.1 hv
    refine ⟨⟨h.no_assert hf.1 hv, fun w hw => ?_⟩, fun w hw => ?_⟩
    all_goals
      rw [hv] at hw
      cases hw
    · exact hnext.accounted
    · exact ih hnext (hf.2 v hv) (hq.2 v hv) hu

/-- A refused write has cleared the mode: the close that has to follow asserts. -/
theorem refused_asserts {t u : Tftp} {es : List Event} {fileName data : List UInt8}
    (hp : t.daemon.phase = .refused fileName data false)
    (hc : Consistent t.server t.daemon.phase)
    (hf : Along TftpDaemon.step (Follows .closes) t es) (hr : run TftpDaemon.step t es = some u)
    (hidle : u.daemon.phase = .idle) : ¬ ReturnsToIdle t es := by
  induction es generalizing t with
  | nil =>
    cases hr
    rw [hp] at hidle
    cases hidle
  | cons ev es ih =>
    obtain ⟨v, hv, hu⟩ := run_cons_some.mp hr
    obtain ⟨hn, hserver⟩ := step_some hv
    have hcv := (step_moves hc hv).2
    obtain ⟨c, e⟩ := ev
    rw [hp] at hc
    intro hreturns
    cases c with
    | fileClose => exact hreturns.1.1 ⟨rfl, hc.2⟩
    | updateStatus status =>
      cases status with
      | statusWriteCompleted => simp [Daemon.next, hp] at hn
      | statusWriteAborted =>
        have hfollows := hf.1
        simp [Follows, breaks, hp] at hfollows
      | statusOther =>
        simp only [Daemon.next, hp, Option.some.injEq] at hn
        have hphase : v.daemon.phase = .refused fileName data false := by
          rw [← hn]
          exact hp
        exact ih hphase hcv (hf.2 v hv) hu (hreturns.2 v hv)
    | _ => simp [Daemon.next, hp] at hn

/-- A failed read has left the mode: without a close it stays. -/
theorem failed_stays {t u : Tftp} {es : List Event} (hp : t.daemon.phase = .sending true)
    (hc : Consistent t.server t.daemon.phase)
    (hf : Along TftpDaemon.step (Follows .leaves) t es) (hr : run TftpDaemon.step t es = some u)
    (hidle : u.daemon.phase = .idle) : ¬ ReturnsToIdle t es := by
  cases es with
  | nil =>
    cases hr
    rw [hp] at hidle
    cases hidle
  | cons ev es =>
    obtain ⟨v, hv, hu⟩ := run_cons_some.mp hr
    obtain ⟨hn, hserver⟩ := step_some hv
    obtain ⟨c, e⟩ := ev
    rw [hp] at hc
    intro hreturns
    cases c with
    | fileClose =>
      have hfollows := hf.1
      simp [Follows, breaks, hp] at hfollows
    | updateStatus status =>
      cases status with
      | statusOther =>
        simp only [Daemon.next, hp, Option.some.injEq] at hn
        have hmode := (hreturns.1.2 v hv).idle (by rw [← hn])
        rw [hserver] at hmode
        have hkept := (updateStatus_mode e .statusOther t.server).trans hc.2
        exact absurd (hkept.symm.trans hmode) (by decide)
      | _ => simp [Daemon.next, hp] at hn
    | _ => simp [Daemon.next, hp] at hn

theorem fileWrite_phase {d d' : Daemon} {block : Block} {accepted : Bool}
    (h : d.next (.fileWrite block) accepted = some d') :
    ∃ fileName data, d.phase = .receiving fileName data := by
  cases hp : d.phase with
  | receiving fileName data => exact ⟨fileName, data, rfl⟩
  | refused _ _ closed => cases closed <;> simp [Daemon.next, hp] at h
  | sending failed => cases failed <;> simp [Daemon.next, hp] at h
  | idle | closed => simp [Daemon.next, hp] at h

/-- One failure of the kind the rule has no good answer to spoils the rest of a run. -/
theorem failure_spoils {rule : FailureRule} {t u : Tftp} {ev : Event} {es : List Event}
    (hc : Consistent t.server t.daemon.phase) (hbad : ¬ Spared rule t ev)
    (hf : Along TftpDaemon.step (Follows rule) t (ev :: es))
    (hr : run TftpDaemon.step t (ev :: es) = some u) (hidle : u.daemon.phase = .idle) :
    ¬ ReturnsToIdle t (ev :: es) := by
  obtain ⟨v, hv, hu⟩ := run_cons_some.mp hr
  obtain ⟨hn, -⟩ := step_some hv
  have hcv := (step_moves hc hv).2
  obtain ⟨c, e⟩ := ev
  intro hreturns
  cases rule with
  | closes =>
    cases c with
    | fileWrite block =>
      obtain ⟨fileName, data, hp⟩ := fileWrite_phase hn
      have hneg : ¬ 0 ≤ (fileWrite e block t.server).1 :=
        fun h => hbad ((fileWrite_takes_iff e block t.server).mp h)
      simp only [Daemon.next, hp, reply, call, hneg, decide_false, Bool.false_eq_true, if_false,
        Option.some.injEq] at hn
      exact refused_asserts (by rw [← hn]) hcv (hf.2 v hv) hu hidle (hreturns.2 v hv)
    | _ => exact hbad rfl
  | leaves =>
    cases c with
    | fileRead count =>
      have hp := fileRead_phase hn
      rw [hp] at hc
      have hneg : ¬ 0 ≤ (fileRead e count t.server).1 := fun h => hbad (decide_eq_true ((fileRead_ok_iff hc.2).mp h))
      simp only [Daemon.next, hp, reply, call, hneg, decide_false, Bool.not_false,
        Option.some.injEq] at hn
      exact failed_stays (by rw [← hn]) hcv (hf.2 v hv) hu hidle (hreturns.2 v hv)
    | _ => exact hbad rfl

/-- Under the rule to close, just the runs without a refused write return to idle; under the
rule to leave it, just those without a failed read. A run is judged once its last transfer
is over. -/
theorem returns_to_idle_iff (rule : FailureRule) (maxKernelSize : KernelMaxSize) (offset : Nat)
    (text : Mem UInt8) (es : List Event) (t : Tftp)
    (hf : Along step (Follows rule) (Tftp.init maxKernelSize offset text) es)
    (hr : run step (Tftp.init maxKernelSize offset text) es = some t) :
    (Along step (Spared rule) (Tftp.init maxKernelSize offset text) es →
      ReturnsToIdle (Tftp.init maxKernelSize offset text) es) ∧
    (t.daemon.phase = .idle → ReturnsToIdle (Tftp.init maxKernelSize offset text) es →
      Along step (Spared rule) (Tftp.init maxKernelSize offset text) es) := by
  refine ⟨fun hq => (settled_init rule maxKernelSize offset text).run hf hq hr, fun hidle h => ?_⟩
  by_contra hbad
  obtain ⟨pre, ev, post, s, rfl, hs, hev⟩ := exists_of_not_along hbad
  have hc : Consistent s.server s.daemon.phase := run_invariant_all
    (I := fun t => Consistent t.server t.daemon.phase)
    (fun t ev u hc hu => (step_moves hc hu).2) (consistent_init maxKernelSize offset text) hs
  obtain ⟨s', hs', hrest⟩ := run_append_some.mp hr
  rw [hs] at hs'
  cases hs'
  exact failure_spoils hc hev ((along_append hs).mp hf).2 hrest hidle ((along_append hs).mp h).2

theorem returns_to_idle_push :
    ReturnsToIdle (Tftp.init smallMax 0 (fun _ => 0))
      (push injectFileName someKernel .statusWriteCompleted) :=
  (returns_to_idle_iff .closes smallMax 0 (fun _ => 0) _ _ (by decide) rfl).1 (by decide)

def tinyMax : KernelMaxSize := ⟨2, by decide⟩

def longPush : List Event := push (ascii "kernel.img") someKernel .statusWriteAborted

def failedRead : List Event :=
  [(.fileOpen (ascii "sd/log"), fineEnv),
    (.fileRead 512, { fineEnv with card := { fineEnv.card with readResult := .frOther 1 } }),
    (.updateStatus .statusOther, fineEnv)]

theorem no_uniform_rule :
    ¬ ∃ rule, ∀ (maxKernelSize : KernelMaxSize) (offset : Nat) (text : Mem UInt8)
      (es : List Event) (t : Tftp),
      Along step (Follows rule) (Tftp.init maxKernelSize offset text) es →
        run step (Tftp.init maxKernelSize offset text) es = some t →
          ReturnsToIdle (Tftp.init maxKernelSize offset text) es := by
  rintro ⟨rule, h⟩
  cases rule with
  | closes =>
    have hreturns := h tinyMax 0 (fun _ => 0) longPush _ (by decide) rfl
    exact ((hreturns.2 _ rfl).2 _ rfl).1.1 ⟨rfl, rfl⟩
  | leaves =>
    have hreturns := h tinyMax 0 (fun _ => 0) failedRead _ (by decide) rfl
    exact absurd ((((hreturns.2 _ rfl).2 _ rfl).1.2 _ rfl).idle rfl) (by decide)

end RapiBootloader.TftpIdle
