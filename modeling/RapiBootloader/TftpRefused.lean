import RapiBootloader.TftpInject

namespace RapiBootloader.TftpRefused

open Lib.Memory Lib.Strings Lib.Run DefaultsBlock BootImage ChainBoot Card TftpServer TftpDaemon

/-- The string the next completed kernel push would be stamped with. -/
def nextStamp (e : Env) (s : Server) : Option CString :=
  if s.injectPending then some (injectString e s) else none

def feeds : Callback → Bool
  | .fileWrite _ => true
  | .updateStatus .statusOther => true
  | _ => false

/-- An inject push from its `FileCreate` to the block that is refused, behind `data`. -/
structure RefusedPush (t : Tftp) (evs : List Event) (u : Tftp) (data : List UInt8) : Prop where
  idle : t.daemon.phase = .idle
  shape : ∃ e rest, evs = (.fileCreate injectFileName, e) :: rest ∧ ∀ ev ∈ rest, feeds ev.1 = true
  run : run step t evs = some u
  refused : u.daemon.phase = .refused injectFileName data false

/-- The armed injection is as it was. -/
structure LeavesArmed (t u : Tftp) : Prop where
  pending : u.server.injectPending = t.server.injectPending
  stamp : ∀ e, nextStamp e u.server = nextStamp e t.server

def bufferText (s : Server) : List UInt8 :=
  (read s.injectText 0 defaultsBufferBytes).takeWhile (· != 0)

/-- These bytes, the first ones of a push, are the text with its NUL as far as both reach. -/
def Repeats (text data : List UInt8) : Prop :=
  (data <+: text ++ [0] ∨ text ++ [0] <+: data) ∧ (data = [] → text = [])

def Terminated (s : Server) : Prop := ∃ i < defaultsBufferBytes, s.injectText i = 0

theorem kindOf_inject : kindOf injectFileName = some .inject := if_pos rfl

def started (text : Mem UInt8) (data : List UInt8) : Mem UInt8 := write (write text 0 [0]) 0 data

structure Pushed (t u : Server) (data : List UInt8) : Prop where
  pending : u.injectPending = t.injectPending
  text : u.injectText = started t.injectText data
  fits : data.length ≤ defaultsBufferBytes - 1

def InPush (t u : Tftp) : Prop :=
  Consistent u.server u.daemon.phase ∧ ∃ data, Pushed t.server u.server data ∧
    (u.daemon.phase = .receiving injectFileName data ∨
      u.daemon.phase = .refused injectFileName data false)

theorem Pushed.same {t u v : Server} {data : List UInt8} (h : Pushed t u data)
    (hi : SameInject u v) : Pushed t v data :=
  ⟨hi.injectPending.trans h.pending, hi.injectText.trans h.text, h.fits⟩

theorem Pushed.take {t u : Server} {data : List UInt8} (h : Pushed t u data) (block : Block)
    (hf : Filled u data) (hfit : u.injectFill + block.bytes.length ≤ defaultsBufferBytes - 1) :
    Pushed t (writeInject block u).2 (data ++ block.bytes) := by
  rw [writeInject, if_neg (Nat.not_lt.mpr hfit)]
  rw [hf.fill] at hfit ⊢
  refine ⟨h.pending, ?_, List.length_append.trans_le hfit⟩
  dsimp only
  rw [h.text, started, write_behind, started]

theorem inPush_create {t u : Tftp} {e : Env} (hc : Consistent t.server t.daemon.phase)
    (hidle : t.daemon.phase = .idle) (h : step t (.fileCreate injectFileName, e) = some u)
    (hin : u.daemon.phase ≠ .idle) : InPush t u := by
  have hcons := (step_moves hc h).2
  obtain ⟨hn, hs⟩ := step_some h
  by_cases hm : t.server.mode = .modeNone
  · have hreply : reply t (.fileCreate injectFileName, e) =
        ⟨true,
          { t.server with
            injectFill := 0
            injectText := write t.server.injectText 0 [0]
            mode := .modeInject }, none⟩ := by
      rw [reply, call, fileCreate, if_neg (not_not.mpr hm), if_pos rfl]
    simp only [Daemon.next, hidle, hreply, if_true, Option.some.injEq] at hn hs
    refine ⟨hcons, [], ⟨by rw [hs], ?_, Nat.zero_le _⟩, Or.inl (by rw [← hn])⟩
    rw [hs]
    funext i
    exact (write_outside _ _ _ _ (Or.inr (Nat.zero_le i))).symm
  · have hreply : (reply t (.fileCreate injectFileName, e)).accepted = false := by
      rw [reply, call, fileCreate, if_pos hm]
    simp only [Daemon.next, hidle, hreply, Bool.false_eq_true, if_false, Option.some.injEq] at hn
    exact absurd (congrArg Daemon.phase hn).symm hin

theorem injecting_mode {s : Server} {data : List UInt8}
    (hc : Consistent s (.receiving injectFileName data)) : s.mode = .modeInject ∧ Filled s data := by
  have hr := hc.2
  rw [kindOf_inject] at hr
  cases hr with
  | inject hm hf => exact ⟨hm, hf⟩

theorem inPush_feed {t u v : Tftp} {ev : Event} (h : InPush t u) (hf : feeds ev.1 = true)
    (hs : step u ev = some v) : InPush t v := by
  obtain ⟨hc, data, hpush, hphase⟩ := h
  have hcons := (step_moves hc hs).2
  refine ⟨hcons, ?_⟩
  obtain ⟨hn, hserver⟩ := step_some hs
  obtain ⟨c, e⟩ := ev
  cases c with
  | fileWrite block =>
    obtain hphase | hphase := hphase
    · rw [hphase] at hc
      obtain ⟨hmode, hfilled⟩ := injecting_mode hc
      have hwrite : fileWrite e block u.server = writeInject block u.server := by
        rw [fileWrite, hmode]
      simp only [Daemon.next, hphase, Option.some.injEq, reply, call, hwrite] at hn hserver
      rw [hserver, ← hn]
      by_cases hfit : u.server.injectFill + block.bytes.length ≤ defaultsBufferBytes - 1
      · rw [decide_eq_true (writeInject_fits hfit).1]
        exact ⟨_, hpush.take block hfilled hfit, Or.inl rfl⟩
      · have hrefuse : writeInject block u.server = (-1, { u.server with mode := .modeNone }) :=
          if_pos (Nat.lt_of_not_le hfit)
        rw [hrefuse]
        exact ⟨data, hpush.same ⟨rfl, rfl, rfl⟩, Or.inr rfl⟩
    · simp [Daemon.next, hphase] at hn
  | updateStatus status =>
    cases status with
    | statusOther =>
      have hsame : v.server = u.server := by
        rw [hserver, reply, call, updateStatus_other]
      have hd : u.daemon = v.daemon := by
        obtain hphase | hphase := hphase <;> simpa [Daemon.next, hphase] using hn
      rw [hsame, ← hd]
      exact ⟨data, hpush, hphase⟩
    | _ => cases hf
  | _ => cases hf

theorem inPush_feeds {t u v : Tftp} {evs : List Event} (h : InPush t u)
    (hf : ∀ ev ∈ evs, feeds ev.1 = true) (hr : run step u evs = some v) : InPush t v := by
  induction evs generalizing u with
  | nil =>
    cases hr
    exact h
  | cons ev evs ih =>
    obtain ⟨w, hw, hrest⟩ := run_cons_some.mp hr
    exact ih (inPush_feed h (hf ev List.mem_cons_self) hw)
      (fun ev hev => hf ev (List.mem_cons_of_mem _ hev)) hrest

theorem idle_feeds {t u : Tftp} {evs : List Event} (h : t.daemon.phase = .idle)
    (hf : ∀ ev ∈ evs, feeds ev.1 = true) (hr : run step t evs = some u) :
    u.daemon.phase = .idle := by
  induction evs generalizing t with
  | nil =>
    cases hr
    exact h
  | cons ev evs ih =>
    obtain ⟨v, hv, hrest⟩ := run_cons_some.mp hr
    have hev := hf ev List.mem_cons_self
    refine ih ?_ (fun ev hev => hf ev (List.mem_cons_of_mem _ hev)) hrest
    obtain ⟨hn, -⟩ := step_some hv
    obtain ⟨c, e⟩ := ev
    cases c with
    | fileWrite block => simp [Daemon.next, h] at hn
    | updateStatus status =>
      cases status with
      | statusOther =>
        simp only [Daemon.next, h, Option.some.injEq] at hn
        rw [← hn]
        exact h
      | _ => cases hev
    | _ => cases hev

theorem pushed_of_refused {t u : Tftp} {evs : List Event} {data : List UInt8}
    (hc : Consistent t.server t.daemon.phase) (h : RefusedPush t evs u data) :
    Pushed t.server u.server data := by
  obtain ⟨e, rest, rfl, hf⟩ := h.shape
  obtain ⟨v, hv, hrest⟩ := run_cons_some.mp h.run
  have hstarted : v.daemon.phase ≠ .idle := by
    intro hidle
    have hend := idle_feeds hidle hf hrest
    rw [h.refused] at hend
    cases hend
  obtain ⟨-, data', hpush, hphase⟩ := inPush_feeds (inPush_create hc h.idle hv hstarted) hf hrest
  rw [h.refused] at hphase
  obtain hphase | hphase := hphase
  · cases hphase
  · cases hphase
    exact hpush

theorem bufferText_started {t u : Server} {data : List UInt8} (h : Pushed t u data) :
    bufferText u = bufferText t ↔ Repeats (bufferText t) data := by
  have hlen : data.length ≤ defaultsBufferBytes :=
    Nat.le_trans h.fits (Nat.sub_le _ _)
  have hfirst := @read_write_start _ t.injectText [0] defaultsBufferBytes (by decide)
  simp only [bufferText]
  rw [h.text, started, read_write_start _ hlen, hfirst]
  have hread := length_read t.injectText 0 defaultsBufferBytes
  generalize read t.injectText 0 defaultsBufferBytes = old at *
  by_cases hnil : data = []
  · subst hnil
    rw [List.nil_append, List.length_nil, List.drop_zero, List.singleton_append,
      List.takeWhile_cons_of_neg (by decide)]
    constructor
    · intro h
      exact ⟨Or.inl (List.nil_prefix), fun _ => h.symm⟩
    · intro h
      exact (h.2 rfl).symm
  · have hdrop : ([0] ++ old.drop [(0 : UInt8)].length).drop data.length = old.drop data.length := by
      obtain ⟨c, data, rfl⟩ := List.exists_cons_of_ne_nil hnil
      rw [List.singleton_append, List.length_cons, List.drop_succ_cons, List.drop_drop,
        List.length_singleton, Nat.add_comm]
    rw [hdrop, takeWhile_overlay (by rw [hread]; exact hlen)]
    exact (and_iff_left (fun h => absurd h hnil)).symm

/-- The overrun bytes are the same before and after, and make no difference. -/
theorem injectString_eq_iff (e : Env) (t u : Server) :
    injectString e u = injectString e t ↔ bufferText u = bufferText t := by
  have hlen : (read u.injectText 0 defaultsBufferBytes).length =
      (read t.injectText 0 defaultsBufferBytes).length := by rw [length_read, length_read]
  rw [injectString, injectString, ofBytes, ofBytes, CString.mk.injEq]
  exact takeWhile_append_inj hlen e.overrun

theorem leavesArmed_iff {t u : Tftp} {data : List UInt8} (h : Pushed t.server u.server data) :
    LeavesArmed t u ↔ t.server.injectPending = false ∨ Repeats (bufferText t.server) data := by
  cases hpending : t.server.injectPending with
  | false =>
    refine iff_of_true ⟨h.pending, fun e => ?_⟩ (Or.inl rfl)
    simp only [nextStamp, h.pending, hpending, Bool.false_eq_true, if_false]
  | true =>
    rw [← bufferText_started h]
    constructor
    · intro hleaves
      have hstamp := hleaves.stamp fineEnv
      rw [nextStamp, nextStamp, h.pending, hpending] at hstamp
      exact Or.inr ((injectString_eq_iff fineEnv _ _).mp (Option.some.inj hstamp))
    · intro hcase
      have htext := hcase.resolve_left Bool.noConfusion
      refine ⟨h.pending, fun e => ?_⟩
      rw [nextStamp, nextStamp, h.pending, (injectString_eq_iff e _ _).mpr htext]

/-- The last byte of the buffer, which no text but only a NUL ever reaches. -/
def lastByte (s : Server) : UInt8 := s.injectText (defaultsBufferBytes - 1)

theorem write_nul {m : Mem UInt8} {i : Nat} (h : m i = 0) (k : Nat) : write m k [0] i = 0 := by
  by_cases hi : i = k
  · subst hi
    exact write_inside m i [0] 0 (Nat.succ_pos 0)
  · rw [write_outside m k [0] i (by rw [List.length_singleton]; omega)]
    exact h

theorem lastByte_same {s t : Server} (h : SameInject s t) (hs : lastByte s = 0) :
    lastByte t = 0 := by
  rw [lastByte, h.injectText]
  exact hs

theorem fileCreate_lastByte (e : Env) (fileName : List UInt8) {s : Server} (h : lastByte s = 0) :
    lastByte (fileCreate e fileName s).2 = 0 := by
  by_cases hn : kindOf fileName = some .inject
  · have hname : fileName = injectFileName := by
      by_contra hne
      rw [kindOf, if_neg hne] at hn
      split at hn
      · cases hn
      · split at hn <;> cases hn
    subst hname
    rw [fileCreate]
    split
    · exact h
    · rw [if_pos rfl]
      exact write_nul h 0
  · have hcreated := fileCreate_cases e fileName s
    generalize fileCreate e fileName s = r at *
    obtain ⟨ok, t⟩ := r
    generalize kindOf fileName = k at *
    cases hcreated with
    | refused _ hi _ => exact lastByte_same hi h
    | inject => exact absurd rfl hn
    | sd _ _ hi _ => exact lastByte_same hi h
    | kernel _ hi => exact lastByte_same hi h

theorem fileWrite_lastByte (e : Env) (block : Block) {s : Server} (h : lastByte s = 0) :
    lastByte (fileWrite e block s).2 = 0 := by
  have hwritten := fileWrite_cases e block s
  generalize fileWrite e block s = r at *
  obtain ⟨n, t⟩ := r
  dsimp only at hwritten ⊢
  generalize decide (0 ≤ n) = ok at hwritten
  cases hwritten with
  | kernel _ hfit ht =>
    rw [ht]
    exact lastByte_same (writeKernel_fits hfit).2.2.2.2 h
  | inject _ hfit ht =>
    have hwrite := write_outside s.injectText s.injectFill block.bytes (defaultsBufferBytes - 1)
      (Or.inr hfit)
    rw [ht, writeInject, if_neg (Nat.not_lt.mpr hfit)]
    exact hwrite.trans h
  | sd _ _ hi _ => exact lastByte_same hi h
  | refused _ hi _ _ _ => exact lastByte_same hi h

theorem fileClose_lastByte (e : Env) {s : Server} (h : lastByte s = 0) :
    lastByte (fileClose e s).2 = 0 := by
  simp only [fileClose]
  cases s.mode with
  | modeInject => exact write_nul h _
  | modeSDWrite =>
    have hflushed := lastByte_same (flushWriteBuf_same e s).2.1 h
    exact hflushed
  | _ => exact h

theorem updateStatus_lastByte (e : Env) (status : TStatus) {s : Server} (h : lastByte s = 0) :
    lastByte (updateStatus e status s).2 = 0 := by
  simp only [updateStatus]
  split
  · exact h
  · cases status with
    | statusWriteCompleted =>
      cases s.kernelBuffer with
      | none => exact h
      | some image => exact write_nul h 0
    | _ => exact h

theorem step_lastByte (t : Tftp) (ev : Event) (u : Tftp) (h : lastByte t.server = 0)
    (hs : step t ev = some u) : lastByte u.server = 0 := by
  obtain ⟨-, hserver⟩ := step_some hs
  obtain ⟨c, e⟩ := ev
  rw [hserver]
  cases c with
  | fileOpen fileName => exact lastByte_same (fileOpen_cases e fileName t.server).2.1 h
  | fileCreate fileName => exact fileCreate_lastByte e fileName h
  | fileClose => exact fileClose_lastByte e h
  | fileRead count => exact lastByte_same (fileRead_same e count t.server).2.1 h
  | fileWrite block => exact fileWrite_lastByte e block h
  | updateStatus status => exact updateStatus_lastByte e status h

def bytesBlock (n : Nat) (h : n ≤ 65536) : Block :=
  ⟨List.replicate n 120, by rw [List.length_replicate]; exact h⟩

def fullBlock : Block := bytesBlock (defaultsBufferBytes - 1) (by decide)

theorem length_fullBlock : fullBlock.bytes.length = defaultsBufferBytes - 1 :=
  List.length_replicate

def armEmpty : List Event :=
  [(.fileCreate injectFileName, fineEnv), (.fileClose, fineEnv),
    (.updateStatus .statusWriteCompleted, fineEnv), (.fileCreate injectFileName, fineEnv)]

theorem overfill_run (maxKernelSize : KernelMaxSize) (offset : Nat) (text : Mem UInt8)
    {block : Block} (hblock : block.bytes.length ≤ defaultsBufferBytes - 1) :
    ∃ t, run step (Tftp.init maxKernelSize offset text) (armEmpty ++ [(.fileWrite block, fineEnv)]) =
        some t ∧ t.server.injectPending = true ∧
      ∃ m, t.server.injectText = write m 0 block.bytes ∧
        m (defaultsBufferBytes - 1) = text (defaultsBufferBytes - 1) := by
  obtain ⟨t, hrun, hphase, hmode, hpending, hfill, htext⟩ :
      ∃ t, run step (Tftp.init maxKernelSize offset text) armEmpty = some t ∧
        t.daemon.phase = .receiving injectFileName [] ∧ t.server.mode = .modeInject ∧
        t.server.injectPending = true ∧ t.server.injectFill = 0 ∧
        t.server.injectText = write (write (write (write text 0 [0]) 0 [0]) 0 [0]) 0 [0] :=
    ⟨_, rfl, rfl, rfl, rfl, rfl, rfl⟩
  have hfit : t.server.injectFill + block.bytes.length ≤ defaultsBufferBytes - 1 := by
    rw [hfill, Nat.zero_add]
    exact hblock
  have hwrite : fileWrite fineEnv block t.server = writeInject block t.server := by
    rw [fileWrite, hmode]
  have hstep : step t (.fileWrite block, fineEnv) =
      some ⟨(writeInject block t.server).2,
        ⟨.receiving injectFileName ([] ++ block.bytes), t.daemon.finished⟩⟩ := by
    simp [step, reply, call, hwrite, Daemon.next, hphase, (writeInject_fits hfit).1]
  refine ⟨_, run_concat hrun hstep, (writeInject_fits hfit).2.2.1.trans hpending,
    t.server.injectText, ?_, ?_⟩
  · rw [writeInject, if_neg (Nat.not_lt.mpr hfit), hfill]
  · have hbehind : 0 + [(0 : UInt8)].length ≤ defaultsBufferBytes - 1 := by simp [defaultsBufferBytes]
    rw [htext, write_outside _ _ _ _ (Or.inr hbehind), write_outside _ _ _ _ (Or.inr hbehind),
      write_outside _ _ _ _ (Or.inr hbehind), write_outside _ _ _ _ (Or.inr hbehind)]

theorem terminated_iff (maxKernelSize : KernelMaxSize) (offset : Nat) (text : Mem UInt8) :
    (∀ evs t, run step (Tftp.init maxKernelSize offset text) evs = some t →
      t.server.injectPending = true → Terminated t.server) ↔
        text (defaultsBufferBytes - 1) = 0 := by
  constructor
  · intro hall
    obtain ⟨t, hr, hpending, m, htext, hlast⟩ :=
      overfill_run maxKernelSize offset text (Nat.le_of_eq length_fullBlock)
    obtain ⟨i, hi, hnul⟩ := hall _ t hr hpending
    rw [htext] at hnul
    by_cases hlt : i < fullBlock.bytes.length
    · have hbyte := write_inside m 0 fullBlock.bytes i hlt
      rw [Nat.zero_add, hnul] at hbyte
      have hx : fullBlock.bytes[i] = 120 := List.getElem_replicate _
      rw [hx] at hbyte
      cases hbyte
    · have hlength := length_fullBlock
      have hend : i = defaultsBufferBytes - 1 := by omega
      rw [write_outside _ _ _ _ (Or.inr (by omega)), hend, hlast] at hnul
      exact hnul
  · intro hlast evs t hr _
    have hstart : lastByte (Tftp.init maxKernelSize offset text).server = 0 := write_nul hlast 0
    exact ⟨defaultsBufferBytes - 1, by decide, run_invariant_all step_lastByte hstart hr⟩

/-- A refused inject push leaves the armed injection as it was just if none is armed, or the bytes
it has brought are those of the armed text. The buffer has a NUL in every state with an injection
armed just if its last byte is a NUL from the start. -/
theorem refused_inject_iff (maxKernelSize : KernelMaxSize) (offset : Nat) (text : Mem UInt8) :
    (∀ evs t, run step (Tftp.init maxKernelSize offset text) evs = some t →
      ∀ pushed u data, RefusedPush t pushed u data →
        (LeavesArmed t u ↔
          t.server.injectPending = false ∨ Repeats (bufferText t.server) data)) ∧
      ((∀ evs t, run step (Tftp.init maxKernelSize offset text) evs = some t →
        t.server.injectPending = true → Terminated t.server) ↔
          text (defaultsBufferBytes - 1) = 0) := by
  refine ⟨fun evs t hr pushed u data hpush => ?_, terminated_iff maxKernelSize offset text⟩
  have hc : Consistent t.server t.daemon.phase := run_invariant_all
    (I := fun t => Consistent t.server t.daemon.phase)
    (fun t ev u hc hu => (step_moves hc hu).2) (consistent_init maxKernelSize offset text) hr
  exact leavesArmed_iff (pushed_of_refused hc hpush)

def longPush (first block : Block) : List Event :=
  [(.fileCreate injectFileName, fineEnv), (.fileWrite first, fineEnv), (.fileWrite block, fineEnv)]

theorem longPush_refused {t : Tftp} (hidle : t.daemon.phase = .idle) (hm : t.server.mode = .modeNone)
    {first block : Block} (hfits : first.bytes.length ≤ defaultsBufferBytes - 1)
    (hlong : defaultsBufferBytes - 1 < block.bytes.length) :
    ∃ u, RefusedPush t (longPush first block) u first.bytes := by
  let v : Server :=
    { t.server with
      injectFill := 0
      injectText := write t.server.injectText 0 [0]
      mode := .modeInject }
  let w : Server :=
    { v with
      injectText := write v.injectText 0 first.bytes
      injectFill := 0 + first.bytes.length }
  have hcreate : fileCreate fineEnv injectFileName t.server = (true, v) := by
    rw [fileCreate, if_neg (not_not.mpr hm), if_pos rfl]
  have htake : fileWrite fineEnv first v = ((first.bytes.length : Int), w) := by
    apply if_neg
    rw [Nat.zero_add]
    exact Nat.not_lt.mpr hfits
  have hrefuse : fileWrite fineEnv block w = (-1, { w with mode := .modeNone }) := by
    apply if_pos
    omega
  have hfirst : step t (.fileCreate injectFileName, fineEnv) =
      some ⟨v, .receiving injectFileName [], t.daemon.finished⟩ := by
    simp [step, reply, call, hcreate, Daemon.next, hidle]
  have hsecond : step ⟨v, .receiving injectFileName [], t.daemon.finished⟩ (.fileWrite first, fineEnv) =
      some ⟨w, .receiving injectFileName first.bytes, t.daemon.finished⟩ := by
    simp [step, reply, call, htake, Daemon.next]
  have hthird : step ⟨w, .receiving injectFileName first.bytes, t.daemon.finished⟩
      (.fileWrite block, fineEnv) =
      some ⟨{ w with mode := .modeNone }, .refused injectFileName first.bytes false,
        t.daemon.finished⟩ := by
    simp [step, reply, call, hrefuse, Daemon.next]
  refine ⟨_, hidle, ⟨fineEnv, _, rfl, fun ev hev => ?_⟩,
    run_cons_some.mpr ⟨_, hfirst, run_cons_some.mpr ⟨_, hsecond, run_cons_some.mpr ⟨_, hthird, rfl⟩⟩⟩,
    rfl⟩
  obtain rfl | hev := List.mem_cons.mp hev
  · rfl
  · rw [List.mem_singleton.mp hev]
    rfl

def longBlock : Block := bytesBlock defaultsBufferBytes (by decide)

theorem length_longBlock : defaultsBufferBytes - 1 < longBlock.bytes.length :=
  Nat.lt_of_lt_of_eq (by decide) List.length_replicate.symm

def armedPush : List Event := push injectFileName TftpInject.argString .statusWriteCompleted

theorem armedPush_armed : ∃ t, run step (Tftp.init smallMax 0 (fun _ => 0)) armedPush = some t ∧
    t.server.kernelClosed = false ∧ t.daemon.phase = .idle ∧ t.server.mode = .modeNone ∧
    t.server.injectPending = true ∧ bufferText t.server = ascii "-v 1" :=
  ⟨_, rfl, rfl, rfl, rfl, rfl, by decide +kernel⟩

/-- The refused push repeats the armed text first. -/
theorem refused_inject_iff_same :
    ∃ t u, run step (Tftp.init smallMax 0 (fun _ => 0)) armedPush = some t ∧
      t.server.injectPending = true ∧
      RefusedPush t (longPush TftpInject.textBlock longBlock) u (ascii "-v 1") ∧ LeavesArmed t u := by
  obtain ⟨t, hr, -, hidle, hm, hpending, htext⟩ := armedPush_armed
  obtain ⟨u, hpush⟩ :=
    @longPush_refused t hidle hm TftpInject.textBlock longBlock (by decide) length_longBlock
  have hiff := (refused_inject_iff smallMax 0 (fun _ => 0)).1 armedPush t hr _ u _ hpush
  refine ⟨t, u, hr, hpending, hpush, hiff.mpr (Or.inr ?_)⟩
  rw [htext]
  exact ⟨Or.inl (List.prefix_append _ _), fun hnil => absurd hnil (by decide)⟩

def otherBlock : Block := ⟨ascii "-w", by decide⟩

/-- The text of a completed push is gone once a push behind it is refused. -/
theorem refused_inject_disarms :
    ¬ ∀ (maxKernelSize : KernelMaxSize) (offset : Nat) (text : Mem UInt8) (evs : List Event)
      (t : Tftp), run step (Tftp.init maxKernelSize offset text) evs = some t →
        (∀ pushed u data, RefusedPush t pushed u data → LeavesArmed t u) ∧
          (t.server.injectPending = true → Terminated t.server) := by
  intro hall
  obtain ⟨t, hr, hc, hidle, hm, hpending, htext⟩ := armedPush_armed
  have hcons : Consistent t.server t.daemon.phase := by
    rw [hidle]
    exact ⟨hc, Or.inl hm⟩
  obtain ⟨u, hpush⟩ := @longPush_refused t hidle hm otherBlock longBlock (by decide) length_longBlock
  have hleaves := (hall smallMax 0 (fun _ => 0) _ t hr).1 _ u _ hpush
  have hcase := (leavesArmed_iff (pushed_of_refused hcons hpush)).mp hleaves
  rw [hpending, htext] at hcase
  obtain ⟨hrepeats, -⟩ := hcase.resolve_left Bool.noConfusion
  revert hrepeats
  decide

end RapiBootloader.TftpRefused
