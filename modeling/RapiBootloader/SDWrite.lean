import RapiBootloader.TftpDaemon
import RapiBootloader.Lib.Batch

namespace RapiBootloader.SDWrite

open Lib.Memory Lib.Strings Lib.Batch DefaultsBlock ChainBoot Card TftpServer TftpDaemon

theorem giveUp_refused (s : Server) : ¬ 0 ≤ (giveUp s).1 := (by decide : ¬ (0 : Int) ≤ -1)

theorem copyIn_accepted (bytes : List UInt8) (s : Server) : 0 ≤ (copyIn bytes s).1 :=
  Int.natCast_nonneg bytes.length

theorem fileWrite_sd {s : Server} (h : s.mode = .modeSDWrite) (e : Env) (block : Block) :
    fileWrite e block s = sdWrite e block.bytes s := by
  rw [fileWrite, h]
  rfl

def feedSD : List (Env × List UInt8) → Server → Bool × Server
  | [], s => (true, s)
  | (e, bytes) :: chunks, s =>
    if 0 ≤ (sdWrite e bytes s).1 then feedSD chunks (sdWrite e bytes s).2
    else (false, (sdWrite e bytes s).2)

def writtenBy : CardCall → List UInt8
  | .write bytes _ written => bytes.take written
  | _ => []

def onCard (calls : List CardCall) : List UInt8 := calls.flatMap writtenBy

def batched (s : Server) : List UInt8 := read (s.writeBuf.getD (fun _ => 0)) 0 s.writeBufFill

def sdWriter (base : Nat) (s : Server) (failed : Bool) : Writer UInt8 :=
  ⟨onCard (s.calls.drop base), batched s, failed⟩

structure Open (base : Nat) (s : Server) : Prop where
  base : base ≤ s.calls.length
  empty : s.writeBuf = none → s.writeBufFill = 0

theorem onCard_append (calls more : List CardCall) :
    onCard (calls ++ more) = onCard calls ++ onCard more := List.flatMap_append

theorem length_batched (s : Server) : (batched s).length = s.writeBufFill := length_read _ _ _

theorem batched_empty {s : Server} (h : s.writeBufFill = 0) : batched s = [] :=
  List.eq_nil_of_length_eq_zero ((length_batched s).trans h)

theorem flushWriteBuf_some (e : Env) {s : Server} (h : s.writeBufFill ≠ 0) :
    flushWriteBuf e s = (e.card.writeResult = .frOk && e.card.written = s.writeBufFill,
      { s with
        writeBufFill := 0
        calls := s.calls ++ [.write (batched s) e.card.writeResult e.card.written] }) := if_neg h

theorem flushWriteBuf_open {base : Nat} (e : Env) {s : Server} (h : Open base s) :
    Open base (flushWriteBuf e s).2 ∧ (flushWriteBuf e s).2.writeBuf = s.writeBuf ∧
      (flushWriteBuf e s).2.writeBufFill = 0 := by
  by_cases hfill : s.writeBufFill = 0
  · rw [flushWriteBuf, if_pos hfill]
    exact ⟨h, rfl, hfill⟩
  · rw [flushWriteBuf_some e hfill]
    refine ⟨⟨?_, fun _ => rfl⟩, rfl, rfl⟩
    rw [List.length_append]
    exact Nat.le_add_right_of_le h.base

theorem flushWriteBuf_file {base : Nat} (e : Env) {s : Server} (h : Open base s) :
    onCard ((flushWriteBuf e s).2.calls.drop base) =
      onCard (s.calls.drop base) ++ (batched s).take e.card.written := by
  by_cases hfill : s.writeBufFill = 0
  · rw [flushWriteBuf, if_pos hfill, batched_empty hfill, List.take_nil, List.append_nil]
  · have hwrite : onCard [.write (batched s) e.card.writeResult e.card.written] =
        (batched s).take e.card.written := by simp [onCard, writtenBy]
    rw [flushWriteBuf_some e hfill, List.drop_append_of_le_length h.base, onCard_append, hwrite]

theorem flushWriteBuf_move {base : Nat} (e : Env) {s : Server} (h : Open base s) :
    Move writeBufSize (sdWriter base s false) []
      (sdWriter base (flushWriteBuf e s).2 (!(flushWriteBuf e s).1)) := by
  have hempty : batched (flushWriteBuf e s).2 = [] := batched_empty (flushWriteBuf_open e h).2.2
  simp only [sdWriter, hempty, flushWriteBuf_file e h]
  cases hok : (flushWriteBuf e s).1 with
  | true =>
    have hall : (batched s).take e.card.written = batched s := by
      by_cases hfill : s.writeBufFill = 0
      · rw [batched_empty hfill, List.take_nil]
      · rw [flushWriteBuf_some e hfill, Bool.and_eq_true, decide_eq_true_iff,
          decide_eq_true_iff] at hok
        rw [hok.2, ← length_batched, List.take_length]
    rw [hall]
    exact @Move.flush _ writeBufSize (sdWriter base s false) rfl
  | false => exact @Move.fail _ writeBufSize (sdWriter base s false) e.card.written rfl

theorem batched_copied {s : Server} (h : s.writeBuf.isSome = true) (bytes : List UInt8) :
    batched { s with
      writeBuf := s.writeBuf.map (fun m => write m s.writeBufFill bytes)
      writeBufFill := s.writeBufFill + bytes.length } = batched s ++ bytes := by
  obtain ⟨m, hm⟩ := Option.isSome_iff_exists.mp h
  have hread := read_write_end m 0 s.writeBufFill bytes
  rw [Nat.zero_add] at hread
  simpa [batched, hm] using hread

theorem copy_move {base : Nat} {s : Server} (h : s.writeBuf.isSome = true) {bytes : List UInt8}
    (hfit : s.writeBufFill + bytes.length ≤ writeBufSize) :
    Move writeBufSize (sdWriter base s false) bytes (sdWriter base (copyIn bytes s).2 false) := by
  have htake := @Move.take _ writeBufSize (sdWriter base s false) bytes rfl
    (by rwa [sdWriter, length_batched])
  have hbuffer := batched_copied h bytes
  simp only [sdWriter, copyIn] at htake ⊢
  rwa [hbuffer]

theorem copyIn_open {base : Nat} {s : Server} (h : Open base s) (hsome : s.writeBuf.isSome = true)
    (bytes : List UInt8) : Open base (copyIn bytes s).2 := by
  refine ⟨h.base, fun hnone => ?_⟩
  rw [copyIn, Option.map_eq_none_iff] at hnone
  rw [hnone] at hsome
  cases hsome

theorem giveUp_open {base : Nat} {s : Server} (h : Open base s) : Open base (giveUp s).2 := by
  refine ⟨?_, h.empty⟩
  rw [giveUp, List.length_append]
  exact Nat.le_add_right_of_le h.base

theorem sdWriter_close {base : Nat} {s : Server} (h : Open base s) (mode : TMode) (failed : Bool) :
    sdWriter base { s with mode := mode, calls := s.calls ++ [.close] } failed =
      sdWriter base s failed := by
  have hdrop : (s.calls ++ [CardCall.close]).drop base = s.calls.drop base ++ [.close] :=
    List.drop_append_of_le_length h.base
  have hclose : onCard [.close] = [] := rfl
  simp only [sdWriter, hdrop, onCard_append, hclose, List.append_nil]
  rfl

inductive Taken (e : Env) (bytes : List UInt8) (s : Server) : Int × Server → Prop
  | unbuffered (h : s.writeBuf = none) : Taken e bytes s (giveUp s)
  | refused (h : (flushWriteBuf e s).1 = false) : Taken e bytes s (giveUp (flushWriteBuf e s).2)
  | flushed (h : s.writeBuf.isSome = true) (hok : (flushWriteBuf e s).1 = true) :
      Taken e bytes s (copyIn bytes (flushWriteBuf e s).2)
  | copied (h : s.writeBuf.isSome = true) (hfit : s.writeBufFill + bytes.length ≤ writeBufSize) :
      Taken e bytes s (copyIn bytes s)

theorem sdWrite_taken (e : Env) (bytes : List UInt8) (s : Server) :
    Taken e bytes s (sdWrite e bytes s) := by
  unfold sdWrite
  split
  · exact .unbuffered ‹_›
  · rename_i m hbuf
    have hsome : s.writeBuf.isSome = true := by rw [hbuf]; rfl
    by_cases hfull : s.writeBufFill + bytes.length > writeBufSize
    · rw [if_pos hfull]
      dsimp only
      cases hok : (flushWriteBuf e s).1 with
      | false => exact .refused hok
      | true => exact .flushed hsome hok
    · rw [if_neg hfull]
      exact .copied hsome (Nat.not_lt.mp hfull)

/-- A chunk is taken as a whole or nothing of it is. -/
theorem sdWrite_moves {base : Nat} (e : Env) {bytes : List UInt8} {s : Server} (h : Open base s)
    (hshort : bytes.length ≤ writeBufSize) :
    Open base (sdWrite e bytes s).2 ∧
      if 0 ≤ (sdWrite e bytes s).1 then
        Moves writeBufSize (sdWriter base s false) bytes (sdWriter base (sdWrite e bytes s).2 false)
      else
        Moves writeBufSize (sdWriter base s false) [] (sdWriter base (sdWrite e bytes s).2 true) := by
  have htaken := sdWrite_taken e bytes s
  generalize sdWrite e bytes s = r at htaken ⊢
  have hflush := flushWriteBuf_move e h
  obtain ⟨hopen, hkept, hzero⟩ := flushWriteBuf_open e h
  cases htaken with
  | unbuffered hnone =>
    have hempty : batched s = [] := batched_empty (h.empty hnone)
    have hfail := @Move.fail _ writeBufSize (sdWriter base s false) 0 rfl
    refine ⟨giveUp_open h, ?_⟩
    rw [if_neg (giveUp_refused _), giveUp, sdWriter_close h]
    simpa [sdWriter, hempty] using hfail.moves
  | refused hbad =>
    rw [hbad] at hflush
    refine ⟨giveUp_open hopen, ?_⟩
    rw [if_neg (giveUp_refused _), giveUp, sdWriter_close hopen]
    exact hflush.moves
  | flushed hsome hok =>
    have hsome' : (flushWriteBuf e s).2.writeBuf.isSome = true := by rwa [hkept]
    have hcopy := @copy_move base _ hsome' bytes (by rw [hzero]; omega)
    rw [hok] at hflush
    refine ⟨copyIn_open hopen hsome' bytes, ?_⟩
    rw [if_pos (copyIn_accepted _ _)]
    exact hflush.moves.trans hcopy.moves
  | copied hsome hfit =>
    refine ⟨copyIn_open h hsome bytes, ?_⟩
    rw [if_pos (copyIn_accepted _ _)]
    exact (copy_move hsome hfit).moves

def data (chunks : List (Env × List UInt8)) : List UInt8 := chunks.flatMap Prod.snd

theorem feedSD_moves {base : Nat} {chunks : List (Env × List UInt8)} {s : Server} (h : Open base s)
    (hshort : ∀ c ∈ chunks, c.2.length ≤ writeBufSize) :
    ∃ taken, Moves writeBufSize (sdWriter base s false) taken
        (sdWriter base (feedSD chunks s).2 (!(feedSD chunks s).1)) ∧
      Open base (feedSD chunks s).2 ∧ taken <+: data chunks ∧
      ((feedSD chunks s).1 = true → taken = data chunks) := by
  induction chunks generalizing s with
  | nil => exact ⟨[], .refl, h, List.nil_prefix, fun _ => rfl⟩
  | cons c chunks ih =>
    obtain ⟨e, bytes⟩ := c
    obtain ⟨hopen, hmoves⟩ := @sdWrite_moves base e bytes s h (hshort _ List.mem_cons_self)
    by_cases hok : 0 ≤ (sdWrite e bytes s).1
    · have hfeed : feedSD ((e, bytes) :: chunks) s = feedSD chunks (sdWrite e bytes s).2 := if_pos hok
      obtain ⟨taken, hrest, hlast, hpart, hall⟩ :=
        ih hopen (fun c hc => hshort c (List.mem_cons_of_mem _ hc))
      rw [if_pos hok] at hmoves
      rw [hfeed]
      refine ⟨bytes ++ taken, hmoves.trans hrest, hlast, ?_, fun hdone => ?_⟩
      · exact (List.prefix_append_right_inj bytes).mpr hpart
      · rw [hall hdone]
        rfl
    · have hfeed : feedSD ((e, bytes) :: chunks) s = (false, (sdWrite e bytes s).2) := if_neg hok
      rw [if_neg hok] at hmoves
      rw [hfeed]
      exact ⟨[], hmoves, hopen, List.nil_prefix, fun hdone => Bool.noConfusion hdone⟩

def Clean (calls : List CardCall) : Prop :=
  ∀ bytes result written, CardCall.write bytes result written ∈ calls → result = .frOk

theorem clean_append {calls more : List CardCall} :
    Clean (calls ++ more) ↔ Clean calls ∧ Clean more := by
  simp only [Clean, List.mem_append, or_imp, forall_and]

theorem clean_write (bytes : List UInt8) (result : FResult) (written : Nat) :
    Clean [.write bytes result written] ↔ result = .frOk := by
  constructor
  · intro h
    exact h bytes result written List.mem_cons_self
  · intro h _ _ _ hw
    cases List.mem_singleton.mp hw
    exact h

theorem flushWriteBuf_clean {base : Nat} (e : Env) {s : Server} (h : Open base s) :
    Clean ((flushWriteBuf e s).2.calls.drop base) ↔
      Clean (s.calls.drop base) ∧ (s.writeBufFill = 0 ∨ e.card.writeResult = .frOk) := by
  by_cases hfill : s.writeBufFill = 0
  · rw [flushWriteBuf, if_pos hfill]
    exact ⟨fun hclean => ⟨hclean, Or.inl hfill⟩, And.left⟩
  · rw [flushWriteBuf_some e hfill, List.drop_append_of_le_length h.base, clean_append, clean_write]
    simp only [hfill, false_or]

theorem flushWriteBuf_ok {e : Env} {s : Server} (h : (flushWriteBuf e s).1 = true) :
    s.writeBufFill = 0 ∨ e.card.writeResult = .frOk := by
  by_cases hfill : s.writeBufFill = 0
  · exact Or.inl hfill
  · rw [flushWriteBuf_some e hfill, Bool.and_eq_true, decide_eq_true_iff] at h
    exact Or.inr h.1

/-- The state of an upload behind blocks that were accepted. -/
structure Accepting (base : Nat) (s : Server) : Prop where
  mode : s.mode = .modeSDWrite
  opened : Open base s
  clean : Clean (s.calls.drop base)

theorem accepting_write {base : Nat} {e : Env} {bytes : List UInt8} {s : Server}
    (h : Accepting base s) (hok : 0 ≤ (sdWrite e bytes s).1) :
    Accepting base (sdWrite e bytes s).2 := by
  have htaken := sdWrite_taken e bytes s
  generalize sdWrite e bytes s = r at htaken hok ⊢
  obtain ⟨hopen, hkept, -⟩ := flushWriteBuf_open e h.opened
  cases htaken with
  | unbuffered | refused => exact absurd hok (giveUp_refused _)
  | flushed hsome hflush =>
    have hclean := (flushWriteBuf_clean e h.opened).mpr ⟨h.clean, flushWriteBuf_ok hflush⟩
    refine ⟨(flushWriteBuf_same e s).2.2.trans h.mode, ?_, hclean⟩
    exact copyIn_open hopen (by rwa [hkept]) bytes
  | copied hsome => exact ⟨h.mode, copyIn_open h.opened hsome bytes, h.clean⟩

def chunk (b : Env × Block) : Env × List UInt8 := (b.1, b.2.bytes)

theorem feed_eq {base : Nat} {blocks : List (Env × Block)} {s : Server} (h : Accepting base s) :
    feed blocks s = feedSD (blocks.map chunk) s := by
  induction blocks generalizing s with
  | nil => rfl
  | cons b blocks ih =>
    obtain ⟨e, block⟩ := b
    simp only [List.map_cons, chunk, feedSD, feed, fileWrite_sd h.mode]
    split
    · rename_i hok
      exact ih (accepting_write h hok)
    · rfl

theorem feed_accepting {base : Nat} {blocks : List (Env × Block)} {s : Server}
    (h : Accepting base s) (hok : (feed blocks s).1 = true) : Accepting base (feed blocks s).2 := by
  rw [feed_eq h] at hok ⊢
  induction blocks generalizing s with
  | nil => exact h
  | cons b blocks ih =>
    simp only [List.map_cons, feedSD] at hok ⊢
    split at hok
    · rename_i hwrite
      rw [if_pos hwrite]
      exact ih (accepting_write h hwrite) hok
    · cases hok

def sent (blocks : List (Env × Block)) : List UInt8 := blocks.flatMap fun b => b.2.bytes

theorem fileCreate_sd {e : Env} {fileName : List UInt8} {s : Server}
    (hsd : kindOf fileName = some .sd) (hok : (fileCreate e fileName s).1 = true) :
    Accepting (fileCreate e fileName s).2.calls.length (fileCreate e fileName s).2 ∧
      (fileCreate e fileName s).2.writeBufFill = 0 := by
  have hfill : (fileCreate e fileName s).2.writeBufFill = 0 := by
    simp only [fileCreate] at hok ⊢
    by_cases hm : s.mode = .modeNone
    · rw [if_neg (not_not.mpr hm)] at hok ⊢
      by_cases hi : fileName = injectFileName
      · rw [kindOf, if_pos hi] at hsd
        cases hsd
      · rw [if_neg hi] at hok ⊢
        cases hp : mapSDPath fileName with
        | some path =>
          rw [hp] at hok
          simp only [createSD] at hok ⊢
          split at hok
          · cases hok
          · rw [if_neg ‹_›]
        | none =>
          rw [kindOf, if_neg hi, hp, Option.isSome_none, if_neg Bool.false_ne_true] at hsd
          split at hsd <;> cases hsd
    · rw [if_pos hm] at hok
      cases hok
  have hc := fileCreate_cases e fileName s
  rw [hsd, hok] at hc
  refine ⟨⟨?_, ⟨Nat.le_refl _, fun _ => hfill⟩, ?_⟩, hfill⟩
  · cases hc with
    | sd _ _ _ hm => exact hm
  · rw [List.drop_length]
    exact fun _ _ _ hw => absurd hw List.not_mem_nil

/-- These calls have put the bytes on the card and closed the file, with nothing going wrong.
`f_close` answers with `closeResult`. -/
structure Complete (calls : List CardCall) (closeResult : FResult) (bytes : List UInt8) : Prop where
  whole : onCard calls = bytes
  clean : Clean calls
  last : calls.getLast? = some .close
  closed : closeResult = .frOk

theorem fileClose_true (e : Env) (s : Server) : (fileClose e s).1 = true := rfl

theorem accepting_whole {blocks : List (Env × Block)} {s : Server} {base : Nat}
    (h : Accepting base s) (hbase : base = s.calls.length) (hempty : s.writeBufFill = 0)
    (hok : (feed blocks s).1 = true) :
    onCard ((feed blocks s).2.calls.drop base) ++ batched (feed blocks s).2 = sent blocks := by
  have hshort : ∀ c ∈ blocks.map chunk, c.2.length ≤ writeBufSize := by
    intro c hc
    obtain ⟨b, -, rfl⟩ := List.mem_map.mp hc
    exact b.2.short.trans (by decide)
  have hfresh : sdWriter base s false = Writer.empty := by
    rw [sdWriter, hbase, List.drop_length, batched_empty hempty]
    rfl
  obtain ⟨taken, hmoves, -, -, hall⟩ := feedSD_moves h.opened hshort
  rw [← feed_eq h, hok, hfresh] at hmoves
  rw [← feed_eq h] at hall
  have hsent : data (blocks.map chunk) = sent blocks := List.flatMap_map chunk Prod.snd blocks
  rw [← hsent, ← hall hok]
  exact hmoves.appends.whole rfl

theorem complete_close_iff {base : Nat} {s : Server} (h : Accepting base s) (e : Env)
    (closeResult : FResult) :
    Complete ((fileClose e s).2.calls.drop base) closeResult
        (onCard (s.calls.drop base) ++ batched s) ↔
      (s.writeBufFill = 0 ∨ e.card.writeResult = .frOk ∧ s.writeBufFill ≤ e.card.written) ∧
        closeResult = .frOk := by
  have hopen := (flushWriteBuf_open e h.opened).1.base
  have hcalls : (fileClose e s).2.calls.drop base =
      (flushWriteBuf e s).2.calls.drop base ++ [.close] := by
    have hclose : (fileClose e s).2.calls = (flushWriteBuf e s).2.calls ++ [.close] := by
      simp only [fileClose, h.mode]
    rw [hclose, List.drop_append_of_le_length hopen]
  have hfile : onCard ((fileClose e s).2.calls.drop base) =
      onCard (s.calls.drop base) ++ (batched s).take e.card.written := by
    rw [hcalls, onCard_append, flushWriteBuf_file e h.opened]
    exact List.append_nil _
  have hclean : Clean ((fileClose e s).2.calls.drop base) ↔
      (s.writeBufFill = 0 ∨ e.card.writeResult = .frOk) := by
    have hclose : Clean [.close] := by
      intro bytes result written hw
      cases List.mem_singleton.mp hw
    rw [hcalls, clean_append, flushWriteBuf_clean e h.opened]
    exact ⟨fun hc => hc.1.2, fun hc => ⟨⟨h.clean, hc⟩, hclose⟩⟩
  have hwhole : onCard ((fileClose e s).2.calls.drop base) = onCard (s.calls.drop base) ++ batched s ↔
      s.writeBufFill ≤ e.card.written := by
    rw [hfile, List.append_cancel_left_eq]
    constructor
    · intro htake
      have hlength := congrArg List.length htake
      rw [List.length_take, length_batched] at hlength
      omega
    · intro hfit
      exact List.take_of_length_le ((length_batched s).trans_le hfit)
  constructor
  · intro hc
    have hfit := hwhole.mp hc.whole
    exact ⟨(hclean.mp hc.clean).imp_right (fun hr => ⟨hr, hfit⟩), hc.closed⟩
  · rintro ⟨hflush, hclosed⟩
    refine ⟨hwhole.mpr ?_, hclean.mpr (hflush.imp_right And.left), ?_, hclosed⟩
    · obtain hzero | hok := hflush
      · exact hzero.trans_le (Nat.zero_le _)
      · exact hok.2
    · rw [hcalls]
      exact List.getLast?_concat

/-- `FileClose` says that an upload is done whether or not the last flush and `f_close` have
worked, so what it says holds just when they have. -/
theorem fileClose_complete_iff {e₀ : Env} {fileName : List UInt8} {s₀ : Server}
    (hsd : kindOf fileName = some .sd) (hopened : (fileCreate e₀ fileName s₀).1 = true)
    {blocks : List (Env × Block)} (haccepted : (feed blocks (fileCreate e₀ fileName s₀).2).1 = true)
    (e : Env) (closeResult : FResult) :
    ((fileClose e (feed blocks (fileCreate e₀ fileName s₀).2).2).1 = true →
        Complete ((fileClose e (feed blocks (fileCreate e₀ fileName s₀).2).2).2.calls.drop
          (fileCreate e₀ fileName s₀).2.calls.length) closeResult (sent blocks)) ↔
      ((feed blocks (fileCreate e₀ fileName s₀).2).2.writeBufFill = 0 ∨
          e.card.writeResult = .frOk ∧
            (feed blocks (fileCreate e₀ fileName s₀).2).2.writeBufFill ≤ e.card.written) ∧
        closeResult = .frOk := by
  obtain ⟨hopen, hempty⟩ := fileCreate_sd hsd hopened
  have hclose := complete_close_iff (feed_accepting hopen haccepted) e closeResult
  rw [accepting_whole hopen rfl hempty haccepted] at hclose
  exact (imp_iff_right (fileClose_true e _)).trans hclose

def hiBlock : Block := ⟨ascii "hi", by decide⟩

def roomEnv : Env := { fineEnv with card := ⟨.frOk, .frOk, 2, .frOk, []⟩ }

theorem fileClose_complete_hi :
    Complete [.write (ascii "hi") .frOk 2, .close] .frOk (ascii "hi") :=
  (@fileClose_complete_iff fineEnv (ascii "sd/a") (Server.init smallMax 0 (fun _ => 0))
    (by decide) rfl [(fineEnv, hiBlock)] rfl roomEnv .frOk).mpr
      ⟨Or.inr ⟨rfl, by decide⟩, rfl⟩ rfl

/-- A card that is full when the only flush comes. -/
theorem fileClose_incomplete :
    ¬ ∀ (e₀ : Env) (fileName : List UInt8) (s₀ : Server), kindOf fileName = some .sd →
      (fileCreate e₀ fileName s₀).1 = true → ∀ blocks : List (Env × Block),
        (feed blocks (fileCreate e₀ fileName s₀).2).1 = true → ∀ (e : Env) (closeResult : FResult),
          (fileClose e (feed blocks (fileCreate e₀ fileName s₀).2).2).1 = true →
            Complete ((fileClose e (feed blocks (fileCreate e₀ fileName s₀).2).2).2.calls.drop
              (fileCreate e₀ fileName s₀).2.calls.length) closeResult (sent blocks) := by
  intro hall
  have hwhole := (hall fineEnv (ascii "sd/a") (Server.init smallMax 0 (fun _ => 0)) (by decide) rfl
    [(fineEnv, hiBlock)] rfl fineEnv .frOk rfl).whole
  revert hwhole
  decide

end RapiBootloader.SDWrite
