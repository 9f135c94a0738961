import RapiBootloader.SDWrite
import RapiBootloader.WebDavBatch

namespace RapiBootloader.Batchers

open Lib.Memory Lib.Strings Lib.Batch Card TftpServer SDWrite WebDavPut WebDavBatch

def putWriter (base : Nat) (u : Put) (failed : Bool) : Writer UInt8 :=
  ⟨stored (u.calls.drop base), pending u.dav, failed⟩

structure OpenPut (base : Nat) (u : Put) : Prop where
  base : base ≤ u.calls.length
  room : u.dav.writeBufFill < WebDavServer.writeBufSize
  empty : u.dav.writeBuf = none → u.dav.writeBufFill = 0

def feedPut (a : PutAnswers) : List (List UInt8) → Put → Bool × Put
  | [], u => (true, u)
  | bytes :: chunks, u =>
    if (writePutChunk a bytes u).1 then feedPut a chunks (writePutChunk a bytes u).2
    else (false, (writePutChunk a bytes u).2)

theorem flushPutBuf_some (a : PutAnswers) {u : Put} (h : u.dav.writeBufFill ≠ 0) :
    flushPutBuf a u =
      (decide ((a.writes u.writes).1 = .frOk ∧
          min (a.writes u.writes).2 u.dav.writeBufFill = u.dav.writeBufFill),
        { u with
          dav := { u.dav with writeBufFill := 0 }
          calls := u.calls ++ [.card (.write (pending u.dav) (a.writes u.writes).1
            (min (a.writes u.writes).2 u.dav.writeBufFill))]
          writes := u.writes + 1 }) := if_neg h

theorem flushPutBuf_open {base : Nat} (a : PutAnswers) {u : Put} (h : base ≤ u.calls.length) :
    OpenPut base (flushPutBuf a u).2 ∧ (flushPutBuf a u).2.dav.writeBuf = u.dav.writeBuf ∧
      (flushPutBuf a u).2.dav.writeBufFill = 0 := by
  by_cases hfill : u.dav.writeBufFill = 0
  · rw [flushPutBuf, if_pos hfill]
    refine ⟨⟨h, ?_, fun _ => hfill⟩, rfl, hfill⟩
    rw [hfill]
    exact Nat.succ_pos _
  · rw [flushPutBuf_some a hfill]
    refine ⟨⟨?_, Nat.succ_pos _, fun _ => rfl⟩, rfl, rfl⟩
    rw [List.length_append]
    exact Nat.le_add_right_of_le h

theorem flushPutBuf_move {base cap : Nat} (a : PutAnswers) {u : Put} (h : base ≤ u.calls.length) :
    Move cap (putWriter base u false) []
      (putWriter base (flushPutBuf a u).2 (!(flushPutBuf a u).1)) := by
  have hempty : pending (flushPutBuf a u).2.dav = [] := pending_empty (flushPutBuf_open a h).2.2
  simp only [putWriter, hempty]
  by_cases hfill : u.dav.writeBufFill = 0
  · have hflush := @Move.flush _ cap (putWriter base u false) rfl
    rw [putWriter, pending_empty hfill, List.append_nil] at hflush
    rw [flushPutBuf, if_pos hfill, pending_empty hfill]
    exact hflush
  · have hlen := length_pending u.dav
    rw [flushPutBuf_some a hfill, List.drop_append_of_le_length h, stored_append, stored_write]
    by_cases hok : (a.writes u.writes).1 = .frOk ∧
        min (a.writes u.writes).2 u.dav.writeBufFill = u.dav.writeBufFill
    · rw [decide_eq_true hok, hok.2, ← hlen, List.take_length]
      exact @Move.flush _ cap (putWriter base u false) rfl
    · rw [decide_eq_false hok]
      exact @Move.fail _ cap (putWriter base u false) _ rfl

theorem copied_move {base : Nat} {u : Put} (h : u.dav.writeBuf.isSome = true) {bytes : List UInt8}
    (hfit : u.dav.writeBufFill + bytes.length ≤ TftpServer.writeBufSize) :
    Move TftpServer.writeBufSize (putWriter base u false) bytes
      (putWriter base (copied u bytes) false) := by
  have htake := @Move.take _ TftpServer.writeBufSize (putWriter base u false) bytes rfl
    (by rwa [putWriter, length_pending])
  have hbuffer := pending_copied h bytes
  simp only [putWriter] at htake ⊢
  rwa [hbuffer]

theorem copied_isSome {u : Put} (h : u.dav.writeBuf.isSome = true) (bytes : List UInt8) :
    (copied u bytes).dav.writeBuf.isSome = true := by
  rw [copied, Option.isSome_map]
  exact h

/-- What has become of `data` on the way into an upload that has passed from `u` to `v`. -/
structure Took (base : Nat) (u v : Put) (ok : Bool) (data : List UInt8) : Prop where
  opened : OpenPut base v
  moves : ∃ taken, Moves TftpServer.writeBufSize (putWriter base u false) taken
    (putWriter base v (!ok)) ∧ taken <+: data ∧ (ok = true → taken = data)

theorem Took.behind {base : Nat} {u v w : Put} {ok : Bool} {xs ys : List UInt8}
    (h : Moves TftpServer.writeBufSize (putWriter base u false) xs (putWriter base v false))
    (h' : Took base v w ok ys) : Took base u w ok (xs ++ ys) := by
  obtain ⟨taken, hmoves, hpart, hall⟩ := h'.moves
  refine ⟨h'.opened, xs ++ taken, h.trans hmoves, ?_, fun hok => ?_⟩
  · exact (List.prefix_append_right_inj xs).mpr hpart
  · rw [hall hok]

/-- A chunk fills the batch up, and what is left of it the next one. -/
theorem copyLoop_took {base : Nat} {a : PutAnswers} (turns : Nat) {u : Put} {data : List UInt8}
    (h : OpenPut base u) (hbuf : u.dav.writeBuf.isSome = true) (hturns : data.length < turns) :
    Took base u (copyLoop a turns data u).2 (copyLoop a turns data u).1 data := by
  induction turns generalizing u data with
  | zero => exact absurd hturns (Nat.not_lt_zero _)
  | succ turns ih =>
    have hroom := h.room
    rw [copyLoop]
    by_cases hnil : data = []
    · rw [if_pos hnil, hnil]
      exact ⟨h, [], .refl, List.nil_prefix, fun _ => rfl⟩
    rw [if_neg hnil]
    have hpos := List.length_pos_iff.mpr hnil
    generalize hcount : min data.length (WebDavServer.writeBufSize - u.dav.writeBufFill) = count
    have hlen : (data.take count).length = count := by
      rw [List.length_take]
      omega
    have hrest : (data.drop count).length < turns := by
      rw [List.length_drop]
      omega
    have hfill : (copied u (data.take count)).dav.writeBufFill = u.dav.writeBufFill + count :=
      congrArg (u.dav.writeBufFill + ·) hlen
    have hfit : u.dav.writeBufFill + (data.take count).length ≤ TftpServer.writeBufSize := by
      have hsize : WebDavServer.writeBufSize = TftpServer.writeBufSize := rfl
      omega
    have hcopy := @copied_move base _ hbuf _ hfit
    have hsome := copied_isSome hbuf (data.take count)
    dsimp only
    rw [hcount, hfill]
    by_cases hfull : u.dav.writeBufFill + count = WebDavServer.writeBufSize
    · have hflush := @flushPutBuf_move base TftpServer.writeBufSize a (copied u (data.take count)) h.base
      obtain ⟨hopen, hkept, -⟩ := @flushPutBuf_open base a (copied u (data.take count)) h.base
      have hmoves := hcopy.moves.trans hflush.moves
      rw [if_pos hfull]
      rw [List.append_nil] at hmoves
      generalize flushPutBuf a (copied u (data.take count)) = r at hopen hkept hmoves ⊢
      obtain ⟨ok, v⟩ := r
      cases ok with
      | false =>
        exact ⟨hopen, _, hmoves, List.take_prefix count data, fun hok => Bool.noConfusion hok⟩
      | true =>
        have hnext := Took.behind hmoves (ih hopen (by rwa [hkept]) hrest)
        rwa [List.take_append_drop] at hnext
    · rw [if_neg hfull]
      have hopen : OpenPut base (copied u (data.take count)) := by
        refine ⟨h.base, ?_, fun hnone => ?_⟩
        · rw [hfill]
          omega
        · rw [hnone] at hsome
          cases hsome
      have hnext := Took.behind hcopy.moves (ih hopen hsome hrest)
      rwa [List.take_append_drop] at hnext

theorem Took.changed {base : Nat} {u u' v : Put} {ok : Bool} {data : List UInt8}
    (hsame : putWriter base u' false = putWriter base u false) (h : Took base u' v ok data) :
    Took base u v ok data := by
  have hmoves := h.moves
  rw [hsame] at hmoves
  exact ⟨h.opened, hmoves⟩

theorem Took.logged {base : Nat} {u v : Put} {ok : Bool} {data : List UInt8}
    (h : Took base u v ok data) (chunks : List (List UInt8 × Bool)) :
    Took base u { v with chunks := chunks } ok data :=
  ⟨⟨h.opened.base, h.opened.room, h.opened.empty⟩, h.moves⟩

theorem writePutChunk_took {base : Nat} (a : PutAnswers) {u : Put} (h : OpenPut base u)
    (data : List UInt8) :
    Took base u (writePutChunk a data u).2 (writePutChunk a data u).1 data := by
  cases hbuf : u.dav.writeBuf with
  | some m =>
    have hsome : u.dav.writeBuf.isSome = true := by rw [hbuf]; rfl
    rw [writePutChunk_copies (by rw [hbuf]; rfl) hsome]
    exact (copyLoop_took _ h hsome (Nat.lt_succ_self _)).logged _
  | none =>
    have hfill := h.empty hbuf
    have hempty : pending u.dav = [] := pending_empty hfill
    have hnew : pending { u.dav with writeBuf := a.buffer } = [] := pending_empty hfill
    cases hheap : a.buffer with
    | some m =>
      have hsome : a.buffer.isSome = true := by rw [hheap]; rfl
      have hopen : OpenPut base { u with dav := { u.dav with writeBuf := a.buffer } } :=
        ⟨h.base, h.room, fun _ => hfill⟩
      have hsame : putWriter base { u with dav := { u.dav with writeBuf := a.buffer } } false =
          putWriter base u false := by simp only [putWriter, hempty, hnew]
      rw [writePutChunk_copies (w := { u with dav := { u.dav with writeBuf := a.buffer } })
        (by rw [hbuf]; rfl) hsome]
      exact (Took.changed hsame (copyLoop_took _ hopen hsome (Nat.lt_succ_self _))).logged _
    | none =>
      have hrefuse : writePutChunk a data u =
          (false, { u with
            dav := { u.dav with writeBuf := a.buffer }
            chunks := u.chunks ++ [(data, false)] }) := by
        rw [writePutChunk, hbuf, hheap]
        rfl
      have hfail := @Move.fail _ TftpServer.writeBufSize (putWriter base u false) 0 rfl
      rw [putWriter, hempty, List.take_nil, List.append_nil] at hfail
      rw [hrefuse]
      refine ⟨⟨h.base, h.room, fun _ => hfill⟩, [], ?_, List.nil_prefix, fun hok => Bool.noConfusion hok⟩
      simp only [putWriter, hempty, hnew]
      exact hfail.moves

theorem feedPut_took {base : Nat} (a : PutAnswers) {chunks : List (List UInt8)} {u : Put}
    (h : OpenPut base u) :
    Took base u (feedPut a chunks u).2 (feedPut a chunks u).1 chunks.flatten := by
  induction chunks generalizing u with
  | nil => exact ⟨h, [], .refl, List.nil_prefix, fun _ => rfl⟩
  | cons bytes chunks ih =>
    have htook := writePutChunk_took a h bytes
    obtain ⟨taken, hmoves, hpart, hall⟩ := htook.moves
    rw [List.flatten_cons]
    by_cases hok : (writePutChunk a bytes u).1 = true
    · have hfeed : feedPut a (bytes :: chunks) u = feedPut a chunks (writePutChunk a bytes u).2 :=
        if_pos hok
      rw [hok, hall hok] at hmoves
      rw [hfeed]
      exact Took.behind hmoves (ih htook.opened)
    · have hfeed : feedPut a (bytes :: chunks) u = (false, (writePutChunk a bytes u).2) := if_neg hok
      rw [Bool.not_eq_true] at hok
      rw [hok] at hmoves
      rw [hfeed]
      exact ⟨htook.opened, taken, hmoves, hpart.trans (List.prefix_append _ _),
        fun hok => Bool.noConfusion hok⟩

/-- The last flush, which `FileClose` makes when every block was taken. -/
def sdFlush (e : Env) (r : Bool × Server) : Bool × Server := if r.1 then flushWriteBuf e r.2 else r

/-- The last flush, which `DoPut` makes when every chunk was taken. -/
def putFlush (a : PutAnswers) (r : Bool × Put) : Bool × Put := if r.1 then flushPutBuf a r.2 else r

/-- A batcher that was to write `bytes` does what appending them does: `fed` is what it has come
to behind the last chunk it took, and `flushed` behind the last flush. -/
structure AppendsAll (bytes : List UInt8) (fed flushed : Writer UInt8) : Prop where
  moves : ∃ taken, Moves TftpServer.writeBufSize Writer.empty taken fed ∧ taken <+: bytes
  room : fed.buffer.length ≤ TftpServer.writeBufSize
  whole : fed.failed = false → fed.file ++ fed.buffer = bytes
  done : flushed.failed = false → flushed.file = bytes
  part : flushed.file <+: bytes

theorem appendsAll_of_moves {bytes taken : List UInt8} {fed flushed : Writer UInt8}
    (hmoves : Moves TftpServer.writeBufSize Writer.empty taken fed) (hpart : taken <+: bytes)
    (hall : fed.failed = false → taken = bytes)
    (hlast : if fed.failed then flushed = fed
      else Move TftpServer.writeBufSize fed [] flushed ∧ flushed.buffer = []) :
    AppendsAll bytes fed flushed := by
  have hfed := hmoves.appends
  have hwhole : fed.failed = false → fed.file ++ fed.buffer = bytes :=
    fun hok => (hfed.whole hok).trans (hall hok)
  cases hbad : fed.failed with
  | true =>
    rw [hbad, if_pos rfl] at hlast
    rw [hlast]
    refine ⟨⟨taken, hmoves, hpart⟩, hfed.room, hwhole, fun hok => ?_, hfed.part.trans hpart⟩
    rw [hbad] at hok
    cases hok
  | false =>
    rw [hbad, if_neg Bool.false_ne_true] at hlast
    have hflush := hfed.move hlast.1
    rw [List.append_nil, hall hbad] at hflush
    refine ⟨⟨taken, hmoves, hpart⟩, hfed.room, hwhole, fun hok => ?_, hflush.part⟩
    have hfile := hflush.whole hok
    rwa [hlast.2, List.append_nil] at hfile

theorem sd_appendsAll {chunks : List (Env × List UInt8)}
    (hshort : ∀ c ∈ chunks, c.2.length ≤ TftpServer.writeBufSize) {s : Server}
    (hs : s.writeBufFill = 0) (e : Env) :
    AppendsAll (data chunks) (sdWriter s.calls.length (feedSD chunks s).2 (!(feedSD chunks s).1))
      (sdWriter s.calls.length (sdFlush e (feedSD chunks s)).2
        (!(sdFlush e (feedSD chunks s)).1)) := by
  have hopen : Open s.calls.length s := ⟨Nat.le_refl _, fun _ => hs⟩
  have hempty : sdWriter s.calls.length s false = Writer.empty := by
    rw [sdWriter, List.drop_length, batched_empty hs]
    rfl
  obtain ⟨taken, hmoves, hlast, hpart, hall⟩ := feedSD_moves hopen hshort
  rw [hempty] at hmoves
  generalize feedSD chunks s = r at hmoves hlast hall ⊢
  obtain ⟨ok, t⟩ := r
  cases ok with
  | false => exact appendsAll_of_moves hmoves hpart (fun hok => Bool.noConfusion hok) rfl
  | true =>
    refine appendsAll_of_moves hmoves hpart (fun _ => hall rfl) ⟨flushWriteBuf_move e hlast, ?_⟩
    exact batched_empty (flushWriteBuf_open e hlast).2.2

theorem put_appendsAll (a : PutAnswers) {u : Put} (hu : u.dav.writeBufFill = 0)
    (pieces : List (List UInt8)) :
    AppendsAll pieces.flatten
      (putWriter u.calls.length (feedPut a pieces u).2 (!(feedPut a pieces u).1))
      (putWriter u.calls.length (putFlush a (feedPut a pieces u)).2
        (!(putFlush a (feedPut a pieces u)).1)) := by
  have hopen : OpenPut u.calls.length u := by
    refine ⟨Nat.le_refl _, ?_, fun _ => hu⟩
    rw [hu]
    exact Nat.succ_pos _
  have hempty : putWriter u.calls.length u false = Writer.empty := by
    rw [putWriter, List.drop_length, pending_empty hu]
    rfl
  have htook := @feedPut_took _ a pieces _ hopen
  obtain ⟨taken, hmoves, hpart, hall⟩ := htook.moves
  have hlast := htook.opened.base
  rw [hempty] at hmoves
  generalize feedPut a pieces u = r at hmoves hlast hall ⊢
  obtain ⟨ok, v⟩ := r
  cases ok with
  | false => exact appendsAll_of_moves hmoves hpart (fun hok => Bool.noConfusion hok) rfl
  | true =>
    refine appendsAll_of_moves hmoves hpart (fun _ => hall rfl) ⟨flushPutBuf_move a hlast, ?_⟩
    exact pending_empty (flushPutBuf_open a hlast).2.2

/-- Both batchers append, so they leave the same file for the same bytes, whatever the chunks. -/
theorem batchers_append {chunks : List (Env × List UInt8)}
    (hshort : ∀ c ∈ chunks, c.2.length ≤ TftpServer.writeBufSize) {s : Server}
    (hs : s.writeBufFill = 0) (e : Env) {u : Put} (hu : u.dav.writeBufFill = 0) (a : PutAnswers)
    (pieces : List (List UInt8)) :
    AppendsAll (data chunks) (sdWriter s.calls.length (feedSD chunks s).2 (!(feedSD chunks s).1))
        (sdWriter s.calls.length (sdFlush e (feedSD chunks s)).2 (!(sdFlush e (feedSD chunks s)).1)) ∧
      AppendsAll pieces.flatten
        (putWriter u.calls.length (feedPut a pieces u).2 (!(feedPut a pieces u).1))
        (putWriter u.calls.length (putFlush a (feedPut a pieces u)).2
          (!(putFlush a (feedPut a pieces u)).1)) ∧
      (data chunks = pieces.flatten → (sdFlush e (feedSD chunks s)).1 = true →
        (putFlush a (feedPut a pieces u)).1 = true →
          onCard ((sdFlush e (feedSD chunks s)).2.calls.drop s.calls.length) =
            stored ((putFlush a (feedPut a pieces u)).2.calls.drop u.calls.length)) := by
  have hsd := sd_appendsAll hshort hs e
  have hput := put_appendsAll a hu pieces
  refine ⟨hsd, hput, fun hsame hok hok' => ?_⟩
  have hfile := hsd.done (by rw [hok]; rfl)
  have hfile' := hput.done (by rw [hok']; rfl)
  exact hfile.trans (hsame.trans hfile'.symm)

def openedSD : Server :=
  { Server.init TftpDaemon.smallMax 0 (fun _ => 0) with
    mode := .modeSDWrite
    writeBuf := some (fun _ => 0) }

def openedPut : Put := ⟨blankWorker, [], 0, [], true, 0, false⟩

/-- One packet, and the same bytes one by one. -/
theorem batchers_append_hi :
    onCard ((sdFlush roomEnv (feedSD [(roomEnv, ascii "hi")] openedSD)).2.calls.drop 0) =
      stored ((putFlush (roomyCard .frOk)
        (feedPut (roomyCard .frOk) [ascii "h", ascii "i"] openedPut)).2.calls.drop 0) :=
  (@batchers_append [(roomEnv, ascii "hi")]
    (fun c hc => by rw [List.mem_singleton.mp hc]; decide) openedSD rfl roomEnv openedPut
    rfl (roomyCard .frOk) [ascii "h", ascii "i"]).2.2 (by decide) rfl (by decide)

end RapiBootloader.Batchers
