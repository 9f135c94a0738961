import RapiBootloader.WebDavBatch
import RapiBootloader.Lib.Logs

namespace RapiBootloader.WebDavUpload

open Lib.Memory Lib.Strings Lib.CLibrary Lib.Logs Card WebDavText WebDavServer WebDavRequest
open WebDavParse WebDavPut WebDavBatch

/-- What a reader gets who wants `n` bytes of the connection, a receive buffer at most at a
time. -/
def collect : Nat → Socket → Nat → List UInt8
  | 0, _, _ => []
  | turns + 1, s, n =>
    if n = 0 then []
    else
      match receive s (min n recvBufSize) with
      | ([], _) => []
      | (bytes, s) => bytes ++ collect turns s (n - bytes.length)

/-- The connection has `n` bytes to give before a `Receive` fails. -/
def Delivers (s : Socket) (n : Nat) : Prop := (collect n s n).length = n

instance (s : Socket) (n : Nat) : Decidable (Delivers s n) := inferInstanceAs (Decidable (_ = _))

def passed (chunks : List (List UInt8 × Bool)) : List UInt8 := chunks.flatMap Prod.fst

structure Uploading (a : PutAnswers) (u : Put) (n : Nat) (xs : List UInt8) : Prop where
  ok : u.ok = true
  batched : Batched a u xs
  remaining : xs.length + u.remaining = n
  passed : passed u.chunks = xs
  took : ∀ c ∈ u.chunks, c.2 = true
  buffer : xs ≠ [] → u.dav.writeBuf.isSome = true ∧ a.buffer.isSome = true
  fresh : xs = [] → u.dav.writeBuf = none

/-- The heap and the card have room for a body of `n` bytes. -/
def Storable (a : PutAnswers) (n : Nat) : Prop :=
  (n = 0 ∨ a.buffer.isSome = true) ∧ TakesAll a n

/-- How the receive loop leaves an upload of `n` bytes of `body`: all of it has come, or
`Receive` has failed, or `WritePutChunk` has. -/
inductive Ended (a : PutAnswers) (n : Nat) (body : List UInt8) (steady delivered : Prop) (u : Put) :
    Prop
  | whole (h : Uploading a u n (body.take n)) (hr : u.remaining = 0) (hd : delivered)
  | cut (hok : u.ok = false) (hl : Lost u n) (ht : ∀ c ∈ u.chunks, c.2 = true)
      (hp : steady → passed u.chunks = body.take n) (hd : ¬ delivered)
  | refused (hok : u.ok = false) (hl : Lost u n) (hr : ∃ c ∈ u.chunks, c.2 = false)
      (hw : ¬ Storable a n)

theorem passed_append (chunks : List (List UInt8 × Bool)) (data : List UInt8) (ok : Bool) :
    passed (chunks ++ [(data, ok)]) = passed chunks ++ data := by
  simp [passed]

theorem Uploading.stored_le {a : PutAnswers} {u : Put} {n : Nat} {xs : List UInt8}
    (h : Uploading a u n xs) : (stored u.calls).length ≤ xs.length := by
  have hlen := congrArg List.length h.batched.contents
  rw [List.length_append] at hlen
  omega

theorem chunk_spec {a : PutAnswers} {u : Put} {n : Nat} {xs data : List UInt8}
    (h : Uploading a u n xs) (hne : data ≠ []) (hlen : data.length ≤ u.remaining) :
    ∃ ok v, writePutChunk a data u = (ok, v) ∧ v.existed = u.existed ∧ v.remaining = u.remaining ∧
      if ok then
        Uploading a { v with ok := ok, remaining := v.remaining - data.length } n (xs ++ data)
      else Lost v n ∧ (∃ c ∈ v.chunks, c.2 = false) ∧ ¬ Storable a n := by
  have hrem := h.remaining
  have hbuffer : HasBuffer a u.dav ↔ a.buffer.isSome = true := by
    constructor
    · rintro (hold | hnew)
      · by_cases hxs : xs = []
        · rw [h.fresh hxs] at hold
          cases hold
        · exact (h.buffer hxs).2
      · exact hnew
    · exact Or.inr
  obtain ⟨ok, v, heq, hchunks, hremaining, hexisted, hv⟩ :=
    writePutChunk_spec h.batched hne (n := n) (by omega)
  refine ⟨ok, v, heq, hexisted, hremaining, ?_⟩
  cases ok with
  | false =>
    have hpos := List.length_pos_iff.mpr hne
    refine ⟨hv.1, ⟨(data, false), ?_, rfl⟩, fun hroom => ?_⟩
    · rw [hchunks]
      exact List.mem_append_right _ (List.mem_singleton_self _)
    · have hheap := hroom.1.resolve_left (by omega)
      exact hv.2 ⟨hbuffer.mpr hheap, hroom.2⟩
  | true =>
    obtain ⟨hhas, hvbuf, hbatched⟩ := hv
    refine ⟨rfl, ⟨hbatched.contents, hbatched.room, hbatched.count, hbatched.taken, hbatched.fine,
      hbatched.empty⟩, ?_, ?_, fun c hc => ?_, fun _ => ⟨hvbuf, hbuffer.mp hhas⟩, fun hnil => ?_⟩
    · dsimp only
      rw [List.length_append, hremaining]
      omega
    · dsimp only
      rw [hchunks, passed_append, h.passed]
    · rw [hchunks] at hc
      obtain hold | hnew := List.mem_append.mp hc
      · exact h.took c hold
      · rw [List.mem_singleton.mp hnew]
    · exact absurd (List.append_eq_nil_iff.mp hnil).2 hne

theorem Uploading.received {a : PutAnswers} {u : Put} {n : Nat} {xs : List UInt8}
    (h : Uploading a u n xs) (buf : Mem UInt8) :
    Uploading a { u with dav := { u.dav with recvBuf := buf } } n xs :=
  ⟨h.ok, h.batched.received buf, h.remaining, h.passed, h.took, h.buffer, h.fresh⟩

theorem putReceive_spec {a : PutAnswers} {u : Put} {n : Nat} {xs bytes : List UInt8}
    (h : Uploading a u n xs) (hne : bytes ≠ []) (hlen : bytes.length ≤ u.remaining) :
    (putReceive a bytes u).existed = u.existed ∧
      (Uploading a (putReceive a bytes u) n (xs ++ bytes) ∧
          (putReceive a bytes u).remaining = u.remaining - bytes.length ∨
        (putReceive a bytes u).ok = false ∧ Lost (putReceive a bytes u) n ∧
          (∃ c ∈ (putReceive a bytes u).chunks, c.2 = false) ∧
          ¬ Storable a n) := by
  obtain ⟨ok, v, heq, hexisted, hremaining, hv⟩ :=
    chunk_spec (h.received (write u.dav.recvBuf 0 bytes)) hne hlen
  have hput : putReceive a bytes u = { v with ok := ok, remaining := v.remaining - bytes.length } := by
    rw [putReceive, if_neg hne, heq]
  rw [hput]
  refine ⟨hexisted, ?_⟩
  cases ok with
  | true => exact Or.inl ⟨hv, congrArg (· - bytes.length) hremaining⟩
  | false => exact Or.inr ⟨rfl, hv.1, hv.2.1, hv.2.2⟩

theorem receive_spec {a : PutAnswers} {u : Put} {n : Nat} {xs target bytes : List UInt8}
    {s s' : Socket} (h : Uploading a u n xs) (hbody : xs ++ s.stream.take u.remaining = target)
    (hpos : 0 < u.remaining) (hr : receive s u.toRead = (bytes, s')) :
    bytes = [] ∧ putReceive a bytes u = { u with ok := false } ∨
      bytes ≠ [] ∧ bytes.length ≤ u.remaining ∧ (putReceive a bytes u).existed = u.existed ∧
        (Uploading a (putReceive a bytes u) n (xs ++ bytes) ∧
            (putReceive a bytes u).remaining = u.remaining - bytes.length ∧
            xs ++ bytes ++ s'.stream.take (putReceive a bytes u).remaining = target ∨
          (putReceive a bytes u).ok = false ∧ Lost (putReceive a bytes u) n ∧
            (∃ c ∈ (putReceive a bytes u).chunks, c.2 = false) ∧ ¬ Storable a n) := by
  by_cases hnil : bytes = []
  · exact Or.inl ⟨hnil, if_pos hnil⟩
  · have hask : 0 < u.toRead := Nat.lt_min.mpr ⟨hpos, Nat.succ_pos _⟩
    have hstream := receive_stream s u.toRead
    have hgot := length_receive_le s hask
    rw [hr] at hstream hgot
    have hlen : bytes.length ≤ u.remaining := Nat.le_trans hgot (Nat.min_le_left _ _)
    obtain ⟨hexisted, hcase⟩ := putReceive_spec h hnil hlen
    refine Or.inr ⟨hnil, hlen, hexisted, ?_⟩
    obtain ⟨hup, hleft⟩ | hfail := hcase
    · refine Or.inl ⟨hup, hleft, ?_⟩
      rw [hleft, List.append_assoc, ← hbody, ← hstream, List.take_append,
        List.take_of_length_le hlen]
    · exact Or.inr hfail

theorem Ended.imp {a : PutAnswers} {n : Nat} {body : List UInt8} {p p' q q' : Prop} {u : Put}
    (h : Ended a n body p q u) (hp : p' → p) (hq : q ↔ q') : Ended a n body p' q' u := by
  cases h with
  | whole h hr hd => exact .whole h hr (hq.mp hd)
  | cut hok hl ht hs hd => exact .cut hok hl ht (fun h => hs (hp h)) (mt hq.mpr hd)
  | refused hok hl hr hw => exact .refused hok hl hr hw

theorem putLoop_stopped {a : PutAnswers} {u : Put} (h : u.receiving = false) (turns : Nat)
    (s : Socket) : putLoop a turns s u = u := by
  cases turns with
  | zero => rfl
  | succ turns =>
    rw [putLoop, if_neg]
    rw [h]
    exact Bool.false_ne_true

theorem collect_succ {n : Nat} (hn : n ≠ 0) (turns : Nat) (s : Socket) :
    collect (turns + 1) s n = if (receive s (min n recvBufSize)).1 = [] then []
      else (receive s (min n recvBufSize)).1 ++ collect turns (receive s (min n recvBufSize)).2
        (n - (receive s (min n recvBufSize)).1.length) := by
  rw [collect, if_neg hn]
  cases receive s (min n recvBufSize) with
  | mk bytes s =>
    cases bytes <;> rfl

theorem putLoop_ends {a : PutAnswers} {n : Nat} {body : List UInt8} (turns : Nat) {s : Socket}
    {u : Put} {xs : List UInt8} (h : Uploading a u n xs)
    (hbody : xs ++ s.stream.take u.remaining = body.take n) (hturns : u.remaining ≤ turns) :
    (putLoop a turns s u).existed = u.existed ∧
      Ended a n body (Steady s) ((collect turns s u.remaining).length = u.remaining)
        (putLoop a turns s u) := by
  induction turns generalizing s u xs with
  | zero =>
    have hzero : u.remaining = 0 := Nat.le_zero.mp hturns
    rw [hzero, List.take_zero, List.append_nil] at hbody
    exact ⟨rfl, .whole (hbody ▸ h) hzero (by rw [hzero]; rfl)⟩
  | succ turns ih =>
    by_cases hzero : u.remaining = 0
    · have hstop : u.receiving = false := by simp [Put.receiving, hzero]
      rw [hzero, List.take_zero, List.append_nil] at hbody
      rw [putLoop_stopped hstop]
      exact ⟨rfl, .whole (hbody ▸ h) hzero (by rw [hzero]; rfl)⟩
    have hgo : u.receiving = true := by
      have := Nat.pos_of_ne_zero hzero
      simp [Put.receiving, h.ok, this]
    have hsteady := fun hs : Steady s => hs.next u.toRead
    have hdrained := fun hs : Steady s => hs.drained (n := u.toRead)
    have hcollect : collect (turns + 1) s u.remaining = if (receive s u.toRead).1 = [] then []
        else (receive s u.toRead).1 ++
          collect turns (receive s u.toRead).2 (u.remaining - (receive s u.toRead).1.length) :=
      collect_succ hzero turns s
    rw [putLoop, if_pos hgo, hcollect]
    generalize hr : receive s u.toRead = r at *
    obtain ⟨bytes, s'⟩ := r
    dsimp only at *
    obtain ⟨hnil, hput⟩ | ⟨hnil, hlen, hexisted, hcase⟩ :=
      receive_spec h hbody (Nat.pos_of_ne_zero hzero) hr
    · rw [if_pos hnil, hput, putLoop_stopped rfl]
      have hshort := h.stored_le
      have hrem := h.remaining
      refine ⟨rfl, .cut rfl (Or.inr (by dsimp only; omega)) h.took (fun hs => ?_) (fun h0 => ?_)⟩
      · rw [hdrained hs hnil, List.take_nil, List.append_nil] at hbody
        rw [h.passed, hbody]
      · exact hzero h0.symm
    · rw [if_neg hnil, ← hexisted]
      obtain ⟨hup, hleft, hrest⟩ | ⟨hok, hlost, hchunk, hw⟩ := hcase
      · have hpos := List.length_pos_iff.mpr hnil
        have hnext := ih (s := s') hup hrest (by omega)
        rw [hleft] at hnext
        refine ⟨hnext.1, hnext.2.imp hsteady ?_⟩
        rw [List.length_append]
        omega
      · have hstop : (putReceive a bytes u).receiving = false := by simp [Put.receiving, hok]
        rw [putLoop_stopped hstop]
        exact ⟨rfl, .refused hok hlost hchunk hw⟩

/-- Full batches and a last one that is not. -/
theorem takesAll_iff {a : PutAnswers} {w f n : Nat} (hw : ∀ k < w, Takes a k writeBufSize)
    (hn : n = writeBufSize * w + f) (hf : f < writeBufSize) :
    TakesAll a n ↔ f = 0 ∨ Takes a w f := by
  have hlast : n - writeBufSize * w = f := by omega
  have hmin : min writeBufSize f = f := Nat.min_eq_right (by omega)
  constructor
  · intro hall
    by_cases hzero : f = 0
    · exact Or.inl hzero
    · have := hall w (by omega)
      rw [hlast, hmin] at this
      exact Or.inr this
  · intro hcase k hk
    obtain hlt | rfl | hgt := Nat.lt_trichotomy k w
    · have hmul := Nat.mul_le_mul_left writeBufSize (Nat.succ_le_of_lt hlt)
      rw [Nat.mul_succ] at hmul
      rw [Nat.min_eq_left (by omega)]
      exact hw k hlt
    · rw [hlast, hmin]
      obtain hzero | htakes := hcase
      · omega
      · exact htakes
    · have hmul := Nat.mul_le_mul_left writeBufSize (Nat.succ_le_of_lt hgt)
      rw [Nat.mul_succ] at hmul
      omega

theorem flush_last {a : PutAnswers} {u : Put} {n : Nat} {xs : List UInt8}
    (h : Uploading a u n xs) (hr : u.remaining = 0) :
    ∃ ok v, flushPutBuf a u = (ok, v) ∧ Framed u v ∧ (ok = true ↔ TakesAll a n) ∧
      if ok then stored v.calls = xs ∧ ∀ c ∈ v.calls, succeeded c = true else Lost v n := by
  have hcontents := h.batched.contents
  have hlen := congrArg List.length hcontents
  have hrem := h.remaining
  have hcount := h.batched.count
  rw [List.length_append, length_pending] at hlen
  have hall := takesAll_iff (n := n) h.batched.taken (by omega) h.batched.room
  by_cases hfill : u.dav.writeBufFill = 0
  · rw [pending_empty hfill, List.append_nil] at hcontents
    refine ⟨true, u, if_pos hfill, .refl u, ?_, hcontents, h.batched.fine⟩
    rw [hall]
    exact iff_of_true rfl (Or.inl hfill)
  · obtain ⟨v, heq, hframe, -, -, hv⟩ := flushPutBuf_spec a u hfill h.batched.fine
    refine ⟨_, v, heq, hframe, ?_, ?_⟩
    · rw [hall, decide_eq_true_iff, or_iff_right hfill]
    · by_cases htakes : Takes a u.writes u.dav.writeBufFill
      · rw [if_pos htakes] at hv
        rw [if_pos (decide_eq_true htakes), hv.1]
        exact ⟨hcontents, hv.2⟩
      · rw [if_neg htakes] at hv
        rw [if_neg (by simpa using htakes)]
        exact hv.mono (by omega)

theorem putFinish_failed {a : PutAnswers} {u : Put} (h : u.ok = false) :
    putFinish a u = (⟨500, "Internal Server Error", "text/plain", ascii "Write failed"⟩,
      { u with ok := false, calls := u.calls ++ [.close a.closeResult] }) := by
  rw [putFinish, if_neg (by rw [h]; exact Bool.false_ne_true)]
  rfl

theorem putFinish_flushed {a : PutAnswers} {u v : Put} {ok : Bool} (h : u.ok = true)
    (heq : flushPutBuf a u = (ok, v)) :
    putFinish a u =
      (if ¬ ok then ⟨500, "Internal Server Error", "text/plain", ascii "Write failed"⟩
        else if v.existed then ⟨204, "No Content", "text/plain", []⟩
        else ⟨201, "Created", "text/plain", []⟩,
        { v with ok := ok, calls := v.calls ++ [.close a.closeResult] }) := by
  rw [putFinish, if_pos h, heq]

theorem stored_close (calls : List DavCall) (result : FResult) :
    stored (calls ++ [.close result]) = stored calls := by
  have hnone : stored [.close result] = [] := rfl
  rw [stored_append, hnone, List.append_nil]

/-- How many bytes of its body a request still waits for once its headers are in. -/
def missing (d : Dav) : Nat := d.contentLength - (buffered d).length

def body (d : Dav) (s : Socket) : List UInt8 := buffered d ++ s.stream

def opened (a : PutAnswers) (d : Dav) (path : List UInt8) : Put where
  dav := d
  calls := (parentDirs path).map .card ++
    [.stat path a.statResult, .card (.openWrite path a.openResult)]
  writes := 0
  chunks := []
  ok := true
  remaining := d.contentLength
  existed := a.statResult = .frOk

theorem mem_opened {a : PutAnswers} {d : Dav} {path : List UInt8} {c : DavCall}
    (h : c ∈ (opened a d path).calls) :
    (∃ dir, c = .card (.mkdir dir)) ∨ c = .stat path a.statResult ∨
      c = .card (.openWrite path a.openResult) := by
  obtain hdir | hnew := List.mem_append.mp h
  · obtain ⟨call, hcall, rfl⟩ := List.mem_map.mp hdir
    obtain ⟨dir, rfl⟩ := parentDirs_mkdir path call hcall
    exact Or.inl ⟨dir, rfl⟩
  · obtain rfl | hnew := List.mem_cons.mp hnew
    · exact Or.inr (Or.inl rfl)
    · exact Or.inr (Or.inr (List.mem_singleton.mp hnew))

theorem stored_opened (a : PutAnswers) (d : Dav) (path : List UInt8) :
    stored (opened a d path).calls = [] := by
  refine List.flatMap_eq_nil_iff.mpr (fun c hc => ?_)
  obtain ⟨dir, rfl⟩ | rfl | rfl := mem_opened hc <;> rfl

theorem uploading_opened {a : PutAnswers} {d : Dav} {path : List UInt8} (hopen : a.openResult = .frOk)
    (hbuf : d.writeBuf = none) (hfill : d.writeBufFill = 0) :
    Uploading a (opened a d path) d.contentLength [] := by
  have hfine : ∀ c ∈ (opened a d path).calls, succeeded c = true := by
    intro c hc
    obtain ⟨dir, rfl⟩ | rfl | rfl := mem_opened hc
    · rfl
    · rfl
    · exact decide_eq_true hopen
  refine ⟨rfl, ⟨?_, ?_, ?_, fun k hk => absurd hk (Nat.not_lt_zero k), hfine,
    fun _ => hfill⟩, Nat.zero_add _, rfl, fun c hc => absurd hc List.not_mem_nil,
    fun h => absurd rfl h, fun _ => hbuf⟩
  · rw [stored_opened, List.nil_append]
    exact pending_empty hfill
  · rw [opened, hfill]
    exact Nat.succ_pos _
  · rw [stored_opened]
    rfl

def Opens (a : PutAnswers) (d : Dav) : Prop :=
  (mapPath (cstr d.path pathSize 0)).isSome = true ∧ a.openResult = .frOk

def Reported (r : Response) : Prop := r.status = 201 ∨ r.status = 204

theorem doPut_refused {a : PutAnswers} {d : Dav} (s : Socket) (h : ¬ Opens a d) :
    ∃ r calls, doPut a s d = ⟨r, calls, []⟩ ∧ ¬ Reported r ∧ .close .frOk ∉ calls ∧
      ∀ path, .card (.openWrite path .frOk) ∉ calls := by
  unfold doPut putBegin
  cases hpath : mapPath (cstr d.path pathSize 0) with
  | none => exact ⟨_, [], rfl, by simp [Reported], List.not_mem_nil, fun _ => List.not_mem_nil⟩
  | some path =>
    have hopen : a.openResult ≠ .frOk := fun hok => h ⟨by rw [hpath]; rfl, hok⟩
    dsimp only
    rw [if_pos hopen]
    refine ⟨_, (opened a d path).calls, rfl, by simp [Reported], fun hc => ?_, fun path' hc => ?_⟩
    · obtain ⟨dir, hc⟩ | hc | hc := mem_opened hc <;> cases hc
    · obtain ⟨dir, hc⟩ | hc | hc := mem_opened hc
      · cases hc
      · cases hc
      · exact hopen (CardCall.openWrite.inj (DavCall.card.inj hc)).2.symm

theorem putBegin_opened {a : PutAnswers} {d : Dav} {path : List UInt8}
    (hpath : mapPath (cstr d.path pathSize 0) = some path) (hopen : a.openResult = .frOk) :
    putBegin a d = .inr (putBuffered a (opened a d path)) := by
  unfold putBegin
  rw [hpath]
  dsimp only
  rw [if_neg (not_not.mpr hopen)]
  rfl

theorem putBuffered_none {a : PutAnswers} {u : Put}
    (h : min (u.dav.recvFill - u.dav.bodyStart) u.remaining = 0) : putBuffered a u = u :=
  if_neg (by omega)

theorem putBuffered_some {a : PutAnswers} {u v : Put} {count : Nat} {ok : Bool}
    (h : min (u.dav.recvFill - u.dav.bodyStart) u.remaining = count) (hpos : 0 < count)
    (hw : writePutChunk a (read u.dav.recvBuf u.dav.bodyStart count) u = (ok, v)) :
    putBuffered a u = { v with ok := ok, remaining := v.remaining - count } := by
  subst h
  unfold putBuffered
  dsimp only
  rw [if_pos hpos, hw]

def Started (a : PutAnswers) (d : Dav) (s : Socket) (u : Put) : Prop :=
  (∃ xs, Uploading a u d.contentLength xs ∧
      xs ++ s.stream.take (missing d) = (body d s).take d.contentLength ∧
      u.remaining = missing d) ∨
    u.ok = false ∧ Lost u d.contentLength ∧ (∃ c ∈ u.chunks, c.2 = false) ∧
      ¬ Storable a d.contentLength

theorem putBuffered_spec {a : PutAnswers} {d : Dav} {path : List UInt8} (s : Socket)
    (hopen : a.openResult = .frOk) (hbuf : d.writeBuf = none) (hfill : d.writeBufFill = 0) :
    (putBuffered a (opened a d path)).existed = decide (a.statResult = .frOk) ∧
      Started a d s (putBuffered a (opened a d path)) := by
  have hup := @uploading_opened a d path hopen hbuf hfill
  have hlen : (buffered d).length = d.recvFill - d.bodyStart := length_read _ _ _
  have htake : (body d s).take d.contentLength =
      (buffered d).take d.contentLength ++ s.stream.take (missing d) := List.take_append
  generalize hcount : min (d.recvFill - d.bodyStart) d.contentLength = count
  have hmissing : missing d = d.contentLength - count := by
    rw [missing, hlen]
    omega
  have hdata : read d.recvBuf d.bodyStart count = (buffered d).take d.contentLength := by
    rw [buffered, take_read, Nat.min_comm, hcount]
  have hdatalen : (read d.recvBuf d.bodyStart count).length = count := length_read _ _ _
  by_cases hzero : count = 0
  · rw [putBuffered_none (hcount.trans hzero)]
    refine ⟨rfl, Or.inl ⟨[], hup, ?_, ?_⟩⟩
    · rw [htake, ← hdata, hzero]
      rfl
    · rw [hmissing, hzero]
      rfl
  · have hpos : 0 < count := Nat.pos_of_ne_zero hzero
    have hne : read d.recvBuf d.bodyStart count ≠ [] :=
      List.length_pos_iff.mp (by rw [hdatalen]; exact hpos)
    have hfit : (read d.recvBuf d.bodyStart count).length ≤ (opened a d path).remaining := by
      rw [hdatalen, ← hcount]
      exact Nat.min_le_right _ _
    obtain ⟨ok, v, heq, hexisted, hremaining, hv⟩ := chunk_spec hup hne hfit
    rw [putBuffered_some hcount hpos heq]
    refine ⟨hexisted, ?_⟩
    cases ok with
    | true =>
      rw [hdatalen] at hv
      refine Or.inl ⟨_, hv, ?_, ?_⟩
      · rw [List.nil_append, hdata, htake]
      · rw [hmissing]
        exact congrArg (· - count) hremaining
    | false => exact Or.inr ⟨rfl, hv.1, hv.2.1, hv.2.2⟩

/-- How the receive loop leaves what `DoPut` has opened. -/
theorem doPut_ends {a : PutAnswers} {s : Socket} {d : Dav} {path : List UInt8}
    (hpath : mapPath (cstr d.path pathSize 0) = some path) (hopen : a.openResult = .frOk)
    (hbuf : d.writeBuf = none) (hfill : d.writeBufFill = 0) :
    ∃ u, doPut a s d = ⟨(putFinish a u).1, (putFinish a u).2.calls, (putFinish a u).2.chunks⟩ ∧
      u.existed = decide (a.statResult = .frOk) ∧
      Ended a d.contentLength (body d s) (Steady s) (Delivers s (missing d)) u := by
  obtain ⟨hexisted, hstarted⟩ := @putBuffered_spec a d path s hopen hbuf hfill
  have hput : doPut a s d =
      ⟨(putFinish a (putLoop a (putBuffered a (opened a d path)).remaining s
          (putBuffered a (opened a d path)))).1,
        (putFinish a (putLoop a (putBuffered a (opened a d path)).remaining s
          (putBuffered a (opened a d path)))).2.calls,
        (putFinish a (putLoop a (putBuffered a (opened a d path)).remaining s
          (putBuffered a (opened a d path)))).2.chunks⟩ := by
    unfold doPut
    rw [putBegin_opened hpath hopen]
  generalize putBuffered a (opened a d path) = u at *
  refine ⟨_, hput, ?_⟩
  obtain ⟨xs, hup, hbody, hrem⟩ | ⟨hok, hlost, hchunk, hw⟩ := hstarted
  · have hends := putLoop_ends u.remaining hup (by rw [hrem]; exact hbody) (Nat.le_refl _)
    rw [hrem] at hends ⊢
    exact ⟨hends.1.trans hexisted, hends.2⟩
  · have hstop : u.receiving = false := by simp [Put.receiving, hok]
    rw [putLoop_stopped hstop]
    exact ⟨hexisted, .refused hok hlost hchunk hw⟩

def IsWrite (c : DavCall) : Prop :=
  ∃ bytes result written, c = .card (.write bytes result written)

def Follows (c : DavCall) : Prop := IsWrite c ∨ ∃ result, c = .close result

/-- What a `PUT` has gone on to: the same method and path, and no call but such ones. -/
structure Onward (p : DavCall → Prop) (u v : Put) : Prop where
  calls : Extends p u.calls v.calls
  method : v.dav.method = u.dav.method
  path : v.dav.path = u.dav.path

section
variable {p : DavCall → Prop} {a : PutAnswers} {u v : Put}

theorem Onward.refl (u : Put) : Onward p u u := ⟨Extends.refl u.calls, rfl, rfl⟩

theorem Onward.flush (h : Onward IsWrite u v) : Onward IsWrite u (flushPutBuf a v).2 := by
  rw [flushPutBuf]
  split
  · exact h
  · exact ⟨h.calls.concat ⟨_, _, _, rfl⟩, h.method, h.path⟩

theorem Onward.copied (h : Onward p u v) (bytes : List UInt8) : Onward p u (copied v bytes) :=
  ⟨h.calls, h.method, h.path⟩

theorem Onward.copyLoop (turns : Nat) {data : List UInt8} (h : Onward IsWrite u v) :
    Onward IsWrite u (copyLoop a turns data v).2 := by
  induction turns generalizing data v with
  | zero => exact h
  | succ turns ih =>
    rw [WebDavPut.copyLoop]
    by_cases hdata : data = []
    · rw [if_pos hdata]
      exact h
    rw [if_neg hdata]
    dsimp only
    have hcopied := h.copied (data.take (min data.length (writeBufSize - v.dav.writeBufFill)))
    split
    · have hflush := hcopied.flush (a := a)
      split
      · rename_i heq
        rw [heq] at hflush
        exact hflush
      · rename_i heq
        rw [heq] at hflush
        exact ih hflush
    · exact ih hcopied

theorem Onward.chunk (h : Onward IsWrite u v) (data : List UInt8) :
    Onward IsWrite u (writePutChunk a data v).2 := by
  have halloc : Onward IsWrite u
      (if v.dav.writeBuf.isNone then { v with dav := { v.dav with writeBuf := a.buffer } }
        else v) := by
    split
    · exact ⟨h.calls, h.method, h.path⟩
    · exact h
  rw [writePutChunk]
  dsimp only
  generalize (if v.dav.writeBuf.isNone then { v with dav := { v.dav with writeBuf := a.buffer } }
    else v) = w at halloc ⊢
  by_cases hnone : w.dav.writeBuf.isNone
  · simp only [hnone, if_true]
    exact ⟨halloc.calls, halloc.method, halloc.path⟩
  · have hcopy : Onward IsWrite u (WebDavPut.copyLoop a (data.length + 1) data w).2 :=
      halloc.copyLoop _
    simp only [hnone]
    exact ⟨hcopy.calls, hcopy.method, hcopy.path⟩

theorem Onward.receive (h : Onward IsWrite u v) (bytes : List UInt8) :
    Onward IsWrite u (putReceive a bytes v) := by
  rw [putReceive]
  split
  · exact ⟨h.calls, h.method, h.path⟩
  · have hchunk := Onward.chunk (a := a) (v :=
      { v with dav := { v.dav with recvBuf := write v.dav.recvBuf 0 bytes } })
      ⟨h.calls, h.method, h.path⟩ bytes
    exact ⟨hchunk.calls, hchunk.method, hchunk.path⟩

theorem Onward.loop (turns : Nat) (s : Socket) (h : Onward IsWrite u v) :
    Onward IsWrite u (putLoop a turns s v) := by
  induction turns generalizing s v with
  | zero => exact h
  | succ turns ih =>
    rw [putLoop]
    split
    · exact ih _ (h.receive _)
    · exact h

theorem Onward.buffered (h : Onward IsWrite u v) : Onward IsWrite u (putBuffered a v) := by
  rw [putBuffered]
  dsimp only
  split
  · have hchunk := h.chunk (a := a)
      (read v.dav.recvBuf v.dav.bodyStart (min (v.dav.recvFill - v.dav.bodyStart) v.remaining))
    exact ⟨hchunk.calls, hchunk.method, hchunk.path⟩
  · exact h

theorem Onward.last (h : Onward IsWrite u v) :
    Onward IsWrite u (if v.ok then flushPutBuf a v else (false, v)).2 := by
  split
  · exact h.flush
  · exact h

theorem Onward.finish (h : Onward IsWrite u v) : Onward Follows u (putFinish a v).2 := by
  have hlast := h.last (a := a)
  exact ⟨(hlast.calls.imp fun _ => Or.inl).concat (Or.inr ⟨_, rfl⟩), hlast.method, hlast.path⟩

end

end RapiBootloader.WebDavUpload
