import RapiBootloader.WebDavListing

namespace RapiBootloader.WebDavGet

open Lib.Memory Lib.Strings Lib.CLibrary Card WebDavText WebDavServer WebDavPut WebDavListing

/-- What one `DoGet` is answered: by `f_stat`, `f_open`, each `f_read` and each `Send` in turn, and
by `f_close`. A `Send` that does not return a negative number has sent everything. -/
structure GetAnswers where
  statResult : FResult
  isDir : Bool
  fsize : Nat
  openResult : FResult
  reads : Nat → FResult × List UInt8
  sends : Nat → Bool
  closeResult : FResult

/-- What goes out, each piece with whether its `Send` succeeded. -/
abbrev Pieces := List (List UInt8 × Bool)

inductive Reply
  | simple (response : Response)
  | sent (pieces : Pieces)
deriving DecidableEq, Repr

/-- `ended` tells whether `DoGet` has returned, or is still in its loop. -/
structure GetDone where
  reply : Reply
  calls : List DavCall
  ended : Bool
deriving DecidableEq, Repr

structure Loop where
  pieces : Pieces
  calls : List DavCall
  ended : Bool
deriving DecidableEq, Repr

def Loop.behind (l : Loop) (pieces : Pieces) (call : DavCall) : Loop :=
  ⟨pieces ++ l.pieces, call :: l.calls, l.ended⟩

def serverName : List UInt8 := ascii "pi-mame-chainloader-webdav/1.0"

def getHeader (fsize : Nat) : List UInt8 :=
  ascii "HTTP/1.1 200 OK" ++ crlf ++
    ascii "Server: " ++ serverName ++ crlf ++
    ascii "Content-Type: application/octet-stream" ++ crlf ++
    ascii "Content-Length: " ++ sizeText fsize ++ crlf ++
    ascii "Connection: close" ++ crlf ++ crlf

/-- The loop of `DoGet` from its `k`-th turn on, as far as a number of turns goes. `nRead` is the
length of what `f_read` puts into the receive buffer. -/
def getLoop (a : GetAnswers) : Nat → Nat → Mem UInt8 → Loop
  | 0, _, _ => ⟨[], [], false⟩
  | turns + 1, k, buf =>
    let (result, bytes) := a.reads k
    let call : DavCall := .card (.read recvBufSize result bytes)
    if result ≠ .frOk then ⟨[], [call], true⟩
    else
      let buf := write buf 0 bytes
      let pieces : Pieces :=
        if bytes.length > 0 then [(read buf 0 bytes.length, a.sends (k + 1))] else []
      if bytes.length > 0 ∧ a.sends (k + 1) = false then ⟨pieces, [call], true⟩
      else if bytes.length = recvBufSize then (getLoop a turns (k + 1) buf).behind pieces call
      else ⟨pieces, [call], true⟩

def doGet (a : GetAnswers) (turns : Nat) (headOnly : Bool) (d : Dav) : GetDone :=
  match mapPath (cstr d.path pathSize 0) with
  | none => ⟨.simple ⟨403, "Forbidden", "text/plain", ascii "Invalid path"⟩, [], true⟩
  | some path =>
    let stat : DavCall := .stat path a.statResult
    let opened : DavCall := .card (.openRead path a.openResult)
    let close : DavCall := .close a.closeResult
    if a.statResult ≠ .frOk then
      ⟨.simple ⟨404, "Not Found", "text/plain", ascii "Not found"⟩, [stat], true⟩
    else if a.isDir then
      ⟨.simple ⟨405, "Method Not Allowed", "text/plain",
        ascii "GET is for files -- PROPFIND lists collections"⟩, [stat], true⟩
    else if a.openResult ≠ .frOk then
      ⟨.simple ⟨500, "Internal Server Error", "text/plain", ascii "Cannot open file"⟩,
        [stat, opened], true⟩
    else
      let header := (getHeader a.fsize, a.sends 0)
      if a.sends 0 = true ∧ headOnly = false then
        let l := getLoop a turns 0 d.recvBuf
        ⟨.sent (header :: l.pieces),
          stat :: opened :: l.calls ++ (if l.ended then [close] else []), l.ended⟩
      else ⟨.sent [header], [stat, opened, close], true⟩

/-- FatFs reads this file, a receive buffer at a time, and it stays as `f_stat` has seen it. -/
structure FileIs (a : GetAnswers) (contents : List UInt8) : Prop where
  size : a.fsize = contents.length
  reads : ∀ k, (a.reads k).1 = .frOk →
    (a.reads k).2 = (contents.drop (recvBufSize * k)).take recvBufSize

def delivered (pieces : Pieces) : List UInt8 := (pieces.filter Prod.snd).flatMap Prod.fst

def readOk : DavCall → Bool
  | .card (.read _ result _) => result = .frOk
  | _ => true

def isRead : DavCall → Bool
  | .card (.read ..) => true
  | _ => false

def isClose : DavCall → Bool
  | .close _ => true
  | _ => false

/-- No `Send` and no `f_read` has failed. -/
def Fine (pieces : Pieces) (calls : List DavCall) : Prop :=
  (∀ p ∈ pieces, p.2 = true) ∧ ∀ c ∈ calls, readOk c = true

/-- What the loop sends of the rest of a file: all of it, or the first reads if something fails. -/
structure Streams (rest : List UInt8) (pieces : Pieces) (calls : List DavCall) : Prop where
  reads : ∀ c ∈ calls, isRead c = true
  whole : Fine pieces calls → delivered pieces = rest
  part : ¬ Fine pieces calls → ∃ j, recvBufSize * j ≤ rest.length ∧
    delivered pieces = rest.take (recvBufSize * j)

theorem delivered_cons (bytes : List UInt8) (pieces : Pieces) :
    delivered ((bytes, true) :: pieces) = bytes ++ delivered pieces := rfl

theorem delivered_lost (bytes : List UInt8) : delivered [(bytes, false)] = [] := rfl

theorem streams_stopped {rest : List UInt8} {pieces : Pieces} {call : DavCall}
    (hread : isRead call = true) (hnone : delivered pieces = []) (hfail : ¬ Fine pieces [call]) :
    Streams rest pieces [call] := by
  refine ⟨fun c hc => ?_, fun hfine => absurd hfine hfail, fun _ => ⟨0, Nat.zero_le _, hnone⟩⟩
  rw [List.mem_singleton.mp hc]
  exact hread

theorem streams_end {call : DavCall} (hread : isRead call = true) : Streams [] [] [call] := by
  refine ⟨fun c hc => ?_, fun _ => rfl, fun _ => ⟨0, Nat.le_refl _, rfl⟩⟩
  rw [List.mem_singleton.mp hc]
  exact hread

theorem streams_last {bytes : List UInt8} {call : DavCall} (hread : isRead call = true)
    (hok : readOk call = true) : Streams bytes [(bytes, true)] [call] := by
  have hfine : Fine [(bytes, true)] [call] := by
    refine ⟨fun p hp => ?_, fun c hc => ?_⟩
    · rw [List.mem_singleton.mp hp]
    · rw [List.mem_singleton.mp hc]
      exact hok
  refine ⟨fun c hc => ?_, fun _ => List.append_nil bytes, fun hfail => absurd hfine hfail⟩
  rw [List.mem_singleton.mp hc]
  exact hread

theorem fine_behind {pieces : Pieces} {calls : List DavCall} {bytes : List UInt8} {call : DavCall}
    (hok : readOk call = true) :
    Fine ((bytes, true) :: pieces) (call :: calls) ↔ Fine pieces calls := by
  simp only [Fine, List.forall_mem_cons, hok, true_and]

theorem Streams.behind {bytes rest : List UInt8} {pieces : Pieces} {calls : List DavCall}
    {call : DavCall} (hread : isRead call = true) (hok : readOk call = true)
    (hfull : bytes.length = recvBufSize) (h : Streams rest pieces calls) :
    Streams (bytes ++ rest) ((bytes, true) :: pieces) (call :: calls) := by
  have hfine := @fine_behind pieces calls bytes call hok
  refine ⟨fun c hc => ?_, fun hf => ?_, fun hf => ?_⟩
  · obtain rfl | hc := List.mem_cons.mp hc
    · exact hread
    · exact h.reads c hc
  · rw [delivered_cons, h.whole (hfine.mp hf)]
  · obtain ⟨j, hj, hpart⟩ := h.part (mt hfine.mpr hf)
    refine ⟨j + 1, ?_, ?_⟩
    · rw [List.length_append, hfull, Nat.mul_succ]
      omega
    · rw [delivered_cons, hpart, Nat.mul_succ, Nat.add_comm, ← hfull, List.take_length_add_append]

def readCall (a : GetAnswers) (k : Nat) : DavCall :=
  .card (.read recvBufSize (a.reads k).1 (a.reads k).2)

inductive Turn (a : GetAnswers) (turns k : Nat) (buf : Mem UInt8) : Loop → Prop
  | failed (h : (a.reads k).1 ≠ .frOk) : Turn a turns k buf ⟨[], [readCall a k], true⟩
  | ended (hok : (a.reads k).1 = .frOk) (hnil : (a.reads k).2 = []) :
      Turn a turns k buf ⟨[], [readCall a k], true⟩
  | lost (hok : (a.reads k).1 = .frOk) (hne : (a.reads k).2 ≠ [])
      (hsend : a.sends (k + 1) = false) :
      Turn a turns k buf ⟨[((a.reads k).2, false)], [readCall a k], true⟩
  | last (hok : (a.reads k).1 = .frOk) (hshort : (a.reads k).2.length ≠ recvBufSize)
      (hsend : a.sends (k + 1) = true) :
      Turn a turns k buf ⟨[((a.reads k).2, true)], [readCall a k], true⟩
  | full (hok : (a.reads k).1 = .frOk) (hfull : (a.reads k).2.length = recvBufSize)
      (hsend : a.sends (k + 1) = true) :
      Turn a turns k buf ((getLoop a turns (k + 1) (write buf 0 (a.reads k).2)).behind
        [((a.reads k).2, true)] (readCall a k))

theorem getLoop_turn (a : GetAnswers) (turns k : Nat) (buf : Mem UInt8) :
    Turn a turns k buf (getLoop a (turns + 1) k buf) := by
  rw [getLoop]
  dsimp only
  rw [(holds_write buf 0 (a.reads k).2).read_eq]
  by_cases hok : (a.reads k).1 = .frOk
  · rw [if_neg (not_not.mpr hok)]
    by_cases hnil : (a.reads k).2 = []
    · have hzero : ¬ (a.reads k).2.length > 0 := by
        rw [hnil]
        exact Nat.lt_irrefl 0
      have hshort : ¬ (a.reads k).2.length = recvBufSize := by
        rw [hnil]
        decide
      rw [if_neg hzero, if_neg (fun hno => hzero hno.1), if_neg hshort]
      exact .ended hok hnil
    · have hpos : (a.reads k).2.length > 0 := List.length_pos_iff.mpr hnil
      rw [if_pos hpos]
      cases hsend : a.sends (k + 1) with
      | false =>
        rw [if_pos ⟨hpos, rfl⟩]
        exact .lost hok hnil hsend
      | true =>
        rw [if_neg (fun hno => Bool.noConfusion hno.2)]
        by_cases hfull : (a.reads k).2.length = recvBufSize
        · rw [if_pos hfull]
          exact .full hok hfull hsend
        · rw [if_neg hfull]
          exact .last hok hfull hsend
  · rw [if_pos hok]
    exact .failed hok

section
variable {a : GetAnswers} {contents : List UInt8} {k : Nat}

theorem FileIs.ended (h : FileIs a contents) (hok : (a.reads k).1 = .frOk)
    (hnil : (a.reads k).2 = []) : contents.drop (recvBufSize * k) = [] := by
  have hbytes := h.reads k hok
  rw [hnil] at hbytes
  obtain hzero | hempty := List.take_eq_nil_iff.mp hbytes.symm
  · cases hzero
  · exact hempty

theorem FileIs.last (h : FileIs a contents) (hok : (a.reads k).1 = .frOk)
    (hshort : (a.reads k).2.length ≠ recvBufSize) :
    (a.reads k).2 = contents.drop (recvBufSize * k) := by
  have hlen := congrArg List.length (h.reads k hok)
  rw [List.length_take] at hlen
  rw [h.reads k hok]
  apply List.take_of_length_le
  omega

theorem FileIs.full (h : FileIs a contents) (hok : (a.reads k).1 = .frOk)
    (hfull : (a.reads k).2.length = recvBufSize) :
    recvBufSize * (k + 1) ≤ contents.length ∧
      contents.drop (recvBufSize * k) =
        (a.reads k).2 ++ contents.drop (recvBufSize * (k + 1)) := by
  have hlen := congrArg List.length (h.reads k hok)
  rw [List.length_take, List.length_drop, hfull] at hlen
  have hsize : 0 < recvBufSize := by decide
  constructor
  · rw [Nat.mul_succ]
    omega
  · rw [h.reads k hok, Nat.mul_succ, ← List.drop_drop, List.take_append_drop]

/-- The loop ends with the file, or at what fails. -/
theorem getLoop_streams (h : FileIs a contents) (turns : Nat) {buf : Mem UInt8}
    (hk : recvBufSize * k ≤ contents.length)
    (hturns : contents.length < recvBufSize * (k + turns)) :
    ∃ pieces calls, getLoop a turns k buf = ⟨pieces, calls, true⟩ ∧
      Streams (contents.drop (recvBufSize * k)) pieces calls := by
  induction turns generalizing k buf with
  | zero => exact absurd hk (Nat.not_le.mpr hturns)
  | succ turns ih =>
    have hread : isRead (readCall a k) = true := rfl
    have hreadOk : readOk (readCall a k) = decide ((a.reads k).1 = .frOk) := rfl
    have hturn := getLoop_turn a turns k buf
    generalize getLoop a (turns + 1) k buf = r at hturn ⊢
    cases hturn with
    | failed hfail =>
      rw [decide_eq_false hfail] at hreadOk
      refine ⟨_, _, rfl, streams_stopped hread rfl (fun hfine => ?_)⟩
      have hok := hfine.2 _ List.mem_cons_self
      rw [hreadOk] at hok
      cases hok
    | ended hok hnil =>
      rw [h.ended hok hnil]
      exact ⟨_, _, rfl, streams_end hread⟩
    | lost hok =>
      refine ⟨_, _, rfl, streams_stopped hread (delivered_lost _) (fun hfine => ?_)⟩
      exact Bool.noConfusion (hfine.1 _ List.mem_cons_self)
    | last hok hshort =>
      rw [decide_eq_true hok] at hreadOk
      rw [← h.last hok hshort]
      exact ⟨_, _, rfl, streams_last hread hreadOk⟩
    | full hok hfull =>
      obtain ⟨hnext, hsplit⟩ := h.full hok hfull
      obtain ⟨pieces, calls, heq, hstreams⟩ := @ih (k + 1) (write buf 0 (a.reads k).2) hnext
        (by rwa [Nat.add_right_comm])
      rw [decide_eq_true hok] at hreadOk
      rw [heq, hsplit]
      exact ⟨_, _, rfl, hstreams.behind hread hreadOk hfull⟩

/-- The answers that a loop over the rest of the file depends on are good. -/
def Good (a : GetAnswers) (contents : List UInt8) (k : Nat) : Prop :=
  ∀ i, k ≤ i → recvBufSize * i ≤ contents.length →
    (a.reads i).1 = .frOk ∧ (recvBufSize * i < contents.length → a.sends (i + 1) = true)

theorem good_last (hlast : contents.length < recvBufSize * (k + 1)) :
    Good a contents k ↔ (recvBufSize * k ≤ contents.length → (a.reads k).1 = .frOk ∧
      (recvBufSize * k < contents.length → a.sends (k + 1) = true)) := by
  constructor
  · exact fun h => h k (Nat.le_refl k)
  · intro h i hi hle
    have hik : i = k := by
      have hlt := Nat.lt_of_mul_lt_mul_left (hle.trans_lt hlast)
      omega
    subst hik
    exact h hle

theorem good_next (hok : (a.reads k).1 = .frOk) (hsend : a.sends (k + 1) = true) :
    Good a contents k ↔ Good a contents (k + 1) := by
  constructor
  · exact fun h i hi => h i (Nat.le_of_succ_le hi)
  · intro h i hi hle
    obtain rfl | hlt := Nat.eq_or_lt_of_le hi
    · exact ⟨hok, fun _ => hsend⟩
    · exact h i hlt hle

/-- Nothing in the log has failed just in case nothing that the loop gets to fails. -/
theorem getLoop_fine_iff (h : FileIs a contents) (turns : Nat) {buf : Mem UInt8}
    (hk : recvBufSize * k ≤ contents.length)
    (hturns : contents.length < recvBufSize * (k + turns)) :
    Fine (getLoop a turns k buf).pieces (getLoop a turns k buf).calls ↔ Good a contents k := by
  induction turns generalizing k buf with
  | zero => exact absurd hk (Nat.not_le.mpr hturns)
  | succ turns ih =>
    have hreadOk : readOk (readCall a k) = decide ((a.reads k).1 = .frOk) := rfl
    have hturn := getLoop_turn a turns k buf
    generalize getLoop a (turns + 1) k buf = r at hturn ⊢
    cases hturn with
    | failed hfail =>
      rw [decide_eq_false hfail] at hreadOk
      refine iff_of_false (fun hfine => ?_) (fun hgood => hfail (hgood k (Nat.le_refl k) hk).1)
      have hok := hfine.2 _ List.mem_cons_self
      rw [hreadOk] at hok
      cases hok
    | ended hok hnil =>
      have hend := List.drop_eq_nil_iff.mp (h.ended hok hnil)
      have hsize : 0 < recvBufSize := by decide
      rw [good_last (by rw [Nat.mul_succ]; omega)]
      refine iff_of_true ⟨fun _ hp => absurd hp List.not_mem_nil, fun c hc => ?_⟩
        (fun _ => ⟨hok, fun hlt => absurd hlt (Nat.not_lt.mpr hend)⟩)
      rw [List.mem_singleton.mp hc, hreadOk]
      exact decide_eq_true hok
    | lost hok hne hsend =>
      refine iff_of_false (fun hfine => Bool.noConfusion (hfine.1 _ List.mem_cons_self))
        (fun hgood => ?_)
      have hlt : recvBufSize * k < contents.length := by
        by_contra hno
        apply hne
        rw [h.reads k hok, List.drop_of_length_le (Nat.not_lt.mp hno), List.take_nil]
      rw [(hgood k (Nat.le_refl k) hk).2 hlt] at hsend
      cases hsend
    | last hok hshort hsend =>
      have hlen := congrArg List.length (h.last hok hshort)
      have hle := congrArg List.length (h.reads k hok)
      rw [List.length_drop] at hlen
      rw [List.length_take] at hle
      rw [good_last (by rw [Nat.mul_succ]; omega)]
      refine iff_of_true ⟨fun p hp => ?_, fun c hc => ?_⟩ (fun _ => ⟨hok, fun _ => hsend⟩)
      · rw [List.mem_singleton.mp hp]
      · rw [List.mem_singleton.mp hc, hreadOk]
        exact decide_eq_true hok
    | full hok hfull hsend =>
      obtain ⟨hnext, -⟩ := h.full hok hfull
      rw [decide_eq_true hok] at hreadOk
      rw [good_next hok hsend, Loop.behind]
      exact (fine_behind hreadOk).trans (ih hnext (by rwa [Nat.add_right_comm]))

end

theorem closes_around {calls : List DavCall} (hreads : ∀ c ∈ calls, isRead c = true)
    (path : List UInt8) (stat opened close : FResult) :
    ((DavCall.stat path stat :: .card (.openRead path opened) :: calls ++
      [DavCall.close close]).filter isClose).length = 1 := by
  have hnone : calls.filter isClose = [] := by
    apply List.filter_eq_nil_iff.mpr
    intro c hc hclose
    have hread := hreads c hc
    cases c with
    | close result => cases hread
    | card call => cases hclose
    | stat path result => cases hclose
    | opendir path result => cases hclose
  have hends : (DavCall.stat path stat :: .card (.openRead path opened) :: calls ++
      [DavCall.close close]).filter isClose = calls.filter isClose ++ [DavCall.close close] := by
    rw [List.cons_append, List.cons_append, List.filter_cons_of_neg Bool.false_ne_true,
      List.filter_cons_of_neg Bool.false_ne_true, List.filter_append]
    rfl
  rw [hends, hnone]
  rfl

theorem fine_around (pieces : Pieces) (calls : List DavCall) (path : List UInt8)
    (stat opened close : FResult) :
    Fine pieces (DavCall.stat path stat :: .card (.openRead path opened) :: calls ++
      [DavCall.close close]) ↔ Fine pieces calls := by
  simp only [Fine, List.cons_append, List.forall_mem_cons, List.forall_mem_append,
    List.not_mem_nil, false_implies, implies_true, and_true, readOk, true_and]

/-- `DoGet` of a file: a header that announces its length, what is sent of it, and one `f_close`. -/
theorem get_streams {a : GetAnswers} {contents path : List UInt8} {d : Dav}
    (hfile : FileIs a contents) (hpath : mapPath (cstr d.path pathSize 0) = some path)
    (hstat : a.statResult = .frOk) (hdir : a.isDir = false) (hopen : a.openResult = .frOk)
    {turns : Nat} (hturns : contents.length < recvBufSize * turns) :
    ∃ pieces calls,
      doGet a turns false d =
          ⟨.sent ((getHeader contents.length, a.sends 0) :: pieces), calls, true⟩ ∧
        (calls.filter isClose).length = 1 ∧
        (a.sends 0 = true ∧ Fine pieces calls → delivered pieces = contents) ∧
        (¬ (a.sends 0 = true ∧ Fine pieces calls) →
          ∃ j, recvBufSize * j ≤ contents.length ∧
            delivered pieces = contents.take (recvBufSize * j)) ∧
        (a.sends 0 = true → (Fine pieces calls ↔ Good a contents 0)) := by
  have hdo : doGet a turns false d =
      if a.sends 0 = true then
        let l := getLoop a turns 0 d.recvBuf
        ⟨.sent ((getHeader contents.length, a.sends 0) :: l.pieces),
          .stat path .frOk :: .card (.openRead path .frOk) :: l.calls ++
            (if l.ended then [.close a.closeResult] else []), l.ended⟩
      else ⟨.sent [(getHeader contents.length, a.sends 0)],
        [.stat path .frOk, .card (.openRead path .frOk), .close a.closeResult], true⟩ := by
    unfold doGet
    simp only [hpath, hstat, hdir, hopen, hfile.size, ne_eq, not_true_eq_false, Bool.false_eq_true,
      if_false, and_true]
  rw [hdo]
  by_cases hheader : a.sends 0 = true
  · obtain ⟨pieces, calls, hloop, hstreams⟩ := @getLoop_streams _ _ 0 hfile turns d.recvBuf
      (Nat.zero_le _) (by rwa [Nat.zero_add])
    have hgood := @getLoop_fine_iff _ _ 0 hfile turns d.recvBuf (Nat.zero_le _)
      (by rwa [Nat.zero_add])
    rw [hloop] at hgood
    rw [if_pos hheader, hloop]
    refine ⟨pieces, _, rfl, closes_around hstreams.reads path _ _ _, fun hfine => ?_,
      fun hfail => ?_, fun _ => (fine_around ..).trans hgood⟩
    · exact hstreams.whole ((fine_around ..).mp hfine.2)
    · apply hstreams.part
      intro hfine
      exact hfail ⟨hheader, (fine_around ..).mpr hfine⟩
  · rw [if_neg hheader]
    exact ⟨[], _, rfl, rfl, fun hfine => absurd hfine.1 hheader,
      fun _ => ⟨0, Nat.zero_le _, rfl⟩, fun hsent => absurd hsent hheader⟩

def fileAnswers (contents : List UInt8) : GetAnswers where
  statResult := .frOk
  isDir := false
  fsize := contents.length
  openResult := .frOk
  reads k := (.frOk, (contents.drop (recvBufSize * k)).take recvBufSize)
  sends _ := true
  closeResult := .frOk

def hiAnswers : GetAnswers := fileAnswers (ascii "hi")

def hiDav : Dav := { Dav.init (fun _ => 0) (fun _ => 0) (fun _ => 0) with
  path := write (fun _ => 0) 0 (ascii "/a") }

def manyBytes : List UInt8 := List.replicate 5000 120

/-- More than one receive buffer. -/
theorem get_streams_many : ∃ pieces calls,
    doGet (fileAnswers manyBytes) 2 false hiDav =
        ⟨.sent ((getHeader manyBytes.length, true) :: pieces), calls, true⟩ ∧
      (calls.filter isClose).length = 1 ∧ delivered pieces = manyBytes := by
  have hlen : manyBytes.length < recvBufSize * 2 := by
    rw [manyBytes, List.length_replicate]
    decide
  obtain ⟨pieces, calls, hdo, hclose, hwhole, -, hfine⟩ := get_streams
    (a := fileAnswers manyBytes) ⟨rfl, fun _ _ => rfl⟩
    (by decide +kernel : mapPath (cstr hiDav.path pathSize 0) = some (ascii "SD:/a")) rfl rfl rfl hlen
  have hgood : Good (fileAnswers manyBytes) manyBytes 0 := fun _ _ _ => ⟨rfl, fun _ => rfl⟩
  exact ⟨pieces, calls, hdo, hclose, hwhole ⟨rfl, (hfine rfl).mpr hgood⟩⟩

end RapiBootloader.WebDavGet
