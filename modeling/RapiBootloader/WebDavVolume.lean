import RapiBootloader.WebDavWorker
import RapiBootloader.Lib.Volumes

namespace RapiBootloader.WebDavVolume

open Lib.Memory Lib.Strings Lib.CLibrary Lib.Logs Lib.Volumes Card WebDavText WebDavServer
open WebDavRequest WebDavParse WebDavPut WebDavBatch WebDavUpload WebDavListing WebDavGet WebDavWorker

/-- One connection, with all that it is answered. -/
structure Connection where
  answers : WorkerAnswers
  turns : Nat
  socket : Socket
  method : Mem UInt8
  path : Mem UInt8
  recvBuf : Mem UInt8

def Connection.dav (c : Connection) : Dav := Dav.init c.method c.path c.recvBuf

def Connection.reply (c : Connection) : Option Reply := (worker c.answers c.turns c.socket c.dav).1

def Connection.calls (c : Connection) : List WorkerCall :=
  (worker c.answers c.turns c.socket c.dav).2

/-- The request is well formed, and `d` is how it has been parsed. -/
def Connection.Asks (c : Connection) (s : Socket) (d : Dav) : Prop :=
  readRequest c.socket c.dav = some (true, s, d)

variable {K : Type} (key : List UInt8 → K)

/-- What a call asks of a volume whose entry for a path has the name `key path`. What `f_close`
answers is not in the call. -/
def cardOp (closes : Bool) : CardCall → Op K UInt8
  | .mkdir path => .makeDir (key path)
  | .openRead path result => .openRead (key path) (result = .frOk)
  | .openWrite path result => .create (key path) (result = .frOk)
  | .write bytes result written => .append (bytes.take written) (result = .frOk)
  | .read count result bytes => .read count bytes (result = .frOk)
  | .close => .shut closes

def volumeOp (info : Option (Bool × Nat)) : WorkerCall → Op K UInt8
  | .dav (.card call) => cardOp key false call
  | .dav (.stat path result) => .look (key path) (if result = .frOk then info else none)
  | .dav (.opendir _ _) => .other
  | .dav (.close result) => .shut (result = .frOk)
  | .unlink path _ => .remove (key path)
  | .mkdir path _ => .makeDir (key path)

def Connection.info (c : Connection) : Option (Bool × Nat) :=
  match readRequest c.socket c.dav with
  | some (true, _, d) =>
    if cstr d.method methodSize 0 = ascii "GET" then some (c.answers.get.isDir, c.answers.get.fsize)
    else none
  | _ => none

def IsPut (c : Connection) (path bytes : List UInt8) : Prop :=
  ∃ s d, c.Asks s d ∧ cstr d.method methodSize 0 = ascii "PUT" ∧
    mapPath (cstr d.path pathSize 0) = some path ∧ (body d s).take d.contentLength = bytes

def IsGet (c : Connection) (path : List UInt8) : Prop :=
  ∃ s d, c.Asks s d ∧ cstr d.method methodSize 0 = ascii "GET" ∧
    mapPath (cstr d.path pathSize 0) = some path

def Alters (c : Connection) (k : K) : Prop :=
  ∃ s d path, c.Asks s d ∧
    (cstr d.method methodSize 0 = ascii "PUT" ∨ cstr d.method methodSize 0 = ascii "DELETE") ∧
    mapPath (cstr d.path pathSize 0) = some path ∧ key path = k

/-- A `PUT` that opens its file only writes to it before it closes it. -/
theorem doPut_writes {a : PutAnswers} {d : Dav} {path : List UInt8} (s : Socket)
    (hpath : mapPath (cstr d.path pathSize 0) = some path) (hopen : a.openResult = .frOk) :
    ∃ calls, (doPut a s d).calls = calls ++ [.close a.closeResult] ∧
      Extends IsWrite (opened a d path).calls calls := by
  unfold doPut
  rw [putBegin_opened hpath hopen]
  exact ⟨_, rfl, ((Onward.refl _).buffered.loop _ s).last.calls⟩

theorem doPut_reported {a : PutAnswers} {s : Socket} {d : Dav} {path : List UInt8}
    (hpath : mapPath (cstr d.path pathSize 0) = some path) (hbuf : d.writeBuf = none)
    (hfill : d.writeBufFill = 0) (hr : Reported (doPut a s d).response) :
    a.openResult = .frOk ∧
      ∃ writes, (doPut a s d).calls = (opened a d path).calls ++ writes ++ [.close a.closeResult] ∧
        stored writes = (body d s).take d.contentLength ∧
        ∀ c ∈ writes, ∃ bytes written, c = .card (.write bytes .frOk written) := by
  have hopens : Opens a d := by
    by_contra hno
    obtain ⟨r, calls, hput, hreport, -⟩ := doPut_refused s hno
    rw [hput] at hr
    exact hreport hr
  refine ⟨hopens.2, ?_⟩
  obtain ⟨calls, hcalls, writes, rfl, hwrites⟩ := doPut_writes s hpath hopens.2
  obtain ⟨u, hput, -, hends⟩ := doPut_ends (s := s) hpath hopens.2 hbuf hfill
  rw [hput] at hr hcalls
  have hfailed : u.ok = false → False := by
    intro hok
    rw [putFinish_failed hok] at hr
    simp [Reported] at hr
  cases hends with
  | cut hok => exact (hfailed hok).elim
  | refused hok => exact (hfailed hok).elim
  | whole h hzero =>
    obtain ⟨ok, v, heq, -, -, hv⟩ := flush_last h hzero
    rw [putFinish_flushed h.ok heq] at hr hcalls
    cases ok with
    | false => simp [Reported] at hr
    | true =>
      have hsame : v.calls = (opened a d path).calls ++ writes := List.append_cancel_right hcalls
      rw [hsame, stored_append, stored_opened, List.nil_append] at hv
      refine ⟨writes, ?_, hv.1, fun c hc => ?_⟩
      · rw [hput, putFinish_flushed h.ok heq]
        exact hcalls
      · obtain ⟨bytes, result, written, rfl⟩ := hwrites c hc
        have hfine := hv.2 _ (List.mem_append_right _ hc)
        rw [succeeded] at hfine
        exact ⟨bytes, written, by rw [of_decide_eq_true hfine]⟩

theorem writes_ops (info : Option (Bool × Nat)) {writes : List DavCall}
    (h : ∀ c ∈ writes, ∃ bytes written, c = .card (.write bytes .frOk written)) :
    (writes.map WorkerCall.dav).map (volumeOp key info) =
      (writes.map storedBy).map (.append · true) := by
  rw [List.map_map, List.map_map]
  apply List.map_congr_left
  intro c hc
  obtain ⟨bytes, written, rfl⟩ := h c hc
  rfl

theorem put_ops (info : Option (Bool × Nat)) {a : PutAnswers} {s : Socket} {d : Dav}
    {path : List UInt8} (hpath : mapPath (cstr d.path pathSize 0) = some path)
    (hbuf : d.writeBuf = none) (hfill : d.writeBufFill = 0)
    (hr : Reported (doPut a s d).response) (hclose : a.closeResult = .frOk) :
    ∃ (before : List (Op K UInt8)) (parts : List (List UInt8)),
      ((doPut a s d).calls.map WorkerCall.dav).map (volumeOp key info) =
        before ++ .create (key path) true :: (parts.map (.append · true) ++ [.shut true]) ∧
      parts.flatten = (body d s).take d.contentLength ∧
      ∀ op ∈ before, ¬ op.Changes (key path) := by
  obtain ⟨hopen, writes, hcalls, hstored, hwrites⟩ := doPut_reported hpath hbuf hfill hr
  refine ⟨(((parentDirs path).map DavCall.card ++ [DavCall.stat path a.statResult]).map
    WorkerCall.dav).map (volumeOp key info), writes.map storedBy, ?_, ?_, fun op hop => ?_⟩
  · rw [hcalls, hclose, opened, hopen, List.map_append, List.map_append, List.map_append,
      List.map_append, writes_ops key info hwrites]
    simp [volumeOp, cardOp]
  · rw [← hstored, stored, List.flatMap_def]
  · obtain ⟨call, hcall, rfl⟩ := List.mem_map.mp hop
    obtain ⟨c, hc, rfl⟩ := List.mem_map.mp hcall
    obtain hdir | hstat := List.mem_append.mp hc
    · obtain ⟨made, hmade, rfl⟩ := List.mem_map.mp hdir
      obtain ⟨dir, rfl⟩ := parentDirs_mkdir path made hmade
      exact fun h => h
    · rw [List.mem_singleton.mp hstat]
      exact fun h => h

def okRead (bytes : List UInt8) : DavCall := .card (.read recvBufSize .frOk bytes)

theorem slices_end {c : List UInt8} {pos : Nat} {bytes : List UInt8}
    (h : Slices c pos [(recvBufSize, bytes)]) (hshort : bytes.length ≠ recvBufSize) :
    bytes = c.drop pos := by
  have hlen := congrArg List.length h.1
  rw [List.length_take] at hlen
  rw [h.1]
  apply List.take_of_length_le
  omega

theorem getLoop_slices {a : GetAnswers} {c : List UInt8} (turns : Nat) {k pos : Nat}
    {buf : Mem UInt8} (hpos : pos ≤ c.length)
    (hs : ∀ (reads : List (List UInt8)) (after : List DavCall),
      (getLoop a turns k buf).calls = reads.map okRead ++ after →
        Slices c pos (reads.map (recvBufSize, ·))) :
    delivered (getLoop a turns k buf).pieces <+: c.drop pos ∧
      (c.length < pos + recvBufSize * turns →
        (getLoop a turns k buf).ended = true ∧
          (Fine (getLoop a turns k buf).pieces (getLoop a turns k buf).calls →
            delivered (getLoop a turns k buf).pieces = c.drop pos)) := by
  induction turns generalizing k pos buf with
  | zero => exact ⟨List.nil_prefix, fun hlt => absurd hpos (Nat.not_le.mpr hlt)⟩
  | succ turns ih =>
    have hread : (a.reads k).1 = .frOk → readCall a k = okRead (a.reads k).2 := by
      intro hok
      rw [readCall, hok]
      rfl
    have hturn := getLoop_turn a turns k buf
    generalize getLoop a (turns + 1) k buf = l at hturn hs ⊢
    cases hturn with
    | failed hfail =>
      refine ⟨List.nil_prefix, fun _ => ⟨rfl, fun hfine => ?_⟩⟩
      have hok := hfine.2 _ List.mem_cons_self
      exact absurd (of_decide_eq_true hok) hfail
    | ended hok hnil =>
      have hslice := hs [(a.reads k).2] [] (by rw [hread hok]; rfl)
      rw [← slices_end hslice (by rw [hnil]; decide), hnil]
      exact ⟨List.nil_prefix, fun _ => ⟨rfl, fun _ => rfl⟩⟩
    | lost hok =>
      refine ⟨List.nil_prefix, fun _ => ⟨rfl, fun hfine => ?_⟩⟩
      exact Bool.noConfusion (hfine.1 _ List.mem_cons_self)
    | last hok hshort =>
      have hslice := hs [(a.reads k).2] [] (by rw [hread hok]; rfl)
      rw [← slices_end hslice hshort]
      have hall : delivered [((a.reads k).2, true)] = (a.reads k).2 := List.append_nil _
      rw [hall]
      exact ⟨List.prefix_rfl, fun _ => ⟨rfl, fun _ => rfl⟩⟩
    | full hok hfull =>
      have hslice := (hs [(a.reads k).2] _ (by rw [hread hok]; rfl)).1
      have hlen := congrArg List.length hslice
      rw [List.length_take, List.length_drop, hfull] at hlen
      have hsplit : c.drop pos = (a.reads k).2 ++ c.drop (pos + recvBufSize) := by
        rw [hslice, ← List.drop_drop, List.take_append_drop]
      obtain ⟨hpre, hwhole⟩ := @ih (k + 1) (pos + recvBufSize) (write buf 0 (a.reads k).2)
        (by omega) (fun reads after hcalls => by
          have hnext := (hs ((a.reads k).2 :: reads) after
            (by rw [Loop.behind, hread hok, hcalls]; rfl)).2
          rwa [hfull] at hnext)
      rw [Loop.behind, List.singleton_append, delivered_cons, hsplit]
      refine ⟨(List.prefix_append_right_inj _).mpr hpre, fun hlt => ?_⟩
      obtain ⟨hended, hall⟩ := hwhole (by rw [Nat.mul_succ] at hlt; omega)
      refine ⟨hended, fun hfine => ?_⟩
      rw [hall ⟨fun p hp => hfine.1 p (List.mem_cons_of_mem _ hp),
        fun call hcall => hfine.2 call (List.mem_cons_of_mem _ hcall)⟩]

/-- `DoGet` answers with an error, or with a header and what its loop sends. -/
theorem doGet_replies {a : GetAnswers} (turns : Nat) {d : Dav} {path : List UInt8}
    (hpath : mapPath (cstr d.path pathSize 0) = some path) :
    (∃ r, (doGet a turns false d).reply = .simple r ∧
      ((r.status = 404 ∧
          ∃ result, .stat path result ∈ (doGet a turns false d).calls ∧ result ≠ .frOk) ∨
        (r.status = 500 ∧
          ∃ result, .card (.openRead path result) ∈ (doGet a turns false d).calls ∧
            result ≠ .frOk) ∨
        (a.isDir = true ∧ .stat path .frOk ∈ (doGet a turns false d).calls))) ∨
      ∃ l, (a.sends 0 = true → l = getLoop a turns 0 d.recvBuf) ∧
        (a.sends 0 = false → l = ⟨[], [], true⟩) ∧
        doGet a turns false d = ⟨.sent ((getHeader a.fsize, a.sends 0) :: l.pieces),
          .stat path .frOk :: .card (.openRead path .frOk) :: l.calls ++
            (if l.ended then [.close a.closeResult] else []), l.ended⟩ := by
  unfold doGet
  rw [hpath]
  dsimp only
  by_cases hstat : a.statResult = .frOk
  · rw [if_neg (not_not.mpr hstat)]
    cases hdir : a.isDir with
    | true =>
      rw [if_pos rfl]
      exact Or.inl ⟨_, rfl, Or.inr (Or.inr ⟨rfl, by rw [hstat]; exact List.mem_singleton_self _⟩)⟩
    | false =>
      rw [if_neg Bool.false_ne_true]
      by_cases hopen : a.openResult = .frOk
      · rw [if_neg (not_not.mpr hopen), hstat, hopen]
        cases hsend : a.sends 0 with
        | true => exact Or.inr ⟨_, fun _ => rfl, nofun, rfl⟩
        | false => exact Or.inr ⟨⟨[], [], true⟩, nofun, fun _ => rfl, rfl⟩
      · rw [if_pos hopen]
        exact Or.inl ⟨_, rfl, Or.inr (Or.inl
          ⟨rfl, a.openResult, List.mem_cons_of_mem _ (List.mem_singleton_self _), hopen⟩)⟩
  · rw [if_pos hstat]
    exact Or.inl ⟨_, rfl, Or.inl ⟨rfl, a.statResult, List.mem_singleton_self _, hstat⟩⟩

theorem get_ops (info : Option (Bool × Nat)) (path : List UInt8) (reads : List (List UInt8))
    (after : List DavCall) :
    ((DavCall.stat path .frOk :: .card (.openRead path .frOk) :: (reads.map okRead ++ after)).map
        WorkerCall.dav).map (volumeOp key info) =
      [.look (key path) info] ++ .openRead (key path) true ::
        ((reads.map (recvBufSize, ·)).map (fun r => .read r.1 r.2 true) ++
          (after.map WorkerCall.dav).map (volumeOp key info)) := by
  have hreads : ((reads.map okRead).map WorkerCall.dav).map (volumeOp key info) =
      (reads.map (recvBufSize, ·)).map (fun r => .read r.1 r.2 true) := by
    rw [List.map_map, List.map_map, List.map_map]
    rfl
  rw [← hreads, ← List.map_append, ← List.map_append]
  rfl

end RapiBootloader.WebDavVolume
