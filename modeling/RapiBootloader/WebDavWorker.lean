import RapiBootloader.WebDavGet
import RapiBootloader.WebDavTarget
import RapiBootloader.WebDavUpload

namespace RapiBootloader.WebDavWorker

open Lib.Memory Lib.Strings Lib.CLibrary Lib.Logs Card WebDavText WebDavServer WebDavRequest
open WebDavParse WebDavPut WebDavUpload WebDavListing WebDavHeaders WebDavGet WebDavTarget

inductive WorkerCall
  | dav (call : DavCall)
  | unlink (path : List UInt8) (result : FResult)
  | mkdir (path : List UInt8) (result : FResult)
deriving DecidableEq, Repr

/-- What one request is answered by the card, the heap and the connection, whatever its method. -/
structure WorkerAnswers where
  get : GetAnswers
  put : PutAnswers
  propfind : DirAnswers
  unlinkResult : FResult
  mkdirResult : FResult

def optionsHeader : List UInt8 :=
  ascii "HTTP/1.1 200 OK" ++ crlf ++
    ascii "Server: " ++ serverName ++ crlf ++
    ascii "DAV: 1" ++ crlf ++
    ascii "Allow: OPTIONS, GET, HEAD, PUT, DELETE, MKCOL, PROPFIND" ++ crlf ++
    ascii "MS-Author-Via: DAV" ++ crlf ++
    ascii "Content-Length: 0" ++ crlf ++
    ascii "Connection: close" ++ crlf ++ crlf

/-- The result of `Send` is dropped. -/
def doOptions (sends : Nat → Bool) : Reply := .sent [(optionsHeader, sends 0)]

def doDelete (result : FResult) (d : Dav) : Response × List WorkerCall :=
  let path := cstr d.path pathSize 0
  match mapPath path with
  | none => (⟨403, "Forbidden", "text/plain", ascii "Cannot delete the DAV root"⟩, [])
  | some sdPath =>
    if path = ascii "/" then
      (⟨403, "Forbidden", "text/plain", ascii "Cannot delete the DAV root"⟩, [])
    else
      (match result with
        | .frOk => ⟨204, "No Content", "text/plain", []⟩
        | .frNoFile | .frNoPath => ⟨404, "Not Found", "text/plain", ascii "Not found"⟩
        | .frDenied => ⟨409, "Conflict", "text/plain", ascii "Directory not empty"⟩
        | _ => ⟨500, "Internal Server Error", "text/plain", ascii "Delete failed"⟩,
        [.unlink sdPath result])

def doMkcol (result : FResult) (d : Dav) : Response × List WorkerCall :=
  match mapPath (cstr d.path pathSize 0) with
  | none => (⟨403, "Forbidden", "text/plain", ascii "Invalid path"⟩, [])
  | some sdPath =>
    (match result with
      | .frOk => ⟨201, "Created", "text/plain", []⟩
      | .frExist => ⟨405, "Method Not Allowed", "text/plain", ascii "Already exists"⟩
      | .frNoPath => ⟨409, "Conflict", "text/plain", ascii "Parent does not exist"⟩
      | _ => ⟨500, "Internal Server Error", "text/plain", ascii "MKCOL failed"⟩,
      [.mkdir sdPath result])

/-- The choice of a handler. `turns` is how far the loop of a `GET` goes. -/
def handle (a : WorkerAnswers) (turns : Nat) (s : Socket) (d : Dav) : Reply × List WorkerCall :=
  let method := cstr d.method methodSize 0
  if method = ascii "OPTIONS" then (doOptions a.get.sends, [])
  else if method = ascii "GET" then
    let done := doGet a.get turns false d
    (done.reply, done.calls.map .dav)
  else if method = ascii "HEAD" then
    let done := doGet a.get turns true d
    (done.reply, done.calls.map .dav)
  else if method = ascii "PUT" then
    let done := doPut a.put s d
    (.simple done.response, done.calls.map .dav)
  else if method = ascii "DELETE" then
    let (response, calls) := doDelete a.unlinkResult d
    (.simple response, calls)
  else if method = ascii "MKCOL" then
    let (response, calls) := doMkcol a.mkdirResult d
    (.simple response, calls)
  else if method = ascii "PROPFIND" then
    let (response, calls) := doPropfind a.propfind d
    (.simple response, calls.map .dav)
  else (.simple ⟨501, "Method Not Implemented", "text/plain", ascii "Unsupported method"⟩, [])

/-- One connection. Nothing is replied when the headers do not come or do not fit. -/
def worker (a : WorkerAnswers) (turns : Nat) (s : Socket) (d : Dav) :
    Option Reply × List WorkerCall :=
  match readRequest s d with
  | none => (none, [])
  | some (true, s, d) =>
    let (reply, calls) := handle a turns s d
    (some reply, calls)
  | some (false, _, _) =>
    (some (.simple ⟨400, "Bad Request", "text/plain", ascii "Malformed request"⟩), [])

/-- How the functions of a worker leave it, one after the other. -/
inductive Reached (a : WorkerAnswers) (s : Socket) : Dav → Prop
  | constructed (method path recvBuf : Mem UInt8) : Reached a s (Dav.init method path recvBuf)
  | received (method path recvBuf : Mem UInt8) :
      Reached a s (receiveHeaders s (Dav.init method path recvBuf)).2.2
  | parsed {method path recvBuf : Mem UInt8} {ok : Bool} {s' : Socket} {d : Dav}
      (h : readRequest s (Dav.init method path recvBuf) = some (ok, s', d)) : Reached a s d
  | putting {method path recvBuf : Mem UInt8} {s' : Socket} {d : Dav} {u : Put}
      (h : readRequest s (Dav.init method path recvBuf) = some (true, s', d))
      (hbegin : putBegin a.put d = .inr u) (turns : Nat) :
      Reached a s (putLoop a.put turns s' u).dav
  | put {method path recvBuf : Mem UInt8} {s' : Socket} {d : Dav} {u : Put}
      (h : readRequest s (Dav.init method path recvBuf) = some (true, s', d))
      (hbegin : putBegin a.put d = .inr u) :
      Reached a s (putFinish a.put (putLoop a.put u.remaining s' u)).2.dav

def Terminated (m : Mem UInt8) (size : Nat) : Prop := ∃ i < size, m i = 0

def davPaths : DavCall → List (List UInt8)
  | .card (.mkdir path) => [path]
  | .card (.openRead path _) => [path]
  | .card (.openWrite path _) => [path]
  | .stat path _ => [path]
  | .opendir path _ => [path]
  | _ => []

def callPaths : WorkerCall → List (List UInt8)
  | .dav call => davPaths call
  | .unlink path _ => [path]
  | .mkdir path _ => [path]

def Inside (path : List UInt8) : Prop := ascii "SD:/" <+: path ∧ ¬ ascii ".." <:+: path

def Within {C : Type} (paths : C → List (List UInt8)) (calls : List C) : Prop :=
  ∀ c ∈ calls, ∀ path ∈ paths c, Inside path

theorem terminated_iff {m : Mem UInt8} {size : Nat} :
    Terminated m size ↔ (cstr m size 0).length < size := by
  have hmem : Terminated m size ↔ 0 ∈ read m 0 size := by
    simp only [Terminated, Lib.Memory.read, List.mem_map, List.mem_range, Nat.zero_add]
  have hlen : (read m 0 size).length = size := length_read m 0 size
  have hpre := List.takeWhile_prefix (l := read m 0 size) (· != 0)
  rw [hmem, cstr, Nat.sub_zero]
  constructor
  · intro hnul
    by_contra hno
    have hall := hpre.eq_of_length (by have := hpre.length_le; omega)
    rw [← hall] at hnul
    exact ne_nul_of_mem_takeWhile hnul rfl
  · intro hlt
    by_contra hno
    rw [takeWhile_nul_self hno, hlen] at hlt
    exact Nat.lt_irrefl _ hlt

structure CStrings (d : Dav) : Prop where
  method : Terminated d.method methodSize
  path : Terminated d.path pathSize

theorem cStrings_iff {d : Dav} :
    CStrings d ↔ (view d).method.length < methodSize ∧ (view d).path.length < pathSize := by
  rw [view, ← terminated_iff, ← terminated_iff]
  exact ⟨fun h => ⟨h.method, h.path⟩, fun h => ⟨h.1, h.2⟩⟩

theorem CStrings.congr {d d' : Dav} (h : CStrings d) (hmethod : d'.method = d.method)
    (hpath : d'.path = d.path) : CStrings d' :=
  ⟨hmethod ▸ h.method, hpath ▸ h.path⟩

theorem cStrings_init (method path recvBuf : Mem UInt8) : CStrings (Dav.init method path recvBuf) := by
  rw [cStrings_iff, view_init]
  exact ⟨by decide, by decide⟩

theorem receiveLoop_same (turns : Nat) (s : Socket) (d : Dav) :
    (receiveLoop turns s d).2.2.method = d.method ∧ (receiveLoop turns s d).2.2.path = d.path := by
  induction turns generalizing s d with
  | zero => exact ⟨rfl, rfl⟩
  | succ turns ih =>
    rw [receiveLoop]
    by_cases hroom : d.recvFill < recvBufSize
    · rw [if_pos hroom]
      generalize receive s (recvBufSize - d.recvFill) = r
      obtain ⟨bytes, s'⟩ := r
      cases bytes with
      | nil => exact ⟨rfl, rfl⟩
      | cons b bs =>
        dsimp only
        split
        · exact ⟨rfl, rfl⟩
        · exact ih ..
    · rw [if_neg hroom]
      exact ⟨rfl, rfl⟩

theorem cStrings_received {d : Dav} (h : CStrings d) (s : Socket) :
    CStrings (receiveHeaders s d).2.2 := by
  obtain ⟨hmethod, hpath⟩ := receiveLoop_same (recvBufSize + 1) s { d with recvFill := 0 }
  exact h.congr hmethod hpath

theorem decodedPath_length_le (target : List UInt8) :
    (decodedPath target).length ≤ target.length :=
  Nat.le_trans (List.takeWhile_prefix _).length_le (percentDecode_length_le target)

theorem readText_fits (text : List UInt8) {v : View}
    (h : v.method.length < methodSize ∧ v.path.length < pathSize) :
    (readText text v).2.method.length < methodSize ∧
      (readText text v).2.path.length < pathSize := by
  cases hline : requestLine text with
  | none =>
    rw [readText_none hline]
    exact h
  | some words =>
    obtain ⟨method, target⟩ := words
    rw [readText_some hline]
    split
    · exact h
    · rename_i hshort
      split
      · rename_i hroot
        exact ⟨Nat.not_le.mp hshort, Nat.lt_of_le_of_lt (decodedPath_length_le target) hroot.2⟩
      · exact ⟨Nat.not_le.mp hshort, h.2⟩

theorem cStrings_parsed {s s' : Socket} {d d' : Dav} {ok : Bool} (hd : CStrings d)
    (h : readRequest s d = some (ok, s', d')) : CStrings d' := by
  obtain ⟨i, hin⟩ := readRequest_some h
  have hfits := readText_fits (headerText s.stream i) (cStrings_iff.mp hd)
  rw [← hin.outcome] at hfits
  exact cStrings_iff.mpr hfits

theorem rooted_parsed {s s' : Socket} {d d' : Dav} (h : readRequest s d = some (true, s', d')) :
    (cstr d'.path pathSize 0).head? = some 47 := by
  obtain ⟨i, hin⟩ := readRequest_some h
  have hok := congrArg Prod.fst hin.outcome
  obtain ⟨method, target, hwords⟩ := readText_accepts hok.symm
  have hview := hin.outcome
  rw [readText_words hwords, Prod.mk.injEq, view] at hview
  obtain ⟨-, hpath, -, -⟩ := View.mk.inj hview.2
  obtain ⟨rest, hrest⟩ := List.head?_eq_some_iff.mp hwords.rooted
  rw [hpath, hrest, decodedPath, percentDecode_slash, takeWhile_nul_cons (by decide)]
  rfl

theorem infix_of_infix_cons {a b : UInt8} {xs ys : List UInt8} (h : a :: xs <:+: b :: ys)
    (hne : a ≠ b) : a :: xs <:+: ys :=
  (List.infix_cons_iff.mp h).resolve_left (fun hpre => hne (List.cons_prefix_cons.mp hpre).1)

theorem mapPath_inside {path sdPath : List UInt8} (hroot : path.head? = some 47)
    (h : mapPath path = some sdPath) : Inside sdPath := by
  obtain ⟨rfl, hdots⟩ := mapPath_some h
  obtain ⟨rest, rfl⟩ := List.head?_eq_some_iff.mp hroot
  refine ⟨⟨rest, rfl⟩, fun hin => hdots ?_⟩
  exact infix_of_infix_cons (infix_of_infix_cons (infix_of_infix_cons hin (by decide)) (by decide))
    (by decide)

theorem Inside.take {path : List UInt8} (h : Inside path) {n : Nat} (hn : 4 ≤ n) :
    Inside (path.take n) := by
  refine ⟨List.prefix_take_iff.mpr ⟨h.1, hn⟩, fun hin => h.2 ?_⟩
  exact hin.trans (List.take_prefix n path).isInfix

section
variable {C : Type} {paths : C → List (List UInt8)}

theorem within_nil : Within paths [] := fun _ hc => absurd hc List.not_mem_nil

theorem Within.append {calls more : List C} (h : Within paths calls) (hmore : Within paths more) :
    Within paths (calls ++ more) := by
  intro c hc
  obtain hc | hc := List.mem_append.mp hc
  · exact h c hc
  · exact hmore c hc

theorem within_pathless {calls : List C} (h : ∀ c ∈ calls, paths c = []) : Within paths calls := by
  intro c hc path hpath
  rw [h c hc] at hpath
  cases hpath

theorem within_about {call : C} {path : List UInt8} (h : paths call = [path])
    (hpath : Inside path) : Within paths [call] := by
  intro c hc p hp
  rw [List.mem_singleton.mp hc, h] at hp
  rwa [List.mem_singleton.mp hp]

end

theorem within_parentDirs {path : List UInt8} (h : Inside path) :
    Within davPaths ((parentDirs path).map .card) := by
  intro c hc p hp
  obtain ⟨call, hcall, rfl⟩ := List.mem_map.mp hc
  obtain ⟨i, -, hi⟩ := List.mem_filterMap.mp hcall
  split at hi
  · rename_i hslash
    cases hi
    rw [List.mem_singleton.mp hp]
    exact h.take hslash.1
  · cases hi

theorem within_follows {calls calls' : List DavCall} (h : Extends Follows calls calls')
    (hcalls : Within davPaths calls) : Within davPaths calls' := by
  obtain ⟨more, rfl, hmore⟩ := h
  apply hcalls.append
  apply within_pathless
  intro c hc
  obtain ⟨bytes, result, written, rfl⟩ | ⟨result, rfl⟩ := hmore c hc <;> rfl

section
variable {a : PutAnswers} {d : Dav}

theorem putBegin_unopened {path : List UInt8} (hpath : mapPath (cstr d.path pathSize 0) = some path)
    (hopen : a.openResult ≠ .frOk) :
    putBegin a d = .inl (⟨409, "Conflict", "text/plain", ascii "Cannot create file"⟩,
      (opened a d path).calls) := by
  unfold putBegin
  rw [hpath]
  dsimp only
  rw [if_pos hopen]
  rfl

theorem putBegin_onward {u : Put} (h : putBegin a d = .inr u) :
    ∃ path, mapPath (cstr d.path pathSize 0) = some path ∧ Onward IsWrite (opened a d path) u := by
  cases hpath : mapPath (cstr d.path pathSize 0) with
  | none =>
    unfold putBegin at h
    rw [hpath] at h
    cases h
  | some path =>
    by_cases hopen : a.openResult = .frOk
    · rw [putBegin_opened hpath hopen] at h
      cases h
      exact ⟨path, rfl, (Onward.refl _).buffered⟩
    · rw [putBegin_unopened hpath hopen] at h
      cases h

theorem doPut_calls {path : List UInt8} (s : Socket)
    (hpath : mapPath (cstr d.path pathSize 0) = some path) :
    Extends Follows (opened a d path).calls (doPut a s d).calls := by
  unfold doPut
  by_cases hopen : a.openResult = .frOk
  · rw [putBegin_opened hpath hopen]
    exact (((Onward.refl _).buffered.loop _ s).finish).calls
  · rw [putBegin_unopened hpath hopen]
    exact Extends.refl _

theorem within_opened {path : List UInt8} (h : Inside path) :
    Within davPaths (opened a d path).calls := by
  have hstat : Within davPaths [.stat path a.statResult] := within_about rfl h
  have hopen : Within davPaths [.card (.openWrite path a.openResult)] := within_about rfl h
  exact (within_parentDirs h).append (hstat.append hopen)

theorem within_doPut (s : Socket) (hroot : (cstr d.path pathSize 0).head? = some 47) :
    Within davPaths (doPut a s d).calls := by
  cases hpath : mapPath (cstr d.path pathSize 0) with
  | none =>
    unfold doPut putBegin
    rw [hpath]
    exact within_nil
  | some path =>
    exact within_follows (doPut_calls s hpath) (within_opened (mapPath_inside hroot hpath))

end

theorem getLoop_reads (a : GetAnswers) (turns k : Nat) (buf : Mem UInt8) :
    ∀ c ∈ (getLoop a turns k buf).calls, isRead c = true := by
  induction turns generalizing k buf with
  | zero => exact fun c hc => absurd hc List.not_mem_nil
  | succ turns ih =>
    have hread : ∀ c ∈ [readCall a k], isRead c = true := by
      intro c hc
      rw [List.mem_singleton.mp hc]
      rfl
    have hturn := getLoop_turn a turns k buf
    generalize getLoop a (turns + 1) k buf = r at hturn ⊢
    cases hturn with
    | failed | ended | lost | last => exact hread
    | full =>
      intro c hc
      obtain rfl | hc := List.mem_cons.mp hc
      · rfl
      · exact ih (k + 1) _ c hc

theorem within_reads {calls : List DavCall} (h : ∀ c ∈ calls, isRead c = true) :
    Within davPaths calls := by
  apply within_pathless
  intro c hc
  have hread := h c hc
  cases c with
  | card call =>
    cases call with
    | read count result bytes => rfl
    | _ => cases hread
  | _ => cases hread

theorem within_doGet (a : GetAnswers) (turns : Nat) (headOnly : Bool) {d : Dav}
    (hroot : (cstr d.path pathSize 0).head? = some 47) :
    Within davPaths (doGet a turns headOnly d).calls := by
  unfold doGet
  cases hpath : mapPath (cstr d.path pathSize 0) with
  | none => exact within_nil
  | some path =>
    have hinside := mapPath_inside hroot hpath
    have hstat : Within davPaths [.stat path a.statResult] := within_about rfl hinside
    have hopen : Within davPaths [.card (.openRead path a.openResult)] := within_about rfl hinside
    have hclose : Within davPaths [.close a.closeResult] :=
      within_pathless (List.forall_mem_singleton.mpr rfl)
    dsimp only
    split
    · exact hstat
    split
    · exact hstat
    split
    · exact hstat.append hopen
    split
    · have hloop := within_reads (getLoop_reads a turns 0 d.recvBuf)
      generalize getLoop a turns 0 d.recvBuf = l at hloop ⊢
      have hend : Within davPaths (if l.ended then [.close a.closeResult] else []) := by
        split
        · exact hclose
        · exact within_nil
      exact ((hstat.append hopen).append hloop).append hend
    · exact (hstat.append hopen).append hclose

theorem within_doPropfind (a : DirAnswers) {d : Dav}
    (hroot : (cstr d.path pathSize 0).head? = some 47) : Within davPaths (doPropfind a d).2 := by
  unfold doPropfind
  dsimp only
  cases hpath : mapPath (cstr d.path pathSize 0) with
  | none => exact within_nil
  | some path =>
    have hinside := mapPath_inside hroot hpath
    have hstat : Within davPaths [.stat path a.statResult] := within_about rfl hinside
    have hdir : Within davPaths [.opendir path a.openResult] := within_about rfl hinside
    dsimp only
    split
    · exact hstat
    · generalize (if cstr d.path pathSize 0 = ascii "/" then _ else a.statInfo : FileInfo) = self
      apply Within.append
      · split
        · exact within_nil
        · exact hstat
      · split
        · exact hdir
        · exact within_nil

theorem Within.dav {calls : List DavCall} (h : Within davPaths calls) :
    Within callPaths (calls.map WorkerCall.dav) := by
  intro c hc
  obtain ⟨call, hcall, rfl⟩ := List.mem_map.mp hc
  exact h call hcall

theorem within_ite {p : Prop} [Decidable p] {r t : Reply × List WorkerCall}
    (hr : Within callPaths r.2) (ht : Within callPaths t.2) :
    Within callPaths (if p then r else t).2 := by
  split
  · exact hr
  · exact ht

theorem within_doDelete (result : FResult) {d : Dav}
    (hroot : (cstr d.path pathSize 0).head? = some 47) : Within callPaths (doDelete result d).2 := by
  unfold doDelete
  dsimp only
  cases hpath : mapPath (cstr d.path pathSize 0) with
  | none => exact within_nil
  | some sdPath =>
    dsimp only
    split
    · exact within_nil
    · exact within_about rfl (mapPath_inside hroot hpath)

theorem within_doMkcol (result : FResult) {d : Dav}
    (hroot : (cstr d.path pathSize 0).head? = some 47) : Within callPaths (doMkcol result d).2 := by
  unfold doMkcol
  cases hpath : mapPath (cstr d.path pathSize 0) with
  | none => exact within_nil
  | some sdPath => exact within_about rfl (mapPath_inside hroot hpath)

/-- Each handler keeps to the tree. -/
theorem within_handle (a : WorkerAnswers) (turns : Nat) (s : Socket) {d : Dav}
    (hroot : (cstr d.path pathSize 0).head? = some 47) : Within callPaths (handle a turns s d).2 := by
  have hget := (within_doGet a.get turns false hroot).dav
  have hhead := (within_doGet a.get turns true hroot).dav
  have hput := (within_doPut (a := a.put) s hroot).dav
  have hdelete := within_doDelete a.unlinkResult hroot
  have hmkcol := within_doMkcol a.mkdirResult hroot
  have hpropfind := (within_doPropfind a.propfind hroot).dav
  unfold handle
  refine within_ite ?_ (within_ite ?_ (within_ite ?_ (within_ite ?_ (within_ite ?_
    (within_ite ?_ (within_ite ?_ ?_))))))
  · exact within_nil
  · dsimp only
    exact hget
  · dsimp only
    exact hhead
  · dsimp only
    exact hput
  · dsimp only
    exact hdelete
  · dsimp only
    exact hmkcol
  · dsimp only
    exact hpropfind
  · exact within_nil

theorem cStrings_reached {a : WorkerAnswers} {s : Socket} {d : Dav} (h : Reached a s d) :
    CStrings d := by
  cases h with
  | constructed method path recvBuf => exact cStrings_init method path recvBuf
  | received method path recvBuf => exact cStrings_received (cStrings_init method path recvBuf) s
  | parsed h => exact cStrings_parsed (cStrings_init _ _ _) h
  | putting h hbegin turns =>
    obtain ⟨path, -, honward⟩ := putBegin_onward hbegin
    exact (cStrings_parsed (cStrings_init _ _ _) h).congr (honward.loop turns _).method
      (honward.loop turns _).path
  | put h hbegin =>
    obtain ⟨path, -, honward⟩ := putBegin_onward hbegin
    exact (cStrings_parsed (cStrings_init _ _ _) h).congr (honward.loop _ _).finish.method
      (honward.loop _ _).finish.path

/-- Whatever a client sends and the card answers, FatFs is only given paths inside the card's tree,
and the method and the path stay C strings in their arrays. -/
theorem worker_inside (a : WorkerAnswers) (turns : Nat) (method path recvBuf : Mem UInt8)
    (s : Socket) :
    Within callPaths (worker a turns s (Dav.init method path recvBuf)).2 ∧
      ∀ d, Reached a s d → CStrings d := by
  refine ⟨?_, fun d => cStrings_reached⟩
  unfold worker
  cases hread : readRequest s (Dav.init method path recvBuf) with
  | none => exact within_nil
  | some request =>
    obtain ⟨ok, s', d⟩ := request
    cases ok with
    | false => exact within_nil
    | true => exact within_handle a turns s' (rooted_parsed hread)

def obliging : WorkerAnswers where
  get := hiAnswers
  put := roomyCard .frOk
  propfind := ⟨.frOk, ⟨[], true, 0⟩, .frOk, []⟩
  unlinkResult := .frOk
  mkdirResult := .frOk

/-- Dots that are escaped twice are no dots, and make a name in the directory `d`. -/
example : (worker obliging 1 (atOnce (ascii "PUT /d/%252e%252e?/.. HTTP/1.1" ++ crlfcrlf))
    blankWorker).2 =
      [.dav (.card (.mkdir (ascii "SD:/d"))), .dav (.stat (ascii "SD:/d/%2e%2e") .frNoFile),
        .dav (.card (.openWrite (ascii "SD:/d/%2e%2e") .frOk)), .dav (.close .frOk)] := by
  decide +kernel

end RapiBootloader.WebDavWorker
