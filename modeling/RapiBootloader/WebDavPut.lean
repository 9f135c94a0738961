import RapiBootloader.WebDavParse
import RapiBootloader.Card

namespace RapiBootloader.WebDavPut

open Lib.Memory Lib.Strings Lib.CLibrary Card WebDavText WebDavServer WebDavParse

inductive DavCall
  | card (call : CardCall)
  | stat (path : List UInt8) (result : FResult)
  | opendir (path : List UInt8) (result : FResult)
  | close (result : FResult)
deriving DecidableEq, Repr

/-- What one `DoPut` is answered: by `f_stat`, `f_open`, each `f_write` in turn (its result and
how many bytes fit), `f_close`, and by the heap when it asks for the write buffer. -/
structure PutAnswers where
  statResult : FResult
  openResult : FResult
  writes : Nat → FResult × Nat
  closeResult : FResult
  buffer : Option (Mem UInt8)

structure Response where
  status : Nat
  reason : String
  contentType : String
  body : List UInt8
deriving DecidableEq, Repr

/-- `DoPut` behind its `f_open`. The chunks are the calls of `WritePutChunk` with what they
returned. -/
structure Put where
  dav : Dav
  calls : List DavCall
  writes : Nat
  chunks : List (List UInt8 × Bool)
  ok : Bool
  remaining : Nat
  existed : Bool

def pending (d : Dav) : List UInt8 := read (d.writeBuf.getD (fun _ => 0)) 0 d.writeBufFill

/-- `f_write` never writes more than it is asked for. -/
def flushPutBuf (a : PutAnswers) (u : Put) : Bool × Put :=
  if u.dav.writeBufFill = 0 then (true, u)
  else
    let bytes := pending u.dav
    let result := (a.writes u.writes).1
    let written := min (a.writes u.writes).2 u.dav.writeBufFill
    (decide (result = .frOk ∧ written = u.dav.writeBufFill),
      { u with
        dav := { u.dav with writeBufFill := 0 }
        calls := u.calls ++ [.card (.write bytes result written)]
        writes := u.writes + 1 })

def copied (u : Put) (bytes : List UInt8) : Put :=
  { u with
    dav := { u.dav with
      writeBuf := u.dav.writeBuf.map (fun m => write m u.dav.writeBufFill bytes)
      writeBufFill := u.dav.writeBufFill + bytes.length } }

/-- The loop of `WritePutChunk`, with a bound on its turns. -/
def copyLoop (a : PutAnswers) : Nat → List UInt8 → Put → Bool × Put
  | 0, _, u => (true, u)
  | turns + 1, data, u =>
    if data = [] then (true, u)
    else
      let space := writeBufSize - u.dav.writeBufFill
      let count := min data.length space
      let u := copied u (data.take count)
      if u.dav.writeBufFill = writeBufSize then
        match flushPutBuf a u with
        | (false, u) => (false, u)
        | (true, u) => copyLoop a turns (data.drop count) u
      else copyLoop a turns (data.drop count) u

def writePutChunk (a : PutAnswers) (data : List UInt8) (u : Put) : Bool × Put :=
  let u :=
    if u.dav.writeBuf.isNone then { u with dav := { u.dav with writeBuf := a.buffer } } else u
  let (ok, u) :=
    if u.dav.writeBuf.isNone then (false, u) else copyLoop a (data.length + 1) data u
  (ok, { u with chunks := u.chunks ++ [(data, ok)] })

def putBuffered (a : PutAnswers) (u : Put) : Put :=
  let count := min (u.dav.recvFill - u.dav.bodyStart) u.remaining
  if count > 0 then
    let (ok, v) := writePutChunk a (read u.dav.recvBuf u.dav.bodyStart count) u
    { v with ok := ok, remaining := v.remaining - count }
  else u

/-- `DoPut` up to its receive loop, or what it answers instead. -/
def putBegin (a : PutAnswers) (d : Dav) : (Response × List DavCall) ⊕ Put :=
  match mapPath (cstr d.path pathSize 0) with
  | none => .inl (⟨403, "Forbidden", "text/plain", ascii "Invalid path"⟩, [])
  | some path =>
    let calls := (parentDirs path).map .card ++
      [.stat path a.statResult, .card (.openWrite path a.openResult)]
    if a.openResult ≠ .frOk then
      .inl (⟨409, "Conflict", "text/plain", ascii "Cannot create file"⟩, calls)
    else
      .inr (putBuffered a
        { dav := d
          calls := calls
          writes := 0
          chunks := []
          ok := true
          remaining := d.contentLength
          existed := a.statResult = .frOk })

def Put.receiving (u : Put) : Bool := u.ok && 0 < u.remaining

def Put.toRead (u : Put) : Nat := min u.remaining recvBufSize

/-- A turn of the receive loop once `Receive` has returned these bytes, none of them for a
result that is not positive. -/
def putReceive (a : PutAnswers) (bytes : List UInt8) (u : Put) : Put :=
  if bytes = [] then { u with ok := false }
  else
    let (ok, v) := writePutChunk a bytes
      { u with dav := { u.dav with recvBuf := write u.dav.recvBuf 0 bytes } }
    { v with ok := ok, remaining := v.remaining - bytes.length }

/-- The result of `f_close` is dropped. -/
def putFinish (a : PutAnswers) (u : Put) : Response × Put :=
  let (ok, v) := if u.ok then flushPutBuf a u else (false, u)
  let v := { v with ok := ok, calls := v.calls ++ [.close a.closeResult] }
  (if ¬ ok then ⟨500, "Internal Server Error", "text/plain", ascii "Write failed"⟩
    else if v.existed then ⟨204, "No Content", "text/plain", []⟩
    else ⟨201, "Created", "text/plain", []⟩, v)

def putLoop (a : PutAnswers) : Nat → Socket → Put → Put
  | 0, _, u => u
  | turns + 1, s, u =>
    if u.receiving then
      let (bytes, s) := receive s u.toRead
      putLoop a turns s (putReceive a bytes u)
    else u

structure PutDone where
  response : Response
  calls : List DavCall
  chunks : List (List UInt8 × Bool)
deriving DecidableEq, Repr

def doPut (a : PutAnswers) (s : Socket) (d : Dav) : PutDone :=
  match putBegin a d with
  | .inl (response, calls) => ⟨response, calls, []⟩
  | .inr u =>
    let (response, u) := putFinish a (putLoop a u.remaining s u)
    ⟨response, u.calls, u.chunks⟩

def putRequest (length bytes : List UInt8) : List UInt8 :=
  ascii "PUT /a HTTP/1.1" ++ crlf ++ ascii "Content-Length: " ++ length ++ crlfcrlf ++ bytes

def putHi : List UInt8 := putRequest (ascii "2") (ascii "hi")

def hiStored (closeResult : FResult) (pieces : List (List UInt8)) : PutDone where
  response := ⟨201, "Created", "text/plain", []⟩
  calls := [.stat (ascii "SD:/a") .frNoFile, .card (.openWrite (ascii "SD:/a") .frOk),
    .card (.write (ascii "hi") .frOk 2), .close closeResult]
  chunks := pieces.map (·, true)

def blankWorker : Dav := Dav.init (fun _ => 0) (fun _ => 0) (fun _ => 0)

def roomyCard (closeResult : FResult) : PutAnswers where
  statResult := .frNoFile
  openResult := .frOk
  writes := fun _ => (.frOk, writeBufSize)
  closeResult := closeResult
  buffer := some (fun _ => 0)

end RapiBootloader.WebDavPut
