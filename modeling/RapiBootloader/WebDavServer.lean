import RapiBootloader.WebDavText

namespace RapiBootloader.WebDavServer

open Lib.Memory Lib.Strings Lib.CLibrary WebDavText

/-- A connection: the bytes the client sends, and for each `Receive` how many of them have come
when it returns. `none` is a `Receive` that fails or times out. -/
structure Socket where
  stream : List UInt8
  arrivals : Nat → Option Nat

/-- `Receive` with room for `n` bytes. It returns nothing for a result that is not positive,
and otherwise a byte at least. -/
def receive (s : Socket) (n : Nat) : List UInt8 × Socket :=
  match s.arrivals 0 with
  | none => ([], { s with arrivals := fun i => s.arrivals (i + 1) })
  | some k =>
    let count := max 1 (min k n)
    (s.stream.take count, ⟨s.stream.drop count, fun i => s.arrivals (i + 1)⟩)

def recvBufSize : Nat := 4096

def writeBufSize : Nat := 1024 * 1024

/-- A worker. `contentLength` and `depth` are `unsigned`. -/
structure Dav where
  method : Mem UInt8
  path : Mem UInt8
  contentLength : Nat
  depth : Nat
  recvBuf : Mem UInt8
  recvFill : Nat
  bodyStart : Nat
  writeBuf : Option (Mem UInt8)
  writeBufFill : Nat

def methodSize : Nat := 16

def pathSize : Nat := 512

/-- The constructor leaves the arrays as the heap has them, but for the first byte of the two
strings. -/
def Dav.init (method path recvBuf : Mem UInt8) : Dav where
  method := write method 0 [0]
  path := write path 0 [0]
  contentLength := 0
  depth := 1
  recvBuf := recvBuf
  recvFill := 0
  bodyStart := 0
  writeBuf := none
  writeBufFill := 0

def crlfcrlf : List UInt8 := [13, 10, 13, 10]

/-- The search of `ReceiveHeaders` for the blank line among the bytes received. -/
def findBlank (m : Mem UInt8) (fill : Nat) : Nat → Nat → Option Nat
  | 0, _ => none
  | turns + 1, i =>
    if i + 4 ≤ fill then
      if read m i 4 = crlfcrlf then some i else findBlank m fill turns (i + 1)
    else none

def receiveLoop : Nat → Socket → Dav → Option Nat × Socket × Dav
  | 0, s, d => (none, s, d)
  | turns + 1, s, d =>
    if d.recvFill < recvBufSize then
      match receive s (recvBufSize - d.recvFill) with
      | ([], s) => (none, s, d)
      | (bytes, s) =>
        let searchFrom := if 3 ≤ d.recvFill then d.recvFill - 3 else 0
        let d := { d with
          recvBuf := write d.recvBuf d.recvFill bytes
          recvFill := d.recvFill + bytes.length }
        match findBlank d.recvBuf d.recvFill (d.recvFill + 1) searchFrom with
        | some i => (some i, s, { d with bodyStart := i + 4 })
        | none => receiveLoop turns s d
    else (none, s, d)

/-- The offset of the blank line, or `none` for the result `-1`. -/
def receiveHeaders (s : Socket) (d : Dav) : Option Nat × Socket × Dav :=
  receiveLoop (recvBufSize + 1) s { d with recvFill := 0 }

def crlf : List UInt8 := [13, 10]

/-- What one header line makes of `m_nContentLength` and `m_nDepth`. -/
def headerLine (line : List UInt8) (h : Nat × Nat) : Nat × Nat :=
  if sameLetters 15 line (ascii "Content-Length:") then (atoi (skipSpaces (line.drop 15)), h.2)
  else if sameLetters 6 line (ascii "Depth:") then
    let value := skipSpaces (line.drop 6)
    if value.take 8 = ascii "infinity" then (h.1, 1) else (h.1, atoi value)
  else h

def headerLines : Nat → Option Nat → Dav → Dav
  | 0, _, d => d
  | turns + 1, save, d =>
    match strtokR crlf recvBufSize d.recvBuf save with
    | (none, m, _) => { d with recvBuf := m }
    | (some line, m, save) =>
      let h := headerLine (cstr m recvBufSize line) (d.contentLength, d.depth)
      headerLines turns save { d with recvBuf := m, contentLength := h.1, depth := h.2 }

/-- The target of the request: `m_Path` up to the query, and decoded. -/
def parseTarget (uri : Nat) (save : Option Nat) (d : Dav) : Bool × Dav :=
  let target := cstr d.recvBuf recvBufSize uri
  let cut := target.takeWhile (· ≠ 63)
  let d : Dav :=
    if cut.length < target.length then { d with recvBuf := write d.recvBuf (uri + cut.length) [0] }
    else d
  let target := cstr d.recvBuf recvBufSize uri
  if d.recvBuf uri ≠ 47 ∨ pathSize ≤ target.length then (false, d)
  else
    let d := { d with path := urlDecode (write d.path 0 (target ++ [0])) pathSize 0 0 }
    (true, headerLines (recvBufSize + 1) save d)

/-- The request line, which `strtok_r` has cut out at `line`. -/
def parseLine (line : Nat) (save : Option Nat) (d : Dav) : Bool × Dav :=
  let (method, m, methodSave) := strtokR (ascii " ") recvBufSize d.recvBuf (some line)
  let (uri, m, _) := strtokR (ascii " ") recvBufSize m methodSave
  let d := { d with recvBuf := m }
  match method, uri with
  | some method, some uri =>
    let name := cstr d.recvBuf recvBufSize method
    if methodSize ≤ name.length then (false, d)
    else parseTarget uri save { d with method := write d.method 0 (name ++ [0]) }
  | _, _ => (false, d)

def parseRequest (headerLen : Nat) (d : Dav) : Bool × Dav :=
  let d := { d with
    contentLength := 0
    depth := 1
    recvBuf := write d.recvBuf headerLen [0] }
  match strtokR crlf recvBufSize d.recvBuf (some 0) with
  | (none, m, _) => (false, { d with recvBuf := m })
  | (some line, m, save) => parseLine line save { d with recvBuf := m }

/-- What a request does to a worker up to the choice of its handler. -/
def readRequest (s : Socket) (d : Dav) : Option (Bool × Socket × Dav) :=
  match receiveHeaders s d with
  | (none, _, _) => none
  | (some i, s, d) =>
    let (ok, d) := parseRequest i d
    some (ok, s, d)

end RapiBootloader.WebDavServer
