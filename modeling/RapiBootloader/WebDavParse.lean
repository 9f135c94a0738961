import RapiBootloader.WebDavRequest

namespace RapiBootloader.WebDavParse

open Lib.Memory Lib.Strings Lib.CLibrary WebDavText WebDavServer WebDavRequest

structure View where
  method : List UInt8
  path : List UInt8
  contentLength : Nat
  depth : Nat
deriving DecidableEq, Repr

def view (d : Dav) : View :=
  ⟨cstr d.method methodSize 0, cstr d.path pathSize 0, d.contentLength, d.depth⟩

theorem view_init (method path recvBuf : Mem UInt8) :
    view (Dav.init method path recvBuf) = ⟨[], [], 0, 1⟩ := by
  have hmethod : cstr (write method 0 [0]) methodSize 0 = [] :=
    cstr_write_nul method (Nat.succ_pos _)
  have hpath : cstr (write path 0 [0]) pathSize 0 = [] := cstr_write_nul path (Nat.succ_pos _)
  rw [view, Dav.init]
  dsimp only
  rw [hmethod, hpath]

/-- The method and the target of the first line, the target without its query. -/
def requestLine (text : List UInt8) : Option (List UInt8 × List UInt8) :=
  match tokens crlf text with
  | [] => none
  | line :: _ =>
    match tokens (ascii " ") line with
    | method :: target :: _ => some (method, target.takeWhile (· ≠ 63))
    | _ => none

/-- `m_nContentLength` and `m_nDepth` after the other lines. -/
def headerFields (text : List UInt8) : Nat × Nat :=
  (tokens crlf text).tail.foldl (fun h line => headerLine line h) (0, 1)

def decodedPath (target : List UInt8) : List UInt8 := (percentDecode target).takeWhile (· != 0)

/-- The target is one `ParseRequest` takes. -/
def Rooted (target : List UInt8) : Prop := target.head? = some 47 ∧ target.length < pathSize

instance (target : List UInt8) : Decidable (Rooted target) := inferInstanceAs (Decidable (_ ∧ _))

/-- What a header block makes of what the handlers see. -/
def readText (text : List UInt8) (v : View) : Bool × View :=
  match requestLine text with
  | none => (false, { v with contentLength := 0, depth := 1 })
  | some (method, target) =>
    if methodSize ≤ method.length then (false, { v with contentLength := 0, depth := 1 })
    else if Rooted target then
      (true, ⟨method, decodedPath target, (headerFields text).1, (headerFields text).2⟩)
    else (false, ⟨method, v.path, 0, 1⟩)

structure Kept (headerLen : Nat) (d d' : Dav) : Prop where
  behind : ∀ i, headerLen < i → d'.recvBuf i = d.recvBuf i
  fill : d'.recvFill = d.recvFill
  bodyStart : d'.bodyStart = d.bodyStart
  writeBuf : d'.writeBuf = d.writeBuf
  writeBufFill : d'.writeBufFill = d.writeBufFill

theorem headerLines_eq {lo hi : Nat} (turns : Nat) {d : Dav} {save : Option Nat}
    {lines : List (List UInt8)} (h : SavedAt crlf d.recvBuf recvBufSize lo hi save lines)
    (hturns : hi < turns + lo) :
    ∃ m, headerLines turns save d =
        { d with
          recvBuf := m
          contentLength :=
            (lines.foldl (fun h line => headerLine line h) (d.contentLength, d.depth)).1
          depth := (lines.foldl (fun h line => headerLine line h) (d.contentLength, d.depth)).2 } ∧
      ∀ i, hi ≤ i → m i = d.recvBuf i := by
  induction turns generalizing lo d save lines with
  | zero =>
    cases save with
    | none =>
      cases h
      exact ⟨d.recvBuf, rfl, fun _ _ => rfl⟩
    | some p =>
      obtain ⟨s, -, -, hlo, hhi⟩ := h
      omega
  | succ turns ih =>
    rw [headerLines]
    cases lines with
    | nil =>
      rw [strtokR_nil h]
      exact ⟨d.recvBuf, rfl, fun _ _ => rfl⟩
    | cons line lines =>
      obtain ⟨start, m, save', heq, hlo, hhi, hline, hsave, hsame⟩ := strtokR_cons h
      rw [heq]
      dsimp only
      rw [hline.cstr_eq]
      generalize hfields : headerLine line (d.contentLength, d.depth) = fields
      obtain ⟨m', hm, hbehind⟩ := ih
        (d := { d with recvBuf := m, contentLength := fields.1, depth := fields.2 }) hsave
        (by omega)
      refine ⟨m', ?_, fun i hi => ?_⟩
      · rw [hm, List.foldl_cons, hfields]
      · rw [hbehind i hi]
        exact hsame i (Or.inr hi)

theorem cut_query {d : Dav} {uri : Nat} {target : List UInt8}
    (h : StringAt d.recvBuf recvBufSize uri target) :
    ∃ m, (if (target.takeWhile (· ≠ 63)).length < target.length then
          { d with recvBuf := write d.recvBuf (uri + (target.takeWhile (· ≠ 63)).length) [0] }
        else d) = { d with recvBuf := m } ∧
      StringAt m recvBufSize uri (target.takeWhile (· ≠ 63)) ∧
      ∀ i, i < uri ∨ uri + target.length ≤ i → m i = d.recvBuf i := by
  have hpre := List.takeWhile_prefix (l := target) (· ≠ 63)
  have hnul : 0 ∉ target.takeWhile (· ≠ 63) := fun h0 => h.noNul (hpre.subset h0)
  have hle := hpre.length_le
  have hfits := h.fits
  by_cases hcut : (target.takeWhile (· ≠ 63)).length < target.length
  · rw [if_pos hcut]
    refine ⟨_, rfl, ⟨?_, hnul, by omega⟩, fun i hi => ?_⟩
    · have hcut := h.holds.prefix (hpre.trans (List.prefix_append _ _))
      exact hcut.append [0]
    · exact write_outside d.recvBuf _ _ i (by rw [List.length_singleton]; omega)
  · rw [if_neg hcut]
    have hall : target.takeWhile (· ≠ 63) = target := hpre.eq_of_length (by omega)
    exact ⟨d.recvBuf, rfl, by rw [hall]; exact h, fun _ _ => rfl⟩

theorem head_slash {m : Mem UInt8} {size p : Nat} {s : List UInt8} (h : StringAt m size p s) :
    m p = 47 ↔ s.head? = some 47 := by
  cases s with
  | nil =>
    rw [h.nul]
    simp
  | cons c s =>
    rw [h.head]
    simp

theorem parseTarget_eq {d : Dav} {uri lo hi : Nat} {save : Option Nat} {target : List UInt8}
    {lines : List (List UInt8)} (ht : StringAt d.recvBuf recvBufSize uri target)
    (hs : SavedAt crlf d.recvBuf recvBufSize lo hi save lines) (hlo : uri + target.length < lo)
    (hend : uri + target.length ≤ hi) (hhi : hi < recvBufSize) :
    ∃ m, (∀ i, hi ≤ i → m i = d.recvBuf i) ∧
      if Rooted (target.takeWhile (· ≠ 63)) then
        ∃ path, StringAt path pathSize 0 (decodedPath (target.takeWhile (· ≠ 63))) ∧
          parseTarget uri save d =
            (true, { d with
              recvBuf := m
              path := path
              contentLength :=
                (lines.foldl (fun h line => headerLine line h) (d.contentLength, d.depth)).1
              depth :=
                (lines.foldl (fun h line => headerLine line h) (d.contentLength, d.depth)).2 })
      else parseTarget uri save d = (false, { d with recvBuf := m }) := by
  obtain ⟨m, hcut, hstring, hsame⟩ := cut_query ht
  have hslash := head_slash hstring
  rw [parseTarget, ht.cstr_eq]
  dsimp only
  rw [hcut]
  dsimp only
  rw [hstring.cstr_eq]
  by_cases hroot : Rooted (target.takeWhile (· ≠ 63))
  · have htake : ¬ (m uri ≠ 47 ∨ pathSize ≤ (target.takeWhile (· ≠ 63)).length) := by
      rintro (hne | hlong)
      · exact hne (hslash.mpr hroot.1)
      · exact absurd hroot.2 (Nat.not_lt.mpr hlong)
    rw [if_neg htake]
    have hpath := urlDecode_string (stringAt_write d.path hstring.noNul
      (by rw [Nat.zero_add]; exact hroot.2))
    generalize urlDecode _ pathSize 0 0 = path at *
    obtain ⟨m', hm, hbehind⟩ := headerLines_eq (recvBufSize + 1)
      (d := { d with recvBuf := m, path := path })
      (hs.congr (fun i hlo' hhi' => hsame i (Or.inr (by omega)))) (by omega)
    refine ⟨m', fun i hi => ?_, ?_⟩
    · rw [hbehind i hi]
      exact hsame i (Or.inr (by omega))
    · rw [if_pos hroot]
      exact ⟨path, hpath, by rw [hm]⟩
  · have hrefuse : m uri ≠ 47 ∨ pathSize ≤ (target.takeWhile (· ≠ 63)).length := by
      by_contra hnot
      rw [not_or, not_not, Nat.not_le] at hnot
      exact hroot ⟨hslash.mp hnot.1, hnot.2⟩
    rw [if_pos hrefuse]
    refine ⟨m, fun i hi => hsame i (Or.inr (by omega)), ?_⟩
    rw [if_neg hroot]

structure Reads (text : List UInt8) (headerLen : Nat) (d : Dav) (r : Bool × Dav) : Prop where
  outcome : (r.1, view r.2) = readText text (view d)
  kept : Kept headerLen d r.2

theorem readText_none {text : List UInt8} (h : requestLine text = none) (v : View) :
    readText text v = (false, { v with contentLength := 0, depth := 1 }) := by
  rw [readText, h]

theorem readText_some {text method target : List UInt8}
    (h : requestLine text = some (method, target)) (v : View) :
    readText text v =
      if methodSize ≤ method.length then (false, { v with contentLength := 0, depth := 1 })
      else if Rooted target then
        (true, ⟨method, decodedPath target, (headerFields text).1, (headerFields text).2⟩)
      else (false, ⟨method, v.path, 0, 1⟩) := by
  rw [readText, h]

theorem view_refused (d : Dav) (m : Mem UInt8) :
    view { d with contentLength := 0, depth := 1, recvBuf := m } =
      { view d with contentLength := 0, depth := 1 } := by
  simp only [view]

/-- The words of the request line decide the rest. -/
theorem parseWords_reads {text method target : List UInt8} {lines : List (List UInt8)} {d : Dav}
    {m : Mem UInt8} {headerLen start uri lo : Nat} {save : Option Nat}
    (hrequest : requestLine text = some (method, target.takeWhile (· ≠ 63)))
    (hfields : headerFields text = lines.foldl (fun h line => headerLine line h) (0, 1))
    (hmethod : StringAt m recvBufSize start method) (htarget : StringAt m recvBufSize uri target)
    (hsave : SavedAt crlf m recvBufSize lo headerLen save lines) (hlo : uri + target.length < lo)
    (hend : uri + target.length ≤ headerLen) (hlen : headerLen < recvBufSize)
    (hbehind : ∀ i, headerLen < i → m i = d.recvBuf i) :
    Reads text headerLen d
      (if methodSize ≤ method.length then
        (false, { d with contentLength := 0, depth := 1, recvBuf := m })
      else parseTarget uri save
        { d with
          contentLength := 0
          depth := 1
          recvBuf := m
          method := write d.method 0 (method ++ [0]) }) := by
  have htext := readText_some hrequest (view d)
  by_cases hlong : methodSize ≤ method.length
  · rw [if_pos hlong] at htext ⊢
    refine ⟨?_, ⟨hbehind, rfl, rfl, rfl, rfl⟩⟩
    rw [htext, ← view_refused d m]
  rw [if_neg hlong] at htext ⊢
  have hname : cstr (write d.method 0 (method ++ [0])) methodSize 0 = method :=
    (stringAt_write d.method hmethod.noNul (by omega)).cstr_eq
  obtain ⟨m', hbehind', hparse⟩ := parseTarget_eq
    (d := ⟨write d.method 0 (method ++ [0]), d.path, 0, 1, m, d.recvFill, d.bodyStart,
      d.writeBuf, d.writeBufFill⟩) htarget hsave hlo hend hlen
  have hkept : ∀ i, headerLen < i → m' i = d.recvBuf i := by
    intro i hi
    rw [hbehind' i (by omega)]
    exact hbehind i hi
  by_cases hroot : Rooted (target.takeWhile (· ≠ 63))
  · rw [if_pos hroot] at hparse htext
    obtain ⟨path, hpath, heq⟩ := hparse
    rw [heq]
    refine ⟨?_, ⟨hkept, rfl, rfl, rfl, rfl⟩⟩
    rw [htext, view, hname, hpath.cstr_eq, hfields]
  · rw [if_neg hroot] at hparse htext
    rw [hparse]
    refine ⟨?_, ⟨hkept, rfl, rfl, rfl, rfl⟩⟩
    rw [htext, view, hname, view]

theorem parseLine_reads {text line : List UInt8} {lines : List (List UInt8)} {d : Dav}
    {m : Mem UInt8} {headerLen start : Nat} {save : Option Nat}
    (htoks : tokens crlf text = line :: lines) (hline : StringAt m recvBufSize start line)
    (hsave : SavedAt crlf m recvBufSize (start + line.length + 1) headerLen save lines)
    (hend : start + line.length ≤ headerLen) (hlen : headerLen < recvBufSize)
    (hbehind : ∀ i, headerLen < i → m i = d.recvBuf i) :
    Reads text headerLen d
      (parseLine start save { d with contentLength := 0, depth := 1, recvBuf := m }) := by
  have hwords : SavedAt (ascii " ") m recvBufSize start (start + line.length) (some start)
      (tokens (ascii " ") line) := ⟨line, hline, rfl, Nat.le_refl _, Nat.le_refl _⟩
  have hrequest : requestLine text = match tokens (ascii " ") line with
      | method :: target :: _ => some (method, target.takeWhile (· ≠ 63))
      | _ => none := by
    rw [requestLine, htoks]
  rw [parseLine]
  dsimp only
  cases hwordsEq : tokens (ascii " ") line with
  | nil =>
    rw [hwordsEq] at hwords hrequest
    rw [strtokR_nil hwords]
    dsimp only
    rw [strtokR]
    refine ⟨?_, ⟨hbehind, rfl, rfl, rfl, rfl⟩⟩
    rw [readText_none hrequest, ← view_refused d m]
  | cons method words =>
    rw [hwordsEq] at hwords hrequest
    obtain ⟨pm, m₁, save₁, heq₁, hlo₁, hhi₁, hmethod, hwords₁, hsame₁⟩ := strtokR_cons hwords
    rw [heq₁]
    dsimp only
    cases words with
    | nil =>
      rw [strtokR_nil hwords₁]
      refine ⟨?_, ⟨fun i hi => ?_, rfl, rfl, rfl, rfl⟩⟩
      · rw [readText_none hrequest, ← view_refused d m₁]
      · dsimp only
        rw [hsame₁ i (Or.inr (by omega)), hbehind i hi]
    | cons target words =>
      obtain ⟨pu, m₂, save₂, heq₂, hlo₂, hhi₂, htarget, -, hsame₂⟩ := strtokR_cons hwords₁
      rw [heq₂]
      dsimp only
      have hmethod₂ := hmethod.congr (fun i _ hi => hsame₂ i (Or.inl (by omega)))
      have hbehind₂ : ∀ i, start + line.length ≤ i → m₂ i = m i := by
        intro i hi
        rw [hsame₂ i (Or.inr hi), hsame₁ i (Or.inr hi)]
      have hfields : headerFields text = lines.foldl (fun h line => headerLine line h) (0, 1) := by
        rw [headerFields, htoks, List.tail_cons]
      rw [hmethod₂.cstr_eq]
      refine parseWords_reads hrequest hfields hmethod₂ htarget
        (hsave.congr (fun i hi _ => hbehind₂ i (by omega))) (by omega) (by omega) hlen
        (fun i hi => ?_)
      rw [hbehind₂ i (by omega), hbehind i hi]

theorem parseRequest_reads {d : Dav} {header : List UInt8} (h : Holds d.recvBuf 0 header)
    (hlen : header.length < recvBufSize) :
    Reads (header.takeWhile (· != 0)) header.length d (parseRequest header.length d) := by
  have hput := h.append [0]
  rw [Nat.zero_add] at hput
  have hstring : StringAt (write d.recvBuf header.length [0]) recvBufSize 0
      (header.takeWhile (· != 0)) := stringAt_of_holds hput (by omega)
  have htext : (header.takeWhile (· != 0)).length ≤ header.length :=
    (List.takeWhile_prefix _).length_le
  have hput' : ∀ i, header.length < i → write d.recvBuf header.length [0] i = d.recvBuf i :=
    fun i hi => write_outside _ _ _ i (by rw [List.length_singleton]; omega)
  have hlines : SavedAt crlf (write d.recvBuf header.length [0]) recvBufSize 0 header.length
      (some 0) (tokens crlf (header.takeWhile (· != 0))) :=
    ⟨_, hstring, rfl, Nat.le_refl _, by omega⟩
  generalize header.takeWhile (· != 0) = text at *
  unfold parseRequest
  dsimp only
  cases htoks : tokens crlf text with
  | nil =>
    have hrequest : requestLine text = none := by rw [requestLine, htoks]
    rw [htoks] at hlines
    rw [strtokR_nil hlines]
    refine ⟨?_, ⟨hput', rfl, rfl, rfl, rfl⟩⟩
    rw [readText_none hrequest, ← view_refused d (write d.recvBuf header.length [0])]
  | cons line lines =>
    rw [htoks] at hlines
    obtain ⟨start, m, save, heq, hlo, hhi, hline, hsave, hsame⟩ := strtokR_cons hlines
    rw [heq]
    refine parseLine_reads htoks hline hsave hhi hlen (fun i hi => ?_)
    rw [hsame i (Or.inr (by omega)), hput' i hi]

def buffered (d : Dav) : List UInt8 := read d.recvBuf d.bodyStart (d.recvFill - d.bodyStart)

def headerText (stream : List UInt8) (i : Nat) : List UInt8 := (stream.take i).takeWhile (· != 0)

/-- The request has been read up to its body. -/
structure RequestIn (stream : List UInt8) (d : Dav) (i : Nat) (ok : Bool) (s : Socket) (d' : Dav) :
    Prop where
  blank : BlankAt stream i
  first : ∀ j < i, ¬ BlankAt stream j
  fits : i + 4 ≤ recvBufSize
  outcome : (ok, view d') = readText (headerText stream i) (view d)
  body : buffered d' ++ s.stream = stream.drop (i + 4)
  bodyStart : d'.bodyStart ≤ d'.recvFill
  fill : d'.recvFill ≤ recvBufSize
  writeBuf : d'.writeBuf = d.writeBuf
  writeBufFill : d'.writeBufFill = d.writeBufFill

theorem requestIn_of_headersIn {stream : List UInt8} {d d' : Dav} {i : Nat} {s : Socket}
    (h : HeadersIn stream d i s d') :
    RequestIn stream d i (parseRequest i d').1 s (parseRequest i d').2 := by
  obtain ⟨got, hgot, hfit⟩ := h.received
  have hfits := h.fits
  have htake : stream.take i = got.take i := by
    rw [← hgot.whole, List.take_append_of_le_length (by omega)]
  have hlen : (got.take i).length = i := by
    rw [List.length_take]
    omega
  have hheaders := hgot.holds.prefix (List.take_prefix i got)
  have hreads := parseRequest_reads hheaders (by rw [hlen]; omega)
  rw [hlen] at hreads
  have hkept := hreads.kept
  have hview : view d' = view d := by
    rw [h.same]
    simp only [view]
  have hbody : buffered (parseRequest i d').2 = got.drop (i + 4) := by
    have hread := hgot.holds.read_drop (j := i + 4) (n := got.length - (i + 4)) (by omega)
    rw [Nat.zero_add, List.take_of_length_le (by rw [List.length_drop])] at hread
    rw [buffered, hkept.fill, hkept.bodyStart, h.bodyStart, hgot.fill, ← hread]
    exact read_congr (fun k hk _ => hkept.behind k (by omega))
  refine ⟨h.blank, h.first, hfits, ?_, ?_, ?_, ?_, ?_, ?_⟩
  · rw [hreads.outcome, headerText, htake, hview]
  · rw [hbody, ← hgot.whole, List.drop_append_of_le_length hfit]
  · rw [hkept.fill, hkept.bodyStart, h.bodyStart, hgot.fill]
    exact hfit
  · rw [hkept.fill, hgot.fill]
    exact hgot.room
  · rw [hkept.writeBuf, h.same]
  · rw [hkept.writeBufFill, h.same]

theorem readRequest_some {s s' : Socket} {d d' : Dav} {ok : Bool}
    (h : readRequest s d = some (ok, s', d')) : ∃ i, RequestIn s.stream d i ok s' d' := by
  unfold readRequest at h
  cases hr : receiveHeaders s d with
  | mk found rest =>
    obtain ⟨s₁, d₁⟩ := rest
    rw [hr] at h
    cases found with
    | none => cases h
    | some i =>
      have hin := requestIn_of_headersIn (receiveHeaders_some hr)
      dsimp only at h
      generalize parseRequest i d₁ = r at h hin
      cases h
      exact ⟨i, hin⟩

end RapiBootloader.WebDavParse
