import RapiBootloader.WebDavPut

namespace RapiBootloader.WebDavHeaders

open Lib.Memory Lib.Strings Lib.CLibrary WebDavText WebDavServer WebDavRequest WebDavParse WebDavPut

def lengthLine (line : List UInt8) : Bool := sameLetters 15 line (ascii "Content-Length:")

def depthLine (line : List UInt8) : Bool := sameLetters 6 line (ascii "Depth:")

def lengthValue (line : List UInt8) : Nat := atoi (skipSpaces (line.drop 15))

def depthValue (line : List UInt8) : Nat :=
  if (skipSpaces (line.drop 6)).take 8 = ascii "infinity" then 1
  else atoi (skipSpaces (line.drop 6))

def lastValue (test : List UInt8 → Bool) (value : List UInt8 → Nat) (default : Nat)
    (lines : List (List UInt8)) : Nat :=
  ((lines.filter test).getLast?.map value).getD default

theorem lastValue_concat (test : List UInt8 → Bool) (value : List UInt8 → Nat) (default : Nat)
    (lines : List (List UInt8)) (line : List UInt8) :
    lastValue test value default (lines ++ [line]) =
      if test line then value line else lastValue test value default lines := by
  rw [lastValue, List.filter_append]
  by_cases htest : test line = true
  · rw [if_pos htest, List.filter_singleton, htest, cond_true, List.getLast?_concat]
    rfl
  · rw [if_neg htest, List.filter_singleton, (Bool.not_eq_true _).mp htest, cond_false,
      List.append_nil]
    rfl

theorem depthLine_of_lengthLine {line : List UInt8} (h : lengthLine line = true) :
    depthLine line = false := by
  cases line with
  | nil => rfl
  | cons c line =>
    have hc := congrArg List.head? (of_decide_eq_true h)
    rw [List.take_succ_cons, List.map_cons, List.head?_cons] at hc
    rw [depthLine, sameLetters, decide_eq_false_iff_not]
    intro hd
    have hd := congrArg List.head? hd
    rw [List.take_succ_cons, List.map_cons, List.head?_cons] at hd
    have hwords : (((ascii "Content-Length:").take 15).map toLower).head? ≠
        (((ascii "Depth:").take 6).map toLower).head? := by decide
    exact hwords (hc.symm.trans hd)

theorem headerLine_eq (line : List UInt8) (h : Nat × Nat) :
    headerLine line h =
      if lengthLine line then (lengthValue line, h.2)
      else if depthLine line then (h.1, depthValue line)
      else h := by
  have hdepth : (if (skipSpaces (line.drop 6)).take 8 = ascii "infinity" then (h.1, 1)
      else (h.1, atoi (skipSpaces (line.drop 6)))) = (h.1, depthValue line) := by
    rw [depthValue]
    split <;> rfl
  unfold headerLine
  dsimp only
  rw [hdepth]
  rfl

/-- The header lines as they come, and the last one of each kind. -/
theorem headerFields_eq (text : List UInt8) :
    headerFields text =
      (lastValue lengthLine lengthValue 0 (tokens crlf text).tail,
        lastValue depthLine depthValue 1 (tokens crlf text).tail) := by
  rw [headerFields]
  generalize (tokens crlf text).tail = lines
  induction lines using List.reverseRecOn with
  | nil => rfl
  | append_singleton lines line ih =>
    rw [List.foldl_append, List.foldl_cons, List.foldl_nil, ih, lastValue_concat, lastValue_concat]
    rw [headerLine_eq]
    by_cases hlength : lengthLine line = true
    · rw [if_pos hlength, if_pos hlength, depthLine_of_lengthLine hlength,
        if_neg Bool.false_ne_true]
    · rw [if_neg hlength, if_neg hlength]
      by_cases hdepth : depthLine line = true
      · rw [if_pos hdepth, if_pos hdepth]
      · rw [if_neg hdepth, if_neg hdepth]

/-- The first line has these words in front, the second of them cut at its query. -/
structure RequestWords (text method target : List UInt8) : Prop where
  words : ∃ line lines word words, tokens crlf text = line :: lines ∧
    tokens (ascii " ") line = method :: word :: words ∧ target = word.takeWhile (· ≠ 63)
  short : method.length < methodSize
  rooted : target.head? = some 47
  fits : target.length < pathSize

theorem requestLine_eq_some {text method target : List UInt8} :
    requestLine text = some (method, target) ↔
      ∃ line lines word words, tokens crlf text = line :: lines ∧
        tokens (ascii " ") line = method :: word :: words ∧ target = word.takeWhile (· ≠ 63) := by
  unfold requestLine
  constructor
  · intro h
    split at h
    · cases h
    · rename_i line lines hlines
      split at h
      · rename_i m word words hwords
        cases h
        exact ⟨line, lines, word, words, hlines, hwords, rfl⟩
      · cases h
  · rintro ⟨line, lines, word, words, hlines, hwords, rfl⟩
    rw [hlines]
    dsimp only
    rw [hwords]

theorem readText_words {text method target : List UInt8} (h : RequestWords text method target)
    (v : View) :
    readText text v =
      (true, ⟨method, decodedPath target, (headerFields text).1, (headerFields text).2⟩) := by
  rw [readText_some (requestLine_eq_some.mpr h.words), if_neg (Nat.not_le.mpr h.short),
    if_pos ⟨h.rooted, h.fits⟩]

theorem readText_accepts {text : List UInt8} {v : View} (h : (readText text v).1 = true) :
    ∃ method target, RequestWords text method target := by
  unfold readText at h
  split at h
  · cases h
  · rename_i method target hline
    split at h
    · cases h
    · split at h
      · rename_i hlong hrooted
        exact ⟨method, target, requestLine_eq_some.mp hline, Nat.not_le.mp hlong, hrooted.1, hrooted.2⟩
      · cases h

theorem parseRequest_accepts_iff {d : Dav} {header : List UInt8} (hheld : Holds d.recvBuf 0 header)
    (hlen : header.length < recvBufSize) :
    (parseRequest header.length d).1 = true ↔
      ∃ method target, RequestWords (header.takeWhile (· != 0)) method target := by
  have hread := (parseRequest_reads hheld hlen).outcome
  have hok := congrArg Prod.fst hread
  dsimp only at hok
  rw [hok]
  constructor
  · exact readText_accepts
  · rintro ⟨method, target, hwords⟩
    rw [readText_words hwords]

theorem parseRequest_view {d : Dav} {header method target : List UInt8}
    (hheld : Holds d.recvBuf 0 header) (hlen : header.length < recvBufSize)
    (h : RequestWords (header.takeWhile (· != 0)) method target) :
    view (parseRequest header.length d).2 =
      ⟨method, decodedPath target, (headerFields (header.takeWhile (· != 0))).1,
        (headerFields (header.takeWhile (· != 0))).2⟩ := by
  have hread := (parseRequest_reads hheld hlen).outcome
  rw [readText_words h] at hread
  exact (Prod.mk.inj hread).2

/-- `ParseRequest` takes just the header blocks whose first line has a method and a target that fit,
reads them and the depth, and leaves the body behind the block alone. -/
theorem parseRequest_grammar {d : Dav} {header : List UInt8} (hheld : Holds d.recvBuf 0 header)
    (hlen : header.length < recvBufSize) (hnul : 0 ∉ header) :
    ((parseRequest header.length d).1 = true ↔
        ∃ method target, RequestWords header method target) ∧
      (∀ method target, RequestWords header method target →
        cstr (parseRequest header.length d).2.method methodSize 0 = method ∧
          cstr (parseRequest header.length d).2.path pathSize 0 = decodedPath target ∧
          (parseRequest header.length d).2.depth =
            lastValue depthLine depthValue 1 (tokens crlf header).tail) ∧
      ∀ i, header.length + 1 ≤ i → (parseRequest header.length d).2.recvBuf i = d.recvBuf i := by
  have htext : header.takeWhile (· != 0) = header := takeWhile_nul_self hnul
  have haccepts := parseRequest_accepts_iff hheld hlen
  rw [htext] at haccepts
  refine ⟨haccepts, fun method target hwords => ?_, (parseRequest_reads hheld hlen).kept.behind⟩
  have hview := @parseRequest_view d header method target hheld hlen (by rwa [htext])
  rw [htext, headerFields_eq, view] at hview
  obtain ⟨hmethod, hpath, -, hdepth⟩ := View.mk.inj hview
  exact ⟨hmethod, hpath, hdepth⟩

def holding (header : List UInt8) : Dav :=
  { blankWorker with recvBuf := write (fun _ => 0) 0 header }

theorem holds_holding (header : List UInt8) : Holds (holding header).recvBuf 0 header :=
  holds_write _ 0 header

def listRequest : List UInt8 := ascii "PROPFIND /a HTTP/1.1" ++ crlf ++ ascii "depth: 0"

theorem requestWords_list : RequestWords listRequest (ascii "PROPFIND") (ascii "/a") :=
  ⟨⟨ascii "PROPFIND /a HTTP/1.1", [ascii "depth: 0"], ascii "/a", [ascii "HTTP/1.1"],
    by decide, by decide, by decide⟩,
    by decide, by decide, by decide⟩

theorem parseRequest_grammar_list :
    (parseRequest listRequest.length (holding listRequest)).1 = true ∧
      (parseRequest listRequest.length (holding listRequest)).2.depth = 0 := by
  have hgrammar := parseRequest_grammar (holds_holding listRequest) (by decide)
    (by decide)
  refine ⟨hgrammar.1.mpr ⟨_, _, requestWords_list⟩, ?_⟩
  rw [(hgrammar.2.1 _ _ requestWords_list).2.2]
  decide

end RapiBootloader.WebDavHeaders
