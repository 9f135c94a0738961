import RapiBootloader.WebDavWorker

namespace RapiBootloader.WebDavHead

open Lib.Memory Lib.Strings Lib.CLibrary Card WebDavText WebDavServer WebDavRequest WebDavParse
open WebDavPut WebDavListing WebDavGet WebDavTarget WebDavWorker

def simpleHeader (r : Response) : List UInt8 :=
  ascii "HTTP/1.1 " ++ sizeText r.status ++ ascii " " ++ ascii r.reason ++ crlf ++
    ascii "Server: " ++ serverName ++ crlf ++
    ascii "Content-Type: " ++ ascii r.contentType ++ crlf ++
    ascii "Content-Length: " ++ sizeText (r.body.length % 0x100000000) ++ crlf ++
    ascii "Connection: close" ++ crlf ++ crlf

/-- The length of the body is `unsigned`. -/
def sendSimpleResponse (sends : Nat → Bool) (r : Response) : Pieces :=
  if sends 0 = false then [(simpleHeader r, false)]
  else if r.body.length % 0x100000000 > 0 then [(simpleHeader r, true), (r.body, sends 1)]
  else [(simpleHeader r, true)]

def pieces (sends : Nat → Bool) : Option Reply → Pieces
  | none => []
  | some (.simple r) => sendSimpleResponse sends r
  | some (.sent pieces) => pieces

/-- The bytes a worker sends on a connection. -/
def wire (a : WorkerAnswers) (turns : Nat) (s : Socket) (d : Dav) : List UInt8 :=
  (pieces a.get.sends (worker a turns s d).1).flatMap Prod.fst

/-- What comes up to the first blank line, and the blank line. -/
def headerBlock : List UInt8 → List UInt8
  | [] => []
  | c :: rest => if (c :: rest).take 4 = crlfcrlf then crlfcrlf else c :: headerBlock rest

structure Asks (s : Socket) (d : Dav) (method target : List UInt8) : Prop where
  received : (receiveHeaders s d).1 = headerEnd s.stream
  words : ∃ i, headerEnd s.stream = some i ∧
    requestLine (headerText s.stream i) = some (method, target)

/-- The card answers the same, whatever becomes of the reads and of the connection. -/
structure SameCard (a b : GetAnswers) : Prop where
  stat : a.statResult = b.statResult
  dir : a.isDir = b.isDir
  size : a.fsize = b.fsize
  opened : a.openResult = b.openResult

structure Opens (a : GetAnswers) (target : List UInt8) : Prop where
  rooted : Rooted target
  inside : ¬ ascii ".." <:+: decodedPath target
  stat : a.statResult = .frOk
  file : a.isDir = false
  opened : a.openResult = .frOk

/-- The reply to a target that leads to no such file. -/
def refusal (a : GetAnswers) (target : List UInt8) : Option Response :=
  if ¬ Rooted target then some ⟨400, "Bad Request", "text/plain", ascii "Malformed request"⟩
  else if ascii ".." <:+: decodedPath target then
    some ⟨403, "Forbidden", "text/plain", ascii "Invalid path"⟩
  else if a.statResult ≠ .frOk then some ⟨404, "Not Found", "text/plain", ascii "Not found"⟩
  else if a.isDir then
    some ⟨405, "Method Not Allowed", "text/plain",
      ascii "GET is for files -- PROPFIND lists collections"⟩
  else if a.openResult ≠ .frOk then
    some ⟨500, "Internal Server Error", "text/plain", ascii "Cannot open file"⟩
  else none

theorem refusal_eq_none {a : GetAnswers} {target : List UInt8} :
    refusal a target = none ↔ Opens a target := by
  unfold refusal
  constructor
  · intro h
    split at h
    · cases h
    split at h
    · cases h
    split at h
    · cases h
    split at h
    · cases h
    split at h
    · cases h
    · rename_i hroot hdots hstat hdir hopen
      exact ⟨not_not.mp hroot, hdots, not_not.mp hstat, Bool.not_eq_true _ ▸ hdir,
        not_not.mp hopen⟩
  · rintro ⟨hroot, hdots, hstat, hdir, hopen⟩
    rw [if_neg (not_not.mpr hroot), if_neg hdots, if_neg (not_not.mpr hstat), hdir,
      if_neg Bool.false_ne_true, if_neg (not_not.mpr hopen)]

theorem SameCard.refuses {a b : GetAnswers} (h : SameCard a b) (target : List UInt8) :
    refusal a target = refusal b target := by
  unfold refusal
  rw [h.stat, h.dir, h.opened]

section
variable {xs ys : List UInt8}

theorem headerBlock_append (h : 13 ∉ xs) : headerBlock (xs ++ ys) = xs ++ headerBlock ys := by
  induction xs with
  | nil => rfl
  | cons c xs ih =>
    have hc : c ≠ 13 := fun hc => h (hc ▸ List.mem_cons_self)
    rw [List.cons_append, headerBlock, if_neg, ih (fun hx => h (List.mem_cons_of_mem _ hx))]
    · rfl
    · intro hblank
      rw [List.take_succ_cons, crlfcrlf] at hblank
      exact hc (List.cons.inj hblank).1

theorem headerBlock_crlf {c : UInt8} (h : c ≠ 13) :
    headerBlock (crlf ++ c :: xs) = crlf ++ headerBlock (c :: xs) := by
  have hfirst : ¬ (13 :: 10 :: c :: xs).take 4 = crlfcrlf := by
    intro hblank
    simp only [List.take_succ_cons, crlfcrlf, List.cons.injEq] at hblank
    exact h hblank.2.2.1
  have hsecond : ¬ (10 :: c :: xs).take 4 = crlfcrlf := by
    intro hblank
    simp only [List.take_succ_cons, crlfcrlf, List.cons.injEq] at hblank
    exact absurd hblank.1 (by decide)
  rw [crlf, List.cons_append, List.cons_append, List.nil_append, headerBlock, if_neg hfirst,
    headerBlock, if_neg hsecond]
  rfl

theorem headerBlock_blank : headerBlock (crlf ++ (crlf ++ xs)) = crlf ++ crlf := by
  rw [crlf, List.cons_append, headerBlock, if_pos]
  · rfl
  · rfl

/-- The header lines of a reply: none of them is empty, and none holds a CR. -/
theorem headerBlock_lines {lines : List (List UInt8)} (h : ∀ line ∈ lines, line ≠ [] ∧ 13 ∉ line) :
    headerBlock (crlf ++ (lines.flatMap (· ++ crlf) ++ (crlf ++ xs))) =
      crlf ++ (lines.flatMap (· ++ crlf) ++ crlf) := by
  induction lines with
  | nil => exact headerBlock_blank
  | cons line lines ih =>
    obtain ⟨⟨hne, hline⟩, hlines⟩ := List.forall_mem_cons.mp h
    obtain ⟨c, line, rfl⟩ := List.exists_cons_of_ne_nil hne
    have hc : c ≠ 13 := fun hc => hline (hc ▸ List.mem_cons_self)
    rw [List.flatMap_cons, List.append_assoc, List.append_assoc, List.cons_append,
      headerBlock_crlf hc, ← List.cons_append, headerBlock_append hline, ih hlines]
    simp only [List.append_assoc]

end

theorem headerBlock_header {line : List UInt8} {lines : List (List UInt8)} (hfirst : 13 ∉ line)
    (h : ∀ line ∈ lines, line ≠ [] ∧ 13 ∉ line) (body : List UInt8) :
    headerBlock ((line :: lines).flatMap (· ++ crlf) ++ crlf ++ body) =
      (line :: lines).flatMap (· ++ crlf) ++ crlf := by
  rw [List.flatMap_cons, List.append_assoc, List.append_assoc, List.append_assoc,
    headerBlock_append hfirst, headerBlock_lines h]
  simp only [List.append_assoc]

theorem headerBlock_reply {first kind length : List UInt8} (hfirst : 13 ∉ first) (hkind : 13 ∉ kind)
    (hlength : 13 ∉ length) (body : List UInt8) :
    headerBlock (first ++ crlf ++ ascii "Server: " ++ serverName ++ crlf ++ ascii "Content-Type: " ++
        kind ++ crlf ++ ascii "Content-Length: " ++ length ++ crlf ++ ascii "Connection: close" ++
        crlf ++ crlf ++ body) =
      first ++ crlf ++ ascii "Server: " ++ serverName ++ crlf ++ ascii "Content-Type: " ++
        kind ++ crlf ++ ascii "Content-Length: " ++ length ++ crlf ++ ascii "Connection: close" ++
        crlf ++ crlf := by
  have hlines : ∀ line ∈ [ascii "Server: " ++ serverName, ascii "Content-Type: " ++ kind,
      ascii "Content-Length: " ++ length, ascii "Connection: close"], line ≠ [] ∧ 13 ∉ line := by
    have hserver : 13 ∉ ascii "Server: " ++ serverName := by decide
    have hnames : 13 ∉ ascii "Content-Type: " ∧ 13 ∉ ascii "Content-Length: " ∧
        13 ∉ ascii "Connection: close" := by decide
    simp only [List.forall_mem_cons, List.not_mem_nil, false_implies, implies_true, and_true]
    refine ⟨⟨?_, hserver⟩, ⟨?_, ?_⟩, ⟨?_, ?_⟩, ?_, hnames.2.2⟩
    · exact List.append_ne_nil_of_left_ne_nil (by decide) _
    · exact List.append_ne_nil_of_left_ne_nil (by decide) _
    · exact fun h => (List.mem_append.mp h).elim hnames.1 hkind
    · exact List.append_ne_nil_of_left_ne_nil (by decide) _
    · exact fun h => (List.mem_append.mp h).elim hnames.2.1 hlength
    · decide
  have hblock := headerBlock_header hfirst hlines body
  simp only [List.flatMap_cons, List.flatMap_nil, List.append_nil, List.append_assoc] at hblock ⊢
  exact hblock

theorem cr_notMem_sizeText (n : Nat) : 13 ∉ sizeText n := by
  intro h
  exact absurd (digit_of_mem_sizeText h).1 (by decide)

theorem headerBlock_getHeader (fsize : Nat) (body : List UInt8) :
    headerBlock (getHeader fsize ++ body) = getHeader fsize := by
  have hkind : ascii "Content-Type: application/octet-stream" =
      ascii "Content-Type: " ++ ascii "application/octet-stream" := by decide
  have hblock := @headerBlock_reply (ascii "HTTP/1.1 200 OK") (ascii "application/octet-stream")
    (sizeText fsize) (by decide) (by decide) (cr_notMem_sizeText fsize) body
  rw [getHeader, hkind]
  simp only [List.append_assoc] at hblock ⊢
  exact hblock

theorem headerBlock_simpleHeader {r : Response} (hreason : 13 ∉ ascii r.reason)
    (hkind : 13 ∉ ascii r.contentType) (body : List UInt8) :
    headerBlock (simpleHeader r ++ body) = simpleHeader r := by
  have hfirst : 13 ∉ ascii "HTTP/1.1 " ++ sizeText r.status ++ ascii " " ++ ascii r.reason := by
    have hfixed : 13 ∉ ascii "HTTP/1.1 " ∧ 13 ∉ ascii " " := by decide
    simp only [List.mem_append, not_or]
    exact ⟨⟨⟨hfixed.1, cr_notMem_sizeText r.status⟩, hfixed.2⟩, hreason⟩
  have hblock := headerBlock_reply hfirst hkind (cr_notMem_sizeText (r.body.length % 0x100000000)) body
  rw [simpleHeader]
  simp only [List.append_assoc] at hblock ⊢
  exact hblock

theorem refusal_body {a : GetAnswers} {target : List UInt8} {r : Response}
    (h : refusal a target = some r) :
    13 ∉ ascii r.reason ∧ 13 ∉ ascii r.contentType ∧ 0 < r.body.length % 0x100000000 := by
  unfold refusal at h
  split at h
  · cases h
    decide
  split at h
  · cases h
    decide
  split at h
  · cases h
    decide
  split at h
  · cases h
    decide
  split at h
  · cases h
    decide
  · cases h

/-- A reply to `GET` or `HEAD`, by the refusal if there is one. -/
inductive Replies (a : GetAnswers) (headOnly : Bool) : Option Response → Reply → Prop
  | refused (r : Response) : Replies a headOnly (some r) (.simple r)
  | opened (rest : Pieces) (h : headOnly = true → rest = []) :
      Replies a headOnly none (.sent ((getHeader a.fsize, a.sends 0) :: rest))

theorem doGet_replies (a : GetAnswers) (turns : Nat) (headOnly : Bool) {d : Dav}
    {target : List UInt8} (hroot : Rooted target)
    (hpath : cstr d.path pathSize 0 = decodedPath target) :
    Replies a headOnly (refusal a target) (doGet a turns headOnly d).reply := by
  unfold refusal doGet
  rw [if_neg (not_not.mpr hroot), hpath]
  cases hmap : mapPath (decodedPath target) with
  | none =>
    have hdots : ascii ".." <:+: decodedPath target := by
      by_contra hdots
      rw [mapPath, if_neg hdots] at hmap
      split at hmap <;> cases hmap
    rw [if_pos hdots]
    exact .refused _
  | some path =>
    rw [if_neg (mapPath_some hmap).2]
    dsimp only
    split
    · exact .refused _
    · rename_i hstat
      split
      · exact .refused _
      · split
        · exact .refused _
        · split
          · rename_i hbody
            exact .opened _ (fun hhead => absurd (hbody.2.symm.trans hhead) Bool.false_ne_true)
          · exact .opened [] (fun _ => rfl)

def getMethod : Bool → List UInt8
  | true => ascii "HEAD"
  | false => ascii "GET"

theorem handle_getMethod (a : WorkerAnswers) (turns : Nat) (s : Socket) {d : Dav} {headOnly : Bool}
    (h : cstr d.method methodSize 0 = getMethod headOnly) :
    (handle a turns s d).1 = (doGet a.get turns headOnly d).reply := by
  have hget : ascii "GET" ≠ ascii "OPTIONS" := by decide
  have hhead : ascii "HEAD" ≠ ascii "OPTIONS" ∧ ascii "HEAD" ≠ ascii "GET" := by decide
  unfold handle
  rw [h]
  cases headOnly with
  | false =>
    rw [getMethod, if_neg hget, if_pos rfl]
  | true =>
    rw [getMethod, if_neg hhead.1, if_neg hhead.2, if_pos rfl]

theorem worker_replies (a : WorkerAnswers) (turns : Nat) {s : Socket} {d : Dav} {headOnly : Bool}
    {target : List UInt8} (h : Asks s d (getMethod headOnly) target) :
    ∃ reply, (worker a turns s d).1 = some reply ∧
      Replies a.get headOnly (refusal a.get target) reply := by
  obtain ⟨i, hi, hline⟩ := h.words
  have hshort : ¬ methodSize ≤ (getMethod headOnly).length := by
    cases headOnly <;> decide
  cases hread : readRequest s d with
  | none =>
    have hreceived := h.received
    rw [hi] at hreceived
    unfold readRequest at hread
    generalize receiveHeaders s d = r at *
    obtain ⟨found, s', d'⟩ := r
    dsimp only at hreceived
    rw [hreceived] at hread
    dsimp only at hread
    cases hread
  | some request =>
    obtain ⟨ok, s', d'⟩ := request
    obtain ⟨j, hin⟩ := readRequest_some hread
    have hj := headerEnd_eq_some hin.blank hin.fits hin.first
    rw [hi, Option.some.injEq] at hj
    subst hj
    have hview := hin.outcome
    rw [readText_some hline, if_neg hshort] at hview
    unfold worker
    rw [hread]
    by_cases hroot : Rooted target
    · rw [if_pos hroot, Prod.mk.injEq] at hview
      obtain ⟨rfl, hview⟩ := hview
      rw [view] at hview
      obtain ⟨hmethod, hpath, -, -⟩ := View.mk.inj hview
      refine ⟨(handle a turns s' d').1, rfl, ?_⟩
      rw [handle_getMethod a turns s' hmethod]
      exact doGet_replies a.get turns headOnly hroot hpath
    · rw [if_neg hroot, Prod.mk.injEq] at hview
      obtain ⟨rfl, -⟩ := hview
      refine ⟨_, rfl, ?_⟩
      rw [refusal, if_pos hroot]
      exact .refused _

def replyHeader (a : GetAnswers) : Option Response → List UInt8
  | none => getHeader a.fsize
  | some r => simpleHeader r

theorem sendSimpleResponse_bytes (sends : Nat → Bool) (r : Response)
    (hbody : 0 < r.body.length % 0x100000000) :
    (sendSimpleResponse sends r).flatMap Prod.fst =
      simpleHeader r ++ (if sends 0 then r.body else []) := by
  unfold sendSimpleResponse
  cases sends 0 with
  | false => simp
  | true => simp [hbody]

theorem headerBlock_wire (a : WorkerAnswers) (turns : Nat) {s : Socket} {d : Dav} {headOnly : Bool}
    {target : List UInt8} (h : Asks s d (getMethod headOnly) target) :
    headerBlock (wire a turns s d) = replyHeader a.get (refusal a.get target) := by
  obtain ⟨reply, hreply, hreplies⟩ := worker_replies a turns h
  rw [wire, hreply]
  generalize hr : refusal a.get target = found at hreplies ⊢
  cases hreplies with
  | refused r =>
    obtain ⟨hreason, hkind, hbody⟩ := refusal_body hr
    rw [pieces, sendSimpleResponse_bytes a.get.sends r hbody]
    exact headerBlock_simpleHeader hreason hkind _
  | opened rest _ =>
    rw [pieces, List.flatMap_cons]
    exact headerBlock_getHeader a.get.fsize _

/-- What `HEAD` sends is its header block, unless there is a refusal and it goes out whole. -/
theorem wire_head_iff (a : WorkerAnswers) (turns : Nat) {s : Socket} {d : Dav} {target : List UInt8}
    (h : Asks s d (ascii "HEAD") target) :
    wire a turns s d = replyHeader a.get (refusal a.get target) ↔
      Opens a.get target ∨ a.get.sends 0 = false := by
  obtain ⟨reply, hreply, hreplies⟩ := @worker_replies a turns s d true target h
  rw [wire, hreply, ← refusal_eq_none]
  generalize hr : refusal a.get target = found at hreplies ⊢
  cases hreplies with
  | refused r =>
    obtain ⟨-, -, hbody⟩ := refusal_body hr
    have hne : r.body ≠ [] := by
      intro hnil
      rw [hnil] at hbody
      exact absurd hbody (by decide)
    rw [pieces, sendSimpleResponse_bytes a.get.sends r hbody, replyHeader]
    cases a.get.sends 0 with
    | false => simp
    | true => simp [hne]
  | opened rest hrest =>
    rw [pieces, hrest rfl]
    simp [replyHeader]

theorem SameCard.announces {a b : GetAnswers} (h : SameCard a b) (target : List UInt8) :
    replyHeader a (refusal a target) = replyHeader b (refusal b target) := by
  rw [h.refuses target]
  cases refusal b target with
  | none => exact congrArg getHeader h.size
  | some r => rfl

/-- `HEAD` is `GET` without the body for a file that opens, and for nothing else that is sent. -/
theorem head_is_header_of_get_iff {a b : WorkerAnswers} {turns turns' : Nat} {s s' : Socket}
    {d d' : Dav} {target : List UInt8} (hhead : Asks s d (ascii "HEAD") target)
    (hget : Asks s' d' (ascii "GET") target) (hcard : SameCard a.get b.get) :
    wire a turns s d = headerBlock (wire b turns' s' d') ↔
      Opens a.get target ∨ a.get.sends 0 = false := by
  rw [@headerBlock_wire b turns' s' d' false target hget, ← hcard.announces target]
  exact wire_head_iff a turns hhead

def askFor (method : List UInt8) : List UInt8 := method ++ ascii " /a HTTP/1.1" ++ crlfcrlf

theorem asks_head : Asks (atOnce (askFor (ascii "HEAD"))) blankWorker (ascii "HEAD") (ascii "/a") :=
  ⟨receiveHeaders_steady (steady_atOnce _) _, 16,
    headerEnd_eq_some (by decide) (by decide) (by decide), by decide⟩

theorem asks_get : Asks (atOnce (askFor (ascii "GET"))) blankWorker (ascii "GET") (ascii "/a") :=
  ⟨receiveHeaders_steady (steady_atOnce _) _, 15,
    headerEnd_eq_some (by decide) (by decide) (by decide), by decide⟩

theorem head_is_header_of_get_hi :
    wire obliging 1 (atOnce (askFor (ascii "HEAD"))) blankWorker =
      headerBlock (wire obliging 1 (atOnce (askFor (ascii "GET"))) blankWorker) := by
  apply (head_is_header_of_get_iff asks_head asks_get ⟨rfl, rfl, rfl, rfl⟩).mpr
  exact Or.inl ⟨by decide, by decide +kernel, rfl, rfl, rfl⟩

def missing : WorkerAnswers :=
  { obliging with get := { hiAnswers with statResult := .frNoFile } }

/-- `HEAD` of a file that does not exist is told so in a body. -/
theorem head_of_missing_has_body :
    ¬ ∀ (a b : WorkerAnswers) (turns turns' : Nat) (s s' : Socket) (d d' : Dav)
      (target : List UInt8), Asks s d (ascii "HEAD") target → Asks s' d' (ascii "GET") target →
      SameCard a.get b.get → wire a turns s d = headerBlock (wire b turns' s' d') := by
  intro hall
  have hsame := hall missing missing 1 1 _ _ _ _ _ asks_head asks_get ⟨rfl, rfl, rfl, rfl⟩
  rw [@headerBlock_wire missing 1 _ _ false _ asks_get, wire_head_iff missing 1 asks_head] at hsame
  obtain hopens | hsend := hsame
  · cases hopens.stat
  · cases hsend

end RapiBootloader.WebDavHead
