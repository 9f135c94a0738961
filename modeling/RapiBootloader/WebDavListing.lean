import RapiBootloader.WebDavPut

namespace RapiBootloader.WebDavListing

open Lib.Memory Lib.Strings Lib.CLibrary Card WebDavText WebDavServer WebDavPut

structure FileInfo where
  fname : List UInt8
  isDir : Bool
  fsize : Nat
deriving DecidableEq, Repr

/-- What one `DoPropfind` is answered: by `f_stat`, `f_opendir` and each `f_readdir` in turn. An
empty name ends the directory. -/
structure DirAnswers where
  statResult : FResult
  statInfo : FileInfo
  openResult : FResult
  reads : List (FResult × FileInfo)

def sizeText (nSize : Nat) : List UInt8 := ascii (toString nSize)

def appendPropfindEntry (xml href : List UInt8) (isCollection : Bool) (nSize : Nat) : List UInt8 :=
  let needsSlash := isCollection && href.getLast? ≠ some 47
  let xml := xml ++ ascii "<D:response><D:href>"
  let xml := appendXmlEscaped xml href
  let xml := xml ++ (if needsSlash then ascii "/" else [])
  let xml := xml ++ ascii "</D:href><D:propstat><D:prop>"
  let xml := xml ++
    (if isCollection then ascii "<D:resourcetype><D:collection/></D:resourcetype>"
      else ascii "<D:resourcetype/><D:getcontentlength>" ++ sizeText nSize ++
        ascii "</D:getcontentlength>")
  xml ++ ascii "</D:prop><D:status>HTTP/1.1 200 OK</D:status></D:propstat></D:response>"

def DirAnswers.children (a : DirAnswers) : List FileInfo :=
  (a.reads.takeWhile (fun r => r.1 = .frOk ∧ r.2.fname ≠ [])).map Prod.snd

def childHref (path fname : List UInt8) : List UInt8 :=
  path ++ (if path = ascii "/" then [] else ascii "/") ++ fname

def xmlStart : List UInt8 :=
  ascii "<?xml version=\"1.0\" encoding=\"utf-8\"?>" ++ crlf ++
    ascii "<D:multistatus xmlns:D=\"DAV:\">"

def xmlEnd : List UInt8 := ascii "</D:multistatus>" ++ crlf

/-- The body of the answer: the resource itself, and its children where they are read. -/
def multistatus (path : List UInt8) (self : FileInfo) (children : List FileInfo) : List UInt8 :=
  let xml := appendPropfindEntry xmlStart path self.isDir self.fsize
  let xml := children.foldl
    (fun xml c => appendPropfindEntry xml (childHref path c.fname) c.isDir c.fsize) xml
  xml ++ xmlEnd

def doPropfind (a : DirAnswers) (d : Dav) : Response × List DavCall :=
  let path := cstr d.path pathSize 0
  match mapPath path with
  | none => (⟨403, "Forbidden", "text/plain", ascii "Invalid path"⟩, [])
  | some sdPath =>
    let root := path = ascii "/"
    if ¬ root ∧ a.statResult ≠ .frOk then
      (⟨404, "Not Found", "text/plain", ascii "Not found"⟩, [.stat sdPath a.statResult])
    else
      let self : FileInfo := if root then ⟨[], true, 0⟩ else a.statInfo
      let statCalls := if root then [] else [.stat sdPath a.statResult]
      let reads := self.isDir ∧ d.depth ≠ 0
      let children := if reads ∧ a.openResult = .frOk then a.children else []
      (⟨207, "Multi-Status", "text/xml; charset=\"utf-8\"", multistatus path self children⟩,
        statCalls ++ if reads then [.opendir sdPath a.openResult] else [])

/-- The text of each `D:href` element of a document. -/
def hrefTexts (xml : List UInt8) : List (List UInt8) :=
  (xml.splitOn 60).filterMap
    (fun piece => if ascii "D:href>" <+: piece then some (piece.drop 7) else none)

def entity (s : List UInt8) : Option (UInt8 × Nat) :=
  if ascii "&amp;" <+: s then some (38, 5)
  else if ascii "&lt;" <+: s then some (60, 4)
  else if ascii "&gt;" <+: s then some (62, 4)
  else if ascii "&quot;" <+: s then some (34, 6)
  else none

def resolve : Nat → List UInt8 → List UInt8
  | _, [] => []
  | skip + 1, _ :: s => resolve skip s
  | 0, c :: s =>
    match entity (c :: s) with
    | some (e, n) => e :: resolve (n - 1) s
    | none => c :: resolve 0 s

def xmlUnescape (text : List UInt8) : List UInt8 := resolve 0 text

def hrefText (href : List UInt8) (isCollection : Bool) : List UInt8 :=
  href.flatMap xmlChar ++ (if isCollection && href.getLast? ≠ some 47 then ascii "/" else [])

theorem hrefTexts_append (xs ys : List UInt8) :
    hrefTexts (xs ++ 60 :: ys) = hrefTexts xs ++ hrefTexts ys := by
  rw [hrefTexts, List.splitOn_append_cons_self, List.filterMap_append, hrefTexts, hrefTexts]

theorem hrefTexts_piece {xs : List UInt8} (h : 60 ∉ xs) :
    hrefTexts xs = if ascii "D:href>" <+: xs then [xs.drop 7] else [] := by
  rw [hrefTexts, List.splitOn_eq_singleton h]
  by_cases hpre : ascii "D:href>" <+: xs
  · simp only [List.filterMap_cons, List.filterMap_nil, hpre, if_true]
  · simp only [List.filterMap_cons, List.filterMap_nil, hpre, if_false]

theorem lt_notMem_xmlChar (c : UInt8) : 60 ∉ xmlChar c := by
  unfold xmlChar
  split
  · decide
  split
  · decide
  split
  · decide
  split
  · decide
  · rw [List.mem_singleton]
    exact fun h => absurd h.symm ‹_›

theorem lt_notMem_hrefText (href : List UInt8) (isCollection : Bool) :
    60 ∉ hrefText href isCollection := by
  intro h
  obtain hname | hslash := List.mem_append.mp h
  · obtain ⟨c, -, hc⟩ := List.mem_flatMap.mp hname
    exact lt_notMem_xmlChar c hc
  · split at hslash
    · revert hslash
      decide
    · cases hslash

theorem digit_of_mem_sizeText {n : Nat} {c : UInt8} (h : c ∈ sizeText n) : 48 ≤ c ∧ c ≤ 57 := by
  obtain ⟨char, hchar, rfl⟩ := List.mem_map.mp h
  have hdigit : char.isDigit = true := by
    have hchar' : char ∈ Nat.toDigits 10 n := by
      rw [← Nat.toList_repr]
      exact hchar
    exact Nat.isDigit_of_mem_toDigits (by decide) (by decide) hchar'
  simp only [Char.isDigit, Bool.and_eq_true, decide_eq_true_iff] at hdigit
  have hlo : 48 ≤ char.toNat := hdigit.1
  have hhi : char.toNat ≤ 57 := hdigit.2
  simp only [UInt8.le_iff_toNat_le, UInt8.toNat_ofNat', Nat.mod_eq_of_lt (show char.toNat < 2 ^ 8 by omega)]
  exact ⟨hlo, hhi⟩

theorem lt_notMem_sizeText (n : Nat) : 60 ∉ sizeText n := by
  intro h
  exact absurd (digit_of_mem_sizeText h).2 (by decide)

theorem hrefTexts_size (nSize : Nat) : hrefTexts (ascii "D:getcontentlength>" ++ sizeText nSize) = [] := by
  rw [hrefTexts_piece, if_neg]
  · rintro ⟨rest, hrest⟩
    have hthird := congrArg (fun xs => xs[2]?) hrest
    cases hthird
  · intro h
    obtain hname | hdigit := List.mem_append.mp h
    · revert hname
      decide
    · exact lt_notMem_sizeText nSize hdigit

theorem hrefTexts_href (href : List UInt8) (isCollection : Bool) :
    hrefTexts (ascii "D:href>" ++ hrefText href isCollection) = [hrefText href isCollection] := by
  rw [hrefTexts_piece, if_pos (List.prefix_append _ _)]
  · rfl
  · intro h
    obtain hname | htext := List.mem_append.mp h
    · revert hname
      decide
    · exact lt_notMem_hrefText href isCollection htext

def entryTail (isCollection : Bool) (nSize : Nat) : List UInt8 :=
  (if isCollection then ascii "<D:resourcetype><D:collection/></D:resourcetype>"
    else ascii "<D:resourcetype/><D:getcontentlength>" ++ sizeText nSize ++
      ascii "</D:getcontentlength>") ++
    ascii "</D:prop><D:status>HTTP/1.1 200 OK</D:status></D:propstat></D:response>"

theorem hrefTexts_entryTail (isCollection : Bool) (nSize : Nat) :
    hrefTexts (ascii "/D:href><D:propstat><D:prop>" ++ entryTail isCollection nSize) = [] := by
  cases isCollection with
  | true =>
    have hfixed : entryTail true nSize = entryTail true 0 := rfl
    rw [hfixed]
    decide
  | false =>
    have hopen : ascii "<D:resourcetype/><D:getcontentlength>" =
        60 :: (ascii "D:resourcetype/>" ++ 60 :: ascii "D:getcontentlength>") := by decide
    have hclose : ascii "</D:getcontentlength>" = 60 :: ascii "/D:getcontentlength>" := by
      decide
    have hnames : hrefTexts (ascii "/D:href><D:propstat><D:prop>") = [] ∧
        hrefTexts (ascii "D:resourcetype/>") = [] ∧
        hrefTexts (ascii "/D:getcontentlength>" ++
          ascii "</D:prop><D:status>HTTP/1.1 200 OK</D:status></D:propstat></D:response>") = [] := by
      decide
    have htail : entryTail false nSize = 60 :: (ascii "D:resourcetype/>" ++
        60 :: ((ascii "D:getcontentlength>" ++ sizeText nSize) ++ 60 :: (ascii "/D:getcontentlength>" ++
          ascii "</D:prop><D:status>HTTP/1.1 200 OK</D:status></D:propstat></D:response>"))) := by
      rw [entryTail, if_neg Bool.false_ne_true, hopen, hclose]
      simp only [List.append_assoc, List.cons_append]
    rw [htail, hrefTexts_append, hrefTexts_append, hrefTexts_append, hnames.1, hnames.2.1, hrefTexts_size,
      hnames.2.2]
    rfl

theorem hrefTexts_entry (xml href : List UInt8) (isCollection : Bool) (nSize : Nat) :
    hrefTexts (appendPropfindEntry xml href isCollection nSize) =
      hrefTexts xml ++ [hrefText href isCollection] := by
  have hopen : ascii "<D:response><D:href>" =
      60 :: (ascii "D:response>" ++ 60 :: ascii "D:href>") := by decide
  have hclose : ascii "</D:href><D:propstat><D:prop>" =
      60 :: ascii "/D:href><D:propstat><D:prop>" := by decide
  have hresponse : hrefTexts (ascii "D:response>") = [] := by decide
  have hentry : appendPropfindEntry xml href isCollection nSize =
      xml ++ 60 :: (ascii "D:response>" ++ 60 :: ((ascii "D:href>" ++ hrefText href isCollection) ++
        60 :: (ascii "/D:href><D:propstat><D:prop>" ++ entryTail isCollection nSize))) := by
    simp only [appendPropfindEntry, appendXmlEscaped, hopen, hclose, hrefText, entryTail,
      List.append_assoc, List.cons_append]
  rw [hentry, hrefTexts_append, hrefTexts_append, hrefTexts_append, hrefTexts_entryTail, hresponse,
    hrefTexts_href]
  rfl

theorem hrefTexts_children (path : List UInt8) (children : List FileInfo) (xml : List UInt8) :
    hrefTexts (children.foldl
        (fun xml c => appendPropfindEntry xml (childHref path c.fname) c.isDir c.fsize) xml) =
      hrefTexts xml ++ children.map (fun c => hrefText (childHref path c.fname) c.isDir) := by
  induction children generalizing xml with
  | nil => simp
  | cons c children ih =>
    rw [List.foldl_cons, ih, hrefTexts_entry, List.map_cons, List.append_assoc,
      List.singleton_append]

/-- A document lists the resource and then the children it was built from. -/
theorem hrefTexts_multistatus (path : List UInt8) (self : FileInfo) (children : List FileInfo) :
    hrefTexts (multistatus path self children) =
      hrefText path self.isDir ::
        children.map (fun c => hrefText (childHref path c.fname) c.isDir) := by
  have hstart : hrefTexts xmlStart = [] := by decide
  have hend : xmlEnd = 60 :: (ascii "/D:multistatus>" ++ crlf) ∧
      hrefTexts (ascii "/D:multistatus>" ++ crlf) = [] := by decide
  rw [multistatus, hend.1, hrefTexts_append, hend.2, List.append_nil, hrefTexts_children,
    hrefTexts_entry, hstart]
  rfl

theorem resolve_skip (xs s : List UInt8) : resolve xs.length (xs ++ s) = resolve 0 s := by
  induction xs with
  | nil => rfl
  | cons c xs ih => exact ih

theorem entity_none {c : UInt8} (h : c ≠ 38) (s : List UInt8) : entity (c :: s) = none := by
  have hamp : ∀ name : List UInt8, ¬ 38 :: name <+: c :: s := by
    intro name hpre
    exact h (List.cons_prefix_cons.mp hpre).1.symm
  unfold entity
  rw [if_neg, if_neg, if_neg, if_neg] <;> exact hamp _

theorem resolve_xmlChar (c : UInt8) (s : List UInt8) :
    resolve 0 (xmlChar c ++ s) = c :: resolve 0 s := by
  unfold xmlChar
  by_cases hamp : c = 38
  · subst hamp
    exact congrArg (38 :: ·) (resolve_skip (ascii "amp;") s)
  by_cases hlt : c = 60
  · subst hlt
    exact congrArg (60 :: ·) (resolve_skip (ascii "lt;") s)
  by_cases hgt : c = 62
  · subst hgt
    exact congrArg (62 :: ·) (resolve_skip (ascii "gt;") s)
  by_cases hquot : c = 34
  · subst hquot
    exact congrArg (34 :: ·) (resolve_skip (ascii "quot;") s)
  rw [if_neg hamp, if_neg hlt, if_neg hgt, if_neg hquot, List.singleton_append, resolve,
    entity_none hamp]

theorem resolve_flatMap (text s : List UInt8) :
    resolve 0 (text.flatMap xmlChar ++ s) = text ++ resolve 0 s := by
  induction text with
  | nil => rfl
  | cons c text ih =>
    rw [List.flatMap_cons, List.append_assoc, resolve_xmlChar, ih]
    rfl

theorem xmlUnescape_hrefText (href : List UInt8) (isCollection : Bool) :
    xmlUnescape (hrefText href isCollection) =
      href ++ (if isCollection && href.getLast? ≠ some 47 then ascii "/" else []) := by
  rw [xmlUnescape, hrefText, resolve_flatMap]
  split
  · congr 1
  · rfl

end RapiBootloader.WebDavListing
