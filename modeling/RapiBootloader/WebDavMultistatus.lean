import RapiBootloader.Lib.Scan
import RapiBootloader.WebDavGet

namespace RapiBootloader.WebDavMultistatus

open Lib.Memory Lib.Strings Lib.CLibrary Lib.Scan Card WebDavText WebDavServer WebDavPut
open WebDavListing WebDavGet

inductive Kind
  | collection
  | file (size : Nat)
deriving DecidableEq, Repr

/-- What a `D:response` element says. -/
structure Resource where
  href : List UInt8
  kind : Kind
deriving DecidableEq, Repr

def rawChar (c : UInt8) : Bool := c ≠ 38 && c ≠ 60 && c ≠ 62 && c ≠ 34

/-- The text with its entities resolved, behind a number of bytes to skip. Nothing else may stand
for markup. -/
def strictText : Nat → List UInt8 → Option (List UInt8)
  | _, [] => some []
  | skip + 1, _ :: s => strictText skip s
  | 0, c :: s =>
    match entity (c :: s) with
    | some (e, n) => (strictText (n - 1) s).map (e :: ·)
    | none => if rawChar c then (strictText 0 s).map (c :: ·) else none

def readText (s : List UInt8) : Option (List UInt8 × List UInt8) :=
  (strictText 0 (s.takeWhile (· ≠ 60))).map (fun text => (text, s.dropWhile (· ≠ 60)))

def readSize (s : List UInt8) : Option (Nat × List UInt8) :=
  if s.takeWhile isDigit = [] then none else some (leadingNumber s, s.dropWhile isDigit)

def kindStart : List UInt8 := ascii "<D:resourcetype/><D:getcontentlength>"

def kindEnd : List UInt8 := ascii "</D:getcontentlength>"

def collectionText : List UInt8 := ascii "<D:resourcetype><D:collection/></D:resourcetype>"

def readKind (s : List UInt8) : Option (Kind × List UInt8) :=
  match eat collectionText s with
  | some s => some (.collection, s)
  | none => do
    let s ← eat kindStart s
    let (size, s) ← readSize s
    let s ← eat kindEnd s
    some (.file size, s)

def responseStart : List UInt8 := ascii "<D:response><D:href>"

def hrefEnd : List UInt8 := ascii "</D:href><D:propstat><D:prop>"

def responseEnd : List UInt8 :=
  ascii "</D:prop><D:status>HTTP/1.1 200 OK</D:status></D:propstat></D:response>"

def readResource : Scanner UInt8 Resource := fun s => do
  let s ← eat responseStart s
  let (href, s) ← readText s
  let s ← eat hrefEnd s
  let (kind, s) ← readKind s
  let s ← eat responseEnd s
  some (⟨href, kind⟩, s)

/-- A document of this structure, and of nothing else. -/
def readMultistatus (s : List UInt8) : Option (List Resource) := do
  let s ← eat xmlStart s
  let (resources, s) := many readResource (s.length + 1) s
  if s = xmlEnd then some resources else none

/-- What an entry is to say: an href that ends in a slash if it is a collection. -/
def resourceOf (href : List UInt8) (info : FileInfo) : Resource where
  href := href ++ (if info.isDir ∧ href.getLast? ≠ some 47 then ascii "/" else [])
  kind := if info.isDir then .collection else .file info.fsize

structure Lists (a : DirAnswers) (children : List FileInfo) : Prop where
  opened : a.openResult = .frOk
  named : ∀ c ∈ children, c.fname ≠ []
  reads : ∃ last more, last.fname = [] ∧
    a.reads = children.map (Prod.mk .frOk) ++ (.frOk, last) :: more

def selfInfo (a : DirAnswers) (path : List UInt8) : FileInfo :=
  if path = ascii "/" then ⟨[], true, 0⟩ else a.statInfo

def Found (a : DirAnswers) (path : List UInt8) : Prop :=
  ¬ ascii ".." <:+: path ∧ (path = ascii "/" ∨ a.statResult = .frOk)

instance (a : DirAnswers) (path : List UInt8) : Decidable (Found a path) :=
  inferInstanceAs (Decidable (_ ∧ _))

theorem strictText_skip (xs s : List UInt8) : strictText xs.length (xs ++ s) = strictText 0 s := by
  induction xs with
  | nil => rfl
  | cons c xs ih => exact ih

theorem strictText_xmlChar (c : UInt8) (s : List UInt8) :
    strictText 0 (xmlChar c ++ s) = (strictText 0 s).map (c :: ·) := by
  unfold xmlChar
  by_cases hamp : c = 38
  · subst hamp
    exact congrArg (Option.map (38 :: ·)) (strictText_skip (ascii "amp;") s)
  by_cases hlt : c = 60
  · subst hlt
    exact congrArg (Option.map (60 :: ·)) (strictText_skip (ascii "lt;") s)
  by_cases hgt : c = 62
  · subst hgt
    exact congrArg (Option.map (62 :: ·)) (strictText_skip (ascii "gt;") s)
  by_cases hquot : c = 34
  · subst hquot
    exact congrArg (Option.map (34 :: ·)) (strictText_skip (ascii "quot;") s)
  have hraw : rawChar c = true := by simp [rawChar, hamp, hlt, hgt, hquot]
  rw [if_neg hamp, if_neg hlt, if_neg hgt, if_neg hquot, List.singleton_append, strictText,
    entity_none hamp]
  dsimp only
  rw [if_pos hraw]

theorem strictText_flatMap (text s : List UInt8) :
    strictText 0 (text.flatMap xmlChar ++ s) = (strictText 0 s).map (text ++ ·) := by
  induction text with
  | nil =>
    rw [List.flatMap_nil, List.nil_append]
    exact Option.map_id'.symm
  | cons c text ih =>
    rw [List.flatMap_cons, List.append_assoc, strictText_xmlChar, ih, Option.map_map]
    rfl

/-- Behind an escaped text only markup can follow. -/
theorem readText_hrefText (href : List UInt8) (isCollection : Bool) (rest : List UInt8) :
    readText (hrefText href isCollection ++ 60 :: rest) =
      some (href ++ (if isCollection && href.getLast? ≠ some 47 then ascii "/" else []),
        60 :: rest) := by
  have hplain : ∀ c ∈ hrefText href isCollection, decide (c ≠ 60) = true := by
    intro c hc
    exact decide_eq_true (fun h => lt_notMem_hrefText href isCollection (h ▸ hc))
  have hstop : decide ((60 : UInt8) ≠ 60) = false := by decide
  rw [readText, takeWhile_stop hplain hstop, dropWhile_stop hplain hstop, hrefText,
    strictText_flatMap]
  split
  · rfl
  · rfl

theorem foldl_digits (chars : List Char) (h : ∀ c ∈ chars, c.isDigit = true) (init : Nat) :
    (chars.map (fun c => UInt8.ofNat c.toNat)).foldl (fun n c => 10 * n + (c.toNat - 48)) init =
      Nat.ofDigitChars 10 chars init := by
  induction chars generalizing init with
  | nil => rfl
  | cons c chars ih =>
    obtain ⟨hc, hchars⟩ := List.forall_mem_cons.mp h
    simp only [Char.isDigit, Bool.and_eq_true, decide_eq_true_iff] at hc
    have hhi : c.toNat ≤ 57 := hc.2
    have hbyte : (UInt8.ofNat c.toNat).toNat = c.toNat := by
      rw [UInt8.toNat_ofNat', Nat.mod_eq_of_lt (by omega)]
    rw [List.map_cons, List.foldl_cons, hbyte, Nat.ofDigitChars_cons, ih hchars]
    rfl

theorem isDigit_sizeText {n : Nat} : ∀ c ∈ sizeText n, isDigit c = true := by
  intro c hc
  obtain ⟨hlo, hhi⟩ := digit_of_mem_sizeText hc
  simp [isDigit, hlo, hhi]

theorem readSize_sizeText (n : Nat) (rest : List UInt8) :
    readSize (sizeText n ++ 60 :: rest) = some (n, 60 :: rest) := by
  have hstop : isDigit 60 = false := by decide
  have hne : sizeText n ≠ [] := by
    intro hnil
    have hdigits : Nat.toDigits 10 n = [] := by
      rw [← Nat.toList_repr]
      exact List.map_eq_nil_iff.mp hnil
    exact Nat.toDigits_ne_nil hdigits
  have hnumber : (sizeText n).foldl (fun n c => 10 * n + (c.toNat - 48)) 0 = n := by
    have hlist : (toString n).toList = Nat.toDigits 10 n := Nat.toList_repr
    rw [sizeText, ascii, hlist, foldl_digits]
    · exact Nat.ofDigitChars_ten_toDigits
    · exact fun c hc => Nat.isDigit_of_mem_toDigits (by decide) (by decide) hc
  rw [readSize, leadingNumber, takeWhile_stop isDigit_sizeText hstop, if_neg hne, hnumber,
    dropWhile_stop isDigit_sizeText hstop]

def kindText (kind : Kind) : List UInt8 :=
  match kind with
  | .collection => collectionText
  | .file size => kindStart ++ sizeText size ++ kindEnd

theorem reads_kind (kind : Kind) : Reads readKind (kindText kind) kind := by
  intro rest
  cases kind with
  | collection =>
    rw [kindText, readKind, eat_append]
  | file size =>
    have hother : ¬ collectionText <+: kindStart ++ sizeText size ++ kindEnd ++ rest := by
      rintro ⟨more, hmore⟩
      have hslash := congrArg (fun xs => xs[15]?) hmore
      have hnames : collectionText[15]? = some 62 ∧ kindStart[15]? = some 47 ∧
          15 < collectionText.length ∧ 15 < kindStart.length := by decide
      simp only [List.append_assoc] at hslash
      rw [List.getElem?_append_left hnames.2.2.1, List.getElem?_append_left hnames.2.2.2, hnames.1,
        hnames.2.1] at hslash
      exact absurd (Option.some.inj hslash) (by decide)
    have hend : kindEnd = 60 :: kindEnd.tail := by decide
    have hsize := readSize_sizeText size (kindEnd.tail ++ rest)
    rw [← List.cons_append, ← hend] at hsize
    rw [kindText, readKind, eat_eq_none hother]
    simp only [List.append_assoc, eat_append, Option.bind_eq_bind, Option.bind_some, hsize]

def entryText (href : List UInt8) (info : FileInfo) : List UInt8 :=
  responseStart ++ hrefText href info.isDir ++ hrefEnd ++
    kindText (if info.isDir then .collection else .file info.fsize) ++ responseEnd

theorem reads_entry (href : List UInt8) (info : FileInfo) :
    Reads readResource (entryText href info) (resourceOf href info) := by
  intro rest
  have hend : hrefEnd = 60 :: hrefEnd.tail := by decide
  have hkind := reads_kind (if info.isDir then .collection else .file info.fsize)
  have htext := readText_hrefText href info.isDir (hrefEnd.tail ++
    (kindText (if info.isDir then .collection else .file info.fsize) ++ (responseEnd ++ rest)))
  rw [← List.cons_append, ← hend] at htext
  simp only [readResource, entryText, List.append_assoc, eat_append, Option.bind_eq_bind,
    Option.bind_some, htext, hkind (responseEnd ++ rest), resourceOf, Bool.and_eq_true,
    decide_eq_true_iff]

theorem appendPropfindEntry_eq (xml href : List UInt8) (info : FileInfo) :
    appendPropfindEntry xml href info.isDir info.fsize = xml ++ entryText href info := by
  cases hdir : info.isDir with
  | true =>
    simp only [appendPropfindEntry, appendXmlEscaped, entryText, hrefText, kindText, hdir, if_true,
      List.append_assoc, collectionText, responseStart, responseEnd, hrefEnd]
  | false =>
    simp only [appendPropfindEntry, appendXmlEscaped, entryText, hrefText, kindText, hdir,
      Bool.false_eq_true, if_false, List.append_assoc, kindStart, kindEnd, responseStart,
      responseEnd, hrefEnd]

theorem foldl_entries (path : List UInt8) (children : List FileInfo) (xml : List UInt8) :
    children.foldl
        (fun xml c => appendPropfindEntry xml (childHref path c.fname) c.isDir c.fsize) xml =
      xml ++ children.flatMap (fun c => entryText (childHref path c.fname) c) := by
  induction children generalizing xml with
  | nil => exact (List.append_nil xml).symm
  | cons c children ih =>
    rw [List.foldl_cons, ih, appendPropfindEntry_eq, List.flatMap_cons, List.append_assoc]

theorem entryText_ne_nil (href : List UInt8) (info : FileInfo) : entryText href info ≠ [] := by
  have hne : responseStart ≠ [] := by decide
  simp [entryText, hne]

def entry (e : List UInt8 × FileInfo) : List UInt8 := entryText e.1 e.2

theorem readResource_end : readResource xmlEnd = none := by decide

theorem readMultistatus_multistatus (path : List UInt8) (self : FileInfo)
    (children : List FileInfo) :
    readMultistatus (multistatus path self children) =
      some (resourceOf path self ::
        children.map (fun c => resourceOf (childHref path c.fname) c)) := by
  have hdoc : multistatus path self children = xmlStart ++
      (((path, self) :: children.map (fun c => (childHref path c.fname, c))).flatMap entry ++
        xmlEnd) := by
    rw [multistatus, appendPropfindEntry_eq, foldl_entries, List.flatMap_cons, List.flatMap_map]
    simp only [entry, List.append_assoc]
  generalize hitems : (path, self) :: children.map (fun c => (childHref path c.fname, c)) = items
    at hdoc
  have hlen : items.length ≤ (items.flatMap entry).length :=
    length_le_flatMap (fun e _ => entryText_ne_nil e.1 e.2)
  have hmany : many readResource ((items.flatMap entry ++ xmlEnd).length + 1)
      (items.flatMap entry ++ xmlEnd) = (items.map (fun e => resourceOf e.1 e.2), xmlEnd) := by
    apply many_flatMap (fun e _ => reads_entry e.1 e.2) readResource_end
    rw [List.length_append]
    omega
  rw [hdoc, readMultistatus, eat_append, Option.bind_eq_bind, Option.bind_some, hmany]
  dsimp only
  rw [if_pos rfl, ← hitems, List.map_cons, List.map_map]
  rfl

theorem children_of_lists {a : DirAnswers} {children : List FileInfo} (h : Lists a children) :
    a.children = children := by
  obtain ⟨last, more, hlast, hreads⟩ := h.reads
  have hgoes : ∀ r ∈ children.map (Prod.mk FResult.frOk),
      decide (r.1 = .frOk ∧ r.2.fname ≠ []) = true := by
    intro r hr
    obtain ⟨c, hc, rfl⟩ := List.mem_map.mp hr
    exact decide_eq_true ⟨rfl, h.named c hc⟩
  have hstop : decide ((FResult.frOk, last).1 = .frOk ∧ (FResult.frOk, last).2.fname ≠ []) = false :=
    decide_eq_false (fun hno => hno.2 hlast)
  rw [DirAnswers.children, hreads, takeWhile_stop hgoes hstop, List.map_map]
  exact List.map_id' children

/-- Whatever the names are, the document says what the directory holds, and no other answer is
one. -/
theorem propfind_reads_back {a : DirAnswers} {children : List FileInfo} (h : Lists a children)
    (d : Dav) :
    readMultistatus (doPropfind a d).1.body =
      if Found a (cstr d.path pathSize 0) then
        some (resourceOf (cstr d.path pathSize 0) (selfInfo a (cstr d.path pathSize 0)) ::
          if (selfInfo a (cstr d.path pathSize 0)).isDir ∧ d.depth ≠ 0 then
            children.map (fun c => resourceOf (childHref (cstr d.path pathSize 0) c.fname) c)
          else [])
      else none := by
  have hplain : readMultistatus (ascii "Invalid path") = none ∧
      readMultistatus (ascii "Not found") = none := by decide
  unfold doPropfind
  generalize cstr d.path pathSize 0 = path
  by_cases hdots : ascii ".." <:+: path
  · have hmap : mapPath path = none := if_pos hdots
    rw [if_neg (fun hfound : Found a path => hfound.1 hdots)]
    dsimp only
    rw [hmap]
    exact hplain.1
  · obtain ⟨sdPath, hmap⟩ : ∃ sdPath, mapPath path = some sdPath := by
      rw [mapPath, if_neg hdots]
      split
      · exact ⟨_, rfl⟩
      · exact ⟨_, rfl⟩
    dsimp only
    rw [hmap]
    dsimp only
    by_cases hfound : path = ascii "/" ∨ a.statResult = .frOk
    · have hnot : ¬ (¬ path = ascii "/" ∧ a.statResult ≠ .frOk) := by
        rintro ⟨hroot, hstat⟩
        exact hfound.elim hroot hstat
      have hself : (if path = ascii "/" then ⟨[], true, 0⟩ else a.statInfo) = selfInfo a path := rfl
      have hin : Found a path := ⟨hdots, hfound⟩
      rw [if_neg hnot, hself, if_pos hin]
      dsimp only
      rw [readMultistatus_multistatus, children_of_lists h]
      by_cases hreads : (selfInfo a path).isDir = true ∧ d.depth ≠ 0
      · rw [if_pos ⟨hreads, h.opened⟩, if_pos hreads]
      · rw [if_neg (fun hno => hreads hno.1), if_neg hreads]
        rfl
    · have hmissing : ¬ path = ascii "/" ∧ a.statResult ≠ .frOk := not_or.mp hfound
      rw [if_pos hmissing, if_neg (fun hno : Found a path => hfound hno.2)]
      exact hplain.2

def markupNames : List FileInfo :=
  [⟨ascii "a</D:href>\"", false, 10⟩, ⟨ascii "&lt;b", true, 0⟩]

def markupAnswers : DirAnswers where
  statResult := .frOk
  statInfo := ⟨ascii "d", true, 0⟩
  openResult := .frOk
  reads := markupNames.map (Prod.mk .frOk) ++ [(.frOk, ⟨[], false, 0⟩)]

theorem propfind_reads_back_markup :
    readMultistatus (doPropfind markupAnswers hiDav).1.body =
      if Found markupAnswers (cstr hiDav.path pathSize 0) then
        some (resourceOf (cstr hiDav.path pathSize 0)
            (selfInfo markupAnswers (cstr hiDav.path pathSize 0)) ::
          if (selfInfo markupAnswers (cstr hiDav.path pathSize 0)).isDir ∧ hiDav.depth ≠ 0 then
            markupNames.map (fun c => resourceOf (childHref (cstr hiDav.path pathSize 0) c.fname) c)
          else [])
      else none :=
  propfind_reads_back ⟨rfl, by decide, ⟨[], false, 0⟩, [], rfl, rfl⟩ hiDav

end RapiBootloader.WebDavMultistatus
