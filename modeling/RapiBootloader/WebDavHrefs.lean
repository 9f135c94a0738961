import RapiBootloader.WebDavListing
import RapiBootloader.WebDavParse

namespace RapiBootloader.WebDavHrefs

open Lib.Memory Lib.Strings Lib.CLibrary Card WebDavText WebDavServer WebDavParse WebDavPut
open WebDavListing

/-- The characters of long file names. -/
def nameChar (c : UInt8) : Prop := 32 ≤ c ∧ c ≠ 127 ∧ c ∉ ascii "\"*/:<>?\\|"

instance (c : UInt8) : Decidable (nameChar c) := inferInstanceAs (Decidable (_ ∧ _))

def FatName (fname : List UInt8) : Prop := fname ≠ [] ∧ ∀ c ∈ fname, nameChar c

/-- A path of such names; FatFs takes a backslash for a slash. -/
def FatPath (path : List UInt8) : Prop :=
  path.head? = some 47 ∧ ∀ c ∈ path, nameChar c ∨ c = 47 ∨ c = 92

def getRequest (target more : List UInt8) : List UInt8 :=
  ascii "GET " ++ target ++ ascii " HTTP/1.1" ++ more

def HeaderLines (more : List UInt8) : Prop := more = [] ∨ more.head? = some 13

/-- The SD path a header block leads to, or `none` when it is refused. -/
def requestedPath (headerLen : Nat) (d : Dav) : Option (List UInt8) :=
  let r := parseRequest headerLen d
  if r.1 then mapPath (cstr r.2.path pathSize 0) else none

/-- The SD path names this child of the directory, up to slashes that separate nothing. -/
def Names (sdPath directory fname : List UInt8) : Prop :=
  ∃ path, sdPath = ascii "SD:" ++ path ∧
    tokens (ascii "/") path = tokens (ascii "/") directory ++ [fname]

/-- A `GET` of the target, whatever other header lines come with it, asks for this child. -/
def LeadsTo (target directory fname : List UInt8) : Prop :=
  ∀ (d : Dav) (more : List UInt8), HeaderLines more → Holds d.recvBuf 0 (getRequest target more) →
    (getRequest target more).length < recvBufSize →
    ∃ sdPath, requestedPath (getRequest target more).length d = some sdPath ∧
      Names sdPath directory fname

def Refused (target : List UInt8) : Prop :=
  ∀ (d : Dav) (more : List UInt8), HeaderLines more → Holds d.recvBuf 0 (getRequest target more) →
    (getRequest target more).length < recvBufSize →
    requestedPath (getRequest target more).length d = none

/-- A target that says nothing else once it is cut at blanks and decoded. -/
def Plain (target : List UInt8) : Prop := 32 ∉ target ∧ ∀ s, s <:+ target → ¬ Escape s

theorem percentDecode_plain_self {s : List UInt8} (h : ∀ t, t <:+ s → ¬ Escape t) :
    percentDecode s = s := by
  induction s with
  | nil => rfl
  | cons c s ih =>
    rw [percentDecode_plain (h _ (List.suffix_refl _))]
    rw [ih (fun t ht => h t (ht.trans (List.suffix_cons c s)))]

def targetChar (c : UInt8) : Prop := 32 ≤ c ∧ c ≠ 63

theorem ne_control {c : UInt8} (h : 32 ≤ c) : c ≠ 0 ∧ c ∉ crlf := by
  refine ⟨fun h0 => ?_, fun hc => ?_⟩
  · subst h0
    exact absurd h (by decide)
  · obtain rfl | hc := List.mem_cons.mp hc
    · exact absurd h (by decide)
    · rw [List.mem_singleton.mp hc] at h
      exact absurd h (by decide)

theorem decodedPath_plain {target : List UInt8} (hplain : ∀ t, t <:+ target → ¬ Escape t)
    (hchars : ∀ c ∈ target, targetChar c) : decodedPath target = target := by
  rw [decodedPath, percentDecode_plain_self hplain]
  exact takeWhile_nul_self (fun h0 => (ne_control (hchars 0 h0).1).1 rfl)

/-- The first line of a block of header lines. -/
theorem tokens_first_line {line more : List UInt8} (hne : line ≠ []) (h : ∀ c ∈ line, 32 ≤ c)
    (hmore : HeaderLines more) :
    ∃ lines, tokens crlf ((line ++ more).takeWhile (· != 0)) = line :: lines := by
  have hcrlf : ∀ c ∈ line, c ∉ crlf := fun c hc => (ne_control (h c hc)).2
  rw [List.takeWhile_append_of_pos (fun c hc => bne_iff_ne.mpr (ne_control (h c hc)).1)]
  obtain rfl | hcr := hmore
  · rw [List.takeWhile_nil, List.append_nil]
    exact ⟨[], tokens_token hne hcrlf⟩
  · obtain ⟨rest, rfl⟩ : ∃ rest, more = 13 :: rest := by
      cases more with
      | nil => cases hcr
      | cons c rest => exact ⟨rest, congrArg (· :: rest) (Option.some.inj hcr)⟩
    rw [List.takeWhile_cons_of_pos (by decide)]
    exact ⟨_, tokens_append hne hcrlf (by decide) _⟩

def requestText (method target more : List UInt8) : List UInt8 :=
  method ++ 32 :: (target ++ ascii " HTTP/1.1") ++ more

theorem requestLine_text {method target more : List UInt8} (hmethod : method ≠ [])
    (hword : ∀ c ∈ method, 32 < c) (hne : target ≠ []) (hchars : ∀ c ∈ target, targetChar c)
    (hblank : 32 ∉ target) (hmore : HeaderLines more) :
    requestLine ((requestText method target more).takeWhile (· != 0)) = some (method, target) := by
  have hversion : ascii " HTTP/1.1" = 32 :: ascii "HTTP/1.1" ∧
      (∀ c ∈ ascii " HTTP/1.1", 32 ≤ c) ∧ ∀ c ∈ ascii "HTTP/1.1", c ≠ 32 := by decide +kernel
  have hline : ∀ c ∈ method ++ 32 :: (target ++ ascii " HTTP/1.1"), 32 ≤ c := by
    intro c hc
    obtain hc | hc := List.mem_append.mp hc
    · exact UInt8.le_of_lt (hword c hc)
    · obtain rfl | hc := List.mem_cons.mp hc
      · exact UInt8.le_refl 32
      · obtain hc | hc := List.mem_append.mp hc
        · exact (hchars c hc).1
        · exact hversion.2.1 c hc
  have hspace : ∀ c, c ∈ ascii " " ↔ c = 32 := fun c => List.mem_singleton
  have hnone : ∀ c ∈ method, c ∉ ascii " " := by
    intro c hc hc'
    rw [(hspace c).mp hc'] at hc
    exact absurd (hword 32 hc) (by decide)
  have htokens : tokens (ascii " ") (method ++ 32 :: (target ++ ascii " HTTP/1.1")) =
      [method, target, ascii "HTTP/1.1"] := by
    rw [hversion.1, tokens_append hmethod hnone ((hspace 32).mpr rfl),
      tokens_append hne (fun c hc hc' => hblank ((hspace c).mp hc' ▸ hc)) ((hspace 32).mpr rfl),
      tokens_token (by decide) (fun c hc => mt (hspace c).mp (hversion.2.2 c hc))]
  have hcut : target.takeWhile (· ≠ 63) = target :=
    List.takeWhile_eq_self_iff.mpr (fun c hc => decide_eq_true (hchars c hc).2)
  obtain ⟨lines, hfirst⟩ :=
    tokens_first_line (List.append_ne_nil_of_left_ne_nil hmethod _) hline hmore
  rw [requestText, requestLine, hfirst]
  dsimp only
  rw [htokens]
  dsimp only
  rw [hcut]

theorem getRequest_eq (target more : List UInt8) :
    getRequest target more = requestText (ascii "GET") target more := by
  have hget : ascii "GET " = ascii "GET" ++ [32] := by decide
  rw [getRequest, hget, requestText]
  simp only [List.append_assoc, List.cons_append, List.nil_append]

theorem requestedPath_plain {d : Dav} {target more : List UInt8} (hroot : target.head? = some 47)
    (hchars : ∀ c ∈ target, targetChar c) (hplain : Plain target) (hmore : HeaderLines more)
    (hheld : Holds d.recvBuf 0 (getRequest target more))
    (hlen : (getRequest target more).length < recvBufSize) :
    requestedPath (getRequest target more).length d =
      if target.length < pathSize then mapPath target else none := by
  have hne : target ≠ [] := by
    rintro rfl
    cases hroot
  have hread := (parseRequest_reads hheld hlen).outcome
  have hshort : ¬ methodSize ≤ (ascii "GET").length := by decide
  have hline := @requestLine_text (ascii "GET") target more (by decide) (by decide +kernel) hne
    hchars hplain.1 hmore
  rw [← getRequest_eq] at hline
  rw [readText_some hline, if_neg hshort] at hread
  have hdecoded := decodedPath_plain hplain.2 hchars
  unfold requestedPath
  generalize parseRequest (getRequest target more).length d = r at *
  dsimp only
  by_cases hfit : target.length < pathSize
  · rw [if_pos ⟨hroot, hfit⟩] at hread
    obtain ⟨hok, hview⟩ := Prod.mk.inj hread
    have hpath := congrArg View.path hview
    simp only [view, hdecoded] at hpath
    rw [if_pos hok, hpath, if_pos hfit]
  · rw [if_neg (fun h => hfit h.2)] at hread
    obtain ⟨hok, -⟩ := Prod.mk.inj hread
    rw [if_neg (by rw [hok]; exact Bool.false_ne_true), if_neg hfit]

def listedHref (path fname : List UInt8) (isDir : Bool) : List UInt8 :=
  xmlUnescape (hrefText (childHref path fname) isDir)

theorem listedHref_eq (path fname : List UInt8) (isDir : Bool) :
    ∃ slash, (slash = [] ∨ slash = [47]) ∧
      listedHref path fname isDir = childHref path fname ++ slash := by
  rw [listedHref, xmlUnescape_hrefText]
  split
  · exact ⟨[47], Or.inr rfl, rfl⟩
  · exact ⟨[], Or.inl rfl, rfl⟩

theorem tokens_name {fname slash : List UInt8} (hname : FatName fname)
    (hslash : slash = [] ∨ slash = [47]) : tokens (ascii "/") (fname ++ slash) = [fname] := by
  have hsep : ascii "/" = [47] := by decide
  have hnone : ∀ c ∈ fname, c ∉ [(47 : UInt8)] := by
    intro c hc h47
    rw [List.mem_singleton.mp h47] at hc
    exact absurd (hname.2 47 hc).2.2 (by decide)
  rw [hsep]
  obtain rfl | rfl := hslash
  · rw [List.append_nil]
    exact tokens_token hname.1 hnone
  · exact tokens_append hname.1 hnone (List.mem_singleton_self 47) []

theorem childHref_names {path fname slash : List UInt8} (hname : FatName fname)
    (hslash : slash = [] ∨ slash = [47]) :
    tokens (ascii "/") (childHref path fname ++ slash) = tokens (ascii "/") path ++ [fname] := by
  have hsep : ascii "/" = [47] := by decide
  have hlast := tokens_name hname hslash
  rw [hsep] at hlast
  rw [childHref, hsep]
  by_cases hroot : path = [47]
  · rw [if_pos hroot, hroot, List.append_nil, List.singleton_append, List.cons_append,
      tokens_cons_delim (List.mem_singleton_self 47), hlast]
    rfl
  · rw [if_neg hroot, List.append_assoc, List.append_assoc, List.singleton_append,
      tokens_append_delim (List.mem_singleton_self 47), hlast]

theorem childHref_chars {path fname slash : List UInt8} (hpath : FatPath path)
    (hname : FatName fname) (hslash : slash = [] ∨ slash = [47]) :
    ∀ c ∈ childHref path fname ++ slash, targetChar c := by
  have hlegal : ∀ c, nameChar c → targetChar c := by
    refine fun c hc => ⟨hc.1, fun h => hc.2.2 ?_⟩
    rw [h]
    decide
  have hsep : targetChar 47 ∧ targetChar 92 := by
    constructor <;> exact ⟨by decide, by decide⟩
  intro c hc
  obtain hc | hc := List.mem_append.mp hc
  · obtain hc | hc := List.mem_append.mp hc
    · obtain hc | hc := List.mem_append.mp hc
      · obtain hc | rfl | rfl := hpath.2 c hc
        · exact hlegal c hc
        · exact hsep.1
        · exact hsep.2
      · split at hc
        · cases hc
        · rw [List.mem_singleton.mp hc]
          exact hsep.1
    · exact hlegal c (hname.2 c hc)
  · obtain rfl | rfl := hslash
    · cases hc
    · rw [List.mem_singleton.mp hc]
      exact hsep.1

theorem listed_child {a : DirAnswers} {d : Dav} {k : Nat} {text : List UInt8}
    (h : (hrefTexts (doPropfind a d).1.body)[k + 1]? = some text) :
    ∃ child, a.children[k]? = some child ∧
      text = hrefText (childHref (cstr d.path pathSize 0) child.fname) child.isDir := by
  have hplain : hrefTexts (ascii "Invalid path") = [] ∧ hrefTexts (ascii "Not found") = [] := by
    decide
  unfold doPropfind at h
  generalize cstr d.path pathSize 0 = path at *
  dsimp only at h
  cases hmap : mapPath path with
  | none =>
    rw [hmap] at h
    dsimp only at h
    rw [hplain.1] at h
    cases h
  | some sdPath =>
    rw [hmap] at h
    dsimp only at h
    by_cases hstat : ¬ path = ascii "/" ∧ a.statResult ≠ .frOk
    · rw [if_pos hstat] at h
      dsimp only at h
      rw [hplain.2] at h
      cases h
    · rw [if_neg hstat] at h
      dsimp only at h
      rw [hrefTexts_multistatus, List.getElem?_cons_succ, List.getElem?_map] at h
      obtain ⟨child, hchild, htext⟩ := Option.map_eq_some_iff.mp h
      have hread : ∀ (p : Prop) [Decidable p],
          (if p then a.children else [])[k]? = some child → a.children[k]? = some child := by
        intro p _ hp
        split at hp
        · exact hp
        · cases hp
      exact ⟨child, hread _ hchild, htext.symm⟩

theorem mapPath_eq {target : List UInt8} (h : target ≠ ascii "/") :
    mapPath target =
      if ascii ".." <:+: target then none else some (ascii "SD:" ++ target) := by
  rw [mapPath, if_neg h]

/-- The href of a listed child, sent back as it stands, leads to that child, unless it is refused
for its length or for two dots in a row. -/
theorem listed_href_fetched {a : DirAnswers} {d : Dav} {k : Nat} {text : List UInt8}
    (hpath : FatPath (cstr d.path pathSize 0)) (hnames : ∀ c ∈ a.children, FatName c.fname)
    (hlisted : (hrefTexts (doPropfind a d).1.body)[k + 1]? = some text)
    (hplain : Plain (xmlUnescape text)) :
    ∃ child, a.children[k]? = some child ∧
      if (xmlUnescape text).length < pathSize ∧ ¬ ascii ".." <:+: xmlUnescape text then
        LeadsTo (xmlUnescape text) (cstr d.path pathSize 0) child.fname
      else Refused (xmlUnescape text) := by
  obtain ⟨child, hchild, htext⟩ := listed_child hlisted
  refine ⟨child, hchild, ?_⟩
  clear hlisted
  generalize cstr d.path pathSize 0 = path at *
  subst htext
  have hname := hnames child (List.mem_of_getElem? hchild)
  obtain ⟨slash, hslash, heq⟩ := listedHref_eq path child.fname child.isDir
  rw [listedHref] at heq
  rw [heq] at hplain ⊢
  have htokens := @childHref_names path child.fname slash hname hslash
  have hroot : (childHref path child.fname ++ slash).head? = some 47 := by
    obtain ⟨rest, hrest⟩ := List.head?_eq_some_iff.mp hpath.1
    rw [childHref, hrest]
    rfl
  have hchars := childHref_chars hpath hname hslash
  generalize childHref path child.fname ++ slash = target at *
  have hne : target ≠ ascii "/" := by
    intro h
    rw [h] at htokens
    have hnone : tokens (ascii "/") (ascii "/") = [] := by decide
    rw [hnone] at htokens
    exact absurd htokens.symm (List.append_ne_nil_of_right_ne_nil _ (List.cons_ne_nil _ _))
  by_cases hfit : target.length < pathSize
  · by_cases hdots : ascii ".." <:+: target
    · rw [if_neg (fun h => h.2 hdots)]
      intro e more hmore hheld hlen
      rw [requestedPath_plain hroot hchars hplain hmore hheld hlen, mapPath_eq hne, if_pos hfit,
        if_pos hdots]
    · rw [if_pos ⟨hfit, hdots⟩]
      intro e more hmore hheld hlen
      rw [requestedPath_plain hroot hchars hplain hmore hheld hlen, mapPath_eq hne, if_pos hfit,
        if_neg hdots]
      exact ⟨_, rfl, target, rfl, htokens⟩
  · rw [if_neg (fun h => hfit h.1)]
    intro e more hmore hheld hlen
    rw [requestedPath_plain hroot hchars hplain hmore hheld hlen, if_neg hfit]

def rootWorker : Dav := { blankWorker with path := write (fun _ => 0) 0 (ascii "/" ++ [0]) }

def oneFile (fname : List UInt8) : DirAnswers where
  statResult := .frOk
  statInfo := ⟨[], true, 0⟩
  openResult := .frOk
  reads := [(.frOk, ⟨fname, false, 0⟩)]

theorem plain_of_no_percent {target : List UInt8} (hblank : 32 ∉ target) (h : 37 ∉ target) :
    Plain target := by
  refine ⟨hblank, fun s hs hesc => ?_⟩
  obtain ⟨a, b, t, rfl, -, -⟩ := hesc
  exact h (hs.subset List.mem_cons_self)

theorem fatPath_root : FatPath (cstr rootWorker.path pathSize 0) := by
  have hroot : cstr rootWorker.path pathSize 0 = ascii "/" := by decide +kernel
  rw [hroot]
  exact ⟨by decide +kernel, by decide +kernel⟩

theorem fatName_oneFile {fname : List UInt8} (h : FatName fname) :
    ∀ c ∈ (oneFile fname).children, FatName c.fname := by
  intro c hc
  obtain ⟨r, hr, rfl⟩ := List.mem_map.mp hc
  rw [List.mem_singleton.mp ((List.takeWhile_prefix _).subset hr)]
  exact h

theorem listed_href_fetched_ampersand :
    ∃ child, (oneFile (ascii "a&b")).children[0]? = some child ∧
      LeadsTo (xmlUnescape (ascii "/a&amp;b")) (cstr rootWorker.path pathSize 0) child.fname := by
  have hname : FatName (ascii "a&b") := ⟨by decide +kernel, by decide +kernel⟩
  have hlisted : (hrefTexts (doPropfind (oneFile (ascii "a&b")) rootWorker).1.body)[0 + 1]? =
      some (ascii "/a&amp;b") := by decide +kernel
  have hplain : Plain (xmlUnescape (ascii "/a&amp;b")) :=
    plain_of_no_percent (by decide) (by decide)
  have hfit : (xmlUnescape (ascii "/a&amp;b")).length < pathSize ∧
      ¬ ascii ".." <:+: xmlUnescape (ascii "/a&amp;b") := by decide
  have hfetched := listed_href_fetched fatPath_root (fatName_oneFile hname) hlisted hplain
  simp only [if_pos hfit] at hfetched
  exact hfetched

/-- A file with two dots in a row in its name is listed, and refused to the client that asks for
it. -/
theorem not_every_href_fetched :
    ¬ ∀ (a : DirAnswers) (d : Dav) (k : Nat) (text : List UInt8),
      FatPath (cstr d.path pathSize 0) → (∀ c ∈ a.children, FatName c.fname) →
      (hrefTexts (doPropfind a d).1.body)[k + 1]? = some text →
      ∃ child, a.children[k]? = some child ∧
        LeadsTo (xmlUnescape text) (cstr d.path pathSize 0) child.fname := by
  intro hall
  have hname : FatName (ascii "a..b") := ⟨by decide +kernel, by decide +kernel⟩
  have hlisted : (hrefTexts (doPropfind (oneFile (ascii "a..b")) rootWorker).1.body)[0 + 1]? =
      some (ascii "/a..b") := by decide +kernel
  obtain ⟨child, -, hleads⟩ := hall _ _ 0 _ fatPath_root (fatName_oneFile hname) hlisted
  have hheld : Holds (write (fun _ => 0) 0 (getRequest (xmlUnescape (ascii "/a..b")) [])) 0
      (getRequest (xmlUnescape (ascii "/a..b")) []) := holds_write _ _ _
  obtain ⟨sdPath, hpath, -⟩ := hleads
    { blankWorker with
      recvBuf := write (fun _ => 0) 0 (getRequest (xmlUnescape (ascii "/a..b")) []) } []
    (Or.inl rfl) hheld (by decide)
  have hnone : requestedPath (getRequest (xmlUnescape (ascii "/a..b")) []).length
      { blankWorker with
        recvBuf := write (fun _ => 0) 0 (getRequest (xmlUnescape (ascii "/a..b")) []) } = none := by
    decide +kernel
  rw [hnone] at hpath
  cases hpath

end RapiBootloader.WebDavHrefs
