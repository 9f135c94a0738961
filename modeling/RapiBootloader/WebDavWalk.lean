import RapiBootloader.WebDavHrefs

namespace RapiBootloader.WebDavWalk

open Lib.Memory Lib.Strings Lib.CLibrary Card WebDavText WebDavServer WebDavParse WebDavPut
open WebDavListing WebDavHrefs

inductive Node
  | file (size : Nat)
  | dir (entries : List (List UInt8 × Node))

def Node.isDir : Node → Bool
  | .file _ => false
  | .dir _ => true

def Node.size : Node → Nat
  | .file size => size
  | .dir _ => 0

def Node.entries : Node → List (List UInt8 × Node)
  | .file _ => []
  | .dir entries => entries

def Node.find : List (List UInt8) → Node → Option Node
  | [], node => some node
  | name :: path, node => (node.entries.lookup name).bind (Node.find path)

/-- A name FatFs can have on the card, without characters that need escaping. -/
structure PlainName (fname : List UInt8) : Prop where
  fat : FatName fname
  short : fname.length ≤ 255
  noBlank : 32 ∉ fname
  noPercent : 37 ∉ fname

inductive WellNamed : Node → Prop
  | file (size : Nat) : WellNamed (.file size)
  | dir {entries : List (List UInt8 × Node)} (hnames : ∀ e ∈ entries, PlainName e.1)
      (hnodup : (entries.map Prod.fst).Nodup) (hsub : ∀ e ∈ entries, WellNamed e.2) :
      WellNamed (.dir entries)

structure Card where
  root : List (List UInt8 × Node)
  wellNamed : WellNamed (.dir root)

def Card.find (card : Card) (path : List (List UInt8)) : Option Node := (Node.dir card.root).find path

theorem mem_of_lookup {entries : List (List UInt8 × Node)} {name : List UInt8} {node : Node}
    (h : entries.lookup name = some node) : (name, node) ∈ entries := by
  obtain ⟨before, behind, rfl, -⟩ := List.lookup_eq_some_iff.mp h
  exact List.mem_append_right _ List.mem_cons_self

theorem WellNamed.find {path : List (List UInt8)} {node sub : Node} (h : WellNamed node)
    (hfind : node.find path = some sub) : WellNamed sub := by
  induction path generalizing node with
  | nil =>
    cases hfind
    exact h
  | cons name path ih =>
    obtain ⟨child, hchild, hrest⟩ := Option.bind_eq_some_iff.mp hfind
    cases h with
    | file => cases hchild
    | dir _ _ hsub => exact ih (hsub _ (mem_of_lookup hchild)) hrest

theorem Card.names {card : Card} {path : List (List UInt8)} {node : Node}
    (h : card.find path = some node) : ∀ e ∈ node.entries, PlainName e.1 := by
  cases card.wellNamed.find h with
  | file => exact fun _ he => absurd he List.not_mem_nil
  | dir hnames => exact hnames

theorem Card.nodup {card : Card} {path : List (List UInt8)} {node : Node}
    (h : card.find path = some node) : (node.entries.map Prod.fst).Nodup := by
  cases card.wellNamed.find h with
  | file => exact List.nodup_nil
  | dir _ hnodup => exact hnodup

def components (path : List UInt8) : List (List UInt8) := tokens (ascii "/") path

/-- What FatFs answers on this card. Separators that come twice or last are of no matter to it, and
the root has no entry of its own. -/
def answers (card : Card) (path : List UInt8) : DirAnswers :=
  match card.find (components path) with
  | none => ⟨.frNoFile, ⟨[], false, 0⟩, .frNoPath, []⟩
  | some node =>
    { statResult := if components path = [] then .frOther 6 else .frOk
      statInfo := ⟨(components path).getLast?.getD [], node.isDir, node.size⟩
      openResult := if node.isDir then .frOk else .frNoPath
      reads := node.entries.map (fun e => (.frOk, ⟨e.1, e.2.isDir, e.2.size⟩)) }

/-- The worker has taken a `PROPFIND` of this target at depth 1. -/
def Requested (target : List UInt8) (d : Dav) : Prop :=
  ∃ (d₀ : Dav) (more : List UInt8), HeaderLines more ∧
    Holds d₀.recvBuf 0 (requestText (ascii "PROPFIND") target more) ∧
    (requestText (ascii "PROPFIND") target more).length < recvBufSize ∧
    parseRequest (requestText (ascii "PROPFIND") target more).length d₀ = (true, d) ∧ d.depth = 1

def Lists (card : Card) (target : List UInt8) (hrefs : List (List UInt8)) : Prop :=
  ∃ d, Requested target d ∧
    hrefs = (hrefTexts (doPropfind (answers card (cstr d.path pathSize 0)) d).1.body).map xmlUnescape

/-- A client that starts with `/` and goes into collections by their hrefs, the components of its
path and the target it last asked for. -/
inductive Walk (card : Card) : List (List UInt8) → List UInt8 → Prop
  | start : Walk card [] (ascii "/")
  | enter {path : List (List UInt8)} {target name href : List UInt8} {hrefs : List (List UInt8)}
      {node : Node} {sub : List (List UInt8 × Node)} {k : Nat} (h : Walk card path target)
      (hlists : Lists card target hrefs) (hnode : card.find path = some node)
      (hchild : node.entries[k]? = some (name, .dir sub)) (hhref : hrefs[k + 1]? = some href) :
      Walk card (path ++ [name]) href

/-- A slash in front of each component, and one behind a collection. -/
def canonicalHref (path : List (List UInt8)) (isDir : Bool) : List UInt8 :=
  if path = [] then ascii "/" else path.flatMap (47 :: ·) ++ if isDir then [47] else []

def canonicalHrefs (path : List (List UInt8)) (node : Node) : List (List UInt8) :=
  canonicalHref path node.isDir ::
    node.entries.map (fun e => canonicalHref (path ++ [e.1]) e.2.isDir)

def WalksCanonically (card : Card) : Prop :=
  ∀ path target, Walk card path target → ∀ hrefs, Lists card target hrefs →
    ∀ node, card.find path = some node → hrefs <+: canonicalHrefs path node

/-- The hrefs of the children do not depend on a slash behind the target. -/
def SlashNoMatter (card : Card) : Prop :=
  ∀ path node, path ≠ [] → card.find path = some node → ∀ hrefs hrefs',
    Lists card (canonicalHref path false) hrefs → Lists card (canonicalHref path true) hrefs' →
      hrefs.tail = hrefs'.tail

/-- No collection in the root that may be asked for has entries. -/
def Shallow (card : Card) : Prop :=
  ∀ name sub, card.find [name] = some (.dir sub) → ¬ ascii ".." <:+: name → sub = []

structure PlainTarget (target : List UInt8) : Prop where
  rooted : target.head? = some 47
  chars : ∀ c ∈ target, targetChar c
  noBlank : 32 ∉ target
  noPercent : 37 ∉ target

theorem requested_path {target : List UInt8} {d : Dav} (ht : PlainTarget target)
    (h : Requested target d) : cstr d.path pathSize 0 = target ∧ d.depth = 1 := by
  obtain ⟨d₀, more, hmore, hheld, hlen, hparsed, hdepth⟩ := h
  refine ⟨?_, hdepth⟩
  have hne : target ≠ [] := by
    rintro rfl
    cases ht.rooted
  have hline := @requestLine_text (ascii "PROPFIND") target more (by decide)
    (by decide +kernel) hne ht.chars ht.noBlank hmore
  have hread := (parseRequest_reads hheld hlen).outcome
  have hshort : ¬ methodSize ≤ (ascii "PROPFIND").length := by decide
  rw [hparsed, readText_some hline, if_neg hshort] at hread
  by_cases hrooted : Rooted target
  · rw [if_pos hrooted] at hread
    have hdecoded := decodedPath_plain (plain_of_no_percent ht.noBlank ht.noPercent).2 ht.chars
    have hpath := congrArg View.path (Prod.mk.inj hread).2
    simp only [view, hdecoded] at hpath
    exact hpath
  · rw [if_neg hrooted] at hread
    cases (Prod.mk.inj hread).1

theorem requestText_chars {target : List UInt8} (ht : PlainTarget target) :
    ∀ c ∈ requestText (ascii "PROPFIND") target [], 32 ≤ c := by
  have hwords : (∀ c ∈ ascii "PROPFIND", 32 ≤ c) ∧ ∀ c ∈ ascii " HTTP/1.1", 32 ≤ c := by
    decide +kernel
  intro c hc
  rw [requestText, List.append_nil] at hc
  obtain hc | hc := List.mem_append.mp hc
  · exact hwords.1 c hc
  · obtain rfl | hc := List.mem_cons.mp hc
    · exact UInt8.le_refl 32
    · obtain hc | hc := List.mem_append.mp hc
      · exact (ht.chars c hc).1
      · exact hwords.2 c hc

theorem exists_requested {target : List UInt8} (ht : PlainTarget target)
    (hlen : target.length < pathSize) : ∃ d, Requested target d := by
  have hne : target ≠ [] := by
    rintro rfl
    cases ht.rooted
  have hline := @requestLine_text (ascii "PROPFIND") target [] (by decide)
    (by decide +kernel) hne ht.chars ht.noBlank (Or.inl rfl)
  have hshort : ¬ methodSize ≤ (ascii "PROPFIND").length := by decide
  have hchars := requestText_chars ht
  have hsize : (requestText (ascii "PROPFIND") target []).length < recvBufSize := by
    have hwords : (ascii "PROPFIND").length = 8 ∧ (ascii " HTTP/1.1").length = 9 := by decide
    rw [requestText, List.append_nil, List.length_append, List.length_cons, List.length_append,
      hwords.1, hwords.2]
    exact Nat.lt_of_le_of_lt (Nat.add_le_add_left (Nat.succ_le_succ
      (Nat.add_le_add_right (Nat.le_of_lt hlen) 9)) 8) (by decide)
  have hheld : Holds (write (fun _ => 0) 0 (requestText (ascii "PROPFIND") target [])) 0
      (requestText (ascii "PROPFIND") target []) := holds_write _ _ _
  have hread := (@parseRequest_reads
    { blankWorker with recvBuf := write (fun _ => 0) 0 (requestText (ascii "PROPFIND") target []) } _
      hheld hsize).outcome
  rw [readText_some hline, if_neg hshort, if_pos ⟨ht.rooted, hlen⟩] at hread
  have hfields : (headerFields
      ((requestText (ascii "PROPFIND") target []).takeWhile (· != 0))).2 = 1 := by
    have hall : (requestText (ascii "PROPFIND") target []).takeWhile (· != 0) =
        requestText (ascii "PROPFIND") target [] :=
      List.takeWhile_eq_self_iff.mpr
        (fun c hc => bne_iff_ne.mpr (ne_control (hchars c hc)).1)
    have htokens : tokens crlf (requestText (ascii "PROPFIND") target []) =
        [requestText (ascii "PROPFIND") target []] := by
      apply tokens_token
      · rw [requestText, List.append_nil]
        exact List.append_ne_nil_of_right_ne_nil _ (List.cons_ne_nil _ _)
      · exact fun c hc => (ne_control (hchars c hc)).2
    rw [hall, headerFields, htokens]
    rfl
  generalize hparsed : parseRequest _ _ = r at hread
  obtain ⟨ok, d⟩ := r
  obtain ⟨hok, hview⟩ := Prod.mk.inj hread
  rw [show ok = true from hok] at hparsed
  exact ⟨d, _, [], Or.inl rfl, hheld, hsize, hparsed, (congrArg View.depth hview).trans hfields⟩

theorem slash_notMem {fname : List UInt8} (h : PlainName fname) : 47 ∉ fname := by
  intro hmem
  exact absurd (h.fat.2 47 hmem).2.2 (by decide)

def joined (path : List (List UInt8)) : List UInt8 := path.flatMap (47 :: ·)

theorem canonicalHref_eq {path : List (List UInt8)} (h : path ≠ []) (isDir : Bool) :
    canonicalHref path isDir = joined path ++ if isDir then [47] else [] := if_neg h

theorem components_joined {path : List (List UInt8)} (h : ∀ name ∈ path, PlainName name)
    {slash : List UInt8} (hslash : slash = [] ∨ slash = [47]) :
    components (joined path ++ slash) = path := by
  have hsep : ascii "/" = [47] := by decide
  induction path using List.reverseRecOn generalizing slash with
  | nil =>
    obtain rfl | rfl := hslash <;> decide
  | append_singleton path name ih =>
    have hlast := tokens_name (h name List.mem_concat_self).fat hslash
    have hpath := ih (fun n hn => h n (List.mem_append_left _ hn)) (Or.inl rfl)
    rw [components, List.append_nil, hsep] at hpath
    rw [hsep] at hlast
    have hsplit : joined (path ++ [name]) ++ slash = joined path ++ 47 :: (name ++ slash) := by
      rw [joined, joined, List.flatMap_append, List.append_assoc]
      simp
    rw [components, hsep, hsplit, tokens_append_delim (List.mem_singleton_self 47), hpath, hlast]

def slashed (href : List UInt8) (isDir : Bool) : List UInt8 :=
  href ++ if isDir && href.getLast? ≠ some 47 then ascii "/" else []

def listing (card : Card) (target : List UInt8) : List (List UInt8) :=
  if ascii ".." <:+: target then []
  else
    match card.find (components target) with
    | none => []
    | some node =>
      slashed target node.isDir ::
        node.entries.map (fun e => slashed (childHref target e.1) e.2.isDir)

theorem answers_some {card : Card} {path : List UInt8} {node : Node}
    (h : card.find (components path) = some node) :
    answers card path =
      { statResult := if components path = [] then .frOther 6 else .frOk
        statInfo := ⟨(components path).getLast?.getD [], node.isDir, node.size⟩
        openResult := if node.isDir then .frOk else .frNoPath
        reads := node.entries.map (fun e => (.frOk, ⟨e.1, e.2.isDir, e.2.size⟩)) } := by
  rw [answers, h]

theorem answers_children {card : Card} {path : List UInt8} {node : Node}
    (h : card.find (components path) = some node) :
    (answers card path).children = node.entries.map (fun e => ⟨e.1, e.2.isDir, e.2.size⟩) := by
  have hall : ∀ r ∈ (answers card path).reads, r.1 = .frOk ∧ r.2.fname ≠ [] := by
    intro r hr
    rw [answers_some h] at hr
    obtain ⟨e, he, rfl⟩ := List.mem_map.mp hr
    exact ⟨rfl, (Card.names h e he).fat.1⟩
  rw [DirAnswers.children, List.takeWhile_eq_self_iff.mpr (fun r hr => decide_eq_true (hall r hr)),
    answers_some h, List.map_map]
  rfl

theorem multistatus_hrefs (path : List UInt8) (self : FileInfo) (children : List FileInfo) :
    (hrefTexts (multistatus path self children)).map xmlUnescape =
      slashed path self.isDir ::
        children.map (fun c => slashed (childHref path c.fname) c.isDir) := by
  rw [hrefTexts_multistatus, List.map_cons, List.map_map, xmlUnescape_hrefText]
  congr 1
  apply List.map_congr_left
  intro c _
  exact xmlUnescape_hrefText _ _

theorem lists_eq {card : Card} {target : List UInt8} {hrefs : List (List UInt8)}
    (ht : PlainTarget target) (hroot : components target = [] → target = ascii "/")
    (h : Lists card target hrefs) : hrefs = listing card target := by
  obtain ⟨d, hd, hhrefs⟩ := h
  obtain ⟨hpath, hdepth⟩ := requested_path ht hd
  have hplain : (hrefTexts (ascii "Invalid path")).map xmlUnescape = [] ∧
      (hrefTexts (ascii "Not found")).map xmlUnescape = [] := by decide
  rw [hhrefs]
  unfold listing doPropfind
  generalize cstr d.path pathSize 0 = path at *
  subst hpath
  dsimp only
  by_cases hdots : ascii ".." <:+: path
  · have hmap : mapPath path = none := if_pos hdots
    rw [hmap, if_pos hdots]
    dsimp only
    exact hplain.1
  obtain ⟨sdPath, hmap⟩ : ∃ sdPath, mapPath path = some sdPath := by
    rw [mapPath, if_neg hdots]
    split <;> exact ⟨_, rfl⟩
  rw [hmap, if_neg hdots]
  dsimp only
  by_cases hslash : path = ascii "/"
  · have hnone : components path = [] := by
      rw [hslash]
      decide
    have hfind : card.find (components path) = some (.dir card.root) := by
      rw [hnone]
      rfl
    have hopen : (answers card path).openResult = .frOk := by
      rw [answers_some hfind]
      rfl
    rw [hfind, if_neg (fun hno => hno.1 hslash), if_pos hslash, hopen, hdepth,
      if_pos ⟨⟨rfl, by decide⟩, rfl⟩, answers_children hfind, multistatus_hrefs, List.map_map]
    rfl
  · have hsome : components path ≠ [] := fun hnil => hslash (hroot hnil)
    cases hfind : card.find (components path) with
    | none =>
      have hstat : (answers card path).statResult = .frNoFile := by rw [answers, hfind]
      rw [hstat, if_pos ⟨hslash, by decide⟩]
      dsimp only
      exact hplain.2
    | some node =>
      have hstat : (answers card path).statResult = .frOk := by
        rw [answers_some hfind]
        exact if_neg hsome
      have hinfo : (answers card path).statInfo.isDir = node.isDir := by rw [answers_some hfind]
      rw [hstat, if_neg (fun hno => hno.2 rfl), if_neg hslash, multistatus_hrefs, hinfo, hdepth,
        answers_children hfind]
      cases node with
      | file size =>
        rw [if_neg (fun hno => Bool.false_ne_true hno.1.1)]
        rfl
      | dir entries =>
        have hopen : (answers card path).openResult = .frOk := by
          rw [answers_some hfind]
          rfl
        rw [hopen, if_pos ⟨⟨rfl, by decide⟩, rfl⟩, List.map_map]
        rfl

theorem lists_listing {card : Card} {target : List UInt8} (ht : PlainTarget target)
    (hroot : components target = [] → target = ascii "/") (hlen : target.length < pathSize) :
    Lists card target (listing card target) := by
  obtain ⟨d, hd⟩ := exists_requested ht hlen
  have hlists : Lists card target _ := ⟨d, hd, rfl⟩
  rwa [lists_eq ht hroot hlists] at hlists

theorem find_append (path more : List (List UInt8)) (node : Node) :
    Node.find (path ++ more) node = (Node.find path node).bind (Node.find more) := by
  induction path generalizing node with
  | nil => rfl
  | cons name path ih =>
    rw [List.cons_append, Node.find, Node.find]
    cases node.entries.lookup name with
    | none => rfl
    | some child => exact ih child

theorem find_concat {card : Card} {path : List (List UInt8)} {name : List UInt8} {node : Node}
    (h : card.find (path ++ [name]) = some node) :
    ∃ parent, card.find path = some parent ∧ parent.entries.lookup name = some node := by
  rw [Card.find, find_append] at h
  obtain ⟨parent, hparent, hchild⟩ := Option.bind_eq_some_iff.mp h
  obtain ⟨child, hlookup, hsame⟩ := Option.bind_eq_some_iff.mp hchild
  cases hsame
  exact ⟨parent, hparent, hlookup⟩

theorem lookup_of_mem {entries : List (List UInt8 × Node)} (hnodup : (entries.map Prod.fst).Nodup)
    {name : List UInt8} {node : Node} (h : (name, node) ∈ entries) :
    entries.lookup name = some node := by
  induction entries with
  | nil => cases h
  | cons e entries ih =>
    obtain ⟨other, sub⟩ := e
    rw [List.map_cons, List.nodup_cons] at hnodup
    obtain heq | hrest := List.mem_cons.mp h
    · cases heq
      rw [List.lookup_cons, beq_self_eq_true]
    · have hne : name ≠ other := by
        rintro rfl
        exact hnodup.1 (List.mem_map.mpr ⟨_, hrest, rfl⟩)
      rw [List.lookup_cons, beq_eq_false_iff_ne.mpr hne]
      exact ih hnodup.2 hrest

theorem find_names {card : Card} {path : List (List UInt8)} {node : Node}
    (h : card.find path = some node) : ∀ name ∈ path, PlainName name := by
  induction path using List.reverseRecOn generalizing node with
  | nil => exact fun _ hn => absurd hn List.not_mem_nil
  | append_singleton path name ih =>
    obtain ⟨parent, hparent, hlookup⟩ := find_concat h
    intro n hn
    obtain hn | hn := List.mem_append.mp hn
    · exact ih hparent n hn
    · rw [List.mem_singleton.mp hn]
      exact Card.names hparent _ (mem_of_lookup hlookup)

theorem plainTarget_joined {path : List (List UInt8)} (hne : path ≠ [])
    (h : ∀ name ∈ path, PlainName name) {slash : List UInt8} (hslash : slash = [] ∨ slash = [47]) :
    PlainTarget (joined path ++ slash) := by
  have hmem : ∀ c ∈ joined path ++ slash, c = 47 ∨ ∃ name, PlainName name ∧ c ∈ name := by
    intro c hc
    obtain hc | hc := List.mem_append.mp hc
    · obtain ⟨name, hname, hc⟩ := List.mem_flatMap.mp hc
      obtain heq | hc := List.mem_cons.mp hc
      · exact Or.inl heq
      · exact Or.inr ⟨name, h name hname, hc⟩
    · obtain rfl | rfl := hslash
      · cases hc
      · exact Or.inl (List.mem_singleton.mp hc)
  refine ⟨?_, fun c hc => ?_, fun hc => ?_, fun hc => ?_⟩
  · obtain ⟨name, rest, rfl⟩ := List.exists_cons_of_ne_nil hne
    rfl
  · obtain rfl | ⟨name, hname, hc⟩ := hmem c hc
    · exact ⟨by decide, by decide⟩
    · have hchar := hname.fat.2 c hc
      refine ⟨hchar.1, fun h63 => hchar.2.2 ?_⟩
      rw [h63]
      decide
  · obtain heq | ⟨name, hname, hc⟩ := hmem 32 hc
    · cases heq
    · exact hname.noBlank hc
  · obtain heq | ⟨name, hname, hc⟩ := hmem 37 hc
    · cases heq
    · exact hname.noPercent hc

theorem plainTarget_root : PlainTarget (ascii "/") := by
  refine ⟨by decide, fun c hc => ?_, by decide, by decide⟩
  rw [List.mem_singleton.mp hc]
  exact ⟨by decide, by decide⟩

theorem dots_slash (s : List UInt8) :
    (ascii ".." <:+: 47 :: s ↔ ascii ".." <:+: s) ∧
      (ascii ".." <:+: s ++ [47] ↔ ascii ".." <:+: s) := by
  have hdots : ascii ".." = [46, 46] := by decide
  rw [hdots]
  constructor
  · rw [List.infix_cons_iff, List.cons_prefix_cons]
    exact or_iff_right (fun h => absurd h.1 (by decide))
  · rw [List.infix_concat_iff, List.suffix_concat_iff]
    apply or_iff_right
    rintro (h | ⟨t, ht, -⟩)
    · cases h
    · have hlast := congrArg List.getLast? ht
      rw [List.getLast?_concat] at hlast
      cases hlast

theorem slashed_of_slash {href : List UInt8} (h : href.getLast? = some 47) (isDir : Bool) :
    slashed href isDir = href := by
  rw [slashed, h]
  cases isDir <;> exact List.append_nil _

theorem slashed_of_not {href : List UInt8} (h : href.getLast? ≠ some 47) (isDir : Bool) :
    slashed href isDir = href ++ if isDir then [47] else [] := by
  have hsep : ascii "/" = [47] := by decide
  rw [slashed, hsep]
  cases isDir <;> simp [h]

theorem getLast_name {name : List UInt8} (h : PlainName name) (s : List UInt8) :
    (s ++ name).getLast? ≠ some 47 := by
  rw [List.getLast?_append_of_ne_nil s h.fat.1]
  exact fun h47 => slash_notMem h (List.mem_of_getLast? h47)

theorem slashed_child {path : List (List UInt8)} {name : List UInt8} (hname : PlainName name)
    (isDir : Bool) :
    slashed (joined path ++ 47 :: name) isDir = canonicalHref (path ++ [name]) isDir := by
  have hjoined : joined (path ++ [name]) = joined path ++ 47 :: name := by
    rw [joined, joined, List.flatMap_append]
    simp
  rw [canonicalHref_eq (List.concat_ne_nil _ _), hjoined]
  have hlast := getLast_name hname (joined path ++ [47])
  rw [List.append_assoc, List.singleton_append] at hlast
  exact slashed_of_not hlast isDir

theorem listing_root {card : Card} : listing card (ascii "/") = canonicalHrefs [] (.dir card.root) := by
  have hnone : ¬ ascii ".." <:+: ascii "/" := by decide
  have hfind : card.find (components (ascii "/")) = some (.dir card.root) := by
    have hcomponents : components (ascii "/") = [] := by decide
    rw [hcomponents]
    rfl
  have hroot : slashed (ascii "/") true = ascii "/" := by decide
  unfold listing canonicalHrefs
  rw [if_neg hnone, hfind]
  dsimp only
  congr 1
  apply List.map_congr_left
  intro e he
  have hname := @Card.names card [] _ rfl e he
  rw [childHref, if_pos rfl, List.append_nil]
  exact @slashed_child [] e.1 hname e.2.isDir

theorem shallow_entries {card : Card} (h : Shallow card) {path : List (List UInt8)} {node : Node}
    (hne : path ≠ []) (hfind : card.find path = some node) (hdots : ¬ ascii ".." <:+: joined path) :
    node.entries = [] := by
  obtain ⟨name, rest, rfl⟩ := List.exists_cons_of_ne_nil hne
  have hname : ¬ ascii ".." <:+: name := by
    intro hin
    apply hdots
    rw [joined, List.flatMap_cons]
    exact ((dots_slash name).1.mpr hin).trans (List.prefix_append _ _).isInfix
  have hsplit := hfind
  rw [← List.singleton_append, Card.find, find_append] at hsplit
  obtain ⟨first, hfirst, hrest⟩ := Option.bind_eq_some_iff.mp hsplit
  have hempty : first.entries = [] := by
    cases first with
    | file size => rfl
    | dir sub => exact h name sub hfirst hname
  cases rest with
  | nil =>
    cases hrest
    exact hempty
  | cons second rest =>
    rw [Node.find, hempty] at hrest
    cases hrest

theorem components_canonical {path : List (List UInt8)} (h : ∀ name ∈ path, PlainName name)
    (isDir : Bool) : components (canonicalHref path isDir) = path := by
  by_cases hne : path = []
  · rw [hne]
    cases isDir <;> decide
  · rw [canonicalHref_eq hne]
    apply components_joined h
    cases isDir
    · exact Or.inl rfl
    · exact Or.inr rfl

theorem plainTarget_canonical {path : List (List UInt8)} (h : ∀ name ∈ path, PlainName name)
    (isDir : Bool) : PlainTarget (canonicalHref path isDir) := by
  by_cases hne : path = []
  · rw [hne]
    exact plainTarget_root
  · rw [canonicalHref_eq hne]
    apply plainTarget_joined hne h
    cases isDir
    · exact Or.inl rfl
    · exact Or.inr rfl

/-- What a request for a path of the card comes back with. -/
theorem lists_canonical {card : Card} {path : List (List UInt8)} {node : Node} {isDir : Bool}
    {hrefs : List (List UInt8)} (hfind : card.find path = some node)
    (h : Lists card (canonicalHref path isDir) hrefs) :
    hrefs = listing card (canonicalHref path isDir) := by
  have hnames := find_names hfind
  apply lists_eq (plainTarget_canonical hnames isDir) _ h
  intro hnone
  rw [components_canonical hnames] at hnone
  rw [hnone]
  rfl

theorem listing_canonical {card : Card} {path : List (List UInt8)} {node : Node}
    (hne : path ≠ []) (hfind : card.find path = some node) (isDir : Bool) :
    listing card (canonicalHref path isDir) =
      if ascii ".." <:+: joined path then []
      else slashed (canonicalHref path isDir) node.isDir ::
        node.entries.map (fun e => slashed (childHref (canonicalHref path isDir) e.1) e.2.isDir) := by
  have hdots : ascii ".." <:+: canonicalHref path isDir ↔ ascii ".." <:+: joined path := by
    rw [canonicalHref_eq hne]
    cases isDir with
    | false => rw [if_neg Bool.false_ne_true, List.append_nil]
    | true => exact (dots_slash (joined path)).2
  unfold listing
  rw [components_canonical (find_names hfind), hfind]
  simp only [hdots]

/-- Under a shallow root a walk gets no deeper than the collections in it. -/
theorem walk_shallow {card : Card} (h : Shallow card) {path : List (List UInt8)}
    {target : List UInt8} (hwalk : Walk card path target) :
    target = canonicalHref path true ∧ ∃ sub, card.find path = some (.dir sub) := by
  induction hwalk with
  | start => exact ⟨rfl, card.root, rfl⟩
  | @enter path target name href hrefs node sub k _ hlists hnode hchild hhref ih =>
    obtain ⟨htarget, -⟩ := ih
    rw [htarget] at hlists
    have hhrefs := lists_canonical hnode hlists
    rw [hhrefs] at hhref
    by_cases hne : path = []
    · subst hne
      cases hnode
      have hmem : (name, Node.dir sub) ∈ card.root := List.mem_of_getElem? hchild
      have hlookup := lookup_of_mem (@Card.nodup card [] _ rfl) hmem
      have hroot : canonicalHref [] true = ascii "/" := rfl
      rw [hroot, listing_root, canonicalHrefs, List.getElem?_cons_succ, List.getElem?_map] at hhref
      have hentry : (Node.dir card.root).entries[k]? = some (name, .dir sub) := hchild
      rw [hentry] at hhref
      refine ⟨(Option.some.inj hhref).symm, sub, ?_⟩
      rw [List.nil_append, Card.find, Node.find]
      exact Option.bind_eq_some_iff.mpr ⟨_, hlookup, rfl⟩
    · rw [listing_canonical hne hnode] at hhref
      split at hhref
      · cases hhref
      · rw [shallow_entries h hne hnode ‹_›] at hchild
        cases hchild

theorem walks_of_shallow {card : Card} (h : Shallow card) : WalksCanonically card := by
  intro path target hwalk hrefs hlists node hnode
  obtain ⟨htarget, sub, hsub⟩ := walk_shallow h hwalk
  rw [htarget] at hlists
  rw [lists_canonical hnode hlists]
  rw [hsub] at hnode
  cases hnode
  by_cases hne : path = []
  · subst hne
    cases hsub
    have hroot : canonicalHref [] true = ascii "/" := rfl
    rw [hroot, listing_root]
  · rw [listing_canonical hne hsub]
    split
    · exact List.nil_prefix
    · have hempty : sub = [] := shallow_entries h hne hsub ‹_›
      have hlast : (canonicalHref path true).getLast? = some 47 := by
        rw [canonicalHref_eq hne]
        exact List.getLast?_concat
      rw [hempty, slashed_of_slash hlast]
      exact List.prefix_refl _

theorem slash_of_shallow {card : Card} (h : Shallow card) : SlashNoMatter card := by
  intro path node hne hfind hrefs hrefs' hlists hlists'
  have hnone : ∀ isDir, (listing card (canonicalHref path isDir)).tail = [] := by
    intro isDir
    rw [listing_canonical hne hfind]
    split
    · rfl
    · rw [shallow_entries h hne hfind ‹_›]
      rfl
  rw [lists_canonical hfind hlists, lists_canonical hfind hlists', hnone, hnone]

/-- A collection in the root with an entry in it. -/
structure Deep (card : Card) (name : List UInt8) (e : List UInt8 × Node)
    (sub : List (List UInt8 × Node)) : Prop where
  found : card.find [name] = some (.dir (e :: sub))
  noDots : ¬ ascii ".." <:+: name

theorem deep_of_not_shallow {card : Card} (h : ¬ Shallow card) :
    ∃ name e sub, Deep card name e sub := by
  simp only [Shallow, not_forall] at h
  obtain ⟨name, entries, hfind, hdots, hne⟩ := h
  obtain ⟨e, sub, rfl⟩ := List.exists_cons_of_ne_nil hne
  exact ⟨name, e, sub, hfind, hdots⟩

theorem Deep.name {card : Card} {name : List UInt8} {e : List UInt8 × Node}
    {sub : List (List UInt8 × Node)} (h : Deep card name e sub) : PlainName name :=
  find_names h.found name List.mem_cons_self

theorem canonicalHref_one (name : List UInt8) (isDir : Bool) :
    canonicalHref [name] isDir = 47 :: name ++ if isDir then [47] else [] := by
  rw [canonicalHref_eq (List.cons_ne_nil _ _), joined]
  simp

theorem Deep.lists {card : Card} {name : List UInt8} {e : List UInt8 × Node}
    {sub : List (List UInt8 × Node)} (h : Deep card name e sub) (isDir : Bool) :
    Lists card (canonicalHref [name] isDir)
      (slashed (canonicalHref [name] isDir) true ::
        slashed (canonicalHref [name] isDir ++ 47 :: e.1) e.2.isDir ::
          sub.map (fun e => slashed (childHref (canonicalHref [name] isDir) e.1) e.2.isDir)) := by
  have hnames := find_names h.found
  have hdots : ¬ ascii ".." <:+: joined [name] := by
    rw [joined, List.flatMap_singleton]
    exact mt (dots_slash name).1.mp h.noDots
  have hlen : (canonicalHref [name] isDir).length < pathSize := by
    have hshort := h.name.short
    have hsize : pathSize = 512 := rfl
    rw [canonicalHref_one, List.length_append, List.length_cons]
    cases isDir
    · rw [if_neg Bool.false_ne_true, List.length_nil]
      omega
    · rw [if_pos rfl, List.length_singleton]
      omega
  have hroot : components (canonicalHref [name] isDir) = [] →
      canonicalHref [name] isDir = ascii "/" := by
    intro hnone
    rw [components_canonical hnames] at hnone
    cases hnone
  have hchild : childHref (canonicalHref [name] isDir) e.1 = canonicalHref [name] isDir ++ 47 :: e.1 := by
    have hne : canonicalHref [name] isDir ≠ ascii "/" := by
      intro heq
      have hcomponents := congrArg components heq
      rw [components_canonical hnames] at hcomponents
      revert hcomponents
      have hnil : components (ascii "/") = [] := by decide
      rw [hnil]
      exact List.cons_ne_nil _ _
    rw [childHref, if_neg hne, List.append_assoc]
    rfl
  have hlists := @lists_listing card _ (plainTarget_canonical hnames isDir) hroot hlen
  rw [listing_canonical (List.cons_ne_nil _ _) h.found, if_neg hdots] at hlists
  rw [← hchild]
  exact hlists

/-- The href of a child under `/name/` has a slash more than it should. -/
theorem Deep.doubled {card : Card} {name : List UInt8} {e : List UInt8 × Node}
    {sub : List (List UInt8 × Node)} (h : Deep card name e sub) :
    slashed (canonicalHref [name] true ++ 47 :: e.1) e.2.isDir ≠
      slashed (canonicalHref [name] false ++ 47 :: e.1) e.2.isDir := by
  have hname := Card.names h.found e List.mem_cons_self
  have hlast : ∀ s, (s ++ 47 :: e.1).getLast? ≠ some 47 := by
    intro s
    have hlast := getLast_name hname (s ++ [47])
    rwa [List.append_assoc, List.singleton_append] at hlast
  rw [slashed_of_not (hlast _), slashed_of_not (hlast _), canonicalHref_one, canonicalHref_one]
  intro heq
  have hslash := List.append_cancel_left (List.append_cancel_right (List.append_cancel_right heq))
  cases hslash

theorem Deep.walk {card : Card} {name : List UInt8} {e : List UInt8 × Node}
    {sub : List (List UInt8 × Node)} (h : Deep card name e sub) :
    Walk card [name] (canonicalHref [name] true) := by
  have hlookup : card.root.lookup name = some (.dir (e :: sub)) := by
    obtain ⟨child, hchild, hsame⟩ := Option.bind_eq_some_iff.mp h.found
    cases hsame
    exact hchild
  obtain ⟨k, hk⟩ := List.mem_iff_getElem?.mp (mem_of_lookup hlookup)
  have hentry : (Node.dir card.root).entries[k]? = some (name, .dir (e :: sub)) := hk
  have hcomponents : components (ascii "/") = [] → ascii "/" = ascii "/" := fun _ => rfl
  have hlists := @lists_listing card _ plainTarget_root hcomponents (by decide)
  refine Walk.enter .start hlists rfl hentry ?_
  rw [listing_root, canonicalHrefs, List.getElem?_cons_succ, List.getElem?_map, hentry]
  rfl

theorem shallow_of_walks {card : Card} (h : WalksCanonically card) : Shallow card := by
  by_contra hnot
  obtain ⟨name, e, sub, hdeep⟩ := deep_of_not_shallow hnot
  have hpre := h _ _ hdeep.walk _ (hdeep.lists true) _ hdeep.found
  rw [canonicalHrefs] at hpre
  have hchild := (List.cons_prefix_cons.mp (List.cons_prefix_cons.mp hpre).2).1
  have hname := Card.names hdeep.found e List.mem_cons_self
  have hcanonical := @slashed_child [name] e.1 hname e.2.isDir
  have hjoined : joined [name] = canonicalHref [name] false := by
    rw [canonicalHref_one, joined, List.flatMap_singleton]
    exact (List.append_nil _).symm
  rw [hjoined] at hcanonical
  exact hdeep.doubled (hchild.trans hcanonical.symm)

theorem shallow_of_slash {card : Card} (h : SlashNoMatter card) : Shallow card := by
  by_contra hnot
  obtain ⟨name, e, sub, hdeep⟩ := deep_of_not_shallow hnot
  have htails := h _ _ (List.cons_ne_nil _ _) hdeep.found _ _ (hdeep.lists false) (hdeep.lists true)
  exact hdeep.doubled (List.cons.inj htails).1.symm

/-- The hrefs of a walk are canonical, and the children's hrefs the same with a slash behind the
target or without, just on the cards with nothing in a collection of the root. -/
theorem hrefs_canonical_iff (card : Card) :
    (WalksCanonically card ↔ Shallow card) ∧ (SlashNoMatter card ↔ Shallow card) :=
  ⟨⟨shallow_of_walks, walks_of_shallow⟩, ⟨shallow_of_slash, slash_of_shallow⟩⟩

theorem plainName_letter {c : UInt8} (h : nameChar c) (hblank : c ≠ 32) (hpercent : c ≠ 37) :
    PlainName [c] := by
  refine ⟨⟨List.cons_ne_nil _ _, fun c' hc => ?_⟩, Nat.le_add_left 1 254, fun hc => ?_, fun hc => ?_⟩
  · rw [List.mem_singleton.mp hc]
    exact h
  · exact hblank (List.mem_singleton.mp hc).symm
  · exact hpercent (List.mem_singleton.mp hc).symm

def deepCard : Card where
  root := [(ascii "d", .dir [(ascii "e", .file 0)])]
  wellNamed := by
    have hd : PlainName (ascii "d") := plainName_letter (by decide) (by decide) (by decide)
    have he : PlainName (ascii "e") := plainName_letter (by decide) (by decide) (by decide)
    refine .dir (fun e h => ?_) (List.nodup_cons.mpr ⟨List.not_mem_nil, List.nodup_nil⟩) (fun e h => ?_)
    · rw [List.mem_singleton.mp h]
      exact hd
    · rw [List.mem_singleton.mp h]
      refine .dir (fun e h => ?_) (List.nodup_cons.mpr ⟨List.not_mem_nil, List.nodup_nil⟩) (fun e h => ?_)
      · rw [List.mem_singleton.mp h]
        exact he
      · rw [List.mem_singleton.mp h]
        exact .file 0

/-- A client that goes into `/d/` is told of `/d//e`. -/
theorem hrefs_not_canonical :
    ¬ (∀ card, WalksCanonically card) ∧ ¬ ∀ card, SlashNoMatter card := by
  have hdeep : Deep deepCard (ascii "d") (ascii "e", .file 0) [] := ⟨rfl, by decide⟩
  have hnot : ¬ Shallow deepCard := fun h => List.cons_ne_nil _ _ (h _ _ hdeep.found hdeep.noDots)
  exact ⟨fun h => hnot (shallow_of_walks (h deepCard)), fun h => hnot (shallow_of_slash (h deepCard))⟩

end RapiBootloader.WebDavWalk
