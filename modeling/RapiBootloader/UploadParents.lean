import RapiBootloader.Lib.Directories
import RapiBootloader.TftpServer
import RapiBootloader.WebDavWorker

namespace RapiBootloader.UploadParents

open Lib.Memory Lib.Strings Lib.CLibrary Lib.Directories Card TftpServer
open WebDavText WebDavServer WebDavRequest WebDavPut WebDavUpload WebDavWorker

/-- The paths given to `f_mkdir` up to the first `f_open`. -/
def madeDirs : List CardCall → List (List UInt8)
  | .mkdir path :: calls => path :: madeDirs calls
  | .openWrite _ _ :: _ => []
  | _ :: calls => madeDirs calls
  | [] => []

def cardCalls (calls : List DavCall) : List CardCall :=
  calls.filterMap (fun | .card call => some call | _ => none)

inductive Upload (path : List UInt8) : List CardCall → Prop
  | put (a : PutAnswers) (s : Socket) {d : Dav}
      (h : mapPath (cstr d.path pathSize 0) = some path) :
      Upload path (cardCalls (doPut a s d).calls)
  | tftp (e : Env) {fileName : List UInt8} {server : Server} (hidle : server.mode = .modeNone)
      (h : mapSDPath fileName = some path) :
      Upload path ((fileCreate e fileName server).2.calls.drop server.calls.length)

section
variable (seps : List UInt8)

def names (path : List UInt8) : List (List UInt8) := tokens seps (path.drop 3)

def madeNames (calls : List CardCall) : List (List (List UInt8)) := (madeDirs calls).map (names seps)

/-- `f_mkdir` has been called for all directories above the file, from the root down. -/
def InOrder (path : List UInt8) (calls : List CardCall) : Prop :=
  (ancestors (names seps path)).Sublist (madeNames seps calls)

/-- On no card is a directory above the file missing when the file is opened. -/
def AllExist (path : List UInt8) (calls : List CardCall) : Prop :=
  ∀ (card : DirTree (List UInt8)) (s : card.State), ∀ dir ∈ ancestors (names seps path),
    card.has ((madeNames seps calls).foldl card.mkdir s) dir

structure Parts (path dir run name : List UInt8) : Prop where
  whole : path = dir ++ run ++ name
  ends : ∃ c, dir.getLast? = some c ∧ c ∉ seps
  run_ne : run ≠ []
  run_seps : ∀ c ∈ run, c ∈ seps
  begins : ∃ c, name.head? = some c ∧ c ∉ seps

/-- Behind each directory of the path, one of the separators in front of the next name is a slash
that the buffer of the directory loop has room to reach. -/
def DirsFit (path : List UInt8) : Prop :=
  ∀ dir run name, Parts seps path dir run name → 3 < dir.length →
    ∃ k, run[k]? = some 47 ∧ dir.length + k < dirBytes

end

section
variable {seps : List UInt8}

theorem tokens_ne_nil {s : List UInt8} {c : UInt8} (hmem : c ∈ s) (hc : c ∉ seps) :
    tokens seps s ≠ [] := by
  obtain ⟨skip, tok, rest, -, -, -, -, -, htokens⟩ := tokens_first hmem hc
  rw [htokens]
  exact List.cons_ne_nil tok _

theorem run_before {s : List UInt8} {c : UInt8} (hmem : c ∈ s) (hc : c ∉ seps)
    (hhead : ∀ x, s.head? = some x → x ∈ seps) :
    ∃ run name, s = run ++ name ∧ run ≠ [] ∧ (∀ x ∈ run, x ∈ seps) ∧
      ∃ x, name.head? = some x ∧ x ∉ seps := by
  refine ⟨s.takeWhile (· ∈ seps), s.dropWhile (· ∈ seps),
    List.takeWhile_append_dropWhile.symm, ?_, fun x hx => by simpa using List.mem_takeWhile_imp hx, ?_⟩
  · obtain ⟨x, t, rfl⟩ := List.exists_cons_of_ne_nil (List.ne_nil_of_mem hmem)
    simp [hhead x rfl]
  · have hleft : s.dropWhile (· ∈ seps) ≠ [] := by
      intro hnil
      rw [List.dropWhile_eq_nil_iff] at hnil
      exact hc (of_decide_eq_true (hnil c hmem))
    obtain ⟨x, t, hx⟩ := List.exists_cons_of_ne_nil hleft
    have hfirst : (s.dropWhile (· ∈ seps)).head? = some x := by rw [hx]; rfl
    exact ⟨x, hfirst, of_decide_eq_false (head_dropWhile hfirst)⟩

theorem exists_name {s : List UInt8} (h : tokens seps s ≠ []) : ∃ c ∈ s, c ∉ seps := by
  by_contra hno
  push Not at hno
  exact h (tokens_eq_nil hno)

theorem parts_of_tokens {s : List UInt8} {outer inner : List (List UInt8)}
    (h : tokens seps s = outer ++ inner) (houter : outer ≠ []) (hinner : inner ≠ []) :
    ∃ dir run name, Parts seps s dir run name ∧ tokens seps dir = outer := by
  induction outer generalizing s with
  | nil => exact absurd rfl houter
  | cons t outer ih =>
    obtain ⟨c, hmem, hc⟩ := exists_name (by rw [h]; exact List.cons_ne_nil t _)
    obtain ⟨skip, tok, rest, rfl, hskip, hne, htoken, hrest, htokens⟩ := tokens_first hmem hc
    rw [h, List.cons_append] at htokens
    obtain ⟨rfl, hmore⟩ := List.cons.inj htokens
    by_cases hlast : outer = []
    · subst hlast
      obtain ⟨e, hin, he⟩ := exists_name (by rw [← hmore]; exact hinner)
      obtain ⟨run, name, rfl, hrunNe, hrun, hbegins⟩ := run_before hin he hrest
      refine ⟨skip ++ t, run, name, ⟨?_, ?_, hrunNe, hrun, hbegins⟩, ?_⟩
      · simp only [List.append_assoc]
      · refine ⟨t.getLast hne, ?_, htoken _ (List.getLast_mem hne)⟩
        rw [List.getLast?_append_of_ne_nil _ hne, List.getLast?_eq_some_getLast hne]
      · rw [tokens_skip hskip, tokens_token hne htoken]
    · obtain ⟨dir, run, name, hparts, hdir⟩ := ih hmore.symm hlast
      have hdirNe : dir ≠ [] := by
        rintro rfl
        exact hlast hdir.symm
      obtain ⟨x, dir, rfl⟩ := List.exists_cons_of_ne_nil hdirNe
      have hx : x ∈ seps := hrest x (by rw [hparts.whole]; rfl)
      obtain ⟨e, hlastByte, he⟩ := hparts.ends
      refine ⟨skip ++ t ++ x :: dir, run, name, ⟨?_, ⟨e, ?_, he⟩, hparts.run_ne, hparts.run_seps,
        hparts.begins⟩, ?_⟩
      · rw [hparts.whole]
        simp only [List.append_assoc]
      · rw [List.getLast?_append_of_ne_nil _ hdirNe, hlastByte]
      · rw [List.append_assoc, tokens_skip hskip, tokens_append hne htoken hx, ← hdir,
          tokens_cons_delim hx]

theorem names_parts {path dir run name : List UInt8} (h : Parts seps path dir run name)
    (hlen : 3 < dir.length) : names seps path = names seps dir ++ tokens seps name := by
  rw [names, h.whole, List.append_assoc, List.drop_append_of_le_length (Nat.le_of_lt hlen),
    ← List.append_assoc, tokens_append_run h.run_ne h.run_seps, names]

theorem tokens_ends {s : List UInt8} (h : ∃ c, s.getLast? = some c ∧ c ∉ seps) :
    tokens seps s ≠ [] := by
  obtain ⟨c, hlast, hc⟩ := h
  exact tokens_ne_nil (List.mem_of_getLast? hlast) hc

theorem tokens_begins {s : List UInt8} (h : ∃ c, s.head? = some c ∧ c ∉ seps) :
    tokens seps s ≠ [] := by
  obtain ⟨c, hhead, hc⟩ := h
  exact tokens_ne_nil (List.mem_of_head? hhead) hc

theorem names_slash (hslash : 47 ∈ seps) {path : List UInt8} {i : Nat} (hi : 3 < i)
    (h : path[i]? = some 47) :
    names seps path = names seps (path.take i) ++ tokens seps (path.drop (i + 1)) := by
  obtain ⟨hlt, heq⟩ := List.getElem?_eq_some_iff.mp h
  have hcut : path = path.take i ++ 47 :: path.drop (i + 1) := by
    rw [← heq, ← List.drop_eq_getElem_cons hlt, List.take_append_drop]
  have hlen : 3 ≤ (path.take i).length := by
    rw [List.length_take]
    omega
  have hdrop : path.drop 3 = (path.take i).drop 3 ++ 47 :: path.drop (i + 1) := by
    rw [← List.drop_append_of_le_length hlen, ← hcut]
  rw [names, hdrop, tokens_append_delim hslash, names]

/-- A directory is reached at one of the slashes behind its name. -/
theorem slash_between (hslash : 47 ∈ seps) {path dir run name : List UInt8}
    (h : Parts seps path dir run name) (hlen : 3 < dir.length) {i : Nat} (hi : 3 < i)
    (hat : path[i]? = some 47) (hnames : names seps (path.take i) = names seps dir) :
    ∃ k, run[k]? = some 47 ∧ i = dir.length + k := by
  obtain ⟨c, hlast, hc⟩ := h.ends
  obtain ⟨e, hhead, he⟩ := h.begins
  have hwhole := h.whole
  have hle : dir.length ≤ i := by
    -- a slash inside the directory's path leaves a name behind it
    by_contra hno
    rw [Nat.not_le] at hno
    rw [hwhole, List.append_assoc, List.getElem?_append_left hno] at hat
    rw [hwhole, List.append_assoc, List.take_append_of_le_length (Nat.le_of_lt hno),
      names_slash hslash hi hat] at hnames
    have hnone := List.self_eq_append_right.mp hnames
    have hend : dir.length ≠ i + 1 := by
      intro hend
      rw [List.getLast?_eq_getElem?, hend, Nat.add_sub_cancel, hat] at hlast
      exact hc (Option.some.inj hlast ▸ hslash)
    refine tokens_ends ⟨c, ?_, hc⟩ hnone
    rw [List.getLast?_drop, if_neg (by omega), hlast]
  have hlt : i < dir.length + run.length := by
    -- a slash behind the run has some of the next name in front of it
    by_contra hno
    rw [Nat.not_lt, ← List.length_append] at hno
    obtain ⟨m, rfl⟩ := Nat.exists_eq_add_of_le hno
    rw [hwhole, List.getElem?_append_right hno, Nat.add_sub_cancel_left] at hat
    by_cases hm : m = 0
    · rw [hm, ← List.head?_eq_getElem?, hhead] at hat
      exact he (Option.some.inj hat ▸ hslash)
    · have hparts : Parts seps (path.take ((dir ++ run).length + m)) dir run (name.take m) := by
        refine ⟨?_, h.ends, h.run_ne, h.run_seps, ⟨e, ?_, he⟩⟩
        · rw [hwhole, List.take_length_add_append]
        · rw [List.head?_take, if_neg hm, hhead]
      rw [names_parts hparts hlen] at hnames
      exact tokens_begins hparts.begins (List.append_right_eq_self.mp hnames)
  obtain ⟨k, rfl⟩ := Nat.exists_eq_add_of_le hle
  refine ⟨k, ?_, rfl⟩
  rwa [hwhole, List.append_assoc, List.getElem?_append_right hle, Nat.add_sub_cancel_left,
    List.getElem?_append_left (by omega)] at hat

theorem names_at {path dir run name : List UInt8}
    (h : Parts seps path dir run name) (hlen : 3 < dir.length) {k : Nat} (hk : run[k]? = some 47) :
    path[dir.length + k]? = some 47 ∧ names seps (path.take (dir.length + k)) = names seps dir := by
  obtain ⟨hlt, -⟩ := List.getElem?_eq_some_iff.mp hk
  have hseps : ∀ c ∈ run.take k, c ∈ seps := fun c hc => h.run_seps c (List.mem_of_mem_take hc)
  rw [h.whole, List.append_assoc]
  constructor
  · rwa [List.getElem?_append_right (Nat.le_add_right _ _), Nat.add_sub_cancel_left,
      List.getElem?_append_left hlt]
  · rw [List.take_length_add_append, List.take_append_of_le_length (Nat.le_of_lt hlt), names,
      List.drop_append_of_le_length (Nat.le_of_lt hlen), names]
    by_cases hnil : run.take k = []
    · rw [hnil, List.append_nil]
    · have hrun := tokens_append_run hnil hseps (dir.drop 3) []
      rw [List.append_nil] at hrun
      rw [hrun]
      exact List.append_nil _

def Usable (path : List UInt8) (i : Nat) : Prop := 4 ≤ i ∧ path[i]? = some 47 ∧ i < dirBytes

/-- The loop comes to all directories above the file just if their names end soon enough. -/
theorem ancestors_usable_iff (hslash : 47 ∈ seps) (path : List UInt8) :
    (∀ dir ∈ ancestors (names seps path), ∃ i, Usable path i ∧ names seps (path.take i) = dir) ↔
      DirsFit seps path := by
  constructor
  · intro h dir run name hparts hlen
    have hends : tokens seps (dir.drop 3) ≠ [] := by
      obtain ⟨c, hlast, hc⟩ := hparts.ends
      exact tokens_ends ⟨c, by rw [List.getLast?_drop, if_neg (Nat.not_le.mpr hlen), hlast], hc⟩
    obtain ⟨i, ⟨hi, hat, hfit⟩, hnames⟩ := h (names seps dir)
      (mem_ancestors.mpr ⟨hends, _, tokens_begins hparts.begins, names_parts hparts hlen⟩)
    obtain ⟨k, hk, rfl⟩ := slash_between hslash hparts hlen hi hat hnames
    exact ⟨k, hk, hfit⟩
  · intro h dirNames hmem
    obtain ⟨hne, more, hmore, heq⟩ := mem_ancestors.mp hmem
    obtain ⟨dir, run, name, hparts, hdir⟩ := parts_of_tokens heq hne hmore
    have hdirNe : dir ≠ [] := by
      rintro rfl
      exact hne hdir.symm
    have hthree : (path.take 3).length = 3 := by
      have hlen := congrArg List.length hparts.whole
      have hpos := List.length_pos_iff.mpr hdirNe
      rw [List.length_drop, List.length_append, List.length_append] at hlen
      rw [List.length_take]
      omega
    have hdrop : (path.take 3 ++ dir).drop 3 = dir := List.drop_left' hthree
    have hparts' : Parts seps path (path.take 3 ++ dir) run name := by
      obtain ⟨c, hlast, hc⟩ := hparts.ends
      refine ⟨?_, ⟨c, ?_, hc⟩, hparts.run_ne, hparts.run_seps, hparts.begins⟩
      · rw [List.append_assoc, List.append_assoc, ← List.append_assoc dir, ← hparts.whole,
          List.take_append_drop]
      · rw [List.getLast?_append_of_ne_nil _ hdirNe, hlast]
    have hlen : 3 < (path.take 3 ++ dir).length := by
      have hpos := List.length_pos_iff.mpr hdirNe
      rw [List.length_append]
      omega
    obtain ⟨k, hk, hfit⟩ := h _ run name hparts' hlen
    obtain ⟨hat, hnames⟩ := names_at hparts' hlen hk
    refine ⟨_, ⟨by omega, hat, hfit⟩, ?_⟩
    rw [hnames, names, hdrop, hdir]

/-- What the directory loop hands to `f_mkdir`. -/
theorem madeDirs_loop (path target : List UInt8) (result : FResult) (more : List CardCall) :
    madeDirs (parentDirs path ++ .openWrite target result :: more) =
      (List.range path.length).filterMap (fun i =>
        if 4 ≤ i ∧ path[i]? = some 47 ∧ i < dirBytes then some (path.take i) else none) := by
  rw [parentDirs]
  induction List.range path.length with
  | nil => rfl
  | cons i is ih =>
    by_cases huse : 4 ≤ i ∧ path[i]? = some 47 ∧ i < dirBytes
    · simp only [List.filterMap_cons, if_pos huse, List.cons_append, madeDirs, ih]
    · simp only [List.filterMap_cons, if_neg huse, ih]

theorem cardCalls_opened (a : PutAnswers) (d : Dav) (path : List UInt8) :
    cardCalls (opened a d path).calls = parentDirs path ++ [.openWrite path a.openResult] := by
  have hmap : cardCalls ((parentDirs path).map .card) = parentDirs path := by
    rw [cardCalls, List.filterMap_map]
    exact List.filterMap_some
  rw [cardCalls] at hmap
  rw [opened, cardCalls, List.filterMap_append, hmap]
  rfl

/-- Both kinds of upload run the same loop and then open the file. -/
theorem upload_calls {path : List UInt8} {calls : List CardCall} (h : Upload path calls) :
    ∃ result more, calls = parentDirs path ++ .openWrite path result :: more := by
  cases h with
  | @put a s d h =>
    obtain ⟨more, hcalls, -⟩ := doPut_calls (a := a) s h
    refine ⟨a.openResult, cardCalls more, ?_⟩
    have happend : cardCalls ((opened a d path).calls ++ more) =
        cardCalls (opened a d path).calls ++ cardCalls more := List.filterMap_append
    rw [hcalls, happend, cardCalls_opened, List.append_assoc]
    rfl
  | @tftp e fileName server hidle h =>
    refine ⟨e.card.openResult, [], ?_⟩
    have hname : fileName ≠ injectFileName := by
      rintro rfl
      have hnone : mapSDPath injectFileName = none := by decide
      rw [hnone] at h
      cases h
    have hcreate : (fileCreate e fileName server).2.calls =
        server.calls ++ (parentDirs path ++ [.openWrite path e.card.openResult]) := by
      rw [fileCreate, if_neg (not_not.mpr hidle), if_neg hname, h]
      dsimp only
      rw [createSD]
      split
      · exact List.append_assoc ..
      · exact List.append_assoc ..
    rw [hcreate, List.drop_left]

theorem mem_madeNames {path : List UInt8} {calls : List CardCall} (h : Upload path calls)
    {dirNames : List (List UInt8)} :
    dirNames ∈ madeNames seps calls ↔
      ∃ i, Usable path i ∧ names seps (path.take i) = dirNames := by
  obtain ⟨result, more, rfl⟩ := upload_calls h
  rw [madeNames, madeDirs_loop, List.mem_map]
  constructor
  · rintro ⟨dir, hdir, rfl⟩
    obtain ⟨i, -, hi⟩ := List.mem_filterMap.mp hdir
    split at hi
    · rename_i huse
      cases hi
      exact ⟨i, huse, rfl⟩
    · cases hi
  · rintro ⟨i, huse, rfl⟩
    obtain ⟨hlt, -⟩ := List.getElem?_eq_some_iff.mp huse.2.1
    exact ⟨path.take i, List.mem_filterMap.mpr ⟨i, List.mem_range.mpr hlt, if_pos huse⟩, rfl⟩

theorem madeNames_down (hslash : 47 ∈ seps) {path : List UInt8} {calls : List CardCall}
    (h : Upload path calls) : (madeNames seps calls).Pairwise (· <+: ·) := by
  obtain ⟨result, more, rfl⟩ := upload_calls h
  rw [madeNames, madeDirs_loop, List.pairwise_map, List.pairwise_filterMap]
  apply List.pairwise_lt_range.imp
  intro i j hij dir hdir dir' hdir'
  split at hdir
  · rename_i huse
    cases hdir
    split at hdir'
    · cases hdir'
      have hat : (path.take j)[i]? = some 47 := by
        rw [List.getElem?_take, if_pos hij]
        exact huse.2.1
      rw [names_slash hslash huse.1 hat, List.take_take, Nat.min_eq_left (Nat.le_of_lt hij)]
      exact List.prefix_append _ _
    · cases hdir'
  · cases hdir

theorem mem_madeNames_iff (hslash : 47 ∈ seps) {path : List UInt8} {calls : List CardCall}
    (h : Upload path calls) :
    (∀ dir ∈ ancestors (names seps path), dir ∈ madeNames seps calls) ↔ DirsFit seps path := by
  simp only [← ancestors_usable_iff hslash path, mem_madeNames h]

theorem inOrder_iff (hslash : 47 ∈ seps) {path : List UInt8} {calls : List CardCall}
    (h : Upload path calls) : InOrder seps path calls ↔ DirsFit seps path := by
  rw [← mem_madeNames_iff hslash h]
  exact ⟨fun hsub _ hdir => hsub.subset hdir, ancestors_sublist (madeNames_down hslash h)⟩

theorem allExist_iff (hslash : 47 ∈ seps) {path : List UInt8} {calls : List CardCall}
    (h : Upload path calls) : AllExist seps path calls ↔ DirsFit seps path := by
  rw [← mem_madeNames_iff hslash h, AllExist]
  exact ancestors_exist_iff (madeNames_down hslash h)

theorem dirsFit_of_short {path : List UInt8} (hlen : path.length ≤ dirBytes)
    (h : ∀ c ∈ path, c ∈ seps → c = 47) : DirsFit seps path := by
  intro dir run name hparts _
  obtain ⟨c, run, rfl⟩ := List.exists_cons_of_ne_nil hparts.run_ne
  have hmem : c ∈ path := by
    rw [hparts.whole]
    simp
  have hwhole := congrArg List.length hparts.whole
  rw [List.length_append, List.length_append, List.length_cons] at hwhole
  exact ⟨0, congrArg some (h c hmem (hparts.run_seps c List.mem_cons_self)), by omega⟩

/-- An upload makes all directories above its file, in order, and finds them there, just if their
names end soon enough. -/
theorem parents_made_iff (hslash : 47 ∈ seps) {path : List UInt8} {calls : List CardCall}
    (h : Upload path calls) :
    (InOrder seps path calls ↔ DirsFit seps path) ∧
      (AllExist seps path calls ↔ DirsFit seps path) :=
  ⟨inOrder_iff hslash h, allExist_iff hslash h⟩

end

def putting (target : List UInt8) : Dav :=
  { blankWorker with path := write (fun _ => 0) 0 (target ++ [0]) }

def putCalls (target : List UInt8) : List CardCall :=
  cardCalls (doPut (roomyCard .frOk) (atOnce []) (putting target)).calls

theorem parents_made_iff_shallow :
    InOrder (ascii "/\\") (ascii "SD:/d/a") (putCalls (ascii "/d/a")) ∧
      AllExist (ascii "/\\") (ascii "SD:/d/a") (putCalls (ascii "/d/a")) := by
  have hput : Upload (ascii "SD:/d/a") (putCalls (ascii "/d/a")) :=
    Upload.put _ _ (by decide +kernel)
  have hmade := @parents_made_iff (ascii "/\\") (by decide) _ _ hput
  have hfit : DirsFit (ascii "/\\") (ascii "SD:/d/a") :=
    dirsFit_of_short (by decide) (by decide +kernel)
  exact ⟨hmade.1.mpr hfit, hmade.2.mpr hfit⟩

def deepTarget : List UInt8 := 47 :: List.replicate 255 97 ++ ascii "/bbb/c"

theorem mapPath_deep :
    mapPath (cstr (putting deepTarget).path pathSize 0) = some (ascii "SD:" ++ deepTarget) := by
  have hstring : StringAt (write (fun _ => 0) 0 (deepTarget ++ [0])) pathSize 0 deepTarget :=
    stringAt_write _ (by decide +kernel) (by decide +kernel)
  rw [putting]
  dsimp only
  rw [hstring.cstr_eq]
  decide +kernel

theorem not_dirsFit_deep : ¬ DirsFit (ascii "/\\") (ascii "SD:" ++ deepTarget) := by
  intro h
  have hparts : Parts (ascii "/\\") (ascii "SD:" ++ deepTarget)
      (ascii "SD:/" ++ List.replicate 255 97 ++ ascii "/bbb") (ascii "/") (ascii "c") := by
    have hhead : ascii "SD:/" = ascii "SD:" ++ [47] := by decide
    have htail : ascii "/bbb/c" = ascii "/bbb" ++ (ascii "/" ++ ascii "c") := by decide
    have hslash : 47 ∈ ascii "/\\" := by decide
    refine ⟨?_, ⟨98, ?_, by decide⟩, by decide, fun c hc => ?_, ⟨99, rfl, by decide⟩⟩
    · rw [deepTarget, hhead, htail]
      simp only [List.append_assoc, List.cons_append, List.nil_append]
    · exact List.getLast?_append_of_ne_nil _ (by decide)
    · exact List.mem_singleton.mp hc ▸ hslash
  have hlen : (ascii "SD:/" ++ List.replicate 255 97 ++ ascii "/bbb").length = dirBytes := by
    rw [List.length_append, List.length_append, List.length_replicate]
    rfl
  obtain ⟨k, hk, hfit⟩ := h _ _ _ hparts (by rw [hlen]; decide)
  rw [hlen] at hfit
  omega

/-- The inner of the two directories is passed over. -/
theorem parents_not_made :
    Upload (ascii "SD:" ++ deepTarget) (putCalls deepTarget) ∧
      ¬ InOrder (ascii "/\\") (ascii "SD:" ++ deepTarget) (putCalls deepTarget) ∧
      ¬ AllExist (ascii "/\\") (ascii "SD:" ++ deepTarget) (putCalls deepTarget) := by
  have hput : Upload (ascii "SD:" ++ deepTarget) (putCalls deepTarget) :=
    Upload.put _ _ mapPath_deep
  have hslash : 47 ∈ ascii "/\\" := by decide
  refine ⟨hput, ?_, ?_⟩
  · rw [inOrder_iff hslash hput]
    exact not_dirsFit_deep
  · rw [allExist_iff hslash hput]
    exact not_dirsFit_deep

end RapiBootloader.UploadParents
