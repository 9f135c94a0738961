import RapiBootloader.Lib.Strings
import RapiBootloader.Lib.Text
import RapiBootloader.Card

namespace RapiBootloader.BootMenu

open Lib.Strings Lib.Text Card

def maxConfigBytes : Nat := 64 * 1024

def maxEntries : Nat := 64
def maxLabel : Nat := 96
def maxString : Nat := 1024

def isSpace (c : UInt8) : Bool := c = 32 || c = 9 || c = 13 || c = 10

/-- A row of the two tables, without the NULs behind its texts. -/
structure Entry where
  label : List UInt8
  string : List UInt8
  labelFits : label.length < maxLabel
  stringFits : string.length < maxString

structure Menu where
  entries : List Entry
  room : entries.length ≤ maxEntries

def Menu.empty : Menu := ⟨[], Nat.zero_le _⟩

/-- What a line has in front of and behind its first `|`, trimmed at the ends of the
line. Blank lines, comments and lines without one have nothing. -/
def fields (line : List UInt8) : Option (List UInt8 × List UInt8) :=
  let line := trim isSpace line
  if line = [] ∨ line.head? = some 35 then none
  else
    let pipe := (line.takeWhile (· != 124)).length
    if pipe = line.length then none else some (line.take pipe, line.drop (pipe + 1))

/-- The copies into the tables, which cut what is too long. -/
def entryOf (label string : List UInt8) : Entry where
  label := (label.rdropWhile isSpace).take (maxLabel - 1)
  string := (string.dropWhile isSpace).take (maxString - 1)
  labelFits := Nat.lt_succ_of_le (List.length_take_le _ _)
  stringFits := Nat.lt_succ_of_le (List.length_take_le _ _)

def parseLine (m : Menu) (line : List UInt8) : Menu :=
  match fields line with
  | none => m
  | some (label, string) =>
    if h : m.entries.length < maxEntries then
      ⟨m.entries ++ [entryOf label string], by rw [List.length_append]; exact h⟩
    else m

structure LoadAnswers where
  openResult : FResult
  allocated : Bool
  readResult : FResult

/-- Of a longer file the first 64 KiB are read. -/
def load (file : List UInt8) (a : LoadAnswers) : Bool × Menu :=
  if a.openResult ≠ .frOk then (false, Menu.empty)
  else if !a.allocated then (false, Menu.empty)
  else if a.readResult ≠ .frOk then (false, Menu.empty)
  else (true, ((file.take maxConfigBytes).splitOn 10).foldl parseLine Menu.empty)

def fineLoad : LoadAnswers := ⟨.frOk, true, .frOk⟩

theorem load_fine (file : List UInt8) :
    (load file fineLoad).2 = ((file.take maxConfigBytes).splitOn 10).foldl parseLine Menu.empty :=
  rfl

def getCount (m : Menu) : Nat := m.entries.length

def getLabel (m : Menu) (index : Nat) : Option CString :=
  (m.entries[index]?).map (fun e => ofBytes e.label)

def getString (m : Menu) (index : Nat) : Option CString :=
  (m.entries[index]?).map (fun e => ofBytes e.string)

def entryText (line : List UInt8) : Option (List UInt8) :=
  (fields line).map (fun f => f.2.dropWhile isSpace)

def texts (file : List UInt8) : List (List UInt8) := (file.splitOn 10).filterMap entryText

theorem fields_without_pipe (line : List UInt8) (h : 124 ∉ line) : fields line = none := by
  have hall : ∀ c ∈ trim isSpace line, (c != 124) = true := by
    intro c hc
    have hne : c ≠ 124 := fun he => h (he ▸ trim_subset isSpace line hc)
    simpa using hne
  rw [fields]
  dsimp only
  split
  · rfl
  · rw [if_pos (by rw [List.takeWhile_eq_self_iff.mpr hall])]

theorem fields_append_pipe (pre post : List UInt8) (h : 124 ∉ pre) :
    fields (pre ++ 124 :: post) =
      if (pre.dropWhile isSpace).head? = some 35 then none
      else some (pre.dropWhile isSpace, post.rdropWhile isSpace) := by
  have hpre : 124 ∉ pre.dropWhile isSpace := fun hm => h (List.dropWhile_subset _ hm)
  have hhead : (pre.dropWhile isSpace ++ 124 :: post.rdropWhile isSpace).head? = some 35 ↔
      (pre.dropWhile isSpace).head? = some 35 := by
    cases pre.dropWhile isSpace <;> simp
  have htake : ((pre.dropWhile isSpace ++ 124 :: post.rdropWhile isSpace).takeWhile
      (· != 124)) = pre.dropWhile isSpace := by
    rw [List.takeWhile_append_of_pos]
    · simp
    · intro c hc
      have hne : c ≠ 124 := fun he => hpre (he ▸ hc)
      simpa using hne
  rw [fields, trim_append_cons isSpace pre 124 post (by decide), htake]
  by_cases hc : (pre.dropWhile isSpace).head? = some 35
  · rw [if_pos (Or.inr (hhead.mpr hc)), if_pos hc]
  · have hline : ¬ (pre.dropWhile isSpace ++ 124 :: post.rdropWhile isSpace = [] ∨
        (pre.dropWhile isSpace ++ 124 :: post.rdropWhile isSpace).head? = some 35) := by
      rw [hhead]
      simp [hc]
    rw [if_neg hline, if_neg hc, if_neg (by simp), List.take_left, List.drop_append]
    simp

theorem entryText_append_pipe (pre post : List UInt8) (h : 124 ∉ pre)
    (hc : (pre.dropWhile isSpace).head? ≠ some 35) :
    entryText (pre ++ 124 :: post) = some (trim isSpace post) := by
  rw [entryText, fields_append_pipe pre post h, if_neg hc, Option.map_some, dropWhile_rdropWhile]

theorem entryText_some {line cut : List UInt8} (h : entryText line = some cut) :
    ∃ pre post, line = pre ++ 124 :: post ∧ 124 ∉ pre ∧
      (pre.dropWhile isSpace).head? ≠ some 35 ∧ cut = trim isSpace post := by
  have hpipe : 124 ∈ line := by
    by_contra hn
    rw [entryText, fields_without_pipe line hn] at h
    cases h
  obtain ⟨pre, post, rfl, hpre⟩ := List.eq_append_cons_of_mem hpipe
  have hc : (pre.dropWhile isSpace).head? ≠ some 35 := by
    intro hc
    rw [entryText, fields_append_pipe pre post hpre, if_pos hc] at h
    cases h
  rw [entryText_append_pipe pre post hpre hc, Option.some.injEq] at h
  exact ⟨pre, post, rfl, hpre, hc, h.symm⟩

theorem entryText_append {line cut : List UInt8} (more : List UInt8)
    (h : entryText line = some cut) :
    ∃ full, entryText (line ++ more) = some full ∧ cut <+: full := by
  obtain ⟨pre, post, rfl, hpre, hc, rfl⟩ := entryText_some h
  refine ⟨trim isSpace (post ++ more), ?_, trim_prefix isSpace post more⟩
  rw [List.append_assoc, List.cons_append]
  exact entryText_append_pipe pre (post ++ more) hpre hc

theorem texts_subset {file text : List UInt8} (h : text ∈ texts file) : text ⊆ file := by
  obtain ⟨line, hline, ht⟩ := List.mem_filterMap.mp h
  obtain ⟨pre, post, rfl, -, -, rfl⟩ := entryText_some ht
  intro c hc
  apply splitOn_subset 10 file _ hline
  exact List.mem_append_right pre (List.mem_cons_of_mem _ (trim_subset isSpace post hc))

/-- The entries of the first part of a file are entries of the file, with texts that
may go on. -/
theorem texts_append {file cut : List UInt8} (rest : List UInt8) {k : Nat}
    (h : (texts file)[k]? = some cut) :
    ∃ full, (texts (file ++ rest))[k]? = some full ∧ cut <+: full := by
  obtain ⟨init, x, y, tail, hx, -, hxy⟩ := splitOn_append 10 file rest
  rw [texts, hx, List.filterMap_append] at h
  rw [texts, hxy, List.filterMap_append]
  by_cases hk : k < (init.filterMap entryText).length
  · rw [List.getElem?_append_left hk] at h ⊢
    exact ⟨cut, h, List.prefix_refl cut⟩
  · have hle := Nat.not_lt.mp hk
    rw [List.getElem?_append_right hle] at h ⊢
    cases ht : entryText x with
    | none => simp [ht] at h
    | some t =>
      rw [List.filterMap_cons_some ht, List.filterMap_nil] at h
      obtain ⟨hz, hcut⟩ := List.getElem?_eq_some_iff.mp h
      have hzero : k - (init.filterMap entryText).length = 0 := Nat.lt_one_iff.mp hz
      obtain ⟨full, hf, hp⟩ := entryText_append y ht
      rw [List.filterMap_cons_some hf, hzero]
      rw [List.getElem_singleton] at hcut
      exact ⟨full, rfl, hcut ▸ hp⟩

theorem take_take_append {α : Type} (n : Nat) (xs ys : List α) :
    (xs.take n ++ ys).take n = (xs ++ ys).take n := by
  rw [List.take_append, List.take_append, List.take_take, List.length_take, Nat.min_self]
  congr 2
  omega

def lineEntry (line : List UInt8) : Option Entry := (fields line).map (fun f => entryOf f.1 f.2)

theorem parseLine_entries (m : Menu) (line : List UInt8) :
    (parseLine m line).entries = (m.entries ++ (lineEntry line).toList).take maxEntries := by
  have hroom := m.room
  rw [parseLine, lineEntry]
  cases fields line with
  | none =>
    rw [Option.map_none, Option.toList_none, List.append_nil, List.take_of_length_le hroom]
  | some f =>
    dsimp only
    split
    · rename_i h
      have hlen : (m.entries ++ [entryOf f.1 f.2]).length ≤ maxEntries := by
        rw [List.length_append]
        exact h
      rw [Option.map_some, Option.toList_some, List.take_of_length_le hlen]
    · rename_i h
      have hfull : m.entries.length = maxEntries := Nat.le_antisymm hroom (Nat.not_lt.mp h)
      rw [List.take_append_of_le_length hfull.ge, List.take_of_length_le hfull.le]

theorem foldl_parseLine_entries (lines : List (List UInt8)) :
    (lines.foldl parseLine Menu.empty).entries = (lines.filterMap lineEntry).take maxEntries := by
  induction lines using List.reverseRecOn with
  | nil => rfl
  | append_singleton lines line ih =>
    rw [List.foldl_concat, parseLine_entries, ih, take_take_append, List.filterMap_append,
      List.filterMap_cons, List.filterMap_nil]
    cases lineEntry line <;> rfl

theorem lineEntry_string (line : List UInt8) :
    (lineEntry line).map Entry.string = (entryText line).map (fun t => t.take (maxString - 1)) := by
  rw [lineEntry, entryText, Option.map_map, Option.map_map]
  rfl

theorem foldl_parseLine (lines : List (List UInt8)) :
    (lines.foldl parseLine Menu.empty).entries.map Entry.string =
      ((lines.filterMap entryText).map (fun t => t.take (maxString - 1))).take maxEntries := by
  rw [foldl_parseLine_entries, List.map_take, List.map_filterMap, List.map_filterMap]
  simp only [lineEntry_string]

theorem getString_load {file : List UInt8} {a : LoadAnswers} {index : Nat} {string : CString}
    (h : getString (load file a).2 index = some string) :
    ∃ cut, (texts (file.take maxConfigBytes))[index]? = some cut ∧
      string = ofBytes (cut.take (maxString - 1)) := by
  obtain ⟨e, he, rfl⟩ := Option.map_eq_some_iff.mp h
  have hload : (load file a).2 =
      ((file.take maxConfigBytes).splitOn 10).foldl parseLine Menu.empty := by
    simp only [load] at he ⊢
    split at he
    · cases he
    · split at he
      · cases he
      · split at he
        · cases he
        · rename_i ho ha hr
          rw [if_neg ho, if_neg ha, if_neg hr]
  have hstr : ((load file a).2.entries.map Entry.string)[index]? = some e.string := by
    rw [List.getElem?_map, he, Option.map_some]
  rw [hload, foldl_parseLine] at hstr
  have hlt : index < maxEntries := by
    by_contra hge
    rw [List.getElem?_take_eq_none (Nat.not_lt.mp hge)] at hstr
    cases hstr
  rw [List.getElem?_take_of_lt hlt, List.getElem?_map] at hstr
  obtain ⟨cut, hcut, hs⟩ := Option.map_eq_some_iff.mp hstr
  exact ⟨cut, hcut, by rw [← hs]⟩

end RapiBootloader.BootMenu
