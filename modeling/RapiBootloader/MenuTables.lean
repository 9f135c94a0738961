import RapiBootloader.BootMenu
import RapiBootloader.Lib.CLibrary
import RapiBootloader.Lib.Pointers
import RapiBootloader.Lib.Scan

namespace RapiBootloader.MenuTables

open Lib.Memory Lib.Strings Lib.Text Lib.CLibrary Lib.Pointers Lib.Scan Card
open BootMenu hiding parseLine load

/-- The count of a `CBootMenu` and its two arrays, row behind row. -/
structure Tables where
  count : Nat
  label : Mem UInt8
  string : Mem UInt8

def parseLine (m : Mem UInt8) (pLine nLen : Nat) (t : Tables) : Tables :=
  let (pLine, nLen) := skip BootMenu.isSpace m pLine nLen
  let nLen := cut BootMenu.isSpace m pLine nLen
  if nLen = 0 ∨ m pLine = 35 then t
  else
    let nPipe := seek (· == 124) m pLine nLen
    if nPipe = nLen then t
    else if maxEntries ≤ t.count then t
    else
      let nLabelLen := cut BootMenu.isSpace m pLine nPipe
      let nLabelLen := if maxLabel ≤ nLabelLen then maxLabel - 1 else nLabelLen
      let (pStr, nStrLen) := skip BootMenu.isSpace m (pLine + nPipe + 1) (nLen - nPipe - 1)
      let nStrLen := if maxString ≤ nStrLen then maxString - 1 else nStrLen
      { count := t.count + 1
        label := write t.label (t.count * maxLabel) (read m pLine nLabelLen ++ [0])
        string := write t.string (t.count * maxString) (read m pStr nStrLen ++ [0]) }

/-- The loop of `Load` over the buffer from `i` on, with a bound on its turns. -/
def walkLines (m : Mem UInt8) (nRead : Nat) : Nat → Nat → Nat → Tables → Tables
  | 0, _, _, t => t
  | turns + 1, i, nStart, t =>
    if i ≤ nRead then
      if i = nRead ∨ m i = 10 then
        walkLines m nRead turns (i + 1) (i + 1) (parseLine m nStart (i - nStart) t)
      else walkLines m nRead turns (i + 1) nStart t
    else t

/-- `heap` is what the fresh buffer holds. -/
def load (file : List UInt8) (a : LoadAnswers) (heap : Mem UInt8) (t : Tables) : Bool × Tables :=
  let t := { t with count := 0 }
  if a.openResult ≠ .frOk then (false, t)
  else
    let nSize := if file.length > maxConfigBytes then maxConfigBytes else file.length
    if !a.allocated then (false, t)
    else if a.readResult ≠ .frOk then (false, t)
    else
      let buffer := write heap 0 (file.take nSize ++ [0])
      (true, walkLines buffer nSize (nSize + 1) 0 0 t)

structure Shows (t : Tables) (entries : List Entry) : Prop where
  count : t.count = entries.length
  rows : ∀ i (h : i < entries.length),
    Holds t.label (i * maxLabel) (entries[i].label ++ [0]) ∧
      Holds t.string (i * maxString) (entries[i].string ++ [0])

theorem read_limit (m : Mem UInt8) (p n max : Nat) (hmax : 0 < max) :
    read m p (if max ≤ n then max - 1 else n) = (read m p n).take (max - 1) := by
  rw [take_read]
  congr 1
  split <;> omega

theorem parseLine_eq (m : Mem UInt8) (pLine nLen : Nat) (t : Tables) :
    parseLine m pLine nLen t =
      match fields (read m pLine nLen) with
      | none => t
      | some (label, string) =>
        if maxEntries ≤ t.count then t
        else
          { count := t.count + 1
            label := write t.label (t.count * maxLabel) ((entryOf label string).label ++ [0])
            string := write t.string (t.count * maxString) ((entryOf label string).string ++ [0]) } := by
  have htrim : trim BootMenu.isSpace (read m pLine nLen) =
      read m (skip BootMenu.isSpace m pLine nLen).1
        (cut BootMenu.isSpace m (skip BootMenu.isSpace m pLine nLen).1
          (skip BootMenu.isSpace m pLine nLen).2) := by
    rw [read_cut, read_skip, trim]
  unfold parseLine fields
  rw [htrim]
  generalize skip BootMenu.isSpace m pLine nLen = range
  obtain ⟨p, n⟩ := range
  dsimp only
  generalize cut BootMenu.isSpace m p n = n
  have hblank : (read m p n = [] ∨ (read m p n).head? = some 35) ↔ n = 0 ∨ m p = 35 := by
    cases n with
    | zero => simp [Lib.Memory.read]
    | succ n => simp [read_succ]
  have hpipe : ((read m p n).takeWhile (· != 124)).length = seek (· == 124) m p n :=
    (seek_eq p n).symm
  rw [hpipe, length_read, take_read, drop_read]
  by_cases hskip : n = 0 ∨ m p = 35
  · rw [if_pos hskip, if_pos (hblank.mpr hskip)]
  · rw [if_neg hskip, if_neg (fun h => hskip (hblank.mp h))]
    have hle : seek (· == 124) m p n ≤ n := by
      rw [seek_eq]
      have hlen := (List.takeWhile_prefix (l := read m p n) (fun c => !(c == 124))).length_le
      rwa [length_read] at hlen
    by_cases hend : seek (· == 124) m p n = n
    · rw [if_pos hend, if_pos hend]
    · rw [if_neg hend, if_neg hend]
      dsimp only
      split
      · rfl
      · rw [Nat.min_eq_left hle, read_limit _ _ _ _ (by decide), read_limit _ _ _ _ (by decide),
          read_skip, read_cut, Nat.add_assoc, ← Nat.sub_sub]
        rfl

theorem Shows.append {t : Tables} {entries : List Entry} (h : Shows t entries) (e : Entry) :
    Shows { count := t.count + 1
            label := write t.label (t.count * maxLabel) (e.label ++ [0])
            string := write t.string (t.count * maxString) (e.string ++ [0]) } (entries ++ [e]) := by
  constructor
  · rw [List.length_append]
    exact congrArg (· + 1) h.count
  · intro i hi
    dsimp only
    by_cases hold : i < entries.length
    · obtain ⟨hlabel, hstring⟩ := h.rows i hold
      have hrow : i + 1 ≤ t.count := h.count ▸ hold
      have hlabels := Nat.mul_le_mul_right maxLabel hrow
      have hstrings := Nat.mul_le_mul_right maxString hrow
      have hfits := entries[i].labelFits
      have hfits' := entries[i].stringFits
      rw [Nat.succ_mul] at hlabels hstrings
      rw [List.getElem_append_left hold]
      constructor
      · apply hlabel.write_outside
        rw [List.length_append, List.length_singleton]
        omega
      · apply hstring.write_outside
        rw [List.length_append, List.length_singleton]
        omega
    · have hlast : i = entries.length := by
        rw [List.length_append, List.length_singleton] at hi
        omega
      subst hlast
      rw [List.getElem_concat_length rfl, h.count]
      exact ⟨holds_write _ _ _, holds_write _ _ _⟩

theorem shows_parseLine {t : Tables} {menu : Menu} (h : Shows t menu.entries) (m : Mem UInt8)
    (pLine nLen : Nat) :
    Shows (parseLine m pLine nLen t) (BootMenu.parseLine menu (read m pLine nLen)).entries := by
  rw [parseLine_eq, BootMenu.parseLine]
  cases fields (read m pLine nLen) with
  | none => exact h
  | some f =>
    obtain ⟨label, string⟩ := f
    dsimp only
    by_cases hroom : menu.entries.length < maxEntries
    · rw [dif_pos hroom, if_neg (Nat.not_le.mpr (h.count ▸ hroom))]
      exact h.append (entryOf label string)
    · rw [dif_neg hroom, if_pos (Nat.not_lt.mp (h.count ▸ hroom))]
      exact h

/-- The loop takes the lines of what lies ahead. The one it is in has begun at `nStart`. -/
theorem shows_walkLines (m : Mem UInt8) (nRead turns : Nat) {i nStart : Nat} {t : Tables}
    {menu : Menu}
    (h : Shows t menu.entries) (hstart : nStart ≤ i) (hi : i ≤ nRead) (hturns : nRead < i + turns)
    (hline : 10 ∉ read m nStart (i - nStart)) :
    Shows (walkLines m nRead turns i nStart t)
      (((read m nStart (nRead - nStart)).splitOn 10).foldl BootMenu.parseLine menu).entries := by
  induction turns generalizing i nStart t menu with
  | zero => omega
  | succ turns ih =>
    have hnext := shows_parseLine h m nStart (i - nStart)
    rw [walkLines, if_pos hi]
    by_cases hend : i = nRead
    · subst hend
      rw [if_pos (Or.inl rfl), List.splitOn_eq_singleton hline, List.foldl_cons, List.foldl_nil]
      cases turns with
      | zero => exact hnext
      | succ turns =>
        rw [walkLines, if_neg (Nat.not_le.mpr (Nat.lt_succ_self _))]
        exact hnext
    · have hsplit : read m nStart (nRead - nStart) =
          read m nStart (i - nStart) ++ m i :: read m (i + 1) (nRead - (i + 1)) := by
        have hlen : nRead - nStart = (i - nStart) + ((nRead - (i + 1)) + 1) := by omega
        have hat : nStart + (i - nStart) = i := by omega
        rw [hlen, read_add, hat, read_succ]
      by_cases hbreak : m i = 10
      · rw [if_pos (Or.inr hbreak), hsplit, hbreak,
          List.splitOn_append_cons_self_of_not_mem hline, List.foldl_cons]
        apply ih hnext (Nat.le_refl _) (by omega) (by omega)
        rw [Nat.sub_self]
        exact List.not_mem_nil
      · rw [if_neg (fun hno => hno.elim hend hbreak)]
        apply ih h (by omega) (by omega) (by omega)
        rw [Nat.succ_sub hstart, read_concat]
        have hat : nStart + (i - nStart) = i := by omega
        rw [hat, List.mem_append, List.mem_singleton]
        exact fun hno => hno.elim hline (fun h10 => hbreak h10.symm)

theorem shows_load (file : List UInt8) (a : LoadAnswers) (heap : Mem UInt8) (t : Tables) :
    (load file a heap t).1 = (BootMenu.load file a).1 ∧
      Shows (load file a heap t).2 (BootMenu.load file a).2.entries := by
  have hempty : Shows { t with count := 0 } Menu.empty.entries :=
    ⟨rfl, fun i hi => absurd hi (Nat.not_lt_zero i)⟩
  unfold load BootMenu.load
  dsimp only
  by_cases hopen : a.openResult ≠ .frOk
  · rw [if_pos hopen, if_pos hopen]
    exact ⟨rfl, hempty⟩
  rw [if_neg hopen, if_neg hopen]
  cases a.allocated with
  | false => exact ⟨rfl, hempty⟩
  | true =>
    by_cases hread : a.readResult ≠ .frOk
    · rw [Bool.not_true, if_neg Bool.false_ne_true, if_neg Bool.false_ne_true, if_pos hread,
        if_pos hread]
      exact ⟨rfl, hempty⟩
    · rw [Bool.not_true, if_neg Bool.false_ne_true, if_neg Bool.false_ne_true, if_neg hread,
        if_neg hread]
      refine ⟨rfl, ?_⟩
      dsimp only
      have hsize : (if file.length > maxConfigBytes then maxConfigBytes else file.length) =
          (file.take maxConfigBytes).length := by
        rw [List.length_take]
        split <;> omega
      have htake : file.take (file.take maxConfigBytes).length = file.take maxConfigBytes := by
        rw [List.length_take, ← List.take_take, List.take_length]
      rw [hsize, htake]
      generalize file.take maxConfigBytes = bytes
      have hheld : Holds (write heap 0 (bytes ++ [0])) 0 bytes :=
        Holds.prefix (holds_write heap 0 (bytes ++ [0])) (List.prefix_append _ _)
      generalize write heap 0 (bytes ++ [0]) = m at hheld ⊢
      have hwalk := @shows_walkLines m bytes.length (bytes.length + 1) 0 0 _ _ hempty
        (Nat.le_refl 0) (Nat.zero_le _) (by omega) List.not_mem_nil
      rw [Nat.sub_zero, hheld.read_eq] at hwalk
      exact hwalk

def wellFormed (line : List UInt8) : Bool :=
  trim BootMenu.isSpace line ≠ [] ∧ (trim BootMenu.isSpace line).head? ≠ some 35 ∧
    124 ∈ trim BootMenu.isSpace line

def labelOf (line : List UInt8) : List UInt8 :=
  (trim BootMenu.isSpace (line.takeWhile (· != 124))).take (maxLabel - 1)

def stringOf (line : List UInt8) : List UInt8 :=
  (trim BootMenu.isSpace (line.dropWhile (· != 124)).tail).take (maxString - 1)

def menuOf (file : List UInt8) : List (List UInt8 × List UInt8) :=
  (((file.splitOn 10).filter wellFormed).take maxEntries).map (fun line => (labelOf line, stringOf line))

theorem lineEntry_eq (line : List UInt8) :
    (lineEntry line).map (fun e => (e.label, e.string)) =
      if wellFormed line then some (labelOf line, stringOf line) else none := by
  by_cases hpipe : 124 ∈ line
  · obtain ⟨pre, post, rfl, hpre⟩ := List.eq_append_cons_of_mem hpipe
    have hbefore : ∀ c ∈ pre, (c != 124) = true :=
      fun c hc => bne_iff_ne.mpr (fun he => hpre (he ▸ hc))
    have hhead : (pre.dropWhile BootMenu.isSpace ++ 124 :: post.rdropWhile BootMenu.isSpace).head? =
        some 35 ↔ (pre.dropWhile BootMenu.isSpace).head? = some 35 := by
      cases pre.dropWhile BootMenu.isSpace <;> simp
    rw [lineEntry, fields_append_pipe pre post hpre, wellFormed,
      trim_append_cons BootMenu.isSpace pre 124 post (by decide), labelOf, stringOf,
      takeWhile_stop hbefore (by decide), dropWhile_stop hbefore (by decide)]
    by_cases hcomment : (pre.dropWhile BootMenu.isSpace).head? = some 35
    · rw [if_pos hcomment, if_neg]
      · rfl
      · rw [decide_eq_true_iff]
        exact fun h => h.2.1 (hhead.mpr hcomment)
    · rw [if_neg hcomment, if_pos]
      · simp only [Option.map_some, entryOf, dropWhile_rdropWhile, List.tail_cons, trim]
      · exact decide_eq_true ⟨by simp, fun h => hcomment (hhead.mp h), by simp⟩
  · have hnone : wellFormed line = false := by
      rw [wellFormed, decide_eq_false_iff_not]
      exact fun h => hpipe (trim_subset BootMenu.isSpace line h.2.2)
    rw [lineEntry, fields_without_pipe line hpipe, hnone]
    rfl

theorem entries_eq (lines : List (List UInt8)) :
    (lines.filterMap lineEntry).map (fun e => (e.label, e.string)) =
      (lines.filter wellFormed).map (fun line => (labelOf line, stringOf line)) := by
  rw [List.map_filterMap]
  simp only [lineEntry_eq]
  induction lines with
  | nil => rfl
  | cons line lines ih =>
    cases hline : wellFormed line with
    | true => simp [hline, ih]
    | false => simp [hline, ih]

/-- The menu of a file is the list of its well-formed lines, in file order. -/
theorem load_menu {file : List UInt8} (hnul : 0 ∉ file) (hfit : file.length ≤ maxConfigBytes)
    (heap : Mem UInt8) (t : Tables) :
    (load file fineLoad heap t).1 = true ∧
      (load file fineLoad heap t).2.count = (menuOf file).length ∧
      ∀ i (h : i < (menuOf file).length),
        StringAt (load file fineLoad heap t).2.label ((i + 1) * maxLabel) (i * maxLabel)
            (menuOf file)[i].1 ∧
          StringAt (load file fineLoad heap t).2.string ((i + 1) * maxString) (i * maxString)
            (menuOf file)[i].2 := by
  obtain ⟨hresult, hshows⟩ := shows_load file fineLoad heap t
  generalize load file fineLoad heap t = r at hresult hshows ⊢
  have hmenu : (BootMenu.load file fineLoad).2.entries.map (fun e => (e.label, e.string)) =
      menuOf file := by
    rw [load_fine, List.take_of_length_le hfit, foldl_parseLine_entries, List.map_take, entries_eq,
      ← List.map_take, menuOf]
  generalize (BootMenu.load file fineLoad).2.entries = entries at hshows hmenu
  refine ⟨hresult, ?_, fun i hi => ?_⟩
  · rw [hshows.count, ← hmenu, List.length_map]
  · have hin : i < entries.length := by rwa [← hmenu, List.length_map] at hi
    have hentry : (menuOf file)[i] = (entries[i].label, entries[i].string) := by
      simp only [← hmenu, List.getElem_map]
    obtain ⟨line, hline, htexts⟩ := List.mem_map.mp (List.getElem_mem hi)
    have hline : line ∈ file.splitOn 10 := List.mem_of_mem_filter (List.mem_of_mem_take hline)
    have hclean : 0 ∉ line := fun h0 => hnul (splitOn_subset 10 file line hline h0)
    rw [hentry, Prod.mk.injEq] at htexts
    have hlabel : 0 ∉ entries[i].label := by
      rw [← htexts.1]
      intro h0
      exact hclean ((List.takeWhile_prefix _).subset (trim_subset _ _ (List.mem_of_mem_take h0)))
    have hstring : 0 ∉ entries[i].string := by
      rw [← htexts.2]
      intro h0
      exact hclean (List.dropWhile_subset _ (List.mem_of_mem_tail
        (trim_subset _ _ (List.mem_of_mem_take h0))))
    obtain ⟨hrow, hrow'⟩ := hshows.rows i hin
    have hfits := entries[i].labelFits
    have hfits' := entries[i].stringFits
    rw [hentry]
    dsimp only
    constructor
    · refine ⟨hrow, hlabel, ?_⟩
      rw [Nat.succ_mul]
      omega
    · refine ⟨hrow', hstring, ?_⟩
      rw [Nat.succ_mul]
      omega

def mixedFile : List UInt8 := ascii "# a|b\r\n one | -v |x \r\nno\n|two"

example : menuOf mixedFile = [(ascii "one", ascii "-v |x"), ([], ascii "two")] := by decide

theorem load_menu_mixed :
    (load mixedFile fineLoad (fun _ => 0) ⟨7, fun _ => 1, fun _ => 2⟩).1 = true ∧
      (load mixedFile fineLoad (fun _ => 0) ⟨7, fun _ => 1, fun _ => 2⟩).2.count =
        (menuOf mixedFile).length ∧
      ∀ i (h : i < (menuOf mixedFile).length),
        StringAt (load mixedFile fineLoad (fun _ => 0) ⟨7, fun _ => 1, fun _ => 2⟩).2.label
            ((i + 1) * maxLabel) (i * maxLabel) (menuOf mixedFile)[i].1 ∧
          StringAt (load mixedFile fineLoad (fun _ => 0) ⟨7, fun _ => 1, fun _ => 2⟩).2.string
            ((i + 1) * maxString) (i * maxString) (menuOf mixedFile)[i].2 :=
  load_menu (by decide) (by decide) _ _

end RapiBootloader.MenuTables
