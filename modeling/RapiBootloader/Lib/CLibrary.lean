import RapiBootloader.Lib.Memory
import Mathlib.Data.List.TakeWhile

namespace RapiBootloader.Lib.CLibrary

open Lib.Memory

def cstr (m : Mem UInt8) (size p : Nat) : List UInt8 := (read m p (size - p)).takeWhile (· != 0)

/-- A string stands at `p`, with its NUL inside the buffer. -/
structure StringAt (m : Mem UInt8) (size p : Nat) (s : List UInt8) : Prop where
  holds : Holds m p (s ++ [0])
  noNul : 0 ∉ s
  fits : p + s.length < size

variable {m m' : Mem UInt8} {size p q : Nat} {s : List UInt8}

theorem takeWhile_append_nul {s : List UInt8} (h : 0 ∉ s) (rest : List UInt8) :
    (s ++ 0 :: rest).takeWhile (· != 0) = s := by
  have hall : ∀ c ∈ s, (c != 0) = true := fun c hc => bne_iff_ne.mpr (fun h0 => h (h0 ▸ hc))
  rw [List.takeWhile_append_of_pos hall]
  simp

theorem StringAt.cstr_eq (h : StringAt m size p s) : cstr m size p = s := by
  have hfits := h.fits
  have hlen : (s ++ [0]).length ≤ size - p := by
    simp only [List.length_append, List.length_singleton]
    omega
  obtain ⟨rest, hrest⟩ := holds_take h.holds hlen
  rw [cstr, ← hrest, List.append_assoc]
  exact takeWhile_append_nul h.noNul rest

theorem takeWhile_nul_self {s : List UInt8} (h : 0 ∉ s) : s.takeWhile (· != 0) = s :=
  List.takeWhile_eq_self_iff.mpr (fun _ hc => bne_iff_ne.mpr (fun h0 => h (h0 ▸ hc)))

theorem takeWhile_nul_cons {c : UInt8} (h : c ≠ 0) (s : List UInt8) :
    (c :: s).takeWhile (· != 0) = c :: s.takeWhile (· != 0) :=
  List.takeWhile_cons_of_pos (p := (· != 0)) (bne_iff_ne.mpr h)

theorem ne_nul_of_mem_takeWhile {c : UInt8} {s : List UInt8} (h : c ∈ s.takeWhile (· != 0)) : c ≠ 0 :=
  bne_iff_ne.mp (List.mem_takeWhile_imp (p := (· != 0)) h)

theorem takeWhile_nul_isPrefix (bs : List UInt8) : bs.takeWhile (· != 0) ++ [0] <+: bs ++ [0] := by
  induction bs with
  | nil => exact List.prefix_refl _
  | cons b bs ih =>
    by_cases hb : b = 0
    · subst hb
      simp
    · simpa [hb] using ih

theorem stringAt_of_holds {bs : List UInt8} (h : Holds m p (bs ++ [0])) (hfit : p + bs.length < size) :
    StringAt m size p (bs.takeWhile (· != 0)) := by
  have hlen : (bs.takeWhile (· != 0)).length ≤ bs.length := (List.takeWhile_prefix _).length_le
  have hholds := h.prefix (takeWhile_nul_isPrefix bs)
  exact ⟨hholds, fun hmem => by simpa using List.mem_takeWhile_imp hmem, by omega⟩

theorem StringAt.congr (h : StringAt m size p s)
    (hsame : ∀ i, p ≤ i → i ≤ p + s.length → m' i = m i) : StringAt m' size p s := by
  refine ⟨fun i hi => ?_, h.noNul, h.fits⟩
  have hlen : i < s.length + 1 := by simpa using hi
  rw [hsame _ (by omega) (by omega)]
  exact h.holds i hi

theorem StringAt.nul (h : StringAt m size p []) : m p = 0 := h.holds 0 (by simp)

theorem StringAt.head {c : UInt8} (h : StringAt m size p (c :: s)) : m p = c :=
  h.holds 0 (by simp)

theorem StringAt.drop {t : List UInt8} (h : StringAt m size p (s ++ t)) :
    StringAt m size (p + s.length) t := by
  have hfits := h.fits
  have hholds := h.holds
  rw [List.length_append] at hfits
  rw [List.append_assoc, holds_append] at hholds
  exact ⟨hholds.2, fun h0 => h.noNul (List.mem_append_right _ h0), by omega⟩

theorem StringAt.tail {c : UInt8} (h : StringAt m size p (c :: s)) : StringAt m size (p + 1) s :=
  StringAt.drop (s := [c]) h

theorem StringAt.ne_nul {c : UInt8} (h : StringAt m size p (c :: s)) : c ≠ 0 :=
  fun h0 => h.noNul (h0 ▸ List.mem_cons_self)

theorem StringAt.write_before (h : StringAt m size p s) (hq : q < p) (c : UInt8) :
    StringAt (write m q [c]) size p s :=
  ⟨h.holds.write_outside q [c] (Or.inr hq), h.noNul, h.fits⟩

theorem stringAt_write (m : Mem UInt8) (hnul : 0 ∉ s) (hfit : p + s.length < size) :
    StringAt (write m p (s ++ [0])) size p s :=
  ⟨holds_write m p (s ++ [0]), hnul, hfit⟩

theorem StringAt.cut {c : UInt8} {t : List UInt8} (h : StringAt m size p (s ++ c :: t)) :
    StringAt (write m (p + s.length) [0]) size p s ∧
      StringAt (write m (p + s.length) [0]) size (p + s.length + 1) t := by
  have hfits := h.fits
  rw [List.length_append, List.length_cons] at hfits
  have hholds := h.holds
  rw [List.append_assoc, holds_append] at hholds
  constructor
  · exact ⟨hholds.1.append [0], fun h0 => h.noNul (List.mem_append_left _ h0), by omega⟩
  · exact h.drop.tail.write_before (Nat.lt_succ_self _) 0

theorem cstr_write_nul (m : Mem UInt8) (hsize : 0 < size) : cstr (write m 0 [0]) size 0 = [] := by
  have h : StringAt (write m 0 ([] ++ [0])) size 0 [] := stringAt_write m List.not_mem_nil hsize
  exact h.cstr_eq

/-- The tokens of a string: what stands between runs of delimiters. -/
def tokens (delims : List UInt8) (s : List UInt8) : List (List UInt8) :=
  (s.splitOnP (· ∈ delims)).filter (· ≠ [])

theorem mem_splitOnP (p : UInt8 → Bool) (xs : List UInt8) :
    ∀ ys ∈ xs.splitOnP p, ∀ c ∈ ys, c ∈ xs ∧ p c = false := by
  induction xs with
  | nil => simp
  | cons a xs ih =>
    intro ys hys c hc
    rw [List.splitOnP_cons_eq_if_modifyHead] at hys
    split at hys
    · obtain rfl | hm := List.mem_cons.mp hys
      · cases hc
      · exact (ih ys hm c hc).imp_left (List.mem_cons_of_mem a)
    · rename_i hp
      obtain ⟨x, tail, hx⟩ := List.exists_cons_of_ne_nil (List.splitOnP_ne_nil p xs)
      rw [hx] at ih
      rw [hx, List.modifyHead_cons] at hys
      obtain rfl | hm := List.mem_cons.mp hys
      · obtain rfl | hc := List.mem_cons.mp hc
        · exact ⟨List.mem_cons_self, (Bool.not_eq_true _).mp hp⟩
        · exact (ih x List.mem_cons_self c hc).imp_left (List.mem_cons_of_mem a)
      · exact (ih ys (List.mem_cons_of_mem x hm) c hc).imp_left (List.mem_cons_of_mem a)

theorem mem_tokens {delims s tok : List UInt8} (h : tok ∈ tokens delims s) :
    tok ≠ [] ∧ ∀ c ∈ tok, c ∈ s ∧ c ∉ delims := by
  obtain ⟨hpiece, hne⟩ := List.mem_filter.mp h
  refine ⟨of_decide_eq_true hne, fun c hc => ?_⟩
  obtain ⟨hmem, hdelim⟩ := mem_splitOnP _ s tok hpiece c hc
  exact ⟨hmem, of_decide_eq_false hdelim⟩

theorem tokens_cons_delim {delims : List UInt8} {c : UInt8} (hc : c ∈ delims) (s : List UInt8) :
    tokens delims (c :: s) = tokens delims s := by
  simp [tokens, List.splitOnP_cons_eq_if_modifyHead, hc]

theorem tokens_token {delims tok : List UInt8} (hne : tok ≠ []) (h : ∀ c ∈ tok, c ∉ delims) :
    tokens delims tok = [tok] := by
  have hsplit : tok.splitOnP (· ∈ delims) = [tok] := by
    apply List.splitOnP_eq_singleton
    simpa using h
  simp [tokens, hsplit, hne]

theorem tokens_append {delims tok : List UInt8} (hne : tok ≠ []) (h : ∀ c ∈ tok, c ∉ delims)
    {c : UInt8} (hc : c ∈ delims) (s : List UInt8) :
    tokens delims (tok ++ c :: s) = tok :: tokens delims s := by
  have hsplit : (tok ++ c :: s).splitOnP (· ∈ delims) = tok :: s.splitOnP (· ∈ delims) := by
    apply List.splitOnP_append_cons_of_forall_mem
    · simpa using h
    · simpa using hc
  simp [tokens, hsplit, hne]

theorem tokens_append_delim {delims : List UInt8} {c : UInt8} (hc : c ∈ delims) (s t : List UInt8) :
    tokens delims (s ++ c :: t) = tokens delims s ++ tokens delims t := by
  rw [tokens, List.splitOnP_append_cons s t (decide_eq_true hc), List.filter_append, tokens, tokens]

theorem tokens_dropWhile (delims s : List UInt8) :
    tokens delims (s.dropWhile (· ∈ delims)) = tokens delims s := by
  induction s with
  | nil => rfl
  | cons c s ih =>
    by_cases hc : c ∈ delims
    · simp [hc, ih, tokens_cons_delim hc]
    · simp [hc]

theorem head_dropWhile {f : UInt8 → Bool} {s : List UInt8} {c : UInt8}
    (h : (s.dropWhile f).head? = some c) : f c = false := by
  have hnot := List.head?_dropWhile_not f s
  rw [h] at hnot
  simpa using hnot

theorem tokens_skip {delims skip : List UInt8} (h : ∀ c ∈ skip, c ∈ delims) (s : List UInt8) :
    tokens delims (skip ++ s) = tokens delims s := by
  induction skip with
  | nil => rfl
  | cons c skip ih =>
    rw [List.cons_append, tokens_cons_delim (h c List.mem_cons_self)]
    exact ih (fun x hx => h x (List.mem_cons_of_mem c hx))

theorem tokens_eq_nil {delims s : List UInt8} (h : ∀ c ∈ s, c ∈ delims) : tokens delims s = [] := by
  have hskip := tokens_skip h []
  rwa [List.append_nil] at hskip

theorem tokens_append_run {delims run : List UInt8} (hne : run ≠ []) (h : ∀ c ∈ run, c ∈ delims)
    (s t : List UInt8) : tokens delims (s ++ run ++ t) = tokens delims s ++ tokens delims t := by
  obtain ⟨c, run, rfl⟩ := List.exists_cons_of_ne_nil hne
  rw [List.append_assoc, List.cons_append, tokens_append_delim (h c List.mem_cons_self),
    tokens_skip (fun x hx => h x (List.mem_cons_of_mem c hx))]

/-- The first token of a string, and where it ends. -/
theorem tokens_first {delims s : List UInt8} {c : UInt8} (hmem : c ∈ s) (hc : c ∉ delims) :
    ∃ skip tok rest, s = skip ++ tok ++ rest ∧ (∀ x ∈ skip, x ∈ delims) ∧ tok ≠ [] ∧
      (∀ x ∈ tok, x ∉ delims) ∧ (∀ x, rest.head? = some x → x ∈ delims) ∧
      tokens delims s = tok :: tokens delims rest := by
  have hskip : ∀ x ∈ s.takeWhile (· ∈ delims), x ∈ delims :=
    fun x hx => by simpa using List.mem_takeWhile_imp hx
  have htoken : ∀ x ∈ (s.dropWhile (· ∈ delims)).takeWhile (· ∉ delims), x ∉ delims :=
    fun x hx => by simpa using List.mem_takeWhile_imp hx
  have hrest : ∀ x, ((s.dropWhile (· ∈ delims)).dropWhile (· ∉ delims)).head? = some x →
      x ∈ delims := fun x hx => by simpa using head_dropWhile hx
  have hleft : s.dropWhile (· ∈ delims) ≠ [] := by
    intro hnil
    rw [List.dropWhile_eq_nil_iff] at hnil
    exact hc (of_decide_eq_true (hnil c hmem))
  have hcut : (s.dropWhile (· ∈ delims)).takeWhile (· ∉ delims) ++
      (s.dropWhile (· ∈ delims)).dropWhile (· ∉ delims) = s.dropWhile (· ∈ delims) :=
    List.takeWhile_append_dropWhile
  have hne : (s.dropWhile (· ∈ delims)).takeWhile (· ∉ delims) ≠ [] := by
    obtain ⟨x, left, hx⟩ := List.exists_cons_of_ne_nil hleft
    have hhead : x ∉ delims := of_decide_eq_false (head_dropWhile (by rw [hx]; rfl))
    rw [hx]
    simp [hhead]
  have htokens := tokens_dropWhile delims s
  have hwhole : s.takeWhile (· ∈ delims) ++ s.dropWhile (· ∈ delims) = s :=
    List.takeWhile_append_dropWhile
  rw [← hcut] at hwhole htokens
  refine ⟨_, _, _, ?_, hskip, hne, htoken, hrest, ?_⟩
  · rw [List.append_assoc]
    exact hwhole.symm
  · generalize (s.dropWhile (· ∈ delims)).takeWhile (· ∉ delims) = tok at *
    generalize (s.dropWhile (· ∈ delims)).dropWhile (· ∉ delims) = rest at *
    rw [← htokens]
    cases rest with
    | nil =>
      rw [List.append_nil]
      exact tokens_token hne htoken
    | cons x rest =>
      have hx := hrest x rfl
      rw [tokens_append hne htoken hx, tokens_cons_delim hx]

/-- `strtok_r`. The delimiter behind the token is overwritten. A saved null pointer is `none`,
and so is one to the end of the string. -/
def strtokR (delims : List UInt8) (size : Nat) (m : Mem UInt8) :
    Option Nat → Option Nat × Mem UInt8 × Option Nat
  | none => (none, m, none)
  | some p =>
    let s := cstr m size p
    let rest := s.dropWhile (· ∈ delims)
    let start := p + (s.length - rest.length)
    let length := (rest.takeWhile (· ∉ delims)).length
    if rest = [] then (none, m, none)
    else if length = rest.length then (some start, m, none)
    else (some start, write m (start + length) [0], some (start + length + 1))

/-- What `strtok_r` makes of a string: nothing, its last token, or a token and the rest. -/
inductive Scanned (delims : List UInt8) (m : Mem UInt8) (size p : Nat) (s : List UInt8) :
    Option Nat × Mem UInt8 × Option Nat → Prop
  | none (h : tokens delims s = []) : Scanned delims m size p s (none, m, none)
  | last {tok : List UInt8} {start : Nat} (h : tokens delims s = [tok]) (hlo : p ≤ start)
      (hhi : start + tok.length = p + s.length) (ht : StringAt m size start tok) :
      Scanned delims m size p s (some start, m, none)
  | more {tok rest : List UInt8} {start : Nat} {m' : Mem UInt8}
      (h : tokens delims s = tok :: tokens delims rest) (hlo : p ≤ start)
      (hhi : start + tok.length + 1 + rest.length = p + s.length)
      (ht : StringAt m' size start tok) (hr : StringAt m' size (start + tok.length + 1) rest)
      (hm : m' = write m (start + tok.length) [0]) :
      Scanned delims m size p s (some start, m', some (start + tok.length + 1))

theorem strtokR_scanned (delims : List UInt8) (h : StringAt m size p s) :
    Scanned delims m size p s (strtokR delims size m (some p)) := by
  have htokens := tokens_dropWhile delims s
  have hhead : ∀ c, (s.dropWhile (· ∈ delims)).head? = some c → c ∉ delims :=
    fun c hc => of_decide_eq_false (head_dropWhile hc)
  have hskip : s.takeWhile (· ∈ delims) ++ s.dropWhile (· ∈ delims) = s :=
    List.takeWhile_append_dropWhile
  have hlen := congrArg List.length hskip
  rw [List.length_append] at hlen
  simp only [strtokR, h.cstr_eq]
  generalize s.dropWhile (· ∈ delims) = left at *
  rw [← hskip] at h
  have hstart := h.drop
  have hpos : p + (s.length - left.length) = p + (s.takeWhile (· ∈ delims)).length := by omega
  rw [hpos]
  have hlo : p ≤ p + (s.takeWhile (· ∈ delims)).length := Nat.le_add_right _ _
  have hhi : p + (s.takeWhile (· ∈ delims)).length + left.length = p + s.length := by omega
  generalize p + (s.takeWhile (· ∈ delims)).length = start at *
  by_cases hnil : left = []
  · rw [if_pos hnil]
    exact Scanned.none (by rw [← htokens, hnil]; rfl)
  rw [if_neg hnil]
  have hcut : left.takeWhile (· ∉ delims) ++ left.dropWhile (· ∉ delims) = left :=
    List.takeWhile_append_dropWhile
  have htok : ∀ c ∈ left.takeWhile (· ∉ delims), c ∉ delims :=
    fun c hc => by simpa using List.mem_takeWhile_imp hc
  have hne : left.takeWhile (· ∉ delims) ≠ [] := by
    obtain ⟨c, cs, rfl⟩ := List.exists_cons_of_ne_nil hnil
    simp [hhead c rfl]
  generalize left.takeWhile (· ∉ delims) = tok at *
  cases hend : left.dropWhile (· ∉ delims) with
  | nil =>
    rw [hend, List.append_nil] at hcut
    subst hcut
    rw [if_pos rfl]
    exact Scanned.last (by rw [← htokens]; exact tokens_token hne htok) hlo hhi hstart
  | cons c rest =>
    have hc : c ∈ delims := by
      have hdelim := head_dropWhile (by rw [hend]; rfl)
      simpa using hdelim
    rw [hend] at hcut
    subst hcut
    rw [List.length_append, List.length_cons] at hhi ⊢
    rw [if_neg (by omega)]
    have htoks : tokens delims s = tok :: tokens delims rest := by
      rw [← htokens]
      exact tokens_append hne htok hc rest
    exact Scanned.more htoks hlo (by omega) hstart.cut.1 hstart.cut.2 rfl

/-- What a saved pointer of `strtok_r` still has to give: the tokens of a string that lies
between `lo` and `hi`. -/
def SavedAt (delims : List UInt8) (m : Mem UInt8) (size lo hi : Nat) :
    Option Nat → List (List UInt8) → Prop
  | none, toks => toks = []
  | some p, toks =>
    ∃ s, StringAt m size p s ∧ tokens delims s = toks ∧ lo ≤ p ∧ p + s.length ≤ hi

theorem SavedAt.congr {delims : List UInt8} {lo hi : Nat} {save : Option Nat}
    {toks : List (List UInt8)} (h : SavedAt delims m size lo hi save toks)
    (hsame : ∀ i, lo ≤ i → i ≤ hi → m' i = m i) : SavedAt delims m' size lo hi save toks := by
  cases save with
  | none => exact h
  | some p =>
    obtain ⟨s, hs, htoks, hlo, hhi⟩ := h
    exact ⟨s, hs.congr (fun i hp hi => hsame i (by omega) (by omega)), htoks, hlo, hhi⟩

theorem strtokR_nil {delims : List UInt8} {lo hi : Nat} {save : Option Nat}
    (h : SavedAt delims m size lo hi save []) : strtokR delims size m save = (none, m, none) := by
  cases save with
  | none => rfl
  | some p =>
    obtain ⟨s, hs, htoks, -, -⟩ := h
    have hscan := strtokR_scanned delims hs
    generalize strtokR delims size m (some p) = r at hscan
    cases hscan with
    | none => rfl
    | last htoks' => rw [htoks] at htoks'; cases htoks'
    | more htoks' => rw [htoks] at htoks'; cases htoks'

/-- The next token is cut out, and the rest of them lie behind it. -/
theorem strtokR_cons {delims tok : List UInt8} {toks : List (List UInt8)} {lo hi : Nat}
    {save : Option Nat} (h : SavedAt delims m size lo hi save (tok :: toks)) :
    ∃ start m' save', strtokR delims size m save = (some start, m', save') ∧
      lo ≤ start ∧ start + tok.length ≤ hi ∧ StringAt m' size start tok ∧
      SavedAt delims m' size (start + tok.length + 1) hi save' toks ∧
      ∀ i, i < lo ∨ hi ≤ i → m' i = m i := by
  cases save with
  | none => cases h
  | some p =>
    obtain ⟨s, hs, htoks, hlo, hhi⟩ := h
    have hscan := strtokR_scanned delims hs
    generalize strtokR delims size m (some p) = r at hscan
    cases hscan with
    | none htoks' => rw [htoks] at htoks'; cases htoks'
    | @last tok' start htoks' hp hend ht =>
      rw [htoks] at htoks'
      cases htoks'
      exact ⟨start, m, none, rfl, by omega, by omega, ht, rfl, fun _ _ => rfl⟩
    | @more tok' rest start m' htoks' hp hend ht hr hm =>
      rw [htoks] at htoks'
      cases htoks'
      refine ⟨start, m', some _, rfl, by omega, by omega, ht,
        ⟨rest, hr, rfl, Nat.le_refl _, by omega⟩, fun i hi => ?_⟩
      rw [hm]
      exact write_outside m _ _ i (by rw [List.length_singleton]; omega)

def toLower (c : UInt8) : UInt8 := if 65 ≤ c ∧ c ≤ 90 then c + 32 else c

/-- `strncasecmp (s, t, n) == 0` -/
def sameLetters (n : Nat) (s t : List UInt8) : Bool :=
  (s.take n).map toLower = (t.take n).map toLower

def isSpace (c : UInt8) : Bool := c = 32 || (9 ≤ c && c ≤ 13)

def isDigit (c : UInt8) : Bool := 48 ≤ c && c ≤ 57

def leadingNumber (s : List UInt8) : Nat :=
  (s.takeWhile isDigit).foldl (fun n c => 10 * n + (c.toNat - 48)) 0

/-- `strtol (s, 0, 10)` with a `long` of 64 bits. -/
def strtol (s : List UInt8) : Int :=
  match s.dropWhile isSpace with
  | 45 :: t => max (-leadingNumber t) (-0x8000000000000000)
  | 43 :: t => min (leadingNumber t) 0x7FFFFFFFFFFFFFFF
  | t => min (leadingNumber t) 0x7FFFFFFFFFFFFFFF

def atoi (s : List UInt8) : Nat := (strtol s % 0x100000000).toNat

end RapiBootloader.Lib.CLibrary
