import RapiBootloader.MenuLoop

namespace RapiBootloader.MenuScript

open Lib.Scroll Lib.Strings BootMenu MenuView MenuLoop

variable {l : Layout}

def add (k : Intents) : Action → Intents
  | .move down => { k with moveAccum := k.moveAccum + step down }
  | .turn down => { k with pageAccum := k.pageAccum + step down }
  | .jump index => { k with jumpTo := some index }
  | .enter => { k with selectPending := true }

theorem inject_eq (k : Intents) (c : UInt8) :
    inject k c = (action c).elim k (add k) := by
  simp only [inject, action]
  split
  · rfl
  · split
    · rfl
    · split
      · rfl
      · split
        · rfl
        · split
          · rfl
          · split <;> rfl

def NoJump (l : Layout) (k : Intents) : Prop := k.jumpTo.filter (· < l.count) = none

instance (k : Intents) : Decidable (NoJump l k) :=
  inferInstanceAs (Decidable (k.jumpTo.filter (· < l.count) = none))

/-- The accumulators leave the cursor on the page without scrolling. -/
def OnPage (v : View l) (k : Intents) : Prop :=
  landTop v k ≤ landCursor v k ∧ landCursor v k < landTop v k + l.page

instance (v : View l) (k : Intents) : Decidable (OnPage v k) :=
  inferInstanceAs (Decidable (_ ∧ _))

def SameWay (accum : Int) (down : Bool) : Prop := if down then 0 ≤ accum else accum ≤ 0

instance (accum : Int) (down : Bool) : Decidable (SameWay accum down) :=
  inferInstanceAs (Decidable (if down then 0 ≤ accum else accum ≤ 0))

/-- The moves have not run over an end of the list or scrolled the page. A page of one
entry always scrolls. -/
def Inside (v : View l) (accum : Int) : Prop :=
  (0 ≤ v.cursor + accum ∧ v.cursor + accum < l.count) ∧
    ((v.top ≤ v.cursor + accum ∧ v.cursor + accum < v.top + l.page) ∨ l.page = 1)

instance (v : View l) (accum : Int) : Decidable (Inside v accum) :=
  inferInstanceAs (Decidable (_ ∧ _))

/-- A key that keeps its meaning behind the ones that wait in the accumulators. No key does
behind an Enter, no move behind a page or a jump, no page behind a jump. -/
def Kept (v : View l) (k : Intents) : Action → Prop
  | .enter => True
  | .move down =>
    k.selectPending = false ∧ NoJump l k ∧ k.pageAccum = 0 ∧
      (SameWay k.moveAccum down ∨ Inside v k.moveAccum)
  | .turn down =>
    k.selectPending = false ∧ NoJump l k ∧ k.pageAccum + step down ≠ 0 ∧ OnPage v k ∧
      (SameWay k.pageAccum down ∨
        (0 ≤ v.top + k.pageAccum * l.page ∧ v.top + k.pageAccum * l.page ≤ l.count - l.page))
  | .jump index =>
    k.selectPending = false ∧
      ((index < l.count ∧ (OnPage v k ∨ landCursor v k = index)) ∨
        (l.count ≤ index ∧ NoJump l k))

instance (v : View l) (k : Intents) (a : Action) : Decidable (Kept v k a) :=
  match a with
  | .enter => inferInstanceAs (Decidable True)
  | .move _ => inferInstanceAs (Decidable (_ ∧ _))
  | .turn _ => inferInstanceAs (Decidable (_ ∧ _))
  | .jump _ => inferInstanceAs (Decidable (_ ∧ _))

theorem settle_top (v : View l) {k : Intents} (h : OnPage v k) : (settle v k).top = landTop v k :=
  scroll_of_onPage h

theorem landCursor_noJump (v : View l) {k : Intents} (h : NoJump l k) :
    landCursor v k =
      if k.pageAccum = 0 then clampTo (l.count - 1) (v.cursor + k.moveAccum) else landTop v k := by
  rw [landCursor, h, Option.getD_none]

theorem clampTo_moves (v : View l) {accum : Int} {down : Bool}
    (h : SameWay accum down ∨ Inside v accum) :
    clampTo (l.count - 1) (clampTo (l.count - 1) (v.cursor + accum) + step down) =
      clampTo (l.count - 1) (v.cursor + accum + step down) := by
  have hlist := v.inList
  apply clampTo_add
  obtain hsame | ⟨hin, -⟩ := h
  · cases down with
    | true => exact Or.inr (Or.inl ⟨Int.add_nonneg (Int.natCast_nonneg _) hsame, by decide⟩)
    | false =>
      have hle : accum ≤ 0 := hsame
      exact Or.inr (Or.inr ⟨by omega, by decide⟩)
  · exact Or.inl ⟨hin.1, by omega⟩

/-- Moves that do not scroll back and forth scroll as one. -/
theorem scroll_moves (v : View l) {accum : Int} {down : Bool}
    (h : SameWay accum down ∨ Inside v accum) :
    scroll l.page (scroll l.page v.top (clampTo (l.count - 1) (v.cursor + accum)))
        (clampTo (l.count - 1) (v.cursor + accum + step down)) =
      scroll l.page v.top (clampTo (l.count - 1) (v.cursor + accum + step down)) := by
  have hlist := v.inList
  have hon := v.onPage
  apply scroll_scroll l.someRow
  obtain hsame | ⟨hin, hpage⟩ := h
  · cases down with
    | true =>
      have hle : 0 ≤ accum := hsame
      refine Or.inl ⟨le_clampTo (by omega) (by omega), clampTo_mono _ ?_⟩
      exact Int.le_add_of_nonneg_right (by decide)
    | false =>
      have hle : accum ≤ 0 := hsame
      refine Or.inr (Or.inl ⟨?_, clampTo_mono _ ?_⟩)
      · exact Nat.lt_of_le_of_lt (clampTo_le_of_le (by omega)) hon.2
      · have hdown : step false ≤ 0 := by decide
        omega
  · obtain hwindow | hone := hpage
    · have hmem : (clampTo (l.count - 1) (v.cursor + accum) : Int) = v.cursor + accum :=
        clampTo_of_mem ⟨hin.1, by omega⟩
      exact Or.inr (Or.inr (Or.inl ⟨by omega, by omega⟩))
    · exact Or.inr (Or.inr (Or.inr (Or.inr hone)))

theorem settle_move (v : View l) {k : Intents} {down : Bool} (h : Kept v k (.move down)) :
    settle v (add k (.move down)) = (settle v k).move down := by
  obtain ⟨-, hjump, hpage, hway⟩ := h
  have htop : landTop v k = v.top := if_pos hpage
  have htop' : landTop v (add k (.move down)) = v.top := if_pos hpage
  have hcursor : landCursor v k = clampTo (l.count - 1) (v.cursor + k.moveAccum) := by
    rw [landCursor_noJump v hjump, if_pos hpage]
  have hcursor' : landCursor v (add k (.move down)) =
      clampTo (l.count - 1) (v.cursor + k.moveAccum + step down) := by
    rw [landCursor_noJump v (k := add k (.move down)) hjump, Int.add_assoc]
    exact if_pos hpage
  apply View.ext
  · change landCursor v (add k (.move down)) =
      clampTo (l.count - 1) ((landCursor v k : Nat) + step down)
    rw [hcursor', hcursor, clampTo_moves v hway]
  · change scroll l.page (landTop v (add k (.move down))) (landCursor v (add k (.move down))) =
      scroll l.page (scroll l.page (landTop v k) (landCursor v k))
        (clampTo (l.count - 1) ((landCursor v k : Nat) + step down))
    rw [htop', htop, hcursor', hcursor, clampTo_moves v hway, scroll_moves v hway]

theorem clampTo_pages (v : View l) {accum : Int} {down : Bool}
    (h : SameWay accum down ∨
      (0 ≤ v.top + accum * l.page ∧ v.top + accum * l.page ≤ l.count - l.page)) :
    clampTo (l.count - l.page)
        (clampTo (l.count - l.page) (v.top + accum * l.page) + step down * l.page) =
      clampTo (l.count - l.page) (v.top + (accum + step down) * l.page) := by
  have hfull := v.full
  rw [Int.add_mul, ← Int.add_assoc]
  apply clampTo_add
  obtain hsame | hin := h
  · cases down with
    | true =>
      have hge : 0 ≤ accum * l.page := Int.mul_nonneg hsame (Int.natCast_nonneg _)
      have hstep : 0 ≤ step true * l.page := Int.mul_nonneg (by decide) (Int.natCast_nonneg _)
      exact Or.inr (Or.inl ⟨by omega, hstep⟩)
    | false =>
      have hle : accum * l.page ≤ 0 :=
        Int.mul_nonpos_of_nonpos_of_nonneg hsame (Int.natCast_nonneg _)
      have hstep : step false * l.page ≤ 0 :=
        Int.mul_nonpos_of_nonpos_of_nonneg (by decide) (Int.natCast_nonneg _)
      exact Or.inr (Or.inr ⟨by omega, hstep⟩)
  · exact Or.inl ⟨hin.1, by omega⟩

theorem settle_turn (v : View l) {k : Intents} {down : Bool} (h : Kept v k (.turn down)) :
    settle v (add k (.turn down)) = (settle v k).turn down := by
  obtain ⟨-, hjump, hne, hpage, hway⟩ := h
  have htop := settle_top v hpage
  have hclamp : landTop v k = clampTo (l.count - l.page) (v.top + k.pageAccum * l.page) := by
    rw [landTop]
    split
    · rename_i hzero
      have hfull := v.full
      have hmem : (clampTo (l.count - l.page) (v.top + k.pageAccum * l.page) : Int) = v.top := by
        rw [hzero, Int.zero_mul, Int.add_zero]
        exact clampTo_of_mem ⟨by omega, by omega⟩
      omega
    · rfl
  have hland : landTop v (add k (.turn down)) =
      clampTo (l.count - l.page) ((landTop v k : Nat) + step down * l.page) := by
    rw [hclamp, clampTo_pages v hway]
    exact if_neg hne
  have hcursor : landCursor v (add k (.turn down)) = landTop v (add k (.turn down)) := by
    rw [landCursor_noJump v (k := add k (.turn down)) hjump]
    exact if_neg hne
  apply View.ext
  · change landCursor v (add k (.turn down)) =
      clampTo (l.count - l.page) ((settle v k).top + step down * l.page)
    rw [hcursor, hland, htop]
  · change scroll l.page (landTop v (add k (.turn down))) (landCursor v (add k (.turn down))) =
      scroll l.page (clampTo (l.count - l.page) ((settle v k).top + step down * l.page))
        (clampTo (l.count - l.page) ((settle v k).top + step down * l.page))
    rw [hcursor, hland, htop]

theorem settle_jump (v : View l) {k : Intents} {index : Nat} (h : Kept v k (.jump index)) :
    settle v (add k (.jump index)) = (settle v k).jump index := by
  obtain ⟨-, ⟨hlt, hseen⟩ | ⟨hge, hjump⟩⟩ := h
  · have hfilter : (some index).filter (· < l.count) = some index :=
      Option.filter_eq_some_iff.mpr ⟨rfl, decide_eq_true hlt⟩
    have hcursor : landCursor v (add k (.jump index)) = index := by
      change ((some index).filter (· < l.count)).getD _ = index
      rw [hfilter, Option.getD_some]
    have hto : (settle v k).jump index =
        View.scrolled l (settle v k).top index (settle v k).full hlt := dif_pos hlt
    rw [hto]
    apply View.ext
    · exact hcursor
    · change scroll l.page (landTop v k) (landCursor v (add k (.jump index))) =
        scroll l.page (scroll l.page (landTop v k) (landCursor v k)) index
      rw [hcursor]
      refine (scroll_scroll l.someRow ?_).symm
      obtain hon | hsame := hseen
      · exact Or.inr (Or.inr (Or.inl hon))
      · exact Or.inr (Or.inr (Or.inr (Or.inl hsame)))
  · have hfilter : (some index).filter (· < l.count) = none := by simpa using hge
    have hcursor : landCursor v (add k (.jump index)) = landCursor v k := by
      rw [landCursor, landCursor, hjump]
      change ((some index).filter (· < l.count)).getD _ = _
      rw [hfilter]
      rfl
    have hto : (settle v k).jump index = settle v k := dif_neg (Nat.not_lt.mpr hge)
    rw [hto]
    apply View.ext
    · exact hcursor
    · change scroll l.page (landTop v k) (landCursor v (add k (.jump index))) =
        scroll l.page (landTop v k) (landCursor v k)
      rw [hcursor]

/-- A key that keeps its meaning acts on what the keys before it leave. -/
theorem settle_add (v : View l) {k : Intents} {a : Action} (h : Kept v k a) :
    settle v (add k a) = (settle v k).act a := by
  cases a with
  | move down => exact settle_move v h
  | turn down => exact settle_turn v h
  | jump index => exact settle_jump v h
  | enter => rfl

def KeptAll (v : View l) : Intents → List UInt8 → Prop
  | _, [] => True
  | k, c :: batch => (∀ a ∈ action c, Kept v k a) ∧ KeptAll v (inject k c) batch

def decideKeptAll (v : View l) : (k : Intents) → (batch : List UInt8) → Decidable (KeptAll v k batch)
  | _, [] => isTrue trivial
  | k, c :: batch =>
    haveI := decideKeptAll v (inject k c) batch
    inferInstanceAs (Decidable ((∀ a ∈ action c, Kept v k a) ∧ KeptAll v (inject k c) batch))

instance (v : View l) (k : Intents) (batch : List UInt8) : Decidable (KeptAll v k batch) :=
  decideKeptAll v k batch

def KeptRun (v : View l) : List (List UInt8) → Prop
  | [] => True
  | batch :: batches =>
    KeptAll v Intents.none batch ∧
      ((batch.foldl inject Intents.none).selectPending = false →
        KeptRun (settle v (batch.foldl inject Intents.none)) batches)

def decideKeptRun : (v : View l) → (batches : List (List UInt8)) → Decidable (KeptRun v batches)
  | _, [] => isTrue trivial
  | v, batch :: batches =>
    haveI := decideKeptRun (settle v (batch.foldl inject Intents.none)) batches
    inferInstanceAs (Decidable (_ ∧ (_ → _)))

instance (v : View l) (batches : List (List UInt8)) : Decidable (KeptRun v batches) :=
  decideKeptRun v batches

theorem settle_none (v : View l) : settle v Intents.none = v := by
  have hlist := v.inList
  have hcursor : landCursor v Intents.none = v.cursor := by
    change clampTo (l.count - 1) (v.cursor + 0) = v.cursor
    have hmem : (clampTo (l.count - 1) (v.cursor + 0) : Int) = v.cursor + 0 :=
      clampTo_of_mem ⟨by omega, by omega⟩
    omega
  apply View.ext
  · exact hcursor
  · change scroll l.page v.top (landCursor v Intents.none) = v.top
    rw [hcursor]
    exact scroll_of_onPage v.onPage

theorem settle_pending (v : View l) (k : Intents) (batch : List UInt8)
    (hk : k.selectPending = true) (h : KeptAll v k batch) :
    batch.foldl inject k = k := by
  induction batch with
  | nil => rfl
  | cons c batch ih =>
    obtain ⟨hkept, hrest⟩ := h
    have hsame : inject k c = k := by
      rw [inject_eq]
      cases ha : action c with
      | none => rfl
      | some a =>
        have hkeep := hkept a ha
        cases a with
        | enter =>
          change { k with selectPending := true } = k
          rw [← hk]
        | move down => exact absurd (hkeep.1.symm.trans hk) Bool.false_ne_true
        | turn down => exact absurd (hkeep.1.symm.trans hk) Bool.false_ne_true
        | jump index => exact absurd (hkeep.1.symm.trans hk) Bool.false_ne_true
    rw [hsame] at hrest
    rw [List.foldl_cons, hsame]
    exact ih hrest

theorem bootedEntry_batch (v : View l) (k : Intents) (batch rest : List UInt8)
    (hk : k.selectPending = false) (h : KeptAll v k batch) :
    bootedEntry (settle v k) (batch ++ rest) =
      if (batch.foldl inject k).selectPending then some (settle v (batch.foldl inject k)).cursor
      else bootedEntry (settle v (batch.foldl inject k)) rest := by
  induction batch generalizing k with
  | nil =>
    rw [List.foldl_nil, hk]
    rfl
  | cons c batch ih =>
    obtain ⟨hkept, hrest⟩ := h
    rw [List.cons_append, List.foldl_cons, bootedEntry]
    rw [inject_eq] at hrest ⊢
    cases ha : action c with
    | none =>
      rw [ha] at hrest
      exact ih k hk hrest
    | some a =>
      rw [ha, Option.elim_some] at hrest
      have hadd := settle_add v (hkept a ha)
      rw [Option.elim_some]
      cases a with
      | enter =>
        have hpending := settle_pending v (add k .enter) batch rfl hrest
        rw [hpending]
        rfl
      | move down =>
        have hih := ih (add k (.move down)) hk hrest
        rwa [hadd] at hih
      | turn down =>
        have hih := ih (add k (.turn down)) hk hrest
        rwa [hadd] at hih
      | jump index =>
        have hih := ih (add k (.jump index)) hk hrest
        rwa [hadd] at hih

theorem mainLoop_eq (v : View l) (batches : List (List UInt8)) (h : KeptRun v batches) :
    mainLoop l.count l.page (kernelOf v) batches = bootedEntry v batches.flatten := by
  induction batches generalizing v with
  | nil => rfl
  | cons batch batches ih =>
    obtain ⟨hkept, hrest⟩ := h
    have hbatch := bootedEntry_batch v Intents.none batch batches.flatten rfl hkept
    rw [settle_none] at hbatch
    rw [mainLoop, poll_eq, List.flatten_cons, hbatch]
    cases hs : (batch.foldl inject Intents.none).selectPending with
    | true => rfl
    | false => exact ih _ (hrest hs)

theorem keptRun_singletons (v : View l) (script : List UInt8) :
    KeptRun v (script.map (fun c => [c])) := by
  induction script generalizing v with
  | nil => trivial
  | cons c script ih =>
    refine ⟨⟨fun a _ => ?_, trivial⟩, fun _ => ih _⟩
    have hon : OnPage v Intents.none := by
      have hnone := settle_none v
      have hcursor : landCursor v Intents.none = v.cursor := congrArg View.cursor hnone
      have htop : landTop v Intents.none = v.top := rfl
      rw [OnPage, hcursor, htop]
      exact v.onPage
    cases a with
    | enter => trivial
    | move down => exact ⟨rfl, rfl, rfl, Or.inl (by cases down <;> exact Int.le_refl 0)⟩
    | turn down =>
      exact ⟨rfl, rfl, by cases down <;> decide, hon, Or.inl (by cases down <;> exact Int.le_refl 0)⟩
    | jump index =>
      refine ⟨rfl, ?_⟩
      obtain hlt | hge := Nat.lt_or_ge index l.count
      · exact Or.inl ⟨hlt, Or.inl hon⟩
      · exact Or.inr ⟨hge, rfl⟩

theorem visibleRows_pos (rows : Nat) : 0 < visibleRows rows := by
  simp only [visibleRows]
  split <;> omega

def layoutOf (menu : Menu) (rows : Nat) (h : 2 ≤ getCount menu) : Layout where
  count := getCount menu
  page := visibleRows rows
  someEntry := Nat.lt_of_lt_of_le Nat.two_pos h
  someRow := visibleRows_pos rows

theorem run_eq (menu : Menu) (rows : Nat) (h : 2 ≤ getCount menu) (batches : List (List UInt8)) :
    run menu rows batches =
      mainLoop (getCount menu) (visibleRows rows)
        (kernelOf (View.first (layoutOf menu rows h))) batches := by
  have hdraw := drawMenu_eq (layoutOf menu rows h) Intents.none
    (View.first (layoutOf menu rows h)).inList (View.first (layoutOf menu rows h)).full
  have hfirst := scroll_of_onPage (View.first (layoutOf menu rows h)).onPage
  rw [hfirst] at hdraw
  rw [run, if_neg (by omega), if_neg (by omega)]
  exact congrArg (fun s => mainLoop (getCount menu) (visibleRows rows) s batches) hdraw

theorem run_singletons (menu : Menu) (rows : Nat) (h : 2 ≤ getCount menu) (script : List UInt8) :
    run menu rows (script.map (fun c => [c])) =
      bootedEntry (View.first (layoutOf menu rows h)) script := by
  have hflat : (script.map (fun c => [c])).flatten = script := by
    induction script with
    | nil => rfl
    | cons c script ih => rw [List.map_cons, List.flatten_cons, ih, List.singleton_append]
  have hloop := mainLoop_eq (View.first (layoutOf menu rows h)) _ (keptRun_singletons _ script)
  rw [hflat] at hloop
  rw [run_eq menu rows h]
  exact hloop

/-- Two cuts of a script boot the same entry, the one its keys lead to one at a time, in all
runs whose batches keep the meaning of their keys. -/
theorem script_means_the_same (menu : Menu) (rows : Nat) (h : 2 ≤ getCount menu)
    (script : List UInt8) (cut cut' : List (List UInt8)) (hcut : cut.flatten = script)
    (hcut' : cut'.flatten = script)
    (hkept : KeptRun (View.first (layoutOf menu rows h)) cut)
    (hkept' : KeptRun (View.first (layoutOf menu rows h)) cut') :
    run menu rows cut = run menu rows cut' ∧
      run menu rows cut = bootedEntry (View.first (layoutOf menu rows h)) script := by
  have hrun : run menu rows cut = bootedEntry (View.first (layoutOf menu rows h)) script := by
    rw [run_eq menu rows h, ← hcut]
    exact mainLoop_eq _ cut hkept
  have hrun' : run menu rows cut' = bootedEntry (View.first (layoutOf menu rows h)) script := by
    rw [run_eq menu rows h, ← hcut']
    exact mainLoop_eq _ cut' hkept'
  exact ⟨hrun.trans hrun'.symm, hrun⟩

def twoEntries : Menu := (load (ascii "first|\nsecond|\n") fineLoad).2

theorem down_twice_means_the_same :
    run twoEntries 25 [ascii "jj\r"] = run twoEntries 25 [ascii "j", [], ascii "j\r"] ∧
      run twoEntries 25 [ascii "jj\r"] =
        bootedEntry (View.first (layoutOf twoEntries 25 (by decide))) (ascii "jj\r") :=
  script_means_the_same twoEntries 25 (by decide) (ascii "jj\r") _ _ rfl rfl
    (by decide) (by decide)

/-- In one batch the jump is done behind the move. -/
theorem jump_and_move_swap :
    run twoEntries 25 [ascii "1j\r"] = some 0 ∧
      run twoEntries 25 [ascii "1", ascii "j", ascii "\r"] = some 1 ∧
      [ascii "1j\r"].flatten = [ascii "1", ascii "j", ascii "\r"].flatten ∧
      2 ≤ getCount twoEntries := by
  decide

end RapiBootloader.MenuScript
