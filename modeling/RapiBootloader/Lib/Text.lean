import Mathlib.Data.List.DropRight

namespace RapiBootloader.Lib.Text

variable {α : Type}

def trim (p : α → Bool) (xs : List α) : List α := (xs.dropWhile p).rdropWhile p

theorem rdropWhile_append (p : α → Bool) (xs ys : List α) :
    (xs ++ ys).rdropWhile p =
      if ys.rdropWhile p = [] then xs.rdropWhile p else xs ++ ys.rdropWhile p := by
  induction ys using List.reverseRecOn generalizing xs with
  | nil => simp
  | append_singleton ys y ih =>
    rw [← List.append_assoc, List.rdropWhile_concat, List.rdropWhile_concat]
    by_cases hy : p y = true
    · rw [if_pos hy, if_pos hy]
      exact ih xs
    · rw [if_neg hy, if_neg hy, if_neg (by simp), List.append_assoc]

theorem dropWhile_append_cons (p : α → Bool) (xs : List α) (c : α) (ys : List α)
    (hc : p c = false) : (xs ++ c :: ys).dropWhile p = xs.dropWhile p ++ c :: ys := by
  induction xs with
  | nil => simp [hc]
  | cons x xs ih =>
    by_cases hx : p x = true
    · rw [List.cons_append, List.dropWhile_cons_of_pos hx, List.dropWhile_cons_of_pos hx]
      exact ih
    · rw [List.cons_append, List.dropWhile_cons_of_neg hx, List.dropWhile_cons_of_neg hx]
      rfl

theorem rdropWhile_append_cons (p : α → Bool) (xs : List α) (c : α) (ys : List α)
    (hc : p c = false) : (xs ++ c :: ys).rdropWhile p = xs ++ c :: ys.rdropWhile p := by
  have hcons : (c :: ys).rdropWhile p = c :: ys.rdropWhile p := by
    rw [← List.singleton_append, rdropWhile_append]
    split
    · rename_i hy
      simp [List.rdropWhile_singleton, hc, hy]
    · rfl
  rw [rdropWhile_append, hcons, if_neg (List.cons_ne_nil _ _)]

theorem trim_append_cons (p : α → Bool) (xs : List α) (c : α) (ys : List α) (hc : p c = false) :
    trim p (xs ++ c :: ys) = xs.dropWhile p ++ c :: ys.rdropWhile p := by
  rw [trim, dropWhile_append_cons p xs c ys hc, rdropWhile_append_cons p _ c ys hc]

theorem dropWhile_rdropWhile (p : α → Bool) (xs : List α) :
    (xs.rdropWhile p).dropWhile p = trim p xs := by
  induction xs with
  | nil => rfl
  | cons x xs ih =>
    by_cases hx : p x = true
    · have ht : trim p (x :: xs) = trim p xs := by
        rw [trim, List.dropWhile_cons_of_pos hx, trim]
      have hr : (x :: xs).rdropWhile p =
          if xs.rdropWhile p = [] then [] else x :: xs.rdropWhile p := by
        rw [← List.singleton_append, rdropWhile_append, List.rdropWhile_singleton, if_pos hx,
          List.singleton_append]
      rw [ht, hr, ← ih]
      split
      · rename_i hnil
        rw [hnil]
      · rw [List.dropWhile_cons_of_pos hx]
    · have hc : p x = false := Bool.eq_false_iff.mpr hx
      have hr := rdropWhile_append_cons p [] x xs hc
      have ht := trim_append_cons p [] x xs hc
      rw [List.nil_append, List.nil_append] at hr
      rw [List.nil_append, List.dropWhile_nil, List.nil_append] at ht
      rw [hr, ht, List.dropWhile_cons_of_neg hx]

theorem trim_trim (p : α → Bool) (xs : List α) : trim p (trim p xs) = trim p xs := by
  have hleft : (trim p xs).dropWhile p = trim p xs := by
    rw [← dropWhile_rdropWhile]
    exact List.dropWhile_idempotent p (xs.rdropWhile p)
  have hright : (trim p xs).rdropWhile p = trim p xs :=
    List.rdropWhile_idempotent p (xs.dropWhile p)
  rw [trim, hleft, hright]

theorem trim_prefix (p : α → Bool) (xs ys : List α) : trim p xs <+: trim p (xs ++ ys) := by
  cases hd : xs.dropWhile p with
  | nil =>
    rw [trim, hd, List.rdropWhile_nil]
    exact List.nil_prefix
  | cons c rest =>
    have happ : (xs ++ ys).dropWhile p = (c :: rest) ++ ys := by
      rw [List.dropWhile_append, hd]
      rfl
    rw [trim, trim, hd, happ, rdropWhile_append]
    split
    · exact List.prefix_refl _
    · exact (List.rdropWhile_prefix p _).trans (List.prefix_append _ _)

theorem trim_subset (p : α → Bool) (xs : List α) : trim p xs ⊆ xs :=
  fun _ h => (List.dropWhile_subset p) ((List.rdropWhile_prefix p _).subset h)

/-- Splitting what is joined splits both parts, but for the one item on the seam. -/
theorem splitOn_append [BEq α] (c : α) (xs ys : List α) :
    ∃ init x y tail, xs.splitOn c = init ++ [x] ∧ ys.splitOn c = y :: tail ∧
      (xs ++ ys).splitOn c = init ++ (x ++ y) :: tail := by
  induction xs with
  | nil =>
    obtain ⟨y, tail, hy⟩ := List.exists_cons_of_ne_nil (List.splitOn_ne_nil c ys)
    exact ⟨[], [], y, tail, List.splitOn_nil c, hy, hy⟩
  | cons a xs ih =>
    obtain ⟨init, x, y, tail, hx, hy, hxy⟩ := ih
    rw [List.cons_append, List.splitOn_cons_eq_if_modifyHead, List.splitOn_cons_eq_if_modifyHead,
      hx, hxy]
    by_cases ha : (a == c) = true
    · rw [if_pos ha, if_pos ha]
      exact ⟨[] :: init, x, y, tail, rfl, hy, rfl⟩
    · rw [if_neg ha, if_neg ha]
      cases init with
      | nil => exact ⟨[], a :: x, y, tail, rfl, hy, rfl⟩
      | cons i init => exact ⟨(a :: i) :: init, x, y, tail, rfl, hy, rfl⟩

theorem mem_splitOn_cons [BEq α] {c a : α} {xs ys : List α} (h : ys ∈ (a :: xs).splitOn c) :
    ys = [] ∨ ys ∈ xs.splitOn c ∨ ¬ (a == c) = true ∧ ∃ x ∈ xs.splitOn c, ys = a :: x := by
  rw [List.splitOn_cons_eq_if_modifyHead] at h
  split at h
  · obtain hnil | hm := List.mem_cons.mp h
    · exact Or.inl hnil
    · exact Or.inr (Or.inl hm)
  · rename_i hne
    obtain ⟨x, tail, hx⟩ := List.exists_cons_of_ne_nil (List.splitOn_ne_nil c xs)
    rw [hx, List.modifyHead_cons] at h
    rw [hx]
    obtain hhead | hm := List.mem_cons.mp h
    · exact Or.inr (Or.inr ⟨hne, x, List.mem_cons_self, hhead⟩)
    · exact Or.inr (Or.inl (List.mem_cons_of_mem x hm))

theorem splitOn_subset [BEq α] (c : α) (xs : List α) : ∀ ys ∈ xs.splitOn c, ys ⊆ xs := by
  induction xs with
  | nil => simp
  | cons a xs ih =>
    intro ys hys
    obtain rfl | hm | ⟨-, x, hx, rfl⟩ := mem_splitOn_cons hys
    · exact List.nil_subset _
    · exact List.subset_cons_of_subset a (ih ys hm)
    · exact List.cons_subset_cons a (ih x hx)

theorem notMem_of_mem_splitOn [BEq α] [LawfulBEq α] (c : α) (xs : List α) :
    ∀ ys ∈ xs.splitOn c, c ∉ ys := by
  induction xs with
  | nil => simp
  | cons a xs ih =>
    intro ys hys
    obtain rfl | hm | ⟨hne, x, hx, rfl⟩ := mem_splitOn_cons hys
    · exact List.not_mem_nil
    · exact ih ys hm
    · apply List.not_mem_cons_of_ne_of_not_mem
      · exact fun hc => hne (beq_iff_eq.mpr hc.symm)
      · exact ih x hx

theorem intercalate_sublist (c : α) {xss yss : List (List α)} (h : xss.Sublist yss) :
    ([c].intercalate xss).Sublist ([c].intercalate yss) := by
  induction h with
  | slnil => exact List.Sublist.refl _
  | cons ys h ih =>
    rename_i xss yss
    cases yss with
    | nil =>
      cases List.sublist_nil.mp h
      exact List.nil_sublist _
    | cons zs yss =>
      rw [List.intercalate_cons_cons]
      exact ih.trans (List.sublist_append_right _ _)
  | cons_cons ys h ih =>
    rename_i xss yss
    cases xss with
    | nil =>
      cases yss with
      | nil => exact List.Sublist.refl _
      | cons zs yss =>
        rw [List.intercalate_cons_cons, List.intercalate_singleton, List.append_assoc]
        exact List.sublist_append_left _ _
    | cons xs xss =>
      obtain ⟨zs, yss, rfl⟩ := List.exists_cons_of_ne_nil
        (fun hnil => List.cons_ne_nil xs xss (List.sublist_nil.mp (hnil ▸ h)))
      rw [List.intercalate_cons_cons, List.intercalate_cons_cons]
      exact (List.Sublist.refl _).append ih

end RapiBootloader.Lib.Text
