import Mathlib.Data.List.Chain
import Mathlib.Data.List.Infix
import Mathlib.Data.List.Sort

namespace RapiBootloader.Lib.Directories

variable {N : Type}

/-- The directories above an entry of a tree, without the root, the outermost first. An entry is
named by the names on the way to it. -/
def ancestors : List N → List (List N)
  | [] => []
  | [_] => []
  | n :: m :: names => [n] :: (ancestors (m :: names)).map (n :: ·)

def Below (dir sub : List N) : Prop := ∃ n, sub = dir ++ [n]

/-- A tree with directories that come and stay: making one works if its parent exists. -/
structure DirTree (N : Type) where
  State : Type
  has : State → List N → Prop
  mkdir : State → List N → State
  root (s : State) : has s []
  keeps {s : State} {dir : List N} (made : List N) : has s dir → has (mkdir s made) dir
  makes {s : State} {dir made : List N} : Below dir made → has s dir → has (mkdir s made) made

def bareTree (N : Type) : DirTree N where
  State := List N → Prop
  has s dir := dir = [] ∨ s dir
  mkdir s made := fun dir =>
    s dir ∨ dir = made ∧ ∃ parent, Below parent made ∧ (parent = [] ∨ s parent)
  root _ := Or.inl rfl
  keeps _ h := h.imp_right Or.inl
  makes h hdir := Or.inr (Or.inr ⟨rfl, _, h, hdir⟩)

theorem ancestors_chain (names : List N) : ([] :: ancestors names).IsChain Below := by
  induction names with
  | nil => exact List.isChain_singleton []
  | cons n names ih =>
    cases names with
    | nil => exact List.isChain_singleton []
    | cons m names =>
      rw [ancestors, List.isChain_cons_cons]
      refine ⟨⟨n, rfl⟩, ?_⟩
      have hmap : [n] :: (ancestors (m :: names)).map (n :: ·) =
          ([] :: ancestors (m :: names)).map (n :: ·) := rfl
      rw [hmap, List.isChain_map]
      apply ih.imp
      rintro dir sub ⟨k, rfl⟩
      exact ⟨k, rfl⟩

theorem mem_ancestors {names dir : List N} :
    dir ∈ ancestors names ↔ dir ≠ [] ∧ ∃ more, more ≠ [] ∧ names = dir ++ more := by
  induction names generalizing dir with
  | nil =>
    refine iff_of_false List.not_mem_nil ?_
    rintro ⟨hdir, more, -, heq⟩
    exact hdir (List.append_eq_nil_iff.mp heq.symm).1
  | cons n names ih =>
    cases names with
    | nil =>
      refine iff_of_false List.not_mem_nil ?_
      rintro ⟨hdir, more, hmore, heq⟩
      obtain ⟨k, dir, rfl⟩ := List.exists_cons_of_ne_nil hdir
      exact hmore (List.append_eq_nil_iff.mp (List.cons.inj heq).2.symm).2
    | cons m names =>
      rw [ancestors, List.mem_cons, List.mem_map]
      constructor
      · rintro (rfl | ⟨sub, hsub, rfl⟩)
        · exact ⟨List.cons_ne_nil n [], m :: names, List.cons_ne_nil m names, rfl⟩
        · obtain ⟨-, more, hmore, heq⟩ := ih.mp hsub
          exact ⟨List.cons_ne_nil n sub, more, hmore, congrArg (n :: ·) heq⟩
      · rintro ⟨hdir, more, hmore, heq⟩
        obtain ⟨k, sub, rfl⟩ := List.exists_cons_of_ne_nil hdir
        obtain ⟨rfl, hnames⟩ := List.cons.inj heq
        by_cases hsub : sub = []
        · exact Or.inl (by rw [hsub])
        · exact Or.inr ⟨sub, ih.mpr ⟨hsub, more, hmore, hnames⟩, rfl⟩

theorem ancestors_pairwise (names : List N) :
    (ancestors names).Pairwise (fun dir sub => dir <+: sub ∧ dir.length < sub.length) := by
  have hstep : ∀ dir sub : List N, Below dir sub → dir <+: sub ∧ dir.length < sub.length := by
    rintro dir sub ⟨n, rfl⟩
    exact ⟨List.prefix_append dir [n], by rw [List.length_append]; exact Nat.lt_succ_self _⟩
  have : IsTrans (List N) (fun dir sub => dir <+: sub ∧ dir.length < sub.length) :=
    ⟨fun _ _ _ h h' => ⟨h.1.trans h'.1, Nat.lt_trans h.2 h'.2⟩⟩
  exact ((ancestors_chain names).imp hstep).pairwise.of_cons

theorem ancestors_sublist {names : List N} {dirs : List (List N)}
    (hdown : dirs.Pairwise (· <+: ·)) (h : ∀ dir ∈ ancestors names, dir ∈ dirs) :
    (ancestors names).Sublist dirs := by
  have hpairs := ancestors_pairwise names
  apply @List.sublist_of_subperm_of_pairwise _ (· <+: ·)
  · refine List.subperm_of_subset (hpairs.imp ?_) h
    rintro dir sub ⟨-, hlen⟩ rfl
    exact Nat.lt_irrefl _ hlen
  · exact hpairs.imp And.left
  · exact hdown

theorem DirTree.kept (t : DirTree N) (dirs : List (List N)) {s : t.State} {dir : List N}
    (h : t.has s dir) : t.has (dirs.foldl t.mkdir s) dir := by
  induction dirs generalizing s with
  | nil => exact h
  | cons made dirs ih => exact ih (t.keeps made h)

/-- Directories made each below the last all exist in the end. -/
theorem DirTree.made (t : DirTree N) {chain dirs : List (List N)} (h : chain.Sublist dirs)
    {top : List N} (hchain : (top :: chain).IsChain Below) {s : t.State} (htop : t.has s top) :
    ∀ dir ∈ chain, t.has (dirs.foldl t.mkdir s) dir := by
  induction h generalizing s top with
  | slnil => exact fun dir hdir => absurd hdir List.not_mem_nil
  | cons made h ih => exact ih hchain (t.keeps made htop)
  | cons_cons made h ih =>
    obtain ⟨hbelow, hrest⟩ := List.isChain_cons_cons.mp hchain
    have hmade := t.makes hbelow htop
    intro dir hdir
    rw [List.foldl_cons]
    obtain rfl | hdir := List.mem_cons.mp hdir
    · exact t.kept _ hmade
    · exact ih hrest hmade dir hdir

theorem bareTree_made (dirs : List (List N)) {s : List N → Prop} {dir : List N}
    (h : (bareTree N).has (dirs.foldl (bareTree N).mkdir s) dir) :
    (bareTree N).has s dir ∨ dir ∈ dirs := by
  induction dirs generalizing s with
  | nil => exact Or.inl h
  | cons made dirs ih =>
    obtain hroot | hmade := ih h
    · obtain rfl | hs | ⟨rfl, -⟩ := hroot
      · exact Or.inl (Or.inl rfl)
      · exact Or.inl (Or.inr hs)
      · exact Or.inr List.mem_cons_self
    · exact Or.inr (List.mem_cons_of_mem made hmade)

/-- The ancestors exist in every tree once all of them have been made, and not before. -/
theorem ancestors_exist_iff {names : List N} {dirs : List (List N)}
    (hdown : dirs.Pairwise (· <+: ·)) :
    (∀ (t : DirTree N) (s : t.State), ∀ dir ∈ ancestors names, t.has (dirs.foldl t.mkdir s) dir) ↔
      ∀ dir ∈ ancestors names, dir ∈ dirs := by
  constructor
  · intro h dir hdir
    obtain (hroot | hnone) | hmade := bareTree_made dirs (h (bareTree N) (fun _ => False) dir hdir)
    · exact absurd hroot (mem_ancestors.mp hdir).1
    · exact hnone.elim
    · exact hmade
  · intro h t s
    exact t.made (ancestors_sublist hdown h) (ancestors_chain names) (t.root s)

end RapiBootloader.Lib.Directories
