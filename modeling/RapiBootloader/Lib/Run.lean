import Mathlib.Data.Option.Basic
import Mathlib.Data.List.Basic
import Mathlib.Data.List.Induction

namespace RapiBootloader.Lib.Run

variable {S E : Type} {step : S → E → Option S}

/-- Let the events happen one after the other. The result is `none` when one of
them is not enabled in the state it meets. -/
def run (step : S → E → Option S) (s : S) : List E → Option S
  | [] => some s
  | e :: es => (step s e).bind (fun t => run step t es)

theorem run_cons_some {s u : S} {e : E} {es : List E} :
    run step s (e :: es) = some u ↔ ∃ t, step s e = some t ∧ run step t es = some u := by
  simp [run, Option.bind_eq_some_iff]

theorem run_append_some {s u : S} {es fs : List E} :
    run step s (es ++ fs) = some u ↔ ∃ t, run step s es = some t ∧ run step t fs = some u := by
  induction es generalizing s with
  | nil => simp [run]
  | cons e es ih =>
    rw [List.cons_append, run_cons_some]
    constructor
    · rintro ⟨t, ht, hu⟩
      obtain ⟨v, hv, hw⟩ := ih.mp hu
      exact ⟨v, run_cons_some.mpr ⟨t, ht, hv⟩, hw⟩
    · rintro ⟨v, hv, hw⟩
      obtain ⟨t, ht, hv⟩ := run_cons_some.mp hv
      exact ⟨t, ht, ih.mpr ⟨v, hv, hw⟩⟩

/-- Every event of the run satisfies `P` in the state in which it happens. -/
def Along (step : S → E → Option S) (P : S → E → Prop) (s : S) : List E → Prop
  | [] => True
  | e :: es => P s e ∧ ∀ t, step s e = some t → Along step P t es

def decideAlong (step : S → E → Option S) (P : S → E → Prop) [∀ s e, Decidable (P s e)] :
    ∀ (es : List E) (s : S), Decidable (Along step P s es)
  | [], _ => .isTrue trivial
  | e :: es, s =>
    if hp : P s e then
      match hs : step s e with
      | none => .isTrue ⟨hp, fun t ht => by rw [hs] at ht; cases ht⟩
      | some t =>
        match decideAlong step P es t with
        | .isTrue h => .isTrue ⟨hp, fun u hu => by rw [hs] at hu; cases hu; exact h⟩
        | .isFalse h => .isFalse (fun ha => h (ha.2 t hs))
    else .isFalse (fun ha => hp ha.1)

instance (P : S → E → Prop) [∀ s e, Decidable (P s e)] (s : S) (es : List E) :
    Decidable (Along step P s es) := decideAlong step P es s

/-- What the start satisfies and every step of the run keeps holds at its end. -/
theorem run_invariant {P : S → E → Prop} {I : S → Prop}
    (keep : ∀ s e t, I s → P s e → step s e = some t → I t)
    {s t : S} {es : List E} (hs : I s) (ha : Along step P s es)
    (hr : run step s es = some t) : I t := by
  induction es generalizing s with
  | nil =>
    cases hr
    exact hs
  | cons e es ih =>
    obtain ⟨u, hu, ht⟩ := run_cons_some.mp hr
    exact ih (keep s e u hs ha.1 hu) (ha.2 u hu) ht

theorem along_of_forall {P : S → E → Prop} {es : List E} (h : ∀ e ∈ es, ∀ s, P s e) (s : S) :
    Along step P s es := by
  induction es generalizing s with
  | nil => trivial
  | cons e es ih =>
    exact ⟨h e List.mem_cons_self s, fun t _ => ih (fun e he => h e (List.mem_cons_of_mem _ he)) t⟩

theorem along_true (s : S) (es : List E) : Along step (fun _ _ => True) s es := by
  induction es generalizing s with
  | nil => trivial
  | cons e es ih => exact ⟨trivial, fun t _ => ih t⟩

theorem run_invariant_all {I : S → Prop} (keep : ∀ s e t, I s → step s e = some t → I t)
    {s t : S} {es : List E} (hs : I s) (hr : run step s es = some t) : I t :=
  run_invariant (P := fun _ _ => True) (fun s e t h _ => keep s e t h) hs (along_true s es) hr

theorem run_concat {s t u : S} {es : List E} {e : E} (h : run step s es = some t)
    (he : step t e = some u) : run step s (es ++ [e]) = some u :=
  run_append_some.mpr ⟨t, h, run_cons_some.mpr ⟨u, he, rfl⟩⟩

/-- A run is a run of the machine that does what each of its steps looks like. -/
theorem run_map {T F : Type} {look : T → F → Option T} {f : S → T} {g : E → F}
    (simulates : ∀ s e t, step s e = some t → look (f s) (g e) = some (f t)) {s t : S}
    {es : List E} (hr : run step s es = some t) : run look (f s) (es.map g) = some (f t) := by
  induction es generalizing s with
  | nil =>
    cases hr
    rfl
  | cons e es ih =>
    obtain ⟨u, hu, ht⟩ := run_cons_some.mp hr
    exact run_cons_some.mpr ⟨f u, simulates s e u hu, ih ht⟩

theorem along_map {T F : Type} {look : T → F → Option T} {f : S → T} {g : E → F}
    {Q : T → F → Prop}
    (simulates : ∀ s e t, step s e = some t → look (f s) (g e) = some (f t)) {s : S}
    {es : List E} (h : Along look Q (f s) (es.map g)) :
    Along step (fun s e => Q (f s) (g e)) s es := by
  induction es generalizing s with
  | nil => trivial
  | cons e es ih => exact ⟨h.1, fun t ht => ih (h.2 (f t) (simulates s e t ht))⟩

theorem Along.and {P Q : S → E → Prop} {s : S} {es : List E} (hp : Along step P s es)
    (hq : Along step Q s es) : Along step (fun s e => P s e ∧ Q s e) s es := by
  induction es generalizing s with
  | nil => trivial
  | cons e es ih => exact ⟨⟨hp.1, hq.1⟩, fun t ht => ih (hp.2 t ht) (hq.2 t ht)⟩

/-- What a step keeps of the whole history so far holds of every history. -/
theorem run_history {H : List E → S → Prop} {s : S}
    (keep : ∀ es t e u, run step s es = some t → H es t → step t e = some u → H (es ++ [e]) u)
    (start : H [] s) {t : S} {es : List E} (hr : run step s es = some t) : H es t := by
  induction es using List.reverseRecOn generalizing t with
  | nil =>
    cases hr
    exact start
  | append_singleton es e ih =>
    obtain ⟨u, hu, ht⟩ := run_append_some.mp hr
    obtain ⟨v, hv, hend⟩ := run_cons_some.mp ht
    cases hend
    exact keep es u e _ hu (ih hu) hv

def Throughout (step : S → E → Option S) (I : S → Prop) (s : S) : List E → Prop
  | [] => I s
  | e :: es => I s ∧ ∀ t, step s e = some t → Throughout step I t es

/-- If a step keeps `I` just when it satisfies `P`, then a run that can go on has `I` throughout
just when all its steps satisfy `P`. -/
theorem throughout_iff_along {P : S → E → Prop} {I : S → Prop}
    (enabled : ∀ s e, (step s e).isSome = true)
    (keep : ∀ s e t, I s → step s e = some t → (I t ↔ P s e)) {s : S} (hs : I s) (es : List E) :
    Throughout step I s es ↔ Along step P s es := by
  have start : ∀ {s : S} {es : List E}, Throughout step I s es → I s := by
    intro s es h
    cases es with
    | nil => exact h
    | cons e es => exact h.1
  induction es generalizing s with
  | nil => exact ⟨fun _ => trivial, fun _ => hs⟩
  | cons e es ih =>
    obtain ⟨t, ht⟩ := Option.isSome_iff_exists.mp (enabled s e)
    constructor
    · rintro ⟨-, hrest⟩
      have hall := hrest t ht
      refine ⟨(keep s e t hs ht).mp (start hall), fun u hu => ?_⟩
      rw [ht, Option.some.injEq] at hu
      subst hu
      exact (ih (start hall)).mp hall
    · rintro ⟨hp, hrest⟩
      refine ⟨hs, fun u hu => ?_⟩
      rw [ht, Option.some.injEq] at hu
      subst hu
      exact (ih ((keep s e t hs ht).mpr hp)).mpr (hrest t ht)

theorem along_append {P : S → E → Prop} {s t : S} {es fs : List E} (h : run step s es = some t) :
    Along step P s (es ++ fs) ↔ Along step P s es ∧ Along step P t fs := by
  induction es generalizing s with
  | nil =>
    cases h
    simp [Along]
  | cons e es ih =>
    obtain ⟨u, hu, ht⟩ := run_cons_some.mp h
    simp [Along, hu, ih ht, and_assoc]

theorem exists_of_not_along {P : S → E → Prop} {s : S} {es : List E}
    (h : ¬ Along step P s es) :
    ∃ pre e post t, es = pre ++ e :: post ∧ run step s pre = some t ∧ ¬ P t e := by
  induction es generalizing s with
  | nil => exact absurd trivial h
  | cons e es ih =>
    by_cases hp : P s e
    · have hrest : ∃ t, step s e = some t ∧ ¬ Along step P t es := by
        by_contra hne
        refine h ⟨hp, fun t ht => ?_⟩
        by_contra hnt
        exact hne ⟨t, ht, hnt⟩
      obtain ⟨t, ht, hnt⟩ := hrest
      obtain ⟨pre, f, post, u, rfl, hu, hf⟩ := ih hnt
      exact ⟨e :: pre, f, post, u, rfl, run_cons_some.mpr ⟨t, ht, hu⟩, hf⟩
    · exact ⟨[], e, es, s, rfl, rfl, hp⟩

end RapiBootloader.Lib.Run
