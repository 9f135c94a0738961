import Mathlib.Data.List.Basic

namespace RapiBootloader.Lib.Logs

variable {α : Type} {p q : α → Prop} {log log' log'' : List α}

def Extends (p : α → Prop) (log log' : List α) : Prop :=
  ∃ more, log' = log ++ more ∧ ∀ c ∈ more, p c

theorem Extends.refl (log : List α) : Extends p log log :=
  ⟨[], (List.append_nil log).symm, fun _ hc => absurd hc List.not_mem_nil⟩

theorem Extends.trans (h : Extends p log log') (h' : Extends p log' log'') :
    Extends p log log'' := by
  obtain ⟨more, rfl, hmore⟩ := h
  obtain ⟨more', rfl, hmore'⟩ := h'
  exact ⟨more ++ more', List.append_assoc _ _ _, List.forall_mem_append.mpr ⟨hmore, hmore'⟩⟩

theorem Extends.concat (h : Extends p log log') {c : α} (hc : p c) :
    Extends p log (log' ++ [c]) :=
  h.trans ⟨[c], rfl, List.forall_mem_singleton.mpr hc⟩

theorem Extends.imp (h : Extends p log log') (hpq : ∀ c, p c → q c) : Extends q log log' := by
  obtain ⟨more, heq, hmore⟩ := h
  exact ⟨more, heq, fun c hc => hpq c (hmore c hc)⟩

end RapiBootloader.Lib.Logs
