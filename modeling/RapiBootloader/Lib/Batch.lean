import Mathlib.Data.List.Basic

namespace RapiBootloader.Lib.Batch

variable {α : Type}

/-- A file that is written through a buffer. -/
structure Writer (α : Type) where
  file : List α
  buffer : List α
  failed : Bool

def Writer.empty : Writer α := ⟨[], [], false⟩

/-- One move of a writer whose buffer has room for `cap` elements, and what it takes in. A flush
that fails may have written some of the buffer, and is the last move. -/
inductive Move (cap : Nat) (w : Writer α) : List α → Writer α → Prop
  | take (xs : List α) (hok : w.failed = false) (hfit : w.buffer.length + xs.length ≤ cap) :
      Move cap w xs ⟨w.file, w.buffer ++ xs, false⟩
  | flush (hok : w.failed = false) : Move cap w [] ⟨w.file ++ w.buffer, [], false⟩
  | fail (k : Nat) (hok : w.failed = false) :
      Move cap w [] ⟨w.file ++ w.buffer.take k, [], true⟩

inductive Moves (cap : Nat) (w : Writer α) : List α → Writer α → Prop
  | refl : Moves cap w [] w
  | step {v u : Writer α} {xs ys : List α} (h : Moves cap w xs v) (hm : Move cap v ys u) :
      Moves cap w (xs ++ ys) u

theorem Move.moves {cap : Nat} {w v : Writer α} {xs : List α} (h : Move cap w xs v) :
    Moves cap w xs v := by
  have hmoves := Moves.step (@Moves.refl _ cap w) h
  rwa [List.nil_append] at hmoves

theorem Moves.trans {cap : Nat} {w v u : Writer α} {xs ys : List α} (h : Moves cap w xs v)
    (h' : Moves cap v ys u) : Moves cap w (xs ++ ys) u := by
  induction h' with
  | refl => rwa [List.append_nil]
  | step _ hm ih =>
    rw [← List.append_assoc]
    exact ih.step hm

/-- The writer has done what appending these elements does, as far as nothing has failed. -/
structure Appends (cap : Nat) (w : Writer α) (xs : List α) : Prop where
  room : w.buffer.length ≤ cap
  whole : w.failed = false → w.file ++ w.buffer = xs
  part : w.file <+: xs

theorem appends_empty (cap : Nat) : Appends cap (Writer.empty : Writer α) [] :=
  ⟨Nat.zero_le cap, fun _ => rfl, List.nil_prefix⟩

theorem Appends.move {cap : Nat} {w v : Writer α} {xs ys : List α} (h : Appends cap w xs)
    (hm : Move cap w ys v) : Appends cap v (xs ++ ys) := by
  cases hm with
  | take ys hok hfit =>
    refine ⟨by rwa [List.length_append], fun _ => ?_, h.part.trans (List.prefix_append xs ys)⟩
    rw [← List.append_assoc, h.whole hok]
  | flush hok =>
    have hwhole := h.whole hok
    rw [List.append_nil]
    refine ⟨Nat.zero_le cap, fun _ => ?_, ?_⟩
    · rw [List.append_nil, hwhole]
    · exact hwhole ▸ List.prefix_refl _
  | fail k hok =>
    rw [List.append_nil, ← h.whole hok]
    refine ⟨Nat.zero_le cap, fun hfail => Bool.noConfusion hfail, ?_⟩
    exact (List.prefix_append_right_inj w.file).mpr (List.take_prefix k w.buffer)

/-- However a writer goes about it, it appends what it takes in. -/
theorem Appends.moves {cap : Nat} {w v : Writer α} {xs ys : List α} (h : Appends cap w xs)
    (hm : Moves cap w ys v) : Appends cap v (xs ++ ys) := by
  induction hm with
  | refl => rwa [List.append_nil]
  | step _ hm ih =>
    rw [← List.append_assoc]
    exact ih.move hm

theorem Moves.appends {cap : Nat} {w : Writer α} {xs : List α}
    (h : Moves cap Writer.empty xs w) : Appends cap w xs :=
  (appends_empty cap).moves h

end RapiBootloader.Lib.Batch
