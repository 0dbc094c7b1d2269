import Mathlib.Data.List.Basic

/- Pieces of a buffer that arrive one after the other, each with the place
where it begins: which places they fill, and what a buffer into which they
are copied in turn holds there. -/

namespace Chunks
universe u
variable {α : Type u}

/-- The place `i` lies in the piece. -/
def Fills (chunk : Nat × List α) (i : Nat) : Prop := chunk.1 ≤ i ∧ i < chunk.1 + chunk.2.length

instance (chunk : Nat × List α) (i : Nat) : Decidable (Fills chunk i) := inferInstanceAs (Decidable (_ ∧ _))

/-- The pieces fill the first `n` places between them. -/
def Whole (n : Nat) (chunks : List (Nat × List α)) : Prop := ∀ i < n, ∃ chunk ∈ chunks, Fills chunk i

instance (n : Nat) (chunks : List (Nat × List α)) : Decidable (Whole n chunks) :=
  inferInstanceAs (Decidable (∀ i < n, ∃ chunk ∈ chunks, Fills chunk i))

/-- What the last piece that fills the place has there. -/
def latest (chunks : List (Nat × List α)) (i : Nat) : Option α :=
  ((chunks.filter (fun chunk => Fills chunk i)).getLast?).bind (fun chunk => chunk.2[i - chunk.1]?)

theorem latest_concat {chunks : List (Nat × List α)} {chunk : Nat × List α} {i : Nat} :
    latest (chunks ++ [chunk]) i = if Fills chunk i then chunk.2[i - chunk.1]? else latest chunks i := by
  unfold latest
  rw [List.filter_append, List.filter_cons, List.filter_nil]
  by_cases here : Fills chunk i
  · rw [if_pos here, if_pos (decide_eq_true here), List.getLast?_concat]
    rfl
  · rw [if_neg here, if_neg (by rwa [decide_eq_true_eq]), List.append_nil]

theorem exists_fills_concat {chunks : List (Nat × List α)} {chunk : Nat × List α} {i : Nat} :
    (∃ c ∈ chunks ++ [chunk], Fills c i) ↔ Fills chunk i ∨ ∃ c ∈ chunks, Fills c i := by
  simp only [List.mem_append, List.mem_singleton, or_and_right, exists_or, exists_eq_left]
  exact Or.comm

end Chunks
