import Mathlib.Algebra.BigOperators.Group.Finset.Piecewise
import Mathlib.Algebra.Order.BigOperators.Group.Finset
import Mathlib.Algebra.Ring.Nat

/- Sums that are kept up to date: over the entries of a list and what each
entry contributes, and over a family of which one member changes. -/

namespace Tally
open BigOperators

/-- What is asked for entry by entry, when each entry pays for its own. -/
theorem length_filterMap_pays {α β : Type} {after before : α → Nat} {asks : α → Option β} {entries : List α}
    (each : ∀ entry ∈ entries, after entry + (asks entry).toList.length ≤ before entry) :
    (entries.map after).sum + (entries.filterMap asks).length ≤ (entries.map before).sum := by
  induction entries with
  | nil => exact Nat.le_refl _
  | cons entry rest ih =>
    obtain ⟨here, later⟩ := List.forall_mem_cons.mp each
    have tail := ih later
    rw [List.map_cons, List.map_cons, List.sum_cons, List.sum_cons, List.filterMap_cons]
    cases asked : asks entry with
    | none =>
      rw [asked] at here
      dsimp only
      omega
    | some _ =>
      rw [asked, Option.toList_some, List.length_singleton] at here
      dsimp only [List.length_cons]
      omega

theorem sum_flatMap {α : Type} (f : α → List Nat) (entries : List α) :
    (entries.flatMap f).sum = (entries.map (fun entry => (f entry).sum)).sum := by
  induction entries with
  | nil => rfl
  | cons entry rest ih => rw [List.flatMap_cons, List.sum_append_nat, ih, List.map_cons, List.sum_cons]

theorem length_flatMap_le {α β : Type} {f : α → List β} {n : Nat} {entries : List α}
    (each : ∀ entry ∈ entries, (f entry).length ≤ n) : (entries.flatMap f).length ≤ entries.length * n := by
  induction entries with
  | nil => exact Nat.zero_le _
  | cons entry rest ih =>
    obtain ⟨here, later⟩ := List.forall_mem_cons.mp each
    rw [List.flatMap_cons, List.length_append, List.length_cons, Nat.succ_mul, Nat.add_comm]
    exact Nat.add_le_add (ih later) here

theorem length_flatMap_filter_le {α β : Type} {keep : α → Bool} {f : α → List β} {size : α → Nat} {entries : List α}
    (each : ∀ entry, (f entry).length ≤ size entry) :
    ((entries.filter keep).flatMap f).length ≤ (entries.map size).sum := by
  induction entries with
  | nil => exact Nat.zero_le _
  | cons entry rest ih =>
    rw [List.filter_cons, List.map_cons, List.sum_cons]
    split
    · rw [List.flatMap_cons, List.length_append]
      exact Nat.add_le_add (each entry) ih
    · exact ih.trans (Nat.le_add_left ..)

theorem sum_update {ι α : Type} [DecidableEq ι] [Fintype ι] (size : α → Nat) (party : ι → α) (i : ι) (next : α) :
    (∑ j, size (Function.update party i next j)) + size (party i) = (∑ j, size (party j)) + size next := by
  have moved : (fun j => size (Function.update party i next j)) = Function.update (fun j => size (party j)) i (size next) :=
    Function.comp_update size party i next
  rw [moved, Finset.sum_update_of_mem (Finset.mem_univ i), Finset.sdiff_singleton_eq_erase,
    ← Finset.add_sum_erase Finset.univ (fun j => size (party j)) (Finset.mem_univ i)]
  omega

end Tally
