import Mathlib.Algebra.BigOperators.Group.Finset.Basic
import Mathlib.Data.Fintype.Basic
import Mdds.Lib.Run

/- Components that share one resource. An action is taken by one component, in
one step with what it does to the resource. -/

structure Shared.{u, v, w} (ι : Type u) (σ : Type v) (γ : Type w) where
  resource : γ
  part : ι → σ

namespace Shared
universe u v w x y z
variable {ι : Type u} {σ : Type v} {γ : Type w} {α : Type x} {β : Type y} {κ : Type z} [DecidableEq ι]
  (act : σ → γ → α → σ × γ)

def step (s : Shared ι σ γ) (event : ι × α) : Shared ι σ γ where
  resource := (act (s.part event.1) s.resource event.2).2
  part := Function.update s.part event.1 (act (s.part event.1) s.resource event.2).1

/-- What one component emits along a run. -/
def log (out : σ → α → List β) (i : ι) : Shared ι σ γ → List (ι × α) → List β :=
  Run.log (step act) (fun s event => if event.1 = i then out (s.part i) event.2 else [])

theorem step_part_self (s : Shared ι σ γ) (i : ι) (action : α) :
    (step act s (i, action)).part i = (act (s.part i) s.resource action).1 := Function.update_self ..

theorem step_part_other (s : Shared ι σ γ) {i j : ι} (other : j ≠ i) (action : α) :
    (step act s (i, action)).part j = s.part j := Function.update_of_ne other ..

/-- An invariant of one component and of all it has emitted so far, kept by
its own admitted actions, holds along every run that takes only these. -/
theorem part_invariant (out : κ → σ → α → List β) {ok : α → Prop} {inv : σ → (κ → List β) → Prop} {i : ι}
    {s : Shared ι σ γ}
    (kept : ∀ part resource action emitted, ok action → inv part emitted →
      inv (act part resource action).1 (fun kind => emitted kind ++ out kind part action))
    (initially : inv (s.part i) (fun _ => [])) {events : List (ι × α)}
    (admitted : ∀ action, (i, action) ∈ events → ok action) :
    inv ((Run.exec (step act) s events).part i) (fun kind => log act (out kind) i s events) := by
  induction events using List.reverseRecOn with
  | nil => exact initially
  | append_singleton events event ih =>
    obtain ⟨j, action⟩ := event
    have before := ih (fun action member => admitted action (List.mem_append_left _ member))
    simp only [Run.exec_snoc, log, Run.log_snoc]
    by_cases own : j = i
    · subst own
      simp only [step_part_self, if_true]
      exact kept _ _ _ _ (admitted action (List.mem_append_right _ List.mem_cons_self)) before
    · simp only [step_part_other act _ (Ne.symm own), if_neg own, List.append_nil]
      exact before

section Sums
open Finset
variable [Fintype ι]

/-- A sum over all components changes by what the acting one changes. -/
theorem sum_step (weight : σ → Nat) (s : Shared ι σ γ) (i : ι) (action : α) :
    ∑ j, weight ((step act s (i, action)).part j) + weight (s.part i) =
      ∑ j, weight (s.part j) + weight (act (s.part i) s.resource action).1 := by
  have others : ∑ j ∈ univ.erase i, weight ((step act s (i, action)).part j) = ∑ j ∈ univ.erase i, weight (s.part j) :=
    sum_congr rfl (fun j member => by rw [step_part_other act s (ne_of_mem_erase member)])
  rw [← add_sum_erase univ (fun j => weight ((step act s (i, action)).part j)) (mem_univ i),
    ← add_sum_erase univ (fun j => weight (s.part j)) (mem_univ i), others, step_part_self]
  omega

theorem weight_le_sum (weight : σ → Nat) (s : Shared ι σ γ) (i : ι) : weight (s.part i) ≤ ∑ j, weight (s.part j) :=
  Nat.le.intro (add_sum_erase univ (fun j => weight (s.part j)) (mem_univ i))

/-- A level of the resource that moves with the weight of the acting component
stays the sum of all weights. -/
theorem level_step (weight : σ → Nat) (level : γ → Nat) {s : Shared ι σ γ} {i : ι} {action : α}
    (moves : level (act (s.part i) s.resource action).2 + weight (s.part i) =
      level s.resource + weight (act (s.part i) s.resource action).1)
    (exact : level s.resource = ∑ j, weight (s.part j)) :
    level (step act s (i, action)).resource = ∑ j, weight ((step act s (i, action)).part j) := by
  have total := sum_step act weight s i action
  have same : level (step act s (i, action)).resource = level (act (s.part i) s.resource action).2 := rfl
  omega

end Sums

end Shared
