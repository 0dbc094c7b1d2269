import Mathlib.Data.List.Basic
import Mathlib.Logic.Function.Basic

/- Nodes that publish messages and send each of them to some of the others,
over one channel for each ordered pair that keeps the order: what a node has
got from another and what is still in flight make up what was sent. -/

namespace Fanout
universe u v
variable {ι : Type u} {μ : Type v}

/-- `log` is what each node has published. -/
structure State (ι : Type u) (μ : Type v) where
  log : ι → List μ := fun _ => []
  flight : ι → ι → List μ := fun _ _ => []
  got : ι → ι → List μ := fun _ _ => []

/-- Nothing sent is lost, reordered or repeated. -/
def Sound (sends : ι → ι → μ → Bool) (s : State ι μ) : Prop :=
  ∀ i j, s.got i j ++ s.flight i j = (s.log i).filter (sends i j)

theorem Sound.initial {sends : ι → ι → μ → Bool} : Sound sends ({} : State ι μ) := fun _ _ => rfl

/-- A channel that has run empty has brought everything that was sent. -/
theorem Sound.drained {sends : ι → ι → μ → Bool} {s : State ι μ} (sound : Sound sends s) {i j : ι}
    (empty : s.flight i j = []) : s.got i j = (s.log i).filter (sends i j) := by
  rw [← sound i j, empty, List.append_nil]

variable [DecidableEq ι] {sends : ι → ι → μ → Bool} {s : State ι μ}

def publish (sends : ι → ι → μ → Bool) (s : State ι μ) (i : ι) (m : μ) : State ι μ where
  log := fun k => if k = i then s.log k ++ [m] else s.log k
  flight := fun k j => if k = i ∧ sends i j m then s.flight k j ++ [m] else s.flight k j
  got := s.got

/-- The oldest message in flight arrives. -/
def deliver (s : State ι μ) (i j : ι) : State ι μ where
  log := s.log
  flight := fun a b => if a = i ∧ b = j then (s.flight i j).tail else s.flight a b
  got := fun a b => if a = i ∧ b = j then s.got i j ++ (s.flight i j).head?.toList else s.got a b

theorem Sound.publish (sound : Sound sends s) (i : ι) (m : μ) : Sound sends (publish sends s i m) := by
  intro a b
  have before := sound a b
  by_cases here : a = i
  · subst here
    simp only [Fanout.publish, true_and, if_true, List.filter_append, ← before]
    by_cases sent : sends a b m = true
    · rw [if_pos sent, List.filter_cons_of_pos sent, List.filter_nil, List.append_assoc]
    · rw [if_neg sent, List.filter_cons_of_neg sent, List.filter_nil, List.append_nil]
  · simp only [Fanout.publish, here, false_and, if_false, before]

theorem Sound.deliver (sound : Sound sends s) (i j : ι) : Sound sends (deliver s i j) := by
  intro a b
  by_cases here : a = i ∧ b = j
  · obtain ⟨rfl, rfl⟩ := here
    have before := sound a b
    simp only [Fanout.deliver, and_self, if_true]
    rw [← before]
    cases s.flight a b with
    | nil => simp
    | cons first rest => simp
  · simp only [Fanout.deliver, if_neg here, sound a b]

end Fanout
