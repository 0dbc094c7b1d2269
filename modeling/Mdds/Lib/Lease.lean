import Mathlib.Data.List.Induction

/- A lease: renewed by some events, with the stamp they bring, and ended by
others, which look at the stamp. -/

namespace Lease
universe u v
variable {ε : Type u} {τ : Type v} (renews : ε → Option τ) (ends : ε → τ → Bool)

def step (held : Option τ) (event : ε) : Option τ :=
  match renews event with
  | some stamp => some stamp
  | none => held.filter (fun stamp => !ends event stamp)

/-- The stamp of the last renewal, as long as nothing has ended it since. -/
def Runs (events : List ε) (stamp : τ) : Prop :=
  ∃ first event rest, events = first ++ event :: rest ∧ renews event = some stamp ∧
    ∀ later ∈ rest, renews later = none ∧ ends later stamp = false

variable {renews ends}

theorem step_renew {held : Option τ} {event : ε} {stamp : τ} (renewed : renews event = some stamp) :
    step renews ends held event = some stamp := by rw [step, renewed]

theorem step_keep {held : Option τ} {event : ε} (none : renews event = none) (live : ∀ stamp, ends event stamp = false) :
    step renews ends held event = held := by
  rw [step, none]
  cases held with
  | none => rfl
  | some stamp => simp [live]

theorem runs_snoc {events : List ε} {event : ε} {stamp : τ} :
    Runs renews ends (events ++ [event]) stamp ↔
      renews event = some stamp ∨ (renews event = none ∧ ends event stamp = false) ∧ Runs renews ends events stamp := by
  constructor
  · rintro ⟨first, old, rest, split, brought, after⟩
    rcases List.eq_nil_or_concat rest with rfl | ⟨body, last, rfl⟩
    · obtain ⟨_, same⟩ := List.append_inj' split rfl
      obtain rfl := (List.cons.inj same).1
      exact Or.inl brought
    · rw [List.concat_eq_append, ← List.cons_append, ← List.append_assoc] at split
      obtain ⟨rfl, same⟩ := List.append_inj' split rfl
      obtain rfl := (List.cons.inj same).1
      exact Or.inr ⟨after event (by simp), first, old, body, rfl, brought, fun later member => after later (by simp [member])⟩
  · rintro (renewed | ⟨silent, first, old, rest, rfl, brought, after⟩)
    · exact ⟨events, event, [], rfl, renewed, fun _ member => absurd member List.not_mem_nil⟩
    · refine ⟨first, old, rest ++ [event], by simp, brought, fun later member => ?_⟩
      rcases List.mem_append.mp member with before | new
      · exact after later before
      · obtain rfl := List.mem_singleton.mp new
        exact silent

/-- A lease is held exactly as long as it runs. -/
theorem held_iff (events : List ε) (stamp : τ) :
    events.foldl (step renews ends) none = some stamp ↔ Runs renews ends events stamp := by
  induction events using List.reverseRecOn with
  | nil =>
    refine iff_of_false (by simp) ?_
    rintro ⟨first, event, rest, split, _⟩
    simp at split
  | append_singleton events event ih =>
    rw [List.foldl_append, List.foldl_cons, List.foldl_nil, step, runs_snoc, ← ih]
    cases renewed : renews event with
    | some fresh => simp
    | none => simp [Option.filter_eq_some_iff, and_comm]

end Lease
