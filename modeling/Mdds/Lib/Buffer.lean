import Mdds.Lib.Run

/- A list that the state of a system holds, what its events put in at the end
and what they take out at the front. -/

namespace Buffer
universe u v w
variable {σ : Type u} {ε : Type v} {β : Type w} {step : σ → ε → σ} {content : σ → List β} {enters leaves : σ → ε → List β}

/-- When no event invents, repeats or reorders anything, no run does. -/
theorem run_sublist
    (each : ∀ s event, (leaves s event ++ content (step s event)).Sublist (content s ++ enters s event))
    (s : σ) (events : List ε) :
    (Run.log step leaves s events ++ content (Run.exec step s events)).Sublist
      (content s ++ Run.log step enters s events) := by
  induction events generalizing s with
  | nil => simp
  | cons event rest ih =>
    rw [Run.log, Run.log, Run.exec_cons, List.append_assoc, ← List.append_assoc (content s)]
    have later := (ih (step s event)).append_left (leaves s event)
    rw [← List.append_assoc (leaves s event) (content (step s event))] at later
    exact later.trans ((each s event).append_right _)

/-- When moreover no admitted event loses anything, a run leaves everything
that entered either taken out or inside. -/
theorem run_eq {inv : σ → Prop} {ok : ε → Prop} (kept : ∀ s event, inv s → ok event → inv (step s event))
    (each : ∀ s event, inv s → ok event → leaves s event ++ content (step s event) = content s ++ enters s event)
    {s : σ} {events : List ε} (admitted : ∀ event ∈ events, ok event) (initially : inv s) :
    Run.log step leaves s events ++ content (Run.exec step s events) = content s ++ Run.log step enters s events := by
  induction events generalizing s with
  | nil => simp
  | cons event rest ih =>
    obtain ⟨here, later⟩ := List.forall_mem_cons.mp admitted
    rw [Run.log, Run.log, Run.exec_cons, List.append_assoc, ih later (kept s event initially here),
      ← List.append_assoc, each s event initially here, List.append_assoc]

end Buffer
