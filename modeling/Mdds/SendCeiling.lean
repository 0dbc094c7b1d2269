import Mdds.SendLane

/- How far the shared counter can rise. The check of `push` reads it in one step
and adds to it in another, with the lock of one lane only. -/

namespace Mdds

namespace SendLane
variable {l : SendLane} {global : SendBudget}

/-- The size of the frame that has passed the check and is not yet counted. -/
def promised (l : SendLane) : Nat := (l.pushing.map List.length).getD 0

/-- What passing the check promises. -/
def grants (l : SendLane) (global : SendBudget) : LaneAction → Nat
  | .push frame => if l.locked || l.rejects global frame then 0 else frame.length
  | _ => 0

theorem push_promised (frame : Bytes) :
    (l.act global (.push frame)).2 = global ∧
      (l.act global (.push frame)).1.promised = l.promised + l.grants global (.push frame) := by
  unfold act grants
  dsimp only
  split
  · rename_i locked
    rw [locked, Bool.true_or, if_pos rfl]
    exact ⟨rfl, rfl⟩
  · rename_i free
    split
    · rename_i rejected
      rw [rejected, Bool.or_true, if_pos rfl]
      exact ⟨rfl, rfl⟩
    · rename_i fits
      have none : l.promised = 0 := by rw [promised, pushing_of_unlocked free]; rfl
      rw [none, Nat.zero_add, if_neg (by simp [free, fits])]
      exact ⟨rfl, rfl⟩

/-- A promise is kept: the reservation counts what was promised. -/
theorem reserve_promised :
    (l.act global .reserve).2.used = global.used + l.promised ∧ (l.act global .reserve).1.pushing = none := by
  unfold act promised
  dsimp only
  split
  · rename_i none
    rw [none]
    exact ⟨rfl, rfl⟩
  · rename_i holder
    rw [holder]
    exact ⟨rfl, rfl⟩

/-- No other step raises what is counted or promised. -/
theorem act_promised_le {action : LaneAction} (other : l.grants global action = 0) :
    (l.act global action).2.used + (l.act global action).1.promised ≤ global.used + l.promised := by
  cases action with
  | push frame =>
    obtain ⟨same, promised⟩ := @push_promised l global frame
    rw [same, promised, other]
    exact Nat.le_refl _
  | reserve =>
    obtain ⟨used, none⟩ := @reserve_promised l global
    have kept : (l.act global .reserve).1.promised = 0 := by rw [promised, none]; rfl
    rw [used, kept]
    exact Nat.le_refl _
  | run =>
    simp only [act]
    split
    · exact Nat.le_refl _
    · split
      · split <;> exact Nat.le_refl _
      · split
        · exact Nat.le_refl _
        · exact Nat.add_le_add_right (Nat.sub_le ..) _
  | discard =>
    simp only [act]
    split
    · exact Nat.le_refl _
    · split
      · exact Nat.le_refl _
      · exact Nat.add_le_add_right (Nat.sub_le ..) _
  | sinkReturns | stop =>
    simp only [act]
    split <;> exact Nat.le_refl _

end SendLane

namespace SendLanes
variable {ι : Type} [DecidableEq ι] {limit : Nat} {byteLimit : ι → Nat}

theorem after_limit (events : List (ι × LaneAction)) : (after limit byteLimit events).resource.limit = limit := by
  have kept (s : SendLanes ι) (event : ι × LaneAction) (same : s.resource.limit = limit) :
      (Shared.step SendLane.act s event).resource.limit = limit :=
    (SendLane.act_limit (s.part event.1) s.resource event.2).trans same
  exact Run.invariant kept events rfl

variable [Fintype ι]

/-- What is counted, and what the lanes will count without another check. -/
def committed (s : SendLanes ι) : Nat := s.resource.used + ∑ i, (s.part i).promised

/-- A frame that passes the check also fits beside what the other lanes have
been promised. -/
def Fits (s : SendLanes ι) (event : ι × LaneAction) : Prop :=
  (s.part event.1).grants s.resource event.2 ≠ 0 →
    committed s + (s.part event.1).grants s.resource event.2 ≤ s.resource.limit

theorem committed_grants (s : SendLanes ι) {event : ι × LaneAction}
    (grants : (s.part event.1).grants s.resource event.2 ≠ 0) :
    committed (Shared.step SendLane.act s event) = committed s + (s.part event.1).grants s.resource event.2 := by
  obtain ⟨i, action⟩ := event
  have total := Shared.sum_step SendLane.act SendLane.promised s i action
  have after : (Shared.step SendLane.act s (i, action)).resource = ((s.part i).act s.resource action).2 := rfl
  cases action with
  | push frame =>
    obtain ⟨same, promised⟩ := @SendLane.push_promised (s.part i) s.resource frame
    rw [committed, committed, after, same]
    dsimp only
    omega
  | _ => exact absurd rfl grants

theorem committed_le (s : SendLanes ι) {event : ι × LaneAction}
    (silent : (s.part event.1).grants s.resource event.2 = 0) :
    committed (Shared.step SendLane.act s event) ≤ committed s := by
  obtain ⟨i, action⟩ := event
  have total := Shared.sum_step SendLane.act SendLane.promised s i action
  have lower := SendLane.act_promised_le silent
  dsimp only at lower
  have after : (Shared.step SendLane.act s (i, action)).resource = ((s.part i).act s.resource action).2 := rfl
  rw [committed, committed, after]
  omega

theorem committed_reserve (s : SendLanes ι) (i : ι) :
    committed (Shared.step SendLane.act s (i, .reserve)) = committed s ∧
      ((Shared.step SendLane.act s (i, .reserve)).part i).promised = 0 := by
  have total := Shared.sum_step SendLane.act SendLane.promised s i .reserve
  obtain ⟨used, none⟩ := @SendLane.reserve_promised (s.part i) s.resource
  have after : (Shared.step SendLane.act s (i, .reserve)).resource = ((s.part i).act s.resource .reserve).2 := rfl
  have kept : ((s.part i).act s.resource .reserve).1.promised = 0 := by rw [SendLane.promised, none]; rfl
  rw [Shared.step_part_self, committed, committed, after, used]
  exact ⟨by omega, kept⟩

/-- When lanes that have passed the check make their reservations, every
promise becomes a count. -/
theorem committed_reserves (finishing : List ι) (s : SendLanes ι) :
    committed (Run.exec (Shared.step SendLane.act) s (finishing.map (fun i => (i, .reserve)))) = committed s ∧
      ∀ i, i ∈ finishing ∨ (s.part i).promised = 0 →
        ((Run.exec (Shared.step SendLane.act) s (finishing.map (fun i => (i, .reserve)))).part i).promised = 0 := by
  induction finishing generalizing s with
  | nil => exact ⟨rfl, fun i kept => kept.resolve_left List.not_mem_nil⟩
  | cons first rest ih =>
    obtain ⟨same, kept⟩ := committed_reserve s first
    obtain ⟨total, others⟩ := ih (Shared.step SendLane.act s (first, .reserve))
    refine ⟨total.trans same, fun i here => others i ?_⟩
    by_cases own : i = first
    · subst own
      exact Or.inr kept
    · refine here.imp (fun member => (List.mem_cons.mp member).resolve_left own) (fun before => ?_)
      rw [Shared.step_part_other SendLane.act s own]
      exact before

/-- What is committed can be counted with no further check. -/
theorem used_finished (s : SendLanes ι) :
    (Run.exec (Shared.step SendLane.act) s (Finset.univ.toList.map (fun i => (i, .reserve)))).resource.used =
      committed s := by
  obtain ⟨same, kept⟩ := committed_reserves Finset.univ.toList s
  rw [← same, committed, Finset.sum_eq_zero (fun i _ => kept i (Or.inl (Finset.mem_toList.mpr (Finset.mem_univ i)))),
    Nat.add_zero]

/-- The counter stays below the limit, whenever a run is cut off and its
pending reservations are made, exactly if each frame that passes the check
fits beside what the other lanes have been promised. -/
theorem below_iff_fits (limit : Nat) (byteLimit : ι → Nat) (events : List (ι × LaneAction)) :
    (∀ first, first <+: events → ∀ finishing : List ι,
      (after limit byteLimit (first ++ finishing.map (fun i => (i, .reserve)))).resource.used ≤ limit) ↔
      Run.Along (Shared.step SendLane.act) Fits (create limit byteLimit) events := by
  have exact (first : List (ι × LaneAction)) (event : ι × LaneAction)
      (below : committed (after limit byteLimit first) ≤ limit) :
      committed (Shared.step SendLane.act (after limit byteLimit first) event) ≤ limit ↔
        Fits (after limit byteLimit first) event := by
    by_cases silent :
        ((after limit byteLimit first).part event.1).grants (after limit byteLimit first).resource event.2 = 0
    · exact iff_of_true ((committed_le _ silent).trans below) (fun grants => absurd silent grants)
    · rw [committed_grants _ silent, Fits, after_limit]
      exact ⟨fun fits _ => fits, fun fits => fits silent⟩
  have start : committed (create limit byteLimit) ≤ limit := by
    simp [committed, create, SendLane.promised]
  have always := @Run.always_iff_along _ _ (Shared.step SendLane.act) (fun s => committed s ≤ limit) Fits
    (create limit byteLimit) events (fun first event _ earlier => exact first event (earlier first (List.prefix_refl _)))
    start
  rw [← always]
  refine forall_congr' (fun first => forall_congr' (fun _ => ⟨fun counted => ?_, fun below finishing => ?_⟩))
  · have finished := counted Finset.univ.toList
    rw [after, Run.exec_append, used_finished] at finished
    exact finished
  · rw [after, Run.exec_append]
    have total := (committed_reserves finishing (Run.exec (Shared.step SendLane.act) (create limit byteLimit) first)).1
    exact (Nat.le_add_right _ _).trans (total.le.trans below)

/-- The budget is a ceiling in every state of the runs in which each checked
frame fits beside the promised ones, and in no others. -/
theorem budget_ceiling (limit : Nat) (byteLimit : ι → Nat) (events : List (ι × LaneAction)) :
    (Run.Along (Shared.step SendLane.act) Fits (create limit byteLimit) events →
      ∀ first, first <+: events → (after limit byteLimit first).resource.used ≤ limit) ∧
    (¬ Run.Along (Shared.step SendLane.act) Fits (create limit byteLimit) events →
      ∃ first, first <+: events ∧ ∃ finishing : List ι,
        limit < (after limit byteLimit (first ++ finishing.map (fun i => (i, .reserve)))).resource.used) := by
  refine ⟨fun fits first isPrefix => ?_, fun breached => ?_⟩
  · have below := (below_iff_fits limit byteLimit events).mpr fits first isPrefix []
    rwa [List.map_nil, List.append_nil] at below
  · rw [← below_iff_fits] at breached
    push Not at breached
    exact breached

/-- Two lanes pass the check before either of them counts its frame. -/
theorem two_checks_one_room :
    1 < (after 1 (fun _ : Bool => 1)
      [(false, .push [0]), (true, .push [0]), (false, .reserve), (true, .reserve)]).resource.used := by
  decide

end SendLanes

end Mdds
