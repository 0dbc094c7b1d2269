import Mathlib.Data.List.Induction

/- Runs of a deterministic labelled system: a step function, the list of
events it consumes, conditions checked in the state before each event, and
the outputs collected on the way. -/

namespace Run
universe u v w
variable {σ : Type u} {ε : Type v} {β : Type w} (step : σ → ε → σ)

/-- The state after a whole list of events. -/
def exec (s : σ) (events : List ε) : σ := events.foldl step s

/-- Every event of the run meets `ok` in the state in which it happens. -/
def Along (ok : σ → ε → Prop) : σ → List ε → Prop
  | _, [] => True
  | s, event :: rest => ok s event ∧ Along ok (step s event) rest

instance decidableAlong {ok : σ → ε → Prop} [∀ s event, Decidable (ok s event)] :
    ∀ s events, Decidable (Along step ok s events)
  | _, [] => isTrue trivial
  | s, event :: rest =>
    have : Decidable (Along step ok (step s event) rest) := decidableAlong (step s event) rest
    inferInstanceAs (Decidable (ok s event ∧ Along step ok (step s event) rest))

/-- What the run emits, each event's output computed in the state before it. -/
def log (out : σ → ε → List β) : σ → List ε → List β
  | _, [] => []
  | s, event :: rest => out s event ++ log out (step s event) rest

/-- Some event of the run meets `p` in the state in which it happens. -/
def Happened (p : σ → ε → Prop) : σ → List ε → Prop
  | _, [] => False
  | s, event :: rest => p s event ∨ Happened p (step s event) rest

@[simp] theorem exec_nil (s : σ) : exec step s [] = s := rfl

@[simp] theorem exec_cons (s : σ) (event : ε) (rest : List ε) :
    exec step s (event :: rest) = exec step (step s event) rest := rfl

theorem exec_append (s : σ) (first second : List ε) :
    exec step s (first ++ second) = exec step (exec step s first) second :=
  List.foldl_append

@[simp] theorem exec_snoc (s : σ) (events : List ε) (event : ε) :
    exec step s (events ++ [event]) = step (exec step s events) event :=
  exec_append step s events [event]

theorem along_append {ok : σ → ε → Prop} {s : σ} {first second : List ε} :
    Along step ok s (first ++ second) ↔
      Along step ok s first ∧ Along step ok (exec step s first) second := by
  induction first generalizing s with
  | nil => simp [Along]
  | cons event rest ih => simp only [List.cons_append, Along, ih, exec_cons, and_assoc]

@[simp] theorem along_snoc {ok : σ → ε → Prop} {s : σ} {events : List ε} {event : ε} :
    Along step ok s (events ++ [event]) ↔ Along step ok s events ∧ ok (exec step s events) event := by
  simp [along_append, Along]

theorem happened_snoc {p : σ → ε → Prop} {s : σ} {events : List ε} {event : ε} :
    Happened step p s (events ++ [event]) ↔ Happened step p s events ∨ p (exec step s events) event := by
  induction events generalizing s with
  | nil => simp [Happened]
  | cons first rest ih => simp only [List.cons_append, Happened, ih, exec_cons, or_assoc]

theorem log_append (out : σ → ε → List β) (s : σ) (first second : List ε) :
    log step out s (first ++ second) = log step out s first ++ log step out (exec step s first) second := by
  induction first generalizing s with
  | nil => rfl
  | cons event rest ih => simp only [List.cons_append, log, ih, exec_cons, List.append_assoc]

@[simp] theorem log_nil (out : σ → ε → List β) (s : σ) : log step out s [] = [] := rfl

@[simp] theorem log_snoc (out : σ → ε → List β) (s : σ) (events : List ε) (event : ε) :
    log step out s (events ++ [event]) = log step out s events ++ out (exec step s events) event := by
  simp [log_append, log]

variable {step}

/-- Whatever a run emits was emitted by one of its events. -/
theorem exists_of_mem_log {out : σ → ε → List β} {s : σ} {events : List ε} {b : β}
    (member : b ∈ log step out s events) :
    ∃ first event rest, events = first ++ event :: rest ∧ b ∈ out (exec step s first) event := by
  induction events generalizing s with
  | nil => exact absurd member List.not_mem_nil
  | cons event rest ih =>
    rcases List.mem_append.mp member with now | later
    · exact ⟨[], event, rest, rfl, now⟩
    · obtain ⟨first, next, after, split, emitted⟩ := ih later
      exact ⟨event :: first, next, after, by rw [split, List.cons_append], emitted⟩

/-- Everything a run emits has a property exactly if everything each of its events emits has. -/
theorem forall_log_iff_along {out : σ → ε → List β} {p : β → Prop} {s : σ} {events : List ε} :
    (∀ b ∈ log step out s events, p b) ↔ Along step (fun s event => ∀ b ∈ out s event, p b) s events := by
  induction events generalizing s with
  | nil => simp [Along]
  | cons event rest ih => rw [log, List.forall_mem_append, ih, Along]

theorem along_congr {ok other : σ → ε → Prop} (same : ∀ s event, ok s event ↔ other s event) (s : σ) (events : List ε) :
    Along step ok s events ↔ Along step other s events := by
  induction events generalizing s with
  | nil => exact Iff.rfl
  | cons event rest ih => rw [Along, Along, same, ih]

/-- When every event acts on a component as the inner events it emits, a run
acts on the component as the run of everything emitted. -/
theorem exec_component {τ : Type u} {η : Type w} {inner : τ → η → τ} {out : σ → ε → List η} {proj : σ → τ}
    (simulates : ∀ s event, proj (step s event) = exec inner (proj s) (out s event)) (s : σ) (events : List ε) :
    proj (exec step s events) = exec inner (proj s) (log step out s events) := by
  induction events generalizing s with
  | nil => rfl
  | cons event rest ih => rw [exec_cons, ih, simulates, log, exec_append]

/-- A condition on the inner event that an event amounts to, if any. -/
def Lift {τ : Type u} {η : Type w} (ok : τ → η → Prop) (t : τ) : Option η → Prop
  | none => True
  | some inner => ok t inner

instance {τ : Type u} {η : Type w} {ok : τ → η → Prop} [∀ t inner, Decidable (ok t inner)] (t : τ) :
    ∀ emitted, Decidable (Lift ok t emitted)
  | none => isTrue trivial
  | some inner => inferInstanceAs (Decidable (ok t inner))

/-- Conditions on the inner events of a component are read off the inner run. -/
theorem along_lift {τ : Type u} {η : Type w} {inner : τ → η → τ} {out : σ → ε → Option η} {proj : σ → τ}
    (ok : τ → η → Prop) (simulates : ∀ s event, proj (step s event) = exec inner (proj s) (out s event).toList)
    (s : σ) (events : List ε) :
    Along step (fun s event => Lift ok (proj s) (out s event)) s events ↔
      Along inner ok (proj s) (log step (fun s event => (out s event).toList) s events) := by
  induction events generalizing s with
  | nil => rfl
  | cons event rest ih =>
    rw [Along, ih, simulates, log, along_append]
    refine and_congr_left (fun _ => ?_)
    cases out s event <;> simp [Lift, Along]

/-- A condition on the events alone. -/
theorem along_of_mem {ok : σ → ε → Prop} {s : σ} {events : List ε} (each : ∀ event ∈ events, ∀ s, ok s event) :
    Along step ok s events := by
  induction events generalizing s with
  | nil => trivial
  | cons event rest ih =>
    exact ⟨each event List.mem_cons_self s, ih (fun later member => each later (List.mem_cons_of_mem _ member))⟩

/-- The condition, asked of every event in the state its predecessors leave. -/
theorem along_iff_forall {ok : σ → ε → Prop} {s : σ} {events : List ε} :
    Along step ok s events ↔ ∀ first event, first ++ [event] <+: events → ok (exec step s first) event := by
  induction events using List.reverseRecOn with
  | nil =>
    refine iff_of_true trivial (fun first event inside => ?_)
    exact absurd (List.prefix_nil.mp inside) (by simp)
  | append_singleton events event ih =>
    rw [along_snoc, ih]
    constructor
    · rintro ⟨earlier, last⟩ first next inside
      rcases List.prefix_concat_iff.mp inside with same | shorter
      · obtain ⟨rfl, equal⟩ := List.append_inj' same rfl
        obtain rfl := List.singleton_inj.mp equal
        exact last
      · exact earlier first next shorter
    · intro every
      exact ⟨fun first next inside => every first next (inside.trans (List.prefix_append ..)),
        every events event (List.prefix_refl _)⟩

theorem Along.earlier {ok : σ → ε → Prop} {s : σ} {first events : List ε}
    (along : Along step ok s events) (isPrefix : first <+: events) : Along step ok s first := by
  obtain ⟨rest, rfl⟩ := isPrefix
  exact ((along_append step).mp along).1

/-- The invariant rule: what holds initially and is kept by every admitted
event holds after the run. -/
theorem Along.invariant {ok : σ → ε → Prop} {inv : σ → Prop}
    (kept : ∀ s event, inv s → ok s event → inv (step s event))
    {s : σ} {events : List ε} (along : Along step ok s events) (initially : inv s) :
    inv (exec step s events) := by
  induction events generalizing s with
  | nil => exact initially
  | cons event rest ih => exact ih along.2 (kept s event initially along.1)

/-- Two conditions that agree wherever an invariant holds, which admitted
events keep, hold of the same runs. -/
theorem along_iff_along {inv : σ → Prop} {ok other : σ → ε → Prop}
    (same : ∀ s event, inv s → (ok s event ↔ other s event))
    (kept : ∀ s event, inv s → other s event → inv (step s event)) {s : σ} {events : List ε} (initially : inv s) :
    Along step ok s events ↔ Along step other s events := by
  induction events generalizing s with
  | nil => exact Iff.rfl
  | cons event rest ih =>
    rw [Along, Along, same s event initially]
    exact and_congr_right (fun admitted => ih (kept s event initially admitted))

/-- Without a side condition every event is admitted. -/
theorem invariant {inv : σ → Prop} (kept : ∀ s event, inv s → inv (step s event))
    {s : σ} (events : List ε) (initially : inv s) : inv (exec step s events) := by
  induction events generalizing s with
  | nil => exact initially
  | cons event rest ih => exact ih (kept s event initially)

/-- The simulation rule: a relation that every event keeps, the inner system
taking the step the event amounts to, if any, relates what two runs reach. -/
theorem exec_simulates {τ : Type u} {η : Type w} {inner : τ → η → τ} {out : ε → Option η} {related : σ → τ → Prop}
    (simulates : ∀ s t event, related s t → related (step s event) (exec inner t (out event).toList))
    {s : σ} {t : τ} (events : List ε) (initially : related s t) :
    related (exec step s events) (exec inner t (events.filterMap out)) := by
  induction events generalizing s t with
  | nil => exact initially
  | cons event rest ih =>
    have next := ih (simulates s t event initially)
    rw [← exec_append] at next
    cases emitted : out event with
    | none => simpa only [exec_cons, List.filterMap_cons, emitted, Option.toList_none, List.nil_append] using next
    | some inside =>
      simpa only [exec_cons, List.filterMap_cons, emitted, Option.toList_some, List.singleton_append] using next

/-- The rule of potential: when every event pays for what it emits, a run
emits no more than the potential it uses up. -/
theorem exec_potential {out : σ → ε → List β} {inv : σ → Prop} {potential : σ → Nat}
    (pays : ∀ s event, inv s → inv (step s event) ∧ potential (step s event) + (out s event).length ≤ potential s) {s : σ}
    (events : List ε) (initially : inv s) :
    potential (exec step s events) + (log step out s events).length ≤ potential s := by
  induction events generalizing s with
  | nil => exact Nat.le_refl _
  | cons event rest ih =>
    obtain ⟨kept, paid⟩ := pays s event initially
    have later := ih kept
    rw [exec_cons, log, List.length_append]
    omega

/-- While something is left to do and every event uses up potential, the
events that some policy chooses come to an end. -/
theorem exists_done {inv done : σ → Prop} {potential : σ → Nat} {policy : σ → ε}
    (pays : ∀ s, inv s → ¬ done s → inv (step s (policy s)) ∧ potential (step s (policy s)) < potential s) {s : σ}
    (initially : inv s) :
    ∃ events, Along step (fun s event => event = policy s) s events ∧ events.length ≤ potential s ∧ done (exec step s events) := by
  induction bound : potential s using Nat.strongRecOn generalizing s with
  | ind limit ih =>
    subst bound
    by_cases finished : done s
    · exact ⟨[], trivial, Nat.zero_le _, finished⟩
    · obtain ⟨kept, paid⟩ := pays s initially finished
      obtain ⟨events, chosen, few, reached⟩ := ih _ paid kept rfl
      exact ⟨policy s :: events, ⟨rfl, chosen⟩, Nat.succ_le_of_lt (Nat.lt_of_le_of_lt few paid), reached⟩

section Purge
variable {ν : Type w} {view : σ → ν} {shows : ε → Bool}
variable (hidden : ∀ s event, shows event = false → view (step s event) = view s)
  (same : ∀ s t event, shows event = true → view s = view t → view (step s event) = view (step t event))
include hidden same

/-- The unwinding rule: when an event that does not show leaves the view as it
is, and one that shows acts on the view alone, a run looks like that of the
events that show. -/
theorem exec_purge {s t : σ} (events : List ε) (initially : view s = view t) :
    view (exec step s events) = view (exec step t (events.filter shows)) := by
  induction events generalizing s t with
  | nil => exact initially
  | cons event rest ih =>
    cases shown : shows event with
    | false =>
      rw [List.filter_cons_of_neg (by simp [shown]), exec_cons]
      exact ih ((hidden s event shown).trans initially)
    | true =>
      rw [List.filter_cons_of_pos shown, exec_cons, exec_cons]
      exact ih (same s t event shown initially)

/-- And it emits what those emit. -/
theorem log_purge {out : σ → ε → List β} (silent : ∀ s event, shows event = false → out s event = [])
    (emits : ∀ s t event, shows event = true → view s = view t → out s event = out t event) {s t : σ} (events : List ε)
    (initially : view s = view t) : log step out s events = log step out t (events.filter shows) := by
  induction events generalizing s t with
  | nil => rfl
  | cons event rest ih =>
    cases shown : shows event with
    | false =>
      rw [List.filter_cons_of_neg (by simp [shown]), log, silent s event shown, List.nil_append]
      exact ih ((hidden s event shown).trans initially)
    | true =>
      rw [List.filter_cons_of_pos shown, log, log, emits s t event shown initially]
      exact congrArg _ (ih (same s t event shown initially))

end Purge

section Counted
variable {measure : σ → Nat} {counted : ε → Bool}

/-- A measure that only counted events raise, by at most one each. -/
theorem exec_measure_le (grows : ∀ s event, measure (step s event) ≤ measure s + (counted event).toNat)
    (s : σ) (events : List ε) : measure (exec step s events) ≤ measure s + events.countP counted := by
  induction events using List.reverseRecOn with
  | nil => exact Nat.le_refl _
  | append_singleton events event ih =>
    have last := grows (exec step s events) event
    rw [exec_snoc, List.countP_append]
    cases counts : counted event with
    | true =>
      rw [counts, Bool.toNat_true] at last
      rw [List.countP_singleton, if_pos counts]
      omega
    | false =>
      rw [counts, Bool.toNat_false] at last
      omega

/-- The invariant rule for runs with few counted events: a counted event
needs to keep the invariant only while the measure has room to grow. -/
theorem invariant_within {inv : σ → Prop} {limit : Nat} {s : σ} {events : List ε}
    (grows : ∀ s event, measure (step s event) ≤ measure s + (counted event).toNat)
    (kept : ∀ s event, event ∈ events → inv s → (counted event = true → measure s + 1 < limit) → inv (step s event))
    (few : measure s + events.countP counted < limit) (initially : inv s) : inv (exec step s events) := by
  induction events using List.reverseRecOn with
  | nil => exact initially
  | append_singleton events event ih =>
    rw [List.countP_append] at few
    have before := ih (fun s event inside => kept s event (List.mem_append_left _ inside)) (by omega)
    have bound := exec_measure_le grows s events
    rw [exec_snoc]
    refine kept _ event (List.mem_append_right _ List.mem_cons_self) before (fun counts => ?_)
    rw [List.countP_singleton, if_pos counts] at few
    omega

end Counted

/-- When, after a run that was good throughout, the next step leads to a good
state exactly if it is admitted, a run is good throughout exactly if all its
steps are admitted. -/
theorem always_iff_along {good : σ → Prop} {ok : σ → ε → Prop} {s : σ} {events : List ε}
    (exact : ∀ first event, first ++ [event] <+: events → (∀ earlier, earlier <+: first → good (exec step s earlier)) →
      (good (step (exec step s first) event) ↔ ok (exec step s first) event))
    (initially : good s) :
    (∀ first, first <+: events → good (exec step s first)) ↔ Along step ok s events := by
  induction events using List.reverseRecOn with
  | nil =>
    refine ⟨fun _ => trivial, fun _ first isPrefix => ?_⟩
    rw [List.prefix_nil.mp isPrefix]
    exact initially
  | append_singleton events event ih =>
    have before := ih (fun first next inside => exact first next (inside.trans (List.prefix_append ..)))
    rw [along_snoc, ← before]
    constructor
    · intro always
      have earlier := fun first (inside : first <+: events) => always first (inside.trans (List.prefix_append ..))
      have last := always (events ++ [event]) (List.prefix_refl _)
      rw [exec_snoc] at last
      exact ⟨earlier, (exact events event (List.prefix_refl _) earlier).mp last⟩
    · rintro ⟨earlier, admitted⟩ first isPrefix
      rcases List.prefix_concat_iff.mp isPrefix with rfl | inside
      · rw [exec_snoc]
        exact (exact events event (List.prefix_refl _) earlier).mpr admitted
      · exact earlier first inside

end Run
