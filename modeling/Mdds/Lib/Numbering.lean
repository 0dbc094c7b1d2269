import Mathlib.Data.List.Perm.Basic
import Mathlib.Data.Nat.ModEq
import Mdds.Lib.KeyedList
import Mdds.Lib.Run

/- Entries that are numbered as they come and leave in any order, and that go
by their kind and their number modulo `m`. -/

namespace Numbering
universe u v
variable {κ : Type u} {τ : Type v}

/-- How many entries have come, and the number of each that is still here. -/
structure Register (κ : Type u) where
  count : Nat := 0
  live : List (κ × Nat) := []

inductive Event (κ : Type u)
  | take (key : κ)
  | drop (key : κ)

def Event.takes : Event κ → Bool
  | take _ => true
  | drop _ => false

namespace Register

/-- The entries of one kind have numbers that differ modulo `m`. -/
def Apart (m : Nat) (kind : κ → τ) (r : Register κ) : Prop :=
  (r.live.map (fun entry => (kind entry.1, entry.2 % m))).Nodup

/-- The invariant of every run: numbers are given out from 1 on. -/
def Counted (r : Register κ) : Prop := ∀ entry ∈ r.live, 0 < entry.2 ∧ entry.2 ≤ r.count

variable [DecidableEq κ]

/-- An entry that is here already is not numbered again. -/
def step (r : Register κ) : Event κ → Register κ
  | .take key =>
    if key ∈ r.live.map Prod.fst then r else { count := r.count + 1, live := (key, r.count + 1) :: r.live }
  | .drop key => { r with live := KeyedList.erase key r.live }

/-- No entry of its kind that is here came a multiple of `m` before. -/
def Unwrapped (m : Nat) (kind : κ → τ) (r : Register κ) : Event κ → Prop
  | .take key => key ∉ r.live.map Prod.fst →
      ∀ entry ∈ r.live, kind entry.1 = kind key → ¬ m ∣ r.count + 1 - entry.2
  | .drop _ => True

variable {m : Nat} {kind : κ → τ} {r : Register κ}

theorem Counted.step (counted : r.Counted) (event : Event κ) : (r.step event).Counted := by
  cases event with
  | take key =>
    simp only [Register.step]
    split
    · exact counted
    · intro entry member
      rcases List.mem_cons.mp member with rfl | before
      · exact ⟨Nat.succ_pos _, Nat.le_refl _⟩
      · obtain ⟨positive, bound⟩ := counted entry before
        exact ⟨positive, Nat.le_succ_of_le bound⟩
  | drop key => exact fun entry member => counted entry (List.mem_of_mem_filter member)

theorem counted_run (events : List (Event κ)) : (Run.exec step ({} : Register κ) events).Counted :=
  Run.invariant (fun _ event before => before.step event) events (fun _ member => absurd member List.not_mem_nil)

/-- An event keeps the entries apart exactly if nothing wraps around. -/
theorem Apart.step_iff (apart : r.Apart m kind) (counted : r.Counted) (event : Event κ) :
    (r.step event).Apart m kind ↔ r.Unwrapped m kind event := by
  cases event with
  | drop key => exact iff_of_true (apart.sublist (List.filter_sublist.map _)) trivial
  | take key =>
    simp only [Register.step, Unwrapped]
    split
    · rename_i here
      exact iff_of_true apart (fun fresh => absurd here fresh)
    · rename_i fresh
      have residues {n : Nat} (bound : n ≤ r.count) : n % m = (r.count + 1) % m ↔ m ∣ r.count + 1 - n :=
        Nat.modEq_iff_dvd' (Nat.le_succ_of_le bound)
      unfold Apart at apart ⊢
      rw [List.map_cons, List.nodup_cons, and_iff_left apart, List.mem_map]
      constructor
      · intro differ _ entry member same wrapped
        exact differ ⟨entry, member, Prod.ext same ((residues (counted entry member).2).mpr wrapped)⟩
      · rintro unwrapped ⟨entry, member, same⟩
        obtain ⟨kinds, numbers⟩ := Prod.mk.inj same
        exact unwrapped fresh entry member kinds ((residues (counted entry member).2).mp numbers)

/-- The entries are apart throughout a run exactly if nothing ever wraps around. -/
theorem apart_iff_unwrapped (m : Nat) (kind : κ → τ) (events : List (Event κ)) :
    (∀ first, first <+: events → (Run.exec step {} first).Apart m kind) ↔
      Run.Along step (Unwrapped m kind) {} events := by
  refine Run.always_iff_along (fun first event _ always => ?_) List.nodup_nil
  exact (always first (List.prefix_refl _)).step_iff (counted_run first) event

/-- A run that numbers no more than `m` entries does not wrap around. -/
theorem unwrapped_of_few {events : List (Event κ)} (few : events.countP Event.takes ≤ m) :
    Run.Along step (Unwrapped m kind) {} events := by
  have grows (r : Register κ) (event : Event κ) : (r.step event).count ≤ r.count + event.takes.toNat := by
    cases event with
    | drop key => exact Nat.le_refl _
    | take key =>
      simp only [step]
      split
      · exact Nat.le_succ _
      · exact Nat.le_refl _
  refine Run.along_iff_forall.mpr (fun first event inside => ?_)
  cases event with
  | drop key => trivial
  | take key =>
    intro _ entry member _
    obtain ⟨positive, bound⟩ := counted_run first entry member
    have numbered := Run.exec_measure_le grows {} first
    have fewer := inside.sublist.countP_le (p := Event.takes)
    rw [List.countP_append, List.countP_singleton, Event.takes, if_pos rfl] at fewer
    dsimp only at numbered
    exact Nat.not_dvd_of_pos_of_lt (by omega) (by omega)

/-- Entries that come and leave at once only move the count. -/
theorem exec_churn {key : κ} (fresh : key ∉ r.live.map Prod.fst) (n : Nat) :
    Run.exec step r (List.replicate n [Event.take key, .drop key]).flatten = { r with count := r.count + n } := by
  induction n generalizing r with
  | zero => rfl
  | succ n ih =>
    have kept : KeyedList.erase key r.live = r.live :=
      List.filter_eq_self.mpr (fun entry member => decide_eq_true (fun same =>
        fresh (same ▸ List.mem_map_of_mem (f := Prod.fst) member)))
    have absent : KeyedList.erase key ((key, r.count + 1) :: r.live) = r.live := by
      rw [KeyedList.erase, List.filter_cons_of_neg (by simp)]
      exact kept
    have once : (r.step (.take key)).step (.drop key) = { r with count := r.count + 1 } := by
      simp only [step, if_neg fresh, absent]
    rw [List.replicate_succ, List.flatten_cons, Run.exec_append, Run.exec_cons, Run.exec_cons, Run.exec_nil, once]
    exact (ih (r := { r with count := r.count + 1 }) fresh).trans (by simp only [Nat.add_assoc, Nat.add_comm 1])

end Register

end Numbering
