import Mathlib.Data.List.Basic

/- A table whose changes are told to a listener by notices. A notice is
delivered some time after the change it is about, and the notices in flight
are listed oldest first. -/

namespace Notices
universe u v
variable {κ : Type u} {ν : Type v} (tells : ν → κ → Option Bool)

/-- What the newest of some notices says about a key. -/
def newest : List ν → κ → Option Bool
  | [], _ => none
  | notice :: rest, key => (newest rest key).or (tells notice key)

/-- The notice between the two parts may be delivered next: either it is the
last word on each of its keys, or the last word stays the same without it. -/
def Orderly (before : List ν) (notice : ν) (after : List ν) : Prop :=
  ∀ key, tells notice key ≠ none →
    newest tells (before ++ after) key = none ∨
      newest tells (before ++ after) key = newest tells (before ++ notice :: after) key

/-- The listener will hold what the table holds once every notice in flight
has reached it in order. -/
def Follows (inFlight : List ν) (table listener : κ → Prop) : Prop :=
  ∀ key, (newest tells inFlight key).elim (listener key) (· = true) ↔ table key

/-- Taking one notice out leaves the earlier and the later ones. -/
theorem eraseIdx_split {inFlight : List ν} {i : Nat} {notice : ν} (found : inFlight[i]? = some notice) :
    ∃ before after, inFlight = before ++ notice :: after ∧ inFlight.eraseIdx i = before ++ after := by
  obtain ⟨small, same⟩ := List.getElem?_eq_some_iff.mp found
  refine ⟨inFlight.take i, inFlight.drop (i + 1), ?_, List.eraseIdx_eq_take_drop_succ ..⟩
  rw [← same, List.getElem_cons_drop, List.take_append_drop]

variable {tells} {inFlight before after new : List ν} {notice : ν} {table listener : κ → Prop} {key : κ}

theorem newest_append : newest tells (before ++ after) key = (newest tells after key).or (newest tells before key) := by
  induction before with
  | nil => simp [newest]
  | cons notice rest ih => rw [List.cons_append, newest, ih, newest, Option.or_assoc]

theorem newest_cons : newest tells (notice :: after) key = (newest tells after key).or (tells notice key) := rfl

theorem newest_singleton : newest tells [notice] key = tells notice key := rfl

theorem newest_eq_none (silent : ∀ notice ∈ inFlight, tells notice key = none) : newest tells inFlight key = none := by
  induction inFlight with
  | nil => rfl
  | cons notice rest ih =>
    rw [newest, ih (fun other inside => silent other (List.mem_cons_of_mem _ inside)), silent notice List.mem_cons_self]
    rfl

/-- Notices that agree on a key say together what each of them says. -/
theorem newest_eq_some {up : Bool} (agree : ∀ notice ∈ inFlight, tells notice key = none ∨ tells notice key = some up)
    (told : ∃ notice ∈ inFlight, tells notice key = some up) : newest tells inFlight key = some up := by
  induction inFlight with
  | nil =>
    obtain ⟨_, inside, _⟩ := told
    exact absurd inside List.not_mem_nil
  | cons notice rest ih =>
    have agreeRest := fun other inside => agree other (List.mem_cons_of_mem notice inside)
    by_cases later : ∃ other ∈ rest, tells other key = some up
    · rw [newest, ih agreeRest later]
      rfl
    · have silent : newest tells rest key = none :=
        newest_eq_none (fun other inside => (agreeRest other inside).resolve_right (fun same => later ⟨other, inside, same⟩))
      obtain ⟨other, inside, same⟩ := told
      rcases List.mem_cons.mp inside with rfl | inRest
      · rw [newest, silent, same]
        rfl
      · exact absurd ⟨other, inRest, same⟩ later

/-- A change keeps the listener on track when it is told. -/
theorem Follows.change {changed : κ → Prop} (follows : Follows tells inFlight table listener)
    (told : ∀ key, changed key ↔ (newest tells new key).elim (table key) (· = true)) :
    Follows tells (inFlight ++ new) changed listener := by
  intro key
  rw [newest_append, told key]
  cases newest tells new key with
  | none => exact follows key
  | some up => exact Iff.rfl

/-- So does a delivery that is in order. -/
theorem Follows.deliver {heard : κ → Prop} (follows : Follows tells (before ++ notice :: after) table listener)
    (orderly : Orderly tells before notice after)
    (hears : ∀ key, heard key ↔ (tells notice key).elim (listener key) (· = true)) :
    Follows tells (before ++ after) table heard := by
  intro key
  have whole := follows key
  have orderly := orderly key
  rw [newest_append, newest_cons] at whole
  simp only [newest_append, newest_cons] at orderly
  rw [newest_append, hears key]
  cases told : tells notice key with
  | none =>
    rw [told, Option.or_none] at whole
    exact whole
  | some up =>
    rw [told] at whole orderly
    cases later : newest tells after key with
    | some last =>
      rw [later] at whole
      exact whole
    | none =>
      rw [later] at whole orderly
      cases earlier : newest tells before key with
      | none => exact whole
      | some last =>
        -- an older notice would now have the last word, so it must be the same word
        rw [earlier] at orderly
        rcases orderly (Option.some_ne_none up) with gone | same
        · exact absurd gone (Option.some_ne_none last)
        · obtain rfl : last = up := Option.some.inj same
          exact whole

/-- With no notice about a key in flight, listener and table agree on it. -/
theorem Follows.agree (follows : Follows tells inFlight table listener)
    (silent : ∀ notice ∈ inFlight, tells notice key = none) : listener key ↔ table key := by
  have settled := follows key
  rw [newest_eq_none silent] at settled
  exact settled

end Notices
