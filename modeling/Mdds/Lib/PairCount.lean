import Mathlib.Data.Finset.Sigma
import Mathlib.Algebra.BigOperators.Group.Finset.Sigma

/- Comparing the length of a list of labelled entries with the sizes of a
family of finite sets, one set for each label. -/

namespace PairCount
open BigOperators
universe u v
variable {α : Type u} {β : Type v} [DecidableEq α] [DecidableEq β]

theorem length_le_sum {entries : List (α × β)} {labels : Finset α} {sets : α → Finset β}
    (distinct : entries.Nodup) (inside : ∀ x ∈ entries, x.1 ∈ labels ∧ x.2 ∈ sets x.1) :
    entries.length ≤ ∑ a ∈ labels, (sets a).card := by
  rw [← Finset.card_sigma, ← List.toFinset_card_of_nodup distinct]
  apply Finset.card_le_card_of_injOn (fun x => (⟨x.1, x.2⟩ : (_ : α) × β))
  · intro x member
    exact Finset.mem_sigma.mpr (inside x (List.mem_toFinset.mp member))
  · rintro ⟨a, b⟩ _ ⟨a', b'⟩ _ same
    obtain ⟨rfl, rfl⟩ := Sigma.mk.inj_iff.mp same
    rfl

theorem sum_le_length {entries : List (α × β)} {labels : Finset α} {sets : α → Finset β}
    (covered : ∀ a ∈ labels, ∀ b ∈ sets a, (a, b) ∈ entries) :
    ∑ a ∈ labels, (sets a).card ≤ entries.length := by
  rw [← Finset.card_sigma]
  refine le_trans ?_ entries.toFinset_card_le
  apply Finset.card_le_card_of_injOn (fun x : (_ : α) × β => (x.1, x.2))
  · intro x member
    obtain ⟨label, inside⟩ := Finset.mem_sigma.mp member
    exact List.mem_toFinset.mpr (covered x.1 label x.2 inside)
  · rintro ⟨a, b⟩ _ ⟨a', b'⟩ _ same
    obtain ⟨rfl, rfl⟩ := Prod.mk.inj same
    rfl

end PairCount
