import Mathlib.Data.List.MinMax

/- A register that is offered values out of order and more than once. It keeps
a value of the highest rank, the first one offered, and refreshes it with what
is not newer. -/

namespace Latest
universe u v w
variable {α : Type u} {β : Type v} {γ : Type w} [LinearOrder β] (rank : α → β) (refresh : α → α → α)

def offer (held : Option α) (heard : α) : Option α :=
  match held with
  | none => some heard
  | some old => if rank heard ≤ rank old then some (refresh old heard) else some heard

variable (view : α → γ)

/-- Up to what a refresh may touch, the register holds the first of the
values with the highest rank. -/
theorem view_foldl (sameRank : ∀ old heard, rank (refresh old heard) = rank old)
    (sameView : ∀ old heard, view (refresh old heard) = view old) (offers : List α) :
    (offers.foldl (offer rank refresh) none).map (fun held => (rank held, view held)) =
      (offers.argmax rank).map (fun first => (rank first, view first)) := by
  induction offers using List.reverseRecOn with
  | nil => rfl
  | append_singleton offers heard ih =>
    rw [List.foldl_append, List.foldl_cons, List.foldl_nil, List.argmax_concat]
    cases best : offers.argmax rank with
    | none =>
      rw [best, Option.map_none, Option.map_eq_none_iff] at ih
      rw [ih]
      rfl
    | some first =>
      rw [best, Option.map_some] at ih
      obtain ⟨held, holds, same⟩ := Option.map_eq_some_iff.mp ih
      obtain ⟨ranked, viewed⟩ := Prod.mk.inj same
      rw [holds]
      by_cases older : rank heard ≤ rank first
      · simp only [offer, ranked, older, not_lt.mpr older, if_true, if_false, Option.map_some, sameRank, sameView,
          viewed]
      · simp only [offer, ranked, older, not_le.mp older, if_true, if_false, Option.map_some]

/-- No value offered so far is newer than the one that is held. -/
theorem rank_le_of_mem (sameRank : ∀ old heard, rank (refresh old heard) = rank old) {offers : List α} {heard : α}
    (offered : heard ∈ offers) :
    ∃ held, offers.foldl (offer rank refresh) none = some held ∧ rank heard ≤ rank held := by
  have settled := view_foldl rank refresh (fun _ => ()) sameRank (fun _ _ => rfl) offers
  cases best : offers.argmax rank with
  | none =>
    rw [List.argmax_eq_none.mp best] at offered
    cases offered
  | some first =>
    rw [best, Option.map_some] at settled
    obtain ⟨held, holds, same⟩ := Option.map_eq_some_iff.mp settled
    exact ⟨held, holds, (Prod.mk.inj same).1 ▸ List.le_of_mem_argmax offered best⟩

end Latest
