import Mathlib.Data.List.Basic

/- Lists in order of age that are swept from the front: everything expired is
dropped up to the first entry that is not. -/

namespace Expiry
universe u
variable {α : Type u} {expired later : α → Bool}

/-- Entries swept earlier are swept later as well. -/
theorem dropWhile_append_of_imp (stays : ∀ a, expired a = true → later a = true) (entries new : List α) :
    (entries.dropWhile expired ++ new).dropWhile later = (entries ++ new).dropWhile later := by
  induction entries with
  | nil => rfl
  | cons a rest ih =>
    cases due : expired a with
    | false => rw [List.dropWhile_cons_of_neg (by simp [due])]
    | true =>
      rw [List.dropWhile_cons_of_pos due, List.cons_append, List.dropWhile_cons_of_pos (stays a due), ih]

/-- A live entry keeps itself and everything after it. -/
theorem le_length_dropWhile {entries : List α} {i : Nat} {a : α} (found : entries[i]? = some a)
    (live : expired a = false) : entries.length - i ≤ (entries.dropWhile expired).length := by
  induction entries generalizing i with
  | nil => simp
  | cons first rest ih =>
    cases due : expired first with
    | false =>
      rw [List.dropWhile_cons_of_neg (by simp [due])]
      omega
    | true =>
      rw [List.dropWhile_cons_of_pos due]
      cases i with
      | zero =>
        rw [List.getElem?_cons_zero, Option.some.injEq] at found
        rw [found, live] at due
        exact absurd due Bool.false_ne_true
      | succ i =>
        rw [List.getElem?_cons_succ] at found
        have kept := ih found
        rw [List.length_cons]
        omega

/-- The sweep leaves a tail that begins with a live entry. -/
theorem dropWhile_eq_drop (entries : List α) :
    entries.dropWhile expired = entries.drop (entries.length - (entries.dropWhile expired).length) :=
  List.suffix_iff_eq_drop.mp (List.dropWhile_suffix expired)

theorem live_of_head {entries rest : List α} {a : α} (head : entries.dropWhile expired = a :: rest) :
    expired a = false := by
  have stopped := List.head?_dropWhile_not expired entries
  rw [head, List.head?_cons] at stopped
  exact Bool.eq_false_iff.mpr (by simpa using stopped)

/-- Where `n` entries are left, the `n`th from the end is live. -/
theorem exists_live_of_length {entries : List α} {n : Nat} (positive : 0 < n)
    (left : (entries.dropWhile expired).length = n) :
    n ≤ entries.length ∧ ∃ a ∈ entries[entries.length - n]?, expired a = false := by
  have tail := @dropWhile_eq_drop _ expired entries
  rw [left] at tail
  refine ⟨left ▸ (List.dropWhile_sublist expired).length_le, ?_⟩
  cases kept : entries.dropWhile expired with
  | nil =>
    rw [kept, List.length_nil] at left
    omega
  | cons a rest =>
    refine ⟨a, ?_, live_of_head kept⟩
    rw [← List.head?_drop, ← tail, kept]
    rfl

end Expiry
