import Mathlib.Order.Basic

/- Sets of numbers kept as ascending lists of half-open intervals with a hole
between neighbours, and the one-pass insertion of a further interval. -/

namespace Intervals

/-- `i` lies in one of the intervals. -/
def Covers (intervals : List (Nat × Nat)) (i : Nat) : Prop := ∃ iv ∈ intervals, iv.1 ≤ i ∧ i < iv.2

/-- Ascending, never touching. Empty intervals are allowed. -/
structure Separated (intervals : List (Nat × Nat)) : Prop where
  ordered : ∀ iv ∈ intervals, iv.1 ≤ iv.2
  apart : intervals.Pairwise (fun a b => a.2 < b.1)

/-- One pass with a current interval: earlier ones stay, the first later one
takes its place, the others are absorbed. -/
def insert (cur : Nat × Nat) : List (Nat × Nat) → List (Nat × Nat)
  | [] => [cur]
  | iv :: rest =>
    if iv.2 < cur.1 then iv :: insert cur rest
    else if cur.2 < iv.1 then cur :: insert iv rest
    else insert (min cur.1 iv.1, max cur.2 iv.2) rest

@[simp] theorem not_covers_nil (i : Nat) : ¬ Covers [] i := by simp [Covers]

@[simp] theorem covers_cons {iv : Nat × Nat} {rest : List (Nat × Nat)} {i : Nat} :
    Covers (iv :: rest) i ↔ (iv.1 ≤ i ∧ i < iv.2) ∨ Covers rest i := by
  simp [Covers]

/-- Insertion is union. -/
theorem covers_insert {cur : Nat × Nat} {intervals : List (Nat × Nat)} {i : Nat} :
    Covers (insert cur intervals) i ↔ (cur.1 ≤ i ∧ i < cur.2) ∨ Covers intervals i := by
  induction intervals generalizing cur with
  | nil => simp [insert]
  | cons iv rest ih =>
    unfold insert
    split
    · rw [covers_cons, ih, covers_cons]
      exact or_left_comm
    · split
      · rw [covers_cons, ih, covers_cons]
      · rw [ih, covers_cons, ← or_assoc]
        refine or_congr_left ?_
        dsimp only
        omega

/-- An interval of the result begins where some interval began. -/
theorem begin_insert {cur iv : Nat × Nat} {intervals : List (Nat × Nat)} (member : iv ∈ insert cur intervals) :
    iv.1 = cur.1 ∨ ∃ old ∈ intervals, iv.1 = old.1 := by
  induction intervals generalizing cur with
  | nil => exact Or.inl (congrArg Prod.fst (List.mem_singleton.mp member))
  | cons first rest ih =>
    unfold insert at member
    split at member
    · rcases List.mem_cons.mp member with rfl | later
      · exact Or.inr ⟨iv, List.mem_cons_self, rfl⟩
      · exact (ih later).imp_right (fun ⟨old, inside, same⟩ => ⟨old, List.mem_cons_of_mem _ inside, same⟩)
    · split at member
      · rcases List.mem_cons.mp member with rfl | later
        · exact Or.inl rfl
        · rcases ih later with same | ⟨old, inside, same⟩
          · exact Or.inr ⟨first, List.mem_cons_self, same⟩
          · exact Or.inr ⟨old, List.mem_cons_of_mem _ inside, same⟩
      · rcases ih member with same | ⟨old, inside, same⟩
        · dsimp only at same
          by_cases smaller : cur.1 ≤ first.1
          · exact Or.inl (by omega)
          · exact Or.inr ⟨first, List.mem_cons_self, by omega⟩
        · exact Or.inr ⟨old, List.mem_cons_of_mem _ inside, same⟩

/-- The ends of the result stay below any bound on the ends. -/
theorem end_insert_le {cur : Nat × Nat} {intervals : List (Nat × Nat)} {n : Nat} (within : cur.2 ≤ n)
    (others : ∀ iv ∈ intervals, iv.2 ≤ n) : ∀ iv ∈ insert cur intervals, iv.2 ≤ n := by
  induction intervals generalizing cur with
  | nil => simpa [insert] using within
  | cons first rest ih =>
    obtain ⟨here, later⟩ := List.forall_mem_cons.mp others
    unfold insert
    split
    · exact List.forall_mem_cons.mpr ⟨here, ih within later⟩
    · split
      · exact List.forall_mem_cons.mpr ⟨within, ih here later⟩
      · exact ih (Nat.max_le.mpr ⟨within, here⟩) later

theorem Separated.nil : Separated [] := ⟨by simp, List.Pairwise.nil⟩

theorem Separated.tail {iv : Nat × Nat} {rest : List (Nat × Nat)} (separated : Separated (iv :: rest)) :
    Separated rest :=
  ⟨fun later inside => separated.ordered later (List.mem_cons_of_mem _ inside), (List.pairwise_cons.mp separated.apart).2⟩

theorem Separated.cons {iv : Nat × Nat} {rest : List (Nat × Nat)} (ordered : iv.1 ≤ iv.2) (separated : Separated rest)
    (apart : ∀ later ∈ rest, iv.2 < later.1) : Separated (iv :: rest) :=
  ⟨List.forall_mem_cons.mpr ⟨ordered, separated.ordered⟩, List.pairwise_cons.mpr ⟨apart, separated.apart⟩⟩

theorem Separated.insert {cur : Nat × Nat} {intervals : List (Nat × Nat)} (ordered : cur.1 ≤ cur.2)
    (separated : Separated intervals) : Separated (insert cur intervals) := by
  induction intervals generalizing cur with
  | nil => exact .cons ordered .nil (by simp)
  | cons first rest ih =>
    have firstOrdered := separated.ordered first List.mem_cons_self
    have beyond := (List.pairwise_cons.mp separated.apart).1
    unfold Intervals.insert
    split
    · rename_i before
      refine .cons firstOrdered (ih ordered separated.tail) (fun later inside => ?_)
      rcases begin_insert inside with same | ⟨old, known, same⟩
      · omega
      · have next := beyond old known
        omega
    · split
      · rename_i after
        refine .cons ordered (ih firstOrdered separated.tail) (fun later inside => ?_)
        rcases begin_insert inside with same | ⟨old, known, same⟩
        · omega
        · have next := beyond old known
          omega
      · exact ih (by dsimp only; omega) separated.tail

/-- A separated list within `[0, n)` that covers all of it is that one interval. -/
theorem Separated.whole_iff {intervals : List (Nat × Nat)} {n : Nat} (separated : Separated intervals)
    (within : ∀ iv ∈ intervals, iv.2 ≤ n) (positive : 0 < n) :
    intervals = [(0, n)] ↔ ∀ i < n, Covers intervals i := by
  constructor
  · rintro rfl i below
    exact covers_cons.mpr (Or.inl ⟨Nat.zero_le i, below⟩)
  · intro covered
    cases intervals with
    | nil => exact absurd (covered 0 positive) (not_covers_nil 0)
    | cons first rest =>
      have beyond := (List.pairwise_cons.mp separated.apart).1
      have firstOrdered := separated.ordered first List.mem_cons_self
      have last := within first List.mem_cons_self
      -- The first interval begins at 0, for every later one begins beyond its end.
      have start : first.1 = 0 := by
        rcases covers_cons.mp (covered 0 positive) with ⟨low, _⟩ | ⟨iv, inside, low, _⟩
        · omega
        · have next := beyond iv inside
          omega
      -- It ends at n, for the number at its end would be in a later interval.
      have stop : first.2 = n := by
        by_contra short
        rcases covers_cons.mp (covered first.2 (by omega)) with ⟨_, high⟩ | ⟨iv, inside, low, _⟩
        · omega
        · have next := beyond iv inside
          omega
      have alone : rest = [] := by
        refine List.eq_nil_iff_forall_not_mem.mpr (fun iv inside => ?_)
        have next := beyond iv inside
        have ordered := separated.ordered iv (List.mem_cons_of_mem _ inside)
        have bound := within iv (List.mem_cons_of_mem _ inside)
        omega
      rw [alone, ← start, ← stop]

end Intervals
