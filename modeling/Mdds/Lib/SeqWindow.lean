import Mathlib.Order.Basic

/- A baseline with a window of flags above it, as receivers of numbered
messages keep it: every number up to the baseline is recorded, and above it
bit `i` records the number `base + 1 + i`. The width is arbitrary. -/

namespace SeqWindow
variable {w : Nat}

/-- The numbers recorded by a baseline and a window. -/
def Holds (base : Nat) (window : BitVec w) (s : Nat) : Prop :=
  s ≤ base ∨ window.getLsbD (s - (base + 1)) = true

instance (base : Nat) (window : BitVec w) (s : Nat) : Decidable (Holds base window s) :=
  inferInstanceAs (Decidable (_ ∨ _))

theorem holds_of_le {base s : Nat} (window : BitVec w) (le : s ≤ base) : Holds base window s :=
  Or.inl le

theorem holds_above {base s : Nat} {window : BitVec w} (above : base < s) :
    Holds base window s ↔ window.getLsbD (s - (base + 1)) = true := by
  simp only [Holds, Nat.not_le.mpr above, false_or]

theorem holds_bit {base i : Nat} {window : BitVec w} :
    Holds base window (base + 1 + i) ↔ window.getLsbD i = true := by
  rw [holds_above (by omega), Nat.add_sub_cancel_left]

/-- Nothing is recorded beyond the end of the window. -/
theorem Holds.le_end {base s : Nat} {window : BitVec w} (held : Holds base window s) :
    s ≤ base + w := by
  rcases held with low | bit
  · omega
  · have within := BitVec.lt_of_getLsbD bit
    omega

theorem holds_zero {base s : Nat} : Holds base (0#w) s ↔ s ≤ base := by
  simp [Holds]

theorem getLsbD_bit {k i : Nat} (within : k < w) : (1#w <<< k).getLsbD i = decide (i = k) := by
  rw [← BitVec.twoPow_eq, BitVec.getLsbD_twoPow]
  simp [within, eq_comm]

/-- Setting bit `k` records exactly one more number. -/
theorem holds_set {base k s : Nat} {window : BitVec w} (within : k < w) :
    Holds base (window ||| 1#w <<< k) s ↔ Holds base window s ∨ s = base + 1 + k := by
  by_cases low : s ≤ base
  · simp only [Holds, low, true_or]
  · simp only [Holds, low, false_or, BitVec.getLsbD_or, getLsbD_bit within, Bool.or_eq_true,
      decide_eq_true_eq]
    constructor
    · exact Or.imp_right (fun same => by omega)
    · exact Or.imp_right (fun same => by omega)

/-- Advancing the baseline by `n` and shifting the window with it records
everything up to the new baseline and forgets nothing. -/
theorem holds_shift {base n s : Nat} {window : BitVec w} :
    Holds (base + n) (window >>> n) s ↔ s ≤ base + n ∨ Holds base window s := by
  by_cases low : s ≤ base + n
  · simp only [Holds, low, true_or]
  · have shifted : n + (s - (base + n + 1)) = s - (base + 1) := by omega
    have above : ¬ s ≤ base := by omega
    simp only [Holds, low, above, false_or, BitVec.getLsbD_ushiftRight, shifted]

/-- Advancing over a set lowest bit changes nothing that is recorded. -/
theorem holds_shift_one {base s : Nat} {window : BitVec w} (first : window.getLsbD 0 = true) :
    Holds (base + 1) (window >>> 1) s ↔ Holds base window s := by
  rw [holds_shift]
  refine ⟨fun held => held.elim (fun low => ?_) id, Or.inr⟩
  by_cases next : s = base + 1
  · subst next
    exact holds_bit.mpr first
  · exact holds_of_le window (by omega)

/-- How many of the `n` numbers above the baseline are recorded: only the
first `w` positions need to be looked at. -/
theorem countP_holds (base n : Nat) (window : BitVec w) :
    (List.range' (base + 1) n).countP (fun s => Holds base window s) =
      (List.range (min n w)).countP window.getLsbD := by
  induction n with
  | zero => simp
  | succ n ih =>
    rw [List.range'_concat, List.countP_append, ih, Nat.one_mul]
    have last : decide (Holds base window (base + 1 + n)) = window.getLsbD n := by
      simp [holds_bit]
    by_cases inside : n < w
    · rw [Nat.min_eq_left (by omega : n ≤ w), Nat.min_eq_left (by omega : n + 1 ≤ w), List.range_succ,
        List.countP_append, List.countP_singleton, List.countP_singleton, last]
    · rw [Nat.min_eq_right (by omega : w ≤ n), Nat.min_eq_right (by omega : w ≤ n + 1), List.countP_singleton,
        last, BitVec.getLsbD_of_ge window n (by omega)]
      simp

end SeqWindow
