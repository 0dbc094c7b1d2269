import Mathlib.Algebra.Order.Group.Nat
import Mathlib.Data.List.Nodup
import Mdds.Lib.SeqWindow
import Mdds.Reader

namespace Mdds

theorem bitSet_eq_getLsbD {window : U64} {i : Nat} (within : i < 64) : bitSet window i = window.getLsbD i := by
  have masked (j : Nat) : (window &&& 1#64 <<< i).getLsbD j = (window.getLsbD j && decide (j = i)) := by
    rw [BitVec.getLsbD_and, SeqWindow.getLsbD_bit within]
  cases bit : window.getLsbD i with
  | true =>
    have here := masked i
    simp only [bitSet, decide_eq_true_eq]
    intro zero
    simp [zero, bit] at here
  | false =>
    have zero : window &&& 1#64 <<< i = 0 := by
      apply BitVec.eq_of_getLsbD_eq
      intro j _
      rw [masked]
      by_cases same : j = i <;> simp [same, bit]
    simp [bitSet, zero]

namespace WriterRxState

/-- The settled seqs: received, or given up because the baseline passed them. -/
def Settled (st : WriterRxState) (s : Nat) : Prop := SeqWindow.Holds st.lastSeq.toNat st.window s

instance (st : WriterRxState) (s : Nat) : Decidable (st.Settled s) :=
  inferInstanceAs (Decidable (SeqWindow.Holds _ _ _))

/-- No window bit stands for a number beyond the 64-bit seqs. -/
def InRange (st : WriterRxState) : Prop := ∀ s, st.Settled s → s < 2 ^ 64

/-- The seq lies beyond the window: the branch with `offset >= 64`. -/
def Jumps (st : WriterRxState) (seq : U64) : Prop := st.lastSeq.toNat + 64 < seq.toNat

instance (st : WriterRxState) (seq : U64) : Decidable (st.Jumps seq) :=
  inferInstanceAs (Decidable (_ < _))

theorem settled_of_le {st : WriterRxState} {s : Nat} (le : s ≤ st.lastSeq.toNat) : st.Settled s :=
  SeqWindow.holds_of_le _ le

theorem settled_initial {s : Nat} : ({} : WriterRxState).Settled s ↔ s = 0 := by
  simp [Settled, SeqWindow.holds_zero]

theorem settled_cleared {seq : U64} {s : Nat} : (⟨seq, 0⟩ : WriterRxState).Settled s ↔ s ≤ seq.toNat :=
  SeqWindow.holds_zero

theorem inRange_cleared (seq : U64) : (⟨seq, 0⟩ : WriterRxState).InRange := by
  intro s settled
  have bound := seq.isLt
  have le := settled_cleared.mp settled
  omega

theorem inRange_initial : ({} : WriterRxState).InRange := inRange_cleared 0

/-- Everything `receive` can do, with the offset read as a natural number. -/
theorem receive_cases (st : WriterRxState) (seq : U64) :
    (seq.toNat ≤ st.lastSeq.toNat ∧ st.receive seq = { state := st }) ∨
    (st.Jumps seq ∧
      st.receive seq = { state := ⟨seq, 0⟩, isNew := true, lost := seq - st.lastSeq - 1 }) ∨
    (∃ k, 0 < k ∧ k < 64 ∧ seq.toNat = st.lastSeq.toNat + 1 + k ∧ st.window.getLsbD k = true ∧
      st.receive seq = { state := st }) ∨
    (∃ k, 0 < k ∧ k < 64 ∧ seq.toNat = st.lastSeq.toNat + 1 + k ∧ st.window.getLsbD k = false ∧
      st.receive seq =
        { state := ⟨st.lastSeq, st.window ||| 1#64 <<< k⟩
          isNew := true
          gap := some (st.lastSeq + 1, st.window ||| 1#64 <<< k) }) ∨
    (seq.toNat = st.lastSeq.toNat + 1 ∧
      st.receive seq =
        { state := slide 64 ⟨st.lastSeq + 1, st.window >>> 1⟩, isNew := !st.window.getLsbD 0 }) := by
  have bound := seq.isLt
  by_cases stale : seq ≤ st.lastSeq
  · exact Or.inl ⟨BitVec.le_def.mp stale, by simp only [receive, if_pos stale]⟩
  have above : st.lastSeq.toNat < seq.toNat := by
    rw [BitVec.le_def] at stale
    omega
  have offset : (seq - st.lastSeq - 1).toNat = seq.toNat - st.lastSeq.toNat - 1 := by bv_omega
  right
  by_cases jump : 64 ≤ seq - st.lastSeq - 1
  · refine Or.inl ⟨?_, by simp only [receive, if_neg stale, if_pos jump]⟩
    have far := BitVec.le_def.mp jump
    rw [offset] at far
    change 64 ≤ _ at far
    unfold Jumps
    omega
  right
  have near : seq.toNat - st.lastSeq.toNat - 1 < 64 := by
    rw [BitVec.le_def, offset] at jump
    change ¬ 64 ≤ _ at jump
    omega
  have bit : bitSet st.window _ = _ := bitSet_eq_getLsbD near
  by_cases ahead : 0 < seq - st.lastSeq - 1
  · have positive : 0 < seq.toNat - st.lastSeq.toNat - 1 := by
      rw [BitVec.lt_def, offset] at ahead
      exact ahead
    rw [← or_assoc]
    left
    cases received : st.window.getLsbD (seq.toNat - st.lastSeq.toNat - 1) with
    | true =>
      refine Or.inl ⟨_, positive, near, by omega, received, ?_⟩
      simp only [receive, if_neg stale, if_neg jump, if_pos ahead, offset, bit, received, if_true]
    | false =>
      refine Or.inr ⟨_, positive, near, by omega, received, ?_⟩
      simp only [receive, if_neg stale, if_neg jump, if_pos ahead, offset, bit, received]
      rfl
  · right; right
    have next : seq.toNat = st.lastSeq.toNat + 1 := by
      rw [BitVec.lt_def, offset] at ahead
      change ¬ 0 < _ at ahead
      omega
    refine ⟨next, ?_⟩
    simp only [receive, if_neg stale, if_neg jump, if_neg ahead, bitSet_eq_getLsbD (by decide : 0 < 64)]

theorem lastSeq_succ {st : WriterRxState} (range : st.InRange) (first : st.window.getLsbD 0 = true) :
    (st.lastSeq + 1).toNat = st.lastSeq.toNat + 1 := by
  have bound := range (st.lastSeq.toNat + 1) (SeqWindow.holds_bit.mpr first)
  bv_omega

theorem slide_stop {fuel : Nat} {st : WriterRxState} (first : st.window.getLsbD 0 = false) :
    slide fuel st = st := by
  cases fuel with
  | zero => rfl
  | succ fuel => simp only [slide, bitSet_eq_getLsbD (by decide : 0 < 64), first, Bool.false_eq_true, if_false]

theorem slide_turn {fuel : Nat} {st : WriterRxState} (first : st.window.getLsbD 0 = true) :
    slide (fuel + 1) st = slide fuel ⟨st.lastSeq + 1, st.window >>> 1⟩ := by
  simp only [slide, bitSet_eq_getLsbD (by decide : 0 < 64), first, if_true]

theorem turn_settled {st : WriterRxState} (range : st.InRange) (first : st.window.getLsbD 0 = true) (s : Nat) :
    (⟨st.lastSeq + 1, st.window >>> 1⟩ : WriterRxState).Settled s ↔ st.Settled s := by
  rw [Settled, lastSeq_succ range first]
  exact SeqWindow.holds_shift_one first

theorem slide_settled {fuel : Nat} {st : WriterRxState} (range : st.InRange) (s : Nat) :
    (slide fuel st).Settled s ↔ st.Settled s := by
  induction fuel generalizing st with
  | zero => rfl
  | succ fuel ih =>
    cases first : st.window.getLsbD 0 with
    | false => rw [slide_stop first]
    | true =>
      rw [slide_turn first, ih, turn_settled range first]
      exact fun x settled => range x ((turn_settled range first x).mp settled)

theorem slide_lastSeq_ge {fuel : Nat} {st : WriterRxState} (range : st.InRange) :
    st.lastSeq.toNat ≤ (slide fuel st).lastSeq.toNat := by
  induction fuel generalizing st with
  | zero => rfl
  | succ fuel ih =>
    cases first : st.window.getLsbD 0 with
    | false => rw [slide_stop first]
    | true =>
      rw [slide_turn first]
      have later : (st.lastSeq + 1).toNat ≤ _ :=
        ih (fun x settled => range x ((turn_settled range first x).mp settled))
      rw [lastSeq_succ range first] at later
      omega

/-- The loop runs until the lowest bit is clear: the baseline is followed by
a missing seq again. -/
theorem slide_first_clear {fuel : Nat} {st : WriterRxState}
    (enough : ∀ i, fuel ≤ i → st.window.getLsbD i = false) : (slide fuel st).window.getLsbD 0 = false := by
  induction fuel generalizing st with
  | zero => exact enough 0 le_rfl
  | succ fuel ih =>
    cases first : st.window.getLsbD 0 with
    | false => rw [slide_stop first, first]
    | true =>
      rw [slide_turn first]
      apply ih
      intro i above
      rw [BitVec.getLsbD_ushiftRight]
      exact enough (1 + i) (by omega)

/-- The slid state of a contiguous arrival, before the loop starts. -/
theorem settled_contiguous {st : WriterRxState} {seq : U64} (next : seq.toNat = st.lastSeq.toNat + 1)
    (s : Nat) : (⟨st.lastSeq + 1, st.window >>> 1⟩ : WriterRxState).Settled s ↔ st.Settled s ∨ s = seq.toNat := by
  have bound := seq.isLt
  have moved : (st.lastSeq + 1).toNat = st.lastSeq.toNat + 1 := by bv_omega
  rw [Settled, moved, SeqWindow.holds_shift, or_comm, next]
  refine or_congr_right' (fun above => ?_)
  have notBelow : ¬ s ≤ st.lastSeq.toNat := fun low => above (settled_of_le low)
  omega

theorem receive_isNew {st : WriterRxState} {seq : U64} :
    (st.receive seq).isNew = true ↔ ¬ st.Settled seq.toNat := by
  rcases st.receive_cases seq with ⟨stale, same⟩ | ⟨jump, same⟩ | ⟨k, _, _, at_, bit, same⟩ |
    ⟨k, _, _, at_, bit, same⟩ | ⟨next, same⟩
  · simp [same, settled_of_le stale]
  · have absent : ¬ st.Settled seq.toNat := fun settled => by
      have bound := settled.le_end
      unfold Jumps at jump
      omega
    simp [same, absent]
  · simp [same, Settled, at_, SeqWindow.holds_bit, bit]
  · simp [same, Settled, at_, SeqWindow.holds_bit, bit]
  · rw [same, next, Settled, SeqWindow.holds_bit (i := 0)]
    simp

theorem receive_settled {st : WriterRxState} (range : st.InRange) (seq : U64) (s : Nat) :
    (st.receive seq).state.Settled s ↔
      st.Settled s ∨ s = seq.toNat ∨ (st.Jumps seq ∧ s < seq.toNat) := by
  rcases st.receive_cases seq with ⟨stale, same⟩ | ⟨jump, same⟩ | ⟨k, _, _, at_, bit, same⟩ |
    ⟨k, _, within, at_, bit, same⟩ | ⟨next, same⟩
  · have near : ¬ st.Jumps seq := by unfold Jumps; omega
    simp only [same, near, false_and, or_false]
    exact ⟨Or.inl, fun settled => settled.elim id (fun here => here ▸ settled_of_le stale)⟩
  · have far := jump
    unfold Jumps at far
    rw [same, settled_cleared]
    simp only [jump, true_and]
    refine ⟨fun le => by omega, fun settled => ?_⟩
    rcases settled with old | here | below
    · have bound := SeqWindow.Holds.le_end old
      omega
    · omega
    · omega
  · have near : ¬ st.Jumps seq := by unfold Jumps; omega
    simp only [same, near, false_and, or_false]
    refine ⟨Or.inl, fun settled => settled.elim id (fun here => ?_)⟩
    rw [here, at_]
    exact SeqWindow.holds_bit.mpr bit
  · have near : ¬ st.Jumps seq := by unfold Jumps; omega
    simp only [same, near, false_and, or_false, at_]
    exact SeqWindow.holds_set within
  · have near : ¬ st.Jumps seq := by unfold Jumps; omega
    simp only [same, near, false_and, or_false]
    rw [slide_settled, settled_contiguous next]
    intro x settled
    rcases (settled_contiguous next x).mp settled with old | here
    · exact range x old
    · exact here ▸ seq.isLt

theorem receive_inRange {st : WriterRxState} (range : st.InRange) (seq : U64) :
    (st.receive seq).state.InRange := by
  intro s settled
  have bound := seq.isLt
  rcases (receive_settled range seq s).mp settled with old | here | ⟨_, below⟩
  · exact range s old
  · omega
  · omega

theorem receive_lost {st : WriterRxState} (seq : U64) :
    (st.receive seq).lost.toNat = if st.Jumps seq then seq.toNat - st.lastSeq.toNat - 1 else 0 := by
  rcases st.receive_cases seq with ⟨stale, same⟩ | ⟨jump, same⟩ | ⟨k, _, _, at_, _, same⟩ |
    ⟨k, _, _, at_, _, same⟩ | ⟨next, same⟩
  · simp [same, show ¬ st.Jumps seq by unfold Jumps; omega]
  · have far := jump
    unfold Jumps at far
    rw [same, if_pos jump]
    bv_omega
  · simp [same, show ¬ st.Jumps seq by unfold Jumps; omega]
  · simp [same, show ¬ st.Jumps seq by unfold Jumps; omega]
  · simp [same, show ¬ st.Jumps seq by unfold Jumps; omega]

theorem receive_lastSeq_ge {st : WriterRxState} (range : st.InRange) (seq : U64) :
    st.lastSeq.toNat ≤ (st.receive seq).state.lastSeq.toNat := by
  rcases st.receive_cases seq with ⟨_, same⟩ | ⟨jump, same⟩ | ⟨_, _, _, _, _, same⟩ |
    ⟨_, _, _, _, _, same⟩ | ⟨next, same⟩
  · rw [same]
  · rw [same]
    unfold Jumps at jump
    exact (by omega : st.lastSeq.toNat ≤ seq.toNat)
  · rw [same]
  · rw [same]
  · have bound := seq.isLt
    have moved : (st.lastSeq + 1).toNat = st.lastSeq.toNat + 1 := by bv_omega
    have moving : (⟨st.lastSeq + 1, st.window >>> 1⟩ : WriterRxState).InRange := by
      intro x settled
      rcases (settled_contiguous next x).mp settled with old | here
      · exact range x old
      · exact here ▸ seq.isLt
    have later : (st.lastSeq + 1).toNat ≤ (slide 64 _).lastSeq.toNat := slide_lastSeq_ge moving
    rw [moved] at later
    rw [same]
    exact (by omega : st.lastSeq.toNat ≤ (slide 64 ⟨st.lastSeq + 1, st.window >>> 1⟩).lastSeq.toNat)

/-- Receiving never leaves the baseline below a receipt that it could have
slid over, provided it was not left so before. -/
theorem receive_first_clear {st : WriterRxState} (seq : U64) (first : st.window.getLsbD 0 = false) :
    (st.receive seq).state.window.getLsbD 0 = false := by
  rcases st.receive_cases seq with ⟨_, same⟩ | ⟨_, same⟩ | ⟨_, _, _, _, _, same⟩ |
    ⟨k, positive, within, _, _, same⟩ | ⟨_, same⟩
  · rw [same]; exact first
  · simp [same]
  · rw [same]; exact first
  · rw [same, BitVec.getLsbD_or, first, SeqWindow.getLsbD_bit within]
    simp [show (0 : Nat) ≠ k by omega]
  · rw [same]
    exact slide_first_clear (fun i above => BitVec.getLsbD_of_ge _ _ above)

/-- A detected gap reports the state after the arrival. -/
theorem receive_gap {st : WriterRxState} {seq base bitmap : U64}
    (gap : (st.receive seq).gap = some (base, bitmap)) :
    (st.receive seq).isNew = true ∧ (st.receive seq).state = ⟨st.lastSeq, bitmap⟩ ∧ base = st.lastSeq + 1 := by
  rcases st.receive_cases seq with ⟨_, same⟩ | ⟨_, same⟩ | ⟨_, _, _, _, _, same⟩ |
    ⟨_, _, _, _, _, same⟩ | ⟨_, same⟩
  · simp [same] at gap
  · simp [same] at gap
  · simp [same] at gap
  · rw [same] at gap ⊢
    obtain ⟨rfl, rfl⟩ := Prod.mk.inj (Option.some.inj gap)
    exact ⟨rfl, rfl, rfl⟩
  · simp [same] at gap

/-- The seqs above the baseline up to `stop` that were never received. -/
def missingUpTo (st : WriterRxState) (stop : Nat) : List Nat :=
  (List.range' (st.lastSeq.toNat + 1) (stop - st.lastSeq.toNat)).filter (fun s => !decide (st.Settled s))

theorem mem_missingUpTo {st : WriterRxState} {stop s : Nat} :
    s ∈ st.missingUpTo stop ↔ s ≤ stop ∧ ¬ st.Settled s := by
  simp only [missingUpTo, List.mem_filter, List.mem_range'_1, Bool.not_eq_true', decide_eq_false_iff_not]
  constructor
  · rintro ⟨⟨lower, upper⟩, absent⟩
    exact ⟨by omega, absent⟩
  · rintro ⟨upper, absent⟩
    have above : ¬ s ≤ st.lastSeq.toNat := fun low => absent (settled_of_le low)
    exact ⟨⟨by omega, by omega⟩, absent⟩

theorem missingUpTo_nodup (st : WriterRxState) (stop : Nat) : (st.missingUpTo stop).Nodup :=
  List.Nodup.filter _ List.nodup_range'

theorem passGap_cases (st : WriterRxState) (gapEnd : U64) :
    (gapEnd.toNat ≤ st.lastSeq.toNat ∧ st.passGap gapEnd = (st, 0)) ∨
    (st.lastSeq.toNat < gapEnd.toNat ∧
      (st.passGap gapEnd).1 = ⟨gapEnd, st.window >>> (gapEnd.toNat - st.lastSeq.toNat)⟩ ∧
      (st.passGap gapEnd).2.toNat = (st.missingUpTo gapEnd.toNat).length) := by
  by_cases old : gapEnd ≤ st.lastSeq
  · exact Or.inl ⟨BitVec.le_def.mp old, by simp only [passGap, if_pos old]⟩
  have above : st.lastSeq.toNat < gapEnd.toNat := by
    rw [BitVec.le_def] at old
    omega
  have bound := gapEnd.isLt
  have span : (gapEnd - st.lastSeq).toNat = gapEnd.toNat - st.lastSeq.toNat := by bv_omega
  refine Or.inr ⟨above, ?_, ?_⟩
  · simp only [passGap, if_neg old, span]
    by_cases far : 64 ≤ gapEnd - st.lastSeq
    · have wide := BitVec.le_def.mp far
      rw [span] at wide
      change 64 ≤ _ at wide
      rw [if_pos far, BitVec.ushiftRight_eq_zero wide]
      rfl
    · rw [if_neg far]
  · have missing : (st.missingUpTo gapEnd.toNat).length + (List.range (min (gapEnd.toNat - st.lastSeq.toNat) 64)).countP
        st.window.getLsbD = gapEnd.toNat - st.lastSeq.toNat := by
      rw [← SeqWindow.countP_holds st.lastSeq.toNat, missingUpTo, ← List.countP_eq_length_filter, Nat.add_comm]
      have split := List.length_eq_countP_add_countP (fun s => decide (st.Settled s))
        (l := List.range' (st.lastSeq.toNat + 1) (gapEnd.toNat - st.lastSeq.toNat))
      simp only [List.length_range', decide_eq_true_eq, decide_not] at split
      exact split.symm
    have counted : (List.range (min (gapEnd.toNat - st.lastSeq.toNat) 64)).countP (bitSet st.window) =
        (List.range (min (gapEnd.toNat - st.lastSeq.toNat) 64)).countP st.window.getLsbD := by
      apply List.countP_congr
      intro i member
      rw [bitSet_eq_getLsbD (by have within := List.mem_range.mp member; omega)]
    simp only [passGap, if_neg old, span, counted]
    rw [BitVec.toNat_sub, span, BitVec.toNat_ofNat]
    omega

theorem passGap_settled (st : WriterRxState) (gapEnd : U64) (s : Nat) :
    (st.passGap gapEnd).1.Settled s ↔ st.Settled s ∨ s ≤ gapEnd.toNat := by
  rcases st.passGap_cases gapEnd with ⟨old, same⟩ | ⟨above, state, _⟩
  · rw [same]
    exact ⟨Or.inl, fun settled => settled.elim id (fun low => settled_of_le (Nat.le_trans low old))⟩
  · have moved : gapEnd.toNat = st.lastSeq.toNat + (gapEnd.toNat - st.lastSeq.toNat) := by omega
    rw [state, Settled]
    dsimp only
    rw [or_comm]
    nth_rewrite 1 [moved]
    rw [SeqWindow.holds_shift, ← moved]
    rfl

theorem passGap_inRange {st : WriterRxState} (range : st.InRange) (gapEnd : U64) :
    (st.passGap gapEnd).1.InRange := by
  intro s settled
  have bound := gapEnd.isLt
  rcases (st.passGap_settled gapEnd s).mp settled with old | low
  · exact range s old
  · omega

theorem passGap_lastSeq (st : WriterRxState) (gapEnd : U64) :
    (st.passGap gapEnd).1.lastSeq.toNat = max st.lastSeq.toNat gapEnd.toNat := by
  rcases st.passGap_cases gapEnd with ⟨old, same⟩ | ⟨above, state, _⟩
  · rw [same]
    exact (Nat.max_eq_left old).symm
  · rw [state]
    exact (Nat.max_eq_right above.le).symm

theorem passGap_lost (st : WriterRxState) (gapEnd : U64) :
    (st.passGap gapEnd).2.toNat = (st.missingUpTo gapEnd.toNat).length := by
  rcases st.passGap_cases gapEnd with ⟨old, same⟩ | ⟨_, _, lost⟩
  · have none : gapEnd.toNat - st.lastSeq.toNat = 0 := by omega
    simp [same, missingUpTo, none]
  · exact lost

end WriterRxState

end Mdds
