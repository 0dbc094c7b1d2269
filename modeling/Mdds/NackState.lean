import Mathlib.Order.Bounds.Basic
import Mdds.Participant
import Mdds.ReaderRun

namespace Mdds

/-- The baseline is followed by a missing seq. -/
def WriterRxState.Poised (st : WriterRxState) : Prop :=
  st.window.getLsbD 0 = false ∧ st.lastSeq.toNat + 1 < 2 ^ 64

theorem WriterRxState.poised_iff {st : WriterRxState} :
    st.Poised ↔ st.lastSeq.toNat + 1 < 2 ^ 64 ∧ ¬ st.Settled (st.lastSeq.toNat + 1) := by
  have bit : st.Settled (st.lastSeq.toNat + 1) ↔ st.window.getLsbD 0 = true := SeqWindow.holds_bit (i := 0)
  rw [Poised, bit, and_comm, Bool.not_eq_true]

namespace ReaderImpl

/-- A seq the reader still waits for: neither accepted nor given up. -/
def Missing (r : ReaderImpl) (ops : List ReaderOp) (g : Guid) (s : Nat) : Prop :=
  1 ≤ s ∧ s < 2 ^ 64 ∧ (g, s) ∉ r.acceptedIn ops ∧ ¬ r.GivenUpIn ops g s

/-- What an ACKNACK built from `nack_state` promises to the writer, and when
a heartbeat provokes one. -/
structure NackPrecise (r : ReaderImpl) (ops : List ReaderOp) : Prop where
  base : ∀ g, IsLeast {s | r.Missing ops g s} ((Run.exec step r ops).nackState g).1.toNat
  bitmap : ∀ g i, i < 64 → (((Run.exec step r ops).nackState g).2.getLsbD i = true ↔
    (g, ((Run.exec step r ops).nackState g).1.toNat + i) ∈ r.acceptedIn ops)
  heartbeat : ∀ writerEp body nack, (Run.exec step r ops).heartbeatNack writerEp body = some nack →
    ∃ s, s ≤ body.lastSeq.toNat ∧ r.Missing ops body.writer s

/-- The operation leaves a missing seq right above every baseline. A GAP must
not end just below a receipt, and the 64-bit seqs must not run out. -/
def KeepsFirstMissing (r : ReaderImpl) : ReaderOp → Prop
  | .enqueue writer seq _ _ _ _ _ => ∃ s, s < 2 ^ 64 ∧ ¬ r.Settled writer s ∧ s ≠ seq.toNat ∧
      ((r.rxState writer).Jumps seq → seq.toNat < s)
  | .applyGap writer _ gapEnd => gapEnd.toNat ≤ (r.rxState writer).lastSeq.toNat ∨
      gapEnd.toNat + 1 < 2 ^ 64 ∧ ¬ r.Settled writer (gapEnd.toNat + 1)
  | _ => True

variable {r : ReaderImpl}

theorem nackState_eq (r : ReaderImpl) (g : Guid) :
    r.nackState g = ((r.rxState g).lastSeq + 1, (r.rxState g).window) := by
  unfold nackState rxState
  cases r.rx g <;> rfl

theorem missing_iff (fresh : r.rx = fun _ => none) {ops : List ReaderOp} {g : Guid} {s : Nat} :
    r.Missing ops g s ↔ s < 2 ^ 64 ∧ ¬ (Run.exec step r ops).Settled g s := by
  rw [exec_settled fresh, Missing]
  constructor
  · rintro ⟨positive, bound, absent, kept⟩
    refine ⟨bound, ?_⟩
    rintro (zero | taken | given)
    · omega
    · exact absent taken
    · exact kept given
  · rintro ⟨bound, unsettled⟩
    refine ⟨?_, bound, fun taken => unsettled (Or.inr (Or.inl taken)), fun given => unsettled (Or.inr (Or.inr given))⟩
    exact Nat.one_le_iff_ne_zero.mpr (fun zero => unsettled (Or.inl zero))

theorem nackState_base {g : Guid} (room : (r.rxState g).lastSeq.toNat + 1 < 2 ^ 64) :
    (r.nackState g).1.toNat = (r.rxState g).lastSeq.toNat + 1 := by
  rw [nackState_eq]
  generalize (r.rxState g).lastSeq = last at room ⊢
  bv_omega

theorem accepted_of_settled_above (fresh : r.rx = fun _ => none) {ops : List ReaderOp} {g : Guid} {s : Nat}
    (above : ((Run.exec step r ops).rxState g).lastSeq.toNat < s) :
    (Run.exec step r ops).Settled g s ↔ (g, s) ∈ r.acceptedIn ops := by
  rw [exec_settled fresh]
  refine ⟨?_, fun taken => Or.inr (Or.inl taken)⟩
  rintro (zero | taken | given)
  · omega
  · exact taken
  · have low := GivenUpIn.le_lastSeq fresh given
    omega

/-- Precision of the NACK state is a matter of one bit and one comparison. -/
theorem nackPrecise_iff (fresh : r.rx = fun _ => none) (ops : List ReaderOp) :
    r.NackPrecise ops ↔ ∀ g, ((Run.exec step r ops).rxState g).Poised := by
  constructor
  · intro precise g
    have first := (missing_iff fresh).mp (precise.base g).1
    have positive := (precise.base g).1.1
    have room : ((Run.exec step r ops).rxState g).lastSeq.toNat + 1 < 2 ^ 64 := by
      -- the base of an exhausted writer wraps to 0, which is no seq
      rw [nackState_eq] at positive
      generalize ((Run.exec step r ops).rxState g).lastSeq = last at positive ⊢
      bv_omega
    rw [nackState_base room] at first
    exact WriterRxState.poised_iff.mpr ⟨room, first.2⟩
  · intro poised
    have least (g : Guid) : IsLeast {s | r.Missing ops g s} ((Run.exec step r ops).nackState g).1.toNat := by
      obtain ⟨room, next⟩ := WriterRxState.poised_iff.mp (poised g)
      rw [nackState_base room]
      refine ⟨(missing_iff fresh).mpr ⟨room, next⟩, fun s missing => ?_⟩
      by_contra below
      exact ((missing_iff fresh).mp missing).2 (WriterRxState.settled_of_le (by omega))
    refine ⟨least, ?_, ?_⟩
    · intro g i _
      have room := (WriterRxState.poised_iff.mp (poised g)).1
      rw [nackState_base room, ← accepted_of_settled_above fresh (by omega), nackState_eq]
      exact SeqWindow.holds_bit.symm
    · intro writerEp body nack emitted
      unfold heartbeatNack at emitted
      split at emitted
      · simp at emitted
      · split at emitted
        · simp at emitted
        · dsimp only at emitted
          split at emitted
          · rename_i behind
            exact ⟨_, BitVec.le_def.mp behind, (least body.writer).1⟩
          · simp at emitted

theorem step_poised_iff {op : ReaderOp} (range : ∀ g, (r.rxState g).InRange) (poised : ∀ g, (r.rxState g).Poised) :
    (∀ g, ((r.step op).rxState g).Poised) ↔ r.KeepsFirstMissing op := by
  -- operations on one writer leave the other writers' states alone
  have others {writer : Guid} {st : WriterRxState}
      (moved : ∀ g, (r.step op).rxState g = if g = writer then st else r.rxState g) :
      (∀ g, ((r.step op).rxState g).Poised) ↔ st.Poised := by
    constructor
    · intro all
      have here := all writer
      rwa [moved, if_pos rfl] at here
    · intro here g
      rw [moved]
      split
      · exact here
      · exact poised g
  cases op with
  | enqueue writer seq data writerQos pubTimeMs now sweepNow =>
    rw [others (step_rxState r _), KeepsFirstMissing]
    have clear := WriterRxState.receive_first_clear seq (poised writer).1
    have settled := WriterRxState.receive_settled (range writer) seq
    constructor
    · intro after
      obtain ⟨room, next⟩ := WriterRxState.poised_iff.mp after
      rw [settled] at next
      refine ⟨_, room, fun old => next (Or.inl old), fun here => next (Or.inr (Or.inl here)), fun jump => ?_⟩
      by_contra reverse
      rcases Nat.eq_or_lt_of_le (Nat.not_lt.mp reverse) with here | below
      · exact next (Or.inr (Or.inl here))
      · exact next (Or.inr (Or.inr ⟨jump, below⟩))
    · rintro ⟨s, bound, absent, different, beyond⟩
      refine ⟨clear, ?_⟩
      by_contra full
      have low : s ≤ ((r.rxState writer).receive seq).state.lastSeq.toNat := by omega
      rcases (settled s).mp (WriterRxState.settled_of_le low) with old | here | ⟨jump, below⟩
      · exact absent old
      · exact different here
      · have above := beyond jump
        omega
  | applyGap writer gapStart gapEnd =>
    rw [others (step_rxState r _), KeepsFirstMissing, WriterRxState.poised_iff, WriterRxState.passGap_lastSeq,
      WriterRxState.passGap_settled]
    obtain ⟨room, next⟩ := WriterRxState.poised_iff.mp (poised writer)
    by_cases old : gapEnd.toNat ≤ (r.rxState writer).lastSeq.toNat
    · rw [Nat.max_eq_left old]
      simp only [old, true_or, iff_true]
      exact ⟨room, fun settled => settled.elim next (by omega)⟩
    · rw [Nat.max_eq_right (by omega)]
      simp only [old, false_or]
      refine and_congr_right (fun _ => not_congr ?_)
      exact ⟨fun settled => settled.elim id (by omega), Or.inl⟩
  | take now =>
    simp only [step_rxState, KeepsFirstMissing, iff_true]
    exact poised
  | available now =>
    simp only [step_rxState, KeepsFirstMissing, iff_true]
    exact poised

/-- The NACK state is precise throughout a run exactly when no GAP of the run
ends just below an out-of-order receipt (and the seqs never run out). -/
theorem nack_precise_iff (guid : Guid) (topic type : Bytes) (qos : QosProfile) (ignoreLocal : Bool)
    (birthUs : U64) (ops : List ReaderOp) :
    (∀ first, first <+: ops → (create guid topic type qos ignoreLocal birthUs).NackPrecise first) ↔
      Run.Along step KeepsFirstMissing (create guid topic type qos ignoreLocal birthUs) ops := by
  have fresh : (create guid topic type qos ignoreLocal birthUs).rx = fun _ => none := rfl
  simp only [nackPrecise_iff fresh]
  have initially : ∀ g, ((create guid topic type qos ignoreLocal birthUs).rxState g).Poised :=
    fun g => ⟨by simp [rxState, fresh], by simp [rxState, fresh]⟩
  exact @Run.always_iff_along _ _ step (fun r => ∀ g, (r.rxState g).Poised) _ _ _
    (fun first _ _ poised => step_poised_iff (exec_inRange fresh first) (poised first (List.prefix_refl _))) initially

/-- Seq 2 arrives before seq 1, then a GAP gives seq 1 up: the base is the
received seq 2, and a heartbeat ending at 2 provokes an ACKNACK although
nothing is missing. -/
theorem nack_imprecise_after_gap :
    (Run.exec step (create default [] [] {} false 0)
      [.enqueue default 2 [] {} 0 0 0, .applyGap default 1 1]).nackState default = (2, 1) ∧
    (default, 2) ∈ (create default [] [] {} false 0).acceptedIn
      [.enqueue default 2 [] {} 0 0 0, .applyGap default 1 1] ∧
    ((Run.exec step (create default [] [] {} false 0)
      [.enqueue default 2 [] {} 0 0 0, .applyGap default 1 1]).heartbeatNack
        ⟨default, .writer, [], [], {}, 0⟩ ⟨default, 1, 2⟩).isSome = true ∧
    ¬ (create default [] [] {} false 0).NackPrecise
      [.enqueue default 2 [] {} 0 0 0, .applyGap default 1 1] := by
  refine ⟨by decide, by decide, by decide, fun precise => ?_⟩
  have poised := (nackPrecise_iff rfl _).mp precise default
  exact absurd poised.1 (by decide)

end ReaderImpl

end Mdds
