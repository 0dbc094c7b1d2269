import Mathlib.Order.Bounds.Defs
import Mdds.ReaderRun

namespace Mdds

namespace WriterRxState

/-- With the lowest bit clear the baseline is the end of the settled run. -/
theorem le_lastSeq_iff {st : WriterRxState} (clear : st.window.getLsbD 0 = false) {m : Nat} :
    m ≤ st.lastSeq.toNat ↔ ∀ s ≤ m, st.Settled s := by
  constructor
  · exact fun below s le => settled_of_le (le.trans below)
  · intro settled
    by_contra above
    have next : st.Settled (st.lastSeq.toNat + 1 + 0) := settled _ (by omega)
    rw [Settled, SeqWindow.holds_bit, clear] at next
    exact absurd next Bool.false_ne_true

/-- The settled seqs determine both words. -/
theorem eq_of_settled {st other : WriterRxState} (clear : st.window.getLsbD 0 = false)
    (otherClear : other.window.getLsbD 0 = false) (same : ∀ s, st.Settled s ↔ other.Settled s) : st = other := by
  have baseline : st.lastSeq.toNat = other.lastSeq.toNat := by
    refine Nat.le_antisymm ?_ ?_
    · exact (le_lastSeq_iff otherClear).mpr (fun s le => (same s).mp (settled_of_le le))
    · exact (le_lastSeq_iff clear).mpr (fun s le => (same s).mpr (settled_of_le le))
  have window : st.window = other.window := by
    refine BitVec.eq_of_getLsbD_eq (fun i _ => Bool.eq_iff_iff.mpr ?_)
    have here := same (st.lastSeq.toNat + 1 + i)
    rw [Settled, SeqWindow.holds_bit, baseline, Settled, SeqWindow.holds_bit] at here
    exact here
  obtain ⟨lastSeq, bits⟩ := st
  obtain ⟨otherSeq, otherBits⟩ := other
  exact congr (congrArg mk (BitVec.eq_of_toNat_eq baseline)) window

end WriterRxState

/-- A call of `enqueue` for a sample that never expires. -/
structure Arrival where
  seq : U64
  data : Bytes
  writerQos : QosProfile
  pubTimeMs : U64
  now : U64
  sweepNow : U64
  lasting : writerQos.lifespanMs = 0

def Arrival.op (arrival : Arrival) (writer : Guid) : ReaderOp :=
  .enqueue writer arrival.seq arrival.data arrival.writerQos arrival.pubTimeMs arrival.now arrival.sweepNow

namespace ReaderImpl

/-- A state some new reader reaches without a GAP from the writer. -/
def GapFree (r : ReaderImpl) (writer : Guid) : Prop :=
  ∃ guid topic type qos ignoreLocal birthUs ops, (∀ gapStart gapEnd, ReaderOp.applyGap writer gapStart gapEnd ∉ ops) ∧
    r = Run.exec step (create guid topic type qos ignoreLocal birthUs) ops

/-- The seqs the window has a place for. -/
def Tracks (r : ReaderImpl) (writer : Guid) (seq : U64) : Prop :=
  (r.rxState writer).lastSeq.toNat < seq.toNat ∧ seq.toNat ≤ (r.rxState writer).lastSeq.toNat + 64

theorem step_clear {r : ReaderImpl} {writer : Guid} {op : ReaderOp}
    (clear : (r.rxState writer).window.getLsbD 0 = false)
    (noGap : ∀ gapStart gapEnd, op ≠ .applyGap writer gapStart gapEnd) :
    ((r.step op).rxState writer).window.getLsbD 0 = false := by
  rw [step_rxState]
  cases op with
  | enqueue other seq data writerQos pubTimeMs now sweepNow =>
    dsimp only
    split
    · rename_i same
      subst same
      exact WriterRxState.receive_first_clear seq clear
    · exact clear
  | applyGap other gapStart gapEnd =>
    dsimp only
    split
    · rename_i same
      subst same
      exact absurd rfl (noGap gapStart gapEnd)
    · exact clear
  | take now => exact clear
  | available now => exact clear

/-- Without a GAP the baseline never stops below a receipt. -/
theorem GapFree.clear {r : ReaderImpl} {writer : Guid} (gapFree : r.GapFree writer) :
    (r.rxState writer).window.getLsbD 0 = false := by
  obtain ⟨guid, topic, type, qos, ignoreLocal, birthUs, ops, noGap, rfl⟩ := gapFree
  induction ops using List.reverseRecOn with
  | nil => exact BitVec.getLsbD_zero
  | append_singleton ops op ih =>
    rw [Run.exec_snoc]
    refine step_clear (ih (fun gapStart gapEnd inside => noGap gapStart gapEnd (List.mem_append_left _ inside))) ?_
    rintro gapStart gapEnd rfl
    exact noGap gapStart gapEnd (List.mem_append_right _ List.mem_cons_self)

theorem GapFree.inRange {r : ReaderImpl} {writer : Guid} (gapFree : r.GapFree writer) (g : Guid) :
    (r.rxState g).InRange := by
  obtain ⟨guid, topic, type, qos, ignoreLocal, birthUs, ops, _, rfl⟩ := gapFree
  exact exec_inRange rfl ops g

/-- From `r` the reader came to `now` by the arrival of `seqs`, none of them
beyond the window: they are settled besides what was, and nothing is lost. -/
structure Absorbed (r : ReaderImpl) (writer : Guid) (seqs : List U64) (now : ReaderImpl) : Prop where
  inRange : ∀ g, (now.rxState g).InRange
  clear : (now.rxState writer).window.getLsbD 0 = false
  base : (r.rxState writer).lastSeq.toNat ≤ (now.rxState writer).lastSeq.toNat
  settled : ∀ s, now.Settled writer s ↔ r.Settled writer s ∨ ∃ seq ∈ seqs, seq.toNat = s
  lost : now.lostCount = r.lostCount

theorem GapFree.absorbed {r : ReaderImpl} {writer : Guid} (gapFree : r.GapFree writer) : r.Absorbed writer [] r :=
  ⟨gapFree.inRange, gapFree.clear, le_rfl, by simp, rfl⟩

theorem Absorbed.step {r now : ReaderImpl} {writer : Guid} {seqs : List U64} {arrival : Arrival}
    (absorbed : r.Absorbed writer seqs now) (tracked : r.Tracks writer arrival.seq) :
    r.Absorbed writer (seqs ++ [arrival.seq]) (now.step (arrival.op writer)) := by
  have base := absorbed.base
  have near : ¬ (now.rxState writer).Jumps arrival.seq := by
    have upper := tracked.2
    unfold WriterRxState.Jumps
    omega
  have nothing : ((now.rxState writer).receive arrival.seq).lost = 0 :=
    BitVec.eq_of_toNat_eq ((WriterRxState.receive_lost arrival.seq).trans (if_neg near))
  refine ⟨step_inRange absorbed.inRange _, step_clear absorbed.clear (by simp [Arrival.op]),
    base.trans (step_lastSeq_ge absorbed.inRange _ writer), fun s => ?_, ?_⟩
  · rw [Settled, step_rxState]
    dsimp only [Arrival.op]
    rw [if_pos rfl, WriterRxState.receive_settled (absorbed.inRange writer)]
    have earlier := absorbed.settled s
    unfold Settled at earlier
    simp only [near, false_and, or_false, earlier, List.mem_append, List.mem_singleton, or_and_right, exists_or,
      exists_eq_left, or_assoc, eq_comm, Settled]
  · have counted : (now.step (arrival.op writer)).lostCount =
        now.lostCount + ((now.rxState writer).receive arrival.seq).lost := enqueue_lostCount ..
    rw [counted, nothing, absorbed.lost]
    exact BitVec.add_zero _

theorem GapFree.absorbs {r : ReaderImpl} {writer : Guid} {arrivals : List Arrival} (gapFree : r.GapFree writer)
    (tracked : ∀ arrival ∈ arrivals, r.Tracks writer arrival.seq) :
    r.Absorbed writer (arrivals.map Arrival.seq) (Run.exec step r (arrivals.map (fun arrival => arrival.op writer))) := by
  induction arrivals using List.reverseRecOn with
  | nil => exact gapFree.absorbed
  | append_singleton arrivals arrival ih =>
    have before := ih (fun arrival inside => tracked arrival (List.mem_append_left _ inside))
    rw [List.map_append, List.map_append, List.map_singleton, List.map_singleton, Run.exec_snoc]
    exact before.step (tracked arrival (List.mem_append_right _ List.mem_cons_self))

/-- A sample that never expires is queued exactly if its seq is unsettled. -/
theorem mem_pushed_arrival {r : ReaderImpl} {writer : Guid} {arrival : Arrival} {s : Nat} :
    (writer, s) ∈ r.pushed (arrival.op writer) ↔ arrival.seq.toNat = s ∧ ¬ r.Settled writer arrival.seq.toNat := by
  have fresh : lifespanExpired arrival.writerQos.lifespanMs arrival.pubTimeMs arrival.now = false := by
    simp [lifespanExpired, arrival.lasting]
  unfold pushed Arrival.op
  dsimp only
  rw [enqueue_queued, fresh, Bool.not_false, Bool.and_true]
  split
  · rename_i new
    rw [WriterRxState.receive_isNew] at new
    simp only [List.mem_singleton, Prod.mk.injEq, true_and]
    exact ⟨fun same => ⟨same.symm, new⟩, fun both => both.1.symm⟩
  · rename_i old
    rw [WriterRxState.receive_isNew] at old
    exact iff_of_false List.not_mem_nil (fun both => old both.2)

/-- The arrivals queued are those of seqs not settled before. -/
theorem GapFree.mem_pushedIn {r : ReaderImpl} {writer : Guid} {arrivals : List Arrival} (gapFree : r.GapFree writer)
    (tracked : ∀ arrival ∈ arrivals, r.Tracks writer arrival.seq) (s : Nat) :
    (writer, s) ∈ r.pushedIn (arrivals.map (fun arrival => arrival.op writer)) ↔
      (∃ seq ∈ arrivals.map Arrival.seq, seq.toNat = s) ∧ ¬ r.Settled writer s := by
  induction arrivals using List.reverseRecOn with
  | nil => simp
  | append_singleton arrivals arrival ih =>
    have earlier : ∀ arrival ∈ arrivals, r.Tracks writer arrival.seq :=
      fun arrival inside => tracked arrival (List.mem_append_left _ inside)
    have unsettled := (gapFree.absorbs earlier).settled arrival.seq.toNat
    rw [List.map_append, List.map_singleton, pushedIn, Run.log_snoc, List.mem_append, ih earlier, mem_pushed_arrival,
      unsettled, List.map_append, List.map_singleton]
    simp only [List.mem_append, List.mem_singleton, or_and_right, exists_or, exists_eq_left]
    constructor
    · rintro (⟨seen, unknown⟩ | ⟨rfl, unknown⟩)
      · exact Or.inl ⟨seen, unknown⟩
      · exact Or.inr ⟨rfl, fun old => unknown (Or.inl old)⟩
    · rintro (⟨seen, unknown⟩ | ⟨rfl, unknown⟩)
      · exact Or.inl ⟨seen, unknown⟩
      · by_cases seen : ∃ seq ∈ arrivals.map Arrival.seq, seq.toNat = arrival.seq.toNat
        · exact Or.inl ⟨seen, unknown⟩
        · exact Or.inr ⟨rfl, fun old => old.elim unknown seen⟩

/-- Order and repetition of arrivals that the window can place do not show:
neither in the receive state, nor in what is queued, nor in the losses. -/
theorem arrival_order_invisible {r : ReaderImpl} {writer : Guid} {A : Set U64} {first second : List Arrival}
    (gapFree : r.GapFree writer) (tracked : ∀ seq ∈ A, r.Tracks writer seq)
    (firstAll : ∀ seq, seq ∈ first.map Arrival.seq ↔ seq ∈ A)
    (secondAll : ∀ seq, seq ∈ second.map Arrival.seq ↔ seq ∈ A) :
    let arrive (arrivals : List Arrival) := arrivals.map (fun arrival => arrival.op writer)
    let a := Run.exec step r (arrive first)
    let b := Run.exec step r (arrive second)
    a.rxState writer = b.rxState writer ∧
    (∀ s, (writer, s) ∈ r.pushedIn (arrive first) ↔ (∃ seq ∈ A, seq.toNat = s) ∧ ¬ r.Settled writer s) ∧
    (∀ s, (writer, s) ∈ r.pushedIn (arrive second) ↔ (∃ seq ∈ A, seq.toNat = s) ∧ ¬ r.Settled writer s) ∧
    a.messagesLost = r.messagesLost ∧ b.messagesLost = r.messagesLost ∧
    IsGreatest
      {m | ∀ s, (r.rxState writer).lastSeq.toNat < s → s ≤ m → r.Settled writer s ∨ ∃ seq ∈ A, seq.toNat = s}
      (a.rxState writer).lastSeq.toNat := by
  intro arrive a b
  have inFirst : ∀ arrival ∈ first, r.Tracks writer arrival.seq :=
    fun arrival inside => tracked _ ((firstAll _).mp (List.mem_map_of_mem inside))
  have inSecond : ∀ arrival ∈ second, r.Tracks writer arrival.seq :=
    fun arrival inside => tracked _ ((secondAll _).mp (List.mem_map_of_mem inside))
  have one := gapFree.absorbs inFirst
  have two := gapFree.absorbs inSecond
  have settledA (s : Nat) : a.Settled writer s ↔ r.Settled writer s ∨ ∃ seq ∈ A, seq.toNat = s := by
    rw [one.settled s]
    simp only [firstAll]
  have settledB (s : Nat) : b.Settled writer s ↔ r.Settled writer s ∨ ∃ seq ∈ A, seq.toNat = s := by
    rw [two.settled s]
    simp only [secondAll]
  refine ⟨?_, fun s => ?_, fun s => ?_, one.lost, two.lost, ?_, ?_⟩
  · exact WriterRxState.eq_of_settled one.clear two.clear (fun s => (settledA s).trans (settledB s).symm)
  · rw [gapFree.mem_pushedIn inFirst]
    simp only [firstAll]
  · rw [gapFree.mem_pushedIn inSecond]
    simp only [secondAll]
  · intro s _ below
    exact (settledA s).mp ((WriterRxState.le_lastSeq_iff one.clear).mp le_rfl s below)
  · intro m received
    refine (WriterRxState.le_lastSeq_iff one.clear).mpr (fun s below => (settledA s).mpr ?_)
    by_cases old : s ≤ (r.rxState writer).lastSeq.toNat
    · exact Or.inl (WriterRxState.settled_of_le old)
    · exact received s (by omega) below

/-- Seqs 2, 64 and 1 of a new writer, once in this order and once repeated and reversed. -/
theorem arrival_order_invisible_reversed :
    let arrival (seq : U64) : Arrival :=
      { seq, data := [], writerQos := {}, pubTimeMs := 0, now := 0, sweepNow := 0, lasting := rfl }
    let r := create default [] [] {} false 0
    let arrive (arrivals : List Arrival) := arrivals.map (fun arrival => arrival.op default)
    (Run.exec step r (arrive [arrival 2, arrival 64, arrival 1])).rxState default =
      (Run.exec step r (arrive [arrival 1, arrival 64, arrival 1, arrival 2])).rxState default := by
  intro arrival r arrive
  refine (@arrival_order_invisible r default {seq | seq = 1 ∨ seq = 2 ∨ seq = 64} [arrival 2, arrival 64, arrival 1]
    [arrival 1, arrival 64, arrival 1, arrival 2]
    ⟨default, [], [], {}, false, 0, [], fun _ _ => List.not_mem_nil, rfl⟩ ?_ ?_ ?_).1
  · rintro seq (rfl | rfl | rfl) <;> exact ⟨by decide, by decide⟩
  · intro seq
    simp only [List.map_cons, List.map_nil, List.mem_cons, List.not_mem_nil, or_false, arrival, Set.mem_ofPred_eq]
    tauto
  · intro seq
    simp only [List.map_cons, List.map_nil, List.mem_cons, List.not_mem_nil, or_false, arrival, Set.mem_ofPred_eq]
    tauto

end ReaderImpl

end Mdds
