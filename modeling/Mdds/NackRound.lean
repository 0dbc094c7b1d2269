import Mathlib.Order.Interval.Finset.Nat
import Mdds.Link

namespace Mdds

def LinkEvent.writes : LinkEvent → Bool
  | .write _ _ _ => true
  | _ => false

namespace Link

/-- How many written seqs the reader has neither received nor given up. -/
def missing (l : Link) : Nat :=
  ((Finset.Icc 1 l.writer.seq.toNat).filter (fun s => ¬ (l.reader.rxState l.writer.guid).Settled s)).card

/-- The reader takes in a list of frames, in order and without loss. -/
def respond (clock : Frame → U64 × U64) (l : Link) (frames : List Frame) : Link :=
  frames.foldl (fun l frame => { l with reader := (l.receive (clock frame) frame).1 }) l

/-- A loss-free NACK round: the writer's HEARTBEAT, the ACKNACK it provokes,
and all frames of the answer. -/
def round (clock : Frame → U64 × U64) (l : Link) : Link :=
  let heartbeat := Frame.heartbeat ⟨l.writer.guid, l.writer.firstAvail, l.writer.seq⟩
  match (l.receive (clock heartbeat) heartbeat).2 with
  | none => l
  | some nack => l.respond clock (l.answer nack)

/-- Nothing the reader knows of lies beyond what was written. -/
structure WithinWritten (l : Link) : Prop where
  contiguous : l.writer.Contiguous
  range : ∀ g, (l.reader.rxState g).InRange
  data : ∀ writer e reliableFlag, Frame.data writer e reliableFlag ∈ l.toReader → e.seq.toNat ≤ l.writer.seq.toNat
  gap : ∀ gap, Frame.gap gap ∈ l.toReader → gap.gapEnd.toNat ≤ l.writer.seq.toNat
  settled : ∀ s, l.reader.Settled l.writer.guid s → s ≤ l.writer.seq.toNat

theorem WithinWritten.initial (guid : Guid) (topic type : Bytes) (qos : QosProfile) (birthUs : U64)
    {reader : ReaderImpl} (fresh : reader.rx = fun _ => none) :
    ({ writer := { guid, topic, type, qos, birthUs }, reader } : Link).WithinWritten := by
  refine ⟨WriterImpl.Contiguous.initial .., fun g => ReaderImpl.exec_inRange fresh [] g,
    fun _ _ _ none => absurd none List.not_mem_nil, fun _ none => absurd none List.not_mem_nil, fun s settled => ?_⟩
  rw [ReaderImpl.Settled, ReaderImpl.rxState, fresh] at settled
  exact (WriterRxState.settled_initial.mp settled).le

/-- A call on the reader for this writer comes from a frame on the wire. -/
theorem WithinWritten.op_top {l : Link} (within : l.WithinWritten) {event : LinkEvent} {op : ReaderOp}
    (called : l.readerOp event = some op) (mine : op.writer? = some l.writer.guid) :
    op.top ≤ l.writer.seq.toNat := by
  cases event with
  | toReader index clock =>
    obtain ⟨frame, found, amounts⟩ := Option.bind_eq_some_iff.mp called
    have sent := List.mem_of_getElem? found
    cases frame with
    | data writer e reliableFlag =>
      simp only [frameOp] at amounts
      split at amounts
      · cases Option.some.inj amounts
        exact within.data writer e reliableFlag sent
      · simp at amounts
    | gap body =>
      simp only [frameOp] at amounts
      split at amounts
      · simp at amounts
      · cases Option.some.inj amounts
        exact within.gap body sent
    | announce snap announceSeq => simp [frameOp] at amounts
    | acknack body => simp [frameOp] at amounts
    | heartbeat body => simp [frameOp] at amounts
  | use other =>
    simp only [readerOp] at called
    split at called
    · simp at called
    · rename_i foreign
      cases Option.some.inj called
      exact absurd mine foreign
  | write pubTimeUs data now => simp [readerOp] at called
  | replay now => simp [readerOp] at called
  | resend index => simp [readerOp] at called
  | heartbeat => simp [readerOp] at called
  | assertLiveliness => simp [readerOp] at called
  | knowReader known => simp [readerOp] at called
  | knowWriter known => simp [readerOp] at called
  | toWriter index => simp [readerOp] at called

theorem WithinWritten.step {l : Link} (within : l.WithinWritten) {event : LinkEvent}
    (room : event.writes = true → l.writer.seq.toNat + 1 < 2 ^ 64) : (l.step event).WithinWritten := by
  have writer : (l.step event).writer.Contiguous ∧ (l.step event).writer.guid = l.writer.guid ∧
      l.writer.seq.toNat ≤ (l.step event).writer.seq.toNat := by
    rcases l.step_writer event with same | ⟨pubTimeUs, data, now, sample, rfl, accepted⟩
    · rw [same]
      exact ⟨within.contiguous, rfl, le_rfl⟩
    · obtain ⟨guid, _, _, _, next⟩ := WriterImpl.publish_guid accepted
      have space := room rfl
      refine ⟨within.contiguous.publish space accepted, guid, ?_⟩
      rw [next]
      bv_omega
  obtain ⟨contiguous, guid, grows⟩ := writer
  refine ⟨contiguous, step_range within.range event, fun writer e reliableFlag sent => ?_, fun gap sent => ?_,
    fun s settled => ?_⟩
  · rcases l.step_sends sent with old | ⟨_, beat⟩ | ⟨e', same, source⟩ | ⟨_, _, _, _, declared, _⟩
    · exact (within.data writer e reliableFlag old).trans grows
    · cases beat
    · cases same
      rcases source with cached | ⟨pubTimeUs, data, now, rfl, accepted⟩
      · exact (within.contiguous.le_seq cached).trans grows
      · rw [(WriterImpl.publish_guid accepted).2.2.2.2, (WriterImpl.publish_cases accepted).1]
    · cases declared
  · rcases l.step_sends sent with old | ⟨_, beat⟩ | ⟨_, same, _⟩ | ⟨nack, _, _, gap', declared, answered⟩
    · exact (within.gap gap old).trans grows
    · cases beat
    · cases same
    · cases declared
      rw [(answerGap_start answered).2.2.1]
      exact (within.contiguous.unavailable_le_seq _ _).trans grows
  · rw [guid, step_reader] at settled
    refine Nat.le_trans ?_ grows
    cases called : l.readerOp event with
    | none => exact within.settled s (by simpa [called] using settled)
    | some op =>
      rw [called] at settled
      rcases ReaderImpl.settled_step_le within.range settled with old | ⟨mine, below⟩
      · exact within.settled s old
      · exact below.trans (within.op_top called mine)

theorem step_seq_le (l : Link) (event : LinkEvent) :
    (l.step event).writer.seq.toNat ≤ l.writer.seq.toNat + event.writes.toNat := by
  rcases l.step_writer event with same | ⟨_, _, _, _, rfl, accepted⟩
  · rw [same]
    exact Nat.le_add_right _ _
  · exact WriterImpl.publish_seq_le accepted

theorem exec_withinWritten {l : Link} (initially : l.WithinWritten) (events : List LinkEvent)
    (few : l.writer.seq.toNat + events.countP LinkEvent.writes < 2 ^ 64) :
    (Run.exec step l events).WithinWritten :=
  @Run.invariant_within _ _ step (fun l => l.writer.seq.toNat) _ _ _ _ _ step_seq_le
    (fun _ _ _ within room => within.step room) few initially

/-- Frames act on the reader as calls, which leave everything that decides
how a frame is treated as it is. -/
theorem respond_reader (clock : Frame → U64 × U64) (l : Link) (frames : List Frame) :
    (l.respond clock frames).writer = l.writer ∧
    (l.respond clock frames).reader =
      Run.exec ReaderImpl.step l.reader (frames.filterMap (fun frame => l.frameOp (clock frame) frame)) := by
  induction frames generalizing l with
  | nil => exact ⟨rfl, rfl⟩
  | cons frame rest ih =>
    let next : Link := { l with reader := (l.receive (clock frame) frame).1 }
    have same : ∀ other, next.frameOp (clock other) other = l.frameOp (clock other) other := by
      have moved : next.reader = Run.exec ReaderImpl.step l.reader (l.frameOp (clock frame) frame).toList :=
        l.receive_reader (clock frame) frame
      have static : next.reader.guid = l.reader.guid ∧ next.reader.topic = l.reader.topic ∧
          next.reader.type = l.reader.type ∧ next.reader.qos = l.reader.qos := by
        rw [moved]
        cases l.frameOp (clock frame) frame with
        | none => exact ⟨rfl, rfl, rfl, rfl⟩
        | some op =>
          obtain ⟨guid, topic, type, qos, _⟩ := l.reader.step_static op
          exact ⟨guid, topic, type, qos⟩
      obtain ⟨guid, topic, type, qos⟩ := static
      intro other
      cases other with
      | data writer e reliableFlag =>
        simp only [frameOp, topic, type, qos]
        rfl
      | gap body => simp only [frameOp, guid]
      | announce snap announceSeq => rfl
      | acknack body => rfl
      | heartbeat body => rfl
    obtain ⟨writer, reader⟩ := ih next
    refine ⟨writer, reader.trans ?_⟩
    simp only [same]
    change Run.exec ReaderImpl.step (l.receive (clock frame) frame).1 _ = _
    rw [receive_reader, ← Run.exec_append]
    cases amounts : l.frameOp (clock frame) frame <;> simp [amounts]

/-- The situation of a NACK round: both sides know and accept each other and
ask for reliability, and the writer has something to send HEARTBEATs for. -/
structure Paired (l : Link) : Prop where
  readerKnown : l.readerKnown = true
  writerKnown : l.writerKnown = true
  writerReliable : l.writer.qos.reliability = .reliable
  readerReliable : l.reader.qos.reliability = .reliable
  accepted : endpointsMatch l.reader.topic l.reader.type l.reader.qos l.writer.record = true
  history : l.writer.history ≠ []

theorem exists_unsettled {l : Link} (some_missing : 0 < l.missing) :
    ∃ s, 1 ≤ s ∧ s ≤ l.writer.seq.toNat ∧ ¬ l.reader.Settled l.writer.guid s := by
  obtain ⟨s, member⟩ := Finset.card_pos.mp some_missing
  obtain ⟨range, unsettled⟩ := Finset.mem_filter.mp member
  exact ⟨s, (Finset.mem_Icc.mp range).1, (Finset.mem_Icc.mp range).2, unsettled⟩

/-- While something is missing, the heartbeat provokes an ACKNACK from the
baseline on, and the round is the answer to it. -/
theorem round_eq {l : Link} (paired : l.Paired) (some_missing : 0 < l.missing) (clock : Frame → U64 × U64) :
    l.round clock = l.respond clock (l.answer (l.reader.nackFor l.writer.guid)) := by
  obtain ⟨s, _, written, unsettled⟩ := exists_unsettled some_missing
  have behind : (l.reader.rxState l.writer.guid).lastSeq + 1 ≤ l.writer.seq := by
    have above : ¬ s ≤ (l.reader.rxState l.writer.guid).lastSeq.toNat :=
      fun low => unsettled (WriterRxState.settled_of_le low)
    generalize (l.reader.rxState l.writer.guid).lastSeq = last at above ⊢
    have bound := l.writer.seq.isLt
    bv_omega
  have asked : l.reader.heartbeatNack l.writer.record ⟨l.writer.guid, l.writer.firstAvail, l.writer.seq⟩ =
      some (l.reader.nackFor l.writer.guid) :=
    ReaderImpl.heartbeatNack_iff.mpr ⟨paired.readerReliable, paired.accepted, behind, rfl⟩
  simp only [round, receive, paired.writerKnown, and_self, if_true, asked]

/-- With every bit of the window set, the request names no seq at all. -/
theorem answer_full {l : Link} (full : (l.reader.rxState l.writer.guid).window = BitVec.allOnes 64) :
    l.answer (l.reader.nackFor l.writer.guid) = [] := by
  have received (i : Nat) (within : i < 64) : bitSet (l.reader.nackFor l.writer.guid).bitmap i = true := by
    simp only [ReaderImpl.nackFor, full, bitSet_eq_getLsbD within, BitVec.getLsbD_allOnes, within, decide_true]
  have nothing : (l.writer.answerAcknack l.reader.record (l.reader.nackFor l.writer.guid)).1 = [] := by
    rw [WriterImpl.answerAcknack_resend, List.filterMap_eq_nil_iff]
    intro i member
    simp [WriterImpl.resendAt, received i (List.mem_range.mp member)]
  have none : l.writer.answerGap l.reader.record (l.reader.nackFor l.writer.guid) = none := by
    rcases l.writer.answerAcknack_unavailable l.reader.record (l.reader.nackFor l.writer.guid) with
      ⟨_, zero⟩ | ⟨j, within, ⟨requested, _⟩, _⟩
    · simp [WriterImpl.answerGap, zero]
    · simp [received j within] at requested
  unfold answer
  split
  · simp [nothing, none]
  · rfl

theorem round_full {l : Link} (paired : l.Paired) (some_missing : 0 < l.missing)
    (full : (l.reader.rxState l.writer.guid).window = BitVec.allOnes 64) (clock : Frame → U64 × U64) :
    l.round clock = l := by
  rw [round_eq paired some_missing, answer_full full]
  rfl

/-- A requested seq is settled by the answer: it is sent again, or the GAP
reaches at least up to it. -/
theorem answer_settles {l : Link} (within : l.WithinWritten) (paired : l.Paired)
    (room : l.writer.seq.toNat + 64 < 2 ^ 64) {i : Nat} (inside : i < 64)
    (clear : (l.reader.rxState l.writer.guid).window.getLsbD i = false)
    (written : (l.reader.rxState l.writer.guid).lastSeq.toNat + 1 + i ≤ l.writer.seq.toNat)
    (clock : Frame → U64 × U64) :
    (l.respond clock (l.answer (l.reader.nackFor l.writer.guid))).reader.Settled l.writer.guid
      ((l.reader.rxState l.writer.guid).lastSeq.toNat + 1 + i) := by
  generalize last : (l.reader.rxState l.writer.guid).lastSeq = base at written ⊢
  set nack := l.reader.nackFor l.writer.guid with asked
  have position (j : Nat) (bound : j < 64) : (nack.baseSeq + BitVec.ofNat 64 j).toNat = base.toNat + 1 + j := by
    have start : nack.baseSeq = base + 1 := by rw [asked, ReaderImpl.nackFor, last]
    rw [start]
    bv_omega
  have requested : bitSet nack.bitmap i = false := by
    rw [asked, bitSet_eq_getLsbD inside]
    exact clear
  have sent : l.answer nack =
      (l.writer.answerAcknack l.reader.record nack).1.map (fun e => .data nack.writer e l.writer.reliableFlag) ++
        ((l.writer.answerGap l.reader.record nack).map Frame.gap).toList := by
    rw [answer, if_pos ⟨paired.readerKnown, rfl, rfl⟩]
  rw [(l.respond_reader clock _).2]
  rcases within.contiguous.answered l.reader.record nack paired.history requested
    (by rw [position i inside]; exact written) with ⟨e, again, here⟩ | unavailable
  · have arrives : l.dataFrame e ∈ l.answer nack := by
      rw [sent]
      refine List.mem_append_left _ (List.mem_map.mpr ⟨e, ?_, rfl⟩)
      rw [WriterImpl.answerAcknack_resend, List.mem_filterMap]
      exact ⟨i, List.mem_range.mpr inside, again⟩
    have amounts : l.frameOp (clock (l.dataFrame e)) (l.dataFrame e) =
        some (.enqueue l.writer.guid e.seq e.data l.writer.qos e.pubTimeMs (clock (l.dataFrame e)).1
          (clock (l.dataFrame e)).2) := by
      simp only [dataFrame, frameOp, paired.writerKnown, paired.accepted, and_self, if_true]
    refine ReaderImpl.settled_of_mem within.range (List.mem_filterMap.mpr ⟨_, arrives, amounts⟩) (fun r range => ?_)
    rw [ReaderImpl.Settled, ReaderImpl.step_rxState]
    simp only [if_true]
    rw [WriterRxState.receive_settled (range _)]
    exact Or.inr (Or.inl (by rw [here, position i inside]))
  · rcases l.writer.answerAcknack_unavailable l.reader.record nack with ⟨none, _⟩ | ⟨j, bound, _, latest, value⟩
    · exact absurd unavailable (none i inside)
    · have reaches := latest i inside unavailable
      have gap : l.writer.answerGap l.reader.record nack =
          some ⟨nack.writer, nack.reader, nack.baseSeq, nack.baseSeq + BitVec.ofNat 64 j⟩ := by
        have positive : 0 < nack.baseSeq + BitVec.ofNat 64 j := by
          rw [BitVec.lt_def, position j bound]
          change 0 < _
          omega
        simp only [WriterImpl.answerGap, value, if_pos positive]
      have arrives : Frame.gap ⟨nack.writer, nack.reader, nack.baseSeq, nack.baseSeq + BitVec.ofNat 64 j⟩ ∈
          l.answer nack := by
        rw [sent, gap]
        simp
      have ordered : ¬ nack.baseSeq + BitVec.ofNat 64 j < nack.baseSeq := by
        have start := position 0 (by decide)
        rw [BitVec.add_zero] at start
        rw [BitVec.lt_def, position j bound, start]
        omega
      have amounts (times : U64 × U64) : l.frameOp times
          (.gap ⟨nack.writer, nack.reader, nack.baseSeq, nack.baseSeq + BitVec.ofNat 64 j⟩) =
            some (.applyGap l.writer.guid nack.baseSeq (nack.baseSeq + BitVec.ofNat 64 j)) := by
        have mine : nack.reader = l.reader.guid := rfl
        simp only [frameOp, ordered, mine, ne_eq, not_true, or_false, if_false]
        rfl
      refine ReaderImpl.settled_of_mem within.range (List.mem_filterMap.mpr ⟨_, arrives, amounts _⟩)
        (fun r range => ?_)
      rw [ReaderImpl.Settled, ReaderImpl.step_rxState]
      simp only [if_true]
      rw [WriterRxState.passGap_settled]
      exact Or.inr (by rw [position j bound]; omega)

/-- A loss-free NACK round makes progress exactly when the window of the
reader has a hole. A full window asks for nothing, although seqs behind it
may be missing. -/
theorem round_progress_iff (wguid rguid : Guid) (wtopic wtype rtopic rtype : Bytes) (wqos rqos : QosProfile)
    (ignoreLocal : Bool) (wbirthUs rbirthUs : U64) (events : List LinkEvent)
    (few : events.countP LinkEvent.writes + 64 < 2 ^ 64) (clock : Frame → U64 × U64) :
    let writer : WriterImpl := { guid := wguid, topic := wtopic, type := wtype, qos := wqos, birthUs := wbirthUs }
    let start : Link := { writer, reader := ReaderImpl.create rguid rtopic rtype rqos ignoreLocal rbirthUs }
    let l := Run.exec step start events
    l.Paired → 0 < l.missing →
      ((l.round clock).missing < l.missing ↔
        (l.reader.rxState l.writer.guid).window ≠ BitVec.allOnes 64) := by
  intro writer start l paired some_missing
  have initially : start.WithinWritten := .initial _ _ _ _ _ rfl
  have unwritten : start.writer.seq.toNat = 0 := rfl
  have within : l.WithinWritten := exec_withinWritten initially events (by omega)
  have bound : l.writer.seq.toNat ≤ start.writer.seq.toNat + events.countP LinkEvent.writes :=
    @Run.exec_measure_le _ _ step (fun l => l.writer.seq.toNat) _ step_seq_le start events
  obtain ⟨sameWriter, sameReader⟩ := l.respond_reader clock (l.answer (l.reader.nackFor l.writer.guid))
  constructor
  · intro fewer full
    rw [round_full paired some_missing full] at fewer
    exact absurd fewer (lt_irrefl _)
  · intro hole
    rw [round_eq paired some_missing]
    obtain ⟨s, positive, written, unsettled⟩ := exists_unsettled some_missing
    have above : ¬ s ≤ (l.reader.rxState l.writer.guid).lastSeq.toNat :=
      fun low => unsettled (WriterRxState.settled_of_le low)
    obtain ⟨h, low, hollow⟩ : ∃ h, h < 64 ∧ (l.reader.rxState l.writer.guid).window.getLsbD h = false := by
      by_contra none
      refine hole (BitVec.eq_of_getLsbD_eq (fun i inside => ?_))
      rw [BitVec.getLsbD_allOnes, decide_eq_true inside]
      by_contra clear
      exact none ⟨i, inside, Bool.not_eq_true _ ▸ clear⟩
    -- either the hole was written, or a missing seq lies below it
    have requested : ∃ i, i < 64 ∧ (l.reader.rxState l.writer.guid).window.getLsbD i = false ∧
        (l.reader.rxState l.writer.guid).lastSeq.toNat + 1 + i ≤ l.writer.seq.toNat := by
      by_cases beyond : (l.reader.rxState l.writer.guid).lastSeq.toNat + 1 + h ≤ l.writer.seq.toNat
      · exact ⟨h, low, hollow, beyond⟩
      · have position : s = (l.reader.rxState l.writer.guid).lastSeq.toNat + 1 +
            (s - ((l.reader.rxState l.writer.guid).lastSeq.toNat + 1)) := by omega
        refine ⟨s - ((l.reader.rxState l.writer.guid).lastSeq.toNat + 1), by omega, ?_, by omega⟩
        rw [position] at unsettled
        exact Bool.not_eq_true _ ▸ fun bit => unsettled (SeqWindow.holds_bit.mpr bit)
    obtain ⟨i, inside, clear, inRange⟩ := requested
    have settled := answer_settles within paired (by omega) inside clear inRange clock
    refine Finset.card_lt_card (Finset.ssubset_iff.mpr
      ⟨(l.reader.rxState l.writer.guid).lastSeq.toNat + 1 + i, fun member => ?_, fun x member => ?_⟩)
    · rw [sameWriter] at member
      exact (Finset.mem_filter.mp member).2 settled
    · rw [sameWriter] at member
      rcases Finset.mem_insert.mp member with rfl | still
      · refine Finset.mem_filter.mpr ⟨Finset.mem_Icc.mpr ⟨by omega, inRange⟩, fun bit => ?_⟩
        rw [WriterRxState.Settled, SeqWindow.holds_bit, clear] at bit
        exact absurd bit (by decide)
      · obtain ⟨range, unsettledAfter⟩ := Finset.mem_filter.mp still
        refine Finset.mem_filter.mpr ⟨range, fun before => unsettledAfter ?_⟩
        rw [sameReader]
        exact ReaderImpl.settled_exec within.range _ before

/-- Seq 2 arrives while seq 1 is already evicted, and the GAP for seq 1 leaves
the receipt of seq 2 in the window. With seqs 3 to 65 received the window is
full, and a round no longer asks for the lost seq 66. -/
theorem round_stalls_behind_full_window :
    let writer : WriterImpl := { guid := default, topic := [], type := [], qos := { depth := 1 } }
    let start : Link := { writer, reader := ReaderImpl.create default [] [] {} false 0 }
    let events : List LinkEvent :=
      [.knowReader true, .knowWriter true, .write 1 [] 0, .write 2 [] 0, .toReader 1 (0, 0), .toWriter 0,
        .toReader 2 (0, 0)] ++
      (List.range' 3 63).flatMap (fun seq => [.write 3 [] 0, .toReader seq (0, 0)]) ++ [.write 4 [] 0]
    let l := Run.exec step start events
    l.Paired ∧ 0 < l.missing ∧ ∀ clock, ¬ (l.round clock).missing < l.missing := by
  intro writer start events l
  have reached : ((l.reader.rxState l.writer.guid).window = BitVec.allOnes 64 ∧ 66 ≤ l.writer.seq.toNat ∧
      ¬ (l.reader.rxState l.writer.guid).Settled 66) ∧ l.readerKnown = true ∧ l.writerKnown = true ∧
      l.writer.qos.reliability = .reliable ∧ l.reader.qos.reliability = .reliable ∧
      endpointsMatch l.reader.topic l.reader.type l.reader.qos l.writer.record = true ∧ l.writer.history ≠ [] := by
    decide +kernel
  obtain ⟨⟨full, written, lost⟩, readerKnown, writerKnown, writerReliable, readerReliable, accepted, history⟩ := reached
  have paired : l.Paired := ⟨readerKnown, writerKnown, writerReliable, readerReliable, accepted, history⟩
  have some_missing : 0 < l.missing :=
    Finset.card_pos.mpr ⟨66, Finset.mem_filter.mpr ⟨Finset.mem_Icc.mpr ⟨by decide, written⟩, lost⟩⟩
  refine ⟨paired, some_missing, fun clock fewer => ?_⟩
  rw [round_full paired some_missing full] at fewer
  exact absurd fewer (lt_irrefl _)

theorem round_fetches_lost_sample :
    let writer : WriterImpl := { guid := default, topic := [], type := [], qos := {} }
    let start : Link := { writer, reader := ReaderImpl.create default [] [] {} false 0 }
    let l := Run.exec step start
      [.knowReader true, .knowWriter true, .write 1 [] 0, .write 2 [] 0, .toReader 1 (0, 0)]
    (l.round (fun _ => (0, 0))).missing < l.missing := by
  intro writer start l
  have paired : l.Paired := ⟨by decide, by decide, by decide, by decide, by decide, by decide⟩
  have progress := round_progress_iff default default [] [] [] [] {} {} false 0 0
    [.knowReader true, .knowWriter true, .write 1 [] 0, .write 2 [] 0, .toReader 1 (0, 0)] (by decide)
    (fun _ => (0, 0)) paired
  have some_missing : 0 < l.missing := by
    have written : 1 ≤ l.writer.seq.toNat := by decide
    have lost : ¬ (l.reader.rxState l.writer.guid).Settled 1 := by decide
    exact Finset.card_pos.mpr ⟨1, Finset.mem_filter.mpr ⟨Finset.mem_Icc.mpr ⟨by decide, written⟩, lost⟩⟩
  exact (progress some_missing).mpr (by decide)

end Link

end Mdds
