import Mathlib.Data.List.Sort
import Mdds.Endpoints
import Mdds.LossAccounting
import Mdds.NackRound
import Mdds.Retransmit

namespace Mdds

/-- Samples that lie within the window of a reader are all taken in, in the
order in which they come, and nothing is given up for them. -/
structure ReaderImpl.Fetches (r : ReaderImpl) (g : Guid) (ops : List ReaderOp) : Prop where
  free : r.chargedIn ops = []
  hole : ((Run.exec step r ops).rxState g).window.getLsbD 0 = false
  settled : ∀ s, (Run.exec step r ops).Settled g s ↔ r.Settled g s ∨ s ∈ ops.map ReaderOp.top
  accepted : r.acceptedIn ops = ((ops.map ReaderOp.top).filter (fun s => ¬ r.Settled g s)).map (g, ·)

namespace Link

/-- The writer still holds all it ever wrote, and the reader is entitled to it. -/
structure Whole (l : Link) : Prop where
  kept : l.writer.history.length = l.writer.seq.toNat
  entitled : ∀ e ∈ l.writer.history, l.reader.record.entitled e = true

/-- The written seqs that the reader has neither received nor given up. -/
def missingSeqs (l : Link) : List Nat :=
  (List.range' 1 l.writer.seq.toNat).filter (fun s => ¬ l.reader.Settled l.writer.guid s)

/-- The calls on the reader that a round amounts to. -/
def roundOps (l : Link) (clock : Frame → U64 × U64) : List ReaderOp :=
  let heartbeat := Frame.heartbeat ⟨l.writer.guid, l.writer.firstAvail, l.writer.seq⟩
  match (l.receive (clock heartbeat) heartbeat).2 with
  | none => []
  | some nack => (l.answer nack).filterMap (fun frame => l.frameOp (clock frame) frame)

end Link

/-- A writer that dropped nothing has nothing to declare unavailable. -/
theorem WriterImpl.Contiguous.answerGap_none {w : WriterImpl} (contiguous : w.Contiguous)
    (kept : w.history.length = w.seq.toNat) {readerEp : EndpointRecord}
    (entitled : ∀ e ∈ w.history, readerEp.entitled e = true) (body : AckNackBody) : w.answerGap readerEp body = none := by
  cases answered : w.answerGap readerEp body with
  | none => rfl
  | some gap =>
    obtain ⟨_, _, stop, _, positive⟩ := Link.answerGap_start answered
    rcases w.answerAcknack_unavailable readerEp body with ⟨_, zero⟩ | ⟨j, low, ⟨_, unavailable⟩, _, last⟩
    · rw [stop, zero] at positive
      exact absurd positive (by decide)
    · rw [stop, last] at positive
      split at unavailable
      · rename_i entry found
        rw [entitled entry (List.mem_of_find?_eq_some found)] at unavailable
        cases unavailable
      · have numbered := contiguous.seqs
        rw [kept, Nat.add_sub_cancel_left] at numbered
        obtain ⟨some_, below⟩ := unavailable
        unfold firstAvail at some_ below
        cases history : w.history with
        | nil =>
          rw [history] at some_
          exact absurd some_ (by decide)
        | cons first rest =>
          rw [history] at numbered below
          have one : first.seq.toNat = 1 := by
            have length : w.seq.toNat = rest.length + 1 := by rw [← kept, history, List.length_cons]
            rw [length, List.range'_succ, List.map_cons] at numbered
            exact (List.cons.inj numbered).1
          simp only [List.head?_cons, Option.map_some, Option.getD_some] at below
          bv_omega

namespace ReaderImpl
variable {r : ReaderImpl}

theorem Later.exec (r : ReaderImpl) (ops : List ReaderOp) : r.Later (Run.exec ReaderImpl.step r ops) := by
  induction ops generalizing r with
  | nil => exact .refl r
  | cons op rest ih => exact (Later.step r op).trans (ih _)

/-- One sample within the window. -/
theorem enqueue_fetches (range : ∀ g, (r.rxState g).InRange) {g : Guid}
    (hole : (r.rxState g).window.getLsbD 0 = false) {seq : U64} (near : seq.toNat ≤ (r.rxState g).lastSeq.toNat + 64)
    (data : Bytes) (qos : QosProfile) (pubTimeMs now sweepNow : U64) :
    r.charged (.enqueue g seq data qos pubTimeMs now sweepNow) = [] ∧
    ((r.step (.enqueue g seq data qos pubTimeMs now sweepNow)).rxState g).window.getLsbD 0 = false ∧
    (∀ s, (r.step (.enqueue g seq data qos pubTimeMs now sweepNow)).Settled g s ↔ r.Settled g s ∨ s = seq.toNat) ∧
    r.accepted (.enqueue g seq data qos pubTimeMs now sweepNow) = if r.Settled g seq.toNat then [] else [(g, seq.toNat)] := by
  have noJump : ¬ (r.rxState g).Jumps seq := Nat.not_lt.mpr near
  have state := r.step_rxState (.enqueue g seq data qos pubTimeMs now sweepNow) g
  simp only [if_true] at state
  refine ⟨by simp only [charged, if_neg noJump], ?_, fun s => ?_, ?_⟩
  · rw [state]
    exact WriterRxState.receive_first_clear seq hole
  · rw [Settled, state, WriterRxState.receive_settled (range g)]
    refine or_congr_right ⟨fun either => either.elim id (fun jump => absurd jump.1 noJump), Or.inl⟩
  · rw [accepted]
    by_cases old : r.Settled g seq.toNat
    · rw [if_pos old, if_neg (fun new => WriterRxState.receive_isNew.mp new old)]
    · rw [if_neg old, if_pos (WriterRxState.receive_isNew.mpr old)]

/-- Samples of different seqs, all within the window from the start. -/
theorem fetches (range : ∀ g, (r.rxState g).InRange) {g : Guid} (hole : (r.rxState g).window.getLsbD 0 = false)
    {ops : List ReaderOp} (near : ∀ op ∈ ops, (∃ seq data qos pubTimeMs now sweepNow,
      op = .enqueue g seq data qos pubTimeMs now sweepNow) ∧ op.top ≤ (r.rxState g).lastSeq.toNat + 64)
    (once : (ops.map ReaderOp.top).Nodup) : r.Fetches g ops := by
  induction ops generalizing r with
  | nil => exact ⟨rfl, hole, fun s => by simp, rfl⟩
  | cons op rest ih =>
    obtain ⟨⟨⟨seq, data, qos, pubTimeMs, now, sweepNow, rfl⟩, here⟩, later⟩ := List.forall_mem_cons.mp near
    obtain ⟨free, kept, moved, took⟩ := enqueue_fetches range hole here data qos pubTimeMs now sweepNow
    rw [List.map_cons, List.nodup_cons] at once
    have advance := step_lastSeq_ge range (.enqueue g seq data qos pubTimeMs now sweepNow) g
    obtain ⟨freeRest, keptRest, settled, accepted⟩ := ih (step_inRange range _) kept
      (fun op inside => ⟨(later op inside).1, (later op inside).2.trans (Nat.add_le_add_right advance 64)⟩) once.2
    refine ⟨?_, keptRest, fun s => ?_, ?_⟩
    · rw [chargedIn, Run.log, free, List.nil_append]
      exact freeRest
    · rw [Run.exec_cons, settled, moved, List.map_cons, List.mem_cons, or_assoc]
      rfl
    · have same : (rest.map ReaderOp.top).filter
          (fun s => ¬ (r.step (.enqueue g seq data qos pubTimeMs now sweepNow)).Settled g s) =
          (rest.map ReaderOp.top).filter (fun s => ¬ r.Settled g s) := by
        refine List.filter_congr (fun s inside => ?_)
        have differ : s ≠ seq.toNat := by
          rintro rfl
          exact once.1 inside
        simp only [moved, differ, or_false]
      rw [acceptedIn, Run.log, took, List.map_cons, List.filter_cons]
      rw [acceptedIn, same] at accepted
      rw [accepted]
      by_cases old : r.Settled g seq.toNat
      · simp [ReaderOp.top, old]
      · simp [ReaderOp.top, old]

end ReaderImpl

namespace Link
variable {l : Link}

/-- What a writer still holds now, it held before. -/
theorem Whole.before (contiguous : l.writer.Contiguous) {event : LinkEvent}
    (room : event.writes = true → l.writer.seq.toNat + 1 < 2 ^ 64) (whole : (l.step event).Whole) : l.Whole := by
  have record : (l.step event).reader.record = l.reader.record := (exec_record l [event]).2
  rcases l.step_writer event with same | ⟨pubTimeUs, data, now, sample, rfl, accepted⟩
  · obtain ⟨kept, entitled⟩ := whole
    rw [same] at kept entitled
    exact ⟨kept, fun e member => record ▸ entitled e member⟩
  · have next : (l.writer.seq + 1).toNat = l.writer.seq.toNat + 1 := by
      have space := room rfl
      bv_omega
    obtain ⟨_, ⟨caches, cached⟩ | ⟨_, history, suffix, _, cached⟩⟩ := WriterImpl.publish_cases accepted
    · obtain ⟨kept, _⟩ := whole
      rw [cached, contiguous.cached caches, List.length_nil] at kept
      dsimp only at kept
      omega
    · obtain ⟨kept, entitled⟩ := whole
      rw [cached] at kept entitled
      dsimp only at kept entitled
      have bound := contiguous.bounded
      have length := suffix.length_le
      rw [List.length_append, List.length_singleton] at length
      have grown : history = l.writer.history ++ [sample] := suffix.eq_of_length (by
        rw [List.length_append, List.length_singleton]
        omega)
      rw [grown] at kept entitled
      rw [List.length_append, List.length_singleton] at kept
      exact ⟨by omega, fun e member => record ▸ entitled e (List.mem_append_left _ member)⟩

/-- No GAP has been sent, and the next seq is always still to come. -/
structure Intact (l : Link) : Prop where
  within : l.WithinWritten
  noGap : ∀ gap, Frame.gap gap ∉ l.toReader
  hole : (l.reader.rxState l.writer.guid).window.getLsbD 0 = false

theorem step_guid (l : Link) (event : LinkEvent) : (l.step event).writer.guid = l.writer.guid :=
  (WriterImpl.of_record (exec_record l [event]).1).1

/-- Calls that give up seqs of this writer come from its GAPs. -/
theorem gap_of_applyGap {event : LinkEvent} {gapStart gapEnd : U64}
    (called : l.readerOp event = some (.applyGap l.writer.guid gapStart gapEnd)) : ∃ gap, Frame.gap gap ∈ l.toReader := by
  cases event with
  | toReader index clock =>
    obtain ⟨frame, found, amounts⟩ := Option.bind_eq_some_iff.mp called
    cases frame with
    | gap body => exact ⟨body, List.mem_of_getElem? found⟩
    | data writer sample reliableFlag =>
      simp only [frameOp] at amounts
      split at amounts <;> cases amounts
    | announce | acknack | heartbeat => cases amounts
  | use op =>
    simp only [readerOp] at called
    split at called
    · cases called
    · rename_i foreign
      obtain rfl := Option.some.inj called
      exact absurd rfl foreign
  | write | replay | resend | heartbeat | assertLiveliness | knowReader | knowWriter | toWriter => cases called

theorem Intact.step (intact : l.Intact) (whole : l.Whole) {event : LinkEvent}
    (room : event.writes = true → l.writer.seq.toNat + 1 < 2 ^ 64) : (l.step event).Intact := by
  refine ⟨intact.within.step room, fun gap sent => ?_, ?_⟩
  · rcases l.step_sends sent with old | ⟨_, beat⟩ | ⟨_, data, _⟩ | ⟨nack, _, _, gap, _, answered⟩
    · exact intact.noGap gap old
    · cases beat
    · cases data
    · rw [intact.within.contiguous.answerGap_none whole.kept whole.entitled] at answered
      cases answered
  · rw [step_guid, step_reader]
    cases called : l.readerOp event with
    | none => exact intact.hole
    | some op =>
      rw [Option.toList_some, Run.exec_cons, Run.exec_nil, ReaderImpl.step_rxState]
      cases op with
      | enqueue writer seq =>
        dsimp only
        split
        · rename_i mine
          rw [← mine]
          exact WriterRxState.receive_first_clear seq intact.hole
        · exact intact.hole
      | applyGap writer gapStart gapEnd =>
        dsimp only
        split
        · rename_i mine
          obtain ⟨gap, sent⟩ := gap_of_applyGap (mine ▸ called)
          exact absurd sent (intact.noGap gap)
        · exact intact.hole
      | take | available => exact intact.hole

/-- The state of a link whose writer has dropped nothing yet. -/
theorem exec_intact {start : Link} (initially : start.Intact) (events : List LinkEvent)
    (few : start.writer.seq.toNat + events.countP LinkEvent.writes < 2 ^ 64) (whole : (Run.exec step start events).Whole) :
    (Run.exec step start events).Intact := by
  induction events using List.reverseRecOn with
  | nil => exact initially
  | append_singleton events event ih =>
    rw [List.countP_append, List.countP_singleton] at few
    rw [Run.exec_snoc] at whole ⊢
    have within := exec_withinWritten initially.within events (by omega)
    have bound := @Run.exec_measure_le _ _ step (fun l => l.writer.seq.toNat) _ step_seq_le start events
    have room (writes : event.writes = true) : (Run.exec step start events).writer.seq.toNat + 1 < 2 ^ 64 := by
      rw [if_pos writes] at few
      omega
    have before := whole.before within.contiguous room
    exact (ih (by omega) before).step before room

/-- One side knows the other, nothing is dropped, and no seq is in the way. -/
structure Recovering (l : Link) : Prop where
  within : l.WithinWritten
  paired : l.Paired
  whole : l.Whole
  hole : (l.reader.rxState l.writer.guid).window.getLsbD 0 = false
  short : l.writer.history.length ≤ 2 ^ 32
  room : l.writer.seq.toNat + 64 < 2 ^ 64

theorem mem_missingSeqs {s : Nat} :
    s ∈ l.missingSeqs ↔ (1 ≤ s ∧ s ≤ l.writer.seq.toNat) ∧ ¬ l.reader.Settled l.writer.guid s := by
  rw [missingSeqs, List.mem_filter, List.mem_range'_1, decide_eq_true_eq]
  exact and_congr_left (fun _ => by omega)

theorem round_reader (l : Link) (clock : Frame → U64 × U64) :
    (l.round clock).reader = Run.exec ReaderImpl.step l.reader (l.roundOps clock) ∧
      l.round clock = { l with reader := (l.round clock).reader } := by
  have responds (frames : List Frame) (l : Link) : l.respond clock frames = { l with reader := (l.respond clock frames).reader } := by
    induction frames generalizing l with
    | nil => rfl
    | cons frame rest ih => exact ih _
  cases asked : (l.receive (clock (.heartbeat ⟨l.writer.guid, l.writer.firstAvail, l.writer.seq⟩))
      (.heartbeat ⟨l.writer.guid, l.writer.firstAvail, l.writer.seq⟩)).2 with
  | none =>
    simp only [round, roundOps, asked]
    exact ⟨rfl, trivial⟩
  | some nack =>
    simp only [round, roundOps, asked]
    exact ⟨(l.respond_reader clock _).2, responds _ l⟩

theorem round_writer (l : Link) (clock : Frame → U64 × U64) : (l.round clock).writer = l.writer := by
  rw [(l.round_reader clock).2]

/-- The call that a resent sample amounts to. -/
def fetchOp (l : Link) (clock : Frame → U64 × U64) (e : CachedSample) : ReaderOp :=
  .enqueue l.writer.guid e.seq e.data l.writer.qos e.pubTimeMs (clock (l.dataFrame e)).1 (clock (l.dataFrame e)).2

theorem Recovering.baseline (recovering : l.Recovering) :
    (l.reader.rxState l.writer.guid).lastSeq.toNat ≤ l.writer.seq.toNat :=
  recovering.within.settled _ (WriterRxState.settled_of_le le_rfl)

/-- A round fetches what the writer has within the window and the reader has
not, and that is all. -/
theorem Recovering.fetched (recovering : l.Recovering) (clock : Frame → U64 × U64) :
    ∃ samples : List CachedSample, l.roundOps clock = samples.map (l.fetchOp clock) ∧
      samples.Pairwise (fun e e' => e.seq.toNat < e'.seq.toNat) ∧
      ∀ e, e ∈ samples ↔ e ∈ l.writer.history ∧ ¬ l.reader.Settled l.writer.guid e.seq.toNat ∧
        e.seq.toNat ≤ (l.reader.rxState l.writer.guid).lastSeq.toNat + 64 := by
  have low := recovering.baseline
  obtain ⟨within, paired, whole, _, short, room⟩ := recovering
  have step : ((l.reader.rxState l.writer.guid).lastSeq + 1).toNat = (l.reader.rxState l.writer.guid).lastSeq.toNat + 1 := by
    generalize (l.reader.rxState l.writer.guid).lastSeq = last at low
    bv_omega
  by_cases behind : (l.reader.rxState l.writer.guid).lastSeq + 1 ≤ l.writer.seq
  · have asked : (l.receive (clock (.heartbeat ⟨l.writer.guid, l.writer.firstAvail, l.writer.seq⟩))
        (.heartbeat ⟨l.writer.guid, l.writer.firstAvail, l.writer.seq⟩)).2 = some (l.reader.nackFor l.writer.guid) := by
      simp only [receive, paired.writerKnown, and_self, if_true]
      exact ReaderImpl.heartbeatNack_iff.mpr ⟨paired.readerReliable, paired.accepted, behind, rfl⟩
    have answer : l.answer (l.reader.nackFor l.writer.guid) =
        (l.writer.answerAcknack l.reader.record (l.reader.nackFor l.writer.guid)).1.map l.dataFrame := by
      rw [Link.answer, if_pos ⟨paired.readerKnown, rfl, rfl⟩, within.contiguous.answerGap_none whole.kept whole.entitled,
        Option.map_none, Option.toList_none, List.append_nil]
      rfl
    have amounts (e : CachedSample) : l.frameOp (clock (l.dataFrame e)) (l.dataFrame e) = some (l.fetchOp clock e) := by
      simp only [dataFrame, fetchOp, frameOp, paired.writerKnown, paired.accepted, and_self, if_true]
    refine ⟨(l.writer.answerAcknack l.reader.record (l.reader.nackFor l.writer.guid)).1, ?_,
      within.contiguous.resend_ascending short rfl low, fun e => ?_⟩
    · simp only [roundOps, asked]
      rw [answer, List.filterMap_map, ← List.filterMap_eq_map]
      exact List.filterMap_congr (fun e _ => amounts e)
    · rw [ReaderImpl.nackFor, within.contiguous.resend_iff_window short low, step]
      refine and_congr_right (fun cached => ?_)
      rw [whole.entitled e cached, ReaderImpl.Settled, WriterRxState.Settled]
      by_cases above : (l.reader.rxState l.writer.guid).lastSeq.toNat < e.seq.toNat
      · rw [SeqWindow.holds_above above, ← Nat.sub_sub]
        by_cases near : e.seq.toNat ≤ (l.reader.rxState l.writer.guid).lastSeq.toNat + 64
        · rw [bitSet_eq_getLsbD (by omega), Bool.not_eq_true]
          simp only [near, and_true, and_iff_right_iff_imp]
          omega
        · simp only [near, and_false, false_and]
      · simp only [SeqWindow.holds_of_le _ (Nat.le_of_not_lt above), not_true, false_and, iff_false]
        omega
  · have silent : (l.receive (clock (.heartbeat ⟨l.writer.guid, l.writer.firstAvail, l.writer.seq⟩))
        (.heartbeat ⟨l.writer.guid, l.writer.firstAvail, l.writer.seq⟩)).2 = none := by
      simp only [receive, paired.writerKnown, and_self, if_true]
      refine Option.eq_none_iff_forall_not_mem.mpr (fun nack asked => behind ?_)
      exact (ReaderImpl.heartbeatNack_iff.mp asked).2.2.1
    refine ⟨[], by simp only [roundOps, silent, List.map_nil], .nil, fun e => ?_⟩
    simp only [List.not_mem_nil, false_iff, not_and, not_le]
    refine fun cached missed => absurd (WriterRxState.settled_of_le ?_) missed
    have written := within.contiguous.le_seq cached
    have reached : ¬ (l.reader.rxState l.writer.guid).lastSeq.toNat + 1 ≤ l.writer.seq.toNat := by
      rw [← step]
      exact behind
    omega

/-- What is missing within the window is fetched by one round, and the rest
is left for the next. -/
theorem Recovering.round (recovering : l.Recovering) (clock : Frame → U64 × U64) :
    (l.round clock).Recovering ∧ l.reader.chargedIn (l.roundOps clock) = [] ∧
    ∃ fetched : List Nat, l.reader.acceptedIn (l.roundOps clock) = fetched.map (l.writer.guid, ·) ∧
      l.missingSeqs = fetched ++ (l.round clock).missingSeqs ∧ (l.missingSeqs ≠ [] → fetched ≠ []) := by
  obtain ⟨samples, ops, ascending, exact_⟩ := recovering.fetched clock
  obtain ⟨reader, frame⟩ := l.round_reader clock
  have tops : (l.roundOps clock).map ReaderOp.top = samples.map (fun e => e.seq.toNat) := by
    rw [ops, List.map_map]
    rfl
  have sorted : (samples.map (fun e => e.seq.toNat)).Pairwise (· < ·) := List.pairwise_map.mpr ascending
  have near : ∀ op ∈ l.roundOps clock, (∃ seq data qos pubTimeMs now sweepNow,
      op = .enqueue l.writer.guid seq data qos pubTimeMs now sweepNow) ∧
        op.top ≤ (l.reader.rxState l.writer.guid).lastSeq.toNat + 64 := by
    intro op member
    rw [ops] at member
    obtain ⟨e, inside, rfl⟩ := List.mem_map.mp member
    exact ⟨⟨_, _, _, _, _, _, rfl⟩, ((exact_ e).mp inside).2.2⟩
  obtain ⟨free, hole, settled, accepted⟩ := ReaderImpl.fetches recovering.within.range recovering.hole near
    (tops ▸ sorted.nodup)
  rw [tops] at accepted
  rw [← reader, tops] at settled
  rw [← reader] at hole
  have within := recovering.within
  have held (s : Nat) : (∃ e ∈ l.writer.history, e.seq.toNat = s) ↔ 1 ≤ s ∧ s ≤ l.writer.seq.toNat := by
    rw [within.contiguous.mem_seq, recovering.whole.kept]
    omega
  have member (s : Nat) : s ∈ samples.map (fun e => e.seq.toNat) ↔
      s ∈ l.missingSeqs ∧ s ≤ (l.reader.rxState l.writer.guid).lastSeq.toNat + 64 := by
    rw [mem_missingSeqs, ← held, List.mem_map]
    constructor
    · rintro ⟨e, inside, rfl⟩
      obtain ⟨cached, missed, low⟩ := (exact_ e).mp inside
      exact ⟨⟨⟨e, cached, rfl⟩, missed⟩, low⟩
    · rintro ⟨⟨⟨e, cached, rfl⟩, missed⟩, low⟩
      exact ⟨e, (exact_ e).mpr ⟨cached, missed, low⟩, rfl⟩
  have left (s : Nat) : s ∈ (l.round clock).missingSeqs ↔
      s ∈ l.missingSeqs ∧ s ∉ samples.map (fun e => e.seq.toNat) := by
    have same : s ∈ (l.round clock).missingSeqs ↔
        (1 ≤ s ∧ s ≤ l.writer.seq.toNat) ∧ ¬ (l.round clock).reader.Settled l.writer.guid s := by
      rw [mem_missingSeqs, frame]
    rw [same, mem_missingSeqs, settled]
    tauto
  have ordered (m : Link) : m.missingSeqs.Pairwise (· < ·) := (List.pairwise_lt_range' ..).filter _
  refine ⟨?_, free, samples.map (fun e => e.seq.toNat), ?_, ?_, fun some_ none => ?_⟩
  · have later := ReaderImpl.Later.exec l.reader (l.roundOps clock)
    rw [← reader] at later
    obtain ⟨_, topic, type, qos⟩ := ReaderImpl.of_record later.record
    obtain ⟨readerKnown, writerKnown, writerReliable, readerReliable, matches_, history⟩ := recovering.paired
    rw [frame]
    refine ⟨⟨within.contiguous, later.range within.range, within.data, within.gap, fun s after => ?_⟩,
      ⟨readerKnown, writerKnown, writerReliable, ?_, ?_, history⟩, ⟨recovering.whole.kept, fun e cached => ?_⟩, hole,
      recovering.short, recovering.room⟩
    · rcases (settled s).mp after with old | now
      · exact within.settled s old
      · exact (mem_missingSeqs.mp ((member s).mp now).1).1.2
    · rw [← readerReliable]
      exact congrArg QosProfile.reliability qos
    · dsimp only
      rw [topic, type, qos]
      exact matches_
    · dsimp only
      rw [later.record]
      exact recovering.whole.entitled e cached
  · rw [accepted, List.filter_eq_self.mpr (fun s inside => ?_)]
    exact decide_eq_true (mem_missingSeqs.mp ((member s).mp inside).1).2
  · refine (ordered l).eq_of_mem_iff (List.pairwise_append.mpr ⟨sorted, ordered _, fun s low t high => ?_⟩) (fun s => ?_)
    · obtain ⟨missing, still⟩ := (left t).mp high
      have beyond : ¬ t ≤ (l.reader.rxState l.writer.guid).lastSeq.toNat + 64 :=
        fun near => still ((member t).mpr ⟨missing, near⟩)
      have below := ((member s).mp low).2
      omega
    · rw [List.mem_append, left, member]
      tauto
  · obtain ⟨s, inside⟩ := List.exists_mem_of_ne_nil _ some_
    obtain ⟨⟨_, written⟩, missed⟩ := mem_missingSeqs.mp inside
    have above : ¬ s ≤ (l.reader.rxState l.writer.guid).lastSeq.toNat :=
      fun low => missed (WriterRxState.settled_of_le low)
    have next : ¬ l.reader.Settled l.writer.guid ((l.reader.rxState l.writer.guid).lastSeq.toNat + 1) := by
      intro settled
      have bit := (SeqWindow.holds_bit (i := 0)).mp settled
      rw [recovering.hole] at bit
      cases bit
    have first := (member ((l.reader.rxState l.writer.guid).lastSeq.toNat + 1)).mpr
      ⟨mem_missingSeqs.mpr ⟨by omega, next⟩, by omega⟩
    rw [none] at first
    exact absurd first List.not_mem_nil

/-- Rounds in which nothing gets lost, one after the other. -/
abbrev rounds (l : Link) (clocks : List (Frame → U64 × U64)) : Link := Run.exec (fun l clock => l.round clock) l clocks

abbrev roundsOps (l : Link) (clocks : List (Frame → U64 × U64)) : List ReaderOp :=
  Run.log (fun l clock => l.round clock) roundOps l clocks

theorem roundsOps_samples {clocks : List (Frame → U64 × U64)} (recovering : l.Recovering) {op : ReaderOp}
    (member : op ∈ l.roundsOps clocks) : ∃ e ∈ l.writer.history, ∃ clock, op = l.fetchOp clock e := by
  induction clocks generalizing l with
  | nil => exact absurd member List.not_mem_nil
  | cons clock rest ih =>
    rcases List.mem_append.mp member with now | later
    · obtain ⟨samples, ops, _, exact_⟩ := recovering.fetched clock
      rw [ops] at now
      obtain ⟨e, inside, rfl⟩ := List.mem_map.mp now
      exact ⟨e, ((exact_ e).mp inside).1, clock, rfl⟩
    · obtain ⟨e, cached, at_, same⟩ := ih (recovering.round clock).1 later
      have writer := l.round_writer clock
      refine ⟨e, writer ▸ cached, at_, ?_⟩
      rw [same, fetchOp, fetchOp, dataFrame, dataFrame, writer]

/-- Every round takes the next stretch of what is missing. -/
theorem Recovering.rounds (recovering : l.Recovering) (clocks : List (Frame → U64 × U64)) :
    (l.rounds clocks).reader = Run.exec ReaderImpl.step l.reader (l.roundsOps clocks) ∧
    l.reader.chargedIn (l.roundsOps clocks) = [] ∧
    ∃ fetched : List Nat, l.reader.acceptedIn (l.roundsOps clocks) = fetched.map (l.writer.guid, ·) ∧
      l.missingSeqs = fetched ++ (l.rounds clocks).missingSeqs ∧
      (l.missingSeqs.length ≤ clocks.length → (l.rounds clocks).missingSeqs = []) := by
  induction clocks generalizing l with
  | nil => exact ⟨rfl, rfl, [], rfl, rfl, fun none => List.eq_nil_of_length_eq_zero (Nat.le_zero.mp none)⟩
  | cons clock rest ih =>
    obtain ⟨again, free, fetched, took, missing, some_⟩ := recovering.round clock
    obtain ⟨reader, _⟩ := l.round_reader clock
    have guid := congrArg WriterImpl.guid (l.round_writer clock)
    obtain ⟨readers, freeRest, more, tookRest, left, done⟩ := ih again
    rw [reader] at readers freeRest tookRest
    rw [guid] at tookRest
    refine ⟨?_, ?_, fetched ++ more, ?_, ?_, fun enough => done ?_⟩
    · rw [roundsOps, Run.log, Run.exec_append]
      exact readers
    · rw [roundsOps, Run.log, ReaderImpl.chargedIn, Run.log_append, ← ReaderImpl.chargedIn, free]
      exact freeRest
    · rw [roundsOps, Run.log, ReaderImpl.acceptedIn, Run.log_append, ← ReaderImpl.acceptedIn, took, List.map_append]
      exact congrArg _ tookRest
    · rw [missing, left, List.append_assoc]
      rfl
    · by_cases empty : l.missingSeqs = []
      · rw [empty] at missing
        rw [(List.append_eq_nil_iff.mp missing.symm).2]
        exact Nat.zero_le _
      · have count := congrArg List.length missing
        have positive := List.length_pos_iff.mpr (some_ empty)
        rw [List.length_append] at count
        rw [List.length_cons] at enough
        omega

/-- However frames were lost, repeated and reordered before: as long as the
writer has dropped nothing, rounds in which nothing gets lost bring a reliable
reader exactly what it misses, each sample once and in order, and nothing is
given up for it. -/
theorem recovers (wguid rguid : Guid) (wtopic wtype rtopic rtype : Bytes) (wqos rqos : QosProfile) (ignoreLocal : Bool)
    (wbirthUs rbirthUs : U64) (events : List LinkEvent) (few : events.countP LinkEvent.writes + 64 < 2 ^ 64)
    (clocks : List (Frame → U64 × U64)) :
    let writer : WriterImpl := { guid := wguid, topic := wtopic, type := wtype, qos := wqos, birthUs := wbirthUs }
    let start : Link := { writer, reader := ReaderImpl.create rguid rtopic rtype rqos ignoreLocal rbirthUs }
    let l := Run.exec step start events
    l.Paired → l.Whole → l.missingSeqs.length ≤ clocks.length →
      (l.rounds clocks).missingSeqs = [] ∧
      (l.rounds clocks).reader = Run.exec ReaderImpl.step l.reader (l.roundsOps clocks) ∧
      l.reader.acceptedIn (l.roundsOps clocks) = l.missingSeqs.map (wguid, ·) ∧
      l.reader.chargedIn (l.roundsOps clocks) = [] ∧
      ∀ op ∈ l.roundsOps clocks, ∃ e ∈ l.writer.history, ∃ now sweepNow,
        op = .enqueue wguid e.seq e.data wqos e.pubTimeMs now sweepNow := by
  intro writer start l paired whole enough
  have initially : start.Intact := ⟨.initial _ _ _ _ _ rfl, fun _ => List.not_mem_nil, BitVec.getLsbD_zero⟩
  have unwritten : start.writer.seq.toNat = 0 := rfl
  have intact := exec_intact initially events (by omega) whole
  have bound : l.writer.seq.toNat ≤ start.writer.seq.toNat + events.countP LinkEvent.writes :=
    @Run.exec_measure_le _ _ step (fun l => l.writer.seq.toNat) _ step_seq_le start events
  have recovering : l.Recovering := ⟨intact.within, paired, whole, intact.hole,
    exec_history_le (Nat.zero_le _) events, by omega⟩
  obtain ⟨guid, _, _, qos⟩ := WriterImpl.of_record (exec_record start events).1
  obtain ⟨reader, free, fetched, took, missing, done⟩ := recovering.rounds clocks
  have finished := done enough
  rw [finished, List.append_nil] at missing
  refine ⟨finished, reader, ?_, free, fun op member => ?_⟩
  · rw [took, missing]
    exact congrArg (fun g => fetched.map (g, ·)) guid
  · obtain ⟨e, cached, clock, rfl⟩ := roundsOps_samples recovering member
    refine ⟨e, cached, (clock (l.dataFrame e)).1, (clock (l.dataFrame e)).2, ?_⟩
    rw [fetchOp, guid, qos]

/-- Of five samples the fifth and the second arrive, the second twice. -/
def lossyEvents : List LinkEvent :=
  [.knowReader true, .knowWriter true] ++ (List.range 5).map (fun i => .write (BitVec.ofNat 64 i) [] 0) ++
    [.toReader 4 (0, 0), .toReader 1 (0, 0), .toReader 1 (0, 0)]

theorem recovers_three_lost :
    let qos : QosProfile := { history := .keepAll }
    let writer : WriterImpl := { guid := default, topic := [], type := [], qos }
    let l := Run.exec step { writer, reader := ReaderImpl.create default [] [] qos false 0 } lossyEvents
    l.reader.acceptedIn (l.roundsOps (List.replicate 3 (fun _ => (0, 0)))) = [(default, 1), (default, 3), (default, 4)] := by
  intro qos writer l
  have missing : l.missingSeqs = [1, 3, 4] := by decide +kernel
  have state : (l.readerKnown = true ∧ l.writerKnown = true ∧ l.writer.qos.reliability = .reliable ∧
      l.reader.qos.reliability = .reliable ∧
      endpointsMatch l.reader.topic l.reader.type l.reader.qos l.writer.record = true ∧ l.writer.history ≠ []) ∧
      l.writer.history.length = l.writer.seq.toNat ∧ ∀ e ∈ l.writer.history, l.reader.record.entitled e = true := by
    decide +kernel
  obtain ⟨⟨readerKnown, writerKnown, writerReliable, readerReliable, accepted, history⟩, kept, entitled⟩ := state
  have paired : l.Paired := ⟨readerKnown, writerKnown, writerReliable, readerReliable, accepted, history⟩
  have whole : l.Whole := ⟨kept, entitled⟩
  have enough : l.missingSeqs.length ≤ (List.replicate 3 (fun (_ : Frame) => ((0, 0) : U64 × U64))).length := by
    rw [missing]
    exact le_rfl
  have recovered := recovers default default [] [] [] [] qos qos false 0 0 lossyEvents (by decide) _ paired whole enough
  exact recovered.2.2.1.trans (by rw [missing]; rfl)

end Link

end Mdds
