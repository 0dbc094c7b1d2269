import Mdds.Lib.Tally
import Mdds.Delivery
import Mdds.Fabric
import Mdds.FrameRoundTrip
import Mdds.ReaderHistory
import Mdds.Routing

namespace Mdds
open BigOperators

/-- Participants whose applications and threads are idle: they answer what
arrives, and nothing else is sent. `flight` are the frames on their way, each
with the participant it will reach. -/
structure Exchange (ι : Type) where
  party : ι → ParticipantImpl
  flight : List (ι × Bytes)

/-- One frame arrives or is lost, in whatever order; where its answers will
go, and in what pieces, is open. -/
structure Exchange.Arrival (ι : Type) where
  index : Nat
  lost : Bool
  peer : PeerId
  clocks : Clocks
  maxPayload : U32
  route : Bytes → ι

/-- What an exchange is measured by: bounds on the readers and the cached
samples of one participant and on the frames of one sample, and the samples
that are around, each with its writer and seq. -/
structure Exchange.Bounds where
  readers : Nat
  samples : Nat
  pieces : Nat
  keys : Finset (Guid × Nat)

/-- The sample a frame carries or belongs to. -/
def sampleKey (bytes : Bytes) : Option (Guid × Nat) :=
  match decodeData bytes, decodeDataFrag bytes with
  | some body, _ => some (body.writer, body.seq.toNat)
  | none, some body => some (body.writer, body.seq.toNat)
  | none, none => none

namespace Exchange.Bounds
variable (b : Exchange.Bounds)

/-- The cost of an ACKNACK: a window of samples and a GAP. -/
def acknack : Nat := 64 * b.pieces + 2

/-- What the arrival of a frame can cost at most, its answers included, but
for the samples that a reader has not settled yet. -/
def weight (bytes : Bytes) : Nat :=
  match (decodeHeader bytes).map FrameHeader.type with
  | some .acknack => b.acknack
  | some .heartbeat => 1 + b.readers * b.acknack
  | some .announce =>
    1 + ((decodeAnnounce bytes).elim 0 (fun decoded => decoded.1.endpoints.length)) * (b.samples * b.pieces)
  | _ => 1

/-- The samples around that a reader has not settled. -/
def unsettled (r : ReaderImpl) : Nat := (b.keys.filter (fun key => ¬ r.Settled key.1 key.2)).card

def unsettledIn (p : ParticipantImpl) : Nat := (p.readers.map (fun entry => b.unsettled entry.2)).sum

/-- The frames on their way, and an ACKNACK for every sample still to settle. -/
def work {ι : Type} [Fintype ι] (e : Exchange ι) : Nat :=
  (∑ i, b.unsettledIn (e.party i)) * b.acknack + (e.flight.map (fun item => b.weight item.2)).sum

/-- The samples that a participant caches are within the bounds. -/
structure Fits (p : ParticipantImpl) : Prop where
  readers : p.readers.length ≤ b.readers
  samples : (p.writers.map (fun entry => entry.2.history.length)).sum ≤ b.samples
  pieces : ∀ entry ∈ p.writers, ∀ sample ∈ entry.2.history, sample.data.length < b.pieces
  cached : ∀ entry ∈ p.writers, ∀ sample ∈ entry.2.history, (entry.2.guid, sample.seq.toNat) ∈ b.keys
  range : ∀ entry ∈ p.readers, ∀ g, (entry.2.rxState g).InRange

structure Covers {ι : Type} (e : Exchange ι) : Prop where
  party : ∀ i, b.Fits (e.party i)
  flight : ∀ item ∈ e.flight, ∀ key ∈ sampleKey item.2, key ∈ b.keys

end Exchange.Bounds

namespace Exchange
variable {ι : Type} [DecidableEq ι]

/-- The frames that answer an arrival. -/
def answers (p : ParticipantImpl) (a : Arrival ι) (bytes : Bytes) : List Bytes :=
  (p.handleBytes a.peer bytes a.clocks).2.flatMap (Frame.encode a.maxPayload.toNat)

def step (e : Exchange ι) (a : Arrival ι) : Exchange ι :=
  match e.flight[a.index]? with
  | none => e
  | some (i, bytes) =>
    if a.lost then { e with flight := e.flight.eraseIdx a.index }
    else
    { party := Function.update e.party i ((e.party i).handleBytes a.peer bytes a.clocks).1
      flight := e.flight.eraseIdx a.index ++ (answers (e.party i) a bytes).map (fun answer => (a.route answer, answer)) }

/-- The frame that has arrived, or got lost. -/
def arrived (e : Exchange ι) (a : Arrival ι) : List (ι × Bytes) := (e.flight[a.index]?).toList

variable [Fintype ι]

/-- Bounds that are read off the participants and the frames on their way. -/
def bounds (e : Exchange ι) : Bounds where
  readers := ∑ i, (e.party i).readers.length
  samples := ∑ i, ((e.party i).writers.map (fun entry => entry.2.history.length)).sum
  pieces := 1 + ∑ i, ((e.party i).writers.flatMap (fun entry => entry.2.history.map (fun s => s.data.length))).sum
  keys := Finset.univ.biUnion (fun i => ((e.party i).writers.flatMap (fun entry =>
    entry.2.history.map (fun s => (entry.2.guid, s.seq.toNat)))).toFinset) ∪
      (e.flight.filterMap (fun item => sampleKey item.2)).toFinset

end Exchange

theorem Fragmenter.length_loop_le (writer : Guid) (seq pubTimeMs : U64) (payload : Bytes) (flags : U16)
    (capacity fuel offset : Nat) : (loop writer seq pubTimeMs payload flags capacity fuel offset).length ≤ fuel := by
  induction fuel generalizing offset with
  | zero => exact Nat.le_refl _
  | succ fuel ih =>
    rw [loop]
    split
    · exact Nat.succ_le_succ (ih _)
    · exact Nat.zero_le _

/-- A sample makes no more frames than it has bytes, or one. -/
theorem length_sendSampleTo_le (maxPayload : Nat) (writer : Guid) (sample : CachedSample) (flags : U16) :
    (sendSampleTo maxPayload writer sample flags).length ≤ max 1 sample.data.length := by
  unfold sendSampleTo Fragmenter.fragment
  split
  · exact Nat.zero_le _
  · split
    · exact Nat.le_max_left ..
    · split
      · exact Nat.zero_le _
      · refine (Fragmenter.length_loop_le ..).trans ((List.length_take_le' ..).trans (Nat.le_max_right ..))

/-- The frame is of one of the two types for samples and names this one first. -/
def Carries (writer : Guid) (seq : U64) (bytes : Bytes) : Prop :=
  ∃ type flags rest, (type = .data ∨ type = .dataFrag) ∧
    bytes = encodeFrame type flags (writer.bytes ++ (putU64 seq ++ rest))

theorem carries_sendSampleTo {maxPayload : Nat} {writer : Guid} {sample : CachedSample} {flags : U16} {bytes : Bytes}
    (member : bytes ∈ sendSampleTo maxPayload writer sample flags) : Carries writer sample.seq bytes := by
  have pieces (payload : Bytes) (capacity fuel offset : Nat)
      (inside : bytes ∈ Fragmenter.loop writer sample.seq sample.pubTimeMs payload flags capacity fuel offset) :
      Carries writer sample.seq bytes := by
    rw [Fragmenter.loop_eq_map] at inside
    obtain ⟨piece, _, rfl⟩ := List.mem_map.mp inside
    exact ⟨.dataFrag, flags, _, Or.inr rfl, rfl⟩
  unfold sendSampleTo Fragmenter.fragment at member
  split at member
  · exact absurd member List.not_mem_nil
  · split at member
    · exact ⟨.data, flags, _, Or.inl rfl, List.mem_singleton.mp member⟩
    · split at member
      · exact absurd member List.not_mem_nil
      · exact pieces _ _ _ _ member

theorem decodeHeader_type (type : FrameType) (flags : U16) (body : Bytes) :
    (decodeHeader (encodeFrame type flags body)).map FrameHeader.type = some type := by
  have header := decodeHeader_frame type flags body []
  rw [List.append_nil] at header
  rw [header, Option.map_some]

theorem openFrame_body {type : FrameType} {fixedSize : Nat} {buf : Bytes} {opened : FrameHeader × Bytes}
    (accepted : openFrame type fixedSize buf = some opened) : opened.2 = buf.drop kHeaderSize := by
  obtain ⟨hdr, _, rest⟩ := Option.bind_eq_some_iff.mp accepted
  split at rest
  · cases rest
  · exact (Option.some.inj rest) ▸ rfl

namespace Carries
variable {writer : Guid} {seq : U64} {bytes : Bytes}

theorem type (carries : Carries writer seq bytes) : (decodeHeader bytes).map FrameHeader.type = some .data ∨
    (decodeHeader bytes).map FrameHeader.type = some .dataFrag := by
  obtain ⟨type, flags, rest, rfl | rfl, rfl⟩ := carries
  · exact Or.inl (decodeHeader_type ..)
  · exact Or.inr (decodeHeader_type ..)

theorem key (carries : Carries writer seq bytes) : ∀ key ∈ sampleKey bytes, key = (writer, seq.toNat) := by
  obtain ⟨type, flags, rest, _, rfl⟩ := carries
  have body : (encodeFrame type flags (writer.bytes ++ (putU64 seq ++ rest))).drop kHeaderSize =
      writer.bytes ++ (putU64 seq ++ rest) := rfl
  have seqAt : getU64 ((writer.bytes ++ (putU64 seq ++ rest)).drop 16) = seq := by
    rw [List.drop_left' writer.size, getU64_putU64]
  intro key member
  cases decoded : decodeData (encodeFrame type flags (writer.bytes ++ (putU64 seq ++ rest))) with
  | some content =>
    simp only [sampleKey, decoded, Option.mem_def, Option.some.injEq] at member
    obtain ⟨opened, open_, read⟩ := Option.bind_eq_some_iff.mp decoded
    have same := (openFrame_body open_).trans body
    dsimp only at read
    split at read
    · cases read
    · obtain rfl := Option.some.inj read
      rw [← member, same, seqAt, getGuid_append]
  | none =>
    cases fragment : decodeDataFrag (encodeFrame type flags (writer.bytes ++ (putU64 seq ++ rest))) with
    | none => simp [sampleKey, decoded, fragment] at member
    | some content =>
      simp only [sampleKey, decoded, fragment, Option.mem_def, Option.some.injEq] at member
      obtain ⟨opened, open_, read⟩ := Option.bind_eq_some_iff.mp fragment
      have same := (openFrame_body open_).trans body
      dsimp only at read
      split at read
      · cases read
      · split at read
        · cases read
        · obtain rfl := Option.some.inj read
          rw [← member, same, seqAt, getGuid_append]

end Carries

theorem WriterRxState.isNew_of_gap {st : WriterRxState} {seq : U64} (gap : (st.receive seq).gap.isSome = true) :
    (st.receive seq).isNew = true := by
  rcases st.receive_cases seq with ⟨_, same⟩ | ⟨_, same⟩ | ⟨_, _, _, _, _, same⟩ | ⟨_, _, _, _, _, same⟩ | ⟨_, same⟩ <;>
    simp [same] at gap ⊢

theorem ReaderImpl.enqueue_gapDetected {r : ReaderImpl} {writer : Guid} {seq : U64} {data : Bytes} {writerQos : QosProfile}
    {pubTimeMs now sweepNow : U64}
    (detected : (r.enqueue writer seq data writerQos pubTimeMs now sweepNow).gapDetected = true) :
    ((r.rxState writer).receive seq).isNew = true := by
  have whole : (r.enqueue writer seq data writerQos pubTimeMs now sweepNow).gapDetected =
      (((r.rxState writer).receive seq).gap.isSome && r.qos.reliability = .reliable && writerQos.reliability = .reliable) := by
    unfold enqueue
    dsimp only
    split
    · rfl
    · split <;> rfl
  rw [whole, Bool.and_eq_true, Bool.and_eq_true] at detected
  exact WriterRxState.isNew_of_gap detected.1.1

/-- Readers that have moved on, each in its place. -/
def Participant.ReadersLater (p q : Participant) : Prop :=
  ∃ f : Addr × ReaderImpl → ReaderImpl, q.readers = p.readers.map (fun entry => (entry.1, f entry)) ∧
    ∀ entry : Addr × ReaderImpl, entry.2.Later (f entry)

namespace Participant.ReadersLater

theorem same {p q : Participant} (readers : q.readers = p.readers) : p.ReadersLater q :=
  ⟨Prod.snd, by rw [readers, List.map_id'' (fun _ => rfl)], fun entry => .refl entry.2⟩

theorem lasting : Lasting ReadersLater where
  trans := by
    rintro p q r ⟨f, mapped, later⟩ ⟨g, again, latest⟩
    refine ⟨fun entry => g (entry.1, f entry), ?_, fun entry => (later entry).trans (latest (entry.1, f entry))⟩
    rw [again, mapped, List.map_map]
    rfl
  bookkeeping _ _ _ _ := same rfl
  readers _ f later := ⟨fun entry => f entry.1 entry.2, rfl, fun entry => later entry.1 entry.2⟩
  matched p := by
    unfold recomputeMatches
    exact ⟨fun entry => { entry.2 with matchedCount := _ }, rfl, fun entry => .matched entry.2 _⟩

end Participant.ReadersLater

namespace Exchange.Bounds
variable (b : Exchange.Bounds)

theorem unsettled_le {r next : ReaderImpl} (settled : ∀ g s, r.Settled g s → next.Settled g s) :
    b.unsettled next ≤ b.unsettled r :=
  Finset.card_le_card (fun _ member => by
    obtain ⟨around, absent⟩ := Finset.mem_filter.mp member
    exact Finset.mem_filter.mpr ⟨around, fun old => absent (settled _ _ old)⟩)

variable {b}

theorem unsettledIn_le {p q : ParticipantImpl} (fits : b.Fits p) (later : p.toParticipant.ReadersLater q.toParticipant) :
    b.unsettledIn q ≤ b.unsettledIn p := by
  obtain ⟨f, mapped, moves⟩ := later
  rw [unsettledIn, unsettledIn, mapped, List.map_map]
  exact List.sum_le_sum (fun entry member => b.unsettled_le ((moves entry).settled (fits.range entry member)))

/-- What arrives leaves the samples and the number of readers alone. -/
theorem Fits.keep {p q : ParticipantImpl} (fits : b.Fits p) (hosts : p.toParticipant.SameHosts q.toParticipant)
    (later : p.toParticipant.ReadersLater q.toParticipant) : b.Fits q := by
  obtain ⟨f, mapped, moves⟩ := later
  refine ⟨?_, ?_, fun entry member => ?_, fun entry member => ?_, fun entry member => ?_⟩
  · rw [mapped, List.length_map]
    exact fits.readers
  · have sizes := congrArg (List.map (fun entry : Addr × WriterImpl => entry.2.history.length)) hosts.writers
    rw [List.map_map, List.map_map] at sizes
    exact (congrArg List.sum sizes).trans_le fits.samples
  · obtain ⟨old, before, _, _, _, history⟩ := hosts.writer entry member
    rw [← history]
    exact fits.pieces old before
  · obtain ⟨old, before, _, guid, _, history⟩ := hosts.writer entry member
    rw [← history, ← guid]
    exact fits.cached old before
  · rw [mapped] at member
    obtain ⟨old, before, rfl⟩ := List.mem_map.mp member
    exact (moves old).range (fits.range old before)

/-- A reader that asks for what it misses has just settled a sample. -/
theorem deliver_pays {r : ReaderImpl} (range : ∀ g, (r.rxState g).InRange) (writerEp : EndpointRecord) {writer : Guid}
    {sample : CachedSample} (around : (writer, sample.seq.toNat) ∈ b.keys) (clock : U64 × U64) :
    b.unsettled (r.deliver writerEp writer sample clock).1 + (r.deliver writerEp writer sample clock).2.toList.length ≤
      b.unsettled r := by
  have later := (ReaderImpl.Later.deliver r writerEp writer sample clock).settled range
  cases asked : (r.deliver writerEp writer sample clock).2 with
  | none => exact b.unsettled_le later
  | some nack =>
    have new : ((r.rxState writer).receive sample.seq).isNew = true ∧
        (r.deliver writerEp writer sample clock).1.Settled writer sample.seq.toNat := by
      simp only [ReaderImpl.deliver] at asked ⊢
      split at asked
      · cases asked
      · rename_i matching
        rw [if_neg matching]
        split at asked
        · rename_i detected
          have fresh := ReaderImpl.enqueue_gapDetected detected
          refine ⟨fresh, (ReaderImpl.step_settled range (.enqueue writer sample.seq sample.data writerEp.qos
            sample.pubTimeMs clock.1 clock.2) writer sample.seq.toNat).mpr (Or.inr (Or.inl ?_))⟩
          simp [ReaderImpl.accepted, fresh]
        · cases asked
    refine Nat.succ_le_of_lt (Finset.card_lt_card ⟨fun key member => ?_, fun all => ?_⟩)
    · obtain ⟨here, absent⟩ := Finset.mem_filter.mp member
      exact Finset.mem_filter.mpr ⟨here, fun old => absent (later _ _ old)⟩
    · have before : (writer, sample.seq.toNat) ∈ b.keys.filter (fun key => ¬ r.Settled key.1 key.2) :=
        Finset.mem_filter.mpr ⟨around, WriterRxState.receive_isNew.mp new.1⟩
      exact (Finset.mem_filter.mp (all before)).2 new.2

/-- The ACKNACKs that a sample provokes are paid for by what it settles. -/
theorem deliverSample_pays {p : ParticipantImpl} (fits : b.Fits p) {writer : Guid} {sample : CachedSample}
    (around : (writer, sample.seq.toNat) ∈ b.keys) (now : U64) (clock : EnqueueClock) :
    ((p.deliverSample writer sample now clock).1.readers.map (fun entry => b.unsettled entry.2)).sum +
      (p.deliverSample writer sample now clock).2.length ≤ b.unsettledIn p := by
  unfold Participant.deliverSample
  dsimp only
  split
  · exact le_rfl
  · rename_i writerEp _
    dsimp only
    rw [List.map_map]
    refine Tally.length_filterMap_pays (fun entry member => ?_)
    have paid := deliver_pays (fits.range entry member) writerEp around (clock entry.1)
    cases asked : (entry.2.deliver writerEp writer sample (clock entry.1)).2 with
    | none =>
      rw [asked] at paid
      exact paid
    | some nack =>
      rw [asked] at paid
      exact paid

/-- What one frame to be sent can cost. -/
def cost (b : Exchange.Bounds) : Frame → Nat
  | .data .. => b.pieces
  | .acknack _ => b.acknack
  | .gap _ => 1
  | .announce snap _ => 1 + snap.endpoints.length * (b.samples * b.pieces)
  | .heartbeat _ => 1 + b.readers * b.acknack

/-- Samples that are sent are cached ones, and announces are not sent at all. -/
def Answers (b : Exchange.Bounds) : Frame → Prop
  | .data writer sample _ => sample.data.length < b.pieces ∧ (writer, sample.seq.toNat) ∈ b.keys
  | .acknack _ | .gap _ => True
  | .announce .. | .heartbeat _ => False

theorem Answers.encode {frame : Frame} (answers : b.Answers frame) (maxPayload : Nat) :
    ((frame.encode maxPayload).map b.weight).sum ≤ b.cost frame ∧
      ∀ bytes ∈ frame.encode maxPayload, ∀ key ∈ sampleKey bytes, key ∈ b.keys := by
  have control {type : FrameType} {body : Bytes} (noData : type ≠ .data) (noFragment : type ≠ .dataFrag) :
      sampleKey (encodeFrame type 0 body) = none := by
    have header := decodeHeader_type type 0 body
    have noSample := decode_none_of_type (fun _ => decodeData_type) (header ▸ fun same => noData (Option.some.inj same))
    have noPiece := decode_none_of_type (fun _ => decodeDataFrag_type)
      (header ▸ fun same => noFragment (Option.some.inj same))
    unfold sampleKey
    rw [noSample, noPiece]
  cases frame with
  | announce | heartbeat => exact answers.elim
  | data writer sample reliableFlag =>
    obtain ⟨short, around⟩ := answers
    refine ⟨?_, fun bytes member key inside => ?_⟩
    · have each : ∀ bytes ∈ (Frame.data writer sample reliableFlag).encode maxPayload, b.weight bytes = 1 := by
        intro bytes member
        rcases (carries_sendSampleTo member).type with header | header <;> simp only [weight, header]
      rw [List.map_congr_left each, List.map_const', List.sum_replicate_nat, Nat.mul_one]
      have few := length_sendSampleTo_le maxPayload writer sample (if reliableFlag then kFlagReliable else 0)
      exact few.trans (max_le (Nat.one_le_of_lt short) short.le)
    · rw [(carries_sendSampleTo member).key key inside]
      exact around
  | acknack body =>
    refine ⟨?_, fun bytes member key inside => ?_⟩
    · rw [Frame.encode, List.map_singleton, List.sum_singleton, weight, encodeAcknack, encodePair, decodeHeader_type]
      exact le_rfl
    · rw [List.mem_singleton.mp member, encodeAcknack, encodePair, @control .acknack _ (by decide) (by decide)] at inside
      cases inside
  | gap body =>
    refine ⟨?_, fun bytes member key inside => ?_⟩
    · rw [Frame.encode, List.map_singleton, List.sum_singleton, weight, encodeGap, encodePair, decodeHeader_type]
      exact le_rfl
    · rw [List.mem_singleton.mp member, encodeGap, encodePair, @control .gap _ (by decide) (by decide)] at inside
      cases inside

theorem Answers.encode_all {frames : List Frame} (answers : ∀ frame ∈ frames, b.Answers frame) (maxPayload : Nat) :
    ((frames.flatMap (Frame.encode maxPayload)).map b.weight).sum ≤ (frames.map b.cost).sum ∧
      ∀ bytes ∈ frames.flatMap (Frame.encode maxPayload), ∀ key ∈ sampleKey bytes, key ∈ b.keys := by
  refine ⟨?_, fun bytes member => ?_⟩
  · rw [List.map_flatMap, Tally.sum_flatMap]
    exact List.sum_le_sum (fun frame member => ((answers frame member).encode maxPayload).1)
  · obtain ⟨frame, inside, encoded⟩ := List.mem_flatMap.mp member
    exact ((answers frame inside).encode maxPayload).2 bytes encoded

theorem cost_acknacks {frames : List Frame} (all : ∀ frame ∈ frames, ∃ nack, frame = .acknack nack) :
    (∀ frame ∈ frames, b.Answers frame) ∧ (frames.map b.cost).sum = frames.length * b.acknack := by
  refine ⟨fun frame member => ?_, ?_⟩
  · obtain ⟨nack, rfl⟩ := all frame member
    trivial
  · have each : ∀ frame ∈ frames, b.cost frame = b.acknack := by
      intro frame member
      obtain ⟨nack, rfl⟩ := all frame member
      rfl
    rw [List.map_congr_left each, List.map_const', List.sum_replicate_nat]

/-- What a participant does with one frame, reckoned up: it stays within the
bounds, its answers are within them, and frame and samples settled pay for it. -/
structure Pays (b : Exchange.Bounds) (p : ParticipantImpl) (bytes : Bytes) (q : ParticipantImpl) (frames : List Frame) :
    Prop where
  answers : ∀ frame ∈ frames, b.Answers frame
  paid : b.unsettledIn q * b.acknack + (frames.map b.cost).sum + 1 ≤ b.unsettledIn p * b.acknack + b.weight bytes

theorem weight_pos (bytes : Bytes) : 1 ≤ b.weight bytes := by
  unfold weight acknack
  split <;> omega

/-- The frame alone pays for answers that are cheap enough. -/
theorem Pays.of_cost {p q : ParticipantImpl} {bytes : Bytes} {frames : List Frame}
    (fewer : b.unsettledIn q ≤ b.unsettledIn p) (answers : ∀ frame ∈ frames, b.Answers frame)
    (cheap : (frames.map b.cost).sum + 1 ≤ b.weight bytes) : b.Pays p bytes q frames := by
  have product := Nat.mul_le_mul_right b.acknack fewer
  exact ⟨answers, by omega⟩

theorem Pays.silent {p q : ParticipantImpl} {bytes : Bytes} (fewer : b.unsettledIn q ≤ b.unsettledIn p) :
    b.Pays p bytes q [] :=
  .of_cost fewer (fun _ member => absurd member List.not_mem_nil) (weight_pos bytes)

/-- A sample that is delivered is asked for no more. -/
theorem Pays.sample {p : ParticipantImpl} (fits : b.Fits p) {bytes : Bytes} {writer : Guid} {seq : U64}
    (around : (writer, seq.toNat) ∈ b.keys) (pubTimeMs : U64) (payload : Bytes) (clocks : Clocks) :
    b.Pays p bytes (p.deliver writer seq pubTimeMs payload clocks).1 (p.deliver writer seq pubTimeMs payload clocks).2 := by
  have nacks : ∀ frame ∈ (p.deliver writer seq pubTimeMs payload clocks).2, ∃ nack, frame = .acknack nack :=
    fun _ => Participant.deliverSample_sends
  have settles : b.unsettledIn (p.deliver writer seq pubTimeMs payload clocks).1 +
      (p.deliver writer seq pubTimeMs payload clocks).2.length ≤ b.unsettledIn p :=
    @deliverSample_pays b p fits writer ⟨seq, pubTimeMs, 0, payload⟩ around clocks.steadyMs clocks.offers
  obtain ⟨answers, total⟩ := @cost_acknacks b _ nacks
  refine ⟨answers, ?_⟩
  have product := Nat.mul_le_mul_right b.acknack settles
  have least := @weight_pos b bytes
  rw [Nat.add_mul] at product
  omega

/-- A history that is replayed to a peer, for every reader it announces. -/
theorem replay_pays {p : Participant} {newReaders : List EndpointRecord} (now : U64)
    (samples : (p.writers.map (fun entry => entry.2.history.length)).sum ≤ b.samples)
    (cached : ∀ entry ∈ p.writers, ∀ sample ∈ entry.2.history,
      sample.data.length < b.pieces ∧ (entry.2.guid, sample.seq.toNat) ∈ b.keys) :
    (∀ frame ∈ p.replayHistoryToPeer newReaders now, b.Answers frame) ∧
      ((p.replayHistoryToPeer newReaders now).map b.cost).sum ≤ newReaders.length * (b.samples * b.pieces) := by
  have each : ∀ frame ∈ p.replayHistoryToPeer newReaders now, b.Answers frame ∧ b.cost frame = b.pieces := by
    intro frame member
    cases frame with
    | data writer sample reliableFlag =>
      obtain ⟨entry, inside, rfl, kept⟩ := Participant.replayHistoryToPeer_data member
      exact ⟨cached entry inside sample kept, rfl⟩
    | announce | acknack | heartbeat | gap =>
      obtain ⟨ep, _, replay⟩ := List.mem_flatMap.mp member
      split at replay <;> simp at replay
  have few : (p.replayHistoryToPeer newReaders now).length ≤ newReaders.length * b.samples := by
    refine Tally.length_flatMap_le (fun ep _ => ?_)
    split
    · exact Nat.zero_le _
    · refine (Tally.length_flatMap_filter_le (fun entry => ?_)).trans samples
      rw [List.length_map]
      exact List.length_filter_le ..
  refine ⟨fun frame member => (each frame member).1, ?_⟩
  rw [List.map_congr_left (fun frame member => (each frame member).2), List.map_const', List.sum_replicate_nat,
    ← Nat.mul_assoc]
  exact Nat.mul_le_mul_right _ few

/-- A window of samples and a GAP at most. -/
theorem acknack_pays {p : ParticipantImpl} (fits : b.Fits p) (body : AckNackBody) :
    (∀ frame ∈ p.handleAcknack body, b.Answers frame) ∧ ((p.handleAcknack body).map b.cost).sum + 1 ≤ b.acknack := by
  refine ⟨fun frame member => ?_, ?_⟩
  · cases frame with
    | data writer sample reliableFlag =>
      obtain ⟨entry, inside, rfl, kept⟩ := Participant.handleAcknack_data member
      exact ⟨fits.pieces entry inside sample kept, fits.cached entry inside sample kept⟩
    | acknack | gap => trivial
    | announce | heartbeat =>
      unfold Participant.handleAcknack at member
      split at member <;> simp at member
  · unfold Participant.handleAcknack
    split
    · rename_i w readerEp _ _
      rw [List.map_append, List.map_map, List.sum_append_nat]
      have window : (w.answerAcknack readerEp body).1.length ≤ 64 := by
        rw [WriterImpl.answerAcknack_resend]
        exact (List.length_filterMap_le ..).trans_eq List.length_range
      have resent : ((w.answerAcknack readerEp body).1.map (b.cost ∘ fun e => .data body.writer e w.reliableFlag)).sum ≤
          64 * b.pieces := by
        have same : (b.cost ∘ fun e => .data body.writer e w.reliableFlag) = fun _ => b.pieces := rfl
        rw [same, List.map_const', List.sum_replicate_nat]
        exact Nat.mul_le_mul_right _ window
      have gap : (((w.answerGap readerEp body).map Frame.gap).toList.map b.cost).sum ≤ 1 := by
        cases w.answerGap readerEp body <;> simp [cost]
      rw [acknack]
      omega
    · rw [acknack]
      simp

theorem handleBytes_pays {p : ParticipantImpl} (fits : b.Fits p) (peer : PeerId) {bytes : Bytes}
    (around : ∀ key ∈ sampleKey bytes, key ∈ b.keys) (clocks : Clocks) :
    b.Pays p bytes (p.handleBytes peer bytes clocks).1 (p.handleBytes peer bytes clocks).2 := by
  have fewer := unsettledIn_le fits (Participant.ReadersLater.lasting.handleBytes p peer bytes clocks)
  have other {type : FrameType} (header : (decodeHeader bytes).map FrameHeader.type = some type) (differ : type ≠ .data) :
      decodeData bytes = none :=
    decode_none_of_type (fun _ => decodeData_type) (header ▸ fun same => differ (Option.some.inj same))
  cases header : (decodeHeader bytes).map FrameHeader.type with
  | none =>
    simp only [ParticipantImpl.handleBytes, header]
    exact .silent le_rfl
  | some type =>
    cases type with
    | other =>
      simp only [ParticipantImpl.handleBytes, header]
      exact .silent le_rfl
    | announce =>
      simp only [ParticipantImpl.handleBytes, header] at fewer ⊢
      cases decoded : decodeAnnounce bytes with
      | none => exact .silent le_rfl
      | some content =>
        obtain ⟨snap, announceSeq⟩ := content
        simp only [decoded] at fewer ⊢
        have writers : (p.handleAnnounce peer snap announceSeq clocks.steadyMs).1.writers = p.writers := by
          unfold Participant.handleAnnounce
          dsimp only
          split
          · rfl
          · split <;> rfl
        have newReaders : (p.handleAnnounce peer snap announceSeq clocks.steadyMs).2.1.length ≤ snap.endpoints.length := by
          unfold Participant.handleAnnounce
          dsimp only
          split
          · exact List.length_filter_le ..
          · split
            · exact Nat.zero_le _
            · exact (List.length_filter_le ..).trans (List.length_filter_le ..)
        obtain ⟨answers, cheap⟩ := @replay_pays b (p.handleAnnounce peer snap announceSeq clocks.steadyMs).1
          (p.handleAnnounce peer snap announceSeq clocks.steadyMs).2.1 clocks.systemMs (writers ▸ fits.samples)
          (fun entry member sample kept =>
            ⟨fits.pieces entry (writers ▸ member) sample kept, fits.cached entry (writers ▸ member) sample kept⟩)
        refine .of_cost fewer answers ?_
        have scaled := Nat.mul_le_mul_right (b.samples * b.pieces) newReaders
        simp only [weight, header, decoded, Option.elim_some]
        rw [Nat.add_comm]
        exact Nat.add_le_add_left (cheap.trans scaled) 1
    | data =>
      simp only [ParticipantImpl.handleBytes, header]
      cases decoded : decodeData bytes with
      | none => exact .silent le_rfl
      | some body => exact .sample fits (around _ (by simp [sampleKey, decoded])) ..
    | dataFrag =>
      simp only [ParticipantImpl.handleBytes, header]
      cases decoded : decodeDataFrag bytes with
      | none => exact .silent le_rfl
      | some body =>
        have here : (body.writer, body.seq.toNat) ∈ b.keys := around _ (by simp [sampleKey, decoded, other header (by decide)])
        have fitsNext : b.Fits (p.addFragment peer body clocks).1 := fits.keep (.of_tables rfl rfl rfl rfl rfl rfl) (.same rfl)
        dsimp only
        split
        · exact .silent le_rfl
        · rename_i full _
          have paid : b.Pays (p.addFragment peer body clocks).1 bytes _ _ := .sample fitsNext here body.pubTimeMs full clocks
          exact ⟨paid.answers, paid.paid⟩
    | acknack =>
      simp only [ParticipantImpl.handleBytes, header]
      cases decoded : decodeAcknack bytes with
      | none => exact .silent le_rfl
      | some body =>
        obtain ⟨answers, cheap⟩ := acknack_pays fits body
        exact .of_cost le_rfl answers (by simpa only [weight, header, Option.map_some, Option.getD_some] using cheap)
    | heartbeat =>
      simp only [ParticipantImpl.handleBytes, header]
      cases decoded : decodeHeartbeat bytes with
      | none => exact .silent le_rfl
      | some body =>
        have nacks : ∀ frame ∈ (p.handleHeartbeat body clocks.steadyMs).2, ∃ nack, frame = .acknack nack :=
          fun _ => Participant.handleHeartbeat_sends
        have few : (p.handleHeartbeat body clocks.steadyMs).2.length ≤ b.readers := by
          unfold Participant.handleHeartbeat
          dsimp only
          split
          · exact Nat.zero_le _
          · exact (List.length_filterMap_le ..).trans fits.readers
        have same : (p.handleHeartbeat body clocks.steadyMs).1.readers = p.readers := by
          unfold Participant.handleHeartbeat
          dsimp only
          split <;> rfl
        obtain ⟨answers, total⟩ := @cost_acknacks b _ nacks
        refine .of_cost (by simp only [unsettledIn, same, le_refl]) answers ?_
        have scaled := Nat.mul_le_mul_right b.acknack few
        simp only [weight, header]
        omega
    | gap =>
      simp only [ParticipantImpl.handleBytes, header] at fewer ⊢
      cases decoded : decodeGap bytes with
      | none => exact .silent le_rfl
      | some body =>
        simp only [decoded] at fewer
        exact .silent fewer

section Steps
variable {ι : Type} [DecidableEq ι] [Fintype ι] {e : Exchange ι}

/-- A frame is paid for when it arrives, and dropped when it is lost. -/
theorem Covers.step (covers : b.Covers e) (a : Exchange.Arrival ι) :
    b.Covers (e.step a) ∧ b.work (e.step a) + (e.arrived a).length ≤ b.work e := by
  unfold Exchange.step Exchange.arrived
  cases found : e.flight[a.index]? with
  | none => exact ⟨covers, le_rfl⟩
  | some item =>
    obtain ⟨i, bytes⟩ := item
    obtain ⟨inside, here⟩ := List.getElem?_eq_some_iff.mp found
    have left : b.weight bytes + ((e.flight.eraseIdx a.index).map (fun item => b.weight item.2)).sum =
        (e.flight.map (fun item => b.weight item.2)).sum := by
      have whole := @List.add_sum_eraseIdx _ _ (e.flight.map (fun item => b.weight item.2)) a.index
        (by rw [List.length_map]; exact inside) (fun _ _ => AddCommute.all ..)
      rw [List.getElem_map, here, List.eraseIdx_map] at whole
      exact whole
    have least := @weight_pos b bytes
    dsimp only [Option.toList_some, List.length_singleton]
    split
    · refine ⟨⟨covers.party, fun item member => covers.flight item (List.mem_of_mem_eraseIdx member)⟩, ?_⟩
      simp only [work]
      omega
    · have pays := @handleBytes_pays b (e.party i) (covers.party i) a.peer bytes
        (covers.flight _ (List.mem_of_getElem? found)) a.clocks
      obtain ⟨cheap, around⟩ := @Answers.encode_all b _ pays.answers a.maxPayload.toNat
      have moved := Tally.sum_update b.unsettledIn e.party i ((e.party i).handleBytes a.peer bytes a.clocks).1
      refine ⟨⟨fun j => ?_, fun item member => ?_⟩, ?_⟩
      · dsimp only
        by_cases same : j = i
        · subst same
          rw [Function.update_self]
          exact (covers.party j).keep (Participant.SameHosts.lasting.handleBytes ..)
            (Participant.ReadersLater.lasting.handleBytes ..)
        · rw [Function.update_of_ne same]
          exact covers.party j
      · rcases List.mem_append.mp member with old | new
        · exact covers.flight item (List.mem_of_mem_eraseIdx old)
        · obtain ⟨answer, sent, rfl⟩ := List.mem_map.mp new
          exact around answer sent
      · have paid := pays.paid
        have scaled := congrArg (· * b.acknack) moved
        simp only [Nat.add_mul] at scaled
        have answered : ((Exchange.answers (e.party i) a bytes).map (fun answer => b.weight answer)).sum ≤ _ := cheap
        simp only [work, List.map_append, List.map_map, List.sum_append_nat, Function.comp_def]
        omega

end Steps

end Exchange.Bounds

namespace Exchange
variable {ι : Type} [Fintype ι] {e : Exchange ι}

theorem bounds_covers (readers : ∀ i, ∀ entry ∈ (e.party i).readers, entry.2.Reachable) : e.bounds.Covers e := by
  have among (size : ι → Nat) (i : ι) : size i ≤ ∑ j, size j :=
    Finset.single_le_sum (fun _ _ => Nat.zero_le _) (Finset.mem_univ i)
  refine ⟨fun i => ⟨among (fun i => (e.party i).readers.length) i,
    among (fun i => ((e.party i).writers.map (fun entry => entry.2.history.length)).sum) i,
    fun entry member sample kept => ?_, fun entry member sample kept => ?_,
    fun entry member => (readers i entry member).inRange⟩, fun item member key inside => ?_⟩
  · have bytes : sample.data.length ∈
        (e.party i).writers.flatMap (fun entry => entry.2.history.map (fun s => s.data.length)) :=
      List.mem_flatMap.mpr ⟨entry, member, List.mem_map_of_mem kept⟩
    exact Nat.lt_one_add_iff.mpr ((List.le_sum_of_mem bytes).trans
      (among (fun i => ((e.party i).writers.flatMap (fun entry => entry.2.history.map (fun s => s.data.length))).sum) i))
  · refine Finset.mem_union_left _ (Finset.mem_biUnion.mpr ⟨i, Finset.mem_univ i, List.mem_toFinset.mpr ?_⟩)
    exact List.mem_flatMap.mpr ⟨entry, member, List.mem_map_of_mem kept⟩
  · exact Finset.mem_union_right _ (List.mem_toFinset.mpr (List.mem_filterMap.mpr ⟨item, member, inside⟩))

/-- Participants left to themselves answer each other only so often: whatever
order their frames arrive in and whichever get lost, the frames that arrive
are bounded by the work at the start, until none is on its way. -/
theorem exchange_ends [DecidableEq ι] (readers : ∀ i, ∀ entry ∈ (e.party i).readers, entry.2.Reachable) :
    (∀ arrivals, e.bounds.work (Run.exec step e arrivals) + (Run.log step arrived e arrivals).length ≤ e.bounds.work e) ∧
    ∀ policy : Exchange ι → Arrival ι, (∀ e, e.flight ≠ [] → (policy e).index < e.flight.length) →
      ∃ arrivals, Run.Along step (fun e a => a = policy e) e arrivals ∧ arrivals.length ≤ e.bounds.work e ∧
        (Run.exec step e arrivals).flight = [] := by
  have covers := bounds_covers readers
  refine ⟨fun arrivals => Run.exec_potential (fun _ a covers => covers.step a) arrivals covers, fun policy inFlight => ?_⟩
  refine @Run.exists_done _ _ step _ (fun e => e.flight = []) _ policy (fun e covers busy => ?_) e covers
  obtain ⟨kept, paid⟩ := covers.step (policy e)
  rw [arrived, List.getElem?_eq_getElem (inFlight e busy), Option.toList_some, List.length_singleton] at paid
  exact ⟨kept, paid⟩

/-- A writer with three samples to resend, and the HEARTBEAT that tells of them. -/
def demoBacklog : Exchange Bool where
  party
    | false => { demoNet.party false with writers := [(0, { demoTalker with
        seq := 3, history := [⟨1, 5, 5000, [1]⟩, ⟨2, 6, 6000, [2]⟩, ⟨3, 7, 7000, [3]⟩] })] }
    | true => demoNet.party true
  flight := [(true, encodeHeartbeat ⟨demoTalker.guid, 1, 3⟩)]

def demoPolicy (e : Exchange Bool) : Arrival Bool where
  index := 0
  lost := e.flight.isEmpty
  peer := 0
  clocks := ⟨9, 9, fun _ => (9, 9)⟩
  maxPayload := 61
  route bytes := (decodeAcknack bytes).isNone

theorem exchange_ends_backlog : ∃ arrivals, Run.Along step (fun e a => a = demoPolicy e) demoBacklog arrivals ∧
    arrivals.length ≤ 2065 ∧ (Run.exec step demoBacklog arrivals).flight = [] := by
  have work : demoBacklog.bounds.work demoBacklog = 2065 := by decide +kernel
  rw [← work]
  refine (exchange_ends (e := demoBacklog) (fun i entry member => ?_)).2 demoPolicy
    (fun e busy => List.length_pos_iff.mpr busy)
  cases i with
  | false => exact absurd member List.not_mem_nil
  | true =>
    have reachable : ∀ entry ∈ (demoNet.party true).readers, ∃ guid topic type qos ignoreLocal birthUs,
        entry.2 = .create guid topic type qos ignoreLocal birthUs := by
      simp only [demoNet, demoSubscriber, List.forall_mem_cons, List.not_mem_nil, false_imp_iff, forall_true_iff,
        and_true]
      exact ⟨⟨_, _, _, _, _, _, rfl⟩, ⟨_, _, _, _, _, _, rfl⟩⟩
    obtain ⟨guid, topic, type, qos, ignoreLocal, birthUs, created⟩ := reachable entry member
    exact ⟨guid, topic, type, qos, ignoreLocal, birthUs, [], 0, by rw [created]; rfl⟩

end Exchange

end Mdds
