import Mdds.Endpoints
import Mdds.ParticipantImpl

namespace Mdds

namespace ParticipantImpl
variable {p : ParticipantImpl} {peer : PeerId} {writer : Guid} {sample : CachedSample} {maxPayload : Nat} {flags : U16}

/-- The frames of one sample have arrived up to `part`. -/
def Gathered (p : ParticipantImpl) (peer : PeerId) (writer : Guid) (sample : CachedSample) (part : List Bytes) : Prop :=
  (p.reassembler peer).Holds ⟨writer, sample.seq⟩ sample.data (part.filterMap decodeDataFrag)

theorem Gathered.none (absent : (p.reassembler peer).partials.lookup ⟨writer, sample.seq⟩ = none) :
    p.Gathered peer writer sample [] :=
  Or.inl ⟨absent, rfl⟩

theorem Gathered.keep {q : ParticipantImpl} {part : List Bytes} (gathered : p.Gathered peer writer sample part)
    (same : (q.reassembler peer).partials.lookup ⟨writer, sample.seq⟩ =
      (p.reassembler peer).partials.lookup ⟨writer, sample.seq⟩) : q.Gathered peer writer sample part := by
  unfold Gathered Reassembler.Holds at gathered ⊢
  rwa [same]

section Frames
variable (room : kHeaderSize + kDataFragBodyFixedSize < maxPayload) (limit : maxPayload < 2 ^ 32)
  (short : sample.data.length < 2 ^ 32)
include room limit short

/-- A sample travels as one DATA frame or as the pieces of its payload. -/
theorem sendSampleTo_cases :
    (∃ frame, sendSampleTo maxPayload writer sample flags = [frame] ∧
      decodeData frame = some ⟨writer, sample.seq, sample.pubTimeMs, sample.data, {}⟩) ∨
    (Fragmenter.Splits maxPayload sample.data ∧ sendSampleTo maxPayload writer sample flags =
      (Fragmenter.pieces sample.data.length (Fragmenter.capacityOf maxPayload) sample.data.length 0).map
        (Fragmenter.frameOf writer sample.seq sample.pubTimeMs sample.data flags)) := by
  have whole : sample.data.take (sample.data.length % 2 ^ 32) = sample.data := by
    rw [Nat.mod_eq_of_lt short, List.take_length]
  rw [sendSampleTo, if_neg (by omega), whole]
  by_cases fits : kHeaderSize + kDataBodyFixedSize + sample.data.length ≤ maxPayload
  · refine Or.inl ⟨_, ?_, decodeData_encode writer sample.seq sample.pubTimeMs flags (by omega)⟩
    rw [Fragmenter.fragment, if_pos fits]
  · have splits : Fragmenter.Splits maxPayload sample.data := ⟨room, limit, by omega⟩
    exact Or.inr ⟨splits, splits.fragment_eq ..⟩

theorem sendSampleTo_ne_nil : sendSampleTo maxPayload writer sample flags ≠ [] := by
  rcases @sendSampleTo_cases writer sample maxPayload flags room limit short with ⟨_, frames, _⟩ | ⟨splits, frames⟩
  · rw [frames]
    exact List.cons_ne_nil _ _
  · have large := splits.large
    simp only [kHeaderSize, kDataFragBodyFixedSize, kDataBodyFixedSize] at room large
    obtain ⟨piece, inside, _⟩ := @Fragmenter.pieces_cover sample.data.length _ sample.data.length 0 0 splits.positive
      (by omega) (Nat.zero_le 0) (by omega)
    rw [frames]
    exact List.ne_nil_of_mem (List.mem_map_of_mem inside)

/-- Every frame of a sample, in whatever state, acts on that sample only. -/
theorem acts_frame {frame : Bytes} (member : frame ∈ sendSampleTo maxPayload writer sample flags) (clocks : Clocks) :
    ∃ delivered, Acts peer writer sample.seq sample.pubTimeMs delivered clocks p (p.handleBytes peer frame clocks).1 := by
  rcases @sendSampleTo_cases writer sample maxPayload flags room limit short with ⟨whole, frames, decoded⟩ | ⟨splits, frames⟩
  · rw [frames, List.mem_singleton] at member
    subst member
    exact ⟨_, acts_data decoded clocks⟩
  · rw [frames] at member
    obtain ⟨piece, cut, rfl⟩ := List.mem_map.mp member
    obtain ⟨_, _, within, inside⟩ := Fragmenter.mem_pieces splits.positive cut
    exact ⟨_, (acts_dataFrag (Fragmenter.decode_frameOf inside flags short (splits.fits within)) clocks).1⟩

omit room limit in
/-- What a piece does after the pieces in `before`: it completes the sample
exactly if all of them cover the payload, and else joins the partial. -/
theorem gather_piece {before later : List (Nat × Nat)} {piece : Nat × Nat}
    (splits : Fragmenter.Splits maxPayload sample.data)
    (pieces : Fragmenter.pieces sample.data.length (Fragmenter.capacityOf maxPayload) sample.data.length 0 = before ++ later)
    (member : piece ∈ before ++ later)
    (gathered : p.Gathered peer writer sample
      (before.map (Fragmenter.frameOf writer sample.seq sample.pubTimeMs sample.data flags))) (clocks : Clocks) :
    let frame := Fragmenter.frameOf writer sample.seq sample.pubTimeMs sample.data flags piece
    let seen := before.map (Fragmenter.fragOf writer sample.seq sample.pubTimeMs sample.data)
    let frag := Fragmenter.fragOf writer sample.seq sample.pubTimeMs sample.data piece
    decodeDataFrag frame = some frag ∧
    (before.map (Fragmenter.frameOf writer sample.seq sample.pubTimeMs sample.data flags)).filterMap decodeDataFrag = seen ∧
    ((Complete sample.data (seen ++ [frag]) ∧
        Acts peer writer sample.seq sample.pubTimeMs (some sample.data) clocks p (p.handleBytes peer frame clocks).1) ∨
      (¬ Complete sample.data (seen ++ [frag]) ∧
        Acts peer writer sample.seq sample.pubTimeMs none clocks p (p.handleBytes peer frame clocks).1 ∧
        ∃ next : Partial, next.Tracks sample.data (seen ++ [frag]) ∧
          ((p.handleBytes peer frame clocks).1.reassembler peer).partials.lookup ⟨writer, sample.seq⟩ = some next)) := by
  intro frame seen frag
  have bounds (other : Nat × Nat) (member : other ∈ before ++ later) :=
    Fragmenter.mem_pieces splits.positive (pieces ▸ member)
  obtain ⟨_, nonempty, within, inside⟩ := bounds piece member
  have positive : sample.data ≠ [] := List.length_pos_iff.mp (by omega)
  have decoded : decodeDataFrag frame = some frag :=
    @Fragmenter.decode_frameOf writer sample.seq sample.pubTimeMs sample.data piece inside flags short (splits.fits within)
  obtain ⟨acts, held⟩ := @acts_dataFrag p peer _ _ decoded clocks
  have read : (before.map (Fragmenter.frameOf writer sample.seq sample.pubTimeMs sample.data flags)).filterMap
      decodeDataFrag = seen :=
    splits.decoded short (fun other member => (bounds other (List.mem_append_left _ member)).2.2)
  rw [Gathered, read] at gathered
  refine ⟨decoded, read, ?_⟩
  rcases Reassembler.add_slice gathered (Fragmenter.fragOf_slice inside short) positive short clocks.steadyMs.toNat with
    ⟨complete, run⟩ | ⟨incomplete, next, tracks, run⟩
  · rw [run] at acts
    exact Or.inl ⟨complete, acts⟩
  · rw [run] at acts held
    refine Or.inr ⟨incomplete, acts, next, tracks, ?_⟩
    rw [held, KeyedList.lookup_assign, if_pos rfl]

/-- The next frame delivers the sample if it is the last and is kept otherwise. -/
theorem gather_next {part rest : List Bytes} {frame : Bytes}
    (frames : sendSampleTo maxPayload writer sample flags = part ++ frame :: rest)
    (gathered : p.Gathered peer writer sample part) (clocks : Clocks) :
    (rest = [] ∧
      Acts peer writer sample.seq sample.pubTimeMs (some sample.data) clocks p (p.handleBytes peer frame clocks).1) ∨
    (rest ≠ [] ∧ Acts peer writer sample.seq sample.pubTimeMs none clocks p (p.handleBytes peer frame clocks).1 ∧
      (p.handleBytes peer frame clocks).1.Gathered peer writer sample (part ++ [frame])) := by
  rcases @sendSampleTo_cases writer sample maxPayload flags room limit short with ⟨whole, single, decoded⟩ | ⟨splits, cut⟩
  · rcases List.append_eq_singleton_iff.mp (frames.symm.trans single) with ⟨_, same⟩ | ⟨_, none⟩
    · obtain ⟨rfl, last⟩ := List.cons.inj same
      exact Or.inl ⟨last, acts_data decoded clocks⟩
    · simp at none
  · obtain ⟨before, after, pieces, rfl, tail⟩ := List.map_eq_append_iff.mp (cut.symm.trans frames)
    obtain ⟨piece, later, rfl, rfl, rfl⟩ := List.map_eq_cons_iff.mp tail
    have here : piece ∈ before ++ piece :: later := List.mem_append_right _ List.mem_cons_self
    obtain ⟨decoded, seen, added⟩ := gather_piece short splits pieces here gathered clocks
    have upTo := @Fragmenter.Splits.complete_iff writer sample.seq sample.pubTimeMs sample.data maxPayload
      (before ++ [piece]) later splits short (by rw [pieces, List.append_assoc]; rfl)
    rw [List.map_append, List.map_singleton] at upTo
    rcases added with ⟨complete, acts⟩ | ⟨incomplete, acts, next, tracks, held⟩
    · exact Or.inl ⟨by rw [upTo.mp complete, List.map_nil], acts⟩
    · refine Or.inr ⟨fun last => incomplete (upTo.mpr (List.map_eq_nil_iff.mp last)), acts, ?_⟩
      rw [Gathered, List.filterMap_append, seen, List.filterMap_cons_some decoded, List.filterMap_nil]
      exact Or.inr ⟨next, held, tracks⟩

/-- A repeated frame of an unfinished sample changes nothing that matters. -/
theorem gather_again {part rest : List Bytes} {frame : Bytes}
    (frames : sendSampleTo maxPayload writer sample flags = part ++ rest) (more : rest ≠ []) (again : frame ∈ part)
    (gathered : p.Gathered peer writer sample part) (clocks : Clocks) :
    Acts peer writer sample.seq sample.pubTimeMs none clocks p (p.handleBytes peer frame clocks).1 ∧
      (p.handleBytes peer frame clocks).1.Gathered peer writer sample part := by
  rcases @sendSampleTo_cases writer sample maxPayload flags room limit short with ⟨whole, single, decoded⟩ | ⟨splits, cut⟩
  · rcases List.append_eq_singleton_iff.mp (frames.symm.trans single) with ⟨rfl, _⟩ | ⟨_, none⟩
    · exact absurd again List.not_mem_nil
    · exact absurd none more
  · obtain ⟨before, later, pieces, rfl, rfl⟩ := List.map_eq_append_iff.mp (cut.symm.trans frames)
    obtain ⟨piece, member, rfl⟩ := List.mem_map.mp again
    obtain ⟨_, seen, added⟩ := gather_piece short splits pieces (List.mem_append_left _ member) gathered clocks
    have open_ := mt (@Fragmenter.Splits.complete_iff writer sample.seq sample.pubTimeMs sample.data maxPayload
      before later splits short pieces).mp (fun none => more (by rw [none, List.map_nil]))
    have known := List.mem_map_of_mem (f := Fragmenter.fragOf writer sample.seq sample.pubTimeMs sample.data) member
    have same (i : Nat) : (∃ frag ∈ before.map (Fragmenter.fragOf writer sample.seq sample.pubTimeMs sample.data) ++
          [Fragmenter.fragOf writer sample.seq sample.pubTimeMs sample.data piece], frag.Covers i) ↔
        ∃ frag ∈ before.map (Fragmenter.fragOf writer sample.seq sample.pubTimeMs sample.data), frag.Covers i := by
      constructor
      · rintro ⟨frag, inside, covers⟩
        rcases List.mem_append.mp inside with old | new
        · exact ⟨frag, old, covers⟩
        · exact ⟨_, known, List.mem_singleton.mp new ▸ covers⟩
      · rintro ⟨frag, inside, covers⟩
        exact ⟨frag, List.mem_append_left _ inside, covers⟩
    rcases added with ⟨complete, _⟩ | ⟨_, acts, next, tracks, held⟩
    · exact absurd (fun i below => (same i).mp (complete i below)) open_
    · refine ⟨acts, ?_⟩
      rw [Gathered, seen]
      exact Or.inr ⟨next, held, tracks.congr same⟩

end Frames

end ParticipantImpl

/-- The queue entry a sample of `writer` becomes. -/
def CachedSample.queued (writer : Guid) (lifespanMs : U64) (sample : CachedSample) : QueuedSample :=
  ⟨sample.data, ⟨writer, sample.seq, sample.pubTimeMs⟩, lifespanMs⟩

/-- Some reading of the clock finds a queued sample expired. -/
def QueuedSample.ExpiredAt (q : QueuedSample) (readings : List U64) : Prop :=
  ∃ now ∈ readings, lifespanExpired q.lifespanMs q.info.pubTimeMs now = true

theorem lifespanExpired_zero (pubTimeMs now : U64) : lifespanExpired 0 pubTimeMs now = false := by
  simp [lifespanExpired]

namespace ReaderImpl
variable {r : ReaderImpl} {writer : Guid} {seq : U64} {data : Bytes} {writerQos : QosProfile}
  {pubTimeMs now sweepNow : U64}

/-- What is settled already leaves the queue alone. -/
theorem enqueue_queue_settled (settled : r.Settled writer seq.toNat) :
    (r.enqueue writer seq data writerQos pubTimeMs now sweepNow).reader.queue = r.queue := by
  have old : ((r.rxState writer).receive seq).isNew = false := by
    rw [Bool.eq_false_iff]
    exact fun new => WriterRxState.receive_isNew.mp new settled
  simp only [enqueue, old, Bool.not_false, if_true]

/-- A KEEP_ALL reader appends what is new and unlimited in time, and sweeps. -/
theorem enqueue_queue_new (keepAll : r.qos.history = .keepAll) (unlimited : writerQos.lifespanMs = 0)
    (fresh : ¬ r.Settled writer seq.toNat) :
    (r.enqueue writer seq data writerQos pubTimeMs now sweepNow).reader.queue =
      r.queue.filter (fun q => !lifespanExpired q.lifespanMs q.info.pubTimeMs sweepNow) ++
        [⟨data, ⟨writer, seq, pubTimeMs⟩, 0⟩] := by
  have new := WriterRxState.receive_isNew.mpr fresh
  simp only [enqueue, new, unlimited, lifespanExpired_zero, Bool.not_true, Bool.false_eq_true, if_false, push, keepAll,
    reduceCtorEq, sweepExpired, List.filter_append]
  simpa using lifespanExpired_zero pubTimeMs sweepNow

end ReaderImpl

/-- The offer `deliver_sample` makes to a matching reader is one `enqueue`. -/
theorem ReaderImpl.deliver_step {r : ReaderImpl} {writerEp : EndpointRecord}
    (matching : endpointsMatch r.topic r.type r.qos writerEp = true) (writer : Guid) (sample : CachedSample)
    (clock : U64 × U64) :
    (r.deliver writerEp writer sample clock).1 =
      r.step (.enqueue writer sample.seq sample.data writerEp.qos sample.pubTimeMs clock.1 clock.2) := by
  simp only [deliver, matching, Bool.not_true, Bool.false_eq_true, if_false, step]

theorem Participant.deliverSample_lookup {p : Participant} {writer : Guid} {writerEp : EndpointRecord}
    (known : p.findRemoteEndpoint writer = some writerEp) (sample : CachedSample) (now : U64) (clock : EnqueueClock)
    (addr : Addr) :
    (p.deliverSample writer sample now clock).1.readers.lookup addr =
      (p.readers.lookup addr).map (fun r => (r.deliver writerEp writer sample (clock addr)).1) := by
  simp only [deliverSample, known]
  exact KeyedList.lookup_map

/-- What a reader has become of `start` when it has queued the samples `done`
of one writer, numbered from `base + 1`. -/
structure ReaderImpl.Received (start : ReaderImpl) (writer : Guid) (base : Nat) (readings : List U64)
    (done : List CachedSample) (r : ReaderImpl) : Prop where
  topic : r.topic = start.topic
  type : r.type = start.type
  qos : r.qos = start.qos
  range : ∀ g, (r.rxState g).InRange
  queue : ∃ keep : QueuedSample → Bool, r.queue = start.queue.filter keep ++ done.map (CachedSample.queued writer 0) ∧
    ∀ q, keep q = false → q.ExpiredAt readings
  settled : ∀ sample ∈ done, r.Settled writer sample.seq.toNat
  fresh : ∀ s, r.Settled writer s → s ≤ base + done.length

namespace ReaderImpl.Received
variable {start r : ReaderImpl} {writer : Guid} {base : Nat} {readings : List U64} {done : List CachedSample}
  {writerEp : EndpointRecord}

theorem initial (range : ∀ g, (start.rxState g).InRange) (fresh : ∀ s, start.Settled writer s → s ≤ base) :
    start.Received writer base [] [] start :=
  ⟨rfl, rfl, rfl, range, ⟨fun _ => true, by simp, by simp⟩, by simp, fresh⟩

theorem more (received : start.Received writer base readings done r) (now : U64) :
    start.Received writer base (readings ++ [now]) done r := by
  obtain ⟨keep, queue, expired⟩ := received.queue
  refine { received with queue := ⟨keep, queue, fun q dropped => ?_⟩ }
  obtain ⟨reading, member, late⟩ := expired q dropped
  exact ⟨reading, List.mem_append_left _ member, late⟩

/-- A repeated sample, whatever payload it comes with. -/
theorem repeated (received : start.Received writer base readings done r) {sample : CachedSample} {seq : U64}
    (member : sample ∈ done) (same : seq = sample.seq) (data : Bytes) (qos : QosProfile) (pubTimeMs now sweepNow : U64) :
    start.Received writer base (readings ++ [sweepNow]) done
      (r.step (.enqueue writer seq data qos pubTimeMs now sweepNow)) := by
  subst same
  obtain ⟨_, topic, type, qosSame, _⟩ := r.step_static (.enqueue writer sample.seq data qos pubTimeMs now sweepNow)
  have settled := received.settled sample member
  have bound := received.fresh _ settled
  have queue := @enqueue_queue_settled r writer sample.seq data qos pubTimeMs now sweepNow settled
  have more := received.more sweepNow
  refine ⟨topic.trans received.topic, type.trans received.type, qosSame.trans received.qos, step_inRange received.range _,
    ?_, fun other inside => (step_settled received.range _ _ _).mpr (Or.inl (received.settled other inside)),
    fun s after => ?_⟩
  · obtain ⟨keep, before, expired⟩ := more.queue
    exact ⟨keep, queue.trans before, expired⟩
  · rcases settled_step_le received.range after with old | ⟨_, top⟩
    · exact received.fresh s old
    · exact top.trans bound

/-- The next sample is appended. -/
theorem next (received : start.Received writer base readings done r) (keepAll : start.qos.history = .keepAll)
    {sample : CachedSample} (numbered : sample.seq.toNat = base + 1 + done.length) {qos : QosProfile}
    (unlimited : qos.lifespanMs = 0) (now sweepNow : U64) :
    start.Received writer base (readings ++ [sweepNow]) (done ++ [sample])
      (r.step (.enqueue writer sample.seq sample.data qos sample.pubTimeMs now sweepNow)) := by
  obtain ⟨_, topic, type, qosSame, _⟩ :=
    r.step_static (.enqueue writer sample.seq sample.data qos sample.pubTimeMs now sweepNow)
  have unsettled : ¬ r.Settled writer sample.seq.toNat := by
    intro settled
    have bound := received.fresh _ settled
    omega
  have queue := @enqueue_queue_new r writer sample.seq sample.data qos sample.pubTimeMs now sweepNow
    (received.qos.symm ▸ keepAll) unlimited unsettled
  have after := step_settled received.range
    (.enqueue writer sample.seq sample.data qos sample.pubTimeMs now sweepNow) writer
  refine ⟨topic.trans received.topic, type.trans received.type, qosSame.trans received.qos, step_inRange received.range _,
    ?_, fun other inside => ?_, fun s settled => ?_⟩
  · obtain ⟨keep, before, expired⟩ := received.queue
    refine ⟨fun q => keep q && !lifespanExpired q.lifespanMs q.info.pubTimeMs sweepNow, ?_, fun q dropped => ?_⟩
    · have kept : (done.map (CachedSample.queued writer 0)).filter
          (fun q => !lifespanExpired q.lifespanMs q.info.pubTimeMs sweepNow) = done.map (CachedSample.queued writer 0) := by
        refine List.filter_eq_self.mpr (fun q inside => ?_)
        obtain ⟨entry, _, rfl⟩ := List.mem_map.mp inside
        simpa [CachedSample.queued] using lifespanExpired_zero entry.pubTimeMs sweepNow
      have result : (r.step (.enqueue writer sample.seq sample.data qos sample.pubTimeMs now sweepNow)).queue = _ := queue
      rw [result, before, List.filter_append, kept, List.filter_filter, List.map_append, List.append_assoc]
      congr 2
      funext q
      exact Bool.and_comm _ _
    · cases kept : keep q with
      | false =>
        obtain ⟨reading, member, late⟩ := expired q kept
        exact ⟨reading, List.mem_append_left _ member, late⟩
      | true =>
        simp only [kept, Bool.true_and, Bool.not_eq_false'] at dropped
        exact ⟨sweepNow, List.mem_append_right _ List.mem_cons_self, dropped⟩
  · refine (after _).mpr ?_
    rcases List.mem_append.mp inside with old | new
    · exact Or.inl (received.settled other old)
    · refine Or.inr (Or.inl ?_)
      rw [List.mem_singleton.mp new]
      simp only [accepted]
      rw [if_pos (WriterRxState.receive_isNew.mpr unsettled)]
      exact List.mem_singleton_self _
  · rw [List.length_append, List.length_singleton]
    rcases settled_step_le received.range settled with old | ⟨_, top⟩
    · have bound := received.fresh s old
      omega
    · simp only [ReaderOp.top] at top
      omega

end ReaderImpl.Received

namespace ParticipantImpl

/-- Frames of one peer handled one after the other. -/
def arrive (p : ParticipantImpl) (peer : PeerId) (arrivals : List (Bytes × Clocks)) : ParticipantImpl :=
  Run.exec (fun p item => (p.handleBytes peer item.1 item.2).1) p arrivals

namespace Acts
variable {p q : ParticipantImpl} {peer : PeerId} {writer : Guid} {seq pubTimeMs : U64} {delivered : Option Bytes}
  {clocks : Clocks}

theorem known (acts : Acts peer writer seq pubTimeMs delivered clocks p q) (g : Guid) :
    q.findRemoteEndpoint g = p.findRemoteEndpoint g := by
  have remote : q.remote = p.remote := by
    rw [acts.party]
    cases delivered with
    | none => rfl
    | some full => exact Participant.deliverSample_remote ..
  simp only [Participant.findRemoteEndpoint, remote]

theorem lookup_none (acts : Acts peer writer seq pubTimeMs none clocks p q) (addr : Addr) :
    q.readers.lookup addr = p.readers.lookup addr := by
  rw [acts.party]

theorem lookup_some {full : Bytes} (acts : Acts peer writer seq pubTimeMs (some full) clocks p q) {writerEp : EndpointRecord}
    (known : p.findRemoteEndpoint writer = some writerEp) {addr : Addr} {r : ReaderImpl}
    (found : p.readers.lookup addr = some r) (matching : endpointsMatch r.topic r.type r.qos writerEp = true) :
    q.readers.lookup addr = some (r.step (.enqueue writer seq full writerEp.qos pubTimeMs
      (clocks.offers addr).1 (clocks.offers addr).2)) := by
  rw [acts.party]
  simp only [Participant.deliverSample_lookup known, found, Option.map_some, ReaderImpl.deliver_step matching]

end Acts

end ParticipantImpl

/-- The frames of `sent` arrive in order; each may be repeated at any time
after it has arrived. -/
inductive InOrder : List Bytes → List (Bytes × Clocks) → Prop
  | start : InOrder [] []
  | next {sent : List Bytes} {arrivals : List (Bytes × Clocks)} (frame : Bytes) (clocks : Clocks)
      (before : InOrder sent arrivals) : InOrder (sent ++ [frame]) (arrivals ++ [(frame, clocks)])
  | again {sent : List Bytes} {arrivals : List (Bytes × Clocks)} {frame : Bytes} (clocks : Clocks)
      (before : InOrder sent arrivals) (repeated : frame ∈ sent) : InOrder sent (arrivals ++ [(frame, clocks)])

/-- Consecutive writes, all accepted, each with its time, data and clock reading. -/
def WriterImpl.publishAll (w : WriterImpl) : List (U64 × Bytes × U64) → Option (WriterImpl × List CachedSample)
  | [] => some (w, [])
  | (pubTimeUs, data, now) :: rest => do
    let (published, sample) ← w.publish pubTimeUs data now
    let (last, samples) ← publishAll published rest
    pure (last, sample :: samples)

/-- Accepted writes take consecutive seqs and keep their data. -/
theorem WriterImpl.publishAll_numbered {w last : WriterImpl} {writes : List (U64 × Bytes × U64)} {samples : List CachedSample}
    (written : w.publishAll writes = some (last, samples)) (room : w.seq.toNat + writes.length < 2 ^ 64) :
    samples.map (fun s => s.seq.toNat) = List.range' (w.seq.toNat + 1) samples.length ∧
      samples.map CachedSample.data = writes.map (fun write => write.2.1) := by
  induction writes generalizing w samples with
  | nil =>
    simp only [publishAll, Option.some.injEq, Prod.mk.injEq] at written
    obtain ⟨_, rfl⟩ := written
    exact ⟨rfl, rfl⟩
  | cons write rest ih =>
    obtain ⟨pubTimeUs, data, now⟩ := write
    obtain ⟨⟨published, sample⟩, accepted, written⟩ := Option.bind_eq_some_iff.mp written
    obtain ⟨⟨final, others⟩, later, same⟩ := Option.bind_eq_some_iff.mp written
    obtain ⟨rfl, rfl⟩ := Prod.mk.inj (Option.some.inj same)
    obtain ⟨rfl, _⟩ := publish_cases accepted
    have seq := (publish_guid accepted).2.2.2.2
    rw [List.length_cons] at room
    have moved : (w.seq + 1).toNat = w.seq.toNat + 1 := by bv_omega
    obtain ⟨numbers, data⟩ := ih later (by rw [seq, moved]; omega)
    rw [seq, moved] at numbers
    refine ⟨?_, ?_⟩
    · rw [List.map_cons, numbers, List.length_cons, List.range'_succ, moved]
    · rw [List.map_cons, data, List.map_cons]

theorem numbered_ascending {samples : List CachedSample} {base : Nat}
    (numbered : samples.map (fun s => s.seq.toNat) = List.range' (base + 1) samples.length) :
    samples.Pairwise (fun a b => a.seq.toNat < b.seq.toNat) := by
  rw [← List.pairwise_map (f := fun s : CachedSample => s.seq.toNat) (R := (· < ·)), numbered]
  exact List.pairwise_lt_range'

theorem numbered_head {done tail : List CachedSample} {head : CachedSample} {base : Nat}
    (numbered : (done ++ head :: tail).map (fun s => s.seq.toNat) =
      List.range' (base + 1) (done ++ head :: tail).length) : head.seq.toNat = base + 1 + done.length := by
  rw [List.map_append, List.length_append, ← List.range'_append_1, List.map_cons, List.length_cons,
    List.range'_succ] at numbered
  exact (List.cons.inj (List.append_inj numbered (by simp)).2).1

/-- The samples `done` have been delivered; of the first of `rest` the frames
`part` have arrived, of the others none. -/
structure Delivering (start : ReaderImpl) (writerEp : EndpointRecord) (peer : PeerId) (addr : Addr) (base : Nat)
    (frames : CachedSample → List Bytes) (readings : List U64) (done rest : List CachedSample) (part : List Bytes)
    (p : ParticipantImpl) : Prop where
  known : p.findRemoteEndpoint writerEp.guid = some writerEp
  reader : ∃ r, p.readers.lookup addr = some r ∧ start.Received writerEp.guid base readings done r
  head : ∀ sample ∈ rest.head?, (∃ more, more ≠ [] ∧ frames sample = part ++ more) ∧
    p.Gathered peer writerEp.guid sample part
  tail : ∀ sample ∈ rest.tail, (p.reassembler peer).partials.lookup ⟨writerEp.guid, sample.seq⟩ = none
  ended : rest = [] → part = []

namespace Delivering
variable {start : ReaderImpl} {writerEp : EndpointRecord} {peer : PeerId} {addr : Addr} {base maxPayload : Nat}
  {flags : U16} {readings : List U64} {done rest : List CachedSample} {part : List Bytes} {p : ParticipantImpl}
  (room : kHeaderSize + kDataFragBodyFixedSize < maxPayload) (limit : maxPayload < 2 ^ 32)
  (short : ∀ sample ∈ done ++ rest, sample.data.length < 2 ^ 32)
  (numbered : (done ++ rest).map (fun s => s.seq.toNat) = List.range' (base + 1) (done ++ rest).length)
  (matching : endpointsMatch start.topic start.type start.qos writerEp = true)
  (delivering : Delivering start writerEp peer addr base
    (fun sample => sendSampleTo maxPayload writerEp.guid sample flags) readings done rest part p)

include delivering in
/-- An undelivered effect leaves the reader as it is. -/
theorem reader_kept {q : ParticipantImpl} {seq pubTimeMs : U64} {clocks : Clocks}
    (acts : ParticipantImpl.Acts peer writerEp.guid seq pubTimeMs none clocks p q) :
    ∃ r, q.readers.lookup addr = some r ∧
      start.Received writerEp.guid base (readings ++ [(clocks.offers addr).2]) done r := by
  obtain ⟨r, found, received⟩ := delivering.reader
  exact ⟨r, (acts.lookup_none addr).trans found, received.more _⟩

include matching delivering in
/-- A sample delivered once more is dropped. -/
theorem reader_repeated {q : ParticipantImpl} {sample : CachedSample} {full : Bytes} {clocks : Clocks}
    (member : sample ∈ done)
    (acts : ParticipantImpl.Acts peer writerEp.guid sample.seq sample.pubTimeMs (some full) clocks p q) :
    ∃ r, q.readers.lookup addr = some r ∧
      start.Received writerEp.guid base (readings ++ [(clocks.offers addr).2]) done r := by
  obtain ⟨r, found, received⟩ := delivering.reader
  have same : endpointsMatch r.topic r.type r.qos writerEp = true := by
    rw [received.topic, received.type, received.qos, matching]
  exact ⟨_, acts.lookup_some delivering.known found same, received.repeated member rfl full _ _ _ _⟩

include numbered in
theorem key_ne {sample other : CachedSample} (member : sample ∈ done) (later : other ∈ rest) (writer : Guid) :
    (⟨writer, other.seq⟩ : SampleKey) ≠ ⟨writer, sample.seq⟩ := by
  intro same
  have less := (List.pairwise_append.mp (numbered_ascending numbered)).2.2 sample member other later
  have seqs := congrArg BitVec.toNat (SampleKey.mk.inj same).2
  omega

include room limit short numbered matching delivering in
/-- A frame that has arrived before delivers nothing. -/
theorem again {frame : Bytes} (repeated : frame ∈ done.flatMap
      (fun sample => sendSampleTo maxPayload writerEp.guid sample flags) ++ part) (clocks : Clocks) :
    Delivering start writerEp peer addr base (fun sample => sendSampleTo maxPayload writerEp.guid sample flags)
      (readings ++ [(clocks.offers addr).2]) done rest part (p.handleBytes peer frame clocks).1 := by
  rcases List.mem_append.mp repeated with old | current
  · obtain ⟨sample, member, inside⟩ := List.mem_flatMap.mp old
    obtain ⟨delivered, acts⟩ := @ParticipantImpl.acts_frame p peer writerEp.guid sample maxPayload flags room limit
      (short sample (List.mem_append_left _ member)) frame inside clocks
    have kept (other : CachedSample) (later : other ∈ rest) := acts.others _ (key_ne numbered member later writerEp.guid)
    refine ⟨(acts.known _).trans delivering.known, ?_, fun other first => ?_, fun other later => ?_, delivering.ended⟩
    · cases delivered with
      | none => exact delivering.reader_kept acts
      | some full => exact reader_repeated matching delivering member acts
    · obtain ⟨more, gathered⟩ := delivering.head other first
      exact ⟨more, gathered.keep (kept other (List.mem_of_mem_head? first))⟩
    · rw [kept other (List.mem_of_mem_tail later)]
      exact delivering.tail other later
  · cases rest with
    | nil => exact absurd current (by simp [delivering.ended rfl])
    | cons sample tail =>
      obtain ⟨⟨more, unfinished, frames⟩, gathered⟩ := delivering.head sample rfl
      obtain ⟨acts, still⟩ := ParticipantImpl.gather_again room limit (short sample (by simp)) frames unfinished current
        gathered clocks
      refine ⟨(acts.known _).trans delivering.known, delivering.reader_kept acts, fun other first => ?_,
        fun other later => ?_, delivering.ended⟩
      · obtain rfl : sample = other := Option.some.inj first
        exact ⟨⟨more, unfinished, frames⟩, still⟩
      · have less := (List.pairwise_cons.mp (List.pairwise_append.mp (numbered_ascending numbered)).2.1).1 other later
        rw [acts.others _ (fun same => by
          have seqs := congrArg BitVec.toNat (SampleKey.mk.inj same).2
          omega)]
        exact delivering.tail other later

include room limit short numbered matching in
/-- The next frame of the sample under way delivers it if it is the last. -/
theorem next {sample : CachedSample} {tail : List CachedSample} (here : rest = sample :: tail)
    (keepAll : start.qos.history = .keepAll) (unlimited : writerEp.qos.lifespanMs = 0)
    (delivering : Delivering start writerEp peer addr base
      (fun sample => sendSampleTo maxPayload writerEp.guid sample flags) readings done rest part p)
    {frame : Bytes} {more : List Bytes}
    (frames : sendSampleTo maxPayload writerEp.guid sample flags = part ++ frame :: more) (clocks : Clocks) :
    (more = [] ∧ Delivering start writerEp peer addr base (fun sample => sendSampleTo maxPayload writerEp.guid sample flags)
      (readings ++ [(clocks.offers addr).2]) (done ++ [sample]) tail [] (p.handleBytes peer frame clocks).1) ∨
    (more ≠ [] ∧ Delivering start writerEp peer addr base (fun sample => sendSampleTo maxPayload writerEp.guid sample flags)
      (readings ++ [(clocks.offers addr).2]) done rest (part ++ [frame]) (p.handleBytes peer frame clocks).1) := by
  subst here
  have ascending := (List.pairwise_cons.mp (List.pairwise_append.mp (numbered_ascending numbered)).2.1).1
  have idle (q : ParticipantImpl) (delivered : Option Bytes)
      (acts : ParticipantImpl.Acts peer writerEp.guid sample.seq sample.pubTimeMs delivered clocks p q)
      (other : CachedSample) (later : other ∈ tail) :
      (q.reassembler peer).partials.lookup ⟨writerEp.guid, other.seq⟩ = none := by
    have less := ascending other later
    rw [acts.others _ (fun same => by
      have seqs := congrArg BitVec.toNat (SampleKey.mk.inj same).2
      omega)]
    exact delivering.tail other later
  rcases ParticipantImpl.gather_next room limit (short sample (by simp)) frames (delivering.head sample rfl).2 clocks with
    ⟨last, acts⟩ | ⟨unfinished, acts, gathered⟩
  · refine Or.inl ⟨last, (acts.known _).trans delivering.known, ?_, fun other first => ?_, fun other later => ?_,
      fun _ => rfl⟩
    · obtain ⟨r, found, received⟩ := delivering.reader
      have same : endpointsMatch r.topic r.type r.qos writerEp = true := by
        rw [received.topic, received.type, received.qos, matching]
      exact ⟨_, acts.lookup_some delivering.known found same,
        received.next keepAll (numbered_head numbered) unlimited _ _⟩
    · have member := List.mem_of_mem_head? first
      exact ⟨⟨_, ParticipantImpl.sendSampleTo_ne_nil room limit (short other (by simp [member])), rfl⟩,
        .none (idle _ _ acts other member)⟩
    · exact idle _ _ acts other (List.mem_of_mem_tail later)
  · refine Or.inr ⟨unfinished, (acts.known _).trans delivering.known, delivering.reader_kept acts, fun other first => ?_,
      idle _ _ acts, fun none => by simp at none⟩
    obtain rfl : sample = other := Option.some.inj first
    exact ⟨⟨more, unfinished, by rw [frames, List.append_assoc]; rfl⟩, gathered⟩

end Delivering

/-- A reader as its operations leave it, whatever its count of matches. -/
def ReaderImpl.Reachable (r : ReaderImpl) : Prop :=
  ∃ guid topic type qos ignoreLocal birthUs ops matchedCount,
    r = { Run.exec ReaderImpl.step (ReaderImpl.create guid topic type qos ignoreLocal birthUs) ops with matchedCount }

theorem ReaderImpl.Reachable.inRange {r : ReaderImpl} (reachable : r.Reachable) (g : Guid) : (r.rxState g).InRange := by
  obtain ⟨guid, topic, type, qos, ignoreLocal, birthUs, ops, _, rfl⟩ := reachable
  exact exec_inRange (r := ReaderImpl.create guid topic type qos ignoreLocal birthUs) rfl ops g

/-- Frames of consecutive samples that arrive in order, with repetitions,
leave the reader with exactly these samples behind what it still holds. -/
theorem Delivering.arrive {start : ReaderImpl} {writerEp : EndpointRecord} {peer : PeerId} {addr : Addr}
    {base maxPayload : Nat} {flags : U16} {samples : List CachedSample} {sent : List Bytes}
    {arrivals : List (Bytes × Clocks)} {p : ParticipantImpl}
    (room : kHeaderSize + kDataFragBodyFixedSize < maxPayload) (limit : maxPayload < 2 ^ 32)
    (short : ∀ sample ∈ samples, sample.data.length < 2 ^ 32)
    (numbered : samples.map (fun s => s.seq.toNat) = List.range' (base + 1) samples.length)
    (matching : endpointsMatch start.topic start.type start.qos writerEp = true)
    (keepAll : start.qos.history = .keepAll) (unlimited : writerEp.qos.lifespanMs = 0)
    (begun : Delivering start writerEp peer addr base (fun sample => sendSampleTo maxPayload writerEp.guid sample flags)
      [] [] samples [] p)
    (order : InOrder sent arrivals)
    (isPrefix : sent <+: samples.flatMap (fun sample => sendSampleTo maxPayload writerEp.guid sample flags)) :
    ∃ done rest part, samples = done ++ rest ∧
      sent = done.flatMap (fun sample => sendSampleTo maxPayload writerEp.guid sample flags) ++ part ∧
      Delivering start writerEp peer addr base (fun sample => sendSampleTo maxPayload writerEp.guid sample flags)
        (arrivals.map (fun item => (item.2.offers addr).2)) done rest part (p.arrive peer arrivals) := by
  induction order with
  | start => exact ⟨[], samples, [], rfl, rfl, begun⟩
  | again clocks before repeated ih =>
    obtain ⟨done, rest, part, rfl, rfl, delivering⟩ := ih isPrefix
    refine ⟨done, rest, part, rfl, rfl, ?_⟩
    rw [List.map_append, List.map_singleton, ParticipantImpl.arrive, Run.exec_snoc]
    exact delivering.again room limit short numbered matching repeated clocks
  | next frame clocks before ih =>
    obtain ⟨done, rest, part, rfl, rfl, delivering⟩ := ih ((List.prefix_append _ _).trans isPrefix)
    rw [List.flatMap_append, List.append_assoc, List.prefix_append_right_inj] at isPrefix
    cases rest with
    | nil => simp at isPrefix
    | cons sample tail =>
      obtain ⟨⟨more, unfinished, frames⟩, _⟩ := delivering.head sample rfl
      rw [List.flatMap_cons, frames, List.append_assoc, List.prefix_append_right_inj] at isPrefix
      obtain ⟨first, more, rfl⟩ := List.exists_cons_of_ne_nil unfinished
      obtain ⟨rfl, _⟩ := List.cons_prefix_cons.mp isPrefix
      rw [List.map_append, List.map_singleton, ParticipantImpl.arrive, Run.exec_snoc]
      rcases delivering.next room limit short numbered matching rfl keepAll unlimited frames clocks with
        ⟨rfl, after⟩ | ⟨_, after⟩
      · refine ⟨done ++ [sample], tail, [], by simp, ?_, after⟩
        rw [List.flatMap_append, List.flatMap_singleton, frames, List.append_nil, List.append_assoc]
      · exact ⟨done, sample :: tail, part ++ [frame], rfl, by rw [List.append_assoc], after⟩

/-- Whatever consecutive samples a writer publishes, their frames, handled in
order and with repetitions by a participant that knows the writer, leave each
matching KEEP_ALL reader with exactly these samples, in order, behind what it
still holds. Only entries with a lifespan can have left its queue. -/
theorem delivers_in_order {p : ParticipantImpl} {peer : PeerId} {addr : Addr} {r : ReaderImpl} {w last : WriterImpl}
    {writes : List (U64 × Bytes × U64)} {samples : List CachedSample} {maxPayload : Nat}
    {arrivals : List (Bytes × Clocks)}
    (discovered : p.findRemoteEndpoint w.guid = some w.record)
    (found : p.readers.lookup addr = some r) (reachable : r.Reachable)
    (matching : endpointsMatch r.topic r.type r.qos w.record = true) (keepAll : r.qos.history = .keepAll)
    (unlimited : w.qos.lifespanMs = 0) (unsettled : ∀ s, w.seq.toNat < s → ¬ r.Settled w.guid s)
    (idle : ∀ seq, w.seq < seq → (p.reassembler peer).partials.lookup ⟨w.guid, seq⟩ = none)
    (written : w.publishAll writes = some (last, samples)) (numbers : w.seq.toNat + writes.length < 2 ^ 64)
    (short : ∀ write ∈ writes, write.2.1.length < 2 ^ 32)
    (room : kHeaderSize + kDataFragBodyFixedSize < maxPayload) (limit : maxPayload < 2 ^ 32)
    (order : InOrder (samples.flatMap (fun s => (Frame.data w.guid s w.reliableFlag).encode maxPayload)) arrivals) :
    ∃ final keep, (p.arrive peer arrivals).readers.lookup addr = some final ∧
      final.queue = r.queue.filter keep ++ samples.map (CachedSample.queued w.guid 0) ∧
      ∀ q, keep q = false → q.ExpiredAt (arrivals.map (fun item => (item.2.offers addr).2)) := by
  obtain ⟨numbered, data⟩ := WriterImpl.publishAll_numbered written numbers
  have shortSamples (sample : CachedSample) (member : sample ∈ samples) : sample.data.length < 2 ^ 32 := by
    have inside : sample.data ∈ writes.map (fun write => write.2.1) := data ▸ List.mem_map_of_mem member
    obtain ⟨write, given, same⟩ := List.mem_map.mp inside
    exact same ▸ short write given
  have pending (sample : CachedSample) (member : sample ∈ samples) :
      (p.reassembler peer).partials.lookup ⟨w.guid, sample.seq⟩ = none := by
    refine idle sample.seq (BitVec.lt_def.mpr ?_)
    have number : sample.seq.toNat ∈ List.range' (w.seq.toNat + 1) samples.length :=
      numbered ▸ List.mem_map_of_mem (f := fun s : CachedSample => s.seq.toNat) member
    have bounds := List.mem_range'_1.mp number
    omega
  have begun : Delivering r w.record peer addr w.seq.toNat
      (fun sample => sendSampleTo maxPayload w.guid sample (if w.reliableFlag then kFlagReliable else 0))
      [] [] samples [] p := by
    refine ⟨discovered, ⟨r, found, .initial reachable.inRange (fun s settled => ?_)⟩, fun sample first => ?_,
      fun sample later => pending sample (List.mem_of_mem_tail later), fun _ => rfl⟩
    · by_contra beyond
      exact unsettled s (by omega) settled
    · have member := List.mem_of_mem_head? first
      exact ⟨⟨_, ParticipantImpl.sendSampleTo_ne_nil room limit (shortSamples sample member), rfl⟩,
        .none (pending sample member)⟩
  obtain ⟨done, rest, part, rfl, sent, delivering⟩ := Delivering.arrive room limit shortSamples numbered matching keepAll
    unlimited begun order (List.prefix_refl _)
  cases rest with
  | nil =>
    obtain ⟨final, lookup, received⟩ := delivering.reader
    obtain ⟨keep, queue, expired⟩ := received.queue
    exact ⟨final, keep, lookup, by rw [List.append_nil]; exact queue, expired⟩
  | cons sample tail =>
    -- All frames have arrived, so none of a further sample is missing.
    obtain ⟨⟨more, unfinished, frames⟩, _⟩ := delivering.head sample rfl
    rw [List.flatMap_append] at sent
    have behind : (sample :: tail).flatMap (fun s => (Frame.data w.guid s w.reliableFlag).encode maxPayload) = part :=
      List.append_cancel_left sent
    have whole : (Frame.data w.guid sample w.reliableFlag).encode maxPayload = part ++ more := frames
    rw [List.flatMap_cons, whole, List.append_assoc, List.append_right_eq_self, List.append_eq_nil_iff] at behind
    exact absurd behind.1 unfinished

def demoWriter : WriterImpl := { guid := default, topic := [], type := [], qos := {} }

def demoReader : ReaderImpl := .create default [] [] { history := .keepAll } false 0

def demoParty : ParticipantImpl where
  owner := ⟨List.replicate 12 0, rfl⟩
  guid := default
  readers := [(0, demoReader)]
  remote := [(default, ⟨0, 1, ⟨default, [], [demoWriter.record]⟩, 0⟩)]

def demoBytes : Bytes := (List.range 14).map (BitVec.ofNat 8)

def demoFrame (piece : Nat × Nat) : Bytes := Fragmenter.frameOf default 1 5 demoBytes kFlagReliable piece

/-- Fourteen bytes in three fragments, the first and the last of them twice. -/
theorem delivers_in_order_with_repetitions :
    let clocks : Clocks := ⟨0, 0, fun _ => (0, 0)⟩
    let arrivals := [(demoFrame (0, 5), clocks), (demoFrame (5, 5), clocks), (demoFrame (0, 5), clocks),
      (demoFrame (10, 4), clocks), (demoFrame (10, 4), clocks)]
    ∃ final, (demoParty.arrive 0 arrivals).readers.lookup 0 = some final ∧
      final.queue = [⟨demoBytes, ⟨default, 1, 5⟩, 0⟩] := by
  intro clocks arrivals
  have sent : ([⟨1, 5, 5000, demoBytes⟩] : List CachedSample).flatMap
      (fun s => (Frame.data demoWriter.guid s demoWriter.reliableFlag).encode 61) =
        [] ++ [demoFrame (0, 5)] ++ [demoFrame (5, 5)] ++ [demoFrame (10, 4)] := by decide
  have order : InOrder ([] ++ [demoFrame (0, 5)] ++ [demoFrame (5, 5)] ++ [demoFrame (10, 4)]) arrivals :=
    .again clocks (.next _ clocks (.again clocks (.next _ clocks (.next _ clocks .start)) (by simp))) (by simp)
  obtain ⟨final, keep, lookup, queue, _⟩ :=
    @delivers_in_order demoParty 0 0 demoReader demoWriter _ [(5000, demoBytes, 0)] [⟨1, 5, 5000, demoBytes⟩] 61 arrivals
      (by decide) rfl ⟨default, [], [], { history := .keepAll }, false, 0, [], 0, rfl⟩ (by decide) rfl rfl
      (fun s positive settled => by
        have zero := WriterRxState.settled_initial.mp settled
        have above : 0 < s := positive
        omega)
      (fun _ _ => rfl) rfl (by decide) (by decide) (by decide) (by decide) (sent ▸ order)
  exact ⟨final, lookup, queue⟩

end Mdds
