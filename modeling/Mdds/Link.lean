import Mdds.NackState

namespace Mdds

def WriterImpl.record (w : WriterImpl) : EndpointRecord := ⟨w.guid, .writer, w.topic, w.type, w.qos, w.birthUs⟩

def ReaderImpl.record (r : ReaderImpl) : EndpointRecord := ⟨r.guid, .reader, r.topic, r.type, r.qos, r.birthUs⟩

theorem WriterImpl.of_record {w v : WriterImpl} (same : w.record = v.record) :
    w.guid = v.guid ∧ w.topic = v.topic ∧ w.type = v.type ∧ w.qos = v.qos := by
  obtain ⟨guid, _, topic, type, qos, _⟩ := EndpointRecord.mk.inj same
  exact ⟨guid, topic, type, qos⟩

theorem ReaderImpl.of_record {r s : ReaderImpl} (same : r.record = s.record) :
    r.guid = s.guid ∧ r.topic = s.topic ∧ r.type = s.type ∧ r.qos = s.qos := by
  obtain ⟨guid, _, topic, type, qos, _⟩ := EndpointRecord.mk.inj same
  exact ⟨guid, topic, type, qos⟩

theorem WriterImpl.publish_record {w next : WriterImpl} {pubTimeUs now : U64} {data : Bytes} {sample : CachedSample}
    (accepted : w.publish pubTimeUs data now = some (next, sample)) : next.record = w.record := by
  obtain ⟨_, ⟨_, rfl⟩ | ⟨_, _, _, _, rfl⟩⟩ := publish_cases accepted
  · rfl
  · rfl

/-- A writer and a remote reader of it. Frames stay on the wire once sent, so
that delivering by position, again or never covers reordering, duplication
and loss. The flags say whether each side has the other's announce. -/
structure Link where
  writer : WriterImpl
  reader : ReaderImpl
  readerKnown : Bool := false
  writerKnown : Bool := false
  toReader : List Frame := []
  toWriter : List AckNackBody := []

/-- `replay` is the history replay a new reader gets, of which the reader's
participant may have several; `resend` puts a cached sample on the wire for
the requests of another reader of the same peer. `use` is any call on the
reader that does not concern this writer. -/
inductive LinkEvent
  | write (pubTimeUs : U64) (data : Bytes) (now : U64)
  | replay (now : U64)
  | resend (index : Nat)
  | heartbeat
  | assertLiveliness
  | knowReader (known : Bool)
  | knowWriter (known : Bool)
  | toReader (index : Nat) (clock : U64 × U64)
  | toWriter (index : Nat)
  | use (op : ReaderOp)

/-- Both kinds of ACKNACK carry the receive state the reader then has. -/
def ReaderImpl.nackFor (r : ReaderImpl) (writer : Guid) : AckNackBody :=
  ⟨r.guid, writer, (r.rxState writer).lastSeq + 1, (r.rxState writer).window⟩

theorem ReaderImpl.heartbeatNack_iff {r : ReaderImpl} {writerEp : EndpointRecord} {body : HeartbeatBody}
    {nack : AckNackBody} :
    r.heartbeatNack writerEp body = some nack ↔
      r.qos.reliability = .reliable ∧ endpointsMatch r.topic r.type r.qos writerEp = true ∧
        (r.rxState body.writer).lastSeq + 1 ≤ body.lastSeq ∧ nack = r.nackFor body.writer := by
  simp only [heartbeatNack, nackState_eq]
  by_cases reliable : r.qos.reliability = .reliable
  · cases endpointsMatch r.topic r.type r.qos writerEp with
    | false => simp
    | true => simp [reliable, nackFor, eq_comm]
  · simp [reliable]

/-- What `enqueue` reports of a gap, whatever becomes of the sample. -/
theorem ReaderImpl.enqueue_reports (r : ReaderImpl) (writer : Guid) (seq : U64) (data : Bytes) (writerQos : QosProfile)
    (pubTimeMs now sweepNow : U64) :
    (r.enqueue writer seq data writerQos pubTimeMs now sweepNow).gapDetected =
        (((r.rxState writer).receive seq).gap.isSome && r.qos.reliability = .reliable &&
          writerQos.reliability = .reliable) ∧
      (r.enqueue writer seq data writerQos pubTimeMs now sweepNow).gapBase =
        (((r.rxState writer).receive seq).gap.getD (0, 0)).1 ∧
      (r.enqueue writer seq data writerQos pubTimeMs now sweepNow).gapBitmap =
        (((r.rxState writer).receive seq).gap.getD (0, 0)).2 := by
  unfold enqueue
  dsimp only
  split
  · exact ⟨rfl, rfl, rfl⟩
  · split <;> exact ⟨rfl, rfl, rfl⟩

theorem ReaderImpl.enqueue_gap {r : ReaderImpl} {writer : Guid} {seq : U64} {data : Bytes} {writerQos : QosProfile}
    {pubTimeMs now sweepNow : U64}
    (detected : (r.enqueue writer seq data writerQos pubTimeMs now sweepNow).gapDetected = true) :
    ((r.rxState writer).receive seq).gap =
      some ((r.enqueue writer seq data writerQos pubTimeMs now sweepNow).gapBase,
        (r.enqueue writer seq data writerQos pubTimeMs now sweepNow).gapBitmap) := by
  have fields := r.enqueue_reports writer seq data writerQos pubTimeMs now sweepNow
  rw [fields.1] at detected
  cases gap : ((r.rxState writer).receive seq).gap with
  | none => simp [gap] at detected
  | some pair =>
    rw [fields.2.1, fields.2.2, gap]
    rfl

theorem ReaderImpl.deliver_nack {r : ReaderImpl} {writerEp : EndpointRecord} {writer : Guid} {sample : CachedSample}
    {clock : U64 × U64} {nack : AckNackBody} (asked : (r.deliver writerEp writer sample clock).2 = some nack) :
    nack = (r.deliver writerEp writer sample clock).1.nackFor writer := by
  unfold deliver at asked ⊢
  split at asked
  · simp at asked
  · rename_i matching
    rw [if_neg matching]
    dsimp only at asked ⊢
    split at asked
    · rename_i detected
      obtain ⟨_, state, base⟩ := WriterRxState.receive_gap (enqueue_gap detected)
      have moved := step_rxState r
        (.enqueue writer sample.seq sample.data writerEp.qos sample.pubTimeMs clock.1 clock.2) writer
      have static := (step_static r
        (.enqueue writer sample.seq sample.data writerEp.qos sample.pubTimeMs clock.1 clock.2)).1
      dsimp only [step] at moved static
      rw [if_pos rfl, state] at moved
      rw [← Option.some.inj asked, nackFor, moved, static, base]
    · simp at asked

namespace Link
variable (l : Link)

def dataFrame (sample : CachedSample) : Frame := .data l.writer.guid sample l.writer.reliableFlag

/-- What the reader's participant does with a frame of the writer. -/
def receive (clock : U64 × U64) : Frame → ReaderImpl × Option AckNackBody
  | .data writer sample _ =>
    if l.writerKnown ∧ writer = l.writer.guid then l.reader.deliver l.writer.record writer sample clock
    else (l.reader, none)
  | .heartbeat body =>
    (l.reader, if l.writerKnown ∧ body.writer = l.writer.guid then l.reader.heartbeatNack l.writer.record body else none)
  | .gap body =>
    (if body.gapEnd < body.gapStart then l.reader
      else if body.reader = l.reader.guid then l.reader.applyGap body.writer body.gapStart body.gapEnd
      else l.reader, none)
  | _ => (l.reader, none)

/-- What the writer's participant sends back for an ACKNACK. -/
def answer (body : AckNackBody) : List Frame :=
  if l.readerKnown ∧ body.writer = l.writer.guid ∧ body.reader = l.reader.guid then
    (l.writer.answerAcknack l.reader.record body).1.map (fun e => .data body.writer e l.writer.reliableFlag) ++
      ((l.writer.answerGap l.reader.record body).map Frame.gap).toList
  else []

def step : LinkEvent → Link
  | .write pubTimeUs data now =>
    match l.writer.publish pubTimeUs data now with
    | none => l
    | some (next, sample) => { l with writer := next, toReader := l.toReader ++ [l.dataFrame sample] }
  | .replay now =>
    if l.writer.qos.durability = .transientLocal then
      { l with toReader := l.toReader ++ (l.writer.replayable now).map l.dataFrame }
    else l
  | .resend index => { l with toReader := l.toReader ++ (l.writer.history[index]?.map l.dataFrame).toList }
  | .heartbeat =>
    if l.writer.qos.reliability = .reliable ∧ l.writer.history ≠ [] then
      { l with toReader := l.toReader ++ [.heartbeat ⟨l.writer.guid, l.writer.firstAvail, l.writer.seq⟩] }
    else l
  | .assertLiveliness => { l with toReader := l.toReader ++ [.heartbeat l.writer.livelinessHeartbeat] }
  | .knowReader known => { l with readerKnown := known }
  | .knowWriter known => { l with writerKnown := known }
  | .toReader index clock =>
    match l.toReader[index]? with
    | none => l
    | some frame =>
      { l with
        reader := (l.receive clock frame).1
        toWriter := l.toWriter ++ (l.receive clock frame).2.toList }
  | .toWriter index =>
    match l.toWriter[index]? with
    | none => l
    | some body => { l with toReader := l.toReader ++ l.answer body }
  | .use op => if op.writer? = some l.writer.guid then l else { l with reader := l.reader.step op }

/- The two ends of a link are what the participants' handlers do to this
writer and this reader, whatever else the participants hold. -/

theorem handleAcknack_answer {p : Participant} {body : AckNackBody} (writer : p.findWriter body.writer = some l.writer)
    (reader : p.findRemoteEndpoint body.reader = some l.reader.record) (known : l.readerKnown = true)
    (here : body.writer = l.writer.guid) (mine : body.reader = l.reader.guid) :
    p.handleAcknack body = l.answer body := by
  rw [here] at writer
  rw [mine] at reader
  simp only [Participant.handleAcknack, answer, known, here, mine, writer, reader, and_self, if_true]

theorem deliverSample_receive {p : Participant} {addr : Addr} {sample : CachedSample} {now : U64} {clock : EnqueueClock}
    (member : (addr, l.reader) ∈ p.readers) (known : l.writerKnown = true)
    (writer : p.findRemoteEndpoint l.writer.guid = some l.writer.record) :
    (addr, (l.receive (clock addr) (l.dataFrame sample)).1) ∈
        (p.deliverSample l.writer.guid sample now clock).1.readers ∧
      ∀ nack ∈ (l.receive (clock addr) (l.dataFrame sample)).2,
        Frame.acknack nack ∈ (p.deliverSample l.writer.guid sample now clock).2 := by
  simp only [Participant.deliverSample, writer, receive, dataFrame, known, and_self, if_true]
  refine ⟨List.mem_map.mpr ⟨_, member, rfl⟩, fun nack asked => List.mem_filterMap.mpr ⟨_, member, ?_⟩⟩
  rw [Option.mem_def.mp asked]
  rfl

theorem handleHeartbeat_receive {p : Participant} {addr : Addr} {body : HeartbeatBody} {now : U64} {clock : U64 × U64}
    (member : (addr, l.reader) ∈ p.readers) (known : l.writerKnown = true) (here : body.writer = l.writer.guid)
    (writer : p.findRemoteEndpoint body.writer = some l.writer.record) :
    ∀ nack ∈ (l.receive clock (.heartbeat body)).2, Frame.acknack nack ∈ (p.handleHeartbeat body now).2 := by
  rw [here] at writer
  simp only [Participant.handleHeartbeat, receive, known, here, writer, and_self, if_true]
  refine fun nack asked => List.mem_filterMap.mpr ⟨_, member, ?_⟩
  rw [Option.mem_def.mp asked]
  rfl

theorem handleGap_receive {p : Participant} {addr : Addr} {body : GapBody} {clock : U64 × U64}
    (member : (addr, l.reader) ∈ p.readers) (first : p.readerAddr l.reader.guid = some addr)
    (mine : body.reader = l.reader.guid) :
    (addr, (l.receive clock (.gap body)).1) ∈ (p.handleGap body).readers := by
  simp only [Participant.handleGap, receive, mine, first, if_true]
  split
  · exact member
  · exact List.mem_map.mpr ⟨_, member, by simp⟩

/-- The call on the reader that a frame amounts to. -/
def frameOp (clock : U64 × U64) : Frame → Option ReaderOp
  | .data writer sample _ =>
    if (l.writerKnown ∧ writer = l.writer.guid) ∧
        endpointsMatch l.reader.topic l.reader.type l.reader.qos l.writer.record then
      some (.enqueue writer sample.seq sample.data l.writer.qos sample.pubTimeMs clock.1 clock.2)
    else none
  | .gap body =>
    if body.gapEnd < body.gapStart ∨ body.reader ≠ l.reader.guid then none
    else some (.applyGap body.writer body.gapStart body.gapEnd)
  | _ => none

/-- The call on the reader that an event amounts to. -/
def readerOp : LinkEvent → Option ReaderOp
  | .toReader index clock => l.toReader[index]?.bind (l.frameOp clock)
  | .use op => if op.writer? = some l.writer.guid then none else some op
  | _ => none

theorem receive_reader (clock : U64 × U64) (frame : Frame) :
    (l.receive clock frame).1 = Run.exec ReaderImpl.step l.reader (l.frameOp clock frame).toList := by
  cases frame with
  | data writer sample reliableFlag =>
    simp only [receive, frameOp]
    by_cases known : l.writerKnown = true ∧ writer = l.writer.guid
    · simp only [known, and_self, if_true, true_and, ReaderImpl.deliver]
      cases endpointsMatch l.reader.topic l.reader.type l.reader.qos l.writer.record <;> rfl
    · rw [if_neg known, if_neg (fun both => known both.1)]
      rfl
  | gap body =>
    simp only [receive, frameOp]
    by_cases reversed : body.gapEnd < body.gapStart
    · simp [reversed]
    · by_cases mine : body.reader = l.reader.guid <;> simp [reversed, mine, ReaderImpl.step]
  | announce snap announceSeq => rfl
  | acknack body => rfl
  | heartbeat body => rfl

/-- A link run acts on the reader as a run of calls on it. -/
theorem step_reader (event : LinkEvent) :
    (l.step event).reader = Run.exec ReaderImpl.step l.reader (l.readerOp event).toList := by
  cases event with
  | toReader index clock =>
    simp only [step, readerOp]
    cases l.toReader[index]? with
    | none => rfl
    | some frame => exact l.receive_reader clock frame
  | use op =>
    simp only [step, readerOp]
    split <;> rfl
  | write pubTimeUs data now =>
    simp only [step]
    split <;> rfl
  | heartbeat =>
    simp only [step]
    split <;> rfl
  | toWriter index =>
    simp only [step]
    split <;> rfl
  | replay now =>
    simp only [step]
    split <;> rfl
  | resend index => rfl
  | assertLiveliness => rfl
  | knowReader known => rfl
  | knowWriter known => rfl

theorem step_writer (event : LinkEvent) :
    (l.step event).writer = l.writer ∨
    ∃ pubTimeUs data now sample, event = .write pubTimeUs data now ∧
      l.writer.publish pubTimeUs data now = some ((l.step event).writer, sample) := by
  cases event with
  | write pubTimeUs data now =>
    simp only [step]
    cases result : l.writer.publish pubTimeUs data now with
    | none => exact Or.inl rfl
    | some pair => exact Or.inr ⟨pubTimeUs, data, now, pair.2, rfl, result⟩
  | heartbeat =>
    simp only [step]
    split <;> exact Or.inl rfl
  | toReader index clock =>
    simp only [step]
    split <;> exact Or.inl rfl
  | toWriter index =>
    simp only [step]
    split <;> exact Or.inl rfl
  | use op =>
    simp only [step]
    split <;> exact Or.inl rfl
  | replay now =>
    simp only [step]
    split <;> exact Or.inl rfl
  | resend index => exact Or.inl rfl
  | assertLiveliness => exact Or.inl rfl
  | knowReader known => exact Or.inl rfl
  | knowWriter known => exact Or.inl rfl

theorem step_write_sends {pubTimeUs now : U64} {data : Bytes} {next : WriterImpl} {sample : CachedSample}
    (accepted : l.writer.publish pubTimeUs data now = some (next, sample)) :
    (l.step (.write pubTimeUs data now)).toReader = l.toReader ++ [l.dataFrame sample] := by
  simp only [step, accepted]

/-- Frames are only ever added behind those already on the wire. -/
theorem step_extends (event : LinkEvent) : l.toReader <+: (l.step event).toReader := by
  cases event with
  | write pubTimeUs data now =>
    simp only [step]
    split
    · exact List.prefix_refl _
    · exact List.prefix_append ..
  | replay now =>
    simp only [step]
    split
    · exact List.prefix_append ..
    · exact List.prefix_refl _
  | heartbeat =>
    simp only [step]
    split
    · exact List.prefix_append ..
    · exact List.prefix_refl _
  | toReader index clock =>
    simp only [step]
    split <;> exact List.prefix_refl _
  | toWriter index =>
    simp only [step]
    split
    · exact List.prefix_refl _
    · exact List.prefix_append ..
  | use op =>
    simp only [step]
    split <;> exact List.prefix_refl _
  | resend index => exact List.prefix_append ..
  | assertLiveliness => exact List.prefix_append ..
  | knowReader known => exact List.prefix_refl _
  | knowWriter known => exact List.prefix_refl _

theorem receive_nack {clock : U64 × U64} {frame : Frame} {nack : AckNackBody}
    (asked : (l.receive clock frame).2 = some nack) : nack = (l.receive clock frame).1.nackFor nack.writer := by
  cases frame with
  | data writer sample reliableFlag =>
    simp only [receive] at asked ⊢
    split at asked
    · rename_i known
      rw [if_pos known]
      have carried := ReaderImpl.deliver_nack asked
      exact carried.trans (by rw [carried]; rfl)
    · simp at asked
  | heartbeat body =>
    simp only [receive] at asked ⊢
    split at asked
    · have carried := (ReaderImpl.heartbeatNack_iff.mp asked).2.2.2
      exact carried.trans (by rw [carried]; rfl)
    · simp at asked
  | announce snap announceSeq => simp [receive] at asked
  | acknack body => simp [receive] at asked
  | gap body => simp [receive] at asked

/-- An event puts at most one ACKNACK on the wire, which carries the receive
state the reader then has. -/
theorem step_toWriter (event : LinkEvent) :
    (l.step event).toWriter = l.toWriter ∨
    ∃ nack, (l.step event).toWriter = l.toWriter ++ [nack] ∧ nack = (l.step event).reader.nackFor nack.writer := by
  cases event with
  | toReader index clock =>
    simp only [step]
    cases l.toReader[index]? with
    | none => exact Or.inl rfl
    | some frame =>
      dsimp only
      cases asked : (l.receive clock frame).2 with
      | none => exact Or.inl (List.append_nil _)
      | some nack => exact Or.inr ⟨nack, rfl, l.receive_nack asked⟩
  | use op =>
    simp only [step]
    split <;> exact Or.inl rfl
  | write pubTimeUs data now =>
    simp only [step]
    split <;> exact Or.inl rfl
  | heartbeat =>
    simp only [step]
    split <;> exact Or.inl rfl
  | toWriter index =>
    simp only [step]
    split <;> exact Or.inl rfl
  | replay now =>
    simp only [step]
    split <;> exact Or.inl rfl
  | resend index => exact Or.inl rfl
  | assertLiveliness => exact Or.inl rfl
  | knowReader known => exact Or.inl rfl
  | knowWriter known => exact Or.inl rfl

theorem step_asks {event : LinkEvent} {nack : AckNackBody} (sent : nack ∈ (l.step event).toWriter) :
    nack ∈ l.toWriter ∨ nack = (l.step event).reader.nackFor nack.writer := by
  rcases l.step_toWriter event with same | ⟨asked, appended, carried⟩
  · exact Or.inl (same ▸ sent)
  · rw [appended, List.mem_append, List.mem_singleton] at sent
    rcases sent with old | rfl
    · exact Or.inl old
    · exact Or.inr carried

theorem mem_answer {nack : AckNackBody} {frame : Frame} (sent : frame ∈ l.answer nack) :
    (∃ e ∈ l.writer.history, frame = l.dataFrame e) ∨
      (nack.writer = l.writer.guid ∧ nack.reader = l.reader.guid) ∧
        ∃ gap, frame = .gap gap ∧ l.writer.answerGap l.reader.record nack = some gap := by
  unfold answer at sent
  split at sent
  · rename_i known
    rcases List.mem_append.mp sent with resent | declared
    · obtain ⟨e, member, rfl⟩ := List.mem_map.mp resent
      refine Or.inl ⟨e, (l.writer.resend_requested _ _ member).1, ?_⟩
      rw [known.2.1, dataFrame]
    · obtain ⟨gap, answered, rfl⟩ := Option.map_eq_some_iff.mp (Option.mem_toList.mp declared)
      exact Or.inr ⟨known.2, gap, rfl, answered⟩
  · exact absurd sent List.not_mem_nil

/-- Everything an event can put on the wire towards the reader. -/
theorem step_sends {event : LinkEvent} {frame : Frame} (sent : frame ∈ (l.step event).toReader) :
    frame ∈ l.toReader ∨ (∃ body, frame = .heartbeat body) ∨
    (∃ e, frame = l.dataFrame e ∧ (e ∈ l.writer.history ∨ ∃ pubTimeUs data now,
      event = .write pubTimeUs data now ∧
        l.writer.publish pubTimeUs data now = some ((l.step event).writer, e))) ∨
    ∃ nack ∈ l.toWriter, (nack.writer = l.writer.guid ∧ nack.reader = l.reader.guid) ∧
      ∃ gap, frame = .gap gap ∧ l.writer.answerGap l.reader.record nack = some gap := by
  cases event with
  | write pubTimeUs data now =>
    simp only [step] at sent ⊢
    cases result : l.writer.publish pubTimeUs data now with
    | none =>
      simp only [result] at sent
      exact Or.inl sent
    | some pair =>
      simp only [result, List.mem_append, List.mem_singleton] at sent
      rcases sent with old | rfl
      · exact Or.inl old
      · exact Or.inr (Or.inr (Or.inl ⟨pair.2, rfl, Or.inr ⟨pubTimeUs, data, now, rfl, result⟩⟩))
  | replay now =>
    simp only [step] at sent
    split at sent
    · rcases List.mem_append.mp sent with old | replayed
      · exact Or.inl old
      · obtain ⟨e, member, rfl⟩ := List.mem_map.mp replayed
        exact Or.inr (Or.inr (Or.inl ⟨e, rfl, Or.inl (List.mem_of_mem_filter member)⟩))
    · exact Or.inl sent
  | resend index =>
    simp only [step, List.mem_append, Option.mem_toList, Option.map_eq_some_iff] at sent
    rcases sent with old | ⟨e, found, rfl⟩
    · exact Or.inl old
    · exact Or.inr (Or.inr (Or.inl ⟨e, rfl, Or.inl (List.mem_of_getElem? found)⟩))
  | heartbeat =>
    simp only [step] at sent
    split at sent
    · rcases List.mem_append.mp sent with old | beat
      · exact Or.inl old
      · exact Or.inr (Or.inl ⟨_, List.mem_singleton.mp beat⟩)
    · exact Or.inl sent
  | assertLiveliness =>
    rcases List.mem_append.mp sent with old | beat
    · exact Or.inl old
    · exact Or.inr (Or.inl ⟨_, List.mem_singleton.mp beat⟩)
  | toWriter index =>
    simp only [step] at sent
    cases found : l.toWriter[index]? with
    | none =>
      simp only [found] at sent
      exact Or.inl sent
    | some nack =>
      simp only [found, List.mem_append] at sent
      rcases sent with old | answered
      · exact Or.inl old
      · rcases l.mem_answer answered with ⟨e, member, same⟩ | declared
        · exact Or.inr (Or.inr (Or.inl ⟨e, same, Or.inl member⟩))
        · exact Or.inr (Or.inr (Or.inr ⟨nack, List.mem_of_getElem? found, declared⟩))
  | toReader index clock =>
    simp only [step] at sent
    split at sent <;> exact Or.inl sent
  | use op =>
    simp only [step] at sent
    split at sent <;> exact Or.inl sent
  | knowReader known => exact Or.inl sent
  | knowWriter known => exact Or.inl sent

/-- The baseline of the reader never falls behind what it asked for, nor
behind what was declared unavailable in answer. -/
structure GapsStartLow (l : Link) : Prop where
  range : ∀ g, (l.reader.rxState g).InRange
  asked : ∀ nack ∈ l.toWriter, nack.baseSeq.toNat ≤ (l.reader.rxState nack.writer).lastSeq.toNat + 1
  declared : ∀ gap, Frame.gap gap ∈ l.toReader →
    gap.gapStart.toNat ≤ (l.reader.rxState gap.writer).lastSeq.toNat + 1

theorem step_range {l : Link} (range : ∀ g, (l.reader.rxState g).InRange) (event : LinkEvent) (g : Guid) :
    ((l.step event).reader.rxState g).InRange := by
  rw [step_reader]
  cases l.readerOp event with
  | none => exact range g
  | some op => exact ReaderImpl.step_inRange range op g

theorem step_lastSeq_ge {l : Link} (range : ∀ g, (l.reader.rxState g).InRange) (event : LinkEvent) (g : Guid) :
    (l.reader.rxState g).lastSeq.toNat ≤ ((l.step event).reader.rxState g).lastSeq.toNat := by
  rw [step_reader]
  cases l.readerOp event with
  | none => exact le_rfl
  | some op => exact ReaderImpl.step_lastSeq_ge range op g

theorem answerGap_start {w : WriterImpl} {readerEp : EndpointRecord} {nack : AckNackBody} {gap : GapBody}
    (answered : w.answerGap readerEp nack = some gap) :
    gap.gapStart = nack.baseSeq ∧ gap.writer = nack.writer ∧ gap.gapEnd = (w.answerAcknack readerEp nack).2 ∧
      gap.reader = nack.reader ∧ 0 < gap.gapEnd := by
  unfold WriterImpl.answerGap at answered
  dsimp only at answered
  split at answered
  · rename_i positive
    cases Option.some.inj answered
    exact ⟨rfl, rfl, rfl, rfl, positive⟩
  · simp at answered

theorem GapsStartLow.step {l : Link} (low : l.GapsStartLow) (event : LinkEvent) : (l.step event).GapsStartLow := by
  have advance := step_lastSeq_ge low.range event
  refine ⟨step_range low.range event, fun nack sent => ?_, fun gap sent => ?_⟩
  · rcases l.step_asks sent with old | carried
    · exact (low.asked nack old).trans (Nat.add_le_add_right (advance _) 1)
    · rw [carried]
      exact (BitVec.toNat_add _ _).le.trans (Nat.mod_le _ _)
  · rcases l.step_sends sent with old | ⟨_, beat⟩ | ⟨_, data, _⟩ | ⟨nack, asked, _, same, here, answered⟩
    · exact (low.declared gap old).trans (Nat.add_le_add_right (advance _) 1)
    · cases beat
    · cases data
    · cases here
      obtain ⟨start, writer, _⟩ := answerGap_start answered
      rw [start, writer]
      exact (low.asked nack asked).trans (Nat.add_le_add_right (advance _) 1)

/-- Whatever the network does to the frames, a GAP that reaches the reader
starts no later than its next seq, and so gives up no seq outside the range
the writer declared, although `apply_gap` ignores `gap_start`. -/
theorem gives_up_only_declared (writer : WriterImpl) (guid : Guid) (topic type : Bytes) (qos : QosProfile)
    (ignoreLocal : Bool) (birthUs : U64) (events : List LinkEvent) (gap : GapBody) :
    let start : Link := { writer, reader := ReaderImpl.create guid topic type qos ignoreLocal birthUs }
    let l := Run.exec step start events
    Frame.gap gap ∈ l.toReader →
      gap.gapStart.toNat ≤ (l.reader.rxState gap.writer).lastSeq.toNat + 1 ∧
      ∀ s, (l.reader.applyGap gap.writer gap.gapStart gap.gapEnd).Settled gap.writer s →
        ¬ l.reader.Settled gap.writer s → gap.gapStart.toNat ≤ s ∧ s ≤ gap.gapEnd.toNat := by
  intro start l sent
  have initially : start.GapsStartLow :=
    ⟨fun g => ReaderImpl.exec_inRange rfl [] g, fun _ none => absurd none List.not_mem_nil,
      fun _ none => absurd none List.not_mem_nil⟩
  have kept : ∀ (l : Link) (event : LinkEvent), l.GapsStartLow → (l.step event).GapsStartLow :=
    fun _ event low => low.step event
  have low : l.GapsStartLow := Run.invariant kept events initially
  have below := low.declared gap sent
  refine ⟨below, fun s after before => ?_⟩
  rw [ReaderImpl.Settled, ReaderImpl.applyGap_rxState, if_pos rfl, WriterRxState.passGap_settled] at after
  rcases after with old | upper
  · exact absurd old before
  · have above : ¬ s ≤ (l.reader.rxState gap.writer).lastSeq.toNat :=
      fun le => before (WriterRxState.settled_of_le le)
    exact ⟨by omega, upper⟩

/-- A writer of depth 1 has dropped seq 1 when the reader, which only got seq
2, asks for it; the GAP is then on its way. -/
theorem gives_up_only_declared_evicted :
    let writer : WriterImpl := { guid := default, topic := [], type := [], qos := { depth := 1 } }
    let start : Link := { writer, reader := ReaderImpl.create default [] [] {} false 0 }
    let events : List LinkEvent := [.knowReader true, .knowWriter true, .write 1 [] 0, .write 2 [] 0,
      .toReader 1 (0, 0), .toWriter 0]
    let l := Run.exec step start events
    Frame.gap ⟨default, default, 1, 1⟩ ∈ l.toReader ∧
      ∀ s, (l.reader.applyGap default 1 1).Settled default s → ¬ l.reader.Settled default s → 1 ≤ s ∧ s ≤ 1 := by
  intro writer start events l
  have sent : Frame.gap ⟨default, default, 1, 1⟩ ∈ l.toReader := by decide
  exact ⟨sent, (gives_up_only_declared writer default [] [] {} false 0 events ⟨default, default, 1, 1⟩ sent).2⟩

end Link

end Mdds
