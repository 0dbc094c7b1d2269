import Mdds.Delivery
import Mdds.FrameRoundTrip
import Mdds.KeepLast
import Mdds.Lib.Buffer
import Mdds.WriterHistory

namespace Mdds

/-- What `take` hands out of a queued sample. -/
def QueuedSample.content (q : QueuedSample) : Bytes × MessageInfo := (q.data, q.info)

instance : ∀ op : ReaderOp, Decidable op.Lasting
  | .enqueue _ _ _ writerQos _ _ _ => inferInstanceAs (Decidable (writerQos.lifespanMs = 0))
  | .applyGap .. | .take _ | .available _ => isTrue trivial

namespace ReaderImpl

/-- The unread samples, as `take` will hand them out. -/
def unread (r : ReaderImpl) : List (Bytes × MessageInfo) := r.queue.map QueuedSample.content

/-- The sample that a call puts into the queue. -/
def entered (r : ReaderImpl) : ReaderOp → List (Bytes × MessageInfo)
  | .enqueue writer seq data writerQos pubTimeMs now sweepNow =>
    if (r.enqueue writer seq data writerQos pubTimeMs now sweepNow).queued then [(data, ⟨writer, seq, pubTimeMs⟩)] else []
  | _ => []

/-- The sample that a call hands to the application. -/
def taken (r : ReaderImpl) : ReaderOp → List (Bytes × MessageInfo)
  | .take now => (r.take now).1.toList
  | _ => []

abbrev enteredIn (r : ReaderImpl) (ops : List ReaderOp) : List (Bytes × MessageInfo) := Run.log step entered r ops

abbrev takenIn (r : ReaderImpl) (ops : List ReaderOp) : List (Bytes × MessageInfo) := Run.log step taken r ops

variable {r : ReaderImpl}

theorem unread_sweepExpired (now : U64) : (r.sweepExpired now).unread.Sublist r.unread :=
  List.filter_sublist.map _

theorem unread_push (sample : QueuedSample) : (r.push sample).unread.Sublist (r.unread ++ [sample.content]) := by
  have whole : r.unread ++ [sample.content] = (r.queue ++ [sample]).map QueuedSample.content := by
    rw [List.map_append]
    rfl
  rw [whole, unread, push]
  dsimp only
  split
  · exact (List.drop_sublist _ _).map _
  · exact List.Sublist.refl _

theorem unread_applyGap (writer : Guid) (gapStart gapEnd : U64) : (r.applyGap writer gapStart gapEnd).unread = r.unread := by
  unfold applyGap
  split <;> rfl

/-- `take` splits off the oldest sample that has not expired. -/
theorem unread_take (now : U64) : (r.take now).1.toList ++ (r.take now).2.unread = (r.sweepExpired now).unread := by
  have swept : (r.sweepExpired now).unread = (r.sweepExpired now).queue.map QueuedSample.content := rfl
  unfold take
  dsimp only
  rw [swept]
  cases queue : (r.sweepExpired now).queue with
  | nil => simp [unread, queue]
  | cons sample rest => simp [unread, QueuedSample.content]

theorem enqueue_unread (writer : Guid) (seq : U64) (data : Bytes) (writerQos : QosProfile) (pubTimeMs now sweepNow : U64) :
    (r.enqueue writer seq data writerQos pubTimeMs now sweepNow).reader.unread.Sublist
      (r.unread ++ r.entered (.enqueue writer seq data writerQos pubTimeMs now sweepNow)) := by
  unfold entered enqueue
  dsimp only
  split
  · simp [unread]
  · split
    · simp [unread]
    · exact (unread_sweepExpired sweepNow).trans (unread_push _)

/-- No call invents, repeats or reorders samples. -/
theorem step_unread (r : ReaderImpl) (op : ReaderOp) :
    (r.taken op ++ (r.step op).unread).Sublist (r.unread ++ r.entered op) := by
  cases op with
  | enqueue writer seq data writerQos pubTimeMs now sweepNow => exact enqueue_unread ..
  | applyGap writer gapStart gapEnd =>
    rw [step, unread_applyGap]
    simp [taken, entered]
  | take now =>
    simp only [taken, step, unread_take, entered, List.append_nil]
    exact unread_sweepExpired now
  | available now =>
    simp only [taken, entered, List.append_nil, List.nil_append]
    exact unread_sweepExpired now

/-- The reader keeps everything: no depth, and nothing queued that expires. -/
structure KeepsAll (r : ReaderImpl) : Prop where
  all : r.qos.history = .keepAll
  lasting : ∀ q ∈ r.queue, q.lifespanMs = 0

theorem KeepsAll.enqueue {writer : Guid} {seq : U64} {data : Bytes} {writerQos : QosProfile} {pubTimeMs now sweepNow : U64}
    (keeps : r.KeepsAll) (lasting : writerQos.lifespanMs = 0) :
    (r.enqueue writer seq data writerQos pubTimeMs now sweepNow).reader.KeepsAll ∧
      (r.enqueue writer seq data writerQos pubTimeMs now sweepNow).reader.unread =
        r.unread ++ r.entered (.enqueue writer seq data writerQos pubTimeMs now sweepNow) := by
  have never : lifespanExpired writerQos.lifespanMs pubTimeMs now = false := lasting ▸ lifespanExpired_zero pubTimeMs now
  unfold entered ReaderImpl.enqueue
  dsimp only
  split
  · exact ⟨⟨keeps.all, keeps.lasting⟩, by simp [unread]⟩
  · rw [if_neg (by simp [never])]
    have all : ¬ r.qos.history = .keepLast := by simp [keeps.all]
    have every : ∀ q ∈ r.queue ++ [(⟨data, ⟨writer, seq, pubTimeMs⟩, writerQos.lifespanMs⟩ : QueuedSample)],
        q.lifespanMs = 0 := by
      intro q member
      rcases List.mem_append.mp member with old | new
      · exact keeps.lasting q old
      · rw [List.mem_singleton.mp new]
        exact lasting
    simp only [push, all, if_false, if_true]
    rw [sweepExpired_lasting every]
    exact ⟨⟨keeps.all, every⟩, by simp [unread, QueuedSample.content]⟩

theorem KeepsAll.step (keeps : r.KeepsAll) {op : ReaderOp} (lasting : op.Lasting) :
    (r.step op).KeepsAll ∧ r.taken op ++ (r.step op).unread = r.unread ++ r.entered op := by
  cases op with
  | enqueue writer seq data writerQos pubTimeMs now sweepNow => exact keeps.enqueue lasting
  | applyGap writer gapStart gapEnd =>
    have same : (r.applyGap writer gapStart gapEnd).queue = r.queue ∧ (r.applyGap writer gapStart gapEnd).qos = r.qos := by
      unfold applyGap
      split <;> exact ⟨rfl, rfl⟩
    refine ⟨⟨?_, ?_⟩, ?_⟩
    · rw [ReaderImpl.step, same.2]
      exact keeps.all
    · rw [ReaderImpl.step, same.1]
      exact keeps.lasting
    · simp only [ReaderImpl.step, unread_applyGap, taken, entered, List.append_nil, List.nil_append]
  | take now =>
    have still := sweepExpired_lasting keeps.lasting now
    refine ⟨⟨?_, fun q member => keeps.lasting q ?_⟩, ?_⟩
    · rw [(step_static r (.take now)).2.2.2.1]
      exact keeps.all
    · simp only [ReaderImpl.step, ReaderImpl.take, still] at member
      split at member
      · rename_i empty
        exact absurd member (by simp [empty])
      · rename_i sample rest queue
        rw [queue]
        exact List.mem_cons_of_mem _ member
    · simp only [taken, ReaderImpl.step, unread_take, still, entered, List.append_nil]
  | available now =>
    have still := sweepExpired_lasting keeps.lasting now
    simp only [taken, entered, List.append_nil, List.nil_append, ReaderImpl.step, available, still]
    exact ⟨keeps, trivial⟩

/-- The keys of what enters the queue are those of what `pushed` counts. -/
theorem enteredIn_keys (r : ReaderImpl) (ops : List ReaderOp) :
    (r.enteredIn ops).map (fun sample => (sample.2.writerGuid, sample.2.seq.toNat)) = r.pushedIn ops := by
  induction ops generalizing r with
  | nil => rfl
  | cons op rest ih =>
    rw [enteredIn, pushedIn, Run.log, Run.log, List.map_append]
    refine congrArg₂ (· ++ ·) ?_ (ih _)
    cases op with
    | enqueue writer seq data writerQos pubTimeMs now sweepNow =>
      simp only [entered, pushed]
      split <;> rfl
    | applyGap | take | available => rfl

theorem takenIn_quiet {ops : List ReaderOp} (none : ∀ op ∈ ops, ∀ r : ReaderImpl, r.taken op = []) : r.takenIn ops = [] := by
  induction ops generalizing r with
  | nil => rfl
  | cons op rest ih =>
    obtain ⟨here, later⟩ := List.forall_mem_cons.mp none
    rw [takenIn, Run.log, here, List.nil_append]
    exact ih later

/-- A KEEP_LAST queue never grows beyond its depth. -/
theorem step_queue_le (r : ReaderImpl) (op : ReaderOp) (last : r.qos.history = .keepLast)
    (within : r.queue.length ≤ max r.qos.depth.toNat 1) : (r.step op).queue.length ≤ max r.qos.depth.toNat 1 := by
  have fewer (now : U64) (x : ReaderImpl) : (x.sweepExpired now).queue.length ≤ x.queue.length :=
    List.length_filter_le _ _
  cases op with
  | enqueue writer seq data writerQos pubTimeMs now sweepNow =>
    simp only [step, enqueue]
    split
    · exact within
    · split
      · exact within
      · refine (fewer _ _).trans ?_
        simp only [push, last, if_true, List.length_drop]
        omega
  | applyGap writer gapStart gapEnd =>
    simp only [step, applyGap]
    split <;> exact within
  | take now =>
    simp only [step, take]
    split
    · exact (fewer now r).trans within
    · rename_i sample rest queue
      have shorter := fewer now r
      rw [queue, List.length_cons] at shorter
      dsimp only
      omega
  | available now => exact (fewer now r).trans within

theorem exec_queue_le (last : r.qos.history = .keepLast) (within : r.queue.length ≤ max r.qos.depth.toNat 1)
    (ops : List ReaderOp) : (Run.exec step r ops).queue.length ≤ max r.qos.depth.toNat 1 := by
  induction ops generalizing r with
  | nil => exact within
  | cons op rest ih =>
    have same := (step_static r op).2.2.2.1
    have next := ih (same ▸ last) (same ▸ step_queue_le r op last within)
    exact same ▸ next

/-- The match count is no part of what a call does. -/
theorem step_rematch (r : ReaderImpl) (op : ReaderOp) (matchedCount : Nat) :
    ({ r with matchedCount } : ReaderImpl).step op = { r.step op with matchedCount } := by
  cases op with
  | enqueue writer seq data writerQos pubTimeMs now sweepNow =>
    have known : ({ r with matchedCount } : ReaderImpl).rxState writer = r.rxState writer := rfl
    simp only [step, enqueue, known]
    cases ((r.rxState writer).receive seq).isNew with
    | false => rfl
    | true => cases lifespanExpired writerQos.lifespanMs pubTimeMs now <;> rfl
  | applyGap writer gapStart gapEnd =>
    simp only [step, applyGap]
    cases r.rx writer <;> rfl
  | take now =>
    have swept : (({ r with matchedCount } : ReaderImpl).sweepExpired now).queue = (r.sweepExpired now).queue := rfl
    simp only [step, take, swept]
    cases (r.sweepExpired now).queue <;> rfl
  | available now => rfl

theorem exec_rematch (r : ReaderImpl) (ops : List ReaderOp) (matchedCount : Nat) :
    Run.exec step { r with matchedCount } ops = { Run.exec step r ops with matchedCount } := by
  induction ops generalizing r with
  | nil => rfl
  | cons op rest ih => rw [Run.exec_cons, Run.exec_cons, step_rematch, ih]

theorem takenIn_rematch (r : ReaderImpl) (ops : List ReaderOp) (matchedCount : Nat) :
    takenIn { r with matchedCount } ops = r.takenIn ops := by
  have same (r : ReaderImpl) (now : U64) : (({ r with matchedCount } : ReaderImpl).take now).1 = (r.take now).1 := by
    have swept : (({ r with matchedCount } : ReaderImpl).sweepExpired now).queue = (r.sweepExpired now).queue := rfl
    unfold take
    simp only [swept]
    cases (r.sweepExpired now).queue <;> rfl
  induction ops generalizing r with
  | nil => rfl
  | cons op rest ih =>
    rw [takenIn, takenIn, Run.log, Run.log, step_rematch]
    refine congrArg₂ (· ++ ·) ?_ (ih _)
    cases op with
    | take now => exact congrArg Option.toList (same r now)
    | enqueue | applyGap | available => rfl

end ReaderImpl

namespace Participant

/-- The call that a received sample makes on a reader: one, if they match. -/
def offersTo (p : Participant) (r : ReaderImpl) (writer : Guid) (sample : CachedSample) (clock : U64 × U64) :
    List ReaderOp :=
  ((p.findRemoteEndpoint writer).filter (endpointsMatch r.topic r.type r.qos)).toList.map (fun writerEp =>
    .enqueue writer sample.seq sample.data writerEp.qos sample.pubTimeMs clock.1 clock.2)

theorem offersTo_known {p : Participant} {writer : Guid} {writerEp : EndpointRecord}
    (known : p.findRemoteEndpoint writer = some writerEp) (r : ReaderImpl) (sample : CachedSample) (clock : U64 × U64) :
    p.offersTo r writer sample clock = if endpointsMatch r.topic r.type r.qos writerEp then
      [.enqueue writer sample.seq sample.data writerEp.qos sample.pubTimeMs clock.1 clock.2] else [] := by
  rw [offersTo, known, Option.filter_some]
  cases endpointsMatch r.topic r.type r.qos writerEp <;> rfl

/-- From one state to another the reader at this address has gone through
these calls and nothing else. -/
def Calls (addr : Addr) (calls : ReaderImpl → List ReaderOp) (p q : Participant) : Prop :=
  ∀ r, p.readers.lookup addr = some r → ∃ matchedCount,
    q.readers.lookup addr = some { Run.exec ReaderImpl.step r (calls r) with matchedCount }

namespace Calls
variable {addr : Addr} {calls : ReaderImpl → List ReaderOp} {p q : Participant}

theorem of_lookup (same : q.readers.lookup addr = p.readers.lookup addr) : Calls addr (fun _ => []) p q :=
  fun r found => ⟨r.matchedCount, same ▸ found⟩

theorem of_readers (same : q.readers = p.readers) : Calls addr (fun _ => []) p q := of_lookup (by rw [same])

theorem congr {other : ReaderImpl → List ReaderOp} (acts : Calls addr calls p q)
    (same : ∀ r, p.readers.lookup addr = some r → other r = calls r) : Calls addr other p q := by
  intro r found
  rw [same r found]
  exact acts r found

theorem matched (acts : Calls addr calls p q) : Calls addr calls p q.recomputeMatches := by
  intro r found
  obtain ⟨count, kept⟩ := acts r found
  unfold recomputeMatches
  exact ⟨_, KeyedList.lookup_map.trans (by rw [kept, Option.map_some])⟩

theorem modify (p : Participant) (target : Addr) (op : ReaderOp) :
    Calls addr (fun _ => if target = addr then [op] else []) p
      { p with readers := KeyedList.modify target (fun r => r.step op) p.readers } := by
  intro r found
  refine ⟨(if target = addr then r.step op else r).matchedCount, ?_⟩
  rw [KeyedList.lookup_modify]
  by_cases here : addr = target
  · simp [here, here ▸ found]
  · simp [here, Ne.symm here, found]

/-- A replay offers its samples one after the other. -/
theorem replay (target : Addr) (history : List (WriterImpl × CachedSample)) (now : U64) (p : Participant) :
    Calls addr (fun _ => if target = addr then history.map (fun item =>
        .enqueue item.1.guid item.2.seq item.2.data item.1.qos item.2.pubTimeMs now now) else []) p
      (history.foldl (fun (p : Participant) item => p.enqueueLocal target item.1.guid item.1.qos item.2 (now, now)) p) := by
  induction history generalizing p with
  | nil => exact (of_readers rfl).congr (fun _ _ => ite_self _)
  | cons item rest ih =>
    intro r found
    obtain ⟨_, first⟩ := modify p target
      (.enqueue item.1.guid item.2.seq item.2.data item.1.qos item.2.pubTimeMs now now) r found
    obtain ⟨count, later⟩ := ih (p.enqueueLocal target item.1.guid item.1.qos item.2 (now, now)) _ first
    refine ⟨count, later.trans ?_⟩
    by_cases here : target = addr
    · simp only [here, if_true, ReaderImpl.exec_rematch, List.map_cons, Run.exec_cons, Run.exec_nil]
    · simp only [here, if_false, Run.exec_nil]

theorem deliverSample (p : Participant) (writer : Guid) (sample : CachedSample) (now : U64) (clock : EnqueueClock) :
    Calls addr (fun r => p.offersTo r writer sample (clock addr)) p (p.deliverSample writer sample now clock).1 := by
  intro r found
  cases known : p.findRemoteEndpoint writer with
  | none => exact ⟨r.matchedCount, by simpa [Participant.deliverSample, offersTo, known] using found⟩
  | some writerEp =>
    refine ⟨(r.deliver writerEp writer sample (clock addr)).1.matchedCount, ?_⟩
    rw [deliverSample_lookup known, found, Option.map_some]
    dsimp only
    rw [offersTo_known known]
    cases matching : endpointsMatch r.topic r.type r.qos writerEp with
    | false => simp [ReaderImpl.deliver, matching]
    | true => simp [ReaderImpl.deliver_step matching]

theorem handleGap (p : Participant) (body : GapBody) :
    Calls addr (fun _ => if ¬ body.gapEnd < body.gapStart ∧ p.readerAddr body.reader = some addr then
      [.applyGap body.writer body.gapStart body.gapEnd] else []) p (p.handleGap body) := by
  by_cases reversed : body.gapEnd < body.gapStart
  · rw [Participant.handleGap, if_pos reversed]
    exact (of_readers rfl).congr (fun _ _ => if_neg (fun both => both.1 reversed))
  · rw [Participant.handleGap, if_neg reversed]
    cases known : p.readerAddr body.reader with
    | none => exact (of_readers rfl).congr (fun _ _ => if_neg (by simp))
    | some target =>
      exact (modify p target (.applyGap body.writer body.gapStart body.gapEnd)).congr (fun _ _ => by simp [reversed])

theorem handleAnnounce (p : Participant) (peer : PeerId) (snap : ParticipantSnapshot) (announceSeq now : U64) :
    Calls addr (fun _ => []) p (p.handleAnnounce peer snap announceSeq now).1 := by
  unfold Participant.handleAnnounce
  dsimp only
  split
  · exact of_readers rfl
  · split <;> exact of_readers rfl

theorem handleHeartbeat (p : Participant) (body : HeartbeatBody) (now : U64) :
    Calls addr (fun _ => []) p (p.handleHeartbeat body now).1 := by
  unfold Participant.handleHeartbeat
  dsimp only
  split <;> exact of_readers rfl

theorem handlePeerDown (p : Participant) (peer : PeerId) : Calls addr (fun _ => []) p (p.handlePeerDown peer) := by
  unfold Participant.handlePeerDown
  dsimp only
  split
  · exact matched (of_readers rfl)
  · exact of_readers rfl

theorem createWriter {other : Addr} {topic type : Bytes} {qos : QosProfile} {birthUs : U64}
    (created : p.createWriter other topic type qos birthUs = some q) : Calls addr (fun _ => []) p q := by
  unfold Participant.createWriter at created
  split at created
  · cases created
  · obtain rfl := Option.some.inj created
    exact matched (of_readers rfl)

theorem createReader {other : Addr} {topic type : Bytes} {qos : QosProfile} {ignoreLocal : Bool} {birthUs : U64}
    (differ : addr ≠ other) (created : p.createReader other topic type qos ignoreLocal birthUs = some q) :
    Calls addr (fun _ => []) p q := by
  unfold Participant.createReader at created
  split at created
  · cases created
  · obtain rfl := Option.some.inj created
    exact matched (of_lookup (KeyedList.lookup_emplace_other differ))

theorem destroyReader {other : Addr} (differ : addr ≠ other) : Calls addr (fun _ => []) p (p.destroyReader other) := by
  refine matched (of_lookup ?_)
  rw [KeyedList.lookup_erase, if_neg differ]

end Calls

/-- The call that a frame makes on the reader `r` at an address, which only
DATA and GAP frames do. -/
def callsFor (p : Participant) (addr : Addr) (r : ReaderImpl) (data : Bytes) (clocks : Clocks) : List ReaderOp :=
  match decodeData data, decodeGap data with
  | some body, _ => p.offersTo r body.writer ⟨body.seq, body.pubTimeMs, 0, body.payload⟩ (clocks.offers addr)
  | none, some body =>
    if ¬ body.gapEnd < body.gapStart ∧ p.readerAddr body.reader = some addr then
      [.applyGap body.writer body.gapStart body.gapEnd]
    else []
  | none, none => []

theorem callsFor_data {p : Participant} {data : Bytes} {body : DataBody} (decoded : decodeData data = some body)
    (addr : Addr) (r : ReaderImpl) (clocks : Clocks) : p.callsFor addr r data clocks =
      p.offersTo r body.writer ⟨body.seq, body.pubTimeMs, 0, body.payload⟩ (clocks.offers addr) := by
  simp only [callsFor, decoded]

theorem callsFor_gap {p : Participant} {data : Bytes} {body : GapBody} (noData : decodeData data = none)
    (decoded : decodeGap data = some body) (addr : Addr) (r : ReaderImpl) (clocks : Clocks) :
    p.callsFor addr r data clocks = if ¬ body.gapEnd < body.gapStart ∧ p.readerAddr body.reader = some addr then
      [.applyGap body.writer body.gapStart body.gapEnd] else [] := by
  simp only [callsFor, noData, decoded]

theorem callsFor_other {p : Participant} {data : Bytes} (noData : decodeData data = none) (noGap : decodeGap data = none)
    (addr : Addr) (r : ReaderImpl) (clocks : Clocks) : p.callsFor addr r data clocks = [] := by
  simp only [callsFor, noData, noGap]

end Participant

theorem decodeGap_type {data : Bytes} {body : GapBody} (decoded : decodeGap data = some body) :
    (decodeHeader data).map FrameHeader.type = some .gap :=
  @decodeAs_type .gap data (.gap body) (by rw [decodeAs, decoded, Option.map_some])

/-- A frame of one type is no frame of another. -/
theorem decode_none_of_type {α : Type} {data : Bytes} {type : FrameType} {decoded : Option α}
    (known : ∀ body, decoded = some body → (decodeHeader data).map FrameHeader.type = some type)
    (differ : (decodeHeader data).map FrameHeader.type ≠ some type) : decoded = none := by
  cases result : decoded with
  | none => rfl
  | some body => exact absurd (known body result) differ

namespace Running
variable (addr : Addr) (s : Running)

/-- The calls that a section makes on the reader `r` at this address. -/
def callsOn (r : ReaderImpl) : Section → List ReaderOp
  | .replayLocalHistory index now =>
    if s.joining[index]? = some addr then
      (s.localReplay r now).map (fun item =>
        .enqueue item.1.guid item.2.seq item.2.data item.1.qos item.2.pubTimeMs now now)
    else []
  | .handOver index target clock =>
    if target = addr then
      ((s.handing[index]?).filter (fun t => target ∈ t.localReaders)).toList.map (fun t =>
        .enqueue t.writer t.sample.seq t.sample.data t.qos t.sample.pubTimeMs clock.1 clock.2)
    else []
  | .take target now => if target = addr then [.take now] else []
  | .available target now => if target = addr then [.available now] else []
  | .bytes _ data clocks => s.callsFor addr r data clocks
  | .deliverSample index clocks =>
    match s.delivering[index]? with
    | none => []
    | some (_, body, full) =>
      s.offersTo r body.writer ⟨body.seq, body.pubTimeMs, 0, full⟩ (clocks.offers addr)
  | _ => []

/-- The calls that a section makes on whatever reader is at this address. -/
def calls (turn : Section) : List ReaderOp :=
  match s.readers.lookup addr with
  | none => []
  | some r => s.callsOn addr r turn

/-- The samples that `take` hands out at this address. -/
def hands : Section → List (Bytes × MessageInfo)
  | .take target now => if target = addr then ((s.readers.lookup addr).bind (fun r => (r.take now).1)).toList else []
  | _ => []

/-- A frame that is neither an announce nor a fragment. -/
theorem handleBytes_calls {p : ParticipantImpl} (peer : PeerId) {data : Bytes} (clocks : Clocks)
    (noAnnounce : decodeAnnounce data = none) (noFragment : decodeDataFrag data = none) :
    p.toParticipant.Calls addr (fun r => p.callsFor addr r data clocks) (p.handleBytes peer data clocks).1.toParticipant := by
  have same {q : ParticipantImpl} (readers : q.readers = p.readers) (calls : ∀ r, p.callsFor addr r data clocks = []) :
      p.toParticipant.Calls addr (fun r => p.callsFor addr r data clocks) q.toParticipant :=
    (Participant.Calls.of_readers readers).congr (fun r _ => calls r)
  have quiet (noData : (decodeHeader data).map FrameHeader.type ≠ some .data)
      (noGap : (decodeHeader data).map FrameHeader.type ≠ some .gap) (r : ReaderImpl) : p.callsFor addr r data clocks = [] :=
    Participant.callsFor_other (decode_none_of_type (fun _ => decodeData_type) noData)
      (decode_none_of_type (fun _ => decodeGap_type) noGap) addr r clocks
  cases header : (decodeHeader data).map FrameHeader.type with
  | none =>
    simp only [ParticipantImpl.handleBytes, header]
    exact same rfl (quiet (by simp [header]) (by simp [header]))
  | some type =>
    cases type with
    | announce =>
      simp only [ParticipantImpl.handleBytes, header, noAnnounce]
      exact same rfl (quiet (by simp [header]) (by simp [header]))
    | dataFrag =>
      simp only [ParticipantImpl.handleBytes, header, noFragment]
      exact same rfl (quiet (by simp [header]) (by simp [header]))
    | data =>
      cases decoded : decodeData data with
      | none =>
        have noGap : decodeGap data = none := decode_none_of_type (fun _ => decodeGap_type) (by simp [header])
        simp only [ParticipantImpl.handleBytes, header, decoded]
        exact same rfl (fun r => Participant.callsFor_other decoded noGap addr r clocks)
      | some body =>
        rw [ParticipantImpl.handleBytes_data decoded]
        exact (Participant.Calls.deliverSample _ _ _ _ _).congr
          (fun r _ => Participant.callsFor_data decoded addr r clocks)
    | gap =>
      have noData : decodeData data = none := decode_none_of_type (fun _ => decodeData_type) (by simp [header])
      cases decoded : decodeGap data with
      | none =>
        simp only [ParticipantImpl.handleBytes, header, decoded]
        exact same rfl (fun r => Participant.callsFor_other noData decoded addr r clocks)
      | some body =>
        simp only [ParticipantImpl.handleBytes, header, decoded]
        exact (Participant.Calls.handleGap _ _).congr
          (fun r _ => Participant.callsFor_gap noData decoded addr r clocks)
    | acknack =>
      simp only [ParticipantImpl.handleBytes, header]
      exact same rfl (quiet (by simp [header]) (by simp [header]))
    | heartbeat =>
      have calls := quiet (by simp [header]) (by simp [header])
      simp only [ParticipantImpl.handleBytes, header]
      split
      · exact same rfl calls
      · exact (Participant.Calls.handleHeartbeat _ _ _).congr (fun r _ => calls r)
    | other =>
      simp only [ParticipantImpl.handleBytes, header]
      exact same rfl (quiet (by simp [header]) (by simp [header]))

variable {s addr}

/-- Every section acts on a reader, unless it destroys it, through the calls
it makes on it and through nothing else. -/
theorem step_calls {turn : Section} (alive : turn ≠ .destroyReader addr) :
    s.toParticipant.Calls addr (fun r => s.callsOn addr r turn) (s.next turn).toParticipant := by
  unfold next
  cases turn with
  | createWriter other topic type qos birthUs =>
    simp only [step]
    split
    · exact .of_readers rfl
    · cases created : s.createWriter other topic type qos birthUs with
      | none => exact .of_readers rfl
      | some next => exact .createWriter created
  | createReader other topic type qos ignoreLocal birthUs =>
    simp only [step]
    split
    · exact .of_readers rfl
    · rename_i unused
      cases created : s.createReader other topic type qos ignoreLocal birthUs with
      | none => exact .of_readers rfl
      | some next =>
        intro r found
        have differ : addr ≠ other := by
          rintro rfl
          exact unused (by rw [found]; rfl)
        exact Participant.Calls.createReader differ created r found
  | destroyWriter other => exact .matched (.of_readers rfl)
  | destroyReader other => exact .destroyReader (fun same => alive (same ▸ rfl))
  | replayLocalHistory index now =>
    simp only [step, callsOn]
    cases waiting : s.joining[index]? with
    | none => exact (Participant.Calls.of_readers rfl).congr (fun _ _ => if_neg (by simp))
    | some target =>
      refine (Participant.Calls.replay target _ now s.toParticipant).congr (fun r found => ?_)
      by_cases here : target = addr
      · simp only [here, if_true, found, Option.map_some, Option.getD_some]
      · rw [if_neg here, if_neg (fun same => here (Option.some.inj same))]
  | write target pubTimeUs data now =>
    simp only [step]
    split
    · exact .of_readers rfl
    · rename_i locked
      obtain ⟨_, _, _, _, rfl, _⟩ := Participant.writeLocked_cases locked
      exact .of_readers rfl
  | handOver index target clock =>
    simp only [step, callsOn]
    cases handing : s.handing[index]? with
    | none => exact (Participant.Calls.of_readers rfl).congr (fun _ _ => by simp)
    | some ticket =>
      by_cases named : target ∈ ticket.localReaders
      · simp only [named, if_true]
        refine (Participant.Calls.modify _ target (.enqueue ticket.writer ticket.sample.seq ticket.sample.data ticket.qos
          ticket.sample.pubTimeMs clock.1 clock.2)).congr (fun _ _ => ?_)
        simp [named, Option.filter_some]
      · simp only [named, if_false]
        exact (Participant.Calls.of_readers rfl).congr (fun _ _ => by simp [named, Option.filter_some])
  | take target now => exact .modify _ target (.take now)
  | available target now => exact .modify _ target (.available now)
  | peerDown peer => exact .handlePeerDown _ peer
  | bytes peer data clocks =>
    have silent (noData : (decodeHeader data).map FrameHeader.type ≠ some .data)
        (noGap : (decodeHeader data).map FrameHeader.type ≠ some .gap) (r : ReaderImpl) :
        s.callsOn addr r (.bytes peer data clocks) = [] :=
      Participant.callsFor_other (decode_none_of_type (fun _ => decodeData_type) noData)
        (decode_none_of_type (fun _ => decodeGap_type) noGap) addr r clocks
    cases announce : decodeAnnounce data with
    | some decoded =>
      have header := decodeAnnounce_type announce
      simp only [step, announce]
      exact (Participant.Calls.handleAnnounce _ _ _ _ _).congr (fun r _ => silent (by simp [header]) (by simp [header]) r)
    | none =>
      cases fragment : decodeDataFrag data with
      | some body =>
        have header := decodeDataFrag_type fragment
        simp only [step, announce, fragment]
        exact (Participant.Calls.of_readers rfl).congr (fun r _ => silent (by simp [header]) (by simp [header]) r)
      | none =>
        simp only [step, announce, fragment]
        exact handleBytes_calls addr peer clocks announce fragment
  | deliverSample index clocks =>
    simp only [step, callsOn]
    cases s.delivering[index]? with
    | none => exact .of_readers rfl
    | some item => exact .deliverSample _ _ _ _ _
  | replayHistory index now =>
    simp only [step]
    cases s.replaying[index]? with
    | none => exact .of_readers rfl
    | some item =>
      dsimp only
      split
      · exact .matched (.of_readers rfl)
      · exact .of_readers rfl
  | announceNow | periodExpires =>
    simp only [step, announceNow, wake]
    split
    · exact .of_readers rfl
    · try split
      all_goals exact .of_readers rfl
  | assertLiveliness | announceTick | broadcastAnnounce | sendHeartbeats | sendAnnounce =>
    simp only [step]
    split <;> exact .of_readers rfl
  | addNode | removeNode | stop | peerUp => exact .of_readers rfl

/-- Nothing but `take` hands samples out. -/
theorem step_hands {turn : Section} {r : ReaderImpl} (found : s.readers.lookup addr = some r) :
    hands addr s turn = r.takenIn (calls addr s turn) := by
  have quiet {ops : List ReaderOp} (none : ∀ op ∈ ops, ∀ r : ReaderImpl, r.taken op = []) : r.takenIn ops = [] :=
    ReaderImpl.takenIn_quiet none
  simp only [calls, found]
  cases turn with
  | take target now =>
    simp only [hands, callsOn, found, Option.bind_some]
    split
    · simp [Run.log, ReaderImpl.taken]
    · rfl
  | available target now =>
    refine (quiet (fun op member => ?_)).symm
    simp only [callsOn] at member
    split at member
    · obtain rfl := List.mem_singleton.mp member
      exact fun _ => rfl
    · exact absurd member List.not_mem_nil
  | replayLocalHistory index now =>
    refine (quiet (fun op member => ?_)).symm
    simp only [callsOn] at member
    split at member
    · obtain ⟨_, _, rfl⟩ := List.mem_map.mp member
      exact fun _ => rfl
    · exact absurd member List.not_mem_nil
  | handOver index target clock =>
    refine (quiet (fun op member => ?_)).symm
    simp only [callsOn] at member
    split at member
    · obtain ⟨_, _, rfl⟩ := List.mem_map.mp member
      exact fun _ => rfl
    · exact absurd member List.not_mem_nil
  | bytes peer data clocks =>
    refine (quiet (fun op member => ?_)).symm
    simp only [callsOn, Participant.callsFor] at member
    split at member
    · obtain ⟨_, _, rfl⟩ := List.mem_map.mp member
      exact fun _ => rfl
    · split at member
      · obtain rfl := List.mem_singleton.mp member
        exact fun _ => rfl
      · exact absurd member List.not_mem_nil
    · exact absurd member List.not_mem_nil
  | deliverSample index clocks =>
    refine (quiet (fun op member => ?_)).symm
    simp only [callsOn] at member
    split at member
    · exact absurd member List.not_mem_nil
    · obtain ⟨_, _, rfl⟩ := List.mem_map.mp member
      exact fun _ => rfl
  | _ => rfl

/-- A whole run is, for a reader that outlives it, the calls it makes there. -/
theorem run_calls {turns : List Section} {r : ReaderImpl} (found : s.readers.lookup addr = some r)
    (alive : .destroyReader addr ∉ turns) :
    (∃ matchedCount, (Run.exec next s turns).readers.lookup addr =
      some { Run.exec ReaderImpl.step r (Run.log next (calls addr) s turns) with matchedCount }) ∧
    Run.log next (hands addr) s turns = r.takenIn (Run.log next (calls addr) s turns) := by
  induction turns generalizing s r with
  | nil => exact ⟨⟨r.matchedCount, found⟩, rfl⟩
  | cons turn rest ih =>
    rw [List.mem_cons, not_or] at alive
    have here : calls addr s turn = s.callsOn addr r turn := by simp only [calls, found]
    obtain ⟨count, kept⟩ := step_calls (Ne.symm alive.1) r found
    obtain ⟨⟨last, there⟩, handed⟩ := ih kept alive.2
    rw [Run.exec_cons, Run.log, Run.log, ReaderImpl.takenIn, Run.log_append, Run.exec_append, step_hands found, handed,
      here]
    refine ⟨⟨last, ?_⟩, ?_⟩
    · rw [there, ReaderImpl.exec_rematch]
    · exact congrArg (_ ++ ·) (ReaderImpl.takenIn_rematch ..)

theorem step_createsReader {qos : QosProfile} (unused : s.readers.lookup addr = none) (valid : qosValid qos = true)
    (topic type : Bytes) (ignoreLocal : Bool) (birthUs : U64) : ∃ matchedCount,
    (s.next (.createReader addr topic type qos ignoreLocal birthUs)).readers.lookup addr =
      some { ReaderImpl.create (makeGuid s.owner .reader (s.entitySerial + 1)) topic type qos ignoreLocal birthUs with
        matchedCount } := by
  let fresh := ReaderImpl.create (makeGuid s.owner .reader (s.entitySerial + 1)) topic type qos ignoreLocal birthUs
  let party : Participant :=
    { s.toParticipant with entitySerial := s.entitySerial + 1, readers := KeyedList.emplace addr fresh s.readers }
  have created : s.createReader addr topic type qos ignoreLocal birthUs = some party.recomputeMatches :=
    if_neg (by simp [valid])
  have made : (s.next (.createReader addr topic type qos ignoreLocal birthUs)).toParticipant = party.recomputeMatches := by
    simp only [next, step, unused, Option.isSome_none, Bool.false_eq_true, if_false, created, changed]
  have placed : party.readers.lookup addr = some fresh := KeyedList.lookup_emplace_self unused
  obtain ⟨count, kept⟩ := @Participant.Calls.matched addr _ party party (.of_readers rfl) fresh placed
  exact ⟨count, made ▸ kept⟩

/-- The life of one reader among everything else its participant does: it
goes through the calls of the run and nothing else, what the application has
been handed and what is still unread came in in this order and no seq of a
writer twice, a KEEP_LAST queue stays within its depth, and a KEEP_ALL reader
of samples that never expire loses none. -/
theorem reader_history (owner : GuidPrefix) (before after : List Section) (addr : Addr) (topic type : Bytes)
    (qos : QosProfile) (ignoreLocal : Bool) (birthUs : U64)
    (unused : (Run.exec next (create owner) before).readers.lookup addr = none) (valid : qosValid qos = true)
    (alive : .destroyReader addr ∉ after) :
    let s := Run.exec next (create owner) before
    let created := s.next (.createReader addr topic type qos ignoreLocal birthUs)
    let fresh := ReaderImpl.create (makeGuid s.owner .reader (s.entitySerial + 1)) topic type qos ignoreLocal birthUs
    let ops := Run.log next (calls addr) created after
    let handed := Run.log next (hands addr) created after
    ∃ r, (Run.exec next created after).readers.lookup addr = some r ∧
      r = { Run.exec ReaderImpl.step fresh ops with matchedCount := r.matchedCount } ∧
      (handed ++ r.unread).Sublist (fresh.enteredIn ops) ∧
      ((handed ++ r.unread).map (fun sample => (sample.2.writerGuid, sample.2.seq.toNat))).Nodup ∧
      (qos.history = .keepLast → r.queue.length ≤ max qos.depth.toNat 1) ∧
      (qos.history = .keepAll → (∀ op ∈ ops, op.Lasting) → handed ++ r.unread = fresh.enteredIn ops) := by
  intro s created fresh ops handed
  obtain ⟨count, placed⟩ := step_createsReader unused valid topic type ignoreLocal birthUs
  obtain ⟨⟨last, there⟩, taken⟩ := run_calls placed alive
  rw [ReaderImpl.exec_rematch] at there
  have handedOut : handed = fresh.takenIn ops := taken.trans (ReaderImpl.takenIn_rematch ..)
  have inOrder : (fresh.takenIn ops ++ (Run.exec ReaderImpl.step fresh ops).unread).Sublist (fresh.enteredIn ops) :=
    Buffer.run_sublist ReaderImpl.step_unread fresh ops
  rw [handedOut]
  refine ⟨_, there, rfl, inOrder, ?_, fun keepLast => ?_, fun all lasting => ?_⟩
  · have once : (fresh.pushedIn ops).Nodup :=
      (ReaderImpl.acceptedIn_nodup rfl ops).sublist (ReaderImpl.pushedIn_sublist fresh ops)
    rw [← ReaderImpl.enteredIn_keys] at once
    exact once.sublist (inOrder.map _)
  · exact ReaderImpl.exec_queue_le keepLast (Nat.zero_le _) ops
  · have keeps : fresh.KeepsAll := ⟨all, fun _ member => absurd member List.not_mem_nil⟩
    exact Buffer.run_eq (fun _ _ keeps lasting => (ReaderImpl.KeepsAll.step keeps lasting).1)
      (fun _ _ keeps lasting => (ReaderImpl.KeepsAll.step keeps lasting).2) lasting keeps

/-- A KEEP_ALL reader of a local writer: two writes handed over the other way
round, and one `take`. -/
theorem reader_history_keepAll :
    let before : List Section := [.createWriter 5 [0x74] [0x75] {} 0]
    let after : List Section := [.replayLocalHistory 0 1, .write 5 2000 [1] 2, .write 5 3000 [2] 3, .handOver 1 6 (3, 3),
      .handOver 0 6 (3, 3), .take 6 4]
    let qos : QosProfile := { history := .keepAll }
    let created := (Run.exec next (create ⟨List.replicate 12 1, rfl⟩) before).next (.createReader 6 [0x74] [0x75] qos false 1)
    (Run.log next (hands 6) created after).map Prod.fst = [[2]] ∧
      ∃ r, (Run.exec next created after).readers.lookup 6 = some r ∧
        (Run.log next (hands 6) created after ++ r.unread).map Prod.fst = [[2], [1]] := by
  intro before after qos created
  have alive : Section.destroyReader 6 ∉ after := by simp [after]
  obtain ⟨r, found, _, _, _, _, all⟩ :=
    reader_history ⟨List.replicate 12 1, rfl⟩ before after 6 [0x74] [0x75] qos false 1 rfl (by decide) alive
  refine ⟨by decide, r, found, ?_⟩
  rw [all rfl ?_]
  · decide
  · decide

end Running

end Mdds
