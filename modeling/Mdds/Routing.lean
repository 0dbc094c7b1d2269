import Mdds.Delivery
import Mdds.Lib.Fanout
import Mdds.Lib.Run
import Mdds.RemoteState

namespace Mdds

/-- How participants reach each other: the id under which one knows another,
and the frame size the transport allows between them. -/
structure Links (ι : Type) where
  peerId : ι → ι → PeerId
  maxPayload : ι → ι → Nat

/-- Participants and the frames under way from each to each. -/
structure Net (ι : Type) where
  party : ι → ParticipantImpl
  wire : ι → ι → List Bytes := fun _ _ => []

/-- A `write_sample` call on a writer, or the arrival of the oldest frame
under way from `i` to `j`. -/
inductive NetEvent (ι : Type)
  | write (i : ι) (addr : Addr) (pubTimeUs : U64) (data : Bytes) (now : U64) (clock : EnqueueClock)
  | arrive (i j : ι) (clocks : Clocks)

/-- The frames of one `send_sample_to` at the end of `write_sample`. -/
def Participant.WriteTicket.frames (t : Participant.WriteTicket) (maxPayload : Nat) : List Bytes :=
  (Frame.data t.writer t.sample (t.qos.reliability = .reliable)).encode maxPayload

/-- The local deliveries of `write_sample`. -/
def Participant.offerLocally (p : Participant) (t : Participant.WriteTicket) (clock : EnqueueClock) : Participant :=
  t.localReaders.foldl (fun p addr => p.enqueueLocal addr t.writer t.qos t.sample (clock addr)) p

open Participant (WriteTicket)

namespace Net
variable {ι : Type}

/-- A reader takes the samples of a writer: same topic and type, the QoS rule
of the reader's side, and `ignore_local` within one participant. -/
def Routed (i j : ι) (w : WriterImpl) (r : ReaderImpl) : Prop :=
  w.topic = r.topic ∧ w.type = r.type ∧ qosAcceptedByReader r.qos w.qos = true ∧ (i = j → r.ignoreLocal = false)

/-- Before the first write: everyone has stored everyone's current snapshot,
knows each other participant by one peer, and has received nothing. -/
structure Ready (links : Links ι) (net : Net ι) : Prop where
  stored : ∀ i j, j ≠ i →
    ∃ entry ∈ (net.party i).remote, entry.2.peer = links.peerId i j ∧ entry.2.snap = (net.party j).snapshot
  named : ∀ i, ∀ ep ∈ (net.party i).remoteEndpoints, ∀ j addr w, (net.party j).writers.lookup addr = some w →
    ep.guid = w.guid → ep = w.record
  distinct : ∀ i j a b v w, (net.party i).writers.lookup a = some v → (net.party j).writers.lookup b = some w →
    v.guid = w.guid → i = j ∧ a = b
  apart : ∀ i j k, j ≠ i → k ≠ i → links.peerId i j = links.peerId i k → j = k
  room : ∀ i j, j ≠ i → kHeaderSize + kDataFragBodyFixedSize < links.maxPayload i j
  limit : ∀ i j, j ≠ i → links.maxPayload i j < 2 ^ 32
  keys : ∀ i, ((net.party i).readers.map Prod.fst).Nodup
  unlimited : ∀ i addr w, (net.party i).writers.lookup addr = some w → w.qos.lifespanMs = 0
  unwritten : ∀ i addr w, (net.party i).writers.lookup addr = some w → w.seq = 0
  keepAll : ∀ i addr r, (net.party i).readers.lookup addr = some r → r.qos.history = .keepAll
  unread : ∀ i addr r, (net.party i).readers.lookup addr = some r → r.queue = [] ∧ r.rx = fun _ => none
  idle : ∀ i j addr w seq, j ≠ i → (net.party i).writers.lookup addr = some w →
    ((net.party j).reassembler (links.peerId j i)).partials.lookup ⟨w.guid, seq⟩ = none
  silent : ∀ i j, net.wire i j = []

variable [DecidableEq ι] (links : Links ι)

/-- The rest of `write_sample` after its critical section: the local
deliveries, and the frames on their way to every target. -/
def sendOut (net : Net ι) (i : ι) (published : Participant) (ticket : WriteTicket) (clock : EnqueueClock) : Net ι where
  party := Function.update net.party i { net.party i with toParticipant := published.offerLocally ticket clock }
  wire := fun a b =>
    if a = i ∧ b ≠ i ∧ links.peerId i b ∈ ticket.targets then
      net.wire a b ++ ticket.frames (links.maxPayload i b)
    else net.wire a b

/-- The oldest frame from `i` is handled by `j`, whose replies go back. -/
def takeIn (net : Net ι) (i j : ι) (frame : Bytes) (rest : List Bytes) (clocks : Clocks) : Net ι :=
  let handled := (net.party j).handleBytes (links.peerId j i) frame clocks
  { party := Function.update net.party j handled.1
    wire := fun a b =>
      if a = i ∧ b = j then rest
      else if a = j ∧ b = i then net.wire a b ++ handled.2.flatMap (Frame.encode (links.maxPayload j i))
      else net.wire a b }

/-- A rejected write sends nothing. -/
def step (net : Net ι) : NetEvent ι → Net ι
  | .write i addr pubTimeUs data now clock =>
    match (net.party i).writeLocked addr pubTimeUs data now with
    | none => net
    | some (published, ticket) => net.sendOut links i published ticket clock
  | .arrive i j clocks =>
    match net.wire i j with
    | [] => net
    | frame :: rest => net.takeIn links i j frame rest clocks

/-- The accepted write of participant `i` that an event is, if any. -/
def accepted (i : ι) (net : Net ι) : NetEvent ι → List WriteTicket
  | .write k addr pubTimeUs data now _ =>
    if k = i then (((net.party k).writeLocked addr pubTimeUs data now).map Prod.snd).toList else []
  | .arrive .. => []

/-- What participant `i` has written in a run. -/
def written (net : Net ι) (events : List (NetEvent ι)) (i : ι) : List WriteTicket :=
  Run.log (step links) (accepted i) net events

instance (i j : ι) (w : WriterImpl) (r : ReaderImpl) : Decidable (Routed i j w r) :=
  inferInstanceAs (Decidable (_ ∧ _ ∧ _ ∧ (_ → _)))

end Net

/-- The samples of one writer among accepted writes. -/
def samplesOf (writer : Guid) (tickets : List WriteTicket) : List CachedSample :=
  (tickets.filter (fun t => t.writer = writer)).map WriteTicket.sample

/-- An announce newer than the stored one establishes what `Net.Ready` asks
of the storage. -/
theorem ParticipantImpl.stores {p : ParticipantImpl} {peer : PeerId} {data : Bytes} {snap : ParticipantSnapshot}
    {announceSeq : U64} (decoded : decodeAnnounce data = some (snap, announceSeq))
    (newer : (p.remote.lookup snap.participantGuid).all (fun old => old.announceSeq < announceSeq) = true)
    (clocks : Clocks) :
    ∃ entry ∈ (p.handleBytes peer data clocks).1.remote, entry.2.peer = peer ∧ entry.2.snap = snap := by
  have type : (decodeHeader data).map FrameHeader.type = some .announce := by
    obtain ⟨hdr, opened, body⟩ := Option.bind_eq_some_iff.mp decoded
    rw [opened, Option.map_some]
    by_contra other
    rw [if_pos (fun same => other (congrArg some same))] at body
    cases body
  obtain ⟨_, ⟨stale, _⟩ | ⟨_, stored⟩⟩ := p.toParticipant.handleAnnounce_cases peer snap announceSeq clocks.steadyMs
  · exact absurd (stale.symm.trans newer) (by decide)
  · have remote : (p.handleBytes peer data clocks).1.remote =
        KeyedList.assign snap.participantGuid ⟨peer, announceSeq, snap, clocks.steadyMs⟩ p.remote := by
      simp only [handleBytes, type, decoded]
      rw [← stored]
      split <;> rfl
    exact ⟨_, remote ▸ KeyedList.mem_assign_self, rfl, rfl⟩

theorem samplesOf_append {writer : Guid} {first second : List WriteTicket} :
    samplesOf writer (first ++ second) = samplesOf writer first ++ samplesOf writer second := by
  rw [samplesOf, List.filter_append, List.map_append]
  rfl

theorem samplesOf_singleton {writer : Guid} {t : WriteTicket} :
    samplesOf writer [t] = if t.writer = writer then [t.sample] else [] := by
  by_cases own : t.writer = writer
  · simp [samplesOf, own]
  · simp [samplesOf, own]

/-- Receiving the next seq after a prefix without holes. -/
theorem WriterRxState.receive_next {n : Nat} {seq : U64} (next : seq.toNat = n + 1) :
    (⟨BitVec.ofNat 64 n, 0⟩ : WriterRxState).receive seq = { state := ⟨seq, 0⟩, isNew := true } := by
  have bound := seq.isLt
  have last : (BitVec.ofNat 64 n).toNat = n := Nat.mod_eq_of_lt (by omega)
  have moved : BitVec.ofNat 64 n + 1 = seq := by bv_omega
  rcases (⟨BitVec.ofNat 64 n, 0⟩ : WriterRxState).receive_cases seq with ⟨stale, _⟩ | ⟨jump, _⟩ | ⟨k, positive, _, at_, _⟩ |
    ⟨k, positive, _, at_, _⟩ | ⟨_, same⟩
  · dsimp only at stale
    omega
  · unfold Jumps at jump
    dsimp only at jump
    omega
  · dsimp only at at_
    omega
  · dsimp only at at_
    omega
  · rw [same, moved, slide_stop (by simp)]
    simp

namespace ReaderImpl
variable {start r : ReaderImpl} {offered : Guid → List CachedSample} {writer : Guid} {sample : CachedSample}
  {writerQos : QosProfile}

/-- What `start` has become once it has taken, of every writer, the samples
`offered`, numbered from 1. -/
structure Took (start : ReaderImpl) (offered : Guid → List CachedSample) (r : ReaderImpl) : Prop where
  topic : r.topic = start.topic
  type : r.type = start.type
  qos : r.qos = start.qos
  ignoreLocal : r.ignoreLocal = start.ignoreLocal
  rx : ∀ g, r.rxState g = ⟨BitVec.ofNat 64 (offered g).length, 0⟩
  queue : ∀ g, r.queue.filter (fun q => q.info.writerGuid = g) = (offered g).map (CachedSample.queued g 0)

theorem Took.initial (empty : r.queue = []) (fresh : r.rx = fun _ => none) : r.Took (fun _ => []) r := by
  refine ⟨rfl, rfl, rfl, rfl, fun g => ?_, fun g => ?_⟩
  · rw [rxState, fresh]
    rfl
  · rw [empty]
    rfl

/-- Nothing a reader took of unlimited writers expires. -/
theorem Took.sweep (took : start.Took offered r) (now : U64) :
    r.queue.filter (fun q => !lifespanExpired q.lifespanMs q.info.pubTimeMs now) = r.queue := by
  refine List.filter_eq_self.mpr (fun q member => ?_)
  have own : q ∈ r.queue.filter (fun other => other.info.writerGuid = q.info.writerGuid) :=
    List.mem_filter.mpr ⟨member, decide_eq_true rfl⟩
  rw [took.queue] at own
  obtain ⟨cached, _, same⟩ := List.mem_map.mp own
  rw [← same]
  simpa [CachedSample.queued] using lifespanExpired_zero cached.pubTimeMs now

theorem Took.received (took : start.Took offered r) (numbered : sample.seq.toNat = (offered writer).length + 1) :
    (r.rxState writer).receive sample.seq = { state := ⟨sample.seq, 0⟩, isNew := true } := by
  rw [took.rx, WriterRxState.receive_next numbered]

theorem Took.noGap (took : start.Took offered r) (numbered : sample.seq.toNat = (offered writer).length + 1)
    (data : Bytes) (pubTimeMs now sweepNow : U64) :
    (r.enqueue writer sample.seq data writerQos pubTimeMs now sweepNow).gapDetected = false := by
  unfold enqueue
  rw [took.received numbered]
  dsimp only
  split
  · rfl
  · split <;> rfl

/-- The next sample of a writer is appended. -/
theorem Took.next (took : start.Took offered r) (keepAll : start.qos.history = .keepAll)
    (unlimited : writerQos.lifespanMs = 0) (numbered : sample.seq.toNat = (offered writer).length + 1)
    (now sweepNow : U64) :
    start.Took (Function.update offered writer (offered writer ++ [sample]))
      (r.step (.enqueue writer sample.seq sample.data writerQos sample.pubTimeMs now sweepNow)) := by
  have received := took.received numbered
  have fresh : ¬ r.Settled writer sample.seq.toNat :=
    WriterRxState.receive_isNew.mp (by rw [received])
  obtain ⟨_, topic, type, qos, _, ignoreLocal⟩ :=
    r.step_static (.enqueue writer sample.seq sample.data writerQos sample.pubTimeMs now sweepNow)
  refine ⟨topic.trans took.topic, type.trans took.type, qos.trans took.qos, ignoreLocal.trans took.ignoreLocal,
    fun g => ?_, fun g => ?_⟩
  · rw [step_rxState]
    dsimp only
    by_cases own : g = writer
    · subst own
      have count : BitVec.ofNat 64 ((offered g).length + 1) = sample.seq := by
        rw [← numbered, BitVec.ofNat_toNat, BitVec.setWidth_eq]
      rw [if_pos rfl, received, Function.update_self, List.length_append, List.length_singleton, count]
    · rw [if_neg own, took.rx, Function.update_of_ne own]
  · have queue : (r.step (.enqueue writer sample.seq sample.data writerQos sample.pubTimeMs now sweepNow)).queue =
        r.queue ++ [sample.queued writer 0] := by
      have appended := @enqueue_queue_new r writer sample.seq sample.data writerQos sample.pubTimeMs now sweepNow
        (took.qos.symm ▸ keepAll) unlimited fresh
      rw [took.sweep] at appended
      exact appended
    rw [queue, List.filter_append, took.queue]
    by_cases own : g = writer
    · subst own
      simp [CachedSample.queued]
    · simp [CachedSample.queued, own, Ne.symm own]

end ReaderImpl

namespace Participant
variable {p q : Participant} {addr : Addr} {w : WriterImpl} {t : WriteTicket} {clock : EnqueueClock}

theorem writeLocked_ticket {pubTimeUs now : U64} {data : Bytes} (found : p.writers.lookup addr = some w)
    (accepted : p.writeLocked addr pubTimeUs data now = some (q, t)) :
    t.qos = w.qos ∧ t.localReaders = p.localReaders w := by
  simp only [writeLocked, found, Option.bind_eq_bind, Option.bind_some, Option.bind_eq_some_iff, Option.pure_def,
    Option.some.injEq, Prod.mk.injEq] at accepted
  obtain ⟨⟨next, sample⟩, published, _, rfl⟩ := accepted
  obtain ⟨_, topic, type, qos, _⟩ := WriterImpl.publish_guid published
  refine ⟨rfl, ?_⟩
  simp only [localReaders, topic, type, qos]

/-- The local deliveries reach each of the collected readers once. -/
theorem offerLocally_lookup (once : t.localReaders.Nodup) :
    (p.offerLocally t clock).readers.lookup addr = (p.readers.lookup addr).map (fun r =>
      if addr ∈ t.localReaders then
        r.step (.enqueue t.writer t.sample.seq t.sample.data t.qos t.sample.pubTimeMs (clock addr).1 (clock addr).2)
      else r) := by
  unfold offerLocally
  generalize t.localReaders = addrs at once
  induction addrs generalizing p with
  | nil => simp
  | cons a rest ih =>
    obtain ⟨absent, once⟩ := List.nodup_cons.mp once
    rw [List.foldl_cons, ih once, enqueueLocal, KeyedList.lookup_modify]
    by_cases here : addr = a
    · subst here
      simp only [if_true, absent, if_false, List.mem_cons, true_or, Option.map_map]
      rfl
    · simp only [here, if_false, List.mem_cons, false_or]

theorem offerLocally_keeps : (p.offerLocally t clock).remote = p.remote ∧ (p.offerLocally t clock).writers = p.writers ∧
    (p.offerLocally t clock).readers.map Prod.fst = p.readers.map Prod.fst := by
  unfold offerLocally
  induction t.localReaders generalizing p with
  | nil => exact ⟨rfl, rfl, rfl⟩
  | cons a rest ih =>
    obtain ⟨remote, writers, keys⟩ := @ih (p.enqueueLocal a t.writer t.qos t.sample (clock a))
    refine ⟨remote, writers, keys.trans ?_⟩
    rw [enqueueLocal, KeyedList.keys_modify]

theorem nodup_localReaders (keys : (p.readers.map Prod.fst).Nodup) : (p.localReaders w).Nodup :=
  keys.sublist (List.filter_sublist.map Prod.fst)

theorem mem_localReaders (keys : (p.readers.map Prod.fst).Nodup) {r : ReaderImpl}
    (found : p.readers.lookup addr = some r) : addr ∈ p.localReaders w ↔
      r.ignoreLocal = false ∧ r.topic = w.topic ∧ r.type = w.type ∧ qosAcceptedByReader r.qos w.qos = true := by
  constructor
  · intro member
    obtain ⟨⟨a, other⟩, inside, rfl⟩ := List.mem_map.mp member
    obtain ⟨there, test⟩ := List.mem_filter.mp inside
    obtain rfl := Option.some.inj (found.symm.trans (KeyedList.lookup_of_mem keys there))
    simpa [and_assoc] using test
  · intro test
    exact List.mem_map.mpr ⟨(addr, r), List.mem_filter.mpr ⟨KeyedList.mem_of_lookup found, by simpa [and_assoc] using test⟩,
      rfl⟩

/-- A peer is a target exactly if a matching reader is known behind it. -/
theorem mem_sendTargets {peer : PeerId} : peer ∈ p.sendTargets w ↔ ∃ entry ∈ p.remote, entry.2.peer = peer ∧
    ∃ ep ∈ entry.2.snap.endpoints, ep.kind = .reader ∧ ep.topic = w.topic ∧ ep.typeName = w.type ∧
      qosAcceptedByReader ep.qos w.qos = true := by
  simp only [sendTargets, List.mem_eraseDups, List.mem_map, List.mem_filter, List.any_eq_true, Bool.and_eq_true,
    decide_eq_true_eq, and_assoc]
  constructor
  · rintro ⟨entry, inside, known, here⟩
    exact ⟨entry, inside, here, known⟩
  · rintro ⟨entry, inside, here, known⟩
    exact ⟨entry, inside, known, here⟩

end Participant

namespace ParticipantImpl
variable {p q : ParticipantImpl} {peer : PeerId} {maxPayload : Nat} {part : List Bytes} {flight : List WriteTicket}
  {wire : List Bytes} {t : WriteTicket}

/-- The tickets `flight` are still to arrive from a peer: of the first one
`part` has arrived, the other frames of all of them are on the wire. -/
structure Awaits (p : ParticipantImpl) (peer : PeerId) (maxPayload : Nat) (part : List Bytes)
    (flight : List WriteTicket) (wire : List Bytes) : Prop where
  bytes : flight.flatMap (fun t => t.frames maxPayload) = part ++ wire
  head : ∀ t ∈ flight.head?, (∃ more, more ≠ [] ∧ t.frames maxPayload = part ++ more) ∧
    p.Gathered peer t.writer t.sample part
  tail : ∀ t ∈ flight.tail, (p.reassembler peer).partials.lookup ⟨t.writer, t.sample.seq⟩ = none
  ended : flight = [] → part = []

namespace Awaits

theorem initial : p.Awaits peer maxPayload [] [] [] :=
  ⟨rfl, fun _ none => by simp at none, fun _ none => by simp at none, fun _ => rfl⟩

/-- Only the reassembler of the peer matters. -/
theorem keep (awaits : p.Awaits peer maxPayload part flight wire) (same : q.reassembler peer = p.reassembler peer) :
    q.Awaits peer maxPayload part flight wire := by
  refine ⟨awaits.bytes, fun t first => ?_, fun t later => ?_, awaits.ended⟩
  · obtain ⟨more, gathered⟩ := awaits.head t first
    exact ⟨more, gathered.keep (by rw [same])⟩
  · rw [same]
    exact awaits.tail t later

theorem sent (awaits : p.Awaits peer maxPayload part flight wire)
    (absent : (p.reassembler peer).partials.lookup ⟨t.writer, t.sample.seq⟩ = none) (frames : t.frames maxPayload ≠ []) :
    p.Awaits peer maxPayload part (flight ++ [t]) (wire ++ t.frames maxPayload) := by
  refine ⟨?_, fun other first => ?_, fun other later => ?_, fun none => by simp at none⟩
  · rw [List.flatMap_append, List.flatMap_singleton, awaits.bytes, List.append_assoc]
  · cases flight with
    | nil =>
      obtain rfl : t = other := Option.some.inj first
      rw [awaits.ended rfl]
      exact ⟨⟨_, frames, rfl⟩, .none absent⟩
    | cons old rest => exact awaits.head other first
  · cases flight with
    | nil => exact absurd later List.not_mem_nil
    | cons old rest =>
      rcases List.mem_append.mp later with before | new
      · exact awaits.tail other before
      · rw [List.mem_singleton.mp new]
        exact absent

/-- Nothing on the wire, nothing to wait for. -/
theorem drained (awaits : p.Awaits peer maxPayload part flight []) : flight = [] := by
  cases flight with
  | nil => rfl
  | cons t rest =>
    obtain ⟨⟨more, unfinished, frames⟩, _⟩ := awaits.head t rfl
    have bytes := awaits.bytes
    rw [List.flatMap_cons, frames, List.append_assoc, List.append_cancel_left_eq, List.append_eq_nil_iff] at bytes
    exact absurd bytes.1 unfinished

end Awaits

/-- The oldest frame on the wire is the last of its ticket, which is then
delivered, or is kept. -/
theorem Awaits.arrive {frame : Bytes} {rest : List Bytes} (room : kHeaderSize + kDataFragBodyFixedSize < maxPayload)
    (limit : maxPayload < 2 ^ 32) (short : ∀ t ∈ flight, t.sample.data.length < 2 ^ 32)
    (keys : flight.Pairwise (fun t other => (⟨t.writer, t.sample.seq⟩ : SampleKey) ≠ ⟨other.writer, other.sample.seq⟩))
    (awaits : p.Awaits peer maxPayload part flight (frame :: rest)) (clocks : Clocks) :
    ∃ t tail, flight = t :: tail ∧ frame ∈ t.frames maxPayload ∧
      ((Acts peer t.writer t.sample.seq t.sample.pubTimeMs (some t.sample.data) clocks p (p.handleBytes peer frame clocks).1 ∧
          (p.handleBytes peer frame clocks).1.Awaits peer maxPayload [] tail rest) ∨
        (Acts peer t.writer t.sample.seq t.sample.pubTimeMs none clocks p (p.handleBytes peer frame clocks).1 ∧
          (p.handleBytes peer frame clocks).1.Awaits peer maxPayload (part ++ [frame]) flight rest)) := by
  cases flight with
  | nil =>
    have bytes := awaits.bytes
    simp at bytes
  | cons t tail =>
    obtain ⟨⟨more, unfinished, frames⟩, gathered⟩ := awaits.head t rfl
    have bytes := awaits.bytes
    rw [List.flatMap_cons, frames, List.append_assoc, List.append_cancel_left_eq] at bytes
    obtain ⟨first, more, rfl⟩ := List.exists_cons_of_ne_nil unfinished
    rw [List.cons_append, List.cons.injEq] at bytes
    obtain ⟨rfl, behind⟩ := bytes
    have idle (q : ParticipantImpl) (delivered : Option Bytes)
        (acts : Acts peer t.writer t.sample.seq t.sample.pubTimeMs delivered clocks p q) (other : WriteTicket)
        (later : other ∈ tail) : (q.reassembler peer).partials.lookup ⟨other.writer, other.sample.seq⟩ = none := by
      rw [acts.others _ (Ne.symm ((List.pairwise_cons.mp keys).1 other later))]
      exact awaits.tail other later
    refine ⟨t, tail, rfl, by rw [frames]; simp, ?_⟩
    rcases gather_next room limit (short t List.mem_cons_self) frames gathered clocks with
      ⟨rfl, acts⟩ | ⟨unfinished, acts, gathered⟩
    · refine Or.inl ⟨acts, behind, fun other here => ?_, fun other later => ?_, fun _ => rfl⟩
      · have member := List.mem_of_mem_head? here
        exact ⟨⟨_, sendSampleTo_ne_nil room limit (short other (List.mem_cons_of_mem _ member)), rfl⟩,
          .none (idle _ _ acts other member)⟩
      · exact idle _ _ acts other (List.mem_of_mem_tail later)
    · refine Or.inr ⟨acts, ?_, fun other here => ?_, idle _ _ acts, fun none => by simp at none⟩
      · rw [List.flatMap_cons, frames, List.append_assoc, List.append_assoc, List.cons_append, behind]
        rfl
      · obtain rfl : t = other := Option.some.inj here
        exact ⟨⟨more, unfinished, by rw [frames, List.append_assoc]; rfl⟩, gathered⟩

theorem Acts.keeps {writer : Guid} {seq pubTimeMs : U64} {delivered : Option Bytes} {clocks : Clocks}
    (acts : Acts peer writer seq pubTimeMs delivered clocks p q) :
    q.remote = p.remote ∧ q.writers = p.writers ∧ q.readers.map Prod.fst = p.readers.map Prod.fst := by
  rw [acts.party]
  cases delivered with
  | none => exact ⟨rfl, rfl, rfl⟩
  | some full =>
    refine ⟨Participant.deliverSample_remote .., ?_⟩
    unfold Participant.deliverSample
    dsimp only
    split
    · exact ⟨rfl, rfl⟩
    · refine ⟨rfl, ?_⟩
      rw [List.map_map]
      rfl

theorem Acts.reassembler {writer : Guid} {seq pubTimeMs : U64} {delivered : Option Bytes} {clocks : Clocks}
    (acts : Acts peer writer seq pubTimeMs delivered clocks p q) {other : PeerId} (differ : other ≠ peer) :
    q.reassembler other = p.reassembler other := by
  rw [ParticipantImpl.reassembler, acts.peers other differ, ParticipantImpl.reassembler]

/-- What a frame of a sample is answered with is what some delivery of the
sample is answered with. -/
theorem replies_frame {frame : Bytes} (room : kHeaderSize + kDataFragBodyFixedSize < maxPayload)
    (limit : maxPayload < 2 ^ 32) (short : t.sample.data.length < 2 ^ 32) (member : frame ∈ t.frames maxPayload)
    (clocks : Clocks) : (p.handleBytes peer frame clocks).2 = [] ∨ ∃ full, (p.handleBytes peer frame clocks).2 =
      (p.deliverSample t.writer ⟨t.sample.seq, t.sample.pubTimeMs, 0, full⟩ clocks.steadyMs clocks.offers).2 := by
  rcases @sendSampleTo_cases t.writer t.sample maxPayload _ room limit short with ⟨whole, frames, decoded⟩ | ⟨splits, frames⟩
  · rw [WriteTicket.frames, Frame.encode, frames, List.mem_singleton] at member
    subst member
    rw [handleBytes_data decoded]
    exact Or.inr ⟨_, rfl⟩
  · rw [WriteTicket.frames, Frame.encode, frames] at member
    obtain ⟨piece, cut, rfl⟩ := List.mem_map.mp member
    obtain ⟨_, _, within, inside⟩ := Fragmenter.mem_pieces splits.positive cut
    rw [handleBytes_dataFrag (Fragmenter.decode_frameOf inside _ short (splits.fits within))]
    cases (p.addFragment peer _ clocks).2 with
    | none => exact Or.inl rfl
    | some full => exact Or.inr ⟨full, rfl⟩

end ParticipantImpl

theorem samplesOf_filter {writer : Guid} {tickets : List WriteTicket} {keep : WriteTicket → Bool}
    (all : ∀ t ∈ tickets, t.writer = writer → keep t = true) :
    samplesOf writer (tickets.filter keep) = samplesOf writer tickets := by
  rw [samplesOf, samplesOf, List.filter_filter]
  refine congrArg _ (List.filter_congr (fun t member => ?_))
  by_cases own : t.writer = writer
  · simp [own, all t member own]
  · simp [own]

theorem mem_samplesOf {tickets : List WriteTicket} {t : WriteTicket} (member : t ∈ tickets) :
    t.sample ∈ samplesOf t.writer tickets :=
  List.mem_map_of_mem (List.mem_filter.mpr ⟨member, decide_eq_true rfl⟩)

/-- The tickets of each writer carry the seqs from 1 on. -/
def Numbered (tickets : List WriteTicket) : Prop :=
  ∀ g, (samplesOf g tickets).map (fun e => e.seq.toNat) = List.range' 1 (samplesOf g tickets).length

namespace Numbered
variable {tickets : List WriteTicket}

theorem le (numbered : Numbered tickets) {t : WriteTicket} (member : t ∈ tickets) :
    t.sample.seq.toNat ≤ (samplesOf t.writer tickets).length := by
  have inside : t.sample.seq.toNat ∈ (samplesOf t.writer tickets).map (fun e => e.seq.toNat) :=
    List.mem_map_of_mem (f := fun e : CachedSample => e.seq.toNat) (mem_samplesOf member)
  rw [numbered t.writer] at inside
  have bounds := List.mem_range'_1.mp inside
  omega

theorem snoc (numbered : Numbered tickets) {t : WriteTicket}
    (next : t.sample.seq.toNat = (samplesOf t.writer tickets).length + 1) : Numbered (tickets ++ [t]) := by
  intro g
  rw [samplesOf_append, samplesOf_singleton]
  split
  · rename_i own
    subst own
    rw [List.map_append, numbered, List.length_append, List.length_singleton, List.range'_concat, List.map_singleton, next]
    congr 2
    omega
  · rw [List.append_nil, numbered]

/-- No two tickets are about the same sample. -/
theorem keys (numbered : Numbered tickets) : tickets.Pairwise (fun t other =>
    (⟨t.writer, t.sample.seq⟩ : SampleKey) ≠ ⟨other.writer, other.sample.seq⟩) := by
  have ascending (g : Guid) : (samplesOf g tickets).Pairwise (fun a b => a.seq.toNat < b.seq.toNat) :=
    @numbered_ascending _ 0 (numbered g)
  clear numbered
  induction tickets with
  | nil => exact List.Pairwise.nil
  | cons t rest ih =>
    have split (g : Guid) : samplesOf g (t :: rest) = samplesOf g [t] ++ samplesOf g rest :=
      @samplesOf_append g [t] rest
    refine List.pairwise_cons.mpr ⟨fun other member same => ?_, ih (fun g => ?_)⟩
    · obtain ⟨writer, seq⟩ := SampleKey.mk.inj same
      have order := ascending t.writer
      rw [split, samplesOf_singleton, if_pos rfl] at order
      have later := (List.pairwise_cons.mp order).1 other.sample (writer ▸ mem_samplesOf member)
      rw [seq] at later
      exact absurd later (Nat.lt_irrefl _)
    · have order := ascending g
      rw [split] at order
      exact (List.pairwise_append.mp order).2.1

end Numbered

namespace Net
variable {ι : Type} {links : Links ι} {start net : Net ι} {s next : Fanout.State ι WriteTicket}
  {i j : ι} {addr : Addr} {w : WriterImpl} {first r : ReaderImpl} {t : WriteTicket}

/-- Each participant finds the writers of the others under their GUIDs. -/
theorem Ready.finds (ready : start.Ready links) (differ : i ≠ j) (found : (start.party i).writers.lookup addr = some w) :
    (start.party j).findRemoteEndpoint w.guid = some w.record := by
  obtain ⟨entry, inside, _, snap⟩ := ready.stored j i differ
  have listed : w.record ∈ (start.party j).remoteEndpoints :=
    List.mem_flatMap.mpr ⟨entry, inside, snap ▸ Participant.writer_record_mem (KeyedList.mem_of_lookup found)⟩
  cases search : (start.party j).findRemoteEndpoint w.guid with
  | none => exact absurd (decide_eq_true rfl) (List.find?_eq_none.mp search w.record listed)
  | some ep =>
    obtain ⟨known, same⟩ := Participant.findRemoteEndpoint_mem search
    rw [ready.named j ep known i addr w found same]

/-- A writer sends to every participant with a reader it is routed to. -/
theorem Ready.targets (ready : start.Ready links) (differ : j ≠ i)
    (reader : (start.party j).readers.lookup addr = some first) (routed : Routed i j w first) :
    links.peerId i j ∈ (start.party i).sendTargets w := by
  obtain ⟨entry, inside, peer, snap⟩ := ready.stored i j differ
  obtain ⟨topic, type, qos, _⟩ := routed
  exact Participant.mem_sendTargets.mpr ⟨entry, inside, peer, first.record,
    snap ▸ Participant.reader_record_mem (KeyedList.mem_of_lookup reader), rfl, topic.symm, type.symm, qos⟩

variable [DecidableEq ι]

def sends (links : Links ι) (i j : ι) (t : WriteTicket) : Bool := j ≠ i && links.peerId i j ∈ t.targets

/-- The tickets of `i` whose samples have reached participant `j`. -/
def taken (s : Fanout.State ι WriteTicket) (i j : ι) : List WriteTicket := if i = j then s.log i else s.got i j

/-- A reader of `j` that was `first` holds what it is entitled to of all that
has reached `j`. -/
def Serves (start : Net ι) (s : Fanout.State ι WriteTicket) (j : ι) (first r : ReaderImpl) : Prop :=
  ∃ offered, first.Took offered r ∧
    (∀ i addr w, (start.party i).writers.lookup addr = some w →
      offered w.guid = if Routed i j w first then samplesOf w.guid (taken s i j) else []) ∧
    ∀ g, offered g ≠ [] → ∃ i addr w, (start.party i).writers.lookup addr = some w ∧ w.guid = g

theorem Serves.keep (serves : start.Serves s j first r)
    (same : ∀ i g, samplesOf g (taken next i j) = samplesOf g (taken s i j)) : start.Serves next j first r := by
  obtain ⟨offered, took, exact_, known⟩ := serves
  exact ⟨offered, took, fun i addr w found => by rw [exact_ i addr w found, same], known⟩

/-- One more sample reaches a participant: a reader entitled to it appends it,
any other stays as it is. -/
theorem Serves.offer (ready : start.Ready links) (found : (start.party i).writers.lookup addr = some w)
    (keepAll : first.qos.history = .keepAll)
    (moved : ∀ a g, samplesOf g (taken next a j) =
      samplesOf g (taken s a j) ++ if a = i ∧ g = w.guid then [t.sample] else [])
    (numbered : t.sample.seq.toNat = (samplesOf w.guid (taken s i j)).length + 1)
    (serves : start.Serves s j first r) (now sweepNow : U64) :
    start.Serves next j first (if Routed i j w first then
      r.step (.enqueue w.guid t.sample.seq t.sample.data w.qos t.sample.pubTimeMs now sweepNow) else r) := by
  obtain ⟨offered, took, exact_, known⟩ := serves
  have mine := exact_ i addr w found
  -- Another writer under the same GUID would be the same writer.
  have only (a : ι) (b : Addr) (v : WriterImpl) (there : (start.party a).writers.lookup b = some v)
      (same : v.guid = w.guid) : a = i ∧ v = w := by
    obtain ⟨rfl, rfl⟩ := ready.distinct a i b addr v w there found same
    exact ⟨rfl, Option.some.inj (there.symm.trans found)⟩
  split
  · rename_i routed
    rw [if_pos routed] at mine
    have after := @ReaderImpl.Took.next first r offered w.guid t.sample w.qos took keepAll (ready.unlimited i addr w found)
      (by rw [mine, numbered]) now sweepNow
    refine ⟨_, after, fun a b v there => ?_, fun g some_ => ?_⟩
    · by_cases same : v.guid = w.guid
      · obtain ⟨rfl, rfl⟩ := only a b v there same
        rw [Function.update_self, if_pos routed, moved, if_pos ⟨rfl, rfl⟩, mine]
      · have other : ¬ (a = i ∧ v.guid = w.guid) := fun both => same both.2
        rw [Function.update_of_ne same, exact_ a b v there, moved, if_neg other, List.append_nil]
    · by_cases same : g = w.guid
      · exact ⟨i, addr, w, found, same.symm⟩
      · rw [Function.update_of_ne same] at some_
        exact known g some_
  · rename_i barred
    refine ⟨offered, took, fun a b v there => ?_, known⟩
    rw [exact_ a b v there]
    split
    · rename_i routed
      have other : ¬ (a = i ∧ v.guid = w.guid) := by
        rintro ⟨rfl, same⟩
        obtain ⟨_, rfl⟩ := only a b v there same
        exact barred routed
      rw [moved, if_neg other, List.append_nil]
    · rfl

/-- The network is where the publishing of tickets has come, channel by
channel, endpoint by endpoint. -/
structure Carries (links : Links ι) (start net : Net ι) (s : Fanout.State ι WriteTicket) : Prop where
  remote : ∀ i, (net.party i).remote = (start.party i).remote
  writer : ∀ i addr w, (net.party i).writers.lookup addr = some w →
    ∃ first, (start.party i).writers.lookup addr = some first ∧ w.record = first.record ∧
      w.seq.toNat = (samplesOf w.guid (s.log i)).length
  origin : ∀ i, ∀ t ∈ s.log i, ∃ addr w, (start.party i).writers.lookup addr = some w ∧ t.writer = w.guid ∧
    t.targets = (start.party i).sendTargets w ∧ t.sample.data.length < 2 ^ 32
  numbered : ∀ i, Numbered (s.log i)
  channel : ∀ i j, j ≠ i → ∃ part,
    (net.party j).Awaits (links.peerId j i) (links.maxPayload i j) part (s.flight i j) (net.wire i j)
  idle : ∀ i j addr w seq, j ≠ i → (start.party i).writers.lookup addr = some w →
    (samplesOf w.guid (s.log i)).length < seq.toNat →
      ((net.party j).reassembler (links.peerId j i)).partials.lookup ⟨w.guid, seq⟩ = none
  silent : ∀ i, net.wire i i = []
  keys : ∀ j, (net.party j).readers.map Prod.fst = (start.party j).readers.map Prod.fst
  reader : ∀ j addr first, (start.party j).readers.lookup addr = some first →
    ∃ r, (net.party j).readers.lookup addr = some r ∧ start.Serves s j first r

theorem Carries.initial (ready : start.Ready links) : Carries links start start {} where
  remote := fun _ => rfl
  writer := fun i addr w found => ⟨w, found, rfl, by rw [ready.unwritten i addr w found]; rfl⟩
  origin := fun _ _ none => absurd none List.not_mem_nil
  numbered := fun _ _ => rfl
  channel := fun i j _ => ⟨[], by rw [ready.silent i j]; exact .initial⟩
  idle := fun i j addr w seq differ found _ => ready.idle i j addr w seq differ found
  silent := fun i => ready.silent i i
  keys := fun _ => rfl
  reader := by
    intro j addr first found
    obtain ⟨empty, fresh⟩ := ready.unread j addr first found
    refine ⟨first, found, fun _ => [], .initial empty fresh, fun i _ w _ => ?_, fun _ none => absurd rfl none⟩
    have nothing : taken ({} : Fanout.State ι WriteTicket) i j = [] := by
      unfold taken
      split <;> rfl
    rw [nothing]
    split <;> rfl

/-- The tickets of one writer all have the same targets. -/
theorem Carries.sends_same (ready : start.Ready links) (carries : Carries links start net s) {other : WriteTicket}
    (member : t ∈ s.log i) (also : other ∈ s.log i) (same : other.writer = t.writer) :
    sends links i j other = sends links i j t := by
  obtain ⟨a, v, found, writer, targets, _⟩ := carries.origin i t member
  obtain ⟨b, w, there, writer', targets', _⟩ := carries.origin i other also
  obtain ⟨_, rfl⟩ := ready.distinct i i a b v w found there (by rw [← writer, ← writer', same])
  obtain rfl := Option.some.inj (found.symm.trans there)
  rw [sends, sends, targets, targets']

/-- What an accepted write does to the network. -/
structure Wrote (links : Links ι) (i : ι) (addr : Addr) (w after : WriterImpl) (t : WriteTicket) (net next : Net ι) :
    Prop where
  found : (net.party i).writers.lookup addr = some w
  record : after.record = w.record
  seq : t.sample.seq = w.seq + 1 ∧ after.seq = w.seq + 1
  own : t.writer = w.guid
  targets : t.targets = (net.party i).sendTargets w
  remote : ∀ k, (next.party k).remote = (net.party k).remote
  writers : (next.party i).writers = KeyedList.modify addr (fun _ => after) (net.party i).writers
  keys : (next.party i).readers.map Prod.fst = (net.party i).readers.map Prod.fst
  readers : ((net.party i).readers.map Prod.fst).Nodup → ∀ a r, (net.party i).readers.lookup a = some r →
    ∃ now sweepNow, (next.party i).readers.lookup a = some (if Routed i i w r then
      r.step (.enqueue w.guid t.sample.seq t.sample.data w.qos t.sample.pubTimeMs now sweepNow) else r)
  others : ∀ k, k ≠ i → next.party k = net.party k
  reassembler : ∀ k peer, (next.party k).reassembler peer = (net.party k).reassembler peer
  wire : ∀ a b, next.wire a b =
    if a = i ∧ sends links i b t = true then net.wire a b ++ t.frames (links.maxPayload i b) else net.wire a b

theorem sendOut_wrote {pubTimeUs now : U64} {data : Bytes} {published : Participant} (clock : EnqueueClock)
    (accepted : (net.party i).writeLocked addr pubTimeUs data now = some (published, t)) :
    ∃ w after, Wrote links i addr w after t net (net.sendOut links i published t clock) := by
  obtain ⟨w, after, found, publish, same, own, targets⟩ := Participant.writeLocked_cases accepted
  obtain ⟨qos, locals⟩ := Participant.writeLocked_ticket found accepted
  obtain ⟨_, _, _, _, moved⟩ := WriterImpl.publish_guid publish
  have sample := (WriterImpl.publish_cases publish).1
  have readers : published.readers = (net.party i).readers := by rw [same]
  obtain ⟨remoteKept, writersKept, keysKept⟩ := @Participant.offerLocally_keeps published t clock
  have here : (net.sendOut links i published t clock).party i =
      { net.party i with toParticipant := published.offerLocally t clock } := Function.update_self ..
  have elsewhere (k : ι) (differ : k ≠ i) : (net.sendOut links i published t clock).party k = net.party k :=
    Function.update_of_ne differ ..
  refine ⟨w, after, found, WriterImpl.publish_record publish, ⟨by rw [sample], moved⟩, own, targets, fun k => ?_, ?_, ?_,
    fun distinct a r there => ?_, elsewhere, fun k peer => ?_, fun a b => ?_⟩
  · by_cases own : k = i
    · subst own
      rw [here, remoteKept, same]
    · rw [elsewhere k own]
  · rw [here, writersKept, same]
  · rw [here, keysKept, readers]
  · have collected : a ∈ t.localReaders ↔ Routed i i w r := by
      rw [locals, Participant.mem_localReaders distinct there, Routed, eq_comm (a := w.topic), eq_comm (a := w.type)]
      tauto
    refine ⟨(clock a).1, (clock a).2, ?_⟩
    rw [here, Participant.offerLocally_lookup (locals ▸ Participant.nodup_localReaders distinct), readers, there,
      Option.map_some, own, qos]
    simp only [collected]
  · by_cases own : k = i
    · subst own
      rw [here]
      rfl
    · rw [elsewhere k own]
  · simp only [sendOut, sends, Bool.and_eq_true, decide_eq_true_eq]

theorem publish_log (k : ι) :
    (Fanout.publish (sends links) s i t).log k = s.log k ++ if k = i then [t] else [] := by
  simp only [Fanout.publish]
  split
  · rfl
  · rw [List.append_nil]

theorem taken_publish (k j : ι) : taken (Fanout.publish (sends links) s i t) k j =
    taken s k j ++ if k = i ∧ k = j then [t] else [] := by
  unfold taken
  by_cases own : k = j
  · simp only [own, if_true, publish_log, and_true]
  · simp only [own, if_false, and_false, List.append_nil, Fanout.publish]

theorem taken_deliver {tail : List WriteTicket} (differ : j ≠ i) (flight : s.flight i j = t :: tail) (k : ι) :
    taken (Fanout.deliver s i j) k j = taken s k j ++ if k = i then [t] else [] := by
  unfold taken
  by_cases here : k = i
  · subst here
    simp [Fanout.deliver, flight, differ.symm]
  · simp [Fanout.deliver, here]

section Write
variable {after : WriterImpl} {published : Net ι} (ready : start.Ready links) (carries : Carries links start net s)
  (wrote : Wrote links i addr w after t net published)
include carries wrote

theorem Carries.wrote_seq (room : (samplesOf t.writer (s.log i ++ [t])).length < 2 ^ 64) :
    t.sample.seq.toNat = (samplesOf t.writer (s.log i)).length + 1 ∧ after.seq = t.sample.seq := by
  obtain ⟨_, _, _, count⟩ := carries.writer i addr w wrote.found
  rw [samplesOf_append, samplesOf_singleton, if_pos rfl, List.length_append, List.length_singleton, wrote.own] at room
  obtain ⟨seq, same⟩ := wrote.seq
  refine ⟨?_, same.trans seq.symm⟩
  rw [seq, wrote.own, ← count]
  rw [← count] at room
  bv_omega

include ready in
theorem Carries.wrote_writer (room : (samplesOf t.writer (s.log i ++ [t])).length < 2 ^ 64) {k : ι} {a : Addr}
    {v : WriterImpl}
    (found : (published.party k).writers.lookup a = some v) :
    ∃ first, (start.party k).writers.lookup a = some first ∧ v.record = first.record ∧
      v.seq.toNat = (samplesOf v.guid ((Fanout.publish (sends links) s i t).log k)).length := by
  obtain ⟨numbered, moved⟩ := carries.wrote_seq wrote room
  rw [publish_log]
  by_cases here : k = i
  · subst here
    rw [wrote.writers, KeyedList.lookup_modify] at found
    by_cases own : a = addr
    · subst own
      rw [if_pos rfl, wrote.found, Option.map_some] at found
      obtain rfl := Option.some.inj found
      obtain ⟨first, before, record, _⟩ := carries.writer k a w wrote.found
      have guid : after.guid = t.writer := (WriterImpl.of_record wrote.record).1.trans wrote.own.symm
      refine ⟨first, before, wrote.record.trans record, ?_⟩
      rw [moved, numbered, if_pos rfl, guid, samplesOf_append, samplesOf_singleton, if_pos rfl, List.length_append,
        List.length_singleton]
    · rw [if_neg own] at found
      obtain ⟨first, before, record, count⟩ := carries.writer k a v found
      obtain ⟨mine, begun, same, _⟩ := carries.writer k addr w wrote.found
      have other : t.writer ≠ v.guid := by
        intro equal
        have guids : first.guid = mine.guid := by
          rw [← (WriterImpl.of_record record).1, ← equal, wrote.own, (WriterImpl.of_record same).1]
        exact own (ready.distinct k k a addr first mine before begun guids).2
      refine ⟨first, before, record, ?_⟩
      rw [if_pos rfl, samplesOf_append, samplesOf_singleton, if_neg other, List.append_nil, count]
  · rw [wrote.others k here] at found
    rw [if_neg here, List.append_nil]
    exact carries.writer k a v found

include ready in
theorem Carries.wrote_channel (short : t.sample.data.length < 2 ^ 32)
    (room : (samplesOf t.writer (s.log i ++ [t])).length < 2 ^ 64) {a b : ι} (differ : b ≠ a) :
    ∃ part, (published.party b).Awaits (links.peerId b a) (links.maxPayload a b) part
      ((Fanout.publish (sends links) s i t).flight a b) (published.wire a b) := by
  obtain ⟨part, awaits⟩ := carries.channel a b differ
  have awaits := awaits.keep (wrote.reassembler b (links.peerId b a))
  refine ⟨part, ?_⟩
  rw [wrote.wire]
  dsimp only [Fanout.publish]
  split
  · rename_i sent
    obtain ⟨rfl, _⟩ := sent
    obtain ⟨first, before, record, _⟩ := carries.writer a addr w wrote.found
    obtain ⟨numbered, _⟩ := carries.wrote_seq wrote room
    have guid : t.writer = first.guid := wrote.own.trans (WriterImpl.of_record record).1
    refine awaits.sent ?_ (ParticipantImpl.sendSampleTo_ne_nil (ready.room a b differ) (ready.limit a b differ) short)
    rw [wrote.reassembler, guid]
    refine carries.idle a b addr first t.sample.seq differ before ?_
    rw [← guid]
    omega
  · exact awaits

include ready in
theorem Carries.wrote_reader (room : (samplesOf t.writer (s.log i ++ [t])).length < 2 ^ 64) {k : ι} {a : Addr}
    (there : (start.party k).readers.lookup a = some first) :
    ∃ r, (published.party k).readers.lookup a = some r ∧
      start.Serves (Fanout.publish (sends links) s i t) k first r := by
  obtain ⟨r, found, serves⟩ := carries.reader k a first there
  by_cases here : k = i
  · subst here
    obtain ⟨mine, before, record, _⟩ := carries.writer k addr w wrote.found
    obtain ⟨numbered, _⟩ := carries.wrote_seq wrote room
    obtain ⟨guid, topic, type, qos⟩ := WriterImpl.of_record record
    have moved (b : ι) (g : Guid) : samplesOf g (taken (Fanout.publish (sends links) s k t) b k) =
        samplesOf g (taken s b k) ++ if b = k ∧ g = mine.guid then [t.sample] else [] := by
      rw [taken_publish, samplesOf_append]
      congr 1
      by_cases own : b = k
      · simp only [own, and_self, if_true, true_and, samplesOf_singleton, wrote.own, guid, eq_comm]
      · simp only [own, false_and, if_false]
        rfl
    obtain ⟨now, sweepNow, lookup⟩ := wrote.readers (carries.keys k ▸ ready.keys k) a r found
    have routed : Routed k k w r ↔ Routed k k mine first := by
      obtain ⟨_, took, _⟩ := serves
      rw [Routed, Routed, took.topic, took.type, took.qos, took.ignoreLocal, topic, type, qos]
    refine ⟨_, lookup, ?_⟩
    simp only [routed, guid, qos]
    exact serves.offer ready before (ready.keepAll k a first there) moved
      (by rw [taken, if_pos rfl, ← guid, ← wrote.own, numbered]) now sweepNow
  · rw [wrote.others k here]
    refine ⟨r, found, serves.keep (fun b g => ?_)⟩
    rw [taken_publish, if_neg (fun both => here (both.2.symm.trans both.1)), List.append_nil]

include ready in
/-- An accepted write publishes its ticket. -/
theorem Carries.publish (short : t.sample.data.length < 2 ^ 32)
    (room : (samplesOf t.writer (s.log i ++ [t])).length < 2 ^ 64) :
    Carries links start published (Fanout.publish (sends links) s i t) where
  remote := fun k => (wrote.remote k).trans (carries.remote k)
  writer := fun _ _ _ found => carries.wrote_writer ready wrote room found
  origin := by
    intro k other member
    rw [publish_log] at member
    rcases List.mem_append.mp member with old | new
    · exact carries.origin k other old
    · split at new
      · rename_i here
        subst here
        obtain rfl := List.mem_singleton.mp new
        obtain ⟨first, before, record, _⟩ := carries.writer k addr w wrote.found
        obtain ⟨guid, topic, type, qos⟩ := WriterImpl.of_record record
        refine ⟨addr, first, before, wrote.own.trans guid, ?_, short⟩
        rw [wrote.targets, Participant.sendTargets, Participant.sendTargets, carries.remote, topic, type, qos]
      · exact absurd new List.not_mem_nil
  numbered := by
    intro k
    rw [publish_log]
    split
    · rename_i here
      subst here
      exact (carries.numbered k).snoc (carries.wrote_seq wrote room).1
    · rw [List.append_nil]
      exact carries.numbered k
  channel := fun _ _ differ => carries.wrote_channel ready wrote short room differ
  idle := by
    intro a b place v seq differ found above
    rw [wrote.reassembler]
    refine carries.idle a b place v seq differ found (Nat.lt_of_le_of_lt ?_ above)
    rw [publish_log, samplesOf_append, List.length_append]
    exact Nat.le_add_right _ _
  silent := by
    intro k
    rw [wrote.wire, if_neg (fun both => by simp [sends, both.1] at both), carries.silent]
  keys := by
    intro k
    by_cases here : k = i
    · subst here
      exact wrote.keys.trans (carries.keys k)
    · rw [wrote.others k here, carries.keys]
  reader := fun _ _ _ there => carries.wrote_reader ready wrote room there

end Write

/-- What the arrival of a frame without replies does to the network, apart
from the receiver's readers and what it gathers from the sender. -/
structure Received (links : Links ι) (i j : ι) (rest : List Bytes) (net next : Net ι) : Prop where
  remote : ∀ k, (next.party k).remote = (net.party k).remote
  writers : ∀ k, (next.party k).writers = (net.party k).writers
  keys : ∀ k, (next.party k).readers.map Prod.fst = (net.party k).readers.map Prod.fst
  others : ∀ k, k ≠ j → next.party k = net.party k
  reassembler : ∀ k peer, ¬ (k = j ∧ peer = links.peerId j i) →
    (next.party k).reassembler peer = (net.party k).reassembler peer
  wire : ∀ a b, next.wire a b = if a = i ∧ b = j then rest else net.wire a b

theorem takeIn_received {frame : Bytes} {rest : List Bytes} {clocks : Clocks} {writer : Guid} {seq pubTimeMs : U64}
    {delivered : Option Bytes} (quiet : ((net.party j).handleBytes (links.peerId j i) frame clocks).2 = [])
    (acts : ParticipantImpl.Acts (links.peerId j i) writer seq pubTimeMs delivered clocks (net.party j)
      ((net.party j).handleBytes (links.peerId j i) frame clocks).1) :
    Received links i j rest net (net.takeIn links i j frame rest clocks) := by
  have here : (net.takeIn links i j frame rest clocks).party j =
      ((net.party j).handleBytes (links.peerId j i) frame clocks).1 := Function.update_self ..
  have elsewhere (k : ι) (differ : k ≠ j) : (net.takeIn links i j frame rest clocks).party k = net.party k :=
    Function.update_of_ne differ ..
  obtain ⟨remote, writers, keys⟩ := acts.keeps
  refine ⟨fun k => ?_, fun k => ?_, fun k => ?_, elsewhere, fun k peer other => ?_, fun a b => ?_⟩
  · by_cases own : k = j
    · rw [own, here, remote]
    · rw [elsewhere k own]
  · by_cases own : k = j
    · rw [own, here, writers]
    · rw [elsewhere k own]
  · by_cases own : k = j
    · rw [own, here, keys]
    · rw [elsewhere k own]
  · by_cases own : k = j
    · rw [own, here, acts.reassembler (fun same => other ⟨own, same⟩)]
    · rw [elsewhere k own]
  · simp only [takeIn, quiet, List.flatMap_nil, List.append_nil, ite_self]

/-- What is left to show of the receiver and its channel from `i`. -/
theorem Carries.receive (ready : start.Ready links) (carries : Carries links start net s) (differ : j ≠ i)
    {received : Net ι} {rest : List Bytes} (step : Received links i j rest net received) (log : next.log = s.log)
    (apart : ∀ a b, ¬ (a = i ∧ b = j) → next.flight a b = s.flight a b ∧ next.got a b = s.got a b)
    (awaits : ∃ part,
      (received.party j).Awaits (links.peerId j i) (links.maxPayload i j) part (next.flight i j) rest)
    (idle : ∀ addr w seq, (start.party i).writers.lookup addr = some w →
      (samplesOf w.guid (s.log i)).length < seq.toNat →
        ((received.party j).reassembler (links.peerId j i)).partials.lookup ⟨w.guid, seq⟩ = none)
    (reader : ∀ addr first, (start.party j).readers.lookup addr = some first →
      ∃ r, (received.party j).readers.lookup addr = some r ∧ start.Serves next j first r) :
    Carries links start received next := by
  have kept {a b : ι} (ab : b ≠ a) (other : ¬ (a = i ∧ b = j)) :
      (received.party b).reassembler (links.peerId b a) = (net.party b).reassembler (links.peerId b a) := by
    refine step.reassembler b _ (fun both => ?_)
    obtain ⟨rfl, same⟩ := both
    exact other ⟨ready.apart b a i ab.symm differ.symm same, rfl⟩
  refine ⟨fun k => (step.remote k).trans (carries.remote k), fun k a v found => ?_, log ▸ carries.origin,
    log ▸ carries.numbered, fun a b ab => ?_, fun a b place v seq ab found above => ?_, fun k => ?_,
    fun k => (step.keys k).trans (carries.keys k), fun k a first there => ?_⟩
  · rw [step.writers] at found
    rw [log]
    exact carries.writer k a v found
  · rw [step.wire]
    split
    · rename_i here
      obtain ⟨rfl, rfl⟩ := here
      exact awaits
    · rename_i other
      obtain ⟨part, before⟩ := carries.channel a b ab
      rw [(apart a b other).1]
      exact ⟨part, before.keep (kept ab other)⟩
  · rw [log] at above
    by_cases here : a = i ∧ b = j
    · obtain ⟨rfl, rfl⟩ := here
      exact idle place v seq found above
    · rw [kept ab here]
      exact carries.idle a b place v seq ab found above
  · rw [step.wire, if_neg (fun both => differ (both.2.symm.trans both.1)), carries.silent]
  · by_cases own : k = j
    · subst own
      exact reader a first there
    · rw [step.others k own]
      obtain ⟨r, found, serves⟩ := carries.reader k a first there
      refine ⟨r, found, serves.keep (fun b g => ?_)⟩
      rw [taken, taken, log, (apart b k (fun both => own both.2)).2]

/-- On arrival the reader's side applies the same rule. -/
theorem Serves.matching (serves : start.Serves s j first r) (differ : j ≠ i) :
    endpointsMatch r.topic r.type r.qos w.record = true ↔ Routed i j w first := by
  obtain ⟨_, took, _⟩ := serves
  rw [took.topic, took.type, took.qos, Routed, endpointsMatch, Bool.and_eq_true, Bool.and_eq_true, decide_eq_true_iff,
    decide_eq_true_iff, and_assoc]
  exact and_congr_right' (and_congr_right' ⟨fun qos => ⟨qos, fun same => absurd same.symm differ⟩, And.left⟩)

theorem Serves.noGap (serves : start.Serves s j first r) (found : (start.party i).writers.lookup addr = some w)
    (routed : Routed i j w first) (numbered : t.sample.seq.toNat = (samplesOf w.guid (taken s i j)).length + 1)
    (data : Bytes) (pubTimeMs now sweepNow : U64) :
    (r.enqueue w.guid t.sample.seq data w.qos pubTimeMs now sweepNow).gapDetected = false := by
  obtain ⟨offered, took, exact_, _⟩ := serves
  have mine := exact_ i addr w found
  rw [if_pos routed] at mine
  exact took.noGap (by rw [mine, numbered]) data pubTimeMs now sweepNow

section Arrive
variable (ready : start.Ready links) (carries : Carries links start net s) (sound : Fanout.Sound (sends links) s)
  (differ : j ≠ i)
include ready carries differ in
/-- Nobody asks for anything when the next sample of a writer arrives. -/
theorem Carries.quiet (found : (start.party i).writers.lookup addr = some w)
    (numbered : t.sample.seq.toNat = (samplesOf w.guid (s.got i j)).length + 1) (data : Bytes) (pubTimeMs now : U64)
    (clock : EnqueueClock) :
    ((net.party j).deliverSample w.guid ⟨t.sample.seq, pubTimeMs, 0, data⟩ now clock).2 = [] := by
  have known : (net.party j).findRemoteEndpoint w.guid = some w.record := by
    rw [← ready.finds differ.symm found, Participant.findRemoteEndpoint, Participant.findRemoteEndpoint, carries.remote]
  simp only [Participant.deliverSample, known]
  refine List.filterMap_eq_nil_iff.mpr (fun entry member => ?_)
  have distinct : ((net.party j).readers.map Prod.fst).Nodup := carries.keys j ▸ ready.keys j
  have here : entry.1 ∈ (start.party j).readers.map Prod.fst := carries.keys j ▸ List.mem_map_of_mem member
  cases there : (start.party j).readers.lookup entry.1 with
  | none => exact absurd here (KeyedList.not_mem_keys there)
  | some first =>
    obtain ⟨r, lookup, serves⟩ := carries.reader j entry.1 first there
    obtain rfl := Option.some.inj (lookup.symm.trans (KeyedList.lookup_of_mem distinct member))
    unfold ReaderImpl.deliver
    split
    · rfl
    · rename_i matching
      have routed := (serves.matching differ).mp (by simpa using matching)
      have silent := serves.noGap found routed (by rw [taken, if_neg differ.symm, numbered]) data pubTimeMs
        (clock entry.1).1 (clock entry.1).2
      simp only [WriterImpl.record, silent, Bool.false_eq_true, if_false, Option.map_none]

include sound

theorem flight_sublist : (s.flight i j).Sublist (s.log i) :=
  (List.sublist_append_right _ _).trans (sound i j ▸ List.filter_sublist)

include ready carries in
/-- The oldest ticket in flight is the next of its writer. -/
theorem Carries.flight_numbered {tail : List WriteTicket} (flight : s.flight i j = t :: tail) :
    t.sample.seq.toNat = (samplesOf t.writer (s.got i j)).length + 1 := by
  have conserved := sound i j
  rw [flight] at conserved
  have sent : t ∈ (s.log i).filter (sends links i j) := conserved ▸ List.mem_append_right _ List.mem_cons_self
  obtain ⟨member, goes⟩ := List.mem_filter.mp sent
  have all : samplesOf t.writer ((s.log i).filter (sends links i j)) = samplesOf t.writer (s.log i) :=
    samplesOf_filter (fun other inside same => (carries.sends_same ready member inside same).trans goes)
  have numbered := carries.numbered i t.writer
  have split : samplesOf t.writer (t :: tail) = samplesOf t.writer [t] ++ samplesOf t.writer tail :=
    @samplesOf_append t.writer [t] tail
  rw [← all, ← conserved, samplesOf_append, split, samplesOf_singleton, if_pos rfl, List.singleton_append] at numbered
  have place := @numbered_head _ _ _ 0 numbered
  omega

include ready carries differ in
/-- A frame that arrives delivers the oldest ticket in flight or is gathered. -/
theorem Carries.arrive {frame : Bytes} {rest : List Bytes} (head : net.wire i j = frame :: rest) (clocks : Clocks) :
    Carries links start (net.takeIn links i j frame rest clocks) s ∨
      Carries links start (net.takeIn links i j frame rest clocks) (Fanout.deliver s i j) := by
  obtain ⟨part, awaits⟩ := carries.channel i j differ
  have sublist := flight_sublist sound (j := j) (i := i)
  have short (t : WriteTicket) (member : t ∈ s.flight i j) : t.sample.data.length < 2 ^ 32 := by
    obtain ⟨_, _, _, _, _, short⟩ := carries.origin i t (sublist.subset member)
    exact short
  rw [head] at awaits
  obtain ⟨t, tail, flight, member, arrived⟩ := awaits.arrive (ready.room i j differ) (ready.limit i j differ) short
    ((carries.numbered i).keys.sublist sublist) clocks
  have inside : t ∈ s.flight i j := flight ▸ List.mem_cons_self
  have logged := sublist.subset inside
  obtain ⟨addr, w, found, own, _⟩ := carries.origin i t logged
  have numbered := carries.flight_numbered ready sound flight
  have quiet : ((net.party j).handleBytes (links.peerId j i) frame clocks).2 = [] := by
    rcases @ParticipantImpl.replies_frame (net.party j) (links.peerId j i) _ t frame (ready.room i j differ)
      (ready.limit i j differ) (short t inside) member clocks with none | ⟨full, same⟩
    · exact none
    · rw [same, own]
      exact carries.quiet ready differ found (own ▸ numbered) full _ _ _
  -- Seqs not yet written stay without partials, the one that arrives is not among them.
  have idle (delivered : Option Bytes) (acts : ParticipantImpl.Acts (links.peerId j i) t.writer t.sample.seq t.sample.pubTimeMs
      delivered clocks (net.party j) ((net.party j).handleBytes (links.peerId j i) frame clocks).1) (place : Addr)
      (v : WriterImpl) (seq : U64) (there : (start.party i).writers.lookup place = some v)
      (above : (samplesOf v.guid (s.log i)).length < seq.toNat) :
      (((net.party j).handleBytes (links.peerId j i) frame clocks).1.reassembler (links.peerId j i)).partials.lookup
        ⟨v.guid, seq⟩ = none := by
    rw [acts.others _ (fun same => ?_)]
    · exact carries.idle i j place v seq differ there above
    · obtain ⟨writer, seqs⟩ := SampleKey.mk.inj same
      have bound := (carries.numbered i).le logged
      rw [writer, seqs] at above
      omega
  have here : (net.takeIn links i j frame rest clocks).party j =
      ((net.party j).handleBytes (links.peerId j i) frame clocks).1 := Function.update_self ..
  rcases arrived with ⟨acts, awaits⟩ | ⟨acts, awaits⟩
  · have left : (Fanout.deliver s i j).flight i j = tail := by simp [Fanout.deliver, flight]
    refine Or.inr (carries.receive ready differ (takeIn_received quiet acts) rfl
      (fun a b other => ⟨if_neg other, if_neg other⟩) ⟨[], ?_⟩ (fun place v seq => here ▸ idle _ acts place v seq) ?_)
    · rw [here, left]
      exact awaits
    · intro place first there
      obtain ⟨r, lookup, serves⟩ := carries.reader j place first there
      have moved (a : ι) (g : Guid) : samplesOf g (taken (Fanout.deliver s i j) a j) =
          samplesOf g (taken s a j) ++ if a = i ∧ g = w.guid then [t.sample] else [] := by
        rw [taken_deliver differ flight, samplesOf_append]
        by_cases same : a = i
        · simp only [same, if_true, true_and, samplesOf_singleton, own, eq_comm]
        · simp only [same, if_false, false_and]
          rfl
      have known : (net.party j).findRemoteEndpoint t.writer = some w.record := by
        rw [own, ← ready.finds differ.symm found, Participant.findRemoteEndpoint, Participant.findRemoteEndpoint,
          carries.remote]
      have offered := serves.offer ready found (ready.keepAll j place first there) moved
        (by rw [taken, if_neg differ.symm, ← own, numbered]) (clocks.offers place).1 (clocks.offers place).2
      rw [here, acts.party]
      dsimp only
      rw [Participant.deliverSample_lookup known, lookup, Option.map_some]
      refine ⟨_, rfl, ?_⟩
      by_cases routed : Routed i j w first
      · rw [ReaderImpl.deliver_step ((serves.matching differ).mpr routed), own]
        rw [if_pos routed] at offered
        exact offered
      · have barred := Bool.eq_false_iff.mpr (mt (serves.matching differ).mp routed)
        rw [if_neg routed] at offered
        simp only [ReaderImpl.deliver, barred, Bool.not_false, if_true]
        exact offered
  · refine Or.inl (carries.receive ready differ (takeIn_received quiet acts) rfl (fun a b other => ⟨rfl, rfl⟩)
      ⟨part ++ [frame], here ▸ awaits⟩ (fun place v seq => here ▸ idle _ acts place v seq) ?_)
    intro place first there
    obtain ⟨r, lookup, serves⟩ := carries.reader j place first there
    exact ⟨r, by rw [here, acts.lookup_none, lookup], serves⟩

end Arrive

theorem written_snoc (events : List (NetEvent ι)) (event : NetEvent ι) (k : ι) :
    start.written links (events ++ [event]) k =
      start.written links events k ++ accepted k (Run.exec (step links) start events) event :=
  Run.log_snoc ..

/-- A step publishes the write it accepts, if any, or moves a frame. -/
theorem Carries.step (ready : start.Ready links) (carries : Carries links start net s) (sound : Fanout.Sound (sends links) s)
    (event : NetEvent ι) (short : ∀ k, ∀ t ∈ accepted k net event, t.sample.data.length < 2 ^ 32)
    (room : ∀ k g, (samplesOf g (s.log k ++ accepted k net event)).length < 2 ^ 64) :
    ∃ next, Carries links start (net.step links event) next ∧ Fanout.Sound (sends links) next ∧
      ∀ k, next.log k = s.log k ++ accepted k net event := by
  cases event with
  | write i addr pubTimeUs data now clock =>
    cases outcome : (net.party i).writeLocked addr pubTimeUs data now with
    | none =>
      have idle (k : ι) : accepted k net (.write i addr pubTimeUs data now clock) = [] := by
        simp [accepted, outcome]
      refine ⟨s, ?_, sound, fun k => by rw [idle, List.append_nil]⟩
      simp only [Net.step, outcome]
      exact carries
    | some result =>
      obtain ⟨published, t⟩ := result
      have mine (k : ι) : accepted k net (.write i addr pubTimeUs data now clock) = if k = i then [t] else [] := by
        by_cases here : k = i
        · simp [accepted, outcome, here]
        · simp [accepted, here, Ne.symm here]
      obtain ⟨w, after, wrote⟩ : ∃ w after, Wrote links i addr w after t net (net.sendOut links i published t clock) :=
        sendOut_wrote clock outcome
      refine ⟨_, ?_, sound.publish i t, fun k => by rw [mine, publish_log]⟩
      simp only [Net.step, outcome]
      have inside : t ∈ accepted i net (.write i addr pubTimeUs data now clock) := by
        rw [mine, if_pos rfl]
        exact List.mem_cons_self
      have enough := room i t.writer
      rw [mine, if_pos rfl] at enough
      exact carries.publish ready wrote (short i t inside) enough
  | arrive i j clocks =>
    have none (k : ι) : s.log k = s.log k ++ accepted k net (.arrive i j clocks) := (List.append_nil _).symm
    cases head : net.wire i j with
    | nil =>
      refine ⟨s, ?_, sound, none⟩
      simp only [Net.step, head]
      exact carries
    | cons frame rest =>
      have differ : j ≠ i := by
        rintro rfl
        rw [carries.silent] at head
        exact absurd head.symm (List.cons_ne_nil _ _)
      simp only [Net.step, head]
      rcases carries.arrive ready sound differ head clocks with gathered | delivered
      · exact ⟨s, gathered, sound, none⟩
      · exact ⟨_, delivered, sound.deliver i j, none⟩

/-- Any run is one of publishing tickets. -/
theorem Carries.exec (ready : start.Ready links) {events : List (NetEvent ι)}
    (short : ∀ i, ∀ t ∈ start.written links events i, t.sample.data.length < 2 ^ 32)
    (room : ∀ i g, (samplesOf g (start.written links events i)).length < 2 ^ 64) :
    ∃ s, Carries links start (Run.exec (Net.step links) start events) s ∧ Fanout.Sound (sends links) s ∧
      ∀ i, s.log i = start.written links events i := by
  induction events using List.reverseRecOn with
  | nil => exact ⟨{}, .initial ready, .initial, fun _ => rfl⟩
  | append_singleton events event ih =>
    simp only [written_snoc] at short room ⊢
    obtain ⟨s, carries, sound, log⟩ := ih (fun i t member => short i t (List.mem_append_left _ member))
      (fun i g => Nat.lt_of_le_of_lt (by rw [samplesOf_append, List.length_append]; exact Nat.le_add_right _ _) (room i g))
    rw [Run.exec_snoc]
    obtain ⟨next, carried, still, more⟩ := carries.step ready sound event
      (fun k t member => short k t (List.mem_append_right _ member)) (fun k g => log k ▸ room k g)
    exact ⟨next, carried, still, fun k => by rw [more, log]⟩

/-- Frames that arrive shorten their channel. -/
theorem step_arrive_wire (net : Net ι) (i j : ι) (clocks : Clocks) :
    (net.step links (.arrive i j clocks)).wire i j = (net.wire i j).tail := by
  cases head : net.wire i j with
  | nil => simp [Net.step, head]
  | cons frame rest => simp [Net.step, head, takeIn]

/-- A channel on which nothing is sent any more runs empty. -/
theorem arrive_all (net : Net ι) (i j : ι) (clocks : Clocks) :
    (Run.exec (Net.step links) net (List.replicate (net.wire i j).length (.arrive i j clocks))).wire i j = [] := by
  generalize left : (net.wire i j).length = n
  induction n generalizing net with
  | zero => exact List.length_eq_zero_iff.mp left
  | succ n ih =>
    rw [List.replicate_succ, Run.exec_cons]
    refine ih _ ?_
    rw [step_arrive_wire, List.length_tail, left, Nat.add_sub_cancel]

/-- Once the channel from a participant has run empty, a reader holds of each
of its writers all samples, in order and once, if the writer is routed to it
and none otherwise. At no time does it hold a sample of any other writer. -/
theorem routes (ready : start.Ready links) {events : List (NetEvent ι)}
    (short : ∀ i, ∀ t ∈ start.written links events i, t.sample.data.length < 2 ^ 32)
    (room : ∀ i g, (samplesOf g (start.written links events i)).length < 2 ^ 64)
    (reader : (start.party j).readers.lookup addr = some first) :
    ∃ final, ((Run.exec (Net.step links) start events).party j).readers.lookup addr = some final ∧
      (∀ i a w, (start.party i).writers.lookup a = some w →
        (j ≠ i → (Run.exec (Net.step links) start events).wire i j = []) →
        final.queue.filter (fun q => q.info.writerGuid = w.guid) =
          if Routed i j w first then
            (samplesOf w.guid (start.written links events i)).map (CachedSample.queued w.guid 0)
          else []) ∧
      ∀ q ∈ final.queue, ∃ i a w, (start.party i).writers.lookup a = some w ∧ q.info.writerGuid = w.guid ∧
        Routed i j w first := by
  obtain ⟨s, carries, sound, log⟩ := Carries.exec ready short room
  obtain ⟨final, lookup, offered, took, exact_, known⟩ := carries.reader j addr first reader
  refine ⟨final, lookup, fun i a w found drained => ?_, fun q member => ?_⟩
  · rw [took.queue, exact_ i a w found]
    split
    · rename_i routed
      refine congrArg _ ?_
      rw [← log, taken]
      split
      · rfl
      · rename_i differ
        have goes (t : WriteTicket) (inside : t ∈ s.log i) (own : t.writer = w.guid) : sends links i j t = true := by
          obtain ⟨b, v, there, writer, targets, _⟩ := carries.origin i t inside
          obtain ⟨_, rfl⟩ := ready.distinct i i b a v w there found (writer.symm.trans own)
          obtain rfl := Option.some.inj (there.symm.trans found)
          simp [sends, targets, Ne.symm differ, ready.targets (Ne.symm differ) reader routed]
        have empty : s.flight i j = [] := by
          obtain ⟨part, awaits⟩ := carries.channel i j (Ne.symm differ)
          rw [drained (Ne.symm differ)] at awaits
          exact awaits.drained
        rw [sound.drained empty, samplesOf_filter goes]
    · rfl
  · have own : q ∈ final.queue.filter (fun other => other.info.writerGuid = q.info.writerGuid) :=
      List.mem_filter.mpr ⟨member, decide_eq_true rfl⟩
    rw [took.queue] at own
    have some_ : offered q.info.writerGuid ≠ [] := fun none => by simp [none] at own
    obtain ⟨i, a, w, found, same⟩ := known _ some_
    refine ⟨i, a, w, found, same.symm, ?_⟩
    by_contra barred
    rw [← same, exact_ i a w found, if_neg barred] at some_
    exact some_ rfl

end Net

def demoGuid (owner : Byte) (kind : EntityKind) (serial : U32) : Guid :=
  makeGuid ⟨List.replicate 12 owner, rfl⟩ kind serial

def demoTalker : WriterImpl := { guid := demoGuid 0 .writer 1, topic := [], type := [], qos := {} }

def demoPublisher : ParticipantImpl where
  owner := demoParty.owner
  guid := demoGuid 0 .participant 0
  writers := [(0, demoTalker)]

def demoSubscriber : ParticipantImpl where
  owner := ⟨List.replicate 12 1, rfl⟩
  guid := demoGuid 1 .participant 0
  readers := [(0, .create (demoGuid 1 .reader 1) [] [] { history := .keepAll } false 0),
    (1, .create (demoGuid 1 .reader 2) [47] [] { history := .keepAll } false 0)]

def demoNet : Net Bool where
  party
    | false => { demoPublisher with remote := [(demoGuid 1 .participant 0, ⟨0, 1, demoSubscriber.snapshot, 0⟩)] }
    | true => { demoSubscriber with remote := [(demoGuid 0 .participant 0, ⟨0, 1, demoPublisher.snapshot, 0⟩)] }

def demoLinks : Links Bool := ⟨fun _ _ => 0, fun _ _ => 61⟩

theorem demoNet_writer {i : Bool} {addr : Addr} {w : WriterImpl} (found : (demoNet.party i).writers.lookup addr = some w) :
    i = false ∧ addr = 0 ∧ w = demoTalker := by
  have member := KeyedList.mem_of_lookup found
  cases i with
  | false => simpa [demoNet, demoPublisher] using member
  | true => exact absurd member List.not_mem_nil

theorem demoNet_reader {i : Bool} {addr : Addr} {r : ReaderImpl} (found : (demoNet.party i).readers.lookup addr = some r) :
    r.qos.history = .keepAll ∧ r.queue = [] ∧ r.rx = fun _ => none := by
  have member := KeyedList.mem_of_lookup found
  cases i with
  | false => exact absurd member List.not_mem_nil
  | true =>
    simp only [demoNet, demoSubscriber, List.mem_cons, Prod.mk.injEq, List.not_mem_nil, or_false] at member
    obtain ⟨_, rfl⟩ | ⟨_, rfl⟩ := member
    · exact ⟨rfl, rfl, rfl⟩
    · exact ⟨rfl, rfl, rfl⟩

theorem demoNet_ready : demoNet.Ready demoLinks where
  stored := by
    intro i j differ
    cases i with
    | false =>
      obtain rfl : j = true := by simpa using differ
      exact ⟨_, List.mem_singleton_self _, rfl, rfl⟩
    | true =>
      obtain rfl : j = false := by simpa using differ
      exact ⟨_, List.mem_singleton_self _, rfl, rfl⟩
  named := by
    intro i ep member j addr w found same
    obtain ⟨_, _, rfl⟩ := demoNet_writer found
    cases i with
    | false =>
      have others : ∀ ep ∈ (demoNet.party false).remoteEndpoints, ep.guid ≠ demoTalker.guid := by decide
      exact absurd same (others ep member)
    | true => exact List.mem_singleton.mp member
  distinct := by
    intro i j a b v w found there _
    obtain ⟨rfl, rfl, _⟩ := demoNet_writer found
    obtain ⟨rfl, rfl, _⟩ := demoNet_writer there
    exact ⟨rfl, rfl⟩
  apart := by decide
  room := by decide
  limit := by decide
  keys := by decide
  unlimited := fun i addr w found => by rw [(demoNet_writer found).2.2]; rfl
  unwritten := fun i addr w found => by rw [(demoNet_writer found).2.2]; rfl
  keepAll := fun i addr r found => (demoNet_reader found).1
  unread := fun i addr r found => (demoNet_reader found).2
  idle := by
    intro i j addr w seq _ _
    cases j <;> rfl
  silent := fun _ _ => rfl

/-- Fourteen bytes in three fragments reach the reader of the topic. -/
theorem routes_fragments :
    let clocks : Clocks := ⟨0, 0, fun _ => (0, 0)⟩
    let events : List (NetEvent Bool) := [.write false 0 5000 demoBytes 0 (fun _ => (0, 0)), .arrive false true clocks,
      .arrive false true clocks, .arrive false true clocks]
    ∃ final, ((Run.exec (Net.step demoLinks) demoNet events).party true).readers.lookup 0 = some final ∧
      final.queue.filter (fun q => q.info.writerGuid = demoTalker.guid) = [⟨demoBytes, ⟨demoTalker.guid, 1, 5⟩, 0⟩] := by
  intro clocks events
  have short : ∀ i, ∀ t ∈ demoNet.written demoLinks events i, t.sample.data.length < 2 ^ 32 := by decide
  have few (i : Bool) : (demoNet.written demoLinks events i).length ≤ 1 := by
    revert i
    decide
  have room (i : Bool) (g : Guid) : (samplesOf g (demoNet.written demoLinks events i)).length < 2 ^ 64 := by
    have fewer := List.length_filter_le (fun t : WriteTicket => t.writer = g) (demoNet.written demoLinks events i)
    have one := few i
    rw [samplesOf, List.length_map]
    omega
  obtain ⟨final, lookup, queues, _⟩ := Net.routes demoNet_ready short room
    (show (demoNet.party true).readers.lookup 0 = some _ from rfl)
  refine ⟨final, lookup, (queues false 0 demoTalker rfl (fun _ => by decide)).trans ?_⟩
  decide

end Mdds
