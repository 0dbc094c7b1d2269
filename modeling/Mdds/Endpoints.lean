import Mdds.Link

namespace Mdds

/-- The same reader at a later moment: what it had settled stays settled. -/
structure ReaderImpl.Later (r next : ReaderImpl) : Prop where
  record : next.record = r.record
  range : (∀ g, (r.rxState g).InRange) → ∀ g, (next.rxState g).InRange
  settled : (∀ g, (r.rxState g).InRange) → ∀ g s, r.Settled g s → next.Settled g s

namespace ReaderImpl.Later

theorem refl (r : ReaderImpl) : r.Later r := ⟨rfl, id, fun _ _ _ => id⟩

theorem trans {r s t : ReaderImpl} (first : r.Later s) (second : s.Later t) : r.Later t :=
  ⟨second.record.trans first.record, fun range => second.range (first.range range),
    fun range g n old => second.settled (first.range range) g n (first.settled range g n old)⟩

theorem step (r : ReaderImpl) (op : ReaderOp) : r.Later (r.step op) := by
  obtain ⟨guid, topic, type, qos, birth, _⟩ := step_static r op
  refine ⟨?_, fun range => step_inRange range op, fun range g s old => ?_⟩
  · simp only [ReaderImpl.record, guid, topic, type, qos, birth]
  · exact (step_settled range op g s).mpr (Or.inl old)

theorem matched (r : ReaderImpl) (matchedCount : Nat) : r.Later { r with matchedCount } :=
  ⟨rfl, id, fun _ _ _ => id⟩

theorem deliver (r : ReaderImpl) (writerEp : EndpointRecord) (writer : Guid) (sample : CachedSample)
    (clock : U64 × U64) : r.Later (r.deliver writerEp writer sample clock).1 := by
  unfold ReaderImpl.deliver
  split
  · exact refl r
  · exact step r (.enqueue writer sample.seq sample.data writerEp.qos sample.pubTimeMs clock.1 clock.2)

end ReaderImpl.Later

namespace Participant

/-- The records of the endpoints a participant hosts, as it announces them. -/
def records (p : Participant) : List EndpointRecord :=
  p.writers.map (fun entry => entry.2.record) ++ p.readers.map (fun entry => entry.2.record)

theorem writer_record_mem {p : Participant} {entry : Addr × WriterImpl} (member : entry ∈ p.writers) :
    entry.2.record ∈ p.records :=
  List.mem_append_left _ (List.mem_map.mpr ⟨entry, member, rfl⟩)

theorem reader_record_mem {p : Participant} {entry : Addr × ReaderImpl} (member : entry ∈ p.readers) :
    entry.2.record ∈ p.records :=
  List.mem_append_right _ (List.mem_map.mpr ⟨entry, member, rfl⟩)

/-- The endpoints a participant has learned of. -/
def remoteEndpoints (p : Participant) : List EndpointRecord := p.remote.flatMap (fun entry => entry.2.snap.endpoints)

theorem findRemoteEndpoint_mem {p : Participant} {g : Guid} {ep : EndpointRecord}
    (found : p.findRemoteEndpoint g = some ep) : ep ∈ p.remoteEndpoints ∧ ep.guid = g := by
  unfold findRemoteEndpoint at found
  exact ⟨List.mem_of_find?_eq_some found, by simpa using List.find?_some found⟩

theorem findWriter_mem {p : Participant} {g : Guid} {w : WriterImpl} (found : p.findWriter g = some w) :
    (∃ entry ∈ p.writers, entry.2 = w) ∧ w.guid = g := by
  unfold findWriter at found
  exact ⟨List.mem_map.mp (List.mem_of_find?_eq_some found), by simpa using List.find?_some found⟩

/-- A relation between states that outlasts whatever arrives: peers, stamps
and remote knowledge are no part of it, readers may move on, and the matches
may be counted again. -/
structure Lasting (R : Participant → Participant → Prop) : Prop where
  trans : ∀ {p q r}, R p q → R q r → R p r
  bookkeeping : ∀ p peers remote writerLastSeen, R p { p with peers, remote, writerLastSeen }
  readers : ∀ p (f : Addr → ReaderImpl → ReaderImpl), (∀ addr (r : ReaderImpl), r.Later (f addr r)) →
    R p { p with readers := p.readers.map (fun entry => (entry.1, f entry.1 entry.2)) }
  matched : ∀ p, R p p.recomputeMatches

namespace Lasting
variable {R : Participant → Participant → Prop} (lasting : Lasting R)
include lasting

theorem refl (p : Participant) : R p p := lasting.bookkeeping p p.peers p.remote p.writerLastSeen

theorem modifyReader (p : Participant) (addr : Addr) {f : ReaderImpl → ReaderImpl} (later : ∀ r : ReaderImpl, r.Later (f r)) :
    R p { p with readers := KeyedList.modify addr f p.readers } := by
  rw [KeyedList.modify_eq_map]
  refine lasting.readers p (fun key r => if key = addr then f r else r) (fun key r => ?_)
  split
  · exact later r
  · exact .refl r

theorem enqueueLocal (p : Participant) (addr : Addr) (writer : Guid) (qos : QosProfile) (sample : CachedSample)
    (clock : U64 × U64) : R p (p.enqueueLocal addr writer qos sample clock) :=
  lasting.modifyReader p addr (fun r =>
    .step r (.enqueue writer sample.seq sample.data qos sample.pubTimeMs clock.1 clock.2))

theorem replay (addr : Addr) (history : List (WriterImpl × CachedSample)) (now : U64) (p : Participant) :
    R p (history.foldl (fun (p : Participant) item =>
      p.enqueueLocal addr item.1.guid item.1.qos item.2 (now, now)) p) := by
  induction history generalizing p with
  | nil => exact lasting.refl p
  | cons item rest ih => exact lasting.trans (lasting.enqueueLocal p addr ..) (ih _)

theorem handleGap (p : Participant) (body : GapBody) : R p (p.handleGap body) := by
  unfold Participant.handleGap
  split
  · exact lasting.refl p
  · split
    · exact lasting.refl p
    · exact lasting.modifyReader p _ (fun r => .step r (.applyGap body.writer body.gapStart body.gapEnd))

theorem deliverSample (p : Participant) (writer : Guid) (sample : CachedSample) (now : U64) (clock : EnqueueClock) :
    R p (p.deliverSample writer sample now clock).1 := by
  have seen := lasting.bookkeeping p p.peers p.remote (Function.update p.writerLastSeen writer (some now))
  unfold Participant.deliverSample
  dsimp only
  split
  · exact seen
  · rename_i writerEp _
    exact lasting.trans seen (lasting.readers _ (fun addr r => (r.deliver writerEp writer sample (clock addr)).1)
      (fun _ _ => .deliver ..))

theorem handleHeartbeat (p : Participant) (body : HeartbeatBody) (now : U64) : R p (p.handleHeartbeat body now).1 := by
  unfold Participant.handleHeartbeat
  dsimp only
  split <;> exact lasting.bookkeeping ..

theorem handleAnnounce (p : Participant) (peer : PeerId) (snap : ParticipantSnapshot) (announceSeq now : U64) :
    R p (p.handleAnnounce peer snap announceSeq now).1 := by
  unfold Participant.handleAnnounce
  dsimp only
  split
  · exact lasting.bookkeeping ..
  · split <;> exact lasting.bookkeeping ..

theorem handlePeerUp (p : Participant) (peer : PeerId) : R p (p.handlePeerUp peer) := lasting.bookkeeping ..

theorem handlePeerDown (p : Participant) (peer : PeerId) : R p (p.handlePeerDown peer) := by
  unfold Participant.handlePeerDown
  dsimp only
  split
  · exact lasting.trans (lasting.bookkeeping ..) (lasting.matched _)
  · exact lasting.bookkeeping ..

end Lasting

/-- What every call but a creation keeps: endpoints are neither added nor
renamed, and readers only move forward. -/
structure Keeps (p q : Participant) : Prop where
  owner : q.owner = p.owner
  serial : q.entitySerial = p.entitySerial
  writers : ∀ entry ∈ q.writers, ∃ old ∈ p.writers, entry.2.record = old.2.record
  readers : ∀ entry ∈ q.readers, ∃ old ∈ p.readers, old.2.Later entry.2

namespace Keeps
variable {p q : Participant}

/-- Nodes, peers, stamps and remote knowledge are no part of it. -/
theorem bookkeeping (owner : q.owner = p.owner) (serial : q.entitySerial = p.entitySerial) (writers : q.writers = p.writers)
    (readers : q.readers = p.readers) : p.Keeps q :=
  ⟨owner, serial, fun entry member => ⟨entry, writers ▸ member, rfl⟩,
    fun entry member => ⟨entry, readers ▸ member, .refl entry.2⟩⟩

theorem refl (p : Participant) : p.Keeps p := bookkeeping rfl rfl rfl rfl

theorem trans {r : Participant} (first : p.Keeps q) (second : q.Keeps r) : p.Keeps r := by
  refine ⟨second.owner.trans first.owner, second.serial.trans first.serial, fun entry member => ?_,
    fun entry member => ?_⟩
  · obtain ⟨middle, inside, same⟩ := second.writers entry member
    obtain ⟨old, before, earlier⟩ := first.writers middle inside
    exact ⟨old, before, same.trans earlier⟩
  · obtain ⟨middle, inside, later⟩ := second.readers entry member
    obtain ⟨old, before, earlier⟩ := first.readers middle inside
    exact ⟨old, before, earlier.trans later⟩

theorem records_subset (keeps : p.Keeps q) : q.records ⊆ p.records := by
  intro ep member
  rcases List.mem_append.mp member with writer | reader
  · obtain ⟨entry, inside, rfl⟩ := List.mem_map.mp writer
    obtain ⟨old, before, same⟩ := keeps.writers entry inside
    exact same ▸ writer_record_mem before
  · obtain ⟨entry, inside, rfl⟩ := List.mem_map.mp reader
    obtain ⟨old, before, later⟩ := keeps.readers entry inside
    exact later.record ▸ reader_record_mem before

theorem recomputeMatches (p : Participant) : p.Keeps p.recomputeMatches := by
  refine ⟨rfl, rfl, fun entry member => ?_, fun entry member => ?_⟩
  · obtain ⟨old, inside, rfl⟩ := List.mem_map.mp member
    exact ⟨old, inside, rfl⟩
  · obtain ⟨old, inside, rfl⟩ := List.mem_map.mp member
    exact ⟨old, inside, .matched old.2 _⟩

theorem destroyWriter (p : Participant) (addr : Addr) : p.Keeps (p.destroyWriter addr) := by
  refine .trans (q := { p with writers := KeyedList.erase addr p.writers }) ?_ (recomputeMatches _)
  exact ⟨rfl, rfl, fun entry member => ⟨entry, List.mem_of_mem_filter member, rfl⟩, (refl p).readers⟩

theorem destroyReader (p : Participant) (addr : Addr) : p.Keeps (p.destroyReader addr) := by
  refine .trans (q := { p with readers := KeyedList.erase addr p.readers }) ?_ (recomputeMatches _)
  exact ⟨rfl, rfl, (refl p).writers, fun entry member => ⟨entry, List.mem_of_mem_filter member, .refl _⟩⟩

theorem lasting : Lasting Keeps where
  trans := trans
  bookkeeping _ _ _ _ := bookkeeping rfl rfl rfl rfl
  readers p f later := by
    refine ⟨rfl, rfl, (refl p).writers, fun entry member => ?_⟩
    obtain ⟨old, inside, rfl⟩ := List.mem_map.mp member
    exact ⟨old, inside, later ..⟩
  matched := recomputeMatches

end Keeps

/-- Everything the critical section of an accepted write does. -/
theorem writeLocked_cases {p q : Participant} {addr : Addr} {pubTimeUs now : U64} {data : Bytes} {ticket : WriteTicket}
    (accepted : p.writeLocked addr pubTimeUs data now = some (q, ticket)) :
    ∃ w next, p.writers.lookup addr = some w ∧ w.publish pubTimeUs data now = some (next, ticket.sample) ∧
      q = { p with writers := KeyedList.modify addr (fun _ => next) p.writers } ∧ ticket.writer = w.guid ∧
      ticket.targets = p.sendTargets w := by
  simp only [writeLocked, Option.bind_eq_bind, Option.bind_eq_some_iff, Option.pure_def, Option.some.injEq,
    Prod.mk.injEq] at accepted
  obtain ⟨w, found, ⟨next, sample⟩, published, rfl, rfl⟩ := accepted
  obtain ⟨_, topic, type, qos, _⟩ := WriterImpl.publish_guid published
  refine ⟨w, next, found, published, rfl, rfl, ?_⟩
  simp only [sendTargets, topic, type, qos]

theorem Keeps.writeLocked {p q : Participant} {addr : Addr} {pubTimeUs now : U64} {data : Bytes} {ticket : WriteTicket}
    (accepted : p.writeLocked addr pubTimeUs data now = some (q, ticket)) : p.Keeps q := by
  obtain ⟨w, next, found, published, rfl, _, _⟩ := writeLocked_cases accepted
  refine ⟨rfl, rfl, fun entry member => ?_, (refl p).readers⟩
  dsimp only at member
  obtain ⟨old, inside, same | ⟨_, same⟩⟩ := KeyedList.mem_modify member
  · exact ⟨_, inside, same ▸ rfl⟩
  · exact ⟨_, KeyedList.mem_of_lookup found, same ▸ WriterImpl.publish_record published⟩

/-- A creation takes the next serial and adds one endpoint without any past. -/
structure Adds (p : Participant) (ep : EndpointRecord) (q : Participant) : Prop where
  owner : q.owner = p.owner
  serial : q.entitySerial = p.entitySerial + 1
  guid : ep.guid = makeGuid p.owner ep.kind (p.entitySerial + 1)
  writers : ∀ entry ∈ q.writers, entry.2.record = ep ∨ ∃ old ∈ p.writers, entry.2.record = old.2.record
  readers : ∀ entry ∈ q.readers,
    (entry.2.record = ep ∧ entry.2.rx = fun _ => none) ∨ ∃ old ∈ p.readers, old.2.Later entry.2
  remote : q.remote = p.remote

theorem Adds.createWriter {p q : Participant} {addr : Addr} {topic type : Bytes} {qos : QosProfile} {birthUs : U64}
    (accepted : p.createWriter addr topic type qos birthUs = some q) :
    p.Adds ⟨makeGuid p.owner .writer (p.entitySerial + 1), .writer, topic, type, qos, birthUs⟩ q := by
  unfold Participant.createWriter at accepted
  split at accepted
  · simp at accepted
  · cases Option.some.inj accepted
    refine ⟨rfl, rfl, rfl, fun entry member => ?_, fun entry member => Or.inr ?_, rfl⟩
    · obtain ⟨old, inside, same⟩ := (Keeps.recomputeMatches _).writers entry member
      rcases KeyedList.mem_of_mem_emplace inside with new | before
      · exact Or.inl (by rw [same, new]; rfl)
      · exact Or.inr ⟨old, before, same⟩
    · obtain ⟨old, inside, later⟩ := (Keeps.recomputeMatches _).readers entry member
      exact ⟨old, inside, later⟩

theorem Adds.createReader {p q : Participant} {addr : Addr} {topic type : Bytes} {qos : QosProfile} {ignoreLocal : Bool}
    {birthUs : U64} (accepted : p.createReader addr topic type qos ignoreLocal birthUs = some q) :
    p.Adds ⟨makeGuid p.owner .reader (p.entitySerial + 1), .reader, topic, type, qos, birthUs⟩ q := by
  unfold Participant.createReader at accepted
  split at accepted
  · simp at accepted
  · cases Option.some.inj accepted
    refine ⟨rfl, rfl, rfl, fun entry member => Or.inr ?_, fun entry member => ?_, rfl⟩
    · obtain ⟨old, inside, same⟩ := (Keeps.recomputeMatches _).writers entry member
      exact ⟨old, inside, same⟩
    · obtain ⟨old, inside, rfl⟩ := List.mem_map.mp member
      rcases KeyedList.mem_of_mem_emplace inside with rfl | before
      · exact Or.inl ⟨rfl, rfl⟩
      · exact Or.inr ⟨old, before, .matched old.2 _⟩

/-- An announce teaches at most the endpoints it lists. -/
theorem handleAnnounce_remote {p : Participant} {peer : PeerId} {snap : ParticipantSnapshot} {announceSeq now : U64}
    {ep : EndpointRecord} (member : ep ∈ (p.handleAnnounce peer snap announceSeq now).1.remoteEndpoints) :
    ep ∈ p.remoteEndpoints ∨ ep ∈ snap.endpoints := by
  have stored : ep ∈ ({ p with remote := KeyedList.assign snap.participantGuid ⟨peer, announceSeq, snap, now⟩ p.remote } :
      Participant).remoteEndpoints → ep ∈ p.remoteEndpoints ∨ ep ∈ snap.endpoints := by
    intro inside
    obtain ⟨entry, known, listed⟩ := List.mem_flatMap.mp inside
    rcases KeyedList.mem_of_mem_assign known with rfl | before
    · exact Or.inr listed
    · exact Or.inl (List.mem_flatMap.mpr ⟨entry, before, listed⟩)
  unfold handleAnnounce at member
  dsimp only at member
  split at member
  · exact stored member
  · split at member
    · -- A stale announce only moves the liveliness stamp.
      obtain ⟨entry, known, listed⟩ := List.mem_flatMap.mp member
      dsimp only at known
      obtain ⟨old, inside, same | ⟨_, same⟩⟩ := KeyedList.mem_modify known
      · exact Or.inl (List.mem_flatMap.mpr ⟨_, inside, same ▸ listed⟩)
      · rw [same] at listed
        exact Or.inl (List.mem_flatMap.mpr ⟨_, inside, listed⟩)
    · exact stored member

theorem handleGap_remote (p : Participant) (body : GapBody) : (p.handleGap body).remote = p.remote := by
  unfold handleGap
  split
  · rfl
  · split <;> rfl

theorem deliverSample_remote (p : Participant) (writer : Guid) (sample : CachedSample) (now : U64) (clock : EnqueueClock) :
    (p.deliverSample writer sample now clock).1.remote = p.remote := by
  unfold deliverSample
  dsimp only
  split <;> rfl

theorem handleHeartbeat_remote (p : Participant) (body : HeartbeatBody) (now : U64) :
    (p.handleHeartbeat body now).1.remote = p.remote := by
  unfold handleHeartbeat
  dsimp only
  split <;> rfl

theorem deliverSample_sends {p : Participant} {writer : Guid} {sample : CachedSample} {now : U64} {clock : EnqueueClock}
    {frame : Frame} (member : frame ∈ (p.deliverSample writer sample now clock).2) : ∃ nack, frame = .acknack nack := by
  unfold deliverSample at member
  dsimp only at member
  split at member
  · exact absurd member List.not_mem_nil
  · obtain ⟨entry, _, asked⟩ := List.mem_filterMap.mp member
    obtain ⟨nack, _, rfl⟩ := Option.map_eq_some_iff.mp asked
    exact ⟨nack, rfl⟩

theorem handleHeartbeat_sends {p : Participant} {body : HeartbeatBody} {now : U64} {frame : Frame}
    (member : frame ∈ (p.handleHeartbeat body now).2) : ∃ nack, frame = .acknack nack := by
  unfold handleHeartbeat at member
  dsimp only at member
  split at member
  · exact absurd member List.not_mem_nil
  · obtain ⟨entry, _, asked⟩ := List.mem_filterMap.mp member
    obtain ⟨nack, _, rfl⟩ := Option.map_eq_some_iff.mp asked
    exact ⟨nack, rfl⟩

theorem handlePeerDown_remote {p : Participant} {peer : PeerId} {ep : EndpointRecord}
    (member : ep ∈ (p.handlePeerDown peer).remoteEndpoints) : ep ∈ p.remoteEndpoints := by
  have kept : (p.handlePeerDown peer).remote = p.remote.filter (fun entry => entry.2.peer ≠ peer) := by
    unfold handlePeerDown
    dsimp only
    split <;> rfl
  obtain ⟨entry, inside, listed⟩ := List.mem_flatMap.mp member
  rw [kept] at inside
  exact List.mem_flatMap.mpr ⟨entry, List.mem_of_mem_filter inside, listed⟩

end Participant

end Mdds
