import Mdds.Acknack
import Mdds.Lib.KeyedList

namespace Mdds

/-- The address of an endpoint object, the key of the endpoint tables. -/
abbrev Addr := Nat

/-- What travels between participants. A `data` frame stands for one
`send_sample_to` call, that is for one DATA frame or all DATA_FRAG frames of
one sample; the wire does not carry `pubTimeUs`. -/
inductive Frame
  | announce (snap : ParticipantSnapshot) (announceSeq : U64)
  | data (writer : Guid) (sample : CachedSample) (reliableFlag : Bool)
  | acknack (body : AckNackBody)
  | heartbeat (body : HeartbeatBody)
  | gap (body : GapBody)
  deriving DecidableEq

structure RemoteParticipant where
  peer : PeerId
  announceSeq : U64
  snap : ParticipantSnapshot
  lastAnnounceMs : U64

structure Participant where
  owner : GuidPrefix
  guid : Guid
  entitySerial : U32 := 0
  writers : List (Addr × WriterImpl) := []
  readers : List (Addr × ReaderImpl) := []
  nodes : List NodeInfo := []
  peers : List PeerId := []
  remote : List (Guid × RemoteParticipant) := []
  writerLastSeen : Guid → Option U64 := fun _ => none
  announceSeq : U64 := 0

/-- The clock readings of the two lifespan checks each `enqueue` makes. -/
abbrev EnqueueClock := Addr → U64 × U64

def WriterImpl.reliableFlag (w : WriterImpl) : Bool := w.qos.reliability = .reliable

/-- The loop body of `handle_heartbeat`: a matched reliable reader that is
behind asks for what it misses. -/
def ReaderImpl.heartbeatNack (r : ReaderImpl) (writerEp : EndpointRecord) (body : HeartbeatBody) : Option AckNackBody :=
  if r.qos.reliability ≠ .reliable then none
  else if !endpointsMatch r.topic r.type r.qos writerEp then none
  else
    let st := r.nackState body.writer
    if st.1 ≤ body.lastSeq then some ⟨r.guid, body.writer, st.1, st.2⟩ else none

/-- The loop body of `deliver_sample` for one reader: the reader afterwards
and the ACKNACK its gap asks for. -/
def ReaderImpl.deliver (r : ReaderImpl) (writerEp : EndpointRecord) (writer : Guid) (sample : CachedSample)
    (clock : U64 × U64) : ReaderImpl × Option AckNackBody :=
  if !endpointsMatch r.topic r.type r.qos writerEp then (r, none)
  else
    let result := r.enqueue writer sample.seq sample.data writerEp.qos sample.pubTimeMs clock.1 clock.2
    (result.reader,
      if result.gapDetected then some ⟨r.guid, writer, result.gapBase, result.gapBitmap⟩ else none)

namespace Participant
variable (p : Participant)

def findWriter (g : Guid) : Option WriterImpl := (p.writers.map Prod.snd).find? (fun w => w.guid = g)

def findRemoteEndpoint (g : Guid) : Option EndpointRecord :=
  (p.remote.flatMap (fun entry => entry.2.snap.endpoints)).find? (fun ep => ep.guid = g)

/-- The first reader with this guid, as `find_reader_locked` returns it. -/
def readerAddr (g : Guid) : Option Addr := (p.readers.find? (fun entry => entry.2.guid = g)).map Prod.fst

def snapshot : ParticipantSnapshot where
  participantGuid := p.guid
  nodes := p.nodes
  endpoints :=
    p.writers.map (fun entry => ⟨entry.2.guid, .writer, entry.2.topic, entry.2.type, entry.2.qos, entry.2.birthUs⟩) ++
    p.readers.map (fun entry => ⟨entry.2.guid, .reader, entry.2.topic, entry.2.type, entry.2.qos, entry.2.birthUs⟩)

/-- `recompute_matches`: strict compatibility on the writer side, the lenient
rule on the reader side. -/
def recomputeMatches : Participant :=
  let remoteEps := p.remote.flatMap (fun entry => entry.2.snap.endpoints)
  let writerCount (w : WriterImpl) : Nat :=
    remoteEps.countP (fun ep =>
      ep.kind = .reader && ep.topic = w.topic && ep.typeName = w.type && qosCompatible ep.qos w.qos) +
    p.readers.countP (fun entry =>
      entry.2.topic = w.topic && entry.2.type = w.type && qosCompatible entry.2.qos w.qos)
  let readerCount (r : ReaderImpl) : Nat :=
    remoteEps.countP (fun ep => ep.kind = .writer && endpointsMatch r.topic r.type r.qos ep) +
    p.writers.countP (fun entry =>
      entry.2.topic = r.topic && entry.2.type = r.type && qosAcceptedByReader r.qos entry.2.qos)
  { p with
    writers := p.writers.map (fun entry => (entry.1, { entry.2 with matchedCount := writerCount entry.2 }))
    readers := p.readers.map (fun entry => (entry.1, { entry.2 with matchedCount := readerCount entry.2 })) }

/-- `create_writer` up to the returned pointer, `none` for an invalid QoS. -/
def createWriter (addr : Addr) (topic type : Bytes) (qos : QosProfile) (now : U64) : Option Participant :=
  if !qosValid qos then none
  else
    let serial := p.entitySerial + 1
    let w : WriterImpl :=
      { guid := makeGuid p.owner .writer serial, topic, type, qos, birthUs := now }
    some { p with entitySerial := serial, writers := KeyedList.emplace addr w p.writers }.recomputeMatches

/-- `create_reader` up to the history replay, `none` for an invalid QoS. -/
def createReader (addr : Addr) (topic type : Bytes) (qos : QosProfile) (ignoreLocal : Bool) (now : U64) :
    Option Participant :=
  if !qosValid qos then none
  else
    let serial := p.entitySerial + 1
    let r : ReaderImpl :=
      { guid := makeGuid p.owner .reader serial, topic, type, qos, ignoreLocal, birthUs := now }
    some { p with entitySerial := serial, readers := KeyedList.emplace addr r p.readers }.recomputeMatches

def destroyWriter (addr : Addr) : Participant :=
  { p with writers := KeyedList.erase addr p.writers }.recomputeMatches

def destroyReader (addr : Addr) : Participant :=
  { p with readers := KeyedList.erase addr p.readers }.recomputeMatches

def addNode (ns name : Bytes) : Participant :=
  { p with nodes := if ⟨ns, name⟩ ∈ p.nodes then p.nodes else p.nodes ++ [⟨ns, name⟩] }

def removeNode (ns name : Bytes) : Participant := { p with nodes := p.nodes.filter (· ≠ ⟨ns, name⟩) }

/-- `send_targets_locked`: the peers hosting a matching remote reader. -/
def sendTargets (w : WriterImpl) : List PeerId :=
  ((p.remote.filter (fun entry => entry.2.snap.endpoints.any (fun ep =>
    ep.kind = .reader && ep.topic = w.topic && ep.typeName = w.type && qosAcceptedByReader ep.qos w.qos))).map
      (fun entry => entry.2.peer)).eraseDups

/-- The local readers `write_sample` collects under the lock. -/
def localReaders (w : WriterImpl) : List Addr :=
  (p.readers.filter (fun entry => !entry.2.ignoreLocal && entry.2.topic = w.topic && entry.2.type = w.type &&
    qosAcceptedByReader entry.2.qos w.qos)).map Prod.fst

/-- What a `write_sample` call carries out of its critical section. -/
structure WriteTicket where
  writer : Guid
  qos : QosProfile
  sample : CachedSample
  targets : List PeerId
  localReaders : List Addr

/-- The critical section of `write_sample`; `none` when the write is rejected. -/
def writeLocked (addr : Addr) (pubTimeUs : U64) (data : Bytes) (now : U64) : Option (Participant × WriteTicket) := do
  let w ← p.writers.lookup addr
  let (next, sample) ← w.publish pubTimeUs data now
  let published := { p with writers := KeyedList.modify addr (fun _ => next) p.writers }
  pure (published, ⟨w.guid, w.qos, sample, published.sendTargets next, published.localReaders next⟩)

/-- One local `enqueue` of `write_sample` or of `replay_local_history`. -/
def enqueueLocal (addr : Addr) (writer : Guid) (qos : QosProfile) (sample : CachedSample) (clock : U64 × U64) :
    Participant :=
  let offered (r : ReaderImpl) : ReaderImpl :=
    (r.enqueue writer sample.seq sample.data qos sample.pubTimeMs clock.1 clock.2).reader
  { p with readers := KeyedList.modify addr offered p.readers }

/-- The history a late local reader is entitled to replay, per writer. -/
def localReplay (r : ReaderImpl) (now : U64) : List (WriterImpl × CachedSample) :=
  if r.qos.durability ≠ .transientLocal ∨ r.ignoreLocal then []
  else
    (p.writers.filter (fun entry => entry.2.qos.durability = .transientLocal && entry.2.topic = r.topic &&
      entry.2.type = r.type && qosAcceptedByReader r.qos entry.2.qos)).flatMap (fun entry =>
        (entry.2.replayable now).map (fun e => (entry.2, e)))

/-- The critical section of `replay_history_to_peer`. -/
def replayHistoryToPeer (newReaders : List EndpointRecord) (now : U64) : List Frame :=
  newReaders.flatMap (fun ep =>
    if ep.qos.durability ≠ .transientLocal then []
    else
      (p.writers.filter (fun entry => entry.2.qos.durability = .transientLocal && ep.topic = entry.2.topic &&
        ep.typeName = entry.2.type && qosAcceptedByReader ep.qos entry.2.qos)).flatMap (fun entry =>
          (entry.2.replayable now).map (fun e => .data entry.2.guid e entry.2.reliableFlag)))

/-- The first critical section of `handle_announce`: the new state, the reader
endpoints not seen before, and whether the graph changed. A stale or
duplicate announce only refreshes the liveliness stamp. -/
def handleAnnounce (peer : PeerId) (snap : ParticipantSnapshot) (announceSeq now : U64) :
    Participant × List EndpointRecord × Bool :=
  let entry : RemoteParticipant := ⟨peer, announceSeq, snap, now⟩
  let stored := { p with remote := KeyedList.assign snap.participantGuid entry p.remote }
  let readers := snap.endpoints.filter (fun ep => ep.kind = .reader)
  match p.remote.lookup snap.participantGuid with
  | none => (stored, readers, true)
  | some old =>
    if announceSeq ≤ old.announceSeq then
      ({ p with remote := KeyedList.modify snap.participantGuid (fun rp => { rp with lastAnnounceMs := now }) p.remote },
        [], false)
    else
      (stored, readers.filter (fun ep => !old.snap.endpoints.any (fun known => known.guid = ep.guid)),
        !(old.snap.nodes = snap.nodes && old.snap.endpoints.length = snap.endpoints.length &&
          (old.snap.endpoints.zip snap.endpoints).all (fun pair => pair.1.same pair.2)))

/-- `handle_acknack`: retransmissions first, then the GAP. -/
def handleAcknack (body : AckNackBody) : List Frame :=
  match p.findWriter body.writer, p.findRemoteEndpoint body.reader with
  | some w, some readerEp =>
    (w.answerAcknack readerEp body).1.map (fun e => .data body.writer e w.reliableFlag) ++
      ((w.answerGap readerEp body).map Frame.gap).toList
  | _, _ => []

/-- `handle_gap`: applied to the addressed reader only. -/
def handleGap (body : GapBody) : Participant :=
  if body.gapEnd < body.gapStart then p
  else
    match p.readerAddr body.reader with
    | none => p
    | some addr =>
      { p with readers := KeyedList.modify addr (fun r => r.applyGap body.writer body.gapStart body.gapEnd) p.readers }

/-- `handle_heartbeat`: the liveliness stamp, and one ACKNACK for each
matched reliable reader that is behind. -/
def handleHeartbeat (body : HeartbeatBody) (now : U64) : Participant × List Frame :=
  let seen := { p with writerLastSeen := Function.update p.writerLastSeen body.writer (some now) }
  match p.findRemoteEndpoint body.writer with
  | none => (seen, [])
  | some writerEp =>
    (seen, p.readers.filterMap (fun entry => (entry.2.heartbeatNack writerEp body).map Frame.acknack))

/-- `deliver_sample`: data of an undiscovered writer is dropped, otherwise
every matching reader is offered the sample. -/
def deliverSample (writer : Guid) (sample : CachedSample) (now : U64) (clock : EnqueueClock) :
    Participant × List Frame :=
  let seen := { p with writerLastSeen := Function.update p.writerLastSeen writer (some now) }
  match p.findRemoteEndpoint writer with
  | none => (seen, [])
  | some writerEp =>
    ({ seen with readers := p.readers.map (fun entry =>
        (entry.1, (entry.2.deliver writerEp writer sample (clock entry.1)).1)) },
      p.readers.filterMap (fun entry =>
        (entry.2.deliver writerEp writer sample (clock entry.1)).2.map Frame.acknack))

def handlePeerUp (peer : PeerId) : Participant :=
  { p with peers := if peer ∈ p.peers then p.peers else p.peers ++ [peer] }

def handlePeerDown (peer : PeerId) : Participant :=
  let kept := p.remote.filter (fun entry => entry.2.peer ≠ peer)
  let down := { p with peers := p.peers.filter (· ≠ peer), remote := kept }
  if kept.length < p.remote.length then down.recomputeMatches else down

/-- The periodic HEARTBEATs of `send_heartbeats`. -/
def heartbeats : List HeartbeatBody :=
  (p.writers.filter (fun entry => entry.2.qos.reliability = .reliable && !entry.2.history.isEmpty)).map
    (fun entry => ⟨entry.2.guid, entry.2.firstAvail, entry.2.seq⟩)

end Participant

/-- The HEARTBEAT of `assert_liveliness`, sent for any writer. -/
def WriterImpl.livelinessHeartbeat (w : WriterImpl) : HeartbeatBody :=
  ⟨w.guid, if w.history.isEmpty then w.seq else w.firstAvail, w.seq⟩

end Mdds
