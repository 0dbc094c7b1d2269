import Mdds.Endpoints

namespace Mdds

def Participant.create (owner : GuidPrefix) : Participant := { owner, guid := makeGuid owner .participant 0 }

/-- The readers that queue a received sample, as `deliver_sample` finds them. -/
def Participant.queuing (p : Participant) (writer : Guid) (sample : CachedSample) (clock : EnqueueClock) :
    List ReaderImpl :=
  match p.findRemoteEndpoint writer with
  | none => []
  | some writerEp =>
    (p.readers.filter (fun entry => endpointsMatch entry.2.topic entry.2.type entry.2.qos writerEp &&
      (entry.2.enqueue writer sample.seq sample.data writerEp.qos sample.pubTimeMs
        (clock entry.1).1 (clock entry.1).2).queued)).map Prod.snd

/-- A participant with what surrounds its lock: the frames on their way to it
and the calls that have left the lock with work still to do. `handing` are
writes that deliver locally, `joining` new readers before their local replay,
`replaying` announces before the history replay, each with the new readers
and whether the matches are to be recomputed. `created` records every
endpoint ever created and is read by no step. -/
structure Host where
  party : Participant
  inbox : List Frame := []
  handing : List Participant.WriteTicket := []
  joining : List Addr := []
  replaying : List (List EndpointRecord × Bool) := []
  created : List EndpointRecord := []

/-- One critical section of a participant, or what the network does to a
frame sent to it. The times that are read before the lock is taken,
`birthUs` and `pubTimeUs`, are arguments. `sendAnnounce` follows a `peerUp`
at some later moment, and the periodic sections run at any time. -/
inductive HostEvent
  | createWriter (addr : Addr) (topic type : Bytes) (qos : QosProfile) (birthUs : U64)
  | createReader (addr : Addr) (topic type : Bytes) (qos : QosProfile) (ignoreLocal : Bool) (birthUs : U64)
  | destroyWriter (addr : Addr)
  | destroyReader (addr : Addr)
  | replayLocalHistory (index : Nat)
  | write (addr : Addr) (pubTimeUs : U64) (data : Bytes)
  | handOver (index : Nat) (addr : Addr)
  | take (addr : Addr)
  | available (addr : Addr)
  | addNode (ns name : Bytes)
  | removeNode (ns name : Bytes)
  | announceTick
  | broadcastAnnounce
  | sendAnnounce
  | sendHeartbeats
  | assertLiveliness (addr : Addr)
  | peerUp (peer : PeerId)
  | peerDown (peer : PeerId)
  | replayHistory (index : Nat)
  | receive (index : Nat) (peer : PeerId)
  | duplicate (index : Nat)
  | lose (index : Nat)

namespace Host
variable (h : Host)

/-- `handle_bytes` past the decoders. An announce leaves its replay to a
later critical section. -/
def handle (now : U64) (peer : PeerId) : Frame → Host × List Frame
  | .announce snap announceSeq =>
    let result := h.party.handleAnnounce peer snap announceSeq now
    ({ h with party := result.1, replaying := h.replaying ++ [result.2] }, [])
  | .data writer sample _ =>
    let result := h.party.deliverSample writer sample now (fun _ => (now, now))
    ({ h with party := result.1 }, result.2)
  | .acknack body => (h, h.party.handleAcknack body)
  | .heartbeat body =>
    let result := h.party.handleHeartbeat body now
    ({ h with party := result.1 }, result.2)
  | .gap body => ({ h with party := h.party.handleGap body }, [])

/-- One step at time `clock`: the host afterwards and the frames it sends to
the other side, one for each peer handle that leads there. A time read
before the lock lies in the past, and a new object has an unused address. -/
def act (clock : U64) : HostEvent → Host × List Frame
  | .createWriter addr topic type qos birthUs =>
    if clock < birthUs ∨ (h.party.writers.lookup addr).isSome then (h, [])
    else
      match h.party.createWriter addr topic type qos birthUs with
      | none => (h, [])
      | some next =>
        let ep : EndpointRecord := ⟨makeGuid h.party.owner .writer next.entitySerial, .writer, topic, type, qos, birthUs⟩
        ({ h with party := next, created := h.created ++ [ep] }, [])
  | .createReader addr topic type qos ignoreLocal birthUs =>
    if clock < birthUs ∨ (h.party.readers.lookup addr).isSome then (h, [])
    else
      match h.party.createReader addr topic type qos ignoreLocal birthUs with
      | none => (h, [])
      | some next =>
        let ep : EndpointRecord := ⟨makeGuid h.party.owner .reader next.entitySerial, .reader, topic, type, qos, birthUs⟩
        ({ h with party := next, joining := h.joining ++ [addr], created := h.created ++ [ep] }, [])
  | .destroyWriter addr => ({ h with party := h.party.destroyWriter addr }, [])
  | .destroyReader addr => ({ h with party := h.party.destroyReader addr }, [])
  | .replayLocalHistory index =>
    match h.joining[index]? with
    | none => (h, [])
    | some addr =>
      let history := ((h.party.readers.lookup addr).map (fun r => h.party.localReplay r (clock / 1000))).getD []
      let next := history.foldl (fun p item =>
        p.enqueueLocal addr item.1.guid item.1.qos item.2 (clock / 1000, clock / 1000)) h.party
      ({ h with party := next, joining := h.joining.eraseIdx index }, [])
  | .write addr pubTimeUs data =>
    if clock < pubTimeUs then (h, [])
    else
      match h.party.writeLocked addr pubTimeUs data (clock / 1000) with
      | none => (h, [])
      | some (next, ticket) =>
        ({ h with party := next, handing := h.handing ++ [ticket] },
          ticket.targets.map (fun _ => .data ticket.writer ticket.sample (ticket.qos.reliability = .reliable)))
  | .handOver index addr =>
    match h.handing[index]? with
    | none => (h, [])
    | some ticket =>
      if addr ∈ ticket.localReaders then
        ({ h with
          party := h.party.enqueueLocal addr ticket.writer ticket.qos ticket.sample (clock / 1000, clock / 1000)
          handing := h.handing.set index { ticket with localReaders := ticket.localReaders.erase addr } }, [])
      else (h, [])
  | .take addr =>
    ({ h with party := { h.party with
        readers := KeyedList.modify addr (fun r => (r.take (clock / 1000)).2) h.party.readers } }, [])
  | .available addr =>
    ({ h with party := { h.party with
        readers := KeyedList.modify addr (fun r => (r.available (clock / 1000)).2) h.party.readers } }, [])
  | .addNode ns name => ({ h with party := h.party.addNode ns name }, [])
  | .removeNode ns name => ({ h with party := h.party.removeNode ns name }, [])
  | .announceTick => ({ h with party := { h.party with announceSeq := h.party.announceSeq + 1 } }, [])
  | .broadcastAnnounce => (h, h.party.peers.map (fun _ => .announce h.party.snapshot h.party.announceSeq))
  | .sendAnnounce => (h, [.announce h.party.snapshot h.party.announceSeq])
  | .sendHeartbeats => (h, h.party.peers.flatMap (fun _ => h.party.heartbeats.map Frame.heartbeat))
  | .assertLiveliness addr =>
    match h.party.writers.lookup addr with
    | none => (h, [])
    | some w => (h, h.party.peers.map (fun _ => .heartbeat w.livelinessHeartbeat))
  | .peerUp peer => ({ h with party := h.party.handlePeerUp peer }, [])
  | .peerDown peer => ({ h with party := h.party.handlePeerDown peer }, [])
  | .replayHistory index =>
    match h.replaying[index]? with
    | none => (h, [])
    | some (newReaders, changed) =>
      ({ h with
        party := if changed then h.party.recomputeMatches else h.party
        replaying := h.replaying.eraseIdx index }, h.party.replayHistoryToPeer newReaders (clock / 1000))
  | .receive index peer =>
    match h.inbox[index]? with
    | none => (h, [])
    | some frame => { h with inbox := h.inbox.eraseIdx index }.handle (clock / 1000) peer frame
  | .duplicate index => ({ h with inbox := h.inbox ++ h.inbox[index]?.toList }, [])
  | .lose index => ({ h with inbox := h.inbox.eraseIdx index }, [])

/-- What a step queues from the other side. -/
def enqueued (clock : U64) : HostEvent → List (ReaderImpl × CachedSample)
  | .receive index _ =>
    match h.inbox[index]? with
    | some (.data writer sample _) =>
      (h.party.queuing writer sample (fun _ => (clock / 1000, clock / 1000))).map (fun r => (r, sample))
    | _ => []
  | _ => []

end Host

/-- Two participants that share a clock. -/
structure World where
  clock : U64 := 0
  host : Bool → Host

inductive WorldEvent
  | advance (now : U64)
  | act (side : Bool) (event : HostEvent)

namespace World

def start (owner : Bool → GuidPrefix) : World where
  host side := { party := .create (owner side) }

def step (w : World) : WorldEvent → World
  | .advance now => { w with clock := if w.clock ≤ now then now else w.clock }
  | .act side event =>
    let result := (w.host side).act w.clock event
    { w with host := fun s =>
        if s = side then result.1 else { w.host s with inbox := (w.host s).inbox ++ result.2 } }

/-- The samples of remote writers an event queues, each with its reader. -/
def enqueued (w : World) : WorldEvent → List (ReaderImpl × CachedSample)
  | .advance _ => []
  | .act side event => (w.host side).enqueued w.clock event

end World

end Mdds
