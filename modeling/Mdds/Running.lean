import Mdds.Lib.Run
import Mdds.Endpoints
import Mdds.ParticipantImpl

namespace Mdds

/-- Where the announce thread is in the body of its loop. -/
inductive AnnouncePhase
  | bumping
  | broadcasting
  | beating
  | parked
  | finished
  deriving DecidableEq

/-- A participant with the calls that are between two of their critical
sections. `greeting` are peers that came up and have not been sent an
announce, `handing` writes that deliver locally, `joining` new readers before
their local replay, `delivering` completed samples before `deliver_sample`,
`replaying` announces before the history replay, each with its peer, the new
readers and whether the matches are to be recomputed, and `notifications` the
calls of `announce_now` still to come. -/
structure Running extends ParticipantImpl where
  greeting : List PeerId := []
  handing : List Participant.WriteTicket := []
  joining : List Addr := []
  delivering : List (PeerId × DataFragBody × Bytes) := []
  replaying : List (PeerId × List EndpointRecord × Bool) := []
  notifications : Nat := 0
  loop : AnnouncePhase := .bumping
  running : Bool := true

/-- One critical section of a call, a callback or the announce thread.
`announceNow` is the notification at the end of a local change and
`periodExpires` the end of the timed wait. -/
inductive Section
  | createWriter (addr : Addr) (topic type : Bytes) (qos : QosProfile) (birthUs : U64)
  | createReader (addr : Addr) (topic type : Bytes) (qos : QosProfile) (ignoreLocal : Bool) (birthUs : U64)
  | destroyWriter (addr : Addr)
  | destroyReader (addr : Addr)
  | addNode (ns name : Bytes)
  | removeNode (ns name : Bytes)
  | announceNow
  | replayLocalHistory (index : Nat) (now : U64)
  | write (addr : Addr) (pubTimeUs : U64) (data : Bytes) (now : U64)
  | handOver (index : Nat) (addr : Addr) (clock : U64 × U64)
  | take (addr : Addr) (now : U64)
  | available (addr : Addr) (now : U64)
  | assertLiveliness (addr : Addr)
  | announceTick (now : U64)
  | broadcastAnnounce
  | sendHeartbeats
  | periodExpires
  | stop
  | peerUp (peer : PeerId)
  | sendAnnounce (index : Nat)
  | peerDown (peer : PeerId)
  | bytes (peer : PeerId) (data : Bytes) (clocks : Clocks)
  | deliverSample (index : Nat) (clocks : Clocks)
  | replayHistory (index : Nat) (now : U64)

/-- The part of `handle_peer_down` that belongs to the reassemblers. -/
def ParticipantImpl.handlePeerDown (p : ParticipantImpl) (peer : PeerId) : ParticipantImpl where
  toParticipant := p.toParticipant.handlePeerDown peer
  reassemblers := KeyedList.erase peer p.reassemblers

/-- `sweep_reassemblers_locked`. -/
def ParticipantImpl.sweepReassemblers (p : ParticipantImpl) (now : U64) : ParticipantImpl :=
  { p with reassemblers := p.reassemblers.map (fun entry => (entry.1, (entry.2.sweepExpired now.toNat).1)) }

namespace Running
variable (s : Running)

def create (owner : GuidPrefix) : Running where
  owner := owner
  guid := makeGuid owner .participant 0

/-- The state of the participant after a call that may be refused. -/
def changed (next : Option Participant) : Running :=
  match next with
  | none => s
  | some party => { s with toParticipant := party, notifications := s.notifications + 1 }

/-- The predicate of `wait_for` in the announce loop. -/
def waitOver : Bool := !s.running

/-- The test at the head of the announce loop. -/
def wake : Running := { s with loop := if s.running then .bumping else .finished }

/-- `announce_cv_.notify_all`: a parked loop evaluates its predicate again and
leaves the wait only if it holds. -/
def announceNow : Running := if s.loop = .parked ∧ s.waitOver then s.wake else s

/-- One section: the state afterwards and the frames handed to `send_frame`,
each with its peer. -/
def step : Section → Running × List (PeerId × Frame)
  | .createWriter addr topic type qos birthUs =>
    if (s.writers.lookup addr).isSome then (s, [])
    else (s.changed (s.createWriter addr topic type qos birthUs), [])
  | .createReader addr topic type qos ignoreLocal birthUs =>
    if (s.readers.lookup addr).isSome then (s, [])
    else
      let next := s.createReader addr topic type qos ignoreLocal birthUs
      ({ s.changed next with joining := if next.isSome then s.joining ++ [addr] else s.joining }, [])
  | .destroyWriter addr => (s.changed (some (s.destroyWriter addr)), [])
  | .destroyReader addr => (s.changed (some (s.destroyReader addr)), [])
  | .addNode ns name => (s.changed (some (s.addNode ns name)), [])
  | .removeNode ns name => (s.changed (some (s.removeNode ns name)), [])
  | .announceNow =>
    if s.notifications = 0 then (s, []) else ({ s.announceNow with notifications := s.notifications - 1 }, [])
  | .replayLocalHistory index now =>
    match s.joining[index]? with
    | none => (s, [])
    | some addr =>
      let history := ((s.readers.lookup addr).map (fun r => s.localReplay r now)).getD []
      let next := history.foldl (fun (p : Participant) item =>
        p.enqueueLocal addr item.1.guid item.1.qos item.2 (now, now)) s.toParticipant
      ({ s with toParticipant := next, joining := s.joining.eraseIdx index }, [])
  | .write addr pubTimeUs data now =>
    match s.writeLocked addr pubTimeUs data now with
    | none => (s, [])
    | some (next, ticket) =>
      ({ s with toParticipant := next, handing := s.handing ++ [ticket] },
        ticket.targets.map (fun peer => (peer, .data ticket.writer ticket.sample (ticket.qos.reliability = .reliable))))
  | .handOver index addr clock =>
    match s.handing[index]? with
    | none => (s, [])
    | some ticket =>
      if addr ∈ ticket.localReaders then
        ({ s with
          toParticipant := s.enqueueLocal addr ticket.writer ticket.qos ticket.sample clock
          handing := s.handing.set index { ticket with localReaders := ticket.localReaders.erase addr } }, [])
      else (s, [])
  | .take addr now => ({ s with readers := KeyedList.modify addr (fun r => (r.take now).2) s.readers }, [])
  | .available addr now => ({ s with readers := KeyedList.modify addr (fun r => (r.available now).2) s.readers }, [])
  | .assertLiveliness addr =>
    match s.writers.lookup addr with
    | none => (s, [])
    | some w => (s, s.peers.map (fun peer => (peer, .heartbeat w.livelinessHeartbeat)))
  | .announceTick now =>
    if s.loop = .bumping then
      ({ s with
        toParticipantImpl := { s.sweepReassemblers now with announceSeq := s.announceSeq + 1 }
        loop := .broadcasting }, [])
    else (s, [])
  | .broadcastAnnounce =>
    if s.loop = .broadcasting then
      ({ s with loop := .beating }, s.peers.map (fun peer => (peer, .announce s.snapshot s.announceSeq)))
    else (s, [])
  | .sendHeartbeats =>
    if s.loop = .beating then
      ({ s with loop := .parked }, s.peers.flatMap (fun peer => s.heartbeats.map (fun body => (peer, .heartbeat body))))
    else (s, [])
  | .periodExpires => (if s.loop = .parked then s.wake else s, [])
  | .stop => ({ s with running := false, notifications := s.notifications + 1 }, [])
  | .peerUp peer => ({ s with toParticipant := s.handlePeerUp peer, greeting := s.greeting ++ [peer] }, [])
  | .sendAnnounce index =>
    match s.greeting[index]? with
    | none => (s, [])
    | some peer => ({ s with greeting := s.greeting.eraseIdx index }, [(peer, .announce s.snapshot s.announceSeq)])
  | .peerDown peer => ({ s with toParticipantImpl := s.toParticipantImpl.handlePeerDown peer }, [])
  | .bytes peer data clocks =>
    match decodeAnnounce data, decodeDataFrag data with
    | some (snap, announceSeq), _ =>
      let (next, rest) := s.handleAnnounce peer snap announceSeq clocks.steadyMs
      ({ s with toParticipant := next, replaying := s.replaying ++ [(peer, rest)] }, [])
    | none, some body =>
      let (next, complete) := s.addFragment peer body clocks
      ({ s with
        toParticipantImpl := next
        delivering := s.delivering ++ (complete.map (fun full => (peer, body, full))).toList }, [])
    | none, none =>
      let (next, frames) := s.handleBytes peer data clocks
      ({ s with toParticipantImpl := next }, frames.map (fun frame => (peer, frame)))
  | .deliverSample index clocks =>
    match s.delivering[index]? with
    | none => (s, [])
    | some (peer, body, full) =>
      let (next, frames) := s.deliver body.writer body.seq body.pubTimeMs full clocks
      ({ s with toParticipantImpl := next, delivering := s.delivering.eraseIdx index },
        frames.map (fun frame => (peer, frame)))
  | .replayHistory index now =>
    match s.replaying[index]? with
    | none => (s, [])
    | some (peer, newReaders, changed) =>
      ({ s with
        toParticipant := if changed then s.recomputeMatches else s.toParticipant
        replaying := s.replaying.eraseIdx index },
        (s.replayHistoryToPeer newReaders now).map (fun frame => (peer, frame)))

end Running

/-- The calls on the endpoints and nodes themselves, and the tick. -/
def Section.alters : Section → Bool
  | .createWriter .. | .createReader .. | .destroyWriter .. | .destroyReader .. | .addNode .. | .removeNode ..
  | .write .. | .announceTick .. => true
  | _ => false

namespace Participant.Lasting
variable {R : Participant → Participant → Prop} (lasting : Lasting R)
include lasting

theorem handleBytes (p : ParticipantImpl) (peer : PeerId) (data : Bytes) (clocks : Clocks) :
    R p.toParticipant (p.handleBytes peer data clocks).1.toParticipant := by
  have same := lasting.refl p.toParticipant
  unfold ParticipantImpl.handleBytes
  split
  · exact same
  · split
    · exact same
    · dsimp only
      split
      · exact lasting.trans (lasting.handleAnnounce ..) (lasting.matched _)
      · exact lasting.handleAnnounce ..
  · split
    · exact same
    · exact lasting.deliverSample ..
  · split
    · exact same
    · dsimp only
      split
      · exact same
      · exact lasting.deliverSample ..
  · exact same
  · split
    · exact same
    · exact lasting.handleHeartbeat ..
  · split
    · exact same
    · exact lasting.handleGap ..
  · exact same

/-- All other sections are outlasted. -/
theorem step {s : Running} {turn : Section} (quiet : turn.alters = false) :
    R s.toParticipant (s.step turn).1.toParticipant := by
  have same := lasting.refl s.toParticipant
  cases turn with
  | createWriter | createReader | destroyWriter | destroyReader | addNode | removeNode | write | announceTick =>
    cases quiet
  | announceNow | periodExpires =>
    simp only [Running.step, Running.announceNow, Running.wake]
    split
    · exact same
    · try split
      all_goals exact same
  | replayLocalHistory index now =>
    simp only [Running.step]
    split
    · exact same
    · exact lasting.replay ..
  | handOver index addr clock =>
    simp only [Running.step]
    split
    · exact same
    · split
      · exact lasting.enqueueLocal ..
      · exact same
  | take addr now => exact lasting.modifyReader _ _ (fun r => .step r (.take now))
  | available addr now => exact lasting.modifyReader _ _ (fun r => .step r (.available now))
  | assertLiveliness | broadcastAnnounce | sendHeartbeats | sendAnnounce =>
    simp only [Running.step]
    split <;> exact same
  | stop => exact same
  | peerUp peer => exact lasting.handlePeerUp ..
  | peerDown peer => exact lasting.handlePeerDown ..
  | bytes peer data clocks =>
    simp only [Running.step]
    split
    · exact lasting.handleAnnounce ..
    · exact same
    · exact lasting.handleBytes ..
  | deliverSample index clocks =>
    simp only [Running.step]
    split
    · exact same
    · exact lasting.deliverSample ..
  | replayHistory index now =>
    simp only [Running.step]
    split
    · exact same
    · dsimp only
      split
      · exact lasting.matched _
      · exact same

end Participant.Lasting

def Frame.announces : Frame → Bool
  | .announce _ _ => true
  | _ => false

theorem Participant.replayHistoryToPeer_sends {p : Participant} {newReaders : List EndpointRecord} {now : U64}
    {frame : Frame} (member : frame ∈ p.replayHistoryToPeer newReaders now) : frame.announces = false := by
  obtain ⟨ep, _, replay⟩ := List.mem_flatMap.mp member
  split at replay
  · exact absurd replay List.not_mem_nil
  · obtain ⟨entry, _, cached⟩ := List.mem_flatMap.mp replay
    obtain ⟨e, _, rfl⟩ := List.mem_map.mp cached
    rfl

theorem Participant.handleAcknack_sends {p : Participant} {body : AckNackBody} {frame : Frame}
    (member : frame ∈ p.handleAcknack body) : frame.announces = false := by
  unfold handleAcknack at member
  split at member
  · rcases List.mem_append.mp member with resent | gap
    · obtain ⟨e, _, rfl⟩ := List.mem_map.mp resent
      rfl
    · obtain ⟨body, _, rfl⟩ := Option.map_eq_some_iff.mp (Option.mem_toList.mp gap)
      rfl
  · exact absurd member List.not_mem_nil

/-- Nothing that arrives is answered with an announce. -/
theorem ParticipantImpl.handleBytes_sends {p : ParticipantImpl} {peer : PeerId} {data : Bytes} {clocks : Clocks}
    {frame : Frame} (member : frame ∈ (p.handleBytes peer data clocks).2) : frame.announces = false := by
  have acknacks {frames : List Frame} (all : ∀ frame ∈ frames, ∃ nack, frame = .acknack nack) (inside : frame ∈ frames) :
      frame.announces = false := by
    obtain ⟨nack, rfl⟩ := all frame inside
    rfl
  unfold handleBytes at member
  split at member
  · exact absurd member List.not_mem_nil
  · split at member
    · exact absurd member List.not_mem_nil
    · exact Participant.replayHistoryToPeer_sends member
  · split at member
    · exact absurd member List.not_mem_nil
    · exact acknacks (fun _ => Participant.deliverSample_sends) member
  · split at member
    · exact absurd member List.not_mem_nil
    · dsimp only at member
      split at member
      · exact absurd member List.not_mem_nil
      · exact acknacks (fun _ => Participant.deliverSample_sends) member
  · cases decoded : decodeAcknack data with
    | none => simp [decoded] at member
    | some body =>
      simp only [decoded, Option.map_some, Option.getD_some] at member
      exact Participant.handleAcknack_sends member
  · split at member
    · exact absurd member List.not_mem_nil
    · exact acknacks (fun _ => Participant.handleHeartbeat_sends) member
  · split at member <;> exact absurd member List.not_mem_nil
  · exact absurd member List.not_mem_nil

namespace Running
variable {s : Running}

/-- How a section comes to hand a frame to `send_frame` for a peer. -/
inductive Sends (s : Running) (peer : PeerId) : Section → Frame → Prop
  | broadcast (phase : s.loop = .broadcasting) (member : peer ∈ s.peers) :
    Sends s peer .broadcastAnnounce (.announce s.snapshot s.announceSeq)
  | greeting {index : Nat} (waiting : s.greeting[index]? = some peer) :
    Sends s peer (.sendAnnounce index) (.announce s.snapshot s.announceSeq)
  | written {addr : Addr} {pubTimeUs now : U64} {data : Bytes} (writer : Guid) (sample : CachedSample) (reliableFlag : Bool) :
    Sends s peer (.write addr pubTimeUs data now) (.data writer sample reliableFlag)
  | asserted {addr : Addr} (body : HeartbeatBody) : Sends s peer (.assertLiveliness addr) (.heartbeat body)
  | periodic (body : HeartbeatBody) : Sends s peer .sendHeartbeats (.heartbeat body)
  | answer {data : Bytes} {clocks : Clocks} {frame : Frame} (member : frame ∈ (s.handleBytes peer data clocks).2) :
    Sends s peer (.bytes peer data clocks) frame
  | delivery {index : Nat} {clocks : Clocks} {body : DataFragBody} {full : Bytes} {frame : Frame}
    (member : frame ∈ (s.deliver body.writer body.seq body.pubTimeMs full clocks).2) :
    Sends s peer (.deliverSample index clocks) frame
  | replay {index : Nat} {now : U64} {newReaders : List EndpointRecord} {frame : Frame}
    (member : frame ∈ s.replayHistoryToPeer newReaders now) : Sends s peer (.replayHistory index now) frame

theorem step_sends {turn : Section} {peer : PeerId} {frame : Frame} (member : (peer, frame) ∈ (s.step turn).2) :
    s.Sends peer turn frame := by
  have sent {α : Type} {f : α → PeerId × Frame} {sources : List α} (inside : (peer, frame) ∈ sources.map f) :
      ∃ source ∈ sources, (f source).1 = peer ∧ (f source).2 = frame := by
    obtain ⟨source, there, same⟩ := List.mem_map.mp inside
    exact ⟨source, there, congrArg Prod.fst same, congrArg Prod.snd same⟩
  cases turn with
  | broadcastAnnounce =>
    simp only [step] at member
    split at member
    · rename_i phase
      obtain ⟨target, inside, rfl, rfl⟩ := sent member
      exact .broadcast phase inside
    · exact absurd member List.not_mem_nil
  | sendAnnounce index =>
    simp only [step] at member
    split at member
    · exact absurd member List.not_mem_nil
    · rename_i target found
      obtain ⟨rfl, rfl⟩ := Prod.mk.inj (List.mem_singleton.mp member)
      exact .greeting found
  | write addr pubTimeUs data now =>
    simp only [step] at member
    split at member
    · exact absurd member List.not_mem_nil
    · obtain ⟨target, _, rfl, rfl⟩ := sent member
      exact .written _ _ _
  | assertLiveliness addr =>
    simp only [step] at member
    split at member
    · exact absurd member List.not_mem_nil
    · obtain ⟨target, _, rfl, rfl⟩ := sent member
      exact .asserted _
  | sendHeartbeats =>
    simp only [step] at member
    split at member
    · obtain ⟨target, _, beats⟩ := List.mem_flatMap.mp member
      obtain ⟨body, _, rfl, rfl⟩ := sent beats
      exact .periodic body
    · exact absurd member List.not_mem_nil
  | bytes origin data clocks =>
    simp only [step] at member
    split at member
    · exact absurd member List.not_mem_nil
    · exact absurd member List.not_mem_nil
    · obtain ⟨answer, inside, rfl, rfl⟩ := sent member
      exact .answer inside
  | deliverSample index clocks =>
    simp only [step] at member
    split at member
    · exact absurd member List.not_mem_nil
    · obtain ⟨answer, inside, rfl, rfl⟩ := sent member
      exact .delivery inside
  | replayHistory index now =>
    simp only [step] at member
    split at member
    · exact absurd member List.not_mem_nil
    · obtain ⟨cached, inside, rfl, rfl⟩ := sent member
      exact .replay inside
  | handOver index addr clock =>
    simp only [step] at member
    split at member
    · exact absurd member List.not_mem_nil
    · split at member <;> exact absurd member List.not_mem_nil
  | createWriter | createReader | announceNow | replayLocalHistory | announceTick =>
    simp only [step] at member
    split at member <;> exact absurd member List.not_mem_nil
  | _ => exact absurd member List.not_mem_nil

/-- An announce goes out by the broadcast or as a greeting, and carries what
the participant is at that moment. -/
theorem step_announces {turn : Section} {peer : PeerId} {frame : Frame}
    (member : (peer, frame) ∈ (s.step turn).2) (announces : frame.announces = true) :
    frame = .announce s.snapshot s.announceSeq ∧
      ((turn = .broadcastAnnounce ∧ s.loop = .broadcasting ∧ peer ∈ s.peers) ∨
        ∃ index, turn = .sendAnnounce index ∧ s.greeting[index]? = some peer) := by
  have silent (other : frame.announces = false) : False := Bool.false_ne_true (other.symm.trans announces)
  cases step_sends member with
  | broadcast phase inside => exact ⟨rfl, Or.inl ⟨rfl, phase, inside⟩⟩
  | greeting waiting => exact ⟨rfl, Or.inr ⟨_, rfl, waiting⟩⟩
  | written | asserted | periodic => cases announces
  | answer inside => exact (silent (ParticipantImpl.handleBytes_sends inside)).elim
  | delivery inside =>
    obtain ⟨nack, rfl⟩ := Participant.deliverSample_sends inside
    exact (silent rfl).elim
  | replay inside => exact (silent (Participant.replayHistoryToPeer_sends inside)).elim

end Running

end Mdds
