import Mdds.Lib.Run
import Mdds.Running

namespace Mdds

/-- Two states that agree on who is up and what the others announced. -/
structure Participant.SameGraph (p q : Participant) : Prop where
  peers : q.peers = p.peers
  remote : q.remote = p.remote

namespace Participant.SameGraph
variable {p q : Participant}

theorem refl (p : Participant) : p.SameGraph p := ⟨rfl, rfl⟩

theorem trans {r : Participant} (first : p.SameGraph q) (second : q.SameGraph r) : p.SameGraph r :=
  ⟨second.peers.trans first.peers, second.remote.trans first.remote⟩

theorem deliverSample (p : Participant) (writer : Guid) (sample : CachedSample) (now : U64) (clock : EnqueueClock) :
    p.SameGraph (p.deliverSample writer sample now clock).1 := by
  refine ⟨?_, deliverSample_remote ..⟩
  unfold Participant.deliverSample
  dsimp only
  split <;> rfl

theorem handleHeartbeat (p : Participant) (body : HeartbeatBody) (now : U64) :
    p.SameGraph (p.handleHeartbeat body now).1 := by
  refine ⟨?_, handleHeartbeat_remote ..⟩
  unfold Participant.handleHeartbeat
  dsimp only
  split <;> rfl

end Participant.SameGraph

/-- Two states that moreover have heard the same writers at the same times. -/
structure Participant.SameOthers (p q : Participant) : Prop extends p.SameGraph q where
  writerLastSeen : q.writerLastSeen = p.writerLastSeen

namespace Participant.SameOthers
variable {p q : Participant}

theorem refl (p : Participant) : p.SameOthers p := ⟨.refl p, rfl⟩

theorem trans {r : Participant} (first : p.SameOthers q) (second : q.SameOthers r) : p.SameOthers r :=
  ⟨first.toSameGraph.trans second.toSameGraph, second.writerLastSeen.trans first.writerLastSeen⟩

theorem replay (addr : Addr) (history : List (WriterImpl × CachedSample)) (now : U64) (p : Participant) :
    p.SameOthers (history.foldl (fun (p : Participant) item =>
      p.enqueueLocal addr item.1.guid item.1.qos item.2 (now, now)) p) := by
  induction history generalizing p with
  | nil => exact refl p
  | cons item rest ih =>
    have first : p.SameOthers (p.enqueueLocal addr item.1.guid item.1.qos item.2 (now, now)) := ⟨⟨rfl, rfl⟩, rfl⟩
    exact first.trans (ih _)

theorem createWriter {addr : Addr} {topic type : Bytes} {qos : QosProfile} {birthUs : U64}
    (accepted : p.createWriter addr topic type qos birthUs = some q) : p.SameOthers q := by
  unfold Participant.createWriter at accepted
  split at accepted
  · exact absurd accepted (Option.some_ne_none q).symm
  · cases Option.some.inj accepted
    exact ⟨⟨rfl, rfl⟩, rfl⟩

theorem createReader {addr : Addr} {topic type : Bytes} {qos : QosProfile} {ignoreLocal : Bool} {birthUs : U64}
    (accepted : p.createReader addr topic type qos ignoreLocal birthUs = some q) : p.SameOthers q := by
  unfold Participant.createReader at accepted
  split at accepted
  · exact absurd accepted (Option.some_ne_none q).symm
  · cases Option.some.inj accepted
    exact ⟨⟨rfl, rfl⟩, rfl⟩

theorem writeLocked {addr : Addr} {pubTimeUs now : U64} {data : Bytes} {ticket : WriteTicket}
    (accepted : p.writeLocked addr pubTimeUs data now = some (q, ticket)) : p.SameOthers q := by
  obtain ⟨_, _, _, _, rfl, _⟩ := writeLocked_cases accepted
  exact ⟨⟨rfl, rfl⟩, rfl⟩

theorem handleGap (p : Participant) (body : GapBody) : p.SameOthers (p.handleGap body) := by
  unfold Participant.handleGap
  split
  · exact refl p
  · split
    · exact refl p
    · exact ⟨⟨rfl, rfl⟩, rfl⟩

end Participant.SameOthers

/-- An announce not newer than the stored one only moves the liveliness
stamp, any other is stored under the peer it came from. -/
theorem Participant.handleAnnounce_cases (p : Participant) (peer : PeerId) (snap : ParticipantSnapshot)
    (announceSeq now : U64) :
    (p.handleAnnounce peer snap announceSeq now).1.peers = p.peers ∧
      (((p.remote.lookup snap.participantGuid).all (fun old => old.announceSeq < announceSeq) = false ∧
          (p.handleAnnounce peer snap announceSeq now).2 = ([], false) ∧
          (p.handleAnnounce peer snap announceSeq now).1.remote = KeyedList.modify snap.participantGuid
            (fun rp => { rp with lastAnnounceMs := now }) p.remote) ∨
        ((p.remote.lookup snap.participantGuid).all (fun old => old.announceSeq < announceSeq) = true ∧
          (p.handleAnnounce peer snap announceSeq now).1.remote =
            KeyedList.assign snap.participantGuid ⟨peer, announceSeq, snap, now⟩ p.remote)) := by
  unfold handleAnnounce
  dsimp only
  cases known : p.remote.lookup snap.participantGuid with
  | none => exact ⟨rfl, Or.inr ⟨rfl, rfl⟩⟩
  | some old =>
    by_cases stale : announceSeq ≤ old.announceSeq
    · have early : ¬ old.announceSeq < announceSeq := BitVec.not_lt.mpr stale
      simp only [stale, if_true, Option.all_some, early, decide_false]
      exact ⟨trivial, Or.inl ⟨trivial, trivial, trivial⟩⟩
    · have later : old.announceSeq < announceSeq := BitVec.not_le.mp stale
      simp only [stale, if_false, Option.all_some, later, decide_true]
      exact ⟨trivial, Or.inr ⟨trivial, trivial⟩⟩

/-- The peers that hold a reassembler. -/
def ParticipantImpl.gathering (p : ParticipantImpl) : List PeerId := p.reassemblers.map Prod.fst

/-- A frame that is neither an announce nor a fragment attributes nothing. -/
theorem ParticipantImpl.handleBytes_sameGraph (p : ParticipantImpl) (peer : PeerId) {data : Bytes} (clocks : Clocks)
    (noAnnounce : decodeAnnounce data = none) (noFragment : decodeDataFrag data = none) :
    p.SameGraph (p.handleBytes peer data clocks).1.toParticipant ∧
      (p.handleBytes peer data clocks).1.gathering = p.gathering := by
  have same : p.SameGraph p.toParticipant ∧ p.gathering = p.gathering := ⟨.refl _, rfl⟩
  unfold handleBytes
  rw [noAnnounce, noFragment]
  split
  · exact same
  · exact same
  · split
    · exact same
    · exact ⟨.deliverSample .., rfl⟩
  · exact same
  · exact same
  · split
    · exact same
    · exact ⟨.handleHeartbeat .., rfl⟩
  · split
    · exact same
    · exact ⟨(Participant.SameOthers.handleGap ..).toSameGraph, rfl⟩
  · exact same

/-- The peer for which a section is run by a transport. -/
def Section.caller : Section → Option PeerId
  | peerUp peer => some peer
  | peerDown peer => some peer
  | bytes peer _ _ => some peer
  | _ => none

namespace Running
variable {s : Running}

/-- Outside the callbacks of the transports and the delivery of what they
completed nothing is learned of others. -/
theorem step_sameOthers {turn : Section} (own : turn.caller = none)
    (unheard : ∀ index clocks, turn ≠ .deliverSample index clocks) :
    s.SameOthers (s.step turn).1.toParticipant ∧ (s.step turn).1.gathering = s.gathering := by
  have same : s.SameOthers s.toParticipant ∧ s.gathering = s.gathering := ⟨.refl _, rfl⟩
  cases turn with
  | peerUp | peerDown | bytes => cases own
  | createWriter addr topic type qos birthUs =>
    simp only [step]
    split
    · exact same
    · cases accepted : s.toParticipant.createWriter addr topic type qos birthUs with
      | none => exact same
      | some q => exact ⟨.createWriter accepted, rfl⟩
  | createReader addr topic type qos ignoreLocal birthUs =>
    simp only [step]
    split
    · exact same
    · cases accepted : s.toParticipant.createReader addr topic type qos ignoreLocal birthUs with
      | none => exact same
      | some q => exact ⟨.createReader accepted, rfl⟩
  | destroyWriter | destroyReader | addNode | removeNode => exact ⟨⟨⟨rfl, rfl⟩, rfl⟩, rfl⟩
  | announceNow =>
    simp only [step, announceNow]
    split
    · exact same
    · split <;> exact same
  | replayLocalHistory index now =>
    simp only [step]
    split
    · exact same
    · exact ⟨.replay .., rfl⟩
  | write addr pubTimeUs data now =>
    simp only [step]
    split
    · exact same
    · rename_i accepted
      exact ⟨.writeLocked accepted, rfl⟩
  | handOver index addr clock =>
    simp only [step]
    split
    · exact same
    · split
      · exact ⟨⟨⟨rfl, rfl⟩, rfl⟩, rfl⟩
      · exact same
  | take | available | stop => exact ⟨⟨⟨rfl, rfl⟩, rfl⟩, rfl⟩
  | assertLiveliness addr =>
    simp only [step]
    split <;> exact same
  | announceTick now =>
    simp only [step]
    split
    · refine ⟨⟨⟨rfl, rfl⟩, rfl⟩, ?_⟩
      simp only [ParticipantImpl.gathering, ParticipantImpl.sweepReassemblers, List.map_map]
      rfl
    · exact same
  | broadcastAnnounce =>
    simp only [step]
    split <;> exact same
  | sendHeartbeats =>
    simp only [step]
    split <;> exact same
  | periodExpires =>
    simp only [step]
    split <;> exact same
  | sendAnnounce index =>
    simp only [step]
    split <;> exact same
  | deliverSample => exact absurd rfl (unheard _ _)
  | replayHistory index now =>
    simp only [step]
    split
    · exact same
    · dsimp only
      split
      · exact ⟨⟨⟨rfl, rfl⟩, rfl⟩, rfl⟩
      · exact same

/-- Outside the callbacks of the transports nothing is attributed to a peer. -/
theorem step_sameGraph {turn : Section} (own : turn.caller = none) :
    s.SameGraph (s.step turn).1.toParticipant ∧ (s.step turn).1.gathering = s.gathering := by
  by_cases delivers : ∃ index clocks, turn = .deliverSample index clocks
  · obtain ⟨index, clocks, rfl⟩ := delivers
    simp only [step]
    split
    · exact ⟨.refl _, rfl⟩
    · exact ⟨.deliverSample .., rfl⟩
  · obtain ⟨same, gathering⟩ := s.step_sameOthers own (fun index clocks is => delivers ⟨index, clocks, is⟩)
    exact ⟨same.toSameGraph, gathering⟩

theorem mem_peers_peerUp {peer other : PeerId} :
    other ∈ (s.step (.peerUp peer)).1.peers ↔ other = peer ∨ other ∈ s.peers := by
  simp only [step, Participant.handlePeerUp]
  split
  · rename_i already
    exact ⟨Or.inr, fun member => member.elim (fun same => same ▸ already) id⟩
  · rw [List.mem_append, List.mem_singleton, or_comm]

theorem step_peerDown_remote {peer : PeerId} :
    (s.step (.peerDown peer)).1.remote = s.remote.filter (fun entry => entry.2.peer ≠ peer) := by
  simp only [step, ParticipantImpl.handlePeerDown, Participant.handlePeerDown]
  split <;> rfl

theorem mem_peers_peerDown {peer other : PeerId} :
    other ∈ (s.step (.peerDown peer)).1.peers ↔ other ≠ peer ∧ other ∈ s.peers := by
  have filtered : (s.step (.peerDown peer)).1.peers = s.peers.filter (· ≠ peer) := by
    simp only [step, ParticipantImpl.handlePeerDown, Participant.handlePeerDown]
    split <;> rfl
  rw [filtered, List.mem_filter, decide_eq_true_eq, and_comm]

/-- The frame leaves something behind under the peer it came from: it is an
announce newer than the stored one, or a fragment. -/
def attributes (s : Running) (data : Bytes) : Bool :=
  match decodeAnnounce data, decodeDataFrag data with
  | some (snap, announceSeq), _ => (s.remote.lookup snap.participantGuid).all (fun old => old.announceSeq < announceSeq)
  | none, some _ => true
  | none, none => false

/-- What a frame does to the state kept under peers. -/
theorem step_bytes (peer : PeerId) (data : Bytes) (clocks : Clocks) :
    (s.step (.bytes peer data clocks)).1.peers = s.peers ∧
      ((s.attributes data = false ∧ (s.step (.bytes peer data clocks)).1.gathering = s.gathering ∧
          (s.step (.bytes peer data clocks)).1.remote.map (fun entry => entry.2.peer) =
            s.remote.map (fun entry => entry.2.peer)) ∨
        (s.attributes data = true ∧ (s.step (.bytes peer data clocks)).1.gathering = s.gathering ∧
          ∃ guid entry, entry.peer = peer ∧
            (s.step (.bytes peer data clocks)).1.remote = KeyedList.assign guid entry s.remote) ∨
        (s.attributes data = true ∧ (s.step (.bytes peer data clocks)).1.remote = s.remote ∧
          ∃ r, (s.step (.bytes peer data clocks)).1.reassemblers = KeyedList.assign peer r s.reassemblers)) := by
  simp only [step, attributes]
  cases announce : decodeAnnounce data with
  | some content =>
    obtain ⟨snap, announceSeq⟩ := content
    obtain ⟨peers, ⟨stale, _, stamped⟩ | ⟨fresh, stored⟩⟩ :=
      s.toParticipant.handleAnnounce_cases peer snap announceSeq clocks.steadyMs
    · refine ⟨peers, Or.inl ⟨stale, rfl, ?_⟩⟩
      rw [stamped, KeyedList.modify, List.map_map]
      refine List.map_congr_left (fun entry _ => ?_)
      by_cases here : entry.1 = snap.participantGuid
      · simp [here]
      · simp [here]
    · exact ⟨peers, Or.inr (Or.inl ⟨fresh, rfl, _, _, rfl, stored⟩)⟩
  | none =>
    cases fragment : decodeDataFrag data with
    | some body => exact ⟨rfl, Or.inr (Or.inr ⟨rfl, rfl, _, rfl⟩)⟩
    | none =>
      obtain ⟨graph, gathering⟩ := s.handleBytes_sameGraph peer clocks announce fragment
      exact ⟨graph.peers, Or.inl ⟨rfl, gathering, congrArg (List.map (fun entry => entry.2.peer)) graph.remote⟩⟩

/-- Whatever is kept under a peer is kept under a peer that is up. -/
structure NoZombie (s : Running) : Prop where
  remote : ∀ entry ∈ s.remote, entry.2.peer ∈ s.peers
  partials : ∀ peer ∈ s.gathering, peer ∈ s.peers

/-- A frame that leaves something behind is handled while its peer is up. -/
def Attributed (s : Running) : Section → Prop
  | .bytes peer data _ => s.attributes data = true → peer ∈ s.peers
  | _ => True

theorem NoZombie.bytes (clean : s.NoZombie) {peer : PeerId} {data : Bytes} {clocks : Clocks} :
    (s.step (.bytes peer data clocks)).1.NoZombie ↔ s.Attributed (.bytes peer data clocks) := by
  obtain ⟨peers, ⟨silent, gathering, attributed⟩ | ⟨leaves, gathering, guid, entry, rfl, remote⟩ |
      ⟨leaves, remote, r, partials⟩⟩ :=
    s.step_bytes peer data clocks
  · -- Every entry stays under the peer it had.
    refine iff_of_true ⟨fun entry member => ?_, fun peer member => ?_⟩ (fun leaves => absurd leaves (by simp [silent]))
    · have inside := List.mem_map_of_mem (f := fun entry : Guid × RemoteParticipant => entry.2.peer) member
      rw [attributed] at inside
      obtain ⟨old, before, same⟩ := List.mem_map.mp inside
      rw [peers, ← same]
      exact clean.remote old before
    · rw [peers]
      exact clean.partials peer (gathering ▸ member)
  · constructor
    · intro kept _
      have there := kept.remote (guid, entry) (remote ▸ KeyedList.mem_assign_self)
      rwa [peers] at there
    · intro up
      refine ⟨fun other member => ?_, fun peer member => ?_⟩
      · rw [peers]
        rw [remote] at member
        rcases KeyedList.mem_of_mem_assign member with rfl | before
        · exact up leaves
        · exact clean.remote other before
      · rw [peers]
        exact clean.partials peer (gathering ▸ member)
  · constructor
    · intro kept _
      have holds : (peer, r) ∈ (s.step (.bytes peer data clocks)).1.reassemblers := partials ▸ KeyedList.mem_assign_self
      have there := kept.partials peer (List.mem_map_of_mem (f := Prod.fst) holds)
      rwa [peers] at there
    · intro up
      refine ⟨fun other member => ?_, fun other member => ?_⟩
      · rw [peers]
        exact clean.remote other (remote ▸ member)
      · rw [peers]
        obtain ⟨entry, inside, rfl⟩ := List.mem_map.mp member
        rw [partials] at inside
        rcases KeyedList.mem_of_mem_assign inside with rfl | before
        · exact up leaves
        · exact clean.partials entry.1 (List.mem_map_of_mem (f := Prod.fst) before)

theorem NoZombie.peerUp (clean : s.NoZombie) (peer : PeerId) : (s.step (.peerUp peer)).1.NoZombie := by
  have kept {other : PeerId} (member : other ∈ s.peers) : other ∈ (s.step (.peerUp peer)).1.peers :=
    mem_peers_peerUp.mpr (Or.inr member)
  exact ⟨fun entry member => kept (clean.remote entry member), fun other member => kept (clean.partials other member)⟩

/-- Peer removal takes everything kept under the peer with it. -/
theorem NoZombie.peerDown (clean : s.NoZombie) (peer : PeerId) : (s.step (.peerDown peer)).1.NoZombie := by
  constructor
  · intro entry member
    rw [step_peerDown_remote] at member
    obtain ⟨before, other⟩ := List.mem_filter.mp member
    exact mem_peers_peerDown.mpr ⟨of_decide_eq_true other, clean.remote entry before⟩
  · intro other member
    obtain ⟨entry, inside, rfl⟩ := List.mem_map.mp member
    obtain ⟨before, differ⟩ := List.mem_filter.mp inside
    have kept := clean.partials entry.1 (List.mem_map_of_mem (f := Prod.fst) before)
    exact mem_peers_peerDown.mpr ⟨of_decide_eq_true differ, kept⟩

/-- From a clean state a section leads to a clean state exactly if it
attributes nothing to a peer that is down. -/
theorem NoZombie.step (clean : s.NoZombie) (turn : Section) : (s.step turn).1.NoZombie ↔ s.Attributed turn := by
  cases caller : turn.caller with
  | none =>
    obtain ⟨graph, gathering⟩ := s.step_sameGraph caller
    have here : s.Attributed turn := by
      cases turn with
      | bytes => cases caller
      | _ => trivial
    refine iff_of_true ⟨fun entry member => ?_, fun peer member => ?_⟩ here
    · rw [graph.peers]
      exact clean.remote entry (graph.remote ▸ member)
    · rw [graph.peers]
      exact clean.partials peer (gathering ▸ member)
  | some peer =>
    cases turn with
    | peerUp up => exact iff_of_true (clean.peerUp up) trivial
    | peerDown down => exact iff_of_true (clean.peerDown down) trivial
    | bytes => exact clean.bytes
    | _ => cases caller

/-- Nothing kept under the peer is left. -/
def Forgotten (s : Running) (peer : PeerId) : Prop := (∀ entry ∈ s.remote, entry.2.peer ≠ peer) ∧ peer ∉ s.gathering

theorem NoZombie.forgotten (clean : s.NoZombie) {peer : PeerId} (down : peer ∉ s.peers) : s.Forgotten peer := by
  refine ⟨fun entry member same => ?_, fun member => down (clean.partials peer member)⟩
  exact down (same ▸ clean.remote entry member)

/-- A peer that is down stays down until it comes up. -/
theorem step_stays_down {turn : Section} {peer : PeerId} (down : peer ∉ s.peers) (other : turn ≠ .peerUp peer) :
    peer ∉ (s.step turn).1.peers := by
  cases caller : turn.caller with
  | none =>
    rw [(s.step_sameGraph caller).1.peers]
    exact down
  | some _ =>
    cases turn with
    | peerUp up =>
      intro member
      rcases mem_peers_peerUp.mp member with rfl | before
      · exact other rfl
      · exact down before
    | peerDown gone => exact fun member => down (mem_peers_peerDown.mp member).2
    | bytes origin data clocks =>
      rw [(s.step_bytes origin data clocks).1]
      exact down
    | _ => cases caller

theorem down_until_up {turns : List Section} {peer : PeerId} (down : peer ∉ s.peers) (absent : .peerUp peer ∉ turns) :
    peer ∉ (Run.exec (fun s turn => (s.step turn).1) s turns).peers := by
  induction turns generalizing s with
  | nil => exact down
  | cons turn rest ih =>
    rw [List.mem_cons, not_or] at absent
    exact ih (step_stays_down down (Ne.symm absent.1)) absent.2

end Running

end Mdds
