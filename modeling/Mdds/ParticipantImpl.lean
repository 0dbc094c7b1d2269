import Mdds.AnnounceCodec
import Mdds.Fragment
import Mdds.Participant

namespace Mdds

/-- The participant with its table of reassemblers, one for each peer that
ever sent a fragment. -/
structure ParticipantImpl extends Participant where
  reassemblers : List (PeerId × Reassembler) := []

/-- The clock readings of one call: the steady clock, the system clock, and
those each reader makes. -/
structure Clocks where
  steadyMs : U64
  systemMs : U64
  offers : EnqueueClock

/-- The frames of one `send_sample_to`, whose length argument keeps 32 bits. -/
def sendSampleTo (maxPayload : Nat) (writer : Guid) (sample : CachedSample) (flags : U16) : List Bytes :=
  if maxPayload = 0 then []
  else
    Fragmenter.fragment writer sample.seq sample.pubTimeMs (sample.data.take (sample.data.length % 2 ^ 32))
      maxPayload flags

/-- The wire frames handed to `send_frame` for a peer with this limit. -/
def Frame.encode (maxPayload : Nat) : Frame → List Bytes
  | .announce snap announceSeq => [encodeAnnounce snap announceSeq]
  | .data writer sample reliableFlag => sendSampleTo maxPayload writer sample (if reliableFlag then kFlagReliable else 0)
  | .acknack body => [encodeAcknack body]
  | .heartbeat body => [encodeHeartbeat body]
  | .gap body => [encodeGap body]

namespace ParticipantImpl
variable (p : ParticipantImpl) (peer : PeerId)

/-- The reassembler of a peer, which `reassemblers_[peer]` creates empty. -/
def reassembler : Reassembler := (p.reassemblers.lookup peer).getD {}

/-- `deliver_sample` on the received fields; the wire has no `pubTimeUs`. -/
def deliver (writer : Guid) (seq pubTimeMs : U64) (payload : Bytes) (clocks : Clocks) : ParticipantImpl × List Frame :=
  let result := p.deliverSample writer ⟨seq, pubTimeMs, 0, payload⟩ clocks.steadyMs clocks.offers
  ({ p with toParticipant := result.1 }, result.2)

/-- The critical section of the DATA_FRAG path. -/
def addFragment (body : DataFragBody) (clocks : Clocks) : ParticipantImpl × Option Bytes :=
  let result := (p.reassembler peer).addBody body clocks.steadyMs.toNat
  ({ p with reassemblers := KeyedList.assign peer result.1 p.reassemblers }, result.2)

/-- `handle_bytes` of one frame and what it sends back to the peer. -/
def handleBytes (data : Bytes) (clocks : Clocks) : ParticipantImpl × List Frame :=
  match (decodeHeader data).map FrameHeader.type with
  | none => (p, [])
  | some .announce =>
    match decodeAnnounce data with
    | none => (p, [])
    | some (snap, announceSeq) =>
      let (next, newReaders, changed) := p.handleAnnounce peer snap announceSeq clocks.steadyMs
      ({ p with toParticipant := if changed then next.recomputeMatches else next },
        next.replayHistoryToPeer newReaders clocks.systemMs)
  | some .data =>
    match decodeData data with
    | none => (p, [])
    | some body => p.deliver body.writer body.seq body.pubTimeMs body.payload clocks
  | some .dataFrag =>
    match decodeDataFrag data with
    | none => (p, [])
    | some body =>
      let (next, complete) := p.addFragment peer body clocks
      match complete with
      | none => (next, [])
      | some full => next.deliver body.writer body.seq body.pubTimeMs full clocks
  | some .acknack => (p, ((decodeAcknack data).map p.handleAcknack).getD [])
  | some .heartbeat =>
    match decodeHeartbeat data with
    | none => (p, [])
    | some body =>
      let result := p.handleHeartbeat body clocks.steadyMs
      ({ p with toParticipant := result.1 }, result.2)
  | some .gap =>
    match decodeGap data with
    | none => (p, [])
    | some body => ({ p with toParticipant := p.handleGap body }, [])
  | some (.other _) => (p, [])

/-- What one frame of a sample does: the partial of that sample may change,
and the sample may be delivered with some payload. -/
structure Acts (peer : PeerId) (writer : Guid) (seq pubTimeMs : U64) (delivered : Option Bytes) (clocks : Clocks)
    (p q : ParticipantImpl) : Prop where
  party : q.toParticipant = match delivered with
    | none => p.toParticipant
    | some full => (p.deliverSample writer ⟨seq, pubTimeMs, 0, full⟩ clocks.steadyMs clocks.offers).1
  others : ∀ key, key ≠ ⟨writer, seq⟩ →
    (q.reassembler peer).partials.lookup key = (p.reassembler peer).partials.lookup key
  peers : ∀ other, other ≠ peer → q.reassemblers.lookup other = p.reassemblers.lookup other

end ParticipantImpl

/-- A fragment touches the partial of its own sample only. -/
theorem Reassembler.addBody_other (r : Reassembler) (frag : DataFragBody) (now : Nat) {key : SampleKey}
    (other : key ≠ ⟨frag.writer, frag.seq⟩) : (r.addBody frag now).1.partials.lookup key = r.partials.lookup key := by
  unfold addBody addFragment
  dsimp only
  split
  · rfl
  · split
    · rfl
    · split
      · rw [KeyedList.lookup_erase, if_neg other]
      · rw [KeyedList.lookup_assign, if_neg other]

namespace ParticipantImpl
variable {p : ParticipantImpl} {peer : PeerId}

theorem addFragment_reassembler (body : DataFragBody) (clocks : Clocks) :
    (p.addFragment peer body clocks).1.reassembler peer =
      ((p.reassembler peer).addBody body clocks.steadyMs.toNat).1 := by
  simp only [addFragment, reassembler, KeyedList.lookup_assign, if_true, Option.getD_some]

theorem handleBytes_data {data : Bytes} {body : DataBody} (decoded : decodeData data = some body) (clocks : Clocks) :
    p.handleBytes peer data clocks = p.deliver body.writer body.seq body.pubTimeMs body.payload clocks := by
  simp only [handleBytes, decodeData_type decoded, decoded]

theorem handleBytes_dataFrag {data : Bytes} {body : DataFragBody} (decoded : decodeDataFrag data = some body)
    (clocks : Clocks) :
    p.handleBytes peer data clocks = match (p.addFragment peer body clocks).2 with
      | none => ((p.addFragment peer body clocks).1, [])
      | some full => (p.addFragment peer body clocks).1.deliver body.writer body.seq body.pubTimeMs full clocks := by
  simp only [handleBytes, decodeDataFrag_type decoded, decoded]

theorem acts_data {data : Bytes} {body : DataBody} (decoded : decodeData data = some body) (clocks : Clocks) :
    Acts peer body.writer body.seq body.pubTimeMs (some body.payload) clocks p (p.handleBytes peer data clocks).1 := by
  rw [handleBytes_data decoded]
  exact ⟨rfl, fun _ _ => rfl, fun _ _ => rfl⟩

/-- A fragment acts through what the reassembler of its peer makes of it. -/
theorem acts_dataFrag {data : Bytes} {body : DataFragBody} (decoded : decodeDataFrag data = some body) (clocks : Clocks) :
    Acts peer body.writer body.seq body.pubTimeMs ((p.reassembler peer).addBody body clocks.steadyMs.toNat).2 clocks p
      (p.handleBytes peer data clocks).1 ∧
    (p.handleBytes peer data clocks).1.reassembler peer =
      ((p.reassembler peer).addBody body clocks.steadyMs.toNat).1 := by
  have added := @addFragment_reassembler p peer body clocks
  have result : (p.addFragment peer body clocks).2 = ((p.reassembler peer).addBody body clocks.steadyMs.toNat).2 := rfl
  have others (other : PeerId) (differ : other ≠ peer) :
      (p.addFragment peer body clocks).1.reassemblers.lookup other = p.reassemblers.lookup other := by
    simp only [addFragment, KeyedList.lookup_assign, if_neg differ]
  have keys (key : SampleKey) (differ : key ≠ ⟨body.writer, body.seq⟩) :
      ((p.addFragment peer body clocks).1.reassembler peer).partials.lookup key =
        (p.reassembler peer).partials.lookup key := by
    rw [added]
    exact Reassembler.addBody_other _ body _ differ
  rw [handleBytes_dataFrag decoded, result]
  cases ((p.reassembler peer).addBody body clocks.steadyMs.toNat).2 with
  | none => exact ⟨⟨rfl, keys, others⟩, added⟩
  | some full => exact ⟨⟨rfl, keys, others⟩, added⟩

end ParticipantImpl

end Mdds
