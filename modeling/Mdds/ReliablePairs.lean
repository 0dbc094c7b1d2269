import Mdds.FrameRoundTrip
import Mdds.Running

namespace Mdds

/-- The ACKNACK names a reliable local reader and a writer that is known and
announced as reliable. -/
def Participant.ReliablePair (p : Participant) (nack : AckNackBody) : Prop :=
  (∃ entry ∈ p.readers, entry.2.guid = nack.reader ∧ entry.2.qos.reliability = .reliable) ∧
    ∃ writerEp, p.findRemoteEndpoint nack.writer = some writerEp ∧ writerEp.qos.reliability = .reliable

/-- Both reliabilities enter the gap test of a data arrival. -/
theorem ReaderImpl.enqueue_gap_reliable {r : ReaderImpl} {writer : Guid} {seq : U64} {data : Bytes} {writerQos : QosProfile}
    {pubTimeMs now sweepNow : U64}
    (detected : (r.enqueue writer seq data writerQos pubTimeMs now sweepNow).gapDetected = true) :
    r.qos.reliability = .reliable ∧ writerQos.reliability = .reliable := by
  rw [(r.enqueue_reports writer seq data writerQos pubTimeMs now sweepNow).1] at detected
  simp only [Bool.and_eq_true, decide_eq_true_eq] at detected
  exact ⟨detected.1.2, detected.2⟩

theorem ReaderImpl.deliver_reliable {r : ReaderImpl} {writerEp : EndpointRecord} {writer : Guid} {sample : CachedSample}
    {clock : U64 × U64} {nack : AckNackBody} (asked : (r.deliver writerEp writer sample clock).2 = some nack) :
    nack.reader = r.guid ∧ nack.writer = writer ∧ r.qos.reliability = .reliable ∧
      writerEp.qos.reliability = .reliable := by
  unfold deliver at asked
  split at asked
  · cases asked
  · dsimp only at asked
    split at asked
    · rename_i detected
      obtain rfl := Option.some.inj asked
      obtain ⟨reader, writer⟩ := enqueue_gap_reliable detected
      exact ⟨rfl, rfl, reader, writer⟩
    · cases asked

namespace Participant
variable {p : Participant}

theorem deliverSample_pair {writer : Guid} {sample : CachedSample} {now : U64} {clock : EnqueueClock} {nack : AckNackBody}
    (asked : .acknack nack ∈ (p.deliverSample writer sample now clock).2) : p.ReliablePair nack := by
  unfold deliverSample at asked
  dsimp only at asked
  split at asked
  · exact absurd asked List.not_mem_nil
  · rename_i writerEp known
    obtain ⟨entry, member, sent⟩ := List.mem_filterMap.mp asked
    obtain ⟨body, wanted, same⟩ := Option.map_eq_some_iff.mp sent
    obtain rfl := Frame.acknack.inj same
    obtain ⟨reader, writer, readerReliable, writerReliable⟩ := ReaderImpl.deliver_reliable wanted
    exact ⟨⟨entry, member, reader.symm, readerReliable⟩, writerEp, writer ▸ known, writerReliable⟩

theorem replayHistoryToPeer_asks {newReaders : List EndpointRecord} {now : U64} {nack : AckNackBody} :
    Frame.acknack nack ∉ p.replayHistoryToPeer newReaders now := by
  intro member
  obtain ⟨ep, _, replay⟩ := List.mem_flatMap.mp member
  split at replay
  · exact absurd replay List.not_mem_nil
  · obtain ⟨entry, _, cached⟩ := List.mem_flatMap.mp replay
    obtain ⟨e, _, same⟩ := List.mem_map.mp cached
    cases same

end Participant

namespace Running
variable {s : Running}

/-- Only arriving bytes and completed samples make a participant ask. -/
theorem step_asks {turn : Section} {peer : PeerId} {nack : AckNackBody}
    (asked : (peer, Frame.acknack nack) ∈ (s.step turn).2) :
    (∃ data clocks, turn = .bytes peer data clocks ∧ .acknack nack ∈ (s.handleBytes peer data clocks).2) ∨
      s.ReliablePair nack := by
  cases step_sends asked with
  | answer inside => exact Or.inl ⟨_, _, rfl, inside⟩
  | delivery inside => exact Or.inr (Participant.deliverSample_pair inside)
  | replay inside => exact absurd inside Participant.replayHistoryToPeer_asks

end Running

end Mdds
