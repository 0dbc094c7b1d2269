import Mdds.Delivery
import Mdds.Ledger
import Mdds.Lib.Soup
import Mdds.ReaderHistory

namespace Mdds

section Knowledge
variable {ι : Type} (known : ι → List Fact)

def Stated (fact : Fact) : Prop := ∃ i, fact ∈ known i

/-- Somebody wrote this sample; `pubTimeUs` does not travel. -/
def Wrote (writer : Guid) (seq pubTimeMs : U64) (data : Bytes) : Prop :=
  ∃ sample, Stated known (.wrote writer sample) ∧ sample.seq = seq ∧ sample.pubTimeMs = pubTimeMs ∧ sample.data = data

/-- Whatever the bytes say, if they say anything about samples or endpoints,
is what somebody has said. -/
structure Genuine (bytes : Bytes) : Prop where
  data : ∀ body, decodeData bytes = some body → Wrote known body.writer body.seq body.pubTimeMs body.payload
  fragment : ∀ body, decodeDataFrag bytes = some body → ∃ payload, payload ≠ [] ∧
    Wrote known body.writer body.seq body.pubTimeMs payload ∧ body.SliceOf ⟨body.writer, body.seq⟩ payload
  announce : ∀ snap announceSeq, decodeAnnounce bytes = some (snap, announceSeq) → Stated known (.announced snap announceSeq)

/-- The frame can be sent on behalf of what is known. -/
def Frame.Said : Frame → Prop
  | .announce snap announceSeq => Stated known (.announced snap announceSeq) ∧ snap.Encodable
  | .data writer sample _ => Stated known (.wrote writer sample) ∧ sample.data.length < 2 ^ 32
  | _ => True

/-- The sample was written by a writer that the reader matches. -/
def Authentic (r : ReaderImpl) (content : Bytes × MessageInfo) : Prop :=
  Wrote known content.2.writerGuid content.2.seq content.2.pubTimeMs content.1 ∧
    ∃ ep, Stated known (.created ep) ∧ ep.guid = content.2.writerGuid ∧ endpointsMatch r.topic r.type r.qos ep = true

end Knowledge

/-- Bytes that no decoder of samples or announces accepts. -/
structure Junk (bytes : Bytes) : Prop where
  data : decodeData bytes = none
  fragment : decodeDataFrag bytes = none
  announce : decodeAnnounce bytes = none

variable {ι : Type} {known later : ι → List Fact}

section Mono
variable (more : ∀ i, ∀ fact ∈ known i, fact ∈ later i)
include more

theorem Stated.mono {fact : Fact} (told : Stated known fact) : Stated later fact := by
  obtain ⟨i, member⟩ := told
  exact ⟨i, more i fact member⟩

theorem Wrote.mono {writer : Guid} {seq pubTimeMs : U64} {data : Bytes} (wrote : Wrote known writer seq pubTimeMs data) :
    Wrote later writer seq pubTimeMs data := by
  obtain ⟨sample, told, same⟩ := wrote
  exact ⟨sample, told.mono more, same⟩

theorem Genuine.mono {bytes : Bytes} (genuine : Genuine known bytes) : Genuine later bytes := by
  refine ⟨fun body decoded => (genuine.data body decoded).mono more, fun body decoded => ?_,
    fun snap announceSeq decoded => (genuine.announce snap announceSeq decoded).mono more⟩
  obtain ⟨payload, nonempty, wrote, slice⟩ := genuine.fragment body decoded
  exact ⟨payload, nonempty, wrote.mono more, slice⟩

theorem Authentic.mono {r : ReaderImpl} {content : Bytes × MessageInfo} (authentic : Authentic known r content) :
    Authentic later r content := by
  obtain ⟨wrote, ep, created, same⟩ := authentic
  exact ⟨wrote.mono more, ep, created.mono more, same⟩

end Mono

theorem Junk.genuine {bytes : Bytes} (junk : Junk bytes) : Genuine known bytes where
  data body decoded := absurd (junk.data.symm.trans decoded) (Option.some_ne_none body).symm
  fragment body decoded := absurd (junk.fragment.symm.trans decoded) (Option.some_ne_none body).symm
  announce _ _ decoded := absurd (junk.announce.symm.trans decoded) (Option.some_ne_none _).symm

/-- A frame of one type is genuine if what this type says is. -/
theorem Genuine.of_type {bytes : Bytes} {type : FrameType} (header : (decodeHeader bytes).map FrameHeader.type = some type)
    (data : type = .data → ∀ body, decodeData bytes = some body →
      Wrote known body.writer body.seq body.pubTimeMs body.payload)
    (fragment : type = .dataFrag → ∀ body, decodeDataFrag bytes = some body → ∃ payload, payload ≠ [] ∧
      Wrote known body.writer body.seq body.pubTimeMs payload ∧ body.SliceOf ⟨body.writer, body.seq⟩ payload)
    (announce : type = .announce → ∀ snap announceSeq, decodeAnnounce bytes = some (snap, announceSeq) →
      Stated known (.announced snap announceSeq)) : Genuine known bytes where
  data body decoded := data (Option.some.inj (header.symm.trans (decodeData_type decoded))) body decoded
  fragment body decoded := fragment (Option.some.inj (header.symm.trans (decodeDataFrag_type decoded))) body decoded
  announce snap announceSeq decoded :=
    announce (Option.some.inj (header.symm.trans (decodeAnnounce_type decoded))) snap announceSeq decoded

/-- The frames of a sample are genuine whatever the limit of the transport. -/
theorem sendSampleTo_genuine {writer : Guid} {sample : CachedSample} (told : Stated known (.wrote writer sample))
    (short : sample.data.length < 2 ^ 32) {maxPayload : Nat} (limit : maxPayload < 2 ^ 32) {flags : U16} {bytes : Bytes}
    (member : bytes ∈ sendSampleTo maxPayload writer sample flags) : Genuine known bytes := by
  have wrote : Wrote known writer sample.seq sample.pubTimeMs sample.data := ⟨sample, told, rfl, rfl, rfl⟩
  have whole (decoded : decodeData bytes = some ⟨writer, sample.seq, sample.pubTimeMs, sample.data, {}⟩) :
      Genuine known bytes := by
    refine .of_type (decodeData_type decoded) (fun _ body again => ?_) nofun nofun
    obtain rfl := Option.some.inj (decoded.symm.trans again)
    exact wrote
  by_cases room : kHeaderSize + kDataFragBodyFixedSize < maxPayload
  · rcases @ParticipantImpl.sendSampleTo_cases writer sample maxPayload flags room limit short with
      ⟨frame, single, decoded⟩ | ⟨splits, cut⟩
    · rw [single, List.mem_singleton] at member
      subst member
      exact whole decoded
    · rw [cut] at member
      obtain ⟨piece, inside, rfl⟩ := List.mem_map.mp member
      obtain ⟨_, positive, within, bound⟩ := Fragmenter.mem_pieces splits.positive inside
      have decoded := @Fragmenter.decode_frameOf writer sample.seq sample.pubTimeMs sample.data piece bound flags short
        (splits.fits within)
      refine .of_type (decodeDataFrag_type decoded) nofun (fun _ body again => ?_) nofun
      obtain rfl := Option.some.inj (decoded.symm.trans again)
      exact ⟨sample.data, List.length_pos_iff.mp (by omega), wrote, Fragmenter.fragOf_slice bound short⟩
  · have cut : sample.data.take (sample.data.length % 2 ^ 32) = sample.data := by
      rw [Nat.mod_eq_of_lt short, List.take_length]
    rw [sendSampleTo, cut, Fragmenter.fragment, if_pos (Nat.le_of_not_lt room)] at member
    split at member
    · exact absurd member List.not_mem_nil
    · split at member
      · obtain rfl := List.mem_singleton.mp member
        exact whole (decodeData_encode writer sample.seq sample.pubTimeMs flags (by omega))
      · exact absurd member List.not_mem_nil

theorem Frame.Said.genuine {frame : Frame} (said : frame.Said known) {maxPayload : Nat} (limit : maxPayload < 2 ^ 32)
    {bytes : Bytes} (member : bytes ∈ frame.encode maxPayload) : Genuine known bytes := by
  have control {fields : FrameFields} (fits : fields.Fits) (same : bytes = fields.encode) (noData : fields.type ≠ .data)
      (noFragment : fields.type ≠ .dataFrag) (noAnnounce : fields.type ≠ .announce) : Genuine known bytes := by
    have decoded := FrameFields.decodeAs_own fits []
    rw [List.append_nil, ← same] at decoded
    exact .of_type (decodeAs_type decoded) (fun is => absurd is noData) (fun is => absurd is noFragment)
      (fun is => absurd is noAnnounce)
  cases frame with
  | announce snap announceSeq =>
    obtain rfl := List.mem_singleton.mp member
    have decoded := decodeAnnounce_encode announceSeq said.2.toShort said.2.body
    refine .of_type (decodeAnnounce_type decoded) nofun nofun (fun _ other number again => ?_)
    obtain ⟨rfl, rfl⟩ := Prod.mk.inj (Option.some.inj (decoded.symm.trans again))
    exact said.1
  | data writer sample reliableFlag => exact sendSampleTo_genuine said.1 said.2 limit member
  | acknack body => exact @control (.acknack body) trivial (List.mem_singleton.mp member) nofun nofun nofun
  | heartbeat body => exact @control (.heartbeat body) trivial (List.mem_singleton.mp member) nofun nofun nofun
  | gap body => exact @control (.gap body) trivial (List.mem_singleton.mp member) nofun nofun nofun

theorem Participant.replayHistoryToPeer_data {p : Participant} {newReaders : List EndpointRecord} {now : U64}
    {writer : Guid} {sample : CachedSample} {reliableFlag : Bool}
    (member : .data writer sample reliableFlag ∈ p.replayHistoryToPeer newReaders now) :
    ∃ entry ∈ p.writers, entry.2.guid = writer ∧ sample ∈ entry.2.history := by
  obtain ⟨ep, _, replay⟩ := List.mem_flatMap.mp member
  split at replay
  · exact absurd replay List.not_mem_nil
  · obtain ⟨entry, inside, cached⟩ := List.mem_flatMap.mp replay
    obtain ⟨e, kept, same⟩ := List.mem_map.mp cached
    obtain ⟨rfl, rfl, _⟩ := Frame.data.inj same
    exact ⟨entry, List.mem_of_mem_filter inside, rfl, List.mem_of_mem_filter kept⟩

theorem Participant.handleAcknack_data {p : Participant} {body : AckNackBody} {writer : Guid} {sample : CachedSample}
    {reliableFlag : Bool} (member : .data writer sample reliableFlag ∈ p.handleAcknack body) :
    ∃ entry ∈ p.writers, entry.2.guid = writer ∧ sample ∈ entry.2.history := by
  unfold handleAcknack at member
  split at member
  · rename_i w readerEp hosted _
    obtain ⟨⟨entry, inside, rfl⟩, guid⟩ := findWriter_mem hosted
    rcases List.mem_append.mp member with resent | gap
    · obtain ⟨e, kept, same⟩ := List.mem_map.mp resent
      obtain ⟨rfl, rfl, _⟩ := Frame.data.inj same
      exact ⟨entry, inside, guid, (WriterImpl.resend_requested _ _ _ kept).1⟩
    · obtain ⟨_, _, same⟩ := Option.map_eq_some_iff.mp (Option.mem_toList.mp gap)
      cases same
  · exact absurd member List.not_mem_nil

/-- Samples are sent in answer to a frame only out of a history. -/
theorem ParticipantImpl.handleBytes_sends_data {p : ParticipantImpl} {peer : PeerId} {data : Bytes} {clocks : Clocks}
    {writer : Guid} {sample : CachedSample} {reliableFlag : Bool}
    (member : .data writer sample reliableFlag ∈ (p.handleBytes peer data clocks).2) :
    ∃ entry ∈ p.writers, entry.2.guid = writer ∧ sample ∈ entry.2.history := by
  have acknacks {frames : List Frame} (all : ∀ frame ∈ frames, ∃ nack, frame = .acknack nack)
      (inside : .data writer sample reliableFlag ∈ frames) :
      ∃ entry ∈ p.writers, entry.2.guid = writer ∧ sample ∈ entry.2.history := by
    obtain ⟨nack, same⟩ := all _ inside
    cases same
  unfold handleBytes at member
  split at member
  · exact absurd member List.not_mem_nil
  · split at member
    · exact absurd member List.not_mem_nil
    · rename_i snap announceSeq _
      have writers : (p.handleAnnounce peer snap announceSeq clocks.steadyMs).1.writers = p.writers := by
        unfold Participant.handleAnnounce
        dsimp only
        split
        · rfl
        · split <;> rfl
      obtain ⟨entry, inside, kept⟩ := Participant.replayHistoryToPeer_data member
      exact ⟨entry, writers ▸ inside, kept⟩
  · split at member
    · exact absurd member List.not_mem_nil
    · exact acknacks (fun _ => Participant.deliverSample_sends) member
  · split at member
    · exact absurd member List.not_mem_nil
    · dsimp only at member
      split at member
      · exact absurd member List.not_mem_nil
      · exact acknacks (fun _ => Participant.deliverSample_sends) member
  · cases decoded : decodeAcknack data with
    | none => simp [decoded] at member
    | some body =>
      simp only [decoded, Option.map_some, Option.getD_some] at member
      exact Participant.handleAcknack_data member
  · split at member
    · exact absurd member List.not_mem_nil
    · exact acknacks (fun _ => Participant.handleHeartbeat_sends) member
  · split at member <;> exact absurd member List.not_mem_nil
  · exact absurd member List.not_mem_nil

namespace Running
variable {s : Running} {own : List Fact}

/-- Every sample sent was written here, just now or earlier. -/
theorem step_sends_data {turn : Section} {peer : PeerId} {writer : Guid} {sample : CachedSample} {reliableFlag : Bool}
    (member : (peer, .data writer sample reliableFlag) ∈ (s.step turn).2) :
    .wrote writer sample ∈ s.tells turn ∨ ∃ entry ∈ s.writers, entry.2.guid = writer ∧ sample ∈ entry.2.history := by
  generalize sent : Frame.data writer sample reliableFlag = frame at member
  cases step_sends member with
  | broadcast | greeting | asserted | periodic => cases sent
  | @written addr pubTimeUs now data =>
    rw [← sent] at member
    simp only [step] at member
    cases accepted : s.writeLocked addr pubTimeUs data now with
    | none => simp [accepted] at member
    | some result =>
      simp only [accepted] at member
      obtain ⟨_, _, same⟩ := List.mem_map.mp member
      obtain ⟨rfl, rfl, _⟩ := Frame.data.inj (Prod.mk.inj same).2
      exact Or.inl (by simp [tells, accepted])
  | answer inside => exact Or.inr (ParticipantImpl.handleBytes_sends_data (sent ▸ inside))
  | delivery inside =>
    obtain ⟨nack, same⟩ := Participant.deliverSample_sends inside
    rw [same] at sent
    cases sent
  | replay inside => exact Or.inr (Participant.replayHistoryToPeer_data (sent ▸ inside))

/-- Everything sent can be sent on behalf of what the participant has said. -/
theorem Ledger.sends (ledger : s.Ledger own) {turn : Section} (within : s.Within turn)
    (told : ∀ fact ∈ own ++ s.tells turn, Stated known fact) {peer : PeerId} {frame : Frame}
    (member : (peer, frame) ∈ (s.step turn).2) : frame.Said known := by
  cases frame with
  | announce snap announceSeq =>
    obtain ⟨same, ⟨rfl, phase, _⟩ | ⟨index, rfl, waiting⟩⟩ := step_announces member rfl
    · obtain ⟨rfl, rfl⟩ := Frame.announce.inj same
      exact ⟨told _ (List.mem_append_right _ (by simp [tells, phase])), within⟩
    · obtain ⟨rfl, rfl⟩ := Frame.announce.inj same
      obtain ⟨below, _⟩ := List.getElem?_eq_some_iff.mp waiting
      exact ⟨told _ (List.mem_append_right _ (by simp [tells, below])), within⟩
  | data writer sample reliableFlag =>
    have said : .wrote writer sample ∈ own ++ s.tells turn := by
      rcases step_sends_data member with now | ⟨entry, inside, rfl, kept⟩
      · exact List.mem_append_right _ now
      · exact List.mem_append_left _ (ledger.cached entry inside sample kept)
    exact ⟨told _ said, ((ledger.step within).wrote _ _ said).2⟩
  | acknack | heartbeat | gap => trivial

end Running

end Mdds
