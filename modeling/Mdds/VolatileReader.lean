import Mdds.Lib.Run
import Mdds.World

namespace Mdds

/-- A sample of the writer `ep` is no history to the reader: it was not
published before a volatile reader that would still queue it. -/
def ReaderImpl.NoHistory (r : ReaderImpl) (ep : EndpointRecord) (sample : CachedSample) : Prop :=
  r.qos.durability = .volatile → r.topic = ep.topic → r.type = ep.typeName →
    r.birthUs ≤ sample.pubTimeUs ∨ r.Settled ep.guid sample.seq.toNat

instance (r : ReaderImpl) (ep : EndpointRecord) (sample : CachedSample) : Decidable (r.NoHistory ep sample) :=
  inferInstanceAs (Decidable (r.qos.durability = .volatile → r.topic = ep.topic → r.type = ep.typeName →
    r.birthUs ≤ sample.pubTimeUs ∨ r.Settled ep.guid sample.seq.toNat))

def Participant.NoHistory (p : Participant) (ep : EndpointRecord) (sample : CachedSample) : Prop :=
  ∀ entry ∈ p.readers, entry.2.NoHistory ep sample

instance (p : Participant) (ep : EndpointRecord) (sample : CachedSample) : Decidable (p.NoHistory ep sample) :=
  inferInstanceAs (Decidable (∀ entry ∈ p.readers, entry.2.NoHistory ep sample))

/-- The frame is no sample on this topic and type from before `birthUs`. -/
def Frame.Since (created : List EndpointRecord) (topic type : Bytes) (birthUs : U64) : Frame → Prop
  | .data writer sample _ =>
    ∀ ep ∈ created, ep.guid = writer → ep.topic = topic → ep.typeName = type → birthUs ≤ sample.pubTimeUs
  | _ => True

instance (created : List EndpointRecord) (topic type : Bytes) (birthUs : U64) :
    ∀ frame : Frame, Decidable (frame.Since created topic type birthUs)
  | .data writer sample _ => inferInstanceAs (Decidable (∀ ep ∈ created, ep.guid = writer → ep.topic = topic →
      ep.typeName = type → birthUs ≤ sample.pubTimeUs))
  | .announce _ _ => isTrue trivial
  | .acknack _ => isTrue trivial
  | .heartbeat _ => isTrue trivial
  | .gap _ => isTrue trivial

namespace Host

/-- The retransmissions an ACKNACK asks for are no history to the volatile
readers around the one that asks. -/
def AnswersSafely (h other : Host) : Frame → Prop
  | .acknack body =>
    ∀ entry ∈ h.party.writers, entry.2.guid = body.writer → ∀ readerEp ∈ h.party.remoteEndpoints,
      readerEp.guid = body.reader → ∀ e ∈ entry.2.history, body.Requests e.seq → readerEp.entitled e →
        other.party.NoHistory entry.2.record e
  | _ => True

instance (h other : Host) : ∀ frame : Frame, Decidable (h.AnswersSafely other frame)
  | .acknack body => inferInstanceAs (Decidable (∀ entry ∈ h.party.writers, entry.2.guid = body.writer →
      ∀ readerEp ∈ h.party.remoteEndpoints, readerEp.guid = body.reader → ∀ e ∈ entry.2.history,
        body.Requests e.seq → readerEp.entitled e → other.party.NoHistory entry.2.record e))
  | .data _ _ _ => isTrue trivial
  | .announce _ _ => isTrue trivial
  | .heartbeat _ => isTrue trivial
  | .gap _ => isTrue trivial

/-- The cached samples a replay sends to the new transient-local readers are
no history to the volatile readers around them. -/
def ReplaysSafely (h other : Host) (now : U64) (newReaders : List EndpointRecord) : Prop :=
  ∀ ep ∈ newReaders, ep.qos.durability = .transientLocal → ∀ entry ∈ h.party.writers,
    entry.2.qos.durability = .transientLocal → ep.topic = entry.2.topic → ep.typeName = entry.2.type →
      ∀ e ∈ entry.2.replayable now, other.party.NoHistory entry.2.record e

instance (h other : Host) (now : U64) (newReaders : List EndpointRecord) :
    Decidable (h.ReplaysSafely other now newReaders) :=
  inferInstanceAs (Decidable (∀ ep ∈ newReaders, ep.qos.durability = .transientLocal → ∀ entry ∈ h.party.writers,
    entry.2.qos.durability = .transientLocal → ep.topic = entry.2.topic → ep.typeName = entry.2.type →
      ∀ e ∈ entry.2.replayable now, other.party.NoHistory entry.2.record e))

/-- The steps that keep history away from volatile readers. Nothing older
than a new volatile reader is in flight to it, a write reaches the lock
before a volatile reader appears where it is sent, and what is sent again
suits all volatile readers there. Serials stay within the three bytes a
GUID has for them. -/
def Careful (h other : Host) (clock : U64) : HostEvent → Prop
  | .createWriter _ _ _ _ _ => h.party.entitySerial.toNat + 1 < 2 ^ 24
  | .createReader _ topic type qos _ birthUs =>
    h.party.entitySerial.toNat + 1 < 2 ^ 24 ∧
      (qos.durability = .volatile → ∀ frame ∈ h.inbox, frame.Since other.created topic type birthUs)
  | .write addr pubTimeUs data =>
    ∀ entry ∈ h.party.writers, entry.1 = addr → h.party.sendTargets entry.2 ≠ [] →
      other.party.NoHistory entry.2.record ⟨entry.2.seq + 1, pubTimeUs / 1000, pubTimeUs, data⟩
  | .replayHistory index =>
    ∀ pending ∈ h.replaying[index]?.toList, h.ReplaysSafely other (clock / 1000) pending.1
  | .receive index _ => ∀ frame ∈ h.inbox[index]?.toList, h.AnswersSafely other frame
  | _ => True

instance (h other : Host) (clock : U64) : ∀ event, Decidable (h.Careful other clock event)
  | .createWriter _ _ _ _ _ => inferInstanceAs (Decidable (_ < _))
  | .createReader _ topic type qos _ birthUs => inferInstanceAs (Decidable (_ < _ ∧
      (qos.durability = .volatile → ∀ frame ∈ h.inbox, frame.Since other.created topic type birthUs)))
  | .write addr pubTimeUs data => inferInstanceAs (Decidable (∀ entry ∈ h.party.writers, entry.1 = addr →
      h.party.sendTargets entry.2 ≠ [] →
        other.party.NoHistory entry.2.record ⟨entry.2.seq + 1, pubTimeUs / 1000, pubTimeUs, data⟩))
  | .replayHistory index => inferInstanceAs (Decidable (∀ pending ∈ h.replaying[index]?.toList,
      h.ReplaysSafely other (clock / 1000) pending.1))
  | .receive index _ => inferInstanceAs (Decidable (∀ frame ∈ h.inbox[index]?.toList, h.AnswersSafely other frame))
  | .destroyWriter _ | .destroyReader _ | .replayLocalHistory _ | .handOver _ _ | .take _ | .available _
  | .addNode _ _ | .removeNode _ _ | .announceTick | .broadcastAnnounce | .sendAnnounce | .sendHeartbeats
  | .assertLiveliness _ | .peerUp _ | .peerDown _ | .duplicate _ | .lose _ => isTrue trivial

end Host

/-- What holds of a frame on its way to `p` when `created` are the endpoints
of its sender: an announce lists only these, and data comes from one of
them and is no history at `p`. -/
def Frame.Accounted (created : List EndpointRecord) (p : Participant) : Frame → Prop
  | .announce snap _ => snap.endpoints ⊆ created
  | .data writer sample _ => ∃ ep ∈ created, ep.guid = writer ∧ p.NoHistory ep sample
  | _ => True

theorem ReaderImpl.Later.noHistory {r next : ReaderImpl} (later : r.Later next) (range : ∀ g, (r.rxState g).InRange)
    {ep : EndpointRecord} {sample : CachedSample} (before : r.NoHistory ep sample) : next.NoHistory ep sample := by
  intro durability topic type
  obtain ⟨_, _, sameTopic, sameType, sameQos, sameBirth⟩ := EndpointRecord.mk.inj later.record
  rw [sameQos] at durability
  rw [sameTopic] at topic
  rw [sameType] at type
  rw [sameBirth]
  exact (before durability topic type).imp_right (later.settled range _ _)

theorem Participant.Keeps.noHistory {p q : Participant} (keeps : p.Keeps q)
    (range : ∀ entry ∈ p.readers, ∀ g, (entry.2.rxState g).InRange) {ep : EndpointRecord} {sample : CachedSample}
    (before : p.NoHistory ep sample) : q.NoHistory ep sample := by
  intro entry member
  obtain ⟨old, inside, later⟩ := keeps.readers entry member
  exact later.noHistory (range old inside) (before old inside)

theorem Frame.Accounted.mono {created more : List EndpointRecord} {p : Participant} {frame : Frame}
    (accounted : frame.Accounted created p) (grown : created ⊆ more) : frame.Accounted more p := by
  cases frame with
  | announce snap announceSeq => exact List.Subset.trans accounted grown
  | data writer sample reliableFlag =>
    obtain ⟨ep, inside, rest⟩ := accounted
    exact ⟨ep, grown inside, rest⟩
  | acknack body => trivial
  | heartbeat body => trivial
  | gap body => trivial

theorem Frame.Accounted.keep {created : List EndpointRecord} {p q : Participant} {frame : Frame}
    (accounted : frame.Accounted created p)
    (kept : ∀ ep ∈ created, ∀ sample reliableFlag, frame = .data ep.guid sample reliableFlag →
      p.NoHistory ep sample → q.NoHistory ep sample) : frame.Accounted created q := by
  cases frame with
  | announce snap announceSeq => exact accounted
  | data writer sample reliableFlag =>
    obtain ⟨ep, inside, rfl, before⟩ := accounted
    exact ⟨ep, inside, rfl, kept ep inside sample reliableFlag rfl before⟩
  | acknack body => trivial
  | heartbeat body => trivial
  | gap body => trivial

namespace Host

/-- The invariant of one side, `others` being the endpoints the other side
has created. -/
structure Sound (h : Host) (others : List EndpointRecord) : Prop where
  small : h.party.entitySerial.toNat < 2 ^ 24
  serials : ∀ ep ∈ h.created, ∃ serial : U32, serial.toNat ≤ h.party.entitySerial.toNat ∧
    ep.guid = makeGuid h.party.owner ep.kind serial
  unique : ∀ a ∈ h.created, ∀ b ∈ h.created, a.guid = b.guid → a = b
  hosted : h.party.records ⊆ h.created
  range : ∀ entry ∈ h.party.readers, ∀ g, (entry.2.rxState g).InRange
  remote : h.party.remoteEndpoints ⊆ others
  inbox : ∀ frame ∈ h.inbox, frame.Accounted others h.party

/-- A step that creates nothing. What the participant learns it learns from
an announce that was on its way. -/
structure Steady (h next : Host) : Prop where
  party : h.party.Keeps next.party
  created : next.created = h.created
  inbox : next.inbox ⊆ h.inbox
  remote : ∀ ep ∈ next.party.remoteEndpoints, ep ∈ h.party.remoteEndpoints ∨
    ∃ snap announceSeq, Frame.announce snap announceSeq ∈ h.inbox ∧ ep ∈ snap.endpoints

variable {h next other : Host} {others : List EndpointRecord} {clock : U64}

theorem Steady.refl (h : Host) : h.Steady h :=
  ⟨.refl _, rfl, List.Subset.refl _, fun _ => Or.inl⟩

theorem Sound.steady (sound : h.Sound others) (steady : h.Steady next) : next.Sound others := by
  refine ⟨?_, fun ep member => ?_, ?_, ?_, fun entry member => ?_, fun ep member => ?_, fun frame member => ?_⟩
  · rw [steady.party.serial]
    exact sound.small
  · rw [steady.created] at member
    rw [steady.party.serial, steady.party.owner]
    exact sound.serials ep member
  · rw [steady.created]
    exact sound.unique
  · rw [steady.created]
    exact List.Subset.trans steady.party.records_subset sound.hosted
  · obtain ⟨old, inside, later⟩ := steady.party.readers entry member
    exact later.range (sound.range old inside)
  · rcases steady.remote ep member with old | ⟨snap, announceSeq, inFlight, listed⟩
    · exact sound.remote old
    · exact sound.inbox _ inFlight listed
  · exact (sound.inbox frame (steady.inbox member)).keep
      (fun ep _ sample _ _ => steady.party.noHistory sound.range)

theorem Sound.more (sound : h.Sound others) {more : List EndpointRecord} (grown : others ⊆ more) : h.Sound more :=
  { sound with
    remote := List.Subset.trans sound.remote grown
    inbox := fun frame member => (sound.inbox frame member).mono grown }

theorem Sound.arrive (sound : h.Sound others) {frames : List Frame}
    (accounted : ∀ frame ∈ frames, frame.Accounted others h.party) :
    ({ h with inbox := h.inbox ++ frames } : Host).Sound others :=
  { sound with
    inbox := fun frame member => (List.mem_append.mp member).elim (sound.inbox frame) (accounted frame) }

/-- A creation keeps the invariant when no sample older than a new volatile
reader is in flight to it. -/
theorem Sound.adds {ep : EndpointRecord} (sound : h.Sound others) (adds : h.party.Adds ep next.party)
    (created : next.created = h.created ++ [ep]) (inbox : next.inbox = h.inbox)
    (room : h.party.entitySerial.toNat + 1 < 2 ^ 24)
    (young : ep.kind = .reader → ep.qos.durability = .volatile →
      ∀ frame ∈ h.inbox, frame.Since others ep.topic ep.typeName ep.birthUs) : next.Sound others := by
  have serial : next.party.entitySerial.toNat = h.party.entitySerial.toNat + 1 := by
    rw [adds.serial]
    bv_omega
  have fresh : ∀ old ∈ h.created, old.guid ≠ ep.guid := by
    intro old member same
    obtain ⟨earlier, bound, guid⟩ := sound.serials old member
    rw [guid, adds.guid] at same
    have equal := makeGuid_serial (by omega) (by rw [← adds.serial, serial]; omega) same
    rw [equal, ← adds.serial, serial] at bound
    omega
  refine ⟨by omega, fun old member => ?_, fun a left b right same => ?_, fun old member => ?_,
    fun entry member => ?_, ?_, fun frame member => ?_⟩
  · rw [created, List.mem_append, List.mem_singleton] at member
    rw [adds.owner]
    rcases member with before | rfl
    · obtain ⟨earlier, bound, guid⟩ := sound.serials old before
      exact ⟨earlier, by omega, guid⟩
    · exact ⟨_, by rw [adds.serial], adds.guid⟩
  · rw [created, List.mem_append, List.mem_singleton] at left right
    rcases left with left | rfl
    · rcases right with right | rfl
      · exact sound.unique a left b right same
      · exact absurd same (fresh a left)
    · rcases right with right | rfl
      · exact absurd same.symm (fresh b right)
      · rfl
  · rw [created, List.mem_append, List.mem_singleton]
    rcases List.mem_append.mp member with writer | reader
    · obtain ⟨entry, inside, rfl⟩ := List.mem_map.mp writer
      rcases adds.writers entry inside with new | ⟨before, known, same⟩
      · exact Or.inr new
      · exact Or.inl (sound.hosted (same ▸ Participant.writer_record_mem known))
    · obtain ⟨entry, inside, rfl⟩ := List.mem_map.mp reader
      rcases adds.readers entry inside with ⟨new, _⟩ | ⟨before, known, later⟩
      · exact Or.inr new
      · exact Or.inl (sound.hosted (later.record ▸ Participant.reader_record_mem known))
  · rcases adds.readers entry member with ⟨_, rx⟩ | ⟨old, inside, later⟩
    · exact fun g => ReaderImpl.exec_inRange rx [] g
    · exact later.range (sound.range old inside)
  · have same : next.party.remoteEndpoints = h.party.remoteEndpoints := by
      simp only [Participant.remoteEndpoints, adds.remote]
    rw [same]
    exact sound.remote
  · rw [inbox] at member
    refine (sound.inbox frame member).keep (fun source known sample reliableFlag shape before => ?_)
    intro entry inside
    rcases adds.readers entry inside with ⟨rfl, _⟩ | ⟨old, present, later⟩
    · -- The new reader itself: nothing older than it is in flight.
      intro durability topic type
      have since := young rfl durability frame member
      rw [shape] at since
      exact Or.inl (since source known rfl topic.symm type.symm)
    · exact later.noHistory (sound.range old present) (before old present)

theorem Steady.of_remote (party : h.party.Keeps next.party) (created : next.created = h.created)
    (inbox : next.inbox ⊆ h.inbox) (remote : next.party.remote = h.party.remote) : h.Steady next := by
  refine ⟨party, created, inbox, fun ep member => Or.inl ?_⟩
  rw [Participant.remoteEndpoints, remote] at member
  exact member

theorem handle_steady (h : Host) {inbox : List Frame} (fewer : inbox ⊆ h.inbox) {frame : Frame} (member : frame ∈ h.inbox)
    (now : U64) (peer : PeerId) : h.Steady ({ h with inbox }.handle now peer frame).1 := by
  have keeps := Participant.Keeps.lasting
  cases frame with
  | announce snap announceSeq =>
    refine ⟨keeps.handleAnnounce .., rfl, fewer, fun ep learned => ?_⟩
    exact (Participant.handleAnnounce_remote learned).imp_right (fun listed => ⟨snap, announceSeq, member, listed⟩)
  | data writer sample reliableFlag =>
    exact .of_remote (keeps.deliverSample ..) rfl fewer (Participant.deliverSample_remote ..)
  | acknack body => exact .of_remote (.refl _) rfl fewer rfl
  | heartbeat body => exact .of_remote (keeps.handleHeartbeat ..) rfl fewer (Participant.handleHeartbeat_remote ..)
  | gap body => exact .of_remote (keeps.handleGap ..) rfl fewer (Participant.handleGap_remote ..)

theorem foldl_enqueueLocal (p : Participant) (addr : Addr) (now : U64 × U64) (history : List (WriterImpl × CachedSample)) :
    let q := history.foldl (fun p item => p.enqueueLocal addr item.1.guid item.1.qos item.2 now) p
    p.Keeps q ∧ q.remote = p.remote := by
  induction history generalizing p with
  | nil => exact ⟨.refl p, rfl⟩
  | cons item rest ih =>
    obtain ⟨keeps, remote⟩ := ih (p.enqueueLocal addr item.1.guid item.1.qos item.2 now)
    exact ⟨.trans (Participant.Keeps.lasting.enqueueLocal ..) keeps, remote⟩

/-- Everything a careful step does to its own side. -/
theorem act_cases {event : HostEvent} (careful : h.Careful other clock event) :
    h.Steady (h.act clock event).1 ∨
    ∃ ep, h.party.Adds ep (h.act clock event).1.party ∧ (h.act clock event).1.created = h.created ++ [ep] ∧
      (h.act clock event).1.inbox = h.inbox ∧ h.party.entitySerial.toNat + 1 < 2 ^ 24 ∧
      (ep.kind = .reader → ep.qos.durability = .volatile →
        ∀ frame ∈ h.inbox, frame.Since other.created ep.topic ep.typeName ep.birthUs) := by
  have whole : h.inbox ⊆ h.inbox := List.Subset.refl _
  have keeps := Participant.Keeps.lasting
  cases event with
  | createWriter addr topic type qos birthUs =>
    simp only [act]
    split
    · exact Or.inl (.refl h)
    · split
      · exact Or.inl (.refl h)
      · rename_i accepted
        have adds := Participant.Adds.createWriter accepted
        refine Or.inr ⟨_, adds, ?_, rfl, careful, fun isReader => nomatch isReader⟩
        simp only [adds.serial]
  | createReader addr topic type qos ignoreLocal birthUs =>
    simp only [act]
    split
    · exact Or.inl (.refl h)
    · split
      · exact Or.inl (.refl h)
      · rename_i accepted
        have adds := Participant.Adds.createReader accepted
        refine Or.inr ⟨_, adds, ?_, rfl, careful.1, fun _ => careful.2⟩
        simp only [adds.serial]
  | destroyWriter addr => exact Or.inl (.of_remote (.destroyWriter ..) rfl whole rfl)
  | destroyReader addr => exact Or.inl (.of_remote (.destroyReader ..) rfl whole rfl)
  | replayLocalHistory index =>
    simp only [act]
    split
    · exact Or.inl (.refl h)
    · obtain ⟨keeps, remote⟩ := foldl_enqueueLocal h.party _ _ _
      exact Or.inl (.of_remote keeps rfl whole remote)
  | write addr pubTimeUs data =>
    simp only [act]
    split
    · exact Or.inl (.refl h)
    · split
      · exact Or.inl (.refl h)
      · rename_i accepted
        obtain ⟨_, _, _, _, rfl, _, _⟩ := Participant.writeLocked_cases accepted
        exact Or.inl (.of_remote (.writeLocked accepted) rfl whole rfl)
  | handOver index addr =>
    simp only [act]
    split
    · exact Or.inl (.refl h)
    · split
      · exact Or.inl (.of_remote (keeps.enqueueLocal ..) rfl whole rfl)
      · exact Or.inl (.refl h)
  | take addr =>
    exact Or.inl (.of_remote (keeps.modifyReader _ _ (fun r => .step r (.take _))) rfl whole rfl)
  | available addr =>
    exact Or.inl (.of_remote (keeps.modifyReader _ _ (fun r => .step r (.available _))) rfl whole rfl)
  | addNode ns name => exact Or.inl (.of_remote (.bookkeeping rfl rfl rfl rfl) rfl whole rfl)
  | removeNode ns name => exact Or.inl (.of_remote (.bookkeeping rfl rfl rfl rfl) rfl whole rfl)
  | announceTick => exact Or.inl (.of_remote (.bookkeeping rfl rfl rfl rfl) rfl whole rfl)
  | broadcastAnnounce => exact Or.inl (.refl h)
  | sendAnnounce => exact Or.inl (.refl h)
  | sendHeartbeats => exact Or.inl (.refl h)
  | assertLiveliness addr =>
    simp only [act]
    split <;> exact Or.inl (.refl h)
  | peerUp peer => exact Or.inl (.of_remote (.bookkeeping rfl rfl rfl rfl) rfl whole rfl)
  | peerDown peer =>
    exact Or.inl ⟨keeps.handlePeerDown .., rfl, whole, fun ep member => Or.inl (Participant.handlePeerDown_remote member)⟩
  | replayHistory index =>
    simp only [act]
    split
    · exact Or.inl (.refl h)
    · rename_i changed _
      cases changed with
      | false => exact Or.inl (.of_remote (.refl _) rfl whole rfl)
      | true => exact Or.inl (.of_remote (.recomputeMatches _) rfl whole rfl)
  | receive index peer =>
    simp only [act]
    split
    · exact Or.inl (.refl h)
    · rename_i frame found
      exact Or.inl (handle_steady h (List.eraseIdx_subset ..) (List.mem_of_getElem? found) _ peer)
  | duplicate index =>
    refine Or.inl (.of_remote (.refl _) rfl (fun frame member => ?_) rfl)
    rcases List.mem_append.mp member with before | copy
    · exact before
    · exact List.mem_of_getElem? (Option.mem_toList.mp copy)
  | lose index => exact Or.inl (.of_remote (.refl _) rfl (List.eraseIdx_subset ..) rfl)

theorem Sound.writer_accounted (sound : h.Sound others) {entry : Addr × WriterImpl} (member : entry ∈ h.party.writers)
    {p : Participant} {sample : CachedSample} {reliableFlag : Bool} (fits : p.NoHistory entry.2.record sample) :
    (Frame.data entry.2.guid sample reliableFlag).Accounted h.created p :=
  ⟨entry.2.record, sound.hosted (Participant.writer_record_mem member), rfl, fits⟩

theorem Sound.replay_accounted (sound : h.Sound others) {newReaders : List EndpointRecord} {now : U64}
    (safely : h.ReplaysSafely other now newReaders) :
    ∀ frame ∈ h.party.replayHistoryToPeer newReaders now, frame.Accounted h.created other.party := by
  intro frame member
  obtain ⟨ep, new, sent⟩ := List.mem_flatMap.mp member
  split at sent
  · exact absurd sent List.not_mem_nil
  · rename_i durable
    obtain ⟨entry, matching, cached⟩ := List.mem_flatMap.mp sent
    obtain ⟨e, replayed, rfl⟩ := List.mem_map.mp cached
    obtain ⟨inside, test⟩ := List.mem_filter.mp matching
    simp only [Bool.and_eq_true, decide_eq_true_eq] at test
    exact sound.writer_accounted inside (safely ep new (Classical.not_not.mp durable) entry inside
      test.1.1.1 test.1.1.2 test.1.2 e replayed)

theorem Sound.answer_accounted (sound : h.Sound others) {body : AckNackBody}
    (safely : h.AnswersSafely other (.acknack body)) :
    ∀ frame ∈ h.party.handleAcknack body, frame.Accounted h.created other.party := by
  intro frame member
  unfold Participant.handleAcknack at member
  split at member
  · rename_i w readerEp writer reader
    obtain ⟨⟨entry, inside, rfl⟩, guid⟩ := Participant.findWriter_mem writer
    obtain ⟨known, named⟩ := Participant.findRemoteEndpoint_mem reader
    rcases List.mem_append.mp member with resent | gap
    · obtain ⟨e, answered, rfl⟩ := List.mem_map.mp resent
      obtain ⟨cached, requested, entitled⟩ := entry.2.resend_requested _ _ answered
      rw [← guid]
      exact sound.writer_accounted inside (safely entry inside guid readerEp known named e cached requested entitled)
    · obtain ⟨body, _, rfl⟩ := Option.mem_map.mp (Option.mem_toList.mp gap)
      trivial
  · exact absurd member List.not_mem_nil

theorem Sound.handle_accounted (sound : h.Sound others) {inbox : List Frame} {frame : Frame}
    (safely : h.AnswersSafely other frame) (now : U64) (peer : PeerId) :
    ∀ sent ∈ ({ h with inbox }.handle now peer frame).2, sent.Accounted h.created other.party := by
  intro sent member
  cases frame with
  | announce snap announceSeq => exact absurd member List.not_mem_nil
  | data writer sample reliableFlag =>
    obtain ⟨nack, rfl⟩ := Participant.deliverSample_sends member
    trivial
  | acknack body => exact sound.answer_accounted safely sent member
  | heartbeat body =>
    obtain ⟨nack, rfl⟩ := Participant.handleHeartbeat_sends member
    trivial
  | gap body => exact absurd member List.not_mem_nil

/-- What a careful step sends is no history where it goes. -/
theorem Sound.act_accounted (sound : h.Sound others) {event : HostEvent} (careful : h.Careful other clock event) :
    ∀ frame ∈ (h.act clock event).2, frame.Accounted h.created other.party := by
  have announced : (Frame.announce h.party.snapshot h.party.announceSeq).Accounted h.created other.party :=
    sound.hosted
  intro frame member
  cases event with
  | write addr pubTimeUs data =>
    simp only [act] at member
    split at member
    · exact absurd member List.not_mem_nil
    · split at member
      · exact absurd member List.not_mem_nil
      · rename_i next ticket accepted
        obtain ⟨w, _, found, published, _, writer, targets⟩ := Participant.writeLocked_cases accepted
        obtain ⟨peer, target, rfl⟩ := List.mem_map.mp member
        rw [targets] at target
        have fits := careful (addr, w) (KeyedList.mem_of_lookup found) rfl (List.ne_nil_of_mem target)
        rw [← (WriterImpl.publish_cases published).1] at fits
        rw [writer]
        exact sound.writer_accounted (KeyedList.mem_of_lookup found) fits
  | broadcastAnnounce =>
    obtain ⟨peer, _, rfl⟩ := List.mem_map.mp member
    exact announced
  | sendAnnounce =>
    rw [List.mem_singleton.mp member]
    exact announced
  | sendHeartbeats =>
    obtain ⟨peer, _, sent⟩ := List.mem_flatMap.mp member
    obtain ⟨body, _, rfl⟩ := List.mem_map.mp sent
    trivial
  | assertLiveliness addr =>
    simp only [act] at member
    split at member
    · exact absurd member List.not_mem_nil
    · obtain ⟨peer, _, rfl⟩ := List.mem_map.mp member
      trivial
  | replayHistory index =>
    simp only [act] at member
    split at member
    · exact absurd member List.not_mem_nil
    · rename_i newReaders changed pending
      exact sound.replay_accounted (careful _ (Option.mem_toList.mpr pending)) frame member
  | receive index peer =>
    simp only [act] at member
    split at member
    · exact absurd member List.not_mem_nil
    · rename_i received found
      exact sound.handle_accounted (careful received (Option.mem_toList.mpr found)) _ peer frame member
  | createWriter addr topic type qos birthUs =>
    simp only [act] at member
    split at member
    · exact absurd member List.not_mem_nil
    · split at member <;> exact absurd member List.not_mem_nil
  | createReader addr topic type qos ignoreLocal birthUs =>
    simp only [act] at member
    split at member
    · exact absurd member List.not_mem_nil
    · split at member <;> exact absurd member List.not_mem_nil
  | replayLocalHistory index =>
    simp only [act] at member
    split at member <;> exact absurd member List.not_mem_nil
  | handOver index addr =>
    simp only [act] at member
    split at member
    · exact absurd member List.not_mem_nil
    · split at member <;> exact absurd member List.not_mem_nil
  | destroyWriter addr => exact absurd member List.not_mem_nil
  | destroyReader addr => exact absurd member List.not_mem_nil
  | take addr => exact absurd member List.not_mem_nil
  | available addr => exact absurd member List.not_mem_nil
  | addNode ns name => exact absurd member List.not_mem_nil
  | removeNode ns name => exact absurd member List.not_mem_nil
  | announceTick => exact absurd member List.not_mem_nil
  | peerUp peer => exact absurd member List.not_mem_nil
  | peerDown peer => exact absurd member List.not_mem_nil
  | duplicate index => exact absurd member List.not_mem_nil
  | lose index => exact absurd member List.not_mem_nil

/-- A sample that a reader queues is one it had not settled, so the frame's
account leaves only its birth. -/
theorem Sound.enqueued_fits (sound : h.Sound others) (unique : ∀ a ∈ others, ∀ b ∈ others, a.guid = b.guid → a = b)
    {event : HostEvent} {pair : ReaderImpl × CachedSample} (member : pair ∈ h.enqueued clock event)
    (durability : pair.1.qos.durability = .volatile) : pair.1.birthUs ≤ pair.2.pubTimeUs := by
  unfold enqueued at member
  split at member
  · split at member
    · rename_i index _ _ writer sample reliableFlag found
      obtain ⟨r, queuing, rfl⟩ := List.mem_map.mp member
      obtain ⟨ep, known, guid, fits⟩ := sound.inbox _ (List.mem_of_getElem? found)
      unfold Participant.queuing at queuing
      split at queuing
      · exact absurd queuing List.not_mem_nil
      · rename_i writerEp discovered
        obtain ⟨learned, named⟩ := Participant.findRemoteEndpoint_mem discovered
        have same := unique writerEp (sound.remote learned) ep known (named.trans guid.symm)
        obtain ⟨entry, matching, rfl⟩ := List.mem_map.mp queuing
        obtain ⟨inside, test⟩ := List.mem_filter.mp matching
        simp only [endpointsMatch, Bool.and_eq_true, decide_eq_true_eq] at test
        rw [ReaderImpl.enqueue_queued, Bool.and_eq_true] at test
        rw [same] at test
        rcases fits entry inside durability test.1.1.1.symm test.1.1.2.symm with born | settled
        · exact born
        · rw [guid] at settled
          exact absurd settled (WriterRxState.receive_isNew.mp test.2.1)
    · exact absurd member List.not_mem_nil
  · exact absurd member List.not_mem_nil

theorem act_created_subset {event : HostEvent} (careful : h.Careful other clock event) :
    h.created ⊆ (h.act clock event).1.created := by
  rcases act_cases careful with steady | ⟨ep, _, created, _⟩
  · rw [steady.created]
    exact List.Subset.refl _
  · rw [created]
    exact List.subset_append_left _ _

theorem Sound.act {event : HostEvent} (sound : h.Sound other.created) (careful : h.Careful other clock event) :
    (h.act clock event).1.Sound other.created := by
  rcases act_cases careful with steady | ⟨ep, adds, created, inbox, room, young⟩
  · exact sound.steady steady
  · exact sound.adds adds created inbox room young

end Host

namespace World

def Careful (w : World) : WorldEvent → Prop
  | .advance _ => True
  | .act side event => (w.host side).Careful (w.host (!side)) w.clock event

instance (w : World) : ∀ event, Decidable (w.Careful event)
  | .advance _ => isTrue trivial
  | .act side event => inferInstanceAs (Decidable ((w.host side).Careful (w.host (!side)) w.clock event))

def Sound (w : World) : Prop := ∀ side, (w.host side).Sound (w.host (!side)).created

theorem start_sound (owner : Bool → GuidPrefix) : (start owner).Sound := by
  intro side
  refine ⟨by simp [start, Participant.create], ?_, ?_, ?_, ?_, ?_, ?_⟩
  · exact fun ep member => absurd member List.not_mem_nil
  · exact fun ep member => absurd member List.not_mem_nil
  · exact fun ep member => absurd member List.not_mem_nil
  · exact fun entry member => absurd member List.not_mem_nil
  · exact fun ep member => absurd member List.not_mem_nil
  · exact fun frame member => absurd member List.not_mem_nil

theorem Sound.step {w : World} (sound : w.Sound) {event : WorldEvent} (careful : w.Careful event) :
    (w.step event).Sound := by
  cases event with
  | advance now => exact sound
  | act side event =>
    intro s
    have apart : (!side) ≠ side := by cases side <;> decide
    by_cases here : s = side
    · subst here
      simp only [World.step, if_true, if_neg apart]
      exact (sound s).act careful
    · have there : s = !side := by revert here; cases s <;> cases side <;> decide
      subst there
      simp only [World.step, Bool.not_not, if_true, if_neg apart]
      have back := sound (!side)
      rw [Bool.not_not] at back
      refine (back.more (Host.act_created_subset careful)).arrive (fun frame sent => ?_)
      exact ((sound side).act_accounted careful frame sent).mono (Host.act_created_subset careful)

/-- In every careful run of two participants, whatever their endpoints,
writes, discovery, requests, replays and losses, no volatile reader queues
a remote sample from before its creation. -/
theorem volatile_reader_sees_no_history (owner : Bool → GuidPrefix) (events : List WorldEvent)
    (careful : Run.Along step Careful (start owner) events) :
    ∀ pair ∈ Run.log step enqueued (start owner) events,
      pair.1.qos.durability = .volatile → pair.1.birthUs ≤ pair.2.pubTimeUs := by
  intro pair member durability
  obtain ⟨first, event, rest, rfl, queued⟩ := Run.exists_of_mem_log member
  have earlier := careful.earlier (List.prefix_append ..)
  have sound := earlier.invariant (fun w event old ok => Sound.step old ok) (start_sound owner)
  cases event with
  | advance now => exact absurd queued List.not_mem_nil
  | act side event =>
    have other := sound (!side)
    exact (sound side).enqueued_fits other.unique queued durability

def ownerOf (side : Bool) : GuidPrefix := ⟨List.replicate 12 (if side then 1 else 0), List.length_replicate⟩

def durableQos : QosProfile := { durability := .transientLocal }

/-- A sample is published at 1, then both announce and learn of each other;
the readers are created at 2, just before. -/
def joinAfterWrite (readers : List HostEvent) : List WorldEvent :=
  [.act false (.createWriter 1 [] [] durableQos 0), .advance 1, .act false (.write 1 1 []), .advance 2] ++
    readers.map (.act true) ++
    [.act false .announceTick, .act true .announceTick, .act false .sendAnnounce, .act true .sendAnnounce,
      .act true (.receive 0 0), .act false (.receive 0 0), .act false (.replayHistory 0)]

/-- A volatile reader that joins along with a transient-local one queues the
sample replayed for the other, published before both. -/
theorem volatile_reader_queues_replayed_history :
    ∃ pair ∈ Run.log step enqueued (start ownerOf)
        (joinAfterWrite [.createReader 2 [] [] {} false 2, .createReader 3 [] [] durableQos false 2] ++
          [.act true (.receive 0 0)]),
      pair.1.qos.durability = .volatile ∧ pair.2.pubTimeUs < pair.1.birthUs := by
  decide +kernel

/-- The volatile reader alone asks for the old sample when a live one
arrives and is sent a GAP instead. A transient-local reader that joins
after the GAP gets both samples, and the volatile one neither again. -/
def joinInTurn : List WorldEvent :=
  joinAfterWrite [.createReader 2 [] [] {} false 2] ++
    [.advance 3, .act false (.write 1 3 []), .act true (.receive 0 0), .act false (.receive 0 0), .act true (.receive 0 0),
      .act true (.createReader 3 [] [] durableQos false 3), .act true .announceTick, .act true .sendAnnounce,
      .act false (.receive 0 0), .act false (.replayHistory 0), .act true (.receive 0 0), .act true (.receive 0 0)]

theorem volatile_reader_beside_durable :
    Run.Along step Careful (start ownerOf) joinInTurn ∧
    (Run.log step enqueued (start ownerOf) joinInTurn).map (fun pair => (pair.1.qos, pair.2.seq)) =
      [({}, 2), (durableQos, 1), (durableQos, 2)] ∧
    ∀ pair ∈ Run.log step enqueued (start ownerOf) joinInTurn,
      pair.1.qos.durability = .volatile → pair.1.birthUs ≤ pair.2.pubTimeUs :=
  ⟨by decide +kernel, by decide +kernel, volatile_reader_sees_no_history ownerOf joinInTurn (by decide +kernel)⟩

end World

end Mdds
