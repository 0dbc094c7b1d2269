import Mdds.Announceable
import Mdds.EndpointGuids
import Mdds.WriterHistory

namespace Mdds

/-- What a participant brings into the world: an endpoint, a sample of one of
its writers, a snapshot of itself under an announce_seq. -/
inductive Fact
  | created (ep : EndpointRecord)
  | wrote (writer : Guid) (sample : CachedSample)
  | announced (snap : ParticipantSnapshot) (announceSeq : U64)
  deriving DecidableEq

instance (snap : ParticipantSnapshot) : Decidable snap.Encodable :=
  decidable_of_iff ((snap.nodes.length < 2 ^ 16 ∧ snap.endpoints.length < 2 ^ 16 ∧
      (∀ n ∈ snap.nodes, n.ns.length < 2 ^ 16 ∧ n.name.length < 2 ^ 16) ∧
      ∀ e ∈ snap.endpoints, e.topic.length < 2 ^ 16 ∧ e.typeName.length < 2 ^ 16) ∧ snap.wireSize < 2 ^ 32)
    ⟨fun fits => ⟨⟨fits.1.1, fits.1.2.1, fits.1.2.2.1, fits.1.2.2.2⟩, fits.2⟩,
      fun fits => ⟨⟨fits.nodes, fits.endpoints, fits.nodeNames, fits.endpointNames⟩, fits.body⟩⟩

/-- The calls that bring endpoints or samples into the world. -/
def Section.registers : Section → Bool
  | .createWriter .. | .createReader .. | .write .. => true
  | _ => false

/-- The first twelve bytes of a GUID are those of its participant. -/
theorem makeGuid_owner {owner other : GuidPrefix} {kind otherKind : EntityKind} {serial later : U32}
    (same : makeGuid owner kind serial = makeGuid other otherKind later) : owner = other := by
  have bytes := (List.append_inj (congrArg Guid.bytes same) (owner.size.trans other.size.symm)).1
  cases owner
  cases other
  cases bytes
  rfl

namespace Running

/-- The facts that a section makes true. -/
def tells (s : Running) : Section → List Fact
  | .createWriter addr topic type qos birthUs =>
    if s.writers.lookup addr = none ∧ qosValid qos = true then
      [.created ⟨makeGuid s.owner .writer (s.entitySerial + 1), .writer, topic, type, qos, birthUs⟩]
    else []
  | .createReader addr topic type qos _ birthUs =>
    if s.readers.lookup addr = none ∧ qosValid qos = true then
      [.created ⟨makeGuid s.owner .reader (s.entitySerial + 1), .reader, topic, type, qos, birthUs⟩]
    else []
  | .write addr pubTimeUs data now =>
    (s.writeLocked addr pubTimeUs data now).toList.map (fun result => .wrote result.2.writer result.2.sample)
  | .broadcastAnnounce => if s.loop = .broadcasting then [.announced s.snapshot s.announceSeq] else []
  | .sendAnnounce index => if index < s.greeting.length then [.announced s.snapshot s.announceSeq] else []
  | _ => []

/-- Nothing runs out: serials and seqs do not come around, payloads and
announces fit their length fields, and no reader comes to an address to which
a write has yet to deliver. -/
def Within (s : Running) : Section → Prop
  | .createWriter .. => s.entitySerial.toNat + 1 < 2 ^ 24
  | .createReader addr _ _ _ _ _ =>
    s.entitySerial.toNat + 1 < 2 ^ 24 ∧ ∀ ticket ∈ s.handing, addr ∉ ticket.localReaders
  | .write addr _ data _ =>
    data.length < 2 ^ 32 ∧ ∀ w, s.writers.lookup addr = some w → w.seq.toNat + 1 < 2 ^ 64
  | .announceTick _ => s.announceSeq.toNat + 1 < 2 ^ 64
  | .broadcastAnnounce | .sendAnnounce _ => s.snapshot.Encodable
  | _ => True

instance (s : Running) : ∀ turn, Decidable (s.Within turn)
  | .createWriter .. => inferInstanceAs (Decidable (_ < _))
  | .createReader .. => inferInstanceAs (Decidable (_ ∧ _))
  | .write addr _ data _ =>
    decidable_of_iff (data.length < 2 ^ 32 ∧ ∀ w ∈ s.writers.lookup addr, w.seq.toNat + 1 < 2 ^ 64) Iff.rfl
  | .announceTick _ => inferInstanceAs (Decidable (_ < _))
  | .broadcastAnnounce | .sendAnnounce _ => inferInstanceAs (Decidable (ParticipantSnapshot.Encodable _))
  | .destroyWriter _ | .destroyReader _ | .addNode .. | .removeNode .. | .announceNow | .replayLocalHistory .. | .handOver ..
  | .take .. | .available .. | .assertLiveliness _ | .sendHeartbeats | .periodExpires | .stop | .peerUp _ | .peerDown _
  | .bytes .. | .deliverSample .. | .replayHistory .. => isTrue trivial

/-- A write that has yet to deliver, with the endpoint it goes back to. -/
structure Owed (own : List Fact) (readers : List (Addr × ReaderImpl)) (ticket : Participant.WriteTicket)
    (ep : EndpointRecord) : Prop where
  created : .created ep ∈ own
  writer : ep.guid = ticket.writer
  qos : ep.qos = ticket.qos
  wrote : .wrote ticket.writer ticket.sample ∈ own
  matching : ∀ entry ∈ readers, entry.1 ∈ ticket.localReaders →
    endpointsMatch entry.2.topic entry.2.type entry.2.qos ep = true

/-- What a participant has said and what it holds. -/
structure Ledger (own : List Fact) (s : Running) : Prop where
  addrs : s.Distinct
  readerAddrs : (s.readers.map Prod.fst).Nodup
  guid : s.guid = makeGuid s.owner .participant 0
  serial : s.entitySerial.toNat < 2 ^ 24
  guids : (s.records.map EndpointRecord.guid).Nodup
  hosted : ∀ ep ∈ s.records, .created ep ∈ own
  numbered : ∀ ep, .created ep ∈ own →
    ∃ n : U32, n.toNat ≤ s.entitySerial.toNat ∧ ep.guid = makeGuid s.owner ep.kind n
  single : ∀ ep other, .created ep ∈ own → .created other ∈ own → ep.guid = other.guid → ep = other
  wrote : ∀ g sample, .wrote g sample ∈ own →
    (∃ ep, .created ep ∈ own ∧ ep.guid = g) ∧ sample.data.length < 2 ^ 32
  seqs : ∀ entry ∈ s.writers, ∀ sample, .wrote entry.2.guid sample ∈ own → sample.seq.toNat ≤ entry.2.seq.toNat
  once : ∀ g sample other, .wrote g sample ∈ own → .wrote g other ∈ own → sample.seq = other.seq → sample = other
  cached : ∀ entry ∈ s.writers, ∀ sample ∈ entry.2.history, .wrote entry.2.guid sample ∈ own
  handing : ∀ ticket ∈ s.handing, ∃ ep, Owed own s.readers ticket ep
  announced : ∀ snap announceSeq, .announced snap announceSeq ∈ own →
    announceSeq.toNat ≤ s.announceSeq.toNat ∧ snap.participantGuid = s.guid ∧ ∀ ep ∈ snap.endpoints, .created ep ∈ own

/-- A later state without new endpoints or samples. -/
structure Holds (s t : Running) : Prop where
  owner : t.owner = s.owner
  guid : t.guid = s.guid
  serial : t.entitySerial = s.entitySerial
  seq : s.announceSeq.toNat ≤ t.announceSeq.toNat
  records : t.records.Sublist s.records
  addrs : t.Distinct
  readerAddrs : (t.readers.map Prod.fst).Sublist (s.readers.map Prod.fst)
  writers : ∀ entry ∈ t.writers, ∃ old ∈ s.writers, old.1 = entry.1 ∧ old.2.guid = entry.2.guid ∧
    old.2.seq = entry.2.seq ∧ old.2.history = entry.2.history
  readers : ∀ entry ∈ t.readers, ∃ old ∈ s.readers, old.1 = entry.1 ∧ old.2.record = entry.2.record
  handing : ∀ ticket ∈ t.handing, ∃ old ∈ s.handing, old.writer = ticket.writer ∧ old.qos = ticket.qos ∧
    old.sample = ticket.sample ∧ ∀ addr ∈ ticket.localReaders, addr ∈ old.localReaders

/-- A state with one more endpoint, without any past. -/
structure Grows (s : Running) (ep : EndpointRecord) (t : Running) : Prop where
  owner : t.owner = s.owner
  guid : t.guid = s.guid
  serial : t.entitySerial = s.entitySerial + 1
  seq : t.announceSeq = s.announceSeq
  number : ep.guid = makeGuid s.owner ep.kind (s.entitySerial + 1)
  records : t.records.Perm (ep :: s.records)
  addrs : t.Distinct
  readerAddrs : (t.readers.map Prod.fst).Nodup
  writers : ∀ entry ∈ t.writers, (entry.2.guid = ep.guid ∧ entry.2.history = []) ∨ ∃ old ∈ s.writers,
    old.2.guid = entry.2.guid ∧ old.2.seq = entry.2.seq ∧ old.2.history = entry.2.history
  readers : ∀ entry ∈ t.readers, (∀ ticket ∈ s.handing, entry.1 ∉ ticket.localReaders) ∨ ∃ old ∈ s.readers,
    old.1 = entry.1 ∧ old.2.record = entry.2.record
  handing : t.handing = s.handing

end Running

/-- The same endpoints with the same samples. -/
structure Participant.SameHosts (p q : Participant) : Prop where
  owner : q.owner = p.owner
  guid : q.guid = p.guid
  serial : q.entitySerial = p.entitySerial
  seq : q.announceSeq = p.announceSeq
  writers : q.writers.map (fun entry => (entry.1, { entry.2 with matchedCount := 0 })) =
    p.writers.map (fun entry => (entry.1, { entry.2 with matchedCount := 0 }))
  readers : q.readers.map (fun entry => (entry.1, entry.2.record)) = p.readers.map (fun entry => (entry.1, entry.2.record))

namespace Participant.SameHosts
variable {p q : Participant}

theorem of_tables (owner : q.owner = p.owner) (guid : q.guid = p.guid) (serial : q.entitySerial = p.entitySerial)
    (seq : q.announceSeq = p.announceSeq) (writers : q.writers = p.writers) (readers : q.readers = p.readers) :
    p.SameHosts q :=
  ⟨owner, guid, serial, seq, by rw [writers], by rw [readers]⟩

theorem trans {r : Participant} (first : p.SameHosts q) (second : q.SameHosts r) : p.SameHosts r :=
  ⟨second.owner.trans first.owner, second.guid.trans first.guid, second.serial.trans first.serial,
    second.seq.trans first.seq, second.writers.trans first.writers, second.readers.trans first.readers⟩

theorem lasting : Lasting SameHosts where
  trans := trans
  bookkeeping _ _ _ _ := of_tables rfl rfl rfl rfl rfl rfl
  readers p f later := by
    refine ⟨rfl, rfl, rfl, rfl, rfl, ?_⟩
    rw [List.map_map]
    exact List.map_congr_left (fun entry _ => congrArg (Prod.mk entry.1) (later entry.1 entry.2).record)
  matched p := by
    refine ⟨rfl, rfl, rfl, rfl, ?_, ?_⟩ <;>
    · unfold recomputeMatches
      rw [List.map_map]
      rfl

theorem writer (same : p.SameHosts q) : ∀ entry ∈ q.writers, ∃ old ∈ p.writers, old.1 = entry.1 ∧
    old.2.guid = entry.2.guid ∧ old.2.seq = entry.2.seq ∧ old.2.history = entry.2.history := by
  intro entry member
  have inside := List.mem_map_of_mem (f := fun entry : Addr × WriterImpl => (entry.1, { entry.2 with matchedCount := 0 }))
    member
  rw [same.writers] at inside
  obtain ⟨old, before, equal⟩ := List.mem_map.mp inside
  obtain ⟨addr, bare⟩ := Prod.mk.inj equal
  obtain ⟨guid, _, _, _, _, _, seq, history⟩ := WriterImpl.mk.inj bare
  exact ⟨old, before, addr, guid, seq, history⟩

theorem reader (same : p.SameHosts q) :
    ∀ entry ∈ q.readers, ∃ old ∈ p.readers, old.1 = entry.1 ∧ old.2.record = entry.2.record := by
  intro entry member
  have inside := List.mem_map_of_mem (f := fun entry : Addr × ReaderImpl => (entry.1, entry.2.record)) member
  rw [same.readers] at inside
  obtain ⟨old, before, equal⟩ := List.mem_map.mp inside
  exact ⟨old, before, Prod.mk.inj equal⟩

theorem addrs (same : p.SameHosts q) : q.writers.map Prod.fst = p.writers.map Prod.fst := by
  have mapped := congrArg (List.map Prod.fst) same.writers
  rwa [List.map_map, List.map_map] at mapped

theorem readerAddrs (same : p.SameHosts q) : q.readers.map Prod.fst = p.readers.map Prod.fst := by
  have mapped := congrArg (List.map Prod.fst) same.readers
  rwa [List.map_map, List.map_map] at mapped

theorem records (same : p.SameHosts q) : q.records = p.records := by
  have writers := congrArg (List.map (fun entry : Addr × WriterImpl => entry.2.record)) same.writers
  have readers := congrArg (List.map Prod.snd) same.readers
  rw [List.map_map, List.map_map] at writers readers
  exact congrArg₂ (· ++ ·) writers readers

end Participant.SameHosts

/-- What the critical section of an accepted write hands over, and to whom. -/
theorem Participant.writeLocked_handed {p q : Participant} {addr : Addr} {pubTimeUs now : U64} {data : Bytes}
    {ticket : WriteTicket} (accepted : p.writeLocked addr pubTimeUs data now = some (q, ticket)) :
    ∃ w next, p.writers.lookup addr = some w ∧ w.publish pubTimeUs data now = some (next, ticket.sample) ∧
      q = { p with writers := KeyedList.modify addr (fun _ => next) p.writers } ∧ ticket.writer = w.guid ∧
      ticket.qos = w.qos ∧ ∀ target ∈ ticket.localReaders, ∃ r, (target, r) ∈ p.readers ∧
        endpointsMatch r.topic r.type r.qos w.record = true := by
  simp only [writeLocked, Option.bind_eq_bind, Option.bind_eq_some_iff, Option.pure_def, Option.some.injEq,
    Prod.mk.injEq] at accepted
  obtain ⟨w, found, ⟨next, sample⟩, published, rfl, rfl⟩ := accepted
  obtain ⟨_, topic, type, qos, _⟩ := WriterImpl.publish_guid published
  refine ⟨w, next, found, published, rfl, rfl, rfl, fun target named => ?_⟩
  obtain ⟨⟨other, r⟩, inside, rfl⟩ := List.mem_map.mp named
  obtain ⟨there, suits⟩ := List.mem_filter.mp inside
  refine ⟨r, there, ?_⟩
  simp only [topic, type, qos, Bool.and_eq_true, decide_eq_true_eq] at suits
  simp only [endpointsMatch, WriterImpl.record, Bool.and_eq_true]
  exact ⟨⟨decide_eq_true suits.1.1.2.symm, decide_eq_true suits.1.2.symm⟩, suits.2⟩

theorem WriterImpl.publish_sublist {w next : WriterImpl} {pubTimeUs now : U64} {data : Bytes} {sample : CachedSample}
    (accepted : w.publish pubTimeUs data now = some (next, sample)) :
    sample = ⟨w.seq + 1, pubTimeUs / 1000, pubTimeUs, data⟩ ∧ next.history.Sublist (w.history ++ [sample]) := by
  obtain ⟨made, ⟨_, rfl⟩ | ⟨_, _, suffix, _, rfl⟩⟩ := publish_cases accepted
  · exact ⟨made, List.sublist_append_left _ _⟩
  · exact ⟨made, suffix.sublist⟩

theorem Participant.SameTables.records {p q : Participant} (same : p.SameTables q) : q.records = p.records :=
  congrArg₂ (· ++ ·) same.writers same.readers

namespace Running
variable {s t : Running}

theorem Holds.of_same (same : s.SameHosts t.toParticipant) (distinct : s.Distinct)
    (handing : ∀ ticket ∈ t.handing, ∃ old ∈ s.handing, old.writer = ticket.writer ∧ old.qos = ticket.qos ∧
      old.sample = ticket.sample ∧ ∀ addr ∈ ticket.localReaders, addr ∈ old.localReaders) : s.Holds t where
  owner := same.owner
  guid := same.guid
  serial := same.serial
  seq := by rw [same.seq]
  records := same.records ▸ List.Sublist.refl _
  addrs := by
    rw [Distinct, same.addrs]
    exact distinct
  readerAddrs := same.readerAddrs ▸ List.Sublist.refl _
  writers := same.writer
  readers := same.reader
  handing := handing

theorem Holds.refl (distinct : s.Distinct) : s.Holds s :=
  .of_same (Participant.SameHosts.lasting.refl _) distinct (fun ticket member => ⟨ticket, member, rfl, rfl, rfl, fun _ => id⟩)

/-- What is left to hand over only gets less, but for a write. -/
theorem step_handing {turn : Section} (quiet : turn.registers = false) :
    ∀ ticket ∈ (s.next turn).handing, ∃ old ∈ s.handing, old.writer = ticket.writer ∧ old.qos = ticket.qos ∧
      old.sample = ticket.sample ∧ ∀ addr ∈ ticket.localReaders, addr ∈ old.localReaders := by
  intro ticket member
  have kept (same : (s.next turn).handing = s.handing) : ∃ old ∈ s.handing, old.writer = ticket.writer ∧
      old.qos = ticket.qos ∧ old.sample = ticket.sample ∧ ∀ addr ∈ ticket.localReaders, addr ∈ old.localReaders :=
    ⟨ticket, same ▸ member, rfl, rfl, rfl, fun _ => id⟩
  cases turn with
  | createWriter | createReader | write => cases quiet
  | handOver index target clock =>
    simp only [next, step] at member
    cases found : s.handing[index]? with
    | none =>
      simp only [found] at member
      exact ⟨ticket, member, rfl, rfl, rfl, fun _ => id⟩
    | some old =>
      simp only [found] at member
      split at member
      · rcases List.mem_or_eq_of_mem_set member with before | rfl
        · exact ⟨ticket, before, rfl, rfl, rfl, fun _ => id⟩
        · exact ⟨old, List.mem_of_getElem? found, rfl, rfl, rfl, fun _ => List.mem_of_mem_erase⟩
      · exact ⟨ticket, member, rfl, rfl, rfl, fun _ => id⟩
  | announceNow | periodExpires =>
    refine kept ?_
    simp only [next, step, announceNow, wake]
    split
    · rfl
    · try split
      all_goals rfl
  | replayLocalHistory | assertLiveliness | announceTick | broadcastAnnounce | sendHeartbeats | sendAnnounce | bytes
  | deliverSample | replayHistory =>
    refine kept ?_
    simp only [next, step]
    split <;> rfl
  | destroyWriter | destroyReader | addNode | removeNode | take | available | stop | peerUp | peerDown => exact kept rfl

theorem next_announceSeq {turn : Section} (distinct : s.Distinct) (within : s.Within turn) :
    s.announceSeq.toNat ≤ (s.next turn).announceSeq.toNat := by
  rcases step_announceSeq distinct turn with same | ⟨more, ticks, _⟩
  · exact (congrArg BitVec.toNat same).ge
  · cases turn with
    | announceTick now =>
      rw [next, more, BitVec.toNat_add_of_lt within]
      exact Nat.le_add_right ..
    | _ => cases ticks

/-- Only creations and writes say something about endpoints and samples. -/
theorem step_holds {turn : Section} (distinct : s.Distinct) (quiet : turn.registers = false) (within : s.Within turn) :
    s.Holds (s.next turn) := by
  have handing := @step_handing s turn quiet
  have still := step_distinct distinct turn
  cases turn with
  | createWriter | createReader | write => cases quiet
  | destroyWriter addr =>
    have same := Participant.SameHosts.lasting.matched { s.toParticipant with writers := KeyedList.erase addr s.writers }
    refine ⟨rfl, rfl, rfl, le_rfl, ?_, still, ?_, fun entry member => ?_, same.reader, handing⟩
    · have records : (s.next (.destroyWriter addr)).records =
          { s.toParticipant with writers := KeyedList.erase addr s.writers : Participant }.records := same.records
      exact records ▸ (List.filter_sublist.map _).append_right _
    · exact same.readerAddrs ▸ List.Sublist.refl _
    · obtain ⟨old, inside, equal⟩ := same.writer entry member
      exact ⟨old, List.mem_of_mem_filter inside, equal⟩
  | destroyReader addr =>
    have same := Participant.SameHosts.lasting.matched { s.toParticipant with readers := KeyedList.erase addr s.readers }
    refine ⟨rfl, rfl, rfl, le_rfl, ?_, still, ?_, same.writer, fun entry member => ?_, handing⟩
    · have records : (s.next (.destroyReader addr)).records =
          { s.toParticipant with readers := KeyedList.erase addr s.readers : Participant }.records := same.records
      exact records ▸ (List.filter_sublist.map _).append_left _
    · have addrs : (s.next (.destroyReader addr)).readers.map Prod.fst =
          (KeyedList.erase addr s.readers).map Prod.fst := same.readerAddrs
      exact addrs ▸ List.filter_sublist.map _
    · obtain ⟨old, inside, equal⟩ := same.reader entry member
      exact ⟨old, List.mem_of_mem_filter inside, equal⟩
  | addNode | removeNode => exact .of_same (.of_tables rfl rfl rfl rfl rfl rfl) distinct handing
  | announceTick now =>
    have kept : (s.next (.announceTick now)).writers = s.writers ∧ (s.next (.announceTick now)).readers = s.readers ∧
        (s.next (.announceTick now)).owner = s.owner ∧ (s.next (.announceTick now)).guid = s.guid ∧
        (s.next (.announceTick now)).entitySerial = s.entitySerial := by
      simp only [next, step]
      split <;> exact ⟨rfl, rfl, rfl, rfl, rfl⟩
    obtain ⟨writers, readers, owner, guid, serial⟩ := kept
    refine ⟨owner, guid, serial, ?_, ?_, still, ?_, fun entry member => ?_, fun entry member => ?_, handing⟩
    · exact next_announceSeq distinct within
    · rw [Participant.records, Participant.records, writers, readers]
    · rw [readers]
    · exact ⟨entry, writers ▸ member, rfl, rfl, rfl, rfl⟩
    · exact ⟨entry, readers ▸ member, rfl, rfl⟩
  | _ => exact .of_same (Participant.SameHosts.lasting.step rfl) distinct handing

variable {own : List Fact}

namespace Ledger

theorem holds (ledger : s.Ledger own) (holds : s.Holds t) : t.Ledger own where
  addrs := holds.addrs
  readerAddrs := ledger.readerAddrs.sublist holds.readerAddrs
  guid := by rw [holds.guid, holds.owner, ledger.guid]
  serial := holds.serial ▸ ledger.serial
  guids := ledger.guids.sublist (holds.records.map _)
  hosted ep member := ledger.hosted ep (holds.records.subset member)
  numbered ep said := by
    rw [holds.serial, holds.owner]
    exact ledger.numbered ep said
  single := ledger.single
  wrote := ledger.wrote
  seqs entry member sample said := by
    obtain ⟨old, before, _, guid, seq, _⟩ := holds.writers entry member
    rw [← seq]
    exact ledger.seqs old before sample (guid ▸ said)
  once := ledger.once
  cached entry member sample kept := by
    obtain ⟨old, before, _, guid, _, history⟩ := holds.writers entry member
    rw [← guid]
    exact ledger.cached old before sample (history ▸ kept)
  handing ticket member := by
    obtain ⟨old, before, writer, qos, sample, named⟩ := holds.handing ticket member
    obtain ⟨ep, owed⟩ := ledger.handing old before
    refine ⟨ep, owed.created, owed.writer.trans writer, owed.qos.trans qos, writer ▸ sample ▸ owed.wrote, ?_⟩
    intro entry inside addressed
    obtain ⟨reader, there, addr, record⟩ := holds.readers entry inside
    obtain ⟨_, _, topic, type, readerQos, _⟩ := EndpointRecord.mk.inj record
    rw [← topic, ← type, ← readerQos]
    exact owed.matching reader there (addr ▸ named _ addressed)
  announced snap announceSeq said := by
    obtain ⟨older, guid, endpoints⟩ := ledger.announced snap announceSeq said
    exact ⟨older.trans holds.seq, guid.trans holds.guid.symm, endpoints⟩

theorem announce (ledger : s.Ledger own) : s.Ledger (own ++ [.announced s.snapshot s.announceSeq]) := by
  have old {fact : Fact} (other : ∀ snap announceSeq, fact ≠ .announced snap announceSeq)
      (member : fact ∈ own ++ [.announced s.snapshot s.announceSeq]) : fact ∈ own := by
    rcases List.mem_append.mp member with before | now
    · exact before
    · exact absurd (List.mem_singleton.mp now) (other _ _)
  refine ⟨ledger.addrs, ledger.readerAddrs, ledger.guid, ledger.serial, ledger.guids, fun ep member => ?_,
    fun ep said => ledger.numbered ep (old nofun said),
    fun ep other first second => ledger.single ep other (old nofun first) (old nofun second), fun g sample said => ?_,
    fun entry member sample said => ledger.seqs entry member sample (old nofun said),
    fun g sample other first second => ledger.once g sample other (old nofun first) (old nofun second),
    fun entry member sample kept => List.mem_append_left _ (ledger.cached entry member sample kept),
    fun ticket member => ?_, fun snap announceSeq said => ?_⟩
  · exact List.mem_append_left _ (ledger.hosted ep member)
  · obtain ⟨⟨ep, created, guid⟩, short⟩ := ledger.wrote g sample (old nofun said)
    exact ⟨⟨ep, List.mem_append_left _ created, guid⟩, short⟩
  · obtain ⟨ep, owed⟩ := ledger.handing ticket member
    exact ⟨ep, List.mem_append_left _ owed.created, owed.writer, owed.qos, List.mem_append_left _ owed.wrote, owed.matching⟩
  · rcases List.mem_append.mp said with before | now
    · obtain ⟨older, guid, endpoints⟩ := ledger.announced snap announceSeq before
      exact ⟨older, guid, fun ep listed => List.mem_append_left _ (endpoints ep listed)⟩
    · obtain ⟨rfl, rfl⟩ := Fact.announced.inj (List.mem_singleton.mp now)
      exact ⟨le_rfl, rfl, fun ep listed => List.mem_append_left _ (ledger.hosted ep listed)⟩

/-- The GUID of the next endpoint is new. -/
theorem unused (ledger : s.Ledger own) (room : s.entitySerial.toNat + 1 < 2 ^ 24) {ep : EndpointRecord}
    (number : ep.guid = makeGuid s.owner ep.kind (s.entitySerial + 1)) {other : EndpointRecord}
    (said : .created other ∈ own) : other.guid ≠ ep.guid := by
  intro same
  obtain ⟨n, older, numbered⟩ := ledger.numbered other said
  have next : (s.entitySerial + 1).toNat = s.entitySerial.toNat + 1 := BitVec.toNat_add_of_lt (room.trans (by decide))
  rw [numbered, number] at same
  have equal := makeGuid_serial (by omega) (by omega) same
  have bounds := congrArg BitVec.toNat equal
  omega

theorem create (ledger : s.Ledger own) (room : s.entitySerial.toNat + 1 < 2 ^ 24) {ep : EndpointRecord}
    (grows : s.Grows ep t) : t.Ledger (own ++ [.created ep]) := by
  have next : (s.entitySerial + 1).toNat = s.entitySerial.toNat + 1 := BitVec.toNat_add_of_lt (room.trans (by decide))
  have fresh {other : EndpointRecord} (said : .created other ∈ own) := ledger.unused room grows.number said
  have created {other : EndpointRecord} : .created other ∈ own ++ [.created ep] ↔ .created other ∈ own ∨ other = ep := by
    rw [List.mem_append, List.mem_singleton, Fact.created.injEq]
  have wrote {g : Guid} {sample : CachedSample} (said : .wrote g sample ∈ own ++ [.created ep]) : .wrote g sample ∈ own := by
    simpa using said
  have announced {snap : ParticipantSnapshot} {announceSeq : U64} (said : .announced snap announceSeq ∈ own ++ [.created ep]) :
      .announced snap announceSeq ∈ own := by
    simpa using said
  refine ⟨grows.addrs, grows.readerAddrs, ?_, ?_, ?_, fun other member => ?_, fun other said => ?_,
    fun first second said again same => ?_, fun g sample said => ?_, fun entry member sample said => ?_,
    fun g sample other first second => ledger.once g sample other (wrote first) (wrote second),
    fun entry member sample kept => List.mem_append_left _ ?_, fun ticket member => ?_, fun snap announceSeq said => ?_⟩
  · rw [grows.guid, grows.owner, ledger.guid]
  · rw [grows.serial, next]
    exact room
  · refine ((grows.records.map EndpointRecord.guid).nodup_iff).mpr (List.nodup_cons.mpr ⟨fun inside => ?_, ledger.guids⟩)
    obtain ⟨other, hosted, same⟩ := List.mem_map.mp inside
    exact fresh (ledger.hosted other hosted) same
  · rcases List.mem_cons.mp (grows.records.subset member) with rfl | before
    · exact created.mpr (Or.inr rfl)
    · exact created.mpr (Or.inl (ledger.hosted other before))
  · rw [grows.owner, grows.serial]
    rcases created.mp said with before | rfl
    · obtain ⟨n, older, number⟩ := ledger.numbered other before
      exact ⟨n, by omega, number⟩
    · exact ⟨s.entitySerial + 1, le_rfl, grows.number⟩
  · rcases created.mp said with before | rfl
    · rcases created.mp again with also | rfl
      · exact ledger.single first second before also same
      · exact absurd same (fresh before)
    · rcases created.mp again with also | rfl
      · exact absurd same.symm (fresh also)
      · rfl
  · obtain ⟨⟨other, said, guid⟩, short⟩ := ledger.wrote g sample (wrote said)
    exact ⟨⟨other, created.mpr (Or.inl said), guid⟩, short⟩
  · have before := wrote said
    rcases grows.writers entry member with ⟨guid, _⟩ | ⟨writer, there, guid, seq, _⟩
    · obtain ⟨⟨other, said, same⟩, _⟩ := ledger.wrote _ _ before
      exact absurd (same.trans guid) (fresh said)
    · rw [← seq]
      exact ledger.seqs writer there sample (guid ▸ before)
  · rcases grows.writers entry member with ⟨_, empty⟩ | ⟨writer, there, guid, _, history⟩
    · exact absurd kept (by simp [empty])
    · rw [← guid]
      exact ledger.cached writer there sample (history ▸ kept)
  · rw [grows.handing] at member
    obtain ⟨other, owed⟩ := ledger.handing ticket member
    refine ⟨other, created.mpr (Or.inl owed.created), owed.writer, owed.qos, List.mem_append_left _ owed.wrote, ?_⟩
    intro entry inside addressed
    rcases grows.readers entry inside with unnamed | ⟨reader, there, addr, record⟩
    · exact absurd addressed (unnamed ticket member)
    · obtain ⟨_, _, topic, type, readerQos, _⟩ := EndpointRecord.mk.inj record
      rw [← topic, ← type, ← readerQos]
      exact owed.matching reader there (addr ▸ addressed)
  · obtain ⟨older, guid, endpoints⟩ := ledger.announced snap announceSeq (announced said)
    exact ⟨grows.seq ▸ older, guid.trans grows.guid.symm, fun ep listed => created.mpr (Or.inl (endpoints ep listed))⟩

/-- An accepted write. -/
theorem write (ledger : s.Ledger own) {addr : Addr} {pubTimeUs now : U64} {data : Bytes} {next : Participant}
    {ticket : Participant.WriteTicket} (accepted : s.writeLocked addr pubTimeUs data now = some (next, ticket))
    (within : s.Within (.write addr pubTimeUs data now)) :
    Ledger (own ++ [.wrote ticket.writer ticket.sample])
      { s with toParticipant := next, handing := s.handing ++ [ticket] } := by
  obtain ⟨w, published, found, publish, rfl, writer, qos, named⟩ := Participant.writeLocked_handed accepted
  obtain ⟨made, history⟩ := WriterImpl.publish_sublist publish
  obtain ⟨guid, topic, type, samePolicy, seq⟩ := WriterImpl.publish_guid publish
  have here : (addr, w) ∈ s.writers := KeyedList.mem_of_lookup found
  have record := ledger.hosted _ (Participant.writer_record_mem here)
  have room := within.2 w found
  have later : (w.seq + 1).toNat = w.seq.toNat + 1 := BitVec.toNat_add_of_lt room
  have number : ticket.sample.seq = w.seq + 1 := by rw [made]
  have tables := Participant.SameTables.writeLocked ledger.addrs accepted
  have entries {entry : Addr × WriterImpl} (member : entry ∈ KeyedList.modify addr (fun _ => published) s.writers) :
      entry = (addr, published) ∨ entry ∈ s.writers ∧ entry.2.guid ≠ w.guid := by
    obtain ⟨old, inside, rfl⟩ := List.mem_map.mp member
    by_cases same : old.1 = addr
    · rw [if_pos same, same]
      exact Or.inl rfl
    · rw [if_neg same]
      refine Or.inr ⟨inside, fun shared => same ?_⟩
      have distinct : (s.writers.map (fun entry => entry.2.guid)).Nodup := by
        have all := ledger.guids
        rw [Participant.records, List.map_append, List.map_map] at all
        exact (List.nodup_append.mp all).1
      exact congrArg Prod.fst (List.inj_on_of_nodup_map distinct inside here shared)
  have wrote {g : Guid} {sample : CachedSample} : .wrote g sample ∈ own ++ [.wrote ticket.writer ticket.sample] ↔
      .wrote g sample ∈ own ∨ g = w.guid ∧ sample = ticket.sample := by
    rw [List.mem_append, List.mem_singleton, Fact.wrote.injEq, writer]
  have created {ep : EndpointRecord} : .created ep ∈ own ++ [.wrote ticket.writer ticket.sample] ↔ .created ep ∈ own := by
    simp
  have before {g : Guid} {sample : CachedSample} (old : .wrote g sample ∈ own) (same : g = w.guid) :
      sample.seq.toNat < ticket.sample.seq.toNat := by
    have upTo : sample.seq.toNat ≤ w.seq.toNat := ledger.seqs _ here sample (same ▸ old)
    rw [number, later]
    omega
  refine ⟨?_, ledger.readerAddrs, ledger.guid, ledger.serial, ?_, fun ep member => ?_, fun ep said => ?_,
    fun first second said again => ledger.single first second (created.mp said) (created.mp again), fun g sample said => ?_,
    fun entry member sample said => ?_, fun g sample other said again same => ?_, fun entry member sample kept => ?_,
    fun pending member => ?_, fun snap announceSeq said => ?_⟩
  · rw [Distinct, tables.addrs]
    exact ledger.addrs
  · exact (tables.records ▸ ledger.guids : (List.map _ _).Nodup)
  · exact created.mpr (ledger.hosted ep (tables.records ▸ member))
  · exact ledger.numbered ep (created.mp said)
  · rcases wrote.mp said with old | ⟨rfl, rfl⟩
    · obtain ⟨⟨ep, created', same⟩, short⟩ := ledger.wrote g sample old
      exact ⟨⟨ep, created.mpr created', same⟩, short⟩
    · refine ⟨⟨_, created.mpr record, rfl⟩, ?_⟩
      rw [made]
      exact within.1
  · rcases entries member with rfl | ⟨inside, differ⟩
    · rcases wrote.mp said with old | ⟨_, rfl⟩
      · have upTo := before old guid
        rw [number, ← seq] at upTo
        exact upTo.le
      · rw [number, ← seq]
    · rcases wrote.mp said with old | ⟨same, _⟩
      · exact ledger.seqs entry inside sample old
      · exact absurd same differ
  · rcases wrote.mp said with old | ⟨rfl, rfl⟩
    · rcases wrote.mp again with also | ⟨rfl, rfl⟩
      · exact ledger.once g sample other old also same
      · exact absurd (before old rfl) (same ▸ lt_irrefl _)
    · rcases wrote.mp again with also | ⟨_, rfl⟩
      · exact absurd (before also rfl) (same ▸ lt_irrefl _)
      · rfl
  · rcases entries member with rfl | ⟨inside, _⟩
    · rw [guid]
      rcases List.mem_append.mp (history.subset kept) with old | last
      · exact wrote.mpr (Or.inl (ledger.cached _ here sample old))
      · exact wrote.mpr (Or.inr ⟨rfl, List.mem_singleton.mp last⟩)
    · exact wrote.mpr (Or.inl (ledger.cached entry inside sample kept))
  · rcases List.mem_append.mp member with old | last
    · obtain ⟨ep, owed⟩ := ledger.handing pending old
      exact ⟨ep, created.mpr owed.created, owed.writer, owed.qos, wrote.mpr (Or.inl owed.wrote), owed.matching⟩
    · obtain rfl := List.mem_singleton.mp last
      refine ⟨w.record, created.mpr record, writer.symm, qos.symm, wrote.mpr (Or.inr ⟨writer, rfl⟩), ?_⟩
      intro entry inside addressed
      obtain ⟨r, there, matching⟩ := named _ addressed
      obtain rfl : r = entry.2 := congrArg Prod.snd (List.inj_on_of_nodup_map ledger.readerAddrs there inside rfl)
      exact matching
  · obtain ⟨older, guid, endpoints⟩ := ledger.announced snap announceSeq (by simpa using said)
    exact ⟨older, guid, fun ep listed => created.mpr (endpoints ep listed)⟩

end Ledger

theorem next_createWriter {addr : Addr} {topic type : Bytes} {qos : QosProfile} {birthUs : U64}
    (refused : ¬ (s.writers.lookup addr = none ∧ qosValid qos = true)) :
    s.next (.createWriter addr topic type qos birthUs) = s := by
  cases known : s.writers.lookup addr with
  | some w => simp [next, step, known]
  | none =>
    have invalid : s.createWriter addr topic type qos birthUs = none :=
      if_pos (by simpa using fun valid => refused ⟨known, valid⟩)
    simp [next, step, known, invalid, changed]

theorem next_createReader {addr : Addr} {topic type : Bytes} {qos : QosProfile} {ignoreLocal : Bool} {birthUs : U64}
    (refused : ¬ (s.readers.lookup addr = none ∧ qosValid qos = true)) :
    s.next (.createReader addr topic type qos ignoreLocal birthUs) = s := by
  cases known : s.readers.lookup addr with
  | some r => simp [next, step, known]
  | none =>
    have invalid : s.createReader addr topic type qos ignoreLocal birthUs = none :=
      if_pos (by simpa using fun valid => refused ⟨known, valid⟩)
    simp [next, step, known, invalid, changed]

theorem Grows.createWriter (ledger : s.Ledger own) {addr : Addr} {topic type : Bytes} {qos : QosProfile} {birthUs : U64}
    (absent : s.writers.lookup addr = none) (valid : qosValid qos = true) :
    s.Grows ⟨makeGuid s.owner .writer (s.entitySerial + 1), .writer, topic, type, qos, birthUs⟩
      (s.next (.createWriter addr topic type qos birthUs)) := by
  let fresh : WriterImpl := { guid := makeGuid s.owner .writer (s.entitySerial + 1), topic, type, qos, birthUs }
  let party : Participant :=
    { s.toParticipant with entitySerial := s.entitySerial + 1, writers := KeyedList.emplace addr fresh s.writers }
  have created : s.createWriter addr topic type qos birthUs = some party.recomputeMatches := if_neg (by simp [valid])
  have made : (s.next (.createWriter addr topic type qos birthUs)) = s.changed (some party.recomputeMatches) := by
    simp only [next, step, absent, Option.isSome_none, Bool.false_eq_true, if_false, created]
  have unused : addr ∉ s.writers.map Prod.fst := KeyedList.not_mem_keys absent
  have same := Participant.SameHosts.lasting.matched party
  rw [made]
  refine ⟨rfl, rfl, rfl, rfl, rfl, ?_, ?_, ?_, fun entry member => ?_, fun entry member => Or.inr (same.reader entry member),
    rfl⟩
  · rw [changed, same.records]
    exact ((KeyedList.emplace_perm unused).map _).append_right _
  · rw [Distinct, changed, same.addrs]
    exact KeyedList.nodup_emplace ledger.addrs unused
  · rw [changed, same.readerAddrs]
    exact ledger.readerAddrs
  · obtain ⟨old, inside, _, guid, seq, history⟩ := same.writer entry member
    rcases KeyedList.mem_of_mem_emplace inside with rfl | before
    · exact Or.inl ⟨guid.symm, history.symm⟩
    · exact Or.inr ⟨old, before, guid, seq, history⟩

theorem Grows.createReader (ledger : s.Ledger own) {addr : Addr} {topic type : Bytes} {qos : QosProfile} {ignoreLocal : Bool}
    {birthUs : U64} (absent : s.readers.lookup addr = none) (valid : qosValid qos = true)
    (unnamed : ∀ ticket ∈ s.handing, addr ∉ ticket.localReaders) :
    s.Grows ⟨makeGuid s.owner .reader (s.entitySerial + 1), .reader, topic, type, qos, birthUs⟩
      (s.next (.createReader addr topic type qos ignoreLocal birthUs)) := by
  let fresh : ReaderImpl :=
    { guid := makeGuid s.owner .reader (s.entitySerial + 1), topic, type, qos, ignoreLocal, birthUs }
  let party : Participant :=
    { s.toParticipant with entitySerial := s.entitySerial + 1, readers := KeyedList.emplace addr fresh s.readers }
  have created : s.createReader addr topic type qos ignoreLocal birthUs = some party.recomputeMatches :=
    if_neg (by simp [valid])
  have made : (s.next (.createReader addr topic type qos ignoreLocal birthUs)) =
      { s.changed (some party.recomputeMatches) with joining := s.joining ++ [addr] } := by
    simp only [next, step, absent, Option.isSome_none, Bool.false_eq_true, if_false, created, Option.isSome_some, if_true]
  have unused : addr ∉ s.readers.map Prod.fst := KeyedList.not_mem_keys absent
  have same := Participant.SameHosts.lasting.matched party
  rw [made]
  refine ⟨rfl, rfl, rfl, rfl, rfl, ?_, ?_, ?_, fun entry member => Or.inr ?_, fun entry member => ?_, rfl⟩
  · rw [changed, same.records]
    exact (((KeyedList.emplace_perm unused).map _).append_left _).trans List.perm_middle
  · rw [Distinct, changed, same.addrs]
    exact ledger.addrs
  · rw [changed, same.readerAddrs]
    exact KeyedList.nodup_emplace ledger.readerAddrs unused
  · obtain ⟨old, inside, _, equal⟩ := same.writer entry member
    exact ⟨old, inside, equal⟩
  · obtain ⟨old, inside, address, record⟩ := same.reader entry member
    rcases KeyedList.mem_of_mem_emplace inside with rfl | before
    · exact Or.inl (fun ticket pending => address ▸ unnamed ticket pending)
    · exact Or.inr ⟨old, before, address, record⟩

namespace Ledger

theorem initial (owner : GuidPrefix) : Ledger [] (Running.create owner) where
  addrs := List.nodup_nil
  readerAddrs := List.nodup_nil
  guid := rfl
  serial := Nat.two_pow_pos 24
  guids := List.nodup_nil
  hosted _ member := absurd member List.not_mem_nil
  numbered _ said := absurd said List.not_mem_nil
  single _ _ said := absurd said List.not_mem_nil
  wrote _ _ said := absurd said List.not_mem_nil
  seqs _ member := absurd member List.not_mem_nil
  once _ _ _ said := absurd said List.not_mem_nil
  cached _ member := absurd member List.not_mem_nil
  handing _ member := absurd member List.not_mem_nil
  announced _ _ said := absurd said List.not_mem_nil

/-- Every section keeps the books. -/
theorem step (ledger : s.Ledger own) {turn : Section} (within : s.Within turn) :
    (s.next turn).Ledger (own ++ s.tells turn) := by
  have quiet (silent : s.tells turn = []) (same : s.Holds (s.next turn)) : (s.next turn).Ledger (own ++ s.tells turn) := by
    rw [silent, List.append_nil]
    exact ledger.holds same
  cases turn with
  | createWriter addr topic type qos birthUs =>
    by_cases accepted : s.writers.lookup addr = none ∧ qosValid qos = true
    · rw [tells, if_pos accepted]
      exact ledger.create within (.createWriter ledger accepted.1 accepted.2)
    · rw [tells, if_neg accepted, next_createWriter accepted, List.append_nil]
      exact ledger
  | createReader addr topic type qos ignoreLocal birthUs =>
    by_cases accepted : s.readers.lookup addr = none ∧ qosValid qos = true
    · rw [tells, if_pos accepted]
      exact ledger.create within.1 (.createReader ledger accepted.1 accepted.2 within.2)
    · rw [tells, if_neg accepted, next_createReader accepted, List.append_nil]
      exact ledger
  | write addr pubTimeUs data now =>
    cases accepted : s.writeLocked addr pubTimeUs data now with
    | none => simpa [tells, next, Running.step, accepted] using ledger
    | some result => simpa [tells, next, Running.step, accepted] using ledger.write accepted within
  | broadcastAnnounce =>
    have same := step_holds ledger.addrs rfl within
    by_cases phase : s.loop = .broadcasting
    · rw [tells, if_pos phase]
      exact ledger.announce.holds same
    · exact quiet (if_neg phase) same
  | sendAnnounce index =>
    have same := step_holds ledger.addrs rfl within
    by_cases waiting : index < s.greeting.length
    · rw [tells, if_pos waiting]
      exact ledger.announce.holds same
    · exact quiet (if_neg waiting) same
  | _ => exact quiet rfl (step_holds ledger.addrs rfl within)

theorem owner (ledger : s.Ledger own) {turn : Section} (within : s.Within turn) : (s.next turn).owner = s.owner := by
  cases registers : turn.registers with
  | false => exact (step_holds ledger.addrs registers within).owner
  | true =>
    cases turn with
    | createWriter addr topic type qos birthUs =>
      by_cases accepted : s.writers.lookup addr = none ∧ qosValid qos = true
      · exact (Grows.createWriter ledger accepted.1 accepted.2).owner
      · rw [next_createWriter accepted]
    | createReader addr topic type qos ignoreLocal birthUs =>
      by_cases accepted : s.readers.lookup addr = none ∧ qosValid qos = true
      · exact (Grows.createReader ledger accepted.1 accepted.2 within.2).owner
      · rw [next_createReader accepted]
    | write addr pubTimeUs data now =>
      cases locked : s.writeLocked addr pubTimeUs data now with
      | none => simp only [next, Running.step, locked]
      | some result =>
        obtain ⟨_, _, _, _, same, _⟩ := Participant.writeLocked_cases locked
        simp only [next, Running.step, locked, same]
    | _ => cases registers

end Ledger

end Running

end Mdds
