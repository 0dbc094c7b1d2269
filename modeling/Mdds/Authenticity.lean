import Mdds.Fabric
import Mdds.RemoteState

namespace Mdds

variable {ι : Type} {known later : ι → List Fact}

/-- What everybody has said fits together. -/
structure Coherent (known : ι → List Fact) : Prop where
  unique : ∀ writer sample other, Stated known (.wrote writer sample) → Stated known (.wrote writer other) →
    sample.seq = other.seq → sample = other
  short : ∀ writer sample, Stated known (.wrote writer sample) → sample.data.length < 2 ^ 32
  single : ∀ ep other, Stated known (.created ep) → Stated known (.created other) → ep.guid = other.guid → ep = other
  listed : ∀ snap announceSeq, Stated known (.announced snap announceSeq) →
    ∀ ep ∈ snap.endpoints, Stated known (.created ep)

/-- The partial holds pieces of a sample that somebody wrote. -/
def Partial.Honest (known : ι → List Fact) (key : SampleKey) (part : Partial) : Prop :=
  ∃ sample seen, Stated known (.wrote key.writer sample) ∧ sample.seq = key.seq ∧ part.Tracks sample.data seen

/-- Everything a participant has from others is what they have said. -/
structure Honest (known : ι → List Fact) (s : Running) : Prop where
  remote : ∀ entry ∈ s.remote, entry.2.snap.participantGuid = entry.1 ∧
    Stated known (.announced entry.2.snap entry.2.announceSeq)
  partials : ∀ entry ∈ s.reassemblers, ∀ part ∈ entry.2.partials, part.2.Honest known part.1
  delivering : ∀ item ∈ s.delivering, Wrote known item.2.1.writer item.2.1.seq item.2.1.pubTimeMs item.2.2
  unread : ∀ entry ∈ s.readers, ∀ content ∈ entry.2.unread, Authentic known entry.2 content

theorem Honest.mono (more : ∀ i, ∀ fact ∈ known i, fact ∈ later i) {s : Running} (honest : Honest known s) :
    Honest later s := by
  refine ⟨fun entry member => ?_, fun entry member part inside => ?_, fun item member => (honest.delivering item member).mono more,
    fun entry member content kept => (honest.unread entry member content kept).mono more⟩
  · obtain ⟨key, told⟩ := honest.remote entry member
    exact ⟨key, told.mono more⟩
  · obtain ⟨sample, seen, told, rest⟩ := honest.partials entry member part inside
    exact ⟨sample, seen, told.mono more, rest⟩

theorem Honest.create (owner : GuidPrefix) : Honest known (Running.create owner) :=
  ⟨fun _ member => absurd member List.not_mem_nil, fun _ member => absurd member List.not_mem_nil,
    fun _ member => absurd member List.not_mem_nil, fun _ member => absurd member List.not_mem_nil⟩

theorem ParticipantImpl.handleBytes_reassemblers (p : ParticipantImpl) (peer : PeerId) {data : Bytes} (clocks : Clocks)
    (noFragment : decodeDataFrag data = none) : (p.handleBytes peer data clocks).1.reassemblers = p.reassemblers := by
  unfold handleBytes
  rw [noFragment]
  split
  · rfl
  · split <;> rfl
  · split <;> rfl
  · rfl
  · rfl
  · split <;> rfl
  · split <;> rfl
  · rfl

namespace Running
variable {s : Running}

/-- Fragments are gathered, and samples completed, by received frames only. -/
theorem step_gathered {turn : Section} (quiet : ∀ peer data clocks, turn ≠ .bytes peer data clocks) :
    (∀ entry ∈ (s.next turn).reassemblers, ∃ old ∈ s.reassemblers, ∀ part ∈ entry.2.partials, part ∈ old.2.partials) ∧
      ∀ item ∈ (s.next turn).delivering, item ∈ s.delivering := by
  have same {t : Running} (reassemblers : t.reassemblers = s.reassemblers) (delivering : t.delivering = s.delivering) :
      (∀ entry ∈ t.reassemblers, ∃ old ∈ s.reassemblers, ∀ part ∈ entry.2.partials, part ∈ old.2.partials) ∧
        ∀ item ∈ t.delivering, item ∈ s.delivering :=
    ⟨fun entry member => ⟨entry, reassemblers ▸ member, fun _ => id⟩, fun item member => delivering ▸ member⟩
  unfold next
  cases turn with
  | bytes peer data clocks => exact absurd rfl (quiet peer data clocks)
  | announceTick now =>
    simp only [step]
    split
    · refine ⟨fun entry member => ?_, fun item => id⟩
      obtain ⟨old, inside, rfl⟩ := List.mem_map.mp member
      exact ⟨old, inside, fun part kept => List.mem_of_mem_filter kept⟩
    · exact same rfl rfl
  | peerDown peer => exact ⟨fun entry member => ⟨entry, List.mem_of_mem_filter member, fun _ => id⟩, fun item => id⟩
  | deliverSample index clocks =>
    simp only [step]
    split
    · exact same rfl rfl
    · exact ⟨fun entry member => ⟨entry, member, fun _ => id⟩, fun item member => List.mem_of_mem_eraseIdx member⟩
  | createWriter addr topic type qos birthUs =>
    simp only [step]
    split
    · exact same rfl rfl
    · cases s.createWriter addr topic type qos birthUs <;> exact same rfl rfl
  | createReader addr topic type qos ignoreLocal birthUs =>
    simp only [step]
    split
    · exact same rfl rfl
    · cases s.createReader addr topic type qos ignoreLocal birthUs <;> exact same rfl rfl
  | handOver index addr clock =>
    simp only [step]
    split
    · exact same rfl rfl
    · split <;> exact same rfl rfl
  | announceNow | periodExpires =>
    simp only [step, announceNow, wake]
    split
    · exact same rfl rfl
    · try split
      all_goals exact same rfl rfl
  | replayLocalHistory | write | assertLiveliness | broadcastAnnounce | sendHeartbeats | sendAnnounce | replayHistory =>
    simp only [step]
    split <;> exact same rfl rfl
  | destroyWriter | destroyReader | addNode | removeNode | take | available | stop | peerUp => exact same rfl rfl

end Running

/-- The call brings a sample that was written for the reader, if it brings any. -/
def ReaderOp.Authentic (known : ι → List Fact) (r : ReaderImpl) : ReaderOp → Prop
  | .enqueue writer seq data _ pubTimeMs _ _ => Mdds.Authentic known r (data, ⟨writer, seq, pubTimeMs⟩)
  | _ => True

theorem ReaderImpl.entered_eq {r : ReaderImpl} {op : ReaderOp} {content : Bytes × MessageInfo}
    (member : content ∈ r.entered op) : ∃ writerQos now sweepNow,
      op = .enqueue content.2.writerGuid content.2.seq content.1 writerQos content.2.pubTimeMs now sweepNow := by
  cases op with
  | enqueue writer seq data writerQos pubTimeMs now sweepNow =>
    simp only [entered] at member
    split at member
    · obtain rfl := List.mem_singleton.mp member
      exact ⟨writerQos, now, sweepNow, rfl⟩
    · exact absurd member List.not_mem_nil
  | applyGap | take | available => exact absurd member List.not_mem_nil

theorem ReaderImpl.exec_static (r : ReaderImpl) (ops : List ReaderOp) :
    (Run.exec step r ops).topic = r.topic ∧ (Run.exec step r ops).type = r.type ∧ (Run.exec step r ops).qos = r.qos := by
  induction ops using List.reverseRecOn with
  | nil => exact ⟨rfl, rfl, rfl⟩
  | append_singleton ops op ih =>
    obtain ⟨_, topic, type, qos, _⟩ := step_static (Run.exec step r ops) op
    rw [Run.exec_snoc]
    exact ⟨topic.trans ih.1, type.trans ih.2.1, qos.trans ih.2.2⟩

theorem Participant.localReplay_suits {p : Participant} {r : ReaderImpl} {now : U64} {w : WriterImpl} {sample : CachedSample}
    (replayed : (w, sample) ∈ p.localReplay r now) :
    (∃ entry ∈ p.writers, entry.2 = w ∧ sample ∈ entry.2.history) ∧
      endpointsMatch r.topic r.type r.qos w.record = true := by
  unfold localReplay at replayed
  split at replayed
  · exact absurd replayed List.not_mem_nil
  · obtain ⟨entry, inside, cached⟩ := List.mem_flatMap.mp replayed
    obtain ⟨e, kept, same⟩ := List.mem_map.mp cached
    obtain ⟨rfl, rfl⟩ := Prod.mk.inj same
    obtain ⟨hosted, suits⟩ := List.mem_filter.mp inside
    simp only [Bool.and_eq_true] at suits
    refine ⟨⟨entry, hosted, rfl, List.mem_of_mem_filter kept⟩, ?_⟩
    simp only [endpointsMatch, WriterImpl.record, Bool.and_eq_true]
    exact ⟨⟨suits.1.1.2, suits.1.2⟩, suits.2⟩

namespace Running
variable {s : Running}

theorem step_destroyReader (addr : Addr) : (s.next (.destroyReader addr)).readers.lookup addr = none := by
  have same := Participant.SameHosts.lasting.matched { s.toParticipant with readers := KeyedList.erase addr s.readers }
  by_contra left
  obtain ⟨r, found⟩ := Option.ne_none_iff_exists'.mp left
  have key : addr ∈ (KeyedList.erase addr s.readers).map Prod.fst :=
    same.readerAddrs ▸ List.mem_map_of_mem (f := Prod.fst) (KeyedList.mem_of_lookup found)
  obtain ⟨entry, inside, rfl⟩ := List.mem_map.mp key
  exact of_decide_eq_true (List.mem_filter.mp inside).2 rfl

/-- A reader that has just come to its address has nothing to read. -/
theorem step_new_reader {turn : Section} (distinct : s.Distinct) (within : s.Within turn) {addr : Addr} {r : ReaderImpl}
    (absent : s.readers.lookup addr = none) (found : (s.next turn).readers.lookup addr = some r) : r.queue = [] := by
  have key : addr ∈ (s.next turn).readers.map Prod.fst :=
    List.mem_map_of_mem (f := Prod.fst) (KeyedList.mem_of_lookup found)
  have unused := KeyedList.not_mem_keys absent
  have gone (keys : (s.next turn).readers.map Prod.fst ⊆ s.readers.map Prod.fst) : r.queue = [] :=
    absurd (keys key) unused
  have still (keys : (s.next turn).readers.map Prod.fst = s.readers.map Prod.fst) : r.queue = [] :=
    gone (keys ▸ List.Subset.refl _)
  cases registers : turn.registers with
  | false => exact gone (step_holds distinct registers within).readerAddrs.subset
  | true =>
    cases turn with
    | createWriter other topic type qos birthUs =>
      by_cases accepted : s.writers.lookup other = none ∧ qosValid qos = true
      · refine still ?_
        have created : s.createWriter other topic type qos birthUs = some _ := if_neg (by simp [accepted.2])
        simp only [next, step, accepted.1, Option.isSome_none, Bool.false_eq_true, if_false, created, changed]
        exact (Participant.SameHosts.lasting.matched _).readerAddrs
      · exact still (by rw [next_createWriter accepted])
    | createReader other topic type qos ignoreLocal birthUs =>
      by_cases accepted : s.readers.lookup other = none ∧ qosValid qos = true
      · by_cases here : addr = other
        · subst here
          obtain ⟨_, placed⟩ := step_createsReader absent accepted.2 topic type ignoreLocal birthUs
          obtain rfl := Option.some.inj (found.symm.trans placed)
          rfl
        · have created : s.createReader other topic type qos ignoreLocal birthUs = some _ := if_neg (by simp [accepted.2])
          simp only [next, step, accepted.1, Option.isSome_none, Bool.false_eq_true, if_false, created, changed] at key
          rw [(Participant.SameHosts.lasting.matched _).readerAddrs] at key
          rcases KeyedList.mem_keys_emplace key with same | before
          · exact absurd same here
          · exact absurd before unused
      · exact still (by rw [next_createReader accepted])
    | write other pubTimeUs data now =>
      refine still ?_
      cases locked : s.writeLocked other pubTimeUs data now with
      | none => simp only [next, step, locked]
      | some result =>
        obtain ⟨_, _, _, _, same, _⟩ := Participant.writeLocked_cases locked
        simp only [next, step, locked, same]
    | _ => cases registers

/-- An entry of the graph is an older one, perhaps heard of again, or has just
been announced. -/
theorem step_remote_origin {s : Running} {turn : Section} {entry : Guid × RemoteParticipant}
    (member : entry ∈ (s.next turn).remote) :
    (∃ old ∈ s.remote, ∃ heardMs, entry = (old.1, { old.2 with lastAnnounceMs := heardMs })) ∨
      ∃ peer data clocks snap announceSeq, turn = .bytes peer data clocks ∧
        decodeAnnounce data = some (snap, announceSeq) ∧
        entry = (snap.participantGuid, ⟨peer, announceSeq, snap, clocks.steadyMs⟩) := by
  have still (before : entry ∈ s.remote) :
      ∃ old ∈ s.remote, ∃ heardMs, entry = (old.1, { old.2 with lastAnnounceMs := heardMs }) :=
    ⟨entry, before, entry.2.lastAnnounceMs, rfl⟩
  cases caller : turn.caller with
  | none => exact Or.inl (still ((step_sameGraph caller).1.remote ▸ member))
  | some _ =>
    cases turn with
    | peerUp peer => exact Or.inl (still member)
    | peerDown peer =>
      have kept : entry ∈ s.remote.filter (fun entry => entry.2.peer ≠ peer) := step_peerDown_remote ▸ member
      exact Or.inl (still (List.mem_of_mem_filter kept))
    | bytes peer data clocks =>
      simp only [next, step] at member
      cases announce : decodeAnnounce data with
      | none =>
        rw [announce] at member
        cases fragment : decodeDataFrag data with
        | some body =>
          rw [fragment] at member
          exact Or.inl (still member)
        | none =>
          rw [fragment] at member
          exact Or.inl (still ((s.handleBytes_sameGraph peer clocks announce fragment).1.remote ▸ member))
      | some content =>
        obtain ⟨snap, announceSeq⟩ := content
        rw [announce] at member
        obtain ⟨_, ⟨_, _, stamped⟩ | ⟨_, stored⟩⟩ :=
          s.toParticipant.handleAnnounce_cases peer snap announceSeq clocks.steadyMs
        · simp only [stamped] at member
          obtain ⟨old, inside, same | ⟨_, same⟩⟩ := KeyedList.mem_modify member
          · exact Or.inl ⟨_, inside, old.lastAnnounceMs, Prod.ext rfl same⟩
          · exact Or.inl ⟨_, inside, clocks.steadyMs, Prod.ext rfl same⟩
        · simp only [stored] at member
          rcases KeyedList.mem_of_mem_assign member with rfl | before
          · exact Or.inr ⟨peer, data, clocks, snap, announceSeq, rfl, announce, rfl⟩
          · exact Or.inl (still before)
    | _ => cases caller

end Running

namespace Honest
variable {s : Running} (honest : Honest known s)
include honest

theorem step_remote {turn : Section} (genuine : ∀ peer data clocks, turn = .bytes peer data clocks → Genuine known data) :
    ∀ entry ∈ (s.next turn).remote, entry.2.snap.participantGuid = entry.1 ∧
      Stated known (.announced entry.2.snap entry.2.announceSeq) := by
  intro entry member
  rcases Running.step_remote_origin member with ⟨old, before, _, rfl⟩ | ⟨peer, data, clocks, snap, seq, turn, announce, rfl⟩
  · exact honest.remote old before
  · exact ⟨rfl, (genuine peer data clocks turn).announce snap seq announce⟩

/-- A genuine fragment joins pieces of its own sample, and what it completes
is this sample. -/
theorem addFragment (coherent : Coherent known) {data : Bytes} (genuine : Genuine known data) {body : DataFragBody}
    (decoded : decodeDataFrag data = some body) (peer : PeerId) (clocks : Clocks) :
    (∀ entry ∈ (s.addFragment peer body clocks).1.reassemblers, ∀ part ∈ entry.2.partials, part.2.Honest known part.1) ∧
      ∀ full, (s.addFragment peer body clocks).2 = some full → Wrote known body.writer body.seq body.pubTimeMs full := by
  obtain ⟨payload, nonempty, ⟨sample, told, seq, pubTimeMs, rfl⟩, slice⟩ := genuine.fragment body decoded
  have partials : ∀ part ∈ (s.reassembler peer).partials, part.2.Honest known part.1 := by
    unfold ParticipantImpl.reassembler
    cases found : s.reassemblers.lookup peer with
    | none => exact fun part member => absurd member List.not_mem_nil
    | some r => exact honest.partials _ (KeyedList.mem_of_lookup found)
  have holds : ∃ seen, (s.reassembler peer).Holds ⟨body.writer, body.seq⟩ sample.data seen := by
    cases found : (s.reassembler peer).partials.lookup ⟨body.writer, body.seq⟩ with
    | none => exact ⟨[], Or.inl ⟨found, rfl⟩⟩
    | some part =>
      obtain ⟨other, seen, also, number, tracks⟩ := partials _ (KeyedList.mem_of_lookup found)
      obtain rfl := coherent.unique _ _ _ told also (seq.trans number.symm)
      exact ⟨seen, Or.inr ⟨part, found, tracks⟩⟩
  obtain ⟨seen, holds⟩ := holds
  have others {r : Reassembler} (added : ∀ part ∈ r.partials, part.2.Honest known part.1) :
      ∀ entry ∈ KeyedList.assign peer r s.reassemblers, ∀ part ∈ entry.2.partials, part.2.Honest known part.1 := by
    intro entry member
    rcases KeyedList.mem_of_mem_assign member with rfl | before
    · exact added
    · exact honest.partials entry before
  rcases Reassembler.add_slice holds slice nonempty (coherent.short _ _ told) clocks.steadyMs.toNat with
    ⟨_, run⟩ | ⟨_, next, tracks, run⟩
  · refine ⟨others ?_, fun full complete => ?_⟩
    · rw [run]
      exact fun part member => partials part (List.mem_of_mem_filter member)
    · obtain rfl : sample.data = full := by simpa [ParticipantImpl.addFragment, run] using complete
      exact ⟨sample, told, seq, pubTimeMs, rfl⟩
  · refine ⟨others ?_, fun full complete => ?_⟩
    · rw [run]
      intro part member
      rcases KeyedList.mem_of_mem_assign member with rfl | before
      · exact ⟨sample, _, told, seq, tracks⟩
      · exact partials part before
    · simp [ParticipantImpl.addFragment, run] at complete

theorem step_gathered (coherent : Coherent known) {turn : Section}
    (genuine : ∀ peer data clocks, turn = .bytes peer data clocks → Genuine known data) :
    (∀ entry ∈ (s.next turn).reassemblers, ∀ part ∈ entry.2.partials, part.2.Honest known part.1) ∧
      ∀ item ∈ (s.next turn).delivering, Wrote known item.2.1.writer item.2.1.seq item.2.1.pubTimeMs item.2.2 := by
  by_cases receives : ∃ peer data clocks, turn = .bytes peer data clocks
  · obtain ⟨peer, data, clocks, rfl⟩ := receives
    simp only [Running.next, Running.step]
    cases announce : decodeAnnounce data with
    | some content => exact ⟨honest.partials, honest.delivering⟩
    | none =>
      cases fragment : decodeDataFrag data with
      | none =>
        dsimp only
        rw [s.handleBytes_reassemblers peer clocks fragment]
        exact ⟨honest.partials, honest.delivering⟩
      | some body =>
        obtain ⟨partials, complete⟩ := honest.addFragment coherent (genuine _ _ _ rfl) fragment peer clocks
        refine ⟨partials, fun item member => ?_⟩
        rcases List.mem_append.mp member with before | last
        · exact honest.delivering item before
        · obtain ⟨full, finished, rfl⟩ := Option.map_eq_some_iff.mp (Option.mem_toList.mp last)
          exact complete full finished
  · obtain ⟨gathered, delivering⟩ := @Running.step_gathered s turn (fun peer data clocks is => receives ⟨peer, data, clocks, is⟩)
    refine ⟨fun entry member part inside => ?_, fun item member => honest.delivering item (delivering item member)⟩
    obtain ⟨old, before, kept⟩ := gathered entry member
    exact honest.partials old before part (kept part inside)

/-- A received sample is offered to the readers that match its announced writer. -/
theorem offers (coherent : Coherent known) {r : ReaderImpl} {writer : Guid} {sample : CachedSample} {clock : U64 × U64}
    (wrote : Wrote known writer sample.seq sample.pubTimeMs sample.data) :
    ∀ op ∈ s.offersTo r writer sample clock, op.Authentic known r := by
  intro op member
  obtain ⟨writerEp, found, rfl⟩ := List.mem_map.mp member
  obtain ⟨there, matching⟩ := Option.filter_eq_some_iff.mp (Option.mem_toList.mp found)
  obtain ⟨listed, guid⟩ := Participant.findRemoteEndpoint_mem there
  obtain ⟨entry, inside, announced⟩ := List.mem_flatMap.mp listed
  obtain ⟨_, told⟩ := honest.remote entry inside
  exact ⟨wrote, writerEp, coherent.listed _ _ told writerEp announced, guid, matching⟩

/-- Every call on a reader brings what was written for it. -/
theorem calls (coherent : Coherent known) {own : List Fact} (ledger : s.Ledger own) (told : ∀ fact ∈ own, Stated known fact)
    {turn : Section} (genuine : ∀ peer data clocks, turn = .bytes peer data clocks → Genuine known data) {addr : Addr}
    {r : ReaderImpl} (found : s.readers.lookup addr = some r) : ∀ op ∈ s.callsOn addr r turn, op.Authentic known r := by
  intro op member
  cases turn with
  | replayLocalHistory index now =>
    simp only [Running.callsOn] at member
    split at member
    · obtain ⟨⟨w, sample⟩, replayed, rfl⟩ := List.mem_map.mp member
      obtain ⟨writers, suits⟩ := Participant.localReplay_suits replayed
      obtain ⟨entry, inside, rfl, kept⟩ := writers
      exact ⟨⟨sample, told _ (ledger.cached entry inside sample kept), rfl, rfl, rfl⟩, entry.2.record,
        told _ (ledger.hosted _ (Participant.writer_record_mem inside)), rfl, suits⟩
    · exact absurd member List.not_mem_nil
  | handOver index target clock =>
    simp only [Running.callsOn] at member
    split at member
    · rename_i here
      obtain ⟨ticket, waiting, rfl⟩ := List.mem_map.mp member
      obtain ⟨there, named⟩ := Option.filter_eq_some_iff.mp (Option.mem_toList.mp waiting)
      obtain ⟨ep, owed⟩ := ledger.handing ticket (List.mem_of_getElem? there)
      have addressed : addr ∈ ticket.localReaders := here ▸ of_decide_eq_true named
      exact ⟨⟨ticket.sample, told _ owed.wrote, rfl, rfl, rfl⟩, ep, told _ owed.created, owed.writer,
        owed.matching (addr, r) (KeyedList.mem_of_lookup found) addressed⟩
    · exact absurd member List.not_mem_nil
  | take target now =>
    simp only [Running.callsOn] at member
    split at member
    · obtain rfl := List.mem_singleton.mp member
      trivial
    · exact absurd member List.not_mem_nil
  | available target now =>
    simp only [Running.callsOn] at member
    split at member
    · obtain rfl := List.mem_singleton.mp member
      trivial
    · exact absurd member List.not_mem_nil
  | bytes peer data clocks =>
    simp only [Running.callsOn, Participant.callsFor] at member
    split at member
    · rename_i body decoded
      exact honest.offers coherent ((genuine _ _ _ rfl).data body decoded) op member
    · split at member
      · obtain rfl := List.mem_singleton.mp member
        trivial
      · exact absurd member List.not_mem_nil
    · exact absurd member List.not_mem_nil
  | deliverSample index clocks =>
    simp only [Running.callsOn] at member
    split at member
    · exact absurd member List.not_mem_nil
    · rename_i peer body full waiting
      exact honest.offers coherent (honest.delivering _ (List.mem_of_getElem? waiting)) op member
  | _ => exact absurd member List.not_mem_nil

/-- What is unread afterwards was unread before or has just been brought. -/
theorem step_unread (coherent : Coherent known) {own : List Fact} (ledger : s.Ledger own)
    (told : ∀ fact ∈ own, Stated known fact) {turn : Section} (within : s.Within turn)
    (genuine : ∀ peer data clocks, turn = .bytes peer data clocks → Genuine known data) :
    ∀ entry ∈ (s.next turn).readers, ∀ content ∈ entry.2.unread, Authentic known entry.2 content := by
  rintro ⟨addr, r⟩ member content kept
  have there : (s.next turn).readers.lookup addr = some r :=
    KeyedList.lookup_of_mem (ledger.step within).readerAddrs member
  cases found : s.readers.lookup addr with
  | none =>
    have empty : r.queue = [] := Running.step_new_reader ledger.addrs within found there
    exact absurd kept (by simp [ReaderImpl.unread, empty])
  | some old =>
    have alive : turn ≠ .destroyReader addr := by
      rintro rfl
      exact Option.some_ne_none r (there.symm.trans (Running.step_destroyReader addr))
    obtain ⟨matchedCount, reached⟩ := Running.step_calls alive old found
    obtain rfl := Option.some.inj (there.symm.trans reached)
    have came := (Buffer.run_sublist ReaderImpl.step_unread old (s.callsOn addr old turn)).subset
      (List.mem_append_right _ kept)
    have static := ReaderImpl.exec_static old (s.callsOn addr old turn)
    have authentic : Authentic known old content := by
      rcases List.mem_append.mp came with before | entered
      · exact honest.unread _ (KeyedList.mem_of_lookup found) content before
      · obtain ⟨_, op, _, split, brought⟩ := Run.exists_of_mem_log entered
        obtain ⟨writerQos, now, sweepNow, rfl⟩ := ReaderImpl.entered_eq brought
        exact honest.calls coherent ledger told genuine found _ (split ▸ List.mem_append_right _ List.mem_cons_self)
    obtain ⟨wrote, ep, created, guid, matching⟩ := authentic
    refine ⟨wrote, ep, created, guid, ?_⟩
    rw [static.1, static.2.1, static.2.2]
    exact matching

end Honest

end Mdds
