import Mdds.WriterHistory

namespace Mdds

/-- A section that no transport and no call of a transport leads to. -/
def Section.own : Section → Bool
  | .peerUp .. | .sendAnnounce .. | .peerDown .. | .bytes .. | .deliverSample .. | .replayHistory .. => false
  | _ => true

def WriterImpl.unmatched (w : WriterImpl) : WriterImpl := { w with matchedCount := 0 }

/-- A reader that was never offered anything. -/
def ReaderImpl.bare (r : ReaderImpl) : ReaderImpl where
  guid := r.guid
  topic := r.topic
  type := r.type
  qos := r.qos
  birthUs := r.birthUs

/-- A participant without what others told it, the matches included, and with
readers that were never offered anything. -/
def Participant.own (p : Participant) : Participant where
  owner := p.owner
  guid := p.guid
  entitySerial := p.entitySerial
  writers := p.writers.map (fun entry => (entry.1, entry.2.unmatched))
  readers := p.readers.map (fun entry => (entry.1, entry.2.bare))
  nodes := p.nodes
  announceSeq := p.announceSeq

namespace Running
variable (s : Running)

/-- And without the calls that others have a part in. -/
def own : Running where
  toParticipant := s.toParticipant.own
  joining := s.joining
  notifications := s.notifications
  loop := s.loop
  running := s.running

/-- What a section has to say, whoever is there to hear it. -/
def utters : Section → List Frame
  | .write addr pubTimeUs data now =>
    (s.writeLocked addr pubTimeUs data now).toList.map (fun result =>
      .data result.2.writer result.2.sample (result.2.qos.reliability = .reliable))
  | .assertLiveliness addr => (s.writers.lookup addr).toList.map (fun w => .heartbeat w.livelinessHeartbeat)
  | .broadcastAnnounce => if s.loop = .broadcasting then [.announce s.snapshot s.announceSeq] else []
  | .sendHeartbeats => if s.loop = .beating then s.heartbeats.map Frame.heartbeat else []
  | _ => []

end Running

theorem ReaderImpl.bare_eq {r next : ReaderImpl} (same : next.record = r.record) : next.bare = r.bare := by
  simp only [record, EndpointRecord.mk.injEq] at same
  simp only [bare, same]

theorem WriterImpl.cacheSample_unmatched (w : WriterImpl) (sample : CachedSample) (now : U64) :
    w.unmatched.cacheSample sample now = (w.cacheSample sample now).map unmatched := by
  rw [cacheSample, cacheSample, apply_ite (Option.map unmatched), apply_ite (Option.map unmatched)]
  rfl

/-- Publishing does not look at the matches. -/
theorem WriterImpl.publish_unmatched (w : WriterImpl) (pubTimeUs : U64) (data : Bytes) (now : U64) :
    w.unmatched.publish pubTimeUs data now =
      (w.publish pubTimeUs data now).map (fun result => (result.1.unmatched, result.2)) := by
  rw [publish, publish, cacheSample_unmatched, Option.map_map, Option.map_map]
  rfl

namespace Participant
variable {p q : Participant}

theorem own_own : p.own.own = p.own := by
  simp only [own, List.map_map]
  rfl

theorem own_writers (addr : Addr) : p.own.writers.lookup addr = (p.writers.lookup addr).map WriterImpl.unmatched :=
  KeyedList.lookup_map

theorem own_readers (addr : Addr) : p.own.readers.lookup addr = (p.readers.lookup addr).map ReaderImpl.bare :=
  KeyedList.lookup_map

theorem own_lasting : Lasting (fun p q => q.own = p.own) where
  trans first second := second.trans first
  bookkeeping _ _ _ _ := rfl
  readers p f later := by
    have same : (p.readers.map (fun entry => (entry.1, f entry.1 entry.2))).map (fun entry => (entry.1, entry.2.bare)) =
        p.readers.map (fun entry => (entry.1, entry.2.bare)) := by
      rw [List.map_map]
      refine List.map_congr_left (fun entry _ => ?_)
      exact congrArg (Prod.mk entry.1) (ReaderImpl.bare_eq (later entry.1 entry.2).record)
    simp only [own, same]
  matched p := by
    simp only [own, recomputeMatches, List.map_map]
    rfl

theorem snapshot_own : p.own.snapshot = p.snapshot := by
  simp only [snapshot, own, List.map_map]
  rfl

theorem heartbeats_own : p.own.heartbeats = p.heartbeats := by
  rw [Running.heartbeats_eq, Running.heartbeats_eq, own, List.filterMap_map]
  rfl

theorem createWriter_own (addr : Addr) (topic type : Bytes) (qos : QosProfile) (birthUs : U64) :
    (p.own.createWriter addr topic type qos birthUs).map own =
      (p.createWriter addr topic type qos birthUs).map own := by
  unfold createWriter
  split
  · rfl
  · simp only [Option.map_some, own_lasting.matched]
    simp only [own, KeyedList.map_emplace, List.map_map]
    rfl

theorem createReader_own (addr : Addr) (topic type : Bytes) (qos : QosProfile) (ignoreLocal : Bool) (birthUs : U64) :
    (p.own.createReader addr topic type qos ignoreLocal birthUs).map own =
      (p.createReader addr topic type qos ignoreLocal birthUs).map own := by
  unfold createReader
  split
  · rfl
  · simp only [Option.map_some, own_lasting.matched]
    simp only [own, KeyedList.map_emplace, List.map_map]
    rfl

theorem destroyWriter_own (addr : Addr) : (p.own.destroyWriter addr).own = (p.destroyWriter addr).own := by
  simp only [destroyWriter, own_lasting.matched]
  simp only [own, KeyedList.map_erase, List.map_map]
  rfl

theorem destroyReader_own (addr : Addr) : (p.own.destroyReader addr).own = (p.destroyReader addr).own := by
  simp only [destroyReader, own_lasting.matched]
  simp only [own, KeyedList.map_erase, List.map_map]
  rfl

theorem addNode_own (ns name : Bytes) : (p.own.addNode ns name).own = (p.addNode ns name).own := by
  simp only [addNode, own, List.map_map]
  rfl

theorem removeNode_own (ns name : Bytes) : (p.own.removeNode ns name).own = (p.removeNode ns name).own := by
  simp only [removeNode, own, List.map_map]
  rfl

theorem putWriter_own (addr : Addr) (w : WriterImpl) :
    own { p.own with writers := KeyedList.modify addr (fun _ => w.unmatched) p.own.writers } =
      own { p with writers := KeyedList.modify addr (fun _ => w) p.writers } := by
  have same : (KeyedList.modify addr (fun _ => w.unmatched) p.own.writers).map (fun entry => (entry.1, entry.2.unmatched)) =
      (KeyedList.modify addr (fun _ => w) p.writers).map (fun entry => (entry.1, entry.2.unmatched)) := by
    rw [KeyedList.modify_eq_map, KeyedList.modify_eq_map, own, List.map_map, List.map_map, List.map_map]
    refine List.map_congr_left (fun entry _ => ?_)
    simp only [Function.comp_apply]
    split <;> rfl
  calc own { p.own with writers := KeyedList.modify addr (fun _ => w.unmatched) p.own.writers }
    _ = { p.own.own with
          writers := (KeyedList.modify addr (fun _ => w.unmatched) p.own.writers).map (fun entry =>
            (entry.1, entry.2.unmatched)) } := rfl
    _ = own { p with writers := KeyedList.modify addr (fun _ => w) p.writers } := by
      rw [own_own, same]
      rfl

theorem writeLocked_own (addr : Addr) (pubTimeUs : U64) (data : Bytes) (now : U64) :
    (p.own.writeLocked addr pubTimeUs data now).map (fun result =>
        (result.1.own, result.2.writer, result.2.qos, result.2.sample)) =
      (p.writeLocked addr pubTimeUs data now).map (fun result =>
        (result.1.own, result.2.writer, result.2.qos, result.2.sample)) := by
  simp only [writeLocked, Option.bind_eq_bind, Option.pure_def, own_writers]
  cases p.writers.lookup addr with
  | none => rfl
  | some w =>
    simp only [Option.map_some, Option.bind_some, WriterImpl.publish_unmatched]
    cases w.publish pubTimeUs data now with
    | none => rfl
    | some result =>
      simp only [Option.map_some, Option.bind_some, putWriter_own]
      rfl

end Participant

namespace Running
variable {s t : Running}

theorem own_own : s.own.own = s.own := by
  simp only [own, Participant.own_own]

/-- The same calls are in progress, and the announce loop is at the same place. -/
structure SameCalls (s t : Running) : Prop where
  joining : s.joining = t.joining
  notifications : s.notifications = t.notifications
  loop : s.loop = t.loop
  running : s.running = t.running

theorem SameCalls.symm (same : s.SameCalls t) : t.SameCalls s :=
  ⟨same.joining.symm, same.notifications.symm, same.loop.symm, same.running.symm⟩

theorem SameCalls.trans {r : Running} (first : r.SameCalls s) (second : s.SameCalls t) : r.SameCalls t :=
  ⟨first.joining.trans second.joining, first.notifications.trans second.notifications, first.loop.trans second.loop,
    first.running.trans second.running⟩

theorem SameCalls.own : s.own.SameCalls s := ⟨rfl, rfl, rfl, rfl⟩

theorem own_eq (party : s.toParticipant.own = t.toParticipant.own) (calls : s.SameCalls t) : s.own = t.own := by
  simp only [Running.own, party, calls.joining, calls.notifications, calls.loop, calls.running]

/-- What comes from elsewhere does not show. -/
theorem next_elsewhere {turn : Section} (elsewhere : turn.own = false) : (s.next turn).own = s.own := by
  have party : (s.next turn).toParticipant.own = s.toParticipant.own := by
    refine Participant.own_lasting.step ?_
    cases turn <;> first | rfl | cases elsewhere
  have calls : (s.next turn).SameCalls s := by
    cases turn with
    | peerUp | peerDown => exact ⟨rfl, rfl, rfl, rfl⟩
    | sendAnnounce | bytes | deliverSample | replayHistory =>
      simp only [next, step]
      split <;> exact ⟨rfl, rfl, rfl, rfl⟩
    | _ => cases elsewhere
  exact own_eq party calls

theorem changed_own {next other : Option Participant}
    (same : other.map Participant.own = next.map Participant.own) : (s.own.changed other).own = (s.changed next).own := by
  cases next with
  | none =>
    obtain rfl := Option.map_eq_none_iff.mp same
    exact own_own
  | some party =>
    obtain ⟨found, rfl, equal⟩ := Option.map_eq_some_iff.mp same
    simp only [changed, own, equal]

/-- Where no endpoint and no node is altered, what others told decides nothing
about the announce loop and the calls in progress. -/
theorem next_quiet {turn : Section} (self : turn.own = true) (quiet : turn.alters = false) :
    (s.own.next turn).SameCalls (s.next turn) := by
  have loop : s.own.loop = s.loop := rfl
  cases turn with
  | createWriter | createReader | destroyWriter | destroyReader | addNode | removeNode | write | announceTick =>
    cases quiet
  | peerUp | sendAnnounce | peerDown | bytes | deliverSample | replayHistory => cases self
  | announceNow =>
    have notifications : s.own.notifications = s.notifications := rfl
    have waitOver : s.own.waitOver = s.waitOver := rfl
    simp only [next, step, announceNow, notifications, loop, waitOver]
    split
    · exact ⟨rfl, rfl, rfl, rfl⟩
    · split <;> exact ⟨rfl, rfl, rfl, rfl⟩
  | replayLocalHistory index now =>
    have joining : s.own.joining = s.joining := rfl
    simp only [next, step, joining]
    split <;> exact ⟨rfl, rfl, rfl, rfl⟩
  | handOver index addr clock =>
    have handed (s : Running) : (s.next (.handOver index addr clock)).SameCalls s := by
      simp only [next, step]
      split
      · exact ⟨rfl, rfl, rfl, rfl⟩
      · split <;> exact ⟨rfl, rfl, rfl, rfl⟩
    exact ((handed s.own).trans .own).trans (handed s).symm
  | assertLiveliness addr =>
    have asserted (s : Running) : (s.next (.assertLiveliness addr)).SameCalls s := by
      simp only [next, step]
      split <;> exact ⟨rfl, rfl, rfl, rfl⟩
    exact ((asserted s.own).trans .own).trans (asserted s).symm
  | broadcastAnnounce | sendHeartbeats | periodExpires =>
    simp only [next, step, loop]
    split <;> exact ⟨rfl, rfl, rfl, rfl⟩
  | take | available | stop => exact ⟨rfl, rfl, rfl, rfl⟩

/-- What a participant does by itself does not depend on the others. -/
theorem next_own {turn : Section} (self : turn.own = true) : (s.own.next turn).own = (s.next turn).own := by
  by_cases quiet : turn.alters = false
  · have party : (s.own.next turn).toParticipant.own = (s.next turn).toParticipant.own :=
      calc (s.own.next turn).toParticipant.own
        _ = s.toParticipant.own.own := Participant.own_lasting.step quiet
        _ = s.toParticipant.own := Participant.own_own
        _ = (s.next turn).toParticipant.own := (Participant.own_lasting.step quiet).symm
    exact own_eq party (next_quiet self quiet)
  cases turn with
  | createWriter addr topic type qos birthUs =>
    have used : (s.own.writers.lookup addr).isSome = (s.writers.lookup addr).isSome :=
      (congrArg Option.isSome (Participant.own_writers addr)).trans Option.isSome_map
    simp only [next, step, used]
    split
    · exact own_own
    · exact changed_own (Participant.createWriter_own ..)
  | createReader addr topic type qos ignoreLocal birthUs =>
    have used : (s.own.readers.lookup addr).isSome = (s.readers.lookup addr).isSome :=
      (congrArg Option.isSome (Participant.own_readers addr)).trans Option.isSome_map
    simp only [next, step, used]
    split
    · exact own_own
    · have created := Participant.createReader_own (p := s.toParticipant) addr topic type qos ignoreLocal birthUs
      have isSome : (s.own.createReader addr topic type qos ignoreLocal birthUs).isSome =
          (s.createReader addr topic type qos ignoreLocal birthUs).isSome := by
        have whether := congrArg Option.isSome created
        rw [Option.isSome_map, Option.isSome_map] at whether
        exact whether
      have joined : (if (s.own.createReader addr topic type qos ignoreLocal birthUs).isSome then s.own.joining ++ [addr]
          else s.own.joining) =
          if (s.createReader addr topic type qos ignoreLocal birthUs).isSome then s.joining ++ [addr] else s.joining := by
        rw [isSome]
        rfl
      exact congrArg₂ (fun (x : Running) joining => { x with joining }) (@changed_own s _ _ created) joined
  | destroyWriter addr => exact changed_own (congrArg some (Participant.destroyWriter_own addr))
  | destroyReader addr => exact changed_own (congrArg some (Participant.destroyReader_own addr))
  | addNode ns name => exact changed_own (congrArg some (Participant.addNode_own ns name))
  | removeNode ns name => exact changed_own (congrArg some (Participant.removeNode_own ns name))
  | write addr pubTimeUs data now =>
    have locked := Participant.writeLocked_own (p := s.toParticipant) addr pubTimeUs data now
    have party : s.own.toParticipant = s.toParticipant.own := rfl
    simp only [next, step, party]
    cases accepted : s.writeLocked addr pubTimeUs data now with
    | none =>
      rw [accepted] at locked
      rw [Option.map_eq_none_iff.mp locked]
      exact own_own
    | some result =>
      rw [accepted] at locked
      obtain ⟨other, found, equal⟩ := Option.map_eq_some_iff.mp locked
      have same : other.1.own = result.1.own := congrArg Prod.fst equal
      rw [found]
      simp only [own, same]
  | announceTick now =>
    have loop : s.own.loop = s.loop := rfl
    simp only [next, step, loop]
    split
    · refine own_eq ?_ ⟨rfl, rfl, rfl, rfl⟩
      have party : s.toParticipant.own.own = s.toParticipant.own := Participant.own_own
      exact congrArg (fun p : Participant => { p with announceSeq := s.announceSeq + 1 }) party
    · exact own_own
  | _ => exact absurd rfl quiet

theorem next_congr {turn : Section} (self : turn.own = true) (same : s.own = t.own) :
    (s.next turn).own = (t.next turn).own := by
  rw [← next_own self, same, next_own self]

/-- What a section says does not depend on the others. -/
theorem utters_own (turn : Section) : s.own.utters turn = s.utters turn := by
  have loop : s.own.loop = s.loop := rfl
  cases turn with
  | write addr pubTimeUs data now =>
    have locked := congrArg (fun result => result.toList.map (fun (said : Participant × Guid × QosProfile × CachedSample) =>
      Frame.data said.2.1 said.2.2.2 (said.2.2.1.reliability = .reliable)))
        (Participant.writeLocked_own (p := s.toParticipant) addr pubTimeUs data now)
    simp only [Option.toList_map, List.map_map] at locked
    exact locked
  | assertLiveliness addr =>
    have found : s.own.writers.lookup addr = (s.writers.lookup addr).map WriterImpl.unmatched :=
      Participant.own_writers addr
    simp only [utters, found, Option.toList_map, List.map_map]
    rfl
  | broadcastAnnounce =>
    have snapshot : s.own.snapshot = s.snapshot := Participant.snapshot_own
    simp only [utters, loop, snapshot]
    rfl
  | sendHeartbeats =>
    have heartbeats : s.own.heartbeats = s.heartbeats := Participant.heartbeats_own
    simp only [utters, loop, heartbeats]
  | _ => rfl

/-- And everything it sends is what it says. -/
theorem step_utters {turn : Section} (self : turn.own = true) {send : PeerId × Frame} (sent : send ∈ (s.step turn).2) :
    send.2 ∈ s.utters turn := by
  cases turn with
  | peerUp | sendAnnounce | peerDown | bytes | deliverSample | replayHistory => cases self
  | write addr pubTimeUs data now =>
    simp only [step] at sent
    split at sent
    · exact absurd sent List.not_mem_nil
    · rename_i next ticket accepted
      obtain ⟨peer, _, rfl⟩ := List.mem_map.mp sent
      rw [utters, accepted]
      exact List.mem_singleton_self _
  | assertLiveliness addr =>
    simp only [step] at sent
    split at sent
    · exact absurd sent List.not_mem_nil
    · rename_i w found
      obtain ⟨peer, _, rfl⟩ := List.mem_map.mp sent
      rw [utters, found]
      exact List.mem_singleton_self _
  | broadcastAnnounce =>
    simp only [step] at sent
    split at sent
    · rename_i phase
      obtain ⟨peer, _, rfl⟩ := List.mem_map.mp sent
      rw [utters, if_pos phase]
      exact List.mem_singleton_self _
    · exact absurd sent List.not_mem_nil
  | sendHeartbeats =>
    simp only [step] at sent
    split at sent
    · rename_i phase
      obtain ⟨peer, _, beats⟩ := List.mem_flatMap.mp sent
      obtain ⟨body, beat, rfl⟩ := List.mem_map.mp beats
      rw [utters, if_pos phase]
      exact List.mem_map.mpr ⟨body, beat, rfl⟩
    · exact absurd sent List.not_mem_nil
  | _ => cases step_sends sent

/-- Nobody else has a say in what a participant is by itself: its endpoints, its
histories, its nodes, its numbers and its announce loop, whether its writes are
accepted and what it says of its own accord are those of the participant that
no transport ever calls, whatever bytes arrive from whomever and whenever. -/
theorem as_if_alone (owner : GuidPrefix) (turns : List Section) :
    let s := Run.exec next (create owner) turns
    let single := Run.exec next (create owner) (turns.filter Section.own)
    s.own = single.own ∧ s.snapshot = single.snapshot ∧
    Run.log next utters (create owner) turns = Run.log next utters (create owner) (turns.filter Section.own) ∧
    ∀ turn, turn.own = true → ∀ send ∈ (s.step turn).2, send.2 ∈ single.utters turn := by
  intro s single
  have same : s.own = single.own :=
    Run.exec_purge (fun _ _ => next_elsewhere) (fun _ _ _ => next_congr) turns rfl
  have party : s.toParticipant.own = single.toParticipant.own := congrArg (fun x : Running => x.toParticipant) same
  refine ⟨same, ?_, ?_, fun turn self send sent => ?_⟩
  · rw [← Participant.snapshot_own, party, Participant.snapshot_own]
  · refine Run.log_purge (fun _ _ => next_elsewhere) (fun _ _ _ => next_congr) (fun s turn elsewhere => ?_)
      (fun s t turn _ same => ?_) turns rfl
    · cases turn <;> first | rfl | cases elsewhere
    · rw [← utters_own, same, utters_own]
  · rw [← utters_own, ← same, utters_own]
    exact step_utters self sent

end Running

end Mdds
