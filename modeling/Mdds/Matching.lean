import Mdds.Endpoints
import Mdds.Lib.Run

/- The matched counts as a cache. Each call changes the tables in one critical
section and recomputes the counts in a later one, and calls on different
threads interleave between the two. -/

namespace Mdds

instance : IsTrans Guid (· < ·) := ⟨fun _ _ _ first second => List.lt_trans first second⟩

instance : Std.Asymm (fun a b : Guid => a < b) := ⟨fun _ _ first second => List.lt_asymm first second⟩

instance : Std.Trichotomous (fun a b : Guid => a < b) :=
  ⟨fun a b notBelow notAbove => by
    cases a
    cases b
    congr
    exact List.le_antisymm (List.not_lt.mp notAbove) (List.not_lt.mp notBelow)⟩

namespace Participant

/-- Everyone's endpoints: the announced ones and those hosted here. -/
def known (p : Participant) : List EndpointRecord := p.remoteEndpoints ++ p.records

/-- The readers a writer could serve. -/
def readersFor (p : Participant) (w : WriterImpl) : Nat :=
  p.known.countP (fun ep =>
    ep.kind = .reader && ep.topic = w.topic && ep.typeName = w.type && qosCompatible ep.qos w.qos)

/-- The writers a reader would listen to. -/
def writersFor (p : Participant) (r : ReaderImpl) : Nat :=
  p.known.countP (fun ep =>
    ep.kind = .writer && ep.topic = r.topic && ep.typeName = r.type && qosAcceptedByReader r.qos ep.qos)

structure Counted (p : Participant) : Prop where
  writers : ∀ entry ∈ p.writers, entry.2.matchedCount = p.readersFor entry.2
  readers : ∀ entry ∈ p.readers, entry.2.matchedCount = p.writersFor entry.2

end Participant

/-- What matching looks at in a record. -/
def EndpointRecord.offer (ep : EndpointRecord) : EntityKind × Bytes × Bytes × QosProfile :=
  (ep.kind, ep.topic, ep.typeName, ep.qos)

namespace Participant
variable {p q : Participant}

theorem countP_offer (test : EntityKind × Bytes × Bytes × QosProfile → Bool) {eps others : List EndpointRecord}
    (same : others.map EndpointRecord.offer = eps.map EndpointRecord.offer) :
    others.countP (fun ep => test ep.offer) = eps.countP (fun ep => test ep.offer) := by
  have mapped := congrArg (List.countP test) same
  rwa [List.countP_map, List.countP_map] at mapped

theorem readersFor_congr (same : q.known.map EndpointRecord.offer = p.known.map EndpointRecord.offer) (w : WriterImpl) :
    q.readersFor w = p.readersFor w :=
  countP_offer (fun offer =>
    offer.1 = .reader && offer.2.1 = w.topic && offer.2.2.1 = w.type && qosCompatible offer.2.2.2 w.qos) same

theorem writersFor_congr (same : q.known.map EndpointRecord.offer = p.known.map EndpointRecord.offer) (r : ReaderImpl) :
    q.writersFor r = p.writersFor r :=
  countP_offer (fun offer =>
    offer.1 = .writer && offer.2.1 = r.topic && offer.2.2.1 = r.type && qosAcceptedByReader r.qos offer.2.2.2) same

/-- Counts stay right as long as nobody's offer changes. -/
theorem Counted.congr (counted : p.Counted) (writers : q.writers = p.writers) (readers : q.readers = p.readers)
    (same : q.known.map EndpointRecord.offer = p.known.map EndpointRecord.offer) : q.Counted := by
  constructor
  · intro entry member
    rw [readersFor_congr same]
    exact counted.writers entry (writers ▸ member)
  · intro entry member
    rw [writersFor_congr same]
    exact counted.readers entry (readers ▸ member)

theorem records_recomputeMatches (p : Participant) : p.recomputeMatches.records = p.records := by
  simp only [records, recomputeMatches, List.map_map]
  rfl

theorem known_recomputeMatches (p : Participant) : p.recomputeMatches.known = p.known := by
  rw [known, records_recomputeMatches]
  rfl

/-- The two loops of `recompute_matches` for a writer. -/
theorem readersFor_eq (p : Participant) (w : WriterImpl) :
    p.readersFor w = p.remoteEndpoints.countP (fun ep =>
        ep.kind = .reader && ep.topic = w.topic && ep.typeName = w.type && qosCompatible ep.qos w.qos) +
      p.readers.countP (fun entry =>
        entry.2.topic = w.topic && entry.2.type = w.type && qosCompatible entry.2.qos w.qos) := by
  have own : p.writers.countP (fun entry => decide (entry.2.record.kind = .reader) && entry.2.record.topic = w.topic &&
      entry.2.record.typeName = w.type && qosCompatible entry.2.record.qos w.qos) = 0 :=
    List.countP_eq_zero.mpr (fun entry _ => by simp [WriterImpl.record])
  rw [readersFor, known, records, List.countP_append, List.countP_append, List.countP_map, List.countP_map]
  simp only [Function.comp_def]
  rw [own, Nat.zero_add]
  simp only [ReaderImpl.record, decide_true, Bool.true_and]
  rfl

/-- The two loops of `recompute_matches` for a reader. -/
theorem writersFor_eq (p : Participant) (r : ReaderImpl) :
    p.writersFor r = p.remoteEndpoints.countP (fun ep => ep.kind = .writer && endpointsMatch r.topic r.type r.qos ep) +
      p.writers.countP (fun entry =>
        entry.2.topic = r.topic && entry.2.type = r.type && qosAcceptedByReader r.qos entry.2.qos) := by
  have own : p.readers.countP (fun entry => decide (entry.2.record.kind = .writer) && entry.2.record.topic = r.topic &&
      entry.2.record.typeName = r.type && qosAcceptedByReader r.qos entry.2.record.qos) = 0 :=
    List.countP_eq_zero.mpr (fun entry _ => by simp [ReaderImpl.record])
  rw [writersFor, known, records, List.countP_append, List.countP_append, List.countP_map, List.countP_map]
  simp only [Function.comp_def]
  rw [own, Nat.add_zero]
  simp only [WriterImpl.record, decide_true, Bool.true_and, endpointsMatch, Bool.and_assoc]
  rfl

/-- `recompute_matches` makes every count right. -/
theorem recomputeMatches_counted (p : Participant) : p.recomputeMatches.Counted := by
  constructor
  · intro entry member
    obtain ⟨old, _, rfl⟩ := List.mem_map.mp member
    rw [readersFor, known_recomputeMatches]
    exact (p.readersFor_eq old.2).symm
  · intro entry member
    obtain ⟨old, _, rfl⟩ := List.mem_map.mp member
    rw [writersFor, known_recomputeMatches]
    exact (p.writersFor_eq old.2).symm

/-- The critical section of `create_writer`, `none` for an invalid QoS. -/
def insertWriter (p : Participant) (addr : Addr) (topic type : Bytes) (qos : QosProfile) (now : U64) :
    Option Participant :=
  if !qosValid qos then none
  else
    let serial := p.entitySerial + 1
    let w : WriterImpl := { guid := makeGuid p.owner .writer serial, topic, type, qos, birthUs := now }
    some { p with entitySerial := serial, writers := KeyedList.emplace addr w p.writers }

/-- The critical section of `create_reader`, `none` for an invalid QoS. -/
def insertReader (p : Participant) (addr : Addr) (topic type : Bytes) (qos : QosProfile) (ignoreLocal : Bool) (now : U64) :
    Option Participant :=
  if !qosValid qos then none
  else
    let serial := p.entitySerial + 1
    let r : ReaderImpl := { guid := makeGuid p.owner .reader serial, topic, type, qos, ignoreLocal, birthUs := now }
    some { p with entitySerial := serial, readers := KeyedList.emplace addr r p.readers }

end Participant

/-- The calls that change the tables. -/
inductive TableChange
  | createWriter (addr : Addr) (topic type : Bytes) (qos : QosProfile) (now : U64)
  | createReader (addr : Addr) (topic type : Bytes) (qos : QosProfile) (ignoreLocal : Bool) (now : U64)
  | destroyWriter (addr : Addr)
  | destroyReader (addr : Addr)
  | handleAnnounce (peer : PeerId) (snap : ParticipantSnapshot) (announceSeq now : U64)
  | handlePeerDown (peer : PeerId)

namespace Participant

/-- The critical section in which a call changes the tables, and whether it
goes on to recompute the counts. -/
def change (p : Participant) : TableChange → Participant × Bool
  | .createWriter addr topic type qos now =>
    match p.insertWriter addr topic type qos now with
    | none => (p, false)
    | some next => (next, true)
  | .createReader addr topic type qos ignoreLocal now =>
    match p.insertReader addr topic type qos ignoreLocal now with
    | none => (p, false)
    | some next => (next, true)
  | .destroyWriter addr => ({ p with writers := KeyedList.erase addr p.writers }, true)
  | .destroyReader addr => ({ p with readers := KeyedList.erase addr p.readers }, true)
  | .handleAnnounce peer snap announceSeq now =>
    let (next, _, changed) := p.handleAnnounce peer snap announceSeq now
    (next, changed)
  | .handlePeerDown peer =>
    let kept := p.remote.filter (fun entry => entry.2.peer ≠ peer)
    ({ p with peers := p.peers.filter (· ≠ peer), remote := kept }, kept.length < p.remote.length)

/-- A call that no other call interrupts. -/
def callAlone (p : Participant) (call : TableChange) : Participant :=
  if (p.change call).2 then (p.change call).1.recomputeMatches else (p.change call).1

theorem createWriter_alone (p : Participant) (addr : Addr) (topic type : Bytes) (qos : QosProfile) (now : U64) :
    (p.createWriter addr topic type qos now).getD p = p.callAlone (.createWriter addr topic type qos now) := by
  simp only [createWriter, callAlone, change, insertWriter]
  split <;> rfl

theorem createReader_alone (p : Participant) (addr : Addr) (topic type : Bytes) (qos : QosProfile) (ignoreLocal : Bool)
    (now : U64) : (p.createReader addr topic type qos ignoreLocal now).getD p =
      p.callAlone (.createReader addr topic type qos ignoreLocal now) := by
  simp only [createReader, callAlone, change, insertReader]
  split <;> rfl

theorem destroyWriter_alone (p : Participant) (addr : Addr) :
    p.destroyWriter addr = p.callAlone (.destroyWriter addr) := rfl

theorem destroyReader_alone (p : Participant) (addr : Addr) :
    p.destroyReader addr = p.callAlone (.destroyReader addr) := rfl

theorem handlePeerDown_alone (p : Participant) (peer : PeerId) :
    p.handlePeerDown peer = p.callAlone (.handlePeerDown peer) := by
  simp only [handlePeerDown, callAlone, change, decide_eq_true_eq]

end Participant

/-- A guid keeps its QoS from one snapshot to the next. -/
def KeepsQos (snaps : List ParticipantSnapshot) : Prop :=
  ∀ a ∈ snaps, ∀ b ∈ snaps, ∀ e ∈ a.endpoints, ∀ f ∈ b.endpoints, e.guid = f.guid → e.qos = f.qos

/-- Records that compare equal and keep their QoS offer the same. -/
theorem offers_eq_of_same {eps others : List EndpointRecord} (length : eps.length = others.length)
    (same : (eps.zip others).all (fun pair => pair.1.same pair.2) = true)
    (stable : ∀ e ∈ eps, ∀ f ∈ others, e.guid = f.guid → e.qos = f.qos) :
    others.map EndpointRecord.offer = eps.map EndpointRecord.offer := by
  induction eps generalizing others with
  | nil => rw [List.eq_nil_of_length_eq_zero length.symm]
  | cons ep rest ih =>
    cases others with
    | nil => cases length
    | cons other others =>
      rw [List.zip_cons_cons, List.all_cons, Bool.and_eq_true] at same
      obtain ⟨alike, same⟩ := same
      simp only [EndpointRecord.same, Bool.and_eq_true, decide_eq_true_eq] at alike
      obtain ⟨⟨⟨guid, kind⟩, topic⟩, type⟩ := alike
      have qos := stable ep List.mem_cons_self other List.mem_cons_self guid
      have tail := ih (Nat.succ.inj length) same (fun e inside f there =>
        stable e (List.mem_cons_of_mem _ inside) f (List.mem_cons_of_mem _ there))
      rw [List.map_cons, List.map_cons, tail]
      simp only [EndpointRecord.offer, kind, topic, type, qos]

namespace Participant
variable {p : Participant}

theorem remoteOffers (p : Participant) : p.remoteEndpoints.map EndpointRecord.offer =
    (p.remote.map (fun entry => entry.2.snap.endpoints.map EndpointRecord.offer)).flatten := by
  rw [remoteEndpoints, List.map_flatMap, List.flatMap_def]

/-- An announce deemed irrelevant leaves every offer as it was. -/
theorem handleAnnounce_offers (ascending : KeyedList.Ascending p.remote) {peer : PeerId} {snap : ParticipantSnapshot}
    {announceSeq now : U64}
    (stable : ∀ old, p.remote.lookup snap.participantGuid = some old →
      ∀ e ∈ old.snap.endpoints, ∀ f ∈ snap.endpoints, e.guid = f.guid → e.qos = f.qos)
    (unchanged : (p.handleAnnounce peer snap announceSeq now).2.2 = false) :
    (p.handleAnnounce peer snap announceSeq now).1.remoteEndpoints.map EndpointRecord.offer =
      p.remoteEndpoints.map EndpointRecord.offer := by
  rw [remoteOffers, remoteOffers]
  unfold handleAnnounce at unchanged ⊢
  dsimp only at unchanged ⊢
  cases known : p.remote.lookup snap.participantGuid with
  | none =>
    rw [known] at unchanged
    cases unchanged
  | some old =>
    rw [known] at unchanged
    dsimp only at unchanged ⊢
    split
    · -- Only a liveliness stamp moves.
      simp only [KeyedList.modify, List.map_map, Function.comp_def, apply_ite Prod.snd,
        apply_ite RemoteParticipant.snap, ite_self]
    · rename_i newer
      rw [if_neg newer] at unchanged
      simp only [Bool.not_eq_false', Bool.and_eq_true, decide_eq_true_eq] at unchanged
      obtain ⟨⟨_, length⟩, same⟩ := unchanged
      have offers := offers_eq_of_same length same (stable old known)
      exact congrArg List.flatten (ascending.map_assign known offers)

/-- Only announces and the loss of a peer touch what others announced. -/
theorem change_remote (p : Participant) {call : TableChange}
    (announce : ∀ peer snap announceSeq now, call ≠ .handleAnnounce peer snap announceSeq now)
    (down : ∀ peer, call ≠ .handlePeerDown peer) : (p.change call).1.remote = p.remote := by
  cases call with
  | createWriter =>
    simp only [change, insertWriter]
    split
    · rfl
    · rename_i accepted
      split at accepted
      · cases accepted
      · rw [← Option.some.inj accepted]
  | createReader =>
    simp only [change, insertReader]
    split
    · rfl
    · rename_i accepted
      split at accepted
      · cases accepted
      · rw [← Option.some.inj accepted]
  | destroyWriter | destroyReader => rfl
  | handleAnnounce peer snap announceSeq now => exact absurd rfl (announce peer snap announceSeq now)
  | handlePeerDown peer => exact absurd rfl (down peer)

theorem handleAnnounce_tables (p : Participant) (peer : PeerId) (snap : ParticipantSnapshot) (announceSeq now : U64) :
    (p.handleAnnounce peer snap announceSeq now).1.writers = p.writers ∧
      (p.handleAnnounce peer snap announceSeq now).1.readers = p.readers := by
  unfold handleAnnounce
  dsimp only
  split
  · exact ⟨rfl, rfl⟩
  · split <;> exact ⟨rfl, rfl⟩

theorem handleAnnounce_ascending (ascending : KeyedList.Ascending p.remote) (peer : PeerId) (snap : ParticipantSnapshot)
    (announceSeq now : U64) : KeyedList.Ascending (p.handleAnnounce peer snap announceSeq now).1.remote := by
  unfold handleAnnounce
  dsimp only
  split
  · exact ascending.assign
  · split
    · dsimp only
      exact ascending.modify
    · exact ascending.assign

theorem handleAnnounce_stored {peer : PeerId} {snap : ParticipantSnapshot} {announceSeq now : U64}
    {entry : Guid × RemoteParticipant} (member : entry ∈ (p.handleAnnounce peer snap announceSeq now).1.remote) :
    entry.2.snap = snap ∨ ∃ old ∈ p.remote, entry.2.snap = old.2.snap := by
  have assigned (inside : entry ∈ KeyedList.assign snap.participantGuid ⟨peer, announceSeq, snap, now⟩ p.remote) :
      entry.2.snap = snap ∨ ∃ old ∈ p.remote, entry.2.snap = old.2.snap := by
    rcases KeyedList.mem_of_mem_assign inside with rfl | before
    · exact Or.inl rfl
    · exact Or.inr ⟨entry, before, rfl⟩
  unfold handleAnnounce at member
  dsimp only at member
  split at member
  · exact assigned member
  · split at member
    · dsimp only at member
      obtain ⟨old, inside, same | ⟨_, same⟩⟩ := KeyedList.mem_modify member
      · exact Or.inr ⟨_, inside, congrArg RemoteParticipant.snap same⟩
      · exact Or.inr ⟨_, inside, by rw [same]⟩
    · exact assigned member

end Participant

/-- A participant and the number of calls that are between their table change
and their `recompute_matches`. -/
structure Settling extends Participant where
  pending : Nat := 0

inductive MatchStep
  | change (call : TableChange)
  | recompute

/-- The snapshot an announce carries. -/
def MatchStep.announced : MatchStep → Option ParticipantSnapshot
  | change (.handleAnnounce _ snap _ _) => some snap
  | _ => none

namespace Settling
variable {s : Settling}

def step (s : Settling) : MatchStep → Settling
  | .change call =>
    { toParticipant := (s.change call).1, pending := s.pending + (s.change call).2.toNat }
  | .recompute =>
    if s.pending = 0 then s else { toParticipant := s.recomputeMatches, pending := s.pending - 1 }

def create (owner : GuidPrefix) : Settling where
  owner := owner
  guid := makeGuid owner .participant 0

/-- With the announces of a run in view: the counts are right unless somebody
is about to recompute them. -/
structure Sound (snaps : List ParticipantSnapshot) (s : Settling) : Prop where
  ascending : KeyedList.Ascending s.remote
  stored : ∀ entry ∈ s.remote, entry.2.snap ∈ snaps
  counted : s.pending = 0 → s.Counted

theorem Sound.start (snaps : List ParticipantSnapshot) (owner : GuidPrefix) : (create owner).Sound snaps where
  ascending := .nil
  stored := fun _ member => absurd member List.not_mem_nil
  counted := fun _ => ⟨fun _ member => absurd member List.not_mem_nil, fun _ member => absurd member List.not_mem_nil⟩

theorem Sound.recompute {snaps : List ParticipantSnapshot} (sound : s.Sound snaps) : (s.step .recompute).Sound snaps := by
  simp only [step]
  split
  · exact sound
  · exact ⟨sound.ascending, sound.stored, fun _ => s.recomputeMatches_counted⟩

theorem Sound.handleAnnounce {snaps : List ParticipantSnapshot} (stable : KeepsQos snaps) (sound : s.Sound snaps)
    {peer : PeerId} {snap : ParticipantSnapshot} {announceSeq now : U64} (inside : snap ∈ snaps) :
    (s.step (.change (.handleAnnounce peer snap announceSeq now))).Sound snaps := by
  refine ⟨Participant.handleAnnounce_ascending sound.ascending .., fun entry member => ?_, fun rest => ?_⟩
  · rcases Participant.handleAnnounce_stored member with new | ⟨old, before, same⟩
    · exact new ▸ inside
    · exact same ▸ sound.stored old before
  · obtain ⟨settled, flag⟩ := Nat.add_eq_zero_iff.mp rest
    have unchanged : (s.toParticipant.handleAnnounce peer snap announceSeq now).2.2 = false := by
      cases here : (s.toParticipant.handleAnnounce peer snap announceSeq now).2.2 with
      | false => rfl
      | true => simp [Participant.change, here] at flag
    have offers := Participant.handleAnnounce_offers sound.ascending
      (fun old found => stable _ (sound.stored _ (KeyedList.mem_of_lookup found)) _ inside) unchanged
    obtain ⟨writers, readers⟩ := s.toParticipant.handleAnnounce_tables peer snap announceSeq now
    refine (sound.counted settled).congr writers readers ?_
    rw [Participant.known, Participant.known, List.map_append, List.map_append]
    refine congrArg₂ (· ++ ·) offers ?_
    simp only [Participant.records]
    exact congrArg (List.map _) (congrArg₂ (· ++ ·) (congrArg (List.map _) writers) (congrArg (List.map _) readers))

theorem Sound.handlePeerDown {snaps : List ParticipantSnapshot} (sound : s.Sound snaps) (peer : PeerId) :
    (s.step (.change (.handlePeerDown peer))).Sound snaps := by
  refine ⟨sound.ascending.filter _, fun entry member => sound.stored entry (List.mem_of_mem_filter member), fun rest => ?_⟩
  obtain ⟨settled, flag⟩ := Nat.add_eq_zero_iff.mp rest
  -- Nothing was removed, otherwise a recompute would be pending.
  have all : s.remote.filter (fun entry => entry.2.peer ≠ peer) = s.remote := by
    have notLess : ¬ _ < _ := of_decide_eq_false (Bool.toNat_eq_zero.mp flag)
    exact List.filter_eq_self.mpr (List.length_filter_eq_length_iff.mp
      (le_antisymm (List.length_filter_le ..) (Nat.not_lt.mp notLess)))
  refine (sound.counted settled).congr rfl rfl ?_
  exact congrArg (fun remote => ({ s.toParticipant with remote } : Participant).known.map EndpointRecord.offer) all

/-- Every other call recomputes, or was refused. -/
theorem Sound.local {snaps : List ParticipantSnapshot} (sound : s.Sound snaps) {call : TableChange}
    (announce : ∀ peer snap announceSeq now, call ≠ .handleAnnounce peer snap announceSeq now)
    (down : ∀ peer, call ≠ .handlePeerDown peer) : (s.step (.change call)).Sound snaps := by
  have remote := s.toParticipant.change_remote announce down
  have refused (flag : (s.change call).2 = false) : (s.change call).1 = s.toParticipant := by
    cases call with
    | createWriter =>
      simp only [Participant.change] at flag ⊢
      split at flag
      · rfl
      · cases flag
    | createReader =>
      simp only [Participant.change] at flag ⊢
      split at flag
      · rfl
      · cases flag
    | destroyWriter | destroyReader => cases flag
    | handleAnnounce peer snap announceSeq now => exact absurd rfl (announce peer snap announceSeq now)
    | handlePeerDown peer => exact absurd rfl (down peer)
  refine ⟨remote ▸ sound.ascending, fun entry member => sound.stored entry (remote ▸ member), fun rest => ?_⟩
  obtain ⟨settled, flag⟩ := Nat.add_eq_zero_iff.mp rest
  have counted := sound.counted settled
  rw [← refused (Bool.toNat_eq_zero.mp flag)] at counted
  exact counted

theorem Sound.step {snaps : List ParticipantSnapshot} (stable : KeepsQos snaps) (sound : s.Sound snaps) {turn : MatchStep}
    (inside : ∀ snap ∈ turn.announced, snap ∈ snaps) : (s.step turn).Sound snaps := by
  cases turn with
  | recompute => exact sound.recompute
  | change call =>
    cases call with
    | handleAnnounce peer snap announceSeq now => exact sound.handleAnnounce stable (inside snap rfl)
    | handlePeerDown peer => exact sound.handlePeerDown peer
    | _ => exact sound.local nofun nofun

/-- In every reachable state in which no call is between its table change and
its recompute, every matched count is the number of endpoints that match. -/
theorem counts_exact_at_rest {owner : GuidPrefix} {turns : List MatchStep}
    (stable : KeepsQos (turns.filterMap MatchStep.announced)) (rest : (Run.exec step (create owner) turns).pending = 0) :
    (Run.exec step (create owner) turns).Counted := by
  have along : Run.Along step (fun _ turn => ∀ snap ∈ turn.announced, snap ∈ turns.filterMap MatchStep.announced)
      (create owner) turns :=
    Run.along_of_mem (fun turn member _ snap announced => List.mem_filterMap.mpr ⟨turn, member, announced⟩)
  have sound : (Run.exec step (create owner) turns).Sound (turns.filterMap MatchStep.announced) :=
    along.invariant (fun _ _ sound inside => sound.step stable inside) (.start _ owner)
  exact sound.counted rest

/-- A writer is created while an announce arrives; the second announce is not
deemed relevant. -/
theorem counts_exact_at_rest_skipped :
    let reader : EndpointRecord := ⟨default, .reader, [1], [2], {}, 0⟩
    let turns : List MatchStep := [.change (.createWriter 0 [1] [2] {} 5),
      .change (.handleAnnounce 7 ⟨default, [], [reader]⟩ 1 10), .recompute,
      .change (.handleAnnounce 8 ⟨default, [], [{ reader with birthUs := 3 }]⟩ 2 20), .recompute]
    let s := Run.exec step (create ⟨List.replicate 12 1, rfl⟩) turns
    s.Counted ∧ s.writers.map (fun entry => entry.2.matchedCount) = [1] := by
  intro reader turns s
  have stable : KeepsQos (turns.filterMap MatchStep.announced) := by
    unfold KeepsQos
    decide
  exact ⟨counts_exact_at_rest stable rfl, rfl⟩

end Settling

end Mdds
