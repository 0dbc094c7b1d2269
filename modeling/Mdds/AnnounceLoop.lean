import Mdds.Running

namespace Mdds

/-- Two states that would announce the same. -/
structure Participant.SaysSame (p q : Participant) : Prop where
  guid : q.guid = p.guid
  nodes : q.nodes = p.nodes
  writers : q.writers.map (fun entry => entry.2.record) = p.writers.map (fun entry => entry.2.record)
  readers : q.readers.map (fun entry => entry.2.record) = p.readers.map (fun entry => entry.2.record)
  seq : q.announceSeq = p.announceSeq
  addrs : q.writers.map Prod.fst = p.writers.map Prod.fst

theorem Participant.SaysSame.snapshot {p q : Participant} (same : p.SaysSame q) : q.snapshot = p.snapshot := by
  have records : q.records = p.records := by rw [Participant.records, Participant.records, same.writers, same.readers]
  have whole (x : Participant) : x.snapshot = ⟨x.guid, x.nodes, x.records⟩ := rfl
  rw [whole, whole, same.guid, same.nodes, records]

/-- Two states that moreover have their endpoints under the same addresses and
would give the next one the same GUID. -/
structure Participant.SameTables (p q : Participant) : Prop extends p.SaysSame q where
  owner : q.owner = p.owner
  serial : q.entitySerial = p.entitySerial
  readerAddrs : q.readers.map Prod.fst = p.readers.map Prod.fst

namespace Participant.SameTables
variable {p q : Participant}

theorem trans {r : Participant} (first : p.SameTables q) (second : q.SameTables r) : p.SameTables r :=
  ⟨⟨second.guid.trans first.guid, second.nodes.trans first.nodes, second.writers.trans first.writers,
      second.readers.trans first.readers, second.seq.trans first.seq, second.addrs.trans first.addrs⟩,
    second.owner.trans first.owner, second.serial.trans first.serial, second.readerAddrs.trans first.readerAddrs⟩

/-- Peers, stamps and remote knowledge are no part of it. -/
theorem bookkeeping (p : Participant) (peers : List PeerId) (remote : List (Guid × RemoteParticipant))
    (writerLastSeen : Guid → Option U64) : p.SameTables { p with peers, remote, writerLastSeen } :=
  ⟨⟨rfl, rfl, rfl, rfl, rfl, rfl⟩, rfl, rfl, rfl⟩

theorem refl (p : Participant) : p.SameTables p := bookkeeping ..

theorem modify_records {α : Type} {addr : Addr} {f : α → α} {g : α → EndpointRecord} {entries : List (Addr × α)}
    (kept : ∀ value, (addr, value) ∈ entries → g (f value) = g value) :
    (KeyedList.modify addr f entries).map (fun entry => g entry.2) = entries.map (fun entry => g entry.2) := by
  rw [KeyedList.modify, List.map_map]
  refine List.map_congr_left (fun entry member => ?_)
  by_cases here : entry.1 = addr
  · have same := kept entry.2 (here ▸ member)
    simp only [Function.comp_apply, here, if_true, same]
  · simp only [Function.comp_apply, here, if_false]

theorem recomputeMatches (p : Participant) : p.SameTables p.recomputeMatches := by
  refine ⟨⟨rfl, rfl, ?_, ?_, rfl, ?_⟩, rfl, rfl, ?_⟩
  all_goals
    simp only [Participant.recomputeMatches, List.map_map]
    rfl

theorem lasting : Lasting SameTables where
  trans := trans
  bookkeeping := bookkeeping
  readers p f later := by
    refine ⟨⟨rfl, rfl, rfl, ?_, rfl, rfl⟩, rfl, rfl, ?_⟩
    · rw [List.map_map]
      exact List.map_congr_left (fun entry _ => (later ..).record)
    · rw [List.map_map]
      rfl
  matched := recomputeMatches

theorem writeLocked {addr : Addr} {pubTimeUs now : U64} {data : Bytes} {ticket : WriteTicket}
    (distinct : (p.writers.map Prod.fst).Nodup)
    (accepted : p.writeLocked addr pubTimeUs data now = some (q, ticket)) : p.SameTables q := by
  obtain ⟨w, next, found, published, rfl, _, _⟩ := writeLocked_cases accepted
  refine ⟨⟨rfl, rfl, @modify_records _ addr (fun _ => next) WriterImpl.record p.writers (fun value member => ?_), rfl, rfl,
    ?_⟩, rfl, rfl, rfl⟩
  · rw [Option.some.inj ((KeyedList.lookup_of_mem distinct member).symm.trans found)]
    exact WriterImpl.publish_record published
  · dsimp only
    rw [KeyedList.keys_modify]

end Participant.SameTables

namespace Section

/-- The calls that end in `announce_now`. -/
def isLocal : Section → Bool
  | createWriter .. | createReader .. | destroyWriter .. | destroyReader .. | addNode .. | removeNode .. => true
  | _ => false

/-- Of these, the calls that add something and those that take something away. -/
def adds : Section → Bool
  | createWriter .. | createReader .. | addNode .. => true
  | _ => false

def removes : Section → Bool
  | destroyWriter .. | destroyReader .. | removeNode .. => true
  | _ => false

def ticks : Section → Bool
  | announceTick _ => true
  | _ => false

def broadcasts : Section → Bool
  | broadcastAnnounce => true
  | _ => false

def expires : Section → Bool
  | periodExpires => true
  | _ => false

end Section

namespace Running

/-- No two writers live at one address. -/
def Distinct (s : Running) : Prop := (s.writers.map Prod.fst).Nodup

/-- Apart from local calls and ticks, the endpoints and what an announce would say stay. -/
theorem step_sameTables {s : Running} (distinct : s.Distinct) {turn : Section} (remote : turn.isLocal = false)
    (still : turn.ticks = false) : s.SameTables (s.step turn).1.toParticipant := by
  cases turn with
  | createWriter | createReader | destroyWriter | destroyReader | addNode | removeNode => cases remote
  | announceTick => cases still
  | write addr pubTimeUs data now =>
    simp only [step]
    split
    · exact .refl s.toParticipant
    · rename_i accepted
      exact .writeLocked distinct accepted
  | _ => exact Participant.SameTables.lasting.step rfl

theorem createWriter_eq {p q : Participant} {addr : Addr} {topic type : Bytes} {qos : QosProfile} {birthUs : U64}
    (accepted : p.createWriter addr topic type qos birthUs = some q) :
    q.announceSeq = p.announceSeq ∧ ∃ w, q.writers.map Prod.fst = (KeyedList.emplace addr w p.writers).map Prod.fst := by
  unfold Participant.createWriter at accepted
  split at accepted
  · simp at accepted
  · cases Option.some.inj accepted
    exact ⟨rfl, _, (Participant.SameTables.recomputeMatches _).addrs⟩

theorem createReader_eq {p q : Participant} {addr : Addr} {topic type : Bytes} {qos : QosProfile} {ignoreLocal : Bool}
    {birthUs : U64} (accepted : p.createReader addr topic type qos ignoreLocal birthUs = some q) :
    q.announceSeq = p.announceSeq ∧ q.writers.map Prod.fst = p.writers.map Prod.fst := by
  unfold Participant.createReader at accepted
  split at accepted
  · simp at accepted
  · cases Option.some.inj accepted
    exact ⟨rfl, (Participant.SameTables.recomputeMatches _).addrs⟩

/-- A local call sends nothing itself and leaves the announce thread where it is. -/
theorem step_local {s : Running} (distinct : s.Distinct) {turn : Section} (here : turn.isLocal = true) :
    (s.step turn).2 = [] ∧ (s.step turn).1.loop = s.loop ∧ (s.step turn).1.announceSeq = s.announceSeq ∧
      (s.step turn).1.Distinct := by
  cases turn with
  | createWriter addr topic type qos birthUs =>
    simp only [step]
    split
    · exact ⟨rfl, rfl, rfl, distinct⟩
    · rename_i unused
      have absent : s.writers.lookup addr = none := Option.not_isSome_iff_eq_none.mp unused
      cases accepted : s.toParticipant.createWriter addr topic type qos birthUs with
      | none => exact ⟨rfl, rfl, rfl, distinct⟩
      | some q =>
        obtain ⟨seq, w, addrs⟩ := createWriter_eq accepted
        refine ⟨rfl, rfl, seq, ?_⟩
        unfold Distinct changed
        dsimp only
        rw [addrs]
        exact KeyedList.nodup_emplace distinct (KeyedList.not_mem_keys absent)
  | createReader addr topic type qos ignoreLocal birthUs =>
    simp only [step]
    split
    · exact ⟨rfl, rfl, rfl, distinct⟩
    · cases accepted : s.toParticipant.createReader addr topic type qos ignoreLocal birthUs with
      | none => exact ⟨rfl, rfl, rfl, distinct⟩
      | some q =>
        obtain ⟨seq, addrs⟩ := createReader_eq accepted
        refine ⟨rfl, rfl, seq, ?_⟩
        unfold Distinct changed
        dsimp only
        rw [addrs]
        exact distinct
  | destroyWriter addr =>
    refine ⟨rfl, rfl, rfl, ?_⟩
    have addrs := (Participant.SameTables.recomputeMatches
      { s.toParticipant with writers := KeyedList.erase addr s.writers }).addrs
    simp only [step, Distinct, changed, Participant.destroyWriter, addrs]
    exact distinct.sublist (List.filter_sublist.map Prod.fst)
  | destroyReader addr =>
    refine ⟨rfl, rfl, rfl, ?_⟩
    have addrs := (Participant.SameTables.recomputeMatches
      { s.toParticipant with readers := KeyedList.erase addr s.readers }).addrs
    simp only [step, Distinct, changed, Participant.destroyReader, addrs]
    exact distinct
  | addNode ns name => exact ⟨rfl, rfl, rfl, distinct⟩
  | removeNode ns name => exact ⟨rfl, rfl, rfl, distinct⟩
  | _ => cases here

/-- The tick of the announce thread. -/
theorem step_tick {s : Running} (distinct : s.Distinct) (now : U64) :
    (s.step (.announceTick now)).2 = [] ∧ (s.step (.announceTick now)).1.snapshot = s.snapshot ∧
      (s.step (.announceTick now)).1.Distinct ∧
      ((s.loop = .bumping ∧ (s.step (.announceTick now)).1.loop = .broadcasting ∧
          (s.step (.announceTick now)).1.announceSeq = s.announceSeq + 1) ∨
        (s.loop ≠ .bumping ∧ (s.step (.announceTick now)).1 = s)) := by
  simp only [step]
  split
  · rename_i phase
    exact ⟨rfl, rfl, distinct, Or.inl ⟨phase, rfl, rfl⟩⟩
  · rename_i phase
    exact ⟨rfl, rfl, distinct, Or.inr ⟨phase, rfl⟩⟩

theorem step_distinct {s : Running} (distinct : s.Distinct) (turn : Section) : (s.step turn).1.Distinct := by
  by_cases here : turn.isLocal = true
  · exact (step_local distinct here).2.2.2
  · by_cases ticks : turn.ticks = true
    · cases turn with
      | announceTick now => exact (step_tick distinct now).2.2.1
      | _ => cases ticks
    · rw [Bool.not_eq_true] at here ticks
      unfold Distinct
      rw [(step_sameTables distinct here ticks).addrs]
      exact distinct

/-- The announce number moves only by the tick, which sends nothing. -/
theorem step_announceSeq {s : Running} (distinct : s.Distinct) (turn : Section) :
    (s.step turn).1.announceSeq = s.announceSeq ∨
      ((s.step turn).1.announceSeq = s.announceSeq + 1 ∧ turn.ticks = true ∧ (s.step turn).2 = []) := by
  by_cases here : turn.isLocal = true
  · exact Or.inl (step_local distinct here).2.2.1
  · by_cases ticks : turn.ticks = true
    · cases turn with
      | announceTick now =>
        obtain ⟨silent, _, _, ⟨_, _, seq⟩ | ⟨_, same⟩⟩ := step_tick distinct now
        · exact Or.inr ⟨seq, rfl, silent⟩
        · exact Or.inl (by rw [same])
      | _ => cases ticks
    · rw [Bool.not_eq_true] at here ticks
      exact Or.inl (step_sameTables distinct here ticks).seq

end Running

/-- What an announce carries besides its number. -/
abbrev AnnounceContent := List NodeInfo × List EndpointRecord

def ParticipantSnapshot.content (snap : ParticipantSnapshot) : AnnounceContent := (snap.nodes, snap.endpoints)

/-- The announces among sent frames. -/
def announcesIn (sends : List (PeerId × Frame)) : List (ParticipantSnapshot × U64) :=
  sends.filterMap (fun send => match send.2 with
    | .announce snap announceSeq => some (snap, announceSeq)
    | _ => none)

def ParticipantSnapshot.size (snap : ParticipantSnapshot) : Nat := snap.nodes.length + snap.endpoints.length

namespace Running

/-- A local call that changes what an announce would say. -/
def Alters (s : Running) : Section → Prop
  | .createWriter addr _ _ qos _ => s.writers.lookup addr = none ∧ qosValid qos = true
  | .createReader addr _ _ qos _ _ => s.readers.lookup addr = none ∧ qosValid qos = true
  | .destroyWriter addr => s.writers.lookup addr ≠ none
  | .destroyReader addr => s.readers.lookup addr ≠ none
  | .addNode ns name => (⟨ns, name⟩ : NodeInfo) ∉ s.nodes
  | .removeNode ns name => (⟨ns, name⟩ : NodeInfo) ∈ s.nodes
  | _ => False

instance decidableAlters (s : Running) : ∀ turn, Decidable (s.Alters turn)
  | .createWriter .. => inferInstanceAs (Decidable (_ ∧ _))
  | .createReader .. => inferInstanceAs (Decidable (_ ∧ _))
  | .destroyWriter addr => decidable_of_iff ((s.writers.lookup addr).isSome = true) Option.isSome_iff_ne_none
  | .destroyReader addr => decidable_of_iff ((s.readers.lookup addr).isSome = true) Option.isSome_iff_ne_none
  | .addNode .. => inferInstanceAs (Decidable (_ ∉ _))
  | .removeNode .. => inferInstanceAs (Decidable (_ ∈ _))
  | .announceNow | .replayLocalHistory .. | .write .. | .handOver .. | .take .. | .available .. | .assertLiveliness _
  | .announceTick _ | .broadcastAnnounce | .sendHeartbeats | .periodExpires | .stop | .peerUp _ | .sendAnnounce _
  | .peerDown _ | .bytes .. | .deliverSample .. | .replayHistory .. => inferInstanceAs (Decidable False)

theorem snapshot_recompute {p q : Participant} (same : p.snapshot = q.snapshot) :
    p.recomputeMatches.snapshot = q.snapshot :=
  (Participant.SameTables.recomputeMatches p).snapshot.trans same

/-- Every other step leaves the snapshot alone. -/
theorem step_snapshot {s : Running} (distinct : s.Distinct) {turn : Section} (idle : ¬ s.Alters turn) :
    (s.step turn).1.snapshot = s.snapshot := by
  by_cases here : turn.isLocal = true
  · cases turn with
    | createWriter addr topic type qos birthUs =>
      simp only [step]
      split
      · rfl
      · rename_i unused
        have absent := Option.not_isSome_iff_eq_none.mp unused
        have invalid : qosValid qos = false := by simpa [Alters, absent] using idle
        simp [Participant.createWriter, invalid, changed]
    | createReader addr topic type qos ignoreLocal birthUs =>
      simp only [step]
      split
      · rfl
      · rename_i unused
        have absent := Option.not_isSome_iff_eq_none.mp unused
        have invalid : qosValid qos = false := by simpa [Alters, absent] using idle
        simp [Participant.createReader, invalid, changed]
    | destroyWriter addr =>
      have absent : s.writers.lookup addr = none := not_not.mp idle
      have kept : KeyedList.erase addr s.writers = s.writers := KeyedList.erase_absent absent
      exact snapshot_recompute (by rw [kept])
    | destroyReader addr =>
      have absent : s.readers.lookup addr = none := not_not.mp idle
      have kept : KeyedList.erase addr s.readers = s.readers := KeyedList.erase_absent absent
      exact snapshot_recompute (by rw [kept])
    | addNode ns name =>
      have present : (⟨ns, name⟩ : NodeInfo) ∈ s.nodes := not_not.mp idle
      simp only [step, changed, Participant.addNode, present, if_true]
    | removeNode ns name =>
      have kept : s.nodes.filter (· ≠ ⟨ns, name⟩) = s.nodes :=
        List.filter_eq_self.mpr (fun node member => by
          simp only [ne_eq, decide_eq_true_eq]
          exact fun same => idle (show (⟨ns, name⟩ : NodeInfo) ∈ s.nodes from same ▸ member))
      simp only [step, changed, Participant.removeNode, kept]
    | _ => cases here
  · by_cases ticks : turn.ticks = true
    · cases turn with
      | announceTick now => exact (step_tick distinct now).2.1
      | _ => cases ticks
    · rw [Bool.not_eq_true] at here ticks
      exact (step_sameTables distinct here ticks).snapshot

/-- An announce goes out: the broadcast of a round that has peers, or a greeting. -/
def Announces (s : Running) : Section → Prop
  | .broadcastAnnounce => s.loop = .broadcasting ∧ s.peers ≠ []
  | .sendAnnounce index => index < s.greeting.length
  | _ => False

instance decidableAnnounces (s : Running) : ∀ turn, Decidable (s.Announces turn)
  | .broadcastAnnounce => inferInstanceAs (Decidable (_ ∧ _))
  | .sendAnnounce _ => inferInstanceAs (Decidable (_ < _))
  | .createWriter .. | .createReader .. | .destroyWriter _ | .destroyReader _ | .addNode .. | .removeNode .. | .announceNow
  | .replayLocalHistory .. | .write .. | .handOver .. | .take .. | .available .. | .assertLiveliness _ | .announceTick _
  | .sendHeartbeats | .periodExpires | .stop | .peerUp _ | .peerDown _ | .bytes .. | .deliverSample ..
  | .replayHistory .. => inferInstanceAs (Decidable False)

theorem size_snapshot (p : Participant) :
    p.snapshot.size = p.nodes.length + (p.writers.length + p.readers.length) := by
  rw [ParticipantSnapshot.size, Participant.snapshot, List.length_append, List.length_map, List.length_map]

theorem size_recompute (p : Participant) :
    p.recomputeMatches.snapshot.size = p.nodes.length + (p.writers.length + p.readers.length) := by
  rw [(Participant.SameTables.recomputeMatches p).snapshot, size_snapshot]

theorem step_adds {s : Running} {turn : Section} (adds : turn.adds = true) (alters : s.Alters turn) :
    (s.step turn).1.snapshot.size = s.snapshot.size + 1 := by
  cases turn with
  | createWriter addr topic type qos birthUs =>
    obtain ⟨absent, valid⟩ := alters
    simp only [step, absent, Option.isSome_none, Bool.false_eq_true, if_false, changed, Participant.createWriter, valid,
      Bool.not_true]
    rw [size_recompute, size_snapshot]
    dsimp only
    rw [KeyedList.length_emplace (KeyedList.not_mem_keys absent)]
    omega
  | createReader addr topic type qos ignoreLocal birthUs =>
    obtain ⟨absent, valid⟩ := alters
    simp only [step, absent, Option.isSome_none, Bool.false_eq_true, if_false, changed, Participant.createReader, valid,
      Bool.not_true]
    rw [size_recompute, size_snapshot]
    dsimp only
    rw [KeyedList.length_emplace (KeyedList.not_mem_keys absent)]
    omega
  | addNode ns name =>
    have new : (⟨ns, name⟩ : NodeInfo) ∉ s.nodes := alters
    simp only [step, changed, Participant.addNode, new, if_false]
    rw [size_snapshot, size_snapshot]
    dsimp only
    rw [List.length_append, List.length_singleton]
    omega
  | _ => cases adds

theorem length_erase_lt {α : Type} {addr : Addr} {entries : List (Addr × α)} (held : entries.lookup addr ≠ none) :
    (KeyedList.erase addr entries).length < entries.length := by
  obtain ⟨value, found⟩ := Option.ne_none_iff_exists'.mp held
  exact List.length_filter_lt_length_iff_exists.mpr ⟨_, KeyedList.mem_of_lookup found, by simp⟩

theorem step_removes {s : Running} {turn : Section} (removes : turn.removes = true) (alters : s.Alters turn) :
    (s.step turn).1.snapshot.size < s.snapshot.size := by
  cases turn with
  | destroyWriter addr =>
    have fewer := length_erase_lt alters
    simp only [step, changed, Participant.destroyWriter]
    rw [size_recompute, size_snapshot]
    dsimp only
    omega
  | destroyReader addr =>
    have fewer := length_erase_lt alters
    simp only [step, changed, Participant.destroyReader]
    rw [size_recompute, size_snapshot]
    dsimp only
    omega
  | removeNode ns name =>
    have fewer : (s.nodes.filter (· ≠ ⟨ns, name⟩)).length < s.nodes.length :=
      List.length_filter_lt_length_iff_exists.mpr ⟨_, alters, by simp⟩
    simp only [step, changed, Participant.removeNode]
    rw [size_snapshot, size_snapshot]
    dsimp only
    omega
  | _ => cases removes

end Running

/-- A running participant under observation: whether an announce has gone out
with the current number and what calls have added or removed since, the last
snapshot broadcast, and whether a period has expired since the last local call.
No step reads these. -/
structure Watched extends Running where
  announced : Bool := false
  added : Bool := false
  removed : Bool := false
  broadcast : Option ParticipantSnapshot := none
  expired : Bool := false

namespace Watched
variable (w : Watched)

/-- The announces one section sends. -/
def sent (turn : Section) : List (ParticipantSnapshot × U64) := announcesIn (w.toRunning.step turn).2

def step (turn : Section) : Watched :=
  let bumps := turn.ticks && decide (w.loop = .bumping)
  let alters := w.announced && decide (w.Alters turn)
  { toRunning := (w.toRunning.step turn).1
    announced := !bumps && (w.announced || decide (w.Announces turn))
    added := !bumps && (w.added || (alters && turn.adds))
    removed := !bumps && (w.removed || (alters && turn.removes))
    broadcast := if turn.broadcasts ∧ w.loop = .broadcasting then some w.snapshot else w.broadcast
    expired := if turn.isLocal then false else if turn.expires ∧ w.loop = .parked then true else w.expired }

def start (owner : GuidPrefix) : Watched := { toRunning := Running.create owner }

/-- No announce goes out after a call that altered something since the first
announce with the current number. -/
def InTurn (turn : Section) : Prop := w.Announces turn → w.added = false ∧ w.removed = false

instance (turn : Section) : Decidable (w.InTurn turn) := inferInstanceAs (Decidable (_ → _))

/-- No announce goes out after calls that may have undone each other. -/
def OneWay (turn : Section) : Prop := w.Announces turn → w.added = false ∨ w.removed = false

theorem sent_eq {w : Watched} {turn : Section} {a : ParticipantSnapshot × U64} (member : a ∈ w.sent turn) :
    a = (w.snapshot, w.announceSeq) := by
  obtain ⟨⟨peer, frame⟩, sends, announce⟩ := List.mem_filterMap.mp member
  cases frame with
  | announce snap announceSeq =>
    obtain ⟨same, _⟩ := Running.step_announces sends rfl
    cases Option.some.inj announce
    obtain ⟨rfl, rfl⟩ := Frame.announce.inj same
    rfl
  | _ => cases announce

theorem exists_sent_iff {w : Watched} {turn : Section} : (∃ a, a ∈ w.sent turn) ↔ w.Announces turn := by
  constructor
  · rintro ⟨a, member⟩
    obtain ⟨⟨peer, frame⟩, sends, announce⟩ := List.mem_filterMap.mp member
    cases frame with
    | announce snap announceSeq =>
      obtain ⟨_, ⟨rfl, phase, inside⟩ | ⟨index, rfl, waiting⟩⟩ := Running.step_announces sends rfl
      · exact ⟨phase, List.ne_nil_of_mem inside⟩
      · exact (List.getElem?_eq_some_iff.mp waiting).1
    | _ => cases announce
  · intro announces
    cases turn with
    | broadcastAnnounce =>
      obtain ⟨phase, some⟩ := announces
      obtain ⟨peer, inside⟩ := List.exists_mem_of_ne_nil _ some
      refine ⟨(w.snapshot, w.announceSeq), List.mem_filterMap.mpr ⟨(peer, .announce w.snapshot w.announceSeq), ?_, rfl⟩⟩
      simp only [Running.step, phase, if_true]
      exact List.mem_map_of_mem inside
    | sendAnnounce index =>
      have waiting := List.getElem?_eq_getElem announces
      refine ⟨(w.snapshot, w.announceSeq), List.mem_filterMap.mpr
        ⟨(w.greeting[index], .announce w.snapshot w.announceSeq), ?_, rfl⟩⟩
      simp only [Running.step, waiting]
      exact List.mem_singleton_self _
    | _ => exact absurd announces id

/-- While the number stays, what is noted stays noted. -/
theorem step_notes {w : Watched} {turn : Section} (still : (turn.ticks && decide (w.loop = .bumping)) = false) :
    (w.step turn).announced = (w.announced || decide (w.Announces turn)) ∧
      (w.step turn).added = (w.added || (w.announced && decide (w.Alters turn) && turn.adds)) ∧
      (w.step turn).removed = (w.removed || (w.announced && decide (w.Alters turn) && turn.removes)) := by
  simp only [Watched.step, still, Bool.not_false, Bool.true_and, and_self]

/-- How the announces sent so far relate to the current number and the calls
since the first of them that carried it. -/
structure Numbered (w : Watched) (log : List (ParticipantSnapshot × U64)) : Prop where
  distinct : w.Distinct
  le : ∀ a ∈ log, a.2.toNat ≤ w.announceSeq.toNat
  used : w.announced = true ↔ ∃ a ∈ log, a.2 = w.announceSeq
  since : w.announced = false → w.added = false ∧ w.removed = false
  same : w.added = false → w.removed = false → ∀ a ∈ log, a.2 = w.announceSeq → a.1.content = w.snapshot.content
  grown : w.added = true → w.removed = false → ∃ a ∈ log, a.2 = w.announceSeq ∧ a.1.size < w.snapshot.size
  shrunk : w.added = false → w.removed = true → ∃ a ∈ log, a.2 = w.announceSeq ∧ w.snapshot.size < a.1.size

theorem size_congr {snap other : ParticipantSnapshot} (same : snap.content = other.content) : snap.size = other.size := by
  obtain ⟨nodes, endpoints⟩ := Prod.mk.inj same
  rw [ParticipantSnapshot.size, ParticipantSnapshot.size, nodes, endpoints]

namespace Numbered
variable {w : Watched} {log : List (ParticipantSnapshot × U64)} (numbered : w.Numbered log)
include numbered

/-- Under a new number nothing has been sent. -/
theorem bump {now : U64} (phase : w.loop = .bumping) (room : w.announceSeq.toNat + 1 < 2 ^ 64) :
    (w.step (.announceTick now)).Numbered (log ++ w.sent (.announceTick now)) := by
  obtain ⟨silent, _, distinct, ⟨_, _, seq⟩ | ⟨asleep, _⟩⟩ := Running.step_tick numbered.distinct now
  · have nothing : w.sent (.announceTick now) = [] := by simp only [sent, silent, announcesIn, List.filterMap_nil]
    have number : (w.step (.announceTick now)).announceSeq.toNat = w.announceSeq.toNat + 1 := by
      have next : (w.step (.announceTick now)).announceSeq = w.announceSeq + 1 := seq
      rw [next, BitVec.toNat_add_of_lt room]
      rfl
    have flags : (w.step (.announceTick now)).announced = false ∧ (w.step (.announceTick now)).added = false ∧
        (w.step (.announceTick now)).removed = false := by
      simp [Watched.step, Section.ticks, phase]
    obtain ⟨announced, added, removed⟩ := flags
    have older (a : ParticipantSnapshot × U64) (member : a ∈ log) : a.2 ≠ (w.step (.announceTick now)).announceSeq := by
      intro same
      have bound := numbered.le a member
      rw [same, number] at bound
      omega
    rw [nothing, List.append_nil]
    refine ⟨distinct, fun a member => ?_, ?_, fun _ => ⟨added, removed⟩,
      fun _ _ a member same => absurd same (older a member), fun grown => ?_, fun _ shrunk => ?_⟩
    · rw [number]
      exact Nat.le_succ_of_le (numbered.le a member)
    · rw [announced]
      exact iff_of_false Bool.false_ne_true (fun ⟨a, member, same⟩ => older a member same)
    · rw [added] at grown
      cases grown
    · rw [removed] at shrunk
      cases shrunk
  · exact absurd phase asleep

theorem exists_le (used : w.announced = true) (kept : w.removed = false) :
    ∃ a ∈ log, a.2 = w.announceSeq ∧ a.1.size ≤ w.snapshot.size := by
  cases added : w.added with
  | true =>
    obtain ⟨a, member, number, less⟩ := numbered.grown added kept
    exact ⟨a, member, number, less.le⟩
  | false =>
    obtain ⟨a, member, number⟩ := numbered.used.mp used
    exact ⟨a, member, number, (size_congr (numbered.same added kept a member number)).le⟩

theorem exists_ge (used : w.announced = true) (kept : w.added = false) :
    ∃ a ∈ log, a.2 = w.announceSeq ∧ w.snapshot.size ≤ a.1.size := by
  cases removed : w.removed with
  | true =>
    obtain ⟨a, member, number, less⟩ := numbered.shrunk kept removed
    exact ⟨a, member, number, less.le⟩
  | false =>
    obtain ⟨a, member, number⟩ := numbered.used.mp used
    exact ⟨a, member, number, (size_congr (numbered.same kept removed a member number)).ge⟩

/-- A call that alters something is counted, once an announce has gone out,
and moves the size of what the first one carried away from the present one. -/
theorem alter {turn : Section} (here : turn.isLocal = true) (alters : w.Alters turn) :
    (w.step turn).Numbered (log ++ w.sent turn) := by
  obtain ⟨silent, _, seq, distinct⟩ := Running.step_local numbered.distinct here
  have nothing : w.sent turn = [] := by simp only [sent, silent, announcesIn, List.filterMap_nil]
  have number : (w.step turn).announceSeq = w.announceSeq := seq
  have quiet : decide (w.Announces turn) = false := by
    rw [decide_eq_false_iff_not, ← exists_sent_iff, nothing]
    simp
  have still : turn.ticks = false := by cases turn <;> first | rfl | cases here
  obtain ⟨announced, added, removed⟩ := @step_notes w turn (by rw [still, Bool.false_and])
  rw [quiet, Bool.or_false] at announced
  simp only [alters, decide_true, Bool.and_true] at added removed
  have either : turn.adds = true ∨ turn.removes = true := by
    cases turn <;> first | exact Or.inl rfl | exact Or.inr rfl | cases here
  have counts (counted : (w.added || (w.announced && turn.adds)) = true ∨
      (w.removed || (w.announced && turn.removes)) = true) : w.announced = true := by
    by_contra unused
    rw [Bool.not_eq_true] at unused
    obtain ⟨before, also⟩ := numbered.since unused
    rw [before, also, unused] at counted
    simp at counted
  rw [nothing, List.append_nil]
  refine ⟨distinct, fun a member => ?_, ?_, fun unused => ?_, ?_, ?_, ?_⟩
  · rw [number]
    exact numbered.le a member
  · rw [announced, number]
    exact numbered.used
  · rw [announced] at unused
    obtain ⟨before, also⟩ := numbered.since unused
    rw [added, removed, before, also, unused]
    exact ⟨rfl, rfl⟩
  all_goals rw [added, removed, number, Bool.or_eq_false_iff]
  · rw [Bool.or_eq_false_iff]
    rintro ⟨_, unadded⟩ ⟨_, unremoved⟩ a member same
    rw [numbered.used.mpr ⟨a, member, same⟩, Bool.true_and] at unadded unremoved
    rcases either with adds | removes
    · rw [adds] at unadded
      cases unadded
    · rw [removes] at unremoved
      cases unremoved
  · rintro counted ⟨kept, unremoved⟩
    have used := counts (Or.inl counted)
    rw [used, Bool.true_and] at unremoved
    have adds := either.resolve_right (by simp [unremoved])
    obtain ⟨a, member, same, least⟩ := numbered.exists_le used kept
    have grows : (w.step turn).snapshot.size = w.snapshot.size + 1 := Running.step_adds adds alters
    exact ⟨a, member, same, by omega⟩
  · rintro ⟨kept, unadded⟩ counted
    have used := counts (Or.inr counted)
    rw [used, Bool.true_and] at unadded
    have removes := either.resolve_left (by simp [unadded])
    obtain ⟨a, member, same, most⟩ := numbered.exists_ge used kept
    have shrinks : (w.step turn).snapshot.size < w.snapshot.size := Running.step_removes removes alters
    exact ⟨a, member, same, by omega⟩

/-- Nothing else alters what an announce would say. -/
theorem idle {turn : Section} (seq : (w.toRunning.step turn).1.announceSeq = w.announceSeq)
    (still : (turn.ticks && decide (w.loop = .bumping)) = false) (kept : ¬ w.Alters turn) :
    (w.step turn).Numbered (log ++ w.sent turn) := by
  have number : (w.step turn).announceSeq = w.announceSeq := seq
  have snapshot : (w.step turn).snapshot = w.snapshot := Running.step_snapshot numbered.distinct kept
  obtain ⟨announced, added, removed⟩ := step_notes still
  simp only [kept, decide_false, Bool.and_false, Bool.false_and, Bool.or_false] at added removed
  refine ⟨Running.step_distinct numbered.distinct turn, fun a member => ?_, ?_, fun unused => ?_, ?_, ?_, ?_⟩
  · rw [number]
    rcases List.mem_append.mp member with old | new
    · exact numbered.le a old
    · rw [sent_eq new]
  · rw [announced, number, Bool.or_eq_true, decide_eq_true_eq, numbered.used, ← exists_sent_iff]
    constructor
    · rintro (⟨a, old, same⟩ | ⟨a, new⟩)
      · exact ⟨a, List.mem_append_left _ old, same⟩
      · exact ⟨a, List.mem_append_right _ new, congrArg Prod.snd (sent_eq new)⟩
    · rintro ⟨a, member, same⟩
      exact (List.mem_append.mp member).imp (fun old => ⟨a, old, same⟩) (fun new => ⟨a, new⟩)
  · rw [announced, Bool.or_eq_false_iff] at unused
    rw [added, removed]
    exact numbered.since unused.1
  all_goals rw [added, removed, number, snapshot]
  · intro before also a member same
    rcases List.mem_append.mp member with old | new
    · exact numbered.same before also a old same
    · rw [sent_eq new]
  · intro before also
    obtain ⟨a, old, facts⟩ := numbered.grown before also
    exact ⟨a, List.mem_append_left _ old, facts⟩
  · intro before also
    obtain ⟨a, old, facts⟩ := numbered.shrunk before also
    exact ⟨a, List.mem_append_left _ old, facts⟩

theorem step (turn : Section) (room : turn.ticks = true → w.announceSeq.toNat + 1 < 2 ^ 64) :
    (w.step turn).Numbered (log ++ w.sent turn) := by
  by_cases alters : w.Alters turn
  · have here : turn.isLocal = true := by
      cases turn <;> first | rfl | exact alters.elim
    exact numbered.alter here alters
  · cases turn with
    | announceTick now =>
      by_cases phase : w.loop = .bumping
      · exact numbered.bump phase (room rfl)
      · refine numbered.idle ?_ (by simp [phase]) alters
        simp only [Running.step, phase, if_false]
    | _ =>
      refine numbered.idle ?_ rfl alters
      rcases Running.step_announceSeq numbered.distinct _ with same | ⟨_, ticks, _⟩
      · exact same
      · cases ticks

end Numbered

/-- Later announces with no larger number repeat the earlier content. -/
def Consistent (log : List (ParticipantSnapshot × U64)) : Prop :=
  log.Pairwise (fun earlier later => later.2 ≤ earlier.2 → earlier.1.content = later.1.content)

instance (log : List (ParticipantSnapshot × U64)) : Decidable (Consistent log) :=
  inferInstanceAs (Decidable (List.Pairwise _ _))

/-- One more section keeps the announces consistent if it sends none after a
call that altered something, and where no calls may have undone each other
only then. -/
theorem Numbered.consistent_iff {w : Watched} {log : List (ParticipantSnapshot × U64)} (numbered : w.Numbered log)
    (consistent : Consistent log) {turn : Section} (oneWay : w.OneWay turn) :
    Consistent (log ++ w.sent turn) ↔ w.InTurn turn := by
  have alike : (w.sent turn).Pairwise (fun earlier later => later.2 ≤ earlier.2 → earlier.1.content = later.1.content) := by
    refine List.pairwise_iff_forall_sublist.mpr (fun {a b} both _ => ?_)
    rw [sent_eq (both.subset (by simp : a ∈ [a, b])), sent_eq (both.subset (by simp : b ∈ [a, b]))]
  unfold Consistent at consistent ⊢
  rw [List.pairwise_append]
  simp only [consistent, alike, true_and]
  constructor
  · intro across announces
    obtain ⟨b, new⟩ := exists_sent_iff.mpr announces
    have repeats (a : ParticipantSnapshot × U64) (member : a ∈ log) (number : a.2 = w.announceSeq) :
        a.1.size = w.snapshot.size := by
      have same := across a member b new
      rw [sent_eq new, number] at same
      exact size_congr (same (BitVec.le_refl _))
    cases added : w.added with
    | false =>
      refine ⟨rfl, (Bool.eq_false_iff.mpr fun removed => ?_)⟩
      obtain ⟨a, member, number, less⟩ := numbered.shrunk added removed
      exact absurd (repeats a member number) less.ne'
    | true =>
      have kept := (oneWay announces).resolve_left (by simp [added])
      obtain ⟨a, member, number, less⟩ := numbered.grown added kept
      exact absurd (repeats a member number) less.ne
  · intro inTurn a member b new late
    obtain ⟨added, removed⟩ := inTurn (exists_sent_iff.mp ⟨b, new⟩)
    rw [sent_eq new] at late ⊢
    have number : a.2 = w.announceSeq :=
      BitVec.eq_of_toNat_eq (Nat.le_antisymm (numbered.le a member) (BitVec.le_def.mp late))
    exact numbered.same added removed a member number

theorem exec_numbered (owner : GuidPrefix) (turns : List Section) (few : turns.countP Section.ticks < 2 ^ 64) :
    (Run.exec step (start owner) turns).announceSeq.toNat ≤ turns.countP Section.ticks ∧
      (Run.exec step (start owner) turns).Numbered (Run.log step sent (start owner) turns) := by
  induction turns using List.reverseRecOn with
  | nil =>
    refine ⟨Nat.le_refl 0, List.nodup_nil, by simp, by simp [start], fun _ => ⟨rfl, rfl⟩, by simp, fun grown => ?_,
      fun _ shrunk => ?_⟩
    · cases grown
    · cases shrunk
  | append_singleton turns turn ih =>
    rw [List.countP_append, List.countP_singleton] at few
    obtain ⟨count, numbered⟩ := ih (by omega)
    rw [Run.exec_snoc, Run.log_snoc, List.countP_append, List.countP_singleton]
    refine ⟨?_, numbered.step turn (fun ticks => ?_)⟩
    · rcases Running.step_announceSeq numbered.distinct turn with same | ⟨moved, ticks, _⟩
      · have seq : ((Run.exec step (start owner) turns).step turn).announceSeq = _ := same
        rw [seq]
        omega
      · have seq : ((Run.exec step (start owner) turns).step turn).announceSeq = _ := moved
        rw [seq, if_pos ticks, BitVec.toNat_add]
        exact Nat.le_trans (Nat.mod_le _ _) (Nat.add_le_add_right count 1)
    · rw [if_pos ticks] at few
      omega

theorem along_inTurn_iff (owner : GuidPrefix) (turns : List Section) (few : turns.countP Section.ticks < 2 ^ 64) :
    Run.Along step InTurn (start owner) turns ↔
      Consistent (Run.log step sent (start owner) turns) ∧ Run.Along step OneWay (start owner) turns := by
  induction turns using List.reverseRecOn with
  | nil => exact ⟨fun _ => ⟨List.Pairwise.nil, trivial⟩, fun _ => trivial⟩
  | append_singleton turns turn ih =>
    rw [List.countP_append] at few
    have before := ih (by omega)
    have numbered := (exec_numbered owner turns (by omega)).2
    rw [Run.log_snoc, Run.along_snoc, Run.along_snoc, before]
    constructor
    · rintro ⟨⟨consistent, along⟩, inTurn⟩
      have oneWay : OneWay _ turn := fun announces => Or.inl (inTurn announces).1
      exact ⟨(numbered.consistent_iff consistent oneWay).mpr inTurn, along, oneWay⟩
    · rintro ⟨consistent, along, oneWay⟩
      have earlier := (List.pairwise_append.mp consistent).1
      exact ⟨⟨earlier, along⟩, (numbered.consistent_iff earlier oneWay).mp consistent⟩

/-- In a run with fewer than 2^64 ticks no announce repeats a number with
another content, and so none that a receiver drops as stale is news, if none
goes out after a call that altered something since the first announce with the
current number. Only calls that may undo each other, a removal after an
addition or the other way round, make up for an announce out of turn. -/
theorem one_snapshot_per_seq (owner : GuidPrefix) (turns : List Section) (few : turns.countP Section.ticks < 2 ^ 64) :
    (Run.Along step InTurn (start owner) turns → Consistent (Run.log step sent (start owner) turns)) ∧
    (Run.Along step OneWay (start owner) turns → Consistent (Run.log step sent (start owner) turns) →
      Run.Along step InTurn (start owner) turns) := by
  have exactly := along_inTurn_iff owner turns few
  exact ⟨fun inTurn => (exactly.mp inTurn).1, fun oneWay consistent => exactly.mpr ⟨consistent, oneWay⟩⟩

/-- A writer created between a broadcast and a greeting reaches the peer
under the number of the announce without it, and a receiver that has seen
that one keeps it. -/
theorem announce_seq_reused :
    let sends := Run.log step sent (start ⟨List.replicate 12 0, rfl⟩)
      [.peerUp 1, .announceTick 0, .broadcastAnnounce, .createWriter 0 [] [] {} 0, .sendAnnounce 0]
    let receiver := sends.foldl (fun (p : Participant) a => (p.handleAnnounce 7 a.1 a.2 0).1)
      (Running.create ⟨List.replicate 12 1, rfl⟩).toParticipant
    ¬ Consistent sends ∧ sends.map (fun a => (a.2, a.1.endpoints.length)) = [(1, 0), (1, 1)] ∧
      receiver.remoteEndpoints = [] := by decide

theorem one_snapshot_when_greeted_first :
    Consistent (Run.log step sent (start ⟨List.replicate 12 0, rfl⟩)
      [.peerUp 1, .announceTick 0, .broadcastAnnounce, .sendAnnounce 0, .createWriter 0 [] [] {} 0, .sendHeartbeats,
        .periodExpires, .announceTick 0, .broadcastAnnounce]) :=
  (one_snapshot_per_seq _ _ (by decide)).1 (by decide)

end Watched

/-- The phases behind the broadcast of the current round. -/
def AnnouncePhase.late : AnnouncePhase → Bool
  | bumping | broadcasting => false
  | beating | parked | finished => true

namespace Running

/-- The loop gets behind its broadcast by the broadcast only. -/
theorem step_late {s : Running} {turn : Section} (late : (s.step turn).1.loop.late = true) :
    s.loop.late = true ∨ (turn.broadcasts = true ∧ s.loop = .broadcasting) := by
  cases turn with
  | announceNow =>
    simp only [step, announceNow] at late
    split at late
    · exact Or.inl late
    · split at late
      · rename_i parked
        exact Or.inl (by rw [parked.1]; rfl)
      · exact Or.inl late
  | announceTick now =>
    simp only [step] at late
    split at late
    · cases late
    · exact Or.inl late
  | broadcastAnnounce =>
    simp only [step] at late
    split at late
    · rename_i phase
      exact Or.inr ⟨rfl, phase⟩
    · exact Or.inl late
  | sendHeartbeats =>
    simp only [step] at late
    split at late
    · rename_i phase
      exact Or.inl (by rw [phase]; rfl)
    · exact Or.inl late
  | periodExpires =>
    simp only [step] at late
    split at late
    · rename_i parked
      exact Or.inl (by rw [parked]; rfl)
    · exact Or.inl late
  | createWriter addr topic type qos birthUs =>
    simp only [step, changed] at late
    split at late
    · exact Or.inl late
    · split at late <;> exact Or.inl late
  | createReader addr topic type qos ignoreLocal birthUs =>
    simp only [step, changed] at late
    split at late
    · exact Or.inl late
    · split at late <;> exact Or.inl late
  | handOver index addr clock =>
    simp only [step] at late
    split at late
    · exact Or.inl late
    · split at late <;> exact Or.inl late
  | bytes peer data clocks =>
    simp only [step] at late
    split at late <;> exact Or.inl late
  | replayLocalHistory | write | assertLiveliness | sendAnnounce | deliverSample | replayHistory =>
    simp only [step] at late
    split at late <;> exact Or.inl late
  | destroyWriter | destroyReader | addNode | removeNode | take | available | stop | peerUp | peerDown =>
    exact Or.inl late

end Running

namespace Watched

/-- A local call that changes the snapshot falls between the wake of the
announce thread and its snapshot. -/
def OnTime (w : Watched) (turn : Section) : Prop := w.Alters turn → w.loop.late = false

instance (w : Watched) (turn : Section) : Decidable (w.OnTime turn) := inferInstanceAs (Decidable (_ → _))

/-- With the announce thread parked, every notification delivered and no
period expired since the last local call, the last broadcast is current. -/
def Announced (w : Watched) : Prop :=
  w.loop = .parked → w.notifications = 0 → w.expired = false → w.broadcast = some w.snapshot

instance (w : Watched) : Decidable w.Announced := inferInstanceAs (Decidable (_ → _ → _ → _))

/-- Behind its broadcast the thread has sent what is current. -/
structure UpToDate (w : Watched) : Prop where
  distinct : w.Distinct
  current : w.loop.late = true → w.broadcast = some w.snapshot

theorem UpToDate.step {w : Watched} (upToDate : w.UpToDate) {turn : Section} (onTime : w.OnTime turn) :
    (w.step turn).UpToDate := by
  refine ⟨Running.step_distinct upToDate.distinct turn, fun late => ?_⟩
  have idle : ¬ w.Alters turn := by
    intro alters
    have early := onTime alters
    rcases Running.step_late late with before | ⟨broadcasts, _⟩
    · rw [before] at early
      cases early
    · cases turn with
      | broadcastAnnounce => exact alters
      | _ => cases broadcasts
  have same : (w.step turn).snapshot = w.snapshot := Running.step_snapshot upToDate.distinct idle
  rw [same]
  by_cases now : turn.broadcasts = true ∧ w.loop = .broadcasting
  · simp only [Watched.step, now, and_self, if_true]
  · have before := (Running.step_late late).resolve_right now
    simp only [Watched.step, now, if_false]
    exact upToDate.current before

/-- If every change falls between the wake of the announce thread and its
snapshot, no change waits for the timer. -/
theorem announced_without_timer {owner : GuidPrefix} {turns first : List Section}
    (onTime : Run.Along step OnTime (start owner) turns) (reached : first <+: turns) :
    (Run.exec step (start owner) first).Announced := by
  have upToDate : UpToDate (Run.exec step (start owner) first) :=
    (onTime.earlier reached).invariant (fun _ _ old admitted => UpToDate.step old admitted)
      ⟨List.nodup_nil, fun late => by cases late⟩
  intro parked _ _
  exact upToDate.current (by rw [parked]; rfl)

/-- A writer created while the announce thread waits: its notification finds
the predicate of the wait false, and nothing is sent. -/
theorem change_waits_for_timer :
    ¬ (Run.exec step (start ⟨List.replicate 12 0, rfl⟩)
      [.announceTick 0, .broadcastAnnounce, .sendHeartbeats, .createWriter 0 [] [] {} 0, .announceNow]).Announced := by
  decide

theorem announced_when_on_time :
    (Run.exec step (start ⟨List.replicate 12 0, rfl⟩)
      [.announceTick 0, .createWriter 0 [] [] {} 0, .announceNow, .broadcastAnnounce, .sendHeartbeats]).Announced :=
  @announced_without_timer ⟨List.replicate 12 0, rfl⟩
    [.announceTick 0, .createWriter 0 [] [] {} 0, .announceNow, .broadcastAnnounce, .sendHeartbeats] _ (by decide)
    (List.prefix_refl _)

end Watched

end Mdds
