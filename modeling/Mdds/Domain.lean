import Mdds.Authenticity
import Mdds.Convergence

namespace Mdds

/-- A section, and what the transport takes at that moment for each peer. -/
structure Turn where
  turn : Section
  limits : PeerId → Nat

/-- What a section gets from the network. -/
def Section.received : Section → Option Bytes
  | bytes _ data _ => some data
  | _ => none

/-- A section and the frames it puts on the wire. -/
def Running.act (s : Running) (t : Turn) : Running × List Bytes :=
  (s.next t.turn, (s.step t.turn).2.flatMap (fun send => send.2.encode (t.limits send.1)))

theorem Running.tells_wrote {s : Running} {turn : Section} {writer : Guid} {sample : CachedSample}
    (said : .wrote writer sample ∈ s.tells turn) : ∃ addr pubTimeUs data now w next,
      turn = .write addr pubTimeUs data now ∧ s.writers.lookup addr = some w ∧
        w.publish pubTimeUs data now = some (next, sample) ∧ w.guid = writer := by
  cases turn with
  | write addr pubTimeUs data now =>
    obtain ⟨⟨q, ticket⟩, accepted, same⟩ := List.mem_map.mp said
    obtain ⟨rfl, rfl⟩ := Fact.wrote.inj same
    obtain ⟨w, next, found, published, _, guid, _⟩ := Participant.writeLocked_cases (Option.mem_toList.mp accepted)
    exact ⟨addr, pubTimeUs, data, now, w, next, rfl, found, published, guid.symm⟩
  | createWriter | createReader | broadcastAnnounce | sendAnnounce =>
    simp only [tells] at said
    split at said
    · cases List.mem_singleton.mp said
    · exact absurd said List.not_mem_nil
  | _ => exact absurd said List.not_mem_nil

theorem Running.tells_announced {s : Running} {turn : Section} {snap : ParticipantSnapshot} {announceSeq : U64}
    (said : .announced snap announceSeq ∈ s.tells turn) : snap = s.snapshot ∧ announceSeq = s.announceSeq := by
  cases turn with
  | write addr pubTimeUs data now =>
    obtain ⟨_, _, same⟩ := List.mem_map.mp said
    cases same
  | createWriter | createReader =>
    simp only [tells] at said
    split at said
    · cases List.mem_singleton.mp said
    · exact absurd said List.not_mem_nil
  | broadcastAnnounce | sendAnnounce =>
    simp only [tells] at said
    split at said
    · exact Fact.announced.inj (List.mem_singleton.mp said)
    · exact absurd said List.not_mem_nil
  | _ => exact absurd said List.not_mem_nil

/-- Any number of participants, and every frame they ever sent. -/
abbrev Domain (ι : Type) := Soup ι Running Bytes

namespace Domain
variable {ι : Type} [DecidableEq ι]

def start (owners : ι → GuidPrefix) : Domain ι := ⟨fun i => Running.create (owners i), []⟩

/-- The network loses, delays, reorders, repeats and misdirects frames as it
likes and names whatever peer it likes as their origin, but of bytes that were
never sent it brings only such as no decoder of samples or announces accepts. -/
structure Admits (d : Domain ι) (event : ι × Turn) : Prop where
  within : (d.node event.1).Within event.2.turn
  limits : ∀ peer, event.2.limits peer < 2 ^ 32
  sent : ∀ data ∈ event.2.turn.received, data ∈ d.wire ∨ Junk data

abbrev run (owners : ι → GuidPrefix) (events : List (ι × Turn)) : Domain ι :=
  Run.exec (Soup.step Running.act) (start owners) events

abbrev Admitted (owners : ι → GuidPrefix) (events : List (ι × Turn)) : Prop :=
  Run.Along (Soup.step Running.act) Admits (start owners) events

/-- What the participants have said in a run. -/
abbrev told (owners : ι → GuidPrefix) (events : List (ι × Turn)) : ι → List Fact :=
  Soup.told Running.act (fun s t => s.tells t.turn) (start owners) events

structure Sound (owners : ι → GuidPrefix) (i : ι) (known : ι → List Fact) (s : Running) : Prop where
  owner : s.owner = owners i
  ledger : s.Ledger (known i)
  honest : Honest known s

variable {owners : ι → GuidPrefix}

omit [DecidableEq ι] in
theorem coherent (distinct : Function.Injective owners) {d : Domain ι} {known : ι → List Fact}
    (sound : ∀ i, Sound owners i known (d.node i)) : Coherent known := by
  have host {i j : ι} {ep other : EndpointRecord} (mine : .created ep ∈ known i) (yours : .created other ∈ known j)
      (same : ep.guid = other.guid) : i = j := by
    obtain ⟨_, _, first⟩ := (sound i).ledger.numbered ep mine
    obtain ⟨_, _, second⟩ := (sound j).ledger.numbered other yours
    rw [(sound i).owner] at first
    rw [(sound j).owner] at second
    exact distinct (makeGuid_owner (first.symm.trans (same.trans second)))
  refine ⟨?_, ?_, ?_, ?_⟩
  · rintro writer sample other ⟨i, mine⟩ ⟨j, yours⟩ same
    obtain ⟨⟨ep, created, guid⟩, _⟩ := (sound i).ledger.wrote _ _ mine
    obtain ⟨⟨also, said, number⟩, _⟩ := (sound j).ledger.wrote _ _ yours
    obtain rfl := host created said (guid.trans number.symm)
    exact (sound i).ledger.once _ _ _ mine yours same
  · rintro writer sample ⟨i, mine⟩
    exact ((sound i).ledger.wrote _ _ mine).2
  · rintro ep other ⟨i, mine⟩ ⟨j, yours⟩ same
    obtain rfl := host mine yours same
    exact (sound i).ledger.single _ _ mine yours same
  · rintro snap announceSeq ⟨i, mine⟩ ep listed
    exact ⟨i, ((sound i).ledger.announced _ _ mine).2.2 ep listed⟩

/-- Participants among sound ones on a genuine network stay sound and send
genuine frames. -/
theorem supports (distinct : Function.Injective owners) :
    Soup.Supports Running.act (fun s t => s.tells t.turn) Admits (Sound owners) Genuine where
  others i j known facts s differ sound := by
    refine ⟨sound.owner, ?_, sound.honest.mono (fun k fact member => Soup.mem_tell.mpr (Or.inl member))⟩
    rw [Soup.tell_other _ _ differ]
    exact sound.ledger
  lasts known j facts data genuine := genuine.mono (fun k fact member => Soup.mem_tell.mpr (Or.inl member))
  kept d known event sound genuine admitted := by
    obtain ⟨i, t⟩ := event
    have whole := coherent distinct sound
    have more (k : ι) (fact : Fact) (member : fact ∈ known k) : fact ∈ Soup.tell known i ((d.node i).tells t.turn) k :=
      Soup.mem_tell.mpr (Or.inl member)
    have own : ∀ fact ∈ known i, Stated known fact := fun fact member => ⟨i, member⟩
    have received (peer : PeerId) (data : Bytes) (clocks : Clocks) (turn : t.turn = .bytes peer data clocks) :
        Genuine known data :=
      (admitted.sent data (by rw [turn]; rfl)).elim (genuine data) Junk.genuine
    have honest : Honest known ((d.node i).next t.turn) :=
      ⟨(sound i).honest.step_remote received, ((sound i).honest.step_gathered whole received).1,
        ((sound i).honest.step_gathered whole received).2,
        (sound i).honest.step_unread whole (sound i).ledger own admitted.within received⟩
    refine ⟨⟨?_, ?_, honest.mono more⟩, fun data member => ?_⟩
    · exact ((sound i).ledger.owner admitted.within).trans (sound i).owner
    · rw [Soup.tell_self]
      exact (sound i).ledger.step admitted.within
    · obtain ⟨⟨peer, frame⟩, sent, encoded⟩ := List.mem_flatMap.mp member
      refine ((sound i).ledger.sends admitted.within (fun fact said => ⟨i, ?_⟩) sent).genuine (admitted.limits peer) encoded
      rw [Soup.tell_self]
      exact said

theorem run_sound (distinct : Function.Injective owners) {events : List (ι × Turn)} (admitted : Admitted owners events) :
    (∀ i, Sound owners i (told owners events) ((run owners events).node i)) ∧
      ∀ data ∈ (run owners events).wire, Genuine (told owners events) data :=
  (supports distinct).run admitted (fun i => ⟨rfl, .initial (owners i), .create (owners i)⟩) rfl

theorem Admitted.earlier {first rest : List (ι × Turn)} (admitted : Admitted owners (first ++ rest)) :
    Admitted owners first :=
  ((Run.along_append _).mp admitted).1

theorem admitted_of_wire {events : List (ι × Turn)} (limits : ∀ event ∈ events, ∀ peer, event.2.limits peer < 2 ^ 32)
    (along : Run.Along (Soup.step Running.act) (fun d event => (d.node event.1).Within event.2.turn ∧
      ∀ data ∈ event.2.turn.received, data ∈ d.wire) (start owners) events) : Admitted owners events := by
  rw [Run.along_iff_forall] at along
  refine Run.along_iff_forall.mpr (fun first event inside => ?_)
  obtain ⟨within, sent⟩ := along first event inside
  exact ⟨within, limits event (inside.subset (List.mem_append_right _ List.mem_cons_self)),
    fun data member => Or.inl (sent data member)⟩

section Example

/-- A writer's participant and a reader's. -/
def demoOwners (reads : Bool) : GuidPrefix where
  bytes := List.replicate 12 (if reads then 1 else 2)
  size := List.length_replicate ..

theorem demoOwners_injective : Function.Injective demoOwners := by
  intro a b same
  cases a <;> cases b
  · rfl
  · exact absurd same (by decide)
  · exact absurd same (by decide)
  · rfl

def demoTurns (sections : List (Bool × Section)) : List (Bool × Turn) :=
  sections.map (fun event => (event.1, ⟨event.2, fun _ => 100⟩))

def demoClocks : Clocks := ⟨5, 5, fun _ => (5, 5)⟩

def demoSnapshot (reads : Bool) : ParticipantSnapshot :=
  let kind : EntityKind := if reads then .reader else .writer
  ⟨makeGuid (demoOwners reads) .participant 0, [],
    [⟨makeGuid (demoOwners reads) kind 1, kind, [0x74], [0x75], {}, 0⟩]⟩

def demoAnnounce (reads : Bool) : Bytes := encodeAnnounce (demoSnapshot reads) 1

/-- Too long for one frame. -/
def demoData : Bytes := List.replicate 60 7

/-- They announce themselves to each other, and a sample arrives in pieces,
the last piece first and twice. -/
def demoEvents : List (Bool × Section) :=
  let guid := makeGuid (demoOwners false) .writer 1
  let piece (offset length : Nat) : Section := .bytes 2 (Fragmenter.frameOf guid 1 2 demoData 1 (offset, length)) demoClocks
  [(false, .createWriter 5 [0x74] [0x75] {} 0), (true, .createReader 6 [0x74] [0x75] {} false 0), (false, .peerUp 1),
    (true, .peerUp 2), (false, .announceTick 0), (true, .announceTick 0), (false, .broadcastAnnounce),
    (true, .broadcastAnnounce), (true, .bytes 2 (demoAnnounce false) demoClocks),
    (false, .bytes 1 (demoAnnounce true) demoClocks), (false, .write 5 2000 demoData 2), (true, piece 44 16),
    (true, piece 44 16), (true, piece 0 44), (true, .deliverSample 0 demoClocks)]

theorem demo_admitted : Admitted demoOwners (demoTurns demoEvents) := by
  refine admitted_of_wire (fun event member peer => ?_) (by decide +kernel)
  obtain ⟨_, _, rfl⟩ := List.mem_map.mp member
  exact Nat.lt_of_lt_of_le (Nat.lt_add_one 100) (by decide)

end Example

/-- A sample that a reader holds was written, byte for byte, under this seq
and at this time, by a writer of its topic and type that it accepts. -/
theorem samples_authentic (distinct : Function.Injective owners) {events : List (ι × Turn)}
    (admitted : Admitted owners events) {i : ι} {addr : Addr} {r : ReaderImpl}
    (found : ((run owners events).node i).readers.lookup addr = some r) {content : Bytes × MessageInfo}
    (unread : content ∈ r.unread) :
    ∃ first j target pubTimeUs data now limits rest w next sample,
      events = first ++ (j, ⟨.write target pubTimeUs data now, limits⟩) :: rest ∧
        ((run owners first).node j).writers.lookup target = some w ∧
        w.publish pubTimeUs data now = some (next, sample) ∧
        content = (data, ⟨w.guid, w.seq + 1, pubTimeUs / 1000⟩) ∧
        endpointsMatch r.topic r.type r.qos w.record = true := by
  obtain ⟨sound, _⟩ := run_sound distinct admitted
  obtain ⟨⟨sample, ⟨j, said⟩, seq, pubTimeMs, data⟩, ep, created, guid, matching⟩ :=
    (sound i).honest.unread _ (KeyedList.mem_of_lookup found) content unread
  obtain ⟨first, ⟨turn, limits⟩, rest, rfl, tells⟩ := Soup.exists_of_told said
  obtain ⟨target, pubTimeUs, payload, now, w, next, rfl, hosted, published, writer⟩ := Running.tells_wrote tells
  obtain ⟨made, _⟩ := WriterImpl.publish_cases published
  refine ⟨first, j, target, pubTimeUs, payload, now, limits, rest, w, next, sample, rfl, hosted, published, ?_, ?_⟩
  · rw [made] at seq pubTimeMs data
    obtain ⟨payload', ⟨g, n, ms⟩⟩ := content
    dsimp only at seq pubTimeMs data writer
    rw [← seq, ← pubTimeMs, ← data, writer]
  · have known := (run_sound distinct admitted.earlier).1 j
    have also : Stated (told owners (first ++ (j, ⟨.write target pubTimeUs payload now, limits⟩) :: rest)) (.created w.record) :=
      ⟨j, (Soup.told_append _ _ _ _).subset
        (known.ledger.hosted _ (Participant.writer_record_mem (KeyedList.mem_of_lookup hosted)))⟩
    have same := (coherent distinct sound).single _ _ also created (writer.trans guid.symm)
    rw [same]
    exact matching

theorem samples_authentic_pieces : ∃ r, ((run demoOwners (demoTurns demoEvents)).node true).readers.lookup 6 = some r ∧
    r.unread = [(demoData, ⟨makeGuid (demoOwners false) .writer 1, 1, 2⟩)] ∧
    ∃ first j target pubTimeUs data now limits rest, demoTurns demoEvents =
      first ++ (j, ⟨.write target pubTimeUs data now, limits⟩) :: rest ∧ data = demoData := by
  have read : (((run demoOwners (demoTurns demoEvents)).node true).readers.lookup 6).map ReaderImpl.unread =
      some [(demoData, ⟨makeGuid (demoOwners false) .writer 1, 1, 2⟩)] := by decide +kernel
  obtain ⟨r, found, unread⟩ := Option.map_eq_some_iff.mp read
  obtain ⟨first, j, target, pubTimeUs, data, now, limits, rest, _, _, _, split, _, _, same, _⟩ :=
    samples_authentic demoOwners_injective demo_admitted found (unread ▸ List.mem_cons_self)
  exact ⟨r, found, unread, first, j, target, pubTimeUs, data, now, limits, rest, split, (Prod.mk.inj same).1.symm⟩

/-- Whatever a participant believes of another one was the case once: the
entry is a snapshot of its participant, taken under this announce_seq. -/
theorem graph_authentic (distinct : Function.Injective owners) {events : List (ι × Turn)}
    (admitted : Admitted owners events) {i : ι} {entry : Guid × RemoteParticipant}
    (member : entry ∈ ((run owners events).node i).remote) :
    ∃ first j t rest, events = first ++ (j, t) :: rest ∧ entry.1 = makeGuid (owners j) .participant 0 ∧
      entry.2.snap = ((run owners first).node j).snapshot ∧
      entry.2.announceSeq = ((run owners first).node j).announceSeq ∧
      entry.2.announceSeq ≤ ((run owners events).node j).announceSeq := by
  obtain ⟨sound, _⟩ := run_sound distinct admitted
  obtain ⟨key, j, said⟩ := (sound i).honest.remote entry member
  obtain ⟨older, guid, _⟩ := (sound j).ledger.announced _ _ said
  obtain ⟨first, t, rest, split, tells⟩ := Soup.exists_of_told said
  obtain ⟨snap, announceSeq⟩ := Running.tells_announced tells
  refine ⟨first, j, t, rest, split, ?_, snap, announceSeq, older⟩
  rw [← key, guid, (sound j).ledger.guid, (sound j).owner]

theorem graph_authentic_writer : ∃ entry ∈ ((run demoOwners (demoTurns demoEvents)).node true).remote,
    entry.2.snap = demoSnapshot false ∧ ∃ first j t rest, demoTurns demoEvents = first ++ (j, t) :: rest ∧
      entry.2.snap = ((run demoOwners first).node j).snapshot := by
  have known : ((run demoOwners (demoTurns demoEvents)).node true).remote.map (fun entry => entry.2.snap) =
      [demoSnapshot false] := by decide +kernel
  have listed : demoSnapshot false ∈ ((run demoOwners (demoTurns demoEvents)).node true).remote.map
      (fun entry => entry.2.snap) := known ▸ List.mem_cons_self
  obtain ⟨entry, member, same⟩ := List.mem_map.mp listed
  obtain ⟨first, j, t, rest, split, _, snapshot, _⟩ := graph_authentic demoOwners_injective demo_admitted member
  exact ⟨entry, member, same, first, j, t, rest, split, snapshot⟩

/-- One event changes one participant. -/
theorem node_snoc (events : List (ι × Turn)) (event : ι × Turn) (j : ι) :
    (run owners (events ++ [event])).node j =
      if event.1 = j then ((run owners events).node j).next event.2.turn else (run owners events).node j := by
  rw [run, Run.exec_snoc, Soup.step]
  by_cases here : event.1 = j
  · subst here
    simp [Running.act]
  · simp [here, Ne.symm here]

/-- Numbers of announces only go up. -/
theorem announceSeq_mono (distinct : Function.Injective owners) {first rest : List (ι × Turn)}
    (admitted : Admitted owners (first ++ rest)) (j : ι) :
    ((run owners first).node j).announceSeq.toNat ≤ ((run owners (first ++ rest)).node j).announceSeq.toNat := by
  induction rest using List.reverseRecOn with
  | nil => rw [List.append_nil]
  | append_singleton rest event ih =>
    rw [← List.append_assoc] at admitted ⊢
    refine (ih admitted.earlier).trans ?_
    rw [node_snoc]
    split
    · rename_i here
      subst here
      have within := ((Run.along_snoc _).mp admitted).2.within
      exact Running.next_announceSeq ((run_sound distinct admitted.earlier).1 event.1).ledger.addrs within
    · exact le_rfl

/-- A participant that neither ticks nor alters its endpoints or nodes keeps
announcing the same. -/
theorem announces_same (distinct : Function.Injective owners) {first rest : List (ι × Turn)}
    (admitted : Admitted owners (first ++ rest)) {j : ι}
    (quiet : ∀ event ∈ rest, event.1 = j → event.2.turn.isLocal = false ∧ event.2.turn.ticks = false) :
    ((run owners (first ++ rest)).node j).snapshot = ((run owners first).node j).snapshot ∧
      ((run owners (first ++ rest)).node j).announceSeq = ((run owners first).node j).announceSeq := by
  induction rest using List.reverseRecOn with
  | nil => simp
  | append_singleton rest event ih =>
    rw [← List.append_assoc] at admitted ⊢
    obtain ⟨snapshot, announceSeq⟩ := ih admitted.earlier (fun other member => quiet other (List.mem_append_left _ member))
    rw [node_snoc]
    split
    · rename_i here
      obtain ⟨remote, still⟩ := quiet event (List.mem_append_right _ List.mem_cons_self) here
      have ledger := ((run_sound distinct admitted.earlier).1 j).ledger
      have same := Running.step_sameTables ledger.addrs remote still
      exact ⟨same.snapshot.trans snapshot, same.seq.trans announceSeq⟩
    · exact ⟨snapshot, announceSeq⟩

/-- The tick that is under way takes the next number. -/
theorem node_tick (distinct : Function.Injective owners) {before : List (ι × Turn)} {j : ι} {now : U64}
    {limits : PeerId → Nat} (admitted : Admitted owners (before ++ [(j, ⟨.announceTick now, limits⟩)]))
    (awake : ((run owners before).node j).loop = .bumping) :
    ((run owners before).node j).announceSeq.toNat <
      ((run owners (before ++ [(j, ⟨.announceTick now, limits⟩)])).node j).announceSeq.toNat := by
  have within := ((Run.along_snoc _).mp admitted).2.within
  have ledger := ((run_sound distinct admitted.earlier).1 j).ledger
  rw [node_snoc, if_pos rfl, Running.next]
  obtain ⟨_, _, _, ⟨_, _, more⟩ | ⟨asleep, _⟩⟩ := Running.step_tick ledger.addrs now
  · rw [more, BitVec.toNat_add_of_lt within]
    exact Nat.lt_succ_self _
  · exact absurd awake asleep

section Settled
variable (distinct : Function.Injective owners) {events before after : List (ι × Turn)} {j : ι} {now : U64}
  {limits : PeerId → Nat} (admitted : Admitted owners events)
  (ticked : events = before ++ [(j, ⟨.announceTick now, limits⟩)] ++ after)
  (awake : ((run owners before).node j).loop = .bumping)
  (quiet : ∀ event ∈ after, event.1 = j → event.2.turn.isLocal = false ∧ event.2.turn.ticks = false)
include distinct admitted ticked awake quiet

/-- From a tick on, until its participant ticks or alters something again, the
new number stands for one snapshot in everything that was ever announced. -/
theorem announced_current {snap : ParticipantSnapshot} {announceSeq : U64}
    (said : .announced snap announceSeq ∈ told owners events j)
    (current : announceSeq = ((run owners events).node j).announceSeq) : snap = ((run owners events).node j).snapshot := by
  subst ticked
  obtain ⟨first, t, rest, split, tells⟩ := Soup.exists_of_told said
  obtain ⟨rfl, number⟩ := Running.tells_announced tells
  obtain ⟨snapshot, seq⟩ := announces_same distinct admitted quiet
  have newer := node_tick distinct admitted.earlier awake
  rw [seq] at current
  rcases List.append_eq_append_iff.mp split with ⟨since, rfl, later⟩ | ⟨missing, early, _⟩
  · have before := @Admitted.earlier _ _ _ (before ++ [(j, ⟨.announceTick now, limits⟩)] ++ since) ((j, t) :: rest)
      (split ▸ admitted)
    have same := announces_same distinct before (fun event member => quiet event (later ▸ List.mem_append_left _ member))
    rw [snapshot]
    exact same.1
  · rw [snapshot]
    cases missing using List.reverseRecOn with
    | nil => rw [early, List.append_nil]
    | append_singleton missing event =>
      -- What was said before the tick was said under a smaller number.
      rw [← List.append_assoc] at early
      obtain ⟨rfl, _⟩ := List.append_inj' early rfl
      have older := announceSeq_mono distinct admitted.earlier.earlier j
      rw [← current, number] at newer
      exact absurd older (Nat.not_le.mpr newer)

/-- One announce settles what a participant is believed to be: from a tick on,
until it ticks or alters something again, whoever holds an entry under the new
number holds its present snapshot, and whoever gets a frame with this number
holds such an entry, whatever it held or missed before. -/
theorem announce_settles (i : ι) (peer : PeerId) (data : Bytes) (clocks : Clocks) :
    let d := run owners events
    let self := makeGuid (owners j) .participant 0
    (∀ entry, (d.node i).remote.lookup self = some entry → entry.announceSeq = (d.node j).announceSeq →
      entry.snap = (d.node j).snapshot) ∧
    ∀ snap, data ∈ d.wire → decodeAnnounce data = some (snap, (d.node j).announceSeq) →
      snap.participantGuid = self → ∃ entry,
        ((d.node i).next (.bytes peer data clocks)).remote.lookup self = some entry ∧
          entry.announceSeq = (d.node j).announceSeq ∧ entry.snap = (d.node j).snapshot := by
  intro d self
  obtain ⟨sound, genuine⟩ := run_sound distinct admitted
  have current {snap : ParticipantSnapshot} (told : Stated (told owners events) (.announced snap (d.node j).announceSeq))
      (origin : snap.participantGuid = self) : snap = (d.node j).snapshot := by
    obtain ⟨k, said⟩ := told
    obtain ⟨_, guid, _⟩ := (sound k).ledger.announced _ _ said
    rw [origin, (sound k).ledger.guid, (sound k).owner] at guid
    obtain rfl := distinct (makeGuid_owner guid)
    exact announced_current distinct admitted ticked awake quiet said rfl
  have held (entry : RemoteParticipant) (found : (d.node i).remote.lookup self = some entry) :
      entry.announceSeq ≤ (d.node j).announceSeq ∧
        (entry.announceSeq = (d.node j).announceSeq → entry.snap = (d.node j).snapshot) := by
    obtain ⟨key, k, said⟩ := (sound i).honest.remote _ (KeyedList.mem_of_lookup found)
    obtain ⟨older, guid, _⟩ := (sound k).ledger.announced _ _ said
    rw [key, (sound k).ledger.guid, (sound k).owner] at guid
    obtain rfl := distinct (makeGuid_owner guid)
    exact ⟨older, fun same => current ⟨j, same ▸ said⟩ key⟩
  refine ⟨fun entry found => (held entry found).2, fun snap onWire decoded origin => ?_⟩
  have exact' := current ((genuine data onWire).announce _ _ decoded) origin
  have stored : ((d.node i).next (.bytes peer data clocks)).remote =
      ((d.node i).handleAnnounce peer snap (d.node j).announceSeq clocks.steadyMs).1.remote := by
    simp only [Running.next, Running.step, decoded]
  rw [stored, Participant.handleAnnounce_lookup, if_pos origin]
  cases found : (d.node i).remote.lookup self with
  | none => exact ⟨_, rfl, rfl, exact'⟩
  | some old =>
    obtain ⟨older, same⟩ := held old found
    rw [Latest.offer]
    split
    · rename_i stale
      have equal : old.announceSeq = (d.node j).announceSeq := BitVec.le_antisymm older stale
      exact ⟨_, rfl, equal, same equal⟩
    · exact ⟨_, rfl, rfl, exact'⟩

end Settled

/-- The writer's participant in the run above, which ticks once. -/
theorem announce_settles_writer :
    let d := run demoOwners (demoTurns demoEvents)
    ∃ entry, ((d.node true).next (.bytes 3 (demoAnnounce false) demoClocks)).remote.lookup
        (makeGuid (demoOwners false) .participant 0) = some entry ∧
      entry.announceSeq = 1 ∧ entry.snap = demoSnapshot false := by
  intro d
  have ticked : demoTurns demoEvents = demoTurns (demoEvents.take 4) ++ [(false, ⟨.announceTick 0, fun _ => 100⟩)] ++
      demoTurns (demoEvents.drop 5) := rfl
  have settles := announce_settles demoOwners_injective demo_admitted ticked (by decide +kernel) (by decide +kernel)
    true 3 (demoAnnounce false) demoClocks
  have current : (d.node false).announceSeq = 1 := by decide +kernel
  have snapshot : (d.node false).snapshot = demoSnapshot false := by decide +kernel
  have decoded : decodeAnnounce (demoAnnounce false) = some (demoSnapshot false, (d.node false).announceSeq) := by
    rw [current]
    decide +kernel
  obtain ⟨entry, held, number, exact'⟩ :=
    settles.2 (demoSnapshot false) (by decide +kernel) decoded rfl
  exact ⟨entry, held, number.trans current, exact'.trans snapshot⟩

end Domain

end Mdds
