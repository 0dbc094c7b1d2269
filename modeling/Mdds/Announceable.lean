import Mathlib.Algebra.Order.BigOperators.Group.List
import Mathlib.Algebra.Order.Group.Nat
import Mdds.AnnounceExact
import Mdds.Endpoints
import Mdds.Lib.Run

namespace Mdds

/-- What fits the wire: names and counts of sixteen bits, a body of 32. -/
structure ParticipantSnapshot.Encodable (snap : ParticipantSnapshot) : Prop extends snap.Short where
  body : snap.wireSize < 2 ^ 32

theorem ParticipantSnapshot.wireSize_congr {snap other : ParticipantSnapshot} (nodes : snap.nodes = other.nodes)
    (endpoints : snap.endpoints = other.endpoints) : snap.wireSize = other.wireSize := by
  rw [wireSize, wireSize, nodes, endpoints]

theorem ParticipantSnapshot.Short.congr {snap other : ParticipantSnapshot} (short : snap.Short)
    (nodes : snap.nodes = other.nodes) (endpoints : snap.endpoints = other.endpoints) : other.Short :=
  ⟨nodes ▸ short.nodes, endpoints ▸ short.endpoints, nodes ▸ short.nodeNames, endpoints ▸ short.endpointNames⟩

/-- The encoder is faithful exactly on what fits: a decoded value fits, and
the decoder never reads more than the body declares. -/
theorem decodeAnnounce_encode_iff (snap : ParticipantSnapshot) (announceSeq : U64) :
    (∃ received, decodeAnnounce (encodeAnnounce snap announceSeq) = some (received, announceSeq) ∧
      received.nodes = snap.nodes ∧ received.endpoints = snap.endpoints) ↔ snap.Encodable := by
  constructor
  · rintro ⟨received, accepted, nodes, endpoints⟩
    obtain ⟨hdr, rest, header, _, short, whole⟩ := decodeAnnounce_consumed accepted
    have sent := decodeHeader_frame .announce 0 (announceBody snap announceSeq) []
    rw [List.append_nil, ← encodeAnnounce_body] at sent
    obtain rfl := Option.some.inj (sent.symm.trans header)
    have size := congrArg List.length whole
    rw [declaredBody, List.length_append, announceBody_length, List.length_take,
      ParticipantSnapshot.wireSize_congr nodes endpoints, announceBody_length] at size
    have declared : (BitVec.ofNat 32 snap.wireSize).toNat < 2 ^ 32 := BitVec.isLt _
    exact ⟨short.congr nodes endpoints, by dsimp only at size; omega⟩
  · intro fits
    exact ⟨snap, decodeAnnounce_encode announceSeq fits.toShort fits.body, rfl, rfl⟩

/-- The calls that change what a participant announces. -/
inductive ApiCall
  | createWriter (addr : Addr) (topic type : Bytes) (qos : QosProfile) (birthUs : U64)
  | createReader (addr : Addr) (topic type : Bytes) (qos : QosProfile) (ignoreLocal : Bool) (birthUs : U64)
  | destroyWriter (addr : Addr)
  | destroyReader (addr : Addr)
  | addNode (ns name : Bytes)
  | removeNode (ns name : Bytes)

namespace Participant

/-- The state after a call; a refused creation changes nothing, and a new
endpoint object is at an address not in use. -/
def call (p : Participant) : ApiCall → Participant
  | .createWriter addr topic type qos birthUs =>
    if (p.writers.lookup addr).isSome then p else (p.createWriter addr topic type qos birthUs).getD p
  | .createReader addr topic type qos ignoreLocal birthUs =>
    if (p.readers.lookup addr).isSome then p else (p.createReader addr topic type qos ignoreLocal birthUs).getD p
  | .destroyWriter addr => p.destroyWriter addr
  | .destroyReader addr => p.destroyReader addr
  | .addNode ns name => p.addNode ns name
  | .removeNode ns name => p.removeNode ns name

/-- Every peer that decodes the announce of this state sees the local nodes
and endpoints, whatever its sequence number. -/
def Announced (p : Participant) : Prop :=
  ∀ announceSeq, ∃ received, decodeAnnounce (encodeAnnounce p.snapshot announceSeq) = some (received, announceSeq) ∧
    received.nodes = p.snapshot.nodes ∧ received.endpoints = p.snapshot.endpoints

/-- One more endpoint with these names fits the announce. -/
def EndpointRoom (p : Participant) (topic type : Bytes) : Prop :=
  topic.length < 2 ^ 16 ∧ type.length < 2 ^ 16 ∧ p.snapshot.endpoints.length + 1 < 2 ^ 16 ∧
    p.snapshot.wireSize + 61 + topic.length + type.length < 2 ^ 32

/-- One more node with these names fits the announce. -/
def NodeRoom (p : Participant) (ns name : Bytes) : Prop :=
  ns.length < 2 ^ 16 ∧ name.length < 2 ^ 16 ∧ p.snapshot.nodes.length + 1 < 2 ^ 16 ∧
    p.snapshot.wireSize + 4 + ns.length + name.length < 2 ^ 32

/-- What a call adds fits the announce; calls that add nothing always do. -/
def Room (p : Participant) : ApiCall → Prop
  | .createWriter addr topic type qos _ => p.writers.lookup addr = none → qosValid qos → p.EndpointRoom topic type
  | .createReader addr topic type qos _ _ => p.readers.lookup addr = none → qosValid qos → p.EndpointRoom topic type
  | .addNode ns name => ⟨ns, name⟩ ∉ p.nodes → p.NodeRoom ns name
  | .destroyWriter _ | .destroyReader _ | .removeNode _ _ => True

theorem announced_iff (p : Participant) : p.Announced ↔ p.snapshot.Encodable := by
  constructor
  · intro announced
    exact (decodeAnnounce_encode_iff p.snapshot 0).mp (announced 0)
  · intro fits announceSeq
    exact (decodeAnnounce_encode_iff p.snapshot announceSeq).mpr fits

end Participant

namespace ParticipantSnapshot

/-- One endpoint more, wherever it stands in the list. -/
theorem encodable_endpoint {snap next : ParticipantSnapshot} {e : EndpointRecord} (nodes : next.nodes = snap.nodes)
    (endpoints : next.endpoints.Perm (e :: snap.endpoints)) :
    next.Encodable ↔ snap.Encodable ∧ e.topic.length < 2 ^ 16 ∧ e.typeName.length < 2 ^ 16 ∧
      snap.endpoints.length + 1 < 2 ^ 16 ∧ snap.wireSize + 61 + e.topic.length + e.typeName.length < 2 ^ 32 := by
  have length := endpoints.length_eq
  have sum := (endpoints.map (fun e => 61 + e.topic.length + e.typeName.length)).sum_nat
  rw [List.length_cons] at length
  rw [List.map_cons, List.sum_cons] at sum
  have size : next.wireSize = snap.wireSize + 61 + e.topic.length + e.typeName.length := by
    rw [wireSize, wireSize, nodes, sum]
    omega
  have names (ok : EndpointRecord → Prop) : (∀ x ∈ next.endpoints, ok x) ↔ ok e ∧ ∀ x ∈ snap.endpoints, ok x := by
    rw [← List.forall_mem_cons]
    exact ⟨fun all x member => all x (endpoints.mem_iff.mpr member), fun all x member => all x (endpoints.mem_iff.mp member)⟩
  constructor
  · rintro ⟨⟨nodeCount, count, nodeNames, endpointNames⟩, body⟩
    obtain ⟨own, others⟩ := (names _).mp endpointNames
    rw [nodes] at nodeCount nodeNames
    exact ⟨⟨⟨nodeCount, by omega, nodeNames, others⟩, by omega⟩, own.1, own.2, by omega, by omega⟩
  · rintro ⟨⟨⟨nodeCount, count, nodeNames, endpointNames⟩, body⟩, topic, typeName, room, bytes⟩
    exact ⟨⟨nodes ▸ nodeCount, by omega, nodes ▸ nodeNames, (names _).mpr ⟨⟨topic, typeName⟩, endpointNames⟩⟩, by omega⟩

theorem encodable_node {snap next : ParticipantSnapshot} {n : NodeInfo} (nodes : next.nodes = snap.nodes ++ [n])
    (endpoints : next.endpoints = snap.endpoints) :
    next.Encodable ↔ snap.Encodable ∧ n.ns.length < 2 ^ 16 ∧ n.name.length < 2 ^ 16 ∧
      snap.nodes.length + 1 < 2 ^ 16 ∧ snap.wireSize + 4 + n.ns.length + n.name.length < 2 ^ 32 := by
  have length : next.nodes.length = snap.nodes.length + 1 := by rw [nodes, List.length_append, List.length_singleton]
  have size : next.wireSize = snap.wireSize + 4 + n.ns.length + n.name.length := by
    rw [wireSize, wireSize, nodes, endpoints, List.map_append, List.sum_append, List.map_singleton, List.sum_singleton]
    omega
  have names (ok : NodeInfo → Prop) : (∀ x ∈ next.nodes, ok x) ↔ (∀ x ∈ snap.nodes, ok x) ∧ ok n := by
    rw [nodes, List.forall_mem_append, List.forall_mem_singleton]
  constructor
  · rintro ⟨⟨nodeCount, count, nodeNames, endpointNames⟩, body⟩
    obtain ⟨others, own⟩ := (names _).mp nodeNames
    rw [endpoints] at count endpointNames
    exact ⟨⟨⟨by omega, count, others, endpointNames⟩, by omega⟩, own.1, own.2, by omega, by omega⟩
  · rintro ⟨⟨⟨nodeCount, count, nodeNames, endpointNames⟩, body⟩, ns, name, room, bytes⟩
    exact ⟨⟨by omega, endpoints ▸ count, (names _).mpr ⟨nodeNames, ns, name⟩, endpoints ▸ endpointNames⟩, by omega⟩

/-- Taking something away leaves room. -/
theorem Encodable.sublist {snap next : ParticipantSnapshot} (fits : snap.Encodable)
    (nodes : next.nodes.Sublist snap.nodes) (endpoints : next.endpoints.Sublist snap.endpoints) : next.Encodable := by
  have fewerNodes := (nodes.map (fun n => 4 + n.ns.length + n.name.length)).sum_le_sum (fun _ _ => Nat.zero_le _)
  have fewerEndpoints :=
    (endpoints.map (fun e => 61 + e.topic.length + e.typeName.length)).sum_le_sum (fun _ _ => Nat.zero_le _)
  have body := fits.body
  have nodeCount := nodes.length_le
  have count := endpoints.length_le
  have short := fits.toShort
  refine ⟨⟨Nat.lt_of_le_of_lt nodeCount short.nodes, Nat.lt_of_le_of_lt count short.endpoints,
    fun n member => short.nodeNames n (nodes.subset member),
    fun e member => short.endpointNames e (endpoints.subset member)⟩, ?_⟩
  rw [wireSize] at body ⊢
  omega

end ParticipantSnapshot

namespace Participant
variable {p : Participant}

@[simp] theorem recomputeMatches_snapshot : p.recomputeMatches.snapshot = p.snapshot := by
  simp only [snapshot, recomputeMatches, List.map_map, Function.comp_def]

theorem createWriter_announces {addr : Addr} {topic type : Bytes} {qos : QosProfile} {birthUs : U64}
    (absent : p.writers.lookup addr = none) (valid : qosValid qos = true) :
    ∃ next guid, p.createWriter addr topic type qos birthUs = some next ∧ next.snapshot.nodes = p.snapshot.nodes ∧
      next.snapshot.endpoints.Perm (⟨guid, .writer, topic, type, qos, birthUs⟩ :: p.snapshot.endpoints) := by
  refine ⟨_, makeGuid p.owner .writer (p.entitySerial + 1), if_neg (by simp [valid]), ?_⟩
  rw [recomputeMatches_snapshot]
  exact ⟨rfl, ((KeyedList.emplace_perm (KeyedList.not_mem_keys absent)).map _).append_right _⟩

theorem createReader_announces {addr : Addr} {topic type : Bytes} {qos : QosProfile} {ignoreLocal : Bool} {birthUs : U64}
    (absent : p.readers.lookup addr = none) (valid : qosValid qos = true) :
    ∃ next guid, p.createReader addr topic type qos ignoreLocal birthUs = some next ∧
      next.snapshot.nodes = p.snapshot.nodes ∧
      next.snapshot.endpoints.Perm (⟨guid, .reader, topic, type, qos, birthUs⟩ :: p.snapshot.endpoints) := by
  refine ⟨_, makeGuid p.owner .reader (p.entitySerial + 1), if_neg (by simp [valid]), ?_⟩
  rw [recomputeMatches_snapshot]
  exact ⟨rfl, (((KeyedList.emplace_perm (KeyedList.not_mem_keys absent)).map _).append_left _).trans List.perm_middle⟩

/-- What both creations have in common: refused, or one endpoint more. -/
theorem creation_encodable {α : Type} {found : Option α} {valid : Bool} {created : Option Participant}
    {e : Guid → EndpointRecord}
    {topic type : Bytes} (fits : p.snapshot.Encodable) (refused : valid = false → created = none)
    (accepted : found = none → valid = true → ∃ next guid, created = some next ∧
      next.snapshot.nodes = p.snapshot.nodes ∧ next.snapshot.endpoints.Perm (e guid :: p.snapshot.endpoints))
    (names : ∀ guid, (e guid).topic = topic ∧ (e guid).typeName = type) :
    (if found.isSome then p else created.getD p).snapshot.Encodable ↔
      (found = none → valid = true → p.EndpointRoom topic type) := by
  cases found with
  | some used => exact ⟨fun _ free => absurd free (by simp), fun _ => fits⟩
  | none =>
    cases valid with
    | false =>
      rw [refused rfl]
      exact ⟨fun _ _ wrong => absurd wrong (by simp), fun _ => fits⟩
    | true =>
      obtain ⟨next, guid, created, nodes, endpoints⟩ := accepted rfl rfl
      have added := ParticipantSnapshot.encodable_endpoint nodes endpoints
      rw [(names guid).1, (names guid).2] at added
      rw [created]
      exact added.trans ⟨fun room _ _ => room.2, fun room => ⟨fits, room rfl rfl⟩⟩

/-- A call keeps the announce decodable exactly if there is room for it. -/
theorem call_encodable (call : ApiCall) (fits : p.snapshot.Encodable) :
    (p.call call).snapshot.Encodable ↔ p.Room call := by
  cases call with
  | createWriter addr topic type qos birthUs =>
    exact creation_encodable fits (fun invalid => if_pos (by simp [invalid])) createWriter_announces
      (fun _ => ⟨rfl, rfl⟩)
  | createReader addr topic type qos ignoreLocal birthUs =>
    exact creation_encodable fits (fun invalid => if_pos (by simp [invalid])) createReader_announces
      (fun _ => ⟨rfl, rfl⟩)
  | destroyWriter addr =>
    refine iff_of_true ?_ trivial
    rw [Participant.call, destroyWriter, recomputeMatches_snapshot]
    exact fits.sublist (.refl _) ((List.filter_sublist.map _).append (.refl _))
  | destroyReader addr =>
    refine iff_of_true ?_ trivial
    rw [Participant.call, destroyReader, recomputeMatches_snapshot]
    exact fits.sublist (.refl _) ((List.Sublist.refl _).append (List.filter_sublist.map _))
  | addNode ns name =>
    by_cases known : ⟨ns, name⟩ ∈ p.nodes
    · have same : (p.call (.addNode ns name)).snapshot = p.snapshot := by
        simp only [Participant.call, addNode, if_pos known, snapshot]
      rw [same]
      exact ⟨fun _ unknown => absurd known unknown, fun _ => fits⟩
    · have nodes : (p.call (.addNode ns name)).snapshot.nodes = p.snapshot.nodes ++ [⟨ns, name⟩] := if_neg known
      exact (ParticipantSnapshot.encodable_node nodes rfl).trans
        ⟨fun room _ => room.2, fun room => ⟨fits, room known⟩⟩
  | removeNode ns name =>
    refine iff_of_true ?_ trivial
    exact fits.sublist List.filter_sublist (.refl _)

/-- A participant before its first call. -/
def fresh (owner : GuidPrefix) : Participant where
  owner := owner
  guid := makeGuid owner .participant 0

theorem fresh_encodable (owner : GuidPrefix) : (fresh owner).snapshot.Encodable :=
  ⟨⟨show 0 < 2 ^ 16 by decide, show 0 < 2 ^ 16 by decide, fun _ member => absurd member List.not_mem_nil,
    fun _ member => absurd member List.not_mem_nil⟩, show 28 < 2 ^ 32 by decide⟩

/-- The announce is decodable in every state of a run exactly if every call
of the run finds room in the state in which it is made. -/
theorem announced_iff_room (owner : GuidPrefix) (calls : List ApiCall) :
    (∀ first rest, calls = first ++ rest → (Run.exec call (fresh owner) first).Announced) ↔
      Run.Along call Room (fresh owner) calls := by
  induction calls using List.reverseRecOn with
  | nil =>
    refine iff_of_true (fun first rest split => ?_) trivial
    rw [(List.append_eq_nil_iff.mp split.symm).1]
    exact (announced_iff _).mpr (fresh_encodable owner)
  | append_singleton calls last ih =>
    rw [Run.along_snoc, ← ih]
    constructor
    · intro announced
      have before (first rest : List ApiCall) (split : calls = first ++ rest) :
          (Run.exec call (fresh owner) first).Announced :=
        announced first (rest ++ [last]) (by rw [split, List.append_assoc])
      have after := (announced_iff _).mp (announced (calls ++ [last]) [] (List.append_nil _).symm)
      rw [Run.exec_snoc] at after
      exact ⟨before, (call_encodable last ((announced_iff _).mp (before calls [] (List.append_nil _).symm))).mp after⟩
    · rintro ⟨before, room⟩ first rest split
      rcases List.eq_nil_or_concat' rest with rfl | ⟨others, final, rfl⟩
      · rw [List.append_nil] at split
        have fits := (announced_iff _).mp (before calls [] (List.append_nil _).symm)
        rw [← split, Run.exec_snoc]
        exact (announced_iff _).mpr ((call_encodable last fits).mpr room)
      · rw [← List.append_assoc] at split
        exact before first others (List.append_inj_left' split rfl)

/-- A topic of 65536 bytes is accepted and its announce is not read back. -/
theorem long_topic_not_announced :
    let owner : GuidPrefix := ⟨List.replicate 12 0, rfl⟩
    let p := (fresh owner).call (.createWriter 1 (List.replicate 65536 0x61) [0x74] {} 0)
    p.writers.length = 1 ∧ p.snapshot.endpoints.length = 1 ∧ ¬p.Announced := by
  intro owner p
  refine ⟨rfl, rfl, fun announced => ?_⟩
  have room := (call_encodable _ (fresh_encodable owner)).mp ((announced_iff p).mp announced)
  have short := (room rfl rfl).1
  rw [List.length_replicate] at short
  omega

end Participant

end Mdds
