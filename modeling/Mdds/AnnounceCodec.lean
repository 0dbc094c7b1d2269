import Mdds.Wire

namespace Mdds

def Reliability.code : Reliability → Byte
  | bestEffort => 0
  | reliable => 1
  | other raw => raw.val

def Reliability.ofByte (raw : Byte) : Reliability :=
  if outside : 2 ≤ raw.toNat then .other ⟨raw, outside⟩ else if raw = 0 then .bestEffort else .reliable

def Durability.code : Durability → Byte
  | volatile => 0
  | transientLocal => 1
  | other raw => raw.val

def Durability.ofByte (raw : Byte) : Durability :=
  if outside : 2 ≤ raw.toNat then .other ⟨raw, outside⟩ else if raw = 0 then .volatile else .transientLocal

def History.code : History → Byte
  | keepLast => 0
  | keepAll => 1
  | other raw => raw.val

def History.ofByte (raw : Byte) : History :=
  if outside : 2 ≤ raw.toNat then .other ⟨raw, outside⟩ else if raw = 0 then .keepLast else .keepAll

def Liveliness.code : Liveliness → Byte
  | automatic => 0
  | manualByTopic => 1
  | other raw => raw.val

def Liveliness.ofByte (raw : Byte) : Liveliness :=
  if outside : 2 ≤ raw.toNat then .other ⟨raw, outside⟩ else if raw = 0 then .automatic else .manualByTopic

def EntityKind.ofByte (raw : Byte) : EntityKind :=
  if outside : 3 ≤ raw.toNat then .other ⟨raw, outside⟩
  else if raw = 0 then .participant
  else if raw = 1 then .writer
  else .reader

def kQosWireSize : Nat := 32

def encodeQos (qos : QosProfile) : Bytes :=
  [qos.reliability.code, qos.durability.code, qos.history.code, qos.liveliness.code] ++ putU32 qos.depth ++
    putU64 qos.deadlineMs ++ putU64 qos.lifespanMs ++ putU64 qos.livelinessLeaseMs

/-- `decode_qos` accepts every byte as an enumerator. -/
def decodeQos (buf : Bytes) : Option QosProfile :=
  if buf.length < kQosWireSize then none
  else
    some
      { reliability := .ofByte (byteAt buf 0)
        durability := .ofByte (byteAt buf 1)
        history := .ofByte (byteAt buf 2)
        liveliness := .ofByte (byteAt buf 3)
        depth := getU32 (buf.drop 4)
        deadlineMs := getU64 (buf.drop 8)
        lifespanMs := getU64 (buf.drop 16)
        livelinessLeaseMs := getU64 (buf.drop 24) }

@[simp] theorem encodeQos_length (qos : QosProfile) : (encodeQos qos).length = kQosWireSize := rfl

/-- The length prefix keeps the low sixteen bits of the length, the bytes follow whole. -/
def putString (s : Bytes) : Bytes := putU16 (BitVec.ofNat 16 s.length) ++ s

def putNode (n : NodeInfo) : Bytes := putString n.ns ++ putString n.name

def putEndpoint (e : EndpointRecord) : Bytes :=
  e.guid.bytes ++ [e.kind.code] ++ putString e.topic ++ putString e.typeName ++ encodeQos e.qos ++ putU64 e.birthUs

def encodeAnnounce (snap : ParticipantSnapshot) (announceSeq : U64) : Bytes :=
  encodeFrame .announce 0
    (snap.participantGuid.bytes ++ putU64 announceSeq ++
      putU16 (BitVec.ofNat 16 snap.nodes.length) ++ snap.nodes.flatMap putNode ++
      putU16 (BitVec.ofNat 16 snap.endpoints.length) ++ snap.endpoints.flatMap putEndpoint)

/-- `Reader2`: each read either fails or returns a value and what follows it. -/
abbrev Reader2 (α : Type) := Bytes → Option (α × Bytes)

namespace Reader2

def u16 : Reader2 U16 := fun buf => if buf.length < 2 then none else some (getU16 buf, buf.drop 2)

def u64 : Reader2 U64 := fun buf => if buf.length < 8 then none else some (getU64 buf, buf.drop 8)

def bytes (n : Nat) : Reader2 Bytes := fun buf => if buf.length < n then none else some (buf.take n, buf.drop n)

def guid : Reader2 Guid := fun buf => (bytes 16 buf).map (fun (read, rest) => (getGuid read, rest))

def str : Reader2 Bytes := fun buf => do
  let (n, rest) ← u16 buf
  bytes n.toNat rest

def node : Reader2 NodeInfo := fun buf => do
  let (ns, rest) ← str buf
  let (name, rest) ← str rest
  pure (⟨ns, name⟩, rest)

def endpoint : Reader2 EndpointRecord := fun buf => do
  let (guid, rest) ← guid buf
  let (kind, rest) ← bytes 1 rest
  let (topic, rest) ← str rest
  let (typeName, rest) ← str rest
  let (qosBuf, rest) ← bytes kQosWireSize rest
  let qos ← decodeQos qosBuf
  let (birthUs, rest) ← u64 rest
  pure (⟨guid, .ofByte (byteAt kind 0), topic, typeName, qos, birthUs⟩, rest)

/-- The counted loops of the decoder. -/
def many {α : Type} (item : Reader2 α) : Nat → Reader2 (List α)
  | 0, buf => some ([], buf)
  | count + 1, buf => do
    let (value, rest) ← item buf
    let (values, rest) ← many item count rest
    pure (value :: values, rest)

end Reader2

def decodeAnnounce (buf : Bytes) : Option (ParticipantSnapshot × U64) := do
  let hdr ← decodeHeader buf
  if hdr.type ≠ .announce then none
  else
    let (participantGuid, rest) ← Reader2.guid ((buf.drop kHeaderSize).take hdr.bodyLen.toNat)
    let (announceSeq, rest) ← Reader2.u64 rest
    let (nodeCount, rest) ← Reader2.u16 rest
    let (nodes, rest) ← Reader2.many .node nodeCount.toNat rest
    let (epCount, rest) ← Reader2.u16 rest
    let (endpoints, _) ← Reader2.many .endpoint epCount.toNat rest
    pure (⟨participantGuid, nodes, endpoints⟩, announceSeq)

/-- The bytes a snapshot takes on the wire besides the frame header. -/
def ParticipantSnapshot.wireSize (snap : ParticipantSnapshot) : Nat :=
  28 + (snap.nodes.map (fun n => 4 + n.ns.length + n.name.length)).sum +
    (snap.endpoints.map (fun e => 61 + e.topic.length + e.typeName.length)).sum

theorem encodeAnnounce_length (snap : ParticipantSnapshot) (announceSeq : U64) :
    (encodeAnnounce snap announceSeq).length = kHeaderSize + snap.wireSize := by
  have node (n : NodeInfo) : (putNode n).length = 4 + n.ns.length + n.name.length := by
    simp only [putNode, putString, List.length_append, putU16_length]
    omega
  have endpoint (e : EndpointRecord) : (putEndpoint e).length = 61 + e.topic.length + e.typeName.length := by
    simp only [putEndpoint, putString, List.length_append, putU16_length, putU64_length, encodeQos_length, e.guid.size,
      kQosWireSize, List.length_singleton]
    omega
  simp only [encodeAnnounce, encodeFrame_length, List.length_append, List.length_flatMap, node, endpoint,
    snap.participantGuid.size, putU64_length, putU16_length, ParticipantSnapshot.wireSize]
  omega

end Mdds
