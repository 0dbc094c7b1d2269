import Mdds.Qos

namespace Mdds

structure NodeInfo where
  ns : Bytes
  name : Bytes
  deriving DecidableEq

/-- An announced endpoint. `birthUs` is its creation time, which a remote
writer compares with publication times. -/
structure EndpointRecord where
  guid : Guid
  kind : EntityKind
  topic : Bytes
  typeName : Bytes
  qos : QosProfile
  birthUs : U64 := 0
  deriving DecidableEq

/-- `operator==` of endpoint records, which looks at neither QoS nor birth. -/
def EndpointRecord.same (a b : EndpointRecord) : Bool :=
  a.guid = b.guid && a.kind = b.kind && a.topic = b.topic && a.typeName = b.typeName

structure ParticipantSnapshot where
  participantGuid : Guid
  nodes : List NodeInfo := []
  endpoints : List EndpointRecord := []
  deriving DecidableEq

/-- `endpoints_match`: topic, type and the reader-side QoS rule. -/
def endpointsMatch (readerTopic readerType : Bytes) (readerQos : QosProfile) (writerEp : EndpointRecord) : Bool :=
  writerEp.topic = readerTopic && writerEp.typeName = readerType && qosAcceptedByReader readerQos writerEp.qos

structure AckNackBody where
  reader : Guid
  writer : Guid
  baseSeq : U64
  bitmap : U64
  deriving DecidableEq

structure HeartbeatBody where
  writer : Guid
  firstSeq : U64
  lastSeq : U64
  deriving DecidableEq

structure GapBody where
  writer : Guid
  reader : Guid
  gapStart : U64
  gapEnd : U64
  deriving DecidableEq

end Mdds
