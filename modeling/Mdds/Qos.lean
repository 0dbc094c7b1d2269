import Mdds.Guid

namespace Mdds

inductive Reliability
  | bestEffort
  | reliable
  | other (raw : OutOfRange 2)
  deriving DecidableEq

inductive Durability
  | volatile
  | transientLocal
  | other (raw : OutOfRange 2)
  deriving DecidableEq

inductive History
  | keepLast
  | keepAll
  | other (raw : OutOfRange 2)
  deriving DecidableEq

inductive Liveliness
  | automatic
  | manualByTopic
  | other (raw : OutOfRange 2)
  deriving DecidableEq

/-- Durations are in milliseconds and 0 stands for infinite. -/
structure QosProfile where
  reliability : Reliability := .reliable
  durability : Durability := .volatile
  history : History := .keepLast
  liveliness : Liveliness := .automatic
  depth : U32 := 10
  deadlineMs : U64 := 0
  lifespanMs : U64 := 0
  livelinessLeaseMs : U64 := 0
  deriving DecidableEq

/-- `qos_valid`: enumerators in range, and KEEP_LAST keeps at least one sample. -/
def qosValid (qos : QosProfile) : Bool :=
  match qos.reliability, qos.durability, qos.history, qos.liveliness with
  | .other _, _, _, _ => false
  | _, .other _, _, _ => false
  | _, _, .other _, _ => false
  | _, _, _, .other _ => false
  | _, _, .keepLast, _ => qos.depth ≠ 0
  | _, _, .keepAll, _ => true

theorem qosValid_depth {qos : QosProfile} (valid : qosValid qos = true) (bounded : qos.history ≠ .keepAll) :
    0 < qos.depth.toNat := by
  refine Nat.pos_of_ne_zero (fun zero => ?_)
  have none : qos.depth = 0 := BitVec.eq_of_toNat_eq zero
  unfold qosValid at valid
  split at valid <;> simp_all

/-- `qos_compatible`: strict request/offer matching, the writer-side view. -/
def qosCompatible (requested offered : QosProfile) : Bool :=
  if requested.reliability = .reliable ∧ offered.reliability = .bestEffort then false
  else if requested.durability = .transientLocal ∧ offered.durability = .volatile then false
  else true

/-- `qos_accepted_by_reader`: the reader-side view, lenient on reliability. -/
def qosAcceptedByReader (readerQos writerQos : QosProfile) : Bool :=
  if readerQos.durability = .transientLocal ∧ writerQos.durability = .volatile then false else true

/-- `lifespan_expired`, with the 64-bit sum of the code. -/
def lifespanExpired (lifespanMs pubTimeMs nowMs : U64) : Bool :=
  0 < lifespanMs && 0 < pubTimeMs && pubTimeMs + lifespanMs ≤ nowMs

end Mdds
