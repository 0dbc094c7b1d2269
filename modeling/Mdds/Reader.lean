import Mathlib.Logic.Function.Basic
import Mdds.Qos

namespace Mdds

/-- Receive state for one writer: a contiguous baseline and a window in
which bit `i` stands for the receipt of `lastSeq + 1 + i`. -/
structure WriterRxState where
  lastSeq : U64 := 0
  window : U64 := 0
  deriving DecidableEq

/-- The test `window & (1ULL << i)`. -/
def bitSet (window : U64) (i : Nat) : Bool := window &&& 1#64 <<< i ≠ 0

/-- The slide loop of a contiguous arrival. Each turn drops a set bit, so
64 turns are all a window allows. -/
def WriterRxState.slide : Nat → WriterRxState → WriterRxState
  | 0, st => st
  | fuel + 1, st => if bitSet st.window 0 then slide fuel ⟨st.lastSeq + 1, st.window >>> 1⟩ else st

/-- What the window branches of `enqueue` do with one seq. -/
structure RxOutcome where
  state : WriterRxState
  isNew : Bool := false
  lost : U64 := 0
  gap : Option (U64 × U64) := none

/-- The four window branches of `enqueue`: stale, jump, tracked out of
order, contiguous. -/
def WriterRxState.receive (st : WriterRxState) (seq : U64) : RxOutcome :=
  if seq ≤ st.lastSeq then { state := st }
  else
    let offset := seq - st.lastSeq - 1
    if 64 ≤ offset then { state := ⟨seq, 0⟩, isNew := true, lost := offset }
    else if 0 < offset then
      if bitSet st.window offset.toNat then { state := st }
      else
        let window := st.window ||| 1#64 <<< offset.toNat
        { state := ⟨st.lastSeq, window⟩, isNew := true, gap := some (st.lastSeq + 1, window) }
    else
      { state := WriterRxState.slide 64 ⟨st.lastSeq + 1, st.window >>> 1⟩, isNew := !bitSet st.window 0 }

/-- The part of `apply_gap` for a writer with receive state: the new state
and the number of seqs counted lost. -/
def WriterRxState.passGap (st : WriterRxState) (gapEnd : U64) : WriterRxState × U64 :=
  if gapEnd ≤ st.lastSeq then (st, 0)
  else
    let span := gapEnd - st.lastSeq
    let tracked := min span.toNat 64
    let received := (List.range tracked).countP (bitSet st.window)
    (⟨gapEnd, if 64 ≤ span then 0 else st.window >>> span.toNat⟩, span - BitVec.ofNat 64 received)

structure MessageInfo where
  writerGuid : Guid
  seq : U64
  pubTimeMs : U64 := 0
  deriving DecidableEq

structure QueuedSample where
  data : Bytes
  info : MessageInfo
  lifespanMs : U64 := 0
  deriving DecidableEq

/-- A local reader. `rx` is the per-writer map of the code, which is only
ever searched and updated by key. -/
structure ReaderImpl where
  guid : Guid
  topic : Bytes
  type : Bytes
  qos : QosProfile
  ignoreLocal : Bool := false
  birthUs : U64 := 0
  matchedCount : Nat := 0
  queue : List QueuedSample := []
  rx : Guid → Option WriterRxState := fun _ => none
  lostCount : U64 := 0

namespace ReaderImpl

/-- `rx_[writer]`, which starts from the zero state. -/
def rxState (r : ReaderImpl) (writer : Guid) : WriterRxState := (r.rx writer).getD {}

/-- `sweep_expired_locked`. -/
def sweepExpired (r : ReaderImpl) (now : U64) : ReaderImpl :=
  { r with queue := r.queue.filter (fun q => !lifespanExpired q.lifespanMs q.info.pubTimeMs now) }

/-- Appends to the queue; a KEEP_LAST reader drops from the front down to its depth. -/
def push (r : ReaderImpl) (sample : QueuedSample) : ReaderImpl :=
  let queue := r.queue ++ [sample]
  { r with queue :=
      if r.qos.history = .keepLast then queue.drop (queue.length - max r.qos.depth.toNat 1) else queue }

structure EnqueueResult where
  reader : ReaderImpl
  queued : Bool
  gapDetected : Bool
  gapBase : U64
  gapBitmap : U64

/-- `enqueue`. The clock is read at the lifespan check and again by the
final sweep, hence two readings. -/
def enqueue (r : ReaderImpl) (writerGuid : Guid) (seq : U64) (data : Bytes) (writerQos : QosProfile)
    (pubTimeMs now sweepNow : U64) : EnqueueResult :=
  let outcome := (r.rxState writerGuid).receive seq
  let tracked : ReaderImpl :=
    { r with rx := Function.update r.rx writerGuid (some outcome.state), lostCount := r.lostCount + outcome.lost }
  let gap := outcome.gap.getD (0, 0)
  let dropped : EnqueueResult :=
    { reader := tracked
      queued := false
      gapDetected := outcome.gap.isSome && r.qos.reliability = .reliable && writerQos.reliability = .reliable
      gapBase := gap.1
      gapBitmap := gap.2 }
  if !outcome.isNew then dropped
  else if lifespanExpired writerQos.lifespanMs pubTimeMs now then dropped
  else
    let sample : QueuedSample := ⟨data, ⟨writerGuid, seq, pubTimeMs⟩, writerQos.lifespanMs⟩
    { dropped with reader := (tracked.push sample).sweepExpired sweepNow, queued := true }

/-- `nack_state`: base and bitmap of the ACKNACK a heartbeat provokes. -/
def nackState (r : ReaderImpl) (writerGuid : Guid) : U64 × U64 :=
  match r.rx writerGuid with
  | none => (1, 0)
  | some st => (st.lastSeq + 1, st.window)

/-- `apply_gap`; `gapStart` is ignored, and a GAP from a writer without
receive state sets the join baseline and counts nothing. -/
def applyGap (r : ReaderImpl) (writerGuid : Guid) (_gapStart gapEnd : U64) : ReaderImpl :=
  match r.rx writerGuid with
  | none => { r with rx := Function.update r.rx writerGuid (some ⟨gapEnd, 0⟩) }
  | some st =>
    let passed := st.passGap gapEnd
    { r with rx := Function.update r.rx writerGuid (some passed.1), lostCount := r.lostCount + passed.2 }

/-- `take`: the oldest unread sample, after the lazy sweep. -/
def take (r : ReaderImpl) (now : U64) : Option (Bytes × MessageInfo) × ReaderImpl :=
  let swept := r.sweepExpired now
  match swept.queue with
  | [] => (none, swept)
  | sample :: rest => (some (sample.data, sample.info), { swept with queue := rest })

/-- `available`, which sweeps too. -/
def available (r : ReaderImpl) (now : U64) : Nat × ReaderImpl :=
  let swept := r.sweepExpired now
  (swept.queue.length, swept)

def messagesLost (r : ReaderImpl) : U64 := r.lostCount

end ReaderImpl

end Mdds
