import Mdds.ReaderRun
import Mdds.Writer

namespace Mdds

/-- Past its lifespan, in whole numbers. -/
def Expired (lifespanMs pubTimeMs now : U64) : Prop :=
  0 < lifespanMs.toNat ∧ 0 < pubTimeMs.toNat ∧ pubTimeMs.toNat + lifespanMs.toNat ≤ now.toNat

/-- The 64-bit end of the lifespan is of no consequence: there is none, it is
the end, or it wraps to a time still to come. -/
def EndHolds (lifespanMs pubTimeMs now : U64) : Prop :=
  lifespanMs = 0 ∨ pubTimeMs = 0 ∨ pubTimeMs.toNat + lifespanMs.toNat < 2 ^ 64 ∨
    now.toNat + 2 ^ 64 < pubTimeMs.toNat + lifespanMs.toNat

theorem lifespanExpired_iff {lifespanMs pubTimeMs now : U64} : lifespanExpired lifespanMs pubTimeMs now = true ↔
    0 < lifespanMs.toNat ∧ 0 < pubTimeMs.toNat ∧ (pubTimeMs.toNat + lifespanMs.toNat) % 2 ^ 64 ≤ now.toNat := by
  simp only [lifespanExpired, Bool.and_eq_true, decide_eq_true_eq, BitVec.lt_def, BitVec.le_def, BitVec.toNat_add,
    and_assoc]
  exact Iff.rfl

theorem lifespanExpired_exact_iff {lifespanMs pubTimeMs now : U64} :
    (lifespanExpired lifespanMs pubTimeMs now = true ↔ Expired lifespanMs pubTimeMs now) ↔
      EndHolds lifespanMs pubTimeMs now := by
  have bound := now.isLt
  have lifespanBound := lifespanMs.isLt
  have pubBound := pubTimeMs.isLt
  have noLifespan : lifespanMs = 0 ↔ lifespanMs.toNat = 0 := BitVec.toNat_eq
  have noTime : pubTimeMs = 0 ↔ pubTimeMs.toNat = 0 := BitVec.toNat_eq
  rw [lifespanExpired_iff, Expired, EndHolds, noLifespan, noTime]
  constructor
  · intro same
    by_contra wraps
    simp only [not_or, Nat.not_lt] at wraps
    have sum : (pubTimeMs.toNat + lifespanMs.toNat) % 2 ^ 64 ≤ now.toNat := by omega
    have past := (same.mp ⟨by omega, by omega, sum⟩).2.2
    omega
  · rintro (none | unknown | fits | ahead)
    · exact iff_of_false (fun expired => by omega) (fun expired => by omega)
    · exact iff_of_false (fun expired => by omega) (fun expired => by omega)
    · rw [Nat.mod_eq_of_lt fits]
    · refine iff_of_false (fun expired => ?_) (fun expired => ?_)
      · have past := expired.2.2
        omega
      · have past := expired.2.2
        omega

/-- The sites that act on the lifespan of a sample treat it as expired
exactly if it is: an arrival is not queued, `available` drops it, `take`
passes it by, the writer history drops it where it stands in front, and the
replay leaves it out. -/
structure ExpiresExactly (lifespanMs pubTimeMs now : U64) : Prop where
  enqueue : ∀ (r : ReaderImpl) (writer : Guid) (seq : U64) (data : Bytes) (writerQos : QosProfile) (sweepNow : U64),
    writerQos.lifespanMs = lifespanMs → ¬ r.Settled writer seq.toNat →
    ((r.enqueue writer seq data writerQos pubTimeMs now sweepNow).queued = false ↔ Expired lifespanMs pubTimeMs now)
  available : ∀ (r : ReaderImpl), ∀ q ∈ r.queue, q.lifespanMs = lifespanMs → q.info.pubTimeMs = pubTimeMs →
    (q ∉ (r.available now).2.queue ↔ Expired lifespanMs pubTimeMs now)
  take : ∀ (r : ReaderImpl) (q : QueuedSample) (rest : List QueuedSample), r.queue = q :: rest →
    q.lifespanMs = lifespanMs → q.info.pubTimeMs = pubTimeMs →
    (r.take now = { r with queue := rest }.take now ↔ Expired lifespanMs pubTimeMs now)
  history : ∀ (w next : WriterImpl) (sample e : CachedSample) (rest : List CachedSample),
    w.qos.lifespanMs = lifespanMs → w.caches = true → w.cacheSample sample now = some next → e.pubTimeMs = pubTimeMs →
    (w.history ++ [sample]).drop ((w.history ++ [sample]).length - w.historyCap) = e :: rest →
    (next.history ≠ e :: rest ↔ Expired lifespanMs pubTimeMs now)
  replay : ∀ (w : WriterImpl), ∀ e ∈ w.history, w.qos.lifespanMs = lifespanMs → e.pubTimeMs = pubTimeMs →
    (e ∉ w.replayable now ↔ Expired lifespanMs pubTimeMs now)

namespace ReaderImpl
variable (r : ReaderImpl) (now : U64)

theorem enqueue_dropped {writer : Guid} {seq pubTimeMs sweepNow : U64} {data : Bytes} {writerQos : QosProfile}
    (new : ¬ r.Settled writer seq.toNat) : (r.enqueue writer seq data writerQos pubTimeMs now sweepNow).queued = false ↔
      lifespanExpired writerQos.lifespanMs pubTimeMs now = true := by
  have accepted : ((r.rxState writer).receive seq).isNew = true := WriterRxState.receive_isNew.mpr new
  rw [enqueue_queued, accepted, Bool.true_and, Bool.not_eq_false']

theorem available_dropped {q : QueuedSample} (queued : q ∈ r.queue) :
    q ∉ (r.available now).2.queue ↔ lifespanExpired q.lifespanMs q.info.pubTimeMs now = true := by
  simp only [available, sweepExpired, List.mem_filter, queued, true_and, Bool.not_eq_true', Bool.not_eq_false]

theorem take_dropped {q : QueuedSample} {rest : List QueuedSample} (front : r.queue = q :: rest) :
    r.take now = { r with queue := rest }.take now ↔ lifespanExpired q.lifespanMs q.info.pubTimeMs now = true := by
  cases due : lifespanExpired q.lifespanMs q.info.pubTimeMs now with
  | true =>
    have swept : r.sweepExpired now = { r with queue := rest }.sweepExpired now := by
      simp only [sweepExpired, front, List.filter_cons, due, Bool.not_true, Bool.false_eq_true, if_false]
    refine iff_of_true ?_ rfl
    unfold take
    rw [swept]
  | false =>
    have swept : (r.sweepExpired now).queue = q :: ({ r with queue := rest }.sweepExpired now).queue := by
      simp only [sweepExpired, front, List.filter_cons, due, Bool.not_false, if_true]
    have taken : (r.take now).2.queue = ({ r with queue := rest }.sweepExpired now).queue := by
      unfold take
      dsimp only
      rw [swept]
    have some : (r.take now).1 ≠ none := by
      unfold take
      dsimp only
      rw [swept]
      exact Option.some_ne_none _
    refine iff_of_false (fun same => ?_) Bool.false_ne_true
    -- One more sample is left than without it, or there was no other to take.
    rw [same] at taken some
    unfold take at taken some
    dsimp only at taken some
    cases others : ({ r with queue := rest }.sweepExpired now).queue with
    | nil =>
      rw [others] at some
      exact some rfl
    | cons first left =>
      rw [others] at taken
      exact absurd (congrArg List.length taken) (by simp)

end ReaderImpl

namespace WriterImpl
variable {w next : WriterImpl} {now : U64}

/-- The sweep leaves the history as it is exactly if it finds the front alive. -/
theorem cacheSample_dropped {sample e : CachedSample} {rest : List CachedSample} (caches : w.caches = true)
    (accepted : w.cacheSample sample now = some next)
    (front : (w.history ++ [sample]).drop ((w.history ++ [sample]).length - w.historyCap) = e :: rest) :
    next.history ≠ e :: rest ↔ lifespanExpired w.qos.lifespanMs e.pubTimeMs now = true := by
  unfold cacheSample at accepted
  rw [caches, Bool.not_true] at accepted
  dsimp only at accepted
  rw [if_neg Bool.false_ne_true, front] at accepted
  split at accepted
  · simp at accepted
  · rw [← Option.some.inj accepted]
    dsimp only
    cases due : lifespanExpired w.qos.lifespanMs e.pubTimeMs now with
    | false =>
      rw [List.dropWhile_cons, due, if_neg Bool.false_ne_true]
      exact iff_of_false (not_not_intro rfl) Bool.false_ne_true
    | true =>
      rw [List.dropWhile_cons, if_pos due]
      refine iff_of_true (fun same => ?_) rfl
      have shorter := (@List.dropWhile_suffix _ rest
        (fun e => lifespanExpired w.qos.lifespanMs e.pubTimeMs now)).length_le
      rw [same, List.length_cons] at shorter
      omega

theorem replayable_dropped {e : CachedSample} (cached : e ∈ w.history) :
    e ∉ w.replayable now ↔ lifespanExpired w.qos.lifespanMs e.pubTimeMs now = true := by
  simp only [replayable, List.mem_filter, cached, true_and, Bool.not_eq_true', Bool.not_eq_false]

end WriterImpl

/-- All sites agree with `lifespan_expired`. -/
theorem expiresExactly_iff {lifespanMs pubTimeMs now : U64} : ExpiresExactly lifespanMs pubTimeMs now ↔
    (lifespanExpired lifespanMs pubTimeMs now = true ↔ Expired lifespanMs pubTimeMs now) := by
  constructor
  · intro exactly
    let e : CachedSample := ⟨1, pubTimeMs, 0, []⟩
    let w : WriterImpl := { guid := default, topic := [], type := [], qos := { lifespanMs }, history := [e] }
    exact (WriterImpl.replayable_dropped (w := w) List.mem_cons_self).symm.trans
      (exactly.replay w e List.mem_cons_self rfl rfl)
  · intro same
    refine ⟨?_, ?_, ?_, ?_, ?_⟩
    · rintro r writer seq data writerQos sweepNow rfl new
      exact (r.enqueue_dropped now new).trans same
    · rintro r q queued rfl rfl
      exact (r.available_dropped now queued).trans same
    · rintro r q rest front rfl rfl
      exact (r.take_dropped now front).trans same
    · rintro w next sample e rest rfl caches accepted rfl front
      exact (WriterImpl.cacheSample_dropped caches accepted front).trans same
    · rintro w e cached rfl rfl
      exact (WriterImpl.replayable_dropped cached).trans same

/-- Lifespans are exact precisely where the 64-bit sum of publication time and
lifespan is of no consequence, and there a longer one never expires a sample
before a shorter one. -/
theorem lifespan_exact_iff (lifespanMs pubTimeMs now : U64) :
    (ExpiresExactly lifespanMs pubTimeMs now ↔ EndHolds lifespanMs pubTimeMs now) ∧
    (EndHolds lifespanMs pubTimeMs now → lifespanExpired lifespanMs pubTimeMs now = true →
      ∀ shorter : U64, 0 < shorter.toNat → shorter.toNat ≤ lifespanMs.toNat →
        lifespanExpired shorter pubTimeMs now = true) := by
  refine ⟨expiresExactly_iff.trans lifespanExpired_exact_iff, fun holds expired shorter positive le => ?_⟩
  obtain ⟨_, known, past⟩ := (lifespanExpired_exact_iff.mpr holds).mp expired
  have bound := now.isLt
  exact lifespanExpired_iff.mpr ⟨positive, known, (Nat.mod_le _ _).trans (by omega)⟩

/-- The longest lifespan there is ends a sample at once. -/
theorem longest_lifespan_expires_at_once :
    qosValid { lifespanMs := 0xFFFFFFFFFFFFFFFF } = true ∧ ¬ ExpiresExactly 0xFFFFFFFFFFFFFFFF 1000 1000 := by
  refine ⟨by decide, fun exactly => ?_⟩
  have past := ((expiresExactly_iff.mp exactly).mp (by decide)).2.2
  exact absurd past (by decide)

end Mdds
