import Mdds.Discovery
import Mdds.ReceiveWindow
import Mdds.Writer

namespace Mdds

/-- The birth clamp: a volatile reader is not entitled to what was published before it. -/
def EndpointRecord.entitled (readerEp : EndpointRecord) (entry : CachedSample) : Bool :=
  !(readerEp.qos.durability = .volatile && entry.pubTimeUs < readerEp.birthUs)

theorem EndpointRecord.entitled_iff {readerEp : EndpointRecord} {entry : CachedSample} :
    readerEp.entitled entry = true ↔ readerEp.qos.durability ≠ .volatile ∨ readerEp.birthUs ≤ entry.pubTimeUs := by
  by_cases clamped : readerEp.qos.durability = .volatile
  · simp only [entitled, clamped, decide_true, Bool.true_and, Bool.not_eq_true', decide_eq_false_iff_not, BitVec.not_lt,
      ne_eq, not_true_eq_false, false_or]
  · simp [entitled, clamped]

/-- The request covers 64 seqs from its base and leaves out those received. -/
def AckNackBody.Requests (body : AckNackBody) (seq : U64) : Prop :=
  ∃ i ∈ List.range 64, bitSet body.bitmap i = false ∧ seq = body.baseSeq + BitVec.ofNat 64 i

instance (body : AckNackBody) (seq : U64) : Decidable (body.Requests seq) :=
  inferInstanceAs (Decidable (∃ i ∈ List.range 64, bitSet body.bitmap i = false ∧
    seq = body.baseSeq + BitVec.ofNat 64 i))

namespace WriterImpl

/-- The oldest cached seq, 0 for an empty history. -/
def firstAvail (w : WriterImpl) : U64 := (w.history.head?.map CachedSample.seq).getD 0

/-- One turn of the request scan of `handle_acknack`: `acc` holds the samples
to resend and the last seq found unavailable. -/
def scanRequest (w : WriterImpl) (readerEp : EndpointRecord) (body : AckNackBody)
    (acc : List CachedSample × U64) (i : Nat) : List CachedSample × U64 :=
  let seq := body.baseSeq + BitVec.ofNat 64 i
  if bitSet body.bitmap i then acc
  else
    match w.history.find? (fun entry => entry.seq = seq) with
    | some entry => if readerEp.entitled entry then (acc.1 ++ [entry], acc.2) else (acc.1, seq)
    | none => if 0 < w.firstAvail ∧ seq < w.firstAvail then (acc.1, seq) else acc

/-- The scan over `base .. base + 63`: what to resend, and `unavail_end`. -/
def answerAcknack (w : WriterImpl) (readerEp : EndpointRecord) (body : AckNackBody) : List CachedSample × U64 :=
  (List.range 64).foldl (w.scanRequest readerEp body) ([], 0)

/-- The GAP frame sent after the retransmissions, if any seq was unavailable. -/
def answerGap (w : WriterImpl) (readerEp : EndpointRecord) (body : AckNackBody) : Option GapBody :=
  let unavailEnd := (w.answerAcknack readerEp body).2
  if 0 < unavailEnd then some ⟨body.writer, body.reader, body.baseSeq, unavailEnd⟩ else none

variable (w : WriterImpl) (readerEp : EndpointRecord) (body : AckNackBody)

/-- Position `i` of the request is answered by retransmission. -/
def resendAt (i : Nat) : Option CachedSample :=
  if bitSet body.bitmap i then none
  else (w.history.find? (fun entry => entry.seq = body.baseSeq + BitVec.ofNat 64 i)).filter readerEp.entitled

/-- Position `i` asks for a seq this reader will never get. -/
def UnavailableAt (i : Nat) : Prop :=
  bitSet body.bitmap i = false ∧
    match w.history.find? (fun entry => entry.seq = body.baseSeq + BitVec.ofNat 64 i) with
    | some entry => readerEp.entitled entry = false
    | none => 0 < w.firstAvail ∧ body.baseSeq + BitVec.ofNat 64 i < w.firstAvail

theorem scanRequest_resend (acc : List CachedSample × U64) (i : Nat) :
    (w.scanRequest readerEp body acc i).1 = acc.1 ++ (w.resendAt readerEp body i).toList := by
  unfold scanRequest resendAt
  dsimp only
  split
  · simp
  · split
    · rename_i entry found
      split
      · rename_i entitled
        simp [found, Option.filter, entitled]
      · rename_i clamped
        simp [found, Option.filter, clamped]
    · rename_i absent
      split <;> simp [absent]

open Classical in
theorem scanRequest_unavailable (acc : List CachedSample × U64) (i : Nat) :
    (w.scanRequest readerEp body acc i).2 =
      if w.UnavailableAt readerEp body i then body.baseSeq + BitVec.ofNat 64 i else acc.2 := by
  unfold scanRequest UnavailableAt
  dsimp only
  split
  · rename_i received
    simp [received]
  · rename_i requested
    rw [Bool.not_eq_true] at requested
    split
    · rename_i entry _
      by_cases entitled : readerEp.entitled entry = true <;> simp [requested, entitled]
    · simp only [requested, true_and]
      split <;> rfl

/-- The retransmissions are exactly the answered positions, in request order. -/
theorem answerAcknack_resend :
    (w.answerAcknack readerEp body).1 = (List.range 64).filterMap (w.resendAt readerEp body) := by
  have scanned (n : Nat) : ((List.range n).foldl (w.scanRequest readerEp body) ([], 0)).1 =
      (List.range n).filterMap (w.resendAt readerEp body) := by
    induction n with
    | zero => rfl
    | succ n ih =>
      rw [List.range_succ, List.foldl_append, List.filterMap_append, ← ih]
      simp only [List.foldl_cons, List.foldl_nil, scanRequest_resend]
      cases answer : w.resendAt readerEp body n <;> simp [answer]
  exact scanned 64

/-- Only cached samples are resent, on request, to a reader entitled to them. -/
theorem resend_requested {e : CachedSample} (member : e ∈ (w.answerAcknack readerEp body).1) :
    e ∈ w.history ∧ body.Requests e.seq ∧ readerEp.entitled e = true := by
  rw [answerAcknack_resend, List.mem_filterMap] at member
  obtain ⟨i, asked, answer⟩ := member
  unfold resendAt at answer
  split at answer
  · simp at answer
  · rename_i missing
    obtain ⟨found, entitled⟩ := Option.filter_eq_some_iff.mp answer
    have seq := List.find?_some found
    exact ⟨List.mem_of_find?_eq_some found, ⟨i, asked, by simpa using missing, by simpa using seq⟩, entitled⟩

/-- `unavail_end` is the last unavailable seq of the request, 0 without one. -/
theorem answerAcknack_unavailable :
    ((∀ i, i < 64 → ¬ w.UnavailableAt readerEp body i) ∧ (w.answerAcknack readerEp body).2 = 0) ∨
    ∃ j, j < 64 ∧ w.UnavailableAt readerEp body j ∧ (∀ i, i < 64 → w.UnavailableAt readerEp body i → i ≤ j) ∧
      (w.answerAcknack readerEp body).2 = body.baseSeq + BitVec.ofNat 64 j := by
  have scanned (n : Nat) :
      ((∀ i, i < n → ¬ w.UnavailableAt readerEp body i) ∧
        ((List.range n).foldl (w.scanRequest readerEp body) ([], 0)).2 = 0) ∨
      ∃ j, j < n ∧ w.UnavailableAt readerEp body j ∧ (∀ i, i < n → w.UnavailableAt readerEp body i → i ≤ j) ∧
        ((List.range n).foldl (w.scanRequest readerEp body) ([], 0)).2 = body.baseSeq + BitVec.ofNat 64 j := by
    induction n with
    | zero => exact Or.inl ⟨fun i bound => absurd bound (Nat.not_lt_zero i), rfl⟩
    | succ n ih =>
      rw [List.range_succ, List.foldl_append]
      simp only [List.foldl_cons, List.foldl_nil, scanRequest_unavailable]
      by_cases last : w.UnavailableAt readerEp body n
      · rw [if_pos last]
        exact Or.inr ⟨n, by omega, last, fun i bound _ => by omega, rfl⟩
      · rw [if_neg last]
        rcases ih with ⟨none, zero⟩ | ⟨j, bound, here, latest, value⟩
        · refine Or.inl ⟨fun i below => ?_, zero⟩
          by_cases same : i = n
          · exact same ▸ last
          · exact none i (by omega)
        · refine Or.inr ⟨j, by omega, here, fun i below unavailable => ?_, value⟩
          by_cases same : i = n
          · exact absurd (same ▸ unavailable) last
          · exact latest i (by omega) unavailable
  exact scanned 64

theorem Contiguous.increasing {w : WriterImpl} (contiguous : w.Contiguous) :
    w.history.Pairwise (fun e e' => e.seq.toNat < e'.seq.toNat) := by
  have numbered : (w.history.map (fun e => e.seq.toNat)).Pairwise (· < ·) := by
    rw [contiguous.seqs]
    exact List.pairwise_lt_range'
  exact List.pairwise_map.mp numbered

theorem Contiguous.firstAvail_le {w : WriterImpl} (contiguous : w.Contiguous) {e : CachedSample}
    (member : e ∈ w.history) : w.firstAvail.toNat ≤ e.seq.toNat := by
  have increasing := contiguous.increasing
  unfold firstAvail
  cases history : w.history with
  | nil => simp [history] at member
  | cons head rest =>
    rw [history] at member increasing
    rcases List.mem_cons.mp member with rfl | later
    · exact le_rfl
    · exact (List.rel_of_pairwise_cons increasing later).le

theorem Contiguous.le_seq {w : WriterImpl} (contiguous : w.Contiguous) {e : CachedSample} (member : e ∈ w.history) :
    e.seq.toNat ≤ w.seq.toNat :=
  (contiguous.mem_seq.mp ⟨e, member, rfl⟩).2

theorem Contiguous.firstAvail_le_seq {w : WriterImpl} (contiguous : w.Contiguous) :
    w.firstAvail.toNat ≤ w.seq.toNat := by
  unfold firstAvail
  cases history : w.history with
  | nil => exact Nat.zero_le _
  | cons head rest => exact contiguous.le_seq (by simp [history])

/-- No GAP reaches beyond what was written. -/
theorem Contiguous.unavailable_le_seq {w : WriterImpl} (contiguous : w.Contiguous) :
    (w.answerAcknack readerEp body).2.toNat ≤ w.seq.toNat := by
  rcases w.answerAcknack_unavailable readerEp body with ⟨_, zero⟩ | ⟨j, _, ⟨_, cut⟩, _, value⟩
  · rw [zero]
    exact Nat.zero_le _
  · rw [value]
    split at cut
    · rename_i entry found
      have here : entry.seq = body.baseSeq + BitVec.ofNat 64 j := by simpa using List.find?_some found
      exact here ▸ contiguous.le_seq (List.mem_of_find?_eq_some found)
    · have below := BitVec.lt_def.mp cut.2
      have first := contiguous.firstAvail_le_seq
      omega

/-- The GAP does not run backwards as long as the request does not wrap. -/
theorem unavailable_ge_base (room : body.baseSeq.toNat + 63 < 2 ^ 64) (some : 0 < (w.answerAcknack readerEp body).2) :
    body.baseSeq ≤ (w.answerAcknack readerEp body).2 := by
  rcases w.answerAcknack_unavailable readerEp body with ⟨_, zero⟩ | ⟨j, bound, _, _, value⟩
  · rw [zero] at some
    exact absurd some (by decide)
  · rw [value]
    generalize body.baseSeq = base at room ⊢
    bv_omega

/-- A requested seq that was written is either sent again or unavailable. -/
theorem Contiguous.answered {w : WriterImpl} (contiguous : w.Contiguous) (kept : w.history ≠ []) {i : Nat}
    (requested : bitSet body.bitmap i = false)
    (written : (body.baseSeq + BitVec.ofNat 64 i).toNat ≤ w.seq.toNat) :
    (∃ e, w.resendAt readerEp body i = some e ∧ e.seq = body.baseSeq + BitVec.ofNat 64 i) ∨
      w.UnavailableAt readerEp body i := by
  unfold resendAt UnavailableAt
  simp only [requested, Bool.false_eq_true, if_false, true_and]
  cases found : w.history.find? (fun entry => entry.seq = body.baseSeq + BitVec.ofNat 64 i) with
  | some entry =>
    have here : entry.seq = body.baseSeq + BitVec.ofNat 64 i := by simpa using List.find?_some found
    cases entitled : readerEp.entitled entry with
    | true => exact Or.inl ⟨entry, by simp [Option.filter, entitled], here⟩
    | false => exact Or.inr entitled
  | none =>
    -- not cached although written, hence older than the whole history
    obtain ⟨head, rest, history⟩ := List.exists_cons_of_ne_nil kept
    have first : w.firstAvail = head.seq := by simp [firstAvail, history]
    have oldest := (contiguous.mem_seq (s := head.seq.toNat)).mp ⟨head, by simp [history], rfl⟩
    have absent : ¬ (w.seq.toNat < (body.baseSeq + BitVec.ofNat 64 i).toNat + w.history.length ∧
        (body.baseSeq + BitVec.ofNat 64 i).toNat ≤ w.seq.toNat) := by
      rw [← contiguous.mem_seq]
      rintro ⟨e, member, same⟩
      have other := List.find?_eq_none.mp found e member
      exact other (by simpa using BitVec.eq_of_toNat_eq same)
    refine Or.inr ?_
    rw [first, BitVec.lt_def, BitVec.lt_def]
    exact ⟨by change 0 < _; omega, by omega⟩

end WriterImpl

end Mdds
