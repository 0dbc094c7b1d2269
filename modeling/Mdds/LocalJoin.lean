import Mdds.LossAccounting
import Mdds.Replay

namespace Mdds

namespace WriterRxState

theorem receive_next_clear {st : WriterRxState} {seq : U64} (clear : st.window = 0)
    (next : seq.toNat = st.lastSeq.toNat + 1) :
    (st.receive seq).state = ⟨seq, 0⟩ ∧ (st.receive seq).lost = 0 := by
  have moved : st.lastSeq + 1 = seq := by
    have bound := seq.isLt
    bv_omega
  rcases st.receive_cases seq with ⟨stale, _⟩ | ⟨jump, _⟩ | ⟨k, positive, _, at_, _⟩ | ⟨k, positive, _, at_, _⟩ |
    ⟨_, same⟩
  · omega
  · unfold Jumps at jump
    omega
  · omega
  · omega
  · rw [same, clear, moved]
    exact ⟨slide_stop (by simp), rfl⟩

/-- The state of a reader that joined after `n` samples and was then offered
the next `d` in order: it has followed the writer from the start or from a
jump, or it still waits for the samples before its time. -/
structure Joined (n d : Nat) (st : WriterRxState) (lost : U64) : Prop where
  range : st.InRange
  phase : (st.lastSeq.toNat = n + d ∧ st.window = 0 ∧
      ((n = 0 ∧ lost.toNat = 0) ∨ (0 < n ∧ 0 < d ∧ 64 < n + d ∧ lost.toNat = max n 64))) ∨
    (0 < n ∧ (d = 0 ∨ n + d ≤ 64) ∧ st.lastSeq = 0 ∧ lost.toNat = 0 ∧
      ∀ s, st.Settled s ↔ s = 0 ∨ n < s ∧ s ≤ n + d)

theorem Joined.initial (n : Nat) : Joined n 0 {} 0 := by
  refine ⟨inRange_initial, ?_⟩
  by_cases first : n = 0
  · exact Or.inl ⟨by simp [first], rfl, Or.inl ⟨first, rfl⟩⟩
  · refine Or.inr ⟨by omega, Or.inl rfl, rfl, rfl, fun s => ?_⟩
    rw [settled_initial]
    omega

theorem Joined.receive {n d : Nat} {st : WriterRxState} {lost seq : U64} (joined : Joined n d st lost)
    (next : seq.toNat = n + d + 1) : Joined n (d + 1) (st.receive seq).state (lost + (st.receive seq).lost) := by
  refine ⟨receive_inRange joined.range seq, ?_⟩
  rcases joined.phase with ⟨last, clear, count⟩ | ⟨late, near, last, none, settled⟩
  · obtain ⟨state, free⟩ := receive_next_clear clear (by omega : seq.toNat = st.lastSeq.toNat + 1)
    rw [state, free, show lost + 0 = lost from BitVec.add_zero lost]
    refine Or.inl ⟨next, rfl, ?_⟩
    rcases count with ⟨first, zero⟩ | ⟨positive, _, beyond, value⟩
    · exact Or.inl ⟨first, zero⟩
    · exact Or.inr ⟨positive, by omega, by omega, value⟩
  · have zero : st.lastSeq.toNat = 0 := by rw [last]; rfl
    have counted := st.receive_lost seq
    have total : (lost + (st.receive seq).lost).toNat = (st.receive seq).lost.toNat := by
      have nothing : lost = 0 := BitVec.eq_of_toNat_eq none
      rw [nothing]
      exact congrArg BitVec.toNat (BitVec.zero_add _)
    by_cases jump : st.Jumps seq
    · have far := jump
      unfold Jumps at far
      rw [if_pos jump] at counted
      rcases st.receive_cases seq with ⟨stale, _⟩ | ⟨_, same⟩ | ⟨k, _, _, at_, _⟩ | ⟨k, _, _, at_, _⟩ | ⟨only, _⟩
      · omega
      · rw [same] at counted total ⊢
        refine Or.inl ⟨next, rfl, Or.inr ⟨late, by omega, by omega, ?_⟩⟩
        omega
      · omega
      · omega
      · omega
    · have close : seq.toNat ≤ 64 := by
        unfold Jumps at jump
        omega
      rw [if_neg jump] at counted
      refine Or.inr ⟨late, Or.inr (by omega), ?_, by omega, fun s => ?_⟩
      · rcases st.receive_cases seq with ⟨stale, _⟩ | ⟨far, _⟩ | ⟨_, _, _, _, _, same⟩ | ⟨_, _, _, _, _, same⟩ | ⟨only, _⟩
        · omega
        · exact absurd far jump
        · rw [same, last]
        · rw [same, last]
        · omega
      · rw [receive_settled joined.range, settled]
        simp only [jump, false_and, or_false]
        omega

/-- Whether the reader counts a loss depends on nothing but `n` and `d`. -/
theorem Joined.lost_iff {n d : Nat} {st : WriterRxState} {lost : U64} (joined : Joined n d st lost) :
    lost = 0 ↔ n = 0 ∨ d = 0 ∨ n + d ≤ 64 := by
  have zero : lost = 0 ↔ lost.toNat = 0 := ⟨fun same => by rw [same]; rfl, fun same => BitVec.eq_of_toNat_eq same⟩
  rw [zero]
  rcases joined.phase with ⟨_, _, ⟨first, none⟩ | ⟨positive, some, beyond, value⟩⟩ | ⟨late, near, _, none, _⟩
  · simp [first, none]
  · rw [value]
    omega
  · simp only [none, true_iff]
    omega

end WriterRxState

namespace WriterImpl

/-- One `write` call, accepted or refused. -/
def offer (w : WriterImpl) (call : U64 × Bytes × U64) : WriterImpl :=
  ((w.publish call.1 call.2.1 call.2.2).map Prod.fst).getD w

theorem exec_offer {w : WriterImpl} (initially : w.Contiguous) (zero : w.seq = 0) (calls : List (U64 × Bytes × U64))
    (few : calls.length < 2 ^ 64) :
    (Run.exec offer w calls).Contiguous ∧ (Run.exec offer w calls).seq.toNat ≤ calls.length ∧
      (Run.exec offer w calls).record = w.record := by
  induction calls using List.reverseRecOn with
  | nil => exact ⟨initially, by simp [zero], rfl⟩
  | append_singleton calls call ih =>
    rw [List.length_append, List.length_singleton] at few ⊢
    obtain ⟨contiguous, bound, record⟩ := ih (by omega)
    rw [Run.exec_snoc, offer]
    cases result : (Run.exec offer w calls).publish call.1 call.2.1 call.2.2 with
    | none => exact ⟨contiguous, by simp only [Option.map_none, Option.getD_none]; omega, record⟩
    | some pair =>
      have next := (publish_guid result).2.2.2.2
      refine ⟨contiguous.publish (by omega) result, ?_, (publish_record result).trans record⟩
      simp only [Option.map_some, Option.getD_some]
      rw [next]
      bv_omega

end WriterImpl

/-- Live samples are enqueued in the order of their writes, and only calls
that concern no other writer are made on the reader. -/
def LocalEvent.inTurn : LocalEvent → Bool
  | .enqueueLive index _ => index = 0
  | .use op => op.writer? = none
  | _ => true

def LocalEvent.writes : LocalEvent → Bool
  | .write _ _ _ => true
  | _ => false

namespace LocalPair

/-- A volatile reader that joined after `n` writes and was offered `d` of the
later samples; the others wait in order. -/
structure Following (n d : Nat) (l : LocalPair) : Prop where
  offered : l.offered = true
  volatile : l.reader.qos.durability = .volatile
  idle : l.todo = []
  seq : l.writer.seq.toNat = n + d + l.live.length
  live : l.live.map (fun e => e.seq.toNat) = List.range' (n + d + 1) l.live.length
  joined : WriterRxState.Joined n d (l.reader.rxState l.writer.guid) l.reader.lostCount

/-- A call on the reader matters only for what it does to the receive state
and the loss count. -/
theorem Following.call {n d next : Nat} {l : LocalPair} (following : l.Following n d) (op : ReaderOp)
    {rest : List CachedSample} (seq : l.writer.seq.toNat = n + next + rest.length)
    (live : rest.map (fun e => e.seq.toNat) = List.range' (n + next + 1) rest.length)
    (joined : WriterRxState.Joined n next ((l.reader.step op).rxState l.writer.guid) (l.reader.step op).lostCount) :
    ({ l with reader := l.reader.step op, live := rest } : LocalPair).Following n next := by
  obtain ⟨_, topic, type, qos, _, ignoreLocal⟩ := l.reader.step_static op
  refine ⟨?_, ?_, following.idle, seq, live, joined⟩
  · have open_ := following.offered
    simp only [LocalPair.offered] at open_ ⊢
    rw [topic, type, qos, ignoreLocal]
    exact open_
  · rw [qos]
    exact following.volatile

/-- An accepted sample is handed over behind those still waiting. -/
theorem Following.write {n d : Nat} {l : LocalPair} (following : l.Following n d) (pubTimeUs : U64) (data : Bytes)
    (now : U64) (space : l.writer.seq.toNat + 1 < 2 ^ 64) : (l.step (.write pubTimeUs data now)).Following n d := by
  simp only [LocalPair.step, following.idle]
  cases result : l.writer.publish pubTimeUs data now with
  | none => exact following
  | some pair =>
    obtain ⟨next, sample⟩ := pair
    obtain ⟨guid, topic, type, qos, counted⟩ := WriterImpl.publish_guid result
    have moved : (l.writer.seq + 1).toNat = l.writer.seq.toNat + 1 := by bv_omega
    have same := (WriterImpl.publish_cases result).1
    have before := following.seq
    refine ⟨?_, following.volatile, rfl, ?_, ?_, ?_⟩
    · have open_ := following.offered
      simp only [LocalPair.offered] at open_ ⊢
      rw [topic, type, qos]
      exact open_
    · simp only [following.offered, if_true, counted, List.length_append, List.length_singleton, moved]
      omega
    · simp only [following.offered, if_true, List.map_append, List.map_cons, List.map_nil, following.live,
        List.length_append, List.length_singleton, List.range'_concat, same, moved]
      congr 2
      omega
    · have joined := following.joined
      rw [← guid] at joined
      exact joined

theorem Following.enqueueLive {n d : Nat} {l : LocalPair} (following : l.Following n d) (clock : U64 × U64) :
    ∃ next, (l.step (.enqueueLive 0 clock)).Following n next := by
  cases waiting : l.live with
  | nil =>
    refine ⟨d, ?_⟩
    simp only [LocalPair.step, readerOp, waiting, List.getElem?_nil, Option.map_none, Option.toList_none,
      Run.exec_nil, List.eraseIdx_nil]
    exact waiting ▸ following
  | cons e rest =>
    have order := following.live
    have before := following.seq
    rw [waiting] at order before
    simp only [List.map_cons, List.length_cons, List.range'_succ, List.cons.injEq] at order before
    have joined : WriterRxState.Joined n (d + 1) ((l.reader.step (l.enqueueOp e clock)).rxState l.writer.guid)
        (l.reader.step (l.enqueueOp e clock)).lostCount := by
      have received := following.joined.receive order.1
      rw [ReaderImpl.step_rxState]
      simp only [enqueueOp, if_true, ReaderImpl.step, ReaderImpl.enqueue_lostCount]
      exact received
    have called := following.call (l.enqueueOp e clock) (by omega) (order.2.trans (by congr 1)) joined
    refine ⟨d + 1, ?_⟩
    simpa only [LocalPair.step, readerOp, waiting, List.getElem?_cons_zero, Option.map_some, Option.toList_some,
      Run.exec_cons, Run.exec_nil, List.eraseIdx_cons_zero] using called

theorem Following.step {n d : Nat} {l : LocalPair} (following : l.Following n d) {event : LocalEvent}
    (inTurn : event.inTurn = true) (room : event.writes = true → l.writer.seq.toNat + 1 < 2 ^ 64) :
    ∃ next, (l.step event).Following n next := by
  cases event with
  | write pubTimeUs data now => exact ⟨d, following.write pubTimeUs data now (room rfl)⟩
  | enqueueLive index clock =>
    have first : index = 0 := by simpa [LocalEvent.inTurn] using inTurn
    subst first
    exact following.enqueueLive clock
  | register =>
    refine ⟨d, ?_, following.volatile, following.idle, following.seq, following.live, following.joined⟩
    have open_ := following.offered
    simp only [LocalPair.offered, Bool.and_eq_true] at open_ ⊢
    exact ⟨⟨⟨⟨rfl, open_.1.1.1.2⟩, open_.1.1.2⟩, open_.1.2⟩, open_.2⟩
  | replay now =>
    refine ⟨d, ?_⟩
    have refused : l.replays = false := by simp [replays, following.volatile]
    simp only [LocalPair.step, refused, Bool.false_eq_true, and_false, if_false]
    exact following
  | enqueueReplay clock =>
    refine ⟨d, ?_⟩
    have idle := following.idle
    simp only [LocalPair.step, readerOp, idle, List.head?_nil, Option.map_none, Option.toList_none, Run.exec_nil,
      List.tail_nil]
    exact idle ▸ following
  | use op =>
    have quiet : op.writer? = none := by simpa [LocalEvent.inTurn] using inTurn
    refine ⟨d, ?_⟩
    simp only [LocalPair.step, readerOp, quiet, reduceCtorEq, if_false, Option.toList_some, Run.exec_cons, Run.exec_nil]
    refine following.call op following.seq following.live ?_
    have joined := following.joined
    cases op with
    | enqueue => simp [ReaderOp.writer?] at quiet
    | applyGap => simp [ReaderOp.writer?] at quiet
    | take now =>
      rw [ReaderImpl.step_rxState]
      simp only [ReaderImpl.step, ReaderImpl.take_lostCount]
      exact joined
    | available now => exact joined

theorem step_seq_le (l : LocalPair) (event : LocalEvent) :
    (l.step event).writer.seq.toNat ≤ l.writer.seq.toNat + event.writes.toNat := by
  rcases l.step_writer event with same | ⟨_, _, _, _, rfl, accepted⟩
  · rw [same]
    exact Nat.le_add_right _ _
  · exact WriterImpl.publish_seq_le accepted

theorem exec_following {n : Nat} {l : LocalPair} (initially : l.Following n 0) (events : List LocalEvent)
    (inTurn : ∀ event ∈ events, event.inTurn = true)
    (few : l.writer.seq.toNat + events.countP LocalEvent.writes < 2 ^ 64) :
    ∃ d, (Run.exec LocalPair.step l events).Following n d := by
  refine @Run.invariant_within _ _ LocalPair.step (fun l => l.writer.seq.toNat) _ (fun l => ∃ d, l.Following n d) _ _ _
    step_seq_le ?_ few ⟨0, initially⟩
  rintro l event inside ⟨d, following⟩ room
  exact following.step (inTurn event inside) room

/-- A local volatile reader that joins after the `n`-th write and is offered
`k` later samples in order counts no loss exactly when `n` or `k` is zero or
all seqs fit into its first window. -/
theorem messagesLost_iff {w : WriterImpl} {r : ReaderImpl} (fresh : r.rx = fun _ => none) (unharmed : r.lostCount = 0)
    (volatile : r.qos.durability = .volatile) (included : r.ignoreLocal = false)
    (accepted : endpointsMatch r.topic r.type r.qos w.record = true) (events : List LocalEvent)
    (inTurn : ∀ event ∈ events, event.inTurn = true)
    (few : w.seq.toNat + events.countP LocalEvent.writes < 2 ^ 64) :
    let l := Run.exec LocalPair.step { writer := w, reader := r, registered := true } events
    let k := l.writer.seq.toNat - w.seq.toNat - l.live.length
    l.reader.messagesLost = 0 ↔ w.seq.toNat = 0 ∨ k = 0 ∨ w.seq.toNat + k ≤ 64 := by
  intro l k
  have initially : ({ writer := w, reader := r, registered := true } : LocalPair).Following w.seq.toNat 0 := by
    simp only [endpointsMatch, WriterImpl.record, Bool.and_eq_true] at accepted
    obtain ⟨⟨topics, types⟩, offers⟩ := accepted
    have topic := of_decide_eq_true topics
    have type := of_decide_eq_true types
    refine ⟨?_, volatile, rfl, rfl, rfl, ?_⟩
    · simp only [LocalPair.offered, included, topic, type, offers, decide_true, Bool.not_false, Bool.and_self]
    · have none : r.rxState w.guid = {} := by simp [ReaderImpl.rxState, fresh]
      simp only [none, unharmed]
      exact WriterRxState.Joined.initial _
  obtain ⟨d, following⟩ := exec_following initially events inTurn few
  change l.Following w.seq.toNat d at following
  have counted := following.seq
  have same : k = d := by
    change l.writer.seq.toNat - w.seq.toNat - l.live.length = d
    omega
  rw [same]
  exact following.joined.lost_iff

end LocalPair

end Mdds
