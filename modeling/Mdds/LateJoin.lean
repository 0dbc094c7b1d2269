import Mdds.LocalJoin
import Mdds.NackRound

namespace Mdds

/-- A link whose two wires deliver every frame once and in order: `read` and
`answered` count the frames taken off them. -/
structure FifoLink where
  link : Link
  read : Nat := 0
  answered : Nat := 0

inductive FifoEvent
  | write (pubTimeUs : U64) (data : Bytes) (now : U64)
  | heartbeat
  | assertLiveliness
  | read (clock : U64 × U64)
  | answer
  | take (now : U64)
  | available (now : U64)

def FifoEvent.writes : FifoEvent → Bool
  | .write _ _ _ => true
  | _ => false

/-- The frame carries seq `t`. -/
def Frame.Carries (t : Nat) : Frame → Prop
  | .data _ e _ => e.seq.toNat = t
  | _ => False

/-- On a wire in order, the seqs below this bound went ahead of the frame. -/
def Frame.bound : Frame → Nat
  | .data _ e _ => e.seq.toNat
  | .gap body => body.gapEnd.toNat + 1
  | _ => 0

/-- The frame is one of this writer to this reader, and a GAP is not void. -/
def Frame.Between (writer reader : Guid) : Frame → Prop
  | .data w _ _ => w = writer
  | .gap body => body.writer = writer ∧ body.reader = reader ∧ body.gapStart ≤ body.gapEnd
  | _ => True

namespace FifoLink

/-- The baseline of the reader. -/
def last (f : FifoLink) : Nat := (f.link.reader.rxState f.link.writer.guid).lastSeq.toNat

def event (f : FifoLink) : FifoEvent → LinkEvent
  | .write pubTimeUs data now => .write pubTimeUs data now
  | .heartbeat => .heartbeat
  | .assertLiveliness => .assertLiveliness
  | .read clock => .toReader f.read clock
  | .answer => .toWriter f.answered
  | .take now => .use (.take now)
  | .available now => .use (.available now)

def step (f : FifoLink) (event : FifoEvent) : FifoLink where
  link := f.link.step (f.event event)
  read := match event with
    | .read _ => min (f.read + 1) f.link.toReader.length
    | _ => f.read
  answered := match event with
    | .answer => min (f.answered + 1) f.link.toWriter.length
    | _ => f.answered

/-- While seqs from before its time are outstanding, a reader that joined
after `n` writes meets no sample beyond its window, and a GAP only as the
very first thing. -/
def MeetsCleanly (n : Nat) (f : FifoLink) : Frame → Prop
  | .data _ e _ => f.last < n → e.seq.toNat ≤ f.last + 64
  | .gap body => f.link.reader.rx f.link.writer.guid = none ∨ n ≤ f.last ∨ body.gapEnd.toNat ≤ f.last
  | _ => True

def JoinsCleanly (n : Nat) (f : FifoLink) : FifoEvent → Prop
  | .read _ => Run.Lift (MeetsCleanly n) f f.link.toReader[f.read]?
  | _ => True

instance (n : Nat) (f : FifoLink) : ∀ frame, Decidable (f.MeetsCleanly n frame)
  | .data _ e _ => inferInstanceAs (Decidable (f.last < n → e.seq.toNat ≤ f.last + 64))
  | .gap body => inferInstanceAs (Decidable (_ ∨ n ≤ f.last ∨ body.gapEnd.toNat ≤ f.last))
  | .announce _ _ => isTrue trivial
  | .acknack _ => isTrue trivial
  | .heartbeat _ => isTrue trivial

instance (n : Nat) (f : FifoLink) : ∀ event, Decidable (f.JoinsCleanly n event)
  | .read _ => inferInstanceAs (Decidable (Run.Lift _ _ _))
  | .write _ _ _ => isTrue trivial
  | .heartbeat => isTrue trivial
  | .assertLiveliness => isTrue trivial
  | .answer => isTrue trivial
  | .take _ => isTrue trivial
  | .available _ => isTrue trivial

/-- What in-order delivery to a reader that joined after `n` writes keeps, as
long as it joins cleanly. -/
structure InStep (n : Nat) (f : FifoLink) : Prop where
  within : f.link.WithinWritten
  low : f.link.GapsStartLow
  known : f.link.writerKnown = true
  accepted : endpointsMatch f.link.reader.topic f.link.reader.type f.link.reader.qos f.link.writer.record = true
  between : ∀ frame ∈ f.link.toReader, frame.Between f.link.writer.guid f.link.reader.guid
  sent : ∀ t, n < t → t ≤ f.link.writer.seq.toNat → ∃ frame ∈ f.link.toReader, frame.Carries t
  ordered : ∀ p frame, f.link.toReader[p]? = some frame → ∀ t, n < t → t < frame.bound →
    ∃ earlier ∈ f.link.toReader.take p, earlier.Carries t
  read : f.read ≤ f.link.toReader.length
  settled : ∀ t, ∀ frame ∈ f.link.toReader.take f.read, frame.Carries t → f.link.reader.Settled f.link.writer.guid t
  clear : (f.link.reader.rxState f.link.writer.guid).window.getLsbD 0 = false

/-- Once the baseline has passed the seqs from before its time, a reader is
never ahead of the frame it reads next. -/
theorem InStep.bound_le {n : Nat} {f : FifoLink} (inv : f.InStep n) (past : n ≤ f.last) {frame : Frame}
    (found : f.link.toReader[f.read]? = some frame) : frame.bound ≤ f.last + 1 := by
  by_contra beyond
  obtain ⟨earlier, member, carries⟩ := inv.ordered f.read frame found (f.last + 1) (by omega) (by omega)
  have settled := inv.settled (f.last + 1) earlier member carries
  have bit : (f.link.reader.rxState f.link.writer.guid).window.getLsbD 0 = true := SeqWindow.holds_bit.mp settled
  rw [inv.clear] at bit
  exact absurd bit (by decide)

theorem InStep.read_data {n : Nat} {f : FifoLink} (inv : f.InStep n) {writer : Guid} {e : CachedSample}
    {reliableFlag : Bool} (found : f.link.toReader[f.read]? = some (.data writer e reliableFlag)) (clock : U64 × U64) :
    f.link.readerOp (.toReader f.read clock) =
      some (.enqueue f.link.writer.guid e.seq e.data f.link.writer.qos e.pubTimeMs clock.1 clock.2) := by
  have named : writer = f.link.writer.guid := inv.between _ (List.mem_of_getElem? found)
  simp only [Link.readerOp, found, Option.bind_some, Link.frameOp, inv.known, named, inv.accepted, and_self, if_true]

theorem InStep.read_gap {n : Nat} {f : FifoLink} (inv : f.InStep n) {body : GapBody}
    (found : f.link.toReader[f.read]? = some (.gap body)) (clock : U64 × U64) :
    f.link.readerOp (.toReader f.read clock) =
      some (.applyGap f.link.writer.guid body.gapStart body.gapEnd) := by
  obtain ⟨writer, reader, order⟩ := inv.between _ (List.mem_of_getElem? found)
  have valid : ¬ body.gapEnd < body.gapStart := by
    rw [BitVec.lt_def]
    have ascending := BitVec.le_def.mp order
    omega
  simp only [Link.readerOp, found, Option.bind_some, Link.frameOp, valid, reader, ne_eq, not_true, or_self, if_false,
    writer]

theorem zero_add_eq_zero {x : U64} : 0 + x = 0 ↔ x.toNat = 0 := by
  rw [show (0 : U64) + x = x from BitVec.zero_add x]
  exact ⟨fun same => by rw [same]; rfl, fun same => BitVec.eq_of_toNat_eq same⟩

theorem lost_enqueue {r : ReaderImpl} (unharmed : r.lostCount = 0) {writer : Guid} {seq : U64} {data : Bytes}
    {writerQos : QosProfile} {pubTimeMs now sweepNow : U64} :
    (r.step (.enqueue writer seq data writerQos pubTimeMs now sweepNow)).lostCount = 0 ↔
      seq.toNat ≤ (r.rxState writer).lastSeq.toNat + 64 := by
  have counted := (r.rxState writer).receive_lost seq
  rw [ReaderImpl.step, ReaderImpl.enqueue_lostCount, unharmed, zero_add_eq_zero, counted]
  by_cases jump : (r.rxState writer).Jumps seq
  · rw [if_pos jump]
    unfold WriterRxState.Jumps at jump
    omega
  · rw [if_neg jump]
    unfold WriterRxState.Jumps at jump
    omega

theorem lost_applyGap {r : ReaderImpl} (unharmed : r.lostCount = 0) {writer : Guid}
    (clear : (r.rxState writer).window.getLsbD 0 = false) {gapStart gapEnd : U64} :
    (r.step (.applyGap writer gapStart gapEnd)).lostCount = 0 ↔
      r.rx writer = none ∨ gapEnd.toNat ≤ (r.rxState writer).lastSeq.toNat := by
  simp only [ReaderImpl.step, ReaderImpl.applyGap]
  cases found : r.rx writer with
  | none => simp [unharmed]
  | some st =>
    have state : r.rxState writer = st := by simp [ReaderImpl.rxState, found]
    rw [state] at clear ⊢
    have counted := st.passGap_lost gapEnd
    simp only [unharmed, reduceCtorEq, false_or]
    rw [zero_add_eq_zero, counted]
    constructor
    · intro free
      by_contra beyond
      -- the seq right above the baseline is missing and would be counted
      have missing : st.lastSeq.toNat + 1 ∈ st.missingUpTo gapEnd.toNat := by
        refine WriterRxState.mem_missingUpTo.mpr ⟨by omega, fun settled => ?_⟩
        rw [WriterRxState.Settled, SeqWindow.holds_bit (i := 0), clear] at settled
        exact absurd settled (by decide)
      exact absurd (List.eq_nil_of_length_eq_zero free ▸ missing) List.not_mem_nil
    · intro old
      have none : gapEnd.toNat - st.lastSeq.toNat = 0 := by omega
      simp [WriterRxState.missingUpTo, none]

/-- From a sound state, the loss count stays zero exactly when the event is
a clean one. -/
theorem InStep.lost_iff {n : Nat} {f : FifoLink} (inv : f.InStep n) (unharmed : f.link.reader.lostCount = 0)
    (event : FifoEvent) : (f.step event).link.reader.lostCount = 0 ↔ f.JoinsCleanly n event := by
  change (f.link.step (f.event event)).reader.lostCount = 0 ↔ _
  rw [Link.step_reader]
  cases event with
  | read clock =>
    simp only [FifoLink.event, JoinsCleanly]
    cases found : f.link.toReader[f.read]? with
    | none => simpa [Link.readerOp, found, Run.Lift] using unharmed
    | some frame =>
      cases frame with
      | data writer e reliableFlag =>
        rw [inv.read_data found clock]
        simp only [Option.toList_some, Run.exec_cons, Run.exec_nil, Run.Lift, MeetsCleanly]
        rw [lost_enqueue unharmed]
        by_cases past : n ≤ f.last
        · have reached : e.seq.toNat ≤ f.last + 1 := inv.bound_le past found
          unfold last at reached past
          exact iff_of_true (by omega) (fun before => by unfold last at before; omega)
        · exact ⟨fun near _ => near, fun clean => clean (Nat.lt_of_not_le past)⟩
      | gap body =>
        rw [inv.read_gap found clock]
        simp only [Option.toList_some, Run.exec_cons, Run.exec_nil, Run.Lift, MeetsCleanly]
        rw [lost_applyGap unharmed inv.clear]
        refine or_congr_right' (fun _ => ⟨Or.inr, ?_⟩)
        rintro (past | old)
        · have reached : body.gapEnd.toNat + 1 ≤ f.last + 1 := inv.bound_le past found
          exact Nat.le_of_succ_le_succ reached
        · exact old
      | announce snap announceSeq => simpa [Link.readerOp, found, Link.frameOp, Run.Lift, MeetsCleanly] using unharmed
      | acknack body => simpa [Link.readerOp, found, Link.frameOp, Run.Lift, MeetsCleanly] using unharmed
      | heartbeat body => simpa [Link.readerOp, found, Link.frameOp, Run.Lift, MeetsCleanly] using unharmed
  | write pubTimeUs data now => simpa [FifoLink.event, Link.readerOp, JoinsCleanly] using unharmed
  | heartbeat => simpa [FifoLink.event, Link.readerOp, JoinsCleanly] using unharmed
  | assertLiveliness => simpa [FifoLink.event, Link.readerOp, JoinsCleanly] using unharmed
  | answer => simpa [FifoLink.event, Link.readerOp, JoinsCleanly] using unharmed
  | take now =>
    have kept : (f.link.reader.step (.take now)).lostCount = f.link.reader.lostCount :=
      f.link.reader.take_lostCount now
    simpa [FifoLink.event, Link.readerOp, ReaderOp.writer?, JoinsCleanly, kept] using unharmed
  | available now =>
    have kept : (f.link.reader.step (.available now)).lostCount = f.link.reader.lostCount := rfl
    simpa [FifoLink.event, Link.readerOp, ReaderOp.writer?, JoinsCleanly, kept] using unharmed

/-- The fields that do not depend on what the reader does. -/
theorem InStep.wire {n : Nat} {f : FifoLink} (inv : f.InStep n) (room : f.link.writer.seq.toNat + 65 < 2 ^ 64)
    (event : LinkEvent) :
    (∀ frame ∈ (f.link.step event).toReader, frame.Between f.link.writer.guid f.link.reader.guid) ∧
    (∀ t, n < t → t ≤ (f.link.step event).writer.seq.toNat →
      ∃ frame ∈ (f.link.step event).toReader, frame.Carries t) ∧
    (∀ p frame, (f.link.step event).toReader[p]? = some frame → ∀ t, n < t → t < frame.bound →
      ∃ earlier ∈ (f.link.step event).toReader.take p, earlier.Carries t) := by
  obtain ⟨added, extends_⟩ := f.link.step_extends event
  refine ⟨fun frame member => ?_, fun t above below => ?_, fun p frame found t above below => ?_⟩
  · rcases f.link.step_sends member with old | ⟨_, rfl⟩ | ⟨e, rfl, _⟩ | ⟨nack, asked, ⟨writer, reader⟩, gap, rfl, answered⟩
    · exact inv.between frame old
    · trivial
    · exact rfl
    · obtain ⟨start, sameWriter, stop, sameReader, positive⟩ := Link.answerGap_start answered
      refine ⟨sameWriter.trans writer, sameReader.trans reader, ?_⟩
      have base := inv.low.asked nack asked
      have written := inv.within.settled _ (WriterRxState.settled_of_le le_rfl)
      rw [writer] at base
      rw [start, stop]
      exact f.link.writer.unavailable_ge_base _ _ (by omega) (stop ▸ positive)
  · by_cases old : t ≤ f.link.writer.seq.toNat
    · obtain ⟨frame, member, carries⟩ := inv.sent t above old
      exact ⟨frame, extends_ ▸ List.mem_append_left _ member, carries⟩
    · rcases f.link.step_writer event with same | ⟨pubTimeUs, data, now, sample, rfl, accepted⟩
      · rw [same] at below
        exact absurd below old
      · have next := (WriterImpl.publish_guid accepted).2.2.2.2
        rw [next] at below
        rw [f.link.step_write_sends accepted, (WriterImpl.publish_cases accepted).1]
        refine ⟨_, List.mem_append_right _ (List.mem_singleton.mpr rfl), ?_⟩
        change (f.link.writer.seq + 1).toNat = t
        have moved : (f.link.writer.seq + 1).toNat = f.link.writer.seq.toNat + 1 := by bv_omega
        omega
  · rw [← extends_] at found ⊢
    by_cases old : p < f.link.toReader.length
    · rw [List.getElem?_append_left old] at found
      rw [List.take_append_of_le_length old.le]
      exact inv.ordered p frame found t above below
    · -- whatever is put on the wire lies behind all samples written so far
      have whole : ∀ earlier ∈ f.link.toReader, earlier ∈ (f.link.toReader ++ added).take p := by
        intro earlier member
        rw [List.take_append, List.take_of_length_le (Nat.le_of_not_lt old)]
        exact List.mem_append_left _ member
      have behind (reached : t ≤ f.link.writer.seq.toNat) :
          ∃ earlier ∈ (f.link.toReader ++ added).take p, earlier.Carries t := by
        obtain ⟨earlier, member, carries⟩ := inv.sent t above reached
        exact ⟨earlier, whole earlier member, carries⟩
      have member : frame ∈ (f.link.step event).toReader := extends_ ▸ List.mem_of_getElem? found
      rcases f.link.step_sends member with again | ⟨_, rfl⟩ | ⟨e, rfl, source⟩ | ⟨nack, _, _, gap, rfl, answered⟩
      · obtain ⟨q, first⟩ := List.getElem?_of_mem again
        obtain ⟨earlier, inside, carries⟩ := inv.ordered q frame first t above below
        exact ⟨earlier, whole earlier (List.mem_of_mem_take inside), carries⟩
      · exact absurd below (Nat.not_lt_zero t)
      · change t < e.seq.toNat at below
        rcases source with cached | ⟨pubTimeUs, data, now, _, accepted⟩
        · have written := inv.within.contiguous.le_seq cached
          exact behind (by omega)
        · have value : e.seq = f.link.writer.seq + 1 := by rw [(WriterImpl.publish_cases accepted).1]
          have moved : (f.link.writer.seq + 1).toNat = f.link.writer.seq.toNat + 1 := by bv_omega
          rw [value, moved] at below
          exact behind (by omega)
      · change t < gap.gapEnd.toNat + 1 at below
        have written := inv.within.contiguous.unavailable_le_seq f.link.reader.record nack
        rw [← (Link.answerGap_start answered).2.2.1] at written
        exact behind (by omega)

theorem step_known (f : FifoLink) (event : FifoEvent) :
    (f.link.step (f.event event)).writerKnown = f.link.writerKnown := by
  cases event with
  | write pubTimeUs data now =>
    simp only [FifoLink.event, Link.step]
    split <;> rfl
  | heartbeat =>
    simp only [FifoLink.event, Link.step]
    split <;> rfl
  | read clock =>
    simp only [FifoLink.event, Link.step]
    split <;> rfl
  | answer =>
    simp only [FifoLink.event, Link.step]
    split <;> rfl
  | take now => rfl
  | available now => rfl
  | assertLiveliness => rfl

theorem step_read_toReader (l : Link) (index : Nat) (clock : U64 × U64) :
    (l.step (.toReader index clock)).toReader = l.toReader := by
  simp only [Link.step]
  split <;> rfl

/-- What has been read is settled, and the seq above the baseline is not. -/
structure CaughtUp (writer : Guid) (f : FifoLink) : Prop where
  settled : ∀ t, ∀ frame ∈ f.link.toReader.take f.read, frame.Carries t → f.link.reader.Settled writer t
  clear : (f.link.reader.rxState writer).window.getLsbD 0 = false

theorem InStep.kept {n : Nat} {f : FifoLink} (inv : f.InStep n) (event : FifoEvent) {t : Nat}
    (settled : f.link.reader.Settled f.link.writer.guid t) :
    (f.step event).link.reader.Settled f.link.writer.guid t := by
  change (f.link.step (f.event event)).reader.Settled _ t
  rw [f.link.step_reader (f.event event)]
  exact ReaderImpl.settled_exec inv.within.range _ settled

/-- An event that takes nothing off the wire and leaves the receive state alone. -/
theorem InStep.reader_quiet {n : Nat} {f : FifoLink} (inv : f.InStep n) {event : FifoEvent}
    (read : (f.step event).read = f.read)
    (state : (f.link.step (f.event event)).reader.rxState f.link.writer.guid =
      f.link.reader.rxState f.link.writer.guid) : (f.step event).CaughtUp f.link.writer.guid := by
  refine ⟨fun t frame member carries => inv.kept event (inv.settled t frame ?_ carries), ?_⟩
  · obtain ⟨added, extends_⟩ := f.link.step_extends (f.event event)
    change frame ∈ (f.link.step (f.event event)).toReader.take _ at member
    rwa [← extends_, read, List.take_append_of_le_length inv.read] at member
  · change ((f.link.step (f.event event)).reader.rxState _).window.getLsbD 0 = false
    rw [state]
    exact inv.clear

/-- Reading one frame adds what that frame carries. -/
theorem InStep.reader_frame {n : Nat} {f : FifoLink} (inv : f.InStep n) {clock : U64 × U64} {frame : Frame}
    (found : f.link.toReader[f.read]? = some frame)
    (arrives : ∀ t, frame.Carries t → (f.link.step (.toReader f.read clock)).reader.Settled f.link.writer.guid t)
    (clear : ((f.link.step (.toReader f.read clock)).reader.rxState f.link.writer.guid).window.getLsbD 0 = false) :
    (f.step (.read clock)).CaughtUp f.link.writer.guid := by
  have inside : f.read < f.link.toReader.length := (List.getElem?_eq_some_iff.mp found).1
  have taken : (f.step (.read clock)).link.toReader.take (f.step (.read clock)).read =
      f.link.toReader.take f.read ++ [frame] := by
    change (f.link.step (.toReader f.read clock)).toReader.take (min (f.read + 1) f.link.toReader.length) = _
    rw [step_read_toReader, Nat.min_eq_left inside, List.take_add_one, found]
    rfl
  refine ⟨fun t other member carries => ?_, clear⟩
  rw [taken] at member
  rcases List.mem_append.mp member with before | here
  · exact inv.kept _ (inv.settled t other before carries)
  · exact arrives t (List.mem_singleton.mp here ▸ carries)

theorem InStep.read_none {n : Nat} {f : FifoLink} (inv : f.InStep n) (clock : U64 × U64)
    (found : f.link.toReader[f.read]? = none) : (f.step (.read clock)).CaughtUp f.link.writer.guid := by
  have stop := List.getElem?_eq_none_iff.mp found
  have bound := inv.read
  refine inv.reader_quiet ?_ ?_
  · change min (f.read + 1) f.link.toReader.length = f.read
    omega
  · rw [Link.step_reader]
    simp [FifoLink.event, Link.readerOp, found]

theorem InStep.read_some {n : Nat} {f : FifoLink} (inv : f.InStep n) {clock : U64 × U64} {frame : Frame}
    (clean : f.MeetsCleanly n frame) (found : f.link.toReader[f.read]? = some frame) :
    (f.step (.read clock)).CaughtUp f.link.writer.guid := by
  have moved := f.link.step_reader (.toReader f.read clock)
  -- frames of the other kinds are nothing to the reader
  have silent (none : f.link.frameOp clock frame = none) (empty : ∀ t, ¬ frame.Carries t) :
      (f.step (.read clock)).CaughtUp f.link.writer.guid := by
    refine inv.reader_frame found (fun t carries => absurd carries (empty t)) ?_
    rw [moved, Link.readerOp, found, Option.bind_some, none]
    exact inv.clear
  cases frame with
  | data writer e reliableFlag =>
    rw [inv.read_data found clock] at moved
    refine inv.reader_frame found (fun t carries => ?_) ?_
    · have arrives : (ReaderOp.enqueue f.link.writer.guid e.seq e.data f.link.writer.qos e.pubTimeMs clock.1
          clock.2).Carries f.link.writer.guid t := ⟨rfl, carries⟩
      rw [moved]
      exact ReaderImpl.settled_of_carries inv.within.range arrives
    · rw [moved, Option.toList_some, Run.exec_cons, Run.exec_nil, ReaderImpl.step_rxState]
      simp only [if_true]
      exact WriterRxState.receive_first_clear e.seq inv.clear
  | gap body =>
    rw [inv.read_gap found clock] at moved
    refine inv.reader_frame found (fun t carries => carries.elim) ?_
    rw [moved, Option.toList_some, Run.exec_cons, Run.exec_nil, ReaderImpl.step_rxState]
    simp only [if_true]
    rcases (f.link.reader.rxState f.link.writer.guid).passGap_cases body.gapEnd with ⟨_, same⟩ | ⟨above, state, _⟩
    · rw [same]
      exact inv.clear
    · rcases clean with first | past | old
      · have none : f.link.reader.rxState f.link.writer.guid = {} := by simp [ReaderImpl.rxState, first]
        rw [state, none]
        simp
      · have reached : body.gapEnd.toNat + 1 ≤ f.last + 1 := inv.bound_le past found
        unfold last at reached
        omega
      · unfold last at old
        omega
  | announce snap announceSeq => exact silent rfl (fun _ => id)
  | acknack body => exact silent rfl (fun _ => id)
  | heartbeat body => exact silent rfl (fun _ => id)

theorem InStep.reader {n : Nat} {f : FifoLink} (inv : f.InStep n) {event : FifoEvent}
    (clean : f.JoinsCleanly n event) : (f.step event).CaughtUp f.link.writer.guid := by
  have moved := f.link.step_reader (f.event event)
  cases event with
  | read clock =>
    cases found : f.link.toReader[f.read]? with
    | none => exact inv.read_none clock found
    | some frame =>
      rw [JoinsCleanly, found] at clean
      exact inv.read_some clean found
  | write pubTimeUs data now => exact inv.reader_quiet rfl (by rw [moved]; rfl)
  | heartbeat => exact inv.reader_quiet rfl (by rw [moved]; rfl)
  | assertLiveliness => exact inv.reader_quiet rfl (by rw [moved]; rfl)
  | answer => exact inv.reader_quiet rfl (by rw [moved]; rfl)
  | take now =>
    refine inv.reader_quiet rfl ?_
    rw [moved]
    exact f.link.reader.step_rxState (.take now) _
  | available now => exact inv.reader_quiet rfl (by rw [moved]; rfl)

theorem InStep.step {n : Nat} {f : FifoLink} (inv : f.InStep n) (room : f.link.writer.seq.toNat + 65 < 2 ^ 64)
    {event : FifoEvent} (clean : f.JoinsCleanly n event) : (f.step event).InStep n := by
  obtain ⟨writer, reader⟩ := f.link.step_record (f.event event)
  obtain ⟨guid, _⟩ := WriterImpl.of_record writer
  obtain ⟨rguid, topic, type, qos⟩ := ReaderImpl.of_record reader
  obtain ⟨between, sent, ordered⟩ := inv.wire room (f.event event)
  obtain ⟨settled, clear⟩ := inv.reader clean
  refine ⟨inv.within.step (fun _ => by omega), inv.low.step _, (f.step_known event).trans inv.known, ?_, ?_, sent,
    ordered, ?_, ?_, ?_⟩
  · change endpointsMatch (f.link.step (f.event event)).reader.topic (f.link.step (f.event event)).reader.type
      (f.link.step (f.event event)).reader.qos (f.link.step (f.event event)).writer.record = true
    rw [topic, type, qos, writer]
    exact inv.accepted
  · intro frame member
    change frame.Between (f.link.step (f.event event)).writer.guid (f.link.step (f.event event)).reader.guid
    rw [guid, rguid]
    exact between frame member
  · have longer := (f.link.step_extends (f.event event)).length_le
    have bound := inv.read
    cases event with
    | read clock => exact (Nat.min_le_right _ _).trans longer
    | write => exact bound.trans longer
    | heartbeat => exact bound.trans longer
    | assertLiveliness => exact bound.trans longer
    | answer => exact bound.trans longer
    | take => exact bound.trans longer
    | available => exact bound.trans longer
  · change ∀ t, ∀ frame ∈ _, _ → (f.step event).link.reader.Settled (f.link.step (f.event event)).writer.guid t
    rw [guid]
    exact settled
  · change ((f.step event).link.reader.rxState (f.link.step (f.event event)).writer.guid).window.getLsbD 0 = false
    rw [guid]
    exact clear

theorem step_seq_le (f : FifoLink) (event : FifoEvent) :
    (f.step event).link.writer.seq.toNat ≤ f.link.writer.seq.toNat + event.writes.toNat := by
  have same : (f.event event).writes = event.writes := by cases event <;> rfl
  rw [← same]
  exact f.link.step_seq_le (f.event event)

theorem exec_seq_le (f : FifoLink) (events : List FifoEvent) :
    (Run.exec FifoLink.step f events).link.writer.seq.toNat ≤
      f.link.writer.seq.toNat + events.countP FifoEvent.writes :=
  @Run.exec_measure_le _ _ FifoLink.step (fun f => f.link.writer.seq.toNat) _ step_seq_le f events

/-- A remote reader that joins after `n` writes and is served in order counts
no loss exactly when it joins cleanly. -/
theorem messagesLost_iff {n : Nat} {f : FifoLink} (initially : f.InStep n) (unharmed : f.link.reader.lostCount = 0)
    (events : List FifoEvent)
    (few : f.link.writer.seq.toNat + events.countP FifoEvent.writes + 65 < 2 ^ 64) :
    (∀ first, first <+: events → (Run.exec FifoLink.step f first).link.reader.messagesLost = 0) ↔
      Run.Along FifoLink.step (JoinsCleanly n) f events := by
  have sound : ∀ first, first <+: events →
      (∀ earlier, earlier <+: first → (Run.exec FifoLink.step f earlier).link.reader.messagesLost = 0) →
      (Run.exec FifoLink.step f first).InStep n := by
    intro first isPrefix good
    induction first using List.reverseRecOn with
    | nil => exact initially
    | append_singleton first event ih =>
      have before := (List.prefix_append first [event])
      have inv := ih (before.trans isPrefix) (fun earlier inside => good earlier (inside.trans before))
      have zero := good first before
      have after := good (first ++ [event]) (List.prefix_refl _)
      rw [Run.exec_snoc] at after ⊢
      have count : first.countP FifoEvent.writes ≤ events.countP FifoEvent.writes :=
        (before.trans isPrefix).sublist.countP_le
      have bound := f.exec_seq_le first
      exact inv.step (by omega) ((inv.lost_iff zero event).mp after)
  refine @Run.always_iff_along _ _ FifoLink.step (fun f => f.link.reader.messagesLost = 0) _ _ _ ?_ unharmed
  intro first event isPrefix good
  have inv := sound first ((List.prefix_append ..).trans isPrefix) good
  exact inv.lost_iff (good first (List.prefix_refl _)) event

end FifoLink

/-- Joining after the first `n` writes, with everything later delivered in
order: a local reader counts no loss exactly when `n` or the number `k` of
later samples is zero or all seqs fit into the first window, a remote reader
exactly when it joins cleanly. -/
theorem late_join_lossless_iff (wguid rguid : Guid) (wtopic wtype rtopic rtype : Bytes) (wqos rqos : QosProfile)
    (wbirthUs rbirthUs : U64) (calls : List (U64 × Bytes × U64)) (volatile : rqos.durability = .volatile)
    (accepted : endpointsMatch rtopic rtype rqos ⟨wguid, .writer, wtopic, wtype, wqos, wbirthUs⟩ = true) :
    let created : WriterImpl := { guid := wguid, topic := wtopic, type := wtype, qos := wqos, birthUs := wbirthUs }
    let w := Run.exec WriterImpl.offer created calls
    let n := w.seq.toNat
    let r := ReaderImpl.create rguid rtopic rtype rqos false rbirthUs
    (∀ events : List LocalEvent, (∀ event ∈ events, event.inTurn = true) →
      calls.length + events.countP LocalEvent.writes < 2 ^ 64 →
      let l := Run.exec LocalPair.step { writer := w, reader := r, registered := true } events
      let k := l.writer.seq.toNat - n - l.live.length
      (l.reader.messagesLost = 0 ↔ n = 0 ∨ k = 0 ∨ n + k ≤ 64)) ∧
    (∀ events : List FifoEvent, calls.length + events.countP FifoEvent.writes + 65 < 2 ^ 64 →
      let start : FifoLink := { link := { writer := w, reader := r, readerKnown := true, writerKnown := true } }
      ((∀ first, first <+: events → (Run.exec FifoLink.step start first).link.reader.messagesLost = 0) ↔
        Run.Along FifoLink.step (FifoLink.JoinsCleanly n) start events)) := by
  intro created w n r
  have written (few : calls.length < 2 ^ 64) : w.Contiguous ∧ w.seq.toNat ≤ calls.length ∧ w.record = created.record :=
    WriterImpl.exec_offer (WriterImpl.Contiguous.initial ..) rfl calls few
  refine ⟨fun events inTurn few => ?_, fun events few => ?_⟩
  · obtain ⟨_, bound, record⟩ := written (by omega)
    exact LocalPair.messagesLost_iff rfl rfl volatile rfl (record ▸ accepted) events inTurn (by omega)
  · obtain ⟨contiguous, bound, record⟩ := written (by omega)
    intro start
    have range : ∀ g, (r.rxState g).InRange := fun g => ReaderImpl.exec_inRange rfl [] g
    have initially : start.InStep n := by
      refine ⟨⟨contiguous, range, fun _ _ _ none => absurd none List.not_mem_nil,
        fun _ none => absurd none List.not_mem_nil, fun s settled => ?_⟩, ⟨range, fun _ none => absurd none List.not_mem_nil,
        fun _ none => absurd none List.not_mem_nil⟩, rfl, record ▸ accepted, fun _ none => absurd none List.not_mem_nil,
        fun t above below => ?_, fun p frame found => ?_, Nat.zero_le _, fun t frame member => ?_, ?_⟩
      · rw [WriterRxState.settled_initial.mp settled]
        exact Nat.zero_le _
      · exact absurd (above.trans_le below) (lt_irrefl _)
      · simp [start] at found
      · simp [start] at member
      · change (({} : WriterRxState).window).getLsbD 0 = false
        simp
    exact FifoLink.messagesLost_iff initially rfl events (by change w.seq.toNat + _ + 65 < _; omega)

/-- A local reader that joins after 64 writes counts all of them lost with
the next sample; a remote one that joins after a single write counts it lost
when the GAP answers the request its first sample provokes. -/
theorem late_join_counts_history_lost :
    let kept : WriterImpl := { guid := default, topic := [], type := [], qos := { history := .keepAll } }
    let r := ReaderImpl.create default [] [] {} false 2
    (Run.exec LocalPair.step
      { writer := Run.exec WriterImpl.offer kept (List.replicate 64 (1, [], 0)), reader := r, registered := true }
      [.write 3 [] 0, .enqueueLive 0 (0, 0)]).reader.messagesLost = 64 ∧
    (Run.exec FifoLink.step
      { link := { writer := Run.exec WriterImpl.offer kept [(1, [], 0)], reader := r, readerKnown := true,
                  writerKnown := true } }
      [.write 3 [] 0, .read (0, 0), .answer, .read (0, 0)]).link.reader.messagesLost = 1 := by
  decide +kernel

/-- One earlier write does no harm when the next sample is tracked locally,
or when the HEARTBEAT exchange sets the join baseline before it arrives. -/
theorem late_join_lossless_early :
    let kept : WriterImpl := { guid := default, topic := [], type := [], qos := { history := .keepAll } }
    let w := Run.exec WriterImpl.offer kept [(1, [], 0)]
    let r := ReaderImpl.create default [] [] {} false 2
    (Run.exec LocalPair.step { writer := w, reader := r, registered := true }
      [.write 3 [] 0, .enqueueLive 0 (0, 0)]).reader.messagesLost = 0 ∧
    (Run.exec FifoLink.step { link := { writer := w, reader := r, readerKnown := true, writerKnown := true } }
      [.heartbeat, .read (0, 0), .answer, .read (0, 0), .write 3 [] 0, .read (0, 0)]).link.reader.messagesLost = 0 := by
  intro kept w r
  have lossless := late_join_lossless_iff default default [] [] [] [] { history := .keepAll } {} 0 2 [(1, [], 0)] rfl
    (by decide)
  refine ⟨?_, ?_⟩
  · exact (lossless.1 [.write 3 [] 0, .enqueueLive 0 (0, 0)] (by decide) (by decide)).mpr (by decide)
  · exact (lossless.2 [.heartbeat, .read (0, 0), .answer, .read (0, 0), .write 3 [] 0, .read (0, 0)] (by decide)).mpr
      (by decide) _ (List.prefix_refl _)

end Mdds
