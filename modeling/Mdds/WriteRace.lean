import Mathlib.Data.List.Pairwise
import Mdds.Lib.Run
import Mdds.Participant

namespace Mdds

namespace WriterImpl

/-- What a writer promises about its GAPs, whatever ACKNACK a discovered
reader sends: publication times follow the seqs, and the declared range
covers no cached sample the reader may still get. -/
structure GapSound (w : WriterImpl) : Prop where
  monotone : ∀ e ∈ w.history, ∀ e' ∈ w.history, e.seq ≤ e'.seq → e.pubTimeUs ≤ e'.pubTimeUs
  range : ∀ (p : Participant) body gap, p.findWriter body.writer = some w → Frame.gap gap ∈ p.handleAcknack body →
    ∃ readerEp, p.findRemoteEndpoint body.reader = some readerEp ∧
      ∀ e ∈ w.history, gap.gapStart ≤ e.seq → e.seq ≤ gap.gapEnd → readerEp.entitled e = true →
        bitSet body.bitmap (e.seq - body.baseSeq).toNat = true

/-- The cached samples that one more write leaves in the history. -/
def survivors (w : WriterImpl) (now : U64) : List CachedSample :=
  (w.history.drop (w.history.length + 1 - w.historyCap)).dropWhile
    (fun e => lifespanExpired w.qos.lifespanMs e.pubTimeMs now)

/-- The last unavailable seq of a request has nothing the reader may get
below it, because eviction and the birth clamp both cut off a front part of
the history. -/
theorem Contiguous.not_entitled {w : WriterImpl} (contiguous : w.Contiguous)
    (monotone : ∀ e ∈ w.history, ∀ e' ∈ w.history, e.seq ≤ e'.seq → e.pubTimeUs ≤ e'.pubTimeUs)
    {readerEp : EndpointRecord} {body : AckNackBody} {j : Nat} {e : CachedSample}
    (unavailable : w.UnavailableAt readerEp body j) (member : e ∈ w.history)
    (below : e.seq ≤ body.baseSeq + BitVec.ofNat 64 j) : readerEp.entitled e = false := by
  have cut := unavailable.2
  split at cut
  · rename_i last found
    have here : last.seq = body.baseSeq + BitVec.ofNat 64 j := by simpa using List.find?_some found
    have order := monotone e member last (List.mem_of_find?_eq_some found) (here ▸ below)
    simp only [EndpointRecord.entitled, Bool.not_eq_false', Bool.and_eq_true, decide_eq_true_eq] at cut ⊢
    refine ⟨cut.1, ?_⟩
    have late := cut.2
    rw [BitVec.lt_def] at late ⊢
    rw [BitVec.le_def] at order
    omega
  · have first := contiguous.firstAvail_le member
    have evicted := BitVec.lt_def.mp cut.2
    have low := BitVec.le_def.mp below
    omega

theorem monotone_of_pairwise {history : List CachedSample}
    (increasing : history.Pairwise (fun e e' => e.seq.toNat < e'.seq.toNat))
    (ordered : history.Pairwise (fun e e' => e.pubTimeUs ≤ e'.pubTimeUs)) :
    ∀ e ∈ history, ∀ e' ∈ history, e.seq ≤ e'.seq → e.pubTimeUs ≤ e'.pubTimeUs := by
  induction history with
  | nil => exact fun _ member => absurd member List.not_mem_nil
  | cons head rest ih =>
    intro e member e' member' order
    rcases List.mem_cons.mp member with rfl | later
    · rcases List.mem_cons.mp member' with rfl | later'
      · exact BitVec.le_refl _
      · exact List.rel_of_pairwise_cons ordered later'
    · rcases List.mem_cons.mp member' with rfl | later'
      · have above := List.rel_of_pairwise_cons increasing later
        have low := BitVec.le_def.mp order
        omega
      · exact ih increasing.of_cons ordered.of_cons e later e' later' order

theorem gapSound_iff {w : WriterImpl} (contiguous : w.Contiguous) :
    w.GapSound ↔ w.history.Pairwise (fun e e' => e.pubTimeUs ≤ e'.pubTimeUs) := by
  constructor
  · intro sound
    refine List.Pairwise.imp_of_mem (fun member member' order => ?_) contiguous.increasing
    exact sound.monotone _ member _ member' (BitVec.le_def.mpr order.le)
  · intro ordered
    have monotone := monotone_of_pairwise contiguous.increasing ordered
    refine ⟨monotone, ?_⟩
    intro p body gap found emitted
    unfold Participant.handleAcknack at emitted
    rw [found] at emitted
    cases discovered : p.findRemoteEndpoint body.reader with
    | none => simp [discovered] at emitted
    | some readerEp =>
      refine ⟨readerEp, rfl, fun e member start stop entitled => ?_⟩
      have answered : w.answerGap readerEp body = some gap := by simpa [discovered] using emitted
      unfold answerGap at answered
      dsimp only at answered
      split at answered
      · cases Option.some.inj answered
        rcases w.answerAcknack_unavailable readerEp body with ⟨_, zero⟩ | ⟨j, _, unavailable, _, value⟩
        · rename_i positive _
          rw [zero] at positive
          exact absurd positive (by decide)
        · rw [value] at stop
          rw [contiguous.not_entitled monotone unavailable member stop] at entitled
          exact absurd entitled (by decide)
      · simp at answered

theorem publish_isSome (w : WriterImpl) (pubTimeUs now : U64) (data : Bytes) :
    (w.publish pubTimeUs data now).isSome = true ↔
      (w.caches = true → ¬ (w.qos.history = .keepAll ∧ w.historyCap ≤ w.history.length)) := by
  rw [publish, Option.isSome_map, cacheSample]
  cases caches : w.caches with
  | false => simp
  | true =>
    simp only [Bool.not_true, Bool.false_eq_true, if_false]
    split
    · rename_i full
      simp [full]
    · rename_i room
      simp [room]

theorem publish_history {w next : WriterImpl} {pubTimeUs now : U64} {data : Bytes} {sample : CachedSample}
    (caches : w.caches = true) (accepted : w.publish pubTimeUs data now = some (next, sample)) :
    next.history = (w.survivors now ++ [sample]) ∨
      w.survivors now = [] ∧ next.history = [] := by
  obtain ⟨cached, run, same⟩ := Option.map_eq_some_iff.mp accepted
  obtain ⟨rfl, made⟩ := Prod.mk.inj same
  rw [made] at run
  simp only [cacheSample, caches, Bool.not_true, Bool.false_eq_true, if_false] at run
  split at run
  · simp at run
  · cases Option.some.inj run
    have capacity : 0 < w.historyCap := by
      unfold historyCap kKeepAllCap
      split <;> omega
    have room : w.history.length + 1 - w.historyCap ≤ w.history.length := by omega
    simp only [List.length_append, List.length_singleton, List.drop_append_of_le_length room, List.dropWhile_append]
    rw [show List.dropWhile _ (List.drop (w.history.length + 1 - w.historyCap) w.history) = w.survivors now from rfl]
    cases kept : w.survivors now with
    | nil =>
      by_cases expired : lifespanExpired w.qos.lifespanMs sample.pubTimeMs now = true
      · exact Or.inr ⟨rfl, by simp [List.dropWhile, expired]⟩
      · exact Or.inl (by simp [List.dropWhile, expired])
    | cons head rest => exact Or.inl (by simp)

end WriterImpl

/-- Concurrent `write` calls on one writer: a call reads the clock, then
waits for the participant lock with that reading. -/
structure WriteRace where
  clock : U64 := 0
  waiting : List (U64 × Bytes) := []
  writer : WriterImpl

inductive WriteEvent
  | tick (later : U64)
  | readClock (data : Bytes)
  | lock (call : Nat)

def WriteEvent.locks : WriteEvent → Bool
  | .lock _ => true
  | _ => false

namespace WriteRace

def step (s : WriteRace) : WriteEvent → WriteRace
  | .tick later => { s with clock := if s.clock ≤ later then later else s.clock }
  | .readClock data => { s with waiting := s.waiting ++ [(s.clock, data)] }
  | .lock call =>
    match s.waiting[call]? with
    | none => s
    | some (pubTimeUs, data) =>
      { s with
        waiting := s.waiting.eraseIdx call
        writer := ((s.writer.publish pubTimeUs data (s.clock / 1000)).map Prod.fst).getD s.writer }

/-- A write that is going to be cached read the clock no earlier than any
write whose sample stays cached beside it. -/
def InOrder (s : WriteRace) : WriteEvent → Prop
  | .lock call => ∀ pubTimeUs data, s.waiting[call]? = some (pubTimeUs, data) → s.writer.caches = true →
      ¬ (s.writer.qos.history = .keepAll ∧ s.writer.historyCap ≤ s.writer.history.length) →
      ∀ e ∈ s.writer.survivors (s.clock / 1000), e.pubTimeUs ≤ pubTimeUs
  | _ => True

theorem step_writer (s : WriteRace) (event : WriteEvent) :
    (s.step event).writer = s.writer ∨
    ∃ call pubTimeUs data sample, event = .lock call ∧ s.waiting[call]? = some (pubTimeUs, data) ∧
      s.writer.publish pubTimeUs data (s.clock / 1000) = some ((s.step event).writer, sample) := by
  cases event with
  | tick later => exact Or.inl rfl
  | readClock data => exact Or.inl rfl
  | lock call =>
    unfold step
    cases found : s.waiting[call]? with
    | none => exact Or.inl (by simp [found])
    | some entry =>
      obtain ⟨pubTimeUs, data⟩ := entry
      cases result : s.writer.publish pubTimeUs data (s.clock / 1000) with
      | none => exact Or.inl (by simp only [found, result, Option.map_none, Option.getD_none])
      | some pair =>
        refine Or.inr ⟨call, pubTimeUs, data, pair.2, rfl, found, ?_⟩
        simp only [found, result, Option.map_some, Option.getD_some]

theorem step_seq_le (s : WriteRace) (event : WriteEvent) :
    (s.step event).writer.seq.toNat ≤ s.writer.seq.toNat + event.locks.toNat := by
  rcases step_writer s event with same | ⟨call, pubTimeUs, data, sample, rfl, _, accepted⟩
  · rw [same]
    exact Nat.le_add_right _ _
  · exact WriterImpl.publish_seq_le accepted

theorem exec_contiguous {s : WriteRace} (initially : s.writer.Contiguous) (events : List WriteEvent)
    (few : s.writer.seq.toNat + events.countP WriteEvent.locks < 2 ^ 64) :
    (Run.exec step s events).writer.Contiguous := by
  refine @Run.invariant_within _ _ step (fun s => s.writer.seq.toNat) _ (fun s => s.writer.Contiguous) _ _ _ step_seq_le
    (fun s event _ contiguous room => ?_) few initially
  rcases step_writer s event with same | ⟨call, pubTimeUs, data, sample, rfl, _, accepted⟩
  · rw [same]
    exact contiguous
  · exact contiguous.publish (room rfl) accepted

/-- From ordered publication times, a step keeps them ordered exactly when
it is in order. -/
theorem step_ordered_iff {s : WriteRace} {event : WriteEvent}
    (ordered : s.writer.history.Pairwise (fun e e' => e.pubTimeUs ≤ e'.pubTimeUs))
    (contiguous : s.writer.Contiguous) :
    (s.step event).writer.history.Pairwise (fun e e' => e.pubTimeUs ≤ e'.pubTimeUs) ↔ s.InOrder event := by
  cases event with
  | tick later => exact iff_of_true ordered trivial
  | readClock data => exact iff_of_true ordered trivial
  | lock call =>
    cases found : s.waiting[call]? with
    | none =>
      refine iff_of_true (by simpa only [step, found] using ordered) ?_
      intro _ _ waiting
      simp [found] at waiting
    | some entry =>
      obtain ⟨pubTimeUs, data⟩ := entry
      have admitted := s.writer.publish_isSome pubTimeUs (s.clock / 1000) data
      have inOrder : s.InOrder (.lock call) ↔ (s.writer.caches = true →
          ¬ (s.writer.qos.history = .keepAll ∧ s.writer.historyCap ≤ s.writer.history.length) →
          ∀ e ∈ s.writer.survivors (s.clock / 1000), e.pubTimeUs ≤ pubTimeUs) := by
        simp [InOrder, found]
      rw [inOrder]
      simp only [step, found]
      clear inOrder
      generalize s.clock / 1000 = now at admitted ⊢
      cases result : s.writer.publish pubTimeUs data now with
      | none =>
        -- a refused write changes nothing
        refine iff_of_true ?_ (fun caches room => ?_)
        · simpa only [Option.map_none, Option.getD_none] using ordered
        · rw [result] at admitted
          exact absurd (admitted.mpr (fun _ => room)) (by simp)
      | some pair =>
        obtain ⟨next, sample⟩ := pair
        simp only [Option.map_some, Option.getD_some]
        rw [result] at admitted
        obtain ⟨same, ⟨silent, rfl⟩ | ⟨caches, _⟩⟩ := WriterImpl.publish_cases result
        · simp [silent, contiguous.cached silent]
        · have room := admitted.mp rfl caches
          simp only [caches, room, not_false_eq_true, true_imp_iff]
          have kept : (s.writer.survivors now).Pairwise (fun e e' => e.pubTimeUs ≤ e'.pubTimeUs) :=
            ordered.sublist ((List.dropWhile_sublist _).trans (List.drop_sublist _ _))
          rcases WriterImpl.publish_history caches result with grown | ⟨empty, cleared⟩
          · rw [grown, List.pairwise_append]
            simp [kept, same]
          · simp [empty, cleared]

/-- Along every interleaving of fewer than `2 ^ 64` writes, the publication
times stay monotone and the GAPs sound exactly when no write overtakes an
earlier clock reading on the way to the lock. -/
theorem gap_sound_iff (guid : Guid) (topic type : Bytes) (qos : QosProfile) (birthUs clock : U64)
    (events : List WriteEvent) (few : events.countP WriteEvent.locks < 2 ^ 64) :
    let start : WriteRace := { clock, writer := { guid, topic, type, qos, birthUs } }
    (∀ first, first <+: events → (Run.exec step start first).writer.GapSound) ↔
      Run.Along step InOrder start events := by
  intro start
  have contiguous : ∀ first, first <+: events → (Run.exec step start first).writer.Contiguous := by
    intro first isPrefix
    have fewer : first.countP WriteEvent.locks ≤ events.countP WriteEvent.locks := isPrefix.sublist.countP_le
    have unwritten : start.writer.seq.toNat = 0 := rfl
    exact exec_contiguous (WriterImpl.Contiguous.initial ..) first (by omega)
  refine @Run.always_iff_along _ _ step (fun s => s.writer.GapSound) _ _ _ ?_ ?_
  · intro first event isPrefix sound
    have before := contiguous first ((List.prefix_append ..).trans isPrefix)
    have after := contiguous (first ++ [event]) isPrefix
    rw [Run.exec_snoc] at after
    rw [WriterImpl.gapSound_iff after]
    exact step_ordered_iff ((WriterImpl.gapSound_iff before).mp (sound first (List.prefix_refl _))) before
  · exact (WriterImpl.gapSound_iff (WriterImpl.Contiguous.initial ..)).mpr List.Pairwise.nil

/-- Two writes read the clock at 5 and 6 and take the lock in the other
order. A volatile reader born at 6 then asks for both seqs: seq 1, which it
is entitled to, lies inside the GAP sent for seq 2. -/
theorem gap_covers_entitled_sample :
    let start : WriteRace := { writer := { guid := default, topic := [], type := [], qos := {} } }
    let events : List WriteEvent := [.tick 5, .readClock [], .tick 6, .readClock [], .lock 1, .lock 0]
    let p : Participant :=
      { owner := ⟨List.replicate 12 0, rfl⟩
        guid := default
        writers := [(0, (Run.exec step start events).writer)]
        remote := [(default, ⟨0, 1, ⟨default, [], [⟨default, .reader, [], [], {}, 6⟩]⟩, 0⟩)] }
    Frame.gap ⟨default, default, 1, 2⟩ ∈ p.handleAcknack ⟨default, default, 1, 0⟩ ∧
      ¬ ∀ first, first <+: events → (Run.exec step start first).writer.GapSound := by
  intro start events p
  have named : (Run.exec step start events).writer.guid = default := by decide
  have found : p.findWriter default = some (Run.exec step start events).writer := by
    simp [p, Participant.findWriter, named]
  have gap : (Run.exec step start events).writer.answerGap ⟨default, .reader, [], [], {}, 6⟩
      ⟨default, default, 1, 0⟩ = some ⟨default, default, 1, 2⟩ := by decide
  have discovered : p.findRemoteEndpoint default = some ⟨default, .reader, [], [], {}, 6⟩ := by
    simp [p, Participant.findRemoteEndpoint]
  have sent : Frame.gap ⟨default, default, 1, 2⟩ ∈ p.handleAcknack ⟨default, default, 1, 0⟩ := by
    simp only [Participant.handleAcknack, found, discovered, gap]
    simp
  refine ⟨sent, fun sound => ?_⟩
  obtain ⟨readerEp, here, covered⟩ := (sound events (List.prefix_refl _)).range p ⟨default, default, 1, 0⟩
    ⟨default, default, 1, 2⟩ found sent
  cases Option.some.inj (discovered.symm.trans here)
  have marked := covered ⟨1, 0, 6, []⟩ (by decide) (by decide) (by decide) (by decide)
  exact absurd marked (by decide)

theorem gap_sound_in_turn :
    (Run.exec step { writer := { guid := default, topic := [], type := [], qos := {} } }
      [.tick 5, .readClock [], .tick 6, .readClock [], .lock 0, .lock 0]).writer.GapSound := by
  refine (gap_sound_iff default [] [] {} 0 0
    [.tick 5, .readClock [], .tick 6, .readClock [], .lock 0, .lock 0] (by decide)).mpr ?_ _ (List.prefix_refl _)
  refine ⟨trivial, trivial, trivial, trivial, ?_, ?_, trivial⟩
  · intro pubTimeUs data waiting _ _ e member
    simp [step, WriterImpl.survivors] at member
  · intro pubTimeUs data waiting _ _ e member
    cases waiting
    revert e
    decide

end WriteRace

end Mdds
