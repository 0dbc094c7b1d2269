import Mathlib.Order.Interval.Finset.Nat
import Mdds.Lib.PairCount
import Mdds.ReaderRun

namespace Mdds
open BigOperators

namespace ReaderImpl

/-- The seqs an operation adds to `messages_lost`: the whole hole below a
jump, and the seqs of a GAP that were not received, unless the GAP only sets
the join baseline. -/
def charged (r : ReaderImpl) : ReaderOp → List (Guid × Nat)
  | .enqueue writer seq _ _ _ _ _ =>
    let last := (r.rxState writer).lastSeq.toNat
    if (r.rxState writer).Jumps seq then (List.range' (last + 1) (seq.toNat - last - 1)).map (writer, ·) else []
  | .applyGap writer _ gapEnd =>
    match r.rx writer with
    | none => []
    | some st => (st.missingUpTo gapEnd.toNat).map (writer, ·)
  | _ => []

abbrev chargedIn (r : ReaderImpl) (ops : List ReaderOp) : List (Guid × Nat) := Run.log step charged r ops

/-- The join baseline an operation sets: a GAP applied without receive state. -/
def joined (r : ReaderImpl) : ReaderOp → List (Guid × Nat)
  | .applyGap writer _ gapEnd => if r.rx writer = none then [(writer, gapEnd.toNat)] else []
  | _ => []

abbrev joinedIn (r : ReaderImpl) (ops : List ReaderOp) : List (Guid × Nat) := Run.log step joined r ops

/-- The end of the GAP that was applied before any state for the writer
existed, and 0 without such a GAP. -/
def joinBase (r : ReaderImpl) (ops : List ReaderOp) (g : Guid) : Nat := ((r.joinedIn ops).lookup g).getD 0

def writersIn (ops : List ReaderOp) : Finset Guid := (ops.filterMap ReaderOp.writer?).toFinset

variable {r : ReaderImpl}

theorem step_lostCount (r : ReaderImpl) (op : ReaderOp) :
    (r.step op).lostCount.toNat = (r.lostCount.toNat + (r.charged op).length) % 2 ^ 64 := by
  cases op with
  | enqueue writer seq data writerQos pubTimeMs now sweepNow =>
    rw [step, enqueue_lostCount, BitVec.toNat_add, WriterRxState.receive_lost]
    simp only [charged]
    split <;> simp
  | applyGap writer gapStart gapEnd =>
    simp only [step, applyGap, charged]
    cases r.rx writer with
    | none => simp [Nat.mod_eq_of_lt r.lostCount.isLt]
    | some st => simp only [BitVec.toNat_add, WriterRxState.passGap_lost, List.length_map]
  | take now => simp [step, take_lostCount, charged, Nat.mod_eq_of_lt r.lostCount.isLt]
  | available now => simp [step, available, charged, Nat.mod_eq_of_lt r.lostCount.isLt]

theorem exec_lostCount (zero : r.lostCount = 0) (ops : List ReaderOp) :
    (Run.exec step r ops).lostCount.toNat = (r.chargedIn ops).length % 2 ^ 64 := by
  induction ops using List.reverseRecOn with
  | nil => simp [zero]
  | append_singleton ops op ih =>
    rw [Run.exec_snoc, step_lostCount, ih]
    simp only [chargedIn, Run.log_snoc, List.length_append]
    omega

/-- Charged seqs are given up, hence settled from then on. -/
theorem charged_givesUp {op : ReaderOp} {g : Guid} {s : Nat} (member : (g, s) ∈ r.charged op) :
    r.GivesUp g s op := by
  cases op with
  | enqueue writer seq data writerQos pubTimeMs now sweepNow =>
    simp only [charged] at member
    split at member
    · rename_i jump
      obtain ⟨x, inside, same⟩ := List.mem_map.mp member
      obtain ⟨rfl, rfl⟩ := Prod.mk.inj same
      rw [List.mem_range'_1] at inside
      exact ⟨rfl, jump, by omega⟩
    · exact absurd member List.not_mem_nil
  | applyGap writer gapStart gapEnd =>
    simp only [charged] at member
    split at member
    · exact absurd member List.not_mem_nil
    · obtain ⟨x, inside, same⟩ := List.mem_map.mp member
      obtain ⟨rfl, rfl⟩ := Prod.mk.inj same
      exact ⟨rfl, (WriterRxState.mem_missingUpTo.mp inside).1⟩
  | take now => exact absurd member List.not_mem_nil
  | available now => exact absurd member List.not_mem_nil

/-- Nothing is given up silently: what was not settled before is charged, or
covered by the join baseline. -/
theorem GivesUp.accounted {op : ReaderOp} {g : Guid} {s : Nat} (gives : r.GivesUp g s op) :
    r.Settled g s ∨ (g, s) ∈ r.charged op ∨ ∃ stop, (g, stop) ∈ r.joined op ∧ s ≤ stop := by
  cases op with
  | enqueue writer seq data writerQos pubTimeMs now sweepNow =>
    obtain ⟨rfl, jump, below⟩ := gives
    by_cases low : s ≤ (r.rxState writer).lastSeq.toNat
    · exact Or.inl (WriterRxState.settled_of_le low)
    · refine Or.inr (Or.inl ?_)
      simp only [charged, if_pos jump]
      refine List.mem_map.mpr ⟨s, ?_, rfl⟩
      rw [List.mem_range'_1]
      omega
  | applyGap writer gapStart gapEnd =>
    obtain ⟨rfl, below⟩ := gives
    cases found : r.rx writer with
    | none => exact Or.inr (Or.inr ⟨gapEnd.toNat, by simp [joined, found], below⟩)
    | some st =>
      by_cases settled : st.Settled s
      · left
        simpa [Settled, rxState, found] using settled
      · refine Or.inr (Or.inl ?_)
        simp only [charged, found]
        exact List.mem_map.mpr ⟨s, WriterRxState.mem_missingUpTo.mpr ⟨below, settled⟩, rfl⟩
  | take now => exact gives.elim
  | available now => exact gives.elim

theorem exec_accounted (fresh : r.rx = fun _ => none) (ops : List ReaderOp) {g : Guid} {s : Nat}
    (settled : (Run.exec step r ops).Settled g s) :
    s = 0 ∨ (g, s) ∈ r.acceptedIn ops ∨ (g, s) ∈ r.chargedIn ops ∨ ∃ stop, (g, stop) ∈ r.joinedIn ops ∧ s ≤ stop := by
  induction ops using List.reverseRecOn with
  | nil =>
    rcases (exec_settled fresh [] g s).mp settled with zero | member | given
    · exact Or.inl zero
    · exact absurd member List.not_mem_nil
    · exact given.elim
  | append_singleton ops op ih =>
    rw [Run.exec_snoc] at settled
    have earlier (old : (Run.exec step r ops).Settled g s) : s = 0 ∨ (g, s) ∈ r.acceptedIn (ops ++ [op]) ∨
        (g, s) ∈ r.chargedIn (ops ++ [op]) ∨ ∃ stop, (g, stop) ∈ r.joinedIn (ops ++ [op]) ∧ s ≤ stop := by
      simp only [acceptedIn, chargedIn, joinedIn, Run.log_snoc, List.mem_append]
      rcases ih old with zero | taken | lost | ⟨stop, join, below⟩
      · exact Or.inl zero
      · exact Or.inr (Or.inl (Or.inl taken))
      · exact Or.inr (Or.inr (Or.inl (Or.inl lost)))
      · exact Or.inr (Or.inr (Or.inr ⟨stop, Or.inl join, below⟩))
    rcases (step_settled (exec_inRange fresh ops) op g s).mp settled with old | taken | gives
    · exact earlier old
    · refine Or.inr (Or.inl ?_)
      rw [acceptedIn, Run.log_snoc]
      exact List.mem_append_right _ taken
    · rcases gives.accounted with old | lost | ⟨stop, join, below⟩
      · exact earlier old
      · refine Or.inr (Or.inr (Or.inl ?_))
        rw [chargedIn, Run.log_snoc]
        exact List.mem_append_right _ lost
      · refine Or.inr (Or.inr (Or.inr ⟨stop, ?_, below⟩))
        rw [joinedIn, Run.log_snoc]
        exact List.mem_append_right _ join

/-- Receive state, once there, stays. -/
theorem step_rx_some {op : ReaderOp} {g : Guid} (state : r.rx g ≠ none) : (r.step op).rx g ≠ none := by
  cases op with
  | enqueue writer seq data writerQos pubTimeMs now sweepNow =>
    rw [step, enqueue_rx]
    by_cases same : g = writer
    · subst same; simp
    · simpa [same] using state
  | applyGap writer gapStart gapEnd =>
    simp only [step, applyGap]
    by_cases same : g = writer
    · subst same
      split <;> simp
    · split <;> simpa [same] using state
  | take now => simpa [step, take_rx] using state
  | available now => exact state

theorem joinedIn_rx {ops : List ReaderOp} {g : Guid} {stop : Nat} (join : (g, stop) ∈ r.joinedIn ops) :
    (Run.exec step r ops).rx g ≠ none := by
  induction ops using List.reverseRecOn with
  | nil => exact absurd join List.not_mem_nil
  | append_singleton ops op ih =>
    rw [joinedIn, Run.log_snoc, List.mem_append] at join
    rw [Run.exec_snoc]
    rcases join with earlier | now
    · exact step_rx_some (ih earlier)
    · cases op with
      | applyGap writer gapStart gapEnd =>
        simp only [joined] at now
        split at now
        · rename_i absent
          obtain ⟨rfl, _⟩ := Prod.mk.inj (List.mem_singleton.mp now)
          simp [step, applyGap, absent]
        · exact absurd now List.not_mem_nil
      | enqueue => exact absurd now List.not_mem_nil
      | take => exact absurd now List.not_mem_nil
      | available => exact absurd now List.not_mem_nil

/-- The join baseline of a writer is set at most once. -/
theorem joinBase_eq {ops : List ReaderOp} {g : Guid} {stop : Nat} (join : (g, stop) ∈ r.joinedIn ops) :
    r.joinBase ops g = stop := by
  induction ops using List.reverseRecOn with
  | nil => exact absurd join List.not_mem_nil
  | append_singleton ops op ih =>
    simp only [joinBase, joinedIn, Run.log_snoc, List.lookup_append, List.mem_append] at join ⊢
    rcases join with earlier | now
    · have found := ih earlier
      unfold joinBase at found
      cases first : (r.joinedIn ops).lookup g with
      | some value => simpa [joinedIn, first] using found
      | none => exact absurd earlier (fun member => by simpa using List.lookup_eq_none_iff.mp first _ member)
    · cases op with
      | applyGap writer gapStart gapEnd =>
        simp only [joined] at now
        split at now
        · rename_i absent
          obtain ⟨rfl, rfl⟩ := Prod.mk.inj (List.mem_singleton.mp now)
          have first : (r.joinedIn ops).lookup g = none := by
            refine List.lookup_eq_none_iff.mpr (fun entry member => ?_)
            rw [bne_iff_ne]
            rintro rfl
            have stays : (entry.1, entry.2) ∈ r.joinedIn ops := member
            exact joinedIn_rx stays absent
          rw [joinedIn] at first
          simp [first, joined, absent]
        · exact absurd now List.not_mem_nil
      | enqueue => exact absurd now List.not_mem_nil
      | take => exact absurd now List.not_mem_nil
      | available => exact absurd now List.not_mem_nil

/-- No silent skip: between the join baseline and the current baseline every
seq was accepted or is counted in `messages_lost`. -/
theorem no_silent_skip (guid : Guid) (topic type : Bytes) (qos : QosProfile) (ignoreLocal : Bool)
    (birthUs : U64) (ops : List ReaderOp)
    (total : ((create guid topic type qos ignoreLocal birthUs).chargedIn ops).length < 2 ^ 64) :
    let start := create guid topic type qos ignoreLocal birthUs
    let r := Run.exec step start ops
    r.messagesLost.toNat = (start.chargedIn ops).length ∧
    (∀ g s, start.joinBase ops g < s → s ≤ (r.rxState g).lastSeq.toNat →
      (g, s) ∈ start.acceptedIn ops ∨ (g, s) ∈ start.chargedIn ops) ∧
    ∀ writers : Finset Guid,
      ∑ g ∈ writers, ((Finset.Ioc (start.joinBase ops g) (r.rxState g).lastSeq.toNat).filter
        (fun s => (g, s) ∉ start.acceptedIn ops)).card ≤ r.messagesLost.toNat := by
  intro start r
  have fresh : start.rx = fun _ => none := rfl
  have lost : r.messagesLost.toNat = (start.chargedIn ops).length :=
    (exec_lostCount (r := start) rfl ops).trans (Nat.mod_eq_of_lt total)
  have accounted : ∀ g s, start.joinBase ops g < s → s ≤ (r.rxState g).lastSeq.toNat →
      (g, s) ∈ start.acceptedIn ops ∨ (g, s) ∈ start.chargedIn ops := by
    intro g s above below
    rcases exec_accounted fresh ops (WriterRxState.settled_of_le below) with zero | taken | charge | ⟨stop, join, low⟩
    · omega
    · exact Or.inl taken
    · exact Or.inr charge
    · rw [joinBase_eq join] at above
      omega
  refine ⟨lost, accounted, fun writers => ?_⟩
  rw [lost]
  apply PairCount.sum_le_length
  intro g _ s member
  obtain ⟨within, absent⟩ := Finset.mem_filter.mp member
  obtain ⟨above, below⟩ := Finset.mem_Ioc.mp within
  exact (accounted g s above below).resolve_left absent

theorem no_silent_skip_healed :
    ((create default [] [] {} false 0).chargedIn
      [.enqueue default 3 [] {} 0 0 0, .applyGap default 1 2, .enqueue default 80 [] {} 0 0 0]).length < 2 ^ 64 ∧
    (Run.exec step (create default [] [] {} false 0)
      [.enqueue default 3 [] {} 0 0 0, .applyGap default 1 2, .enqueue default 80 [] {} 0 0 0]).messagesLost.toNat =
      ((create default [] [] {} false 0).chargedIn
        [.enqueue default 3 [] {} 0 0 0, .applyGap default 1 2, .enqueue default 80 [] {} 0 0 0]).length :=
  ⟨by decide, (no_silent_skip default [] [] {} false 0 _ (by decide)).1⟩

/-- A jump finds no out-of-order receipt in the window it throws away. -/
def JumpsClear (r : ReaderImpl) : ReaderOp → Prop
  | .enqueue writer seq _ _ _ _ _ => (r.rxState writer).Jumps seq → (r.rxState writer).window = 0
  | _ => True

/-- What `messages_lost` promises about a run: no accepted seq is counted,
nothing is counted twice, and the count is covered by the seqs below the
baselines that never arrived. -/
structure LossSound (r : ReaderImpl) (ops : List ReaderOp) : Prop where
  neverAccepted : ∀ x ∈ r.chargedIn ops, x ∉ r.acceptedIn ops
  once : (r.chargedIn ops).Nodup
  neverQueued : ∀ x ∈ r.chargedIn ops, x ∉ r.pushedIn ops
  bounded : (Run.exec step r ops).messagesLost.toNat ≤ ∑ g ∈ writersIn ops,
    ((Finset.Icc 1 ((Run.exec step r ops).rxState g).lastSeq.toNat).filter
      (fun s => (g, s) ∉ r.acceptedIn ops)).card

theorem charged_unsettled {op : ReaderOp} (clear : r.JumpsClear op) {g : Guid} {s : Nat}
    (member : (g, s) ∈ r.charged op) : ¬ r.Settled g s ∧ (g, s) ∉ r.accepted op := by
  cases op with
  | enqueue writer seq data writerQos pubTimeMs now sweepNow =>
    obtain ⟨rfl, jump, below⟩ := charged_givesUp member
    simp only [charged, if_pos jump] at member
    obtain ⟨x, inside, same⟩ := List.mem_map.mp member
    obtain ⟨_, rfl⟩ := Prod.mk.inj same
    rw [List.mem_range'_1] at inside
    refine ⟨fun settled => ?_, ?_⟩
    · rw [Settled, WriterRxState.Settled, clear jump] at settled
      have low := SeqWindow.holds_zero.mp settled
      omega
    · simp only [accepted]
      split
      · rw [List.mem_singleton, Prod.mk.injEq]
        rintro ⟨_, same⟩
        omega
      · exact List.not_mem_nil
  | applyGap writer gapStart gapEnd =>
    refine ⟨fun settled => ?_, List.not_mem_nil⟩
    simp only [charged] at member
    split at member
    · exact absurd member List.not_mem_nil
    · rename_i st found
      obtain ⟨x, inside, same⟩ := List.mem_map.mp member
      obtain ⟨rfl, rfl⟩ := Prod.mk.inj same
      exact (WriterRxState.mem_missingUpTo.mp inside).2 (by simpa [Settled, rxState, found] using settled)
  | take now => exact absurd member List.not_mem_nil
  | available now => exact absurd member List.not_mem_nil

theorem charged_nodup (r : ReaderImpl) (op : ReaderOp) : (r.charged op).Nodup := by
  have tagged (writer : Guid) {seqs : List Nat} (distinct : seqs.Nodup) : (seqs.map (writer, ·)).Nodup :=
    distinct.map (fun _ _ same => (Prod.mk.inj same).2)
  cases op with
  | enqueue writer seq data writerQos pubTimeMs now sweepNow =>
    simp only [charged]
    split
    · exact tagged writer List.nodup_range'
    · exact List.nodup_nil
  | applyGap writer gapStart gapEnd =>
    simp only [charged]
    split
    · exact List.nodup_nil
    · exact tagged writer (WriterRxState.missingUpTo_nodup _ _)
  | take now => exact List.nodup_nil
  | available now => exact List.nodup_nil

theorem chargedIn_givenUp {ops : List ReaderOp} {g : Guid} {s : Nat}
    (member : (g, s) ∈ r.chargedIn ops) : r.GivenUpIn ops g s := by
  induction ops using List.reverseRecOn with
  | nil => exact absurd member List.not_mem_nil
  | append_singleton ops op ih =>
    rw [chargedIn, Run.log_snoc, List.mem_append] at member
    exact (Run.happened_snoc step).mpr (member.imp ih charged_givesUp)

/-- The run invariant behind sound loss counts. -/
theorem charges_sound (fresh : r.rx = fun _ => none) {ops : List ReaderOp}
    (clear : Run.Along step JumpsClear r ops) :
    (r.chargedIn ops).Nodup ∧ ∀ x ∈ r.chargedIn ops, x ∉ r.acceptedIn ops := by
  induction ops using List.reverseRecOn with
  | nil => exact ⟨List.nodup_nil, by simp⟩
  | append_singleton ops op ih =>
    obtain ⟨before, now⟩ := (Run.along_snoc step).mp clear
    obtain ⟨distinct, apart⟩ := ih before
    have settled {g : Guid} {s : Nat} (member : (g, s) ∈ r.chargedIn ops) : (Run.exec step r ops).Settled g s :=
      (exec_settled fresh ops g s).mpr (Or.inr (Or.inr (chargedIn_givenUp member)))
    simp only [chargedIn, acceptedIn, Run.log_snoc, List.nodup_append', List.mem_append]
    refine ⟨⟨distinct, charged_nodup _ op, ?_⟩, ?_⟩
    · rintro ⟨g, s⟩ earlier later
      exact (charged_unsettled now later).1 (settled earlier)
    · rintro ⟨g, s⟩ charge taken
      rcases charge with earlier | later
      · rcases taken with first | last
        · exact apart _ earlier first
        · exact (accepted_iff last).1 (settled earlier)
      · rcases taken with first | last
        · exact (charged_unsettled now later).1 ((exec_settled fresh ops g s).mpr (Or.inr (Or.inl first)))
        · exact (charged_unsettled now later).2 last

/-- A jump over a tracked receipt counts that receipt as lost. -/
theorem charged_of_not_clear (fresh : r.rx = fun _ => none) {ops : List ReaderOp} {op : ReaderOp}
    (unclear : ¬ (Run.exec step r ops).JumpsClear op) :
    ∃ x ∈ (Run.exec step r ops).charged op, x ∈ r.acceptedIn ops := by
  cases op with
  | enqueue writer seq data writerQos pubTimeMs now sweepNow =>
    simp only [JumpsClear, Classical.not_imp] at unclear
    obtain ⟨jump, occupied⟩ := unclear
    have bit : ∃ i, ((Run.exec step r ops).rxState writer).window.getLsbD i = true := by
      by_contra none
      apply occupied
      apply BitVec.eq_of_getLsbD_eq
      intro i _
      simpa using fun set => none ⟨i, set⟩
    obtain ⟨i, set⟩ := bit
    have within := BitVec.lt_of_getLsbD set
    have far := jump
    unfold WriterRxState.Jumps at far
    refine ⟨(writer, ((Run.exec step r ops).rxState writer).lastSeq.toNat + 1 + i), ?_, ?_⟩
    · simp only [charged, if_pos jump]
      refine List.mem_map.mpr ⟨_, ?_, rfl⟩
      rw [List.mem_range'_1]
      omega
    · have settled : (Run.exec step r ops).Settled writer
          (((Run.exec step r ops).rxState writer).lastSeq.toNat + 1 + i) := SeqWindow.holds_bit.mpr set
      rcases (exec_settled fresh ops writer _).mp settled with zero | taken | given
      · omega
      · exact taken
      · have low := GivenUpIn.le_lastSeq fresh given
        omega
  | applyGap writer gapStart gapEnd => exact absurd trivial unclear
  | take now => exact absurd trivial unclear
  | available now => exact absurd trivial unclear

theorem mem_writersIn {ops : List ReaderOp} {g : Guid} {s : Nat} (member : (g, s) ∈ r.chargedIn ops) :
    g ∈ writersIn ops := by
  obtain ⟨first, op, rest, rfl, now⟩ := Run.exists_of_mem_log member
  have named : op.writer? = some g := by
    have gives := charged_givesUp now
    cases op with
    | enqueue => rw [← gives.1]; rfl
    | applyGap => rw [← gives.1]; rfl
    | take => exact gives.elim
    | available => exact gives.elim
  exact List.mem_toFinset.mpr (List.mem_filterMap.mpr ⟨op, by simp, named⟩)

theorem charged_pos {op : ReaderOp} {g : Guid} {s : Nat} (member : (g, s) ∈ r.charged op) : 0 < s := by
  cases op with
  | enqueue writer seq data writerQos pubTimeMs now sweepNow =>
    simp only [charged] at member
    split at member
    · obtain ⟨x, inside, same⟩ := List.mem_map.mp member
      obtain ⟨_, rfl⟩ := Prod.mk.inj same
      rw [List.mem_range'_1] at inside
      omega
    · exact absurd member List.not_mem_nil
  | applyGap writer gapStart gapEnd =>
    simp only [charged] at member
    split at member
    · exact absurd member List.not_mem_nil
    · obtain ⟨x, inside, same⟩ := List.mem_map.mp member
      obtain ⟨_, rfl⟩ := Prod.mk.inj same
      refine Nat.pos_of_ne_zero (fun zero => (WriterRxState.mem_missingUpTo.mp inside).2 ?_)
      exact WriterRxState.settled_of_le (by omega)
  | take now => exact absurd member List.not_mem_nil
  | available now => exact absurd member List.not_mem_nil

/-- The loss count of a run is sound exactly when no jump beyond the window
happens over out-of-order receipts. -/
theorem loss_sound_iff (guid : Guid) (topic type : Bytes) (qos : QosProfile) (ignoreLocal : Bool)
    (birthUs : U64) (ops : List ReaderOp)
    (total : ((create guid topic type qos ignoreLocal birthUs).chargedIn ops).length < 2 ^ 64) :
    (create guid topic type qos ignoreLocal birthUs).LossSound ops ↔
      Run.Along step JumpsClear (create guid topic type qos ignoreLocal birthUs) ops := by
  generalize begins : create guid topic type qos ignoreLocal birthUs = start at total ⊢
  have fresh : start.rx = fun _ => none := by rw [← begins]; rfl
  have zero : start.lostCount = 0 := by rw [← begins]; rfl
  constructor
  · intro sound
    have apart := sound.neverAccepted
    clear sound total
    induction ops using List.reverseRecOn with
    | nil => trivial
    | append_singleton ops op ih =>
      simp only [chargedIn, acceptedIn, Run.log_snoc, List.mem_append] at apart
      refine (Run.along_snoc step).mpr ⟨ih (fun x charge taken => apart x (Or.inl charge) (Or.inl taken)), ?_⟩
      by_contra unclear
      obtain ⟨x, charge, taken⟩ := charged_of_not_clear fresh unclear
      exact apart x (Or.inr charge) (Or.inl taken)
  · intro clear
    obtain ⟨distinct, apart⟩ := charges_sound fresh clear
    refine ⟨apart, distinct, fun x charge queued => apart x charge ((pushedIn_sublist start ops).subset queued), ?_⟩
    rw [messagesLost, exec_lostCount zero, Nat.mod_eq_of_lt total]
    apply PairCount.length_le_sum distinct
    rintro ⟨g, s⟩ charge
    refine ⟨mem_writersIn charge, Finset.mem_filter.mpr ⟨Finset.mem_Icc.mpr ⟨?_, ?_⟩, apart _ charge⟩⟩
    · obtain ⟨_, _, _, _, now⟩ := Run.exists_of_mem_log charge
      exact charged_pos now
    · exact GivenUpIn.le_lastSeq fresh (chargedIn_givenUp charge)

/-- Seq 2 arrives out of order and seq 70 then jumps over it: 69 seqs are
counted lost although only 68 of the first 70 never arrived. -/
theorem loss_sound_fails_at_jump :
    (Run.exec step (create default [] [] {} false 0)
      [.enqueue default 2 [] {} 0 0 0, .enqueue default 70 [] {} 0 0 0]).messagesLost = 69 ∧
    (default, 2) ∈ (create default [] [] {} false 0).acceptedIn
      [.enqueue default 2 [] {} 0 0 0, .enqueue default 70 [] {} 0 0 0] ∧
    ¬ (create default [] [] {} false 0).LossSound
      [.enqueue default 2 [] {} 0 0 0, .enqueue default 70 [] {} 0 0 0] :=
  ⟨by decide, by decide, fun sound => absurd sound.bounded (by decide)⟩

theorem loss_sound_when_healed :
    (create default [] [] {} false 0).LossSound
      [.enqueue default 2 [] {} 0 0 0, .applyGap default 1 1, .enqueue default 2 [] {} 0 0 0] :=
  (loss_sound_iff default [] [] {} false 0 _ (by decide)).mpr
    ⟨fun jump => absurd jump (by decide), trivial, fun jump => absurd jump (by decide), trivial⟩

end ReaderImpl

end Mdds
