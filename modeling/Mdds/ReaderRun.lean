import Mdds.Lib.Run
import Mdds.ReceiveWindow

namespace Mdds

/-- The calls a reader serves. Arguments are arbitrary, including the clock
readings each call makes. -/
inductive ReaderOp
  | enqueue (writer : Guid) (seq : U64) (data : Bytes) (writerQos : QosProfile) (pubTimeMs now sweepNow : U64)
  | applyGap (writer : Guid) (gapStart gapEnd : U64)
  | take (now : U64)
  | available (now : U64)

def ReaderOp.writer? : ReaderOp → Option Guid
  | .enqueue writer _ _ _ _ _ _ => some writer
  | .applyGap writer _ _ => some writer
  | _ => none

/-- The highest seq an operation can settle. -/
def ReaderOp.top : ReaderOp → Nat
  | .enqueue _ seq _ _ _ _ _ => seq.toNat
  | .applyGap _ _ gapEnd => gapEnd.toNat
  | _ => 0

namespace ReaderImpl

/-- The state in which `create_reader` hands out a reader. -/
def create (guid : Guid) (topic type : Bytes) (qos : QosProfile) (ignoreLocal : Bool) (birthUs : U64) : ReaderImpl :=
  { guid, topic, type, qos, ignoreLocal, birthUs }

def step (r : ReaderImpl) : ReaderOp → ReaderImpl
  | .enqueue writer seq data writerQos pubTimeMs now sweepNow =>
    (r.enqueue writer seq data writerQos pubTimeMs now sweepNow).reader
  | .applyGap writer gapStart gapEnd => r.applyGap writer gapStart gapEnd
  | .take now => (r.take now).2
  | .available now => (r.available now).2

/-- The sample an operation treats as new, whether or not it then expires. -/
def accepted (r : ReaderImpl) : ReaderOp → List (Guid × Nat)
  | .enqueue writer seq _ _ _ _ _ =>
    if ((r.rxState writer).receive seq).isNew then [(writer, seq.toNat)] else []
  | _ => []

/-- The sample an operation pushes into the queue. -/
def pushed (r : ReaderImpl) : ReaderOp → List (Guid × Nat)
  | .enqueue writer seq data writerQos pubTimeMs now sweepNow =>
    if (r.enqueue writer seq data writerQos pubTimeMs now sweepNow).queued then [(writer, seq.toNat)] else []
  | _ => []

/-- The operation moves the baseline past `s` without its arrival being
needed: a jump beyond the window, or a GAP. -/
def GivesUp (g : Guid) (s : Nat) (r : ReaderImpl) : ReaderOp → Prop
  | .enqueue writer seq _ _ _ _ _ => writer = g ∧ (r.rxState writer).Jumps seq ∧ s < seq.toNat
  | .applyGap writer _ gapEnd => writer = g ∧ s ≤ gapEnd.toNat
  | _ => False

/-- The settled seqs of one writer. -/
def Settled (r : ReaderImpl) (g : Guid) (s : Nat) : Prop := (r.rxState g).Settled s

instance (r : ReaderImpl) (g : Guid) (s : Nat) : Decidable (r.Settled g s) :=
  inferInstanceAs (Decidable ((r.rxState g).Settled s))

@[simp] theorem sweepExpired_lostCount (r : ReaderImpl) (now : U64) :
    (r.sweepExpired now).lostCount = r.lostCount := rfl

theorem take_rx (r : ReaderImpl) (now : U64) : (r.take now).2.rx = r.rx := by
  unfold take
  dsimp only
  split <;> rfl

theorem take_lostCount (r : ReaderImpl) (now : U64) : (r.take now).2.lostCount = r.lostCount := by
  unfold take
  dsimp only
  split <;> rfl

theorem enqueue_rx (r : ReaderImpl) (writer : Guid) (seq : U64) (data : Bytes) (writerQos : QosProfile)
    (pubTimeMs now sweepNow : U64) :
    (r.enqueue writer seq data writerQos pubTimeMs now sweepNow).reader.rx =
      Function.update r.rx writer (some ((r.rxState writer).receive seq).state) := by
  unfold enqueue
  dsimp only
  split
  · rfl
  · split <;> rfl

theorem enqueue_lostCount (r : ReaderImpl) (writer : Guid) (seq : U64) (data : Bytes) (writerQos : QosProfile)
    (pubTimeMs now sweepNow : U64) :
    (r.enqueue writer seq data writerQos pubTimeMs now sweepNow).reader.lostCount =
      r.lostCount + ((r.rxState writer).receive seq).lost := by
  unfold enqueue
  dsimp only
  split
  · rfl
  · split <;> rfl

theorem enqueue_queued (r : ReaderImpl) (writer : Guid) (seq : U64) (data : Bytes) (writerQos : QosProfile)
    (pubTimeMs now sweepNow : U64) :
    (r.enqueue writer seq data writerQos pubTimeMs now sweepNow).queued =
      (((r.rxState writer).receive seq).isNew && !lifespanExpired writerQos.lifespanMs pubTimeMs now) := by
  unfold enqueue
  dsimp only
  split
  · rename_i old
    rw [Bool.not_eq_true'] at old
    rw [old]
    rfl
  · rename_i new
    rw [Bool.not_eq_true', Bool.not_eq_false] at new
    split
    · rename_i expired
      simp [expired]
    · rename_i fresh
      simp [new, fresh]

theorem rxState_update (r : ReaderImpl) (writer g : Guid) (st : WriterRxState) (lost : U64) :
    ({ r with rx := Function.update r.rx writer (some st), lostCount := lost } : ReaderImpl).rxState g =
      if g = writer then st else r.rxState g := by
  unfold rxState
  by_cases same : g = writer
  · subst same
    simp
  · simp [same]

/-- With or without earlier state, a GAP moves the receive state the same
way; only the loss count differs. -/
theorem applyGap_rxState (r : ReaderImpl) (writer g : Guid) (gapStart gapEnd : U64) :
    (r.applyGap writer gapStart gapEnd).rxState g =
      if g = writer then ((r.rxState writer).passGap gapEnd).1 else r.rxState g := by
  unfold applyGap
  cases found : r.rx writer with
  | some st =>
    have start : r.rxState writer = st := by simp [rxState, found]
    rw [rxState_update, start]
  | none =>
    have joined := rxState_update r writer g ⟨gapEnd, 0⟩ r.lostCount
    have start : r.rxState writer = {} := by simp [rxState, found]
    rw [start]
    refine joined.trans ?_
    congr 1
    rcases ({} : WriterRxState).passGap_cases gapEnd with ⟨zero, same⟩ | ⟨_, state, _⟩
    · have nothing : gapEnd = 0 := BitVec.eq_of_toNat_eq (Nat.le_zero.mp zero)
      rw [same, nothing]
    · rw [state]
      simp

theorem step_rxState (r : ReaderImpl) (op : ReaderOp) (g : Guid) :
    (r.step op).rxState g = match op with
      | .enqueue writer seq _ _ _ _ _ => if g = writer then ((r.rxState writer).receive seq).state else r.rxState g
      | .applyGap writer _ gapEnd => if g = writer then ((r.rxState writer).passGap gapEnd).1 else r.rxState g
      | _ => r.rxState g := by
  cases op with
  | enqueue writer seq data writerQos pubTimeMs now sweepNow =>
    have moved := rxState_update r writer g ((r.rxState writer).receive seq).state r.lostCount
    rw [rxState] at moved ⊢
    rw [step, enqueue_rx]
    exact moved
  | applyGap writer gapStart gapEnd => exact applyGap_rxState r writer g gapStart gapEnd
  | take now => simp only [step, rxState, take_rx]
  | available now => rfl

theorem step_inRange {r : ReaderImpl} (range : ∀ g, (r.rxState g).InRange) (op : ReaderOp) (g : Guid) :
    ((r.step op).rxState g).InRange := by
  rw [step_rxState]
  cases op with
  | enqueue writer seq data writerQos pubTimeMs now sweepNow =>
    dsimp only
    split
    · exact WriterRxState.receive_inRange (range writer) seq
    · exact range g
  | applyGap writer gapStart gapEnd =>
    dsimp only
    split
    · exact WriterRxState.passGap_inRange (range writer) gapEnd
    · exact range g
  | take now => exact range g
  | available now => exact range g

/-- One operation settles exactly what it accepts and what it gives up. -/
theorem step_settled {r : ReaderImpl} (range : ∀ g, (r.rxState g).InRange) (op : ReaderOp) (g : Guid) (s : Nat) :
    (r.step op).Settled g s ↔ r.Settled g s ∨ (g, s) ∈ r.accepted op ∨ r.GivesUp g s op := by
  rw [Settled, step_rxState]
  cases op with
  | enqueue writer seq data writerQos pubTimeMs now sweepNow =>
    dsimp only [accepted, GivesUp]
    by_cases same : g = writer
    · subst same
      rw [if_pos rfl, WriterRxState.receive_settled (range g)]
      simp only [true_and]
      by_cases new : ((r.rxState g).receive seq).isNew = true
      · simp [new, Settled]
      · have old : r.Settled g seq.toNat := by
          by_contra absent
          exact new (WriterRxState.receive_isNew.mpr absent)
        simp only [new, Bool.false_eq_true, if_false, List.not_mem_nil, false_or]
        constructor
        · rintro (settled | here | jump)
          · exact Or.inl settled
          · exact Or.inl (here ▸ old)
          · exact Or.inr jump
        · exact Or.imp_right Or.inr
    · rw [if_neg same]
      have others : ¬ writer = g := fun h => same h.symm
      have absent : (g, s) ∉ if ((r.rxState writer).receive seq).isNew = true then [(writer, seq.toNat)] else [] := by
        split <;> simp [same]
      simp only [others, absent, false_and, or_false]
      rfl
  | applyGap writer gapStart gapEnd =>
    dsimp only [accepted, GivesUp]
    by_cases same : g = writer
    · subst same
      rw [if_pos rfl, WriterRxState.passGap_settled]
      simp [Settled]
    · have others : ¬ writer = g := fun h => same h.symm
      rw [if_neg same]
      simp [others, Settled]
  | take now => simp [accepted, GivesUp, Settled]
  | available now => simp [accepted, GivesUp, Settled]

theorem step_lastSeq_ge {r : ReaderImpl} (range : ∀ g, (r.rxState g).InRange) (op : ReaderOp) (g : Guid) :
    (r.rxState g).lastSeq.toNat ≤ ((r.step op).rxState g).lastSeq.toNat := by
  rw [step_rxState]
  cases op with
  | enqueue writer seq data writerQos pubTimeMs now sweepNow =>
    dsimp only
    split
    · rename_i same
      rw [same]
      exact WriterRxState.receive_lastSeq_ge (range writer) seq
    · exact le_rfl
  | applyGap writer gapStart gapEnd =>
    dsimp only
    split
    · rename_i same
      rw [same, WriterRxState.passGap_lastSeq]
      exact Nat.le_max_left _ _
    · exact le_rfl
  | take now => exact le_rfl
  | available now => exact le_rfl

/-- Operations never change what a reader was created with. -/
theorem step_static (r : ReaderImpl) (op : ReaderOp) :
    (r.step op).guid = r.guid ∧ (r.step op).topic = r.topic ∧ (r.step op).type = r.type ∧
      (r.step op).qos = r.qos ∧ (r.step op).birthUs = r.birthUs ∧ (r.step op).ignoreLocal = r.ignoreLocal := by
  cases op with
  | enqueue writer seq data writerQos pubTimeMs now sweepNow =>
    simp only [step, enqueue]
    split
    · simp
    · split <;> simp [push, sweepExpired]
  | applyGap writer gapStart gapEnd =>
    simp only [step, applyGap]
    split <;> simp
  | take now =>
    simp only [step, take]
    split <;> simp [sweepExpired]
  | available now => simp [step, available, sweepExpired]

/-- What an operation gives up lies at or below the baseline it leaves. -/
theorem GivesUp.le_lastSeq {r : ReaderImpl} {op : ReaderOp} {g : Guid} {s : Nat} (gives : r.GivesUp g s op) :
    s ≤ ((r.step op).rxState g).lastSeq.toNat := by
  rw [step_rxState]
  cases op with
  | enqueue writer seq data writerQos pubTimeMs now sweepNow =>
    obtain ⟨rfl, jump, below⟩ := gives
    dsimp only
    rw [if_pos rfl]
    unfold WriterRxState.Jumps at jump
    rcases (r.rxState writer).receive_cases seq with ⟨_, same⟩ | ⟨_, same⟩ | ⟨_, _, _, _, _, same⟩ |
      ⟨_, _, _, _, _, same⟩ | ⟨_, same⟩
    · omega
    · rw [same]
      exact below.le
    · omega
    · omega
    · omega
  | applyGap writer gapStart gapEnd =>
    obtain ⟨rfl, below⟩ := gives
    dsimp only
    rw [if_pos rfl, WriterRxState.passGap_lastSeq]
    exact below.trans (Nat.le_max_right _ _)
  | take now => exact gives.elim
  | available now => exact gives.elim

theorem settled_step_le {r : ReaderImpl} (range : ∀ g, (r.rxState g).InRange) {op : ReaderOp} {g : Guid} {s : Nat}
    (after : (r.step op).Settled g s) : r.Settled g s ∨ op.writer? = some g ∧ s ≤ op.top := by
  rcases (step_settled range op g s).mp after with old | taken | given
  · exact Or.inl old
  · right
    cases op with
    | enqueue writer seq data writerQos pubTimeMs now sweepNow =>
      simp only [accepted] at taken
      split at taken
      · obtain ⟨rfl, rfl⟩ := Prod.mk.inj (List.mem_singleton.mp taken)
        exact ⟨rfl, le_rfl⟩
      · exact absurd taken List.not_mem_nil
    | applyGap writer gapStart gapEnd => exact absurd taken List.not_mem_nil
    | take now => exact absurd taken List.not_mem_nil
    | available now => exact absurd taken List.not_mem_nil
  · right
    cases op with
    | enqueue writer seq data writerQos pubTimeMs now sweepNow => exact ⟨congrArg some given.1, given.2.2.le⟩
    | applyGap writer gapStart gapEnd => exact ⟨congrArg some given.1, given.2⟩
    | take now => exact given.elim
    | available now => exact given.elim

theorem settled_exec {r : ReaderImpl} (range : ∀ g, (r.rxState g).InRange) (ops : List ReaderOp) {g : Guid} {s : Nat}
    (settled : r.Settled g s) : (Run.exec step r ops).Settled g s := by
  induction ops generalizing r with
  | nil => exact settled
  | cons op rest ih =>
    exact ih (step_inRange range op) ((step_settled range op g s).mpr (Or.inl settled))

/-- An arrival or a GAP settles its seqs whatever happens around it. -/
theorem settled_of_mem {r : ReaderImpl} (range : ∀ g, (r.rxState g).InRange) {ops : List ReaderOp} {op : ReaderOp}
    {g : Guid} {s : Nat} (member : op ∈ ops)
    (settles : ∀ r : ReaderImpl, (∀ g, (r.rxState g).InRange) → (r.step op).Settled g s) :
    (Run.exec step r ops).Settled g s := by
  induction ops generalizing r with
  | nil => exact absurd member List.not_mem_nil
  | cons first rest ih =>
    rcases List.mem_cons.mp member with rfl | later
    · exact settled_exec (step_inRange range op) rest (settles r range)
    · exact ih (step_inRange range first) later

/-- The seqs accepted during a run. -/
abbrev acceptedIn (r : ReaderImpl) (ops : List ReaderOp) : List (Guid × Nat) := Run.log step accepted r ops

/-- The seqs pushed into the queue during a run. -/
abbrev pushedIn (r : ReaderImpl) (ops : List ReaderOp) : List (Guid × Nat) := Run.log step pushed r ops

/-- Some operation of the run gave the seq up. -/
abbrev GivenUpIn (r : ReaderImpl) (ops : List ReaderOp) (g : Guid) (s : Nat) : Prop :=
  Run.Happened step (GivesUp g s) r ops

variable {r : ReaderImpl}

theorem exec_inRange (fresh : r.rx = fun _ => none) (ops : List ReaderOp) (g : Guid) :
    ((Run.exec step r ops).rxState g).InRange := by
  have initially : ∀ g, (r.rxState g).InRange := by
    intro g
    simp only [rxState, fresh, Option.getD_none]
    exact WriterRxState.inRange_initial
  have kept : ∀ (r : ReaderImpl) (op : ReaderOp), (∀ g, (r.rxState g).InRange) →
      ∀ g, ((r.step op).rxState g).InRange := fun _ op range => step_inRange range op
  have after := Run.invariant kept ops initially
  exact after g

/-- The window state is exactly the run's history: a positive seq is settled
when it was accepted or given up, and for no other reason. -/
theorem exec_settled (fresh : r.rx = fun _ => none) (ops : List ReaderOp) (g : Guid) (s : Nat) :
    (Run.exec step r ops).Settled g s ↔ s = 0 ∨ (g, s) ∈ r.acceptedIn ops ∨ r.GivenUpIn ops g s := by
  induction ops using List.reverseRecOn with
  | nil =>
    have start : r.rxState g = {} := by simp [rxState, fresh]
    simp only [Run.exec_nil, Settled, start, WriterRxState.settled_initial, acceptedIn, GivenUpIn, Run.log_nil,
      Run.Happened, List.not_mem_nil, or_false]
  | append_singleton ops op ih =>
    rw [Run.exec_snoc, step_settled (exec_inRange fresh ops), ih]
    simp only [acceptedIn, GivenUpIn, Run.log_snoc, Run.happened_snoc, List.mem_append]
    tauto

/-- Above the baseline only receipts are settled. -/
theorem GivenUpIn.le_lastSeq (fresh : r.rx = fun _ => none) {ops : List ReaderOp} {g : Guid} {s : Nat}
    (given : r.GivenUpIn ops g s) : s ≤ ((Run.exec step r ops).rxState g).lastSeq.toNat := by
  induction ops using List.reverseRecOn with
  | nil => exact given.elim
  | append_singleton ops op ih =>
    rw [Run.exec_snoc]
    rcases (Run.happened_snoc step).mp given with earlier | now
    · exact (ih earlier).trans (step_lastSeq_ge (exec_inRange fresh ops) op g)
    · exact now.le_lastSeq

theorem accepted_iff {op : ReaderOp} {g : Guid} {s : Nat} (member : (g, s) ∈ r.accepted op) :
    ¬ r.Settled g s ∧ r.accepted op = [(g, s)] := by
  cases op with
  | enqueue writer seq data writerQos pubTimeMs now sweepNow =>
    simp only [accepted] at member ⊢
    split at member
    · rename_i new
      obtain ⟨rfl, rfl⟩ := Prod.mk.inj (List.mem_singleton.mp member)
      exact ⟨WriterRxState.receive_isNew.mp new, if_pos new⟩
    · exact absurd member List.not_mem_nil
  | applyGap writer gapStart gapEnd => exact absurd member List.not_mem_nil
  | take now => exact absurd member List.not_mem_nil
  | available now => exact absurd member List.not_mem_nil

/-- No seq of a writer is accepted twice. -/
theorem acceptedIn_nodup (fresh : r.rx = fun _ => none) (ops : List ReaderOp) : (r.acceptedIn ops).Nodup := by
  induction ops using List.reverseRecOn with
  | nil => exact List.nodup_nil
  | append_singleton ops op ih =>
    rw [acceptedIn, Run.log_snoc, List.nodup_append']
    refine ⟨ih, ?_, ?_⟩
    · cases last : (Run.exec step r ops).accepted op with
      | nil => exact List.nodup_nil
      | cons entry rest =>
        have member : (entry.1, entry.2) ∈ (Run.exec step r ops).accepted op := by simp [last]
        have single := (accepted_iff member).2
        rw [last] at single
        rw [single]
        exact List.nodup_singleton _
    · rintro ⟨g, s⟩ before now
      exact (accepted_iff now).1 ((exec_settled fresh ops g s).mpr (Or.inr (Or.inl before)))

theorem pushed_sublist (r : ReaderImpl) (op : ReaderOp) : (r.pushed op).Sublist (r.accepted op) := by
  cases op with
  | enqueue writer seq data writerQos pubTimeMs now sweepNow =>
    simp only [pushed, accepted, enqueue_queued]
    cases ((r.rxState writer).receive seq).isNew with
    | false => exact List.Sublist.refl _
    | true =>
      cases lifespanExpired writerQos.lifespanMs pubTimeMs now with
      | false => exact List.Sublist.refl _
      | true => exact List.nil_sublist _
  | applyGap writer gapStart gapEnd => exact List.Sublist.refl _
  | take now => exact List.Sublist.refl _
  | available now => exact List.Sublist.refl _

theorem pushedIn_sublist (r : ReaderImpl) (ops : List ReaderOp) : (r.pushedIn ops).Sublist (r.acceptedIn ops) := by
  induction ops using List.reverseRecOn with
  | nil => exact List.Sublist.refl _
  | append_singleton ops op ih =>
    rw [pushedIn, acceptedIn, Run.log_snoc, Run.log_snoc]
    exact ih.append (pushed_sublist _ op)

theorem settled_iff_bits (r : ReaderImpl) (g : Guid) (s : Nat) :
    r.Settled g s ↔ s ≤ (r.rxState g).lastSeq.toNat ∨
      ∃ i, i < 64 ∧ (r.rxState g).window.getLsbD i = true ∧ s = (r.rxState g).lastSeq.toNat + 1 + i := by
  constructor
  · rintro (low | bit)
    · exact Or.inl low
    · by_cases low : s ≤ (r.rxState g).lastSeq.toNat
      · exact Or.inl low
      · exact Or.inr ⟨_, BitVec.lt_of_getLsbD bit, bit, by omega⟩
  · rintro (low | ⟨i, _, bit, rfl⟩)
    · exact WriterRxState.settled_of_le low
    · exact SeqWindow.holds_bit.mpr bit

/-- Exactly-once acceptance over every run of a new reader: the two words
kept for a writer are the set of its settled seqs, `enqueue` accepts exactly
the unsettled ones, both operations grow the set as described, and no sample
is queued twice. -/
theorem exactly_once_acceptance (guid : Guid) (topic type : Bytes) (qos : QosProfile) (ignoreLocal : Bool)
    (birthUs : U64) (ops : List ReaderOp) :
    let start := create guid topic type qos ignoreLocal birthUs
    let r := Run.exec step start ops
    (∀ g s, r.Settled g s ↔ s ≤ (r.rxState g).lastSeq.toNat ∨
      ∃ i, i < 64 ∧ (r.rxState g).window.getLsbD i = true ∧ s = (r.rxState g).lastSeq.toNat + 1 + i) ∧
    (∀ g s, r.Settled g s → s < 2 ^ 64) ∧
    (∀ g s, r.Settled g s ↔ s = 0 ∨ (g, s) ∈ start.acceptedIn ops ∨ start.GivenUpIn ops g s) ∧
    (∀ g seq, ((r.rxState g).receive seq).isNew = true ↔ 0 < seq.toNat ∧ ¬ r.Settled g seq.toNat) ∧
    (∀ g seq data writerQos pubTimeMs now sweepNow,
      (r.enqueue g seq data writerQos pubTimeMs now sweepNow).queued = true ↔
        (0 < seq.toNat ∧ ¬ r.Settled g seq.toNat) ∧
          lifespanExpired writerQos.lifespanMs pubTimeMs now = false) ∧
    (∀ g seq data writerQos pubTimeMs now sweepNow g' s,
      (r.enqueue g seq data writerQos pubTimeMs now sweepNow).reader.Settled g' s ↔
        r.Settled g' s ∨ g' = g ∧ (s = seq.toNat ∨ (r.rxState g).lastSeq.toNat + 64 < seq.toNat ∧ s < seq.toNat)) ∧
    (∀ g gapStart gapEnd g' s,
      (r.applyGap g gapStart gapEnd).Settled g' s ↔ r.Settled g' s ∨ g' = g ∧ s ≤ gapEnd.toNat) ∧
    (∀ op g s, r.Settled g s → (r.step op).Settled g s) ∧
    (start.pushedIn ops).Nodup := by
  intro start r
  have fresh : start.rx = fun _ => none := rfl
  have range := exec_inRange fresh ops
  have new (g : Guid) (seq : U64) :
      ((r.rxState g).receive seq).isNew = true ↔ 0 < seq.toNat ∧ ¬ r.Settled g seq.toNat := by
    rw [WriterRxState.receive_isNew]
    refine ⟨fun absent => ⟨?_, absent⟩, And.right⟩
    exact Nat.pos_of_ne_zero (fun zero => absent (zero ▸ WriterRxState.settled_of_le (Nat.zero_le _)))
  refine ⟨settled_iff_bits r, range, exec_settled fresh ops, new, ?_, ?_, ?_, ?_, ?_⟩
  · intro g seq data writerQos pubTimeMs now sweepNow
    rw [enqueue_queued, Bool.and_eq_true, new, Bool.not_eq_true']
  · intro g seq data writerQos pubTimeMs now sweepNow g' s
    have moved := step_rxState r (.enqueue g seq data writerQos pubTimeMs now sweepNow) g'
    change (WriterRxState.Settled _ s ↔ _)
    dsimp only [step] at moved
    rw [moved]
    by_cases same : g' = g
    · subst same
      rw [if_pos rfl, WriterRxState.receive_settled (range g')]
      simp only [true_and]
      rfl
    · simp only [same, if_false, false_and, or_false]
      rfl
  · intro g gapStart gapEnd g' s
    rw [Settled, applyGap_rxState]
    by_cases same : g' = g
    · subst same
      rw [if_pos rfl, WriterRxState.passGap_settled]
      simp only [true_and]
      rfl
    · simp only [same, if_false, false_and, or_false]
      rfl
  · intro op g s settled
    exact (step_settled range op g s).mpr (Or.inl settled)
  · exact (acceptedIn_nodup fresh ops).sublist (pushedIn_sublist start ops)

end ReaderImpl

end Mdds
