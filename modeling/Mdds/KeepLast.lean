import Mdds.ReaderRun

namespace Mdds

/-- No sample of the operation ever expires. -/
def ReaderOp.Lasting : ReaderOp → Prop
  | .enqueue _ _ _ writerQos _ _ _ => writerQos.lifespanMs = 0
  | _ => True

/-- What tells samples apart: the writer and the seq. -/
def QueuedSample.key (q : QueuedSample) : Guid × Nat := (q.info.writerGuid, q.info.seq.toNat)

namespace ReaderImpl

def keys (r : ReaderImpl) : List (Guid × Nat) := r.queue.map QueuedSample.key

/-- The samples an operation pops unread because the queue outgrew its depth. -/
def evicted (r : ReaderImpl) : ReaderOp → List (Guid × Nat)
  | .enqueue writer seq data writerQos pubTimeMs now sweepNow =>
    if (r.enqueue writer seq data writerQos pubTimeMs now sweepNow).queued ∧ r.qos.history = .keepLast then
      (r.keys ++ [(writer, seq.toNat)]).take (r.queue.length + 1 - max r.qos.depth.toNat 1)
    else []
  | _ => []

/-- A KEEP_LAST reader whose samples never expire, within its depth. -/
structure KeepsLast (r : ReaderImpl) : Prop where
  last : r.qos.history = .keepLast
  deep : 0 < r.qos.depth.toNat
  lasting : ∀ q ∈ r.queue, q.lifespanMs = 0
  within : r.queue.length ≤ r.qos.depth.toNat

theorem sweepExpired_lasting {r : ReaderImpl} (lasting : ∀ q ∈ r.queue, q.lifespanMs = 0) (now : U64) :
    r.sweepExpired now = r := by
  have alive : ∀ q ∈ r.queue, (!lifespanExpired q.lifespanMs q.info.pubTimeMs now) = true := by
    intro q queued
    simp [lifespanExpired, lasting q queued]
  unfold sweepExpired
  rw [List.filter_eq_self.mpr alive]

theorem KeepsLast.of_queue {r next : ReaderImpl} (keeps : r.KeepsLast) (sameQos : next.qos = r.qos)
    (lasting : ∀ q ∈ next.queue, q.lifespanMs = 0) (within : next.queue.length ≤ r.qos.depth.toNat) : next.KeepsLast := by
  refine ⟨?_, ?_, lasting, ?_⟩
  · rw [sameQos]
    exact keeps.last
  · rw [sameQos]
    exact keeps.deep
  · rwa [sameQos]

/-- A sample that lasts is pushed and nothing swept. -/
theorem KeepsLast.enqueue_queue {r : ReaderImpl} (keeps : r.KeepsLast) {writerQos : QosProfile}
    (lasting : writerQos.lifespanMs = 0) (writer : Guid) (seq : U64) (data : Bytes) (pubTimeMs now sweepNow : U64) :
    (r.enqueue writer seq data writerQos pubTimeMs now sweepNow).reader.queue =
      if ((r.rxState writer).receive seq).isNew then
        (r.queue ++ [(⟨data, ⟨writer, seq, pubTimeMs⟩, writerQos.lifespanMs⟩ : QueuedSample)]).drop
          (r.queue.length + 1 - r.qos.depth.toNat)
      else r.queue := by
  have fresh : lifespanExpired writerQos.lifespanMs pubTimeMs now = false := by simp [lifespanExpired, lasting]
  have depth : max r.qos.depth.toNat 1 = r.qos.depth.toNat := Nat.max_eq_left keeps.deep
  unfold enqueue
  dsimp only
  cases ((r.rxState writer).receive seq).isNew with
  | false => rfl
  | true =>
    simp only [fresh, Bool.not_true, Bool.false_eq_true, if_false, if_true]
    rw [sweepExpired_lasting]
    · simp only [push, keeps.last, if_true, depth, List.length_append, List.length_singleton]
    · intro q queued
      simp only [push, keeps.last, if_true] at queued
      rcases List.mem_append.mp (List.mem_of_mem_drop queued) with old | here
      · exact keeps.lasting q old
      · rw [List.mem_singleton.mp here]
        exact lasting

/-- What is reported of an arrival: it is accepted if it is new, and then
pushes out what does not fit beside it. -/
theorem KeepsLast.enqueue_reports {r : ReaderImpl} (keeps : r.KeepsLast) {writerQos : QosProfile}
    (lasting : writerQos.lifespanMs = 0) (writer : Guid) (seq : U64) (data : Bytes) (pubTimeMs now sweepNow : U64) :
    r.accepted (.enqueue writer seq data writerQos pubTimeMs now sweepNow) =
        (if ((r.rxState writer).receive seq).isNew then [(writer, seq.toNat)] else []) ∧
      r.evicted (.enqueue writer seq data writerQos pubTimeMs now sweepNow) =
        (if ((r.rxState writer).receive seq).isNew then
          (r.keys ++ [(writer, seq.toNat)]).take (r.queue.length + 1 - r.qos.depth.toNat) else []) := by
  have fresh : lifespanExpired writerQos.lifespanMs pubTimeMs now = false := by simp [lifespanExpired, lasting]
  have depth : max r.qos.depth.toNat 1 = r.qos.depth.toNat := Nat.max_eq_left keeps.deep
  simp only [accepted, evicted, enqueue_queued, fresh, Bool.not_false, Bool.and_true, depth, keeps.last, and_true]

/-- An arrival joins the queue, whose front leaves if it is at its depth. -/
theorem KeepsLast.enqueue_new {r : ReaderImpl} (keeps : r.KeepsLast) {writerQos : QosProfile}
    (lasting : writerQos.lifespanMs = 0) {writer : Guid} {seq : U64} {data : Bytes} {pubTimeMs now sweepNow : U64}
    (new : ((r.rxState writer).receive seq).isNew = true) :
    let op : ReaderOp := .enqueue writer seq data writerQos pubTimeMs now sweepNow
    (r.step op).KeepsLast ∧
      ((r.queue.length < r.qos.depth.toNat ∧ r.evicted op = [] ∧ (r.step op).keys = r.keys ++ [(writer, seq.toNat)]) ∨
        ∃ front rest, r.queue.length = r.qos.depth.toNat ∧ r.keys = front :: rest ∧ r.evicted op = [front] ∧
          (r.step op).keys = rest ++ [(writer, seq.toNat)]) := by
  intro op
  have sameQos : (r.step op).qos = r.qos := (r.step_static op).2.2.2.1
  have within := keeps.within
  have queue : (r.step op).queue = _ := keeps.enqueue_queue lasting writer seq data pubTimeMs now sweepNow
  have pops := (keeps.enqueue_reports lasting writer seq data pubTimeMs now sweepNow).2
  rw [new, if_pos rfl] at queue pops
  have still : (r.step op).KeepsLast := by
    refine keeps.of_queue sameQos (fun q queued => ?_) ?_
    · rw [queue] at queued
      rcases List.mem_append.mp (List.mem_of_mem_drop queued) with old | here
      · exact keeps.lasting q old
      · rw [List.mem_singleton.mp here]
        exact lasting
    · rw [queue, List.length_drop, List.length_append, List.length_singleton]
      omega
  refine ⟨still, ?_⟩
  rw [pops]
  by_cases room : r.queue.length < r.qos.depth.toNat
  · have none : r.queue.length + 1 - r.qos.depth.toNat = 0 := by omega
    refine Or.inl ⟨room, by rw [none, List.take_zero], ?_⟩
    rw [keys, queue, none, List.drop_zero, List.map_append]
    rfl
  · have one : r.queue.length + 1 - r.qos.depth.toNat = 1 := by omega
    have deep := keeps.deep
    cases held : r.queue with
    | nil =>
      rw [held, List.length_nil] at room
      omega
    | cons front rest =>
      rw [held] at one
      refine Or.inr ⟨front.key, rest.map QueuedSample.key, ?_, ?_, ?_, ?_⟩
      · rw [held] at room within
        omega
      · rw [keys, held]
        rfl
      · rw [one, keys, held]
        rfl
      · rw [keys, queue, held, one]
        simp [QueuedSample.key]

/-- Everything an operation does to the queue: nothing, a pop by `take`, or
an arrival, which evicts the front if the queue is at its depth. -/
theorem KeepsLast.step_cases {r : ReaderImpl} (keeps : r.KeepsLast) {op : ReaderOp} (lasting : op.Lasting) :
    (r.step op).KeepsLast ∧
    ((r.accepted op = [] ∧ r.evicted op = [] ∧ (r.step op).keys <:+ r.keys) ∨
      ∃ key, r.accepted op = [key] ∧
        ((r.queue.length < r.qos.depth.toNat ∧ r.evicted op = [] ∧ (r.step op).keys = r.keys ++ [key]) ∨
          ∃ front rest, r.queue.length = r.qos.depth.toNat ∧ r.keys = front :: rest ∧ r.evicted op = [front] ∧
            (r.step op).keys = rest ++ [key])) := by
  have sameQos : (r.step op).qos = r.qos := (r.step_static op).2.2.2.1
  have within := keeps.within
  cases op with
  | enqueue writer seq data writerQos pubTimeMs now sweepNow =>
    obtain ⟨joins, pops⟩ := keeps.enqueue_reports lasting writer seq data pubTimeMs now sweepNow
    cases new : ((r.rxState writer).receive seq).isNew with
    | false =>
      have queue : (r.step (.enqueue writer seq data writerQos pubTimeMs now sweepNow)).queue = _ :=
        keeps.enqueue_queue lasting writer seq data pubTimeMs now sweepNow
      rw [new, if_neg Bool.false_ne_true] at queue joins pops
      refine ⟨keeps.of_queue sameQos (queue ▸ keeps.lasting) (queue ▸ within), Or.inl ⟨joins, pops, ?_⟩⟩
      rw [keys, queue]
      exact List.suffix_refl _
    | true =>
      obtain ⟨still, moved⟩ := @KeepsLast.enqueue_new r keeps writerQos lasting writer seq data pubTimeMs now sweepNow new
      rw [new, if_pos rfl] at joins
      exact ⟨still, Or.inr ⟨_, joins, moved⟩⟩
  | applyGap writer gapStart gapEnd =>
    have queue : (r.step (.applyGap writer gapStart gapEnd)).queue = r.queue := by
      simp only [step, applyGap]
      split <;> rfl
    refine ⟨keeps.of_queue sameQos (queue ▸ keeps.lasting) (queue ▸ within), Or.inl ⟨rfl, rfl, ?_⟩⟩
    rw [keys, queue]
    exact List.suffix_refl _
  | take now =>
    have queue : (r.step (.take now)).queue = r.queue.tail := by
      simp only [step, take]
      rw [sweepExpired_lasting keeps.lasting]
      split
      · rename_i none
        rw [none]
        rfl
      · rename_i held
        rw [held]
        rfl
    refine ⟨keeps.of_queue sameQos (fun q queued => ?_) ?_, Or.inl ⟨rfl, rfl, ?_⟩⟩
    · rw [queue] at queued
      exact keeps.lasting q (List.mem_of_mem_tail queued)
    · rw [queue, List.length_tail]
      omega
    · rw [keys, queue, List.map_tail]
      exact List.tail_suffix _
  | available now =>
    have same : r.step (.available now) = r := sweepExpired_lasting keeps.lasting now
    rw [same]
    exact ⟨keeps, Or.inl ⟨rfl, rfl, List.suffix_refl _⟩⟩

/-- Queues are tails of what was there and what was accepted since. -/
theorem KeepsLast.window {r : ReaderImpl} (keeps : r.KeepsLast) {ops : List ReaderOp} (lasting : ∀ op ∈ ops, op.Lasting) :
    (Run.exec step r ops).KeepsLast ∧ (Run.exec step r ops).keys <:+ r.keys ++ r.acceptedIn ops := by
  induction ops using List.reverseRecOn with
  | nil =>
    rw [acceptedIn, Run.log_nil, List.append_nil]
    exact ⟨keeps, List.suffix_refl _⟩
  | append_singleton ops op ih =>
    obtain ⟨before, gone, window⟩ := ih (fun op inside => lasting op (List.mem_append_left _ inside))
    obtain ⟨after, moves⟩ := before.step_cases (lasting op (List.mem_append_right _ List.mem_cons_self))
    rw [Run.exec_snoc, acceptedIn, Run.log_snoc, ← List.append_assoc, ← window, List.append_assoc]
    refine ⟨after, List.IsSuffix.trans ?_ (List.suffix_append _ _)⟩
    rcases moves with ⟨none, _, shrinks⟩ | ⟨key, one, ⟨_, _, grown⟩ | ⟨front, rest, _, held, _, grown⟩⟩
    · rw [none, List.append_nil]
      exact shrinks
    · rw [one]
      exact ⟨[], grown⟩
    · rw [one, grown, held, List.cons_append]
      exact List.suffix_cons _ _

/-- The samples popped for depth during a run. -/
abbrev evictedIn (r : ReaderImpl) (ops : List ReaderOp) : List (Guid × Nat) := Run.log step evicted r ops

/-- A sample is older than another of its writer. -/
def Precedes (e later : Guid × Nat) : Prop := later.1 = e.1 → e.2 < later.2

/-- All along the run the queue is within its depth, and no sample in it is
older than one of its writer that was popped for depth. -/
def KeepsNewest (start : ReaderImpl) (ops : List ReaderOp) : Prop :=
  ∀ first, first <+: ops → (Run.exec step start first).queue.length ≤ start.qos.depth.toNat ∧
    ∀ e ∈ start.evictedIn first, ∀ q ∈ (Run.exec step start first).keys, Precedes e q

/-- When a sample is accepted into a queue at its depth, the one accepted
`depth` samples before it is older than all of its writer accepted after it. -/
def InTurn (start : ReaderImpl) (ops : List ReaderOp) : Prop :=
  ∀ first op, first ++ [op] <+: ops → (Run.exec step start first).accepted op ≠ [] →
    (Run.exec step start first).queue.length = start.qos.depth.toNat →
    ∀ before e after, start.acceptedIn ops = before ++ e :: after →
      before.length + start.qos.depth.toNat = (start.acceptedIn first).length → ∀ later ∈ after, Precedes e later

theorem exec_qos (r : ReaderImpl) (ops : List ReaderOp) : (Run.exec step r ops).qos = r.qos := by
  induction ops using List.reverseRecOn with
  | nil => rfl
  | append_singleton ops op ih =>
    rw [Run.exec_snoc, (step_static _ op).2.2.2.1, ih]

/-- What happens when a sample is accepted at depth: the one accepted `depth`
samples before is popped, and the newcomer joins those between. -/
theorem KeepsLast.evicts {start : ReaderImpl} (keeps : start.KeepsLast) (empty : start.queue = []) {first : List ReaderOp}
    {op : ReaderOp} (lasting : ∀ op ∈ first, op.Lasting) (lastingOp : op.Lasting)
    (accepts : (Run.exec step start first).accepted op ≠ [])
    (full : (Run.exec step start first).queue.length = start.qos.depth.toNat) :
    ∃ gone front rest key, start.acceptedIn first = gone ++ front :: rest ∧
      gone.length + start.qos.depth.toNat = (start.acceptedIn first).length ∧
      (Run.exec step start first).evicted op = [front] ∧ (Run.exec step start first).accepted op = [key] ∧
      (Run.exec step start (first ++ [op])).keys = rest ++ [key] := by
  obtain ⟨before, gone, window⟩ := keeps.window lasting
  obtain ⟨_, ⟨none, _⟩ | ⟨key, one, ⟨room, _⟩ | ⟨front, rest, _, held, popped, grown⟩⟩⟩ := before.step_cases lastingOp
  · exact absurd none accepts
  · rw [exec_qos] at room
    omega
  · have nothing : start.keys = [] := by
      rw [keys, empty]
      rfl
    rw [nothing, List.nil_append] at window
    refine ⟨gone, front, rest, key, by rw [← window, held], ?_, popped, one, by rw [Run.exec_snoc, grown]⟩
    rw [← window, List.length_append, keys, List.length_map, full]

theorem KeepsLast.keepsNewest {start : ReaderImpl} (keeps : start.KeepsLast) (empty : start.queue = [])
    {ops : List ReaderOp} (lasting : ∀ op ∈ ops, op.Lasting) (inTurn : start.InTurn ops) : start.KeepsNewest ops := by
  rintro first ⟨beyond, rfl⟩
  have earlier : ∀ op ∈ first, op.Lasting := fun op inside => lasting op (List.mem_append_left _ inside)
  constructor
  · rw [← exec_qos start first]
    exact (keeps.window earlier).1.within
  · intro e popped q queued
    obtain ⟨f, op, rest, rfl, now⟩ := Run.exists_of_mem_log popped
    have lastingF : ∀ op ∈ f, op.Lasting := fun op inside => earlier op (List.mem_append_left _ inside)
    have lastingOp := earlier op (List.mem_append_right _ List.mem_cons_self)
    have split : f ++ op :: rest ++ beyond = (f ++ [op]) ++ (rest ++ beyond) := by simp
    have inside : f ++ [op] <+: f ++ op :: rest ++ beyond := split ▸ List.prefix_append ..
    -- The pop tells that the operation accepted a sample at depth.
    have filled : (Run.exec step start f).accepted op ≠ [] ∧
        (Run.exec step start f).queue.length = start.qos.depth.toNat := by
      rcases ((keeps.window lastingF).1.step_cases lastingOp).2 with
        ⟨_, none, _⟩ | ⟨key, one, ⟨_, none, _⟩ | ⟨front, between, full, _, _, _⟩⟩
      · rw [none] at now
        exact absurd now List.not_mem_nil
      · rw [none] at now
        exact absurd now List.not_mem_nil
      · exact ⟨by rw [one]; exact List.cons_ne_nil _ _, by rw [full, exec_qos]⟩
    obtain ⟨gone, front, between, key, accepted, place, pops, joins, left⟩ :=
      keeps.evicts empty lastingF lastingOp filled.1 filled.2
    rw [pops] at now
    obtain rfl := List.mem_singleton.mp now
    have upTo : start.acceptedIn (f ++ [op]) = gone ++ e :: (between ++ [key]) := by
      rw [acceptedIn, Run.log_snoc, joins]
      exact (congrArg (· ++ [key]) accepted).trans (by simp)
    have upToNow : ∀ other ∈ f ++ [op], other.Lasting := by
      intro other inside
      rcases List.mem_append.mp inside with before | here
      · exact lastingF other before
      · exact List.mem_singleton.mp here ▸ lastingOp
    have afterwards : ∀ other ∈ rest, other.Lasting := fun other inside => earlier other (by simp [inside])
    have window := ((keeps.window upToNow).1.window afterwards).2
    rw [← Run.exec_append, left] at window
    have among : q ∈ between ++ [key] ++ Run.log step ReaderImpl.accepted (Run.exec step start (f ++ [op])) rest := by
      refine window.subset ?_
      rwa [show f ++ [op] ++ rest = f ++ op :: rest by simp]
    refine inTurn f op inside filled.1 filled.2 gone e _ ?_ place q (List.mem_append_left
      (Run.log step ReaderImpl.accepted (Run.exec step start (f ++ [op] ++ rest)) beyond) among)
    rw [acceptedIn, split, ← List.append_assoc, Run.log_append, Run.log_append]
    refine (congrArg (· ++ _ ++ _) upTo).trans ?_
    simp

theorem KeepsLast.inTurn {start : ReaderImpl} (keeps : start.KeepsLast) (empty : start.queue = [])
    {ops : List ReaderOp} (lasting : ∀ op ∈ ops, op.Lasting) (newest : start.KeepsNewest ops) : start.InTurn ops := by
  rintro first op inside accepts full before e after accepted place later behind
  obtain ⟨beyond, rfl⟩ := inside
  have lastingF : ∀ op ∈ first, op.Lasting := fun op inside => lasting op (by simp [inside])
  have lastingOp : op.Lasting := lasting op (by simp)
  obtain ⟨gone, front, between, key, upTo, length, pops, joins, left⟩ :=
    keeps.evicts empty lastingF lastingOp accepts full
  have whole : start.acceptedIn (first ++ [op] ++ beyond) = gone ++ front :: (between ++ [key] ++
      Run.log step ReaderImpl.accepted (Run.exec step start (first ++ [op])) beyond) := by
    rw [acceptedIn, Run.log_append, Run.log_snoc, joins]
    refine (congrArg (· ++ [key] ++ _) upTo).trans ?_
    simp
  obtain ⟨rfl, same⟩ := List.append_inj (accepted.symm.trans whole) (by omega)
  obtain ⟨rfl, rfl⟩ := List.cons.inj same
  have popped : e ∈ start.evictedIn (first ++ [op]) := by
    rw [evictedIn, Run.log_snoc, pops]
    exact List.mem_append_right _ List.mem_cons_self
  rcases List.mem_append.mp behind with near | far
  · exact (newest (first ++ [op]) (List.prefix_append ..)).2 e popped later (left ▸ near)
  · -- Right after it was accepted, the later sample is in the queue.
    obtain ⟨f, event, rest, rfl, now⟩ := Run.exists_of_mem_log far
    rw [← Run.exec_append] at now
    have lastingE : event.Lasting := lasting event (by simp)
    have earlier : ∀ other ∈ first ++ [op] ++ f, other.Lasting :=
      fun other inside => lasting other (by
        rw [← List.append_assoc]
        exact List.mem_append_left _ inside)
    have before := (keeps.window earlier).1
    have queued : later ∈ (Run.exec step start (first ++ [op] ++ f ++ [event])).keys := by
      rw [Run.exec_snoc]
      rcases (before.step_cases lastingE).2 with ⟨none, _⟩ | ⟨fresh, one, ⟨_, _, grown⟩ | ⟨_, _, _, _, _, grown⟩⟩
      · rw [none] at now
        exact absurd now List.not_mem_nil
      · rw [one] at now
        rw [grown, List.mem_singleton.mp now]
        exact List.mem_append_right _ List.mem_cons_self
      · rw [one] at now
        rw [grown, List.mem_singleton.mp now]
        exact List.mem_append_right _ List.mem_cons_self
    refine (newest (first ++ [op] ++ f ++ [event]) ⟨rest, by simp⟩).2 e ?_ later queued
    rw [evictedIn, List.append_assoc (first ++ [op]), Run.log_append]
    exact List.mem_append_left _ popped

/-- A KEEP_LAST reader keeps the newest samples of each writer exactly if
every sample popped for depth is older than all of its writer accepted later. -/
theorem keep_last_iff {qos : QosProfile} (guid : Guid) (topic type : Bytes) (ignoreLocal : Bool) (birthUs : U64)
    {ops : List ReaderOp} (keepLast : qos.history = .keepLast) (valid : qosValid qos = true)
    (lasting : ∀ op ∈ ops, op.Lasting) :
    (create guid topic type qos ignoreLocal birthUs).KeepsNewest ops ↔
      (create guid topic type qos ignoreLocal birthUs).InTurn ops := by
  have keeps : (create guid topic type qos ignoreLocal birthUs).KeepsLast := by
    refine ⟨keepLast, qosValid_depth valid (fun all => absurd (keepLast.symm.trans all) (by decide)), ?_, Nat.zero_le _⟩
    exact fun q queued => absurd queued List.not_mem_nil
  exact ⟨keeps.inTurn rfl lasting, keeps.keepsNewest rfl lasting⟩

/-- A retransmission of seq 1 that arrives after seq 2 evicts it from a queue of one. -/
theorem late_retransmission_evicts_newest :
    ¬ (create default [] [] { depth := 1 } false 0).KeepsNewest
      [.enqueue default 2 [] {} 0 0 0, .enqueue default 1 [] {} 0 0 0] := by
  intro newest
  have older := (newest _ (List.prefix_refl _)).2 (default, 2) (by decide) (default, 1) (by decide) rfl
  exact absurd older (by decide)

/-- In their own order the queue of one holds the last. -/
theorem keep_last_in_order :
    (create default [] [] { depth := 1 } false 0).KeepsNewest
      [.enqueue default 1 [] {} 0 0 0, .enqueue default 2 [] {} 0 0 0] := by
  refine (@keep_last_iff { depth := 1 } default [] [] false 0 _ rfl rfl (by simp [ReaderOp.Lasting])).mpr ?_
  intro first op inside accepts full before e after accepted place later behind
  have both : (create default [] [] { depth := 1 } false 0).acceptedIn
      [.enqueue default 1 [] {} 0 0 0, .enqueue default 2 [] {} 0 0 0] = [(default, 1), (default, 2)] := by decide
  rw [both] at accepted
  match before with
  | [] =>
    obtain ⟨rfl, rfl⟩ := List.cons.inj accepted
    rw [List.mem_singleton.mp behind]
    exact fun _ => by decide
  | [_] =>
    obtain ⟨_, rest⟩ := List.cons.inj accepted
    obtain ⟨_, rfl⟩ := List.cons.inj rest
    exact absurd behind List.not_mem_nil
  | _ :: _ :: more =>
    have size := congrArg List.length accepted
    simp at size

end ReaderImpl

end Mdds
