import Mdds.Link

namespace Mdds

/-- The operation hands seq `s` of writer `g` to the reader. -/
def ReaderOp.Carries (g : Guid) (s : Nat) : ReaderOp → Prop
  | .enqueue writer seq _ _ _ _ _ => writer = g ∧ seq.toNat = s
  | _ => False

namespace ReaderImpl

/-- As long as seq `s` of writer `g` is outstanding, the operation neither
jumps over it nor gives it up, and does not bring it too late. -/
def Spares (g : Guid) (s : Nat) (r : ReaderImpl) : ReaderOp → Prop
  | .enqueue writer seq _ writerQos pubTimeMs now _ => writer = g → ¬ r.Settled g s →
      ¬ ((r.rxState g).Jumps seq ∧ s < seq.toNat) ∧
        (seq.toNat = s → lifespanExpired writerQos.lifespanMs pubTimeMs now = false)
  | .applyGap writer _ gapEnd => writer = g → ¬ r.Settled g s → gapEnd.toNat < s
  | _ => True

instance (g : Guid) (s : Nat) (r : ReaderImpl) : ∀ op, Decidable (r.Spares g s op)
  | .enqueue writer seq _ writerQos pubTimeMs now _ =>
    inferInstanceAs (Decidable (writer = g → ¬ r.Settled g s → ¬ ((r.rxState g).Jumps seq ∧ s < seq.toNat) ∧
      (seq.toNat = s → lifespanExpired writerQos.lifespanMs pubTimeMs now = false)))
  | .applyGap writer _ gapEnd => inferInstanceAs (Decidable (writer = g → ¬ r.Settled g s → gapEnd.toNat < s))
  | .take _ => isTrue trivial
  | .available _ => isTrue trivial

variable {r : ReaderImpl} {g : Guid} {s : Nat}

theorem spares_of_settled (settled : r.Settled g s) (op : ReaderOp) : r.Spares g s op := by
  cases op with
  | enqueue => exact fun _ outstanding => absurd settled outstanding
  | applyGap => exact fun _ outstanding => absurd settled outstanding
  | take => trivial
  | available => trivial

theorem along_spares_of_settled (range : ∀ g, (r.rxState g).InRange) (settled : r.Settled g s) (ops : List ReaderOp) :
    Run.Along step (Spares g s) r ops := by
  induction ops generalizing r with
  | nil => trivial
  | cons op rest ih =>
    refine ⟨spares_of_settled settled op, ih (step_inRange range op) ?_⟩
    exact (step_settled range op g s).mpr (Or.inl settled)

theorem not_accepted_of_settled (range : ∀ g, (r.rxState g).InRange) (settled : r.Settled g s) (ops : List ReaderOp) :
    (g, s) ∉ r.pushedIn ops := by
  induction ops generalizing r with
  | nil => exact List.not_mem_nil
  | cons op rest ih =>
    have later := ih (step_inRange range op) ((step_settled range op g s).mpr (Or.inl settled))
    intro member
    rcases List.mem_append.mp member with now | after
    · exact (accepted_iff ((pushed_sublist r op).subset now)).1 settled
    · exact later after

theorem settled_of_carries (range : ∀ g, (r.rxState g).InRange) {op : ReaderOp} (carries : op.Carries g s) :
    (r.step op).Settled g s := by
  cases op with
  | enqueue writer seq data writerQos pubTimeMs now sweepNow =>
    obtain ⟨rfl, rfl⟩ := carries
    rw [Settled, step_rxState]
    simp only [if_true]
    exact (WriterRxState.receive_settled (range writer) seq _).mpr (Or.inr (Or.inl rfl))
  | applyGap => exact carries.elim
  | take => exact carries.elim
  | available => exact carries.elim

theorem spares_of_not_settles (range : ∀ g, (r.rxState g).InRange) {op : ReaderOp}
    (unsettled : ¬ (r.step op).Settled g s) : r.Spares g s op := by
  have kept : ¬ r.GivesUp g s op := fun given => unsettled ((step_settled range op g s).mpr (Or.inr (Or.inr given)))
  cases op with
  | enqueue writer seq data writerQos pubTimeMs now sweepNow =>
    rintro rfl _
    refine ⟨fun jump => kept ⟨rfl, jump⟩, fun here => ?_⟩
    have carries : (ReaderOp.enqueue writer seq data writerQos pubTimeMs now sweepNow).Carries writer s := ⟨rfl, here⟩
    exact absurd (settled_of_carries range carries) unsettled
  | applyGap writer gapStart gapEnd =>
    rintro rfl _
    exact Nat.lt_of_not_le (fun covered => kept ⟨rfl, covered⟩)
  | take now => trivial
  | available now => trivial

/-- The operation that settles an outstanding seq pushes it exactly when it
spares it. -/
theorem pushed_iff_spares (range : ∀ g, (r.rxState g).InRange) {op : ReaderOp} (outstanding : ¬ r.Settled g s)
    (settles : (r.step op).Settled g s) : (r.pushed op).count (g, s) = 1 ↔ r.Spares g s op := by
  rcases (step_settled range op g s).mp settles with old | taken | given
  · exact absurd old outstanding
  · cases op with
    | enqueue writer seq data writerQos pubTimeMs now sweepNow =>
      simp only [accepted] at taken
      split at taken
      · rename_i new
        obtain ⟨rfl, rfl⟩ := Prod.mk.inj (List.mem_singleton.mp taken)
        simp only [pushed, enqueue_queued, new, Bool.true_and, Spares, outstanding, not_false_eq_true, true_imp_iff,
          lt_irrefl, and_false, true_and]
        cases lifespanExpired writerQos.lifespanMs pubTimeMs now <;> simp
      · exact absurd taken List.not_mem_nil
    | applyGap => exact absurd taken List.not_mem_nil
    | take => exact absurd taken List.not_mem_nil
    | available => exact absurd taken List.not_mem_nil
  · cases op with
    | enqueue writer seq data writerQos pubTimeMs now sweepNow =>
      obtain ⟨rfl, jump, below⟩ := given
      refine iff_of_false (fun once => ?_) (fun spares => (spares rfl outstanding).1 ⟨jump, below⟩)
      have member : (writer, s) ∈ r.pushed (.enqueue writer seq data writerQos pubTimeMs now sweepNow) :=
        List.count_pos_iff.mp (by omega)
      simp only [pushed] at member
      split at member
      · have same := (Prod.mk.inj (List.mem_singleton.mp member)).2
        omega
      · exact absurd member List.not_mem_nil
    | applyGap writer gapStart gapEnd =>
      obtain ⟨rfl, covered⟩ := given
      refine iff_of_false (by simp [pushed]) (fun spares => ?_)
      have above := spares rfl outstanding
      omega
    | take => exact given.elim
    | available => exact given.elim

/-- A seq that is handed over at least once is queued exactly once if and
only if every operation spares it. -/
theorem pushed_once_iff (range : ∀ g, (r.rxState g).InRange) (outstanding : ¬ r.Settled g s) {ops : List ReaderOp}
    (arrives : ∃ op ∈ ops, op.Carries g s) :
    (r.pushedIn ops).count (g, s) = 1 ↔ Run.Along step (Spares g s) r ops := by
  induction ops generalizing r with
  | nil =>
    obtain ⟨_, member, _⟩ := arrives
    exact absurd member List.not_mem_nil
  | cons op rest ih =>
    have next := step_inRange range op
    rw [pushedIn, Run.log, List.count_append, Run.Along]
    by_cases settles : (r.step op).Settled g s
    · have never := List.count_eq_zero_of_not_mem (not_accepted_of_settled next settles rest)
      rw [pushedIn] at never
      rw [never, Nat.add_zero, pushed_iff_spares range outstanding settles]
      exact (and_iff_left (along_spares_of_settled next settles rest)).symm
    · have spares := spares_of_not_settles range settles
      have silent : (r.pushed op).count (g, s) = 0 := by
        refine List.count_eq_zero_of_not_mem (fun member => settles ?_)
        exact (step_settled range op g s).mpr (Or.inr (Or.inl ((pushed_sublist r op).subset member)))
      rw [silent, Nat.zero_add, and_iff_right spares]
      refine ih next settles ?_
      obtain ⟨carrier, member, carries⟩ := arrives
      rcases List.mem_cons.mp member with rfl | later
      · exact absurd (settled_of_carries range carries) settles
      · exact ⟨carrier, later, carries⟩

end ReaderImpl

/-- A writer and a reader of one participant. `live` holds the samples whose
writes have left the lock but are not yet enqueued, `todo` the rest of a
replay in progress, which keeps the participant lock. -/
structure LocalPair where
  writer : WriterImpl
  reader : ReaderImpl
  registered : Bool := false
  live : List CachedSample := []
  todo : List CachedSample := []

inductive LocalEvent
  | write (pubTimeUs : U64) (data : Bytes) (now : U64)
  | enqueueLive (index : Nat) (clock : U64 × U64)
  | register
  | replay (now : U64)
  | enqueueReplay (clock : U64 × U64)
  | use (op : ReaderOp)

namespace LocalPair
variable (l : LocalPair)

/-- The test of `write_sample` on a local reader. -/
def offered : Bool :=
  l.registered && !l.reader.ignoreLocal && l.reader.topic = l.writer.topic && l.reader.type = l.writer.type &&
    qosAcceptedByReader l.reader.qos l.writer.qos

/-- The tests of `replay_local_history`. -/
def replays : Bool :=
  l.registered && l.reader.qos.durability = .transientLocal && !l.reader.ignoreLocal &&
    l.writer.qos.durability = .transientLocal && l.writer.topic = l.reader.topic && l.writer.type = l.reader.type &&
    qosAcceptedByReader l.reader.qos l.writer.qos

def enqueueOp (e : CachedSample) (clock : U64 × U64) : ReaderOp :=
  .enqueue l.writer.guid e.seq e.data l.writer.qos e.pubTimeMs clock.1 clock.2

/-- The call on the reader that an event amounts to. -/
def readerOp : LocalEvent → Option ReaderOp
  | .enqueueLive index clock => l.live[index]?.map (l.enqueueOp · clock)
  | .enqueueReplay clock => l.todo.head?.map (l.enqueueOp · clock)
  | .use op => if op.writer? = some l.writer.guid then none else some op
  | _ => none

def step (event : LocalEvent) : LocalPair :=
  let called := { l with reader := Run.exec ReaderImpl.step l.reader (l.readerOp event).toList }
  match event with
  | .write pubTimeUs data now =>
    match l.todo, l.writer.publish pubTimeUs data now with
    | [], some (next, sample) => { l with writer := next, live := if l.offered then l.live ++ [sample] else l.live }
    | _, _ => l
  | .enqueueLive index _ => { called with live := l.live.eraseIdx index }
  | .register => { l with registered := true }
  | .replay now => if l.todo = [] ∧ l.replays then { l with todo := l.writer.replayable now } else l
  | .enqueueReplay _ => { called with todo := l.todo.tail }
  | .use _ => called

theorem step_reader (event : LocalEvent) :
    (l.step event).reader = Run.exec ReaderImpl.step l.reader (l.readerOp event).toList := by
  cases event with
  | write pubTimeUs data now =>
    simp only [step]
    split <;> rfl
  | replay now =>
    simp only [step]
    split <;> rfl
  | enqueueLive index clock => rfl
  | register => rfl
  | enqueueReplay clock => rfl
  | use op => rfl

theorem step_writer (event : LocalEvent) :
    (l.step event).writer = l.writer ∨
    ∃ pubTimeUs data now sample, event = .write pubTimeUs data now ∧
      l.writer.publish pubTimeUs data now = some ((l.step event).writer, sample) := by
  cases event with
  | write pubTimeUs data now =>
    simp only [step]
    split
    · rename_i next sample _ accepted
      exact Or.inr ⟨pubTimeUs, data, now, sample, rfl, accepted⟩
    · exact Or.inl rfl
  | replay now =>
    simp only [step]
    split <;> exact Or.inl rfl
  | enqueueLive index clock => exact Or.inl rfl
  | register => exact Or.inl rfl
  | enqueueReplay clock => exact Or.inl rfl
  | use op => exact Or.inl rfl

theorem step_writer_guid (event : LocalEvent) : (l.step event).writer.guid = l.writer.guid := by
  rcases l.step_writer event with same | ⟨_, _, _, _, _, accepted⟩
  · rw [same]
  · exact (WriterImpl.publish_guid accepted).1

/-- The seqs queued at the reader during a run. -/
def queuedIn (events : List LocalEvent) : List (Guid × Nat) :=
  l.reader.pushedIn (Run.log step (fun l event => (l.readerOp event).toList) l events)

/-- The event spares a seq at the reader. -/
def Spares (g : Guid) (s : Nat) (event : LocalEvent) : Prop :=
  Run.Lift (ReaderImpl.Spares g s) l.reader (l.readerOp event)

instance (g : Guid) (s : Nat) (event : LocalEvent) : Decidable (l.Spares g s event) :=
  inferInstanceAs (Decidable (Run.Lift _ _ _))

/-- A replay that has come to its end has handed over all it took. -/
theorem todo_enqueued {l : LocalPair} {e : CachedSample} {events : List LocalEvent} (member : e ∈ l.todo)
    (finished : (Run.exec step l events).todo = []) :
    ∃ op ∈ Run.log step (fun l event => (l.readerOp event).toList) l events, op.Carries l.writer.guid e.seq.toNat := by
  induction events generalizing l with
  | nil => exact absurd (finished ▸ member) List.not_mem_nil
  | cons event rest ih =>
    by_cases still : e ∈ (l.step event).todo
    · obtain ⟨op, inside, carries⟩ := ih still finished
      rw [step_writer_guid] at carries
      exact ⟨op, List.mem_append_right _ inside, carries⟩
    · cases event with
      | enqueueReplay clock =>
        cases todo : l.todo with
        | nil => exact absurd (todo ▸ member) List.not_mem_nil
        | cons head tail =>
          have here : e = head := by
            rw [todo] at member
            refine (List.mem_cons.mp member).resolve_right (fun later => still ?_)
            simpa [step, todo] using later
          refine ⟨l.enqueueOp e clock, List.mem_append_left _ ?_, rfl, rfl⟩
          simp [readerOp, todo, here]
      | write pubTimeUs data now =>
        refine absurd ?_ still
        simp only [step]
        split <;> exact member
      | replay now =>
        refine absurd ?_ still
        simp only [step]
        split
        · rename_i idle
          exact absurd (idle.1 ▸ member) List.not_mem_nil
        · exact member
      | enqueueLive index clock => exact absurd member still
      | register => exact absurd member still
      | use op => exact absurd member still

end LocalPair

namespace Link
variable (l : Link)

def queuedIn (events : List LinkEvent) : List (Guid × Nat) :=
  l.reader.pushedIn (Run.log step (fun l event => (l.readerOp event).toList) l events)

def Spares (g : Guid) (s : Nat) (event : LinkEvent) : Prop :=
  Run.Lift (ReaderImpl.Spares g s) l.reader (l.readerOp event)

instance (g : Guid) (s : Nat) (event : LinkEvent) : Decidable (l.Spares g s event) :=
  inferInstanceAs (Decidable (Run.Lift _ _ _))

/-- The event hands a frame to a reader whose participant knows the writer. -/
def Delivers (frame : Frame) (event : LinkEvent) : Prop :=
  ∃ index clock, event = .toReader index clock ∧ l.toReader[index]? = some frame ∧ l.writerKnown = true

theorem step_record (event : LinkEvent) :
    (l.step event).writer.record = l.writer.record ∧ (l.step event).reader.record = l.reader.record := by
  refine ⟨?_, ?_⟩
  · rcases l.step_writer event with same | ⟨_, _, _, _, _, accepted⟩
    · rw [same]
    · exact WriterImpl.publish_record accepted
  · rw [step_reader]
    cases l.readerOp event with
    | none => rfl
    | some op =>
      obtain ⟨guid, topic, type, qos, birth, _⟩ := l.reader.step_static op
      change (l.reader.step op).record = _
      simp only [ReaderImpl.record, guid, topic, type, qos, birth]

/-- A delivered DATA frame of this writer is a call of `enqueue`. -/
theorem delivers_carries {l : Link} {writer : Guid} {e : CachedSample} {reliableFlag : Bool} {events : List LinkEvent}
    (here : writer = l.writer.guid)
    (accepted : endpointsMatch l.reader.topic l.reader.type l.reader.qos l.writer.record = true)
    (delivered : Run.Happened step (Delivers · (.data writer e reliableFlag)) l events) :
    ∃ op ∈ Run.log step (fun l event => (l.readerOp event).toList) l events, op.Carries writer e.seq.toNat := by
  induction events generalizing l with
  | nil => exact delivered.elim
  | cons event rest ih =>
    rcases delivered with ⟨index, clock, rfl, found, known⟩ | later
    · refine ⟨.enqueue writer e.seq e.data l.writer.qos e.pubTimeMs clock.1 clock.2,
        List.mem_append_left _ ?_, rfl, rfl⟩
      simp [readerOp, found, frameOp, known, here, accepted]
    · obtain ⟨writerSame, readerSame⟩ := l.step_record event
      obtain ⟨guid, _⟩ := WriterImpl.of_record writerSame
      obtain ⟨_, topic, type, qos⟩ := ReaderImpl.of_record readerSame
      obtain ⟨op, inside, carries⟩ := ih (here.trans guid.symm) (by rw [topic, type, qos, writerSame]; exact accepted) later
      exact ⟨op, List.mem_append_right _ inside, carries⟩

end Link

/-- Replay against the live stream, locally and to a remote reader: a sample
of the history that the replay takes under the lock, and that is handed over,
is queued exactly once if and only if the reader does not jump over it, give
it up or find it expired first. -/
theorem replayed_once_iff (wguid rguid : Guid) (wtopic wtype rtopic rtype : Bytes) (wqos rqos : QosProfile)
    (ignoreLocal : Bool) (wbirthUs rbirthUs now : U64) (e : CachedSample) :
    let writer : WriterImpl := { guid := wguid, topic := wtopic, type := wtype, qos := wqos, birthUs := wbirthUs }
    let reader := ReaderImpl.create rguid rtopic rtype rqos ignoreLocal rbirthUs
    (∀ before after : List LocalEvent,
      let start : LocalPair := { writer, reader }
      let l := Run.exec LocalPair.step start before
      let events := before ++ .replay now :: after
      l.todo = [] → l.replays = true → e ∈ l.writer.replayable now →
        (Run.exec LocalPair.step start events).todo = [] →
        ((start.queuedIn events).count (wguid, e.seq.toNat) = 1 ↔
          0 < e.seq.toNat ∧ Run.Along LocalPair.step (LocalPair.Spares · wguid e.seq.toNat) start events)) ∧
    (∀ before after : List LinkEvent,
      let start : Link := { writer, reader }
      let l := Run.exec Link.step start before
      let events := before ++ .replay now :: after
      endpointsMatch rtopic rtype rqos writer.record = true → e ∈ l.writer.replayable now →
        Run.Happened Link.step (Link.Delivers · (l.dataFrame e)) (l.step (.replay now)) after →
        ((start.queuedIn events).count (wguid, e.seq.toNat) = 1 ↔
          0 < e.seq.toNat ∧ Run.Along Link.step (Link.Spares · wguid e.seq.toNat) start events)) := by
  intro writer reader
  have range : ∀ g, (reader.rxState g).InRange := fun g => ReaderImpl.exec_inRange rfl [] g
  -- a wrapped seq counts as settled from the start
  have queued {ops : List ReaderOp} (arrives : ∃ op ∈ ops, op.Carries wguid e.seq.toNat) :
      (reader.pushedIn ops).count (wguid, e.seq.toNat) = 1 ↔
        0 < e.seq.toNat ∧ Run.Along ReaderImpl.step (ReaderImpl.Spares wguid e.seq.toNat) reader ops := by
    have initially : reader.Settled wguid e.seq.toNat ↔ e.seq.toNat = 0 := WriterRxState.settled_initial
    by_cases zero : e.seq.toNat = 0
    · have never := ReaderImpl.not_accepted_of_settled range (initially.mpr zero) ops
      rw [List.count_eq_zero_of_not_mem never]
      omega
    · rw [ReaderImpl.pushed_once_iff range (fun settled => zero (initially.mp settled)) arrives]
      exact (and_iff_right (Nat.pos_of_ne_zero zero)).symm
  refine ⟨fun before after => ?_, fun before after => ?_⟩
  · intro start l events idle replays member finished
    have guid : l.writer.guid = wguid := by
      have kept : ∀ (l : LocalPair) (event : LocalEvent), l.writer.guid = wguid → (l.step event).writer.guid = wguid :=
        fun l event same => (l.step_writer_guid event).trans same
      exact Run.invariant kept before rfl
    have taken : (l.step (.replay now)).todo = l.writer.replayable now ∧
        (l.step (.replay now)).writer.guid = wguid := by
      refine ⟨?_, (l.step_writer_guid _).trans guid⟩
      simp only [LocalPair.step, if_pos (And.intro idle replays)]
    have ends : (Run.exec LocalPair.step (l.step (.replay now)) after).todo = [] := by
      rw [← finished, Run.exec_append]
      rfl
    obtain ⟨op, inside, carries⟩ := LocalPair.todo_enqueued (taken.1 ▸ member) ends
    rw [taken.2] at carries
    have lifted := Run.along_lift (ReaderImpl.Spares wguid e.seq.toNat) LocalPair.step_reader start events
    refine Iff.trans (queued ⟨op, ?_, carries⟩) (and_congr_right fun _ => lifted.symm)
    rw [Run.log_append]
    exact List.mem_append_right _ (List.mem_append_right _ inside)
  · intro start l events accepted member delivered
    have static : l.writer.record = writer.record ∧ l.reader.record = reader.record := by
      have kept : ∀ (l : Link) (event : LinkEvent),
          l.writer.record = writer.record ∧ l.reader.record = reader.record →
          (l.step event).writer.record = writer.record ∧ (l.step event).reader.record = reader.record :=
        fun l event same => ⟨(l.step_record event).1.trans same.1, (l.step_record event).2.trans same.2⟩
      exact Run.invariant kept before ⟨rfl, rfl⟩
    have after' : (l.step (.replay now)).writer.record = writer.record ∧
        (l.step (.replay now)).reader.record = reader.record :=
      ⟨(l.step_record _).1.trans static.1, (l.step_record _).2.trans static.2⟩
    have topic : (l.step (.replay now)).reader.topic = rtopic := congrArg EndpointRecord.topic after'.2
    have type : (l.step (.replay now)).reader.type = rtype := congrArg EndpointRecord.typeName after'.2
    have qos : (l.step (.replay now)).reader.qos = rqos := congrArg EndpointRecord.qos after'.2
    have guid : l.writer.guid = wguid := congrArg EndpointRecord.guid static.1
    obtain ⟨op, inside, carries⟩ := Link.delivers_carries
      ((congrArg EndpointRecord.guid static.1).trans (congrArg EndpointRecord.guid after'.1).symm)
      (by rw [topic, type, qos, after'.1]; exact accepted) delivered
    have lifted := Run.along_lift (ReaderImpl.Spares wguid e.seq.toNat) Link.step_reader start events
    refine Iff.trans (queued ⟨op, ?_, guid ▸ carries⟩) (and_congr_right fun _ => lifted.symm)
    rw [Run.log_append]
    exact List.mem_append_right _ (List.mem_append_right _ inside)

/-- A KEEP_ALL history of 64 samples; the write of seq 65 comes between the
registration of a local reader and its replay, and is enqueued first. The
reader jumps to 65 and drops the whole replay as stale. -/
theorem replay_dropped_after_live_sample :
    let qos : QosProfile := { durability := .transientLocal, history := .keepAll }
    let start : LocalPair :=
      { writer := { guid := default, topic := [], type := [], qos }
        reader := ReaderImpl.create default [] [] qos false 0 }
    let before : List LocalEvent :=
      List.replicate 64 (.write 1 [] 0) ++ [.register, .write 2 [] 0, .enqueueLive 0 (0, 0)]
    let l := Run.exec LocalPair.step start before
    let events := before ++ .replay 0 :: List.replicate 65 (.enqueueReplay (0, 0))
    (l.todo = [] ∧ l.replays = true ∧ (Run.exec LocalPair.step start events).todo = []) ∧
      (⟨1, 0, 1, []⟩ : CachedSample) ∈ l.writer.replayable 0 ∧ (start.queuedIn events).count (default, 1) = 0 := by
  decide +kernel

theorem replay_queues_history_once :
    let qos : QosProfile := { durability := .transientLocal, history := .keepAll }
    let writer : WriterImpl := { guid := default, topic := [], type := [], qos }
    let reader := ReaderImpl.create default [] [] qos false 0
    let localStart : LocalPair := { writer, reader }
    let remoteStart : Link := { writer, reader }
    (localStart.queuedIn [.write 1 [] 0, .register, .replay 0, .enqueueReplay (0, 0)]).count (default, 1) = 1 ∧
      (remoteStart.queuedIn [.knowWriter true, .write 1 [] 0, .replay 0, .toReader 1 (0, 0)]).count (default, 1) = 1 := by
  intro qos writer reader localStart remoteStart
  have once := replayed_once_iff default default [] [] [] [] qos qos false 0 0 0 ⟨1, 0, 1, []⟩
  refine ⟨?_, ?_⟩
  · exact (once.1 [.write 1 [] 0, .register] [.enqueueReplay (0, 0)] (by decide) (by decide) (by decide)
      (by decide)).mpr (by decide)
  · exact (once.2 [.knowWriter true, .write 1 [] 0] [.toReader 1 (0, 0)] (by decide) (by decide)
      (Or.inl ⟨1, (0, 0), rfl, by decide, by decide⟩)).mpr (by decide)

end Mdds
