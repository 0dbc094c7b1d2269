import Mdds.Running

namespace Mdds

/-- Publication times and bytes as the samples they become behind `n` earlier
ones: the seqs count on from `n + 1` on 64 bits. -/
def numberedSamples : Nat → List (U64 × Bytes) → List CachedSample
  | _, [] => []
  | n, (pubTimeUs, data) :: rest =>
    ⟨BitVec.ofNat 64 (n + 1), pubTimeUs / 1000, pubTimeUs, data⟩ :: numberedSamples (n + 1) rest

theorem numberedSamples_snoc (n : Nat) (written : List (U64 × Bytes)) (pubTimeUs : U64) (data : Bytes) :
    numberedSamples n (written ++ [(pubTimeUs, data)]) = numberedSamples n written ++
      [⟨BitVec.ofNat 64 (n + written.length + 1), pubTimeUs / 1000, pubTimeUs, data⟩] := by
  induction written generalizing n with
  | nil => rfl
  | cons head rest ih =>
    rw [List.cons_append, numberedSamples, ih, numberedSamples, List.cons_append, List.length_cons]
    congr 5
    omega

theorem numberedSamples_last (n : Nat) (written : List (U64 × Bytes)) {last : CachedSample}
    (ends : (numberedSamples n written).getLast? = some last) : last.seq = BitVec.ofNat 64 (n + written.length) := by
  rcases List.eq_nil_or_concat' written with rfl | ⟨before, ⟨pubTimeUs, data⟩, rfl⟩
  · cases ends
  · rw [numberedSamples_snoc, List.getLast?_concat] at ends
    obtain rfl := Option.some.inj ends
    rw [List.length_append, List.length_singleton, Nat.add_assoc]

namespace WriterImpl

/-- How many samples the history may hold. -/
def historyLimit (qos : QosProfile) : Nat := if qos.history = .keepAll then kKeepAllCap else qos.depth.toNat

/-- The body `send_heartbeats` sends for one writer, if any. -/
def periodicHeartbeat (w : WriterImpl) : Option HeartbeatBody :=
  if w.qos.reliability = .reliable && !w.history.isEmpty then some ⟨w.guid, w.firstAvail, w.seq⟩ else none

/-- The accepted writes so far, counted by the seq, and the history as the
end of what they wrote. -/
structure Recorded (w : WriterImpl) (written : List (U64 × Bytes)) : Prop where
  seq : w.seq = BitVec.ofNat 64 written.length
  history : w.history <:+ numberedSamples 0 written
  size : w.history.length ≤ historyLimit w.qos
  caches : w.history ≠ [] → w.qos.reliability = .reliable ∨ w.qos.durability = .transientLocal

namespace Recorded
variable {w next : WriterImpl} {written : List (U64 × Bytes)}

theorem initial (fresh : w.history = []) (zero : w.seq = 0) : w.Recorded [] :=
  ⟨zero, fresh ▸ List.nil_suffix, by rw [fresh]; exact Nat.zero_le _, fun some => absurd fresh some⟩

theorem rematch (recorded : w.Recorded written) (matchedCount : Nat) :
    WriterImpl.Recorded { w with matchedCount } written :=
  ⟨recorded.seq, recorded.history, recorded.size, recorded.caches⟩

theorem historyCap_eq (valid : qosValid w.qos = true) : w.historyCap = historyLimit w.qos := by
  unfold historyCap historyLimit
  split
  · rfl
  · rename_i last
    have positive := qosValid_depth valid last
    omega

/-- An accepted write takes the next seq and stays or not within the end of
the history. -/
theorem publish (recorded : w.Recorded written) (valid : qosValid w.qos = true) {pubTimeUs now : U64} {data : Bytes}
    {sample : CachedSample} (accepted : w.publish pubTimeUs data now = some (next, sample)) :
    next.Recorded (written ++ [(pubTimeUs, data)]) ∧
      numberedSamples 0 (written ++ [(pubTimeUs, data)]) = numberedSamples 0 written ++ [sample] := by
  have moved : w.seq + 1 = BitVec.ofNat 64 (written.length + 1) := by
    rw [recorded.seq, BitVec.ofNat_add]
    rfl
  obtain ⟨made, done⟩ := publish_cases accepted
  have extended : numberedSamples 0 (written ++ [(pubTimeUs, data)]) = numberedSamples 0 written ++ [sample] := by
    rw [numberedSamples_snoc, made, moved, Nat.zero_add]
  have counted : BitVec.ofNat 64 (written ++ [(pubTimeUs, data)]).length = w.seq + 1 := by
    rw [moved, List.length_append, List.length_singleton]
  refine ⟨?_, extended⟩
  rcases done with ⟨silent, rfl⟩ | ⟨caching, history, suffix, size, rfl⟩
  · have empty : w.history = [] := by
      by_contra kept
      have caches := recorded.caches kept
      simp only [WriterImpl.caches, Bool.or_eq_false_iff, decide_eq_false_iff_not] at silent
      exact caches.elim silent.1 silent.2
    exact ⟨counted.symm, by simp [empty], by simp [empty], fun kept => absurd empty kept⟩
  · refine ⟨counted.symm, ?_, ?_, fun _ => ?_⟩
    · rw [extended]
      exact suffix.trans ((List.suffix_append_inj_of_length_eq rfl).mpr ⟨recorded.history, rfl⟩)
    · rw [← historyCap_eq valid]
      exact size
    · simpa [WriterImpl.caches] using caching

theorem last_seq (recorded : w.Recorded written) {last : CachedSample} (ends : w.history.getLast? = some last) :
    last.seq = w.seq := by
  obtain ⟨front, whole⟩ := recorded.history
  have nonempty : w.history ≠ [] := by
    rintro empty
    rw [empty] at ends
    cases ends
  have same : (numberedSamples 0 written).getLast? = some last := by
    rw [← whole, List.getLast?_append_of_ne_nil _ nonempty, ends]
  rw [numberedSamples_last 0 written same, recorded.seq, Nat.zero_add]

end Recorded

end WriterImpl

namespace Participant
variable {p : Participant} {addr : Addr} {w : WriterImpl} {pubTimeUs now : U64} {data : Bytes}

theorem writeLocked_none (found : p.writers.lookup addr = some w) (rejected : w.publish pubTimeUs data now = none) :
    p.writeLocked addr pubTimeUs data now = none := by
  rw [writeLocked, found, Option.bind_eq_bind, Option.bind_some, rejected]
  rfl

theorem writeLocked_some {result : WriterImpl × CachedSample} (found : p.writers.lookup addr = some w)
    (accepted : w.publish pubTimeUs data now = some result) :
    ∃ ticket, p.writeLocked addr pubTimeUs data now =
      some ({ p with writers := KeyedList.modify addr (fun _ => result.1) p.writers }, ticket) ∧
        ticket.sample = result.2 := by
  rw [writeLocked, found, Option.bind_eq_bind, Option.bind_some, accepted]
  exact ⟨_, rfl, rfl⟩

end Participant

/-- Whatever a call does to other tables, the writer at this address keeps all
but its match count. -/
def Participant.KeepsWriter (addr : Addr) (p q : Participant) : Prop :=
  ∀ w, p.writers.lookup addr = some w → ∃ matchedCount, q.writers.lookup addr = some { w with matchedCount }

namespace Participant.KeepsWriter
variable {addr : Addr} {p q r : Participant}

theorem of_writers (same : q.writers = p.writers) : p.KeepsWriter addr q :=
  fun w found => ⟨w.matchedCount, same ▸ found⟩

theorem of_lookup (same : q.writers.lookup addr = p.writers.lookup addr) : p.KeepsWriter addr q :=
  fun w found => ⟨w.matchedCount, same ▸ found⟩

theorem trans (first : p.KeepsWriter addr q) (second : q.KeepsWriter addr r) : p.KeepsWriter addr r := by
  intro w found
  obtain ⟨count, kept⟩ := first w found
  exact second { w with matchedCount := count } kept

theorem matched (keeps : p.KeepsWriter addr q) : p.KeepsWriter addr q.recomputeMatches := by
  refine trans keeps (fun w found => ?_)
  unfold Participant.recomputeMatches
  exact ⟨_, KeyedList.lookup_map.trans (by rw [found, Option.map_some])⟩

theorem createWriter {other : Addr} {topic type : Bytes} {qos : QosProfile} {birthUs : U64} (differ : addr ≠ other)
    (created : p.createWriter other topic type qos birthUs = some q) : p.KeepsWriter addr q := by
  unfold Participant.createWriter at created
  split at created
  · cases created
  · obtain rfl := Option.some.inj created
    exact matched (of_lookup (KeyedList.lookup_emplace_other differ))

theorem createReader {other : Addr} {topic type : Bytes} {qos : QosProfile} {ignoreLocal : Bool} {birthUs : U64}
    (created : p.createReader other topic type qos ignoreLocal birthUs = some q) : p.KeepsWriter addr q := by
  unfold Participant.createReader at created
  split at created
  · cases created
  · obtain rfl := Option.some.inj created
    exact matched (of_writers rfl)

theorem destroyWriter {other : Addr} (differ : addr ≠ other) : p.KeepsWriter addr (p.destroyWriter other) := by
  refine matched (of_lookup ?_)
  rw [KeyedList.lookup_erase, if_neg differ]

theorem lasting : Lasting (KeepsWriter addr) where
  trans := trans
  bookkeeping _ _ _ _ := of_writers rfl
  readers _ _ _ := of_writers rfl
  matched _ := matched (of_writers rfl)

end Participant.KeepsWriter

namespace Running
variable {s : Running} {addr : Addr}

/-- The state after one section, without the frames. -/
def next (s : Running) (turn : Section) : Running := (s.step turn).1

/-- What an accepted write at this address writes. -/
def accepts (addr : Addr) (s : Running) : Section → List (U64 × Bytes)
  | .write target pubTimeUs data now =>
    if target = addr ∧ (s.writeLocked addr pubTimeUs data now).isSome then [(pubTimeUs, data)] else []
  | _ => []

/-- The sample that an accepted write at this address hands out. -/
def publishes (addr : Addr) (s : Running) : Section → List CachedSample
  | .write target pubTimeUs data now =>
    if target = addr then ((s.writeLocked addr pubTimeUs data now).map (fun result => result.2.sample)).toList else []
  | _ => []

/-- Every section but a write at this address and its destruction. -/
theorem step_keepsWriter {turn : Section} (alive : turn ≠ .destroyWriter addr)
    (elsewhere : ∀ pubTimeUs data now, turn ≠ .write addr pubTimeUs data now) :
    s.toParticipant.KeepsWriter addr (s.next turn).toParticipant := by
  unfold next
  cases turn with
  | createWriter other topic type qos birthUs =>
    simp only [step]
    split
    · exact .of_writers rfl
    · rename_i unused
      intro w found
      have differ : addr ≠ other := by
        rintro rfl
        exact unused (by rw [found]; rfl)
      cases created : s.createWriter other topic type qos birthUs with
      | none => exact ⟨w.matchedCount, found⟩
      | some next => exact Participant.KeepsWriter.createWriter differ created w found
  | createReader other topic type qos ignoreLocal birthUs =>
    simp only [step]
    split
    · exact .of_writers rfl
    · intro w found
      cases created : s.createReader other topic type qos ignoreLocal birthUs with
      | none => exact ⟨w.matchedCount, found⟩
      | some next => exact Participant.KeepsWriter.createReader created w found
  | destroyWriter other => exact .destroyWriter (fun same => alive (same ▸ rfl))
  | destroyReader other => exact .matched (.of_writers rfl)
  | write target pubTimeUs data now =>
    simp only [step]
    split
    · exact .of_writers rfl
    · rename_i next ticket locked
      obtain ⟨w, found, locked⟩ := Option.bind_eq_some_iff.mp locked
      obtain ⟨⟨published, sample⟩, accepted, same⟩ := Option.bind_eq_some_iff.mp locked
      obtain ⟨rfl, _⟩ := Prod.mk.inj (Option.some.inj same)
      refine .of_lookup ?_
      rw [KeyedList.lookup_modify, if_neg (by rintro rfl; exact elsewhere pubTimeUs data now rfl)]
  | addNode | removeNode => exact .of_writers rfl
  | announceTick =>
    simp only [step]
    split <;> exact .of_writers rfl
  | _ => exact Participant.KeepsWriter.lasting.step rfl

/-- One section and the writer at one address: it writes there, or the writer stays. -/
theorem step_writer {turn : Section} {w : WriterImpl} (found : s.writers.lookup addr = some w)
    (alive : turn ≠ .destroyWriter addr) :
    (∃ pubTimeUs data now published sample, turn = .write addr pubTimeUs data now ∧
      w.publish pubTimeUs data now = some (published, sample) ∧ s.accepts addr turn = [(pubTimeUs, data)] ∧
      s.publishes addr turn = [sample] ∧ (s.next turn).writers.lookup addr = some published) ∨
    (s.accepts addr turn = [] ∧ s.publishes addr turn = [] ∧
      ∃ matchedCount, (s.next turn).writers.lookup addr = some { w with matchedCount }) := by
  by_cases writes : ∃ pubTimeUs data now, turn = .write addr pubTimeUs data now
  · obtain ⟨pubTimeUs, data, now, rfl⟩ := writes
    cases accepted : w.publish pubTimeUs data now with
    | none =>
      have locked := Participant.writeLocked_none found accepted
      refine Or.inr ⟨?_, ?_, w.matchedCount, ?_⟩
      · simp [accepts, locked]
      · simp [publishes, locked]
      · simp only [next, step, locked, found]
    | some result =>
      obtain ⟨ticket, locked, sample⟩ := Participant.writeLocked_some found accepted
      refine Or.inl ⟨pubTimeUs, data, now, result.1, result.2, rfl, accepted, ?_, ?_, ?_⟩
      · simp [accepts, locked]
      · simp [publishes, locked, sample]
      · simp only [next, step, locked, KeyedList.lookup_modify, if_true, found, Option.map_some]
  · have elsewhere (pubTimeUs : U64) (data : Bytes) (now : U64) : turn ≠ .write addr pubTimeUs data now :=
      fun same => writes ⟨pubTimeUs, data, now, same⟩
    refine Or.inr ⟨?_, ?_, step_keepsWriter alive elsewhere w found⟩
    · cases turn with
      | write target pubTimeUs data now =>
        exact if_neg (by rintro ⟨rfl, _⟩; exact elsewhere pubTimeUs data now rfl)
      | _ => rfl
    · cases turn with
      | write target pubTimeUs data now => exact if_neg (by rintro rfl; exact elsewhere pubTimeUs data now rfl)
      | _ => rfl

theorem run_recorded {w : WriterImpl} {written : List (U64 × Bytes)} {turns : List Section}
    (found : s.writers.lookup addr = some w) (recorded : w.Recorded written) (valid : qosValid w.qos = true)
    (alive : .destroyWriter addr ∉ turns) :
    ∃ later, (Run.exec next s turns).writers.lookup addr = some later ∧ later.qos = w.qos ∧
      later.Recorded (written ++ Run.log next (accepts addr) s turns) ∧
      numberedSamples 0 (written ++ Run.log next (accepts addr) s turns) =
        numberedSamples 0 written ++ Run.log next (publishes addr) s turns := by
  induction turns generalizing s w written with
  | nil => exact ⟨w, found, rfl, by simpa using recorded, by simp⟩
  | cons turn rest ih =>
    rw [List.mem_cons, not_or] at alive
    rw [Run.exec_cons, Run.log, Run.log, ← List.append_assoc]
    rcases step_writer found (Ne.symm alive.1) with
      ⟨pubTimeUs, data, now, published, sample, rfl, accepted, wrote, handed, kept⟩ | ⟨wrote, handed, count, kept⟩
    · have qos := (WriterImpl.publish_guid accepted).2.2.2.1
      obtain ⟨extended, samples⟩ := recorded.publish valid accepted
      obtain ⟨later, there, same, invariant, all⟩ := ih kept extended (qos ▸ valid) alive.2
      rw [wrote, handed]
      exact ⟨later, there, same.trans qos, invariant, by rw [all, samples, List.append_assoc]⟩
    · obtain ⟨later, there, same, invariant, all⟩ := ih kept (recorded.rematch count) valid alive.2
      rw [wrote, handed, List.append_nil, List.nil_append]
      exact ⟨later, there, same, invariant, all⟩

theorem heartbeats_eq (p : Participant) :
    p.heartbeats = p.writers.filterMap (fun entry => entry.2.periodicHeartbeat) := by
  rw [Participant.heartbeats, ← List.filterMap_eq_map, List.filterMap_filter]
  rfl

theorem step_creates {qos : QosProfile} (unused : s.writers.lookup addr = none) (valid : qosValid qos = true)
    (topic type : Bytes) (birthUs : U64) :
    ∃ w, (s.next (.createWriter addr topic type qos birthUs)).writers.lookup addr = some w ∧ w.qos = qos ∧
      w.history = [] ∧ w.seq = 0 := by
  let fresh : WriterImpl := { guid := makeGuid s.owner .writer (s.entitySerial + 1), topic, type, qos, birthUs }
  let party : Participant :=
    { s.toParticipant with entitySerial := s.entitySerial + 1, writers := KeyedList.emplace addr fresh s.writers }
  have created : s.createWriter addr topic type qos birthUs = some party.recomputeMatches := if_neg (by simp [valid])
  have made : (s.next (.createWriter addr topic type qos birthUs)).toParticipant = party.recomputeMatches := by
    simp only [next, step, unused, Option.isSome_none, Bool.false_eq_true, if_false, created, changed]
  have placed : party.writers.lookup addr = some fresh := KeyedList.lookup_emplace_self unused
  obtain ⟨count, kept⟩ := @Participant.KeepsWriter.matched addr party party (.of_writers rfl) fresh placed
  exact ⟨_, made ▸ kept, rfl, rfl, rfl⟩

/-- The life of one writer among everything else its participant does:
accepted writes hand out the seqs from 1 on, the history is the end of what
was written, the periodic HEARTBEAT gives its first and last seq, and a
rejected write is as if it had not been made. -/
theorem writer_history (owner : GuidPrefix) (before after : List Section) (addr : Addr) (topic type : Bytes)
    (qos : QosProfile) (birthUs : U64) (unused : (Run.exec next (create owner) before).writers.lookup addr = none)
    (valid : qosValid qos = true) (alive : .destroyWriter addr ∉ after) :
    let created := next (Run.exec next (create owner) before) (.createWriter addr topic type qos birthUs)
    let s := Run.exec next created after
    let written := Run.log next (accepts addr) created after
    ∃ w, s.writers.lookup addr = some w ∧ w.qos = qos ∧ w.Recorded written ∧
      Run.log next (publishes addr) created after = numberedSamples 0 written ∧
      s.heartbeats = s.writers.filterMap (fun entry => entry.2.periodicHeartbeat) ∧
      (w.history = [] → w.periodicHeartbeat = none) ∧
      (∀ first last, w.history.head? = some first → w.history.getLast? = some last → w.periodicHeartbeat =
        if w.qos.reliability = .reliable then some ⟨w.guid, first.seq, last.seq⟩ else none) ∧
      ∀ pubTimeUs data now, s.writeLocked addr pubTimeUs data now = none →
        s.step (.write addr pubTimeUs data now) = (s, []) := by
  intro created s written
  obtain ⟨fresh, found, same, recorded⟩ : ∃ w, created.writers.lookup addr = some w ∧ w.qos = qos ∧ w.Recorded [] := by
    obtain ⟨w, found, same, empty, zero⟩ := step_creates unused valid topic type birthUs
    exact ⟨w, found, same, .initial empty zero⟩
  obtain ⟨w, there, kept, invariant, samples⟩ := run_recorded found recorded (same ▸ valid) alive
  rw [List.nil_append] at invariant samples
  refine ⟨w, there, kept.trans same, invariant, ?_, heartbeats_eq _, ?_, ?_, ?_⟩
  · rw [samples]
    rfl
  · intro empty
    simp [WriterImpl.periodicHeartbeat, empty]
  · intro first last starts ends
    have nonempty : w.history.isEmpty = false := by
      cases history : w.history with
      | nil => rw [history] at starts; cases starts
      | cons _ _ => rfl
    rw [WriterImpl.periodicHeartbeat, WriterImpl.firstAvail, starts, invariant.last_seq ends]
    simp [nonempty]
  · intro pubTimeUs data now rejected
    simp only [step, rejected]

/-- A KEEP_LAST writer of depth 1 after two writes. -/
theorem writer_history_depth_one :
    let turns : List Section := [.write 5 2000 [1] 2, .write 5 3000 [2] 3]
    let qos : QosProfile := { depth := 1 }
    let created := next (create ⟨List.replicate 12 1, rfl⟩) (.createWriter 5 [0x74] [0x75] qos 0)
    qosValid qos = true ∧ .destroyWriter 5 ∉ turns ∧
      ∃ w, (Run.exec next created turns).writers.lookup 5 = some w ∧
        w.Recorded (Run.log next (accepts 5) created turns) ∧
        Run.log next (publishes 5) created turns = numberedSamples 0 [(2000, [1]), (3000, [2])] := by
  intro turns qos created
  have alive : Section.destroyWriter 5 ∉ turns := by simp [turns]
  obtain ⟨w, found, _, recorded, samples, _⟩ := writer_history ⟨List.replicate 12 1, rfl⟩ [] turns 5 [0x74] [0x75] qos 0
    rfl (by decide) alive
  have written : Run.log next (accepts 5) created turns = [(2000, [1]), (3000, [2])] := by decide
  exact ⟨by decide, alive, w, found, recorded, written ▸ samples⟩

end Running

end Mdds
