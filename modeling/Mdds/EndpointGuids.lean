import Mdds.AnnounceLoop
import Mdds.Lib.Numbering

namespace Mdds

/-- What a section does to the numbering of the endpoints: every accepted
creation takes the next number, whatever its kind. -/
def Section.numbering : Section → Option (Numbering.Event (EntityKind × Addr))
  | createWriter addr _ _ qos _ => if qosValid qos then some (.take (.writer, addr)) else none
  | createReader addr _ _ qos _ _ => if qosValid qos then some (.take (.reader, addr)) else none
  | destroyWriter addr => some (.drop (.writer, addr))
  | destroyReader addr => some (.drop (.reader, addr))
  | _ => none

namespace Participant

/-- The endpoints a participant hosts and the GUIDs they go by. -/
def endpointGuids (p : Participant) : List ((EntityKind × Addr) × Guid) :=
  p.writers.map (fun entry => ((.writer, entry.1), entry.2.guid)) ++
    p.readers.map (fun entry => ((.reader, entry.1), entry.2.guid))

/-- Every endpoint goes by a GUID of its own, so that a search for the GUID
ends at it, an ACKNACK to a writer is answered by this writer and a GAP to a
reader is applied by this reader. -/
structure Addressable (p : Participant) : Prop where
  distinct : (p.records.map EndpointRecord.guid).Nodup
  writer : ∀ entry ∈ p.writers, p.findWriter entry.2.guid = some entry.2
  reader : ∀ entry ∈ p.readers, p.readerAddr entry.2.guid = some entry.1
  acknack : ∀ entry ∈ p.writers, ∀ body readerEp, body.writer = entry.2.guid →
    p.findRemoteEndpoint body.reader = some readerEp →
      p.handleAcknack body =
        (entry.2.answerAcknack readerEp body).1.map (fun e => .data entry.2.guid e entry.2.reliableFlag) ++
          ((entry.2.answerGap readerEp body).map Frame.gap).toList
  gap : ∀ entry ∈ p.readers, ∀ body, body.reader = entry.2.guid → body.gapStart ≤ body.gapEnd →
    p.handleGap body = { p with
      readers := KeyedList.modify entry.1 (fun r => r.applyGap body.writer body.gapStart body.gapEnd) p.readers }

variable {p q : Participant}

theorem records_guids (p : Participant) : p.records.map EndpointRecord.guid = p.endpointGuids.map Prod.snd := by
  simp only [records, endpointGuids, List.map_append, List.map_map]
  rfl

/-- Distinct GUIDs are all it takes. -/
theorem addressable_iff (p : Participant) : p.Addressable ↔ (p.endpointGuids.map Prod.snd).Nodup := by
  rw [← records_guids]
  refine ⟨Addressable.distinct, fun distinct => ?_⟩
  have both := distinct
  rw [records, List.map_append, List.map_map, List.map_map] at both
  obtain ⟨writers, readers, _⟩ := List.nodup_append.mp both
  have found : ∀ entry ∈ p.writers, p.findWriter entry.2.guid = some entry.2 := by
    intro entry member
    refine KeyedList.find?_of_nodup (f := WriterImpl.guid) ?_ (List.mem_map_of_mem member)
    rw [List.map_map]
    exact writers
  have addressed : ∀ entry ∈ p.readers, p.readerAddr entry.2.guid = some entry.1 := by
    intro entry member
    rw [readerAddr, KeyedList.find?_of_nodup (f := fun entry : Addr × ReaderImpl => entry.2.guid) readers member,
      Option.map_some]
  refine ⟨distinct, found, addressed, ?_, ?_⟩
  · intro entry member body readerEp asked known
    rw [handleAcknack, asked, found entry member, known]
  · intro entry member body asked valid
    rw [handleGap, if_neg (BitVec.not_lt.mpr valid), asked, addressed entry member]

/-- The serial and the GUIDs of the endpoints as the numbering has them. -/
structure Numbered (p : Participant) (r : Numbering.Register (EntityKind × Addr)) : Prop where
  serial : p.entitySerial = BitVec.ofNat 32 r.count
  guids : p.endpointGuids.Perm
    (r.live.map (fun entry => (entry.1, makeGuid p.owner entry.1.1 (BitVec.ofNat 32 entry.2))))

namespace Numbered
variable {r : Numbering.Register (EntityKind × Addr)}

theorem of_same (numbered : p.Numbered r) (owner : q.owner = p.owner) (serial : q.entitySerial = p.entitySerial)
    (guids : q.endpointGuids = p.endpointGuids) : q.Numbered r :=
  ⟨serial.trans numbered.serial, by rw [guids, owner]; exact numbered.guids⟩

theorem keys (numbered : p.Numbered r) (key : EntityKind × Addr) :
    key ∈ p.endpointGuids.map Prod.fst ↔ key ∈ r.live.map Prod.fst := by
  rw [(numbered.guids.map Prod.fst).mem_iff, List.map_map]
  rfl

/-- The next endpoint has the next number. -/
theorem take (numbered : p.Numbered r) {key : EntityKind × Addr} (absent : key ∉ p.endpointGuids.map Prod.fst)
    (owner : q.owner = p.owner) (serial : q.entitySerial = p.entitySerial + 1)
    (guids : q.endpointGuids.Perm ((key, makeGuid p.owner key.1 (p.entitySerial + 1)) :: p.endpointGuids)) :
    q.Numbered (r.step (.take key)) := by
  have fresh : key ∉ r.live.map Prod.fst := fun here => absent ((numbered.keys key).mpr here)
  have moved : p.entitySerial + 1 = BitVec.ofNat 32 (r.count + 1) := by
    rw [numbered.serial, BitVec.ofNat_add]
    rfl
  rw [Numbering.Register.step, if_neg fresh]
  refine ⟨serial.trans moved, ?_⟩
  rw [owner, List.map_cons, ← moved]
  exact guids.trans (numbered.guids.cons _)

theorem drop (numbered : p.Numbered r) {key : EntityKind × Addr} (owner : q.owner = p.owner)
    (serial : q.entitySerial = p.entitySerial) (guids : q.endpointGuids = KeyedList.erase key p.endpointGuids) :
    q.Numbered (r.step (.drop key)) := by
  refine ⟨serial.trans numbered.serial, ?_⟩
  have rest := numbered.guids.filter (fun entry => entry.1 ≠ key)
  rw [List.filter_map] at rest
  rw [guids, owner]
  exact rest

end Numbered

/-- GUIDs repeat exactly if numbers of one kind do in their low 24 bits. -/
theorem Numbered.addressable_iff {r : Numbering.Register (EntityKind × Addr)} (numbered : p.Numbered r) :
    p.Addressable ↔ r.Apart (2 ^ 24) Prod.fst := by
  have residue (n : Nat) : (BitVec.ofNat 32 n).toNat % 2 ^ 24 = n % 2 ^ 24 := by
    rw [BitVec.toNat_ofNat]
    exact Nat.mod_mod_of_dvd n (Nat.pow_dvd_pow 2 (by decide))
  rw [Participant.addressable_iff, (numbered.guids.map Prod.snd).nodup_iff, Numbering.Register.Apart, List.map_map,
    List.Nodup, List.Nodup, List.pairwise_map, List.pairwise_map]
  refine List.Pairwise.iff (fun {first second} => not_congr ?_)
  simp only [Function.comp_apply, makeGuid_eq_iff, residue, Prod.mk.injEq]

theorem SameTables.endpointGuids (same : p.SameTables q) : q.endpointGuids = p.endpointGuids := by
  have table {α : Type} (kind : EntityKind) (record : α → EndpointRecord) (entries : List (Addr × α)) :
      entries.map (fun entry => ((kind, entry.1), (record entry.2).guid)) =
        List.zipWith (fun addr ep => ((kind, addr), ep.guid)) (entries.map Prod.fst)
          (entries.map (fun entry => record entry.2)) := by
    rw [List.zipWith_map, List.zipWith_self]
  have whole (x : Participant) := congrArg₂ (· ++ ·) (table .writer WriterImpl.record x.writers)
    (table .reader ReaderImpl.record x.readers)
  have mine := whole q
  rw [same.writers, same.readers, same.addrs, same.readerAddrs] at mine
  exact mine.trans (whole p).symm

theorem Numbered.same {r : Numbering.Register (EntityKind × Addr)} (numbered : p.Numbered r) (same : p.SameTables q) :
    q.Numbered r :=
  numbered.of_same same.owner same.serial same.endpointGuids

theorem createWriter_guids {addr : Addr} {topic type : Bytes} {qos : QosProfile} {birthUs : U64}
    (absent : p.writers.lookup addr = none) (valid : qosValid qos = true) :
    ∃ next, p.createWriter addr topic type qos birthUs = some next ∧ next.owner = p.owner ∧
      next.entitySerial = p.entitySerial + 1 ∧ next.endpointGuids.Perm
        (((.writer, addr), makeGuid p.owner .writer (p.entitySerial + 1)) :: p.endpointGuids) := by
  refine ⟨_, if_neg (by simp [valid]), rfl, rfl, ?_⟩
  rw [(SameTables.recomputeMatches _).endpointGuids]
  exact ((KeyedList.emplace_perm (KeyedList.not_mem_keys absent)).map _).append_right _

theorem createReader_guids {addr : Addr} {topic type : Bytes} {qos : QosProfile} {ignoreLocal : Bool} {birthUs : U64}
    (absent : p.readers.lookup addr = none) (valid : qosValid qos = true) :
    ∃ next, p.createReader addr topic type qos ignoreLocal birthUs = some next ∧ next.owner = p.owner ∧
      next.entitySerial = p.entitySerial + 1 ∧ next.endpointGuids.Perm
        (((.reader, addr), makeGuid p.owner .reader (p.entitySerial + 1)) :: p.endpointGuids) := by
  refine ⟨_, if_neg (by simp [valid]), rfl, rfl, ?_⟩
  rw [(SameTables.recomputeMatches _).endpointGuids]
  exact (((KeyedList.emplace_perm (KeyedList.not_mem_keys absent)).map _).append_left _).trans List.perm_middle

theorem destroyWriter_guids (p : Participant) (addr : Addr) :
    (p.destroyWriter addr).endpointGuids = KeyedList.erase (.writer, addr) p.endpointGuids := by
  rw [destroyWriter, (SameTables.recomputeMatches _).endpointGuids]
  simp [endpointGuids, KeyedList.erase, List.filter_map, Function.comp_def]

theorem destroyReader_guids (p : Participant) (addr : Addr) :
    (p.destroyReader addr).endpointGuids = KeyedList.erase (.reader, addr) p.endpointGuids := by
  rw [destroyReader, (SameTables.recomputeMatches _).endpointGuids]
  simp [endpointGuids, KeyedList.erase, List.filter_map, Function.comp_def]

theorem reader_of_mem {addr : Addr} {guid : Guid} (member : ((EntityKind.reader, addr), guid) ∈ p.endpointGuids) :
    ∃ r, (addr, r) ∈ p.readers ∧ r.guid = guid := by
  simpa [endpointGuids] using member

/-- What both creations have in common: refused, or one endpoint more. -/
theorem Numbered.create {r : Numbering.Register (EntityKind × Addr)} (numbered : p.Numbered r) {used valid : Bool}
    {created : Option Participant} {key : EntityKind × Addr} (known : used = true ↔ key ∈ p.endpointGuids.map Prod.fst)
    (refused : valid = false → created = none)
    (accepted : used = false → valid = true → ∃ next, created = some next ∧ next.owner = p.owner ∧
      next.entitySerial = p.entitySerial + 1 ∧ next.endpointGuids.Perm
        ((key, makeGuid p.owner key.1 (p.entitySerial + 1)) :: p.endpointGuids)) :
    (if used then p else created.getD p).Numbered
      (Run.exec Numbering.Register.step r (if valid then some (.take key) else none : Option (Numbering.Event _)).toList) := by
  cases valid with
  | false =>
    rw [refused rfl]
    cases used <;> exact numbered
  | true =>
    cases used with
    | true =>
      have here : key ∈ r.live.map Prod.fst := (numbered.keys key).mp (known.mp rfl)
      have still : r.step (.take key) = r := if_pos here
      simpa [still] using numbered
    | false =>
      obtain ⟨next, rfl, owner, serial, guids⟩ := accepted rfl rfl
      have absent : key ∉ p.endpointGuids.map Prod.fst := fun here => absurd (known.mpr here) Bool.false_ne_true
      exact numbered.take absent owner serial guids

end Participant

namespace Running
variable {s : Running} {r : Numbering.Register (EntityKind × Addr)}

theorem step_createWriter (s : Running) (addr : Addr) (topic type : Bytes) (qos : QosProfile) (birthUs : U64) :
    (s.step (.createWriter addr topic type qos birthUs)).1.toParticipant =
      if (s.writers.lookup addr).isSome then s.toParticipant
      else (s.createWriter addr topic type qos birthUs).getD s.toParticipant := by
  simp only [step]
  split
  · rfl
  · cases s.createWriter addr topic type qos birthUs <;> rfl

theorem step_createReader (s : Running) (addr : Addr) (topic type : Bytes) (qos : QosProfile) (ignoreLocal : Bool)
    (birthUs : U64) :
    (s.step (.createReader addr topic type qos ignoreLocal birthUs)).1.toParticipant =
      if (s.readers.lookup addr).isSome then s.toParticipant
      else (s.createReader addr topic type qos ignoreLocal birthUs).getD s.toParticipant := by
  simp only [step]
  split
  · rfl
  · cases s.createReader addr topic type qos ignoreLocal birthUs <;> rfl

/-- One section and the numbering. Only creations and destructions count. -/
theorem step_numbered (distinct : s.Distinct) (numbered : s.Numbered r) (turn : Section) :
    (s.step turn).1.Numbered (Run.exec Numbering.Register.step r turn.numbering.toList) := by
  cases turn with
  | createWriter addr topic type qos birthUs =>
    rw [step_createWriter]
    refine numbered.create ?_ (fun invalid => if_pos (by simp [invalid])) (fun unused valid => ?_)
    · rw [KeyedList.isSome_lookup]
      simp [Participant.endpointGuids]
    · exact Participant.createWriter_guids (by simpa using unused) valid
  | createReader addr topic type qos ignoreLocal birthUs =>
    rw [step_createReader]
    refine numbered.create ?_ (fun invalid => if_pos (by simp [invalid])) (fun unused valid => ?_)
    · rw [KeyedList.isSome_lookup]
      simp [Participant.endpointGuids]
    · exact Participant.createReader_guids (by simpa using unused) valid
  | destroyWriter addr => exact numbered.drop rfl rfl (Participant.destroyWriter_guids _ addr)
  | destroyReader addr => exact numbered.drop rfl rfl (Participant.destroyReader_guids _ addr)
  | addNode | removeNode => exact numbered.of_same rfl rfl rfl
  | announceTick now =>
    simp only [step]
    split
    · exact numbered.of_same rfl rfl rfl
    · exact numbered
  | _ => exact numbered.same (step_sameTables distinct rfl rfl)

theorem run_numbered (owner : GuidPrefix) (turns : List Section) :
    (Run.exec (fun s turn => (s.step turn).1) (create owner) turns).Numbered
      (Run.exec Numbering.Register.step {} (turns.filterMap Section.numbering)) := by
  have both := @Run.exec_simulates _ _ (fun (s : Running) turn => (s.step turn).1) _ _ Numbering.Register.step
    Section.numbering (fun s r => s.Distinct ∧ s.Numbered r)
    (fun s r turn before => ⟨step_distinct before.1 turn, step_numbered before.1 before.2 turn⟩) (create owner) {} turns
    ⟨List.nodup_nil, rfl, .refl _⟩
  exact both.2

/-- In every run all endpoints are addressable throughout exactly if no
creation meets an endpoint of its kind from a multiple of 2^24 creations
before. -/
theorem endpoints_addressable_iff (owner : GuidPrefix) (turns : List Section) :
    (∀ first, first <+: turns → (Run.exec (fun s turn => (s.step turn).1) (create owner) first).Addressable) ↔
      Run.Along Numbering.Register.step (Numbering.Register.Unwrapped (2 ^ 24) Prod.fst) {}
        (turns.filterMap Section.numbering) := by
  rw [← Numbering.Register.apart_iff_unwrapped]
  constructor
  · intro always events inside
    obtain ⟨first, isPrefix, rfl⟩ := List.prefix_filterMap_iff.mp inside
    exact (run_numbered owner first).addressable_iff.mp (always first isPrefix)
  · intro apart first isPrefix
    exact (run_numbered owner first).addressable_iff.mpr (apart _ (isPrefix.filterMap _))

/-- Up to 2^24 creations in all there is nothing to meet. -/
theorem addressable_of_few (owner : GuidPrefix) {turns : List Section}
    (few : (turns.filterMap Section.numbering).countP Numbering.Event.takes ≤ 2 ^ 24) :
    (Run.exec (fun s turn => (s.step turn).1) (create owner) turns).Addressable := by
  have apart := (Numbering.Register.apart_iff_unwrapped _ _ _).mpr
    (@Numbering.Register.unwrapped_of_few _ EntityKind _ _ Prod.fst _ few)
  exact (run_numbered owner turns).addressable_iff.mpr (apart _ (List.prefix_refl _))

/-- A reader, short-lived writers and another reader. -/
def lap (n : Nat) : List Section :=
  .createReader 1 [] [] {} false 0 ::
    ((List.replicate n [Section.createWriter 2 [] [] {} 0, .destroyWriter 2]).flatten ++
      [.createReader 3 [] [] {} false 0])

theorem lap_numbering (n : Nat) :
    Run.exec Numbering.Register.step {} ((lap n).filterMap Section.numbering) =
      ⟨1 + n + 1, [((.reader, 3), 1 + n + 1), ((.reader, 1), 1)]⟩ := by
  have accepted : qosValid {} = true := rfl
  have events : (lap n).filterMap Section.numbering = .take (.reader, 1) ::
      ((List.replicate n [Numbering.Event.take (.writer, 2), .drop (.writer, 2)]).flatten ++ [.take (.reader, 3)]) := by
    simp only [lap, List.filterMap_cons, List.filterMap_append, List.filterMap_flatten, List.map_replicate,
      List.filterMap_nil, Section.numbering, accepted, if_true]
  rw [events, Run.exec_cons, Run.exec_snoc]
  have fresh : (EntityKind.writer, 2) ∉
      ((({} : Numbering.Register (EntityKind × Addr)).step (.take (.reader, 1))).live.map Prod.fst) := by decide
  rw [Numbering.Register.exec_churn fresh]
  rfl

/-- Once the low bits of the serial have gone around, two readers go by one
GUID, and what is addressed to it misses one of them. -/
theorem lap_shares (owner : GuidPrefix) {n : Nat} (around : 2 ^ 24 ∣ n + 1) :
    let s := Run.exec (fun s turn => (s.step turn).1) (create owner) (lap n)
    ¬ (s.records.map EndpointRecord.guid).Nodup ∧ ∃ entry ∈ s.readers, s.readerAddr entry.2.guid ≠ some entry.1 := by
  intro s
  have numbered : s.Numbered ⟨1 + n + 1, [((.reader, 3), 1 + n + 1), ((.reader, 1), 1)]⟩ :=
    lap_numbering n ▸ run_numbered owner (lap n)
  have repeated : ¬ s.Addressable := by
    rw [numbered.addressable_iff, Numbering.Register.Apart]
    have residue : (1 + n + 1) % 2 ^ 24 = 1 % 2 ^ 24 := by omega
    rw [List.map_cons, List.map_singleton, residue]
    simp
  refine ⟨fun distinct => repeated ((Participant.addressable_iff _).mpr (s.records_guids ▸ distinct)), ?_⟩
  by_contra none
  have addressed {addr : Addr} {guid : Guid} (member : ((EntityKind.reader, addr), guid) ∈ s.endpointGuids) :
      s.readerAddr guid = some addr := by
    obtain ⟨r, inside, rfl⟩ := Participant.reader_of_mem member
    exact not_not.mp (fun missed => none ⟨(addr, r), inside, missed⟩)
  have last := addressed (numbered.guids.mem_iff.mpr List.mem_cons_self)
  have first := addressed (numbered.guids.mem_iff.mpr (List.mem_cons_of_mem _ List.mem_cons_self))
  have same : makeGuid s.owner .reader (BitVec.ofNat 32 (1 + n + 1)) = makeGuid s.owner .reader (BitVec.ofNat 32 1) := by
    rw [makeGuid_eq_iff, BitVec.toNat_ofNat, BitVec.toNat_ofNat]
    exact ⟨rfl, by omega⟩
  dsimp only at last first
  rw [same, first] at last
  cases last

/-- The shortest way around: 2^24 - 1 writers between two readers. -/
theorem endpoints_shared_after_wrap :
    let s := Run.exec (fun s turn => (s.step turn).1) (create ⟨List.replicate 12 1, rfl⟩) (lap (2 ^ 24 - 1))
    ¬ (s.records.map EndpointRecord.guid).Nodup ∧ ∃ entry ∈ s.readers, s.readerAddr entry.2.guid ≠ some entry.1 :=
  lap_shares _ ⟨1, rfl⟩

end Running

end Mdds
