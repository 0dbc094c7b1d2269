import Mdds.Endpoints
import Mdds.NackRound
import Mdds.Replay

namespace Mdds

namespace WriterImpl

theorem Contiguous.unique {w : WriterImpl} (contiguous : w.Contiguous) {e e' : CachedSample} (left : e ∈ w.history)
    (right : e' ∈ w.history) (same : e.seq = e'.seq) : e = e' := by
  have numbered : (w.history.map (fun e => e.seq.toNat)).Nodup := by
    rw [contiguous.seqs]
    exact List.nodup_range'
  exact List.inj_on_of_nodup_map numbered left right (congrArg BitVec.toNat same)

/-- In a history without a hole the scan misses nothing it is asked for. -/
theorem Contiguous.resend_iff {w : WriterImpl} (contiguous : w.Contiguous) {readerEp : EndpointRecord}
    {body : AckNackBody} {e : CachedSample} :
    e ∈ (w.answerAcknack readerEp body).1 ↔ e ∈ w.history ∧ body.Requests e.seq ∧ readerEp.entitled e = true := by
  refine ⟨w.resend_requested readerEp body, ?_⟩
  rintro ⟨cached, ⟨i, asked, missing, seq⟩, entitled⟩
  rw [answerAcknack_resend, List.mem_filterMap]
  refine ⟨i, asked, ?_⟩
  have found : w.history.find? (fun entry => entry.seq = body.baseSeq + BitVec.ofNat 64 i) = some e := by
    cases search : w.history.find? (fun entry => entry.seq = body.baseSeq + BitVec.ofNat 64 i) with
    | none =>
      have absent := List.find?_eq_none.mp search e cached
      simp [seq] at absent
    | some other =>
      have named := List.find?_some search
      have same : other.seq = e.seq := (of_decide_eq_true named).trans seq.symm
      rw [contiguous.unique (List.mem_of_find?_eq_some search) cached same]
  rw [resendAt, missing, found]
  simp [Option.filter, entitled]

/-- A history is far shorter than the range of seqs, so a request that wraps
around asks for nothing cached there. -/
theorem Contiguous.in_request {w : WriterImpl} (contiguous : w.Contiguous) (short : w.history.length ≤ 2 ^ 32)
    {last : U64} (behind : last.toNat ≤ w.seq.toNat) {e : CachedSample} (cached : e ∈ w.history) :
    ((last + 1).toNat ≤ e.seq.toNat ∧ e.seq.toNat ≤ (last + 1).toNat + 63 ↔
      last.toNat < e.seq.toNat ∧ e.seq.toNat - last.toNat - 1 < 64) ∧
    ∀ i, i < 64 → (e.seq = last + 1 + BitVec.ofNat 64 i ↔ e.seq.toNat = last.toNat + 1 + i) := by
  have near := (contiguous.mem_seq.mp ⟨e, cached, rfl⟩).1
  have small := last.isLt
  have bound := e.seq.isLt
  have one : (1 : U64).toNat = 1 := rfl
  refine ⟨?_, fun i low => ?_⟩
  · rw [BitVec.toNat_add, one]
    omega
  · rw [← BitVec.toNat_inj, BitVec.toNat_add, BitVec.toNat_add, BitVec.toNat_ofNat, one]
    omega

/-- The resent samples in terms of the receive state the request carries. -/
theorem Contiguous.resend_iff_window {w : WriterImpl} (contiguous : w.Contiguous) (short : w.history.length ≤ 2 ^ 32)
    {readerEp : EndpointRecord} {reader writer : Guid} {last window : U64} (behind : last.toNat ≤ w.seq.toNat)
    {e : CachedSample} :
    e ∈ (w.answerAcknack readerEp ⟨reader, writer, last + 1, window⟩).1 ↔ e ∈ w.history ∧
      ((last + 1).toNat ≤ e.seq.toNat ∧ e.seq.toNat ≤ (last + 1).toNat + 63) ∧
      bitSet window (e.seq.toNat - last.toNat - 1) = false ∧ readerEp.entitled e = true := by
  rw [contiguous.resend_iff]
  refine and_congr_right (fun cached => ?_)
  obtain ⟨range, position⟩ := contiguous.in_request short behind cached
  rw [range]
  constructor
  · rintro ⟨⟨i, low, missing, seq⟩, entitled⟩
    have here := (position i (List.mem_range.mp low)).mp seq
    have low := List.mem_range.mp low
    have index : e.seq.toNat - last.toNat - 1 = i := by omega
    rw [index]
    exact ⟨by omega, missing, entitled⟩
  · rintro ⟨⟨above, low⟩, missing, entitled⟩
    exact ⟨⟨_, List.mem_range.mpr low, missing, (position _ low).mpr (by omega)⟩, entitled⟩

theorem Contiguous.resend_ascending {w : WriterImpl} (contiguous : w.Contiguous) (short : w.history.length ≤ 2 ^ 32)
    {readerEp : EndpointRecord} {body : AckNackBody} {last : U64} (base : body.baseSeq = last + 1)
    (behind : last.toNat ≤ w.seq.toNat) :
    (w.answerAcknack readerEp body).1.Pairwise (fun e e' => e.seq.toNat < e'.seq.toNat) := by
  rw [answerAcknack_resend, List.pairwise_filterMap]
  refine List.Pairwise.imp_of_mem ?_ List.pairwise_lt_range
  intro i j low high less e atI e' atJ
  have placed {k : Nat} {e : CachedSample} (answered : w.resendAt readerEp body k = some e) (low : k ∈ List.range 64) :
      e.seq.toNat = last.toNat + 1 + k := by
    unfold resendAt at answered
    split at answered
    · simp at answered
    · obtain ⟨search, _⟩ := Option.filter_eq_some_iff.mp answered
      have named := List.find?_some search
      have seq : e.seq = last + 1 + BitVec.ofNat 64 k := by simpa [base] using named
      exact ((contiguous.in_request short behind (List.mem_of_find?_eq_some search)).2 k (List.mem_range.mp low)).mp seq
  rw [placed atI low, placed atJ high]
  omega

theorem historyCap_le (w : WriterImpl) : w.historyCap ≤ 2 ^ 32 := by
  have small := w.qos.depth.isLt
  unfold historyCap kKeepAllCap
  split <;> omega

end WriterImpl

/-- The sample a DATA frame carries. -/
def Frame.sample? : Frame → Option CachedSample
  | .data _ sample _ => some sample
  | _ => none

namespace Link

/-- The seqs the reader accepted as new during a run. -/
def acceptedIn (l : Link) (events : List LinkEvent) : List (Guid × Nat) :=
  l.reader.acceptedIn (Run.log step (fun l event => (l.readerOp event).toList) l events)

theorem exec_reader (l : Link) (events : List LinkEvent) :
    (Run.exec step l events).reader =
      Run.exec ReaderImpl.step l.reader (Run.log step (fun l event => (l.readerOp event).toList) l events) :=
  Run.exec_component (fun l event => l.step_reader event) l events

theorem step_history_le {l : Link} (short : l.writer.history.length ≤ 2 ^ 32) (event : LinkEvent) :
    (l.step event).writer.history.length ≤ 2 ^ 32 := by
  rcases l.step_writer event with same | ⟨_, _, _, _, _, accepted⟩
  · rw [same]
    exact short
  · obtain ⟨_, ⟨_, next⟩ | ⟨_, history, _, bound, next⟩⟩ := WriterImpl.publish_cases accepted
    · rw [next]
      exact short
    · rw [next]
      exact bound.trans (WriterImpl.historyCap_le _)

theorem exec_history_le {l : Link} (short : l.writer.history.length ≤ 2 ^ 32) (events : List LinkEvent) :
    (Run.exec step l events).writer.history.length ≤ 2 ^ 32 :=
  @Run.invariant _ _ step (fun l => l.writer.history.length ≤ 2 ^ 32) (fun _ event short => step_history_le short event)
    l events short

theorem exec_record (l : Link) (events : List LinkEvent) :
    (Run.exec step l events).writer.record = l.writer.record ∧ (Run.exec step l events).reader.record = l.reader.record := by
  refine @Run.invariant _ _ step
    (fun next => next.writer.record = l.writer.record ∧ next.reader.record = l.reader.record) ?_ l events ⟨rfl, rfl⟩
  intro next event ⟨writer, reader⟩
  obtain ⟨sameWriter, sameReader⟩ := next.step_record event
  exact ⟨sameWriter.trans writer, sameReader.trans reader⟩

theorem step_seq_ge {l : Link} (event : LinkEvent) (room : event.writes = true → l.writer.seq.toNat + 1 < 2 ^ 64) :
    l.writer.seq.toNat ≤ (l.step event).writer.seq.toNat := by
  rcases l.step_writer event with same | ⟨_, _, _, _, rfl, accepted⟩
  · rw [same]
  · have space := room rfl
    rw [(WriterImpl.publish_guid accepted).2.2.2.2]
    bv_omega

/-- A bit of the reader's window is the receipt of one seq. -/
theorem bit_iff_accepted {l : Link} (fresh : l.reader.rx = fun _ => none) (events : List LinkEvent) (g : Guid) {i : Nat}
    (low : i < 64) :
    bitSet ((Run.exec step l events).reader.rxState g).window i = true ↔
      (g, ((Run.exec step l events).reader.rxState g).lastSeq.toNat + 1 + i) ∈ l.acceptedIn events := by
  rw [exec_reader, acceptedIn]
  rw [← ReaderImpl.accepted_of_settled_above fresh (by omega), bitSet_eq_getLsbD low]
  exact SeqWindow.holds_bit.symm

/-- An ACKNACK is answered with exactly the cached samples among the 64 seqs
from its base that the reader had not received when it asked and is entitled
to, in ascending order, however long the ACKNACK was on its way. -/
theorem resends_exactly (wguid rguid : Guid) (wtopic wtype rtopic rtype : Bytes) (wqos rqos : QosProfile)
    (ignoreLocal : Bool) (wbirth rbirth : U64) (first rest : List LinkEvent) (event : LinkEvent)
    (few : (first ++ event :: rest).countP LinkEvent.writes < 2 ^ 64) (body : AckNackBody) (p : Participant) :
    let writer : WriterImpl := { guid := wguid, topic := wtopic, type := wtype, qos := wqos, birthUs := wbirth }
    let start : Link := { writer, reader := .create rguid rtopic rtype rqos ignoreLocal rbirth }
    let l := Run.exec step start (first ++ event :: rest)
    (Run.exec step start (first ++ [event])).toWriter = (Run.exec step start first).toWriter ++ [body] →
    p.findWriter body.writer = some l.writer → p.findRemoteEndpoint body.reader = some l.reader.record →
    let resent := (p.handleAcknack body).filterMap Frame.sample?
    resent.Pairwise (fun e e' => e.seq.toNat < e'.seq.toNat) ∧
    ∀ e, e ∈ resent ↔ e ∈ l.writer.history ∧
      (body.baseSeq.toNat ≤ e.seq.toNat ∧ e.seq.toNat ≤ body.baseSeq.toNat + 63) ∧
      (wguid, e.seq.toNat) ∉ start.acceptedIn (first ++ [event]) ∧
      (rqos.durability ≠ .volatile ∨ rbirth ≤ e.pubTimeUs) := by
  intro writer start l sent found discovered resent
  rw [List.append_cons, List.countP_append] at few
  have unwritten : start.writer.seq.toNat = 0 := rfl
  have whole : l = Run.exec step (Run.exec step start (first ++ [event])) rest := by
    rw [← Run.exec_append, List.append_assoc, List.singleton_append]
  have asked : (Run.exec step start (first ++ [event])).WithinWritten :=
    exec_withinWritten (l := start) (.initial _ _ _ _ _ rfl) _ (by omega)
  have written : _ ≤ start.writer.seq.toNat + (first ++ [event]).countP LinkEvent.writes :=
    @Run.exec_measure_le _ _ step (fun l => l.writer.seq.toNat) _ step_seq_le start (first ++ [event])
  -- The writer has only gone on since the request.
  have within : l.WithinWritten ∧
      (Run.exec step start (first ++ [event])).writer.seq.toNat ≤ l.writer.seq.toNat := by
    rw [whole]
    exact @Run.invariant_within _ _ step (fun l => l.writer.seq.toNat) _
      (fun l => l.WithinWritten ∧ (Run.exec step start (first ++ [event])).writer.seq.toNat ≤ l.writer.seq.toNat)
      _ _ _ step_seq_le (fun l event _ inv room => ⟨inv.1.step room, inv.2.trans (step_seq_ge event room)⟩)
      (by omega) ⟨asked, le_rfl⟩
  have short : l.writer.history.length ≤ 2 ^ 32 := exec_history_le (Nat.zero_le _) _
  obtain ⟨sameWriter, sameReader⟩ := exec_record start (first ++ event :: rest)
  have guid : (Run.exec step start (first ++ [event])).writer.guid = wguid :=
    congrArg EndpointRecord.guid (exec_record start (first ++ [event])).1
  have mine : body.writer = wguid :=
    (Participant.findWriter_mem found).2.symm.trans (congrArg EndpointRecord.guid sameWriter)
  have built : body = (Run.exec step start (first ++ [event])).reader.nackFor wguid := by
    rw [Run.exec_snoc] at sent ⊢
    rcases step_toWriter (Run.exec step start first) event with same | ⟨nack, appended, carried⟩
    · rw [same] at sent
      exact absurd sent (by simp)
    · obtain ⟨rfl⟩ : nack = body := by simpa [appended] using sent
      rw [carried, ← mine]
  have behind : ((Run.exec step start (first ++ [event])).reader.rxState wguid).lastSeq.toNat ≤ l.writer.seq.toNat := by
    refine le_trans (asked.settled _ ?_) within.2
    rw [guid]
    exact WriterRxState.settled_of_le le_rfl
  have answer : resent = (l.writer.answerAcknack l.reader.record body).1 := by
    have samples : ((l.writer.answerAcknack l.reader.record body).1.map
        (fun e => Frame.data body.writer e l.writer.reliableFlag)).filterMap Frame.sample? =
          (l.writer.answerAcknack l.reader.record body).1 := by
      rw [List.filterMap_map]
      exact List.filterMap_some
    have gaps : ((l.writer.answerGap l.reader.record body).map Frame.gap).toList.filterMap Frame.sample? = [] := by
      cases l.writer.answerGap l.reader.record body <;> rfl
    simp only [resent, Participant.handleAcknack, found, discovered, List.filterMap_append, samples, gaps,
      List.append_nil]
  rw [answer, built]
  refine ⟨within.1.contiguous.resend_ascending short rfl behind, fun e => ?_⟩
  rw [ReaderImpl.nackFor, within.1.contiguous.resend_iff_window short behind]
  refine and_congr_right (fun cached => and_congr_right (fun requested => and_congr ?_ ?_))
  · obtain ⟨above, low⟩ := (within.1.contiguous.in_request short behind cached).1.mp requested
    have received := bit_iff_accepted (l := start) rfl (first ++ [event]) wguid low
    rw [← Bool.not_eq_true, received]
    have place : ((Run.exec step start (first ++ [event])).reader.rxState wguid).lastSeq.toNat + 1 +
        (e.seq.toNat - ((Run.exec step start (first ++ [event])).reader.rxState wguid).lastSeq.toNat - 1) =
          e.seq.toNat := by omega
    rw [place]
  · rw [sameReader]
    exact EndpointRecord.entitled_iff

/-- Seqs 1 and 3 are lost; the reader asks when 4 arrives, and the writer,
which keeps the last two samples, answers with 3 alone. -/
theorem resends_third_of_four :
    let qos : QosProfile := { depth := 2 }
    let writer : WriterImpl := { guid := default, topic := [], type := [], qos }
    let start : Link := { writer, reader := .create default [] [] {} false 0 }
    let first : List LinkEvent :=
      [.knowReader true, .knowWriter true, .write 1 [] 0, .write 1 [] 0, .write 1 [] 0, .write 1 [] 0,
        .toReader 1 (0, 0)]
    let l := Run.exec step start (first ++ [.toReader 3 (0, 0)])
    let p : Participant := {
      owner := ⟨List.replicate 12 0, rfl⟩
      guid := default
      writers := [(0, l.writer)]
      remote := [(default, ⟨0, 0, { participantGuid := default, endpoints := [l.reader.record] }, 0⟩)] }
    (p.handleAcknack ⟨default, default, 1, 0b1010⟩).filterMap Frame.sample? = [⟨3, 0, 1, []⟩] ∧
    ∀ e, e ∈ (p.handleAcknack ⟨default, default, 1, 0b1010⟩).filterMap Frame.sample? ↔
      e ∈ l.writer.history ∧ (1 ≤ e.seq.toNat ∧ e.seq.toNat ≤ 64) ∧
        (default, e.seq.toNat) ∉ start.acceptedIn (first ++ [.toReader 3 (0, 0)]) ∧
        (({} : QosProfile).durability ≠ .volatile ∨ 0 ≤ e.pubTimeUs) := by
  intro qos writer start first l p
  have found : p.findWriter default = some l.writer := List.find?_cons_of_pos (by decide +kernel)
  have discovered : p.findRemoteEndpoint default = some l.reader.record := List.find?_cons_of_pos (by decide +kernel)
  refine ⟨by decide +kernel, ?_⟩
  exact (resends_exactly default default [] [] [] [] qos {} false 0 0 first [] (.toReader 3 (0, 0)) (by decide)
    ⟨default, default, 1, 0b1010⟩ p (by decide +kernel) found discovered).2

end Link

end Mdds
