import Mdds.FrameRoundTrip
import Mdds.Matching
import Mdds.RemoteState

namespace Mdds

namespace Participant

/-- `remote_writer_last_seen_ms`. -/
def remoteWriterLastSeenMs (p : Participant) (g : Guid) : Option U64 := p.writerLastSeen g

/-- The writer has been heard of. -/
def Heard (p : Participant) (g : Guid) : Prop := (p.remoteWriterLastSeenMs g).isSome = true

/-- `q` knows no other last readings than `p`, but for the one of a writer. -/
def HearsOnly (p q : Participant) (writer : Option Guid) : Prop := ∀ g, q.Heard g ↔ p.Heard g ∨ writer = some g

/-- The snapshot lists an endpoint with this guid. -/
def Lists (g : Guid) (entry : Guid × RemoteParticipant) : Prop := ∃ ep ∈ entry.2.snap.endpoints, ep.guid = g

/-- An endpoint of a stored remote snapshot. -/
def HasListed (p : Participant) (g : Guid) : Prop := ∃ entry ∈ p.remote, Lists g entry

variable {p q : Participant}

theorem HearsOnly.of_eq (same : q.writerLastSeen = p.writerLastSeen) : p.HearsOnly q none := by
  intro g
  unfold Heard remoteWriterLastSeenMs
  rw [same]
  simp

theorem HearsOnly.refl (p : Participant) : p.HearsOnly p none := of_eq rfl

theorem HearsOnly.update {writer : Guid} {now : U64}
    (stamped : q.writerLastSeen = Function.update p.writerLastSeen writer (some now)) : p.HearsOnly q (some writer) := by
  intro g
  unfold Heard remoteWriterLastSeenMs
  rw [stamped]
  by_cases same : g = writer
  · subst same
    simp
  · simp [same, Ne.symm same]

theorem HearsOnly.deliverSample (p : Participant) (writer : Guid) (sample : CachedSample) (now : U64)
    (clock : EnqueueClock) : p.HearsOnly (p.deliverSample writer sample now clock).1 (some writer) := by
  refine @HearsOnly.update p _ writer now ?_
  unfold Participant.deliverSample
  dsimp only
  split <;> rfl

theorem HearsOnly.handleHeartbeat (p : Participant) (body : HeartbeatBody) (now : U64) :
    p.HearsOnly (p.handleHeartbeat body now).1 (some body.writer) := by
  refine @HearsOnly.update p _ body.writer now ?_
  unfold Participant.handleHeartbeat
  dsimp only
  split <;> rfl

theorem HearsOnly.handleAnnounce (p : Participant) (peer : PeerId) (snap : ParticipantSnapshot) (announceSeq now : U64) :
    p.HearsOnly (p.handleAnnounce peer snap announceSeq now).1 none := by
  refine .of_eq ?_
  unfold Participant.handleAnnounce
  dsimp only
  split
  · rfl
  · split <;> rfl

theorem HearsOnly.handlePeerDown (p : Participant) (peer : PeerId) : p.HearsOnly (p.handlePeerDown peer) none := by
  refine .of_eq ?_
  unfold Participant.handlePeerDown
  dsimp only
  split <;> rfl

theorem announced_modify (p : Participant) (guid g : Guid) (now : U64) :
    (∃ entry ∈ KeyedList.modify guid (fun rp => { rp with lastAnnounceMs := now }) p.remote, Lists g entry) ↔
      p.HasListed g := by
  unfold KeyedList.modify HasListed
  simp only [List.mem_map, exists_exists_and_eq_and]
  refine exists_congr (fun entry => and_congr_right (fun _ => ?_))
  by_cases here : entry.1 = guid
  · simp only [here, if_true]
    exact Iff.rfl
  · simp only [here, if_false]

end Participant

/-- The writer whose liveliness a frame refreshes, where it carries a whole
sample or a HEARTBEAT. -/
def hearsIn (data : Bytes) : Option Guid :=
  match (decodeHeader data).map FrameHeader.type with
  | some .data => (decodeData data).map DataBody.writer
  | some .heartbeat => (decodeHeartbeat data).map HeartbeatBody.writer
  | _ => none

theorem ParticipantImpl.handleBytes_hears (p : ParticipantImpl) (peer : PeerId) {data : Bytes} (clocks : Clocks)
    (noAnnounce : decodeAnnounce data = none) (noFragment : decodeDataFrag data = none) :
    p.toParticipant.HearsOnly (p.handleBytes peer data clocks).1.toParticipant (hearsIn data) := by
  unfold handleBytes hearsIn
  rw [noAnnounce, noFragment]
  cases (decodeHeader data).map FrameHeader.type with
  | none => exact .refl _
  | some type =>
    cases type with
    | announce | dataFrag | acknack | other => exact .refl _
    | data =>
      cases decodeData data with
      | none => exact .refl _
      | some body => exact .deliverSample _ _ _ _ _
    | heartbeat =>
      cases decodeHeartbeat data with
      | none => exact .refl _
      | some body => exact .handleHeartbeat _ _ _
    | gap =>
      cases decodeGap data with
      | none => exact .refl _
      | some body => exact .of_eq (Participant.SameOthers.handleGap ..).writerLastSeen

namespace Running
variable {s : Running}

/-- The writer a section hears: the one of a frame, or of a sample its last
fragment completed. -/
def hears (s : Running) : Section → Option Guid
  | .bytes _ data _ => hearsIn data
  | .deliverSample index _ => s.delivering[index]?.map (fun item => item.2.1.writer)
  | _ => none

theorem step_hears (s : Running) (turn : Section) :
    s.toParticipant.HearsOnly (s.step turn).1.toParticipant (s.hears turn) := by
  cases turn with
  | peerUp => exact .of_eq rfl
  | peerDown peer => exact .handlePeerDown _ _
  | bytes peer data clocks =>
    simp only [step]
    cases announce : decodeAnnounce data with
    | some content =>
      have silent : hearsIn data = none := by simp only [hearsIn, decodeAnnounce_type announce]
      simp only [hears, silent]
      exact .handleAnnounce _ _ _ _ _
    | none =>
      cases fragment : decodeDataFrag data with
      | some body =>
        have silent : hearsIn data = none := by simp only [hearsIn, decodeDataFrag_type fragment]
        simp only [hears, silent]
        exact .of_eq rfl
      | none => exact s.handleBytes_hears peer clocks announce fragment
  | deliverSample index clocks =>
    simp only [step, hears]
    cases s.delivering[index]? with
    | none => exact .refl _
    | some item => exact .deliverSample _ _ _ _ _
  | _ => exact .of_eq (s.step_sameOthers rfl (fun _ _ same => by cases same)).1.writerLastSeen

/-- A section leaves a snapshot that lists the guid: it drops only the stored
one that a newer announce replaces, and those of a peer that goes down. -/
def Leaves (s : Running) (g : Guid) : Section → Prop
  | .bytes _ data _ =>
    match decodeAnnounce data with
    | some (snap, announceSeq) =>
      if (s.remote.lookup snap.participantGuid).all (fun old => old.announceSeq < announceSeq) then
        (∃ ep ∈ snap.endpoints, ep.guid = g) ∨
          ∃ entry ∈ s.remote, entry.1 ≠ snap.participantGuid ∧ Participant.Lists g entry
      else s.HasListed g
    | none => s.HasListed g
  | .peerDown peer => ∃ entry ∈ s.remote, entry.2.peer ≠ peer ∧ Participant.Lists g entry
  | _ => s.HasListed g

theorem step_announced (ascending : KeyedList.Ascending s.remote) (turn : Section) (g : Guid) :
    (s.step turn).1.HasListed g ↔ s.Leaves g turn := by
  have kept (same : (s.step turn).1.remote = s.remote) : (s.step turn).1.HasListed g ↔ s.HasListed g := by
    unfold Participant.HasListed
    rw [same]
  cases caller : turn.caller with
  | none =>
    have unchanged := kept (s.step_sameGraph caller).1.remote
    cases turn with
    | peerUp | peerDown | bytes => cases caller
    | _ => exact unchanged
  | some from_ =>
    cases turn with
    | peerUp peer => exact kept rfl
    | peerDown peer =>
      unfold Participant.HasListed Leaves
      rw [step_peerDown_remote]
      simp only [List.mem_filter, decide_eq_true_eq, and_assoc]
    | bytes peer data clocks =>
      cases announce : decodeAnnounce data with
      | none =>
        simp only [Leaves, announce]
        refine kept ?_
        simp only [step, announce]
        cases fragment : decodeDataFrag data with
        | some body => rfl
        | none => exact (s.handleBytes_sameGraph peer clocks announce fragment).1.remote
      | some content =>
        obtain ⟨snap, announceSeq⟩ := content
        have remote : (s.step (.bytes peer data clocks)).1.remote =
            (s.handleAnnounce peer snap announceSeq clocks.steadyMs).1.remote := by simp only [step, announce]
        simp only [Leaves, announce]
        obtain ⟨_, ⟨stale, _, stamped⟩ | ⟨fresh, stored⟩⟩ :=
          s.toParticipant.handleAnnounce_cases peer snap announceSeq clocks.steadyMs
        · rw [stale, if_neg Bool.false_ne_true]
          refine Iff.trans ?_ (s.toParticipant.announced_modify snap.participantGuid g clocks.steadyMs)
          rw [Participant.HasListed, remote, stamped]
        · rw [fresh, if_pos rfl]
          unfold Participant.HasListed
          rw [remote, stored]
          simp only [ascending.mem_assign, or_and_right, exists_or, exists_eq_left, and_assoc]
          exact Iff.rfl
    | _ => cases caller

theorem step_ascending (ascending : KeyedList.Ascending s.remote) (turn : Section) :
    KeyedList.Ascending (s.step turn).1.remote := by
  cases caller : turn.caller with
  | none =>
    rw [(s.step_sameGraph caller).1.remote]
    exact ascending
  | some from_ =>
    cases turn with
    | peerUp peer => exact ascending
    | peerDown peer =>
      rw [step_peerDown_remote]
      exact ascending.filter _
    | bytes peer data clocks =>
      simp only [step]
      cases announce : decodeAnnounce data with
      | some content => exact Participant.handleAnnounce_ascending ascending ..
      | none =>
        cases fragment : decodeDataFrag data with
        | some body => exact ascending
        | none =>
          have same := (s.handleBytes_sameGraph peer clocks announce fragment).1.remote
          dsimp only
          rw [same]
          exact ascending
    | _ => cases caller

/-- `remote_writer_last_seen_ms` answers for endpoints of stored snapshots only. -/
def KnowsHeard (s : Running) : Prop := ∀ g ms, s.remoteWriterLastSeenMs g = some ms → s.HasListed g

/-- What a section hears comes from a writer announced by then, and it drops
the last snapshot of no writer that was heard. -/
def HearsKnown (s : Running) (turn : Section) : Prop :=
  (∀ g ∈ s.hears turn, s.HasListed g) ∧ ∀ g, s.Heard g → s.HasListed g → s.Leaves g turn

/-- A section that hears a writer drops no snapshot. -/
theorem leaves_of_hears {turn : Section} {g writer : Guid} (hears : s.hears turn = some writer) :
    s.Leaves g turn ↔ s.HasListed g := by
  cases turn with
  | bytes peer data clocks =>
    cases announce : decodeAnnounce data with
    | none => simp only [Leaves, announce]
    | some content =>
      simp only [Running.hears, hearsIn, decodeAnnounce_type announce] at hears
      exact absurd hears (by simp)
  | deliverSample index clocks => exact Iff.rfl
  | _ => exact absurd hears (by simp [Running.hears])

theorem knowsHeard_iff {p : Running} : p.KnowsHeard ↔ ∀ g, p.Heard g → p.HasListed g := by
  refine forall_congr' (fun g => ?_)
  simp only [Participant.Heard, Option.isSome_iff_exists, forall_exists_index]

theorem KnowsHeard.step (knows : s.KnowsHeard) (ascending : KeyedList.Ascending s.remote) (turn : Section) :
    (s.step turn).1.KnowsHeard ↔ s.HearsKnown turn := by
  have before := knowsHeard_iff.mp knows
  have heard := s.step_hears turn
  rw [knowsHeard_iff]
  constructor
  · intro after
    refine ⟨fun g hears => ?_, fun g known _ => ?_⟩
    · exact (leaves_of_hears hears).mp ((step_announced ascending turn g).mp (after g ((heard g).mpr (Or.inr hears))))
    · exact (step_announced ascending turn g).mp (after g ((heard g).mpr (Or.inl known)))
  · rintro ⟨known, leaves⟩ g hears
    refine (step_announced ascending turn g).mpr ?_
    rcases (heard g).mp hears with old | now
    · exact leaves g old (before g old)
    · exact (leaves_of_hears now).mpr (known g now)

/-- Over any run of a participant the last readings are those of announced
writers exactly if every section hears announced writers only and drops the
last snapshot of none that was heard. -/
theorem liveliness_known_iff (owner : GuidPrefix) (turns : List Section) :
    (∀ first, first <+: turns → ∀ g ms,
      (Run.exec (fun s turn => (s.step turn).1) (create owner) first).remoteWriterLastSeenMs g = some ms →
      (Run.exec (fun s turn => (s.step turn).1) (create owner) first).HasListed g) ↔
    Run.Along (fun s turn => (s.step turn).1) HearsKnown (create owner) turns := by
  have initially : KnowsHeard (create owner) :=
    fun g ms nothing => absurd nothing (by simp [create, Participant.remoteWriterLastSeenMs])
  refine @Run.always_iff_along _ _ _ KnowsHeard _ _ _ (fun first turn _ good => ?_) initially
  have ascending : KeyedList.Ascending (Run.exec (fun s turn => (s.step turn).1) (create owner) first).remote :=
    @Run.invariant _ _ _ (fun s : Running => KeyedList.Ascending s.remote)
      (fun s turn ascending => step_ascending ascending turn) _ first .nil
  exact (good first (List.prefix_refl _)).step ascending turn

/-- A HEARTBEAT of a writer nobody announced. -/
theorem liveliness_of_unknown_writer :
    ¬ ∀ first, first <+: [Section.bytes 1 (encodeHeartbeat ⟨default, 1, 1⟩) ⟨5, 5, fun _ => (5, 5)⟩] → ∀ g ms,
      (Run.exec (fun s turn => (s.step turn).1) (create ⟨List.replicate 12 0, rfl⟩) first).remoteWriterLastSeenMs g =
        some ms →
      (Run.exec (fun s turn => (s.step turn).1) (create ⟨List.replicate 12 0, rfl⟩) first).HasListed g := by
  intro known
  obtain ⟨entry, stored, _⟩ := known _ (List.prefix_refl _) default 5 (by decide)
  exact absurd stored List.not_mem_nil

end Running

end Mdds
