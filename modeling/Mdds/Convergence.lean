import Mdds.AnnounceExact
import Mdds.FrameRoundTrip
import Mdds.Lib.Latest
import Mdds.RemoteState

namespace Mdds

namespace RemoteParticipant

/-- What an announce leaves behind besides the liveliness stamp. -/
def stored (rp : RemoteParticipant) : PeerId × U64 × ParticipantSnapshot := (rp.peer, rp.announceSeq, rp.snap)

def rank (rp : RemoteParticipant) : Nat := rp.announceSeq.toNat

def refresh (old heard : RemoteParticipant) : RemoteParticipant := { old with lastAnnounceMs := heard.lastAnnounceMs }

end RemoteParticipant

/-- The entry a decodable announce would be stored as. -/
def Section.heard : Section → Option RemoteParticipant
  | bytes peer data clocks =>
    (decodeAnnounce data).map (fun decoded => ⟨peer, decoded.2, decoded.1, clocks.steadyMs⟩)
  | _ => none

/-- The announces of one participant, in the order in which they are processed. -/
def announcesOf (guid : Guid) (turns : List Section) : List RemoteParticipant :=
  (turns.filterMap Section.heard).filter (fun rp => rp.snap.participantGuid = guid)

theorem announcesOf_append {guid : Guid} {first second : List Section} :
    announcesOf guid (first ++ second) = announcesOf guid first ++ announcesOf guid second := by
  rw [announcesOf, List.filterMap_append, List.filter_append, announcesOf, announcesOf]

theorem announcesOf_silent {guid : Guid} {turn : Section} (silent : turn.heard = none) : announcesOf guid [turn] = [] := by
  rw [announcesOf, List.filterMap_cons_none silent, List.filterMap_nil, List.filter_nil]

/-- The entry of each participant is a register that only its own announces are offered to. -/
theorem Participant.handleAnnounce_lookup (p : Participant) (peer : PeerId) (snap : ParticipantSnapshot)
    (announceSeq now : U64) (guid : Guid) :
    (p.handleAnnounce peer snap announceSeq now).1.remote.lookup guid =
      if snap.participantGuid = guid then
        Latest.offer RemoteParticipant.rank RemoteParticipant.refresh (p.remote.lookup guid) ⟨peer, announceSeq, snap, now⟩
      else p.remote.lookup guid := by
  obtain ⟨_, ⟨stale, _, stamped⟩ | ⟨fresh, assigned⟩⟩ := p.handleAnnounce_cases peer snap announceSeq now
  · rw [stamped, KeyedList.lookup_modify]
    by_cases own : snap.participantGuid = guid
    · subst own
      cases known : p.remote.lookup snap.participantGuid with
      | none =>
        rw [known] at stale
        cases stale
      | some old =>
        rw [known, Option.all_some, decide_eq_false_iff_not, BitVec.not_lt] at stale
        have older : RemoteParticipant.rank ⟨peer, announceSeq, snap, now⟩ ≤ old.rank := stale
        simp only [if_true, Option.map_some, Latest.offer, older, RemoteParticipant.refresh]
    · rw [if_neg own, if_neg (Ne.symm own)]
  · rw [assigned, KeyedList.lookup_assign]
    by_cases own : snap.participantGuid = guid
    · subst own
      cases known : p.remote.lookup snap.participantGuid with
      | none => simp only [if_true, Latest.offer]
      | some old =>
        rw [known, Option.all_some, decide_eq_true_eq] at fresh
        have newer : ¬ RemoteParticipant.rank ⟨peer, announceSeq, snap, now⟩ ≤ old.rank := Nat.not_le.mpr fresh
        simp only [if_true, Latest.offer, newer, if_false]
    · rw [if_neg own, if_neg (Ne.symm own)]

/-- The state in which the liveliness stamp of one participant has moved. -/
def ParticipantImpl.stamp (p : ParticipantImpl) (guid : Guid) (now : U64) : ParticipantImpl :=
  { p with remote := KeyedList.modify guid (fun rp => { rp with lastAnnounceMs := now }) p.remote }

/-- An announce that is not newer than the stored one moves the liveliness
stamp, and nothing else happens. -/
theorem ParticipantImpl.handleBytes_stale {p : ParticipantImpl} {data : Bytes} {snap : ParticipantSnapshot}
    {announceSeq : U64} {old : RemoteParticipant} (decoded : decodeAnnounce data = some (snap, announceSeq))
    (known : p.remote.lookup snap.participantGuid = some old) (stale : announceSeq ≤ old.announceSeq) (peer : PeerId)
    (clocks : Clocks) :
    p.handleBytes peer data clocks = (p.stamp snap.participantGuid clocks.steadyMs, []) := by
  have stamped : p.handleAnnounce peer snap announceSeq clocks.steadyMs =
      ((p.stamp snap.participantGuid clocks.steadyMs).toParticipant, [], false) := by
    simp only [Participant.handleAnnounce, known, if_pos stale, stamp]
  simp only [handleBytes, decodeAnnounce_type decoded, decoded, stamped]
  rfl

namespace Running
variable {s : Running}

theorem step_lookup {turn : Section} (stays : ∀ peer, turn ≠ .peerDown peer) (guid : Guid) :
    (s.step turn).1.remote.lookup guid =
      (announcesOf guid [turn]).foldl (Latest.offer RemoteParticipant.rank RemoteParticipant.refresh)
        (s.remote.lookup guid) := by
  cases caller : turn.caller with
  | none =>
    have silent : turn.heard = none := by
      cases turn with
      | bytes => cases caller
      | _ => rfl
    rw [announcesOf_silent silent, List.foldl_nil, (step_sameGraph caller).1.remote]
  | some origin =>
    cases turn with
    | peerDown peer => exact absurd rfl (stays peer)
    | peerUp peer =>
      rw [announcesOf_silent rfl, List.foldl_nil]
      simp only [step, Participant.handlePeerUp]
    | bytes peer data clocks =>
      cases decoded : decodeAnnounce data with
      | none =>
        have silent : (Section.bytes peer data clocks).heard = none := by rw [Section.heard, decoded, Option.map_none]
        rw [announcesOf_silent silent, List.foldl_nil]
        cases fragment : decodeDataFrag data with
        | none =>
          simp only [step, decoded, fragment]
          rw [(s.handleBytes_sameGraph peer clocks decoded fragment).1.remote]
        | some body =>
          simp only [step, decoded, fragment]
          rfl
      | some content =>
        obtain ⟨snap, announceSeq⟩ := content
        have heard : (Section.bytes peer data clocks).heard = some ⟨peer, announceSeq, snap, clocks.steadyMs⟩ := by
          rw [Section.heard, decoded, Option.map_some]
        simp only [step, decoded, announcesOf, List.filterMap_cons_some heard, List.filterMap_nil]
        rw [s.toParticipant.handleAnnounce_lookup]
        by_cases own : snap.participantGuid = guid
        · simp [own]
        · simp [own]
    | _ => cases caller

/-- After a run every entry is what its own announces made of it. -/
theorem exec_lookup (turns : List Section) (stays : ∀ peer, .peerDown peer ∉ turns) (guid : Guid) :
    (Run.exec (fun s turn => (s.step turn).1) s turns).remote.lookup guid =
      (announcesOf guid turns).foldl (Latest.offer RemoteParticipant.rank RemoteParticipant.refresh)
        (s.remote.lookup guid) := by
  induction turns generalizing s with
  | nil => rfl
  | cons turn rest ih =>
    have first : ∀ peer, turn ≠ .peerDown peer := by
      rintro peer rfl
      exact stays peer List.mem_cons_self
    rw [Run.exec_cons, ih (fun peer member => stays peer (List.mem_cons_of_mem _ member)), step_lookup first,
      ← List.singleton_append (l := rest), announcesOf_append, List.foldl_append]

/-- Announces converge: whatever else happens, with any order and repetition
of the frames, each entry is the newest announce of its participant that was
processed first, a frame processed again only moves the stamp, and the entry
depends on no other participant's announces. -/
theorem announces_converge (turns : List Section) (fresh : s.remote = []) (stays : ∀ peer, .peerDown peer ∉ turns) :
    let reached := Run.exec (fun s turn => (s.step turn).1) s turns
    (∀ guid, (reached.remote.lookup guid).map RemoteParticipant.stored =
      ((announcesOf guid turns).argmax RemoteParticipant.rank).map RemoteParticipant.stored) ∧
    (∀ origin data clocks snap announceSeq, .bytes origin data clocks ∈ turns →
      decodeAnnounce data = some (snap, announceSeq) → ∀ peer again,
        reached.handleBytes peer data again = (reached.stamp snap.participantGuid again.steadyMs, [])) ∧
    (∀ (other : Running) (others : List Section), other.remote = [] → (∀ peer, .peerDown peer ∉ others) →
      ∀ guid, announcesOf guid others = announcesOf guid turns →
        (Run.exec (fun s turn => (s.step turn).1) other others).remote.lookup guid = reached.remote.lookup guid) := by
  intro reached
  have entry (guid : Guid) : reached.remote.lookup guid =
      (announcesOf guid turns).foldl (Latest.offer RemoteParticipant.rank RemoteParticipant.refresh) none := by
    rw [exec_lookup turns stays, fresh]
    rfl
  refine ⟨fun guid => ?_, fun origin data clocks snap announceSeq member decoded peer again => ?_,
    fun other others otherFresh otherStays guid same => ?_⟩
  · have settled := Latest.view_foldl RemoteParticipant.rank RemoteParticipant.refresh RemoteParticipant.stored
      (fun _ _ => rfl) (fun _ _ => rfl) (announcesOf guid turns)
    rw [entry]
    simpa only [Option.map_map, Function.comp_def] using congrArg (Option.map Prod.snd) settled
  · have heard : (Section.bytes origin data clocks).heard = some ⟨origin, announceSeq, snap, clocks.steadyMs⟩ := by
      rw [Section.heard, decoded, Option.map_some]
    have offered : ⟨origin, announceSeq, snap, clocks.steadyMs⟩ ∈ announcesOf snap.participantGuid turns :=
      List.mem_filter.mpr ⟨List.mem_filterMap.mpr ⟨_, member, heard⟩, decide_eq_true rfl⟩
    obtain ⟨held, holds, older⟩ := Latest.rank_le_of_mem RemoteParticipant.rank RemoteParticipant.refresh
      (fun _ _ => rfl) offered
    exact ParticipantImpl.handleBytes_stale decoded ((entry _).trans holds) older peer again
  · rw [exec_lookup others otherStays, otherFresh, same, entry]
    rfl

theorem announces_converge_reordered :
    let snap : ParticipantSnapshot := ⟨default, [⟨[0x2F], [0x61]⟩], []⟩
    let older : ParticipantSnapshot := ⟨default, [], []⟩
    let turns : List Section := [.bytes 4 (encodeAnnounce older 1) ⟨10, 0, fun _ => (0, 0)⟩,
      .bytes 5 (encodeAnnounce snap 2) ⟨20, 0, fun _ => (0, 0)⟩,
      .bytes 4 (encodeAnnounce snap 2) ⟨30, 0, fun _ => (0, 0)⟩]
    let reached := Run.exec (fun s turn => (s.step turn).1) (Running.create ⟨List.replicate 12 1, rfl⟩) turns
    (reached.remote.lookup default).map RemoteParticipant.stored = some (5, 2, snap) ∧
      ∀ again, reached.handleBytes 4 (encodeAnnounce older 1) again = (reached.stamp default again.steadyMs, []) := by
  intro snap older turns reached
  have newer : decodeAnnounce (encodeAnnounce snap 2) = some (snap, 2) :=
    decodeAnnounce_encode 2 ⟨by decide, by decide, by decide, by decide⟩ (by decide)
  have first : decodeAnnounce (encodeAnnounce older 1) = some (older, 1) :=
    decodeAnnounce_encode 1 ⟨by decide, by decide, by decide, by decide⟩ (by decide)
  have begun : (Running.create ⟨List.replicate 12 1, rfl⟩).remote = [] := rfl
  obtain ⟨entries, repeated, _⟩ := announces_converge turns begun (by simp [turns])
  refine ⟨?_, repeated 4 _ _ older 1 List.mem_cons_self first 4⟩
  have heard : announcesOf default turns = [⟨4, 1, older, 10⟩, ⟨5, 2, snap, 20⟩, ⟨4, 2, snap, 30⟩] := by
    simp only [announcesOf, turns, List.filterMap_cons, Section.heard, newer, first]
    rfl
  rw [entries, heard]
  rfl

end Running

end Mdds
