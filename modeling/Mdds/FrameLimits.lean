import Mdds.Running

namespace Mdds

/-- Fragments and single DATA frames respect any limit. -/
theorem Fragmenter.length_le {writer : Guid} {seq pubTimeMs : U64} {payload : Bytes} {maxPayload : Nat} {flags : U16}
    {frame : Bytes} (member : frame ∈ fragment writer seq pubTimeMs payload maxPayload flags) :
    frame.length ≤ maxPayload := by
  unfold fragment at member
  split at member
  · rename_i fits
    rw [List.mem_singleton.mp member, encodeData_length]
    exact fits
  · split at member
    · exact absurd member List.not_mem_nil
    · rename_i room
      have capacity := Nat.mod_le (maxPayload - kHeaderSize - kDataFragBodyFixedSize) (2 ^ 32)
      rw [loop_eq_map] at member
      obtain ⟨piece, cut, rfl⟩ := List.mem_map.mp member
      have within := pieces_le cut
      rw [frameOf, encodeDataFrag_length, List.length_take]
      omega

/-- Beside announces every frame respects every limit of at least 60 bytes. -/
theorem Frame.encode_le {frame : Frame} {maxPayload : Nat} (large : 60 ≤ maxPayload) {bytes : Bytes}
    (member : bytes ∈ frame.encode maxPayload) (other : ∀ snap announceSeq, frame ≠ .announce snap announceSeq) :
    bytes.length ≤ maxPayload := by
  cases frame with
  | announce snap announceSeq => exact absurd rfl (other snap announceSeq)
  | data writer sample reliableFlag =>
    simp only [encode, sendSampleTo] at member
    split at member
    · exact absurd member List.not_mem_nil
    · exact Fragmenter.length_le member
  | acknack body =>
    rw [List.mem_singleton.mp member, encodeAcknack, encodePair_length]
    exact large
  | heartbeat body =>
    rw [List.mem_singleton.mp member, encodeHeartbeat_length]
    exact Nat.le_trans (by decide) large
  | gap body =>
    rw [List.mem_singleton.mp member, encodeGap, encodePair_length]
    exact large

namespace Running

/-- The frames of an addressed send are within the limit of its peer. -/
def Fits (maxPayload : PeerId → Nat) (send : PeerId × Frame) : Prop :=
  ∀ bytes ∈ send.2.encode (maxPayload send.1), bytes.length ≤ maxPayload send.1

/-- Where a section sends the announce, the snapshot fits the peers it goes to. -/
def AnnounceFits (maxPayload : PeerId → Nat) (s : Running) : Section → Prop
  | .broadcastAnnounce =>
    s.loop = .broadcasting → ∀ peer ∈ s.peers, kHeaderSize + s.snapshot.wireSize ≤ maxPayload peer
  | .sendAnnounce index => ∀ peer ∈ s.greeting[index]?, kHeaderSize + s.snapshot.wireSize ≤ maxPayload peer
  | _ => True

theorem fits_announce {maxPayload : PeerId → Nat} {peer : PeerId} {snap : ParticipantSnapshot} {announceSeq : U64} :
    Fits maxPayload (peer, .announce snap announceSeq) ↔ kHeaderSize + snap.wireSize ≤ maxPayload peer := by
  simp [Fits, Frame.encode, encodeAnnounce_length]

theorem step_fits_iff {maxPayload : PeerId → Nat} (large : ∀ peer, 60 ≤ maxPayload peer) (s : Running) (turn : Section) :
    (∀ send ∈ (s.step turn).2, Fits maxPayload send) ↔ s.AnnounceFits maxPayload turn := by
  constructor
  · intro fits
    cases turn with
    | broadcastAnnounce =>
      intro phase peer inside
      simp only [step, phase, if_true, List.forall_mem_map] at fits
      exact fits_announce.mp (fits peer inside)
    | sendAnnounce index =>
      intro peer found
      simp only [step, Option.mem_def.mp found, List.forall_mem_singleton] at fits
      exact fits_announce.mp fits
    | _ => trivial
  · rintro announced ⟨peer, frame⟩ member
    by_cases announces : frame.announces = true
    · obtain ⟨rfl, ⟨rfl, phase, inside⟩ | ⟨index, rfl, found⟩⟩ := step_announces member announces
      · exact fits_announce.mpr (announced phase peer inside)
      · exact fits_announce.mpr (announced peer found)
    · intro bytes encoded
      exact Frame.encode_le (large peer) encoded (fun snap announceSeq same =>
        announces ((congrArg Frame.announces same).trans rfl))

/-- Every frame a participant hands to `send_frame` fits its peer exactly if
every announce does when it is sent. -/
theorem frames_fit_iff {maxPayload : PeerId → Nat} (large : ∀ peer, 60 ≤ maxPayload peer) (owner : GuidPrefix)
    (turns : List Section) :
    (∀ send ∈ Run.log (fun s turn => (s.step turn).1) (fun s turn => (s.step turn).2) (create owner) turns,
      ∀ bytes ∈ send.2.encode (maxPayload send.1), bytes.length ≤ maxPayload send.1) ↔
    Run.Along (fun s turn => (s.step turn).1) (AnnounceFits maxPayload) (create owner) turns :=
  Run.forall_log_iff_along.trans (Run.along_congr (step_fits_iff large) _ _)

/-- A single topic name of 3800 bytes outgrows a channel of 3800 bytes. -/
theorem announce_exceeds_limit :
    ¬ ∀ send ∈ Run.log (fun s turn => (s.step turn).1) (fun s turn => (s.step turn).2)
        (create ⟨List.replicate 12 0, rfl⟩)
        [.createWriter 0 (List.replicate 3800 0x61) [] {} 0, .peerUp 1, .sendAnnounce 0],
      ∀ bytes ∈ send.2.encode 3800, bytes.length ≤ 3800 := by
  have long : (List.replicate 3800 (0x61 : Byte)).length = 3800 := List.length_replicate
  generalize List.replicate 3800 (0x61 : Byte) = topic at long
  intro fits
  have bound := fits _ List.mem_cons_self _ List.mem_cons_self
  rw [encodeAnnounce_length] at bound
  have size : kHeaderSize + (28 + 0 + (61 + topic.length + 0 + 0)) ≤ 3800 := bound
  omega

theorem frames_fit_for_short_names :
    60 ≤ 3800 ∧ ∀ send ∈ Run.log (fun s turn => (s.step turn).1) (fun s turn => (s.step turn).2)
        (create ⟨List.replicate 12 0, rfl⟩) [.createWriter 0 [0x61] [] {} 0, .peerUp 1, .sendAnnounce 0],
      ∀ bytes ∈ send.2.encode 3800, bytes.length ≤ 3800 :=
  ⟨by decide, (@frames_fit_iff (fun _ => 3800) (fun _ => by decide) ⟨List.replicate 12 0, rfl⟩
    [.createWriter 0 [0x61] [] {} 0, .peerUp 1, .sendAnnounce 0]).mpr
      ⟨trivial, trivial, fun _ _ => (by decide : 102 ≤ 3800), trivial⟩⟩

end Running

end Mdds
