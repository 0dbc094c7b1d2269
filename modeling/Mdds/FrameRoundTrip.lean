import Mdds.AnnounceCodec

namespace Mdds

/-- What one encoder call is given. A payload and its length argument are one
list; the trailer pointer may be null. -/
inductive FrameFields
  | data (writer : Guid) (seq pubTimeMs : U64) (payload : Bytes) (flags : U16) (trailer : Option DataTrailer)
  | dataFrag (writer : Guid) (seq pubTimeMs : U64) (totalSize fragOffset : U32) (payload : Bytes) (flags : U16)
    (trailer : Option DataTrailer)
  | acknack (body : AckNackBody)
  | heartbeat (body : HeartbeatBody)
  | gap (body : GapBody)

/-- What one decoder call fills in. -/
inductive DecodedFrame
  | data (body : DataBody)
  | dataFrag (body : DataFragBody)
  | acknack (body : AckNackBody)
  | heartbeat (body : HeartbeatBody)
  | gap (body : GapBody)
  | announce (snap : ParticipantSnapshot) (announceSeq : U64)
  deriving DecidableEq

/-- The decoder for frames of one type. -/
def decodeAs (type : FrameType) (buf : Bytes) : Option DecodedFrame :=
  match type with
  | .data => (decodeData buf).map .data
  | .dataFrag => (decodeDataFrag buf).map .dataFrag
  | .acknack => (decodeAcknack buf).map .acknack
  | .heartbeat => (decodeHeartbeat buf).map .heartbeat
  | .gap => (decodeGap buf).map .gap
  | .announce => (decodeAnnounce buf).map (fun decoded => .announce decoded.1 decoded.2)
  | .other _ => none

namespace FrameFields

def type : FrameFields → FrameType
  | data .. => .data
  | dataFrag .. => .dataFrag
  | acknack _ => .acknack
  | heartbeat _ => .heartbeat
  | gap _ => .gap

/-- Only the sample frames carry flags. -/
def flags : FrameFields → U16
  | data _ _ _ _ flags _ => flags
  | dataFrag _ _ _ _ _ _ flags _ => flags
  | _ => 0

def encode : FrameFields → Bytes
  | data writer seq pubTimeMs payload flags trailer => encodeData writer seq pubTimeMs payload flags trailer
  | dataFrag writer seq pubTimeMs totalSize fragOffset payload flags trailer =>
    encodeDataFrag writer seq pubTimeMs totalSize fragOffset payload flags trailer
  | acknack body => encodeAcknack body
  | heartbeat body => encodeHeartbeat body
  | gap body => encodeGap body

/-- The body length fits its 32-bit field, and a fragment lies inside its sample. -/
def Fits : FrameFields → Prop
  | data _ _ _ payload _ trailer => kDataBodyFixedSize + payload.length + (tailBytes trailer).length < 2 ^ 32
  | dataFrag _ _ _ totalSize fragOffset payload _ trailer =>
    kDataFragBodyFixedSize + payload.length + (tailBytes trailer).length < 2 ^ 32 ∧
      fragOffset.toNat + payload.length ≤ totalSize.toNat
  | _ => True

/-- The fields as the receiver should see them. -/
def received : FrameFields → DecodedFrame
  | data writer seq pubTimeMs payload _ trailer =>
    .data ⟨writer, seq, pubTimeMs, payload, DataTrailer.received trailer⟩
  | dataFrag writer seq pubTimeMs totalSize fragOffset payload _ trailer =>
    .dataFrag ⟨writer, seq, pubTimeMs, totalSize, fragOffset, payload, DataTrailer.received trailer⟩
  | acknack body => .acknack body
  | heartbeat body => .heartbeat body
  | gap body => .gap body

end FrameFields

theorem decodeAnnounce_type {buf : Bytes} {decoded : ParticipantSnapshot × U64}
    (accepted : decodeAnnounce buf = some decoded) : (decodeHeader buf).map FrameHeader.type = some .announce := by
  obtain ⟨hdr, header, rest⟩ := Option.bind_eq_some_iff.mp accepted
  split at rest
  · simp at rest
  · rename_i announce
    rw [header, Option.map_some, not_not.mp announce]

/-- Every decoder checks the frame type of the header. -/
theorem decodeAs_type {type : FrameType} {buf : Bytes} {decoded : DecodedFrame}
    (accepted : decodeAs type buf = some decoded) : (decodeHeader buf).map FrameHeader.type = some type := by
  cases type with
  | data =>
    obtain ⟨body, read, _⟩ := Option.map_eq_some_iff.mp accepted
    exact decodeData_type read
  | dataFrag =>
    obtain ⟨body, read, _⟩ := Option.map_eq_some_iff.mp accepted
    exact decodeDataFrag_type read
  | announce =>
    obtain ⟨body, read, _⟩ := Option.map_eq_some_iff.mp accepted
    exact decodeAnnounce_type read
  | other raw => cases accepted
  | acknack | heartbeat | gap =>
    obtain ⟨body, read, _⟩ := Option.map_eq_some_iff.mp accepted
    obtain ⟨_, opened, _⟩ := Option.map_eq_some_iff.mp read
    exact openFrame_type opened

namespace FrameFields

theorem encode_frame (f : FrameFields) : ∃ body, f.encode = encodeFrame f.type f.flags body := by
  cases f with
  | data | dataFrag | acknack | heartbeat | gap => exact ⟨_, rfl⟩

theorem decodeAs_own {f : FrameFields} (fits : f.Fits) (suffix : Bytes) :
    decodeAs f.type (f.encode ++ suffix) = some f.received := by
  cases f with
  | data writer seq pubTimeMs payload flags trailer =>
    exact congrArg (Option.map _) (decodeData_frame writer seq pubTimeMs flags trailer suffix fits)
  | dataFrag writer seq pubTimeMs totalSize fragOffset payload flags trailer =>
    exact congrArg (Option.map _) (decodeDataFrag_frame writer seq pubTimeMs flags trailer suffix fits.1 fits.2)
  | acknack body => exact congrArg (Option.map _) (decodeAcknack_frame body suffix)
  | heartbeat body => exact congrArg (Option.map _) (decodeHeartbeat_frame body suffix)
  | gap body => exact congrArg (Option.map _) (decodeGap_frame body suffix)

/-- Whatever follows the frame in the buffer, its own decoder returns the
encoded fields and the decoders of the other types reject it. -/
theorem decodeAs_encode {f : FrameFields} (fits : f.Fits) (suffix : Bytes) :
    (decodeHeader (f.encode ++ suffix)).map (fun hdr => (hdr.type, hdr.flags)) = some (f.type, f.flags) ∧
    ∀ type, decodeAs type (f.encode ++ suffix) = if type = f.type then some f.received else none := by
  obtain ⟨body, frame⟩ := f.encode_frame
  have header : decodeHeader (f.encode ++ suffix) = some ⟨f.type, f.flags, BitVec.ofNat 32 body.length⟩ := by
    rw [frame, decodeHeader_frame]
  refine ⟨by rw [header, Option.map_some], fun type => ?_⟩
  split
  · rename_i own
    rw [own, decodeAs_own fits suffix]
  · rename_i foreign
    refine Option.eq_none_iff_forall_ne_some.mpr (fun decoded accepted => foreign ?_)
    have read := decodeAs_type accepted
    rw [header, Option.map_some] at read
    exact (Option.some.inj read).symm

theorem decodeAs_encode_relayed :
    let relayed := FrameFields.data default 7 1000 [0xAA, 0xBB] 1 (some ⟨true, default, 9⟩)
    relayed.Fits ∧ decodeAs .data (relayed.encode ++ [1, 2, 3]) = some relayed.received ∧
      decodeAs .gap (relayed.encode ++ [1, 2, 3]) = none := by
  have fits : (FrameFields.data default 7 1000 [0xAA, 0xBB] 1 (some ⟨true, default, 9⟩)).Fits :=
    show _ < _ by decide
  have decoded := (decodeAs_encode fits [1, 2, 3]).2
  exact ⟨fits, decoded .data, decoded .gap⟩

end FrameFields

end Mdds
