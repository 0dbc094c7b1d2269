import Mathlib.Data.List.TakeDrop
import Mdds.Discovery

namespace Mdds

/- Multi-byte fields are big-endian. A buffer is a list of bytes, a pointer
into it a suffix. -/

def putU16 (v : U16) : Bytes := [(v >>> 8).setWidth 8, v.setWidth 8]

def putU32 (v : U32) : Bytes :=
  [(v >>> 24).setWidth 8, (v >>> 16).setWidth 8, (v >>> 8).setWidth 8, v.setWidth 8]

def putU64 (v : U64) : Bytes := putU32 ((v >>> 32).setWidth 32) ++ putU32 (v.setWidth 32)

/-- Every read below is preceded by a length check, so the default never shows. -/
def byteAt (buf : Bytes) (i : Nat) : Byte := buf.getD i 0

def getU16 (buf : Bytes) : U16 := (byteAt buf 0).setWidth 16 <<< 8 ||| (byteAt buf 1).setWidth 16

def getU32 (buf : Bytes) : U32 :=
  (byteAt buf 0).setWidth 32 <<< 24 ||| (byteAt buf 1).setWidth 32 <<< 16 ||| (byteAt buf 2).setWidth 32 <<< 8 |||
    (byteAt buf 3).setWidth 32

def getU64 (buf : Bytes) : U64 := (getU32 buf).setWidth 64 <<< 32 ||| (getU32 (buf.drop 4)).setWidth 64

def getGuid (buf : Bytes) : Guid := ⟨buf.takeD 16 0, List.takeD_length ..⟩

@[simp] theorem putU16_length (v : U16) : (putU16 v).length = 2 := rfl

@[simp] theorem putU32_length (v : U32) : (putU32 v).length = 4 := rfl

@[simp] theorem putU64_length (v : U64) : (putU64 v).length = 8 := rfl

theorem getU16_putU16 (v : U16) (rest : Bytes) : getU16 (putU16 v ++ rest) = v := by
  ext i low
  simp only [getU16, putU16, byteAt]
  simp
  grind

theorem getU32_putU32 (v : U32) (rest : Bytes) : getU32 (putU32 v ++ rest) = v := by
  ext i low
  simp only [getU32, putU32, byteAt]
  simp
  grind

theorem getU64_putU64 (v : U64) (rest : Bytes) : getU64 (putU64 v ++ rest) = v := by
  have split : (putU64 v ++ rest).drop 4 = putU32 (v.setWidth 32) ++ rest := rfl
  rw [getU64, split, getU32_putU32, putU64, List.append_assoc, getU32_putU32]
  ext i low
  simp
  grind

theorem getGuid_append (g : Guid) (rest : Bytes) : getGuid (g.bytes ++ rest) = g := by
  obtain ⟨bytes, size⟩ := g
  simp only [getGuid, List.takeD_left' size]

/-- Reading on behind a field. -/
theorem drop_field {buf field rest : Bytes} {n k : Nat} (here : buf.drop n = field ++ rest) (size : field.length = k) :
    buf.drop (n + k) = rest := by
  rw [← List.drop_drop, here, List.drop_left' size]

/-- The second byte after the version. Any value outside the six named ones
reaches the dispatcher as it is. -/
inductive FrameType
  | data
  | dataFrag
  | acknack
  | heartbeat
  | announce
  | gap
  | other (raw : {raw : Byte // raw = 0 ∨ 7 ≤ raw.toNat})
  deriving DecidableEq

def FrameType.code : FrameType → Byte
  | data => 1
  | dataFrag => 2
  | acknack => 3
  | heartbeat => 4
  | announce => 5
  | gap => 6
  | other raw => raw.val

def FrameType.ofByte (raw : Byte) : FrameType :=
  if outside : raw = 0 ∨ 7 ≤ raw.toNat then .other ⟨raw, outside⟩
  else if raw = 1 then .data
  else if raw = 2 then .dataFrag
  else if raw = 3 then .acknack
  else if raw = 4 then .heartbeat
  else if raw = 5 then .announce
  else .gap

theorem FrameType.ofByte_code (type : FrameType) : FrameType.ofByte type.code = type := by
  cases type with
  | other raw => rw [code, ofByte, dif_pos raw.property]
  | _ => rfl

def kProtocolVersion : Byte := 4
def kFlagReliable : U16 := 1

def kHeaderSize : Nat := 12
def kDataBodyFixedSize : Nat := 36
def kDataFragBodyFixedSize : Nat := 44
def kAckNackBodySize : Nat := 48
def kHeartbeatBodySize : Nat := 32
def kGapBodySize : Nat := 48

def kTlvOriginGuid : Byte := 1
def kTlvOriginSeq : Byte := 2

structure FrameHeader where
  type : FrameType
  flags : U16
  bodyLen : U32
  deriving DecidableEq

/-- The optional tail of a sample frame. -/
structure DataTrailer where
  hasOrigin : Bool := false
  originGuid : Guid := default
  originSeq : U64 := 0
  deriving DecidableEq

structure DataBody where
  writer : Guid
  seq : U64
  pubTimeMs : U64
  payload : Bytes
  trailer : DataTrailer := {}
  deriving DecidableEq

structure DataFragBody where
  writer : Guid
  seq : U64
  pubTimeMs : U64
  totalSize : U32
  fragOffset : U32
  payload : Bytes
  trailer : DataTrailer := {}
  deriving DecidableEq

def encodeHeader (type : FrameType) (flags : U16) (bodyLen : U32) : Bytes :=
  [0x4D, 0x44, 0x44, 0x53, kProtocolVersion, type.code] ++ putU16 flags ++ putU32 bodyLen

/-- Magic, version, and a body that lies within the buffer. -/
def decodeHeader (buf : Bytes) : Option FrameHeader :=
  if buf.length < kHeaderSize then none
  else if byteAt buf 0 ≠ 0x4D ∨ byteAt buf 1 ≠ 0x44 ∨ byteAt buf 2 ≠ 0x44 ∨ byteAt buf 3 ≠ 0x53 then none
  else if byteAt buf 4 ≠ kProtocolVersion then none
  else
    let hdr : FrameHeader := ⟨.ofByte (byteAt buf 5), getU16 (buf.drop 6), getU32 (buf.drop 8)⟩
    if buf.length - kHeaderSize < hdr.bodyLen.toNat then none else some hdr

@[simp] theorem encodeHeader_length (type : FrameType) (flags : U16) (bodyLen : U32) :
    (encodeHeader type flags bodyLen).length = kHeaderSize := rfl

theorem decodeHeader_encode {type : FrameType} {flags : U16} {bodyLen : U32} {body : Bytes}
    (within : bodyLen.toNat ≤ body.length) :
    decodeHeader (encodeHeader type flags bodyLen ++ body) = some ⟨type, flags, bodyLen⟩ := by
  have flagsAt : getU16 ((encodeHeader type flags bodyLen ++ body).drop 6) = flags :=
    getU16_putU16 flags (putU32 bodyLen ++ body)
  have lenAt : getU32 ((encodeHeader type flags bodyLen ++ body).drop 8) = bodyLen := getU32_putU32 bodyLen body
  have typeAt : FrameType.ofByte (byteAt (encodeHeader type flags bodyLen ++ body) 5) = type := type.ofByte_code
  have whole : (encodeHeader type flags bodyLen ++ body).length = kHeaderSize + body.length := by
    rw [List.length_append, encodeHeader_length]
  unfold decodeHeader
  rw [if_neg (by omega), if_neg (by simp [byteAt, encodeHeader]), if_neg (by simp [byteAt, encodeHeader])]
  dsimp only
  rw [flagsAt, lenAt, typeAt, if_neg (by omega)]

/-- The scan over the entries of the tail. Each turn consumes two bytes or
more, so the fuel is the length; what was parsed before a truncated entry
is kept. -/
def parseEntries : Nat → Bytes → DataTrailer → Bool × DataTrailer
  | fuel + 1, type :: tlen :: rest, out =>
    if rest.length < tlen.toNat then (false, out)
    else
      let next : DataTrailer :=
        if type = kTlvOriginGuid then
          if tlen = 16 then { out with originGuid := getGuid rest, hasOrigin := true } else out
        else if type = kTlvOriginSeq then
          if tlen = 8 then { out with originSeq := getU64 rest } else out
        else out
      parseEntries fuel (rest.drop tlen.toNat) next
  | _, buf, out => (buf.isEmpty, out)

def parseTrailer (buf : Bytes) (out : DataTrailer) : Bool × DataTrailer := parseEntries buf.length buf out

def encodeTrailer (trailer : DataTrailer) : Bytes :=
  if !trailer.hasOrigin then []
  else [kTlvOriginGuid, 16] ++ trailer.originGuid.bytes ++ [kTlvOriginSeq, 8] ++ putU64 trailer.originSeq

/-- A frame of one type: the header with the length of the body, then the body. -/
def encodeFrame (type : FrameType) (flags : U16) (body : Bytes) : Bytes :=
  encodeHeader type flags (BitVec.ofNat 32 body.length) ++ body

/-- What every body decoder checks first: the header, the frame type and the
fixed part of the body. -/
def openFrame (type : FrameType) (fixedSize : Nat) (buf : Bytes) : Option (FrameHeader × Bytes) := do
  let hdr ← decodeHeader buf
  if hdr.type ≠ type ∨ hdr.bodyLen.toNat < fixedSize then none else some (hdr, buf.drop kHeaderSize)

/-- The tail of a sample body behind `tailOff` bytes. -/
def trailerOf (hdr : FrameHeader) (body : Bytes) (tailOff : Nat) : DataTrailer :=
  if tailOff < hdr.bodyLen.toNat then
    (parseTrailer ((body.drop tailOff).take (hdr.bodyLen.toNat - tailOff)) {}).2
  else {}

/-- `encode_data`. The payload is shorter than 2^32 bytes, its length being a
32-bit argument of the code. -/
def encodeData (writer : Guid) (seq pubTimeMs : U64) (payload : Bytes) (flags : U16)
    (trailer : Option DataTrailer) : Bytes :=
  encodeFrame .data flags (writer.bytes ++ (putU64 seq ++ (putU64 pubTimeMs ++
    (putU32 (BitVec.ofNat 32 payload.length) ++ (payload ++ (trailer.map encodeTrailer).getD [])))))

def decodeData (buf : Bytes) : Option DataBody := do
  let (hdr, body) ← openFrame .data kDataBodyFixedSize buf
  let payloadLen := getU32 (body.drop 32)
  if hdr.bodyLen.toNat - kDataBodyFixedSize < payloadLen.toNat then none
  else
    some ⟨getGuid body, getU64 (body.drop 16), getU64 (body.drop 24),
      (body.drop kDataBodyFixedSize).take payloadLen.toNat,
      trailerOf hdr body (kDataBodyFixedSize + payloadLen.toNat)⟩

def encodeDataFrag (writer : Guid) (seq pubTimeMs : U64) (totalSize fragOffset : U32) (payload : Bytes)
    (flags : U16) (trailer : Option DataTrailer) : Bytes :=
  encodeFrame .dataFrag flags (writer.bytes ++ (putU64 seq ++ (putU64 pubTimeMs ++ (putU32 totalSize ++
    (putU32 fragOffset ++ (putU32 (BitVec.ofNat 32 payload.length) ++
      (payload ++ (trailer.map encodeTrailer).getD [])))))))

/-- `decode_data_frag`; the range check at the end is made on 64 bits. -/
def decodeDataFrag (buf : Bytes) : Option DataFragBody := do
  let (hdr, body) ← openFrame .dataFrag kDataFragBodyFixedSize buf
  let totalSize := getU32 (body.drop 32)
  let fragOffset := getU32 (body.drop 36)
  let payloadLen := getU32 (body.drop 40)
  if hdr.bodyLen.toNat - kDataFragBodyFixedSize < payloadLen.toNat then none
  else if totalSize.toNat < fragOffset.toNat + payloadLen.toNat then none
  else
    some ⟨getGuid body, getU64 (body.drop 16), getU64 (body.drop 24), totalSize, fragOffset,
      (body.drop kDataFragBodyFixedSize).take payloadLen.toNat,
      trailerOf hdr body (kDataFragBodyFixedSize + payloadLen.toNat)⟩

/-- Bodies of two identifiers and two numbers, ACKNACK and GAP. -/
def encodePair (type : FrameType) (first second : Guid) (low high : U64) : Bytes :=
  encodeFrame type 0 (first.bytes ++ (second.bytes ++ (putU64 low ++ putU64 high)))

def encodeAcknack (body : AckNackBody) : Bytes :=
  encodePair .acknack body.reader body.writer body.baseSeq body.bitmap

def decodeAcknack (buf : Bytes) : Option AckNackBody :=
  (openFrame .acknack kAckNackBodySize buf).map (fun (_, body) =>
    ⟨getGuid body, getGuid (body.drop 16), getU64 (body.drop 32), getU64 (body.drop 40)⟩)

def encodeHeartbeat (body : HeartbeatBody) : Bytes :=
  encodeFrame .heartbeat 0 (body.writer.bytes ++ (putU64 body.firstSeq ++ putU64 body.lastSeq))

def decodeHeartbeat (buf : Bytes) : Option HeartbeatBody :=
  (openFrame .heartbeat kHeartbeatBodySize buf).map (fun (_, body) =>
    ⟨getGuid body, getU64 (body.drop 16), getU64 (body.drop 24)⟩)

def encodeGap (body : GapBody) : Bytes :=
  encodePair .gap body.writer body.reader body.gapStart body.gapEnd

def decodeGap (buf : Bytes) : Option GapBody :=
  (openFrame .gap kGapBodySize buf).map (fun (_, body) =>
    ⟨getGuid body, getGuid (body.drop 16), getU64 (body.drop 32), getU64 (body.drop 40)⟩)

@[simp] theorem encodeFrame_length (type : FrameType) (flags : U16) (body : Bytes) :
    (encodeFrame type flags body).length = kHeaderSize + body.length := by
  rw [encodeFrame, List.length_append, encodeHeader_length]

theorem decodeHeader_frame (type : FrameType) (flags : U16) (body suffix : Bytes) :
    decodeHeader (encodeFrame type flags body ++ suffix) = some ⟨type, flags, BitVec.ofNat 32 body.length⟩ := by
  rw [encodeFrame, List.append_assoc]
  refine decodeHeader_encode ?_
  rw [BitVec.toNat_ofNat, List.length_append]
  exact Nat.le_add_right_of_le (Nat.mod_le _ _)

theorem toNat_short {n : Nat} (short : n < 2 ^ 32) : (BitVec.ofNat 32 n).toNat = n := by
  rw [BitVec.toNat_ofNat, Nat.mod_eq_of_lt short]

/-- The body is handed on with whatever follows the frame in the buffer. -/
theorem openFrame_frame {type : FrameType} {flags : U16} {fixedSize : Nat} {body : Bytes} (suffix : Bytes)
    (short : body.length < 2 ^ 32) (fixed : fixedSize ≤ body.length) :
    openFrame type fixedSize (encodeFrame type flags body ++ suffix) =
      some (⟨type, flags, BitVec.ofNat 32 body.length⟩, body ++ suffix) := by
  have rest : (encodeFrame type flags body ++ suffix).drop kHeaderSize = body ++ suffix := rfl
  simp only [openFrame, decodeHeader_frame, Option.bind_eq_bind, Option.bind_some, rest,
    toNat_short short]
  rw [if_neg (by simpa using fixed)]

theorem openFrame_type {type : FrameType} {fixedSize : Nat} {buf : Bytes} {opened : FrameHeader × Bytes}
    (accepted : openFrame type fixedSize buf = some opened) :
    (decodeHeader buf).map FrameHeader.type = some type := by
  obtain ⟨hdr, header, rest⟩ := Option.bind_eq_some_iff.mp accepted
  split at rest
  · simp at rest
  · rename_i passed
    rw [header, Option.map_some, not_not.mp (not_or.mp passed).1]

theorem decodeData_type {buf : Bytes} {body : DataBody} (decoded : decodeData buf = some body) :
    (decodeHeader buf).map FrameHeader.type = some .data := by
  obtain ⟨_, opened, _⟩ := Option.bind_eq_some_iff.mp decoded
  exact openFrame_type opened

theorem decodeDataFrag_type {buf : Bytes} {body : DataFragBody} (decoded : decodeDataFrag buf = some body) :
    (decodeHeader buf).map FrameHeader.type = some .dataFrag := by
  obtain ⟨_, opened, _⟩ := Option.bind_eq_some_iff.mp decoded
  exact openFrame_type opened

/-- The bytes of the optional tail. -/
def tailBytes (trailer : Option DataTrailer) : Bytes := (trailer.map encodeTrailer).getD []

/-- What a receiver makes of the tail: without an origin nothing is sent. -/
def DataTrailer.received : Option DataTrailer → DataTrailer
  | some trailer => if trailer.hasOrigin then trailer else {}
  | none => {}

theorem parseTrailer_encode {trailer : DataTrailer} (origin : trailer.hasOrigin = true) :
    parseTrailer (encodeTrailer trailer) {} = (true, trailer) := by
  obtain ⟨hasOrigin, ⟨bytes, size⟩, originSeq⟩ := trailer
  subst origin
  have guidAt : getGuid (bytes ++ ([kTlvOriginSeq, 8] ++ putU64 originSeq)) = ⟨bytes, size⟩ :=
    getGuid_append ⟨bytes, size⟩ _
  have seqAt : getU64 (putU64 originSeq) = originSeq := by
    simpa using getU64_putU64 originSeq []
  have first : (bytes ++ ([kTlvOriginSeq, 8] ++ putU64 originSeq)).drop 16 = [kTlvOriginSeq, 8] ++ putU64 originSeq :=
    List.drop_left' size
  have whole : encodeTrailer ⟨true, ⟨bytes, size⟩, originSeq⟩ =
      kTlvOriginGuid :: 16 :: (bytes ++ ([kTlvOriginSeq, 8] ++ putU64 originSeq)) := by
    simp [encodeTrailer]
  have length : (encodeTrailer ⟨true, ⟨bytes, size⟩, originSeq⟩).length = 26 + 2 := by
    rw [whole]
    simp [size]
  rw [parseTrailer, length, whole, parseEntries, if_neg (by simp [size])]
  simp only [if_true, guidAt]
  rw [show (16 : Byte).toNat = 16 from rfl, first, List.cons_append, List.cons_append, List.nil_append,
    parseEntries, if_neg (by rw [putU64_length]; decide)]
  simp only [if_true, seqAt, if_neg (show kTlvOriginSeq ≠ kTlvOriginGuid by decide)]
  rfl

/-- The region between the front of the body and its declared end is all the
parser of the tail gets to see. -/
theorem trailerOf_region (type : FrameType) (flags : U16) {front region : Bytes} (suffix : Bytes)
    (short : front.length + region.length < 2 ^ 32) :
    trailerOf ⟨type, flags, BitVec.ofNat 32 (front.length + region.length)⟩ (front ++ (region ++ suffix)) front.length =
      (parseTrailer region {}).2 := by
  have tail : ((front ++ (region ++ suffix)).drop front.length).take region.length = region := by
    rw [List.drop_left, List.take_left]
  simp only [trailerOf, toNat_short short, Nat.add_sub_cancel_left, tail]
  split
  · rfl
  · rename_i empty
    rw [List.length_eq_zero_iff.mp (by omega : region.length = 0)]
    rfl

theorem received_eq (trailer : Option DataTrailer) :
    DataTrailer.received trailer = (parseTrailer (tailBytes trailer) {}).2 := by
  rcases trailer with _ | trailer
  · rfl
  · simp only [tailBytes, Option.map_some, Option.getD_some, DataTrailer.received]
    split
    · rename_i origin
      rw [parseTrailer_encode origin]
    · rename_i none
      rw [encodeTrailer, if_pos (by simpa using none)]
      rfl

/-- A DATA frame with any bytes in the place of its trailer. -/
def dataFrame (writer : Guid) (seq pubTimeMs : U64) (payload : Bytes) (flags : U16) (region : Bytes) : Bytes :=
  encodeFrame .data flags (writer.bytes ++ (putU64 seq ++ (putU64 pubTimeMs ++
    (putU32 (BitVec.ofNat 32 payload.length) ++ (payload ++ region)))))

/-- A DATA_FRAG frame with any bytes in the place of its trailer. -/
def dataFragFrame (writer : Guid) (seq pubTimeMs : U64) (totalSize fragOffset : U32) (payload : Bytes) (flags : U16)
    (region : Bytes) : Bytes :=
  encodeFrame .dataFrag flags (writer.bytes ++ (putU64 seq ++ (putU64 pubTimeMs ++ (putU32 totalSize ++
    (putU32 fragOffset ++ (putU32 (BitVec.ofNat 32 payload.length) ++ (payload ++ region)))))))

theorem decodeData_region (writer : Guid) (seq pubTimeMs : U64) {payload region : Bytes} (flags : U16) (suffix : Bytes)
    (short : kDataBodyFixedSize + payload.length + region.length < 2 ^ 32) :
    decodeData (dataFrame writer seq pubTimeMs payload flags region ++ suffix) =
      some ⟨writer, seq, pubTimeMs, payload, (parseTrailer region {}).2⟩ := by
  obtain ⟨front, frontIs⟩ : ∃ front, front = writer.bytes ++ (putU64 seq ++ (putU64 pubTimeMs ++
      (putU32 (BitVec.ofNat 32 payload.length) ++ payload))) := ⟨_, rfl⟩
  obtain ⟨rest, restIs⟩ : ∃ rest, rest = region ++ suffix := ⟨_, rfl⟩
  have frame : dataFrame writer seq pubTimeMs payload flags region = encodeFrame .data flags (front ++ region) := by
    simp only [dataFrame, frontIs, List.append_assoc]
  have bodyIs : front ++ rest = writer.bytes ++ (putU64 seq ++ (putU64 pubTimeMs ++
      (putU32 (BitVec.ofNat 32 payload.length) ++ (payload ++ rest)))) := by
    simp only [frontIs, List.append_assoc]
  have at16 : (front ++ rest).drop 16 = _ := @drop_field _ _ _ 0 _ bodyIs writer.size
  have at24 : (front ++ rest).drop 24 = _ := drop_field at16 (putU64_length seq)
  have at32 : (front ++ rest).drop 32 = _ := drop_field at24 (putU64_length pubTimeMs)
  have at36 : (front ++ rest).drop kDataBodyFixedSize = payload ++ rest := drop_field at32 (putU32_length _)
  have length : front.length = kDataBodyFixedSize + payload.length := by
    simp only [frontIs, List.length_append, writer.size, putU64_length, putU32_length, kDataBodyFixedSize]
    omega
  have payloadLen : (BitVec.ofNat 32 payload.length).toNat = payload.length := toNat_short (by omega)
  have whole : (front ++ region).length = kDataBodyFixedSize + payload.length + region.length := by
    rw [List.length_append, length]
  have opened := @openFrame_frame .data flags kDataBodyFixedSize (front ++ region) suffix (by omega) (by omega)
  have writerAt : getGuid (front ++ rest) = writer := bodyIs ▸ getGuid_append writer _
  have tail := @trailerOf_region .data flags front region suffix (by omega)
  rw [length] at tail
  rw [whole, List.append_assoc, ← restIs] at opened
  rw [← restIs] at tail
  rw [frame]
  simp only [decodeData, opened, Option.bind_eq_bind, Option.bind_some, at16, at24, at32, at36, writerAt,
    getU64_putU64, getU32_putU32, payloadLen, tail]
  rw [toNat_short short, if_neg (by omega), List.take_left]

theorem decodeData_frame (writer : Guid) (seq pubTimeMs : U64) {payload : Bytes} (flags : U16)
    (trailer : Option DataTrailer) (suffix : Bytes)
    (short : kDataBodyFixedSize + payload.length + (tailBytes trailer).length < 2 ^ 32) :
    decodeData (encodeData writer seq pubTimeMs payload flags trailer ++ suffix) =
      some ⟨writer, seq, pubTimeMs, payload, DataTrailer.received trailer⟩ := by
  rw [received_eq]
  exact decodeData_region writer seq pubTimeMs flags suffix short

theorem decodeData_encode (writer : Guid) (seq pubTimeMs : U64) {payload : Bytes} (flags : U16)
    (short : kDataBodyFixedSize + payload.length < 2 ^ 32) :
    decodeData (encodeData writer seq pubTimeMs payload flags none) = some ⟨writer, seq, pubTimeMs, payload, {}⟩ := by
  have decoded := decodeData_frame writer seq pubTimeMs flags none [] short
  rwa [List.append_nil] at decoded

theorem decodeDataFrag_region (writer : Guid) (seq pubTimeMs : U64) {totalSize fragOffset : U32} {payload region : Bytes}
    (flags : U16) (suffix : Bytes) (short : kDataFragBodyFixedSize + payload.length + region.length < 2 ^ 32) :
    decodeDataFrag (dataFragFrame writer seq pubTimeMs totalSize fragOffset payload flags region ++ suffix) =
      if totalSize.toNat < fragOffset.toNat + payload.length then none
      else some ⟨writer, seq, pubTimeMs, totalSize, fragOffset, payload, (parseTrailer region {}).2⟩ := by
  obtain ⟨front, frontIs⟩ : ∃ front, front = writer.bytes ++ (putU64 seq ++ (putU64 pubTimeMs ++ (putU32 totalSize ++
      (putU32 fragOffset ++ (putU32 (BitVec.ofNat 32 payload.length) ++ payload))))) := ⟨_, rfl⟩
  obtain ⟨rest, restIs⟩ : ∃ rest, rest = region ++ suffix := ⟨_, rfl⟩
  have frame : dataFragFrame writer seq pubTimeMs totalSize fragOffset payload flags region =
      encodeFrame .dataFrag flags (front ++ region) := by
    simp only [dataFragFrame, frontIs, List.append_assoc]
  have bodyIs : front ++ rest = writer.bytes ++ (putU64 seq ++ (putU64 pubTimeMs ++ (putU32 totalSize ++
      (putU32 fragOffset ++ (putU32 (BitVec.ofNat 32 payload.length) ++ (payload ++ rest)))))) := by
    simp only [frontIs, List.append_assoc]
  have at16 : (front ++ rest).drop 16 = _ := @drop_field _ _ _ 0 _ bodyIs writer.size
  have at24 : (front ++ rest).drop 24 = _ := drop_field at16 (putU64_length seq)
  have at32 : (front ++ rest).drop 32 = _ := drop_field at24 (putU64_length pubTimeMs)
  have at36 : (front ++ rest).drop 36 = _ := drop_field at32 (putU32_length totalSize)
  have at40 : (front ++ rest).drop 40 = _ := drop_field at36 (putU32_length fragOffset)
  have at44 : (front ++ rest).drop kDataFragBodyFixedSize = payload ++ rest := drop_field at40 (putU32_length _)
  have length : front.length = kDataFragBodyFixedSize + payload.length := by
    simp only [frontIs, List.length_append, writer.size, putU64_length, putU32_length, kDataFragBodyFixedSize]
    omega
  have payloadLen : (BitVec.ofNat 32 payload.length).toNat = payload.length := toNat_short (by omega)
  have whole : (front ++ region).length = kDataFragBodyFixedSize + payload.length + region.length := by
    rw [List.length_append, length]
  have opened := @openFrame_frame .dataFrag flags kDataFragBodyFixedSize (front ++ region) suffix (by omega) (by omega)
  have writerAt : getGuid (front ++ rest) = writer := bodyIs ▸ getGuid_append writer _
  have tail := @trailerOf_region .dataFrag flags front region suffix (by omega)
  rw [length] at tail
  rw [whole, List.append_assoc, ← restIs] at opened
  rw [← restIs] at tail
  rw [frame]
  simp only [decodeDataFrag, opened, Option.bind_eq_bind, Option.bind_some, at16, at24, at32, at36, at40, at44,
    writerAt, getU64_putU64, getU32_putU32, payloadLen, tail]
  rw [toNat_short short, if_neg (by omega), List.take_left]

theorem decodeDataFrag_frame (writer : Guid) (seq pubTimeMs : U64) {totalSize fragOffset : U32} {payload : Bytes}
    (flags : U16) (trailer : Option DataTrailer) (suffix : Bytes)
    (short : kDataFragBodyFixedSize + payload.length + (tailBytes trailer).length < 2 ^ 32)
    (inside : fragOffset.toNat + payload.length ≤ totalSize.toNat) :
    decodeDataFrag (encodeDataFrag writer seq pubTimeMs totalSize fragOffset payload flags trailer ++ suffix) =
      some ⟨writer, seq, pubTimeMs, totalSize, fragOffset, payload, DataTrailer.received trailer⟩ := by
  rw [received_eq]
  exact (decodeDataFrag_region writer seq pubTimeMs flags suffix short).trans (if_neg (Nat.not_lt.mpr inside))

theorem decodeDataFrag_encode (writer : Guid) (seq pubTimeMs : U64) {totalSize fragOffset : U32} {payload : Bytes}
    (flags : U16) (short : kDataFragBodyFixedSize + payload.length < 2 ^ 32)
    (inside : fragOffset.toNat + payload.length ≤ totalSize.toNat) :
    decodeDataFrag (encodeDataFrag writer seq pubTimeMs totalSize fragOffset payload flags none) =
      some ⟨writer, seq, pubTimeMs, totalSize, fragOffset, payload, {}⟩ := by
  have decoded := decodeDataFrag_frame writer seq pubTimeMs flags none [] short inside
  rwa [List.append_nil] at decoded

theorem decodePair_frame (type : FrameType) (first second : Guid) (low high : U64) (suffix : Bytes) :
    ∃ hdr body, openFrame type 48 (encodePair type first second low high ++ suffix) = some (hdr, body) ∧
      getGuid body = first ∧ getGuid (body.drop 16) = second ∧ getU64 (body.drop 32) = low ∧
      getU64 (body.drop 40) = high := by
  obtain ⟨body, bodyIs⟩ : ∃ body, body = first.bytes ++ (second.bytes ++ (putU64 low ++ putU64 high)) := ⟨_, rfl⟩
  have length : body.length = 48 := by
    simp only [bodyIs, List.length_append, first.size, second.size, putU64_length]
  have streamIs : body ++ suffix = first.bytes ++ (second.bytes ++ (putU64 low ++ (putU64 high ++ suffix))) := by
    simp only [bodyIs, List.append_assoc]
  have at16 : (body ++ suffix).drop 16 = _ := @drop_field _ _ _ 0 _ streamIs first.size
  have at32 : (body ++ suffix).drop 32 = _ := drop_field at16 second.size
  have at40 : (body ++ suffix).drop 40 = _ := drop_field at32 (putU64_length low)
  have opened := @openFrame_frame type 0 48 body suffix (by omega) (by omega)
  have frame : encodePair type first second low high = encodeFrame type 0 body := by rw [bodyIs, encodePair]
  rw [← frame] at opened
  refine ⟨_, body ++ suffix, opened, ?_, ?_, ?_, ?_⟩
  · rw [streamIs, getGuid_append]
  · rw [at16, getGuid_append]
  · rw [at32, getU64_putU64]
  · rw [at40, getU64_putU64]

theorem decodeAcknack_frame (body : AckNackBody) (suffix : Bytes) :
    decodeAcknack (encodeAcknack body ++ suffix) = some body := by
  obtain ⟨hdr, read, opened, reader, writer, base, bitmap⟩ :=
    decodePair_frame .acknack body.reader body.writer body.baseSeq body.bitmap suffix
  simp only [decodeAcknack, encodeAcknack, kAckNackBodySize, opened, Option.map_some, reader, writer, base, bitmap]

theorem decodeGap_frame (body : GapBody) (suffix : Bytes) : decodeGap (encodeGap body ++ suffix) = some body := by
  obtain ⟨hdr, read, opened, writer, reader, low, high⟩ :=
    decodePair_frame .gap body.writer body.reader body.gapStart body.gapEnd suffix
  simp only [decodeGap, encodeGap, kGapBodySize, opened, Option.map_some, reader, writer, low, high]

theorem decodeHeartbeat_frame (body : HeartbeatBody) (suffix : Bytes) :
    decodeHeartbeat (encodeHeartbeat body ++ suffix) = some body := by
  obtain ⟨bytes, bytesIs⟩ : ∃ bytes, bytes = body.writer.bytes ++ (putU64 body.firstSeq ++ putU64 body.lastSeq) :=
    ⟨_, rfl⟩
  have length : bytes.length = kHeartbeatBodySize := by
    simp only [bytesIs, List.length_append, body.writer.size, putU64_length, kHeartbeatBodySize]
  have streamIs : bytes ++ suffix = body.writer.bytes ++ (putU64 body.firstSeq ++ (putU64 body.lastSeq ++ suffix)) := by
    simp only [bytesIs, List.append_assoc]
  have at16 : (bytes ++ suffix).drop 16 = _ := @drop_field _ _ _ 0 _ streamIs body.writer.size
  have at24 : (bytes ++ suffix).drop 24 = _ := drop_field at16 (putU64_length _)
  have opened := @openFrame_frame .heartbeat 0 kHeartbeatBodySize bytes suffix (by rw [length]; decide) (by omega)
  have writerAt : getGuid (bytes ++ suffix) = body.writer := streamIs ▸ getGuid_append body.writer _
  simp only [decodeHeartbeat, encodeHeartbeat, ← bytesIs, opened, Option.map_some, writerAt, at16, at24, getU64_putU64]

@[simp] theorem encodeData_length (writer : Guid) (seq pubTimeMs : U64) (payload : Bytes) (flags : U16) :
    (encodeData writer seq pubTimeMs payload flags none).length =
      kHeaderSize + kDataBodyFixedSize + payload.length := by
  simp only [encodeData, encodeFrame_length, List.length_append, writer.size, putU64_length, putU32_length,
    kDataBodyFixedSize, Option.map_none, Option.getD_none, List.length_nil]
  omega

@[simp] theorem encodeDataFrag_length (writer : Guid) (seq pubTimeMs : U64) (totalSize fragOffset : U32) (payload : Bytes)
    (flags : U16) :
    (encodeDataFrag writer seq pubTimeMs totalSize fragOffset payload flags none).length =
      kHeaderSize + kDataFragBodyFixedSize + payload.length := by
  simp only [encodeDataFrag, encodeFrame_length, List.length_append, writer.size, putU64_length, putU32_length,
    kDataFragBodyFixedSize, Option.map_none, Option.getD_none, List.length_nil]
  omega

@[simp] theorem encodePair_length (type : FrameType) (first second : Guid) (low high : U64) :
    (encodePair type first second low high).length = kHeaderSize + 48 := by
  simp only [encodePair, encodeFrame_length, List.length_append, first.size, second.size, putU64_length]

@[simp] theorem encodeHeartbeat_length (body : HeartbeatBody) :
    (encodeHeartbeat body).length = kHeaderSize + kHeartbeatBodySize := by
  simp only [encodeHeartbeat, encodeFrame_length, List.length_append, body.writer.size, putU64_length,
    kHeartbeatBodySize]

end Mdds
