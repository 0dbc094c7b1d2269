import Mdds.AnnounceExact
import Mdds.Lib.BoundedRead

/- The decoders again, index by index. A pointer is an offset into the buffer,
sizes keep the widths of the code (64 bits for `size_t`), and every access is
checked against the real length of the buffer. -/

namespace Mdds
namespace Raw
open Bounded

variable (mem : Bytes)

def getU16 (ptr : Nat) : Except Fault U16 := do
  let high ← load mem ptr
  let low ← load mem (ptr + 1)
  pure (high.setWidth 16 <<< 8 ||| low.setWidth 16)

def getU32 (ptr : Nat) : Except Fault U32 := do
  let first ← load mem ptr
  let second ← load mem (ptr + 1)
  let third ← load mem (ptr + 2)
  let fourth ← load mem (ptr + 3)
  pure (first.setWidth 32 <<< 24 ||| second.setWidth 32 <<< 16 ||| third.setWidth 32 <<< 8 ||| fourth.setWidth 32)

def getU64 (ptr : Nat) : Except Fault U64 := do
  let high ← getU32 mem ptr
  let low ← getU32 mem (ptr + 4)
  pure (high.setWidth 64 <<< 32 ||| low.setWidth 64)

def getGuid (ptr : Nat) : Except Fault Guid := do
  let bytes ← copy mem ptr 16
  pure (Mdds.getGuid bytes)

/-- The `switch` of `parse_trailer` on one entry with its value at `ptr`. -/
def switchEntry (type tlen : Byte) (ptr : Nat) (out : DataTrailer) : Except Fault DataTrailer :=
  if type = kTlvOriginGuid then
    if tlen = 16 then do
      let originGuid ← getGuid mem ptr
      pure { out with originGuid, hasOrigin := true }
    else pure out
  else if type = kTlvOriginSeq then
    if tlen = 8 then do
      let originSeq ← getU64 mem ptr
      pure { out with originSeq }
    else pure out
  else pure out

/-- The loop of `parse_trailer` over `len` bytes from `ptr`. The fuel only
stands in for termination: running out of it is a fault. -/
def parseTrailer (ptr : Nat) (len : U64) : Nat → U64 → DataTrailer → Except Fault (Bool × DataTrailer)
  | 0, _, _ => .error .endless
  | fuel + 1, pos, out =>
    if len < pos + 2 then .ok (pos = len, out)
    else do
      let type ← load mem (ptr + pos.toNat)
      let tlen ← load mem (ptr + (pos + 1).toNat)
      if len < pos + 2 + tlen.setWidth 64 then .ok (false, out)
      else
        let next ← switchEntry mem type tlen (ptr + (pos + 2).toNat) out
        parseTrailer ptr len fuel (pos + (2 + tlen.setWidth 64)) next

def decodeHeader (len : U64) : Except Fault (Option FrameHeader) := do
  if len < 12 then pure none
  else if (← load mem 0) ≠ 0x4D then pure none
  else if (← load mem 1) ≠ 0x44 then pure none
  else if (← load mem 2) ≠ 0x44 then pure none
  else if (← load mem 3) ≠ 0x53 then pure none
  else if (← load mem 4) ≠ kProtocolVersion then pure none
  else
    let type ← load mem 5
    let flags ← getU16 mem 6
    let bodyLen ← getU32 mem 8
    if len - 12 < bodyLen.setWidth 64 then pure none else pure (some ⟨.ofByte type, flags, bodyLen⟩)

/-- The checks every body decoder begins with. -/
def openFrame (type : FrameType) (fixedSize : U64) (len : U64) : Except Fault (Option FrameHeader) := do
  match ← decodeHeader mem len with
  | none => pure none
  | some hdr => if hdr.type ≠ type ∨ hdr.bodyLen.setWidth 64 < fixedSize then pure none else pure (some hdr)

/-- The pointer to the body. -/
def body : Nat := 12

/-- The tail of a sample body, if anything stands behind `tailOff`. -/
def tail (hdr : FrameHeader) (tailOff : U64) : Except Fault DataTrailer :=
  if tailOff < hdr.bodyLen.setWidth 64 then do
    let len := hdr.bodyLen.setWidth 64 - tailOff
    let parsed ← parseTrailer mem (body + tailOff.toNat) len (len.toNat + 1) 0 {}
    pure parsed.2
  else pure {}

/-- A decoded DATA body as the code has it: the payload is a pointer into the
buffer and a length. -/
structure DataSlice where
  writer : Guid
  seq : U64
  pubTimeMs : U64
  payload : Nat
  payloadLen : U32
  trailer : DataTrailer

structure DataFragSlice extends DataSlice where
  totalSize : U32
  fragOffset : U32

/-- The body with the payload bytes the pointer refers to. -/
def DataSlice.read (slice : DataSlice) : DataBody :=
  ⟨slice.writer, slice.seq, slice.pubTimeMs, (mem.drop slice.payload).take slice.payloadLen.toNat, slice.trailer⟩

def DataFragSlice.read (slice : DataFragSlice) : DataFragBody :=
  ⟨slice.writer, slice.seq, slice.pubTimeMs, slice.totalSize, slice.fragOffset,
    (mem.drop slice.payload).take slice.payloadLen.toNat, slice.trailer⟩

/-- The payload lies between the fixed part and the end of the declared body,
and that within the buffer. -/
def DataSlice.Inside (slice : DataSlice) : Prop :=
  ∃ hdr, Mdds.decodeHeader mem = some hdr ∧ kHeaderSize ≤ slice.payload ∧
    slice.payload + slice.payloadLen.toNat ≤ kHeaderSize + hdr.bodyLen.toNat ∧
    kHeaderSize + hdr.bodyLen.toNat ≤ mem.length

def decodeData (len : U64) : Except Fault (Option DataSlice) := do
  match ← openFrame mem .data 36 len with
  | none => pure none
  | some hdr =>
    let writer ← getGuid mem body
    let seq ← getU64 mem (body + 16)
    let pubTimeMs ← getU64 mem (body + 24)
    let payloadLen ← getU32 mem (body + 32)
    if hdr.bodyLen.setWidth 64 - 36 < payloadLen.setWidth 64 then pure none
    else
      let trailer ← tail mem hdr (36 + payloadLen.setWidth 64)
      pure (some ⟨writer, seq, pubTimeMs, body + 36, payloadLen, trailer⟩)

def decodeDataFrag (len : U64) : Except Fault (Option DataFragSlice) := do
  match ← openFrame mem .dataFrag 44 len with
  | none => pure none
  | some hdr =>
    let writer ← getGuid mem body
    let seq ← getU64 mem (body + 16)
    let pubTimeMs ← getU64 mem (body + 24)
    let totalSize ← getU32 mem (body + 32)
    let fragOffset ← getU32 mem (body + 36)
    let payloadLen ← getU32 mem (body + 40)
    if hdr.bodyLen.setWidth 64 - 44 < payloadLen.setWidth 64 then pure none
    else
      let trailer ← tail mem hdr (44 + payloadLen.setWidth 64)
      if totalSize.setWidth 64 < (fragOffset.setWidth 64 + payloadLen.setWidth 64 : U64) then pure none
      else pure (some ⟨⟨writer, seq, pubTimeMs, body + 44, payloadLen, trailer⟩, totalSize, fragOffset⟩)

def decodeAcknack (len : U64) : Except Fault (Option AckNackBody) := do
  match ← openFrame mem .acknack 48 len with
  | none => pure none
  | some _ =>
    let reader ← getGuid mem body
    let writer ← getGuid mem (body + 16)
    let baseSeq ← getU64 mem (body + 32)
    let bitmap ← getU64 mem (body + 40)
    pure (some ⟨reader, writer, baseSeq, bitmap⟩)

def decodeHeartbeat (len : U64) : Except Fault (Option HeartbeatBody) := do
  match ← openFrame mem .heartbeat 32 len with
  | none => pure none
  | some _ =>
    let writer ← getGuid mem body
    let firstSeq ← getU64 mem (body + 16)
    let lastSeq ← getU64 mem (body + 24)
    pure (some ⟨writer, firstSeq, lastSeq⟩)

def decodeGap (len : U64) : Except Fault (Option GapBody) := do
  match ← openFrame mem .gap 48 len with
  | none => pure none
  | some _ =>
    let writer ← getGuid mem body
    let reader ← getGuid mem (body + 16)
    let gapStart ← getU64 mem (body + 32)
    let gapEnd ← getU64 mem (body + 40)
    pure (some ⟨writer, reader, gapStart, gapEnd⟩)

/-- What one entry of the tail changes. -/
def entry (type tlen : Byte) (value : Bytes) (out : DataTrailer) : DataTrailer :=
  if type = kTlvOriginGuid then
    if tlen = 16 then { out with originGuid := Mdds.getGuid value, hasOrigin := true } else out
  else if type = kTlvOriginSeq then
    if tlen = 8 then { out with originSeq := Mdds.getU64 value } else out
  else out

theorem parseEntries_fuel {fuel other : Nat} {buf : Bytes} (out : DataTrailer) (enough : buf.length ≤ fuel)
    (alsoEnough : buf.length ≤ other) : parseEntries fuel buf out = parseEntries other buf out := by
  induction fuel generalizing other buf out with
  | zero =>
    obtain rfl := List.length_eq_zero_iff.mp (Nat.le_zero.mp enough)
    cases other <;> rfl
  | succ fuel ih =>
    match buf, other, enough, alsoEnough with
    | [], 0, _, _ => rfl
    | [], other + 1, _, _ => rfl
    | [_], other + 1, _, _ => rfl
    | type :: tlen :: rest, other + 1, enough, alsoEnough =>
      rw [List.length_cons, List.length_cons] at enough alsoEnough
      rw [parseEntries, parseEntries]
      split
      · rfl
      · exact ih _ (by rw [List.length_drop]; omega) (by rw [List.length_drop]; omega)

theorem parseTrailer_cons (type tlen : Byte) (rest : Bytes) (out : DataTrailer) :
    Mdds.parseTrailer (type :: tlen :: rest) out =
      if rest.length < tlen.toNat then (false, out)
      else Mdds.parseTrailer (rest.drop tlen.toNat) (entry type tlen rest out) := by
  rw [Mdds.parseTrailer, List.length_cons, parseEntries]
  split
  · rfl
  · exact parseEntries_fuel _ (by rw [List.length_drop, List.length_cons]; omega) (Nat.le_refl _)

theorem parseTrailer_short {buf : Bytes} (out : DataTrailer) (short : buf.length < 2) :
    Mdds.parseTrailer buf out = (buf.isEmpty, out) := by
  match buf, short with
  | [], _ => rfl
  | [_], _ => rfl

section Fields
variable {mem : Bytes} {ptr : Nat}

theorem load_byteAt {i : Nat} (inside : ptr + i < mem.length) : load mem (ptr + i) = .ok (byteAt (mem.drop ptr) i) := by
  rw [load_ok inside, byteAt, List.getD_eq_getElem?_getD, List.getElem?_drop, List.getElem?_eq_getElem inside,
    Option.getD_some]

theorem getU16_ok (inside : ptr + 2 ≤ mem.length) : getU16 mem ptr = .ok (Mdds.getU16 (mem.drop ptr)) := by
  have first : load mem ptr = _ := @load_byteAt mem ptr 0 (by omega)
  have second := @load_byteAt mem ptr 1 (by omega)
  simp only [getU16, first, second, Mdds.getU16, bind, Except.bind, pure, Except.pure]

theorem getU32_ok (inside : ptr + 4 ≤ mem.length) : getU32 mem ptr = .ok (Mdds.getU32 (mem.drop ptr)) := by
  have first : load mem ptr = _ := @load_byteAt mem ptr 0 (by omega)
  have second := @load_byteAt mem ptr 1 (by omega)
  have third := @load_byteAt mem ptr 2 (by omega)
  have fourth := @load_byteAt mem ptr 3 (by omega)
  simp only [getU32, first, second, third, fourth, Mdds.getU32, bind, Except.bind, pure, Except.pure]

theorem getU64_ok (inside : ptr + 8 ≤ mem.length) : getU64 mem ptr = .ok (Mdds.getU64 (mem.drop ptr)) := by
  have high := @getU32_ok mem ptr (by omega)
  have low := @getU32_ok mem (ptr + 4) (by omega)
  simp only [getU64, high, low, Mdds.getU64, List.drop_drop, bind, Except.bind, pure, Except.pure]

theorem byteAt_take {buf : Bytes} {n i : Nat} (inside : i < n) : byteAt (buf.take n) i = byteAt buf i := by
  rw [byteAt, byteAt, List.getD_eq_getElem?_getD, List.getD_eq_getElem?_getD, List.getElem?_take_of_lt inside]

theorem getU32_take {buf : Bytes} {n : Nat} (enough : 4 ≤ n) : Mdds.getU32 (buf.take n) = Mdds.getU32 buf := by
  rw [Mdds.getU32, byteAt_take (by omega), byteAt_take (by omega), byteAt_take (by omega), byteAt_take (by omega),
    Mdds.getU32]

theorem getU64_take {buf : Bytes} {n : Nat} (enough : 8 ≤ n) : Mdds.getU64 (buf.take n) = Mdds.getU64 buf := by
  rw [Mdds.getU64, getU32_take (by omega), List.drop_take, getU32_take (by omega), Mdds.getU64]

theorem getGuid_take {buf : Bytes} {n : Nat} (enough : 16 ≤ n) : Mdds.getGuid (buf.take n) = Mdds.getGuid buf := by
  have same (k : Nat) : ∀ {n : Nat} (buf : Bytes), k ≤ n → (buf.take n).takeD k 0 = buf.takeD k 0 := by
    induction k with
    | zero => exact fun _ _ => rfl
    | succ k ih =>
      intro n buf more
      obtain ⟨n, rfl⟩ : ∃ m, n = m + 1 := ⟨n - 1, by omega⟩
      cases buf with
      | nil => rw [List.take_nil]
      | cons first rest =>
        rw [List.take_succ_cons, List.takeD_succ, List.takeD_succ, List.tail_cons, List.tail_cons, ih rest (by omega)]
        rfl
  simp only [Mdds.getGuid, same 16 buf enough]

theorem getGuid_ok (inside : ptr + 16 ≤ mem.length) : getGuid mem ptr = .ok (Mdds.getGuid (mem.drop ptr)) := by
  rw [getGuid, copy_ok inside]
  exact congrArg Except.ok (getGuid_take (Nat.le_refl 16))

end Fields

/-- The bytes of a part of the buffer that stand behind a position in it. -/
def behind (mem : Bytes) (base : Nat) (len pos : U64) : Bytes :=
  (mem.drop (base + pos.toNat)).take (len.toNat - pos.toNat)

section Part
variable {mem : Bytes} {base : Nat} {len : U64} (within : base + len.toNat ≤ mem.length)
include within

theorem behind_length (pos : U64) : (behind mem base len pos).length = len.toNat - pos.toNat := by
  rw [behind, List.length_take, List.length_drop]
  omega

omit within in
theorem behind_drop {pos next : U64} {n : Nat} (moved : next.toNat = pos.toNat + n) :
    (behind mem base len pos).drop n = behind mem base len next := by
  rw [behind, behind, List.drop_take, List.drop_drop, moved, Nat.add_assoc, Nat.sub_add_eq]

theorem getGuid_behind {pos : U64} (room : pos.toNat + 16 ≤ len.toNat) :
    getGuid mem (base + pos.toNat) = .ok (Mdds.getGuid (behind mem base len pos)) := by
  rw [getGuid_ok (by omega), behind, getGuid_take (by omega)]

theorem getU64_behind {pos : U64} (room : pos.toNat + 8 ≤ len.toNat) :
    getU64 mem (base + pos.toNat) = .ok (Mdds.getU64 (behind mem base len pos)) := by
  rw [getU64_ok (by omega), behind, getU64_take (by omega)]

theorem behind_cons {pos next : U64} (inside : pos.toNat < len.toNat) (moved : next.toNat = pos.toNat + 1) :
    ∃ value, load mem (base + pos.toNat) = .ok value ∧ behind mem base len pos = value :: behind mem base len next := by
  refine ⟨_, load_ok (by omega), ?_⟩
  have more : len.toNat - pos.toNat = (len.toNat - pos.toNat - 1) + 1 := by omega
  rw [behind, List.drop_eq_getElem_cons (by omega), more, List.take_succ_cons, behind, moved]
  rfl

theorem switchEntry_ok {pos : U64} (type tlen : Byte) (out : DataTrailer) (room : pos.toNat + tlen.toNat ≤ len.toNat) :
    switchEntry mem type tlen (base + pos.toNat) out = .ok (entry type tlen (behind mem base len pos) out) := by
  unfold switchEntry entry
  split
  · split
    · rename_i whole
      subst whole
      rw [getGuid_behind within (by simpa using room)]
      rfl
    · rfl
  · split
    · split
      · rename_i whole
        subst whole
        rw [getU64_behind within (by simpa using room)]
        rfl
      · rfl
    · rfl

/-- Within half the address space no position and no sum of the loop wraps. -/
theorem parseTrailer_ok (small : len.toNat < 2 ^ 63) {fuel : Nat} {pos : U64} (out : DataTrailer)
    (inside : pos.toNat ≤ len.toNat) (enough : len.toNat - pos.toNat < fuel) :
    parseTrailer mem base len fuel pos out = .ok (Mdds.parseTrailer (behind mem base len pos) out) := by
  induction fuel generalizing pos out with
  | zero => omega
  | succ fuel ih =>
    have one : (pos + 1).toNat = pos.toNat + 1 := by bv_omega
    have two : (pos + 2).toNat = pos.toNat + 2 := by bv_omega
    have size := behind_length within pos
    unfold parseTrailer
    split
    · rename_i short
      have left : len.toNat < pos.toNat + 2 := by bv_omega
      have ended : (behind mem base len pos).isEmpty = decide (pos = len) := by
        rw [Bool.eq_iff_iff, List.isEmpty_iff_length_eq_zero, size, decide_eq_true_iff]
        constructor
        · intro none
          bv_omega
        · rintro rfl
          omega
      rw [parseTrailer_short out (by omega), ended]
    · rename_i room
      have room : pos.toNat + 2 ≤ len.toNat := by bv_omega
      obtain ⟨type, typeAt, first⟩ := behind_cons within (by omega) one
      obtain ⟨tlen, tlenAt, second⟩ := @behind_cons mem base len within (pos + 1) (pos + 2) (by omega) (by omega)
      have next : (pos + (2 + tlen.setWidth 64)).toNat = (pos + 2).toNat + tlen.toNat := by bv_omega
      have rest := behind_length within (pos + 2)
      simp only [typeAt, tlenAt, first, second, parseTrailer_cons, rest, bind, Except.bind]
      split
      · rename_i truncated
        rw [if_pos (by bv_omega)]
      · rename_i whole
        have whole : (pos + 2).toNat + tlen.toNat ≤ len.toNat := by bv_omega
        rw [if_neg (by omega), switchEntry_ok within type tlen out whole, behind_drop next]
        exact ih _ (by omega) (by omega)

end Part

section Whole
variable {mem : Bytes} {len : U64} (whole : mem.length = len.toNat)
include whole

theorem decodeHeader_ok : decodeHeader mem len = .ok (Mdds.decodeHeader mem) := by
  unfold decodeHeader Mdds.decodeHeader
  split
  · rename_i short
    rw [if_pos (by simp only [kHeaderSize]; bv_omega)]
    rfl
  · rename_i long
    have long : 12 ≤ mem.length := by bv_omega
    have at0 : load mem 0 = .ok (byteAt mem 0) := @load_byteAt mem 0 0 (by omega)
    have at1 : load mem 1 = .ok (byteAt mem 1) := @load_byteAt mem 0 1 (by omega)
    have at2 : load mem 2 = .ok (byteAt mem 2) := @load_byteAt mem 0 2 (by omega)
    have at3 : load mem 3 = .ok (byteAt mem 3) := @load_byteAt mem 0 3 (by omega)
    have at4 : load mem 4 = .ok (byteAt mem 4) := @load_byteAt mem 0 4 (by omega)
    have at5 : load mem 5 = .ok (byteAt mem 5) := @load_byteAt mem 0 5 (by omega)
    have flags := @getU16_ok mem 6 (by omega)
    have bodyLen := @getU32_ok mem 8 (by omega)
    have fits : len - 12 < (Mdds.getU32 (mem.drop 8)).setWidth 64 ↔
        mem.length - kHeaderSize < (Mdds.getU32 (mem.drop 8)).toNat := by
      simp only [kHeaderSize]
      bv_omega
    rw [if_neg (by simp only [kHeaderSize]; omega)]
    simp only [at0, at1, at2, at3, at4, at5, flags, bodyLen, bind, Except.bind, pure, Except.pure, fits]
    by_cases m0 : byteAt mem 0 = 0x4D
    · by_cases m1 : byteAt mem 1 = 0x44
      · by_cases m2 : byteAt mem 2 = 0x44
        · by_cases m3 : byteAt mem 3 = 0x53
          · by_cases m4 : byteAt mem 4 = kProtocolVersion
            · simp only [m0, m1, m2, m3, m4, ne_eq, not_true_eq_false, if_false, or_self]
              split <;> rfl
            · simp only [m0, m1, m2, m3, m4, ne_eq, not_true_eq_false, not_false_eq_true, or_false, if_true, if_false]
          · simp only [m0, m1, m2, m3, ne_eq, not_true_eq_false, not_false_eq_true, or_true, if_true, if_false]
        · simp only [m0, m1, m2, ne_eq, not_true_eq_false, not_false_eq_true, or_true, true_or, if_true, if_false]
      · simp only [m0, m1, ne_eq, not_true_eq_false, not_false_eq_true, or_true, true_or, if_true, if_false]
    · simp only [m0, ne_eq, not_false_eq_true, true_or, if_true]

omit whole in
/-- A header is only accepted if the body it declares lies in the buffer. -/
theorem decodeHeader_within {hdr : FrameHeader} (decoded : Mdds.decodeHeader mem = some hdr) :
    12 + hdr.bodyLen.toNat ≤ mem.length := by
  unfold Mdds.decodeHeader at decoded
  split at decoded
  · cases decoded
  · split at decoded
    · cases decoded
    · split at decoded
      · cases decoded
      · dsimp only at decoded
        split at decoded
        · cases decoded
        · obtain rfl := Option.some.inj decoded
          simp only [kHeaderSize] at *
          omega

/-- What an opened frame promises: its declared body lies in the buffer and
holds the fixed part. -/
theorem openFrame_ok (type : FrameType) {fixedSize : Nat} {fixed : U64} (small : fixed.toNat = fixedSize) :
    (∃ hdr, openFrame mem type fixed len = .ok (some hdr) ∧ Mdds.openFrame type fixedSize mem = some (hdr, mem.drop body) ∧
      Mdds.decodeHeader mem = some hdr ∧ 12 + hdr.bodyLen.toNat ≤ mem.length ∧ fixedSize ≤ hdr.bodyLen.toNat) ∨
    (openFrame mem type fixed len = .ok none ∧ Mdds.openFrame type fixedSize mem = none) := by
  have header := decodeHeader_ok whole
  unfold openFrame Mdds.openFrame
  rcases decoded : Mdds.decodeHeader mem with _ | hdr
  · rw [header, decoded]
    exact Or.inr ⟨rfl, rfl⟩
  · rw [header, decoded]
    have inside := decodeHeader_within decoded
    have same : (hdr.type ≠ type ∨ hdr.bodyLen.setWidth 64 < fixed) ↔
        (hdr.type ≠ type ∨ hdr.bodyLen.toNat < fixedSize) := by
      refine or_congr_right ?_
      bv_omega
    simp only [bind, Except.bind, pure, Except.pure, same, Option.bind_some]
    by_cases refused : hdr.type ≠ type ∨ hdr.bodyLen.toNat < fixedSize
    · rw [if_pos refused, if_pos refused]
      exact Or.inr ⟨rfl, rfl⟩
    · rw [if_neg refused, if_neg refused]
      exact Or.inl ⟨hdr, rfl, rfl, rfl, inside, by omega⟩

theorem tail_ok {hdr : FrameHeader} {tailOff : U64} (inside : 12 + hdr.bodyLen.toNat ≤ mem.length) :
    tail mem hdr tailOff = .ok (trailerOf hdr (mem.drop body) tailOff.toNat) := by
  unfold tail trailerOf
  have same : tailOff < hdr.bodyLen.setWidth 64 ↔ tailOff.toNat < hdr.bodyLen.toNat := by bv_omega
  simp only [same]
  split
  · rename_i more
    have size : (hdr.bodyLen.setWidth 64 - tailOff).toNat = hdr.bodyLen.toNat - tailOff.toNat := by bv_omega
    have parsed := @parseTrailer_ok mem (body + tailOff.toNat) (hdr.bodyLen.setWidth 64 - tailOff)
      (by rw [body]; omega) (by omega) ((hdr.bodyLen.setWidth 64 - tailOff).toNat + 1) 0 {} (by simp) (by simp)
    rw [parsed, behind, size, List.drop_drop]
    rfl
  · rfl

theorem decodeData_ok : ∃ result, decodeData mem len = .ok result ∧
    result.map (DataSlice.read mem) = Mdds.decodeData mem ∧ ∀ slice ∈ result, slice.Inside mem := by
  rcases @openFrame_ok mem len whole .data kDataBodyFixedSize 36 rfl with
    ⟨hdr, opened, sourceOpened, header, inside, fixed⟩ | ⟨refused, sourceRefused⟩
  · rw [kDataBodyFixedSize] at fixed
    have writer := @getGuid_ok mem body (by rw [body]; omega)
    have seq := @getU64_ok mem (body + 16) (by rw [body]; omega)
    have pubTimeMs := @getU64_ok mem (body + 24) (by rw [body]; omega)
    have payloadLen := @getU32_ok mem (body + 32) (by rw [body]; omega)
    rw [← List.drop_drop] at seq pubTimeMs payloadLen
    obtain ⟨size, sizeIs⟩ : ∃ size, size = Mdds.getU32 ((mem.drop body).drop 32) := ⟨_, rfl⟩
    rw [← sizeIs] at payloadLen
    have source : Mdds.decodeData mem = if hdr.bodyLen.toNat - 36 < size.toNat then none else
        some ⟨Mdds.getGuid (mem.drop body), Mdds.getU64 ((mem.drop body).drop 16), Mdds.getU64 ((mem.drop body).drop 24),
          ((mem.drop body).drop 36).take size.toNat, trailerOf hdr (mem.drop body) (36 + size.toNat)⟩ := by
      rw [Mdds.decodeData, sourceOpened, sizeIs]
      rfl
    have fits : hdr.bodyLen.setWidth 64 - 36 < size.setWidth 64 ↔ hdr.bodyLen.toNat - 36 < size.toNat := by bv_omega
    have off : (36 + size.setWidth 64 : U64).toNat = 36 + size.toNat := by bv_omega
    simp only [decodeData, opened, writer, seq, pubTimeMs, payloadLen, fits, bind, Except.bind, pure, Except.pure, source]
    by_cases short : hdr.bodyLen.toNat - 36 < size.toNat
    · rw [if_pos short, if_pos short]
      exact ⟨none, rfl, rfl, fun _ absent => by cases absent⟩
    · rw [if_neg short, if_neg short, tail_ok whole inside, off]
      refine ⟨_, rfl, ?_, ?_⟩
      · simp only [Option.map_some, DataSlice.read, List.drop_drop]
      · intro slice same
        obtain rfl := Option.some.inj same
        refine ⟨hdr, header, ?_⟩
        simp only [kHeaderSize, body]
        omega
  · refine ⟨none, ?_, ?_, fun _ absent => by cases absent⟩
    · rw [decodeData, refused]
      rfl
    · rw [Mdds.decodeData, sourceRefused]
      rfl

/-- As for DATA; besides, the fragment lies inside its sample as a sum of integers. -/
theorem decodeDataFrag_ok : ∃ result, decodeDataFrag mem len = .ok result ∧
    result.map (DataFragSlice.read mem) = Mdds.decodeDataFrag mem ∧ ∀ slice ∈ result, slice.Inside mem ∧
      slice.fragOffset.toNat + slice.payloadLen.toNat ≤ slice.totalSize.toNat := by
  rcases @openFrame_ok mem len whole .dataFrag kDataFragBodyFixedSize 44 rfl with
    ⟨hdr, opened, sourceOpened, header, inside, fixed⟩ | ⟨refused, sourceRefused⟩
  · rw [kDataFragBodyFixedSize] at fixed
    have writer := @getGuid_ok mem body (by rw [body]; omega)
    have seq := @getU64_ok mem (body + 16) (by rw [body]; omega)
    have pubTimeMs := @getU64_ok mem (body + 24) (by rw [body]; omega)
    have totalSize := @getU32_ok mem (body + 32) (by rw [body]; omega)
    have fragOffset := @getU32_ok mem (body + 36) (by rw [body]; omega)
    have payloadLen := @getU32_ok mem (body + 40) (by rw [body]; omega)
    rw [← List.drop_drop] at seq pubTimeMs totalSize fragOffset payloadLen
    obtain ⟨size, sizeIs⟩ : ∃ size, size = Mdds.getU32 ((mem.drop body).drop 40) := ⟨_, rfl⟩
    obtain ⟨total, totalIs⟩ : ∃ total, total = Mdds.getU32 ((mem.drop body).drop 32) := ⟨_, rfl⟩
    obtain ⟨offset, offsetIs⟩ : ∃ offset, offset = Mdds.getU32 ((mem.drop body).drop 36) := ⟨_, rfl⟩
    rw [← sizeIs] at payloadLen
    rw [← totalIs] at totalSize
    rw [← offsetIs] at fragOffset
    have source : Mdds.decodeDataFrag mem = if hdr.bodyLen.toNat - 44 < size.toNat then none
        else if total.toNat < offset.toNat + size.toNat then none else
        some ⟨Mdds.getGuid (mem.drop body), Mdds.getU64 ((mem.drop body).drop 16), Mdds.getU64 ((mem.drop body).drop 24),
          total, offset, ((mem.drop body).drop 44).take size.toNat, trailerOf hdr (mem.drop body) (44 + size.toNat)⟩ := by
      rw [Mdds.decodeDataFrag, sourceOpened, sizeIs, totalIs, offsetIs]
      rfl
    have fits : hdr.bodyLen.setWidth 64 - 44 < size.setWidth 64 ↔ hdr.bodyLen.toNat - 44 < size.toNat := by bv_omega
    have beyond : total.setWidth 64 < (offset.setWidth 64 + size.setWidth 64 : U64) ↔
        total.toNat < offset.toNat + size.toNat := by bv_omega
    have off : (44 + size.setWidth 64 : U64).toNat = 44 + size.toNat := by bv_omega
    simp only [decodeDataFrag, opened, writer, seq, pubTimeMs, totalSize, fragOffset, payloadLen, fits, beyond, bind,
      Except.bind, pure, Except.pure, source]
    by_cases short : hdr.bodyLen.toNat - 44 < size.toNat
    · rw [if_pos short, if_pos short]
      exact ⟨none, rfl, rfl, fun _ absent => by cases absent⟩
    · rw [if_neg short, if_neg short, tail_ok whole inside, off]
      by_cases outside : total.toNat < offset.toNat + size.toNat
      · simp only [if_pos outside]
        exact ⟨none, rfl, rfl, fun _ absent => by cases absent⟩
      · simp only [if_neg outside]
        refine ⟨_, rfl, ?_, ?_⟩
        · simp only [Option.map_some, DataFragSlice.read, List.drop_drop]
        · intro slice same
          obtain rfl := Option.some.inj same
          refine ⟨⟨hdr, header, ?_⟩, by dsimp only; omega⟩
          simp only [kHeaderSize, body]
          omega
  · refine ⟨none, ?_, ?_, fun _ absent => by cases absent⟩
    · rw [decodeDataFrag, refused]
      rfl
    · rw [Mdds.decodeDataFrag, sourceRefused]
      rfl

theorem decodeAcknack_ok : decodeAcknack mem len = .ok (Mdds.decodeAcknack mem) := by
  unfold decodeAcknack Mdds.decodeAcknack
  rcases @openFrame_ok mem len whole .acknack kAckNackBodySize 48 rfl with
    ⟨hdr, opened, sourceOpened, _, inside, fixed⟩ | ⟨refused, sourceRefused⟩
  · rw [kAckNackBodySize] at fixed
    have reader := @getGuid_ok mem body (by rw [body]; omega)
    have writer := @getGuid_ok mem (body + 16) (by rw [body]; omega)
    have base := @getU64_ok mem (body + 32) (by rw [body]; omega)
    have bitmap := @getU64_ok mem (body + 40) (by rw [body]; omega)
    rw [← List.drop_drop] at writer base bitmap
    simp only [opened, sourceOpened, reader, writer, base, bitmap, bind, Except.bind, pure, Except.pure, Option.map_some]
  · rw [refused, sourceRefused]
    rfl

theorem decodeGap_ok : decodeGap mem len = .ok (Mdds.decodeGap mem) := by
  unfold decodeGap Mdds.decodeGap
  rcases @openFrame_ok mem len whole .gap kGapBodySize 48 rfl with
    ⟨hdr, opened, sourceOpened, _, inside, fixed⟩ | ⟨refused, sourceRefused⟩
  · rw [kGapBodySize] at fixed
    have writer := @getGuid_ok mem body (by rw [body]; omega)
    have reader := @getGuid_ok mem (body + 16) (by rw [body]; omega)
    have start := @getU64_ok mem (body + 32) (by rw [body]; omega)
    have last := @getU64_ok mem (body + 40) (by rw [body]; omega)
    rw [← List.drop_drop] at reader start last
    simp only [opened, sourceOpened, writer, reader, start, last, bind, Except.bind, pure, Except.pure, Option.map_some]
  · rw [refused, sourceRefused]
    rfl

theorem decodeHeartbeat_ok : decodeHeartbeat mem len = .ok (Mdds.decodeHeartbeat mem) := by
  unfold decodeHeartbeat Mdds.decodeHeartbeat
  rcases @openFrame_ok mem len whole .heartbeat kHeartbeatBodySize 32 rfl with
    ⟨hdr, opened, sourceOpened, _, inside, fixed⟩ | ⟨refused, sourceRefused⟩
  · rw [kHeartbeatBodySize] at fixed
    have writer := @getGuid_ok mem body (by rw [body]; omega)
    have first := @getU64_ok mem (body + 16) (by rw [body]; omega)
    have last := @getU64_ok mem (body + 24) (by rw [body]; omega)
    rw [← List.drop_drop] at first last
    simp only [opened, sourceOpened, writer, first, last, bind, Except.bind, pure, Except.pure, Option.map_some]
  · rw [refused, sourceRefused]
    rfl

end Whole

/- `Reader2` over the `len` bytes from `base`. -/

section Reader2
variable (base : Nat) (len : U64)

def Reader2.u16 : Cursor U64 U16 := fun pos =>
  if len < pos + 2 then .ok none
  else do
    let high ← load mem (base + pos.toNat)
    let low ← load mem (base + (pos + 1).toNat)
    pure (some (high.setWidth 16 <<< 8 ||| low.setWidth 16, pos + 2))

/-- The eight turns of `v = (v << 8) | buf_[pos_++]`. -/
def Reader2.shiftIn : Nat → U64 → U64 → Except Fault (Option (U64 × U64))
  | 0, pos, v => .ok (some (v, pos))
  | turns + 1, pos, v => do
    let next ← load mem (base + pos.toNat)
    Reader2.shiftIn turns (pos + 1) (v <<< 8 ||| next.setWidth 64)

def Reader2.u64 : Cursor U64 U64 := fun pos =>
  if len < pos + 8 then .ok none else Reader2.shiftIn mem base 8 pos 0

def Reader2.bytes (n : U64) : Cursor U64 Bytes := fun pos =>
  if len < pos + n then .ok none
  else do
    let read ← copy mem (base + pos.toNat) n.toNat
    pure (some (read, pos + n))

def Reader2.guid : Cursor U64 Guid := do
  let read ← Reader2.bytes mem base len 16
  pure (Mdds.getGuid read)

def Reader2.str : Cursor U64 Bytes := do
  let n ← Reader2.u16 mem base len
  Reader2.bytes mem base len (n.setWidth 64)

/-- `decode_qos` on the local copy of the record. -/
def decodeQos (size : U64) : Except Fault (Option QosProfile) :=
  if size < 32 then .ok none
  else do
    let reliability ← load mem 0
    let durability ← load mem 1
    let history ← load mem 2
    let liveliness ← load mem 3
    let depth ← getU32 mem 4
    let deadlineMs ← getU64 mem 8
    let lifespanMs ← getU64 mem 16
    let livelinessLeaseMs ← getU64 mem 24
    pure (some
      { reliability := .ofByte reliability
        durability := .ofByte durability
        history := .ofByte history
        liveliness := .ofByte liveliness
        depth, deadlineMs, lifespanMs, livelinessLeaseMs })

def Reader2.qos : Cursor U64 QosProfile := do
  let record ← Reader2.bytes mem base len 32
  fun pos => do
    let decoded ← decodeQos record 32
    pure (decoded.map (fun qos => (qos, pos)))

def Reader2.node : Cursor U64 NodeInfo := do
  let ns ← Reader2.str mem base len
  let name ← Reader2.str mem base len
  pure ⟨ns, name⟩

def Reader2.endpoint : Cursor U64 EndpointRecord := do
  let guid ← Reader2.guid mem base len
  let kind ← Reader2.bytes mem base len 1
  let topic ← Reader2.str mem base len
  let typeName ← Reader2.str mem base len
  let qos ← Reader2.qos mem base len
  let birthUs ← Reader2.u64 mem base len
  pure ⟨guid, .ofByte (byteAt kind 0), topic, typeName, qos, birthUs⟩

def Reader2.announce : Cursor U64 (ParticipantSnapshot × U64) := do
  let participantGuid ← Reader2.guid mem base len
  let announceSeq ← Reader2.u64 mem base len
  let nodeCount ← Reader2.u16 mem base len
  let nodes ← (Reader2.node mem base len).times nodeCount.toNat
  let epCount ← Reader2.u16 mem base len
  let endpoints ← (Reader2.endpoint mem base len).times epCount.toNat
  pure (⟨participantGuid, nodes, endpoints⟩, announceSeq)

end Reader2

def decodeAnnounce (len : U64) : Except Fault (Option (ParticipantSnapshot × U64)) := do
  match ← decodeHeader mem len with
  | none => pure none
  | some hdr =>
    if hdr.type ≠ .announce then pure none
    else
      let read ← Reader2.announce mem body (hdr.bodyLen.setWidth 64) 0
      pure (read.map Prod.fst)

theorem widen_shift (a : Byte) {k : Nat} (small : k ≤ 24) :
    ((a.setWidth 32) <<< k).setWidth 64 = a.setWidth 64 <<< k := by
  refine BitVec.eq_of_getLsbD_eq (fun i low => ?_)
  simp only [BitVec.getLsbD_setWidth, BitVec.getLsbD_shiftLeft]
  by_cases inside : i - k < 8
  · have bound : i < 32 := by omega
    have bound' : i - k < 32 := by omega
    have bound'' : i - k < 64 := by omega
    simp [bound, bound', bound'', low]
  · simp [BitVec.getLsbD_of_ge a (i - k) (by omega)]

/-- Shifting in eight bytes makes the same number as two halves of four. -/
theorem shiftIn_value (a b c d e f g h : Byte) :
    (((((((((0 : U64) <<< 8 ||| a.setWidth 64) <<< 8 ||| b.setWidth 64) <<< 8 ||| c.setWidth 64) <<< 8 |||
      d.setWidth 64) <<< 8 ||| e.setWidth 64) <<< 8 ||| f.setWidth 64) <<< 8 ||| g.setWidth 64) <<< 8 ||| h.setWidth 64) =
    (a.setWidth 32 <<< 24 ||| b.setWidth 32 <<< 16 ||| c.setWidth 32 <<< 8 ||| d.setWidth 32).setWidth 64 <<< 32 |||
      (e.setWidth 32 <<< 24 ||| f.setWidth 32 <<< 16 ||| g.setWidth 32 <<< 8 ||| h.setWidth 32).setWidth 64 := by
  have wide (x : Byte) : (x.setWidth 32).setWidth 64 = x.setWidth 64 := by
    simp
  have empty : (0 : U64) <<< 64 = 0 := rfl
  simp only [BitVec.setWidth_or, widen_shift _ (show 24 ≤ 24 by decide), widen_shift _ (show 16 ≤ 24 by decide),
    widen_shift _ (show 8 ≤ 24 by decide), wide, BitVec.shiftLeft_or_distrib, ← BitVec.shiftLeft_add,
    BitVec.or_assoc, Nat.reduceAdd, empty]
  exact BitVec.zero_or

section Tracking
variable {mem : Bytes} {base : Nat} {len : U64} (within : base + len.toNat ≤ mem.length) (small : len.toNat < 2 ^ 32)
include within

/-- A read agrees with its list version from every position up to the end. -/
def Reads {α : Type} (mem : Bytes) (base : Nat) (len : U64) (cursor : Cursor U64 α) (get : Mdds.Reader2 α) : Prop :=
  Tracks (fun pos : U64 => pos.toNat ≤ len.toNat) (behind mem base len) cursor get

theorem load_behind {pos next : U64} {i : Nat} (inside : pos.toNat + i < len.toNat) (moved : next.toNat = pos.toNat + i) :
    load mem (base + next.toNat) = .ok (byteAt (behind mem base len pos) i) := by
  rw [moved, ← Nat.add_assoc, load_byteAt (by omega), behind, byteAt_take (by omega)]

include small

theorem u16_reads : Reads mem base len (Reader2.u16 mem base len) Mdds.Reader2.u16 := by
  intro pos here
  have size := behind_length within pos
  have two : (pos + 2).toNat = pos.toNat + 2 := by bv_omega
  by_cases short : len.toNat - pos.toNat < 2
  · refine ⟨none, if_pos (by bv_omega), ?_, fun _ absent => by cases absent⟩
    rw [Mdds.Reader2.u16, size, if_pos short, Option.map_none]
  · have high := @load_behind mem base len within pos pos 0 (by omega) rfl
    have low := @load_behind mem base len within pos (pos + 1) 1 (by omega) (by bv_omega)
    refine ⟨some (Mdds.getU16 (behind mem base len pos), pos + 2), ?_, ?_, fun read same => ?_⟩
    · unfold Reader2.u16
      rw [if_neg (by bv_omega), high, low]
      rfl
    · rw [Mdds.Reader2.u16, size, if_neg short, Option.map_some, behind_drop two]
    · obtain rfl := Option.some.inj same
      dsimp only
      omega

theorem u64_reads : Reads mem base len (Reader2.u64 mem base len) Mdds.Reader2.u64 := by
  intro pos here
  have size := behind_length within pos
  have eight : (pos + 8).toNat = pos.toNat + 8 := by bv_omega
  by_cases short : len.toNat - pos.toNat < 8
  · refine ⟨none, if_pos (by bv_omega), ?_, fun _ absent => by cases absent⟩
    rw [Mdds.Reader2.u64, size, if_pos short, Option.map_none]
  · have read (i : Nat) (low : i < 8) (next : U64) (moved : next.toNat = pos.toNat + i) :=
      @load_behind mem base len within pos next i (by omega) moved
    refine ⟨some (Mdds.getU64 (behind mem base len pos), pos + 8), ?_, ?_, fun read same => ?_⟩
    · unfold Reader2.u64
      rw [if_neg (by bv_omega)]
      simp only [Reader2.shiftIn, read 0 (by omega) pos rfl, read 1 (by omega) (pos + 1) (by bv_omega),
        read 2 (by omega) (pos + 1 + 1) (by bv_omega), read 3 (by omega) (pos + 1 + 1 + 1) (by bv_omega),
        read 4 (by omega) (pos + 1 + 1 + 1 + 1) (by bv_omega), read 5 (by omega) (pos + 1 + 1 + 1 + 1 + 1) (by bv_omega),
        read 6 (by omega) (pos + 1 + 1 + 1 + 1 + 1 + 1) (by bv_omega),
        read 7 (by omega) (pos + 1 + 1 + 1 + 1 + 1 + 1 + 1) (by bv_omega), bind, Except.bind, shiftIn_value]
      have ended : pos + 1 + 1 + 1 + 1 + 1 + 1 + 1 + 1 = pos + 8 := by bv_omega
      have second (i : Nat) : byteAt ((behind mem base len pos).drop 4) i = byteAt (behind mem base len pos) (4 + i) := by
        simp only [byteAt, List.getD_eq_getElem?_getD, List.getElem?_drop]
      rw [ended, Mdds.getU64, Mdds.getU32, Mdds.getU32, second, second, second, second]
    · rw [Mdds.Reader2.u64, size, if_neg short, Option.map_some, behind_drop eight]
    · obtain rfl := Option.some.inj same
      dsimp only
      omega

theorem bytes_reads (n : U64) (bounded : n.toNat < 2 ^ 32) :
    Reads mem base len (Reader2.bytes mem base len n) (Mdds.Reader2.bytes n.toNat) := by
  intro pos here
  have size := behind_length within pos
  have moved : (pos + n).toNat = pos.toNat + n.toNat := by bv_omega
  by_cases short : len.toNat - pos.toNat < n.toNat
  · refine ⟨none, if_pos (by bv_omega), ?_, fun _ absent => by cases absent⟩
    rw [Mdds.Reader2.bytes, size, if_pos short, Option.map_none]
  · refine ⟨some ((behind mem base len pos).take n.toNat, pos + n), ?_, ?_, fun read same => ?_⟩
    · unfold Reader2.bytes
      rw [if_neg (by bv_omega), copy_ok (by omega), behind, List.take_take, Nat.min_eq_left (by omega)]
      rfl
    · rw [Mdds.Reader2.bytes, size, if_neg short, Option.map_some, behind_drop moved]
    · obtain rfl := Option.some.inj same
      dsimp only
      omega

theorem guid_reads : Reads mem base len (Reader2.guid mem base len) Mdds.Reader2.guid := by
  have read := (bytes_reads within small 16 (by decide)).bind (fun bytes => Tracks.pure (Mdds.getGuid bytes))
  refine read.congr (fun buf => ?_)
  rw [Mdds.Reader2.guid, Option.map_eq_bind]
  rfl

theorem str_reads : Reads mem base len (Reader2.str mem base len) Mdds.Reader2.str := by
  have read := (u16_reads within small).bind (fun n => bytes_reads within small (n.setWidth 64) (by bv_omega))
  refine read.congr (fun buf => ?_)
  have widened (n : U16) : (n.setWidth 64).toNat = n.toNat := by bv_omega
  simp only [Mdds.Reader2.str, widened, Option.bind_eq_bind]

theorem node_reads : Reads mem base len (Reader2.node mem base len) Mdds.Reader2.node :=
  ((str_reads within small).bind (fun ns => (str_reads within small).bind (fun name =>
    Tracks.pure (⟨ns, name⟩ : NodeInfo)))).congr (fun _ => rfl)

omit within small in
/-- The record was copied whole, so its fields lie in the copy. -/
theorem decodeQos_ok {record : Bytes} (size : record.length = 32) : decodeQos record 32 = .ok (Mdds.decodeQos record) := by
  have reliability : load record 0 = .ok (byteAt record 0) := @load_byteAt record 0 0 (by omega)
  have durability : load record 1 = .ok (byteAt record 1) := @load_byteAt record 0 1 (by omega)
  have history : load record 2 = .ok (byteAt record 2) := @load_byteAt record 0 2 (by omega)
  have liveliness : load record 3 = .ok (byteAt record 3) := @load_byteAt record 0 3 (by omega)
  have depth := @getU32_ok record 4 (by omega)
  have deadline := @getU64_ok record 8 (by omega)
  have lifespan := @getU64_ok record 16 (by omega)
  have lease := @getU64_ok record 24 (by omega)
  have enough : ¬record.length < kQosWireSize := by rw [size, kQosWireSize]; omega
  simp only [decodeQos, Mdds.decodeQos, if_neg enough, reliability, durability, history, liveliness, depth, deadline,
    lifespan, lease, bind, Except.bind, pure, Except.pure]
  rfl

theorem qos_reads : Reads mem base len (Reader2.qos mem base len) (fun buf =>
    (Mdds.Reader2.bytes kQosWireSize buf).bind (fun read => (Mdds.decodeQos read.1).map (fun qos => (qos, read.2)))) := by
  intro pos here
  obtain ⟨result, ended, same, inside⟩ := bytes_reads within small 32 (by decide) pos here
  have same : Mdds.Reader2.bytes kQosWireSize (behind mem base len pos) =
      result.map (fun read => (read.1, behind mem base len read.2)) := same
  unfold Reader2.qos
  rcases result with _ | ⟨record, after⟩
  · refine ⟨none, ?_, ?_, fun _ absent => by cases absent⟩
    · simp only [bind, ended]
    · simp only [same, Option.map_none, Option.bind_none]
  · have size : record.length = 32 := (Mdds.Reader2.bytes_exact 32).writes same |>.1
    obtain ⟨qos, decoded, _⟩ := decodeQos_bytes size
    refine ⟨some (qos, after), ?_, ?_, ?_⟩
    · simp only [bind, ended, decodeQos_ok size, Except.bind, decoded, Option.map_some]
      rfl
    · simp only [same, Option.map_some, Option.bind_some, decoded]
    · intro read found
      obtain rfl := Option.some.inj found
      exact inside _ rfl

theorem endpoint_reads : Reads mem base len (Reader2.endpoint mem base len) Mdds.Reader2.endpoint := by
  have read := (guid_reads within small).bind (fun guid => (bytes_reads within small 1 (by decide)).bind (fun kind =>
    (str_reads within small).bind (fun topic => (str_reads within small).bind (fun typeName =>
      (qos_reads within small).bind (fun qos => (u64_reads within small).bind (fun birthUs =>
        Tracks.pure (⟨guid, .ofByte (byteAt kind 0), topic, typeName, qos, birthUs⟩ : EndpointRecord)))))))
  refine read.congr (fun buf => ?_)
  simp only [Mdds.Reader2.endpoint, Option.bind_eq_bind, Option.pure_def, Option.bind_assoc, Option.bind_map]
  rfl

omit within small in
theorem times_reads {α : Type} {item : Cursor U64 α} {get : Mdds.Reader2 α} (reads : Reads mem base len item get)
    (count : Nat) : Reads mem base len (item.times count) (Mdds.Reader2.many get count) := by
  induction count with
  | zero => exact (Tracks.pure []).congr (fun _ => rfl)
  | succ count ih =>
    exact (reads.bind (fun first => ih.bind (fun rest => Tracks.pure (first :: rest)))).congr (fun _ => rfl)

theorem announce_reads : Reads mem base len (Reader2.announce mem base len) Mdds.Reader2.announce := by
  have read := (guid_reads within small).bind (fun guid => (u64_reads within small).bind (fun announceSeq =>
    (u16_reads within small).bind (fun nodeCount =>
      (times_reads (node_reads within small) nodeCount.toNat).bind (fun nodes =>
        (u16_reads within small).bind (fun epCount =>
          (times_reads (endpoint_reads within small) epCount.toNat).bind (fun endpoints =>
            Tracks.pure ((⟨guid, nodes, endpoints⟩, announceSeq) : ParticipantSnapshot × U64)))))))
  exact read.congr (fun _ => rfl)

end Tracking

theorem decodeAnnounce_ok {mem : Bytes} {len : U64} (whole : mem.length = len.toNat) :
    decodeAnnounce mem len = .ok (Mdds.decodeAnnounce mem) := by
  have header := decodeHeader_ok whole
  rw [decodeAnnounce, header, decodeAnnounce_eq]
  rcases decoded : Mdds.decodeHeader mem with _ | hdr
  · rfl
  · have inside := decodeHeader_within decoded
    by_cases foreign : hdr.type ≠ .announce
    · simp only [bind, Except.bind, pure, Except.pure, Option.bind_some, if_pos foreign]
    · have width : (hdr.bodyLen.setWidth 64).toNat = hdr.bodyLen.toNat := by bv_omega
      obtain ⟨result, ended, same, _⟩ := @announce_reads mem body (hdr.bodyLen.setWidth 64) (by rw [body]; omega) (by omega)
        0 (Nat.zero_le _)
      have declared : behind mem body (hdr.bodyLen.setWidth 64) 0 = (mem.drop kHeaderSize).take hdr.bodyLen.toNat := by
        rw [behind, width]
        rfl
      rw [declared] at same
      simp only [bind, Except.bind, pure, Except.pure, Option.bind_some, if_neg foreign, ended, same, Option.map_map]
      rfl

/-- Given a buffer and its length, no decoder ever reads outside the buffer or
fails to end: each returns what its list version computes. A payload lies in
the declared body, a fragment in its sample. -/
theorem decoders_in_bounds (buf : Bytes) (len : U64) (whole : buf.length = len.toNat) :
    decodeHeader buf len = .ok (Mdds.decodeHeader buf) ∧
    (∃ result, decodeData buf len = .ok result ∧ result.map (DataSlice.read buf) = Mdds.decodeData buf ∧
      ∀ slice ∈ result, slice.Inside buf) ∧
    (∃ result, decodeDataFrag buf len = .ok result ∧ result.map (DataFragSlice.read buf) = Mdds.decodeDataFrag buf ∧
      ∀ slice ∈ result, slice.Inside buf ∧
        slice.fragOffset.toNat + slice.payloadLen.toNat ≤ slice.totalSize.toNat) ∧
    decodeAcknack buf len = .ok (Mdds.decodeAcknack buf) ∧
    decodeHeartbeat buf len = .ok (Mdds.decodeHeartbeat buf) ∧
    decodeGap buf len = .ok (Mdds.decodeGap buf) ∧
    decodeAnnounce buf len = .ok (Mdds.decodeAnnounce buf) :=
  ⟨decodeHeader_ok whole, decodeData_ok whole, decodeDataFrag_ok whole, decodeAcknack_ok whole, decodeHeartbeat_ok whole,
    decodeGap_ok whole, decodeAnnounce_ok whole⟩

/-- A DATA frame that declares a payload of 2^32 - 1 bytes. -/
theorem decoders_in_bounds_oversized :
    let buf := encodeHeader .data 0 36 ++ List.replicate 36 (0xFF : Byte)
    buf.length = (48 : U64).toNat ∧ decodeHeader buf 48 = .ok (some ⟨.data, 0, 36⟩) ∧
      ∃ result, decodeData buf 48 = .ok result := by
  intro buf
  have safe := decoders_in_bounds buf 48 rfl
  obtain ⟨result, ended, _⟩ := safe.2.1
  have header : Mdds.decodeHeader buf = some ⟨.data, 0, 36⟩ := decodeHeader_encode (by decide)
  exact ⟨rfl, header ▸ safe.1, result, ended⟩

end Raw
end Mdds
