import Mdds.Lib.Tlv
import Mdds.RawDecoders

namespace Mdds

/-- The `switch` of `parse_trailer` on one whole entry. -/
def DataTrailer.switchEntry (out : DataTrailer) (e : Tlv.Entry) : DataTrailer := Raw.entry e.type e.size e.value out

/-- The entries `parse_trailer` knows, by type and size. -/
def Known (e : Tlv.Entry) : Prop := e.Is kTlvOriginGuid 16 ∨ e.Is kTlvOriginSeq 8

/-- The last origin GUID and the last origin seq among the entries. -/
def DataTrailer.ofEntries (entries : List Tlv.Entry) : DataTrailer where
  hasOrigin := (Tlv.last kTlvOriginGuid 16 entries).isSome
  originGuid := ((Tlv.last kTlvOriginGuid 16 entries).map getGuid).getD default
  originSeq := ((Tlv.last kTlvOriginSeq 8 entries).map getU64).getD 0

theorem size_eq_iff {e : Tlv.Entry} {size : Byte} : e.size = size ↔ e.value.length = size.toNat := by
  rw [BitVec.toNat_eq, e.toNat_size]

theorem switchEntry_eq (out : DataTrailer) (e : Tlv.Entry) :
    out.switchEntry e =
      if e.Is kTlvOriginGuid 16 then { out with originGuid := getGuid e.value, hasOrigin := true }
      else if e.Is kTlvOriginSeq 8 then { out with originSeq := getU64 e.value }
      else out := by
  have differ : kTlvOriginSeq ≠ kTlvOriginGuid := by decide
  simp only [DataTrailer.switchEntry, Raw.entry, Tlv.Entry.Is, size_eq_iff, BitVec.reduceToNat]
  by_cases guid : e.type = kTlvOriginGuid
  · simp only [guid, true_and, if_true, differ.symm, false_and, if_false]
  · by_cases seq : e.type = kTlvOriginSeq
    · simp only [seq, differ, true_and, false_and, if_true, if_false]
    · simp only [guid, seq, false_and, if_false]

theorem switchEntry_unknown {e : Tlv.Entry} (unknown : ¬ Known e) (out : DataTrailer) : out.switchEntry e = out := by
  obtain ⟨noGuid, noSeq⟩ := not_or.mp unknown
  rw [switchEntry_eq, if_neg noGuid, if_neg noSeq]

/-- What stands behind the value of an entry does not matter to the switch. -/
theorem entry_append (e : Tlv.Entry) (behind : Bytes) (out : DataTrailer) :
    Raw.entry e.type e.size (e.value ++ behind) out = out.switchEntry e := by
  have front {n : Nat} (size : e.value.length = n) : (e.value ++ behind).take n = e.value := List.take_left' size
  unfold DataTrailer.switchEntry Raw.entry
  split
  · split
    · rename_i sixteen
      have size : e.value.length = 16 := size_eq_iff.mp sixteen
      rw [← Raw.getGuid_take (Nat.le_refl 16), front size]
    · rfl
  · split
    · split
      · rename_i eight
        have size : e.value.length = 8 := size_eq_iff.mp eight
        rw [← Raw.getU64_take (Nat.le_refl 8), front size]
      · rfl
    · rfl

theorem parseTrailer_scans : Tlv.Scans parseTrailer DataTrailer.switchEntry where
  entry e behind out := by
    have whole : ¬ (e.value ++ behind).length < e.size.toNat := by
      rw [List.length_append, e.toNat_size]
      omega
    rw [Tlv.Entry.bytes, List.cons_append, List.cons_append, Raw.parseTrailer_cons, if_neg whole, entry_append,
      e.toNat_size, List.drop_left]
  stop
    | [], out, _ => Raw.parseTrailer_short out (by decide)
    | [only], out, _ => Raw.parseTrailer_short out (Nat.lt_succ_self 1)
    | type :: size :: rest, out, cut => (Raw.parseTrailer_cons type size rest out).trans (if_pos cut)

/-- Each of the two values is the one written last. -/
theorem foldl_switchEntry (entries : List Tlv.Entry) :
    entries.foldl DataTrailer.switchEntry {} = .ofEntries entries := by
  induction entries using List.reverseRecOn with
  | nil => rfl
  | append_singleton entries e ih =>
    rw [List.foldl_append, ih, List.foldl_cons, List.foldl_nil, switchEntry_eq]
    simp only [DataTrailer.ofEntries, Tlv.last_concat]
    by_cases guid : e.Is kTlvOriginGuid 16
    · have noSeq : ¬ e.Is kTlvOriginSeq 8 := fun seq => absurd (guid.1.symm.trans seq.1) (by decide)
      simp only [guid, noSeq, if_true, if_false, Option.isSome_some, Option.map_some, Option.getD_some]
    · by_cases seq : e.Is kTlvOriginSeq 8
      · simp only [guid, seq, if_true, if_false, Option.map_some, Option.getD_some]
      · simp only [guid, seq, if_false]

theorem parseTrailer_entries (entries : List Tlv.Entry) {rest : Bytes} (cut : Tlv.Truncated rest) :
    parseTrailer (Tlv.encode entries ++ rest) {} = (rest.isEmpty, .ofEntries entries) := by
  rw [parseTrailer_scans.truncated entries cut, foldl_switchEntry]

/-- Every region is read so, for it is whole entries and a truncated rest. -/
theorem exists_entries (region : Bytes) : ∃ entries rest, Tlv.Truncated rest ∧ region = Tlv.encode entries ++ rest ∧
    parseTrailer region {} = (rest.isEmpty, .ofEntries entries) := by
  obtain ⟨entries, rest, cut, rfl⟩ := Tlv.exists_encode region
  exact ⟨entries, rest, cut, rfl, parseTrailer_entries entries cut⟩

/-- The loop with its 64-bit positions ends on them as well. -/
theorem raw_parseTrailer_entries (before after : Bytes) (entries : List Tlv.Entry) {rest : Bytes}
    (cut : Tlv.Truncated rest) (small : (Tlv.encode entries ++ rest).length < 2 ^ 63) {fuel : Nat}
    (enough : (Tlv.encode entries ++ rest).length < fuel) :
    Raw.parseTrailer (before ++ (Tlv.encode entries ++ rest) ++ after) before.length
      (BitVec.ofNat 64 (Tlv.encode entries ++ rest).length) fuel 0 {} = .ok (rest.isEmpty, .ofEntries entries) := by
  obtain ⟨region, regionIs⟩ : ∃ region, region = Tlv.encode entries ++ rest := ⟨_, rfl⟩
  rw [← parseTrailer_entries entries cut, ← regionIs]
  rw [← regionIs] at small enough
  obtain ⟨len, lenIs⟩ : ∃ len, len = BitVec.ofNat 64 region.length := ⟨_, rfl⟩
  have length : len.toNat = region.length := by rw [lenIs, BitVec.toNat_ofNat, Nat.mod_eq_of_lt (by omega)]
  have within : before.length + len.toNat ≤ (before ++ region ++ after).length := by
    rw [length, List.length_append, List.length_append]
    omega
  have start : Raw.behind (before ++ region ++ after) before.length len 0 = region := by
    change ((before ++ region ++ after).drop before.length).take len.toNat = region
    rw [length, List.append_assoc, List.drop_left, List.take_left]
  have ends := @Raw.parseTrailer_ok _ _ _ within (by omega) fuel 0 {} (Nat.zero_le _)
    (Nat.lt_of_le_of_lt (Nat.sub_le _ _) (by omega))
  rwa [start, lenIs] at ends

/-- Everything a decoded body holds but the trailer. -/
def DataBody.fields (body : DataBody) : DataBody := { body with trailer := {} }

def DataFragBody.fields (body : DataFragBody) : DataFragBody := { body with trailer := {} }

/-- Where the payload of a sample frame ends, by the length that stands at
`lenAt` in its fixed part. -/
def payloadEnd (fixedSize lenAt : Nat) (buf : Bytes) : Nat :=
  kHeaderSize + fixedSize + (getU32 (buf.drop (kHeaderSize + lenAt))).toNat

section Agreeing
variable {buf other : Bytes} {n : Nat} (agree : other.take n = buf.take n)
include agree

theorem take_of_agree {m k : Nat} (inside : m + k ≤ n) : (other.drop m).take k = (buf.drop m).take k := by
  have shorter (l : Bytes) : ((l.take n).drop m).take k = (l.drop m).take k := by
    rw [List.drop_take, List.take_take, Nat.min_eq_left (by omega)]
  rw [← shorter other, agree, shorter]

theorem byteAt_of_agree {i : Nat} (inside : i < n) : byteAt other i = byteAt buf i := by
  rw [← Raw.byteAt_take inside, agree, Raw.byteAt_take inside]

theorem getU16_of_agree {m : Nat} (inside : m + 2 ≤ n) : getU16 (other.drop m) = getU16 (buf.drop m) := by
  have same := take_of_agree agree inside
  rw [getU16, ← Raw.byteAt_take (by decide : 0 < 2), ← @Raw.byteAt_take _ 2 1 (by decide), same,
    Raw.byteAt_take (by decide), Raw.byteAt_take (by decide), getU16]

theorem getU32_of_agree {m : Nat} (inside : m + 4 ≤ n) : getU32 (other.drop m) = getU32 (buf.drop m) := by
  rw [← Raw.getU32_take (Nat.le_refl 4), take_of_agree agree inside, Raw.getU32_take (Nat.le_refl 4)]

theorem getU64_of_agree {m : Nat} (inside : m + 8 ≤ n) : getU64 (other.drop m) = getU64 (buf.drop m) := by
  rw [← Raw.getU64_take (Nat.le_refl 8), take_of_agree agree inside, Raw.getU64_take (Nat.le_refl 8)]

theorem getGuid_of_agree {m : Nat} (inside : m + 16 ≤ n) : getGuid (other.drop m) = getGuid (buf.drop m) := by
  rw [← Raw.getGuid_take (Nat.le_refl 16), take_of_agree agree inside, Raw.getGuid_take (Nat.le_refl 16)]

theorem decodeHeader_of_agree (length : other.length = buf.length) (inside : kHeaderSize ≤ n) :
    decodeHeader other = decodeHeader buf := by
  unfold kHeaderSize at inside
  unfold decodeHeader
  rw [length, byteAt_of_agree agree (by omega), byteAt_of_agree agree (by omega), byteAt_of_agree agree (by omega),
    byteAt_of_agree agree (by omega), byteAt_of_agree agree (by omega), byteAt_of_agree agree (by omega),
    getU16_of_agree agree (by omega), getU32_of_agree agree (by omega)]

theorem getU32_body {k : Nat} (inside : kHeaderSize + k + 4 ≤ n) :
    getU32 ((other.drop kHeaderSize).drop k) = getU32 ((buf.drop kHeaderSize).drop k) := by
  rw [List.drop_drop, List.drop_drop, getU32_of_agree agree inside]

theorem getU64_body {k : Nat} (inside : kHeaderSize + k + 8 ≤ n) :
    getU64 ((other.drop kHeaderSize).drop k) = getU64 ((buf.drop kHeaderSize).drop k) := by
  rw [List.drop_drop, List.drop_drop, getU64_of_agree agree inside]

end Agreeing

/-- Buffers that agree up to the end of the payload decode alike, but for the
trailer. -/
theorem decodeData_agree {buf other : Bytes} (length : other.length = buf.length)
    (agree : other.take (payloadEnd kDataBodyFixedSize 32 buf) = buf.take (payloadEnd kDataBodyFixedSize 32 buf)) :
    (decodeData other).map DataBody.fields = (decodeData buf).map DataBody.fields := by
  have fixed : 48 ≤ payloadEnd kDataBodyFixedSize 32 buf := Nat.le_add_right _ _
  have within {m : Nat} (inside : m ≤ 48) : m ≤ payloadEnd kDataBodyFixedSize 32 buf :=
    Nat.le_trans inside fixed
  have payloadLen := getU32_body agree (within (by decide : kHeaderSize + 32 + 4 ≤ 48))
  have payload : ((other.drop kHeaderSize).drop kDataBodyFixedSize).take (getU32 ((buf.drop kHeaderSize).drop 32)).toNat =
      ((buf.drop kHeaderSize).drop kDataBodyFixedSize).take (getU32 ((buf.drop kHeaderSize).drop 32)).toNat := by
    simp only [List.drop_drop]
    exact take_of_agree agree (Nat.le_refl _)
  have writer := getGuid_of_agree agree (within (by decide : kHeaderSize + 16 ≤ 48))
  have seq := getU64_body agree (within (by decide : kHeaderSize + 16 + 8 ≤ 48))
  have pubTime := getU64_body agree (within (by decide : kHeaderSize + 24 + 8 ≤ 48))
  unfold decodeData openFrame
  rw [decodeHeader_of_agree agree length (within (by decide))]
  cases decodeHeader buf with
  | none => rfl
  | some hdr =>
    simp only [Option.bind_eq_bind, Option.bind_some]
    split
    · rfl
    · simp only [Option.bind_some, payloadLen]
      split
      · rfl
      · simp only [Option.map_some, DataBody.fields, payload, writer, seq, pubTime]

theorem decodeDataFrag_agree {buf other : Bytes} (length : other.length = buf.length)
    (agree : other.take (payloadEnd kDataFragBodyFixedSize 40 buf) =
      buf.take (payloadEnd kDataFragBodyFixedSize 40 buf)) :
    (decodeDataFrag other).map DataFragBody.fields = (decodeDataFrag buf).map DataFragBody.fields := by
  have fixed : 56 ≤ payloadEnd kDataFragBodyFixedSize 40 buf := Nat.le_add_right _ _
  have within {m : Nat} (inside : m ≤ 56) : m ≤ payloadEnd kDataFragBodyFixedSize 40 buf :=
    Nat.le_trans inside fixed
  have payloadLen := getU32_body agree (within (by decide : kHeaderSize + 40 + 4 ≤ 56))
  have payload :
      ((other.drop kHeaderSize).drop kDataFragBodyFixedSize).take (getU32 ((buf.drop kHeaderSize).drop 40)).toNat =
        ((buf.drop kHeaderSize).drop kDataFragBodyFixedSize).take (getU32 ((buf.drop kHeaderSize).drop 40)).toNat := by
    simp only [List.drop_drop]
    exact take_of_agree agree (Nat.le_refl _)
  have writer := getGuid_of_agree agree (within (by decide : kHeaderSize + 16 ≤ 56))
  have seq := getU64_body agree (within (by decide : kHeaderSize + 16 + 8 ≤ 56))
  have pubTime := getU64_body agree (within (by decide : kHeaderSize + 24 + 8 ≤ 56))
  have totalSize := getU32_body agree (within (by decide : kHeaderSize + 32 + 4 ≤ 56))
  have fragOffset := getU32_body agree (within (by decide : kHeaderSize + 36 + 4 ≤ 56))
  unfold decodeDataFrag openFrame
  rw [decodeHeader_of_agree agree length (within (by decide))]
  cases decodeHeader buf with
  | none => rfl
  | some hdr =>
    simp only [Option.bind_eq_bind, Option.bind_some]
    split
    · rfl
    · simp only [Option.bind_some, payloadLen, totalSize, fragOffset]
      split
      · rfl
      · split
        · rfl
        · simp only [Option.map_some, DataFragBody.fields, payload, writer, seq, pubTime]

/-- Whatever stands in a trailer, the last origin GUID and the last origin seq
of its whole entries are found, unknown entries are passed over wherever they
stand, and the sample is read as if there were no trailer. -/
theorem trailer_tolerant :
    (∀ entries rest, Tlv.Truncated rest →
      parseTrailer (Tlv.encode entries ++ rest) {} = (rest.isEmpty, .ofEntries entries) ∧
      ((DataTrailer.ofEntries entries).hasOrigin = true ↔ ∃ e ∈ entries, e.Is kTlvOriginGuid 16)) ∧
    (∀ (before after : Bytes) entries rest fuel, Tlv.Truncated rest →
      (Tlv.encode entries ++ rest).length < 2 ^ 63 → (Tlv.encode entries ++ rest).length < fuel →
      Raw.parseTrailer (before ++ (Tlv.encode entries ++ rest) ++ after) before.length
        (BitVec.ofNat 64 (Tlv.encode entries ++ rest).length) fuel 0 {} = .ok (rest.isEmpty, .ofEntries entries)) ∧
    (∀ first inserted others behind, (∀ e ∈ inserted, ¬ Known e) →
      parseTrailer (Tlv.encode (first ++ inserted ++ others) ++ behind) {} =
        parseTrailer (Tlv.encode (first ++ others) ++ behind) {}) ∧
    (∀ writer seq pubTimeMs payload flags region suffix,
      kDataBodyFixedSize + payload.length + region.length < 2 ^ 32 →
      decodeData (dataFrame writer seq pubTimeMs payload flags region ++ suffix) =
        some ⟨writer, seq, pubTimeMs, payload, (parseTrailer region {}).2⟩) ∧
    (∀ writer seq pubTimeMs totalSize fragOffset payload flags region suffix,
      kDataFragBodyFixedSize + payload.length + region.length < 2 ^ 32 →
      decodeDataFrag (dataFragFrame writer seq pubTimeMs totalSize fragOffset payload flags region ++ suffix) =
        if totalSize.toNat < fragOffset.toNat + payload.length then none
        else some ⟨writer, seq, pubTimeMs, totalSize, fragOffset, payload, (parseTrailer region {}).2⟩) ∧
    ∀ buf other : Bytes, other.length = buf.length →
      (other.take (payloadEnd kDataBodyFixedSize 32 buf) = buf.take (payloadEnd kDataBodyFixedSize 32 buf) →
        (decodeData other).map DataBody.fields = (decodeData buf).map DataBody.fields) ∧
      (other.take (payloadEnd kDataFragBodyFixedSize 40 buf) = buf.take (payloadEnd kDataFragBodyFixedSize 40 buf) →
        (decodeDataFrag other).map DataFragBody.fields = (decodeDataFrag buf).map DataFragBody.fields) := by
  refine ⟨fun entries rest cut => ⟨parseTrailer_entries entries cut, Tlv.last_isSome⟩,
    fun before after entries rest fuel cut small enough => raw_parseTrailer_entries before after entries cut small enough,
    fun first inserted others behind unknown => ?_,
    fun writer seq pubTimeMs payload flags region suffix => decodeData_region writer seq pubTimeMs flags suffix,
    fun writer seq pubTimeMs totalSize fragOffset payload flags region suffix =>
      decodeDataFrag_region writer seq pubTimeMs flags suffix,
    fun buf other length => ⟨decodeData_agree length, decodeDataFrag_agree length⟩⟩
  exact parseTrailer_scans.skips (fun e member => switchEntry_unknown (unknown e member)) first others behind {}

end Mdds
