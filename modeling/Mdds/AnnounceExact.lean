import Mdds.AnnounceCodec
import Mdds.Lib.PrefixCode

namespace Mdds

theorem Reliability.ofByte_code (r : Reliability) : Reliability.ofByte r.code = r := by
  cases r with
  | other raw => rw [code, ofByte, dif_pos raw.property]
  | _ => rfl

theorem Durability.ofByte_code (d : Durability) : Durability.ofByte d.code = d := by
  cases d with
  | other raw => rw [code, ofByte, dif_pos raw.property]
  | _ => rfl

theorem History.ofByte_code (h : History) : History.ofByte h.code = h := by
  cases h with
  | other raw => rw [code, ofByte, dif_pos raw.property]
  | _ => rfl

theorem Liveliness.ofByte_code (l : Liveliness) : Liveliness.ofByte l.code = l := by
  cases l with
  | other raw => rw [code, ofByte, dif_pos raw.property]
  | _ => rfl

theorem EntityKind.ofByte_code (k : EntityKind) : EntityKind.ofByte k.code = k := by
  cases k with
  | other raw => rw [code, ofByte, dif_pos raw.property]
  | _ => rfl

/-- Below 2 a byte is 0 or 1. -/
theorem byte_below_two {raw : Byte} (inside : ¬2 ≤ raw.toNat) : raw = 0 ∨ raw = 1 := by
  have small : raw.toNat = 0 ∨ raw.toNat = 1 := by omega
  exact small.imp BitVec.eq_of_toNat_eq BitVec.eq_of_toNat_eq

theorem Reliability.code_ofByte (raw : Byte) : (Reliability.ofByte raw).code = raw := by
  unfold ofByte
  split
  · rfl
  · rename_i inside
    rcases byte_below_two inside with rfl | rfl <;> rfl

theorem Durability.code_ofByte (raw : Byte) : (Durability.ofByte raw).code = raw := by
  unfold ofByte
  split
  · rfl
  · rename_i inside
    rcases byte_below_two inside with rfl | rfl <;> rfl

theorem History.code_ofByte (raw : Byte) : (History.ofByte raw).code = raw := by
  unfold ofByte
  split
  · rfl
  · rename_i inside
    rcases byte_below_two inside with rfl | rfl <;> rfl

theorem Liveliness.code_ofByte (raw : Byte) : (Liveliness.ofByte raw).code = raw := by
  unfold ofByte
  split
  · rfl
  · rename_i inside
    rcases byte_below_two inside with rfl | rfl <;> rfl

theorem EntityKind.code_ofByte (raw : Byte) : (EntityKind.ofByte raw).code = raw := by
  unfold ofByte
  split
  · rfl
  · rename_i inside
    have small : raw.toNat = 0 ∨ raw.toNat = 1 ∨ raw.toNat = 2 := by omega
    rcases small with zero | one | two
    · rw [show raw = 0 from BitVec.eq_of_toNat_eq zero]; rfl
    · rw [show raw = 1 from BitVec.eq_of_toNat_eq one]; rfl
    · rw [show raw = 2 from BitVec.eq_of_toNat_eq two]; rfl

theorem putU16_getU16 {buf : Bytes} (enough : 2 ≤ buf.length) : putU16 (getU16 buf) ++ buf.drop 2 = buf := by
  match buf, enough with
  | a :: b :: rest, _ =>
    have high : (getU16 (a :: b :: rest) >>> 8).setWidth 8 = a := by
      ext i low
      simp [getU16, byteAt]
      grind
    have low : (getU16 (a :: b :: rest)).setWidth 8 = b := by
      ext i low
      simp [getU16, byteAt]
    rw [putU16, high, low]
    rfl

theorem putU32_getU32 {buf : Bytes} (enough : 4 ≤ buf.length) : putU32 (getU32 buf) ++ buf.drop 4 = buf := by
  match buf, enough with
  | a :: b :: c :: d :: rest, _ =>
    have first : (getU32 (a :: b :: c :: d :: rest) >>> 24).setWidth 8 = a := by
      ext i low
      simp [getU32, byteAt]
      grind
    have second : (getU32 (a :: b :: c :: d :: rest) >>> 16).setWidth 8 = b := by
      ext i low
      simp [getU32, byteAt]
      grind
    have third : (getU32 (a :: b :: c :: d :: rest) >>> 8).setWidth 8 = c := by
      ext i low
      simp [getU32, byteAt]
      grind
    have fourth : (getU32 (a :: b :: c :: d :: rest)).setWidth 8 = d := by
      ext i low
      simp [getU32, byteAt]
    rw [putU32, first, second, third, fourth]
    rfl

theorem putU64_getU64 {buf : Bytes} (enough : 8 ≤ buf.length) : putU64 (getU64 buf) ++ buf.drop 8 = buf := by
  have high : (getU64 buf >>> 32).setWidth 32 = getU32 buf := by
    ext i low
    simp [getU64]
    grind
  have low : (getU64 buf).setWidth 32 = getU32 (buf.drop 4) := by
    ext i low
    simp [getU64]
  have back := @putU32_getU32 (buf.drop 4) (by rw [List.length_drop]; omega)
  rw [List.drop_drop] at back
  rw [putU64, high, low, List.append_assoc, back, putU32_getU32 (by omega)]

theorem ofNat16_eq {n : Nat} {count : U16} (same : n = count.toNat) : BitVec.ofNat 16 n = count := by
  rw [same, BitVec.ofNat_toNat, BitVec.setWidth_eq]

theorem toNat16_eq {n : Nat} : n = (BitVec.ofNat 16 n).toNat ↔ n < 2 ^ 16 := by
  rw [BitVec.toNat_ofNat]
  exact ⟨fun same => same ▸ Nat.mod_lt _ (by decide), fun short => (Nat.mod_eq_of_lt short).symm⟩

/-- The 32 bytes of a QoS record determine it, whatever bytes they are. -/
theorem decodeQos_bytes {buf : Bytes} (size : buf.length = kQosWireSize) :
    ∃ qos, decodeQos buf = some qos ∧ encodeQos qos = buf := by
  have enough : ¬buf.length < kQosWireSize := by omega
  refine ⟨_, if_neg enough, ?_⟩
  match buf, size with
  | a :: b :: c :: d :: rest, size =>
    have length : rest.length = 28 := by simpa [kQosWireSize] using size
    have depth := @putU32_getU32 rest (by omega)
    have deadline := @putU64_getU64 (rest.drop 4) (by rw [List.length_drop]; omega)
    have lifespan := @putU64_getU64 (rest.drop 12) (by rw [List.length_drop]; omega)
    have lease := @putU64_getU64 (rest.drop 20) (by rw [List.length_drop]; omega)
    rw [List.drop_drop] at deadline lifespan lease
    have ended : rest.drop (20 + 8) = [] := List.drop_eq_nil_of_le (by omega)
    rw [ended, List.append_nil] at lease
    simp only [encodeQos, Reliability.code_ofByte, Durability.code_ofByte, History.code_ofByte, Liveliness.code_ofByte]
    change [a, b, c, d] ++ putU32 (getU32 rest) ++ putU64 (getU64 (rest.drop 4)) ++ putU64 (getU64 (rest.drop 12)) ++
      putU64 (getU64 (rest.drop 20)) = [a, b, c, d] ++ rest
    rw [lease, List.append_assoc, lifespan, List.append_assoc, deadline, List.append_assoc, depth]

theorem decodeQos_encode (qos : QosProfile) : decodeQos (encodeQos qos) = some qos := by
  have depth : getU32 ((encodeQos qos).drop 4) = qos.depth := getU32_putU32 qos.depth _
  have deadline : getU64 ((encodeQos qos).drop 8) = qos.deadlineMs := getU64_putU64 qos.deadlineMs _
  have lifespan : getU64 ((encodeQos qos).drop 16) = qos.lifespanMs := getU64_putU64 qos.lifespanMs _
  have lease : getU64 ((encodeQos qos).drop 24) = qos.livelinessLeaseMs := getU64_putU64 qos.livelinessLeaseMs []
  have enumerators : byteAt (encodeQos qos) 0 = qos.reliability.code ∧ byteAt (encodeQos qos) 1 = qos.durability.code ∧
      byteAt (encodeQos qos) 2 = qos.history.code ∧ byteAt (encodeQos qos) 3 = qos.liveliness.code :=
    ⟨rfl, rfl, rfl, rfl⟩
  obtain ⟨reliability, durability, history, liveliness⟩ := enumerators
  rw [decodeQos, encodeQos_length, if_neg (Nat.lt_irrefl _), depth, deadline, lifespan, lease, reliability, durability,
    history, liveliness, Reliability.ofByte_code, Durability.ofByte_code, History.ofByte_code, Liveliness.ofByte_code]

namespace Reader2

theorem u16_exact : Exact putU16 u16 (fun _ => True) where
  reads := by
    intro value _ rest
    have enough : ¬(putU16 value ++ rest).length < 2 := by
      rw [List.length_append, putU16_length]
      omega
    rw [u16, if_neg enough, getU16_putU16, List.drop_left' (putU16_length value)]
  writes := by
    intro buf value rest read
    unfold u16 at read
    split at read
    · cases read
    · obtain ⟨rfl, rfl⟩ := Prod.mk.inj (Option.some.inj read)
      exact ⟨trivial, putU16_getU16 (by omega)⟩

theorem u64_exact : Exact putU64 u64 (fun _ => True) where
  reads := by
    intro value _ rest
    have enough : ¬(putU64 value ++ rest).length < 8 := by simp
    rw [u64, if_neg enough, getU64_putU64, List.drop_left' (putU64_length value)]
  writes := by
    intro buf value rest read
    unfold u64 at read
    split at read
    · cases read
    · obtain ⟨rfl, rfl⟩ := Prod.mk.inj (Option.some.inj read)
      exact ⟨trivial, putU64_getU64 (by omega)⟩

theorem bytes_exact (n : Nat) : Exact id (bytes n) (fun read => read.length = n) where
  reads := by
    intro value size rest
    have enough : ¬(value ++ rest).length < n := by rw [List.length_append]; omega
    rw [id, bytes, if_neg enough, List.take_left' size, List.drop_left' size]
  writes := by
    intro buf value rest read
    unfold bytes at read
    split at read
    · cases read
    · obtain ⟨rfl, rfl⟩ := Prod.mk.inj (Option.some.inj read)
      exact ⟨List.length_take_of_le (by omega), List.take_append_drop n buf⟩

theorem guid_exact : Exact Guid.bytes guid (fun _ => True) where
  reads := by
    intro value _ rest
    have got : bytes 16 (value.bytes ++ rest) = some (value.bytes, rest) := (bytes_exact 16).reads value.size rest
    have own := getGuid_append value []
    rw [List.append_nil] at own
    rw [guid, got, Option.map_some]
    exact congrArg (fun g => some (g, rest)) own
  writes := by
    intro buf value rest read
    obtain ⟨⟨front, back⟩, got, same⟩ := Option.map_eq_some_iff.mp read
    obtain ⟨size, whole⟩ := (bytes_exact 16).writes got
    obtain ⟨rfl, rfl⟩ := Prod.mk.inj same
    have own := getGuid_append ⟨front, size⟩ []
    rw [List.append_nil] at own
    exact ⟨trivial, by rw [← whole, own, id]⟩

/-- A length read from sixteen bits is the length of what follows. -/
theorem str_exact : Exact putString str (fun s => s.length < 2 ^ 16) := by
  have body := Exact.bind (fun s : Bytes => BitVec.ofNat 16 s.length) u16_exact
    (fun n _ => bytes_exact n.toNat) (fun n s _ size => ofNat16_eq size)
  refine body.of_eq (fun _ => rfl) (fun _ => rfl) (fun s => ?_)
  rw [true_and, toNat16_eq]

theorem node_exact : Exact putNode node (fun n => n.ns.length < 2 ^ 16 ∧ n.name.length < 2 ^ 16) := by
  have body := Exact.bind NodeInfo.ns str_exact
    (fun ns _ => Exact.bind NodeInfo.name str_exact (fun name _ => Exact.pure (⟨ns, name⟩ : NodeInfo))
      (fun _ _ _ same => by rw [same]))
    (fun _ _ _ same => by rw [same.2])
  refine body.of_eq (fun n => ?_) (fun _ => rfl) (fun n => ?_)
  · rw [putNode, List.append_nil]
  · exact ⟨fun both => ⟨both.1, both.2, rfl⟩, fun all => ⟨all.1, all.2.1⟩⟩

theorem endpoint_exact :
    Exact putEndpoint endpoint (fun e => e.topic.length < 2 ^ 16 ∧ e.typeName.length < 2 ^ 16) := by
  have tail (guid : Guid) (kind topic typeName : Bytes) (qosBuf : Bytes) (size : qosBuf.length = kQosWireSize) :
      Exact (fun e : EndpointRecord => putU64 e.birthUs ++ [])
        (fun buf => (decodeQos qosBuf).bind (fun qos => (u64 buf).bind (fun read =>
          some ((⟨guid, .ofByte (byteAt kind 0), topic, typeName, qos, read.1⟩ : EndpointRecord), read.2))))
        (fun e => e.guid = guid ∧ e.kind = .ofByte (byteAt kind 0) ∧ e.topic = topic ∧ e.typeName = typeName ∧
          encodeQos e.qos = qosBuf) := by
    obtain ⟨qos, decoded, encoded⟩ := decodeQos_bytes size
    have last := Exact.bind EndpointRecord.birthUs u64_exact
      (fun birthUs _ => Exact.pure (⟨guid, .ofByte (byteAt kind 0), topic, typeName, qos, birthUs⟩ : EndpointRecord))
      (fun _ _ _ same => by rw [same])
    refine last.of_eq (fun _ => rfl) (fun buf => by rw [decoded, Option.bind_some]) (fun e => ?_)
    constructor
    · rintro ⟨rfl, kindIs, rfl, rfl, qosIs⟩
      have same : e.qos = qos := by
        have reread := decodeQos_encode e.qos
        rw [qosIs, decoded] at reread
        exact (Option.some.inj reread).symm
      exact ⟨trivial, by rw [← kindIs, ← same]⟩
    · rintro ⟨_, same⟩
      rw [same]
      exact ⟨rfl, rfl, rfl, rfl, encoded⟩
  have body := Exact.bind EndpointRecord.guid guid_exact (fun guid _ =>
    Exact.bind (fun e => [e.kind.code]) (bytes_exact 1) (fun kind _ =>
      Exact.bind EndpointRecord.topic str_exact (fun topic _ =>
        Exact.bind EndpointRecord.typeName str_exact (fun typeName _ =>
          Exact.bind (fun e => encodeQos e.qos) (bytes_exact kQosWireSize)
            (fun qosBuf size => tail guid kind topic typeName qosBuf size)
            (fun _ _ _ same => same.2.2.2.2))
          (fun _ _ _ same => same.2.2.2.2.1))
        (fun _ _ _ same => same.2.2.2.2.1))
      (fun kind e size same => by
        obtain ⟨raw, rfl⟩ := List.length_eq_one_iff.mp size
        rw [same.2.2.2.2.1, EntityKind.code_ofByte]
        rfl))
    (fun _ _ _ same => same.2.2.2.2.1)
  refine body.of_eq (fun e => ?_) (fun _ => rfl) (fun e => ?_)
  · simp only [putEndpoint, id, List.append_assoc, List.append_nil]
  · constructor
    · rintro ⟨topic, typeName⟩
      exact ⟨trivial, rfl, topic, typeName, rfl, rfl, e.kind.ofByte_code.symm, rfl, rfl, rfl⟩
    · rintro ⟨_, _, topic, typeName, _⟩
      exact ⟨topic, typeName⟩

/-- A counted loop is exact on the lists of that length. -/
theorem many_exact {α : Type} {put : α → Bytes} {item : Reader2 α} {fits : α → Prop} (exact : Exact put item fits)
    (count : Nat) :
    Exact (fun values => values.flatMap put) (many item count)
      (fun values => values.length = count ∧ ∀ value ∈ values, fits value) := by
  induction count with
  | zero =>
    constructor
    · rintro values ⟨size, _⟩ rest
      rw [List.length_eq_zero_iff.mp size]
      rfl
    · intro buf values rest read
      obtain ⟨rfl, rfl⟩ := Prod.mk.inj (Option.some.inj read)
      exact ⟨⟨rfl, by simp⟩, rfl⟩
  | succ count ih =>
    constructor
    · rintro values ⟨size, fitting⟩ rest
      obtain ⟨value, others, rfl⟩ := List.exists_cons_of_length_eq_add_one size
      have first := exact.reads (fitting value List.mem_cons_self) (others.flatMap put ++ rest)
      have later := ih.reads ⟨Nat.succ.inj size, fun other member => fitting other (List.mem_cons_of_mem _ member)⟩ rest
      rw [List.flatMap_cons, List.append_assoc, many, first, Option.bind_eq_bind, Option.bind_some]
      simp only [later, Option.bind_eq_bind, Option.bind_some, Option.pure_def]
    · intro buf values rest read
      obtain ⟨⟨value, middle⟩, got, more⟩ := Option.bind_eq_some_iff.mp read
      obtain ⟨⟨others, final⟩, gotOthers, same⟩ := Option.bind_eq_some_iff.mp more
      obtain ⟨rfl, rfl⟩ := Prod.mk.inj (Option.some.inj same)
      obtain ⟨fitting, front⟩ := exact.writes got
      obtain ⟨⟨size, fittings⟩, back⟩ := ih.writes gotOthers
      refine ⟨⟨congrArg Nat.succ size, ?_⟩, ?_⟩
      · rintro other member
        rcases List.mem_cons.mp member with rfl | member
        · exact fitting
        · exact fittings other member
      · rw [List.flatMap_cons, List.append_assoc, back, front]

/-- What the announce decoder reads from the body, with what it leaves unread. -/
def announce : Reader2 (ParticipantSnapshot × U64) := fun buf => do
  let (participantGuid, rest) ← guid buf
  let (announceSeq, rest) ← u64 rest
  let (nodeCount, rest) ← u16 rest
  let (nodes, rest) ← many node nodeCount.toNat rest
  let (epCount, rest) ← u16 rest
  let (endpoints, rest) ← many endpoint epCount.toNat rest
  pure ((⟨participantGuid, nodes, endpoints⟩, announceSeq), rest)

end Reader2

/-- The body `encode_announce` builds. -/
def announceBody (snap : ParticipantSnapshot) (announceSeq : U64) : Bytes :=
  snap.participantGuid.bytes ++ putU64 announceSeq ++
    putU16 (BitVec.ofNat 16 snap.nodes.length) ++ snap.nodes.flatMap putNode ++
    putU16 (BitVec.ofNat 16 snap.endpoints.length) ++ snap.endpoints.flatMap putEndpoint

theorem encodeAnnounce_body (snap : ParticipantSnapshot) (announceSeq : U64) :
    encodeAnnounce snap announceSeq = encodeFrame .announce 0 (announceBody snap announceSeq) := rfl

theorem announceBody_length (snap : ParticipantSnapshot) (announceSeq : U64) :
    (announceBody snap announceSeq).length = snap.wireSize := by
  have whole := encodeAnnounce_length snap announceSeq
  rw [encodeAnnounce_body, encodeFrame_length] at whole
  omega

/-- Names and counts that fit the sixteen bits of their length fields. -/
structure ParticipantSnapshot.Short (snap : ParticipantSnapshot) : Prop where
  nodes : snap.nodes.length < 2 ^ 16
  endpoints : snap.endpoints.length < 2 ^ 16
  nodeNames : ∀ n ∈ snap.nodes, n.ns.length < 2 ^ 16 ∧ n.name.length < 2 ^ 16
  endpointNames : ∀ e ∈ snap.endpoints, e.topic.length < 2 ^ 16 ∧ e.typeName.length < 2 ^ 16

theorem Reader2.announce_exact :
    Exact (fun value => announceBody value.1 value.2) announce (fun value => value.1.Short) := by
  have body := Exact.bind (fun value : ParticipantSnapshot × U64 => value.1.participantGuid) guid_exact (fun guid _ =>
    Exact.bind Prod.snd u64_exact (fun announceSeq _ =>
      Exact.bind (fun value => BitVec.ofNat 16 value.1.nodes.length) u16_exact (fun nodeCount _ =>
        Exact.bind (fun value => value.1.nodes) (many_exact node_exact nodeCount.toNat) (fun nodes _ =>
          Exact.bind (fun value => BitVec.ofNat 16 value.1.endpoints.length) u16_exact (fun epCount _ =>
            Exact.bind (fun value => value.1.endpoints) (many_exact endpoint_exact epCount.toNat) (fun endpoints _ =>
              Exact.pure ((⟨guid, nodes, endpoints⟩, announceSeq) : ParticipantSnapshot × U64))
              (fun _ _ _ same => by rw [same]))
            (fun _ _ _ same => ofNat16_eq same.1.1))
          (fun _ _ _ same => by rw [same.2.2]))
        (fun _ _ _ same => ofNat16_eq same.1.1))
      (fun _ _ _ same => by rw [same.2.2.2.2]))
    (fun _ _ _ same => by rw [same.2.2.2.2.2])
  refine body.of_eq (fun value => ?_) (fun _ => rfl) (fun ⟨snap, announceSeq⟩ => ?_)
  · simp only [announceBody, List.append_assoc, List.append_nil]
  · constructor
    · rintro ⟨nodes, endpoints, nodeNames, endpointNames⟩
      exact ⟨trivial, trivial, trivial, ⟨toNat16_eq.mpr nodes, nodeNames⟩, trivial,
        ⟨toNat16_eq.mpr endpoints, endpointNames⟩, rfl⟩
    · rintro ⟨_, _, _, ⟨nodes, nodeNames⟩, _, ⟨endpoints, endpointNames⟩, _⟩
      exact ⟨toNat16_eq.mp nodes, toNat16_eq.mp endpoints, nodeNames, endpointNames⟩

theorem Reader2.announce_reads {snap : ParticipantSnapshot} (short : snap.Short) (announceSeq : U64) (rest : Bytes) :
    announce (announceBody snap announceSeq ++ rest) = some ((snap, announceSeq), rest) :=
  @Exact.reads _ _ _ _ _ announce_exact (snap, announceSeq) short rest

/-- The decoder is the header check and the reader over the declared body. -/
theorem decodeAnnounce_eq (buf : Bytes) :
    decodeAnnounce buf = (decodeHeader buf).bind (fun hdr =>
      if hdr.type ≠ .announce then none
      else (Reader2.announce ((buf.drop kHeaderSize).take hdr.bodyLen.toNat)).map Prod.fst) := by
  unfold decodeAnnounce Reader2.announce
  simp only [Option.bind_eq_bind, Option.pure_def, Option.map_bind, Function.comp_def, Option.map_some]

/-- The declared body of a frame: what stands behind the header, as far as
`body_len` reaches. -/
def declaredBody (buf : Bytes) (hdr : FrameHeader) : Bytes := (buf.drop kHeaderSize).take hdr.bodyLen.toNat

theorem decodeAnnounce_frame {body : Bytes} (short : body.length < 2 ^ 32) :
    decodeAnnounce (encodeFrame .announce 0 body) = (Reader2.announce body).map Prod.fst := by
  have header := decodeHeader_frame .announce 0 body []
  rw [List.append_nil] at header
  have behind : (encodeFrame .announce 0 body).drop kHeaderSize = body := rfl
  rw [decodeAnnounce_eq, header, Option.bind_some, if_neg (by simp), behind, toNat_short short, List.take_length]

theorem decodeAnnounce_encode {snap : ParticipantSnapshot} (announceSeq : U64) (short : snap.Short)
    (fits : snap.wireSize < 2 ^ 32) : decodeAnnounce (encodeAnnounce snap announceSeq) = some (snap, announceSeq) := by
  have read := Reader2.announce_reads short announceSeq []
  rw [List.append_nil] at read
  rw [encodeAnnounce_body, decodeAnnounce_frame (by rw [announceBody_length]; exact fits), read, Option.map_some]

/-- An accepted frame: the reader consumed the body the values are written as. -/
theorem decodeAnnounce_consumed {buf : Bytes} {snap : ParticipantSnapshot} {announceSeq : U64}
    (accepted : decodeAnnounce buf = some (snap, announceSeq)) :
    ∃ hdr rest, decodeHeader buf = some hdr ∧
      Reader2.announce (declaredBody buf hdr) = some ((snap, announceSeq), rest) ∧ snap.Short ∧
      announceBody snap announceSeq ++ rest = declaredBody buf hdr := by
  rw [decodeAnnounce_eq] at accepted
  obtain ⟨hdr, header, decoded⟩ := Option.bind_eq_some_iff.mp accepted
  split at decoded
  · cases decoded
  · obtain ⟨⟨value, rest⟩, read, same⟩ := Option.map_eq_some_iff.mp decoded
    subst same
    obtain ⟨short, whole⟩ := Reader2.announce_exact.writes read
    exact ⟨hdr, rest, header, read, short, whole⟩

/-- The announce codec is exact: what is sent is read, no shortened body is
read as anything, and every accepted body begins with the encoding of the
values read from it. -/
theorem announce_codec_exact :
    (∀ snap announceSeq, ParticipantSnapshot.Short snap → snap.wireSize < 2 ^ 32 →
      decodeAnnounce (encodeAnnounce snap announceSeq) = some (snap, announceSeq) ∧
      ∀ kept < (announceBody snap announceSeq).length,
        decodeAnnounce (encodeFrame .announce 0 ((announceBody snap announceSeq).take kept)) = none) ∧
    (∀ buf snap announceSeq, decodeAnnounce buf = some (snap, announceSeq) →
      ∃ hdr rest, decodeHeader buf = some hdr ∧
        Reader2.announce (declaredBody buf hdr) = some ((snap, announceSeq), rest) ∧
        (encodeAnnounce snap announceSeq).drop kHeaderSize ++ rest = declaredBody buf hdr) := by
  refine ⟨fun snap announceSeq short fits => ⟨decodeAnnounce_encode announceSeq short fits, fun kept proper => ?_⟩,
    fun buf snap announceSeq accepted => ?_⟩
  · have size := announceBody_length snap announceSeq
    have below : ((announceBody snap announceSeq).take kept).length < 2 ^ 32 := by
      rw [List.length_take]
      omega
    have rejected := @Exact.cut _ _ _ _ _ Reader2.announce_exact (snap, announceSeq) short kept proper
    rw [decodeAnnounce_frame below, rejected, Option.map_none]
  · obtain ⟨hdr, rest, header, read, _, whole⟩ := decodeAnnounce_consumed accepted
    exact ⟨hdr, rest, header, read, whole⟩

theorem announce_codec_exact_node :
    let snap : ParticipantSnapshot := ⟨default, [⟨[0x2F], [0x61, 0x62]⟩], [⟨default, .reader, [0x74], [], {}, 5⟩]⟩
    decodeAnnounce (encodeAnnounce snap 3) = some (snap, 3) ∧
      decodeAnnounce (encodeFrame .announce 0 ((announceBody snap 3).take 40)) = none ∧
      ∃ hdr rest, decodeHeader (encodeAnnounce snap 3) = some hdr ∧
        (encodeAnnounce snap 3).drop kHeaderSize ++ rest = declaredBody (encodeAnnounce snap 3) hdr := by
  intro snap
  have short : snap.Short := ⟨by decide, by decide, by decide, by decide⟩
  have sent := announce_codec_exact.1 snap 3 short (by decide)
  obtain ⟨hdr, rest, header, _, whole⟩ := announce_codec_exact.2 _ _ _ sent.1
  exact ⟨sent.1, sent.2 40 (by decide), hdr, rest, header, whole⟩

end Mdds
