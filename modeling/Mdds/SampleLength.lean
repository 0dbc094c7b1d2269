import Mdds.Delivery

/- The length of a sample on its way from `send_sample_to` to the frames. It is
a `size_t` at first and a `uint32_t` from there on; every sum that is stored
in 32 bits goes through one conversion, which is a parameter here. -/

namespace Mdds

/-- A conversion to `uint32_t`. -/
def Narrowing := Nat → Option U32

/-- The conversion of the language. -/
def Narrowing.wrapping : Narrowing := fun n => some (BitVec.ofNat 32 n)

/-- A conversion that refuses what it would change. -/
def Narrowing.checked : Narrowing := fun n => if n < 2 ^ 32 then some (BitVec.ofNat 32 n) else none

section Code
variable (narrow : Narrowing)

/-- The buffer of an encoder has room for `body_len` bytes of body. There is
no frame where the copies would run past its end. -/
def encodeFrameWith (type : FrameType) (flags : U16) (body : Bytes) : Option Bytes :=
  (narrow body.length).bind (fun bodyLen =>
    if bodyLen.toNat < body.length then none else some (encodeHeader type flags bodyLen ++ body))

/-- `encode_data` without a trailer. -/
def encodeDataWith (writer : Guid) (seq pubTimeMs : U64) (payload : Bytes) (payloadLen : U32) (flags : U16) :
    Option Bytes :=
  encodeFrameWith narrow .data flags (writer.bytes ++ (putU64 seq ++ (putU64 pubTimeMs ++
    (putU32 payloadLen ++ payload.take payloadLen.toNat))))

/-- `encode_data_frag` without a trailer. -/
def encodeDataFragWith (writer : Guid) (seq pubTimeMs : U64) (totalSize fragOffset : U32) (payload : Bytes)
    (payloadLen : U32) (flags : U16) : Option Bytes :=
  encodeFrameWith narrow .dataFrag flags (writer.bytes ++ (putU64 seq ++ (putU64 pubTimeMs ++ (putU32 totalSize ++
    (putU32 fragOffset ++ (putU32 payloadLen ++ payload.take payloadLen.toNat))))))

namespace Fragmenter

/-- The loop of `Fragmenter::fragment`, on 32 bits. There is no result where
the fuel does not last. -/
def loopWith (writer : Guid) (seq pubTimeMs : U64) (payload : Bytes) (payloadLen : U32) (flags : U16) (capacity : U32) :
    Nat → U32 → Option (List Bytes)
  | 0, _ => none
  | fuel + 1, offset =>
    if offset < payloadLen then
      let chunk := if payloadLen - offset < capacity then payloadLen - offset else capacity
      (encodeDataFragWith narrow writer seq pubTimeMs payloadLen offset (payload.drop offset.toNat) chunk flags).bind
        (fun frame => (narrow (offset.toNat + chunk.toNat)).bind (fun next =>
          (loopWith writer seq pubTimeMs payload payloadLen flags capacity fuel next).map (frame :: ·)))
    else some []

/-- `Fragmenter::fragment`. -/
def fragmentWith (writer : Guid) (seq pubTimeMs : U64) (payload : Bytes) (payloadLen : U32) (maxPayload : Nat)
    (flags : U16) : Option (List Bytes) :=
  if kHeaderSize + kDataBodyFixedSize + payloadLen.toNat ≤ maxPayload then
    (encodeDataWith narrow writer seq pubTimeMs payload payloadLen flags).map ([·])
  else if maxPayload ≤ kHeaderSize + kDataFragBodyFixedSize then some []
  else
    (narrow (maxPayload - kHeaderSize - kDataFragBodyFixedSize)).bind (fun capacity =>
      loopWith narrow writer seq pubTimeMs payload payloadLen flags capacity (payloadLen.toNat + 1) 0)

end Fragmenter

/-- `send_sample_to`: the frames it makes. -/
def sendSampleWith (maxPayload : Nat) (writer : Guid) (sample : CachedSample) (flags : U16) : Option (List Bytes) :=
  if maxPayload = 0 then some []
  else
    (narrow sample.data.length).bind (fun len =>
      Fragmenter.fragmentWith narrow writer sample.seq sample.pubTimeMs sample.data len maxPayload flags)

end Code

/-- What `send_sample_to` returns, with what `send_frame` returns for a frame. -/
def sendResult (sendFrame : Bytes → Bool) (frames : List Bytes) : Bool :=
  frames.foldl (fun ok frame => sendFrame frame && ok) true && !frames.isEmpty

/-- The payloads that a receiver gets out of frames, each with a clock reading. -/
def reassembled (r : Reassembler) : List (Bytes × Nat) → List Bytes
  | [] => []
  | (frame, now) :: rest =>
    match decodeData frame with
    | some body => body.payload :: reassembled r rest
    | none =>
      match decodeDataFrag frame with
      | none => reassembled r rest
      | some frag => (r.addBody frag now).2.toList ++ reassembled (r.addBody frag now).1 rest

/-- Whoever receives the frames, having none of this sample yet, gets exactly
these bytes. -/
def Carry (writer : Guid) (seq : U64) (data : Bytes) (frames : List Bytes) : Prop :=
  ∀ (r : Reassembler) (arrivals : List (Bytes × Nat)), arrivals.map Prod.fst = frames →
    r.partials.lookup ⟨writer, seq⟩ = none → reassembled r arrivals = [data]

section Exact
variable {narrow : Narrowing}

/-- The conversion keeps what fits. -/
def Narrowing.Exact (narrow : Narrowing) : Prop := ∀ n < 2 ^ 32, narrow n = some (BitVec.ofNat 32 n)

theorem Narrowing.wrapping_exact : wrapping.Exact := fun _ _ => rfl

theorem Narrowing.checked_exact : checked.Exact := fun _ small => if_pos small

theorem encodeFrameWith_eq (keeps : narrow.Exact) (type : FrameType) (flags : U16) {body : Bytes}
    (short : body.length < 2 ^ 32) : encodeFrameWith narrow type flags body = some (encodeFrame type flags body) := by
  rw [encodeFrameWith, keeps _ short, Option.bind_some, toNat_short short, if_neg (Nat.lt_irrefl _)]
  rfl

theorem encodeDataWith_eq (keeps : narrow.Exact) (writer : Guid) (seq pubTimeMs : U64) {payload : Bytes}
    {payloadLen : U32} (flags : U16) (enough : payloadLen.toNat ≤ payload.length)
    (short : kDataBodyFixedSize + payloadLen.toNat < 2 ^ 32) :
    encodeDataWith narrow writer seq pubTimeMs payload payloadLen flags =
      some (encodeData writer seq pubTimeMs (payload.take payloadLen.toNat) flags none) := by
  have size : (payload.take payloadLen.toNat).length = payloadLen.toNat := List.length_take_of_le enough
  rw [encodeDataWith, encodeFrameWith_eq keeps]
  · rw [encodeData, size, BitVec.ofNat_toNat, BitVec.setWidth_eq, Option.map_none, Option.getD_none, List.append_nil]
  · simp only [List.length_append, writer.size, putU64_length, putU32_length, size]
    simp only [kDataBodyFixedSize] at short
    omega

theorem encodeDataFragWith_eq (keeps : narrow.Exact) (writer : Guid) (seq pubTimeMs : U64) (totalSize fragOffset : U32)
    {payload : Bytes} {payloadLen : U32} (flags : U16) (enough : payloadLen.toNat ≤ payload.length)
    (short : kDataFragBodyFixedSize + payloadLen.toNat < 2 ^ 32) :
    encodeDataFragWith narrow writer seq pubTimeMs totalSize fragOffset payload payloadLen flags =
      some (encodeDataFrag writer seq pubTimeMs totalSize fragOffset (payload.take payloadLen.toNat) flags none) := by
  have size : (payload.take payloadLen.toNat).length = payloadLen.toNat := List.length_take_of_le enough
  rw [encodeDataFragWith, encodeFrameWith_eq keeps]
  · rw [encodeDataFrag, size, BitVec.ofNat_toNat, BitVec.setWidth_eq, Option.map_none, Option.getD_none, List.append_nil]
  · simp only [List.length_append, writer.size, putU64_length, putU32_length, size]
    simp only [kDataFragBodyFixedSize] at short
    omega

namespace Fragmenter
variable {payload : Bytes} {payloadLen capacity : U32}

/-- No offset of the loop leaves the 32 bits, and no body length does. -/
theorem loopWith_eq (keeps : narrow.Exact) (writer : Guid) (seq pubTimeMs : U64) (flags : U16)
    (enough : payloadLen.toNat ≤ payload.length) (positive : 0 < capacity.toNat)
    (room : kDataFragBodyFixedSize + capacity.toNat < 2 ^ 32) (fuel : Nat) (offset : U32)
    (lasts : payloadLen.toNat ≤ offset.toNat + fuel) :
    loopWith narrow writer seq pubTimeMs payload payloadLen flags capacity (fuel + 1) offset =
      some (loop writer seq pubTimeMs (payload.take payloadLen.toNat) flags capacity.toNat fuel offset.toNat) := by
  have size : (payload.take payloadLen.toNat).length = payloadLen.toNat := List.length_take_of_le enough
  induction fuel generalizing offset with
  | zero =>
    rw [loopWith, if_neg (by rw [BitVec.lt_def]; omega)]
    rfl
  | succ fuel ih =>
    rw [loopWith, loop, size]
    by_cases more : offset < payloadLen
    · have below : offset.toNat < payloadLen.toNat := BitVec.lt_def.mp more
      have left : (payloadLen - offset).toNat = payloadLen.toNat - offset.toNat :=
        BitVec.toNat_sub_of_le (BitVec.le_def.mpr below.le)
      obtain ⟨chunk, chunkIs⟩ : ∃ chunk, chunk = if payloadLen - offset < capacity then payloadLen - offset else capacity :=
        ⟨_, rfl⟩
      have width : chunk.toNat = min capacity.toNat (payloadLen.toNat - offset.toNat) := by
        rw [chunkIs]
        split
        · rename_i last
          rw [BitVec.lt_def, left] at last
          omega
        · rename_i full
          rw [BitVec.lt_def, left] at full
          omega
      have wide := payloadLen.isLt
      have next : (BitVec.ofNat 32 (offset.toNat + chunk.toNat)).toNat = offset.toNat + chunk.toNat :=
        toNat_short (by omega)
      have piece : (payload.drop offset.toNat).take chunk.toNat =
          ((payload.take payloadLen.toNat).drop offset.toNat).take chunk.toNat := by
        rw [List.drop_take, List.take_take, Nat.min_eq_left (by omega)]
      have rest := ih (BitVec.ofNat 32 (offset.toNat + chunk.toNat)) (by omega)
      rw [next] at rest
      rw [if_pos more, if_pos below, ← width]
      dsimp only
      rw [← chunkIs, encodeDataFragWith_eq keeps writer seq pubTimeMs payloadLen offset flags
        (by rw [List.length_drop]; omega) (by omega), Option.bind_some, keeps _ (by omega), Option.bind_some, rest, piece,
        BitVec.ofNat_toNat, BitVec.ofNat_toNat, BitVec.setWidth_eq, BitVec.setWidth_eq]
      rfl
    · have beyond : ¬ offset.toNat < payloadLen.toNat := fun below => more (BitVec.lt_def.mpr below)
      rw [if_neg more, if_neg beyond]

/-- Behind its 32-bit argument `fragment` changes no length. -/
theorem fragmentWith_eq (keeps : narrow.Exact) (writer : Guid) (seq pubTimeMs : U64) (flags : U16) {maxPayload : Nat}
    (enough : payloadLen.toNat ≤ payload.length) (limit : maxPayload < 2 ^ 32) :
    fragmentWith narrow writer seq pubTimeMs payload payloadLen maxPayload flags =
      some (fragment writer seq pubTimeMs (payload.take payloadLen.toNat) maxPayload flags) := by
  have size : (payload.take payloadLen.toNat).length = payloadLen.toNat := List.length_take_of_le enough
  unfold fragmentWith fragment
  rw [size]
  split
  · rename_i fits
    rw [encodeDataWith_eq keeps writer seq pubTimeMs flags enough (by omega)]
    rfl
  · split
    · rfl
    · rename_i above
      have short : maxPayload - kHeaderSize - kDataFragBodyFixedSize < 2 ^ 32 := by omega
      have capacity := toNat_short short
      rw [keeps _ short, Option.bind_some, Nat.mod_eq_of_lt short,
        loopWith_eq keeps writer seq pubTimeMs flags enough (by omega) (by omega) payloadLen.toNat 0 (by omega), capacity]
      rfl

end Fragmenter

end Exact

section Call
variable {maxPayload : Nat} {writer : Guid} {sample : CachedSample} {flags : U16}

/-- The call always comes back, with the frames of what 32 bits of the length say. -/
theorem sendSampleWith_wrapping (limit : maxPayload < 2 ^ 32) :
    sendSampleWith .wrapping maxPayload writer sample flags = some (sendSampleTo maxPayload writer sample flags) := by
  unfold sendSampleWith sendSampleTo
  split
  · rfl
  · have length : (BitVec.ofNat 32 sample.data.length).toNat = sample.data.length % 2 ^ 32 := BitVec.toNat_ofNat ..
    rw [Narrowing.wrapping, Option.bind_some, ← length]
    exact Fragmenter.fragmentWith_eq Narrowing.wrapping_exact writer _ _ flags (by rw [length]; exact Nat.mod_le ..) limit

/-- Only the length of the sample itself is ever changed by a conversion. -/
theorem sendSampleWith_checked (some_limit : maxPayload ≠ 0) (limit : maxPayload < 2 ^ 32) :
    sendSampleWith .checked maxPayload writer sample flags =
      if sample.data.length < 2 ^ 32 then some (sendSampleTo maxPayload writer sample flags) else none := by
  unfold sendSampleWith sendSampleTo
  rw [if_neg some_limit, if_neg some_limit]
  split
  · rename_i short
    have length := toNat_short short
    rw [Narrowing.checked_exact _ short, Option.bind_some, Fragmenter.fragmentWith_eq Narrowing.checked_exact writer _ _
      flags length.le limit, length, Nat.mod_eq_of_lt short]
  · rename_i long
    rw [Narrowing.checked, if_neg long, Option.bind_none]

/-- What is left of a sample whose length keeps 32 bits. -/
def CachedSample.cut (sample : CachedSample) : CachedSample :=
  { sample with data := sample.data.take (sample.data.length % 2 ^ 32) }

theorem CachedSample.cut_length : sample.cut.data.length = sample.data.length % 2 ^ 32 :=
  List.length_take_of_le (Nat.mod_le ..)

theorem CachedSample.cut_wrapped (wraps : sample.data.length % 2 ^ 32 = 0) : sample.cut = { sample with data := [] } := by
  rw [cut, wraps, List.take_zero]

theorem CachedSample.cut_data : sample.cut.data = sample.data ↔ sample.data.length < 2 ^ 32 := by
  constructor
  · intro whole
    have length := @cut_length sample
    rw [whole] at length
    exact length ▸ Nat.mod_lt _ (Nat.two_pow_pos 32)
  · intro short
    rw [cut, Nat.mod_eq_of_lt short, List.take_length]

theorem sendSampleTo_cut :
    sendSampleTo maxPayload writer sample.cut flags = sendSampleTo maxPayload writer sample flags := by
  have whole : sample.cut.data.take (sample.cut.data.length % 2 ^ 32) = sample.cut.data := by
    rw [CachedSample.cut_length, Nat.mod_mod, ← CachedSample.cut_length, List.take_length]
  rw [sendSampleTo, sendSampleTo, whole]
  rfl

/-- With some of the pieces taken in, the others complete the sample at the last one. -/
theorem reassembled_pieces {data : Bytes} {seq pubTimeMs : U64} (splits : Fragmenter.Splits maxPayload data)
    (short : data.length < 2 ^ 32) {before after : List (Nat × Nat)}
    (cut : Fragmenter.pieces data.length (Fragmenter.capacityOf maxPayload) data.length 0 = before ++ after)
    (more : after ≠ []) {r : Reassembler}
    (holds : r.Holds ⟨writer, seq⟩ data (before.map (Fragmenter.fragOf writer seq pubTimeMs data)))
    {arrivals : List (Bytes × Nat)}
    (frames : arrivals.map Prod.fst = after.map (Fragmenter.frameOf writer seq pubTimeMs data flags)) :
    reassembled r arrivals = [data] := by
  induction after generalizing before r arrivals with
  | nil => exact absurd rfl more
  | cons piece rest ih =>
    obtain ⟨⟨frame, now⟩, later, rfl, rfl, others⟩ := List.map_eq_cons_iff.mp frames
    obtain ⟨_, filled, within, inside⟩ := Fragmenter.mem_pieces splits.positive
      (cut ▸ List.mem_append_right before List.mem_cons_self)
    have decoded := @Fragmenter.decode_frameOf writer seq pubTimeMs data piece inside flags short (splits.fits within)
    have other : decodeData (Fragmenter.frameOf writer seq pubTimeMs data flags piece) = none := by
      cases read : decodeData (Fragmenter.frameOf writer seq pubTimeMs data flags piece) with
      | none => rfl
      | some body => exact absurd ((decodeData_type read).symm.trans (decodeDataFrag_type decoded)) (by decide)
    have split : Fragmenter.pieces data.length (Fragmenter.capacityOf maxPayload) data.length 0 =
        (before ++ [piece]) ++ rest := by rw [cut, List.append_assoc, List.singleton_append]
    have last := @Fragmenter.Splits.complete_iff writer seq pubTimeMs data maxPayload (before ++ [piece]) rest splits short
      split
    rw [List.map_append, List.map_singleton] at last
    have nonempty : data ≠ [] := List.length_pos_iff.mp (by omega)
    simp only [reassembled, other, decoded]
    rcases Reassembler.add_slice holds (Fragmenter.fragOf_slice inside short) nonempty short now with
      ⟨complete, run⟩ | ⟨incomplete, next, tracks, run⟩
    · obtain rfl := last.mp complete
      obtain rfl := List.map_eq_nil_iff.mp (others.trans List.map_nil)
      rw [run]
      rfl
    · rw [run, Option.toList_none, List.nil_append]
      refine ih split (fun none => incomplete (last.mpr none)) (Or.inr ⟨next, ?_, ?_⟩) others
      · rw [KeyedList.lookup_assign, if_pos rfl]
      · rw [List.map_append, List.map_singleton]
        exact tracks

section Limits
variable (room : kHeaderSize + kDataFragBodyFixedSize < maxPayload) (limit : maxPayload < 2 ^ 32)
include room limit

theorem carry_short (short : sample.data.length < 2 ^ 32) :
    Carry writer sample.seq sample.data (sendSampleTo maxPayload writer sample flags) := by
  intro r arrivals frames fresh
  rcases @ParticipantImpl.sendSampleTo_cases writer sample maxPayload flags room limit short with
    ⟨frame, single, decoded⟩ | ⟨splits, pieces⟩
  · rw [single] at frames
    obtain ⟨⟨_, now⟩, later, rfl, rfl, none⟩ := List.map_eq_cons_iff.mp frames
    obtain rfl := List.map_eq_nil_iff.mp none
    simp only [reassembled, decoded]
  · have some := @ParticipantImpl.sendSampleTo_ne_nil writer sample maxPayload flags room limit short
    rw [pieces] at frames some
    exact reassembled_pieces splits short (List.nil_append _).symm (fun none => some (by rw [none, List.map_nil]))
      (Or.inl ⟨fresh, rfl⟩) frames

/-- The frames of one call carry one payload only. -/
theorem carry_iff : Carry writer sample.seq sample.data (sendSampleTo maxPayload writer sample flags) ↔
    sample.data.length < 2 ^ 32 := by
  refine ⟨fun carried => ?_, carry_short room limit⟩
  have small : sample.cut.data.length < 2 ^ 32 := by
    rw [CachedSample.cut_length]
    exact Nat.mod_lt _ (Nat.two_pow_pos 32)
  have part : Carry writer sample.seq sample.cut.data (sendSampleTo maxPayload writer sample flags) := by
    rw [← sendSampleTo_cut]
    exact carry_short room limit small
  have arrived : ((sendSampleTo maxPayload writer sample flags).map (·, 0)).map Prod.fst =
      sendSampleTo maxPayload writer sample flags := by
    rw [List.map_map]
    exact List.map_id _
  have same := (part {} _ arrived rfl).symm.trans (carried {} _ arrived rfl)
  exact CachedSample.cut_data.mp (List.singleton_inj.mp same)

theorem sendResult_true : sendResult (fun _ => true) (sendSampleTo maxPayload writer sample flags) = true := by
  have small : sample.cut.data.length < 2 ^ 32 := by
    rw [CachedSample.cut_length]
    exact Nat.mod_lt _ (Nat.two_pow_pos 32)
  have some := @ParticipantImpl.sendSampleTo_ne_nil writer sample.cut maxPayload flags room limit small
  rw [sendSampleTo_cut] at some
  have all (frames : List Bytes) : frames.foldl (fun ok _ => true && ok) true = true := by
    induction frames with
    | nil => rfl
    | cons frame rest ih => exact ih
  rw [sendResult, all, Bool.true_and, Bool.not_eq_true', List.isEmpty_eq_false_iff]
  exact some

/-- A call fails or its frames carry the whole sample, and no length on the
way is changed, exactly if the length fits into 32 bits. -/
theorem sent_whole_iff : ∃ frames, sendSampleWith .wrapping maxPayload writer sample flags = some frames ∧
    ((∀ sendFrame, sendResult sendFrame frames = false ∨ Carry writer sample.seq sample.data frames) ∧
      sendSampleWith .checked maxPayload writer sample flags = some frames ↔ sample.data.length < 2 ^ 32) := by
  refine ⟨_, sendSampleWith_wrapping limit, fun both => ?_, fun short => ⟨fun _ => Or.inr ?_, ?_⟩⟩
  · refine (carry_iff room limit).mp ((both.1 (fun _ => true)).resolve_left ?_)
    rw [sendResult_true room limit]
    exact Bool.true_eq_false_eq_False
  · exact carry_short room limit short
  · rw [sendSampleWith_checked (by omega) limit, if_pos short]

end Limits

/-- Twelve bytes cut into pairs. -/
theorem sent_whole_in_pairs :
    let sample : CachedSample := ⟨1, 0, 0, List.replicate 12 7⟩
    ∃ frames, sendSampleWith .wrapping 58 default sample 0 = some frames ∧ frames.length = 6 ∧
      Carry default 1 sample.data frames ∧ sendSampleWith .checked 58 default sample 0 = some frames := by
  intro sample
  obtain ⟨frames, sent, whole⟩ := @sent_whole_iff 58 default sample 0 (by decide) (by decide)
  obtain ⟨carried, kept⟩ := whole.mpr (by decide)
  have made : (sendSampleWith .wrapping 58 default sample 0).map
      (fun frames => (frames.length, sendResult (fun _ => true) frames)) = some (6, true) := by decide
  rw [sent] at made
  obtain ⟨six, accepted⟩ := Prod.mk.inj (Option.some.inj made)
  refine ⟨frames, sent, six, (carried (fun _ => true)).resolve_left ?_, kept⟩
  rw [accepted]
  exact Bool.true_eq_false_eq_False

/-- A sample of 2^32 bytes is sent as an empty one, and the call succeeds. -/
theorem long_sample_sent_empty :
    let sample : CachedSample := ⟨1, 0, 0, List.replicate (2 ^ 32) 7⟩
    ∃ frames, sendSampleWith .wrapping 1000 default sample 0 = some frames ∧
      frames = [encodeData default 1 0 [] 0 none] ∧ sendResult (fun _ => true) frames = true ∧
      ¬ Carry default 1 sample.data frames := by
  intro sample
  have length : sample.data.length = 2 ^ 32 := List.length_replicate
  have empty : sample.cut = ⟨1, 0, 0, []⟩ := CachedSample.cut_wrapped (by rw [length, Nat.mod_self])
  refine ⟨_, sendSampleWith_wrapping (by decide), ?_, sendResult_true (by decide) (by decide), fun carried => ?_⟩
  · rw [← sendSampleTo_cut, empty]
    decide
  · have short := (@carry_iff 1000 default sample 0 (by decide) (by decide)).mp carried
    omega

end Call

end Mdds
