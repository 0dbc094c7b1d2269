import Mathlib.Data.List.Induction
import Mdds.Lib.Intervals
import Mdds.Lib.KeyedList
import Mdds.Wire

namespace Mdds

namespace Fragmenter

/-- The loop over the chunks of a large payload. Each turn advances `offset`
while the capacity is positive, so the payload length is fuel enough. -/
def loop (writer : Guid) (seq pubTimeMs : U64) (payload : Bytes) (flags : U16) (capacity : Nat) : Nat → Nat → List Bytes
  | 0, _ => []
  | fuel + 1, offset =>
    if offset < payload.length then
      let chunk := min capacity (payload.length - offset)
      encodeDataFrag writer seq pubTimeMs (BitVec.ofNat 32 payload.length) (BitVec.ofNat 32 offset)
          ((payload.drop offset).take chunk) flags none ::
        loop writer seq pubTimeMs payload flags capacity fuel (offset + chunk)
    else []

/-- `Fragmenter::fragment`: one DATA frame where it fits, else DATA_FRAG
frames, none where not even an empty one would fit. -/
def fragment (writer : Guid) (seq pubTimeMs : U64) (payload : Bytes) (maxPayload : Nat) (flags : U16) : List Bytes :=
  if kHeaderSize + kDataBodyFixedSize + payload.length ≤ maxPayload then
    [encodeData writer seq pubTimeMs payload flags none]
  else if maxPayload ≤ kHeaderSize + kDataFragBodyFixedSize then []
  else
    loop writer seq pubTimeMs payload flags ((maxPayload - kHeaderSize - kDataFragBodyFixedSize) % 2 ^ 32)
      payload.length 0

end Fragmenter

/-- The key of a partial sample, `std::pair<Guid, uint64_t>`. -/
structure SampleKey where
  writer : Guid
  seq : U64
  deriving DecidableEq

instance : LT SampleKey := ⟨fun a b => a.writer < b.writer ∨ a.writer = b.writer ∧ a.seq < b.seq⟩
instance : DecidableLT SampleKey := fun a b =>
  inferInstanceAs (Decidable (a.writer < b.writer ∨ a.writer = b.writer ∧ a.seq < b.seq))

/-- A sample of which some bytes have arrived; `lastUpdate` is a reading of
the steady clock in milliseconds. -/
structure Partial where
  totalSize : U32
  buffer : Bytes
  intervals : List (Nat × Nat) := []
  lastUpdate : Nat
  deriving DecidableEq

/-- The `memcpy` of fragment bytes into a buffer. -/
def overwrite (buffer : Bytes) (offset : Nat) (data : Bytes) : Bytes :=
  buffer.take offset ++ data ++ buffer.drop (offset + data.length)

structure Reassembler where
  partials : List (SampleKey × Partial) := []
  timeoutMs : Nat := 5000

namespace Reassembler

/-- `add_fragment`, with the completed payload as result. The range check is
made on 32 bits. -/
def addFragment (r : Reassembler) (writer : Guid) (seq : U64) (totalSize fragOffset : U32) (data : Bytes) (now : Nat) :
    Reassembler × Option Bytes :=
  let dataEnd := fragOffset + BitVec.ofNat 32 data.length
  if totalSize = 0 ∨ totalSize < dataEnd then (r, none)
  else
    let key : SampleKey := ⟨writer, seq⟩
    let p := (r.partials.lookup key).getD
      { totalSize, buffer := List.replicate totalSize.toNat 0, lastUpdate := now }
    if p.totalSize ≠ totalSize then (r, none)
    else
      let next := { p with
        buffer := overwrite p.buffer fragOffset.toNat data
        intervals := Intervals.insert (fragOffset.toNat, dataEnd.toNat) p.intervals
        lastUpdate := now }
      if next.intervals = [(0, totalSize.toNat)] then
        ({ r with partials := KeyedList.erase key r.partials }, some next.buffer)
      else ({ r with partials := KeyedList.assign key next r.partials }, none)

/-- The overload for a decoded fragment. -/
def addBody (r : Reassembler) (frag : DataFragBody) (now : Nat) : Reassembler × Option Bytes :=
  r.addFragment frag.writer frag.seq frag.totalSize frag.fragOffset frag.payload now

/-- `sweep_expired`, with the number of partials dropped. -/
def sweepExpired (r : Reassembler) (now : Nat) : Reassembler × Nat :=
  let kept := r.partials.filter (fun entry => now - entry.2.lastUpdate ≤ r.timeoutMs)
  ({ r with partials := kept }, r.partials.length - kept.length)

def dropWriter (r : Reassembler) (writer : Guid) : Reassembler :=
  { r with partials := r.partials.filter (fun entry => entry.1.writer ≠ writer) }

end Reassembler

theorem overwrite_length {buffer data : Bytes} {offset : Nat} (within : offset + data.length ≤ buffer.length) :
    (overwrite buffer offset data).length = buffer.length := by
  simp only [overwrite, List.length_append, List.length_take, List.length_drop]
  omega

theorem overwrite_getElem? {buffer data : Bytes} {offset i : Nat} (within : offset + data.length ≤ buffer.length) :
    (overwrite buffer offset data)[i]? =
      if offset ≤ i ∧ i < offset + data.length then data[i - offset]? else buffer[i]? := by
  have left : (buffer.take offset).length = offset := by
    rw [List.length_take]
    omega
  rw [overwrite, List.append_assoc]
  by_cases low : i < offset
  · rw [List.getElem?_append_left (by omega), List.getElem?_take_of_lt low, if_neg (by omega)]
  · rw [List.getElem?_append_right (by omega), left]
    by_cases inside : i < offset + data.length
    · rw [List.getElem?_append_left (by omega), if_pos ⟨by omega, inside⟩]
    · rw [List.getElem?_append_right (by omega), List.getElem?_drop, if_neg (by omega)]
      congr 1
      omega

namespace DataFragBody

/-- The bytes of a sample a fragment carries. -/
def Covers (frag : DataFragBody) (i : Nat) : Prop :=
  frag.fragOffset.toNat ≤ i ∧ i < frag.fragOffset.toNat + frag.payload.length

instance (frag : DataFragBody) (i : Nat) : Decidable (frag.Covers i) :=
  inferInstanceAs (Decidable (_ ∧ _))

/-- A fragment of the sample `seq` of `writer`: it announces the size of the
payload and carries the bytes that stand at its offset. -/
structure SliceOf (frag : DataFragBody) (key : SampleKey) (payload : Bytes) : Prop where
  writer : frag.writer = key.writer
  seq : frag.seq = key.seq
  total : frag.totalSize.toNat = payload.length
  inside : frag.fragOffset.toNat + frag.payload.length ≤ payload.length
  bytes : frag.payload = (payload.drop frag.fragOffset.toNat).take frag.payload.length

theorem SliceOf.getElem? {frag : DataFragBody} {key : SampleKey} {payload : Bytes} {i : Nat}
    (slice : frag.SliceOf key payload) (covered : frag.Covers i) :
    frag.payload[i - frag.fragOffset.toNat]? = payload[i]? := by
  obtain ⟨low, high⟩ := covered
  rw [slice.bytes, List.getElem?_take_of_lt (by omega), List.getElem?_drop]
  congr 1
  omega

end DataFragBody

/-- The fragments seen carry every byte of the payload. -/
def Complete (payload : Bytes) (seen : List DataFragBody) : Prop :=
  ∀ i < payload.length, ∃ frag ∈ seen, frag.Covers i

instance (payload : Bytes) (seen : List DataFragBody) : Decidable (Complete payload seen) :=
  inferInstanceAs (Decidable (∀ i < payload.length, ∃ frag ∈ seen, frag.Covers i))

/-- A partial that has taken in exactly the fragments `seen` of a payload. -/
structure Partial.Tracks (p : Partial) (payload : Bytes) (seen : List DataFragBody) : Prop where
  total : p.totalSize.toNat = payload.length
  size : p.buffer.length = payload.length
  separated : Intervals.Separated p.intervals
  within : ∀ iv ∈ p.intervals, iv.2 ≤ payload.length
  covers : ∀ i, Intervals.Covers p.intervals i ↔ ∃ frag ∈ seen, frag.Covers i
  agrees : ∀ i, (∃ frag ∈ seen, frag.Covers i) → p.buffer[i]? = payload[i]?

namespace Partial.Tracks

theorem initial {totalSize : U32} {payload : Bytes} (total : totalSize.toNat = payload.length) (now : Nat) :
    ({ totalSize, buffer := List.replicate totalSize.toNat 0, lastUpdate := now } : Partial).Tracks payload [] :=
  ⟨total, by simp [total], .nil, by simp, by simp, by simp⟩

/-- The whole interval stands for completeness, and then the buffer is the payload. -/
theorem complete_iff {p : Partial} {payload : Bytes} {seen : List DataFragBody} (tracks : p.Tracks payload seen)
    (nonempty : payload ≠ []) : p.intervals = [(0, payload.length)] ↔ Complete payload seen := by
  rw [tracks.separated.whole_iff tracks.within (List.length_pos_iff.mpr nonempty)]
  simp only [Complete, tracks.covers]

theorem buffer_eq {p : Partial} {payload : Bytes} {seen : List DataFragBody} (tracks : p.Tracks payload seen)
    (complete : Complete payload seen) : p.buffer = payload := by
  refine List.ext_getElem? (fun i => ?_)
  by_cases below : i < payload.length
  · exact tracks.agrees i (complete i below)
  · rw [List.getElem?_eq_none (by rw [tracks.size]; omega), List.getElem?_eq_none (by omega)]

/-- Only what the fragments cover matters. -/
theorem congr {p : Partial} {payload : Bytes} {seen others : List DataFragBody} (tracks : p.Tracks payload seen)
    (same : ∀ i, (∃ frag ∈ seen, frag.Covers i) ↔ ∃ frag ∈ others, frag.Covers i) : p.Tracks payload others :=
  ⟨tracks.total, tracks.size, tracks.separated, tracks.within, fun i => (tracks.covers i).trans (same i),
    fun i covered => tracks.agrees i ((same i).mpr covered)⟩

theorem add {p : Partial} {key : SampleKey} {payload : Bytes} {seen : List DataFragBody} {frag : DataFragBody}
    (tracks : p.Tracks payload seen) (slice : frag.SliceOf key payload) (now : Nat) :
    ({ p with
        buffer := overwrite p.buffer frag.fragOffset.toNat frag.payload
        intervals := Intervals.insert
          (frag.fragOffset.toNat, frag.fragOffset.toNat + frag.payload.length) p.intervals
        lastUpdate := now } : Partial).Tracks payload (seen ++ [frag]) := by
  have inside := slice.inside
  have fits : frag.fragOffset.toNat + frag.payload.length ≤ p.buffer.length := by
    rw [tracks.size]
    exact inside
  have seenOr (i : Nat) : (∃ f ∈ seen ++ [frag], f.Covers i) ↔ frag.Covers i ∨ ∃ f ∈ seen, f.Covers i := by
    simp only [List.mem_append, List.mem_singleton, or_and_right, exists_or, exists_eq_left]
    exact Or.comm
  refine ⟨tracks.total, (overwrite_length fits).trans tracks.size, tracks.separated.insert (Nat.le_add_right ..),
    Intervals.end_insert_le inside tracks.within, fun i => ?_, fun i covered => ?_⟩
  · rw [Intervals.covers_insert, tracks.covers, seenOr]
    rfl
  · dsimp only
    rw [overwrite_getElem? fits]
    split
    · rename_i here
      exact slice.getElem? here
    · rename_i elsewhere
      exact tracks.agrees i (((seenOr i).mp covered).resolve_left elsewhere)

end Partial.Tracks

namespace Reassembler

/-- The partial for `key` has taken in exactly the fragments `seen`; none
exists before the first. -/
def Holds (r : Reassembler) (key : SampleKey) (payload : Bytes) (seen : List DataFragBody) : Prop :=
  (r.partials.lookup key = none ∧ seen = []) ∨ ∃ p, r.partials.lookup key = some p ∧ p.Tracks payload seen

/-- What one fragment does: it completes the sample exactly if it completes
the coverage, and else joins the partial. -/
theorem add_slice {r : Reassembler} {key : SampleKey} {payload : Bytes} {seen : List DataFragBody} {frag : DataFragBody}
    (holds : r.Holds key payload seen) (slice : frag.SliceOf key payload) (nonempty : payload ≠ [])
    (short : payload.length < 2 ^ 32) (now : Nat) :
    (Complete payload (seen ++ [frag]) ∧
        r.addBody frag now = ({ r with partials := KeyedList.erase key r.partials }, some payload)) ∨
      (¬ Complete payload (seen ++ [frag]) ∧ ∃ next, next.Tracks payload (seen ++ [frag]) ∧
        r.addBody frag now = ({ r with partials := KeyedList.assign key next r.partials }, none)) := by
  have inside := slice.inside
  have total := slice.total
  have positive := List.length_pos_iff.mpr nonempty
  have dataEnd : (frag.fragOffset + BitVec.ofNat 32 frag.payload.length).toNat =
      frag.fragOffset.toNat + frag.payload.length := by
    rw [BitVec.toNat_add, toNat_short (by omega), Nat.mod_eq_of_lt (by omega)]
  have accepted : ¬ (frag.totalSize = 0 ∨ frag.totalSize < frag.fragOffset + BitVec.ofNat 32 frag.payload.length) := by
    rintro (zero | beyond)
    · rw [zero] at total
      simp at total
      omega
    · rw [BitVec.lt_def, dataEnd] at beyond
      omega
  obtain ⟨p, tracks, found⟩ : ∃ p : Partial, p.Tracks payload seen ∧ (r.partials.lookup key).getD
      { totalSize := frag.totalSize, buffer := List.replicate frag.totalSize.toNat 0, lastUpdate := now } = p := by
    rcases holds with ⟨absent, rfl⟩ | ⟨p, present, tracks⟩
    · exact ⟨_, .initial total now, by rw [absent]; rfl⟩
    · exact ⟨p, tracks, by rw [present]; rfl⟩
  have sameSize : p.totalSize = frag.totalSize := BitVec.eq_of_toNat_eq (tracks.total.trans total.symm)
  have next := tracks.add slice now
  have done := next.complete_iff nonempty
  have named : (⟨frag.writer, frag.seq⟩ : SampleKey) = key := by rw [slice.writer, slice.seq]
  unfold addBody addFragment
  dsimp only
  rw [if_neg accepted, named, found, if_neg (by simpa using sameSize), dataEnd, total]
  by_cases complete : Complete payload (seen ++ [frag])
  · have whole : overwrite p.buffer frag.fragOffset.toNat frag.payload = payload := next.buffer_eq complete
    rw [if_pos (done.mpr complete), whole]
    exact Or.inl ⟨complete, rfl⟩
  · rw [if_neg (mt done.mp complete)]
    exact Or.inr ⟨complete, _, next, rfl⟩

/-- Fragments fed one after the other, each with its clock reading. -/
def feed (r : Reassembler) (frags : List (DataFragBody × Nat)) : Reassembler :=
  frags.foldl (fun r item => (r.addBody item.1 item.2).1) r

theorem Holds.feed {r : Reassembler} {key : SampleKey} {payload : Bytes} {frags : List (DataFragBody × Nat)}
    (fresh : r.partials.lookup key = none) (slices : ∀ item ∈ frags, item.1.SliceOf key payload) (nonempty : payload ≠ [])
    (short : payload.length < 2 ^ 32) (open_ : ¬ Complete payload (frags.map Prod.fst)) :
    (r.feed frags).Holds key payload (frags.map Prod.fst) := by
  induction frags using List.reverseRecOn with
  | nil => exact Or.inl ⟨fresh, rfl⟩
  | append_singleton frags item ih =>
    have earlier : ¬ Complete payload (frags.map Prod.fst) := by
      intro complete
      refine open_ (fun i below => ?_)
      obtain ⟨frag, inside, covers⟩ := complete i below
      exact ⟨frag, by simp only [List.map_append, List.mem_append]; exact Or.inl inside, covers⟩
    have before := ih (fun item inside => slices item (List.mem_append_left _ inside)) earlier
    have slice := slices item (List.mem_append_right _ List.mem_cons_self)
    have last : r.feed (frags ++ [item]) = ((r.feed frags).addBody item.1 item.2).1 := List.foldl_concat ..
    rw [List.map_append, List.map_singleton] at open_ ⊢
    rcases add_slice before slice nonempty short item.2 with ⟨complete, _⟩ | ⟨_, next, tracks, run⟩
    · exact absurd complete open_
    · refine Or.inr ⟨next, ?_, tracks⟩
      rw [last, run, KeyedList.lookup_assign, if_pos rfl]

end Reassembler

namespace Fragmenter
variable {writer : Guid} {seq pubTimeMs : U64} {payload : Bytes} {flags : U16}

/-- The frame of the chunk that starts at `piece.1` and has `piece.2` bytes. -/
def frameOf (writer : Guid) (seq pubTimeMs : U64) (payload : Bytes) (flags : U16) (piece : Nat × Nat) : Bytes :=
  encodeDataFrag writer seq pubTimeMs (BitVec.ofNat 32 payload.length) (BitVec.ofNat 32 piece.1)
    ((payload.drop piece.1).take piece.2) flags none

/-- The places where the loop cuts a payload of `total` bytes. -/
def pieces (total capacity : Nat) : Nat → Nat → List (Nat × Nat)
  | 0, _ => []
  | fuel + 1, offset =>
    if offset < total then
      (offset, min capacity (total - offset)) :: pieces total capacity fuel (offset + min capacity (total - offset))
    else []

theorem loop_eq_map (capacity fuel offset : Nat) :
    loop writer seq pubTimeMs payload flags capacity fuel offset =
      (pieces payload.length capacity fuel offset).map (frameOf writer seq pubTimeMs payload flags) := by
  induction fuel generalizing offset with
  | zero => rfl
  | succ fuel ih =>
    unfold loop pieces
    split
    · dsimp only
      rw [ih, List.map_cons]
      rfl
    · rfl

theorem mem_pieces {total capacity fuel offset : Nat} {piece : Nat × Nat} (positive : 0 < capacity)
    (member : piece ∈ pieces total capacity fuel offset) :
    offset ≤ piece.1 ∧ 0 < piece.2 ∧ piece.2 ≤ capacity ∧ piece.1 + piece.2 ≤ total := by
  induction fuel generalizing offset with
  | zero => exact absurd member List.not_mem_nil
  | succ fuel ih =>
    unfold pieces at member
    split at member
    · rename_i below
      rcases List.mem_cons.mp member with rfl | later
      · dsimp only
        omega
      · have bounds := ih later
        omega
    · exact absurd member List.not_mem_nil

theorem pieces_le {total capacity fuel offset : Nat} {piece : Nat × Nat}
    (member : piece ∈ pieces total capacity fuel offset) : piece.2 ≤ capacity := by
  induction fuel generalizing offset with
  | zero => exact absurd member List.not_mem_nil
  | succ fuel ih =>
    unfold pieces at member
    split at member
    · rcases List.mem_cons.mp member with rfl | later
      · exact Nat.min_le_left ..
      · exact ih later
    · exact absurd member List.not_mem_nil

/-- The pieces follow one another. -/
theorem pieces_ascending {total capacity : Nat} (positive : 0 < capacity) (fuel offset : Nat) :
    (pieces total capacity fuel offset).Pairwise (fun a b => a.1 + a.2 ≤ b.1) := by
  induction fuel generalizing offset with
  | zero => exact List.Pairwise.nil
  | succ fuel ih =>
    unfold pieces
    split
    · exact List.pairwise_cons.mpr ⟨fun later inside => (mem_pieces positive inside).1, ih _⟩
    · exact List.Pairwise.nil

/-- With enough fuel they leave no byte out. -/
theorem pieces_cover {total capacity fuel offset i : Nat} (positive : 0 < capacity) (enough : total ≤ offset + fuel)
    (low : offset ≤ i) (high : i < total) :
    ∃ piece ∈ pieces total capacity fuel offset, piece.1 ≤ i ∧ i < piece.1 + piece.2 := by
  induction fuel generalizing offset with
  | zero => omega
  | succ fuel ih =>
    unfold pieces
    rw [if_pos (by omega)]
    by_cases here : i < offset + min capacity (total - offset)
    · exact ⟨_, List.mem_cons_self, low, here⟩
    · obtain ⟨piece, inside, covers⟩ := @ih (offset + min capacity (total - offset)) (by omega) (by omega)
      exact ⟨piece, List.mem_cons_of_mem _ inside, covers⟩

/-- The fragment a piece becomes at the receiver. -/
def fragOf (writer : Guid) (seq pubTimeMs : U64) (payload : Bytes) (piece : Nat × Nat) : DataFragBody :=
  { writer, seq, pubTimeMs
    totalSize := BitVec.ofNat 32 payload.length
    fragOffset := BitVec.ofNat 32 piece.1
    payload := (payload.drop piece.1).take piece.2 }

section Piece
variable {piece : Nat × Nat} (inside : piece.1 + piece.2 ≤ payload.length)
include inside

theorem piece_length : ((payload.drop piece.1).take piece.2).length = piece.2 := by
  rw [List.length_take, List.length_drop]
  omega

theorem fragOf_slice (short : payload.length < 2 ^ 32) :
    (fragOf writer seq pubTimeMs payload piece).SliceOf ⟨writer, seq⟩ payload := by
  have size := piece_length inside
  have offset : (BitVec.ofNat 32 piece.1).toNat = piece.1 := toNat_short (by omega)
  refine ⟨rfl, rfl, toNat_short short, ?_, ?_⟩
  · simp only [fragOf, offset, size]
    exact inside
  · simp only [fragOf, offset, size]

theorem fragOf_covers (short : payload.length < 2 ^ 32) (i : Nat) :
    (fragOf writer seq pubTimeMs payload piece).Covers i ↔ piece.1 ≤ i ∧ i < piece.1 + piece.2 := by
  have offset : (BitVec.ofNat 32 piece.1).toNat = piece.1 := toNat_short (by omega)
  simp only [DataFragBody.Covers, fragOf, offset, piece_length inside]

theorem decode_frameOf (flags : U16) (short : payload.length < 2 ^ 32) (fits : kDataFragBodyFixedSize + piece.2 < 2 ^ 32) :
    decodeDataFrag (frameOf writer seq pubTimeMs payload flags piece) =
      some (fragOf writer seq pubTimeMs payload piece) := by
  have size := piece_length inside
  have total := toNat_short short
  have offset : (BitVec.ofNat 32 piece.1).toNat = piece.1 := toNat_short (by omega)
  exact decodeDataFrag_encode writer seq pubTimeMs flags (by rw [size]; exact fits)
    (by rw [size, offset, total]; exact inside)

end Piece

/-- The capacity of one fragment under a limit. -/
def capacityOf (maxPayload : Nat) : Nat := (maxPayload - kHeaderSize - kDataFragBodyFixedSize) % 2 ^ 32

/-- A limit above the fragment overhead but too small for one DATA frame. -/
structure Splits (maxPayload : Nat) (payload : Bytes) : Prop where
  room : kHeaderSize + kDataFragBodyFixedSize < maxPayload
  limit : maxPayload < 2 ^ 32
  large : maxPayload < kHeaderSize + kDataBodyFixedSize + payload.length

namespace Splits
variable {maxPayload : Nat}

theorem capacity (splits : Splits maxPayload payload) :
    capacityOf maxPayload = maxPayload - kHeaderSize - kDataFragBodyFixedSize := by
  have limit := splits.limit
  rw [capacityOf, Nat.mod_eq_of_lt (by omega)]

theorem positive (splits : Splits maxPayload payload) : 0 < capacityOf maxPayload := by
  have room := splits.room
  rw [splits.capacity]
  omega

theorem fits {piece : Nat × Nat} (splits : Splits maxPayload payload) (within : piece.2 ≤ capacityOf maxPayload) :
    kDataFragBodyFixedSize + piece.2 < 2 ^ 32 := by
  have room := splits.room
  have limit := splits.limit
  rw [splits.capacity] at within
  omega

theorem fragment_eq (splits : Splits maxPayload payload) (writer : Guid) (seq pubTimeMs : U64) (flags : U16) :
    fragment writer seq pubTimeMs payload maxPayload flags =
      (pieces payload.length (capacityOf maxPayload) payload.length 0).map (frameOf writer seq pubTimeMs payload flags) := by
  have room := splits.room
  have large := splits.large
  rw [fragment, if_neg (by omega), if_neg (by omega), ← loop_eq_map]
  rfl

/-- Every frame is a fragment within the limit. -/
theorem mem_fragment {frame : Bytes} (splits : Splits maxPayload payload) (short : payload.length < 2 ^ 32)
    (member : frame ∈ fragment writer seq pubTimeMs payload maxPayload flags) :
    frame.length ≤ maxPayload ∧ ∃ frag, frag.SliceOf ⟨writer, seq⟩ payload ∧ frag.pubTimeMs = pubTimeMs ∧
      decodeDataFrag frame = some frag := by
  rw [splits.fragment_eq] at member
  obtain ⟨piece, cut, rfl⟩ := List.mem_map.mp member
  obtain ⟨_, _, within, inside⟩ := mem_pieces splits.positive cut
  refine ⟨?_, _, fragOf_slice inside short, rfl, decode_frameOf inside flags short (splits.fits within)⟩
  have room := splits.room
  rw [splits.capacity] at within
  rw [frameOf, encodeDataFrag_length, piece_length inside]
  omega

/-- Together the frames of one fragmentation carry the whole payload. -/
theorem fragment_covers {i : Nat} (splits : Splits maxPayload payload) (short : payload.length < 2 ^ 32)
    (below : i < payload.length) :
    ∃ frame ∈ fragment writer seq pubTimeMs payload maxPayload flags, ∃ frag,
      decodeDataFrag frame = some frag ∧ frag.Covers i := by
  obtain ⟨piece, cut, covers⟩ :=
    @pieces_cover payload.length _ payload.length 0 i splits.positive (by omega) (Nat.zero_le i) below
  obtain ⟨_, _, within, inside⟩ := mem_pieces splits.positive cut
  rw [splits.fragment_eq]
  exact ⟨_, List.mem_map_of_mem cut, _, decode_frameOf inside flags short (splits.fits within),
    (fragOf_covers inside short i).mpr covers⟩

theorem decoded {pieces : List (Nat × Nat)} (splits : Splits maxPayload payload) (short : payload.length < 2 ^ 32)
    (cut : ∀ piece ∈ pieces, piece.2 ≤ capacityOf maxPayload ∧ piece.1 + piece.2 ≤ payload.length) :
    (pieces.map (frameOf writer seq pubTimeMs payload flags)).filterMap decodeDataFrag =
      pieces.map (fragOf writer seq pubTimeMs payload) := by
  rw [List.filterMap_map, ← List.filterMap_eq_map]
  refine List.filterMap_congr (fun piece inside => ?_)
  obtain ⟨within, bound⟩ := cut piece inside
  exact decode_frameOf bound flags short (splits.fits within)

/-- The first pieces of a fragmentation complete the payload only together with the last. -/
theorem complete_iff {before after : List (Nat × Nat)} (splits : Splits maxPayload payload) (short : payload.length < 2 ^ 32)
    (cut : pieces payload.length (capacityOf maxPayload) payload.length 0 = before ++ after) :
    Complete payload (before.map (fragOf writer seq pubTimeMs payload)) ↔ after = [] := by
  have bounds (piece : Nat × Nat) (member : piece ∈ before ++ after) := mem_pieces splits.positive (cut ▸ member)
  constructor
  · intro complete
    by_contra more
    obtain ⟨next, rest, rfl⟩ := List.exists_cons_of_ne_nil more
    obtain ⟨_, some, _, within⟩ := bounds next (by simp)
    obtain ⟨frag, seen, covers⟩ := complete next.1 (by omega)
    obtain ⟨piece, inside, rfl⟩ := List.mem_map.mp seen
    obtain ⟨_, _, _, bound⟩ := bounds piece (List.mem_append_left _ inside)
    have earlier := (List.pairwise_append.mp (cut ▸ pieces_ascending splits.positive payload.length 0)).2.2
      piece inside next List.mem_cons_self
    have reached := ((fragOf_covers bound short next.1).mp covers).2
    omega
  · rintro rfl i below
    obtain ⟨piece, inside, covers⟩ :=
      @pieces_cover payload.length _ payload.length 0 i splits.positive (by omega) (Nat.zero_le i) below
    rw [cut, List.append_nil] at inside
    obtain ⟨_, _, _, bound⟩ := bounds piece (List.mem_append_left _ inside)
    exact ⟨_, List.mem_map_of_mem inside, (fragOf_covers bound short i).mpr covers⟩

end Splits

/-- A fragment that some limit too small for one DATA frame produces. -/
def Produces (writer : Guid) (seq pubTimeMs : U64) (payload : Bytes) (frag : DataFragBody) : Prop :=
  ∃ maxPayload flags frame, Splits maxPayload payload ∧ frame ∈ fragment writer seq pubTimeMs payload maxPayload flags ∧
    decodeDataFrag frame = some frag

/-- Fragments respect the limit, decode and leave nothing out, and those of
one payload, cut at whatever limits, reordered and repeated, give it back at
the moment they have covered it. -/
theorem fragmentation_round_trip (nonempty : payload ≠ []) (short : payload.length < 2 ^ 32) :
    (∀ maxPayload flags, Splits maxPayload payload →
      (∀ frame ∈ fragment writer seq pubTimeMs payload maxPayload flags,
        frame.length ≤ maxPayload ∧ ∃ frag, decodeDataFrag frame = some frag) ∧
      ∀ i < payload.length, ∃ frame ∈ fragment writer seq pubTimeMs payload maxPayload flags, ∃ frag,
        decodeDataFrag frame = some frag ∧ frag.Covers i) ∧
    ∀ (r : Reassembler) (frags : List (DataFragBody × Nat)), r.partials.lookup ⟨writer, seq⟩ = none →
      (∀ item ∈ frags, Produces writer seq pubTimeMs payload item.1) →
      ∀ before frag now after, frags = before ++ (frag, now) :: after →
        ¬ Complete payload (before.map Prod.fst) →
        (Complete payload (before.map Prod.fst ++ [frag]) →
          ((r.feed before).addBody frag now).2 = some payload ∧
          ((r.feed before).addBody frag now).1.partials.lookup ⟨writer, seq⟩ = none) ∧
        (¬ Complete payload (before.map Prod.fst ++ [frag]) → ((r.feed before).addBody frag now).2 = none) := by
  refine ⟨fun maxPayload flags splits => ⟨fun frame member => ?_, fun i below => splits.fragment_covers short below⟩, ?_⟩
  · obtain ⟨length, frag, _, _, decoded⟩ := splits.mem_fragment short member
    exact ⟨length, frag, decoded⟩
  · intro r frags fresh produced before frag now after split open_
    have slices : ∀ item ∈ frags, item.1.SliceOf ⟨writer, seq⟩ payload := by
      intro item inside
      obtain ⟨maxPayload, flags, frame, splits, member, decoded⟩ := produced item inside
      obtain ⟨_, known, slice, _, same⟩ := splits.mem_fragment short member
      cases Option.some.inj (same.symm.trans decoded)
      exact slice
    subst split
    have holds := Reassembler.Holds.feed fresh
      (fun item inside => slices item (List.mem_append_left _ inside)) nonempty short open_
    have slice := slices (frag, now) (List.mem_append_right _ List.mem_cons_self)
    rcases Reassembler.add_slice holds slice nonempty short now with ⟨complete, run⟩ | ⟨incomplete, _, _, run⟩
    · rw [run]
      exact ⟨fun _ => ⟨rfl, by rw [KeyedList.lookup_erase, if_pos rfl]⟩, absurd complete⟩
    · rw [run]
      exact ⟨fun complete => absurd complete incomplete, fun _ => rfl⟩

def twentyBytes : Bytes := (List.range 20).map (BitVec.ofNat 8)

/-- Twenty bytes cut once at eleven bytes a frame and once at eight: a middle
piece, an overlapping tail and a repetition wait for the head. -/
theorem fragmentation_round_trip_mixed_limits :
    let frag := fragOf default 7 9 twentyBytes
    ((({} : Reassembler).feed [(frag (8, 8), 0), (frag (11, 9), 1), (frag (8, 8), 2)]).addBody (frag (0, 11)) 3).2 =
      some twentyBytes := by
  intro frag
  have wide : Splits 67 twentyBytes := ⟨by decide, by decide, by decide⟩
  have narrow : Splits 64 twentyBytes := ⟨by decide, by decide, by decide⟩
  have produced : ∀ item ∈ [(frag (8, 8), 0), (frag (11, 9), 1), (frag (8, 8), 2), (frag (0, 11), 3)],
      Produces default 7 9 twentyBytes item.1 := by
    intro item member
    simp only [List.mem_cons, List.not_mem_nil, or_false] at member
    rcases member with rfl | rfl | rfl | rfl
    · exact ⟨64, 0, frameOf default 7 9 twentyBytes 0 (8, 8), narrow, by decide, by decide⟩
    · exact ⟨67, 0, frameOf default 7 9 twentyBytes 0 (11, 9), wide, by decide, by decide⟩
    · exact ⟨64, 0, frameOf default 7 9 twentyBytes 0 (8, 8), narrow, by decide, by decide⟩
    · exact ⟨67, 0, frameOf default 7 9 twentyBytes 0 (0, 11), wide, by decide, by decide⟩
  exact (((fragmentation_round_trip (by decide) (by decide)).2 {} _ rfl produced
    [(frag (8, 8), 0), (frag (11, 9), 1), (frag (8, 8), 2)] _ 3 [] rfl (by decide)).1 (by decide)).1

end Fragmenter

end Mdds
