import Mdds.Fragment
import Mdds.Lib.Chunks
import Mdds.Lib.Run

namespace Mdds

/-- One call of `add_fragment`, with the clock reading it makes. -/
structure FragmentCall where
  writer : Guid
  seq : U64
  totalSize : U32
  fragOffset : U32
  data : Bytes
  now : Nat := 0
  short : data.length < 2 ^ 32

namespace FragmentCall
variable (call : FragmentCall)

def key : SampleKey := ⟨call.writer, call.seq⟩

/-- The bytes and where they go. -/
def chunk : Nat × Bytes := (call.fragOffset.toNat, call.data)

/-- The bytes end within the announced size, as whole numbers. -/
def InRange : Prop := call.fragOffset.toNat + call.data.length ≤ call.totalSize.toNat

instance : Decidable call.InRange := inferInstanceAs (Decidable (_ ≤ _))

end FragmentCall

def Reassembler.add (r : Reassembler) (call : FragmentCall) : Reassembler × Option Bytes :=
  r.addFragment call.writer call.seq call.totalSize call.fragOffset call.data call.now

/-- What has been received of a sample: the size its first fragment announced
and the pieces since. -/
structure Assembly where
  totalSize : U32
  chunks : List (Nat × Bytes)

namespace Assembly

def Whole (a : Assembly) : Prop := Chunks.Whole a.totalSize.toNat a.chunks

instance (a : Assembly) : Decidable a.Whole := inferInstanceAs (Decidable (Chunks.Whole _ _))

/-- The call has a size, and the one already known of the sample. -/
def Fits (known : Option Assembly) (call : FragmentCall) : Prop :=
  call.totalSize ≠ 0 ∧ ∀ a ∈ known, a.totalSize = call.totalSize

instance (known : Option Assembly) (call : FragmentCall) : Decidable (Fits known call) :=
  inferInstanceAs (Decidable (_ ∧ _))

def extend (known : Option Assembly) (call : FragmentCall) : Assembly :=
  ⟨call.totalSize, known.elim [] chunks ++ [call.chunk]⟩

/-- Fitting calls for the sample accumulate until they make it whole. -/
def next (key : SampleKey) (known : Option Assembly) (call : FragmentCall) : Option Assembly :=
  if call.key = key ∧ Fits known call then
    if (extend known call).Whole then none else some (extend known call)
  else known

/-- What the calls have left of the sample. -/
def received (key : SampleKey) (calls : List FragmentCall) : Option Assembly := calls.foldl (next key) none

end Assembly

/-- The partial holds what has been received: its intervals ascend with a
hole between neighbours and stand for the filled bytes, each of which is the
one that arrived last. -/
structure Partial.Mirrors (p : Partial) (a : Assembly) : Prop where
  total : p.totalSize = a.totalSize
  size : p.buffer.length = a.totalSize.toNat
  separated : Intervals.Separated p.intervals
  within : ∀ iv ∈ p.intervals, iv.2 ≤ a.totalSize.toNat
  covers : ∀ i, Intervals.Covers p.intervals i ↔ ∃ chunk ∈ a.chunks, Chunks.Fills chunk i
  bytes : ∀ i, (∃ chunk ∈ a.chunks, Chunks.Fills chunk i) → p.buffer[i]? = Chunks.latest a.chunks i

namespace Partial.Mirrors

theorem initial (totalSize : U32) (now : Nat) :
    ({ totalSize, buffer := List.replicate totalSize.toNat 0, lastUpdate := now } : Partial).Mirrors ⟨totalSize, []⟩ :=
  ⟨rfl, List.length_replicate, .nil, by simp, by simp, by simp⟩

theorem whole_iff {p : Partial} {a : Assembly} (mirrors : p.Mirrors a) (positive : 0 < a.totalSize.toNat) :
    p.intervals = [(0, a.totalSize.toNat)] ↔ a.Whole := by
  rw [mirrors.separated.whole_iff mirrors.within positive]
  simp only [Assembly.Whole, Chunks.Whole, mirrors.covers]

theorem add {p : Partial} {a : Assembly} {offset : Nat} {data : Bytes} (mirrors : p.Mirrors a)
    (inside : offset + data.length ≤ a.totalSize.toNat) (now : Nat) :
    ({ p with
        buffer := overwrite p.buffer offset data
        intervals := Intervals.insert (offset, offset + data.length) p.intervals
        lastUpdate := now } : Partial).Mirrors { a with chunks := a.chunks ++ [(offset, data)] } := by
  have fits : offset + data.length ≤ p.buffer.length := by
    rw [mirrors.size]
    exact inside
  refine ⟨mirrors.total, (overwrite_length fits).trans mirrors.size, mirrors.separated.insert (Nat.le_add_right ..),
    Intervals.end_insert_le inside mirrors.within, fun i => ?_, fun i filled => ?_⟩
  · rw [Intervals.covers_insert, mirrors.covers, Chunks.exists_fills_concat]
    rfl
  · dsimp only
    rw [overwrite_getElem? fits, Chunks.latest_concat]
    rcases Chunks.exists_fills_concat.mp filled with here | earlier
    · rw [if_pos here]
      exact if_pos here
    · split
      · rename_i here
        exact (if_pos here).symm
      · rename_i elsewhere
        exact (mirrors.bytes i earlier).trans (if_neg elsewhere).symm

end Partial.Mirrors

namespace Reassembler

/-- The partial of a sample, or its absence, is what has been received. -/
def Mirrors (r : Reassembler) (key : SampleKey) : Option Assembly → Prop
  | none => r.partials.lookup key = none
  | some a => ∃ p, r.partials.lookup key = some p ∧ p.Mirrors a

/-- The 32-bit end of a fragment in range is its end. -/
theorem dataEnd_toNat {call : FragmentCall} (inside : call.InRange) :
    (call.fragOffset + BitVec.ofNat 32 call.data.length).toNat = call.fragOffset.toNat + call.data.length := by
  have bound := call.totalSize.isLt
  unfold FragmentCall.InRange at inside
  rw [BitVec.toNat_add, toNat_short call.short, Nat.mod_eq_of_lt (by omega)]

theorem accepts {call : FragmentCall} (inside : call.InRange) (sized : call.totalSize ≠ 0) :
    ¬ (call.totalSize = 0 ∨ call.totalSize < call.fragOffset + BitVec.ofNat 32 call.data.length) := by
  rintro (zero | beyond)
  · exact sized zero
  · rw [BitVec.lt_def, dataEnd_toNat inside] at beyond
    unfold FragmentCall.InRange at inside
    omega

/-- A call without a size, or with another one than the sample has, changes nothing. -/
theorem add_refused {r : Reassembler} {known : Option Assembly} {call : FragmentCall}
    (mirrors : r.Mirrors call.key known) (refused : ¬ Assembly.Fits known call) : r.add call = (r, none) := by
  unfold add addFragment
  dsimp only
  by_cases rejected : call.totalSize = 0 ∨ call.totalSize < call.fragOffset + BitVec.ofNat 32 call.data.length
  · rw [if_pos rejected]
  · rw [if_neg rejected]
    cases known with
    | none => exact absurd ⟨fun zero => rejected (Or.inl zero), by simp⟩ refused
    | some a =>
      obtain ⟨p, found, same⟩ := mirrors
      have differ : p.totalSize ≠ call.totalSize := fun equal =>
        refused ⟨fun zero => rejected (Or.inl zero), by simpa using same.total.symm.trans equal⟩
      unfold FragmentCall.key at found
      rw [found, Option.getD_some, if_pos differ]

/-- What a fitting call does: it delivers the sample exactly if it makes it
whole, and else joins the partial. -/
theorem add_fitting {r : Reassembler} {known : Option Assembly} {call : FragmentCall}
    (mirrors : r.Mirrors call.key known) (fits : Assembly.Fits known call) (inside : call.InRange) :
    ((Assembly.extend known call).Whole ∧ ∃ payload,
        r.add call = ({ r with partials := KeyedList.erase call.key r.partials }, some payload) ∧
        payload.length = call.totalSize.toNat ∧
        ∀ i < payload.length, payload[i]? = Chunks.latest (Assembly.extend known call).chunks i) ∨
      (¬ (Assembly.extend known call).Whole ∧ ∃ p, p.Mirrors (Assembly.extend known call) ∧
        r.add call = ({ r with partials := KeyedList.assign call.key p r.partials }, none)) := by
  obtain ⟨p, found, before⟩ : ∃ p : Partial, (r.partials.lookup call.key).getD
      { totalSize := call.totalSize, buffer := List.replicate call.totalSize.toNat 0, lastUpdate := call.now } = p ∧
      p.Mirrors ⟨call.totalSize, known.elim [] Assembly.chunks⟩ := by
    cases known with
    | none =>
      refine ⟨_, rfl, ?_⟩
      rw [show r.partials.lookup call.key = none from mirrors]
      exact .initial ..
    | some a =>
      obtain ⟨p, present, same⟩ := mirrors
      refine ⟨p, by rw [present]; rfl, ?_⟩
      rw [← fits.2 a rfl]
      exact same
  have after := @Partial.Mirrors.add _ _ call.fragOffset.toNat call.data before inside call.now
  have positive : 0 < call.totalSize.toNat := by
    refine Nat.pos_of_ne_zero (fun zero => fits.1 (BitVec.eq_of_toNat_eq zero))
  have done := after.whole_iff positive
  unfold FragmentCall.key at found
  unfold add addFragment
  dsimp only
  rw [if_neg (accepts inside fits.1), found, if_neg (not_not_intro before.total), dataEnd_toNat inside]
  by_cases whole : (Assembly.extend known call).Whole
  · rw [if_pos (done.mpr whole)]
    refine Or.inl ⟨whole, _, rfl, after.size, fun i below => after.bytes i (whole i ?_)⟩
    rw [after.size] at below
    exact below
  · rw [if_neg (mt done.mp whole)]
    exact Or.inr ⟨whole, _, after, rfl⟩

theorem Mirrors.erase {r : Reassembler} {key : SampleKey} {known : Option Assembly} (mirrors : r.Mirrors key known)
    (done : SampleKey) :
    Mirrors { r with partials := KeyedList.erase done r.partials } key (if done = key then none else known) := by
  by_cases same : done = key
  · rw [if_pos same]
    exact (KeyedList.lookup_erase).trans (if_pos same.symm)
  · have kept : (KeyedList.erase done r.partials).lookup key = r.partials.lookup key :=
      (KeyedList.lookup_erase).trans (if_neg (fun h => same h.symm))
    rw [if_neg same]
    cases known with
    | none => exact kept.trans mirrors
    | some a =>
      obtain ⟨p, found, agrees⟩ := mirrors
      exact ⟨p, kept.trans found, agrees⟩

theorem Mirrors.assign {r : Reassembler} {key joined : SampleKey} {known : Option Assembly} {p : Partial} {a : Assembly}
    (mirrors : r.Mirrors key known) (agrees : p.Mirrors a) :
    Mirrors { r with partials := KeyedList.assign joined p r.partials } key (if joined = key then some a else known) := by
  by_cases same : joined = key
  · rw [if_pos same]
    exact ⟨p, (KeyedList.lookup_assign).trans (if_pos same.symm), agrees⟩
  · have kept : (KeyedList.assign joined p r.partials).lookup key = r.partials.lookup key :=
      (KeyedList.lookup_assign).trans (if_neg (fun h => same h.symm))
    rw [if_neg same]
    cases known with
    | none => exact kept.trans mirrors
    | some b =>
      obtain ⟨q, found, alike⟩ := mirrors
      exact ⟨q, kept.trans found, alike⟩

/-- A call moves every sample as the record of what it received moves. -/
theorem Mirrors.add {r : Reassembler} {known : SampleKey → Option Assembly} {call : FragmentCall}
    (mirrors : ∀ key, r.Mirrors key (known key)) (inside : call.InRange) (key : SampleKey) :
    (r.add call).1.Mirrors key (Assembly.next key (known key) call) := by
  unfold Assembly.next
  by_cases fits : Assembly.Fits (known call.key) call
  · rcases add_fitting (mirrors call.key) fits inside with ⟨whole, payload, run, _⟩ | ⟨partly, p, agrees, run⟩
    · rw [run]
      have moved := (mirrors key).erase call.key
      by_cases same : call.key = key
      · subst same
        rw [if_pos rfl] at moved
        rwa [if_pos ⟨rfl, fits⟩, if_pos whole]
      · rw [if_neg same] at moved
        rwa [if_neg (fun both => same both.1)]
    · rw [run]
      have moved := @Mirrors.assign r key call.key _ _ _ (mirrors key) agrees
      by_cases same : call.key = key
      · subst same
        rw [if_pos rfl] at moved
        rwa [if_pos ⟨rfl, fits⟩, if_neg partly]
      · rw [if_neg same] at moved
        rwa [if_neg (fun both => same both.1)]
  · rw [add_refused (mirrors call.key) fits]
    have unfit : ¬ (call.key = key ∧ Assembly.Fits (known key) call) := by
      rintro ⟨rfl, fitting⟩
      exact fits fitting
    rw [if_neg unfit]
    exact mirrors key

/-- Calls one after the other. -/
def takeIn (r : Reassembler) (calls : List FragmentCall) : Reassembler := calls.foldl (fun r call => (r.add call).1) r

theorem Mirrors.takeIn {timeoutMs : Nat} {calls : List FragmentCall} (inside : ∀ call ∈ calls, call.InRange)
    (key : SampleKey) : (({ timeoutMs } : Reassembler).takeIn calls).Mirrors key (Assembly.received key calls) := by
  induction calls using List.reverseRecOn generalizing key with
  | nil => exact (rfl : ([] : List (SampleKey × Partial)).lookup key = none)
  | append_singleton calls call ih =>
    have before := ih (fun call member => inside call (List.mem_append_left _ member))
    unfold Reassembler.takeIn Assembly.received
    rw [List.foldl_concat, List.foldl_concat]
    exact Mirrors.add before (inside call (List.mem_append_right _ List.mem_cons_self)) key

/-- Reassembly of arbitrary fragments in range, of any samples and in any
order: every partial is what was received of its sample, a call with another
size changes nothing, a sample is delivered exactly when its bytes have all
arrived, and each byte delivered is the one that arrived last. -/
theorem reassembly_exact (timeoutMs : Nat) (calls : List FragmentCall) (inside : ∀ call ∈ calls, call.InRange) :
    let r := ({ timeoutMs } : Reassembler).takeIn calls
    (∀ key, r.Mirrors key (Assembly.received key calls)) ∧
    ∀ call : FragmentCall, call.InRange →
      let known := Assembly.received call.key calls
      (¬ Assembly.Fits known call → r.add call = (r, none)) ∧
      (Assembly.Fits known call → ((r.add call).2.isSome = true ↔ (Assembly.extend known call).Whole)) ∧
      ∀ payload, (r.add call).2 = some payload →
        payload.length = call.totalSize.toNat ∧
        ∀ i < payload.length, payload[i]? = Chunks.latest (Assembly.extend known call).chunks i := by
  intro r
  have mirrors := @Mirrors.takeIn timeoutMs calls inside
  refine ⟨mirrors, fun call within => ⟨add_refused (mirrors call.key), fun fits => ?_, fun payload delivered => ?_⟩⟩
  · rcases add_fitting (mirrors call.key) fits within with ⟨whole, payload, run, _⟩ | ⟨partly, _, _, run⟩
    · rw [run]
      exact iff_of_true rfl whole
    · rw [run]
      exact iff_of_false Bool.false_ne_true partly
  · by_cases fits : Assembly.Fits (Assembly.received call.key calls) call
    · rcases add_fitting (mirrors call.key) fits within with ⟨_, _, run, size, bytes⟩ | ⟨_, _, _, run⟩
      · rw [run] at delivered
        cases Option.some.inj delivered
        exact ⟨size, bytes⟩
      · rw [run] at delivered
        exact absurd delivered (by simp)
    · rw [add_refused (mirrors call.key) fits] at delivered
      exact absurd delivered (by simp)

/-- Three bytes, an empty fragment, one of another size, then two bytes that
contradict the first and complete the sample. -/
theorem reassembly_exact_conflicting :
    let piece (totalSize fragOffset : U32) (data : Bytes) (short : data.length < 2 ^ 32) : FragmentCall :=
      { writer := default, seq := 7, totalSize, fragOffset, data, short }
    let r := ({ timeoutMs := 5000 } : Reassembler).takeIn
      [piece 4 0 [1, 1, 1] (by decide), piece 4 2 [] (by decide), piece 5 0 [9] (by decide)]
    (r.add (piece 5 4 [9] (by decide))) = (r, none) ∧
    (r.add (piece 4 2 [2, 2] (by decide))).2.isSome = true := by
  intro piece r
  have exactly := reassembly_exact 5000
    [piece 4 0 [1, 1, 1] (by decide), piece 4 2 [] (by decide), piece 5 0 [9] (by decide)] (by decide)
  exact ⟨(exactly.2 (piece 5 4 [9] (by decide)) (by decide)).1 (by decide),
    ((exactly.2 (piece 4 2 [2, 2] (by decide)) (by decide)).2.1 (by decide)).mpr (by decide)⟩

/-- The record of the range check: the buffer into which the call copies its
bytes, none where it returns before. -/
def copyTarget (r : Reassembler) (call : FragmentCall) : Option Bytes :=
  if call.totalSize = 0 ∨ call.totalSize < call.fragOffset + BitVec.ofNat 32 call.data.length then none
  else
    let p := (r.partials.lookup call.key).getD
      { totalSize := call.totalSize, buffer := List.replicate call.totalSize.toNat 0, lastUpdate := call.now }
    if p.totalSize ≠ call.totalSize then none else some p.buffer

/-- Without a copy a call has no effect, and with one that buffer is overwritten. -/
theorem add_of_copyTarget (r : Reassembler) (call : FragmentCall) :
    (r.copyTarget call = none ∧ r.add call = (r, none)) ∨
    ∃ buffer p, r.copyTarget call = some buffer ∧ p.totalSize = call.totalSize ∧
      p.buffer = overwrite buffer call.fragOffset.toNat call.data ∧
      (r.add call = ({ r with partials := KeyedList.erase call.key r.partials }, some p.buffer) ∨
        r.add call = ({ r with partials := KeyedList.assign call.key p r.partials }, none)) := by
  unfold copyTarget add addFragment FragmentCall.key
  dsimp only
  split
  · exact Or.inl ⟨rfl, rfl⟩
  · split
    · exact Or.inl ⟨rfl, rfl⟩
    · rename_i same
      right
      generalize (r.partials.lookup (⟨call.writer, call.seq⟩ : SampleKey)).getD
        { totalSize := call.totalSize, buffer := List.replicate call.totalSize.toNat 0, lastUpdate := call.now } = p at *
      refine ⟨p.buffer, { p with
        buffer := overwrite p.buffer call.fragOffset.toNat call.data
        intervals := Intervals.insert
          (call.fragOffset.toNat, (call.fragOffset + BitVec.ofNat 32 call.data.length).toNat) p.intervals
        lastUpdate := call.now }, rfl, not_not.mp same, rfl, ?_⟩
      split
      · exact Or.inl rfl
      · exact Or.inr rfl

/-- The buffer of every partial has the announced size. -/
def Sized (r : Reassembler) : Prop := ∀ entry ∈ r.partials, entry.2.buffer.length = entry.2.totalSize.toNat

theorem Sized.copyTarget {r : Reassembler} {call : FragmentCall} {buffer : Bytes} (sized : r.Sized)
    (target : r.copyTarget call = some buffer) : buffer.length = call.totalSize.toNat := by
  unfold Reassembler.copyTarget at target
  split at target
  · simp at target
  · cases found : r.partials.lookup call.key with
    | none =>
      simp only [found, Option.getD_none, ne_eq, not_true_eq_false, if_false, Option.some.injEq] at target
      rw [← target, List.length_replicate]
    | some p =>
      simp only [found, Option.getD_some, ne_eq, ite_not] at target
      split at target
      · rename_i same
        rw [← Option.some.inj target, sized _ (KeyedList.mem_of_lookup found), same]
      · simp at target

/-- The calls of a reassembler: the two entry points of `add_fragment`, and
the two that only drop partials. -/
inductive Op
  | addFragment (call : FragmentCall)
  | addBody (frag : DataFragBody) (now : Nat) (short : frag.payload.length < 2 ^ 32)
  | sweepExpired (now : Nat)
  | dropWriter (writer : Guid)

def step (r : Reassembler) : Op → Reassembler
  | .addFragment call => (r.add call).1
  | .addBody frag now _ => (r.addBody frag now).1
  | .sweepExpired now => (r.sweepExpired now).1
  | .dropWriter writer => r.dropWriter writer

/-- The overload for a decoded fragment hands on its fields. -/
def callOf (frag : DataFragBody) (now : Nat) (short : frag.payload.length < 2 ^ 32) : FragmentCall :=
  { writer := frag.writer, seq := frag.seq, totalSize := frag.totalSize, fragOffset := frag.fragOffset
    data := frag.payload, now, short }

def Op.call? : Op → Option FragmentCall
  | .addFragment call => some call
  | .addBody frag now short => some (callOf frag now short)
  | _ => none

/-- A fragment out of range is rejected without effect, and an accepted one
is copied inside the buffer. -/
def RangeChecked (r : Reassembler) (call : FragmentCall) : Prop :=
  (¬ call.InRange → r.add call = (r, none)) ∧
    ∀ buffer, r.copyTarget call = some buffer → call.fragOffset.toNat + call.data.length ≤ buffer.length

/-- The end of the fragment wraps to one within the size, and nothing else
stands against it. -/
def Slips (r : Reassembler) (call : FragmentCall) : Prop :=
  call.totalSize ≠ 0 ∧ 2 ^ 32 ≤ call.fragOffset.toNat + call.data.length ∧
    call.fragOffset.toNat + call.data.length - 2 ^ 32 ≤ call.totalSize.toNat ∧
    ∀ p ∈ r.partials.lookup call.key, p.totalSize = call.totalSize

theorem copyTarget_isSome {r : Reassembler} {call : FragmentCall} : (r.copyTarget call).isSome = true ↔
    call.totalSize ≠ 0 ∧ (call.fragOffset.toNat + call.data.length) % 2 ^ 32 ≤ call.totalSize.toNat ∧
      ∀ p ∈ r.partials.lookup call.key, p.totalSize = call.totalSize := by
  have dataEnd : (call.fragOffset + BitVec.ofNat 32 call.data.length).toNat =
      (call.fragOffset.toNat + call.data.length) % 2 ^ 32 := by
    rw [BitVec.toNat_add, toNat_short call.short]
  unfold copyTarget
  by_cases rejected : call.totalSize = 0 ∨ call.totalSize < call.fragOffset + BitVec.ofNat 32 call.data.length
  · rw [if_pos rejected, Option.isSome_none]
    refine iff_of_false Bool.false_ne_true (fun ⟨sized, within, _⟩ => ?_)
    have beyond := rejected.resolve_left sized
    rw [BitVec.lt_def, dataEnd] at beyond
    omega
  · have passed : call.totalSize ≠ 0 ∧ (call.fragOffset.toNat + call.data.length) % 2 ^ 32 ≤ call.totalSize.toNat := by
      rw [not_or, BitVec.lt_def, dataEnd, Nat.not_lt] at rejected
      exact rejected
    rw [if_neg rejected]
    cases found : r.partials.lookup call.key with
    | none =>
      dsimp only [Option.getD_none]
      rw [if_neg (not_not_intro rfl)]
      exact iff_of_true rfl ⟨passed.1, passed.2, fun p unknown => absurd unknown (by simp)⟩
    | some p =>
      dsimp only [Option.getD_some]
      by_cases same : p.totalSize = call.totalSize
      · rw [if_neg (not_not_intro same)]
        refine iff_of_true rfl ⟨passed.1, passed.2, fun q known => ?_⟩
        rwa [← Option.some.inj known]
      · rw [if_pos same]
        exact iff_of_false Bool.false_ne_true (fun ⟨_, _, agrees⟩ => same (agrees p rfl))

theorem not_slips_of_inRange {r : Reassembler} {call : FragmentCall} (inside : call.InRange) : ¬ r.Slips call := by
  rintro ⟨_, wraps, _⟩
  have bound := call.totalSize.isLt
  unfold FragmentCall.InRange at inside
  omega

/-- Only a slip gets a fragment out of range past the check. -/
theorem copyTarget_of_not_slips {r : Reassembler} {call : FragmentCall} (fine : ¬ r.Slips call)
    (outside : ¬ call.InRange) : r.copyTarget call = none := by
  rw [← Option.not_isSome_iff_eq_none, copyTarget_isSome]
  rintro ⟨sized, within, agrees⟩
  have bound := call.fragOffset.isLt
  have short := call.short
  unfold FragmentCall.InRange at outside
  exact fine ⟨sized, by omega, by omega, agrees⟩

theorem Sized.rangeChecked_iff {r : Reassembler} (sized : r.Sized) (call : FragmentCall) :
    r.RangeChecked call ↔ ¬ r.Slips call := by
  constructor
  · rintro ⟨_, copied⟩ ⟨some_, wraps, within, agrees⟩
    have bound := call.totalSize.isLt
    have small := call.fragOffset.isLt
    have short := call.short
    obtain ⟨buffer, target⟩ := Option.isSome_iff_exists.mp
      (copyTarget_isSome.mpr ⟨some_, (by omega : _ % 2 ^ 32 ≤ _), agrees⟩)
    have fits := copied buffer target
    rw [sized.copyTarget target] at fits
    omega
  · intro fine
    by_cases inside : call.InRange
    · refine ⟨fun outside => absurd inside outside, fun buffer target => ?_⟩
      rw [sized.copyTarget target]
      exact inside
    · have none := copyTarget_of_not_slips fine inside
      refine ⟨fun _ => ?_, fun buffer target => absurd (none.symm.trans target) (by simp)⟩
      rcases r.add_of_copyTarget call with ⟨_, run⟩ | ⟨_, _, target, _⟩
      · exact run
      · exact absurd (none.symm.trans target) (by simp)

theorem Sized.add {r : Reassembler} {call : FragmentCall} (sized : r.Sized) (fine : ¬ r.Slips call) :
    (r.add call).1.Sized := by
  rcases r.add_of_copyTarget call with ⟨_, run⟩ | ⟨buffer, p, target, size, written, run⟩
  · rw [run]
    exact sized
  · have fits := ((sized.rangeChecked_iff call).mpr fine).2 buffer target
    have whole : p.buffer.length = p.totalSize.toNat := by
      rw [written, overwrite_length fits, sized.copyTarget target, size]
    rcases run with run | run
    · rw [run]
      exact fun entry member => sized entry (List.mem_of_mem_filter member)
    · rw [run]
      intro entry member
      rcases KeyedList.mem_of_mem_assign member with rfl | old
      · exact whole
      · exact sized entry old

theorem Sized.step {r : Reassembler} (sized : r.Sized) {op : Op} (fine : ∀ call ∈ op.call?, ¬ r.Slips call) :
    (r.step op).Sized := by
  cases op with
  | addFragment call => exact sized.add (fine call rfl)
  | addBody frag now short => exact @Sized.add r (callOf frag now short) sized (fine _ rfl)
  | sweepExpired now => exact fun entry member => sized entry (List.mem_of_mem_filter member)
  | dropWriter writer => exact fun entry member => sized entry (List.mem_of_mem_filter member)

theorem decodeDataFrag_inRange {frame : Bytes} {frag : DataFragBody} (decoded : decodeDataFrag frame = some frag) :
    frag.fragOffset.toNat + frag.payload.length ≤ frag.totalSize.toNat := by
  obtain ⟨⟨hdr, body⟩, _, rest⟩ := Option.bind_eq_some_iff.mp decoded
  dsimp only at rest
  split at rest
  · simp at rest
  · split at rest
    · simp at rest
    · rename_i inside
      cases Option.some.inj rest
      have cut := List.length_take_le (getU32 (body.drop 40)).toNat (body.drop kDataFragBodyFixedSize)
      dsimp only
      omega

/-- In any run of a reassembler the range check does its work exactly as long
as no end of a fragment wraps past it. Decoded fragments are always in range. -/
theorem range_check_iff (timeoutMs : Nat) (ops : List Op) :
    (Run.Along step (fun r op => ∀ call ∈ op.call?, r.RangeChecked call) { timeoutMs } ops ↔
      Run.Along step (fun r op => ∀ call ∈ op.call?, ¬ r.Slips call) { timeoutMs } ops) ∧
    ∀ frame frag now short, decodeDataFrag frame = some frag →
      (callOf frag now short).InRange ∧ ∀ r : Reassembler, ¬ r.Slips (callOf frag now short) := by
  constructor
  · refine @Run.along_iff_along _ _ step Sized _ _ (fun r op sized => ?_) (fun r op sized fine => sized.step fine)
      _ ops (fun entry member => absurd member List.not_mem_nil)
    exact forall₂_congr (fun call _ => sized.rangeChecked_iff call)
  · intro frame frag now short decoded
    have inside : (callOf frag now short).InRange := decodeDataFrag_inRange decoded
    exact ⟨inside, fun r => not_slips_of_inRange inside⟩

/-- Eight bytes announced at the last four places of the 32-bit range end at
4 again: they get past the check of a sample of ten bytes and beyond its buffer. -/
theorem range_check_wraps :
    let call : FragmentCall :=
      { writer := default, seq := 1, totalSize := 10, fragOffset := 0xFFFFFFFC, data := List.replicate 8 0,
        short := by decide }
    ¬ call.InRange ∧ ({} : Reassembler).add call ≠ ({}, none) ∧
      ∃ buffer, ({} : Reassembler).copyTarget call = some buffer ∧
        ¬ call.fragOffset.toNat + call.data.length ≤ buffer.length := by
  intro call
  refine ⟨by decide, fun same => ?_, List.replicate 10 0, by decide, by decide⟩
  have kept : ({} : Reassembler).partials.length = 1 :=
    (congrArg (fun result => result.1.partials.length) same).symm.trans (by decide)
  exact absurd kept (by decide)

end Reassembler

end Mdds
