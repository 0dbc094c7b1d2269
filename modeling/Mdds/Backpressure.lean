import Mdds.Lib.Expiry
import Mdds.Lib.Run
import Mdds.Writer

namespace Mdds

/-- One call of `write()` with the clock readings it makes: the publication
time, and the later one of the history sweep. -/
structure Write where
  pubTimeUs : U64
  data : Bytes
  now : U64

def Write.pubTimeMs (x : Write) : U64 := x.pubTimeUs / 1000

theorem lifespanExpired_mono {lifespanMs pubTimeMs now later : U64} (forward : now ≤ later)
    (expired : lifespanExpired lifespanMs pubTimeMs now = true) : lifespanExpired lifespanMs pubTimeMs later = true := by
  simp only [lifespanExpired, Bool.and_eq_true, decide_eq_true_eq] at expired ⊢
  exact ⟨expired.1, BitVec.le_trans expired.2 forward⟩

namespace WriterImpl

/-- A write the cache refuses leaves the writer as it is. -/
def write (w : WriterImpl) (x : Write) : WriterImpl := ((w.publish x.pubTimeUs x.data x.now).map Prod.fst).getD w

def pubTimes (w : WriterImpl) : List U64 := w.history.map CachedSample.pubTimeMs

/-- KEEP_ALL, with a history. -/
structure KeepsAll (w : WriterImpl) : Prop where
  all : w.qos.history = .keepAll
  caches : w.caches = true

/-- A rejection finds 256 samples cached and each of them alive. -/
def LiveBackpressure (w : WriterImpl) (x : Write) : Prop :=
  w.publish x.pubTimeUs x.data x.now = none →
    w.history.length = kKeepAllCap ∧ ∀ e ∈ w.history, lifespanExpired w.qos.lifespanMs e.pubTimeMs x.pubTimeMs = false

variable {w : WriterImpl} {x : Write}

theorem KeepsAll.cap (keeps : w.KeepsAll) : w.historyCap = kKeepAllCap := if_pos keeps.all

theorem KeepsAll.publish_full (keeps : w.KeepsAll) (full : kKeepAllCap ≤ w.history.length) :
    w.publish x.pubTimeUs x.data x.now = none := by
  have refused : w.qos.history = .keepAll ∧ w.historyCap ≤ w.history.length := ⟨keeps.all, keeps.cap ▸ full⟩
  simp only [publish, cacheSample, keeps.caches, Bool.not_true, Bool.false_eq_true, if_false, if_pos refused,
    Option.map_none]

theorem KeepsAll.publish_room (keeps : w.KeepsAll) (room : w.history.length < kKeepAllCap) :
    w.publish x.pubTimeUs x.data x.now ≠ none ∧ (w.write x).qos = w.qos ∧
      (w.write x).pubTimes =
        (w.pubTimes ++ [x.pubTimeMs]).dropWhile (fun p => lifespanExpired w.qos.lifespanMs p x.now) := by
  have short : ¬ (w.qos.history = .keepAll ∧ kKeepAllCap ≤ w.history.length) := fun both => absurd both.2 (by omega)
  have whole (sample : CachedSample) : (w.history ++ [sample]).length - kKeepAllCap = 0 := by
    rw [List.length_append, List.length_singleton]
    omega
  simp only [write, publish, cacheSample, keeps.caches, Bool.not_true, Bool.false_eq_true, if_false, keeps.cap,
    if_neg short, whole, List.drop_zero, Option.map_some, Option.getD_some]
  refine ⟨Option.some_ne_none _, trivial, ?_⟩
  have joined (sample : CachedSample) (at_ : sample.pubTimeMs = x.pubTimeMs) :
      w.pubTimes ++ [x.pubTimeMs] = (w.history ++ [sample]).map CachedSample.pubTimeMs := by
    rw [List.map_append, List.map_singleton, at_]
    rfl
  rw [joined ⟨w.seq + 1, x.pubTimeUs / 1000, x.pubTimeUs, x.data⟩ rfl, List.dropWhile_map]
  rfl

theorem KeepsAll.write_full (keeps : w.KeepsAll) (full : kKeepAllCap ≤ w.history.length) : w.write x = w := by
  rw [write, keeps.publish_full full]
  rfl

theorem KeepsAll.write (keeps : w.KeepsAll) (x : Write) : (w.write x).KeepsAll ∧ (w.write x).qos = w.qos := by
  have same : (w.write x).qos = w.qos := by
    by_cases room : w.history.length < kKeepAllCap
    · exact (keeps.publish_room room).2.1
    · rw [keeps.write_full (by omega)]
  refine ⟨⟨by rw [same]; exact keeps.all, ?_⟩, same⟩
  unfold WriterImpl.caches
  rw [same]
  exact keeps.caches

end WriterImpl

/-- The last of the writes sweeps while the write 255 places before it is
alive: 256 writes within one lifespan. -/
def Fills (lifespanMs : U64) (writes : List Write) : Prop :=
  kKeepAllCap ≤ writes.length ∧ ∃ oldest ∈ writes[writes.length - kKeepAllCap]?, ∃ last ∈ writes.getLast?,
    lifespanExpired lifespanMs oldest.pubTimeMs last.now = false

/-- What the last of the writes sweeps would leave of all of them. -/
theorem Fills.le_length {lifespanMs : U64} {writes : List Write} {x : Write} (fills : Fills lifespanMs (writes ++ [x])) :
    kKeepAllCap ≤
      (((writes ++ [x]).map Write.pubTimeMs).dropWhile (fun p => lifespanExpired lifespanMs p x.now)).length := by
  obtain ⟨enough, oldest, found, last, ends, live⟩ := fills
  rw [List.getLast?_concat, Option.mem_some_iff] at ends
  subst ends
  have there : ((writes ++ [x]).map Write.pubTimeMs)[(writes ++ [x]).length - kKeepAllCap]? = some oldest.pubTimeMs := by
    rw [List.getElem?_map, Option.mem_def.mp found]
    rfl
  have kept := @Expiry.le_length_dropWhile _ (fun p => lifespanExpired lifespanMs p x.now) _ _ _ there live
  rw [List.length_map] at kept
  omega

theorem fills_of_length {lifespanMs : U64} {writes : List Write} {x : Write}
    (left : (((writes ++ [x]).map Write.pubTimeMs).dropWhile
      (fun p => lifespanExpired lifespanMs p x.now)).length = kKeepAllCap) : Fills lifespanMs (writes ++ [x]) := by
  obtain ⟨enough, at_, found, live⟩ := Expiry.exists_live_of_length (by decide) left
  rw [List.length_map] at enough found
  rw [List.getElem?_map] at found
  obtain ⟨oldest, there, rfl⟩ := Option.map_eq_some_iff.mp found
  exact ⟨enough, oldest, there, x, List.getLast?_concat, live⟩

/-- The writes up to the first one that makes 256 within one lifespan. -/
def FirstFill (lifespanMs : U64) (writes : List Write) : Prop :=
  Fills lifespanMs writes ∧ ∀ shorter, shorter <+: writes → Fills lifespanMs shorter → shorter = writes

/-- Once 256 writes came within one lifespan, every later write comes before
the first of them expires. -/
def Outlived (lifespanMs : U64) (writes : List Write) : Prop :=
  ∀ first x, first ++ [x] <+: writes → ∀ before, before <+: first → FirstFill lifespanMs before →
    ∀ y ∈ before.drop (before.length - kKeepAllCap), lifespanExpired lifespanMs y.pubTimeMs x.pubTimeMs = false

namespace WriterImpl

/-- So far every write was accepted: a later sweep finds of all writes what
it would find had none been swept before. -/
structure Filling (w : WriterImpl) (writes : List Write) : Prop where
  unfilled : ∀ before, before <+: writes → ¬ Fills w.qos.lifespanMs before
  room : w.history.length < kKeepAllCap
  swept : ∀ now, (∀ x ∈ writes, x.now ≤ now) →
    w.pubTimes.dropWhile (fun p => lifespanExpired w.qos.lifespanMs p now) =
      (writes.map Write.pubTimeMs).dropWhile (fun p => lifespanExpired w.qos.lifespanMs p now)

/-- The history is full with the last 256 of the writes. -/
structure Filled (w : WriterImpl) (before : List Write) : Prop where
  fills : FirstFill w.qos.lifespanMs before
  holds : w.pubTimes = (before.drop (before.length - kKeepAllCap)).map Write.pubTimeMs

theorem Filled.length {w : WriterImpl} {before : List Write} (filled : w.Filled before) :
    w.history.length = kKeepAllCap := by
  have enough := filled.fills.1.1
  have size := congrArg List.length filled.holds
  rw [pubTimes, List.length_map, List.length_map, List.length_drop] at size
  omega

/-- A write into a history with room keeps it so, or is the first to fill it. -/
theorem Filling.write {w : WriterImpl} {writes : List Write} {x : Write} (filling : w.Filling writes) (keeps : w.KeepsAll)
    (forward : ∀ y ∈ writes, y.now ≤ x.now) : (w.write x).Filling (writes ++ [x]) ∨ (w.write x).Filled (writes ++ [x]) := by
  obtain ⟨_, sameQos, history⟩ := keeps.publish_room (x := x) filling.room
  have permanent {now : U64} (after : x.now ≤ now) (p : U64) :
      lifespanExpired w.qos.lifespanMs p x.now = true → lifespanExpired w.qos.lifespanMs p now = true :=
    lifespanExpired_mono after
  have self (now p : U64) : lifespanExpired w.qos.lifespanMs p now = true →
      lifespanExpired w.qos.lifespanMs p now = true := id
  -- What a sweep at `now` leaves of the history and the new sample together.
  have joined (now : U64) (later : ∀ y ∈ writes, y.now ≤ now) :
      (w.pubTimes ++ [x.pubTimeMs]).dropWhile (fun p => lifespanExpired w.qos.lifespanMs p now) =
        ((writes ++ [x]).map Write.pubTimeMs).dropWhile (fun p => lifespanExpired w.qos.lifespanMs p now) := by
    rw [← Expiry.dropWhile_append_of_imp (self now), filling.swept now later, Expiry.dropWhile_append_of_imp (self now),
      List.map_append, List.map_singleton]
  have current := history.trans (joined x.now forward)
  have size : (w.write x).history.length = (w.write x).pubTimes.length := (List.length_map _).symm
  have bound : (w.write x).history.length ≤ kKeepAllCap := by
    have shorter : ((w.pubTimes ++ [x.pubTimeMs]).dropWhile _).length ≤ _ :=
      (List.dropWhile_sublist (fun p => lifespanExpired w.qos.lifespanMs p x.now)).length_le
    rw [← history, ← size, List.length_append, List.length_singleton, pubTimes, List.length_map] at shorter
    have room := filling.room
    omega
  have noEarlier : ∀ shorter, shorter <+: writes ++ [x] → Fills w.qos.lifespanMs shorter → shorter = writes ++ [x] := by
    intro shorter inside fills
    rcases List.prefix_concat_iff.mp inside with same | earlier
    · exact same
    · exact absurd fills (filling.unfilled shorter earlier)
  by_cases full : (w.write x).history.length = kKeepAllCap
  · right
    rw [size, current] at full
    have tail := @Expiry.dropWhile_eq_drop _ (fun p => lifespanExpired w.qos.lifespanMs p x.now)
      ((writes ++ [x]).map Write.pubTimeMs)
    rw [full, List.length_map, ← List.map_drop] at tail
    refine ⟨⟨?_, ?_⟩, current.trans tail⟩
    · rw [sameQos]
      exact fills_of_length full
    · rw [sameQos]
      exact noEarlier
  · left
    refine ⟨fun before inside fills => ?_, by omega, fun now later => ?_⟩
    · rw [sameQos] at fills
      obtain rfl := noEarlier before inside fills
      have kept := fills.le_length
      rw [← current, ← size] at kept
      omega
    · have after : x.now ≤ now := later x (List.mem_append_right _ List.mem_cons_self)
      rw [sameQos, history, ← List.append_nil (List.dropWhile _ (_ ++ _)), Expiry.dropWhile_append_of_imp (permanent after),
        List.append_nil]
      exact joined now (fun y inside => later y (List.mem_append_left _ inside))

/-- After any writes the history either has room, or is full with the 256
that came up to the first fill. -/
theorem exec_phase {w : WriterImpl} {writes : List Write} (keeps : w.KeepsAll) (empty : w.history = [])
    (forward : writes.Pairwise (fun a b => a.now ≤ b.now)) :
    let after := Run.exec write w writes
    after.KeepsAll ∧ after.qos = w.qos ∧ (after.Filling writes ∨ ∃ before, before <+: writes ∧ after.Filled before) := by
  induction writes using List.reverseRecOn with
  | nil =>
    refine ⟨keeps, rfl, Or.inl ⟨fun before inside fills => ?_, ?_, fun now _ => ?_⟩⟩
    · rw [List.prefix_nil.mp inside] at fills
      exact absurd fills.1 (by decide)
    · rw [Run.exec_nil, empty]
      decide
    · rw [Run.exec_nil, pubTimes, empty]
      rfl
  | append_singleton writes x ih =>
    obtain ⟨earlier, _, last⟩ := List.pairwise_append.mp forward
    obtain ⟨still, sameQos, phase⟩ := ih earlier
    obtain ⟨next, nextQos⟩ := still.write x
    dsimp only
    rw [Run.exec_snoc]
    refine ⟨next, nextQos.trans sameQos, ?_⟩
    rcases phase with filling | ⟨before, inside, filled⟩
    · rcases filling.write still (fun y inside => last y inside x List.mem_cons_self) with more | now
      · exact Or.inl more
      · exact Or.inr ⟨_, List.prefix_refl _, now⟩
    · rw [still.write_full filled.length.ge]
      exact Or.inr ⟨before, inside.trans (List.prefix_append ..), filled⟩

/-- One write: a full history holds the 256 writes of the first fill. -/
theorem liveBackpressure_iff {w : WriterImpl} {writes : List Write} {x : Write} (keeps : w.KeepsAll)
    (phase : w.Filling writes ∨ ∃ before, before <+: writes ∧ w.Filled before) :
    w.LiveBackpressure x ↔ ∀ before, before <+: writes → FirstFill w.qos.lifespanMs before →
      ∀ y ∈ before.drop (before.length - kKeepAllCap),
        lifespanExpired w.qos.lifespanMs y.pubTimeMs x.pubTimeMs = false := by
  rcases phase with filling | ⟨filler, inside, filled⟩
  · refine iff_of_true (fun rejected => absurd rejected (keeps.publish_room filling.room).1) ?_
    exact fun before inside first => absurd first.1 (filling.unfilled before inside)
  · have cached : (∀ e ∈ w.history, lifespanExpired w.qos.lifespanMs e.pubTimeMs x.pubTimeMs = false) ↔
        ∀ y ∈ filler.drop (filler.length - kKeepAllCap),
          lifespanExpired w.qos.lifespanMs y.pubTimeMs x.pubTimeMs = false := by
      have same := congrArg (fun times : List U64 => ∀ p ∈ times, lifespanExpired w.qos.lifespanMs p x.pubTimeMs = false)
        filled.holds
      simpa only [pubTimes, List.forall_mem_map, eq_iff_iff] using same
    constructor
    · intro live before earlier first
      have alive := cached.mp (live (keeps.publish_full filled.length.ge)).2
      -- Both fills are first, so neither goes beyond the other.
      rcases List.prefix_or_prefix_of_prefix earlier inside with shorter | longer
      · rwa [filled.fills.2 before shorter first.1]
      · rwa [← first.2 filler longer filled.fills.1]
    · exact fun outlived _ => ⟨filled.length, cached.mpr (outlived filler inside filled.fills)⟩

/-- Over any run of writes on a KEEP_ALL writer, rejections come from live
samples alone exactly if no sample of a full history expires before a write. -/
theorem live_backpressure_iff {qos : QosProfile} (guid : Guid) (topic type : Bytes) (birthUs : U64) {writes : List Write}
    (keepAll : qos.history = .keepAll) (kept : qos.reliability = .reliable ∨ qos.durability = .transientLocal)
    (forward : writes.Pairwise (fun a b => a.now ≤ b.now)) :
    Run.Along write LiveBackpressure { guid, topic, type, qos, birthUs } writes ↔ Outlived qos.lifespanMs writes := by
  have keeps : ({ guid, topic, type, qos, birthUs } : WriterImpl).KeepsAll := by
    refine ⟨keepAll, ?_⟩
    simpa only [caches, Bool.or_eq_true, decide_eq_true_eq] using kept
  rw [Run.along_iff_forall]
  refine forall₃_congr (fun first x inside => ?_)
  have before := forward.sublist ((List.prefix_append first [x]).trans inside).sublist
  obtain ⟨still, sameQos, phase⟩ := exec_phase keeps rfl before
  rw [liveBackpressure_iff still phase, sameQos]

theorem not_fills_of_short {lifespanMs : U64} {writes : List Write} (short : writes.length < kKeepAllCap) :
    ¬ Fills lifespanMs writes := fun fills => absurd fills.1 (by omega)

/-- 256 writes in one instant, and one ten seconds later: all samples expired
long ago and the write is rejected still. -/
theorem full_history_rejects_forever :
    ¬ Run.Along write LiveBackpressure
      { guid := default, topic := [], type := [], qos := { history := .keepAll, lifespanMs := 10 } }
      (List.replicate 256 ⟨10000000, [], 10000⟩ ++ [⟨20000000, [], 20000⟩]) := by
  intro along
  have size : (List.replicate 256 (⟨10000000, [], 10000⟩ : Write)).length = kKeepAllCap := List.length_replicate
  have forward : (List.replicate 256 (⟨10000000, [], 10000⟩ : Write)).Pairwise (fun a b => a.now ≤ b.now) :=
    List.pairwise_replicate.mpr (Or.inr (BitVec.le_refl _))
  have last := Run.along_iff_forall.mp along _ _ (List.prefix_refl _)
  obtain ⟨still, sameQos, phase⟩ := @exec_phase
    { guid := default, topic := [], type := [], qos := { history := .keepAll, lifespanMs := 10 } } _ ⟨rfl, rfl⟩ rfl forward
  have fills : FirstFill 10 (List.replicate 256 ⟨10000000, [], 10000⟩) := by
    refine ⟨⟨size.ge, ⟨10000000, [], 10000⟩, ?_, ⟨10000000, [], 10000⟩, ?_, by decide⟩, fun shorter inside full => ?_⟩
    · rw [size]
      exact List.getElem?_replicate_of_lt (by decide)
    · exact List.getLast?_replicate.trans (if_neg (by decide))
    · exact inside.eq_of_length_le (size.trans_le full.1)
  have early : (⟨10000000, [], 10000⟩ : Write) ∈ List.replicate 256 ⟨10000000, [], 10000⟩ :=
    List.mem_replicate.mpr ⟨by decide, rfl⟩
  have outlived := (liveBackpressure_iff still phase).mp last
  rw [sameQos] at outlived
  have alive := outlived _ (List.prefix_refl _) fills ⟨10000000, [], 10000⟩
    (by rw [size, Nat.sub_self, List.drop_zero]; exact early)
  exact absurd alive (by decide)

/-- Two writes of which the first expires before the second. -/
theorem live_backpressure_two_writes :
    Run.Along write LiveBackpressure
      { guid := default, topic := [], type := [], qos := { history := .keepAll, lifespanMs := 10 } }
      [⟨10000000, [], 10000⟩, ⟨20000000, [], 20000⟩] := by
  refine (@live_backpressure_iff { history := .keepAll, lifespanMs := 10 } default [] [] 0
    [⟨10000000, [], 10000⟩, ⟨20000000, [], 20000⟩] rfl (Or.inl rfl) (by decide)).mpr ?_
  intro first x inside before earlier fill
  have short := (earlier.trans ((List.prefix_append first [x]).trans inside)).length_le
  exact absurd fill.1 (not_fills_of_short (Nat.lt_of_le_of_lt short (by decide)))

end WriterImpl

end Mdds
