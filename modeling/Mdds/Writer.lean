import Mathlib.Algebra.Order.Group.Nat
import Mathlib.Data.List.Basic
import Mdds.Qos

namespace Mdds

/-- One published sample as the writer history keeps it; both timestamps are
the same instant. -/
structure CachedSample where
  seq : U64
  pubTimeMs : U64
  pubTimeUs : U64
  data : Bytes
  deriving DecidableEq

structure WriterImpl where
  guid : Guid
  topic : Bytes
  type : Bytes
  qos : QosProfile
  birthUs : U64 := 0
  matchedCount : Nat := 0
  seq : U64 := 0
  history : List CachedSample := []

def kKeepAllCap : Nat := 256

namespace WriterImpl

/-- Only reliable or transient-local writers keep a history. -/
def caches (w : WriterImpl) : Bool :=
  w.qos.reliability = .reliable || w.qos.durability = .transientLocal

def historyCap (w : WriterImpl) : Nat :=
  if w.qos.history = .keepAll then kKeepAllCap else max w.qos.depth.toNat 1

/-- `cache_sample`: `none` is the rejection of a full KEEP_ALL history. -/
def cacheSample (w : WriterImpl) (sample : CachedSample) (now : U64) : Option WriterImpl :=
  if !w.caches then some w
  else if w.qos.history = .keepAll ∧ w.historyCap ≤ w.history.length then none
  else
    let pushed := w.history ++ [sample]
    let capped := pushed.drop (pushed.length - w.historyCap)
    some { w with
      history := capped.dropWhile (fun e => lifespanExpired w.qos.lifespanMs e.pubTimeMs now) }

/-- The part of `write_sample` on the writer under the lock: claim the next
seq, cache the sample, and store the seq unless the cache refused. -/
def publish (w : WriterImpl) (pubTimeUs : U64) (data : Bytes) (now : U64) : Option (WriterImpl × CachedSample) :=
  let sample : CachedSample := ⟨w.seq + 1, pubTimeUs / 1000, pubTimeUs, data⟩
  (w.cacheSample sample now).map (fun cached => ({ cached with seq := w.seq + 1 }, sample))

/-- The cached samples a replay hands out. -/
def replayable (w : WriterImpl) (now : U64) : List CachedSample :=
  w.history.filter (fun e => !lifespanExpired w.qos.lifespanMs e.pubTimeMs now)

/-- The history holds the most recent seqs without a hole. -/
structure Contiguous (w : WriterImpl) : Prop where
  seqs : w.history.map (fun e => e.seq.toNat) = List.range' (w.seq.toNat + 1 - w.history.length) w.history.length
  bounded : w.history.length ≤ w.seq.toNat
  cached : w.caches = false → w.history = []

theorem Contiguous.initial (guid : Guid) (topic type : Bytes) (qos : QosProfile) (birthUs : U64) :
    ({ guid, topic, type, qos, birthUs } : WriterImpl).Contiguous :=
  ⟨rfl, Nat.zero_le _, fun _ => rfl⟩

theorem suffix_range' {α : Type} {f : α → Nat} {whole rest : List α} {first : Nat}
    (numbered : whole.map f = List.range' first whole.length) (suffix : rest <:+ whole) :
    rest.map f = List.range' (first + whole.length - rest.length) rest.length := by
  obtain ⟨front, rfl⟩ := suffix
  rw [List.map_append, List.length_append, ← List.range'_append_1] at numbered
  have same := (List.append_inj numbered (by simp)).2
  rw [same, List.length_append]
  congr 1
  omega

/-- Everything `publish` can do: a best-effort volatile writer only counts,
any other accepted write appends and then drops from the front. -/
theorem publish_cases {w next : WriterImpl} {pubTimeUs now : U64} {data : Bytes} {sample : CachedSample}
    (accepted : w.publish pubTimeUs data now = some (next, sample)) :
    sample = ⟨w.seq + 1, pubTimeUs / 1000, pubTimeUs, data⟩ ∧
    ((w.caches = false ∧ next = { w with seq := w.seq + 1 }) ∨
      (w.caches = true ∧ ∃ history, history <:+ w.history ++ [sample] ∧ history.length ≤ w.historyCap ∧
        next = { w with seq := w.seq + 1, history })) := by
  obtain ⟨cached, run, same⟩ := Option.map_eq_some_iff.mp accepted
  obtain ⟨rfl, rfl⟩ := Prod.mk.inj same
  refine ⟨rfl, ?_⟩
  unfold cacheSample at run
  cases caches : w.caches with
  | false =>
    simp only [caches, Bool.not_false, if_true, Option.some.injEq] at run
    exact Or.inl ⟨rfl, by rw [run]⟩
  | true =>
    simp only [caches, Bool.not_true, Bool.false_eq_true, if_false] at run
    split at run
    · simp at run
    · cases Option.some.inj run
      refine Or.inr ⟨rfl, _, (List.dropWhile_suffix _).trans (List.drop_suffix _ _), ?_, rfl⟩
      refine Nat.le_trans (List.dropWhile_suffix _).length_le ?_
      rw [List.length_drop]
      omega

theorem publish_guid {w next : WriterImpl} {pubTimeUs now : U64} {data : Bytes} {sample : CachedSample}
    (accepted : w.publish pubTimeUs data now = some (next, sample)) :
    next.guid = w.guid ∧ next.topic = w.topic ∧ next.type = w.type ∧ next.qos = w.qos ∧ next.seq = w.seq + 1 := by
  obtain ⟨_, ⟨_, rfl⟩ | ⟨_, _, _, _, rfl⟩⟩ := publish_cases accepted
  · exact ⟨rfl, rfl, rfl, rfl, rfl⟩
  · exact ⟨rfl, rfl, rfl, rfl, rfl⟩

theorem publish_seq_le {w next : WriterImpl} {pubTimeUs now : U64} {data : Bytes} {sample : CachedSample}
    (accepted : w.publish pubTimeUs data now = some (next, sample)) : next.seq.toNat ≤ w.seq.toNat + 1 := by
  rw [(publish_guid accepted).2.2.2.2, BitVec.toNat_add]
  exact Nat.mod_le _ _

theorem Contiguous.publish {w next : WriterImpl} {pubTimeUs now : U64} {data : Bytes} {sample : CachedSample}
    (old : w.Contiguous) (room : w.seq.toNat + 1 < 2 ^ 64)
    (accepted : w.publish pubTimeUs data now = some (next, sample)) : next.Contiguous := by
  have moved : (w.seq + 1).toNat = w.seq.toNat + 1 := by bv_omega
  obtain ⟨same, ⟨caches, rfl⟩ | ⟨caches, history, suffix, _, rfl⟩⟩ := publish_cases accepted
  · have empty := old.cached caches
    exact ⟨by simp [empty], by simp [empty], fun _ => empty⟩
  · have numbered : (w.history ++ [sample]).map (fun e => e.seq.toNat) =
        List.range' (w.seq.toNat + 1 - w.history.length) (w.history ++ [sample]).length := by
      rw [List.map_append, old.seqs, List.length_append, List.length_singleton, List.range'_concat]
      have bound := old.bounded
      simp only [same, List.map_cons, List.map_nil, moved, List.append_cancel_left_eq, List.cons.injEq, and_true]
      omega
    have rest := suffix_range' numbered suffix
    have length := suffix.length_le
    have bound := old.bounded
    rw [List.length_append, List.length_singleton] at length
    refine ⟨?_, ?_, fun none => ?_⟩
    · simp only [moved]
      rw [rest]
      congr 1
      simp only [List.length_append, List.length_singleton]
      omega
    · simp only [moved]
      omega
    · exact absurd (caches.symm.trans none) (by decide)

theorem Contiguous.mem_seq {w : WriterImpl} (contiguous : w.Contiguous) {s : Nat} :
    (∃ e ∈ w.history, e.seq.toNat = s) ↔ w.seq.toNat < s + w.history.length ∧ s ≤ w.seq.toNat := by
  have bound := contiguous.bounded
  rw [← List.mem_map, contiguous.seqs, List.mem_range'_1]
  omega

end WriterImpl

end Mdds
