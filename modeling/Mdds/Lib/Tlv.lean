import Mathlib.Algebra.Ring.Nat
import Mathlib.Data.List.Induction

/- Streams of entries, each with a type byte, a length byte and a value of
that length. A scanner of such a stream folds its entries up to the first one
that is cut off. -/

namespace Tlv
universe u

structure Entry where
  type : BitVec 8
  value : List (BitVec 8)
  short : value.length < 2 ^ 8

/-- The length byte. -/
def Entry.size (e : Entry) : BitVec 8 := BitVec.ofNat 8 e.value.length

def Entry.bytes (e : Entry) : List (BitVec 8) := e.type :: e.size :: e.value

theorem Entry.toNat_size (e : Entry) : e.size.toNat = e.value.length := by
  rw [size, BitVec.toNat_ofNat, Nat.mod_eq_of_lt e.short]

def encode (entries : List Entry) : List (BitVec 8) := entries.flatMap Entry.bytes

/-- There is no other whole entry: the length byte is missing, or there are
fewer bytes than it declares. -/
def Truncated : List (BitVec 8) → Prop
  | _ :: size :: rest => rest.length < size.toNat
  | _ => True

instance : ∀ bytes, Decidable (Truncated bytes)
  | _ :: size :: rest => inferInstanceAs (Decidable (rest.length < size.toNat))
  | [_] => isTrue trivial
  | [] => isTrue trivial

/-- Every stream consists of whole entries and a truncated rest. -/
theorem exists_encode (bytes : List (BitVec 8)) : ∃ entries rest, Truncated rest ∧ bytes = encode entries ++ rest := by
  match bytes with
  | [] => exact ⟨[], [], trivial, rfl⟩
  | [only] => exact ⟨[], [only], trivial, rfl⟩
  | type :: size :: behind =>
    by_cases cut : behind.length < size.toNat
    · exact ⟨[], type :: size :: behind, cut, rfl⟩
    · have length : (behind.take size.toNat).length = size.toNat := by
        rw [List.length_take]
        omega
      have short : (behind.take size.toNat).length < 2 ^ 8 := by
        rw [length]
        exact size.isLt
      obtain ⟨entries, rest, truncated, split⟩ := exists_encode (behind.drop size.toNat)
      refine ⟨⟨type, behind.take size.toNat, short⟩ :: entries, rest, truncated, ?_⟩
      rw [encode, List.flatMap_cons, Entry.bytes, Entry.size, length, BitVec.ofNat_toNat, BitVec.setWidth_eq,
        List.append_assoc, ← encode, ← split, List.cons_append, List.cons_append, List.take_append_drop]
termination_by bytes.length
decreasing_by
  simp only [List.length_drop, List.length_cons]
  omega

/-- How a scanner takes whole entries, and where it stops. -/
structure Scans {σ : Type u} (scan : List (BitVec 8) → σ → Bool × σ) (step : σ → Entry → σ) : Prop where
  entry : ∀ e behind s, scan (e.bytes ++ behind) s = scan behind (step s e)
  stop : ∀ rest s, Truncated rest → scan rest s = (rest.isEmpty, s)

namespace Scans
variable {σ : Type u} {scan : List (BitVec 8) → σ → Bool × σ} {step : σ → Entry → σ}

/-- Whole entries are folded, whatever follows them. -/
theorem encode (scans : Scans scan step) (entries : List Entry) (behind : List (BitVec 8)) (s : σ) :
    scan (Tlv.encode entries ++ behind) s = scan behind (entries.foldl step s) := by
  induction entries generalizing s with
  | nil => rfl
  | cons e rest ih =>
    rw [Tlv.encode, List.flatMap_cons, List.append_assoc, scans.entry, List.foldl_cons, ← ih]
    rfl

theorem truncated (scans : Scans scan step) (entries : List Entry) {rest : List (BitVec 8)} (cut : Truncated rest) (s : σ) :
    scan (Tlv.encode entries ++ rest) s = (rest.isEmpty, entries.foldl step s) := by
  rw [scans.encode, scans.stop rest _ cut]

/-- Entries without effect may stand anywhere. -/
theorem skips (scans : Scans scan step) {inserted : List Entry} (idle : ∀ e ∈ inserted, ∀ s, step s e = s)
    (first others : List Entry) (behind : List (BitVec 8)) (s : σ) :
    scan (Tlv.encode (first ++ inserted ++ others) ++ behind) s = scan (Tlv.encode (first ++ others) ++ behind) s := by
  have still (s : σ) : inserted.foldl step s = s := by
    induction inserted generalizing s with
    | nil => rfl
    | cons e rest ih =>
      rw [List.foldl_cons, idle e List.mem_cons_self, ih (fun e member => idle e (List.mem_cons_of_mem _ member))]
  rw [scans.encode, scans.encode, List.foldl_append, List.foldl_append, List.foldl_append, still]

end Scans

/-- The entry has this type and a value of this size. -/
def Entry.Is (type : BitVec 8) (size : Nat) (e : Entry) : Prop := e.type = type ∧ e.value.length = size

instance (type : BitVec 8) (size : Nat) (e : Entry) : Decidable (e.Is type size) :=
  inferInstanceAs (Decidable (_ ∧ _))

/-- The value of the last entry of one type and size. -/
def last (type : BitVec 8) (size : Nat) (entries : List Entry) : Option (List (BitVec 8)) :=
  ((entries.filter (fun e => e.Is type size)).getLast?).map Entry.value

variable {type : BitVec 8} {size : Nat} {entries : List Entry} {e : Entry}

theorem last_concat :
    last type size (entries ++ [e]) = if e.Is type size then some e.value else last type size entries := by
  unfold last
  rw [List.filter_append, List.filter_cons, List.filter_nil]
  by_cases here : e.Is type size
  · rw [if_pos (decide_eq_true here), if_pos here, List.getLast?_concat]
    rfl
  · rw [if_neg (by rwa [decide_eq_true_eq]), if_neg here, List.append_nil]

theorem last_isSome : (last type size entries).isSome = true ↔ ∃ e ∈ entries, e.Is type size := by
  rw [last, Option.isSome_map, List.getLast?_isSome, ne_eq, List.filter_eq_nil_iff]
  simp only [decide_eq_true_eq, not_forall, not_not, exists_prop]

end Tlv
