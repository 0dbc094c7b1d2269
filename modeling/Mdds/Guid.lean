import Mathlib.Algebra.Ring.Nat
import Mathlib.Data.List.Basic

namespace Mdds

/- The fixed-width integers of the code; arithmetic on them wraps as it does there. -/
abbrev Byte := BitVec 8
abbrev U16 := BitVec 16
abbrev U32 := BitVec 32
abbrev U64 := BitVec 64

/-- Payloads, names and every other byte string of the code (`std::string`
and `std::vector<uint8_t>` carry no encoding). -/
abbrev Bytes := List Byte

/-- A transport-level peer handle, opaque above the transport. -/
abbrev PeerId := U64

/-- Peers are told apart by their handles. -/
instance : LawfulBEq PeerId := inferInstance

/-- Sixteen bytes: a twelve-byte participant part, the entity kind and a
three-byte serial. -/
structure Guid where
  bytes : Bytes
  size : bytes.length = 16
  deriving DecidableEq

instance : Inhabited Guid := ⟨⟨List.replicate 16 0, rfl⟩⟩

instance : LT Guid := ⟨fun a b => a.bytes < b.bytes⟩
instance : DecidableLT Guid := fun a b => inferInstanceAs (Decidable (a.bytes < b.bytes))

/-- A raw enumerator byte beyond the named values. The announce decoder
casts whatever byte the wire carries, so remote records can hold one. -/
abbrev OutOfRange (named : Nat) := {raw : Byte // named ≤ raw.toNat}

inductive EntityKind
  | participant
  | writer
  | reader
  | other (raw : OutOfRange 3)
  deriving DecidableEq

def EntityKind.code : EntityKind → Byte
  | participant => 0
  | writer => 1
  | reader => 2
  | other raw => raw.val

/-- The random part every entity of one participant shares. -/
structure GuidPrefix where
  bytes : Bytes
  size : bytes.length = 12
  deriving DecidableEq

/-- Only the low three bytes of the serial enter the identifier. -/
def makeGuid (owner : GuidPrefix) (kind : EntityKind) (serial : U32) : Guid where
  bytes := owner.bytes ++ [kind.code, (serial >>> 16).setWidth 8, (serial >>> 8).setWidth 8, serial.setWidth 8]
  size := by simp [owner.size]

/-- The enumerators are distinct bytes, also those beyond the named ones. -/
theorem EntityKind.code_injective {kind other : EntityKind} (same : kind.code = other.code) : kind = other := by
  have beyond (raw : OutOfRange 3) {named : Byte} (small : named.toNat < 3) : raw.val ≠ named := by
    intro equal
    have bound := raw.property
    rw [equal] at bound
    omega
  cases kind with
  | other raw =>
    cases other with
    | other next => exact congrArg EntityKind.other (Subtype.ext same)
    | _ => exact absurd same (beyond raw (by decide))
  | _ =>
    cases other with
    | other next => exact absurd same.symm (beyond next (by decide))
    | _ => first | rfl | exact absurd same (by decide)

/-- Two GUIDs of one participant are equal exactly if the kinds are and the
serials agree in the three bytes that enter. -/
theorem makeGuid_eq_iff {owner : GuidPrefix} {kind other : EntityKind} {serial later : U32} :
    makeGuid owner kind serial = makeGuid owner other later ↔
      kind = other ∧ serial.toNat % 2 ^ 24 = later.toNat % 2 ^ 24 := by
  have bytes (x : U32) : x.toNat % 2 ^ 24 = ((x >>> 16).setWidth 8).toNat * 2 ^ 16 +
      ((x >>> 8).setWidth 8).toNat * 2 ^ 8 + (x.setWidth 8).toNat := by
    simp only [BitVec.toNat_setWidth, BitVec.toNat_ushiftRight, Nat.shiftRight_eq_div_pow]
    omega
  constructor
  · intro same
    have tails := List.append_cancel_left (Guid.mk.inj same)
    simp only [List.cons.injEq, and_true] at tails
    obtain ⟨code, high, middle, low⟩ := tails
    exact ⟨EntityKind.code_injective code, by rw [bytes, bytes, high, middle, low]⟩
  · rintro ⟨rfl, same⟩
    rw [bytes, bytes] at same
    have digits (x : U32) : ((x >>> 16).setWidth 8 : Byte).toNat < 2 ^ 8 ∧ ((x >>> 8).setWidth 8 : Byte).toNat < 2 ^ 8 ∧
        (x.setWidth 8 : Byte).toNat < 2 ^ 8 := ⟨BitVec.isLt _, BitVec.isLt _, BitVec.isLt _⟩
    have first := digits serial
    have second := digits later
    have high : ((serial >>> 16).setWidth 8 : Byte) = (later >>> 16).setWidth 8 := BitVec.eq_of_toNat_eq (by omega)
    have middle : ((serial >>> 8).setWidth 8 : Byte) = (later >>> 8).setWidth 8 := BitVec.eq_of_toNat_eq (by omega)
    have low : (serial.setWidth 8 : Byte) = later.setWidth 8 := BitVec.eq_of_toNat_eq (by omega)
    simp only [makeGuid, high, middle, low]

/-- Below 2^24 the three bytes determine the serial. -/
theorem makeGuid_serial {owner : GuidPrefix} {kind other : EntityKind} {serial later : U32}
    (small : serial.toNat < 2 ^ 24) (alsoSmall : later.toNat < 2 ^ 24)
    (same : makeGuid owner kind serial = makeGuid owner other later) : serial = later := by
  have residues := (makeGuid_eq_iff.mp same).2
  rw [Nat.mod_eq_of_lt small, Nat.mod_eq_of_lt alsoSmall] at residues
  exact BitVec.eq_of_toNat_eq residues

end Mdds
