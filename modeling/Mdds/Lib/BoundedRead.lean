import Mathlib.Data.List.TakeDrop

/- Reading a buffer by index: an access outside it is a fault of the
computation, as is a loop that does not end. -/

namespace Mdds

inductive Fault
  | outside (index : Nat)
  | endless
  deriving DecidableEq

namespace Bounded
variable {σ α β : Type}

def load (mem : List σ) (index : Nat) : Except Fault σ :=
  match mem[index]? with
  | some value => .ok value
  | none => .error (.outside index)

/-- `memcpy` out of the buffer. -/
def copy (mem : List σ) (index : Nat) : Nat → Except Fault (List σ)
  | 0 => .ok []
  | n + 1 => do
    let first ← load mem index
    let rest ← copy mem (index + 1) n
    pure (first :: rest)

theorem load_ok {mem : List σ} {index : Nat} (inside : index < mem.length) : load mem index = .ok mem[index] := by
  rw [load, List.getElem?_eq_getElem inside]

theorem copy_ok {mem : List σ} {index n : Nat} (inside : index + n ≤ mem.length) :
    copy mem index n = .ok ((mem.drop index).take n) := by
  induction n generalizing index with
  | zero => rw [copy, List.take_zero]
  | succ n ih =>
    rw [copy, load_ok (by omega), List.drop_eq_getElem_cons (by omega), List.take_succ_cons]
    simp only [ih (by omega : index + 1 + n ≤ mem.length), bind, Except.bind, pure, Except.pure]

/-- A reader that keeps a position: a fault, a refusal, or a value and the
position behind it. -/
def Cursor (π α : Type) : Type := π → Except Fault (Option (α × π))

variable {π : Type}

instance : Monad (Cursor π) where
  pure value := fun pos => .ok (some (value, pos))
  bind cursor next := fun pos =>
    match cursor pos with
    | .error fault => .error fault
    | .ok none => .ok none
    | .ok (some (value, behind)) => next value behind

/-- A loop of a fixed number of turns. -/
def Cursor.times (item : Cursor π α) : Nat → Cursor π (List α)
  | 0 => pure []
  | n + 1 => do
    let first ← item
    let rest ← Cursor.times item n
    pure (first :: rest)

/-- From every valid position the cursor ends without fault, as the reader
does on what stands behind that position. -/
def Tracks (valid : π → Prop) (behind : π → List σ) (cursor : Cursor π α) (get : List σ → Option (α × List σ)) : Prop :=
  ∀ pos, valid pos → ∃ result, cursor pos = .ok result ∧
    get (behind pos) = result.map (fun read => (read.1, behind read.2)) ∧ ∀ read ∈ result, valid read.2

namespace Tracks
variable {valid : π → Prop} {behind : π → List σ} {cursor : Cursor π α} {get : List σ → Option (α × List σ)}

theorem pure (value : α) : Tracks valid behind (Pure.pure value : Cursor π α) (fun buf => some (value, buf)) := by
  intro pos here
  refine ⟨some (value, pos), rfl, rfl, fun read member => ?_⟩
  obtain rfl := Option.some.inj member
  exact here

theorem bind {next : α → Cursor π β} {getNext : α → List σ → Option (β × List σ)}
    (first : Tracks valid behind cursor get) (later : ∀ a, Tracks valid behind (next a) (getNext a)) :
    Tracks valid behind (cursor >>= next) (fun buf => (get buf).bind (fun read => getNext read.1 read.2)) := by
  intro pos here
  obtain ⟨result, ended, same, inside⟩ := first pos here
  rcases result with _ | ⟨value, after⟩
  · refine ⟨none, ?_, ?_, fun _ absent => by cases absent⟩
    · simp only [Bind.bind, ended]
    · simp only [same, Option.map_none, Option.bind_none]
  · obtain ⟨final, ended', same', inside'⟩ := later value after (inside _ rfl)
    refine ⟨final, ?_, ?_, inside'⟩
    · simp only [Bind.bind, ended, ended']
    · simp only [same, Option.map_some, Option.bind_some, same']

theorem congr {get' : List σ → Option (α × List σ)} (tracks : Tracks valid behind cursor get)
    (same : ∀ buf, get' buf = get buf) : Tracks valid behind cursor get' := by
  intro pos here
  rw [same]
  exact tracks pos here

end Tracks

end Bounded

end Mdds
