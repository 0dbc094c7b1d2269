import Mathlib.Logic.Function.Basic
import Mdds.Lib.Run

/- Any number of nodes around a network that keeps whatever was sent and may
hand it to anyone, any number of times and in any order. -/

universe u v w x y

structure Soup (ι : Type u) (σ : Type v) (μ : Type w) where
  node : ι → σ
  wire : List μ

namespace Soup
variable {ι : Type u} {σ : Type v} {μ : Type w} {ε : Type x} {φ : Type y} [DecidableEq ι]

/-- One node takes a turn, and what it sends joins what was sent before. -/
def step (act : σ → ε → σ × List μ) (f : Soup ι σ μ) (event : ι × ε) : Soup ι σ μ where
  node := Function.update f.node event.1 (act (f.node event.1) event.2).1
  wire := f.wire ++ (act (f.node event.1) event.2).2

/-- The turns of one node. -/
def turnsOf (i : ι) (events : List (ι × ε)) : List ε :=
  events.filterMap (fun event => if event.1 = i then some event.2 else none)

/-- What a node has said in the course of a run. -/
def told (act : σ → ε → σ × List μ) (tells : σ → ε → List φ) (f : Soup ι σ μ) (events : List (ι × ε)) (i : ι) : List φ :=
  Run.log (fun s turn => (act s turn).1) tells (f.node i) (turnsOf i events)

/-- What everyone has said, once node `i` has said something more. -/
def tell (known : ι → List φ) (i : ι) (facts : List φ) : ι → List φ := Function.update known i (known i ++ facts)

theorem mem_tell {known : ι → List φ} {i j : ι} {facts : List φ} {fact : φ} :
    fact ∈ tell known j facts i ↔ fact ∈ known i ∨ i = j ∧ fact ∈ facts := by
  by_cases same : i = j
  · subst same
    simp [tell]
  · simp [tell, same]

theorem tell_self (known : ι → List φ) (i : ι) (facts : List φ) : tell known i facts i = known i ++ facts :=
  Function.update_self ..

theorem tell_other (known : ι → List φ) {i j : ι} (facts : List φ) (differ : i ≠ j) : tell known j facts i = known i :=
  Function.update_of_ne differ ..

theorem turnsOf_snoc (i : ι) (events : List (ι × ε)) (event : ι × ε) :
    turnsOf i (events ++ [event]) = turnsOf i events ++ if event.1 = i then [event.2] else [] := by
  rw [turnsOf, List.filterMap_append, turnsOf, List.filterMap_cons, List.filterMap_nil]
  by_cases here : event.1 = i <;> simp [here]

variable {act : σ → ε → σ × List μ} {tells : σ → ε → List φ}

/-- What becomes of a node is its own doing. -/
theorem exec_node (f : Soup ι σ μ) (events : List (ι × ε)) (i : ι) :
    (Run.exec (step act) f events).node i = Run.exec (fun s turn => (act s turn).1) (f.node i) (turnsOf i events) := by
  induction events using List.reverseRecOn with
  | nil => rfl
  | append_singleton events event ih =>
    rw [Run.exec_snoc, turnsOf_snoc, Run.exec_append, ← ih, step]
    by_cases here : event.1 = i
    · subst here
      simp
    · simp [here, Ne.symm here]

/-- What was sent stays on the wire. -/
theorem wire_append (f : Soup ι σ μ) (first second : List (ι × ε)) :
    (Run.exec (step act) f first).wire <+: (Run.exec (step act) f (first ++ second)).wire := by
  induction second using List.reverseRecOn with
  | nil => simp
  | append_singleton second event ih =>
    rw [← List.append_assoc, Run.exec_snoc]
    exact ih.trans (List.prefix_append _ _)

theorem told_snoc (f : Soup ι σ μ) (events : List (ι × ε)) (event : ι × ε) :
    told act tells f (events ++ [event]) =
      tell (told act tells f events) event.1 (tells ((Run.exec (step act) f events).node event.1) event.2) := by
  funext i
  rw [told, turnsOf_snoc, Run.log_append]
  by_cases here : event.1 = i
  · subst here
    simp [tell_self, told, exec_node, Run.log]
  · simp [here, tell_other _ _ (Ne.symm here), told]

/-- What has been said stays said. -/
theorem told_append (f : Soup ι σ μ) (first second : List (ι × ε)) (i : ι) :
    told act tells f first i <+: told act tells f (first ++ second) i := by
  rw [told, told, turnsOf, turnsOf, List.filterMap_append, Run.log_append]
  exact List.prefix_append _ _

/-- A fact goes back to a turn in which its node said it. -/
theorem exists_of_told {f : Soup ι σ μ} {events : List (ι × ε)} {i : ι} {fact : φ} (member : fact ∈ told act tells f events i) :
    ∃ first turn rest, events = first ++ (i, turn) :: rest ∧
      fact ∈ tells ((Run.exec (step act) f first).node i) turn := by
  induction events using List.reverseRecOn with
  | nil => exact absurd member List.not_mem_nil
  | append_singleton events event ih =>
    rw [told_snoc, mem_tell] at member
    rcases member with before | ⟨rfl, now⟩
    · obtain ⟨first, turn, rest, split, said⟩ := ih before
      exact ⟨first, turn, rest ++ [event], by rw [split]; simp, said⟩
    · exact ⟨events, event.2, [], rfl, now⟩

/-- An invariant of the nodes and a notion of genuine messages, both relative
to what has been said so far, that support each other: what is said later does
no harm, and a node among nodes that keep the invariant, surrounded by genuine
messages, keeps it and sends genuine messages. -/
structure Supports (act : σ → ε → σ × List μ) (tells : σ → ε → List φ) (admits : Soup ι σ μ → ι × ε → Prop)
    (inv : ι → (ι → List φ) → σ → Prop) (genuine : (ι → List φ) → μ → Prop) : Prop where
  others : ∀ i j known facts s, i ≠ j → inv i known s → inv i (tell known j facts) s
  lasts : ∀ known j facts m, genuine known m → genuine (tell known j facts) m
  kept : ∀ (f : Soup ι σ μ) known event, (∀ i, inv i known (f.node i)) → (∀ m ∈ f.wire, genuine known m) → admits f event →
    inv event.1 (tell known event.1 (tells (f.node event.1) event.2)) (act (f.node event.1) event.2).1 ∧
      ∀ m ∈ (act (f.node event.1) event.2).2, genuine (tell known event.1 (tells (f.node event.1) event.2)) m

/-- The rule of authenticity: then all of it holds after every run. -/
theorem Supports.run {admits : Soup ι σ μ → ι × ε → Prop} {inv : ι → (ι → List φ) → σ → Prop}
    {genuine : (ι → List φ) → μ → Prop} (supports : Supports act tells admits inv genuine) {f : Soup ι σ μ}
    {events : List (ι × ε)} (along : Run.Along (step act) admits f events)
    (initially : ∀ i, inv i (fun _ => []) (f.node i)) (silent : f.wire = []) :
    (∀ i, inv i (told act tells f events) ((Run.exec (step act) f events).node i)) ∧
      ∀ m ∈ (Run.exec (step act) f events).wire, genuine (told act tells f events) m := by
  induction events using List.reverseRecOn with
  | nil => exact ⟨initially, fun m member => absurd member (by simp [silent])⟩
  | append_singleton events event ih =>
    obtain ⟨before, admitted⟩ := (Run.along_snoc _).mp along
    obtain ⟨invs, genuines⟩ := ih before
    obtain ⟨own, sent⟩ := supports.kept _ _ event invs genuines admitted
    rw [told_snoc, Run.exec_snoc]
    refine ⟨fun i => ?_, fun m member => ?_⟩
    · by_cases here : i = event.1
      · subst here
        simpa [step] using own
      · simpa [step, here] using supports.others i event.1 _ _ _ here (invs i)
    · rcases List.mem_append.mp member with old | new
      · exact supports.lasts _ _ _ m (genuines m old)
      · exact sent m new

end Soup
