import Mathlib.Data.List.TakeDrop

namespace Mdds

/-- A reader takes a value off the front of a list and returns what is left.
It is exact for a writer when, on the values that fit, each undoes the other. -/
structure Exact {σ α : Type} (put : α → List σ) (get : List σ → Option (α × List σ)) (fits : α → Prop) : Prop where
  reads : ∀ {value}, fits value → ∀ rest, get (put value ++ rest) = some (value, rest)
  writes : ∀ {buf value rest}, get buf = some (value, rest) → fits value ∧ put value ++ rest = buf

namespace Exact
variable {σ α β : Type} {put : α → List σ} {get : List σ → Option (α × List σ)} {fits : α → Prop}

theorem pure (value : α) : Exact (fun _ => ([] : List σ)) (fun buf => some (value, buf)) (fun other => other = value) where
  reads := by
    rintro other rfl rest
    rfl
  writes := by
    intro buf other rest read
    obtain ⟨rfl, rfl⟩ := Prod.mk.inj (Option.some.inj read)
    exact ⟨rfl, rfl⟩

/-- Reading on after a field that the whole value determines. -/
theorem bind {putNext : β → List σ} {getNext : α → List σ → Option (β × List σ)} {fitsNext : α → β → Prop}
    (key : β → α) (first : Exact put get fits)
    (next : ∀ a, fits a → Exact putNext (getNext a) (fitsNext a))
    (own : ∀ a b, fits a → fitsNext a b → key b = a) :
    Exact (fun b => put (key b) ++ putNext b) (fun buf => (get buf).bind (fun read => getNext read.1 read.2))
      (fun b => fits (key b) ∧ fitsNext (key b) b) where
  reads := by
    rintro value ⟨fitting, after⟩ rest
    rw [List.append_assoc, first.reads fitting, Option.bind_some]
    exact (next _ fitting).reads after rest
  writes := by
    intro buf value rest read
    obtain ⟨⟨a, middle⟩, got, later⟩ := Option.bind_eq_some_iff.mp read
    obtain ⟨fitting, front⟩ := first.writes got
    obtain ⟨after, back⟩ := (next a fitting).writes later
    obtain rfl := own a value fitting after
    exact ⟨⟨fitting, after⟩, by rw [List.append_assoc, back, front]⟩

/-- The same code under another writer, reader and description of what fits. -/
theorem of_eq {put' : α → List σ} {get' : List σ → Option (α × List σ)} {fits' : α → Prop} (exact : Exact put get fits)
    (puts : ∀ value, put' value = put value) (gets : ∀ buf, get' buf = get buf)
    (same : ∀ value, fits' value ↔ fits value) : Exact put' get' fits' where
  reads := by
    intro value fitting rest
    rw [puts, gets]
    exact exact.reads ((same value).mp fitting) rest
  writes := by
    intro buf value rest read
    rw [gets] at read
    obtain ⟨fitting, whole⟩ := exact.writes read
    exact ⟨(same value).mpr fitting, by rw [puts, whole]⟩

/-- A reader that succeeds does not look at what follows. -/
theorem extend (exact : Exact put get fits) {buf rest : List σ} {value : α} (read : get buf = some (value, rest))
    (extra : List σ) : get (buf ++ extra) = some (value, rest ++ extra) := by
  obtain ⟨fitting, whole⟩ := exact.writes read
  rw [← whole, List.append_assoc]
  exact exact.reads fitting _

/-- No proper beginning of a written value can be read as any value. -/
theorem cut (exact : Exact put get fits) {value : α} (fitting : fits value) {kept : Nat}
    (proper : kept < (put value).length) : get ((put value).take kept) = none := by
  refine Option.eq_none_iff_forall_ne_some.mpr (fun ⟨other, rest⟩ read => ?_)
  have longer := exact.extend read ((put value).drop kept)
  have whole := exact.reads fitting []
  rw [List.append_nil] at whole
  rw [List.take_append_drop, whole] at longer
  have leftover : ([] : List σ) = rest ++ (put value).drop kept := (Prod.mk.inj (Option.some.inj longer)).2
  have length := congrArg List.length leftover
  rw [List.length_append, List.length_drop, List.length_nil] at length
  omega

end Exact

end Mdds
