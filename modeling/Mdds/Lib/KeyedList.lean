import Mathlib.Order.Basic

/- Maps kept as lists of entries in ascending key order, with the operations
of an ordered associative container: emplace keeps an entry that is already
there, assign replaces it. -/

namespace KeyedList
universe u v w
variable {κ : Type u} {ν : Type v} [DecidableEq κ]

/-- Rewrites the value under one key. -/
def modify (key : κ) (f : ν → ν) (entries : List (κ × ν)) : List (κ × ν) :=
  entries.map (fun entry => if entry.1 = key then (entry.1, f entry.2) else entry)

def erase (key : κ) (entries : List (κ × ν)) : List (κ × ν) := entries.filter (fun entry => entry.1 ≠ key)

theorem mem_modify {key : κ} {f : ν → ν} {entries : List (κ × ν)} {x : κ × ν}
    (member : x ∈ modify key f entries) :
    ∃ old, (x.1, old) ∈ entries ∧ (x.2 = old ∨ x.1 = key ∧ x.2 = f old) := by
  obtain ⟨entry, inside, same⟩ := List.mem_map.mp member
  split at same
  · rename_i here
    subst same
    exact ⟨entry.2, inside, Or.inr ⟨here, rfl⟩⟩
  · subst same
    exact ⟨entry.2, inside, Or.inl rfl⟩

theorem lookup_cons {key : κ} {entry : κ × ν} {rest : List (κ × ν)} :
    (entry :: rest).lookup key = if key = entry.1 then some entry.2 else rest.lookup key := by
  rw [List.lookup_cons]
  split
  · rename_i test
    rw [if_pos (eq_of_beq test)]
  · rename_i test
    rw [if_neg (by simpa using test)]

/-- With distinct keys a search finds the entry that is there. -/
theorem lookup_of_mem {key : κ} {value : ν} {entries : List (κ × ν)} (distinct : (entries.map Prod.fst).Nodup)
    (member : (key, value) ∈ entries) : entries.lookup key = some value := by
  induction entries with
  | nil => exact absurd member List.not_mem_nil
  | cons entry rest ih =>
    rw [List.map_cons, List.nodup_cons] at distinct
    rw [lookup_cons]
    rcases List.mem_cons.mp member with rfl | later
    · rw [if_pos rfl]
    · have inside : key ∈ rest.map Prod.fst := List.mem_map_of_mem (f := Prod.fst) later
      have differ : key ≠ entry.1 := by
        rintro rfl
        exact distinct.1 inside
      rw [if_neg differ, ih distinct.2 later]

/-- Where no two elements agree in `f`, a search for one by `f` ends at it. -/
theorem find?_of_nodup {α : Type w} {f : α → κ} {elements : List α} {x : α} (distinct : (elements.map f).Nodup)
    (member : x ∈ elements) : elements.find? (fun y => f y = f x) = some x := by
  induction elements with
  | nil => exact absurd member List.not_mem_nil
  | cons first rest ih =>
    rw [List.map_cons, List.nodup_cons] at distinct
    rcases List.mem_cons.mp member with rfl | later
    · exact List.find?_cons_of_pos (by simp)
    · have differ : f first ≠ f x := by
        intro same
        exact distinct.1 (same ▸ List.mem_map_of_mem later)
      rw [List.find?_cons_of_neg (by simpa using differ), ih distinct.2 later]

theorem mem_of_lookup {key : κ} {value : ν} {entries : List (κ × ν)} (found : entries.lookup key = some value) :
    (key, value) ∈ entries := by
  induction entries with
  | nil => cases found
  | cons entry rest ih =>
    rw [lookup_cons] at found
    split at found
    · rename_i here
      obtain rfl := Option.some.inj found
      exact here ▸ List.mem_cons_self
    · exact List.mem_cons_of_mem _ (ih found)

theorem modify_eq_map {key : κ} {f : ν → ν} {entries : List (κ × ν)} :
    modify key f entries = entries.map (fun entry => (entry.1, if entry.1 = key then f entry.2 else entry.2)) := by
  refine List.map_congr_left (fun entry _ => ?_)
  by_cases here : entry.1 = key
  · rw [if_pos here, if_pos here]
  · rw [if_neg here, if_neg here]

theorem keys_modify {key : κ} {f : ν → ν} {entries : List (κ × ν)} :
    (modify key f entries).map Prod.fst = entries.map Prod.fst := by
  rw [modify_eq_map, List.map_map]
  rfl

/-- A map that rewrites values under their keys. -/
theorem lookup_map {μ : Type v} {key : κ} {f : κ × ν → μ} {entries : List (κ × ν)} :
    (entries.map (fun entry => (entry.1, f entry))).lookup key = (entries.lookup key).map (fun value => f (key, value)) := by
  induction entries with
  | nil => rfl
  | cons entry rest ih =>
    rw [List.map_cons, lookup_cons, lookup_cons, ih]
    split
    · rename_i same
      subst same
      rfl
    · rfl

theorem not_mem_keys {key : κ} {entries : List (κ × ν)} (absent : entries.lookup key = none) :
    key ∉ entries.map Prod.fst := by
  induction entries with
  | nil => exact List.not_mem_nil
  | cons entry rest ih =>
    rw [lookup_cons] at absent
    split at absent
    · simp at absent
    · rename_i differ
      rw [List.map_cons, List.mem_cons, not_or]
      exact ⟨differ, ih absent⟩

theorem isSome_lookup {key : κ} {entries : List (κ × ν)} :
    (entries.lookup key).isSome = true ↔ key ∈ entries.map Prod.fst := by
  cases found : entries.lookup key with
  | none => exact iff_of_false (by simp) (not_mem_keys found)
  | some value => exact iff_of_true rfl (List.mem_map_of_mem (f := Prod.fst) (mem_of_lookup found))

theorem erase_absent {key : κ} {entries : List (κ × ν)} (absent : entries.lookup key = none) :
    erase key entries = entries := by
  refine List.filter_eq_self.mpr (fun entry member => decide_eq_true (fun same => ?_))
  exact not_mem_keys absent (same ▸ List.mem_map_of_mem (f := Prod.fst) member)

theorem lookup_erase {key other : κ} {entries : List (κ × ν)} :
    (erase key entries).lookup other = if other = key then none else entries.lookup other := by
  induction entries with
  | nil => simp [erase]
  | cons entry rest ih =>
    unfold erase at ih ⊢
    by_cases here : entry.1 = key
    · rw [List.filter_cons_of_neg (by simpa using here), ih, lookup_cons, here]
      split <;> rfl
    · rw [List.filter_cons_of_pos (by simpa using here), lookup_cons, lookup_cons, ih]
      by_cases asked : other = entry.1
      · simp [asked, here]
      · simp [asked]

theorem lookup_modify {key other : κ} {f : ν → ν} {entries : List (κ × ν)} :
    (modify key f entries).lookup other =
      if other = key then (entries.lookup other).map f else entries.lookup other := by
  rw [modify_eq_map, lookup_map]
  by_cases here : other = key
  · simp only [here, if_true]
  · simp only [here, if_false, Option.map_id']

/-- The entry under a key, apart from the others. -/
theorem map_erase {μ : Type v} {key : κ} {f : ν → μ} {entries : List (κ × ν)} :
    (erase key entries).map (fun entry => (entry.1, f entry.2)) =
      erase key (entries.map (fun entry => (entry.1, f entry.2))) := by
  rw [erase, erase, List.filter_map]
  rfl

theorem perm_erase {key : κ} {value : ν} {entries : List (κ × ν)} (distinct : (entries.map Prod.fst).Nodup)
    (found : entries.lookup key = some value) (f : ν → ν) :
    entries.Perm ((key, value) :: erase key entries) ∧
      (modify key f entries).Perm ((key, f value) :: erase key entries) := by
  induction entries with
  | nil => cases found
  | cons entry rest ih =>
    obtain ⟨fresh, others⟩ := List.nodup_cons.mp distinct
    rw [lookup_cons] at found
    unfold modify erase at ih ⊢
    split at found
    · rename_i here
      subst here
      obtain rfl := Option.some.inj found
      have absent {other : κ × ν} (inside : other ∈ rest) : other.1 ≠ entry.1 :=
        fun same => fresh (same ▸ List.mem_map_of_mem inside)
      have kept : rest.filter (fun other => other.1 ≠ entry.1) = rest :=
        List.filter_eq_self.mpr (fun other inside => decide_eq_true (absent inside))
      have same : rest.map (fun other => if other.1 = entry.1 then (other.1, f other.2) else other) = rest :=
        (List.map_congr_left (fun other inside => if_neg (absent inside))).trans (List.map_id rest)
      rw [List.filter_cons_of_neg (by simp), List.map_cons, if_pos rfl, kept, same]
      exact ⟨.refl _, .refl _⟩
    · rename_i differs
      obtain ⟨before, after⟩ := ih others found
      rw [List.filter_cons_of_pos (by simpa using Ne.symm differs), List.map_cons, if_neg (Ne.symm differs)]
      exact ⟨(before.cons entry).trans (.swap _ _ _), (after.cons entry).trans (.swap _ _ _)⟩

variable [LT κ] [DecidableLT κ]

def emplace (key : κ) (value : ν) : List (κ × ν) → List (κ × ν)
  | [] => [(key, value)]
  | entry :: rest =>
    if key = entry.1 then entry :: rest
    else if key < entry.1 then (key, value) :: entry :: rest
    else entry :: emplace key value rest

def assign (key : κ) (value : ν) : List (κ × ν) → List (κ × ν)
  | [] => [(key, value)]
  | entry :: rest =>
    if key = entry.1 then (key, value) :: rest
    else if key < entry.1 then (key, value) :: entry :: rest
    else entry :: assign key value rest

theorem lookup_assign {key other : κ} {value : ν} {entries : List (κ × ν)} :
    (assign key value entries).lookup other = if other = key then some value else entries.lookup other := by
  induction entries with
  | nil => rw [assign, lookup_cons]
  | cons entry rest ih =>
    unfold assign
    split
    · rename_i same
      rw [lookup_cons, lookup_cons, ← same]
      split <;> rfl
    · rename_i differ
      split
      · rw [lookup_cons]
      · rw [lookup_cons, lookup_cons, ih]
        by_cases asked : other = key
        · simp [asked, differ]
        · simp [asked]

theorem mem_keys_emplace {key other : κ} {value : ν} {entries : List (κ × ν)}
    (member : other ∈ (emplace key value entries).map Prod.fst) : other = key ∨ other ∈ entries.map Prod.fst := by
  induction entries with
  | nil => simpa [emplace] using member
  | cons entry rest ih =>
    unfold emplace at member
    split at member
    · exact Or.inr member
    · split at member
      · simpa using member
      · rcases List.mem_cons.mp member with here | later
        · exact Or.inr (here ▸ List.mem_cons_self)
        · exact (ih later).imp_right (List.mem_cons_of_mem _)

theorem length_emplace {key : κ} {value : ν} {entries : List (κ × ν)} (absent : key ∉ entries.map Prod.fst) :
    (emplace key value entries).length = entries.length + 1 := by
  induction entries with
  | nil => rfl
  | cons entry rest ih =>
    rw [List.map_cons, List.mem_cons, not_or] at absent
    unfold emplace
    rw [if_neg absent.1]
    split
    · rfl
    · rw [List.length_cons, ih absent.2, List.length_cons]

/-- A new key keeps the keys distinct. -/
theorem nodup_emplace {key : κ} {value : ν} {entries : List (κ × ν)} (distinct : (entries.map Prod.fst).Nodup)
    (absent : key ∉ entries.map Prod.fst) : ((emplace key value entries).map Prod.fst).Nodup := by
  induction entries with
  | nil => simp [emplace]
  | cons entry rest ih =>
    rw [List.map_cons, List.nodup_cons] at distinct
    rw [List.map_cons, List.mem_cons, not_or] at absent
    unfold emplace
    rw [if_neg absent.1]
    split
    · simp only [List.map_cons, List.nodup_cons, List.mem_cons, not_or]
      exact ⟨absent, distinct⟩
    · rw [List.map_cons, List.nodup_cons]
      refine ⟨fun member => ?_, ih distinct.2 absent.2⟩
      rcases mem_keys_emplace member with same | later
      · exact absent.1 same.symm
      · exact distinct.1 later

theorem lookup_emplace_self {key : κ} {value : ν} {entries : List (κ × ν)} (absent : entries.lookup key = none) :
    (emplace key value entries).lookup key = some value := by
  induction entries with
  | nil => simp [emplace]
  | cons entry rest ih =>
    rw [lookup_cons] at absent
    split at absent
    · simp at absent
    · rename_i differ
      unfold emplace
      rw [if_neg differ]
      split
      · simp
      · rw [lookup_cons, if_neg differ, ih absent]

theorem lookup_emplace_other {key other : κ} {value : ν} {entries : List (κ × ν)} (differ : other ≠ key) :
    (emplace key value entries).lookup other = entries.lookup other := by
  induction entries with
  | nil => simp [emplace, lookup_cons, differ]
  | cons entry rest ih =>
    unfold emplace
    split
    · rfl
    · split
      · rw [lookup_cons, if_neg differ]
      · rw [lookup_cons, lookup_cons, ih]

theorem map_emplace {μ : Type v} {key : κ} {value : ν} {f : ν → μ} {entries : List (κ × ν)} :
    (emplace key value entries).map (fun entry => (entry.1, f entry.2)) =
      emplace key (f value) (entries.map (fun entry => (entry.1, f entry.2))) := by
  induction entries with
  | nil => rfl
  | cons entry rest ih =>
    rw [List.map_cons, emplace, emplace]
    split
    · rfl
    · split
      · rfl
      · rw [List.map_cons, ih]

theorem mem_emplace {key : κ} {value : ν} {entries : List (κ × ν)} {x : κ × ν}
    (absent : key ∉ entries.map Prod.fst) : x ∈ emplace key value entries ↔ x = (key, value) ∨ x ∈ entries := by
  induction entries with
  | nil => simp [emplace]
  | cons entry rest ih =>
    rw [List.map_cons, List.mem_cons, not_or] at absent
    unfold emplace
    rw [if_neg absent.1]
    split
    · exact List.mem_cons
    · rw [List.mem_cons, ih absent.2, List.mem_cons, or_left_comm]

theorem emplace_perm {key : κ} {value : ν} {entries : List (κ × ν)} (absent : key ∉ entries.map Prod.fst) :
    (emplace key value entries).Perm ((key, value) :: entries) := by
  induction entries with
  | nil => exact .refl _
  | cons entry rest ih =>
    rw [List.map_cons, List.mem_cons, not_or] at absent
    unfold emplace
    rw [if_neg absent.1]
    split
    · exact .refl _
    · exact ((ih absent.2).cons entry).trans (.swap _ _ _)

theorem mem_of_mem_emplace {key : κ} {value : ν} {entries : List (κ × ν)} {x : κ × ν}
    (member : x ∈ emplace key value entries) : x = (key, value) ∨ x ∈ entries := by
  induction entries with
  | nil => exact Or.inl (List.mem_singleton.mp member)
  | cons entry rest ih =>
    unfold emplace at member
    split at member
    · exact Or.inr member
    · split at member
      · exact List.mem_cons.mp member
      · rcases List.mem_cons.mp member with here | later
        · exact Or.inr (here ▸ List.mem_cons_self)
        · exact (ih later).imp_right (List.mem_cons_of_mem _)

theorem mem_assign_self {key : κ} {value : ν} {entries : List (κ × ν)} : (key, value) ∈ assign key value entries := by
  induction entries with
  | nil => exact List.mem_cons_self
  | cons entry rest ih =>
    unfold assign
    split
    · exact List.mem_cons_self
    · split
      · exact List.mem_cons_self
      · exact List.mem_cons_of_mem _ ih

theorem mem_of_mem_assign {key : κ} {value : ν} {entries : List (κ × ν)} {x : κ × ν}
    (member : x ∈ assign key value entries) : x = (key, value) ∨ x ∈ entries := by
  induction entries with
  | nil => exact Or.inl (List.mem_singleton.mp member)
  | cons entry rest ih =>
    unfold assign at member
    split at member
    · exact (List.mem_cons.mp member).imp_right (List.mem_cons_of_mem _)
    · split at member
      · exact List.mem_cons.mp member
      · rcases List.mem_cons.mp member with here | later
        · exact Or.inr (here ▸ List.mem_cons_self)
        · exact (ih later).imp_right (List.mem_cons_of_mem _)

theorem mem_assign_of_ne {key : κ} {value : ν} {entries : List (κ × ν)} {x : κ × ν} (differ : x.1 ≠ key)
    (member : x ∈ entries) : x ∈ assign key value entries := by
  induction entries with
  | nil => exact absurd member List.not_mem_nil
  | cons entry rest ih =>
    unfold assign
    split
    · rename_i same
      rcases List.mem_cons.mp member with rfl | later
      · exact absurd same.symm differ
      · exact List.mem_cons_of_mem _ later
    · split
      · exact List.mem_cons_of_mem _ member
      · rcases List.mem_cons.mp member with rfl | later
        · exact List.mem_cons_self
        · exact List.mem_cons_of_mem _ (ih later)

/-- The order in which the keys of an ordered container are kept. -/
def Ascending (entries : List (κ × ν)) : Prop := entries.Pairwise (fun a b => a.1 < b.1)

omit [DecidableEq κ] [DecidableLT κ] in
theorem Ascending.nil : Ascending ([] : List (κ × ν)) := List.Pairwise.nil

omit [DecidableLT κ] in
theorem Ascending.modify {entries : List (κ × ν)} (ascending : Ascending entries) {key : κ} {f : ν → ν} :
    Ascending (modify key f entries) := by
  refine List.pairwise_map.mpr (ascending.imp (fun {a b} below => ?_))
  by_cases first : a.1 = key <;> by_cases second : b.1 = key <;> simpa [first, second] using below

omit [DecidableEq κ] [DecidableLT κ] in
theorem Ascending.filter {entries : List (κ × ν)} (ascending : Ascending entries) (keep : κ × ν → Bool) :
    Ascending (entries.filter keep) := List.Pairwise.filter keep ascending

theorem Ascending.assign [IsTrans κ (· < ·)] [Std.Trichotomous (fun a b : κ => a < b)] {entries : List (κ × ν)}
    (ascending : Ascending entries) {key : κ} {value : ν} : Ascending (assign key value entries) := by
  induction entries with
  | nil => exact List.pairwise_singleton ..
  | cons entry rest ih =>
    obtain ⟨first, others⟩ := List.pairwise_cons.mp ascending
    unfold KeyedList.assign
    split
    · rename_i same
      exact List.pairwise_cons.mpr ⟨fun other member => same ▸ first other member, others⟩
    · rename_i differ
      split
      · rename_i below
        refine List.pairwise_cons.mpr ⟨fun other member => ?_, ascending⟩
        rcases List.mem_cons.mp member with rfl | later
        · exact below
        · exact IsTrans.trans _ _ _ below (first other later)
      · rename_i above
        have after : entry.1 < key :=
          (trichotomous_of (· < ·) entry.1 key).resolve_right (fun wrong => wrong.elim (Ne.symm differ) above)
        refine List.pairwise_cons.mpr ⟨fun other member => ?_, ih others⟩
        rcases mem_of_mem_assign member with rfl | before
        · exact after
        · exact first other before

/-- With the keys in order an assignment leaves no other value at its key. -/
theorem Ascending.mem_assign [Std.Asymm (fun a b : κ => a < b)] {entries : List (κ × ν)} (ascending : Ascending entries)
    {key : κ} {value : ν} {x : κ × ν} :
    x ∈ KeyedList.assign key value entries ↔ x = (key, value) ∨ x ∈ entries ∧ x.1 ≠ key := by
  refine ⟨fun member => ?_, fun either => either.elim (fun same => same ▸ mem_assign_self)
    (fun both => mem_assign_of_ne both.2 both.1)⟩
  induction entries with
  | nil => exact Or.inl (List.mem_singleton.mp member)
  | cons entry rest ih =>
    obtain ⟨first, others⟩ := List.pairwise_cons.mp ascending
    have beyond {y : κ × ν} (later : y ∈ rest) (above : key = entry.1 ∨ key < entry.1) : y.1 ≠ key := by
      rintro rfl
      rcases above with same | below
      · exact asymm (first y later) (same ▸ first y later)
      · exact asymm below (first y later)
    unfold KeyedList.assign at member
    split at member
    · rename_i same
      exact (List.mem_cons.mp member).imp_right (fun later => ⟨List.mem_cons_of_mem _ later, beyond later (Or.inl same)⟩)
    · rename_i differ
      split at member
      · rename_i below
        refine (List.mem_cons.mp member).imp_right (fun old => ⟨old, ?_⟩)
        rcases List.mem_cons.mp old with rfl | later
        · exact fun same => differ same.symm
        · exact beyond later (Or.inr below)
      · rcases List.mem_cons.mp member with rfl | later
        · exact Or.inr ⟨List.mem_cons_self, fun same => differ same.symm⟩
        · exact (ih others later).imp_right (fun both => ⟨List.mem_cons_of_mem _ both.1, both.2⟩)

/-- What is read off the entries does not change when an entry is replaced by
one that reads the same. -/
theorem Ascending.map_assign [Std.Asymm (fun a b : κ => a < b)] {μ : Type v} {f : κ × ν → μ} {entries : List (κ × ν)}
    (ascending : Ascending entries) {key : κ} {old value : ν} (known : entries.lookup key = some old)
    (same : f (key, value) = f (key, old)) : (KeyedList.assign key value entries).map f = entries.map f := by
  induction entries with
  | nil => cases known
  | cons entry rest ih =>
    obtain ⟨first, others⟩ := List.pairwise_cons.mp ascending
    rw [lookup_cons] at known
    unfold KeyedList.assign
    by_cases here : key = entry.1
    · rw [if_pos here] at known
      obtain rfl := Option.some.inj known
      rw [if_pos here, List.map_cons, List.map_cons, same, here]
    · rw [if_neg here] at known
      have below : entry.1 < key := first (key, old) (mem_of_lookup known)
      rw [if_neg here, if_neg (asymm below), List.map_cons, List.map_cons, ih others known]

end KeyedList
