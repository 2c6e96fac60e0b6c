import Mathlib.Data.List.Induction
import Mathlib.Data.List.Count
import Mathlib.Data.List.Lookmap
import Mathlib.Data.List.Nodup

/-!
An insertion-ordered dictionary. Assigning a present key keeps its position and
assigning an absent key appends an entry, so iteration sees first insertions in order.
-/

namespace Dict

variable {κ ν : Type*} [DecidableEq κ]

/-- Assignment on a bare entry list. -/
def setEntries (key : κ) (value : ν) : List (κ × ν) → List (κ × ν)
  | [] => [(key, value)]
  | entry :: rest =>
      if entry.1 = key then (key, value) :: rest else entry :: setEntries key value rest

theorem mem_keys_setEntries (key other : κ) (value : ν) (entries : List (κ × ν)) :
    other ∈ (setEntries key value entries).map Prod.fst ↔
      other = key ∨ other ∈ entries.map Prod.fst := by
  induction entries with
  | nil => simp [setEntries]
  | cons entry rest ih =>
      simp only [setEntries]
      split
      next same => simp [same]
      next different =>
        rw [List.map_cons, List.mem_cons, ih, List.map_cons, List.mem_cons]
        tauto

theorem nodup_setEntries (key : κ) (value : ν) (entries : List (κ × ν))
    (unique : (entries.map Prod.fst).Nodup) :
    ((setEntries key value entries).map Prod.fst).Nodup := by
  induction entries with
  | nil => simp [setEntries]
  | cons entry rest ih =>
      obtain ⟨absent, tail⟩ := List.nodup_cons.mp unique
      simp only [setEntries]
      split
      next same =>
        subst same
        simpa using ⟨by simpa using absent, tail⟩
      next different =>
        refine List.nodup_cons.mpr ⟨?_, ih tail⟩
        rw [mem_keys_setEntries]
        exact fun found => found.elim different absent

end Dict

/-- Entries with pairwise distinct keys, in insertion order. -/
structure Dict (κ ν : Type*) where
  entries : List (κ × ν)
  nodup : (entries.map Prod.fst).Nodup

namespace Dict

variable {κ ν : Type*}

@[ext] theorem ext {left right : Dict κ ν} (same : left.entries = right.entries) :
    left = right := by
  cases left; cases right; simpa using same

def empty : Dict κ ν := ⟨[], List.nodup_nil⟩

def keys (dict : Dict κ ν) : List κ := dict.entries.map Prod.fst

def values (dict : Dict κ ν) : List ν := dict.entries.map Prod.snd

def size (dict : Dict κ ν) : Nat := dict.entries.length

@[simp] theorem keys_empty : (empty : Dict κ ν).keys = [] := rfl

@[simp] theorem values_empty : (empty : Dict κ ν).values = [] := rfl

@[simp] theorem size_empty : (empty : Dict κ ν).size = 0 := rfl

@[simp] theorem length_keys (dict : Dict κ ν) : dict.keys.length = dict.size := by
  simp [keys, size]

@[simp] theorem length_values (dict : Dict κ ν) : dict.values.length = dict.size := by
  simp [values, size]

variable [DecidableEq κ]

def get? (dict : Dict κ ν) (key : κ) : Option ν := dict.entries.lookup key

def set (dict : Dict κ ν) (key : κ) (value : ν) : Dict κ ν :=
  ⟨setEntries key value dict.entries, nodup_setEntries key value _ dict.nodup⟩

theorem mem_of_lookup {entries : List (κ × ν)} {key : κ} {value : ν}
    (found : entries.lookup key = some value) : (key, value) ∈ entries := by
  obtain ⟨before, after, split, _⟩ := List.lookup_eq_some_iff.mp found
  simp [split]

theorem lookup_of_mem {entries : List (κ × ν)} (unique : (entries.map Prod.fst).Nodup)
    {key : κ} {value : ν} (member : (key, value) ∈ entries) :
    entries.lookup key = some value := by
  obtain ⟨before, after, rfl⟩ := List.append_of_mem member
  refine List.lookup_eq_some_iff.mpr ⟨before, after, rfl, ?_⟩
  intro entry early
  rw [bne_iff_ne]
  intro same
  rw [List.map_append, List.nodup_append] at unique
  exact unique.2.2 entry.1 (List.mem_map_of_mem early) key (by simp) same.symm

theorem mem_entries {dict : Dict κ ν} {key : κ} {value : ν} :
    (key, value) ∈ dict.entries ↔ dict.get? key = some value :=
  ⟨lookup_of_mem dict.nodup, mem_of_lookup⟩

theorem mem_values {dict : Dict κ ν} {value : ν} :
    value ∈ dict.values ↔ ∃ key, dict.get? key = some value := by
  simp [values, ← mem_entries]

theorem mem_keys {dict : Dict κ ν} {key : κ} :
    key ∈ dict.keys ↔ ∃ value, dict.get? key = some value := by
  simp [keys, ← mem_entries]

theorem mem_keys_iff_isSome {dict : Dict κ ν} {key : κ} :
    key ∈ dict.keys ↔ (dict.get? key).isSome := by
  rw [mem_keys, Option.isSome_iff_exists]

theorem get?_eq_none {dict : Dict κ ν} {key : κ} :
    dict.get? key = none ↔ key ∉ dict.keys := by
  rw [mem_keys_iff_isSome]; cases dict.get? key <;> simp

@[simp] theorem get?_empty (key : κ) : (empty : Dict κ ν).get? key = none := rfl

theorem lookup_cons_of_ne {key : κ} {entry : κ × ν} {rest : List (κ × ν)}
    (different : key ≠ entry.1) : (entry :: rest).lookup key = rest.lookup key := by
  obtain ⟨first, stored⟩ := entry
  simp [List.lookup_cons, beq_eq_false_iff_ne.mpr different]

theorem lookup_setEntries (key other : κ) (value : ν) (entries : List (κ × ν)) :
    (setEntries key value entries).lookup other =
      if other = key then some value else entries.lookup other := by
  induction entries with
  | nil =>
      by_cases same : other = key
      · simp [setEntries, same]
      · simp [setEntries, same, List.lookup_cons, beq_eq_false_iff_ne.mpr same]
  | cons entry rest ih =>
      obtain ⟨first, stored⟩ := entry
      simp only [setEntries]
      by_cases here : first = key
      · subst here
        by_cases same : other = first
        · simp [same]
        · simp [same, List.lookup_cons, beq_eq_false_iff_ne.mpr same]
      · simp only [here, ↓reduceIte, List.lookup_cons, ih]
        by_cases atFirst : other = first
        · subst atFirst
          simp [here]
        · simp [beq_eq_false_iff_ne.mpr atFirst]

theorem get?_set (dict : Dict κ ν) (key other : κ) (value : ν) :
    (dict.set key value).get? other = if other = key then some value else dict.get? other :=
  lookup_setEntries key other value dict.entries

@[simp] theorem get?_set_self (dict : Dict κ ν) (key : κ) (value : ν) :
    (dict.set key value).get? key = some value := by simp [get?_set]

theorem get?_set_ne (dict : Dict κ ν) {key other : κ} (value : ν) (different : other ≠ key) :
    (dict.set key value).get? other = dict.get? other := by simp [get?_set, different]

theorem mem_keys_set (dict : Dict κ ν) (key other : κ) (value : ν) :
    other ∈ (dict.set key value).keys ↔ other = key ∨ other ∈ dict.keys :=
  mem_keys_setEntries key other value dict.entries

theorem setEntries_of_absent {key : κ} {entries : List (κ × ν)}
    (absent : key ∉ entries.map Prod.fst) (value : ν) :
    setEntries key value entries = entries ++ [(key, value)] := by
  induction entries with
  | nil => rfl
  | cons entry rest ih =>
      have different : entry.1 ≠ key := by rintro rfl; exact absent (by simp)
      have below : key ∉ rest.map Prod.fst := fun found => absent (by simp [found])
      simp [setEntries, different, ih below]

theorem entries_set_of_absent {dict : Dict κ ν} {key : κ} (absent : dict.get? key = none)
    (value : ν) : (dict.set key value).entries = dict.entries ++ [(key, value)] :=
  setEntries_of_absent (get?_eq_none.mp absent) value

/-- Assigning distinct keys one after the other lists them in that order. -/
theorem entries_foldl_set {μ : Type*} (f : μ → ν) (entries : List (κ × μ))
    (unique : (entries.map Prod.fst).Nodup) :
    (entries.foldl (fun dict entry => dict.set entry.1 (f entry.2)) empty).entries =
      entries.map fun entry => (entry.1, f entry.2) := by
  induction entries using List.reverseRecOn with
  | nil => rfl
  | append_singleton entries last ih =>
      rw [List.map_append, List.nodup_append] at unique
      have earlier := ih unique.1
      rw [List.foldl_concat, entries_set_of_absent, earlier, List.map_append, List.map_singleton]
      rw [get?_eq_none, keys, earlier, List.map_map]
      exact fun found => unique.2.2 last.1 found last.1 (by simp) rfl

/-- Assign the entries from first to last. -/
def update (dict : Dict κ ν) (entries : List (κ × ν)) : Dict κ ν :=
  entries.foldl (fun dict entry => dict.set entry.1 entry.2) dict

theorem get?_update {dict : Dict κ ν} {entries : List (κ × ν)} {key : κ} {value : ν}
    (found : (dict.update entries).get? key = some value) :
    dict.get? key = some value ∨ (key, value) ∈ entries := by
  induction entries generalizing dict with
  | nil => exact .inl found
  | cons entry rest ih =>
      rcases ih found with earlier | later
      · rw [get?_set] at earlier
        split at earlier
        next same =>
          obtain rfl := Option.some.inj earlier
          exact .inr (same ▸ List.mem_cons_self)
        next => exact .inl earlier
      · exact .inr (List.mem_cons_of_mem _ later)

theorem keys_set_of_absent {dict : Dict κ ν} {key : κ} (absent : dict.get? key = none)
    (value : ν) : (dict.set key value).keys = dict.keys ++ [key] := by
  simp [keys, set, setEntries_of_absent (get?_eq_none.mp absent)]

theorem values_set_of_absent {dict : Dict κ ν} {key : κ} (absent : dict.get? key = none)
    (value : ν) : (dict.set key value).values = dict.values ++ [value] := by
  simp [values, set, setEntries_of_absent (get?_eq_none.mp absent)]

theorem size_set_of_absent {dict : Dict κ ν} {key : κ} (absent : dict.get? key = none)
    (value : ν) : (dict.set key value).size = dict.size + 1 := by
  simp [← length_values, values_set_of_absent absent]

theorem keys_setEntries_of_lookup {entries : List (κ × ν)} {key : κ} {old : ν} (value : ν)
    (present : entries.lookup key = some old) :
    (setEntries key value entries).map Prod.fst = entries.map Prod.fst := by
  induction entries with
  | nil => simp at present
  | cons entry rest ih =>
      simp only [setEntries]
      split
      next same => simp [same]
      next different =>
        rw [lookup_cons_of_ne (Ne.symm different)] at present
        simp [ih present]

theorem keys_set_of_present {dict : Dict κ ν} {key : κ} {old : ν}
    (present : dict.get? key = some old) (value : ν) :
    (dict.set key value).keys = dict.keys :=
  keys_setEntries_of_lookup value present

theorem size_set_of_present {dict : Dict κ ν} {key : κ} {old : ν}
    (present : dict.get? key = some old) (value : ν) :
    (dict.set key value).size = dict.size := by
  simp [← length_keys, keys_set_of_present present]

theorem size_le_size_set (dict : Dict κ ν) (key : κ) (value : ν) :
    dict.size ≤ (dict.set key value).size := by
  cases found : dict.get? key with
  | none => exact (size_set_of_absent found value).symm ▸ Nat.le_succ _
  | some old => exact Nat.le_of_eq (size_set_of_present found value).symm

theorem countP_setEntries_of_lookup {entries : List (κ × ν)} {key : κ} {old : ν}
    (test : ν → Bool) (value : ν) (present : entries.lookup key = some old) :
    ((setEntries key value entries).map Prod.snd).countP test + (if test old then 1 else 0) =
      (entries.map Prod.snd).countP test + (if test value then 1 else 0) := by
  induction entries with
  | nil => simp at present
  | cons entry rest ih =>
      simp only [setEntries]
      split
      next same =>
        obtain ⟨first, stored⟩ := entry
        obtain rfl : first = key := same
        obtain rfl : stored = old := by simpa using present
        simp only [List.map_cons, List.countP_cons]
        omega
      next different =>
        rw [lookup_cons_of_ne (Ne.symm different)] at present
        have tail := ih present
        simp only [List.map_cons, List.countP_cons]
        omega

/-- Overwriting a value moves a count by exactly the old and the new value. -/
theorem countP_values_set_of_present {dict : Dict κ ν} {key : κ} {old : ν} (test : ν → Bool)
    (present : dict.get? key = some old) (value : ν) :
    (dict.set key value).values.countP test + (if test old then 1 else 0) =
      dict.values.countP test + (if test value then 1 else 0) :=
  countP_setEntries_of_lookup test value present

theorem countP_values_set_of_absent {dict : Dict κ ν} {key : κ} (test : ν → Bool)
    (absent : dict.get? key = none) (value : ν) :
    (dict.set key value).values.countP test =
      dict.values.countP test + (if test value then 1 else 0) := by
  simp [values_set_of_absent absent, List.countP_append, List.countP_cons]

/-- The same items, in any order. -/
def sameItems [DecidableEq ν] (left right : Dict κ ν) : Bool :=
  left.size = right.size && left.entries.all fun entry => right.get? entry.1 = some entry.2

theorem sameItems_self [DecidableEq ν] (dict : Dict κ ν) : dict.sameItems dict = true := by
  simp only [sameItems, decide_true, Bool.true_and, List.all_eq_true, decide_eq_true_eq]
  exact fun entry found => mem_entries.mp found

/-! ### Filtering -/

/-- The entries that are kept, in their order. -/
def filter (dict : Dict κ ν) (keep : κ → ν → Bool) : Dict κ ν where
  entries := dict.entries.filter fun entry => keep entry.1 entry.2
  nodup := dict.nodup.sublist (List.filter_sublist.map Prod.fst)

theorem get?_filter (dict : Dict κ ν) (keep : κ → ν → Bool) (key : κ) :
    (dict.filter keep).get? key = (dict.get? key).filter (keep key) := by
  apply Option.ext
  intro value
  rw [← mem_entries, filter, List.mem_filter, mem_entries, Option.filter_eq_some_iff]

omit [DecidableEq κ] in
theorem size_filter_le (dict : Dict κ ν) (keep : κ → ν → Bool) : (dict.filter keep).size ≤ dict.size :=
  List.length_filter_le _ _

def erase (dict : Dict κ ν) (key : κ) : Dict κ ν := dict.filter fun other _ => other ≠ key

theorem get?_erase (dict : Dict κ ν) (key other : κ) :
    (dict.erase key).get? other = if other = key then none else dict.get? other := by
  rw [erase, get?_filter]
  by_cases same : other = key
  · rw [if_pos same]
    cases dict.get? other <;> simp [same]
  · rw [if_neg same]
    cases dict.get? other <;> simp [same]

theorem get?_foldl_erase (dict : Dict κ ν) (removed : List κ) (key : κ) :
    (removed.foldl erase dict).get? key = if key ∈ removed then none else dict.get? key := by
  induction removed generalizing dict with
  | nil => simp
  | cons first rest ih =>
      rw [List.foldl_cons, ih, get?_erase]
      by_cases later : key ∈ rest
      · rw [if_pos later, if_pos (List.mem_cons_of_mem _ later)]
      · rw [if_neg later]
        by_cases same : key = first
        · rw [if_pos same, if_pos (List.mem_cons.mpr (Or.inl same))]
        · rw [if_neg same, if_neg (by simp [same, later])]

/-- The entries of the update come first. -/
theorem get?_update_entries (dict other : Dict κ ν) (key : κ) :
    (dict.update other.entries).get? key = (other.get? key).or (dict.get? key) := by
  obtain ⟨entries, unique⟩ := other
  rw [get?]
  induction entries generalizing dict with
  | nil => rfl
  | cons entry rest ih =>
      obtain ⟨fresh, later⟩ := List.nodup_cons.mp unique
      have after := ih (dict.set entry.1 entry.2) later
      rw [update] at after ⊢
      rw [List.foldl_cons, after]
      by_cases same : key = entry.1
      · have absent : rest.lookup key = none := by
          rw [same]
          exact (@get?_eq_none _ _ _ ⟨rest, later⟩ _).mpr fresh
        change (rest.lookup key).or _ = ((entry :: rest).lookup key).or _
        rw [absent, same, get?_set_self, List.lookup_cons]
        simp
      · rw [get?_set_ne _ _ same]
        change (rest.lookup key).or _ = ((entry :: rest).lookup key).or _
        rw [lookup_cons_of_ne same]

end Dict
