import FeatureRl.Lib.Checked
import FeatureRl.Lib.Dict
import Mathlib.Data.List.Permutation

/-!
Entries gathered under their keys, in order. A key holds exactly the values that were entered
under it.
-/

namespace Checked

universe u

variable {ε : Type*} {α : Type*} {β : Type u}

/-- Apply a computation to the items from first to last. -/
def mapAll (f : α → Except ε β) : List α → Except ε (List β)
  | [] => .ok []
  | item :: rest => f item >>= fun value => mapAll f rest >>= fun values => .ok (value :: values)

theorem mapAll_eq_ok {f : α → Except ε β} {g : α → β} {items : List α}
    (each : ∀ item ∈ items, f item = .ok (g item)) : mapAll f items = .ok (items.map g) := by
  induction items with
  | nil => rfl
  | cons item rest ih =>
      obtain ⟨here, later⟩ := List.forall_mem_cons.mp each
      rw [mapAll, here, ih later]
      rfl

/-- One result for each item, in order. -/
theorem mapAll_forall₂ {f : α → Except ε β} {holds : α → β → Prop} {items : List α}
    (each : ∀ item ∈ items, ∃ value, f item = .ok value ∧ holds item value) :
    ∃ values, mapAll f items = .ok values ∧ List.Forall₂ holds items values := by
  induction items with
  | nil => exact ⟨[], rfl, .nil⟩
  | cons item rest ih =>
      obtain ⟨here, later⟩ := List.forall_mem_cons.mp each
      obtain ⟨value, first, good⟩ := here
      obtain ⟨values, found, all⟩ := ih later
      refine ⟨value :: values, ?_, .cons good all⟩
      rw [mapAll, first, found]
      rfl

theorem forall₂_of_mapAll {f : α → Except ε β} {items : List α} {values : List β}
    (mapped : mapAll f items = .ok values) : List.Forall₂ (fun item value => f item = .ok value) items values := by
  induction items generalizing values with
  | nil =>
      obtain rfl := Except.ok.inj mapped
      exact .nil
  | cons item rest ih =>
      simp only [mapAll, bind_eq_ok] at mapped
      obtain ⟨value, here, others, later, done⟩ := mapped
      obtain rfl := Except.ok.inj done
      exact .cons here (ih later)

theorem exists_error {f : α → Except ε β} {items : List α} {failure : ε}
    (raised : mapAll f items = .error failure) : ∃ item ∈ items, f item = .error failure := by
  induction items with
  | nil => cases raised
  | cons item rest ih =>
      rw [mapAll] at raised
      cases here : f item with
      | error first =>
          rw [here] at raised
          cases raised
          exact ⟨item, List.mem_cons_self, here⟩
      | ok value =>
          cases later : mapAll f rest with
          | error next =>
              rw [here, later] at raised
              cases raised
              obtain ⟨other, member, found⟩ := ih later
              exact ⟨other, List.mem_cons_of_mem _ member, found⟩
          | ok values =>
              rw [here, later] at raised
              cases raised

theorem map_eq_of_forall₂ {γ : Type*} {holds : α → β → Prop} {f : α → γ} {g : β → γ} {items : List α}
    {values : List β} (all : List.Forall₂ holds items values) (same : ∀ item value, holds item value → f item = g value) :
    items.map f = values.map g := by
  induction all with
  | nil => rfl
  | cons here _ ih => rw [List.map_cons, List.map_cons, same _ _ here, ih]

theorem forall_of_forall₂ {holds : α → β → Prop} {items : List α} {values : List β}
    (all : List.Forall₂ holds items values) : ∀ value ∈ values, ∃ item ∈ items, holds item value := by
  induction all with
  | nil => exact fun value member => by cases member
  | cons here _ ih =>
      intro value member
      rcases List.mem_cons.mp member with rfl | later
      · exact ⟨_, List.mem_cons_self, here⟩
      · obtain ⟨item, inside, good⟩ := ih value later
        exact ⟨item, List.mem_cons_of_mem _ inside, good⟩

theorem mapAll_exists {f : α → Except ε β} {holds : β → Prop} {items : List α}
    (each : ∀ item ∈ items, ∃ value, f item = .ok value ∧ holds value) :
    ∃ values, mapAll f items = .ok values ∧ values.length = items.length ∧ ∀ value ∈ values, holds value := by
  obtain ⟨values, found, all⟩ := @mapAll_forall₂ _ _ _ f (fun _ => holds) items each
  refine ⟨values, found, all.length_eq.symm, fun value member => ?_⟩
  obtain ⟨_, _, good⟩ := forall_of_forall₂ all value member
  exact good

/-- Items without a contribution may be left out. -/
theorem flatMap_filter {α β : Type} {items : List α} {keeps : α → Bool} {f : α → List β}
    (empty : ∀ item ∈ items, keeps item = false → f item = []) :
    items.flatMap f = (items.filter keeps).flatMap f := by
  induction items with
  | nil => rfl
  | cons item rest ih =>
      obtain ⟨here, later⟩ := List.forall_mem_cons.mp empty
      rw [List.flatMap_cons, ih later, List.filter_cons]
      cases kept : keeps item with
      | true => rw [if_pos rfl, List.flatMap_cons]
      | false => rw [if_neg (by simp), here kept, List.nil_append]

end Checked

namespace Dict

variable {κ ν : Type*} [DecidableEq κ]

/-- Enter a value at the end of those under its key. -/
def enter (groups : Dict κ (List ν)) (entry : κ × ν) : Dict κ (List ν) :=
  groups.set entry.1 ((groups.get? entry.1).getD [] ++ [entry.2])

def gather (entries : List (κ × ν)) : Dict κ (List ν) := entries.foldl enter empty

/-- The values that are entered under a key. -/
def under (entries : List (κ × ν)) (key : κ) : List ν :=
  (entries.filter fun entry => entry.1 = key).map Prod.snd

theorem under_concat (entries : List (κ × ν)) (entry : κ × ν) (key : κ) :
    under (entries ++ [entry]) key = under entries key ++ if entry.1 = key then [entry.2] else [] := by
  rw [under, under, List.filter_append, List.map_append]
  congr 1
  by_cases same : entry.1 = key <;> simp [same]

theorem get?_gather (entries : List (κ × ν)) (key : κ) :
    (gather entries).get? key = if under entries key = [] then none else some (under entries key) := by
  induction entries using List.reverseRecOn with
  | nil => rfl
  | append_singleton earlier last ih =>
      have before {other : κ} (same : other = key) :
          ((gather earlier).get? other).getD [] = under earlier key := by
        rw [same, ih]
        split
        next none => rw [none, Option.getD_none]
        next => rw [Option.getD_some]
      rw [gather, List.foldl_concat, ← gather, enter, get?_set, under_concat]
      by_cases same : last.1 = key
      · rw [if_pos same.symm, if_pos same, before same]
        simp
      · rw [if_neg (Ne.symm same), if_neg same, List.append_nil, ih]

theorem getD_gather (entries : List (κ × ν)) (key : κ) :
    ((gather entries).get? key).getD [] = under entries key := by
  rw [get?_gather]
  split
  next none => rw [none, Option.getD_none]
  next => rw [Option.getD_some]

theorem mem_keys_gather {entries : List (κ × ν)} {key : κ} :
    key ∈ (gather entries).keys ↔ key ∈ entries.map Prod.fst := by
  rw [mem_keys_iff_isSome, get?_gather]
  have some : under entries key = [] ↔ key ∉ entries.map Prod.fst := by
    rw [under, List.map_eq_nil_iff, List.filter_eq_nil_iff, List.mem_map]
    exact ⟨fun none ⟨entry, member, same⟩ => none entry member (by simpa using same),
      fun absent entry member same => absent ⟨entry, member, by simpa using same⟩⟩
  by_cases listed : key ∈ entries.map Prod.fst
  · rw [if_neg fun none => some.mp none listed]
    simp [listed]
  · rw [if_pos (some.mpr listed)]
    simp [listed]

/-- No group is empty. -/
theorem ne_nil_of_mem_gather {entries : List (κ × ν)} {key : κ} {values : List ν}
    (member : (key, values) ∈ (gather entries).entries) : values = under entries key ∧ values ≠ [] := by
  have found := mem_entries.mp member
  rw [get?_gather] at found
  split at found
  next => cases found
  next filled =>
    obtain rfl := Option.some.inj found
    exact ⟨rfl, filled⟩

theorem under_perm {entries others : List (κ × ν)} (same : entries.Perm others) (key : κ) :
    (under entries key).Perm (under others key) := (same.filter _).map _

end Dict
