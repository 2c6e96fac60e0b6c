import Mathlib.Data.List.Basic
import Mathlib.Data.List.Nodup
import Mathlib.Data.List.Range
import Mathlib.Data.List.TakeDrop

/-!
Rows that lie group by group, cut into batches of whole groups. A batch is named by the place
of its first row and the place behind its last.
-/

namespace Batches

variable {α : Type*}

/-- The rows of the groups, each a label and how many rows it has. -/
def rows (groups : List (α × Nat)) : List α := groups.flatMap fun group => List.replicate group.2 group.1

@[simp] theorem rows_nil : rows ([] : List (α × Nat)) = [] := rfl

@[simp] theorem rows_cons (group : α × Nat) (rest : List (α × Nat)) :
    rows (group :: rest) = List.replicate group.2 group.1 ++ rows rest := List.flatMap_cons

theorem rows_append (first second : List (α × Nat)) : rows (first ++ second) = rows first ++ rows second :=
  List.flatMap_append

/-- No group is without rows. -/
def Occupied (groups : List (α × Nat)) : Prop := ∀ group ∈ groups, 0 < group.2

theorem mem_rows {groups : List (α × Nat)} (occupied : Occupied groups) {label : α} :
    label ∈ rows groups ↔ label ∈ groups.map Prod.fst := by
  simp only [rows, List.mem_flatMap, List.mem_replicate, List.mem_map]
  constructor
  · rintro ⟨group, member, _, rfl⟩
    exact ⟨group, member, rfl⟩
  · rintro ⟨group, member, rfl⟩
    exact ⟨group, member, (occupied group member).ne', rfl⟩

/-- The place behind the first groups. -/
def cut (groups : List (α × Nat)) (count : Nat) : Nat := (rows (groups.take count)).length

def slice (items : List α) (place : Nat × Nat) : List α := (items.drop place.1).take (place.2 - place.1)

variable {groups : List (α × Nat)}

@[simp] theorem cut_zero : cut groups 0 = 0 := by simp [cut]

theorem cut_length : cut groups groups.length = (rows groups).length := by rw [cut, List.take_length]

theorem take_add (first more : Nat) :
    groups.take (first + more) = groups.take first ++ (groups.drop first).take more := List.take_add

theorem cut_add (first more : Nat) :
    cut groups (first + more) = cut groups first + (rows ((groups.drop first).take more)).length := by
  rw [cut, take_add, rows_append, List.length_append, cut]

theorem slice_rows (first more : Nat) :
    slice (rows groups) (cut groups first, cut groups (first + more)) = rows ((groups.drop first).take more) := by
  have split : rows groups = rows (groups.take first) ++ (rows ((groups.drop first).take more) ++
      rows ((groups.drop first).drop more)) := by
    rw [← rows_append, List.take_append_drop, ← rows_append, List.take_append_drop]
  rw [slice, cut_add, split, cut, List.drop_left, Nat.add_sub_cancel_left, List.take_left]

theorem cut_lt (occupied : Occupied groups) {first more : Nat} (some : 0 < more)
    (inside : first < groups.length) : cut groups first < cut groups (first + more) := by
  rw [cut_add]
  have next : groups[first] ∈ (groups.drop first).take more := by
    rw [List.drop_eq_getElem_cons inside]
    cases more with
    | zero => omega
    | succ more => exact List.mem_cons_self
  have one := occupied _ (List.mem_of_mem_drop (List.mem_of_mem_take next))
  have row : groups[first].1 ∈ rows ((groups.drop first).take more) :=
    List.mem_flatMap.mpr ⟨_, next, List.mem_replicate.mpr ⟨one.ne', rfl⟩⟩
  have length := List.length_pos_of_mem row
  omega

/-! ### Batches of a size -/

/-- `range(0, count, size)` -/
def starts (count size : Nat) : List Nat := (List.range ((count + size - 1) / size)).map (· * size)

def boundaries (groups : List (α × Nat)) (size : Nat) : List (Nat × Nat) :=
  (starts groups.length size).map fun first => (cut groups first, cut groups (min (first + size) groups.length))

/-- The places follow each other from `start` to `stop`, and none is empty. -/
def Tiles : Nat → List (Nat × Nat) → Nat → Prop
  | start, [], stop => start = stop
  | start, place :: rest, stop => place.1 = start ∧ place.1 < place.2 ∧ Tiles place.2 rest stop

theorem Tiles.concat {start stop : Nat} {places : List (Nat × Nat)} (tiles : Tiles start places stop) {last : Nat}
    (further : stop < last) : Tiles start (places ++ [(stop, last)]) last := by
  induction places generalizing start with
  | nil =>
      obtain rfl : start = stop := tiles
      exact ⟨rfl, further, rfl⟩
  | cons place rest ih => exact ⟨tiles.1, tiles.2.1, ih tiles.2.2⟩

/-- The batches of a size partition the groups. -/
structure Partition (groups : List (α × Nat)) (size : Nat) (places : List (Nat × Nat)) : Prop where
  tiles : Tiles 0 places (rows groups).length
  whole : ∃ batches : List (List (α × Nat)), batches.flatten = groups ∧
    (∀ batch ∈ batches, batch ≠ [] ∧ batch.length ≤ size) ∧
    places.map (slice (rows groups)) = batches.map rows
  count : places.length = (groups.length + size - 1) / size

theorem last_start_lt {count size turns : Nat} (some : 0 < size) (within : turns < (count + size - 1) / size) :
    turns * size < count := by
  have bound := (Nat.le_div_iff_mul_le some).mp (Nat.succ_le_of_lt within)
  rw [Nat.succ_mul] at bound
  omega

theorem tiles_starts (occupied : Occupied groups) {size : Nat} (some : 0 < size) (turns : Nat)
    (within : turns ≤ (groups.length + size - 1) / size) :
    Tiles 0 ((List.range turns).map fun turn =>
      (cut groups (turn * size), cut groups (min (turn * size + size) groups.length)))
      (cut groups (min (turns * size) groups.length)) := by
  induction turns with
  | zero => simp [Tiles]
  | succ turns ih =>
      have start := last_start_lt some within
      have before := ih (Nat.le_of_succ_le within)
      rw [Nat.min_eq_left start.le] at before
      rw [List.range_succ, List.map_append, Nat.succ_mul]
      refine before.concat ?_
      have more := @cut_lt α groups occupied (turns * size)
        (min (turns * size + size) groups.length - turns * size) (by omega) start
      rwa [Nat.add_sub_cancel' (by omega)] at more

theorem flatten_starts (size turns : Nat) :
    ((List.range turns).map fun turn => (groups.drop (turn * size)).take size).flatten =
      groups.take (turns * size) := by
  induction turns with
  | zero => simp
  | succ turns ih =>
      rw [List.range_succ, List.map_append, List.flatten_append, ih, Nat.succ_mul, take_add]
      simp

theorem partition_boundaries (occupied : Occupied groups) {size : Nat} (some : 0 < size) :
    Partition groups size (boundaries groups size) := by
  have reaches : groups.length ≤ (groups.length + size - 1) / size * size := by
    have rest := Nat.div_add_mod (groups.length + size - 1) size
    have below := Nat.mod_lt (groups.length + size - 1) some
    rw [Nat.mul_comm] at rest
    omega
  refine ⟨?_, ⟨(List.range ((groups.length + size - 1) / size)).map fun turn =>
    (groups.drop (turn * size)).take size, ?_, ?_, ?_⟩, ?_⟩
  · have tiles := tiles_starts occupied some ((groups.length + size - 1) / size) le_rfl
    rw [Nat.min_eq_right reaches, cut_length] at tiles
    rw [boundaries, starts, List.map_map]
    exact tiles
  · rw [flatten_starts, List.take_of_length_le reaches]
  · intro batch member
    obtain ⟨turn, inside, rfl⟩ := List.mem_map.mp member
    have start := last_start_lt some (List.mem_range.mp inside)
    refine ⟨?_, List.length_take_le _ _⟩
    rw [← List.length_pos_iff, List.length_take, List.length_drop]
    omega
  · rw [boundaries, starts, List.map_map, List.map_map, List.map_map]
    refine List.map_congr_left fun turn inside => ?_
    have start := last_start_lt some (List.mem_range.mp inside)
    have sliced := @slice_rows α groups (turn * size) (min (turn * size + size) groups.length - turn * size)
    rw [Nat.add_sub_cancel' (by omega)] at sliced
    simp only [Function.comp_apply]
    rw [sliced]
    rcases Nat.le_total (turn * size + size) groups.length with fits | beyond
    · rw [Nat.min_eq_left fits, Nat.add_sub_cancel_left]
    · rw [Nat.min_eq_right beyond, List.take_of_length_le (by simp), List.take_of_length_le (by simp; omega)]
  · rw [boundaries, starts, List.length_map, List.length_map, List.length_range]

end Batches
