import FeatureRl.Contracts.Values
import FeatureRl.Lib.Checked
import FeatureRl.Lib.Effects
import FeatureRl.Lib.Json
import FeatureRl.Lib.PyText
import FeatureRl.Lib.RoundRobin
import FeatureRl.Lib.Sorting

/-!
The balanced sampler: families take turns, within a family its features, within a feature
its tasks. The cursor of a checkpoint is all that a new sampler needs to go on.
-/

namespace FeatureRl

open Checked Sorting

namespace Sampling

inductive Failure where
  | value (text : String)
  | zeroDivision

/-- The hexadecimal hash of a value's canonical text. -/
structure Hashing where
  digest : Json → String
  hex : ∀ value, isDigest (digest value) = true

/-- How a process reads a set that was built from these values. -/
structure SetOrder where
  read : List String → List String
  nodup : ∀ values, (read values).Nodup
  mem : ∀ values value, value ∈ read values ↔ value ∈ values

def isBlank (text : String) : Bool := text.toList.all fun c => PyChar.isSpace (.scalar c)

structure TaskSlot where
  taskId : String
  family : String
  feature : String
  named : ∀ text ∈ [taskId, family, feature], isBlank text = false
deriving DecidableEq

namespace TaskSlot

def create (taskId family feature : String) : Except Failure TaskSlot :=
  if named : ∀ text ∈ [taskId, family, feature], isBlank text = false then
    .ok ⟨taskId, family, feature, named⟩
  else .error (.value "Task identity, family and feature are required")

def asdict (task : TaskSlot) : Json :=
  .obj [("family", .str task.family), ("feature", .str task.feature), ("task_id", .str task.taskId)]

end TaskSlot

structure GroupPlan where
  groupId : String
  task : TaskSlot
  policyVersion : String
  episodeSeeds : List Nat
  caseSeed : Nat
  position : Nat

structure BalancedSampler where
  tasks : List TaskSlot
  seed : Int
  groupSize : Int
  position : Nat
  rosterDigest : String
  families : List String

structure Saved where
  rosterDigest : String
  seed : Int
  position : Int
  groupSize : Int

abbrev Step := Effects BalancedSampler Failure

def hexDigit (c : Char) : Nat := if c ≤ '9' then c.toNat - '0'.toNat else c.toNat - 'a'.toNat + 10

/-- `int(text[:15], 16)` of a hash. -/
def leading (text : String) : Nat := (text.toList.take 15).foldl (fun number c => 16 * number + hexDigit c) 0

def pick {α : Type} (items : List α) (turn : Nat) : Except Failure α :=
  require items[turn % items.length]? .zeroDivision

section Model

variable (hashing : Hashing) (order : SetOrder)

def rank (seed : Int) (value : String) : String := hashing.digest (.arr [.int seed, .str value])

def ordered (seed : Int) (values : List String) : List String :=
  sortBy (rank hashing seed) (order.read values)

def create (tasks : List TaskSlot) (seed groupSize : Int) : Except Failure BalancedSampler := do
  refuse (tasks = [] ∨ seed < 0) (.value "Nonempty roster and nonnegative seed required")
  refuse (groupSize < 2) (.value "GRPO group size must be an integer of at least two")
  refuse (¬ (tasks.map TaskSlot.taskId).Nodup) (.value "Duplicate task in frozen roster")
  let tasks := sortBy TaskSlot.taskId tasks
  .ok {
    tasks
    seed
    groupSize
    position := 0
    rosterDigest := hashing.digest (.arr (tasks.map TaskSlot.asdict))
    families := ordered hashing order seed (tasks.map TaskSlot.family)
  }

namespace BalancedSampler

def features (sampler : BalancedSampler) (family : String) : List String :=
  ordered hashing order sampler.seed ((sampler.tasks.filter fun task => task.family = family).map TaskSlot.feature)

def tasksOf (sampler : BalancedSampler) (family feature : String) : List TaskSlot :=
  sortBy (fun task => rank hashing sampler.seed task.taskId)
    (sampler.tasks.filter fun task => task.family = family ∧ task.feature = feature)

/-- The task whose turn it is at the cursor. -/
def scheduled (sampler : BalancedSampler) : Except Failure TaskSlot := do
  let pos := sampler.position
  let family ← pick sampler.families pos
  let visits := pos / sampler.families.length
  let features := sampler.features hashing order family
  let feature ← pick features visits
  pick (sampler.tasksOf hashing family feature) (visits / features.length)

def nextGroup (policyVersion : String) : Step GroupPlan := do
  Effects.lift (refuse (policyVersion = "") (.value "Policy version required"))
  let sampler ← Effects.read
  let task ← Effects.lift (sampler.scheduled hashing order)
  let gid := hashing.digest (.arr [.str sampler.rosterDigest, .int sampler.seed, .int sampler.position,
    .str policyVersion, .int sampler.groupSize])
  let seeds := (List.range sampler.groupSize.toNat).map fun n : Nat =>
    leading (hashing.digest (.arr [.str gid, .str "episode", .int n]))
  Effects.lift (refuse ((seeds.dedup.length : Int) ≠ sampler.groupSize) (.value "Episode seed collision"))
  Effects.modify fun sampler => { sampler with position := sampler.position + 1 }
  pure ⟨gid, task, policyVersion, seeds, leading (hashing.digest (.arr [.str gid, .str "case"])), sampler.position⟩

def stateDict (sampler : BalancedSampler) : Saved :=
  ⟨sampler.rosterDigest, sampler.seed, sampler.position, sampler.groupSize⟩

def loadStateDict (state : Saved) : Step Unit := do
  let sampler ← Effects.read
  Effects.lift (refuse (state.rosterDigest ≠ sampler.rosterDigest ∨ state.seed ≠ sampler.seed ∨
    state.groupSize ≠ sampler.groupSize ∨ state.position < 0)
    (.value "Sampler checkpoint differs from frozen roster/seed/group size/cursor"))
  Effects.modify fun sampler => { sampler with position := state.position.toNat }

end BalancedSampler

/-- One call after another, whatever they return. -/
def draw : List String → BalancedSampler → List (Except Failure GroupPlan) × BalancedSampler
  | [], sampler => ([], sampler)
  | version :: rest, sampler =>
      let outcome := BalancedSampler.nextGroup hashing order version sampler
      let later := draw rest outcome.2
      (outcome.1 :: later.1, later.2)

end Model

def groups (outcomes : List (Except Failure GroupPlan)) : List GroupPlan := outcomes.filterMap Except.toOption

/-! ### What is picked -/

theorem pick_eq_ok_iff {α : Type} [DecidableEq α] {items : List α} {turn : Nat} {item : α} (unique : items.Nodup)
    (member : item ∈ items) : pick items turn = .ok item ↔ turn % items.length = items.idxOf item := by
  have inside := List.idxOf_lt_length_of_mem member
  rw [pick, require_eq_ok, List.getElem?_eq_some_iff]
  constructor
  · rintro ⟨_, rfl⟩
    exact (unique.idxOf_getElem _ _).symm
  · intro place
    simp only [place, inside, List.getElem_idxOf, exists_true_left]

theorem mem_of_pick {α : Type} {items : List α} {turn : Nat} {item : α} (picked : pick items turn = .ok item) :
    item ∈ items := List.mem_of_getElem? (require_eq_ok.mp picked)

theorem exists_pick {α : Type} {items : List α} (inhabited : items ≠ []) (turn : Nat) :
    ∃ item, pick items turn = .ok item := by
  have inside := Nat.mod_lt turn (List.length_pos_of_ne_nil inhabited)
  exact ⟨items[turn % items.length], require_eq_ok.mpr (List.getElem?_eq_getElem inside)⟩

/-! ### The order of the names -/

section Names

variable {hashing : Hashing} {order : SetOrder} {seed : Int} {values : List String}

@[simp] theorem mem_ordered {value : String} : value ∈ ordered hashing order seed values ↔ value ∈ values := by
  rw [ordered, mem_sortBy, order.mem]

theorem ordered_nodup : (ordered hashing order seed values).Nodup := nodup_sortBy.mpr (order.nodup values)

/-- No two of the values have one hash. -/
def Distinct (hashing : Hashing) (seed : Int) (values : List String) : Prop :=
  ∀ one ∈ values, ∀ two ∈ values, rank hashing seed one = rank hashing seed two → one = two

theorem ordered_eq_of_distinct {other : SetOrder} (distinct : Distinct hashing seed values) :
    ordered hashing order seed values = ordered hashing other seed values := by
  refine sortBy_eq_of_perm ?_ ((List.perm_ext_iff_of_nodup (order.nodup _) (other.nodup _)).mpr ?_)
  · intro one first two second same
    exact distinct one ((order.mem _ _).mp first) two ((order.mem _ _).mp second) same
  · intro value
    rw [order.mem, other.mem]

end Names

/-! ### The schedule -/

section Schedule

variable {hashing : Hashing} {order : SetOrder} {sampler : BalancedSampler}

/-- What the constructor leaves, wherever the cursor has come to. -/
structure Built (hashing : Hashing) (order : SetOrder) (sampler : BalancedSampler) : Prop where
  inhabited : sampler.tasks ≠ []
  unique : (sampler.tasks.map TaskSlot.taskId).Nodup
  families : sampler.families = ordered hashing order sampler.seed (sampler.tasks.map TaskSlot.family)

theorem create_eq_ok {tasks : List TaskSlot} {seed groupSize : Int} :
    create hashing order tasks seed groupSize = .ok sampler ↔
      tasks ≠ [] ∧ 0 ≤ seed ∧ 2 ≤ groupSize ∧ (tasks.map TaskSlot.taskId).Nodup ∧ sampler = {
        tasks := sortBy TaskSlot.taskId tasks
        seed
        groupSize
        position := 0
        rosterDigest := hashing.digest (.arr ((sortBy TaskSlot.taskId tasks).map TaskSlot.asdict))
        families := ordered hashing order seed ((sortBy TaskSlot.taskId tasks).map TaskSlot.family) } := by
  simp only [create, bind_eq_ok, refuse_eq_ok, not_or, not_lt, not_not]
  constructor
  · rintro ⟨_, ⟨inhabited, nonnegative⟩, _, size, _, unique, done⟩
    exact ⟨inhabited, nonnegative, size, unique, (Except.ok.inj done).symm⟩
  · rintro ⟨inhabited, nonnegative, size, unique, rfl⟩
    exact ⟨(), ⟨inhabited, nonnegative⟩, (), size, (), unique, rfl⟩

theorem built_create {tasks : List TaskSlot} {seed groupSize : Int}
    (created : create hashing order tasks seed groupSize = .ok sampler) : Built hashing order sampler := by
  obtain ⟨inhabited, _, _, unique, rfl⟩ := create_eq_ok.mp created
  refine ⟨?_, ?_, rfl⟩
  · intro empty
    exact inhabited (List.Perm.eq_nil (empty ▸ (sortBy_perm TaskSlot.taskId tasks).symm))
  · exact (((sortBy_perm TaskSlot.taskId tasks).map TaskSlot.taskId).nodup_iff).mpr unique

namespace BalancedSampler

def seek (sampler : BalancedSampler) (position : Nat) : BalancedSampler := { sampler with position }

@[simp] theorem seek_position (position : Nat) : (sampler.seek position).position = position := rfl

@[simp] theorem seek_families (position : Nat) : (sampler.seek position).families = sampler.families := rfl

@[simp] theorem seek_features (position : Nat) (family : String) :
    (sampler.seek position).features hashing order family = sampler.features hashing order family := rfl

@[simp] theorem seek_tasksOf (position : Nat) (family feature : String) :
    (sampler.seek position).tasksOf hashing family feature = sampler.tasksOf hashing family feature := rfl

@[simp] theorem seek_seek (one two : Nat) : (sampler.seek one).seek two = sampler.seek two := rfl

@[simp] theorem mem_features {family feature : String} : feature ∈ sampler.features hashing order family ↔
    ∃ task ∈ sampler.tasks, task.family = family ∧ task.feature = feature := by
  simp [features, and_assoc]

@[simp] theorem mem_tasksOf {family feature : String} {task : TaskSlot} :
    task ∈ sampler.tasksOf hashing family feature ↔
      task ∈ sampler.tasks ∧ task.family = family ∧ task.feature = feature := by
  simp [tasksOf]

theorem features_nodup {family : String} : (sampler.features hashing order family).Nodup := ordered_nodup

/-- Three picks decide the task of a turn. -/
theorem scheduled_eq_ok {task : TaskSlot} : sampler.scheduled hashing order = .ok task ↔
    pick sampler.families sampler.position = .ok task.family ∧
      pick (sampler.features hashing order task.family) (sampler.position / sampler.families.length) =
        .ok task.feature ∧
      pick (sampler.tasksOf hashing task.family task.feature) (sampler.position / sampler.families.length /
        (sampler.features hashing order task.family).length) = .ok task := by
  simp only [scheduled, bind_eq_ok]
  constructor
  · rintro ⟨family, first, feature, second, third⟩
    obtain ⟨_, rfl, rfl⟩ := mem_tasksOf.mp (mem_of_pick third)
    exact ⟨first, second, third⟩
  · rintro ⟨first, second, third⟩
    exact ⟨_, first, _, second, third⟩

end BalancedSampler

open BalancedSampler

theorem Built.seek (built : Built hashing order sampler) (position : Nat) :
    Built hashing order (sampler.seek position) := ⟨built.inhabited, built.unique, built.families⟩

theorem Built.mem_families (built : Built hashing order sampler) {family : String} :
    family ∈ sampler.families ↔ ∃ task ∈ sampler.tasks, task.family = family := by
  simp [built.families]

theorem Built.exists_scheduled (built : Built hashing order sampler) :
    ∃ task, sampler.scheduled hashing order = .ok task := by
  obtain ⟨some, listed⟩ := List.exists_mem_of_ne_nil _ built.inhabited
  obtain ⟨family, first⟩ := exists_pick
    (List.ne_nil_of_mem (built.mem_families.mpr ⟨some, listed, rfl⟩)) sampler.position
  obtain ⟨one, oneListed, ofFamily⟩ := built.mem_families.mp (mem_of_pick first)
  have someFeature : one.feature ∈ sampler.features hashing order family :=
    mem_features.mpr ⟨one, oneListed, ofFamily, rfl⟩
  obtain ⟨feature, second⟩ := exists_pick (List.ne_nil_of_mem someFeature)
    (sampler.position / sampler.families.length)
  obtain ⟨two, twoListed, both⟩ := mem_features.mp (mem_of_pick second)
  have someTask : two ∈ sampler.tasksOf hashing family feature := mem_tasksOf.mpr ⟨twoListed, both⟩
  obtain ⟨task, third⟩ := exists_pick (List.ne_nil_of_mem someTask)
    (sampler.position / sampler.families.length / (sampler.features hashing order family).length)
  refine ⟨task, ?_⟩
  simp only [scheduled, bind_eq_ok]
  exact ⟨family, first, feature, second, third⟩

/-! ### Whose turn it is -/

theorem Built.family_iff (built : Built hashing order sampler) {task : TaskSlot} {family : String}
    (scheduled : sampler.scheduled hashing order = .ok task) (listed : family ∈ sampler.families) :
    task.family = family ↔ sampler.position % sampler.families.length = sampler.families.idxOf family := by
  have unique : sampler.families.Nodup := built.families ▸ ordered_nodup
  rw [← pick_eq_ok_iff unique listed, (scheduled_eq_ok.mp scheduled).1, Except.ok.injEq]

theorem feature_iff {task : TaskSlot} {feature : String}
    (scheduled : sampler.scheduled hashing order = .ok task)
    (listed : feature ∈ sampler.features hashing order task.family) :
    task.feature = feature ↔
      sampler.position / sampler.families.length % (sampler.features hashing order task.family).length =
        (sampler.features hashing order task.family).idxOf feature := by
  rw [← pick_eq_ok_iff features_nodup listed, (scheduled_eq_ok.mp scheduled).2.1, Except.ok.injEq]

theorem Built.task_iff (built : Built hashing order sampler) {task other : TaskSlot}
    (scheduled : sampler.scheduled hashing order = .ok task)
    (listed : other ∈ sampler.tasksOf hashing task.family task.feature) :
    task = other ↔
      sampler.position / sampler.families.length / (sampler.features hashing order task.family).length %
          (sampler.tasksOf hashing task.family task.feature).length =
        (sampler.tasksOf hashing task.family task.feature).idxOf other := by
  have unique : (sampler.tasksOf hashing task.family task.feature).Nodup :=
    nodup_sortBy.mpr (built.unique.of_map.filter _)
  rw [← pick_eq_ok_iff unique listed, (scheduled_eq_ok.mp scheduled).2.2, Except.ok.injEq]

/-! ### Groups in the order of the cursor -/

/-- The groups take the tasks of the first positions. -/
def Follows (hashing : Hashing) (order : SetOrder) (sampler : BalancedSampler) (plans : List GroupPlan) : Prop :=
  ∀ turn plan, plans[turn]? = some plan → (sampler.seek turn).scheduled hashing order = .ok plan.task

theorem Follows.init {plans : List GroupPlan} {last : GroupPlan}
    (follows : Follows hashing order sampler (plans ++ [last])) : Follows hashing order sampler plans := by
  intro turn plan found
  have inside := (List.getElem?_eq_some_iff.mp found).1
  exact follows turn plan (by rw [List.getElem?_append_left inside, found])

theorem Follows.last {plans : List GroupPlan} {last : GroupPlan}
    (follows : Follows hashing order sampler (plans ++ [last])) :
    (sampler.seek plans.length).scheduled hashing order = .ok last.task :=
  follows plans.length last (by simp)

/-- What the turn decides about its task is counted over the turns. -/
theorem Follows.countP_eq {plans : List GroupPlan} (follows : Follows hashing order sampler plans)
    (holds : TaskSlot → Prop) [DecidablePred holds] (decides : Nat → Prop) [DecidablePred decides]
    (decided : ∀ turn task, (sampler.seek turn).scheduled hashing order = .ok task → (holds task ↔ decides turn)) :
    plans.countP (fun plan => holds plan.task) = Nat.count decides plans.length := by
  induction plans using List.reverseRecOn with
  | nil => simp
  | append_singleton plans last ih =>
      rw [List.countP_append, List.length_append, List.length_singleton, Nat.count_succ, ih follows.init,
        List.countP_singleton]
      simp only [decided plans.length last.task follows.last, decide_eq_true_eq]

theorem Built.count_family (built : Built hashing order sampler) {plans : List GroupPlan}
    (follows : Follows hashing order sampler plans) {family : String} (listed : family ∈ sampler.families) :
    plans.countP (fun plan => plan.task.family = family) =
      RoundRobin.turns sampler.families.length (sampler.families.idxOf family) plans.length :=
  follows.countP_eq (fun task => task.family = family) _ fun turn _ scheduled =>
    (built.seek turn).family_iff scheduled listed

theorem Built.count_feature (built : Built hashing order sampler) {plans : List GroupPlan}
    (follows : Follows hashing order sampler plans) {family feature : String}
    (listed : feature ∈ sampler.features hashing order family) :
    plans.countP (fun plan => plan.task.family = family ∧ plan.task.feature = feature) =
      RoundRobin.turns (sampler.features hashing order family).length
        ((sampler.features hashing order family).idxOf feature)
        (RoundRobin.turns sampler.families.length (sampler.families.idxOf family) plans.length) := by
  obtain ⟨member, inRoster, ofFamily, _⟩ := mem_features.mp listed
  have familyListed := built.mem_families.mpr ⟨member, inRoster, ofFamily⟩
  rw [RoundRobin.turns, ← RoundRobin.count_turn_and _ _ (List.idxOf_lt_length_of_mem familyListed)]
  refine follows.countP_eq (fun task => task.family = family ∧ task.feature = feature) _ ?_
  intro turn task scheduled
  rw [(built.seek turn).family_iff scheduled familyListed]
  refine and_congr_right fun its => ?_
  obtain rfl := ((built.seek turn).family_iff scheduled familyListed).mpr its
  exact feature_iff scheduled listed

theorem Built.count_task (built : Built hashing order sampler) {plans : List GroupPlan}
    (follows : Follows hashing order sampler plans) {other : TaskSlot} (listed : other ∈ sampler.tasks) :
    plans.countP (fun plan => plan.task = other) =
      RoundRobin.turns (sampler.tasksOf hashing other.family other.feature).length
        ((sampler.tasksOf hashing other.family other.feature).idxOf other)
        (RoundRobin.turns (sampler.features hashing order other.family).length
          ((sampler.features hashing order other.family).idxOf other.feature)
          (RoundRobin.turns sampler.families.length (sampler.families.idxOf other.family) plans.length)) := by
  have familyListed := built.mem_families.mpr ⟨other, listed, rfl⟩
  have featureListed : other.feature ∈ sampler.features hashing order other.family :=
    mem_features.mpr ⟨other, listed, rfl, rfl⟩
  have taskListed : other ∈ sampler.tasksOf hashing other.family other.feature :=
    mem_tasksOf.mpr ⟨listed, rfl, rfl⟩
  conv_rhs => rw [RoundRobin.turns]
  rw [← RoundRobin.count_turn_and _ _ (List.idxOf_lt_length_of_mem featureListed),
    ← RoundRobin.count_turn_and _ _ (List.idxOf_lt_length_of_mem familyListed)]
  refine follows.countP_eq (fun task => task = other) _ ?_
  intro turn task scheduled
  have byFamily := (built.seek turn).family_iff scheduled familyListed
  constructor
  · rintro rfl
    exact ⟨byFamily.mp rfl, (feature_iff scheduled featureListed).mp rfl,
      ((built.seek turn).task_iff scheduled taskListed).mp rfl⟩
  · obtain ⟨id, family, feature, named⟩ := other
    rintro ⟨first, second, third⟩
    obtain rfl : task.family = family := byFamily.mpr first
    obtain rfl : task.feature = feature := (feature_iff scheduled featureListed).mpr second
    exact ((built.seek turn).task_iff scheduled taskListed).mpr third

/-! ### Drawing -/

/-- Only a returned group moves the cursor. -/
theorem ends_nextGroup (hashing : Hashing) (order : SetOrder) (sampler : BalancedSampler) (version : String) :
    (nextGroup hashing order version).Ends sampler
      (fun plan after => sampler.scheduled hashing order = .ok plan.task ∧ plan.position = sampler.position ∧
        after = sampler.seek (sampler.position + 1))
      fun _ after => after = sampler := by
  simp only [nextGroup, Effects.ends_bind, Effects.ends_lift, Effects.ends_read, Effects.ends_modify,
    Effects.ends_pure]
  refine ⟨fun _ _ => ⟨fun task scheduled => ⟨fun _ _ => ⟨scheduled, trivial, rfl⟩, fun _ _ => trivial⟩,
    fun _ _ => trivial⟩, fun _ _ => trivial⟩

/-- Groups take the tasks of the positions from the cursor on. -/
theorem draw_spec (hashing : Hashing) (order : SetOrder) (sampler : BalancedSampler) (versions : List String)
    (position : Nat) :
    (draw hashing order versions (sampler.seek position)).2 =
        sampler.seek (position + (groups (draw hashing order versions (sampler.seek position)).1).length) ∧
      ∀ turn plan, (groups (draw hashing order versions (sampler.seek position)).1)[turn]? = some plan →
        (sampler.seek (position + turn)).scheduled hashing order = .ok plan.task ∧
          plan.position = position + turn := by
  induction versions generalizing position with
  | nil => simp [draw, groups]
  | cons version rest ih =>
      have ends := ends_nextGroup hashing order (sampler.seek position) version
      simp only [draw]
      rcases outcome : nextGroup hashing order version (sampler.seek position) with ⟨failure | plan, after⟩
      · have kept := Effects.ends_of_error ends outcome
        subst kept
        exact ih position
      · obtain ⟨scheduled, placed, rfl⟩ := Effects.ends_of_ok ends outcome
        obtain ⟨final, later⟩ := ih (position + 1)
        simp only [seek_position, seek_seek] at final later ⊢
        refine ⟨?_, ?_⟩
        · rw [final]
          simp only [groups, List.filterMap_cons, Except.toOption, List.length_cons]
          congr 1
          omega
        · intro turn other found
          simp only [groups, List.filterMap_cons, Except.toOption] at found
          cases turn with
          | zero =>
              obtain rfl := Option.some.inj found
              exact ⟨scheduled, placed⟩
          | succ turn =>
              have holds := later turn other found
              rwa [Nat.add_assoc, Nat.add_comm 1] at holds

/-! ### Going on from a checkpoint -/

/-- Both processes read the sets of the roster in one order, or the hashes tell the names apart. -/
def SameOrder (hashing : Hashing) (seed : Int) (tasks : List TaskSlot) (order other : SetOrder) : Prop :=
  order = other ∨ (Distinct hashing seed (tasks.map TaskSlot.family) ∧
    Distinct hashing seed (tasks.map TaskSlot.feature))

theorem Distinct.mono {seed : Int} {values others : List String} (distinct : Distinct hashing seed values)
    (within : ∀ value ∈ others, value ∈ values) : Distinct hashing seed others :=
  fun one first two second => distinct one (within one first) two (within two second)

theorem SameOrder.scheduled_eq {other : SetOrder}
    (same : SameOrder hashing sampler.seed sampler.tasks order other) :
    sampler.scheduled hashing order = sampler.scheduled hashing other := by
  obtain rfl | ⟨_, features⟩ := same
  · rfl
  · have agree : ∀ family, sampler.features hashing order family = sampler.features hashing other family := by
      intro family
      refine ordered_eq_of_distinct (features.mono ?_)
      intro value listed
      obtain ⟨task, member, rfl⟩ := List.mem_map.mp listed
      exact List.mem_map_of_mem (List.mem_of_mem_filter member)
    simp only [scheduled, agree]

theorem SameOrder.nextGroup_eq {other : SetOrder}
    (same : SameOrder hashing sampler.seed sampler.tasks order other) (version : String) :
    nextGroup hashing order version sampler = nextGroup hashing other version sampler := by
  by_cases empty : version = ""
  · simp [nextGroup, bind, Effects.lift, refuse, empty]
  · simp [nextGroup, bind, Effects.lift, Effects.read, refuse, empty, same.scheduled_eq]

theorem SameOrder.draw_eq {other : SetOrder} (same : SameOrder hashing sampler.seed sampler.tasks order other)
    (versions : List String) (position : Nat) :
    draw hashing order versions (sampler.seek position) = draw hashing other versions (sampler.seek position) := by
  induction versions generalizing position with
  | nil => rfl
  | cons version rest ih =>
      have step : nextGroup hashing order version (sampler.seek position) =
          nextGroup hashing other version (sampler.seek position) :=
        @SameOrder.nextGroup_eq hashing order (sampler.seek position) other same version
      have moves := ends_nextGroup hashing other (sampler.seek position) version
      simp only [draw, step]
      rcases outcome : nextGroup hashing other version (sampler.seek position) with ⟨failure | plan, after⟩
      · have kept := Effects.ends_of_error moves outcome
        subst kept
        simp only [ih]
      · obtain ⟨_, _, rfl⟩ := Effects.ends_of_ok moves outcome
        simp only [seek_seek, ih]

/-- The same tasks in any order make the same sampler. -/
theorem create_perm {tasks roster : List TaskSlot} {seed groupSize : Int} {other : SetOrder}
    (created : create hashing order tasks seed groupSize = .ok sampler) (same : roster.Perm tasks)
    (orders : SameOrder hashing seed tasks order other) :
    create hashing other roster seed groupSize = .ok sampler := by
  obtain ⟨inhabited, nonnegative, size, unique, rfl⟩ := create_eq_ok.mp created
  have sorted : sortBy TaskSlot.taskId roster = sortBy TaskSlot.taskId tasks := by
    refine sortBy_eq_of_perm ?_ same
    intro one first two second equal
    exact List.inj_on_of_nodup_map unique (same.mem_iff.mp first) (same.mem_iff.mp second) equal
  have families : ordered hashing order seed ((sortBy TaskSlot.taskId tasks).map TaskSlot.family) =
      ordered hashing other seed ((sortBy TaskSlot.taskId tasks).map TaskSlot.family) := by
    obtain rfl | ⟨distinct, _⟩ := orders
    · rfl
    · refine ordered_eq_of_distinct (distinct.mono fun value listed => ?_)
      rwa [((sortBy_perm TaskSlot.taskId tasks).map TaskSlot.family).mem_iff] at listed
  refine create_eq_ok.mpr ⟨?_, nonnegative, size, (same.map TaskSlot.taskId).nodup_iff.mpr unique, ?_⟩
  · rintro rfl
    exact inhabited same.symm.eq_nil
  · rw [sorted, families]

theorem load_stateDict (sampler : BalancedSampler) (position other : Nat) :
    loadStateDict (sampler.seek position).stateDict (sampler.seek other) = (.ok (), sampler.seek position) := by
  have nonnegative : ¬ (position : Int) < 0 := by omega
  simp [loadStateDict, stateDict, bind, Effects.read, Effects.lift, Effects.modify, refuse, seek, nonnegative]

end Schedule

/-! ### Balance -/

section Balance

/-- No family, no feature of a family and no task of a feature is ahead by more than one group. -/
structure Balanced (tasks : List TaskSlot) (plans : List GroupPlan) : Prop where
  families : ∀ one ∈ tasks, ∀ two ∈ tasks,
    plans.countP (fun plan => plan.task.family = one.family) ≤
      plans.countP (fun plan => plan.task.family = two.family) + 1
  features : ∀ one ∈ tasks, ∀ two ∈ tasks, one.family = two.family →
    plans.countP (fun plan => plan.task.family = one.family ∧ plan.task.feature = one.feature) ≤
      plans.countP (fun plan => plan.task.family = two.family ∧ plan.task.feature = two.feature) + 1
  tasks : ∀ one ∈ tasks, ∀ two ∈ tasks, one.family = two.family → one.feature = two.feature →
    plans.countP (fun plan => plan.task = one) ≤ plans.countP (fun plan => plan.task = two) + 1

variable {hashing : Hashing} {order : SetOrder} {sampler : BalancedSampler}

theorem Built.balanced (built : Built hashing order sampler) {plans : List GroupPlan}
    (follows : Follows hashing order sampler plans) : Balanced sampler.tasks plans where
  families := by
    intro one first two second
    have oneListed := built.mem_families.mpr ⟨one, first, rfl⟩
    have twoListed := built.mem_families.mpr ⟨two, second, rfl⟩
    rw [built.count_family follows oneListed, built.count_family follows twoListed]
    exact RoundRobin.turns_le_succ _ (List.idxOf_lt_length_of_mem oneListed) (List.idxOf_lt_length_of_mem twoListed)
  features := by
    intro one first two second same
    have oneListed : one.feature ∈ sampler.features hashing order two.family :=
      BalancedSampler.mem_features.mpr ⟨one, first, same, rfl⟩
    have twoListed : two.feature ∈ sampler.features hashing order two.family :=
      BalancedSampler.mem_features.mpr ⟨two, second, rfl, rfl⟩
    rw [same, built.count_feature follows oneListed, built.count_feature follows twoListed]
    exact RoundRobin.turns_le_succ _ (List.idxOf_lt_length_of_mem oneListed) (List.idxOf_lt_length_of_mem twoListed)
  tasks := by
    intro one first two second sameFamily sameFeature
    have oneListed : one ∈ sampler.tasksOf hashing two.family two.feature :=
      BalancedSampler.mem_tasksOf.mpr ⟨first, sameFamily, sameFeature⟩
    have twoListed : two ∈ sampler.tasksOf hashing two.family two.feature :=
      BalancedSampler.mem_tasksOf.mpr ⟨second, rfl, rfl⟩
    rw [built.count_task follows first, built.count_task follows second, sameFamily, sameFeature]
    exact RoundRobin.turns_le_succ _ (List.idxOf_lt_length_of_mem oneListed) (List.idxOf_lt_length_of_mem twoListed)

theorem Balanced.of_perm {tasks roster : List TaskSlot} {plans : List GroupPlan} (balanced : Balanced roster plans)
    (same : roster.Perm tasks) : Balanced tasks plans where
  families := fun one first two second =>
    balanced.families one (same.mem_iff.mpr first) two (same.mem_iff.mpr second)
  features := fun one first two second =>
    balanced.features one (same.mem_iff.mpr first) two (same.mem_iff.mpr second)
  tasks := fun one first two second =>
    balanced.tasks one (same.mem_iff.mpr first) two (same.mem_iff.mpr second)

end Balance

/-- The groups of a sampler are balanced after every one of them, and a sampler that loads a
checkpoint goes on as the one that wrote it. -/
theorem sampler_sound (hashing : Hashing) (order : SetOrder) (tasks : List TaskSlot) (seed groupSize : Int)
    (sampler : BalancedSampler) (created : create hashing order tasks seed groupSize = .ok sampler) :
    (∀ versions, Balanced tasks (groups (draw hashing order versions sampler).1) ∧
      (draw hashing order versions sampler).2 =
        sampler.seek (groups (draw hashing order versions sampler).1).length) ∧
      ∀ resumed roster position, SameOrder hashing seed tasks order resumed → roster.Perm tasks →
        ∃ fresh restored, create hashing resumed roster seed groupSize = .ok fresh ∧
          BalancedSampler.loadStateDict (sampler.seek position).stateDict fresh = (.ok (), restored) ∧
          ∀ versions, draw hashing resumed versions restored =
            draw hashing order versions (sampler.seek position) := by
  have built := built_create created
  obtain ⟨_, _, _, _, made⟩ := create_eq_ok.mp created
  have start : sampler.seek 0 = sampler := by rw [made]; rfl
  have seeded : sampler.seed = seed := by rw [made]
  have listed : sampler.tasks.Perm tasks := by rw [made]; exact sortBy_perm _ _
  refine ⟨fun versions => ?_, ?_⟩
  · have spec := draw_spec hashing order sampler versions 0
    rw [start, Nat.zero_add] at spec
    refine ⟨(built.balanced fun turn plan found => ?_).of_perm listed, spec.1⟩
    have scheduled := (spec.2 turn plan found).1
    rwa [Nat.zero_add] at scheduled
  · intro resumed roster position orders same
    refine ⟨sampler, sampler.seek position, create_perm created same orders, ?_, fun versions => ?_⟩
    · have loaded := load_stateDict sampler position 0
      rwa [start] at loaded
    · refine (SameOrder.draw_eq ?_ versions position).symm
      rw [seeded]
      refine orders.imp id fun distinct => ⟨distinct.1.mono ?_, distinct.2.mono ?_⟩
      · intro value member
        rwa [(listed.map TaskSlot.family).mem_iff] at member
      · intro value member
        rwa [(listed.map TaskSlot.feature).mem_iff] at member

namespace Sample

def roster : String := "5ffa5ced48241abd701857c95ae968688d0ab212dd84541329ec754bb09963a3"

def group : String := "22c316d0cc07633aa7fe122e37fdcc77e8e600fac1efabdb32402b6927072132"

def episode : Int → String
  | 0 => "ada28c020e09f8203b9da2ae91cb2d50e07c513f51c23dd813cb8c37db2e3ebb"
  | _ => "a824efc1e781e6895395839bffd69234128d8d70103c815f50749de6c34d6b9c"

def name : String → String
  | "x" => "b5b775e3cd5aeb33a994ca7094eff8258b8616ae366c660c835f7ac458d6e673"
  | "y" => "3cce518b4c48837aec8250d91891c91be3a465875f76215a77a3819567755797"
  | "f" => "94e924d7041c7e064ebe79956e498c70237c130cacd77742c4c1a3d895f7629f"
  | "a" => "744470b3c38f10a97be5f0f58b043dba724fe7153fdbaf846fb4f81379ea8a2e"
  | _ => "5289a91a43de4448e6da220e6391f09b7733006240077172f38365d6ae96b693"

/-- The hashes of what the sample hashes. -/
def digest : Json → String
  | .arr [.int _, .str value] => name value
  | .arr [.str _, .str _, .int turn] => episode turn
  | .arr [.str _, .str _] => "8b5a61518fe1a59b9822cb39bfe8f87ea93cda8d1b526723165607ef9f9ca321"
  | .arr [.str _, .int _, .int _, .str _, .int _] => group
  | _ => roster

def hashing : Hashing where
  digest := digest
  hex := by
    intro value
    unfold digest
    split
    · unfold name
      split <;> decide +kernel
    · unfold episode
      split <;> decide +kernel
    all_goals decide +kernel

def inserted : SetOrder where
  read := List.dedup
  nodup := List.nodup_dedup
  mem := fun _ _ => List.mem_dedup

def reversed : SetOrder where
  read := fun values => values.dedup.reverse
  nodup := fun values => List.nodup_reverse.mpr (List.nodup_dedup values)
  mem := fun values value => by rw [List.mem_reverse, List.mem_dedup]

def tasks : List TaskSlot := [⟨"a", "x", "f", by decide +kernel⟩, ⟨"b", "y", "f", by decide +kernel⟩]

def sampler : BalancedSampler where
  tasks := tasks
  seed := 0
  groupSize := 2
  position := 0
  rosterDigest := roster
  families := ["y", "x"]

theorem created : create hashing inserted tasks 0 2 = .ok sampler := by
  refine create_eq_ok.mpr ⟨by decide, by decide, by decide, by decide +kernel, ?_⟩
  have sorted : sortBy TaskSlot.taskId tasks = tasks := by decide +kernel
  have families : ordered hashing inserted 0 (tasks.map TaskSlot.family) = ["y", "x"] := by decide +kernel
  rw [sorted, families]
  rfl

theorem drawn : (groups (draw hashing inserted ["v"] sampler).1).map GroupPlan.position = [0] := by
  decide +kernel

theorem distinct : SameOrder hashing 0 tasks inserted reversed := by
  refine .inr ⟨?_, ?_⟩ <;> unfold Distinct <;> decide +kernel

end Sample

theorem sampler_sound_sample :
    (groups (draw Sample.hashing Sample.inserted ["v"] Sample.sampler).1).length = 1 ∧
      Balanced Sample.tasks (groups (draw Sample.hashing Sample.inserted ["v"] Sample.sampler).1) ∧
      ∃ fresh restored, create Sample.hashing Sample.reversed Sample.tasks.reverse 0 2 = .ok fresh ∧
        BalancedSampler.loadStateDict (Sample.sampler.seek 1).stateDict fresh = (.ok (), restored) ∧
        ∀ versions, draw Sample.hashing Sample.reversed versions restored =
          draw Sample.hashing Sample.inserted versions (Sample.sampler.seek 1) := by
  obtain ⟨balanced, resumes⟩ := sampler_sound Sample.hashing Sample.inserted Sample.tasks 0 2 Sample.sampler
    Sample.created
  refine ⟨?_, (balanced ["v"]).1, resumes Sample.reversed _ 1 Sample.distinct Sample.tasks.reverse_perm⟩
  rw [← List.length_map GroupPlan.position, Sample.drawn]
  rfl

end Sampling

end FeatureRl
