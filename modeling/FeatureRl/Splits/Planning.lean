import FeatureRl.Splits.Components

/-!
What a split plan guarantees: related sources share a component and its one explicit
partition, a conflict is reported exactly where there is one, and order does not matter.
-/

namespace FeatureRl

open Checked Sorting

namespace SplitPlanner

variable {sha256 : Bytes → Digest} {relations : List Relation} {requested : Dict String Partition}

/-! ### Assigning the components -/

/-- The assignments of one component. -/
def assignments (sha256 : Bytes → Digest) (requested : Dict String Partition) (listed : List String) :
    List SplitAssignment :=
  (sortBy id listed).map fun source =>
    ⟨source, (explicit requested (sortBy id listed)).head?.getD .unassigned,
      componentId sha256 (sortBy id listed)⟩

theorem assign_eq_ok {parts : List (List String)} {assigned result : List SplitAssignment} :
    foldAll (assignComponent sha256 requested) assigned parts = .ok result ↔
      (∀ part ∈ parts, (explicit requested (sortBy id part)).length ≤ 1) ∧
        result = assigned ++ parts.flatMap (assignments sha256 requested) := by
  induction parts generalizing assigned with
  | nil => simp [eq_comm]
  | cons part rest ih =>
      rw [foldAll_cons_eq_ok, List.forall_mem_cons, List.flatMap_cons]
      simp only [assignComponent, bind_eq_ok, refuse_eq_ok, not_lt, Except.ok.injEq, ih]
      constructor
      · rintro ⟨_, ⟨_, few, rfl⟩, others, rfl⟩
        exact ⟨⟨few, others⟩, by rw [List.append_assoc]; rfl⟩
      · rintro ⟨⟨few, others⟩, rfl⟩
        exact ⟨_, ⟨(), few, rfl⟩, others, by rw [List.append_assoc]; rfl⟩

/-- Assigning stops at the first component with a conflict. -/
theorem assign_eq_error {parts : List (List String)} {assigned : List SplitAssignment}
    {failure : SplitError}
    (failed : foldAll (assignComponent sha256 requested) assigned parts = .error failure) :
    ∃ part ∈ parts, 1 < (explicit requested (sortBy id part)).length ∧
      failure = .conflict (conflictMessage (sortBy id part) (explicit requested (sortBy id part))) := by
  induction parts generalizing assigned with
  | nil => cases failed
  | cons part rest ih =>
      rw [foldAll] at failed
      cases here : assignComponent sha256 requested assigned part with
      | ok next =>
          rw [here] at failed
          obtain ⟨later, member, facts⟩ := ih failed
          exact ⟨later, List.mem_cons_of_mem _ member, facts⟩
      | error found =>
          rw [here] at failed
          obtain rfl : found = failure := by injection failed
          refine ⟨part, List.mem_cons_self .., ?_⟩
          simp only [assignComponent, refuse] at here
          split at here
          next many => exact ⟨many, by injection here with same; exact same.symm⟩
          next => cases here

theorem mem_explicit {members : List String} {partition : Partition} :
    partition ∈ explicit requested members ↔ ∃ source ∈ members, requested.get? source = some partition := by
  simp [explicit]

theorem explicit_unique {members : List String} (few : (explicit requested members).length ≤ 1)
    {one two : Partition} (first : one ∈ explicit requested members)
    (second : two ∈ explicit requested members) : one = two := by
  match found : explicit requested members with
  | [] => rw [found] at first; cases first
  | [only] =>
      rw [found, List.mem_singleton] at first second
      rw [first, second]
  | _ :: _ :: _ => rw [found] at few; simp at few

theorem explicit_many {members : List String} (many : 1 < (explicit requested members).length) :
    ∃ one ∈ explicit requested members, ∃ two ∈ explicit requested members, one ≠ two := by
  have distinct : (explicit requested members).Nodup := List.nodup_dedup _
  match found : explicit requested members with
  | [] => rw [found] at many; simp at many
  | [_] => rw [found] at many; simp at many
  | one :: two :: _ =>
      rw [found] at distinct
      refine ⟨one, by simp, two, by simp, fun same => ?_⟩
      subst same
      exact (List.nodup_cons.mp distinct).1 (List.mem_cons_self ..)

theorem head_explicit {members : List String} (few : (explicit requested members).length ≤ 1)
    {source : String} (member : source ∈ members) {partition : Partition}
    (asked : requested.get? source = some partition) :
    (explicit requested members).head?.getD .unassigned = partition := by
  have inside : partition ∈ explicit requested members := mem_explicit.mpr ⟨source, member, asked⟩
  match found : explicit requested members with
  | [] => rw [found] at inside; cases inside
  | first :: _ =>
      refine explicit_unique few ?_ inside
      rw [found]
      exact List.mem_cons_self ..

/-! ### Plans -/

/-- Two related sources with different explicit partitions. -/
def Conflicting (relations : List Relation) (requested : Dict String Partition) : Prop :=
  ∃ one two first second, Related relations one two ∧ requested.get? one = some first ∧
    requested.get? two = some second ∧ first ≠ second

/-- What a manifest says about its relations and requests. -/
structure Planned (relations : List Relation) (requested : Dict String Partition)
    (manifest : PartitionManifest) : Prop where
  sources : ∀ source, (∃ entry ∈ manifest.assignments, entry.sourceId = source) ↔
    source ∈ nodes relations requested
  unique : (manifest.assignments.map SplitAssignment.sourceId).Nodup
  component : ∀ one ∈ manifest.assignments, ∀ two ∈ manifest.assignments,
    one.componentId = two.componentId ↔ Related relations one.sourceId two.sourceId
  explicit : ∀ entry ∈ manifest.assignments, ∀ other partition,
    Related relations entry.sourceId other → requested.get? other = some partition →
    entry.partition = partition
  unassigned : ∀ entry ∈ manifest.assignments,
    (∀ other, Related relations entry.sourceId other → requested.get? other = none) →
    entry.partition = .unassigned
  relations_eq : manifest.relations.Perm relations
  reviewed : ∀ relation, relation ∈ manifest.reviewRequired ↔
    relation ∈ relations ∧ relation.kind = .dependency

theorem asked_mem_nodes {source : String} {partition : Partition}
    (asked : requested.get? source = some partition) : source ∈ nodes relations requested :=
  mem_nodes.mpr (.inl (Dict.mem_keys.mpr ⟨partition, asked⟩))

theorem related_mem_sorted {one two : String} (known : one ∈ nodes relations requested)
    (also : two ∈ nodes relations requested) (related : Related relations one two) :
    two ∈ sortBy id (classOf relations requested one) :=
  mem_sortBy.mpr ((mem_classOf known).mpr ⟨also, related⟩)

/-- A component has two explicit partitions exactly if the plan is conflicting. -/
theorem conflicting_iff : Conflicting relations requested ↔
    ∃ part ∈ classes relations requested, 1 < (explicit requested (sortBy id part)).length := by
  constructor
  · rintro ⟨one, two, first, second, related, asked, also, different⟩
    have known : one ∈ nodes relations requested := asked_mem_nodes asked
    have other : two ∈ nodes relations requested := asked_mem_nodes also
    refine ⟨classOf relations requested one, mem_classes.mpr ⟨one, known, rfl⟩, ?_⟩
    by_contra few
    refine different (explicit_unique (Nat.le_of_not_lt few) ?_ ?_)
    · exact mem_explicit.mpr ⟨one, related_mem_sorted known known (.refl one), asked⟩
    · exact mem_explicit.mpr ⟨two, related_mem_sorted known other related, also⟩
  · rintro ⟨part, member, many⟩
    obtain ⟨node, known, rfl⟩ := mem_classes.mp member
    obtain ⟨first, here, second, there, different⟩ := explicit_many many
    obtain ⟨one, inside, asked⟩ := mem_explicit.mp here
    obtain ⟨two, within, also⟩ := mem_explicit.mp there
    have left := ((mem_classOf known).mp (mem_sortBy.mp inside)).2
    have right := ((mem_classOf known).mp (mem_sortBy.mp within)).2
    exact ⟨one, two, first, second, .trans _ _ _ (.symm _ _ left) right, asked, also, different⟩

/-- The assignments of the component of a node. -/
theorem mem_assigned {entry : SplitAssignment} :
    entry ∈ (classes relations requested).flatMap (assignments sha256 requested) ↔
      entry.sourceId ∈ nodes relations requested ∧
      entry.partition = (explicit requested
        (sortBy id (classOf relations requested entry.sourceId))).head?.getD .unassigned ∧
      entry.componentId =
        componentId sha256 (sortBy id (classOf relations requested entry.sourceId)) := by
  rw [List.mem_flatMap]
  constructor
  · rintro ⟨part, listed, member⟩
    obtain ⟨node, known, rfl⟩ := mem_classes.mp listed
    obtain ⟨source, inside, rfl⟩ := List.mem_map.mp member
    obtain ⟨other, related⟩ := (mem_classOf known).mp (mem_sortBy.mp inside)
    have same : classOf relations requested node = classOf relations requested source := by
      rw [classOf, classOf, (rootOf_eq_iff known other).mpr related]
    refine ⟨other, ?_, ?_⟩ <;> rw [same]
  · rintro ⟨known, partition, component⟩
    refine ⟨classOf relations requested entry.sourceId, mem_classes.mpr ⟨_, known, rfl⟩, ?_⟩
    refine List.mem_map.mpr ⟨entry.sourceId, related_mem_sorted known known (.refl _), ?_⟩
    rw [← partition, ← component]

theorem nodup_assigned : (((classes relations requested).flatMap
    (assignments sha256 requested)).map SplitAssignment.sourceId).Nodup := by
  have sources (part : List String) :
      (assignments sha256 requested part).map SplitAssignment.sourceId = sortBy id part := by
    rw [assignments, List.map_map]
    exact List.map_id _
  rw [List.map_flatMap, List.nodup_flatMap]
  refine ⟨fun part member => ?_, (pairwise_classes relations requested).imp ?_⟩
  · obtain ⟨node, _, rfl⟩ := mem_classes.mp member
    rw [sources, nodup_sortBy]
    exact (nodup_nodes relations requested).filter _
  · intro one two disjoint source first second
    simp only [sources, mem_sortBy] at first second
    exact disjoint first second

theorem planned (safe : requested.keys.all isSourceId = true)
    (injective : Set.InjOn sha256 (hashed relations requested))
    (few : ∀ part ∈ classes relations requested, (explicit requested (sortBy id part)).length ≤ 1) :
    Planned relations requested
      ⟨sortBy SplitAssignment.key
          ((classes relations requested).flatMap (assignments sha256 requested)),
        sortBy Relation.key relations,
        sortBy Relation.key (relations.filter fun relation => relation.kind = .dependency)⟩ := by
  constructor
  · intro source
    constructor
    · rintro ⟨entry, member, rfl⟩
      exact (mem_assigned.mp (mem_sortBy.mp member)).1
    · intro known
      refine ⟨⟨source, (explicit requested
        (sortBy id (classOf relations requested source))).head?.getD .unassigned,
        componentId sha256 (sortBy id (classOf relations requested source))⟩, ?_, rfl⟩
      exact mem_sortBy.mpr (mem_assigned.mpr ⟨known, rfl, rfl⟩)
  · exact ((sortBy_perm _ _).map _).nodup_iff.mpr nodup_assigned
  · intro one first two second
    obtain ⟨known, _, component⟩ := mem_assigned.mp (mem_sortBy.mp first)
    obtain ⟨also, _, other⟩ := mem_assigned.mp (mem_sortBy.mp second)
    rw [component, other]
    exact componentId_eq_iff safe injective known also
  · intro entry member other partition related asked
    obtain ⟨known, assigned, _⟩ := mem_assigned.mp (mem_sortBy.mp member)
    rw [assigned]
    exact head_explicit (few _ (mem_classes.mpr ⟨_, known, rfl⟩))
      (related_mem_sorted known (asked_mem_nodes asked) related) asked
  · intro entry member free
    obtain ⟨known, assigned, _⟩ := mem_assigned.mp (mem_sortBy.mp member)
    have none_asked : explicit requested (sortBy id (classOf relations requested entry.sourceId)) = [] := by
      refine List.eq_nil_iff_forall_not_mem.mpr fun partition found => ?_
      obtain ⟨source, inside, asked⟩ := mem_explicit.mp found
      rw [free source ((mem_classOf known).mp (mem_sortBy.mp inside)).2] at asked
      cases asked
    rw [assigned, none_asked]
    rfl
  · exact sortBy_perm _ _
  · intro relation
    simp

/-- What a plan returns or reports. -/
def Correct (relations : List Relation) (requested : Dict String Partition) :
    Except SplitError PartitionManifest → Prop
  | .ok manifest => ¬ Conflicting relations requested ∧ Planned relations requested manifest
  | .error (.conflict _) => Conflicting relations requested
  | .error (.value _) => ¬ relations.Nodup ∨ requested.keys.all isSourceId = false

theorem plan_correct (injective : Set.InjOn sha256 (hashed relations requested)) :
    Correct relations requested (plan sha256 relations requested) := by
  rw [plan]
  by_cases distinct : relations.Nodup
  · cases safe : requested.keys.all isSourceId with
    | false =>
        simp only [refuse, distinct, not_true_eq_false, ↓reduceIte, bind, Except.bind, Correct, safe,
          or_true]
    | true =>
        simp only [refuse, distinct, not_true_eq_false, ↓reduceIte, bind, Except.bind,
          Bool.true_eq_false]
        cases assigned : foldAll (assignComponent sha256 requested) []
            (components (parents relations requested) (nodes relations requested)) with
        | ok result =>
            obtain ⟨few, rfl⟩ := assign_eq_ok.mp assigned
            refine ⟨?_, planned safe injective few⟩
            rw [conflicting_iff]
            rintro ⟨part, member, many⟩
            exact absurd (few part member) (Nat.not_le.mpr many)
        | error failure =>
            obtain ⟨part, member, many, rfl⟩ := assign_eq_error assigned
            exact conflicting_iff.mpr ⟨part, member, many⟩
  · simp only [refuse, distinct, not_false_eq_true, ↓reduceIte, bind, Except.bind, Correct, true_or]

/-- An accepted plan has no conflict. -/
theorem agrees_of_plan {manifest : PartitionManifest}
    (accepted : plan sha256 relations requested = .ok manifest) : ¬ Conflicting relations requested := by
  simp only [plan, bind_eq_ok] at accepted
  obtain ⟨_, _, _, _, assigned, found, _⟩ := accepted
  rw [conflicting_iff]
  rintro ⟨part, member, many⟩
  exact absurd ((assign_eq_ok.mp found).1 part member) (Nat.not_le.mpr many)

/-! ### Order -/

theorem nodes_eq {others : List Relation} {asked : Dict String Partition}
    (sameRelations : relations.Perm others)
    (sameRequests : ∀ source, requested.get? source = asked.get? source) :
    nodes relations requested = nodes others asked := by
  refine sortBy_eq_of_perm (fun one _ two _ same => same) ?_
  rw [List.perm_ext_iff_of_nodup (List.nodup_dedup _) (List.nodup_dedup _)]
  intro source
  simp only [List.mem_dedup, List.mem_append, List.mem_flatMap, Dict.mem_keys_iff_isSome, sameRequests,
    sameRelations.mem_iff]

/-- Neither the order of the relations nor that of the requests matters. -/
theorem plan_perm (sha256 : Bytes → Digest) {others : List Relation} {asked : Dict String Partition}
    (sameRelations : relations.Perm others)
    (sameRequests : ∀ source, requested.get? source = asked.get? source) :
    plan sha256 relations requested = plan sha256 others asked := by
  have keyed : ∀ one ∈ relations, ∀ two ∈ relations, one.key = two.key → one = two :=
    fun _ _ _ _ same => Relation.key_injective same
  have sorted := sortBy_eq_of_perm keyed sameRelations
  have nodes := nodes_eq sameRelations sameRequests
  have parent : parents relations requested = parents others asked := by
    rw [parents, parents, nodes, sorted]
  have reviewed := sortBy_eq_of_perm
    (fun one _ two _ same => Relation.key_injective same)
    (sameRelations.filter fun relation => relation.kind = .dependency)
  have explicit_eq : explicit requested = explicit asked := by
    funext members
    rw [explicit, explicit, funext sameRequests]
  have assign : assignComponent sha256 requested = assignComponent sha256 asked := by
    funext assigned listed
    rw [assignComponent, assignComponent, explicit_eq]
  have safe : requested.keys.all isSourceId = asked.keys.all isSourceId := by
    rw [Bool.eq_iff_iff, List.all_eq_true, List.all_eq_true]
    simp only [Dict.mem_keys_iff_isSome, sameRequests]
  simp only [plan, sorted, nodes, parent, reviewed, assign, safe, sameRelations.nodup_iff]

end SplitPlanner

end FeatureRl
