import FeatureRl.Evaluation.Estimates

/-!
A complete ledger of an accepted preregistration has one unit for every arm, task and seed, made
of exactly the episodes that were observed for it.
-/

namespace FeatureRl

open Checked Sorting

namespace Evaluation

variable {P B L : Type} {roster : FrozenRoster} {preregistration : EvaluationPreregistration P B L}
  {trials : List TrialResult}

/-! ### Cells and their episodes -/

/-- Every task and seed. -/
def assignedCells (roster : FrozenRoster) (preregistration : EvaluationPreregistration P B L) : List Cell :=
  (roster.lockedTasks.map taskKey).product preregistration.seeds.seeds.dedup

def resultKey (trial : TrialResult) : UnitKey := (taskKey trial.task, trial.policySeed, trial.arm)

def episodesOf (trials : List TrialResult) (arm : ArmName) (cell : Cell) : List TrialResult :=
  trials.filter fun trial => resultKey trial = (cell.1, cell.2, arm)

/-- Every episode of a unit was measured. -/
def measured (trials : List TrialResult) (arm : ArmName) (cell : Cell) : Bool :=
  (episodesOf trials arm cell).all fun trial => trial.resolved.isSome

/-- Some episode of a unit was resolved. -/
def success (trials : List TrialResult) (arm : ArmName) (cell : Cell) : Bool :=
  (episodesOf trials arm cell).any fun trial => trial.resolved = some true

def unitValue (trials : List TrialResult) (arm : ArmName) (cell : Cell) : ℚ :=
  if success trials arm cell then 1 else 0

def familyOf (roster : FrozenRoster) (cell : Cell) : Option Identifier :=
  (frozenFamilies roster).get? cell.1

def unitFor (roster : FrozenRoster) (trials : List TrialResult) (arm : ArmName) (cell : Cell) :
    Option TrialUnit :=
  (familyOf roster cell).map fun family => ⟨family, unitValue trials arm cell,
    if measured trials arm cell then some (unitValue trials arm cell) else none⟩

/-- Every assigned trial was observed once, as it was assigned. -/
structure Complete (roster : FrozenRoster) (preregistration : EvaluationPreregistration P B L)
    (trials : List TrialResult) : Prop where
  listed : (trials.map TrialResult.trialId).Perm (preregistration.trials.map TrialAssignment.trialId)
  agrees : ∀ trial ∈ trials, ∀ assignment ∈ preregistration.trials, trial.trialId = assignment.trialId →
    taskKey trial.task = taskKey assignment.task ∧ trial.arm = assignment.arm ∧
      trial.policySeed = assignment.policySeed ∧ trial.caseSeed = assignment.caseSeed
  placed : ∀ trial ∈ trials, ∀ source ∈ roster.sources, taskKey source.task = taskKey trial.task →
    trial.repositoryFamily = source.repositoryFamily

theorem refKey_eq_iff {one two : ArtifactRef} : refKey one = refKey two ↔ taskKey one = taskKey two := by
  simp only [refKey, taskKey, Prod.mk.injEq]
  tauto

theorem frozenFamilies_get? {sources : List SourceAssignment}
    (unique : (sources.map fun source => source.task.sha256).Nodup) {source : SourceAssignment}
    (member : source ∈ sources) :
    (sources.foldl (fun families source => families.set (taskKey source.task) source.repositoryFamily)
      Dict.empty).get? (taskKey source.task) = some source.repositoryFamily := by
  induction sources using List.reverseRecOn with
  | nil => cases member
  | append_singleton earlier last ih =>
      rw [List.foldl_concat, Dict.get?_set]
      rw [List.map_append, List.nodup_append] at unique
      rcases List.mem_append.mp member with before | here
      · have different : taskKey source.task ≠ taskKey last.task := by
          intro same
          have digests : source.task.sha256 = last.task.sha256 := Subtype.ext (congrArg Prod.fst same)
          exact unique.2.2 _ (List.mem_map_of_mem before) _ (by simp) digests
        rw [if_neg different]
        exact ih unique.1 before
      · obtain rfl := List.mem_singleton.mp here
        rw [if_pos rfl]

namespace Complete

variable (complete : Complete roster preregistration trials)

include complete

theorem unique : (trials.map TrialResult.trialId).Nodup :=
  complete.listed.nodup_iff.mpr preregistration.uniqueTrials

theorem same_of_id {one two : TrialResult} (first : one ∈ trials) (second : two ∈ trials)
    (same : one.trialId = two.trialId) : one = two :=
  List.inj_on_of_nodup_map complete.unique first second same

/-- The assignment of a trial. -/
theorem assignment {trial : TrialResult} (member : trial ∈ trials) :
    ∃ assignment ∈ preregistration.trials, assignment.trialId = trial.trialId :=
  List.mem_map.mp (complete.listed.mem_iff.mp (List.mem_map_of_mem member))

theorem observed {assignment : TrialAssignment} (member : assignment ∈ preregistration.trials) :
    ∃ trial ∈ trials, trial.trialId = assignment.trialId :=
  List.mem_map.mp (complete.listed.mem_iff.mpr (List.mem_map_of_mem member))

theorem find {trial : TrialResult} (member : trial ∈ trials) {id : Identifier} (named : trial.trialId = id) :
    trials.find? (fun item => item.trialId = id) = some trial := by
  cases found : trials.find? (fun item => item.trialId = id) with
  | none => exact absurd named (by simpa using List.find?_eq_none.mp found trial member)
  | some other =>
      have same : other.trialId = id := by simpa using List.find?_some found
      rw [complete.same_of_id (List.mem_of_find?_eq_some found) member (same.trans named.symm)]

theorem perm {others : List TrialResult} (same : trials.Perm others) :
    Complete roster preregistration others where
  listed := (same.symm.map _).trans complete.listed
  agrees trial member := complete.agrees trial (same.mem_iff.mpr member)
  placed trial member := complete.placed trial (same.mem_iff.mpr member)

theorem observe_eq_ok {assignment : TrialAssignment} (member : assignment ∈ preregistration.trials) :
    ∃ trial, observe trials assignment = .ok (unitKey assignment, trial) ∧ trial ∈ trials ∧
      trial.trialId = assignment.trialId ∧ resultKey trial = unitKey assignment := by
  obtain ⟨trial, inside, named⟩ := complete.observed member
  obtain ⟨task, arm, seed, _⟩ := complete.agrees trial inside assignment member named
  refine ⟨trial, ?_, inside, named, ?_⟩
  · rw [observe, complete.find inside named]
    rfl
  · rw [resultKey, unitKey, task, arm, seed]

/-- The observed trials in the order of their assignments. -/
theorem entries_eq_ok : ∃ observed : List TrialResult,
    mapAll (observe trials) preregistration.trials =
      .ok (observed.map fun trial => (resultKey trial, trial)) ∧ observed.Perm trials ∧
      observed.map resultKey = preregistration.trials.map unitKey := by
  obtain ⟨entries, found, all⟩ := @mapAll_forall₂ _ _ _ (observe trials)
    (fun assignment entry => entry.1 = unitKey assignment ∧ entry.2 ∈ trials ∧
      entry.2.trialId = assignment.trialId ∧ resultKey entry.2 = unitKey assignment)
    preregistration.trials (fun assignment member => by
      obtain ⟨trial, read, inside, named, key⟩ := complete.observe_eq_ok member
      exact ⟨_, read, rfl, inside, named, key⟩)
  have ids : preregistration.trials.map TrialAssignment.trialId = entries.map (fun entry => entry.2.trialId) :=
    map_eq_of_forall₂ all fun _ _ holds => holds.2.2.1.symm
  have keys : preregistration.trials.map unitKey = entries.map (fun entry => resultKey entry.2) :=
    map_eq_of_forall₂ all fun _ _ holds => holds.2.2.2.symm
  have inside : ∀ trial ∈ entries.map Prod.snd, trial ∈ trials := by
    intro trial member
    obtain ⟨entry, listed, rfl⟩ := List.mem_map.mp member
    obtain ⟨_, _, holds⟩ := forall_of_forall₂ all entry listed
    exact holds.2.1
  have distinct : ((entries.map Prod.snd).map TrialResult.trialId).Nodup := by
    rw [List.map_map, ← show preregistration.trials.map TrialAssignment.trialId =
      entries.map (TrialResult.trialId ∘ Prod.snd) from ids]
    exact preregistration.uniqueTrials
  refine ⟨entries.map Prod.snd, ?_, ?_, ?_⟩
  · rw [found, List.map_map]
    refine congrArg Except.ok ?_
    conv_lhs => rw [← List.map_id entries]
    refine List.map_congr_left fun entry member => ?_
    obtain ⟨_, _, holds⟩ := forall_of_forall₂ all entry member
    exact Prod.ext (holds.1.trans holds.2.2.2.symm) rfl
  · refine (List.perm_ext_iff_of_nodup distinct.of_map complete.unique.of_map).mpr fun trial =>
      ⟨inside trial, fun member => ?_⟩
    obtain ⟨assignment, listed, named⟩ := complete.assignment member
    have id : trial.trialId ∈ (entries.map Prod.snd).map TrialResult.trialId := by
      rw [List.map_map, ← show preregistration.trials.map TrialAssignment.trialId =
        entries.map (TrialResult.trialId ∘ Prod.snd) from ids, ← named]
      exact List.mem_map_of_mem listed
    obtain ⟨other, among, same⟩ := List.mem_map.mp id
    rwa [← complete.same_of_id (inside other among) member same]
  · rw [keys, List.map_map]
    rfl

theorem checkComplete_eq_ok : checkComplete preregistration trials = .ok () := by
  rw [checkComplete, refuse_eq_ok]
  simp only [ne_eq, not_or, not_not]
  exact ⟨complete.listed.length_eq, complete.unique, fun trial => complete.listed.mem_iff.mp,
    fun trial => complete.listed.mem_iff.mpr⟩

end Complete

/-! ### Units -/

variable (preregistered : Preregistered roster preregistration)

include preregistered

theorem familyOf_eq_some {task : TaskKey} {seed : Nat}
    (inside : (task, seed) ∈ assignedCells roster preregistration) :
    ∃ source ∈ roster.sources, taskKey source.task = task ∧
      familyOf roster (task, seed) = some source.repositoryFamily := by
  rw [assignedCells, List.pair_mem_product, List.mem_map] at inside
  obtain ⟨⟨locked, among, rfl⟩, _⟩ := inside
  obtain ⟨source, listed, same⟩ := preregistered.sourced locked among
  refine ⟨source, listed, refKey_eq_iff.mp same, ?_⟩
  rw [familyOf, ← refKey_eq_iff.mp same]
  exact frozenFamilies_get? roster.uniqueTasks listed

theorem mem_assigned {task : TaskKey} {seed : Nat} {arm : ArmName} {episode : Nat} :
    (∃ assignment ∈ preregistration.trials, unitKey assignment = (task, seed, arm) ∧
        assignment.episodeIndex = episode) ↔
      (task, seed) ∈ assignedCells roster preregistration ∧ episode < preregistration.episodesPerTrial := by
  have listed : (∃ assignment ∈ preregistration.trials, unitKey assignment = (task, seed, arm) ∧
      assignment.episodeIndex = episode) ↔ ∃ locked ∈ roster.lockedTasks, taskKey locked = task ∧
        (refKey locked, arm, seed, episode) ∈ preregistration.trials.map trialKey := by
    constructor
    · rintro ⟨assignment, member, key, rfl⟩
      simp only [unitKey, Prod.mk.injEq] at key
      obtain ⟨rfl, rfl, rfl⟩ := key
      have known := (preregistered.assigned _).mp (List.mem_map_of_mem member)
      simp only [expectedTrials, List.mem_flatMap, List.mem_map] at known
      obtain ⟨locked, among, _, _, _, _, _, _, same⟩ := known
      refine ⟨locked, among, refKey_eq_iff.mp (congrArg Prod.fst same), List.mem_map.mpr ⟨assignment, member, ?_⟩⟩
      rw [show refKey locked = refKey assignment.task from congrArg Prod.fst same]
      rfl
    · rintro ⟨locked, among, rfl, key⟩
      obtain ⟨assignment, member, same⟩ := List.mem_map.mp key
      simp only [trialKey, Prod.mk.injEq] at same
      obtain ⟨task, rfl, rfl, rfl⟩ := same
      exact ⟨assignment, member, by rw [unitKey, refKey_eq_iff.mp task], rfl⟩
  rw [listed]
  simp only [preregistered.assigned, expectedTrials, List.mem_flatMap, List.mem_map, List.mem_range,
    Prod.mk.injEq, assignedCells, List.pair_mem_product, List.mem_dedup]
  constructor
  · rintro ⟨locked, among, rfl, other, inside, protocol, _, number, chosen, index, below, same, arms, rfl, rfl⟩
    exact ⟨⟨⟨locked, among, rfl⟩, chosen⟩, below⟩
  · rintro ⟨⟨⟨locked, among, rfl⟩, chosen⟩, below⟩
    obtain ⟨protocol, inside, named⟩ := List.mem_map.mp (preregistered.bothArms arm)
    exact ⟨locked, among, rfl, locked, among, protocol, inside, seed, chosen, episode, below, rfl, named, rfl, rfl⟩

/-- Every unit has as many assignments as there are episodes. -/
theorem count_assigned {task : TaskKey} {seed : Nat} (arm : ArmName)
    (inside : (task, seed) ∈ assignedCells roster preregistration) :
    (preregistration.trials.map unitKey).count (task, seed, arm) = preregistration.episodesPerTrial := by
  have episodes : ((preregistration.trials.filter fun assignment => unitKey assignment = (task, seed, arm)).map
      TrialAssignment.episodeIndex).Perm (List.range preregistration.episodesPerTrial) := by
    refine (List.perm_ext_iff_of_nodup ?_ List.nodup_range).mpr fun episode => ?_
    · refine List.Nodup.map_on ?_ (preregistered.uniqueKeys.of_map.filter _)
      intro one first two second same
      simp only [List.mem_filter, decide_eq_true_eq] at first second
      refine List.inj_on_of_nodup_map preregistered.uniqueKeys first.1 second.1 ?_
      have keys := first.2.trans second.2.symm
      simp only [unitKey, Prod.mk.injEq] at keys
      obtain ⟨tasks, seeds, arms⟩ := keys
      rw [trialKey, trialKey, refKey_eq_iff.mpr tasks, seeds, arms, same]
    · rw [List.mem_range, List.mem_map]
      have assigned := @mem_assigned P B L roster preregistration preregistered task seed arm episode
      simp only [inside, true_and] at assigned
      rw [← assigned]
      simp only [List.mem_filter, decide_eq_true_eq, and_assoc]
  rw [List.count_eq_countP, List.countP_map, List.countP_eq_length_filter, ← episodes.length_eq.trans
    List.length_range, List.length_map]
  congr 1
  refine List.filter_congr fun assignment _ => ?_
  rw [Bool.eq_iff_iff, Function.comp_apply, beq_iff_eq, decide_eq_true_eq]

/-- The key of a trial lies in the grid, and its family is that of its cell. -/
theorem resultKey_inside (complete : Complete roster preregistration trials) {trial : TrialResult}
    (member : trial ∈ trials) :
    (taskKey trial.task, trial.policySeed) ∈ assignedCells roster preregistration ∧
      familyOf roster (taskKey trial.task, trial.policySeed) = some trial.repositoryFamily := by
  obtain ⟨assignment, listed, named⟩ := complete.assignment member
  obtain ⟨task, arm, seed, _⟩ := complete.agrees trial member assignment listed named.symm
  have inside := ((mem_assigned preregistered).mp ⟨assignment, listed, rfl, rfl⟩).1
  rw [← task, ← seed] at inside
  obtain ⟨source, among, same, family⟩ := familyOf_eq_some preregistered inside
  exact ⟨inside, by rw [family, complete.placed trial member source among same]⟩

theorem checkTrial_eq_ok (complete : Complete roster preregistration trials) {trial : TrialResult}
    (member : trial ∈ trials) : checkTrial roster preregistration trial = .ok () := by
  obtain ⟨assignment, listed, named⟩ := complete.assignment member
  have found : preregistration.trials.find? (fun item => item.trialId = trial.trialId) = some assignment := by
    cases found : preregistration.trials.find? (fun item => item.trialId = trial.trialId) with
    | none => exact absurd named (by simpa using List.find?_eq_none.mp found assignment listed)
    | some other =>
        have same : other.trialId = trial.trialId := by simpa using List.find?_some found
        rw [List.inj_on_of_nodup_map preregistration.uniqueTrials (List.mem_of_find?_eq_some found) listed
          (same.trans named.symm)]
  obtain ⟨task, arm, seed, cases⟩ := complete.agrees trial member assignment listed named.symm
  obtain ⟨_, family⟩ := resultKey_inside preregistered complete member
  rw [familyOf, task] at family
  rw [checkTrial, found]
  change refuse _ _ = _
  rw [refuse_eq_ok]
  simp only [not_or, not_not]
  exact ⟨task, arm, seed, cases, family.symm⟩

omit preregistered in
theorem unitOf_eq_ok {task : TaskKey} {seed : Nat} {arm : ArmName} {episodes : List TrialResult}
    (same : episodes.Perm (episodesOf trials arm (task, seed))) (filled : episodes ≠ [])
    (length : episodes.length = preregistration.episodesPerTrial)
    (placed : ∀ trial ∈ episodes, familyOf roster (task, seed) = some trial.repositoryFamily) :
    ∃ unit, unitOf preregistration ((task, seed, arm), episodes) = .ok ((task, seed, arm), unit) ∧
      unitFor roster trials arm (task, seed) = some unit := by
  obtain ⟨first, rest, split⟩ := List.exists_cons_of_ne_nil filled
  have head : episodes.head? = some first := by rw [split]; rfl
  have family := placed first (by rw [split]; exact List.mem_cons_self)
  have value : resolvedValue episodes = unitValue trials arm (task, seed) := by
    rw [resolvedValue, unitValue, success, same.any_eq]
  have known : (episodes.all fun trial => trial.resolved.isSome) = measured trials arm (task, seed) := by
    rw [measured, same.all_eq]
  refine ⟨_, ?_, by rw [unitFor, family]; rfl⟩
  simp only [unitOf, head, value, known, bind_eq_ok, refuse_eq_ok, require_eq_ok]
  exact ⟨(), not_not.mpr length, first, rfl, rfl⟩

theorem length_episodes {observed : List TrialResult}
    (keys : observed.map resultKey = preregistration.trials.map unitKey) {task : TaskKey} {seed : Nat} (arm : ArmName)
    (inside : (task, seed) ∈ assignedCells roster preregistration) :
    (observed.filter fun trial => resultKey trial = (task, seed, arm)).length =
      preregistration.episodesPerTrial := by
  rw [← count_assigned preregistered arm inside, ← keys, List.count_eq_countP, List.countP_map,
    List.countP_eq_length_filter]
  congr 1
  refine List.filter_congr fun trial _ => ?_
  rw [Bool.eq_iff_iff, Function.comp_apply, beq_iff_eq, decide_eq_true_eq]

/-- The units are those of the grid, each as it was observed. -/
structure Gridded (roster : FrozenRoster) (preregistration : EvaluationPreregistration P B L)
    (trials : List TrialResult) (units : Units) : Prop where
  unique : (units.map Prod.fst).Nodup
  grid : ∀ task seed arm, (task, seed, arm) ∈ units.map Prod.fst ↔
    (task, seed) ∈ assignedCells roster preregistration
  described : ∀ entry ∈ units, unitFor roster trials entry.1.2.2 (entry.1.1, entry.1.2.1) = some entry.2

theorem unitsOf_eq_ok (complete : Complete roster preregistration trials) :
    ∃ units, unitsOf preregistration trials = .ok units ∧ Gridded roster preregistration trials units := by
  obtain ⟨observed, found, same, keys⟩ := complete.entries_eq_ok
  obtain ⟨entries, named⟩ : ∃ entries, observed.map (fun trial => (resultKey trial, trial)) = entries := ⟨_, rfl⟩
  rw [named] at found
  have under (key : UnitKey) : Dict.under entries key = observed.filter fun trial => resultKey trial = key := by
    rw [Dict.under, ← named, List.filter_map, List.map_map]
    exact List.map_id _
  have grid (task : TaskKey) (seed : Nat) (arm : ArmName) :
      (task, seed, arm) ∈ (Dict.gather entries).keys ↔ (task, seed) ∈ assignedCells roster preregistration := by
    have fsts : entries.map Prod.fst = preregistration.trials.map unitKey := by
      rw [← keys, ← named, List.map_map]
      rfl
    rw [Dict.mem_keys_gather, fsts, List.mem_map]
    constructor
    · rintro ⟨assignment, member, key⟩
      exact ((mem_assigned preregistered).mp ⟨assignment, member, key, rfl⟩).1
    · intro inside
      obtain ⟨assignment, member, key, _⟩ :=
        (mem_assigned preregistered).mpr ⟨inside, preregistration.positive⟩
      exact ⟨assignment, member, key⟩
  have each : ∀ entry ∈ (Dict.gather entries).entries, ∃ unit, unitOf preregistration entry = .ok unit ∧
      (entry.1 = unit.1 ∧ unitFor roster trials unit.1.2.2 (unit.1.1, unit.1.2.1) = some unit.2) := by
    rintro ⟨⟨task, seed, arm⟩, values⟩ member
    obtain ⟨rfl, filled⟩ := Dict.ne_nil_of_mem_gather member
    have inside := (grid task seed arm).mp (Dict.mem_keys.mpr ⟨_, Dict.mem_entries.mp member⟩)
    rw [under] at filled ⊢
    have placed : ∀ trial ∈ observed.filter (fun trial => resultKey trial = (task, seed, arm)),
        familyOf roster (task, seed) = some trial.repositoryFamily := by
      intro trial listed
      obtain ⟨among, key⟩ := List.mem_filter.mp listed
      obtain ⟨_, family⟩ := resultKey_inside preregistered complete (same.mem_iff.mp among)
      have keyed : resultKey trial = (task, seed, arm) := of_decide_eq_true key
      simp only [resultKey, Prod.mk.injEq] at keyed
      rwa [keyed.1, keyed.2.1] at family
    obtain ⟨unit, made, described⟩ := @unitOf_eq_ok P B L roster preregistration trials task seed arm _
      (same.filter _) filled (length_episodes preregistered keys arm inside) placed
    exact ⟨_, made, rfl, described⟩
  obtain ⟨units, made, all⟩ := mapAll_forall₂ each
  have fsts : (Dict.gather entries).keys = units.map Prod.fst :=
    map_eq_of_forall₂ all fun _ _ holds => holds.1
  refine ⟨units, ?_, ?_, ?_, ?_⟩
  · rw [unitsOf, found]
    exact made
  · rw [← fsts]
    exact (Dict.gather entries).nodup
  · intro task seed arm
    rw [← fsts]
    exact grid task seed arm
  · intro entry member
    obtain ⟨_, _, holds⟩ := forall_of_forall₂ all entry member
    exact holds.2

omit preregistered in
/-- The ledger is read in the order of its assignments. -/
theorem unitsOf_perm (complete : Complete roster preregistration trials) {others : List TrialResult}
    (same : trials.Perm others) : unitsOf preregistration others = unitsOf preregistration trials := by
  have observe : ∀ assignment ∈ preregistration.trials,
      observe others assignment = observe trials assignment := by
    intro assignment member
    obtain ⟨trial, inside, named⟩ := complete.observed member
    rw [Evaluation.observe, Evaluation.observe, complete.find inside named,
      (complete.perm same).find (same.mem_iff.mp inside) named]
  have agree {listed : List TrialAssignment} (all : ∀ assignment ∈ listed,
      Evaluation.observe others assignment = Evaluation.observe trials assignment) :
      mapAll (Evaluation.observe others) listed = mapAll (Evaluation.observe trials) listed := by
    induction listed with
    | nil => rfl
    | cons assignment rest ih =>
        obtain ⟨here, later⟩ := List.forall_mem_cons.mp all
        rw [mapAll, mapAll, here, ih later]
  rw [unitsOf, unitsOf, agree observe]

end Evaluation

end FeatureRl
