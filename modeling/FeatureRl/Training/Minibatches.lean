import FeatureRl.Lib.Batches
import FeatureRl.Lib.Rounding
import FeatureRl.Training.Groups

/-!
The minibatches of an update: places of rows for the native trainer, and the number of optimizer
steps that the service charges for them.
-/

namespace FeatureRl

open Checked Batches

namespace Training

/-! ### Boundaries of the pinned trainer -/

/-- The ends of the runs of equal labels, and the labels that were seen. -/
def promptEnds : List String → String → Nat → List String → Except Failure (List Nat × List String)
  | seen, _, index, [] => .ok ([index], seen)
  | seen, previous, index, uid :: rest =>
      if uid = previous then promptEnds seen previous (index + 1) rest
      else do
        refuse (uid ∈ seen) .assertion
        let later ← promptEnds (uid :: seen) uid (index + 1) rest
        .ok (index :: later.1, later.2)

def nextBoundary (promptEndIndices : List Nat) (miniBatchSize : Nat) (state : Nat × List (Nat × Nat)) (i : Nat) :
    Except Failure (Nat × List (Nat × Nat)) := do
  let endSeq ← require promptEndIndices[i + miniBatchSize - 1]? .index
  .ok (endSeq, state.2 ++ [(state.1, endSeq)])

def computePromptMiniBatchBoundaries (uids : List String) (miniBatchSize trainBatchSize : Nat) (isStepwise : Bool)
    (nSamplesPerPrompt : Int) : Except Failure (List (Nat × Nat)) := do
  let first ← require uids.head? .index
  let (promptEndIndices, seenUids) ← promptEnds [first] first 1 uids.tail
  let numPrompts := promptEndIndices.length
  refuse (¬ (numPrompts = trainBatchSize ∧ seenUids.length = trainBatchSize)) .assertion
  refuse (trainBatchSize % miniBatchSize ≠ 0) .assertion
  let (_, boundaries) ← foldAll (nextBoundary promptEndIndices miniBatchSize) (0, [])
    (starts numPrompts miniBatchSize)
  refuse (boundaries.length ≠ trainBatchSize / miniBatchSize) .assertion
  let expected := nSamplesPerPrompt * miniBatchSize
  refuse (isStepwise = false ∧ boundaries.zipIdx.any (fun place =>
    ¬ ((place.1.1 : Int) = place.2 * expected ∧ (place.1.2 : Int) - place.1.1 = expected)) = true) .assertion
  .ok boundaries

/-! ### Boundaries of the eligible rows -/

structure TrainerConfig where
  stepWiseTrajectories : Bool
  nSamplesPerPrompt : Int
  policyMiniBatchSize : Int
  /-- A trainer without a critic has no size for it. -/
  criticMiniBatchSize : Option Int

def TrainerConfig.sizes (config : TrainerConfig) : List (String × Int) :=
  ("policy", config.policyMiniBatchSize) :: (config.criticMiniBatchSize.map fun size => ("critic", size)).toList

def contiguous {α : Type} : Except Failure α → Except Failure α
  | .error .assertion => .error (.value "Eligible group rows must be contiguous")
  | outcome => outcome

def minibatch (prompts : List (Nat × Nat)) (count size i : Nat) : Except Failure (Nat × Nat) := do
  let first ← require prompts[i]? .index
  let last ← require prompts[min (i + size) count - 1]? .index
  .ok (first.1, last.2)

def convertEligibleBatch (config : TrainerConfig) (uids : List String) :
    Except Failure (List (String × List (Nat × Nat))) := do
  refuse (uids = [] ∨ "" ∈ uids) (.value "Nonempty eligible group identities required")
  refuse (config.stepWiseTrajectories = false ∨ config.nSamplesPerPrompt < 2)
    (.value "Stepwise conversion requires at least two assigned episodes per group")
  let count := uids.dedup.length
  let prompts ← contiguous (computePromptMiniBatchBoundaries uids 1 count true config.nSamplesPerPrompt)
  refuse (config.sizes.any (fun size => size.2 < 1) = true)
    (.value "Positive integral native minibatch sizes required")
  mapAll (fun size => do
    let places ← mapAll (minibatch prompts count size.2.toNat) (starts count size.2.toNat)
    .ok (size.1 ++ "_mini_batch_boundaries", places)) config.sizes

/-! ### The service -/

structure NativeSettings where
  groupsPerUpdate : Nat
  miniBatchGroups : Nat
  groups : 1 ≤ groupsPerUpdate ∧ groupsPerUpdate ≤ 64
  batches : 1 ≤ miniBatchGroups ∧ miniBatchGroups ≤ 64
  divides : groupsPerUpdate % miniBatchGroups = 0

def nativeOverrides (settings : NativeSettings) (groupSize : Int) : TrainerConfig where
  stepWiseTrajectories := true
  nSamplesPerPrompt := groupSize
  policyMiniBatchSize := settings.miniBatchGroups
  criticMiniBatchSize := none

/-- The quotient is a double. -/
def optimizerSteps (settings : NativeSettings) (rows : List UpdateRow) : Nat :=
  ⌈Binary64.nearest (((rows.map UpdateRow.instanceId).dedup.length : ℚ) / settings.miniBatchGroups)⌉₊

/-! ### Runs of labels -/

/-- The groups are told apart by their labels and none is without rows. -/
structure Labelled (groups : List (String × Nat)) : Prop where
  nodup : (groups.map Prod.fst).Nodup
  occupied : Occupied groups

theorem cut_cons (group : String × Nat) (rest : List (String × Nat)) (count : Nat) :
    cut (group :: rest) (count + 1) = group.2 + cut rest count := by
  simp [cut]

theorem promptEnds_rows {groups : List (String × Nat)} (labelled : Labelled groups) (seen : List String)
    (previous : String) (index more : Nat) (fresh : ∀ label ∈ groups.map Prod.fst, label ∉ seen)
    (known : previous ∈ seen) :
    promptEnds seen previous index (List.replicate more previous ++ rows groups) =
      .ok ((List.range (groups.length + 1)).map fun count => index + more + cut groups count,
        (groups.map Prod.fst).reverse ++ seen) := by
  induction groups generalizing seen previous index more with
  | nil =>
      induction more generalizing index with
      | zero => simp [promptEnds]
      | succ more ih =>
          rw [List.replicate_succ, List.cons_append, promptEnds, if_pos rfl, ih, Nat.add_assoc, Nat.add_comm 1]
  | cons group rest next =>
      induction more generalizing index with
      | zero =>
          obtain ⟨label, count⟩ := group
          obtain ⟨count, rfl⟩ := Nat.exists_eq_succ_of_ne_zero (labelled.occupied _ List.mem_cons_self).ne'
          obtain ⟨unseen, later⟩ := List.forall_mem_cons.mp fresh
          obtain ⟨absent, distinct⟩ := List.nodup_cons.mp labelled.nodup
          have others : Labelled rest := ⟨distinct, fun other member =>
            labelled.occupied other (List.mem_cons_of_mem _ member)⟩
          have started := next others (label :: seen) label (index + 1) count (by
            intro other listed member
            rcases List.mem_cons.mp member with rfl | inside
            · exact absent listed
            · exact later other listed inside) List.mem_cons_self
          have changed : label ≠ previous := fun same => unseen (same ▸ known)
          have passed : refuse (label ∈ seen) Failure.assertion = .ok () := refuse_eq_ok.mpr unseen
          rw [List.replicate_zero, List.nil_append, rows_cons, List.replicate_succ, List.cons_append, promptEnds,
            if_neg changed, passed]
          simp only [bind, Except.bind, started]
          refine congrArg Except.ok (Prod.ext ?_ ?_)
          · rw [List.length_cons, @List.range_succ_eq_map (rest.length + 1), List.map_cons, List.map_map,
              cut_zero]
            refine congrArg (index :: ·) (List.map_congr_left fun turn _ => ?_)
            rw [Function.comp_apply, cut_cons]
            omega
          · simp
      | succ more ih =>
          rw [List.replicate_succ, List.cons_append, promptEnds, if_pos rfl, ih, Nat.add_assoc, Nat.add_comm 1]

/-- Labels that pass are the rows of new groups after those of the previous one. -/
theorem exists_rows {seen : List String} {previous : String} {index : Nat} {uids : List String}
    {result : List Nat × List String} (passed : promptEnds seen previous index uids = .ok result) :
    ∃ more groups, uids = List.replicate more previous ++ rows groups ∧ Labelled groups ∧
      ∀ label ∈ groups.map Prod.fst, label ∉ seen := by
  induction uids generalizing seen previous index result with
  | nil => exact ⟨0, [], rfl, ⟨List.nodup_nil, fun _ member => by cases member⟩, fun _ member => by cases member⟩
  | cons uid rest ih =>
      rw [promptEnds] at passed
      split at passed
      next same =>
        obtain ⟨more, groups, rfl, labelled, fresh⟩ := ih passed
        exact ⟨more + 1, groups, by rw [same, List.replicate_succ, List.cons_append], labelled, fresh⟩
      next changed =>
        simp only [bind_eq_ok, refuse_eq_ok] at passed
        obtain ⟨_, unseen, later, found, _⟩ := passed
        obtain ⟨more, groups, rfl, labelled, fresh⟩ := ih found
        refine ⟨0, (uid, more + 1) :: groups, ?_, ⟨?_, ?_⟩, ?_⟩
        · rw [List.replicate_zero, List.nil_append, rows_cons, List.replicate_succ, List.cons_append]
        · refine List.nodup_cons.mpr ⟨fun member => ?_, labelled.nodup⟩
          exact fresh uid member List.mem_cons_self
        · exact List.forall_mem_cons.mpr ⟨Nat.succ_pos more, labelled.occupied⟩
        · refine List.forall_mem_cons.mpr ⟨unseen, fun label member inside => ?_⟩
          exact fresh label member (List.mem_cons_of_mem _ inside)

theorem dedup_rows {groups : List (String × Nat)} (labelled : Labelled groups) :
    (rows groups).dedup.length = groups.length := by
  have same : (rows groups).dedup.Perm (groups.map Prod.fst) := by
    refine (List.perm_ext_iff_of_nodup (List.nodup_dedup _) labelled.nodup).mpr fun label => ?_
    rw [List.mem_dedup, mem_rows labelled.occupied]
  rw [same.length_eq, List.length_map]

theorem starts_one (count : Nat) : starts count 1 = List.range count := by
  simp [starts]

theorem foldAll_boundaries (groups : List (String × Nat)) (count : Nat) (within : count ≤ groups.length) :
    foldAll (nextBoundary ((List.range groups.length).map fun turn => cut groups (turn + 1)) 1) (0, [])
      (List.range count) =
      .ok (cut groups count, (List.range count).map fun turn => (cut groups turn, cut groups (turn + 1))) := by
  induction count with
  | zero => simp
  | succ count ih =>
      rw [List.range_succ, foldAll_concat_eq_ok]
      refine ⟨_, ih (Nat.le_of_succ_le within), ?_⟩
      have found : ((List.range groups.length).map fun turn => cut groups (turn + 1))[count + 1 - 1]? =
          some (cut groups (count + 1)) := by
        rw [Nat.add_sub_cancel, List.getElem?_map, List.getElem?_range within, Option.map_some]
      rw [nextBoundary, found, List.map_append]
      rfl

/-- The single-prompt boundaries of labelled rows. -/
theorem compute_rows {groups : List (String × Nat)} (labelled : Labelled groups) (some : groups ≠ [])
    (samples : Int) : computePromptMiniBatchBoundaries (rows groups) 1 groups.length true samples =
      .ok ((List.range groups.length).map fun turn => (cut groups turn, cut groups (turn + 1))) := by
  obtain ⟨⟨label, count⟩, rest, rfl⟩ := List.exists_cons_of_ne_nil some
  obtain ⟨count, rfl⟩ := Nat.exists_eq_succ_of_ne_zero (labelled.occupied _ List.mem_cons_self).ne'
  obtain ⟨absent, distinct⟩ := List.nodup_cons.mp labelled.nodup
  have others : Labelled rest := ⟨distinct, fun other member =>
    labelled.occupied other (List.mem_cons_of_mem _ member)⟩
  have ends := promptEnds_rows others [label] label 1 count (fun other listed member =>
    absent (List.mem_singleton.mp member ▸ listed)) List.mem_cons_self
  have cuts : ((List.range (rest.length + 1)).map fun turn => 1 + count + cut rest turn) =
      (List.range ((label, count + 1) :: rest).length).map fun turn =>
        cut ((label, count + 1) :: rest) (turn + 1) := by
    refine List.map_congr_left fun turn _ => ?_
    rw [cut_cons, Nat.add_comm 1]
  rw [cuts] at ends
  have folded := foldAll_boundaries ((label, count + 1) :: rest) _ le_rfl
  simp only [computePromptMiniBatchBoundaries, bind_eq_ok, require_eq_ok, refuse_eq_ok]
  refine ⟨label, rfl, _, ends, (), ?_, (), ?_, (cut ((label, count + 1) :: rest) (rest.length + 1), _), ?_,
    (), ?_, (), ?_, rfl⟩
  · simp
  · simp [Nat.mod_one]
  · rw [List.length_map, List.length_range, starts_one]
    exact folded
  · simp
  · simp

theorem mapAll_minibatch (groups : List (String × Nat)) {size : Nat} (some : 0 < size) :
    mapAll (minibatch ((List.range groups.length).map fun turn => (cut groups turn, cut groups (turn + 1)))
      groups.length size) (starts groups.length size) = .ok (boundaries groups size) := by
  refine mapAll_eq_ok fun first member => ?_
  obtain ⟨turn, inside, rfl⟩ := List.mem_map.mp member
  have start := last_start_lt some (List.mem_range.mp inside)
  have last : min (turn * size + size) groups.length - 1 < groups.length := by omega
  have behind : min (turn * size + size) groups.length - 1 + 1 = min (turn * size + size) groups.length := by omega
  rw [minibatch, List.getElem?_map, List.getElem?_range start, List.getElem?_map, List.getElem?_range last]
  simp only [Option.map_some, require, bind, Except.bind, behind]

/-! ### The conversion -/

def TrainerConfig.Valid (config : TrainerConfig) : Prop :=
  config.stepWiseTrajectories = true ∧ 2 ≤ config.nSamplesPerPrompt ∧ ∀ size ∈ config.sizes, 1 ≤ size.2

theorem convert_rows {config : TrainerConfig} (valid : config.Valid) {groups : List (String × Nat)}
    (labelled : Labelled groups) (some : groups ≠ []) (named : "" ∉ groups.map Prod.fst) :
    convertEligibleBatch config (rows groups) = .ok (config.sizes.map fun size =>
      (size.1 ++ "_mini_batch_boundaries", boundaries groups size.2.toNat)) := by
  obtain ⟨stepwise, samples, sizes⟩ := valid
  have nonempty : rows groups ≠ [] := by
    obtain ⟨group, member⟩ := List.exists_mem_of_ne_nil _ some
    exact List.ne_nil_of_mem ((mem_rows labelled.occupied).mpr (List.mem_map_of_mem member))
  simp only [convertEligibleBatch, bind_eq_ok, refuse_eq_ok, dedup_rows labelled, compute_rows labelled some]
  refine ⟨(), ?_, (), ?_, _, rfl, (), ?_, mapAll_eq_ok fun size member => ?_⟩
  · rw [mem_rows labelled.occupied]
    exact not_or.mpr ⟨nonempty, named⟩
  · rw [stepwise]
    exact not_or.mpr ⟨by decide, not_lt.mpr samples⟩
  · simpa using fun model size member => sizes (model, size) member
  · have positive : 0 < size.2.toNat := by
      have least := sizes size member
      omega
    rw [mapAll_minibatch groups positive]
    rfl

/-- A conversion takes a valid configuration and rows that lie group by group. -/
theorem convert_inv {config : TrainerConfig} {uids : List String} {data : List (String × List (Nat × Nat))}
    (converted : convertEligibleBatch config uids = .ok data) : config.Valid ∧
      ∃ groups, Labelled groups ∧ groups ≠ [] ∧ "" ∉ groups.map Prod.fst ∧ uids = rows groups := by
  simp only [convertEligibleBatch, bind_eq_ok, refuse_eq_ok, not_or, not_lt] at converted
  obtain ⟨_, ⟨nonempty, named⟩, _, ⟨stepwise, samples⟩, prompts, computed, _, sizes, _⟩ := converted
  obtain ⟨label, rest, rfl⟩ := List.exists_cons_of_ne_nil nonempty
  refine ⟨⟨by simpa using stepwise, samples, ?_⟩, ?_⟩
  · intro size member
    have positive := List.any_eq_false.mp ((Bool.not_eq_true _).mp sizes) size member
    simpa using positive
  · have passed : ∃ result, promptEnds [label] label 1 rest = .ok result := by
      cases ends : promptEnds [label] label 1 rest with
      | ok result => exact ⟨result, rfl⟩
      | error failure =>
          simp only [computePromptMiniBatchBoundaries, require, List.head?_cons, List.tail_cons, ends, bind,
            Except.bind] at computed
          cases failure <;> cases computed
    obtain ⟨result, ends⟩ := passed
    obtain ⟨more, groups, rfl, labelled, fresh⟩ := exists_rows ends
    have all : Labelled ((label, more + 1) :: groups) := by
      refine ⟨List.nodup_cons.mpr ⟨fun member => ?_, labelled.nodup⟩, ?_⟩
      · exact fresh label member List.mem_cons_self
      · exact List.forall_mem_cons.mpr ⟨Nat.succ_pos more, labelled.occupied⟩
    have together : label :: (List.replicate more label ++ rows groups) = rows ((label, more + 1) :: groups) := by
      rw [rows_cons, List.replicate_succ, List.cons_append]
    rw [together] at named ⊢
    exact ⟨_, all, List.cons_ne_nil _ _, fun member => named ((mem_rows all.occupied).mpr member), rfl⟩

/-! ### The service's count -/

theorem ceil_div_eq {count size : Nat} (some : 0 < size) : ⌈(count : ℚ) / size⌉₊ = (count + size - 1) / size := by
  refine eq_of_forall_ge_iff fun bound => ?_
  rw [Nat.ceil_le, div_le_iff₀ (by exact_mod_cast some), Nat.div_le_iff_le_mul_add_pred some, Nat.mul_comm size]
  norm_cast
  omega

/-- A row carries the identity of one of the groups. -/
theorem instanceId_groupRows {P L : Type} {groups : List (PreparedGroup P L)} {rows : List UpdateRow}
    (made : groupRows groups = .ok rows) :
    ∀ row ∈ rows, row.instanceId ∈ groups.map fun group => group.plan.groupId := by
  intro row member
  obtain ⟨parts, mapped, done⟩ := bind_eq_ok.mp made
  obtain rfl := Except.ok.inj done
  obtain ⟨part, inParts, inPart⟩ := List.mem_flatten.mp member
  obtain ⟨group, listed, ofGroup⟩ := forall_of_forall₂ (forall₂_of_mapAll mapped) part inParts
  rw [rowsOf] at ofGroup
  split at ofGroup
  next =>
    obtain rfl := Except.ok.inj ofGroup
    cases inPart
  next =>
    obtain ⟨episodes, ofEpisodes, flat⟩ := bind_eq_ok.mp ofGroup
    obtain rfl := Except.ok.inj flat
    obtain ⟨episode, inEpisodes, inEpisode⟩ := List.mem_flatten.mp inPart
    obtain ⟨turns, _, ofTurns⟩ := forall_of_forall₂ (forall₂_of_mapAll ofEpisodes) episode inEpisodes
    obtain ⟨turn, _, ofTurn⟩ := forall_of_forall₂ (forall₂_of_mapAll ofTurns) row inEpisode
    refine List.mem_map.mpr ⟨group, listed, ?_⟩
    rw [rowOf] at ofTurn
    split at ofTurn
    next =>
      obtain ⟨reward, _, built⟩ := bind_eq_ok.mp ofTurn
      obtain rfl := Except.ok.inj built
      rfl
    next =>
      obtain rfl := Except.ok.inj ofTurn
      rfl

theorem distinct_le {P L : Type} {groups : List (PreparedGroup P L)} {rows : List UpdateRow}
    (made : groupRows groups = .ok rows) : (rows.map UpdateRow.instanceId).dedup.length ≤ groups.length := by
  have within : (rows.map UpdateRow.instanceId).dedup ⊆ groups.map fun group => group.plan.groupId := by
    intro label member
    obtain ⟨row, listed, rfl⟩ := List.mem_map.mp (List.mem_dedup.mp member)
    exact instanceId_groupRows made row listed
  have fewer := ((List.nodup_dedup _).subperm within).length_le
  rwa [List.length_map] at fewer

/-- The conversion takes exactly the rows that lie group by group. Its places partition them into
batches of whole groups, as many as the service charges steps for. -/
theorem minibatches_sound (config : TrainerConfig) (rows : List UpdateRow) :
    ((∃ data, convertEligibleBatch config (rows.map UpdateRow.instanceId) = .ok data) ↔
      config.Valid ∧ ∃ groups, Labelled groups ∧ groups ≠ [] ∧ "" ∉ groups.map Prod.fst ∧
        rows.map UpdateRow.instanceId = Batches.rows groups) ∧
      (∀ data groups, convertEligibleBatch config (rows.map UpdateRow.instanceId) = .ok data → Labelled groups →
        rows.map UpdateRow.instanceId = Batches.rows groups →
        List.Forall₂ (fun size entry => entry.1 = size.1 ++ "_mini_batch_boundaries" ∧
          Batches.Partition groups size.2.toNat entry.2 ∧ entry.2.length = ⌈(groups.length : ℚ) / size.2.toNat⌉₊)
          config.sizes data) ∧
      ∀ (P L : Type) (settings : NativeSettings) (groupSize : Int) (prepared : List (PreparedGroup P L))
        (places : List (Nat × Nat)), groupRows prepared = .ok rows → prepared.length ≤ settings.groupsPerUpdate →
        convertEligibleBatch (nativeOverrides settings groupSize) (rows.map UpdateRow.instanceId) =
          .ok [("policy_mini_batch_boundaries", places)] →
        optimizerSteps settings rows = places.length := by
  refine ⟨⟨?_, ?_⟩, ?_, ?_⟩
  · rintro ⟨data, converted⟩
    exact convert_inv converted
  · rintro ⟨valid, groups, labelled, some, named, lie⟩
    rw [lie]
    exact ⟨_, convert_rows valid labelled some named⟩
  · intro data groups converted labelled lie
    obtain ⟨valid, others, othersLabelled, some, named, same⟩ := convert_inv converted
    rw [lie] at converted same
    have labels (label : String) : label ∈ groups.map Prod.fst ↔ label ∈ others.map Prod.fst := by
      rw [← mem_rows labelled.occupied, same, mem_rows othersLabelled.occupied]
    have nonempty : groups ≠ [] := by
      rintro rfl
      obtain ⟨group, member⟩ := List.exists_mem_of_ne_nil _ some
      cases (labels group.1).mpr (List.mem_map_of_mem member)
    rw [convert_rows valid labelled nonempty (mt (labels "").mp named)] at converted
    obtain rfl := Except.ok.inj converted
    refine List.forall₂_map_right_iff.mpr (List.forall₂_same.mpr fun size member => ⟨rfl, ?_⟩)
    have positive : 0 < size.2.toNat := by
      have least := valid.2.2 size member
      omega
    have partition := partition_boundaries labelled.occupied positive
    exact ⟨partition, partition.count.trans (ceil_div_eq positive).symm⟩
  · intro P L settings groupSize prepared places made few converted
    obtain ⟨valid, groups, labelled, some, named, lie⟩ := convert_inv converted
    have distinct := distinct_le made
    rw [lie] at converted distinct
    rw [convert_rows valid labelled some named] at converted
    have same : boundaries groups settings.miniBatchGroups = places := by
      simpa [nativeOverrides, TrainerConfig.sizes] using Except.ok.inj converted
    rw [optimizerSteps, lie]
    rw [dedup_rows labelled] at distinct ⊢
    have groupBound := settings.groups.2
    have batchBound := settings.batches
    rw [Binary64.ceil_nearest_div batchBound.1 (by omega) (by omega), ceil_div_eq batchBound.1, ← same,
      (partition_boundaries labelled.occupied batchBound.1).count]

namespace Sample

def row (groupId : String) : UpdateRow := ⟨⟨[1], [2], [true], [], none⟩, groupId, 0, true, 1⟩

def config : TrainerConfig := ⟨true, 2, 2, none⟩

def groups : List (String × Nat) := [("a", 2), ("b", 1), ("c", 1)]

theorem labelled : Labelled groups := ⟨by decide, by simp [Occupied, groups]⟩

end Sample

theorem minibatches_sound_sample :
    ∃ data, convertEligibleBatch Sample.config ((["a", "a", "b", "c"].map Sample.row).map UpdateRow.instanceId) =
        .ok data ∧
      List.Forall₂ (fun size entry => entry.1 = size.1 ++ "_mini_batch_boundaries" ∧
        Batches.Partition Sample.groups size.2.toNat entry.2 ∧
        entry.2.length = ⌈(Sample.groups.length : ℚ) / size.2.toNat⌉₊) Sample.config.sizes data := by
  obtain ⟨taken, parts, _⟩ := minibatches_sound Sample.config (["a", "a", "b", "c"].map Sample.row)
  obtain ⟨data, converted⟩ := taken.mpr ⟨⟨rfl, by decide, by simp [Sample.config, TrainerConfig.sizes]⟩,
    Sample.groups, Sample.labelled, by decide, by decide, rfl⟩
  exact ⟨data, converted, parts data Sample.groups converted Sample.labelled rfl⟩

end Training

end FeatureRl
