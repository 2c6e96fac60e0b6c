import FeatureRl.Agents.Episodes
import FeatureRl.Lib.Gather
import FeatureRl.Training.Advantages
import FeatureRl.Training.Sampling

/-!
From the records of one assigned group to rows of an update: the admission of its records, the
turns of its measured episodes with their advantages, and the rows that are optimized.
-/

namespace FeatureRl

open Checked

namespace Training

open Agents (EpisodeStep TokenTrace StopReason ResourceLimits Logprob isLogprob)
open Sampling (GroupPlan)

/-! ### The data -/

/-- A policy without its seed compares as a whole. -/
structure Policy (P : Type) where
  settings : P
  policyVersion : String
  tokenizerDigest : Option Digest
deriving DecidableEq

structure Record (P L : Type) where
  runId : String
  task : ArtifactRef
  policy : Policy P
  policySeed : Option Int
  limits : L
  seeds : List Int
  sameCasesWithinGroup : Bool
  steps : List EpisodeStep
  stoppingReason : StopReason
  reward : Option Int
  trainingEligible : Bool

structure CausalTurn where
  context : List Int
  targets : List Int
  mask : List Bool
  behavior : List Logprob
  advantage : Option ℚ

structure PreparedGroup (P L : Type) where
  plan : GroupPlan
  records : List (Record P L)
  turns : List (List CausalTurn)
  rewards : List (Option Int)
  advantages : List (Option ℚ)

structure UpdateRow where
  turn : CausalTurn
  instanceId : String
  repetitionId : Nat
  isLastStep : Bool
  reward : ℚ

/-- What admission reads from the stores. Each of its checks passes or raises. -/
structure Gate (P L : Type) where
  hasRunner : Bool
  admitTask : ArtifactRef → Except Failure Unit
  revalidate : Record P L → Except Failure Unit
  episodeGrade : Record P L → Int → Except Failure Unit

/-- The records of an assigned group, with the context of each of their turns. -/
structure Assigned (P L : Type) where
  plan : GroupPlan
  records : List (Record P L)
  contexts : List (List (List Int))

structure Limits where
  vocabSize : Int
  maxSeqLen : Nat

/-! ### Preparation -/

def validateTrace (limits : Limits) (policyVersion : String) (context : List Int) (trace : TokenTrace) :
    Except Failure Unit := do
  refuse (trace.create.toBool = false) (.value "validation error")
  refuse (context = [] ∨ trace.contextTokenIds ≠ context)
    (.value "Trace differs from actual per-turn context or has no causal context")
  refuse (trace.policyVersion.val ≠ policyVersion) (.value "Stale behavior policy")
  refuse (limits.maxSeqLen < context.length + trace.sampledTokenIds.length)
    (.value "Trajectory exceeds declared context; truncation forbidden")
  refuse ((context ++ trace.sampledTokenIds).any (fun token => token < 0 || limits.vocabSize ≤ token) = true)
    (.value "Token outside exact tokenizer vocabulary")
  refuse (trace.behaviorLogProbabilities.all isLogprob = false) (.value "Invalid behavior log probabilities")
  refuse (true ∉ trace.assistantLossMask) (.value "Turn has no sampled assistant loss tokens")

def causalTurn (limits : Limits) (policyVersion : String) (advantage : Option ℚ) (step : EpisodeStep × List Int) :
    Except Failure CausalTurn := do
  let trace ← require step.1.tokenTrace .attribute
  validateTrace limits policyVersion step.2 trace
  .ok ⟨step.2, trace.sampledTokenIds, trace.assistantLossMask, trace.behaviorLogProbabilities, advantage⟩

section Prepare

variable {P L : Type} [DecidableEq P] [DecidableEq L]

def checkRecord (gate : Gate P L) (plan : GroupPlan) (expected : Policy P) (first : Record P L)
    (episode : (Record P L × List (List Int)) × Nat) : Except Failure Unit := do
  let ((record, contexts), n) := episode
  refuse (record.policy ≠ expected ∨ record.limits ≠ first.limits ∨ record.task ≠ first.task ∨
      record.policy.policyVersion ≠ plan.policyVersion ∨
      record.policySeed ≠ plan.episodeSeeds[n]?.map Int.ofNat ∨ record.sameCasesWithinGroup = false ∨
      record.seeds ≠ [(plan.caseSeed : Int)])
    (.value "Group task/policy/episode seed/private case seed mismatch")
  let emptyLimit := gate.hasRunner && record.steps.isEmpty && contexts.isEmpty &&
    (record.stoppingReason = .tokenLimit || record.stoppingReason = .timeLimit)
  refuse (record.reward ≠ none ∧ ((record.trainingEligible = false ∧ emptyLimit = false) ∨
      record.policy.tokenizerDigest ≠ expected.tokenizerDigest))
    (.value "Measured episode is not an exact training trajectory")
  gate.episodeGrade record plan.caseSeed

def episodeTurns (limits : Limits) (policyVersion : String) (record : Record P L) (contexts : List (List Int))
    (advantage : Option ℚ) : Except Failure (List CausalTurn) :=
  if record.reward = none then .ok []
  else do
    refuse (contexts.length ≠ record.steps.length ∨
        record.steps.map EpisodeStep.index ≠ List.range record.steps.length)
      (.value "Per-turn context/step ordering mismatch")
    mapAll (causalTurn limits policyVersion advantage) (record.steps.zip contexts)

def prepareGroup (gate : Gate P L) (expected : Policy P) (limits : Limits) (sqrt : ℚ → ℚ) (normalizeStd : Bool)
    (assigned : Assigned P L) : Except Failure (PreparedGroup P L) := do
  let ⟨plan, records, contexts⟩ := assigned
  let groupSize := plan.episodeSeeds.length
  refuse (groupSize < 2 ∨ plan.episodeSeeds.dedup.length ≠ groupSize ∨ records.length ≠ groupSize ∨
      contexts.length ≠ groupSize)
    (.value "One independent episode per assigned group seed required, with at least two seeds")
  refuse (expected.tokenizerDigest = none ∨ expected.policyVersion ≠ plan.policyVersion)
    (.value "Expected exact behavior policy/tokenizer required")
  let first ← require records.head? .index
  gate.admitTask first.task
  refuse (first.task.sha256.val ≠ plan.task.taskId ∨ (records.map Record.runId).dedup.length ≠ groupSize)
    (.value "Group task identity or fresh episode identities differ")
  checkAll gate.revalidate records
  checkAll (checkRecord gate plan expected first) (records.zip contexts).zipIdx
  let rewards := records.map Record.reward
  let advantages ← groupAdvantages sqrt normalizeStd rewards
  let turns ← mapAll (fun episode : (Record P L × List (List Int)) × Option ℚ =>
    episodeTurns limits plan.policyVersion episode.1.1 episode.1.2 episode.2)
      ((records.zip contexts).zip advantages)
  .ok ⟨plan, records, turns, rewards, advantages⟩

end Prepare

/-! ### What is prepared -/

section Prepared

variable {P L : Type}

def turnOf (advantage : Option ℚ) (step : EpisodeStep × List Int) : Option CausalTurn :=
  step.1.tokenTrace.map fun trace =>
    ⟨step.2, trace.sampledTokenIds, trace.assistantLossMask, trace.behaviorLogProbabilities, advantage⟩

/-- The turns of a measured episode. -/
def measuredTurns (advantage : Option ℚ) (episode : Record P L × List (List Int)) : List CausalTurn :=
  if episode.1.reward = none then [] else (episode.1.steps.zip episode.2).filterMap (turnOf advantage)

theorem causalTurn_eq_ok {limits : Limits} {version : String} {advantage : Option ℚ} {step : EpisodeStep × List Int}
    {turn : CausalTurn} (made : causalTurn limits version advantage step = .ok turn) :
    turnOf advantage step = some turn := by
  simp only [causalTurn, bind_eq_ok, require_eq_ok] at made
  obtain ⟨trace, traced, _, _, done⟩ := made
  obtain rfl := Except.ok.inj done
  rw [turnOf, traced, Option.map_some]

theorem filterMap_of_forall₂ {α β : Type} {f : α → Option β} {items : List α} {values : List β}
    (all : List.Forall₂ (fun item value => f item = some value) items values) : items.filterMap f = values := by
  induction all with
  | nil => rfl
  | cons here _ ih => rw [List.filterMap_cons_some here, ih]

theorem episodeTurns_eq_ok {limits : Limits} {version : String} {record : Record P L} {contexts : List (List Int)}
    {advantage : Option ℚ} {turns : List CausalTurn}
    (made : episodeTurns limits version record contexts advantage = .ok turns) :
    measuredTurns advantage (record, contexts) = turns := by
  rw [episodeTurns] at made
  rw [measuredTurns]
  split at made
  next absent =>
    rw [if_pos absent]
    exact Except.ok.inj made
  next measured =>
    rw [if_neg measured]
    obtain ⟨_, _, mapped⟩ := bind_eq_ok.mp made
    exact filterMap_of_forall₂ ((forall₂_of_mapAll mapped).imp fun _ _ => causalTurn_eq_ok)

theorem zip_map_reward {α : Type} (records : List (Record P L)) (contexts : List (List (List Int)))
    (f : Option Int → α) : (records.zip contexts).zip ((records.map Record.reward).map f) =
      (records.zip contexts).map fun episode => (episode, f episode.1.reward) := by
  induction records generalizing contexts with
  | nil => rfl
  | cons record rest ih =>
      cases contexts with
      | nil => rfl
      | cons context others => exact congrArg (_ :: ·) (ih others)

/-- What a prepared group holds of the records that were assigned to it. -/
structure Prepares (sqrt : ℚ → ℚ) (normalizeStd : Bool) (assigned : Assigned P L) (group : PreparedGroup P L) :
    Prop where
  plan : group.plan = assigned.plan
  rewards : group.rewards = assigned.records.map Record.reward
  lengths : assigned.records.length = assigned.contexts.length
  binary : group.rewards.all isReward = true
  advantages : group.advantages =
    group.rewards.map (Option.map (advantageOf sqrt normalizeStd group.rewards.reduceOption))
  turns : group.turns = (assigned.records.zip assigned.contexts).map fun episode =>
    measuredTurns (episode.1.reward.map (advantageOf sqrt normalizeStd group.rewards.reduceOption)) episode

theorem prepares_of_prepareGroup [DecidableEq P] [DecidableEq L] {gate : Gate P L} {expected : Policy P}
    {limits : Limits} {sqrt : ℚ → ℚ} {normalizeStd : Bool} {assigned : Assigned P L} {group : PreparedGroup P L}
    (prepared : prepareGroup gate expected limits sqrt normalizeStd assigned = .ok group) :
    Prepares sqrt normalizeStd assigned group := by
  simp only [prepareGroup, bind_eq_ok, refuse_eq_ok, groupAdvantages_eq_ok, not_or, not_not] at prepared
  obtain ⟨_, ⟨_, _, records, contexts⟩, _, _, _, _, _, _, _, _, _, _, _, _, advantages, ⟨_, binary, rfl⟩, turns,
    mapped, done⟩ := prepared
  obtain rfl := Except.ok.inj done
  refine ⟨rfl, rfl, records.trans contexts.symm, binary, rfl, ?_⟩
  rw [zip_map_reward] at mapped
  have same := map_eq_of_forall₂ (f := fun episode : (Record P L × List (List Int)) × Option ℚ =>
    measuredTurns episode.2 episode.1) (g := id) (forall₂_of_mapAll mapped) fun _ _ => episodeTurns_eq_ok
  rw [List.map_id, List.map_map] at same
  exact same.symm

end Prepared

/-! ### Rows -/

section Rows

variable {P L : Type}

def PreparedGroup.effectiveSize (group : PreparedGroup P L) : Nat := group.rewards.countP Option.isSome

def moves (advantage : Option ℚ) : Bool := advantage.any fun value => value ≠ 0

def rowOf (group : PreparedGroup P L) (n : Nat) (turns : List CausalTurn) (turn : CausalTurn × Nat) :
    Except Failure UpdateRow :=
  if turn.2 + 1 = turns.length then do
    let reward ← require (group.rewards[n]?.join) .type
    .ok ⟨turn.1, group.plan.groupId, n, true, reward⟩
  else .ok ⟨turn.1, group.plan.groupId, n, false, 0⟩

def rowsOf (group : PreparedGroup P L) : Except Failure (List UpdateRow) :=
  if group.effectiveSize < 2 ∨ group.advantages.any moves = false then .ok []
  else do
    let episodes ← mapAll (fun episode : List CausalTurn × Nat =>
      mapAll (rowOf group episode.2 episode.1) episode.1.zipIdx) group.turns.zipIdx
    .ok episodes.flatten

def groupRows (groups : List (PreparedGroup P L)) : Except Failure (List UpdateRow) := do
  let rows ← mapAll rowsOf groups
  .ok rows.flatten

/-- The rows of one episode: its turns in order, the last one with the reward. -/
def episodeRows (groupId : String) (n : Nat) (reward : Int) (turns : List CausalTurn) : List UpdateRow :=
  turns.zipIdx.map fun turn =>
    let last := turn.2 + 1 = turns.length
    ⟨turn.1, groupId, n, last, if last then (reward : ℚ) else 0⟩

/-- The rows of the measured turns of the episodes that have an advantage. -/
def measuredRows (sqrt : ℚ → ℚ) (normalizeStd : Bool) (assigned : Assigned P L) : List UpdateRow :=
  let valid := (assigned.records.map Record.reward).reduceOption
  if valid.length < 2 then []
  else (assigned.records.zip assigned.contexts).zipIdx.flatMap fun (episode, n) =>
    match episode.1.reward with
    | none => []
    | some reward =>
        let advantage := advantageOf sqrt normalizeStd valid reward
        if advantage = 0 then []
        else episodeRows assigned.plan.groupId n reward (measuredTurns (some advantage) episode)

/-! ### The rows are those of the measured turns -/

variable {group : PreparedGroup P L}

theorem effectiveSize_eq : group.effectiveSize = group.rewards.reduceOption.length := by
  rw [PreparedGroup.effectiveSize]
  induction group.rewards with
  | nil => rfl
  | cons reward rest ih =>
      cases reward with
      | none => simpa using ih
      | some reward => simpa using ih

theorem rowsOf_episode {n : Nat} {turns : List CausalTurn} {reward : Int}
    (rewarded : turns ≠ [] → group.rewards[n]?.join = some reward) :
    mapAll (rowOf group n turns) turns.zipIdx = .ok (episodeRows group.plan.groupId n reward turns) := by
  refine mapAll_eq_ok fun turn member => ?_
  rw [rowOf]
  split
  next last =>
    rw [rewarded (List.ne_nil_of_mem (List.fst_mem_of_mem_zipIdx member))]
    simp [last, require, bind, Except.bind]
  next inner => simp [inner]

/-- Where one measured reward is off the mean, all of them are. -/
theorem advantageOf_ne_zero {sqrt : ℚ → ℚ} {normalizeStd : Bool} {valid : List Int} {one two : Int}
    (binary : ∀ other ∈ valid, other = 0 ∨ other = 1) (enough : 2 ≤ valid.length) (first : one ∈ valid)
    (second : two ∈ valid) (moved : advantageOf sqrt normalizeStd valid one ≠ 0) :
    advantageOf sqrt normalizeStd valid two ≠ 0 := by
  intro still
  have equal := equal_of_mean binary second ((advantageOf_eq_zero_iff enough).mp still)
  exact moved ((advantageOf_eq_zero_iff enough).mpr (sum_of_equal fun other listed =>
    (equal other listed).trans (equal one first).symm))

section Assigned

variable {sqrt : ℚ → ℚ} {normalizeStd : Bool} {assigned : Assigned P L}

theorem Prepares.reward_at (prepares : Prepares sqrt normalizeStd assigned group)
    {episode : Record P L × List (List Int)} {n : Nat}
    (found : (assigned.records.zip assigned.contexts)[n]? = some episode) :
    group.rewards[n]?.join = episode.1.reward := by
  rw [prepares.rewards, List.getElem?_map, (List.getElem?_zip_eq_some.mp found).1]
  rfl

theorem Prepares.mem_valid (prepares : Prepares sqrt normalizeStd assigned group)
    {episode : Record P L × List (List Int)} {reward : Int}
    (member : episode ∈ assigned.records.zip assigned.contexts) (measured : episode.1.reward = some reward) :
    reward ∈ group.rewards.reduceOption := by
  rw [List.reduceOption_mem_iff, prepares.rewards, ← measured]
  exact List.mem_map_of_mem (List.of_mem_zip (a := episode.1) (b := episode.2) member).1

theorem Prepares.binary_valid (prepares : Prepares sqrt normalizeStd assigned group) :
    ∀ other ∈ group.rewards.reduceOption, other = 0 ∨ other = 1 := by
  intro other listed
  have bit := List.all_eq_true.mp prepares.binary _ (List.reduceOption_mem_iff.mp listed)
  simpa [isReward] using bit

theorem Prepares.exists_moved (prepares : Prepares sqrt normalizeStd assigned group)
    (moved : group.advantages.any moves = true) : ∃ one ∈ group.rewards.reduceOption,
      advantageOf sqrt normalizeStd group.rewards.reduceOption one ≠ 0 := by
  rw [List.any_eq_true, prepares.advantages] at moved
  obtain ⟨advantage, listed, off⟩ := moved
  obtain ⟨reward, inside, rfl⟩ := List.mem_map.mp listed
  cases reward with
  | none => simp [moves] at off
  | some one => exact ⟨one, List.reduceOption_mem_iff.mpr inside, by simpa [moves] using off⟩

/-- Only the measured turns of a moved episode become rows. -/
theorem Prepares.rowsOf_eq (prepares : Prepares sqrt normalizeStd assigned group) :
    rowsOf group = .ok (measuredRows sqrt normalizeStd assigned) := by
  rw [rowsOf, measuredRows, effectiveSize_eq, ← prepares.rewards]
  by_cases few : group.rewards.reduceOption.length < 2
  · rw [if_pos (.inl few), if_pos few]
  · by_cases still : group.advantages.any moves = false
    · rw [if_pos (.inr still), if_neg few, eq_comm, Except.ok.injEq, List.flatMap_eq_nil_iff]
      rintro ⟨episode, n⟩ member
      have listed := List.fst_mem_of_mem_zipIdx member
      cases measured : episode.1.reward with
      | none => simp [measured]
      | some reward =>
          have valid := prepares.mem_valid listed measured
          have unmoved := List.any_eq_false.mp still (some (advantageOf sqrt normalizeStd
            group.rewards.reduceOption reward)) (by
              rw [prepares.advantages]
              exact List.mem_map_of_mem (List.reduceOption_mem_iff.mp valid))
          simp only [measured]
          rw [if_pos (by simpa [moves] using unmoved)]
    · obtain ⟨one, first, off⟩ := prepares.exists_moved ((Bool.not_eq_false _).mp still)
      rw [if_neg (not_or.mpr ⟨few, still⟩), if_neg few]
      let rows : List CausalTurn × Nat → List UpdateRow := fun episode =>
        match group.rewards[episode.2]?.join with
        | none => []
        | some reward => episodeRows group.plan.groupId episode.2 reward episode.1
      have mapped : mapAll (fun episode : List CausalTurn × Nat =>
          mapAll (rowOf group episode.2 episode.1) episode.1.zipIdx) group.turns.zipIdx =
          .ok (group.turns.zipIdx.map rows) := by
        refine mapAll_eq_ok ?_
        rintro ⟨turns, n⟩ member
        have place := List.mem_zipIdx_iff_getElem?.mp member
        rw [prepares.turns, List.getElem?_map, Option.map_eq_some_iff] at place
        obtain ⟨episode, found, rfl⟩ := place
        have rewarded := prepares.reward_at found
        cases measured : episode.1.reward with
        | none => simp [rows, rewarded, measured, measuredTurns, mapAll]
        | some reward =>
            simp only [rows, rewarded, measured]
            exact rowsOf_episode fun _ => rewarded.trans measured
      rw [mapped, bind_eq_ok]
      refine ⟨_, rfl, ?_⟩
      rw [prepares.turns, List.zipIdx_map, List.map_map, List.flatMap_def]
      refine congrArg (fun parts => Except.ok (List.flatten parts)) (List.map_congr_left ?_)
      rintro ⟨episode, n⟩ member
      have found := List.mem_zipIdx_iff_getElem?.mp member
      have rewarded := prepares.reward_at found
      simp only [Function.comp_apply, Prod.map_apply, id_eq, rows, rewarded]
      cases measured : episode.1.reward with
      | none => rfl
      | some reward =>
          have valid := prepares.mem_valid (List.mem_of_getElem? found) measured
          have moves := advantageOf_ne_zero prepares.binary_valid (by omega) first valid off
          simp only [Option.map_some, if_neg moves, prepares.plan]

end Assigned

end Rows

/-! ### Main result -/

/-- Absent rewards have no advantage, the others cancel, and equal rewards have none to speak of. -/
structure Sound (rewards : List (Option Int)) (advantages : List (Option ℚ)) : Prop where
  absent : advantages.map Option.isSome = rewards.map Option.isSome
  balanced : advantages.reduceOption.sum = 0
  equal : ∀ reward, (∀ other ∈ rewards.reduceOption, other = reward) →
    ∀ advantage ∈ advantages.reduceOption, advantage = 0

theorem groupAdvantages_sound {sqrt : ℚ → ℚ} {normalizeStd : Bool} {rewards : List (Option Int)}
    {advantages : List (Option ℚ)} (made : groupAdvantages sqrt normalizeStd rewards = .ok advantages) :
    Sound rewards advantages := by
  obtain ⟨_, _, rfl⟩ := groupAdvantages_eq_ok.mp made
  refine ⟨?_, ?_, ?_⟩
  · rw [List.map_map]
    refine List.map_congr_left fun reward _ => ?_
    cases reward <;> rfl
  · rw [List.reduceOption_map]
    exact sum_advantageOf _
  · intro reward equal advantage listed
    rw [List.reduceOption_map] at listed
    obtain ⟨one, member, rfl⟩ := List.mem_map.mp listed
    by_cases few : rewards.reduceOption.length < 2
    · rw [advantageOf_few few]
    · refine (advantageOf_eq_zero_iff (by omega)).mpr (sum_of_equal fun other inside => ?_)
      rw [equal other inside, equal one member]

/-- Advantages are sound, depend on the measured rewards only, and the rows of an update are the
measured turns of the episodes with an advantage, in order. -/
theorem advantages_and_rows_sound {P L : Type} [DecidableEq P] [DecidableEq L] (gate : Gate P L)
    (expected : Policy P) (limits : Limits) (sqrt : ℚ → ℚ) (normalizeStd : Bool) :
    (∀ rewards advantages, groupAdvantages sqrt normalizeStd rewards = .ok advantages → Sound rewards advantages) ∧
      (∀ rewards advantages others changed, groupAdvantages sqrt normalizeStd rewards = .ok advantages →
        groupAdvantages sqrt normalizeStd others = .ok changed → rewards.reduceOption = others.reduceOption →
          advantages.reduceOption = changed.reduceOption) ∧
      ∀ assigned groups, List.Forall₂ (fun input group =>
          prepareGroup gate expected limits sqrt normalizeStd input = .ok group) assigned groups →
        groupRows groups = .ok (assigned.flatMap (measuredRows sqrt normalizeStd)) := by
  refine ⟨fun rewards advantages => groupAdvantages_sound, ?_, ?_⟩
  · intro rewards advantages others changed one two same
    obtain ⟨_, _, rfl⟩ := groupAdvantages_eq_ok.mp one
    obtain ⟨_, _, rfl⟩ := groupAdvantages_eq_ok.mp two
    rw [List.reduceOption_map, List.reduceOption_map, same]
  · intro assigned groups prepared
    rw [groupRows]
    have mapped : mapAll rowsOf groups = .ok (assigned.map (measuredRows sqrt normalizeStd)) := by
      induction prepared with
      | nil => rfl
      | cons here _ ih =>
          rw [mapAll, (prepares_of_prepareGroup here).rowsOf_eq, ih]
          rfl
    rw [mapped, List.flatMap_def]
    rfl

/-- One success and one failure, with and without an episode that was not measured. -/
theorem advantages_and_rows_sound_sample :
    ∃ advantages others, groupAdvantages (fun _ => 1 / 2) true [some 1, none, some 0] = .ok advantages ∧
      groupAdvantages (fun _ => 1 / 2) true [some 1, some 0] = .ok others ∧
      Sound [some 1, none, some 0] advantages ∧ advantages.reduceOption = others.reduceOption := by
  let gate : Gate Unit Unit := ⟨false, fun _ => .ok (), fun _ => .ok (), fun _ _ => .ok ()⟩
  obtain ⟨sound, same, _⟩ := advantages_and_rows_sound gate ⟨(), "policy", none⟩ ⟨8, 8⟩ (fun _ => 1 / 2) true
  refine ⟨_, _, groupAdvantages_eq_ok.mpr ⟨by decide, by decide, rfl⟩,
    groupAdvantages_eq_ok.mpr ⟨by decide, by decide, rfl⟩, sound [some 1, none, some 0] _ ?_,
    same [some 1, none, some 0] _ [some 1, some 0] _ ?_ ?_ rfl⟩
  all_goals exact groupAdvantages_eq_ok.mpr ⟨by decide, by decide, rfl⟩

end Training

end FeatureRl
