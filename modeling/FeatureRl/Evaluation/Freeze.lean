import FeatureRl.Contracts.Samples
import FeatureRl.Splits.Planning

/-!
Validation of an evaluation roster: sources of one lineage may not be split over partitions,
and the locked tasks are those of the locked-test sources.
-/

namespace FeatureRl

open Checked Sorting

structure SourceAssignment where
  sourceId : Identifier
  task : ArtifactRef
  repositoryFamily : Identifier
  requestLineage : List Identifier
  partition : Partition
  nonempty : requestLineage ≠ []
  bundled : task.kind.val = "TaskBundle"

structure LineageRelation where
  left : Identifier
  right : Identifier
  kind : RelationKind
  evidence : ArtifactRef
  distinct : left ≠ right

structure FrozenRoster where
  lockedTasks : List ArtifactRef
  sources : List SourceAssignment
  relations : List LineageRelation
  filled : lockedTasks ≠ [] ∧ sources ≠ []
  bundled : ∀ task ∈ lockedTasks, task.kind.val = "TaskBundle"
  uniqueSources : (sources.map SourceAssignment.sourceId).Nodup
  uniqueTasks : (sources.map fun source => source.task.sha256).Nodup

inductive FreezeError where
  | frozenStudy (message : String)
  | lineageLeakage (message : String)
  | value (message : String)
deriving DecidableEq

namespace Evaluation

def refKey (ref : ArtifactRef) : String × Nat × String := (ref.sha256.val, ref.schemaVersion, ref.kind.val)

/-- The arguments of a relation that is yet to be checked. -/
structure RelationDraft where
  left : Identifier
  right : Identifier
  kind : RelationKind
  proof : String

/-- Every pair of an earlier and a later item. -/
def pairsOf {α : Type} : List α → List (α × α)
  | [] => []
  | left :: rest => rest.map (fun right => (left, right)) ++ pairsOf rest

/-- Closure facts that hold even when no relation was recorded. -/
def impliedDrafts (pair : SourceAssignment × SourceAssignment) : List RelationDraft :=
  (if pair.1.repositoryFamily = pair.2.repositoryFamily then
    [⟨pair.1.sourceId, pair.2.sourceId, .monorepo, "roster:repository_family"⟩] else []) ++
  (if pair.1.requestLineage.any (fun request => request ∈ pair.2.requestLineage) then
    [⟨pair.1.sourceId, pair.2.sourceId, .sameRequest, "roster:request_lineage"⟩] else [])

def drafts (roster : FrozenRoster) : List RelationDraft :=
  (roster.relations.map fun item => ⟨item.left, item.right, item.kind, item.evidence.sha256.val⟩) ++
    (pairsOf roster.sources).flatMap impliedDrafts

def buildRelation (built : List Relation) (draft : RelationDraft) : Except SplitError (List Relation) := do
  let relation ← Relation.build draft.left.val draft.right.val draft.kind draft.proof
  .ok (built ++ [relation])

def requestedPartitions (sources : List SourceAssignment) : Dict String Partition :=
  sources.foldl (fun requested item => requested.set item.sourceId.val item.partition) Dict.empty

/-- A split conflict is reported as leakage. -/
def asFreezeError : SplitError → FreezeError
  | .conflict message => .lineageLeakage message
  | .value message => .value message

def validateLineageFreeze (sha256 : Bytes → Digest) (roster : FrozenRoster) :
    Except FreezeError FrozenRoster := do
  let sourceIds := roster.sources.map SourceAssignment.sourceId
  refuse (roster.relations.any (fun relation =>
      decide (relation.left ∉ sourceIds ∨ relation.right ∉ sourceIds)) = true)
    (.frozenStudy "lineage relation references a source outside the frozen roster")
  let relations ← (foldAll buildRelation [] (drafts roster)).mapError asFreezeError
  let _ ← (SplitPlanner.plan sha256 (sortBy Relation.key relations.dedup)
    (requestedPartitions roster.sources)).mapError asFreezeError
  let expectedLocked := (roster.sources.filter fun item => item.partition = .lockedTest).map
    fun item => refKey item.task
  let actualLocked := roster.lockedTasks.map refKey
  refuse (¬ ((∀ key ∈ actualLocked, key ∈ expectedLocked) ∧
      (∀ key ∈ expectedLocked, key ∈ actualLocked) ∧ actualLocked.Nodup))
    (.frozenStudy "locked task list must exactly match locked-test source assignments")
  .ok roster

/-! ### Leakage -/

/-- Two sources that a recorded relation, the family or the request lineage puts together. -/
def Adjacent (roster : FrozenRoster) (chosen : RelationKind → Prop) (one two : Identifier) : Prop :=
  (∃ relation ∈ roster.relations, chosen relation.kind ∧ relation.left = one ∧ relation.right = two) ∨
    ∃ left ∈ roster.sources, ∃ right ∈ roster.sources, left.sourceId = one ∧ right.sourceId = two ∧
      (left.repositoryFamily = right.repositoryFamily ∨
        ∃ request ∈ left.requestLineage, request ∈ right.requestLineage)

/-- Sources that a chain of such steps connects. -/
def Chained (roster : FrozenRoster) (chosen : RelationKind → Prop) : Identifier → Identifier → Prop :=
  Relation.EqvGen (Adjacent roster chosen)

/-- No two sources of one chain lie in different partitions. -/
def NoLeakage (roster : FrozenRoster) (chosen : RelationKind → Prop) : Prop :=
  ∀ one ∈ roster.sources, ∀ two ∈ roster.sources,
    Chained roster chosen one.sourceId two.sourceId → one.partition = two.partition

theorem mem_pairsOf {α : Type} {items : List α} {one two : α} (first : one ∈ items) (second : two ∈ items) :
    one = two ∨ (one, two) ∈ pairsOf items ∨ (two, one) ∈ pairsOf items := by
  induction items with
  | nil => cases first
  | cons item rest ih =>
      simp only [pairsOf, List.mem_append, List.mem_map, Prod.mk.injEq]
      rcases List.mem_cons.mp first with rfl | later
      · rcases List.mem_cons.mp second with rfl | after
        · exact .inl rfl
        · exact .inr (.inl (.inl ⟨two, after, rfl, rfl⟩))
      · rcases List.mem_cons.mp second with rfl | after
        · exact .inr (.inr (.inl ⟨one, later, rfl, rfl⟩))
        · rcases ih later after with same | early | late
          · exact .inl same
          · exact .inr (.inl (.inr early))
          · exact .inr (.inr (.inr late))

theorem build_eq_ok {left right : String} {kind : RelationKind} {proof : String} {relation : Relation}
    (built : Relation.build left right kind proof = .ok relation) :
    relation.left = left ∧ relation.right = right ∧ relation.kind = kind := by
  simp only [Relation.build] at built
  split at built
  next => cases built
  next =>
    split at built
    next => cases built
    next =>
      split at built
      next => cases built
      next =>
        obtain rfl := Except.ok.inj built
        exact ⟨rfl, rfl, rfl⟩

/-- Every draft becomes a relation. -/
theorem mem_built {listed : List RelationDraft} {start result : List Relation}
    (built : foldAll buildRelation start listed = .ok result) :
    (∀ relation ∈ start, relation ∈ result) ∧ ∀ draft ∈ listed, ∃ relation ∈ result,
      relation.left = draft.left.val ∧ relation.right = draft.right.val ∧ relation.kind = draft.kind := by
  induction listed generalizing start with
  | nil =>
      obtain rfl := Except.ok.inj built
      exact ⟨fun relation member => member, fun draft member => by cases member⟩
  | cons draft rest ih =>
      obtain ⟨next, step, later⟩ := foldAll_cons_eq_ok.mp built
      simp only [buildRelation, bind_eq_ok, Except.ok.injEq] at step
      obtain ⟨relation, made, rfl⟩ := step
      obtain ⟨kept, others⟩ := ih later
      refine ⟨fun old member => kept old (List.mem_append_left _ member), ?_⟩
      intro other member
      rcases List.mem_cons.mp member with rfl | further
      · exact ⟨relation, kept relation (by simp), build_eq_ok made⟩
      · exact others other further

theorem get?_requestedPartitions {sources : List SourceAssignment}
    (unique : (sources.map SourceAssignment.sourceId).Nodup) {source : SourceAssignment}
    (member : source ∈ sources) :
    (requestedPartitions sources).get? source.sourceId.val = some source.partition := by
  induction sources using List.reverseRecOn with
  | nil => cases member
  | append_singleton earlier last ih =>
      rw [requestedPartitions, List.foldl_concat, ← requestedPartitions, Dict.get?_set]
      rw [List.map_append, List.nodup_append] at unique
      rcases List.mem_append.mp member with before | here
      · have different : source.sourceId.val ≠ last.sourceId.val := by
          intro same
          exact unique.2.2 _ (List.mem_map_of_mem before) _ (by simp) (Subtype.ext same)
        rw [if_neg different]
        exact ih unique.1 before
      · obtain rfl := List.mem_singleton.mp here
        rw [if_pos rfl]

theorem mapError_eq_ok {ε δ α : Type} {f : ε → δ} {outcome : Except ε α} {result : α} :
    outcome.mapError f = .ok result ↔ outcome = .ok result := by
  cases outcome <;> simp [Except.mapError]

/-- A roster that is accepted splits no chain of closing relations. -/
theorem noLeakage_of_validate {sha256 : Bytes → Digest} {roster result : FrozenRoster}
    (accepted : validateLineageFreeze sha256 roster = .ok result) :
    NoLeakage roster fun kind => kind.closes = true := by
  simp only [validateLineageFreeze, bind_eq_ok, mapError_eq_ok] at accepted
  obtain ⟨_, _, relations, built, manifest, planned, _⟩ := accepted
  have agrees := SplitPlanner.agrees_of_plan planned
  obtain ⟨_, made⟩ := mem_built built
  have adjacent {draft : RelationDraft} (listed : draft ∈ drafts roster) (closes : draft.kind.closes = true) :
      SplitPlanner.Related (sortBy Relation.key relations.dedup) draft.left.val draft.right.val := by
    obtain ⟨relation, member, left, right, kind⟩ := made draft listed
    refine .rel _ _ (SplitPlanner.mem_closingPairs.mpr ⟨relation, ?_, ?_, left, right⟩)
    · exact mem_sortBy.mpr (List.mem_dedup.mpr member)
    · rw [kind]
      exact closes
  have implied {left right : SourceAssignment} (pair : (left, right) ∈ pairsOf roster.sources)
      (together : left.repositoryFamily = right.repositoryFamily ∨
        ∃ request ∈ left.requestLineage, request ∈ right.requestLineage) :
      SplitPlanner.Related (sortBy Relation.key relations.dedup) left.sourceId.val right.sourceId.val := by
    rcases together with family | ⟨request, first, second⟩
    · refine @adjacent ⟨left.sourceId, right.sourceId, .monorepo, "roster:repository_family"⟩ ?_ rfl
      refine List.mem_append_right _ (List.mem_flatMap.mpr ⟨_, pair, ?_⟩)
      simp [impliedDrafts, family]
    · refine @adjacent ⟨left.sourceId, right.sourceId, .sameRequest, "roster:request_lineage"⟩ ?_ rfl
      refine List.mem_append_right _ (List.mem_flatMap.mpr ⟨_, pair, ?_⟩)
      have shared : left.requestLineage.any (fun request => request ∈ right.requestLineage) = true :=
        List.any_eq_true.mpr ⟨request, first, by simpa using second⟩
      rw [impliedDrafts, if_pos shared]
      exact List.mem_append_right _ (List.mem_singleton_self _)
  have related {one two : Identifier} (chain : Chained roster (fun kind => kind.closes = true) one two) :
      SplitPlanner.Related (sortBy Relation.key relations.dedup) one.val two.val := by
    induction chain with
    | rel one two step =>
        rcases step with ⟨relation, member, closes, rfl, rfl⟩ |
          ⟨left, first, right, second, rfl, rfl, together⟩
        · refine @adjacent
            ⟨relation.left, relation.right, relation.kind, relation.evidence.sha256.val⟩ ?_ closes
          exact List.mem_append_left _ (List.mem_map.mpr ⟨relation, member, rfl⟩)
        · rcases mem_pairsOf first second with rfl | before | after
          · exact .refl _
          · exact implied before together
          · refine .symm _ _ (implied after ?_)
            rcases together with family | ⟨request, here, there⟩
            · exact .inl family.symm
            · exact .inr ⟨request, there, here⟩
    | refl one => exact .refl _
    | symm one two _ ih => exact .symm _ _ ih
    | trans one two three _ _ first second => exact .trans _ _ _ first second
  intro one first two second chain
  by_contra different
  exact agrees ⟨_, _, _, _, related chain, get?_requestedPartitions roster.uniqueSources first,
    get?_requestedPartitions roster.uniqueSources second, different⟩

/-- Plans group exactly the related sources, whatever the order of the inputs, and an accepted
roster splits no chain of closing relations. -/
theorem plan_leakageSafe (sha256 : Bytes → Digest) :
    (∀ relations requested, Set.InjOn sha256 (SplitPlanner.hashed relations requested) →
      SplitPlanner.Correct relations requested (SplitPlanner.plan sha256 relations requested)) ∧
    (∀ relations others requested asked, relations.Perm others →
      (∀ source, Dict.get? requested source = Dict.get? asked source) →
      SplitPlanner.plan sha256 relations requested = SplitPlanner.plan sha256 others asked) ∧
    ∀ roster result, validateLineageFreeze sha256 roster = .ok result →
      NoLeakage roster fun kind => kind.closes = true :=
  ⟨fun _ _ injective => SplitPlanner.plan_correct injective,
    fun _ _ _ _ sameRelations sameRequests => SplitPlanner.plan_perm sha256 sameRelations sameRequests,
    fun _ _ accepted => noLeakage_of_validate accepted⟩

/-! ### A roster that a dependency connects -/

def sampleDigest (digit : Char) (hex : isLowerHex digit = true) : Digest :=
  ⟨String.ofList (List.replicate 64 digit), isDigest_replicate hex⟩

def sampleTask (digit : Char) (hex : isLowerHex digit = true) : ArtifactRef :=
  ⟨sampleDigest digit hex, ⟨"TaskBundle", isIdentifier_taskBundle⟩, 1, .internal, .json, firstSchema⟩

def sampleSource (name : Identifier) (digit : Char) (hex : isLowerHex digit = true)
    (partition : Partition) : SourceAssignment :=
  ⟨name, sampleTask digit hex, name, [name], partition, List.cons_ne_nil _ _, rfl⟩

def sampleRoster : FrozenRoster where
  lockedTasks := [sampleTask 'b' isLowerHex_b]
  sources := [sampleSource ⟨"click", isIdentifier_click⟩ 'a' isLowerHex_a .train, sampleSource ⟨"rq", isIdentifier_rq⟩ 'b' isLowerHex_b .lockedTest]
  relations := [⟨⟨"rq", isIdentifier_rq⟩, ⟨"click", isIdentifier_click⟩, .dependency, sampleTask 'c' isLowerHex_c, by decide⟩]
  filled := ⟨List.cons_ne_nil _ _, List.cons_ne_nil _ _⟩
  bundled := by
    intro task member
    rw [List.mem_singleton.mp member]
    rfl
  uniqueSources := by decide
  uniqueTasks := by decide

theorem sampleRoster_accepted :
    (validateLineageFreeze (fun _ => sampleDigest '0' rfl) sampleRoster).toBool = true := by
  decide +kernel

/-- A dependency relates two sources of different partitions in an accepted roster. -/
theorem dependency_splits : ∃ result,
    validateLineageFreeze (fun _ => sampleDigest '0' rfl) sampleRoster = .ok result ∧
      ¬ NoLeakage sampleRoster fun _ => True := by
  have accepted := sampleRoster_accepted
  cases outcome : validateLineageFreeze (fun _ => sampleDigest '0' rfl) sampleRoster with
  | error failure =>
      rw [outcome] at accepted
      cases accepted
  | ok result =>
      refine ⟨result, rfl, fun kept => ?_⟩
      have step : Adjacent sampleRoster (fun _ => True) ⟨"rq", isIdentifier_rq⟩ ⟨"click", isIdentifier_click⟩ :=
        .inl ⟨_, List.mem_singleton_self _, trivial, rfl, rfl⟩
      have same := kept (sampleSource ⟨"rq", isIdentifier_rq⟩ 'b' isLowerHex_b .lockedTest) (by simp [sampleRoster])
        (sampleSource ⟨"click", isIdentifier_click⟩ 'a' isLowerHex_a .train) (by simp [sampleRoster]) (.rel _ _ step)
      cases same

def sampleRelation : Relation := ⟨"fork", "upstream", .fork, "fork metadata", by decide⟩

def sampleRequest : Dict String Partition := Dict.empty.set "fork" .train

theorem hashed_sample : ∀ node ∈ SplitPlanner.nodes [sampleRelation] sampleRequest,
    SplitPlanner.classOf [sampleRelation] sampleRequest node = ["fork", "upstream"] := by
  decide +kernel

theorem plan_leakageSafe_sample : SplitPlanner.Correct [sampleRelation] sampleRequest
    (SplitPlanner.plan (fun _ => sampleDigest '0' rfl) [sampleRelation] sampleRequest) := by
  refine (plan_leakageSafe (fun _ => sampleDigest '0' rfl)).1 _ _ ?_
  rintro _ ⟨one, first, rfl⟩ _ ⟨two, second, rfl⟩ _
  rw [hashed_sample one first, hashed_sample two second]

end Evaluation

end FeatureRl
