import FeatureRl.Registry.Quarantine
import Mathlib.Data.List.Perm.Subperm

/-!
Historical audits. In every reachable state the roots that an audit job ignores are exactly the
subjects of its policy and what they depend on, apart from the policy, its three dependencies and
the explicitly protected references: notices on these bind the job like any other.
-/

namespace FeatureRl

open Checked

namespace Historical

variable {state : State} {artifacts : Dict Digest ArtifactRecord}

/-! ### The closure of the subjects -/

theorem subjectNext_eq_ok {ref : ArtifactRef} {more : List ArtifactRef} :
    subjectNext state ref = .ok more ↔ isReserved ref = false ∧
      ∃ record, state.artifacts.get? ref.sha256 = some record ∧ record.dependencies.val = more := by
  simp only [subjectNext, bind_eq_ok, refuse_eq_ok, require_eq_ok, Except.ok.injEq, Bool.not_eq_true]
  constructor
  · rintro ⟨_, allowed, found⟩
    exact ⟨allowed, found⟩
  · rintro ⟨allowed, found⟩
    exact ⟨(), allowed, found⟩

theorem registered_iff {ref : ArtifactRef} :
    state.registered ref = true ↔
      ∃ record, state.artifacts.get? ref.sha256 = some record ∧ record.ref = ref := by
  simp [State.registered, Option.map_eq_some_iff]

/-- A subject of the group, or an artifact that one depends on, directly or not. -/
def Subject (artifacts : Dict Digest ArtifactRecord) (group : ArtifactRecord) (digest : Digest) : Prop :=
  ∃ first ∈ State.parentKeys group, Relation.ReflTransGen (State.Depends artifacts) first digest

/-- No scope stands among the subjects and what they depend on. -/
def Unnested (artifacts : Dict Digest ArtifactRecord) (group : ArtifactRecord) : Prop :=
  ∀ digest record, Subject artifacts group digest → artifacts.get? digest = some record →
    isReserved record.ref = false

abbrev Reached (state : State) (group : ArtifactRecord) : ArtifactRef → Prop :=
  Worklist.Reached (subjectNext state) group.dependencies.val.reverse

theorem reached_subject {group : ArtifactRecord} {ref : ArtifactRef} (reached : Reached state group ref) :
    Subject state.artifacts group ref.sha256 := by
  obtain ⟨first, member, path⟩ := reached
  refine ⟨first.sha256, List.mem_map_of_mem (List.mem_reverse.mp member), ?_⟩
  induction path with
  | refl => exact .refl
  | tail _ follows ih =>
      obtain ⟨more, found, inside⟩ := follows
      obtain ⟨_, record, stored, rfl⟩ := subjectNext_eq_ok.mp found
      exact ih.tail ⟨record, stored, List.mem_map_of_mem inside⟩

/-- The traversal reaches every subject unless it comes upon a nested scope. -/
theorem exists_reached {group : ArtifactRecord} {digest : Digest}
    (subject : Subject state.artifacts group digest) :
    (∃ ref, Reached state group ref ∧ ref.sha256 = digest) ∨
      ∃ ref, Reached state group ref ∧ isReserved ref = true := by
  obtain ⟨first, member, path⟩ := subject
  induction path with
  | refl =>
      obtain ⟨ref, inside, rfl⟩ := List.mem_map.mp member
      exact .inl ⟨ref, ⟨ref, List.mem_reverse.mpr inside, .refl⟩, rfl⟩
  | tail _ depends ih =>
      obtain ⟨record, stored, inside⟩ := depends
      obtain ⟨other, listed, rfl⟩ := List.mem_map.mp inside
      rcases ih with ⟨ref, reached, rfl⟩ | nested
      · cases allowed : isReserved ref with
        | true => exact .inr ⟨ref, reached, allowed⟩
        | false =>
            have follows := subjectNext_eq_ok.mpr ⟨allowed, record, stored, rfl⟩
            exact .inl ⟨other, reached.follow ⟨_, follows, listed⟩, rfl⟩
      · exact .inr nested

theorem sum_degrees (artifacts : Dict Digest ArtifactRecord) :
    ∑ key ∈ artifacts.keys.toFinset, (State.parentsOf artifacts key).length =
      State.edgeCount artifacts := by
  rw [Dict.keys, List.sum_toFinset _ artifacts.nodup, State.edgeCount, Dict.values, List.map_map,
    List.map_map]
  refine congrArg List.sum (List.map_congr_left fun entry member => ?_)
  have found : artifacts.get? entry.1 = some entry.2 := Dict.mem_entries.mp member
  simp [State.parentsOf, found]

theorem closure_terminates (pending : List ArtifactRef) :
    ∃ result, Worklist.traverse ArtifactRef.sha256 (subjectNext state) (closureSteps state pending)
      pending.reverse ∅ = some result := by
  have bounded : ∀ ref more, subjectNext state ref = .ok more → ref.sha256 ∈ state.artifacts.keys.toFinset ∧
      more.length ≤ (State.parentsOf state.artifacts ref.sha256).length := by
    intro ref more found
    obtain ⟨_, record, stored, rfl⟩ := subjectNext_eq_ok.mp found
    refine ⟨List.mem_toFinset.mpr (Dict.mem_keys.mpr ⟨record, stored⟩), ?_⟩
    simp [State.parentsOf, stored, State.parentKeys]
  have enough : Worklist.work state.artifacts.keys.toFinset
      (fun key => (State.parentsOf state.artifacts key).length) pending.reverse ∅ < closureSteps state pending := by
    rw [Worklist.work, Finset.sdiff_empty, sum_degrees, closureSteps, List.length_reverse]
    omega
  exact Worklist.traverse_terminates bounded enough

section

variable (invariant : State.GraphInvariant state)

include invariant

theorem registered_of_mem {key : Digest} {record : ArtifactRecord}
    (stored : state.artifacts.get? key = some record) {ref : ArtifactRef}
    (listed : ref ∈ record.dependencies.val) : state.registered ref = true := by
  have resolved := invariant.resolved record (Dict.mem_values.mpr ⟨key, stored⟩)
  exact decide_eq_true (resolved.known ref listed)

variable {key : Digest} {group : ArtifactRecord} (grouped : state.artifacts.get? key = some group)

include grouped

theorem registered_of_reached {ref : ArtifactRef} (reached : Reached state group ref) :
    state.registered ref = true := by
  obtain ⟨first, member, path⟩ := reached
  induction path with
  | refl => exact registered_of_mem invariant grouped (List.mem_reverse.mp member)
  | tail _ follows _ =>
      obtain ⟨more, found, inside⟩ := follows
      obtain ⟨_, record, stored, rfl⟩ := subjectNext_eq_ok.mp found
      exact registered_of_mem invariant stored inside

theorem reached_unique {ref other : ArtifactRef} (reached : Reached state group ref)
    (again : Reached state group other) (same : ref.sha256 = other.sha256) : ref = other := by
  obtain ⟨record, stored, rfl⟩ := registered_iff.mp (registered_of_reached invariant grouped reached)
  obtain ⟨twin, found, rfl⟩ := registered_iff.mp (registered_of_reached invariant grouped again)
  rw [← same, stored] at found
  exact congrArg ArtifactRecord.ref (Option.some.inj found)

/-- The closure is the set of all subjects, or fails because one of them is a scope itself. -/
theorem subjectClosure_spec :
    (Unnested state.artifacts group ∧
      ∃ seen, subjectClosure state group.dependencies.val = .ok seen ∧
        ∀ digest, digest ∈ seen ↔ Subject state.artifacts group digest) ∨
    (¬ Unnested state.artifacts group ∧
      ∃ failure, subjectClosure state group.dependencies.val = .error failure ∧
        failure.kind = .conflict) := by
  have identified : ∀ ref other, Reached state group ref → Reached state group other →
      ref.sha256 = other.sha256 → ref = other :=
    fun _ _ reached again => reached_unique invariant grouped reached again
  obtain ⟨result, found⟩ := @closure_terminates state group.dependencies.val
  have closure : subjectClosure state group.dependencies.val = result := by rw [subjectClosure, found]
  cases result with
  | ok seen =>
      have allowed : ∀ ref, Reached state group ref → isReserved ref = false := by
        intro ref reached
        obtain ⟨more, follows⟩ := Worklist.next_of_reached identified found reached
        exact (subjectNext_eq_ok.mp follows).1
      have reaches : ∀ digest, Subject state.artifacts group digest →
          ∃ ref, Reached state group ref ∧ ref.sha256 = digest := by
        intro digest subject
        rcases exists_reached subject with reached | ⟨ref, reached, nested⟩
        · exact reached
        · rw [allowed ref reached] at nested
          cases nested
      refine .inl ⟨fun digest record subject stored => ?_, seen, closure, fun digest => ?_⟩
      · obtain ⟨ref, reached, rfl⟩ := reaches digest subject
        obtain ⟨same, again, rfl⟩ := registered_iff.mp (registered_of_reached invariant grouped reached)
        obtain rfl := Option.some.inj (stored.symm.trans again)
        exact allowed _ reached
      · rw [Worklist.mem_traverse_iff identified found]
        refine ⟨?_, reaches digest⟩
        rintro ⟨ref, reached, rfl⟩
        exact reached_subject reached
  | error failure =>
      obtain ⟨ref, reached, failed⟩ := Worklist.exists_of_traverse_error
        (fun item member => ⟨item, member, .refl⟩) found
      obtain ⟨record, stored, rfl⟩ := registered_iff.mp (registered_of_reached invariant grouped reached)
      cases nested : isReserved record.ref with
      | false =>
          rw [subjectNext_eq_ok.mpr ⟨nested, record, stored, rfl⟩] at failed
          cases failed
      | true =>
          refine .inr ⟨fun unnested => ?_, failure, closure, ?_⟩
          · rw [unnested _ record (reached_subject reached) stored] at nested
            cases nested
          · rw [subjectNext, refuse, if_pos nested] at failed
            obtain rfl := Except.error.inj failed
            rfl

end

/-! ### The scope of a policy -/

/-- The registered policy of an audit job with its groups of subjects and protected references. -/
structure AuditScope (artifacts : Dict Digest ArtifactRecord) (configuration : ArtifactRef) where
  scope : ArtifactRecord
  group : ArtifactRecord
  protection : ArtifactRecord
  wrapped : ArtifactRef
  subject : ArtifactRef
  shield : ArtifactRef
  registered : artifacts.get? configuration.sha256 = some scope
  exact : scope.ref = configuration
  dependencies : scope.dependencies.val.Perm [wrapped, subject, shield]
  wrapped_kind : isReserved wrapped = false
  subject_kind : subject.kind.val = subjects
  shield_kind : shield.kind.val = protectedKind
  grouped : artifacts.get? subject.sha256 = some group
  guarded : artifacts.get? shield.sha256 = some protection

theorem shape_iff {dependencies : List ArtifactRef} {wrapped subject shield : ArtifactRef} :
    (dependencies.length = 3 ∧ dependencies.filter (fun ref => ref.kind.val = subjects) = [subject] ∧
      dependencies.filter (fun ref => ref.kind.val = protectedKind) = [shield] ∧
      dependencies.filter (fun ref => !isReserved ref) = [wrapped]) ↔
    dependencies.Perm [wrapped, subject, shield] ∧ isReserved wrapped = false ∧
      subject.kind.val = subjects ∧ shield.kind.val = protectedKind := by
  constructor
  · rintro ⟨three, chosen, kept, free⟩
    have subject_mem := List.mem_filter.mp (chosen ▸ List.mem_singleton_self subject)
    have shield_mem := List.mem_filter.mp (kept ▸ List.mem_singleton_self shield)
    have wrapped_mem := List.mem_filter.mp (free ▸ List.mem_singleton_self wrapped)
    have subject_kind : subject.kind.val = subjects := of_decide_eq_true subject_mem.2
    have shield_kind : shield.kind.val = protectedKind := of_decide_eq_true shield_mem.2
    have wrapped_kind : isReserved wrapped = false := by simpa using wrapped_mem.2
    have distinct : [wrapped, subject, shield].Nodup := by
      have first : isReserved subject = true := by simp [isReserved, subject_kind]
      have second : isReserved shield = true := by simp [isReserved, shield_kind]
      have third : subject.kind.val ≠ shield.kind.val := by rw [subject_kind, shield_kind]; decide
      have left : wrapped ≠ subject := fun same => by simp [same, first] at wrapped_kind
      have right : wrapped ≠ shield := fun same => by simp [same, second] at wrapped_kind
      have apart : subject ≠ shield := fun same => third (congrArg (fun ref => ref.kind.val) same)
      simp [left, right, apart]
    have inside : [wrapped, subject, shield] ⊆ dependencies := by
      simp [wrapped_mem.1, subject_mem.1, shield_mem.1]
    refine ⟨((distinct.subperm inside).perm_of_length_le ?_).symm, wrapped_kind, subject_kind, shield_kind⟩
    simp [three]
  · rintro ⟨arranged, wrapped_kind, subject_kind, shield_kind⟩
    have apart : subjects ≠ protectedKind := by decide
    have others : wrapped.kind.val ≠ subjects ∧ wrapped.kind.val ≠ protectedKind := by
      constructor <;> intro same <;> simp [isReserved, same] at wrapped_kind
    have first : isReserved subject = true := by simp [isReserved, subject_kind]
    have second : isReserved shield = true := by simp [isReserved, shield_kind]
    refine ⟨by simpa using arranged.length_eq, ?_, ?_, ?_⟩
    · refine List.perm_singleton.mp ((arranged.filter _).trans (.of_eq ?_))
      simp [others.1, subject_kind, shield_kind, apart.symm]
    · refine List.perm_singleton.mp ((arranged.filter _).trans (.of_eq ?_))
      simp [others.2, subject_kind, shield_kind, apart]
    · refine List.perm_singleton.mp ((arranged.filter _).trans (.of_eq ?_))
      simp [wrapped_kind, first, second]

namespace AuditScope

variable {configuration : ArtifactRef} (audited : AuditScope artifacts configuration)

/-- The policy, its dependencies and the explicitly protected references. -/
def guards : Finset Digest := Historical.guards configuration audited.scope audited.protection

/-- The roots whose notices the audit ignores. -/
def Exempt (digest : Digest) : Prop := Subject artifacts audited.group digest ∧ digest ∉ audited.guards

theorem shape : audited.scope.dependencies.val.length = 3 ∧
    audited.scope.dependencies.val.filter (fun ref => ref.kind.val = subjects) = [audited.subject] ∧
    audited.scope.dependencies.val.filter (fun ref => ref.kind.val = protectedKind) = [audited.shield] ∧
    audited.scope.dependencies.val.filter (fun ref => !isReserved ref) = [audited.wrapped] :=
  shape_iff.mpr ⟨audited.dependencies, audited.wrapped_kind, audited.subject_kind, audited.shield_kind⟩

theorem unique (other : AuditScope artifacts configuration) :
    audited.group = other.group ∧ audited.guards = other.guards := by
  have scope : audited.scope = other.scope :=
    Option.some.inj (audited.registered.symm.trans other.registered)
  have left := audited.shape
  have right := other.shape
  rw [scope] at left
  have subject : audited.subject = other.subject := List.singleton_inj.mp (left.2.1.symm.trans right.2.1)
  have shield : audited.shield = other.shield := List.singleton_inj.mp (left.2.2.1.symm.trans right.2.2.1)
  have grouped := audited.grouped
  have guarded := audited.guarded
  rw [subject, other.grouped] at grouped
  rw [shield, other.guarded] at guarded
  refine ⟨(Option.some.inj grouped).symm, ?_⟩
  rw [guards, guards, scope, Option.some.inj guarded]

end AuditScope

theorem ignoredRoots_eq {spec : JobSpec} (audit : ¬ State.OutsideScope spec)
    (audited : AuditScope state.artifacts spec.configuration) :
    ignoredRoots state spec = (do
      let seen ← subjectClosure state audited.group.dependencies.val
      .ok (seen \ audited.guards)) := by
  obtain ⟨three, chosen, kept, free⟩ := audited.shape
  have inside : ¬ (spec.operation ≠ .audit ∨ spec.configuration.kind.val ≠ policy) := audit
  rw [ignoredRoots, if_neg inside]
  simp only [audited.registered, audited.exact, three, chosen, kept, free, audited.grouped, audited.guarded,
    require, refuse, ne_eq, not_true_eq_false, if_false, ok_bind, AuditScope.guards]

theorem scope_of_ok {spec : JobSpec} (audit : ¬ State.OutsideScope spec) {ignored : Finset Digest}
    (ok : ignoredRoots state spec = .ok ignored) : Nonempty (AuditScope state.artifacts spec.configuration) := by
  have inside : ¬ (spec.operation ≠ .audit ∨ spec.configuration.kind.val ≠ policy) := audit
  rw [ignoredRoots, if_neg inside] at ok
  simp only [bind_eq_ok, require_eq_ok, refuse_eq_ok, not_not] at ok
  obtain ⟨scope, registered, -, exact, -, three, ok⟩ := ok
  split at ok
  next subject shield wrapped chosen kept free =>
    simp only [bind_eq_ok, require_eq_ok] at ok
    obtain ⟨protection, guarded, group, grouped, _⟩ := ok
    obtain ⟨arranged, wrapped_kind, subject_kind, shield_kind⟩ := shape_iff.mp ⟨three, chosen, kept, free⟩
    exact ⟨⟨scope, group, protection, wrapped, subject, shield, registered, exact, arranged, wrapped_kind,
      subject_kind, shield_kind, grouped, guarded⟩⟩
  next => cases ok

/-- Without a scope of the right shape the check refuses the job. -/
theorem ignoredRoots_refused (invariant : State.GraphInvariant state) {spec : JobSpec}
    (audit : ¬ State.OutsideScope spec) (absent : IsEmpty (AuditScope state.artifacts spec.configuration)) :
    ∃ failure, ignoredRoots state spec = .error failure ∧ failure.kind = .conflict := by
  cases outcome : ignoredRoots state spec with
  | ok ignored => exact absurd (scope_of_ok audit outcome) (not_nonempty_iff.mpr absent)
  | error failure =>
      refine ⟨failure, rfl, ?_⟩
      have inside : ¬ (spec.operation ≠ .audit ∨ spec.configuration.kind.val ≠ policy) := audit
      rw [ignoredRoots, if_neg inside] at outcome
      simp only [bind_eq_error, require_eq_error, require_eq_ok, refuse_eq_error, refuse_eq_ok] at outcome
      obtain ⟨_, rfl⟩ | ⟨scope, registered, ⟨_, rfl⟩ | ⟨_, exact, ⟨_, rfl⟩ | ⟨_, three, shaped⟩⟩⟩ := outcome
      · rfl
      · rfl
      · rfl
      · split at shaped
        next subject shield wrapped chosen kept free =>
          have arranged := shape_iff.mp ⟨not_not.mp three, chosen, kept, free⟩
          have known := fun ref (listed : ref ∈ [wrapped, subject, shield]) => registered_iff.mp
            (registered_of_mem invariant registered (arranged.1.symm.subset listed))
          obtain ⟨protection, guarded, _⟩ := known shield (by simp)
          obtain ⟨group, grouped, _⟩ := known subject (by simp)
          exact absent.elim ⟨scope, group, protection, wrapped, subject, shield, registered, not_not.mp exact,
            arranged.1, arranged.2.1, arranged.2.2.1, arranged.2.2.2, grouped, guarded⟩
        next => exact Except.error.inj shaped ▸ rfl

theorem ignoredRoots_spec (invariant : State.GraphInvariant state) {spec : JobSpec}
    (audit : ¬ State.OutsideScope spec) :
    (∃ audited : AuditScope state.artifacts spec.configuration, Unnested state.artifacts audited.group ∧
      ∃ ignored, ignoredRoots state spec = .ok ignored ∧ ∀ digest, digest ∈ ignored ↔ audited.Exempt digest) ∨
    ((∀ audited : AuditScope state.artifacts spec.configuration, ¬ Unnested state.artifacts audited.group) ∧
      ∃ failure, ignoredRoots state spec = .error failure ∧ failure.kind = .conflict) := by
  rcases isEmpty_or_nonempty (AuditScope state.artifacts spec.configuration) with absent | ⟨⟨audited⟩⟩
  · exact .inr ⟨fun audited => absent.elim audited, ignoredRoots_refused invariant audit absent⟩
  · have computed := ignoredRoots_eq audit audited
    rcases subjectClosure_spec invariant audited.grouped with
      ⟨unnested, seen, closure, subjects⟩ | ⟨nested, failure, closure, conflict⟩
    · rw [closure, ok_bind] at computed
      refine .inl ⟨audited, unnested, _, computed, fun digest => ?_⟩
      rw [Finset.mem_sdiff, subjects]
      exact Iff.rfl
    · rw [closure] at computed
      refine .inr ⟨fun other => ?_, failure, computed, conflict⟩
      rwa [← (audited.unique other).1]

end Historical

namespace State

open Historical

/-- After every run the scope of an audit job is either well formed, and then exactly the exempt
subjects are ignored, or refused as a conflict; and an audit job that an event moves on avoids
what every active notice on another root affects, in particular on the policy, its dependencies
and the protected references. -/
theorem run_historicalAudit (sha256 : Bytes → Digest) (limits : RegistryLimits)
    (events : List (Action × Json.Members)) (state : State)
    (ran : (State.empty limits).run sha256 events = .ok state) (spec : JobSpec)
    (audit : ¬ OutsideScope spec) :
    ((∃ audited : AuditScope state.artifacts spec.configuration, Unnested state.artifacts audited.group ∧
        ∃ ignored, ignoredRoots state spec = .ok ignored ∧
          ∀ digest, digest ∈ ignored ↔ audited.Exempt digest) ∨
      ((∀ audited : AuditScope state.artifacts spec.configuration,
          ¬ Unnested state.artifacts audited.group) ∧
        ∃ failure, ignoredRoots state spec = .error failure ∧ failure.kind = .conflict)) ∧
    ∀ action data next refs, state.apply sha256 action data = .ok next → Uses state action data spec refs →
      ∃ audited : AuditScope next.artifacts spec.configuration, Unnested next.artifacts audited.group ∧
        ∀ notice ∈ state.notices.values, notice.active = true → ¬ audited.Exempt notice.root.sha256 →
          (∀ affected, state.affected notice.root = .ok affected →
            ∀ ref ∈ refs, ref.sha256 ∉ affected.1) ∧
          ∀ affected, next.affected notice.root = .ok affected →
            ∀ ref ∈ refs, ref.sha256 ∉ affected.1 := by
  have invariant := (GraphInvariant.empty limits).run ran
  refine ⟨ignoredRoots_spec invariant audit, fun action data next refs applied uses => ?_⟩
  obtain ⟨merged, ignored, ⟨records, installed⟩, same, scope, avoids⟩ := apply_scope applied uses
  rcases ignoredRoots_spec (invariant.install installed) audit with
    ⟨audited, unnested, exempt, found, members⟩ | ⟨_, failure, refused, _⟩
  · obtain rfl := Except.ok.inj (scope.symm.trans found)
    rw [same]
    exact ⟨audited, unnested, fun notice listed active bound =>
      avoids notice listed active fun member => bound ((members _).mp member)⟩
  · rw [refused] at scope
    cases scope

/-! ### A sample scope: one archive is audited under its protected settings -/

namespace Sample

def subjectsRef : ArtifactRef where
  sha256 := ⟨"1d4cf2a8ee0b6a0f0aa6c22d9f0bb9dd44f1f5a5e2c3c9c6a6f2a6d1b7a3c501", by decide +kernel⟩
  kind := ⟨Historical.subjects, by decide +kernel⟩
  schemaVersion := 1
  visibility := Visibility.private
  encoding := .bytes
  bounded := firstSchema

def protectedRef : ArtifactRef where
  sha256 := ⟨"2e5df3b9ff1c7b1f1bb7d33e0f1cc0ee55f2f6b6f3d4d0d7b7f3b7e2c8b4d602", by decide +kernel⟩
  kind := ⟨Historical.protectedKind, by decide +kernel⟩
  schemaVersion := 1
  visibility := Visibility.private
  encoding := .bytes
  bounded := firstSchema

def policyRef : ArtifactRef where
  sha256 := ⟨"3f6ea4c0aa2d8c2a2cc8e44f1a2dd1ff66a3a7c7a4e5e1e8c8a4c8f3d9c5e703", by decide +kernel⟩
  kind := ⟨Historical.policy, by decide +kernel⟩
  schemaVersion := 1
  visibility := Visibility.private
  encoding := .bytes
  bounded := firstSchema

theorem fits_settings : decide ([settings].length ≤ 10000) = true := rfl

theorem fits_scope : decide ([settings, subjectsRef, protectedRef].length ≤ 10000) = true := rfl

def scopeRecords : List ArtifactRecord :=
  [⟨source, Refs.empty⟩, ⟨settings, Refs.empty⟩, ⟨subjectsRef, ⟨[source], fits_source⟩⟩,
    ⟨protectedRef, ⟨[settings], fits_settings⟩⟩,
    ⟨policyRef, ⟨[settings, subjectsRef, protectedRef], fits_scope⟩⟩]

theorem within_attempts : (decide (1 ≤ 2) && decide (2 ≤ 100)) = true := rfl

theorem distinct_source : [source] ≠ [] ∧ [source].Nodup := ⟨nofun, List.nodup_singleton _⟩

def auditing : JobSpec where
  operation := .audit
  inputs := ⟨[source], fits_source⟩
  configuration := policyRef
  implementation := ⟨"797efd83f8c15deef7f4d4762a8c92d8b5a9305f", isRevision_sample⟩
  invocation := ⟨"first", isName_first⟩
  attemptLimit := ⟨2, within_attempts⟩
  distinct := distinct_source

theorem ran_scope : ∃ state, (State.empty RegistryLimits.default).run digestOf
    [(.register, State.registration scopeRecords)] = .ok state ∧
      (ignoredRoots state auditing).toBool = true := by
  have decoded : eventRecords (State.registration scopeRecords) = .ok scopeRecords := by
    change require (Codec.validateAll ArtifactRecord.codec.validate
      (scopeRecords.map ArtifactRecord.codec.document)) invalid = _
    rw [Codec.validateAll_map, require]
  simp only [run, foldAll, apply, reduceCtorEq, if_false, applyEvent, applyInstalled, decoded, ok_then]
  exact ran_of_holds (by decide +kernel)

end Sample

theorem run_historicalAudit_sample : ∃ state, (State.empty RegistryLimits.default).run Sample.digestOf
    [(.register, registration Sample.scopeRecords)] = .ok state ∧
      ∃ audited : AuditScope state.artifacts Sample.policyRef, Unnested state.artifacts audited.group := by
  obtain ⟨state, ran, accepted⟩ := Sample.ran_scope
  refine ⟨state, ran, ?_⟩
  rcases (run_historicalAudit Sample.digestOf RegistryLimits.default _ state ran Sample.auditing
    (by rintro (other | other) <;> exact other rfl)).1 with ⟨audited, unnested, _⟩ | ⟨_, failure, refused, _⟩
  · exact ⟨audited, unnested⟩
  · rw [refused] at accepted
    cases accepted

end State

end FeatureRl
