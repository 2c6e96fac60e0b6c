import FeatureRl.Artifacts.Blobs
import FeatureRl.Contracts.Samples
import FeatureRl.Lib.Budgeted
import FeatureRl.Lib.JsonReader
import FeatureRl.Lib.Sorting
import FeatureRl.Registry.Models
import Mathlib.Data.Prod.Lex

/-!
Verification of the closure of some artifacts. Every artifact is read once, within what is left of the byte budget,
and its dependencies are read after it.
-/

namespace FeatureRl

open Artifacts Budgeted Checked Sorting

namespace Verify

inductive Stop where
  | store (failure : Artifacts.Failure)
  | conflict (message : String)
  | limit (message : String)
deriving DecidableEq

def fromStore {α : Type} : Except Artifacts.Failure α → Except Stop α
  | .ok value => .ok value
  | .error failure => .error (.store failure)

/-! ### References inside a document -/

def referenceKeys : List String := ["sha256", "kind", "schema_version", "visibility", "encoding"]

def isReference (members : Json.Members) : Bool := referenceKeys.all fun key => (members.lookup key).isSome

mutual

def references : Json → Option (List ArtifactRef)
  | .obj members =>
      if isReference members then (ArtifactRef.codec.validate (.obj members)).map ([·])
      else referencesMembers members
  | .arr items => referencesItems items
  | _ => some []

def referencesItems : List Json → Option (List ArtifactRef)
  | [] => some []
  | item :: rest => do
      let first ← references item
      let others ← referencesItems rest
      some (first ++ others)

def referencesMembers : Json.Members → Option (List ArtifactRef)
  | [] => some []
  | (_, item) :: rest => do
      let first ← references item
      let others ← referencesMembers rest
      some (first ++ others)

end

/-! ### One artifact -/

/-- What a registry verifies against: the store, the limits, the registered and the declared dependencies, and the
checks of typed documents and of reserved byte records. -/
structure Context where
  hashing : Hashing
  store : ArtifactStore
  limits : RegistryLimits
  artifacts : Dict Digest ArtifactRecord
  explicit : Dict Digest (List ArtifactRef)
  validate : Envelope → Except Artifacts.Failure Unit
  intrinsic : ArtifactRef → Bytes → Except Stop (List ArtifactRef)

namespace Context

variable (context : Context)

def reserved : List String :=
  ["registry-historical-audit-policy", "registry-historical-audit-subjects", "registry-historical-audit-protected"]

def checkRef (ref : ArtifactRef) : Except Stop Unit :=
  refuse (256 < ref.kind.val.length) (.limit "artifact metadata exceeds registry bound")

def checkRefs (refs : List ArtifactRef) : Except Stop Unit := do
  refuse (10000 < refs.length) (.limit "reference count exceeds closure bound")
  checkAll checkRef refs

/-- The length of the canonical envelope that the metadata of a reference and a payload make up. -/
def envelopeLength (ref : ArtifactRef) (payload : Bytes) : Nat :=
  (Envelope.mk ref.kind ref.schemaVersion ref.visibility ref.encoding payload ref.bounded).size

def schemaVersion (kind : String) : Nat :=
  if kind ∈ ["CandidateRecord", "SourcePair", "VerifierBundle", "QualificationReport"] then 2 else 1

/-- Its envelope's length, and the references that it holds itself. -/
def read (ref : ArtifactRef) (cap : Nat) : Except Stop (Nat × List ArtifactRef) :=
  if ref.encoding = .bytes then do
    fromStore (ArtifactStore.byteObject ref)
    let envelope ← fromStore (context.store.get context.hashing (some cap) ref)
    let payload ← fromStore (ArtifactStore.decodeBytes context.limits.maxArtifactPayloadBytes.val envelope)
    let intrinsic ← context.intrinsic ref payload
    .ok (envelopeLength ref payload, intrinsic)
  else do
    refuse (ref.kind.val ∉ artifactTypes) (.store (.integrity "reference is not a known typed artifact"))
    refuse (ref.schemaVersion ≠ schemaVersion ref.kind.val)
      (.store (.integrity "unsupported artifact schema version; revalidate and republish"))
    let envelope ← fromStore (context.store.get context.hashing (some cap) ref)
    fromStore (context.validate envelope)
    let intrinsic ← require ((Json.loads envelope.payload).bind references)
      (.store (.integrity "invalid artifact payload"))
    .ok (envelopeLength ref envelope.payload, intrinsic)

/-- Dependencies declared for this call, else those registered. -/
def declared (ref : ArtifactRef) : List ArtifactRef :=
  match context.explicit.get? ref.sha256 with
  | some refs => refs
  | none => ((context.artifacts.get? ref.sha256).map fun record => record.dependencies.val).getD []

def order (ref : ArtifactRef) : String ×ₗ String ×ₗ String :=
  toLex (ref.sha256.val, toLex (ref.kind.val, ref.visibility.name))

def follow (ref : ArtifactRef) (intrinsic : List ArtifactRef) : Except Stop (List ArtifactRef) := do
  refuse (ref.kind.val ∈ reserved ∧ ¬ context.declared ref ⊆ intrinsic)
    (.conflict "reserved audit scope cannot add undeclared dependencies")
  let dependencies := sortBy order (intrinsic ++ context.declared ref).dedup
  refuse (context.limits.maxClosureArtifacts.val < dependencies.length)
    (.limit "artifact dependency count exceeded")
  .ok dependencies

def rules : Rules ArtifactRef Digest Stop (List ArtifactRef) where
  key := ArtifactRef.sha256
  check := checkRef
  read := context.read
  follow := context.follow
  maxCount := context.limits.maxClosureArtifacts.val
  maxTotal := context.limits.maxClosureBytes.val
  maxEach := context.limits.maxArtifactEnvelopeBytes.val
  conflicting := .conflict "one digest has conflicting reference metadata"
  tooMany := .limit "artifact dependency closure count exceeded"
  exhausted := .limit "artifact dependency closure byte budget exhausted"
  exceeded := .limit "artifact dependency closure byte budget exceeded"

/-- A verified artifact with its dependencies. -/
structure Record where
  ref : ArtifactRef
  dependencies : List ArtifactRef
deriving DecidableEq

def records (progress : Progress ArtifactRef) : List Record :=
  sortBy (fun record => record.ref.sha256.val) (progress.visited.map fun visit => ⟨visit.item, visit.next⟩)

/-- Verification that takes the first pending artifact of an arrangement; `none` when the steps run out. -/
def verifyIn (arrange : List ArtifactRef → List ArtifactRef) (steps : Nat) (roots : List ArtifactRef) :
    Option (Except Stop (List Record)) :=
  match checkRefs roots with
  | .error stop => some (.error stop)
  | .ok () => (context.rules.run arrange steps (Rules.start roots)).map fun outcome => outcome.map records

/-- The order of the registry: the artifact that was put on the list last. -/
def verify (steps : Nat) (roots : List ArtifactRef) : Option (Except Stop (List Record)) :=
  context.verifyIn id steps roots

/-! ### The rules are lawful -/

theorem envelopeLength_refOf {hashing : Hashing} {ref : ArtifactRef} {envelope : Envelope}
    (same : hashing.refOf envelope = ref) : envelopeLength ref envelope.payload = envelope.size := by
  subst same
  rfl

theorem get_capped {ref : ArtifactRef} {cap limit : Nat} (below : cap ≤ limit) {envelope : Envelope} :
    context.store.get context.hashing (some cap) ref = .ok envelope ↔
      context.store.get context.hashing (some limit) ref = .ok envelope ∧ envelope.size ≤ cap := by
  rw [ArtifactStore.get_eq_ok, ArtifactStore.get_eq_ok]
  constructor
  · rintro ⟨allowed, present, small, same⟩
    have bound : envelope.size ≤ cap := small cap rfl
    exact ⟨⟨allowed, present, fun other found => by obtain rfl := Option.some.inj found; omega, same⟩, bound⟩
  · rintro ⟨⟨allowed, present, _, same⟩, bound⟩
    exact ⟨allowed, present, fun other found => by obtain rfl := Option.some.inj found; exact bound, same⟩

theorem fromStore_eq_ok {α : Type} {outcome : Except Artifacts.Failure α} {value : α} :
    fromStore outcome = .ok value ↔ outcome = .ok value := by
  cases outcome <;> simp [fromStore]

theorem read_capped {ref : ArtifactRef} {cap limit : Nat} (below : cap ≤ limit) {size : Nat}
    {intrinsic : List ArtifactRef} : context.read ref cap = .ok (size, intrinsic) ↔
      context.read ref limit = .ok (size, intrinsic) ∧ size ≤ cap := by
  have measured {envelope : Envelope} {bound : Nat}
      (got : context.store.get context.hashing (some bound) ref = .ok envelope) :
      envelopeLength ref envelope.payload = envelope.size :=
    envelopeLength_refOf (ArtifactStore.get_eq_ok.mp got).2.2.2
  rw [read, read]
  split
  next =>
    simp only [bind_eq_ok, fromStore_eq_ok, Except.ok.injEq, Prod.mk.injEq, ArtifactStore.decodeBytes, refuse_eq_ok]
    constructor
    · rintro ⟨allowed, object, envelope, got, payload, ⟨again, small, rfl⟩, found, checked, rfl, rfl⟩
      obtain ⟨larger, fits⟩ := (get_capped context below).mp got
      exact ⟨⟨allowed, object, envelope, larger, _, ⟨again, small, rfl⟩, _, checked, rfl, rfl⟩, measured got ▸ fits⟩
    · rintro ⟨⟨allowed, object, envelope, got, payload, ⟨again, small, rfl⟩, found, checked, rfl, rfl⟩, fits⟩
      rw [measured got] at fits
      exact ⟨allowed, object, envelope, (get_capped context below).mpr ⟨got, fits⟩, _, ⟨again, small, rfl⟩, _, checked,
        rfl, rfl⟩
  next =>
    simp only [bind_eq_ok, fromStore_eq_ok, Except.ok.injEq, Prod.mk.injEq]
    constructor
    · rintro ⟨allowed, known, version, supported, envelope, got, valid, validated, found, held, rfl, rfl⟩
      obtain ⟨larger, fits⟩ := (get_capped context below).mp got
      exact ⟨⟨allowed, known, version, supported, envelope, larger, valid, validated, _, held, rfl, rfl⟩,
        measured got ▸ fits⟩
    · rintro ⟨⟨allowed, known, version, supported, envelope, got, valid, validated, found, held, rfl, rfl⟩, fits⟩
      rw [measured got] at fits
      exact ⟨allowed, known, version, supported, envelope, (get_capped context below).mpr ⟨got, fits⟩, valid, validated,
        _, held, rfl, rfl⟩

/-- The size of the envelope under the digest of a reference. -/
def storedSize (ref : ArtifactRef) : Nat := ((context.store.objects.get? ref.sha256).map Envelope.size).getD 0

theorem read_size {ref : ArtifactRef} {cap size : Nat} {intrinsic : List ArtifactRef}
    (done : context.read ref cap = .ok (size, intrinsic)) : size = context.storedSize ref := by
  have measured {envelope : Envelope} {bound : Nat}
      (got : context.store.get context.hashing (some bound) ref = .ok envelope) :
      envelopeLength ref envelope.payload = context.storedSize ref := by
    obtain ⟨_, present, _, same⟩ := ArtifactStore.get_eq_ok.mp got
    rw [envelopeLength_refOf same, storedSize, present]
    rfl
  rw [read] at done
  split at done
  next =>
    simp only [bind_eq_ok, fromStore_eq_ok, Except.ok.injEq, Prod.mk.injEq, ArtifactStore.decodeBytes,
      refuse_eq_ok] at done
    obtain ⟨_, _, envelope, got, _, ⟨_, _, rfl⟩, _, _, rfl, _⟩ := done
    exact measured got
  next =>
    simp only [bind_eq_ok, fromStore_eq_ok, Except.ok.injEq, Prod.mk.injEq] at done
    obtain ⟨_, _, _, _, envelope, got, _, _, _, _, rfl, _⟩ := done
    exact measured got

theorem envelopeLength_pos (ref : ArtifactRef) (payload : Bytes) : 0 < envelopeLength ref payload := by
  rw [envelopeLength, Envelope.size]
  omega

theorem read_positive {ref : ArtifactRef} {cap size : Nat} {intrinsic : List ArtifactRef}
    (done : context.read ref cap = .ok (size, intrinsic)) : 0 < size := by
  rw [read] at done
  split at done
  next =>
    simp only [bind_eq_ok, Except.ok.injEq, Prod.mk.injEq] at done
    obtain ⟨_, _, _, _, _, _, _, _, rfl, _⟩ := done
    exact envelopeLength_pos ref _
  next =>
    simp only [bind_eq_ok, Except.ok.injEq, Prod.mk.injEq] at done
    obtain ⟨_, _, _, _, _, _, _, _, _, _, rfl, _⟩ := done
    exact envelopeLength_pos ref _

theorem follow_small {ref : ArtifactRef} {intrinsic next : List ArtifactRef}
    (done : context.follow ref intrinsic = .ok next) : next.length ≤ context.limits.maxClosureArtifacts.val := by
  simp only [follow, bind_eq_ok, refuse_eq_ok] at done
  obtain ⟨_, _, _, few, shape⟩ := done
  obtain rfl := Except.ok.inj shape
  omega

theorem lawful : context.rules.Lawful context.limits.maxClosureArtifacts.val where
  capped _ _ _ _ below := context.read_capped below
  positive _ _ _ _ done := context.read_positive done
  small _ _ _ done := context.follow_small done

/-! ### What an accepted closure is -/

/-- The records of a closure: one for each artifact that the roots lead to, within the budgets. -/
structure Closed (roots : List ArtifactRef) (records : List Record) : Prop where
  once : (records.map fun record => record.ref.sha256).Nodup
  started : ∀ root ∈ roots, ∃ record ∈ records, record.ref = root
  dependencies : ∀ record ∈ records, ∀ ref ∈ record.dependencies, ∃ other ∈ records, other.ref = ref
  reached : ∀ record ∈ records, context.rules.Reached roots record.ref
  count : records.length ≤ context.limits.maxClosureArtifacts.val
  bytes : (records.map fun record => context.storedSize record.ref).sum ≤ context.limits.maxClosureBytes.val

theorem mem_records {progress : Progress ArtifactRef} {record : Record} :
    record ∈ records progress ↔ ∃ visit ∈ progress.visited, record = ⟨visit.item, visit.next⟩ := by
  rw [records, mem_sortBy, List.mem_map]
  exact exists_congr fun visit => and_congr_right fun _ => eq_comm

theorem records_perm (progress : Progress ArtifactRef) :
    (records progress).Perm (progress.visited.map fun visit => ⟨visit.item, visit.next⟩) := sortBy_perm _ _

theorem closed_of_accepted {roots : List ArtifactRef} {progress : Progress ArtifactRef}
    (accepted : context.rules.Accepted roots progress.visited) : context.Closed roots (records progress) where
  once := by
    rw [((records_perm progress).map _).nodup_iff, List.map_map]
    exact accepted.distinct
  started root listed := by
    obtain ⟨visit, found, rfl⟩ := accepted.starts root listed
    exact ⟨_, mem_records.mpr ⟨visit, found, rfl⟩, rfl⟩
  dependencies record listed ref follows := by
    obtain ⟨visit, found, rfl⟩ := mem_records.mp listed
    obtain ⟨other, there, rfl⟩ := accepted.closed visit found ref follows
    exact ⟨_, mem_records.mpr ⟨other, there, rfl⟩, rfl⟩
  reached record listed := by
    obtain ⟨visit, found, rfl⟩ := mem_records.mp listed
    exact accepted.reached visit found
  count := by
    rw [(records_perm progress).length_eq, List.length_map]
    exact accepted.count
  bytes := by
    have sizes : (progress.visited.map fun visit => context.storedSize visit.item) = progress.visited.map Visit.size := by
      refine List.map_congr_left fun visit found => ?_
      obtain ⟨_, _, read, _⟩ := accepted.reads visit found
      exact (context.read_size read).symm
    rw [((records_perm progress).map _).sum_eq, List.map_map]
    exact (congrArg List.sum sizes).trans_le accepted.total

theorem records_eq {progress other : Progress ArtifactRef}
    (distinct : (progress.visited.map fun visit => visit.item.sha256).Nodup)
    (same : progress.visited.Perm other.visited) : records progress = records other := by
  refine sortBy_eq_of_perm (fun one first two second equal => ?_) (same.map _)
  obtain ⟨visit, found, rfl⟩ := List.mem_map.mp first
  obtain ⟨visit', found', rfl⟩ := List.mem_map.mp second
  rw [List.inj_on_of_nodup_map distinct found found' (Subtype.ext equal)]

theorem verifyIn_eq_ok {arrange : List ArtifactRef → List ArtifactRef} {steps : Nat} {roots : List ArtifactRef}
    {found : List Record} : context.verifyIn arrange steps roots = some (.ok found) ↔
      checkRefs roots = .ok () ∧ ∃ progress,
        context.rules.run arrange steps (Rules.start roots) = some (.ok progress) ∧ found = records progress := by
  rw [verifyIn]
  cases checked : checkRefs roots with
  | error stop => simp
  | ok _ =>
      cases ran : context.rules.run arrange steps (Rules.start roots) with
      | none => simp
      | some outcome => cases outcome <;> simp [Except.map, eq_comm]

theorem checkRefs_perm {roots others : List ArtifactRef} (same : roots.Perm others)
    (checked : checkRefs roots = .ok ()) : checkRefs others = .ok () := by
  simp only [checkRefs, bind_eq_ok, refuse_eq_ok, checkAll_eq_ok] at checked ⊢
  obtain ⟨_, few, each⟩ := checked
  exact ⟨(), same.length_eq ▸ few, fun ref listed => each ref (same.mem_iff.mpr listed)⟩

theorem verifyIn_terminates {arrange : List ArtifactRef → List ArtifactRef} (reorders : Rules.Reorders arrange)
    (roots : List ArtifactRef) : ∃ steps outcome, ∀ more, steps ≤ more →
      context.verifyIn arrange more roots = some outcome := by
  let steps := Rules.work context.rules context.limits.maxClosureArtifacts.val (Rules.start roots) + 1
  have enough : Rules.work context.rules context.limits.maxClosureArtifacts.val (Rules.start roots) < steps :=
    Nat.lt_succ_self _
  obtain ⟨outcome, ran⟩ := Rules.run_terminates context.lawful reorders enough
  cases checked : checkRefs roots with
  | error stop =>
      refine ⟨0, .error stop, fun more _ => ?_⟩
      rw [verifyIn, checked]
  | ok _ =>
      refine ⟨steps, outcome.map records, fun more le => ?_⟩
      rw [verifyIn, checked]
      simp only [Rules.run_mono le ran, Option.map_some]

/-- Another order of the roots, the dependencies and the visits accepts with the same records. -/
theorem verifyIn_order {arrange other : List ArtifactRef → List ArtifactRef} (reorders : Rules.Reorders arrange)
    (reordersOther : Rules.Reorders other) {roots others : List ArtifactRef} (same : roots.Perm others)
    {steps more : Nat} {found : List Record} (verified : context.verifyIn arrange steps roots = some (.ok found))
    {outcome : Except Stop (List Record)} (ran : context.verifyIn other more others = some outcome) :
    outcome = .ok found := by
  obtain ⟨checked, progress, finished, rfl⟩ := (context.verifyIn_eq_ok).mp verified
  have accepted := Rules.accepted_of_run context.lawful reorders finished
  rw [verifyIn, checkRefs_perm same checked] at ran
  simp only [Option.map_eq_some_iff] at ran
  obtain ⟨inner, rest, rfl⟩ := ran
  obtain ⟨result, rfl, visits⟩ := Rules.run_of_accepted context.lawful reordersOther
    (fun item => same.mem_iff) accepted rest
  rw [Except.map, records_eq (accepted.distinct.perm (visits.symm.map _)) visits]

/-- One step of a run, whichever artifact it takes. -/
def Step (progress next : Progress ArtifactRef) : Prop :=
  ∃ item rest, (item :: rest).Perm progress.pending ∧ context.rules.step progress item rest = .ok next

theorem known_of_steps {roots : List ArtifactRef} {progress : Progress ArtifactRef}
    (path : Relation.ReflTransGen context.Step (Rules.start roots) progress) :
    Rules.Known context.rules roots progress := by
  induction path with
  | refl => exact Rules.known_start roots
  | tail _ step ih =>
      obtain ⟨item, rest, taken, stepped⟩ := step
      exact ih.step context.lawful taken (Rules.step_eq_ok stepped)

def sampleDigest : Digest := ⟨"0000000000000000000000000000000000000000000000000000000000000000", isDigest_zeros⟩

def sampleEnvelope : Envelope := ArtifactStore.opaqueBytes [104, 105] ⟨"note", by decide⟩ .private

def sample : Context where
  hashing := ⟨fun _ => sampleDigest, fun _ => sampleDigest⟩
  store := ⟨.controller, Dict.empty.set sampleDigest sampleEnvelope⟩
  limits := .default
  artifacts := Dict.empty
  explicit := Dict.empty
  validate _ := .ok ()
  intrinsic _ _ := .ok []

def sampleRef : ArtifactRef := sample.hashing.refOf sampleEnvelope

end Context

end Verify

end FeatureRl
