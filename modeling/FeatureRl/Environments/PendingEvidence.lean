import FeatureRl.Contracts.Values
import FeatureRl.Lib.Checked
import FeatureRl.Lib.JsonReader

/-!
Publication of runtime evidence. A failed publication is raised as an exception that keeps the bytes for a later
try, and its constructor reads some members of the payload that it keeps.
-/

namespace FeatureRl

open Checked

namespace RuntimeEvidence

/-- What the store says about one attempt to put bytes. -/
abbrev Store (Ref Failure : Type) := Bytes → String → Visibility → Except Failure Ref

structure EvidencePublicationFailed where
  message : String
  payload : Bytes
  kind : String
  visibility : Visibility
  sha256 : Digest
  cleanupVerified : Json
  savedSource : Option Json

inductive Raised where
  | environment (message : String)
  | attribute (message : String)
  | policyRejected (message : String)
  | pending (publication : EvidencePublicationFailed)

/-- The members of a dictionary; `none` for any other value. -/
def members? : Json → Option Json.Members
  | .obj members => some members
  | _ => none

def typeName : Json → String
  | .null => "NoneType"
  | .bool _ => "bool"
  | .int _ => "int"
  | .float _ => "float"
  | .str _ => "str"
  | .arr _ => "list"
  | .obj _ => "dict"

/-- `value.get('extra', {}).get('saved_source')` on a dictionary. -/
def readSavedSource (members : Json.Members) : Except Raised (Option Json) :=
  match members.lookup "extra" with
  | none => .ok none
  | some (.obj extra) => .ok (extra.lookup "saved_source")
  | some other => .error (.attribute ("'" ++ typeName other ++ "' object has no attribute 'get'"))

def EvidencePublicationFailed.create (sha256 : Bytes → Digest) (message : String) (payload : Bytes) (kind : String)
    (visibility : Visibility) : Except Raised EvidencePublicationFailed :=
  match (Json.loads payload).bind members? with
  | none => .ok ⟨message, payload, kind, visibility, sha256 payload, .bool false, none⟩
  | some members => do
      let saved ← readSavedSource members
      .ok ⟨message, payload, kind, visibility, sha256 payload,
        (members.lookup "cleanup_verified").getD (.bool false), saved⟩

/-! ### The runtime -/

section

variable {Ref Failure : Type} (sha256 : Bytes → Digest)

def maxPublication : Nat := 64 * 1024 * 1024

def publish (store : Store Ref Failure) (value : Json) (kind : String) (visibility : Visibility) : Except Raised Ref :=
  let data := value.canonical
  if maxPublication < data.length then .error (.environment "evidence publication limit")
  else
    match store data kind visibility with
    | .ok ref => .ok ref
    | .error _ => do
        let pending ← EvidencePublicationFailed.create sha256 "controller evidence publication failed" data kind visibility
        .error (.pending pending)

def retryPublication (store : Store Ref Failure) (pending : EvidencePublicationFailed) : Except Raised Ref :=
  if maxPublication < pending.payload.length ∨ sha256 pending.payload ≠ pending.sha256 then
    .error (.policyRejected "invalid pending publication")
  else
    match store pending.payload pending.kind pending.visibility with
    | .ok ref => .ok ref
    | .error _ => .error (.pending pending)

end

/-- What a session has recorded. -/
structure Session where
  lifecycleWallSeconds : Json
  record : Json
  effective : Json
  commands : Json
  cleanupVerified : Bool
  maximumCpuSeconds : Json
  effectiveCpuSeconds : Json
  maximumMemoryBytes : Json
  memoryOomEvents : Json
  containerState : Json

/-- The members of an execution record, in the order of their names. -/
def executionMembers (session : Session) (revision phase : String) (extra : Option Json) : Json.Members :=
  [("cleanup_verified", .bool session.cleanupVerified), ("commands", session.commands),
    ("container_state", session.containerState), ("effective", session.effective),
    ("effective_cpu_seconds", session.effectiveCpuSeconds), ("extra", extra.getD .null),
    ("lifecycle_wall_seconds", session.lifecycleWallSeconds), ("maximum_cpu_seconds", session.maximumCpuSeconds),
    ("maximum_memory_bytes", session.maximumMemoryBytes), ("memory_oom_events", session.memoryOomEvents),
    ("phase", .str phase), ("record", session.record), ("revision", .str revision)]

def evidence {Ref Failure : Type} (sha256 : Bytes → Digest) (store : Store Ref Failure) (session : Session)
    (revision phase : String) (extra : Option Json) : Except Raised Ref :=
  publish sha256 store (.obj (executionMembers session revision phase extra)) "environment-execution" .private

/-! ### When a failed publication is kept -/

/-- The constructor can read the payload: it is no dictionary, or its `extra` is missing or a dictionary. -/
def Readable (value : Json) : Prop :=
  ∀ members other, value = .obj members → members.lookup "extra" = some other → (members? other).isSome = true

/-- Every failure of the store is raised with the exact publication, which a working store then takes; and the
publication can be made again from its bytes. -/
structure Survives (sha256 : Bytes → Digest) (value : Json) (kind : String) (visibility : Visibility) : Prop where
  raised : ∀ (Ref Failure : Type) (store : Store Ref Failure) (failure : Failure),
    store value.canonical kind visibility = .error failure →
    ∃ pending, publish sha256 store value kind visibility = .error (.pending pending) ∧
      pending.payload = value.canonical ∧ pending.kind = kind ∧ pending.visibility = visibility ∧
      ∀ (working : Store Ref Failure) (ref : Ref), working value.canonical kind visibility = .ok ref →
        retryPublication sha256 working pending = .ok ref
  reconstructed : ∀ message, ∃ pending,
    EvidencePublicationFailed.create sha256 message value.canonical kind visibility = .ok pending ∧
      ∀ (Ref Failure : Type) (working : Store Ref Failure) (ref : Ref),
        working value.canonical kind visibility = .ok ref → retryPublication sha256 working pending = .ok ref

variable {sha256 : Bytes → Digest}

theorem readSavedSource_eq_ok {members : Json.Members} : (∃ saved, readSavedSource members = .ok saved) ↔
    ∀ other, members.lookup "extra" = some other → (members? other).isSome = true := by
  rw [readSavedSource]
  cases found : members.lookup "extra" with
  | none => simp
  | some other => cases other <;> simp [members?]

theorem create_eq_ok {value : Json} (formed : value.normal = true) (message kind : String) (visibility : Visibility) :
    (∃ pending, EvidencePublicationFailed.create sha256 message value.canonical kind visibility = .ok pending) ↔
      Readable value := by
  rw [EvidencePublicationFailed.create, Json.loads_canonical formed, Option.bind_some]
  cases value with
  | obj members =>
      have readable : Readable (.obj members) ↔ ∃ saved, readSavedSource members = .ok saved := by
        rw [readSavedSource_eq_ok]
        constructor
        · exact fun readable other found => readable members other rfl found
        · rintro each _ other ⟨⟩ found
          exact each other found
      rw [readable]
      simp only [members?, bind_eq_ok]
      constructor
      · rintro ⟨_, saved, read, _⟩
        exact ⟨saved, read⟩
      · rintro ⟨saved, read⟩
        exact ⟨_, saved, read, rfl⟩
  | null => exact iff_of_true ⟨_, rfl⟩ fun _ _ impossible => nomatch impossible
  | bool => exact iff_of_true ⟨_, rfl⟩ fun _ _ impossible => nomatch impossible
  | int => exact iff_of_true ⟨_, rfl⟩ fun _ _ impossible => nomatch impossible
  | float => exact iff_of_true ⟨_, rfl⟩ fun _ _ impossible => nomatch impossible
  | str => exact iff_of_true ⟨_, rfl⟩ fun _ _ impossible => nomatch impossible
  | arr => exact iff_of_true ⟨_, rfl⟩ fun _ _ impossible => nomatch impossible

/-- A publication that was made keeps what it was made of. -/
theorem create_keeps {message kind : String} {payload : Bytes} {visibility : Visibility}
    {pending : EvidencePublicationFailed}
    (made : EvidencePublicationFailed.create sha256 message payload kind visibility = .ok pending) :
    pending.payload = payload ∧ pending.kind = kind ∧ pending.visibility = visibility ∧
      pending.sha256 = sha256 payload := by
  rw [EvidencePublicationFailed.create] at made
  split at made
  next =>
    obtain rfl := Except.ok.inj made
    exact ⟨rfl, rfl, rfl, rfl⟩
  next =>
    simp only [bind_eq_ok] at made
    obtain ⟨_, _, done⟩ := made
    obtain rfl := Except.ok.inj done
    exact ⟨rfl, rfl, rfl, rfl⟩

theorem retryPublication_of_working {Ref Failure : Type} {pending : EvidencePublicationFailed}
    (fits : pending.payload.length ≤ maxPublication) (bound : pending.sha256 = sha256 pending.payload)
    {working : Store Ref Failure} {ref : Ref}
    (works : working pending.payload pending.kind pending.visibility = .ok ref) :
    retryPublication sha256 working pending = .ok ref := by
  rw [retryPublication, if_neg (by rw [bound]; simpa using fits), works]

theorem create_error {message kind : String} {payload : Bytes} {visibility : Visibility} {raised : Raised}
    (failed : EvidencePublicationFailed.create sha256 message payload kind visibility = .error raised) :
    ∃ text, raised = .attribute text := by
  rw [EvidencePublicationFailed.create] at failed
  split at failed
  next => cases failed
  next members _ =>
    rw [readSavedSource] at failed
    split at failed
    next => cases failed
    next => cases failed
    next other _ _ => exact ⟨_, (Except.error.inj failed).symm⟩

theorem readable_of_survives {value : Json} (formed : value.normal = true) {kind : String} {visibility : Visibility}
    (survives : Survives sha256 value kind visibility) : Readable value := by
  obtain ⟨pending, made, _⟩ := survives.reconstructed ""
  exact (create_eq_ok formed "" kind visibility).mp ⟨pending, made⟩

theorem survives_of_readable {value : Json} (formed : value.normal = true)
    (fits : value.canonical.length ≤ maxPublication) {kind : String} {visibility : Visibility}
    (readable : Readable value) : Survives sha256 value kind visibility := by
  have retried {message : String} {pending : EvidencePublicationFailed}
      (made : EvidencePublicationFailed.create sha256 message value.canonical kind visibility = .ok pending)
      {Ref Failure : Type} (working : Store Ref Failure) (ref : Ref)
      (works : working value.canonical kind visibility = .ok ref) :
      retryPublication sha256 working pending = .ok ref := by
    obtain ⟨payload, sameKind, sameVisibility, digest⟩ := create_keeps made
    refine retryPublication_of_working ?_ (by rw [digest, payload]) (by rw [payload, sameKind, sameVisibility, works])
    rw [payload]
    exact fits
  constructor
  · intro Ref Failure store failure failed
    obtain ⟨pending, made⟩ := (@create_eq_ok sha256 _ formed "controller evidence publication failed" kind
      visibility).mpr readable
    obtain ⟨payload, sameKind, sameVisibility, _⟩ := create_keeps made
    refine ⟨pending, ?_, payload, sameKind, sameVisibility, fun working ref works => retried made working ref works⟩
    rw [publish, if_neg (by omega)]
    simp only [failed, made]
    rfl
  · intro message
    obtain ⟨pending, made⟩ := (@create_eq_ok sha256 _ formed message kind visibility).mpr readable
    exact ⟨pending, made, fun Ref Failure working ref works => retried made working ref works⟩

/-- Without extra data the store's failure is not what is raised. -/
theorem publish_unreadable {value : Json} (formed : value.normal = true)
    (fits : value.canonical.length ≤ maxPublication) {kind : String} {visibility : Visibility}
    (unreadable : ¬ Readable value) {Ref Failure : Type} {store : Store Ref Failure} {failure : Failure}
    (failed : store value.canonical kind visibility = .error failure) :
    ∃ text, publish sha256 store value kind visibility = .error (.attribute text) := by
  cases made : EvidencePublicationFailed.create sha256 "controller evidence publication failed" value.canonical
      kind visibility with
  | ok pending => exact absurd ((create_eq_ok formed _ kind visibility).mp ⟨pending, made⟩) unreadable
  | error raised =>
      obtain ⟨text, rfl⟩ := create_error made
      refine ⟨text, ?_⟩
      rw [publish, if_neg (by omega)]
      simp only [failed, made]
      rfl

theorem create_unread {payload : Bytes} {members : Json.Members} {raised : Raised}
    (loaded : (Json.loads payload).bind members? = some members) (unread : readSavedSource members = .error raised)
    (message kind : String) (visibility : Visibility) :
    EvidencePublicationFailed.create sha256 message payload kind visibility = .error raised := by
  rw [EvidencePublicationFailed.create, loaded]
  simp only [unread]
  rfl

theorem readable_execution {session : Session} {revision phase : String} {extra : Option Json} :
    Readable (.obj (executionMembers session revision phase extra)) ↔ ∃ members, extra = some (.obj members) := by
  have found : (executionMembers session revision phase extra).lookup "extra" = some (extra.getD .null) := rfl
  constructor
  · intro readable
    have dictionary := readable _ _ rfl found
    cases extra with
    | none => cases dictionary
    | some other =>
        cases other with
        | obj members => exact ⟨members, rfl⟩
        | _ => cases dictionary
  · rintro ⟨members, rfl⟩ _ other ⟨⟩ read
    rw [found] at read
    obtain rfl := Option.some.inj read
    rfl

theorem survives_iff (sha256 : Bytes → Digest) :
    (∀ (value : Json) (kind : String) (visibility : Visibility),
      value.normal = true → value.canonical.length ≤ maxPublication →
      (Survives sha256 value kind visibility ↔ Readable value)) ∧
    ∀ (session : Session) (revision phase : String) (extra : Option Json),
      (Json.obj (executionMembers session revision phase extra)).normal = true →
      (Json.obj (executionMembers session revision phase extra)).canonical.length ≤ maxPublication →
      (Survives sha256 (.obj (executionMembers session revision phase extra)) "environment-execution" .private ↔
        ∃ members, extra = some (.obj members)) := by
  have each (value : Json) (kind : String) (visibility : Visibility)
      (formed : value.normal = true) (fits : value.canonical.length ≤ maxPublication) :
      Survives sha256 value kind visibility ↔ Readable value :=
    ⟨readable_of_survives formed, survives_of_readable formed fits⟩
  refine ⟨each, fun session revision phase extra formed fits => ?_⟩
  rw [each _ _ _ formed fits, readable_execution]

def sampleSession : Session where
  lifecycleWallSeconds := .int 3
  record := .obj []
  effective := .obj []
  commands := .arr []
  cleanupVerified := true
  maximumCpuSeconds := .null
  effectiveCpuSeconds := .null
  maximumMemoryBytes := .null
  memoryOomEvents := .int 0
  containerState := .obj []

def sampleDigest : Digest := ⟨"0000000000000000000000000000000000000000000000000000000000000000", by decide +kernel⟩

/-- The execution record of a toolchain resolution. -/
def sampleValue : Json := .obj (executionMembers sampleSession "r1" "toolchain-resolution" none)

theorem survives_iff_sample : Survives (fun _ => sampleDigest) (.arr []) "sandbox-qualification" .private ↔
    Readable (.arr []) :=
  (survives_iff fun _ => sampleDigest).1 (.arr []) "sandbox-qualification" .private rfl (by decide)

theorem evidence_lost : ¬ Survives (fun _ => sampleDigest) sampleValue "environment-execution" .private ∧
    evidence (fun _ => sampleDigest) (fun _ _ _ => (.error () : Except Unit Unit)) sampleSession "r1"
      "toolchain-resolution" none = .error (.attribute "'NoneType' object has no attribute 'get'") := by
  have formed : sampleValue.normal = true := by decide +kernel
  have fits : sampleValue.canonical.length ≤ maxPublication := by decide +kernel
  have unreadable : ¬ Readable sampleValue := fun readable => by
    obtain ⟨members, impossible⟩ := readable_execution.mp readable
    cases impossible
  refine ⟨fun survives => unreadable (readable_of_survives formed survives), ?_⟩
  have loaded : (Json.loads sampleValue.canonical).bind members? =
      some (executionMembers sampleSession "r1" "toolchain-resolution" none) := by
    rw [Json.loads_canonical formed]
    rfl
  have saved : readSavedSource (executionMembers sampleSession "r1" "toolchain-resolution" none) =
      .error (.attribute "'NoneType' object has no attribute 'get'") := rfl
  change publish (fun _ => sampleDigest) (fun _ _ _ => .error ()) sampleValue "environment-execution" .private = _
  rw [publish, if_neg (Nat.not_lt.mpr fits)]
  simp only [create_unread loaded saved]
  rfl

end RuntimeEvidence

end FeatureRl
