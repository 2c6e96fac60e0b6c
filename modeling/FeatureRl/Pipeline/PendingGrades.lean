import FeatureRl.Artifacts.Blobs
import FeatureRl.Grading.Models
import FeatureRl.Registry.Models

/-!
Grades whose publication failed: how a grade job retains them in the artifact store, how recovery reads them
back, and what a retried publication returns.
-/

namespace FeatureRl

open Checked
open Artifacts (ArtifactStore Hashing)
open Fields (field)

namespace GradeJobs

/-! ### Receipts -/

def assertionFields : Fields Grading.AssertionResult :=
  (field "assertion_id" Codec.string |>.and <| field "requirement_ids" (Codec.tuple Codec.string) |>.and <|
    field "passed" Codec.boolean).view
    (fun item => (item.assertionId, item.requirementIds, item.passed))
    (fun (assertionId, requirementIds, passed) => some ⟨assertionId, requirementIds, passed⟩)
    (fun _ => rfl)

def assertionCodec : Codec Grading.AssertionResult := assertionFields.codec (by decide)

def caseStatusName : Grading.CaseStatus → String
  | .completed => "completed"
  | .protocolFailure => "protocol_failure"
  | .candidateFailure => "candidate_failure"
  | .notRun => "not_run"
  | .infrastructureFailure => "infrastructure_failure"

def caseStatusCodec : Codec Grading.CaseStatus :=
  enumeration [.completed, .protocolFailure, .candidateFailure, .notRun, .infrastructureFailure] caseStatusName
    fun value => by cases value <;> decide

theorem reference_null : ArtifactRef.codec.validate .null = none := rfl

theorem natural_null : Codec.natural.validate .null = none := rfl

def optionalRef : Codec (Option ArtifactRef) := ArtifactRef.codec.nullable reference_null

def caseFields : Fields Grading.CaseResult :=
  (field "case_id" Codec.string |>.and <| field "mandatory" Codec.boolean |>.and <|
    field "status" caseStatusCodec |>.and <| field "passed" (Codec.boolean.nullable rfl) |>.and <|
    field "assertions" (Codec.tuple assertionCodec) |>.and <| field "evidence" optionalRef |>.and <|
    field "reason" Codec.string).view
    (fun case => (case.caseId, case.mandatory, case.status, case.passed, case.assertions, case.evidence,
      case.reason))
    (fun (caseId, mandatory, status, passed, assertions, evidence, reason) =>
      some ⟨caseId, mandatory, status, passed, assertions, evidence, reason⟩)
    (fun _ => rfl)

def caseCodec : Codec Grading.CaseResult := caseFields.codec (by decide)

/-- A grade receipt with the revision and the time of its grader; it passed its checks. -/
structure StoredReceipt where
  grade : Grading.GradeReceipt
  implementationRevision : Revision
  recordedAt : Timestamp
  coherent : grade.coherent.toBool = true

def literal (text : String) : Codec {value : String // decide (value = text) = true} :=
  Codec.string.refine fun value => value = text

namespace StoredReceipt

def fields : Fields StoredReceipt :=
  (field "version" (literal "m4-grade-v1") |>.and <| field "task" ArtifactRef.codec |>.and <|
    field "submission" ArtifactRef.codec |>.and <| field "verifier" optionalRef |>.and <|
    field "case_seed" Codec.natural |>.and <| field "manifest" optionalRef |>.and <|
    field "source" optionalRef |>.and <| field "disposition" Disposition.codec |>.and <|
    field "reward" (Codec.natural.nullable natural_null) |>.and <| field "reason" Codec.string |>.and <|
    field "expected_case_ids" (Codec.tuple Codec.string) |>.and <| field "cases" (Codec.tuple caseCodec) |>.and <|
    field "build_evidence" optionalRef |>.and <| field "runtime_evidence" (Codec.tuple ArtifactRef.codec) |>.and <|
    field "cleanup_verified" Codec.boolean |>.and <| field "implementation_revision" Revision.codec |>.and <|
    field "recorded_at" Timestamp.codec).view
    (fun receipt => (⟨"m4-grade-v1", by decide⟩, receipt.grade.task, receipt.grade.submission,
      receipt.grade.verifier, receipt.grade.caseSeed, receipt.grade.manifest, receipt.grade.source,
      receipt.grade.disposition, receipt.grade.reward, receipt.grade.reason, receipt.grade.expectedCaseIds,
      receipt.grade.cases, receipt.grade.buildEvidence, receipt.grade.runtimeEvidence,
      receipt.grade.cleanupVerified, receipt.implementationRevision, receipt.recordedAt))
    (fun (_, task, submission, verifier, caseSeed, manifest, source, disposition, reward, reason, expectedCaseIds,
        cases, buildEvidence, runtimeEvidence, cleanupVerified, implementationRevision, recordedAt) =>
      let grade : Grading.GradeReceipt := ⟨task, submission, verifier, caseSeed, manifest, source, disposition,
        reward, reason, expectedCaseIds, cases, buildEvidence, runtimeEvidence, cleanupVerified⟩
      if coherent : grade.coherent.toBool = true then
        some ⟨grade, implementationRevision, recordedAt, coherent⟩
      else none)
    (fun receipt => by simp [receipt.coherent])

def codec : Codec StoredReceipt := fields.codec (by decide)

/-- The receipt with further runtime evidence. -/
def withEvidence (receipt : StoredReceipt) (refs : List ArtifactRef) : StoredReceipt where
  grade := { receipt.grade with runtimeEvidence := receipt.grade.runtimeEvidence ++ refs }
  implementationRevision := receipt.implementationRevision
  recordedAt := receipt.recordedAt
  coherent := receipt.coherent

theorem withEvidence_append (receipt : StoredReceipt) (one two : List ArtifactRef) :
    (receipt.withEvidence one).withEvidence two = receipt.withEvidence (one ++ two) := by
  simp [withEvidence]

theorem withEvidence_nil (receipt : StoredReceipt) : receipt.withEvidence [] = receipt := by
  simp [withEvidence]

end StoredReceipt

/-! ### Publications -/

/-- Runtime evidence that could not be stored. -/
structure EvidencePublicationFailed where
  payload : Bytes
  kind : Identifier
  visibility : Visibility

structure GradePublicationFailed where
  receipt : StoredReceipt
  costs : List CostRecord
  scope : EvidenceScope
  runtimePublications : List EvidencePublicationFailed

/-- Where a retained publication keeps its payload. -/
structure RuntimePublication where
  payload : ArtifactRef
  kind : Identifier
  visibility : Visibility

def RuntimePublication.fields : Fields RuntimePublication :=
  (field "payload" ArtifactRef.codec |>.and <| field "kind" Identifier.codec |>.and <|
    field "visibility" Visibility.codec).view
    (fun item => (item.payload, item.kind, item.visibility))
    (fun (payload, kind, visibility) => some ⟨payload, kind, visibility⟩)
    (fun _ => rfl)

structure PendingGrade where
  claim : Claim
  request : ArtifactRef
  receipt : StoredReceipt
  costs : List CostRecord
  scope : EvidenceScope
  runtimePublications : List RuntimePublication

def PendingGrade.fields : Fields PendingGrade :=
  (field "version" (literal "m6-pending-grade-v1") |>.and <| field "claim" Claim.codec |>.and <|
    field "request" ArtifactRef.codec |>.and <| field "receipt" StoredReceipt.codec |>.and <|
    field "costs" (Codec.tuple CostRecord.codec) |>.and <| field "scope" EvidenceScope.codec |>.and <|
    field "runtime_publications" (Codec.tuple (RuntimePublication.fields.codec (by decide)))).view
    (fun pending => (⟨"m6-pending-grade-v1", by decide⟩, pending.claim, pending.request, pending.receipt,
      pending.costs, pending.scope, pending.runtimePublications))
    (fun (_, claim, request, receipt, costs, scope, publications) =>
      some ⟨claim, request, receipt, costs, scope, publications⟩)
    (fun _ => rfl)

def PendingGrade.codec : Codec PendingGrade := PendingGrade.fields.codec (by decide)

/-! ### Retaining and reading -/

def maxDocument : Nat := 1024 * 1024

def maxRuntime : Nat := 32 * 1024 * 1024

def runtimeKind : Identifier := ⟨"m6-pending-runtime", by decide⟩

def pendingKind : Identifier := ⟨"m6-pending-grade", by decide⟩

def originalKind : Identifier := ⟨"m6-grade-original", by decide⟩

def frozenKind : Identifier := ⟨"m6-frozen-grade", by decide⟩

def receiptKind : Identifier := ⟨"m4-grade-receipt", by decide⟩

section

variable (hashing : Hashing)

def putRecord (store : ArtifactStore) (raw : Bytes) (kind : Identifier) :
    Except Artifacts.Failure (ArtifactStore × ArtifactRef) := do
  refuse (maxDocument < raw.length) (.rejected "Factory record exceeds consumer byte cap")
  store.putBytes hashing raw kind .private

def putPublications (store : ArtifactStore) : List EvidencePublicationFailed →
    Except Artifacts.Failure (ArtifactStore × List RuntimePublication)
  | [] => .ok (store, [])
  | item :: rest => do
      let (next, ref) ← store.putBytes hashing item.payload runtimeKind .private
      let (last, others) ← putPublications next rest
      .ok (last, ⟨ref, item.kind, item.visibility⟩ :: others)

/-- The writes of `retain_pending`. -/
def retainPending (store : ArtifactStore) (claim : Claim) (request : ArtifactRef)
    (pending : GradePublicationFailed) : Except Artifacts.Failure (ArtifactStore × ArtifactRef) := do
  let (next, publications) ← putPublications hashing store pending.runtimePublications
  putRecord hashing next (PendingGrade.codec.dump
    ⟨claim, request, pending.receipt, pending.costs, pending.scope, publications⟩) pendingKind

def readBytes (store : ArtifactStore) (ref : ArtifactRef) (cap : Nat) (kind : Identifier) :
    Except Artifacts.Failure Bytes := do
  refuse (ref.encoding ≠ .bytes ∨ ref.kind ≠ kind)
    (.rejected "unexpected byte artifact kind/encoding/visibility")
  ArtifactStore.byteObject ref
  let envelope ← store.get hashing (some (4 * ((cap + 2) / 3) + 4096)) ref
  ArtifactStore.decodeBytes cap envelope

def readPublications (store : ArtifactStore) : List RuntimePublication →
    Except Artifacts.Failure (List EvidencePublicationFailed)
  | [] => .ok []
  | item :: rest => do
      let payload ← readBytes hashing store item.payload maxRuntime runtimeKind
      let others ← readPublications store rest
      .ok (⟨payload, item.kind, item.visibility⟩ :: others)

/-- The publication that `recover_pending` reconstructs. -/
def recoverPending (store : ArtifactStore) (claim : Claim) (ref : ArtifactRef) :
    Except Artifacts.Failure (ArtifactRef × GradePublicationFailed) := do
  let raw ← readBytes hashing store ref maxDocument pendingKind
  let value ← require (PendingGrade.codec.validateJson raw) (.rejected "invalid retained M4 publication")
  refuse (value.claim ≠ claim) (.rejected "invalid retained M4 publication")
  let publications ← readPublications hashing store value.runtimePublications
  .ok (value.request, ⟨value.receipt, value.costs, value.scope, publications⟩)

end

variable {hashing : Hashing} {store next later : ArtifactStore}

theorem readBytes_put {data raw : Bytes} {kind : Identifier} {ref : ArtifactRef} {cap : Nat}
    (short : kind.val.length ≤ 1000) (written : store.putBytes hashing data kind .private = .ok (next, ref))
    (larger : next.Extends later) :
    readBytes hashing later ref cap kind = .ok raw ↔ raw = data ∧ data.length ≤ cap := by
  obtain ⟨untyped, stored⟩ := ArtifactStore.putBytes_eq_ok.mp written
  have wrote := ArtifactStore.put_wrote stored
  obtain rfl := wrote.refOf
  have present := larger.objects _ _ wrote.present
  have readable : Visibility.private ∈ Artifacts.access later.role := larger.role ▸ wrote.readable
  have fits : data.length ≤ cap →
      (ArtifactStore.opaqueBytes data kind .private).size ≤ 4 * ((cap + 2) / 3) + 4096 := by
    intro small
    have bytes : Encoding.name .bytes = "bytes" := rfl
    have hidden : Visibility.name .private = "private" := rfl
    have lengths : "bytes".length = 5 ∧ "private".length = 7 := by decide
    simp only [Artifacts.Envelope.size, Artifacts.Envelope.payloadLength, ArtifactStore.opaqueBytes,
      Artifacts.base64Length, bytes, hidden, lengths.1, lengths.2]
    omega
  simp only [readBytes, ArtifactStore.byteObject, ArtifactStore.decodeBytes, bind_eq_ok, refuse_eq_ok,
    ArtifactStore.get_eq_ok, Except.ok.injEq]
  constructor
  · rintro ⟨_, _, _, _, envelope, ⟨_, found, _, _⟩, _, small, same⟩
    obtain rfl := Option.some.inj (present.symm.trans found)
    exact ⟨same.symm, by simpa [ArtifactStore.opaqueBytes] using small⟩
  · rintro ⟨rfl, small⟩
    refine ⟨(), ?_, (), ⟨(), ?_, ?_⟩, _, ⟨readable, present, ?_, rfl⟩, (), ?_, rfl⟩
    · simp [Hashing.refOf, ArtifactStore.opaqueBytes]
    · simpa [Hashing.refOf, ArtifactStore.opaqueBytes] using untyped
    · simp [Hashing.refOf, ArtifactStore.opaqueBytes]
    · simpa using fits small
    · simpa [ArtifactStore.opaqueBytes] using small

/-- Every runtime publication is within the cap of its reader. -/
def Readable (pending : GradePublicationFailed) : Prop :=
  ∀ item ∈ pending.runtimePublications, item.payload.length ≤ maxRuntime

theorem putPublications_eq_ok {items : List EvidencePublicationFailed} {published : List RuntimePublication}
    (written : putPublications hashing store items = .ok (next, published)) :
    store.Extends next ∧ ∀ later, next.Extends later → ∀ result,
      readPublications hashing later published = .ok result ↔
        result = items ∧ ∀ item ∈ items, item.payload.length ≤ maxRuntime := by
  induction items generalizing store published with
  | nil =>
      obtain ⟨rfl, rfl⟩ := Prod.mk.inj (Except.ok.inj written)
      refine ⟨.refl _, fun later _ result => ?_⟩
      simp [readPublications, eq_comm]
  | cons item rest ih =>
      simp only [putPublications, bind_eq_ok] at written
      obtain ⟨⟨middle, ref⟩, first, ⟨last, others⟩, remaining, done⟩ := written
      obtain ⟨rfl, rfl⟩ := Prod.mk.inj (Except.ok.inj done)
      obtain ⟨grown, reads⟩ := ih remaining
      have wrote := ArtifactStore.put_wrote (ArtifactStore.putBytes_eq_ok.mp first).2
      refine ⟨wrote.larger.trans grown, fun later larger result => ?_⟩
      have payload : ∀ raw, readBytes hashing later ref maxRuntime runtimeKind = .ok raw ↔
          raw = item.payload ∧ item.payload.length ≤ maxRuntime :=
        fun _ => readBytes_put (by decide) first (grown.trans larger)
      simp only [readPublications, bind_eq_ok, payload, reads later larger, Except.ok.injEq,
        List.forall_mem_cons]
      constructor
      · rintro ⟨_, ⟨rfl, small⟩, _, ⟨rfl, smaller⟩, rfl⟩
        exact ⟨rfl, small, smaller⟩
      · rintro ⟨rfl, small, smaller⟩
        exact ⟨_, ⟨rfl, small⟩, _, ⟨rfl, smaller⟩, rfl⟩

/-- A retained publication is read back as it was exactly when its payloads fit their reader. -/
theorem recoverPending_iff {claim : Claim} {request ref : ArtifactRef} {pending : GradePublicationFailed}
    (retained : retainPending hashing store claim request pending = .ok (next, ref)) (larger : next.Extends later)
    (other : Claim) (result : ArtifactRef × GradePublicationFailed) :
    recoverPending hashing later other ref = .ok result ↔
      other = claim ∧ result = (request, pending) ∧ Readable pending := by
  simp only [retainPending, putRecord, bind_eq_ok, refuse_eq_ok, not_lt] at retained
  obtain ⟨⟨middle, publications⟩, published, _, bounded, written⟩ := retained
  obtain ⟨_, reads⟩ := putPublications_eq_ok published
  have wrote := ArtifactStore.put_wrote (ArtifactStore.putBytes_eq_ok.mp written).2
  have document : ∀ raw, readBytes hashing later ref maxDocument pendingKind = .ok raw ↔ _ :=
    fun _ => readBytes_put (by decide) written larger
  simp only [recoverPending, bind_eq_ok, document, require_eq_ok, refuse_eq_ok, not_not]
  constructor
  · rintro ⟨_, ⟨rfl, _⟩, value, decoded, _, own, others, read, done⟩
    rw [Codec.validateJson_dump] at decoded
    obtain rfl := Option.some.inj decoded
    obtain ⟨rfl, small⟩ := (reads later (wrote.larger.trans larger) others).mp read
    exact ⟨own.symm, (Except.ok.inj done).symm, small⟩
  · rintro ⟨rfl, rfl, small⟩
    exact ⟨_, ⟨rfl, bounded⟩, _, Codec.validateJson_dump _ _, (), rfl, _,
      (reads later (wrote.larger.trans larger) _).mpr ⟨rfl, small⟩, rfl⟩

/-! ### Results -/

section

variable (hashing : Hashing)

/-- The result of a published grade. -/
def resultOf (revision : Revision) (receipt : StoredReceipt) (costs : List CostRecord) (scope : EvidenceScope) :
    Option OperationResult := do
  let ref := hashing.refOf (ArtifactStore.opaqueBytes (StoredReceipt.codec.dump receipt) receiptKind .private)
  let reason ← Codec.check isText receipt.grade.reason
  let task ← Codec.check isText receipt.grade.task.sha256.val
  let submission ← Codec.check isText receipt.grade.submission.sha256.val
  let caseSeed ← Codec.check isText (toString receipt.grade.caseSeed)
  let evidence : EvidenceRecord :=
    ⟨⟨"feature_rl.grading", by decide +kernel⟩,
      [⟨"GradingService.grade", by decide +kernel⟩, task, submission, caseSeed], receipt.recordedAt, 0,
      ref :: receipt.grade.runtimeEvidence, revision, scope, by simp⟩
  if valid : costs ≠ [] ∧ successfulEvidence receipt.grade.disposition [ref] [evidence] = true then
    some ⟨.grade, receipt.grade.disposition, [ref], [evidence], costs, reason, valid⟩
  else none

def publicationRef (item : EvidencePublicationFailed) : ArtifactRef :=
  hashing.refOf (ArtifactStore.opaqueBytes item.payload item.kind item.visibility)

/-- What is left of a publication after some of its payloads were stored. -/
def newer (pending : GradePublicationFailed) (stored : Nat) : GradePublicationFailed where
  receipt := pending.receipt.withEvidence ((pending.runtimePublications.take stored).map (publicationRef hashing))
  costs := pending.costs
  scope := pending.scope
  runtimePublications := pending.runtimePublications.drop stored

/-- The result once everything is published. -/
def finalResult (revision : Revision) (pending : GradePublicationFailed) : Option OperationResult :=
  resultOf hashing revision
    (pending.receipt.withEvidence (pending.runtimePublications.map (publicationRef hashing))) pending.costs
    pending.scope

/-- Retry a publication: the number of payloads that are stored, and whether the receipt then is. -/
def retryPublication (revision : Revision) (pending : GradePublicationFailed) (stored : Nat) (receipt : Bool) :
    Except GradePublicationFailed (Option OperationResult) :=
  if pending.runtimePublications.length ≤ stored ∧ receipt = true then .ok (finalResult hashing revision pending)
  else .error (newer hashing pending stored)

end

theorem finalResult_newer (revision : Revision) (pending : GradePublicationFailed) (stored : Nat) :
    finalResult hashing revision (newer hashing pending stored) = finalResult hashing revision pending := by
  simp only [finalResult, newer, StoredReceipt.withEvidence_append, ← List.map_append, List.take_append_drop]

theorem resultOf_eq_some {revision : Revision} {receipt : StoredReceipt} {costs : List CostRecord}
    {scope : EvidenceScope} {result : OperationResult}
    (found : resultOf hashing revision receipt costs scope = some result) :
    result.costs = costs ∧ result.disposition = receipt.grade.disposition ∧ result.artifacts =
      [hashing.refOf (ArtifactStore.opaqueBytes (StoredReceipt.codec.dump receipt) receiptKind .private)] := by
  simp only [resultOf, Option.bind_eq_bind, Option.bind_eq_some_iff] at found
  obtain ⟨reason, _, task, _, submission, _, caseSeed, _, found⟩ := found
  split at found
  next =>
    obtain rfl := Option.some.inj found
    exact ⟨rfl, rfl, rfl⟩
  next => cases found

theorem costs_of_finalResult {revision : Revision} {pending : GradePublicationFailed} {result : OperationResult}
    (found : finalResult hashing revision pending = some result) : result.costs = pending.costs :=
  (resultOf_eq_some found).1

end GradeJobs

end FeatureRl
