import FeatureRl.Contracts.Samples
import FeatureRl.Lib.JsonSize
import FeatureRl.Submission.Deltas

/-!
The submission service: a submission is published as a delta and its manifest, and resolved against
the baseline that it names.
-/

namespace FeatureRl

namespace Submission

open Archives Checked

open Fields (field)

/-! ### The manifest -/

structure Manifest where
  baseline : ArtifactRef
  changes : ArtifactRef
  deletions : List String
  bounded : deletions.length ≤ 2000
deriving DecidableEq

namespace Manifest

def fields : Fields Manifest :=
  (field "version" (Codec.string.refine (· = "m4-submission-v1")) |>.and <|
    field "baseline" ArtifactRef.codec |>.and <| field "changes" ArtifactRef.codec |>.and <|
    field "deletions" (Codec.tuple Codec.string)).view
    (fun manifest => (⟨"m4-submission-v1", by decide⟩, manifest.baseline, manifest.changes, manifest.deletions))
    (fun (_, baseline, changes, deletions) =>
      if bounded : deletions.length ≤ 2000 then some ⟨baseline, changes, deletions, bounded⟩ else none)
    (fun manifest => by simp [manifest.bounded])

def codec : Codec Manifest := fields.codec (by decide)

end Manifest

/-! ### The length of a manifest -/

def deltaKind : Identifier := ⟨"m4-source-delta", by decide⟩

theorem isLowerHex_plain {char : Char} (hex : isLowerHex char = true) :
    Json.escapeChar char = [char] ∧ char.toNat < 128 := by
  have below : char.toNat < 128 := by
    simp only [isLowerHex, Bool.or_eq_true, Bool.and_eq_true, decide_eq_true_eq, Char.le_def,
      UInt32.le_iff_toNat_le] at hex
    have upper : 'f'.val.toNat = 102 := rfl
    have digit : '9'.val.toNat = 57 := rfl
    change char.val.toNat < 128
    omega
  have table : ∀ code < 128, isLowerHex (Char.ofNat code) = true →
      Json.escapeChar (Char.ofNat code) = [Char.ofNat code] := by decide +kernel
  have same : Char.ofNat char.toNat = char := Char.ofNat_toNat char
  refine ⟨?_, below⟩
  rw [← same] at hex ⊢
  exact table _ below hex

theorem length_digest (digest : Digest) : (Json.str digest.val).canonical.length = 66 := by
  have parts := digest.property
  simp only [isDigest, Bool.and_eq_true, beq_iff_eq, List.all_eq_true] at parts
  obtain ⟨count, hex⟩ := parts
  have plain : digest.val.toList.flatMap Json.escapeChar = digest.val.toList := by
    have single : digest.val.toList.flatMap Json.escapeChar = digest.val.toList.flatMap fun char => [char] :=
      List.flatMap_congr fun char member => (isLowerHex_plain (hex char member)).1
    rw [single]
    exact List.flatMap_singleton' _
  have quote : '"'.utf8Size = 1 := rfl
  rw [Json.canonical, Json.render, Json.renderString, plain, Utf8.length_encode_cons, Utf8.length_encode_append,
    Utf8.length_encode_cons, Utf8.encode_nil, List.length_nil,
    Utf8.length_encode_ascii fun char member => (isLowerHex_plain (hex char member)).2, count, quote]

theorem length_ref {one two : ArtifactRef} (kind : one.kind = two.kind) (version : one.schemaVersion = two.schemaVersion)
    (visibility : one.visibility = two.visibility) (encoding : one.encoding = two.encoding) :
    (ArtifactRef.codec.document one).canonical.length = (ArtifactRef.codec.document two).canonical.length := by
  have document : ∀ ref : ArtifactRef, ArtifactRef.codec.document ref = Json.dict [("sha256", .str ref.sha256.val),
      ("kind", Identifier.codec.document ref.kind), ("schema_version", Codec.natural.document ref.schemaVersion),
      ("visibility", Visibility.codec.document ref.visibility),
      ("encoding", Encoding.codec.document ref.encoding)] := fun _ => rfl
  rw [document, document, Json.length_canonical_dict (List.cons_ne_nil _ _),
    Json.length_canonical_dict (List.cons_ne_nil _ _), kind, version, visibility, encoding]
  simp only [List.map_cons, List.sum_cons, Json.memberSize, length_digest]

/-- A reference to a delta; all of them have one length. -/
def template : ArtifactRef :=
  ⟨⟨"0000000000000000000000000000000000000000000000000000000000000000", isDigest_zeros⟩, deltaKind, 1, .private, .bytes,
    firstSchema⟩

def manifestDocument (baseline changes : ArtifactRef) (deletions : List String) : Json :=
  Json.dict [("version", .str "m4-submission-v1"), ("baseline", ArtifactRef.codec.document baseline),
    ("changes", ArtifactRef.codec.document changes), ("deletions", .arr (deletions.map .str))]

/-- The bytes of the manifest for a baseline and deletions. -/
def manifestLength (baseline : ArtifactRef) (deletions : List String) : Nat :=
  (manifestDocument baseline template deletions).canonical.length

theorem length_dump (manifest : Manifest) (kind : manifest.changes.kind = deltaKind)
    (version : manifest.changes.schemaVersion = 1) (visibility : manifest.changes.visibility = .private)
    (encoding : manifest.changes.encoding = .bytes) :
    (Manifest.codec.dump manifest).length = manifestLength manifest.baseline manifest.deletions := by
  have document : Manifest.codec.document manifest =
      manifestDocument manifest.baseline manifest.changes manifest.deletions := rfl
  have same := @length_ref manifest.changes template kind version visibility encoding
  rw [Codec.dump, document, manifestLength, manifestDocument, manifestDocument,
    Json.length_canonical_dict (List.cons_ne_nil _ _), Json.length_canonical_dict (List.cons_ne_nil _ _)]
  simp only [List.map_cons, List.sum_cons, Json.memberSize, same]

/-! ### The store -/

/-- The bytes of an object. A tar is kept as what the tar library reads. -/
inductive Payload (Tar : Type) where
  | tar (data : Tar)
  | text (data : Bytes)
deriving DecidableEq

structure Object (Tar : Type) where
  kind : Identifier
  visibility : Visibility
  payload : Payload Tar
deriving DecidableEq

abbrev Store (Tar : Type) := Dict Digest (Object Tar)

structure SubmissionService (Tar : Type) where
  library : TarLibrary Tar
  digest : Object Tar → Digest
  policy : SandboxPolicy

namespace SubmissionService

variable {Tar : Type} [DecidableEq Tar] (service : SubmissionService Tar)

def refOf (object : Object Tar) : ArtifactRef :=
  ⟨service.digest object, object.kind, 1, object.visibility, .bytes, firstSchema⟩

def putBytes (store : Store Tar) (object : Object Tar) : Except Failure (Store Tar × ArtifactRef) :=
  match store.get? (service.digest object) with
  | none => .ok (store.set (service.digest object) object, service.refOf object)
  | some existing =>
      if existing = object then .ok (store, service.refOf object)
      else .error (.integrity "existing object differs: corruption or collision")

def payloadLength (payload : Payload Tar) : Nat :=
  match payload with
  | .tar data => service.library.length data
  | .text data => data.length

/-- The payload under a cap; the caps on its envelope leave room for every such payload. -/
def getBytes (store : Store Tar) (ref : ArtifactRef) (cap : Nat) : Except Failure (Payload Tar) := do
  let object ← require (store.get? ref.sha256) .notFound
  refuse (service.refOf object ≠ ref) (.integrity "reference metadata mismatch")
  refuse (cap < service.payloadLength object.payload) .sizeLimit
  .ok object.payload

def archiveBytes (payload : Payload Tar) : Except Failure Tar :=
  match payload with
  | .tar data => .ok data
  | .text _ => .error (.rejected "malformed source tar")

def source (store : Store Tar) (ref : ArtifactRef) : Except Failure SourceArchive := do
  refuse (ref.kind.val ≠ "source-archive") (.rejected "source archive required")
  let payload ← service.getBytes store ref service.policy.limits.maxArchiveBytes
  let data ← archiveBytes payload
  require (read service.library data service.policy.limits) (.rejected "source archive")

/-! ### Publishing -/

def create (store : Store Tar) (baseline : ArtifactRef) (archive : Tar) (deletions : List String)
    (rules : AllowedChanges) : Except Failure (Store Tar × ArtifactRef) := do
  let old ← service.source store baseline
  let _ ← applyDelta service.library service.policy old archive deletions rules
  let (store, changes) ← service.putBytes store ⟨deltaKind, .private, .tar archive⟩
  if bounded : deletions.length ≤ 2000 then
    service.putBytes store
      ⟨⟨"m4-submission", isIdentifier_submission⟩, .private, .text (Manifest.codec.dump ⟨baseline, changes, deletions, bounded⟩)⟩
  else .error .validation

def fromSaved (store : Store Tar) (baseline saved : ArtifactRef) (rules : AllowedChanges) :
    Except Failure (Store Tar × ArtifactRef) := do
  let old ← service.source store baseline
  let whole ← service.source store saved
  let new := withoutPytestCache whole old
  let archive ← require (toTar service.library (changesOf old new)) (.rejected "invalid in-memory source entry")
  service.create store baseline archive (deletionsOf old new) rules

/-! ### Resolving -/

/-- Failures of the trusted baseline are not failures of the submission. -/
def trusted (store : Store Tar) (baseline : ArtifactRef) : Except Failure SourceArchive :=
  match service.source store baseline with
  | .error (.rejected message) => .error (.integrity ("invalid trusted baseline: " ++ message))
  | .error .sizeLimit => .error (.integrity "invalid trusted baseline: size limit")
  | outcome => outcome

def manifestBytes (payload : Payload Tar) : Except Failure Bytes :=
  match payload with
  | .text data => .ok data
  | .tar _ => .error (.rejected "invalid source submission manifest")

def resolve (store : Store Tar) (submission baseline : ArtifactRef) (rules : AllowedChanges) :
    Except Failure SourceArchive := do
  let old ← service.trusted store baseline
  refuse (submission.kind.val ≠ "m4-submission" ∨ submission.encoding ≠ .bytes)
    (.rejected "M4 submission bytes required")
  let payload ← service.getBytes store submission 65536
  let data ← manifestBytes payload
  let value ← require (Manifest.codec.validateJson data) (.rejected "invalid source submission manifest")
  refuse (value.baseline ≠ baseline) (.rejected "submission baseline mismatch")
  refuse (value.changes.kind.val ≠ "m4-source-delta" ∨ value.changes.encoding ≠ .bytes)
    (.rejected "source delta bytes required")
  let payload ← service.getBytes store value.changes service.policy.limits.maxArchiveBytes
  let archive ← archiveBytes payload
  applyDelta service.library service.policy old archive value.deletions rules

/-! ### What a store keeps -/

/-- No other object has the digest of this one. -/
def Free (store : Store Tar) (object : Object Tar) : Prop :=
  ∀ other, store.get? (service.digest object) = some other → other = object

variable {service}

/-- A write keeps every object, adds its own, and only fails where another object has its digest. -/
theorem putBytes_spec {store : Store Tar} {object : Object Tar} (free : service.Free store object) :
    ∃ later, service.putBytes store object = .ok (later, service.refOf object) ∧
      later.get? (service.digest object) = some object ∧
      (∀ digest other, store.get? digest = some other → later.get? digest = some other) ∧
      ∀ digest other, later.get? digest = some other →
        store.get? digest = some other ∨ (digest = service.digest object ∧ other = object) := by
  rw [putBytes]
  cases found : store.get? (service.digest object) with
  | none =>
      refine ⟨_, rfl, Dict.get?_set_self _ _ _, ?_, ?_⟩
      · intro digest other present
        rw [Dict.get?_set_ne]
        · exact present
        · intro same
          rw [same, found] at present
          cases present
      · intro digest other present
        rw [Dict.get?_set] at present
        split at present
        next same => exact Or.inr ⟨same, (Option.some.inj present).symm⟩
        next => exact Or.inl present
  | some existing =>
      have same : existing = object := free existing found
      exact ⟨store, by simp [same], by rw [found, same], fun _ _ present => present, fun _ _ present => Or.inl present⟩

omit [DecidableEq Tar] in
theorem getBytes_eq_ok {store : Store Tar} {ref : ArtifactRef} {cap : Nat} {payload : Payload Tar} :
    service.getBytes store ref cap = .ok payload ↔
      ∃ object, store.get? ref.sha256 = some object ∧ service.refOf object = ref ∧
        service.payloadLength object.payload ≤ cap ∧ object.payload = payload := by
  simp only [getBytes, bind_eq_ok, require_eq_ok, refuse_eq_ok, Except.ok.injEq]
  constructor
  · rintro ⟨object, found, _, same, _, small, rfl⟩
    exact ⟨object, found, Decidable.not_not.mp same, Nat.not_lt.mp small, rfl⟩
  · rintro ⟨object, found, same, small, rfl⟩
    exact ⟨object, found, (), Decidable.not_not.mpr same, (), Nat.not_lt.mpr small, rfl⟩

omit [DecidableEq Tar] in
theorem getBytes_mono {store later : Store Tar}
    (larger : ∀ digest object, store.get? digest = some object → later.get? digest = some object)
    {ref : ArtifactRef} {cap : Nat} {payload : Payload Tar} (found : service.getBytes store ref cap = .ok payload) :
    service.getBytes later ref cap = .ok payload := by
  obtain ⟨object, present, rest⟩ := getBytes_eq_ok.mp found
  exact getBytes_eq_ok.mpr ⟨object, larger _ _ present, rest⟩

omit [DecidableEq Tar] in
theorem source_eq_ok {store : Store Tar} {ref : ArtifactRef} {archive : SourceArchive} :
    service.source store ref = .ok archive ↔ ref.kind.val = "source-archive" ∧
      ∃ data, service.getBytes store ref service.policy.limits.maxArchiveBytes = .ok (.tar data) ∧
        read service.library data service.policy.limits = some archive := by
  simp only [source, bind_eq_ok, require_eq_ok, refuse_eq_ok]
  constructor
  · rintro ⟨_, kind, payload, found, data, tar, accepted⟩
    cases payload with
    | text text => cases tar
    | tar other =>
        obtain rfl := Except.ok.inj tar
        exact ⟨Decidable.not_not.mp kind, other, found, accepted⟩
  · rintro ⟨kind, data, found, accepted⟩
    exact ⟨(), Decidable.not_not.mpr kind, _, found, data, rfl, accepted⟩

omit [DecidableEq Tar] in
theorem trusted_eq_ok {store : Store Tar} {baseline : ArtifactRef} {archive : SourceArchive} :
    service.trusted store baseline = .ok archive ↔ service.source store baseline = .ok archive := by
  rw [trusted]
  cases service.source store baseline with
  | ok other => exact Iff.rfl
  | error failure =>
      cases failure with
      | rejected _ =>
          constructor
          · intro impossible
            cases impossible
          · intro impossible
            cases impossible
      | sizeLimit =>
          constructor
          · intro impossible
            cases impossible
          · intro impossible
            cases impossible
      | integrity _ => exact Iff.rfl
      | validation => exact Iff.rfl
      | notFound => exact Iff.rfl

/-! ### Round trip and frame -/

def manifestObject (baseline changes : ArtifactRef) (deletions : List String) (bounded : deletions.length ≤ 2000) :
    Object Tar :=
  ⟨⟨"m4-submission", isIdentifier_submission⟩, .private, .text (Manifest.codec.dump ⟨baseline, changes, deletions, bounded⟩)⟩

/-- The digests of the delta and of the manifest are not those of other objects. -/
structure Collisionless (service : SubmissionService Tar) (store : Store Tar) (baseline : ArtifactRef)
    (old new : SourceArchive) : Prop where
  delta : ∀ data, toTar service.library (changesOf old new) = some data →
    service.Free store ⟨deltaKind, .private, .tar data⟩
  manifest : ∀ data bounded, toTar service.library (changesOf old new) = some data →
    service.Free store (manifestObject baseline (service.refOf ⟨deltaKind, .private, .tar data⟩)
      (deletionsOf old new) bounded)
  distinct : ∀ data bounded, toTar service.library (changesOf old new) = some data →
    service.digest (manifestObject baseline (service.refOf ⟨deltaKind, .private, .tar data⟩)
      (deletionsOf old new) bounded) ≠ service.digest ⟨deltaKind, .private, .tar data⟩

/-- What publishing a workspace and resolving it again asks for. -/
structure Publishable (service : SubmissionService Tar) (baseline : ArtifactRef) (old new : SourceArchive) : Prop where
  writable : Writable service.policy.limits old new
  deletions : (deletionsOf old new).length ≤ 2000
  manifest : manifestLength baseline (deletionsOf old new) ≤ 65536

section

variable {store later : Store Tar} {baseline saved ref : ArtifactRef} {rules : AllowedChanges}
  {old whole archive : SourceArchive}

theorem fromSaved_eq_ok (oldRead : service.source store baseline = .ok old)
    (wholeRead : service.source store saved = .ok whole) {result : Store Tar × ArtifactRef} :
    service.fromSaved store baseline saved rules = .ok result ↔
      ∃ data merged, toTar service.library (changesOf old (withoutPytestCache whole old)) = some data ∧
        Applied service.library service.policy old data (deletionsOf old (withoutPytestCache whole old)) rules merged ∧
        ∃ middle changes, service.putBytes store ⟨deltaKind, .private, .tar data⟩ = .ok (middle, changes) ∧
          ∃ bounded : (deletionsOf old (withoutPytestCache whole old)).length ≤ 2000,
            service.putBytes middle ⟨⟨"m4-submission", isIdentifier_submission⟩, .private, .text (Manifest.codec.dump
              ⟨baseline, changes, deletionsOf old (withoutPytestCache whole old), bounded⟩)⟩ = .ok result := by
  simp only [fromSaved, create, bind_eq_ok, oldRead, wholeRead, require_eq_ok, applyDelta_eq_ok, Except.ok.injEq]
  constructor
  · rintro ⟨_, rfl, _, rfl, data, written, _, rfl, merged, applied, ⟨middle, changes⟩, put, publish⟩
    refine ⟨data, merged, written, applied, middle, changes, put, ?_⟩
    dsimp only at publish
    split at publish
    next bounded => exact ⟨bounded, publish⟩
    next => cases publish
  · rintro ⟨data, merged, written, applied, middle, changes, put, bounded, publish⟩
    refine ⟨_, rfl, _, rfl, data, written, _, rfl, merged, applied, (middle, changes), put, ?_⟩
    rw [dif_pos bounded]
    exact publish

omit [DecidableEq Tar] in
theorem resolve_eq_ok (oldRead : service.source store baseline = .ok old) :
    service.resolve store ref baseline rules = .ok archive ↔
      ref.kind.val = "m4-submission" ∧ ref.encoding = .bytes ∧
        ∃ text, service.getBytes store ref 65536 = .ok (.text text) ∧
          ∃ value, Manifest.codec.validateJson text = some value ∧ value.baseline = baseline ∧
            value.changes.kind.val = "m4-source-delta" ∧ value.changes.encoding = .bytes ∧
            ∃ data, service.getBytes store value.changes service.policy.limits.maxArchiveBytes = .ok (.tar data) ∧
              Applied service.library service.policy old data value.deletions rules archive := by
  simp only [resolve, bind_eq_ok, refuse_eq_ok, require_eq_ok, applyDelta_eq_ok, not_or, Decidable.not_not,
    trusted_eq_ok, oldRead, Except.ok.injEq]
  constructor
  · rintro ⟨_, rfl, _, ⟨kind, encoding⟩, payload, found, text, bytes, value, decoded, _, same, _, ⟨deltaKind, plain⟩,
      delta, read, data, tar, applied⟩
    cases payload with
    | tar other => cases bytes
    | text published =>
        obtain rfl := Except.ok.inj bytes
        cases delta with
        | text other => cases tar
        | tar other =>
            obtain rfl := Except.ok.inj tar
            exact ⟨kind, encoding, published, found, value, decoded, same, deltaKind, plain, _, read, applied⟩
  · rintro ⟨kind, encoding, text, found, value, decoded, same, deltaKind, plain, data, read, applied⟩
    exact ⟨_, rfl, (), ⟨kind, encoding⟩, _, found, text, rfl, value, decoded, (), same, (), ⟨deltaKind, plain⟩, _,
      read, data, rfl, applied⟩

omit [DecidableEq Tar] in
theorem source_mono (larger : ∀ digest object, store.get? digest = some object → later.get? digest = some object)
    (oldRead : service.source store baseline = .ok old) : service.source later baseline = .ok old := by
  obtain ⟨kind, data, found, accepted⟩ := source_eq_ok.mp oldRead
  exact source_eq_ok.mpr ⟨kind, data, getBytes_mono larger found, accepted⟩

omit [DecidableEq Tar] in
/-- The store after the delta is free for the manifest. -/
theorem Collisionless.after {new : SourceArchive} {data : Tar} (free : service.Collisionless store baseline old new)
    (written : toTar service.library (changesOf old new) = some data)
    (only : ∀ digest other, later.get? digest = some other → store.get? digest = some other ∨
      (digest = service.digest ⟨deltaKind, .private, .tar data⟩ ∧ other = ⟨deltaKind, .private, .tar data⟩))
    (bounded : (deletionsOf old new).length ≤ 2000) :
    service.Free later (manifestObject baseline (service.refOf ⟨deltaKind, .private, .tar data⟩)
      (deletionsOf old new) bounded) := by
  intro other present
  rcases only _ other present with before | ⟨same, _⟩
  · exact free.manifest data bounded written other before
  · exact absurd same (free.distinct data bounded written)

theorem saved_round_trip (library : service.library.Sound) (oldRead : service.source store baseline = .ok old)
    (wholeRead : service.source store saved = .ok whole)
    (free : service.Collisionless store baseline old (withoutPytestCache whole old))
    (valid : validateRules rules = .ok ()) (profile : validateAllowedChanges service.policy.profile rules = .ok ())
    (permitted : ChangesPermitted (withoutPytestCache whole old) old rules) :
    (∃ later ref archive, service.fromSaved store baseline saved rules = .ok (later, ref) ∧
        service.resolve later ref baseline rules = .ok archive ∧ archive.Same (withoutPytestCache whole old)) ↔
      service.Publishable baseline old (withoutPytestCache whole old) := by
  obtain ⟨_, _, _, oldAccepted⟩ := source_eq_ok.mp oldRead
  obtain ⟨_, _, _, wholeAccepted⟩ := source_eq_ok.mp wholeRead
  have newReadable : Readable service.policy.limits (withoutPytestCache whole old) :=
    (read_readable wholeAccepted).filter _
  have applicable := applied_saved_iff library (read_readable oldAccepted) newReadable valid profile permitted
  constructor
  · rintro ⟨later, ref, archive, published, resolved, _⟩
    obtain ⟨data, merged, written, applied, middle, changes, put, bounded, publish⟩ :=
      (fromSaved_eq_ok oldRead wholeRead).mp published
    obtain ⟨middle', put', present, larger, only⟩ := putBytes_spec (free.delta data written)
    rw [put] at put'
    obtain ⟨rfl, rfl⟩ := Prod.mk.inj (Except.ok.inj put')
    obtain ⟨later', publish', found, more, _⟩ := putBytes_spec (free.after written only bounded)
    rw [manifestObject] at publish' found
    rw [publish] at publish'
    obtain ⟨rfl, rfl⟩ := Prod.mk.inj (Except.ok.inj publish')
    constructor
    · exact applicable.mp ⟨data, merged, written, applied⟩
    · exact bounded
    · obtain ⟨_, _, text, read, _⟩ :=
        (resolve_eq_ok (source_mono (fun _ _ first => more _ _ (larger _ _ first)) oldRead)).mp resolved
      obtain ⟨object, there, _, small, _⟩ := getBytes_eq_ok.mp read
      obtain rfl := Option.some.inj (found.symm.trans there)
      have length := length_dump ⟨baseline, service.refOf ⟨deltaKind, .private, .tar data⟩,
        deletionsOf old (withoutPytestCache whole old), bounded⟩ rfl rfl rfl rfl
      exact length ▸ small
  · intro publishable
    obtain ⟨data, merged, written, applied⟩ := applicable.mpr publishable.writable
    obtain ⟨middle, put, present, larger, only⟩ := putBytes_spec (free.delta data written)
    obtain ⟨later, publish, found, more, _⟩ := putBytes_spec (free.after written only publishable.deletions)
    refine ⟨later, _, merged, (fromSaved_eq_ok oldRead wholeRead).mpr ⟨data, merged, written, applied, middle, _, put,
      publishable.deletions, publish⟩, ?_, applied_saved library written applied⟩
    apply (resolve_eq_ok (source_mono (fun _ _ first => more _ _ (larger _ _ first)) oldRead)).mpr
    refine ⟨rfl, rfl, _, getBytes_eq_ok.mpr ⟨_, found, rfl, ?_, rfl⟩, _, Codec.validateJson_dump _ _, rfl, rfl, rfl,
      data, getBytes_eq_ok.mpr ⟨_, more _ _ present, rfl, ?_, rfl⟩, applied⟩
    · have length := length_dump ⟨baseline, service.refOf ⟨deltaKind, .private, .tar data⟩,
        deletionsOf old (withoutPytestCache whole old), publishable.deletions⟩ rfl rfl rfl rfl
      exact le_of_eq_of_le length publishable.manifest
    · obtain ⟨safe, rfl⟩ := toTar_eq_some.mp written
      change service.library.length _ ≤ _
      rw [library.length _ safe, tarLength_perm (items_perm _)]
      exact publishable.writable.delta

omit [DecidableEq Tar] in
theorem resolved_frame (oldRead : service.source store baseline = .ok old)
    (resolved : service.resolve store ref baseline rules = .ok archive) {path : String}
    (outside : rules.sourceRoots.any (under path) = false ∨ rules.forbiddenPaths.any (under path) = true ∨
      cached path = true) : archive.files.get? path = old.files.get? path := by
  obtain ⟨_, _, _, _, value, _, _, _, _, data, _, applied⟩ := (resolve_eq_ok oldRead).mp resolved
  by_contra different
  have permitted := applied.permitted path different
  rcases outside with unrooted | forbidden | metadata
  · rw [permitted.rooted] at unrooted
    cases unrooted
  · rw [permitted.free] at forbidden
    cases forbidden
  · rw [permitted.uncached] at metadata
    cases metadata

/-- A permitted workspace comes back from its submission exactly where it is publishable, and what a
submission resolves to differs from the baseline in permitted files only. -/
theorem submission_round_trip (library : service.library.Sound) :
    (∀ store baseline saved rules old whole, service.source store baseline = .ok old →
      service.source store saved = .ok whole →
      service.Collisionless store baseline old (withoutPytestCache whole old) →
      validateRules rules = .ok () → validateAllowedChanges service.policy.profile rules = .ok () →
      ChangesPermitted (withoutPytestCache whole old) old rules →
      ((∃ later ref archive, service.fromSaved store baseline saved rules = .ok (later, ref) ∧
          service.resolve later ref baseline rules = .ok archive ∧ archive.Same (withoutPytestCache whole old)) ↔
        service.Publishable baseline old (withoutPytestCache whole old))) ∧
    ∀ store ref baseline rules old archive, service.source store baseline = .ok old →
      service.resolve store ref baseline rules = .ok archive → ∀ path,
        rules.sourceRoots.any (under path) = false ∨ rules.forbiddenPaths.any (under path) = true ∨
          cached path = true → archive.files.get? path = old.files.get? path := by
  constructor
  · intro store baseline saved rules old whole oldRead wholeRead free valid profile permitted
    exact saved_round_trip library oldRead wholeRead free valid profile permitted
  · intro store ref baseline rules old archive oldRead resolved path outside
    exact resolved_frame oldRead resolved outside

end

/-! ### Samples -/

section Sample

def digits (digit : Char) (hex : isLowerHex digit = true) : Digest :=
  ⟨String.ofList (List.replicate 64 digit), isDigest_replicate hex⟩

/-- Digests by kind; a workspace has its own. -/
def digestOf (object : Object (List Member)) : Digest :=
  if object.kind = deltaKind then digits '2' isLowerHex_2
  else if object.kind.val = "m4-submission" then digits '3' isLowerHex_3
  else if object.visibility = .private then digits '1' isLowerHex_1
  else digits '0' isLowerHex_0

def sampleService : SubmissionService (List Member) :=
  ⟨memberList, digestOf, ⟨modest, ⟨false, ["src"]⟩⟩⟩

def sourceObject (visibility : Visibility) (members : List Member) : Object (List Member) :=
  ⟨⟨"source-archive", isIdentifier_sourceArchive⟩, visibility, .tar members⟩

/-- A store with a public baseline and a private workspace. -/
def sampleStore (baseline workspace : List Member) : Store (List Member) :=
  ⟨[(digits '0' isLowerHex_0, sourceObject .public baseline), (digits '1' isLowerHex_1, sourceObject .private workspace)], by
    change [digits '0' isLowerHex_0, digits '1' isLowerHex_1].Nodup
    decide +kernel⟩

def baselineRef : ArtifactRef := sampleService.refOf (sourceObject .public [])

def workspaceRef : ArtifactRef := sampleService.refOf (sourceObject .private [])

def rules : AllowedChanges := ⟨["src"], ["src/tests"], .forbidden, [], [], by decide⟩

theorem sample_collisionless (baseline workspace : List Member) (old new : SourceArchive) :
    sampleService.Collisionless (sampleStore baseline workspace) baselineRef old new := by
  constructor
  · intro data _ other present
    cases present
  · intro data _ _ other present
    cases present
  · intro data _ _
    change digits '3' isLowerHex_3 ≠ digits '2' isLowerHex_2
    decide +kernel

def edited : List Member :=
  [⟨"src/x.py", .file, false, 1, [121], false⟩, ⟨"src/.pytest_cache/README.md", .file, false, 0, [], false⟩]

def editedArchive : SourceArchive :=
  ⟨⟨[("src/x.py", ⟨[121], false⟩), ("src/.pytest_cache/README.md", ⟨[], false⟩)], by decide⟩⟩

theorem submission_round_trip_sample : ∃ later ref archive,
    sampleService.fromSaved (sampleStore plain edited) baselineRef workspaceRef rules = .ok (later, ref) ∧
      sampleService.resolve later ref baselineRef rules = .ok archive ∧
      archive.Same (withoutPytestCache editedArchive plainArchive) := by
  have valid : validateRules rules = .ok () := by decide +kernel
  apply ((@submission_round_trip _ _ sampleService memberList_sound).1 (sampleStore plain edited) baselineRef
    workspaceRef rules plainArchive editedArchive (by decide +kernel) (by decide +kernel)
    (sample_collisionless _ _ _ _) valid (by decide +kernel)
    ((@validateChanges_eq_ok _ _ _ () (safe_of_validateRules valid)).mp (by decide +kernel))).mpr
  constructor
  · constructor
    · decide +kernel
    · decide +kernel
    · decide +kernel
    · decide +kernel
  · decide +kernel
  · decide +kernel

def hiddenSource : List Member := [⟨"src/x.pyc/", .file, false, 1, [120], false⟩]

def hiddenArchive : SourceArchive := ⟨⟨[("src/x.pyc", ⟨[120], false⟩)], by decide⟩⟩

/-- A baseline whose compiled name ends in a slash is read, and not even its own unchanged workspace is
published. -/
theorem hidden_suffix_unpublished :
    sampleService.source (sampleStore hiddenSource hiddenSource) baselineRef = .ok hiddenArchive ∧
      sampleService.source (sampleStore hiddenSource hiddenSource) workspaceRef = .ok hiddenArchive ∧
      validateRules rules = .ok () ∧ ChangesPermitted hiddenArchive hiddenArchive rules ∧
      ¬ ∃ later ref, sampleService.fromSaved (sampleStore hiddenSource hiddenSource) baselineRef workspaceRef rules =
        .ok (later, ref) := by
  refine ⟨by decide +kernel, by decide +kernel, by decide +kernel, fun _ different => absurd rfl different, ?_⟩
  rintro ⟨later, ref, published⟩
  have failed : (sampleService.fromSaved (sampleStore hiddenSource hiddenSource) baselineRef workspaceRef
      rules).toBool = false := by decide +kernel
  rw [published] at failed
  cases failed

end Sample

end SubmissionService

end Submission

end FeatureRl
