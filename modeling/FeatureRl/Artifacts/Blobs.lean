import FeatureRl.Contracts.Values
import FeatureRl.Lib.Checked

/-!
The artifact store as its byte readers and writers see it: envelopes under the digests of
their canonical bytes, behind the visibilities that a role may touch.
-/

namespace FeatureRl

open Checked

namespace Artifacts

/-! ### Envelopes -/

/-- A stored object. The payload is the opaque bytes, or the canonical bytes of the document. -/
structure Envelope where
  kind : Identifier
  schemaVersion : Nat
  visibility : Visibility
  encoding : Encoding
  payload : Bytes
  bounded : 1 ≤ schemaVersion ∧ schemaVersion ≤ 2

theorem Envelope.ext_iff {one two : Envelope} : one = two ↔ one.kind = two.kind ∧ one.schemaVersion = two.schemaVersion ∧
    one.visibility = two.visibility ∧ one.encoding = two.encoding ∧ one.payload = two.payload := by
  cases one
  cases two
  simp

instance : DecidableEq Envelope := fun _ _ => decidable_of_iff' _ Envelope.ext_iff

/-- The length of the base64 text of so many bytes. -/
def base64Length (count : Nat) : Nat := 4 * ((count + 2) / 3)

namespace Envelope

def payloadLength (envelope : Envelope) : Nat :=
  match envelope.encoding with
  | .bytes => base64Length envelope.payload.length + 2
  | .json => envelope.payload.length

/-- The length of the canonical envelope; its punctuation and its keys take 71 bytes. -/
def size (envelope : Envelope) : Nat :=
  71 + envelope.encoding.name.length + envelope.kind.val.length + envelope.visibility.name.length +
    envelope.payloadLength

end Envelope

/-- The kinds of the registered artifact models. -/
def artifactTypes : List String :=
  ["CandidateRecord", "SourcePair", "RequirementContract", "EnvironmentRecipe", "VerifierBundle",
    "TaskBundle", "QualificationReport", "RolloutRecord", "TrainingCheckpoint", "EvaluationReport"]

/-- The digests of envelopes and of raw bytes. -/
structure Hashing where
  envelope : Envelope → Digest
  bytes : Bytes → Digest

def Hashing.refOf (hashing : Hashing) (envelope : Envelope) : ArtifactRef :=
  ⟨hashing.envelope envelope, envelope.kind, envelope.schemaVersion, envelope.visibility, envelope.encoding,
    envelope.bounded⟩

/-! ### The store -/

inductive Failure where
  | denied
  | notFound
  | integrity (message : String)
  | sizeLimit (limit : String) (cap : Nat)
  | rejected (message : String)
deriving DecidableEq

structure ArtifactStore where
  role : ActorRole
  objects : Dict Digest Envelope

def access : ActorRole → List Visibility
  | .solver => [.public]
  | .author => [.public, .authoring]
  | .controller => Visibility.all
  | .trainer => [.public, .training]
  | .evaluator => [.public, .evaluation]
  | .reviewer => Visibility.all

theorem public_mem_access (role : ActorRole) : Visibility.public ∈ access role := by
  cases role <;> decide

namespace ArtifactStore

variable (hashing : Hashing)

def authorize (store : ArtifactStore) (visibility : Visibility) (write : Bool) : Except Failure Unit :=
  refuse (visibility ∉ access store.role ∨ (write = true ∧ store.role = .reviewer)) .denied

/-- Store an envelope under its digest. Another one there is a corruption or a collision. -/
def put (store : ArtifactStore) (envelope : Envelope) : Except Failure (ArtifactStore × ArtifactRef) := do
  store.authorize envelope.visibility true
  match store.objects.get? (hashing.envelope envelope) with
  | none =>
      .ok ({ store with objects := store.objects.set (hashing.envelope envelope) envelope },
        hashing.refOf envelope)
  | some existing =>
      if existing = envelope then .ok (store, hashing.refOf envelope)
      else .error (.integrity "existing object differs: corruption or collision")

def opaqueBytes (data : Bytes) (kind : Identifier) (visibility : Visibility) : Envelope :=
  ⟨kind, 1, visibility, .bytes, data, by omega⟩

def putBytes (store : ArtifactStore) (data : Bytes) (kind : Identifier) (visibility : Visibility) :
    Except Failure (ArtifactStore × ArtifactRef) := do
  refuse (kind.val ∈ artifactTypes) (.integrity "typed artifact kinds require put_artifact")
  store.put hashing (opaqueBytes data kind visibility)

/-- The envelope that a reference names, read under a cap on its size. -/
def get (store : ArtifactStore) (cap : Option Nat) (ref : ArtifactRef) : Except Failure Envelope := do
  store.authorize ref.visibility false
  let envelope ← require (store.objects.get? ref.sha256) .notFound
  refuse (∃ limit ∈ cap, limit < envelope.size) (.sizeLimit "max_envelope_bytes" (cap.getD 0))
  refuse (hashing.envelope envelope ≠ ref.sha256) (.integrity "content digest mismatch")
  refuse (hashing.refOf envelope ≠ ref) (.integrity "reference metadata mismatch")
  .ok envelope

/-- The reference is to an opaque byte object. -/
def byteObject (ref : ArtifactRef) : Except Failure Unit := do
  refuse (ref.encoding ≠ .bytes ∨ ref.kind.val ∈ artifactTypes)
    (.integrity "reference is not an opaque byte object")
  refuse (ref.schemaVersion ≠ 1) (.integrity "unsupported bytes schema version")

def decodeBytes (maxPayload : Nat) (envelope : Envelope) : Except Failure Bytes := do
  refuse (maxPayload < envelope.payload.length) (.sizeLimit "max_payload_bytes" maxPayload)
  .ok envelope.payload

/-- Everything in the first store is in the second, which the same role reads. -/
structure Extends (store later : ArtifactStore) : Prop where
  role : later.role = store.role
  objects : ∀ digest envelope, store.objects.get? digest = some envelope →
    later.objects.get? digest = some envelope

namespace Extends

theorem refl (store : ArtifactStore) : store.Extends store := ⟨rfl, fun _ _ found => found⟩

theorem trans {one two three : ArtifactStore} (first : one.Extends two) (second : two.Extends three) :
    one.Extends three :=
  ⟨second.role.trans first.role, fun digest envelope found =>
    second.objects digest envelope (first.objects digest envelope found)⟩

end Extends

variable {hashing}

theorem get_eq_ok {store : ArtifactStore} {cap : Option Nat} {ref : ArtifactRef} {envelope : Envelope} :
    store.get hashing cap ref = .ok envelope ↔ ref.visibility ∈ access store.role ∧
      store.objects.get? ref.sha256 = some envelope ∧ (∀ limit ∈ cap, envelope.size ≤ limit) ∧
      hashing.refOf envelope = ref := by
  simp only [get, authorize, bind_eq_ok, refuse_eq_ok, require_eq_ok]
  constructor
  · rintro ⟨_, allowed, found, present, _, small, _, _, _, same, done⟩
    obtain rfl := Except.ok.inj done
    exact ⟨by simpa using allowed, present, by simpa using small, not_not.mp same⟩
  · rintro ⟨allowed, present, small, same⟩
    exact ⟨(), by simpa using allowed, envelope, present, (), by simpa using small, (),
      by simp [← same, Hashing.refOf], (), not_not.mpr same, rfl⟩

/-- A read that succeeded succeeds with the same envelope in every larger store. -/
theorem Extends.get {store later : ArtifactStore} (larger : store.Extends later) {cap : Option Nat}
    {ref : ArtifactRef} {envelope : Envelope} (read : store.get hashing cap ref = .ok envelope) :
    later.get hashing cap ref = .ok envelope := by
  obtain ⟨allowed, present, small, same⟩ := get_eq_ok.mp read
  exact get_eq_ok.mpr ⟨larger.role ▸ allowed, larger.objects _ _ present, small, same⟩

/-- A write adds one envelope at most, and its reference reads back. -/
structure Wrote (hashing : Hashing) (store : ArtifactStore) (envelope : Envelope)
    (next : ArtifactStore) (ref : ArtifactRef) : Prop where
  refOf : ref = hashing.refOf envelope
  larger : store.Extends next
  present : next.objects.get? ref.sha256 = some envelope
  readable : envelope.visibility ∈ access next.role
  only : ∀ digest other, next.objects.get? digest = some other →
    store.objects.get? digest = some other ∨ (digest = ref.sha256 ∧ other = envelope)

theorem put_wrote {store next : ArtifactStore} {envelope : Envelope} {ref : ArtifactRef}
    (written : store.put hashing envelope = .ok (next, ref)) : Wrote hashing store envelope next ref := by
  simp only [put, authorize, bind_eq_ok, refuse_eq_ok] at written
  obtain ⟨_, allowed, stored⟩ := written
  have readable : envelope.visibility ∈ access store.role := by
    by_contra outside
    exact allowed (.inl outside)
  split at stored
  next absent =>
    cases stored
    refine ⟨rfl, ⟨rfl, fun digest other found => ?_⟩, Dict.get?_set_self _ _ _, readable,
      fun digest other found => ?_⟩
    · rw [Dict.get?_set_ne _ _ fun same => ?_]
      · exact found
      · rw [same, absent] at found
        cases found
    · rw [Dict.get?_set] at found
      split at found
      next same => exact .inr ⟨same, (Option.some.inj found).symm⟩
      next => exact .inl found
  next existing present =>
    split at stored
    next same =>
      cases stored
      exact ⟨rfl, .refl store, same ▸ present, readable, fun _ _ found => .inl found⟩
    next => cases stored

theorem putBytes_eq_ok {store : ArtifactStore} {data : Bytes} {kind : Identifier} {visibility : Visibility}
    {result : ArtifactStore × ArtifactRef} :
    store.putBytes hashing data kind visibility = .ok result ↔ kind.val ∉ artifactTypes ∧
      store.put hashing (opaqueBytes data kind visibility) = .ok result := by
  simp only [putBytes, bind_eq_ok, refuse_eq_ok]
  exact ⟨fun ⟨_, untyped, stored⟩ => ⟨untyped, stored⟩, fun ⟨untyped, stored⟩ => ⟨(), untyped, stored⟩⟩

end ArtifactStore

end Artifacts

end FeatureRl
