import FeatureRl.Registry.Verify
import Mathlib.Logic.Relation

/-!
What an artifact may expose. A public artifact holds references to public artifacts only, and one of the authoring
class to public ones and its own class, so nothing restricted is within reach of them.
-/

namespace FeatureRl

open Checked Relation Verify

namespace Artifacts

/-! ### References inside a document -/

/-- A dictionary of the document, at any depth, that has the keys of a reference. -/
inductive Mentions : Json → Json.Members → Prop
  | here {members : Json.Members} (keys : isReference members = true) : Mentions (.obj members) members
  | member {members found : Json.Members} {member : String × Json} (inside : member ∈ members)
      (later : Mentions member.2 found) : Mentions (.obj members) found
  | item {items : List Json} {found : Json.Members} {item : Json} (inside : item ∈ items)
      (later : Mentions item found) : Mentions (.arr items) found

def exposure : Failure := .integrity "artifact exposes a restricted reference"

/-- The visibility of a dictionary with the keys of a reference is a permitted one. A list or a dictionary in its
place is no member of any set. -/
def permittedRef (permitted : List Visibility) (members : Json.Members) : Except Failure Unit :=
  if isReference members then
    match members.lookup "visibility" with
    | some (.str name) => refuse (name ∉ permitted.map Visibility.name) exposure
    | some (.arr _) => .error (.rejected "unhashable type: 'list'")
    | some (.obj _) => .error (.rejected "unhashable type: 'dict'")
    | _ => .error exposure
  else .ok ()

mutual

def publicRefs (permitted : List Visibility) : Json → Except Failure Unit
  | .obj members => do
      permittedRef permitted members
      publicRefsMembers permitted members
  | .arr items => publicRefsItems permitted items
  | _ => .ok ()

def publicRefsItems (permitted : List Visibility) : List Json → Except Failure Unit
  | [] => .ok ()
  | item :: rest => do
      publicRefs permitted item
      publicRefsItems permitted rest

def publicRefsMembers (permitted : List Visibility) : Json.Members → Except Failure Unit
  | [] => .ok ()
  | (_, value) :: rest => do
      publicRefs permitted value
      publicRefsMembers permitted rest

end

/-- What an artifact of a visibility may refer to; the restricted classes may refer to anything. -/
def exposes : Visibility → List Visibility
  | .public => [.public]
  | .authoring => [.public, .authoring]
  | _ => Visibility.all

def checkExposure (visibility : Visibility) (payload : Json) : Except Failure Unit :=
  match visibility with
  | .public => publicRefs [.public] payload
  | .authoring => publicRefs [.public, .authoring] payload
  | _ => .ok ()

/-! ### Typed artifacts -/

/-- The registered models: the class of an artifact, its metadata, its validation and its document. A document is a
dictionary's, so each key stands once in every part of it. -/
structure Models (α : Type) where
  className : α → String
  kind : α → Identifier
  schemaVersion : α → Nat
  visibility : α → Visibility
  revalidate : α → Option α
  dump : α → Json
  validate : String → Json → Option α
  bounded : ∀ artifact, 1 ≤ schemaVersion artifact ∧ schemaVersion artifact ≤ 2
  normal : ∀ artifact, (dump artifact).normal = true

variable {α : Type} (hashing : Hashing) (models : Models α)

def Models.envelope (artifact : α) : Envelope :=
  ⟨models.kind artifact, models.schemaVersion artifact, models.visibility artifact, .json,
    (models.dump artifact).canonical, models.bounded artifact⟩

namespace ArtifactStore

def putArtifact (store : ArtifactStore) (artifact : α) : Except Failure (ArtifactStore × ArtifactRef) := do
  refuse (models.className artifact ∉ artifactTypes) (.integrity "unregistered artifact model")
  let checked ← require (models.revalidate artifact) (.integrity "invalid artifact model")
  checkExposure (models.visibility checked) (models.dump checked)
  store.put hashing (models.envelope checked)

def getBytes (store : ArtifactStore) (maxEnvelope : Option Nat) (maxPayload : Nat) (ref : ArtifactRef) :
    Except Failure Bytes := do
  byteObject ref
  let envelope ← store.get hashing maxEnvelope ref
  decodeBytes maxPayload envelope

/-- The document that an envelope holds, which its bytes are the canonical text of. -/
def document (envelope : Envelope) : Except Failure Json := do
  let payload ← require (Json.loads envelope.payload) (.integrity "invalid canonical JSON")
  refuse (payload.canonical ≠ envelope.payload) (.integrity "noncanonical serialized object")
  .ok payload

def getArtifact (store : ArtifactStore) (maxEnvelope : Option Nat) (ref : ArtifactRef) : Except Failure α := do
  refuse (ref.encoding ≠ .json ∨ ref.kind.val ∉ artifactTypes)
    (.integrity "reference is not a known typed artifact")
  refuse (ref.schemaVersion ≠ Context.schemaVersion ref.kind.val)
    (.integrity "unsupported artifact schema version; revalidate and republish")
  let envelope ← store.get hashing maxEnvelope ref
  let payload ← document envelope
  let artifact ← require (models.validate ref.kind.val payload) (.integrity "invalid artifact payload")
  refuse (models.kind artifact ≠ ref.kind ∨ models.schemaVersion artifact ≠ ref.schemaVersion ∨
    models.visibility artifact ≠ ref.visibility) (.integrity "artifact/envelope metadata mismatch")
  checkExposure (models.visibility artifact) payload
  .ok artifact

end ArtifactStore

/-! ### A store that several roles write -/

inductive Write (α : Type) where
  | bytes (data : Bytes) (kind : Identifier) (visibility : Visibility)
  | artifact (artifact : α)

def write (store : ArtifactStore) : Write α → Except Failure (ArtifactStore × ArtifactRef)
  | .bytes data kind visibility => store.putBytes hashing data kind visibility
  | .artifact artifact => store.putArtifact hashing models artifact

/-- One call of a role on the objects that all roles share; a refused one changes nothing. -/
def step (objects : Dict Digest Envelope) (call : ActorRole × Write α) : Dict Digest Envelope :=
  match write hashing models ⟨call.1, objects⟩ call.2 with
  | .ok (store, _) => store.objects
  | .error _ => objects

def run (calls : List (ActorRole × Write α)) : Dict Digest Envelope :=
  calls.foldl (step hashing models) Dict.empty

/-- A typed object of the store whose document mentions a reference. -/
def Links (objects : Dict Digest Envelope) (ref next : ArtifactRef) : Prop :=
  ∃ envelope document members, objects.get? ref.sha256 = some envelope ∧ hashing.refOf envelope = ref ∧
    envelope.encoding = .json ∧ Json.loads envelope.payload = some document ∧ Mentions document members ∧
    ArtifactRef.codec.validate (.obj members) = some next

/-! ### The walker finds every reference -/

theorem permittedRef_eq_ok {permitted : List Visibility} {members : Json.Members} :
    permittedRef permitted members = .ok () ↔ (isReference members = true →
      ∃ visibility ∈ permitted, members.lookup "visibility" = some (.str visibility.name)) := by
  unfold permittedRef
  by_cases keys : isReference members = true
  · simp only [keys, ↓reduceIte, forall_const]
    split
    next name found =>
      rw [refuse_eq_ok, not_not, List.mem_map, found]
      simp [eq_comm]
    next found => simp [found]
    next found => simp [found]
    next other _ _ =>
      simp only [reduceCtorEq, false_iff]
      rintro ⟨visibility, _, found⟩
      exact other visibility.name found
  · simp [keys]

theorem publicRefsItems_eq_ok {permitted : List Visibility} {items : List Json} :
    publicRefsItems permitted items = .ok () ↔ ∀ item ∈ items, publicRefs permitted item = .ok () := by
  induction items with
  | nil => simp [publicRefsItems]
  | cons item rest ih => rw [publicRefsItems, seq_eq_ok, ih, List.forall_mem_cons]

theorem publicRefsMembers_eq_ok {permitted : List Visibility} {members : Json.Members} :
    publicRefsMembers permitted members = .ok () ↔
      ∀ member ∈ members, publicRefs permitted member.2 = .ok () := by
  induction members with
  | nil => simp [publicRefsMembers]
  | cons member rest ih =>
      obtain ⟨key, value⟩ := member
      rw [publicRefsMembers, seq_eq_ok, ih, List.forall_mem_cons]

/-- An accepted document has no reference of another visibility, at whatever depth. -/
theorem permitted_of_mentions {permitted : List Visibility} {document : Json} {members : Json.Members}
    (mentioned : Mentions document members) (accepted : publicRefs permitted document = .ok ()) :
    ∃ visibility ∈ permitted, members.lookup "visibility" = some (.str visibility.name) := by
  induction mentioned with
  | here keys =>
      rw [publicRefs, seq_eq_ok] at accepted
      exact permittedRef_eq_ok.mp accepted.1 keys
  | member inside _ ih =>
      rw [publicRefs, seq_eq_ok, publicRefsMembers_eq_ok] at accepted
      exact ih (accepted.2 _ inside)
  | item inside _ ih =>
      rw [publicRefs, publicRefsItems_eq_ok] at accepted
      exact ih (accepted _ inside)

theorem enumeration_eq_some {β : Type} {all : List β} {name : β → String}
    {find : ∀ value, all.find? (fun other => name other == name value) = some value} {entry : Json} {value : β}
    (read : (enumeration all name find).validate entry = some value) : entry = .str (name value) := by
  cases entry with
  | str text =>
      have same := List.find?_some read
      rw [eq_of_beq same]
  | _ => cases read

theorem lookup_visibility {members : Json.Members} {ref : ArtifactRef}
    (read : ArtifactRef.codec.validate (.obj members) = some ref) :
    members.lookup "visibility" = some (.str ref.visibility.name) := by
  simp only [ArtifactRef.codec, Fields.codec] at read
  split at read
  next =>
    simp only [ArtifactRef.fields, Fields.view_read, Fields.and_read, Fields.field_read,
      Option.bind_eq_some_iff, Option.some.injEq] at read
    obtain ⟨_, ⟨_, _, _, ⟨_, _, _, ⟨_, _, _, ⟨_, ⟨entry, found, named⟩, _, _, rfl⟩, rfl⟩, rfl⟩, rfl⟩, made⟩ := read
    split at made
    next =>
      cases made
      rw [found, enumeration_eq_some named]
    next => cases made
  next => cases read

mutual

/-- The references that the registry's verification finds are among those mentioned. -/
theorem mentions_of_references : ∀ {document : Json} {refs : List ArtifactRef}, references document = some refs →
    ∀ ref ∈ refs, ∃ members, Mentions document members ∧ ArtifactRef.codec.validate (.obj members) = some ref
  | .obj members, refs, read, ref, found => by
      rw [references] at read
      split at read
      next keys =>
        obtain ⟨only, valid, rfl⟩ := Option.map_eq_some_iff.mp read
        obtain rfl := List.mem_singleton.mp found
        exact ⟨members, .here keys, valid⟩
      next =>
        obtain ⟨member, inside, deeper, mentioned, valid⟩ := mentions_of_referencesMembers read ref found
        exact ⟨deeper, .member inside mentioned, valid⟩
  | .arr items, refs, read, ref, found => by
      rw [references] at read
      obtain ⟨item, inside, deeper, mentioned, valid⟩ := mentions_of_referencesItems read ref found
      exact ⟨deeper, .item inside mentioned, valid⟩
  | .null, _, read, _, found | .bool _, _, read, _, found | .int _, _, read, _, found
  | .float _, _, read, _, found | .str _, _, read, _, found => by
      cases read
      cases found

theorem mentions_of_referencesItems : ∀ {items : List Json} {refs : List ArtifactRef},
    referencesItems items = some refs → ∀ ref ∈ refs, ∃ item ∈ items, ∃ members, Mentions item members ∧
      ArtifactRef.codec.validate (.obj members) = some ref
  | [], refs, read, ref, found => by
      cases read
      cases found
  | item :: rest, refs, read, ref, found => by
      simp only [referencesItems, Option.bind_eq_bind, Option.bind_eq_some_iff, Option.some.injEq] at read
      obtain ⟨first, here, others, later, rfl⟩ := read
      rcases List.mem_append.mp found with inFirst | inOthers
      · exact ⟨item, List.mem_cons_self, mentions_of_references here ref inFirst⟩
      · obtain ⟨other, inside, rest⟩ := mentions_of_referencesItems later ref inOthers
        exact ⟨other, List.mem_cons_of_mem _ inside, rest⟩

theorem mentions_of_referencesMembers : ∀ {entries : Json.Members} {refs : List ArtifactRef},
    referencesMembers entries = some refs → ∀ ref ∈ refs, ∃ entry ∈ entries, ∃ members,
      Mentions entry.2 members ∧ ArtifactRef.codec.validate (.obj members) = some ref
  | [], refs, read, ref, found => by
      cases read
      cases found
  | (key, value) :: rest, refs, read, ref, found => by
      simp only [referencesMembers, Option.bind_eq_bind, Option.bind_eq_some_iff, Option.some.injEq] at read
      obtain ⟨first, here, others, later, rfl⟩ := read
      rcases List.mem_append.mp found with inFirst | inOthers
      · exact ⟨(key, value), List.mem_cons_self, mentions_of_references here ref inFirst⟩
      · obtain ⟨other, inside, rest⟩ := mentions_of_referencesMembers later ref inOthers
        exact ⟨other, List.mem_cons_of_mem _ inside, rest⟩

end

/-! ### What is stored was accepted -/

theorem visibility_name_injective : Function.Injective Visibility.name := by
  intro first second same
  cases first <;> cases second <;> first | rfl | exact absurd same (by decide)

theorem ref_mem_exposes {visibility : Visibility} {document : Json} {members : Json.Members} {ref : ArtifactRef}
    (accepted : checkExposure visibility document = .ok ()) (mentioned : Mentions document members)
    (valid : ArtifactRef.codec.validate (.obj members) = some ref) : ref.visibility ∈ exposes visibility := by
  have named := lookup_visibility valid
  have permitted : ∀ permitted : List Visibility, publicRefs permitted document = .ok () →
      ref.visibility ∈ permitted := by
    intro permitted passed
    obtain ⟨visibility, inside, found⟩ := permitted_of_mentions mentioned passed
    rw [named, Option.some.injEq, Json.str.injEq] at found
    rwa [visibility_name_injective found]
  cases visibility with
  | «public» => exact permitted [.public] accepted
  | authoring => exact permitted [.public, .authoring] accepted
  | _ => cases ref.visibility <;> decide

theorem exposes_refl (visibility : Visibility) : visibility ∈ exposes visibility := by
  cases visibility <;> decide

theorem exposes_trans {root middle : Visibility} (inside : middle ∈ exposes root) :
    exposes middle ⊆ exposes root := by
  cases root <;> cases middle <;> revert inside <;> decide

/-- Who may read a public artifact or an authoring one may read what those may expose. -/
theorem exposes_subset_access {role : ActorRole} {root next : Visibility} (open' : root = .public ∨ root = .authoring)
    (readable : root ∈ access role) (inside : next ∈ exposes root) : next ∈ access role := by
  cases role <;> cases root <;> cases next <;> revert open' readable inside <;> decide

/-- The envelope that an accepted call stores. -/
inductive Write.Holds : Write α → Envelope → Prop
  | bytes {data : Bytes} {kind : Identifier} {visibility : Visibility} (untyped : kind.val ∉ artifactTypes) :
      Holds (.bytes data kind visibility) (ArtifactStore.opaqueBytes data kind visibility)
  | artifact {artifact checked : α} (valid : models.revalidate artifact = some checked)
      (exposed : checkExposure (models.visibility checked) (models.dump checked) = .ok ()) :
      Holds (.artifact artifact) (models.envelope checked)

/-- A call of a role that may write stored the envelope. -/
structure Accepted (call : ActorRole × Write α) (envelope : Envelope) : Prop where
  writer : envelope.visibility ∈ access call.1 ∧ call.1 ≠ .reviewer
  holds : call.2.Holds models envelope

variable {hashing models}

theorem put_writer {store next : ArtifactStore} {envelope : Envelope} {ref : ArtifactRef}
    (written : store.put hashing envelope = .ok (next, ref)) :
    envelope.visibility ∈ access store.role ∧ store.role ≠ .reviewer := by
  simp only [ArtifactStore.put, ArtifactStore.authorize, bind_eq_ok, refuse_eq_ok] at written
  obtain ⟨_, allowed, _⟩ := written
  simpa [not_or] using allowed

theorem write_accepted {store next : ArtifactStore} {call : Write α} {ref : ArtifactRef}
    (written : write hashing models store call = .ok (next, ref)) :
    ∃ envelope, ArtifactStore.Wrote hashing store envelope next ref ∧ Accepted models (store.role, call) envelope := by
  cases call with
  | bytes data kind visibility =>
      obtain ⟨untyped, stored⟩ := ArtifactStore.putBytes_eq_ok.mp written
      exact ⟨_, ArtifactStore.put_wrote stored, put_writer stored, .bytes untyped⟩
  | artifact artifact =>
      simp only [write, ArtifactStore.putArtifact, bind_eq_ok, require_eq_ok] at written
      obtain ⟨_, _, checked, valid, _, exposed, stored⟩ := written
      exact ⟨_, ArtifactStore.put_wrote stored, put_writer stored, .artifact valid exposed⟩

theorem step_accepted {objects : Dict Digest Envelope} {call : ActorRole × Write α} {digest : Digest}
    {envelope : Envelope} (found : (step hashing models objects call).get? digest = some envelope) :
    objects.get? digest = some envelope ∨ (hashing.envelope envelope = digest ∧ Accepted models call envelope) := by
  unfold step at found
  split at found
  next store ref written =>
    obtain ⟨stored, wrote, accepted⟩ := write_accepted written
    rcases wrote.only digest envelope found with before | ⟨rfl, rfl⟩
    · exact .inl before
    · exact .inr ⟨congrArg ArtifactRef.sha256 wrote.refOf.symm, accepted⟩
  next => exact .inl found

theorem run_accepted {calls : List (ActorRole × Write α)} {digest : Digest} {envelope : Envelope}
    (found : (run hashing models calls).get? digest = some envelope) :
    hashing.envelope envelope = digest ∧ ∃ call ∈ calls, Accepted models call envelope := by
  induction calls using List.reverseRecOn with
  | nil => cases found
  | append_singleton before call ih =>
      rw [run, List.foldl_append] at found
      rcases step_accepted found with earlier | ⟨key, accepted⟩
      · obtain ⟨key, other, called, accepted⟩ := ih earlier
        exact ⟨key, other, List.mem_append_left _ called, accepted⟩
      · exact ⟨key, call, by simp, accepted⟩

/-! ### What is within reach -/

theorem Write.Holds.document {call : Write α} {envelope : Envelope} (holds : call.Holds models envelope)
    (typed : envelope.encoding = .json) : ∃ artifact checked, call = .artifact artifact ∧
      models.revalidate artifact = some checked ∧ envelope = models.envelope checked ∧
      Json.loads envelope.payload = some (models.dump checked) ∧
      checkExposure envelope.visibility (models.dump checked) = .ok () := by
  cases holds with
  | bytes => cases typed
  | artifact valid exposed =>
      exact ⟨_, _, rfl, valid, rfl, Json.loads_canonical (models.normal _), exposed⟩

theorem links_visible {calls : List (ActorRole × Write α)} {ref next : ArtifactRef}
    (links : Links hashing (run hashing models calls) ref next) : next.visibility ∈ exposes ref.visibility := by
  obtain ⟨envelope, document, members, found, rfl, typed, loaded, mentioned, valid⟩ := links
  obtain ⟨_, call, _, accepted⟩ := run_accepted found
  obtain ⟨artifact, checked, _, _, _, stored, exposed⟩ := accepted.holds.document typed
  obtain rfl := Option.some.inj (stored.symm.trans loaded)
  exact ref_mem_exposes exposed mentioned valid

theorem reachable_visible {calls : List (ActorRole × Write α)} {root next : ArtifactRef}
    (reach : ReflTransGen (Links hashing (run hashing models calls)) root next) :
    next.visibility ∈ exposes root.visibility := by
  induction reach with
  | refl => exact exposes_refl _
  | tail _ links ih => exact exposes_trans ih (links_visible links)

/-- What the registry's verification reads out of a typed artifact, the store links to it. -/
theorem links_of_read {context : Context} {ref : ArtifactRef} {cap size : Nat} {intrinsic : List ArtifactRef}
    (typed : ref.encoding = .json) (read : context.read ref cap = .ok (size, intrinsic)) :
    ∀ next ∈ intrinsic, Links context.hashing context.store.objects ref next := by
  have opaque' : ref.encoding ≠ .bytes := by
    rw [typed]
    decide
  simp only [Context.read, opaque', ↓reduceIte, bind_eq_ok, refuse_eq_ok, require_eq_ok,
    Context.fromStore_eq_ok] at read
  obtain ⟨_, _, _, _, envelope, stored, _, _, found, loaded, done⟩ := read
  obtain ⟨_, rfl⟩ := Prod.mk.inj (Except.ok.inj done)
  obtain ⟨_, present, _, rfl⟩ := ArtifactStore.get_eq_ok.mp stored
  obtain ⟨document, text, read⟩ := Option.bind_eq_some_iff.mp loaded
  intro next inside
  obtain ⟨members, mentioned, valid⟩ := mentions_of_references read next inside
  exact ⟨envelope, document, members, present, rfl, typed, text, mentioned, valid⟩

/-- The document of a typed object is the one of an artifact that an accepted call stored. -/
theorem document_accepted {calls : List (ActorRole × Write α)} {role : ActorRole} {cap : Option Nat}
    {ref : ArtifactRef} {envelope : Envelope} {payload : Json} (typed : ref.encoding = .json)
    (stored : ArtifactStore.get hashing ⟨role, run hashing models calls⟩ cap ref = .ok envelope)
    (held : ArtifactStore.document envelope = .ok payload) :
    ∃ writer given checked, (writer, .artifact given) ∈ calls ∧ models.revalidate given = some checked ∧
      hashing.refOf (models.envelope checked) = ref ∧ payload = models.dump checked ∧
      checkExposure ref.visibility payload = .ok () := by
  obtain ⟨_, present, _, rfl⟩ := ArtifactStore.get_eq_ok.mp stored
  obtain ⟨_, ⟨writer, call⟩, called, accepted⟩ := run_accepted present
  obtain ⟨given, checked, rfl, valid, rfl, loaded, exposed⟩ := accepted.holds.document typed
  simp only [ArtifactStore.document, bind_eq_ok, require_eq_ok, loaded] at held
  obtain ⟨_, same, _, _, done⟩ := held
  cases same
  cases done
  exact ⟨writer, given, checked, called, valid, rfl, rfl, exposed⟩

/-- A typed read gives what an accepted call stored under the reference. -/
theorem getArtifact_accepted {calls : List (ActorRole × Write α)} {role : ActorRole} {cap : Option Nat}
    {ref : ArtifactRef} {artifact : α}
    (read : ArtifactStore.getArtifact hashing models ⟨role, run hashing models calls⟩ cap ref = .ok artifact) :
    ref.visibility ∈ access role ∧ ∃ writer given checked, (writer, .artifact given) ∈ calls ∧
      models.revalidate given = some checked ∧ hashing.refOf (models.envelope checked) = ref ∧
      models.validate ref.kind.val (models.dump checked) = some artifact := by
  simp only [ArtifactStore.getArtifact, bind_eq_ok, refuse_eq_ok, require_eq_ok] at read
  obtain ⟨_, typed, _, _, envelope, stored, payload, held, _, validated, _, _, _, _, done⟩ := read
  cases done
  obtain ⟨writer, given, checked, called, valid, same, rfl, _⟩ :=
    document_accepted (not_not.mp (not_or.mp typed).1) stored held
  exact ⟨(ArtifactStore.get_eq_ok.mp stored).1, writer, given, checked, called, valid, same, validated⟩

theorem getBytes_accepted {calls : List (ActorRole × Write α)} {role : ActorRole} {cap : Option Nat} {limit : Nat}
    {ref : ArtifactRef} {data : Bytes}
    (read : ArtifactStore.getBytes hashing ⟨role, run hashing models calls⟩ cap limit ref = .ok data) :
    ref.visibility ∈ access role ∧ ∃ writer, (writer, .bytes data ref.kind ref.visibility) ∈ calls := by
  simp only [ArtifactStore.getBytes, ArtifactStore.byteObject, ArtifactStore.decodeBytes, bind_eq_ok,
    refuse_eq_ok] at read
  obtain ⟨_, ⟨_, typed, _⟩, envelope, stored, _, _, done⟩ := read
  cases done
  obtain ⟨readable, present, _, rfl⟩ := ArtifactStore.get_eq_ok.mp stored
  obtain ⟨_, ⟨writer, call⟩, called, accepted⟩ := run_accepted present
  have holds := accepted.holds
  cases holds with
  | bytes untyped => exact ⟨readable, writer, called⟩
  | artifact valid exposed => exact absurd (.inl (by simp [Hashing.refOf, Models.envelope])) typed

theorem get_ne_exposure {store : ArtifactStore} {cap : Option Nat} {ref : ArtifactRef} :
    store.get hashing cap ref ≠ .error exposure := by
  simp [ArtifactStore.get, ArtifactStore.authorize, bind_eq_error, refuse_eq_error, require_eq_error, exposure]

theorem document_ne_exposure {envelope : Envelope} : ArtifactStore.document envelope ≠ .error exposure := by
  simp [ArtifactStore.document, bind_eq_error, refuse_eq_error, require_eq_error, exposure]

/-- A typed read of what was stored is never refused for what the artifact exposes. -/
theorem getArtifact_ne_exposure {calls : List (ActorRole × Write α)} {role : ActorRole} {cap : Option Nat}
    {ref : ArtifactRef} :
    ArtifactStore.getArtifact hashing models ⟨role, run hashing models calls⟩ cap ref ≠ .error exposure := by
  intro refused
  simp only [ArtifactStore.getArtifact, bind_eq_error, get_ne_exposure, document_ne_exposure, refuse_eq_error,
    require_eq_error, refuse_eq_ok, require_eq_ok] at refused
  simp only [exposure, Failure.integrity.injEq, reduceCtorEq, and_false, exists_false, false_or, or_false,
    String.reduceEq] at refused
  obtain ⟨_, typed, _, _, envelope, stored, payload, held, artifact, _, _, agrees, refused⟩ := refused
  obtain ⟨_, _, _, _, _, _, _, exposed⟩ := document_accepted (not_not.mp (not_or.mp typed).1) stored held
  rw [not_not.mp (not_or.mp (not_or.mp agrees).2).2, exposed] at refused
  cases refused

end Artifacts

end FeatureRl
