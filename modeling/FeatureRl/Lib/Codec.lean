import FeatureRl.Lib.Dict
import FeatureRl.Lib.JsonReader

/-!
Validated values and their JSON documents. A codec carries the proof that validating a
value's own document gives the value back, so a model assembled from codecs needs no
round-trip proof of its own.
-/

/-- A type of validated values with the document each is dumped to. -/
structure Codec (α : Type) where
  document : α → Json
  validate : Json → Option α
  normal : ∀ value, (document value).normal = true
  validate_document : ∀ value, validate (document value) = some value

namespace Codec

variable {α β : Type}

theorem document_injective (codec : Codec α) : Function.Injective codec.document := by
  intro first second same
  have read := codec.validate_document first
  rw [same, codec.validate_document] at read
  exact (Option.some.inj read).symm

/-- The canonical bytes of a value's document. -/
def dump (codec : Codec α) (value : α) : Bytes := (codec.document value).canonical

/-- Validation of JSON text. -/
def validateJson (codec : Codec α) (data : Bytes) : Option α :=
  (Json.loads data).bind codec.validate

theorem validateJson_canonical (codec : Codec α) {value : Json} (formed : value.normal = true) :
    codec.validateJson value.canonical = codec.validate value := by
  rw [validateJson, Json.loads_canonical formed, Option.bind_some]

theorem validateJson_dump (codec : Codec α) (value : α) :
    codec.validateJson (codec.dump value) = some value := by
  rw [dump, validateJson_canonical _ (codec.normal value), codec.validate_document]

theorem dump_injective (codec : Codec α) : Function.Injective codec.dump := by
  intro first second same
  exact codec.document_injective
    (Json.canonical_injective (codec.normal first) (codec.normal second) same)

def string : Codec String where
  document := .str
  validate
    | .str text => some text
    | _ => none
  normal _ := rfl
  validate_document _ := rfl

def integer : Codec Int where
  document := .int
  validate
    | .int value => some value
    | _ => none
  normal _ := rfl
  validate_document _ := rfl

/-- Integers that are not negative. -/
def natural : Codec Nat where
  document value := .int value
  validate
    | .int (.ofNat value) => some value
    | _ => none
  normal _ := rfl
  validate_document _ := rfl

def boolean : Codec Bool where
  document := .bool
  validate
    | .bool value => some value
    | _ => none
  normal _ := rfl
  validate_document _ := rfl

/-- Doubles; an integer literal is converted to the nearest one. -/
def number : Codec Binary64 where
  document := .float
  validate
    | .float value => some value
    | .int value => Binary64.ofInt value
    | _ => none
  normal _ := rfl
  validate_document _ := rfl

def validateNullable (validate : Json → Option α) : Json → Option (Option α)
  | .null => some none
  | json => (validate json).map some

theorem validateNullable_of_some {validate : Json → Option α} (refuses : validate .null = none)
    {json : Json} {value : α} (read : validate json = some value) :
    validateNullable validate json = some (some value) := by
  cases json with
  | null => rw [refuses] at read; cases read
  | _ => simp [validateNullable, read]

/-- A value or `null`. -/
def nullable (codec : Codec α) (refuses : codec.validate .null = none) : Codec (Option α) where
  document
    | none => .null
    | some value => codec.document value
  validate := validateNullable codec.validate
  normal
    | none => rfl
    | some value => codec.normal value
  validate_document
    | none => rfl
    | some value => validateNullable_of_some refuses (codec.validate_document value)

def validateAll (validate : Json → Option α) : List Json → Option (List α)
  | [] => some []
  | item :: rest => do
      let value ← validate item
      let values ← validateAll validate rest
      some (value :: values)

theorem validateAll_map (codec : Codec α) (values : List α) :
    validateAll codec.validate (values.map codec.document) = some values := by
  induction values with
  | nil => rfl
  | cons value rest ih => simp [validateAll, codec.validate_document, ih]

/-- A homogeneous tuple. -/
def tuple (codec : Codec α) : Codec (List α) where
  document values := .arr (values.map codec.document)
  validate
    | .arr items => validateAll codec.validate items
    | _ => none
  normal values := by
    simp only [Json.normal, Json.normalItems_iff, List.mem_map]
    rintro item ⟨value, _, rfl⟩
    exact codec.normal value
  validate_document values := validateAll_map codec values

/-- Values of `α` stored as values of `β`; `make` is the constructor with its checks. -/
def view (codec : Codec β) (get : α → β) (make : β → Option α)
    (make_get : ∀ value, make (get value) = some value) : Codec α where
  document value := codec.document (get value)
  validate json := (codec.validate json).bind make
  normal value := codec.normal (get value)
  validate_document value := by simp [codec.validate_document, make_get]

def check (test : α → Bool) (value : α) : Option {value : α // test value = true} :=
  if passed : test value = true then some ⟨value, passed⟩ else none

theorem check_val (test : α → Bool) (value : {value : α // test value = true}) :
    check test value.val = some value := by simp [check, value.property]

/-- The values that pass a test. -/
def refine (codec : Codec α) (test : α → Bool) : Codec {value : α // test value = true} :=
  codec.view Subtype.val (check test) (check_val test)

end Codec

/-- Counts between two bounds, both included. -/
abbrev Bounded (low high : Nat) := {count : Nat // (low ≤ count && count ≤ high) = true}

def Bounded.codec (low high : Nat) : Codec (Bounded low high) :=
  Codec.natural.refine fun count => low ≤ count && count ≤ high

theorem Bounded.low_le {low high : Nat} (count : Bounded low high) : low ≤ count.val := by
  have bounds := count.property
  simp only [Bool.and_eq_true, decide_eq_true_eq] at bounds
  exact bounds.1

theorem Bounded.le_high {low high : Nat} (count : Bounded low high) : count.val ≤ high := by
  have bounds := count.property
  simp only [Bool.and_eq_true, decide_eq_true_eq] at bounds
  exact bounds.2

/-- The named members of a model. -/
structure Fields (α : Type) where
  keys : List String
  members : α → Json.Members
  read : (String → Option Json) → Option α
  members_keys : ∀ value, (members value).map Prod.fst = keys
  normal : ∀ value, ∀ member ∈ members value, member.2.normal = true
  read_members : ∀ value (lookup : String → Option Json),
    (∀ member ∈ members value, lookup member.1 = some member.2) → read lookup = some value

namespace Fields

variable {α β : Type}

/-- A required member. -/
def field (key : String) (codec : Codec α) : Fields α where
  keys := [key]
  members value := [(key, codec.document value)]
  read lookup := (lookup key).bind codec.validate
  members_keys _ := rfl
  normal value := by simpa using codec.normal value
  read_members value lookup found := by
    simp [found (key, codec.document value) (by simp), codec.validate_document]

/-- A member that may be missing from the input and is always dumped. -/
def fieldOr (key : String) (codec : Codec α) (default : α) : Fields α where
  keys := [key]
  members value := [(key, codec.document value)]
  read lookup :=
    match lookup key with
    | none => some default
    | some json => codec.validate json
  members_keys _ := rfl
  normal value := by simpa using codec.normal value
  read_members value lookup found := by
    simp [found (key, codec.document value) (by simp), codec.validate_document]

def and (first : Fields α) (second : Fields β) : Fields (α × β) where
  keys := first.keys ++ second.keys
  members value := first.members value.1 ++ second.members value.2
  read lookup := do
    let left ← first.read lookup
    let right ← second.read lookup
    some (left, right)
  members_keys value := by simp [first.members_keys, second.members_keys]
  normal value member found := by
    rcases List.mem_append.mp found with left | right
    · exact first.normal value.1 member left
    · exact second.normal value.2 member right
  read_members value lookup found := by
    have left := first.read_members value.1 lookup fun member here =>
      found member (List.mem_append_left _ here)
    have right := second.read_members value.2 lookup fun member here =>
      found member (List.mem_append_right _ here)
    simp [left, right]

def view (fields : Fields β) (get : α → β) (make : β → Option α)
    (make_get : ∀ value, make (get value) = some value) : Fields α where
  keys := fields.keys
  members value := fields.members (get value)
  read lookup := (fields.read lookup).bind make
  members_keys value := fields.members_keys (get value)
  normal value := fields.normal (get value)
  read_members value lookup found := by
    simp [fields.read_members (get value) lookup found, make_get]

@[simp] theorem field_members (key : String) (codec : Codec α) (value : α) :
    (field key codec).members value = [(key, codec.document value)] := rfl

@[simp] theorem fieldOr_members (key : String) (codec : Codec α) (default value : α) :
    (fieldOr key codec default).members value = [(key, codec.document value)] := rfl

@[simp] theorem field_read (key : String) (codec : Codec α) (lookup : String → Option Json) :
    (field key codec).read lookup = (lookup key).bind codec.validate := rfl

@[simp] theorem and_members (first : Fields α) (second : Fields β) (value : α × β) :
    (first.and second).members value = first.members value.1 ++ second.members value.2 := rfl

@[simp] theorem and_read (first : Fields α) (second : Fields β) (lookup : String → Option Json) :
    (first.and second).read lookup = (first.read lookup).bind fun left =>
      (second.read lookup).bind fun right => some (left, right) := rfl

@[simp] theorem view_members (fields : Fields β) (get : α → β) (make : β → Option α)
    (make_get : ∀ value, make (get value) = some value) (value : α) :
    (fields.view get make make_get).members value = fields.members (get value) := rfl

@[simp] theorem view_read (fields : Fields β) (get : α → β) (make : β → Option α)
    (make_get : ∀ value, make (get value) = some value) (lookup : String → Option Json) :
    (fields.view get make make_get).read lookup = (fields.read lookup).bind make := rfl

/-- Read a value's members again with some of them replaced. -/
def updated (fields : Fields α) (value : α) (changes : Json.Members) : Option α :=
  fields.read fun key => (changes.lookup key).or ((fields.members value).lookup key)

theorem updated_eq_some (fields : Fields α) {value new : α} {changes : Json.Members}
    (agree : ∀ member ∈ fields.members new,
      (changes.lookup member.1).or ((fields.members value).lookup member.1) = some member.2) :
    fields.updated value changes = some new :=
  fields.read_members new _ agree

/-- The model with these members and no others. -/
def codec (fields : Fields α) (distinct : fields.keys.Nodup) : Codec α where
  document value := Json.dict (fields.members value)
  validate
    | .obj members =>
        if members.all (fun member => fields.keys.contains member.1) then
          fields.read fun key => members.lookup key
        else none
    | _ => none
  normal value :=
    Json.normal_dict (by rw [fields.members_keys]; exact distinct) (fields.normal value)
  validate_document value := by
    have unique : ((fields.members value).map Prod.fst).Nodup := by
      rw [fields.members_keys]; exact distinct
    have known : (Json.sortMembers (fields.members value)).all
        (fun member => fields.keys.contains member.1) = true := by
      rw [List.all_eq_true]
      intro member found
      have original := (Json.sortMembers_perm _).subset found
      rw [List.contains_iff_mem, ← fields.members_keys value]
      exact List.mem_map_of_mem original
    simp only [Json.dict, known, ↓reduceIte]
    exact fields.read_members value _ fun member found => Json.lookup_sortMembers unique found

end Fields
