import FeatureRl.Lib.Ascii
import FeatureRl.Lib.Checked
import FeatureRl.Lib.Gather
import FeatureRl.Lib.JsonPlaces
import FeatureRl.Lib.JsonSize
import FeatureRl.Lib.Paths

/-!
The readable request document: metadata as one JSON text, and every prose field once as raw UTF-8 behind its length.
-/

namespace FeatureRl

open Checked

namespace RequestDocument

/-- Python's exceptions, by class; the message where the source writes one. -/
inductive Raised where
  | value (message : String)
  | type
  | unicode
  | noAttribute
deriving DecidableEq

def reject {α : Type} (message : String) : Except Raised α := .error (.value message)

structure Url where
  scheme : String
  netloc : String
  username : Option String
  password : Option String

/-- What the standard library supplies: `urlsplit`, and for a timestamp that `fromisoformat` reads its offset from UTC,
where it has one. -/
structure Library where
  urlsplit : String → Option Url
  utcOffset : List Char → Option (Option Int)

abbrev maxRequestBytes : Int := 1024 * 1024

def version : Bytes := Utf8.encode "authoring-request-readable-v1\n".toList

def provenance : List String := ["source_url", "source_response_sha256", "retrieved_at", "edit_history"]

def subjectFields : List String := provenance ++ ["number", "html_url", "title", "body", "state", "created_at",
  "updated_at", "merged_at", "merge_commit_sha", "user", "author_association", "labels"]

def discussionFields : List String := provenance ++ ["id", "html_url", "body", "user", "author_association", "state",
  "created_at", "updated_at", "submitted_at", "commit_id", "original_commit_id", "pull_request_review_id",
  "in_reply_to_id", "path", "line", "original_line", "start_line", "side", "start_side", "position",
  "original_position"]

def fileFields : List String := provenance ++ ["status", "previous_filename", "additions", "deletions", "changes",
  "renamed_to", "path", "category", "evidence_scope", "rationale"]

def commitFields : List String := provenance ++ ["sha", "message", "parents", "authored_at", "committed_at"]

def subjects : List String := ["pull_request", "issue"]

def discussions : List String := ["comments", "pr_comments", "reviews", "review_comments"]

def required : List String :=
  ["provenance_label", "admissible_cutoff", "pull_request", "issue"] ++ discussions ++ ["caveat", "changed_files"]

def has (members : Json.Members) (name : String) : Bool := name ∈ members.map Prod.fst

def member (members : Json.Members) (name : String) : Json := (members.lookup name).getD .null

/-! ### Checks of the projection -/

def bound (maxBytes : Int) : Except Raised Unit :=
  refuse (¬ (1 ≤ maxBytes ∧ maxBytes ≤ maxRequestBytes)) (.value "invalid authoring request byte limit")

mutual

/-- Whether no value lies deeper than the nesting limit. -/
def jsonTypes (depth : Nat) : Json → Bool
  | .arr items => depth ≤ 64 && jsonTypesItems (depth + 1) items
  | .obj members => depth ≤ 64 && jsonTypesMembers (depth + 1) members
  | _ => depth ≤ 64

def jsonTypesItems (depth : Nat) : List Json → Bool
  | [] => true
  | item :: rest => jsonTypes depth item && jsonTypesItems depth rest

def jsonTypesMembers (depth : Nat) : Json.Members → Bool
  | [] => true
  | (_, value) :: rest => jsonTypes depth value && jsonTypesMembers depth rest

end

mutual

/-- Python writes and reads no integer of more than 4300 digits. -/
def printable : Json → Bool
  | .int number => number.natAbs < 10 ^ 4300
  | .arr items => printableItems items
  | .obj members => printableMembers members
  | _ => true

def printableItems : List Json → Bool
  | [] => true
  | item :: rest => printable item && printableItems rest

def printableMembers : Json.Members → Bool
  | [] => true
  | (_, value) :: rest => printable value && printableMembers rest

end

section

variable (library : Library)

def utc : Json → Except Raised Unit
  | .str text =>
      match library.utcOffset (text.toList.flatMap fun c => if c = 'Z' then "+00:00".toList else [c]) with
      | none => reject "authoring request timestamp must be a UTC string"
      | some offset => refuse (offset ≠ some 0) (.value "authoring request timestamp must use UTC")
  | _ => reject "authoring request timestamp must be a UTC string"

def sourceUrl : Json → Except Raised Unit
  | .str text =>
      match library.urlsplit text with
      | none => reject "Invalid URL"
      | some url =>
          refuse (url.scheme ≠ "https" ∨ url.netloc = "" ∨ (url.username.any (· ≠ "")) = true ∨
            (url.password.any (· ≠ "")) = true) (.value "authoring request source URL must be credential-free HTTPS")
  | _ => reject "authoring request source URL must be credential-free HTTPS"

def isDigest : Json → Bool
  | .str text => text.length = 64 && text.toList.all fun c => c.isDigit || ('a' ≤ c && c ≤ 'f')
  | _ => false

/-- `value in choices` for a set of strings: lists and dictionaries have no hash. -/
def among (choices : List String) : Json → Except Raised Bool
  | .str text => .ok (text ∈ choices)
  | .arr _ | .obj _ => .error .type
  | _ => .ok false

def integerOrNull : Json → Bool
  | .null | .int _ => true
  | _ => false

def textOrNull : Json → Bool
  | .null | .str _ => true
  | _ => false

def numericFields : List String := ["number", "id", "line", "original_line", "start_line", "position",
  "original_position", "additions", "deletions", "changes", "pull_request_review_id", "in_reply_to_id"]

def proseFields : List String := ["title", "body", "message", "rationale"]

def entry (allowed : List String) : Json → Except Raised Unit
  | .obj members => do
      refuse ((provenance.all (has members) && members.all (·.1 ∈ allowed)) = false)
        (.value "authoring request contains fields outside the permitted intake projection")
      sourceUrl library (member members "source_url")
      refuse (isDigest (member members "source_response_sha256") = false)
        (.value "authoring request requires its exact source response SHA-256")
      utc library (member members "retrieved_at")
      let known ← among ["available", "unavailable", "not_applicable"] (member members "edit_history")
      refuse (known = false) (.value "authoring request edit history is invalid")
      refuse ((numericFields.all fun name => (members.lookup name).all integerOrNull) = false)
        (.value "authoring request numeric metadata must retain integer types")
      refuse ((proseFields.all fun name => (members.lookup name).all textOrNull) = false)
        (.value "authoring request prose must be a string or null")
  | _ => reject "authoring request contains fields outside the permitted intake projection"

def collections : List String := discussions ++ ["changed_files", "commits"]

def allowedFields (name : String) : List String :=
  if name = "changed_files" then fileFields else if name = "commits" then commitFields else discussionFields

def collection (members : Json.Members) (name : String) : Except Raised Unit :=
  match members.lookup name with
  | none => .ok ()
  | some (.arr items) => checkAll (entry library (allowedFields name)) items
  | some _ => reject "authoring request evidence collections must be arrays"

def subject (members : Json.Members) (name : String) : Except Raised Unit :=
  match member members name with
  | .null => .ok ()
  | value => entry library subjectFields value

def historyFields : List String := ["baseline_commit", "reference_commit", "patch_sha256", "integration"]

def historyFormed (members : Json.Members) : Bool :=
  match members.lookup "history" with
  | none => true
  | some (.obj history) => historyFields.all (has history) && history.all (·.1 ∈ historyFields)
  | some _ => false

def validate (payload : Json) : Except Raised Json.Members := do
  refuse (jsonTypes 0 payload = false) (.value "authoring request metadata nesting limit")
  match payload with
  | .obj members => do
      refuse ((required.all (has members) && members.all (·.1 ∈ required ++ ["commits", "history"])) = false)
        (.value "authoring request projection has unknown or missing fields")
      let label ← among ["historical_request", "reconstructed_specification"] (member members "provenance_label")
      refuse (label = false) (.value "authoring request provenance label is invalid")
      match member members "caveat" with
      | .str caveat => do
          refuse (caveat = "") (.value "authoring request must retain its provenance caveat")
          utc library (member members "admissible_cutoff")
          checkAll (subject library members) subjects
          checkAll (collection library members) collections
          refuse (has members "commits" ≠ has members "history")
            (.value "authoring request commit metadata and history must remain paired")
          refuse (members.lookup "provenance_label" matches some (.str "historical_request") ∧
            has members "history" = true)
            (.value "historical authoring request cannot include implementation history")
          refuse (historyFormed members = false) (.value "authoring request history projection is invalid")
          return members
      | _ => reject "authoring request must retain its provenance caveat"
  | _ => reject "authoring request projection has unknown or missing fields"

end

/-! ### Prose locations -/

open Json (Place Members readAt writeAt textsAt blank fill Prose Apart)

def proseField (name : String) : String :=
  if name = "commits" then "message" else if name = "changed_files" then "rationale" else "body"

def stepText : Json.Step → List Char
  | .key name => name.toList
  | .index position => Nat.toDigits 10 position

def pathOf (place : Place) : List Char := '/' :: Paths.join (place.map stepText)

/-- The items of a `for` loop; a dictionary gives its keys and a string its characters. -/
def iterate : Json → Except Raised (List Json)
  | .arr items => .ok items
  | .obj members => .ok (members.map fun entry => .str entry.1)
  | .str text => .ok (text.toList.map fun c => .str (String.ofList [c]))
  | _ => .error .type

/-- `field in value`. -/
def contains (field : String) : Json → Except Raised Bool
  | .obj members => .ok (has members field)
  | .arr items => .ok (items.any fun item => match item with | .str text => decide (text = field) | _ => false)
  | .str text => .ok (text.toList.tails.any field.toList.isPrefixOf)
  | _ => .error .type

def subjectPlaces (members : Members) (name : String) : List Place :=
  match members.lookup name with
  | some (.obj value) => (["title", "body"].filter (has value)).map fun field => [.key name, .key field]
  | _ => []

def entryPlaces (name : String) (indexed : Json × Nat) : Except Raised (List Place) :=
  match contains (proseField name) indexed.1 with
  | .error raised => .error raised
  | .ok found => .ok (if found then [[.key name, .index indexed.2, .key (proseField name)]] else [])

def collectionPlaces (members : Members) (name : String) : Except Raised (List Place) :=
  match members.lookup name with
  | none => .ok []
  | some value => do
      let items ← iterate value
      let found ← mapAll (entryPlaces name) items.zipIdx
      return found.flatten

def gathered : List String := discussions ++ ["commits", "changed_files"]

/-- The admitted prose locations, by name and position. -/
def locations (members : Members) : Except Raised (List Place) := do
  let found ← mapAll (collectionPlaces members) gathered
  return [.key "caveat"] :: (subjects.flatMap (subjectPlaces members) ++ found.flatten)

/-! ### Rendering -/

def marker : Bytes := Utf8.encode " UTF8-Bytes: ".toList

def headed (label : List Char) (content : Bytes) : Bytes :=
  Utf8.encode label ++ marker ++ Utf8.encode (Nat.toDigits 10 content.length) ++ 10 :: (content ++ [10])

def textLabel (path : List Char) : List Char := "Text ".toList ++ path

/-- Each text is replaced by null once it is taken. -/
def takeTexts : List Place → Json → Except Raised (List (Place × String) × Json)
  | [], metadata => .ok ([], metadata)
  | place :: rest, metadata =>
      match readAt place metadata with
      | some .null => takeTexts rest metadata
      | some (.str text) =>
          match takeTexts rest (writeAt place .null metadata) with
          | .error raised => .error raised
          | .ok (texts, stripped) => .ok ((place, text) :: texts, stripped)
      | some _ => .error .noAttribute
      | none => .error .type

def headerOf (metadata : Json) (paths : List Place) : Json :=
  .obj [("metadata", metadata), ("text_paths", .arr (paths.map fun place => .str (String.ofList (pathOf place))))]

def document (metadata : Json) (texts : List (Place × String)) : Bytes :=
  version ++ headed "Metadata".toList (headerOf metadata (texts.map Prod.fst)).canonical ++
    texts.flatMap fun entry => headed (textLabel (pathOf entry.1)) (Utf8.encode entry.2.toList)

section

variable (library : Library)

def renderAuthoringRequest (maxBytes : Int) (payload : Json) : Except Raised Bytes := do
  bound maxBytes
  let members ← validate library payload
  refuse (printable payload = false) (.value "Exceeds the limit for integer string conversion")
  refuse (maxBytes < payload.canonical.length) (.value "authoring request exceeds byte limit")
  let places ← locations members
  let (texts, metadata) ← takeTexts places payload
  refuse (maxBytes < (document metadata texts).length) (.value "authoring request exceeds byte limit")
  return document metadata texts

/-! ### Parsing -/

/-- `re.fullmatch(b'0|[1-9][0-9]{0,6}', field)` and its number. -/
def readLength (field : Bytes) : Option Nat :=
  let digits := field.map fun byte => Char.ofNat byte.toNat
  if digits = ['0'] ∨
      (digits ≠ [] ∧ digits.head? ≠ some '0' ∧ digits.length ≤ 7 ∧ (digits.all Char.isDigit) = true) then
    some (Nat.ofDigitChars 10 digits 0)
  else none

/-- The line up to a line feed among the first 256 bytes, and what follows it. -/
def headerLine (rest : Bytes) : Bytes × Bytes :=
  let front := rest.take 256
  let line := front.takeWhile (· ≠ 10)
  if line.length < front.length then (line, rest.drop (line.length + 1)) else ([], rest)

def block (label : List Char) (rest : Bytes) : Except Raised (Bytes × Bytes) :=
  let (line, after) := headerLine rest
  match ((Utf8.encode label ++ marker).isPrefixOf? line).bind readLength with
  | none => reject "malformed authoring request section header"
  | some length =>
      if after[length]? = some 10 then .ok (after.take length, after.drop (length + 1))
      else reject "truncated authoring request section"

def putTexts (places : List Place) : List (List Char) → Json → Bytes → Except Raised (Json × Bytes)
  | [], payload, rest => .ok (payload, rest)
  | path :: more, payload, rest =>
      match places.find? fun place => pathOf place = path with
      | none => reject "authoring request text is outside permitted prose locations"
      | some place =>
          match readAt place payload with
          | none => .error .type
          | some .null => do
              let (content, after) ← block (textLabel path) rest
              let text ← require (Utf8.decode content) .unicode
              putTexts places more (writeAt place (.str (String.ofList text)) payload) after
          | some _ => reject "authoring request duplicates prose in its metadata"

def text? : Json → Option (List Char)
  | .str text => some text.toList
  | _ => none

/-- The metadata and the paths of a header. -/
def readHeader : Option Json → Except Raised (Json × List (List Char))
  | none => reject "Expecting value"
  | some (.obj members) =>
      if members.length = 2 ∧ has members "metadata" = true ∧ has members "text_paths" = true then
        match member members "metadata", member members "text_paths" with
        | .obj payload, .arr items =>
            match items.mapM text? with
            | none => reject "invalid authoring request prose locations"
            | some paths =>
                if paths.Nodup then .ok (.obj payload, paths)
                else reject "invalid authoring request prose locations"
        | _, _ => reject "invalid authoring request prose locations"
      else reject "invalid authoring request metadata header"
  | some _ => reject "invalid authoring request metadata header"

def membersOf : Json → Members
  | .obj members => members
  | _ => []

def readDocument (maxBytes : Int) (data : Bytes) : Except Raised Json := do
  let (header, rest) ← block "Metadata".toList (data.drop version.length)
  let (metadata, paths) ← readHeader (Json.loads header)
  let places ← locations (membersOf metadata)
  let (payload, left) ← putTexts places paths metadata rest
  refuse (left ≠ []) (.value "authoring request document is not canonical or has trailing bytes")
  let again ← renderAuthoringRequest library maxBytes payload
  refuse (again ≠ data) (.value "authoring request document is not canonical or has trailing bytes")
  return payload

/-- The exceptions that the parser catches become a `ValueError`; the others pass. -/
def caught {α : Type} : Except Raised α → Except Raised α
  | .error .type | .error .unicode => reject "malformed authoring request document"
  | outcome => outcome

def parseAuthoringRequest (maxBytes : Int) (data : Bytes) : Except Raised Json := do
  bound maxBytes
  refuse (maxBytes < data.length) (.value "authoring request exceeds byte limit or is not bytes")
  refuse (version.isPrefixOf data = false) (.value "unsupported authoring request document version")
  caught (readDocument library maxBytes data)

def isRanked (place : Place) : Bool := place.getLast? = some (.key "title") || place.getLast? = some (.key "body")

def rankingTexts : List Place → Json → Except Raised (List String)
  | [], _ => .ok []
  | place :: rest, payload =>
      if isRanked place then
        match readAt place payload with
        | some .null => rankingTexts rest payload
        | some (.str text) => do
            let texts ← rankingTexts rest payload
            return text :: texts
        | _ => .error .type
      else rankingTexts rest payload

def requestRankingProse (maxBytes : Int) (data : Bytes) : Except Raised String := do
  let payload ← parseAuthoringRequest library maxBytes data
  let places ← locations (membersOf payload)
  let texts ← rankingTexts places payload
  return "\n".intercalate texts

end

/-! ### Prose locations of a regular projection -/

open Json (setAt modifyAt Apart lookup_setAt lookup_setAt_ne keys_setAt)

/-- The shapes of the prose locations. -/
inductive Located : Place → Prop where
  | caveat : Located [.key "caveat"]
  | subject {name field : String} (named : name ∈ subjects) (prose : field ∈ ["title", "body"]) :
      Located [.key name, .key field]
  | entry {name : String} (named : name ∈ gathered) (position : Nat) :
      Located [.key name, .index position, .key (proseField name)]

theorem subject_ne {name : String} (named : name ∈ subjects) : name ≠ "caveat" ∧ name ∉ gathered := by
  have each : ∀ name ∈ subjects, name ≠ "caveat" ∧ name ∉ gathered := by decide
  exact each name named

theorem gathered_ne {name : String} (named : name ∈ gathered) : name ≠ "caveat" ∧ name ∉ subjects := by
  have each : ∀ name ∈ gathered, name ≠ "caveat" ∧ name ∉ subjects := by decide
  exact each name named

theorem Located.apart {place other : Place} (one : Located place) (two : Located other) (different : place ≠ other) :
    Apart place other := by
  cases one with
  | caveat =>
      cases two with
      | caveat => exact absurd rfl different
      | subject named => exact .inl fun same => (subject_ne named).1 (Json.Step.key.inj same).symm
      | entry named => exact .inl fun same => (gathered_ne named).1 (Json.Step.key.inj same).symm
  | @subject name field named =>
      cases two with
      | caveat => exact .inl fun same => (subject_ne named).1 (Json.Step.key.inj same)
      | @subject again turn =>
          by_cases same : name = again
          · subst same
            exact .inr (.inl fun equal => different (by rw [equal]))
          · exact .inl fun equal => same (Json.Step.key.inj equal)
      | entry other => exact .inl fun same => (gathered_ne other).2 (Json.Step.key.inj same ▸ named)
  | @entry name named position =>
      cases two with
      | caveat => exact .inl fun same => (gathered_ne named).1 (Json.Step.key.inj same)
      | subject other => exact .inl fun same => (gathered_ne named).2 (Json.Step.key.inj same ▸ other)
      | @entry again _ turn =>
          by_cases same : name = again
          · subst same
            exact .inr (.inl fun equal => different (by rw [equal]))
          · exact .inl fun equal => same (Json.Step.key.inj equal)

def fieldIn (field : String) : Json → Bool
  | .obj members => has members field
  | _ => false

def entryPlace (name : String) (indexed : Json × Nat) : List Place :=
  if fieldIn (proseField name) indexed.1 then [[.key name, .index indexed.2, .key (proseField name)]] else []

def listedPlaces (members : Members) (name : String) : List Place :=
  match members.lookup name with
  | some (.arr items) => items.zipIdx.flatMap (entryPlace name)
  | _ => []

/-- The prose locations where every collection is an array of dictionaries. -/
def placesOf (members : Members) : List Place :=
  [.key "caveat"] :: (subjects.flatMap (subjectPlaces members) ++ gathered.flatMap (listedPlaces members))

def Regular (members : Members) : Prop :=
  ∀ name ∈ gathered, members.lookup name = none ∨
    ∃ items, members.lookup name = some (.arr items) ∧ ∀ item ∈ items, ∃ value, item = .obj value

theorem locations_regular {members : Members} (regular : Regular members) :
    locations members = .ok (placesOf members) := by
  have each : ∀ name ∈ gathered, collectionPlaces members name = .ok (listedPlaces members name) := by
    intro name named
    rw [collectionPlaces, listedPlaces]
    rcases regular name named with absent | ⟨items, found, objects⟩
    · rw [absent]
    · rw [found]
      have entries : ∀ indexed ∈ items.zipIdx, entryPlaces name indexed = .ok (entryPlace name indexed) := by
        rintro ⟨item, position⟩ listed
        obtain ⟨value, rfl⟩ := objects item (List.fst_mem_of_mem_zipIdx listed)
        rfl
      change (mapAll (entryPlaces name) items.zipIdx >>= fun found => .ok found.flatten) = _
      rw [mapAll_eq_ok entries]
      exact congrArg Except.ok List.flatMap_def.symm
  rw [locations, mapAll_eq_ok each, placesOf, List.flatMap_def (l := gathered)]
  rfl

theorem mem_subjectPlaces {members : Members} {name : String} {place : Place} :
    place ∈ subjectPlaces members name ↔ ∃ value, members.lookup name = some (.obj value) ∧
      ∃ field ∈ ["title", "body"], has value field = true ∧ place = [.key name, .key field] := by
  rw [subjectPlaces]
  split
  next value found =>
    simp only [List.mem_map, List.mem_filter]
    constructor
    · rintro ⟨field, ⟨listed, held⟩, rfl⟩
      exact ⟨value, found, field, listed, held, rfl⟩
    · rintro ⟨other, again, field, listed, held, rfl⟩
      rw [found] at again
      obtain rfl := Json.obj.inj (Option.some.inj again)
      exact ⟨field, ⟨listed, held⟩, rfl⟩
  next other =>
    constructor
    · intro none
      cases none
    · rintro ⟨value, found, -⟩
      exact absurd found (other value)

theorem mem_listedPlaces {members : Members} {name : String} {place : Place} :
    place ∈ listedPlaces members name ↔ ∃ items, members.lookup name = some (.arr items) ∧ ∃ position value,
      items[position]? = some (.obj value) ∧ has value (proseField name) = true ∧
        place = [.key name, .index position, .key (proseField name)] := by
  rw [listedPlaces]
  split
  next items found =>
    rw [List.mem_flatMap]
    constructor
    · rintro ⟨⟨item, position⟩, listed, member⟩
      rw [List.mem_zipIdx_iff_getElem?] at listed
      rw [entryPlace] at member
      split at member
      next held =>
        cases item with
        | obj value => exact ⟨items, found, position, value, listed, held, List.mem_singleton.mp member⟩
        | _ => cases held
      next => cases member
    · rintro ⟨other, again, position, value, listed, held, rfl⟩
      rw [found] at again
      obtain rfl := Json.arr.inj (Option.some.inj again)
      refine ⟨(.obj value, position), List.mem_zipIdx_iff_getElem?.mpr listed, ?_⟩
      rw [entryPlace, if_pos (show fieldIn (proseField name) (.obj value) = true from held)]
      exact List.mem_singleton_self _
  next other =>
    constructor
    · intro none
      cases none
    · rintro ⟨items, found, -⟩
      exact absurd found (other items)

theorem located_of_mem {members : Members} {place : Place} (member : place ∈ placesOf members) : Located place := by
  rcases List.mem_cons.mp member with rfl | later
  · exact .caveat
  · rcases List.mem_append.mp later with first | second
    · obtain ⟨name, named, inside⟩ := List.mem_flatMap.mp first
      obtain ⟨value, -, field, listed, -, rfl⟩ := mem_subjectPlaces.mp inside
      exact .subject named listed
    · obtain ⟨name, named, inside⟩ := List.mem_flatMap.mp second
      obtain ⟨items, -, position, value, -, -, rfl⟩ := mem_listedPlaces.mp inside
      exact .entry named position

theorem head_subjectPlaces {members : Members} {name : String} {place : Place}
    (member : place ∈ subjectPlaces members name) : place.head? = some (.key name) := by
  obtain ⟨_, -, _, -, -, rfl⟩ := mem_subjectPlaces.mp member
  rfl

theorem head_listedPlaces {members : Members} {name : String} {place : Place}
    (member : place ∈ listedPlaces members name) : place.head? = some (.key name) := by
  obtain ⟨_, -, _, _, -, -, rfl⟩ := mem_listedPlaces.mp member
  rfl

theorem nodup_named {names : List String} (distinct : names.Nodup) {places : String → List Place}
    (each : ∀ name ∈ names, (places name).Nodup)
    (heads : ∀ name place, place ∈ places name → place.head? = some (.key name)) : (names.flatMap places).Nodup := by
  rw [List.nodup_flatMap]
  refine ⟨each, distinct.imp fun {one two} different place first second => different ?_⟩
  have same := (heads one place first).symm.trans (heads two place second)
  exact Json.Step.key.inj (Option.some.inj same)

theorem nodup_placesOf (members : Members) : (placesOf members).Nodup := by
  have first : (subjects.flatMap (subjectPlaces members)).Nodup := by
    refine nodup_named (by decide) (fun name _ => ?_) fun _ _ => head_subjectPlaces
    rw [subjectPlaces]
    split
    next =>
      refine List.Nodup.map (fun one two same => ?_) (List.Nodup.filter _ (by decide))
      simpa using same
    next => exact List.nodup_nil
  have second : (gathered.flatMap (listedPlaces members)).Nodup := by
    refine nodup_named (by decide) (fun name _ => ?_) fun _ _ => head_listedPlaces
    rw [listedPlaces]
    split
    next items _ =>
      rw [List.nodup_flatMap]
      constructor
      · intro indexed _
        rw [entryPlace]
        split <;> simp
      · have places : (items.zipIdx.map Prod.snd).Nodup := by
          rw [List.zipIdx_map_snd]
          exact List.nodup_range'
        refine (List.pairwise_map.mp places).imp fun {one two} different place left right => different ?_
        rw [entryPlace] at left right
        split at left <;> split at right <;> simp_all
    next => exact List.nodup_nil
  refine List.nodup_cons.mpr ⟨fun member => ?_, List.nodup_append.mpr ⟨first, second, ?_⟩⟩
  · rcases List.mem_append.mp member with inside | inside
    · obtain ⟨name, named, place⟩ := List.mem_flatMap.mp inside
      cases head_subjectPlaces place
      exact (subject_ne named).1 rfl
    · obtain ⟨name, named, place⟩ := List.mem_flatMap.mp inside
      cases head_listedPlaces place
      exact (gathered_ne named).1 rfl
  · intro one inside two other same
    subst same
    obtain ⟨name, named, place⟩ := List.mem_flatMap.mp inside
    obtain ⟨again, listed, turn⟩ := List.mem_flatMap.mp other
    have equal := (head_subjectPlaces place).symm.trans (head_listedPlaces turn)
    obtain rfl := Json.Step.key.inj (Option.some.inj equal)
    exact (subject_ne named).2 listed

theorem apart_placesOf (members : Members) : (placesOf members).Pairwise Apart :=
  (nodup_placesOf members).imp_of_mem fun one two different =>
    (located_of_mem one).apart (located_of_mem two) different

/-! ### Rewriting prose keeps the locations -/

theorem has_setAt (key : String) (change : Json → Json) (members : Members) (name : String) :
    has (setAt key change members) name = has members name := by
  rw [has, has, keys_setAt]

/-- What a rewriting at a prose location does to the members. -/
theorem lookup_modifyAt {place : Place} (located : Located place) (change : Json → Json) (members : Members)
    {name : String} (other : name ≠ "caveat") :
    ∃ inner, (membersOf (modifyAt place change (.obj members))).lookup name = (members.lookup name).map inner ∧
      (inner = id ∨ (∃ field, name ∈ subjects ∧ inner = modifyAt [.key field] change) ∨
        ∃ position, name ∈ gathered ∧ inner = modifyAt [.index position, .key (proseField name)] change) := by
  cases located with
  | caveat =>
      refine ⟨id, ?_, .inl rfl⟩
      rw [Option.map_id, id]
      exact lookup_setAt_ne other _ members
  | @subject turn field named =>
      by_cases same : name = turn
      · subst same
        exact ⟨modifyAt [.key field] change, lookup_setAt _ _ members, .inr (.inl ⟨field, named, rfl⟩)⟩
      · refine ⟨id, ?_, .inl rfl⟩
        rw [Option.map_id, id]
        exact lookup_setAt_ne same _ members
  | @entry turn named position =>
      by_cases same : name = turn
      · subst same
        exact ⟨modifyAt [.index position, .key (proseField name)] change, lookup_setAt _ _ members,
          .inr (.inr ⟨position, named, rfl⟩)⟩
      · refine ⟨id, ?_, .inl rfl⟩
        rw [Option.map_id, id]
        exact lookup_setAt_ne same _ members

theorem subjectPlaces_modify {place : Place} (located : Located place) (change : Json → Json) (members : Members)
    {name : String} (named : name ∈ subjects) :
    subjectPlaces (membersOf (modifyAt place change (.obj members))) name = subjectPlaces members name := by
  obtain ⟨inner, after, kind⟩ := lookup_modifyAt located change members (subject_ne named).1
  rw [subjectPlaces, subjectPlaces, after]
  rcases kind with rfl | ⟨field, -, rfl⟩ | ⟨position, listed, -⟩
  · rw [Option.map_id, id]
  · cases members.lookup name with
    | none => rfl
    | some value =>
        cases value with
        | obj value =>
            have same : has (setAt field (modifyAt [] change) value) = has value :=
              funext fun name => has_setAt _ _ value name
            change ((["title", "body"].filter (has (setAt field (modifyAt [] change) value))).map _) = _
            rw [same]
        | _ => rfl
  · exact absurd listed (subject_ne named).2

theorem fieldIn_modify (key field : String) (change : Json → Json) (item : Json) :
    fieldIn field (modifyAt [.key key] change item) = fieldIn field item := by
  cases item with
  | obj members => exact has_setAt _ _ members field
  | _ => rfl

theorem listedPlaces_modify {place : Place} (located : Located place) (change : Json → Json) (members : Members)
    {name : String} (named : name ∈ gathered) :
    listedPlaces (membersOf (modifyAt place change (.obj members))) name = listedPlaces members name := by
  obtain ⟨inner, after, kind⟩ := lookup_modifyAt located change members (gathered_ne named).1
  rw [listedPlaces, listedPlaces, after]
  rcases kind with rfl | ⟨field, listed, -⟩ | ⟨position, -, rfl⟩
  · rw [Option.map_id, id]
  · exact absurd listed (gathered_ne named).2
  · cases members.lookup name with
    | none => rfl
    | some value =>
        cases value with
        | arr items =>
            change (items.modify position (modifyAt [.key (proseField name)] change)).zipIdx.flatMap _ =
              items.zipIdx.flatMap _
            rw [List.flatMap_def, List.flatMap_def]
            congr 1
            refine List.ext_getElem (by simp) fun index first second => ?_
            simp only [List.getElem_map, List.getElem_zipIdx, List.getElem_modify, entryPlace]
            split
            · rw [fieldIn_modify]
            · rfl
        | _ => rfl

theorem placesOf_modify {place : Place} (located : Located place) (change : Json → Json) (members : Members) :
    placesOf (membersOf (modifyAt place change (.obj members))) = placesOf members := by
  rw [placesOf, placesOf, List.flatMap_congr fun name named => subjectPlaces_modify located change members named,
    List.flatMap_congr fun name named => listedPlaces_modify located change members named]

theorem regular_modify {place : Place} (located : Located place) (change : Json → Json) {members : Members}
    (regular : Regular members) : Regular (membersOf (modifyAt place change (.obj members))) := by
  intro name named
  obtain ⟨inner, after, kind⟩ := lookup_modifyAt located change members (gathered_ne named).1
  rw [after]
  rcases regular name named with absent | ⟨items, found, objects⟩
  · exact .inl (by rw [absent]; rfl)
  · refine .inr ?_
    rw [found, Option.map_some]
    rcases kind with rfl | ⟨field, listed, -⟩ | ⟨position, -, rfl⟩
    · exact ⟨items, rfl, objects⟩
    · exact absurd listed (gathered_ne named).2
    · refine ⟨_, rfl, fun item member => ?_⟩
      obtain ⟨index, inside, rfl⟩ := List.mem_iff_getElem.mp member
      rw [List.length_modify] at inside
      obtain ⟨value, shape⟩ := objects _ (List.getElem_mem inside)
      rw [List.getElem_modify, shape]
      split
      · exact ⟨_, rfl⟩
      · exact ⟨_, rfl⟩

theorem modifyAt_obj {place : Place} (located : Located place) (change : Json → Json) (members : Members) :
    modifyAt place change (.obj members) = .obj (membersOf (modifyAt place change (.obj members))) := by
  cases located <;> rfl

/-- The metadata without its prose has the same locations. -/
theorem blank_regular {places : List Place} (located : ∀ place ∈ places, Located place) {members : Members}
    (regular : Regular members) : ∃ stripped, blank places (.obj members) = .obj stripped ∧ Regular stripped ∧
      placesOf stripped = placesOf members := by
  induction places generalizing members with
  | nil => exact ⟨members, rfl, regular, rfl⟩
  | cons place rest ih =>
      rw [List.forall_mem_cons] at located
      have kept := regular_modify located.1 (fun _ => Json.null) regular
      obtain ⟨stripped, same, shape, places⟩ := ih located.2 kept
      refine ⟨stripped, ?_, shape, places.trans (placesOf_modify located.1 _ members)⟩
      rw [← same, ← modifyAt_obj located.1]
      rfl

/-! ### What validation establishes -/

def TextOrNull (value : Json) : Prop := value = .null ∨ ∃ text, value = .str text

theorem textOrNull_iff {value : Json} : textOrNull value = true ↔ TextOrNull value := by
  cases value <;> simp [textOrNull, TextOrNull]

/-- The prose fields of an entry hold a text or null. -/
def EntryProse (members : Members) : Prop :=
  ∀ name ∈ proseFields, ∀ value, members.lookup name = some value → TextOrNull value

structure Shaped (members : Members) : Prop where
  caveat : ∃ text, members.lookup "caveat" = some (.str text)
  subjects : ∀ name ∈ subjects, ∀ value, members.lookup name = some (.obj value) → EntryProse value
  gathered : ∀ name ∈ gathered, members.lookup name = none ∨ ∃ items, members.lookup name = some (.arr items) ∧
    ∀ item ∈ items, ∃ value, item = .obj value ∧ EntryProse value

theorem Shaped.regular {members : Members} (shaped : Shaped members) : Regular members := by
  intro name named
  refine (shaped.gathered name named).imp id ?_
  rintro ⟨items, found, objects⟩
  exact ⟨items, found, fun item member => (objects item member).imp fun _ both => both.1⟩

theorem entry_prose {library : Library} {allowed : List String} {value : Json}
    (passed : entry library allowed value = .ok ()) : ∃ members, value = .obj members ∧ EntryProse members := by
  cases value with
  | obj members =>
      simp only [entry, bind_eq_ok, refuse_eq_ok, Bool.not_eq_false] at passed
      obtain ⟨-, -, -, -, -, -, -, -, known, -, -, -, -, -, prose⟩ := passed
      refine ⟨members, rfl, fun name named value found => textOrNull_iff.mp ?_⟩
      have each := List.all_eq_true.mp prose name named
      rwa [found, Option.all_some] at each
  | _ => cases passed

theorem gathered_collections {name : String} (named : name ∈ gathered) : name ∈ collections := by
  have each : ∀ name ∈ gathered, name ∈ collections := by decide
  exact each name named

theorem validate_shaped {library : Library} {payload : Json} {members : Members}
    (passed : validate library payload = .ok members) : payload = .obj members ∧ Shaped members := by
  cases payload with
  | obj entries =>
      simp only [validate, bind_eq_ok] at passed
      obtain ⟨-, -, -, -, label, -, -, -, passed⟩ := passed
      cases caveat : member entries "caveat" with
      | str text =>
          rw [caveat] at passed
          simp only [bind_eq_ok, checkAll_eq_ok] at passed
          obtain ⟨-, -, -, -, -, subjects, -, collections, -, -, -, -, -, -, same⟩ := passed
          obtain rfl := Except.ok.inj same
          refine ⟨rfl, ?_, ?_, ?_⟩
          · refine ⟨text, ?_⟩
            rw [member] at caveat
            cases found : entries.lookup "caveat" with
            | none =>
                rw [found] at caveat
                cases caveat
            | some value =>
                rw [found] at caveat
                exact congrArg some caveat
          · intro name named value found
            have passed := subjects name named
            rw [subject, member, found] at passed
            obtain ⟨inner, same, prose⟩ := entry_prose passed
            obtain rfl := Json.obj.inj same
            exact prose
          · intro name named
            have passed := collections name (gathered_collections named)
            rw [collection] at passed
            split at passed
            next absent => exact .inl absent
            next items found =>
              exact .inr ⟨items, found, fun item among => entry_prose (checkAll_eq_ok.mp passed item among)⟩
            next => cases passed
      | _ =>
          rw [caveat] at passed
          cases passed
  | _ =>
      simp only [validate, bind_eq_ok] at passed
      obtain ⟨-, -, passed⟩ := passed
      cases passed

theorem lookup_of_has {members : Members} {name : String} (held : has members name = true) :
    ∃ value, members.lookup name = some value := by
  obtain ⟨⟨key, value⟩, inside, rfl⟩ := List.mem_map.mp (of_decide_eq_true held)
  cases found : members.lookup key with
  | some other => exact ⟨other, rfl⟩
  | none => exact absurd inside (by simpa using List.lookup_eq_none_iff.mp found (key, value))

theorem proseField_mem {name : String} (named : name ∈ gathered) : proseField name ∈ proseFields := by
  have each : ∀ name ∈ gathered, proseField name ∈ proseFields := by decide
  exact each name named

theorem Shaped.prose {members : Members} (shaped : Shaped members) {place : Place}
    (member : place ∈ placesOf members) : Prose (.obj members) place := by
  rcases List.mem_cons.mp member with rfl | later
  · obtain ⟨text, found⟩ := shaped.caveat
    exact .inr ⟨text, by simp [readAt, found]⟩
  · rcases List.mem_append.mp later with first | second
    · obtain ⟨name, named, inside⟩ := List.mem_flatMap.mp first
      obtain ⟨value, found, field, listed, held, rfl⟩ := mem_subjectPlaces.mp inside
      obtain ⟨text, inner⟩ := lookup_of_has held
      have allowed : field ∈ proseFields := by
        have each : ∀ field ∈ ["title", "body"], field ∈ proseFields := by decide
        exact each field listed
      have kinds := shaped.subjects name named value found field allowed text inner
      simpa [Prose, readAt, found, inner, TextOrNull] using kinds
    · obtain ⟨name, named, inside⟩ := List.mem_flatMap.mp second
      obtain ⟨items, found, position, value, item, held, rfl⟩ := mem_listedPlaces.mp inside
      obtain ⟨text, inner⟩ := lookup_of_has held
      rcases shaped.gathered name named with absent | ⟨others, again, objects⟩
      · rw [absent] at found
        cases found
      · rw [found] at again
        obtain rfl := Json.arr.inj (Option.some.inj again)
        obtain ⟨entry, same, prose⟩ := objects _ (List.mem_of_getElem? item)
        obtain rfl := Json.obj.inj same
        have kinds := prose _ (proseField_mem named) text inner
        simpa [Prose, readAt, found, item, inner, TextOrNull] using kinds

/-! ### Taking and putting texts -/

theorem takeTexts_eq_ok {places : List Place} {value : Json} (apart : places.Pairwise Apart)
    (prose : ∀ place ∈ places, Prose value place) :
    takeTexts places value = .ok (textsAt places value, blank places value) := by
  induction places generalizing value with
  | nil => rfl
  | cons place rest ih =>
      obtain ⟨here, later⟩ := List.pairwise_cons.mp apart
      obtain ⟨first, others⟩ := List.forall_mem_cons.mp prose
      have sides : ∀ other ∈ rest, Apart other place := fun other among => (here other among).symm
      rw [takeTexts]
      rcases first with empty | ⟨text, reads⟩
      · rw [empty]
        dsimp only
        rw [ih later others]
        have same : blank (place :: rest) value = blank rest value := by
          change blank rest (writeAt place .null value) = _
          rw [Json.writeAt_read empty]
        rw [same]
        simp [textsAt, empty]
      · rw [reads]
        dsimp only
        have kept : ∀ other ∈ rest, Prose (writeAt place .null value) other := fun other among =>
          (Prose.modify (sides other among) _).mpr (others other among)
        rw [ih later kept, writeAt, Json.textsAt_modify sides]
        have taken : textsAt (place :: rest) value = (place, text) :: textsAt rest value := by
          simp [textsAt, reads]
        rw [taken]
        rfl

/-! ### Sections -/

theorem encode_digits {digits : List Char} (ascii : ∀ c ∈ digits, c.toNat < 128) :
    (Utf8.encode digits).map (fun byte => Char.ofNat byte.toNat) = digits := by
  induction digits with
  | nil => rfl
  | cons c rest ih =>
      rw [List.forall_mem_cons] at ascii
      change ((String.utf8EncodeChar c ++ Utf8.encode rest).map _) = _
      rw [Utf8.utf8EncodeChar_ascii ascii.1, List.singleton_append, List.map_cons, ih ascii.2,
        Utf8.toNat_ofNat_ascii ascii.1, Char.ofNat_toNat]

theorem length_digits {number count : Nat} (positive : 0 < count) (small : number < 10 ^ count) :
    (Nat.toDigits 10 number).length ≤ count := (Nat.length_toDigits_le_iff (by decide) positive).mpr small

theorem readLength_digits {number : Nat} (small : number < 10 ^ 7) :
    readLength (Utf8.encode (Nat.toDigits 10 number)) = some number := by
  have digits := NumberLiteral.toDigits_isDigit number
  have ascii : ∀ c ∈ Nat.toDigits 10 number, c.toNat < 128 := fun c member => NumberLiteral.ascii_of_isDigit (digits c member)
  have value : Nat.ofDigitChars 10 (Nat.toDigits 10 number) 0 = number :=
    Nat.ofDigitChars_toDigits (by decide) (by decide)
  have shape : Nat.toDigits 10 number = ['0'] ∨ (Nat.toDigits 10 number ≠ [] ∧
      (Nat.toDigits 10 number).head? ≠ some '0' ∧ (Nat.toDigits 10 number).length ≤ 7 ∧
      ((Nat.toDigits 10 number).all Char.isDigit) = true) := by
    rcases Nat.eq_zero_or_pos number with rfl | positive
    · exact .inl rfl
    · exact .inr ⟨NumberLiteral.toDigits_ne_nil number, NumberLiteral.head_toDigits positive,
        length_digits (by decide) small, List.all_eq_true.mpr digits⟩
  rw [readLength, encode_digits ascii]
  simp only [if_pos shape, value]

theorem headerLine_line {line : Bytes} (clean : (10 : UInt8) ∉ line) (short : line.length < 256) (rest : Bytes) :
    headerLine (line ++ 10 :: rest) = (line, rest) := by
  have split : (line ++ 10 :: rest).take 256 = line ++ 10 :: rest.take (255 - line.length) := by
    rw [List.take_append, List.take_of_length_le (by omega)]
    have more : 256 - line.length = (255 - line.length) + 1 := by omega
    rw [more, List.take_succ_cons]
  have before : ∀ byte ∈ line, decide (byte ≠ 10) = true := fun byte member =>
    decide_eq_true fun same => clean (same ▸ member)
  have taken : ((line ++ 10 :: rest).take 256).takeWhile (· ≠ 10) = line := by
    rw [split, List.takeWhile_append_of_pos before]
    simp
  rw [headerLine]
  simp only [taken]
  rw [if_pos (by rw [split, List.length_append, List.length_cons]; omega)]
  simp

structure Label (label : List Char) : Prop where
  clean : '\n' ∉ label
  short : (Utf8.encode label).length ≤ 200

theorem newline_notMem_marker : (10 : UInt8) ∉ marker := by decide +kernel

theorem newline_notMem_digits (number : Nat) : '\n' ∉ Nat.toDigits 10 number :=
  Json.newline_notMem_digits (NumberLiteral.toDigits_isDigit number)

/-- A section is read back whatever its content, and the next section starts after it. -/
theorem block_headed {label : List Char} (named : Label label) {content : Bytes} (small : content.length < 10 ^ 7)
    (rest : Bytes) : block label (headed label content ++ rest) = .ok (content, rest) := by
  let number := Utf8.encode (Nat.toDigits 10 content.length)
  let line := Utf8.encode label ++ marker ++ number
  have clean : (10 : UInt8) ∉ line := by
    simp only [line, List.mem_append, not_or]
    exact ⟨⟨Utf8.newline_notMem_encode named.clean, newline_notMem_marker⟩,
      Utf8.newline_notMem_encode (newline_notMem_digits _)⟩
  have digits : number.length ≤ 7 := by
    have ascii : ∀ c ∈ Nat.toDigits 10 content.length, c.toNat < 128 := fun c member =>
      NumberLiteral.ascii_of_isDigit (NumberLiteral.toDigits_isDigit _ c member)
    have same := congrArg List.length (encode_digits ascii)
    rw [List.length_map] at same
    exact same.trans_le (length_digits (by decide) small)
  have short : line.length < 256 := by
    have wide : marker.length = 13 := by decide +kernel
    have bound := named.short
    simp only [line, List.length_append, wide]
    omega
  have whole : headed label content ++ rest = line ++ 10 :: (content ++ 10 :: rest) := by
    simp [headed, line, number]
  have field : (Utf8.encode label ++ marker).isPrefixOf? line = some number := by
    rw [List.isPrefixOf?_eq_some_iff_append_eq]
  rw [whole, block, headerLine_line clean short]
  simp only [field, Option.bind_some, number, readLength_digits small]
  rw [if_pos (by simp)]
  simp

/-! ### Paths -/

theorem slash_notMem_digits (number : Nat) : '/' ∉ Nat.toDigits 10 number := fun member => by
  have digit := NumberLiteral.toDigits_isDigit number _ member
  cases digit

theorem toDigits_injective : Function.Injective (Nat.toDigits 10) := by
  intro one two same
  have numbers := congrArg (Nat.ofDigitChars 10 · 0) same
  simpa [Nat.ofDigitChars_toDigits] using numbers

def names : List String := ["caveat", "title", "body", "message", "rationale"] ++ subjects ++ gathered

theorem name_plain {name : String} (named : name ∈ names) :
    '/' ∉ name.toList ∧ '\n' ∉ name.toList ∧ (Utf8.encode name.toList).length ≤ 20 := by
  have each : ∀ name ∈ names, '/' ∉ name.toList ∧ '\n' ∉ name.toList ∧
      (Utf8.encode name.toList).length ≤ 20 := by decide +kernel
  exact each name named

theorem names_subject {name : String} (named : name ∈ subjects) : name ∈ names := by
  simp [names, named]

theorem names_gathered {name : String} (named : name ∈ gathered) : name ∈ names ∧ proseField name ∈ names := by
  have each : ∀ name ∈ gathered, name ∈ names ∧ proseField name ∈ names := by decide
  exact each name named

theorem names_field {field : String} (listed : field ∈ ["title", "body"]) : field ∈ names := by
  have each : ∀ field ∈ ["title", "body"], field ∈ names := by decide
  exact each field listed

theorem parts_clean {place : Place} (located : Located place) : ∀ part ∈ place.map stepText, '/' ∉ part := by
  cases located with
  | caveat => decide
  | subject named listed =>
      simp only [List.map_cons, List.map_nil, stepText, List.forall_mem_cons, List.not_mem_nil, false_implies,
        implies_true, and_true]
      exact ⟨(name_plain (names_subject named)).1, (name_plain (names_field listed)).1⟩
  | entry named position =>
      simp only [List.map_cons, List.map_nil, stepText, List.forall_mem_cons, List.not_mem_nil, false_implies,
        implies_true, and_true]
      exact ⟨(name_plain (names_gathered named).1).1, slash_notMem_digits position,
        (name_plain (names_gathered named).2).1⟩

theorem pathOf_injective {place other : Place} (one : Located place) (two : Located other)
    (same : pathOf place = pathOf other) : place = other := by
  have nonempty {place : Place} (located : Located place) : place.map stepText ≠ [] := by cases located <;> simp
  have parts := congrArg Paths.split (List.cons.inj same).2
  rw [Paths.split_join (parts_clean one) (nonempty one), Paths.split_join (parts_clean two) (nonempty two)] at parts
  cases one with
  | caveat => cases two <;> simp_all [stepText]
  | subject =>
      cases two with
      | subject => simp_all [stepText, String.toList_inj]
      | _ => simp at parts
  | entry =>
      cases two with
      | entry =>
          simp only [List.map_cons, List.map_nil, stepText, List.cons.injEq, String.toList_inj, and_true] at parts
          obtain ⟨rfl, positions, -⟩ := parts
          rw [toDigits_injective positions]
      | _ => simp at parts

theorem length_encode_digits {number : Nat} (small : number < 10 ^ 7) :
    (Utf8.encode (Nat.toDigits 10 number)).length ≤ 7 := by
  have same := congrArg List.length (encode_digits fun c member =>
    NumberLiteral.ascii_of_isDigit (NumberLiteral.toDigits_isDigit number c member))
  rw [List.length_map] at same
  exact same.trans_le (length_digits (by decide) small)

/-- A location whose position has at most seven digits. -/
def Near (place : Place) : Prop := ∀ position, Json.Step.index position ∈ place → position < 10 ^ 7

theorem label_text {place : Place} (located : Located place) (near : Near place) :
    Label (textLabel (pathOf place)) := by
  have slash : '/'.utf8Size = 1 := rfl
  have start : (Utf8.encode "Text ".toList).length = 5 := by decide +kernel
  cases located with
  | caveat => exact ⟨by decide, by decide +kernel⟩
  | @subject name field named listed =>
      obtain ⟨-, clean, short⟩ := name_plain (names_subject named)
      obtain ⟨-, plain, small⟩ := name_plain (names_field listed)
      have text : pathOf [.key name, .key field] = '/' :: (name.toList ++ '/' :: field.toList) := by
        simp [pathOf, Paths.join, stepText, List.intercalate]
      constructor
      · rw [textLabel, text]
        simp [clean, plain]
      · rw [textLabel, text, Utf8.length_encode_append, Utf8.length_encode_cons, Utf8.length_encode_append,
          Utf8.length_encode_cons, start, slash]
        omega
  | @entry name named position =>
      obtain ⟨first, second⟩ := names_gathered named
      obtain ⟨-, clean, short⟩ := name_plain first
      obtain ⟨-, plain, small⟩ := name_plain second
      have digits := length_encode_digits (near position (by simp))
      have text : pathOf [.key name, .index position, .key (proseField name)] =
          '/' :: (name.toList ++ '/' :: (Nat.toDigits 10 position ++ '/' :: (proseField name).toList)) := by
        simp [pathOf, Paths.join, stepText, List.intercalate]
      constructor
      · rw [textLabel, text]
        have solid := newline_notMem_digits position
        simp [clean, plain, solid]
      · rw [textLabel, text, Utf8.length_encode_append, Utf8.length_encode_cons, Utf8.length_encode_append,
          Utf8.length_encode_cons, Utf8.length_encode_append, Utf8.length_encode_cons, start, slash]
        omega

theorem label_metadata : Label "Metadata".toList := ⟨by decide, by decide +kernel⟩

/-! ### Positions fit the byte limit -/

theorem length_le_encode (text : List Char) : text.length ≤ (Utf8.encode text).length := by
  induction text with
  | nil => rfl
  | cons c rest ih =>
      have one := Char.utf8Size_pos c
      rw [Utf8.length_encode_cons, List.length_cons]
      omega

theorem length_renderItems_ge (items : List Json) : items.length ≤ (Json.renderItems items).length := by
  induction items with
  | nil => exact Nat.zero_le _
  | cons item rest ih =>
      rw [Json.renderItems, List.length_cons, List.length_cons, List.length_append]
      omega

theorem length_render_arr (items : List Json) : items.length ≤ (Json.arr items).render.length := by
  cases items with
  | nil => exact Nat.zero_le _
  | cons item rest =>
      have later := length_renderItems_ge rest
      rw [Json.render, List.length_cons, List.length_cons, List.length_append]
      omega

theorem length_render_member {members : Members} {name : String} {value : Json}
    (found : members.lookup name = some value) : value.render.length ≤ (Json.renderMembers members).length := by
  induction members with
  | nil => cases found
  | cons member rest ih =>
      obtain ⟨key, other⟩ := member
      rw [Json.renderMembers]
      simp only [List.length_cons, List.length_append]
      rw [List.lookup_cons] at found
      split at found
      next =>
        obtain rfl := Option.some.inj found
        omega
      next =>
        have later := ih found
        omega

theorem length_render_obj (members : Members) :
    (Json.renderMembers members).length ≤ (Json.obj members).render.length := by
  cases members with
  | nil => decide
  | cons member rest =>
      obtain ⟨key, value⟩ := member
      rw [Json.renderMembers, Json.render]
      simp only [List.length_cons]
      exact Nat.le_refl _

theorem position_lt {members : Members} {place : Place} (member : place ∈ placesOf members)
    {position : Nat} (turn : Json.Step.index position ∈ place) :
    position < (Json.obj members).canonical.length := by
  rcases List.mem_cons.mp member with rfl | later
  · simp at turn
  · rcases List.mem_append.mp later with first | second
    · obtain ⟨name, -, inside⟩ := List.mem_flatMap.mp first
      obtain ⟨value, -, field, -, -, rfl⟩ := mem_subjectPlaces.mp inside
      simp at turn
    · obtain ⟨name, -, inside⟩ := List.mem_flatMap.mp second
      obtain ⟨items, found, index, value, item, -, rfl⟩ := mem_listedPlaces.mp inside
      obtain rfl : position = index := by simpa using turn
      obtain ⟨below, -⟩ := List.getElem?_eq_some_iff.mp item
      calc position < items.length := below
        _ ≤ (Json.arr items).render.length := length_render_arr items
        _ ≤ (Json.renderMembers members).length := length_render_member found
        _ ≤ (Json.obj members).render.length := length_render_obj members
        _ ≤ (Json.obj members).canonical.length := length_le_encode _

/-! ### Reading a document back -/

theorem find_path {places : List Place} (located : ∀ place ∈ places, Located place) {place : Place}
    (member : place ∈ places) : (places.find? fun other => pathOf other = pathOf place) = some place := by
  cases found : places.find? fun other => pathOf other = pathOf place with
  | none =>
      have none := List.find?_eq_none.mp found place member
      simp at none
  | some other =>
      have same : pathOf other = pathOf place := by simpa using List.find?_some found
      rw [pathOf_injective (located other (List.mem_of_find?_eq_some found)) (located place member) same]

theorem textsAt_places (places : List Place) (value : Json) : ((textsAt places value).map Prod.fst).Sublist places := by
  induction places with
  | nil => exact .slnil
  | cons place rest ih =>
      rw [textsAt, List.filterMap_cons]
      split
      next => exact ih.cons place
      next entry read =>
        split at read
        next text =>
          obtain rfl := Option.some.inj read
          exact ih.cons_cons place
        next => cases read

theorem readAt_blank {places : List Place} {value : Json} (apart : places.Pairwise Apart)
    (prose : ∀ place ∈ places, Prose value place) {place : Place} (member : place ∈ places) :
    readAt place (blank places value) = some .null := by
  induction places generalizing value with
  | nil => cases member
  | cons other rest ih =>
      obtain ⟨here, later⟩ := List.pairwise_cons.mp apart
      obtain ⟨first, others⟩ := List.forall_mem_cons.mp prose
      change readAt place (blank rest (writeAt other .null value)) = _
      rcases List.mem_cons.mp member with rfl | deeper
      · rw [Json.readAt_blank_apart here]
        rcases first with empty | ⟨text, reads⟩
        · exact Json.readAt_writeAt empty .null
        · exact Json.readAt_writeAt reads .null
      · exact ih later (fun turn among => (Prose.modify (here turn among).symm _).mpr (others turn among)) deeper

theorem putTexts_eq_ok {places : List Place} {texts : List (Place × String)} {value : Json} (rest : Bytes)
    (found : ∀ entry ∈ texts, (places.find? fun other => pathOf other = pathOf entry.1) = some entry.1)
    (empty : ∀ entry ∈ texts, readAt entry.1 value = some .null) (apart : (texts.map Prod.fst).Pairwise Apart)
    (labels : ∀ entry ∈ texts, Label (textLabel (pathOf entry.1)))
    (small : ∀ entry ∈ texts, (Utf8.encode entry.2.toList).length < 10 ^ 7) :
    putTexts places (texts.map fun entry => pathOf entry.1) value
      ((texts.flatMap fun entry => headed (textLabel (pathOf entry.1)) (Utf8.encode entry.2.toList)) ++ rest) =
      .ok (fill texts value, rest) := by
  induction texts generalizing value with
  | nil => rfl
  | cons entry more ih =>
      rw [List.forall_mem_cons] at found empty labels small
      obtain ⟨here, later⟩ := List.pairwise_cons.mp apart
      have kept : ∀ other ∈ more, readAt other.1 (writeAt entry.1 (.str entry.2) value) = some .null := by
        intro other among
        rw [writeAt, Json.readAt_modifyAt_apart (here other.1 (List.mem_map_of_mem among)).symm]
        exact empty.2 other among
      rw [List.map_cons, List.flatMap_cons, List.append_assoc, putTexts]
      simp only [found.1, empty.1, block_headed labels.1 small.1]
      change (require (Utf8.decode _) _ >>= fun text => _) = _
      rw [Utf8.decode_encode]
      change putTexts places _ (writeAt entry.1 (.str (String.ofList entry.2.toList)) value) _ = _
      rw [String.ofList_toList, ih found.2 kept later labels.2 small.2]
      rfl

/-- A payload that is rendered, and its document. -/
structure Rendered (library : Library) (maxBytes : Int) (payload : Json) (members : Members) (data : Bytes) :
    Prop where
  bounded : 1 ≤ maxBytes ∧ maxBytes ≤ maxRequestBytes
  valid : validate library payload = .ok members
  printable : printable payload = true
  small : payload.canonical.length ≤ maxBytes
  short : data.length ≤ maxBytes
  text : data = document (blank (placesOf members) payload) (textsAt (placesOf members) payload)

section

variable {library : Library} {maxBytes : Int}

theorem render_eq_ok {payload : Json} {data : Bytes} :
    renderAuthoringRequest library maxBytes payload = .ok data ↔
      ∃ members, Rendered library maxBytes payload members data := by
  have taken {members : Members} (valid : validate library payload = .ok members) :
      locations members = .ok (placesOf members) ∧ takeTexts (placesOf members) payload =
        .ok (textsAt (placesOf members) payload, blank (placesOf members) payload) := by
    obtain ⟨rfl, shaped⟩ := validate_shaped valid
    exact ⟨locations_regular shaped.regular,
      takeTexts_eq_ok (apart_placesOf members) fun _ member => shaped.prose member⟩
  simp only [renderAuthoringRequest, bound, bind_eq_ok, refuse_eq_ok, not_not, not_lt, Bool.not_eq_false]
  constructor
  · rintro ⟨-, bounded, members, valid, -, printable, -, small, places, located, ⟨texts, metadata⟩, stripped, -, short,
      same⟩
    obtain ⟨known, takes⟩ := taken valid
    rw [known] at located
    obtain rfl := Except.ok.inj located
    rw [takes] at stripped
    obtain ⟨rfl, rfl⟩ := Prod.mk.inj (Except.ok.inj stripped)
    obtain rfl := Except.ok.inj same
    exact ⟨members, bounded, valid, printable, small, short, rfl⟩
  · rintro ⟨members, bounded, valid, printable, small, short, rfl⟩
    obtain ⟨known, takes⟩ := taken valid
    exact ⟨(), bounded, members, valid, (), printable, (), small, _, known, _, takes, (), short, rfl⟩

theorem Rendered.wider {payload : Json} {members : Members} {data : Bytes}
    (rendered : Rendered library maxBytes payload members data) {wider : Int} (more : maxBytes ≤ wider)
    (allowed : wider ≤ maxRequestBytes) : Rendered library wider payload members data where
  bounded := ⟨rendered.bounded.1.trans more, allowed⟩
  valid := rendered.valid
  printable := rendered.printable
  small := rendered.small.trans more
  short := rendered.short.trans more
  text := rendered.text

theorem readHeader_headerOf {members : Members} {places : List Place} (located : ∀ place ∈ places, Located place)
    (distinct : places.Nodup) : readHeader (some (headerOf (.obj members) places)) =
      .ok (.obj members, places.map pathOf) := by
  have paths : (places.map fun place => Json.str (String.ofList (pathOf place))).mapM text? =
      some (places.map pathOf) := by
    clear located distinct
    induction places with
    | nil => rfl
    | cons place rest ih =>
        rw [List.map_cons, List.mapM_cons, ih]
        simp [text?]
  have nodup : (places.map pathOf).Nodup := by
    refine List.Nodup.map_on (fun one first two second same => ?_) distinct
    exact pathOf_injective (located one first) (located two second) same
  have known : has [("metadata", Json.obj members),
      ("text_paths", Json.arr (places.map fun place => Json.str (String.ofList (pathOf place))))] "metadata" = true ∧
      has [("metadata", Json.obj members),
      ("text_paths", Json.arr (places.map fun place => Json.str (String.ofList (pathOf place))))] "text_paths" = true :=
    ⟨by simp [has], by simp [has]⟩
  rw [headerOf, readHeader, if_pos ⟨rfl, known⟩]
  simp only [member, List.lookup_cons]
  simp [paths, nodup]

theorem normal_headerOf {metadata : Json} (formed : metadata.normal = true) (places : List Place) :
    (headerOf metadata places).normal = true := by
  have texts : Json.normalItems (places.map fun place => Json.str (String.ofList (pathOf place))) = true := by
    rw [Json.normalItems_iff]
    rintro item member
    obtain ⟨place, -, rfl⟩ := List.mem_map.mp member
    rfl
  have sorted (one two : Json) : Json.sortedKeys [("metadata", one), ("text_paths", two)] = true := by
    change decide ((["metadata", "text_paths"] : List String).Pairwise (· < ·)) = true
    decide +kernel
  simp [headerOf, Json.normal, Json.normalMembers, formed, texts, sorted]

theorem length_headed_ge (label : List Char) (content : Bytes) : content.length ≤ (headed label content).length := by
  simp only [headed, List.length_append, List.length_cons]
  omega

theorem readDocument_rendered {payload : Json} {members : Members} {data : Bytes}
    (formed : payload.normal = true) (rendered : Rendered library maxBytes payload members data) :
    readDocument library maxBytes data = .ok payload := by
  obtain ⟨rfl, shaped⟩ := validate_shaped rendered.valid
  have located : ∀ place ∈ placesOf members, Located place := fun _ member => located_of_mem member
  have apart := apart_placesOf members
  have prose : ∀ place ∈ placesOf members, Prose (.obj members) place := fun _ member => shaped.prose member
  obtain ⟨stripped, same, regular, places⟩ := blank_regular located shaped.regular
  let texts := textsAt (placesOf members) (.obj members)
  let header := (headerOf (.obj stripped) (texts.map Prod.fst)).canonical
  let sections := texts.flatMap fun entry => headed (textLabel (pathOf entry.1)) (Utf8.encode entry.2.toList)
  have inside := textsAt_places (placesOf members) (.obj members)
  have listed : ∀ entry ∈ texts, entry.1 ∈ placesOf members := fun entry member =>
    inside.subset (List.mem_map_of_mem member)
  have whole : data = version ++ (headed "Metadata".toList header ++ sections) := by
    rw [rendered.text, document, same, List.append_assoc]
  have limit : data.length < 10 ^ 7 := by
    have short := rendered.short.trans rendered.bounded.2
    have most : maxRequestBytes = 1048576 := by decide
    omega
  have pieces : (headed "Metadata".toList header).length + sections.length ≤ data.length := by
    rw [whole, List.length_append, List.length_append]
    omega
  have smallHeader : header.length < 10 ^ 7 := by
    have inner := length_headed_ge "Metadata".toList header
    omega
  have smallText : ∀ entry ∈ texts, (Utf8.encode entry.2.toList).length < 10 ^ 7 := by
    intro entry member
    have inner := length_headed_ge (textLabel (pathOf entry.1)) (Utf8.encode entry.2.toList)
    have part : (headed (textLabel (pathOf entry.1)) (Utf8.encode entry.2.toList)).length ≤ sections.length := by
      obtain ⟨before, after, parts⟩ := List.append_of_mem member
      have all : sections = texts.flatMap fun entry =>
        headed (textLabel (pathOf entry.1)) (Utf8.encode entry.2.toList) := rfl
      rw [all, parts, List.flatMap_append, List.flatMap_cons, List.length_append, List.length_append]
      omega
    omega
  have labels : ∀ entry ∈ texts, Label (textLabel (pathOf entry.1)) := by
    intro entry member
    refine label_text (located _ (listed entry member)) fun position turn => ?_
    have below := position_lt (listed entry member) turn
    have small := rendered.small.trans rendered.bounded.2
    have most : maxRequestBytes = 1048576 := by decide
    omega
  have normal : (Json.obj stripped).normal = true := same ▸ Json.normal_blank formed
  have loads : Json.loads header = some (headerOf (.obj stripped) (texts.map Prod.fst)) :=
    Json.loads_canonical (normal_headerOf normal _)
  have paths := @readHeader_headerOf stripped (texts.map Prod.fst)
    (fun place member => located place (inside.subset member)) (inside.nodup (nodup_placesOf members))
  have put := @putTexts_eq_ok (placesOf members) texts (.obj stripped) []
    (fun entry member => find_path located (listed entry member))
    (fun entry member => same ▸ readAt_blank apart prose (listed entry member))
    (List.Pairwise.sublist inside apart) labels smallText
  have back : fill texts (.obj stripped) = .obj members := same ▸ Json.fill_blank apart prose
  have again := render_eq_ok.mpr ⟨members, rendered⟩
  have start : data.drop version.length = headed "Metadata".toList header ++ sections := by
    rw [whole, List.drop_left]
  have names : (texts.map Prod.fst).map pathOf = texts.map fun entry => pathOf entry.1 := List.map_map
  rw [List.append_nil, back] at put
  rw [readDocument, start]
  refine bind_eq_ok.mpr ⟨(header, sections), block_headed label_metadata smallHeader sections, ?_⟩
  refine bind_eq_ok.mpr ⟨(.obj stripped, texts.map fun entry => pathOf entry.1), ?_, ?_⟩
  · rw [loads, paths, names]
  · refine bind_eq_ok.mpr ⟨placesOf members, places ▸ locations_regular regular, ?_⟩
    refine bind_eq_ok.mpr ⟨(.obj members, []), put, ?_⟩
    refine bind_eq_ok.mpr ⟨(), refuse_eq_ok.mpr fun left => left rfl, ?_⟩
    refine bind_eq_ok.mpr ⟨data, again, ?_⟩
    exact bind_eq_ok.mpr ⟨(), refuse_eq_ok.mpr fun other => other rfl, rfl⟩

theorem parse_rendered {payload : Json} {members : Members} {data : Bytes} (formed : payload.normal = true)
    (rendered : Rendered library maxBytes payload members data) :
    parseAuthoringRequest library maxBytes data = .ok payload := by
  have start : version.isPrefixOf data = true := by
    rw [rendered.text, document, List.append_assoc, List.isPrefixOf_iff_prefix]
    exact List.prefix_append _ _
  refine bind_eq_ok.mpr ⟨(), refuse_eq_ok.mpr (not_not.mpr rendered.bounded), ?_⟩
  refine bind_eq_ok.mpr ⟨(), refuse_eq_ok.mpr (not_lt.mpr rendered.short), ?_⟩
  refine bind_eq_ok.mpr ⟨(), refuse_eq_ok.mpr (by simp [start]), ?_⟩
  rw [readDocument_rendered formed rendered]
  rfl

theorem caught_eq_ok {α : Type} {outcome : Except Raised α} {value : α} :
    caught outcome = .ok value ↔ outcome = .ok value := by
  cases outcome with
  | error raised => cases raised <;> simp [caught, reject]
  | ok => rfl

/-- The parser renders what it has read and compares. -/
theorem render_parsed {payload : Json} {data : Bytes}
    (parsed : parseAuthoringRequest library maxBytes data = .ok payload) :
    renderAuthoringRequest library maxBytes payload = .ok data := by
  simp only [parseAuthoringRequest, readDocument, bind_eq_ok, refuse_eq_ok, caught_eq_ok, not_not] at parsed
  obtain ⟨-, -, -, -, -, -, -, -, -, -, -, -, ⟨read, left⟩, -, -, -, again, rendered, -, same, final⟩ := parsed
  obtain rfl := Except.ok.inj final
  rw [← same]
  exact rendered

/-! ### The exceptions of the parser -/

/-- Every failure is one that the parser catches, or a `ValueError`. -/
def Tame {α : Type} (outcome : Except Raised α) : Prop := outcome ≠ .error .noAttribute

theorem Tame.bind {α β : Type} {outcome : Except Raised α} {next : α → Except Raised β} (first : Tame outcome)
    (later : ∀ value, outcome = .ok value → Tame (next value)) : Tame (outcome >>= next) := by
  cases outcome with
  | error raised =>
      intro fails
      exact first (congrArg _ (Except.error.inj fails))
  | ok value => exact later value rfl

theorem tame_ok {α : Type} (value : α) : Tame (Except.ok value) := by simp [Tame]

theorem tame_reject {α : Type} (message : String) : Tame (reject message : Except Raised α) := by simp [Tame, reject]

theorem tame_type {α : Type} : Tame (.error .type : Except Raised α) := by simp [Tame]

theorem tame_refuse (condition : Prop) [Decidable condition] (message : String) :
    Tame (refuse condition (.value message)) := by
  by_cases holds : condition <;> simp [Tame, refuse, holds]

theorem tame_checkAll {α : Type} {check : α → Except Raised Unit} (each : ∀ item, Tame (check item)) (items : List α) :
    Tame (checkAll check items) := by
  induction items with
  | nil => exact tame_ok ()
  | cons item rest ih => exact (each item).bind fun _ _ => ih

theorem tame_mapAll {α β : Type} {f : α → Except Raised β} (each : ∀ item, Tame (f item)) (items : List α) :
    Tame (mapAll f items) := by
  induction items with
  | nil => exact tame_ok []
  | cons item rest ih => exact (each item).bind fun _ _ => ih.bind fun _ _ => tame_ok _

theorem tame_among (choices : List String) (value : Json) : Tame (among choices value) := by
  cases value <;> simp [Tame, among]

theorem tame_utc (value : Json) : Tame (utc library value) := by
  rw [utc.eq_def]
  split
  next =>
    split
    next => exact tame_reject _
    next => exact tame_refuse _ _
  next => exact tame_reject _

theorem tame_sourceUrl (value : Json) : Tame (sourceUrl library value) := by
  rw [sourceUrl.eq_def]
  split
  next =>
    split
    next => exact tame_reject _
    next => exact tame_refuse _ _
  next => exact tame_reject _

theorem tame_entry (allowed : List String) (value : Json) : Tame (entry library allowed value) := by
  cases value with
  | obj members =>
      refine (tame_refuse _ _).bind fun _ _ => (tame_sourceUrl _).bind fun _ _ => (tame_refuse _ _).bind fun _ _ => ?_
      refine (tame_utc _).bind fun _ _ => (tame_among _ _).bind fun _ _ => (tame_refuse _ _).bind fun _ _ => ?_
      exact (tame_refuse _ _).bind fun _ _ => tame_refuse _ _
  | _ => exact tame_reject _

theorem tame_subject (members : Members) (name : String) : Tame (subject library members name) := by
  rw [subject]
  split
  next => exact tame_ok _
  next => exact tame_entry _ _

theorem tame_collection (members : Members) (name : String) : Tame (collection library members name) := by
  rw [collection]
  split
  next => exact tame_ok _
  next => exact tame_checkAll (tame_entry _) _
  next => exact tame_reject _

theorem tame_validate (payload : Json) : Tame (validate library payload) := by
  cases payload with
  | obj members =>
      refine (tame_refuse _ _).bind fun _ _ => (tame_refuse _ _).bind fun _ _ => (tame_among _ _).bind fun _ _ => ?_
      refine (tame_refuse _ _).bind fun _ _ => ?_
      split
      next =>
        refine (tame_refuse _ _).bind fun _ _ => (tame_utc _).bind fun _ _ => ?_
        refine (tame_checkAll (tame_subject members) _).bind fun _ _ => ?_
        refine (tame_checkAll (tame_collection members) _).bind fun _ _ => ?_
        refine (tame_refuse _ _).bind fun _ _ => (tame_refuse _ _).bind fun _ _ => ?_
        exact (tame_refuse _ _).bind fun _ _ => tame_ok _
      next => exact tame_reject _
  | _ => exact (tame_refuse _ _).bind fun _ _ => tame_reject _

theorem tame_locations (members : Members) : Tame (locations members) := by
  refine (tame_mapAll (fun name => ?_) _).bind fun _ _ => tame_ok _
  rw [collectionPlaces]
  split
  next => exact tame_ok _
  next value _ =>
    have iterates : Tame (iterate value) := by cases value <;> simp [Tame, iterate]
    refine iterates.bind fun _ _ => (tame_mapAll (fun indexed => ?_) _).bind fun _ _ => tame_ok _
    rw [entryPlaces]
    cases indexed.1 <;> simp [Tame, contains]

theorem tame_render (payload : Json) : Tame (renderAuthoringRequest library maxBytes payload) := by
  refine (tame_refuse _ _).bind fun _ _ => (tame_validate payload).bind fun members valid => ?_
  refine (tame_refuse _ _).bind fun _ _ => (tame_refuse _ _).bind fun _ _ => ?_
  refine (tame_locations members).bind fun places located => ?_
  obtain ⟨rfl, shaped⟩ := validate_shaped valid
  rw [locations_regular shaped.regular] at located
  obtain rfl := Except.ok.inj located
  rw [takeTexts_eq_ok (apart_placesOf members) fun _ member => shaped.prose member]
  exact (tame_refuse _ _).bind fun _ _ => tame_ok _

theorem tame_block (label : List Char) (rest : Bytes) : Tame (block label rest) := by
  rw [block]
  split
  split
  next => exact tame_reject _
  next =>
    split
    next => exact tame_ok _
    next => exact tame_reject _

theorem tame_putTexts (places : List Place) (paths : List (List Char)) (payload : Json) (rest : Bytes) :
    Tame (putTexts places paths payload rest) := by
  induction paths generalizing payload rest with
  | nil => exact tame_ok _
  | cons path more ih =>
      rw [putTexts]
      split
      next => exact tame_reject _
      next =>
        split
        next => exact tame_type
        next =>
          refine (tame_block _ _).bind fun section_ _ => ?_
          have decodes : Tame (require (Utf8.decode section_.1) Raised.unicode) := by
            cases Utf8.decode section_.1 <;> simp [Tame, require]
          exact decodes.bind fun _ _ => ih _ _
        next => exact tame_reject _

theorem tame_readHeader (header : Option Json) : Tame (readHeader header) := by
  rw [readHeader.eq_def]
  split
  next => exact tame_reject _
  next =>
    split
    next =>
      split
      next =>
        split
        next => exact tame_reject _
        next =>
          split
          next => exact tame_ok _
          next => exact tame_reject _
      next => exact tame_reject _
    next => exact tame_reject _
  next => exact tame_reject _

theorem tame_readDocument (data : Bytes) : Tame (readDocument library maxBytes data) := by
  refine (tame_block _ _).bind fun _ _ => (tame_readHeader _).bind fun _ _ => (tame_locations _).bind fun _ _ => ?_
  refine (tame_putTexts _ _ _ _).bind fun _ _ => (tame_refuse _ _).bind fun _ _ => (tame_render _).bind fun _ _ => ?_
  exact (tame_refuse _ _).bind fun _ _ => tame_ok _

theorem raised_of_bind {α β : Type} {outcome : Except Raised α} {next : α → Except Raised β} {raised : Raised}
    (fails : (outcome >>= next) = .error raised) :
    outcome = .error raised ∨ ∃ value, outcome = .ok value ∧ next value = .error raised := by
  cases outcome with
  | error inner => exact .inl (congrArg _ (Except.error.inj fails))
  | ok value => exact .inr ⟨value, rfl, fails⟩

theorem parse_raises {data : Bytes} {raised : Raised}
    (fails : parseAuthoringRequest library maxBytes data = .error raised) : ∃ message, raised = .value message := by
  have values {condition : Prop} [Decidable condition] {message : String}
      (fails : refuse condition (Raised.value message) = .error raised) : ∃ message, raised = .value message := by
    by_cases holds : condition
    · rw [refuse, if_pos holds] at fails
      exact ⟨message, (Except.error.inj fails).symm⟩
    · rw [refuse, if_neg holds] at fails
      cases fails
  rw [parseAuthoringRequest, bound] at fails
  rcases raised_of_bind fails with first | ⟨_, -, fails⟩
  · exact values first
  rcases raised_of_bind fails with second | ⟨_, -, fails⟩
  · exact values second
  rcases raised_of_bind fails with third | ⟨_, -, fails⟩
  · exact values third
  have tame := @tame_readDocument library maxBytes data
  cases outcome : readDocument library maxBytes data with
  | ok => rw [outcome] at fails; cases fails
  | error inner =>
      rw [outcome] at fails tame
      cases inner with
      | value message => exact ⟨message, (Except.error.inj fails).symm⟩
      | type => exact ⟨_, (Except.error.inj fails).symm⟩
      | unicode => exact ⟨_, (Except.error.inj fails).symm⟩
      | noAttribute => exact absurd rfl tame

/-! ### Ranking prose -/

def textAt (payload : Json) (place : Place) : List String :=
  match readAt place payload with
  | some (.str text) => [text]
  | _ => []

def entriesIn (payload : Json) (name : String) : Nat :=
  match readAt [.key name] payload with
  | some (.arr items) => items.length
  | _ => 0

/-- The titles and bodies that are no null, in the order of the document. -/
def titlesAndBodies (payload : Json) : List String :=
  (subjects.flatMap fun name => ["title", "body"].flatMap fun field => textAt payload [.key name, .key field]) ++
    discussions.flatMap fun name => (List.range (entriesIn payload name)).flatMap fun position =>
      textAt payload [.key name, .index position, .key "body"]

theorem rankingTexts_eq_ok {places : List Place} {payload : Json} (prose : ∀ place ∈ places, Prose payload place) :
    rankingTexts places payload = .ok ((places.filter isRanked).flatMap (textAt payload)) := by
  induction places with
  | nil => rfl
  | cons place rest ih =>
      obtain ⟨first, others⟩ := List.forall_mem_cons.mp prose
      rw [rankingTexts]
      by_cases ranked : isRanked place = true
      · rw [if_pos ranked, List.filter_cons_of_pos ranked, List.flatMap_cons, textAt]
        rcases first with empty | ⟨text, reads⟩
        · rw [empty]
          exact ih others
        · rw [reads]
          dsimp only
          rw [ih others]
          rfl
      · rw [if_neg ranked, List.filter_cons_of_neg ranked, ih others]

theorem textAt_absent {payload : Json} {place : Place} (absent : readAt place payload = none) :
    textAt payload place = [] := by
  rw [textAt, absent]

theorem lookup_of_not_has {members : Members} {name : String} (absent : has members name = false) :
    members.lookup name = none := by
  rw [List.lookup_eq_none_iff]
  rintro ⟨key, value⟩ inside
  rw [has, decide_eq_false_iff_not] at absent
  rw [bne_iff_ne]
  rintro rfl
  exact absent (List.mem_map_of_mem inside)

theorem texts_subject (members : Members) (name : String) :
    (subjectPlaces members name).flatMap (textAt (.obj members)) =
      ["title", "body"].flatMap fun field => textAt (.obj members) [.key name, .key field] := by
  rw [subjectPlaces]
  split
  next value found =>
    rw [List.flatMap_map]
    refine (flatMap_filter fun field _ absent => textAt_absent ?_).symm
    simp [readAt, found, lookup_of_not_has absent]
  next other =>
    have absent (field : String) : textAt (.obj members) [.key name, .key field] = [] := by
      refine textAt_absent ?_
      simp only [readAt]
      cases found : members.lookup name with
      | none => rfl
      | some value =>
          cases value with
          | obj value => exact absurd found (other value)
          | _ => rfl
    simp [absent]

theorem texts_listed (members : Members) (name : String) (body : proseField name = "body") :
    (listedPlaces members name).flatMap (textAt (.obj members)) =
      (List.range (entriesIn (.obj members) name)).flatMap fun position =>
        textAt (.obj members) [.key name, .index position, .key "body"] := by
  rw [listedPlaces, entriesIn]
  cases found : members.lookup name with
  | none => simp [readAt, found]
  | some value =>
      cases value with
      | arr items =>
          have each : ∀ indexed ∈ items.zipIdx, (entryPlace name indexed).flatMap (textAt (.obj members)) =
              textAt (.obj members) [.key name, .index indexed.2, .key "body"] := by
            rintro ⟨item, position⟩ listed
            rw [List.mem_zipIdx_iff_getElem?] at listed
            rw [entryPlace]
            split
            next => simp [body]
            next absent =>
              rw [List.flatMap_nil, textAt_absent]
              rw [body] at absent
              cases item with
              | obj value =>
                  have none := lookup_of_not_has (by simpa [fieldIn] using absent)
                  simp [readAt, found, listed, none]
              | _ => simp [readAt, found, listed]
          have positions : items.zipIdx.map Prod.snd = List.range items.length := by
            rw [List.zipIdx_map_snd, List.range_eq_range']
          change (items.zipIdx.flatMap (entryPlace name)).flatMap _ = _
          rw [List.flatMap_assoc, List.flatMap_congr each]
          simp only [readAt, found, Option.bind_some]
          rw [← positions, List.flatMap_map]
      | _ => simp [readAt, found]

theorem ranked_placesOf (members : Members) : (placesOf members).filter isRanked =
    subjects.flatMap (subjectPlaces members) ++ discussions.flatMap (listedPlaces members) := by
  have first : ∀ place ∈ subjects.flatMap (subjectPlaces members), isRanked place = true := by
    intro place member
    obtain ⟨name, named, inside⟩ := List.mem_flatMap.mp member
    obtain ⟨-, -, field, listed, -, rfl⟩ := mem_subjectPlaces.mp inside
    have each : ∀ field ∈ ["title", "body"], isRanked [.key "", .key field] = true := by decide
    exact each field listed
  have second : ∀ place ∈ discussions.flatMap (listedPlaces members), isRanked place = true := by
    intro place member
    obtain ⟨name, named, inside⟩ := List.mem_flatMap.mp member
    obtain ⟨-, -, position, -, -, -, rfl⟩ := mem_listedPlaces.mp inside
    have each : ∀ name ∈ discussions, proseField name = "body" := by decide
    rw [each name named]
    rfl
  have third : ∀ place ∈ ["commits", "changed_files"].flatMap (listedPlaces members), ¬ isRanked place = true := by
    intro place member
    obtain ⟨name, named, inside⟩ := List.mem_flatMap.mp member
    obtain ⟨-, -, position, -, -, -, rfl⟩ := mem_listedPlaces.mp inside
    have each : ∀ name ∈ ["commits", "changed_files"], isRanked [.key (proseField name)] = false := by decide
    have out := each name named
    simpa [isRanked] using out
  rw [placesOf, List.filter_cons_of_neg (by decide), gathered, List.flatMap_append, List.filter_append,
    List.filter_append, List.filter_eq_self.mpr first, List.filter_eq_self.mpr second,
    List.filter_eq_nil_iff.mpr third, List.append_nil]

theorem ranking_eq_ok {payload : Json} {members : Members} {data : Bytes} (formed : payload.normal = true)
    (rendered : Rendered library maxBytes payload members data) :
    requestRankingProse library maxBytes data = .ok ("\n".intercalate (titlesAndBodies payload)) := by
  refine bind_eq_ok.mpr ⟨payload, parse_rendered formed rendered, ?_⟩
  obtain ⟨rfl, shaped⟩ := validate_shaped rendered.valid
  refine bind_eq_ok.mpr ⟨placesOf members, locations_regular shaped.regular, ?_⟩
  refine bind_eq_ok.mpr ⟨_, rankingTexts_eq_ok fun _ member => shaped.prose member, ?_⟩
  have bodies : ∀ name ∈ discussions, proseField name = "body" := by decide
  rw [ranked_placesOf, List.flatMap_append, List.flatMap_assoc, List.flatMap_assoc,
    List.flatMap_congr fun name _ => texts_subject members name,
    List.flatMap_congr fun name named => texts_listed members name (bodies name named)]
  rfl

/-! ### The codec -/

theorem blank_writeAt {places : List Place} (apart : places.Pairwise Apart) {place : Place} (member : place ∈ places)
    (new value : Json) : blank places (writeAt place new value) = blank places value := by
  induction places generalizing value with
  | nil => cases member
  | cons other rest ih =>
      obtain ⟨here, later⟩ := List.pairwise_cons.mp apart
      change blank rest (writeAt other .null (writeAt place new value)) = blank rest (writeAt other .null value)
      rcases List.mem_cons.mp member with rfl | deeper
      · rw [Json.writeAt_writeAt]
      · have swapped : writeAt other .null (writeAt place new value) = writeAt place new (writeAt other .null value) :=
          Json.modifyAt_comm (here place deeper) _ _ value
        rw [swapped, ih later deeper]

theorem paths_writeAt {places : List Place} (located : ∀ place ∈ places, Located place) {place : Place}
    (at_place : Located place) {value : Json} {old new : String} (reads : readAt place value = some (.str old)) :
    (textsAt places (writeAt place (.str new) value)).map Prod.fst = (textsAt places value).map Prod.fst := by
  rw [textsAt, textsAt, List.map_filterMap, List.map_filterMap]
  refine List.filterMap_congr fun other member => ?_
  by_cases same : other = place
  · subst same
    rw [Json.readAt_writeAt reads, reads]
    rfl
  · rw [writeAt, Json.readAt_modifyAt_apart ((located other member).apart at_place same)]

/-- The header of the document of a payload. -/
def documentHeader (members : Members) : Json :=
  headerOf (blank (placesOf members) (.obj members)) ((textsAt (placesOf members) (.obj members)).map Prod.fst)

/-- Another text at a prose location leaves the header as it is. -/
theorem documentHeader_writeAt {members : Members} {place : Place} (member : place ∈ placesOf members)
    {old new : String} (reads : readAt place (.obj members) = some (.str old)) :
    documentHeader (membersOf (writeAt place (.str new) (.obj members))) = documentHeader members := by
  have located := located_of_mem member
  rw [documentHeader, documentHeader, writeAt, placesOf_modify located, ← modifyAt_obj located]
  rw [← writeAt, blank_writeAt (apart_placesOf members) member,
    paths_writeAt (fun _ member => located_of_mem member) located reads]

end

theorem document_codec_sound (library : Library) (maxBytes : Int) :
    (∀ (payload : Json) (data : Bytes), payload.normal = true →
      renderAuthoringRequest library maxBytes payload = .ok data →
      (∀ wider, maxBytes ≤ wider → wider ≤ maxRequestBytes →
        parseAuthoringRequest library wider data = .ok payload ∧
        requestRankingProse library wider data = .ok ("\n".intercalate (titlesAndBodies payload))) ∧
      ∃ members, payload = .obj members ∧
        data = version ++ headed "Metadata".toList (documentHeader members).canonical ++
          (textsAt (placesOf members) payload).flatMap fun entry =>
            headed (textLabel (pathOf entry.1)) (Utf8.encode entry.2.toList)) ∧
    (∀ (data : Bytes) (payload : Json), parseAuthoringRequest library maxBytes data = .ok payload →
      renderAuthoringRequest library maxBytes payload = .ok data) ∧
    (∀ (data : Bytes) (raised : Raised), parseAuthoringRequest library maxBytes data = .error raised →
      ∃ message, raised = .value message) ∧
    ∀ (members : Members), ∀ place ∈ placesOf members, ∀ old new : String,
      readAt place (.obj members) = some (.str old) →
      documentHeader (membersOf (writeAt place (.str new) (.obj members))) = documentHeader members := by
  refine ⟨fun payload data formed rendering => ?_, fun _ _ => render_parsed, fun _ _ => parse_raises,
    fun _ _ member _ _ => documentHeader_writeAt member⟩
  obtain ⟨members, rendered⟩ := render_eq_ok.mp rendering
  refine ⟨fun wider more allowed => ?_, members, (validate_shaped rendered.valid).1, ?_⟩
  · have still := rendered.wider more allowed
    exact ⟨parse_rendered formed still, ranking_eq_ok formed still⟩
  · obtain ⟨rfl, -⟩ := validate_shaped rendered.valid
    exact rendered.text

def sampleLibrary : Library := ⟨fun _ => some ⟨"https", "api.github.com", none, none⟩, fun _ => some (some 0)⟩

def sampleProvenance (body : Json) : Members :=
  [("body", body), ("edit_history", .str "unavailable"), ("number", .int 7),
    ("retrieved_at", .str "2026-09-20T00:00:00Z"),
    ("source_response_sha256", .str "aaaaaaaaaaaaaaaaaaaaaaaaaaaaaaaaaaaaaaaaaaaaaaaaaaaaaaaaaaaaaaaa"),
    ("source_url", .str "https://api.github.com/repos/example/project/pulls/7")]

/-- A body that imitates a section of the document. -/
def samplePayload : Json :=
  .obj [("admissible_cutoff", .str "2026-01-01T00:00:00Z"), ("caveat", .str "c"), ("changed_files", .arr []),
    ("comments", .arr []), ("issue", .null), ("pr_comments", .arr []), ("provenance_label", .str "historical_request"),
    ("pull_request", .obj (sampleProvenance (.str "\nText /caveat UTF8-Bytes: 1\n\"\n"))),
    ("review_comments", .arr []), ("reviews", .arr [])]

theorem renders_sample : (renderAuthoringRequest sampleLibrary 4096 samplePayload).toBool = true := by decide +kernel

theorem document_codec_sound_sample : ∃ data, renderAuthoringRequest sampleLibrary 4096 samplePayload = .ok data ∧
    parseAuthoringRequest sampleLibrary 4096 data = .ok samplePayload := by
  obtain ⟨data, rendered⟩ := exists_ok renders_sample
  have formed : samplePayload.normal = true := by decide +kernel
  have read := ((document_codec_sound sampleLibrary 4096).1 samplePayload data formed rendered).1 4096 (le_refl _)
    (by decide)
  exact ⟨data, rendered, read.1⟩

end RequestDocument

end FeatureRl
