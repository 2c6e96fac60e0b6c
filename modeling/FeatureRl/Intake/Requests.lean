import FeatureRl.Contracts.Values
import FeatureRl.Lib.Dict
import FeatureRl.Lib.Gather
import FeatureRl.Lib.JsonReader

/-!
The request payload of a pull request intake: subjects and discussions as far as their sources were retrieved in time,
the inventory of changed files, and, for a reconstructed specification only, commits and history.
-/

namespace FeatureRl

open Checked

namespace Intake

inductive Label where
  | historicalRequest | reconstructedSpecification
deriving DecidableEq

def Label.text : Label → String
  | .historicalRequest => "historical_request"
  | .reconstructedSpecification => "reconstructed_specification"

inductive Raised where
  | value (message : String)
  | key (name : String)
  | type
  | attribute
deriving DecidableEq

/-- A captured response. -/
structure Source where
  url : String
  body : Bytes
  retrievedAt : Int
  editHistory : String

structure Spec where
  label : Label
  admissibleCutoff : Int
  recordedAt : Int
  prName : String
  issueName : Option String
  commentsName : Option String
  prCommentsName : Option String
  reviewsName : Option String
  reviewCommentsName : Option String
  filesName : String
  commitsName : String
  additionalPages : String → List String

structure ClassifiedFile where
  path : String
  category : String
  rationale : String

structure Commit where
  revision : String
  parents : List String
  authoredAt : Int
  committedAt : Int

structure Reconstruction where
  baselineCommit : String
  referenceCommit : String
  patchSha256 : String
  integration : String

/-- What the interpreter supplies: JSON texts, timestamps in both directions, and digests. -/
structure Python where
  json : Bytes → Option Json
  time : String → Option Int
  isoformat : Int → String
  sha256 : Bytes → String

section

variable (python : Python)

def readJson (body : Bytes) : Except Raised Json :=
  match python.json body with
  | none => .error (.value "source body is not valid JSON")
  | some value => .ok value

/-- `_parse_time`; only texts with the offset of UTC are times. -/
def parseTime : Json → Except Raised Int
  | .str text =>
      match python.time text with
      | none => .error (.value "source timestamp is invalid")
      | some time => .ok time
  | _ => .error (.value "source timestamp is invalid")

/-- The items of a loop over the value; only dictionaries have members to get. -/
def iterate : Json → Except Raised (List Json)
  | .arr items => .ok items
  | .obj [] => .ok []
  | .str text => if text = "" then .ok [] else .error .attribute
  | .obj _ => .error .attribute
  | _ => .error .type

def membersOf : Json → Except Raised Json.Members
  | .obj members => .ok members
  | _ => .error .attribute

/-- `item.get(key)`: a missing member is none, as null is. -/
def get (members : Json.Members) (key : String) : Json := (members.lookup key).getD .null

def truthy : Json → Bool
  | .null => false
  | .bool value => value
  | .int value => value ≠ 0
  | .float value => value.mantissa ≠ 0
  | .str text => text ≠ ""
  | .arr items => !items.isEmpty
  | .obj members => !members.isEmpty

/-- The members with these keys, as far as there are any. -/
def project (keys : List String) (members : Json.Members) : Json.Members :=
  keys.filterMap fun key => (members.lookup key).map fun value => (key, value)

variable (spec : Spec) (loaded : String → Source)

def historical : Bool := spec.label = .historicalRequest

def provenance (name : String) : Json.Members :=
  let source := loaded name
  [("source_url", .str source.url), ("source_response_sha256", .str (python.sha256 source.body)),
    ("retrieved_at", .str (python.isoformat source.retrievedAt)), ("edit_history", .str source.editHistory)]

/-- When an item was last updated; an item without such a time was last updated when it was created. -/
def updateTime (review : Bool) (members : Json.Members) : Except Raised Int :=
  let created := get members (if review then "submitted_at" else "created_at")
  let updated := get members "updated_at"
  parseTime python (if truthy updated then updated else created)

/-- Whether an item may be used: of a historical request only what was retrieved by the cutoff. -/
def admissible (members : Json.Members) (name : String) (review : Bool) : Except Raised Bool := do
  let source := loaded name
  let created := get members (if review then "submitted_at" else "created_at")
  match created with
  | .null =>
      match review, get members "state" with
      | true, .str "PENDING" => return !historical spec
      | _, _ => throw (.value "request evidence lacks its publication timestamp")
  | _ =>
      let start ← parseTime python created
      let updated ← updateTime python review members
      if updated < start ∨ source.retrievedAt < updated ∨ spec.recordedAt < source.retrievedAt then
        throw (.value "request evidence chronology is contradictory")
      return !historical spec || (updated ≤ source.retrievedAt && source.retrievedAt ≤ spec.admissibleCutoff)

def subjectKeys : List String :=
  ["number", "html_url", "title", "body", "state", "created_at", "updated_at", "merged_at", "merge_commit_sha", "user",
    "author_association", "labels"]

def discussionKeys : List String :=
  ["id", "html_url", "body", "user", "author_association", "state", "created_at", "updated_at", "submitted_at",
    "commit_id", "original_commit_id", "pull_request_review_id", "in_reply_to_id", "path", "line", "original_line",
    "start_line", "side", "start_side", "position", "original_position"]

def subject : Option String → Except Raised Json
  | none => return .null
  | some name => do
      let members ← membersOf (← readJson python (loaded name).body)
      if ← admissible python spec loaded members name false then
        return .obj (project subjectKeys members ++ provenance python loaded name)
      else return .null

/-- The first page of a response and the further ones. -/
def pagesOf (name : String) : List String := name :: spec.additionalPages name

/-- The entry of an item, if it may be used. -/
def entryOf (review : Bool) (page : String) (item : Json) : Except Raised (List Json) := do
  let members ← membersOf item
  if ← admissible python spec loaded members page review then
    return [.obj (project discussionKeys members ++ provenance python loaded page)]
  else return []

def pageEntries (review : Bool) (page : String) : Except Raised (List Json) := do
  let items ← iterate (← readJson python (loaded page).body)
  return (← mapAll (entryOf python spec loaded review page) items).flatten

def discussion (review : Bool) : Option String → Except Raised (List Json)
  | none => return []
  | some name => return (← mapAll (pageEntries python spec loaded review) (pagesOf spec name)).flatten

def caveat : String :=
  if historical spec then
    "Request prose is limited to evidence archived by the preimplementation cutoff. " ++
      "Creation timestamps alone do not prove the historical body revision. The separately " ++
      "labelled changed-file inventory was captured after implementation and only identifies " ++
      "paths for feature-file selection; it is not historical request evidence."
  else
    "Reconstructed specification from captured PR, optional linked issue, discussion, " ++
      "review and commit metadata, including evidence after the cutoff. Current bodies " ++
      "have no recoverable edit history and are not claimed as preimplementation intent. " ++
      "Raw responses and implementation history remain archived privately."

/-! ### Changed files -/

/-- A file name as a dictionary key; only strings are ever looked up. -/
def keyOf : Json → Except Raised (Option String)
  | .str name => .ok (some name)
  | .arr _ => .error .type
  | .obj _ => .error .type
  | _ => .ok none

def memberOf (members : Json.Members) (key : String) : Except Raised Json :=
  match members.lookup key with
  | none => .error (.key key)
  | some value => .ok value

/-- The inventory entry of a path: its item, the page it is on, and whether the path is the old side of a rename. -/
abbrev Inventory := Dict String (Json.Members × String × Bool)

def addFile (page : String) (inventory : Inventory) (item : Json) : Except Raised Inventory := do
  let members ← membersOf item
  let name ← keyOf (← memberOf members "filename")
  let inventory := match name with
    | none => inventory
    | some name => inventory.set name (members, page, false)
  match get members "status" with
  | .str "renamed" =>
      match ← keyOf (← memberOf members "previous_filename") with
      | none => return inventory
      | some previous =>
          if (inventory.get? previous).isSome then return inventory
          else return inventory.set previous (members, page, true)
  | _ => return inventory

def addPage (inventory : Inventory) (page : String) : Except Raised Inventory := do
  foldAll (addFile page) inventory (← iterate (← readJson python (loaded page).body))

/-- `dict | other`: later values replace earlier ones. -/
def update (members other : Json.Members) : Json.Members :=
  other.foldl (fun merged entry => Dict.setEntries entry.1 entry.2 merged) members

def changedFile (inventory : Inventory) (classified : ClassifiedFile) : Except Raised Json := do
  match inventory.get? classified.path with
  | none => throw (.key classified.path)
  | some (members, page, oldSide) =>
      let projected := project ["status", "previous_filename", "additions", "deletions", "changes"] members
      let projected := if oldSide then
        update projected [("status", .str "removed"), ("renamed_to", get members "filename")] else projected
      let metadata : Json.Members := [("path", .str classified.path), ("category", .str classified.category),
        ("evidence_scope", .str "postimplementation_file_inventory")]
      let metadata := if historical spec then metadata else metadata ++ [("rationale", .str classified.rationale)]
      return .obj (update (update projected metadata) (provenance python loaded page))

def changedFiles (classification : List ClassifiedFile) : Except Raised (List Json) := do
  let inventory ← foldAll (addPage python loaded) Dict.empty (pagesOf spec spec.filesName)
  mapAll (changedFile python spec loaded inventory) classification

/-! ### Commits and history -/

def commitEntry (objects : List Commit) (page : String) (item : Json) : Except Raised Json := do
  let members ← membersOf item
  let sha ← memberOf members "sha"
  match (← keyOf sha).bind fun revision => objects.reverse.find? fun commit => commit.revision = revision with
  | none => throw (.key "sha")
  | some commit =>
      let inner ← membersOf ((members.lookup "commit").getD (.obj []))
      let message := get inner "message"
      return .obj ([("sha", sha), ("message", message), ("parents", .arr (commit.parents.map Json.str)),
        ("authored_at", .str (python.isoformat commit.authoredAt)),
        ("committed_at", .str (python.isoformat commit.committedAt))] ++ provenance python loaded page)

def pageCommits (objects : List Commit) (page : String) : Except Raised (List Json) := do
  mapAll (commitEntry python loaded objects page) (← iterate (← readJson python (loaded page).body))

def historyOf (reconstruction : Reconstruction) : Json :=
  .obj [("baseline_commit", .str reconstruction.baselineCommit), ("reference_commit", .str reconstruction.referenceCommit),
    ("patch_sha256", .str reconstruction.patchSha256), ("integration", .str reconstruction.integration)]

/-- `_request_payload`. -/
def requestPayload (classification : List ClassifiedFile) (objects : List Commit) (reconstruction : Reconstruction) :
    Except Raised Json.Members := do
  let pullRequest ← subject python spec loaded (some spec.prName)
  let issue ← subject python spec loaded spec.issueName
  let comments ← discussion python spec loaded false spec.commentsName
  let prComments ← discussion python spec loaded false spec.prCommentsName
  let reviews ← discussion python spec loaded true spec.reviewsName
  let reviewComments ← discussion python spec loaded false spec.reviewCommentsName
  let request : Json.Members := [("provenance_label", .str spec.label.text),
    ("admissible_cutoff", .str (python.isoformat spec.admissibleCutoff)), ("pull_request", pullRequest),
    ("issue", issue), ("comments", .arr comments), ("pr_comments", .arr prComments), ("reviews", .arr reviews),
    ("review_comments", .arr reviewComments), ("caveat", .str (caveat spec))]
  if historical spec && !(truthy pullRequest || truthy issue || !comments.isEmpty || !prComments.isEmpty ||
      !reviews.isEmpty || !reviewComments.isEmpty) then
    throw (.value "historical_request requires archived preimplementation request evidence")
  let files ← changedFiles python spec loaded classification
  let request := request ++ [("changed_files", .arr files)]
  if historical spec then return request
  let commits ← mapAll (pageCommits python loaded objects) (pagesOf spec spec.commitsName)
  return request ++ [("commits", .arr commits.flatten), ("history", historyOf reconstruction)]

end

/-! ### What is retrieved in time -/

def early (spec : Spec) (loaded : String → Source) (page : String) : Bool :=
  (loaded page).retrievedAt ≤ spec.admissibleCutoff

section

variable {python : Python} {spec : Spec} {loaded : String → Source}

/-- The value of a computation, and nothing for one that raises. -/
def valueOf {α : Type} (outcome : Except Raised (List α)) : List α :=
  match outcome with
  | .ok value => value
  | .error _ => []

theorem mapAll_flatten {α β : Type} {f : α → Except Raised (List β)} {items : List α} {results : List (List β)}
    (mapped : mapAll f items = .ok results) : results.flatten = items.flatMap fun item => valueOf (f item) := by
  induction items generalizing results with
  | nil =>
      obtain rfl := Except.ok.inj mapped
      rfl
  | cons item rest ih =>
      rw [mapAll, bind_eq_ok] at mapped
      obtain ⟨value, here, mapped⟩ := mapped
      obtain ⟨others, later, same⟩ := bind_eq_ok.mp mapped
      obtain rfl := Except.ok.inj same
      rw [List.flatten_cons, List.flatMap_cons, here, ih later]
      rfl

/-- What may be used was last updated and retrieved by the cutoff. -/
theorem admissible_timely (label : spec.label = .historicalRequest) {members : Json.Members} {name : String}
    {review : Bool} (used : admissible python spec loaded members name review = .ok true) :
    early spec loaded name = true ∧
      ∃ time, updateTime python review members = .ok time ∧ time ≤ spec.admissibleCutoff := by
  have past : historical spec = true := by simp [historical, label]
  unfold admissible at used
  simp only at used
  split at used
  next =>
    split at used
    next => rw [past] at used; cases used
    next => cases used
  next =>
    obtain ⟨start, _, used⟩ := bind_eq_ok.mp used
    obtain ⟨updated, known, used⟩ := bind_eq_ok.mp used
    split at used
    next => cases used
    next =>
      rw [past] at used
      have timely := Except.ok.inj used
      simp only [Bool.not_true, Bool.false_or, Bool.and_eq_true, decide_eq_true_eq] at timely
      exact ⟨decide_eq_true timely.2, updated, known, le_trans timely.1 timely.2⟩

/-! ### Entries -/

theorem lookup_project {keys : List String} {members : Json.Members} {key : String} :
    (project keys members).lookup key = if key ∈ keys then members.lookup key else none := by
  induction keys with
  | nil => rfl
  | cons head rest ih =>
      rw [project, List.filterMap_cons, ← project]
      by_cases same : key = head
      · subst same
        rw [if_pos List.mem_cons_self]
        cases found : members.lookup key with
        | none =>
            simp only [Option.map_none]
            rw [ih, found]
            split <;> rfl
        | some value => simp
      · have differs : (key ∈ head :: rest) = (key ∈ rest) := by simp [same]
        simp only [differs]
        rw [← ih]
        cases members.lookup head with
        | none => rfl
        | some value =>
            simp only [Option.map_some]
            rw [Dict.lookup_cons_of_ne same]

def provenanceKeys : List String := ["source_url", "source_response_sha256", "retrieved_at", "edit_history"]

theorem map_provenance (page : String) : (provenance python loaded page).map Prod.fst = provenanceKeys := rfl

/-- A member that is projected is the one of the item. -/
theorem get_project {keys : List String} {members : Json.Members} {key page : String} (member : key ∈ keys)
    (other : key ∉ provenanceKeys) :
    get (project keys members ++ provenance python loaded page) key = get members key := by
  have absent : (provenance python loaded page).lookup key = none := by
    rw [List.lookup_eq_none_iff]
    intro entry inside
    have named : entry.1 ∈ provenanceKeys := List.mem_map_of_mem inside
    rw [bne_iff_ne]
    rintro rfl
    exact other named
  rw [get, List.lookup_append, absent, lookup_project, if_pos member, Option.or_none, ← get]

theorem updateTime_project {keys : List String} {members : Json.Members} {page : String} {review : Bool}
    (times : "updated_at" ∈ keys ∧ (if review then "submitted_at" else "created_at") ∈ keys) :
    updateTime python review (project keys members ++ provenance python loaded page) =
      updateTime python review members := by
  rw [updateTime, updateTime, get_project times.1 (by decide), get_project times.2]
  cases review <;> decide

/-- An entry that was last updated by the cutoff. -/
def Timely (python : Python) (spec : Spec) (review : Bool) (entry : Json) : Prop :=
  ∃ members time, entry = .obj members ∧ updateTime python review members = .ok time ∧ time ≤ spec.admissibleCutoff

theorem subject_timely (label : spec.label = .historicalRequest) {name : Option String} {value : Json}
    (made : subject python spec loaded name = .ok value) : value = .null ∨
      (∃ page, name = some page ∧ early spec loaded page = true) ∧ Timely python spec false value := by
  cases name with
  | none => exact .inl (Except.ok.inj made).symm
  | some name =>
      obtain ⟨body, _, made⟩ := bind_eq_ok.mp made
      obtain ⟨members, _, made⟩ := bind_eq_ok.mp made
      obtain ⟨used, checked, made⟩ := bind_eq_ok.mp made
      cases used with
      | false => exact .inl (Except.ok.inj made).symm
      | true =>
          obtain ⟨inTime, time, known, bound⟩ := admissible_timely label checked
          obtain rfl := Except.ok.inj made
          refine .inr ⟨⟨name, rfl, inTime⟩, _, time, rfl, ?_, bound⟩
          rw [updateTime_project ⟨by decide, by decide⟩, known]

theorem entryOf_timely (label : spec.label = .historicalRequest) {review : Bool} {page : String} {item : Json}
    {entries : List Json} (made : entryOf python spec loaded review page item = .ok entries) :
    (∀ entry ∈ entries, Timely python spec review entry) ∧ (early spec loaded page = false → entries = []) := by
  obtain ⟨members, _, made⟩ := bind_eq_ok.mp made
  obtain ⟨used, checked, made⟩ := bind_eq_ok.mp made
  cases used with
  | false =>
      obtain rfl := Except.ok.inj made
      exact ⟨by simp, fun _ => rfl⟩
  | true =>
      obtain ⟨inTime, time, known, bound⟩ := admissible_timely label checked
      obtain rfl := Except.ok.inj made
      refine ⟨List.forall_mem_singleton.mpr ⟨_, time, rfl, ?_, bound⟩, fun late => ?_⟩
      · rw [updateTime_project ⟨by decide, by cases review <;> decide⟩, known]
      · rw [inTime] at late
        cases late

theorem pageEntries_timely (label : spec.label = .historicalRequest) {review : Bool} {page : String}
    {entries : List Json} (made : pageEntries python spec loaded review page = .ok entries) :
    (∀ entry ∈ entries, Timely python spec review entry) ∧ (early spec loaded page = false → entries = []) := by
  obtain ⟨body, _, made⟩ := bind_eq_ok.mp made
  obtain ⟨items, _, made⟩ := bind_eq_ok.mp made
  obtain ⟨results, mapped, made⟩ := bind_eq_ok.mp made
  obtain rfl := Except.ok.inj made
  have each := forall_of_forall₂ (forall₂_of_mapAll mapped)
  constructor
  · intro entry member
    obtain ⟨result, inside, found⟩ := List.mem_flatten.mp member
    obtain ⟨item, _, made⟩ := each result inside
    exact (entryOf_timely label made).1 entry found
  · intro late
    rw [List.flatten_eq_nil_iff]
    intro result inside
    obtain ⟨item, _, made⟩ := each result inside
    exact (entryOf_timely label made).2 late

/-- The entries of a response are those of its early pages. -/
theorem discussion_eq (label : spec.label = .historicalRequest) {review : Bool} {name : String} {entries : List Json}
    (made : discussion python spec loaded review (some name) = .ok entries) :
    entries = ((pagesOf spec name).filter (early spec loaded)).flatMap fun page =>
      valueOf (pageEntries python spec loaded review page) := by
  obtain ⟨results, mapped, made⟩ := bind_eq_ok.mp made
  obtain rfl := Except.ok.inj made
  rw [mapAll_flatten mapped]
  refine flatMap_filter fun page _ late => ?_
  cases found : pageEntries python spec loaded review page with
  | error => rfl
  | ok entries => exact (pageEntries_timely label found).2 late

theorem discussion_timely (label : spec.label = .historicalRequest) {review : Bool} {name : Option String}
    {entries : List Json} (made : discussion python spec loaded review name = .ok entries) :
    ∀ entry ∈ entries, Timely python spec review entry := by
  cases name with
  | none =>
      obtain rfl := Except.ok.inj made
      simp
  | some name =>
      rw [discussion_eq label made]
      intro entry member
      obtain ⟨page, _, inside⟩ := List.mem_flatMap.mp member
      cases found : pageEntries python spec loaded review page with
      | error => rw [found] at inside; cases inside
      | ok values =>
          rw [found] at inside
          exact (pageEntries_timely label found).1 entry inside

/-! ### Two intakes -/

/-- Two intakes of a historical request that differ only in pages that were retrieved after the cutoff. -/
structure SameUntilCutoff (spec other : Spec) (loaded captured : String → Source) : Prop where
  label : spec.label = .historicalRequest
  rest : ∃ pages, other = { spec with additionalPages := pages }
  sources : ∀ page, early spec loaded page = true ∨ early other captured page = true → loaded page = captured page
  pages : ∀ name, (pagesOf spec name).filter (early spec loaded) = (pagesOf other name).filter (early other captured)

variable {other : Spec} {captured : String → Source}

theorem SameUntilCutoff.label_other (same : SameUntilCutoff spec other loaded captured) :
    other.label = .historicalRequest := by
  obtain ⟨pages, rfl⟩ := same.rest
  exact same.label

theorem provenance_congr {name : String} (sources : loaded name = captured name) :
    provenance python loaded name = provenance python captured name := by
  rw [provenance, provenance, sources]

theorem admissible_congr (pages : String → List String) {name : String} (sources : loaded name = captured name)
    (members : Json.Members) (review : Bool) : admissible python spec loaded members name review =
      admissible python { spec with additionalPages := pages } captured members name review := by
  simp only [admissible, sources, historical]

theorem subject_congr (same : SameUntilCutoff spec other loaded captured) {name : Option String} {first second : Json}
    (made : subject python spec loaded name = .ok first) (again : subject python other captured name = .ok second) :
    first = second := by
  have agree (page : String) (named : name = some page) (sources : loaded page = captured page) : first = second := by
    obtain ⟨pages, rfl⟩ := same.rest
    subst named
    have equal : subject python spec loaded (some page) =
        subject python { spec with additionalPages := pages } captured (some page) := by
      simp only [subject, admissible_congr pages sources, provenance_congr sources, sources]
    rw [equal, again] at made
    exact (Except.ok.inj made).symm
  rcases subject_timely same.label made with rfl | ⟨⟨page, named, inTime⟩, _⟩
  · rcases subject_timely same.label_other again with rfl | ⟨⟨page, named, inTime⟩, _⟩
    · rfl
    · exact agree page named (same.sources page (.inr inTime))
  · exact agree page named (same.sources page (.inl inTime))

theorem pageEntries_congr (pages : String → List String) (review : Bool) {page : String}
    (sources : loaded page = captured page) : pageEntries python spec loaded review page =
      pageEntries python { spec with additionalPages := pages } captured review page := by
  have entries : entryOf python spec loaded review page =
      entryOf python { spec with additionalPages := pages } captured review page := by
    funext item
    simp only [entryOf, admissible_congr pages sources, provenance_congr sources]
  rw [pageEntries, pageEntries, entries, sources]

theorem discussion_congr (same : SameUntilCutoff spec other loaded captured) {review : Bool} {name : Option String}
    {first second : List Json} (made : discussion python spec loaded review name = .ok first)
    (again : discussion python other captured review name = .ok second) : first = second := by
  cases name with
  | none => rw [← Except.ok.inj made, ← Except.ok.inj again]
  | some name =>
      rw [discussion_eq same.label made, discussion_eq same.label_other again, ← same.pages name]
      obtain ⟨pages, rfl⟩ := same.rest
      refine List.flatMap_congr fun page member => ?_
      have inTime := (List.mem_filter.mp member).2
      rw [pageEntries_congr pages review (same.sources page (.inl inTime))]

/-! ### The payload -/

structure Sections where
  pullRequest : Json
  issue : Json
  comments : List Json
  prComments : List Json
  reviews : List Json
  reviewComments : List Json
  files : List Json

/-- What a historical request says before its inventory of files. -/
def Sections.prose (python : Python) (spec : Spec) (sections : Sections) : Json.Members :=
  [("provenance_label", .str spec.label.text), ("admissible_cutoff", .str (python.isoformat spec.admissibleCutoff)),
    ("pull_request", sections.pullRequest), ("issue", sections.issue), ("comments", .arr sections.comments),
    ("pr_comments", .arr sections.prComments), ("reviews", .arr sections.reviews),
    ("review_comments", .arr sections.reviewComments), ("caveat", .str (caveat spec))]

structure Sections.Made (python : Python) (spec : Spec) (loaded : String → Source)
    (classification : List ClassifiedFile) (sections : Sections) : Prop where
  pullRequest : subject python spec loaded (some spec.prName) = .ok sections.pullRequest
  issue : subject python spec loaded spec.issueName = .ok sections.issue
  comments : discussion python spec loaded false spec.commentsName = .ok sections.comments
  prComments : discussion python spec loaded false spec.prCommentsName = .ok sections.prComments
  reviews : discussion python spec loaded true spec.reviewsName = .ok sections.reviews
  reviewComments : discussion python spec loaded false spec.reviewCommentsName = .ok sections.reviewComments
  files : changedFiles python spec loaded classification = .ok sections.files

theorem requestPayload_eq_ok (label : spec.label = .historicalRequest) {classification : List ClassifiedFile}
    {objects : List Commit} {reconstruction : Reconstruction} {payload : Json.Members}
    (made : requestPayload python spec loaded classification objects reconstruction = .ok payload) :
    ∃ sections : Sections, sections.Made python spec loaded classification ∧
      payload = sections.prose python spec ++ [("changed_files", .arr sections.files)] := by
  have past : historical spec = true := by simp [historical, label]
  obtain ⟨pullRequest, one, made⟩ := bind_eq_ok.mp made
  obtain ⟨issue, two, made⟩ := bind_eq_ok.mp made
  obtain ⟨comments, three, made⟩ := bind_eq_ok.mp made
  obtain ⟨prComments, four, made⟩ := bind_eq_ok.mp made
  obtain ⟨reviews, five, made⟩ := bind_eq_ok.mp made
  obtain ⟨reviewComments, six, made⟩ := bind_eq_ok.mp made
  simp only [past, Bool.true_and, if_true] at made
  split at made
  next => cases made
  next =>
    obtain ⟨files, seven, made⟩ := bind_eq_ok.mp made
    exact ⟨⟨pullRequest, issue, comments, prComments, reviews, reviewComments, files⟩,
      ⟨one, two, three, four, five, six, seven⟩, (Except.ok.inj made).symm⟩

theorem prose_congr (same : SameUntilCutoff spec other loaded captured) {classification others : List ClassifiedFile}
    {first second : Sections} (made : first.Made python spec loaded classification)
    (again : second.Made python other captured others) : first.prose python spec = second.prose python other := by
  obtain ⟨pages, rfl⟩ := same.rest
  have pullRequest := subject_congr same made.pullRequest again.pullRequest
  have issue := subject_congr same made.issue again.issue
  have comments := discussion_congr same made.comments again.comments
  have prComments := discussion_congr same made.prComments again.prComments
  have reviews := discussion_congr same made.reviews again.reviews
  have reviewComments := discussion_congr same made.reviewComments again.reviewComments
  rw [Sections.prose, Sections.prose, pullRequest, issue, comments, prComments, reviews, reviewComments]
  rfl

/-! ### The inventory of files -/

theorem keys_update {members more : Json.Members} {key : String} :
    key ∈ (update members more).map Prod.fst ↔ key ∈ members.map Prod.fst ∨ key ∈ more.map Prod.fst := by
  induction more generalizing members with
  | nil => simp [update]
  | cons entry rest ih =>
      rw [update, List.foldl_cons, ← update, ih, Dict.mem_keys_setEntries, List.map_cons, List.mem_cons]
      tauto

theorem keys_project {keys : List String} {members : Json.Members} {key : String}
    (member : key ∈ (project keys members).map Prod.fst) : key ∈ keys := by
  obtain ⟨entry, inside, rfl⟩ := List.mem_map.mp member
  obtain ⟨name, known, found⟩ := List.mem_filterMap.mp inside
  obtain ⟨value, _, rfl⟩ := Option.map_eq_some_iff.mp found
  exact known

/-- The inventory of a historical request gives no rationale. -/
theorem changedFile_bare (label : spec.label = .historicalRequest) {inventory : Inventory}
    {classified : ClassifiedFile} {file : Json} (made : changedFile python spec loaded inventory classified = .ok file) :
    ∃ members, file = .obj members ∧ "rationale" ∉ members.map Prod.fst := by
  have past : historical spec = true := by simp [historical, label]
  rw [changedFile] at made
  split at made
  next => cases made
  next members page oldSide _ =>
    obtain rfl := Except.ok.inj made
    refine ⟨_, rfl, fun member => ?_⟩
    rw [if_pos past, keys_update, keys_update, map_provenance] at member
    rcases member with (projected | metadata) | source
    · cases oldSide with
      | false => exact absurd (keys_project projected) (by decide)
      | true =>
          rw [if_pos rfl, keys_update] at projected
          rcases projected with projected | renamed
          · exact absurd (keys_project projected) (by decide)
          · exact absurd renamed (by simp)
    · exact absurd metadata (by simp)
    · exact absurd source (by decide)

theorem changedFiles_bare (label : spec.label = .historicalRequest) {classification : List ClassifiedFile}
    {files : List Json} (made : changedFiles python spec loaded classification = .ok files) :
    ∀ file ∈ files, ∃ members, file = .obj members ∧ "rationale" ∉ members.map Prod.fst := by
  obtain ⟨inventory, _, mapped⟩ := bind_eq_ok.mp made
  intro file member
  obtain ⟨classified, _, made⟩ := forall_of_forall₂ (forall₂_of_mapAll mapped) file member
  exact changedFile_bare label made

/-- What a historical request leaves out: it has no commits and no history, its files have no rationale, and no
subject or discussion item was updated after the cutoff. -/
structure Silent (python : Python) (spec : Spec) (payload : Json.Members) : Prop where
  keys : payload.map Prod.fst = ["provenance_label", "admissible_cutoff", "pull_request", "issue", "comments",
    "pr_comments", "reviews", "review_comments", "caveat", "changed_files"]
  files : ∀ files, payload.lookup "changed_files" = some (.arr files) →
    ∀ file ∈ files, ∃ members, file = .obj members ∧ "rationale" ∉ members.map Prod.fst
  subjects : ∀ key ∈ ["pull_request", "issue"], ∀ value, payload.lookup key = some value →
    value = .null ∨ Timely python spec false value
  discussions : ∀ key ∈ ["comments", "pr_comments", "reviews", "review_comments"], ∀ items,
    payload.lookup key = some (.arr items) → ∀ item ∈ items, Timely python spec (key = "reviews") item

theorem silent_of_made (label : spec.label = .historicalRequest) {classification : List ClassifiedFile}
    {sections : Sections} (made : sections.Made python spec loaded classification) :
    Silent python spec (sections.prose python spec ++ [("changed_files", .arr sections.files)]) where
  keys := rfl
  files files found := by
    obtain rfl := Json.arr.inj (Option.some.inj found)
    exact changedFiles_bare label made.files
  subjects key member value found := by
    simp only [List.mem_cons, List.not_mem_nil, or_false] at member
    rcases member with rfl | rfl
    · obtain rfl := Option.some.inj found
      exact (subject_timely label made.pullRequest).imp_right And.right
    · obtain rfl := Option.some.inj found
      exact (subject_timely label made.issue).imp_right And.right
  discussions key member items found := by
    simp only [List.mem_cons, List.not_mem_nil, or_false] at member
    rcases member with rfl | rfl | rfl | rfl <;> obtain rfl := Json.arr.inj (Option.some.inj found)
    · exact discussion_timely label made.comments
    · exact discussion_timely label made.prComments
    · exact discussion_timely label made.reviews
    · exact discussion_timely label made.reviewComments

end

/-- Two accepted intakes of a historical request that differ only in what was retrieved after the cutoff have the same
payload up to the inventory of files, and each leaves out what came later. -/
theorem historical_request_sound {python : Python} {spec other : Spec} {loaded captured : String → Source}
    (same : SameUntilCutoff spec other loaded captured) {classification others : List ClassifiedFile}
    {objects more : List Commit} {reconstruction again : Reconstruction} {first second : Json.Members}
    (made : requestPayload python spec loaded classification objects reconstruction = .ok first)
    (remade : requestPayload python other captured others more again = .ok second) :
    (∃ sections files inventory, first = sections ++ [("changed_files", files)] ∧
      second = sections ++ [("changed_files", inventory)]) ∧
    Silent python spec first ∧ Silent python other second := by
  obtain ⟨sections, each, rfl⟩ := requestPayload_eq_ok same.label made
  obtain ⟨parts, every, rfl⟩ := requestPayload_eq_ok same.label_other remade
  refine ⟨⟨sections.prose python spec, .arr sections.files, .arr parts.files, rfl, ?_⟩, silent_of_made same.label each,
    silent_of_made same.label_other every⟩
  rw [prose_congr same each every]

namespace Sample

def pullRequest : String := "\x7b\"created_at\":\"1970-01-01T00:00:05Z\",\"number\":1,\"title\":\"t\",\"updated_at\":null\x7d"

def files : String := "[\x7b\"filename\":\"a.py\",\"status\":\"added\"\x7d]"

def comments : String := "[\x7b\"body\":\"b\",\"created_at\":\"1970-01-01T00:00:06Z\",\"id\":1\x7d]"

/-- A comment from after the cutoff. -/
def late : String := "[\x7b\"body\":\"c\",\"created_at\":\"1970-01-01T00:00:15Z\",\"id\":2\x7d]"

def bytes (text : String) : Bytes := Utf8.encode text.toList

def python : Python where
  json := Json.loads
  time text := [("1970-01-01T00:00:05Z", 5), ("1970-01-01T00:00:06Z", 6), ("1970-01-01T00:00:15Z", 15)].lookup text
  isoformat time := if time = 10 then "1970-01-01T00:00:10Z" else "1970-01-01T00:00:20Z"
  sha256 body := ([(bytes pullRequest, "1b3c9c8364c8404ec23d14335e872374886249bc2932d014571e96bb50753027"),
    (bytes files, "0d7bd95438fe4cc8317f30b4e06288b7ba97667dec31eeed93b76c88438c3393"),
    (bytes comments, "1c9643d4019699e42aa31a5c57d065df6aa518738ca58cea8126a8334416b089"),
    (bytes late, "b026af902e68237bfdd3b6db452dd203e28e0fdd1bbe6f4eae5ffec720032141")].lookup body).getD ""

def url (path : String) : String := "https://api.github.com/repos/o/r/" ++ path

def loaded (page : String) : Source :=
  if page = "pr" then ⟨url "pulls/1", bytes pullRequest, 10, "unavailable"⟩
  else if page = "files" then ⟨url "pulls/1/files", bytes files, 20, "not_applicable"⟩
  else if page = "comments" then ⟨url "issues/1/comments", bytes comments, 10, "unavailable"⟩
  else ⟨url "issues/1/comments?page=2", bytes late, 20, "unavailable"⟩

def spec : Spec where
  label := .historicalRequest
  admissibleCutoff := 10
  recordedAt := 20
  prName := "pr"
  issueName := none
  commentsName := none
  prCommentsName := some "comments"
  reviewsName := none
  reviewCommentsName := none
  filesName := "files"
  commitsName := "commits"
  additionalPages _ := []

/-- The same intake with one more page of comments. -/
def longer : Spec := { spec with additionalPages := fun name => if name = "comments" then ["more"] else [] }

def classification : List ClassifiedFile := [⟨"a.py", "implementation", "source"⟩]

def reconstruction : Reconstruction := ⟨"b", "h", "p", "squash"⟩

theorem same : SameUntilCutoff spec longer loaded loaded where
  label := rfl
  rest := ⟨longer.additionalPages, rfl⟩
  sources _ _ := rfl
  pages name := by
    by_cases named : name = "comments"
    · subst named
      decide
    · simp only [pagesOf, longer, named, if_false]
      rfl

theorem accepted : ∃ payload, requestPayload python spec loaded classification [] reconstruction = .ok payload :=
  exists_ok (by decide +kernel)

theorem accepted_longer :
    ∃ payload, requestPayload python longer loaded classification [] reconstruction = .ok payload :=
  exists_ok (by decide +kernel)

end Sample

theorem historical_request_sound_sample : ∃ first second,
    ((∃ sections files inventory, first = sections ++ [("changed_files", files)] ∧
      second = sections ++ [("changed_files", inventory)]) ∧
    Silent Sample.python Sample.spec first ∧ Silent Sample.python Sample.longer second) := by
  obtain ⟨first, made⟩ := Sample.accepted
  obtain ⟨second, remade⟩ := Sample.accepted_longer
  exact ⟨first, second, historical_request_sound Sample.same made remade⟩

end Intake

end FeatureRl
