import FeatureRl.Contracts.Values
import FeatureRl.Lib.Checked
import FeatureRl.Lib.Sorting
import FeatureRl.Lib.UnionFind

/-! The deterministic relation closure that keeps related sources in one partition. -/

namespace FeatureRl

open Checked Sorting

inductive SplitError where
  | value (message : String)
  | conflict (message : String)
deriving DecidableEq

inductive RelationKind where
  | fork | backport | copiedCode | monorepo | descendant | sameRequest | dependency
deriving DecidableEq

namespace RelationKind

def name : RelationKind → String
  | fork => "fork"
  | backport => "backport"
  | copiedCode => "copied_code"
  | monorepo => "monorepo"
  | descendant => "descendant"
  | sameRequest => "same_request"
  | dependency => "dependency"

theorem name_injective : Function.Injective name := by
  intro one two same
  cases one <;> cases two <;> first | rfl | simp [name] at same

/-- A dependency relates two sources without making them one. -/
def closes (kind : RelationKind) : Bool := kind ≠ dependency

end RelationKind

/-- `[A-Za-z0-9][A-Za-z0-9_.-]*`. -/
def isSourceId (text : String) : Bool := isWord ['_', '.', '-'] text

/-- Text that is not empty after stripping: the blanks and the four separators are stripped. -/
def isRecorded (text : String) : Bool :=
  text.toList.any fun c => !(isBlank c || (28 ≤ c.toNat && c.toNat ≤ 31))

structure Relation where
  left : String
  right : String
  kind : RelationKind
  proof : String
  valid : isSourceId left = true ∧ isSourceId right = true ∧ left ≠ right ∧ isRecorded proof = true
deriving DecidableEq

namespace Relation

def build (left right : String) (kind : RelationKind) (proof : String) : Except SplitError Relation :=
  if ends : ¬ (isSourceId left = true ∧ isSourceId right = true) then
    .error (.value "relation endpoints must be safe source identifiers")
  else if same : left = right then .error (.value "relation endpoints must differ")
  else if unproved : ¬ isRecorded proof = true then .error (.value "relation requires recorded proof")
  else .ok ⟨left, right, kind, proof, by tauto⟩

/-- Relations are ordered by their fields, from left to right. -/
def key (relation : Relation) : List String :=
  [relation.left, relation.right, relation.kind.name, relation.proof]

theorem key_injective : Function.Injective key := by
  rintro ⟨left, right, kind, proof, _⟩ ⟨left', right', kind', proof', _⟩ same
  simp only [key, List.cons.injEq, and_true] at same
  obtain ⟨rfl, rfl, named, rfl⟩ := same
  obtain rfl := RelationKind.name_injective named
  rfl

end Relation

structure SplitAssignment where
  sourceId : String
  partition : Partition
  componentId : String
deriving DecidableEq

def SplitAssignment.key (assignment : SplitAssignment) : List String :=
  [assignment.sourceId, assignment.partition.name, assignment.componentId]

structure PartitionManifest where
  assignments : List SplitAssignment
  relations : List Relation
  reviewRequired : List Relation
deriving DecidableEq

namespace SplitPlanner

/-- The members with a zero byte between them. -/
def joined : List String → List Char
  | [] => []
  | [last] => last.toList
  | first :: rest => first.toList ++ Char.ofNat 0 :: joined rest

def componentId (sha256 : Bytes → Digest) (members : List String) : String :=
  "component-" ++ (sha256 (Utf8.encode (joined members))).val

/-- Every source that is requested or related. -/
def nodes (relations : List Relation) (requested : Dict String Partition) : List String :=
  sortBy id (requested.keys ++ relations.flatMap fun relation => [relation.left, relation.right]).dedup

/-- The endpoints of the relations that close. -/
def closingPairs (relations : List Relation) : List (String × String) :=
  (relations.filter fun relation => relation.kind.closes).map fun relation =>
    (relation.left, relation.right)

def parents (relations : List Relation) (requested : Dict String Partition) : Dict String String :=
  UnionFind.unions (UnionFind.start (nodes relations requested))
    (closingPairs (sortBy Relation.key relations))

/-- File one node under its root. -/
def file (carried : Dict String String × Dict String (List String)) (node : String) :
    Dict String String × Dict String (List String) :=
  let found := UnionFind.find carried.1 node
  (found.1, carried.2.set found.2 ((carried.2.get? found.2).getD [] ++ [node]))

def components (parent : Dict String String) (nodes : List String) : List (List String) :=
  (nodes.foldl file (parent, Dict.empty)).2.values

/-- The partitions that the members were asked to have. -/
def explicit (requested : Dict String Partition) (members : List String) : List Partition :=
  (members.filterMap requested.get?).dedup

/-- The text of a tuple of identifiers. -/
def tupleText (members : List String) : String :=
  "(" ++ String.intercalate ", " (members.map fun member => "'" ++ member ++ "'") ++
    (if members.length = 1 then ",)" else ")")

def conflictMessage (members : List String) (found : List Partition) : String :=
  "related component " ++ tupleText members ++ " has conflicting partitions: " ++
    String.intercalate ", " (sortBy id (found.map Partition.name))

def assignComponent (sha256 : Bytes → Digest) (requested : Dict String Partition)
    (assigned : List SplitAssignment) (listed : List String) : Except SplitError (List SplitAssignment) := do
  let members := sortBy id listed
  let found := explicit requested members
  refuse (1 < found.length) (.conflict (conflictMessage members found))
  .ok (assigned ++ members.map fun source =>
    ⟨source, found.head?.getD .unassigned, componentId sha256 members⟩)

/-- The planner is built over its relations, and then assigns the requested partitions. -/
def plan (sha256 : Bytes → Digest) (relations : List Relation) (requested : Dict String Partition) :
    Except SplitError PartitionManifest := do
  refuse (¬ relations.Nodup) (.value "duplicate source relation")
  refuse (requested.keys.all isSourceId = false)
    (.value "assignment source must be a safe identifier")
  let parent := parents relations requested
  let assigned ← foldAll (assignComponent sha256 requested) []
    (components parent (nodes relations requested))
  .ok ⟨sortBy SplitAssignment.key assigned, sortBy Relation.key relations,
    sortBy Relation.key (relations.filter fun relation => relation.kind = .dependency)⟩

end SplitPlanner

end FeatureRl
