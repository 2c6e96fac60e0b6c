import FeatureRl.Environments.Requirements
import Mathlib.Algebra.BigOperators.Group.Finset.Basic
import Mathlib.Data.Finset.Prod

/-!
The closure of a selection: the packages and extras that the roots and the selected wheels
ask for. It is computed by a worklist whose order is left open by a scheduler.
-/

namespace FeatureRl

open Checked Sorting

namespace Environments

variable {V M : Type}

abbrev Selected (V M : Type) := Dict String (Wheel V M)

/-! ### Computing a closure -/

def Problem.admits (problem : Problem V M) (wheel : Wheel V M) : Bool :=
  (problem.hashesOf wheel.name).all (fun hashes => wheel.item.pin.sha256 ∈ hashes) &&
    problem.allowedArtifacts.all (fun allowed => wheel.item.artifact ∈ allowed) &&
    wheel.tags.any (fun tag => tag ∈ problem.profile.compatibleTags) &&
    problem.packaging.contains wheel.requiresPython problem.profile.interpreterVersion &&
    (problem.constraintsOf wheel.name).all fun requirement =>
      problem.packaging.contains requirement.specifier wheel.version

def Problem.accepts (problem : Problem V M) (wheel : Wheel V M) (requirements : List (Requirement M))
    (extras : List String) : Bool :=
  extras.all (fun extra => extra ∈ wheel.extras) && problem.admits wheel &&
    requirements.all fun requirement => problem.packaging.contains requirement.specifier wheel.version

/-- A requirement to look at with the extra that enables it; `vendor` says that a wheel declared it. -/
structure Item (M : Type) where
  requirement : Requirement M
  extra : String
  vendor : Bool

structure Closure (M : Type) where
  needed : Dict String (List (Requirement M))
  extras : Dict String (List String)
  expanded : List (String × String)
  known : List (String × RequirementKey)
  pending : List (Item M)

namespace Closure

def neededOf (closure : Closure M) (name : String) : List (Requirement M) := (closure.needed.get? name).getD []

def extrasOf (closure : Closure M) (name : String) : List String := (closure.extras.get? name).getD []

def start (problem : Problem V M) : Closure M :=
  ⟨.empty, .empty, [], [], problem.roots.map fun requirement => ⟨requirement, "", false⟩⟩

def addKnown (packaging : Packaging V M) (closure : Closure M) (requirement : Requirement M) : Closure M :=
  let name := packaging.nameOf requirement
  let key := (name, requirementKey packaging requirement)
  if key ∈ closure.known then closure
  else { closure with
    known := key :: closure.known
    needed := closure.needed.set name (closure.neededOf name ++ [requirement]) }

def addExtras (packaging : Packaging V M) (closure : Closure M) (requirement : Requirement M) : Closure M :=
  let name := packaging.nameOf requirement
  { closure with extras := closure.extras.set name (closure.extrasOf name ∪ packaging.extrasOf requirement) }

def expand (wheel : Wheel V M) (name : String) (closure : Closure M) (enabled : String) : Closure M :=
  if (name, enabled) ∈ closure.expanded then closure
  else { closure with
    expanded := (name, enabled) :: closure.expanded
    pending := closure.pending ++ wheel.requirements.map fun requirement => ⟨requirement, enabled, true⟩ }

/-- Look at one item. `none` is a selection that cannot be completed. -/
def visit (problem : Problem V M) (selected : Selected V M) (order : List String → List String)
    (closure : Closure M) (item : Item M) : Except Failure (Option (Closure M)) :=
  match problem.active item.requirement item.extra with
  | .error failure => if item.vendor = true then .ok none else .error failure
  | .ok false => .ok (some closure)
  | .ok true =>
      let name := problem.packaging.nameOf item.requirement
      let closure := (closure.addKnown problem.packaging item.requirement).addExtras problem.packaging
        item.requirement
      match selected.get? name with
      | none => .ok (some closure)
      | some wheel =>
          if problem.accepts wheel (closure.neededOf name) (closure.extrasOf name) = false then .ok none
          else .ok (some (("" :: order (closure.extrasOf name)).foldl (expand wheel name) closure))

end Closure

/-- An order of the pending items and of the extras of a package, by the steps that are left. -/
structure Scheduler (M : Type) where
  pick : Nat → List (Item M) → Option (Item M × List (Item M))
  order : Nat → List String → List String
  pick_none : ∀ steps pending, pick steps pending = none → pending = []
  pick_some : ∀ steps pending item rest, pick steps pending = some (item, rest) → pending.Perm (item :: rest)
  order_perm : ∀ steps extras, (order steps extras).Perm extras

/-- The last pending item comes first, and the extras are sorted. -/
def Scheduler.lastFirst : Scheduler M where
  pick _ pending := pending.getLast?.map fun item => (item, pending.dropLast)
  order _ extras := sortBy id extras
  pick_none _ pending none := by simpa using none
  pick_some _ pending item rest picked := by
    obtain ⟨last, found, same⟩ := Option.map_eq_some_iff.mp picked
    obtain ⟨rfl, rfl⟩ := Prod.mk.inj same
    rw [List.getLast?_eq_some_iff] at found
    obtain ⟨before, rfl⟩ := found
    rw [List.dropLast_concat]
    exact List.perm_append_singleton _ _
  order_perm _ extras := sortBy_perm id extras

/-- Visit pending items until none is left; `none` when the steps run out. -/
def walk (problem : Problem V M) (selected : Selected V M) (scheduler : Scheduler M) :
    Nat → Closure M → Option (Except Failure (Option (Closure M)))
  | 0, _ => none
  | steps + 1, closure =>
      match scheduler.pick steps closure.pending with
      | none => some (.ok (some closure))
      | some (item, rest) =>
          match Closure.visit problem selected (scheduler.order steps) { closure with pending := rest } item with
          | .error failure => some (.error failure)
          | .ok none => some (.ok none)
          | .ok (some next) => walk problem selected scheduler steps next

/-- Every pair of a selected package and an extra that some requirement may ask of it. -/
def Problem.pairs (problem : Problem V M) (selected : Selected V M) : Finset (String × String) :=
  selected.keys.toFinset ×ˢ ("" :: (problem.roots ++ selected.values.flatMap Wheel.requirements).flatMap
    problem.packaging.extrasOf).toFinset

def degree (selected : Selected V M) (name : String) : Nat :=
  ((selected.get? name).map fun wheel => wheel.requirements.length).getD 0

/-- The items that are pending, and those that a new pair would add. -/
def Closure.work (problem : Problem V M) (selected : Selected V M) (closure : Closure M) : Nat :=
  closure.pending.length +
    ∑ pair ∈ problem.pairs selected with pair ∉ closure.expanded, degree selected pair.1

/-- The closure of a selection, in the order of the source. -/
def Problem.closure (problem : Problem V M) (selected : Selected V M) :
    Except Failure (Option (Closure M)) :=
  (walk problem selected .lastFirst ((Closure.start problem).work problem selected + 1)
    (Closure.start problem)).getD (.ok none)

/-! ### What a selection asks for -/

/-- A requirement is looked at with an extra: a root, or a requirement of a selected wheel that
an applicable one asks for. -/
inductive Visited (problem : Problem V M) (chosen : String → Option (Wheel V M)) :
    Requirement M → String → Prop
  | root {requirement : Requirement M} (member : requirement ∈ problem.roots) :
      Visited problem chosen requirement ""
  | plain {parent requirement : Requirement M} {extra : String} {wheel : Wheel V M}
      (visited : Visited problem chosen parent extra) (active : problem.active parent extra = .ok true)
      (found : chosen (problem.packaging.nameOf parent) = some wheel)
      (member : requirement ∈ wheel.requirements) : Visited problem chosen requirement ""
  | extra {parent requirement : Requirement M} {extra enabled : String} {wheel : Wheel V M}
      (visited : Visited problem chosen parent extra) (active : problem.active parent extra = .ok true)
      (asked : enabled ∈ problem.packaging.extrasOf parent)
      (found : chosen (problem.packaging.nameOf parent) = some wheel)
      (member : requirement ∈ wheel.requirements) : Visited problem chosen requirement enabled

variable {problem : Problem V M} {chosen : String → Option (Wheel V M)}

def Active (problem : Problem V M) (chosen : String → Option (Wheel V M)) (requirement : Requirement M) :
    Prop :=
  ∃ extra, Visited problem chosen requirement extra ∧ problem.active requirement extra = .ok true

/-- The package is reached from the roots over applicable requirements of the chosen wheels. -/
def Needed (problem : Problem V M) (chosen : String → Option (Wheel V M)) (name : String) : Prop :=
  ∃ requirement, Active problem chosen requirement ∧ problem.packaging.nameOf requirement = name

/-- The chosen wheels do what is asked of them; packages may still be missing. -/
structure Consistent (problem : Problem V M) (chosen : String → Option (Wheel V M)) : Prop where
  evaluable : ∀ requirement extra, Visited problem chosen requirement extra →
    ∃ value, problem.active requirement extra = .ok value
  accepted : ∀ requirement, Active problem chosen requirement → ∀ wheel,
    chosen (problem.packaging.nameOf requirement) = some wheel →
      problem.packaging.contains requirement.specifier wheel.version = true ∧
        ∀ extra ∈ problem.packaging.extrasOf requirement, extra ∈ wheel.extras
  admitted : ∀ name, Needed problem chosen name → ∀ wheel, chosen name = some wheel →
    problem.admits wheel = true

/-- More wheels ask for more. -/
theorem Visited.mono {more : String → Option (Wheel V M)}
    (grows : ∀ name wheel, chosen name = some wheel → more name = some wheel)
    {requirement : Requirement M} {extra : String} (visited : Visited problem chosen requirement extra) :
    Visited problem more requirement extra := by
  induction visited with
  | root member => exact .root member
  | plain _ active found member ih => exact .plain ih active (grows _ _ found) member
  | extra _ active asked found member ih => exact .extra ih active asked (grows _ _ found) member

theorem Active.mono {more : String → Option (Wheel V M)}
    (grows : ∀ name wheel, chosen name = some wheel → more name = some wheel)
    {requirement : Requirement M} (active : Active problem chosen requirement) :
    Active problem more requirement := by
  obtain ⟨extra, visited, applicable⟩ := active
  exact ⟨extra, visited.mono grows, applicable⟩

theorem Needed.mono {more : String → Option (Wheel V M)}
    (grows : ∀ name wheel, chosen name = some wheel → more name = some wheel) {name : String}
    (needed : Needed problem chosen name) : Needed problem more name := by
  obtain ⟨requirement, active, same⟩ := needed
  exact ⟨requirement, active.mono grows, same⟩

/-- Fewer wheels are asked for less. -/
theorem Consistent.anti {more : String → Option (Wheel V M)} (consistent : Consistent problem more)
    (grows : ∀ name wheel, chosen name = some wheel → more name = some wheel) :
    Consistent problem chosen where
  evaluable requirement extra visited := consistent.evaluable requirement extra (visited.mono grows)
  accepted requirement active wheel found :=
    consistent.accepted requirement (active.mono grows) wheel (grows _ _ found)
  admitted name needed wheel found :=
    consistent.admitted name (needed.mono grows) wheel (grows _ _ found)

end Environments

end FeatureRl
