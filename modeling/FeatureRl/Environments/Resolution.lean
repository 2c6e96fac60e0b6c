import FeatureRl.Contracts.Samples
import FeatureRl.Environments.Solutions

/-!
Resolution against a finite registry: the solver ends, returns a complete selection of indexed
wheels, and misses none.
-/

namespace FeatureRl

namespace Environments

variable {V M : Type} {problem : Problem V M} {catalog : Catalog V M}

def Catalog.wheels (catalog : Catalog V M) (name : String) : List (Wheel V M) :=
  (catalog.indexOf name).filterMap IndexedWheel.inspected

def Catalog.all (catalog : Catalog V M) : List (Wheel V M) :=
  catalog.index.values.flatten.filterMap IndexedWheel.inspected

/-- The packages that a root or any wheel of the registry names. -/
def Problem.names (problem : Problem V M) (catalog : Catalog V M) : Finset String :=
  ((problem.roots ++ catalog.all.flatMap Wheel.requirements).map problem.packaging.nameOf).toFinset

theorem mem_all {name : String} {wheel : Wheel V M} (offered : wheel ∈ catalog.wheels name) :
    wheel ∈ catalog.all := by
  obtain ⟨option, member, inspected⟩ := List.mem_filterMap.mp offered
  rw [Catalog.indexOf] at member
  cases found : catalog.index.get? name with
  | none =>
      rw [found] at member
      cases member
  | some list =>
      rw [found] at member
      have listed := List.mem_flatten.mpr ⟨list, Dict.mem_values.mpr ⟨name, found⟩, member⟩
      exact List.mem_filterMap.mpr ⟨option, listed, inspected⟩

theorem named_wheels {name : String} {wheel : Wheel V M} (offered : wheel ∈ catalog.wheels name) :
    wheel.name = name := by
  obtain ⟨option, member, inspected⟩ := List.mem_filterMap.mp offered
  rw [Catalog.indexOf] at member
  cases found : catalog.index.get? name with
  | none =>
      rw [found] at member
      cases member
  | some list =>
      rw [found] at member
      exact (catalog.named name list found option member).2 wheel inspected

/-- Every admitted version is yielded, whatever the order. -/
theorem mem_registryOptions {name : String} {requirements : List (Requirement M)}
    {hashes : Option (List String)} {prefer : Bool} {wheel : Wheel V M} :
    wheel ∈ problem.registryOptions catalog name requirements hashes prefer ↔
      ∃ option ∈ catalog.indexOf name, problem.permits requirements hashes option = true ∧
        problem.acquire option = some wheel := by
  simp only [Problem.registryOptions, List.mem_filterMap, List.mem_filter]
  refine exists_congr fun option => ?_
  rw [← and_assoc]
  refine and_congr_left' (and_congr_left' ?_)
  split
  next => rfl
  next =>
    simp only [List.mem_append, List.mem_filter, Bool.not_eq_true']
    cases problem.packaging.isPrerelease option.version <;> simp

theorem acquire_eq_some {option : IndexedWheel V M} {wheel : Wheel V M} :
    problem.acquire option = some wheel ↔ option.inspected = some wheel ∧
      wheel.requirements.all (isSafe problem.packaging) = true ∧
      wheel.tags.any (fun tag => tag ∈ problem.profile.compatibleTags) = true ∧
      problem.packaging.contains wheel.requiresPython problem.profile.interpreterVersion = true := by
  simp only [Problem.acquire, Option.filter_eq_some_iff, Bool.and_eq_true, and_assoc]

theorem filters_registryOptions : Filters (problem.registryOptions catalog) := by
  intro name requirements hashes prefer wheel offered allowed given
  obtain ⟨option, _, permitted, acquired⟩ := mem_registryOptions.mp offered
  obtain ⟨same, _⟩ := option.same wheel (acquire_eq_some.mp acquired).1
  rw [Option.mem_def] at given
  simp only [Problem.permits, given, Option.all_some, Bool.and_eq_true, decide_eq_true_eq] at permitted
  exact same ▸ permitted.1

theorem provides_registryOptions :
    Provides problem (problem.registryOptions catalog) catalog.wheels (problem.names catalog) where
  sound name requirements hashes prefer wheel offered := by
    obtain ⟨option, member, _, acquired⟩ := mem_registryOptions.mp offered
    exact List.mem_filterMap.mpr ⟨option, member, (acquire_eq_some.mp acquired).1⟩
  complete name requirements hashes prefer wheel offered admitted safe hashed specified := by
    obtain ⟨option, member, inspected⟩ := List.mem_filterMap.mp offered
    obtain ⟨samePin, sameVersion⟩ := option.same wheel inspected
    simp only [Problem.admits, Bool.and_eq_true] at admitted
    obtain ⟨⟨⟨_, tagged⟩, python⟩, _⟩ := admitted
    refine mem_registryOptions.mpr ⟨option, member, ?_,
      acquire_eq_some.mpr ⟨inspected, safe, tagged, python⟩⟩
    rw [Problem.permits, Bool.and_eq_true, List.all_eq_true, ← samePin, ← sameVersion]
    refine ⟨?_, specified⟩
    cases hashes with
    | none => rfl
    | some allowed => simpa using hashed allowed rfl
  named _ _ offered := named_wheels offered
  roots requirement member :=
    List.mem_toFinset.mpr (List.mem_map_of_mem (List.mem_append_left _ member))
  closed name wheel offered requirement member :=
    List.mem_toFinset.mpr (List.mem_map_of_mem (List.mem_append_right _
      (List.mem_flatMap.mpr ⟨wheel, mem_all offered, member⟩)))

/-- Enough of the packaging library for requirements on one package. -/
def plainPackaging : Packaging String Empty where
  canonicalizeName := id
  canonicalizeVersion version _ := some version
  satisfies specifier version := specifier = ⟨"==", version⟩
  prereleases _ := false
  isPrerelease _ := false
  parse text :=
    if text = "lib" then some ⟨"lib", none, [], [], none⟩
    else if text = "lib[fast]" then some ⟨"lib", none, ["fast"], [], none⟩
    else none
  render := Requirement.name
  renderMarker := Empty.elim
  markerNames := Empty.elim
  evaluate marker _ _ := marker.elim

theorem plainPackaging_lawful : plainPackaging.Lawful := by
  intro specifier _ _ canonical same version
  obtain rfl := Option.some.inj same
  rfl

def libPin : WheelPin := ⟨"lib", "1.0", "lib-1.0-py3-none-any.whl", String.ofList (List.replicate 64 'a')⟩

def libWheel : Wheel String Empty where
  item := ⟨libPin, ⟨String.ofList (List.replicate 64 'a'), isDigest_as⟩, ⟨"dependency-wheel", by decide⟩, 1,
    .authoring, .bytes, firstSchema⟩
  name := "lib"
  version := "1.0"
  tags := ["py3-none-any"]
  requiresPython := []
  requirements := []
  extras := []
  size := 10
  expandedSize := 30

def libCatalog : Catalog String Empty where
  index := ⟨[("lib", [⟨libPin, "1.0", some 10, some libWheel, by simp [libWheel]⟩])], by simp⟩
  named name list found option member := by
    obtain ⟨rfl, rfl⟩ : name = "lib" ∧ list = [⟨libPin, "1.0", some 10, some libWheel, by simp [libWheel]⟩] := by
      simpa [Dict.get?, List.lookup_cons, List.lookup_nil] using Dict.mem_entries.mpr found
    obtain rfl := List.mem_singleton.mp member
    exact ⟨rfl, fun wheel inspected => Option.some.inj inspected ▸ rfl⟩
  distinct name list found := by
    obtain ⟨rfl, rfl⟩ : name = "lib" ∧ list = [⟨libPin, "1.0", some 10, some libWheel, by simp [libWheel]⟩] := by
      simpa [Dict.get?, List.lookup_cons, List.lookup_nil] using Dict.mem_entries.mpr found
    simp

/-- A request for one requirement. -/
def libRequest (requirement : String) : Request String Empty where
  packaging := plainPackaging
  metadata := ⟨[], [requirement], [], .empty⟩
  profile := ⟨["py3-none-any"], "3.12.1"⟩
  rules := ⟨.pinnedAllowlist, []⟩
  dependencies := []
  environment := []
  policy := ⟨1000, 1000⟩

def isUnsolved (answer : Option (Except Failure (Option (List (Wheel V M))))) : Bool :=
  match answer with
  | some (.ok none) => true
  | _ => false

theorem eq_of_isUnsolved {answer : Option (Except Failure (Option (List (Wheel V M))))}
    (unsolved : isUnsolved answer = true) : answer = some (.ok none) := by
  match answer with
  | some (.ok none) => rfl

end Environments

end FeatureRl
