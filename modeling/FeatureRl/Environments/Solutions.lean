import FeatureRl.Environments.Solver
import Mathlib.Algebra.Order.BigOperators.Group.List

/-!
The solver finds a selection exactly when there is one, and what it finds is the closure of
the request.
-/

namespace FeatureRl

open Checked Sorting Backtrack

namespace Environments

variable {V M : Type} {problem : Problem V M} {selected : Selected V M} {options : Options V M}

/-! ### Selections -/

/-- The baseline pin of a package, when dependency changes are forbidden. -/
def Problem.pinned (problem : Problem V M) (name : String) (wheel : Wheel V M) : Prop :=
  problem.rules.dependencies = .forbidden → ∃ baseline, problem.baselineOf name = some baseline ∧
    problem.packaging.satisfies ⟨"==", baseline.version⟩ wheel.version = true ∧
    wheel.item.pin.sha256 = baseline.sha256

/-- A selection of wheels for exactly the packages that are reached from the roots, each of which
meets what is required of it. -/
structure Meets (problem : Problem V M) (wheels : String → List (Wheel V M)) (selected : Selected V M) :
    Prop where
  exact : ∀ name, name ∈ selected.keys ↔ Needed problem selected.get? name
  offered : ∀ name wheel, selected.get? name = some wheel → wheel ∈ wheels name
  specified : ∀ requirement, Active problem selected.get? requirement → ∀ wheel,
    selected.get? (problem.packaging.nameOf requirement) = some wheel →
      problem.packaging.contains requirement.specifier wheel.version = true
  admitted : ∀ name wheel, selected.get? name = some wheel → problem.admits wheel = true
  fits : problem.fits selected = true

/-- The selections that the solver may return. -/
structure Solves (problem : Problem V M) (wheels : String → List (Wheel V M)) (selected : Selected V M) :
    Prop extends Meets problem wheels selected where
  evaluable : ∀ requirement extra, Visited problem selected.get? requirement extra →
    ∃ value, problem.active requirement extra = .ok value
  complete : ∀ requirement, Active problem selected.get? requirement → ∀ wheel,
    selected.get? (problem.packaging.nameOf requirement) = some wheel →
      ∀ extra ∈ problem.packaging.extrasOf requirement, extra ∈ wheel.extras
  pinned : ∀ name wheel, selected.get? name = some wheel → problem.pinned name wheel
  safe : ∀ name wheel, selected.get? name = some wheel →
    wheel.requirements.all (isSafe problem.packaging) = true

/-- A provider of finitely many wheels, which yields every wheel that may be chosen. -/
structure Provides (problem : Problem V M) (options : Options V M) (wheels : String → List (Wheel V M))
    (names : Finset String) : Prop where
  sound : ∀ name requirements hashes prefer, ∀ wheel ∈ options name requirements hashes prefer,
    wheel ∈ wheels name
  complete : ∀ name requirements hashes prefer, ∀ wheel ∈ wheels name, problem.admits wheel = true →
    wheel.requirements.all (isSafe problem.packaging) = true →
    (∀ allowed ∈ hashes, wheel.item.pin.sha256 ∈ allowed) →
    (∀ requirement ∈ requirements,
      problem.packaging.contains requirement.specifier wheel.version = true) →
    wheel ∈ options name requirements hashes prefer
  named : ∀ name, ∀ wheel ∈ wheels name, wheel.name = name
  roots : ∀ requirement ∈ problem.roots, problem.packaging.nameOf requirement ∈ names
  closed : ∀ name, ∀ wheel ∈ wheels name, ∀ requirement ∈ wheel.requirements,
    problem.packaging.nameOf requirement ∈ names

/-- A provider that leaves out wheels with another hash. -/
def Filters (options : Options V M) : Prop :=
  ∀ name requirements hashes prefer, ∀ wheel ∈ options name requirements hashes prefer,
    ∀ allowed ∈ hashes, wheel.item.pin.sha256 ∈ allowed

variable {wheels : String → List (Wheel V M)} {names : Finset String}

theorem Solves.consistent (solves : Solves problem wheels selected) :
    Consistent problem selected.get? where
  evaluable := solves.evaluable
  accepted requirement active wheel found :=
    ⟨solves.specified requirement active wheel found, solves.complete requirement active wheel found⟩
  admitted name _ wheel found := solves.admitted name wheel found

/-! ### Choices -/

theorem choice_eq_ok {name : String} {requirements : List (Requirement M)} {extras : List String}
    {wheel : Wheel V M} {child : Selected V M}
    (chosen : problem.choice selected name requirements extras wheel = some (.ok child)) :
    child = selected.set name wheel ∧ wheel.name = name ∧
      wheel.requirements.all (isSafe problem.packaging) = true ∧
      problem.accepts wheel requirements extras = true ∧ problem.fits child = true := by
  rw [Problem.choice] at chosen
  split at chosen
  next => cases chosen
  next same =>
    split at chosen
    next => cases chosen
    next safe =>
      split at chosen
      next => cases chosen
      next accepted =>
        split at chosen
        next fits =>
          obtain rfl := Except.ok.inj (Option.some.inj chosen)
          exact ⟨rfl, not_not.mp same, Bool.eq_true_of_not_eq_false safe,
            Bool.eq_true_of_not_eq_false accepted, fits⟩
        next => cases chosen

theorem choice_of_usable {name : String} {requirements : List (Requirement M)} {extras : List String}
    {wheel : Wheel V M} (named : wheel.name = name)
    (safe : wheel.requirements.all (isSafe problem.packaging) = true)
    (accepted : problem.accepts wheel requirements extras = true)
    (fits : problem.fits (selected.set name wheel) = true) :
    problem.choice selected name requirements extras wheel = some (.ok (selected.set name wheel)) := by
  rw [Problem.choice, if_neg (not_not.mpr named), if_neg (by simp [safe]), if_neg (by simp [accepted]),
    if_pos fits]

theorem mem_extend {name : String} {requirements : List (Requirement M)} {extras : List String}
    {child : Selected V M}
    (member : .ok child ∈ problem.extend options selected name requirements extras) :
    ∃ asked hashes prefer wheel, problem.restrict name requirements = some (asked, hashes) ∧
      wheel ∈ options name asked hashes prefer ∧ child = selected.set name wheel ∧ wheel.name = name ∧
      wheel.requirements.all (isSafe problem.packaging) = true ∧
      problem.accepts wheel asked extras = true ∧ problem.fits child = true := by
  rw [Problem.extend] at member
  split at member
  next => cases member
  next asked hashes restricted =>
    obtain ⟨wheel, offered, chosen⟩ := List.mem_filterMap.mp member
    exact ⟨asked, hashes, _, wheel, restricted, offered, choice_eq_ok chosen⟩

/-- With forbidden dependency changes the provider is asked for the baseline pin. -/
theorem restrict_forbidden {name : String} {requirements asked : List (Requirement M)}
    {hashes : Option (List String)} (forbidden : problem.rules.dependencies = .forbidden)
    (restricted : problem.restrict name requirements = some (asked, hashes)) :
    ∃ baseline, problem.baselineOf name = some baseline ∧ exactly name baseline.version ∈ asked ∧
      ∃ narrowed, hashes = some narrowed ∧ ∀ hash ∈ narrowed, hash = baseline.sha256 := by
  simp only [Problem.restrict, if_pos forbidden] at restricted
  cases found : problem.baselineOf name with
  | none =>
      rw [found] at restricted
      cases restricted
  | some baseline =>
      cases given : problem.hashesOf name with
      | none =>
          simp only [found, given, List.cons_ne_nil, if_false] at restricted
          obtain ⟨rfl, rfl⟩ := Prod.mk.inj (Option.some.inj restricted)
          exact ⟨baseline, rfl, by simp, _, rfl, by simp⟩
      | some listed =>
          simp only [found, given] at restricted
          split at restricted
          next => cases restricted
          next =>
            obtain ⟨rfl, rfl⟩ := Prod.mk.inj (Option.some.inj restricted)
            exact ⟨baseline, rfl, by simp, _, rfl, fun hash member => by
              simpa using (List.mem_filter.mp member).2⟩

/-- A provider whose wheels are pinned when they are accepted. -/
def Pins (problem : Problem V M) (options : Options V M) : Prop :=
  ∀ name requirements asked hashes prefer, problem.restrict name requirements = some (asked, hashes) →
    ∀ wheel ∈ options name asked hashes prefer, ∀ extras, problem.accepts wheel asked extras = true →
      problem.pinned name wheel

theorem Filters.pins (filters : Filters options) : Pins problem options := by
  intro name requirements asked hashes prefer restricted wheel offered extras accepted forbidden
  obtain ⟨baseline, found, member, narrowed, rfl, same⟩ := restrict_forbidden forbidden restricted
  simp only [Problem.accepts, Bool.and_eq_true, List.all_eq_true] at accepted
  have version := accepted.2 _ member
  refine ⟨baseline, found, ?_, same _ (filters _ _ _ _ _ offered _ rfl)⟩
  simpa [exactly, Packaging.contains] using version

/-- A wheel that is admitted and pinned is not kept out by what the provider is asked for. -/
theorem restrict_of_pinned {name : String} {wheel : Wheel V M} (named : wheel.name = name)
    (admitted : problem.admits wheel = true) (pinned : problem.pinned name wheel)
    {requirements : List (Requirement M)}
    (specified : ∀ requirement ∈ requirements,
      problem.packaging.contains requirement.specifier wheel.version = true) :
    ∃ asked hashes, problem.restrict name requirements = some (asked, hashes) ∧
      (∀ allowed ∈ hashes, wheel.item.pin.sha256 ∈ allowed) ∧
      ∀ requirement ∈ asked, problem.packaging.contains requirement.specifier wheel.version = true := by
  simp only [Problem.admits, Bool.and_eq_true, List.all_eq_true, named] at admitted
  obtain ⟨⟨⟨⟨hashed, _⟩, _⟩, _⟩, constrained⟩ := admitted
  have limited : ∀ requirement ∈ requirements ++ problem.constraintsOf name,
      problem.packaging.contains requirement.specifier wheel.version = true := by
    intro requirement member
    rcases List.mem_append.mp member with asked | constraint
    · exact specified requirement asked
    · exact constrained requirement constraint
  have listed : ∀ allowed ∈ problem.hashesOf name, wheel.item.pin.sha256 ∈ allowed := by
    intro allowed given
    rw [Option.mem_def] at given
    simpa [given] using hashed
  rw [Problem.restrict]
  by_cases forbidden : problem.rules.dependencies = .forbidden
  · obtain ⟨baseline, found, version, same⟩ := pinned forbidden
    simp only [if_pos forbidden, found]
    have every : ∀ requirement ∈ (requirements ++ problem.constraintsOf name) ++
        [exactly name baseline.version],
        problem.packaging.contains requirement.specifier wheel.version = true := by
      intro requirement member
      rcases List.mem_append.mp member with before | last
      · exact limited requirement before
      · rw [List.mem_singleton.mp last]
        simpa [exactly, Packaging.contains] using version
    cases given : problem.hashesOf name with
    | none => exact ⟨_, _, if_neg (by simp), by simp [same], every⟩
    | some hashes =>
        have kept : baseline.sha256 ∈ hashes.filter (· = baseline.sha256) := by
          simpa [← same] using listed hashes given
        exact ⟨_, _, if_neg (List.ne_nil_of_mem kept), by simpa [same] using kept, every⟩
  · simp only [if_neg forbidden]
    exact ⟨_, _, rfl, listed, limited⟩

/-! ### Partial selections -/

def Within (selected more : Selected V M) : Prop :=
  ∀ name wheel, selected.get? name = some wheel → more.get? name = some wheel

theorem Within.sum_le {more : Selected V M} (within : Within selected more) (measure : Wheel V M → Nat) :
    (selected.values.map measure).sum ≤ (more.values.map measure).sum := by
  have distinct : selected.entries.Nodup := List.Nodup.of_map _ selected.nodup
  have contained : selected.entries ⊆ more.entries := by
    rintro ⟨name, wheel⟩ member
    exact Dict.mem_entries.mpr (within name wheel (Dict.mem_entries.mp member))
  obtain ⟨part, permuted, inside⟩ := List.subperm_of_subset distinct contained
  simp only [Dict.values, List.map_map]
  rw [← (permuted.map _).sum_eq]
  exact (inside.map _).sum_le_sum fun _ _ => Nat.zero_le _

theorem Within.fits {more : Selected V M} (within : Within selected more)
    (fits : problem.fits more = true) : problem.fits selected = true := by
  simp only [Problem.fits, decide_eq_true_eq] at fits ⊢
  exact ⟨(within.sum_le _).trans fits.1, (within.sum_le _).trans fits.2⟩

theorem Within.set {more : Selected V M} (within : Within selected more) {name : String}
    {wheel : Wheel V M} (found : more.get? name = some wheel) : Within (selected.set name wheel) more := by
  intro other chosen present
  rw [Dict.get?_set] at present
  split at present
  next same =>
    obtain rfl := Option.some.inj present
    exact same ▸ found
  next => exact within other chosen present

theorem within_set {name : String} (wheel : Wheel V M) (absent : name ∉ selected.keys) :
    Within selected (selected.set name wheel) := by
  intro other chosen present
  rw [Dict.get?_set_ne, present]
  rintro rfl
  exact absent (Dict.mem_keys.mpr ⟨chosen, present⟩)

/-- What holds of every selection on the way. -/
structure Partial (problem : Problem V M) (wheels : String → List (Wheel V M)) (selected : Selected V M) :
    Prop where
  offered : ∀ name wheel, selected.get? name = some wheel → wheel ∈ wheels name
  pinned : ∀ name wheel, selected.get? name = some wheel → problem.pinned name wheel
  safe : ∀ name wheel, selected.get? name = some wheel →
    wheel.requirements.all (isSafe problem.packaging) = true
  needed : ∀ name ∈ selected.keys, Needed problem selected.get? name
  fits : problem.fits selected = true

theorem partial_empty : Partial problem wheels .empty := by
  refine ⟨?_, ?_, ?_, ?_, ?_⟩ <;> simp [Problem.fits]

theorem mem_missing {closure : Closure M} {name : String} :
    name ∈ missing selected closure ↔ name ∈ closure.needed.keys ∧ name ∉ selected.keys := by
  simp [missing]

/-- A selection is extended by one wheel of the first package that it misses. -/
theorem child_visit (lawful : problem.packaging.Lawful) {child : Selected V M}
    (follows : Child (problem.visit options) selected child) :
    ∃ name closure, Describes problem selected.get? closure ∧ Needed problem selected.get? name ∧
      name ∉ selected.keys ∧
      .ok child ∈ problem.extend options selected name (closure.neededOf name) (closure.extrasOf name) := by
  obtain ⟨choices, shown, member⟩ := follows
  rw [Problem.visit] at shown
  split at shown
  next => cases shown
  next => cases shown
  next closure found =>
    split at shown
    next => cases shown
    next name rest lacking =>
      cases shown
      have describes := closure_describes lawful found
      obtain ⟨asked, absent⟩ := mem_missing.mp (lacking ▸ List.mem_cons_self)
      exact ⟨name, closure, describes, (describes.names name).mp asked, absent, member⟩

theorem Partial.child (lawful : problem.packaging.Lawful) (provides : Provides problem options wheels names)
    (pins : Pins problem options) (selection : Partial problem wheels selected) {child : Selected V M}
    (follows : Child (problem.visit options) selected child) : Partial problem wheels child := by
  obtain ⟨name, closure, _, needed, absent, member⟩ := child_visit lawful follows
  obtain ⟨asked, hashes, prefer, wheel, restricted, offered, rfl, _, safe, accepted, fits⟩ :=
    mem_extend member
  have grows := within_set wheel absent
  have every : ∀ {property : String → Wheel V M → Prop}, property name wheel →
      (∀ other chosen, selected.get? other = some chosen → property other chosen) →
      ∀ other chosen, (selected.set name wheel).get? other = some chosen → property other chosen := by
    intro property here before other chosen present
    rw [Dict.get?_set] at present
    split at present
    next same =>
      obtain rfl := Option.some.inj present
      exact same ▸ here
    next => exact before other chosen present
  refine ⟨every (provides.sound _ _ _ _ _ offered) selection.offered,
    every (pins _ _ _ _ _ restricted _ offered _ accepted) selection.pinned,
    every safe selection.safe, fun other present => ?_, fits⟩
  rcases (Dict.mem_keys_set _ _ _ _).mp present with rfl | before
  · exact needed.mono grows
  · exact (selection.needed other before).mono grows

/-! ### Termination -/

def unchosen (names : Finset String) (selected : Selected V M) : Nat :=
  (names.filter fun name => name ∉ selected.keys).card

theorem Partial.mem_names (provides : Provides problem options wheels names)
    (selection : Partial problem wheels selected) {requirement : Requirement M} {extra : String}
    (visited : Visited problem selected.get? requirement extra) :
    problem.packaging.nameOf requirement ∈ names := by
  cases visited with
  | root member => exact provides.roots _ member
  | plain _ _ found member => exact provides.closed _ _ (selection.offered _ _ found) _ member
  | extra _ _ _ found member => exact provides.closed _ _ (selection.offered _ _ found) _ member

theorem unchosen_set {name : String} (wheel : Wheel V M) (listed : name ∈ names)
    (absent : name ∉ selected.keys) : unchosen names (selected.set name wheel) < unchosen names selected := by
  refine Finset.card_lt_card (Finset.ssubset_iff_of_subset ?_ |>.mpr ⟨name, ?_, ?_⟩)
  · intro other
    simp only [Finset.mem_filter, Dict.mem_keys_set, not_or]
    exact fun ⟨inside, _, later⟩ => ⟨inside, later⟩
  · exact Finset.mem_filter.mpr ⟨listed, absent⟩
  · simp [Dict.mem_keys_set]

theorem descends_visit (lawful : problem.packaging.Lawful) (provides : Provides problem options wheels names)
    (pins : Pins problem options) :
    Descends (problem.visit options) (Partial problem wheels) (unchosen names) where
  keeps _ _ selection follows := selection.child lawful provides pins follows
  decreases selected child selection follows := by
    obtain ⟨name, closure, _, ⟨requirement, ⟨extra, visited, _⟩, same⟩, absent, member⟩ :=
      child_visit lawful follows
    obtain ⟨asked, hashes, prefer, wheel, _, _, rfl, _⟩ := mem_extend member
    exact unchosen_set wheel (same ▸ selection.mem_names provides visited) absent

/-! ### Completeness -/

/-- A solution above a selection has a wheel for the first package that is missing, and the
provider yields it. -/
theorem Solves.leads (lawful : problem.packaging.Lawful) (provides : Provides problem options wheels names)
    {solution : Selected V M} (solves : Solves problem wheels solution) (within : Within selected solution) :
    (∃ result, problem.visit options selected = .found result) ∨
      ∃ child, Child (problem.visit options) selected child ∧ Within child solution := by
  cases found : problem.closure selected with
  | error failure =>
      obtain ⟨requirement, member, failed⟩ := closure_raised found
      obtain ⟨value, active⟩ := solves.evaluable requirement "" (.root member)
      rw [failed] at active
      cases active
  | ok result =>
      cases result with
      | none => exact absurd (solves.consistent.anti within) (closure_rejected found)
      | some closure =>
          cases lacking : missing selected closure with
          | nil => exact .inl ⟨inOrder selected, by simp only [Problem.visit, found, lacking]⟩
          | cons name rest =>
              have describes := closure_describes lawful found
              obtain ⟨listed, absent⟩ := mem_missing.mp (lacking ▸ List.mem_cons_self)
              have needed := ((describes.names name).mp listed).mono within
              obtain ⟨wheel, chosen⟩ := Dict.mem_keys.mp ((solves.exact name).mpr needed)
              have admitted := solves.admitted name wheel chosen
              have named := provides.named name wheel (solves.offered name wheel chosen)
              have specified : ∀ requirement ∈ closure.neededOf name,
                  problem.packaging.contains requirement.specifier wheel.version = true := by
                intro requirement member
                obtain ⟨active, same⟩ := describes.requirements name requirement member
                exact solves.specified requirement (active.mono within) wheel (same ▸ chosen)
              have complete : ∀ extra ∈ closure.extrasOf name, extra ∈ wheel.extras := by
                intro extra member
                obtain ⟨requirement, active, same, inside⟩ := (describes.extras name extra).mp member
                exact solves.complete requirement (active.mono within) wheel (same ▸ chosen) extra inside
              obtain ⟨asked, hashes, restricted, hashed, every⟩ :=
                restrict_of_pinned named admitted (solves.pinned name wheel chosen) specified
              have offered := provides.complete name asked hashes
                (asked.any fun requirement => requirement.specifier.any problem.packaging.prereleases)
                wheel (solves.offered name wheel chosen) admitted (solves.safe name wheel chosen) hashed every
              have accepted : problem.accepts wheel asked (closure.extrasOf name) = true := by
                simp only [Problem.accepts, Bool.and_eq_true, List.all_eq_true, decide_eq_true_eq]
                exact ⟨⟨complete, admitted⟩, every⟩
              have next := within.set chosen
              refine .inr ⟨selected.set name wheel, ⟨problem.extend options selected name
                (closure.neededOf name) (closure.extrasOf name), ?_, ?_⟩, next⟩
              · simp only [Problem.visit, found, lacking]
              rw [Problem.extend, restricted]
              exact List.mem_filterMap.mpr ⟨wheel, offered,
                choice_of_usable named (solves.safe name wheel chosen) accepted (next.fits solves.fits)⟩

/-! ### Soundness -/

theorem Partial.solves (lawful : problem.packaging.Lawful) (selection : Partial problem wheels selected)
    {result : List (Wheel V M)}
    (found : problem.visit options selected = .found result) :
    Solves problem wheels selected ∧ result = inOrder selected := by
  rw [Problem.visit] at found
  split at found
  next => cases found
  next => cases found
  next closure reached =>
    split at found
    next lacking =>
      cases found
      have describes := closure_describes lawful reached
      have covered : ∀ name, name ∈ selected.keys ↔ Needed problem selected.get? name := by
        intro name
        refine ⟨selection.needed name, fun needed => ?_⟩
        by_contra absent
        have lost := mem_missing.mpr ⟨(describes.names name).mpr needed, absent⟩
        rw [lacking] at lost
        cases lost
      refine ⟨⟨⟨covered, selection.offered, fun requirement active wheel chosen => ?_,
        fun name wheel chosen => ?_, selection.fits⟩, describes.consistent.evaluable,
        fun requirement active wheel chosen => ?_, selection.pinned, selection.safe⟩, rfl⟩
      · exact (describes.consistent.accepted requirement active wheel chosen).1
      · exact describes.consistent.admitted name
          ((covered name).mp (Dict.mem_keys.mpr ⟨wheel, chosen⟩)) wheel chosen
      · exact (describes.consistent.accepted requirement active wheel chosen).2
    next => cases found

/-! ### Whole searches -/

/-- What an answer of the solver says. -/
def Answers (problem : Problem V M) (wheels : String → List (Wheel V M)) :
    Except Failure (Option (List (Wheel V M))) → Prop
  | .ok (some result) => ∃ selected, Solves problem wheels selected ∧ result = inOrder selected
  | .ok none => ¬ ∃ selected, Solves problem wheels selected
  | .error failure => ∃ requirement ∈ problem.roots, problem.active requirement "" = .error failure

theorem visit_failed {failure : Failure} (failed : problem.visit options selected = .failed failure) :
    ∃ requirement ∈ problem.roots, problem.active requirement "" = .error failure := by
  rw [Problem.visit] at failed
  split at failed
  next found =>
    cases failed
    exact closure_raised found
  next => cases failed
  next =>
    split at failed
    next => cases failed
    next => cases failed

theorem error_extend (provides : Provides problem options wheels names) {name : String}
    {requirements : List (Requirement M)} {extras : List String} {failure : Failure} :
    .error failure ∉ problem.extend options selected name requirements extras := by
  intro member
  rw [Problem.extend] at member
  split at member
  next => cases member
  next =>
    obtain ⟨wheel, offered, chosen⟩ := List.mem_filterMap.mp member
    have named := provides.named name wheel (provides.sound _ _ _ _ _ offered)
    rw [Problem.choice, if_neg (not_not.mpr named)] at chosen
    split at chosen
    next => cases chosen
    next =>
      split at chosen
      next => cases chosen
      next =>
        split at chosen
        next => cases chosen
        next => cases chosen

theorem search_terminates (lawful : problem.packaging.Lawful)
    (provides : Provides problem options wheels names) (pins : Pins problem options) :
    ∃ steps answer, problem.search options steps = some answer :=
  Backtrack.search_terminates (descends_visit lawful provides pins) partial_empty

theorem search_selected (lawful : problem.packaging.Lawful)
    (provides : Provides problem options wheels names) (pins : Pins problem options) {steps : Nat}
    {result : List (Wheel V M)} {opened : List (Selected V M)}
    (ends : problem.search options steps = some (.ok (some result), opened)) :
    ∃ selected, Solves problem wheels selected ∧ result = inOrder selected ∧
      Traced (problem.visit options) .empty opened selected := by
  have start : ∀ level ∈ [[(.ok .empty : Except Failure (Selected V M))]], ∀ node, .ok node ∈ level →
      Traced (problem.visit options) .empty [] node := by
    intro level member node inside
    obtain rfl := List.mem_singleton.mp member
    obtain rfl := Except.ok.inj (List.mem_singleton.mp inside)
    exact .root
  obtain ⟨selected, found, traced⟩ := search_found start ends
  have descends := descends_visit lawful provides pins
  obtain ⟨solves, same⟩ := (traced.keep descends.keeps partial_empty).solves lawful found
  exact ⟨selected, solves, same, traced⟩

theorem search_answers (lawful : problem.packaging.Lawful)
    (provides : Provides problem options wheels names) (pins : Pins problem options) {steps : Nat}
    {answer : Except Failure (Option (List (Wheel V M)))} {opened : List (Selected V M)}
    (ends : problem.search options steps = some (answer, opened)) : Answers problem wheels answer := by
  cases answer with
  | error failure =>
      refine search_failed (fun _ _ failed => visit_failed failed) (fun node choices other shown inside => ?_)
        (by simp) ends
      rw [Problem.visit] at shown
      split at shown
      next => cases shown
      next => cases shown
      next =>
        split at shown
        next => cases shown
        next =>
          cases shown
          exact absurd inside (error_extend provides)
  | ok result =>
      cases result with
      | none =>
          rintro ⟨solution, solves⟩
          refine not_exhausted (descends_visit lawful provides pins)
            (fun _ _ within => solves.leads lawful provides within) partial_empty ?_ ends
          intro name wheel found
          simp at found
      | some result =>
          obtain ⟨selected, solves, same, _⟩ := search_selected lawful provides pins ends
          exact ⟨selected, solves, same⟩

end Environments

end FeatureRl
