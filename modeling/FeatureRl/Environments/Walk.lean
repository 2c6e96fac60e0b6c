import FeatureRl.Environments.Closure

/-!
Every order of visiting the pending items and extras computes the same closure: the packages
that the selection needs, each with the requirements and extras that are asked of it.
-/

namespace FeatureRl

open Sorting

namespace Environments

variable {V M : Type} {problem : Problem V M}

/-! ### One requirement -/

namespace Closure

variable {packaging : Packaging V M} {closure : Closure M} {requirement : Requirement M}

@[simp] theorem addKnown_extras : (closure.addKnown packaging requirement).extras = closure.extras := by
  simp only [addKnown]
  split <;> rfl

@[simp] theorem addKnown_expanded :
    (closure.addKnown packaging requirement).expanded = closure.expanded := by
  simp only [addKnown]
  split <;> rfl

@[simp] theorem addKnown_pending : (closure.addKnown packaging requirement).pending = closure.pending := by
  simp only [addKnown]
  split <;> rfl

theorem mem_known_addKnown {pair : String × RequirementKey} :
    pair ∈ (closure.addKnown packaging requirement).known ↔
      pair = (packaging.nameOf requirement, requirementKey packaging requirement) ∨ pair ∈ closure.known := by
  simp only [addKnown]
  split
  next present =>
    constructor
    · exact .inr
    · rintro (rfl | member)
      · exact present
      · exact member
  next => exact List.mem_cons

theorem neededOf_addKnown (name : String) :
    (closure.addKnown packaging requirement).neededOf name =
      if name = packaging.nameOf requirement ∧
          (packaging.nameOf requirement, requirementKey packaging requirement) ∉ closure.known then
        closure.neededOf name ++ [requirement]
      else closure.neededOf name := by
  simp only [addKnown]
  by_cases present : (packaging.nameOf requirement, requirementKey packaging requirement) ∈ closure.known
  · rw [if_pos present, if_neg fun both => both.2 present]
  · rw [if_neg present, neededOf, Dict.get?_set]
    by_cases same : name = packaging.nameOf requirement
    · rw [if_pos same, if_pos ⟨same, present⟩, same]
      rfl
    · rw [if_neg same, if_neg fun both => same both.1]
      rfl

theorem extrasOf_addExtras (name : String) :
    (closure.addExtras packaging requirement).extrasOf name =
      if name = packaging.nameOf requirement then closure.extrasOf name ∪ packaging.extrasOf requirement
      else closure.extrasOf name := by
  rw [addExtras, extrasOf, Dict.get?_set]
  split
  next same =>
    rw [same]
    rfl
  next => rfl

/-! ### The extras of one package -/

variable {wheel : Wheel V M} {name : String}

theorem foldl_expand_fields (extras : List String) :
    (extras.foldl (expand wheel name) closure).needed = closure.needed ∧
      (extras.foldl (expand wheel name) closure).extras = closure.extras ∧
      (extras.foldl (expand wheel name) closure).known = closure.known := by
  induction extras generalizing closure with
  | nil => exact ⟨rfl, rfl, rfl⟩
  | cons enabled rest ih =>
      obtain ⟨needed, extras, known⟩ := @ih (closure.expand wheel name enabled)
      rw [List.foldl_cons, needed, extras, known, expand]
      split <;> exact ⟨rfl, rfl, rfl⟩

theorem mem_expanded_foldl {extras : List String} {pair : String × String} :
    pair ∈ (extras.foldl (expand wheel name) closure).expanded ↔
      pair ∈ closure.expanded ∨ ∃ enabled ∈ extras, pair = (name, enabled) := by
  induction extras generalizing closure with
  | nil => simp
  | cons enabled rest ih =>
      rw [List.foldl_cons, ih, List.exists_mem_cons_iff, ← or_assoc]
      refine or_congr_left ?_
      rw [expand]
      split
      next present =>
        constructor
        · exact .inl
        · rintro (member | rfl)
          · exact member
          · exact present
      next =>
        rw [List.mem_cons]
        exact or_comm

/-- Nothing pending is dropped, and what is new belongs to an extra that was not expanded. -/
theorem mem_pending_foldl {extras : List String} {item : Item M} :
    item ∈ (extras.foldl (expand wheel name) closure).pending ↔
      item ∈ closure.pending ∨ ∃ enabled ∈ extras, (name, enabled) ∉ closure.expanded ∧
        ∃ requirement ∈ wheel.requirements, item = ⟨requirement, enabled, true⟩ := by
  induction extras generalizing closure with
  | nil => simp
  | cons enabled rest ih =>
      rw [List.foldl_cons, ih, List.exists_mem_cons_iff, expand]
      split
      next present => simp [present]
      next absent =>
        simp only [List.mem_append, List.mem_map, List.mem_cons, not_or]
        constructor
        · rintro ((old | ⟨requirement, member, rfl⟩) | ⟨other, member, ⟨_, fresh⟩, rest⟩)
          · exact .inl old
          · exact .inr (.inl ⟨absent, requirement, member, rfl⟩)
          · exact .inr (.inr ⟨other, member, fresh, rest⟩)
        · rintro (old | ⟨_, requirement, member, rfl⟩ | ⟨other, member, fresh, rest⟩)
          · exact .inl (.inl old)
          · exact .inl (.inr ⟨requirement, member, rfl⟩)
          · by_cases same : other = enabled
            · obtain ⟨requirement, inside, rfl⟩ := rest
              exact .inl (.inr ⟨requirement, inside, by rw [same]⟩)
            · exact .inr ⟨other, member, ⟨by simpa using same, fresh⟩, rest⟩

end Closure

/-! ### Invariants of a walk -/

variable {chosen : String → Option (Wheel V M)} {closure : Closure M}

/-- Everything in the closure is asked for. -/
structure Sound (problem : Problem V M) (chosen : String → Option (Wheel V M)) (closure : Closure M) :
    Prop where
  pending : ∀ item ∈ closure.pending, Visited problem chosen item.requirement item.extra ∧
    (item.vendor = false → item.requirement ∈ problem.roots ∧ item.extra = "")
  needed : ∀ name, ∀ requirement ∈ closure.neededOf name,
    Active problem chosen requirement ∧ problem.packaging.nameOf requirement = name
  filled : ∀ name, closure.needed.get? name ≠ some []
  extras : ∀ name, ∀ extra ∈ closure.extrasOf name, ∃ requirement, Active problem chosen requirement ∧
    problem.packaging.nameOf requirement = name ∧ extra ∈ problem.packaging.extrasOf requirement

/-- The item has been looked at, with everything that follows from it. -/
def Done (problem : Problem V M) (chosen : String → Option (Wheel V M)) (closure : Closure M)
    (requirement : Requirement M) (extra : String) : Prop :=
  problem.active requirement extra = .ok false ∨
    (problem.active requirement extra = .ok true ∧
      (problem.packaging.nameOf requirement, requirementKey problem.packaging requirement) ∈ closure.known ∧
      (∀ asked ∈ problem.packaging.extrasOf requirement,
        asked ∈ closure.extrasOf (problem.packaging.nameOf requirement)) ∧
      ∀ wheel, chosen (problem.packaging.nameOf requirement) = some wheel →
        ∀ enabled ∈ "" :: problem.packaging.extrasOf requirement,
          (problem.packaging.nameOf requirement, enabled) ∈ closure.expanded)

def Settled (problem : Problem V M) (chosen : String → Option (Wheel V M)) (closure : Closure M)
    (requirement : Requirement M) (extra : String) : Prop :=
  (∃ item ∈ closure.pending, item.requirement = requirement ∧ item.extra = extra) ∨
    Done problem chosen closure requirement extra

/-- Everything that is asked for is in the closure or still pending. -/
structure Covers (problem : Problem V M) (chosen : String → Option (Wheel V M)) (closure : Closure M) :
    Prop where
  roots : ∀ requirement ∈ problem.roots, Settled problem chosen closure requirement ""
  expanded : ∀ name enabled, (name, enabled) ∈ closure.expanded → ∀ wheel, chosen name = some wheel →
    ∀ requirement ∈ wheel.requirements, Settled problem chosen closure requirement enabled
  known : ∀ name key, (name, key) ∈ closure.known →
    ∃ requirement ∈ closure.neededOf name, requirementKey problem.packaging requirement = key
  accepted : ∀ name wheel, chosen name = some wheel → closure.neededOf name ≠ [] →
    problem.accepts wheel (closure.neededOf name) (closure.extrasOf name) = true

/-- A later closure knows, asks and expands at least as much. -/
structure Grows (before after : Closure M) : Prop where
  known : ∀ pair ∈ before.known, pair ∈ after.known
  extras : ∀ name, ∀ extra ∈ before.extrasOf name, extra ∈ after.extrasOf name
  expanded : ∀ pair ∈ before.expanded, pair ∈ after.expanded

theorem Done.grow {after : Closure M} (grows : Grows closure after) {requirement : Requirement M}
    {extra : String} (done : Done problem chosen closure requirement extra) :
    Done problem chosen after requirement extra := by
  rcases done with inactive | ⟨active, known, extras, expanded⟩
  · exact .inl inactive
  · exact .inr ⟨active, grows.known _ known, fun asked member => grows.extras _ _ (extras asked member),
      fun wheel found enabled member => grows.expanded _ (expanded wheel found enabled member)⟩

/-- What was settled stays so when one pending item is looked at. -/
theorem Settled.grow {after : Closure M} (grows : Grows closure after) {item : Item M}
    {rest : List (Item M)} (picked : closure.pending.Perm (item :: rest))
    (pending : ∀ other ∈ rest, other ∈ after.pending)
    (done : Done problem chosen after item.requirement item.extra) {requirement : Requirement M}
    {extra : String} (settled : Settled problem chosen closure requirement extra) :
    Settled problem chosen after requirement extra := by
  rcases settled with ⟨other, member, rfl, rfl⟩ | finished
  · rcases List.mem_cons.mp (picked.mem_iff.mp member) with rfl | later
    · exact .inr done
    · exact .inl ⟨other, pending other later, rfl, rfl⟩
  · exact .inr (finished.grow grows)

/-! ### One item -/

variable {selected : Selected V M} {order : List String → List String} {item : Item M}
  {rest : List (Item M)}

def Closure.withPending (closure : Closure M) (pending : List (Item M)) : Closure M := { closure with pending }

def Closure.add (packaging : Packaging V M) (closure : Closure M) (requirement : Requirement M) : Closure M :=
  (closure.addKnown packaging requirement).addExtras packaging requirement

/-- Everything that looking at an item can do. -/
inductive Shown (problem : Problem V M) (selected : Selected V M) (order : List String → List String)
    (closure : Closure M) (item : Item M) : Except Failure (Option (Closure M)) → Prop
  | raised {failure : Failure} (failed : problem.active item.requirement item.extra = .error failure)
      (declared : item.vendor = false) : Shown problem selected order closure item (.error failure)
  | rejected {failure : Failure} (failed : problem.active item.requirement item.extra = .error failure) :
      Shown problem selected order closure item (.ok none)
  | skipped (inactive : problem.active item.requirement item.extra = .ok false) :
      Shown problem selected order closure item (.ok (some closure))
  | missing (active : problem.active item.requirement item.extra = .ok true)
      (absent : selected.get? (problem.packaging.nameOf item.requirement) = none) :
      Shown problem selected order closure item (.ok (some (closure.add problem.packaging item.requirement)))
  | conflicting {wheel : Wheel V M} (active : problem.active item.requirement item.extra = .ok true)
      (found : selected.get? (problem.packaging.nameOf item.requirement) = some wheel)
      (refused : problem.accepts wheel
        ((closure.add problem.packaging item.requirement).neededOf
          (problem.packaging.nameOf item.requirement))
        ((closure.add problem.packaging item.requirement).extrasOf
          (problem.packaging.nameOf item.requirement)) = false) :
      Shown problem selected order closure item (.ok none)
  | expanded {wheel : Wheel V M} (active : problem.active item.requirement item.extra = .ok true)
      (found : selected.get? (problem.packaging.nameOf item.requirement) = some wheel)
      (accepted : problem.accepts wheel
        ((closure.add problem.packaging item.requirement).neededOf
          (problem.packaging.nameOf item.requirement))
        ((closure.add problem.packaging item.requirement).extrasOf
          (problem.packaging.nameOf item.requirement)) = true) :
      Shown problem selected order closure item (.ok (some
        (("" :: order ((closure.add problem.packaging item.requirement).extrasOf
          (problem.packaging.nameOf item.requirement))).foldl
            (Closure.expand wheel (problem.packaging.nameOf item.requirement))
            (closure.add problem.packaging item.requirement))))

theorem shown_visit : Shown problem selected order closure item
    (Closure.visit problem selected order closure item) := by
  rw [Closure.visit]
  cases active : problem.active item.requirement item.extra with
  | error failure =>
      by_cases vendor : item.vendor = true
      · simp only [if_pos vendor]
        exact .rejected active
      · simp only [if_neg vendor]
        exact .raised active (by simpa using vendor)
  | ok value =>
      cases value with
      | false => exact .skipped active
      | true =>
          dsimp only
          cases found : selected.get? (problem.packaging.nameOf item.requirement) with
          | none => exact .missing active found
          | some wheel =>
              dsimp only
              split
              next refused => exact .conflicting active found refused
              next accepted => exact .expanded active found (Bool.eq_true_of_not_eq_false accepted)

theorem neededOf_add (name : String) {requirement : Requirement M} {packaging : Packaging V M} :
    (closure.add packaging requirement).neededOf name =
      if name = packaging.nameOf requirement ∧
          (packaging.nameOf requirement, requirementKey packaging requirement) ∉ closure.known then
        closure.neededOf name ++ [requirement]
      else closure.neededOf name := Closure.neededOf_addKnown name

theorem extrasOf_add (name : String) {requirement : Requirement M} {packaging : Packaging V M} :
    (closure.add packaging requirement).extrasOf name =
      if name = packaging.nameOf requirement then closure.extrasOf name ∪ packaging.extrasOf requirement
      else closure.extrasOf name := by
  rw [Closure.add, Closure.extrasOf_addExtras, Closure.extrasOf, Closure.addKnown_extras]
  rfl

theorem mem_known_add {requirement : Requirement M} {packaging : Packaging V M}
    {pair : String × RequirementKey} : pair ∈ (closure.add packaging requirement).known ↔
      pair = (packaging.nameOf requirement, requirementKey packaging requirement) ∨ pair ∈ closure.known :=
  Closure.mem_known_addKnown

theorem expanded_add {requirement : Requirement M} {packaging : Packaging V M} :
    (closure.add packaging requirement).expanded = closure.expanded := Closure.addKnown_expanded

theorem pending_add {requirement : Requirement M} {packaging : Packaging V M} :
    (closure.add packaging requirement).pending = closure.pending := Closure.addKnown_pending

theorem grows_add {requirement : Requirement M} {packaging : Packaging V M} :
    Grows closure (closure.add packaging requirement) where
  known pair member := mem_known_add.mpr (.inr member)
  extras name extra member := by
    rw [extrasOf_add]
    split
    · exact List.mem_union_iff.mpr (.inl member)
    · exact member
  expanded pair member := expanded_add.symm ▸ member

theorem Grows.trans {middle after : Closure M} (first : Grows closure middle) (second : Grows middle after) :
    Grows closure after where
  known pair member := second.known pair (first.known pair member)
  extras name extra member := second.extras name extra (first.extras name extra member)
  expanded pair member := second.expanded pair (first.expanded pair member)

theorem grows_foldl {wheel : Wheel V M} {name : String} (extras : List String) :
    Grows closure (extras.foldl (Closure.expand wheel name) closure) := by
  obtain ⟨_, sameExtras, sameKnown⟩ := @Closure.foldl_expand_fields _ _ closure wheel name extras
  refine ⟨fun pair member => sameKnown.symm ▸ member, fun other extra member => ?_,
    fun pair member => Closure.mem_expanded_foldl.mpr (.inl member)⟩
  rw [Closure.extrasOf, sameExtras]
  exact member

/-! ### Nothing is asked for in vain -/

theorem Sound.add (sound : Sound problem chosen closure) {requirement : Requirement M}
    (active : Active problem chosen requirement) :
    Sound problem chosen (closure.add problem.packaging requirement) where
  pending := by
    rw [pending_add]
    exact sound.pending
  needed name other member := by
    rw [neededOf_add] at member
    split at member
    next here =>
      rcases List.mem_append.mp member with before | last
      · exact sound.needed name other before
      · rw [List.mem_singleton.mp last]
        exact ⟨active, here.1.symm⟩
    next => exact sound.needed name other member
  filled name := by
    simp only [Closure.add, Closure.addExtras, Closure.addKnown]
    split
    · exact sound.filled name
    · rw [Dict.get?_set]
      split
      · simp
      · exact sound.filled name
  extras name extra member := by
    rw [extrasOf_add] at member
    split at member
    next here =>
      rcases List.mem_union_iff.mp member with before | new
      · exact sound.extras name extra before
      · exact ⟨requirement, active, here.symm, new⟩
    next => exact sound.extras name extra member

/-- The extras of a package enable the requirements of its wheel. -/
theorem Sound.foldl (sound : Sound problem selected.get? closure) {parent : Requirement M}
    (active : Active problem selected.get? parent) {wheel : Wheel V M}
    (found : selected.get? (problem.packaging.nameOf parent) = some wheel) {extras : List String}
    (asked : ∀ enabled ∈ extras, enabled = "" ∨
      enabled ∈ closure.extrasOf (problem.packaging.nameOf parent)) :
    Sound problem selected.get?
      (extras.foldl (Closure.expand wheel (problem.packaging.nameOf parent)) closure) := by
  obtain ⟨needed, sameExtras, _⟩ :=
    @Closure.foldl_expand_fields _ _ closure wheel (problem.packaging.nameOf parent) extras
  refine ⟨fun item member => ?_, ?_, ?_, ?_⟩
  · rcases Closure.mem_pending_foldl.mp member with old | ⟨enabled, inside, _, requirement, listed, rfl⟩
    · exact sound.pending item old
    · refine ⟨?_, fun declared => Bool.noConfusion declared⟩
      rcases asked enabled inside with rfl | requested
      · obtain ⟨extra, visited, applicable⟩ := active
        exact .plain visited applicable found listed
      · obtain ⟨other, ⟨extra, visited, applicable⟩, same, offered⟩ := sound.extras _ enabled requested
        rw [← same] at found
        exact .extra visited applicable offered found listed
  · intro name
    rw [Closure.neededOf, needed]
    exact sound.needed name
  · rw [needed]
    exact sound.filled
  · intro name
    rw [Closure.extrasOf, sameExtras]
    exact sound.extras name

theorem Sound.withPending (sound : Sound problem chosen closure)
    (picked : closure.pending.Perm (item :: rest)) :
    Sound problem chosen (closure.withPending rest) :=
  ⟨fun other member => sound.pending other (picked.mem_iff.mpr (List.mem_cons_of_mem _ member)),
    sound.needed, sound.filled, sound.extras⟩

theorem Sound.visited (sound : Sound problem chosen closure) (picked : closure.pending.Perm (item :: rest)) :
    Visited problem chosen item.requirement item.extra ∧
      (item.vendor = false → item.requirement ∈ problem.roots ∧ item.extra = "") :=
  sound.pending item (picked.mem_iff.mpr List.mem_cons_self)

theorem Sound.visit (sound : Sound problem selected.get? closure)
    (picked : closure.pending.Perm (item :: rest)) (arranged : ∀ extras, (order extras).Perm extras)
    {next : Closure M}
    (shown : Closure.visit problem selected order (closure.withPending rest) item = .ok (some next)) :
    Sound problem selected.get? next := by
  have here := sound.withPending picked
  have cases := @shown_visit V M problem (closure.withPending rest) selected order item
  rw [shown] at cases
  cases cases with
  | skipped => exact here
  | missing active absent => exact here.add ⟨item.extra, (sound.visited picked).1, active⟩
  | expanded active found accepted =>
      have asked : Active problem selected.get? item.requirement :=
        ⟨item.extra, (sound.visited picked).1, active⟩
      refine (here.add asked).foldl asked found fun enabled member => ?_
      rcases List.mem_cons.mp member with plain | extra
      · exact .inl plain
      · exact .inr ((arranged _).mem_iff.mp extra)

/-- A selection that is given up does not do what is asked of it. -/
theorem Sound.inconsistent (sound : Sound problem selected.get? closure)
    (picked : closure.pending.Perm (item :: rest))
    (shown : Closure.visit problem selected order (closure.withPending rest) item = .ok none) :
    ¬ Consistent problem selected.get? := by
  intro consistent
  have here := sound.withPending picked
  have cases := @shown_visit V M problem (closure.withPending rest) selected order item
  rw [shown] at cases
  cases cases with
  | rejected failed =>
      obtain ⟨value, active⟩ := consistent.evaluable _ _ (sound.visited picked).1
      rw [failed] at active
      cases active
  | @conflicting wheel active found refused =>
      have asked : Active problem selected.get? item.requirement :=
        ⟨item.extra, (sound.visited picked).1, active⟩
      have grown := here.add asked
      refine Bool.eq_false_iff.mp refused ?_
      simp only [Problem.accepts, Bool.and_eq_true, List.all_eq_true, decide_eq_true_eq]
      refine ⟨⟨fun extra member => ?_, consistent.admitted _ ⟨_, asked, rfl⟩ wheel found⟩,
        fun requirement member => ?_⟩
      · obtain ⟨other, applicable, same, offered⟩ := grown.extras _ extra member
        exact (consistent.accepted other applicable wheel (same ▸ found)).2 extra offered
      · obtain ⟨applicable, same⟩ := grown.needed _ requirement member
        exact (consistent.accepted requirement applicable wheel (same ▸ found)).1

/-- An exception comes from a root declaration. -/
theorem Sound.raised (sound : Sound problem selected.get? closure)
    (picked : closure.pending.Perm (item :: rest)) {failure : Failure}
    (shown : Closure.visit problem selected order (closure.withPending rest) item = .error failure) :
    ∃ requirement ∈ problem.roots, problem.active requirement "" = .error failure := by
  have cases := @shown_visit V M problem (closure.withPending rest) selected order item
  rw [shown] at cases
  cases cases with
  | raised failed declared =>
      obtain ⟨member, plain⟩ := (sound.visited picked).2 declared
      exact ⟨item.requirement, member, plain ▸ failed⟩

/-! ### Nothing that is asked for is missed -/

theorem mem_neededOf_add {name : String} {requirement other : Requirement M} {packaging : Packaging V M}
    (member : other ∈ closure.neededOf name) : other ∈ (closure.add packaging requirement).neededOf name := by
  rw [neededOf_add]
  split
  · exact List.mem_append_left _ member
  · exact member

/-- Every key in the closure is that of a listed requirement. -/
def Lists (packaging : Packaging V M) (closure : Closure M) : Prop :=
  ∀ name key, (name, key) ∈ closure.known →
    ∃ requirement ∈ closure.neededOf name, requirementKey packaging requirement = key

theorem Lists.add (lists : Lists problem.packaging closure) (requirement : Requirement M) :
    Lists problem.packaging (closure.add problem.packaging requirement) := by
  intro name key member
  have old : (name, key) ∈ closure.known → ∃ other ∈
      (closure.add problem.packaging requirement).neededOf name,
      requirementKey problem.packaging other = key := by
    intro before
    obtain ⟨other, listed, same⟩ := lists name key before
    exact ⟨other, mem_neededOf_add listed, same⟩
  rcases mem_known_add.mp member with new | before
  · obtain ⟨rfl, rfl⟩ := Prod.mk.inj new
    by_cases present : (problem.packaging.nameOf requirement,
        requirementKey problem.packaging requirement) ∈ closure.known
    · exact old present
    · refine ⟨requirement, ?_, rfl⟩
      rw [neededOf_add, if_pos ⟨rfl, present⟩]
      exact List.mem_append_right _ (List.mem_singleton.mpr rfl)
  · exact old before

/-- Adding a requirement leaves what other packages are asked as it is. -/
theorem accepts_add {requirement : Requirement M} {name : String}
    (other : name ≠ problem.packaging.nameOf requirement) {wheel : Wheel V M}
    (accepted : closure.neededOf name ≠ [] →
      problem.accepts wheel (closure.neededOf name) (closure.extrasOf name) = true)
    (filled : (closure.add problem.packaging requirement).neededOf name ≠ []) :
    problem.accepts wheel ((closure.add problem.packaging requirement).neededOf name)
      ((closure.add problem.packaging requirement).extrasOf name) = true := by
  rw [neededOf_add, if_neg fun both => other both.1] at filled ⊢
  rw [extrasOf_add, if_neg other]
  exact accepted filled

theorem Covers.withPending (covers : Covers problem chosen closure)
    (picked : closure.pending.Perm (item :: rest)) {after : Closure M}
    (grows : Grows closure after) (pending : ∀ other ∈ rest, other ∈ after.pending)
    (done : Done problem chosen after item.requirement item.extra) :
    (∀ requirement ∈ problem.roots, Settled problem chosen after requirement "") ∧
      ∀ name enabled, (name, enabled) ∈ closure.expanded → ∀ wheel, chosen name = some wheel →
        ∀ requirement ∈ wheel.requirements, Settled problem chosen after requirement enabled :=
  ⟨fun requirement member => (covers.roots requirement member).grow grows picked pending done,
    fun name enabled member wheel found requirement listed =>
      (covers.expanded name enabled member wheel found requirement listed).grow grows picked pending done⟩

theorem Covers.visit (covers : Covers problem selected.get? closure)
    (picked : closure.pending.Perm (item :: rest)) (arranged : ∀ extras, (order extras).Perm extras)
    {next : Closure M}
    (shown : Closure.visit problem selected order (closure.withPending rest) item = .ok (some next)) :
    Covers problem selected.get? next := by
  have start : Grows closure (closure.withPending rest) :=
    ⟨fun _ member => member, fun _ _ member => member, fun _ member => member⟩
  have grows : Grows closure ((closure.withPending rest).add problem.packaging item.requirement) :=
    start.trans grows_add
  have kept : ∀ other ∈ rest, other ∈
      ((closure.withPending rest).add problem.packaging item.requirement).pending :=
    fun other member => pending_add.symm ▸ member
  have asked : ∀ extra ∈ problem.packaging.extrasOf item.requirement, extra ∈
      ((closure.withPending rest).add problem.packaging item.requirement).extrasOf
        (problem.packaging.nameOf item.requirement) := by
    intro extra member
    rw [extrasOf_add, if_pos rfl]
    exact List.mem_union_iff.mpr (.inr member)
  have lists : Lists problem.packaging (closure.withPending rest) := covers.known
  have cases := @shown_visit V M problem (closure.withPending rest) selected order item
  rw [shown] at cases
  cases cases with
  | skipped inactive =>
      obtain ⟨roots, expanded⟩ := covers.withPending picked start (fun _ member => member) (.inl inactive)
      exact ⟨roots, expanded, covers.known, covers.accepted⟩
  | missing active absent =>
      have done : Done problem selected.get?
          ((closure.withPending rest).add problem.packaging item.requirement) item.requirement item.extra :=
        .inr ⟨active, mem_known_add.mpr (.inl rfl), asked, fun wheel found => by
          rw [absent] at found
          cases found⟩
      obtain ⟨roots, expanded⟩ := covers.withPending picked grows kept done
      refine ⟨roots, fun name enabled member => ?_, lists.add item.requirement,
        fun name wheel found filled => ?_⟩
      · rw [expanded_add] at member
        exact expanded name enabled member
      · refine accepts_add (fun same => ?_) (covers.accepted name wheel found) filled
        rw [same, absent] at found
        cases found
  | @expanded wheel active found accepted =>
      generalize arrange : "" :: order (((closure.withPending rest).add problem.packaging
        item.requirement).extrasOf (problem.packaging.nameOf item.requirement)) = extras
      have listed : ∀ enabled ∈ "" :: problem.packaging.extrasOf item.requirement, enabled ∈ extras := by
        intro enabled member
        rw [← arrange]
        rcases List.mem_cons.mp member with plain | extra
        · exact plain ▸ List.mem_cons_self
        · exact List.mem_cons_of_mem _ ((arranged _).mem_iff.mpr (asked enabled extra))
      obtain ⟨needed, sameExtras, sameKnown⟩ := @Closure.foldl_expand_fields V M
        ((closure.withPending rest).add problem.packaging item.requirement) wheel
        (problem.packaging.nameOf item.requirement) extras
      have further := grows.trans (@grows_foldl V M
        ((closure.withPending rest).add problem.packaging item.requirement) wheel
        (problem.packaging.nameOf item.requirement) extras)
      have done : Done problem selected.get? (extras.foldl
          (Closure.expand wheel (problem.packaging.nameOf item.requirement))
          ((closure.withPending rest).add problem.packaging item.requirement)) item.requirement item.extra := by
        refine .inr ⟨active, ?_, fun extra member => ?_, fun _ _ enabled member => ?_⟩
        · rw [sameKnown]
          exact mem_known_add.mpr (.inl rfl)
        · rw [Closure.extrasOf, sameExtras]
          exact asked extra member
        · exact Closure.mem_expanded_foldl.mpr (.inr ⟨enabled, listed enabled member, rfl⟩)
      obtain ⟨roots, expanded⟩ := covers.withPending picked further
        (fun other member => Closure.mem_pending_foldl.mpr (.inl (kept other member))) done
      refine ⟨roots, fun name enabled member other chosen requirement inside => ?_, fun name key member => ?_,
        fun name other chosen filled => ?_⟩
      · rcases Closure.mem_expanded_foldl.mp member with old | ⟨fresh, among, new⟩
        · rw [expanded_add] at old
          exact expanded name enabled old other chosen requirement inside
        · obtain ⟨rfl, rfl⟩ := Prod.mk.inj new
          obtain rfl := Option.some.inj (found.symm.trans chosen)
          by_cases old : (problem.packaging.nameOf item.requirement, enabled) ∈ closure.expanded
          · exact expanded _ enabled old wheel chosen requirement inside
          · refine .inl ⟨⟨requirement, enabled, true⟩, Closure.mem_pending_foldl.mpr (.inr
              ⟨enabled, among, ?_, requirement, inside, rfl⟩), rfl, rfl⟩
            rw [expanded_add]
            exact old
      · rw [sameKnown] at member
        rw [Closure.neededOf, needed]
        exact lists.add item.requirement name key member
      · rw [Closure.neededOf, needed] at filled ⊢
        rw [Closure.extrasOf, sameExtras]
        by_cases same : name = problem.packaging.nameOf item.requirement
        · subst same
          obtain rfl := Option.some.inj (found.symm.trans chosen)
          exact accepted
        · exact accepts_add same (covers.accepted name other chosen) filled

/-! ### Whole walks -/

theorem sound_start : Sound problem chosen (Closure.start problem) := by
  refine ⟨fun item member => ?_, ?_, ?_, ?_⟩
  · obtain ⟨requirement, root, rfl⟩ := List.mem_map.mp member
    exact ⟨.root root, fun _ => ⟨root, rfl⟩⟩
  · simp [Closure.start, Closure.neededOf]
  · simp [Closure.start]
  · simp [Closure.start, Closure.extrasOf]

theorem covers_start : Covers problem chosen (Closure.start problem) := by
  refine ⟨fun requirement root => .inl ⟨⟨requirement, "", false⟩, ?_, rfl, rfl⟩, ?_, ?_, ?_⟩
  · exact List.mem_map_of_mem root
  · simp [Closure.start]
  · simp [Closure.start]
  · simp [Closure.start, Closure.neededOf]

/-- How a walk ends. -/
def Walked (problem : Problem V M) (chosen : String → Option (Wheel V M)) :
    Except Failure (Option (Closure M)) → Prop
  | .ok (some closure) => Sound problem chosen closure ∧ Covers problem chosen closure ∧ closure.pending = []
  | .ok none => ¬ Consistent problem chosen
  | .error failure => ∃ requirement ∈ problem.roots, problem.active requirement "" = .error failure

theorem walked {scheduler : Scheduler M} {steps : Nat} {result : Except Failure (Option (Closure M))}
    (sound : Sound problem selected.get? closure) (covers : Covers problem selected.get? closure)
    (ends : walk problem selected scheduler steps closure = some result) :
    Walked problem selected.get? result := by
  induction steps generalizing closure with
  | zero => cases ends
  | succ steps ih =>
      rw [walk] at ends
      split at ends
      next finished =>
        obtain rfl := Option.some.inj ends
        exact ⟨sound, covers, scheduler.pick_none steps _ finished⟩
      next item rest picked =>
        have permuted := scheduler.pick_some steps _ item rest picked
        have arranged := scheduler.order_perm steps
        split at ends
        next shown =>
          obtain rfl := Option.some.inj ends
          exact sound.raised permuted shown
        next shown =>
          obtain rfl := Option.some.inj ends
          exact sound.inconsistent permuted shown
        next shown =>
          exact ih (sound.visit permuted arranged shown) (covers.visit permuted arranged shown) ends

theorem Covers.done (covers : Covers problem chosen closure) (finished : closure.pending = [])
    {requirement : Requirement M} {extra : String} (visited : Visited problem chosen requirement extra) :
    Done problem chosen closure requirement extra := by
  have settled : ∀ {other : Requirement M} {enabled : String}, Settled problem chosen closure other enabled →
      Done problem chosen closure other enabled := by
    rintro other enabled (⟨item, member, _⟩ | done)
    · rw [finished] at member
      cases member
    · exact done
  induction visited with
  | root member => exact settled (covers.roots _ member)
  | plain _ active found member ih =>
      rcases ih with inactive | ⟨_, _, _, expanded⟩
      · rw [active] at inactive
        cases inactive
      · exact settled (covers.expanded _ _ (expanded _ found "" List.mem_cons_self) _ found _ member)
  | extra _ active asked found member ih =>
      rcases ih with inactive | ⟨_, _, _, expanded⟩
      · rw [active] at inactive
        cases inactive
      · exact settled (covers.expanded _ _ (expanded _ found _ (List.mem_cons_of_mem _ asked)) _ found _ member)

/-- The closure says exactly what the selection asks for. -/
structure Describes (problem : Problem V M) (chosen : String → Option (Wheel V M)) (closure : Closure M) :
    Prop where
  consistent : Consistent problem chosen
  names : ∀ name, name ∈ closure.needed.keys ↔ Needed problem chosen name
  requirements : ∀ name, ∀ requirement ∈ closure.neededOf name,
    Active problem chosen requirement ∧ problem.packaging.nameOf requirement = name
  keys : ∀ name key, (∃ requirement ∈ closure.neededOf name,
      requirementKey problem.packaging requirement = key) ↔
    ∃ requirement, Active problem chosen requirement ∧ problem.packaging.nameOf requirement = name ∧
      requirementKey problem.packaging requirement = key
  extras : ∀ name extra, extra ∈ closure.extrasOf name ↔ ∃ requirement,
    Active problem chosen requirement ∧ problem.packaging.nameOf requirement = name ∧
      extra ∈ problem.packaging.extrasOf requirement

theorem Sound.mem_keys (sound : Sound problem chosen closure) {name : String} :
    name ∈ closure.needed.keys ↔ closure.neededOf name ≠ [] := by
  rw [Dict.mem_keys, Closure.neededOf]
  cases found : closure.needed.get? name with
  | none => simp
  | some list =>
      have filled : list ≠ [] := fun empty => sound.filled name (empty ▸ found)
      simp [filled]

theorem Covers.describes (covers : Covers problem chosen closure) (sound : Sound problem chosen closure)
    (finished : closure.pending = []) (lawful : problem.packaging.Lawful) :
    Describes problem chosen closure := by
  have done : ∀ {requirement : Requirement M}, Active problem chosen requirement →
      (problem.packaging.nameOf requirement, requirementKey problem.packaging requirement) ∈ closure.known ∧
        ∀ asked ∈ problem.packaging.extrasOf requirement,
          asked ∈ closure.extrasOf (problem.packaging.nameOf requirement) := by
    rintro requirement ⟨extra, visited, active⟩
    rcases covers.done finished visited with inactive | ⟨_, known, asked, _⟩
    · rw [active] at inactive
      cases inactive
    · exact ⟨known, asked⟩
  have listed : ∀ {requirement : Requirement M}, Active problem chosen requirement →
      ∃ other ∈ closure.neededOf (problem.packaging.nameOf requirement),
        requirementKey problem.packaging other = requirementKey problem.packaging requirement :=
    fun active => covers.known _ _ (done active).1
  have accepts : ∀ {requirement : Requirement M}, Active problem chosen requirement → ∀ {wheel},
      chosen (problem.packaging.nameOf requirement) = some wheel →
      problem.accepts wheel (closure.neededOf (problem.packaging.nameOf requirement))
        (closure.extrasOf (problem.packaging.nameOf requirement)) = true := by
    intro requirement active wheel found
    obtain ⟨other, member, _⟩ := listed active
    exact covers.accepted _ wheel found (List.ne_nil_of_mem member)
  simp only [Problem.accepts, Bool.and_eq_true, List.all_eq_true, decide_eq_true_eq] at accepts
  refine ⟨⟨fun requirement extra visited => ?_, fun requirement active wheel found => ⟨?_, ?_⟩, ?_⟩,
    fun name => ?_, sound.needed, fun name key => ?_, fun name extra => ?_⟩
  · rcases covers.done finished visited with inactive | ⟨active, _⟩
    · exact ⟨false, inactive⟩
    · exact ⟨true, active⟩
  · obtain ⟨other, member, same⟩ := listed active
    rw [← contains_eq_of_key lawful same]
    exact (accepts active found).2 other member
  · intro extra member
    exact (accepts active found).1.1 extra ((done active).2 extra member)
  · rintro name ⟨requirement, active, rfl⟩ wheel found
    exact (accepts active found).1.2
  · rw [sound.mem_keys]
    constructor
    · intro filled
      obtain ⟨requirement, member⟩ := List.exists_mem_of_ne_nil _ filled
      exact ⟨requirement, sound.needed name requirement member⟩
    · rintro ⟨requirement, active, rfl⟩
      obtain ⟨other, member, _⟩ := listed active
      exact List.ne_nil_of_mem member
  · constructor
    · rintro ⟨requirement, member, same⟩
      obtain ⟨active, named⟩ := sound.needed name requirement member
      exact ⟨requirement, active, named, same⟩
    · rintro ⟨requirement, active, rfl, rfl⟩
      exact listed active
  · constructor
    · exact sound.extras name extra
    · rintro ⟨requirement, active, rfl, member⟩
      exact (done active).2 extra member

/-! ### Termination -/

theorem mem_of_visited {requirement : Requirement M} {extra : String}
    (visited : Visited problem selected.get? requirement extra) :
    requirement ∈ problem.roots ++ selected.values.flatMap Wheel.requirements := by
  cases visited with
  | root member => exact List.mem_append_left _ member
  | plain _ _ found member =>
      exact List.mem_append_right _ (List.mem_flatMap.mpr ⟨_, Dict.mem_values.mpr ⟨_, found⟩, member⟩)
  | extra _ _ _ found member =>
      exact List.mem_append_right _ (List.mem_flatMap.mpr ⟨_, Dict.mem_values.mpr ⟨_, found⟩, member⟩)

theorem Sound.mem_pairs (sound : Sound problem selected.get? closure) {name enabled : String}
    {wheel : Wheel V M} (found : selected.get? name = some wheel)
    (asked : enabled = "" ∨ enabled ∈ closure.extrasOf name) :
    (name, enabled) ∈ problem.pairs selected := by
  rw [Problem.pairs, Finset.mem_product, List.mem_toFinset, List.mem_toFinset, List.mem_cons]
  refine ⟨Dict.mem_keys.mpr ⟨wheel, found⟩, asked.imp id fun member => ?_⟩
  obtain ⟨requirement, ⟨extra, visited, _⟩, _, offered⟩ := sound.extras name enabled member
  exact List.mem_flatMap.mpr ⟨requirement, mem_of_visited visited, offered⟩

/-- Expanding a pair adds the items that it was counted with. -/
theorem work_expand {wheel : Wheel V M} {name enabled : String} (found : selected.get? name = some wheel)
    (counted : (name, enabled) ∈ problem.pairs selected) :
    (closure.expand wheel name enabled).work problem selected = closure.work problem selected := by
  rw [Closure.expand]
  split
  next => rfl
  next fresh =>
    have size : degree selected name = wheel.requirements.length := by
      rw [degree, found]
      rfl
    have rest : ((problem.pairs selected).filter fun pair => pair ∉ closure.expanded) =
        insert (name, enabled)
          ((problem.pairs selected).filter fun pair => pair ∉ (name, enabled) :: closure.expanded) := by
      ext pair
      by_cases same : pair = (name, enabled)
      · simp [same, counted, fresh]
      · simp [same]
    have new : (name, enabled) ∉
        (problem.pairs selected).filter fun pair => pair ∉ (name, enabled) :: closure.expanded := by
      simp
    have after : ∀ pending : List (Item M), Closure.work problem selected { closure with
        expanded := (name, enabled) :: closure.expanded
        pending := pending } = pending.length +
          ∑ pair ∈ problem.pairs selected with pair ∉ (name, enabled) :: closure.expanded,
            degree selected pair.1 := fun _ => rfl
    rw [after, Closure.work, rest, Finset.sum_insert new, size, List.length_append, List.length_map]
    omega

theorem work_foldl {wheel : Wheel V M} {name : String} (found : selected.get? name = some wheel)
    {extras : List String} (counted : ∀ enabled ∈ extras, (name, enabled) ∈ problem.pairs selected) :
    (extras.foldl (Closure.expand wheel name) closure).work problem selected =
      closure.work problem selected := by
  induction extras generalizing closure with
  | nil => rfl
  | cons enabled rest ih =>
      rw [List.foldl_cons, ih fun other member => counted other (List.mem_cons_of_mem _ member)]
      exact work_expand found (counted enabled List.mem_cons_self)

theorem work_add {requirement : Requirement M} {packaging : Packaging V M} :
    (closure.add packaging requirement).work problem selected = closure.work problem selected := by
  rw [Closure.work, Closure.work, pending_add, expanded_add]

theorem work_withPending (picked : closure.pending.Perm (item :: rest)) :
    (closure.withPending rest).work problem selected + 1 = closure.work problem selected := by
  have after : (closure.withPending rest).work problem selected = rest.length +
      ∑ pair ∈ problem.pairs selected with pair ∉ closure.expanded, degree selected pair.1 := rfl
  rw [after, Closure.work, picked.length_eq, List.length_cons]
  omega

theorem Sound.work_visit (sound : Sound problem selected.get? closure)
    (picked : closure.pending.Perm (item :: rest)) (arranged : ∀ extras, (order extras).Perm extras)
    {next : Closure M}
    (shown : Closure.visit problem selected order (closure.withPending rest) item = .ok (some next)) :
    next.work problem selected + 1 = closure.work problem selected := by
  have here := sound.withPending picked
  rw [← work_withPending picked]
  have cases := @shown_visit V M problem (closure.withPending rest) selected order item
  rw [shown] at cases
  cases cases with
  | skipped => rfl
  | missing => rw [work_add]
  | expanded active found accepted =>
      have asked : Active problem selected.get? item.requirement :=
        ⟨item.extra, (sound.visited picked).1, active⟩
      rw [work_foldl found, work_add]
      intro enabled member
      refine (here.add asked).mem_pairs found ?_
      rcases List.mem_cons.mp member with plain | extra
      · exact .inl plain
      · exact .inr ((arranged _).mem_iff.mp extra)

theorem walk_terminates (scheduler : Scheduler M) {steps : Nat} (sound : Sound problem selected.get? closure)
    (enough : closure.work problem selected < steps) :
    ∃ result, walk problem selected scheduler steps closure = some result := by
  induction steps generalizing closure with
  | zero => omega
  | succ steps ih =>
      rw [walk]
      split
      next => exact ⟨_, rfl⟩
      next item rest picked =>
        split
        next => exact ⟨_, rfl⟩
        next => exact ⟨_, rfl⟩
        next shown =>
          have permuted := scheduler.pick_some steps _ item rest picked
          have arranged := scheduler.order_perm steps
          have less := sound.work_visit permuted arranged shown
          exact ih (sound.visit permuted arranged shown) (by omega)

/-- The closure in the order of the source. -/
theorem walk_closure (problem : Problem V M) (selected : Selected V M) :
    walk problem selected .lastFirst ((Closure.start problem).work problem selected + 1)
      (Closure.start problem) = some (problem.closure selected) := by
  obtain ⟨result, ends⟩ := walk_terminates .lastFirst (@sound_start V M problem selected.get?)
    (Nat.lt_succ_self ((Closure.start problem).work problem selected))
  rw [Problem.closure, ends]
  rfl

theorem closure_walked (problem : Problem V M) (selected : Selected V M) :
    Walked problem selected.get? (problem.closure selected) :=
  walked sound_start covers_start (walk_closure problem selected)

theorem closure_describes (lawful : problem.packaging.Lawful)
    (found : problem.closure selected = .ok (some closure)) : Describes problem selected.get? closure := by
  have ends := closure_walked problem selected
  rw [found] at ends
  exact ends.2.1.describes ends.1 ends.2.2 lawful

theorem closure_rejected (found : problem.closure selected = .ok none) :
    ¬ Consistent problem selected.get? := by
  have ends := closure_walked problem selected
  rw [found] at ends
  exact ends

theorem closure_raised {failure : Failure} (found : problem.closure selected = .error failure) :
    ∃ requirement ∈ problem.roots, problem.active requirement "" = .error failure := by
  have ends := closure_walked problem selected
  rw [found] at ends
  exact ends

end Environments

end FeatureRl
