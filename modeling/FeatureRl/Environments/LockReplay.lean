import FeatureRl.Environments.Locks

/-!
A lock is replayed without the registry: over the archived wheels of a selection the solver
returns that selection again.
-/

namespace FeatureRl

open Checked Sorting Backtrack

namespace Environments

variable {V M : Type} {problem : Problem V M} {selected : Selected V M} {catalog : Catalog V M}

/-! ### The roster -/

theorem map_name_filterMap {names : List String}
    (chosen : ∀ name ∈ names, ∃ wheel, selected.get? name = some wheel ∧ wheel.name = name) :
    (names.filterMap selected.get?).map Wheel.name = names := by
  induction names with
  | nil => rfl
  | cons name rest ih =>
      obtain ⟨wheel, found, named⟩ := chosen name List.mem_cons_self
      rw [List.filterMap_cons_some found, List.map_cons, named,
        ih fun other member => chosen other (List.mem_cons_of_mem _ member)]

/-- Every wheel is recorded under its own name. -/
def Named (selected : Selected V M) : Prop :=
  ∀ name wheel, selected.get? name = some wheel → wheel.name = name

theorem Named.map_inOrder (named : Named selected) :
    (inOrder selected).map Wheel.name = sortBy id selected.keys := by
  refine map_name_filterMap fun name member => ?_
  obtain ⟨wheel, found⟩ := Dict.mem_keys.mp (mem_sortBy.mp member)
  exact ⟨wheel, found, named name wheel found⟩

theorem mem_inOrder {wheel : Wheel V M} :
    wheel ∈ inOrder selected ↔ ∃ name, selected.get? name = some wheel := by
  simp only [inOrder, List.mem_filterMap, mem_sortBy]
  constructor
  · rintro ⟨name, _, found⟩
    exact ⟨name, found⟩
  · rintro ⟨name, found⟩
    exact ⟨name, Dict.mem_keys.mpr ⟨wheel, found⟩, found⟩

theorem entries_byName {records : List (Wheel V M)} (distinct : (records.map Wheel.name).Nodup) :
    (byName records).entries = records.map fun wheel => (wheel.name, wheel) := by
  have listed := Dict.entries_foldl_set id (records.map fun wheel => (wheel.name, wheel))
    (by simpa [List.map_map, Function.comp_def] using distinct)
  simpa [byName, List.foldl_map, Function.comp_def] using listed

theorem Named.nodup (named : Named selected) : ((inOrder selected).map Wheel.name).Nodup := by
  rw [named.map_inOrder, nodup_sortBy]
  exact selected.nodup

theorem Named.get?_byName (named : Named selected) (name : String) :
    (byName (inOrder selected)).get? name = selected.get? name := by
  refine Option.ext fun wheel => ?_
  rw [← Dict.mem_entries, entries_byName named.nodup, List.mem_map]
  constructor
  · rintro ⟨other, member, same⟩
    obtain ⟨rfl, rfl⟩ := Prod.mk.inj same
    obtain ⟨key, found⟩ := mem_inOrder.mp member
    exact named key other found ▸ found
  · intro found
    exact ⟨wheel, mem_inOrder.mpr ⟨name, found⟩, by rw [named name wheel found]⟩

theorem inOrder_congr {other : Selected V M} (same : ∀ name, other.get? name = selected.get? name) :
    inOrder other = inOrder selected := by
  have keys : other.keys.Perm selected.keys := by
    refine (List.perm_ext_iff_of_nodup other.nodup selected.nodup).mpr fun name => ?_
    rw [← Dict.keys, ← Dict.keys, Dict.mem_keys, Dict.mem_keys, same]
  rw [inOrder, inOrder, @sortBy_eq_of_perm _ _ _ id _ _ (fun _ _ _ _ equal => equal) keys, funext same]

/-! ### The archive as a provider -/

def archived (selected : Selected V M) (name : String) : List (Wheel V M) := (selected.get? name).toList

theorem mem_archived {name : String} {wheel : Wheel V M} :
    wheel ∈ archived selected name ↔ selected.get? name = some wheel := by
  rw [archived, Option.mem_toList]

theorem mem_archiveOptions (named : Named selected) {name : String} {requirements : List (Requirement M)}
    {hashes : Option (List String)} {prefer : Bool} {wheel : Wheel V M} :
    wheel ∈ archiveOptions (inOrder selected) name requirements hashes prefer ↔
      selected.get? name = some wheel := by
  rw [archiveOptions, named.get?_byName, Option.mem_toList]

def Problem.archivedNames (problem : Problem V M) (selected : Selected V M) : Finset String :=
  ((problem.roots ++ selected.values.flatMap Wheel.requirements).map problem.packaging.nameOf).toFinset

theorem Named.provides (named : Named selected) :
    Provides problem (archiveOptions (inOrder selected)) (archived selected)
      (problem.archivedNames selected) where
  sound _ _ _ _ _ offered := mem_archived.mpr ((mem_archiveOptions named).mp offered)
  complete _ _ _ _ _ offered _ _ _ _ := (mem_archiveOptions named).mpr (mem_archived.mp offered)
  named name wheel offered := named name wheel (mem_archived.mp offered)
  roots _ member := List.mem_toFinset.mpr (List.mem_map_of_mem (List.mem_append_left _ member))
  closed name wheel offered _ member :=
    List.mem_toFinset.mpr (List.mem_map_of_mem (List.mem_append_right _
      (List.mem_flatMap.mpr ⟨wheel, Dict.mem_values.mpr ⟨name, mem_archived.mp offered⟩, member⟩)))

variable {wheels : String → List (Wheel V M)}

theorem Solves.pins (solves : Solves problem wheels selected) (named : Named selected) :
    Pins problem (archiveOptions (inOrder selected)) :=
  fun name _ _ _ _ _ wheel offered _ _ => solves.pinned name wheel ((mem_archiveOptions named).mp offered)

/-- A selection solves its request again when nothing else is offered. -/
theorem Solves.archived (solves : Solves problem wheels selected) :
    Solves problem (archived selected) selected :=
  { solves with offered := fun _ _ found => mem_archived.mpr found }

/-! ### One solution -/

/-- A smaller selection that is complete reaches everything that the larger one does. -/
theorem Within.visited {other : Selected V M} (within : Within other selected)
    (complete : ∀ name, Needed problem other.get? name → name ∈ other.keys) {requirement : Requirement M}
    {extra : String} (visited : Visited problem selected.get? requirement extra) :
    Visited problem other.get? requirement extra := by
  have same : ∀ {parent : Requirement M} {extra : String} {wheel : Wheel V M},
      Visited problem other.get? parent extra → problem.active parent extra = .ok true →
      selected.get? (problem.packaging.nameOf parent) = some wheel →
      other.get? (problem.packaging.nameOf parent) = some wheel := by
    intro parent extra wheel reached active found
    obtain ⟨chosen, present⟩ := Dict.mem_keys.mp (complete _ ⟨parent, ⟨extra, reached, active⟩, rfl⟩)
    obtain rfl := Option.some.inj (found.symm.trans (within _ _ present))
    exact present
  induction visited with
  | root member => exact .root member
  | plain _ active found member ih => exact .plain ih active (same ih active found) member
  | extra _ active asked found member ih => exact .extra ih active asked (same ih active found) member

theorem Solves.unique {other : Selected V M} {others : String → List (Wheel V M)}
    (solves : Solves problem wheels selected) (again : Solves problem others other)
    (within : Within other selected) (name : String) : other.get? name = selected.get? name := by
  cases found : selected.get? name with
  | none =>
      cases present : other.get? name with
      | none => rfl
      | some wheel =>
          rw [within name wheel present] at found
          cases found
  | some wheel =>
      obtain ⟨requirement, ⟨extra, visited, active⟩, same⟩ :=
        (solves.exact name).mp (Dict.mem_keys.mpr ⟨wheel, found⟩)
      have reached := within.visited (fun name => (again.exact name).mpr) visited
      obtain ⟨chosen, present⟩ := Dict.mem_keys.mp
        ((again.exact name).mpr ⟨requirement, ⟨extra, reached, active⟩, same⟩)
      rw [present, ← found, within name chosen present]

/-- Over its archived wheels the solver returns the selection again. -/
theorem Solves.replay (lawful : problem.packaging.Lawful) (solves : Solves problem wheels selected)
    (named : Named selected) : ∃ enough, ∀ steps, enough ≤ steps → ∃ opened,
      problem.search (archiveOptions (inOrder selected)) steps =
        some (.ok (some (inOrder selected)), opened) := by
  obtain ⟨enough, ⟨answer, opened⟩, ends⟩ :=
    search_terminates lawful (@Named.provides V M problem selected named) (solves.pins named)
  have answers := search_answers lawful (@Named.provides V M problem selected named) (solves.pins named) ends
  refine ⟨enough, fun steps more => ⟨opened, ?_⟩⟩
  obtain ⟨further, rfl⟩ := Nat.exists_eq_add_of_le more
  rw [Problem.search, Backtrack.search_mono further ends]
  cases answer with
  | error failure =>
      obtain ⟨requirement, member, failed⟩ := answers
      obtain ⟨value, active⟩ := solves.evaluable requirement "" (.root member)
      rw [failed] at active
      cases active
  | ok result =>
      cases result with
      | none => exact absurd ⟨selected, solves.archived⟩ answers
      | some result =>
          obtain ⟨other, again, rfl⟩ := answers
          have within : Within other selected := fun name wheel found =>
            mem_archived.mp (again.offered name wheel found)
          rw [inOrder_congr (solves.unique again within)]

/-! ### Every order -/

/-- Two closures ask for the same packages, requirements and extras. -/
structure SameClosure (packaging : Packaging V M) (one two : Closure M) : Prop where
  names : ∀ name, name ∈ one.needed.keys ↔ name ∈ two.needed.keys
  requirements : ∀ name key, (∃ requirement ∈ one.neededOf name, requirementKey packaging requirement = key) ↔
    ∃ requirement ∈ two.neededOf name, requirementKey packaging requirement = key
  extras : ∀ name extra, extra ∈ one.extrasOf name ↔ extra ∈ two.extrasOf name

theorem Describes.same {chosen : String → Option (Wheel V M)} {one two : Closure M}
    (first : Describes problem chosen one) (second : Describes problem chosen two) :
    SameClosure problem.packaging one two where
  names name := (first.names name).trans (second.names name).symm
  requirements name key := (first.keys name key).trans (second.keys name key).symm
  extras name extra := (first.extras name extra).trans (second.extras name extra).symm

/-- Both walks give up, or both end with the same closure. -/
def Agree (packaging : Packaging V M) :
    Except Failure (Option (Closure M)) → Except Failure (Option (Closure M)) → Prop
  | .ok none, .ok none => True
  | .ok (some one), .ok (some two) => SameClosure packaging one two
  | _, _ => False

/-- When the markers of the roots can be evaluated, every order of visiting ends with one closure. -/
theorem walk_agree (lawful : problem.packaging.Lawful)
    (evaluable : ∀ requirement ∈ problem.roots, ∃ value, problem.active requirement "" = .ok value)
    {one two : Scheduler M} {steps others : Nat} {first second : Except Failure (Option (Closure M))}
    (left : walk problem selected one steps (Closure.start problem) = some first)
    (right : walk problem selected two others (Closure.start problem) = some second) :
    Agree problem.packaging first second := by
  have complete : ∀ {closure : Closure M}, Walked problem selected.get? (.ok (some closure)) →
      Describes problem selected.get? closure :=
    fun ⟨sound, covers, finished⟩ => covers.describes sound finished lawful
  have declared : ∀ {failure : Failure}, ¬ Walked problem selected.get? (.error failure) := by
    rintro failure ⟨requirement, member, failed⟩
    obtain ⟨value, active⟩ := evaluable requirement member
    rw [failed] at active
    cases active
  have ends := walked sound_start covers_start left
  have again := walked sound_start covers_start right
  match first, second with
  | .error _, _ => exact absurd ends declared
  | .ok _, .error _ => exact absurd again declared
  | .ok none, .ok none => exact trivial
  | .ok none, .ok (some closure) => exact absurd (complete again).consistent ends
  | .ok (some closure), .ok none => exact absurd (complete ends).consistent again
  | .ok (some one), .ok (some two) => exact (complete ends).same (complete again)

/-! ### What the archive retains -/

/-- The registry kept the bytes of every wheel it inspected. -/
def Archive.Retains (archive : Archive V M) (catalog : Catalog V M) : Prop :=
  ∀ name, ∀ option ∈ catalog.indexOf name, ∀ wheel ∈ option.inspected, ∃ data shown,
    archive.bytes wheel.item.artifact = some data ∧ archive.sha256 data = option.pin.sha256 ∧
      option.size.all (fun size => data.length = size) = true ∧
      archive.inspect option.pin data = some shown ∧ { shown with item := wheel.item } = wheel

variable {archive : Archive V M}

theorem find?_filename {options : List (IndexedWheel V M)} {option : IndexedWheel V M}
    (distinct : (options.map fun option => option.pin.filename).Nodup) (member : option ∈ options) :
    (options.find? fun other => other.pin.filename = option.pin.filename) = some option := by
  induction options with
  | nil => cases member
  | cons head rest ih =>
      rw [List.map_cons, List.nodup_cons] at distinct
      rcases List.mem_cons.mp member with rfl | later
      · exact List.find?_cons_of_pos (by simp)
      · have different : head.pin.filename ≠ option.pin.filename := fun same =>
          distinct.1 (same ▸ List.mem_map_of_mem later)
        rw [List.find?_cons_of_neg (by simpa using different)]
        exact ih distinct.2 later

theorem indexOf_distinct (catalog : Catalog V M) (name : String) :
    ((catalog.indexOf name).map fun option => option.pin.filename).Nodup := by
  rw [Catalog.indexOf]
  cases found : catalog.index.get? name with
  | none => exact List.nodup_nil
  | some options => exact catalog.distinct name options found

theorem pin_indexOf {name : String} {option : IndexedWheel V M} (member : option ∈ catalog.indexOf name) :
    option.pin.name = name := by
  rw [Catalog.indexOf] at member
  cases found : catalog.index.get? name with
  | none =>
      rw [found] at member
      cases member
  | some options =>
      rw [found] at member
      exact (catalog.named name options found option member).1

theorem get?_freeze {names : List String} {name : String} (asked : name ∈ names) :
    (catalog.freeze names).get? name = some (catalog.indexOf name) := by
  have distinct : (sortBy id names.dedup).Nodup := nodup_sortBy.mpr names.nodup_dedup
  have entries := Dict.entries_foldl_set catalog.indexOf
    ((sortBy id names.dedup).map fun name => (name, name))
    (by simpa [List.map_map, Function.comp_def] using distinct)
  rw [List.foldl_map] at entries
  rw [← Dict.mem_entries, Catalog.freeze, entries, List.map_map]
  exact List.mem_map.mpr ⟨name, mem_sortBy.mpr (List.mem_dedup.mpr asked), rfl⟩

/-- A wheel of the registry passes every check of the snapshot that holds its page. -/
theorem checkItem_of_offered (retains : archive.Retains catalog) {names : List String} {name : String}
    (asked : name ∈ names) {wheel : Wheel V M} (offered : wheel ∈ catalog.wheels name)
    {seen : List String} (fresh : name ∉ seen) :
    checkItem archive (catalog.freeze names) seen wheel.item = .ok (name :: seen) ∧
      archive.inspectWheel wheel.item = .ok wheel := by
  obtain ⟨option, member, inspected⟩ := List.mem_filterMap.mp offered
  obtain ⟨data, shown, stored, hashed, sized, read, same⟩ := retains name option member wheel inspected
  have pin := (option.same wheel inspected).1
  have named : wheel.item.pin.name = name := by rw [pin, pin_indexOf member]
  have found : (((catalog.freeze names).get? name).getD []).find?
      (fun other => other.pin.filename = wheel.item.pin.filename) = some option := by
    rw [get?_freeze asked, pin]
    exact find?_filename (indexOf_distinct catalog name) member
  constructor
  · simp only [checkItem, bind_eq_ok, refuse_eq_ok, require_eq_ok, named]
    refine ⟨(), fresh, option, found, (), by simp [pin], data, stored, (), ?_, trivial⟩
    simp [pin, hashed, sized]
  · simp only [Archive.inspectWheel, bind_eq_ok, refuse_eq_ok, require_eq_ok]
    refine ⟨data, stored, (), by simp [pin, hashed], shown, by rw [pin, read], ?_⟩
    rw [same]

theorem validate_of_offered (retains : archive.Retains catalog) {names : List String}
    {records : List (Wheel V M)} (distinct : (records.map Wheel.name).Nodup) {seen : List String}
    (fresh : ∀ wheel ∈ records, wheel.name ∉ seen)
    (offered : ∀ wheel ∈ records, wheel.name ∈ names ∧ wheel ∈ catalog.wheels wheel.name) :
    ∃ final, foldAll (checkItem archive (catalog.freeze names)) seen (records.map Wheel.item) = .ok final := by
  induction records generalizing seen with
  | nil => exact ⟨seen, rfl⟩
  | cons wheel rest ih =>
      rw [List.map_cons, List.nodup_cons] at distinct
      obtain ⟨asked, listed⟩ := offered wheel List.mem_cons_self
      have checked := (checkItem_of_offered retains asked listed (fresh wheel List.mem_cons_self)).1
      have later : ∀ other ∈ rest, other.name ∉ wheel.name :: seen := by
        intro other member
        rw [List.mem_cons, not_or]
        exact ⟨fun same => distinct.1 (same ▸ List.mem_map_of_mem member),
          fresh other (List.mem_cons_of_mem _ member)⟩
      obtain ⟨final, rest⟩ := ih distinct.2 later fun other member =>
        offered other (List.mem_cons_of_mem _ member)
      exact ⟨final, foldAll_cons_eq_ok.mpr ⟨_, checked, rest⟩⟩

theorem inspect_of_offered (retains : archive.Retains catalog) {records : List (Wheel V M)}
    (offered : ∀ wheel ∈ records, wheel ∈ catalog.wheels wheel.name) :
    (records.map Wheel.item).mapM archive.inspectWheel = .ok records := by
  induction records with
  | nil => rfl
  | cons wheel rest ih =>
      have read := (checkItem_of_offered retains (List.mem_singleton_self wheel.name)
        (offered wheel List.mem_cons_self) List.not_mem_nil).2
      have later := ih fun other member => offered other (List.mem_cons_of_mem _ member)
      rw [List.map_cons, List.mapM_cons, read, later]
      rfl

/-! ### Locks -/

theorem child_asks {options : Options V M} {child : Selected V M}
    (follows : Child (problem.visit options) selected child) :
    ∃ name wheel, problem.asks selected = some name ∧ child = selected.set name wheel := by
  obtain ⟨choices, shown, member⟩ := follows
  rw [Problem.visit] at shown
  split at shown
  next => cases shown
  next => cases shown
  next closure found =>
    split at shown
    next => cases shown
    next name rest lacking =>
      cases shown
      obtain ⟨asked, hashes, _, wheel, restricted, _, same, _⟩ := mem_extend member
      refine ⟨name, wheel, ?_, same⟩
      simp [Problem.asks, found, lacking, restricted]

/-- The page of every selected package was read. -/
theorem asked_of_traced {options : Options V M} {opened : List (Selected V M)}
    (traced : Traced (problem.visit options) .empty opened selected) :
    ∀ name ∈ selected.keys, name ∈ opened.filterMap problem.asks := by
  induction traced with
  | root => simp
  | child _ member follows ih =>
      obtain ⟨name, wheel, asks, rfl⟩ := child_asks follows
      intro other present
      rcases (Dict.mem_keys_set _ _ _ _).mp present with rfl | before
      · exact List.mem_filterMap.mpr ⟨_, member, asks⟩
      · exact ih other before

variable {request : Request V M} {resolutionIdentity : Digest → Snapshot V M → Digest}
  {requestIdentity : Digest}

/-- What the resolver writes when it finds a selection. -/
theorem resolve_eq_ok {steps : Nat} {lock : DependencyResolution V M}
    (written : resolve catalog resolutionIdentity request requestIdentity steps = some (.ok lock)) :
    ∃ problem selected opened, request.prepare = .ok problem ∧
      problem.search (problem.registryOptions catalog) steps = some (.ok selected, opened) ∧
      lock = ⟨requestIdentity, catalog.freeze (opened.filterMap problem.asks),
        resolutionIdentity requestIdentity (catalog.freeze (opened.filterMap problem.asks)),
        (selected.getD []).map Wheel.item, selected.isNone⟩ := by
  rw [resolve] at written
  split at written
  next => cases written
  next problem prepared =>
    split at written
    next => cases written
    next => cases written
    next selected opened found =>
      obtain rfl := Except.ok.inj (Option.some.inj written)
      exact ⟨problem, selected, opened, prepared, found, rfl⟩

/-- The checks of a lock accept the wheels of a selection. -/
theorem loadRecords_inOrder (retains : archive.Retains catalog) (named : Named selected) {names : List String}
    (offered : ∀ name wheel, selected.get? name = some wheel → name ∈ names ∧ wheel ∈ catalog.wheels name)
    (filled : inOrder selected ≠ []) :
    loadRecords archive resolutionIdentity requestIdentity
      ⟨requestIdentity, catalog.freeze names, resolutionIdentity requestIdentity (catalog.freeze names),
        (inOrder selected).map Wheel.item, false⟩ = .ok (inOrder selected) := by
  have listed : ∀ wheel ∈ inOrder selected, wheel.name ∈ names ∧ wheel ∈ catalog.wheels wheel.name := by
    intro wheel member
    obtain ⟨name, chosen⟩ := mem_inOrder.mp member
    obtain rfl := named name wheel chosen
    exact offered _ wheel chosen
  obtain ⟨seen, valid⟩ := validate_of_offered retains named.nodup (fun _ _ => List.not_mem_nil) listed
  have size : (byName (inOrder selected)).size = (inOrder selected).length := by
    rw [Dict.size, entries_byName named.nodup, List.length_map]
  simp only [loadRecords, bind_eq_ok, refuse_eq_ok]
  refine ⟨(), by simp, seen, valid, (), by simp, (), by simp, inOrder selected,
    inspect_of_offered retains fun wheel member => (listed wheel member).2, (), ?_, rfl⟩
  simp [size, filled]

def libArchive : Archive String Empty where
  bytes ref := if ref.kind.val = "dependency-wheel" then some (List.replicate 10 80) else none
  sha256 _ := String.ofList (List.replicate 64 'a')
  inspect pin _ := if pin = libPin then some libWheel else none

theorem libArchive_retains : libArchive.Retains libCatalog := by
  intro name option member wheel inspected
  obtain rfl : option = ⟨libPin, "1.0", some 10, some libWheel, by simp [libWheel]⟩ := by
    rw [Catalog.indexOf] at member
    by_cases same : name = "lib"
    · subst same
      exact List.mem_singleton.mp member
    · simp [libCatalog, Dict.get?, List.lookup_cons, beq_eq_false_iff_ne.mpr same] at member
  obtain rfl := Option.some.inj inspected
  exact ⟨List.replicate 10 80, libWheel, rfl, rfl, rfl, rfl, rfl⟩

def libIdentity : Digest := ⟨String.ofList (List.replicate 64 'b'), by decide⟩

theorem resolve_lib : ∃ lock, resolve libCatalog (fun _ _ => libIdentity) (libRequest "lib") libIdentity 10 =
    some (.ok lock) ∧ lock.failure = false ∧ lock.wheels = [libWheel.item] := by
  have shown : (((resolve libCatalog (fun _ _ => libIdentity) (libRequest "lib") libIdentity 10).bind
      Except.toOption).map fun lock => (lock.failure, lock.wheels)) = some (false, [libWheel.item]) := by
    decide +kernel
  obtain ⟨lock, found, same⟩ := Option.map_eq_some_iff.mp shown
  obtain ⟨result, resolved, succeeded⟩ := Option.bind_eq_some_iff.mp found
  cases result with
  | error failure => cases succeeded
  | ok written =>
      obtain rfl := Option.some.inj succeeded
      obtain ⟨failure, wheels⟩ := Prod.mk.inj same
      exact ⟨written, resolved, failure, wheels⟩

end Environments

end FeatureRl
