import FeatureRl.Lib.JsonReader

/-!
Places inside a JSON value: reading and rewriting what a path of keys and indices leads to. Rewritings at places that
part ways do not see each other, so texts that are taken out of a value can be put back in any order.
-/

namespace Json

inductive Step where
  | key (name : String)
  | index (position : Nat)
deriving DecidableEq

abbrev Place := List Step

def setAt (key : String) (change : Json → Json) : Members → Members
  | [] => []
  | (name, value) :: rest =>
      if name = key then (name, change value) :: rest else (name, value) :: setAt key change rest

def modifyAt : Place → (Json → Json) → Json → Json
  | [], change, value => change value
  | .key name :: rest, change, value =>
      match value with
      | .obj members => .obj (setAt name (modifyAt rest change) members)
      | other => other
  | .index position :: rest, change, value =>
      match value with
      | .arr items => .arr (items.modify position (modifyAt rest change))
      | other => other

def readAt : Place → Json → Option Json
  | [], value => some value
  | .key name :: rest, value =>
      match value with
      | .obj members => (members.lookup name).bind (readAt rest)
      | _ => none
  | .index position :: rest, value =>
      match value with
      | .arr items => items[position]?.bind (readAt rest)
      | _ => none

def writeAt (place : Place) (value : Json) : Json → Json := modifyAt place fun _ => value

/-- The places part ways at some step, and neither lies inside the other. -/
def Apart : Place → Place → Prop
  | first :: rest, second :: more => first ≠ second ∨ Apart rest more
  | _, _ => False

theorem Apart.symm : ∀ {first second : Place}, Apart first second → Apart second first
  | _ :: _, _ :: _, apart => apart.imp Ne.symm Apart.symm

/-! ### Members -/

theorem keys_setAt (key : String) (change : Json → Json) (members : Members) :
    (setAt key change members).map Prod.fst = members.map Prod.fst := by
  induction members with
  | nil => rfl
  | cons member rest ih =>
      rw [setAt]
      split
      · rfl
      · rw [List.map_cons, List.map_cons, ih]

theorem lookup_setAt (key : String) (change : Json → Json) (members : Members) :
    (setAt key change members).lookup key = (members.lookup key).map change := by
  induction members with
  | nil => rfl
  | cons member rest ih =>
      obtain ⟨name, held⟩ := member
      rw [setAt]
      by_cases same : name = key
      · simp [same]
      · rw [if_neg same, List.lookup_cons, List.lookup_cons, ih]
        simp [beq_false_of_ne (Ne.symm same)]

theorem lookup_setAt_ne {key other : String} (different : other ≠ key) (change : Json → Json) (members : Members) :
    (setAt key change members).lookup other = members.lookup other := by
  induction members with
  | nil => rfl
  | cons member rest ih =>
      rw [setAt]
      by_cases same : member.1 = key
      · rw [if_pos same, List.lookup_cons, List.lookup_cons]
        simp [beq_false_of_ne (same ▸ different)]
      · rw [if_neg same, List.lookup_cons, List.lookup_cons, ih]

theorem setAt_setAt (key : String) (later earlier : Json → Json) (members : Members) :
    setAt key later (setAt key earlier members) = setAt key (later ∘ earlier) members := by
  induction members with
  | nil => rfl
  | cons member rest ih =>
      by_cases same : member.1 = key
      · simp [setAt, same]
      · simp [setAt, same, ih]

theorem setAt_comm {key other : String} (different : key ≠ other) (change alter : Json → Json) (members : Members) :
    setAt key change (setAt other alter members) = setAt other alter (setAt key change members) := by
  induction members with
  | nil => rfl
  | cons member rest ih =>
      by_cases first : member.1 = key
      · have second : member.1 ≠ other := fun same => different (first.symm.trans same)
        simp [setAt, first, different]
      · by_cases second : member.1 = other
        · simp [setAt, second, different.symm]
        · simp [setAt, first, second, ih]

theorem setAt_congr {key : String} {change alter : Json → Json} {members : Members}
    (same : ∀ value, members.lookup key = some value → change value = alter value) :
    setAt key change members = setAt key alter members := by
  induction members with
  | nil => rfl
  | cons member rest ih =>
      obtain ⟨name, held⟩ := member
      by_cases here : name = key
      · simp [setAt, here, same held (by simp [here])]
      · rw [setAt, setAt, if_neg here, if_neg here, ih]
        intro value found
        refine same value ?_
        rw [List.lookup_cons, beq_false_of_ne (Ne.symm here)]
        exact found

theorem setAt_id (key : String) (members : Members) : setAt key id members = members := by
  induction members with
  | nil => rfl
  | cons member rest ih => simp [setAt, ih]

/-! ### Places -/

theorem modifyAt_id (place : Place) (value : Json) : modifyAt place id value = value := by
  induction place generalizing value with
  | nil => rfl
  | cons step rest ih =>
      have same : modifyAt rest id = id := funext ih
      cases step <;> cases value <;> simp [modifyAt, same, setAt_id]

theorem modifyAt_modifyAt (place : Place) (later earlier : Json → Json) (value : Json) :
    modifyAt place later (modifyAt place earlier value) = modifyAt place (later ∘ earlier) value := by
  induction place generalizing value with
  | nil => rfl
  | cons step rest ih =>
      have same : modifyAt rest later ∘ modifyAt rest earlier = modifyAt rest (later ∘ earlier) := funext ih
      cases step <;> cases value <;> simp [modifyAt, setAt_setAt, List.modify_modify_eq, same]

theorem modifyAt_congr {place : Place} {change alter : Json → Json} {value : Json}
    (same : ∀ found, readAt place value = some found → change found = alter found) :
    modifyAt place change value = modifyAt place alter value := by
  induction place generalizing value with
  | nil => exact same value rfl
  | cons step rest ih =>
      cases step with
      | key name =>
          cases value with
          | obj members =>
              simp only [modifyAt]
              rw [setAt_congr]
              intro inner found
              refine ih fun deep reads => same deep ?_
              simp [readAt, found, reads]
          | _ => rfl
      | index position =>
          cases value with
          | arr items =>
              simp only [modifyAt]
              congr 1
              refine List.ext_getElem? fun other => ?_
              rw [List.getElem?_modify, List.getElem?_modify]
              by_cases here : position = other
              · subst here
                simp only [if_true]
                cases item : items[position]? with
                | none => rfl
                | some inner =>
                    have equal := @ih inner fun deep reads => same deep (by simp [readAt, item, reads])
                    simp [equal]
              · simp [here]
          | _ => rfl

theorem writeAt_read {place : Place} {value found : Json} (reads : readAt place value = some found) :
    writeAt place found value = value := by
  refine (modifyAt_congr fun other again => ?_).trans (modifyAt_id place value)
  rw [reads] at again
  exact Option.some.inj again

theorem writeAt_writeAt (place : Place) (later earlier value : Json) :
    writeAt place later (writeAt place earlier value) = writeAt place later value :=
  modifyAt_modifyAt place _ _ value

theorem readAt_modifyAt (place : Place) (change : Json → Json) (value : Json) :
    readAt place (modifyAt place change value) = (readAt place value).map change := by
  induction place generalizing value with
  | nil => rfl
  | cons step rest ih =>
      cases step with
      | key name =>
          cases value with
          | obj members =>
              simp only [modifyAt, readAt, lookup_setAt]
              cases members.lookup name <;> simp [ih]
          | _ => rfl
      | index position =>
          cases value with
          | arr items =>
              simp only [modifyAt, readAt, List.getElem?_modify_eq]
              cases items[position]? <;> simp [ih]
          | _ => rfl

theorem readAt_writeAt {place : Place} {value old : Json} (valid : readAt place value = some old) (new : Json) :
    readAt place (writeAt place new value) = some new := by
  rw [writeAt, readAt_modifyAt, valid]
  rfl

theorem readAt_modifyAt_apart {place other : Place} (apart : Apart place other) (change : Json → Json) (value : Json) :
    readAt place (modifyAt other change value) = readAt place value := by
  induction place generalizing other value with
  | nil => cases apart
  | cons step rest ih =>
      cases other with
      | nil => cases apart
      | cons turn more =>
          cases step with
          | key name =>
              cases turn with
              | index => cases value <;> rfl
              | key again =>
                  cases value with
                  | obj members =>
                      simp only [modifyAt, readAt]
                      by_cases same : name = again
                      · subst same
                        have deeper := apart.resolve_left fun different => different rfl
                        rw [lookup_setAt]
                        cases members.lookup name <;> simp [ih deeper]
                      · rw [lookup_setAt_ne same]
                  | _ => rfl
          | index position =>
              cases turn with
              | key => cases value <;> rfl
              | index again =>
                  cases value with
                  | arr items =>
                      simp only [modifyAt, readAt]
                      by_cases same : position = again
                      · subst same
                        have deeper := apart.resolve_left fun different => different rfl
                        rw [List.getElem?_modify_eq]
                        cases items[position]? <;> simp [ih deeper]
                      · rw [List.getElem?_modify_ne _ _ (Ne.symm same)]
                  | _ => rfl

theorem modifyAt_comm {place other : Place} (apart : Apart place other) (change alter : Json → Json) (value : Json) :
    modifyAt place change (modifyAt other alter value) = modifyAt other alter (modifyAt place change value) := by
  induction place generalizing other value with
  | nil => cases apart
  | cons step rest ih =>
      cases other with
      | nil => cases apart
      | cons turn more =>
          cases step with
          | key name =>
              cases turn with
              | index => cases value <;> rfl
              | key again =>
                  cases value with
                  | obj members =>
                      simp only [modifyAt]
                      by_cases same : name = again
                      · subst same
                        have deeper := apart.resolve_left fun different => different rfl
                        rw [setAt_setAt, setAt_setAt]
                        exact congrArg Json.obj (setAt_congr fun inner _ => ih deeper inner)
                      · rw [setAt_comm same]
                  | _ => rfl
          | index position =>
              cases turn with
              | key => cases value <;> rfl
              | index again =>
                  cases value with
                  | arr items =>
                      simp only [modifyAt]
                      by_cases same : position = again
                      · subst same
                        have deeper := apart.resolve_left fun different => different rfl
                        have equal : modifyAt rest change ∘ modifyAt more alter =
                            modifyAt more alter ∘ modifyAt rest change := funext (ih deeper)
                        rw [List.modify_modify_eq, List.modify_modify_eq, equal]
                      · rw [List.modify_modify_ne _ _ _ same]
                  | _ => rfl

theorem normal_modifyAt {place : Place} {change : Json → Json}
    (kept : ∀ value : Json, value.normal = true → (change value).normal = true) {value : Json}
    (formed : value.normal = true) : (modifyAt place change value).normal = true := by
  induction place generalizing value with
  | nil => exact kept value formed
  | cons step rest ih =>
      cases step with
      | key name =>
          cases value with
          | obj members =>
              simp only [modifyAt, normal, Bool.and_eq_true, sortedKeys, keys_setAt] at formed ⊢
              refine ⟨formed.1, ?_⟩
              have each := (normalMembers_iff members).mp formed.2
              clear formed
              induction members with
              | nil => rfl
              | cons member others induct =>
                  rw [List.forall_mem_cons] at each
                  rw [setAt]
                  split
                  · rw [normalMembers, ih each.1, (normalMembers_iff others).mpr each.2]
                    rfl
                  · rw [normalMembers, each.1, induct each.2]
                    rfl
          | _ => exact formed
      | index position =>
          cases value with
          | arr items =>
              simp only [modifyAt, normal] at formed ⊢
              rw [normalItems_iff] at formed ⊢
              intro item member
              obtain ⟨place, inside, rfl⟩ := List.mem_iff_getElem.mp member
              rw [List.getElem_modify]
              rw [List.length_modify] at inside
              split
              · exact ih (formed _ (List.getElem_mem inside))
              · exact formed _ (List.getElem_mem inside)
          | _ => exact formed

/-! ### Taking texts out of a value -/

/-- The texts at the places, in their order. -/
def textsAt (places : List Place) (value : Json) : List (Place × String) :=
  places.filterMap fun place =>
    match readAt place value with
    | some (.str text) => some (place, text)
    | _ => none

/-- The value with null at the places. -/
def blank (places : List Place) (value : Json) : Json :=
  places.foldl (fun value place => writeAt place .null value) value

def fill (texts : List (Place × String)) (value : Json) : Json :=
  texts.foldl (fun value entry => writeAt entry.1 (.str entry.2) value) value

/-- The value has a text or null at the place. -/
def Prose (value : Json) (place : Place) : Prop :=
  readAt place value = some .null ∨ ∃ text, readAt place value = some (.str text)

theorem textsAt_modify {places : List Place} {place : Place} (apart : ∀ other ∈ places, Apart other place)
    (change : Json → Json) (value : Json) : textsAt places (modifyAt place change value) = textsAt places value := by
  refine List.filterMap_congr fun other member => ?_
  rw [readAt_modifyAt_apart (apart other member)]

theorem blank_modify {places : List Place} {place : Place} (apart : ∀ other ∈ places, Apart other place)
    (change : Json → Json) (value : Json) :
    blank places (modifyAt place change value) = modifyAt place change (blank places value) := by
  induction places generalizing value with
  | nil => rfl
  | cons other rest ih =>
      rw [List.forall_mem_cons] at apart
      have step := modifyAt_comm apart.1 (fun _ => Json.null) change value
      change blank rest (writeAt other .null (modifyAt place change value)) = _
      rw [writeAt, step, ih apart.2]
      rfl

theorem Prose.modify {place other : Place} {value : Json} (apart : Apart place other) (change : Json → Json) :
    Prose (modifyAt other change value) place ↔ Prose value place := by
  rw [Prose, Prose, readAt_modifyAt_apart apart]

theorem readAt_blank_apart {places : List Place} {place : Place} (apart : ∀ other ∈ places, Apart place other)
    (value : Json) : readAt place (blank places value) = readAt place value := by
  induction places generalizing value with
  | nil => rfl
  | cons other rest ih =>
      rw [List.forall_mem_cons] at apart
      change readAt place (blank rest (writeAt other .null value)) = _
      rw [ih apart.2, writeAt, readAt_modifyAt_apart apart.1]

theorem normal_blank {places : List Place} {value : Json} (formed : value.normal = true) :
    (blank places value).normal = true := by
  induction places generalizing value with
  | nil => exact formed
  | cons place rest ih => exact ih (normal_modifyAt (fun _ _ => rfl) formed)

/-- Texts that are put back where they were taken give the value again. -/
theorem fill_blank {places : List Place} {value : Json} (apart : places.Pairwise Apart)
    (prose : ∀ place ∈ places, Prose value place) : fill (textsAt places value) (blank places value) = value := by
  induction places with
  | nil => rfl
  | cons place rest ih =>
      obtain ⟨here, later⟩ := List.pairwise_cons.mp apart
      obtain ⟨first, others⟩ := List.forall_mem_cons.mp prose
      have before := ih later others
      have sides : ∀ other ∈ rest, Apart other place := fun other member => (here other member).symm
      rcases first with empty | ⟨text, reads⟩
      · have same : blank (place :: rest) value = blank rest value := by
          change blank rest (writeAt place .null value) = _
          rw [writeAt_read empty]
        rw [same]
        simpa [textsAt, empty] using before
      · have taken : textsAt (place :: rest) value = (place, text) :: textsAt rest value := by
          simp [textsAt, reads]
        have back : writeAt place (.str text) (blank (place :: rest) value) = blank rest value := by
          change writeAt place (.str text) (blank rest (writeAt place .null value)) = _
          rw [writeAt, ← blank_modify sides]
          change blank rest (writeAt place (.str text) (writeAt place .null value)) = _
          rw [writeAt_writeAt, writeAt_read reads]
        rw [taken]
        change fill (textsAt rest value) (writeAt place (.str text) (blank (place :: rest) value)) = value
        rw [back, before]

end Json
