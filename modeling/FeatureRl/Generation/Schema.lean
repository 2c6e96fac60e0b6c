import FeatureRl.Lib.Checked
import FeatureRl.Lib.Json

/-!
The rewrite of a JSON schema into the dialect of the provider: every field is required, tagged unions become
`anyOf`, and integer bounds that no double holds exactly are left out. The walk treats every dictionary alike.
-/

namespace FeatureRl

open Checked

namespace CodexSchema

inductive Failure where
  | value (text : String)
  | type (text : String)
deriving DecidableEq

abbrev Outcome (α : Type) := Except Failure α

abbrev Members := Json.Members

/-! ### The rewrite -/

def dropped : List String := ["default", "discriminator"]

def hasKey (members : Members) (key : String) : Bool := (members.lookup key).isSome

/-- A dictionary without a key. -/
def without (members : Members) (key : String) : Members := members.filter fun member => member.1 ≠ key

def untagged : Failure := .value "Codex authoring requires tagged oneOf alternatives"

def unite (original members : Members) : Outcome Members :=
  match members.lookup "oneOf" with
  | none => .ok members
  | some alternatives => do
      refuse (hasKey original "discriminator" = false) untagged
      .ok (Dict.setEntries "anyOf" alternatives (without members "oneOf"))

def isText (text : String) : Option Json → Bool
  | some (.str other) => other = text
  | _ => false

def maxInteger : Nat := 2 ^ 53 - 1

/-- A number beyond the integers that doubles hold exactly; booleans are no numbers here. -/
def isBeyond : Json → Bool
  | .int value => maxInteger < value.natAbs
  | .float value => (maxInteger : ℚ) < |value.value|
  | _ => false

def boundKeys : List String := ["minimum", "maximum", "exclusiveMinimum", "exclusiveMaximum"]

def dropBounds (members : Members) : Members :=
  if isText "integer" (members.lookup "type") then
    members.filter fun member => !(member.1 ∈ boundKeys && isBeyond member.2)
  else members

/-- What `list` makes of a value. -/
def listOf : Json → Outcome (List Json)
  | .obj members => .ok (members.map fun member => .str member.1)
  | .arr items => .ok items
  | .str text => .ok (text.toList.map fun c => .str (String.singleton c))
  | _ => .error (.type "object is not iterable")

def requireAll (members : Members) : Outcome Members :=
  if isText "object" (members.lookup "type") then
    match members.lookup "properties" with
    | none => .ok members
    | some properties => do
        let names ← listOf properties
        .ok (Dict.setEntries "required" (.arr names) members)
  else .ok members

mutual

def convert : Json → Outcome Json
  | .arr items => do
      let items ← convertItems items
      .ok (.arr items)
  | .obj members => do
      let result ← convertMembers members
      let result ← unite members result
      let result ← requireAll (dropBounds result)
      .ok (.obj result)
  | value => .ok value

def convertItems : List Json → Outcome (List Json)
  | [] => .ok []
  | item :: rest => do
      let item ← convert item
      let rest ← convertItems rest
      .ok (item :: rest)

def convertMembers : Members → Outcome Members
  | [] => .ok []
  | (key, value) :: rest =>
      if key ∈ dropped then convertMembers rest
      else do
        let value ← convert value
        let rest ← convertMembers rest
        .ok ((key, value) :: rest)

end

def codexOutputSchema (schema : Json) : Outcome Json := convert schema

/-! ### Schemas -/

inductive Kind where
  | schema
  | named
  | many
  | flat
  | anything
deriving DecidableEq

/-- What stands under a keyword. -/
def kindOf (key : String) : Kind :=
  if key ∈ dropped then .anything
  else if key ∈ ["properties", "$defs"] then .named
  else if key ∈ ["anyOf", "oneOf", "allOf", "prefixItems"] then .many
  else if key ∈ ["items", "additionalProperties"] then .schema
  else .flat

mutual

/-- No dictionary anywhere inside. -/
def flat : Json → Bool
  | .arr items => flatItems items
  | .obj _ => false
  | _ => true

def flatItems : List Json → Bool
  | [] => true
  | item :: rest => flat item && flatItems rest

end

/-- A union is tagged and stands alone, and properties and required names have their own shapes. -/
def levelOk (members : Members) : Bool :=
  decide (members.map Prod.fst).Nodup &&
    (!hasKey members "oneOf" || (hasKey members "discriminator" && !hasKey members "anyOf"))

/-- Names that the walk does not take for keywords. -/
def nameOk (name : String) : Bool := name ∉ dropped && name ≠ "oneOf"

mutual

/-- A schema as the models give them, in which no property and no definition is named like a keyword that the walk
rewrites. -/
def clean : Kind → Json → Bool
  | .anything, _ => true
  | .flat, value => flat value
  | .schema, .bool _ => true
  | .schema, .obj members => levelOk members && cleanMembers members
  | .named, .obj entries => cleanEntries entries
  | .many, .arr items => cleanItems items
  | _, _ => false

def cleanMembers : Members → Bool
  | [] => true
  | (key, value) :: rest => clean (kindOf key) value && cleanMembers rest

def cleanEntries : Members → Bool
  | [] => true
  | (name, value) :: rest => nameOk name && clean .schema value && cleanEntries rest

def cleanItems : List Json → Bool
  | [] => true
  | item :: rest => clean .schema item && cleanItems rest

end

mutual

/-- A schema as the models give them, whatever the names of its properties and definitions. -/
def shaped : Kind → Json → Bool
  | .anything, _ => true
  | .flat, value => flat value
  | .schema, .bool _ => true
  | .schema, .obj members => levelOk members && shapedMembers members
  | .named, .obj entries => decide (entries.map Prod.fst).Nodup && shapedEntries entries
  | .many, .arr items => shapedItems items
  | _, _ => false

def shapedMembers : Members → Bool
  | [] => true
  | (key, value) :: rest => shaped (kindOf key) value && shapedMembers rest

def shapedEntries : Members → Bool
  | [] => true
  | (_, value) :: rest => shaped .schema value && shapedEntries rest

def shapedItems : List Json → Bool
  | [] => true
  | item :: rest => shaped .schema item && shapedItems rest

end

/-- A member of a dictionary. -/
def field (value : Json) (key : String) : Option Json :=
  match value with
  | .obj members => members.lookup key
  | _ => none

def keys (value : Json) : List String :=
  match value with
  | .obj members => members.map Prod.fst
  | _ => []

def itemsOf (value : Json) : List Json :=
  match value with
  | .arr items => items
  | _ => []

/-- The names of the properties of a schema. -/
def propertyNames (schema : Json) : List String := ((field schema "properties").map keys).getD []

def isObject : Json → Bool
  | .obj _ => true
  | _ => false

/-! ### Validity -/

section

variable (leaf : String → Json → Json → Prop)

/-- One keyword holds of an instance; with `full` the instance gives every property. -/
def Holds (full : Bool) (root : Json) (valid rival : Json → Json → Prop) (members : Members) (value : Json)
    (key : String) (keyword : Json) : Prop :=
  if key = "properties" then
    ∀ name sub, field keyword name = some sub →
      (∀ item, field value name = some item → valid sub item) ∧
        (full = true → isObject value = true → (field value name).isSome = true)
  else if key = "required" then
    isObject value = true → ∀ name, Json.str name ∈ itemsOf keyword → (field value name).isSome = true
  else if key = "additionalProperties" then
    ∀ name item, name ∉ propertyNames (.obj members) → field value name = some item → valid keyword item
  else if key = "items" then
    ∀ item ∈ (itemsOf value).drop (itemsOf ((members.lookup "prefixItems").getD .null)).length, valid keyword item
  else if key = "prefixItems" then
    ∀ pair ∈ (itemsOf keyword).zip (itemsOf value), valid pair.1 pair.2
  else if key = "allOf" then ∀ sub ∈ itemsOf keyword, valid sub value
  else if key = "anyOf" then ∃ sub ∈ itemsOf keyword, valid sub value
  else if key = "oneOf" then
    ∃ before sub after, itemsOf keyword = before ++ sub :: after ∧ valid sub value ∧
      ∀ other ∈ before ++ after, ¬ rival other value
  else if key = "$ref" then
    ∀ text name, keyword = .str text → text = "#/$defs/" ++ name →
      ∃ definitions sub, field root "$defs" = some definitions ∧ field definitions name = some sub ∧ valid sub value
  else if key ∈ "$defs" :: dropped then True
  else leaf key keyword value

/-- Validity of an instance, to a depth of references and nesting. -/
def Valid (root : Json) : Nat → Bool → Json → Json → Prop
  | 0, _, _, _ => False
  | _ + 1, _, .bool allowed, _ => allowed = true
  | depth + 1, full, .obj members, value => ∀ key keyword, members.lookup key = some keyword →
      Holds leaf full root (Valid root depth full) (Valid root depth false) members value key keyword
  | _ + 1, _, _, _ => False

end

/-- To a depth, both schemas have the same properties under every schema that they hold. -/
def Keeps : Nat → Json → Json → Prop
  | 0, _, _ => True
  | depth + 1, schema, result => propertyNames result = propertyNames schema ∧
      ∀ key keyword, field schema key = some keyword →
        (kindOf key = .named → ∀ name sub, field keyword name = some sub → ∃ rewritten other,
          field result key = some rewritten ∧ field rewritten name = some other ∧ Keeps depth sub other) ∧
        (kindOf key = .schema → ∃ other, field result key = some other ∧ Keeps depth keyword other) ∧
        (kindOf key = .many → ∃ others, field result (if key = "oneOf" then "anyOf" else key) = some (.arr others) ∧
          List.Forall₂ (Keeps depth) (itemsOf keyword) others)

/-! ### Dictionaries -/

theorem lookup_filter {keeps : String × Json → Bool} {key : String} (all : ∀ value, keeps (key, value) = true)
    (members : Members) : (members.filter keeps).lookup key = members.lookup key := by
  induction members with
  | nil => rfl
  | cons member rest ih =>
      obtain ⟨name, value⟩ := member
      by_cases same : key = name
      · subst same
        rw [List.filter_cons_of_pos (all value), List.lookup_cons_self, List.lookup_cons_self]
      · have other : (key == name) = false := by simp [same]
        rw [List.filter_cons]
        split
        · rw [List.lookup_cons, List.lookup_cons, other, ih]
        · rw [List.lookup_cons, other, ih]

theorem lookup_of_filter {keeps : String × Json → Bool} {members : Members} {key : String} {value : Json}
    (unique : (members.map Prod.fst).Nodup) (found : (members.filter keeps).lookup key = some value) :
    members.lookup key = some value :=
  Dict.lookup_of_mem unique (List.mem_of_mem_filter (Dict.mem_of_lookup found))

theorem lookup_without_self (members : Members) (key : String) : (without members key).lookup key = none := by
  rw [List.lookup_eq_none_iff]
  intro member listed
  have kept := (List.mem_filter.mp listed).2
  simp only [decide_eq_true_eq] at kept
  simp [Ne.symm kept]

theorem lookup_without {members : Members} {key other : String} (different : other ≠ key) :
    (without members key).lookup other = members.lookup other :=
  lookup_filter (fun value => by simp [different]) members

/-! ### Conversion of dictionaries -/

mutual

/-- A value without dictionaries stays as it is. -/
theorem convert_flat : ∀ {value : Json}, flat value = true → convert value = .ok value
  | .arr items, plain => by
      rw [convert, convertItems_flat (by simpa [flat] using plain)]
      rfl
  | .obj members, plain => by cases plain
  | .null, _ => by rw [convert] <;> simp
  | .bool _, _ => by rw [convert] <;> simp
  | .int _, _ => by rw [convert] <;> simp
  | .float _, _ => by rw [convert] <;> simp
  | .str _, _ => by rw [convert] <;> simp

theorem convertItems_flat : ∀ {items : List Json}, flatItems items = true → convertItems items = .ok items
  | [], _ => rfl
  | item :: rest, plain => by
      simp only [flatItems, Bool.and_eq_true] at plain
      rw [convertItems, convert_flat plain.1, convertItems_flat plain.2]
      rfl

end

theorem convertItems_eq_ok {items results : List Json} :
    convertItems items = .ok results ↔ List.Forall₂ (fun item result => convert item = .ok result) items results := by
  induction items generalizing results with
  | nil =>
      rw [convertItems, List.forall₂_nil_left_iff]
      exact ⟨fun same => (Except.ok.inj same).symm, fun same => by rw [same]⟩
  | cons item rest ih =>
      simp only [convertItems, bind_eq_ok, ih, List.forall₂_cons_left_iff]
      constructor
      · rintro ⟨first, here, others, there, same⟩
        exact ⟨first, others, here, there, (Except.ok.inj same).symm⟩
      · rintro ⟨first, others, here, there, rfl⟩
        exact ⟨first, here, others, there, rfl⟩

/-- Every member that is not dropped is there with its converted value, in order. -/
theorem convertMembers_eq_ok {members results : Members} : convertMembers members = .ok results ↔
    List.Forall₂ (fun member result => result.1 = member.1 ∧ convert member.2 = .ok result.2)
      (members.filter fun member => member.1 ∉ dropped) results := by
  induction members generalizing results with
  | nil =>
      rw [convertMembers, List.filter_nil, List.forall₂_nil_left_iff]
      exact ⟨fun same => (Except.ok.inj same).symm, fun same => by rw [same]⟩
  | cons member rest ih =>
      obtain ⟨key, value⟩ := member
      rw [convertMembers]
      by_cases gone : key ∈ dropped
      · rw [if_pos gone, List.filter_cons_of_neg (by simp [gone]), ih]
      · simp only [if_neg gone, bind_eq_ok, ih]
        rw [List.filter_cons_of_pos (by simp [gone]), List.forall₂_cons_left_iff]
        constructor
        · rintro ⟨first, here, others, there, same⟩
          exact ⟨(key, first), others, ⟨rfl, here⟩, there, (Except.ok.inj same).symm⟩
        · rintro ⟨⟨name, first⟩, others, ⟨same, here⟩, there, rfl⟩
          obtain rfl : name = key := same
          exact ⟨first, here, others, there, rfl⟩

/-- How two dictionaries correspond: the same keys in the same order, with converted values. -/
abbrev Pairwise (members results : Members) : Prop :=
  List.Forall₂ (fun member result => result.1 = member.1 ∧ convert member.2 = .ok result.2) members results

theorem Pairwise.keys {members results : Members} (pairs : Pairwise members results) :
    results.map Prod.fst = members.map Prod.fst := by
  induction pairs with
  | nil => rfl
  | cons here _ ih => rw [List.map_cons, List.map_cons, here.1, ih]

theorem Pairwise.lookup {members results : Members} (pairs : Pairwise members results) (key : String) :
    (members.lookup key = none ∧ results.lookup key = none) ∨
      ∃ value result, members.lookup key = some value ∧ results.lookup key = some result ∧
        convert value = .ok result := by
  induction pairs with
  | nil => exact .inl ⟨rfl, rfl⟩
  | @cons member result members results here _ ih =>
      obtain ⟨name, value⟩ := member
      obtain ⟨other, converted⟩ := result
      obtain ⟨rfl, here⟩ := here
      by_cases same : key = other
      · subst same
        exact .inr ⟨value, converted, List.lookup_cons_self, List.lookup_cons_self, here⟩
      · rw [Dict.lookup_cons_of_ne same, Dict.lookup_cons_of_ne same]
        exact ih

theorem lookup_filter_dropped {members : Members} {key : String} (kept : key ∉ dropped) :
    (members.filter fun member => member.1 ∉ dropped).lookup key = members.lookup key :=
  lookup_filter (fun value => by simp [kept]) members

/-- The members that a conversion starts from. -/
def kept (members : Members) : Members := members.filter fun member => member.1 ∉ dropped

/-- The steps of a conversion of a dictionary. -/
theorem convert_obj_eq_ok {members : Members} {result : Json} : convert (.obj members) = .ok result ↔
    ∃ converted, Pairwise (kept members) converted ∧ ∃ united, unite members converted = .ok united ∧
      ∃ required, requireAll (dropBounds united) = .ok required ∧ .obj required = result := by
  simp only [convert, bind_eq_ok, convertMembers_eq_ok]
  constructor
  · rintro ⟨converted, pairs, united, unites, required, requires, same⟩
    exact ⟨converted, pairs, united, unites, required, requires, Except.ok.inj same⟩
  · rintro ⟨converted, pairs, united, unites, required, requires, rfl⟩
    exact ⟨converted, pairs, united, unites, required, requires, rfl⟩

/-- What the last steps leave of the converted members. -/
structure Finished (converted final : Members) : Prop where
  other : ∀ key, key ≠ "oneOf" → key ≠ "anyOf" → key ≠ "required" → key ∉ boundKeys →
    final.lookup key = converted.lookup key
  oneOf : final.lookup "oneOf" = none
  anyOf : final.lookup "anyOf" = (converted.lookup "oneOf").or (converted.lookup "anyOf")
  bound : ∀ key ∈ boundKeys, ∀ value, final.lookup key = some value → converted.lookup key = some value
  required : ∀ value, final.lookup "required" = some value → converted.lookup "required" = some value ∨
    ∃ properties names, converted.lookup "properties" = some properties ∧ listOf properties = .ok names ∧
      value = .arr names

theorem unite_spec {original converted united : Members} (unites : unite original converted = .ok united) :
    united.lookup "oneOf" = none ∧
      united.lookup "anyOf" = (converted.lookup "oneOf").or (converted.lookup "anyOf") ∧
      (∀ key, key ≠ "oneOf" → key ≠ "anyOf" → united.lookup key = converted.lookup key) ∧
      ((converted.map Prod.fst).Nodup → (united.map Prod.fst).Nodup) := by
  rw [unite] at unites
  cases found : converted.lookup "oneOf" with
  | none =>
      rw [found] at unites
      obtain rfl := Except.ok.inj unites
      exact ⟨found, rfl, fun _ _ _ => rfl, id⟩
  | some alternatives =>
      simp only [found, bind_eq_ok] at unites
      obtain ⟨-, -, same⟩ := unites
      obtain rfl := Except.ok.inj same
      refine ⟨?_, ?_, ?_, ?_⟩
      · rw [Dict.lookup_setEntries, if_neg (by decide), lookup_without_self]
      · rw [Dict.lookup_setEntries, if_pos rfl, Option.some_or]
      · intro key notOne notAny
        rw [Dict.lookup_setEntries, if_neg notAny, lookup_without notOne]
      · intro unique
        exact Dict.nodup_setEntries _ _ _ (unique.sublist (List.filter_sublist.map Prod.fst))

theorem dropBounds_spec (members : Members) :
    (∀ key, key ∉ boundKeys → (dropBounds members).lookup key = members.lookup key) ∧
      ((members.map Prod.fst).Nodup → ∀ key value, (dropBounds members).lookup key = some value →
        members.lookup key = some value) := by
  rw [dropBounds]
  split
  · exact ⟨fun key free => lookup_filter (fun value => by simp [free]) members,
      fun unique key value => lookup_of_filter unique⟩
  · exact ⟨fun _ _ => rfl, fun _ _ _ found => found⟩

theorem requireAll_spec {members required : Members} (requires : requireAll members = .ok required) :
    (∀ key, key ≠ "required" → required.lookup key = members.lookup key) ∧
      ∀ value, required.lookup "required" = some value → members.lookup "required" = some value ∨
        ∃ properties names, members.lookup "properties" = some properties ∧ listOf properties = .ok names ∧
          value = .arr names := by
  rw [requireAll] at requires
  split at requires
  next =>
    cases found : members.lookup "properties" with
    | none =>
        rw [found] at requires
        obtain rfl := Except.ok.inj requires
        exact ⟨fun _ _ => rfl, fun _ there => .inl there⟩
    | some properties =>
        simp only [found, bind_eq_ok] at requires
        obtain ⟨names, listed, same⟩ := requires
        obtain rfl := Except.ok.inj same
        refine ⟨fun key other => by rw [Dict.lookup_setEntries, if_neg other], fun value there => ?_⟩
        rw [Dict.lookup_setEntries, if_pos rfl] at there
        exact .inr ⟨properties, names, rfl, listed, (Option.some.inj there).symm⟩
  next =>
    obtain rfl := Except.ok.inj requires
    exact ⟨fun _ _ => rfl, fun _ there => .inl there⟩

theorem finished {original converted united final : Members} (unique : (converted.map Prod.fst).Nodup)
    (unites : unite original converted = .ok united) (requires : requireAll (dropBounds united) = .ok final) :
    Finished converted final := by
  obtain ⟨noOne, any, rest, distinct⟩ := unite_spec unites
  obtain ⟨free, fewer⟩ := dropBounds_spec united
  obtain ⟨others, names⟩ := requireAll_spec requires
  refine ⟨?_, ?_, ?_, ?_, ?_⟩
  · intro key notOne notAny notRequired unbound
    rw [others key notRequired, free key unbound, rest key notOne notAny]
  · rw [others _ (by decide), free _ (by decide), noOne]
  · rw [others _ (by decide), free _ (by decide), any]
  · intro key bound value found
    have apart : key ≠ "required" ∧ key ≠ "oneOf" ∧ key ≠ "anyOf" := by
      refine ⟨?_, ?_, ?_⟩ <;> rintro rfl <;> revert bound <;> decide
    rw [others key apart.1] at found
    rw [← rest key apart.2.1 apart.2.2]
    exact fewer (distinct unique) key value found
  · intro value found
    rcases names value found with there | ⟨properties, listed, held, names, same⟩
    · rw [free _ (by decide), rest _ (by decide) (by decide)] at there
      exact .inl there
    · rw [free _ (by decide), rest _ (by decide) (by decide)] at held
      exact .inr ⟨properties, listed, held, names, same⟩

/-! ### Clean schemas -/

theorem cleanMembers_iff {members : Members} :
    cleanMembers members = true ↔ ∀ member ∈ members, clean (kindOf member.1) member.2 = true := by
  induction members with
  | nil => simp [cleanMembers]
  | cons member rest ih =>
      obtain ⟨key, value⟩ := member
      simp [cleanMembers, ih]

theorem cleanEntries_iff {entries : Members} : cleanEntries entries = true ↔
    ∀ entry ∈ entries, nameOk entry.1 = true ∧ clean .schema entry.2 = true := by
  induction entries with
  | nil => simp [cleanEntries]
  | cons entry rest ih =>
      obtain ⟨name, value⟩ := entry
      simp [cleanEntries, ih, and_assoc]

theorem cleanItems_iff {items : List Json} : cleanItems items = true ↔ ∀ item ∈ items, clean .schema item = true := by
  induction items with
  | nil => simp [cleanItems]
  | cons item rest ih => simp [cleanItems, ih]

theorem convert_bool (allowed : Bool) : convert (.bool allowed) = .ok (.bool allowed) := by
  rw [convert] <;> simp

/-- A dictionary stays a dictionary. -/
theorem convert_obj {members : Members} {result : Json} (converted : convert (.obj members) = .ok result) :
    ∃ final, result = .obj final := by
  obtain ⟨-, -, -, -, final, -, same⟩ := convert_obj_eq_ok.mp converted
  exact ⟨final, same.symm⟩

theorem schema_cases {value : Json} (fits : clean .schema value = true) :
    (∃ allowed, value = .bool allowed) ∨
      ∃ members, value = .obj members ∧ levelOk members = true ∧ cleanMembers members = true := by
  cases value with
  | bool allowed => exact .inl ⟨allowed, rfl⟩
  | obj members =>
      rw [clean, Bool.and_eq_true] at fits
      exact .inr ⟨members, rfl, fits⟩
  | null => cases fits
  | int => cases fits
  | float => cases fits
  | str => cases fits
  | arr => cases fits

/-- Names that are no keywords of the walk, with booleans and dictionaries under them. -/
def Listed (entries : Members) : Prop :=
  ∀ entry ∈ entries, nameOk entry.1 = true ∧
    ((∃ allowed, entry.2 = .bool allowed) ∨ ∃ members, entry.2 = .obj members)

theorem listed_of_clean {entries : Members} (fits : cleanEntries entries = true) : Listed entries := by
  intro entry listed
  obtain ⟨named, inside⟩ := cleanEntries_iff.mp fits entry listed
  refine ⟨named, (schema_cases inside).imp id ?_⟩
  rintro ⟨members, same, -⟩
  exact ⟨members, same⟩

namespace Listed

variable {entries converted : Members}

theorem kept (listed : Listed entries) : kept entries = entries := by
  rw [CodexSchema.kept, List.filter_eq_self]
  intro entry member
  have named := (listed entry member).1
  simp only [nameOk, Bool.and_eq_true, decide_eq_true_eq] at named
  simpa using named.1

theorem isText (listed : Listed entries) (pairs : Pairwise entries converted) (text : String) :
    isText text (converted.lookup "type") = false := by
  rcases pairs.lookup "type" with ⟨-, absent⟩ | ⟨value, result, held, found, converts⟩
  · rw [absent]
    rfl
  · rw [found]
    rcases (listed _ (Dict.mem_of_lookup held)).2 with ⟨allowed, same⟩ | ⟨members, same⟩
    · obtain rfl : value = .bool allowed := same
      obtain rfl := Except.ok.inj ((convert_bool allowed).symm.trans converts)
      rfl
    · obtain rfl : value = .obj members := same
      obtain ⟨final, rfl⟩ := convert_obj converts
      rfl

/-- Properties and definitions are converted one by one. -/
theorem convert (listed : Listed entries) (pairs : Pairwise entries converted) :
    convert (.obj entries) = .ok (.obj converted) := by
  have alone : converted.lookup "oneOf" = none := by
    rcases pairs.lookup "oneOf" with ⟨-, absent⟩ | ⟨value, result, held, -, -⟩
    · exact absent
    · have named := (listed _ (Dict.mem_of_lookup held)).1
      simp [nameOk] at named
  have bounds : dropBounds converted = converted := by
    rw [dropBounds, listed.isText pairs]
    rfl
  refine convert_obj_eq_ok.mpr ⟨converted, by rwa [listed.kept], converted, ?_, converted, ?_, rfl⟩
  · rw [unite, alone]
  · rw [bounds, requireAll, listed.isText pairs]
    rfl

theorem convert_eq_ok (listed : Listed entries) {result : Json} :
    CodexSchema.convert (.obj entries) = .ok result ↔ ∃ converted, Pairwise entries converted ∧
      result = .obj converted := by
  constructor
  · intro converts
    obtain ⟨converted, pairs, -⟩ := convert_obj_eq_ok.mp converts
    rw [listed.kept] at pairs
    exact ⟨converted, pairs, Except.ok.inj (converts.symm.trans (listed.convert pairs))⟩
  · rintro ⟨converted, pairs, rfl⟩
    exact listed.convert pairs

end Listed

theorem convert_entries_eq_ok {entries : Members} {result : Json} (fits : cleanEntries entries = true) :
    convert (.obj entries) = .ok result ↔ ∃ converted, Pairwise entries converted ∧ result = .obj converted :=
  (listed_of_clean fits).convert_eq_ok

theorem clean_named {value : Json} (fits : clean .named value = true) :
    ∃ entries, value = .obj entries ∧ cleanEntries entries = true := by
  cases value with
  | obj entries => exact ⟨entries, rfl, by rwa [clean] at fits⟩
  | null => cases fits
  | bool => cases fits
  | int => cases fits
  | float => cases fits
  | str => cases fits
  | arr => cases fits

theorem clean_many {value : Json} (fits : clean .many value = true) :
    ∃ items, value = .arr items ∧ cleanItems items = true := by
  cases value with
  | arr items => exact ⟨items, rfl, by rwa [clean] at fits⟩
  | null => cases fits
  | bool => cases fits
  | int => cases fits
  | float => cases fits
  | str => cases fits
  | obj => cases fits

/-- The last steps of a conversion succeed on the members of a clean schema. -/
theorem finishes {members converted : Members} (level : levelOk members = true) (fits : cleanMembers members = true)
    (pairs : Pairwise (kept members) converted) : ∃ result, convert (.obj members) = .ok result := by
  have unites : ∃ united, unite members converted = .ok united := by
    rw [unite]
    cases found : converted.lookup "oneOf" with
    | none => exact ⟨converted, rfl⟩
    | some alternatives =>
        have held : hasKey members "oneOf" = true := by
          rcases pairs.lookup "oneOf" with ⟨-, absent⟩ | ⟨value, -, there, -, -⟩
          · rw [absent] at found
            cases found
          · rw [kept, lookup_filter_dropped (by decide)] at there
            rw [hasKey, there]
            rfl
        have tagged : hasKey members "discriminator" = true := by
          simp only [levelOk, held, Bool.not_true, Bool.false_or, Bool.and_eq_true] at level
          exact level.2.1
        exact ⟨_, by simp only [refuse, tagged]; rfl⟩
  obtain ⟨united, unites⟩ := unites
  obtain ⟨-, -, rest, -⟩ := unite_spec unites
  obtain ⟨free, -⟩ := dropBounds_spec united
  have requires : ∃ final, requireAll (dropBounds united) = .ok final := by
    rw [requireAll]
    split
    · rw [free _ (by decide), rest _ (by decide) (by decide)]
      rcases pairs.lookup "properties" with ⟨-, absent⟩ | ⟨value, result, held, found, converts⟩
      · rw [absent]
        exact ⟨_, rfl⟩
      · rw [kept, lookup_filter_dropped (by decide)] at held
        have named : clean .named value = true := cleanMembers_iff.mp fits _ (Dict.mem_of_lookup held)
        obtain ⟨entries, rfl, inside⟩ := clean_named named
        obtain ⟨listed, -, rfl⟩ := (convert_entries_eq_ok inside).mp converts
        rw [found]
        exact ⟨_, rfl⟩
    · exact ⟨_, rfl⟩
  obtain ⟨final, requires⟩ := requires
  exact ⟨_, convert_obj_eq_ok.mpr ⟨converted, pairs, united, unites, final, requires, rfl⟩⟩

mutual

theorem convert_clean : ∀ (kind : Kind) (value : Json), kind ≠ .anything → clean kind value = true →
    ∃ result, convert value = .ok result
  | kind, .obj members, known, fits => by
      cases kind with
      | anything => exact absurd rfl known
      | flat => cases fits
      | many => cases fits
      | schema =>
          rw [clean, Bool.and_eq_true] at fits
          obtain ⟨converted, pairs⟩ := convertMembers_clean members fits.2
          exact finishes fits.1 fits.2 pairs
      | named =>
          rw [clean] at fits
          obtain ⟨converted, pairs⟩ := convertEntries_clean members fits
          exact ⟨_, (listed_of_clean fits).convert pairs⟩
  | kind, .arr items, known, fits => by
      cases kind with
      | anything => exact absurd rfl known
      | flat => exact ⟨_, convert_flat fits⟩
      | many =>
          rw [clean] at fits
          obtain ⟨results, converts⟩ := convertItems_clean items fits
          exact ⟨.arr results, by rw [convert, converts]; rfl⟩
      | schema => cases fits
      | named => cases fits
  | _, .null, _, _ => ⟨.null, by rw [convert] <;> simp⟩
  | _, .bool allowed, _, _ => ⟨.bool allowed, convert_bool allowed⟩
  | _, .int value, _, _ => ⟨.int value, by rw [convert] <;> simp⟩
  | _, .float value, _, _ => ⟨.float value, by rw [convert] <;> simp⟩
  | _, .str text, _, _ => ⟨.str text, by rw [convert] <;> simp⟩

theorem convertMembers_clean : ∀ members : Members, cleanMembers members = true →
    ∃ converted, Pairwise (kept members) converted
  | [], _ => ⟨[], .nil⟩
  | (key, value) :: rest, fits => by
      rw [cleanMembers, Bool.and_eq_true] at fits
      obtain ⟨others, pairs⟩ := convertMembers_clean rest fits.2
      by_cases gone : key ∈ dropped
      · refine ⟨others, ?_⟩
        rwa [kept, List.filter_cons_of_neg (by simp [gone])]
      · have known : kindOf key ≠ .anything := by
          rw [kindOf, if_neg gone]
          split_ifs <;> simp
        obtain ⟨result, converts⟩ := convert_clean (kindOf key) value known fits.1
        refine ⟨(key, result) :: others, ?_⟩
        rw [kept, List.filter_cons_of_pos (by simp [gone])]
        exact .cons ⟨rfl, converts⟩ pairs

theorem convertEntries_clean : ∀ entries : Members, cleanEntries entries = true →
    ∃ converted, Pairwise entries converted
  | [], _ => ⟨[], .nil⟩
  | (name, value) :: rest, fits => by
      simp only [cleanEntries, Bool.and_eq_true] at fits
      obtain ⟨result, converts⟩ := convert_clean .schema value (by decide) fits.1.2
      obtain ⟨others, pairs⟩ := convertEntries_clean rest fits.2
      exact ⟨(name, result) :: others, .cons ⟨rfl, converts⟩ pairs⟩

theorem convertItems_clean : ∀ items : List Json, cleanItems items = true →
    ∃ results, convertItems items = .ok results
  | [], _ => ⟨[], rfl⟩
  | item :: rest, fits => by
      rw [cleanItems, Bool.and_eq_true] at fits
      obtain ⟨result, converts⟩ := convert_clean .schema item (by decide) fits.1
      obtain ⟨results, others⟩ := convertItems_clean rest fits.2
      exact ⟨result :: results, by rw [convertItems, converts, others]; rfl⟩

end

/-! ### What a rewritten schema holds -/

/-- The members of a schema and of its rewrite. -/
structure Linked (members final : Members) : Prop where
  forth : ∀ key value, members.lookup key = some value → key ∉ dropped → key ≠ "required" → key ∉ boundKeys →
    ∃ other, final.lookup (if key = "oneOf" then "anyOf" else key) = some other ∧ convert value = .ok other
  back : ∀ key other, final.lookup key = some other → key ≠ "anyOf" → key ≠ "required" →
    key ≠ "oneOf" ∧ key ∉ dropped ∧ ∃ value, members.lookup key = some value ∧ convert value = .ok other
  union : ∀ other, final.lookup "anyOf" = some other → ∃ value,
    (members.lookup "oneOf" = some value ∨ members.lookup "anyOf" = some value) ∧ convert value = .ok other

/-- Required are the names that were, or all. -/
structure Rewritten (members final : Members) : Prop extends Linked members final where
  required : ∀ other, final.lookup "required" = some other → members.lookup "required" = some other ∨
    ∃ entries, members.lookup "properties" = some (.obj entries) ∧
      other = .arr (entries.map fun entry => .str entry.1)

theorem lookup_kept {members : Members} (unique : (members.map Prod.fst).Nodup) {key : String} {value : Json}
    (found : (kept members).lookup key = some value) : members.lookup key = some value ∧ key ∉ dropped := by
  refine ⟨lookup_of_filter unique found, ?_⟩
  have listed := (List.mem_filter.mp (Dict.mem_of_lookup found)).2
  simpa using listed

/-- The converted members, each of them from one of the schema, and what the last steps make of them. -/
theorem linked_of_convert {members : Members} {result : Json} (level : levelOk members = true)
    (converts : convert (.obj members) = .ok result) : ∃ final converted, result = .obj final ∧
      Linked members final ∧ Finished converted final ∧ ∀ key other, converted.lookup key = some other →
        key ∉ dropped ∧ ∃ value, members.lookup key = some value ∧ convert value = .ok other := by
  obtain ⟨converted, pairs, united, unites, final, requires, rfl⟩ := convert_obj_eq_ok.mp converts
  simp only [levelOk, Bool.and_eq_true, decide_eq_true_eq] at level
  obtain ⟨unique, single⟩ := level
  have distinct : (converted.map Prod.fst).Nodup := by
    rw [pairs.keys]
    exact unique.sublist (List.filter_sublist.map Prod.fst)
  have ends := finished distinct unites requires
  have origin : ∀ key other, converted.lookup key = some other →
      key ∉ dropped ∧ ∃ value, members.lookup key = some value ∧ convert value = .ok other := by
    intro key other found
    rcases pairs.lookup key with ⟨-, absent⟩ | ⟨value, same, held, there, here⟩
    · rw [absent] at found
      cases found
    · rw [there] at found
      obtain rfl := Option.some.inj found
      obtain ⟨listed, free⟩ := lookup_kept unique held
      exact ⟨free, value, listed, here⟩
  refine ⟨final, converted, rfl, ⟨?_, ?_, ?_⟩, ends, origin⟩
  · intro key value held free notRequired unbound
    have there : ∃ other, converted.lookup key = some other ∧ convert value = .ok other := by
      rcases pairs.lookup key with ⟨absent, -⟩ | ⟨same, other, listed, found, here⟩
      · rw [kept, lookup_filter_dropped free, held] at absent
        cases absent
      · rw [kept, lookup_filter_dropped free, held] at listed
        obtain rfl := Option.some.inj listed
        exact ⟨other, found, here⟩
    obtain ⟨other, found, here⟩ := there
    refine ⟨other, ?_, here⟩
    by_cases one : key = "oneOf"
    · subst one
      rw [if_pos rfl, ends.anyOf, found, Option.some_or]
    · rw [if_neg one]
      by_cases any : key = "anyOf"
      · subst any
        have alone : converted.lookup "oneOf" = none := by
          rw [Option.eq_none_iff_forall_ne_some]
          intro alternatives present
          obtain ⟨-, value, listed, -⟩ := origin _ _ present
          simp [hasKey, listed, held] at single
        rw [ends.anyOf, alone, Option.none_or, found]
      · rw [ends.other key one any notRequired unbound, found]
  · intro key other found notAny notRequired
    have notOne : key ≠ "oneOf" := by
      rintro rfl
      rw [ends.oneOf] at found
      cases found
    by_cases bound : key ∈ boundKeys
    · exact ⟨notOne, origin key other (ends.bound key bound other found)⟩
    · rw [ends.other key notOne notAny notRequired bound] at found
      exact ⟨notOne, origin key other found⟩
  · intro other found
    rw [ends.anyOf] at found
    rcases Option.or_eq_some_iff.mp found with one | ⟨-, any⟩
    · obtain ⟨-, value, listed, here⟩ := origin _ _ one
      exact ⟨value, .inl listed, here⟩
    · obtain ⟨-, value, listed, here⟩ := origin _ _ any
      exact ⟨value, .inr listed, here⟩

theorem rewritten_of_convert {members : Members} {result : Json} (level : levelOk members = true)
    (fits : cleanMembers members = true) (converts : convert (.obj members) = .ok result) :
    ∃ final, result = .obj final ∧ Rewritten members final := by
  obtain ⟨final, converted, rfl, linked, ends, origin⟩ := linked_of_convert level converts
  refine ⟨final, rfl, linked, ?_⟩
  intro other found
  rcases ends.required other found with there | ⟨properties, names, held, listed, rfl⟩
  · obtain ⟨-, value, held, here⟩ := origin _ _ there
    have plain : clean .flat value = true := cleanMembers_iff.mp fits _ (Dict.mem_of_lookup held)
    have same := Except.ok.inj ((convert_flat (by rwa [clean] at plain)).symm.trans here)
    exact .inl (same ▸ held)
  · obtain ⟨-, value, there, here⟩ := origin _ _ held
    obtain ⟨entries, rfl, inside⟩ :=
      clean_named (show clean .named value = true from cleanMembers_iff.mp fits _ (Dict.mem_of_lookup there))
    obtain ⟨converted, pairs, rfl⟩ := (convert_entries_eq_ok inside).mp here
    refine .inr ⟨entries, there, ?_⟩
    have order := congrArg (List.map Json.str) pairs.keys
    rw [List.map_map, List.map_map] at order
    rw [← Except.ok.inj listed]
    exact congrArg Json.arr order

theorem convert_arr {items : List Json} {result : Json} (converts : convert (.arr items) = .ok result) :
    ∃ results, result = .arr results ∧ List.Forall₂ (fun item result => convert item = .ok result) items results := by
  simp only [convert, bind_eq_ok, convertItems_eq_ok] at converts
  obtain ⟨results, pairs, same⟩ := converts
  exact ⟨results, (Except.ok.inj same).symm, pairs⟩

theorem propertyNames_rewritten {members final : Members} (fits : cleanMembers members = true)
    (rewritten : Rewritten members final) : propertyNames (.obj final) = propertyNames (.obj members) := by
  rw [propertyNames, propertyNames, field, field]
  cases held : members.lookup "properties" with
  | none =>
      cases found : final.lookup "properties" with
      | none => rfl
      | some other =>
          obtain ⟨-, -, value, listed, -⟩ := rewritten.back _ _ found (by decide) (by decide)
          rw [held] at listed
          cases listed
  | some value =>
      obtain ⟨other, found, here⟩ := rewritten.forth _ _ held (by decide) (by decide) (by decide)
      rw [if_neg (by decide)] at found
      obtain ⟨entries, rfl, inside⟩ :=
        clean_named (show clean .named value = true from cleanMembers_iff.mp fits _ (Dict.mem_of_lookup held))
      obtain ⟨converted, pairs, rfl⟩ := (convert_entries_eq_ok inside).mp here
      rw [found]
      exact pairs.keys

theorem kindOf_named {key : String} (named : kindOf key = .named) : key ∈ ["properties", "$defs"] := by
  unfold kindOf at named
  split_ifs at named with _ listed
  exact listed

theorem kindOf_schema {key : String} (schema : kindOf key = .schema) : key ∈ ["items", "additionalProperties"] := by
  unfold kindOf at schema
  split_ifs at schema with _ _ _ listed
  exact listed

theorem kindOf_many {key : String} (many : kindOf key = .many) :
    key ∈ ["anyOf", "oneOf", "allOf", "prefixItems"] := by
  unfold kindOf at many
  split_ifs at many with _ _ listed
  exact listed

/-- A keyword that holds schemas is neither dropped nor rewritten. -/
theorem stays {key : String} (structural : kindOf key = .named ∨ kindOf key = .schema ∨ kindOf key = .many) :
    key ∉ dropped ∧ key ≠ "required" ∧ key ∉ boundKeys := by
  have listed : key ∈ ["properties", "$defs", "items", "additionalProperties", "anyOf", "oneOf", "allOf",
      "prefixItems"] := by
    rcases structural with named | schema | many
    · have := kindOf_named named
      simp only [List.mem_cons, List.not_mem_nil, or_false] at this ⊢
      tauto
    · have := kindOf_schema schema
      simp only [List.mem_cons, List.not_mem_nil, or_false] at this ⊢
      tauto
    · have := kindOf_many many
      simp only [List.mem_cons, List.not_mem_nil, or_false] at this ⊢
      tauto
  have all : ∀ key ∈ ["properties", "$defs", "items", "additionalProperties", "anyOf", "oneOf", "allOf",
      "prefixItems"], key ∉ dropped ∧ key ≠ "required" ∧ key ∉ boundKeys := by decide
  exact all key listed

theorem forall₂_imp_mem {items results : List Json} {before after : Json → Json → Prop}
    (pairs : List.Forall₂ before items results)
    (step : ∀ item ∈ items, ∀ result, before item result → after item result) :
    List.Forall₂ after items results := by
  induction pairs with
  | nil => exact .nil
  | cons here _ ih =>
      exact .cons (step _ List.mem_cons_self _ here)
        (ih fun item listed => step item (List.mem_cons_of_mem _ listed))

theorem keeps_convert (depth : Nat) {schema result : Json} (fits : clean .schema schema = true)
    (converts : convert schema = .ok result) : Keeps depth schema result := by
  induction depth generalizing schema result with
  | zero => exact trivial
  | succ depth ih =>
      rcases schema_cases fits with ⟨allowed, rfl⟩ | ⟨members, rfl, level, inside⟩
      · obtain rfl := Except.ok.inj ((convert_bool allowed).symm.trans converts)
        exact ⟨rfl, fun key keyword held => by cases held⟩
      obtain ⟨final, rfl, rewritten⟩ := rewritten_of_convert level inside converts
      refine ⟨propertyNames_rewritten inside rewritten, fun key keyword held => ⟨?_, ?_, ?_⟩⟩
      · intro named name sub found
        obtain ⟨free, notRequired, unbound⟩ := stays (.inl named)
        obtain ⟨other, there, here⟩ := rewritten.forth key keyword held free notRequired unbound
        have notOne : key ≠ "oneOf" := by
          rintro rfl
          cases named
        rw [if_neg notOne] at there
        have shape := cleanMembers_iff.mp inside _ (Dict.mem_of_lookup held)
        rw [named] at shape
        obtain ⟨entries, rfl, names⟩ := clean_named shape
        obtain ⟨converted, pairs, rfl⟩ := (convert_entries_eq_ok names).mp here
        rcases pairs.lookup name with ⟨absent, -⟩ | ⟨value, new, listed, present, converted⟩
        · rw [field, absent] at found
          cases found
        · rw [field, listed] at found
          obtain rfl := Option.some.inj found
          exact ⟨_, new, there, present, ih (cleanEntries_iff.mp names _ (Dict.mem_of_lookup listed)).2 converted⟩
      · intro schema
        obtain ⟨free, notRequired, unbound⟩ := stays (.inr (.inl schema))
        obtain ⟨other, there, here⟩ := rewritten.forth key keyword held free notRequired unbound
        have notOne : key ≠ "oneOf" := by
          rintro rfl
          cases schema
        rw [if_neg notOne] at there
        have shape := cleanMembers_iff.mp inside _ (Dict.mem_of_lookup held)
        rw [schema] at shape
        exact ⟨other, there, ih shape here⟩
      · intro many
        obtain ⟨free, notRequired, unbound⟩ := stays (.inr (.inr many))
        obtain ⟨other, there, here⟩ := rewritten.forth key keyword held free notRequired unbound
        have shape := cleanMembers_iff.mp inside _ (Dict.mem_of_lookup held)
        rw [many] at shape
        obtain ⟨items, rfl, schemas⟩ := clean_many shape
        obtain ⟨results, rfl, pairs⟩ := convert_arr here
        exact ⟨results, there, forall₂_imp_mem pairs fun item listed result =>
          ih (cleanItems_iff.mp schemas item listed)⟩

/-! ### Names that are lost -/

theorem shapedEntries_iff {entries : Members} :
    shapedEntries entries = true ↔ ∀ entry ∈ entries, shaped .schema entry.2 = true := by
  induction entries with
  | nil => simp [shapedEntries]
  | cons entry rest ih =>
      obtain ⟨name, value⟩ := entry
      simp [shapedEntries, ih]

theorem shapedMembers_iff {members : Members} :
    shapedMembers members = true ↔ ∀ member ∈ members, shaped (kindOf member.1) member.2 = true := by
  induction members with
  | nil => simp [shapedMembers]
  | cons member rest ih =>
      obtain ⟨key, value⟩ := member
      simp [shapedMembers, ih]

/-- A dictionary loses the keys that the walk takes for keywords. -/
theorem lost {entries final : Members} (converts : convert (.obj entries) = .ok (.obj final)) {name : String}
    (bad : nameOk name = false) : final.lookup name = none := by
  obtain ⟨converted, pairs, united, unites, required, requires, same⟩ := convert_obj_eq_ok.mp converts
  obtain rfl := Json.obj.inj same
  obtain ⟨noOne, -, rest, -⟩ := unite_spec unites
  obtain ⟨free, -⟩ := dropBounds_spec united
  obtain ⟨others, -⟩ := requireAll_spec requires
  have listed : name ∈ "oneOf" :: dropped := by
    simp only [nameOk, Bool.and_eq_false_iff, decide_eq_false_iff_not, not_not] at bad
    rcases bad with gone | one
    · exact List.mem_cons_of_mem _ gone
    · exact one ▸ List.mem_cons_self
  have apart : ∀ name ∈ "oneOf" :: dropped, name ≠ "required" ∧ name ∉ boundKeys ∧ name ≠ "anyOf" := by decide
  obtain ⟨notRequired, unbound, notAny⟩ := apart name listed
  rw [others name notRequired, free name unbound]
  by_cases one : name = "oneOf"
  · rw [one, noOne]
  · rw [rest name one notAny]
    rcases pairs.lookup name with ⟨-, absent⟩ | ⟨value, -, held, -, -⟩
    · exact absent
    · have gone : name ∈ dropped := (List.mem_cons.mp listed).resolve_left one
      have stayed := (List.mem_filter.mp (Dict.mem_of_lookup held)).2
      simp only [decide_eq_true_eq] at stayed
      exact absurd gone stayed

/-- A value with its conversion, and what has been kept of it. -/
def Kept (kind : Kind) (value : Json) : Prop :=
  ∃ result, convert value = .ok result ∧
    (kind = .schema → ∀ depth, Keeps depth value result) ∧
    (kind = .many → ∀ depth, List.Forall₂ (Keeps depth) (itemsOf value) (itemsOf result)) ∧
    (kind = .named → ∀ depth name sub, field value name = some sub →
      ∃ other, field result name = some other ∧ Keeps depth sub other)

/-- What is kept of a schema is kept of its members. -/
theorem kept_member {members : Members} {result : Json} (level : levelOk members = true)
    (converts : convert (.obj members) = .ok result) (keeps : ∀ depth, Keeps depth (.obj members) result)
    {key : String} {value : Json} (held : members.lookup key = some value) (fits : shaped (kindOf key) value = true) :
    kindOf key = .anything ∨ kindOf key = .flat ∨ Kept (kindOf key) value := by
  obtain ⟨final, -, rfl, linked, -, -⟩ := linked_of_convert level converts
  by_cases plain : kindOf key = .anything ∨ kindOf key = .flat
  · exact plain.imp id .inl
  have structural : kindOf key = .named ∨ kindOf key = .schema ∨ kindOf key = .many := by
    cases kind : kindOf key with
    | anything => exact absurd (.inl kind) plain
    | flat => exact absurd (.inr kind) plain
    | named => exact .inl rfl
    | schema => exact .inr (.inl rfl)
    | many => exact .inr (.inr rfl)
  obtain ⟨free, notRequired, unbound⟩ := stays structural
  obtain ⟨other, there, here⟩ := linked.forth key value held free notRequired unbound
  refine .inr (.inr ⟨other, here, fun schema depth => ?_, fun many depth => ?_, fun named depth name sub found => ?_⟩)
  · obtain ⟨again, present, kept⟩ := ((keeps (depth + 1)).2 key value held).2.1 schema
    have notOne : key ≠ "oneOf" := by
      rintro rfl
      cases schema
    rw [if_neg notOne] at there
    obtain rfl := Option.some.inj (there.symm.trans present)
    exact kept
  · obtain ⟨others, present, kept⟩ := ((keeps (depth + 1)).2 key value held).2.2 many
    obtain rfl := Option.some.inj (there.symm.trans present)
    exact kept
  · obtain ⟨again, sub', present, found', kept⟩ := ((keeps (depth + 1)).2 key value held).1 named name sub found
    have notOne : key ≠ "oneOf" := by
      rintro rfl
      cases named
    rw [if_neg notOne] at there
    obtain rfl := Option.some.inj (there.symm.trans present)
    exact ⟨sub', found', kept⟩

theorem kept_items {items results : List Json}
    (pairs : List.Forall₂ (fun item result => convert item = .ok result) items results)
    (keeps : ∀ depth, List.Forall₂ (Keeps depth) items results) : ∀ item ∈ items, Kept .schema item := by
  induction pairs with
  | nil => simp
  | @cons item result items results here _ ih =>
      refine List.forall_mem_cons.mpr ⟨?_, ih fun depth => (List.forall₂_cons.mp (keeps depth)).2⟩
      exact ⟨result, here, fun _ depth => (List.forall₂_cons.mp (keeps depth)).1, by rintro ⟨⟩, by rintro ⟨⟩⟩

theorem shaped_cases {value : Json} (fits : shaped .schema value = true) :
    (∃ allowed, value = .bool allowed) ∨ ∃ members, value = .obj members := by
  cases value with
  | bool allowed => exact .inl ⟨allowed, rfl⟩
  | obj members => exact .inr ⟨members, rfl⟩
  | null => cases fits
  | int => cases fits
  | float => cases fits
  | str => cases fits
  | arr => cases fits

/-- Where every property is kept, none is named like a keyword of the walk, and each is kept itself. -/
theorem kept_entries {entries : Members} (unique : (entries.map Prod.fst).Nodup)
    (fits : shapedEntries entries = true) (kept : Kept .named (.obj entries)) :
    ∀ entry ∈ entries, nameOk entry.1 = true ∧ Kept .schema entry.2 := by
  obtain ⟨result, converts, -, -, found⟩ := kept
  obtain ⟨final, rfl⟩ := convert_obj converts
  have held : ∀ entry ∈ entries, field (.obj entries) entry.1 = some entry.2 := fun entry member =>
    Dict.lookup_of_mem unique member
  have names : ∀ entry ∈ entries, nameOk entry.1 = true := by
    intro entry member
    obtain ⟨other, there, -⟩ := found rfl 0 entry.1 entry.2 (held entry member)
    by_contra bad
    rw [field, lost converts (by simpa using bad)] at there
    cases there
  have listed : Listed entries := fun entry member =>
    ⟨names entry member, shaped_cases (shapedEntries_iff.mp fits entry member)⟩
  obtain ⟨converted, pairs, same⟩ := listed.convert_eq_ok.mp converts
  obtain rfl := Json.obj.inj same
  intro entry member
  refine ⟨names entry member, ?_⟩
  rcases pairs.lookup entry.1 with ⟨absent, -⟩ | ⟨value, other, there, present, here⟩
  · have some := held entry member
    rw [field, absent] at some
    cases some
  · obtain rfl := Option.some.inj (there.symm.trans (held entry member))
    refine ⟨other, here, fun _ depth => ?_, by rintro ⟨⟩, by rintro ⟨⟩⟩
    obtain ⟨again, shown, keeps⟩ := found rfl depth entry.1 _ (held entry member)
    obtain rfl := Option.some.inj (present.symm.trans shown)
    exact keeps

mutual

/-- A schema that keeps its properties is clean. -/
theorem clean_of_kept : ∀ (kind : Kind) (value : Json), shaped kind value = true →
    kind = .anything ∨ kind = .flat ∨ Kept kind value → clean kind value = true
  | kind, .obj members, fits, kept => by
      cases kind with
      | anything => rw [clean]
      | flat => cases fits
      | many => cases fits
      | schema =>
          obtain ⟨result, converts, keeps, -, -⟩ := (kept.resolve_left (by simp)).resolve_left (by simp)
          rw [shaped, Bool.and_eq_true] at fits
          have unique : (members.map Prod.fst).Nodup := by
            have level := fits.1
            simp only [levelOk, Bool.and_eq_true, decide_eq_true_eq] at level
            exact level.1
          rw [clean, Bool.and_eq_true]
          exact ⟨fits.1, cleanMembers_of_kept members fun member listed =>
            ⟨shapedMembers_iff.mp fits.2 member listed, kept_member fits.1 converts (keeps rfl)
              (Dict.lookup_of_mem unique listed) (shapedMembers_iff.mp fits.2 member listed)⟩⟩
      | named =>
          have entries := (kept.resolve_left (by simp)).resolve_left (by simp)
          rw [shaped, Bool.and_eq_true, decide_eq_true_eq] at fits
          rw [clean]
          exact cleanEntries_of_kept members fun entry listed =>
            ⟨shapedEntries_iff.mp fits.2 entry listed, kept_entries fits.1 fits.2 entries entry listed⟩
  | kind, .arr items, fits, kept => by
      cases kind with
      | anything => rw [clean]
      | flat => rwa [clean]
      | schema => cases fits
      | named => cases fits
      | many =>
          obtain ⟨result, converts, -, keeps, -⟩ := (kept.resolve_left (by simp)).resolve_left (by simp)
          obtain ⟨results, rfl, pairs⟩ := convert_arr converts
          rw [shaped] at fits
          rw [clean]
          exact cleanItems_of_kept items fits (kept_items pairs (keeps rfl))
  | kind, .null, fits, _ => by cases kind <;> first | rfl | cases fits
  | kind, .bool _, fits, _ => by cases kind <;> first | rfl | cases fits
  | kind, .int _, fits, _ => by cases kind <;> first | rfl | cases fits
  | kind, .float _, fits, _ => by cases kind <;> first | rfl | cases fits
  | kind, .str _, fits, _ => by cases kind <;> first | rfl | cases fits

theorem cleanMembers_of_kept : ∀ members : Members, (∀ member ∈ members,
    shaped (kindOf member.1) member.2 = true ∧
      (kindOf member.1 = .anything ∨ kindOf member.1 = .flat ∨ Kept (kindOf member.1) member.2)) →
    cleanMembers members = true
  | [], _ => rfl
  | (key, value) :: rest, each => by
      obtain ⟨here, later⟩ := List.forall_mem_cons.mp each
      rw [cleanMembers, Bool.and_eq_true]
      exact ⟨clean_of_kept (kindOf key) value here.1 here.2, cleanMembers_of_kept rest later⟩

theorem cleanEntries_of_kept : ∀ entries : Members, (∀ entry ∈ entries,
    shaped .schema entry.2 = true ∧ nameOk entry.1 = true ∧ Kept .schema entry.2) → cleanEntries entries = true
  | [], _ => rfl
  | (name, value) :: rest, each => by
      obtain ⟨here, later⟩ := List.forall_mem_cons.mp each
      simp only [cleanEntries, Bool.and_eq_true]
      exact ⟨⟨here.2.1, clean_of_kept .schema value here.1 (.inr (.inr here.2.2))⟩, cleanEntries_of_kept rest later⟩

theorem cleanItems_of_kept : ∀ items : List Json, shapedItems items = true →
    (∀ item ∈ items, Kept .schema item) → cleanItems items = true
  | [], _, _ => rfl
  | item :: rest, fits, each => by
      rw [shapedItems, Bool.and_eq_true] at fits
      obtain ⟨here, later⟩ := List.forall_mem_cons.mp each
      rw [cleanItems, Bool.and_eq_true]
      exact ⟨clean_of_kept .schema item fits.1 (.inr (.inr here)), cleanItems_of_kept rest fits.2 later⟩

end

/-! ### Validity is kept -/

/-- What rewriting does to an item of a list, forwards. -/
theorem exists_converted {items results : List Json}
    (pairs : List.Forall₂ (fun item result => convert item = .ok result) items results) {item : Json}
    (listed : item ∈ items) : ∃ result ∈ results, convert item = .ok result := by
  induction pairs with
  | nil => cases listed
  | @cons first result items results here _ ih =>
      rcases List.mem_cons.mp listed with rfl | later
      · exact ⟨result, List.mem_cons_self, here⟩
      · obtain ⟨other, there, converted⟩ := ih later
        exact ⟨other, List.mem_cons_of_mem _ there, converted⟩

theorem exists_source {items results : List Json}
    (pairs : List.Forall₂ (fun item result => convert item = .ok result) items results) {result : Json}
    (listed : result ∈ results) : ∃ item ∈ items, convert item = .ok result := by
  induction pairs with
  | nil => cases listed
  | @cons item first items results here _ ih =>
      rcases List.mem_cons.mp listed with rfl | later
      · exact ⟨item, List.mem_cons_self, here⟩
      · obtain ⟨other, there, converted⟩ := ih later
        exact ⟨other, List.mem_cons_of_mem _ there, converted⟩

theorem exists_pair {items results values : List Json}
    (pairs : List.Forall₂ (fun item result => convert item = .ok result) items results) {pair : Json × Json}
    (listed : pair ∈ results.zip values) : ∃ item, (item, pair.2) ∈ items.zip values ∧ item ∈ items ∧
      convert item = .ok pair.1 := by
  induction pairs generalizing values with
  | nil => cases listed
  | @cons item result items results here _ ih =>
      cases values with
      | nil => cases listed
      | cons value values =>
          rcases List.mem_cons.mp listed with rfl | later
          · exact ⟨item, List.mem_cons_self, List.mem_cons_self, here⟩
          · obtain ⟨other, there, inside, converted⟩ := ih later
            exact ⟨other, List.mem_cons_of_mem _ there, List.mem_cons_of_mem _ inside, converted⟩

section

variable {leaf : String → Json → Json → Prop}

theorem clean_value {members : Members} (inside : cleanMembers members = true) {key : String} {value : Json}
    (held : members.lookup key = some value) : clean (kindOf key) value = true :=
  cleanMembers_iff.mp inside _ (Dict.mem_of_lookup held)

/-- A definition of the root has its rewrite among the definitions of the rewritten root. -/
theorem definition_rewritten {root result definitions sub : Json} {name : String} (fits : clean .schema root = true)
    (converts : convert root = .ok result) (held : field root "$defs" = some definitions)
    (found : field definitions name = some sub) : clean .schema sub = true ∧
      ∃ others other, field result "$defs" = some others ∧ field others name = some other ∧
        convert sub = .ok other := by
  rcases schema_cases fits with ⟨allowed, rfl⟩ | ⟨members, rfl, level, inside⟩
  · cases held
  obtain ⟨final, rfl, rewritten⟩ := rewritten_of_convert level inside converts
  obtain ⟨others, there, here⟩ := rewritten.forth "$defs" definitions held (by decide) (by decide) (by decide)
  rw [if_neg (by decide)] at there
  obtain ⟨entries, rfl, names⟩ := clean_named (show clean .named definitions = true from clean_value inside held)
  obtain ⟨converted, pairs, rfl⟩ := (convert_entries_eq_ok names).mp here
  rcases pairs.lookup name with ⟨absent, -⟩ | ⟨value, other, listed, present, converts⟩
  · rw [field, absent] at found
    cases found
  · rw [field, listed] at found
    obtain rfl := Option.some.inj found
    exact ⟨(cleanEntries_iff.mp names _ (Dict.mem_of_lookup listed)).2, _, other, there, present, converts⟩

theorem length_prefix {members final : Members} (inside : cleanMembers members = true)
    (rewritten : Rewritten members final) : (itemsOf ((final.lookup "prefixItems").getD .null)).length =
      (itemsOf ((members.lookup "prefixItems").getD .null)).length := by
  cases held : members.lookup "prefixItems" with
  | none =>
      cases found : final.lookup "prefixItems" with
      | none => rfl
      | some other =>
          obtain ⟨-, -, value, listed, -⟩ := rewritten.back _ _ found (by decide) (by decide)
          rw [held] at listed
          cases listed
  | some value =>
      obtain ⟨other, found, here⟩ := rewritten.forth _ _ held (by decide) (by decide) (by decide)
      rw [if_neg (by decide)] at found
      obtain ⟨items, rfl, -⟩ := clean_many (show clean .many value = true from clean_value inside held)
      obtain ⟨results, rfl, pairs⟩ := convert_arr here
      rw [found]
      exact pairs.length_eq.symm

/-- One keyword of the rewrite holds where the schema's keywords do, if the schemas below keep validity. -/
theorem holds_rewritten {root rootResult : Json} (rootFits : clean .schema root = true)
    (rootConverts : convert root = .ok rootResult) {members final : Members} (inside : cleanMembers members = true)
    (rewritten : Rewritten members final) {valid rival after afterRival : Json → Json → Prop} {value : Json}
    (step : ∀ sub other item, clean .schema sub = true → convert sub = .ok other → valid sub item → after other item)
    (before : ∀ key keyword, members.lookup key = some keyword →
      Holds leaf true root valid rival members value key keyword)
    (key : String) (keyword : Json) (found : final.lookup key = some keyword) :
    Holds leaf false rootResult after afterRival final value key keyword := by
  by_cases required : key = "required"
  · subst required
    rw [Holds, if_neg (by decide), if_pos rfl]
    intro isObj name listed
    rcases rewritten.required keyword found with held | ⟨entries, held, rfl⟩
    · have holds := before _ _ held
      rw [Holds, if_neg (by decide), if_pos rfl] at holds
      exact holds isObj name listed
    · have holds := before _ _ held
      rw [Holds, if_pos rfl] at holds
      obtain ⟨entry, member, same⟩ := List.mem_map.mp listed
      obtain rfl := Json.str.inj same
      have present : ∃ sub, field (.obj entries) entry.1 = some sub := by
        rw [← Option.isSome_iff_exists, Option.isSome_iff_ne_none]
        intro absent
        have none_there := List.lookup_eq_none_iff.mp absent entry member
        simp at none_there
      obtain ⟨sub, there⟩ := present
      exact (holds entry.1 sub there).2 rfl isObj
  by_cases any : key = "anyOf"
  · subst any
    rw [Holds]
    simp only [String.reduceEq, if_false, if_true]
    obtain ⟨source, held | held, converts⟩ := rewritten.union keyword found
    · obtain ⟨items, rfl, schemas⟩ := clean_many (show clean .many source = true from clean_value inside held)
      obtain ⟨results, rfl, pairs⟩ := convert_arr converts
      have holds := before _ _ held
      rw [Holds] at holds
      simp only [String.reduceEq, if_false, if_true] at holds
      obtain ⟨front, sub, back, split, valid, -⟩ := holds
      have listed : sub ∈ items := by
        rw [show items = front ++ sub :: back from split]
        exact List.mem_append_right _ List.mem_cons_self
      obtain ⟨other, there, here⟩ := exists_converted pairs listed
      exact ⟨other, there, step sub other value (cleanItems_iff.mp schemas sub listed) here valid⟩
    · obtain ⟨items, rfl, schemas⟩ := clean_many (show clean .many source = true from clean_value inside held)
      obtain ⟨results, rfl, pairs⟩ := convert_arr converts
      have holds := before _ _ held
      rw [Holds] at holds
      simp only [String.reduceEq, if_false, if_true] at holds
      obtain ⟨sub, listed, valid⟩ := holds
      obtain ⟨other, there, here⟩ := exists_converted pairs listed
      exact ⟨other, there, step sub other value (cleanItems_iff.mp schemas sub listed) here valid⟩
  obtain ⟨notOne, free, source, held, converts⟩ := rewritten.back key keyword found any required
  have holds := before key source held
  have shape := clean_value inside held
  rw [Holds] at holds ⊢
  by_cases properties : key = "properties"
  · subst properties
    rw [if_pos rfl] at holds ⊢
    obtain ⟨entries, rfl, names⟩ := clean_named shape
    obtain ⟨converted, pairs, rfl⟩ := (convert_entries_eq_ok names).mp converts
    intro name other there
    rcases pairs.lookup name with ⟨-, absent⟩ | ⟨sub, result, listed, present, here⟩
    · rw [field, absent] at there
      cases there
    · rw [field, present] at there
      obtain rfl := Option.some.inj there
      refine ⟨fun item given => ?_, by rintro ⟨⟩⟩
      exact step sub result item (cleanEntries_iff.mp names _ (Dict.mem_of_lookup listed)).2 here
        ((holds name sub listed).1 item given)
  rw [if_neg properties, if_neg required] at holds ⊢
  by_cases additional : key = "additionalProperties"
  · subst additional
    rw [if_pos rfl] at holds ⊢
    intro name item outside given
    rw [propertyNames_rewritten inside rewritten] at outside
    exact step source keyword item shape converts (holds name item outside given)
  rw [if_neg additional] at holds ⊢
  by_cases items : key = "items"
  · subst items
    rw [if_pos rfl] at holds ⊢
    have same : (itemsOf ((final.lookup "prefixItems").getD .null)).length =
        (itemsOf ((members.lookup "prefixItems").getD .null)).length :=
      length_prefix inside rewritten
    rw [same]
    intro item listed
    exact step source keyword item shape converts (holds item listed)
  rw [if_neg items] at holds ⊢
  by_cases leading : key = "prefixItems"
  · subst leading
    rw [if_pos rfl] at holds ⊢
    obtain ⟨schemas, rfl, each⟩ := clean_many shape
    obtain ⟨results, rfl, pairs⟩ := convert_arr converts
    intro pair listed
    obtain ⟨sub, there, member, here⟩ := exists_pair pairs listed
    exact step sub pair.1 pair.2 (cleanItems_iff.mp each sub member) here (holds _ there)
  rw [if_neg leading] at holds ⊢
  by_cases all : key = "allOf"
  · subst all
    rw [if_pos rfl] at holds ⊢
    obtain ⟨schemas, rfl, each⟩ := clean_many shape
    obtain ⟨results, rfl, pairs⟩ := convert_arr converts
    intro other listed
    obtain ⟨sub, member, here⟩ := exists_source pairs listed
    exact step sub other value (cleanItems_iff.mp each sub member) here (holds sub member)
  rw [if_neg all, if_neg any, if_neg notOne] at holds ⊢
  by_cases reference : key = "$ref"
  · subst reference
    rw [if_pos rfl] at holds ⊢
    have plain : clean .flat source = true := shape
    rw [clean] at plain
    have same := Except.ok.inj ((convert_flat plain).symm.trans converts)
    subst same
    intro text name given shown
    obtain ⟨definitions, sub, listed, there, valid⟩ := holds text name given shown
    obtain ⟨fits, others, other, found, present, here⟩ :=
      definition_rewritten rootFits rootConverts listed there
    exact ⟨others, other, found, present, step sub other value fits here valid⟩
  rw [if_neg reference] at holds ⊢
  split
  next => trivial
  next outside =>
    rw [if_neg outside] at holds
    have plain : kindOf key = .flat := by
      have notDefs : key ≠ "$defs" := fun same => outside (same ▸ List.mem_cons_self)
      rw [kindOf, if_neg free, if_neg (by simp [properties, notDefs]), if_neg (by simp [any, notOne, all, leading]),
        if_neg (by simp [items, additional])]
    rw [plain, clean] at shape
    have same := Except.ok.inj ((convert_flat shape).symm.trans converts)
    exact same ▸ holds

/-- An instance that gives every property stays valid. -/
theorem valid_convert {root rootResult : Json} (rootFits : clean .schema root = true)
    (rootConverts : convert root = .ok rootResult) (depth : Nat) (schema result value : Json)
    (fits : clean .schema schema = true) (converts : convert schema = .ok result)
    (valid : Valid leaf root depth true schema value) : Valid leaf rootResult depth false result value := by
  induction depth generalizing schema result value with
  | zero => exact valid
  | succ depth ih =>
      rcases schema_cases fits with ⟨allowed, rfl⟩ | ⟨members, rfl, level, inside⟩
      · obtain rfl := Except.ok.inj ((convert_bool allowed).symm.trans converts)
        exact valid
      · obtain ⟨final, rfl, rewritten⟩ := rewritten_of_convert level inside converts
        intro key keyword found
        exact holds_rewritten rootFits rootConverts inside rewritten (fun sub other item => ih sub other item) valid
          key keyword found

end

/-- The rewrite of a clean schema has the same properties everywhere and accepts every explicit instance. -/
theorem codexOutputSchema_clean {schema : Json} (fits : clean .schema schema = true) :
    ∃ result, codexOutputSchema schema = .ok result ∧ (∀ depth, Keeps depth schema result) ∧
      ∀ (leaf : String → Json → Json → Prop) depth value, Valid leaf schema depth true schema value →
        Valid leaf result depth false result value := by
  obtain ⟨result, converts⟩ := convert_clean .schema schema (by decide) fits
  exact ⟨result, converts, fun depth => keeps_convert depth fits converts, fun leaf depth value =>
    valid_convert fits converts depth schema result value fits converts⟩

def integerSchema : Json := .obj [("type", .str "integer")]

/-- A model with one field. -/
def modelSchema (name : String) : Json :=
  .obj [("properties", .obj [(name, integerSchema)]), ("title", .str "Sample"), ("type", .str "object")]

end CodexSchema

end FeatureRl
