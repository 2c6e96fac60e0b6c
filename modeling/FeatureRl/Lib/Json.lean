import FeatureRl.Lib.Dict
import FeatureRl.Lib.JsonNumber
import FeatureRl.Lib.Utf8
import Mathlib.Data.List.Sort
import Mathlib.Data.String.Basic

/-!
JSON values and their canonical text. A dictionary is the list of its members in strictly
increasing key order, so equal dictionaries are equal values and the canonical text needs
no further sorting.
-/

inductive Json where
  | null
  | bool (value : Bool)
  | int (value : Int)
  | float (value : Binary64)
  | str (text : String)
  | arr (items : List Json)
  | obj (members : List (String × Json))

namespace Json

abbrev Members := List (String × Json)

def sortedKeys (members : Members) : Bool :=
  decide ((members.map Prod.fst).Pairwise (· < ·))

mutual

/-- Every dictionary inside the value lists its keys in strictly increasing order. -/
def normal : Json → Bool
  | .arr items => normalItems items
  | .obj members => sortedKeys members && normalMembers members
  | _ => true

def normalItems : List Json → Bool
  | [] => true
  | item :: rest => item.normal && normalItems rest

def normalMembers : Members → Bool
  | [] => true
  | (_, value) :: rest => value.normal && normalMembers rest

end

theorem normalItems_iff (items : List Json) :
    normalItems items = true ↔ ∀ item ∈ items, item.normal = true := by
  induction items with
  | nil => simp [normalItems]
  | cons item rest ih => simp [normalItems, ih]

theorem normalMembers_iff (members : Members) :
    normalMembers members = true ↔ ∀ member ∈ members, member.2.normal = true := by
  induction members with
  | nil => simp [normalMembers]
  | cons member rest ih =>
      obtain ⟨key, value⟩ := member
      simp [normalMembers, ih]

def keyLe (first second : String × Json) : Prop := first.1 ≤ second.1

instance : DecidableRel keyLe := fun first second => inferInstanceAs (Decidable (first.1 ≤ second.1))

instance : Std.Total keyLe := ⟨fun first second => le_total first.1 second.1⟩

instance : IsTrans (String × Json) keyLe := ⟨fun _ _ _ first second => le_trans first second⟩

def sortMembers (members : Members) : Members := members.insertionSort keyLe

theorem sortMembers_perm (members : Members) : (sortMembers members).Perm members :=
  List.perm_insertionSort _ _

theorem sortedKeys_sortMembers {members : Members} (unique : (members.map Prod.fst).Nodup) :
    sortedKeys (sortMembers members) = true := by
  rw [sortedKeys, decide_eq_true_iff]
  have sorted : ((sortMembers members).map Prod.fst).Pairwise (· ≤ ·) :=
    List.pairwise_map.mpr (List.pairwise_insertionSort keyLe members)
  have distinct : ((sortMembers members).map Prod.fst).Nodup :=
    ((sortMembers_perm members).map Prod.fst).nodup_iff.mpr unique
  rw [List.nodup_iff_pairwise_ne] at distinct
  exact (sorted.and distinct).imp fun both => lt_of_le_of_ne both.1 both.2

theorem sortMembers_of_sortedKeys {members : Members} (sorted : sortedKeys members = true) :
    sortMembers members = members := by
  rw [sortedKeys, decide_eq_true_iff, List.pairwise_map] at sorted
  exact List.Pairwise.insertionSort_eq (sorted.imp fun below => le_of_lt below)

theorem nodup_of_sortedKeys {members : Members} (sorted : sortedKeys members = true) :
    (members.map Prod.fst).Nodup := by
  rw [sortedKeys, decide_eq_true_iff] at sorted
  rw [List.nodup_iff_pairwise_ne]
  exact sorted.imp fun below => ne_of_lt below

/-- The dictionary with the given items. -/
def dict (members : Members) : Json := .obj (sortMembers members)

/-- Reading the members of a dictionary back by key. -/
theorem lookup_sortMembers {members : Members} (unique : (members.map Prod.fst).Nodup)
    {member : String × Json} (found : member ∈ members) :
    (sortMembers members).lookup member.1 = some member.2 := by
  have perm := sortMembers_perm members
  exact Dict.lookup_of_mem ((perm.map Prod.fst).nodup_iff.mpr unique)
    (perm.symm.subset found)

/-- Equal dictionaries have equal values under each key. -/
theorem dict_inj {first second : Members} (uniqueFirst : (first.map Prod.fst).Nodup)
    (uniqueSecond : (second.map Prod.fst).Nodup) (same : dict first = dict second) (key : String)
    {left right : Json} (inFirst : (key, left) ∈ first) (inSecond : (key, right) ∈ second) :
    left = right := by
  have found := lookup_sortMembers uniqueFirst inFirst
  rw [Json.obj.inj same, lookup_sortMembers uniqueSecond inSecond] at found
  exact (Option.some.inj found).symm

theorem normal_dict {members : Members} (unique : (members.map Prod.fst).Nodup)
    (values : ∀ member ∈ members, member.2.normal = true) : (dict members).normal = true := by
  simp only [dict, normal, Bool.and_eq_true]
  refine ⟨sortedKeys_sortMembers unique, (normalMembers_iff _).mpr ?_⟩
  intro member found
  exact values member ((sortMembers_perm members).subset found)

/-- `ensure_ascii` is off: only quotes, backslashes and control characters are escaped. -/
def escapeChar (c : Char) : List Char :=
  if c = '"' then ['\\', '"']
  else if c = '\\' then ['\\', '\\']
  else if c = '\n' then ['\\', 'n']
  else if c = '\r' then ['\\', 'r']
  else if c = '\t' then ['\\', 't']
  else if c.toNat = 12 then ['\\', 'f']
  else if c.toNat = 8 then ['\\', 'b']
  else if c.toNat < 32 then
    ['\\', 'u', '0', '0', Nat.digitChar (c.toNat / 16), Nat.digitChar (c.toNat % 16)]
  else [c]

def renderString (text : String) : List Char :=
  '"' :: (text.toList.flatMap escapeChar ++ ['"'])

mutual

/-- Compact text without any blank. -/
def render : Json → List Char
  | .null => ['n', 'u', 'l', 'l']
  | .bool true => ['t', 'r', 'u', 'e']
  | .bool false => ['f', 'a', 'l', 's', 'e']
  | .int value => (NumberLiteral.ofInt value).render
  | .float value => (NumberLiteral.ofBinary64 value).render
  | .str text => renderString text
  | .arr [] => ['[', ']']
  | .arr (item :: rest) => '[' :: (item.render ++ renderItems rest)
  | .obj [] => ['{', '}']
  | .obj ((key, value) :: rest) =>
      '{' :: (renderString key ++ ':' :: (value.render ++ renderMembers rest))

def renderItems : List Json → List Char
  | [] => [']']
  | item :: rest => ',' :: (item.render ++ renderItems rest)

def renderMembers : Members → List Char
  | [] => ['}']
  | (key, value) :: rest =>
      ',' :: (renderString key ++ ':' :: (value.render ++ renderMembers rest))

end

/-- UTF-8, sorted keys, compact separators, finite numbers. -/
def canonical (value : Json) : Bytes := Utf8.encode value.render

/-! ### No line feed inside canonical text -/

theorem newline_notMem_escapeChar (c : Char) : '\n' ∉ escapeChar c := by
  have digit : ∀ count < 16, '\n' ≠ Nat.digitChar count := by decide
  simp only [escapeChar]
  by_cases feed : c = '\n'
  · subst feed; decide
  · split_ifs
    any_goals decide
    · simp [digit (c.toNat / 16) (by omega), digit (c.toNat % 16) (by omega)]
    · simpa using fun same => feed same.symm

theorem newline_notMem_renderString (text : String) : '\n' ∉ renderString text := by
  simp only [renderString, List.mem_cons, List.mem_append, List.mem_flatMap, List.not_mem_nil,
    or_false, not_or, not_exists, not_and]
  exact ⟨by decide, fun c _ => newline_notMem_escapeChar c, by decide⟩

theorem newline_notMem_digits {digits : List Char} (all : ∀ c ∈ digits, c.isDigit = true) :
    '\n' ∉ digits := by
  intro found
  exact absurd (all _ found) (by decide)

theorem newline_notMem_renderExponent (exponent : Option Int) :
    '\n' ∉ NumberLiteral.renderExponent exponent := by
  cases exponent with
  | none => simp [NumberLiteral.renderExponent]
  | some exponent =>
      have clean := newline_notMem_digits (NumberLiteral.toDigits_isDigit exponent.natAbs)
      simp only [NumberLiteral.renderExponent, List.mem_cons, not_or]
      refine ⟨by decide, by split <;> decide, ?_⟩
      split
      · simpa using clean
      · exact clean

theorem newline_notMem_literal {literal : NumberLiteral} (formed : literal.WellFormed) :
    '\n' ∉ literal.render := by
  simp only [NumberLiteral.render, List.mem_append, not_or]
  refine ⟨⟨⟨by split <;> simp, newline_notMem_digits formed.whole_digits⟩, ?_⟩,
    newline_notMem_renderExponent literal.exponent⟩
  rw [NumberLiteral.renderFraction]
  split
  · simp
  · simpa using newline_notMem_digits formed.fraction_digits

mutual

theorem newline_notMem_render : ∀ value : Json, '\n' ∉ value.render
  | .null => by simp [render]
  | .bool true => by simp [render]
  | .bool false => by simp [render]
  | .int value => by
      rw [render]
      exact newline_notMem_literal (NumberLiteral.wellFormed_ofInt value)
  | .float value => by
      rw [render]
      exact newline_notMem_literal (NumberLiteral.wellFormed_ofBinary64 value)
  | .str text => by
      rw [render]
      exact newline_notMem_renderString text
  | .arr [] => by simp [render]
  | .arr (item :: rest) => by
      simp [render, newline_notMem_render item, newline_notMem_renderItems rest]
  | .obj [] => by simp [render]
  | .obj ((key, value) :: rest) => by
      simp [render, newline_notMem_renderString key, newline_notMem_render value,
        newline_notMem_renderMembers rest]

theorem newline_notMem_renderItems : ∀ items : List Json, '\n' ∉ renderItems items
  | [] => by simp [renderItems]
  | item :: rest => by
      simp [renderItems, newline_notMem_render item, newline_notMem_renderItems rest]

theorem newline_notMem_renderMembers : ∀ members : Members, '\n' ∉ renderMembers members
  | [] => by simp [renderMembers]
  | (key, value) :: rest => by
      simp [renderMembers, newline_notMem_renderString key, newline_notMem_render value,
        newline_notMem_renderMembers rest]

end

/-- Canonical JSON is one line. -/
theorem newline_notMem_canonical (value : Json) : (10 : UInt8) ∉ value.canonical :=
  Utf8.newline_notMem_encode (newline_notMem_render value)

end Json
