import FeatureRl.Lib.Utf8
import Mathlib.Data.Option.Basic

/-!
Text that may hold surrogates outside pairs, as a reader of JSON escapes can produce. UTF-8
encodes such a text only when it holds none.
-/

namespace FeatureRl

inductive PyChar where
  | scalar (char : Char)
  | surrogate (code : {code : Nat // 0xd800 ≤ code ∧ code ≤ 0xdfff})
deriving DecidableEq

namespace PyChar

def char? : PyChar → Option Char
  | scalar char => some char
  | surrogate _ => none

def code : PyChar → Nat
  | scalar char => char.toNat
  | surrogate code => code.val

/-- The blanks of `str.strip`. -/
def isSpace (char : PyChar) : Bool :=
  (9 ≤ char.code && char.code ≤ 13) || (28 ≤ char.code && char.code ≤ 32) ||
    char.code ∈ [0x85, 0xa0, 0x1680, 0x2028, 0x2029, 0x202f, 0x205f, 0x3000] ||
    (0x2000 ≤ char.code && char.code ≤ 0x200a)

end PyChar

abbrev PyText := List PyChar

namespace PyText

def ofString (text : String) : PyText := text.toList.map .scalar

def encodable (text : PyText) : Bool := text.all fun char => char.char?.isSome

def string? (text : PyText) : Option String := (text.mapM PyChar.char?).map String.ofList

def strip (text : PyText) : PyText :=
  ((text.dropWhile PyChar.isSpace).reverse.dropWhile PyChar.isSpace).reverse

/-- The last characters of the text. -/
def last (count : Nat) (text : PyText) : PyText := text.drop (text.length - count)

theorem isSome_mapM (text : PyText) : (text.mapM PyChar.char?).isSome = text.encodable := by
  induction text with
  | nil => rfl
  | cons char rest ih =>
      rw [encodable, List.all_cons, ← encodable, ← ih, List.mapM_cons]
      cases char.char? with
      | none => rfl
      | some value => cases rest.mapM PyChar.char? <;> rfl

theorem isSome_string? (text : PyText) : text.string?.isSome = text.encodable := by
  rw [string?, Option.isSome_map, isSome_mapM]

theorem length_mapM {text : PyText} {chars : List Char} (found : text.mapM PyChar.char? = some chars) :
    chars.length = text.length := by
  induction text generalizing chars with
  | nil =>
      obtain rfl := Option.some.inj found
      rfl
  | cons char rest ih =>
      rw [List.mapM_cons] at found
      obtain ⟨first, _, found⟩ := Option.bind_eq_some_iff.mp found
      obtain ⟨others, mapped, found⟩ := Option.bind_eq_some_iff.mp found
      obtain rfl := Option.some.inj found
      simp [ih mapped]

theorem length_string? {text : PyText} {found : String} (encoded : text.string? = some found) :
    found.length = text.length := by
  obtain ⟨chars, mapped, rfl⟩ := Option.map_eq_some_iff.mp encoded
  rw [String.length_ofList, length_mapM mapped]

theorem encodable_append (first second : PyText) :
    encodable (first ++ second) = (first.encodable && second.encodable) := List.all_append

theorem encodable_ofString (text : String) : (ofString text).encodable = true := by
  rw [encodable, ofString, List.all_map]
  exact List.all_eq_true.mpr fun _ _ => rfl

theorem encodable_last {text : PyText} (count : Nat) (legible : text.encodable = true) :
    (last count text).encodable = true :=
  List.all_eq_true.mpr fun char member => List.all_eq_true.mp legible char (List.mem_of_mem_drop member)

end PyText

end FeatureRl
