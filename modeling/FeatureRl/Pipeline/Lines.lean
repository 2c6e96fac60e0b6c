import FeatureRl.Pipeline.Context
import Mathlib.Data.List.TakeWhile

/-!
Where `str.splitlines` cuts a text: the first line runs up to the first boundary, and the rest is split on its own.
-/

namespace FeatureRl

namespace Context

/-- The characters up to the first boundary. -/
def firstLine (text : List Char) : Line := text.takeWhile fun c => !isBreak c

/-- What follows one boundary; a carriage return and a line feed are one boundary. -/
def afterBreak : List Char → List Char
  | [] => []
  | '\r' :: '\n' :: rest => rest
  | _ :: rest => rest

theorem splitFrom_clean {text : Line} (clean : ∀ c ∈ text, isBreak c = false) (taken : Line) (rest : List Char) :
    splitFrom taken (text ++ rest) = splitFrom (text.reverse ++ taken) rest := by
  induction text generalizing taken with
  | nil => rfl
  | cons c text ih =>
      obtain ⟨here, later⟩ := List.forall_mem_cons.mp clean
      have other : c ≠ '\r' := by
        rintro rfl
        cases here
      have further : splitFrom taken (c :: (text ++ rest)) = splitFrom (c :: taken) (text ++ rest) := by
        rw [splitFrom, if_neg (by simp [here])]
        intro tail same
        exact absurd same other
      rw [List.cons_append, further, ih later, List.reverse_cons, List.append_assoc, List.singleton_append]

theorem splitFrom_break {c : Char} (breaks : isBreak c = true) (taken : Line) (rest : List Char) :
    splitFrom taken (c :: rest) = taken.reverse :: splitFrom [] (afterBreak (c :: rest)) := by
  by_cases pair : ∃ tail, c = '\r' ∧ rest = '\n' :: tail
  · obtain ⟨tail, rfl, rfl⟩ := pair
    rfl
  · rw [splitFrom, if_pos breaks, afterBreak]
    · rintro tail rfl rfl
      exact pair ⟨tail, rfl, rfl⟩
    · rintro tail rfl rfl
      exact pair ⟨tail, rfl, rfl⟩

theorem firstLine_clean (text : List Char) : ∀ c ∈ firstLine text, isBreak c = false := by
  intro c member
  simpa using List.all_eq_true.mp List.all_takeWhile c member

/-- The first line, and the lines of what follows its boundary. -/
theorem splitlines_head {text : List Char} (filled : text ≠ []) :
    splitlines text = firstLine text :: splitlines (afterBreak (text.drop (firstLine text).length)) := by
  have parts : text = firstLine text ++ text.dropWhile fun c => !isBreak c := List.takeWhile_append_dropWhile.symm
  have rest : text.drop (firstLine text).length = text.dropWhile fun c => !isBreak c := by
    have dropped := @List.drop_left _ (firstLine text) (text.dropWhile fun c => !isBreak c)
    rwa [← parts] at dropped
  rw [rest]
  conv_lhs => rw [parts, splitlines, splitFrom_clean (firstLine_clean text), List.append_nil]
  cases later : text.dropWhile fun c => !isBreak c with
  | nil =>
      rw [later, List.append_nil] at parts
      have some : (firstLine text).reverse ≠ [] := by simpa [← parts] using filled
      rw [splitFrom, if_neg some, List.reverse_reverse]
      rfl
  | cons c tail =>
      have breaks : isBreak c = true := by
        have head := List.head?_dropWhile_not (fun c => !isBreak c) text
        rw [later] at head
        simpa using head
      rw [splitFrom_break breaks, List.reverse_reverse]
      rfl

theorem firstLine_append {text : Line} (clean : ∀ c ∈ text, isBreak c = false) (rest : List Char) :
    firstLine (text ++ rest) = text ++ firstLine rest := by
  rw [firstLine, List.takeWhile_append_of_pos]
  · rfl
  · intro c member
    rw [clean c member]
    rfl

theorem firstLine_break {c : Char} (breaks : isBreak c = true) (rest : List Char) : firstLine (c :: rest) = [] := by
  simp [firstLine, breaks]

theorem exists_break {text : Line} {c : Char} (member : c ∈ text) (breaks : isBreak c = true) :
    ∃ d tail, text = firstLine text ++ d :: tail ∧ isBreak d = true := by
  cases later : text.dropWhile fun c => !isBreak c with
  | nil =>
      have clean := List.dropWhile_eq_nil_iff.mp later c member
      simp [breaks] at clean
  | cons d tail =>
      have head := List.head?_dropWhile_not (fun c => !isBreak c) text
      rw [later] at head
      refine ⟨d, tail, ?_, by simpa using head⟩
      rw [← later]
      exact List.takeWhile_append_dropWhile.symm

/-- A clean line before a boundary. -/
theorem splitlines_clean {text : Line} (clean : ∀ c ∈ text, isBreak c = false) {c : Char} (breaks : isBreak c = true)
    (rest : List Char) : splitlines (text ++ c :: rest) = text :: splitlines (afterBreak (c :: rest)) := by
  rw [splitlines_head (by simp), firstLine_append clean, firstLine_break breaks, List.append_nil, List.drop_left]

theorem firstLine_before {text : Line} {c : Char} (member : c ∈ text) (breaks : isBreak c = true) (rest : List Char) :
    firstLine (text ++ rest) = firstLine text := by
  rw [firstLine, List.takeWhile_append, if_neg]
  · rfl
  · intro all
    have clean := List.takeWhile_eq_self_iff.mp (List.takeWhile_prefix _ |>.eq_of_length all) c member
    simp [breaks] at clean

theorem splitlines_whole {text : Line} (clean : ∀ c ∈ text, isBreak c = false) (filled : text ≠ []) :
    splitlines text = [text] := by
  have same : firstLine text = text := by simpa [firstLine] using firstLine_append clean []
  rw [splitlines_head filled, same, List.drop_length]
  rfl

end Context

end FeatureRl
