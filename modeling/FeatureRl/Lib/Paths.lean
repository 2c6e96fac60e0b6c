import Mathlib.Data.List.Basic
import Mathlib.Data.List.DropRight

/-!
Paths as text and as their parts between slashes: splitting and joining, the directories that a
path lies in, and trailing slashes.
-/

namespace Paths

abbrev Part := List Char

def split (text : List Char) : List Part := text.splitOn '/'

def join (parts : List Part) : List Char := List.intercalate ['/'] parts

theorem join_split (text : List Char) : join (split text) = text := List.intercalate_splitOn '/'

theorem split_join {parts : List Part} (clean : ∀ part ∈ parts, '/' ∉ part) (nonempty : parts ≠ []) :
    split (join parts) = parts := List.splitOn_intercalate '/' clean nonempty

theorem slash_notMem {text : List Char} {part : Part} (member : part ∈ split text) : '/' ∉ part := by
  induction text generalizing part with
  | nil =>
      obtain rfl : part = [] := by simpa [split] using member
      exact List.not_mem_nil
  | cons char rest ih =>
      rw [split, List.splitOn_cons_eq_if_modifyHead] at member
      split at member
      next =>
        rcases List.mem_cons.mp member with rfl | later
        · exact List.not_mem_nil
        · exact ih later
      next other =>
        cases parts : List.splitOn '/' rest with
        | nil => exact absurd parts (List.splitOn_ne_nil _ _)
        | cons first others =>
            rw [parts, List.modifyHead_cons] at member
            rcases List.mem_cons.mp member with rfl | later
            · have clean : '/' ∉ first := ih (by rw [split, parts]; exact List.mem_cons_self)
              rw [List.mem_cons, not_or]
              exact ⟨fun same => other (beq_iff_eq.mpr same.symm), clean⟩
            · exact ih (by rw [split, parts]; exact List.mem_cons_of_mem _ later)

theorem split_ne_nil (text : List Char) : split text ≠ [] := List.splitOn_ne_nil _ _

theorem split_append_slash (first second : List Char) :
    split (first ++ '/' :: second) = split first ++ split second := by
  induction first with
  | nil => simp [split, List.splitOn_cons_eq_if_modifyHead]
  | cons char rest ih =>
      simp only [split, List.cons_append, List.splitOn_cons_eq_if_modifyHead] at ih ⊢
      by_cases slash : (char == '/') = true
      · rw [if_pos slash, if_pos slash, ih, List.cons_append]
      · rw [if_neg slash, if_neg slash, ih]
        cases parts : List.splitOn '/' rest with
        | nil => exact absurd parts (List.splitOn_ne_nil _ _)
        | cons head others => rfl

theorem join_append {first second : List Part} (some : first ≠ []) (more : second ≠ []) :
    join (first ++ second) = join first ++ '/' :: join second := by
  induction first with
  | nil => exact absurd rfl some
  | cons part rest ih =>
      cases rest with
      | nil =>
          cases second with
          | nil => exact absurd rfl more
          | cons next others => simp [join, List.intercalate]
      | cons next others =>
          have whole := ih (List.cons_ne_nil next others)
          simp only [join, List.intercalate, List.cons_append, List.intersperse_cons_cons, List.flatten_cons] at whole ⊢
          rw [whole]
          simp

/-! ### Ancestors -/

/-- The paths of the directories that a path lies in, the outermost first. -/
def ancestors (text : List Char) : List (List Char) :=
  (List.range' 1 ((split text).length - 1)).map fun count => join ((split text).take count)

theorem mem_ancestors {above text : List Char} :
    above ∈ ancestors text ↔ above ++ ['/'] <+: text := by
  simp only [ancestors, List.mem_map, List.mem_range'_1]
  constructor
  · rintro ⟨count, ⟨positive, below⟩, rfl⟩
    have taken : (split text).take count ≠ [] := by
      intro empty
      have none := congrArg List.length empty
      rw [List.length_take, List.length_nil] at none
      omega
    have left : (split text).drop count ≠ [] := by
      intro empty
      have none := congrArg List.length empty
      rw [List.length_drop, List.length_nil] at none
      omega
    refine ⟨join ((split text).drop count), ?_⟩
    rw [List.append_assoc, List.singleton_append, ← join_append taken left, List.take_append_drop, join_split]
  · rintro ⟨rest, rfl⟩
    have whole : above ++ ['/'] ++ rest = above ++ '/' :: rest := by simp
    have one := List.length_pos_iff.mpr (split_ne_nil above)
    have two := List.length_pos_iff.mpr (split_ne_nil rest)
    rw [whole, split_append_slash, List.length_append]
    refine ⟨(split above).length, ⟨one, by omega⟩, ?_⟩
    rw [List.take_left, join_split]

/-! ### Trailing slashes -/

/-- The text without its trailing slashes. -/
def rstrip (text : List Char) : List Char := text.rdropWhile (· = '/')

theorem rstrip_rstrip (text : List Char) : rstrip (rstrip text) = rstrip text :=
  List.rdropWhile_idempotent _ text

theorem rstrip_eq_self {text : List Char} (ends : text.getLast? ≠ some '/') : rstrip text = text := by
  refine List.rdropWhile_eq_self_iff.mpr fun nonempty slash => ends ?_
  rw [List.getLast?_eq_getLast_of_ne_nil nonempty, of_decide_eq_true slash]

/-! ### Lexical and stepwise resolution -/

/-- The part names an entry: it is neither empty nor a dot segment. -/
def named (part : Part) : Bool := part ≠ [] && part ≠ ['.'] && part ≠ ['.', '.']

/-- The stack of a relative path, innermost part first, after one more part. -/
def push (stack : List Part) (part : Part) : List Part :=
  if part = [] ∨ part = ['.'] then stack
  else if part ≠ ['.', '.'] ∨ stack = [] ∨ stack.head? = some ['.', '.'] then part :: stack
  else stack.tail

theorem push_named {part : Part} (entry : named part = true) (stack : List Part) : push stack part = part :: stack := by
  simp only [named, Bool.and_eq_true, decide_eq_true_eq] at entry
  obtain ⟨⟨solid, notDot⟩, notUp⟩ := entry
  rw [push, if_neg (by simp [solid, notDot]), if_pos (Or.inl notUp)]

theorem foldl_push_named {parts : List Part} (entries : ∀ part ∈ parts, named part = true) (stack : List Part) :
    parts.foldl push stack = parts.reverse ++ stack := by
  induction parts generalizing stack with
  | nil => rfl
  | cons part rest ih =>
      rw [List.foldl_cons, push_named (entries part List.mem_cons_self),
        ih fun other member => entries other (List.mem_cons_of_mem _ member), List.reverse_cons, List.append_assoc,
        List.singleton_append]

theorem mem_foldl_push {parts stack : List Part} {part : Part} (member : part ∈ parts.foldl push stack) :
    part ∈ stack ∨ part ∈ parts := by
  induction parts generalizing stack with
  | nil => exact Or.inl member
  | cons first rest ih =>
      rcases ih member with pushed | later
      · rw [push] at pushed
        split at pushed
        next => exact Or.inl pushed
        next =>
          split at pushed
          next =>
            rcases List.mem_cons.mp pushed with rfl | below
            · exact Or.inr List.mem_cons_self
            · exact Or.inl below
          next => exact Or.inl (List.mem_of_mem_tail pushed)
      · exact Or.inr (List.mem_cons_of_mem _ later)

/-- A path that left its root stays outside. -/
theorem escaped_push {parts stack : List Part} (escaped : ['.', '.'] ∈ stack.getLast?) :
    ['.', '.'] ∈ (parts.foldl push stack).getLast? := by
  induction parts generalizing stack with
  | nil => exact escaped
  | cons part rest ih =>
      apply ih
      rw [push]
      split
      next => exact escaped
      next =>
        split
        next =>
          cases stack with
          | nil => cases escaped
          | cons top below => rwa [List.getLast?_cons_cons]
        next plain =>
          cases stack with
          | nil => cases escaped
          | cons top below =>
              simp only [List.head?_cons, Option.some.injEq, not_or] at plain
              cases below with
              | nil =>
                  simp only [List.getLast?_singleton, Option.mem_some_iff] at escaped
                  exact absurd escaped plain.2.2
              | cons next others => rwa [List.getLast?_cons_cons] at escaped

inductive Node where
  | directory
  | file
  | link
  | missing
deriving DecidableEq, Repr

/-- The file that the parts lead to, one after another, from a directory. Parts beyond a file, a link, a
missing entry and the parent of the root lead nowhere. -/
def walk (node : List Part → Node) : List Part → List Part → Option (List Part)
  | _, [] => none
  | stack, part :: rest =>
    if part = [] ∨ part = ['.'] then walk node stack rest
    else if part = ['.', '.'] then
      match stack with
      | [] => none
      | _ :: above => walk node above rest
    else
      match node (part :: stack) with
      | .directory => walk node (part :: stack) rest
      | .file => if rest = [] then some (part :: stack) else none
      | .link => none
      | .missing => none

/-- Each entry that the parts name before the last part is a directory where it stands. -/
def Passable (node : List Part → Node) (stack parts : List Part) : Prop :=
  ∀ front part rest, parts = front ++ part :: rest → rest ≠ [] → named part = true →
    node ((front ++ [part]).foldl push stack) = .directory

theorem passable_cons {node : List Part → Node} {stack rest : List Part} {part : Part} :
    Passable node stack (part :: rest) ↔
      (rest ≠ [] → named part = true → node (push stack part) = .directory) ∧
        Passable node (push stack part) rest := by
  constructor
  · intro passable
    constructor
    · exact passable [] part rest rfl
    · intro front next others same
      exact passable (part :: front) next others (congrArg (part :: ·) same)
  · rintro ⟨here, later⟩ front next others same
    cases front with
    | nil =>
        obtain ⟨rfl, rfl⟩ := List.cons.inj same
        exact here
    | cons first front =>
        obtain ⟨rfl, rfl⟩ := List.cons.inj same
        exact later front next others rfl

theorem walk_file {node : List Part → Node} {stack parts found : List Part}
    (walked : walk node stack parts = some found) : node found = .file := by
  induction parts generalizing stack with
  | nil => cases walked
  | cons part rest ih =>
      simp only [walk] at walked
      split at walked
      next => exact ih walked
      next =>
        split at walked
        next =>
          cases stack with
          | nil => cases walked
          | cons top above => exact ih walked
        next =>
          split at walked
          next => exact ih walked
          next file =>
            split at walked
            next => exact Option.some.inj walked ▸ file
            next => cases walked
          next => cases walked
          next => cases walked

/-- Where the lexical normal form is a file inside the root, the walk reaches a file exactly if it only
passes directories. -/
theorem walk_isSome_iff {node : List Part → Node} (above : ∀ part stack,
    node (part :: stack) = .directory → node stack = .directory) {stack parts : List Part}
    (directory : node stack = .directory) (clean : ['.', '.'] ∉ stack) (inside : ['.', '.'] ∉ parts.foldl push stack)
    (file : node (parts.foldl push stack) = .file) :
    (walk node stack parts).isSome = true ↔ Passable node stack parts := by
  induction parts generalizing stack with
  | nil =>
      rw [List.foldl_nil, directory] at file
      cases file
  | cons part rest ih =>
      rw [List.foldl_cons] at inside file
      rw [passable_cons]
      simp only [walk]
      by_cases blank : part = [] ∨ part = ['.']
      · have same : push stack part = stack := if_pos blank
        have unnamed : named part = false := by
          rcases blank with rfl | rfl
          · rfl
          · rfl
        rw [if_pos blank]
        rw [same] at inside file ⊢
        rw [ih directory clean inside file]
        simp [unnamed]
      · rw [if_neg blank]
        by_cases up : part = ['.', '.']
        · have unnamed : named part = false := by rw [up]; rfl
          rw [if_pos up]
          cases stack with
          | nil =>
              have escaped : ['.', '.'] ∈ (push [] part).getLast? := by rw [up]; decide
              exact absurd (List.mem_of_getLast? (escaped_push escaped)) inside
          | cons top below =>
              rw [List.mem_cons, not_or] at clean
              have popped : push (top :: below) part = below := by
                rw [push, if_neg blank, if_neg (by simp [up, Ne.symm clean.1])]
                rfl
              rw [popped] at inside file ⊢
              rw [ih (above _ _ directory) clean.2 inside file]
              simp [unnamed]
        · have entry : named part = true := by
            rw [not_or] at blank
            simp [named, blank, up]
          rw [if_neg up]
          rw [push_named entry] at inside file ⊢
          by_cases last : rest = []
          · rw [last] at file ⊢
            rw [List.foldl_nil] at file
            rw [file]
            simp [Passable]
          · cases there : node (part :: stack) with
            | directory =>
                rw [ih there (by simp [Ne.symm up, clean]) inside file]
                simp
            | file => simp [last, entry]
            | link => simp [last, entry]
            | missing => simp [last, entry]

end Paths
