import Mathlib.Data.List.Basic
import Mathlib.Data.List.DropRight
import Mathlib.Data.List.Infix

/-!
Texts with marks at their ends, and texts that are split at a doubled character, as `a && b` is at the
ampersands.
-/

namespace Pieces

variable {α : Type}

/-- A member of joined pieces is the mark between them or lies in a piece. -/
theorem mem_intercalate {mark c : α} {pieces : List (List α)} (member : c ∈ [mark].intercalate pieces) :
    c = mark ∨ ∃ piece ∈ pieces, c ∈ piece := by
  induction pieces with
  | nil => simp at member
  | cons piece rest ih =>
      by_cases last : rest = []
      · subst last
        rw [List.intercalate_singleton] at member
        exact .inr ⟨piece, List.mem_cons_self, member⟩
      · rw [List.intercalate_cons_of_ne_nil last] at member
        simp only [List.append_assoc, List.mem_append, List.mem_singleton] at member
        rcases member with here | rfl | later
        · exact .inr ⟨piece, List.mem_cons_self, here⟩
        · exact .inl rfl
        · exact (ih later).imp_right fun ⟨other, inside, found⟩ => ⟨other, List.mem_cons_of_mem _ inside, found⟩

/-! ### Ends -/

section

variable (p : α → Bool)

/-- The text without the marks at its ends. -/
def trim (text : List α) : List α := (text.dropWhile p).rdropWhile p

theorem dropWhile_of_all {marks text : List α} (all : ∀ c ∈ marks, p c = true) :
    (marks ++ text).dropWhile p = text.dropWhile p := by
  induction marks with
  | nil => rfl
  | cons c rest ih =>
      rw [List.cons_append, List.dropWhile_cons_of_pos (all c List.mem_cons_self)]
      exact ih fun other member => all other (List.mem_cons_of_mem _ member)

theorem rdropWhile_of_all {text marks : List α} (all : ∀ c ∈ marks, p c = true) :
    (text ++ marks).rdropWhile p = text.rdropWhile p := by
  rw [List.rdropWhile, List.rdropWhile, List.reverse_append,
    dropWhile_of_all p fun c member => all c (List.mem_reverse.mp member)]

theorem rdropWhile_dropWhile_append {text marks : List α} (all : ∀ c ∈ marks, p c = true) :
    ((text ++ marks).dropWhile p).rdropWhile p = (text.dropWhile p).rdropWhile p := by
  induction text with
  | nil =>
      have gone : marks.dropWhile p = [] := List.dropWhile_eq_nil_iff.mpr all
      rw [List.nil_append, gone, List.dropWhile_nil]
  | cons c rest ih =>
      cases mark : p c with
      | true => rw [List.cons_append, List.dropWhile_cons_of_pos mark, List.dropWhile_cons_of_pos mark, ih]
      | false =>
          have stays : ¬ p c = true := by simp [mark]
          rw [List.cons_append, List.dropWhile_cons_of_neg stays, List.dropWhile_cons_of_neg stays,
            ← List.cons_append, rdropWhile_of_all p all]

theorem trim_pad {before text after : List α} (front : ∀ c ∈ before, p c = true) (back : ∀ c ∈ after, p c = true) :
    trim p (before ++ text ++ after) = trim p text := by
  rw [trim, List.append_assoc, dropWhile_of_all p front, rdropWhile_dropWhile_append p back, trim]

theorem trim_spec (text : List α) : ∃ before after, text = before ++ trim p text ++ after ∧
    (∀ c ∈ before, p c = true) ∧ ∀ c ∈ after, p c = true := by
  refine ⟨text.takeWhile p, (text.dropWhile p).rtakeWhile p, ?_, fun c => List.mem_takeWhile_imp,
    fun c => List.mem_rtakeWhile_imp⟩
  rw [trim, List.append_assoc, List.rdropWhile_append_rtakeWhile, List.takeWhile_append_dropWhile]

theorem trim_trim {q : α → Bool} (weaker : ∀ c, q c = true → p c = true) (text : List α) :
    trim p (trim q text) = trim p text := by
  obtain ⟨before, after, whole, front, back⟩ := trim_spec q text
  have padded : trim p (before ++ trim q text ++ after) = trim p (trim q text) :=
    trim_pad p (fun c member => weaker c (front c member)) fun c member => weaker c (back c member)
  rwa [← whole, eq_comm] at padded

theorem trim_eq_self {text : List α} (first : ∀ c ∈ text.head?, p c = false)
    (last : ∀ c ∈ text.getLast?, p c = false) : trim p text = text := by
  cases text with
  | nil => rfl
  | cons c rest =>
      have stays : ¬ p c = true := by simp [first c rfl]
      rw [trim, List.dropWhile_cons_of_neg stays, List.rdropWhile_eq_self_iff]
      intro nonempty
      rw [last _ (List.getLast?_eq_some_getLast nonempty)]
      exact Bool.false_ne_true

theorem head?_trim_cons {c : α} (stays : p c = false) (rest : List α) : (trim p (c :: rest)).head? = some c := by
  have kept : ¬ p c = true := by simp [stays]
  rw [trim, List.dropWhile_cons_of_neg kept]
  have start : (c :: rest).rdropWhile p <+: c :: rest := List.rdropWhile_prefix p _
  cases shape : (c :: rest).rdropWhile p with
  | nil => exact absurd (List.rdropWhile_eq_nil_iff.mp shape c List.mem_cons_self) kept
  | cons first others =>
      rw [shape] at start
      rw [(List.cons_prefix_cons.mp start).1, List.head?_cons]

end

/-! ### Doubled characters -/

section

variable (bar : α)

/-- Neither a doubled character nor a last one that another could double. -/
def Clean : List α → Prop
  | [] => True
  | [single] => single ≠ bar
  | first :: second :: rest => ¬ (first = bar ∧ second = bar) ∧ Clean (second :: rest)

variable {bar}

theorem clean_append : ∀ {text other : List α}, Clean bar text → Clean bar other → Clean bar (text ++ other)
  | [], _, _, clean => clean
  | [_], [], alone, _ => alone
  | [_], _ :: _, alone, clean => ⟨fun doubled => alone doubled.1, clean⟩
  | _ :: _ :: _, _, clean, others => ⟨clean.1, clean_append clean.2 others⟩

theorem clean_of_notMem : ∀ {text : List α}, bar ∉ text → Clean bar text
  | [], _ => trivial
  | [_], absent => fun same => absent (same ▸ List.mem_cons_self)
  | _ :: _ :: _, absent =>
      ⟨fun doubled => absent (doubled.1 ▸ List.mem_cons_self),
        clean_of_notMem fun member => absent (List.mem_cons_of_mem _ member)⟩

section

variable [DecidableEq α]

instance decidableClean : (text : List α) → Decidable (Clean bar text)
  | [] => .isTrue trivial
  | [single] => inferInstanceAs (Decidable (single ≠ bar))
  | first :: second :: rest =>
      have := decidableClean (second :: rest)
      inferInstanceAs (Decidable (¬ (first = bar ∧ second = bar) ∧ Clean bar (second :: rest)))

variable (bar)

def holds : List α → Bool
  | first :: second :: rest => (decide (first = bar) && decide (second = bar)) || holds (second :: rest)
  | _ => false

def split : List α → List (List α)
  | [] => [[]]
  | [single] => [[single]]
  | first :: second :: rest =>
      if first = bar ∧ second = bar then [] :: split rest
      else (split (second :: rest)).modifyHead (first :: ·)

variable {bar}

theorem holds_of_clean : ∀ {text : List α}, Clean bar text → holds bar text = false
  | [], _ => rfl
  | [_], _ => rfl
  | first :: second :: rest, clean => by
      rw [holds, holds_of_clean clean.2, Bool.or_false, Bool.and_eq_false_iff, decide_eq_false_iff_not,
        decide_eq_false_iff_not]
      exact not_and_or.mp clean.1

theorem holds_iff : ∀ {text : List α}, holds bar text = true ↔ [bar, bar] <:+: text
  | [] => by simp [holds]
  | [single] => by
      constructor
      · intro found
        cases found
      · intro inside
        exact absurd inside.length_le (by simp)
  | first :: second :: rest => by
      rw [holds, Bool.or_eq_true, holds_iff, Bool.and_eq_true, decide_eq_true_eq, decide_eq_true_eq]
      refine (or_congr_left ⟨?_, ?_⟩).trans List.infix_cons_iff.symm
      · rintro ⟨rfl, rfl⟩
        exact ⟨rest, rfl⟩
      · rintro ⟨later, same⟩
        injection same with first_same others
        injection others with second_same
        exact ⟨first_same.symm, second_same.symm⟩

theorem holds_of_within {text other : List α} (inside : text <:+: other) (absent : holds bar other = false) :
    holds bar text = false := by
  rw [← Bool.not_eq_true] at absent ⊢
  exact fun found => absent (holds_iff.mpr ((holds_iff.mp found).trans inside))

theorem split_of_clean : ∀ {text : List α}, Clean bar text → split bar text = [text]
  | [], _ => rfl
  | [_], _ => rfl
  | first :: second :: rest, clean => by rw [split, if_neg clean.1, split_of_clean clean.2, List.modifyHead_cons]

theorem split_append : ∀ {text : List α} (rest : List α), Clean bar text →
    split bar (text ++ bar :: bar :: rest) = text :: split bar rest
  | [], rest, _ => by rw [List.nil_append, split, if_pos ⟨rfl, rfl⟩]
  | [single], rest, alone => by
      rw [List.cons_append, List.nil_append, split, if_neg fun doubled => alone doubled.1, split,
        if_pos ⟨rfl, rfl⟩, List.modifyHead_cons]
  | first :: second :: others, rest, clean => by
      have later := split_append rest clean.2
      rw [List.cons_append] at later
      rw [List.cons_append, List.cons_append, split, if_neg clean.1, later, List.modifyHead_cons]

theorem split_ne_nil : ∀ text : List α, split bar text ≠ []
  | [] => List.cons_ne_nil _ _
  | [_] => List.cons_ne_nil _ _
  | first :: second :: rest => by
      rw [split]
      split
      · exact List.cons_ne_nil _ _
      · intro none
        exact split_ne_nil (second :: rest) (List.modifyHead_eq_nil_iff.mp none)

theorem split_intercalate {pieces : List (List α)} (clean : ∀ piece ∈ pieces, Clean bar piece)
    (nonempty : pieces ≠ []) : split bar ([bar, bar].intercalate pieces) = pieces := by
  induction pieces with
  | nil => exact absurd rfl nonempty
  | cons piece rest ih =>
      have here := clean piece List.mem_cons_self
      cases rest with
      | nil => rw [List.intercalate_singleton, split_of_clean here]
      | cons next others =>
          rw [List.intercalate_cons_cons, List.append_assoc, List.cons_append, List.cons_append, List.nil_append,
            split_append _ here,
            ih (fun piece member => clean piece (List.mem_cons_of_mem _ member)) (List.cons_ne_nil _ _)]

theorem holds_intercalate {pieces : List (List α)} (several : 1 < pieces.length) :
    holds bar ([bar, bar].intercalate pieces) = true := by
  match pieces, several with
  | piece :: next :: others, _ =>
      rw [List.intercalate_cons_cons]
      exact holds_iff.mpr ⟨piece, [bar, bar].intercalate (next :: others), rfl⟩

/-- A piece holds no doubled character, so it is not split again. -/
theorem not_holds_of_mem_split : ∀ {text piece : List α}, piece ∈ split bar text → holds bar piece = false
  | [], piece, member => by
      obtain rfl := List.mem_singleton.mp member
      rfl
  | [single], piece, member => by
      obtain rfl := List.mem_singleton.mp member
      rfl
  | first :: second :: rest, piece, member => by
      rw [split] at member
      split at member
      next doubled =>
        rcases List.mem_cons.mp member with rfl | later
        · rfl
        · exact not_holds_of_mem_split later
      next other =>
        have pieces := fun part (inside : part ∈ split bar (second :: rest)) => not_holds_of_mem_split inside
        have starts : ∀ part ∈ (split bar (second :: rest)).head?, part = [] ∨ part.head? = some second := by
          intro part found
          cases rest with
          | nil =>
              obtain rfl := Option.some.inj found
              exact .inr rfl
          | cons third more =>
              rw [split] at found
              split at found
              · exact .inl (Option.some.inj found).symm
              · rw [List.head?_modifyHead] at found
                obtain ⟨tail, _, rfl⟩ := Option.map_eq_some_iff.mp found
                exact .inr rfl
        cases parts : split bar (second :: rest) with
        | nil => exact absurd parts (split_ne_nil _)
        | cons part others =>
            rw [parts, List.modifyHead_cons] at member
            rcases List.mem_cons.mp member with rfl | later
            · have absent := pieces part (parts ▸ List.mem_cons_self)
              rw [parts] at starts
              rcases starts part rfl with rfl | head
              · rfl
              · cases part with
                | nil => rfl
                | cons c tail =>
                    obtain rfl : c = second := Option.some.inj head
                    rw [holds, absent, Bool.or_false, Bool.and_eq_false_iff, decide_eq_false_iff_not,
                      decide_eq_false_iff_not]
                    exact not_and_or.mp other
            · exact pieces piece (parts ▸ List.mem_cons_of_mem _ later)

theorem split_cons_of_ne {c : α} (other : c ≠ bar) (text : List α) :
    split bar (c :: text) = (split bar text).modifyHead (c :: ·) := by
  cases text with
  | nil => rfl
  | cons next rest => rw [split, if_neg fun doubled => other doubled.1]

theorem split_append_of_notMem {marks : List α} (absent : bar ∉ marks) (text : List α) :
    split bar (marks ++ text) = (split bar text).modifyHead (marks ++ ·) := by
  induction marks with
  | nil =>
      cases pieces : split bar text with
      | nil => rw [List.nil_append, pieces, List.modifyHead_nil]
      | cons piece others => rw [List.nil_append, pieces, List.modifyHead_cons, List.nil_append]
  | cons c rest ih =>
      have other : c ≠ bar := fun same => absent (same ▸ List.mem_cons_self)
      rw [List.cons_append, split_cons_of_ne other, ih fun member => absent (List.mem_cons_of_mem _ member),
        List.modifyHead_modifyHead]
      rfl

/-- Text without the doubled character goes to the last piece. -/
theorem split_append_marks {marks : List α} (absent : bar ∉ marks) : ∀ text : List α,
    ∃ front last, split bar text = front ++ [last] ∧ split bar (text ++ marks) = front ++ [last ++ marks]
  | [] => ⟨[], [], rfl, split_of_clean (clean_of_notMem absent)⟩
  | [single] => by
      refine ⟨[], [single], rfl, ?_⟩
      cases marks with
      | nil => rfl
      | cons c rest =>
          have other : ¬ (single = bar ∧ c = bar) := fun doubled => absent (doubled.2 ▸ List.mem_cons_self)
          rw [List.cons_append, List.nil_append, split, if_neg other, split_of_clean (clean_of_notMem absent)]
          rfl
  | first :: second :: rest => by
      by_cases doubled : first = bar ∧ second = bar
      · obtain ⟨front, last, alone, padded⟩ := split_append_marks absent rest
        refine ⟨[] :: front, last, ?_, ?_⟩
        · rw [split, if_pos doubled, alone, List.cons_append]
        · rw [List.cons_append, List.cons_append, split, if_pos doubled, padded, List.cons_append]
      · obtain ⟨front, last, alone, padded⟩ := split_append_marks absent (second :: rest)
        rw [List.cons_append] at padded
        rw [List.cons_append, List.cons_append, split, split, if_neg doubled, if_neg doubled, alone, padded]
        cases front with
        | nil => exact ⟨[], first :: last, rfl, rfl⟩
        | cons piece others => exact ⟨(first :: piece) :: others, last, rfl, rfl⟩

/-- Marks at the ends of a text are marks at the ends of its pieces. -/
theorem map_trim_split {p : α → Bool} (kept : p bar = false) (text : List α) :
    (split bar (trim p text)).map (trim p) = (split bar text).map (trim p) := by
  have absent : ∀ marks : List α, (∀ c ∈ marks, p c = true) → bar ∉ marks := by
    intro marks all member
    rw [all bar member] at kept
    cases kept
  obtain ⟨before, after, whole, front_marks, back_marks⟩ := trim_spec p text
  obtain ⟨front, last, alone, padded⟩ := split_append_marks (absent after back_marks) (trim p text)
  have back : (split bar (trim p text ++ after)).map (trim p) = (split bar (trim p text)).map (trim p) := by
    have ends : trim p (last ++ after) = trim p last := by
      have same : trim p ([] ++ last ++ after) = trim p last :=
        trim_pad p (fun _ member => absurd member List.not_mem_nil) back_marks
      rwa [List.nil_append] at same
    rw [alone, padded, List.map_append, List.map_append, List.map_singleton, List.map_singleton, ends]
  have whole_split : split bar text = (split bar (trim p text ++ after)).modifyHead (before ++ ·) := by
    rw [← split_append_of_notMem (absent before front_marks), ← List.append_assoc, ← whole]
  rw [whole_split, ← back]
  cases split bar (trim p text ++ after) with
  | nil => rfl
  | cons piece others =>
      have starts : trim p (before ++ piece) = trim p piece := by
        have same : trim p (before ++ piece ++ []) = trim p piece :=
          trim_pad p front_marks fun _ member => absurd member List.not_mem_nil
        rwa [List.append_nil] at same
      rw [List.modifyHead_cons, List.map_cons, List.map_cons, starts]

end

end

end Pieces
