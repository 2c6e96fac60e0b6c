import FeatureRl.Lib.Utf8

/-!
Texts of lines. A line is text without line feeds followed by one line feed, so a text
splits into its complete lines and a torn last one in exactly one way.
-/

namespace Lines

/-- The complete lines, each with its line feed, and what follows the last of them. -/
def split : Bytes → List Bytes × Bytes
  | [] => ([], [])
  | byte :: rest =>
      let (complete, tail) := split rest
      if byte = 10 then ([10] :: complete, tail)
      else
        match complete with
        | [] => ([], byte :: tail)
        | line :: more => ((byte :: line) :: more, tail)

/-- One line with its line feed. -/
def IsLine (text : Bytes) : Prop := ∃ body, (10 : UInt8) ∉ body ∧ text = body ++ [10]

theorem split_tail {tail : Bytes} (torn : (10 : UInt8) ∉ tail) : split tail = ([], tail) := by
  induction tail with
  | nil => rfl
  | cons byte rest ih =>
      obtain ⟨other, later⟩ := not_or.mp (List.mem_cons.not.mp torn)
      rw [split, ih later]
      exact if_neg (Ne.symm other)

theorem split_line {body : Bytes} (clean : (10 : UInt8) ∉ body) (rest : Bytes) :
    split (body ++ 10 :: rest) = ((body ++ [10]) :: (split rest).1, (split rest).2) := by
  induction body with
  | nil => simp [split]
  | cons byte body ih =>
      obtain ⟨other, later⟩ := not_or.mp (List.mem_cons.not.mp clean)
      rw [List.cons_append, split, ih later]
      exact if_neg (Ne.symm other)

/-- Lines and a torn tail are found again in the text they make up. -/
theorem split_flatten {lines : List Bytes} (formed : ∀ line ∈ lines, IsLine line) {tail : Bytes}
    (torn : (10 : UInt8) ∉ tail) : split (lines.flatten ++ tail) = (lines, tail) := by
  induction lines with
  | nil => exact split_tail torn
  | cons line lines ih =>
      obtain ⟨body, clean, rfl⟩ := formed line List.mem_cons_self
      have later := ih fun other found => formed other (List.mem_cons_of_mem _ found)
      have shape : ((body ++ [10]) :: lines).flatten ++ tail =
          body ++ 10 :: (lines.flatten ++ tail) := by simp
      rw [shape, split_line clean, later]

theorem flatten_split (text : Bytes) : (split text).1.flatten ++ (split text).2 = text := by
  induction text with
  | nil => rfl
  | cons byte rest ih =>
      rw [split]
      generalize split rest = pieces at ih
      obtain ⟨complete, tail⟩ := pieces
      subst ih
      by_cases feed : byte = 10
      · simp [feed]
      · cases complete <;> simp [feed]

theorem tail_split (text : Bytes) : (10 : UInt8) ∉ (split text).2 := by
  induction text with
  | nil => simp [split]
  | cons byte rest ih =>
      rw [split]
      generalize split rest = pieces at ih
      obtain ⟨complete, tail⟩ := pieces
      by_cases feed : byte = 10
      · simpa [feed] using ih
      · cases complete with
        | nil => simpa [feed, Ne.symm feed] using ih
        | cons line more => simpa [feed] using ih

/-- A text that begins another one made of lines: some of the lines and a piece of the next. -/
theorem split_of_prefix {lines : List Bytes} (formed : ∀ line ∈ lines, IsLine line) {text : Bytes}
    (begins : text <+: lines.flatten) :
    ∃ count tail, split text = (lines.take count, tail) ∧ count ≤ lines.length ∧
      tail <+: (lines.drop count).flatten ∧ (tail ≠ [] → tail <+: (lines[count]?).getD []) := by
  induction lines generalizing text with
  | nil =>
      obtain rfl : text = [] := by simpa using begins
      exact ⟨0, [], rfl, Nat.le_refl _, by simp, by simp⟩
  | cons line lines ih =>
      have kept := formed line List.mem_cons_self
      obtain ⟨body, clean, rfl⟩ := kept
      by_cases whole : (body ++ [10]) <+: text
      · obtain ⟨rest, rfl⟩ := whole
        have later : rest <+: lines.flatten := by
          rw [List.flatten_cons, List.prefix_append_right_inj] at begins
          exact begins
        obtain ⟨count, tail, found, bounded, next, torn⟩ :=
          ih (fun other member => formed other (List.mem_cons_of_mem _ member)) later
        refine ⟨count + 1, tail, ?_, by simpa using bounded, by simpa using next,
          by simpa using torn⟩
        have shape : body ++ [10] ++ rest = body ++ 10 :: rest := by simp
        rw [shape, split_line clean, found, List.take_succ_cons]
      · have inside : text <+: body ++ [10] := by
          rcases List.prefix_or_prefix_of_prefix begins (List.prefix_append (body ++ [10]) lines.flatten)
            with shorter | longer
          · exact shorter
          · exact absurd longer whole
        have short : text <+: body := by
          rcases List.prefix_concat_iff.mp inside with same | within
          · exact absurd (same ▸ List.prefix_refl _) whole
          · exact within
        have torn : (10 : UInt8) ∉ text := fun found => clean (short.subset found)
        exact ⟨0, text, by simpa using split_tail torn, Nat.zero_le _, by simpa using begins,
          fun _ => by simpa using inside⟩

end Lines
