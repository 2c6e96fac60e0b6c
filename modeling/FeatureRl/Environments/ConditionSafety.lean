import FeatureRl.Environments.Conditions

/-!
A condition that the analysis takes as false on Linux is false there: a true condition has an alternative whose
clauses are all true, and no clause that is taken as false is true.
-/

namespace FeatureRl

open Pieces (trim split holds Clean)

namespace CiText

/-! ### Readers -/

theorem getLast?_of_suffix {text rest : List Char} (suffix : rest <:+ text) {c : Char}
    (last : rest.getLast? = some c) : text.getLast? = some c := by
  obtain ⟨front, rfl⟩ := suffix
  rw [List.getLast?_append, last, Option.some_or]

theorem skip_suffix (text : List Char) : skip text <:+ text := List.dropWhile_suffix _

theorem subject_spec {text : List Char} {found : Subject × List Char} (read : subject text = some found) :
    found.2 <:+ text ∧ ∀ c ∈ text.head?, c = 'r' ∨ c = 'm' := by
  rw [subject] at read
  split at read
  next rest starts =>
    obtain rfl := Option.some.inj read
    rw [← List.append_eq_of_isPrefixOf?_eq_some starts]
    exact ⟨List.suffix_append _ _, fun c head => .inl (Option.some.inj head).symm⟩
  next =>
    obtain ⟨rest, starts, rfl⟩ := Option.map_eq_some_iff.mp read
    rw [← List.append_eq_of_isPrefixOf?_eq_some starts]
    exact ⟨List.suffix_append _ _, fun c head => .inr (Option.some.inj head).symm⟩

theorem name_spec {text : List Char} {found : Bool × List Char} (read : name text = some found) :
    found.2 <:+ text ∧ ∀ c ∈ text.head?, c = 's' ∨ c = 'c' := by
  rw [name] at read
  split at read
  next rest starts =>
    obtain rfl := Option.some.inj read
    rw [← List.append_eq_of_isPrefixOf?_eq_some starts]
    exact ⟨List.suffix_append _ _, fun c head => .inl (Option.some.inj head).symm⟩
  next =>
    obtain ⟨rest, starts, rfl⟩ := Option.map_eq_some_iff.mp read
    rw [← List.append_eq_of_isPrefixOf?_eq_some starts]
    exact ⟨List.suffix_append _ _, fun c head => .inr (Option.some.inj head).symm⟩

theorem operator_suffix {text : List Char} {found : Bool × List Char} (read : operator text = some found) :
    found.2 <:+ text := by
  rw [operator.eq_def] at read
  split at read
  · obtain rfl := Option.some.inj read
    exact List.suffix_append ['=', '='] _
  · obtain rfl := Option.some.inj read
    exact List.suffix_append ['!', '='] _
  · cases read

theorem quoted_last {text value : List Char} (read : quoted text = some value) :
    ∃ quote, text.getLast? = some quote ∧ isQuote quote = true := by
  cases text with
  | nil => cases read
  | cons quote rest =>
      simp only [quoted] at read
      split at read
      next found =>
        refine ⟨quote, ?_, found.1⟩
        have suffix : [quote] <:+ rest := found.2.2 ▸ List.dropWhile_suffix _
        exact getLast?_of_suffix (suffix.trans (List.suffix_cons _ _)) rfl
      next => cases read

theorem comparison_spec {clause : List Char} {found : Comparison} (read : comparison clause = some found) :
    (∀ c ∈ clause.head?, c = 'r' ∨ c = 'm') ∧ ∃ quote, clause.getLast? = some quote ∧ isQuote quote = true := by
  rw [comparison] at read
  obtain ⟨⟨subject, afterSubject⟩, first, read⟩ := Option.bind_eq_some_iff.mp read
  obtain ⟨⟨equal, afterOperator⟩, second, read⟩ := Option.bind_eq_some_iff.mp read
  obtain ⟨value, third, _⟩ := Option.bind_eq_some_iff.mp read
  obtain ⟨suffix, head⟩ := subject_spec first
  obtain ⟨quote, last, quotes⟩ := quoted_last third
  refine ⟨head, quote, ?_, quotes⟩
  have inside := (operator_suffix second).trans ((skip_suffix _).trans suffix)
  exact getLast?_of_suffix ((skip_suffix _).trans inside) last

theorem callBody_spec {clause : List Char} {found : Call} (read : callBody clause = some found) :
    (∀ c ∈ clause.head?, c = 's' ∨ c = 'c') ∧ ∃ quote, clause.getLast? = some quote ∧ isQuote quote = true := by
  rw [callBody] at read
  obtain ⟨⟨starts, afterName⟩, first, read⟩ := Option.bind_eq_some_iff.mp read
  obtain ⟨⟨subject, afterSubject⟩, second, read⟩ := Option.bind_eq_some_iff.mp read
  obtain ⟨afterComma, third, read⟩ := Option.bind_eq_some_iff.mp read
  obtain ⟨value, fourth, _⟩ := Option.bind_eq_some_iff.mp read
  obtain ⟨suffix, head⟩ := name_spec first
  obtain ⟨quote, last, quotes⟩ := quoted_last fourth
  refine ⟨head, quote, ?_, quotes⟩
  have comma : afterComma <:+ skip afterSubject := ⟨[','], List.append_eq_of_isPrefixOf?_eq_some third⟩
  have inside := comma.trans ((skip_suffix _).trans ((subject_spec second).1.trans ((skip_suffix _).trans suffix)))
  exact getLast?_of_suffix ((skip_suffix _).trans inside) last

/-- A text that a reader accepts has no blank and no parenthesis at its ends. -/
theorem trim_of_ends {text : List Char} {first second : Char} (edges : isEdge first = false ∧ isEdge second = false)
    (head : ∀ c ∈ text.head?, c = first ∨ c = second)
    (last : ∃ quote, text.getLast? = some quote ∧ isQuote quote = true) : trim isEdge text = text := by
  obtain ⟨quote, is_last, quotes⟩ := last
  refine Pieces.trim_eq_self isEdge ?_ ?_
  · intro c member
    rcases head c member with rfl | rfl
    · exact edges.1
    · exact edges.2
  · intro c member
    obtain rfl := Option.some.inj (is_last.symm.trans member)
    rcases Bool.or_eq_true_iff.mp quotes with same | same
    · obtain rfl := of_decide_eq_true same
      decide
    · obtain rfl := of_decide_eq_true same
      decide

/-! ### Names of systems -/

section

variable (unicode : Unicode) {labels : Labels}

theorem splitOnP_within (p : Char → Bool) (text : List Char) :
    (∀ piece ∈ (text.splitOnP p).head?, piece <+: text) ∧ ∀ piece ∈ text.splitOnP p, piece <:+: text := by
  induction text with
  | nil => simp [List.splitOnP_nil]
  | cons c rest ih =>
      rw [List.splitOnP_cons_eq_if_modifyHead]
      split
      · refine ⟨fun piece head => Option.some.inj head ▸ List.nil_prefix, fun piece member => ?_⟩
        rcases List.mem_cons.mp member with rfl | later
        · exact List.nil_infix
        · exact (ih.2 piece later).trans (List.suffix_cons _ _).isInfix
      · cases pieces : rest.splitOnP p with
        | nil => exact absurd pieces (List.splitOnP_ne_nil _ _)
        | cons first others =>
            rw [pieces] at ih
            have starts : c :: first <+: c :: rest := (List.prefix_cons_inj c).mpr (ih.1 first rfl)
            refine ⟨fun piece head => Option.some.inj head ▸ starts, fun piece member => ?_⟩
            rcases List.mem_cons.mp member with rfl | later
            · exact starts.isInfix
            · exact (ih.2 piece (List.mem_cons_of_mem _ later)).trans (List.suffix_cons _ _).isInfix

theorem trim_within (p : Char → Bool) (text : List Char) : trim p text <:+: text := by
  obtain ⟨before, after, whole, _, _⟩ := Pieces.trim_spec p text
  exact ⟨before, after, whole.symm⟩

/-- What counts as another system names one. -/
theorem nonLinux_names {value : List Char} (other : nonLinux unicode value = true) :
    ∃ name ∈ otherNames, name <:+: lower unicode value := by
  rw [nonLinux] at other
  split at other
  · cases other
  · obtain ⟨token, member, found⟩ := List.any_eq_true.mp (Bool.and_eq_true_iff.mp other).1
    obtain ⟨name, named, starts⟩ := List.any_eq_true.mp found
    have begins : name <+: token := List.isPrefixOf_iff_prefix.mp starts
    refine ⟨name, named, begins.isInfix.trans ?_⟩
    have inside := (splitOnP_within _ _).2 token (List.mem_of_mem_filter member)
    exact inside.trans (((trim_within isQuote _).trans (trim_within isSpace _)).flatMap unicode.lower)

theorem Linux.not_named (linux : Linux unicode labels) (subject : Subject) {name : List Char}
    (named : name ∈ otherNames) : ¬ name <:+: lower unicode (labels.of subject) := by
  cases subject with
  | runner =>
      rw [Labels.of, linux.runner]
      revert name
      decide
  | matrix => exact linux.matrix name named

/-- No text that names another system occurs in the label of a Linux runner. -/
theorem Linux.not_within (linux : Linux unicode labels) (subject : Subject) {value : List Char}
    (other : nonLinux unicode value = true) : ¬ lower unicode value <:+: lower unicode (labels.of subject) := by
  obtain ⟨name, named, inside⟩ := nonLinux_names unicode other
  exact fun whole => linux.not_named unicode subject named (inside.trans whole)

/-! ### Clauses -/

/-- The one comparison that is no statement about Linux: the label of a matrix need not be `linux`. -/
def Supported (text : List Char) : Prop :=
  ∀ found, comparison (trim isEdge text) = some found → found.subject = .matrix → found.equal = false →
    lower unicode found.value ≠ "linux".toList

instance decidableSupported (text : List Char) : Decidable (Supported unicode text) :=
  inferInstanceAs (Decidable (∀ found ∈ comparison (trim isEdge text), found.subject = .matrix →
    found.equal = false → lower unicode found.value ≠ "linux".toList))

theorem trim_strip (text : List Char) : trim isEdge (strip text) = trim isEdge text :=
  Pieces.trim_trim isEdge (fun _ space => by rw [isEdge, space, Bool.true_or]) text

theorem comparison_trim {clause : List Char} {found : Comparison}
    (read : comparison (trim isMark clause) = some found) :
    comparison (trim isEdge clause) = some found := by
  obtain ⟨head, last⟩ := comparison_spec read
  have same := trim_of_ends (by decide) head last
  rw [Pieces.trim_trim isEdge (fun _ mark => by rw [isEdge, mark, Bool.or_true])] at same
  rwa [same]

theorem call_trim {clause : List Char} {found : Call} (read : call clause = some found) :
    callBody (trim isEdge clause) = some found ∧ comparison (trim isEdge clause) = none := by
  rw [call] at read
  split at read
  next closed =>
    obtain ⟨front, rfl⟩ := List.getLast?_eq_some_iff.mp closed
    rw [List.dropLast_concat] at read
    obtain ⟨head, last⟩ := callBody_spec read
    have body := trim_of_ends (by decide) head last
    have padded := @Pieces.trim_pad Char isEdge [] (front.rdropWhile isSpace)
      (front.rtakeWhile isSpace ++ [')']) (by simp) (by
        intro c member
        rcases List.mem_append.mp member with blank | bracket
        · rw [isEdge, List.mem_rtakeWhile_imp blank, Bool.true_or]
        · obtain rfl := List.mem_singleton.mp bracket
          decide)
    rw [List.nil_append, ← List.append_assoc, List.rdropWhile_append_rtakeWhile, body] at padded
    rw [padded]
    refine ⟨read, ?_⟩
    cases other : comparison (front.rdropWhile isSpace) with
    | none => rfl
    | some value =>
        obtain ⟨heads, _, nonempty, _⟩ := comparison_spec other
        cases text : front.rdropWhile isSpace with
        | nil =>
            rw [text] at nonempty
            cases nonempty
        | cons c rest =>
            rw [text] at heads head
            rcases heads c rfl with rfl | rfl
            · exact absurd (head _ rfl) (by decide)
            · exact absurd (head _ rfl) (by decide)
  next => cases read

/-- A clause that is taken as false is false on Linux, whatever parentheses are left at its ends. -/
theorem clauseFalse_sound (linux : Linux unicode labels) (atoms : List Char → Bool) {text clause : List Char}
    (supported : Supported unicode text) (bare : trim isEdge clause = trim isEdge text)
    (excluded : clauseFalse unicode clause = true) : evalOperand unicode labels atoms text = false := by
  rw [evalOperand, ← bare]
  rw [clauseFalse, Bool.or_eq_true] at excluded
  rcases excluded with of_call | of_comparison
  · cases read : call clause with
    | none =>
        rw [read] at of_call
        cases of_call
    | some found =>
        rw [read] at of_call
        obtain ⟨body, none⟩ := call_trim read
        rw [none, body]
        have absent := linux.not_within unicode found.subject of_call
        simp only [Call.eval]
        split
        · exact decide_eq_false fun starts => absent starts.isInfix
        · exact decide_eq_false absent
  · cases read : comparison (trim isMark clause) with
    | none =>
        rw [read] at of_comparison
        cases of_comparison
    | some found =>
        rw [read] at of_comparison
        have whole := comparison_trim read
        rw [whole]
        simp only [Comparison.eval]
        cases equal : found.equal with
        | true =>
            simp only [equal, ↓reduceIte] at of_comparison
            have absent := linux.not_within unicode found.subject of_comparison
            have different : lower unicode (labels.of found.subject) ≠ lower unicode found.value := by
              intro same
              rw [same] at absent
              exact absent List.infix_rfl
            simp [different]
        | false =>
            simp only [equal, Bool.false_eq_true, ↓reduceIte, decide_eq_true_eq] at of_comparison
            cases subject : found.subject with
            | runner => simp [Labels.of, linux.runner, of_comparison]
            | matrix => exact absurd of_comparison (supported found (bare ▸ whole) subject equal)

end

/-! ### Alternatives -/

namespace Condition

/-- One operand, with negations and parentheses around it. -/
def Single : Condition → Prop
  | operand _ => True
  | negation inner => inner.Single
  | both _ _ => False
  | either _ _ => False
  | group _ _ inner => inner.Single

/-- Only single operands are negated, and no label of a matrix is compared with `linux` by `!=`. -/
def Plain (unicode : Unicode) : Condition → Prop
  | operand text => Supported unicode text.val
  | negation inner => inner.Single
  | both left right => left.Plain unicode ∧ right.Plain unicode
  | either left right => left.Plain unicode ∧ right.Plain unicode
  | group _ _ inner => inner.Plain unicode

end Condition

structure Clause where
  text : List Char
  value : Bool

/-- The last alternative of the first and the first of the second become one. -/
def merge : List (List Clause) → List (List Clause) → List (List Clause)
  | [], more => more
  | [last], [] => [last]
  | [last], next :: rest => (last ++ next) :: rest
  | first :: second :: others, more => first :: merge (second :: others) more

/-- The clauses of each alternative of a condition, when `before` and `after` stand around it. -/
def Condition.alternatives (unicode : Unicode) (labels : Labels) (atoms : List Char → Bool) :
    Condition → List Char → List Char → List (List Clause)
  | .operand text, before, after =>
      [[⟨before ++ text.val ++ after, evalOperand unicode labels atoms text.val⟩]]
  | .negation inner, before, after =>
      [[⟨before ++ ('!' :: '(' :: (inner.text ++ [')'])) ++ after, !inner.eval unicode labels atoms⟩]]
  | .both left right, before, after =>
      merge (left.alternatives unicode labels atoms before []) (right.alternatives unicode labels atoms [] after)
  | .either left right, before, after =>
      left.alternatives unicode labels atoms before [] ++ right.alternatives unicode labels atoms [] after
  | .group front back inner, before, after =>
      inner.alternatives unicode labels atoms (before ++ front.val ++ ['(']) (')' :: (back.val ++ after))

def conjunctionText (clauses : List Clause) : List Char := ['&', '&'].intercalate (clauses.map Clause.text)

def alternativesText (pieces : List (List Clause)) : List Char :=
  ['|', '|'].intercalate (pieces.map conjunctionText)

theorem intercalate_append {separator : List Char} {first second : List (List Char)} (some : first ≠ [])
    (more : second ≠ []) : separator.intercalate (first ++ second) =
      separator.intercalate first ++ separator ++ separator.intercalate second := by
  induction first with
  | nil => exact absurd rfl some
  | cons text rest ih =>
      cases rest with
      | nil =>
          rw [List.singleton_append, List.intercalate_cons_of_ne_nil more, List.intercalate_singleton]
      | cons next others =>
          rw [List.cons_append, List.intercalate_cons_of_ne_nil (by simp), ih (List.cons_ne_nil _ _),
            List.intercalate_cons_cons]
          simp only [List.append_assoc]

/-- A list of alternatives, none of which is without clauses. -/
def Filled (pieces : List (List Clause)) : Prop := pieces ≠ [] ∧ ∀ piece ∈ pieces, piece ≠ []

theorem Filled.append {first second : List (List Clause)} (some : Filled first) (more : Filled second) :
    Filled (first ++ second) := by
  refine ⟨fun none => some.1 (List.append_eq_nil_iff.mp none).1, fun piece member => ?_⟩
  rcases List.mem_append.mp member with inside | inside
  · exact some.2 piece inside
  · exact more.2 piece inside

theorem merge_spec {first second : List (List Clause)} (some : Filled first) (more : Filled second) :
    Filled (merge first second) ∧
      alternativesText (merge first second) = alternativesText first ++ '&' :: '&' :: alternativesText second := by
  induction first with
  | nil => exact absurd rfl some.1
  | cons piece rest ih =>
      cases rest with
      | nil =>
          cases second with
          | nil => exact absurd rfl more.1
          | cons next others =>
              rw [merge]
              have here := some.2 piece List.mem_cons_self
              have there := more.2 next List.mem_cons_self
              refine ⟨⟨List.cons_ne_nil _ _, fun other member => ?_⟩, ?_⟩
              · rcases List.mem_cons.mp member with rfl | later
                · exact fun none => here (List.append_eq_nil_iff.mp none).1
                · exact more.2 other (List.mem_cons_of_mem _ later)
              · have joined : conjunctionText (piece ++ next) =
                    conjunctionText piece ++ ['&', '&'] ++ conjunctionText next := by
                  rw [conjunctionText, List.map_append,
                    intercalate_append (fun none => here (List.map_eq_nil_iff.mp none))
                      (fun none => there (List.map_eq_nil_iff.mp none))]
                  rfl
                cases others with
                | nil =>
                    simp only [alternativesText, List.map_cons, List.map_nil, List.intercalate_singleton, joined,
                      List.append_assoc, List.cons_append, List.nil_append]
                | cons third more =>
                    simp only [alternativesText, List.map_cons, List.map_nil, List.intercalate_singleton,
                      List.intercalate_cons_cons, joined, List.append_assoc, List.cons_append, List.nil_append]
      | cons next others =>
          rw [merge]
          have later : Filled (next :: others) :=
            ⟨List.cons_ne_nil _ _, fun other member => some.2 other (List.mem_cons_of_mem _ member)⟩
          obtain ⟨filled, text⟩ := ih later
          refine ⟨⟨List.cons_ne_nil _ _, fun other member => ?_⟩, ?_⟩
          · rcases List.mem_cons.mp member with rfl | inside
            · exact some.2 _ List.mem_cons_self
            · exact filled.2 other inside
          · have nonempty : (merge (next :: others) second).map conjunctionText ≠ [] :=
              fun none => filled.1 (List.map_eq_nil_iff.mp none)
            simp only [alternativesText] at text ⊢
            rw [List.map_cons, List.intercalate_cons_of_ne_nil nonempty, text]
            simp only [List.map_cons, List.intercalate_cons_cons, List.append_assoc]

theorem mem_merge {first second : List (List Clause)} {piece : List Clause} {clause : Clause}
    (member : piece ∈ merge first second) (inside : clause ∈ piece) :
    ∃ other ∈ first ++ second, clause ∈ other := by
  induction first with
  | nil =>
      rw [merge] at member
      exact ⟨piece, member, inside⟩
  | cons last rest ih =>
      cases rest with
      | nil =>
          cases second with
          | nil =>
              rw [merge] at member
              exact ⟨piece, by simpa using member, inside⟩
          | cons next others =>
              rw [merge] at member
              rcases List.mem_cons.mp member with rfl | later
              · rcases List.mem_append.mp inside with left | right
                · exact ⟨last, by simp, left⟩
                · exact ⟨next, by simp, right⟩
              · exact ⟨piece, by simp [later], inside⟩
      | cons next others =>
          rw [merge] at member
          rcases List.mem_cons.mp member with rfl | later
          · exact ⟨piece, by simp, inside⟩
          · obtain ⟨other, among, found⟩ := ih later
            exact ⟨other, List.mem_cons_of_mem _ among, found⟩

def AllTrue (piece : List Clause) : Prop := ∀ clause ∈ piece, clause.value = true

/-- The alternatives that are merged hold together when the merged one does. -/
theorem exists_merge {first second : List (List Clause)} (left : ∃ piece ∈ first, AllTrue piece)
    (right : ∃ piece ∈ second, AllTrue piece) : ∃ piece ∈ merge first second, AllTrue piece := by
  obtain ⟨piece, member, holds⟩ := left
  obtain ⟨other, among, others_hold⟩ := right
  induction first with
  | nil => exact absurd member List.not_mem_nil
  | cons last rest ih =>
      cases rest with
      | nil =>
          obtain rfl := List.mem_singleton.mp member
          cases second with
          | nil => exact absurd among List.not_mem_nil
          | cons next more =>
              rw [merge]
              rcases List.mem_cons.mp among with rfl | later
              · refine ⟨piece ++ other, List.mem_cons_self, fun clause inside => ?_⟩
                rcases List.mem_append.mp inside with here | there
                · exact holds clause here
                · exact others_hold clause there
              · exact ⟨other, List.mem_cons_of_mem _ later, others_hold⟩
      | cons next more =>
          rw [merge]
          rcases List.mem_cons.mp member with rfl | later
          · exact ⟨piece, List.mem_cons_self, holds⟩
          · obtain ⟨found, inside, all⟩ := ih later
            exact ⟨found, List.mem_cons_of_mem _ inside, all⟩

section

variable (unicode : Unicode) (labels : Labels) (atoms : List Char → Bool)

theorem filled_alternatives (condition : Condition) (before after : List Char) :
    Filled (condition.alternatives unicode labels atoms before after) ∧
      alternativesText (condition.alternatives unicode labels atoms before after) =
        before ++ condition.text ++ after := by
  induction condition generalizing before after with
  | operand text =>
      refine ⟨⟨List.cons_ne_nil _ _, fun piece member => ?_⟩, ?_⟩
      · obtain rfl := List.mem_singleton.mp member
        exact List.cons_ne_nil _ _
      · simp [Condition.alternatives, alternativesText, conjunctionText, Condition.text]
  | negation inner _ =>
      refine ⟨⟨List.cons_ne_nil _ _, fun piece member => ?_⟩, ?_⟩
      · obtain rfl := List.mem_singleton.mp member
        exact List.cons_ne_nil _ _
      · simp [Condition.alternatives, alternativesText, conjunctionText, Condition.text]
  | both left right ihl ihr =>
      obtain ⟨some, first⟩ := ihl before []
      obtain ⟨more, second⟩ := ihr [] after
      obtain ⟨filled, text⟩ := merge_spec some more
      refine ⟨filled, ?_⟩
      rw [Condition.alternatives, text, first, second, Condition.text]
      simp only [List.append_assoc, List.nil_append, List.cons_append]
  | either left right ihl ihr =>
      obtain ⟨some, first⟩ := ihl before []
      obtain ⟨more, second⟩ := ihr [] after
      refine ⟨some.append more, ?_⟩
      rw [alternativesText] at first second
      rw [Condition.alternatives, alternativesText, List.map_append,
        intercalate_append (by simpa using some.1) (by simpa using more.1), first, second, Condition.text]
      simp only [List.append_assoc, List.nil_append, List.cons_append]
  | group front back inner ih =>
      obtain ⟨filled, text⟩ := ih (before ++ front.val ++ ['(']) (')' :: (back.val ++ after))
      refine ⟨filled, ?_⟩
      rw [Condition.alternatives, text, Condition.text]
      simp only [List.append_assoc, List.nil_append, List.cons_append]

/-- A true condition has an alternative, read without its parentheses, whose clauses are all true. -/
theorem exists_true {condition : Condition} (truth : condition.eval unicode labels atoms = true)
    (before after : List Char) :
    ∃ piece ∈ condition.alternatives unicode labels atoms before after, AllTrue piece := by
  induction condition generalizing before after with
  | operand text =>
      refine ⟨_, List.mem_singleton_self _, fun clause member => ?_⟩
      obtain rfl := List.mem_singleton.mp member
      exact truth
  | negation inner _ =>
      refine ⟨_, List.mem_singleton_self _, fun clause member => ?_⟩
      obtain rfl := List.mem_singleton.mp member
      exact truth
  | both left right ihl ihr =>
      rw [Condition.eval, Bool.and_eq_true] at truth
      exact exists_merge (ihl truth.1 before []) (ihr truth.2 [] after)
  | either left right ihl ihr =>
      rw [Condition.eval, Bool.or_eq_true] at truth
      rcases truth with here | there
      · obtain ⟨piece, member, holds⟩ := ihl here before []
        exact ⟨piece, List.mem_append_left _ member, holds⟩
      · obtain ⟨piece, member, holds⟩ := ihr there [] after
        exact ⟨piece, List.mem_append_right _ member, holds⟩
  | group front back inner ih => exact ih truth _ _

theorem clean_of_edges {text : List Char} (edges : ∀ c ∈ text, isEdge c = true) {bar : Char}
    (other : isEdge bar = false) : Clean bar text := by
  refine Pieces.clean_of_notMem fun member => ?_
  rw [edges bar member] at other
  cases other

theorem isEdge_of_isSpace {c : Char} (space : isSpace c = true) : isEdge c = true := by
  rw [isEdge, space, Bool.true_or]

theorem Condition.Single.clean {condition : Condition} (single : condition.Single) {bar : Char}
    (either_bar : bar = '|' ∨ bar = '&') : Clean bar condition.text := by
  induction condition with
  | operand text =>
      rcases either_bar with rfl | rfl
      · exact text.property.1
      · exact text.property.2
  | negation inner ih =>
      have start : Clean bar ['!', '('] := by rcases either_bar with rfl | rfl <;> decide
      have stop : Clean bar [')'] := by rcases either_bar with rfl | rfl <;> decide
      exact Pieces.clean_append start (Pieces.clean_append (ih single) stop)
  | both left right => exact absurd single not_false
  | either left right => exact absurd single not_false
  | group before after inner ih =>
      have edge : isEdge bar = false := by rcases either_bar with rfl | rfl <;> decide
      have start : Clean bar ['('] := by rcases either_bar with rfl | rfl <;> decide
      have stop : Clean bar [')'] := by rcases either_bar with rfl | rfl <;> decide
      have front : Clean bar before.val :=
        clean_of_edges (fun c inside => isEdge_of_isSpace (before.property c inside)) edge
      have back : Clean bar after.val :=
        clean_of_edges (fun c inside => isEdge_of_isSpace (after.property c inside)) edge
      exact Pieces.clean_append front
        (Pieces.clean_append start (Pieces.clean_append (ih single) (Pieces.clean_append stop back)))

/-- A clause may be split off, and it is taken as false only when it is. -/
structure Clause.Sound (clause : Clause) : Prop where
  bars : Clean '|' clause.text
  ampersands : Clean '&' clause.text
  false_when : clauseFalse unicode (strip clause.text) = true → clause.value = false

theorem clean_between {before text after : List Char} (front : ∀ c ∈ before, isEdge c = true)
    (back : ∀ c ∈ after, isEdge c = true) {bar : Char} (other : isEdge bar = false) (clean : Clean bar text) :
    Clean bar (before ++ text ++ after) :=
  Pieces.clean_append (Pieces.clean_append (clean_of_edges front other) clean) (clean_of_edges back other)

/-- A negation is not taken as false. -/
theorem not_clauseFalse_negation {before rest after : List Char} (front : ∀ c ∈ before, isEdge c = true)
    (back : ∀ c ∈ after, isEdge c = true) :
    clauseFalse unicode (strip (before ++ '!' :: rest ++ after)) = false := by
  have head : (trim isEdge (strip (before ++ '!' :: rest ++ after))).head? = some '!' := by
    rw [trim_strip, Pieces.trim_pad isEdge front back]
    exact Pieces.head?_trim_cons isEdge (by decide) rest
  rw [← Bool.not_eq_true, clauseFalse, Bool.or_eq_true]
  rintro (of_call | of_comparison)
  · cases read : call (strip (before ++ '!' :: rest ++ after)) with
    | none =>
        rw [read] at of_call
        cases of_call
    | some found =>
        exact absurd ((callBody_spec (call_trim read).1).1 '!' head) (by decide)
  · cases read : comparison (trim isMark (strip (before ++ '!' :: rest ++ after))) with
    | none =>
        rw [read] at of_comparison
        cases of_comparison
    | some found =>
        exact absurd ((comparison_spec (comparison_trim read)).1 '!' head) (by decide)

theorem sound_alternatives {labels : Labels} (linux : Linux unicode labels) {condition : Condition}
    (plain : condition.Plain unicode) {before after : List Char} (front : ∀ c ∈ before, isEdge c = true)
    (back : ∀ c ∈ after, isEdge c = true) :
    ∀ piece ∈ condition.alternatives unicode labels atoms before after, ∀ clause ∈ piece, clause.Sound unicode := by
  induction condition generalizing before after with
  | operand text =>
      intro piece member clause inside
      obtain rfl := List.mem_singleton.mp member
      obtain rfl := List.mem_singleton.mp inside
      refine ⟨clean_between front back (by decide) text.property.1,
        clean_between front back (by decide) text.property.2, fun excluded => ?_⟩
      refine clauseFalse_sound unicode linux atoms plain ?_ excluded
      rw [trim_strip, Pieces.trim_pad isEdge front back]
  | negation inner _ =>
      intro piece member clause inside
      obtain rfl := List.mem_singleton.mp member
      obtain rfl := List.mem_singleton.mp inside
      have single : (Condition.negation inner).Single := plain
      refine ⟨clean_between front back (by decide) (single.clean (.inl rfl)),
        clean_between front back (by decide) (single.clean (.inr rfl)), fun excluded => ?_⟩
      rw [not_clauseFalse_negation unicode front back] at excluded
      cases excluded
  | both left right ihl ihr =>
      intro piece member clause inside
      obtain ⟨other, among, found⟩ := mem_merge member inside
      rcases List.mem_append.mp among with here | there
      · exact ihl plain.1 front (fun _ none => absurd none List.not_mem_nil) other here clause found
      · exact ihr plain.2 (fun _ none => absurd none List.not_mem_nil) back other there clause found
  | either left right ihl ihr =>
      intro piece member clause inside
      rcases List.mem_append.mp member with here | there
      · exact ihl plain.1 front (fun _ none => absurd none List.not_mem_nil) piece here clause inside
      · exact ihr plain.2 (fun _ none => absurd none List.not_mem_nil) back piece there clause inside
  | group opening closing inner ih =>
      refine ih plain ?_ ?_
      · intro c member
        rcases List.mem_append.mp member with earlier | bracket
        · rcases List.mem_append.mp earlier with outer | blank
          · exact front c outer
          · exact isEdge_of_isSpace (opening.property c blank)
        · obtain rfl := List.mem_singleton.mp bracket
          decide
      · intro c member
        rcases List.mem_cons.mp member with rfl | later
        · decide
        · rcases List.mem_append.mp later with blank | outer
          · exact isEdge_of_isSpace (closing.property c blank)
          · exact back c outer

end

/-! ### What the analysis says -/

theorem dropLast_within {text : List Char} : text.dropLast <:+: text := by
  have front : text.dropLast <+: text := List.dropLast_prefix text
  exact front.isInfix

theorem strip_within (text : List Char) : strip text <:+: text := trim_within isSpace text

theorem unquoted_within (value : List Char) : unquoted value <:+: value := by
  cases value with
  | nil => exact List.infix_rfl
  | cons quote rest =>
      rw [unquoted]
      split
      · exact (strip_within _).trans (dropLast_within.trans (List.suffix_cons _ _).isInfix)
      · exact List.infix_rfl

theorem unwrap_within (value : List Char) : unwrap value <:+: value := by
  have inside := (unquoted_within (strip value)).trans (strip_within value)
  rw [unwrap]
  split
  · have cut : ((unquoted (strip value)).drop 3).dropLast.dropLast <:+: unquoted (strip value) :=
      dropLast_within.trans (dropLast_within.trans (List.drop_suffix _ _).isInfix)
    exact (strip_within _).trans (cut.trans inside)
  · exact inside

section

variable (unicode : Unicode)

/-- The source's own recursion. -/
theorem falseOnLinux_alternatives {value : List Char} (several : holds '|' (unwrap value) = true) :
    falseOnLinux unicode value = (split '|' (unwrap value)).all (falseOnLinux unicode) := by
  rw [falseOnLinux, if_pos several]
  rw [Bool.eq_iff_iff, List.all_eq_true, List.all_eq_true]
  refine forall₂_congr fun clause member => ?_
  have absent : holds '|' (unwrap clause) = false :=
    Pieces.holds_of_within (unwrap_within clause) (Pieces.not_holds_of_mem_split member)
  rw [falseOnLinux, if_neg (by simp [absent])]

theorem conjunctionText_clean {piece : List Clause} (sound : ∀ clause ∈ piece, clause.Sound unicode) :
    Clean '|' (conjunctionText piece) := by
  rw [conjunctionText]
  induction piece with
  | nil => trivial
  | cons clause rest ih =>
      have here := (sound clause List.mem_cons_self).bars
      have later := ih fun other member => sound other (List.mem_cons_of_mem _ member)
      cases rest with
      | nil => rwa [List.map_singleton, List.intercalate_singleton]
      | cons next others =>
          rw [List.map_cons, List.intercalate_cons_of_ne_nil (by simp)]
          exact Pieces.clean_append (Pieces.clean_append here (by decide)) later

/-- A conjunction that is taken as false has a false clause. -/
theorem conjunctionFalse_sound {piece : List Clause} (nonempty : piece ≠ [])
    (sound : ∀ clause ∈ piece, clause.Sound unicode) {text : List Char}
    (strips : strip text = strip (conjunctionText piece)) (excluded : conjunctionFalse unicode text = true) :
    ∃ clause ∈ piece, clause.value = false := by
  rw [conjunctionFalse] at excluded
  split at excluded
  · cases excluded
  · have clauses : split '&' (conjunctionText piece) = piece.map Clause.text := by
      refine Pieces.split_intercalate (fun text member => ?_) (by simpa using nonempty)
      obtain ⟨clause, among, rfl⟩ := List.mem_map.mp member
      exact (sound clause among).ampersands
    have ends : isSpace '&' = false := by decide
    have same : (split '&' text).map strip = (piece.map Clause.text).map strip :=
      calc
        (split '&' text).map strip = (split '&' (strip text)).map strip := (Pieces.map_trim_split ends text).symm
        _ = (split '&' (strip (conjunctionText piece))).map strip := by rw [strips]
        _ = (split '&' (conjunctionText piece)).map strip := Pieces.map_trim_split ends _
        _ = (piece.map Clause.text).map strip := by rw [clauses]
    obtain ⟨clause, member, taken⟩ := List.any_eq_true.mp excluded
    have among : strip clause ∈ (piece.map Clause.text).map strip := same ▸ List.mem_map_of_mem member
    rw [List.map_map] at among
    obtain ⟨origin, inside, equal⟩ := List.mem_map.mp among
    exact ⟨origin, inside, (sound origin inside).false_when (by rw [← taken, ← equal, Function.comp_apply])⟩

/-- A condition that is taken as excluding Linux is false there, whatever its other operands are. -/
theorem falseOnLinux_sound {labels : Labels} (linux : Linux unicode labels) (atoms : List Char → Bool)
    {condition : Condition} (plain : condition.Plain unicode) {value : List Char}
    (reads : unwrap value = condition.text)
    (bare : holds '|' (unwrap value) = true → ∀ clause ∈ split '|' (unwrap value), unwrap clause = strip clause)
    (excluded : falseOnLinux unicode value = true) : condition.eval unicode labels atoms = false := by
  rw [← Bool.not_eq_true]
  intro truth
  obtain ⟨piece, member, holds_all⟩ := exists_true unicode labels atoms truth [] []
  have sound : ∀ piece ∈ condition.alternatives unicode labels atoms [] [], ∀ clause ∈ piece,
      clause.Sound unicode := sound_alternatives unicode atoms linux plain
    (fun _ none => absurd none List.not_mem_nil) (fun _ none => absurd none List.not_mem_nil)
  obtain ⟨filled, text⟩ := filled_alternatives unicode labels atoms condition [] []
  rw [List.nil_append, List.append_nil, ← reads] at text
  have contradiction : ∀ other, strip other = strip (conjunctionText piece) →
      conjunctionFalse unicode other = true → False := by
    intro other strips taken
    obtain ⟨clause, inside, untrue⟩ :=
      conjunctionFalse_sound unicode (filled.2 piece member) (sound piece member) strips taken
    rw [holds_all clause inside] at untrue
    cases untrue
  have pieces : split '|' (unwrap value) =
      (condition.alternatives unicode labels atoms [] []).map conjunctionText := by
    rw [← text]
    refine Pieces.split_intercalate (fun part among => ?_) (by simpa using filled.1)
    obtain ⟨origin, inside, rfl⟩ := List.mem_map.mp among
    exact conjunctionText_clean unicode (sound origin inside)
  rw [falseOnLinux] at excluded
  split at excluded
  next several =>
    have among : conjunctionText piece ∈ split '|' (unwrap value) := pieces ▸ List.mem_map_of_mem member
    have taken := List.all_eq_true.mp excluded _ among
    refine contradiction _ ?_ taken
    rw [bare several _ among]
    exact Pieces.trim_trim isSpace (fun _ same => same) _
  next one =>
    have alone : (condition.alternatives unicode labels atoms [] []).length ≤ 1 := by
      by_contra several
      refine one ?_
      rw [← text]
      exact Pieces.holds_intercalate (by rw [List.length_map]; omega)
    refine contradiction (unwrap value) ?_ excluded
    cases all : condition.alternatives unicode labels atoms [] [] with
    | nil => exact absurd all filled.1
    | cons only rest =>
        have last : rest = [] := by
          rw [all, List.length_cons] at alone
          exact List.length_eq_zero_iff.mp (by omega)
        subst last
        rw [all] at member text
        obtain rfl := List.mem_singleton.mp member
        rw [← text, alternativesText, List.map_singleton, List.intercalate_singleton]

end

end CiText

end FeatureRl
