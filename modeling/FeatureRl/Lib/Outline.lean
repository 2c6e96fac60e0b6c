import FeatureRl.Lib.Dict

/-!
The outline of indented lines. A stack of open lines finds for each line the nearest one before it that is
indented less, and the next one after it that is not indented more.
-/

namespace FeatureRl

namespace Outline

structure Tree where
  parents : Dict Nat (Option Nat)
  ends : Dict Nat Nat
  stack : List Nat

section

variable (indent : Nat → Nat)

/-- Close the open lines that are not indented less than the next one. -/
def close (index : Nat) : List Nat → Dict Nat Nat → List Nat × Dict Nat Nat
  | [], ends => ([], ends)
  | top :: rest, ends =>
      if indent index ≤ indent top then close index rest (ends.set top index) else (top :: rest, ends)

def visit (tree : Tree) (index : Nat) : Tree :=
  let closed := close indent index tree.stack tree.ends
  { parents := tree.parents.set index closed.1.head?, ends := closed.2, stack := index :: closed.1 }

/-- The lines that stay open end with the text. -/
def build (count : Nat) (significant : List Nat) : Tree :=
  let tree := significant.foldl (visit indent) ⟨.empty, .empty, []⟩
  { tree with ends := tree.stack.foldl (fun ends index => ends.set index count) tree.ends }

/-- The block of the ancestor that is so many levels up, or the whole text when there is none. -/
def block (tree : Tree) (count : Nat) : Nat → Nat → Nat × Nat
  | 0, start => (start, (tree.ends.get? start).getD count)
  | levels + 1, start =>
      match (tree.parents.get? start).join with
      | none => (0, count)
      | some ancestor => block tree count levels ancestor

/-! ### What the outline is -/

/-- The nearest line before a line that is indented less. -/
def IsParent (significant : List Nat) (index : Nat) : Option Nat → Prop
  | none => ∀ other ∈ significant, other < index → indent index ≤ indent other
  | some parent => parent ∈ significant ∧ parent < index ∧ indent parent < indent index ∧
      ∀ other ∈ significant, parent < other → other < index → indent index ≤ indent other

/-- The next line that is not indented more. -/
def IsNext (significant : List Nat) (index next : Nat) : Prop :=
  next ∈ significant ∧ index < next ∧ indent next ≤ indent index ∧
    ∀ other ∈ significant, index < other → other < next → indent index < indent other

def IsOpen (significant : List Nat) (index : Nat) : Prop :=
  ∀ other ∈ significant, index < other → indent index < indent other

inductive IsBlock (count : Nat) (significant : List Nat) : Nat → Nat → Nat × Nat → Prop where
  | closed {index next : Nat} (ends : IsNext indent significant index next) :
      IsBlock count significant 0 index (index, next)
  | last {index : Nat} (unclosed : IsOpen indent significant index) :
      IsBlock count significant 0 index (index, count)
  | whole {levels index : Nat} (outermost : IsParent indent significant index none) :
      IsBlock count significant (levels + 1) index (0, count)
  | up {levels index parent : Nat} {lines : Nat × Nat} (inside : IsParent indent significant index (some parent))
      (outer : IsBlock count significant levels parent lines) : IsBlock count significant (levels + 1) index lines

/-! ### Closing -/

theorem close_spec (index : Nat) {stack : List Nat} (ends : Dict Nat Nat)
    (nested : stack.Pairwise fun top lower => indent lower < indent top) :
    (close indent index stack ends).1 = stack.filter (fun other => indent other < indent index) ∧
      ∀ other, (close indent index stack ends).2.get? other =
        if other ∈ stack ∧ indent index ≤ indent other then some index else ends.get? other := by
  induction stack generalizing ends with
  | nil => simp [close]
  | cons top rest ih =>
      obtain ⟨deeper, nested_rest⟩ := List.pairwise_cons.mp nested
      rw [close]
      split
      next closes =>
        obtain ⟨kept, found⟩ := ih (ends.set top index) nested_rest
        refine ⟨?_, fun other => ?_⟩
        · rw [kept, List.filter_cons_of_neg (by simpa using closes)]
        · rw [found, Dict.get?_set]
          by_cases same : other = top
          · subst other
            simp [closes]
          · simp [same]
      next opens =>
        have below : indent top < indent index := Nat.lt_of_not_le opens
        have all : ∀ other ∈ top :: rest, indent other < indent index := by
          intro other member
          rcases List.mem_cons.mp member with rfl | later
          · exact below
          · exact Nat.lt_trans (deeper other later) below
        refine ⟨?_, fun other => ?_⟩
        · exact (List.filter_eq_self.mpr fun other member => decide_eq_true (all other member)).symm
        · rw [if_neg]
          rintro ⟨member, above⟩
          exact Nat.lt_irrefl _ (Nat.lt_of_lt_of_le (all other member) above)

structure Invariant (done : List Nat) (tree : Tree) : Prop where
  stack : ∀ index, index ∈ tree.stack ↔ index ∈ done ∧ IsOpen indent done index
  sorted : tree.stack.Pairwise fun top lower => lower < top
  covered : ∀ index ∈ done, ∃ other ∈ tree.stack, index ≤ other ∧ indent other ≤ indent index
  parents : ∀ index ∈ done, ∃ parent, tree.parents.get? index = some parent ∧ IsParent indent done index parent
  ends : ∀ index ∈ done, index ∉ tree.stack →
    ∃ next, tree.ends.get? index = some next ∧ IsNext indent done index next

variable {indent}

theorem Invariant.nested {done : List Nat} {tree : Tree} (invariant : Invariant indent done tree) :
    tree.stack.Pairwise fun top lower => indent lower < indent top := by
  refine (List.Pairwise.and_mem.mp invariant.sorted).imp ?_
  rintro top lower ⟨among, below, less⟩
  exact ((invariant.stack lower).mp below).2 top ((invariant.stack top).mp among).1 less

theorem IsParent.later {done : List Nat} {index next : Nat} (below : index < next) {parent : Option Nat}
    (holds : IsParent indent done index parent) : IsParent indent (done ++ [next]) index parent := by
  cases parent with
  | none =>
      intro other member less
      rcases List.mem_append.mp member with inside | last
      · exact holds other inside less
      · obtain rfl := List.mem_singleton.mp last
        omega
  | some parent =>
      refine ⟨List.mem_append_left _ holds.1, holds.2.1, holds.2.2.1, fun other member above less => ?_⟩
      rcases List.mem_append.mp member with inside | last
      · exact holds.2.2.2 other inside above less
      · obtain rfl := List.mem_singleton.mp last
        omega

theorem IsNext.later {done : List Nat} {index stop next : Nat} (holds : IsNext indent done index stop)
    (below : stop < next) : IsNext indent (done ++ [next]) index stop := by
  refine ⟨List.mem_append_left _ holds.1, holds.2.1, holds.2.2.1, fun other member above less => ?_⟩
  rcases List.mem_append.mp member with inside | last
  · exact holds.2.2.2 other inside above less
  · obtain rfl := List.mem_singleton.mp last
    omega

theorem isOpen_append {done : List Nat} {index next : Nat} (below : index < next) :
    IsOpen indent (done ++ [next]) index ↔ IsOpen indent done index ∧ indent index < indent next := by
  constructor
  · intro unclosed
    exact ⟨fun other member => unclosed other (List.mem_append_left _ member),
      unclosed next (by simp) below⟩
  · rintro ⟨unclosed, deeper⟩ other member above
    rcases List.mem_append.mp member with inside | last
    · exact unclosed other inside above
    · obtain rfl := List.mem_singleton.mp last
      exact deeper

/-- One more line. -/
theorem Invariant.visit {done : List Nat} {tree : Tree} (invariant : Invariant indent done tree) {next : Nat}
    (after : ∀ index ∈ done, index < next) : Invariant indent (done ++ [next]) (visit indent tree next) := by
  obtain ⟨kept, found⟩ := close_spec indent next tree.ends invariant.nested
  have among : ∀ index, index ∈ (close indent next tree.stack tree.ends).1 ↔
      index ∈ tree.stack ∧ indent index < indent next := by
    intro index
    rw [kept, List.mem_filter, decide_eq_true_eq]
  have on_stack : ∀ index ∈ tree.stack, index < next :=
    fun index member => after index ((invariant.stack index).mp member).1
  refine ⟨?_, ?_, ?_, ?_, ?_⟩
  · intro index
    rw [Outline.visit, List.mem_cons, among, List.mem_append, List.mem_singleton, invariant.stack]
    constructor
    · rintro (rfl | ⟨⟨member, unclosed⟩, deeper⟩)
      · refine ⟨.inr rfl, fun other member above => ?_⟩
        rcases List.mem_append.mp member with inside | last
        · have := after other inside
          omega
        · obtain rfl := List.mem_singleton.mp last
          omega
      · exact ⟨.inl member, (isOpen_append (after index member)).mpr ⟨unclosed, deeper⟩⟩
    · rintro ⟨member | rfl, unclosed⟩
      · obtain ⟨earlier, deeper⟩ := (isOpen_append (after index member)).mp unclosed
        exact .inr ⟨⟨member, earlier⟩, deeper⟩
      · exact .inl rfl
  · refine List.pairwise_cons.mpr ⟨fun other member => on_stack other ((among other).mp member).1, ?_⟩
    rw [kept]
    exact invariant.sorted.filter _
  · intro index member
    rcases List.mem_append.mp member with inside | last
    · obtain ⟨other, stacked, above, shallow⟩ := invariant.covered index inside
      by_cases stays : indent other < indent next
      · exact ⟨other, List.mem_cons_of_mem _ ((among other).mpr ⟨stacked, stays⟩), above, shallow⟩
      · have := after index inside
        exact ⟨next, List.mem_cons_self, by omega, by omega⟩
    · obtain rfl := List.mem_singleton.mp last
      exact ⟨index, List.mem_cons_self, Nat.le_refl _, Nat.le_refl _⟩
  · intro index member
    rcases List.mem_append.mp member with inside | last
    · obtain ⟨parent, recorded, holds⟩ := invariant.parents index inside
      have below := after index inside
      refine ⟨parent, ?_, holds.later below⟩
      rw [Outline.visit, Dict.get?_set_ne _ _ (by omega), recorded]
    · obtain rfl := List.mem_singleton.mp last
      refine ⟨_, Dict.get?_set_self _ _ _, ?_⟩
      have shallower : ∀ other ∈ done, indent other < indent index →
          ∃ above ∈ (close indent index tree.stack tree.ends).1, other ≤ above := by
        intro other inside less
        obtain ⟨above, stacked, later, shallow⟩ := invariant.covered other inside
        exact ⟨above, (among above).mpr ⟨stacked, by omega⟩, later⟩
      cases remaining : (close indent index tree.stack tree.ends).1 with
      | nil =>
          intro other member less
          rcases List.mem_append.mp member with inside | last
          · by_contra shallow
            obtain ⟨above, stacked, _⟩ := shallower other inside (by omega)
            rw [remaining] at stacked
            exact absurd stacked List.not_mem_nil
          · obtain rfl := List.mem_singleton.mp last
            omega
      | cons parent rest =>
          have top : parent ∈ tree.stack ∧ indent parent < indent index :=
            (among parent).mp (remaining ▸ List.mem_cons_self)
          refine ⟨List.mem_append_left _ ((invariant.stack parent).mp top.1).1, on_stack parent top.1, top.2,
            fun other member above less => ?_⟩
          rcases List.mem_append.mp member with inside | last
          · by_contra shallow
            obtain ⟨higher, stacked, later⟩ := shallower other inside (by omega)
            have sorted : (parent :: rest).Pairwise fun first second => second < first := by
              rw [← remaining, kept]
              exact invariant.sorted.filter _
            rw [remaining] at stacked
            rcases List.mem_cons.mp stacked with rfl | lower
            · omega
            · have := (List.pairwise_cons.mp sorted).1 higher lower
              omega
          · obtain rfl := List.mem_singleton.mp last
            omega
  · intro index member gone
    rw [Outline.visit, List.mem_cons, among, not_or] at gone
    have inside : index ∈ done := by
      rcases List.mem_append.mp member with inside | last
      · exact inside
      · exact absurd (List.mem_singleton.mp last) gone.1
    change ∃ stop, (close indent next tree.stack tree.ends).2.get? index = some stop ∧ _
    rw [found]
    by_cases stacked : index ∈ tree.stack
    · have closes : indent next ≤ indent index := Nat.le_of_not_lt fun deeper => gone.2 ⟨stacked, deeper⟩
      refine ⟨next, if_pos ⟨stacked, closes⟩, by simp, on_stack index stacked, closes,
        fun other among_new above less => ?_⟩
      rcases List.mem_append.mp among_new with earlier | last
      · exact ((invariant.stack index).mp stacked).2 other earlier above
      · obtain rfl := List.mem_singleton.mp last
        omega
    · obtain ⟨stop, recorded, holds⟩ := invariant.ends index inside stacked
      exact ⟨stop, by rw [if_neg fun both => stacked both.1, recorded], holds.later (after stop holds.1)⟩

theorem Invariant.run {done : List Nat} {tree : Tree} (invariant : Invariant indent done tree) {rest : List Nat}
    (increasing : (done ++ rest).Pairwise (· < ·)) :
    Invariant indent (done ++ rest) (rest.foldl (Outline.visit indent) tree) := by
  induction rest generalizing done tree with
  | nil => rwa [List.append_nil]
  | cons next others ih =>
      have after : ∀ index ∈ done, index < next :=
        fun index member => (List.pairwise_append.mp increasing).2.2 index member next List.mem_cons_self
      have whole : done ++ next :: others = (done ++ [next]) ++ others := by simp
      rw [whole] at increasing ⊢
      exact ih (invariant.visit after) increasing

theorem invariant_start : Invariant indent [] ⟨.empty, .empty, []⟩ :=
  ⟨by simp, .nil, by simp, by simp, by simp⟩

theorem get?_foldl_set (count : Nat) (stack : List Nat) (ends : Dict Nat Nat) (index : Nat) :
    (stack.foldl (fun ends index => ends.set index count) ends).get? index =
      if index ∈ stack then some count else ends.get? index := by
  induction stack generalizing ends with
  | nil => simp
  | cons top rest ih =>
      rw [List.foldl_cons, ih, Dict.get?_set]
      by_cases same : index = top
      · subst index
        simp
      · simp [same]

/-- Every significant line gets its block. -/
theorem isBlock_block {count : Nat} {significant : List Nat} (increasing : significant.Pairwise (· < ·))
    (levels : Nat) {index : Nat} (member : index ∈ significant) :
    IsBlock indent count significant levels index (block (build indent count significant) count levels index) := by
  have invariant : Invariant indent ([] ++ significant) (significant.foldl (visit indent) ⟨.empty, .empty, []⟩) :=
    invariant_start.run (by simpa using increasing)
  rw [List.nil_append] at invariant
  induction levels generalizing index with
  | zero =>
      rw [block, build, get?_foldl_set]
      by_cases stacked : index ∈ (significant.foldl (visit indent) ⟨.empty, .empty, []⟩).stack
      · rw [if_pos stacked]
        exact .last ((invariant.stack index).mp stacked).2
      · obtain ⟨next, recorded, holds⟩ := invariant.ends index member stacked
        rw [if_neg stacked, recorded]
        exact .closed holds
  | succ levels ih =>
      obtain ⟨parent, recorded, holds⟩ := invariant.parents index member
      rw [block]
      have same : ((build indent count significant).parents.get? index).join = parent := by
        rw [build, recorded, Option.join_some]
      rw [same]
      cases parent with
      | none => exact .whole holds
      | some ancestor => exact .up holds (ih holds.1)

end

end Outline

end FeatureRl
