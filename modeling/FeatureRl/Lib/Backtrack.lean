import Mathlib.Logic.Relation
import Mathlib.Tactic.TypeStar

/-!
Depth-first search over choices that are made lazily. The stack holds one list of remaining
choices for each level; a visited node is dead, a result, or opens another level.
-/

namespace Backtrack

variable {α β ε : Type*}

/-- What visiting a node shows. A choice of the next level may itself fail. -/
inductive Visit (α β ε : Type*) where
  | failed (failure : ε)
  | dead
  | found (result : β)
  | fork (choices : List (Except ε α))

/-- Visit the next choice of the deepest level; `none` when the steps run out. The nodes
that opened a level are kept, the latest first. -/
def search (visit : α → Visit α β ε) :
    Nat → List (List (Except ε α)) → List α → Option (Except ε (Option β) × List α)
  | 0, _, _ => none
  | _ + 1, [], opened => some (.ok none, opened)
  | steps + 1, [] :: levels, opened => search visit steps levels opened
  | _ + 1, (.error failure :: _) :: _, opened => some (.error failure, opened)
  | steps + 1, (.ok node :: rest) :: levels, opened =>
      match visit node with
      | .failed failure => some (.error failure, opened)
      | .dead => search visit steps (rest :: levels) opened
      | .found result => some (.ok (some result), opened)
      | .fork choices => search visit steps (choices :: rest :: levels) (node :: opened)

variable {visit : α → Visit α β ε}

def Child (visit : α → Visit α β ε) (node child : α) : Prop :=
  ∃ choices, visit node = .fork choices ∧ .ok child ∈ choices

/-! ### Termination -/

/-- Fewer steps than enough are never a different answer. -/
theorem search_mono {steps : Nat} {levels : List (List (Except ε α))} {opened : List α}
    {answer : Except ε (Option β) × List α} (more : Nat)
    (found : search visit steps levels opened = some answer) :
    search visit (steps + more) levels opened = some answer := by
  induction steps generalizing levels opened with
  | zero => cases found
  | succ steps ih =>
      rw [Nat.succ_add]
      match levels with
      | [] => exact found
      | [] :: levels => exact ih found
      | (.error failure :: _) :: _ => exact found
      | (.ok node :: rest) :: levels =>
          simp only [search] at found ⊢
          cases shown : visit node with
          | failed failure => simpa only [shown] using found
          | dead =>
              rw [shown] at found
              exact ih found
          | found result => simpa only [shown] using found
          | fork choices =>
              rw [shown] at found
              exact ih found

def Ends (visit : α → Visit α β ε) (levels : List (List (Except ε α))) : Prop :=
  ∀ opened, ∃ steps answer, search visit steps levels opened = some answer

theorem Ends.step {levels next : List (List (Except ε α))} (ends : Ends visit next)
    (opens : List α → List α)
    (step : ∀ steps opened, search visit (steps + 1) levels opened = search visit steps next (opens opened)) :
    Ends visit levels := by
  intro opened
  obtain ⟨steps, answer, found⟩ := ends (opens opened)
  exact ⟨steps + 1, answer, (step steps opened).trans found⟩

/-- A property that every choice keeps, with a measure that every choice lowers. -/
structure Descends (visit : α → Visit α β ε) (Good : α → Prop) (measure : α → Nat) : Prop where
  keeps : ∀ node child, Good node → Child visit node child → Good child
  decreases : ∀ node child, Good node → Child visit node child → measure child < measure node

/-- A level whose nodes are below a bound is finished when the levels above it are. -/
theorem ends_level {Good : α → Prop} {measure : α → Nat} (descends : Descends visit Good measure)
    (bound : Nat) {level : List (Except ε α)}
    (below : ∀ node, .ok node ∈ level → Good node ∧ measure node < bound)
    {levels : List (List (Except ε α))} (ends : Ends visit levels) : Ends visit (level :: levels) := by
  induction bound generalizing level levels with
  | zero =>
      match level with
      | [] => exact ends.step id fun _ _ => rfl
      | .error failure :: _ => exact fun opened => ⟨1, _, rfl⟩
      | .ok node :: _ => exact absurd (below node List.mem_cons_self).2 (Nat.not_lt_zero _)
  | succ bound outer =>
      induction level with
      | nil => exact ends.step id fun _ _ => rfl
      | cons choice rest ih =>
          have later := ih fun node member => below node (List.mem_cons_of_mem _ member)
          match choice with
          | .error failure => exact fun opened => ⟨1, _, rfl⟩
          | .ok node =>
              cases shown : visit node with
              | failed failure =>
                  exact fun opened => ⟨1, (.error failure, opened), by simp only [search, shown]⟩
              | dead => exact later.step id fun steps opened => by simp only [search, shown, id]
              | found result =>
                  exact fun opened => ⟨1, (.ok (some result), opened), by simp only [search, shown]⟩
              | fork choices =>
                  have smaller : ∀ child, .ok child ∈ choices → Good child ∧ measure child < bound := by
                    intro child member
                    obtain ⟨good, top⟩ := below node List.mem_cons_self
                    have less := descends.decreases node child good ⟨choices, shown, member⟩
                    exact ⟨descends.keeps node child good ⟨choices, shown, member⟩, by omega⟩
                  exact (outer smaller later).step (node :: ·) fun steps opened => by
                    simp only [search, shown]

/-- A search whose nodes have a measure that every choice lowers ends. -/
theorem search_terminates {Good : α → Prop} {measure : α → Nat} (descends : Descends visit Good measure)
    {root : α} (good : Good root) : ∃ steps answer, search visit steps [[.ok root]] [] = some answer := by
  have finished : Ends visit [] := fun opened => ⟨1, _, rfl⟩
  refine ends_level descends (measure root + 1) (fun node member => ?_) finished []
  obtain rfl : node = root := by simpa using member
  exact ⟨good, Nat.lt_succ_self _⟩

/-! ### Results -/

/-- The node was reached through nodes that all opened a level. -/
inductive Traced (visit : α → Visit α β ε) (root : α) (opened : List α) : α → Prop
  | root : Traced visit root opened root
  | child {node child : α} (traced : Traced visit root opened node) (member : node ∈ opened)
      (follows : Child visit node child) : Traced visit root opened child

theorem Traced.mono {root node : α} {opened more : List α} (traced : Traced visit root opened node)
    (grows : ∀ other ∈ opened, other ∈ more) : Traced visit root more node := by
  induction traced with
  | root => exact .root
  | child _ member follows ih => exact .child ih (grows _ member) follows

/-- What every choice keeps holds of every node that was reached. -/
theorem Traced.keep {root node : α} {opened : List α} (traced : Traced visit root opened node)
    {Good : α → Prop} (keeps : ∀ node child, Good node → Child visit node child → Good child)
    (good : Good root) : Good node := by
  induction traced with
  | root => exact good
  | child _ _ follows ih => exact keeps _ _ ih follows

/-- The result that a search finds is that of a node it was led to. -/
theorem search_found {root : α} {steps : Nat} {levels : List (List (Except ε α))}
    {opened visited : List α} {result : β}
    (traced : ∀ level ∈ levels, ∀ node, .ok node ∈ level → Traced visit root opened node)
    (found : search visit steps levels opened = some (.ok (some result), visited)) :
    ∃ node, visit node = .found result ∧ Traced visit root visited node := by
  induction steps generalizing levels opened with
  | zero => cases found
  | succ steps ih =>
      match levels with
      | [] => cases found
      | [] :: levels =>
          exact ih (fun level member => traced level (List.mem_cons_of_mem _ member)) found
      | (.error failure :: _) :: _ => cases found
      | (.ok node :: rest) :: levels =>
          have remaining : ∀ level ∈ rest :: levels, ∀ other, .ok other ∈ level →
              Traced visit root opened other := by
            intro level member other inside
            rcases List.mem_cons.mp member with rfl | later
            · exact traced _ List.mem_cons_self other (List.mem_cons_of_mem _ inside)
            · exact traced level (List.mem_cons_of_mem _ later) other inside
          have here := traced _ List.mem_cons_self node List.mem_cons_self
          simp only [search] at found
          split at found
          next => cases found
          next => exact ih remaining found
          next shown =>
            cases found
            exact ⟨node, shown, here⟩
          next choices shown =>
            refine ih (fun level member other inside => ?_) found
            have grows : ∀ any ∈ opened, any ∈ node :: opened := fun _ => List.mem_cons_of_mem _
            rcases List.mem_cons.mp member with rfl | later
            · exact .child (here.mono grows) List.mem_cons_self ⟨_, shown, inside⟩
            · exact (remaining level later other inside).mono grows

/-- A failure comes from a visited node or from a choice. -/
theorem search_failed {Raised : ε → Prop} (failed : ∀ node failure, visit node = .failed failure → Raised failure)
    (chosen : ∀ node choices failure, visit node = .fork choices → .error failure ∈ choices → Raised failure)
    {steps : Nat} {levels : List (List (Except ε α))} {opened visited : List α} {failure : ε}
    (start : ∀ level ∈ levels, ∀ failure, .error failure ∈ level → Raised failure)
    (found : search visit steps levels opened = some (.error failure, visited)) : Raised failure := by
  induction steps generalizing levels opened with
  | zero => cases found
  | succ steps ih =>
      match levels with
      | [] => cases found
      | [] :: levels => exact ih (fun level member => start level (List.mem_cons_of_mem _ member)) found
      | (.error _ :: _) :: _ =>
          cases found
          exact start _ List.mem_cons_self _ List.mem_cons_self
      | (.ok node :: rest) :: levels =>
          have remaining : ∀ level ∈ rest :: levels, ∀ failure, .error failure ∈ level → Raised failure := by
            intro level member other inside
            rcases List.mem_cons.mp member with rfl | later
            · exact start _ List.mem_cons_self other (List.mem_cons_of_mem _ inside)
            · exact start level (List.mem_cons_of_mem _ later) other inside
          simp only [search] at found
          split at found
          next shown =>
            cases found
            exact failed node _ shown
          next => exact ih remaining found
          next => cases found
          next choices shown =>
            refine ih (fun level member other inside => ?_) found
            rcases List.mem_cons.mp member with rfl | later
            · exact chosen node _ other shown inside
            · exact remaining level later other inside

/-- A search without a result has passed every node below its levels without finding one. -/
theorem search_exhausted {steps : Nat} {levels : List (List (Except ε α))} {opened visited : List α}
    (exhausted : search visit steps levels opened = some (.ok none, visited)) :
    ∀ level ∈ levels, ∀ start, .ok start ∈ level → ∀ node, Relation.ReflTransGen (Child visit) start node →
      visit node = .dead ∨ ∃ choices, visit node = .fork choices := by
  induction steps generalizing levels opened with
  | zero => cases exhausted
  | succ steps ih =>
      match levels with
      | [] => simp
      | [] :: levels =>
          intro level member start inside
          rcases List.mem_cons.mp member with rfl | later
          · cases inside
          · exact ih exhausted level later start inside
      | (.error failure :: _) :: _ => cases exhausted
      | (.ok first :: rest) :: levels =>
          simp only [search] at exhausted
          intro level member start inside node path
          have elsewhere : (∀ level ∈ rest :: levels, ∀ start, .ok start ∈ level → ∀ node,
              Relation.ReflTransGen (Child visit) start node →
                visit node = .dead ∨ ∃ choices, visit node = .fork choices) →
              start ≠ first → visit node = .dead ∨ ∃ choices, visit node = .fork choices := by
            intro covered different
            rcases List.mem_cons.mp member with rfl | later
            · have tail : .ok start ∈ rest := (List.mem_cons.mp inside).resolve_left
                fun same => different (Except.ok.inj same)
              exact covered rest List.mem_cons_self start tail node path
            · exact covered level (List.mem_cons_of_mem _ later) start inside node path
          split at exhausted
          next => cases exhausted
          next shown =>
            by_cases same : start = first
            · subst same
              rcases Relation.ReflTransGen.cases_head path with rfl | ⟨child, ⟨choices, forks, _⟩, _⟩
              · exact .inl shown
              · rw [shown] at forks
                cases forks
            · exact elsewhere (ih exhausted) same
          next => cases exhausted
          next choices shown =>
            by_cases same : start = first
            · subst same
              rcases Relation.ReflTransGen.cases_head path with rfl | ⟨child, ⟨others, forks, among⟩, further⟩
              · exact .inr ⟨choices, shown⟩
              · rw [shown] at forks
                cases forks
                exact ih exhausted choices List.mem_cons_self child among node further
            · exact elsewhere (fun level later => ih exhausted level (List.mem_cons_of_mem _ later)) same

/-- A property that leads from every node to a result, or to a choice that has it again,
excludes a search without a result. -/
theorem not_exhausted {Good : α → Prop} {measure : α → Nat} (descends : Descends visit Good measure)
    {Leads : α → Prop} (leads : ∀ node, Good node → Leads node →
      (∃ result, visit node = .found result) ∨ ∃ child, Child visit node child ∧ Leads child)
    {root : α} (good : Good root) (start : Leads root) {steps : Nat} {visited : List α} :
    search visit steps [[.ok root]] [] ≠ some (.ok none, visited) := by
  intro exhausted
  have passed := search_exhausted exhausted _ List.mem_cons_self root List.mem_cons_self
  suffices every : ∀ bound node, measure node < bound → Good node → Leads node →
      ¬ Relation.ReflTransGen (Child visit) root node from
    every _ root (Nat.lt_succ_self _) good start .refl
  intro bound
  induction bound with
  | zero => intro node below; omega
  | succ bound ih =>
      intro node below good led path
      rcases leads node good led with ⟨result, found⟩ | ⟨child, follows, again⟩
      · rcases passed node path with dead | ⟨choices, forks⟩
        · rw [found] at dead
          cases dead
        · rw [found] at forks
          cases forks
      · have less := descends.decreases node child good follows
        exact ih child (by omega) (descends.keeps node child good follows) again (path.tail follows)

end Backtrack
