import Mathlib.Data.Finset.Basic
import Mathlib.Algebra.BigOperators.Group.Finset.Basic
import Mathlib.Logic.Relation

/-!
A worklist traversal that visits each key once. It ends on every graph, and when it does not
fail it has collected exactly the keys of the items reachable from the start.
-/

namespace Worklist

variable {ι κ ε : Type*} [DecidableEq κ]

/-- Pop the last pending item; unless its key was seen, mark it and push what follows it.
`none` when the steps run out. The stack is a list with its top first. -/
def traverse (key : ι → κ) (next : ι → Except ε (List ι)) :
    Nat → List ι → Finset κ → Option (Except ε (Finset κ))
  | 0, _, _ => none
  | _ + 1, [], seen => some (.ok seen)
  | steps + 1, item :: pending, seen =>
      if key item ∈ seen then traverse key next steps pending seen
      else
        match next item with
        | .error failure => some (.error failure)
        | .ok more => traverse key next steps (more.reverse ++ pending) (insert (key item) seen)

variable {key : ι → κ} {next : ι → Except ε (List ι)}

/-- One item is directly followed by another. -/
def Follows (next : ι → Except ε (List ι)) (item other : ι) : Prop :=
  ∃ more, next item = .ok more ∧ other ∈ more

/-- An item that some starting item leads to in any number of steps. -/
def Reached (next : ι → Except ε (List ι)) (start : List ι) (item : ι) : Prop :=
  ∃ first ∈ start, Relation.ReflTransGen (Follows next) first item

theorem Reached.follow {start : List ι} {item other : ι} (reached : Reached next start item)
    (follows : Follows next item other) : Reached next start other := by
  obtain ⟨first, member, path⟩ := reached
  exact ⟨first, member, path.tail follows⟩

/-! ### Termination -/

/-- Steps needed: the pending items, and what each unseen key can still push. -/
def work (domain : Finset κ) (degree : κ → Nat) (pending : List ι) (seen : Finset κ) : Nat :=
  pending.length + ∑ key ∈ domain \ seen, degree key

theorem work_visit {domain seen : Finset κ} {degree : κ → Nat} {item : ι} (pending : List ι)
    {more : List ι}
    (known : key item ∈ domain) (unseen : key item ∉ seen)
    (small : more.length ≤ degree (key item)) :
    work domain degree (more.reverse ++ pending) (insert (key item) seen) <
      work domain degree (item :: pending) seen := by
  have split : domain \ seen = insert (key item) (domain \ insert (key item) seen) := by
    ext other
    by_cases same : other = key item
    · subst same; simp [known, unseen]
    · simp [same]
  have total := Finset.sum_insert (f := degree)
    (show key item ∉ domain \ insert (key item) seen by simp)
  rw [← split] at total
  simp only [work, List.length_append, List.length_reverse, List.length_cons, total]
  omega

theorem traverse_terminates {domain : Finset κ} {degree : κ → Nat}
    (bounded : ∀ item more, next item = .ok more →
      key item ∈ domain ∧ more.length ≤ degree (key item))
    {steps : Nat} {pending : List ι} {seen : Finset κ}
    (enough : work domain degree pending seen < steps) :
    ∃ result, traverse key next steps pending seen = some result := by
  induction steps generalizing pending seen with
  | zero => omega
  | succ steps ih =>
      cases pending with
      | nil => exact ⟨_, rfl⟩
      | cons item pending =>
          simp only [traverse]
          split
          next =>
            apply ih
            simp only [work, List.length_cons] at enough ⊢
            omega
          next unseen =>
            cases follows : next item with
            | error failure => exact ⟨_, rfl⟩
            | ok more =>
                obtain ⟨known, small⟩ := bounded item more follows
                apply ih
                have less := work_visit pending known unseen small
                omega

/-! ### What a finished traversal has seen -/

/-- Every seen key belongs to a reached item whose followers are seen or pending. -/
structure Visited (key : ι → κ) (next : ι → Except ε (List ι)) (start pending : List ι)
    (seen : Finset κ) : Prop where
  pending_reached : ∀ item ∈ pending, Reached next start item
  seen_reached : ∀ mark ∈ seen, ∃ item more, key item = mark ∧ Reached next start item ∧
    next item = .ok more ∧ ∀ other ∈ more, key other ∈ seen ∨ other ∈ pending
  started : ∀ item ∈ start, key item ∈ seen ∨ item ∈ pending

omit [DecidableEq κ] in
theorem Visited.skip {start pending : List ι} {item : ι} {seen : Finset κ}
    (visited : Visited key next start (item :: pending) seen) (again : key item ∈ seen) :
    Visited key next start pending seen := by
  have settle : ∀ other, key other ∈ seen ∨ other ∈ item :: pending →
      key other ∈ seen ∨ other ∈ pending := by
    rintro other (found | waiting)
    · exact .inl found
    · rcases List.mem_cons.mp waiting with rfl | later
      · exact .inl again
      · exact .inr later
  refine ⟨fun other later => visited.pending_reached other (List.mem_cons_of_mem _ later), ?_,
    fun other member => settle other (visited.started other member)⟩
  intro mark member
  obtain ⟨origin, more, same, reached, follows, covered⟩ := visited.seen_reached mark member
  exact ⟨origin, more, same, reached, follows, fun other later => settle other (covered other later)⟩

theorem Visited.visit {start pending more : List ι} {item : ι} {seen : Finset κ}
    (visited : Visited key next start (item :: pending) seen) (follows : next item = .ok more) :
    Visited key next start (more.reverse ++ pending) (insert (key item) seen) := by
  have here := visited.pending_reached item (by simp)
  have settle : ∀ other, key other ∈ seen ∨ other ∈ item :: pending →
      key other ∈ insert (key item) seen ∨ other ∈ more.reverse ++ pending := by
    rintro other (found | waiting)
    · exact .inl (Finset.mem_insert_of_mem found)
    · rcases List.mem_cons.mp waiting with rfl | later
      · exact .inl (Finset.mem_insert_self _ _)
      · exact .inr (List.mem_append_right _ later)
  refine ⟨?_, ?_, fun other member => settle other (visited.started other member)⟩
  · intro other member
    rcases List.mem_append.mp member with fresh | old
    · exact here.follow ⟨more, follows, List.mem_reverse.mp fresh⟩
    · exact visited.pending_reached other (List.mem_cons_of_mem _ old)
  · intro mark member
    rcases Finset.mem_insert.mp member with rfl | old
    · exact ⟨item, more, rfl, here, follows, fun other later => .inr (by simp [later])⟩
    · obtain ⟨origin, rest, same, reached, known, covered⟩ := visited.seen_reached mark old
      exact ⟨origin, rest, same, reached, known, fun other later => settle other (covered other later)⟩

theorem Visited.traverse {start pending : List ι} {seen result : Finset κ}
    (visited : Visited key next start pending seen) {steps : Nat}
    (found : traverse key next steps pending seen = some (.ok result)) :
    Visited key next start [] result := by
  induction steps generalizing pending seen with
  | zero => cases found
  | succ steps ih =>
      cases pending with
      | nil =>
          simp only [Worklist.traverse, Option.some.injEq, Except.ok.injEq] at found
          exact found ▸ visited
      | cons item pending =>
          simp only [Worklist.traverse] at found
          split at found
          next again => exact ih (visited.skip again) found
          next =>
            cases follows : next item with
            | error failure => simp [follows] at found
            | ok more =>
                rw [follows] at found
                exact ih (visited.visit follows) found

/-- When equal keys mean equal items, a finished traversal has seen exactly the keys of the
reached items. -/
theorem mem_traverse_iff {start : List ι} {steps : Nat} {result : Finset κ}
    (identified : ∀ item other, Reached next start item → Reached next start other →
      key item = key other → item = other)
    (found : traverse key next steps start ∅ = some (.ok result)) (mark : κ) :
    mark ∈ result ↔ ∃ item, Reached next start item ∧ key item = mark := by
  have initial : Visited key next start start ∅ :=
    ⟨fun item member => ⟨item, member, .refl⟩, by simp, fun item member => .inr member⟩
  have final := initial.traverse found
  constructor
  · intro member
    obtain ⟨item, more, same, reached, _⟩ := final.seen_reached mark member
    exact ⟨item, reached, same⟩
  · rintro ⟨item, ⟨first, member, path⟩, rfl⟩
    have covered : key item ∈ result ∧ Reached next start item := by
      induction path with
      | refl =>
          exact ⟨by simpa using final.started first member, ⟨first, member, .refl⟩⟩
      | @tail middle other earlier follows ih =>
          obtain ⟨origin, more, same, reached, known, below⟩ := final.seen_reached _ ih.1
          obtain rfl := identified origin middle reached ih.2 same
          obtain ⟨further, again, found⟩ := follows
          obtain rfl : more = further := by rw [known] at again; exact Except.ok.inj again
          exact ⟨by simpa using below other found, ih.2.follow ⟨more, known, found⟩⟩
    exact covered.1

/-- No item reached by a finished traversal fails. -/
theorem next_of_reached {start : List ι} {steps : Nat} {result : Finset κ}
    (identified : ∀ item other, Reached next start item → Reached next start other →
      key item = key other → item = other)
    (found : traverse key next steps start ∅ = some (.ok result)) {item : ι}
    (reached : Reached next start item) : ∃ more, next item = .ok more := by
  have initial : Visited key next start start ∅ :=
    ⟨fun item member => ⟨item, member, .refl⟩, by simp, fun item member => .inr member⟩
  have member := (mem_traverse_iff identified found (key item)).mpr ⟨item, reached, rfl⟩
  obtain ⟨origin, more, same, known, follows, _⟩ :=
    (initial.traverse found).seen_reached _ member
  exact ⟨more, identified origin item known reached same ▸ follows⟩

/-- A traversal fails only where an item that it reached fails. -/
theorem exists_of_traverse_error {start pending : List ι} {seen : Finset κ} {steps : Nat}
    {failure : ε} (reached : ∀ item ∈ pending, Reached next start item)
    (failed : traverse key next steps pending seen = some (.error failure)) :
    ∃ item, Reached next start item ∧ next item = .error failure := by
  induction steps generalizing pending seen with
  | zero => cases failed
  | succ steps ih =>
      cases pending with
      | nil => cases failed
      | cons item pending =>
          have here := reached item (List.mem_cons_self ..)
          have later := fun other member => reached other (List.mem_cons_of_mem _ member)
          simp only [Worklist.traverse] at failed
          split at failed
          next => exact ih later failed
          next =>
            cases follows : next item with
            | error stopped =>
                rw [follows] at failed
                simp only [Option.some.injEq, Except.error.injEq] at failed
                exact ⟨item, here, failed ▸ follows⟩
            | ok more =>
                rw [follows] at failed
                refine ih (fun other member => ?_) failed
                rcases List.mem_append.mp member with fresh | old
                · exact here.follow ⟨more, follows, List.mem_reverse.mp fresh⟩
                · exact later other old

end Worklist
