import Mathlib.Algebra.BigOperators.Group.List.Basic
import Mathlib.Algebra.GroupWithZero.Nat
import Mathlib.Algebra.Order.BigOperators.Group.List
import Mathlib.Algebra.Order.Group.Nat
import Mathlib.Data.List.Nodup
import Mathlib.Data.List.Perm.Subperm
import Mathlib.Logic.Relation

/-!
A worklist under budgets. Each item is read once, under a cap that shrinks with the sizes read before it, and what it
is followed by is put on the list. Which runs are accepted, and what they have visited, does not depend on the order in
which the items are taken.
-/

namespace Budgeted

variable {ι κ ε γ : Type} [DecidableEq ι] [DecidableEq κ]

/-- One visited item: its size and the items that follow it. -/
structure Visit (ι : Type) where
  item : ι
  size : Nat
  next : List ι

structure Progress (ι : Type) where
  pending : List ι
  visited : List (Visit ι)
  used : Nat

/-- How items are read, what bounds them, and the failures. -/
structure Rules (ι κ ε γ : Type) where
  key : ι → κ
  check : ι → Except ε Unit
  read : ι → Nat → Except ε (Nat × γ)
  follow : ι → γ → Except ε (List ι)
  maxCount : Nat
  maxTotal : Nat
  maxEach : Nat
  conflicting : ε
  tooMany : ε
  exhausted : ε
  exceeded : ε

variable (rules : Rules ι κ ε γ)

namespace Rules

/-- Take one item, with the rest of the list left to do. -/
def step (progress : Progress ι) (item : ι) (rest : List ι) : Except ε (Progress ι) := do
  rules.check item
  match progress.visited.find? fun visit => rules.key visit.item = rules.key item with
  | some earlier =>
      if earlier.item = item then .ok { progress with pending := rest } else .error rules.conflicting
  | none =>
      if rules.maxCount ≤ progress.visited.length then .error rules.tooMany
      else
        let cap := min (rules.maxTotal - progress.used) rules.maxEach
        if cap = 0 then .error rules.exhausted
        else do
          let (size, content) ← rules.read item cap
          if rules.maxTotal < progress.used + size then .error rules.exceeded
          else do
            let next ← rules.follow item content
            .ok ⟨next.reverse ++ rest, progress.visited ++ [⟨item, size, next⟩], progress.used + size⟩

/-- Take items until none is pending, each time the first of an arrangement of the list. -/
def run (arrange : List ι → List ι) : Nat → Progress ι → Option (Except ε (Progress ι))
  | 0, _ => none
  | steps + 1, progress =>
      match arrange progress.pending with
      | [] => some (.ok progress)
      | item :: rest =>
          match rules.step progress item rest with
          | .error failure => some (.error failure)
          | .ok next => run arrange steps next

/-- A read under the largest cap, and what follows from it. -/
def Reads (item : ι) (size : Nat) (next : List ι) : Prop :=
  rules.check item = .ok () ∧
    ∃ content, rules.read item rules.maxEach = .ok (size, content) ∧ rules.follow item content = .ok next

/-- Caps only bound the size, no item is empty, and no item is followed by too many. -/
structure Lawful (degree : Nat) : Prop where
  capped : ∀ item cap size content, cap ≤ rules.maxEach →
    (rules.read item cap = .ok (size, content) ↔ rules.read item rules.maxEach = .ok (size, content) ∧ size ≤ cap)
  positive : ∀ item cap size content, rules.read item cap = .ok (size, content) → 0 < size
  small : ∀ item content next, rules.follow item content = .ok next → next.length ≤ degree

def start (items : List ι) : Progress ι := ⟨items.reverse, [], 0⟩

def Follows (item other : ι) : Prop := ∃ size next, rules.Reads item size next ∧ other ∈ next

/-- An item that some starting item leads to. -/
def Reached (items : List ι) (item : ι) : Prop :=
  ∃ first ∈ items, Relation.ReflTransGen rules.Follows first item

/-- The visits of an accepted run, described without any order. -/
structure Accepted (items : List ι) (visits : List (Visit ι)) : Prop where
  distinct : (visits.map fun visit => rules.key visit.item).Nodup
  reads : ∀ visit ∈ visits, rules.Reads visit.item visit.size visit.next
  starts : ∀ item ∈ items, ∃ visit ∈ visits, visit.item = item
  closed : ∀ visit ∈ visits, ∀ item ∈ visit.next, ∃ other ∈ visits, other.item = item
  reached : ∀ visit ∈ visits, rules.Reached items visit.item
  count : visits.length ≤ rules.maxCount
  total : (visits.map Visit.size).sum ≤ rules.maxTotal

variable {rules}

omit [DecidableEq ι] [DecidableEq κ] in
theorem Reads.unique {item : ι} {size other : Nat} {next more : List ι} (first : rules.Reads item size next)
    (second : rules.Reads item other more) : size = other ∧ next = more := by
  obtain ⟨_, content, read, follow⟩ := first
  obtain ⟨_, content', read', follow'⟩ := second
  rw [read] at read'
  obtain ⟨rfl, rfl⟩ := Prod.mk.inj (Except.ok.inj read')
  rw [follow] at follow'
  exact ⟨rfl, Except.ok.inj follow'⟩

/-! ### One step -/

variable (rules) in
/-- What a step that does not fail has done. -/
inductive Stepped (progress : Progress ι) (item : ι) (rest : List ι) : Progress ι → Prop
  | skip (again : ∃ visit ∈ progress.visited, visit.item = item) :
      Stepped progress item rest { progress with pending := rest }
  | visit {size : Nat} {content : γ} {next : List ι} (admitted : rules.check item = .ok ())
      (fresh : ∀ visit ∈ progress.visited, rules.key visit.item ≠ rules.key item)
      (room : progress.visited.length < rules.maxCount)
      (read : rules.read item (min (rules.maxTotal - progress.used) rules.maxEach) = .ok (size, content))
      (follow : rules.follow item content = .ok next) (fits : progress.used + size ≤ rules.maxTotal) :
      Stepped progress item rest
        ⟨next.reverse ++ rest, progress.visited ++ [⟨item, size, next⟩], progress.used + size⟩

theorem step_eq_ok {progress next : Progress ι} {item : ι} {rest : List ι}
    (stepped : rules.step progress item rest = .ok next) : Stepped rules progress item rest next := by
  cases admitted : rules.check item with
  | error failure =>
      rw [step, admitted] at stepped
      cases stepped
  | ok _ =>
      rw [step, admitted] at stepped
      simp only [bind, Except.bind] at stepped
      split at stepped
      next earlier found =>
        split at stepped
        next same =>
          obtain rfl := Except.ok.inj stepped
          exact .skip ⟨earlier, List.mem_of_find?_eq_some found, same⟩
        next => cases stepped
      next absent =>
        have fresh : ∀ visit ∈ progress.visited, rules.key visit.item ≠ rules.key item := by
          simpa using List.find?_eq_none.mp absent
        split at stepped
        next => cases stepped
        next room =>
          split at stepped
          next => cases stepped
          next =>
            cases read : rules.read item (min (rules.maxTotal - progress.used) rules.maxEach) with
            | error failure =>
                rw [read] at stepped
                cases stepped
            | ok result =>
                obtain ⟨size, content⟩ := result
                rw [read] at stepped
                simp only at stepped
                split at stepped
                next => cases stepped
                next fits =>
                  cases follow : rules.follow item content with
                  | error failure =>
                      rw [follow] at stepped
                      cases stepped
                  | ok more =>
                      rw [follow] at stepped
                      obtain rfl := Except.ok.inj stepped
                      exact .visit admitted fresh (by omega) read follow (by omega)

/-! ### What an accepted run has visited -/

/-- What is known of a run so far: what is visited is read, and what must follow is visited or pending. -/
structure Known (rules : Rules ι κ ε γ) (items : List ι) (progress : Progress ι) : Prop where
  pending : ∀ item ∈ progress.pending, rules.Reached items item
  distinct : (progress.visited.map fun visit => rules.key visit.item).Nodup
  reads : ∀ visit ∈ progress.visited, rules.Reads visit.item visit.size visit.next
  starts : ∀ item ∈ items, (∃ visit ∈ progress.visited, visit.item = item) ∨ item ∈ progress.pending
  closed : ∀ visit ∈ progress.visited, ∀ item ∈ visit.next,
    (∃ other ∈ progress.visited, other.item = item) ∨ item ∈ progress.pending
  reached : ∀ visit ∈ progress.visited, rules.Reached items visit.item
  count : progress.visited.length ≤ rules.maxCount
  used : progress.used = (progress.visited.map Visit.size).sum
  total : progress.used ≤ rules.maxTotal

omit [DecidableEq ι] [DecidableEq κ] in
theorem known_start (items : List ι) : Known rules items (start items) where
  pending item found := ⟨item, List.mem_reverse.mp found, .refl⟩
  distinct := List.nodup_nil
  reads _ found := nomatch found
  starts _ found := .inr (List.mem_reverse.mpr found)
  closed _ found := nomatch found
  reached _ found := nomatch found
  count := Nat.zero_le _
  used := rfl
  total := Nat.zero_le _

omit [DecidableEq ι] [DecidableEq κ] in
theorem Known.step {degree : Nat} (lawful : rules.Lawful degree) {items : List ι} {progress next : Progress ι}
    (known : Known rules items progress) {item : ι} {rest : List ι} (taken : (item :: rest).Perm progress.pending)
    (stepped : Stepped rules progress item rest next) : Known rules items next := by
  have later {other : ι} (found : other ∈ rest) : other ∈ progress.pending :=
    taken.mem_iff.mp (List.mem_cons_of_mem _ found)
  have here : rules.Reached items item := known.pending item (taken.mem_iff.mp List.mem_cons_self)
  have split {other : ι} (found : other ∈ progress.pending) : other = item ∨ other ∈ rest :=
    List.mem_cons.mp (taken.mem_iff.mpr found)
  cases stepped with
  | skip again =>
      have settle {other : ι} (state : (∃ visit ∈ progress.visited, visit.item = other) ∨ other ∈ progress.pending) :
          (∃ visit ∈ progress.visited, visit.item = other) ∨ other ∈ rest := by
        rcases state with found | waiting
        · exact .inl found
        · rcases split waiting with rfl | rest
          · exact .inl again
          · exact .inr rest
      exact { known with
        pending := fun other found => known.pending other (later found)
        starts := fun other found => settle (known.starts other found)
        closed := fun visit found other follows => settle (known.closed visit found other follows) }
  | @visit size content more admitted fresh room read follow fits =>
      have reads : rules.Reads item size more :=
        ⟨admitted, content, ((lawful.capped item _ size content (Nat.min_le_right ..)).mp read).1, follow⟩
      have settle {other : ι} (state : (∃ visit ∈ progress.visited, visit.item = other) ∨ other ∈ progress.pending) :
          (∃ visit ∈ progress.visited ++ [⟨item, size, more⟩], visit.item = other) ∨ other ∈ more.reverse ++ rest := by
        rcases state with ⟨visit, found, same⟩ | waiting
        · exact .inl ⟨visit, List.mem_append_left _ found, same⟩
        · rcases split waiting with rfl | rest
          · exact .inl ⟨_, List.mem_append_right _ (List.mem_singleton_self _), rfl⟩
          · exact .inr (List.mem_append_right _ rest)
      refine ⟨?_, ?_, ?_, fun other found => settle (known.starts other found), ?_, ?_, ?_, ?_, fits⟩
      · intro other found
        rcases List.mem_append.mp found with new | old
        · obtain ⟨first, member, path⟩ := here
          exact ⟨first, member, path.tail ⟨size, more, reads, List.mem_reverse.mp new⟩⟩
        · exact known.pending other (later old)
      · rw [List.map_append, List.map_singleton, List.nodup_append]
        refine ⟨known.distinct, List.nodup_singleton _, ?_⟩
        intro one first two second
        obtain ⟨visit, found, rfl⟩ := List.mem_map.mp first
        rw [List.mem_singleton.mp second]
        exact fresh visit found
      · intro visit found
        rcases List.mem_append.mp found with old | new
        · exact known.reads visit old
        · rw [List.mem_singleton.mp new]
          exact reads
      · intro visit found other follows
        rcases List.mem_append.mp found with old | new
        · exact settle (known.closed visit old other follows)
        · rw [List.mem_singleton.mp new] at follows
          exact .inr (List.mem_append_left _ (List.mem_reverse.mpr follows))
      · intro visit found
        rcases List.mem_append.mp found with old | new
        · exact known.reached visit old
        · rw [List.mem_singleton.mp new]
          exact here
      · rw [List.length_append, List.length_singleton]
        exact room
      · rw [List.map_append, List.sum_append, known.used]
        simp

/-- Arrangements only reorder. -/
def Reorders (arrange : List ι → List ι) : Prop := ∀ items, (arrange items).Perm items

theorem Known.run {degree : Nat} (lawful : rules.Lawful degree) {arrange : List ι → List ι}
    (reorders : Reorders arrange) {items : List ι} {progress result : Progress ι} (known : Known rules items progress)
    {steps : Nat} (ran : rules.run arrange steps progress = some (.ok result)) :
    Known rules items result ∧ result.pending = [] := by
  induction steps generalizing progress with
  | zero => cases ran
  | succ steps ih =>
      have order := reorders progress.pending
      rw [Rules.run] at ran
      split at ran
      next done =>
        obtain rfl := Except.ok.inj (Option.some.inj ran)
        rw [done] at order
        exact ⟨known, List.nil_perm.mp order⟩
      next item rest shape =>
        rw [shape] at order
        cases stepped : rules.step progress item rest with
        | error failure =>
            rw [stepped] at ran
            cases ran
        | ok next =>
            rw [stepped] at ran
            exact ih (known.step lawful order (step_eq_ok stepped)) ran

theorem accepted_of_run {degree : Nat} (lawful : rules.Lawful degree) {arrange : List ι → List ι}
    (reorders : Reorders arrange) {items : List ι} {result : Progress ι} {steps : Nat}
    (ran : rules.run arrange steps (start items) = some (.ok result)) : rules.Accepted items result.visited := by
  have first : Known rules items (start items) := known_start items
  obtain ⟨known, done⟩ := first.run lawful reorders ran
  have settled {other : ι} (state : (∃ visit ∈ result.visited, visit.item = other) ∨ other ∈ result.pending) :
      ∃ visit ∈ result.visited, visit.item = other := by
    rcases state with found | waiting
    · exact found
    · rw [done] at waiting
      cases waiting
  exact ⟨known.distinct, known.reads, fun item found => settled (known.starts item found),
    fun visit found item follows => settled (known.closed visit found item follows), known.reached, known.count,
    known.used ▸ known.total⟩

/-! ### Every order accepts -/

omit [DecidableEq ι] [DecidableEq κ] in
theorem Accepted.visits_reached {items : List ι} {visits : List (Visit ι)} (accepted : rules.Accepted items visits)
    {item : ι} (reached : rules.Reached items item) : ∃ visit ∈ visits, visit.item = item := by
  obtain ⟨first, member, path⟩ := reached
  induction path with
  | refl => exact accepted.starts first member
  | tail _ follows ih =>
      obtain ⟨visit, found, rfl⟩ := ih
      obtain ⟨size, next, reads, listed⟩ := follows
      rw [((accepted.reads visit found).unique reads).2.symm] at listed
      exact accepted.closed visit found _ listed

omit [DecidableEq ι] [DecidableEq κ] in
theorem Accepted.subset {items others : List ι} (same : ∀ item ∈ items, item ∈ others) {visits more : List (Visit ι)}
    (first : rules.Accepted items visits) (second : rules.Accepted others more) : visits ⊆ more := by
  intro visit found
  obtain ⟨origin, member, path⟩ := first.reached visit found
  obtain ⟨other, there, equal⟩ := second.visits_reached ⟨origin, same origin member, path⟩
  obtain ⟨sizes, nexts⟩ := (first.reads visit found).unique (equal ▸ second.reads other there)
  obtain ⟨item, size, next⟩ := visit
  obtain ⟨item', size', next'⟩ := other
  simp only at equal sizes nexts
  rw [← equal, sizes, nexts]
  exact there

omit [DecidableEq ι] [DecidableEq κ] in
theorem Accepted.nodup {items : List ι} {visits : List (Visit ι)} (accepted : rules.Accepted items visits) :
    visits.Nodup := List.Nodup.of_map _ accepted.distinct

omit [DecidableEq ι] [DecidableEq κ] in
/-- What is visited does not depend on the order. -/
theorem Accepted.perm {items others : List ι} (same : ∀ item, item ∈ items ↔ item ∈ others)
    {visits more : List (Visit ι)} (first : rules.Accepted items visits) (second : rules.Accepted others more) :
    visits.Perm more :=
  (List.perm_ext_iff_of_nodup first.nodup second.nodup).mpr fun _ =>
    ⟨fun found => first.subset (fun item => (same item).mp) second found,
      fun found => second.subset (fun item => (same item).mpr) first found⟩

omit [DecidableEq ι] [DecidableEq κ] in
/-- Rules that read the visited items in the same way, under budgets that are no smaller, accept the same visits. -/
theorem Accepted.transfer {other : Rules ι κ ε γ} {items : List ι} {visits : List (Visit ι)}
    (accepted : rules.Accepted items visits) (keys : other.key = rules.key)
    (reads : ∀ visit ∈ visits, other.Reads visit.item visit.size visit.next) (count : rules.maxCount ≤ other.maxCount)
    (total : rules.maxTotal ≤ other.maxTotal) : other.Accepted items visits where
  distinct := keys ▸ accepted.distinct
  reads := reads
  starts := accepted.starts
  closed := accepted.closed
  reached visit found := by
    obtain ⟨first, member, path⟩ := accepted.reached visit found
    refine ⟨first, member, ?_⟩
    generalize visit.item = item at path
    induction path with
    | refl => exact .refl
    | tail before follows ih =>
        obtain ⟨size, next, read, listed⟩ := follows
        obtain ⟨middle, inside, rfl⟩ := accepted.visits_reached ⟨first, member, before⟩
        obtain ⟨rfl, rfl⟩ := (accepted.reads middle inside).unique read
        exact ih.tail ⟨_, _, reads middle inside, listed⟩
  count := accepted.count.trans count
  total := accepted.total.trans total

/-- A run that stays inside the visits of an accepted one. -/
structure Within (visits : List (Visit ι)) (progress : Progress ι) : Prop where
  pending : ∀ item ∈ progress.pending, ∃ visit ∈ visits, visit.item = item
  visited : progress.visited ⊆ visits
  distinct : progress.visited.Nodup
  used : progress.used = (progress.visited.map Visit.size).sum

omit [DecidableEq ι] in
theorem sum_le_of_subset {visits some : List (Visit ι)} (distinct : some.Nodup) (inside : some ⊆ visits) :
    (some.map Visit.size).sum ≤ (visits.map Visit.size).sum := by
  obtain ⟨middle, same, below⟩ := List.subperm_of_subset distinct inside
  rw [← (same.map Visit.size).sum_eq]
  exact (below.map Visit.size).sum_le_sum fun _ _ => Nat.zero_le _

theorem Within.step {degree : Nat} (lawful : rules.Lawful degree) {items : List ι} {visits : List (Visit ι)}
    (accepted : rules.Accepted items visits) {progress : Progress ι} (within : Within visits progress) {item : ι}
    {rest : List ι} (taken : (item :: rest).Perm progress.pending) :
    ∃ next, rules.step progress item rest = .ok next ∧ Within visits next := by
  have later {other : ι} (found : other ∈ rest) : ∃ visit ∈ visits, visit.item = other :=
    within.pending other (taken.mem_iff.mp (List.mem_cons_of_mem _ found))
  obtain ⟨visit, member, rfl⟩ := within.pending item (taken.mem_iff.mp List.mem_cons_self)
  obtain ⟨admitted, content, read, follow⟩ := accepted.reads visit member
  rw [Rules.step, admitted]
  simp only [bind, Except.bind]
  cases found : progress.visited.find? fun other => rules.key other.item = rules.key visit.item with
  | some earlier =>
      have listed := within.visited (List.mem_of_find?_eq_some found)
      have same : rules.key earlier.item = rules.key visit.item := by simpa using List.find?_some found
      obtain rfl : earlier = visit := List.inj_on_of_nodup_map accepted.distinct listed member same
      exact ⟨_, if_pos rfl, fun other waiting => later waiting, within.visited, within.distinct, within.used⟩
  | none =>
      have fresh : visit ∉ progress.visited := by
        intro here
        have differs := List.find?_eq_none.mp found visit here
        simp at differs
      have distinct : (progress.visited ++ [visit]).Nodup := by
        rw [List.nodup_append]
        refine ⟨within.distinct, List.nodup_singleton _, ?_⟩
        rintro one first two second rfl
        exact fresh (List.mem_singleton.mp second ▸ first)
      have inside : progress.visited ++ [visit] ⊆ visits := by
        intro other listed
        rcases List.mem_append.mp listed with old | new
        · exact within.visited old
        · rw [List.mem_singleton.mp new]
          exact member
      have lengths := (List.subperm_of_subset distinct inside).length_le
      have sums := sum_le_of_subset distinct inside
      rw [List.length_append, List.length_singleton] at lengths
      rw [List.map_append, List.sum_append, ← within.used, List.map_singleton, List.sum_singleton] at sums
      have counted := accepted.count
      have total := accepted.total
      have positive := lawful.positive _ _ _ _ read
      have each := ((lawful.capped visit.item rules.maxEach visit.size content le_rfl).mp read).2
      have capped := (lawful.capped visit.item (min (rules.maxTotal - progress.used) rules.maxEach) visit.size content
        (Nat.min_le_right ..)).mpr ⟨read, by omega⟩
      have cap : min (rules.maxTotal - progress.used) rules.maxEach ≠ 0 := by omega
      simp only [capped, follow]
      rw [if_neg (by omega), if_neg cap, if_neg (by omega)]
      refine ⟨_, rfl, ?_, inside, distinct, ?_⟩
      · intro other waiting
        rcases List.mem_append.mp waiting with new | old
        · exact accepted.closed visit member other (List.mem_reverse.mp new)
        · exact later old
      · rw [List.map_append, List.sum_append, within.used]
        simp

/-! ### Termination -/

/-- Steps that a run can still take: the pending items, and for each further visit the items that it puts on. -/
def work (rules : Rules ι κ ε γ) (degree : Nat) (progress : Progress ι) : Nat :=
  progress.pending.length + (rules.maxCount - progress.visited.length) * (degree + 1)

omit [DecidableEq ι] [DecidableEq κ] in
theorem work_stepped {degree : Nat} (lawful : rules.Lawful degree) {progress next : Progress ι} {item : ι}
    {rest : List ι} (taken : (item :: rest).Perm progress.pending)
    (stepped : Stepped rules progress item rest next) : work rules degree next < work rules degree progress := by
  have length := taken.length_eq
  rw [List.length_cons] at length
  cases stepped with
  | skip => simp only [work]; omega
  | @visit size content more admitted fresh room read follow fits =>
      have small := lawful.small item content more follow
      have left : rules.maxCount - progress.visited.length = (rules.maxCount - (progress.visited.length + 1)) + 1 := by
        omega
      simp only [work, List.length_append, List.length_reverse, List.length_singleton, left, Nat.add_mul, Nat.one_mul]
      omega

theorem run_terminates {degree : Nat} (lawful : rules.Lawful degree) {arrange : List ι → List ι}
    (reorders : Reorders arrange) {progress : Progress ι} {steps : Nat} (enough : work rules degree progress < steps) :
    ∃ outcome, rules.run arrange steps progress = some outcome := by
  induction steps generalizing progress with
  | zero => omega
  | succ steps ih =>
      have order := reorders progress.pending
      rw [Rules.run]
      split
      next => exact ⟨_, rfl⟩
      next item rest shape =>
        rw [shape] at order
        cases stepped : rules.step progress item rest with
        | error failure => exact ⟨_, rfl⟩
        | ok next =>
            have less := work_stepped lawful order (step_eq_ok stepped)
            exact ih (by omega)

/-- More steps do not change how a run ends. -/
theorem run_mono {arrange : List ι → List ι} {progress : Progress ι} {steps more : Nat} (le : steps ≤ more)
    {outcome : Except ε (Progress ι)} (ran : rules.run arrange steps progress = some outcome) :
    rules.run arrange more progress = some outcome := by
  induction steps generalizing progress more with
  | zero => cases ran
  | succ steps ih =>
      obtain ⟨more, rfl⟩ := Nat.exists_eq_add_of_le' (Nat.lt_of_lt_of_le (Nat.succ_pos steps) le)
      rw [Rules.run] at ran ⊢
      split at ran
      next => exact ran
      next item rest shape =>
        cases stepped : rules.step progress item rest with
        | error failure =>
            rw [stepped] at ran
            exact ran
        | ok next =>
            rw [stepped] at ran
            exact ih (by omega) ran

theorem Within.run {degree : Nat} (lawful : rules.Lawful degree) {arrange : List ι → List ι}
    (reorders : Reorders arrange) {items : List ι} {visits : List (Visit ι)} (accepted : rules.Accepted items visits)
    {progress : Progress ι} (within : Within visits progress) {steps : Nat} {outcome : Except ε (Progress ι)}
    (ran : rules.run arrange steps progress = some outcome) : ∃ result, outcome = .ok result := by
  induction steps generalizing progress with
  | zero => cases ran
  | succ steps ih =>
      have order := reorders progress.pending
      rw [Rules.run] at ran
      split at ran
      next => exact ⟨_, (Option.some.inj ran).symm⟩
      next item rest shape =>
        rw [shape] at order
        obtain ⟨next, stepped, inside⟩ := within.step lawful accepted order
        rw [stepped] at ran
        exact ih inside ran

/-- Where one order accepts, every order does, with the same visits. -/
theorem run_of_accepted {degree : Nat} (lawful : rules.Lawful degree) {arrange : List ι → List ι}
    (reorders : Reorders arrange) {items others : List ι} (same : ∀ item, item ∈ items ↔ item ∈ others)
    {visits : List (Visit ι)} (accepted : rules.Accepted items visits) {steps : Nat}
    {outcome : Except ε (Progress ι)} (ran : rules.run arrange steps (start others) = some outcome) :
    ∃ result, outcome = .ok result ∧ result.visited.Perm visits := by
  have within : Within visits (start others) :=
    ⟨fun item found => accepted.starts item ((same item).mpr (List.mem_reverse.mp found)),
      List.nil_subset _, List.nodup_nil, rfl⟩
  obtain ⟨result, rfl⟩ := within.run lawful reorders accepted ran
  exact ⟨result, rfl, (accepted_of_run lawful reorders ran).perm (fun item => (same item).symm) accepted⟩

end Rules

end Budgeted
