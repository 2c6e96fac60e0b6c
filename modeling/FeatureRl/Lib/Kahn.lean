import FeatureRl.Lib.Dict
import Mathlib.Data.Finset.Basic
import Mathlib.Data.Fintype.Card
import Mathlib.Logic.Relation
import Mathlib.Order.WellFounded
import Mathlib.Data.Fintype.Order
import Mathlib.Tactic.Ring

/-!
Kahn's acyclicity test over a dictionary of remaining prerequisites. The loop counts
the nodes it releases; it releases every node exactly when the graph has no cycle.
-/

namespace Kahn

variable {α : Type*} [DecidableEq α]

/-- No node is its own transitive prerequisite. -/
def Acyclic (edge : α → α → Prop) : Prop := ∀ node, ¬ Relation.TransGen edge node node

/-- Extending an acyclic graph whose nodes keep their edges: a cycle uses new edges only. -/
theorem acyclic_iff_of_settled {α : Type*} (settled : α → Prop) {old new full : α → α → Prop}
    (stays : ∀ node parent, settled node → full node parent → old node parent ∧ settled parent)
    (added : ∀ node parent, ¬ settled node → full node parent → new node parent)
    (within : ∀ node parent, new node parent → full node parent) (acyclic : Acyclic old) :
    Acyclic full ↔ Acyclic new := by
  have older : ∀ {node target}, settled node → Relation.TransGen full node target →
      Relation.TransGen old node target ∧ settled target := by
    intro node target start path
    induction path with
    | single edge =>
        obtain ⟨before, after⟩ := stays _ _ start edge
        exact ⟨.single before, after⟩
    | tail _ edge ih =>
        obtain ⟨before, after⟩ := stays _ _ ih.2 edge
        exact ⟨ih.1.tail before, after⟩
  have newer : ∀ {node target}, ¬ settled target → Relation.TransGen full node target →
      Relation.TransGen new node target := by
    intro node target fresh path
    induction path using Relation.TransGen.head_induction_on with
    | single edge => exact .single (added _ _ (fun start => fresh (stays _ _ start edge).2) edge)
    | head edge rest ih =>
        exact .head (added _ _ (fun start =>
          fresh (older start (.head edge rest)).2) edge) ih
  constructor
  · exact fun none node cycle => none node (Relation.TransGen.mono within node node cycle)
  · intro none node cycle
    by_cases start : settled node
    · exact acyclic node (older start cycle).1
    · exact none node (newer start cycle)

/-- Decrement every child's count; a child whose count reaches zero becomes ready. -/
def releaseChildren : List α → Dict α Int → List α → Dict α Int × List α
  | [], remaining, ready => (remaining, ready)
  | child :: rest, remaining, ready =>
      let count := (remaining.get? child).getD 0 - 1
      releaseChildren rest (remaining.set child count)
        (if count = 0 then child :: ready else ready)

/-- The number of nodes released from the stack `ready`, whose top is its head. -/
def countReleased (children : Dict α (List α)) : Nat → List α → Dict α Int → Nat → Nat
  | 0, _, _, visited => visited
  | _ + 1, [], _, visited => visited
  | fuel + 1, key :: ready, remaining, visited =>
      let (remaining, ready) :=
        releaseChildren ((children.get? key).getD []) remaining ready
      countReleased children fuel ready remaining (visited + 1)

theorem releaseChildren_remaining (released : List α) (unique : released.Nodup)
    (remaining : Dict α Int) (ready : List α) (node : α) :
    ((releaseChildren released remaining ready).1.get? node).getD 0 =
      (remaining.get? node).getD 0 - if node ∈ released then 1 else 0 := by
  induction released generalizing remaining ready with
  | nil => simp [releaseChildren]
  | cons child rest ih =>
      obtain ⟨absent, tail⟩ := List.nodup_cons.mp unique
      rw [releaseChildren, ih tail, Dict.get?_set]
      by_cases same : node = child
      · subst same
        simp [absent]
      · simp [same]

theorem releaseChildren_ready (released : List α) (unique : released.Nodup)
    (remaining : Dict α Int) (ready : List α) :
    (releaseChildren released remaining ready).2 =
      (released.filter fun child => (remaining.get? child).getD 0 = 1).reverse ++ ready := by
  induction released generalizing remaining ready with
  | nil => simp [releaseChildren]
  | cons child rest ih =>
      obtain ⟨absent, tail⟩ := List.nodup_cons.mp unique
      have later : (rest.filter fun other =>
          ((remaining.set child ((remaining.get? child).getD 0 - 1)).get? other).getD 0 = 1) =
          rest.filter fun other => (remaining.get? other).getD 0 = 1 := by
        apply List.filter_congr
        intro other member
        rw [Dict.get?_set_ne _ _ (by rintro rfl; exact absent member)]
      rw [releaseChildren, ih tail, later, List.filter_cons]
      by_cases last : (remaining.get? child).getD 0 = 1
      · simp [last]
      · have nonzero : (remaining.get? child).getD 0 - 1 ≠ 0 := by omega
        simp [last, nonzero]

section Graph

variable {α : Type*} (nodes : List α) (parents : α → List α)

/-- Each node of the graph points at its prerequisites. -/
def Edge (child parent : α) : Prop := child ∈ nodes ∧ parent ∈ parents child

/-- A release order, latest first: prerequisites precede what needs them. -/
def Layered : List α → Prop
  | [] => True
  | node :: earlier => (∀ parent ∈ parents node, parent ∈ earlier) ∧ Layered earlier

theorem Layered.parents_mem {done : List α} (layered : Layered parents done) {node parent : α}
    (member : node ∈ done) (needs : parent ∈ parents node) : parent ∈ done := by
  induction done with
  | nil => cases member
  | cons first earlier ih =>
      rcases List.mem_cons.mp member with rfl | older
      · exact List.mem_cons_of_mem _ (layered.1 parent needs)
      · exact List.mem_cons_of_mem _ (ih layered.2 older)

theorem Layered.acc {done : List α} (layered : Layered parents done) {node : α}
    (member : node ∈ done) : Acc (fun parent child => Edge nodes parents child parent) node := by
  induction done generalizing node with
  | nil => cases member
  | cons first earlier ih =>
      rcases List.mem_cons.mp member with rfl | older
      · exact ⟨_, fun parent edge => ih layered.2 (layered.1 parent edge.2)⟩
      · exact ih layered.2 older

theorem not_self_of_acc {relation : α → α → Prop} {node : α} (accessible : Acc relation node) :
    ¬ relation node node := by
  induction accessible with
  | intro node _ ih => exact fun related => ih node related related

theorem Layered.acyclic {done : List α} (layered : Layered parents done)
    (covers : ∀ node ∈ nodes, node ∈ done) : Acyclic (Edge nodes parents) := by
  intro node cycle
  have start : node ∈ nodes := by
    rcases Relation.TransGen.head'_iff.mp cycle with ⟨_, edge, _⟩
    exact edge.1
  have accessible := (layered.acc nodes parents (covers node start)).transGen
  have swapped : Relation.TransGen (fun parent child => Edge nodes parents child parent)
      node node := Relation.transGen_swap.mp cycle
  exact not_self_of_acc accessible swapped

/-- A nonempty set of nodes of an acyclic graph has a node without prerequisites in it. -/
theorem exists_source (acyclic : Acyclic (Edge nodes parents)) {pending : List α}
    (within : ∀ node ∈ pending, node ∈ nodes) (nonempty : pending ≠ []) :
    ∃ node ∈ pending, ∀ parent ∈ parents node, parent ∉ pending := by
  let below : {node // node ∈ pending} → {node // node ∈ pending} → Prop :=
    fun parent child => Relation.TransGen (Edge nodes parents) child.1 parent.1
  have : Finite {node // node ∈ pending} := List.finite_toSet pending
  have : IsTrans _ below := ⟨fun _ _ _ first second => second.trans first⟩
  have : Std.Irrefl below := ⟨fun node cycle => acyclic node.1 cycle⟩
  have founded : WellFounded below := Finite.wellFounded_of_trans_of_irrefl below
  obtain ⟨first, member⟩ := List.exists_mem_of_ne_nil pending nonempty
  obtain ⟨source, _, minimal⟩ := founded.has_min Set.univ ⟨⟨first, member⟩, trivial⟩
  refine ⟨source.1, source.2, fun parent needs found => ?_⟩
  exact minimal ⟨parent, found⟩ trivial (Relation.TransGen.single ⟨within _ source.2, needs⟩)

variable [DecidableEq α]

/-- What the loop keeps: `done` was released in order, `ready` waits on the stack, and each
count is the number of prerequisites not yet released. -/
structure Progress (done ready : List α) (remaining : Dict α Int) : Prop where
  unique : (done ++ ready).Nodup
  within : ∀ node ∈ done ++ ready, node ∈ nodes
  layered : Layered parents done
  counts : ∀ node ∈ nodes, (remaining.get? node).getD 0 =
    (parents node).countP (fun parent => parent ∉ done)
  released : ∀ node ∈ nodes, node ∈ done ++ ready ↔ ∀ parent ∈ parents node, parent ∈ done

variable {nodes : List α} {parents : α → List α}

theorem Progress.children_unreleased {done ready : List α} {remaining : Dict α Int} {key : α}
    (progress : Progress nodes parents done (key :: ready) remaining) {child : α}
    (member : child ∈ nodes) (needs : key ∈ parents child) :
    child ∉ done ++ key :: ready := by
  intro found
  have early := (progress.released child member).mp found key needs
  have disjoint := (List.nodup_append.mp progress.unique).2.2
  exact disjoint key early key (by simp) rfl

theorem countP_notMem_cons {list done : List α} (unique : list.Nodup) {key : α}
    (fresh : key ∉ done) :
    (list.countP (fun parent => parent ∉ key :: done) : Int) =
      list.countP (fun parent => parent ∉ done) - if key ∈ list then 1 else 0 := by
  induction list with
  | nil => simp
  | cons first rest ih =>
      obtain ⟨absent, tail⟩ := List.nodup_cons.mp unique
      have step := ih tail
      simp only [List.countP_cons, List.mem_cons, decide_not] at step ⊢
      by_cases same : first = key
      · subst same
        simp only [absent, ↓reduceIte] at step
        simp [absent, fresh] at step ⊢
        omega
      · have other : ¬ key = first := fun equal => same equal.symm
        by_cases stale : first ∈ done <;> simp [same, other, stale] at step ⊢ <;> omega

/-- One turn of the loop: the top node is released and its children are updated. -/
theorem Progress.step {done ready : List α} {remaining : Dict α Int} {key : α}
    {children : List α} (progress : Progress nodes parents done (key :: ready) remaining)
    (uniqueNodes : ∀ node ∈ nodes, (parents node).Nodup) (uniqueChildren : children.Nodup)
    (childrenOf : ∀ child, child ∈ children ↔ child ∈ nodes ∧ key ∈ parents child) :
    Progress nodes parents (key :: done) (releaseChildren children remaining ready).2
      (releaseChildren children remaining ready).1 := by
  have fresh : key ∉ done := by
    intro early
    exact (List.nodup_append.mp progress.unique).2.2 key early key (by simp) rfl
  have shifted : ∀ node ∈ nodes,
      ((releaseChildren children remaining ready).1.get? node).getD 0 =
        (parents node).countP (fun parent => parent ∉ key :: done) := by
    intro node member
    rw [releaseChildren_remaining children uniqueChildren, progress.counts node member,
      countP_notMem_cons (uniqueNodes node member) fresh]
    simp [childrenOf, member]
  have newlyReady : ∀ node, node ∈ (releaseChildren children remaining ready).2 ↔
      (node ∈ children ∧ (remaining.get? node).getD 0 = 1) ∨ node ∈ ready := by
    intro node
    rw [releaseChildren_ready children uniqueChildren]
    simp
  have readyNodup : (releaseChildren children remaining ready).2.Nodup := by
    rw [releaseChildren_ready children uniqueChildren, List.nodup_append]
    have tail := (List.nodup_cons.mp (List.nodup_append.mp progress.unique).2.1).2
    refine ⟨List.nodup_reverse.mpr (uniqueChildren.filter _), tail, ?_⟩
    rintro node fromChildren other fromReady rfl
    obtain ⟨child, _⟩ := List.mem_filter.mp (List.mem_reverse.mp fromChildren)
    obtain ⟨member, needs⟩ := (childrenOf node).mp child
    exact progress.children_unreleased member needs (by simp [fromReady])
  have zeroCount : ∀ node ∈ nodes, (∀ parent ∈ parents node, parent ∈ key :: done) ↔
      (parents node).countP (fun parent => parent ∉ key :: done) = 0 := by
    intro node _
    simp [List.countP_eq_zero, or_iff_not_imp_left]
  refine ⟨?_, ?_, ⟨?_, progress.layered⟩, shifted, ?_⟩
  · rw [List.cons_append, List.nodup_cons]
    constructor
    · simp only [List.mem_append, newlyReady, not_or]
      refine ⟨fresh, fun found => ?_, ?_⟩
      · obtain ⟨member, needs⟩ := (childrenOf key).mp found.1
        exact progress.children_unreleased member needs (by simp)
      · exact (List.nodup_cons.mp (List.nodup_append.mp progress.unique).2.1).1
    · rw [List.nodup_append]
      refine ⟨(List.nodup_append.mp progress.unique).1, readyNodup, ?_⟩
      rintro node early other later rfl
      rcases (newlyReady node).mp later with found | waiting
      · obtain ⟨member, needs⟩ := (childrenOf node).mp found.1
        exact progress.children_unreleased member needs (by simp [early])
      · exact (List.nodup_append.mp progress.unique).2.2 node early node (by simp [waiting]) rfl
  · intro node member
    simp only [List.cons_append, List.mem_cons, List.mem_append, newlyReady] at member
    rcases member with rfl | early | found | waiting
    · exact progress.within _ (by simp)
    · exact progress.within _ (by simp [early])
    · exact ((childrenOf node).mp found.1).1
    · exact progress.within _ (by simp [waiting])
  · exact (progress.released key (progress.within key (by simp))).mp (by simp)
  · intro node member
    have count := shifted node member
    have before := progress.counts node member
    rw [releaseChildren_remaining children uniqueChildren] at count
    have known := progress.released node member
    have complete : (∀ parent ∈ parents node, parent ∈ done) ↔
        (parents node).countP (fun parent => parent ∉ done) = 0 := by
      simp [List.countP_eq_zero]
    rw [complete] at known
    rw [zeroCount node member]
    generalize (parents node).countP (fun parent => parent ∉ key :: done) = after at count ⊢
    generalize (parents node).countP (fun parent => parent ∉ done) = earlier at before known
    simp only [List.mem_append, List.mem_cons] at known
    simp only [List.cons_append, List.mem_cons, List.mem_append, newlyReady]
    by_cases child : node ∈ children
    · obtain ⟨_, needs⟩ := (childrenOf node).mp child
      have unreleased := progress.children_unreleased member needs
      simp only [List.mem_append, List.mem_cons, not_or] at unreleased
      simp only [child, ↓reduceIte, true_and] at count ⊢
      simp only [unreleased, or_false, false_or]
      omega
    · simp only [child, ↓reduceIte, false_and, false_or] at count ⊢
      obtain rfl : after = earlier := by omega
      rw [← known]
      tauto

/-- With enough fuel the loop stops on an empty stack and counts what it released. -/
theorem Progress.finish {children : Dict α (List α)} {fuel : Nat} {done ready : List α}
    {remaining : Dict α Int} (progress : Progress nodes parents done ready remaining)
    (uniqueNodes : ∀ node ∈ nodes, (parents node).Nodup)
    (uniqueChildren : ∀ key, ((children.get? key).getD []).Nodup)
    (childrenOf : ∀ key child, child ∈ (children.get? key).getD [] ↔
      child ∈ nodes ∧ key ∈ parents child)
    (enough : nodes.length ≤ fuel + done.length) :
    ∃ released rest, Progress nodes parents released [] rest ∧
      countReleased children fuel ready remaining done.length = released.length := by
  induction fuel generalizing done ready remaining with
  | zero =>
      have subset : done ++ ready ⊆ nodes := progress.within
      have bound := (progress.unique.subperm subset).length_le
      have noReady : ready = [] := by
        apply List.eq_nil_of_length_eq_zero
        rw [List.length_append] at bound
        omega
      subst noReady
      exact ⟨done, remaining, progress, rfl⟩
  | succ fuel ih =>
      cases ready with
      | nil => exact ⟨done, remaining, progress, rfl⟩
      | cons key ready =>
          have next := progress.step uniqueNodes (uniqueChildren key) (childrenOf key)
          obtain ⟨released, rest, final, count⟩ :=
            ih next (by simp only [List.length_cons]; omega)
          exact ⟨released, rest, final, count⟩

theorem Progress.complete_iff_acyclic {done : List α} {remaining : Dict α Int}
    (uniqueNodes : nodes.Nodup) (progress : Progress nodes parents done [] remaining)
    (closed : ∀ node ∈ nodes, ∀ parent ∈ parents node, parent ∈ nodes) :
    done.length = nodes.length ↔ Acyclic (Edge nodes parents) := by
  have unique : done.Nodup := by simpa using progress.unique
  have within : ∀ node ∈ done, node ∈ nodes := by simpa using progress.within
  constructor
  · intro full
    have covers : nodes ⊆ done :=
      ((unique.subperm within).perm_of_length_le (Nat.le_of_eq full.symm)).symm.subset
    exact progress.layered.acyclic nodes parents covers
  · intro acyclic
    have covers : nodes ⊆ done := by
      by_contra missing
      have nonempty : nodes.filter (· ∉ done) ≠ [] := by
        intro empty
        apply missing
        intro node member
        have := List.filter_eq_nil_iff.mp empty node member
        simpa using this
      obtain ⟨node, pending, source⟩ := exists_source nodes parents acyclic
        (fun node member => (List.mem_filter.mp member).1) nonempty
      obtain ⟨member, unreleased⟩ := List.mem_filter.mp pending
      have needsAll : ∀ parent ∈ parents node, parent ∈ done := by
        intro parent needs
        by_contra absent
        exact source parent needs
          (List.mem_filter.mpr ⟨closed node member parent needs, by simpa using absent⟩)
      have found := (progress.released node member).mpr needsAll
      simp only [List.append_nil] at found
      simp [found] at unreleased
    exact Nat.le_antisymm (unique.subperm within).length_le
      (uniqueNodes.subperm covers).length_le

end Graph

/-- Starting from the nodes without prerequisites, every node is released exactly when
the graph is acyclic. -/
theorem countReleased_eq_iff_acyclic {nodes : List α} {parents : α → List α}
    {children : Dict α (List α)} {remaining : Dict α Int} {ready : List α} {fuel : Nat}
    (uniqueNodes : nodes.Nodup) (uniqueParents : ∀ node ∈ nodes, (parents node).Nodup)
    (closed : ∀ node ∈ nodes, ∀ parent ∈ parents node, parent ∈ nodes)
    (uniqueChildren : ∀ key, ((children.get? key).getD []).Nodup)
    (childrenOf : ∀ key child, child ∈ (children.get? key).getD [] ↔
      child ∈ nodes ∧ key ∈ parents child)
    (counts : ∀ node ∈ nodes, (remaining.get? node).getD 0 = (parents node).length)
    (uniqueReady : ready.Nodup)
    (sources : ∀ node, node ∈ ready ↔ node ∈ nodes ∧ parents node = [])
    (enough : nodes.length ≤ fuel) :
    countReleased children fuel ready remaining 0 = nodes.length ↔
      Acyclic (Edge nodes parents) := by
  have start : Progress nodes parents [] ready remaining := by
    refine ⟨by simpa using uniqueReady, fun node member => ((sources node).mp member).1,
      trivial, ?_, ?_⟩
    · intro node member
      rw [counts node member]
      simp [List.countP_eq_length.mpr]
    · intro node member
      simp [sources, member, List.eq_nil_iff_forall_not_mem]
  obtain ⟨released, rest, final, count⟩ :=
    start.finish uniqueParents uniqueChildren childrenOf (by simpa using enough)
  have counted : countReleased children fuel ready remaining 0 = released.length := count
  rw [counted]
  exact final.complete_iff_acyclic uniqueNodes closed

end Kahn
