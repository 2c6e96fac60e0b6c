import FeatureRl.Lib.Dict
import Mathlib.Logic.Function.Iterate
import Mathlib.Logic.Relation
import Mathlib.Order.MinMax

/-!
Union-find over parent pointers that never point upwards in a linear order. `find` halves the
path that it walks; `union` hangs the larger root below the smaller one. Both are compared
with the equivalence that the pointers generate.
-/

namespace UnionFind

variable {κ : Type*} [LinearOrder κ]

/-- Every node with a pointer to itself. -/
def start (nodes : List κ) : Dict κ κ := nodes.foldl (fun parent node => parent.set node node) Dict.empty

/-- The parent of a node; a node without pointer is its own parent. -/
def up (parent : Dict κ κ) (node : κ) : κ := (parent.get? node).getD node

/-- Walk to the root and let every node on the way skip its parent. -/
def walk : Nat → Dict κ κ → κ → Dict κ κ × κ
  | 0, parent, node => (parent, node)
  | fuel + 1, parent, node =>
      if up parent node = node then (parent, node)
      else
        let halved := parent.set node (up parent (up parent node))
        walk fuel halved (up halved node)

def find (parent : Dict κ κ) (node : κ) : Dict κ κ × κ := walk parent.size parent node

def union (parent : Dict κ κ) (left right : κ) : Dict κ κ :=
  let first := find parent left
  let second := find first.1 right
  if first.2 = second.2 then second.1
  else second.1.set (max first.2 second.2) (min first.2 second.2)

/-! ### Forests -/

/-- Pointers lead to nodes and never upwards. -/
structure Forest (parent : Dict κ κ) : Prop where
  closed : ∀ node ∈ parent.keys, up parent node ∈ parent.keys
  below : ∀ node, up parent node ≤ node

/-- The equivalence that the pointers generate. -/
def Linked (parent : Dict κ κ) : κ → κ → Prop := Relation.EqvGen fun node above => up parent node = above

variable {parent : Dict κ κ}

theorem linked_up (parent : Dict κ κ) (node : κ) : Linked parent node (up parent node) :=
  .rel _ _ rfl

theorem linked_equivalence (parent : Dict κ κ) : Equivalence (Linked parent) :=
  Relation.EqvGen.is_equivalence _

/-- An equivalence that contains every pointer contains what the pointers generate. -/
theorem linked_of_up {same : κ → κ → Prop} (equivalence : Equivalence same)
    (pointers : ∀ node, same node (up parent node)) {left right : κ} (linked : Linked parent left right) :
    same left right := by
  rw [← equivalence.eqvGen_iff]
  refine Relation.EqvGen.mono ?_ left right linked
  rintro node _ rfl
  exact pointers node

theorem up_set (parent : Dict κ κ) (node above other : κ) :
    up (parent.set node above) other = if other = node then above else up parent other := by
  rw [up, Dict.get?_set]
  split <;> rfl

theorem keys_set {node : κ} (known : node ∈ parent.keys) (above : κ) :
    (parent.set node above).keys = parent.keys := by
  obtain ⟨old, present⟩ := Dict.mem_keys.mp known
  exact Dict.keys_set_of_present present above

theorem forest_set (forest : Forest parent) {node above : κ} (known : node ∈ parent.keys)
    (inside : above ∈ parent.keys) (lower : above ≤ node) : Forest (parent.set node above) := by
  constructor
  · intro other member
    rw [keys_set known] at member ⊢
    rw [up_set]
    split
    · exact inside
    · exact forest.closed other member
  · intro other
    rw [up_set]
    split
    next same => exact same ▸ lower
    next => exact forest.below other

/-! ### Finding a root -/

/-- How many nodes are below this one. -/
def rank (parent : Dict κ κ) (node : κ) : Nat := parent.keys.countP fun other => other < node

theorem rank_lt {low high : κ} (known : low ∈ parent.keys) (lower : low < high) :
    rank parent low < rank parent high := by
  have here : (parent.keys.filter fun other => other < low).length + 1 ≤
      (parent.keys.filter fun other => other < high).length := by
    have distinct : (low :: parent.keys.filter fun other => other < low).Nodup := by
      refine List.nodup_cons.mpr ⟨?_, parent.nodup.filter _⟩
      simp
    refine (List.subperm_of_subset distinct ?_).length_le
    intro other member
    rcases List.mem_cons.mp member with rfl | found
    · exact List.mem_filter.mpr ⟨known, by simpa using lower⟩
    · obtain ⟨inside, under⟩ := List.mem_filter.mp found
      exact List.mem_filter.mpr ⟨inside, by simpa using lt_trans (of_decide_eq_true under) lower⟩
  rw [rank, rank, List.countP_eq_length_filter, List.countP_eq_length_filter]
  exact here

theorem rank_lt_size {node : κ} (known : node ∈ parent.keys) : rank parent node < parent.size := by
  rw [← Dict.length_keys, rank, List.countP_eq_length_filter]
  refine Nat.lt_of_le_of_ne (List.length_filter_le _ _) fun all => ?_
  have every := (List.length_filter_eq_length_iff.mp all) node known
  simp at every

/-- What a walk or a union does to the pointers besides finding a root. -/
structure Keeps (before after : Dict κ κ) : Prop where
  forest : Forest after
  keys : after.keys = before.keys
  roots : ∀ node, up after node = node ↔ up before node = node
  linked : ∀ left right, Linked after left right ↔ Linked before left right

theorem Keeps.trans {first second third : Dict κ κ} (before : Keeps first second)
    (after : Keeps second third) : Keeps first third :=
  ⟨after.forest, after.keys.trans before.keys, fun node => (after.roots node).trans (before.roots node),
    fun left right => (after.linked left right).trans (before.linked left right)⟩

theorem keeps_halve (forest : Forest parent) {node : κ} (known : node ∈ parent.keys) :
    Keeps parent (parent.set node (up parent (up parent node))) := by
  have inside := forest.closed node known
  have twice : Linked parent node (up parent (up parent node)) :=
    (linked_equivalence parent).trans (linked_up parent node) (linked_up parent (up parent node))
  refine ⟨forest_set forest known (forest.closed _ inside)
    (le_trans (forest.below _) (forest.below node)), keys_set known _, fun other => ?_,
    fun left right => ?_⟩
  · rw [up_set]
    by_cases same : other = node
    · subst same
      rw [if_pos rfl]
      constructor
      · intro root
        have below := forest.below (up parent other)
        rw [root] at below
        exact le_antisymm (forest.below other) below
      · intro root
        rw [root, root]
    · rw [if_neg same]
  constructor
  · refine linked_of_up (linked_equivalence parent) fun other => ?_
    rw [up_set]
    split
    next same => exact same ▸ twice
    next => exact linked_up parent other
  · refine linked_of_up (linked_equivalence _) fun other => ?_
    -- The node now skips its parent, which still points to the same grandparent.
    have equivalence := linked_equivalence (parent.set node (up parent (up parent node)))
    by_cases same : other = node
    · subst same
      by_cases root : up parent other = other
      · rw [root]
        exact (linked_equivalence _).refl other
      · have first := linked_up (parent.set other (up parent (up parent other))) other
        have second := linked_up (parent.set other (up parent (up parent other))) (up parent other)
        rw [up_set, if_pos rfl] at first
        rw [up_set, if_neg root] at second
        exact equivalence.trans first (equivalence.symm second)
    · have pointer := linked_up (parent.set node (up parent (up parent node))) other
      rwa [up_set, if_neg same] at pointer

/-- What finding the root of a node leaves. -/
structure Finds (before : Dict κ κ) (node : κ) (after : Dict κ κ × κ) : Prop
    extends Keeps before after.1 where
  known : after.2 ∈ before.keys
  root : up after.1 after.2 = after.2
  reached : Linked before node after.2

theorem walk_finds {fuel : Nat} (forest : Forest parent) {node : κ} (known : node ∈ parent.keys)
    (enough : rank parent node < fuel) : Finds parent node (walk fuel parent node) := by
  induction fuel generalizing parent node with
  | zero => omega
  | succ fuel ih =>
      rw [walk]
      by_cases root : up parent node = node
      · rw [if_pos root]
        exact ⟨⟨forest, rfl, fun _ => Iff.rfl, fun _ _ => Iff.rfl⟩, known, root, (linked_equivalence parent).refl node⟩
      · rw [if_neg root]
        have keeps := keeps_halve forest known
        have next : up (parent.set node (up parent (up parent node))) node =
            up parent (up parent node) := by rw [up_set, if_pos rfl]
        have inside := forest.closed _ (forest.closed node known)
        have lower : up parent (up parent node) < node :=
          lt_of_le_of_lt (forest.below _) (lt_of_le_of_ne (forest.below node) root)
        have fewer : rank (parent.set node (up parent (up parent node)))
            (up parent (up parent node)) < fuel := by
          have smaller := rank_lt inside lower
          rw [rank, keeps.keys]
          rw [rank] at smaller
          omega
        have found := ih keeps.forest (keeps.keys ▸ inside) fewer
        simp only [next]
        refine ⟨keeps.trans found.toKeeps, keeps.keys ▸ found.known, found.root, ?_⟩
        have rest := (keeps.linked _ _).mp found.reached
        exact (linked_equivalence parent).trans (linked_up parent node)
          ((linked_equivalence parent).trans (linked_up parent _) rest)

theorem find_finds (forest : Forest parent) {node : κ} (known : node ∈ parent.keys) :
    Finds parent node (find parent node) :=
  walk_finds forest known (rank_lt_size known)

/-! ### Roots -/

/-- Following the pointers far enough. -/
theorem linked_iterate (parent : Dict κ κ) (node : κ) (count : Nat) :
    Linked parent node ((up parent)^[count] node) := by
  induction count generalizing node with
  | zero => exact (linked_equivalence parent).refl node
  | succ count ih =>
      rw [Function.iterate_succ_apply]
      exact (linked_equivalence parent).trans (linked_up parent node) (ih (up parent node))

/-- Nodes are linked exactly if their paths meet. -/
theorem linked_iff_meet {left right : κ} : Linked parent left right ↔
    ∃ first second, (up parent)^[first] left = (up parent)^[second] right := by
  constructor
  · intro linked
    induction linked with
    | rel node above pointer => exact ⟨1, 0, pointer⟩
    | refl node => exact ⟨0, 0, rfl⟩
    | symm node other _ ih =>
        obtain ⟨first, second, meet⟩ := ih
        exact ⟨second, first, meet.symm⟩
    | trans node middle other _ _ left right =>
        obtain ⟨first, second, here⟩ := left
        obtain ⟨third, fourth, there⟩ := right
        refine ⟨third + first, second + fourth, ?_⟩
        rw [Function.iterate_add_apply, here, ← Function.iterate_add_apply, Nat.add_comm third,
          Function.iterate_add_apply, there, ← Function.iterate_add_apply]
  · rintro ⟨first, second, meet⟩
    have before := linked_iterate parent left first
    rw [meet] at before
    exact (linked_equivalence parent).trans before
      ((linked_equivalence parent).symm (linked_iterate parent right second))

/-- Linked roots are the same. -/
theorem root_unique {left right : κ} (first : up parent left = left) (second : up parent right = right)
    (linked : Linked parent left right) : left = right := by
  obtain ⟨count, other, meet⟩ := linked_iff_meet.mp linked
  rwa [Function.iterate_fixed first, Function.iterate_fixed second] at meet

/-- Two nodes have the same root exactly if they are linked. -/
theorem root_eq_iff {node other root top : κ} (reached : Linked parent node root)
    (final : up parent root = root) (climbed : Linked parent other top) (last : up parent top = top) :
    root = top ↔ Linked parent node other := by
  have equivalence := linked_equivalence parent
  constructor
  · rintro rfl
    exact equivalence.trans reached (equivalence.symm climbed)
  · intro linked
    refine root_unique final last ?_
    exact equivalence.trans (equivalence.symm reached) (equivalence.trans linked climbed)

/-- Roots do not depend on the halving done before. -/
theorem Keeps.find_eq {before after : Dict κ κ} (keeps : Keeps before after) (forest : Forest before)
    {node : κ} (known : node ∈ before.keys) : (find after node).2 = (find before node).2 := by
  have first := find_finds forest known
  have second := find_finds keeps.forest (keeps.keys ▸ known)
  refine root_unique ((second.roots _).mp second.root)
    ((keeps.roots _).mpr ((first.roots _).mp first.root)) ?_
  have classes := linked_equivalence after
  exact classes.trans (classes.symm second.reached) ((keeps.linked _ _).mpr first.reached)

/-! ### Unions -/

/-- The equivalence that a list of pairs generates. -/
def Connected (pairs : List (κ × κ)) : κ → κ → Prop := Relation.EqvGen fun left right => (left, right) ∈ pairs

/-- The pointers say exactly which nodes the pairs connect. -/
structure Represents (parent : Dict κ κ) (nodes : List κ) (pairs : List (κ × κ)) : Prop where
  forest : Forest parent
  keys : ∀ node, node ∈ parent.keys ↔ node ∈ nodes
  linked : ∀ left right, Linked parent left right ↔ Connected pairs left right

theorem get?_start (nodes : List κ) (node : κ) :
    (start nodes).get? node = if node ∈ nodes then some node else none := by
  induction nodes using List.reverseRecOn with
  | nil => rfl
  | append_singleton nodes last ih =>
      rw [start, List.foldl_concat, Dict.get?_set, ← start, ih]
      by_cases same : node = last
      · simp [same]
      · simp [same]

theorem represents_start (nodes : List κ) : Represents (start nodes) nodes [] := by
  have same (node : κ) : up (start nodes) node = node := by
    rw [up, get?_start]
    split <;> rfl
  have members (node : κ) : node ∈ (start nodes).keys ↔ node ∈ nodes := by
    rw [Dict.mem_keys_iff_isSome, get?_start]
    by_cases member : node ∈ nodes <;> simp [member]
  refine ⟨⟨fun node member => ?_, fun node => le_of_eq (same node)⟩, members, fun left right => ?_⟩
  · rwa [same]
  · constructor
    · refine linked_of_up (Relation.EqvGen.is_equivalence _) fun node => ?_
      rw [same]
      exact .refl node
    · intro connected
      refine Relation.EqvGen.mono ?_ left right connected
      intro first second member
      cases member

omit [LinearOrder κ] in
/-- One more pair joins two classes. -/
theorem connected_concat {pairs : List (κ × κ)} {first second : κ} {same : κ → κ → Prop}
    (equivalence : Equivalence same)
    (joins : ∀ left right, Connected pairs left right → same left right) (pair : same first second)
    {left right : κ} (connected : Connected (pairs ++ [(first, second)]) left right) :
    same left right := by
  rw [← equivalence.eqvGen_iff]
  refine Relation.EqvGen.mono ?_ left right connected
  intro one two member
  rcases List.mem_append.mp member with old | new
  · exact joins one two (.rel _ _ old)
  · obtain ⟨rfl, rfl⟩ := Prod.mk.inj (List.mem_singleton.mp new)
    exact pair

omit [LinearOrder κ] in
theorem connected_mono {pairs more : List (κ × κ)} (included : pairs ⊆ more) {left right : κ}
    (connected : Connected pairs left right) : Connected more left right :=
  Relation.EqvGen.mono (fun _ _ member => included member) left right connected

theorem represents_union {nodes : List κ} {pairs : List (κ × κ)}
    (represents : Represents parent nodes pairs) {left right : κ} (first : left ∈ nodes)
    (second : right ∈ nodes) :
    Represents (union parent left right) nodes (pairs ++ [(left, right)]) := by
  have low := find_finds represents.forest ((represents.keys left).mpr first)
  have high := find_finds low.forest (low.keys ▸ (represents.keys right).mpr second)
  have keeps := low.toKeeps.trans high.toKeeps
  have before := linked_equivalence parent
  have new : Linked parent left right → ∀ one two, Connected (pairs ++ [(left, right)]) one two →
      Linked parent one two := fun linked _ _ connected =>
    connected_concat before (fun _ _ => (represents.linked _ _).mpr) linked connected
  have old : ∀ one two, Linked parent one two → Connected (pairs ++ [(left, right)]) one two :=
    fun one two linked => connected_mono (List.subset_append_left _ _) ((represents.linked one two).mp linked)
  have reaches : Linked parent right (find (find parent left).1 right).2 :=
    (low.linked _ _).mp high.reached
  rw [union]
  by_cases same : (find parent left).2 = (find (find parent left).1 right).2
  · simp only [if_pos same]
    have linked : Linked parent left right := by
      have up := low.reached
      rw [same] at up
      exact before.trans up (before.symm reaches)
    refine ⟨keeps.forest, fun node => by rw [keeps.keys]; exact represents.keys node, fun one two => ?_⟩
    exact (keeps.linked one two).trans ⟨old one two, new linked one two⟩
  · simp only [if_neg same]
    have topRoot := (high.roots _).mpr low.root
    have topReached := low.reached
    have topKnown := low.known
    have root := high.root
    have rootKnown : (find (find parent left).1 right).2 ∈ parent.keys := low.keys ▸ high.known
    generalize (find (find parent left).1 right).2 = other at *
    generalize (find (find parent left).1 right).1 = middle at *
    generalize (find parent left).2 = top at *
    have inside (node : κ) (member : node = top ∨ node = other) : node ∈ middle.keys := by
      rw [keeps.keys]
      rcases member with rfl | rfl
      · exact topKnown
      · exact rootKnown
    have larger := inside (max top other) (max_choice top other)
    have smaller := inside (min top other) (min_choice top other)
    have forest := forest_set keeps.forest larger smaller min_le_max
    have after := linked_equivalence (middle.set (max top other) (min top other))
    have kept : ∀ one two, Connected pairs one two →
        Linked (middle.set (max top other) (min top other)) one two := by
      intro one two connected
      have linked := (keeps.linked one two).mpr ((represents.linked one two).mpr connected)
      refine linked_of_up after (fun node => ?_) linked
      by_cases here : node = max top other
      · have still : up middle node = node := by
          rcases max_choice top other with first | second
          · rw [here, first, topRoot]
          · rw [here, second, root]
        rw [still]
        exact after.refl node
      · have pointer := linked_up (middle.set (max top other) (min top other)) node
        rwa [up_set, if_neg here] at pointer
    have joined : Linked (middle.set (max top other) (min top other)) top other := by
      have pointer := linked_up (middle.set (max top other) (min top other)) (max top other)
      rw [up_set, if_pos rfl] at pointer
      rcases le_total top other with below | above
      · rw [max_eq_right below, min_eq_left below] at pointer ⊢
        exact (linked_equivalence _).symm pointer
      · rwa [max_eq_left above, min_eq_right above] at pointer ⊢
    refine ⟨forest, fun node => ?_, fun one two => ⟨?_, ?_⟩⟩
    · rw [keys_set larger, keeps.keys]
      exact represents.keys node
    · have classes : Equivalence (Connected (pairs ++ [(left, right)])) := Relation.EqvGen.is_equivalence _
      have bridge : Connected (pairs ++ [(left, right)]) top other := by
        have pair : Connected (pairs ++ [(left, right)]) left right := .rel _ _ (by simp)
        exact classes.trans (classes.symm (old _ _ topReached)) (classes.trans pair (old _ _ reaches))
      refine linked_of_up classes fun node => ?_
      rw [up_set]
      split
      next here =>
        subst here
        rcases le_total top other with below | above
        · rw [max_eq_right below, min_eq_left below]
          exact classes.symm bridge
        · rwa [max_eq_left above, min_eq_right above]
      next => exact old _ _ ((keeps.linked _ _).mp (linked_up middle node))
    · intro connected
      refine connected_concat after kept ?_ connected
      have first := kept _ _ ((represents.linked _ _).mp topReached)
      have second := kept _ _ ((represents.linked _ _).mp reaches)
      exact after.trans first (after.trans joined (after.symm second))

/-- Every pair in turn. -/
def unions (parent : Dict κ κ) (pairs : List (κ × κ)) : Dict κ κ :=
  pairs.foldl (fun parent pair => union parent pair.1 pair.2) parent

theorem represents_unions {nodes : List κ} {pairs more : List (κ × κ)}
    (represents : Represents parent nodes pairs)
    (known : ∀ pair ∈ more, pair.1 ∈ nodes ∧ pair.2 ∈ nodes) :
    Represents (unions parent more) nodes (pairs ++ more) := by
  induction more generalizing parent pairs with
  | nil => rwa [List.append_nil]
  | cons pair rest ih =>
      obtain ⟨here, later⟩ := List.forall_mem_cons.mp known
      have next := ih (represents_union represents here.1 here.2) later
      rwa [List.append_assoc] at next

end UnionFind
