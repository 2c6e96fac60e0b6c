import FeatureRl.Splits.Closure

/-!
The planner's components are the classes that closing relations connect: its component
identities tell them apart, its conflicts are theirs, and no order of its inputs matters.
-/

namespace FeatureRl

open Checked Sorting

namespace SplitPlanner

/-- Two sources that a chain of closing relations connects. -/
def Related (relations : List Relation) : String → String → Prop :=
  UnionFind.Connected (closingPairs relations)

variable {sha256 : Bytes → Digest} {relations : List Relation} {requested : Dict String Partition}

theorem mem_nodes {node : String} : node ∈ nodes relations requested ↔
    node ∈ requested.keys ∨ ∃ relation ∈ relations, node = relation.left ∨ node = relation.right := by
  simp [nodes]

theorem nodup_nodes (relations : List Relation) (requested : Dict String Partition) :
    (nodes relations requested).Nodup := nodup_sortBy.mpr (List.nodup_dedup _)

theorem mem_closingPairs {left right : String} : (left, right) ∈ closingPairs relations ↔
    ∃ relation ∈ relations, relation.kind.closes = true ∧ relation.left = left ∧
      relation.right = right := by
  simp [closingPairs, and_assoc]

/-- The order of the relations does not matter to what they connect. -/
theorem related_of_subset {others : List Relation} (included : relations ⊆ others)
    {left right : String} (related : Related relations left right) : Related others left right := by
  refine UnionFind.connected_mono ?_ related
  rintro ⟨one, two⟩ member
  obtain ⟨relation, listed, facts⟩ := mem_closingPairs.mp member
  exact mem_closingPairs.mpr ⟨relation, included listed, facts⟩

/-! ### Roots -/

theorem represents (relations : List Relation) (requested : Dict String Partition) :
    UnionFind.Represents (parents relations requested) (nodes relations requested)
      (closingPairs (sortBy Relation.key relations)) := by
  have known : ∀ pair ∈ closingPairs (sortBy Relation.key relations),
      pair.1 ∈ nodes relations requested ∧ pair.2 ∈ nodes relations requested := by
    rintro ⟨left, right⟩ member
    obtain ⟨relation, listed, _, rfl, rfl⟩ := mem_closingPairs.mp member
    have known := mem_sortBy.mp listed
    exact ⟨mem_nodes.mpr (.inr ⟨relation, known, .inl rfl⟩),
      mem_nodes.mpr (.inr ⟨relation, known, .inr rfl⟩)⟩
  exact UnionFind.represents_unions (UnionFind.represents_start (nodes relations requested)) known

/-- The root of a node in the planner's forest. -/
def rootOf (relations : List Relation) (requested : Dict String Partition) (node : String) : String :=
  (UnionFind.find (parents relations requested) node).2

theorem rootOf_eq_iff {one two : String} (first : one ∈ nodes relations requested)
    (second : two ∈ nodes relations requested) :
    rootOf relations requested one = rootOf relations requested two ↔ Related relations one two := by
  have forest := represents relations requested
  have low := UnionFind.find_finds forest.forest ((forest.keys one).mpr first)
  have high := UnionFind.find_finds forest.forest ((forest.keys two).mpr second)
  rw [rootOf, rootOf, UnionFind.root_eq_iff low.reached ((low.roots _).mp low.root) high.reached
    ((high.roots _).mp high.root), forest.linked]
  constructor
  · exact related_of_subset fun relation => mem_sortBy.mp
  · exact related_of_subset fun relation => mem_sortBy.mpr

/-! ### Filing the nodes -/

/-- The nodes with this root. -/
def membersOf (parent : Dict String String) (nodes : List String) (root : String) : List String :=
  nodes.filter fun node => (UnionFind.find parent node).2 = root

/-- What filing nodes under their roots keeps. -/
structure Filed (parent : Dict String String) (nodes : List String)
    (carried : Dict String String × Dict String (List String)) : Prop where
  keeps : UnionFind.Keeps parent carried.1
  listed : ∀ root, carried.2.get? root =
    if membersOf parent nodes root = [] then none else some (membersOf parent nodes root)

theorem filed_step {parent : Dict String String} {filedNodes : List String}
    {carried : Dict String String × Dict String (List String)} (filed : Filed parent filedNodes carried)
    (forest : UnionFind.Forest parent) {node : String} (known : node ∈ parent.keys) :
    Filed parent (filedNodes ++ [node]) (file carried node) := by
  have here := UnionFind.find_finds filed.keeps.forest (filed.keeps.keys ▸ known)
  have root := filed.keeps.find_eq forest known
  refine ⟨filed.keeps.trans here.toKeeps, fun other => ?_⟩
  simp only [file, Dict.get?_set, root, membersOf, List.filter_append]
  by_cases same : (UnionFind.find parent node).2 = other
  · have added : [node].filter (fun node => (UnionFind.find parent node).2 = other) = [node] := by
      simp [same]
    subst same
    rw [if_pos rfl, filed.listed, added]
    by_cases empty : membersOf parent filedNodes (UnionFind.find parent node).2 = []
    · have none_yet := empty
      rw [membersOf] at none_yet
      simp [empty, none_yet]
    · rw [if_neg empty, Option.getD_some, if_neg (by simp)]
      rfl
  · have added : [node].filter (fun node => (UnionFind.find parent node).2 = other) = [] := by
      simp [same]
    rw [if_neg (Ne.symm same), filed.listed, added, List.append_nil, membersOf]

theorem filed_nodes {parent : Dict String String} (forest : UnionFind.Forest parent)
    {nodes : List String} (known : ∀ node ∈ nodes, node ∈ parent.keys) :
    Filed parent nodes (nodes.foldl file (parent, Dict.empty)) := by
  induction nodes using List.reverseRecOn with
  | nil => exact ⟨⟨forest, rfl, fun _ => Iff.rfl, fun _ _ => Iff.rfl⟩, fun _ => rfl⟩
  | append_singleton earlier node ih =>
      rw [List.foldl_concat]
      have before := ih fun other member => known other (List.mem_append_left _ member)
      exact filed_step before forest (known node (by simp))

/-- The component of a node. -/
def classOf (relations : List Relation) (requested : Dict String Partition) (node : String) :
    List String :=
  membersOf (parents relations requested) (nodes relations requested)
    (rootOf relations requested node)

theorem mem_classOf {node other : String} (known : node ∈ nodes relations requested) :
    other ∈ classOf relations requested node ↔
      other ∈ nodes relations requested ∧ Related relations node other := by
  simp only [classOf, membersOf, List.mem_filter, decide_eq_true_eq]
  refine and_congr_right fun member => ?_
  rw [← rootOf_eq_iff known member]
  exact eq_comm

/-- All components of a plan. -/
def classes (relations : List Relation) (requested : Dict String Partition) : List (List String) :=
  components (parents relations requested) (nodes relations requested)

theorem filed_classes (relations : List Relation) (requested : Dict String Partition) :
    Filed (parents relations requested) (nodes relations requested)
      ((nodes relations requested).foldl file (parents relations requested, Dict.empty)) :=
  filed_nodes (represents relations requested).forest
    fun node => ((represents relations requested).keys node).mpr

theorem mem_classes {members : List String} : members ∈ classes relations requested ↔
    ∃ node ∈ nodes relations requested, members = classOf relations requested node := by
  rw [classes, components, Dict.mem_values]
  constructor
  · rintro ⟨root, found⟩
    rw [(filed_classes relations requested).listed root] at found
    split at found
    next => cases found
    next nonempty =>
      obtain rfl := Option.some.inj found
      obtain ⟨node, member⟩ := List.exists_mem_of_ne_nil _ nonempty
      obtain ⟨known, same⟩ := List.mem_filter.mp member
      refine ⟨node, known, ?_⟩
      rw [classOf, rootOf, of_decide_eq_true same]
  · rintro ⟨node, known, rfl⟩
    have inside : node ∈ classOf relations requested node :=
      (mem_classOf known).mpr ⟨known, .refl node⟩
    refine ⟨rootOf relations requested node, ?_⟩
    rw [(filed_classes relations requested).listed, if_neg]
    · rfl
    · intro empty
      rw [classOf, empty] at inside
      cases inside

/-- Different components share no node. -/
theorem pairwise_classes (relations : List Relation) (requested : Dict String Partition) :
    (classes relations requested).Pairwise List.Disjoint := by
  have filed := filed_classes relations requested
  rw [classes, components, Dict.values, List.pairwise_map]
  have distinct := List.pairwise_map.mp
    ((nodes relations requested).foldl file (parents relations requested, Dict.empty)).2.nodup
  refine distinct.imp_of_mem ?_
  rintro ⟨one, first⟩ ⟨two, second⟩ here there different node inside also
  have listed {root : String} {members : List String}
      (found : (root, members) ∈
        ((nodes relations requested).foldl file (parents relations requested, Dict.empty)).2.entries)
      (member : node ∈ members) : rootOf relations requested node = root := by
    rw [Dict.mem_entries, filed.listed] at found
    split at found
    next => cases found
    next =>
      rw [← Option.some.inj found] at member
      exact of_decide_eq_true (List.mem_filter.mp member).2
  exact different ((listed here inside).symm.trans (listed there also))

/-! ### Component identities -/

theorem notMem_of_isSourceId {text : String} (safe : isSourceId text = true) :
    Char.ofNat 0 ∉ text.toList := by
  intro found
  rw [isSourceId, isWord] at safe
  generalize text.toList = characters at safe found
  cases characters with
  | nil => cases found
  | cons first rest =>
      simp only [Bool.and_eq_true, List.all_eq_true] at safe
      rcases List.mem_cons.mp found with here | later
      · exact absurd (here ▸ safe.1) (by decide)
      · exact absurd (safe.2 _ later) (by decide)

/-- A text is found again before the first separator. -/
theorem append_separator_inj {α : Type*} {separator : α} {first second rest more : List α}
    (clean : separator ∉ first) (clear : separator ∉ second)
    (same : first ++ separator :: rest = second ++ separator :: more) : first = second ∧ rest = more := by
  induction first generalizing second with
  | nil =>
      cases second with
      | nil => exact ⟨rfl, (List.cons.inj same).2⟩
      | cons item later => exact absurd ((List.cons.inj same).1 ▸ List.mem_cons_self ..) clear
  | cons item tail ih =>
      cases second with
      | nil => exact absurd ((List.cons.inj same).1 ▸ List.mem_cons_self ..) clean
      | cons other later =>
          obtain ⟨rfl, further⟩ := List.cons.inj same
          obtain ⟨rfl, rfl⟩ := ih (fun found => clean (List.mem_cons_of_mem _ found))
            (fun found => clear (List.mem_cons_of_mem _ found)) further
          exact ⟨rfl, rfl⟩

/-- Joined lists of identifiers can be told apart. -/
theorem joined_injective {one two : List String} (safe : ∀ text ∈ one, isSourceId text = true)
    (also : ∀ text ∈ two, isSourceId text = true) (nonempty : one ≠ []) (filled : two ≠ [])
    (same : joined one = joined two) : one = two := by
  induction one generalizing two with
  | nil => exact absurd rfl nonempty
  | cons first rest ih =>
      cases two with
      | nil => exact absurd rfl filled
      | cons other others =>
          have clean := notMem_of_isSourceId (safe first (List.mem_cons_self ..))
          have clear := notMem_of_isSourceId (also other (List.mem_cons_self ..))
          cases rest with
          | nil =>
              cases others with
              | nil => rw [String.toList_injective same]
              | cons third later =>
                  simp only [joined] at same
                  exact absurd (same ▸ List.mem_append_right _ (List.mem_cons_self ..)) clean
          | cons second tail =>
              cases others with
              | nil =>
                  simp only [joined] at same
                  exact absurd (same ▸ List.mem_append_right _ (List.mem_cons_self ..)) clear
              | cons third later =>
                  obtain ⟨text, further⟩ := append_separator_inj clean clear same
                  rw [String.toList_injective text, ih
                    (fun text member => safe text (List.mem_cons_of_mem _ member))
                    (fun text member => also text (List.mem_cons_of_mem _ member))
                    (List.cons_ne_nil _ _) (List.cons_ne_nil _ _) further]

/-- The texts whose digests name the components of a plan. -/
def hashed (relations : List Relation) (requested : Dict String Partition) : Set Bytes :=
  {text | ∃ node ∈ nodes relations requested,
    text = Utf8.encode (joined (sortBy id (classOf relations requested node)))}

theorem safe_nodes (safe : requested.keys.all isSourceId = true) {node : String}
    (known : node ∈ nodes relations requested) : isSourceId node = true := by
  rcases mem_nodes.mp known with asked | ⟨relation, _, rfl | rfl⟩
  · exact List.all_eq_true.mp safe node asked
  · exact relation.valid.1
  · exact relation.valid.2.1

theorem componentId_eq_iff (safe : requested.keys.all isSourceId = true)
    (injective : Set.InjOn sha256 (hashed relations requested)) {one two : String}
    (first : one ∈ nodes relations requested) (second : two ∈ nodes relations requested) :
    componentId sha256 (sortBy id (classOf relations requested one)) =
        componentId sha256 (sortBy id (classOf relations requested two)) ↔
      Related relations one two := by
  have inside {node : String} (known : node ∈ nodes relations requested) :
      node ∈ sortBy id (classOf relations requested node) :=
    mem_sortBy.mpr ((mem_classOf known).mpr ⟨known, .refl node⟩)
  have clean {node : String} (known : node ∈ nodes relations requested) :
      ∀ text ∈ sortBy id (classOf relations requested node), isSourceId text = true :=
    fun text member => safe_nodes safe ((mem_classOf known).mp (mem_sortBy.mp member)).1
  constructor
  · intro same
    have digests := Subtype.val_injective (String.append_right_inj _ |>.mp same)
    have texts := injective ⟨one, first, rfl⟩ ⟨two, second, rfl⟩ digests
    have lists := joined_injective (clean first) (clean second)
      (List.ne_nil_of_mem (inside first)) (List.ne_nil_of_mem (inside second))
      (Utf8.encode_injective texts)
    have shared := inside second
    rw [← lists, mem_sortBy, mem_classOf first] at shared
    exact shared.2
  · intro related
    rw [classOf, classOf, (rootOf_eq_iff first second).mpr related]

end SplitPlanner

end FeatureRl
