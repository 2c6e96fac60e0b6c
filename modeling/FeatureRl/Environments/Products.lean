import FeatureRl.Environments.Archives

/-!
Build products: archives whose members may also be symbolic links. What is read is checked by the
lexical normal form of each link; what a link means is the walk through the extracted tree.
-/

namespace FeatureRl

namespace Products

open Archives Paths

/-! ### Reading -/

inductive MemberKind where
  | directory
  | link (target : String)
  | file
  | other
deriving DecidableEq, Repr

structure Member where
  name : String
  kind : MemberKind
  sparse : Bool
  size : Int
  data : Bytes
  executable : Bool
deriving DecidableEq, Repr

structure Policy where
  maxStagingBytes : Nat
  maxFiles : Nat
deriving DecidableEq, Repr

structure BuildProduct where
  files : Dict String SourceFile
  links : Dict String String

def dirname (name : List Char) : List Char := rstrip (join (split name).dropLast)

/-- The second path below the first one. -/
def joinPath (one two : List Char) : List Char :=
  if two.head? = some '/' then two
  else if one = [] ∨ one.getLast? = some '/' then one ++ two
  else one ++ '/' :: two

/-- The lexical normal form of a relative path. -/
def normpath (path : List Char) : List Char :=
  let stack := (split path).foldl push []
  if stack = [] then ['.'] else join stack.reverse

def linked (name target : String) : String :=
  String.ofList (normpath (joinPath (dirname name.toList) target.toList))

structure Reading where
  count : Nat
  seen : List String
  total : Int
  files : Dict String SourceFile
  links : Dict String String

def Reading.start : Reading := ⟨0, [], 0, Dict.empty, Dict.empty⟩

/-- A target that may be kept: it is a relative path of plain characters and its normal form is safe. -/
def allowedLink (name target : String) : Bool :=
  target.toList ≠ [] && target.toList.head? ≠ some '/' &&
    (target.toList.all fun char => char ≠ '\\' && 32 ≤ char.toNat) && (safePath (linked name target)).isSome

def readMember (policy : Policy) (reading : Reading) (item : Member) : Option Reading :=
  let count := reading.count + 1
  if policy.maxFiles < count then none
  else
    match safePath item.name with
    | none => none
    | some name =>
      if name ∈ reading.seen then none
      else
        let seen := name :: reading.seen
        match item.kind with
        | .directory => some { reading with count, seen }
        | .link target =>
          if allowedLink name target then
            some { reading with count, seen, links := reading.links.set name target }
          else none
        | .other => none
        | .file =>
          if item.sparse || item.size < 0 then none
          else
            let total := reading.total + item.size
            if (policy.maxStagingBytes : Int) < total then none
            else if (item.data.length : Int) ≠ item.size then none
            else some { reading with
              count, seen, total, files := reading.files.set name ⟨item.data, item.executable⟩ }

def leaves (product : BuildProduct) : List String := product.files.keys ++ product.links.keys

/-- No leaf lies above a member, and each link's normal form is a file. -/
def accepted (seen : List String) (product : BuildProduct) : Bool :=
  (seen.all fun name => (ancestors name).all fun above => above ∉ leaves product) &&
    product.links.entries.all fun entry => linked entry.1 entry.2 ∈ product.files.keys

/-- The product in a tar of so many bytes with these members, none where the tar is malformed. -/
def read (length : Nat) (members : Option (List Member)) (policy : Policy) : Option BuildProduct :=
  if policy.maxStagingBytes < length then none
  else
    match members with
    | none => none
    | some items =>
      match items.foldlM (readMember policy) Reading.start with
      | none => none
      | some reading =>
        if accepted reading.seen ⟨reading.files, reading.links⟩ then some ⟨reading.files, reading.links⟩ else none

/-! ### The extracted tree -/

def nameOf (stack : List Part) : String := String.ofList (join stack.reverse)

/-- What is at a path of the tree that the retained files and links make up. -/
def node (product : BuildProduct) (stack : List Part) : Node :=
  if nameOf stack ∈ product.files.keys then .file
  else if nameOf stack ∈ product.links.keys then .link
  else if stack = [] ∨ ((leaves product).any fun leaf => nameOf stack ∈ ancestors leaf) = true then .directory
  else .missing

/-- The retained file that a link leads to, part after part from the directory of the link. -/
def resolve (product : BuildProduct) (name target : String) : Option String :=
  (walk (node product) (split name.toList).dropLast.reverse (split target.toList)).map nameOf

/-- Every entry that the target names before its last part is a directory of the tree, where it
lexically stands. -/
def PassesDirectories (product : BuildProduct) (name target : String) : Prop :=
  Passable (node product) (split name.toList).dropLast.reverse (split target.toList)

/-! ### What reading keeps -/

variable {policy : Policy} {reading next : Reading} {item : Member}

structure Held (reading : Reading) : Prop where
  seen : ∀ name ∈ reading.files.keys ++ reading.links.keys, name ∈ reading.seen
  named : ∀ name ∈ reading.seen, ∃ original, safePath original = some name
  linked : ∀ name target, reading.links.get? name = some target → allowedLink name target = true
  apart : ∀ name ∈ reading.files.keys, name ∉ reading.links.keys

theorem held_start : Held Reading.start := by
  constructor
  · intro name member
    exact absurd member List.not_mem_nil
  · intro name member
    exact absurd member List.not_mem_nil
  · intro name target found
    cases found
  · intro name member
    exact absurd member List.not_mem_nil

theorem readMember_cases (step : readMember policy reading item = some next) :
    ∃ name, safePath item.name = some name ∧ name ∉ reading.seen ∧ next.seen = name :: reading.seen ∧
      ((next.files = reading.files ∧ next.links = reading.links) ∨
        (∃ target, allowedLink name target = true ∧ next.files = reading.files ∧
          next.links = reading.links.set name target) ∨
        (∃ file, next.files = reading.files.set name file ∧ next.links = reading.links)) := by
  simp only [readMember] at step
  split at step
  next => cases step
  next =>
    split at step
    next => cases step
    next name safe =>
      split at step
      next => cases step
      next fresh =>
        refine ⟨name, safe, fresh, ?_⟩
        split at step
        next =>
          obtain rfl := Option.some.inj step
          exact ⟨rfl, Or.inl ⟨rfl, rfl⟩⟩
        next target _ =>
          split at step
          next allowed =>
            obtain rfl := Option.some.inj step
            exact ⟨rfl, Or.inr (Or.inl ⟨target, allowed, rfl, rfl⟩)⟩
          next => cases step
        next => cases step
        next =>
          split at step
          next => cases step
          next =>
            split at step
            next => cases step
            next =>
              split at step
              next => cases step
              next =>
                obtain rfl := Option.some.inj step
                exact ⟨rfl, Or.inr (Or.inr ⟨_, rfl, rfl⟩)⟩

theorem Held.readMember (held : Held reading) (step : readMember policy reading item = some next) : Held next := by
  obtain ⟨name, safe, fresh, seen, kept⟩ := readMember_cases step
  have named : ∀ other ∈ next.seen, ∃ original, safePath original = some other := by
    intro other member
    rw [seen] at member
    rcases List.mem_cons.mp member with rfl | old
    · exact ⟨item.name, safe⟩
    · exact held.named other old
  have newName : name ∉ reading.files.keys ∧ name ∉ reading.links.keys := by
    constructor
    · exact fun member => fresh (held.seen name (List.mem_append_left _ member))
    · exact fun member => fresh (held.seen name (List.mem_append_right _ member))
  rcases kept with ⟨files, links⟩ | ⟨target, allowed, files, links⟩ | ⟨file, files, links⟩
  · constructor
    · intro other member
      rw [files, links] at member
      rw [seen]
      exact List.mem_cons_of_mem _ (held.seen other member)
    · exact named
    · rw [links]
      exact held.linked
    · rw [files, links]
      exact held.apart
  · constructor
    · intro other member
      rw [files, links, List.mem_append, Dict.mem_keys_set] at member
      rw [seen, List.mem_cons]
      rcases member with old | rfl | old
      · exact Or.inr (held.seen other (List.mem_append_left _ old))
      · exact Or.inl rfl
      · exact Or.inr (held.seen other (List.mem_append_right _ old))
    · exact named
    · intro other kept found
      rw [links, Dict.get?_set] at found
      split at found
      next same =>
        obtain rfl := Option.some.inj found
        exact same ▸ allowed
      next => exact held.linked other kept found
    · intro other member
      rw [files] at member
      rw [links, Dict.mem_keys_set, not_or]
      refine ⟨?_, held.apart other member⟩
      rintro rfl
      exact newName.1 member
  · constructor
    · intro other member
      rw [files, links, List.mem_append, Dict.mem_keys_set] at member
      rw [seen, List.mem_cons]
      rcases member with (rfl | old) | old
      · exact Or.inl rfl
      · exact Or.inr (held.seen other (List.mem_append_left _ old))
      · exact Or.inr (held.seen other (List.mem_append_right _ old))
    · exact named
    · rw [links]
      exact held.linked
    · intro other member
      rw [files, Dict.mem_keys_set] at member
      rw [links]
      rcases member with rfl | old
      · exact newName.2
      · exact held.apart other old

theorem Held.readMembers {items : List Member} (held : Held reading)
    (run : items.foldlM (Products.readMember policy) reading = some next) : Held next := by
  induction items generalizing reading with
  | nil => exact Option.some.inj run ▸ held
  | cons item rest ih =>
      rw [List.foldlM_cons, Option.bind_eq_bind, Option.bind_eq_some_iff] at run
      obtain ⟨middle, step, later⟩ := run
      exact ih (held.readMember step) later

/-- What is known of an accepted product. -/
structure Valid (product : BuildProduct) : Prop where
  safe : ∀ leaf ∈ leaves product, ∃ original, safePath original = some leaf
  unnested : ∀ leaf ∈ leaves product, ∀ above ∈ leaves product, above ∉ ancestors leaf
  linked : ∀ name target, product.links.get? name = some target →
    allowedLink name target = true ∧ linked name target ∈ product.files.keys
  apart : ∀ name ∈ product.files.keys, name ∉ product.links.keys

theorem read_valid {length : Nat} {members : Option (List Member)} {product : BuildProduct}
    (done : read length members policy = some product) : Valid product := by
  simp only [read] at done
  split at done
  next => cases done
  next =>
    split at done
    next => cases done
    next items =>
      split at done
      next => cases done
      next reading run =>
        split at done
        next checked =>
          obtain rfl := Option.some.inj done
          have held := held_start.readMembers run
          simp only [accepted, Bool.and_eq_true, List.all_eq_true, decide_eq_true_eq] at checked
          constructor
          · intro leaf member
            exact held.named leaf (held.seen leaf member)
          · intro leaf member above other nested
            exact checked.1 leaf (held.seen leaf member) above nested other
          · intro name target found
            exact ⟨held.linked name target found, checked.2 (name, target) (Dict.mem_entries.mpr found)⟩
          · exact held.apart
        next => cases done

/-! ### Links of accepted products -/

section Links

variable {product : BuildProduct} {name target : String}

theorem named_of_allowed {part : Part} (allowed : part ∉ forbiddenParts) : named part = true := by
  simp only [forbiddenParts, List.map_cons, List.mem_cons, not_or] at allowed
  obtain ⟨solid, notDot, notUp, _⟩ := allowed
  simp only [named, Bool.and_eq_true, decide_eq_true_eq]
  exact ⟨⟨solid, notDot⟩, notUp⟩

theorem Valid.parts (valid : Valid product) {leaf : String} (member : leaf ∈ leaves product) :
    ∀ part ∈ split leaf.toList, named part = true := by
  obtain ⟨original, safe⟩ := valid.safe leaf member
  obtain ⟨accepted, _, rfl⟩ := safePath_eq_some.mp safe
  rw [String.toList_ofList]
  intro part inside
  exact named_of_allowed (accepted.parts part inside)

theorem nameOf_nil_notMem (valid : Valid product) : nameOf [] ∉ leaves product := by
  intro member
  have blank := valid.parts member [] (by decide)
  cases blank

theorem node_directory (valid : Valid product) {stack : List Part} :
    node product stack = .directory ↔ stack = [] ∨ ∃ leaf ∈ leaves product, nameOf stack ∈ ancestors leaf := by
  have separate : (stack = [] ∨ ∃ leaf ∈ leaves product, nameOf stack ∈ ancestors leaf) →
      nameOf stack ∉ leaves product := by
    rintro (rfl | ⟨leaf, member, nested⟩) inside
    · exact nameOf_nil_notMem valid inside
    · exact valid.unnested leaf member _ inside nested
  simp only [node, List.any_eq_true, decide_eq_true_eq]
  constructor
  · intro directory
    split at directory
    next => cases directory
    next =>
      split at directory
      next => cases directory
      next =>
        split at directory
        next there => exact there
        next => cases directory
  · intro there
    have outside := separate there
    rw [leaves, List.mem_append, not_or] at outside
    rw [if_neg outside.1, if_neg outside.2, if_pos there]

theorem node_file {stack : List Part} : node product stack = .file ↔ nameOf stack ∈ product.files.keys := by
  rw [node]
  constructor
  · intro file
    split at file
    next member => exact member
    next =>
      split at file
      next => cases file
      next =>
        split at file
        next => cases file
        next => cases file
  · intro member
    rw [if_pos member]

theorem nameOf_ancestor {stack : List Part} {leaf : String} :
    nameOf stack ∈ ancestors leaf ↔ join stack.reverse ++ ['/'] <+: leaf.toList := by
  rw [Archives.mem_ancestors, nameOf, String.toList_ofList]

theorem node_above (valid : Valid product) (part : Part) (stack : List Part)
    (directory : node product (part :: stack) = .directory) : node product stack = .directory := by
  rw [node_directory valid] at directory ⊢
  rcases directory with impossible | ⟨leaf, member, nested⟩
  · cases impossible
  · by_cases root : stack = []
    · exact Or.inl root
    · refine Or.inr ⟨leaf, member, nameOf_ancestor.mpr ?_⟩
      have whole := join_append (mt List.reverse_eq_nil_iff.mp root) (List.cons_ne_nil part [])
      rw [nameOf_ancestor, List.reverse_cons, whole] at nested
      refine List.IsPrefix.trans ?_ nested
      exact ⟨join [part] ++ ['/'], by simp⟩

theorem getLast_join {parts : List Part} (entries : ∀ part ∈ parts, named part = true)
    (clean : ∀ part ∈ parts, '/' ∉ part) : (join parts).getLast? ≠ some '/' := by
  induction parts with
  | nil => simp [join]
  | cons part rest ih =>
      cases rest with
      | nil =>
          intro slash
          have only : join [part] = part := List.append_nil part
          rw [only] at slash
          exact clean part List.mem_cons_self (List.mem_of_getLast? slash)
      | cons next others =>
          have later := ih (fun other member => entries other (List.mem_cons_of_mem _ member))
            fun other member => clean other (List.mem_cons_of_mem _ member)
          have whole := join_append (List.cons_ne_nil part []) (List.cons_ne_nil next others)
          have solid : join (next :: others) ≠ [] := by
            intro empty
            have parts := split_join (fun other member => clean other (List.mem_cons_of_mem _ member))
              (List.cons_ne_nil next others)
            rw [empty] at parts
            have first : [] ∈ next :: others := by
              rw [← parts]
              decide
            have blank := entries [] (List.mem_cons_of_mem _ first)
            cases blank
          rw [List.singleton_append] at whole
          rw [whole, List.getLast?_append, List.getLast?_cons]
          cases last : (join (next :: others)).getLast? with
          | none => exact absurd (List.getLast?_eq_none_iff.mp last) solid
          | some char =>
              rw [last] at later
              simpa using later

/-- The parts of the directory of a leaf. -/
theorem Valid.directory_parts (valid : Valid product) (member : name ∈ leaves product) :
    (∀ part ∈ (split name.toList).dropLast, named part = true) ∧
      ∀ part ∈ (split name.toList).dropLast, '/' ∉ part := by
  constructor
  · intro part inside
    exact valid.parts member part ((List.dropLast_subset _) inside)
  · intro part inside
    exact slash_notMem ((List.dropLast_subset _) inside)

theorem node_dirname (valid : Valid product) (member : name ∈ leaves product) :
    node product (split name.toList).dropLast.reverse = .directory := by
  rw [node_directory valid]
  by_cases root : (split name.toList).dropLast = []
  · exact Or.inl (by rw [root]; rfl)
  · refine Or.inr ⟨name, member, nameOf_ancestor.mpr ?_⟩
    have whole := join_append root (List.cons_ne_nil ((split name.toList).getLast (split_ne_nil _)) [])
    rw [List.dropLast_append_getLast, join_split] at whole
    refine ⟨join [(split name.toList).getLast (split_ne_nil _)], ?_⟩
    rw [List.reverse_reverse, List.append_assoc, List.singleton_append]
    exact whole.symm

/-- The stack that the lexical normal form of a link reaches. -/
def lexical (name target : String) : List Part :=
  (split target.toList).foldl push (split name.toList).dropLast.reverse

theorem normpath_linked (valid : Valid product) (member : name ∈ leaves product)
    (allowed : allowedLink name target = true) :
    linked name target = if lexical name target = [] then "." else nameOf (lexical name target) := by
  obtain ⟨entries, clean⟩ := valid.directory_parts member
  have relative : target.toList.head? ≠ some '/' := by
    simp only [allowedLink, Bool.and_eq_true, decide_eq_true_eq] at allowed
    exact allowed.1.1.2
  have directory : dirname name.toList = join (split name.toList).dropLast :=
    rstrip_eq_self (getLast_join entries clean)
  have stack : (split (joinPath (dirname name.toList) target.toList)).foldl push [] = lexical name target := by
    rw [joinPath, if_neg relative, directory]
    by_cases root : (split name.toList).dropLast = []
    · have blank : join [] = [] := rfl
      rw [root, if_pos (Or.inl blank)]
      change (split target.toList).foldl push [] = _
      rw [lexical, root]
      rfl
    · have solid : join (split name.toList).dropLast ≠ [] := by
        intro empty
        have parts := split_join clean root
        rw [empty] at parts
        have first : [] ∈ (split name.toList).dropLast := by
          rw [← parts]
          decide
        have blank := entries [] first
        cases blank
      rw [if_neg (by rw [not_or]; exact ⟨solid, getLast_join entries clean⟩), split_append_slash, split_join clean root,
        List.foldl_append, foldl_push_named entries, List.append_nil]
      rfl
  rw [linked, normpath, stack]
  split
  next => rfl
  next => rfl

/-- The normal form of an accepted link is a path inside the product, without parent segments. -/
theorem lexical_inside (valid : Valid product) (found : product.links.get? name = some target) :
    nameOf (lexical name target) ∈ product.files.keys ∧ ['.', '.'] ∉ lexical name target := by
  have member : name ∈ leaves product := by
    refine List.mem_append_right _ (Dict.mem_keys_iff_isSome.mpr ?_)
    rw [found]
    rfl
  obtain ⟨allowed, retained⟩ := valid.linked name target found
  rw [normpath_linked valid member allowed] at retained
  split at retained
  next =>
    have dot := valid.parts (List.mem_append_left _ retained) ['.'] (by decide)
    cases dot
  next solid =>
    refine ⟨retained, ?_⟩
    intro up
    have clean : ∀ part ∈ (lexical name target).reverse, '/' ∉ part := by
      intro part inside
      rcases mem_foldl_push (List.mem_reverse.mp inside) with above | later
      · exact slash_notMem ((List.dropLast_subset _) (List.mem_reverse.mp above))
      · exact slash_notMem later
    have parts := valid.parts (List.mem_append_left _ retained)
    rw [nameOf, String.toList_ofList, split_join clean (mt List.reverse_eq_nil_iff.mp solid)] at parts
    have entry := parts ['.', '.'] (List.mem_reverse.mpr up)
    cases entry

theorem resolve_iff (valid : Valid product) (found : product.links.get? name = some target) :
    (∃ file ∈ product.files.keys, resolve product name target = some file) ↔
      PassesDirectories product name target := by
  have member : name ∈ leaves product := by
    refine List.mem_append_right _ (Dict.mem_keys_iff_isSome.mpr ?_)
    rw [found]
    rfl
  obtain ⟨retained, inside⟩ := lexical_inside valid found
  have clean : ['.', '.'] ∉ (split name.toList).dropLast.reverse := by
    intro up
    have entry := (valid.directory_parts member).1 _ (List.mem_reverse.mp up)
    cases entry
  have reached := walk_isSome_iff (node_above valid) (node_dirname valid member) clean inside (node_file.mpr retained)
  rw [PassesDirectories, ← reached, Option.isSome_iff_exists]
  constructor
  · rintro ⟨file, _, walked⟩
    obtain ⟨stack, step, _⟩ := Option.map_eq_some_iff.mp walked
    exact ⟨stack, step⟩
  · rintro ⟨stack, walked⟩
    exact ⟨nameOf stack, node_file.mp (walk_file walked), by rw [resolve, walked]; rfl⟩

/-- In every accepted product, a link leads part after part to a retained file exactly where its target
passes through directories of the product only. -/
theorem links_resolve_iff {length : Nat} {members : Option (List Member)} {policy : Policy}
    (done : read length members policy = some product) (found : product.links.get? name = some target) :
    (∃ file ∈ product.files.keys, resolve product name target = some file) ↔
      PassesDirectories product name target :=
  resolve_iff (read_valid done) found

end Links

/-! ### Samples -/

section Sample

def generous : Policy := ⟨32 * 1024 * 1024, 2000⟩

def file (name : String) : Member := ⟨name, .file, false, 1, [120], true⟩

def link (name target : String) : Member := ⟨name, .link target, false, 0, [], true⟩

def productOf (target : String) : BuildProduct :=
  ⟨⟨[("lib/tool.js", ⟨[120], true⟩)], by decide⟩, ⟨[("bin/tool", target)], by simp⟩⟩

theorem links_resolve_iff_sample :
    ((∃ file ∈ (productOf "../lib/tool.js").files.keys,
        resolve (productOf "../lib/tool.js") "bin/tool" "../lib/tool.js" = some file) ↔
      PassesDirectories (productOf "../lib/tool.js") "bin/tool" "../lib/tool.js") :=
  @links_resolve_iff (productOf "../lib/tool.js") "bin/tool" "../lib/tool.js" 10240
    (some [file "lib/tool.js", link "bin/tool" "../lib/tool.js"]) generous rfl rfl

/-- A product is accepted whose link passes through a directory that it does not have. -/
theorem missing_directory_accepted :
    (∃ product, read 10240 (some [file "lib/tool.js", link "bin/tool" "missing/../../lib/tool.js"]) generous =
      some product ∧ product.links.get? "bin/tool" = some "missing/../../lib/tool.js" ∧
        resolve product "bin/tool" "missing/../../lib/tool.js" = none) :=
  ⟨productOf "missing/../../lib/tool.js", rfl, rfl, by decide +kernel⟩

end Sample

end Products

end FeatureRl
