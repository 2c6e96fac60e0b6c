import FeatureRl.Lib.TomlReader

/-!
A dictionary written as TOML: first the values of a table on lines of their own, then its tables under headers
with their whole path. The lines define the dictionary again.
-/

namespace Toml

open Json (Members)

/-! ### The lines of a table -/

def isObject : Json → Bool
  | .obj _ => true
  | _ => false

/-- A value that is written under headers of its own. -/
def isTable : Json → Bool
  | .obj _ => true
  | .arr items => items.any isObject
  | _ => false

def entries (members : Members) : List Line :=
  (members.filter fun member => !isTable member.2).map fun member => .entry member.1 member.2

mutual

def itemLines (path : List String) : Json → List Line
  | .obj members => .header path :: (entries members ++ subLines path members)
  | .arr items => if items.any isObject then elementLines path items else []
  | _ => []

def subLines (path : List String) : Members → List Line
  | [] => []
  | (key, item) :: rest => itemLines (path ++ [key]) item ++ subLines path rest

def elementLines (path : List String) : List Json → List Line
  | [] => []
  | .obj members :: rest => .element path :: (entries members ++ subLines path members) ++ elementLines path rest
  | _ :: rest => elementLines path rest

end

def tableLines (path : List String) (members : Members) : List Line := entries members ++ subLines path members

mutual

/-- What can be written: scalars and arrays of them, tables, and arrays that hold only tables. -/
def supported : Json → Bool
  | .null => false
  | .arr items => if items.any isObject then tablesOnly items else areInline items
  | .obj members => supportedMembers members
  | _ => true

def supportedMembers : Members → Bool
  | [] => true
  | (_, item) :: rest => supported item && supportedMembers rest

def tablesOnly : List Json → Bool
  | [] => true
  | .obj members :: rest => supportedMembers members && tablesOnly rest
  | _ :: _ => false

end

theorem isInline_of_supported {value : Json} (holds : supported value = true) (flat : isTable value = false) :
    isInline value = true := by
  cases value with
  | null => cases holds
  | arr items =>
      simp only [isTable] at flat
      simpa [supported, flat, isInline] using holds
  | obj members => cases flat
  | _ => rfl

theorem supportedMembers_iff (members : Members) :
    supportedMembers members = true ↔ ∀ member ∈ members, supported member.2 = true := by
  induction members with
  | nil => simp [supportedMembers]
  | cons member rest ih =>
      obtain ⟨key, item⟩ := member
      simp [supportedMembers, ih]

theorem formed_entries (members : Members) (holds : supportedMembers members = true) :
    (entries members).all Line.formed = true := by
  rw [supportedMembers_iff] at holds
  simp only [entries, List.all_map, List.all_eq_true, List.mem_filter]
  rintro member ⟨listed, flat⟩
  exact isInline_of_supported (holds member listed) (by simpa using flat)

/-! ### Nodes -/

theorem membersOf_append (one two : Nodes) : membersOf (one ++ two) = membersOf one ++ membersOf two := by
  induction one with
  | nil => rfl
  | cons entry rest ih =>
      obtain ⟨key, node⟩ := entry
      simp [membersOf, ih]

theorem tablesOf_append (one two : List Nodes) : tablesOf (one ++ two) = tablesOf one ++ tablesOf two := by
  induction one with
  | nil => rfl
  | cons members rest ih => simp [tablesOf, ih]

theorem keys_membersOf (nodes : Nodes) : (membersOf nodes).map Prod.fst = nodes.map Prod.fst := by
  induction nodes with
  | nil => rfl
  | cons entry rest ih =>
      obtain ⟨key, node⟩ := entry
      simp [membersOf, ih]

theorem alter_fresh {key : String} {change : Option Node → Option Node} {nodes : Nodes}
    (fresh : key ∉ nodes.map Prod.fst) :
    alter key change nodes = (change none).map fun node => nodes ++ [(key, node)] := by
  induction nodes with
  | nil => rfl
  | cons entry rest ih =>
      obtain ⟨other, node⟩ := entry
      simp only [List.map_cons, List.mem_cons, not_or] at fresh
      rw [alter, if_neg (Ne.symm fresh.1), ih fresh.2]
      cases change none <;> rfl

theorem alter_last {key : String} {change : Option Node → Option Node} {nodes : Nodes} {node : Node}
    (fresh : key ∉ nodes.map Prod.fst) :
    alter key change (nodes ++ [(key, node)]) = (change (some node)).map fun node => nodes ++ [(key, node)] := by
  induction nodes with
  | nil => simp [alter]
  | cons entry rest ih =>
      obtain ⟨other, held⟩ := entry
      simp only [List.map_cons, List.mem_cons, not_or] at fresh
      rw [List.cons_append, alter, if_neg (Ne.symm fresh.1), ih fresh.2]
      cases change (some node) <;> rfl

/-! ### Lines inside a table -/

def Line.under (key : String) : Line → Line
  | .header path => .header (key :: path)
  | .element path => .element (key :: path)
  | .entry name value => .entry name value

/-- How a key holds a table: as the table itself, or as the last one of an array. -/
inductive Slot : (Nodes → Node) → Prop
  | table (defined : Bool) : Slot (.table defined)
  | tables (earlier : List Nodes) : Slot (.tables earlier)

theorem within_slot {slot : Nodes → Node} (holds : Slot slot) {key : String} {done nodes : Nodes}
    (fresh : key ∉ done.map Prod.fst) (path : List String) (change : Nodes → Option Nodes) :
    within (key :: path) change (done ++ [(key, slot nodes)]) =
      (within path change nodes).map fun nodes => done ++ [(key, slot nodes)] := by
  rw [within, alter_last fresh]
  cases holds with
  | table defined => exact Option.map_map _ _ _
  | tables earlier => exact Option.map_map _ _ _

theorem alterAt_slot {slot : Nodes → Node} (holds : Slot slot) {key : String} {done nodes : Nodes}
    (fresh : key ∉ done.map Prod.fst) {path : List String} (nonempty : path ≠ [])
    (change : Option Node → Option Node) :
    alterAt (key :: path) change (done ++ [(key, slot nodes)]) =
      (alterAt path change nodes).map fun nodes => done ++ [(key, slot nodes)] := by
  obtain ⟨before, last, rfl⟩ : ∃ before last, path = before ++ [last] :=
    ⟨path.dropLast, path.getLast nonempty, (List.dropLast_append_getLast nonempty).symm⟩
  simp only [alterAt, ← List.cons_append, List.getLast?_concat, List.dropLast_concat]
  exact within_slot holds fresh before (alter last change)

/-- Lines below a key change only the table that it holds. -/
theorem run_under {slot : Nodes → Node} (holds : Slot slot) {key : String} {done : Nodes}
    (fresh : key ∉ done.map Prod.fst) {lines : List Line} (formed : lines.all Line.formed = true)
    (current : List String) (nodes : Nodes) :
    run (key :: current) (lines.map (Line.under key)) (done ++ [(key, slot nodes)]) =
      (run current lines nodes).map fun nodes => done ++ [(key, slot nodes)] := by
  induction lines generalizing current nodes with
  | nil => rfl
  | cons line rest ih =>
      simp only [List.all_cons, Bool.and_eq_true] at formed
      cases line with
      | header path =>
          have nonempty : path ≠ [] := by simpa [Line.formed] using formed.1
          simp only [List.map_cons, Line.under, run, alterAt_slot holds fresh nonempty]
          cases alterAt path define nodes with
          | none => rfl
          | some nodes => exact ih formed.2 path nodes
      | element path =>
          have nonempty : path ≠ [] := by simpa [Line.formed] using formed.1
          simp only [List.map_cons, Line.under, run, alterAt_slot holds fresh nonempty]
          cases alterAt path extend nodes with
          | none => rfl
          | some nodes => exact ih formed.2 path nodes
      | entry name value =>
          simp only [List.map_cons, Line.under, run, within_slot holds fresh]
          cases within current (alter name (bind value)) nodes with
          | none => rfl
          | some nodes => exact ih formed.2 current nodes

/-- The path at which a document stands after some of its lines. -/
def endPath : List String → List Line → List String
  | current, [] => current
  | _, .header path :: rest => endPath path rest
  | _, .element path :: rest => endPath path rest
  | current, .entry _ _ :: rest => endPath current rest

theorem run_append (current : List String) (one two : List Line) (nodes : Nodes) :
    run current (one ++ two) nodes = (run current one nodes).bind (run (endPath current one) two) := by
  induction one generalizing current nodes with
  | nil => rfl
  | cons line rest ih =>
      cases line with
      | header path =>
          simp only [List.cons_append, run, endPath]
          cases alterAt path define nodes with
          | none => rfl
          | some nodes => exact ih path nodes
      | element path =>
          simp only [List.cons_append, run, endPath]
          cases alterAt path extend nodes with
          | none => rfl
          | some nodes => exact ih path nodes
      | entry name value =>
          simp only [List.cons_append, run, endPath]
          cases within current (alter name (bind value)) nodes with
          | none => rfl
          | some nodes => exact ih current nodes

theorem entries_under (key : String) (members : Members) :
    (entries members).map (Line.under key) = entries members := by
  simp [entries, Line.under, Function.comp_def]

mutual

theorem itemLines_under (key : String) (path : List String) : ∀ item : Json,
    itemLines (key :: path) item = (itemLines path item).map (Line.under key)
  | .obj members => by
      simp [itemLines, entries_under, subLines_under key path members, Line.under]
  | .arr items => by
      by_cases some_table : items.any isObject = true
      · simp only [itemLines, some_table, ↓reduceIte, elementLines_under key path items]
      · simp [itemLines, some_table]
  | .null | .bool _ | .int _ | .float _ | .str _ => rfl

theorem subLines_under (key : String) (path : List String) : ∀ members : Members,
    subLines (key :: path) members = (subLines path members).map (Line.under key)
  | [] => rfl
  | (name, item) :: rest => by
      simp [subLines, itemLines_under key (path ++ [name]) item, subLines_under key path rest]

theorem elementLines_under (key : String) (path : List String) : ∀ items : List Json,
    elementLines (key :: path) items = (elementLines path items).map (Line.under key)
  | [] => rfl
  | .obj members :: rest => by
      simp [elementLines, entries_under, subLines_under key path members, elementLines_under key path rest,
        Line.under]
  | .null :: rest | .bool _ :: rest | .int _ :: rest | .float _ :: rest | .str _ :: rest | .arr _ :: rest => by
      simp only [elementLines]
      exact elementLines_under key path rest

end

theorem tableLines_under (key : String) (members : Members) :
    tableLines [key] members = (tableLines [] members).map (Line.under key) := by
  rw [tableLines, tableLines, List.map_append, entries_under, subLines_under]

/-! ### Running the lines of a table -/

mutual

theorem formed_itemLines (path : List String) (nonempty : path ≠ []) : ∀ item : Json, supported item = true →
    (itemLines path item).all Line.formed = true
  | .obj members, holds => by
      have inner := formed_subLines path members holds
      have flat := formed_entries members holds
      simp only [itemLines, List.all_cons, List.all_append, inner, flat]
      simp [Line.formed, nonempty]
  | .arr items, holds => by
      by_cases some_table : items.any isObject = true
      · simp only [supported, some_table, ↓reduceIte] at holds
        simp only [itemLines, some_table, ↓reduceIte]
        exact formed_elementLines path nonempty items holds
      · simp [itemLines, some_table]
  | .null, _ | .bool _, _ | .int _, _ | .float _, _ | .str _, _ => rfl

theorem formed_subLines (path : List String) : ∀ members : Members, supportedMembers members = true →
    (subLines path members).all Line.formed = true
  | [], _ => rfl
  | (key, item) :: rest, holds => by
      simp only [supportedMembers, Bool.and_eq_true] at holds
      simp only [subLines, List.all_append, Bool.and_eq_true]
      exact ⟨formed_itemLines (path ++ [key]) (by simp) item holds.1, formed_subLines path rest holds.2⟩

theorem formed_elementLines (path : List String) (nonempty : path ≠ []) : ∀ items : List Json,
    tablesOnly items = true → (elementLines path items).all Line.formed = true
  | [], _ => rfl
  | .obj members :: rest, holds => by
      simp only [tablesOnly, Bool.and_eq_true] at holds
      have inner := formed_subLines path members holds.1
      have flat := formed_entries members holds.1
      have later := formed_elementLines path nonempty rest holds.2
      simp only [elementLines, List.cons_append, List.all_cons, List.all_append, inner, flat, later]
      simp [Line.formed, nonempty]
  | .null :: _, holds | .bool _ :: _, holds | .int _ :: _, holds | .float _ :: _, holds | .str _ :: _, holds
  | .arr _ :: _, holds => by cases holds

end

theorem formed_tableLines (path : List String) {members : Members} (holds : supportedMembers members = true) :
    (tableLines path members).all Line.formed = true := by
  rw [tableLines, List.all_append, formed_entries members holds, formed_subLines path members holds]
  rfl

/-- Values on lines of their own are bound one after the other. -/
theorem run_entries (flat : Members) (rest : List Line) (nodes : Nodes)
    (fresh : (nodes.map Prod.fst ++ flat.map Prod.fst).Nodup) :
    run [] (flat.map (fun member => Line.entry member.1 member.2) ++ rest) nodes =
      run [] rest (nodes ++ flat.map fun member => (member.1, .value member.2)) := by
  induction flat generalizing nodes with
  | nil => simp
  | cons member flat ih =>
      obtain ⟨key, value⟩ := member
      have unbound : key ∉ nodes.map Prod.fst := by
        intro bound
        rw [List.map_cons, List.nodup_append] at fresh
        exact fresh.2.2 key bound key List.mem_cons_self rfl
      simp only [List.map_cons, List.cons_append, run, within, alter_fresh unbound, Toml.bind, Option.map_some,
        Option.bind_eq_bind, Option.bind_some]
      rw [ih]
      · simp
      · simpa [List.append_assoc] using fresh

theorem membersOf_values (flat : Members) :
    membersOf (flat.map fun member => (member.1, Node.value member.2)) = flat := by
  induction flat with
  | nil => rfl
  | cons member rest ih => simp [membersOf, Node.toJson, ih]

/-- The members of a dictionary in any order make the dictionary. -/
theorem dict_of_perm {members other : Members} (sorted : Json.sortedKeys members = true)
    (perm : other.Perm members) : Json.dict other = .obj members := by
  have unique : (other.map Prod.fst).Nodup := (perm.map Prod.fst).nodup_iff.mpr (Json.nodup_of_sortedKeys sorted)
  have ordered := Json.sortedKeys_sortMembers unique
  rw [Json.sortedKeys, decide_eq_true_iff, List.pairwise_map] at sorted ordered
  rw [Json.dict]
  congr 1
  refine List.Perm.eq_of_pairwise ?_ ordered sorted ((Json.sortMembers_perm other).trans perm)
  intro one two _ _ below above
  exact absurd (lt_trans below above) (lt_irrefl _)

/-- The headers inside a table define its tables. -/
def DefinesTables (members : Members) : Prop :=
  ∀ (current : List String) (done : Nodes),
    (done.map Prod.fst ++ (members.filter fun member => isTable member.2).map Prod.fst).Nodup →
    ∃ added, run current (subLines [] members) done = some (done ++ added) ∧
      membersOf added = members.filter fun member => isTable member.2

/-- The lines of a table define it in a table that is still empty. -/
def Defines (members : Members) : Prop :=
  ∃ nodes, run [] (tableLines [] members) [] = some nodes ∧ Json.dict (membersOf nodes) = .obj members

theorem defines_of_tables {members : Members} (sorted : Json.sortedKeys members = true)
    (tables : DefinesTables members) : Defines members := by
  let flat := members.filter fun member => !isTable member.2
  have perm : (flat ++ members.filter fun member => isTable member.2).Perm members :=
    List.perm_append_comm.trans (List.filter_append_perm (fun member => isTable member.2) members)
  have unique : (flat.map Prod.fst ++ (members.filter fun member => isTable member.2).map Prod.fst).Nodup := by
    rw [← List.map_append]
    exact (perm.map Prod.fst).nodup_iff.mpr (Json.nodup_of_sortedKeys sorted)
  obtain ⟨added, ran, held⟩ := tables [] (flat.map fun member => (member.1, Node.value member.2)) (by
    simpa [Function.comp_def] using unique)
  refine ⟨(flat.map fun member => (member.1, Node.value member.2)) ++ added, ?_, ?_⟩
  · rw [tableLines, entries, run_entries _ _ [] (by simpa using (List.nodup_append.mp unique).1)]
    exact ran
  · rw [membersOf_append, membersOf_values, held]
    exact dict_of_perm sorted perm

/-- The lines of a table under the header of its key. -/
theorem Defines.under {members : Members} (defines : Defines members) (holds : supportedMembers members = true)
    {slot : Nodes → Node} (is_slot : Slot slot) {key : String} {done : Nodes}
    (fresh : key ∉ done.map Prod.fst) :
    ∃ nodes,
      run [key] (tableLines [key] members) (done ++ [(key, slot [])]) = some (done ++ [(key, slot nodes)]) ∧
      Json.dict (membersOf nodes) = .obj members := by
  obtain ⟨nodes, ran, same⟩ := defines
  refine ⟨nodes, ?_, same⟩
  rw [tableLines_under, run_under is_slot fresh (formed_tableLines [] holds), ran]
  rfl

theorem itemLines_flat (path : List String) {item : Json} (flat : isTable item = false) :
    itemLines path item = [] := by
  cases item with
  | obj members => cases flat
  | arr items =>
      simp only [isTable] at flat
      simp [itemLines, flat]
  | _ => rfl

/-- The header of an array of tables and the lines of the table it starts. -/
theorem run_element {members : Members} (defines : Defines members) (holds : supportedMembers members = true)
    {current : List String} {key : String} {done before : Nodes} {earlier : List Nodes} (rest : List Line)
    (fresh : key ∉ done.map Prod.fst)
    (extended : alterAt [key] extend before = some (done ++ [(key, .tables earlier [])])) :
    ∃ nodes, run current (.element [key] :: (entries members ++ subLines [key] members) ++ rest) before =
        run (endPath [key] (tableLines [key] members)) rest (done ++ [(key, .tables earlier nodes)]) ∧
      Json.dict (membersOf nodes) = .obj members := by
  obtain ⟨nodes, ran, same⟩ := defines.under holds (.tables earlier) fresh
  refine ⟨nodes, ?_, same⟩
  rw [List.cons_append, run, extended, Option.bind_eq_bind, Option.bind_some, ← tableLines, run_append, ran,
    Option.bind_some]

mutual

theorem run_itemLines : ∀ item : Json, supported item = true → item.normal = true → isTable item = true →
    ∀ (current : List String) (key : String) (done : Nodes), key ∉ done.map Prod.fst →
    ∃ node, run current (itemLines [key] item) done = some (done ++ [(key, node)]) ∧ node.toJson = item
  | .obj members, holds, formed, _, current, key, done, fresh => by
      simp only [Json.normal, Bool.and_eq_true] at formed
      have defines := defines_of_tables formed.1 (run_subLines members holds formed.2)
      obtain ⟨nodes, ran, same⟩ := defines.under holds (.table true) fresh
      refine ⟨.table true nodes, ?_, same⟩
      have defined : alterAt [key] define done = some (done ++ [(key, .table true [])]) := by
        simp [alterAt, within, alter_fresh fresh, define]
      rw [tableLines] at ran
      simp only [itemLines, run, defined, Option.bind_eq_bind, Option.bind_some, ran]
  | .arr items, holds, formed, table, current, key, done, fresh => by
      simp only [isTable] at table
      simp only [supported, table, ↓reduceIte] at holds
      simp only [Json.normal] at formed
      obtain ⟨before, final, ran, same⟩ := run_firstElement items holds formed (by
        rintro rfl
        cases table) current key done fresh
      refine ⟨.tables before final, ?_, ?_⟩
      · simp only [itemLines, table, ↓reduceIte, ran]
      · rw [Node.toJson, same]
  | .null, _, _, table, _, _, _, _ | .bool _, _, _, table, _, _, _, _ | .int _, _, _, table, _, _, _, _
  | .float _, _, _, table, _, _, _, _ | .str _, _, _, table, _, _, _, _ => by cases table

theorem run_subLines : ∀ members : Members,
    supportedMembers members = true → Json.normalMembers members = true → DefinesTables members
  | [], _, _ => fun current done _ => ⟨[], by simp [subLines, run], rfl⟩
  | (key, item) :: rest, holds, formed => by
      intro current done unique
      simp only [supportedMembers, Bool.and_eq_true] at holds
      simp only [Json.normalMembers, Bool.and_eq_true] at formed
      have later := run_subLines rest holds.2 formed.2
      by_cases table : isTable item = true
      · simp only [List.filter_cons, table, ↓reduceIte, List.map_cons] at unique ⊢
        have fresh : key ∉ done.map Prod.fst := by
          intro bound
          rw [List.nodup_append] at unique
          exact unique.2.2 key bound key List.mem_cons_self rfl
        obtain ⟨node, ran, same⟩ := run_itemLines item holds.1 formed.1 table current key done fresh
        obtain ⟨added, ran_later, held⟩ :=
          later (endPath current (itemLines [key] item)) (done ++ [(key, node)])
            (by simpa [List.append_assoc] using unique)
        refine ⟨(key, node) :: added, ?_, ?_⟩
        · rw [subLines, List.nil_append, run_append, ran, Option.bind_some, ran_later]
          simp
        · simp [membersOf, same, held]
      · have none_written : itemLines ([] ++ [key]) item = [] := itemLines_flat _ (by simpa using table)
        simp only [List.filter_cons, table] at unique ⊢
        obtain ⟨added, ran_later, held⟩ := later current done (by simpa using unique)
        refine ⟨added, ?_, by simpa using held⟩
        rw [subLines, none_written, List.nil_append]
        exact ran_later

theorem run_firstElement : ∀ items : List Json, tablesOnly items = true → Json.normalItems items = true →
    items ≠ [] → ∀ (current : List String) (key : String) (done : Nodes), key ∉ done.map Prod.fst →
    ∃ before final, run current (elementLines [key] items) done = some (done ++ [(key, .tables before final)]) ∧
      tablesOf before ++ [Json.dict (membersOf final)] = items
  | [], _, _, nonempty, _, _, _, _ => absurd rfl nonempty
  | .obj members :: rest, holds, formed, _, current, key, done, fresh => by
      simp only [tablesOnly, Bool.and_eq_true] at holds
      simp only [Json.normalItems, Json.normal, Bool.and_eq_true] at formed
      have defines := defines_of_tables formed.1.1 (run_subLines members holds.1 formed.1.2)
      have extended : alterAt [key] extend done = some (done ++ [(key, .tables [] [])]) := by
        simp [alterAt, within, alter_fresh fresh, extend]
      obtain ⟨nodes, ran, same⟩ := run_element defines holds.1 (elementLines [key] rest) fresh extended
      obtain ⟨before, final, later, collected⟩ := run_elementLines rest holds.2 formed.2
        (endPath [key] (tableLines [key] members)) key done [] nodes fresh
      refine ⟨before, final, ?_, ?_⟩
      · rw [elementLines, ran, later]
      · rw [collected, same]
        rfl
  | .null :: _, holds, _, _, _, _, _, _ | .bool _ :: _, holds, _, _, _, _, _, _
  | .int _ :: _, holds, _, _, _, _, _, _ | .float _ :: _, holds, _, _, _, _, _, _
  | .str _ :: _, holds, _, _, _, _, _, _ | .arr _ :: _, holds, _, _, _, _, _, _ => by cases holds

theorem run_elementLines : ∀ items : List Json, tablesOnly items = true → Json.normalItems items = true →
    ∀ (current : List String) (key : String) (done : Nodes) (earlier : List Nodes) (last : Nodes),
    key ∉ done.map Prod.fst →
    ∃ before final, run current (elementLines [key] items) (done ++ [(key, .tables earlier last)]) =
        some (done ++ [(key, .tables before final)]) ∧
      tablesOf before ++ [Json.dict (membersOf final)] =
        tablesOf earlier ++ Json.dict (membersOf last) :: items
  | [], _, _, current, key, done, earlier, last, _ => ⟨earlier, last, rfl, by simp⟩
  | .obj members :: rest, holds, formed, current, key, done, earlier, last, fresh => by
      simp only [tablesOnly, Bool.and_eq_true] at holds
      simp only [Json.normalItems, Json.normal, Bool.and_eq_true] at formed
      have defines := defines_of_tables formed.1.1 (run_subLines members holds.1 formed.1.2)
      have extended : alterAt [key] extend (done ++ [(key, .tables earlier last)]) =
          some (done ++ [(key, .tables (earlier ++ [last]) [])]) := by
        simp [alterAt, within, alter_last fresh, extend]
      obtain ⟨nodes, ran, same⟩ := run_element defines holds.1 (elementLines [key] rest) fresh extended
      obtain ⟨before, final, later, collected⟩ := run_elementLines rest holds.2 formed.2
        (endPath [key] (tableLines [key] members)) key done (earlier ++ [last]) nodes fresh
      refine ⟨before, final, ?_, ?_⟩
      · rw [elementLines, ran, later]
      · rw [collected, tablesOf_append, same]
        simp [tablesOf]
  | .null :: _, holds, _, _, _, _, _, _, _ | .bool _ :: _, holds, _, _, _, _, _, _, _
  | .int _ :: _, holds, _, _, _, _, _, _, _ | .float _ :: _, holds, _, _, _, _, _, _, _
  | .str _ :: _, holds, _, _, _, _, _, _, _ | .arr _ :: _, holds, _, _, _, _, _, _, _ => by cases holds

end

/-- The lines of a dictionary define it. -/
theorem run_tableLines {members : Members} (holds : supportedMembers members = true)
    (formed : (Json.obj members).normal = true) : Defines members := by
  simp only [Json.normal, Bool.and_eq_true] at formed
  exact defines_of_tables formed.1 (run_subLines members holds formed.2)

/-! ### Delete characters -/

theorem plainMembers_iff (members : Members) :
    plainMembers members = true ↔
      ∀ member ∈ members, isPlain member.1 = true ∧ plainValue member.2 = true := by
  induction members with
  | nil => simp [plainMembers]
  | cons member rest ih =>
      obtain ⟨key, item⟩ := member
      simp [plainMembers, ih]

theorem plain_entries (members : Members) : (entries members).all Line.plain = true ↔
    ∀ member ∈ members, isTable member.2 = false → isPlain member.1 = true ∧ plainValue member.2 = true := by
  simp only [entries, List.all_map, List.all_eq_true, List.mem_filter, Function.comp_apply, Line.plain,
    Bool.and_eq_true, Bool.not_eq_true']
  constructor
  · exact fun all member listed flat => all member ⟨listed, flat⟩
  · exact fun all member listed => all member listed.1 listed.2

/-- The lines of a table are plain exactly when all of it is. -/
theorem plain_table {path : List String} {members : Members}
    (tables : (subLines path members).all Line.plain = true ↔
      ∀ member ∈ members, isTable member.2 = true → isPlain member.1 = true ∧ plainValue member.2 = true) :
    (tableLines path members).all Line.plain = true ↔ plainMembers members = true := by
  rw [tableLines, List.all_append, Bool.and_eq_true, plain_entries, tables, plainMembers_iff]
  constructor
  · rintro ⟨flat, nested⟩ member listed
    cases table : isTable member.2 with
    | true => exact nested member listed table
    | false => exact flat member listed table
  · exact fun all => ⟨fun member listed _ => all member listed, fun member listed _ => all member listed⟩

mutual

theorem plain_itemLines (path : List String) : ∀ item : Json, supported item = true → isTable item = true →
    ((itemLines path item).all Line.plain = true ↔ path.all isPlain = true ∧ plainValue item = true)
  | .obj members, holds, _ => by
      simp only [itemLines, List.all_cons, Bool.and_eq_true, Line.plain, plainValue]
      exact and_congr_right fun plain => plain_table (plain_subLines path plain members holds)
  | .arr items, holds, table => by
      simp only [isTable] at table
      simp only [supported, table, ↓reduceIte] at holds
      simp only [itemLines, table, ↓reduceIte, plainValue]
      cases items with
      | nil => cases table
      | cons item rest =>
          cases item with
          | obj members =>
              simp only [tablesOnly, Bool.and_eq_true] at holds
              change
                ((Line.element path :: tableLines path members) ++ elementLines path rest).all Line.plain = true ↔ _
              simp only [List.cons_append, List.all_cons, List.all_append, Bool.and_eq_true, Line.plain, plainValues,
                plainValue]
              refine and_congr_right fun plain => and_congr ?_ ?_
              · exact plain_table (plain_subLines path plain members holds.1)
              · exact plain_elementLines path plain rest holds.2
          | _ => cases holds
  | .null, _, table | .bool _, _, table | .int _, _, table | .float _, _, table | .str _, _, table => by cases table

theorem plain_subLines (path : List String) (plain : path.all isPlain = true) : ∀ members : Members,
    supportedMembers members = true → ((subLines path members).all Line.plain = true ↔
      ∀ member ∈ members, isTable member.2 = true → isPlain member.1 = true ∧ plainValue member.2 = true)
  | [], _ => by simp [subLines]
  | (key, item) :: rest, holds => by
      simp only [supportedMembers, Bool.and_eq_true] at holds
      have later := plain_subLines path plain rest holds.2
      rw [subLines, List.all_append, Bool.and_eq_true, later, List.forall_mem_cons]
      refine and_congr ?_ Iff.rfl
      cases table : isTable item with
      | true =>
          rw [plain_itemLines (path ++ [key]) item holds.1 table]
          simp [plain]
      | false =>
          rw [itemLines_flat _ table]
          simp

theorem plain_elementLines (path : List String) (plain : path.all isPlain = true) : ∀ items : List Json,
    tablesOnly items = true → ((elementLines path items).all Line.plain = true ↔ plainValues items = true)
  | [], _ => by simp [elementLines, plainValues]
  | .obj members :: rest, holds => by
      simp only [tablesOnly, Bool.and_eq_true] at holds
      have later := plain_elementLines path plain rest holds.2
      have inner := plain_table (plain_subLines path plain members holds.1)
      rw [tableLines] at inner
      rw [elementLines, List.all_append, Bool.and_eq_true, later, List.all_cons, Bool.and_eq_true, inner]
      simp [Line.plain, plain, plainValues, plainValue]
  | .null :: _, holds | .bool _ :: _, holds | .int _ :: _, holds | .float _ :: _, holds | .str _ :: _, holds
  | .arr _ :: _, holds => by cases holds

end

/-- A written dictionary is read back exactly when no string and no key in it holds a delete character. -/
theorem loads_writeLines {members : Members} (holds : supportedMembers members = true)
    (formed : (Json.obj members).normal = true) :
    loads (writeLines (tableLines [] members)) = if plainMembers members then some (.obj members) else none := by
  obtain ⟨nodes, ran, same⟩ := run_tableLines holds formed
  rw [loads, readLines_writeLines (formed_tableLines [] holds)]
  have plain := plain_table (plain_subLines [] rfl members holds)
  by_cases all_plain : plainMembers members = true
  · simp [all_plain, plain.mpr all_plain, ran, same]
  · have not_plain : ¬ (tableLines [] members).all Line.plain = true := fun lines => all_plain (plain.mp lines)
    simp [all_plain, not_plain]

end Toml
