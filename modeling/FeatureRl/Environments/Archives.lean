import FeatureRl.Lib.Dict
import FeatureRl.Lib.Paths
import FeatureRl.Lib.Sorting
import FeatureRl.Lib.Utf8
import Mathlib.Algebra.GroupWithZero.Nat
import Mathlib.Algebra.Order.BigOperators.Group.List
import Mathlib.Data.String.Basic

/-!
Source archives: the paths that a member may have, the archives that are read from tar members
within a policy, and how they are written back.
-/

namespace FeatureRl

namespace Archives

open Paths

/-! ### Paths -/

def utf8Length (text : List Char) : Nat := (Utf8.encode text).length

def forbiddenParts : List Part := ["", ".", "..", ".git", "__pycache__"].map String.toList

/-- A compiled Python file, by the end of its name. -/
def compiled (name : String) : Bool :=
  ".pyc".toList.isSuffixOf name.toList || ".pyo".toList.isSuffixOf name.toList

def safePath (name : String) : Option String :=
  let chars := name.toList
  if chars = [] || 1024 < utf8Length chars then none
  else if chars.any fun char => char = '\\' || char.toNat < 32 then none
  else
    let parts := split (rstrip chars)
    if parts.any (fun part => part ∈ forbiddenParts) || chars.head? = some '/' then none
    else if parts.any fun part => 255 < utf8Length part then none
    else if compiled name then none
    else some (String.ofList (join parts))

/-- What `safePath` asks of the characters, the compiled suffix apart. -/
structure Accepted (chars : List Char) : Prop where
  nonempty : chars ≠ []
  short : utf8Length chars ≤ 1024
  plain : ∀ char ∈ chars, char ≠ '\\' ∧ 32 ≤ char.toNat
  parts : ∀ part ∈ split (rstrip chars), part ∉ forbiddenParts
  relative : chars.head? ≠ some '/'
  partsShort : ∀ part ∈ split (rstrip chars), utf8Length part ≤ 255

theorem safePath_eq_some {name path : String} :
    safePath name = some path ↔
      Accepted name.toList ∧ compiled name = false ∧ path = String.ofList (rstrip name.toList) := by
  have whole := join_split (rstrip name.toList)
  constructor
  · intro safe
    simp only [safePath] at safe
    split at safe
    next => cases safe
    next bounded =>
      split at safe
      next => cases safe
      next plain =>
        split at safe
        next => cases safe
        next parts =>
          split at safe
          next => cases safe
          next short =>
            split at safe
            next => cases safe
            next source =>
              simp only [Bool.or_eq_true, decide_eq_true_eq, not_or, Nat.not_lt, List.any_eq_true, not_exists,
                not_and] at bounded plain parts short
              refine ⟨⟨bounded.1, bounded.2, ?_, parts.1, parts.2, short⟩, Bool.eq_false_of_not_eq_true source, ?_⟩
              · intro char member
                exact ⟨(plain char member).1, (plain char member).2⟩
              · rw [← Option.some.inj safe, whole]
  · rintro ⟨accepted, source, rfl⟩
    have bounded : ¬ (decide (name.toList = []) || decide (1024 < utf8Length name.toList)) = true := by
      simp only [Bool.or_eq_true, decide_eq_true_eq, not_or, Nat.not_lt]
      exact ⟨accepted.nonempty, accepted.short⟩
    have plain : ¬ (name.toList.any fun char => decide (char = '\\') || decide (char.toNat < 32)) = true := by
      simp only [List.any_eq_true, Bool.or_eq_true, decide_eq_true_eq, not_exists, not_and, not_or, Nat.not_lt]
      exact accepted.plain
    have parts : ¬ ((split (rstrip name.toList)).any (fun part => decide (part ∈ forbiddenParts)) ||
        decide (name.toList.head? = some '/')) = true := by
      simp only [Bool.or_eq_true, List.any_eq_true, decide_eq_true_eq, not_or, not_exists, not_and]
      exact ⟨accepted.parts, accepted.relative⟩
    have short : ¬ ((split (rstrip name.toList)).any fun part => decide (255 < utf8Length part)) = true := by
      simp only [List.any_eq_true, decide_eq_true_eq, not_exists, not_and, Nat.not_lt]
      exact accepted.partsShort
    simp only [safePath, if_neg bounded, if_neg plain, if_neg parts, if_neg short, source, whole]
    rfl

theorem utf8Length_le {short long : List Char} (first : short <+: long) : utf8Length short ≤ utf8Length long := by
  obtain ⟨rest, rfl⟩ := first
  rw [utf8Length, utf8Length, Utf8.encode_append, List.length_append]
  exact Nat.le_add_right _ _

theorem Accepted.rstrip {chars : List Char} (accepted : Accepted chars) : Accepted (Paths.rstrip chars) := by
  have first : Paths.rstrip chars <+: chars := List.rdropWhile_prefix _ _
  have nonempty : Paths.rstrip chars ≠ [] := by
    intro empty
    have only := accepted.parts []
    rw [empty] at only
    exact only (by simp [split]) (by decide)
  refine ⟨nonempty, (utf8Length_le first).trans accepted.short,
    fun char member => accepted.plain char (first.subset member), ?_, ?_, ?_⟩
  · rw [rstrip_rstrip]
    exact accepted.parts
  · obtain ⟨rest, whole⟩ := first
    have relative := accepted.relative
    rwa [← whole, List.head?_append_of_ne_nil _ nonempty] at relative
  · rw [rstrip_rstrip]
    exact accepted.partsShort

/-- A safe path stays as it is, unless it lost a slash after a compiled suffix. -/
theorem safePath_safePath {name path : String} (safe : safePath name = some path) :
    safePath path = if compiled path then none else some path := by
  obtain ⟨accepted, _, rfl⟩ := safePath_eq_some.mp safe
  cases source : compiled (String.ofList (rstrip name.toList)) with
  | false =>
      rw [if_neg (by simp)]
      apply safePath_eq_some.mpr
      rw [String.toList_ofList, rstrip_rstrip]
      exact ⟨accepted.rstrip, source, rfl⟩
  | true =>
      rw [if_pos rfl]
      cases again : safePath (String.ofList (rstrip name.toList)) with
      | none => rfl
      | some other =>
          obtain ⟨_, clean, _⟩ := safePath_eq_some.mp again
          rw [source] at clean
          cases clean

theorem safePath_compiled {path : String} (safe : safePath path = some path) : compiled path = false :=
  (safePath_eq_some.mp safe).2.1

/-! ### Members and archives -/

structure SourceFile where
  data : Bytes
  executable : Bool
deriving DecidableEq, Repr

inductive MemberKind where
  | file
  | directory
  | other
deriving DecidableEq, Repr

/-- A tar member as the library gives it, with the bytes that can be read for it. -/
structure Member where
  name : String
  kind : MemberKind
  sparse : Bool
  size : Int
  data : Bytes
  executable : Bool
deriving DecidableEq, Repr

/-- The tar library: the members of a tar, none where it is malformed, and the tar that it writes. -/
structure TarLibrary (Tar : Type) where
  length : Tar → Nat
  members : Tar → Option (List Member)
  encode : List (String × SourceFile) → Tar

structure Policy where
  maxArchiveBytes : Nat
  maxSourceBytes : Nat
  maxFiles : Nat
deriving DecidableEq, Repr

structure SourceArchive where
  files : Dict String SourceFile

namespace SourceArchive

instance : DecidableEq SourceArchive := fun one two =>
  decidable_of_iff (one.files.entries = two.files.entries)
    ⟨fun same => by cases one; cases two; exact congrArg mk (Dict.ext same), fun same => same ▸ rfl⟩

/-- Equality of the dictionaries, whatever the order of their entries. -/
def Same (one two : SourceArchive) : Prop := ∀ name, one.files.get? name = two.files.get? name

end SourceArchive

def ancestors (name : String) : List String := (Paths.ancestors name.toList).map String.ofList

theorem mem_ancestors {above name : String} :
    above ∈ ancestors name ↔ above.toList ++ ['/'] <+: name.toList := by
  rw [ancestors, List.mem_map, ← Paths.mem_ancestors]
  constructor
  · rintro ⟨path, member, rfl⟩
    rwa [String.toList_ofList]
  · intro member
    exact ⟨above.toList, member, String.ofList_toList⟩

/-- No file lies below another file. -/
def unnested (files : Dict String SourceFile) : Bool :=
  files.keys.all fun name => (ancestors name).all fun above => above ∉ files.keys

theorem unnested_iff {files : Dict String SourceFile} :
    unnested files = true ↔ ∀ name ∈ files.keys, ∀ above ∈ files.keys,
      ¬ above.toList ++ ['/'] <+: name.toList := by
  simp only [unnested, List.all_eq_true, decide_eq_true_eq]
  constructor
  · intro separate name member above other first
    exact separate name member above (mem_ancestors.mpr first) other
  · intro separate name member above first other
    exact separate name member above other (mem_ancestors.mp first)

/-! ### Reading -/

/-- What reading has gathered after some members. -/
structure Reading where
  count : Nat
  seen : List String
  total : Int
  files : Dict String SourceFile

def Reading.start : Reading := ⟨0, [], 0, Dict.empty⟩

def readMember (policy : Policy) (reading : Reading) (item : Member) : Option Reading :=
  let count := reading.count + 1
  if policy.maxFiles < count then none
  else
    match safePath item.name with
    | none => none
    | some name =>
      if name ∈ reading.seen then none
      else
        let seen := name :: reading.seen
        match item.kind with
        | .directory => some { reading with count, seen }
        | .other => none
        | .file =>
          if item.sparse then none
          else
            let total := reading.total + item.size
            if item.size < 0 || (policy.maxSourceBytes : Int) < total then none
            else if (item.data.length : Int) ≠ item.size then none
            else some ⟨count, seen, total, reading.files.set name ⟨item.data, item.executable⟩⟩

def readMembers (policy : Policy) (reading : Reading) (items : List Member) : Option Reading :=
  items.foldlM (readMember policy) reading

/-- The entries that the file members stand for, in their order. -/
def entriesOf (items : List Member) : List (String × SourceFile) :=
  items.filterMap fun item =>
    if item.kind = .file then (safePath item.name).map fun name => (name, ⟨item.data, item.executable⟩) else none

variable {Tar : Type}

def read (tar : TarLibrary Tar) (data : Tar) (policy : Policy) : Option SourceArchive :=
  if policy.maxArchiveBytes < tar.length data then none
  else
    match tar.members data with
    | none => none
    | some items =>
      match readMembers policy Reading.start items with
      | none => none
      | some reading => if unnested reading.files then some ⟨reading.files⟩ else none

/-! ### Writing -/

/-- The entries in the order of their names. -/
def items (archive : SourceArchive) : List (String × SourceFile) :=
  Sorting.sortBy Prod.fst archive.files.entries

def toTar (tar : TarLibrary Tar) (archive : SourceArchive) : Option Tar :=
  if (items archive).all fun entry => safePath entry.1 = some entry.1 then some (tar.encode (items archive)) else none

/-- The member that is written for an entry. -/
def written (entry : String × SourceFile) : Member :=
  ⟨entry.1, .file, false, entry.2.data.length, entry.2.data, entry.2.executable⟩

/-! ### The length of what is written -/

def roundUp (unit size : Nat) : Nat := (size + unit - 1) / unit * unit

/-- The length of an extended header record, which counts its own digits. -/
def recordLength (keyword value : Nat) : Nat :=
  let body := keyword + value + 3
  let first := body + 1
  let second := body + (toString first).length
  body + (toString second).length

/-- The records that a name or a size asks for where the plain header does not hold it. -/
def records (entry : String × SourceFile) : Nat :=
  let name := entry.1.toList
  let path := if name.all (fun char => char.toNat < 128) && name.length ≤ 100 then 0
    else recordLength 4 (utf8Length name)
  let size := if entry.2.data.length < 8 ^ 11 then 0
    else recordLength 4 (toString entry.2.data.length).length
  path + size

def memberLength (entry : String × SourceFile) : Nat :=
  let extended := if records entry = 0 then 0 else 512 + roundUp 512 (records entry)
  extended + 512 + roundUp 512 entry.2.data.length

def tarLength (entries : List (String × SourceFile)) : Nat :=
  roundUp 10240 ((entries.map memberLength).sum + 1024)

/-- What the tar library does with entries whose names are safe. -/
structure TarLibrary.Sound (tar : TarLibrary Tar) : Prop where
  members : ∀ entries : List (String × SourceFile), (∀ entry ∈ entries, safePath entry.1 = some entry.1) →
    tar.members (tar.encode entries) = some (entries.map written)
  length : ∀ entries : List (String × SourceFile), (∀ entry ∈ entries, safePath entry.1 = some entry.1) →
    tar.length (tar.encode entries) = tarLength entries

/-! ### What reading keeps -/

variable {policy : Policy} {reading next : Reading} {item : Member}

theorem readMember_cases (step : readMember policy reading item = some next) :
    reading.count + 1 ≤ policy.maxFiles ∧ ∃ name, safePath item.name = some name ∧ name ∉ reading.seen ∧
      (item.kind = .directory ∧
          next = { reading with count := reading.count + 1, seen := name :: reading.seen } ∨
        item.kind = .file ∧ (item.data.length : Int) = item.size ∧ reading.total + item.size ≤ policy.maxSourceBytes ∧
          next = ⟨reading.count + 1, name :: reading.seen, reading.total + item.size,
            reading.files.set name ⟨item.data, item.executable⟩⟩) := by
  simp only [readMember] at step
  split at step
  next => cases step
  next count =>
    split at step
    next => cases step
    next name safe =>
      split at step
      next => cases step
      next fresh =>
        refine ⟨by omega, name, safe, fresh, ?_⟩
        split at step
        next directory => exact Or.inl ⟨directory, (Option.some.inj step).symm⟩
        next => cases step
        next file =>
          split at step
          next => cases step
          next =>
            split at step
            next => cases step
            next sized =>
              split at step
              next => cases step
              next whole =>
                simp only [Bool.or_eq_true, decide_eq_true_eq, not_or, Int.not_lt] at sized
                exact Or.inr ⟨file, Decidable.not_not.mp whole, sized.2, (Option.some.inj step).symm⟩

def bytes (files : Dict String SourceFile) : Nat := (files.values.map fun file => file.data.length).sum

theorem bytes_set {files : Dict String SourceFile} {name : String} (fresh : files.get? name = none)
    (file : SourceFile) : bytes (files.set name file) = bytes files + file.data.length := by
  rw [bytes, Dict.values_set_of_absent fresh, List.map_append, List.sum_append]
  simp [bytes]

/-- What holds of everything that reading gathers within its policy. -/
structure Held (policy : Policy) (reading : Reading) : Prop where
  counted : reading.files.size ≤ reading.count
  bounded : reading.count ≤ policy.maxFiles
  total : reading.total = bytes reading.files
  sized : reading.total ≤ policy.maxSourceBytes
  seen : ∀ name ∈ reading.files.keys, name ∈ reading.seen
  named : ∀ name ∈ reading.files.keys, ∃ original, safePath original = some name

theorem held_start : Held policy Reading.start := by
  constructor
  · exact Nat.le_refl 0
  · exact Nat.zero_le _
  · rfl
  · exact Int.natCast_nonneg _
  · intro name member
    exact absurd member List.not_mem_nil
  · intro name member
    exact absurd member List.not_mem_nil

theorem Held.readMember (held : Held policy reading) (step : readMember policy reading item = some next) :
    Held policy next := by
  obtain ⟨count, name, safe, fresh, ⟨_, rfl⟩ | ⟨_, whole, sized, rfl⟩⟩ := readMember_cases step
  · constructor
    · exact Nat.le_succ_of_le held.counted
    · exact count
    · exact held.total
    · exact held.sized
    · intro other member
      exact List.mem_cons_of_mem _ (held.seen other member)
    · exact held.named
  · have absent : reading.files.get? name = none := by
      rw [Dict.get?_eq_none]
      exact fun member => fresh (held.seen name member)
    constructor
    · change (reading.files.set name _).size ≤ _
      rw [Dict.size_set_of_absent absent]
      exact Nat.succ_le_succ held.counted
    · exact count
    · change reading.total + item.size = (bytes (reading.files.set name _) : Int)
      rw [bytes_set absent, held.total, ← whole]
      push_cast
      rfl
    · exact sized
    · intro other member
      rcases (Dict.mem_keys_set _ _ _ _).mp member with same | old
      · exact List.mem_cons.mpr (Or.inl same)
      · exact List.mem_cons_of_mem _ (held.seen other old)
    · intro other member
      rcases (Dict.mem_keys_set _ _ _ _).mp member with same | old
      · exact ⟨item.name, same ▸ safe⟩
      · exact held.named other old

theorem Held.readMembers {items : List Member} (held : Held policy reading)
    (run : readMembers policy reading items = some next) : Held policy next := by
  induction items generalizing reading with
  | nil => exact Option.some.inj run ▸ held
  | cons item rest ih =>
      simp only [Archives.readMembers, List.foldlM_cons, Option.bind_eq_bind, Option.bind_eq_some_iff] at run
      obtain ⟨middle, step, later⟩ := run
      exact ih (held.readMember step) later

theorem Held.entries {items : List Member} (held : Held policy reading)
    (run : Archives.readMembers policy reading items = some next) :
    next.files.entries = reading.files.entries ++ entriesOf items := by
  induction items generalizing reading with
  | nil =>
      rw [← Option.some.inj run]
      exact (List.append_nil _).symm
  | cons item rest ih =>
      simp only [Archives.readMembers, List.foldlM_cons, Option.bind_eq_bind, Option.bind_eq_some_iff] at run
      obtain ⟨middle, step, later⟩ := run
      rw [ih (held.readMember step) later]
      obtain ⟨_, name, safe, fresh, ⟨directory, rfl⟩ | ⟨file, _, _, rfl⟩⟩ := readMember_cases step
      · simp [entriesOf, directory]
      · have absent : reading.files.get? name = none := by
          rw [Dict.get?_eq_none]
          exact fun member => fresh (held.seen name member)
        rw [Dict.entries_set_of_absent absent]
        simp [entriesOf, file, safe]

theorem read_eq_some {tar : TarLibrary Tar} {data : Tar} {archive : SourceArchive} :
    read tar data policy = some archive ↔ tar.length data ≤ policy.maxArchiveBytes ∧
      ∃ items, tar.members data = some items ∧ ∃ reading, readMembers policy Reading.start items = some reading ∧
        unnested reading.files = true ∧ archive = ⟨reading.files⟩ := by
  simp only [read]
  constructor
  · intro accepted
    split at accepted
    next => cases accepted
    next bounded =>
      split at accepted
      next => cases accepted
      next items members =>
        split at accepted
        next => cases accepted
        next reading run =>
          split at accepted
          next separate =>
            exact ⟨Nat.not_lt.mp bounded, items, members, reading, run, separate, (Option.some.inj accepted).symm⟩
          next => cases accepted
  · rintro ⟨bounded, items, members, reading, run, separate, rfl⟩
    rw [if_neg (Nat.not_lt.mpr bounded), members]
    simp only [run, separate, if_true]

/-! ### Reading what was written -/

theorem readMember_written {entry : String × SourceFile} (safe : safePath entry.1 = some entry.1)
    (fresh : entry.1 ∉ reading.seen) :
    readMember policy reading (written entry) =
      if reading.count + 1 ≤ policy.maxFiles ∧ reading.total + entry.2.data.length ≤ policy.maxSourceBytes then
        some ⟨reading.count + 1, entry.1 :: reading.seen, reading.total + entry.2.data.length,
          reading.files.set entry.1 entry.2⟩
      else none := by
  simp only [readMember, written, safe, if_neg fresh]
  by_cases count : reading.count + 1 ≤ policy.maxFiles
  · rw [if_neg (Nat.not_lt.mpr count)]
    by_cases sized : reading.total + entry.2.data.length ≤ policy.maxSourceBytes
    · have natural : ¬ (entry.2.data.length : Int) < 0 := by omega
      rw [if_pos ⟨count, sized⟩]
      simp [Int.not_lt.mpr sized, natural]
    · rw [if_neg (fun both => sized both.2)]
      simp [Int.not_le.mp sized]
  · rw [if_pos (Nat.not_le.mp count), if_neg (fun both => count both.1)]

def sizes (entries : List (String × SourceFile)) : Nat := (entries.map fun entry => entry.2.data.length).sum

/-- Entries with new safe names are all taken up, in their order, exactly where they fit the policy. -/
theorem readMembers_written {entries : List (String × SourceFile)}
    (safe : ∀ entry ∈ entries, safePath entry.1 = some entry.1) (unique : (entries.map Prod.fst).Nodup)
    (fresh : ∀ entry ∈ entries, entry.1 ∉ reading.seen) (held : Held policy reading) :
    (reading.count + entries.length ≤ policy.maxFiles ∧ reading.total + sizes entries ≤ policy.maxSourceBytes ∧
      ∃ next, readMembers policy reading (entries.map written) = some next ∧
        next.files.entries = reading.files.entries ++ entries) ∨
    (¬ (reading.count + entries.length ≤ policy.maxFiles ∧
        reading.total + sizes entries ≤ policy.maxSourceBytes) ∧
      readMembers policy reading (entries.map written) = none) := by
  induction entries generalizing reading with
  | nil =>
      refine Or.inl ⟨held.bounded, ?_, reading, rfl, (List.append_nil _).symm⟩
      simpa [sizes] using held.sized
  | cons entry rest ih =>
      have first := @readMember_written policy reading entry (safe entry List.mem_cons_self)
        (fresh entry List.mem_cons_self)
      have run : readMembers policy reading ((entry :: rest).map written) =
          (readMember policy reading (written entry)).bind fun next => readMembers policy next (rest.map written) := rfl
      have more : sizes (entry :: rest) = entry.2.data.length + sizes rest := List.sum_cons
      rw [run, first, List.length_cons, more]
      obtain ⟨notLater, laterUnique⟩ := List.nodup_cons.mp unique
      by_cases fits : reading.count + 1 ≤ policy.maxFiles ∧
          reading.total + entry.2.data.length ≤ policy.maxSourceBytes
      · rw [if_pos fits, Option.bind_some]
        have held' := held.readMember (first.trans (if_pos fits))
        have absent : reading.files.get? entry.1 = none := by
          rw [Dict.get?_eq_none]
          exact fun member => fresh entry List.mem_cons_self (held.seen _ member)
        have later : ∀ other ∈ rest, other.1 ∉ entry.1 :: reading.seen := by
          intro other member seen
          rcases List.mem_cons.mp seen with same | old
          · exact notLater (same ▸ List.mem_map_of_mem member)
          · exact fresh other (List.mem_cons_of_mem _ member) old
        rcases ih (fun other member => safe other (List.mem_cons_of_mem _ member)) laterUnique later held' with
          ⟨count, sized, next, ended, entries⟩ | ⟨exceeds, ended⟩
        · dsimp only at count sized
          refine Or.inl ⟨by omega, by push_cast; omega, next, ended, ?_⟩
          rw [entries, Dict.entries_set_of_absent absent, List.append_assoc, List.singleton_append]
        · refine Or.inr ⟨?_, ended⟩
          rintro ⟨count, sized⟩
          apply exceeds
          dsimp only
          push_cast at sized
          constructor
          · omega
          · omega
      · rw [if_neg fits, Option.bind_none]
        refine Or.inr ⟨fun both => fits ⟨by omega, ?_⟩, rfl⟩
        have sized := both.2
        push_cast at sized
        omega

/-! ### The round trip -/

theorem mem_items {archive : SourceArchive} {entry : String × SourceFile} :
    entry ∈ items archive ↔ entry ∈ archive.files.entries := Sorting.mem_sortBy

theorem items_perm (archive : SourceArchive) : (items archive).Perm archive.files.entries :=
  Sorting.sortBy_perm _ _

theorem nodup_items (archive : SourceArchive) : ((items archive).map Prod.fst).Nodup :=
  ((items_perm archive).map Prod.fst).nodup_iff.mpr archive.files.nodup

theorem sizes_eq_bytes (archive : SourceArchive) : sizes (items archive) = bytes archive.files := by
  rw [sizes, ((items_perm archive).map _).sum_nat, bytes, Dict.values, List.map_map]
  rfl

theorem tarLength_perm {one two : List (String × SourceFile)} (same : one.Perm two) :
    tarLength one = tarLength two := by
  rw [tarLength, (same.map memberLength).sum_nat]
  rfl

theorem toTar_eq_some {tar : TarLibrary Tar} {archive : SourceArchive} {encoded : Tar} :
    toTar tar archive = some encoded ↔
      (∀ entry ∈ items archive, safePath entry.1 = some entry.1) ∧ tar.encode (items archive) = encoded := by
  rw [toTar]
  split
  next safe =>
    simp only [List.all_eq_true, decide_eq_true_eq] at safe
    rw [Option.some.injEq]
    exact ⟨fun same => ⟨safe, same⟩, fun both => both.2⟩
  next unsafeName =>
    simp only [List.all_eq_true, decide_eq_true_eq] at unsafeName
    constructor
    · intro impossible
      cases impossible
    · intro both
      exact absurd both.1 unsafeName

theorem unnested_congr {one two : Dict String SourceFile} (same : ∀ name, name ∈ one.keys ↔ name ∈ two.keys) :
    unnested one = unnested two := by
  rw [Bool.eq_iff_iff, unnested_iff, unnested_iff]
  simp only [same]

/-- Writing an archive and reading it back gives an equal archive, from members with different names
none of which is a directory above another. -/
def RoundTrips (tar : TarLibrary Tar) (policy : Policy) (archive : SourceArchive) : Prop :=
  ∃ encoded members again, toTar tar archive = some encoded ∧ tar.members encoded = some members ∧
    read tar encoded policy = some again ∧ again.Same archive ∧ (members.map Member.name).Nodup ∧
    ∀ one ∈ members, ∀ two ∈ members, ¬ one.name.toList ++ ['/'] <+: two.name.toList

/-- What an archive must keep to for its round trip. -/
structure Fits (policy : Policy) (archive : SourceArchive) : Prop where
  unnested : unnested archive.files = true
  files : archive.files.size ≤ policy.maxFiles
  bytes : bytes archive.files ≤ policy.maxSourceBytes
  length : tarLength archive.files.entries ≤ policy.maxArchiveBytes

section

variable {tar : TarLibrary Tar} {archive : SourceArchive}

theorem names_written (entries : List (String × SourceFile)) :
    (entries.map written).map Member.name = entries.map Prod.fst := by
  rw [List.map_map]
  rfl

theorem roundTrips_iff (library : tar.Sound) :
    RoundTrips tar policy archive ↔
      (∀ entry ∈ items archive, safePath entry.1 = some entry.1) ∧ Fits policy archive := by
  have count : (items archive).length = archive.files.size := (items_perm archive).length_eq
  have length : tarLength (items archive) = tarLength archive.files.entries := tarLength_perm (items_perm archive)
  constructor
  · rintro ⟨encoded, members, again, saved, listed, accepted, same, _, separate⟩
    obtain ⟨safe, rfl⟩ := toTar_eq_some.mp saved
    obtain ⟨bounded, members', listed', reading, run, unnested', rfl⟩ := read_eq_some.mp accepted
    rw [library.length _ safe, length] at bounded
    rw [library.members _ safe] at listed'
    obtain rfl := Option.some.inj listed'
    refine ⟨safe, ?_⟩
    rcases @readMembers_written policy Reading.start _ safe (nodup_items archive)
      (fun _ _ => List.not_mem_nil) held_start with ⟨fits, sized, _⟩ | ⟨_, failed⟩
    · constructor
      · rw [← unnested', ← unnested_congr]
        intro name
        rw [Dict.mem_keys_iff_isSome, Dict.mem_keys_iff_isSome, same name]
      · rw [← count]
        simpa [Reading.start] using fits
      · rw [sizes_eq_bytes] at sized
        simpa [Reading.start] using sized
      · exact bounded
    · rw [run] at failed
      cases failed
  · rintro ⟨safe, fits⟩
    rcases @readMembers_written policy Reading.start _ safe (nodup_items archive)
      (fun _ _ => List.not_mem_nil) held_start with ⟨_, _, reading, run, entries⟩ | ⟨exceeds, _⟩
    · have same : (SourceArchive.mk reading.files).Same archive := by
        intro name
        have perm : reading.files.entries.Perm archive.files.entries := by
          rw [entries]
          exact items_perm archive
        apply Option.ext
        intro file
        exact Dict.mem_entries.symm.trans (perm.mem_iff.trans Dict.mem_entries)
      have separate : Archives.unnested reading.files = true := by
        rw [← fits.unnested, ← unnested_congr]
        intro name
        rw [Dict.mem_keys_iff_isSome, Dict.mem_keys_iff_isSome, same name]
      refine ⟨_, _, ⟨reading.files⟩, toTar_eq_some.mpr ⟨safe, rfl⟩, library.members _ safe,
        read_eq_some.mpr ⟨?_, _, library.members _ safe, reading, run, separate, rfl⟩, same, ?_, ?_⟩
      · rw [library.length _ safe, length]
        exact fits.length
      · rw [names_written]
        exact nodup_items archive
      · intro one first two second
        have key : ∀ member ∈ (items archive).map written, member.name ∈ archive.files.keys := by
          intro member found
          obtain ⟨entry, inside, rfl⟩ := List.mem_map.mp found
          exact List.mem_map_of_mem (mem_items.mp inside)
        exact unnested_iff.mp fits.unnested two.name (key two second) one.name (key one first)
    · refine absurd ⟨?_, ?_⟩ exceeds
      · rw [count]
        simpa [Reading.start] using fits.files
      · rw [sizes_eq_bytes]
        simpa [Reading.start] using fits.bytes

/-- The entries of an archive that was read have the paths of its file members. -/
theorem read_entries {data : Tar} {listed : List Member} (members : tar.members data = some listed)
    (accepted : read tar data policy = some archive) : archive.files.entries = entriesOf listed := by
  obtain ⟨_, items, members', reading, run, _, rfl⟩ := read_eq_some.mp accepted
  obtain rfl := Option.some.inj (members.symm.trans members')
  exact held_start.entries run

theorem read_named {data : Tar} (accepted : read tar data policy = some archive) :
    ∀ entry ∈ items archive, safePath entry.1 = some entry.1 ↔ compiled entry.1 = false := by
  intro entry member
  obtain ⟨_, _, _, reading, run, _, rfl⟩ := read_eq_some.mp accepted
  obtain ⟨original, safe⟩ := (held_start.readMembers run).named entry.1
    (List.mem_map_of_mem (mem_items.mp member))
  rw [safePath_safePath safe]
  cases compiled entry.1 with
  | false => simp
  | true => simp

/-- A path that `safePath` gives is safe itself, and an archive comes back from its tar, exactly where
no path has a compiled suffix that a slash had hidden, and where the archive fits its policy. -/
theorem archive_round_trip_iff (library : tar.Sound) :
    (∀ name path, safePath name = some path → (safePath path = some path ↔ compiled path = false)) ∧
    (∀ policy data listed archive, tar.members data = some listed → read tar data policy = some archive →
      (RoundTrips tar policy archive ↔ (∀ entry ∈ entriesOf listed, compiled entry.1 = false) ∧
        tarLength (entriesOf listed) ≤ policy.maxArchiveBytes)) ∧
    ∀ policy archive encoded, toTar tar archive = some encoded →
      (RoundTrips tar policy archive ↔ Fits policy archive) := by
  refine ⟨?_, ?_, ?_⟩
  · intro name path safe
    rw [safePath_safePath safe]
    cases compiled path with
    | false => simp
    | true => simp
  · intro policy data listed archive members accepted
    have entries := read_entries members accepted
    have named := read_named accepted
    rw [roundTrips_iff library, ← entries]
    constructor
    · rintro ⟨safe, fits⟩
      refine ⟨?_, fits.length⟩
      intro entry member
      exact (named entry (mem_items.mpr member)).mp (safe entry (mem_items.mpr member))
    · rintro ⟨clean, length⟩
      obtain ⟨_, _, _, reading, run, separate, rfl⟩ := read_eq_some.mp accepted
      have held := held_start.readMembers run
      refine ⟨fun entry member => (named entry member).mpr (clean entry (mem_items.mp member)), ?_⟩
      constructor
      · exact separate
      · exact held.counted.trans held.bounded
      · have sized := held.sized
        rw [held.total] at sized
        exact Int.ofNat_le.mp sized
      · exact length
  · intro policy archive encoded saved
    rw [roundTrips_iff library, and_iff_right (toTar_eq_some.mp saved).1]

/-! ### Archives within a policy -/

/-- What is known of an archive that was read within a policy. -/
structure Readable (policy : Policy) (archive : SourceArchive) : Prop where
  named : ∀ name ∈ archive.files.keys, safePath name = some name ↔ compiled name = false
  unnested : unnested archive.files = true
  files : archive.files.size ≤ policy.maxFiles
  bytes : bytes archive.files ≤ policy.maxSourceBytes

theorem read_readable {data : Tar} (accepted : read tar data policy = some archive) : Readable policy archive := by
  have named := read_named accepted
  obtain ⟨_, _, _, reading, run, separate, rfl⟩ := read_eq_some.mp accepted
  have held := held_start.readMembers run
  constructor
  · intro name member
    obtain ⟨entry, inside, rfl⟩ := List.mem_map.mp member
    exact named entry (mem_items.mpr inside)
  · exact separate
  · exact held.counted.trans held.bounded
  · have sized := held.sized
    rw [held.total] at sized
    exact Int.ofNat_le.mp sized

theorem Readable.filter (readable : Readable policy archive) (keep : String → SourceFile → Bool) :
    Readable policy ⟨archive.files.filter keep⟩ := by
  have fewer : ∀ name ∈ (archive.files.filter keep).keys, name ∈ archive.files.keys := by
    intro name member
    obtain ⟨entry, kept, rfl⟩ := List.mem_map.mp member
    exact List.mem_map_of_mem (List.mem_of_mem_filter kept)
  constructor
  · intro name member
    exact readable.named name (fewer name member)
  · rw [unnested_iff]
    intro name member above other
    exact unnested_iff.mp readable.unnested name (fewer name member) above (fewer above other)
  · exact (Dict.size_filter_le _ _).trans readable.files
  · refine le_trans ?_ readable.bytes
    apply List.Sublist.sum_le_sum
    · exact (List.filter_sublist.map Prod.snd).map _
    · intro count _
      exact Nat.zero_le count

namespace SourceArchive

theorem Same.perm {one two : SourceArchive} (same : one.Same two) :
    one.files.entries.Perm two.files.entries := by
  rw [List.perm_ext_iff_of_nodup one.files.nodup.of_map two.files.nodup.of_map]
  intro entry
  rw [Dict.mem_entries, same entry.1]
  exact Dict.mem_entries.symm

theorem Same.symm {one two : SourceArchive} (same : one.Same two) : two.Same one := fun name => (same name).symm

theorem Same.trans {one two three : SourceArchive} (first : one.Same two) (second : two.Same three) :
    one.Same three := fun name => (first name).trans (second name)

theorem Same.mem_keys {one two : SourceArchive} (same : one.Same two) (name : String) :
    name ∈ one.files.keys ↔ name ∈ two.files.keys := by
  rw [Dict.mem_keys_iff_isSome, Dict.mem_keys_iff_isSome, same name]

end SourceArchive

theorem Readable.congr {one two : SourceArchive} (same : one.Same two) (readable : Readable policy one) :
    Readable policy two := by
  constructor
  · intro name member
    exact readable.named name ((same.mem_keys name).mpr member)
  · rw [← readable.unnested]
    exact unnested_congr fun name => (same.mem_keys name).symm
  · rw [Dict.size, ← same.perm.length_eq]
    exact readable.files
  · refine le_trans (le_of_eq ?_) readable.bytes
    exact (((same.perm.map Prod.snd).map _).sum_nat).symm

/-- An archive is written and read back exactly where its names are clean and its tar is short enough. -/
theorem Readable.written (readable : Readable policy archive) (library : tar.Sound) :
    (∃ encoded again, toTar tar archive = some encoded ∧ read tar encoded policy = some again) ↔
      (∀ name ∈ archive.files.keys, compiled name = false) ∧
        tarLength archive.files.entries ≤ policy.maxArchiveBytes := by
  constructor
  · rintro ⟨encoded, again, saved, accepted⟩
    obtain ⟨safe, rfl⟩ := toTar_eq_some.mp saved
    have bounded := (read_eq_some.mp accepted).1
    rw [library.length _ safe, tarLength_perm (items_perm archive)] at bounded
    refine ⟨?_, bounded⟩
    intro name member
    obtain ⟨entry, inside, rfl⟩ := List.mem_map.mp member
    exact safePath_compiled (safe entry (mem_items.mpr inside))
  · rintro ⟨clean, length⟩
    have safe : ∀ entry ∈ items archive, safePath entry.1 = some entry.1 := by
      intro entry member
      have key : entry.1 ∈ archive.files.keys := List.mem_map_of_mem (mem_items.mp member)
      exact (readable.named _ key).mpr (clean _ key)
    obtain ⟨encoded, _, again, saved, _, accepted, _⟩ := (roundTrips_iff library).mpr
      ⟨safe, readable.unnested, readable.files, readable.bytes, length⟩
    exact ⟨encoded, again, saved, accepted⟩

theorem entriesOf_written {entries : List (String × SourceFile)}
    (safe : ∀ entry ∈ entries, safePath entry.1 = some entry.1) : entriesOf (entries.map written) = entries := by
  induction entries with
  | nil => rfl
  | cons entry rest ih =>
      have later := ih fun other member => safe other (List.mem_cons_of_mem _ member)
      rw [entriesOf] at later ⊢
      rw [List.map_cons, List.filterMap_cons, later]
      simp [written, safe entry List.mem_cons_self]

/-- What is read back is what was written. -/
theorem read_toTar (library : tar.Sound) {encoded : Tar} {again : SourceArchive}
    (saved : toTar tar archive = some encoded) (accepted : read tar encoded policy = some again) :
    again.Same archive := by
  obtain ⟨safe, rfl⟩ := toTar_eq_some.mp saved
  have entries := read_entries (library.members _ safe) accepted
  rw [entriesOf_written safe] at entries
  intro name
  apply Option.ext
  intro file
  rw [← Dict.mem_entries, ← Dict.mem_entries, entries]
  exact (items_perm archive).mem_iff

end

/-! ### A tar with a compiled file's name and a slash -/

section Sample

/-- The tar library on members that are kept as they are. -/
def memberList : TarLibrary (List Member) :=
  ⟨fun items => tarLength (items.map fun item => (item.name, ⟨item.data, item.executable⟩)), some, List.map written⟩

theorem memberList_sound : memberList.Sound := by
  constructor
  · intro entries _
    rfl
  · intro entries _
    change tarLength ((entries.map written).map _) = tarLength entries
    rw [List.map_map]
    exact congrArg tarLength (List.map_id entries)

def modest : Policy := ⟨16 * 1024 * 1024, 8 * 1024 * 1024, 2000⟩

def hidden : List Member := [⟨"x.pyc/", .file, false, 1, [120], false⟩]

def plain : List Member := [⟨"src", .directory, false, 0, [], true⟩, ⟨"src/x.py", .file, false, 1, [120], false⟩]

def plainArchive : SourceArchive := ⟨⟨[("src/x.py", ⟨[120], false⟩)], by decide⟩⟩

theorem read_plain : read memberList plain modest = some plainArchive := by decide +kernel

theorem archive_round_trip_iff_sample : memberList.Sound ∧ read memberList plain modest = some plainArchive ∧
    (RoundTrips memberList modest plainArchive ↔
      (∀ entry ∈ entriesOf plain, compiled entry.1 = false) ∧ tarLength (entriesOf plain) ≤ modest.maxArchiveBytes) :=
  ⟨memberList_sound, read_plain, (archive_round_trip_iff memberList_sound).2.1 modest plain plain plainArchive rfl
    read_plain⟩

/-- The path of an accepted name can be refused, and the archive that it was read into cannot be written. -/
theorem hidden_suffix_breaks : safePath "x.pyc/" = some "x.pyc" ∧ safePath "x.pyc" = none ∧
    ∃ archive, read memberList hidden modest = some archive ∧ toTar memberList archive = none :=
  ⟨by decide +kernel, by decide +kernel, ⟨⟨[("x.pyc", ⟨[120], false⟩)], by decide⟩⟩, by decide +kernel,
    by decide +kernel⟩

end Sample

end Archives

end FeatureRl
