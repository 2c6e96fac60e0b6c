import FeatureRl.Contracts.Values
import FeatureRl.Lib.Ascii
import FeatureRl.Lib.Checked
import FeatureRl.Lib.Pieces
import FeatureRl.Lib.PyText
import FeatureRl.Pipeline.Lines

/-!
Reading the header of a raw Git commit. The text is split at every Unicode line boundary, while
the object itself ends its header lines with line feeds only.
-/

namespace FeatureRl

open Checked

namespace History

open Context (Line splitlines splitFrom isBreak splitFrom_clean splitFrom_break)

/-! ### Git commands -/

inductive ErrorKind where
  | unrecoverable
  | outputLimit
  | value
deriving DecidableEq

structure Failure where
  kind : ErrorKind
  message : String
deriving DecidableEq

abbrev Outcome (α : Type) := Except Failure α

/-- What two commands print about an object. -/
structure Git where
  objectType : String → Outcome Bytes
  print : String → Outcome Bytes

def maxTextBytes : Nat := 1000000

def isBlank (c : Char) : Bool := PyChar.isSpace (.scalar c)

def strip (text : List Char) : List Char := Pieces.trim isBlank text

def runText (stdout : Outcome Bytes) : Outcome (List Char) := do
  let output ← stdout
  refuse (maxTextBytes < output.length) ⟨.outputLimit, "Git command stdout exceeded 1000000 bytes"⟩
  let text ← require (Utf8.decode output) ⟨.unrecoverable, "Git metadata was not UTF-8"⟩
  .ok (strip text)

/-- A command that finds nothing to recover says that the commit is unavailable. -/
def available (revision : String) (outcome : Outcome (List Char)) : Outcome (List Char) :=
  match outcome with
  | .error ⟨.unrecoverable, _⟩ => .error ⟨.unrecoverable, "commit object is unavailable: " ++ revision⟩
  | other => other

/-! ### Header lines -/

structure CommitObject where
  revision : String
  tree : String
  parents : List String
  authoredAt : Nat
  committedAt : Nat
deriving DecidableEq

/-- What the lines read so far have set. -/
structure Header where
  tree : Line
  parents : List Line
  authored : Option Nat
  committed : Option Nat

def Header.start : Header := ⟨[], [], none, none⟩

def isDecimal (c : Char) : Bool := '0' ≤ c && c ≤ '9'

def decimal (digits : List Char) : Nat := digits.foldl (fun value c => 10 * value + (c.toNat - '0'.toNat)) 0

/-- The digits of the seconds in a line that ends in a timestamp and a zone. -/
def timestamp (line : Line) : Option (List Char) :=
  match line.reverse with
  | fourth :: third :: second :: first :: sign :: blank :: rest =>
      let digits := rest.takeWhile isDecimal
      if [first, second, third, fourth].all isDecimal && (sign = '+' || sign = '-') && blank = ' ' &&
          !digits.isEmpty && (rest.drop digits.length).head? = some ' ' then
        some digits.reverse
      else none
  | _ => none

/-- The last second that a `datetime` can hold. -/
def maxSeconds : Nat := 253402300799

/-- Python reads at most this many digits as one integer. -/
def maxDigits : Nat := 4300

def identityTime (line : Line) : Outcome Nat := do
  let digits ← require (timestamp line) ⟨.unrecoverable, "commit identity timestamp is malformed"⟩
  refuse (maxDigits < digits.length) ⟨.value, "Exceeds the limit (4300 digits) for integer string conversion"⟩
  refuse (maxSeconds < decimal digits) ⟨.value, "year is out of range"⟩
  .ok (decimal digits)

def treeKey : Line := ['t', 'r', 'e', 'e', ' ']

def parentKey : Line := ['p', 'a', 'r', 'e', 'n', 't', ' ']

def authorKey : Line := ['a', 'u', 't', 'h', 'o', 'r', ' ']

def committerKey : Line := ['c', 'o', 'm', 'm', 'i', 't', 't', 'e', 'r', ' ']

def readLine (header : Header) (line : Line) : Outcome Header :=
  if treeKey.isPrefixOf line then .ok { header with tree := line.drop 5 }
  else if parentKey.isPrefixOf line then .ok { header with parents := header.parents ++ [line.drop 7] }
  else if authorKey.isPrefixOf line then do
    let time ← identityTime line
    .ok { header with authored := some time }
  else if committerKey.isPrefixOf line then do
    let time ← identityTime line
    .ok { header with committed := some time }
  else .ok header

/-- The lines before the first empty one. -/
def headerLines (text : List Char) : List Line := (splitlines text).takeWhile fun line => !line.isEmpty

def malformed (revision : String) : Failure := ⟨.unrecoverable, "malformed commit object: " ++ revision⟩

def commit (git : Git) (revision : String) : Outcome CommitObject := do
  refuse (isRevision revision = false) ⟨.value, "revision must be a full hexadecimal object id"⟩
  let objectType ← available revision (runText (git.objectType revision))
  refuse (objectType ≠ ['c', 'o', 'm', 'm', 'i', 't']) ⟨.unrecoverable, "object is not a commit: " ++ revision⟩
  let raw ← runText (git.print revision)
  let header ← foldAll readLine Header.start (headerLines raw)
  refuse (isRevision (String.ofList header.tree) = false) (malformed revision)
  refuse (header.parents.any (fun parent => !isRevision (String.ofList parent)) = true) (malformed revision)
  let authoredAt ← require header.authored (malformed revision)
  let committedAt ← require header.committed (malformed revision)
  .ok ⟨revision, String.ofList header.tree, header.parents.map String.ofList, authoredAt, committedAt⟩

/-! ### Raw commits -/

def lineFeed : UInt8 := 10

def isZone (zone : List Char) : Bool :=
  match zone with
  | [sign, first, second, third, fourth] =>
      (sign = '+' || sign = '-') && [first, second, third, fourth].all isDecimal
  | _ => false

/-- Who did something and when; the person may be any bytes of one line. -/
structure Identity where
  person : Bytes
  seconds : Nat
  zone : List Char
  oneLine : lineFeed ∉ person
  zoned : isZone zone = true

namespace Identity

def bytes (identity : Identity) : Bytes :=
  identity.person ++ Utf8.encode (' ' :: (Nat.toDigits 10 identity.seconds ++ ' ' :: identity.zone))

end Identity

def keywords : List Line := [treeKey, parentKey, authorKey, committerKey]

/-- A well-formed commit object, by the lines of its header. -/
structure RawCommit where
  tree : Revision
  parents : List Revision
  author : Identity
  committer : Identity
  further : List Bytes
  message : Bytes
  formed : ∀ line ∈ further, line ≠ [] ∧ lineFeed ∉ line ∧ ∀ key ∈ keywords, ¬ Utf8.encode key <+: line

namespace RawCommit

def line (key : Line) (value : Bytes) : Bytes := Utf8.encode key ++ value ++ [lineFeed]

def identityLines (raw : RawCommit) : Bytes :=
  line authorKey raw.author.bytes ++ line committerKey raw.committer.bytes

/-- Everything after the lines of the tree and the parents. -/
def rest (raw : RawCommit) : Bytes :=
  raw.identityLines ++ (raw.further.flatMap (line []) ++ lineFeed :: raw.message)

/-- The lines of the tree and the parents. -/
def links (raw : RawCommit) : List Line :=
  (treeKey ++ raw.tree.val.toList) :: raw.parents.map fun parent => parentKey ++ parent.val.toList

def bytes (raw : RawCommit) : Bytes :=
  Utf8.encode (raw.links.flatMap fun line => line ++ ['\n']) ++ raw.rest

/-- The commands print the type of the object and its bytes. -/
structure Stored (raw : RawCommit) (git : Git) (revision : Revision) : Prop where
  objectType : git.objectType revision.val = .ok (Utf8.encode ['c', 'o', 'm', 'm', 'i', 't', '\n'])
  print : git.print revision.val = .ok raw.bytes

/-- The tree and the parents of the object itself. -/
def Read (raw : RawCommit) (outcome : Outcome CommitObject) : Prop :=
  ∃ commit, outcome = .ok commit ∧ commit.tree = raw.tree.val ∧ commit.parents = raw.parents.map Subtype.val

end RawCommit

/-! ### What lines set -/

abbrev startsWith (key line : Line) : Prop := key <+: line

/-- A line that names who did something also says when. -/
def Timed (line : Line) : Prop :=
  startsWith authorKey line ∨ startsWith committerKey line → (identityTime line).toBool = true

def treesIn (lines : List Line) : List Line := (lines.filter fun line => startsWith treeKey line).map (List.drop 5)

def parentsIn (lines : List Line) : List Line :=
  (lines.filter fun line => startsWith parentKey line).map (List.drop 7)

/-- The effect of lines on what has been read. -/
structure Reads (header : Header) (lines : List Line) (result : Header) : Prop where
  tree : result.tree = (treesIn lines).getLast?.getD header.tree
  parents : result.parents = header.parents ++ parentsIn lines
  authored : result.authored.isSome ↔ header.authored.isSome ∨ ∃ line ∈ lines, startsWith authorKey line
  committed : result.committed.isSome ↔ header.committed.isSome ∨ ∃ line ∈ lines, startsWith committerKey line

theorem Reads.refl (header : Header) : Reads header [] header :=
  ⟨rfl, (List.append_nil _).symm, by simp, by simp⟩

theorem Reads.trans {header middle result : Header} {first second : List Line} (reads : Reads header first middle)
    (later : Reads middle second result) : Reads header (first ++ second) result where
  tree := by
    rw [later.tree, reads.tree, treesIn, treesIn, treesIn, List.filter_append, List.map_append,
      List.getLast?_append]
    cases (List.map (List.drop 5) (second.filter fun line => startsWith treeKey line)).getLast? <;> rfl
  parents := by
    rw [later.parents, reads.parents, List.append_assoc, parentsIn, parentsIn, parentsIn, List.filter_append,
      List.map_append]
  authored := by
    rw [later.authored, reads.authored]
    simp only [List.mem_append, or_assoc, or_and_right, exists_or]
  committed := by
    rw [later.committed, reads.committed]
    simp only [List.mem_append, or_assoc, or_and_right, exists_or]

/-- No line begins with two of the keys. -/
theorem key_unique {first second line : Line} (left : startsWith first line) (right : startsWith second line)
    (apart : ¬ first <+: second ∧ ¬ second <+: first) : False := by
  rcases Nat.le_total first.length second.length with shorter | longer
  · exact apart.1 (List.prefix_of_prefix_length_le left right shorter)
  · exact apart.2 (List.prefix_of_prefix_length_le right left longer)

theorem apart_keys : ∀ first ∈ keywords, ∀ second ∈ keywords, first ≠ second →
    ¬ first <+: second ∧ ¬ second <+: first := by
  decide

/-- The four ways to read a line. -/
theorem readLine_cases (header : Header) (line : Line) :
    (startsWith treeKey line ∧ ¬ startsWith parentKey line ∧ ¬ startsWith authorKey line ∧
      ¬ startsWith committerKey line ∧ readLine header line = .ok { header with tree := line.drop 5 }) ∨
    (¬ startsWith treeKey line ∧ startsWith parentKey line ∧ ¬ startsWith authorKey line ∧
      ¬ startsWith committerKey line ∧
      readLine header line = .ok { header with parents := header.parents ++ [line.drop 7] }) ∨
    (¬ startsWith treeKey line ∧ ¬ startsWith parentKey line ∧ startsWith authorKey line ∧
      ¬ startsWith committerKey line ∧
      readLine header line = identityTime line >>= fun time => .ok { header with authored := some time }) ∨
    (¬ startsWith treeKey line ∧ ¬ startsWith parentKey line ∧ ¬ startsWith authorKey line ∧
      startsWith committerKey line ∧
      readLine header line = identityTime line >>= fun time => .ok { header with committed := some time }) ∨
    (¬ startsWith treeKey line ∧ ¬ startsWith parentKey line ∧ ¬ startsWith authorKey line ∧
      ¬ startsWith committerKey line ∧ readLine header line = .ok header) := by
  have excludes : ∀ first ∈ keywords, ∀ second ∈ keywords, first ≠ second → startsWith first line →
      ¬ startsWith second line := fun first left second right different here other =>
    key_unique here other (apart_keys first left second right different)
  simp only [readLine, List.isPrefixOf_iff_prefix]
  by_cases tree : startsWith treeKey line
  · exact .inl ⟨tree, excludes _ (by decide) _ (by decide) (by decide) tree,
      excludes _ (by decide) _ (by decide) (by decide) tree,
      excludes _ (by decide) _ (by decide) (by decide) tree, if_pos tree⟩
  refine .inr ?_
  rw [if_neg tree]
  by_cases parent : startsWith parentKey line
  · exact .inl ⟨tree, parent, excludes _ (by decide) _ (by decide) (by decide) parent,
      excludes _ (by decide) _ (by decide) (by decide) parent, if_pos parent⟩
  refine .inr ?_
  rw [if_neg parent]
  by_cases author : startsWith authorKey line
  · exact .inl ⟨tree, parent, author, excludes _ (by decide) _ (by decide) (by decide) author, if_pos author⟩
  refine .inr ?_
  rw [if_neg author]
  by_cases committer : startsWith committerKey line
  · exact .inl ⟨tree, parent, author, committer, if_pos committer⟩
  · exact .inr ⟨tree, parent, author, committer, if_neg committer⟩

theorem reads_line {header next : Header} {line : Line} (read : readLine header line = .ok next) :
    Timed line ∧ Reads header [line] next := by
  rcases readLine_cases header line with ⟨tree, parent, author, committer, outcome⟩ |
    ⟨tree, parent, author, committer, outcome⟩ | ⟨tree, parent, author, committer, outcome⟩ |
    ⟨tree, parent, author, committer, outcome⟩ | ⟨tree, parent, author, committer, outcome⟩
  all_goals rw [outcome] at read
  case inl | inr.inl | inr.inr.inr.inr =>
    obtain rfl := Except.ok.inj read
    refine ⟨by rintro (other | other); exacts [absurd other author, absurd other committer], ?_, ?_, ?_, ?_⟩ <;>
      simp [treesIn, parentsIn, tree, parent, author, committer]
  case inr.inr.inl | inr.inr.inr.inl =>
    obtain ⟨time, found, next_is⟩ := bind_eq_ok.mp read
    obtain rfl := Except.ok.inj next_is
    refine ⟨fun _ => by rw [found]; rfl, ?_, ?_, ?_, ?_⟩ <;>
      simp [treesIn, parentsIn, tree, parent, author, committer]

theorem read_timed (header : Header) {line : Line} (timed : Timed line) :
    ∃ next, readLine header line = .ok next := by
  rcases readLine_cases header line with ⟨-, -, -, -, outcome⟩ | ⟨-, -, -, -, outcome⟩ |
    ⟨-, -, author, -, outcome⟩ | ⟨-, -, -, committer, outcome⟩ | ⟨-, -, -, -, outcome⟩
  case inr.inr.inl =>
    obtain ⟨time, found⟩ := exists_ok (timed (.inl author))
    exact ⟨_, outcome.trans (by rw [found]; rfl)⟩
  case inr.inr.inr.inl =>
    obtain ⟨time, found⟩ := exists_ok (timed (.inr committer))
    exact ⟨_, outcome.trans (by rw [found]; rfl)⟩
  all_goals exact ⟨_, outcome⟩

theorem reads_fold {lines : List Line} {header result : Header} (read : foldAll readLine header lines = .ok result) :
    (∀ line ∈ lines, Timed line) ∧ Reads header lines result := by
  induction lines generalizing header with
  | nil =>
      obtain rfl := Except.ok.inj read
      exact ⟨by simp, .refl header⟩
  | cons line lines ih =>
      obtain ⟨next, first, others⟩ := bind_eq_ok.mp read
      obtain ⟨timed, here⟩ := reads_line first
      obtain ⟨later, there⟩ := ih others
      exact ⟨List.forall_mem_cons.mpr ⟨timed, later⟩, here.trans there⟩

theorem fold_timed {lines : List Line} (timed : ∀ line ∈ lines, Timed line) (header : Header) :
    ∃ result, foldAll readLine header lines = .ok result := by
  induction lines generalizing header with
  | nil => exact ⟨header, rfl⟩
  | cons line lines ih =>
      obtain ⟨here, later⟩ := List.forall_mem_cons.mp timed
      obtain ⟨next, first⟩ := read_timed header here
      obtain ⟨result, others⟩ := ih later next
      exact ⟨result, bind_eq_ok.mpr ⟨next, first, others⟩⟩

/-! ### The text of an object -/

theorem splitFrom_line {line : Line} (clean : ∀ c ∈ line, isBreak c = false) (taken : Line) (rest : List Char) :
    splitFrom taken (line ++ '\n' :: rest) = (taken.reverse ++ line) :: splitFrom [] rest := by
  rw [splitFrom_clean clean, splitFrom_break rfl, List.reverse_append, List.reverse_reverse]
  rfl

theorem splitlines_lines {lines : List Line} (clean : ∀ line ∈ lines, ∀ c ∈ line, isBreak c = false)
    (rest : List Char) :
    splitlines (lines.flatMap (fun line => line ++ ['\n']) ++ rest) = lines ++ splitlines rest := by
  induction lines with
  | nil => rfl
  | cons line lines ih =>
      obtain ⟨here, later⟩ := List.forall_mem_cons.mp clean
      rw [List.flatMap_cons, List.append_assoc, List.append_assoc, List.singleton_append, splitlines,
        splitFrom_line here, List.reverse_nil, List.nil_append, ← splitlines, ih later, List.cons_append]

theorem headerLines_lines {lines : List Line} (clean : ∀ line ∈ lines, ∀ c ∈ line, isBreak c = false)
    (filled : ∀ line ∈ lines, line ≠ []) (rest : List Char) :
    headerLines (lines.flatMap (fun line => line ++ ['\n']) ++ rest) = lines ++ headerLines rest := by
  rw [headerLines, splitlines_lines clean, List.takeWhile_append_of_pos, ← headerLines]
  intro line member
  simp [filled line member]

def rstrip (text : List Char) : List Char := text.rdropWhile isBlank

theorem rstrip_append (front : List Char) {text : List Char} {c : Char} (member : c ∈ text)
    (shown : isBlank c = false) : rstrip (front ++ text) = front ++ rstrip text := by
  have stays : (text.reverse.dropWhile isBlank).isEmpty = false := by
    rw [Bool.eq_false_iff, ne_eq, List.isEmpty_iff, List.dropWhile_eq_nil_iff]
    intro all
    rw [all c (List.mem_reverse.mpr member)] at shown
    cases shown
  rw [rstrip, rstrip, List.rdropWhile, List.rdropWhile, List.reverse_append, List.dropWhile_append, stays]
  simp

theorem strip_cons {c : Char} (shown : isBlank c = false) (text : List Char) :
    strip (c :: text) = rstrip (c :: text) := by
  have stays : ¬ isBlank c = true := by simp [shown]
  rw [strip, Pieces.trim, List.dropWhile_cons_of_neg stays]
  rfl

/-! ### Raw commits read back -/

theorem hex_clean {c : Char} (hex : isLowerHex c = true) : c.toNat < 128 ∧ isBreak c = false := by
  have code : 48 ≤ c.toNat ∧ c.toNat ≤ 102 := by
    simp only [isLowerHex, Bool.or_eq_true, Bool.and_eq_true, decide_eq_true_eq, Char.le_def,
      UInt32.le_iff_toNat_le] at hex
    rcases hex with ⟨low, high⟩ | ⟨low, high⟩
    · exact ⟨low, high.trans (by decide)⟩
    · exact ⟨le_trans (by decide) low, high⟩
  refine ⟨by omega, ?_⟩
  rw [isBreak, decide_eq_false_iff_not]
  simp only [List.mem_cons, List.not_mem_nil, or_false]
  omega

namespace RawCommit

theorem keyword_clean {key : Line} (listed : key ∈ keywords) {c : Char} (member : c ∈ key) :
    c.toNat < 128 ∧ isBreak c = false := by
  have all : (keywords.all fun key => key.all fun c => decide (c.toNat < 128) && !isBreak c) = true := rfl
  rw [List.all_eq_true] at all
  simpa using List.all_eq_true.mp (all key listed) c member

theorem links_clean (raw : RawCommit) : ∀ line ∈ raw.links, ∀ c ∈ line, c.toNat < 128 ∧ isBreak c = false := by
  have revisions : ∀ revision : Revision, ∀ c ∈ revision.val.toList, c.toNat < 128 ∧ isBreak c = false := by
    intro revision c member
    have formed := revision.property
    rw [isRevision, Bool.and_eq_true, List.all_eq_true] at formed
    exact hex_clean (formed.2 c member)
  intro line listed c member
  rcases List.mem_cons.mp listed with rfl | listed
  · rcases List.mem_append.mp member with inside | inside
    · exact keyword_clean (List.mem_cons_self : treeKey ∈ keywords) inside
    · exact revisions _ c inside
  · obtain ⟨parent, -, rfl⟩ := List.mem_map.mp listed
    rcases List.mem_append.mp member with inside | inside
    · exact keyword_clean (List.mem_cons_of_mem _ List.mem_cons_self : parentKey ∈ keywords) inside
    · exact revisions _ c inside

theorem decode_bytes (raw : RawCommit) :
    Utf8.decode raw.bytes = (Utf8.decode raw.rest).map
      ((raw.links.flatMap fun line => line ++ ['\n']) ++ ·) := by
  refine Utf8.decode_append ?_ _
  intro c member
  obtain ⟨line, listed, inside⟩ := List.mem_flatMap.mp member
  rcases List.mem_append.mp inside with written | ends
  · exact (raw.links_clean line listed c written).1
  · obtain rfl := List.mem_singleton.mp ends
    decide

theorem authorKey_of_decode {raw : RawCommit} {text : List Char} (read : Utf8.decode raw.rest = some text) :
    ∃ tail, text = authorKey ++ tail := by
  have shape : raw.rest = Utf8.encode authorKey ++ (raw.author.bytes ++ [lineFeed] ++
      line committerKey raw.committer.bytes ++ (raw.further.flatMap (line []) ++ lineFeed :: raw.message)) := by
    simp [rest, identityLines, line]
  have ascii : Utf8.Ascii authorKey := fun c member =>
    (keyword_clean (show authorKey ∈ keywords by decide) member).1
  rw [shape, Utf8.decode_append ascii] at read
  obtain ⟨tail, -, rfl⟩ := Option.map_eq_some_iff.mp read
  exact ⟨tail, rfl⟩

theorem strip_text {raw : RawCommit} {text : List Char} (read : Utf8.decode raw.rest = some text) :
    strip ((raw.links.flatMap fun line => line ++ ['\n']) ++ text) =
      (raw.links.flatMap fun line => line ++ ['\n']) ++ rstrip text := by
  obtain ⟨tail, rfl⟩ := authorKey_of_decode read
  have begins : ∃ others, (raw.links.flatMap fun line => line ++ ['\n']) = 't' :: others := ⟨_, rfl⟩
  obtain ⟨others, shape⟩ := begins
  rw [shape, List.cons_append, strip_cons (by decide), ← List.cons_append]
  exact @rstrip_append _ _ 'a' (by simp [authorKey]) (by decide)

/-- The pieces into which the lines after the parents fall, up to the first empty one. -/
def pieces (text : List Char) : List Line := headerLines (rstrip text)

/-- The pieces say nothing about the tree and the parents, and who made the commit can be read from them. -/
structure Faithful (raw : RawCommit) (pieces : List Line) : Prop where
  tree : ∀ tree, (treesIn pieces).getLast? = some tree → tree = raw.tree.val.toList
  parents : ∀ piece ∈ pieces, ¬ startsWith parentKey piece
  timed : ∀ piece ∈ pieces, Timed piece
  authored : ∃ piece ∈ pieces, startsWith authorKey piece
  committed : ∃ piece ∈ pieces, startsWith committerKey piece

structure Legible (raw : RawCommit) : Prop where
  bounded : raw.bytes.length ≤ maxTextBytes
  faithful : ∃ text, Utf8.decode raw.rest = some text ∧ raw.Faithful (pieces text)

theorem runText_bytes {raw : RawCommit} {text : List Char} : runText (.ok raw.bytes) = .ok text ↔
    raw.bytes.length ≤ maxTextBytes ∧ ∃ read, Utf8.decode raw.rest = some read ∧
      (raw.links.flatMap fun line => line ++ ['\n']) ++ rstrip read = text := by
  simp only [runText, bind_eq_ok, refuse_eq_ok, require_eq_ok, not_lt, Except.ok.injEq]
  constructor
  · rintro ⟨_, rfl, ⟨⟩, bounded, whole, decoded, same⟩
    rw [decode_bytes, Option.map_eq_some_iff] at decoded
    obtain ⟨read, found, rfl⟩ := decoded
    refine ⟨bounded, read, found, ?_⟩
    rw [← strip_text found]
    exact same
  · rintro ⟨bounded, read, found, rfl⟩
    refine ⟨_, rfl, (), bounded, _, ?_, strip_text found⟩
    rw [decode_bytes, found, Option.map_some]

/-- What the lines of the tree and the parents set. -/
theorem treesIn_links (raw : RawCommit) : treesIn raw.links = [raw.tree.val.toList] := by
  have others : (raw.parents.map fun parent => parentKey ++ parent.val.toList).filter
      (fun line => startsWith treeKey line) = [] := by
    rw [List.filter_eq_nil_iff]
    intro line listed
    obtain ⟨parent, -, rfl⟩ := List.mem_map.mp listed
    simp [treeKey, parentKey]
  rw [treesIn, links, List.filter_cons_of_pos (by simp), others]
  rfl

theorem parentsIn_links (raw : RawCommit) :
    parentsIn raw.links = raw.parents.map fun parent => parent.val.toList := by
  have all : (raw.parents.map fun parent => parentKey ++ parent.val.toList).filter
      (fun line => startsWith parentKey line) = raw.parents.map fun parent => parentKey ++ parent.val.toList := by
    rw [List.filter_eq_self]
    intro line listed
    obtain ⟨parent, -, rfl⟩ := List.mem_map.mp listed
    simp
  rw [parentsIn, links, List.filter_cons_of_neg (by simp [treeKey, parentKey]), all, List.map_map]
  rfl

theorem nobody_in_links (raw : RawCommit) :
    ∀ line ∈ raw.links, ¬ startsWith authorKey line ∧ ¬ startsWith committerKey line := by
  intro line listed
  rcases List.mem_cons.mp listed with rfl | listed
  · simp [treeKey, authorKey, committerKey]
  · obtain ⟨parent, -, rfl⟩ := List.mem_map.mp listed
    simp [parentKey, authorKey, committerKey]

theorem headerLines_text (raw : RawCommit) (text : List Char) :
    headerLines ((raw.links.flatMap fun line => line ++ ['\n']) ++ rstrip text) = raw.links ++ pieces text := by
  refine headerLines_lines (fun line listed c member => (raw.links_clean line listed c member).2) ?_ _
  intro line listed
  rcases List.mem_cons.mp listed with rfl | listed
  · exact List.cons_ne_nil _ _
  · obtain ⟨parent, -, rfl⟩ := List.mem_map.mp listed
    exact List.cons_ne_nil _ _

/-- The header that is read from the object. -/
theorem reads_object {raw : RawCommit} {text : List Char} {header : Header}
    (read : foldAll readLine Header.start (raw.links ++ pieces text) = .ok header) :
    (∀ piece ∈ pieces text, Timed piece) ∧
      header.tree = (treesIn (pieces text)).getLast?.getD raw.tree.val.toList ∧
      header.parents = (raw.parents.map fun parent => parent.val.toList) ++ parentsIn (pieces text) ∧
      (header.authored.isSome ↔ ∃ piece ∈ pieces text, startsWith authorKey piece) ∧
      (header.committed.isSome ↔ ∃ piece ∈ pieces text, startsWith committerKey piece) := by
  obtain ⟨timed, reads⟩ := reads_fold read
  have nobody := raw.nobody_in_links
  refine ⟨fun piece member => timed piece (List.mem_append_right _ member), ?_, ?_, ?_, ?_⟩
  · have trees : treesIn (raw.links ++ pieces text) = raw.tree.val.toList :: treesIn (pieces text) := by
      have both : treesIn (raw.links ++ pieces text) = treesIn raw.links ++ treesIn (pieces text) := by
        simp [treesIn]
      rw [both, treesIn_links, List.singleton_append]
    rw [reads.tree, trees, List.getLast?_cons, Option.getD_some]
  · have both : parentsIn (raw.links ++ pieces text) = parentsIn raw.links ++ parentsIn (pieces text) := by
      simp [parentsIn]
    rw [reads.parents, both, parentsIn_links]
    rfl
  · rw [reads.authored]
    constructor
    · rintro (set | ⟨line, listed, begins⟩)
      · cases set
      · rcases List.mem_append.mp listed with link | piece
        · exact absurd begins (nobody line link).1
        · exact ⟨line, piece, begins⟩
    · rintro ⟨line, piece, begins⟩
      exact .inr ⟨line, List.mem_append_right _ piece, begins⟩
  · rw [reads.committed]
    constructor
    · rintro (set | ⟨line, listed, begins⟩)
      · cases set
      · rcases List.mem_append.mp listed with link | piece
        · exact absurd begins (nobody line link).2
        · exact ⟨line, piece, begins⟩
    · rintro ⟨line, piece, begins⟩
      exact .inr ⟨line, List.mem_append_right _ piece, begins⟩

theorem runText_objectType : runText (.ok (Utf8.encode ['c', 'o', 'm', 'm', 'i', 't', '\n'])) =
    .ok ['c', 'o', 'm', 'm', 'i', 't'] := by
  have short : ¬ maxTextBytes < (Utf8.encode ['c', 'o', 'm', 'm', 'i', 't', '\n']).length := by decide
  simp only [runText, bind_eq_ok, refuse_eq_ok, require_eq_ok]
  exact ⟨_, rfl, (), short, _, Utf8.decode_encode _, by decide⟩

theorem commit_eq_ok {git : Git} {revision : Revision} {raw : RawCommit} (stored : raw.Stored git revision)
    {result : CommitObject} : commit git revision.val = .ok result ↔
      ∃ text, raw.bytes.length ≤ maxTextBytes ∧ Utf8.decode raw.rest = some text ∧
        ∃ header, foldAll readLine Header.start (raw.links ++ pieces text) = .ok header ∧
          isRevision (String.ofList header.tree) = true ∧
          (∀ parent ∈ header.parents, isRevision (String.ofList parent) = true) ∧
          ∃ authored, header.authored = some authored ∧ ∃ committed, header.committed = some committed ∧
            ⟨revision.val, String.ofList header.tree, header.parents.map String.ofList, authored, committed⟩ =
              result := by
  have formed : ¬ isRevision revision.val = false := by simp [revision.property]
  simp only [commit, bind_eq_ok, refuse_eq_ok, require_eq_ok, stored.objectType, stored.print, runText_objectType,
    available, runText_bytes, Except.ok.injEq]
  constructor
  · rintro ⟨⟨⟩, -, _, rfl, ⟨⟩, -, _, ⟨bounded, text, decoded, rfl⟩, header, folded, ⟨⟩, tree, ⟨⟩, parents, authored,
      first, committed, second, rfl⟩
    rw [headerLines_text] at folded
    refine ⟨text, bounded, decoded, header, folded, by simpa using tree, ?_, authored, first, committed, second, rfl⟩
    simpa using parents
  · rintro ⟨text, bounded, decoded, header, folded, tree, parents, authored, first, committed, second, rfl⟩
    rw [← headerLines_text] at folded
    exact ⟨(), formed, _, rfl, (), by simp, _, ⟨bounded, text, decoded, rfl⟩, header, folded, (), by simp [tree], (),
      by simpa using parents, authored, first, committed, second, rfl⟩

/-- The commit is read as it stands exactly when it is legible. -/
theorem commit_reads_iff (git : Git) (revision : Revision) (raw : RawCommit) (stored : raw.Stored git revision) :
    raw.Read (commit git revision.val) ↔ raw.Legible := by
  constructor
  · rintro ⟨result, outcome, tree, parents⟩
    obtain ⟨text, bounded, decoded, header, folded, -, -, authored, first, committed, second, rfl⟩ :=
      (commit_eq_ok stored).mp outcome
    obtain ⟨timed, treeIs, parentsAre, author, committer⟩ := reads_object folded
    refine ⟨bounded, text, decoded, ?_, ?_, timed, author.mp (by rw [first]; rfl), committer.mp (by rw [second]; rfl)⟩
    · intro other last
      have same := congrArg String.toList tree
      rw [treeIs, last, Option.getD_some] at same
      simpa using same
    · intro piece member begins
      have longer := congrArg List.length parents
      rw [List.length_map, parentsAre, List.length_append, List.length_map, List.length_map] at longer
      have listed : piece.drop 7 ∈ parentsIn (pieces text) :=
        List.mem_map_of_mem (List.mem_filter.mpr ⟨member, by simpa using begins⟩)
      have := List.length_pos_of_mem listed
      omega
  · rintro ⟨bounded, text, decoded, faithful⟩
    have linked : ∀ line ∈ raw.links, Timed line := fun line listed begins =>
      absurd begins (not_or.mpr (raw.nobody_in_links line listed))
    obtain ⟨header, folded⟩ := fold_timed (List.forall_mem_append.mpr ⟨linked, faithful.timed⟩) Header.start
    obtain ⟨-, treeIs, parentsAre, author, committer⟩ := reads_object folded
    have none_forged : parentsIn (pieces text) = [] := by
      rw [parentsIn, List.map_eq_nil_iff, List.filter_eq_nil_iff]
      intro piece member
      simpa using faithful.parents piece member
    have tree : header.tree = raw.tree.val.toList := by
      rw [treeIs]
      cases last : (treesIn (pieces text)).getLast? with
      | none => rfl
      | some other => exact faithful.tree other last
    rw [none_forged, List.append_nil] at parentsAre
    obtain ⟨authored, first⟩ := Option.isSome_iff_exists.mp (author.mpr faithful.authored)
    obtain ⟨committed, second⟩ := Option.isSome_iff_exists.mp (committer.mpr faithful.committed)
    have ofList : ∀ revision : Revision, String.ofList revision.val.toList = revision.val := fun _ =>
      String.ofList_toList
    refine ⟨_, (commit_eq_ok stored).mpr ⟨text, bounded, decoded, header, folded, ?_, ?_, authored, first, committed,
      second, rfl⟩, ?_, ?_⟩
    · rw [tree, ofList]
      exact raw.tree.property
    · intro parent listed
      rw [parentsAre] at listed
      obtain ⟨revision, -, rfl⟩ := List.mem_map.mp listed
      rw [ofList]
      exact revision.property
    · rw [tree, ofList]
    · rw [parentsAre, List.map_map]
      exact List.map_congr_left fun revision _ => ofList revision

/-! ### Samples: a commit without parents, and an author whose name holds vertical tabs and a parent -/

namespace Sample

def revision : Revision := ⟨"797efd83f8c15deef7f4d4762a8c92d8b5a9305f", by decide +kernel⟩

def identity (person : List Char) (oneLine : lineFeed ∉ Utf8.encode person) : Identity :=
  ⟨Utf8.encode person, 1, ['+', '0', '0', '0', '0'], oneLine, rfl⟩

def commitBy (person : List Char) (oneLine : lineFeed ∉ Utf8.encode person) : RawCommit where
  tree := revision
  parents := []
  author := identity person oneLine
  committer := identity ['m', 'e'] (by decide)
  further := []
  message := []
  formed := by simp

def honest : RawCommit := commitBy ['m', 'e'] (by decide)

def verticalTab : Char := Char.ofNat 11

def forged : RawCommit :=
  commitBy (['m', 'e', ' ', '1', ' ', '+', '0', '0', '0', '0', verticalTab] ++ parentKey ++ revision.val.toList ++
    [verticalTab, 'm', 'e']) (by decide +kernel)

def git (raw : RawCommit) : Git where
  objectType _ := .ok (Utf8.encode ['c', 'o', 'm', 'm', 'i', 't', '\n'])
  print _ := .ok raw.bytes

theorem stored (raw : RawCommit) : raw.Stored (git raw) revision := ⟨rfl, rfl⟩

def parentCount (outcome : Outcome CommitObject) : Option Nat :=
  match outcome with
  | .ok commit => some commit.parents.length
  | .error _ => none

end Sample

theorem commit_reads_iff_sample : Sample.honest.Read (commit (Sample.git Sample.honest) Sample.revision.val) ↔
    Sample.honest.Legible :=
  commit_reads_iff (Sample.git Sample.honest) Sample.revision Sample.honest (Sample.stored Sample.honest)

/-- The name of the author sets a parent that the object does not have. -/
theorem author_forges_parent : ¬ ∀ (git : Git) (revision : Revision) (raw : RawCommit),
    raw.Stored git revision → raw.Read (commit git revision.val) := by
  intro reads
  obtain ⟨result, outcome, -, parents⟩ := reads (Sample.git Sample.forged) Sample.revision Sample.forged
    (Sample.stored Sample.forged)
  have one : Sample.parentCount (commit (Sample.git Sample.forged) Sample.revision.val) = some 1 := by decide +kernel
  rw [outcome] at one
  have count := Option.some.inj one
  rw [parents] at count
  cases count

end RawCommit

end History

end FeatureRl
