import FeatureRl.Contracts.Values
import FeatureRl.Lib.PyText

/-! The event lines of one Codex process, and what a completed turn reports. -/

namespace FeatureRl

namespace Generation

/-- A JSON value of an event; its strings may hold lone surrogates. -/
inductive Wire where
  | null
  | bool (value : Bool)
  | int (value : Int)
  | float (value : Binary64)
  | str (text : PyText)
  | arr (items : List Wire)
  | obj (members : List (PyText × Wire))

namespace Wire

def members? : Wire → Option (List (PyText × Wire))
  | obj members => some members
  | _ => none

def text? : Wire → Option PyText
  | str text => some text
  | _ => none

def count? : Wire → Option Nat
  | int (.ofNat count) => some count
  | _ => none

end Wire

abbrev Event := List (PyText × Wire)

def Event.field (event : Event) (key : String) : Option Wire := event.lookup (PyText.ofString key)

/-- The value is exactly this string. -/
def isString (value : Option Wire) (text : String) : Bool := value.bind Wire.text? = some (PyText.ofString text)

/-! ### Errors -/

inductive ErrorKind where
  | value | unavailable | other
deriving DecidableEq

structure Raised where
  kind : ErrorKind
  name : String
  text : PyText
deriving DecidableEq

namespace Raised

def valueError (text : PyText) : Raised := ⟨.value, "ValueError", text⟩

def codexUnavailable (text : PyText) : Raised := ⟨.unavailable, "CodexUnavailable", text⟩

def unhashable (type : String) : Raised :=
  ⟨.other, "TypeError", PyText.ofString ("unhashable type: '" ++ type ++ "'")⟩

end Raised

/-! ### Usage -/

structure GenerationUsage where
  inputTokens : Nat
  cachedInputTokens : Nat
  outputTokens : Nat
  cacheWriteInputTokens : Option Nat
  reasoningOutputTokens : Option Nat
deriving DecidableEq

namespace GenerationUsage

def fieldNames : List PyText :=
  ["input_tokens", "cached_input_tokens", "output_tokens", "cache_write_input_tokens",
    "reasoning_output_tokens"].map PyText.ofString

/-- A count that may be missing or null. -/
def optionalCount (event : Event) (key : String) : Option (Option Nat) :=
  match Event.field event key with
  | none | some .null => some none
  | some value => value.count?.map some

def cachedSubset (usage : GenerationUsage) : Bool :=
  usage.cachedInputTokens ≤ usage.inputTokens &&
    usage.cacheWriteInputTokens.all (· ≤ usage.inputTokens) &&
    usage.reasoningOutputTokens.all (· ≤ usage.outputTokens)

def ofWire (value : Option Wire) : Option GenerationUsage := do
  let event ← value.bind Wire.members?
  guard (event.all fun member => member.1 ∈ fieldNames)
  let usage : GenerationUsage := {
    inputTokens := ← (Event.field event "input_tokens").bind Wire.count?
    cachedInputTokens := ← (Event.field event "cached_input_tokens").bind Wire.count?
    outputTokens := ← (Event.field event "output_tokens").bind Wire.count?
    cacheWriteInputTokens := ← optionalCount event "cache_write_input_tokens"
    reasoningOutputTokens := ← optionalCount event "reasoning_output_tokens" }
  guard usage.cachedSubset
  return usage

/-- The absent optional counts are left out. -/
def document (usage : GenerationUsage) : Json :=
  .obj ([("input_tokens", .int usage.inputTokens), ("cached_input_tokens", .int usage.cachedInputTokens),
      ("output_tokens", .int usage.outputTokens)] ++
    (usage.cacheWriteInputTokens.map fun count => ("cache_write_input_tokens", Json.int count)).toList ++
    (usage.reasoningOutputTokens.map fun count => ("reasoning_output_tokens", Json.int count)).toList)

end GenerationUsage

/-! ### Events -/

/-- What the interpreter supplies: the JSON values of the lines of a stream, without duplicate keys, the
text of a value that is no string, and the texts of refused usage counts and of unencodable text. -/
structure Python where
  readEvents : Bytes → Except Raised (List Wire)
  repr : Wire → PyText
  invalidUsage : Option Wire → Raised
  surrogatesNotAllowed : PyText → String

variable (python : Python)

/-- A value inside a formatted string. -/
def display : Option Wire → PyText
  | none => PyText.ofString "None"
  | some .null => PyText.ofString "None"
  | some (.str text) => text
  | some value => python.repr value

/-- Membership in a set of strings; lists and dictionaries have no hash. -/
def memberOf (value : Option Wire) (names : List String) : Except Raised Bool :=
  match value with
  | some (.arr _) => .error (Raised.unhashable "list")
  | some (.obj _) => .error (Raised.unhashable "dict")
  | value => .ok (names.any fun name => isString value name)

def readUsage (value : Option Wire) : Except Raised GenerationUsage :=
  match GenerationUsage.ofWire value with
  | some usage => .ok usage
  | none => .error { python.invalidUsage value with kind := .value }

/-- One valid completion's reported counts, also of a call that is rejected. -/
def observedUsage (raw : Bytes) : Except Raised (Option GenerationUsage) :=
  match python.readEvents raw with
  | .error raised => if raised.kind = .value then .ok none else .error raised
  | .ok events =>
      match (events.filterMap Wire.members?).filter fun event => isString (Event.field event "type") "turn.completed" with
      | [event] => .ok (GenerationUsage.ofWire (Event.field event "usage"))
      | _ => .ok none

def failureOf (event : Event) : Except Raised Unit := do
  if ← memberOf (Event.field event "type") ["error", "turn.failed"] then
    throw (Raised.codexUnavailable (PyText.ofString "Codex/Astra failed: " ++
      display python ((Event.field event "message").or (Event.field event "error"))))

/-- The completed agent messages of the items between start and completion. -/
def messages : List Event → Except Raised (List PyText)
  | [] => .ok []
  | event :: rest => do
      if !(← memberOf (Event.field event "type") ["item.started", "item.updated", "item.completed"]) then
        throw (Raised.valueError (PyText.ofString "Unexpected Codex event: " ++ display python (Event.field event "type")))
      let unsupported := Raised.valueError (PyText.ofString "Codex authoring attempted a tool or unsupported item")
      match (Event.field event "item").bind Wire.members? with
      | none => throw unsupported
      | some item =>
          if !(← memberOf (Event.field item "type") ["agent_message", "reasoning"]) then throw unsupported
          if isString (Event.field event "type") "item.completed" && isString (Event.field item "type") "agent_message" then
            match (Event.field item "text").bind Wire.text? with
            | none => throw (Raised.valueError (PyText.ofString "Codex final message is missing text"))
            | some text => return text :: (← messages rest)
          else messages rest

def parseEvents (raw : Bytes) : Except Raised (PyText × GenerationUsage) := do
  let values ← python.readEvents raw
  let events := values.filterMap Wire.members?
  if events = [] || events.length ≠ values.length then
    throw (Raised.valueError (PyText.ofString "Codex emitted no valid JSONL events"))
  let _ ← events.mapM (failureOf python)
  match events with
  | started :: turn :: rest =>
      if !(isString (Event.field started "type") "thread.started" && isString (Event.field turn "type") "turn.started") then
        throw (Raised.valueError (PyText.ofString "Codex thread/turn start is missing"))
      if ((Event.field started "thread_id").bind Wire.text?).all (· = []) then
        throw (Raised.valueError (PyText.ofString "Codex thread ID is missing"))
      let texts ← messages python rest.dropLast
      let completed := rest.getLast?.getD turn
      if !isString (Event.field completed "type") "turn.completed" then
        throw (Raised.valueError (PyText.ofString "Codex/Astra did not complete the turn: " ++
          python.repr (.obj completed)))
      match texts with
      | [text] =>
          if text.strip = [] then
            throw (Raised.valueError (PyText.ofString "Codex must emit exactly one nonempty artifact response"))
          return (text, ← readUsage python (Event.field completed "usage"))
      | _ => throw (Raised.valueError (PyText.ofString "Codex must emit exactly one nonempty artifact response"))
  | _ => throw (Raised.valueError (PyText.ofString "Codex thread/turn start is missing"))

end Generation

end FeatureRl
