import FeatureRl.Contracts.Values
import Mathlib.Logic.Function.Basic

/-!
Controllers that share one state directory. Each read, write and lock of the directory is a step
of its own, every controller may stop at any point, and the lock of a stopped one is free again.
-/

namespace FeatureRl

namespace Workspaces

structure SavedSource where
  artifact : ArtifactRef
  rawSha256 : Digest
  treeSha256 : Digest
  version : Nat
  savedAt : String
deriving DecidableEq

/-- A workspace record. What no operation changes has type `F`. -/
structure Workspace (F : Type) where
  initial : SavedSource
  saved : SavedSource
  closed : Bool
  generation : Nat
  frozen : F

inductive Phase where
  | intent | created | running | cleanupPending | removed
deriving DecidableEq

/-- A container session. One that is bound to a workspace carries the record that it was staged
from; `saves` is whether its request asks for the source to be saved. -/
structure Session (W O F : Type) where
  operation : O
  target : Option (W × Workspace F)
  saves : Bool

inductive Terminal where
  | reset | close

/-- Where a controller stands, with the lock unless it is idle or has only staged a session. -/
inductive Local (W O F : Type) where
  | idle
  | staged (session : Session W O F)
  | entered (session : Session W O F)
  | registered (session : Session W O F)
  | admitted (session : Session W O F)
  | cleaning (session : Session W O F)
  | recovering
  | opening (workspace : W) (value : Workspace F)
  | terminal (kind : Terminal) (workspace : W)
  | verified (kind : Terminal) (workspace : W)
  | loaded (kind : Terminal) (workspace : W) (value : Workspace F)
  | leaving

def Local.locked {W O F : Type} : Local W O F → Bool
  | .idle | .staged _ => false
  | _ => true

/-- The records of the directory, the phases of its operations and who holds its lock. -/
structure State (C W O F : Type) where
  holder : Option C
  records : W → Option (Workspace F)
  operations : O → Option Phase
  locals : C → Local W O F

inductive Kind (W O F : Type) where
  | terminal (kind : Terminal)
  | save (session : Session W O F)

/-- A write over the record of a workspace, from the record that its writer had read. -/
structure Write (C W O F : Type) where
  controller : C
  workspace : W
  kind : Kind W O F
  before : Workspace F
  after : Workspace F

/-- What an export yields: a source that may follow the saved one under the frozen rules. -/
abbrev Captures (F : Type) := F → SavedSource → SavedSource → Bool

/-- A session is let in when the record is still the one that it was staged from. -/
def admits {F : Type} (value record : Workspace F) : Bool :=
  !record.closed && decide (record.generation = value.generation) &&
    decide (record.saved.artifact.sha256 = value.saved.artifact.sha256)

def Workspace.save {F : Type} (value : Workspace F) (proposed : SavedSource) : Workspace F :=
  { value with saved := proposed, generation := value.generation + 1 }

def Workspace.finish {F : Type} (value : Workspace F) : Terminal → Workspace F
  | .reset => { value with saved := value.initial, generation := value.generation + 1 }
  | .close => { value with closed := true, generation := value.generation + 1 }

section

variable {C W O F : Type} [DecidableEq C] [DecidableEq W] [DecidableEq O]

def State.move (state : State C W O F) (controller : C) (next : Local W O F) : State C W O F :=
  { state with locals := Function.update state.locals controller next }

def State.persist (state : State C W O F) (operation : O) (phase : Phase) : State C W O F :=
  { state with operations := Function.update state.operations operation (some phase) }

def State.write (state : State C W O F) (workspace : W) (value : Workspace F) : State C W O F :=
  { state with records := Function.update state.records workspace (some value) }

/-- Give the lock up and forget what was read. -/
def State.leave (state : State C W O F) (controller : C) : State C W O F :=
  { state.move controller .idle with holder := none }

inductive Step (captures : Captures F) : State C W O F → Option (Write C W O F) → State C W O F → Prop
  /-- `workspace` reads the record without the lock. -/
  | stage {state : State C W O F} {c : C} (session : Session W O F) (idle : state.locals c = .idle)
      (read : ∀ w value, session.target = some (w, value) → state.records w = some value ∧ value.closed = false) :
      Step captures state none (state.move c (.staged session))
  | enter {state : State C W O F} {c : C} {session : Session W O F} (staged : state.locals c = .staged session)
      (free : state.holder = none) :
      Step captures state none { state.move c (.entered session) with holder := some c }
  /-- Another controller has the lock, or the session is given up. -/
  | abandon {state : State C W O F} {c : C} {session : Session W O F} (staged : state.locals c = .staged session) :
      Step captures state none (state.move c .idle)
  | register {state : State C W O F} {c : C} {session : Session W O F}
      (entered : state.locals c = .entered session) :
      Step captures state none ((state.persist session.operation .intent).move c (.registered session))
  | allow {state : State C W O F} {c : C} {session : Session W O F}
      (registered : state.locals c = .registered session)
      (same : ∀ w value, session.target = some (w, value) →
        ∃ record, state.records w = some record ∧ admits value record = true) :
      Step captures state none (state.move c (.admitted session))
  | advance {state : State C W O F} {c : C} {session : Session W O F} {phase : Phase}
      (admitted : state.locals c = .admitted session) (started : phase = .created ∨ phase = .running) :
      Step captures state none ((state.persist session.operation phase).move c (.admitted session))
  | save {state : State C W O F} {c : C} {session : Session W O F} {w : W} {value : Workspace F}
      {proposed : SavedSource} (admitted : state.locals c = .admitted session)
      (bound : session.target = some (w, value)) (asked : session.saves = true)
      (captured : captures value.frozen value.saved proposed = true)
      (version : proposed.version = value.saved.version + 1)
      (changed : proposed.treeSha256 ≠ value.saved.treeSha256) :
      Step captures state (some ⟨c, w, .save session, value, value.save proposed⟩)
        ((state.write w (value.save proposed)).move c (.cleaning session))
  /-- A session ends, or fails at any point after it got the lock. -/
  | finish {state : State C W O F} {c : C} {session : Session W O F}
      (inside : state.locals c = .entered session ∨ state.locals c = .registered session ∨
        state.locals c = .admitted session) :
      Step captures state none (state.move c (.cleaning session))
  | cleanup {state : State C W O F} {c : C} {session : Session W O F} {phase : Phase}
      (cleaning : state.locals c = .cleaning session) (ended : phase = .cleanupPending ∨ phase = .removed) :
      Step captures state none ((state.persist session.operation phase).move c (.cleaning session))
  | release {state : State C W O F} {c : C} {session : Session W O F}
      (cleaning : state.locals c = .cleaning session) :
      Step captures state none (state.leave c)
  | recover {state : State C W O F} {c : C} (idle : state.locals c = .idle) (free : state.holder = none) :
      Step captures state none { state.move c .recovering with holder := some c }
  | recoverOne {state : State C W O F} {c : C} {operation : O} {phase next : Phase}
      (recovering : state.locals c = .recovering) (owned : state.operations operation = some phase)
      (pending : phase ≠ .removed) (ended : next = .cleanupPending ∨ next = .removed) :
      Step captures state none ((state.persist operation next).move c .recovering)
  /-- `open_workspace` freezes its source before it takes the lock. -/
  | openWorkspace {state : State C W O F} {c : C} {w : W} {source : SavedSource} {frozen : F}
      (idle : state.locals c = .idle) (free : state.holder = none) :
      Step captures state none { state.move c (.opening w ⟨source, source, false, 0, frozen⟩) with holder := some c }
  | opened {state : State C W O F} {c : C} {w : W} {value : Workspace F}
      (opening : state.locals c = .opening w value) (fresh : state.records w = none) :
      Step captures state none ((state.write w value).move c .leaving)
  | lock {state : State C W O F} {c : C} (kind : Terminal) (w : W) (idle : state.locals c = .idle)
      (free : state.holder = none) :
      Step captures state none { state.move c (.terminal kind w) with holder := some c }
  | verify {state : State C W O F} {c : C} {kind : Terminal} {w : W} (terminal : state.locals c = .terminal kind w)
      (clean : ∀ operation phase, state.operations operation = some phase → phase = .removed) :
      Step captures state none (state.move c (.verified kind w))
  | load {state : State C W O F} {c : C} {kind : Terminal} {w : W} {value : Workspace F}
      (verified : state.locals c = .verified kind w) (read : state.records w = some value)
      (live : value.closed = false) :
      Step captures state none (state.move c (.loaded kind w value))
  | commit {state : State C W O F} {c : C} {kind : Terminal} {w : W} {value : Workspace F}
      (loaded : state.locals c = .loaded kind w value) :
      Step captures state (some ⟨c, w, .terminal kind, value, value.finish kind⟩)
        ((state.write w (value.finish kind)).move c .leaving)
  | depart {state : State C W O F} {c : C}
      (inside : state.locals c = .recovering ∨ state.locals c = .leaving ∨
        (∃ w value, state.locals c = .opening w value) ∨ (∃ kind w, state.locals c = .terminal kind w) ∨
        (∃ kind w, state.locals c = .verified kind w) ∨ ∃ kind w value, state.locals c = .loaded kind w value) :
      Step captures state none (state.leave c)
  | crash {state : State C W O F} {c : C} :
      Step captures state none
        { state.move c .idle with holder := if state.holder = some c then none else state.holder }

inductive Reached (captures : Captures F) : State C W O F → Prop
  | start : Reached captures ⟨none, fun _ => none, fun _ => none, fun _ => .idle⟩
  | step {state next : State C W O F} {write : Option (Write C W O F)} (reached : Reached captures state)
      (step : Step captures state write next) : Reached captures next

end

end Workspaces

end FeatureRl
