import FeatureRl.Contracts.Values
import FeatureRl.Lib.Effects
import FeatureRl.Lib.Sorting
import Mathlib.Data.String.Basic

/-!
Docker operations under durable ownership records: how a session creates its container, how every
exit cleans it up, and how records that are left over are recovered. Any command may be answered in
any way, any write may fail with or without its effect, and the controller may die at any point.
-/

namespace FeatureRl

open Effects

namespace Docker

/-! ### Records, commands and answers -/

inductive Phase where
  | intent | created | running | cleanupPending | removed
deriving DecidableEq, Repr

structure Ownership where
  operationId : String
  ownerToken : String
  daemonId : String
  containerName : String
  containerId : Option String
  phase : Phase
  error : Option String
deriving DecidableEq, Repr

/-- The container by its identifier, by its name where that is not known. -/
def Ownership.name (record : Ownership) : String := record.containerId.getD record.containerName

inductive Reason where
  | exited | timeout | outputLimit
deriving DecidableEq, Repr

structure Observation where
  reason : Reason
  exitCode : Int
  stdout : Bytes
  stderr : Bytes
deriving DecidableEq, Repr

inductive Command where
  | info
  | inspect (name : String)
  | remove (name : String)
  | create (name owner operation : String)
  | start (name : String)
deriving DecidableEq, Repr

/-- What ends a computation. Handlers see exceptions and interrupts; after a crash nothing runs. -/
inductive Failure where
  | exception (kind message : String)
  | interrupt (kind message : String)
  | crash
deriving DecidableEq, Repr

namespace Failure

def text : Failure → String
  | exception kind message => kind ++ ": " ++ String.ofList (message.toList.take 2000)
  | interrupt kind message => kind ++ ": " ++ String.ofList (message.toList.take 2000)
  | crash => ""

end Failure

inductive Answer where
  | observed (observation : Observation)
  | failed (failure : Failure)
deriving DecidableEq, Repr

/-- A write may fail before or after it is durable. -/
inductive Written where
  | kept
  | failed (durable : Bool) (failure : Failure)

/-- Everything that a controller does not decide itself, at each of its steps. -/
structure Machine where
  answer : Nat → Command → Answer
  write : Nat → Ownership → Written
  locked : Nat → Bool
  admission : Nat → Option Failure
  effective : Nat → Option Failure
  body : Nat → Option Failure
  text : Bytes → Option String
  json : Bytes → Option Json

/-! ### The world -/

inductive Event where
  | began (record : Ownership)
  | asked (record : Ownership) (command : Command) (answer : Answer)
  | verified (record : Ownership)
  | wrote (record : Ownership)
deriving DecidableEq, Repr

structure Session where
  record : Ownership
  verified : Bool
deriving DecidableEq, Repr

/-- The durable records, what happened, the latest event first, and the session in memory. -/
structure World where
  disk : Dict String Ownership
  trace : List Event
  clock : Nat
  session : Session

abbrev Process := Effects World Failure

namespace World

def start (session : Session) : World := ⟨Dict.empty, [], 0, session⟩

def tick (world : World) : World := { world with clock := world.clock + 1 }

def note (world : World) (event : Event) : World := { world with trace := event :: world.trace }

def change (world : World) (change : Ownership → Ownership) : World :=
  { world with session := { world.session with record := change world.session.record } }

def store (world : World) : World :=
  (({ world with disk := world.disk.set world.session.record.operationId world.session.record }).note
    (.wrote world.session.record)).tick

def ask (world : World) (command : Command) (answer : Answer) : World :=
  (world.note (.asked world.session.record command answer)).tick

def verify (world : World) : World :=
  ({ world with session := { world.session with verified := true } }).note (.verified world.session.record)

def hold (world : World) (record : Ownership) : World := { world with session := ⟨record, false⟩ }

end World

/-! ### Commands and writes -/

variable (machine : Machine)

def raise {α : Type} (failure : Failure) : Process α := Effects.lift (.error failure)

/-- A point at which the process may fail. -/
def outside (faults : Nat → Option Failure) : Process Unit := do
  let world ← read
  modify World.tick
  match faults world.clock with
  | none => pure ()
  | some failure => raise failure

def control (command : Command) : Process Observation := do
  let world ← read
  modify fun before => before.ask command (machine.answer world.clock command)
  match machine.answer world.clock command with
  | .observed observation => pure observation
  | .failed failure => raise failure

def checked (command : Command) : Process Observation := do
  let observation ← control machine command
  if observation.reason ≠ .exited ∨ observation.exitCode ≠ 0 then
    raise (.exception "EnvironmentError" "Docker control failed")
  else pure observation

def persist (change : Ownership → Ownership) : Process Unit := do
  modify fun before => before.change change
  let world ← read
  match machine.write world.clock world.session.record with
  | .kept => modify World.store
  | .failed true failure => do
      modify World.store
      raise failure
  | .failed false failure => do
      modify World.tick
      raise failure

/-- Run a computation for its exception, if it has one. -/
def attempt (computation : Process Unit) : Process (Option Failure) :=
  (do computation; pure none : Process (Option Failure)).catching fun failure =>
    match failure with
    | .exception kind message => pure (some (.exception kind message))
    | other => raise other

/-! ### Cleanup -/

def unverified (message : String) : Failure := .exception "CleanupUnverified" message

def contains (pattern data : Bytes) : Bool := data.tails.any fun tail => pattern.isPrefixOf tail

/-- The daemon says that it has no such object. -/
def missing (stderr : Bytes) : Bool :=
  contains (Utf8.encode "No such object:".toList) stderr || contains (Utf8.encode "No such container:".toList) stderr

def confirms (record : Ownership) (observation : Observation) : Bool :=
  observation.reason = .exited && observation.exitCode = 0 && machine.text observation.stdout = some record.daemonId

def absent (observation : Observation) : Bool :=
  observation.reason = .exited && observation.exitCode ≠ 0 && missing observation.stderr

def member (key : String) : Json → Option Json
  | .obj members => members.lookup key
  | _ => none

structure Container where
  owner : Option Json
  operation : Option Json
  state : Option Json

/-- The labels and the state of the first container of an inspection. -/
def container (stdout : Bytes) : Option Container :=
  match machine.json stdout with
  | some (.arr (value :: _)) =>
      match (member "Config" value).bind (member "Labels") with
      | some (.obj labels) =>
          some ⟨labels.lookup "feature-rl.owner", labels.lookup "feature-rl.operation", member "State" value⟩
      | _ => none
  | _ => none

def isString (text : String) : Option Json → Bool
  | some (.str other) => other = text
  | _ => false

def labelled (record : Ownership) (found : Container) : Bool :=
  isString record.ownerToken found.owner && isString record.operationId found.operation

/-- Ask the daemon who it is. -/
def confirm : Process Unit := do
  let identity ← control machine .info
  let world ← read
  if confirms machine world.session.record identity then pure ()
  else raise (unverified "daemon unavailable or identity changed")

/-- Remove the container of the record if it exists and bears both labels. -/
def removeOwned : Process Unit := do
  let world ← read
  let inspected ← control machine (.inspect world.session.record.name)
  if inspected.reason ≠ .exited then raise (unverified "inspect unavailable during cleanup")
  else if inspected.exitCode = 0 then
    match container machine inspected.stdout with
    | none => raise (.exception "ValueError" "inspection")
    | some found =>
        if labelled world.session.record found then
          if found.state.isNone then raise (.exception "KeyError" "'State'")
          else do
            let _ ← checked machine (.remove world.session.record.name)
            pure ()
        else raise (unverified "container ownership mismatch")
  else if missing inspected.stderr then pure ()
  else raise (unverified "daemon failure is not absence")

def verifyAbsence : Process Unit := do
  let world ← read
  let inspected ← control machine (.inspect world.session.record.name)
  if absent inspected then modify World.verify
  else raise (unverified "owned container absence unverified")

def markPending (record : Ownership) : Ownership := { record with phase := .cleanupPending }

def markRemoved (record : Ownership) : Ownership := { record with phase := .removed, error := none }

def markFailed (verified : Bool) (failure : Failure) (record : Ownership) : Ownership :=
  { record with phase := if verified then .removed else .cleanupPending, error := some failure.text }

/-- The second publication, with the failure of the cleanup. -/
def cleanupFailed (failure : Failure) : Process Unit :=
  match failure with
  | .crash => raise .crash
  | failure => do
      let world ← read
      let _ ← attempt (persist machine (markFailed world.session.verified failure))
      match failure with
      | .exception _ _ => raise (unverified "cleanup or durable cleanup publication failed")
      | other => raise other

def cleanup : Process Unit := do
  modify fun world => world.note (.began world.session.record)
  let publication ← attempt (persist machine markPending)
  (do
    confirm machine
    removeOwned machine
    verifyAbsence machine
    persist machine markRemoved
    if publication.isSome then
      raise (.exception "EnvironmentError" "cleanup verified but state publication failed")
    else pure () : Process Unit).catching (cleanupFailed machine)

/-! ### Sessions and recovery -/

/-- Run a handler for everything but a crash, and raise again. -/
def onFailure {α : Type} (computation : Process α) (handler : Process Unit) : Process α :=
  computation.catching fun failure =>
    match failure with
    | .crash => raise .crash
    | other => do
        handler
        raise other

def enter : Process Unit :=
  onFailure (do
    persist machine fun record => record
    outside machine.admission
    let world ← read
    let created ← checked machine (.create world.session.record.containerName world.session.record.ownerToken
      world.session.record.operationId)
    match machine.text created.stdout with
    | some identifier =>
        if isDigest identifier then do
          persist machine fun record => { record with containerId := some identifier, phase := .created }
          let _ ← checked machine (.inspect identifier)
          outside machine.effective
          let _ ← checked machine (.start identifier)
          persist machine fun record => { record with phase := .running }
        else raise (.exception "EnvironmentError" "invalid Docker container ID")
    | none => raise (.exception "UnicodeDecodeError" "container ID")) (cleanup machine)

/-- One process has the lock of the state directory at a time. -/
def lock : Process Unit := do
  let world ← read
  modify World.tick
  if machine.locked world.clock then pure ()
  else raise (.exception "EnvironmentError" "runtime operation already active")

/-- A whole operation: the container is created, used and cleaned up. -/
def useSession (record : Ownership) : Process Unit := do
  lock machine
  modify fun world => world.hold record
  enter machine
  onFailure (outside machine.body) (cleanup machine)
  cleanup machine

def recoverNames : List String → Process (List String)
  | [] => pure []
  | name :: rest => do
      let world ← read
      match world.disk.get? name with
      | none => recoverNames rest
      | some record =>
          if record.phase = .removed then recoverNames rest
          else do
            modify fun before => before.hold record
            cleanup machine
            let later ← recoverNames rest
            pure (name :: later)

/-- The names of the records, in their order. -/
def names (world : World) : List String := Sorting.sortBy id world.disk.keys

def recoverOwned : Process (List String) := do
  lock machine
  let world ← read
  recoverNames machine (names world)

/-- A new operation, of which no record has the identifier, or a recovery. -/
inductive Step : World → World → Prop
  | session {world : World} (record : Ownership) (fresh : world.disk.get? record.operationId = none)
      (intent : record.phase = .intent) (unnamed : record.containerId = none) :
      Step world (useSession machine record world).2
  | recovery {world : World} : Step world (recoverOwned machine world).2

/-- The worlds that a run of operations reaches. -/
inductive Reachable : World → Prop
  | start (session : Session) : Reachable (World.start session)
  | step {world after : World} : Reachable world → Step machine world after → Reachable after

end Docker

end FeatureRl
