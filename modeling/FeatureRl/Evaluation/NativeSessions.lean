import FeatureRl.Lib.Dict
import FeatureRl.Lib.Effects
import Mathlib.Logic.Function.Basic

/-!
Native sessions of one evaluation job: the factory that starts and closes them, the service
that owns them, and their accounting. A call outside may fail or be the last of its process.
-/

namespace FeatureRl

namespace Evaluation

/-! ### Accounting -/

structure StartupId where
  attemptId : String
  startupKey : String
deriving DecidableEq

/-- The latest revision for each upstream attempt of the job, by source. -/
structure Accounting where
  startups : Dict String Nat
  shutdowns : Dict String Nat

inductive Source where
  | startup | shutdown
deriving DecidableEq

def Accounting.rows (accounting : Accounting) : Source → Dict String Nat
  | .startup => accounting.startups
  | .shutdown => accounting.shutdowns

def Accounting.record (accounting : Accounting) (source : Source) (key : String) (revision : Nat) :
    Accounting :=
  match source with
  | .startup => { accounting with startups := accounting.startups.set key revision }
  | .shutdown => { accounting with shutdowns := accounting.shutdowns.set key revision }

/-- The upstream attempts whose latest revision is the second one. -/
def Accounting.finished (accounting : Accounting) (source : Source) : List String :=
  ((accounting.rows source).entries.filter fun row => row.2 = 2).map Prod.fst

/-! ### Processes -/

inductive Failure where
  | crash | registry | startupRecovery | evaluationRecovery | other
deriving DecidableEq

/-- A call that leaves the process. -/
inductive Call where
  | startupClaim | startupAccounting | startupIntent | construct | startupReceipt | startupRegister
  | startupRecord
  | accounting | work | publishExecution
  | closeClaim | shutdownIntent | closeSession | shutdownReceipt | shutdownRegister | shutdownRecord
  | abortClaim | abortIntent | abortSession | abortReceipt | abortRegister | abortRecord
  | cleanupAccounting | claim | job | report
deriving DecidableEq

abbrev Faults := Call → Option Failure

structure Abort where
  abortKey : String
  completed : Bool
  receipt : Bool

/-- A session that is constructed but not published. -/
structure Pending where
  receipt : Bool
  abort : Option Abort

structure Closing where
  shutdownKey : String
  intentRecorded : Bool
  completed : Bool
  receipt : Bool

/-- What only the running process knows. -/
structure Memory where
  opening : Option StartupId
  handle : Option StartupId
  pending : StartupId → Option Pending
  sessions : StartupId → Bool
  closing : StartupId → Option Closing
  closed : StartupId × String → Bool
  aborted : StartupId → Bool

def Memory.fresh : Memory :=
  ⟨none, none, fun _ => none, fun _ => false, fun _ => none, fun _ => false, fun _ => false⟩

inductive JobState where
  | queued | running | completed
deriving DecidableEq

/-- The job and its accounting outlive a process. `started` lists the sessions that were
constructed; no process reads it. -/
structure World where
  state : JobState
  attempts : List String
  execution : Option String
  accounting : Accounting
  started : List StartupId
  memory : Memory

def World.created : World := ⟨.queued, [], none, ⟨.empty, .empty⟩, [], .fresh⟩

abbrev Process := Effects World Failure

def remember (change : Memory → Memory) : Process Unit :=
  Effects.modify fun world => { world with memory := change world.memory }

def raise {α : Type} (failure : Failure) : Process α := Effects.lift (.error failure)

def outside (faults : Faults) (call : Call) : Process Unit :=
  match faults call with
  | none => pure ()
  | some failure => raise failure

/-- A revision follows the latest one; an earlier one is a repetition. -/
def reconcile (faults : Faults) (call : Call) (source : Source) (key : String) (revision : Nat) :
    Process Unit := do
  outside faults call
  let world ← Effects.read
  let latest := ((world.accounting.rows source).get? key).getD 0
  if revision ≤ latest then pure ()
  else if latest + 1 = revision then
    Effects.modify fun world => { world with
      accounting := world.accounting.record source key revision }
  else raise .registry

/-- A call that is made only once; `finished` says that it has been made. -/
def once (faults : Faults) (call : Call) (finished : Bool) : Process Unit :=
  if finished = true then pure () else outside faults call

/-! ### The factory -/

def rememberPending (id : StartupId) (pending : Option Pending) : Process Unit :=
  remember fun memory => { memory with pending := Function.update memory.pending id pending }

def finishStartup (faults : Faults) (id : StartupId) (pending : Pending) : Process Unit := do
  once faults .startupReceipt pending.receipt
  rememberPending id (some { pending with receipt := true })
  outside faults .startupRegister
  reconcile faults .startupRecord .startup id.startupKey 2
  remember fun memory => { memory with
    sessions := Function.update memory.sessions id true
    pending := Function.update memory.pending id none }

/-- A startup key is used once, even when its session is lost. -/
def start (faults : Faults) (id : StartupId) : Process Unit := do
  outside faults .startupAccounting
  let world ← Effects.read
  if (world.accounting.startups.get? id.startupKey).isSome = true then raise .startupRecovery
  else do
    reconcile faults .startupIntent .startup id.startupKey 1
    outside faults .construct
    Effects.modify fun world => { world with started := id :: world.started }
    rememberPending id (some ⟨false, none⟩)
    finishStartup faults id ⟨false, none⟩

def create (faults : Faults) (id : StartupId) : Process Unit := do
  outside faults .startupClaim
  let world ← Effects.read
  if world.memory.sessions id = true then pure ()
  else
    match world.memory.pending id with
    | some pending =>
        if pending.abort.isSome = true then raise .startupRecovery else finishStartup faults id pending
    | none => start faults id

/-- Whether the intent of a shutdown is recorded. A registry error is kept for later. -/
def recordIntent (faults : Faults) (call : Call) (key : String) : Process Bool :=
  (do
    reconcile faults call .shutdown key 1
    pure true).catching fun failure =>
      if failure = Failure.registry then pure false else raise failure

def intendShutdown (faults : Faults) (key : String) (intentRecorded : Bool) : Process Bool :=
  if intentRecorded = true then pure true else recordIntent faults .shutdownIntent key

def rememberClosing (id : StartupId) (closing : Option Closing) : Process Unit :=
  remember fun memory => { memory with closing := Function.update memory.closing id closing }

def recordShutdown (faults : Faults) (id : StartupId) (shutdownKey : String) : Process Unit := do
  outside faults .shutdownRegister
  reconcile faults .shutdownRecord .shutdown shutdownKey 2
  remember fun memory => { memory with
    sessions := Function.update memory.sessions id false
    closing := Function.update memory.closing id none
    closed := Function.update memory.closed (id, shutdownKey) true }

/-- A registry error of the intent is raised only after the session is closed. -/
def shutdown (faults : Faults) (id : StartupId) (shutdownKey : String) (closing : Closing) :
    Process Unit := do
  rememberClosing id (some closing)
  let intentRecorded ← intendShutdown faults shutdownKey closing.intentRecorded
  rememberClosing id (some { closing with intentRecorded })
  once faults .closeSession closing.completed
  rememberClosing id (some { closing with intentRecorded, completed := true })
  once faults .shutdownReceipt closing.receipt
  rememberClosing id (some { closing with intentRecorded, completed := true, receipt := true })
  if intentRecorded = true then recordShutdown faults id shutdownKey else raise .registry

def close (faults : Faults) (id : StartupId) (shutdownKey : String) : Process Unit := do
  outside faults .closeClaim
  let world ← Effects.read
  if world.memory.closed (id, shutdownKey) = true then pure ()
  else
    let closing := (world.memory.closing id).getD ⟨shutdownKey, false, false, false⟩
    if closing.shutdownKey ≠ shutdownKey ∨ world.memory.sessions id = false then raise .other
    else shutdown faults id shutdownKey closing

def recordAbort (faults : Faults) (id : StartupId) (shutdownKey : String) : Process Unit := do
  outside faults .abortRegister
  reconcile faults .abortRecord .shutdown shutdownKey 2
  remember fun memory => { memory with
    aborted := Function.update memory.aborted id true
    pending := Function.update memory.pending id none }

def abort (faults : Faults) (id : StartupId) (shutdownKey : String) (pending : Pending) (abort : Abort) :
    Process Unit := do
  rememberPending id (some { pending with abort := some abort })
  if abort.abortKey ≠ shutdownKey then raise .other
  else do
    let intentRecorded ← recordIntent faults .abortIntent shutdownKey
    once faults .abortSession abort.completed
    rememberPending id (some { pending with abort := some { abort with completed := true } })
    once faults .abortReceipt abort.receipt
    rememberPending id (some { pending with abort := some ⟨abort.abortKey, true, true⟩ })
    if intentRecorded = true then recordAbort faults id shutdownKey else raise .registry

def closeStartup (faults : Faults) (id : StartupId) (shutdownKey : String) : Process Unit := do
  outside faults .abortClaim
  let world ← Effects.read
  if world.memory.aborted id = true then pure ()
  else
    match world.memory.pending id with
    | none => raise .startupRecovery
    | some pending => abort faults id shutdownKey pending (pending.abort.getD ⟨shutdownKey, false, false⟩)

/-! ### The service -/

def shutdownKey (id : StartupId) : String := id.startupKey ++ ":shutdown"

def abortKey (id : StartupId) : String := id.startupKey ++ ":startup-abort"

def closeHandle (faults : Faults) : Process Unit := do
  let world ← Effects.read
  match world.memory.handle with
  | none => pure ()
  | some id => do
      close faults id (shutdownKey id)
      remember fun memory => { memory with handle := none }

/-- The failure of a cleanup; a crash is not handled. -/
def collecting (cleanup : Process Unit) : Process (Option Failure) :=
  (do
    cleanup
    pure none).catching fun failure =>
      if failure = Failure.crash then raise .crash else pure (some failure)

/-- The trials; when one fails the session is closed before the failure goes on. -/
def runTrials (faults : Faults) (attemptId : String) : Process Unit :=
  (do
    outside faults .work
    outside faults .publishExecution
    Effects.modify fun world => { world with execution := some attemptId }).catching fun failure =>
      if failure = Failure.crash then raise .crash
      else do
        let _ ← collecting (closeHandle faults)
        raise failure

def nativeExecution (faults : Faults) (attemptId : String) : Process Unit := do
  let world ← Effects.read
  if world.memory.opening.isSome = true then raise .evaluationRecovery
  else do
    outside faults .accounting
    let id : StartupId := ⟨attemptId, attemptId ++ ":m8-native:" ++ toString world.accounting.startups.size⟩
    remember fun memory => { memory with opening := some id }
    create faults id
    remember fun memory => { memory with opening := none, handle := some id }
    runTrials faults attemptId
    closeHandle faults

/-- A startup that is no longer pending needs no cleanup. -/
def closeOpening (faults : Faults) : Process (Option Failure) := do
  let world ← Effects.read
  match world.memory.opening with
  | none => pure none
  | some id => do
      let failure ← collecting (closeStartup faults id (abortKey id))
      if failure ∈ [none, some Failure.startupRecovery] then do
        remember fun memory => { memory with opening := none }
        pure none
      else pure failure

/-- Close every retained session and startup; the first failure is raised at the end. -/
def closeAll (faults : Faults) : Process Unit := do
  let first ← collecting (closeHandle faults)
  let second ← closeOpening faults
  match first.or second with
  | none => pure ()
  | some failure => raise failure

def removeSuffix (text tail : String) : String :=
  if tail.toList.reverse.isPrefixOf text.toList.reverse = true then
    String.ofList (text.toList.take (text.toList.length - tail.toList.length))
  else text

/-- Every finished startup has a finished shutdown, and no other shutdown is finished. -/
def Accounting.cleanedUp (accounting : Accounting) : Bool :=
  let startups := accounting.finished .startup
  let shutdowns := (accounting.finished .shutdown).map fun key => removeSuffix key ":shutdown"
  startups.all (shutdowns.contains ·) && shutdowns.all (startups.contains ·)

def finishNativeCleanup (faults : Faults) : Process Unit := do
  closeHandle faults
  outside faults .cleanupAccounting
  let world ← Effects.read
  if world.accounting.cleanedUp = true then pure () else raise .evaluationRecovery

def selectExecution (faults : Faults) (attemptId : String) : Process Unit := do
  let world ← Effects.read
  match world.execution with
  | none => nativeExecution faults attemptId
  | some selected => if selected = attemptId then pure () else raise .other

def execute (faults : Faults) (attemptId : String) : Process Unit := do
  selectExecution faults attemptId
  finishNativeCleanup faults
  outside faults .report
  Effects.modify fun world => { world with state := .completed }

def evaluate (faults : Faults) (attemptId : String) : Process Unit := do
  let world ← Effects.read
  match world.state with
  | .completed => pure ()
  | .running => raise .evaluationRecovery
  | .queued => do
      outside faults .claim
      Effects.modify fun world => { world with
        state := .running
        attempts := attemptId :: world.attempts }
      execute faults attemptId

def recover (faults : Faults) (attemptId : String) : Process Unit := do
  outside faults .job
  let world ← Effects.read
  if world.attempts.contains attemptId = false then raise .other
  else if world.state = .completed then pure ()
  else execute faults attemptId

/-! ### Runs -/

inductive Step where
  | evaluate (attemptId : String) (faults : Faults)
  | close (faults : Faults)
  | recover (attemptId : String) (faults : Faults)
  | crash

def Step.process : Step → Process Unit
  | evaluate attemptId faults => Evaluation.evaluate faults attemptId
  | close faults => closeAll faults
  | recover attemptId faults => Evaluation.recover faults attemptId
  | crash => raise .crash

/-- A crash loses what the process knew. -/
def World.step (world : World) (step : Step) : World :=
  match step.process world with
  | (.error .crash, after) => { after with memory := .fresh }
  | (_, after) => after

def run (steps : List Step) : World := steps.foldl World.step .created

end Evaluation

end FeatureRl
