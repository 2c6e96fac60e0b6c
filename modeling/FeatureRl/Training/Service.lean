import FeatureRl.Lib.Dict
import FeatureRl.Lib.Effects
import Mathlib.Data.List.Basic

/-!
The training service: one controller after another works on the training jobs of a native work
directory. Its journal, the registry's update observations, the checkpoints and the recovery
receipts are durable. Every call outside and every write may fail with or without its effect, and
the controller may die at any point.
-/

namespace FeatureRl

open Effects

namespace TrainingService

/-! ### Requests, journals and what is durable -/

/-- What a job and its recoveries share: the frozen configuration and the native settings. -/
structure Configuration where
  identity : String
  groupSize : Nat
  maxUpdates : Nat
  maxGroups : Nat
  groupsPerUpdate : Nat
deriving DecidableEq, Repr

structure Request where
  configuration : Configuration
  resume : Option Nat
deriving DecidableEq, Repr

inductive Disposition where
  | success | blocked
deriving DecidableEq, Repr

inductive Phase where
  | initializing | collecting | ready | updating | finalizing | frozen | superseded
deriving DecidableEq, Repr

/-- The journal of one job. A group is named by the sampler position of its plan; a job has one
attempt, so that its claim is named by the job. -/
structure Journal where
  phase : Phase
  request : Request
  claim : String
  sampler : Nat
  pending : Option (Nat × Nat)
  unclassifiedGroup : Option Nat
  batchReceipts : List Nat
  groups : Nat
  updates : Nat
  unknownUpdates : Nat
  nonzeroUpdates : Nat
  dataPosition : Nat
  groupReceipts : List Nat
  checkpoint : Option Nat
  finalOutcome : Option Disposition
  recoveryClaim : Option String
  recovery : Option Nat
deriving DecidableEq, Repr

namespace Journal

/-- The index of the next update: those confirmed and those whose end is unknown. -/
def index (journal : Journal) : Nat := journal.updates + journal.unknownUpdates

/-- The groups that are drawn and not yet in the batch. -/
def waiting (journal : Journal) : List Nat :=
  journal.unclassifiedGroup.toList ++ (journal.pending.map Prod.fst).toList

def fresh (request : Request) (claim : String) : Journal where
  phase := .initializing
  request := request
  claim := claim
  sampler := 0
  pending := none
  unclassifiedGroup := none
  batchReceipts := []
  groups := 0
  updates := 0
  unknownUpdates := 0
  nonzeroUpdates := 0
  dataPosition := 0
  groupReceipts := []
  checkpoint := none
  finalOutcome := none
  recoveryClaim := none
  recovery := none

/-- One more confirmed update, which used up the batch. -/
def confirm (journal : Journal) (nonzero : Bool) : Journal :=
  { journal with
    updates := journal.updates + 1
    nonzeroUpdates := journal.nonzeroUpdates + (if nonzero = true then 1 else 0)
    batchReceipts := [] }

/-- The journal of a job that another one took over. -/
def supersede (journal : Journal) (claim : String) (recovery : Nat) : Journal :=
  { journal with phase := .superseded, recoveryClaim := some claim, recovery := some recovery }

/-- The frozen progress of a checkpoint, continued by another job at the groups assigned since. -/
def restore (progress current : Journal) (later : Nat) (request : Request) (claim : String)
    (checkpoint recovery : Nat) : Journal :=
  { progress with
    phase := .initializing
    request := request
    claim := claim
    sampler := current.sampler
    dataPosition := current.dataPosition
    groups := current.groups
    groupReceipts := current.groupReceipts
    pending := none
    unclassifiedGroup := none
    batchReceipts := []
    unknownUpdates := progress.unknownUpdates + later
    checkpoint := some checkpoint
    recovery := some recovery }

end Journal

/-- One call of the native optimizer. -/
structure Dispatch where
  job : String
  index : Nat
  groups : List Nat
deriving DecidableEq, Repr

/-- What only the running process knows. -/
structure Memory where
  opening : Option String
  live : Option String
deriving DecidableEq, Repr

/-- The durable state and the process. `dispatched` lists the optimizer calls, the latest first;
no process reads it. -/
structure World where
  requests : Dict String Request
  completed : List String
  journals : Dict String Journal
  observations : Dict (String × Nat) Nat
  checkpoints : List Journal
  recoveries : List Journal
  dispatched : List Dispatch
  memory : Memory
  clock : Nat

def World.start : World := ⟨.empty, [], .empty, .empty, [], [], [], ⟨none, none⟩, 0⟩

namespace World

def tick (world : World) : World := { world with clock := world.clock + 1 }

def enqueue (world : World) (job : String) (request : Request) : World :=
  { world with requests := world.requests.set job request }.tick

def store (world : World) (job : String) (journal : Journal) : World :=
  { world with journals := world.journals.set job journal }.tick

def record (world : World) (job : String) (index revision : Nat) : World :=
  { world with observations := world.observations.set (job, index) revision }.tick

def complete (world : World) (job : String) : World :=
  { world with completed := job :: world.completed }.tick

def publish (world : World) (progress : Journal) : World :=
  { world with checkpoints := world.checkpoints ++ [progress] }.tick

def preserve (world : World) (journal : Journal) : World :=
  { world with recoveries := world.recoveries ++ [journal] }.tick

def dispatch (world : World) (call : Dispatch) : World :=
  { world with dispatched := call :: world.dispatched }.tick

def remember (world : World) (memory : Memory) : World := { world with memory := memory }

/-- The update indices of a job that the registry has observed from this one on. -/
def later (world : World) (job : String) (index : Nat) : List ((String × Nat) × Nat) :=
  world.observations.entries.filter fun entry => entry.1.1 = job ∧ index ≤ entry.1.2

end World

/-! ### Calls and writes -/

inductive Failure where
  | crash | raised | recoveryRequired
deriving DecidableEq, Repr

/-- A write may fail before or after it is durable. -/
inductive Written where
  | kept
  | failed (durable : Bool) (failure : Failure)

/-- Everything that the controller does not decide itself, at each of its steps. -/
structure Machine where
  outside : Nat → Option Failure
  write : Nat → Written
  wallExhausted : Nat → Bool
  hasRows : Nat → List Nat → Bool
  nonzero : Nat → Bool
  sameObservation : Nat → Bool

abbrev Process := Effects World Failure

variable (machine : Machine)

def raise {α : Type} (failure : Failure) : Process α := Effects.lift (.error failure)

def require {α : Type} : Option α → Process α
  | some value => pure value
  | none => raise .raised

def check (condition : Prop) [Decidable condition] : Process Unit :=
  if condition then pure () else raise .raised

/-- A call whose effects are no part of the model. -/
def outside : Process Unit := do
  let world ← read
  modify World.tick
  match machine.outside world.clock with
  | none => pure ()
  | some failure => raise failure

/-- A change of the durable state, whose reply may be lost. -/
def durable (change : World → World) : Process Unit := do
  let world ← read
  match machine.write world.clock with
  | .kept => modify change
  | .failed true failure => do
      modify change
      raise failure
  | .failed false failure => do
      modify World.tick
      raise failure

/-- `_write` -/
def write (job : String) (journal : Journal) : Process Unit :=
  durable machine fun world => world.store job journal

/-- `_observe` for native updates: revisions follow each other, a repetition must be the same. -/
def observe (job : String) (index revision : Nat) : Process Unit := do
  let world ← read
  let latest := (world.observations.get? (job, index)).getD 0
  if latest + 1 = revision then durable machine fun world => world.record job index revision
  else if revision ≤ latest ∧ machine.sameObservation world.clock = true then outside machine
  else raise .raised

def remember (change : Memory → Memory) : Process Unit :=
  modify fun world => world.remember (change world.memory)

/-! ### The end of a job -/

/-- Close the live session, if there is one. -/
def closeLive : Process Unit := do
  let world ← read
  if world.memory.live.isSome then do
    outside machine
    remember fun memory => { memory with live := none }
  else pure ()

/-- `_finish` -/
def finish (job : String) (journal : Journal) (disposition : Disposition) : Process Unit := do
  let world ← read
  let current := (journal.checkpoint.bind fun ref => world.checkpoints[ref]?).any fun progress =>
    progress.request = journal.request
  let final : Disposition := if disposition = .success ∧ current = false then .blocked else disposition
  let journal := { journal with phase := .finalizing, finalOutcome := some final }
  write machine job journal
  closeLive machine
  outside machine
  write machine job { journal with phase := .frozen }
  durable machine fun world => world.complete job

/-! ### Groups -/

/-- Sample the episodes of the pending group that are not yet recorded. -/
def sample (job : String) (plan : Nat) : Nat → Nat → Journal → Process Journal
  | 0, _, journal => pure journal
  | remaining + 1, recorded, journal => do
      outside machine
      let journal := { journal with pending := some (plan, recorded + 1) }
      write machine job journal
      sample job plan remaining (recorded + 1) journal

/-- The pending plan, or the next one of the sampler. -/
def drawPlan (job : String) (journal : Journal) : Process Journal :=
  match journal.pending with
  | some _ => pure journal
  | none => do
      let drawn := { journal with pending := some (journal.sampler, 0), sampler := journal.sampler + 1 }
      write machine job drawn
      pure drawn

/-- `_collect` -/
def collect (job : String) (configuration : Configuration) (journal : Journal) : Process Journal :=
  match journal.unclassifiedGroup with
  | some _ => do
      outside machine
      pure journal
  | none => do
      let journal ← drawPlan machine job journal
      match journal.pending with
      | none => raise .raised
      | some (plan, recorded) => do
          check (recorded ≤ configuration.groupSize)
          let journal ← sample machine job plan (configuration.groupSize - recorded) recorded journal
          outside machine
          let journal := { journal with
            groupReceipts := journal.groupReceipts ++ [plan]
            groups := journal.groups + 1
            unclassifiedGroup := some plan
            dataPosition := journal.sampler
            pending := none }
          write machine job journal
          pure journal

/-- Collect groups one after another into the batch. -/
def gather (job : String) (configuration : Configuration) : Nat → Journal → Process Journal
  | 0, journal => pure journal
  | count + 1, journal => do
      let journal ← collect machine job configuration journal
      let journal := { journal with
        batchReceipts := journal.batchReceipts ++ journal.unclassifiedGroup.toList
        unclassifiedGroup := none }
      write machine job journal
      gather job configuration count journal

/-- The groups that the batch still takes within the declared bounds. -/
def missing (configuration : Configuration) (journal : Journal) : Nat :=
  let available : Int := configuration.maxGroups - journal.groups +
    (if journal.unclassifiedGroup.isSome then 1 else 0)
  (min ((configuration.groupsPerUpdate : Int) - journal.batchReceipts.length) available).toNat

/-! ### Updates -/

/-- After a gradient that changed the weights the progress becomes a checkpoint. -/
def publishCheckpoint (job : String) (index : Nat) (journal : Journal) : Process Journal :=
  if journal.nonzeroUpdates ≠ 0 then do
    let world ← read
    durable machine fun world => world.publish journal
    observe machine job index 3
    pure { journal with checkpoint := some world.checkpoints.length }
  else pure journal

/-- The intent, the observation and the optimizer call of an update, up to its reload. -/
def dispatchUpdate (job : String) (journal : Journal) : Process Unit := do
  outside machine
  observe machine job journal.index 1
  modify fun world => world.dispatch ⟨job, journal.index, journal.batchReceipts⟩
  outside machine
  outside machine

/-- The receipts of a confirmed update, whose journal counts it already. -/
def recordUpdate (job : String) (index : Nat) (journal : Journal) : Process Journal := do
  outside machine
  observe machine job index 2
  outside machine
  let journal ← publishCheckpoint machine job index journal
  let journal := { journal with phase := .collecting }
  write machine job journal
  pure journal

/-- `_update` -/
def update (job : String) (journal : Journal) : Process Journal := do
  outside machine
  let journal := { journal with phase := .updating }
  write machine job journal
  dispatchUpdate machine job journal
  let world ← read
  recordUpdate machine job journal.index (journal.confirm (machine.nonzero world.clock))

/-- The loop of `_train`. When the steps run out the process is stopped. -/
def loop (job : String) (configuration : Configuration) : Nat → Journal → Process Unit
  | 0, _ => raise .crash
  | steps + 1, journal => do
      if journal.index < configuration.maxUpdates then do
        let world ← read
        if machine.wallExhausted world.clock = true then finish machine job journal .blocked
        else if configuration.maxGroups ≤ journal.groups ∧ journal.batchReceipts = [] ∧
            journal.unclassifiedGroup = none then finish machine job journal .blocked
        else do
          outside machine
          let journal ← gather machine job configuration (missing configuration journal) journal
          let world ← read
          if machine.hasRows world.clock journal.batchReceipts = true then do
            let journal ← update machine job journal
            loop job configuration steps journal
          else do
            let journal := { journal with batchReceipts := [] }
            write machine job journal
            loop job configuration steps journal
      else if journal.nonzeroUpdates < 1 ∨ journal.checkpoint = none then finish machine job journal .blocked
      else finish machine job journal .success

/-! ### Recovery from a checkpoint -/

/-- The journal that a recovery continues: a superseded one is read from its own receipt. -/
def currentJournal (world : World) (job : String) (journal : Journal) : Option Journal :=
  if journal.phase = .superseded ∧ journal.recoveryClaim = some job then
    journal.recovery.bind fun ref => world.recoveries[ref]?
  else some journal

/-- `_restore_progress` with `validate_recovery_checkpoint` -/
def restoreProgress (job : String) (request : Request) (ref : Nat) : Process Journal := do
  let world ← read
  let progress ← require world.checkpoints[ref]?
  outside machine
  check (progress.request.configuration = request.configuration)
  check (progress.claim ∉ world.completed ∧ world.requests.get? progress.claim = some progress.request)
  check (world.observations.get? (progress.claim, progress.index - 1) = some 3 ∧ 1 ≤ progress.index)
  let later := world.later progress.claim progress.index
  check (∀ entry ∈ later, entry.2 = 1)
  outside machine
  let old ← require (world.journals.get? progress.claim)
  let current ← require (currentJournal world job old)
  check (current.claim = progress.claim ∧ current.request = progress.request ∧
    current.checkpoint = some ref ∧ current.updates = progress.updates ∧
    (current.phase = .updating ∨ current.phase = .collecting ∨ current.phase = .ready))
  let receipt := world.recoveries.length
  durable machine fun world => world.preserve current
  outside machine
  write machine progress.claim (current.supersede job receipt)
  pure (progress.restore current later.length request job ref receipt)

/-- The first journal of a job. -/
def beginJournal (job : String) (request : Request) : Process Journal :=
  match request.resume with
  | none => pure (Journal.fresh request job)
  | some ref => restoreProgress machine job request ref

/-! ### One invocation -/

/-- The startup of a native session, unless one is retained. -/
def openNative (job : String) (journal : Journal) : Process Journal := do
  let world ← read
  if world.memory.opening.isSome then pure journal
  else do
    outside machine
    let journal := { journal with phase := .initializing }
    write machine job journal
    remember fun memory => { memory with opening := some job }
    pure journal

/-- The native session, started anew unless one is retained, and the collecting phase. -/
def startNative (job : String) (journal : Journal) : Process Journal := do
  let world ← read
  if world.memory.live.isSome then pure journal
  else do
    let journal ← openNative machine job journal
    outside machine
    remember fun _ => ⟨none, some job⟩
    pure journal

/-- What follows once the state of the job is known. -/
def proceed (steps : Nat) (job : String) (request : Request) (journal : Journal) : Process Unit := do
  write machine job journal
  outside machine
  if request.resume.isSome ∧ request.configuration.maxUpdates ≤ journal.index then
    finish machine job journal .blocked
  else do
    let journal ← startNative machine job journal
    outside machine
    let journal := { journal with phase := .collecting }
    write machine job journal
    loop machine job request.configuration steps journal

/-- Continue the journal of the job. -/
def continueJournal (steps : Nat) (job : String) (request : Request) (journal : Journal) : Process Unit := do
  check (journal.request = request ∧ journal.claim = job)
  let world ← read
  match journal.phase with
  | .frozen => durable machine fun world => world.complete job
  | .finalizing => finish machine job journal (journal.finalOutcome.getD .blocked)
  | .collecting => proceed machine steps job request journal
  | .ready => proceed machine steps job request journal
  | .initializing =>
      if world.memory.opening = some job then proceed machine steps job request journal
      else raise .recoveryRequired
  | .updating => raise .recoveryRequired
  | .superseded => raise .recoveryRequired

/-- A job is named by its request, so that the same name means the same request. -/
def enqueue (job : String) (request : Request) : Process Unit := do
  let world ← read
  match world.requests.get? job with
  | some enqueued => check (enqueued = request)
  | none => durable machine fun world => world.enqueue job request

/-- `_train` -/
def trainJob (steps : Nat) (job : String) (request : Request) : Process Unit := do
  outside machine
  enqueue machine job request
  let world ← read
  if job ∈ world.completed then pure ()
  else do
    check (world.memory.live.all fun owner => owner = job)
    check (world.memory.opening.all fun owner => owner = job)
    outside machine
    match world.journals.get? job with
    | some journal => continueJournal machine steps job request journal
    | none => do
        let journal ← beginJournal machine job request
        proceed machine steps job request journal

/-- An exception closes the live session; after a crash nothing runs. -/
def leave (failure : Failure) : Process Unit :=
  if failure = .crash then remember fun _ => ⟨none, none⟩
  else closeLive machine

def train (steps : Nat) (job : String) (request : Request) : Process Unit :=
  (trainJob machine steps job request).catching fun failure => do
    leave machine failure
    raise failure

/-! ### Runs -/

/-- An invocation under the lock of the work directory, or a new process. -/
inductive Event where
  | train (steps : Nat) (job : String) (request : Request)
  | restart
deriving DecidableEq, Repr

def World.step (world : World) : Event → World
  | .train steps job request => (TrainingService.train machine steps job request world).2
  | .restart => world.remember ⟨none, none⟩

def World.run (world : World) (events : List Event) : World := events.foldl (World.step machine) world

end TrainingService

end FeatureRl
