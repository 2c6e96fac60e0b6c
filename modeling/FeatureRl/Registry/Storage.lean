import FeatureRl.Lib.Effects
import FeatureRl.Lib.Lines
import FeatureRl.Registry.State

/-!
The event authority in its private directory: a database of events with an index of
materialized records, and a projected journal of lines. A session runs under the writer lock,
so the calls of all processes form one sequence; each durable effect is atomic and a process
may be interrupted before any of them.
-/

namespace FeatureRl

open Checked

/-! ### What the directory holds -/

/-- The absolute path of an artifact store; no path is longer than 4096 characters. -/
abbrev StoreRoot := {path : String // decide (path.toList.length ≤ 4096) = true}

structure EventRow where
  sequence : Nat
  semanticKey : String
  body : Bytes

structure Database where
  configuration : Bytes
  acknowledged : Nat
  events : List EventRow
  records : Dict (String × String) Bytes

inductive DatabaseFile where
  | missing
  | blank
  | tables (database : Database)

/-- The registry directory. `version` stands for the inodes, sizes and change times of its
files: every write advances it. -/
structure Directory where
  lock : Bool
  journal : Option Bytes
  file : DatabaseFile
  version : Nat

namespace Directory

def created : Directory := ⟨false, none, .missing, 0⟩

def database (directory : Directory) : Option Database :=
  match directory.file with
  | .tables database => some database
  | _ => none

def journalBytes (directory : Directory) : Bytes := directory.journal.getD []

def withLock (directory : Directory) : Directory :=
  { directory with lock := true, version := directory.version + 1 }

def withFile (directory : Directory) (file : DatabaseFile) : Directory :=
  { directory with file, version := directory.version + 1 }

def withJournal (directory : Directory) (journal : Bytes) : Directory :=
  { directory with journal := some journal, version := directory.version + 1 }

end Directory

/-- A verified history: the state, the events and their stored lines. -/
structure Loaded where
  state : State
  events : List RegistryEvent
  raw : List Bytes

/-- One client of the registry. -/
structure Handle where
  storeRoot : StoreRoot
  requestedLimits : RegistryLimits
  limits : RegistryLimits
  configuration : Bytes
  snapshot : Option (Nat × Loaded)

/-- The history that a handle verified at this fingerprint. -/
def Handle.verified (handle : Handle) (version : Nat) : Option Loaded :=
  match handle.snapshot with
  | some (fingerprint, loaded) => if fingerprint = version then some loaded else none
  | none => none

/-- `remaining` counts the durable effects before the process is interrupted; `none` is a
process that nothing interrupts. -/
structure World where
  directory : Directory
  handle : Handle
  remaining : Option Nat

abbrev Process := Effects World Failure

def interrupted : Failure :=
  ⟨.io, "registry storage failed; recover/query before retrying work"⟩

def durable (change : Directory → Directory) : Process Unit := fun world =>
  if world.remaining = some 0 then (.error interrupted, world)
  else (.ok (), { world with
    directory := change world.directory
    remaining := world.remaining.map fun count => count - 1 })

def setHandle (change : Handle → Handle) : Process Unit :=
  Effects.modify fun world => { world with handle := change world.handle }

namespace Storage

/-! ### Opening a session -/

def configurationMembers (storeRoot : StoreRoot) (limits : RegistryLimits) : Json.Members :=
  [("version", .int 1), ("limits", RegistryLimits.codec.document limits),
    ("store_root", .str storeRoot.val)]

def config (storeRoot : StoreRoot) (limits : RegistryLimits) : Bytes :=
  (Json.dict (configurationMembers storeRoot limits)).canonical

def configurationMismatch : Failure :=
  ⟨.integrity, "registry configuration/version mismatch"⟩

def isVersionOne : Json → Bool
  | .int version => version = 1
  | _ => false

def readConfiguration (storeRoot : StoreRoot) (text : Bytes) : Outcome RegistryLimits := do
  refuse (65536 < text.length) configurationMismatch
  let configuration ← require (Json.loads text) configurationMismatch
  match configuration with
  | .obj members => do
      refuse (State.hasShape members ["version", "limits", "store_root"] = false ∨
          isVersionOne (member members "version") = false ∨
          State.matchesText storeRoot.val (member members "store_root") = false ∨
          (Json.obj members).canonical ≠ text) configurationMismatch
      require (RegistryLimits.codec.validate (member members "limits")) configurationMismatch
  | _ => .error configurationMismatch

/-- The schema's absolute ceiling for a file. -/
def fileCeiling : Nat := 1073741824

/-- The capacity check on the journal file. -/
def shape (capacity : Nat) : Process Unit := do
  let world ← Effects.read
  Effects.lift (refuse (capacity < world.directory.journalBytes.length)
    ⟨.limit, "registry file capacity exceeded"⟩)

def ensureLock : Process Unit := do
  let world ← Effects.read
  match world.directory.lock, world.directory.file with
  | true, _ => pure ()
  | false, .missing => durable Directory.withLock
  | false, _ =>
      Effects.lift (.error ⟨.integrity, "writer lock missing beside existing database"⟩)

def ensureJournal : Process Unit := do
  let world ← Effects.read
  match world.directory.journal with
  | some _ => pure ()
  | none => do
      Effects.lift (refuse (world.directory.database.isSome = true)
        ⟨.integrity, "journal missing beside existing database; preserve and reconcile"⟩)
      durable fun directory => directory.withJournal []

def ensureFile : Process Unit := do
  let world ← Effects.read
  match world.directory.file with
  | .missing => do
      Effects.lift (refuse (world.directory.journalBytes ≠ [])
        ⟨.integrity, "database missing beside nonempty journal"⟩)
      durable fun directory => directory.withFile .blank
  | _ => pure ()

def createTables : Process Unit := do
  let world ← Effects.read
  match world.directory.database with
  | some _ => pure ()
  | none => do
      Effects.lift (refuse (world.directory.journalBytes ≠ [])
        ⟨.integrity, "uninitialized database has existing journal history"⟩)
      durable fun directory =>
        directory.withFile (.tables ⟨world.handle.configuration, 0, [], Dict.empty⟩)

def adoptConfiguration : Process Unit := do
  let world ← Effects.read
  let database ← Effects.lift (require world.directory.database
    ⟨.integrity, "unexpected SQLite schema"⟩)
  let limits ← Effects.lift (readConfiguration world.handle.storeRoot database.configuration)
  setHandle fun handle => { handle with limits, configuration := database.configuration }

/-- Create what is missing in the directory. -/
def prepare : Process Unit := do
  shape fileCeiling
  ensureLock
  ensureJournal
  ensureFile
  createTables

/-- What every call does once it holds the writer lock. -/
def session : Process Unit := do
  prepare
  adoptConfiguration
  let world ← Effects.read
  shape world.handle.limits.maxJournalBytes

/-! ### Loading the history -/

def genesis : Digest := ⟨String.ofList (List.replicate 64 '0'), by decide⟩

def previousOf (events : List RegistryEvent) : Digest :=
  (events.getLast?.map RegistryEvent.eventId).getD genesis

def eventIdentity (sha256 : Bytes → Digest) (event : RegistryEvent) : Digest :=
  identity sha256 (Json.dict (RegistryEvent.unsigned.members event.content))

def eventLine (event : RegistryEvent) : Bytes := RegistryEvent.codec.dump event ++ [10]

def readRow (sha256 : Bytes → Digest) (events : List RegistryEvent) (row : EventRow) :
    Outcome (List RegistryEvent) := do
  let event ← require (RegistryEvent.codec.validateJson row.body) invalid
  refuse (row.sequence ≠ events.length + 1 ∨ event.sequence ≠ row.sequence ∨
      event.semanticKey.val ≠ row.semanticKey ∨ event.previous ≠ previousOf events ∨
      eventLine event ≠ row.body ∨ event.eventId ≠ eventIdentity sha256 event)
    ⟨.integrity, "event ordering, canonical bytes or hash chain mismatch"⟩
  .ok (events ++ [event])

def isExpansion (event : RegistryEvent) : Bool := event.action = .expandLimits

/-- The limits before the first expansion. -/
def initialLimits (limits : RegistryLimits) (events : List RegistryEvent) :
    Outcome RegistryLimits :=
  match events.find? isExpansion with
  | none => .ok limits
  | some event => do
      let previous ← require (event.data.val.lookup "previous_limits")
        ⟨.lookup, "previous_limits"⟩
      validated RegistryLimits.codec previous

def replayEvent (sha256 : Bytes → Digest) (carried : State × List RegistryLimits)
    (event : RegistryEvent) : Outcome (State × List RegistryLimits) := do
  let next ← carried.1.apply sha256 event.action event.data.val
  .ok (next, if isExpansion event then carried.2 ++ [next.limits] else carried.2)

def invalidHistory : Failure := ⟨.integrity, "invalid authoritative event history"⟩

/-- Validation failures, lookup failures and conflicts make the history invalid. -/
def wrapHistory {α : Type} : Outcome α → Outcome α
  | .ok value => .ok value
  | .error failure =>
      match failure.kind with
      | .validation | .lookup | .conflict | .claimConflict | .staleClaim | .quarantined =>
          .error invalidHistory
      | _ => .error failure

def longest (bodies : List Bytes) : Nat := (bodies.map List.length).foldr max 0

def totalSize (bodies : List Bytes) : Nat := (bodies.map List.length).sum

def checkRecordBounds (limits : RegistryLimits) (bodies : List Bytes) : Outcome Unit :=
  refuse (limits.maxArtifacts.val + limits.maxJobs.val + limits.maxEvents.val * 2 < bodies.length ∨
      limits.maxJournalBytes.val * 4 < totalSize bodies ∨
      limits.maxEventBytes.val < longest bodies)
    ⟨.limit, "materialized index exceeds configured bounds"⟩

def checkHistoryBounds (limits : RegistryLimits) (bodies : List Bytes) : Outcome Unit :=
  refuse (limits.maxEvents.val < bodies.length ∨
      limits.maxJournalBytes.val < totalSize bodies ∨
      limits.maxEventBytes.val < longest bodies)
    ⟨.limit, "authoritative history exceeds configured bounds"⟩

/-- The events, their final state and the chain of limits. -/
def replay (sha256 : Bytes → Digest) (limits requested : RegistryLimits) (rows : List EventRow) :
    Outcome (List RegistryEvent × State) := do
  let events ← foldAll (readRow sha256) [] rows
  let initial ← initialLimits limits events
  let replayed ← foldAll (replayEvent sha256) (State.empty initial, [initial]) events
  refuse (replayed.1.limits ≠ limits ∨ requested ∉ replayed.2)
    ⟨.integrity, "registry limits drift from the audited capacity chain"⟩
  .ok (events, replayed.1)

def load (sha256 : Bytes → Digest) (limits requested : RegistryLimits) (database : Database) :
    Outcome Loaded := do
  let raw := database.events.map EventRow.body
  checkHistoryBounds limits raw
  let replayed ← wrapHistory (replay sha256 limits requested database.events)
  checkRecordBounds limits database.records.values
  refuse (replayed.2.rows.sameItems database.records = false)
    ⟨.integrity, "materialized index differs from authoritative history"⟩
  .ok ⟨replayed.2, replayed.1, raw⟩

/-! ### Projecting the journal -/

/-- Compare the journal with the committed lines: what it lacks, and the torn piece at its
end. -/
def checkJournal (raw : List Bytes) (acknowledged : Nat) (original : Bytes) :
    Outcome (Bytes × Bytes) := do
  let complete := (Lines.split original).1
  let tail := (Lines.split original).2
  refuse (complete.length < acknowledged ∨ raw.length < acknowledged)
    ⟨.integrity, "acknowledged journal history is missing; preserve and block"⟩
  refuse (raw.length < complete.length ∨ complete ≠ raw.take complete.length)
    ⟨.integrity, "journal differs from committed outbox; preserve and block"⟩
  refuse (tail ≠ [] ∧ (complete.length = raw.length ∨
      ¬ tail <+: (raw[complete.length]?).getD []))
    ⟨.integrity, "unknown or corrupt journal tail; preserve and block"⟩
  .ok ((raw.drop complete.length).flatten.drop tail.length, tail)

/-- A write may stop after any byte. -/
def writeAll : Bytes → Process Unit
  | [] => pure ()
  | byte :: rest => do
      durable fun directory => directory.withJournal (directory.journalBytes ++ [byte])
      writeAll rest

def setAcknowledged (count : Nat) (directory : Directory) : Directory :=
  match directory.file with
  | .tables database => directory.withFile (.tables { database with acknowledged := count })
  | _ => directory

def project (raw : List Bytes) : Process RecoveryReport := do
  let world ← Effects.read
  let original ← Effects.lift (require world.directory.journal interrupted)
  Effects.lift (refuse (world.handle.limits.maxJournalBytes.val < original.length)
    ⟨.limit, "registry file exceeds configured byte limit"⟩)
  let database ← Effects.lift (require world.directory.database interrupted)
  let pieces ← Effects.lift (checkJournal raw database.acknowledged original)
  writeAll pieces.1
  durable (setAcknowledged raw.length)
  pure ⟨raw.length, pieces.1.length, pieces.2.length⟩

/-- Keep a verified history under the directory's fingerprint. -/
def remember (loaded : Loaded) : Process Unit := do
  let world ← Effects.read
  setHandle fun handle => { handle with snapshot := some (world.directory.version, loaded) }

def recovered (sha256 : Bytes → Digest) : Process (Loaded × RecoveryReport) := do
  let world ← Effects.read
  match world.handle.verified world.directory.version with
  | some loaded => pure (loaded, ⟨loaded.raw.length, 0, 0⟩)
  | none => do
      let database ← Effects.lift (require world.directory.database interrupted)
      let loaded ← Effects.lift (load sha256 world.handle.limits world.handle.requestedLimits database)
      let report ← project loaded.raw
      remember loaded
      pure (loaded, report)

def recover (sha256 : Bytes → Digest) : Process RecoveryReport := do
  session
  let (_, report) ← recovered sha256
  pure report

def view {α : Type} (sha256 : Bytes → Digest)
    (reader : State → List RegistryEvent → Outcome α) : Process α := do
  session
  let (loaded, _) ← recovered sha256
  Effects.lift (reader loaded.state loaded.events)

/-! ### Changing the registry -/

/-- What a builder asks to append. -/
structure Request where
  action : Action
  key : String
  data : EventData

abbrev Builder := State → Outcome (Option Request)

def withoutArtifacts (data : EventData) : Json :=
  .obj (data.val.filter fun member => member.1 ≠ "artifacts")

/-- The artifact records of a payload. -/
def payloadRecords (data : EventData) : Outcome (List ArtifactRecord) := do
  let listed ← require (data.val.lookup "artifacts") ⟨.lookup, "artifacts"⟩
  let items ← State.iterate listed
  require (Codec.validateAll ArtifactRecord.codec.validate items) invalid

def recordsByDigest (records : List ArtifactRecord) : Dict Digest ArtifactRecord :=
  records.foldl (fun found record => found.set record.ref.sha256 record) Dict.empty

/-- A request under a key that an event already has must repeat that event. -/
def checkReissue (state : State) (prior : RegistryEvent) (request : Request) : Outcome Unit := do
  let submitted ← payloadRecords request.data
  let stored ← payloadRecords prior.data
  let records := recordsByDigest submitted
  refuse (prior.action ≠ request.action ∨
      (withoutArtifacts prior.data).canonical ≠ (withoutArtifacts request.data).canonical ∨
      records.entries.any (fun entry => state.artifacts.get? entry.1 ≠ some entry.2) = true ∨
      stored.any (fun record => records.get? record.ref.sha256 ≠ some record) = true)
    ⟨.conflict, "semantic event key reused with different content"⟩

/-- A record that the state does not hold in this form. -/
def isNew (state : State) (item : Json) : Bool :=
  match ArtifactRecord.codec.validate item with
  | none => true
  | some record => state.artifacts.get? record.ref.sha256 ≠ some record

def keepItems (keep : Json → Bool) : Json → Json
  | .arr items => .arr (items.filter keep)
  | _ => .arr []

def keepArtifacts (keep : Json → Bool) (member : String × Json) : String × Json :=
  if member.1 = "artifacts" then (member.1, keepItems keep member.2) else member

theorem normal_keepArtifacts (keep : Json → Bool) (data : EventData) :
    (Json.obj (data.val.map (keepArtifacts keep))).normal = true := by
  have same : (data.val.map (keepArtifacts keep)).map Prod.fst = data.val.map Prod.fst := by
    rw [List.map_map]
    refine List.map_congr_left fun member _ => ?_
    simp only [Function.comp_apply, keepArtifacts]
    split <;> rfl
  have formed := data.property
  simp only [Json.normal, Bool.and_eq_true, Json.normalMembers_iff, Json.sortedKeys] at formed ⊢
  refine ⟨by rw [same]; exact formed.1, ?_⟩
  intro member found
  obtain ⟨old, before, rfl⟩ := List.mem_map.mp found
  have kept := formed.2 old before
  simp only [keepArtifacts]
  split
  next =>
    cases value : old.2 with
    | arr items =>
        rw [value, Json.normal, Json.normalItems_iff] at kept
        simp only [keepItems, Json.normal, Json.normalItems_iff]
        exact fun item inside => kept item (List.mem_of_mem_filter inside)
    | _ => rfl
  next => exact kept

/-- The payload of a new event: only records that are new, or that differ from a known one. -/
def compact (state : State) (data : EventData) : Outcome EventData := do
  let _ ← payloadRecords data
  .ok ⟨data.val.map (keepArtifacts (isNew state)), normal_keepArtifacts _ data⟩

def nextEvent (sha256 : Bytes → Digest) (events : List RegistryEvent) (key : SemanticKey)
    (now : Timestamp) (action : Action) (data : EventData) : RegistryEvent :=
  let content := (events.length + 1, previousOf events, key, now, action, data)
  ⟨events.length + 1, identity sha256 (Json.dict (RegistryEvent.unsigned.members content)),
    previousOf events, key, now, action, data, Nat.le_add_left 1 _⟩

def rowOf (event : RegistryEvent) : EventRow :=
  ⟨event.sequence, event.semanticKey.val, eventLine event⟩

/-- The transaction that makes an event durable. -/
def persist (event : RegistryEvent) (state : State) (storeRoot : StoreRoot) (database : Database) :
    Database :=
  { database with
    configuration :=
      if event.action = .expandLimits then config storeRoot state.limits
      else database.configuration
    events := database.events ++ [rowOf event]
    records := state.rows }

def commit (event : RegistryEvent) (state : State) : Process Unit := do
  let world ← Effects.read
  let database ← Effects.lift (require world.directory.database interrupted)
  Effects.lift (checkRecordBounds world.handle.limits state.rows.values)
  durable fun directory =>
    directory.withFile (.tables (persist event state world.handle.storeRoot database))
  setHandle fun handle => { handle with configuration := config handle.storeRoot state.limits }

/-- Publish a committed event in the journal. -/
def publish (event : RegistryEvent) (loaded : Loaded) (state : State) : Process State := do
  let raw := loaded.raw ++ [eventLine event]
  let _ ← project raw
  let world ← Effects.read
  shape world.handle.limits.maxJournalBytes
  remember ⟨state, loaded.events ++ [event], raw⟩
  pure state

/-- An expansion is applied first, so that its own event counts against the new limits. -/
def expandFirst (sha256 : Bytes → Digest) (state : State) (action : Action) (data : EventData) :
    Process State :=
  if action = .expandLimits then do
    let next ← Effects.lift (state.apply sha256 action data.val)
    setHandle fun handle => { handle with limits := next.limits }
    pure next
  else pure state

def applyRest (sha256 : Bytes → Digest) (state : State) (action : Action) (data : EventData) :
    Outcome State :=
  if action = .expandLimits then .ok state else state.apply sha256 action data.val

/-- Append an event to the state in which an expansion is already applied. -/
def record (sha256 : Bytes → Digest) (loaded : Loaded) (request : Request) (now : Timestamp)
    (data : EventData) (expanded : State) : Process State := do
  let world ← Effects.read
  Effects.lift (refuse (world.handle.limits.maxEvents.val ≤ loaded.events.length)
    ⟨.limit, "event capacity exceeded"⟩)
  let key ← Effects.lift (require (Codec.check isSemanticKey request.key) invalid)
  let event := nextEvent sha256 loaded.events key now request.action data
  Effects.lift (refuse (world.handle.limits.maxEventBytes.val < (eventLine event).length ∨
      world.handle.limits.maxJournalBytes.val < totalSize loaded.raw + (eventLine event).length)
    ⟨.limit, "event or journal byte capacity exceeded"⟩)
  let next ← Effects.lift (applyRest sha256 expanded request.action data)
  commit event next
  publish event loaded next

/-- Append a request whose key is new. -/
def append (sha256 : Bytes → Digest) (loaded : Loaded) (request : Request) (now : Timestamp) :
    Process State := do
  let data ← Effects.lift (compact loaded.state request.data)
  let expanded ← expandFirst sha256 loaded.state request.action data
  record sha256 loaded request now data expanded

def change (sha256 : Bytes → Digest) (builder : Builder) (now : Timestamp) : Process State := do
  session
  let (loaded, _) ← recovered sha256
  let built ← Effects.lift (builder loaded.state)
  match built with
  | none => pure loaded.state
  | some request =>
      match loaded.events.find? fun event => event.semanticKey.val = request.key with
      | some prior => do
          Effects.lift (checkReissue loaded.state prior request)
          pure loaded.state
      | none => append sha256 loaded request now

/-- The request of a capacity expansion. -/
def expansionData (expansion : LimitExpansion) : EventData :=
  EventData.ofMembers (("artifacts", .arr []) :: LimitExpansion.fields.members expansion)
    (by
      rw [List.map_cons, LimitExpansion.fields.members_keys]
      decide)
    (by
      intro member found
      rcases List.mem_cons.mp found with rfl | listed
      · rfl
      · exact LimitExpansion.fields.normal expansion member listed)

def buildExpansion (sha256 : Bytes → Digest) (limits : RegistryLimits) (reason : String) : Builder :=
  fun state =>
    if state.limits = limits then .ok none
    else do
      let expansion ← require ((Codec.check isReason reason).bind
        (LimitExpansion.build state.limits limits)) ⟨.conflict, "invalid capacity expansion"⟩
      .ok (some ⟨.expandLimits,
        "expand_limits/" ++ (identity sha256 (RegistryLimits.codec.document limits)).val,
        expansionData expansion⟩)

def expandLimits (sha256 : Bytes → Digest) (limits : RegistryLimits) (reason : String)
    (now : Timestamp) : Process RegistryLimits := do
  let state ← change sha256 (buildExpansion sha256 limits reason) now
  pure state.limits

end Storage

/-! ### Calls -/

/-- A client that has not opened the registry yet. -/
def Handle.created (storeRoot : StoreRoot) (limits : RegistryLimits) : Handle :=
  ⟨storeRoot, limits, limits, Storage.config storeRoot limits, none⟩

/-- The directory and the handles of all processes, in the order they were opened. -/
structure System where
  directory : Directory
  handles : List Handle

inductive Call where
  | open (storeRoot : StoreRoot) (limits : RegistryLimits)
  | recover (handle : Nat)
  | view (handle : Nat) (reader : State → List RegistryEvent → Outcome Unit)
  | change (handle : Nat) (builder : Storage.Builder) (now : Timestamp)

namespace System

def created : System := ⟨Directory.created, []⟩

/-- Run a call of one handle, which keeps what the call did to it. -/
def within {α : Type} (system : System) (index : Nat) (remaining : Option Nat)
    (process : Process α) : System :=
  match system.handles[index]? with
  | none => system
  | some handle =>
      let world := (process ⟨system.directory, handle, remaining⟩).2
      ⟨world.directory, system.handles.set index world.handle⟩

/-- One call, interrupted after `remaining` durable effects if it gets that far. -/
def perform (sha256 : Bytes → Digest) (system : System) (call : Call × Option Nat) : System :=
  match call.1 with
  | .open storeRoot limits =>
      match Storage.recover sha256
          ⟨system.directory, Handle.created storeRoot limits, call.2⟩ with
      | (.ok _, world) => ⟨world.directory, system.handles ++ [world.handle]⟩
      | (.error _, world) => { system with directory := world.directory }
  | .recover index => system.within index call.2 (Storage.recover sha256)
  | .view index reader => system.within index call.2 (Storage.view sha256 reader)
  | .change index builder now => system.within index call.2 (Storage.change sha256 builder now)

def run (sha256 : Bytes → Digest) (calls : List (Call × Option Nat)) : System :=
  calls.foldl (perform sha256) created

end System

end FeatureRl
