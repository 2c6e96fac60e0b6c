import FeatureRl.Registry.Runs

/-!
Crash recovery of the journal. Whatever the processes do and wherever they are interrupted,
the journal is a prefix of the committed lines; recovery completes it, and refuses every
journal that is no such prefix.
-/

namespace FeatureRl

open Checked Effects

namespace Storage

variable {sha256 : Bytes → Digest} {world : World} {storeRoot : StoreRoot} {database : Database}
  {loaded : Loaded} {capacities : List RegistryLimits} {journal : Bytes}

/-- The lines that the committed events make in the journal. -/
def committedLines (database : Database) : List Bytes := database.events.map EventRow.body

/-- Recovery by this handle succeeds and publishes exactly the committed events. -/
def Completes (sha256 : Bytes → Digest) (directory : Directory) (database : Database)
    (handle : Handle) : Prop :=
  ∃ report after, recover sha256 ⟨directory, handle, none⟩ = (.ok report, after) ∧
    report.eventCount = database.events.length ∧
    after.directory.journal = some (committedLines database).flatten ∧
    after.directory.database = some (acknowledge database database.events.length)

/-- Recovery by this handle raises and writes nothing. -/
def Blocks (sha256 : Bytes → Digest) (directory : Directory) (handle : Handle) : Prop :=
  ∀ remaining, ∃ failure after, recover sha256 ⟨directory, handle, remaining⟩ = (.error failure, after) ∧
    after.directory = directory

/-- Recovery by a client that nothing interrupts. -/
theorem recover_recovers {directory : Directory} {handle : Handle}
    (recorded : Recorded sha256 directory storeRoot database loaded capacities journal)
    (client : Client directory storeRoot database loaded capacities journal handle) :
    (recover sha256).Ends ⟨directory, handle, none⟩
      (fun report after => report.eventCount = loaded.raw.length ∧ Recovers sha256 storeRoot database
        loaded capacities (inSession ⟨directory, handle, none⟩ storeRoot loaded) after)
      (fun _ _ => False) := by
  have started : Recorded sha256 (World.mk directory handle none).directory storeRoot database loaded
      capacities journal := recorded
  rw [recover]
  refine open_ends started client.toFaithful ?_ ?_ ?_
  · intro after report recovers counted
    rw [ends_pure]
    exact ⟨counted, recovers⟩
  · intro after torn
    exact torn.remaining rfl
  · intro after _ _ _ _ foreign
    exact absurd ⟨client.rooted, client.admitted⟩ foreign

/-- A client that nothing interrupts completes the journal. -/
theorem Client.completes {directory : Directory} {handle : Handle}
    (client : Client directory storeRoot database loaded capacities journal handle)
    (recorded : Recorded sha256 directory storeRoot database loaded capacities journal) :
    Completes sha256 directory database handle := by
  have lines : committedLines database = loaded.raw := recorded.committed.bodies
  have count : database.events.length = loaded.raw.length := by
    rw [← lines, committedLines, List.length_map]
  obtain ⟨report, after, outcome, counted, recovers⟩ := ok_of_ends (recover_recovers recorded client)
  refine ⟨report, after, outcome, counted.trans count.symm, ?_, ?_⟩
  · rw [lines]
    exact recovers.settled.journal_eq
  · rw [count]
    exact recovers.settled.database_eq

/-- The journal of a directory, changed from outside. -/
def replaced (directory : Directory) (journal : Option Bytes) : Directory :=
  { directory with journal, version := directory.version + 1 }

theorem project_blocks {after : World} (raw : List Bytes) (file : after.directory.file = .tables database)
    (other : ∀ journal, after.directory.journal = some journal →
      ¬ Journaled raw database.acknowledged journal)
    {done : RecoveryReport → World → Prop} {failed : Failure → World → Prop}
    (blocked : ∀ failure, failed failure after) : (project raw).Ends after done failed := by
  have found : after.directory.database = some database := by rw [Directory.database, file]
  simp only [project, ends_bind, ends_read]
  rw [ends_lift]
  refine ⟨fun original present => ?_, fun failure _ => blocked failure⟩
  rw [ends_refuse]
  refine ⟨fun _ => blocked _, fun _ => ?_⟩
  simp only [found, require, ends_lift_ok]
  rw [ends_lift]
  refine ⟨fun pieces checked => ?_, fun failure _ => blocked failure⟩
  exact absurd (journaled_of_checkJournal checked) (other original (require_eq_ok.mp present))

/-- Preparing a directory whose database exists writes nothing. -/
theorem prepare_tables (locked : world.directory.lock = true)
    (file : world.directory.file = .tables database)
    {done : Unit → World → Prop} {failed : Failure → World → Prop} (passes : done () world)
    (blocked : ∀ failure, failed failure world) : prepare.Ends world done failed := by
  have found : world.directory.database = some database := by rw [Directory.database, file]
  rw [prepare, ends_bind, ends_shape]
  refine ⟨fun _ => blocked _, fun _ => ?_⟩
  rw [ends_bind, ensureLock, ends_bind, ends_read]
  simp only [locked, ends_pure]
  rw [ends_bind, ensureJournal, ends_bind, ends_read]
  have rest : (do ensureFile; createTables : Process Unit).Ends world done failed := by
    simp only [ensureFile, createTables, ends_bind, ends_read, file, found, ends_pure]
    exact passes
  cases written : world.directory.journal with
  | some journal =>
      rw [ends_pure]
      exact rest
  | none =>
      rw [ends_bind, ends_refuse, found]
      exact ⟨fun _ => blocked _, fun missing => absurd rfl missing⟩

/-- Recovery refuses a journal that is no prefix of the committed lines. -/
theorem Recorded.blocks {directory : Directory} {handle : Handle}
    (older : ∀ version kept, handle.snapshot = some (version, kept) → version ≤ directory.version)
    (recorded : Recorded sha256 directory storeRoot database loaded capacities journal)
    {content : Option Bytes}
    (other : ∀ journal, content = some journal → ¬ Journaled loaded.raw database.acknowledged journal) :
    Blocks sha256 (replaced directory content) handle := by
  intro remaining
  have file : (replaced directory content).file = .tables database := recorded.file
  have stored : (replaced directory content).database = some database := recorded.database_eq
  have ends : (recover sha256).Ends ⟨replaced directory content, handle, remaining⟩
      (fun _ _ => False) (fun _ after => after.directory = replaced directory content) := by
    rw [recover, session, ends_bind, ends_bind]
    refine prepare_tables recorded.lock file ?_ (fun _ => rfl)
    simp only [adoptConfiguration, ends_bind, ends_read, stored, require, ends_lift_ok,
      recorded.committed.configuration]
    rw [ends_lift]
    refine ⟨fun limits accepted => ?_, fun _ _ => rfl⟩
    obtain ⟨_, rfl⟩ := readConfiguration_eq_ok.mp accepted
    rw [ends_setHandle, ends_shape]
    refine ⟨fun _ => rfl, fun _ => ?_⟩
    have unverified : handle.verified (replaced directory content).version = none := by
      refine Option.eq_none_iff_forall_ne_some.mpr fun kept verified => ?_
      have bounded := older _ kept (verified_eq_some.mp verified)
      exact absurd bounded (Nat.not_le.mpr (Nat.lt_succ_self _))
    rw [recovered, ends_bind, ends_read]
    simp only [Handle.verified] at unverified ⊢
    simp only [unverified, ends_bind, stored, require, ends_lift_ok, recorded.committed.load_eq]
    by_cases admitted : handle.requestedLimits ∈ capacities
    · rw [if_pos admitted, ends_lift_ok]
      exact project_blocks loaded.raw file (fun journal same => other journal same) (fun _ => rfl)
    · rw [if_neg admitted, ends_lift_error]
  exact error_of_ends ends

end Storage

namespace System

open Storage

variable {sha256 : Bytes → Digest}

/-- The durable files of a system agree, and recovery keeps them so. -/
structure CrashRecovery (sha256 : Bytes → Digest) (system : System) (database : Database) : Prop where
  counted : database.acknowledged ≤ database.events.length
  begins : system.directory.journalBytes <+: (committedLines database).flatten
  kept : ((committedLines database).take database.acknowledged).flatten <+:
    system.directory.journalBytes
  completes : ∀ handle ∈ system.handles, Completes sha256 system.directory database handle
  reopens : ∃ storeRoot limits, Completes sha256 system.directory database
    (Handle.created storeRoot limits)
  blocks : ∀ content : Option Bytes,
    (∀ journal, content = some journal →
      ¬ (journal <+: (committedLines database).flatten ∧
        ((committedLines database).take database.acknowledged).flatten <+: journal)) →
    (∀ handle ∈ system.handles, Blocks sha256 (replaced system.directory content) handle) ∧
      ∀ storeRoot limits, Blocks sha256 (replaced system.directory content)
        (Handle.created storeRoot limits)

variable {system : System} {storeRoot : StoreRoot} {database : Database} {loaded : Loaded}
  {capacities : List RegistryLimits} {journal : Bytes}

theorem created_client {directory : Directory}
    {limits : RegistryLimits} (known : limits ∈ capacities) :
    Client directory storeRoot database loaded capacities journal (Handle.created storeRoot limits) := by
  refine ⟨⟨?_, ?_⟩, rfl, known⟩
  · intro version kept snapshot
    cases snapshot
  · intro kept snapshot
    cases snapshot

theorem Running.crashRecovery
    (running : Running sha256 system storeRoot database loaded capacities journal) :
    CrashRecovery sha256 system database := by
  have recorded := running.recorded
  have lines : committedLines database = loaded.raw := recorded.committed.bodies
  have count : database.events.length = loaded.raw.length := by
    rw [← lines, committedLines, List.length_map]
  obtain ⟨initial, history⟩ := recorded.committed.history
  refine ⟨?_, ?_, ?_, ?_, ?_, ?_⟩
  · rw [count]
    exact recorded.journaled.counted
  · rw [recorded.journalBytes_eq, lines]
    exact recorded.journaled.begins
  · rw [recorded.journalBytes_eq, lines]
    exact recorded.journaled.kept
  · intro handle known
    exact (running.clients handle known).completes recorded
  · exact ⟨storeRoot, initial, (created_client history.initial_mem).completes recorded⟩
  · intro content other
    have unfit : ∀ journal, content = some journal →
        ¬ Journaled loaded.raw database.acknowledged journal := by
      intro journal same journaled
      rw [lines] at other
      exact other journal same ⟨journaled.begins, journaled.kept⟩
    refine ⟨fun handle known => ?_, fun root limits => ?_⟩
    · exact recorded.blocks (running.clients handle known).older unfit
    · refine recorded.blocks (fun version kept snapshot => ?_) unfit
      cases snapshot

/-- For every sequence of calls, each interrupted after any number of durable effects: the
journal is a prefix of the committed lines that holds the acknowledged ones, recovery
completes it and refuses any other journal, and later calls only append events. -/
theorem run_crashRecovery (sha256 : Bytes → Digest) (calls more : List (Call × Option Nat))
    (database : Database) (stored : (run sha256 calls).directory.database = some database) :
    CrashRecovery sha256 (run sha256 calls) database ∧
      ∃ later, (run sha256 (calls ++ more)).directory.database = some later ∧
        database.events <+: later.events := by
  rcases @run_running sha256 calls with unopened | ⟨root, found, loaded, capacities, journal,
    running⟩
  · rw [unopened.fresh.file] at stored
    cases stored
  · obtain rfl := Option.some.inj (stored.symm.trans running.recorded.database_eq)
    refine ⟨running.crashRecovery, ?_⟩
    obtain ⟨later, next, _, _, ends, appended, _⟩ := running.continues more
    refine ⟨later, ?_, ?_⟩
    · rw [run_append]
      exact ends.recorded.database_eq
    · rw [running.recorded.committed.rows, ends.recorded.committed.rows]
      exact appended.map rowOf

/-- Opening a handle that nothing interrupts creates the registry. -/
theorem recover_opens (sha256 : Bytes → Digest) (storeRoot : StoreRoot) (limits : RegistryLimits) :
    ∃ report after,
      recover sha256 ⟨Directory.created, Handle.created storeRoot limits, none⟩ = (.ok report, after) ∧
        Opens sha256 storeRoot limits ⟨Directory.created, Handle.created storeRoot limits, none⟩ after := by
  have opened : (recover sha256).Ends ⟨Directory.created, Handle.created storeRoot limits, none⟩
      (fun _ after => Opens sha256 storeRoot limits
        ⟨Directory.created, Handle.created storeRoot limits, none⟩ after) (fun _ _ => False) := by
    refine recover_fresh unopened_created.fresh rfl ?_ ?_ ?_
    · intro after report opens
      exact opens
    · intro after database journal interrupts
      exact absurd rfl interrupts
    · intro after interrupts
      exact absurd rfl interrupts
  exact ok_of_ends opened

theorem run_open (sha256 : Bytes → Digest) (storeRoot : StoreRoot) (limits : RegistryLimits) :
    ∃ directory handle, run sha256 [(.open storeRoot limits, none)] = ⟨directory, [handle]⟩ ∧
      directory.database = some ⟨config storeRoot limits, 0, [], Dict.empty⟩ := by
  obtain ⟨report, after, opened, opens⟩ := recover_opens sha256 storeRoot limits
  refine ⟨after.directory, after.handle, ?_, opens.settled.database_eq⟩
  simp only [run, List.foldl_cons, List.foldl_nil, System.perform, System.created, opened,
    List.nil_append]

/-- The store that the examples open. -/
def sampleRoot : StoreRoot := ⟨"/store", rfl⟩

theorem run_crashRecovery_sample :
    let calls := [(Call.open sampleRoot RegistryLimits.default, none)]
    ∃ database, CrashRecovery (fun _ => genesis) (run (fun _ => genesis) calls) database ∧
      ∃ later, (run (fun _ => genesis) (calls ++ [(.recover 0, some 0)])).directory.database =
        some later ∧ database.events <+: later.events := by
  obtain ⟨directory, handle, ran, stored⟩ :=
    run_open (fun _ => genesis) sampleRoot RegistryLimits.default
  exact ⟨_, run_crashRecovery _ _ _ _ (by rw [ran]; exact stored)⟩

end System

end FeatureRl
