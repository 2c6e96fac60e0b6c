import FeatureRl.Registry.Recovery

/-!
Runs of several processes over one directory. Every call leaves a directory in which the
journal is a prefix of the committed lines and every handle is still a client.
-/

namespace FeatureRl

open Checked Effects

namespace Storage

variable {sha256 : Bytes → Digest} {world : World} {storeRoot : StoreRoot} {database : Database}
  {loaded : Loaded} {capacities : List RegistryLimits} {journal : Bytes}

/-- A new client of other limits than those of the chain is refused. -/
theorem recovered_unknown
    (recorded : Recorded sha256 world.directory storeRoot database loaded capacities journal)
    (limited : world.handle.limits = loaded.state.limits) (fresh : world.handle.snapshot = none)
    (unknown : world.handle.requestedLimits ∉ capacities)
    {done : Loaded × RecoveryReport → World → Prop} {failed : Failure → World → Prop}
    (refused : ∀ failure, failed failure world) : (recovered sha256).Ends world done failed := by
  have unverified : world.handle.verified world.directory.version = none := by
    rw [Handle.verified, fresh]
  simp only [recovered, ends_bind, ends_read, unverified, recorded.database_eq, require, ends_lift_ok,
    limited, recorded.committed.load_eq]
  rw [if_neg unknown, ends_lift_error]
  exact refused _

/-! ### Calls of a client -/

/-- How a call of a client leaves a world. -/
structure Leaves (sha256 : Bytes → Digest) (storeRoot : StoreRoot) (loaded : Loaded)
    (capacities : List RegistryLimits) (world after : World) (second : Database) (next : Loaded)
    (later : List RegistryLimits) (journal : Bytes) : Prop where
  recorded : Recorded sha256 after.directory storeRoot second next later journal
  client : Client after.directory storeRoot second next later journal after.handle
  advances : Advances world.directory after.directory
  grows : Grows sha256 loaded capacities next later
  kept : after.directory = world.directory → next = loaded

/-- A world with this history that a call of a client leaves. -/
def Reaches (sha256 : Bytes → Digest) (storeRoot : StoreRoot) (loaded : Loaded)
    (capacities : List RegistryLimits) (world after : World) (next : Loaded) : Prop :=
  ∃ database later journal,
    Leaves sha256 storeRoot loaded capacities world after database next later journal

/-- A world that a call of a client leaves. -/
def Left (sha256 : Bytes → Digest) (storeRoot : StoreRoot) (loaded : Loaded)
    (capacities : List RegistryLimits) (world after : World) : Prop :=
  ∃ next, Reaches sha256 storeRoot loaded capacities world after next

theorem Recovers.reaches {after : World} {handle : Handle}
    (recovers : Recovers sha256 storeRoot database loaded capacities (inSession world storeRoot loaded)
      after)
    (client : Client world.directory storeRoot database loaded capacities journal world.handle)
    (snapshot : handle.snapshot = after.handle.snapshot)
    (rooted : handle.storeRoot = after.handle.storeRoot)
    (requested : handle.requestedLimits = after.handle.requestedLimits) :
    Reaches sha256 storeRoot loaded capacities world { after with handle } loaded := by
  refine ⟨_, capacities, _, recovers.settled.toRecorded, ?_, recovers.advances, .same,
    fun _ => rfl⟩
  rw [recovers.handle] at snapshot rooted requested
  exact recovers.settled.client snapshot (rooted.trans client.rooted)
    (requested ▸ client.admitted)

theorem Torn.reaches {after : World}
    (torn : Torn sha256 storeRoot database loaded capacities (inSession world storeRoot loaded) after)
    (recorded : Recorded sha256 world.directory storeRoot database loaded capacities journal)
    (client : Client world.directory storeRoot database loaded capacities journal world.handle) :
    Reaches sha256 storeRoot loaded capacities world after loaded := by
  obtain ⟨piece, part⟩ := torn.recorded
  have adoptedClient : Client world.directory storeRoot database loaded capacities journal
      after.handle := by
    rw [torn.handle]
    exact ⟨⟨client.older, client.current⟩, client.rooted, client.admitted⟩
  exact ⟨database, capacities, piece, part,
    adoptedClient.advance recorded part torn.advances (fun _ => rfl) (fun _ known => known),
    torn.advances, .same, fun _ => rfl⟩

theorem Publishes.reaches {middle after : World} {request : Request} {now : Timestamp}
    {event : RegistryEvent} {next : State} {second : Database}
    (publishes : Publishes sha256 storeRoot second loaded capacities event next middle after)
    (recovers : Recovers sha256 storeRoot database loaded capacities (inSession world storeRoot loaded)
      middle)
    (appends : Appends sha256 loaded request now event next)
    (client : Client world.directory storeRoot database loaded capacities journal world.handle) :
    Reaches sha256 storeRoot loaded capacities world after (extended loaded event next) := by
  have newer : world.directory.version < after.directory.version := by
    rcases recovers.advances with same | older
    · have starts : middle.directory = world.directory := same
      rw [← starts]
      exact publishes.advances
    · exact Nat.lt_trans older publishes.advances
  have handle := publishes.handle
  rw [recovers.handle] at handle
  refine ⟨_, _, _, publishes.settled.toRecorded, ?_, .inr newer, appends.grows, ?_⟩
  · refine publishes.settled.client (by rw [handle]; rfl) ?_ ?_
    · rw [handle]
      exact client.rooted
    · rw [handle]
      exact mem_extendedCapacities client.admitted _ _
  · intro same
    rw [same] at newer
    exact absurd newer (Nat.lt_irrefl _)

theorem Commits.reaches {middle after : World} {request : Request} {now : Timestamp}
    {event : RegistryEvent} {next : State} {second : Database}
    (commits : Commits sha256 storeRoot second loaded capacities event next middle after)
    (recovers : Recovers sha256 storeRoot database loaded capacities (inSession world storeRoot loaded)
      middle)
    (appends : Appends sha256 loaded request now event next)
    (client : Client world.directory storeRoot database loaded capacities journal world.handle) :
    Reaches sha256 storeRoot loaded capacities world after (extended loaded event next) := by
  obtain ⟨piece, part⟩ := commits.recorded
  have newer := commits.advances
  have handle := commits.handle
  rw [recovers.handle] at handle
  have stale : ∀ version kept, after.handle.snapshot = some (version, kept) →
      version = middle.directory.version := by
    intro version kept snapshot
    rw [handle] at snapshot
    exact (Prod.mk.inj (Option.some.inj snapshot)).1.symm
  have later : world.directory.version < after.directory.version := by
    rcases recovers.advances with same | older
    · have starts : middle.directory = world.directory := same
      rw [← starts]
      exact newer
    · exact Nat.lt_trans older newer
  refine ⟨_, _, piece, part, ⟨⟨?_, ?_⟩, ?_, ?_⟩, .inr later, appends.grows, ?_⟩
  · intro version kept snapshot
    rw [stale version kept snapshot]
    exact newer.le
  · intro kept snapshot
    have same := stale _ kept snapshot
    omega
  · rw [handle]
    exact client.rooted
  · rw [handle]
    exact mem_extendedCapacities client.admitted _ _
  · intro same
    rw [same] at later
    exact absurd later (Nat.lt_irrefl _)

variable (recorded : Recorded sha256 world.directory storeRoot database loaded capacities journal)
  (client : Client world.directory storeRoot database loaded capacities journal world.handle)

include recorded client

theorem recover_left : (recover sha256).Ends world
    (fun _ => Left sha256 storeRoot loaded capacities world)
    (fun _ => Left sha256 storeRoot loaded capacities world) := by
  rw [recover]
  refine open_ends recorded client.toFaithful ?_ ?_ ?_
  · intro after report recovers _
    rw [ends_pure]
    exact ⟨loaded, recovers.reaches client rfl rfl rfl⟩
  · intro after torn
    exact ⟨loaded, torn.reaches recorded client⟩
  · intro after _ _ _ _ foreign
    exact absurd ⟨client.rooted, client.admitted⟩ foreign

theorem view_left {α : Type} (reader : State → List RegistryEvent → Outcome α) :
    (view sha256 reader).Ends world
      (fun _ => Left sha256 storeRoot loaded capacities world)
      (fun _ => Left sha256 storeRoot loaded capacities world) := by
  rw [view]
  refine open_ends recorded client.toFaithful ?_ ?_ ?_
  · intro after report recovers _
    rw [ends_lift]
    exact ⟨fun _ _ => ⟨loaded, recovers.reaches client rfl rfl rfl⟩, fun _ _ => ⟨loaded, recovers.reaches client rfl rfl rfl⟩⟩
  · intro after torn
    exact ⟨loaded, torn.reaches recorded client⟩
  · intro after _ _ _ _ foreign
    exact absurd ⟨client.rooted, client.admitted⟩ foreign

/-- A change returns the state of the history that it leaves. -/
theorem change_left (builder : Builder) (now : Timestamp) :
    (change sha256 builder now).Ends world
      (fun state after => ∃ next, Reaches sha256 storeRoot loaded capacities world after next ∧
        next.state = state)
      (fun _ => Left sha256 storeRoot loaded capacities world) := by
  refine change_ends recorded client ?_ ?_ ?_ ?_ ?_ ?_
  · intro middle recovers
    exact ⟨loaded, recovers.reaches client rfl rfl rfl, rfl⟩
  · intro middle after request event next recovers _ _ appends publishes
    exact ⟨_, publishes.reaches recovers appends client, rfl⟩
  · intro after torn
    exact ⟨loaded, torn.reaches recorded client⟩
  · intro middle failure recovers _
    exact ⟨loaded, recovers.reaches client rfl rfl rfl⟩
  · intro middle failure request next recovers _ _ _
    exact ⟨loaded, recovers.reaches client rfl rfl rfl⟩
  · intro middle after request event next recovers _ _ appends commits
    exact ⟨_, commits.reaches recovers appends client⟩

omit client in
/-- Opening a further handle: it becomes a client, or it is dropped. -/
theorem recover_created {limits : RegistryLimits} {root : StoreRoot}
    (created : world.handle = Handle.created root limits) :
    (recover sha256).Ends world
      (fun _ => Left sha256 storeRoot loaded capacities world)
      (fun _ after => ∃ piece, Recorded sha256 after.directory storeRoot database loaded capacities piece ∧
        Advances world.directory after.directory) := by
  have faithful : Faithful world.directory database loaded journal world.handle := by
    constructor <;> · rw [created]; simp [Handle.created]
  rw [recover]
  by_cases known : world.handle.storeRoot = storeRoot ∧ world.handle.requestedLimits ∈ capacities
  · have client : Client world.directory storeRoot database loaded capacities journal world.handle :=
      ⟨faithful, known.1, known.2⟩
    refine open_ends recorded faithful ?_ ?_ ?_
    · intro after report recovers _
      rw [ends_pure]
      exact ⟨loaded, recovers.reaches client rfl rfl rfl⟩
    · intro after torn
      obtain ⟨piece, part⟩ := torn.recorded
      exact ⟨piece, part, torn.advances⟩
    · intro after _ _ _ _ foreign
      exact absurd known foreign
  · rw [ends_bind]
    refine session_recorded recorded ?_ (fun _ _ => ⟨journal, recorded, .refl _⟩)
    intro rooted
    have fresh : (inSession world storeRoot loaded).handle.snapshot = none := by
      simp [inSession, adopted, created, Handle.created]
    have started : Recorded sha256 (inSession world storeRoot loaded).directory storeRoot database
        loaded capacities journal := recorded
    rw [ends_bind]
    exact recovered_unknown started rfl fresh (fun admitted => known ⟨rooted, admitted⟩)
      (fun _ => ⟨journal, recorded, .refl _⟩)

end Storage

/-! ### Runs -/

namespace System

open Storage

variable {sha256 : Bytes → Digest}

/-- A system whose directory holds a committed history and whose handles are its clients. -/
structure Running (sha256 : Bytes → Digest) (system : System) (storeRoot : StoreRoot)
    (database : Database) (loaded : Loaded) (capacities : List RegistryLimits) (journal : Bytes) :
    Prop where
  recorded : Recorded sha256 system.directory storeRoot database loaded capacities journal
  clients : ∀ handle ∈ system.handles,
    Client system.directory storeRoot database loaded capacities journal handle

/-- A system in which no registry has been created. -/
structure Unopened (system : System) : Prop where
  fresh : Fresh system.directory
  handles : system.handles = []

variable {system : System} {storeRoot : StoreRoot} {database : Database} {loaded : Loaded}
  {capacities : List RegistryLimits} {journal : Bytes}

/-- A system that continues one with a committed history. -/
def Continues (sha256 : Bytes → Digest) (storeRoot : StoreRoot) (loaded : Loaded)
    (capacities : List RegistryLimits) (system : System) : Prop :=
  ∃ database next later journal,
    Running sha256 system storeRoot database next later journal ∧
      Grows sha256 loaded capacities next later

/-- The handles that did not act stay clients. -/
theorem Running.advance
    (running : Running sha256 system storeRoot database loaded capacities journal)
    {directory : Directory} {second : Database} {next : Loaded} {later : List RegistryLimits}
    {new : Bytes} (recorded : Recorded sha256 directory storeRoot second next later new)
    (advances : Advances system.directory directory)
    (grows : Grows sha256 loaded capacities next later)
    (kept : directory = system.directory → next = loaded) {handles : List Handle}
    (clients : ∀ handle ∈ handles, handle ∈ system.handles ∨
      Client directory storeRoot second next later new handle) :
    Running sha256 ⟨directory, handles⟩ storeRoot second next later new := by
  refine ⟨recorded, fun handle found => ?_⟩
  rcases clients handle found with old | client
  · exact (running.clients handle old).advance running.recorded recorded advances kept
      (fun _ known => grows.capacities_mono known)
  · exact client

theorem Running.within {α : Type}
    (running : Running sha256 system storeRoot database loaded capacities journal) (index : Nat)
    (remaining : Option Nat) (process : Process α)
    (ends : ∀ handle ∈ system.handles, process.Ends ⟨system.directory, handle, remaining⟩
      (fun _ => Left sha256 storeRoot loaded capacities ⟨system.directory, handle, remaining⟩)
      (fun _ => Left sha256 storeRoot loaded capacities ⟨system.directory, handle, remaining⟩)) :
    Continues sha256 storeRoot loaded capacities (system.within index remaining process) := by
  rw [System.within]
  cases acting : system.handles[index]? with
  | none => exact ⟨database, loaded, capacities, journal, running, .same⟩
  | some handle =>
      have known : handle ∈ system.handles := List.mem_of_getElem? acting
      have left : Left sha256 storeRoot loaded capacities ⟨system.directory, handle, remaining⟩
          (process ⟨system.directory, handle, remaining⟩).2 := by
        have either := ends handle known
        simp only [Ends] at either
        generalize process ⟨system.directory, handle, remaining⟩ = result at either
        rcases result with ⟨failure | value, after⟩ <;> exact either
      obtain ⟨next, second, later, new, leaves⟩ := left
      refine ⟨second, next, later, new, ?_, leaves.grows⟩
      refine running.advance leaves.recorded leaves.advances leaves.grows leaves.kept ?_
      intro other found
      rcases List.mem_or_eq_of_mem_set found with old | rfl
      · exact .inl old
      · exact .inr leaves.client

theorem Running.perform
    (running : Running sha256 system storeRoot database loaded capacities journal)
    (call : Call × Option Nat) :
    Continues sha256 storeRoot loaded capacities (system.perform sha256 call) := by
  obtain ⟨call, remaining⟩ := call
  cases call with
  | «open» root limits =>
      have created := @recover_created sha256
        ⟨system.directory, Handle.created root limits, remaining⟩ storeRoot database loaded capacities
        journal running.recorded limits root rfl
      simp only [Ends] at created
      simp only [System.perform]
      generalize recover sha256 ⟨system.directory, Handle.created root limits, remaining⟩ = result
        at created
      rcases result with ⟨failure | report, after⟩
      · obtain ⟨piece, part, advances⟩ := created
        refine ⟨database, loaded, capacities, piece, ?_, .same⟩
        exact running.advance part advances .same (fun _ => rfl) (fun _ old => .inl old)
      · obtain ⟨next, second, later, new, leaves⟩ := created
        refine ⟨second, next, later, new, ?_, leaves.grows⟩
        refine running.advance leaves.recorded leaves.advances leaves.grows leaves.kept ?_
        intro handle found
        rcases List.mem_append.mp found with old | opened
        · exact .inl old
        · rw [List.mem_singleton.mp opened]
          exact .inr leaves.client
  | recover index =>
      exact running.within index remaining _
        (fun handle known => recover_left running.recorded (running.clients handle known))
  | view index reader =>
      exact running.within index remaining _
        (fun handle known => view_left running.recorded (running.clients handle known) reader)
  | change index builder now =>
      refine running.within index remaining _ fun handle known => ?_
      have left := @change_left sha256 ⟨system.directory, handle, remaining⟩ storeRoot database loaded
        capacities journal running.recorded (running.clients handle known) builder now
      refine left.mono (fun _ _ returned => ?_) (fun _ _ failed => failed)
      obtain ⟨next, reaches, -⟩ := returned
      exact ⟨next, reaches⟩

/-- A call before any registry exists creates one, or leaves none. -/
theorem Unopened.perform (unopened : Unopened system) (call : Call × Option Nat) :
    Unopened (system.perform sha256 call) ∨ ∃ storeRoot limits database journal,
      Running sha256 (system.perform sha256 call) storeRoot database (createdHistory limits) [limits]
        journal := by
  have idle {α : Type} (index : Nat) (remaining : Option Nat) (process : Process α) :
      system.within index remaining process = system := by
    rw [System.within, unopened.handles]
    rfl
  obtain ⟨call, remaining⟩ := call
  cases call with
  | «open» root limits =>
      have created := @recover_fresh sha256
        ⟨system.directory, Handle.created root limits, remaining⟩ root limits unopened.fresh rfl
        (fun _ after => Opens sha256 root limits
          ⟨system.directory, Handle.created root limits, remaining⟩ after)
        (fun _ after => Fresh after.directory ∨ ∃ database journal, Recorded sha256 after.directory root
          database (createdHistory limits) [limits] journal)
        (fun _ _ opens => opens) (fun _ database journal _ part => .inr ⟨database, journal, part⟩)
        (fun _ _ fresh => .inl fresh)
      simp only [Ends] at created
      simp only [System.perform]
      generalize recover sha256 ⟨system.directory, Handle.created root limits, remaining⟩ = result
        at created
      rcases result with ⟨failure | report, after⟩
      · rcases created with fresh | ⟨database, journal, part⟩
        · exact .inl ⟨fresh, unopened.handles⟩
        · refine .inr ⟨root, limits, database, journal, part, fun handle found => ?_⟩
          rw [show ({ system with directory := after.directory } : System).handles = [] from
            unopened.handles] at found
          cases found
      · refine .inr ⟨root, limits, _, _, created.settled.toRecorded, fun handle found => ?_⟩
        simp only [unopened.handles, List.nil_append, List.mem_singleton] at found
        subst found
        refine created.settled.client ?_ ?_ ?_ <;> rw [created.handle]
        · rfl
        · rfl
        · exact List.mem_singleton_self _
  | recover index => exact .inl (by simp only [System.perform, idle]; exact unopened)
  | view index reader => exact .inl (by simp only [System.perform, idle]; exact unopened)
  | change index builder now => exact .inl (by simp only [System.perform, idle]; exact unopened)

theorem run_append (sha256 : Bytes → Digest) (calls more : List (Call × Option Nat)) :
    run sha256 (calls ++ more) = more.foldl (System.perform sha256) (run sha256 calls) :=
  List.foldl_append

theorem unopened_created : Unopened created := ⟨⟨.inr rfl, rfl, rfl⟩, rfl⟩

/-- Every run leaves an unopened directory or a running registry. -/
theorem run_running (calls : List (Call × Option Nat)) :
    Unopened (run sha256 calls) ∨ ∃ storeRoot database loaded capacities journal,
      Running sha256 (run sha256 calls) storeRoot database loaded capacities journal := by
  induction calls using List.reverseRecOn with
  | nil => exact .inl unopened_created
  | append_singleton calls call ih =>
      rw [run_append, List.foldl_cons, List.foldl_nil]
      rcases ih with unopened | ⟨storeRoot, database, loaded, capacities, journal, running⟩
      · rcases unopened.perform call with still | ⟨root, limits, database, journal, running⟩
        · exact .inl still
        · exact .inr ⟨root, database, _, _, journal, running⟩
      · obtain ⟨database, next, later, journal, running, _⟩ := running.perform call
        exact .inr ⟨storeRoot, database, next, later, journal, running⟩

/-- Later calls only append events. -/
theorem Running.continues
    (running : Running sha256 system storeRoot database loaded capacities journal)
    (calls : List (Call × Option Nat)) : ∃ database next later journal,
      Running sha256 (calls.foldl (System.perform sha256) system) storeRoot database next later journal ∧
        loaded.events <+: next.events ∧ ∀ limits ∈ capacities, limits ∈ later := by
  induction calls generalizing system database loaded capacities journal with
  | nil => exact ⟨database, loaded, capacities, journal, running, List.prefix_refl _, fun _ known => known⟩
  | cons call rest ih =>
      obtain ⟨second, middle, between, piece, next, grows⟩ := running.perform call
      obtain ⟨third, final, later, new, ends, appended, kept⟩ := ih next
      exact ⟨third, final, later, new, ends, grows.events_prefix.trans appended,
        fun limits known => kept limits (grows.capacities_mono known)⟩

end System

end FeatureRl
