import FeatureRl.Registry.CrashRecovery

/-!
Replay refines live execution: the committed rows of every run load again, to exactly the
state that the writer of the last event had, for every client of the capacity chain.
-/

namespace FeatureRl

open Checked Effects

namespace Storage

variable {sha256 : Bytes → Digest} {world : World} {storeRoot : StoreRoot} {database : Database}
  {loaded : Loaded} {capacities : List RegistryLimits} {journal : Bytes}

/-- Loading the event rows of a directory, for a client of these limits, gives this history. -/
def Loads (sha256 : Bytes → Digest) (directory : Directory) (requested : RegistryLimits)
    (loaded : Loaded) : Prop :=
  ∃ storeRoot limits database, directory.database = some database ∧
    readConfiguration storeRoot database.configuration = .ok limits ∧
    load sha256 limits requested database = .ok loaded

theorem Recorded.loads {directory : Directory}
    (recorded : Recorded sha256 directory storeRoot database loaded capacities journal)
    {requested : RegistryLimits} (known : requested ∈ capacities) :
    Loads sha256 directory requested loaded := by
  refine ⟨storeRoot, loaded.state.limits, database, recorded.database_eq, ?_, ?_⟩
  · rw [recorded.committed.configuration]
    exact readConfiguration_eq_ok.mpr ⟨rfl, rfl⟩
  · rw [recorded.committed.load_eq, if_pos known]

/-- The same history, or one with one more event that the state machine accepted. -/
def Follows (sha256 : Bytes → Digest) (loaded next : Loaded) : Prop :=
  next = loaded ∨ ∃ event, next.events = loaded.events ++ [event] ∧
    loaded.state.apply sha256 event.action event.data.val = .ok next.state

theorem Grows.follows {next : Loaded} {later : List RegistryLimits}
    (grows : Grows sha256 loaded capacities next later) : Follows sha256 loaded next := by
  cases grows with
  | same => exact .inl rfl
  | event linked applied => exact .inr ⟨_, rfl, applied⟩

theorem Reaches.replays {after : World} {next : Loaded}
    (reaches : Reaches sha256 storeRoot loaded capacities world after next)
    {requested : RegistryLimits} (known : requested ∈ capacities) :
    Loads sha256 after.directory requested next ∧ Follows sha256 loaded next := by
  obtain ⟨database, later, journal, leaves⟩ := reaches
  exact ⟨leaves.recorded.loads (leaves.grows.capacities_mono known), leaves.grows.follows⟩

/-- What a change by this handle leaves loads again, to the state that the change returns. -/
def Replays (sha256 : Bytes → Digest) (directory : Directory) (handle : Handle) : Prop :=
  ∃ loaded, Loads sha256 directory handle.requestedLimits loaded ∧
    ∀ builder now remaining,
      (change sha256 builder now).Ends ⟨directory, handle, remaining⟩
        (fun state after => ∃ next, Loads sha256 after.directory handle.requestedLimits next ∧
          Follows sha256 loaded next ∧ next.state = state)
        (fun _ after => ∃ next, Loads sha256 after.directory handle.requestedLimits next ∧
          Follows sha256 loaded next)

theorem Client.replays {directory : Directory} {handle : Handle}
    (client : Client directory storeRoot database loaded capacities journal handle)
    (recorded : Recorded sha256 directory storeRoot database loaded capacities journal) :
    Replays sha256 directory handle := by
  refine ⟨loaded, recorded.loads client.admitted, fun builder now remaining => ?_⟩
  have left := @change_left sha256 ⟨directory, handle, remaining⟩ storeRoot database loaded capacities
    journal recorded client builder now
  refine left.mono ?_ ?_
  · rintro state after ⟨next, reaches, same⟩
    obtain ⟨loads, follows⟩ := reaches.replays client.admitted
    exact ⟨next, loads, follows, same⟩
  · rintro failure after ⟨next, reaches⟩
    exact ⟨next, reaches.replays client.admitted⟩

end Storage

namespace System

open Storage

variable {sha256 : Bytes → Digest} {system : System} {storeRoot : StoreRoot} {database : Database}
  {loaded : Loaded} {capacities : List RegistryLimits} {journal : Bytes}

/-- After every sequence of calls the rows load for every handle, to the state that its
changes return; and limits that were once in force still open the registry later. -/
theorem run_replay (sha256 : Bytes → Digest) (calls more : List (Call × Option Nat)) :
    (∀ handle ∈ (run sha256 calls).handles, Replays sha256 (run sha256 calls).directory handle) ∧
      ∀ storeRoot limits database, (run sha256 calls).directory.database = some database →
        database.configuration = config storeRoot limits →
        (∃ loaded, Loads sha256 (run sha256 (calls ++ more)).directory limits loaded) ∧
          ∃ report after, recover sha256
            ⟨(run sha256 (calls ++ more)).directory, Handle.created storeRoot limits, none⟩ =
              (.ok report, after) := by
  rcases @run_running sha256 calls with unopened | ⟨root, known, loaded, capacities, journal,
    running⟩
  · refine ⟨fun handle found => ?_, fun root limits database stored => ?_⟩
    · rw [unopened.handles] at found
      cases found
    · rw [unopened.fresh.file] at stored
      cases stored
  · refine ⟨fun handle found => (running.clients handle found).replays running.recorded, ?_⟩
    intro storeRoot limits database stored configured
    obtain rfl := Option.some.inj (stored.symm.trans running.recorded.database_eq)
    have read : readConfiguration storeRoot (config root loaded.state.limits) = .ok limits := by
      rw [← running.recorded.committed.configuration, configured]
      exact readConfiguration_eq_ok.mpr ⟨rfl, rfl⟩
    obtain ⟨rfl, rfl⟩ := readConfiguration_eq_ok.mp read
    obtain ⟨initial, history⟩ := running.recorded.committed.history
    obtain ⟨later, next, grown, piece, ends, _, kept⟩ := running.continues more
    have admitted := kept _ history.limits_mem
    rw [run_append]
    refine ⟨⟨next, ends.recorded.loads admitted⟩, ?_⟩
    have client : Client (more.foldl (System.perform sha256) (run sha256 calls)).directory storeRoot later
        next grown piece (Handle.created storeRoot loaded.state.limits) := created_client admitted
    obtain ⟨report, after, recovers, _⟩ := client.completes ends.recorded
    exact ⟨report, after, recovers⟩

end System

end FeatureRl
