import FeatureRl.Registry.Durability

/-!
What one call does to a recorded registry: recovery completes the journal, and a change
appends at most one event, whatever interrupts it.
-/

namespace FeatureRl

open Checked Effects

namespace Storage

variable {sha256 : Bytes → Digest} {world : World} {storeRoot : StoreRoot} {database : Database}
  {loaded : Loaded} {capacities : List RegistryLimits} {journal : Bytes}

/-! ### Recovery -/

/-- A snapshot is never newer than the directory, and one that is as new holds its history. -/
structure Faithful (directory : Directory) (database : Database) (loaded : Loaded)
    (journal : Bytes) (handle : Handle) : Prop where
  older : ∀ version kept, handle.snapshot = some (version, kept) → version ≤ directory.version
  current : ∀ kept, handle.snapshot = some (directory.version, kept) →
    kept = loaded ∧ journal = loaded.raw.flatten ∧ database.acknowledged = loaded.raw.length

/-- A handle that remembers a history at a fingerprint. -/
def remembering (handle : Handle) (version : Nat) (loaded : Loaded) : Handle :=
  { handle with snapshot := some (version, loaded) }

theorem verified_eq_some {handle : Handle} {version : Nat} {kept : Loaded} :
    handle.verified version = some kept ↔ handle.snapshot = some (version, kept) := by
  rw [Handle.verified]
  rcases handle.snapshot with _ | ⟨fingerprint, stored⟩
  · simp
  · by_cases same : fingerprint = version <;> simp [same]

theorem remembering_self {handle : Handle} {version : Nat} {kept : Loaded}
    (verified : handle.snapshot = some (version, kept)) : remembering handle version kept = handle := by
  rw [remembering, ← verified]

theorem acknowledge_self {count : Nat} (same : database.acknowledged = count) :
    acknowledge database count = database := by
  subst same
  rfl

/-- How recovery leaves a world. -/
structure Recovers (sha256 : Bytes → Digest) (storeRoot : StoreRoot) (database : Database)
    (loaded : Loaded) (capacities : List RegistryLimits) (world after : World) : Prop where
  settled : Settled sha256 after.directory storeRoot (acknowledge database loaded.raw.length) loaded
    capacities
  handle : after.handle = remembering world.handle after.directory.version loaded
  advances : Advances world.directory after.directory
  remaining : after.remaining = none ↔ world.remaining = none
  current : world.handle.snapshot = some (world.directory.version, loaded) → after = world

/-- How an interruption leaves the directory of a recorded registry. -/
structure Torn (sha256 : Bytes → Digest) (storeRoot : StoreRoot) (database : Database)
    (loaded : Loaded) (capacities : List RegistryLimits) (world after : World) : Prop where
  recorded : ∃ journal, Recorded sha256 after.directory storeRoot database loaded capacities journal
  handle : after.handle = world.handle
  advances : Advances world.directory after.directory
  remaining : world.remaining ≠ none

theorem recovered_ends
    (recorded : Recorded sha256 world.directory storeRoot database loaded capacities journal)
    (limited : world.handle.limits = loaded.state.limits)
    (faithful : Faithful world.directory database loaded journal world.handle)
    {done : Loaded × RecoveryReport → World → Prop} {failed : Failure → World → Prop}
    (whole : ∀ (after : World) (report : RecoveryReport),
      Recovers sha256 storeRoot database loaded capacities world after →
      report.eventCount = loaded.raw.length → done (loaded, report) after)
    (torn : ∀ after, Torn sha256 storeRoot database loaded capacities world after →
      failed interrupted after)
    (unknown : world.handle.requestedLimits ∉ capacities → ∀ failure, failed failure world) :
    (recovered sha256).Ends world done failed := by
  rw [recovered, ends_bind, ends_read]
  cases verified : world.handle.verified world.directory.version with
  | some kept =>
      have snapshot := verified_eq_some.mp verified
      obtain ⟨rfl, complete, acknowledged⟩ := faithful.current kept snapshot
      rw [ends_pure]
      refine whole world _ ⟨?_, ?_, Advances.refl _, Iff.rfl, fun _ => rfl⟩ rfl
      · rw [acknowledge_self acknowledged]
        exact ⟨complete ▸ recorded, acknowledged⟩
      · exact (remembering_self snapshot).symm
  | none =>
      simp only [ends_bind, recorded.database_eq, require, ends_lift_ok, limited,
        recorded.committed.load_eq]
      by_cases admitted : world.handle.requestedLimits ∈ capacities
      · rw [if_pos admitted, ends_lift_ok]
        refine project_ends recorded limited ?_ ?_
        · intro published report handle remaining newer settled counted
          simp only [remember, ends_bind, ends_read, ends_setHandle, ends_pure]
          refine whole _ report ⟨settled, ?_, .inr newer, remaining, ?_⟩ counted
          · simp only [handle, remembering]
          · intro snapshot
            rw [← verified_eq_some, verified] at snapshot
            cases snapshot
        · intro stopped journal handle remaining advances part
          exact torn stopped ⟨⟨journal, part⟩, handle, advances, remaining⟩
      · rw [if_neg admitted, ends_lift_error]
        exact unknown admitted _

/-- A client of a recorded registry. -/
structure Client (directory : Directory) (storeRoot : StoreRoot) (database : Database)
    (loaded : Loaded) (capacities : List RegistryLimits) (journal : Bytes) (handle : Handle) : Prop
    extends Faithful directory database loaded journal handle where
  rooted : handle.storeRoot = storeRoot
  admitted : handle.requestedLimits ∈ capacities

/-- A handle in a session of a recorded registry. -/
def inSession (world : World) (storeRoot : StoreRoot) (loaded : Loaded) : World :=
  { world with handle := adopted world.handle storeRoot loaded.state.limits }

/-- Opening a session of a recorded registry and recovering its journal. -/
theorem open_ends {α : Type} {next : Loaded × RecoveryReport → Process α}
    (recorded : Recorded sha256 world.directory storeRoot database loaded capacities journal)
    (faithful : Faithful world.directory database loaded journal world.handle)
    {done : α → World → Prop} {failed : Failure → World → Prop}
    (whole : ∀ (after : World) (report : RecoveryReport),
      Recovers sha256 storeRoot database loaded capacities (inSession world storeRoot loaded) after →
      report.eventCount = loaded.raw.length → (next (loaded, report)).Ends after done failed)
    (torn : ∀ after, Torn sha256 storeRoot database loaded capacities
      (inSession world storeRoot loaded) after → failed interrupted after)
    (foreign : ∀ after : World, after.directory = world.directory →
      after.handle.snapshot = world.handle.snapshot →
      after.handle.storeRoot = world.handle.storeRoot →
      after.handle.requestedLimits = world.handle.requestedLimits →
      ¬ (world.handle.storeRoot = storeRoot ∧ world.handle.requestedLimits ∈ capacities) →
      ∀ failure, failed failure after) :
    (session >>= fun _ => recovered sha256 >>= next).Ends world done failed := by
  rw [ends_bind]
  refine session_recorded recorded ?_ ?_
  · intro rooted
    have session : Recorded sha256 (inSession world storeRoot loaded).directory storeRoot database
        loaded capacities journal := recorded
    have kept : Faithful (inSession world storeRoot loaded).directory database loaded journal
        (inSession world storeRoot loaded).handle := ⟨faithful.older, faithful.current⟩
    rw [ends_bind]
    refine recovered_ends session rfl kept whole torn ?_
    intro unknown failure
    exact foreign (inSession world storeRoot loaded) rfl rfl rfl rfl (fun both => unknown both.2) failure
  · intro other failure
    exact foreign world rfl rfl rfl rfl (fun both => other both.1) failure

/-! ### Appending an event -/

/-- A request that the registry accepts as its next event. -/
structure Appends (sha256 : Bytes → Digest) (loaded : Loaded) (request : Request) (now : Timestamp)
    (event : RegistryEvent) (next : State) : Prop where
  built : ∃ data key, compact loaded.state request.data = .ok data ∧
    Codec.check isSemanticKey request.key = some key ∧
    event = nextEvent sha256 loaded.events key now request.action data
  applied : loaded.state.apply sha256 event.action event.data.val = .ok next
  counted : loaded.events.length < next.limits.maxEvents.val
  short : (eventLine event).length ≤ next.limits.maxEventBytes.val
  room : totalSize loaded.raw + (eventLine event).length ≤ next.limits.maxJournalBytes.val
  indexed : checkRecordBounds next.limits next.rows.values = .ok ()

/-- The history with one more event. -/
def extended (loaded : Loaded) (event : RegistryEvent) (next : State) : Loaded :=
  ⟨next, loaded.events ++ [event], loaded.raw ++ [eventLine event]⟩

/-- The chain of limits with those of an expansion. -/
def extendedCapacities (capacities : List RegistryLimits) (event : RegistryEvent) (next : State) :
    List RegistryLimits :=
  if isExpansion event then capacities ++ [next.limits] else capacities

theorem mem_extendedCapacities {limits : RegistryLimits} (known : limits ∈ capacities)
    (event : RegistryEvent) (next : State) : limits ∈ extendedCapacities capacities event next := by
  rw [extendedCapacities]
  split
  · exact List.mem_append_left _ known
  · exact known

/-- How a committed event leaves a world whose journal may still lack it. -/
structure Commits (sha256 : Bytes → Digest) (storeRoot : StoreRoot) (database : Database)
    (loaded : Loaded) (capacities : List RegistryLimits) (event : RegistryEvent) (next : State)
    (world after : World) : Prop where
  recorded : ∃ journal, Recorded sha256 after.directory storeRoot
    (persist event next storeRoot database) (extended loaded event next)
    (extendedCapacities capacities event next) journal
  handle : after.handle = adopted world.handle storeRoot next.limits
  advances : world.directory.version < after.directory.version
  remaining : world.remaining ≠ none

/-- How a published event leaves a world. -/
structure Publishes (sha256 : Bytes → Digest) (storeRoot : StoreRoot) (database : Database)
    (loaded : Loaded) (capacities : List RegistryLimits) (event : RegistryEvent) (next : State)
    (world after : World) : Prop where
  settled : Settled sha256 after.directory storeRoot
    (acknowledge (persist event next storeRoot database) (loaded.raw.length + 1))
    (extended loaded event next) (extendedCapacities capacities event next)
  handle : after.handle = remembering (adopted world.handle storeRoot next.limits)
    after.directory.version (extended loaded event next)
  advances : world.directory.version < after.directory.version
  remaining : after.remaining = none ↔ world.remaining = none

theorem isExpansion_eq_true {event : RegistryEvent} :
    isExpansion event = true ↔ event.action = .expandLimits := by
  simp [isExpansion]

/-- Publishing an event that is already committed. -/
theorem publish_ends {event : RegistryEvent} {next : State}
    (recorded : Recorded sha256 world.directory storeRoot database (extended loaded event next)
      capacities journal)
    (limited : world.handle.limits = next.limits)
    {done : State → World → Prop} {failed : Failure → World → Prop}
    (published : ∀ after : World,
      Settled sha256 after.directory storeRoot (acknowledge database (loaded.raw.length + 1))
        (extended loaded event next) capacities →
      after.handle = remembering world.handle after.directory.version (extended loaded event next) →
      world.directory.version < after.directory.version →
      (after.remaining = none ↔ world.remaining = none) → done next after)
    (torn : ∀ after : World,
      (∃ journal, Recorded sha256 after.directory storeRoot database (extended loaded event next)
        capacities journal) →
      after.handle = world.handle → Advances world.directory after.directory →
      world.remaining ≠ none → failed interrupted after) :
    (publish event loaded next).Ends world done failed := by
  have length : (extended loaded event next).raw.length = loaded.raw.length + 1 := by
    simp [extended]
  rw [publish, ends_bind]
  have projected := @project_ends sha256 world storeRoot database (extended loaded event next)
    capacities journal recorded limited
  refine projected ?_ ?_
  · intro after report handle remaining later complete counted
    rw [length] at complete
    have small : ¬ after.handle.limits.maxJournalBytes.val < after.directory.journalBytes.length := by
      rw [complete.journalBytes_eq, handle, limited]
      exact Nat.not_lt.mpr complete.journal_length_le
    simp only [ends_bind, ends_read, ends_shape, remember, ends_setHandle, ends_pure]
    refine ⟨fun large => absurd large small, fun _ => published _ complete ?_ later remaining⟩
    simp only [handle, remembering, extended]
  · intro after part handle remaining advances piece
    exact torn after ⟨part, piece⟩ handle advances remaining

/-- The lines before an event remain a journal after its transaction. -/
theorem Settled.journaled_append
    (settled : Settled sha256 world.directory storeRoot database loaded capacities) (line : Bytes) :
    Journaled (loaded.raw ++ [line]) database.acknowledged loaded.raw.flatten := by
  refine ⟨?_, ?_, ?_⟩
  · rw [List.length_append]
    exact settled.journaled.counted.trans (Nat.le_add_right _ _)
  · rw [List.take_append_of_le_length settled.journaled.counted]
    exact settled.journaled.kept
  · rw [List.flatten_append]
    exact List.prefix_append _ _

/-- The transaction and the publication of the next event. -/
theorem commit_ends (settled : Settled sha256 world.directory storeRoot database loaded capacities)
    (rooted : world.handle.storeRoot = storeRoot) {event : RegistryEvent} {next : State}
    (limited : world.handle.limits = next.limits) (linked : Linked sha256 loaded.events event)
    (applied : loaded.state.apply sha256 event.action event.data.val = .ok next)
    (counted : loaded.events.length < next.limits.maxEvents.val)
    (short : (eventLine event).length ≤ next.limits.maxEventBytes.val)
    (room : totalSize loaded.raw + (eventLine event).length ≤ next.limits.maxJournalBytes.val)
    {done : State → World → Prop} {failed : Failure → World → Prop}
    (published : ∀ after, checkRecordBounds next.limits next.rows.values = .ok () →
      Publishes sha256 storeRoot database loaded capacities event next world after → done next after)
    (torn : ∀ after, checkRecordBounds next.limits next.rows.values = .ok () →
      Commits sha256 storeRoot database loaded capacities event next world after →
      failed interrupted after)
    (refused : ∀ failure, (world.remaining = none →
      checkRecordBounds next.limits next.rows.values ≠ .ok ()) → failed failure world) :
    (commit event next >>= fun _ => publish event loaded next).Ends world done failed := by
  subst rooted
  rw [ends_bind, commit]
  simp only [ends_bind, ends_read, settled.database_eq, require, ends_lift_ok, limited]
  rw [ends_lift]
  refine ⟨?_, fun failure rejected => refused failure fun _ indexed => ?_⟩
  swap
  · rw [indexed] at rejected
    cases rejected
  rintro ⟨⟩ indexed
  rw [ends_durable]
  refine ⟨fun stops => refused interrupted (by simp [stops]), fun continues => ?_⟩
  have committed := settled.committed.persist linked applied counted short room indexed
  rw [ends_setHandle]
  have newer := Nat.lt_succ_self world.directory.version
  refine @publish_ends sha256 _ world.handle.storeRoot
    (persist event next world.handle.storeRoot database) loaded
    (extendedCapacities capacities event next) loaded.raw.flatten event next ?_ ?_ done failed ?_ ?_
  · exact ⟨settled.lock, rfl, settled.journal_eq, committed, settled.journaled_append _⟩
  · exact limited
  · intro after complete handle later remaining
    refine published after indexed ⟨complete, ?_, newer.trans later, ?_⟩
    · rw [handle]
      simp only [remembering, adopted, limited]
    · simpa using remaining
  · intro after piece handle advances remaining
    refine torn after indexed ⟨piece, ?_, ?_, ?_⟩
    · rw [handle]
      simp only [adopted, limited]
    · rcases advances with same | later
      · rw [same]
        exact newer
      · exact newer.trans later
    · simpa using remaining

/-- What must hold of an event of a request before its transaction. -/
theorem record_ends (settled : Settled sha256 world.directory storeRoot database loaded capacities)
    (rooted : world.handle.storeRoot = storeRoot) {request : Request} {now : Timestamp}
    {data : EventData} {expanded : State}
    (compacted : compact loaded.state request.data = .ok data)
    (limited : world.handle.limits = expanded.limits)
    (rest : ∀ next, applyRest sha256 expanded request.action data = .ok next →
      loaded.state.apply sha256 request.action data.val = .ok next ∧ next.limits = expanded.limits)
    {done : State → World → Prop} {failed : Failure → World → Prop}
    (published : ∀ after event next, Appends sha256 loaded request now event next →
      Publishes sha256 storeRoot database loaded capacities event next world after → done next after)
    (torn : ∀ after event next, Appends sha256 loaded request now event next →
      Commits sha256 storeRoot database loaded capacities event next world after →
      failed interrupted after)
    (refused : ∀ failure, failed failure world) :
    (record sha256 loaded request now data expanded).Ends world done failed := by
  rw [record]
  simp only [ends_bind, ends_read, ends_refuse]
  refine ⟨fun _ => refused _, fun counted => ?_⟩
  rw [ends_lift]
  refine ⟨fun key named => ?_, fun failure _ => refused failure⟩
  refine ⟨fun _ => refused _, fun fits => ?_⟩
  rw [ends_lift]
  refine ⟨fun next finished => ?_, fun failure _ => refused failure⟩
  obtain ⟨applied, same⟩ := rest next finished
  rw [not_or, not_lt, not_lt, limited, ← same] at fits
  rw [not_le, limited, ← same] at counted
  have appends (indexed : checkRecordBounds next.limits next.rows.values = .ok ()) :
      Appends sha256 loaded request now
        (nextEvent sha256 loaded.events key now request.action data) next :=
    ⟨⟨data, key, compacted, require_eq_ok.mp named, rfl⟩, applied, counted, fits.1, fits.2, indexed⟩
  exact ends_bind.mp (commit_ends settled rooted (limited.trans same.symm)
    (linked_nextEvent _ _ _ _ _) applied counted fits.1 fits.2
    (fun after indexed => published after _ next (appends indexed))
    (fun after indexed => torn after _ next (appends indexed)) (fun failure _ => refused failure))

/-- A handle that has applied an expansion which is not committed yet. -/
def expandedHandle (handle : Handle) (next : State) : Handle :=
  { handle with limits := next.limits }

/-- An expansion that the state machine accepts. -/
def AcceptedExpansion (sha256 : Bytes → Digest) (loaded : Loaded) (request : Request)
    (next : State) : Prop :=
  request.action = .expandLimits ∧ ∃ data, compact loaded.state request.data = .ok data ∧
    loaded.state.apply sha256 request.action data.val = .ok next

/-- An append that fails before its transaction leaves the world alone, except that the handle
keeps the limits of an expansion that the state machine accepted. -/
theorem append_ends (settled : Settled sha256 world.directory storeRoot database loaded capacities)
    (rooted : world.handle.storeRoot = storeRoot) {request : Request} {now : Timestamp}
    (limited : world.handle.limits = loaded.state.limits)
    {done : State → World → Prop} {failed : Failure → World → Prop}
    (published : ∀ after event next, Appends sha256 loaded request now event next →
      Publishes sha256 storeRoot database loaded capacities event next world after → done next after)
    (torn : ∀ after event next, Appends sha256 loaded request now event next →
      Commits sha256 storeRoot database loaded capacities event next world after →
      failed interrupted after)
    (refused : ∀ failure, (∀ next, ¬ AcceptedExpansion sha256 loaded request next) →
      failed failure world)
    (expanded : ∀ failure next, AcceptedExpansion sha256 loaded request next →
      failed failure { world with handle := expandedHandle world.handle next }) :
    (append sha256 loaded request now).Ends world done failed := by
  rw [append, ends_bind, ends_lift]
  refine ⟨fun data compacted => ?_, fun failure rejected => ?_⟩
  · rw [ends_bind, expandFirst]
    by_cases expands : request.action = .expandLimits
    · rw [if_pos expands, ends_bind, ends_lift]
      refine ⟨fun next applied => ?_, fun failure rejected => ?_⟩
      · have accepted : AcceptedExpansion sha256 loaded request next :=
          ⟨expands, data, compacted, applied⟩
        rw [ends_bind, ends_setHandle, ends_pure]
        have started : Settled sha256
            ({ world with handle := expandedHandle world.handle next } : World).directory storeRoot
            database loaded capacities := settled
        refine record_ends started rooted compacted rfl ?_ ?_ ?_
          (fun failure => expanded failure next accepted)
        · intro after finished
          rw [applyRest, if_pos expands] at finished
          obtain rfl := Except.ok.inj finished
          exact ⟨applied, rfl⟩
        · intro after event final appends publishes
          exact published after event final appends
            ⟨publishes.settled, publishes.handle, publishes.advances, publishes.remaining⟩
        · intro after event final appends commits
          exact torn after event final appends
            ⟨commits.recorded, commits.handle, commits.advances, commits.remaining⟩
      · refine refused failure ?_
        rintro next ⟨_, other, same, applied⟩
        obtain rfl := Except.ok.inj (compacted.symm.trans same)
        rw [rejected] at applied
        cases applied
    · rw [if_neg expands, ends_pure]
      have plain : ∀ next, ¬ AcceptedExpansion sha256 loaded request next :=
        fun next accepted => expands accepted.1
      refine record_ends settled rooted compacted limited ?_ published torn
        (fun failure => refused failure plain)
      intro next finished
      rw [applyRest, if_neg expands] at finished
      exact ⟨finished, (State.apply_step finished).limits_eq expands⟩
  · refine refused failure ?_
    rintro next ⟨_, data, same, _⟩
    rw [rejected] at same
    cases same

/-- An event that meets every check of its transaction is published. -/
theorem record_publishes
    (settled : Settled sha256 world.directory storeRoot database loaded capacities)
    (rooted : world.handle.storeRoot = storeRoot) {request : Request} {now : Timestamp}
    {data : EventData} {key : SemanticKey} {expanded next : State}
    (named : Codec.check isSemanticKey request.key = some key)
    (limited : world.handle.limits = next.limits) (uninterrupted : world.remaining = none)
    (rest : applyRest sha256 expanded request.action data = .ok next)
    (appends : Appends sha256 loaded request now
      (nextEvent sha256 loaded.events key now request.action data) next) :
    (record sha256 loaded request now data expanded).Ends world
      (fun _ after => Publishes sha256 storeRoot database loaded capacities
        (nextEvent sha256 loaded.events key now request.action data) next world after)
      (fun _ _ => False) := by
  have counted := Nat.not_le.mpr appends.counted
  have fits := not_or.mpr ⟨Nat.not_lt.mpr appends.short, Nat.not_lt.mpr appends.room⟩
  rw [record]
  simp only [ends_bind, ends_read, ends_refuse, limited, counted, fits, named, rest, require,
    ends_lift_ok, false_imp_iff, not_false_eq_true, true_imp_iff, true_and]
  have committed : (commit (nextEvent sha256 loaded.events key now request.action data) next >>=
      fun _ => publish (nextEvent sha256 loaded.events key now request.action data) loaded next).Ends
      world (fun _ after => Publishes sha256 storeRoot database loaded capacities
        (nextEvent sha256 loaded.events key now request.action data) next world after)
      (fun _ _ => False) := by
    refine commit_ends settled rooted limited (linked_nextEvent _ _ _ _ _) appends.applied appends.counted
      appends.short appends.room (fun _ _ publishes => publishes) ?_ ?_
    · intro after _ commits
      exact commits.remaining uninterrupted
    · intro failure unfit
      exact unfit uninterrupted appends.indexed
  exact ends_bind.mp committed

/-- A change whose request the registry accepts is published, if nothing interrupts it. -/
theorem append_publishes
    (settled : Settled sha256 world.directory storeRoot database loaded capacities)
    (rooted : world.handle.storeRoot = storeRoot) {request : Request} {now : Timestamp}
    (limited : world.handle.limits = loaded.state.limits) (uninterrupted : world.remaining = none)
    {event : RegistryEvent} {next : State} (appends : Appends sha256 loaded request now event next) :
    (append sha256 loaded request now).Ends world
      (fun _ after => Publishes sha256 storeRoot database loaded capacities event next world after)
      (fun _ _ => False) := by
  obtain ⟨data, key, compacted, named, rfl⟩ := appends.built
  have applied : loaded.state.apply sha256 request.action data.val = .ok next := appends.applied
  rw [append, ends_bind, compacted, ends_lift_ok, ends_bind, expandFirst]
  by_cases expands : request.action = .expandLimits
  · rw [if_pos expands, ends_bind, applied, ends_lift_ok, ends_bind, ends_setHandle, ends_pure]
    have started : Settled sha256
        ({ world with handle := expandedHandle world.handle next } : World).directory storeRoot database
        loaded capacities := settled
    have rest : applyRest sha256 next request.action data = .ok next := by rw [applyRest, if_pos expands]
    exact (record_publishes started rooted named rfl uninterrupted rest appends).mono
      (fun _ _ publishes => ⟨publishes.settled, publishes.handle, publishes.advances,
        publishes.remaining⟩) (fun _ _ never => never)
  · rw [if_neg expands, ends_pure]
    have kept : next.limits = loaded.state.limits := (State.apply_step applied).limits_eq expands
    have rest : applyRest sha256 loaded.state request.action data = .ok next := by
      rw [applyRest, if_neg expands, applied]
    exact record_publishes settled rooted named (limited.trans kept.symm) uninterrupted rest appends

/-! ### Changes -/

/-- No event of the history has the key of a request. -/
def NewKey (loaded : Loaded) (request : Request) : Prop :=
  (loaded.events.find? fun event => event.semanticKey.val = request.key) = none

/-- How a change may end on a recorded registry. -/
theorem change_ends
    (recorded : Recorded sha256 world.directory storeRoot database loaded capacities journal)
    (client : Client world.directory storeRoot database loaded capacities journal world.handle)
    {builder : Builder} {now : Timestamp}
    {done : State → World → Prop} {failed : Failure → World → Prop}
    (unchanged : ∀ middle, Recovers sha256 storeRoot database loaded capacities
      (inSession world storeRoot loaded) middle → done loaded.state middle)
    (published : ∀ middle after request event next, Recovers sha256 storeRoot database loaded capacities
      (inSession world storeRoot loaded) middle → builder loaded.state = .ok (some request) →
      NewKey loaded request → Appends sha256 loaded request now event next →
      Publishes sha256 storeRoot (acknowledge database loaded.raw.length) loaded capacities event next
        middle after → done next after)
    (torn : ∀ after, Torn sha256 storeRoot database loaded capacities
      (inSession world storeRoot loaded) after → failed interrupted after)
    (refused : ∀ middle failure, Recovers sha256 storeRoot database loaded capacities
      (inSession world storeRoot loaded) middle →
      (∀ request next, builder loaded.state = .ok (some request) → NewKey loaded request →
        ¬ AcceptedExpansion sha256 loaded request next) → failed failure middle)
    (expanded : ∀ middle failure request next, Recovers sha256 storeRoot database loaded capacities
      (inSession world storeRoot loaded) middle → builder loaded.state = .ok (some request) →
      NewKey loaded request → AcceptedExpansion sha256 loaded request next →
      failed failure { middle with handle := expandedHandle middle.handle next })
    (committed : ∀ middle after request event next,
      Recovers sha256 storeRoot database loaded capacities (inSession world storeRoot loaded) middle →
      builder loaded.state = .ok (some request) → NewKey loaded request →
      Appends sha256 loaded request now event next →
      Commits sha256 storeRoot (acknowledge database loaded.raw.length) loaded capacities event next
        middle after → failed interrupted after) :
    (change sha256 builder now).Ends world done failed := by
  rw [change]
  refine open_ends recorded client.toFaithful ?_ torn ?_
  · intro middle report recovers counted
    rw [ends_bind, ends_lift]
    refine ⟨fun built asked => ?_, fun failure rejected => ?_⟩
    · cases built with
      | none =>
          rw [ends_pure]
          exact unchanged middle recovers
      | some request =>
          cases prior : loaded.events.find? fun event => event.semanticKey.val = request.key with
          | some event =>
              simp only [prior, ends_bind, ends_pure]
              rw [ends_lift]
              refine ⟨fun _ _ => unchanged middle recovers, fun failure _ => ?_⟩
              refine refused middle failure recovers fun other next same fresh => ?_
              obtain rfl := Option.some.inj (Except.ok.inj (asked.symm.trans same))
              rw [NewKey, prior] at fresh
              cases fresh
          | none =>
              simp only [prior]
              have rooted : middle.handle.storeRoot = storeRoot := by
                rw [recovers.handle]
                exact client.rooted
              have limited : middle.handle.limits = loaded.state.limits := by
                rw [recovers.handle]
                rfl
              refine append_ends recovers.settled rooted limited
                (fun after event next => published middle after request event next recovers asked prior)
                (fun after event next => committed middle after request event next recovers asked prior)
                (fun failure plain => refused middle failure recovers fun other next same _ => ?_)
                (fun failure next => expanded middle failure request next recovers asked prior)
              obtain rfl := Option.some.inj (Except.ok.inj (asked.symm.trans same))
              exact plain next
    · refine refused middle failure recovers fun request next asked => ?_
      rw [rejected] at asked
      cases asked
  · intro after _ _ _ _ foreign failure
    exact absurd ⟨client.rooted, client.admitted⟩ foreign

theorem change_publishes
    (recorded : Recorded sha256 world.directory storeRoot database loaded capacities journal)
    (client : Client world.directory storeRoot database loaded capacities journal world.handle)
    (uninterrupted : world.remaining = none) {builder : Builder} {now : Timestamp} {request : Request}
    (asked : builder loaded.state = .ok (some request)) (newKey : NewKey loaded request)
    {event : RegistryEvent} {next : State} (appends : Appends sha256 loaded request now event next) :
    (change sha256 builder now).Ends world
      (fun _ after => ∃ middle, Recovers sha256 storeRoot database loaded capacities
          (inSession world storeRoot loaded) middle ∧
        Publishes sha256 storeRoot (acknowledge database loaded.raw.length) loaded capacities event next
          middle after)
      (fun _ _ => False) := by
  rw [change]
  refine open_ends recorded client.toFaithful ?_ ?_ ?_
  · intro middle report recovers _
    rw [ends_bind, asked, ends_lift_ok]
    have newKey : (loaded.events.find? fun event => event.semanticKey.val = request.key) = none := newKey
    simp only [newKey]
    have rooted : middle.handle.storeRoot = storeRoot := by
      rw [recovers.handle]
      exact client.rooted
    have limited : middle.handle.limits = loaded.state.limits := by
      rw [recovers.handle]
      rfl
    exact (append_publishes recovers.settled rooted limited (recovers.remaining.mpr uninterrupted)
      appends).mono (fun _ _ publishes => ⟨middle, recovers, publishes⟩) (fun _ _ never => never)
  · intro after torn
    exact torn.remaining uninterrupted
  · intro after _ _ _ _ foreign
    exact absurd ⟨client.rooted, client.admitted⟩ foreign

end Storage

end FeatureRl
