import FeatureRl.Contracts.Samples
import FeatureRl.Registry.Replay

/-!
A change that raises before its transaction leaves exactly what recovery alone would have
left, and later calls of the handle do not notice it.
-/

namespace FeatureRl

open Checked Effects

namespace Storage

variable {sha256 : Bytes → Digest} {world : World} {storeRoot : StoreRoot} {database : Database}
  {loaded : Loaded} {capacities : List RegistryLimits} {journal : Bytes}

/-! ### Sessions -/

theorem eq_of_ends {α : Type} {process : Process α} {value : α} {after : World}
    (ends : process.Ends world (fun result last => result = value ∧ last = after) fun _ _ => False) :
    process world = (.ok value, after) := by
  simp only [Ends] at ends
  generalize process world = result at ends
  rcases result with ⟨failure | result, last⟩
  · exact ends.elim
  · rw [ends.1, ends.2]

/-- What a session does to a client of a recorded registry. -/
theorem session_eq
    (recorded : Recorded sha256 world.directory storeRoot database loaded capacities journal)
    (rooted : world.handle.storeRoot = storeRoot) :
    session world = (.ok (), inSession world storeRoot loaded) :=
  eq_of_ends (session_recorded recorded (fun _ => ⟨rfl, rfl⟩) (fun other => absurd rooted other))

/-- A world whose handle may hold other limits. -/
def withLimits (world : World) (limits : RegistryLimits) : World :=
  { world with handle := { world.handle with limits } }

theorem inSession_withLimits (world : World) (limits : RegistryLimits) :
    inSession (withLimits world limits) storeRoot loaded = inSession world storeRoot loaded := rfl

/-- A call takes the limits of its handle from the directory. -/
theorem bind_withLimits {α : Type} (next : Unit → Process α)
    (recorded : Recorded sha256 world.directory storeRoot database loaded capacities journal)
    (rooted : world.handle.storeRoot = storeRoot) (limits : RegistryLimits) :
    (session >>= next) (withLimits world limits) = (session >>= next) world := by
  have first : session world = (.ok (), inSession world storeRoot loaded) :=
    session_eq recorded rooted
  have second : session (withLimits world limits) = (.ok (), inSession world storeRoot loaded) :=
    @session_eq sha256 (withLimits world limits) storeRoot database loaded capacities journal recorded
      rooted
  simp only [bind, first, second]

/-- The calls of a handle have the same results and effects in both worlds. -/
structure Indistinct (sha256 : Bytes → Digest) (first second : World) : Prop where
  recover : Storage.recover sha256 first = Storage.recover sha256 second
  view : ∀ reader : State → List RegistryEvent → Outcome Unit,
    Storage.view sha256 reader first = Storage.view sha256 reader second
  change : ∀ builder now, Storage.change sha256 builder now first = Storage.change sha256 builder now second

theorem indistinct_withLimits
    (recorded : Recorded sha256 world.directory storeRoot database loaded capacities journal)
    (rooted : world.handle.storeRoot = storeRoot) (limits : RegistryLimits) :
    Indistinct sha256 (withLimits world limits) world where
  recover := bind_withLimits _ recorded rooted limits
  view _ := bind_withLimits _ recorded rooted limits
  change _ _ := bind_withLimits _ recorded rooted limits

/-! ### Changes that raise -/

/-- How many events a directory holds. -/
def eventCount (directory : Directory) : Nat :=
  (directory.database.map fun database => database.events.length).getD 0

theorem Recorded.eventCount_eq {directory : Directory}
    (recorded : Recorded sha256 directory storeRoot database loaded capacities journal) :
    eventCount directory = loaded.events.length := by
  rw [eventCount, recorded.database_eq, Option.map_some, Option.getD_some, recorded.committed.rows,
    List.length_map]

theorem eventCount_extended {event : RegistryEvent} {next : State} {directory : Directory}
    (recorded : Recorded sha256 directory storeRoot database (extended loaded event next) capacities
      journal) : eventCount directory = loaded.events.length + 1 := by
  rw [recorded.eventCount_eq, extended, List.length_append, List.length_singleton]

/-- What recovery alone would have left. -/
def recoveredWorld (sha256 : Bytes → Digest) (world : World) : World := (recover sha256 world).2

/-- How a failed change leaves a world: as recovery would have, or with one more event, or with
the limits of an expansion that the state machine accepted. -/
inductive Abandons (sha256 : Bytes → Digest) (loaded : Loaded) (builder : Builder)
    (recovered after : World) : Prop
  | unchanged (same : after = recovered)
  | committed (more : eventCount after.directory = loaded.events.length + 1)
  | expanded (request : Request) (next : State) (asked : builder loaded.state = .ok (some request))
      (accepted : AcceptedExpansion sha256 loaded request next)
      (same : after = withLimits recovered next.limits)

/-- Opening a session and recovering, with the world that recovery leaves. -/
theorem opened_ends
    (recorded : Recorded sha256 world.directory storeRoot database loaded capacities journal)
    (client : Client world.directory storeRoot database loaded capacities journal world.handle) :
    session.Ends world
      (fun _ opened => (recovered sha256).Ends opened
        (fun result middle => result.1 = loaded ∧ middle = recoveredWorld sha256 world ∧
          Recovers sha256 storeRoot database loaded capacities (inSession world storeRoot loaded) middle)
        (fun _ after => after = recoveredWorld sha256 world))
      (fun _ after => after = recoveredWorld sha256 world) := by
  have reached : (recover sha256).Ends world (fun _ after => after = recoveredWorld sha256 world)
      (fun _ after => after = recoveredWorld sha256 world) := by
    simp only [Ends, recoveredWorld]
    generalize recover sha256 world = result
    rcases result with ⟨failure | report, after⟩ <;> rfl
  rw [recover, ends_bind] at reached
  have described : session.Ends world
      (fun _ opened => (recovered sha256).Ends opened
        (fun result middle => result.1 = loaded ∧
          Recovers sha256 storeRoot database loaded capacities (inSession world storeRoot loaded) middle)
        (fun _ _ => True))
      (fun _ _ => True) := by
    refine session_recorded recorded ?_ (fun _ _ => trivial)
    intro rooted
    have started : Recorded sha256 (inSession world storeRoot loaded).directory storeRoot database
        loaded capacities journal := recorded
    have kept : Faithful (inSession world storeRoot loaded).directory database loaded journal
        (inSession world storeRoot loaded).handle := ⟨client.older, client.current⟩
    exact recovered_ends started rfl kept (fun _ _ recovers _ => ⟨rfl, recovers⟩) (fun _ _ => trivial)
      (fun _ _ => trivial)
  refine (reached.and described).mono ?_ (fun _ _ both => both.1)
  rintro _ opened ⟨first, second⟩
  rw [ends_bind] at first
  refine (first.and second).mono ?_ (fun _ _ both => both.1)
  rintro ⟨history, report⟩ middle ⟨same, found, recovers⟩
  rw [ends_pure] at same
  exact ⟨found, same, recovers⟩

/-- How a change of a client may fail. -/
theorem change_abandons
    (recorded : Recorded sha256 world.directory storeRoot database loaded capacities journal)
    (client : Client world.directory storeRoot database loaded capacities journal world.handle)
    (builder : Builder) (now : Timestamp) :
    (change sha256 builder now).Ends world (fun _ _ => True)
      (fun _ after => Abandons sha256 loaded builder (recoveredWorld sha256 world) after) := by
  rw [change, ends_bind]
  refine (opened_ends recorded client).mono ?_ (fun _ _ same => .unchanged same)
  intro _ opened rest
  rw [ends_bind]
  refine rest.mono ?_ (fun _ _ same => .unchanged same)
  rintro ⟨history, report⟩ middle ⟨rfl, same, recovers⟩
  rw [ends_bind, ends_lift]
  refine ⟨fun built asked => ?_, fun _ _ => .unchanged same⟩
  cases built with
  | none => simp only [ends_pure]
  | some request =>
      cases prior : history.events.find? fun event => event.semanticKey.val = request.key with
      | some event =>
          simp only [prior, ends_bind, ends_pure]
          rw [ends_lift]
          exact ⟨fun _ _ => trivial, fun _ _ => .unchanged same⟩
      | none =>
          simp only [prior]
          have rooted : middle.handle.storeRoot = storeRoot := by
            rw [recovers.handle]
            exact client.rooted
          have limited : middle.handle.limits = history.state.limits := by
            rw [recovers.handle]
            rfl
          refine append_ends recovers.settled rooted limited (fun _ _ _ _ _ => trivial) ?_
            (fun _ _ => .unchanged same) ?_
          · intro after event next _ commits
            obtain ⟨piece, part⟩ := commits.recorded
            exact .committed (eventCount_extended part)
          · intro failure next accepted
            refine .expanded request next asked accepted ?_
            rw [← same]
            rfl

/-- A handle that has verified the directory as it is and holds its configuration. -/
structure UpToDate (directory : Directory) (handle : Handle) : Prop where
  verified : ∃ kept, handle.snapshot = some (directory.version, kept)
  configured : ∃ database storeRoot, directory.database = some database ∧
    readConfiguration storeRoot database.configuration = .ok handle.limits ∧
    handle.configuration = database.configuration

theorem recoveredWorld_upToDate
    (recorded : Recorded sha256 world.directory storeRoot database loaded capacities journal)
    (client : Client world.directory storeRoot database loaded capacities journal world.handle)
    (upToDate : UpToDate world.directory world.handle) : recoveredWorld sha256 world = world := by
  obtain ⟨kept, snapshot⟩ := upToDate.verified
  obtain ⟨found, root, stored, read, configured⟩ := upToDate.configured
  obtain rfl := Option.some.inj (stored.symm.trans recorded.database_eq)
  rw [recorded.committed.configuration] at read configured
  obtain ⟨_, limited⟩ := readConfiguration_eq_ok.mp read
  have same : inSession world storeRoot loaded = world := by
    rw [inSession, adopted, ← configured, ← limited]
  have first : session world = (.ok (), world) := by
    rw [session_eq recorded client.rooted, same]
  have verified : world.handle.verified world.directory.version = some kept :=
    verified_eq_some.mpr snapshot
  simp only [recoveredWorld, recover, bind, first, recovered, Effects.read, verified, pure]

/-! ### Runs -/

/-- A change of this handle that raises before its transaction leaves what recovery would have
left, apart from the limits that the handle keeps of an accepted expansion; later calls of the
handle do not notice it. -/
def Atomic (sha256 : Bytes → Digest) (directory : Directory) (handle : Handle) : Prop :=
  ∃ loaded, Loads sha256 directory handle.requestedLimits loaded ∧
    ∀ builder now remaining failure after,
      change sha256 builder now ⟨directory, handle, remaining⟩ = (.error failure, after) →
      eventCount after.directory = eventCount directory →
      let recovered := recoveredWorld sha256 ⟨directory, handle, remaining⟩
      after = withLimits recovered after.handle.limits ∧
        (after = recovered ∨ ∃ request next, builder loaded.state = .ok (some request) ∧
          AcceptedExpansion sha256 loaded request next) ∧
        Indistinct sha256 after recovered ∧
        (UpToDate directory handle → recovered = ⟨directory, handle, remaining⟩)

theorem Client.atomic {directory : Directory} {handle : Handle}
    (client : Client directory storeRoot database loaded capacities journal handle)
    (recorded : Recorded sha256 directory storeRoot database loaded capacities journal) :
    Atomic sha256 directory handle := by
  refine ⟨loaded, recorded.loads client.admitted, ?_⟩
  intro builder now remaining failure after raised count recovered
  have ends := @change_abandons sha256 ⟨directory, handle, remaining⟩ storeRoot database loaded
    capacities journal recorded client builder now
  have abandons := ends_of_error ends raised
  have reached := @recover_left sha256 ⟨directory, handle, remaining⟩ storeRoot database loaded capacities
    journal recorded client
  have left : Left sha256 storeRoot loaded capacities ⟨directory, handle, remaining⟩ recovered := by
    simp only [Ends] at reached
    simp only [recovered, recoveredWorld]
    generalize recover sha256 ⟨directory, handle, remaining⟩ = result at reached
    rcases result with ⟨problem | report, world⟩ <;> exact reached
  obtain ⟨next, later, grown, piece, leaves⟩ := left
  have distinct (limits : RegistryLimits) : Indistinct sha256 (withLimits recovered limits) recovered :=
    indistinct_withLimits leaves.recorded leaves.client.rooted limits
  have settled := @recoveredWorld_upToDate sha256 ⟨directory, handle, remaining⟩ storeRoot database
    loaded capacities journal recorded client
  cases abandons with
  | unchanged same =>
      subst same
      exact ⟨rfl, .inl rfl, ⟨rfl, fun _ => rfl, fun _ _ => rfl⟩, settled⟩
  | committed more =>
      rw [count, recorded.eventCount_eq] at more
      omega
  | expanded request next asked accepted same =>
      subst same
      exact ⟨rfl, .inr ⟨request, next, asked, accepted⟩, distinct _, settled⟩

end Storage

namespace System

open Storage

/-- After every sequence of calls, the changes of every handle are atomic. -/
theorem run_atomicity (sha256 : Bytes → Digest) (calls : List (Call × Option Nat)) :
    ∀ handle ∈ (run sha256 calls).handles, Atomic sha256 (run sha256 calls).directory handle := by
  intro handle found
  rcases @run_running sha256 calls with unopened | ⟨root, database, loaded, capacities, journal, running⟩
  · rw [unopened.handles] at found
    cases found
  · exact (running.clients handle found).atomic running.recorded

theorem run_atomicity_sample : ∃ handle, Atomic (fun _ => genesis)
    (run (fun _ => genesis) [(.open sampleRoot RegistryLimits.default, none)]).directory handle := by
  obtain ⟨directory, handle, ran, _⟩ := run_open (fun _ => genesis) sampleRoot RegistryLimits.default
  exact ⟨handle, run_atomicity _ _ handle (by rw [ran]; exact List.mem_singleton_self _)⟩

/-! ### A handle that adopts the limits of another -/

def sampleLimits : RegistryLimits := { RegistryLimits.default with maxJobs := ⟨1001, rfl⟩ }

def sampleTime : Timestamp := ⟨2026, 1, 1, 0, 0, 0, 0, newYear.valid⟩

def sampleRequest : Request where
  action := .expandLimits
  key := "expand_limits/" ++ genesis.val
  data := expansionData ⟨RegistryLimits.default, sampleLimits, ⟨"more jobs", rfl⟩, rfl⟩

/-- Every check that an event of a request has to pass. -/
def accepts (sha256 : Bytes → Digest) (loaded : Loaded) (request : Request) (now : Timestamp)
    (check : State → Bool) : Bool :=
  match compact loaded.state request.data, Codec.check isSemanticKey request.key with
  | .ok data, some key =>
      let event := nextEvent sha256 loaded.events key now request.action data
      match loaded.state.apply sha256 event.action event.data.val with
      | .ok next =>
          decide (loaded.events.length < next.limits.maxEvents.val ∧
            (eventLine event).length ≤ next.limits.maxEventBytes.val ∧
            totalSize loaded.raw + (eventLine event).length ≤ next.limits.maxJournalBytes.val) &&
          (checkRecordBounds next.limits next.rows.values).toBool && check next
      | .error _ => false
  | _, _ => false

theorem appends_of_accepts {sha256 : Bytes → Digest} {loaded : Loaded} {request : Request}
    {now : Timestamp} {check : State → Bool} (accepted : accepts sha256 loaded request now check = true) :
    ∃ event next, Appends sha256 loaded request now event next ∧ check next = true := by
  simp only [accepts] at accepted
  split at accepted
  next data key compacted named =>
    split at accepted
    next next applied =>
      simp only [Bool.and_eq_true, decide_eq_true_eq] at accepted
      obtain ⟨⟨⟨counted, short, room⟩, indexed⟩, checked⟩ := accepted
      refine ⟨_, next, ⟨⟨data, key, compacted, named, rfl⟩, applied, counted, short, room, ?_⟩, checked⟩
      revert indexed
      cases checkRecordBounds next.limits next.rows.values with
      | ok _ => exact fun _ => rfl
      | error _ => exact fun failed => absurd failed (by simp [Except.toBool])
    next => cases accepted
  next => cases accepted

def sampleBuilder : Builder := buildExpansion (fun _ => genesis) sampleLimits "more jobs"

theorem sampleBuilder_empty :
    sampleBuilder (State.empty RegistryLimits.default) = .ok (some sampleRequest) := by
  rfl

/-- A change that raises because its builder does. -/
def failingBuilder : Builder := fun _ => .error invalid

theorem failing_ends {sha256 : Bytes → Digest} {world : World} {storeRoot : StoreRoot}
    {database : Database} {loaded : Loaded} {capacities : List RegistryLimits} {journal : Bytes}
    (recorded : Recorded sha256 world.directory storeRoot database loaded capacities journal)
    (client : Client world.directory storeRoot database loaded capacities journal world.handle)
    (uninterrupted : world.remaining = none) (now : Timestamp) :
    (change sha256 failingBuilder now).Ends world (fun _ _ => False) (fun _ after =>
      Recovers sha256 storeRoot database loaded capacities (inSession world storeRoot loaded) after) := by
  rw [change]
  refine open_ends recorded client.toFaithful ?_ ?_ ?_
  · intro after report recovers _
    rw [ends_bind, failingBuilder, ends_lift_error]
    exact recovers
  · intro after torn
    exact absurd uninterrupted torn.remaining
  · intro after _ _ _ _ foreign
    exact absurd ⟨client.rooted, client.admitted⟩ foreign

theorem accepts_sample : accepts (fun _ => genesis) (createdHistory RegistryLimits.default) sampleRequest
    sampleTime (fun next => next.limits = sampleLimits) = true := by
  decide +kernel

theorem run_open_twice (sha256 : Bytes → Digest) (storeRoot : StoreRoot) (limits : RegistryLimits) :
    ∃ directory writer reader database,
      run sha256 [(.open storeRoot limits, none), (.open storeRoot limits, none)] =
        ⟨directory, [writer, reader]⟩ ∧
      Settled sha256 directory storeRoot database (createdHistory limits) [limits] ∧
      Client directory storeRoot database (createdHistory limits) [limits] [] writer ∧
      Client directory storeRoot database (createdHistory limits) [limits] [] reader ∧
      reader.limits = limits := by
  obtain ⟨_, first, opened, opens⟩ := recover_opens sha256 storeRoot limits
  have known := List.mem_singleton_self limits
  obtain ⟨_, second, reopened, _, recovers⟩ :=
    ok_of_ends (recover_recovers opens.settled.toRecorded (created_client known))
  have advances : Advances first.directory second.directory := recovers.advances
  have writer := opens.settled.client (show first.handle.snapshot = _ by rw [opens.handle]; rfl)
    (by rw [opens.handle]; rfl) (by rw [opens.handle]; exact known)
  refine ⟨second.directory, first.handle, second.handle, _, ?_, recovers.settled, ?_, ?_, ?_⟩
  · simp only [run, List.foldl_cons, List.foldl_nil, System.perform, System.created, opened, reopened]
    rfl
  · exact writer.advance opens.settled.toRecorded recovers.settled.toRecorded advances (fun _ => rfl)
      (fun _ member => member)
  · exact recovers.settled.client (by rw [recovers.handle]; rfl) (by rw [recovers.handle]; rfl)
      (by rw [recovers.handle]; exact known)
  · rw [recovers.handle]
    rfl

/-- A handle that did not see the change of another adopts its limits in a change that raises. -/
theorem failing_adopts {sha256 : Bytes → Digest} (storeRoot : StoreRoot) {limits : RegistryLimits}
    {builder : Builder} {request : Request} {now : Timestamp} {event : RegistryEvent} {next : State}
    (asked : builder (State.empty limits) = .ok (some request))
    (appends : Appends sha256 (createdHistory limits) request now event next) :
    ∃ system handle failure after,
      system = run sha256 ([(.open storeRoot limits, none), (.open storeRoot limits, none)] ++
        [(.change 0 builder now, none)]) ∧ system.handles[1]? = some handle ∧
      change sha256 failingBuilder now ⟨system.directory, handle, none⟩ = (.error failure, after) ∧
      eventCount after.directory = eventCount system.directory ∧
      handle.limits = limits ∧ after.handle.limits = next.limits := by
  obtain ⟨directory, writer, reader, database, opened, settled, writes, reads, unaware⟩ :=
    run_open_twice sha256 storeRoot limits
  obtain ⟨_, third, changed, middle, between, publishes⟩ := ok_of_ends
    (@change_publishes sha256 ⟨directory, writer, none⟩ storeRoot database (createdHistory limits)
      [limits] [] settled.toRecorded writes rfl builder now request asked rfl event next appends)
  have newer : directory.version < third.directory.version := by
    rcases between.advances with same | older
    · exact (congrArg Directory.version same).symm.le.trans_lt publishes.advances
    · exact older.trans publishes.advances
  have adopts := reads.advance settled.toRecorded publishes.settled.toRecorded (.inr newer)
    (fun same => by rw [same] at newer; exact absurd newer (Nat.lt_irrefl _))
    (fun _ member => mem_extendedCapacities member event next)
  obtain ⟨failure, after, raised, recovers⟩ := error_of_ends
    (@failing_ends sha256 ⟨third.directory, reader, none⟩ storeRoot _ _ _ _
      publishes.settled.toRecorded adopts rfl now)
  refine ⟨⟨third.directory, [third.handle, reader]⟩, reader, failure, after, ?_, rfl, raised, ?_,
    unaware, ?_⟩
  · rw [run_append, opened, List.foldl_cons, List.foldl_nil]
    simp only [System.perform, System.within, List.getElem?_cons_zero, changed, List.set_cons_zero]
  · rw [recovers.settled.eventCount_eq, publishes.settled.eventCount_eq]
  · rw [recovers.handle]
    rfl

theorem change_adopts_limits :
    ∃ system handle failure after, system = run (fun _ => genesis)
        ([(.open sampleRoot RegistryLimits.default, none),
          (.open sampleRoot RegistryLimits.default, none)] ++
          [(.change 0 sampleBuilder sampleTime, none)]) ∧ system.handles[1]? = some handle ∧
      change (fun _ => genesis) failingBuilder sampleTime ⟨system.directory, handle, none⟩ =
        (.error failure, after) ∧
      eventCount after.directory = eventCount system.directory ∧
      handle.limits.maxJobs.val = 1000 ∧ after.handle.limits.maxJobs.val = 1001 := by
  obtain ⟨event, next, appends, limited⟩ := appends_of_accepts accepts_sample
  obtain ⟨system, handle, failure, after, ran, second, raised, count, before, adopted⟩ :=
    failing_adopts sampleRoot sampleBuilder_empty appends
  refine ⟨system, handle, failure, after, ran, second, raised, count, ?_, ?_⟩
  · rw [before]
    rfl
  · rw [adopted, of_decide_eq_true limited]
    rfl

end System

end FeatureRl
