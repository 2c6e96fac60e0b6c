import FeatureRl.Evaluation.NativeSessions

/-!
The last check of an evaluation compares finished startups with finished shutdowns. It says
that every started session was closed, in runs that publish each session they construct.
-/

namespace FeatureRl

open Effects

namespace Evaluation

/-! ### Keys -/

theorem removeSuffix_append (text tail : String) : removeSuffix (text ++ tail) tail = text := by
  have found : tail.toList.reverse.isPrefixOf (text ++ tail).toList.reverse = true := by
    simp [String.toList_append]
  rw [removeSuffix, if_pos found]
  simp [String.toList_append]

theorem shutdownKey_injective {id other : StartupId} (same : shutdownKey id = shutdownKey other) :
    id.startupKey = other.startupKey := by
  have both := congrArg (fun text => removeSuffix text ":shutdown") same
  simpa only [shutdownKey, removeSuffix_append] using both

theorem shutdownKey_ne_abortKey (id other : StartupId) : shutdownKey id ≠ abortKey other := by
  intro same
  have last := congrArg (fun text => text.toList.getLast?) same
  simp [shutdownKey, abortKey, String.toList_append] at last

/-! ### Sessions that are accounted for -/

/-- A session was shut down or aborted, and that is recorded. -/
def Recorded (world : World) (id : StartupId) : Prop :=
  world.accounting.shutdowns.get? (shutdownKey id) = some 2 ∨
    world.accounting.shutdowns.get? (abortKey id) = some 2

def AllRecorded (world : World) : Prop := ∀ id ∈ world.started, Recorded world id

instance (world : World) : Decidable (AllRecorded world) :=
  inferInstanceAs (Decidable (∀ id ∈ world.started, _ ∨ _))

/-- Every session that was constructed is published, and only such sessions are closed. -/
structure Owned (world : World) : Prop where
  startups : ∀ key, world.accounting.startups.get? key = some 2 ↔
    ∃ id ∈ world.started, id.startupKey = key
  shutdowns : ∀ key, world.accounting.shutdowns.get? key = some 2 →
    ∃ id ∈ world.started, shutdownKey id = key
  unique : ∀ id ∈ world.started, ∀ other ∈ world.started, id.startupKey = other.startupKey → id = other
  pending : ∀ id, world.memory.pending id = none
  sessions : ∀ id, world.memory.sessions id = true →
    id ∈ world.started ∧ world.accounting.shutdowns.get? (shutdownKey id) ≠ some 2

/-- The service holds on to a session that is not closed yet. -/
structure Holds (world : World) : Prop extends Owned world where
  handle : ∀ id ∈ world.memory.handle, world.memory.sessions id = true

variable {world : World}

theorem mem_finished {accounting : Accounting} {source : Source} {key : String} :
    key ∈ accounting.finished source ↔ (accounting.rows source).get? key = some 2 := by
  simp [Accounting.finished, ← Dict.mem_entries]

theorem Owned.recorded_iff (owned : Owned world) {id : StartupId} :
    Recorded world id ↔ world.accounting.shutdowns.get? (shutdownKey id) = some 2 := by
  refine ⟨fun recorded => recorded.elim (fun same => same) (fun aborted => ?_), .inl⟩
  obtain ⟨other, _, same⟩ := owned.shutdowns _ aborted
  exact absurd same (shutdownKey_ne_abortKey other id)

/-- The comparison of the keys says that every started session has its record. -/
theorem Owned.cleanedUp_iff (owned : Owned world) :
    world.accounting.cleanedUp = true ↔ AllRecorded world := by
  simp only [Accounting.cleanedUp, Bool.and_eq_true, List.all_eq_true, List.contains_iff_mem,
    List.mem_map, mem_finished, Accounting.rows]
  constructor
  · rintro ⟨closed, _⟩ id started
    obtain ⟨key, finished, same⟩ := closed id.startupKey ((owned.startups _).mpr ⟨id, started, rfl⟩)
    obtain ⟨other, known, rfl⟩ := owned.shutdowns key finished
    rw [shutdownKey, removeSuffix_append] at same
    rw [owned.recorded_iff, shutdownKey, ← same]
    exact finished
  · intro recorded
    constructor
    · intro key finished
      obtain ⟨id, started, rfl⟩ := (owned.startups key).mp finished
      exact ⟨shutdownKey id, owned.recorded_iff.mp (recorded id started), removeSuffix_append _ _⟩
    · rintro key ⟨closing, finished, rfl⟩
      obtain ⟨id, started, rfl⟩ := owned.shutdowns closing finished
      rw [shutdownKey, removeSuffix_append]
      exact (owned.startups _).mpr ⟨id, started, rfl⟩

/-! ### Steps of a process -/

variable {faults : Faults} {call : Call} {failed : Failure → World → Prop}

theorem ends_raise {α : Type} {failure : Failure} {done : α → World → Prop} :
    (raise failure : Process α).Ends world done failed ↔ failed failure world := ends_lift_error

theorem ends_outside {done : Unit → World → Prop} (returns : done () world)
    (raises : ∀ failure, faults call = some failure → failed failure world) :
    (outside faults call).Ends world done failed := by
  rw [outside]
  cases same : faults call with
  | none =>
      rw [ends_pure]
      exact returns
  | some failure =>
      rw [ends_raise]
      exact raises failure same

theorem ends_remember {change : Memory → Memory} {done : Unit → World → Prop} :
    (remember change).Ends world done failed ↔ done () { world with memory := change world.memory } := by
  rw [remember, ends_modify]

/-- A reconciliation repeats a revision, records the next one or fails. -/
theorem ends_reconcile {source : Source} {key : String} {revision : Nat} {done : Unit → World → Prop}
    (repeats : revision ≤ ((world.accounting.rows source).get? key).getD 0 → done () world)
    (records : ((world.accounting.rows source).get? key).getD 0 + 1 = revision →
      done () { world with accounting := world.accounting.record source key revision })
    (raises : ∀ failure, faults call = some failure → failed failure world)
    (gap : ((world.accounting.rows source).get? key).getD 0 + 1 < revision → failed .registry world) :
    (reconcile faults call source key revision).Ends world done failed := by
  rw [reconcile, ends_bind]
  refine ends_outside ?_ raises
  rw [ends_bind, ends_read]
  by_cases old : revision ≤ ((world.accounting.rows source).get? key).getD 0
  · rw [if_pos old, ends_pure]
    exact repeats old
  · rw [if_neg old]
    by_cases next : ((world.accounting.rows source).get? key).getD 0 + 1 = revision
    · rw [if_pos next, ends_modify]
      exact records next
    · rw [if_neg next, ends_raise]
      exact gap (by omega)

/-! ### What keeps the invariant -/

theorem Owned.withIntent (owned : Owned world) (key : String) :
    Owned { world with accounting := world.accounting.record .shutdown key 1 } := by
  have earlier : ∀ other, (world.accounting.record .shutdown key 1).shutdowns.get? other = some 2 →
      world.accounting.shutdowns.get? other = some 2 := by
    intro other finished
    rw [Accounting.record, Dict.get?_set] at finished
    split at finished
    · cases finished
    · exact finished
  exact ⟨owned.startups, fun other finished => owned.shutdowns other (earlier other finished),
    owned.unique, owned.pending, fun id session =>
      ⟨(owned.sessions id session).1, fun finished => (owned.sessions id session).2 (earlier _ finished)⟩⟩

/-- The intent of a shutdown changes nothing that the invariant reads. -/
theorem recordIntent_ends (holds : Holds world) {key : String} {done : Bool → World → Prop}
    (next : ∀ recorded after, Holds after → after.memory = world.memory → done recorded after)
    (raises : ∀ failure, failed failure world) :
    (recordIntent faults call key).Ends world done failed := by
  have handled : ∀ failure, (if failure = Failure.registry then pure false else raise failure :
      Process Bool).Ends world done failed := by
    intro failure
    split
    · rw [ends_pure]
      exact next false world holds rfl
    · rw [ends_raise]
      exact raises failure
  rw [recordIntent, ends_catching, ends_bind]
  refine ends_reconcile (fun _ => ?_) (fun _ => ?_) (fun failure _ => handled failure)
    (fun _ => handled .registry)
  · rw [ends_pure]
    exact next true world holds rfl
  · rw [ends_pure]
    exact next true _ ⟨holds.toOwned.withIntent key, holds.handle⟩ rfl

/-- The last record of a shutdown, with the session taken off the list. -/
theorem Owned.closed (owned : Owned world) {id : StartupId} (session : world.memory.sessions id = true)
    {memory : Memory} (pending : memory.pending = world.memory.pending)
    (sessions : memory.sessions = Function.update world.memory.sessions id false) :
    Owned { world with accounting := world.accounting.record .shutdown (shutdownKey id) 2, memory } := by
  obtain ⟨started, _⟩ := owned.sessions id session
  refine ⟨owned.startups, fun key finished => ?_, owned.unique, fun other => ?_, fun other retained => ?_⟩
  · rw [Accounting.record, Dict.get?_set] at finished
    split at finished
    next same => exact ⟨id, started, same.symm⟩
    next => exact owned.shutdowns key finished
  · rw [pending]
    exact owned.pending other
  · rw [sessions] at retained
    by_cases same : other = id
    · rw [same, Function.update_self] at retained
      cases retained
    · rw [Function.update_of_ne same] at retained
      obtain ⟨known, unfinished⟩ := owned.sessions other retained
      refine ⟨known, ?_⟩
      rw [Accounting.record, Dict.get?_set_ne]
      · exact unfinished
      · exact fun equal => same (owned.unique other known id started (shutdownKey_injective equal))

theorem Owned.dropped (owned : Owned world) {id : StartupId} {memory : Memory}
    (pending : memory.pending = world.memory.pending)
    (sessions : memory.sessions = Function.update world.memory.sessions id false) :
    Owned { world with memory } := by
  refine ⟨owned.startups, owned.shutdowns, owned.unique, fun other => ?_, fun other retained => ?_⟩
  · rw [pending]
    exact owned.pending other
  · rw [sessions] at retained
    by_cases same : other = id
    · rw [same, Function.update_self] at retained
      cases retained
    · rw [Function.update_of_ne same] at retained
      exact owned.sessions other retained

theorem rememberClosing_ends (holds : Holds world) {id : StartupId} {closing : Option Closing}
    {done : Unit → World → Prop}
    (next : ∀ after, Holds after → after.memory.sessions = world.memory.sessions → done () after) :
    (rememberClosing id closing).Ends world done failed := by
  rw [rememberClosing, ends_remember]
  exact next _ ⟨⟨holds.startups, holds.shutdowns, holds.unique, holds.pending, holds.sessions⟩, holds.handle⟩
    rfl

theorem ends_once {finished : Bool} {done : Unit → World → Prop} (next : done () world)
    (raises : ∀ failure, failed failure world) : (once faults call finished).Ends world done failed := by
  rw [once]
  split
  · rw [ends_pure]
    exact next
  · exact ends_outside next fun failure _ => raises failure

theorem recordShutdown_ends (holds : Holds world) {id : StartupId}
    (session : world.memory.sessions id = true) :
    (recordShutdown faults id (shutdownKey id)).Ends world (fun _ after => Owned after)
      (fun _ after => Holds after) := by
  rw [recordShutdown, ends_bind]
  refine ends_outside ?_ (fun _ _ => holds)
  rw [ends_bind]
  refine ends_reconcile (fun _ => ?_) (fun _ => ?_) (fun _ _ => holds) (fun _ => holds)
  · rw [ends_remember]
    exact holds.toOwned.dropped rfl rfl
  · rw [ends_remember]
    exact holds.toOwned.closed session rfl rfl

theorem intendShutdown_ends (holds : Holds world) {key : String} {intentRecorded : Bool}
    {done : Bool → World → Prop}
    (next : ∀ recorded after, Holds after → after.memory = world.memory → done recorded after)
    (raises : ∀ failure, failed failure world) :
    (intendShutdown faults key intentRecorded).Ends world done failed := by
  rw [intendShutdown]
  split
  · rw [ends_pure]
    exact next true world holds rfl
  · exact recordIntent_ends holds next raises

theorem shutdown_ends (holds : Holds world) {id : StartupId} (closing : Closing)
    (session : world.memory.sessions id = true) :
    (shutdown faults id (shutdownKey id) closing).Ends world (fun _ after => Owned after)
      (fun _ after => Holds after) := by
  rw [shutdown, ends_bind]
  refine rememberClosing_ends holds fun first holds firstSame => ?_
  rw [ends_bind]
  refine intendShutdown_ends holds (fun recorded second holds secondSame => ?_) (fun _ => holds)
  rw [ends_bind]
  refine rememberClosing_ends holds fun third holds thirdSame => ?_
  rw [ends_bind]
  refine ends_once ?_ (fun _ => holds)
  rw [ends_bind]
  refine rememberClosing_ends holds fun fourth holds fourthSame => ?_
  rw [ends_bind]
  refine ends_once ?_ (fun _ => holds)
  rw [ends_bind]
  refine rememberClosing_ends holds fun fifth holds fifthSame => ?_
  split
  · refine recordShutdown_ends holds ?_
    rw [fifthSame, fourthSame, thirdSame, secondSame, firstSame]
    exact session
  · rw [ends_raise]
    exact holds

theorem close_ends (holds : Holds world) (id : StartupId) :
    (close faults id (shutdownKey id)).Ends world (fun _ after => Owned after)
      (fun _ after => Holds after) := by
  rw [close, ends_bind]
  refine ends_outside ?_ (fun _ _ => holds)
  rw [ends_bind, ends_read]
  split
  · rw [ends_pure]
    exact holds.toOwned
  dsimp only
  split
  · rw [ends_raise]
    exact holds
  next retained =>
    exact shutdown_ends holds _ (by simpa using (not_or.mp retained).2)

theorem closeHandle_ends (holds : Holds world) :
    (closeHandle faults).Ends world (fun _ after => Holds after ∧ after.memory.handle = none)
      (fun _ after => Holds after) := by
  rw [closeHandle, ends_bind, ends_read]
  split
  next none =>
    rw [ends_pure]
    exact ⟨holds, none⟩
  next id _ =>
    rw [ends_bind]
    refine (close_ends holds id).mono (fun _ after owned => ?_) (fun _ _ holds => holds)
    rw [ends_remember]
    exact ⟨⟨⟨owned.startups, owned.shutdowns, owned.unique, owned.pending, owned.sessions⟩, by simp⟩, rfl⟩

/-- A cleanup whose failure is kept. -/
theorem collecting_ends {cleanup : Process Unit}
    (ends : cleanup.Ends world (fun _ after => Holds after) (fun _ after => Holds after)) :
    (collecting cleanup).Ends world (fun _ after => Holds after) (fun _ after => Holds after) := by
  rw [collecting, ends_catching, ends_bind]
  refine ends.mono (fun _ after holds => ?_) (fun failure after holds => ?_)
  · rw [ends_pure]
    exact holds
  · split
    · rw [ends_raise]
      exact holds
    · rw [ends_pure]
      exact holds

/-- Nothing is pending, so there is no startup to abort. -/
theorem closeStartup_ends (holds : Holds world) (id : StartupId) (key : String) :
    (closeStartup faults id key).Ends world (fun _ after => Holds after) (fun _ after => Holds after) := by
  rw [closeStartup, ends_bind]
  refine ends_outside ?_ (fun _ _ => holds)
  rw [ends_bind, ends_read]
  split
  · rw [ends_pure]
    exact holds
  · rw [holds.pending id]
    dsimp only
    rw [ends_raise]
    exact holds

theorem Holds.ofOpening (holds : Holds world) (opening : Option StartupId) :
    Holds { world with memory := { world.memory with opening } } :=
  ⟨⟨holds.startups, holds.shutdowns, holds.unique, holds.pending, holds.sessions⟩, holds.handle⟩

theorem closeOpening_ends (holds : Holds world) :
    (closeOpening faults).Ends world (fun _ after => Holds after) (fun _ after => Holds after) := by
  rw [closeOpening, ends_bind, ends_read]
  split
  · rw [ends_pure]
    exact holds
  next id _ =>
    rw [ends_bind]
    refine (collecting_ends (closeStartup_ends holds id _)).mono (fun failure after holds => ?_)
      (fun _ _ holds => holds)
    split
    · rw [ends_bind, ends_remember, ends_pure]
      exact holds.ofOpening none
    · rw [ends_pure]
      exact holds

theorem closeAll_ends (holds : Holds world) :
    (closeAll faults).Ends world (fun _ after => Holds after) (fun _ after => Holds after) := by
  rw [closeAll, ends_bind]
  refine (collecting_ends ((closeHandle_ends holds).mono (fun _ _ both => both.1)
    (fun _ _ holds => holds))).mono (fun first middle holds => ?_) (fun _ _ holds => holds)
  rw [ends_bind]
  refine (closeOpening_ends holds).mono (fun second last holds => ?_) (fun _ _ holds => holds)
  split
  · rw [ends_pure]
    exact holds
  · rw [ends_raise]
    exact holds

/-! ### Starting -/

/-- A session that is constructed is published: no call between fails. -/
def Publishes (faults : Faults) : Prop :=
  faults .startupReceipt = none ∧ faults .startupRegister = none ∧ faults .startupRecord = none

theorem ends_outside_none (works : faults call = none) {done : Unit → World → Prop} :
    (outside faults call).Ends world done failed ↔ done () world := by
  rw [outside, works]
  exact ends_pure

theorem Holds.withIntent (holds : Holds world) {key : String}
    (absent : world.accounting.startups.get? key = none) :
    Holds { world with accounting := world.accounting.record .startup key 1 } := by
  refine ⟨⟨fun other => ?_, holds.shutdowns, holds.unique, holds.pending, holds.sessions⟩, holds.handle⟩
  rw [Accounting.record, Dict.get?_set, ← holds.startups other]
  split
  next same => simp [same, absent]
  next => rfl

/-- The world after a session is constructed and published. -/
theorem Holds.started (holds : Holds world) {id : StartupId}
    (absent : world.accounting.startups.get? id.startupKey = none) {after : World}
    (started : after.started = id :: world.started)
    (startups : ∀ key, after.accounting.startups.get? key = some 2 ↔
      key = id.startupKey ∨ world.accounting.startups.get? key = some 2)
    (shutdowns : after.accounting.shutdowns = world.accounting.shutdowns)
    (handle : after.memory.handle = world.memory.handle)
    (pending : ∀ other, after.memory.pending other = none)
    (sessions : after.memory.sessions = Function.update world.memory.sessions id true) : Holds after := by
  have new : ∀ other ∈ world.started, other.startupKey ≠ id.startupKey := by
    intro other known same
    have finished := (holds.startups id.startupKey).mpr ⟨other, known, same⟩
    rw [absent] at finished
    cases finished
  refine ⟨⟨fun key => ?_, fun key finished => ?_, ?_, pending, fun other retained => ?_⟩,
    fun other held => ?_⟩
  · rw [startups, holds.startups, started, List.exists_mem_cons_iff]
    exact or_congr_left eq_comm
  · rw [shutdowns] at finished
    obtain ⟨other, known, same⟩ := holds.shutdowns key finished
    exact ⟨other, started ▸ List.mem_cons_of_mem _ known, same⟩
  · rw [started]
    intro first firstKnown second secondKnown same
    by_cases firstNew : first = id
    · by_cases secondNew : second = id
      · rw [firstNew, secondNew]
      · exact absurd (firstNew ▸ same.symm) (new second (List.mem_of_ne_of_mem secondNew secondKnown))
    · have firstOld := List.mem_of_ne_of_mem firstNew firstKnown
      by_cases secondNew : second = id
      · exact absurd (secondNew ▸ same) (new first firstOld)
      · exact holds.unique first firstOld second (List.mem_of_ne_of_mem secondNew secondKnown) same
  · rw [shutdowns, started]
    rw [sessions] at retained
    by_cases same : other = id
    · subst same
      refine ⟨List.mem_cons_self, fun finished => ?_⟩
      obtain ⟨known, member, equal⟩ := holds.shutdowns _ finished
      exact new known member (shutdownKey_injective equal)
    · rw [Function.update_of_ne same] at retained
      obtain ⟨known, unfinished⟩ := holds.sessions other retained
      exact ⟨List.mem_cons_of_mem _ known, unfinished⟩
  · rw [sessions]
    rw [handle] at held
    by_cases same : other = id
    · rw [same, Function.update_self]
    · rw [Function.update_of_ne same]
      exact holds.handle other held

theorem start_ends (holds : Holds world) (publishes : Publishes faults) (id : StartupId) :
    (start faults id).Ends world (fun _ after => Holds after ∧ after.memory.sessions id = true)
      (fun _ after => Holds after) := by
  obtain ⟨receipt, register, published⟩ := publishes
  rw [start, ends_bind]
  refine ends_outside ?_ (fun _ _ => holds)
  rw [ends_bind, ends_read]
  split
  · rw [ends_raise]
    exact holds
  next fresh =>
    have absent : world.accounting.startups.get? id.startupKey = none := by simpa using fresh
    rw [ends_bind]
    refine ends_reconcile (fun repeated => ?_) (fun _ => ?_) (fun _ _ => holds) (fun _ => holds)
    · simp [Accounting.rows, absent] at repeated
    rw [ends_bind]
    refine ends_outside ?_ (fun _ _ => holds.withIntent absent)
    rw [ends_bind, ends_modify, ends_bind, rememberPending, ends_remember, finishStartup, ends_bind, once,
      if_neg (by simp), ends_outside_none receipt, ends_bind, rememberPending, ends_remember, ends_bind,
      ends_outside_none register, ends_bind]
    have latest : ((world.accounting.record .startup id.startupKey 1).startups.get? id.startupKey) = some 1 :=
      Dict.get?_set_self _ _ _
    refine ends_reconcile (fun repeated => ?_) (fun _ => ?_) (fun _ failed => ?_) (fun gap => ?_)
    · simp [Accounting.rows, latest] at repeated
    · rw [ends_remember]
      refine ⟨holds.started absent rfl (fun key => ?_) rfl rfl (fun other => ?_) rfl, Function.update_self ..⟩
      · simp only [Accounting.record, Dict.get?_set]
        split
        next same => simp [same]
        next different => simp [different]
      · by_cases same : other = id
        · rw [same]
          exact Function.update_self ..
        · simp only [Function.update_of_ne same]
          exact holds.pending other
    · rw [published] at failed
      cases failed
    · simp [Accounting.rows, latest] at gap

theorem create_ends (holds : Holds world) (publishes : Publishes faults) (id : StartupId) :
    (create faults id).Ends world (fun _ after => Holds after ∧ after.memory.sessions id = true)
      (fun _ after => Holds after) := by
  rw [create, ends_bind]
  refine ends_outside ?_ (fun _ _ => holds)
  rw [ends_bind, ends_read]
  split
  next retained =>
    rw [ends_pure]
    exact ⟨holds, retained⟩
  next =>
    rw [holds.pending id]
    exact start_ends holds publishes id

/-! ### The service -/

theorem Holds.ofJob (holds : Holds world) (state : JobState) (attempts : List String)
    (execution : Option String) : Holds { world with state, attempts, execution } :=
  ⟨⟨holds.startups, holds.shutdowns, holds.unique, holds.pending, holds.sessions⟩, holds.handle⟩

theorem runTrials_ends (holds : Holds world) (attemptId : String) :
    (runTrials faults attemptId).Ends world (fun _ after => Holds after) (fun _ after => Holds after) := by
  have handled : ∀ failure, (if failure = Failure.crash then raise .crash
      else do
        let _ ← collecting (closeHandle faults)
        raise failure : Process Unit).Ends world (fun _ after => Holds after) (fun _ after => Holds after) := by
    intro failure
    split
    · rw [ends_raise]
      exact holds
    · rw [ends_bind]
      refine (collecting_ends ((closeHandle_ends holds).mono (fun _ _ both => both.1)
        (fun _ _ holds => holds))).mono (fun _ _ holds => ?_) (fun _ _ holds => holds)
      rw [ends_raise]
      exact holds
  rw [runTrials, ends_catching, ends_bind]
  refine ends_outside ?_ (fun failure _ => handled failure)
  rw [ends_bind]
  refine ends_outside ?_ (fun failure _ => handled failure)
  rw [ends_modify]
  exact holds.ofJob _ _ _

theorem nativeExecution_ends (holds : Holds world) (publishes : Publishes faults) (attemptId : String) :
    (nativeExecution faults attemptId).Ends world (fun _ after => Holds after)
      (fun _ after => Holds after) := by
  rw [nativeExecution, ends_bind, ends_read]
  split
  · rw [ends_raise]
    exact holds
  rw [ends_bind]
  refine ends_outside ?_ (fun _ _ => holds)
  dsimp only
  rw [ends_bind, ends_remember, ends_bind]
  refine (create_ends (holds.ofOpening _) publishes _).mono (fun _ middle created => ?_)
    (fun _ _ holds => holds)
  obtain ⟨holds, session⟩ := created
  rw [ends_bind, ends_remember, ends_bind]
  have held : Holds { middle with memory := { middle.memory with
      opening := none
      handle := some ⟨attemptId, attemptId ++ ":m8-native:" ++ toString world.accounting.startups.size⟩ } } :=
    ⟨⟨holds.startups, holds.shutdowns, holds.unique, holds.pending, holds.sessions⟩,
      fun other same => by rw [← Option.some.inj same]; exact session⟩
  refine (runTrials_ends held attemptId).mono (fun _ _ holds => ?_) (fun _ _ holds => holds)
  exact (closeHandle_ends holds).mono (fun _ _ both => both.1) (fun _ _ holds => holds)

theorem finishNativeCleanup_ends (holds : Holds world) :
    (finishNativeCleanup faults).Ends world (fun _ after => Holds after ∧ AllRecorded after)
      (fun _ after => Holds after) := by
  rw [finishNativeCleanup, ends_bind]
  refine (closeHandle_ends holds).mono (fun _ after both => ?_) (fun _ _ holds => holds)
  rw [ends_bind]
  refine ends_outside ?_ (fun _ _ => both.1)
  rw [ends_bind, ends_read]
  split
  next accepted =>
    rw [ends_pure]
    exact ⟨both.1, both.1.toOwned.cleanedUp_iff.mp accepted⟩
  next =>
    rw [ends_raise]
    exact both.1

theorem execute_ends (holds : Holds world) (publishes : Publishes faults) (attemptId : String) :
    (execute faults attemptId).Ends world (fun _ after => Holds after) (fun _ after => Holds after) := by
  have selected : (selectExecution faults attemptId).Ends world (fun _ after => Holds after)
      (fun _ after => Holds after) := by
    rw [selectExecution, ends_bind, ends_read]
    split
    · exact nativeExecution_ends holds publishes attemptId
    · split
      · rw [ends_pure]
        exact holds
      · rw [ends_raise]
        exact holds
  rw [execute, ends_bind]
  refine selected.mono (fun _ after holds => ?_) (fun _ _ holds => holds)
  rw [ends_bind]
  refine (finishNativeCleanup_ends holds).mono (fun _ after both => ?_) (fun _ _ holds => holds)
  rw [ends_bind]
  refine ends_outside ?_ (fun _ _ => both.1)
  rw [ends_modify]
  exact both.1.ofJob _ _ _

/-! ### Runs -/

/-- The step publishes every session that it constructs. -/
def Step.Publishes : Step → Prop
  | evaluate _ faults | recover _ faults => Evaluation.Publishes faults
  | close _ | crash => True

theorem process_ends (holds : Holds world) {step : Step} (publishes : step.Publishes) :
    step.process.Ends world (fun _ after => Holds after) (fun _ after => Holds after) := by
  cases step with
  | evaluate attemptId faults =>
      rw [Step.process, evaluate, ends_bind, ends_read]
      split
      · rw [ends_pure]
        exact holds
      · rw [ends_raise]
        exact holds
      · rw [ends_bind]
        refine ends_outside ?_ (fun _ _ => holds)
        rw [ends_bind, ends_modify]
        exact execute_ends (holds.ofJob _ _ _) publishes attemptId
  | close faults => exact closeAll_ends holds
  | recover attemptId faults =>
      rw [Step.process, recover, ends_bind]
      refine ends_outside ?_ (fun _ _ => holds)
      rw [ends_bind, ends_read]
      split
      · rw [ends_raise]
        exact holds
      split
      · rw [ends_pure]
        exact holds
      · exact execute_ends holds publishes attemptId
  | crash =>
      rw [Step.process, ends_raise]
      exact holds

theorem Holds.crashed (holds : Holds world) : Holds { world with memory := .fresh } :=
  ⟨⟨holds.startups, holds.shutdowns, holds.unique, fun _ => rfl, fun _ session => Bool.noConfusion session⟩,
    fun _ held => by cases held⟩

theorem Holds.step (holds : Holds world) {step : Step} (publishes : step.Publishes) :
    Holds (world.step step) := by
  have ends := process_ends holds publishes
  rw [World.step]
  split
  next after outcome => exact (ends_of_error ends outcome).crashed
  next outcome after _ same =>
    cases outcome with
    | ok value => exact ends_of_ok ends same
    | error failure => exact ends_of_error ends same

theorem holds_created : Holds .created := by
  refine ⟨⟨?_, ?_, ?_, fun _ => rfl, ?_⟩, ?_⟩ <;> simp [World.created, Memory.fresh]

theorem holds_run {steps : List Step} (publishes : ∀ step ∈ steps, step.Publishes) : Holds (run steps) := by
  suffices every : ∀ world, Holds world → Holds (steps.foldl World.step world) from every _ holds_created
  induction steps with
  | nil => exact fun _ holds => holds
  | cons step rest ih =>
      intro world holds
      exact ih (fun later member => publishes later (List.mem_cons_of_mem _ member)) _
        (holds.step (publishes step List.mem_cons_self))

/-- When everything is recorded, the service holds on to nothing. -/
theorem Holds.handle_eq_none (holds : Holds world) (recorded : AllRecorded world) :
    world.memory.handle = none := by
  cases same : world.memory.handle with
  | none => rfl
  | some id =>
      obtain ⟨started, unfinished⟩ := holds.sessions id (holds.handle id same)
      exact absurd (holds.toOwned.recorded_iff.mp (recorded id started)) unfinished

/-- The last check accepts when every started session was closed and that is recorded; when it
accepts, that is so. -/
theorem run_cleanup (steps : List Step) (publishes : ∀ step ∈ steps, step.Publishes) :
    (AllRecorded (run steps) → ∀ faults, faults .cleanupAccounting = none →
      (finishNativeCleanup faults (run steps)).1 = .ok ()) ∧
    ∀ faults after, finishNativeCleanup faults (run steps) = (.ok (), after) → AllRecorded after := by
  have holds := holds_run publishes
  constructor
  · intro recorded faults readable
    have ends : (finishNativeCleanup faults).Ends (run steps) (fun _ _ => True) (fun _ _ => False) := by
      rw [finishNativeCleanup, ends_bind, closeHandle, ends_bind, ends_read,
        holds.handle_eq_none recorded, ends_pure, ends_bind, ends_outside_none readable, ends_bind,
        ends_read, if_pos (holds.toOwned.cleanedUp_iff.mpr recorded), ends_pure]
      trivial
    obtain ⟨value, after, outcome, _⟩ := ok_of_ends ends
    rw [outcome]
  · intro faults after outcome
    exact (ends_of_ok (finishNativeCleanup_ends holds) outcome).2

def works : Faults := fun _ => none

theorem run_cleanup_sample : (run [.evaluate "job:1" works]).started ≠ [] ∧
    (finishNativeCleanup works (run [.evaluate "job:1" works])).1 = .ok () :=
  ⟨by decide +kernel, (run_cleanup [.evaluate "job:1" works] (by
    intro step member
    rw [List.mem_singleton.mp member]
    exact ⟨rfl, rfl, rfl⟩)).1 (by decide +kernel) works rfl⟩

/-! ### Sessions that are never published -/

/-- The publication of a startup fails in some way. -/
def unpublished (failure : Failure) : Faults := fun call =>
  if call = .startupRecord then some failure else none

/-- A startup that is aborted and recorded makes the check fail for good; one that a crash
loses makes it succeed without any record. -/
theorem cleanup_unpublished :
    (AllRecorded (run [.evaluate "job:1" (unpublished .registry), .close works]) ∧
      (finishNativeCleanup works (run [.evaluate "job:1" (unpublished .registry), .close works])).1 =
        .error .evaluationRecovery ∧
      (run [.evaluate "job:1" (unpublished .registry), .close works, .recover "job:1" works]).state =
        .running) ∧
    (run [.evaluate "job:1" (unpublished .crash), .recover "job:1" works]).state = .completed ∧
      ¬ AllRecorded (run [.evaluate "job:1" (unpublished .crash), .recover "job:1" works]) := by
  decide +kernel

end Evaluation

end FeatureRl
