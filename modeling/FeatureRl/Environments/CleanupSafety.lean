import FeatureRl.Environments.Cleanup

/-!
Safety of the cleanup: in every trace, removals and absences are justified by what was observed in the
same cleanup, removed records stay removed, and a recovery goes through the records in their order.
-/

namespace FeatureRl

open Effects

namespace Docker

/-! ### What justifies an event -/

def begins (id : String) : Event → Bool
  | .began record => record.operationId = id
  | _ => false

/-- An event that passes the test, since the latest beginning of a cleanup of the operation. -/
def since (id : String) (test : Event → Bool) : List Event → Bool
  | [] => false
  | event :: rest => test event || (!begins id event && since id test rest)

variable (machine : Machine)

/-- The daemon answered with the identity of the record. -/
def confirmed (record : Ownership) : Event → Bool
  | .asked _ .info (.observed observation) => confirms machine record observation
  | _ => false

/-- The container of the record was observed absent. -/
def gone (record : Ownership) : Event → Bool
  | .asked _ (.inspect name) (.observed observation) => name = record.name && absent observation
  | _ => false

/-- The container of the record was inspected and bears both labels. -/
def owned (record : Ownership) : Event → Bool
  | .asked _ (.inspect name) (.observed observation) => name = record.name && observation.reason = .exited &&
      observation.exitCode = 0 && (container machine observation.stdout).any (labelled record)
  | _ => false

/-- The daemon was confirmed and the container observed absent in the latest cleanup. -/
structure Proven (record : Ownership) (trace : List Event) : Prop where
  confirmed : since record.operationId (confirmed machine record) trace = true
  gone : since record.operationId (gone record) trace = true

def JustifiedBy (trace : List Event) : Event → Prop
  | .asked record (.remove name) _ => name = record.name ∧ since record.operationId (owned machine record) trace = true
  | .verified record => Proven machine record trace
  | .wrote record => record.phase = .removed → Proven machine record trace
  | _ => True

/-- Every event is justified by the events before it. -/
def Justified : List Event → Prop
  | [] => True
  | event :: rest => JustifiedBy machine rest event ∧ Justified rest

theorem since_cons {id : String} {test : Event → Bool} {event : Event} {trace : List Event}
    (other : begins id event = false) (found : since id test trace = true) : since id test (event :: trace) = true := by
  simp [since, other, found]

theorem since_head {id : String} {test : Event → Bool} {event : Event} (trace : List Event)
    (passes : test event = true) : since id test (event :: trace) = true := by
  simp [since, passes]

theorem Proven.cons {machine : Machine} {record : Ownership} {event : Event} {trace : List Event}
    (proven : Proven machine record trace) (other : begins record.operationId event = false) :
    Proven machine record (event :: trace) :=
  ⟨since_cons other proven.confirmed, since_cons other proven.gone⟩

/-- A record without what a cleanup changes. -/
def core (record : Ownership) : Ownership := { record with phase := .intent, error := none }

variable {machine}

theorem proven_core {one two : Ownership} (same : core one = core two) {trace : List Event}
    (proven : Proven machine one trace) : Proven machine two trace := by
  have known : Proven machine (core one) trace := ⟨proven.confirmed, proven.gone⟩
  rw [same] at known
  exact ⟨known.confirmed, known.gone⟩

/-! ### Rules of the commands -/

variable {world : World} {failed : Failure → World → Prop}

theorem ends_raise {α : Type} {failure : Failure} {done : α → World → Prop} :
    (raise failure : Process α).Ends world done failed ↔ failed failure world := ends_lift_error

theorem ends_outside {faults : Nat → Option Failure} {done : Unit → World → Prop} (returns : done () world.tick)
    (raises : ∀ failure, failed failure world.tick) : (outside faults).Ends world done failed := by
  rw [outside, ends_bind, ends_read, ends_bind, ends_modify]
  cases faults world.clock with
  | none =>
      rw [ends_pure]
      exact returns
  | some failure =>
      rw [ends_raise]
      exact raises failure

theorem ends_control {command : Command} {done : Observation → World → Prop}
    (observes : ∀ observation, done observation (world.ask command (.observed observation)))
    (raises : ∀ failure answer, failed failure (world.ask command answer)) :
    (control machine command).Ends world done failed := by
  rw [control, ends_bind, ends_read, ends_bind, ends_modify]
  cases same : machine.answer world.clock command with
  | observed observation =>
      rw [ends_pure]
      exact observes observation
  | failed failure =>
      rw [ends_raise]
      exact raises failure _

theorem ends_checked {command : Command} {done : Observation → World → Prop}
    (observes : ∀ observation, done observation (world.ask command (.observed observation)))
    (raises : ∀ failure answer, failed failure (world.ask command answer)) :
    (checked machine command).Ends world done failed := by
  rw [checked, ends_bind]
  refine ends_control ?_ raises
  intro observation
  split
  next =>
    rw [ends_raise]
    exact raises _ _
  next =>
    rw [ends_pure]
    exact observes observation

theorem ends_persist {change : Ownership → Ownership} {done : Unit → World → Prop}
    (keeps : done () (world.change change).store) (raises : ∀ failure, failed failure (world.change change).store)
    (loses : ∀ failure, failed failure (world.change change).tick) :
    (persist machine change).Ends world done failed := by
  rw [persist, ends_bind, ends_modify, ends_bind, ends_read]
  split
  next =>
    rw [ends_modify]
    exact keeps
  next failure _ =>
    rw [ends_bind, ends_modify, ends_raise]
    exact raises failure
  next failure _ =>
    rw [ends_bind, ends_modify, ends_raise]
    exact loses failure

theorem ends_attempt {computation : Process Unit} {done : Option Failure → World → Prop}
    (ends : computation.Ends world (fun _ after => done none after) fun failure after =>
      (∀ kind message, failure = .exception kind message → done (some failure) after) ∧ failed failure after) :
    (attempt computation).Ends world done failed := by
  rw [attempt, ends_catching, ends_bind]
  refine ends.mono ?_ ?_
  · intro _ after returned
    rw [ends_pure]
    exact returned
  · intro failure after raised
    split
    next kind message =>
      rw [ends_pure]
      exact raised.1 kind message rfl
    next =>
      rw [ends_raise]
      exact raised.2

theorem ends_onFailure {α : Type} {computation : Process α} {handler : Process Unit} {done : α → World → Prop}
    (ends : computation.Ends world done fun failure after => (failure = .crash → failed .crash after) ∧
      (failure ≠ .crash → handler.Ends after (fun _ final => failed failure final) failed)) :
    (onFailure computation handler).Ends world done failed := by
  rw [onFailure, ends_catching]
  refine ends.mono (fun _ _ returned => returned) ?_
  intro failure after raised
  split
  next =>
    rw [ends_raise]
    exact raised.1 rfl
  next survived =>
    rw [ends_bind]
    refine (raised.2 survived).mono ?_ fun _ _ broken => broken
    intro _ final broken
    rw [ends_raise]
    exact broken

/-! ### During a cleanup -/

/-- The durable records are the ones that were written. -/
def Recorded (world : World) : Prop :=
  ∀ id record, world.disk.get? id = some record → record.operationId = id ∧ .wrote record ∈ world.trace

/-- What holds from the beginning of a cleanup of the record on. -/
structure During (machine : Machine) (before : World) (record : Ownership) (world : World) : Prop where
  core : core world.session.record = core record
  trace : ∃ later, world.trace = later ++ .began record :: before.trace ∧
    ∀ event ∈ later, ∀ id, begins id event = false
  others : ∀ id, id ≠ record.operationId → world.disk.get? id = before.disk.get? id
  justified : Justified machine world.trace
  recorded : Recorded world
  own : world.disk.get? record.operationId = before.disk.get? record.operationId ∨
    ∃ stored, world.disk.get? record.operationId = some stored ∧
      (stored.phase = .cleanupPending ∨ stored.phase = .removed ∧ world.session.verified = true)
  proven : world.session.verified = true → Proven machine record world.trace

variable {before : World} {record : Ownership}

theorem During.operationId (during : During machine before record world) :
    world.session.record.operationId = record.operationId := by
  have same := congrArg Ownership.operationId during.core
  exact same

theorem During.name (during : During machine before record world) : world.session.record.name = record.name := by
  have container := congrArg Ownership.containerName during.core
  have identifier := congrArg Ownership.containerId during.core
  change world.session.record.containerName = record.containerName at container
  change world.session.record.containerId = record.containerId at identifier
  rw [Ownership.name, Ownership.name, container, identifier]

theorem During.tick (during : During machine before record world) : During machine before record world.tick := by
  constructor
  · exact during.core
  · exact during.trace
  · exact during.others
  · exact during.justified
  · exact during.recorded
  · exact during.own
  · exact during.proven

theorem During.note (during : During machine before record world) {event : Event}
    (quiet : ∀ id, begins id event = false) (justified : JustifiedBy machine world.trace event) :
    During machine before record (world.note event) := by
  obtain ⟨later, trace, none⟩ := during.trace
  constructor
  · exact during.core
  · refine ⟨event :: later, congrArg (event :: ·) trace, ?_⟩
    intro other member
    rcases List.mem_cons.mp member with rfl | old
    · exact quiet
    · exact none other old
  · exact during.others
  · exact ⟨justified, during.justified⟩
  · intro id stored found
    obtain ⟨same, wrote⟩ := during.recorded id stored found
    exact ⟨same, List.mem_cons_of_mem _ wrote⟩
  · exact during.own
  · intro verified
    exact (during.proven verified).cons (quiet _)

theorem During.ask (during : During machine before record world) {command : Command} {answer : Answer}
    (justified : JustifiedBy machine world.trace (.asked world.session.record command answer)) :
    During machine before record (world.ask command answer) := (during.note (fun _ => rfl) justified).tick

theorem During.asked (during : During machine before record world) {command : Command} {answer : Answer}
    (harmless : ∀ name, command ≠ .remove name) : During machine before record (world.ask command answer) := by
  apply during.ask
  cases command with
  | remove name => exact absurd rfl (harmless name)
  | info => trivial
  | inspect name => trivial
  | create name owner operation => trivial
  | start name => trivial

theorem During.change (during : During machine before record world) {change : Ownership → Ownership}
    (kept : ∀ record, Docker.core (change record) = Docker.core record) :
    During machine before record (world.change change) := by
  constructor
  · exact (kept _).trans during.core
  · exact during.trace
  · exact during.others
  · exact during.justified
  · exact during.recorded
  · exact during.own
  · exact during.proven

/-- A record is written as removed in a verified cleanup only, and as pending otherwise. -/
theorem During.store (during : During machine before record world)
    (phase : world.session.record.phase = .cleanupPending ∨
      world.session.record.phase = .removed ∧ world.session.verified = true) :
    During machine before record world.store := by
  have justified : JustifiedBy machine world.trace (.wrote world.session.record) := by
    intro removed
    rcases phase with pending | ⟨_, verified⟩
    · rw [pending] at removed
      cases removed
    · exact proven_core during.core.symm (during.proven verified)
  have noted := during.note (fun _ => rfl) justified
  have there : (world.disk.set world.session.record.operationId world.session.record).get? record.operationId =
      some world.session.record := by
    rw [during.operationId]
    exact Dict.get?_set_self _ _ _
  constructor
  · exact noted.core
  · exact noted.trace
  · intro id other
    change (world.disk.set world.session.record.operationId world.session.record).get? id = _
    rw [during.operationId, Dict.get?_set_ne _ _ other]
    exact during.others id other
  · exact noted.justified
  · intro id stored found
    change (world.disk.set world.session.record.operationId world.session.record).get? id = _ at found
    rw [Dict.get?_set] at found
    split at found
    next same =>
      obtain rfl := Option.some.inj found
      exact ⟨same.symm, List.mem_cons_self⟩
    next => exact noted.recorded id stored found
  · exact Or.inr ⟨_, there, phase⟩
  · exact noted.proven

/-! ### The stages of a cleanup -/

theorem During.owner (during : During machine before record world) :
    labelled world.session.record = labelled record ∧ confirms machine world.session.record = confirms machine record := by
  have token := congrArg Ownership.ownerToken during.core
  have daemon := congrArg Ownership.daemonId during.core
  change world.session.record.ownerToken = record.ownerToken at token
  change world.session.record.daemonId = record.daemonId at daemon
  constructor
  · funext found
    rw [labelled, labelled, token, during.operationId]
  · funext observation
    rw [confirms, confirms, daemon]

theorem ends_confirm (during : During machine before record world) (unverified : world.session.verified = false) :
    (confirm machine).Ends world
      (fun _ after => During machine before record after ∧ after.session.verified = false ∧
        since record.operationId (confirmed machine record) after.trace = true)
      fun _ after => During machine before record after := by
  rw [confirm, ends_bind]
  apply ends_control
  · intro observation
    rw [ends_bind, ends_read]
    have asked : During machine before record (world.ask .info (.observed observation)) :=
      during.asked fun _ => nofun
    have same : confirms machine (world.ask .info (.observed observation)).session.record observation =
        confirms machine record observation := congrFun during.owner.2 observation
    rw [same]
    split
    next confirms =>
      rw [ends_pure]
      exact ⟨asked, unverified, since_head _ confirms⟩
    next =>
      rw [ends_raise]
      exact asked
  · intro failure answer
    exact during.asked fun _ => nofun

theorem ends_removeOwned (during : During machine before record world) (unverified : world.session.verified = false)
    (known : since record.operationId (confirmed machine record) world.trace = true) :
    (removeOwned machine).Ends world
      (fun _ after => During machine before record after ∧ after.session.verified = false ∧
        since record.operationId (confirmed machine record) after.trace = true)
      fun _ after => During machine before record after := by
  rw [removeOwned, ends_bind, ends_read, ends_bind]
  have asked : ∀ answer, During machine before record (world.ask (.inspect world.session.record.name) answer) :=
    fun answer => during.asked fun _ => nofun
  apply ends_control
  · intro observation
    have still : since record.operationId (confirmed machine record)
        (world.ask (.inspect world.session.record.name) (.observed observation)).trace = true := since_cons rfl known
    split
    next =>
      rw [ends_raise]
      exact asked _
    next exited =>
      split
      next zero =>
        split
        next =>
          rw [ends_raise]
          exact asked _
        next found inspected =>
          split
          next labels =>
            split
            next =>
              rw [ends_raise]
              exact asked _
            next =>
              rw [during.owner.1] at labels
              have owner : owned machine record (.asked world.session.record (.inspect world.session.record.name)
                  (.observed observation)) = true := by
                simp [owned, during.name, Decidable.not_not.mp exited, zero, inspected, labels]
              have removing : ∀ answer, JustifiedBy machine
                  (world.ask (.inspect world.session.record.name) (.observed observation)).trace
                  (.asked world.session.record (.remove world.session.record.name) answer) := by
                intro answer
                refine ⟨rfl, ?_⟩
                have same : owned machine world.session.record = owned machine record := by
                  funext event
                  cases event with
                  | asked _ command answer =>
                      cases command with
                      | inspect name =>
                          cases answer with
                          | observed observation => simp only [owned, during.name, during.owner.1]
                          | failed _ => rfl
                      | _ => rfl
                  | _ => rfl
                rw [same]
                exact since_head _ owner
              rw [ends_bind]
              apply ends_checked
              · intro removal
                rw [ends_pure]
                exact ⟨(asked _).ask (removing _), unverified, since_cons rfl still⟩
              · intro failure answer
                exact (asked _).ask (removing _)
          next =>
            rw [ends_raise]
            exact asked _
      next =>
        split
        next =>
          rw [ends_pure]
          exact ⟨asked _, unverified, still⟩
        next =>
          rw [ends_raise]
          exact asked _
  · intro failure answer
    exact asked _

theorem ends_verifyAbsence (during : During machine before record world)
    (known : since record.operationId (confirmed machine record) world.trace = true) :
    (verifyAbsence machine).Ends world
      (fun _ after => During machine before record after ∧ after.session.verified = true)
      fun _ after => During machine before record after := by
  rw [verifyAbsence, ends_bind, ends_read, ends_bind]
  have asked : ∀ answer, During machine before record (world.ask (.inspect world.session.record.name) answer) :=
    fun answer => during.asked fun _ => nofun
  apply ends_control
  · intro observation
    split
    next missing =>
      rw [ends_modify]
      have seen : gone record (.asked world.session.record (.inspect world.session.record.name)
          (.observed observation)) = true := by
        simp [gone, during.name, missing]
      have proven : Proven machine record
          (world.ask (.inspect world.session.record.name) (.observed observation)).trace :=
        ⟨since_cons rfl known, since_head _ seen⟩
      have noted : During machine before record ((world.ask (.inspect world.session.record.name)
          (.observed observation)).note (.verified world.session.record)) :=
        (asked (.observed observation)).note (fun _ => rfl) (proven_core during.core.symm proven)
      refine ⟨?_, rfl⟩
      constructor
      · exact noted.core
      · exact noted.trace
      · exact noted.others
      · exact noted.justified
      · exact noted.recorded
      · rcases noted.own with same | ⟨stored, found, phase⟩
        · exact Or.inl same
        · refine Or.inr ⟨stored, found, ?_⟩
          rcases phase with pending | ⟨removed, _⟩
          · exact Or.inl pending
          · exact Or.inr ⟨removed, rfl⟩
      · intro _
        exact proven.cons rfl
    next =>
      rw [ends_raise]
      exact asked _
  · intro failure answer
    exact asked _

theorem ends_cleanupFailed (during : During machine before record world) (failure : Failure) :
    (cleanupFailed machine failure).Ends world (fun _ _ => False)
      fun _ after => During machine before record after := by
  have publish : ∀ failure : Failure,
      (attempt (persist machine (markFailed world.session.verified failure))).Ends world
        (fun _ after => During machine before record after) fun _ after => During machine before record after := by
    intro failure
    apply ends_attempt
    have changed : During machine before record (world.change (markFailed world.session.verified failure)) :=
      during.change fun _ => rfl
    have phase : (markFailed world.session.verified failure world.session.record).phase = .cleanupPending ∨
        (markFailed world.session.verified failure world.session.record).phase = .removed ∧
          world.session.verified = true := by
      cases world.session.verified with
      | false => exact Or.inl rfl
      | true => exact Or.inr ⟨rfl, rfl⟩
    apply ends_persist
    · exact changed.store phase
    · intro other
      exact ⟨fun _ _ _ => changed.store phase, changed.store phase⟩
    · intro other
      exact ⟨fun _ _ _ => changed.tick, changed.tick⟩
  cases failure with
  | crash =>
      rw [cleanupFailed, ends_raise]
      exact during
  | exception kind message =>
      simp only [cleanupFailed]
      rw [ends_bind, ends_read, ends_bind]
      refine (publish _).mono ?_ fun _ _ after => after
      intro _ after kept
      rw [ends_raise]
      exact kept
  | interrupt kind message =>
      simp only [cleanupFailed]
      rw [ends_bind, ends_read, ends_bind]
      refine (publish _).mono ?_ fun _ _ after => after
      intro _ after kept
      rw [ends_raise]
      exact kept

/-- A world between two operations. -/
structure Safe (machine : Machine) (world : World) : Prop where
  justified : Justified machine world.trace
  recorded : Recorded world

/-- However a cleanup ends, what it did is justified; if it returns, its record is removed. -/
theorem ends_cleanup (safe : Safe machine world) (unverified : world.session.verified = false) :
    (cleanup machine).Ends world
      (fun _ after => During machine world world.session.record after ∧
        ∃ stored, after.disk.get? world.session.record.operationId = some stored ∧ stored.phase = .removed)
      fun _ after => During machine world world.session.record after := by
  rw [cleanup, ends_bind, ends_modify, ends_bind]
  have begun : During machine world world.session.record (world.note (.began world.session.record)) := by
    constructor
    · rfl
    · exact ⟨[], rfl, fun _ member => absurd member List.not_mem_nil⟩
    · exact fun _ _ => rfl
    · exact ⟨trivial, safe.justified⟩
    · intro id stored found
      obtain ⟨same, wrote⟩ := safe.recorded id stored found
      exact ⟨same, List.mem_cons_of_mem _ wrote⟩
    · exact Or.inl rfl
    · intro verified
      rw [show (world.note _).session.verified = world.session.verified from rfl, unverified] at verified
      cases verified
  have first : (attempt (persist machine markPending)).Ends
      (world.note (.began world.session.record))
      (fun _ after => During machine world world.session.record after ∧ after.session.verified = false)
      fun _ after => During machine world world.session.record after := by
    have changed : During machine world world.session.record
        ((world.note (.began world.session.record)).change markPending) := begun.change fun _ => rfl
    apply ends_attempt
    apply ends_persist
    · exact ⟨changed.store (Or.inl rfl), unverified⟩
    · intro other
      exact ⟨fun _ _ _ => ⟨changed.store (Or.inl rfl), unverified⟩, changed.store (Or.inl rfl)⟩
    · intro other
      exact ⟨fun _ _ _ => ⟨changed.tick, unverified⟩, changed.tick⟩
  refine first.mono ?_ fun _ _ after => after
  rintro publication after ⟨during, waiting⟩
  rw [ends_catching]
  have body : (do
      confirm machine
      removeOwned machine
      verifyAbsence machine
      persist machine markRemoved
      if publication.isSome then
        raise (.exception "EnvironmentError" "cleanup verified but state publication failed")
      else pure () : Process Unit).Ends after
      (fun _ final => During machine world world.session.record final ∧
        ∃ stored, final.disk.get? world.session.record.operationId = some stored ∧ stored.phase = .removed)
      fun _ final => During machine world world.session.record final := by
    rw [ends_bind]
    refine (ends_confirm during waiting).mono ?_ fun _ _ final => final
    rintro _ one ⟨during, waiting, known⟩
    rw [ends_bind]
    refine (ends_removeOwned during waiting known).mono ?_ fun _ _ final => final
    rintro _ two ⟨during, waiting, known⟩
    rw [ends_bind]
    refine (ends_verifyAbsence during known).mono ?_ fun _ _ final => final
    rintro _ three ⟨during, verified⟩
    have changed : During machine world world.session.record (three.change markRemoved) :=
      during.change fun _ => rfl
    have stored := changed.store (Or.inr ⟨rfl, verified⟩)
    rw [ends_bind]
    apply ends_persist
    · split
      next =>
        rw [ends_raise]
        exact stored
      next =>
        rw [ends_pure]
        refine ⟨stored, (three.change markRemoved).session.record, ?_, rfl⟩
        rw [← changed.operationId]
        exact Dict.get?_set_self _ _ _
    · exact fun _ => stored
    · exact fun _ => changed.tick
  refine body.mono (fun _ _ done => done) ?_
  intro failure final during
  exact (ends_cleanupFailed during failure).mono (fun _ _ impossible => impossible.elim) fun _ _ done => done

theorem During.safe (during : During machine before record world) : Safe machine world :=
  ⟨during.justified, during.recorded⟩

/-! ### Sessions -/

/-- A safe world in which only the record of one operation may have changed. -/
structure Left (machine : Machine) (before : World) (id : String) (world : World) : Prop where
  safe : Safe machine world
  others : ∀ other, other ≠ id → world.disk.get? other = before.disk.get? other

/-- The operation before its cleanup. -/
structure Using (machine : Machine) (before : World) (id : String) (world : World) : Prop extends
    Left machine before id world where
  operationId : world.session.record.operationId = id
  unverified : world.session.verified = false

variable {id : String}

theorem Using.cleanup (held : Using machine before id world) :
    (cleanup machine).Ends world (fun _ after => Left machine before id after)
      fun _ after => Left machine before id after := by
  have left : ∀ after, During machine world world.session.record after → Left machine before id after := by
    intro after during
    refine ⟨during.safe, ?_⟩
    intro other different
    rw [during.others other (held.operationId ▸ different), held.others other different]
  exact (ends_cleanup held.safe held.unverified).mono (fun _ after both => left after both.1)
    fun _ after during => left after during

theorem Using.tick (held : Using machine before id world) : Using machine before id world.tick :=
  ⟨⟨⟨held.safe.justified, held.safe.recorded⟩, held.others⟩, held.operationId, held.unverified⟩

theorem Using.ask (held : Using machine before id world) {command : Command} (answer : Answer)
    (harmless : ∀ name, command ≠ .remove name) : Using machine before id (world.ask command answer) := by
  refine ⟨⟨⟨⟨?_, held.safe.justified⟩, ?_⟩, held.others⟩, held.operationId, held.unverified⟩
  · cases command with
    | remove name => exact absurd rfl (harmless name)
    | info => trivial
    | inspect name => trivial
    | create name owner operation => trivial
    | start name => trivial
  · intro other stored found
    obtain ⟨same, wrote⟩ := held.safe.recorded other stored found
    exact ⟨same, List.mem_cons_of_mem _ wrote⟩

theorem Using.change (held : Using machine before id world) {change : Ownership → Ownership}
    (same : ∀ record, (change record).operationId = record.operationId) : Using machine before id (world.change change) :=
  ⟨⟨⟨held.safe.justified, held.safe.recorded⟩, held.others⟩, (same _).trans held.operationId, held.unverified⟩

theorem Using.store (held : Using machine before id world) (phase : world.session.record.phase ≠ .removed) :
    Using machine before id world.store := by
  refine ⟨⟨⟨⟨fun removed => absurd removed phase, held.safe.justified⟩, ?_⟩, ?_⟩, held.operationId, held.unverified⟩
  · intro other stored found
    change (world.disk.set world.session.record.operationId world.session.record).get? other = _ at found
    rw [Dict.get?_set] at found
    split at found
    next same =>
      obtain rfl := Option.some.inj found
      exact ⟨same.symm, List.mem_cons_self⟩
    next =>
      obtain ⟨same, wrote⟩ := held.safe.recorded other stored found
      exact ⟨same, List.mem_cons_of_mem _ wrote⟩
  · intro other different
    change (world.disk.set world.session.record.operationId world.session.record).get? other = _
    rw [held.operationId, Dict.get?_set_ne _ _ different]
    exact held.others other different

/-- A publication that does not claim a removal. -/
theorem Using.persist (held : Using machine before id world) {change : Ownership → Ownership}
    (same : ∀ record, (change record).operationId = record.operationId)
    (phase : (change world.session.record).phase ≠ .removed) :
    (persist machine change).Ends world (fun _ after => Using machine before id after ∧
        after.session.record = change world.session.record) fun _ after => Using machine before id after := by
  have changed := held.change same
  apply ends_persist
  · exact ⟨changed.store phase, rfl⟩
  · exact fun _ => changed.store phase
  · exact fun _ => changed.tick

theorem Using.checked (held : Using machine before id world) {command : Command}
    (harmless : ∀ name, command ≠ .remove name) :
    (checked machine command).Ends world (fun _ after => Using machine before id after)
      fun _ after => Using machine before id after :=
  ends_checked (fun _ => held.ask _ harmless) fun _ answer => held.ask answer harmless

theorem ends_guarded {computation : Process Unit} (ends : computation.Ends world (fun _ after => Using machine before id after)
    fun _ after => Using machine before id after) :
    (onFailure computation (Docker.cleanup machine)).Ends world (fun _ after => Using machine before id after)
      fun _ after => Left machine before id after := by
  apply ends_onFailure
  refine ends.mono (fun _ _ returned => returned) ?_
  intro failure after raised
  exact ⟨fun _ => raised.toLeft, fun _ => raised.cleanup⟩

theorem ends_enter (held : Using machine before id world) (intent : world.session.record.phase = .intent) :
    (enter machine).Ends world (fun _ after => Using machine before id after)
      fun _ after => Left machine before id after := by
  apply ends_guarded
  rw [ends_bind]
  have phase : world.session.record.phase ≠ .removed := by
    rw [intent]
    exact nofun
  refine (held.persist (by intro record; rfl) phase).mono ?_ fun _ _ after => after
  rintro _ one ⟨held, _⟩
  rw [ends_bind]
  refine ends_outside ?_ fun _ => held.tick
  rw [ends_bind, ends_read, ends_bind]
  refine (held.tick.checked (by rintro name ⟨⟩)).mono ?_ fun _ _ after => after
  intro created two held
  split
  next identifier _ =>
    split
    next =>
      rw [ends_bind]
      refine (held.persist (by intro record; rfl) (by rintro ⟨⟩)).mono ?_ fun _ _ after => after
      rintro _ three ⟨held, _⟩
      rw [ends_bind]
      refine (held.checked (by rintro name ⟨⟩)).mono ?_ fun _ _ after => after
      intro _ four held
      rw [ends_bind]
      refine ends_outside ?_ fun _ => held.tick
      rw [ends_bind]
      refine (held.tick.checked (by rintro name ⟨⟩)).mono ?_ fun _ _ after => after
      intro _ five held
      exact (held.persist (by intro record; rfl) (by rintro ⟨⟩)).mono (fun _ _ both => both.1) fun _ _ after => after
    next =>
      rw [ends_raise]
      exact held
  next =>
    rw [ends_raise]
    exact held

theorem Safe.tick (safe : Safe machine world) : Safe machine world.tick := ⟨safe.justified, safe.recorded⟩

theorem ends_useSession (safe : Safe machine world) {record : Ownership} (intent : record.phase = .intent) :
    (useSession machine record).Ends world (fun _ after => Left machine world record.operationId after)
      fun _ after => Left machine world record.operationId after := by
  have ready : Using machine world record.operationId (world.tick.hold record) :=
    ⟨⟨⟨safe.justified, safe.recorded⟩, fun _ _ => rfl⟩, rfl, rfl⟩
  rw [useSession, ends_bind, lock, ends_bind, ends_read, ends_bind, ends_modify]
  split
  next =>
    rw [ends_pure, ends_bind, ends_modify, ends_bind]
    refine (ends_enter ready intent).mono ?_ fun _ _ after => after
    intro _ one held
    rw [ends_bind]
    have body : (onFailure (outside machine.body) (cleanup machine)).Ends one
        (fun _ after => Using machine world record.operationId after)
        fun _ after => Left machine world record.operationId after :=
      ends_guarded (ends_outside held.tick fun _ => held.tick)
    refine body.mono ?_ fun _ _ after => after
    intro _ two held
    exact held.cleanup
  next =>
    rw [ends_raise]
    exact ⟨safe.tick, fun _ _ => rfl⟩

/-! ### Recovery -/

/-- Removed records stay as they are. -/
def Keeps (world after : World) : Prop :=
  ∀ id record, world.disk.get? id = some record → record.phase = .removed → after.disk.get? id = some record

theorem Keeps.trans {one two three : World} (first : Keeps one two) (second : Keeps two three) : Keeps one three :=
  fun id record found removed => second id record (first id record found removed) removed

def Removed (world : World) (id : String) : Prop :=
  ∃ record, world.disk.get? id = some record ∧ record.phase = .removed

theorem Removed.keep {one two : World} (kept : Keeps one two) (removed : Removed one id) : Removed two id := by
  obtain ⟨record, found, phase⟩ := removed
  exact ⟨record, kept id record found phase, phase⟩

/-- The operation whose cleanup the event begins. -/
def begunId : Event → Option String
  | .began record => some record.operationId
  | _ => none

/-- Between the two worlds, the cleanups of these operations began, in this order. -/
def Retried (world after : World) (ids : List String) : Prop :=
  ∃ later, after.trace = later ++ world.trace ∧ later.reverse.filterMap begunId = ids

theorem Retried.trans {one two three : World} {first second : List String} (early : Retried one two first)
    (late : Retried two three second) : Retried one three (first ++ second) := by
  obtain ⟨later, trace, rfl⟩ := early
  obtain ⟨latest, trace', rfl⟩ := late
  refine ⟨latest ++ later, ?_, ?_⟩
  · rw [trace', trace, List.append_assoc]
  · rw [List.reverse_append, List.filterMap_append]

theorem During.retried (during : During machine before record world) :
    Retried before world [record.operationId] := by
  obtain ⟨later, trace, quiet⟩ := during.trace
  refine ⟨later ++ [.began record], ?_, ?_⟩
  · rw [trace, List.append_assoc, List.singleton_append]
  · have none : later.reverse.filterMap begunId = [] := by
      rw [List.filterMap_eq_nil_iff]
      intro event member
      cases event with
      | began other =>
          have begun := quiet _ (List.mem_reverse.mp member) other.operationId
          simp [begins] at begun
      | asked _ _ _ => rfl
      | verified _ => rfl
      | wrote _ => rfl
    rw [List.reverse_append, List.reverse_singleton, List.singleton_append, List.filterMap_cons, none]
    rfl

/-- The operations among these whose records are not removed. -/
def pending (world : World) (ids : List String) : List String :=
  ids.filter fun id => (world.disk.get? id).any fun record => record.phase ≠ .removed

theorem pending_congr {one two : World} {ids : List String}
    (same : ∀ id ∈ ids, two.disk.get? id = one.disk.get? id) : pending two ids = pending one ids := by
  apply List.filter_congr
  intro id member
  rw [same id member]

theorem During.keeps (during : During machine before record world)
    (live : before.disk.get? record.operationId = some record) (phase : record.phase ≠ .removed) :
    Keeps before world := by
  intro id stored found removed
  by_cases same : id = record.operationId
  · rw [same, live] at found
    obtain rfl := Option.some.inj found
    exact absurd removed phase
  · rw [during.others id same]
    exact found

/-- A recovery returns after it removed every pending operation, or ends in the cleanup of one of them
after it removed those before it. -/
theorem ends_recoverNames {ids : List String} (distinct : ids.Nodup) (safe : Safe machine world) :
    (recoverNames machine ids).Ends world
      (fun _ after => Safe machine after ∧ Keeps world after ∧ Retried world after (pending world ids) ∧
        ∀ id ∈ pending world ids, Removed after id)
      fun _ after => Safe machine after ∧ Keeps world after ∧ ∃ front last back,
        pending world ids = front ++ last :: back ∧ Retried world after (front ++ [last]) ∧
        ∀ id ∈ front, Removed after id := by
  induction ids generalizing world with
  | nil =>
      rw [recoverNames, ends_pure]
      exact ⟨safe, fun _ _ found _ => found, ⟨[], rfl, rfl⟩, fun _ member => absurd member List.not_mem_nil⟩
  | cons id rest ih =>
      obtain ⟨fresh, distinct⟩ := List.nodup_cons.mp distinct
      rw [recoverNames, ends_bind, ends_read]
      split
      next found =>
        have skipped : pending world (id :: rest) = pending world rest := by
          rw [pending, List.filter_cons, if_neg (by simp [found])]
          rfl
        rw [skipped]
        exact ih distinct safe
      next record found =>
        split
        next removed =>
          have skipped : pending world (id :: rest) = pending world rest := by
            rw [pending, List.filter_cons, if_neg (by simp [found, removed])]
            rfl
          rw [skipped]
          exact ih distinct safe
        next live =>
          have tried : pending world (id :: rest) = id :: pending world rest := by
            rw [pending, List.filter_cons, if_pos (by simp [found, live])]
            rfl
          have same : record.operationId = id := (safe.recorded id record found).1
          have present : (world.hold record).disk.get? record.operationId = some record := by
            rw [same]
            exact found
          rw [ends_bind, ends_modify, ends_bind, tried]
          have cleaned : (cleanup machine).Ends (world.hold record) _ _ :=
            @ends_cleanup machine (world.hold record) ⟨safe.justified, safe.recorded⟩ rfl
          refine cleaned.mono ?_ ?_
          · rintro _ one ⟨during, stored, there, removed⟩
            have kept : Keeps world one := during.keeps present live
            have retried : Retried world one [id] := same ▸ during.retried
            have gone : Removed one id := ⟨stored, same ▸ there, removed⟩
            have later : pending one rest = pending world rest := by
              apply pending_congr
              intro other member
              apply during.others
              rintro rfl
              exact fresh (same ▸ member)
            rw [ends_bind]
            refine (ih distinct during.safe).mono ?_ ?_
            · rintro names after ⟨safe, keeps, more, all⟩
              rw [ends_pure]
              rw [later] at more all
              refine ⟨safe, kept.trans keeps, retried.trans more, ?_⟩
              intro other member
              rcases List.mem_cons.mp member with rfl | inside
              · exact gone.keep keeps
              · exact all other inside
            · rintro failure after ⟨safe, keeps, front, last, back, split, more, all⟩
              rw [later] at split
              refine ⟨safe, kept.trans keeps, id :: front, last, back, by rw [split, List.cons_append],
                retried.trans more, ?_⟩
              intro other member
              rcases List.mem_cons.mp member with rfl | inside
              · exact gone.keep keeps
              · exact all other inside
          · intro failure after during
            exact ⟨during.safe, during.keeps present live, [], id, pending world rest, rfl, same ▸ during.retried,
              fun _ member => absurd member List.not_mem_nil⟩

/-! ### Runs -/

theorem names_nodup (world : World) : (names world).Nodup := Sorting.nodup_sortBy.mpr world.disk.nodup

theorem mem_pending {record : Ownership} (found : world.disk.get? id = some record) (live : record.phase ≠ .removed) :
    id ∈ pending world (names world) := by
  have member : id ∈ world.disk.keys := by
    rw [Dict.mem_keys_iff_isSome, found]
    rfl
  rw [pending, List.mem_filter, names, Sorting.mem_sortBy]
  exact ⟨member, by simp [found, live]⟩

/-- What a recovery that returns has done. -/
structure Recovered (machine : Machine) (world after : World) : Prop where
  safe : Safe machine after
  kept : Keeps world after
  retried : Retried world after (pending world (names world))
  removed : ∀ id ∈ pending world (names world), Removed after id

/-- What a recovery that fails has done, if it had the lock. -/
structure Interrupted (machine : Machine) (world after : World) : Prop where
  safe : Safe machine after
  kept : Keeps world after
  retried : machine.locked world.clock = true → ∃ front last back,
    pending world (names world) = front ++ last :: back ∧ Retried world after (front ++ [last]) ∧
      ∀ id ∈ front, Removed after id

theorem ends_recoverOwned (safe : Safe machine world) :
    (recoverOwned machine).Ends world (fun _ after => Recovered machine world after)
      fun _ after => Interrupted machine world after := by
  rw [recoverOwned, ends_bind, lock, ends_bind, ends_read, ends_bind, ends_modify]
  split
  next =>
    rw [ends_pure, ends_bind, ends_read]
    have recovered := ends_recoverNames (names_nodup world) safe.tick
    refine recovered.mono ?_ ?_
    · rintro _ after ⟨safe, kept, retried, removed⟩
      exact ⟨safe, kept, retried, removed⟩
    · rintro _ after ⟨safe, kept, stopped⟩
      exact ⟨safe, kept, fun _ => stopped⟩
  next unlocked =>
    rw [ends_raise]
    exact ⟨safe.tick, fun _ _ found _ => found, fun locked => absurd locked unlocked⟩

theorem step_left (safe : Safe machine world) {after : World} (step : Step machine world after) :
    Safe machine after ∧ Keeps world after := by
  cases step with
  | session record fresh intent unnamed =>
      have left := final_of_ends (ends_useSession safe intent)
      refine ⟨left.safe, ?_⟩
      intro id stored found _
      rw [left.others id]
      · exact found
      · rintro rfl
        rw [fresh] at found
        cases found
  | recovery =>
      refine @final_of_ends _ _ _ _ world (fun after => Safe machine after ∧ Keeps world after) ?_
      exact (ends_recoverOwned safe).mono (fun _ _ recovered => ⟨recovered.safe, recovered.kept⟩)
        fun _ _ interrupted => ⟨interrupted.safe, interrupted.kept⟩

theorem reachable_safe (reached : Reachable machine world) : Safe machine world := by
  induction reached with
  | start session =>
      refine ⟨trivial, ?_⟩
      intro id record found
      cases found
  | step _ step safe => exact (step_left safe step).1

theorem justified_split {later earlier : List Event} {event : Event}
    (justified : Justified machine (later ++ event :: earlier)) : JustifiedBy machine earlier event := by
  induction later with
  | nil => exact justified.1
  | cons first rest ih => exact ih justified.2

/-- Everything that is promised of the cleanup in a world. -/
structure CleanupSafe (machine : Machine) (world : World) : Prop where
  removed : ∀ id record, world.disk.get? id = some record → record.phase = .removed → ∃ later earlier,
    world.trace = later ++ .wrote record :: earlier ∧ Proven machine record earlier
  verified : ∀ later record earlier, world.trace = later ++ .verified record :: earlier → Proven machine record earlier
  removal : ∀ later record name answer earlier,
    world.trace = later ++ .asked record (.remove name) answer :: earlier →
      name = record.name ∧ since record.operationId (owned machine record) earlier = true
  kept : ∀ after, Step machine world after → Keeps world after
  covered : ∀ id record, world.disk.get? id = some record → record.phase ≠ .removed →
    id ∈ pending world (names world)
  recovered : ∀ ids, (recoverOwned machine world).1 = .ok ids → Recovered machine world (recoverOwned machine world).2
  interrupted : ∀ failure, (recoverOwned machine world).1 = .error failure →
    Interrupted machine world (recoverOwned machine world).2

/-- In every run, records are removed and absences verified only after the daemon was confirmed and the
container observed absent in the same cleanup, containers are removed only after both labels matched, removed
records stay removed, and a recovery retries the pending operations in order until one cleanup fails. -/
theorem cleanup_safe (reached : Reachable machine world) : CleanupSafe machine world := by
  have safe := reachable_safe reached
  constructor
  · intro id record found removed
    obtain ⟨_, wrote⟩ := safe.recorded id record found
    obtain ⟨later, earlier, split⟩ := List.append_of_mem wrote
    have justified := safe.justified
    rw [split] at justified
    exact ⟨later, earlier, split, justified_split justified removed⟩
  · intro later record earlier split
    have justified := safe.justified
    rw [split] at justified
    exact justified_split justified
  · intro later record name answer earlier split
    have justified := safe.justified
    rw [split] at justified
    exact justified_split justified
  · intro after step
    exact (step_left safe step).2
  · intro id record found live
    exact mem_pending found live
  · intro ids returned
    have same : recoverOwned machine world = (.ok ids, (recoverOwned machine world).2) := Prod.ext returned rfl
    have done := ends_of_ok (ends_recoverOwned safe) same
    exact done
  · intro failure raised
    have same : recoverOwned machine world = (.error failure, (recoverOwned machine world).2) := Prod.ext raised rfl
    have stopped := ends_of_error (ends_recoverOwned safe) same
    exact stopped

/-! ### Samples -/

section Sample

def intentOf (name : String) : Ownership := ⟨name, "token", "daemon", name, none, .intent, none⟩

/-- The controller dies right after each intent, and later the daemon does not answer in time. -/
def silent : Machine where
  answer _ _ := .observed ⟨.timeout, 0, [], []⟩
  write _ _ := .kept
  locked _ := true
  admission _ := some .crash
  effective _ := none
  body _ := none
  text _ := none
  json _ := none

def idle : Session := ⟨intentOf "", false⟩

def oneLeft : World := (useSession silent (intentOf "a") (World.start idle)).2

def twoLeft : World := (useSession silent (intentOf "b") oneLeft).2

theorem twoLeft_reachable : Reachable silent twoLeft :=
  .step (.step (.start idle) (.session (intentOf "a") rfl rfl rfl)) (.session (intentOf "b") rfl rfl rfl)

theorem cleanup_safe_sample : CleanupSafe silent twoLeft := cleanup_safe twoLeft_reachable

/-- A recovery does not come to the second of two pending operations when the first one fails. -/
theorem later_record_not_retried : Reachable silent twoLeft ∧ silent.locked twoLeft.clock = true ∧
    pending twoLeft (names twoLeft) = ["a", "b"] ∧
    (recoverOwned silent twoLeft).2.trace.all (fun event => !begins "b" event) = true :=
  ⟨twoLeft_reachable, rfl, by decide +kernel, by decide +kernel⟩

end Sample

end Docker

end FeatureRl
