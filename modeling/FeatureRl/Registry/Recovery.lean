import FeatureRl.Registry.Changes

/-!
Crash recovery. Whatever sequence of calls the processes make and wherever each of them is
interrupted, the journal stays a prefix of the committed lines, and recovery completes it.
-/

namespace FeatureRl

open Checked Effects

namespace Storage

variable {sha256 : Bytes → Digest} {world : World} {storeRoot : StoreRoot} {database : Database}
  {loaded : Loaded} {capacities : List RegistryLimits} {journal : Bytes}

/-! ### Creating a registry -/

/-- A world in which the creation of a registry has made some progress. -/
structure Creating (world after : World) : Prop where
  fresh : Fresh after.directory
  handle : after.handle = world.handle
  advances : Advances world.directory after.directory
  remaining : after.remaining = none ↔ world.remaining = none

theorem Creating.refl (fresh : Fresh world.directory) : Creating world world :=
  ⟨fresh, rfl, Advances.refl _, Iff.rfl⟩

theorem Creating.trans {middle after : World} (before : Creating world middle)
    (later : Creating middle after) : Creating world after :=
  ⟨later.fresh, later.handle.trans before.handle, before.advances.trans later.advances,
    later.remaining.trans before.remaining⟩

/-- One durable effect that keeps the directory fresh. -/
theorem creating_durable {change : Directory → Directory}
    (fresh : Fresh (change world.directory))
    (newer : world.directory.version < (change world.directory).version)
    {done : Unit → World → Prop} {failed : Failure → World → Prop}
    (continues : ∀ after, Creating world after → after.directory = change world.directory →
      done () after)
    (stopped : world.remaining ≠ none → failed interrupted world) :
    (durable change).Ends world done failed := by
  rw [ends_durable]
  refine ⟨fun stops => stopped (by simp [stops]), fun _ => ?_⟩
  exact continues _ ⟨fresh, rfl, .inr newer, by simp⟩ rfl

theorem ensureLock_fresh (fresh : Fresh world.directory)
    {done : Unit → World → Prop} {failed : Failure → World → Prop}
    (continues : ∀ after, Creating world after → after.directory.lock = true → done () after)
    (stopped : world.remaining ≠ none → failed interrupted world) :
    ensureLock.Ends world done failed := by
  rw [ensureLock, ends_bind, ends_read]
  cases locked : world.directory.lock with
  | true =>
      rw [ends_pure]
      exact continues world (.refl fresh) locked
  | false =>
      have missing : world.directory.file = .missing := by
        rcases fresh.lock with lock | file
        · rw [locked] at lock
          cases lock
        · exact file
      simp only [missing]
      refine creating_durable ⟨.inl rfl, fresh.file, fresh.empty⟩ (Nat.lt_succ_self _) ?_ stopped
      intro after creating same
      exact continues after creating (same ▸ rfl)

theorem ensureJournal_fresh (fresh : Fresh world.directory) (locked : world.directory.lock = true)
    {done : Unit → World → Prop} {failed : Failure → World → Prop}
    (continues : ∀ after, Creating world after → after.directory.lock = true →
      after.directory.journal = some [] → done () after)
    (stopped : world.remaining ≠ none → failed interrupted world) :
    ensureJournal.Ends world done failed := by
  rw [ensureJournal, ends_bind, ends_read]
  cases written : world.directory.journal with
  | some journal =>
      have empty := fresh.empty
      rw [Directory.journalBytes, written, Option.getD_some] at empty
      subst empty
      rw [ends_pure]
      exact continues world (.refl fresh) locked written
  | none =>
      simp only [ends_bind, ends_refuse, fresh.file, Option.isSome_none, Bool.false_eq_true,
        false_imp_iff, not_false_eq_true, true_imp_iff, true_and]
      refine creating_durable ⟨.inl locked, fresh.file, rfl⟩ (Nat.lt_succ_self _) ?_ stopped
      intro after creating same
      exact continues after creating (same ▸ locked) (same ▸ rfl)

theorem ensureFile_fresh (fresh : Fresh world.directory) (locked : world.directory.lock = true)
    (written : world.directory.journal = some [])
    {done : Unit → World → Prop} {failed : Failure → World → Prop}
    (continues : ∀ after, Creating world after → after.directory.lock = true →
      after.directory.journal = some [] → after.directory.file = .blank → done () after)
    (stopped : world.remaining ≠ none → failed interrupted world) :
    ensureFile.Ends world done failed := by
  have absent := fresh.file
  rw [ensureFile, ends_bind, ends_read]
  rw [Directory.database] at absent
  cases file : world.directory.file with
  | missing =>
      simp only [ends_bind, ends_refuse, fresh.empty, ne_eq, not_true_eq_false, false_imp_iff,
        not_false_eq_true, true_imp_iff, true_and]
      refine creating_durable ⟨.inl locked, rfl, fresh.empty⟩ (Nat.lt_succ_self _) ?_ stopped
      intro after creating same
      exact continues after creating (same ▸ locked) (same ▸ written) (same ▸ rfl)
  | blank =>
      rw [ends_pure]
      exact continues world (.refl fresh) locked written file
  | tables database =>
      rw [file] at absent
      cases absent

/-- The database that creation writes. -/
def createdDatabase (handle : Handle) : Database := ⟨handle.configuration, 0, [], Dict.empty⟩

/-- A world in which the tables of a registry have just been created. -/
structure Created (world after : World) : Prop where
  lock : after.directory.lock = true
  journal : after.directory.journal = some []
  file : after.directory.file = .tables (createdDatabase world.handle)
  handle : after.handle = world.handle
  advances : Advances world.directory after.directory
  remaining : after.remaining = none ↔ world.remaining = none

theorem prepare_fresh (fresh : Fresh world.directory)
    {done : Unit → World → Prop} {failed : Failure → World → Prop}
    (created : ∀ after, Created world after → done () after)
    (stopped : ∀ after, Creating world after → world.remaining ≠ none → failed interrupted after) :
    prepare.Ends world done failed := by
  have later {middle : World} (before : Creating world middle) :
      middle.remaining ≠ none → failed interrupted middle :=
    fun interrupts => stopped middle before (mt before.remaining.mpr interrupts)
  simp only [prepare, ends_bind, ends_shape, fresh.empty, List.length_nil, not_lt_zero,
    false_imp_iff, not_false_eq_true, true_imp_iff, true_and]
  refine ensureLock_fresh fresh ?_ (later (.refl fresh))
  intro first start locked
  refine ensureJournal_fresh start.fresh locked ?_ (later start)
  intro second next locked written
  have two := start.trans next
  refine ensureFile_fresh two.fresh locked written ?_ (later two)
  intro third next locked written blank
  have three := two.trans next
  simp only [createTables, ends_bind, ends_read, three.fresh.file, ends_refuse, three.fresh.empty,
    ne_eq, not_true_eq_false, false_imp_iff, not_false_eq_true, true_imp_iff, true_and]
  rw [ends_durable]
  refine ⟨fun stops => later three (by simp [stops]), fun _ => ?_⟩
  refine created _ ⟨locked, written, ?_, three.handle, ?_, ?_⟩
  · rw [three.handle]
    rfl
  · exact three.advances.trans (.inr (Nat.lt_succ_self _))
  · simpa using three.remaining

/-- The history of a registry without events. -/
def createdHistory (limits : RegistryLimits) : Loaded := ⟨State.empty limits, [], []⟩

theorem Created.recorded {after : World} {limits : RegistryLimits}
    (created : Created world after)
    (configured : world.handle.configuration = config storeRoot limits) :
    Recorded sha256 after.directory storeRoot (createdDatabase world.handle)
      (createdHistory limits) [limits] [] := by
  refine ⟨created.lock, created.file, created.journal, ?_, ⟨Nat.le_refl _, ?_, ?_⟩⟩
  · refine ⟨⟨limits, .start⟩, rfl, rfl, rfl, configured, ?_, ?_⟩
    · simp [checkHistoryBounds, refuse_eq_ok, createdHistory, totalSize, longest]
    · simp [checkRecordBounds, refuse_eq_ok, createdHistory, State.rows, State.rowsIn, State.empty,
        totalSize, longest, Dict.empty, Dict.values]
  · exact List.prefix_refl _
  · exact List.prefix_refl _

/-- How opening a new registry leaves a world. -/
structure Opens (sha256 : Bytes → Digest) (storeRoot : StoreRoot) (limits : RegistryLimits)
    (world after : World) : Prop where
  settled : Settled sha256 after.directory storeRoot ⟨config storeRoot limits, 0, [], Dict.empty⟩
    (createdHistory limits) [limits]
  handle : after.handle = remembering (Handle.created storeRoot limits) after.directory.version
    (createdHistory limits)

theorem adopted_created (storeRoot : StoreRoot) (limits : RegistryLimits) :
    adopted (Handle.created storeRoot limits) storeRoot limits = Handle.created storeRoot limits := rfl

/-- Opening the first handle of a directory. -/
theorem recover_fresh {limits : RegistryLimits} (fresh : Fresh world.directory)
    (client : world.handle = Handle.created storeRoot limits)
    {done : RecoveryReport → World → Prop} {failed : Failure → World → Prop}
    (opened : ∀ after report, Opens sha256 storeRoot limits world after → done report after)
    (created : ∀ after database journal, world.remaining ≠ none →
      Recorded sha256 after.directory storeRoot database (createdHistory limits) [limits] journal →
      failed interrupted after)
    (stopped : ∀ after, world.remaining ≠ none → Fresh after.directory → failed interrupted after) :
    (recover sha256).Ends world done failed := by
  have configured : world.handle.configuration = config storeRoot limits := by
    rw [client]
    rfl
  rw [recover, session, ends_bind, ends_bind]
  refine prepare_fresh fresh ?_ (fun after creating interrupts => stopped after interrupts creating.fresh)
  intro after new
  have recorded : Recorded sha256 after.directory storeRoot (createdDatabase world.handle)
      (createdHistory limits) [limits] [] := new.recorded configured
  have handle : after.handle = Handle.created storeRoot limits := new.handle.trans client
  refine adopt_recorded recorded ?_ ?_
  · intro _
    have kept : ({ after with handle := adopted after.handle storeRoot limits } : World) = after := by
      rw [handle, adopted_created, ← handle]
    have limited : after.handle.limits = (createdHistory limits).state.limits := by
      rw [handle]
      rfl
    have faithful : Faithful after.directory (createdDatabase world.handle) (createdHistory limits) []
        after.handle := by
      constructor <;> · rw [handle]; simp [Handle.created]
    have same : ({ after with
        handle := adopted after.handle storeRoot (createdHistory limits).state.limits } : World) =
        after := kept
    rw [same, ends_bind]
    refine recovered_ends recorded limited faithful ?_ ?_ ?_
    · intro final report recovers _
      rw [ends_pure]
      refine opened final report ⟨?_, ?_⟩
      · have settled := recovers.settled
        rw [createdDatabase, configured] at settled
        exact settled
      · rw [recovers.handle, handle]
    · intro final torn
      obtain ⟨journal, part⟩ := torn.recorded
      exact created final _ journal (mt new.remaining.mpr torn.remaining) part
    · intro unknown
      rw [handle] at unknown
      exact absurd (List.mem_singleton_self _) unknown
  · intro other
    rw [handle] at other
    exact absurd rfl other

/-! ### Clients of a registry that has moved on -/

/-- The history has stayed the same or grown by one accepted event. -/
inductive Grows (sha256 : Bytes → Digest) : Loaded → List RegistryLimits → Loaded →
    List RegistryLimits → Prop
  | same {first before} : Grows sha256 first before first before
  | event {first before event next} (linked : Linked sha256 first.events event)
      (applied : first.state.apply sha256 event.action event.data.val = .ok next) :
      Grows sha256 first before (extended first event next) (extendedCapacities before event next)

theorem Grows.raw_prefix {first second : Loaded} {before after : List RegistryLimits}
    (grows : Grows sha256 first before second after) : first.raw <+: second.raw := by
  cases grows with
  | same => exact List.prefix_refl _
  | event linked applied => exact List.prefix_append _ _

theorem Grows.events_prefix {first second : Loaded} {before after : List RegistryLimits}
    (grows : Grows sha256 first before second after) : first.events <+: second.events := by
  cases grows with
  | same => exact List.prefix_refl _
  | event linked applied => exact List.prefix_append _ _

theorem Grows.capacities_mono {first second : Loaded} {before after : List RegistryLimits}
    (grows : Grows sha256 first before second after) {limits : RegistryLimits}
    (known : limits ∈ before) : limits ∈ after := by
  cases grows with
  | same => exact known
  | event linked applied => exact mem_extendedCapacities known _ _

theorem Appends.grows {request : Request} {now : Timestamp} {event : RegistryEvent} {next : State}
    (appends : Appends sha256 loaded request now event next) :
    Grows sha256 loaded capacities (extended loaded event next)
      (extendedCapacities capacities event next) := by
  obtain ⟨data, key, _, _, rfl⟩ := appends.built
  exact .event (linked_nextEvent _ _ _ _ _) appends.applied

/-- A handle stays a client when others write to the directory. -/
theorem Client.advance {directory later : Directory} {first second : Database} {next : Loaded}
    {before after : List RegistryLimits} {old new : Bytes} {handle : Handle}
    (client : Client directory storeRoot first loaded before old handle)
    (recorded : Recorded sha256 directory storeRoot first loaded before old)
    (rerecorded : Recorded sha256 later storeRoot second next after new)
    (advances : Advances directory later) (kept : later = directory → next = loaded)
    (grows : ∀ limits ∈ before, limits ∈ after) :
    Client later storeRoot second next after new handle := by
  refine ⟨⟨?_, ?_⟩, client.rooted, grows _ client.admitted⟩
  · intro version stored snapshot
    have older := client.older version stored snapshot
    rcases advances with rfl | newer
    · exact older
    · exact older.trans newer.le
  · intro stored snapshot
    rcases advances with rfl | newer
    · obtain rfl : second = first := by
        have same := rerecorded.file.symm.trans recorded.file
        injection same
      obtain rfl : new = old := Option.some.inj (rerecorded.journal_eq.symm.trans recorded.journal_eq)
      rw [kept rfl]
      exact client.current stored snapshot
    · have older := client.older later.version stored snapshot
      omega

/-- A handle that has verified the directory as it is. -/
theorem Settled.client {directory : Directory} {handle : Handle}
    (settled : Settled sha256 directory storeRoot database loaded capacities)
    (snapshot : handle.snapshot = some (directory.version, loaded))
    (rooted : handle.storeRoot = storeRoot) (admitted : handle.requestedLimits ∈ capacities) :
    Client directory storeRoot database loaded capacities loaded.raw.flatten handle := by
  refine ⟨⟨?_, ?_⟩, rooted, admitted⟩
  · intro version stored found
    obtain ⟨rfl, _⟩ := Prod.mk.inj (Option.some.inj (snapshot.symm.trans found))
    exact Nat.le_refl _
  · intro stored found
    obtain ⟨_, rfl⟩ := Prod.mk.inj (Option.some.inj (snapshot.symm.trans found))
    exact ⟨rfl, rfl, settled.acknowledged⟩

end Storage

end FeatureRl
