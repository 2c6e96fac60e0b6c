import FeatureRl.Registry.Configuration
import FeatureRl.Registry.History

/-!
What the durable files of a registry satisfy between any two effects: the database holds a
committed history and the journal a prefix of its lines that no acknowledgement exceeds.
-/

namespace FeatureRl

open Checked Effects

namespace Storage

variable {sha256 : Bytes → Digest}

/-! ### Journals of committed lines -/

/-- A prefix of the committed lines that holds at least the acknowledged ones. -/
structure Journaled (raw : List Bytes) (acknowledged : Nat) (journal : Bytes) : Prop where
  counted : acknowledged ≤ raw.length
  kept : (raw.take acknowledged).flatten <+: journal
  begins : journal <+: raw.flatten

theorem journaled_complete (raw : List Bytes) : Journaled raw raw.length raw.flatten :=
  ⟨Nat.le_refl _, by simp, List.prefix_refl _⟩

theorem flatten_take_initial (raw : List Bytes) {less more : Nat} (below : less ≤ more) :
    (raw.take less).flatten <+: (raw.take more).flatten := by
  obtain ⟨extra, rfl⟩ := Nat.exists_eq_add_of_le below
  rw [List.take_add, List.flatten_append]
  exact List.prefix_append _ _

/-- A committed line that follows the complete lines of a prefix is not contained in its
torn tail. -/
theorem acknowledged_le {raw : List Bytes} (lines : ∀ line ∈ raw, Lines.IsLine line)
    {acknowledged count : Nat} (bounded : acknowledged ≤ raw.length) {tail : Bytes}
    (torn : (10 : UInt8) ∉ tail)
    (kept : (raw.take acknowledged).flatten <+: (raw.take count).flatten ++ tail) :
    acknowledged ≤ count := by
  by_contra above
  have inside : count < raw.length := by omega
  have longer : (raw.take (count + 1)).flatten <+: (raw.take count).flatten ++ tail :=
    (flatten_take_initial raw (by omega)).trans kept
  rw [List.take_succ_eq_append_getElem inside, List.flatten_append, List.flatten_singleton,
    List.prefix_append_right_inj] at longer
  obtain ⟨body, _, shape⟩ := lines _ (List.getElem_mem inside)
  exact torn (longer.subset (by simp [shape]))

theorem checkJournal_of_journaled {raw : List Bytes} (lines : ∀ line ∈ raw, Lines.IsLine line)
    {acknowledged : Nat} {journal : Bytes} (journaled : Journaled raw acknowledged journal) :
    ∃ suffix tail, checkJournal raw acknowledged journal = .ok (suffix, tail) ∧
      journal ++ suffix = raw.flatten := by
  obtain ⟨count, tail, found, bounded, next, torn⟩ :=
    Lines.split_of_prefix lines journaled.begins
  have shape := Lines.flatten_split journal
  have clean := Lines.tail_split journal
  rw [found] at shape clean
  simp only at shape clean
  have length : (raw.take count).length = count := by simp [bounded]
  have acknowledged_le := acknowledged_le lines journaled.counted clean (shape ▸ journaled.kept)
  have inside : tail ≠ [] → count ≠ raw.length := by
    rintro nonempty rfl
    simp at next
    exact nonempty next
  refine ⟨(raw.drop count).flatten.drop tail.length, tail, ?_, ?_⟩
  · simp only [checkJournal, found, length, bind_eq_ok, refuse_eq_ok]
    refine ⟨(), by have := journaled.counted; omega, (), ?_, (), ?_, trivial⟩
    · simp [bounded]
    · rintro ⟨nonempty, last | other⟩
      · exact inside nonempty last
      · exact other (torn nonempty)
  · obtain ⟨rest, joined⟩ := next
    rw [← joined, List.drop_left, ← shape, List.append_assoc, joined, ← List.flatten_append,
      List.take_append_drop]

theorem journaled_of_checkJournal {raw : List Bytes} {acknowledged : Nat} {journal : Bytes}
    {pieces : Bytes × Bytes} (checked : checkJournal raw acknowledged journal = .ok pieces) :
    Journaled raw acknowledged journal := by
  have shape := Lines.flatten_split journal
  simp only [checkJournal, bind_eq_ok, refuse_eq_ok, not_or, not_lt, not_not, not_and] at checked
  obtain ⟨_, ⟨kept, counted⟩, _, ⟨bounded, same⟩, _, torn, _⟩ := checked
  generalize Lines.split journal = split at *
  obtain ⟨complete, tail⟩ := split
  simp only at *
  generalize complete.length = count at *
  subst same
  refine ⟨counted, ?_, ?_⟩
  · rw [← shape]
    exact (flatten_take_initial raw kept).trans (List.prefix_append _ _)
  · by_cases empty : tail = []
    · rw [← shape, empty, List.append_nil]
      have whole := flatten_take_initial raw bounded
      rwa [List.take_length] at whole
    · obtain ⟨partly, next⟩ := torn empty
      have inside : count < raw.length := lt_of_le_of_ne bounded partly
      rw [List.getElem?_eq_getElem inside, Option.getD_some] at next
      have whole := flatten_take_initial raw (show count + 1 ≤ raw.length from inside)
      rw [List.take_length, List.take_succ_eq_append_getElem inside, List.flatten_append,
        List.flatten_singleton] at whole
      rw [← shape]
      exact ((List.prefix_append_right_inj _).mpr next).trans whole

/-! ### Directories -/

/-- A directory that holds a committed history. -/
structure Recorded (sha256 : Bytes → Digest) (directory : Directory) (storeRoot : StoreRoot)
    (database : Database) (loaded : Loaded) (capacities : List RegistryLimits) (journal : Bytes) :
    Prop where
  lock : directory.lock = true
  file : directory.file = .tables database
  journal_eq : directory.journal = some journal
  committed : Committed sha256 storeRoot database loaded capacities
  journaled : Journaled loaded.raw database.acknowledged journal

/-- A directory in which no registry has been created yet. -/
structure Fresh (directory : Directory) : Prop where
  lock : directory.lock = true ∨ directory.file = .missing
  file : directory.database = none
  empty : directory.journalBytes = []

/-- The same directory, or one with a newer fingerprint. -/
def Advances (before after : Directory) : Prop := after = before ∨ before.version < after.version

theorem Advances.refl (directory : Directory) : Advances directory directory := .inl rfl

theorem Advances.trans {first second third : Directory} (before : Advances first second)
    (after : Advances second third) : Advances first third := by
  rcases before with rfl | newer
  · exact after
  · rcases after with rfl | later
    · exact .inr newer
    · exact .inr (newer.trans later)

namespace Recorded

variable {directory : Directory} {storeRoot : StoreRoot} {database : Database} {loaded : Loaded}
  {capacities : List RegistryLimits} {journal : Bytes}

theorem database_eq
    (recorded : Recorded sha256 directory storeRoot database loaded capacities journal) :
    directory.database = some database := by
  rw [Directory.database, recorded.file]

theorem journalBytes_eq
    (recorded : Recorded sha256 directory storeRoot database loaded capacities journal) :
    directory.journalBytes = journal := by
  rw [Directory.journalBytes, recorded.journal_eq, Option.getD_some]

theorem journal_length_le
    (recorded : Recorded sha256 directory storeRoot database loaded capacities journal) :
    journal.length ≤ loaded.state.limits.maxJournalBytes.val := by
  have fits := recorded.committed.history_fits
  simp only [checkHistoryBounds, refuse_eq_ok, not_or, not_lt] at fits
  have begins := recorded.journaled.begins.length_le
  rw [← totalSize_eq] at begins
  omega

theorem withJournal
    (recorded : Recorded sha256 directory storeRoot database loaded capacities journal)
    {longer : Bytes} (journaled : Journaled loaded.raw database.acknowledged longer) :
    Recorded sha256 (directory.withJournal longer) storeRoot database loaded capacities longer :=
  ⟨recorded.lock, recorded.file, rfl, recorded.committed, journaled⟩

end Recorded

/-! ### Single effects -/

theorem ends_durable {change : Directory → Directory} {world : World}
    {done : Unit → World → Prop} {failed : Failure → World → Prop} :
    (durable change).Ends world done failed ↔
      (world.remaining = some 0 → failed interrupted world) ∧
        (world.remaining ≠ some 0 → done () { world with
          directory := change world.directory
          remaining := world.remaining.map fun count => count - 1 }) := by
  simp only [Ends, durable]
  by_cases stops : world.remaining = some 0 <;> simp [stops]

theorem ends_setHandle {change : Handle → Handle} {world : World} {done : Unit → World → Prop}
    {failed : Failure → World → Prop} :
    (setHandle change).Ends world done failed ↔
      done () { world with handle := change world.handle } := by
  rw [setHandle, ends_modify]

theorem ends_refuse {condition : Prop} [Decidable condition] {failure : Failure} {world : World}
    {done : Unit → World → Prop} {failed : Failure → World → Prop} :
    (Effects.lift (refuse condition failure) : Process Unit).Ends world done failed ↔
      (condition → failed failure world) ∧ (¬ condition → done () world) := by
  by_cases holds : condition
  · rw [refuse, if_pos holds, ends_lift_error]
    exact ⟨fun fails => ⟨fun _ => fails, fun never => absurd holds never⟩, fun both => both.1 holds⟩
  · rw [refuse, if_neg holds, ends_lift_ok]
    exact ⟨fun passes => ⟨fun never => absurd never holds, fun _ => passes⟩, fun both => both.2 holds⟩

theorem ends_shape {capacity : Nat} {world : World} {done : Unit → World → Prop}
    {failed : Failure → World → Prop} :
    (shape capacity).Ends world done failed ↔
      (capacity < world.directory.journalBytes.length →
          failed ⟨.limit, "registry file capacity exceeded"⟩ world) ∧
        (¬ capacity < world.directory.journalBytes.length → done () world) := by
  rw [shape, ends_bind, ends_read, ends_refuse]

/-! ### Opening -/

variable {world : World} {storeRoot : StoreRoot} {database : Database} {loaded : Loaded}
  {capacities : List RegistryLimits} {journal : Bytes}

/-- A handle that reads the limits of the registry it opens. -/
def adopted (handle : Handle) (storeRoot : StoreRoot) (limits : RegistryLimits) : Handle :=
  { handle with limits, configuration := config storeRoot limits }

theorem fileCeiling_le (limits : RegistryLimits) : limits.maxJournalBytes.val ≤ fileCeiling :=
  limits.maxJournalBytes.le_high

/-- Nothing is missing in the directory of a recorded registry. -/
theorem prepare_recorded
    (recorded : Recorded sha256 world.directory storeRoot database loaded capacities journal)
    {done : Unit → World → Prop} {failed : Failure → World → Prop} (same : done () world) :
    prepare.Ends world done failed := by
  have small := recorded.journal_length_le.trans (fileCeiling_le loaded.state.limits)
  rw [← recorded.journalBytes_eq] at small
  simp only [prepare, ensureLock, ensureJournal, ensureFile, createTables, ends_bind, ends_shape,
    ends_read, recorded.lock, recorded.journal_eq, recorded.file, recorded.database_eq, ends_pure,
    Nat.not_lt.mpr small, false_imp_iff, not_false_eq_true, true_imp_iff, true_and, same]

/-- Reading the configuration of a recorded registry. -/
theorem adopt_recorded
    (recorded : Recorded sha256 world.directory storeRoot database loaded capacities journal)
    {done : Unit → World → Prop} {failed : Failure → World → Prop}
    (same : world.handle.storeRoot = storeRoot →
      done () { world with handle := adopted world.handle storeRoot loaded.state.limits })
    (other : world.handle.storeRoot ≠ storeRoot → ∀ failure, failed failure world) :
    (do adoptConfiguration
        let world ← Effects.read
        shape world.handle.limits.maxJournalBytes : Process Unit).Ends world done failed := by
  have small := Nat.not_lt.mpr recorded.journal_length_le
  simp only [adoptConfiguration, ends_bind, ends_read, recorded.database_eq, require, ends_lift_ok,
    recorded.committed.configuration]
  rw [ends_lift]
  refine ⟨?_, ?_⟩
  · intro limits accepted
    obtain ⟨rooted, rfl⟩ := readConfiguration_eq_ok.mp accepted
    simp only [ends_setHandle, ends_shape, recorded.journalBytes_eq, small, false_imp_iff,
      not_false_eq_true, true_imp_iff, true_and]
    exact same rooted
  · intro failure refused
    refine other (fun rooted => ?_) failure
    have accepted := readConfiguration_eq_ok.mpr
      (And.intro rooted (Eq.refl loaded.state.limits))
    rw [accepted] at refused
    cases refused

theorem session_recorded
    (recorded : Recorded sha256 world.directory storeRoot database loaded capacities journal)
    {done : Unit → World → Prop} {failed : Failure → World → Prop}
    (same : world.handle.storeRoot = storeRoot →
      done () { world with handle := adopted world.handle storeRoot loaded.state.limits })
    (other : world.handle.storeRoot ≠ storeRoot → ∀ failure, failed failure world) :
    session.Ends world done failed := by
  rw [session, ends_bind]
  exact prepare_recorded recorded (adopt_recorded recorded same other)

/-! ### Projecting -/

theorem Journaled.extend {raw : List Bytes} {acknowledged : Nat} {suffix : Bytes}
    (journaled : Journaled raw acknowledged journal) (joined : journal ++ suffix = raw.flatten)
    (count : Nat) : Journaled raw acknowledged (journal ++ suffix.take count) := by
  refine ⟨journaled.counted, journaled.kept.trans (List.prefix_append _ _), ?_⟩
  rw [← joined, List.prefix_append_right_inj]
  exact List.take_prefix _ _

/-- Bytes are appended one after the other; an interruption leaves a prefix of them. -/
theorem writeAll_ends
    (recorded : Recorded sha256 world.directory storeRoot database loaded capacities journal)
    {suffix : Bytes} (joined : journal ++ suffix = loaded.raw.flatten)
    {done : Unit → World → Prop} {failed : Failure → World → Prop}
    (written : ∀ after : World, after.handle = world.handle →
      (after.remaining = none ↔ world.remaining = none) →
      Advances world.directory after.directory →
      Recorded sha256 after.directory storeRoot database loaded capacities loaded.raw.flatten →
      done () after)
    (torn : ∀ (after : World) (journal : Bytes), after.handle = world.handle →
      world.remaining ≠ none → Advances world.directory after.directory →
      Recorded sha256 after.directory storeRoot database loaded capacities journal →
      failed interrupted after) :
    (writeAll suffix).Ends world done failed := by
  induction suffix generalizing world journal with
  | nil =>
      rw [List.append_nil] at joined
      rw [writeAll, ends_pure]
      exact written world rfl Iff.rfl (Advances.refl _) (joined ▸ recorded)
  | cons byte rest ih =>
      rw [writeAll, ends_bind, ends_durable]
      refine ⟨?_, ?_⟩
      · intro stops
        exact torn world journal rfl (by simp [stops]) (Advances.refl _) recorded
      · intro continues
        have longer := recorded.withJournal (recorded.journaled.extend joined 1)
        rw [← recorded.journalBytes_eq, List.take_succ_cons, List.take_zero] at longer
        have step : Advances world.directory
            (world.directory.withJournal (world.directory.journalBytes ++ [byte])) :=
          .inr (Nat.lt_succ_self _)
        have left : (world.remaining.map fun count => count - 1) = none ↔ world.remaining = none := by
          simp
        refine ih longer ?_ ?_ ?_
        · rw [recorded.journalBytes_eq, List.append_assoc]
          exact joined
        · intro after handle remaining advances whole
          exact written after handle (remaining.trans left) (step.trans advances) whole
        · intro after piece handle remaining advances part
          exact torn after piece handle (mt left.mpr remaining) (step.trans advances) part

/-- The database after its journal was acknowledged. -/
def acknowledge (database : Database) (count : Nat) : Database :=
  { database with acknowledged := count }

theorem Committed.acknowledge
    (committed : Committed sha256 storeRoot database loaded capacities) (count : Nat) :
    Committed sha256 storeRoot (Storage.acknowledge database count) loaded capacities :=
  ⟨committed.history, committed.rows, committed.raw, committed.records, committed.configuration,
    committed.history_fits, committed.records_fit⟩

/-- The journal holds every committed line and all of them are acknowledged. -/
structure Settled (sha256 : Bytes → Digest) (directory : Directory) (storeRoot : StoreRoot)
    (database : Database) (loaded : Loaded) (capacities : List RegistryLimits) : Prop
    extends Recorded sha256 directory storeRoot database loaded capacities loaded.raw.flatten where
  acknowledged : database.acknowledged = loaded.raw.length

theorem project_ends
    (recorded : Recorded sha256 world.directory storeRoot database loaded capacities journal)
    (limited : world.handle.limits = loaded.state.limits)
    {done : RecoveryReport → World → Prop} {failed : Failure → World → Prop}
    (published : ∀ (after : World) (report : RecoveryReport), after.handle = world.handle →
      (after.remaining = none ↔ world.remaining = none) →
      world.directory.version < after.directory.version →
      Settled sha256 after.directory storeRoot (acknowledge database loaded.raw.length) loaded
        capacities →
      report.eventCount = loaded.raw.length → done report after)
    (torn : ∀ (after : World) (journal : Bytes), after.handle = world.handle →
      world.remaining ≠ none → Advances world.directory after.directory →
      Recorded sha256 after.directory storeRoot database loaded capacities journal →
      failed interrupted after) :
    (project loaded.raw).Ends world done failed := by
  obtain ⟨suffix, tail, checked, joined⟩ :=
    checkJournal_of_journaled recorded.committed.lines recorded.journaled
  have small : ¬ world.handle.limits.maxJournalBytes.val < journal.length :=
    Nat.not_lt.mpr (limited ▸ recorded.journal_length_le)
  simp only [project, ends_bind, ends_read, recorded.journal_eq, recorded.database_eq, require,
    ends_lift_ok, ends_refuse, small, false_imp_iff, not_false_eq_true, true_imp_iff, true_and,
    checked]
  refine writeAll_ends recorded joined ?_ torn
  intro written handle remaining advances whole
  rw [ends_durable]
  refine ⟨?_, ?_⟩
  · intro stops
    have interrupted : world.remaining ≠ none := fun never => by simp [remaining.mpr never] at stops
    exact torn written _ handle interrupted advances whole
  · intro continues
    have file : setAcknowledged loaded.raw.length written.directory = written.directory.withFile
        (.tables (acknowledge database loaded.raw.length)) := by
      rw [setAcknowledged, whole.file]
      rfl
    rw [ends_pure, file]
    refine published _ _ handle ?_ ?_ ?_ rfl
    · simpa using remaining
    · have later : written.directory.version < written.directory.version + 1 := Nat.lt_succ_self _
      rcases advances with same | newer
      · rw [same]
        exact Nat.lt_succ_self _
      · exact newer.trans later
    · exact ⟨⟨whole.lock, rfl, whole.journal_eq, whole.committed.acknowledge _,
        journaled_complete _⟩, rfl⟩

end Storage

end FeatureRl
