import FeatureRl.Training.Service
import Mathlib.Data.List.Perm.Subperm
import Mathlib.Data.Finset.Interval
import Mathlib.Order.Interval.Finset.Nat
import Mathlib.Logic.Relation

/-!
The update budget of a chain of training jobs. Whatever fails and wherever the controller dies, no
update index and no group is dispatched twice along a chain of recoveries, and all dispatches of
the chain together stay within the declared number of updates.
-/

namespace FeatureRl

open Effects

namespace TrainingService

/-! ### The ledger of a run -/

/-- For each job the first update index and the first group that it may use, and the index behind
its last observed one. -/
structure Ledger where
  base : String → Nat
  top : String → Nat
  start : String → Nat

/-- No update of the job is under way, and no other job took it over. -/
def Settled (phase : Phase) : Prop := phase ≠ .updating ∧ phase ≠ .superseded

/-- A journal agrees with the ledger and with the calls of its job. -/
structure Fits (calls : List Dispatch) (ledger : Ledger) (job : String) (journal : Journal) : Prop where
  claim : journal.claim = job
  low : ledger.base job ≤ journal.index
  high : journal.index ≤ ledger.top job
  settled : Settled journal.phase → ledger.top job = journal.index
  begins : ledger.start job ≤ journal.sampler
  distinct : (journal.batchReceipts ++ journal.waiting).Nodup
  drawn : ∀ group ∈ journal.batchReceipts ++ journal.waiting, ledger.start job ≤ group ∧ group < journal.sampler
  used : ∀ call ∈ calls, call.job = job → ∀ group ∈ call.groups, ledger.start job ≤ group ∧ group < journal.sampler
  unused : ∀ call ∈ calls, call.job = job → ∀ group ∈ call.groups, group ∉ journal.waiting
  unspent : Settled journal.phase → ∀ call ∈ calls, call.job = job →
    ∀ group ∈ call.groups, group ∉ journal.batchReceipts

/-- The job that a recovery continues was taken over by it and stays as it was. -/
def Origin (world : World) (ledger : Ledger) (job : String) (request : Request) : Prop :=
  ∀ ref, request.resume = some ref → ∃ progress parent, world.checkpoints[ref]? = some progress ∧
    world.journals.get? progress.claim = some parent ∧ parent.phase = .superseded ∧
    parent.recoveryClaim = some job ∧ ledger.base job = ledger.top progress.claim ∧
    ledger.start job = parent.sampler

/-- Two calls of one job have different indices and no group in common. -/
def Apart (first second : Dispatch) : Prop :=
  first.job = second.job → first.index ≠ second.index ∧ first.groups.Disjoint second.groups

/-- What the receipt of a recovery preserved. -/
def Preserved (world : World) (ledger : Ledger) (job : String) (journal : Journal) : Prop :=
  ∃ ref before, journal.recovery = some ref ∧ world.recoveries[ref]? = some before ∧
    Fits world.dispatched ledger job before ∧ before.sampler = journal.sampler ∧ before.request = journal.request

/-- A checkpoint stands within what its job did. -/
structure Marks (journals : Dict String Journal) (ledger : Ledger) (progress journal : Journal) : Prop where
  stored : journals.get? progress.claim = some journal
  low : ledger.base progress.claim ≤ progress.index
  high : progress.index ≤ ledger.top progress.claim
  begins : ledger.start progress.claim ≤ progress.sampler
  behind : progress.sampler ≤ journal.sampler
  request : progress.request = journal.request

structure Sound (world : World) (ledger : Ledger) : Prop where
  observed : ∀ job index, (world.observations.get? (job, index)).isSome = true ↔
    ledger.base job ≤ index ∧ index < ledger.top job
  called : ∀ call ∈ world.dispatched, ledger.base call.job ≤ call.index ∧ call.index < ledger.top call.job
  apart : world.dispatched.Pairwise Apart
  idle : ∀ job, world.journals.get? job = none → ledger.top job ≤ ledger.base job
  journals : ∀ job journal, world.journals.get? job = some journal → Fits world.dispatched ledger job journal
  budget : ∀ job journal, world.journals.get? job = some journal →
    ledger.top job ≤ journal.request.configuration.maxUpdates
  origins : ∀ job journal, world.journals.get? job = some journal → Origin world ledger job journal.request
  preserved : ∀ job journal, world.journals.get? job = some journal → journal.phase = .superseded →
    Preserved world ledger job journal
  checkpoints : ∀ progress ∈ world.checkpoints, ∃ journal, Marks world.journals ledger progress journal
  ordered : world.checkpoints.Pairwise fun earlier later =>
    earlier.claim = later.claim → earlier.sampler ≤ later.sampler

def Safe (world : World) : Prop := ∃ ledger, Sound world ledger

theorem safe_start : Safe World.start := by
  refine ⟨⟨fun _ => 0, fun _ => 0, fun _ => 0⟩, ?_⟩
  constructor <;> simp [World.start]

variable {world : World} {ledger : Ledger} {job : String} {request : Request} {journal : Journal}

namespace Sound

theorem tick (sound : Sound world ledger) : Sound world.tick ledger := { sound with }

theorem remember (sound : Sound world ledger) (memory : Memory) : Sound (world.remember memory) ledger :=
  { sound with }

theorem complete (sound : Sound world ledger) : Sound (world.complete job) ledger := { sound with }

theorem enqueue (sound : Sound world ledger) : Sound (world.enqueue job request) ledger := { sound with }

/-- A further recovery receipt. -/
theorem preserve (sound : Sound world ledger) : Sound (world.preserve journal) ledger where
  observed := sound.observed
  called := sound.called
  apart := sound.apart
  idle := sound.idle
  journals := sound.journals
  budget := sound.budget
  origins := sound.origins
  preserved other disk stored gone := by
    obtain ⟨ref, before, named, kept, rest⟩ := sound.preserved other disk stored gone
    refine ⟨ref, before, named, ?_, rest⟩
    rw [World.preserve, World.tick, List.getElem?_append_left (List.getElem?_eq_some_iff.mp kept).1]
    exact kept
  checkpoints := sound.checkpoints
  ordered := sound.ordered

/-- A later revision of an observed update. -/
theorem record (sound : Sound world ledger) {index revision : Nat}
    (known : (world.observations.get? (job, index)).isSome = true) :
    Sound (world.record job index revision) ledger where
  observed other position := by
    rw [World.record, World.tick, Dict.get?_set]
    split
    next same =>
      obtain ⟨rfl, rfl⟩ := Prod.mk.inj same
      exact ⟨fun _ => (sound.observed _ _).mp known, fun _ => rfl⟩
    next => exact sound.observed other position
  called := sound.called
  apart := sound.apart
  idle := sound.idle
  journals := sound.journals
  budget := sound.budget
  origins := sound.origins
  preserved := sound.preserved
  checkpoints := sound.checkpoints
  ordered := sound.ordered

end Sound

/-! ### A job in progress -/

/-- The process works on the job: its journal in memory may be stored at any time. -/
structure Holds (world : World) (ledger : Ledger) (job : String) (request : Request) (journal : Journal) :
    Prop where
  sound : Sound world ledger
  fits : Fits world.dispatched ledger job journal
  present : journal.phase ≠ .superseded
  wanted : journal.request = request
  budget : ledger.top job ≤ request.configuration.maxUpdates
  origin : Origin world ledger job request
  disk : ∀ stored, world.journals.get? job = some stored →
    stored.phase ≠ .superseded ∧ stored.sampler ≤ journal.sampler ∧ stored.request = request

/-- A journal with the same counts and groups. -/
theorem Fits.like {calls : List Dispatch} {other : Journal} (fits : Fits calls ledger job journal)
    (claim : other.claim = journal.claim) (index : other.index = journal.index)
    (sampler : other.sampler = journal.sampler) (batch : other.batchReceipts = journal.batchReceipts)
    (waiting : other.waiting = journal.waiting) (settled : Settled other.phase → Settled journal.phase) :
    Fits calls ledger job other := by
  constructor
  · exact claim.trans fits.claim
  · exact index ▸ fits.low
  · exact index ▸ fits.high
  · exact fun now => index ▸ fits.settled (settled now)
  · exact sampler ▸ fits.begins
  · rw [batch, waiting]; exact fits.distinct
  · rw [batch, waiting, sampler]; exact fits.drawn
  · rw [sampler]; exact fits.used
  · rw [waiting]; exact fits.unused
  · exact fun now => batch ▸ fits.unspent (settled now)

/-- Nothing of another job is stored when a job that nobody took over stores its journal. -/
theorem Origin.store {other : String} {wanted : Request} (origin : Origin world ledger other wanted)
    (disk : ∀ stored, world.journals.get? job = some stored → stored.phase ≠ .superseded) :
    Origin (world.store job journal) ledger other wanted := by
  intro ref resumed
  obtain ⟨progress, parent, published, stored, gone, rest⟩ := origin ref resumed
  have apart : progress.claim ≠ job := by
    rintro rfl
    exact disk parent stored gone
  exact ⟨progress, parent, published, (Dict.get?_set_ne _ _ apart).trans stored, gone, rest⟩

namespace Holds

variable (holds : Holds world ledger job request journal)

include holds

theorem safe : Safe world := ⟨ledger, holds.sound⟩

theorem tick : Holds world.tick ledger job request journal := { holds with sound := holds.sound.tick }

theorem remember (memory : Memory) : Holds (world.remember memory) ledger job request journal :=
  { holds with sound := holds.sound.remember memory }

/-- The process goes on with another journal in memory. -/
theorem turn {other : Journal} (fits : Fits world.dispatched ledger job other) (present : other.phase ≠ .superseded)
    (wanted : other.request = journal.request) (grows : journal.sampler ≤ other.sampler) :
    Holds world ledger job request other :=
  { holds with
    fits := fits
    present := present
    wanted := wanted.trans holds.wanted
    disk := fun stored found =>
      have known := holds.disk stored found
      ⟨known.1, known.2.1.trans grows, known.2.2⟩ }

theorem store_sound : Sound (world.store job journal) ledger where
  observed := holds.sound.observed
  called := holds.sound.called
  apart := holds.sound.apart
  idle other absent := by
    rw [World.store, World.tick, Dict.get?_set] at absent
    split at absent
    · cases absent
    · exact holds.sound.idle other absent
  journals other stored found := by
    rw [World.store, World.tick, Dict.get?_set] at found
    split at found
    next same =>
      obtain rfl := Option.some.inj found
      exact same ▸ holds.fits
    next => exact holds.sound.journals other stored found
  budget other stored found := by
    rw [World.store, World.tick, Dict.get?_set] at found
    split at found
    next same =>
      obtain rfl := Option.some.inj found
      rw [same, holds.wanted]
      exact holds.budget
    next => exact holds.sound.budget other stored found
  origins other stored found := by
    have closed := fun stored found => (holds.disk stored found).1
    rw [World.store, World.tick, Dict.get?_set] at found
    split at found
    next same =>
      obtain rfl := Option.some.inj found
      rw [same, holds.wanted]
      exact holds.origin.store closed
    next => exact (holds.sound.origins other stored found).store closed
  preserved other stored found gone := by
    rw [World.store, World.tick, Dict.get?_set] at found
    split at found
    next =>
      obtain rfl := Option.some.inj found
      exact absurd gone holds.present
    next => exact holds.sound.preserved other stored found gone
  checkpoints progress member := by
    obtain ⟨stored, marks⟩ := holds.sound.checkpoints progress member
    by_cases same : progress.claim = job
    · obtain ⟨_, grows, wanted⟩ := holds.disk stored (same ▸ marks.stored)
      refine ⟨journal, ?_, marks.low, marks.high, marks.begins, marks.behind.trans grows, ?_⟩
      · rw [World.store, World.tick, same]
        exact Dict.get?_set_self ..
      · rw [marks.request, wanted, holds.wanted]
    · exact ⟨stored, { marks with stored := (Dict.get?_set_ne _ _ same).trans marks.stored }⟩
  ordered := holds.sound.ordered

theorem store : Holds (world.store job journal) ledger job request journal :=
  { holds with
    sound := holds.store_sound
    origin := holds.origin.store fun stored found => (holds.disk stored found).1
    disk := fun stored found => by
      obtain rfl := Option.some.inj ((Dict.get?_set_self ..).symm.trans found)
      exact ⟨holds.present, le_rfl, holds.wanted⟩ }

end Holds

/-! ### Calls and writes -/

variable {machine : Machine} {α : Type}

theorem ends_raise {failure : Failure} {done : α → World → Prop} {failed : Failure → World → Prop}
    (fails : failed failure world) : (raise failure : Process α).Ends world done failed :=
  ends_lift_error.mpr fails

theorem ends_outside {done : Unit → World → Prop} (safe : Safe world) (returns : done () world.tick) :
    (outside machine).Ends world done fun _ after => Safe after := by
  obtain ⟨ledger, sound⟩ := safe
  rw [outside, ends_bind, ends_read, ends_bind, ends_modify]
  cases machine.outside world.clock with
  | none =>
      rw [ends_pure]
      exact returns
  | some failure => exact ends_raise ⟨ledger, sound.tick⟩

theorem ends_durable {change : World → World} {done : Unit → World → Prop} (safe : Safe world)
    (changed : Safe (change world)) (returns : done () (change world)) :
    (durable machine change).Ends world done fun _ after => Safe after := by
  obtain ⟨ledger, sound⟩ := safe
  rw [durable, ends_bind, ends_read]
  cases machine.write world.clock with
  | kept =>
      rw [ends_modify]
      exact returns
  | failed lasting failure =>
      cases lasting with
      | true =>
          rw [ends_bind, ends_modify]
          exact ends_raise changed
      | false =>
          rw [ends_bind, ends_modify]
          exact ends_raise ⟨ledger, sound.tick⟩

theorem ends_write (holds : Holds world ledger job request journal) {done : Unit → World → Prop}
    (returns : Holds (world.store job journal) ledger job request journal → done () (world.store job journal)) :
    (write machine job journal).Ends world done fun _ after => Safe after :=
  ends_durable holds.safe holds.store.safe (returns holds.store)

theorem ends_check {condition : Prop} [Decidable condition] {done : Unit → World → Prop} (safe : Safe world)
    (returns : condition → done () world) : (check condition).Ends world done fun _ after => Safe after := by
  unfold check
  split
  next satisfied =>
    rw [ends_pure]
    exact returns satisfied
  next => exact ends_raise safe

theorem ends_require {value : Option α} {done : α → World → Prop} (safe : Safe world)
    (returns : ∀ found, value = some found → done found world) :
    (require value).Ends world done fun _ after => Safe after := by
  cases value with
  | none => exact ends_raise safe
  | some found =>
      rw [require, ends_pure]
      exact returns found rfl

/-! ### The end of a job -/

theorem ends_closeLive {done : Unit → World → Prop} (safe : Safe world) (stays : done () world)
    (closes : ∀ memory, done () (world.tick.remember memory)) :
    (closeLive machine).Ends world done fun _ after => Safe after := by
  rw [closeLive, ends_bind, ends_read]
  split
  next =>
    rw [ends_bind]
    refine ends_outside safe ?_
    rw [TrainingService.remember, ends_modify]
    exact closes _
  next =>
    rw [ends_pure]
    exact stays

/-- A phase in which no update is under way. -/
theorem Holds.rephase (holds : Holds world ledger job request journal) (settled : Settled journal.phase)
    (phase : Phase) (outcome : Option Disposition) (present : phase ≠ .superseded) :
    Holds world ledger job request { journal with phase := phase, finalOutcome := outcome } :=
  holds.turn (holds.fits.like rfl rfl rfl rfl rfl fun _ => settled) present rfl le_rfl

theorem ends_finish (holds : Holds world ledger job request journal) (settled : Settled journal.phase)
    {disposition : Disposition} :
    (finish machine job journal disposition).Ends world (fun _ after => Safe after) fun _ after => Safe after := by
  rw [finish, ends_bind, ends_read, ends_bind]
  refine ends_write (holds.rephase settled .finalizing _ nofun) fun written => ?_
  have rest : ∀ {world : World} {journal : Journal}, Holds world ledger job request journal →
      Settled journal.phase →
      (do outside machine
          write machine job { journal with phase := .frozen }
          durable machine fun world => world.complete job : Process Unit).Ends world
        (fun _ after => Safe after) fun _ after => Safe after := by
    intro world journal held settled
    rw [ends_bind]
    refine ends_outside held.safe ?_
    rw [ends_bind]
    refine ends_write (held.tick.rephase settled .frozen _ nofun) fun stored => ?_
    exact ends_durable stored.safe ⟨ledger, stored.sound.complete⟩ ⟨ledger, stored.sound.complete⟩
  rw [ends_bind]
  exact ends_closeLive written.safe (rest written ⟨nofun, nofun⟩) fun memory =>
    rest (written.tick.remember memory) ⟨nofun, nofun⟩

/-! ### Groups -/

/-- Collecting groups leaves the phase and the update counts as they are. -/
def Kept (before after : Journal) : Prop := after.phase = before.phase ∧ after.index = before.index

theorem Kept.trans {first second third : Journal} (one : Kept first second) (two : Kept second third) :
    Kept first third := ⟨two.1.trans one.1, two.2.trans one.2⟩

theorem Kept.settled {before after : Journal} (kept : Kept before after) (settled : Settled before.phase) :
    Settled after.phase := by
  rw [Settled, kept.1]
  exact settled

/-- The plan is drawn and its group not yet filed. -/
def Planned (journal : Journal) (plan : Nat) : Prop :=
  journal.unclassifiedGroup = none ∧ ∃ recorded, journal.pending = some (plan, recorded)

theorem ends_sample {plan : Nat} (remaining recorded : Nat) (holds : Holds world ledger job request journal)
    (planned : Planned journal plan) :
    (sample machine job plan remaining recorded journal).Ends world
      (fun result after => Holds after ledger job request result ∧ Kept journal result ∧ Planned result plan)
      fun _ after => Safe after := by
  induction remaining generalizing recorded world journal with
  | zero =>
      rw [sample, ends_pure]
      exact ⟨holds, ⟨rfl, rfl⟩, planned⟩
  | succ remaining ih =>
      obtain ⟨unfiled, before, pending⟩ := planned
      have recording : Holds world.tick ledger job request
          { journal with pending := some (plan, recorded + 1) } :=
        holds.tick.turn (holds.fits.like rfl rfl rfl rfl (by simp [Journal.waiting, pending]) id) holds.present
          rfl le_rfl
      rw [sample, ends_bind]
      refine ends_outside holds.safe ?_
      rw [ends_bind]
      refine ends_write recording fun written => ?_
      exact ih (recorded + 1) written ⟨unfiled, _, rfl⟩

/-- A new group is the next one of the sampler, which no call has used. -/
theorem Fits.draw {calls : List Dispatch} (fits : Fits calls ledger job journal)
    (unfiled : journal.unclassifiedGroup = none) (absent : journal.pending = none) :
    Fits calls ledger job { journal with pending := some (journal.sampler, 0), sampler := journal.sampler + 1 } := by
  have empty : journal.waiting = [] := by simp [Journal.waiting, unfiled, absent]
  have distinct := fits.distinct
  have drawn := fits.drawn
  rw [empty, List.append_nil] at distinct drawn
  have next : ∀ other : Journal, other.unclassifiedGroup = none → other.pending = some (journal.sampler, 0) →
      other.waiting = [journal.sampler] := by
    intro other none_filed plan
    simp [Journal.waiting, none_filed, plan]
  have waiting := next { journal with pending := some (journal.sampler, 0), sampler := journal.sampler + 1 } unfiled rfl
  constructor
  · exact fits.claim
  · exact fits.low
  · exact fits.high
  · exact fits.settled
  · exact fits.begins.trans (Nat.le_succ _)
  · rw [waiting, List.nodup_append]
    refine ⟨distinct, List.nodup_singleton _, ?_⟩
    rintro group member _ (_ | ⟨_, ⟨⟩⟩) rfl
    exact absurd (drawn _ member).2 (lt_irrefl _)
  · rw [waiting]
    intro group member
    rcases List.mem_append.mp member with old | new
    · exact ⟨(drawn group old).1, (drawn group old).2.trans (Nat.lt_succ_self _)⟩
    · rw [List.mem_singleton] at new
      subst new
      exact ⟨fits.begins, Nat.lt_succ_self _⟩
  · intro call member same group inside
    obtain ⟨low, high⟩ := fits.used call member same group inside
    exact ⟨low, high.trans (Nat.lt_succ_self _)⟩
  · rw [waiting]
    intro call member same group inside again
    rw [List.mem_singleton] at again
    exact absurd (again ▸ (fits.used call member same group inside).2) (lt_irrefl _)
  · exact fits.unspent

theorem ends_drawPlan (holds : Holds world ledger job request journal)
    (unfiled : journal.unclassifiedGroup = none) :
    (drawPlan machine job journal).Ends world
      (fun result after => Holds after ledger job request result ∧ Kept journal result ∧
        ∃ plan, Planned result plan) fun _ after => Safe after := by
  unfold drawPlan
  cases pending : journal.pending with
  | some plan =>
      rw [ends_pure]
      exact ⟨holds, ⟨rfl, rfl⟩, plan.1, unfiled, plan.2, pending⟩
  | none =>
      have drawing : Holds world ledger job request
          { journal with pending := some (journal.sampler, 0), sampler := journal.sampler + 1 } :=
        holds.turn (holds.fits.draw unfiled pending) holds.present rfl (Nat.le_succ _)
      rw [ends_bind]
      refine ends_write drawing fun written => ?_
      rw [ends_pure]
      exact ⟨written, ⟨rfl, rfl⟩, _, unfiled, _, rfl⟩

theorem ends_collect {configuration : Configuration} (holds : Holds world ledger job request journal) :
    (collect machine job configuration journal).Ends world
      (fun result after => Holds after ledger job request result ∧ Kept journal result)
      fun _ after => Safe after := by
  unfold collect
  cases filed : journal.unclassifiedGroup with
  | some group =>
      rw [ends_bind]
      refine ends_outside holds.safe ?_
      rw [ends_pure]
      exact ⟨holds.tick, rfl, rfl⟩
  | none =>
      rw [ends_bind]
      refine (ends_drawPlan holds filed).mono (fun drawn after => ?_) fun _ _ => id
      rintro ⟨held, kept, plan, unfiled, recorded, pending⟩
      simp only [pending]
      rw [ends_bind]
      refine ends_check held.safe fun _ => ?_
      rw [ends_bind]
      refine (ends_sample _ recorded held ⟨unfiled, recorded, pending⟩).mono (fun sampled after => ?_) fun _ _ => id
      rintro ⟨held, again, unfiled, recorded, pending⟩
      have filing : Holds after.tick ledger job request { sampled with
          groupReceipts := sampled.groupReceipts ++ [plan], groups := sampled.groups + 1,
          unclassifiedGroup := some plan, dataPosition := sampled.sampler, pending := none } :=
        held.tick.turn (held.fits.like rfl rfl rfl rfl (by simp [Journal.waiting, unfiled, pending]) id)
          held.present rfl le_rfl
      rw [ends_bind]
      refine ends_outside held.safe ?_
      rw [ends_bind]
      refine ends_write filing fun written => ?_
      rw [ends_pure]
      exact ⟨written, kept.trans again⟩

/-- The filed group joins the batch. -/
theorem Fits.file {calls : List Dispatch} (fits : Fits calls ledger job journal) :
    Fits calls ledger job { journal with
      batchReceipts := journal.batchReceipts ++ journal.unclassifiedGroup.toList, unclassifiedGroup := none } := by
  have waiting : journal.waiting =
      journal.unclassifiedGroup.toList ++ (journal.pending.map Prod.fst).toList := rfl
  have rest : Journal.waiting { journal with
      batchReceipts := journal.batchReceipts ++ journal.unclassifiedGroup.toList, unclassifiedGroup := none } =
      (journal.pending.map Prod.fst).toList := rfl
  have distinct := fits.distinct
  have drawn := fits.drawn
  rw [waiting, ← List.append_assoc] at distinct drawn
  constructor
  · exact fits.claim
  · exact fits.low
  · exact fits.high
  · exact fits.settled
  · exact fits.begins
  · rw [rest]
    exact distinct
  · rw [rest]
    exact drawn
  · exact fits.used
  · rw [rest]
    intro call member same group inside again
    exact fits.unused call member same group inside (waiting ▸ List.mem_append_right _ again)
  · intro settled call member same group inside again
    rcases List.mem_append.mp again with old | new
    · exact fits.unspent settled call member same group inside old
    · exact fits.unused call member same group inside (waiting ▸ List.mem_append_left _ new)

theorem ends_gather {configuration : Configuration} (count : Nat)
    (holds : Holds world ledger job request journal) :
    (gather machine job configuration count journal).Ends world
      (fun result after => Holds after ledger job request result ∧ Kept journal result)
      fun _ after => Safe after := by
  induction count generalizing world journal with
  | zero =>
      rw [gather, ends_pure]
      exact ⟨holds, rfl, rfl⟩
  | succ count ih =>
      rw [gather, ends_bind]
      refine (ends_collect holds).mono (fun collected after => ?_) fun _ _ => id
      rintro ⟨held, kept⟩
      rw [ends_bind]
      refine ends_write (held.turn held.fits.file held.present rfl le_rfl) fun written => ?_
      refine (ih written).mono (fun result after => ?_) fun _ _ => id
      rintro ⟨gathered, further⟩
      exact ⟨gathered, kept.trans further⟩

/-! ### Updates -/

/-- The ledger after the next index of the job is observed. -/
def Ledger.advance (ledger : Ledger) (job : String) : Ledger :=
  { ledger with top := Function.update ledger.top job (ledger.top job + 1) }

theorem Ledger.advance_self (ledger : Ledger) (job : String) : (ledger.advance job).top job = ledger.top job + 1 :=
  Function.update_self ..

theorem Ledger.advance_of_ne (ledger : Ledger) {job other : String} (apart : other ≠ job) :
    (ledger.advance job).top other = ledger.top other :=
  Function.update_of_ne apart ..

theorem Ledger.le_advance (ledger : Ledger) (job other : String) :
    ledger.top other ≤ (ledger.advance job).top other := by
  by_cases same : other = job
  · rw [same, ledger.advance_self]
    exact Nat.le_succ _
  · rw [ledger.advance_of_ne same]

/-- The process updates the job: its stored journal says so, and the top of the ledger is the next
index, which no call has. -/
structure Updating (world : World) (ledger : Ledger) (job : String) (request : Request) (journal : Journal) :
    Prop where
  holds : Holds world ledger job request journal
  phase : journal.phase = .updating
  stored : world.journals.get? job = some journal

/-- A journal sees only what the ledger says of its job. -/
theorem Fits.agree {calls : List Dispatch} {other : Ledger} (fits : Fits calls ledger job journal)
    (base : other.base job = ledger.base job) (top : other.top job = ledger.top job)
    (start : other.start job = ledger.start job) : Fits calls other job journal := by
  constructor
  · exact fits.claim
  · exact base ▸ fits.low
  · exact top ▸ fits.high
  · exact fun settled => top.trans (fits.settled settled)
  · exact start ▸ fits.begins
  · exact fits.distinct
  · exact start ▸ fits.drawn
  · exact start ▸ fits.used
  · exact fits.unused
  · exact fits.unspent

/-- While an update is under way its index may already count. -/
theorem Fits.observe {calls : List Dispatch} (fits : Fits calls ledger job journal)
    (updating : journal.phase = .updating) : Fits calls (ledger.advance job) job journal := by
  constructor
  · exact fits.claim
  · exact fits.low
  · exact fits.high.trans (ledger.le_advance ..)
  · exact fun settled => absurd updating settled.1
  · exact fits.begins
  · exact fits.distinct
  · exact fits.drawn
  · exact fits.used
  · exact fits.unused
  · exact fits.unspent

theorem Origin.advance {other : String} {wanted : Request} (origin : Origin world ledger other wanted)
    (disk : ∀ stored, world.journals.get? job = some stored → stored.phase ≠ .superseded) :
    Origin world (ledger.advance job) other wanted := by
  intro ref resumed
  obtain ⟨progress, parent, published, stored, gone, claimed, base, start⟩ := origin ref resumed
  have apart : progress.claim ≠ job := by
    rintro rfl
    exact disk parent stored gone
  exact ⟨progress, parent, published, stored, gone, claimed, base.trans (ledger.advance_of_ne apart).symm, start⟩

theorem Updating.observe (updating : Updating world ledger job request journal) {index : Nat}
    (next : index = ledger.top job) (room : index < request.configuration.maxUpdates) :
    Updating (world.record job index 1) (ledger.advance job) job request journal := by
  obtain ⟨holds, phase, stored⟩ := updating
  have sound := holds.sound
  have closed : ∀ disk, world.journals.get? job = some disk → disk.phase ≠ .superseded :=
    fun disk found => (holds.disk disk found).1
  refine ⟨⟨?_, holds.fits.observe phase, holds.present, holds.wanted, ?_, holds.origin.advance closed, holds.disk⟩,
    phase, stored⟩
  · constructor
    · intro other position
      rw [World.record, World.tick, Dict.get?_set]
      have low := holds.fits.low.trans holds.fits.high
      split
      next same =>
        obtain ⟨rfl, rfl⟩ := Prod.mk.inj same
        rw [ledger.advance_self, next]
        exact ⟨fun _ => ⟨low, Nat.lt_succ_self _⟩, fun _ => rfl⟩
      next different =>
        rw [sound.observed]
        by_cases same : other = job
        · subst same
          have apart : position ≠ index := fun equal => different (by rw [equal])
          rw [ledger.advance_self]
          change _ ↔ ledger.base other ≤ position ∧ _
          omega
        · rw [ledger.advance_of_ne same]
          exact Iff.rfl
    · intro call member
      obtain ⟨low, high⟩ := sound.called call member
      exact ⟨low, high.trans_le (ledger.le_advance ..)⟩
    · exact sound.apart
    · intro other absent
      have apart : other ≠ job := by
        rintro rfl
        cases stored.symm.trans absent
      rw [ledger.advance_of_ne apart]
      exact sound.idle other absent
    · intro other disk found
      by_cases same : other = job
      · subst same
        obtain rfl := Option.some.inj (stored.symm.trans found)
        exact holds.fits.observe phase
      · exact (sound.journals other disk found).agree rfl (ledger.advance_of_ne same) rfl
    · intro other disk found
      by_cases same : other = job
      · subst same
        obtain rfl := Option.some.inj (stored.symm.trans found)
        rw [ledger.advance_self, holds.wanted]
        omega
      · rw [ledger.advance_of_ne same]
        exact sound.budget other disk found
    · exact fun other disk found => (sound.origins other disk found).advance closed
    · intro other disk found gone
      have apart : other ≠ job := by
        rintro rfl
        exact closed disk found gone
      obtain ⟨ref, before, named, kept, fits, rest⟩ := sound.preserved other disk found gone
      exact ⟨ref, before, named, kept, fits.agree rfl (ledger.advance_of_ne apart) rfl, rest⟩
    · intro progress member
      obtain ⟨disk, marks⟩ := sound.checkpoints progress member
      exact ⟨disk, { marks with high := marks.high.trans (ledger.le_advance ..) }⟩
    · exact sound.ordered
  · rw [ledger.advance_self]
    omega

/-- A call of another job. -/
theorem Fits.other {calls : List Dispatch} {call : Dispatch} (fits : Fits calls ledger job journal)
    (apart : call.job ≠ job) : Fits (call :: calls) ledger job journal := by
  have old : ∀ {property : Dispatch → Prop}, (∀ known ∈ calls, known.job = job → property known) →
      ∀ known ∈ call :: calls, known.job = job → property known := by
    intro property before known member same
    rcases List.mem_cons.mp member with rfl | earlier
    · exact absurd same apart
    · exact before known earlier same
  exact { fits with
    used := old fits.used
    unused := old fits.unused
    unspent := fun settled => old (fits.unspent settled) }

/-- The batch of the job goes to the optimizer while its update is under way. -/
theorem Fits.call {calls : List Dispatch} {index : Nat} (fits : Fits calls ledger job journal)
    (updating : journal.phase = .updating) :
    Fits (⟨job, index, journal.batchReceipts⟩ :: calls) ledger job journal := by
  have drawn := fun group inside => fits.drawn group (List.mem_append_left _ inside)
  refine { fits with used := ?_, unused := ?_, unspent := fun settled => absurd updating settled.1 }
  · intro call member same group inside
    rcases List.mem_cons.mp member with rfl | earlier
    · exact drawn group inside
    · exact fits.used call earlier same group inside
  · intro call member same group inside
    rcases List.mem_cons.mp member with rfl | earlier
    · exact fun again => (List.nodup_append.mp fits.distinct).2.2 group inside group again rfl
    · exact fits.unused call earlier same group inside

theorem Updating.dispatch (updating : Updating world ledger job request journal) {index : Nat}
    (within : ledger.base job ≤ index ∧ index < ledger.top job)
    (unspent : ∀ call ∈ world.dispatched, call.job = job →
      call.index ≠ index ∧ ∀ group ∈ call.groups, group ∉ journal.batchReceipts) :
    Updating (world.dispatch ⟨job, index, journal.batchReceipts⟩) ledger job request journal := by
  obtain ⟨holds, phase, stored⟩ := updating
  have sound := holds.sound
  refine ⟨{ holds with sound := ?_, fits := holds.fits.call phase }, phase, stored⟩
  refine { sound with called := ?_, apart := ?_, journals := ?_, preserved := ?_ }
  · intro call member
    rcases List.mem_cons.mp member with rfl | earlier
    · exact within
    · exact sound.called call earlier
  · refine List.pairwise_cons.mpr ⟨fun call member same => ?_, sound.apart⟩
    obtain ⟨different, fresh⟩ := unspent call member same.symm
    exact ⟨different.symm, fun group inside again => fresh group again inside⟩
  · intro other disk found
    by_cases same : other = job
    · subst same
      obtain rfl := Option.some.inj (stored.symm.trans found)
      exact holds.fits.call phase
    · exact (sound.journals other disk found).other (Ne.symm same)
  · intro other disk found gone
    have apart : other ≠ job := by
      rintro rfl
      exact (holds.disk disk found).1 gone
    obtain ⟨ref, before, named, kept, fits, rest⟩ := sound.preserved other disk found gone
    exact ⟨ref, before, named, kept, fits.other (Ne.symm apart), rest⟩

theorem Origin.publish {progress : Journal} (origin : Origin world ledger job request) :
    Origin (world.publish progress) ledger job request := by
  intro ref resumed
  obtain ⟨known, parent, published, rest⟩ := origin ref resumed
  refine ⟨known, parent, ?_, rest⟩
  rw [World.publish, World.tick, List.getElem?_append_left (List.getElem?_eq_some_iff.mp published).1]
  exact published

/-- A checkpoint of the job, whose stored journal has drawn the same groups. -/
theorem Holds.publish (holds : Holds world ledger job request journal) {disk : Journal}
    (stored : world.journals.get? job = some disk) (same : disk.sampler = journal.sampler) :
    Holds (world.publish journal) ledger job request journal := by
  have sound := holds.sound
  have claim := holds.fits.claim
  have marks : Marks world.journals ledger journal disk :=
    ⟨claim ▸ stored, claim ▸ holds.fits.low, claim ▸ holds.fits.high, claim ▸ holds.fits.begins, same.ge,
      holds.wanted.trans (holds.disk disk stored).2.2.symm⟩
  refine { holds with sound := ?_, origin := holds.origin.publish }
  refine { sound with origins := ?_, checkpoints := ?_, ordered := ?_ }
  · exact fun other known found => (sound.origins other known found).publish
  · intro progress member
    rcases List.mem_append.mp member with old | new
    · exact sound.checkpoints progress old
    · rw [List.mem_singleton] at new
      rw [new]
      exact ⟨disk, marks⟩
  · refine List.pairwise_append.mpr ⟨sound.ordered, List.pairwise_singleton .., ?_⟩
    intro earlier member later latest owner
    rw [List.mem_singleton] at latest
    subst latest
    obtain ⟨known, before⟩ := sound.checkpoints earlier member
    obtain rfl : disk = known := by
      have found := before.stored
      rw [owner, claim, stored] at found
      exact Option.some.inj found
    exact before.behind.trans same.le

/-- The first observation of the next index. -/
theorem ends_observe_first (updating : Updating world ledger job request journal) {index : Nat}
    (next : index = ledger.top job) (room : index < request.configuration.maxUpdates)
    {done : Unit → World → Prop}
    (returns : Updating (world.record job index 1) (ledger.advance job) job request journal →
      done () (world.record job index 1)) :
    (observe machine job index 1).Ends world done fun _ after => Safe after := by
  have observed := updating.observe next room
  have unseen : world.observations.get? (job, index) = none := by
    rw [← Option.not_isSome_iff_eq_none, updating.holds.sound.observed, next]
    exact fun within => absurd within.2 (lt_irrefl _)
  rw [observe, ends_bind, ends_read, unseen]
  exact ends_durable updating.holds.safe observed.holds.safe (returns observed)

/-- A further observation of an index. -/
theorem ends_observe_again {index revision : Nat} (holds : Holds world ledger job request journal)
    (within : ledger.base job ≤ index ∧ index < ledger.top job) {done : Unit → World → Prop}
    (returns : ∀ after, Holds after ledger job request journal → after.journals = world.journals → done () after) :
    (observe machine job index revision).Ends world done fun _ after => Safe after := by
  have recorded : Holds (world.record job index revision) ledger job request journal :=
    { holds with sound := holds.sound.record ((holds.sound.observed job index).mpr within) }
  rw [observe, ends_bind, ends_read]
  dsimp only
  split
  next => exact ends_durable holds.safe recorded.safe (returns _ recorded rfl)
  next =>
    split
    next => exact ends_outside holds.safe (returns _ holds.tick rfl)
    next => exact ends_raise holds.safe

theorem ends_publishCheckpoint {index : Nat} (holds : Holds world ledger job request journal) {disk : Journal}
    (stored : world.journals.get? job = some disk) (same : disk.sampler = journal.sampler)
    (within : ledger.base job ≤ index ∧ index < ledger.top job) :
    (publishCheckpoint machine job index journal).Ends world
      (fun result after => Holds after ledger job request journal ∧ ∃ checkpoint, result = { journal with checkpoint })
      fun _ after => Safe after := by
  unfold publishCheckpoint
  split
  next =>
    have published := holds.publish stored same
    rw [ends_bind, ends_read, ends_bind]
    refine ends_durable holds.safe published.safe ?_
    rw [ends_bind]
    refine ends_observe_again published within fun after held _ => ?_
    rw [ends_pure]
    exact ⟨held, _, rfl⟩
  next =>
    rw [ends_pure]
    exact ⟨holds, _, rfl⟩

theorem Journal.index_confirm (journal : Journal) (nonzero : Bool) :
    (journal.confirm nonzero).index = journal.index + 1 := by
  simp only [Journal.confirm, Journal.index]
  omega

/-- The update is confirmed: its index counts, and the batch is used up. -/
theorem Updating.confirm (updating : Updating world ledger job request journal)
    (top : ledger.top job = journal.index + 1) (nonzero : Bool) :
    Holds world ledger job request (journal.confirm nonzero) := by
  obtain ⟨holds, phase, _⟩ := updating
  have fits := holds.fits
  have counted := journal.index_confirm nonzero
  refine holds.turn ?_ holds.present rfl le_rfl
  constructor
  · exact fits.claim
  · exact (fits.low.trans (Nat.le_succ _)).trans counted.ge
  · exact counted.le.trans top.ge
  · exact fun settled => absurd phase settled.1
  · exact fits.begins
  · exact (List.nodup_append.mp fits.distinct).2.1
  · exact fun group inside => fits.drawn group (List.mem_append_right _ inside)
  · exact fits.used
  · exact fits.unused
  · exact fun settled => absurd phase settled.1

/-- The confirmed journal goes back to collecting. -/
theorem Holds.collecting (holds : Holds world ledger job request journal) (top : ledger.top job = journal.index)
    (empty : journal.batchReceipts = []) (checkpoint : Option Nat) :
    Holds world ledger job request { journal with phase := .collecting, checkpoint := checkpoint } := by
  have fits := holds.fits
  refine holds.turn ?_ nofun rfl le_rfl
  exact ⟨fits.claim, fits.low, fits.high, fun _ => top, fits.begins, fits.distinct, fits.drawn, fits.used, fits.unused,
    fun _ call member same group inside again => by rw [empty] at again; cases again⟩

theorem ends_dispatchUpdate (updating : Updating world ledger job request journal)
    (next : journal.index = ledger.top job) (room : journal.index < request.configuration.maxUpdates)
    (low : ledger.base job ≤ journal.index)
    (unspent : ∀ call ∈ world.dispatched, call.job = job →
      call.index ≠ journal.index ∧ ∀ group ∈ call.groups, group ∉ journal.batchReceipts) :
    (dispatchUpdate machine job journal).Ends world
      (fun _ after => Updating after (ledger.advance job) job request journal) fun _ after => Safe after := by
  have waited : Updating world.tick ledger job request journal :=
    ⟨updating.holds.tick, updating.phase, updating.stored⟩
  have within : (ledger.advance job).base job ≤ journal.index ∧ journal.index < (ledger.advance job).top job :=
    ⟨low, by rw [ledger.advance_self, next]; exact Nat.lt_succ_self _⟩
  rw [dispatchUpdate, ends_bind]
  refine ends_outside updating.holds.safe ?_
  rw [ends_bind]
  refine ends_observe_first waited next room fun observed => ?_
  have called := observed.dispatch within unspent
  rw [ends_bind, ends_modify, ends_bind]
  refine ends_outside called.holds.safe ?_
  exact ends_outside called.holds.tick.safe ⟨called.holds.tick.tick, called.phase, called.stored⟩

theorem ends_recordUpdate {index : Nat} (holds : Holds world ledger job request journal)
    (top : ledger.top job = journal.index) (empty : journal.batchReceipts = []) {disk : Journal}
    (stored : world.journals.get? job = some disk) (same : disk.sampler = journal.sampler)
    (within : ledger.base job ≤ index ∧ index < ledger.top job) :
    (recordUpdate machine job index journal).Ends world
      (fun result after => Holds after ledger job request result ∧ Settled result.phase)
      fun _ after => Safe after := by
  rw [recordUpdate, ends_bind]
  refine ends_outside holds.safe ?_
  rw [ends_bind]
  refine ends_observe_again holds.tick within fun after held unchanged => ?_
  have found : after.tick.journals.get? job = some disk :=
    (congrArg (fun journals => journals.get? job) unchanged).trans stored
  rw [ends_bind]
  refine ends_outside held.safe ?_
  rw [ends_bind]
  refine (ends_publishCheckpoint held.tick found same within).mono (fun result final => ?_) fun _ _ => id
  rintro ⟨held, checkpoint, rfl⟩
  rw [ends_bind]
  refine ends_write (held.collecting top empty checkpoint) fun written => ?_
  rw [ends_pure]
  exact ⟨written, nofun, nofun⟩

theorem ends_update (holds : Holds world ledger job request journal) (settled : Settled journal.phase)
    (room : journal.index < request.configuration.maxUpdates) :
    (update machine job journal).Ends world
      (fun result after => ∃ ledger, Holds after ledger job request result ∧ Settled result.phase)
      fun _ after => Safe after := by
  have next := holds.fits.settled settled
  have begun : Holds world.tick ledger job request { journal with phase := .updating } :=
    holds.tick.turn (holds.fits.like rfl rfl rfl rfl rfl fun _ => settled) nofun rfl le_rfl
  have unspent : ∀ call ∈ world.dispatched, call.job = job →
      call.index ≠ journal.index ∧ ∀ group ∈ call.groups, group ∉ journal.batchReceipts := by
    intro call member same
    refine ⟨fun equal => ?_, holds.fits.unspent settled call member same⟩
    have high := (holds.sound.called call member).2
    rw [same, equal, next] at high
    exact lt_irrefl _ high
  rw [update, ends_bind]
  refine ends_outside holds.safe ?_
  rw [ends_bind]
  refine ends_write begun fun written => ?_
  rw [ends_bind]
  refine (ends_dispatchUpdate ⟨written, rfl, Dict.get?_set_self ..⟩ next.symm room holds.fits.low unspent).mono
    (fun _ after => ?_) fun _ _ => id
  intro updating
  have top : (ledger.advance job).top job = journal.index + 1 := by rw [ledger.advance_self, next]
  rw [ends_bind, ends_read]
  refine (ends_recordUpdate (updating.confirm top _) ?_ rfl updating.stored rfl ⟨holds.fits.low, ?_⟩).mono
    (fun result final held => ⟨_, held⟩) fun _ _ => id
  · rw [Journal.index_confirm]
    exact top
  · rw [top]
    exact Nat.lt_succ_self _

/-! ### The loop -/

theorem ends_loop (steps : Nat) (holds : Holds world ledger job request journal) (settled : Settled journal.phase) :
    (loop machine job request.configuration steps journal).Ends world (fun _ after => Safe after)
      fun _ after => Safe after := by
  induction steps generalizing world ledger journal with
  | zero => exact ends_raise holds.safe
  | succ steps ih =>
      rw [loop]
      split
      next room =>
        rw [ends_bind, ends_read]
        split
        · exact ends_finish holds settled
        split
        · exact ends_finish holds settled
        rw [ends_bind]
        refine ends_outside holds.safe ?_
        rw [ends_bind]
        refine (ends_gather _ holds.tick).mono (fun gathered after => ?_) fun _ _ => id
        rintro ⟨held, kept⟩
        have settled := kept.settled settled
        rw [ends_bind, ends_read]
        split
        next =>
          rw [ends_bind]
          refine (ends_update held settled (kept.2.trans_lt room)).mono (fun updated final => ?_) fun _ _ => id
          rintro ⟨_, held, settled⟩
          exact ih held settled
        next =>
          rw [ends_bind]
          have emptied : Holds after ledger job request { gathered with batchReceipts := [] } := by
            have fits := held.fits
            refine held.turn ?_ held.present rfl le_rfl
            exact ⟨fits.claim, fits.low, fits.high, fits.settled, fits.begins,
              (List.nodup_append.mp fits.distinct).2.1,
              fun group inside => fits.drawn group (List.mem_append_right _ inside), fits.used, fits.unused,
              fun _ call member same group inside again => by cases again⟩
          exact ends_write emptied fun written => ih written settled
      next =>
        split
        · exact ends_finish holds settled
        · exact ends_finish holds settled

/-! ### Recovery from a checkpoint -/

/-- The ledger when a job begins where another one ended. -/
def Ledger.begin (ledger : Ledger) (job : String) (base start : Nat) : Ledger where
  base := Function.update ledger.base job base
  top := Function.update ledger.top job base
  start := Function.update ledger.start job start

theorem Ledger.begin_self (ledger : Ledger) (job : String) (base start : Nat) :
    (ledger.begin job base start).base job = base ∧ (ledger.begin job base start).top job = base ∧
      (ledger.begin job base start).start job = start :=
  ⟨Function.update_self .., Function.update_self .., Function.update_self ..⟩

theorem Ledger.begin_of_ne (ledger : Ledger) {job other : String} (base start : Nat) (apart : other ≠ job) :
    (ledger.begin job base start).base other = ledger.base other ∧
      (ledger.begin job base start).top other = ledger.top other ∧
      (ledger.begin job base start).start other = ledger.start other :=
  ⟨Function.update_of_ne apart .., Function.update_of_ne apart .., Function.update_of_ne apart ..⟩

/-- The observed indices of a job from one of its own on are those below the top. -/
theorem Sound.length_later (sound : Sound world ledger) {index : Nat} (low : ledger.base job ≤ index) :
    (world.later job index).length = ledger.top job - index := by
  have distinct : ((world.later job index).map fun entry => entry.1.2).Nodup := by
    have keys : ((world.later job index).map Prod.fst).Nodup :=
      world.observations.nodup.sublist (List.filter_sublist.map _)
    have indices : (((world.later job index).map Prod.fst).map Prod.snd).Nodup := by
      refine List.Nodup.map_on ?_ keys
      rintro ⟨first, _⟩ member ⟨second, _⟩ again rfl
      obtain ⟨entry, inside, same⟩ := List.mem_map.mp member
      obtain ⟨other, among, equal⟩ := List.mem_map.mp again
      have here : entry.1.1 = job := (of_decide_eq_true (List.mem_filter.mp inside).2).1
      have there : other.1.1 = job := (of_decide_eq_true (List.mem_filter.mp among).2).1
      rw [same] at here
      rw [equal] at there
      exact Prod.ext (here.trans there.symm) rfl
    rwa [List.map_map] at indices
  have members : ((world.later job index).map fun entry => entry.1.2).toFinset =
      Finset.Ico index (ledger.top job) := by
    ext position
    rw [List.mem_toFinset, List.mem_map, Finset.mem_Ico]
    constructor
    · rintro ⟨⟨⟨owner, found⟩, revision⟩, member, rfl⟩
      obtain ⟨listed, passes⟩ := List.mem_filter.mp member
      obtain ⟨rfl, above⟩ := of_decide_eq_true passes
      have seen : (world.observations.get? (owner, found)).isSome = true := by
        rw [Dict.mem_entries.mp listed]
        rfl
      exact ⟨above, ((sound.observed owner found).mp seen).2⟩
    · rintro ⟨above, below⟩
      obtain ⟨revision, found⟩ := Option.isSome_iff_exists.mp
        ((sound.observed job position).mpr ⟨low.trans above, below⟩)
      exact ⟨((job, position), revision), List.mem_filter.mpr
        ⟨Dict.mem_entries.mpr found, decide_eq_true ⟨rfl, above⟩⟩, rfl⟩
  have counted := List.toFinset_card_of_nodup distinct
  rw [members, Nat.card_Ico, List.length_map] at counted
  exact counted.symm

/-- A job without a journal may begin anywhere. -/
theorem Sound.begin (sound : Sound world ledger) (fresh : world.journals.get? job = none) (base start : Nat) :
    Sound world (ledger.begin job base start) := by
  have present : ∀ {name : String} {journal : Journal}, world.journals.get? name = some journal → name ≠ job := by
    rintro name journal found rfl
    cases fresh.symm.trans found
  have idle := sound.idle job fresh
  have self := ledger.begin_self job base start
  have agree := fun {name : String} (apart : name ≠ job) => ledger.begin_of_ne base start apart
  constructor
  · intro other index
    rw [sound.observed]
    by_cases same : other = job
    · subst same
      rw [self.1, self.2.1]
      omega
    · rw [(agree same).1, (agree same).2.1]
  · intro call member
    have within := sound.called call member
    have apart : call.job ≠ job := by
      intro same
      rw [same] at within
      omega
    rw [(agree apart).1, (agree apart).2.1]
    exact within
  · exact sound.apart
  · intro other absent
    by_cases same : other = job
    · rw [same, self.1, self.2.1]
    · rw [(agree same).1, (agree same).2.1]
      exact sound.idle other absent
  · intro other disk found
    have apart := agree (present found)
    exact (sound.journals other disk found).agree apart.1 apart.2.1 apart.2.2
  · intro other disk found
    rw [(agree (present found)).2.1]
    exact sound.budget other disk found
  · intro other disk found ref resumed
    obtain ⟨progress, parent, published, stored, gone, claimed, based, started⟩ :=
      sound.origins other disk found ref resumed
    have child := agree (present found)
    exact ⟨progress, parent, published, stored, gone, claimed,
      child.1.trans (based.trans (agree (present stored)).2.1.symm), child.2.2.trans started⟩
  · intro other disk found gone
    have apart := agree (present found)
    obtain ⟨ref, before, named, kept, fits, rest⟩ := sound.preserved other disk found gone
    exact ⟨ref, before, named, kept, fits.agree apart.1 apart.2.1 apart.2.2, rest⟩
  · intro progress member
    obtain ⟨disk, marks⟩ := sound.checkpoints progress member
    have apart := agree (present marks.stored)
    exact ⟨disk, marks.stored, apart.1 ▸ marks.low, apart.2.1 ▸ marks.high, apart.2.2 ▸ marks.begins, marks.behind,
      marks.request⟩
  · exact sound.ordered

/-- The process begins a job: its journal in memory is at the base and holds no group. -/
theorem Sound.holds_begin (sound : Sound world ledger) (fresh : world.journals.get? job = none)
    (claim : journal.claim = job) (wanted : journal.request = request) (present : journal.phase ≠ .superseded)
    (based : ledger.base job = journal.index) (top : ledger.top job = journal.index)
    (start : ledger.start job = journal.sampler) (empty : journal.batchReceipts ++ journal.waiting = [])
    (room : journal.index ≤ request.configuration.maxUpdates) (origin : Origin world ledger job request) :
    Holds world ledger job request journal := by
  have uncalled : ∀ call ∈ world.dispatched, call.job = job → False := by
    intro call member same
    have within := sound.called call member
    rw [same, based, top] at within
    omega
  refine ⟨sound, ⟨claim, based.le, top.ge, fun _ => top, start.le, ?_, ?_, ?_, ?_, ?_⟩, present, wanted, top.le.trans room,
    origin, fun stored found => ?_⟩
  · rw [empty]
    exact List.nodup_nil
  · rw [empty]
    exact fun _ member => by cases member
  · exact fun call member same => (uncalled call member same).elim
  · exact fun call member same => (uncalled call member same).elim
  · exact fun _ call member same => (uncalled call member same).elim
  · cases fresh.symm.trans found

/-- The journal that a recovery continues, while no job other than this one continues its owner. -/
structure Continues (world : World) (ledger : Ledger) (job owner : String) (old current : Journal) : Prop where
  stored : world.journals.get? owner = some old
  fits : Fits world.dispatched ledger owner current
  sampler : current.sampler = old.sampler
  request : current.request = old.request
  free : old.phase = .superseded → old.recoveryClaim = some job

theorem Sound.continues (sound : Sound world ledger) {owner : String} {old current : Journal}
    (stored : world.journals.get? owner = some old) (found : currentJournal world job old = some current)
    (present : current.phase ≠ .superseded) : Continues world ledger job owner old current := by
  rw [currentJournal] at found
  split at found
  next gone =>
    obtain ⟨ref, before, named, kept, fits, sampler, request⟩ := sound.preserved owner old stored gone.1
    rw [named, Option.bind_some, kept] at found
    obtain rfl := Option.some.inj found
    exact ⟨stored, fits, sampler, request, fun _ => gone.2⟩
  next =>
    obtain rfl := Option.some.inj found
    exact ⟨stored, sound.journals owner old stored, rfl, rfl, fun gone => absurd gone present⟩

/-- The world after another job took over. -/
def World.takeOver (world : World) (job owner : String) (current : Journal) : World :=
  ((world.preserve current).tick).store owner (current.supersede job world.recoveries.length)

section

variable {owner : String} {old current : Journal} (continues : Continues world ledger job owner old current)
  (fresh : world.journals.get? job = none)

include continues fresh

/-- What a job with a journal continues stays as it was. -/
theorem Origin.takeOver {other : String} {wanted : Request} {known : Journal}
    (listed : world.journals.get? other = some known) (origin : Origin world ledger other wanted) :
    Origin (world.takeOver job owner current) ledger other wanted := by
  intro ref resumed
  obtain ⟨progress, parent, published, stored, gone, claimed, rest⟩ := origin ref resumed
  have apart : progress.claim ≠ owner := by
    rintro rfl
    obtain rfl := Option.some.inj (continues.stored.symm.trans stored)
    obtain rfl := Option.some.inj (claimed.symm.trans (continues.free gone))
    cases fresh.symm.trans listed
  exact ⟨progress, parent, published, (Dict.get?_set_ne _ _ apart).trans stored, gone, claimed, rest⟩

theorem Sound.takeOver (sound : Sound world ledger) : Sound (world.takeOver job owner current) ledger := by
  have superseded : Fits world.dispatched ledger owner (current.supersede job world.recoveries.length) :=
    continues.fits.like rfl rfl rfl rfl rfl fun settled => (settled.2 rfl).elim
  refine { sound with idle := ?_, journals := ?_, budget := ?_, origins := ?_, preserved := ?_, checkpoints := ?_ }
  · intro other absent
    refine sound.idle other ?_
    change (world.journals.set owner _).get? other = none at absent
    rw [Dict.get?_set] at absent
    split at absent
    · cases absent
    · exact absent
  · intro other disk found
    change (world.journals.set owner _).get? other = some disk at found
    rw [Dict.get?_set] at found
    split at found
    next same =>
      obtain rfl := Option.some.inj found
      rw [same]
      exact superseded
    next => exact sound.journals other disk found
  · intro other disk found
    change (world.journals.set owner _).get? other = some disk at found
    rw [Dict.get?_set] at found
    split at found
    next same =>
      obtain rfl := Option.some.inj found
      have bounded := sound.budget owner old continues.stored
      rw [← continues.request] at bounded
      exact same ▸ bounded
    next => exact sound.budget other disk found
  · intro other disk found
    change (world.journals.set owner _).get? other = some disk at found
    rw [Dict.get?_set] at found
    split at found
    next same =>
      obtain rfl := Option.some.inj found
      subst same
      have origin := sound.origins _ old continues.stored
      rw [← continues.request] at origin
      exact origin.takeOver continues fresh continues.stored
    next => exact (sound.origins other disk found).takeOver continues fresh found
  · intro other disk found gone
    change (world.journals.set owner _).get? other = some disk at found
    rw [Dict.get?_set] at found
    split at found
    next same =>
      obtain rfl := Option.some.inj found
      subst same
      exact ⟨world.recoveries.length, current, rfl, List.getElem?_concat_length .., continues.fits, rfl, rfl⟩
    next =>
      obtain ⟨ref, before, named, kept, rest⟩ := sound.preserved other disk found gone
      refine ⟨ref, before, named, ?_, rest⟩
      change (world.recoveries ++ [current])[ref]? = some before
      rw [List.getElem?_append_left (List.getElem?_eq_some_iff.mp kept).1]
      exact kept
  · intro progress member
    obtain ⟨disk, marks⟩ := sound.checkpoints progress member
    by_cases same : progress.claim = owner
    · obtain rfl := Option.some.inj (continues.stored.symm.trans (same ▸ marks.stored))
      refine ⟨current.supersede job world.recoveries.length, ?_, marks.low, marks.high, marks.begins,
        marks.behind.trans continues.sampler.ge, marks.request.trans continues.request.symm⟩
      rw [same]
      exact Dict.get?_set_self ..
    · exact ⟨disk, { marks with stored := (Dict.get?_set_ne _ _ same).trans marks.stored }⟩

end

/-- The journal of a job that took over begins where the other one ended. -/
theorem Sound.restored {progress old current : Journal} {ref : Nat} (sound : Sound world ledger)
    (published : world.checkpoints[ref]? = some progress)
    (continues : Continues world ledger job progress.claim old current)
    (fresh : world.journals.get? job = none) (resume : request.resume = some ref)
    (configured : progress.request.configuration = request.configuration) (receipt : Nat) :
    Holds (world.takeOver job progress.claim current)
      (ledger.begin job (ledger.top progress.claim) current.sampler) job request
      (progress.restore current (world.later progress.claim progress.index).length request job ref receipt) := by
  obtain ⟨disk, marks⟩ := sound.checkpoints progress (List.mem_of_getElem? published)
  obtain rfl := Option.some.inj (continues.stored.symm.trans marks.stored)
  have apart : progress.claim ≠ job := by
    intro same
    rw [← same] at fresh
    cases fresh.symm.trans continues.stored
  have self := ledger.begin_self job (ledger.top progress.claim) current.sampler
  have owner := ledger.begin_of_ne (ledger.top progress.claim) current.sampler apart
  have index : (progress.restore current (world.later progress.claim progress.index).length request job ref
      receipt).index = ledger.top progress.claim := by
    have counted := sound.length_later marks.low
    have high := marks.high
    simp only [Journal.restore, Journal.index] at counted high ⊢
    omega
  have begun : Continues world (ledger.begin job (ledger.top progress.claim) current.sampler) job progress.claim old
      current := { continues with fits := continues.fits.agree owner.1 owner.2.1 owner.2.2 }
  have taken := (sound.begin fresh (ledger.top progress.claim) current.sampler).takeOver begun fresh
  refine taken.holds_begin ((Dict.get?_set_ne _ _ apart.symm).trans fresh) rfl rfl nofun (self.1.trans index.symm)
    (self.2.1.trans index.symm) self.2.2 rfl ?_ ?_
  · rw [index, ← configured, marks.request]
    exact sound.budget _ old continues.stored
  · intro other resumed
    obtain rfl := Option.some.inj (resume.symm.trans resumed)
    exact ⟨progress, current.supersede job world.recoveries.length, published, Dict.get?_set_self .., rfl, rfl,
      self.1.trans owner.2.1.symm, self.2.2⟩

theorem ends_restoreProgress {ref : Nat} (safe : Safe world) (fresh : world.journals.get? job = none)
    (resume : request.resume = some ref) :
    (restoreProgress machine job request ref).Ends world
      (fun result after => ∃ ledger, Holds after ledger job request result ∧ Settled result.phase)
      fun _ after => Safe after := by
  obtain ⟨ledger, sound⟩ := safe
  rw [restoreProgress, ends_bind, ends_read, ends_bind]
  refine ends_require ⟨ledger, sound⟩ fun progress published => ?_
  rw [ends_bind]
  refine ends_outside ⟨ledger, sound⟩ ?_
  have sound := sound.tick
  rw [ends_bind]
  refine ends_check ⟨ledger, sound⟩ fun configured => ?_
  rw [ends_bind]
  refine ends_check ⟨ledger, sound⟩ fun _ => ?_
  rw [ends_bind]
  refine ends_check ⟨ledger, sound⟩ fun _ => ?_
  dsimp only
  rw [ends_bind]
  refine ends_check ⟨ledger, sound⟩ fun _ => ?_
  rw [ends_bind]
  refine ends_outside ⟨ledger, sound⟩ ?_
  have sound := sound.tick
  rw [ends_bind]
  refine ends_require ⟨ledger, sound⟩ fun old stored => ?_
  rw [ends_bind]
  refine ends_require ⟨ledger, sound⟩ fun current found => ?_
  rw [ends_bind]
  refine ends_check ⟨ledger, sound⟩ fun checked => ?_
  have present : current.phase ≠ .superseded := by
    rcases checked.2.2.2.2 with same | same | same <;> rw [same] <;> nofun
  have continues : Continues world.tick.tick ledger job progress.claim old current :=
    sound.continues stored found present
  have published : world.tick.tick.checkpoints[ref]? = some progress := published
  have restored := sound.restored published continues fresh resume configured world.recoveries.length
  rw [ends_bind]
  refine ends_durable ⟨ledger, sound⟩ ⟨ledger, sound.preserve⟩ ?_
  rw [ends_bind]
  refine ends_outside ⟨ledger, sound.preserve⟩ ?_
  rw [ends_bind]
  refine ends_durable ⟨ledger, sound.preserve.tick⟩ restored.safe ?_
  rw [ends_pure]
  exact ⟨_, restored, nofun, nofun⟩

/-! ### Invocations -/

theorem ends_beginJournal (safe : Safe world) (fresh : world.journals.get? job = none) :
    (beginJournal machine job request).Ends world
      (fun result after => ∃ ledger, Holds after ledger job request result ∧ Settled result.phase)
      fun _ after => Safe after := by
  unfold beginJournal
  cases resume : request.resume with
  | some ref => exact ends_restoreProgress safe fresh resume
  | none =>
      rw [ends_pure]
      obtain ⟨ledger, sound⟩ := safe
      have self := ledger.begin_self job 0 0
      exact ⟨_, (sound.begin fresh 0 0).holds_begin fresh rfl rfl nofun self.1 self.2.1 self.2.2 rfl (Nat.zero_le _)
        (fun ref resumed => by rw [resume] at resumed; cases resumed), nofun, nofun⟩

theorem ends_openNative (holds : Holds world ledger job request journal) (settled : Settled journal.phase) :
    (openNative machine job journal).Ends world
      (fun result after => Holds after ledger job request result ∧ Settled result.phase)
      fun _ after => Safe after := by
  rw [openNative, ends_bind, ends_read]
  split
  next =>
    rw [ends_pure]
    exact ⟨holds, settled⟩
  next =>
    rw [ends_bind]
    refine ends_outside holds.safe ?_
    rw [ends_bind]
    refine ends_write (holds.tick.rephase settled .initializing _ nofun) fun written => ?_
    rw [ends_bind, TrainingService.remember, ends_modify, ends_pure]
    exact ⟨written.remember _, nofun, nofun⟩

theorem ends_startNative (holds : Holds world ledger job request journal) (settled : Settled journal.phase) :
    (startNative machine job journal).Ends world
      (fun result after => Holds after ledger job request result ∧ Settled result.phase)
      fun _ after => Safe after := by
  rw [startNative, ends_bind, ends_read]
  split
  next =>
    rw [ends_pure]
    exact ⟨holds, settled⟩
  next =>
    rw [ends_bind]
    refine (ends_openNative holds settled).mono (fun result after => ?_) fun _ _ => id
    rintro ⟨held, settled⟩
    rw [ends_bind]
    refine ends_outside held.safe ?_
    rw [ends_bind, TrainingService.remember, ends_modify, ends_pure]
    exact ⟨held.tick.remember _, settled⟩

theorem ends_proceed {steps : Nat} (holds : Holds world ledger job request journal)
    (settled : Settled journal.phase) :
    (proceed machine steps job request journal).Ends world (fun _ after => Safe after) fun _ after => Safe after := by
  rw [proceed, ends_bind]
  refine ends_write holds fun written => ?_
  rw [ends_bind]
  refine ends_outside written.safe ?_
  split
  · exact ends_finish written.tick settled
  rw [ends_bind]
  refine (ends_startNative written.tick settled).mono (fun result after => ?_) fun _ _ => id
  rintro ⟨held, settled⟩
  rw [ends_bind]
  refine ends_outside held.safe ?_
  rw [ends_bind]
  refine ends_write (held.tick.rephase settled .collecting _ nofun) fun stored => ?_
  exact ends_loop steps stored ⟨nofun, nofun⟩

theorem ends_continueJournal {steps : Nat} (safe : Safe world) (stored : world.journals.get? job = some journal) :
    (continueJournal machine steps job request journal).Ends world (fun _ after => Safe after)
      fun _ after => Safe after := by
  obtain ⟨ledger, sound⟩ := safe
  rw [continueJournal, ends_bind]
  refine ends_check ⟨ledger, sound⟩ fun checked => ?_
  rw [ends_bind, ends_read]
  have holds : journal.phase ≠ .superseded → Holds world ledger job request journal := by
    intro present
    refine ⟨sound, sound.journals job journal stored, present, checked.1, checked.1 ▸ sound.budget job journal stored,
      checked.1 ▸ sound.origins job journal stored, fun disk found => ?_⟩
    obtain rfl := Option.some.inj (stored.symm.trans found)
    exact ⟨present, le_rfl, checked.1⟩
  have open_phase : ∀ phase, journal.phase = phase → Settled phase → Holds world ledger job request journal ∧
      Settled journal.phase := fun phase same settled => ⟨holds (same ▸ settled.2), same ▸ settled⟩
  split
  next => exact ends_durable ⟨ledger, sound⟩ ⟨ledger, sound.complete⟩ ⟨ledger, sound.complete⟩
  next same =>
    obtain ⟨held, settled⟩ := open_phase _ same ⟨nofun, nofun⟩
    exact ends_finish held settled
  next same =>
    obtain ⟨held, settled⟩ := open_phase _ same ⟨nofun, nofun⟩
    exact ends_proceed held settled
  next same =>
    obtain ⟨held, settled⟩ := open_phase _ same ⟨nofun, nofun⟩
    exact ends_proceed held settled
  next same =>
    obtain ⟨held, settled⟩ := open_phase _ same ⟨nofun, nofun⟩
    split
    · exact ends_proceed held settled
    · exact ends_raise ⟨ledger, sound⟩
  next => exact ends_raise ⟨ledger, sound⟩
  next => exact ends_raise ⟨ledger, sound⟩

theorem ends_enqueue {done : Unit → World → Prop} (safe : Safe world)
    (returns : ∀ after, Safe after → after.journals = world.journals → done () after) :
    (enqueue machine job request).Ends world done fun _ after => Safe after := by
  obtain ⟨ledger, sound⟩ := safe
  rw [enqueue, ends_bind, ends_read]
  split
  next => exact ends_check ⟨ledger, sound⟩ fun _ => returns _ ⟨ledger, sound⟩ rfl
  next => exact ends_durable ⟨ledger, sound⟩ ⟨ledger, sound.enqueue⟩ (returns _ ⟨ledger, sound.enqueue⟩ rfl)

theorem ends_trainJob {steps : Nat} (safe : Safe world) :
    (trainJob machine steps job request).Ends world (fun _ after => Safe after) fun _ after => Safe after := by
  rw [trainJob, ends_bind]
  refine ends_outside safe ?_
  obtain ⟨ledger, sound⟩ := safe
  rw [ends_bind]
  refine ends_enqueue ⟨ledger, sound.tick⟩ fun queued ⟨ledger, sound⟩ _ => ?_
  rw [ends_bind, ends_read]
  split
  · rw [ends_pure]
    exact ⟨ledger, sound⟩
  rw [ends_bind]
  refine ends_check ⟨ledger, sound⟩ fun _ => ?_
  rw [ends_bind]
  refine ends_check ⟨ledger, sound⟩ fun _ => ?_
  rw [ends_bind]
  refine ends_outside ⟨ledger, sound⟩ ?_
  split
  next journal stored => exact ends_continueJournal ⟨ledger, sound.tick⟩ stored
  next fresh =>
    rw [ends_bind]
    refine (ends_beginJournal ⟨ledger, sound.tick⟩ fresh).mono (fun result after => ?_) fun _ _ => id
    rintro ⟨_, held, settled⟩
    exact ends_proceed held settled

theorem ends_train {steps : Nat} (safe : Safe world) :
    (train machine steps job request).Ends world (fun _ after => Safe after) fun _ after => Safe after := by
  rw [train, ends_catching]
  refine (ends_trainJob safe).mono (fun _ _ => id) fun failure after => ?_
  rintro ⟨ledger, sound⟩
  rw [ends_bind]
  unfold leave
  split
  next =>
    rw [TrainingService.remember, ends_modify]
    exact ends_raise ⟨ledger, sound.remember _⟩
  next =>
    exact ends_closeLive ⟨ledger, sound⟩ (ends_raise ⟨ledger, sound⟩) fun memory =>
      ends_raise ⟨ledger, sound.tick.remember memory⟩

theorem Safe.step (safe : Safe world) (event : Event) : Safe (world.step machine event) := by
  cases event with
  | train steps job request => exact final_of_ends (ends_train safe)
  | restart =>
      obtain ⟨ledger, sound⟩ := safe
      exact ⟨ledger, sound.remember _⟩

theorem Safe.run (safe : Safe world) (events : List Event) : Safe (world.run machine events) := by
  induction events generalizing world with
  | nil => exact safe
  | cons event rest ih => exact ih (safe.step event)

/-! ### The chain of a job -/

/-- One job continues another: its request resumes a checkpoint of that one. -/
def Resumes (world : World) (child parent : String) : Prop :=
  ∃ journal ref progress, world.journals.get? child = some journal ∧ journal.request.resume = some ref ∧
    world.checkpoints[ref]? = some progress ∧ progress.claim = parent

/-- A job, and those that it continues, directly or not. -/
abbrev Descends (world : World) : String → String → Prop := Relation.ReflTransGen (Resumes world)

theorem resumes_unique : Relator.RightUnique (Resumes world) := by
  rintro child parent other ⟨journal, ref, progress, stored, resume, published, rfl⟩
    ⟨again, another, second, found, resumed, listed, rfl⟩
  obtain rfl := Option.some.inj (stored.symm.trans found)
  obtain rfl := Option.some.inj (resume.symm.trans resumed)
  obtain rfl := Option.some.inj (published.symm.trans listed)
  rfl

namespace Sound

variable (sound : Sound world ledger)

include sound

/-- A continued job ended where the other one began, in its indices and in its groups. -/
theorem before {child parent : String} (resumes : Resumes world child parent) :
    ∃ journal, world.journals.get? parent = some journal ∧ ledger.base child = ledger.top parent ∧
      ledger.start child = journal.sampler := by
  obtain ⟨journal, ref, progress, stored, resume, published, rfl⟩ := resumes
  obtain ⟨known, parent, listed, found, _, _, base, start⟩ := sound.origins child journal stored ref resume
  obtain rfl := Option.some.inj (published.symm.trans listed)
  exact ⟨parent, found, base, start⟩

theorem below {child ancestor : String} (path : Relation.TransGen (Resumes world) child ancestor) :
    ledger.top ancestor ≤ ledger.base child ∧ ∃ journal, world.journals.get? ancestor = some journal ∧
      journal.sampler ≤ ledger.start child := by
  induction path with
  | single resumes =>
      obtain ⟨journal, stored, base, start⟩ := sound.before resumes
      exact ⟨base.ge, journal, stored, start.ge⟩
  | tail _ resumes ih =>
      obtain ⟨above, between, found, later⟩ := ih
      obtain ⟨journal, stored, base, start⟩ := sound.before resumes
      have fits := sound.journals _ between found
      have ordered := fits.low.trans fits.high
      have begins := fits.begins
      exact ⟨by omega, journal, stored, by omega⟩

theorem apart_descends {first second : Dispatch} (one : first ∈ world.dispatched) (two : second ∈ world.dispatched)
    (path : Relation.TransGen (Resumes world) first.job second.job) :
    second.index < first.index ∧ first.groups.Disjoint second.groups := by
  obtain ⟨above, journal, stored, later⟩ := sound.below path
  refine ⟨(sound.called second two).2.trans_le (above.trans (sound.called first one).1), fun group inside again => ?_⟩
  have present : ∃ own, world.journals.get? first.job = some own := by
    rcases Relation.TransGen.head'_iff.mp path with ⟨_, ⟨own, _, _, found, _⟩, _⟩
    exact ⟨own, found⟩
  obtain ⟨own, found⟩ := present
  have low := ((sound.journals _ own found).used first one rfl group inside).1
  have high := ((sound.journals _ journal stored).used second two rfl group again).2
  omega

/-- Two different calls along a chain have different indices and no group in common. -/
theorem apart_chain : world.dispatched.Pairwise fun later earlier =>
    Descends world later.job earlier.job ∨ Descends world earlier.job later.job →
      later.index ≠ earlier.index ∧ later.groups.Disjoint earlier.groups := by
  refine List.Pairwise.imp_of_mem ?_ sound.apart
  intro later earlier member known apart chain
  by_cases same : later.job = earlier.job
  · exact apart same
  · rcases chain with path | path
    · rcases Relation.reflTransGen_iff_eq_or_transGen.mp path with equal | proper
      · exact absurd equal.symm same
      · obtain ⟨less, disjoint⟩ := sound.apart_descends member known proper
        exact ⟨less.ne', disjoint⟩
    · rcases Relation.reflTransGen_iff_eq_or_transGen.mp path with equal | proper
      · exact absurd equal same
      · obtain ⟨less, disjoint⟩ := sound.apart_descends known member proper
        exact ⟨less.ne, disjoint.symm⟩

theorem index_lt {job : String} {journal : Journal} (stored : world.journals.get? job = some journal)
    {call : Dispatch} (member : call ∈ world.dispatched) (path : Descends world job call.job) :
    call.index < journal.request.configuration.maxUpdates := by
  have high := (sound.called call member).2
  have budget := sound.budget job journal stored
  have fits := sound.journals job journal stored
  have ordered := fits.low.trans fits.high
  rcases Relation.reflTransGen_iff_eq_or_transGen.mp path with equal | proper
  · rw [equal] at high
    omega
  · obtain ⟨above, _⟩ := sound.below proper
    omega

/-- The calls of a job and of those that it continues stay within its declared updates. -/
theorem length_le {job : String} {journal : Journal} (stored : world.journals.get? job = some journal)
    {calls : List Dispatch} (sub : calls.Sublist world.dispatched)
    (chain : ∀ call ∈ calls, Descends world job call.job) :
    calls.length ≤ journal.request.configuration.maxUpdates := by
  have distinct : (calls.map Dispatch.index).Nodup := by
    refine List.pairwise_map.mpr (List.Pairwise.imp_of_mem ?_ (sound.apart_chain.sublist sub))
    intro later earlier member known apart
    exact (apart ((chain later member).total_of_right_unique resumes_unique (chain earlier known))).1
  have inside : (calls.map Dispatch.index).toFinset ⊆ Finset.range journal.request.configuration.maxUpdates := by
    intro index member
    obtain ⟨call, listed, rfl⟩ := List.mem_map.mp (List.mem_toFinset.mp member)
    exact Finset.mem_range.mpr (sound.index_lt stored (sub.subset listed) (chain call listed))
  have counted := Finset.card_le_card inside
  rwa [List.toFinset_card_of_nodup distinct, List.length_map, Finset.card_range] at counted

/-- The sampler positions of the checkpoints along a chain never move backwards. -/
theorem checkpoints_mono : world.checkpoints.Pairwise fun earlier later =>
    Descends world later.claim earlier.claim → earlier.sampler ≤ later.sampler := by
  refine List.Pairwise.imp_of_mem ?_ sound.ordered
  intro earlier later member known same path
  rcases Relation.reflTransGen_iff_eq_or_transGen.mp path with equal | proper
  · exact same equal
  · obtain ⟨journal, marks⟩ := sound.checkpoints earlier member
    obtain ⟨_, begun⟩ := sound.checkpoints later known
    obtain ⟨_, disk, stored, above⟩ := sound.below proper
    obtain rfl := Option.some.inj (marks.stored.symm.trans stored)
    exact marks.behind.trans (above.trans begun.begins)

end Sound

/-- In every run of the service, whatever fails and wherever the controller dies: along a chain of
recoveries no update index and no group reaches the optimizer twice, the calls of a job and of all
that it continues stay within the declared updates, and checkpoints never move the sampler back. -/
theorem run_updateBudget (machine : Machine) (events : List Event) :
    ((World.start.run machine events).dispatched.Pairwise fun later earlier =>
      Descends (World.start.run machine events) later.job earlier.job ∨
        Descends (World.start.run machine events) earlier.job later.job →
      later.index ≠ earlier.index ∧ later.groups.Disjoint earlier.groups) ∧
    (∀ job journal, (World.start.run machine events).journals.get? job = some journal →
      ∀ calls : List Dispatch, calls.Sublist (World.start.run machine events).dispatched →
        (∀ call ∈ calls, Descends (World.start.run machine events) job call.job) →
        calls.length ≤ journal.request.configuration.maxUpdates) ∧
    (World.start.run machine events).checkpoints.Pairwise fun earlier later =>
      Descends (World.start.run machine events) later.claim earlier.claim → earlier.sampler ≤ later.sampler := by
  obtain ⟨ledger, sound⟩ := @Safe.run World.start machine safe_start events
  exact ⟨sound.apart_chain, fun job journal stored calls sub chain => sound.length_le stored sub chain,
    sound.checkpoints_mono⟩

end TrainingService

end FeatureRl
