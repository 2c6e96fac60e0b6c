import FeatureRl.Contracts.Values
import FeatureRl.Lib.Checked
import FeatureRl.Lib.Effects
import Mathlib.Data.Finset.Insert

/-!
The policy barrier: inference is ready for a policy once every worker has acknowledged its stamp and its probe.
-/

namespace FeatureRl

open Checked

namespace Barrier

inductive Failure where
  | value (text : String)
  | type

structure PolicyStamp where
  version : String
  weights : String
  tokenizer : String
  template : String
deriving DecidableEq

def isVersion (text : String) : Bool :=
  match text.toList with
  | [] => false
  | first :: rest => isAlphanumeric first && rest.all fun c => isAlphanumeric c || c = '_' || c = '.' || c = '-'

/-- The checks of a stamp's constructor. -/
def PolicyStamp.check (stamp : PolicyStamp) : Except Failure PolicyStamp := do
  refuse (isVersion stamp.version = false) (.value "Invalid policy version")
  refuse (¬ (isDigest stamp.weights = true ∧ isDigest stamp.tokenizer = true ∧ isDigest stamp.template = true))
    (.value "Exact policy/tokenizer/template digests required")
  .ok stamp

abbrev Probe := List Int

structure PolicyBarrier where
  workers : List String
  stamp : Option PolicyStamp
  probe : Option Probe
  acknowledged : Finset String

def create (workers : List String) : Except Failure PolicyBarrier := do
  refuse (workers = [] ∨ ¬ workers.Nodup ∨ "" ∈ workers)
    (.value "Unique nonempty inference worker roster required")
  .ok ⟨workers, none, none, ∅⟩

structure Saved where
  workers : List String
  stamp : Option PolicyStamp
  probe : Option Probe

abbrev Step := Effects PolicyBarrier Failure

namespace PolicyBarrier

def checkProbe (probe : Option Probe) : Except Failure Probe := do
  let probe ← require probe (.value "Exact fixed-input inference result required")
  refuse (probe = [] ∨ ∃ token ∈ probe, token < 0) (.value "Exact fixed-input inference result required")
  .ok probe

/-- No stamp has no fields to check. -/
def checkStamp (stamp : Option PolicyStamp) : Except Failure PolicyStamp := do
  let stamp ← require stamp .type
  stamp.check

def begin (stamp : Option PolicyStamp) (probe : Option Probe) : Step Unit := do
  let probe ← Effects.lift (checkProbe probe)
  let stamp ← Effects.lift (checkStamp stamp)
  Effects.modify fun barrier => { barrier with stamp := some stamp, probe := some probe }
  Effects.modify fun barrier => { barrier with acknowledged := ∅ }

def acknowledge (worker : String) (stamp : Option PolicyStamp) (probe : Option Probe) : Step Unit := do
  let barrier ← Effects.read
  Effects.lift (refuse (stamp = none ∨ barrier.stamp = none ∨ worker ∉ barrier.workers ∨ stamp ≠ barrier.stamp ∨
    probe ≠ barrier.probe) (.value "Stale/unknown worker or inference mismatch"))
  Effects.modify fun barrier => { barrier with acknowledged := insert worker barrier.acknowledged }

def require (stamp : Option PolicyStamp) : Step Unit := do
  let barrier ← Effects.read
  Effects.lift (refuse (stamp = none ∨ barrier.stamp = none ∨ stamp ≠ barrier.stamp ∨
    barrier.acknowledged ≠ barrier.workers.toFinset)
    (.value "Policy synchronization and fixed-input inference are incomplete"))

def stateDict : Step Saved := do
  let barrier ← Effects.read
  pure ⟨barrier.workers, barrier.stamp, barrier.probe.bind fun probe => if probe = [] then none else some probe⟩

def loadStateDict (state : Saved) : Step Unit := do
  let barrier ← Effects.read
  Effects.lift (refuse (state.workers ≠ barrier.workers ∨ state.stamp = none ∨ state.probe = none)
    (.value "Checkpoint inference roster/identity missing or changed"))
  let stamp ← Effects.lift (checkStamp state.stamp)
  begin (some stamp) state.probe

end PolicyBarrier

/-! ### Runs -/

inductive Operation where
  | begin (stamp : Option PolicyStamp) (probe : Option Probe)
  | acknowledge (worker : String) (stamp : Option PolicyStamp) (probe : Option Probe)
  | require (stamp : Option PolicyStamp)
  | stateDict
  | load (state : Saved)

def Operation.perform : Operation → Step Unit
  | .begin stamp probe => PolicyBarrier.begin stamp probe
  | .acknowledge worker stamp probe => PolicyBarrier.acknowledge worker stamp probe
  | .require stamp => PolicyBarrier.require stamp
  | .stateDict => do
      let _ ← PolicyBarrier.stateDict
      pure ()
  | .load state => PolicyBarrier.loadStateDict state

/-- An operation of a run, and whether it returned. -/
structure Entry where
  operation : Operation
  accepted : Bool

def run (barrier : PolicyBarrier) : List Operation → PolicyBarrier × List Entry
  | [] => (barrier, [])
  | operation :: rest =>
      let outcome := operation.perform barrier
      let later := run outcome.2 rest
      (later.1, ⟨operation, outcome.1.toBool⟩ :: later.2)

/-! ### What a log says -/

/-- The policy that an entry opens. -/
def Entry.opens (entry : Entry) : Option (PolicyStamp × Probe) :=
  if entry.accepted then
    match entry.operation with
    | .begin (some stamp) (some probe) => some (stamp, probe)
    | .load ⟨_, some stamp, some probe⟩ => some (stamp, probe)
    | _ => none
  else none

def Entry.Confirms (entry : Entry) (worker : String) (stamp : PolicyStamp) (probe : Probe) : Prop :=
  entry = ⟨.acknowledge worker (some stamp) (some probe), true⟩

/-- The policy was opened last, and these entries came after it. -/
def LastOpened (log : List Entry) (stamp : PolicyStamp) (probe : Probe) (after : List Entry) : Prop :=
  ∃ before entry, log = before ++ entry :: after ∧ entry.opens = some (stamp, probe) ∧
    ∀ later ∈ after, later.opens = none

/-- What a barrier knows of the log of its operations. -/
structure Knows (barrier : PolicyBarrier) (log : List Entry) : Prop where
  closed : barrier.stamp = none → barrier.probe = none ∧ barrier.acknowledged = ∅ ∧ ∀ entry ∈ log, entry.opens = none
  opened : ∀ stamp, barrier.stamp = some stamp → ∃ probe after, barrier.probe = some probe ∧
    LastOpened log stamp probe after ∧ ∀ worker, worker ∈ barrier.acknowledged ↔
      worker ∈ barrier.workers ∧ ∃ entry ∈ after, entry.Confirms worker stamp probe

theorem checkStamp_eq_ok {stamp : Option PolicyStamp} {result : PolicyStamp} :
    PolicyBarrier.checkStamp stamp = .ok result → stamp = some result := by
  intro accepted
  simp only [PolicyBarrier.checkStamp, PolicyStamp.check, bind_eq_ok, require_eq_ok, refuse_eq_ok] at accepted
  obtain ⟨value, given, _, _, _, _, same⟩ := accepted
  rw [given, Except.ok.inj same]

theorem checkProbe_eq_ok {probe : Option Probe} {result : Probe} :
    PolicyBarrier.checkProbe probe = .ok result → probe = some result := by
  intro accepted
  simp only [PolicyBarrier.checkProbe, bind_eq_ok, require_eq_ok, refuse_eq_ok] at accepted
  obtain ⟨value, given, _, _, same⟩ := accepted
  rw [given, Except.ok.inj same]

/-! ### What one operation does -/

/-- The barrier after a policy was opened. -/
def PolicyBarrier.opened (barrier : PolicyBarrier) (stamp : PolicyStamp) (probe : Probe) : PolicyBarrier :=
  { barrier with stamp := some stamp, probe := some probe, acknowledged := ∅ }

theorem ends_begin (stamp : Option PolicyStamp) (probe : Option Probe) (barrier : PolicyBarrier) :
    (PolicyBarrier.begin stamp probe).Ends barrier
      (fun _ after => ∃ opened shown, stamp = some opened ∧ probe = some shown ∧ after = barrier.opened opened shown)
      fun _ after => after = barrier := by
  simp only [PolicyBarrier.begin, Effects.ends_bind, Effects.ends_lift, Effects.ends_modify]
  refine ⟨fun shown given => ⟨fun opened stamped => ?_, fun _ _ => trivial⟩, fun _ _ => trivial⟩
  exact ⟨opened, shown, checkStamp_eq_ok stamped, checkProbe_eq_ok given, rfl⟩

theorem ends_acknowledge (worker : String) (stamp : Option PolicyStamp) (probe : Option Probe)
    (barrier : PolicyBarrier) :
    (PolicyBarrier.acknowledge worker stamp probe).Ends barrier
      (fun _ after => stamp ≠ none ∧ worker ∈ barrier.workers ∧ stamp = barrier.stamp ∧ probe = barrier.probe ∧
        after = { barrier with acknowledged := insert worker barrier.acknowledged })
      fun _ after => after = barrier := by
  simp only [PolicyBarrier.acknowledge, Effects.ends_bind, Effects.ends_read, Effects.ends_lift,
    Effects.ends_modify, refuse_eq_ok, not_or, not_not]
  refine ⟨fun _ holds => ?_, fun _ _ => trivial⟩
  obtain ⟨given, _, known, same, shown⟩ := holds
  exact ⟨given, known, same, shown, trivial⟩

theorem ends_require (stamp : Option PolicyStamp) (barrier : PolicyBarrier) :
    (PolicyBarrier.require stamp).Ends barrier
      (fun _ after => stamp ≠ none ∧ stamp = barrier.stamp ∧
        barrier.acknowledged = barrier.workers.toFinset ∧ after = barrier)
      fun _ after => after = barrier ∧ (stamp = none ∨ stamp ≠ barrier.stamp ∨
        barrier.acknowledged ≠ barrier.workers.toFinset) := by
  simp only [PolicyBarrier.require, Effects.ends_bind, Effects.ends_read, Effects.ends_lift, refuse_eq_ok, not_or,
    not_not]
  refine ⟨fun _ holds => ⟨holds.1, holds.2.2.1, holds.2.2.2, trivial⟩, fun failure refused => ⟨trivial, ?_⟩⟩
  by_contra holds
  simp only [not_or, not_not] at holds
  have accepted : ∀ result : Unit, refuse (stamp = none ∨ barrier.stamp = none ∨ stamp ≠ barrier.stamp ∨
      barrier.acknowledged ≠ barrier.workers.toFinset)
      (Failure.value "Policy synchronization and fixed-input inference are incomplete") = .ok result := by
    intro result
    rw [refuse_eq_ok]
    rintro (none | closed | other | missing)
    · exact holds.1 none
    · exact holds.1 (holds.2.1.trans closed)
    · exact other holds.2.1
    · exact missing holds.2.2
  rw [accepted ()] at refused
  cases refused

theorem ends_load (state : Saved) (barrier : PolicyBarrier) :
    (PolicyBarrier.loadStateDict state).Ends barrier
      (fun _ after => ∃ opened shown, state.stamp = some opened ∧ state.probe = some shown ∧
        after = barrier.opened opened shown)
      fun _ after => after = barrier := by
  simp only [PolicyBarrier.loadStateDict, Effects.ends_bind, Effects.ends_read, Effects.ends_lift]
  refine ⟨fun _ _ => ⟨fun stamp stamped => ?_, fun _ _ => trivial⟩, fun _ _ => trivial⟩
  refine (ends_begin (some stamp) state.probe barrier).mono ?_ fun _ _ same => same
  rintro _ after ⟨opened, shown, same, given, done⟩
  exact ⟨opened, shown, (checkStamp_eq_ok stamped).trans same, given, done⟩

/-- An operation that raises leaves the barrier as it was. -/
theorem perform_error {operation : Operation} {barrier after : PolicyBarrier} {failure : Failure}
    (raised : operation.perform barrier = (.error failure, after)) : after = barrier := by
  cases operation with
  | begin stamp probe =>
      change PolicyBarrier.begin stamp probe barrier = _ at raised
      have kept := Effects.ends_of_error (ends_begin stamp probe barrier) raised
      exact kept
  | acknowledge worker stamp probe =>
      change PolicyBarrier.acknowledge worker stamp probe barrier = _ at raised
      have kept := Effects.ends_of_error (ends_acknowledge worker stamp probe barrier) raised
      exact kept
  | require stamp =>
      change PolicyBarrier.require stamp barrier = _ at raised
      exact (Effects.ends_of_error (ends_require stamp barrier) raised).1
  | stateDict => cases raised
  | load state =>
      change PolicyBarrier.loadStateDict state barrier = _ at raised
      have kept := Effects.ends_of_error (ends_load state barrier) raised
      exact kept

/-! ### What a run knows -/

theorem LastOpened.concat {log after : List Entry} {stamp : PolicyStamp} {probe : Probe}
    (last : LastOpened log stamp probe after) {entry : Entry} (quiet : entry.opens = none) :
    LastOpened (log ++ [entry]) stamp probe (after ++ [entry]) := by
  obtain ⟨before, opening, rfl, opens, silent⟩ := last
  refine ⟨before, opening, by simp, opens, fun later member => ?_⟩
  rcases List.mem_append.mp member with inside | same
  · exact silent later inside
  · obtain rfl := List.mem_singleton.mp same
    exact quiet

theorem LastOpened.unique {log after later : List Entry} {stamp opened : PolicyStamp} {probe shown : Probe}
    (last : LastOpened log stamp probe after) (latest : LastOpened log opened shown later) :
    (stamp, probe) = (opened, shown) ∧ after = later := by
  obtain ⟨before, entry, rfl, opens, silent⟩ := last
  obtain ⟨front, other, same, other_opens, other_silent⟩ := latest
  rcases List.append_eq_append_iff.mp same with ⟨gap, rfl, split⟩ | ⟨gap, rfl, split⟩
  · cases gap with
    | nil =>
        obtain ⟨rfl, rfl⟩ := List.cons.inj split
        exact ⟨Option.some.inj (opens.symm.trans other_opens), rfl⟩
    | cons first rest =>
        obtain ⟨rfl, rfl⟩ := List.cons.inj split
        have quiet := silent other (by simp)
        rw [other_opens] at quiet
        cases quiet
  · cases gap with
    | nil =>
        obtain ⟨rfl, rfl⟩ := List.cons.inj split
        exact ⟨Option.some.inj (opens.symm.trans other_opens), rfl⟩
    | cons first rest =>
        obtain ⟨rfl, rfl⟩ := List.cons.inj split
        have quiet := other_silent entry (by simp)
        rw [opens] at quiet
        cases quiet

/-- An entry that opens nothing and confirms nothing. -/
theorem Knows.quiet {barrier : PolicyBarrier} {log : List Entry} (knows : Knows barrier log) {entry : Entry}
    (opens : entry.opens = none) (confirms : ∀ worker stamp probe, ¬ entry.Confirms worker stamp probe) :
    Knows barrier (log ++ [entry]) := by
  refine ⟨fun closed => ?_, fun stamp open_stamp => ?_⟩
  · obtain ⟨none, empty, silent⟩ := knows.closed closed
    refine ⟨none, empty, fun other member => ?_⟩
    rcases List.mem_append.mp member with inside | same
    · exact silent other inside
    · obtain rfl := List.mem_singleton.mp same
      exact opens
  · obtain ⟨probe, after, shown, last, acknowledged⟩ := knows.opened stamp open_stamp
    refine ⟨probe, after ++ [entry], shown, last.concat opens, fun worker => ?_⟩
    rw [acknowledged worker]
    refine and_congr_right fun _ => ⟨fun ⟨found, member, confirmed⟩ =>
      ⟨found, List.mem_append_left _ member, confirmed⟩, ?_⟩
    rintro ⟨found, member, confirmed⟩
    rcases List.mem_append.mp member with inside | same
    · exact ⟨found, inside, confirmed⟩
    · obtain rfl := List.mem_singleton.mp same
      exact absurd confirmed (confirms worker stamp probe)

theorem Knows.opens {barrier : PolicyBarrier} {log : List Entry} {entry : Entry} {stamp : PolicyStamp} {probe : Probe}
    (opens : entry.opens = some (stamp, probe)) : Knows (barrier.opened stamp probe) (log ++ [entry]) := by
  refine ⟨fun closed => (Option.some_ne_none _ closed).elim, fun other same => ?_⟩
  obtain rfl := Option.some.inj same
  refine ⟨probe, [], rfl, ⟨log, entry, rfl, opens, fun _ member => absurd member List.not_mem_nil⟩, fun worker => ?_⟩
  simp [PolicyBarrier.opened]

theorem Knows.acknowledged {barrier : PolicyBarrier} {log : List Entry} (knows : Knows barrier log) {worker : String}
    {stamp : Option PolicyStamp} {probe : Option Probe} (given : stamp ≠ none) (known : worker ∈ barrier.workers)
    (same_stamp : stamp = barrier.stamp) (same_probe : probe = barrier.probe) :
    Knows { barrier with acknowledged := insert worker barrier.acknowledged }
      (log ++ [⟨.acknowledge worker stamp probe, true⟩]) := by
  refine ⟨fun closed => absurd (same_stamp.trans closed) given, fun open_stamp open_same => ?_⟩
  obtain ⟨shown, after, probe_same, last, acknowledged⟩ := knows.opened open_stamp open_same
  refine ⟨shown, after ++ [⟨.acknowledge worker stamp probe, true⟩], probe_same, last.concat rfl, fun other => ?_⟩
  rw [Finset.mem_insert, acknowledged other]
  constructor
  · rintro (rfl | ⟨member, entry, inside, confirmed⟩)
    · refine ⟨known, _, List.mem_append_right _ (List.mem_singleton_self _), ?_⟩
      rw [Entry.Confirms, same_stamp, same_probe, open_same, probe_same]
    · exact ⟨member, entry, List.mem_append_left _ inside, confirmed⟩
  · rintro ⟨member, entry, inside, confirmed⟩
    rcases List.mem_append.mp inside with earlier | last
    · exact .inr ⟨member, entry, earlier, confirmed⟩
    · obtain rfl := List.mem_singleton.mp last
      injection confirmed with operation _
      injection operation with named _ _
      exact .inl named.symm

/-- One more operation. -/
theorem Knows.perform {barrier : PolicyBarrier} {log : List Entry} (knows : Knows barrier log)
    (operation : Operation) :
    Knows (operation.perform barrier).2 (log ++ [⟨operation, (operation.perform barrier).1.toBool⟩]) ∧
      (operation.perform barrier).2.workers = barrier.workers := by
  cases outcome : operation.perform barrier with
  | mk result after =>
      cases result with
      | error failure =>
          obtain rfl := perform_error outcome
          refine ⟨knows.quiet (if_neg Bool.false_ne_true) ?_, rfl⟩
          rintro worker stamp probe confirmed
          injection confirmed with _ accepted
          cases accepted
      | ok value =>
          cases operation with
          | begin stamp probe =>
              change PolicyBarrier.begin stamp probe barrier = _ at outcome
              obtain ⟨opened, shown, rfl, rfl, rfl⟩ := Effects.ends_of_ok (ends_begin stamp probe barrier) outcome
              exact ⟨Knows.opens rfl, rfl⟩
          | acknowledge worker stamp probe =>
              change PolicyBarrier.acknowledge worker stamp probe barrier = _ at outcome
              obtain ⟨given, known, same, shown, rfl⟩ :=
                Effects.ends_of_ok (ends_acknowledge worker stamp probe barrier) outcome
              exact ⟨knows.acknowledged given known same shown, rfl⟩
          | require stamp =>
              change PolicyBarrier.require stamp barrier = _ at outcome
              obtain ⟨_, _, _, rfl⟩ := Effects.ends_of_ok (ends_require stamp barrier) outcome
              refine ⟨knows.quiet rfl ?_, rfl⟩
              rintro worker stamp probe ⟨⟩
          | stateDict =>
              obtain rfl : barrier = after := (Prod.mk.inj outcome).2
              refine ⟨knows.quiet rfl ?_, rfl⟩
              rintro worker stamp probe ⟨⟩
          | load state =>
              change PolicyBarrier.loadStateDict state barrier = _ at outcome
              obtain ⟨opened, shown, stamped, given, rfl⟩ := Effects.ends_of_ok (ends_load state barrier) outcome
              obtain ⟨workers, stamp, probe⟩ := state
              obtain rfl : stamp = some opened := stamped
              obtain rfl : probe = some shown := given
              exact ⟨Knows.opens rfl, rfl⟩

theorem Knows.run {barrier : PolicyBarrier} {log : List Entry} (knows : Knows barrier log)
    (operations : List Operation) :
    Knows (run barrier operations).1 (log ++ (run barrier operations).2) ∧
      (run barrier operations).1.workers = barrier.workers := by
  induction operations generalizing barrier log with
  | nil => exact ⟨by simpa [Barrier.run] using knows, rfl⟩
  | cons operation rest ih =>
      obtain ⟨next, same⟩ := knows.perform operation
      obtain ⟨final, kept⟩ := ih next
      refine ⟨?_, kept.trans same⟩
      rw [List.append_assoc] at final
      exact final

theorem ok_of_toBool {outcome : Except Failure Unit × PolicyBarrier} (returned : outcome.1.toBool = true) :
    ∃ value after, outcome = (.ok value, after) := by
  obtain ⟨value, same⟩ := exists_ok returned
  exact ⟨value, outcome.2, Prod.ext same rfl⟩

/-- The policy opened last is the one in the barrier. -/
theorem Knows.of_lastOpened {barrier : PolicyBarrier} {log after : List Entry} (knows : Knows barrier log)
    {stamp : PolicyStamp} {probe : Probe} (last : LastOpened log stamp probe after) :
    barrier.stamp = some stamp ∧ ∀ worker, worker ∈ barrier.acknowledged ↔
      worker ∈ barrier.workers ∧ ∃ entry ∈ after, entry.Confirms worker stamp probe := by
  cases current : barrier.stamp with
  | none =>
      obtain ⟨before, entry, rfl, opens, _⟩ := last
      have silent := (knows.closed current).2.2 entry (by simp)
      rw [opens] at silent
      cases silent
  | some opened =>
      obtain ⟨shown, later, _, latest, acknowledged⟩ := knows.opened opened current
      obtain ⟨same, rfl⟩ := last.unique latest
      obtain ⟨rfl, rfl⟩ := Prod.mk.inj same
      exact ⟨rfl, acknowledged⟩

theorem knows_create {workers : List String} {barrier : PolicyBarrier} (created : create workers = .ok barrier) :
    Knows barrier [] ∧ barrier.workers = workers := by
  simp only [create, bind_eq_ok, refuse_eq_ok] at created
  obtain ⟨_, _, same⟩ := created
  obtain rfl := Except.ok.inj same
  refine ⟨⟨fun _ => ⟨rfl, rfl, fun _ member => absurd member List.not_mem_nil⟩, ?_⟩, rfl⟩
  rintro stamp ⟨⟩

/-- In every run, a stamp is required with success exactly when it was opened last and every worker has
acknowledged it and its probe since then; and no operation that raises changes the barrier. -/
theorem barrier_sound (workers : List String) (barrier : PolicyBarrier) (created : create workers = .ok barrier)
    (operations : List Operation) :
    (∀ stamp : Option PolicyStamp,
      (PolicyBarrier.require stamp (run barrier operations).1).1.toBool = true ↔
        ∃ opened probe after, stamp = some opened ∧ LastOpened (run barrier operations).2 opened probe after ∧
          ∀ worker ∈ workers, ∃ entry ∈ after, entry.Confirms worker opened probe) ∧
      (∀ worker stamp probe,
        (PolicyBarrier.acknowledge worker stamp probe (run barrier operations).1).1.toBool = true →
          worker ∈ workers ∧ ∃ opened shown after, stamp = some opened ∧ probe = some shown ∧
            LastOpened (run barrier operations).2 opened shown after) ∧
      ∀ operation failure after,
        Operation.perform operation (run barrier operations).1 = (.error failure, after) →
          after = (run barrier operations).1 := by
  obtain ⟨knows, named⟩ := knows_create created
  obtain ⟨final, kept⟩ := knows.run operations
  rw [List.nil_append] at final
  have workers_same := kept.trans named
  refine ⟨fun stamp => ⟨fun returned => ?_, ?_⟩, fun worker stamp probe returned => ?_,
    fun operation failure after raised => perform_error raised⟩
  · obtain ⟨value, after, outcome⟩ := ok_of_toBool returned
    obtain ⟨given, same, all, _⟩ := Effects.ends_of_ok (ends_require stamp _) outcome
    obtain ⟨opened, rfl⟩ := Option.ne_none_iff_exists'.mp given
    obtain ⟨probe, later, _, last, acknowledged⟩ := final.opened opened same.symm
    refine ⟨opened, probe, later, rfl, last, fun worker member => ?_⟩
    have inside : worker ∈ (run barrier operations).1.acknowledged := by
      rw [all, List.mem_toFinset, workers_same]
      exact member
    exact ((acknowledged worker).mp inside).2
  · rintro ⟨opened, probe, after, rfl, last, all⟩
    cases outcome : PolicyBarrier.require (some opened) (run barrier operations).1 with
    | mk result state =>
        cases result with
        | ok value => rfl
        | error failure =>
            have refused := (Effects.ends_of_error (ends_require (some opened) _) outcome).2
            obtain ⟨same, acknowledged⟩ := final.of_lastOpened last
            rcases refused with none | other | missing
            · cases none
            · exact absurd same.symm other
            · refine absurd (Finset.ext fun worker => ?_) missing
              rw [acknowledged worker, List.mem_toFinset, workers_same]
              exact ⟨fun both => both.1, fun member => ⟨member, all worker member⟩⟩
  · obtain ⟨value, after, outcome⟩ := ok_of_toBool returned
    obtain ⟨given, known, same, shown, _⟩ := Effects.ends_of_ok (ends_acknowledge worker stamp probe _) outcome
    obtain ⟨opened, rfl⟩ := Option.ne_none_iff_exists'.mp given
    obtain ⟨current, later, probed, last, _⟩ := final.opened opened same.symm
    exact ⟨workers_same ▸ known, opened, current, later, rfl, shown.trans probed, last⟩

namespace Sample

def stamp : PolicyStamp :=
  let digest := String.ofList (List.replicate 64 'a')
  ⟨"step-1", digest, digest, digest⟩

def workers : List String := ["http://one", "http://two"]

def barrier : PolicyBarrier := ⟨workers, none, none, ∅⟩

def operations : List Operation :=
  [.begin (some stamp) (some [0]), .acknowledge "http://one" (some stamp) (some [0]),
    .begin (some stamp) (some [7]), .acknowledge "http://one" (some stamp) (some [0]),
    .acknowledge "http://one" (some stamp) (some [7]), .acknowledge "http://two" (some stamp) (some [7])]

end Sample

theorem barrier_sound_sample :
    ∃ opened probe after, some Sample.stamp = some opened ∧
      LastOpened (run Sample.barrier Sample.operations).2 opened probe after ∧
      ∀ worker ∈ Sample.workers, ∃ entry ∈ after, entry.Confirms worker opened probe :=
  ((barrier_sound Sample.workers Sample.barrier (by rfl) Sample.operations).1 (some Sample.stamp)).mp
    (by decide +kernel)

end Barrier

end FeatureRl
