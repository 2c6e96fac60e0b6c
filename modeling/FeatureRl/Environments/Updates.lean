import FeatureRl.Contracts.Samples
import FeatureRl.Environments.Workspaces
import Mathlib.Logic.Relation

/-!
Generations only grow and the lock is exclusive, so a record of the generation that a session was
staged from is the very record that it was staged from.
-/

namespace FeatureRl

namespace Workspaces

section

variable {C W O F : Type} {captures : Captures F} {state next : State C W O F}
  {write : Option (Write C W O F)}

/-! ### What a controller knows -/

/-- A record that was read at some time. -/
inductive Read (w : W) (value : Workspace F) : Local W O F → Prop
  | staged {session : Session W O F} (bound : session.target = some (w, value)) : Read w value (.staged session)
  | entered {session : Session W O F} (bound : session.target = some (w, value)) : Read w value (.entered session)
  | registered {session : Session W O F} (bound : session.target = some (w, value)) :
      Read w value (.registered session)

/-- A live record that is the present one. -/
inductive Present (w : W) (value : Workspace F) : Local W O F → Prop
  | admitted {session : Session W O F} (bound : session.target = some (w, value)) :
      Present w value (.admitted session)
  | loaded {kind : Terminal} : Present w value (.loaded kind w value)

/-- Every owned operation was seen to be removed. -/
inductive Cleared : Local W O F → Prop
  | verified {kind : Terminal} {w : W} : Cleared (.verified kind w)
  | loaded {kind : Terminal} {w : W} {value : Workspace F} : Cleared (.loaded kind w value)

theorem Present.locked {w : W} {value : Workspace F} {place : Local W O F} (present : Present w value place) :
    place.locked = true := by
  cases present <;> rfl

theorem Cleared.locked {place : Local W O F} (cleared : Cleared place) : place.locked = true := by
  cases cleared <;> rfl

/-- The record has not changed since, or has a later generation. -/
def Since (records : W → Option (Workspace F)) (w : W) (value : Workspace F) : Prop :=
  ∃ record, records w = some record ∧ (record = value ∨ value.generation < record.generation)

def AllRemoved (operations : O → Option Phase) : Prop :=
  ∀ operation phase, operations operation = some phase → phase = .removed

/-- What a controller knows is true of the directory. -/
structure Knows (records : W → Option (Workspace F)) (operations : O → Option Phase) (holder : Option C)
    (c : C) (place : Local W O F) : Prop where
  holds : place.locked = true → holder = some c
  read : ∀ w value, Read w value place → Since records w value
  present : ∀ w value, Present w value place → records w = some value ∧ value.closed = false
  cleared : Cleared place → AllRemoved operations

def Consistent (state : State C W O F) : Prop :=
  ∀ c, Knows state.records state.operations state.holder c (state.locals c)

/-- Records are replaced by records of a later generation. -/
def Grows (old new : W → Option (Workspace F)) : Prop :=
  ∀ w record, old w = some record → ∃ later, new w = some later ∧
    (later = record ∨ record.generation < later.generation)

theorem Grows.refl (records : W → Option (Workspace F)) : Grows records records :=
  fun _ record found => ⟨record, found, .inl rfl⟩

theorem Since.grows {old new : W → Option (Workspace F)} {w : W} {value : Workspace F}
    (since : Since old w value) (grows : Grows old new) : Since new w value := by
  obtain ⟨record, found, same | later⟩ := since
  · obtain ⟨further, present, rest⟩ := grows w record found
    subst same
    exact ⟨further, present, rest⟩
  · obtain ⟨further, present, rfl | after⟩ := grows w record found
    · exact ⟨_, present, .inr later⟩
    · exact ⟨further, present, .inr (later.trans after)⟩

theorem grows_write [DecidableEq W] {workspace : W} {value : Workspace F}
    (after : ∀ record, state.records workspace = some record → record.generation < value.generation) :
    Grows state.records (state.write workspace value).records := by
  intro w record found
  by_cases same : w = workspace
  · subst same
    exact ⟨value, Function.update_self .., .inr (after record found)⟩
  · exact ⟨record, (Function.update_of_ne same ..).trans found, .inl rfl⟩

/-- One controller moves: what it knows must be shown, and the others must not have the lock when
anything but their own place changes. -/
theorem Consistent.update [DecidableEq C] {records : W → Option (Workspace F)} {operations : O → Option Phase}
    {holder : Option C} {c : C} {place : Local W O F} (consistent : Consistent state)
    (grows : Grows state.records records)
    (alone : ∀ other, other ≠ c → (state.locals other).locked = true →
      records = state.records ∧ operations = state.operations ∧ holder = state.holder)
    (own : Knows records operations holder c place) :
    Consistent ⟨holder, records, operations, Function.update state.locals c place⟩ := by
  intro other
  by_cases same : other = c
  · subst same
    simpa using own
  · have old := consistent other
    have place : Function.update state.locals c place other = state.locals other := Function.update_of_ne same ..
    simp only [place]
    by_cases locked : (state.locals other).locked = true
    · obtain ⟨rfl, rfl, rfl⟩ := alone other same locked
      exact old
    · exact ⟨fun held => absurd held locked, fun w value read => (old.read w value read).grows grows,
        fun w value present => absurd present.locked locked, fun cleared => absurd cleared.locked locked⟩

theorem Consistent.only (consistent : Consistent state) {c other : C}
    (held : (state.locals c).locked = true) (locked : (state.locals other).locked = true) : other = c := by
  have one := (consistent c).holds held
  have two := (consistent other).holds locked
  exact Option.some.inj (two.symm.trans one)

/-- A controller that has read nothing and holds nothing knows nothing. -/
theorem knows_nothing {records : W → Option (Workspace F)} {operations : O → Option Phase} {holder : Option C}
    {c : C} {place : Local W O F} (holds : place.locked = true → holder = some c)
    (unread : ∀ w value, ¬ Read w value place) (absent : ∀ w value, ¬ Present w value place)
    (uncleared : ¬ Cleared place) : Knows records operations holder c place :=
  ⟨holds, fun w value read => absurd read (unread w value), fun w value present =>
    absurd present (absent w value), fun cleared => absurd cleared uncleared⟩

theorem same_of_admits {records : W → Option (Workspace F)} {w : W} {value record : Workspace F}
    (since : Since records w value) (found : records w = some record) (admitted : admits value record = true) :
    record = value ∧ value.closed = false := by
  obtain ⟨present, listed, cases⟩ := since
  obtain rfl := Option.some.inj (found.symm.trans listed)
  simp only [admits, Bool.and_eq_true, Bool.not_eq_true', decide_eq_true_eq] at admitted
  obtain ⟨⟨live, generation⟩, _⟩ := admitted
  rcases cases with rfl | later
  · exact ⟨rfl, live⟩
  · exact absurd generation later.ne'

variable [DecidableEq C]

/-- Who has the lock may change anything. -/
theorem Consistent.inside {records : W → Option (Workspace F)} {operations : O → Option Phase}
    {holder : Option C} {c : C} {place : Local W O F} (consistent : Consistent state)
    (held : (state.locals c).locked = true) (grows : Grows state.records records)
    (own : Knows records operations holder c place) :
    Consistent ⟨holder, records, operations, Function.update state.locals c place⟩ :=
  consistent.update grows (fun _ different locked => absurd (consistent.only held locked) different) own

/-- A free lock may be taken. -/
theorem Consistent.take {c : C} {place : Local W O F} (consistent : Consistent state) (free : state.holder = none)
    (own : Knows state.records state.operations (some c) c place) :
    Consistent ⟨some c, state.records, state.operations, Function.update state.locals c place⟩ := by
  refine consistent.update (.refl _) (fun other _ locked => ?_) own
  have held := (consistent other).holds locked
  rw [free] at held
  cases held

variable [DecidableEq W] [DecidableEq O]

theorem Step.consistent (step : Step captures state write next) (consistent : Consistent state) :
    Consistent next := by
  cases step with
  | @stage c session idle read =>
      refine consistent.update (.refl _) (fun _ _ _ => ⟨rfl, rfl, rfl⟩) ⟨fun held => (by cases held), ?_,
        fun w value present => (by cases present), fun cleared => (by cases cleared)⟩
      rintro w value ⟨bound⟩
      exact ⟨value, (read w value bound).1, .inl rfl⟩
  | @enter c session staged free =>
      have own := consistent c
      rw [staged] at own
      refine consistent.take free ⟨fun _ => rfl, ?_, fun w value present => (by cases present),
        fun cleared => (by cases cleared)⟩
      rintro w value (_ | bound | _)
      exact own.read w value (.staged bound)
  | @abandon c session staged =>
      exact consistent.update (.refl _) (fun _ _ _ => ⟨rfl, rfl, rfl⟩)
        (knows_nothing (fun held => by cases held) (fun _ _ read => by cases read)
          (fun _ _ present => by cases present) fun cleared => by cases cleared)
  | @register c session entered =>
      have own := consistent c
      rw [entered] at own
      refine consistent.inside (by rw [entered]; rfl) (.refl _) ⟨fun _ => own.holds rfl, ?_,
        fun w value present => (by cases present), fun cleared => (by cases cleared)⟩
      rintro w value (_ | _ | bound)
      exact own.read w value (.entered bound)
  | @allow c session registered same =>
      have own := consistent c
      rw [registered] at own
      refine consistent.inside (by rw [registered]; rfl) (.refl _) ⟨fun _ => own.holds rfl,
        fun w value read => (by cases read), ?_, fun cleared => (by cases cleared)⟩
      rintro w value ⟨bound⟩
      obtain ⟨record, found, admitted⟩ := same w value bound
      obtain ⟨rfl, live⟩ := same_of_admits (own.read w value (.registered bound)) found admitted
      exact ⟨found, live⟩
  | @advance c session phase admitted started =>
      have own := consistent c
      rw [admitted] at own
      refine consistent.inside (by rw [admitted]; rfl) (.refl _) ⟨fun _ => own.holds rfl,
        fun w value read => (by cases read), ?_, fun cleared => (by cases cleared)⟩
      rintro w value ⟨bound⟩
      exact own.present w value (.admitted bound)
  | @save c session w value proposed admitted bound asked captured version changed =>
      have own := consistent c
      rw [admitted] at own
      refine consistent.inside (by rw [admitted]; rfl) (grows_write fun record found => ?_)
        (knows_nothing (fun _ => own.holds rfl) (fun _ _ read => by cases read)
          (fun _ _ present => by cases present) fun cleared => by cases cleared)
      obtain rfl := Option.some.inj (found.symm.trans (own.present w value (.admitted bound)).1)
      exact Nat.lt_succ_self _
  | @finish c session inside =>
      have held : (state.locals c).locked = true := by
        rcases inside with same | same | same <;> rw [same] <;> rfl
      exact consistent.inside held (.refl _) (knows_nothing (fun _ => (consistent c).holds held)
        (fun _ _ read => by cases read) (fun _ _ present => by cases present) fun cleared => by cases cleared)
  | @cleanup c session phase cleaning ended =>
      have held : (state.locals c).locked = true := by rw [cleaning]; rfl
      exact consistent.inside held (.refl _) (knows_nothing (fun _ => (consistent c).holds held)
        (fun _ _ read => by cases read) (fun _ _ present => by cases present) fun cleared => by cases cleared)
  | @release c session cleaning =>
      exact consistent.inside (by rw [cleaning]; rfl) (.refl _) (knows_nothing (fun held => by cases held)
        (fun _ _ read => by cases read) (fun _ _ present => by cases present) fun cleared => by cases cleared)
  | @recover c idle free =>
      exact consistent.take free (knows_nothing (fun _ => rfl) (fun _ _ read => by cases read)
        (fun _ _ present => by cases present) fun cleared => by cases cleared)
  | @recoverOne c operation phase later recovering owned pending ended =>
      have held : (state.locals c).locked = true := by rw [recovering]; rfl
      exact consistent.inside held (.refl _) (knows_nothing (fun _ => (consistent c).holds held)
        (fun _ _ read => by cases read) (fun _ _ present => by cases present) fun cleared => by cases cleared)
  | @openWorkspace c w source frozen idle free =>
      exact consistent.take free (knows_nothing (fun _ => rfl) (fun _ _ read => by cases read)
        (fun _ _ present => by cases present) fun cleared => by cases cleared)
  | @opened c w value opening fresh =>
      have held : (state.locals c).locked = true := by rw [opening]; rfl
      refine consistent.inside held (grows_write fun record found => ?_)
        (knows_nothing (fun _ => (consistent c).holds held) (fun _ _ read => by cases read)
          (fun _ _ present => by cases present) fun cleared => by cases cleared)
      rw [fresh] at found
      cases found
  | @lock c kind w idle free =>
      exact consistent.take free (knows_nothing (fun _ => rfl) (fun _ _ read => by cases read)
        (fun _ _ present => by cases present) fun cleared => by cases cleared)
  | @verify c kind w terminal clean =>
      have held : (state.locals c).locked = true := by rw [terminal]; rfl
      exact consistent.inside held (.refl _) ⟨fun _ => (consistent c).holds held,
        fun w value read => (by cases read), fun w value present => (by cases present), fun _ => clean⟩
  | @load c kind w value verified read live =>
      have own := consistent c
      rw [verified] at own
      refine consistent.inside (by rw [verified]; rfl) (.refl _) ⟨fun _ => own.holds rfl,
        fun w value read => (by cases read), ?_, fun _ => own.cleared .verified⟩
      rintro _ _ ⟨⟩
      exact ⟨read, live⟩
  | @commit c kind w value loaded =>
      have own := consistent c
      rw [loaded] at own
      refine consistent.inside (by rw [loaded]; rfl) (grows_write fun record found => ?_)
        (knows_nothing (fun _ => own.holds rfl) (fun _ _ read => by cases read)
          (fun _ _ present => by cases present) fun cleared => by cases cleared)
      obtain rfl := Option.some.inj (found.symm.trans (own.present w value .loaded).1)
      cases kind <;> exact Nat.lt_succ_self _
  | @depart c inside =>
      have held : (state.locals c).locked = true := by
        rcases inside with same | same | ⟨_, _, same⟩ | ⟨_, _, same⟩ | ⟨_, _, same⟩ | ⟨_, _, _, same⟩ <;>
          rw [same] <;> rfl
      exact consistent.inside held (.refl _) (knows_nothing (fun held => by cases held)
        (fun _ _ read => by cases read) (fun _ _ present => by cases present) fun cleared => by cases cleared)
  | @crash c =>
      refine consistent.update (.refl _) (fun other different locked => ⟨rfl, rfl, ?_⟩)
        (knows_nothing (fun held => by cases held) (fun _ _ read => by cases read)
          (fun _ _ present => by cases present) fun cleared => by cases cleared)
      have held := (consistent other).holds locked
      rw [if_neg fun same => different (Option.some.inj (held.symm.trans same))]

theorem Reached.consistent (reached : Reached captures state) : Consistent state := by
  induction reached with
  | start =>
      exact fun c => knows_nothing (fun held => by cases held) (fun _ _ read => by cases read)
        (fun _ _ present => by cases present) fun cleared => by cases cleared
  | step _ step consistent => exact step.consistent consistent

/-! ### Writes -/

/-- What a write may do to the record that it follows. -/
def Follows (captures : Captures F) (state : State C W O F) (made : Write C W O F) : Prop :=
  match made.kind with
  | .terminal .reset =>
      AllRemoved state.operations ∧ made.after.saved = made.before.initial ∧ made.after.closed = made.before.closed
  | .terminal .close =>
      AllRemoved state.operations ∧ made.after.saved = made.before.saved ∧ made.after.closed = true
  | .save session =>
      state.locals made.controller = .admitted session ∧
        session.target = some (made.workspace, made.before) ∧
        captures made.before.frozen made.before.saved made.after.saved = true ∧
        made.after.saved.version = made.before.saved.version + 1 ∧ made.after.closed = made.before.closed

structure Sound (captures : Captures F) (state next : State C W O F) (made : Write C W O F) : Prop where
  locked : state.holder = some made.controller
  before : state.records made.workspace = some made.before
  after : next.records made.workspace = some made.after
  generation : made.after.generation = made.before.generation + 1
  kept : made.after.initial = made.before.initial ∧ made.after.frozen = made.before.frozen
  live : made.before.closed = false
  follows : Follows captures state made

theorem Step.sound {made : Write C W O F} (step : Step captures state (some made) next)
    (consistent : Consistent state) : Sound captures state next made := by
  cases step with
  | @save c session w value proposed admitted bound asked captured version changed =>
      have own := consistent c
      rw [admitted] at own
      obtain ⟨found, live⟩ := own.present w value (.admitted bound)
      exact ⟨own.holds rfl, found, Function.update_self .., rfl, ⟨rfl, rfl⟩, live,
        admitted, bound, captured, version, rfl⟩
  | @commit c kind w value loaded =>
      have own := consistent c
      rw [loaded] at own
      obtain ⟨found, live⟩ := own.present w value .loaded
      have removed := own.cleared .loaded
      cases kind with
      | reset => exact ⟨own.holds rfl, found, Function.update_self .., rfl, ⟨rfl, rfl⟩, live, removed, rfl, rfl⟩
      | close => exact ⟨own.holds rfl, found, Function.update_self .., rfl, ⟨rfl, rfl⟩, live, removed, rfl, rfl⟩

/-- A record changes by a write only. -/
theorem Step.unwritten (step : Step captures state write next) {w : W} {record : Workspace F}
    (found : state.records w = some record) :
    next.records w = some record ∨ ∃ made, write = some made ∧ made.workspace = w := by
  cases step with
  | @save c session workspace value proposed admitted bound asked captured version changed =>
      by_cases same : w = workspace
      · exact .inr ⟨_, rfl, same.symm⟩
      · exact .inl ((Function.update_of_ne same ..).trans found)
  | @commit c kind workspace value loaded =>
      by_cases same : w = workspace
      · exact .inr ⟨_, rfl, same.symm⟩
      · exact .inl ((Function.update_of_ne same ..).trans found)
  | @opened c workspace value opening fresh =>
      have different : w ≠ workspace := by
        rintro rfl
        rw [fresh] at found
        cases found
      exact .inl ((Function.update_of_ne different ..).trans found)
  | _ => exact .inl found

def Later (captures : Captures F) : State C W O F → State C W O F → Prop :=
  Relation.ReflTransGen fun state next => ∃ write, Step captures state write next

theorem Later.reached {later : State C W O F} (reached : Reached captures state)
    (run : Later captures state later) : Reached captures later := by
  induction run with
  | refl => exact reached
  | tail _ step ih =>
      obtain ⟨_, step⟩ := step
      exact .step ih step

/-- A closed workspace is not written again. -/
theorem Later.closed {later : State C W O F} (reached : Reached captures state)
    (run : Later captures state later) {w : W} {record : Workspace F} (found : state.records w = some record)
    (closed : record.closed = true) : later.records w = some record := by
  induction run with
  | refl => exact found
  | tail run step ih =>
      obtain ⟨write, step⟩ := step
      rcases step.unwritten ih with same | ⟨made, rfl, rfl⟩
      · exact same
      · have sound := step.sound (Later.reached reached run).consistent
        obtain rfl := Option.some.inj (ih.symm.trans sound.before)
        exact absurd (closed.symm.trans sound.live) (by decide)

/-- Every write of a run follows the record before it under the lock, records change in no other
way, and a closed one stays as it is. -/
theorem no_lost_update (captures : Captures F) (state : State C W O F) (reached : Reached captures state) :
    (∀ made next, Step captures state (some made) next → Sound captures state next made) ∧
    (∀ write next, Step captures state write next → ∀ w record, state.records w = some record →
      next.records w = some record ∨ ∃ made, write = some made ∧ made.workspace = w) ∧
    ∀ later, Later captures state later → ∀ w record, state.records w = some record →
      record.closed = true → later.records w = some record :=
  ⟨fun _ _ step => step.sound reached.consistent, fun _ _ step _ _ found => step.unwritten found,
    fun _ run _ _ found closed => Later.closed reached run found closed⟩

end

/-! ### One saved execution -/

namespace Sample

def digest (digit : Char) (hex : isLowerHex digit = true) : Digest :=
  ⟨String.ofList (List.replicate 64 digit), by simp [isDigest, hex]⟩

def source (digit : Char) (hex : isLowerHex digit = true) (version : Nat) : SavedSource where
  artifact := ⟨digest digit hex, ⟨"source-archive", isIdentifier_sourceArchive⟩, 1, .private, .bytes, firstSchema⟩
  rawSha256 := digest digit hex
  treeSha256 := digest digit hex
  version := version
  savedAt := "2026-01-01T00:00:00+00:00"

def opened : Workspace Unit := ⟨source 'a' rfl 0, source 'a' rfl 0, false, 0, ()⟩

def session : Session Unit Unit Unit := ⟨(), some ((), opened), true⟩

abbrev Directory := State Unit Unit Unit Unit

def everything : Captures Unit := fun _ _ _ => true

def start : Directory := ⟨none, fun _ => none, fun _ => none, fun _ => .idle⟩

def written : Directory :=
  { start.move () (.opening () opened) with holder := some () }.write () opened |>.move () .leaving

def staged : Directory := (written.leave ()).move () (.staged session)

def registered : Directory :=
  ({ staged.move () (.entered session) with holder := some () }.persist () .intent).move () (.registered session)

def admitted : Directory := registered.move () (.admitted session)

theorem reached : Reached everything admitted := by
  have opening : Reached everything ({ start.move () (.opening () opened) with holder := some () } : Directory) :=
    .step .start (.openWorkspace rfl rfl)
  have written : Reached everything written := .step opening (.opened rfl rfl)
  have staged : Reached everything staged := by
    refine .step (.step written (.depart (.inr (.inl rfl)))) (.stage session rfl ?_)
    rintro w value ⟨⟩
    exact ⟨rfl, rfl⟩
  have registered : Reached everything registered :=
    .step (.step staged (.enter rfl rfl)) (.register rfl)
  refine .step registered (.allow rfl ?_)
  rintro w value ⟨⟩
  exact ⟨opened, rfl, by decide⟩

theorem saves : Step everything admitted
    (some ⟨(), (), .save session, opened, opened.save (source 'b' rfl 1)⟩)
    ((admitted.write () (opened.save (source 'b' rfl 1))).move () (.cleaning session)) :=
  .save rfl rfl rfl rfl rfl (by decide)

end Sample

/-- A session that was let in saves its source. -/
theorem no_lost_update_sample : Sound Sample.everything Sample.admitted
    ((Sample.admitted.write () (Sample.opened.save (Sample.source 'b' rfl 1))).move ()
      (.cleaning Sample.session))
    ⟨(), (), .save Sample.session, Sample.opened, Sample.opened.save (Sample.source 'b' rfl 1)⟩ :=
  (no_lost_update Sample.everything Sample.admitted Sample.reached).1 _ _ Sample.saves

end Workspaces

end FeatureRl
