import FeatureRl.Training.Barrier

/-!
Startup and teardown of a native training session: the resources that each stage leaves, and what closing
the session does with them.
-/

namespace FeatureRl

open Checked

namespace NativeSession

open Barrier (PolicyBarrier PolicyStamp Probe)

/-- An exception of code outside the session; interrupts of the process are not an `Exception`. -/
structure Problem where
  isException : Bool
  text : String
deriving DecidableEq

inductive Release where
  | client
  | runner
  | ray
deriving DecidableEq

/-- What is raised, by where it comes from. -/
inductive Raised where
  | stage (problem : Problem)
  | barrier (failure : Barrier.Failure)
  | revocation (failure : Barrier.Failure)
  | release (step : Release) (problem : Problem)

/-- Whether the startup itself raised it, and not a close. -/
def Raised.original : Raised → Bool
  | .stage _ => true
  | .barrier _ => true
  | .revocation _ => false
  | .release _ _ => false

structure Session where
  barrier : Option PolicyBarrier
  runner : Bool
  client : Bool
  ray : Bool
  released : List Release

/-- The session before its startup. -/
def Session.fresh : Session := ⟨none, false, false, false, []⟩

abbrev Step := Effects Session Raised

/-! ### Close -/

/-- What the libraries raise while a session is closed. -/
structure Host where
  teardown : Option Problem
  closeRunner : Option Problem
  rayImports : Bool
  shutdown : Option Problem

def raising (failure : Option Raised) : Step Unit :=
  match failure with
  | none => pure ()
  | some failure => Effects.lift (.error failure)

def onBarrier (failed : Barrier.Failure → Raised) (operation : Barrier.Step Unit) : Step Unit := fun session =>
  match session.barrier with
  | none => (.ok (), session)
  | some barrier =>
      match operation barrier with
      | (.ok (), after) => (.ok (), { session with barrier := some after })
      | (.error failure, after) => (.error (failed failure), { session with barrier := some after })

def revoke : Step Unit := fun session =>
  match session.barrier with
  | none => (.ok (), session)
  | some barrier => onBarrier .revocation (PolicyBarrier.begin barrier.stamp barrier.probe) session

def perform (step : Release) (problem : Option Problem) : Step Unit := do
  Effects.modify fun session => { session with released := session.released ++ [step] }
  raising (problem.map (.release step))

/-- An `Exception` of the client is kept for the end. -/
def tearClient (host : Host) : Step (Option Raised) :=
  match host.teardown with
  | none => do
      perform .client none
      pure none
  | some problem =>
      if problem.isException then do
        perform .client none
        pure (some (.release .client problem))
      else do
        perform .client (some problem)
        pure none

def closeRunner (host : Host) : Step Unit := do
  perform .runner host.closeRunner
  Effects.modify fun session => { session with runner := false }

def shutdownRay (host : Host) : Step Unit := do
  perform .ray host.shutdown
  Effects.modify fun session => { session with ray := false }

def tear (host : Host) : Step (Option Raised) := do
  let session ← Effects.read
  if session.runner && session.client then tearClient host else pure none

/-- The runner and Ray, after the client. -/
def stop (host : Host) : Step Unit := do
  let session ← Effects.read
  if session.runner then closeRunner host else pure ()
  if host.rayImports && session.ray then shutdownRay host else pure ()

def close (host : Host) : Step Unit := do
  revoke
  let teardownError ← tear host
  stop host
  raising teardownError

/-! ### Startup -/

inductive Stage where
  | checks
  | initializeRay
  | runner
  | configuration
  | experiment
  | client
  | trainer
  | bridge
  | roster
  | backend
  | initialSync
  | limits
  | broadcast
deriving DecidableEq

/-- Which stages raise, and what the policy, the workers and their probes are. -/
structure Startup where
  raises : Stage → Option Problem
  rayBegun : Bool
  workers : List String
  stamp : PolicyStamp
  expected : Probe

section

variable (startup : Startup)

def attempt (stage : Stage) : Step Unit := raising ((startup.raises stage).map .stage)

def initializeRay : Step Unit :=
  match startup.raises .initializeRay with
  | none => Effects.modify fun session => { session with ray := true }
  | some problem => do
      Effects.modify fun session => { session with ray := startup.rayBegun }
      Effects.lift (.error (.stage problem))

/-- The stages before the session is closed when one fails. -/
def prepare : Step Unit := do
  attempt startup .checks
  initializeRay startup
  attempt startup .runner
  Effects.modify fun session => { session with runner := true }

def acknowledgeAll (stamp : PolicyStamp) (probe : Probe) : List String → Step Unit
  | [] => pure ()
  | worker :: rest => do
      onBarrier .barrier (PolicyBarrier.acknowledge worker (some stamp) (some probe))
      acknowledgeAll stamp probe rest

def synchronize : Step Unit := do
  attempt startup .limits
  onBarrier .barrier (PolicyBarrier.begin (some startup.stamp) (some [0]))
  attempt startup .broadcast
  onBarrier .barrier (PolicyBarrier.begin (some startup.stamp) (some startup.expected))
  acknowledgeAll startup.stamp startup.expected startup.workers
  onBarrier .barrier (PolicyBarrier.require (some startup.stamp))

def createBarrier : Step Unit :=
  match Barrier.create startup.workers with
  | .error failure => Effects.lift (.error (.barrier failure))
  | .ok barrier => Effects.modify fun session => { session with barrier := some barrier }

def startTrainer : Step Unit := do
  attempt startup .configuration
  attempt startup .experiment
  attempt startup .client
  Effects.modify fun session => { session with client := true }
  attempt startup .trainer
  attempt startup .bridge
  attempt startup .roster
  createBarrier startup
  attempt startup .backend
  attempt startup .initialSync
  synchronize startup

/-- The stages alone: what they raise and the resources that they leave. -/
def stages : Step Unit := do
  prepare startup
  startTrainer startup

def start (host : Host) : Step Unit := do
  prepare startup
  (startTrainer startup).catching fun failure => do
    close host
    Effects.lift (.error failure)

end

/-! ### What a close owes -/

def clientOwed (session : Session) : List Release := if session.runner && session.client then [.client] else []

def stopOwed (session : Session) : List Release :=
  (if session.runner then [.runner] else []) ++ if session.ray then [.ray] else []

def Session.owed (session : Session) : List Release := clientOwed session ++ stopOwed session

/-- Inference is revoked and every resource of the session has been released. -/
structure Released (session after : Session) : Prop where
  revoked : ∀ barrier, session.barrier = some barrier →
    ∃ revoked, after.barrier = some revoked ∧ revoked.acknowledged = ∅
  steps : after.released = session.released ++ session.owed

/-- A policy was begun on the barrier, so that it can be begun again. -/
def Opened (barrier : PolicyBarrier) : Prop :=
  ∃ stamp probe, barrier.stamp = some stamp ∧ barrier.probe = some probe ∧
    PolicyBarrier.checkStamp (some stamp) = .ok stamp ∧ PolicyBarrier.checkProbe (some probe) = .ok probe

def Sane (barrier : PolicyBarrier) : Prop := barrier.stamp = none ∨ Opened barrier

theorem begin_cases (stamp : Option PolicyStamp) (probe : Option Probe) (barrier : PolicyBarrier) :
    (∃ opened shown, PolicyBarrier.checkStamp stamp = .ok opened ∧ PolicyBarrier.checkProbe probe = .ok shown ∧
      PolicyBarrier.begin stamp probe barrier = (.ok (), barrier.opened opened shown)) ∨
    ∃ failure, PolicyBarrier.begin stamp probe barrier = (.error failure, barrier) := by
  cases first : PolicyBarrier.checkProbe probe with
  | error failure => exact .inr ⟨failure, by simp [PolicyBarrier.begin, bind, Effects.lift, first]⟩
  | ok shown =>
      cases second : PolicyBarrier.checkStamp stamp with
      | error failure => exact .inr ⟨failure, by simp [PolicyBarrier.begin, bind, Effects.lift, first, second]⟩
      | ok opened =>
          refine .inl ⟨opened, shown, rfl, rfl, ?_⟩
          simp [PolicyBarrier.begin, bind, Effects.lift, Effects.modify, first, second, PolicyBarrier.opened]

theorem opened_of_begin {stamp : Option PolicyStamp} {probe : Option Probe} {barrier after : PolicyBarrier}
    (began : PolicyBarrier.begin stamp probe barrier = (.ok (), after)) : Opened after := by
  rcases begin_cases stamp probe barrier with ⟨opened, shown, stamped, given, outcome⟩ | ⟨failure, outcome⟩
  · obtain rfl := (Prod.mk.inj (began.symm.trans outcome)).2
    obtain rfl := Barrier.checkStamp_eq_ok stamped
    obtain rfl := Barrier.checkProbe_eq_ok given
    exact ⟨opened, shown, rfl, rfl, stamped, given⟩
  · rw [outcome] at began
    cases (Prod.mk.inj began).1

theorem begin_opened {barrier : PolicyBarrier} (opened : Opened barrier) :
    PolicyBarrier.begin barrier.stamp barrier.probe barrier = (.ok (), { barrier with acknowledged := ∅ }) := by
  obtain ⟨stamp, probe, stampIs, probeIs, stamped, given⟩ := opened
  rcases begin_cases barrier.stamp barrier.probe barrier with ⟨again, shown, first, second, outcome⟩ | ⟨failure, outcome⟩
  · rw [stampIs, stamped] at first
    rw [probeIs, given] at second
    obtain rfl := Except.ok.inj first
    obtain rfl := Except.ok.inj second
    rw [outcome, PolicyBarrier.opened, ← stampIs, ← probeIs]
  · simp [PolicyBarrier.begin, bind, Effects.lift, Effects.modify, stampIs, probeIs, stamped, given] at outcome

/-- Without a policy on the barrier nothing can be begun again. -/
theorem begin_closed {barrier : PolicyBarrier} (closed : barrier.stamp = none) :
    ∃ failure, PolicyBarrier.begin barrier.stamp barrier.probe barrier = (.error failure, barrier) := by
  rcases begin_cases barrier.stamp barrier.probe barrier with ⟨opened, shown, stamped, given, outcome⟩ | failed
  · rw [closed] at stamped
    cases stamped
  · exact failed

/-! ### What a close does -/

/-- No worker is acknowledged any more. -/
def Session.silenced (session : Session) : Session :=
  { session with barrier := session.barrier.map fun barrier => { barrier with acknowledged := ∅ } }

theorem revoke_opened {session : Session} (opened : ∀ barrier, session.barrier = some barrier → Opened barrier) :
    revoke session = (.ok (), session.silenced) := by
  obtain ⟨barrier, runner, client, ray, released⟩ := session
  cases barrier with
  | none => rfl
  | some barrier => simp only [revoke, onBarrier, begin_opened (opened barrier rfl), Session.silenced, Option.map_some]

theorem revoke_closed {session : Session} {barrier : PolicyBarrier} (held : session.barrier = some barrier)
    (closed : barrier.stamp = none) : ∃ failure, revoke session = (.error (.revocation failure), session) := by
  obtain ⟨failure, refused⟩ := begin_closed closed
  refine ⟨failure, ?_⟩
  simp only [revoke, held, onBarrier, refused]
  rw [← held]

/-- No error of the libraries keeps a close from its later steps. -/
structure Uninterrupted (host : Host) (session : Session) : Prop where
  teardown : session.runner = true → session.client = true → ∀ problem, host.teardown = some problem →
    problem.isException = true
  runner : session.runner = true → session.ray = true → host.closeRunner = none
  ray : session.ray = true → host.rayImports = true

/-- The libraries raise nothing while the session is closed. -/
structure Quiet (host : Host) (session : Session) : Prop where
  teardown : session.runner = true → session.client = true → host.teardown = none
  runner : session.runner = true → host.closeRunner = none
  ray : session.ray = true → host.rayImports = true → host.shutdown = none

theorem bind_ok {α β : Type} {computation : Step α} {next : α → Step β} {session after : Session} {value : α}
    (returns : computation session = (.ok value, after)) : (computation >>= next) session = next value after := by
  simp only [bind, returns]

theorem bind_error {α β : Type} {computation : Step α} {next : α → Step β} {session after : Session}
    {failure : Raised} (raises : computation session = (.error failure, after)) :
    (computation >>= next) session = (.error failure, after) := by
  simp only [bind, raises]

/-- Only an interrupt keeps the client's error from being put off. -/
theorem tear_cases (host : Host) (session : Session) :
    (∃ teardownError, tear host session =
        (.ok teardownError, { session with released := session.released ++ clientOwed session }) ∧
      (session.runner = true → session.client = true → ∀ problem, host.teardown = some problem →
        problem.isException = true) ∧
      (teardownError = none ↔ (session.runner = true → session.client = true → host.teardown = none))) ∨
    (∃ failure, tear host session = (.error failure, { session with released := session.released ++ [.client] }) ∧
      session.runner = true ∧ session.client = true ∧ ∃ problem, host.teardown = some problem ∧
        problem.isException = false) := by
  obtain ⟨barrier, runner, client, ray, released⟩ := session
  cases runner with
  | false => exact .inl ⟨none, by simp [tear, bind, pure, Effects.read, clientOwed], by simp, by simp⟩
  | true =>
      cases client with
      | false => exact .inl ⟨none, by simp [tear, bind, pure, Effects.read, clientOwed], by simp, by simp⟩
      | true =>
          cases torn : host.teardown with
          | none => exact .inl ⟨none, by simp [tear, tearClient, perform, raising, torn, bind, pure, Effects.read,
              Effects.modify, clientOwed], by simp, by simp⟩
          | some problem =>
              cases kind : problem.isException with
              | true => exact .inl ⟨some (.release .client problem), by simp [tear, tearClient, perform, raising, torn,
                  kind, bind, pure, Effects.read, Effects.modify, clientOwed], by simp [kind], by simp⟩
              | false => exact .inr ⟨.release .client problem, by simp [tear, tearClient, perform, raising, torn, kind,
                  bind, Effects.read, Effects.modify, Effects.lift], rfl, rfl, problem, rfl, kind⟩

theorem stop_spec (host : Host) (session : Session) :
    (stop host session).2.barrier = session.barrier ∧
      (∃ steps, (stop host session).2.released = session.released ++ steps ∧
        (steps = stopOwed session ↔ (session.runner = true → session.ray = true → host.closeRunner = none) ∧
          (session.ray = true → host.rayImports = true))) ∧
      ((stop host session).1 = .ok () ↔ (session.runner = true → host.closeRunner = none) ∧
        (session.ray = true → host.rayImports = true → host.shutdown = none)) := by
  obtain ⟨barrier, runner, client, ray, released⟩ := session
  obtain ⟨teardown, closes, imports, shutdown⟩ := host
  cases runner <;> cases ray <;> cases imports <;> cases closes <;> cases shutdown <;>
    simp [stop, closeRunner, shutdownRay, perform, raising, stopOwed, bind, pure, Effects.read, Effects.modify,
      Effects.lift]

/-- The error that was put off is raised at the end. -/
theorem then_raising (computation : Step Unit) (failure : Option Raised) (session : Session) :
    ((computation >>= fun _ => raising failure) session).2 = (computation session).2 ∧
      (((computation >>= fun _ => raising failure) session).1 = .ok () ↔
        (computation session).1 = .ok () ∧ failure = none) := by
  rcases ran : computation session with ⟨problem | ⟨⟩, after⟩
  · rw [bind_error ran]
    simp
  · rw [bind_ok ran]
    cases failure <;> simp [raising, pure, Effects.lift]

theorem close_opened {session : Session} (opened : ∀ barrier, session.barrier = some barrier → Opened barrier)
    (host : Host) :
    (close host session).2.barrier = session.silenced.barrier ∧
      ((close host session).2.released = session.released ++ session.owed ↔ Uninterrupted host session) ∧
      ((close host session).1 = .ok () ↔ Quiet host session) := by
  rw [close, bind_ok (revoke_opened opened)]
  rcases tear_cases host session.silenced with ⟨teardownError, torn, kept, silent⟩ |
    ⟨failure, torn, running, owned, problem, raised, kind⟩
  · rw [bind_ok torn]
    obtain ⟨same, ⟨steps, listed, complete⟩, returns⟩ := stop_spec host
      { session.silenced with released := session.silenced.released ++ clientOwed session.silenced }
    obtain ⟨state, outcome⟩ := then_raising (stop host) teardownError
      { session.silenced with released := session.silenced.released ++ clientOwed session.silenced }
    rw [state, outcome, listed, returns, silent]
    refine ⟨same, ?_, ?_⟩
    · have whole : session.silenced.released ++ clientOwed session.silenced ++ steps =
          session.released ++ session.owed ↔ steps = stopOwed session := by
        rw [Session.owed, ← List.append_assoc]
        exact List.append_right_inj (session.released ++ clientOwed session)
      exact whole.trans (complete.trans ⟨fun both => ⟨kept, both.1, both.2⟩, fun all => ⟨all.runner, all.ray⟩⟩)
    · exact ⟨fun all => ⟨all.2, all.1.1, all.1.2⟩, fun all => ⟨⟨all.runner, all.ray⟩, all.teardown⟩⟩
  · rw [bind_error torn]
    refine ⟨rfl, ?_, ?_⟩
    · refine iff_of_false ?_ fun all => ?_
      · intro same
        have client : clientOwed session = [.client] := by
          rw [clientOwed, show session.runner = true from running, show session.client = true from owned]
          rfl
        have stops : stopOwed session ≠ [] := by
          rw [stopOwed, show session.runner = true from running]
          simp
        rw [Session.owed, client, ← List.append_assoc] at same
        exact stops (List.append_right_eq_self.mp same.symm)
      · rw [all.teardown running owned problem raised] at kind
        cases kind
    · refine iff_of_false (by simp) fun all => ?_
      rw [all.teardown running owned] at raised
      cases raised

/-- A close without any policy on the barrier does nothing but raise. -/
theorem close_closed {session : Session} {barrier : PolicyBarrier} (held : session.barrier = some barrier)
    (closed : barrier.stamp = none) (host : Host) :
    ∃ failure, close host session = (.error (.revocation failure), session) := by
  obtain ⟨failure, refused⟩ := revoke_closed held closed
  exact ⟨failure, by rw [close, bind_error refused]⟩

/-! ### Where errors come from -/

/-- Every error of the computation is original, or none is. -/
def Raises {α : Type} (original : Bool) (computation : Step α) : Prop :=
  ∀ session failure after, computation session = (.error failure, after) → failure.original = original

namespace Raises

variable {α β : Type} {original : Bool}

theorem of_ok {computation : Step α} (returns : ∀ session, ∃ value after, computation session = (.ok value, after)) :
    Raises original computation := by
  intro session failure after raised
  obtain ⟨value, other, returned⟩ := returns session
  rw [returned] at raised
  cases (Prod.mk.inj raised).1

theorem bindOn {computation : Step α} {next : α → Step β} (first : Raises original computation)
    (second : ∀ session value after, computation session = (.ok value, after) → Raises original (next value)) :
    Raises original (computation >>= next) := by
  intro session failure after raised
  rcases ran : computation session with ⟨problem | value, middle⟩
  · rw [bind_error ran] at raised
    obtain rfl := Except.error.inj (Prod.mk.inj raised).1
    exact first session _ middle ran
  · rw [bind_ok ran] at raised
    exact second session value middle ran middle failure after raised

theorem bind {computation : Step α} {next : α → Step β} (first : Raises original computation)
    (second : ∀ value, Raises original (next value)) : Raises original (computation >>= next) :=
  first.bindOn fun _ value _ _ => second value

theorem pure (value : α) : Raises original (Pure.pure value : Step α) :=
  of_ok fun session => ⟨value, session, rfl⟩

theorem modify (change : Session → Session) : Raises original (Effects.modify change : Step Unit) :=
  of_ok fun session => ⟨(), change session, rfl⟩

theorem read : Raises original (Effects.read : Step Session) := of_ok fun session => ⟨session, session, rfl⟩

theorem lift {failure : Raised} (kind : failure.original = original) :
    Raises original (Effects.lift (.error failure) : Step α) := by
  intro session other after raised
  obtain rfl := Except.error.inj (Prod.mk.inj raised).1
  exact kind

theorem raising {failure : Option Raised} (kind : ∀ problem, failure = some problem → problem.original = original) :
    Raises original (raising failure) := by
  cases failure with
  | none => exact pure ()
  | some problem => exact lift (kind problem rfl)

theorem ite {condition : Prop} [Decidable condition] {first second : Step α} (left : Raises original first)
    (right : Raises original second) : Raises original (if condition then first else second) := by
  split
  · exact left
  · exact right

theorem onBarrier (failed : Barrier.Failure → Raised) (kind : ∀ failure, (failed failure).original = original)
    (operation : Barrier.Step Unit) : Raises original (onBarrier failed operation) := by
  intro session failure after raised
  rw [NativeSession.onBarrier] at raised
  split at raised
  next => cases (Prod.mk.inj raised).1
  next barrier held =>
    rcases ran : operation barrier with ⟨problem | ⟨⟩, later⟩
    · simp only [ran] at raised
      obtain rfl := Except.error.inj (Prod.mk.inj raised).1
      exact kind problem
    · simp only [ran] at raised
      cases (Prod.mk.inj raised).1

theorem perform (step : Release) (problem : Option Problem) : Raises false (perform step problem) := by
  refine (modify _).bind fun _ => raising ?_
  intro failure found
  obtain ⟨_, _, rfl⟩ := Option.map_eq_some_iff.mp found
  rfl

end Raises

theorem raises_revoke : Raises false revoke := by
  intro session failure after raised
  rw [revoke] at raised
  split at raised
  next => cases (Prod.mk.inj raised).1
  next => exact Raises.onBarrier .revocation (fun _ => rfl) _ session failure after raised

theorem raises_tearClient (host : Host) : Raises false (tearClient host) := by
  rw [tearClient]
  split
  · exact (Raises.perform _ _).bind fun _ => .pure _
  · exact .ite ((Raises.perform _ _).bind fun _ => .pure _) ((Raises.perform _ _).bind fun _ => .pure _)

theorem raises_tear (host : Host) : Raises false (tear host) :=
  Raises.read.bind fun _ => .ite (raises_tearClient host) (.pure _)

/-- The client's error is the one that is put off. -/
theorem tear_value {host : Host} {session after : Session} {teardownError : Option Raised}
    (torn : tear host session = (.ok teardownError, after)) :
    ∀ failure, teardownError = some failure → failure.original = false := by
  rintro failure rfl
  obtain ⟨barrier, runner, client, ray, released⟩ := session
  cases runner with
  | false => simp [tear, bind, pure, Effects.read] at torn
  | true =>
      cases client with
      | false => simp [tear, bind, pure, Effects.read] at torn
      | true =>
          cases found : host.teardown with
          | none => simp [tear, tearClient, perform, raising, found, bind, pure, Effects.read, Effects.modify] at torn
          | some problem =>
              cases kind : problem.isException with
              | true =>
                  simp [tear, tearClient, perform, raising, found, kind, bind, pure, Effects.read, Effects.modify] at torn
                  obtain ⟨rfl, -⟩ := torn
                  rfl
              | false =>
                  simp [tear, tearClient, perform, raising, found, kind, bind, Effects.read, Effects.modify,
                    Effects.lift] at torn

theorem raises_closeRunner (host : Host) : Raises false (closeRunner host) :=
  (Raises.perform _ _).bind fun _ => .modify _

theorem raises_shutdownRay (host : Host) : Raises false (shutdownRay host) :=
  (Raises.perform _ _).bind fun _ => .modify _

theorem raises_stop (host : Host) : Raises false (stop host) := by
  refine Raises.read.bind fun session => ?_
  dsimp only
  split
  · exact (raises_closeRunner host).bind fun _ => .ite (raises_shutdownRay host) (.pure _)
  · exact .ite (raises_shutdownRay host) (.pure _)

theorem raises_close (host : Host) : Raises false (close host) :=
  raises_revoke.bind fun _ => (raises_tear host).bindOn fun _ _ _ torn =>
    (raises_stop host).bind fun _ => .raising (tear_value torn)

section

variable (startup : Startup)

theorem raises_attempt (stage : Stage) : Raises true (attempt startup stage) := by
  refine .raising fun failure found => ?_
  obtain ⟨_, _, rfl⟩ := Option.map_eq_some_iff.mp found
  rfl

theorem raises_acknowledgeAll (stamp : PolicyStamp) (probe : Probe) (workers : List String) :
    Raises true (acknowledgeAll stamp probe workers) := by
  induction workers with
  | nil => exact .pure ()
  | cons worker rest ih => exact (Raises.onBarrier .barrier (fun _ => rfl) _).bind fun _ => ih

theorem raises_synchronize : Raises true (synchronize startup) :=
  (raises_attempt startup _).bind fun _ => (Raises.onBarrier .barrier (fun _ => rfl) _).bind fun _ =>
    (raises_attempt startup _).bind fun _ => (Raises.onBarrier .barrier (fun _ => rfl) _).bind fun _ =>
      (raises_acknowledgeAll _ _ _).bind fun _ => .onBarrier .barrier (fun _ => rfl) _

theorem raises_createBarrier : Raises true (createBarrier startup) := by
  rw [createBarrier]
  split
  · exact .lift rfl
  · exact .modify _

theorem raises_startTrainer : Raises true (startTrainer startup) :=
  (raises_attempt startup _).bind fun _ => (raises_attempt startup _).bind fun _ =>
    (raises_attempt startup _).bind fun _ => (Raises.modify _).bind fun _ => (raises_attempt startup _).bind fun _ =>
      (raises_attempt startup _).bind fun _ => (raises_attempt startup _).bind fun _ =>
        (raises_createBarrier startup).bind fun _ => (raises_attempt startup _).bind fun _ =>
          (raises_attempt startup _).bind fun _ => raises_synchronize startup

end

/-! ### What the stages of a startup leave -/

/-- A stage left the session with its Ray and its runner, nothing released and a barrier that is sound. -/
structure Underway (session : Session) : Prop where
  runner : session.runner = true
  ray : session.ray = true
  released : session.released = []
  sane : ∀ barrier, session.barrier = some barrier → Sane barrier

/-- A policy has been begun on the barrier of the session. -/
def Ready (session : Session) : Prop := Underway session ∧ ∃ barrier, session.barrier = some barrier ∧ Opened barrier

def Based (session : Session) : Prop := Underway session ∧ ∃ barrier, session.barrier = some barrier

/-- From a session with `before` the computation goes to one with `done`, or leaves one that is underway. -/
def Leads (before : Session → Prop) (computation : Step Unit) (done : Session → Prop) : Prop :=
  ∀ session, before session → (∃ after, computation session = (.ok (), after) ∧ done after) ∨
    ∃ failure after, computation session = (.error failure, after) ∧ Underway after

theorem Leads.bind {before middle done : Session → Prop} {computation next : Step Unit}
    (first : Leads before computation middle) (second : Leads middle next done) :
    Leads before (computation >>= fun _ => next) done := by
  intro session starts
  rcases first session starts with ⟨after, ran, here⟩ | ⟨failure, after, ran, left⟩
  · rw [bind_ok ran]
    exact second after here
  · exact .inr ⟨failure, after, bind_error ran, left⟩

theorem leads_attempt {before : Session → Prop} (underway : ∀ session, before session → Underway session)
    (startup : Startup) (stage : Stage) : Leads before (attempt startup stage) before := by
  intro session starts
  cases outcome : startup.raises stage with
  | none => exact .inl ⟨session, by simp [attempt, outcome, raising, pure], starts⟩
  | some problem =>
      exact .inr ⟨.stage problem, session, by simp [attempt, outcome, raising, Effects.lift], underway session starts⟩

theorem opened_begin {barrier : PolicyBarrier} (opened : Opened barrier) (stamp : Option PolicyStamp)
    (probe : Option Probe) : Opened (PolicyBarrier.begin stamp probe barrier).2 := by
  rcases begin_cases stamp probe barrier with ⟨given, shown, -, -, outcome⟩ | ⟨failure, outcome⟩
  · rw [outcome]
    exact opened_of_begin outcome
  · rw [outcome]
    exact opened

/-- No operation forgets the policy of a barrier. -/
theorem opened_perform (operation : Barrier.Operation) {barrier : PolicyBarrier} (opened : Opened barrier) :
    Opened (operation.perform barrier).2 := by
  cases operation with
  | begin stamp probe => exact opened_begin opened stamp probe
  | acknowledge worker stamp probe =>
      simp only [Barrier.Operation.perform, PolicyBarrier.acknowledge, Effects.read, Effects.lift, Effects.modify, bind]
      split
      next accepted =>
        obtain ⟨-, rfl⟩ := Prod.mk.inj accepted
        exact opened
      next refused =>
        obtain ⟨-, rfl⟩ := Prod.mk.inj refused
        exact opened
  | require stamp =>
      simp only [Barrier.Operation.perform, PolicyBarrier.require, Effects.read, Effects.lift, bind]
      exact opened
  | stateDict => exact opened
  | load state =>
      simp only [Barrier.Operation.perform, PolicyBarrier.loadStateDict, Effects.read, Effects.lift, bind]
      split
      next listed =>
        obtain ⟨-, rfl⟩ := Prod.mk.inj listed
        split
        next stamped =>
          obtain ⟨-, rfl⟩ := Prod.mk.inj stamped
          exact opened_begin opened _ _
        next refused =>
          obtain ⟨-, rfl⟩ := Prod.mk.inj refused
          exact opened
      next refused =>
        obtain ⟨-, rfl⟩ := Prod.mk.inj refused
        exact opened

theorem onBarrier_some (failed : Barrier.Failure → Raised) (operation : Barrier.Step Unit) {session : Session}
    {barrier : PolicyBarrier} (held : session.barrier = some barrier) :
    (∃ after, operation barrier = (.ok (), after) ∧
      onBarrier failed operation session = (.ok (), { session with barrier := some after })) ∨
    ∃ failure after, operation barrier = (.error failure, after) ∧
      onBarrier failed operation session = (.error (failed failure), { session with barrier := some after }) := by
  rcases ran : operation barrier with ⟨failure | ⟨⟩, after⟩
  · exact .inr ⟨failure, after, rfl, by simp only [onBarrier, held, ran]⟩
  · exact .inl ⟨after, rfl, by simp only [onBarrier, held, ran]⟩

theorem Underway.withBarrier {session : Session} (underway : Underway session) {barrier : PolicyBarrier}
    (sane : Sane barrier) : Underway { session with barrier := some barrier } where
  runner := underway.runner
  ray := underway.ray
  released := underway.released
  sane := by
    rintro _ ⟨⟩
    exact sane

theorem leads_operation (failed : Barrier.Failure → Raised) (operation : Barrier.Operation) :
    Leads Ready (onBarrier failed operation.perform) Ready := by
  rintro session ⟨underway, barrier, held, opened⟩
  have still := opened_perform operation opened
  rcases onBarrier_some failed operation.perform held with ⟨after, ran, outcome⟩ | ⟨failure, after, ran, outcome⟩
  · rw [ran] at still
    exact .inl ⟨_, outcome, underway.withBarrier (.inr still), after, rfl, still⟩
  · rw [ran] at still
    exact .inr ⟨_, _, outcome, underway.withBarrier (.inr still)⟩

theorem leads_begin (failed : Barrier.Failure → Raised) (stamp : Option PolicyStamp) (probe : Option Probe) :
    Leads Based (onBarrier failed (PolicyBarrier.begin stamp probe)) Ready := by
  rintro session ⟨underway, barrier, held⟩
  rcases onBarrier_some failed (PolicyBarrier.begin stamp probe) held with ⟨after, ran, outcome⟩ |
    ⟨failure, after, ran, outcome⟩
  · have opened := opened_of_begin ran
    exact .inl ⟨_, outcome, underway.withBarrier (.inr opened), after, rfl, opened⟩
  · have same : after = barrier := @Barrier.perform_error (.begin stamp probe) _ _ _ ran
    subst same
    exact .inr ⟨_, _, outcome, underway.withBarrier (underway.sane _ held)⟩

theorem leads_createBarrier (startup : Startup) : Leads Underway (createBarrier startup) Based := by
  intro session underway
  rw [createBarrier]
  cases created : Barrier.create startup.workers with
  | error failure => exact .inr ⟨_, session, rfl, underway⟩
  | ok barrier =>
      have closed : barrier.stamp = none := by
        simp only [Barrier.create, bind_eq_ok] at created
        obtain ⟨_, _, same⟩ := created
        rw [← Except.ok.inj same]
      exact .inl ⟨_, rfl, underway.withBarrier (.inl closed), barrier, rfl⟩

theorem leads_acknowledgeAll (stamp : PolicyStamp) (probe : Probe) (workers : List String) :
    Leads Ready (acknowledgeAll stamp probe workers) Ready := by
  induction workers with
  | nil => exact fun session ready => .inl ⟨session, rfl, ready⟩
  | cons worker rest ih => exact (leads_operation .barrier (.acknowledge worker (some stamp) (some probe))).bind ih

theorem leads_client : Leads Underway (Effects.modify fun session => { session with client := true }) Underway :=
  fun _ underway => .inl ⟨_, rfl, underway.runner, underway.ray, underway.released, underway.sane⟩

theorem leads_synchronize (startup : Startup) : Leads Based (synchronize startup) Ready := by
  have again : Leads Ready (onBarrier .barrier (PolicyBarrier.begin (some startup.stamp) (some startup.expected)))
      Ready := leads_operation .barrier (.begin (some startup.stamp) (some startup.expected))
  exact (leads_attempt (fun _ based => based.1) startup _).bind <| (leads_begin _ _ _).bind <|
    (leads_attempt (fun _ ready => ready.1) startup _).bind <| again.bind <| (leads_acknowledgeAll _ _ _).bind <|
      leads_operation .barrier (.require (some startup.stamp))

/-- A startup that fails with its runner leaves a session that is underway. -/
theorem leads_startTrainer (startup : Startup) : Leads Underway (startTrainer startup) Ready := by
  have stage := leads_attempt (fun _ underway => underway) startup
  have based := leads_attempt (fun (session : Session) (based : Based session) => based.1) startup
  exact (stage .configuration).bind <| (stage .experiment).bind <| (stage .client).bind <| leads_client.bind <|
    (stage .trainer).bind <| (stage .bridge).bind <| (stage .roster).bind <| (leads_createBarrier startup).bind <|
      (based .backend).bind <| (based .initialSync).bind <| leads_synchronize startup

/-- Before the runner exists a failure leaves at most a Ray. -/
theorem prepare_cases (startup : Startup) :
    prepare startup .fresh = (.ok (), ⟨none, true, false, true, []⟩) ∨
      ∃ failure ray, prepare startup .fresh = (.error failure, ⟨none, false, false, ray, []⟩) := by
  cases checks : startup.raises .checks with
  | some problem =>
      exact .inr ⟨.stage problem, false, by simp [prepare, attempt, raising, checks, bind, Effects.lift, Session.fresh]⟩
  | none =>
      cases started : startup.raises .initializeRay with
      | some problem =>
          exact .inr ⟨.stage problem, startup.rayBegun, by simp [prepare, attempt, raising, initializeRay, checks,
            started, bind, pure, Effects.lift, Effects.modify, Session.fresh]⟩
      | none =>
          cases runs : startup.raises .runner with
          | some problem =>
              exact .inr ⟨.stage problem, true, by simp [prepare, attempt, raising, initializeRay, checks, started, runs,
                bind, pure, Effects.lift, Effects.modify, Session.fresh]⟩
          | none =>
              exact .inl (by simp [prepare, attempt, raising, initializeRay, checks, started, runs, bind, pure,
                Effects.modify, Session.fresh])

/-! ### Startups that fail and later closes -/

/-- Sessions after a startup: operations on the barrier, and closes. -/
inductive Later (started : Session) : Session → Prop where
  | refl : Later started started
  | operate {session : Session} (operation : Barrier.Operation) (later : Later started session) :
      Later started (onBarrier .barrier operation.perform session).2
  | close {session : Session} (host : Host) (later : Later started session) : Later started (close host session).2

/-- What a failed startup left is released, and the error of the stage stays. -/
structure Survives (host : Host) (left : Session) : Prop where
  handled : left.runner = true ∨ left.ray = false
  begun : ∀ barrier, left.barrier = some barrier → barrier.stamp ≠ none
  quiet : Quiet host left
  uninterrupted : Uninterrupted host left

theorem released_close {session : Session} (opened : ∀ barrier, session.barrier = some barrier → Opened barrier)
    (host : Host) : Released session (close host session).2 ↔ Uninterrupted host session := by
  obtain ⟨silenced, steps, -⟩ := close_opened opened host
  refine ⟨fun released => steps.mp released.steps, fun all => ⟨?_, steps.mpr all⟩⟩
  intro barrier held
  exact ⟨{ barrier with acknowledged := ∅ }, by rw [silenced, Session.silenced, held]; rfl, rfl⟩

theorem Later.opened {started session : Session} (later : Later started session)
    (opened : ∀ barrier, started.barrier = some barrier → Opened barrier) :
    ∀ barrier, session.barrier = some barrier → Opened barrier := by
  induction later with
  | refl => exact opened
  | @operate session operation later ih =>
      intro barrier held
      cases given : session.barrier with
      | none =>
          simp [onBarrier, given] at held
      | some before =>
          have still := opened_perform operation (ih before given)
          rcases onBarrier_some .barrier operation.perform given with ⟨after, ran, outcome⟩ |
            ⟨failure, after, ran, outcome⟩
          · rw [outcome] at held
            obtain rfl := Option.some.inj held
            rwa [ran] at still
          · rw [outcome] at held
            obtain rfl := Option.some.inj held
            rwa [ran] at still
  | @close session host later ih =>
      intro barrier held
      rw [(close_opened ih host).1, Session.silenced, Option.map_eq_some_iff] at held
      obtain ⟨before, given, rfl⟩ := held
      obtain ⟨stamp, probe, stampIs, probeIs, checked⟩ := ih before given
      exact ⟨stamp, probe, stampIs, probeIs, checked⟩

/-- The session once its runner exists. -/
def Session.prepared : Session := ⟨none, true, false, true, []⟩

theorem underway_prepared : Underway .prepared := ⟨rfl, rfl, rfl, by rintro _ ⟨⟩⟩

theorem start_prepared {startup : Startup} (host : Host)
    (prepared : prepare startup .fresh = (.ok (), .prepared)) :
    (∃ after, startTrainer startup .prepared = (.ok (), after) ∧ Ready after ∧
      start startup host .fresh = (.ok (), after)) ∨
    ∃ failure left, startTrainer startup .prepared = (.error failure, left) ∧ Underway left ∧
      start startup host .fresh = (close host >>= fun _ => Effects.lift (.error failure)) left := by
  rw [start, bind_ok prepared]
  rcases leads_startTrainer startup .prepared underway_prepared with ⟨after, trained, ready⟩ |
    ⟨failure, left, trained, underway⟩
  · exact .inl ⟨after, trained, ready, by simp only [Effects.catching, trained]⟩
  · exact .inr ⟨failure, left, trained, underway, by simp only [Effects.catching, trained]⟩

/-- A close that raises puts its own error in the place of the original one. -/
theorem close_replaces {host : Host} {left after : Session} {failure problem : Raised}
    (original : failure.original = true) (closed : close host left = (.error problem, after)) :
    ((close host >>= fun _ => (Effects.lift (.error failure) : Step Unit)) left).1 ≠ .error failure := by
  rw [bind_error closed]
  intro same
  obtain rfl := Except.error.inj same
  rw [raises_close host left _ after closed] at original
  cases original

theorem survives_underway {startup : Startup} {failure : Raised} {left : Session} (host : Host)
    (trained : startTrainer startup .prepared = (.error failure, left)) (underway : Underway left) :
    (((close host >>= fun _ => (Effects.lift (.error failure) : Step Unit)) left).1 = .error failure ∧
      Released left ((close host >>= fun _ => (Effects.lift (.error failure) : Step Unit)) left).2) ↔
      Survives host left := by
  have original := raises_startTrainer startup _ _ _ trained
  by_cases begun : ∀ barrier, left.barrier = some barrier → barrier.stamp ≠ none
  · have opened : ∀ barrier, left.barrier = some barrier → Opened barrier := fun barrier held =>
      (underway.sane barrier held).resolve_left (begun barrier held)
    have quiet := (close_opened opened host).2.2
    rcases closed : close host left with ⟨problem | ⟨⟩, after⟩
    · refine iff_of_false (fun both => close_replaces original closed both.1) fun survives => ?_
      rw [closed] at quiet
      cases quiet.mpr survives.quiet
    · have released := released_close opened host
      rw [closed] at quiet released
      rw [bind_ok closed]
      constructor
      · exact fun both => ⟨.inl underway.runner, begun, quiet.mp rfl, released.mp both.2⟩
      · exact fun survives => ⟨rfl, released.mpr survives.uninterrupted⟩
  · refine iff_of_false (fun both => ?_) fun survives => begun survives.begun
    push Not at begun
    obtain ⟨barrier, held, closed⟩ := begun
    obtain ⟨refusal, refused⟩ := close_closed held closed host
    exact close_replaces original refused both.1

theorem survives_unprepared (host : Host) (ray : Bool) (failure : Raised) :
    ((Except.error failure : Except Raised Unit) = .error failure ∧
      Released ⟨none, false, false, ray, []⟩ ⟨none, false, false, ray, []⟩) ↔
      Survives host ⟨none, false, false, ray, []⟩ := by
  constructor
  · rintro ⟨-, released⟩
    have steps := released.steps
    cases ray with
    | true => simp [Session.owed, clientOwed, stopOwed] at steps
    | false =>
        exact ⟨.inr rfl, by rintro _ ⟨⟩, ⟨by rintro ⟨⟩, by rintro ⟨⟩, by rintro ⟨⟩⟩,
          ⟨by rintro ⟨⟩, by rintro ⟨⟩, by rintro ⟨⟩⟩⟩
  · intro survives
    have idle : ray = false := survives.handled.resolve_left (by simp)
    subst idle
    exact ⟨rfl, by rintro _ ⟨⟩, rfl⟩

/-- A failed startup keeps its error and releases what it left exactly when it survives its close, and a later
close releases everything exactly when it is not interrupted. -/
theorem teardown_iff (startup : Startup) :
    (∀ failure left host, stages startup .fresh = (.error failure, left) →
      ((start startup host .fresh).1 = .error failure ∧ Released left (start startup host .fresh).2 ↔
        Survives host left)) ∧
    ∀ started session before host, start startup before .fresh = (.ok (), started) → Later started session →
      (Released session (close host session).2 ↔ Uninterrupted host session) := by
  constructor
  · intro failure left host failed
    rcases prepare_cases startup with prepared | ⟨problem, ray, refused⟩
    · rw [stages, bind_ok prepared] at failed
      rcases start_prepared host prepared with ⟨after, trained, -, -⟩ | ⟨_, _, trained, underway, outcome⟩
      · have same := trained.symm.trans failed
        cases (Prod.mk.inj same).1
      · obtain ⟨same, rfl⟩ := Prod.mk.inj (trained.symm.trans failed)
        obtain rfl := Except.error.inj same
        rw [outcome]
        exact survives_underway host trained underway
    · rw [stages, bind_error refused] at failed
      obtain ⟨same, rfl⟩ := Prod.mk.inj failed
      obtain rfl := Except.error.inj same
      rw [start, bind_error refused]
      exact survives_unprepared host ray problem
  · intro started session before host began later
    refine released_close (later.opened ?_) host
    rcases prepare_cases startup with prepared | ⟨problem, ray, refused⟩
    · rcases start_prepared before prepared with ⟨after, -, ⟨-, barrier, held, opened⟩, outcome⟩ |
        ⟨failure, left, -, -, outcome⟩
      · obtain ⟨-, rfl⟩ := Prod.mk.inj (outcome.symm.trans began)
        intro other given
        rw [held] at given
        obtain rfl := Option.some.inj given
        exact opened
      · rw [outcome] at began
        rcases closed : close before left with ⟨problem | ⟨⟩, after⟩
        · rw [bind_error closed] at began
          cases (Prod.mk.inj began).1
        · rw [bind_ok closed] at began
          cases (Prod.mk.inj began).1
    · rw [start, bind_error refused] at began
      cases (Prod.mk.inj began).1

/-! ### A sample: the backend fails before any policy is begun -/

def sampleStartup : Startup where
  raises stage := if stage = .backend then some ⟨true, "Exact tokenizer bytes required"⟩ else none
  rayBegun := false
  workers := ["http://127.0.0.1:8000"]
  stamp := ⟨"step-0", "", "", ""⟩
  expected := [1]

def sampleHost : Host := ⟨none, none, true, none⟩

/-- Nothing is released, although no library raises anything. -/
theorem unbegun_barrier_leaks : ¬ ∀ startup failure left host, stages startup .fresh = (.error failure, left) →
    (start startup host .fresh).1 = .error failure ∧ Released left (start startup host .fresh).2 := by
  intro tears
  have failed : stages sampleStartup .fresh = (.error (.stage ⟨true, "Exact tokenizer bytes required"⟩),
      ⟨some ⟨["http://127.0.0.1:8000"], none, none, ∅⟩, true, true, true, []⟩) := rfl
  obtain ⟨-, released⟩ := tears sampleStartup _ _ sampleHost failed
  have steps := released.steps
  have nothing : (start sampleStartup sampleHost .fresh).2.released = [] := rfl
  rw [nothing] at steps
  cases steps

end NativeSession

end FeatureRl
