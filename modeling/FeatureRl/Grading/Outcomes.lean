import FeatureRl.Grading.Service

/-!
What a grade says about its run: one for a run in which everything matched, nothing for a
run that something outside the candidate spoiled, zero for the others.
-/

namespace FeatureRl

open Checked Effects

namespace Grading

/-! ### Events -/

/-- An infrastructure failure, an unresolved outcome or an unverified cleanup. -/
def Event.broken : Event → Bool
  | .raised (.publicationFailed _) | .raised (.buildFailed _ _) | .raised (.sizeLimit _)
  | .raised (.infrastructure _ _) | .closeFailed => true
  | .buildFailed failure => failure.failureCategory ≠ .candidate ∨ failure.cleanupVerified = false
  | .worker output => output.cleanupVerified = false ∨
      output.failureCategory ∈ [FailureCategory.infrastructure, FailureCategory.unresolved]
  | _ => false

/-- A verifier, plan or dependency closure that cannot be used. -/
def Event.unusable : Event → Bool
  | .raised (.dependencyUnavailable _) | .raised (.value _) => true
  | _ => false

/-- A failure that is attributed to the candidate; using up the wall budget is one. -/
def Event.fault : Event → Bool
  | .raised (.sourceRejected _) | .submissionRejected | .budgetExceeded | .mismatched _
  | .protocolViolation _ => true
  | .buildFailed failure => failure.failureCategory = .candidate ∧ failure.cleanupVerified = true
  | .worker output => output.cleanupVerified = true ∧
      output.failureCategory ∉ [FailureCategory.infrastructure, FailureCategory.unresolved] ∧
      output.reason ∉ [WorkerReason.completed, WorkerReason.commandFailed]
  | _ => false

def Event.unhandled : Event → Bool
  | .raised (.other _ _) => true
  | _ => false

/-- The run has a reward of its own: nothing outside the candidate spoiled it. -/
def Event.spoils (event : Event) : Bool := event.broken || event.unusable

/-- The build succeeded and every planned case completed, matched and was cleaned up. -/
structure Passed (services : Services) (events : List Event) : Prop where
  built : Event.built ∈ events
  matched : ∃ checked, services.loadVerifier = .ok checked ∧
    ∀ index < checked.cases.length, Event.matched index ∈ events
  cleaned : ∀ output, Event.worker output ∈ events → output.cleanupVerified = true
  closed : Event.closed ∈ events ∧ Event.closeFailed ∉ events

def Raised.spoils (exception : Raised) : Bool := (Event.raised exception).spoils

/-! ### Results -/

theorem isBoundedReason_append {start : String} {text : String} {limit : Nat}
    (short : 1 ≤ start.toList.length ∧ start.toList.length + limit ≤ 1024)
    (bounded : text.toList.length ≤ limit) : isBoundedReason (start ++ text) = true := by
  simp only [isBoundedReason, String.toList_append, List.length_append, Bool.and_eq_true,
    decide_eq_true_eq]
  omega

theorem length_clip_le (count : Nat) (text : String) : (clip count text).toList.length ≤ count := by
  simp [clip]

theorem isBoundedReason_clip (start : String) (count : Nat) (text : String)
    (short : 1 ≤ start.toList.length ∧ start.toList.length + count ≤ 1024) :
    isBoundedReason (start ++ clip count text) = true :=
  isBoundedReason_append short (length_clip_le count text)

theorem length_name_le (reason : WorkerReason) : reason.name.toList.length ≤ 30 := by
  cases reason <;> decide

theorem create_eq_ok {result made : CaseResult} (created : CaseResult.create result = .ok made) :
    made = result := by
  simp only [CaseResult.create, bind_eq_ok] at created
  obtain ⟨_, _, _, _, rest⟩ := created
  split at rest
  · obtain ⟨_, _, same⟩ := bind_eq_ok.mp rest
    exact (Except.ok.inj same).symm
  · obtain ⟨_, _, same⟩ := bind_eq_ok.mp rest
    exact (Except.ok.inj same).symm

theorem create_uncompared (caseId : String) (mandatory : Bool) {status : CaseStatus}
    (other : status ≠ .completed) (evidence : Option ArtifactRef) {reason : String}
    (bounded : isBoundedReason reason = true) :
    CaseResult.create ⟨caseId, mandatory, status, none, [], evidence, reason⟩ =
      .ok ⟨caseId, mandatory, status, none, [], evidence, reason⟩ := by
  simp [CaseResult.create, refuse, bounded, other, bind, Except.bind]

theorem create_completed (case : RealizedCase) (passed : Bool) (evidence : ArtifactRef) :
    let result : CaseResult := ⟨case.caseId, case.mandatory, .completed, some passed,
      [⟨"reference-match", case.requirementIds, passed⟩], some evidence, "compared externally"⟩
    CaseResult.create result = .ok result := by
  have bounded : isBoundedReason "compared externally" = true := by decide
  simp [CaseResult.create, refuse, bounded, bind, Except.bind]

/-! ### Verdicts -/

/-- Facts that every step keeps. -/
structure Sane (progress : Progress) : Prop where
  unique : (progress.results.map CaseResult.caseId).Nodup
  bounded : isBoundedReason progress.reason = true

def Clean (events : List Event) : Prop := ∀ event ∈ events, event.spoils = false

/-- Only cases before an index have matched. -/
def Ahead (index : Nat) (events : List Event) : Prop :=
  ∀ other, Event.matched other ∈ events → other < index

/-- Some planned case has not matched. -/
def Missed (services : Services) (events : List Event) : Prop :=
  ∀ checked, services.loadVerifier = .ok checked →
    ∃ index < checked.cases.length, Event.matched index ∉ events

/-- A case that completed and matched. -/
def Settles (result : CaseResult) : Prop :=
  result.mandatory = true ∧ result.status = .completed ∧ result.passed = some true

/-- The verdict that a run has reached, with what happened for it. -/
inductive Verdict (services : Services) (progress : Progress) : Prop
  | passed (checked : LoadedVerifier) (loaded : services.loadVerifier = .ok checked)
      (disposition : progress.disposition = .success) (reward : progress.reward = some 1)
      (clean : Clean progress.events) (cleanup : progress.cleanup = true)
      (opened : progress.opened = true) (built : Event.built ∈ progress.events)
      (matched : ∀ index < checked.cases.length, Event.matched index ∈ progress.events)
      (manifest : progress.manifest ≠ none) (source : progress.source ≠ none)
      (buildEvidence : progress.buildEvidence ≠ none) (nonempty : progress.results ≠ [])
      (settled : ∀ result ∈ progress.results, Settles result)
  | rejected (disposition : progress.disposition = .rejected) (reward : progress.reward = some 0)
      (clean : Clean progress.events) (fault : ∃ event ∈ progress.events, event.fault = true)
      (cleanup : progress.cleanup = true) (missed : Missed services progress.events)
  | unmeasured (disposition : progress.disposition ≠ .success ∧ progress.disposition ≠ .rejected)
      (reward : progress.reward = none) (spoiled : ∃ event ∈ progress.events, event.spoils = true)
      (missed : Missed services progress.events)

def Concludes (services : Services) (_ : Unit) (progress : Progress) : Prop :=
  Sane progress ∧ Verdict services progress

/-- A run that is about to raise an exception. -/
structure Raising (services : Services) (exception : Raised) (progress : Progress) : Prop where
  sane : Sane progress
  cleanup : progress.cleanup = true
  last : Event.raised exception ∈ progress.events
  clean : exception.spoils = false → Clean progress.events
  missed : Missed services progress.events

/-! ### Steps -/

variable {progress : Progress} {failed : Raised → Progress → Prop}

theorem ends_note {event : Event} {done : Unit → Progress → Prop} :
    (note event).Ends progress done failed ↔
      done () { progress with events := progress.events ++ [event] } := by
  rw [note, ends_modify]

theorem ends_judge {disposition : Disposition} {reward : Option Nat} {reason : String}
    {done : Unit → Progress → Prop} :
    (judge disposition reward reason).Ends progress done failed ↔
      done () { progress with disposition, reward, reason } := by
  rw [judge, ends_modify]

theorem ends_addEvidence {evidence : ArtifactRef} {done : Unit → Progress → Prop} :
    (addEvidence evidence).Ends progress done failed ↔
      done () { progress with runtimeEvidence := progress.runtimeEvidence ++ [evidence] } := by
  rw [addEvidence, ends_modify]

theorem ends_setResult {index : Nat} {result : CaseResult} (valid : CaseResult.create result = .ok result)
    {done : Unit → Progress → Prop} :
    (setResult index result).Ends progress done failed ↔
      done () { progress with results := progress.results.set index result } := by
  rw [setResult, ends_bind, valid, ends_lift_ok, ends_modify]

/-- A call returns, or its exception is the last event. -/
theorem ends_call {α : Type} {outcome : Checks α} {done : α → Progress → Prop}
    (returns : ∀ value, outcome = .ok value → done value progress)
    (raises : ∀ exception, outcome = .error exception →
      failed exception { progress with events := progress.events ++ [.raised exception] }) :
    (call outcome).Ends progress done failed := by
  cases outcome with
  | ok value =>
      rw [call, ends_pure]
      exact returns value rfl
  | error exception =>
      rw [call, ends_bind, ends_note, ends_lift_error]
      exact raises exception rfl

theorem Clean.append {events : List Event} (clean : Clean events) {event : Event}
    (harmless : event.spoils = false) : Clean (events ++ [event]) := by
  intro other member
  rcases List.mem_append.mp member with before | here
  · exact clean other before
  · rw [List.mem_singleton.mp here]
    exact harmless

theorem Ahead.append {index : Nat} {events : List Event} (ahead : Ahead index events) {event : Event}
    (other : ∀ index, event ≠ .matched index) : Ahead index (events ++ [event]) := by
  intro found member
  rcases List.mem_append.mp member with before | here
  · exact ahead found before
  · exact absurd (List.mem_singleton.mp here).symm (other found)

theorem Missed.append {services : Services} {events : List Event} (missed : Missed services events)
    {event : Event} (other : ∀ index, event ≠ .matched index) : Missed services (events ++ [event]) := by
  intro checked loaded
  obtain ⟨index, inside, absent⟩ := missed checked loaded
  refine ⟨index, inside, fun member => ?_⟩
  rcases List.mem_append.mp member with before | here
  · exact absent before
  · exact absurd (List.mem_singleton.mp here).symm (other index)

theorem Ahead.missed {services : Services} {index : Nat} {events : List Event}
    (ahead : Ahead index events)
    (within : ∀ checked, services.loadVerifier = .ok checked → index < checked.cases.length) :
    Missed services events := fun checked loaded =>
  ⟨index, within checked loaded, fun member => Nat.lt_irrefl _ (ahead index member)⟩

theorem Raising.of_call {services : Services} {exception : Raised} (sane : Sane progress)
    (cleanup : progress.cleanup = true) (clean : Clean progress.events)
    (missed : Missed services progress.events) :
    Raising services exception { progress with events := progress.events ++ [.raised exception] } where
  sane := ⟨sane.unique, sane.bounded⟩
  cleanup := cleanup
  last := by simp
  clean harmless := clean.append harmless
  missed := missed.append (by simp)

theorem map_caseId_set {results : List CaseResult} {index : Nat} {result : CaseResult}
    (same : (results.map CaseResult.caseId)[index]? = some result.caseId) :
    (results.set index result).map CaseResult.caseId = results.map CaseResult.caseId := by
  rw [List.map_set]
  refine List.ext_getElem? fun other => ?_
  rw [List.getElem?_set]
  split
  next here =>
    subst here
    split
    next => exact same.symm
    next outside => rw [List.getElem?_eq_none (by simpa using outside)]
  next => rfl

/-! ### Manifests -/

/-- A manifest lists the planned cases, all of them mandatory. -/
structure Realizes (checked : LoadedVerifier) (cases : List RealizedCase) : Prop where
  ids : cases.map RealizedCase.caseId = checked.cases.map fun case => case.caseId.val
  mandatory : ∀ case ∈ cases, case.mandatory = true

theorem realize_eq_ok {planned : PlannedCase} {case : RealizedCase} (realized : realize planned = .ok case) :
    case.caseId = planned.caseId.val ∧ case.mandatory = true := by
  rw [realize] at realized
  split at realized
  · obtain rfl := Except.ok.inj realized
    exact ⟨rfl, rfl⟩
  · cases realized

theorem realize_all {planned : List PlannedCase} {start result : List RealizedCase}
    (folded : foldAll (fun cases case => do
      let realized ← realize case
      .ok (cases ++ [realized])) start planned = .ok result)
    (mandatory : ∀ case ∈ start, case.mandatory = true) :
    result.map RealizedCase.caseId = start.map RealizedCase.caseId ++
      planned.map (fun case => case.caseId.val) ∧ ∀ case ∈ result, case.mandatory = true := by
  induction planned generalizing start with
  | nil =>
      obtain rfl := Except.ok.inj folded
      exact ⟨by simp, mandatory⟩
  | cons case rest ih =>
      obtain ⟨next, step, later⟩ := foldAll_cons_eq_ok.mp folded
      obtain ⟨realized, made, same⟩ := bind_eq_ok.mp step
      obtain rfl := Except.ok.inj same
      obtain ⟨name, required⟩ := realize_eq_ok made
      obtain ⟨ids, all⟩ := ih later (by
        intro other member
        rcases List.mem_append.mp member with before | here
        · exact mandatory other before
        · rw [List.mem_singleton.mp here]
          exact required)
      refine ⟨?_, all⟩
      rw [ids, List.map_append, List.map_singleton, name, List.append_assoc]
      rfl

theorem realizes_of_materialize {checked : LoadedVerifier} {cases : List RealizedCase}
    (manifest : materializeManifest checked = .ok cases) : Realizes checked cases := by
  obtain ⟨ids, mandatory⟩ := realize_all manifest (by simp)
  exact ⟨by simpa using ids, mandatory⟩

theorem Realizes.length {checked : LoadedVerifier} {cases : List RealizedCase}
    (realizes : Realizes checked cases) : cases.length = checked.cases.length := by
  simpa using congrArg List.length realizes.ids

theorem Realizes.unique {checked : LoadedVerifier} {cases : List RealizedCase}
    (realizes : Realizes checked cases) : (cases.map RealizedCase.caseId).Nodup := by
  rw [realizes.ids]
  have injective := checked.unique.map Subtype.val_injective
  rwa [List.map_map] at injective

/-! ### Grading the cases -/

/-- The verdict so far: everything matched, or the candidate failed at some case. -/
inductive SoFar (index : Nat) (progress : Progress) : Prop
  | matching (disposition : progress.disposition = .success) (reward : progress.reward = some 1)
      (matched : ∀ other < index, Event.matched other ∈ progress.events)
      (settled : ∀ other < index, ∃ result, progress.results[other]? = some result ∧ Settles result)
  | failed (disposition : progress.disposition = .rejected) (reward : progress.reward = some 0)
      (fault : ∃ event ∈ progress.events, event.fault = true)
      (missed : ∃ other < index, Event.matched other ∉ progress.events)

/-- What holds before the case at an index. -/
structure Grades (cases : List RealizedCase) (index : Nat) (progress : Progress) : Prop where
  bounded : isBoundedReason progress.reason = true
  ids : progress.results.map CaseResult.caseId = cases.map RealizedCase.caseId
  manifest : progress.manifest ≠ none
  source : progress.source ≠ none
  buildEvidence : progress.buildEvidence ≠ none
  opened : progress.opened = true
  cleanup : progress.cleanup = true
  built : Event.built ∈ progress.events
  clean : Clean progress.events
  ahead : Ahead index progress.events
  soFar : SoFar index progress

variable {services : Services} {checked : LoadedVerifier} {cases : List RealizedCase} {index : Nat}

theorem Grades.sane (grades : Grades cases index progress) (realizes : Realizes checked cases) :
    Sane progress := ⟨grades.ids ▸ realizes.unique, grades.bounded⟩

/-- A run that raises at a case has not matched that case. -/
theorem Grades.raising (grades : Grades cases index progress) (loaded : services.loadVerifier = .ok checked)
    (realizes : Realizes checked cases) (within : index < cases.length) {exception : Raised} :
    Raising services exception { progress with events := progress.events ++ [.raised exception] } := by
  refine Raising.of_call (grades.sane realizes) grades.cleanup grades.clean (grades.ahead.missed ?_)
  intro other same
  rw [loaded] at same
  rw [← Except.ok.inj same, ← realizes.length]
  exact within

/-- After the last case the verdict is final. -/
theorem Grades.concludes (grades : Grades cases cases.length progress)
    (loaded : services.loadVerifier = .ok checked) (realizes : Realizes checked cases) :
    Concludes services () progress := by
  refine ⟨grades.sane realizes, ?_⟩
  have length : progress.results.length = cases.length := by
    simpa using congrArg List.length grades.ids
  rcases grades.soFar with ⟨disposition, reward, matched, settled⟩ |
    ⟨disposition, reward, fault, other, inside, absent⟩
  · refine .passed checked loaded disposition reward grades.clean grades.cleanup grades.opened
      grades.built ?_ grades.manifest grades.source grades.buildEvidence ?_ ?_
    · intro other below
      exact matched other (realizes.length ▸ below)
    · intro empty
      have counted := checked.counted.1
      rw [empty, realizes.length] at length
      simp only [List.length_nil] at length
      omega
    · intro result member
      obtain ⟨other, inside, rfl⟩ := List.mem_iff_getElem.mp member
      obtain ⟨found, same, settles⟩ := settled other (length ▸ inside)
      rw [List.getElem?_eq_getElem inside] at same
      rw [Option.some.inj same]
      exact settles
  · refine .rejected disposition reward grades.clean fault grades.cleanup ?_
    intro found same
    rw [loaded] at same
    exact ⟨other, by rw [← Except.ok.inj same, ← realizes.length]; exact inside, absent⟩

/-- The worker ran the case at this index and was cleaned up. -/
theorem Grades.proceed (grades : Grades cases index progress) {event : Event}
    (harmless : event.spoils = false) (other : ∀ index, event ≠ .matched index) (evidence : ArtifactRef) :
    Grades cases index { progress with
      events := progress.events ++ [event]
      runtimeEvidence := progress.runtimeEvidence ++ [evidence]
      cleanup := true } where
  bounded := grades.bounded
  ids := grades.ids
  manifest := grades.manifest
  source := grades.source
  buildEvidence := grades.buildEvidence
  opened := grades.opened
  cleanup := rfl
  built := List.mem_append_left _ grades.built
  clean := grades.clean.append harmless
  ahead := grades.ahead.append other
  soFar := by
    rcases grades.soFar with ⟨disposition, reward, matched, settled⟩ |
      ⟨disposition, reward, ⟨event, member, fault⟩, missing, below, absent⟩
    · exact .matching disposition reward
        (fun other below => List.mem_append_left _ (matched other below)) settled
    · refine .failed disposition reward ⟨event, List.mem_append_left _ member, fault⟩
        ⟨missing, below, fun found => ?_⟩
      rcases List.mem_append.mp found with before | here
      · exact absent before
      · exact other missing (List.mem_singleton.mp here).symm

/-- The candidate failed at this case: the reward stays zero. -/
theorem Grades.fail (grades : Grades cases index progress) {events : List Event}
    (keeps : ∀ event ∈ progress.events, event ∈ events) (clean : Clean events)
    (ahead : Ahead index events) (fault : ∃ event ∈ events, event.fault = true)
    {reason : String} (bounded : isBoundedReason reason = true) {results : List CaseResult}
    (ids : results.map CaseResult.caseId = cases.map RealizedCase.caseId) :
    Grades cases (index + 1) { progress with
      events, results, disposition := .rejected, reward := some 0, reason } where
  bounded := bounded
  ids := ids
  manifest := grades.manifest
  source := grades.source
  buildEvidence := grades.buildEvidence
  opened := grades.opened
  cleanup := grades.cleanup
  built := keeps _ grades.built
  clean := clean
  ahead other member := Nat.lt_succ_of_lt (ahead other member)
  soFar := .failed rfl rfl fault
    ⟨index, Nat.lt_succ_self index, fun member => Nat.lt_irrefl _ (ahead index member)⟩

/-- The case at this index matched. -/
theorem Grades.settle (grades : Grades cases index progress) {result : CaseResult}
    (settles : Settles result) (inside : index < progress.results.length)
    (ids : (progress.results.set index result).map CaseResult.caseId = cases.map RealizedCase.caseId) :
    Grades cases (index + 1) { progress with
      events := progress.events ++ [.matched index]
      results := progress.results.set index result } where
  bounded := grades.bounded
  ids := ids
  manifest := grades.manifest
  source := grades.source
  buildEvidence := grades.buildEvidence
  opened := grades.opened
  cleanup := grades.cleanup
  built := List.mem_append_left _ grades.built
  clean := grades.clean.append rfl
  ahead other member := by
    rcases List.mem_append.mp member with before | here
    · exact Nat.lt_succ_of_lt (grades.ahead other before)
    · obtain rfl : other = index := by simpa using here
      exact Nat.lt_succ_self other
  soFar := by
    rcases grades.soFar with ⟨disposition, reward, matched, settled⟩ |
      ⟨disposition, reward, ⟨event, member, fault⟩, missing, below, absent⟩
    · refine .matching disposition reward (fun other below => ?_) (fun other below => ?_)
      · by_cases here : other = index
        · subst here
          simp
        · exact List.mem_append_left _ (matched other (by omega))
      · by_cases here : other = index
        · subst here
          exact ⟨result, by simp [inside], settles⟩
        · obtain ⟨found, same, done⟩ := settled other (by omega)
          exact ⟨found, by rw [List.getElem?_set_ne (Ne.symm here)]; exact same, done⟩
    · refine .failed disposition reward ⟨event, List.mem_append_left _ member, fault⟩
        ⟨missing, by omega, fun found => ?_⟩
      rcases List.mem_append.mp found with before | here
      · exact absent before
      · obtain rfl : missing = index := by simpa using here
        exact Nat.lt_irrefl _ below

theorem Grades.set_ids (grades : Grades cases index progress) {case : RealizedCase}
    (here : cases[index]? = some case) {result : CaseResult} (same : result.caseId = case.caseId) :
    (progress.results.set index result).map CaseResult.caseId = cases.map RealizedCase.caseId := by
  rw [map_caseId_set, grades.ids]
  rw [grades.ids, List.getElem?_map, here, same]
  rfl

theorem Grades.inside (grades : Grades cases index progress) {case : RealizedCase}
    (here : cases[index]? = some case) : index < progress.results.length := by
  have length : progress.results.length = cases.length := by
    simpa using congrArg List.length grades.ids
  rw [length]
  exact (List.getElem?_eq_some_iff.mp here).1

theorem observe_error {output : ExecutionResult} {cap : Nat} {exception : Raised}
    (failed : observe output cap = .error exception) : ∃ message, exception = .value message := by
  rw [observe] at failed
  split at failed
  · exact ⟨_, (Except.error.inj failed).symm⟩
  · split at failed
    · exact ⟨_, (Except.error.inj failed).symm⟩
    · split at failed
      · exact ⟨_, (Except.error.inj failed).symm⟩
      · cases failed

/-- Comparing a case never raises: the case matches or the candidate fails. -/
theorem compareOrReject_ends (grades : Grades cases index progress) (planned : PlannedCase)
    {case : RealizedCase} (here : cases[index]? = some case) (mandatory : case.mandatory = true)
    (output : ExecutionResult) :
    (compareOrReject checked index planned case output).Ends progress
      (fun _ after => Grades cases (index + 1) after) failed := by
  rw [compareOrReject, ends_catching, compare, ends_bind, ends_lift]
  constructor
  · intro observed _
    rw [ends_bind, ends_setResult (create_completed case _ _), ends_bind, ends_note]
    by_cases passed : observationMatches planned.mode observed planned.expected = true
    · rw [if_pos passed, if_neg (by simp [passed]), ends_pure]
      refine grades.settle ⟨mandatory, rfl, by rw [passed]⟩ (grades.inside here)
        (grades.set_ids here rfl)
    · rw [if_neg passed, if_pos ⟨mandatory, by simpa using passed⟩, ends_judge]
      exact grades.fail (fun event member => List.mem_append_left _ member) (grades.clean.append rfl)
        (grades.ahead.append (by simp)) ⟨.mismatched index, by simp, rfl⟩ (by decide)
        (grades.set_ids here rfl)
  · intro exception raised
    obtain ⟨message, rfl⟩ := observe_error raised
    have bounded : isBoundedReason ("observation protocol violation: " ++ clip 800 message) = true :=
      isBoundedReason_clip _ _ _ (by decide)
    rw [ends_bind, ends_note, ends_bind, ends_judge,
      ends_setResult (create_uncompared case.caseId case.mandatory (by simp) _ bounded)]
    exact grades.fail (fun event member => List.mem_append_left _ member) (grades.clean.append rfl)
      (grades.ahead.append (by simp)) ⟨.protocolViolation index, by simp, rfl⟩ bounded
      (grades.set_ids here rfl)

/-- From the case at an index to the last one: a verdict, or an exception. -/
theorem gradeCases_ends (loaded : services.loadVerifier = .ok checked) (realizes : Realizes checked cases)
    {remaining : List (PlannedCase × RealizedCase)}
    (same : (checked.cases.zip cases).drop index = remaining) (within : index ≤ cases.length)
    (grades : Grades cases index progress) :
    (gradeCases services checked index remaining).Ends progress (Concludes services)
      (Raising services) := by
  induction remaining generalizing index progress with
  | nil =>
      have total : (checked.cases.zip cases).length = cases.length := by
        rw [List.length_zip, realizes.length, Nat.min_self]
      have all : index = cases.length := by
        have := List.drop_eq_nil_iff.mp same
        omega
      subst all
      rw [gradeCases, ends_pure]
      exact grades.concludes loaded realizes
  | cons pair rest ih =>
      obtain ⟨planned, case⟩ := pair
      have head : (checked.cases.zip cases)[index]? = some (planned, case) := by
        rw [← List.head?_drop, same]
        rfl
      have here : cases[index]? = some case := (List.getElem?_zip_eq_some.mp head).2
      have below : index < cases.length := (List.getElem?_eq_some_iff.mp here).1
      have mandatory := realizes.mandatory case (List.mem_of_getElem? here)
      have next : (checked.cases.zip cases).drop (index + 1) = rest := by
        rw [← List.drop_drop, same]
        rfl
      rw [gradeCases]
      have missed : ∀ events, Ahead index events → Missed services events :=
        fun events ahead => ahead.missed fun other found => by
          rw [loaded] at found
          rw [← Except.ok.inj found, ← realizes.length]
          exact below
      by_cases late : services.late index = true
      · rw [if_pos late, ends_bind, ends_note, ends_judge]
        have ahead : Ahead index (progress.events ++ [.budgetExceeded]) := grades.ahead.append (by simp)
        have bounded : isBoundedReason "declared total grading wall budget exceeded" = true := by decide
        exact ⟨⟨(grades.sane realizes).unique, bounded⟩, .rejected rfl rfl (grades.clean.append rfl)
          ⟨.budgetExceeded, by simp, rfl⟩ grades.cleanup (missed _ ahead)⟩
      · rw [if_neg late, ends_bind]
        refine ends_call (fun _ _ => ?_) (fun _ _ => grades.raising loaded realizes below)
        rw [ends_bind]
        refine ends_call (fun output _ => ?_) (fun _ _ => grades.raising loaded realizes below)
        rw [ends_bind, ends_note, ends_bind, ends_addEvidence, ends_bind, ends_modify]
        have ahead : Ahead index (progress.events ++ [.worker output]) := grades.ahead.append (by simp)
        by_cases broken : output.cleanupVerified = false ∨
            output.failureCategory ∈ [FailureCategory.infrastructure, FailureCategory.unresolved]
        · have bounded : isBoundedReason ("worker " ++ output.reason.name) = true :=
            isBoundedReason_append (by decide) (length_name_le output.reason)
          rw [if_pos broken, ends_bind, ends_judge,
            ends_setResult (create_uncompared case.caseId case.mandatory (by simp) _ bounded)]
          refine ⟨⟨?_, bounded⟩, .unmeasured ?_ rfl ⟨.worker output, by simp, ?_⟩ (missed _ ahead)⟩
          · rw [grades.set_ids here rfl]
            exact realizes.unique
          · by_cases invalid : output.cleanupVerified = true ∧ output.failureCategory = .unresolved
            · simp [invalid]
            · simp [invalid]
          · simpa [Event.spoils, Event.broken, Event.unusable] using broken
        · rw [if_neg broken]
          obtain ⟨verified, counted⟩ := not_or.mp broken
          have cleaned : output.cleanupVerified = true := by simpa using verified
          have harmless : (Event.worker output).spoils = false := by
            simpa [Event.spoils, Event.broken, Event.unusable] using broken
          have proceeds := grades.proceed harmless (by simp) output.evidence
          rw [← cleaned] at proceeds
          by_cases stopped : output.reason ∉ [WorkerReason.completed, WorkerReason.commandFailed]
          · have bounded : isBoundedReason ("candidate " ++ output.reason.name) = true :=
              isBoundedReason_append (by decide) (length_name_le output.reason)
            rw [if_pos stopped, ends_bind, ends_judge, ends_bind,
              ends_setResult (create_uncompared case.caseId case.mandatory (by simp) _ bounded)]
            refine ih next below (proceeds.fail (fun _ member => member) proceeds.clean proceeds.ahead
              ⟨.worker output, by simp, ?_⟩ bounded (proceeds.set_ids here rfl))
            simp only [Event.fault, decide_eq_true_eq]
            exact ⟨cleaned, counted, stopped⟩
          · rw [if_neg stopped, ends_bind]
            exact (compareOrReject_ends proceeds planned here mandatory output).mono
              (fun _ _ grades => ih next below grades) (fun _ _ raising => raising)

/-! ### Building and resolving -/

/-- What holds before the build. -/
structure Begun (checked : LoadedVerifier) (cases : List RealizedCase) (progress : Progress) : Prop where
  bounded : isBoundedReason progress.reason = true
  ids : progress.results.map CaseResult.caseId = cases.map RealizedCase.caseId
  cleanup : progress.cleanup = true
  clean : Clean progress.events
  ahead : Ahead 0 progress.events

theorem Begun.sane (begun : Begun checked cases progress) (realizes : Realizes checked cases) :
    Sane progress := ⟨begun.ids ▸ realizes.unique, begun.bounded⟩

/-- There is a case to miss. -/
theorem missed_of_ahead {events : List Event} (ahead : Ahead 0 events) : Missed services events :=
  ahead.missed fun other _ => other.counted.1

theorem Begun.raising (begun : Begun checked cases progress) (realizes : Realizes checked cases)
    {exception : Raised} :
    Raising services exception { progress with events := progress.events ++ [.raised exception] } :=
  Raising.of_call (begun.sane realizes) begun.cleanup begun.clean (missed_of_ahead begun.ahead)

theorem rejectBuild_ends (begun : Begun checked cases progress) (realizes : Realizes checked cases)
    (failure : BuildFailed) :
    (rejectBuild failure).Ends progress (Concludes services) failed := by
  have bounded : isBoundedReason ("build " ++ failure.reason.name) = true :=
    isBoundedReason_append (by decide) (length_name_le failure.reason)
  have sane := begun.sane realizes
  have missed : Missed services (progress.events ++ [.buildFailed failure]) :=
    (missed_of_ahead begun.ahead).append (by simp)
  rw [rejectBuild, ends_bind, ends_note, ends_bind, ends_modify, ends_bind, ends_addEvidence, ends_judge]
  refine ⟨⟨sane.unique, bounded⟩, ?_⟩
  by_cases attributed : failure.failureCategory = .candidate ∧ failure.cleanupVerified = true
  · obtain ⟨candidate, verified⟩ := attributed
    refine .rejected (by simp [candidate, verified]) (by simp [candidate, verified])
      (begun.clean.append ?_) ⟨.buildFailed failure, by simp, ?_⟩ verified missed
    · simp [Event.spoils, Event.broken, Event.unusable, candidate, verified]
    · simp [Event.fault, candidate, verified]
  · have spoiled : (Event.buildFailed failure).spoils = true := by
      by_cases candidate : failure.failureCategory = .candidate
      · have unverified : failure.cleanupVerified = false := by simpa [candidate] using attributed
        simp [Event.spoils, Event.broken, unverified]
      · simp [Event.spoils, Event.broken, candidate]
    by_cases unresolved : failure.failureCategory = .unresolved ∧ failure.cleanupVerified = true
    · exact .unmeasured (by simp [unresolved]) (by simp [unresolved])
        ⟨.buildFailed failure, by simp, spoiled⟩ missed
    · exact .unmeasured (by simp [unresolved, attributed]) (by simp [unresolved, attributed])
        ⟨.buildFailed failure, by simp, spoiled⟩ missed

theorem buildAndGrade_ends (begun : Begun checked cases progress)
    (loaded : services.loadVerifier = .ok checked) (realizes : Realizes checked cases)
    (manifest : progress.manifest ≠ none) (source : progress.source ≠ none)
    (opened : progress.opened = true) :
    (buildAndGrade services checked cases).Ends progress (Concludes services) (Raising services) := by
  rw [buildAndGrade]
  split
  next failure _ _ => exact rejectBuild_ends begun realizes failure
  next =>
    rw [ends_bind]
    refine ends_call (fun evidence _ => ?_) (fun _ _ => begun.raising realizes)
    rw [ends_bind, ends_note, ends_bind, ends_modify, ends_bind, ends_addEvidence, ends_bind, ends_judge]
    have bounded : isBoundedReason "all repository observations match frozen H outputs" = true := by decide
    have ahead : Ahead 0 (progress.events ++ [.built]) := begun.ahead.append (by simp)
    refine gradeCases_ends loaded realizes List.drop_zero (Nat.zero_le _) ?_
    exact ⟨bounded, begun.ids, manifest, source, by simp, opened, begun.cleanup, by simp,
      begun.clean.append rfl, ahead, .matching rfl rfl (by simp) (by simp)⟩

theorem gradeSubmission_ends (begun : Begun checked cases progress)
    (loaded : services.loadVerifier = .ok checked) (realizes : Realizes checked cases)
    (manifest : progress.manifest ≠ none) :
    (gradeSubmission services checked cases).Ends progress (Concludes services) (Raising services) := by
  rw [gradeSubmission, ends_bind]
  refine ends_call (fun source _ => ?_) (fun _ _ => begun.raising realizes)
  rw [ends_bind, ends_modify, ends_bind]
  have begun : Begun checked cases { progress with source := some source } :=
    ⟨begun.bounded, begun.ids, begun.cleanup, begun.clean, begun.ahead⟩
  refine ends_call (fun _ _ => ?_) (fun _ _ => begun.raising realizes)
  rw [ends_bind]
  refine ends_call (fun _ _ => ?_) (fun _ _ => begun.raising realizes)
  rw [ends_bind, ends_modify]
  exact buildAndGrade_ends ⟨begun.bounded, begun.ids, begun.cleanup, begun.clean, begun.ahead⟩ loaded
    realizes manifest (by simp) rfl

theorem rejectSubmission_ends (begun : Begun checked cases progress) (realizes : Realizes checked cases)
    (message : String) : (rejectSubmission message).Ends progress (Concludes services) failed := by
  have bounded : isBoundedReason ("source submission rejected: " ++ clip 800 message) = true :=
    isBoundedReason_clip _ _ _ (by decide)
  have sane := begun.sane realizes
  rw [rejectSubmission, ends_bind, ends_note, ends_judge]
  exact ⟨⟨sane.unique, bounded⟩, .rejected rfl rfl (begun.clean.append rfl)
    ⟨.submissionRejected, by simp, rfl⟩ begun.cleanup ((missed_of_ahead begun.ahead).append (by simp))⟩

theorem notRun_all {cases : List RealizedCase} {start : List CaseResult} :
    foldAll (fun results case => do
      let result ← CaseResult.create (notRun case)
      .ok (results ++ [result])) start cases = .ok (start ++ cases.map notRun) := by
  induction cases generalizing start with
  | nil => simp
  | cons case rest ih =>
      have made : CaseResult.create (notRun case) = .ok (notRun case) :=
        create_uncompared case.caseId case.mandatory (by simp) none (by decide)
      rw [foldAll, made]
      refine ih.trans ?_
      rw [List.map_cons, List.append_assoc, List.singleton_append]

theorem attempt_ends : (attempt services).Ends Progress.start (Concludes services) (Raising services) := by
  have sane : Sane Progress.start := ⟨by simp [Progress.start], by decide⟩
  have clean : Clean Progress.start.events := by simp [Clean, Progress.start]
  have ahead : Ahead 0 Progress.start.events := by simp [Ahead, Progress.start]
  have raising : ∀ {exception : Raised}, Raising services exception
      { Progress.start with events := Progress.start.events ++ [.raised exception] } :=
    Raising.of_call sane rfl clean (missed_of_ahead ahead)
  rw [attempt, ends_bind]
  refine ends_call (fun checked loaded => ?_) (fun _ _ => raising)
  rw [ends_bind]
  refine ends_call (fun _ _ => ?_) (fun _ _ => raising)
  rw [ends_bind, ends_modify, ends_bind]
  have verified : Sane { Progress.start with verifier := some checked.verifier } := ⟨sane.unique, sane.bounded⟩
  refine ends_call (fun cases manifest => ?_)
    (fun _ _ => Raising.of_call verified rfl clean (missed_of_ahead ahead))
  have realizes := realizes_of_materialize manifest
  have begun : Begun checked cases { Progress.start with
      verifier := some checked.verifier
      results := cases.map notRun } := ⟨sane.bounded, by simp [notRun], rfl, clean, ahead⟩
  rw [ends_bind, notRun_all, ends_lift_ok, List.nil_append, ends_bind, ends_modify, ends_bind]
  refine ends_call (fun manifest _ => ?_) (fun _ _ => begun.raising realizes)
  rw [ends_bind, ends_modify]
  have begun : Begun checked cases { Progress.start with
      verifier := some checked.verifier
      results := cases.map notRun
      manifest := some manifest } :=
    ⟨begun.bounded, begun.ids, begun.cleanup, begun.clean, begun.ahead⟩
  split
  next => exact rejectSubmission_ends begun realizes _
  next => exact rejectSubmission_ends begun realizes _
  next =>
    rw [ends_bind]
    refine ends_call (fun _ _ => ?_) (fun _ _ => begun.raising realizes)
    exact gradeSubmission_ends begun loaded realizes (by simp)

end Grading

end FeatureRl
