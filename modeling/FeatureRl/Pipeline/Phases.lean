import FeatureRl.Pipeline.Workflow
import FeatureRl.Registry.Jobs

/-! Phases of the workflow are run at most once and frozen at most once, whatever stops between. -/

namespace FeatureRl

namespace Workflow

section

variable {setting : Setting}

/-! ### Receipts -/

theorem filter_addReceipts (test : ArtifactRef → Bool) (receipts refs : List ArtifactRef) :
    (addReceipts receipts refs).filter test = addReceipts (receipts.filter test) (refs.filter test) := by
  induction refs generalizing receipts with
  | nil => rfl
  | cons ref rest ih =>
      rw [addReceipts, List.foldl_cons, ← addReceipts, ih]
      by_cases chosen : test ref = true
      · rw [List.filter_cons_of_pos chosen]
        conv_rhs => rw [addReceipts, List.foldl_cons, ← addReceipts]
        by_cases known : ref ∈ receipts
        · rw [if_pos known, if_pos (List.mem_filter.mpr ⟨known, chosen⟩)]
        · rw [if_neg known, if_neg fun inside => known (List.mem_filter.mp inside).1, List.filter_append,
            List.filter_cons_of_pos chosen, List.filter_nil]
      · rw [List.filter_cons_of_neg chosen]
        split
        next => rfl
        next => rw [List.filter_append, List.filter_cons_of_neg chosen, List.filter_nil, List.append_nil]

theorem selected_extend (previous : Option Snapshot) (refs : List ArtifactRef) (costs : List CostRecord) :
    (Snapshot.extend setting previous refs costs).selected =
      addReceipts ((previous.map Snapshot.selected).getD []) (refs.filter fun ref => ref.kind.val = stepKind) := by
  cases previous <;> simp only [Snapshot.selected, Snapshot.extend, filter_addReceipts] <;> rfl

theorem selected_extend_other {previous : Option Snapshot} {refs : List ArtifactRef} (costs : List CostRecord)
    (other : ∀ ref ∈ refs, ref.kind.val ≠ stepKind) :
    (Snapshot.extend setting previous refs costs).selected = (previous.map Snapshot.selected).getD [] := by
  rw [selected_extend, List.filter_eq_nil_iff.mpr (by simpa using other)]
  rfl

theorem selected_extend_step {snapshot : Snapshot} (unselected : snapshot.selected = []) (step : FeatureStep)
    (costs : List CostRecord) :
    (Snapshot.extend setting (some snapshot) [setting.stepRef step] costs).selected = [setting.stepRef step] := by
  rw [selected_extend, List.filter_cons_of_pos (by simp [setting.stepRef_kind])]
  simp [unselected, addReceipts]

theorem selected_extend_known {snapshot : Snapshot} {ref : ArtifactRef} (known : ref ∈ snapshot.receipts)
    (costs : List CostRecord) :
    (Snapshot.extend setting (some snapshot) [ref] costs).selected = snapshot.selected := by
  simp [Snapshot.selected, Snapshot.extend, addReceipts, known]

theorem mem_selectedSteps {ledger : Ledger} {ref : ArtifactRef} :
    ref ∈ selectedSteps setting ledger ↔
      ∃ source snapshot, ledger.get? source = some snapshot ∧ ref ∈ snapshot.selected := by
  simp only [selectedSteps, rows, List.mem_flatMap, Sorting.mem_sortBy, Prod.exists, Dict.mem_entries]

/-- The intent of a step that passed its check. -/
theorem intent_of_checkStep {ledger : Ledger} {step : FeatureStep} {snapshot : Snapshot}
    (checked : checkStep setting ledger step = true)
    (known : ledger.get? (.phase step.key) = some snapshot) : step.inputs ∈ snapshot.receipts := by
  simp only [checkStep, known, Bool.and_eq_true, decide_eq_true_eq] at checked
  exact checked.1.2

/-! ### The invariant -/

/-- The outcome lists the one step of each phase and of nothing else. -/
structure Resolves (ledger : Ledger) (outcome : FeatureOutcome) : Prop where
  phases : ∀ key snapshot, ledger.get? (.phase key) = some snapshot →
    ∃ ref ∈ outcome.steps, snapshot.selected = [ref]
  only : ∀ ref ∈ outcome.steps, ∃ key snapshot, ledger.get? (.phase key) = some snapshot ∧
    snapshot.selected = [ref]

theorem put_eq_some {α : Type} [DecidableEq α] {objects after : Dict ArtifactRef α} {ref : ArtifactRef}
    {value : α} (written : put objects ref value = some after) :
    after.get? ref = some value ∧ ∀ other found, objects.get? other = some found → after.get? other = some found := by
  rw [put] at written
  split at written
  next absent =>
    obtain rfl := Option.some.inj written
    refine ⟨Dict.get?_set_self _ _ _, fun other found present => ?_⟩
    rw [Dict.get?_set_ne]
    · exact present
    · rintro rfl
      rw [absent] at present
      cases present
  next old present =>
    split at written
    next same =>
      obtain rfl := Option.some.inj written
      exact ⟨same ▸ present, fun _ _ found => found⟩
    next => cases written

/-- A phase whose selected step has this output. -/
def Selects (system : System) (key : Key) (output : StepOutput) : Prop :=
  ∃ snapshot ref step, system.ledger.get? (.phase key) = some snapshot ∧ snapshot.selected = [ref] ∧
    system.steps.get? ref = some step ∧ step.output = output

def Unselected (system : System) (key : Key) : Prop :=
  ∃ snapshot, system.ledger.get? (.phase key) = some snapshot ∧ snapshot.selected = []

def CallHolds (setting : Setting) (system : System) : Progress → Prop
  | .intended _ key _ => (∃ snapshot, system.ledger.get? (.phase key) = some snapshot) ∧
      (key.isChild = false → key ∉ system.executed)
  | .recorded _ step => Unselected system step.key
  | .stored _ step => Unselected system step.key ∧ system.steps.get? (setting.stepRef step) = some step
  | .frozen outcome => Resolves system.ledger outcome ∧ system.completed = none
  | .completing outcome => Resolves system.ledger outcome
  | _ => True

structure Tracks (setting : Setting) (system : System) : Prop where
  single : ∀ key snapshot, system.ledger.get? (.phase key) = some snapshot → snapshot.selected.length ≤ 1
  completion : ∀ snapshot, system.ledger.get? .completion = some snapshot → snapshot.selected = []
  used : ∀ key output, (key, output) ∈ system.used → Selects system key output
  once : ∀ key, key.isChild = false → system.executed.count key ≤ 1
  intended : ∀ key ∈ system.executed, ∃ snapshot, system.ledger.get? (.phase key) = some snapshot
  call : ∀ progress ∈ system.call, CallHolds setting system progress
  completed : ∀ outcome completion, system.completed = some (outcome, completion) →
    Resolves system.ledger outcome ∧ completion = completionOf setting system.ledger outcome

namespace Tracks

/-- A change of the call alone. -/
theorem progress {system : System} (tracks : Tracks setting system) {call : Option Progress}
    (holds : ∀ progress ∈ call, CallHolds setting system progress) : Tracks setting { system with call := call } where
  single := tracks.single
  completion := tracks.completion
  used := tracks.used
  once := tracks.once
  intended := tracks.intended
  call progress member := by
    have holdsHere := holds progress member
    cases progress <;> exact holdsHere
  completed := tracks.completed

theorem callHolds_continueWith {system : System} {stage : Option Stage} {output : StepOutput}
    {unavailable : Bool} : ∀ progress ∈ continueWith stage output unavailable, CallHolds setting system progress := by
  intro progress member
  cases stage with
  | none =>
      obtain rfl := Option.some.inj member
      trivial
  | some stage =>
      simp only [continueWith] at member
      split at member
      next => obtain rfl := Option.some.inj member; trivial
      next => obtain rfl := Option.some.inj member; trivial
      next => cases member

/-- Going on with a selected output. -/
theorem use {system : System} (tracks : Tracks setting system) {key : Key} {output : StepOutput}
    (selects : Selects system key output) {stage : Option Stage} {unavailable : Bool} :
    Tracks setting { system with
      call := continueWith stage output unavailable, used := system.used ++ [(key, output)] } := by
  refine ⟨tracks.single, tracks.completion, ?_, tracks.once, tracks.intended, callHolds_continueWith,
    tracks.completed⟩
  intro other found member
  rcases List.mem_append.mp member with earlier | last
  · exact tracks.used other found earlier
  · obtain ⟨rfl, rfl⟩ := Prod.mk.inj (List.mem_singleton.mp last)
    exact selects

/-- A new snapshot of a phase that had not selected a step. -/
theorem observe_phase {system : System} (tracks : Tracks setting system) {key : Key} {refs : List ArtifactRef}
    {costs : List CostRecord} (before : ∀ snapshot, system.ledger.get? (.phase key) = some snapshot →
      snapshot.selected = [])
    (after : (Snapshot.extend setting (system.ledger.get? (.phase key)) refs costs).selected.length ≤ 1)
    (unfinished : system.completed = none) {call : Option Progress}
    (holds : ∀ progress ∈ call, CallHolds setting
      { system with ledger := observe setting system.ledger (.phase key) refs costs } progress) :
    Tracks setting { system with
      ledger := observe setting system.ledger (.phase key) refs costs, call := call } where
  single other snapshot found := by
    change (observe setting system.ledger (.phase key) refs costs).get? _ = _ at found
    rw [observe, Dict.get?_set] at found
    split at found
    next => obtain rfl := Option.some.inj found; exact after
    next => exact tracks.single other snapshot found
  completion snapshot found := by
    change (observe setting system.ledger (.phase key) refs costs).get? _ = _ at found
    rw [observe, Dict.get?_set_ne _ _ (by simp)] at found
    exact tracks.completion snapshot found
  used other output member := by
    obtain ⟨snapshot, ref, step, found, selected, read, same⟩ := tracks.used other output member
    refine ⟨snapshot, ref, step, ?_, selected, read, same⟩
    change (observe setting system.ledger (.phase key) refs costs).get? _ = _
    rw [observe, Dict.get?_set_ne]
    · exact found
    · intro equal
      rw [equal] at found
      rw [before snapshot found] at selected
      cases selected
  once := tracks.once
  intended other member := by
    obtain ⟨snapshot, found⟩ := tracks.intended other member
    change ∃ snapshot, (observe setting system.ledger (.phase key) refs costs).get? _ = some snapshot
    rw [observe, Dict.get?_set]
    split
    next => exact ⟨_, rfl⟩
    next => exact ⟨snapshot, found⟩
  call progress member := by
    have holdsHere := holds progress member
    cases progress <;> exact holdsHere
  completed outcome completion found := by
    change system.completed = _ at found
    rw [unfinished] at found
    cases found

/-- A job whose phases all have a step does not lose or gain one. -/
theorem unfinished {system : System} (tracks : Tracks setting system) {key : Key} {snapshot : Snapshot}
    (found : system.ledger.get? (.phase key) = some snapshot) (unselected : snapshot.selected = []) :
    system.completed = none := by
  cases done : system.completed with
  | none => rfl
  | some finished =>
      obtain ⟨ref, _, selected⟩ := (tracks.completed finished.1 finished.2 done).1.phases key snapshot found
      rw [unselected] at selected
      cases selected

theorem resolves {system : System} (tracks : Tracks setting system) {outcome : FeatureOutcome}
    (publishable : Publishable setting system.ledger system.steps outcome) : Resolves system.ledger outcome where
  phases key snapshot found := by
    have one := publishable.resolved (.phase key) snapshot found (by simp)
    obtain ⟨ref, selected⟩ := List.length_eq_one_iff.mp one
    refine ⟨ref, (publishable.listed ref).mpr (mem_selectedSteps.mpr ⟨_, snapshot, found, ?_⟩), selected⟩
    rw [selected]
    exact List.mem_singleton_self ref
  only ref listed := by
    obtain ⟨source, snapshot, found, inside⟩ := mem_selectedSteps.mp ((publishable.listed ref).mp listed)
    cases source with
    | completion =>
        rw [tracks.completion snapshot found] at inside
        cases inside
    | phase key =>
        obtain ⟨other, selected⟩ :=
          List.length_eq_one_iff.mp (publishable.resolved (.phase key) snapshot found (by simp))
        rw [selected] at inside
        obtain rfl := List.mem_singleton.mp inside
        exact ⟨key, snapshot, found, selected⟩

theorem execute {system : System} (tracks : Tracks setting system) {stage : Stage} {key : Key}
    {inputs : ArtifactRef} (here : system.call = some (.intended stage key inputs)) :
    Tracks setting { system with
      call := some (.ran stage key inputs), executed := system.executed ++ [key] } := by
  obtain ⟨present, fresh⟩ := tracks.call _ here
  refine ⟨tracks.single, tracks.completion, tracks.used, ?_, ?_, ?_, tracks.completed⟩
  · intro other outer
    rw [List.count_append, List.count_singleton]
    by_cases same : key = other
    · subst same
      have none_yet : system.executed.count key = 0 := List.count_eq_zero.mpr (fresh outer)
      simp [none_yet]
    · simpa [same] using tracks.once other outer
  · intro other member
    rcases List.mem_append.mp member with earlier | last
    · exact tracks.intended other earlier
    · obtain rfl := List.mem_singleton.mp last
      exact present
  · intro progress member
    obtain rfl := Option.some.inj member
    trivial

theorem announce {system : System} (tracks : Tracks setting system) {outcome : FeatureOutcome}
    (here : system.call = some (.frozen outcome)) (new : system.ledger.get? .completion = none) :
    Tracks setting { system with
      ledger := observe setting system.ledger .completion [setting.outcomeRef outcome] setting.overhead
      call := some (.completing outcome) } := by
  have elsewhere : ∀ key, (observe setting system.ledger .completion [setting.outcomeRef outcome]
      setting.overhead).get? (.phase key) = system.ledger.get? (.phase key) :=
    fun key => Dict.get?_set_ne _ _ (by simp)
  obtain ⟨resolved, open_job⟩ := tracks.call _ here
  refine ⟨?_, ?_, ?_, tracks.once, ?_, ?_, ?_⟩
  · intro key snapshot found
    exact tracks.single key snapshot ((elsewhere key).symm.trans found)
  · intro snapshot found
    change (observe setting system.ledger .completion _ _).get? _ = _ at found
    rw [observe, Dict.get?_set_self] at found
    obtain rfl := Option.some.inj found
    rw [new, selected_extend_other]
    · rfl
    · simp [setting.outcomeRef_kind, outcomeKind, stepKind]
  · intro key output member
    obtain ⟨snapshot, ref, step, found, rest⟩ := tracks.used key output member
    exact ⟨snapshot, ref, step, (elsewhere key).trans found, rest⟩
  · intro key member
    obtain ⟨snapshot, found⟩ := tracks.intended key member
    exact ⟨snapshot, (elsewhere key).trans found⟩
  · intro progress member
    obtain rfl := Option.some.inj member
    constructor
    · intro key snapshot found
      exact resolved.phases key snapshot ((elsewhere key).symm.trans found)
    · intro ref listed
      obtain ⟨key, snapshot, found, selected⟩ := resolved.only ref listed
      exact ⟨key, snapshot, (elsewhere key).trans found, selected⟩
  · intro finished completion done
    change system.completed = _ at done
    rw [open_job] at done
    cases done

theorem step {system next : System} (tracks : Tracks setting system) (step : SystemStep setting system next) :
    Tracks setting next := by
  cases step with
  | call idle open_job => exact tracks.progress fun _ same => by obtain rfl := Option.some.inj same; trivial
  | @reuse stage call inputs ref snapshot frozen unavailable here open_job known same selected read checked =>
      exact tracks.use ⟨snapshot, ref, frozen, known, selected, read, rfl⟩
  | @intend stage call inputs here open_job new kind =>
      have unselected : (Snapshot.extend setting none [setting.request, inputs]
          (setting.intentCosts (keyOf stage call))).selected = [] := by
        rw [selected_extend_other]
        · rfl
        · simp [setting.request_kind, kind, stepKind]
      refine tracks.observe_phase (fun snapshot found => ?_) ?_ open_job ?_
      · rw [new] at found
        cases found
      · rw [new, unselected]
        exact Nat.zero_le _
      · intro progress member
        obtain rfl := Option.some.inj member
        refine ⟨⟨_, Dict.get?_set_self _ _ _⟩, fun _ member => ?_⟩
        obtain ⟨snapshot, found⟩ := tracks.intended _ member
        rw [new] at found
        cases found
  | rerun here open_job known same unselected child =>
      refine tracks.progress fun _ member => ?_
      obtain rfl := Option.some.inj member
      exact ⟨⟨_, known⟩, fun outer => by rw [child] at outer; cases outer⟩
  | execute here => exact tracks.execute here
  | freeze output costs here => exact tracks.progress fun _ same => by obtain rfl := Option.some.inj same; trivial
  | retry frozen idle => exact tracks.progress fun _ same => by obtain rfl := Option.some.inj same; trivial
  | republish here checked known selected same =>
      exact tracks.use ⟨_, _, _, known, selected, same, rfl⟩
  | @record stage frozen snapshot here checked known unselected costs =>
      have after := @selected_extend_known setting _ _ (intent_of_checkStep checked known) frozen.costs
      refine tracks.observe_phase (fun other found => ?_) ?_ (tracks.unfinished known unselected) ?_
      · obtain rfl := Option.some.inj (known.symm.trans found)
        exact unselected
      · rw [known, after, unselected]
        exact Nat.zero_le _
      · intro progress member
        obtain rfl := Option.some.inj member
        refine ⟨_, Dict.get?_set_self _ _ _, ?_⟩
        rw [known, after, unselected]
  | @store stage frozen steps here written =>
      obtain ⟨stored, kept⟩ := put_eq_some written
      refine ⟨tracks.single, tracks.completion, ?_, tracks.once, tracks.intended, ?_, tracks.completed⟩
      · intro key output member
        obtain ⟨snapshot, ref, step, found, selected, read, same⟩ := tracks.used key output member
        exact ⟨snapshot, ref, step, found, selected, kept ref step read, same⟩
      · intro progress member
        obtain rfl := Option.some.inj member
        exact ⟨tracks.call _ here, stored⟩
  | @select stage frozen unavailable here =>
      obtain ⟨⟨snapshot, known, unselected⟩, stored⟩ := tracks.call _ here
      have after := @selected_extend_step setting _ unselected frozen frozen.costs
      have before : ∀ other, system.ledger.get? (.phase frozen.key) = some other → other.selected = [] := by
        intro other found
        obtain rfl := Option.some.inj (known.symm.trans found)
        exact unselected
      have observed : Tracks setting { system with
          ledger := observe setting system.ledger (.phase frozen.key) [setting.stepRef frozen] frozen.costs
          call := none } :=
        tracks.observe_phase before (by rw [known, after]; simp) (tracks.unfinished known unselected) (by simp)
      refine observed.use ⟨_, _, frozen, Dict.get?_set_self _ _ _, ?_, stored, rfl⟩
      rw [known, after]
  | finish here new => exact tracks.progress fun _ same => by obtain rfl := Option.some.inj same; trivial
  | refinish here known frozen read =>
      exact tracks.progress fun _ same => by obtain rfl := Option.some.inj same; trivial
  | retryOutcome outcome idle => exact tracks.progress fun _ same => by obtain rfl := Option.some.inj same; trivial
  | publish here open_job publishable written =>
      refine ⟨tracks.single, tracks.completion, tracks.used, tracks.once, tracks.intended, ?_, tracks.completed⟩
      intro progress member
      obtain rfl := Option.some.inj member
      exact ⟨tracks.resolves publishable, open_job⟩
  | announce here new => exact tracks.announce here new
  | announced here known frozen =>
      refine tracks.progress fun _ same => ?_
      obtain rfl := Option.some.inj same
      exact (tracks.call _ here).1
  | complete here =>
      have resolved := tracks.call _ here
      refine ⟨tracks.single, tracks.completion, tracks.used, tracks.once, tracks.intended, by simp, ?_⟩
      intro finished completion done
      obtain ⟨rfl, rfl⟩ := Prod.mk.inj (Option.some.inj done)
      exact ⟨resolved, rfl⟩
  | stop => exact tracks.progress (by simp)

end Tracks

/-! ### Runs -/

/-- What holds of the job whenever its calls stopped and followed each other. -/
structure Sound (setting : Setting) (system : System) : Prop where
  executed_once : ∀ key, key.isChild = false → system.executed.count key ≤ 1
  one_step : ∀ key snapshot, system.ledger.get? (.phase key) = some snapshot → snapshot.selected.length ≤ 1
  used_selected : ∀ key output, (key, output) ∈ system.used → Selects system key output
  completed : ∀ outcome completion, system.completed = some (outcome, completion) →
    Resolves system.ledger outcome ∧
    completion.artifacts = outcome.selected.artifacts ++ [setting.outcomeRef outcome] ∧
    completion.costs = (rows setting system.ledger).flatMap fun row => row.2.costs

theorem Tracks.sound {system : System} (tracks : Tracks setting system) : Sound setting system where
  executed_once := tracks.once
  one_step := tracks.single
  used_selected := tracks.used
  completed outcome completion done := by
    obtain ⟨resolved, rfl⟩ := tracks.completed outcome completion done
    exact ⟨resolved, rfl, rfl⟩

theorem tracks_start : Tracks setting start where
  single _ _ found := by cases found
  completion _ found := by cases found
  used _ _ member := by cases member
  once _ _ := Nat.zero_le _
  intended _ member := by cases member
  call _ member := by cases member
  completed _ _ done := by cases done

end

theorem phases_sound (setting : Setting) (system : System) (reaches : Reaches setting start system) :
    Sound setting system := by
  suffices tracks : Tracks setting system from tracks.sound
  induction reaches with
  | refl => exact tracks_start
  | step _ step ih => exact ih.step step

/-! ### A sample run: the intake is frozen, the source is rejected -/

namespace Sample

open State.Sample (settings cost digestOf jobId attemptId)

def requestRef : ArtifactRef := { settings with kind := ⟨"m6-feature-request", by decide +kernel⟩ }

def inputRef : ArtifactRef := { settings with kind := ⟨"m6-feature-input", by decide +kernel⟩ }

def outcomeRef : ArtifactRef := { settings with kind := ⟨outcomeKind, by decide +kernel⟩ }

/-- The steps of the run are told apart by their keys. -/
def stepRef (step : FeatureStep) : ArtifactRef :=
  { settings with
    kind := ⟨stepKind, by decide +kernel⟩
    sha256 := if step.key = .intake then jobId else attemptId }

def setting : Setting where
  request := requestRef
  stepRef := stepRef
  outcomeRef _ := outcomeRef
  observationId _ := jobId
  intentCosts _ := []
  overhead := []
  phaseCosts old new := old ++ new
  lineage _ := true
  stepRef_kind _ := rfl
  outcomeRef_kind _ := rfl
  request_kind := rfl

def rejected : OperationResult where
  operation := .construct
  disposition := .rejected
  artifacts := []
  evidence := []
  costs := [cost]
  reason := ⟨"the source has no module", by decide +kernel⟩
  valid := by decide

def intake : FeatureStep := ⟨requestRef, .intake, inputRef, .intake [], []⟩

def source : FeatureStep := ⟨requestRef, .source, inputRef, .result rejected, [cost]⟩

/-- The checks of an outcome, phase by phase. -/
theorem publishable {ledger : Ledger} {steps : Dict ArtifactRef FeatureStep} {outcome : FeatureOutcome}
    (request : outcome.request = requestRef) (listed : outcome.steps = (selectedSteps setting ledger).eraseDups)
    (terminal : outcome.steps.any (fun ref => (steps.get? ref).any (isTerminal outcome)) = true)
    (resolved : ledger.entries.all (fun row => row.2.selected.length == 1) = true)
    (checked : outcome.steps.all (fun ref => (steps.get? ref).any (checkStep setting ledger)) = true) :
    Publishable setting ledger steps outcome where
  request := request
  listed ref := by rw [listed, List.mem_eraseDups]
  terminal := by
    obtain ⟨ref, member, found⟩ := List.any_eq_true.mp terminal
    obtain ⟨step, read, ends⟩ := (Option.any_eq_true _ _).mp found
    exact ⟨ref, member, step, read, ends⟩
  resolved source snapshot found _ := by
    have single := List.all_eq_true.mp resolved _ (Dict.mem_entries.mpr found)
    exact beq_iff_eq.mp single
  checked ref member := by
    obtain ⟨step, read, passes⟩ := (Option.any_eq_true _ _).mp (List.all_eq_true.mp checked ref member)
    exact ⟨step, read, passes⟩

/-- One phase that is rejected after the intake, and the completion of the job. -/
theorem ran : ∃ system, Reaches setting start system ∧ system.executed = [.intake, .source] ∧
    system.completed.isSome = true := by
  have called := Reaches.refl.step (@SystemStep.call setting start rfl rfl)
  have intended := called.step (@SystemStep.intend _ _ _ jobId inputRef rfl rfl rfl rfl)
  have frozen := (intended.step (.execute rfl)).step (.freeze (.intake []) [] rfl)
  have recorded := frozen.step (.record rfl (by decide +kernel) rfl rfl (by decide))
  have stored := recorded.step (.store rfl rfl)
  have selected := stored.step (@SystemStep.select _ _ _ _ false rfl)
  have intended := selected.step (@SystemStep.intend _ _ _ jobId inputRef rfl rfl rfl rfl)
  have frozen := (intended.step (.execute rfl)).step (.freeze (.result rejected) [cost] rfl)
  have recorded := frozen.step (.record rfl (by decide +kernel) rfl rfl (by decide))
  have stored := recorded.step (.store rfl rfl)
  have selected := stored.step (@SystemStep.select _ _ _ _ false rfl)
  have finished := selected.step (.finish rfl rfl)
  have published := finished.step (.publish rfl rfl
    (publishable rfl rfl (by decide +kernel) (by decide +kernel) (by decide +kernel)) rfl)
  have completed := (published.step (.announce rfl rfl)).step (.complete rfl)
  exact ⟨_, completed, rfl, rfl⟩

end Sample

theorem phases_sound_sample : ∃ system, Reaches Sample.setting start system ∧ system.completed.isSome = true ∧
    Sound Sample.setting system := by
  obtain ⟨system, reaches, _, completed⟩ := Sample.ran
  exact ⟨system, reaches, completed, phases_sound Sample.setting system reaches⟩

end Workflow

end FeatureRl
