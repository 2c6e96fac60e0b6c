import FeatureRl.Contracts.Samples
import FeatureRl.Grading.Outcomes

/-! The reward of a grade over every run: the handlers, the last cleanup and the receipt. -/

namespace FeatureRl

open Checked Effects

namespace Grading

variable {services : Services} {progress : Progress}

/-! ### Handlers -/

/-- An exception that no handler takes, or a second publication that raises another one. -/
def Escapes (services : Services) (exception : Raised) (progress : Progress) : Prop :=
  (Event.raised exception ∈ progress.events ∧ (Event.raised exception).unhandled = true) ∨
    ∃ message, Event.raised (.publicationFailed message) ∈ progress.events ∧
      services.retryPublication = .error exception

theorem Raising.unmeasured {exception : Raised} (raising : Raising services exception progress)
    (spoils : exception.spoils = true) {disposition : Disposition}
    (other : disposition ≠ .success ∧ disposition ≠ .rejected) {reason : String}
    (bounded : isBoundedReason reason = true) :
    Concludes services () { progress with disposition, reward := none, reason } :=
  ⟨⟨raising.sane.unique, bounded⟩,
    .unmeasured other rfl ⟨.raised exception, raising.last, spoils⟩ raising.missed⟩

theorem isBoundedReason_named (name : ClassName) (text : String) :
    isBoundedReason (name.val ++ ": " ++ clip 800 text) = true := by
  have short : name.val.toList.length ≤ 200 := by simpa using name.property
  have clipped := length_clip_le 800 text
  simp only [isBoundedReason, String.toList_append, List.length_append, Bool.and_eq_true,
    decide_eq_true_eq]
  have colon : ": ".toList.length = 2 := rfl
  omega

theorem isBoundedReason_close (name : ClassName) (text : String) :
    isBoundedReason ("workspace cleanup unverified: " ++ name.val ++ ": " ++ clip 700 text) = true := by
  have short : name.val.toList.length ≤ 200 := by simpa using name.property
  have clipped := length_clip_le 700 text
  simp only [isBoundedReason, String.toList_append, List.length_append, Bool.and_eq_true,
    decide_eq_true_eq]
  have start : "workspace cleanup unverified: ".toList.length = 30 := rfl
  have colon : ": ".toList.length = 2 := rfl
  omega

theorem isBoundedReason_clipped {text : String} (nonempty : text.toList.isEmpty = false) :
    isBoundedReason (clip 900 text) = true := by
  have some : 1 ≤ text.toList.length := by
    cases same : text.toList with
    | nil => simp [same] at nonempty
    | cons => simp
  simp only [isBoundedReason, clip, String.toList_ofList, List.length_take, Bool.and_eq_true,
    decide_eq_true_eq]
  omega

theorem handle_ends {exception : Raised} (raising : Raising services exception progress) :
    (handle services exception).Ends progress (Concludes services) (Escapes services) := by
  have named := isBoundedReason_named exception.className exception.message
  cases exception with
  | dependencyUnavailable message =>
      rw [handle, ends_judge]
      exact raising.unmeasured rfl (by decide) (isBoundedReason_clip _ _ _ (by decide))
  | sourceRejected message =>
      rw [handle, ends_judge]
      have bounded : isBoundedReason ("candidate declarations rejected: " ++ clip 800 message) = true :=
        isBoundedReason_clip _ _ _ (by decide)
      exact ⟨⟨raising.sane.unique, bounded⟩, .rejected rfl rfl (raising.clean rfl)
        ⟨_, raising.last, rfl⟩ raising.cleanup raising.missed⟩
  | publicationFailed message =>
      have spoiled : Event.spoils (.raised (.publicationFailed message)) = true := rfl
      have other : Disposition.infrastructure ≠ .success ∧ Disposition.infrastructure ≠ .rejected := by
        decide
      rw [handle, ends_bind, ends_judge, ends_bind, ends_lift]
      refine ⟨fun published _ => ?_, fun failure again => .inr ⟨message, raising.last, again⟩⟩
      have unique := raising.sane.unique
      have bounded := isBoundedReason_clipped message.property
      cases published with
      | some evidence =>
          rw [ends_addEvidence]
          exact ⟨⟨unique, bounded⟩, .unmeasured other rfl ⟨_, raising.last, spoiled⟩ raising.missed⟩
      | none =>
          rw [ends_modify]
          exact ⟨⟨unique, bounded⟩, .unmeasured other rfl ⟨_, raising.last, spoiled⟩ raising.missed⟩
  | buildFailed failure message =>
      simp only [handle, ends_judge]
      exact raising.unmeasured rfl (by decide) named
  | sizeLimit message =>
      simp only [handle, ends_judge]
      exact raising.unmeasured rfl (by decide) named
  | infrastructure name message =>
      simp only [handle, ends_judge]
      exact raising.unmeasured rfl (by decide) named
  | value message =>
      rw [handle, ends_judge]
      exact raising.unmeasured rfl (by decide) (isBoundedReason_clip _ _ _ (by decide))
  | other name message =>
      rw [handle, ends_lift_error]
      exact .inl ⟨raising.last, rfl⟩

/-! ### The last cleanup -/

/-- What the reward of a run says about its events. -/
structure Rewarded (services : Services) (events : List Event) (reward : Option Nat) : Prop where
  one : reward = some 1 ↔ Passed services events
  absent : reward = none ↔ ∃ event ∈ events, event.spoils = true
  zero : reward = some 0 ↔ ¬ Passed services events ∧ ∀ event ∈ events, event.spoils = false
  fault : reward = some 0 → ∃ event ∈ events, event.fault = true

/-- The fields that the receipt takes from the run fit together. -/
structure Fits (progress : Progress) : Prop where
  sane : Sane progress
  measured : (progress.disposition = .success ∨ progress.disposition = .rejected) ↔ progress.reward ≠ none
  cleanup : progress.reward ≠ none → progress.cleanup = true
  success : progress.disposition = .success ↔ progress.reward = some 1
  rejected : progress.disposition = .rejected ↔ progress.reward = some 0
  atMost : ∀ reward ∈ progress.reward, reward ≤ 1
  complete : progress.reward = some 1 → progress.manifest ≠ none ∧ progress.source ≠ none ∧
    progress.buildEvidence ≠ none ∧ progress.results ≠ [] ∧ ∀ result ∈ progress.results, Settles result

def Judged (services : Services) (progress : Progress) : Prop :=
  Fits progress ∧ Rewarded services progress.events progress.reward

theorem Missed.not_passed {events : List Event} (missed : Missed services events) :
    ¬ Passed services events := by
  rintro ⟨_, ⟨checked, loaded, matched⟩, _, _⟩
  obtain ⟨index, inside, absent⟩ := missed checked loaded
  exact absent (matched index inside)

theorem Rewarded.of_missed {events : List Event} {reward : Option Nat} (missed : ¬ Passed services events)
    (measured : (reward = some 0 ∧ Clean events ∧ ∃ event ∈ events, event.fault = true) ∨
      (reward = none ∧ ∃ event ∈ events, event.spoils = true)) : Rewarded services events reward := by
  rcases measured with ⟨rfl, clean, fault⟩ | ⟨rfl, event, member, spoils⟩
  · refine ⟨by simp [missed], ?_, by simpa [missed, Clean] using clean, fun _ => fault⟩
    simpa [Clean] using clean
  · refine ⟨by simp [missed], by simpa using ⟨event, member, spoils⟩, ?_, by simp⟩
    simp only [reduceCtorEq, false_iff, not_and]
    intro _ clean
    rw [clean event member] at spoils
    cases spoils

theorem Fits.of_rejected (sane : Sane progress) (disposition : progress.disposition = .rejected)
    (reward : progress.reward = some 0) (cleanup : progress.cleanup = true) : Fits progress where
  sane := sane
  measured := by simp [disposition, reward]
  cleanup _ := cleanup
  success := by simp [disposition, reward]
  rejected := by simp [disposition, reward]
  atMost := by simp [reward]
  complete := by simp [reward]

theorem Fits.of_unmeasured (sane : Sane progress)
    (disposition : progress.disposition ≠ .success ∧ progress.disposition ≠ .rejected)
    (reward : progress.reward = none) : Fits progress where
  sane := sane
  measured := by simp [disposition, reward]
  cleanup := by simp [reward]
  success := by simp [disposition, reward]
  rejected := by simp [disposition, reward]
  atMost := by simp [reward]
  complete := by simp [reward]

/-- A verdict that closing the workspace leaves as it is. -/
theorem judged_of_concludes (concludes : Concludes services () progress) (unopened : progress.opened = false) :
    Judged services progress := by
  obtain ⟨sane, verdict⟩ := concludes
  cases verdict with
  | passed checked loaded disposition reward clean cleanup opened =>
      rw [unopened] at opened
      cases opened
  | rejected disposition reward clean fault cleanup missed =>
      exact ⟨.of_rejected sane disposition reward cleanup,
        .of_missed missed.not_passed (.inl ⟨reward, clean, fault⟩)⟩
  | unmeasured disposition reward spoiled missed =>
      exact ⟨.of_unmeasured sane disposition reward, .of_missed missed.not_passed (.inr ⟨reward, spoiled⟩)⟩

theorem judged_of_closed (concludes : Concludes services () progress) :
    Judged services { progress with events := progress.events ++ [.closed] } := by
  obtain ⟨sane, verdict⟩ := concludes
  have sane : Sane { progress with events := progress.events ++ [.closed] } := ⟨sane.unique, sane.bounded⟩
  cases verdict with
  | passed checked loaded disposition reward clean cleanup opened built matched manifest source
      buildEvidence nonempty settled =>
      have clean : Clean (progress.events ++ [.closed]) := clean.append rfl
      have passed : Passed services (progress.events ++ [.closed]) := by
        refine ⟨List.mem_append_left _ built, ⟨checked, loaded, fun index inside =>
          List.mem_append_left _ (matched index inside)⟩, ?_, by simp, ?_⟩
        · intro output member
          have harmless := clean _ member
          simp only [Event.spoils, Event.broken, Bool.or_eq_false_iff, decide_eq_false_iff_not,
            not_or, Bool.not_eq_false] at harmless
          exact harmless.1.1
        · intro failed
          exact Bool.noConfusion (clean _ failed)
      refine ⟨⟨sane, by simp [disposition, reward], fun _ => cleanup, by simp [disposition, reward],
        by simp [disposition, reward], by simp [reward], fun _ =>
          ⟨manifest, source, buildEvidence, nonempty, settled⟩⟩, ?_⟩
      refine ⟨by simp [reward, passed], ?_, by simp [reward, passed], by simp [reward]⟩
      simp only [reward, reduceCtorEq, false_iff, not_exists, not_and, Bool.not_eq_true]
      exact clean
  | rejected disposition reward clean fault cleanup missed =>
      obtain ⟨event, member, fault⟩ := fault
      exact ⟨.of_rejected sane disposition reward cleanup,
        .of_missed (missed.append (by simp)).not_passed
          (.inl ⟨reward, clean.append rfl, event, List.mem_append_left _ member, fault⟩)⟩
  | unmeasured disposition reward spoiled missed =>
      obtain ⟨event, member, spoils⟩ := spoiled
      exact ⟨.of_unmeasured sane disposition reward, .of_missed (missed.append (by simp)).not_passed
        (.inr ⟨reward, event, List.mem_append_left _ member, spoils⟩)⟩

theorem closeWorkspace_ends (concludes : Concludes services () progress) {failed : Raised → Progress → Prop} :
    (closeWorkspace services).Ends progress (fun _ final => Judged services final) failed := by
  rw [closeWorkspace, ends_bind, ends_read]
  by_cases opened : progress.opened = true
  · rw [if_pos opened]
    split
    next =>
      rw [ends_note]
      exact judged_of_closed concludes
    next exception _ =>
      rw [ends_bind, ends_note, ends_bind, ends_modify, ends_judge]
      have other : Disposition.infrastructure ≠ .success ∧ Disposition.infrastructure ≠ .rejected := by
        decide
      have unpassed : ¬ Passed services (progress.events ++ [.closeFailed]) :=
        fun passed => passed.closed.2 (by simp)
      exact ⟨.of_unmeasured ⟨concludes.1.unique, isBoundedReason_close exception.className _⟩ other rfl,
        .of_missed unpassed (.inr ⟨rfl, .closeFailed, by simp, rfl⟩)⟩
  · rw [if_neg opened, ends_pure]
    exact judged_of_concludes concludes (by simpa using opened)

theorem closeWorkspace_keeps {failed : Raised → Progress → Prop} :
    (closeWorkspace services).Ends progress
      (fun _ final => ∀ event ∈ progress.events, event ∈ final.events) failed := by
  rw [closeWorkspace, ends_bind, ends_read]
  split
  · split
    · rw [ends_note]
      exact fun event member => List.mem_append_left _ member
    · rw [ends_bind, ends_note, ends_bind, ends_modify, ends_judge]
      exact fun event member => List.mem_append_left _ member
  · rw [ends_pure]
    exact fun event member => member

theorem Escapes.mono {exception : Raised} {final : Progress} (escapes : Escapes services exception progress)
    (keeps : ∀ event ∈ progress.events, event ∈ final.events) : Escapes services exception final := by
  rcases escapes with ⟨member, unhandled⟩ | ⟨message, member, again⟩
  · exact .inl ⟨keeps _ member, unhandled⟩
  · exact .inr ⟨message, keeps _ member, again⟩

theorem assess_ends : (assess services).Ends Progress.start (fun _ final => Judged services final)
    (Escapes services) := by
  rw [assess, ends_finishing, ends_catching]
  refine attempt_ends.mono (fun _ _ concludes => ?_) (fun exception after raising => ?_)
  · exact closeWorkspace_ends concludes
  · refine (handle_ends raising).mono (fun _ _ concludes => closeWorkspace_ends concludes) ?_
    intro escaping final escapes
    exact closeWorkspace_keeps.mono (fun _ _ keeps => escapes.mono keeps) (fun _ _ same => same)

/-! ### Receipts -/

theorem Fits.coherent (fits : Fits progress) (task submission : ArtifactRef) {caseSeed : Nat}
    (supported : caseSeed < 2 ^ 63) : (receiptOf task submission caseSeed progress).coherent = .ok () := by
  have unsupported : ¬ 2 ^ 63 ≤ caseSeed := by omega
  have atMost : progress.reward.any (fun reward => 1 < reward) = false := by
    rw [Option.any_eq_false]
    intro reward same
    simpa using fits.atMost reward same
  have measured : ¬ ((progress.disposition = .success ∨ progress.disposition = .rejected) ↔
      progress.reward = none) := by
    rw [fits.measured]
    simp
  simp only [GradeReceipt.coherent, bind_eq_ok, refuse_eq_ok]
  refine ⟨(), ?_, (), ?_, (), ?_, (), ?_, (), ?_, ?_⟩
  · simp only [receiptOf, unsupported, fits.sane.bounded, atMost, Bool.false_eq_true, or_false,
      not_false_eq_true, reduceCtorEq]
  · simpa [receiptOf] using fits.sane.unique
  · simp [receiptOf]
  · exact measured
  · rintro ⟨some, unverified⟩
    exact Bool.noConfusion ((fits.cleanup some).symm.trans unverified)
  · have success : ¬ (progress.disposition = .success ∧ progress.reward ≠ some 1) :=
      fun wrong => wrong.2 (fits.success.mp wrong.1)
    have rejected : ¬ (progress.disposition = .rejected ∧ progress.reward ≠ some 0) :=
      fun wrong => wrong.2 (fits.rejected.mp wrong.1)
    split
    next one =>
      obtain ⟨manifest, source, buildEvidence, nonempty, settled⟩ := fits.complete one
      obtain ⟨first, member⟩ := List.exists_mem_of_ne_nil _ nonempty
      simp only [bind_eq_ok, refuse_eq_ok]
      refine ⟨(), ?_, (), ?_, (), ?_, (), success, rejected⟩
      · rintro (unsuccessful | empty | missing | missing | missing)
        · exact unsuccessful (fits.success.mpr one)
        · exact nonempty empty
        · exact manifest missing
        · exact source missing
        · exact buildEvidence missing
      · have mandatory : progress.results.any CaseResult.mandatory = true :=
          List.any_eq_true.mpr ⟨first, member, (settled first member).1⟩
        exact fun none => Bool.noConfusion (mandatory.symm.trans none)
      · intro wrong
        obtain ⟨result, here, failing⟩ := List.any_eq_true.mp wrong
        obtain ⟨_, completed, passed⟩ := settled result here
        simp [completed, passed] at failing
    next =>
      simp only [bind_eq_ok, refuse_eq_ok]
      exact ⟨(), success, rejected⟩

/-- Every run of grading ends with a coherent receipt whose reward says what happened, or
with an exception that no handler takes. -/
theorem grade_outcome (services : Services) (task submission : ArtifactRef) (caseSeed : Nat) :
    match grade services task submission caseSeed with
    | .ok graded => graded.receipt.coherent = .ok () ∧
        Rewarded services (assess services Progress.start).2.events graded.receipt.reward
    | .error exception => 2 ^ 63 ≤ caseSeed ∨ Escapes services exception (assess services Progress.start).2 := by
  rw [grade]
  by_cases unsupported : 2 ^ 63 ≤ caseSeed
  · rw [refuse, if_pos unsupported]
    exact .inl unsupported
  · have ends := @assess_ends services
    rw [refuse, if_neg unsupported]
    rcases outcome : assess services Progress.start with ⟨exception | _, final⟩
    · exact .inr (ends_of_error ends outcome)
    · obtain ⟨fits, rewarded⟩ := ends_of_ok ends outcome
      have coherent := fits.coherent task submission (Nat.lt_of_not_le unsupported)
      have receipt : (publish services final (receiptOf task submission caseSeed final)).receipt =
          receiptOf task submission caseSeed final := by
        rw [publish]
        split
        · rfl
        · split <;> rfl
      simp only [bind, Except.bind, coherent]
      rw [receipt]
      exact ⟨coherent, rewarded⟩

/-! ### Runs that grading leaves without a measured reward -/

def sampleArtifact (kind : Identifier) : ArtifactRef :=
  ⟨⟨"0000000000000000000000000000000000000000000000000000000000000000", isDigest_zeros⟩, kind, 1, .internal,
    .bytes, firstSchema⟩

/-- A verifier with one case. -/
def sampleVerifier : LoadedVerifier where
  verifier := sampleArtifact ⟨"m4-verifier", rfl⟩
  cases := [⟨⟨"case-1", rfl⟩, [⟨"r1", rfl⟩], .tests, ⟨0, "", ""⟩⟩]
  outputLimitBytes := 1024
  counted := by decide
  unique := by decide

/-- Everything works; the build has the given outcome. -/
def sampleServices (buildSnapshot : Checks ArtifactRef) : Services where
  loadVerifier := .ok sampleVerifier
  selectTask := .ok ()
  putManifest := .ok (sampleArtifact ⟨"m4-case-manifest", rfl⟩)
  resolve := .ok ()
  putSource := .ok (sampleArtifact ⟨"source-archive", isIdentifier_sourceArchive⟩)
  recipe := .ok ()
  openWorkspace := .ok ()
  buildSnapshot
  late _ := false
  executionRequest _ := .ok ()
  execute _ := .ok ⟨.completed, .none, some 0, [], [], true, sampleArtifact ⟨"environment-execution", rfl⟩⟩
  close := .ok ()
  retryPublication := .ok none
  putReceipt := .ok ()

/-- The dependencies of a candidate are unavailable offline. -/
def unavailable : Services := sampleServices (.error (.dependencyUnavailable "no complete closure"))

def sampleReward (services : Services) : Option (Option Nat) :=
  (grade services (sampleArtifact ⟨"TaskBundle", rfl⟩) (sampleArtifact ⟨"submission", rfl⟩) 0).toOption.map
    fun graded => graded.receipt.reward

/-- No infrastructure failure, unresolved outcome or failed cleanup, yet no reward; and an
exception that no handler takes leaves no receipt. -/
theorem grade_unavailable :
    (sampleReward unavailable = some none ∧
      ∀ event ∈ (assess unavailable Progress.start).2.events, event.broken = false) ∧
    sampleReward (sampleServices (.error (.other ⟨"KeyError", rfl⟩ "record"))) = none ∧
    sampleReward (sampleServices (.ok (sampleArtifact ⟨"environment-execution", rfl⟩))) = some (some 1) := by
  decide +kernel

end Grading

end FeatureRl
