import FeatureRl.Contracts.Samples
import FeatureRl.Contracts.Values
import FeatureRl.Lib.Gather
import FeatureRl.Lib.Json
import FeatureRl.Lib.Rounding
import FeatureRl.Lib.Sorting
import Mathlib.Data.Fintype.BigOperators
import Mathlib.Data.List.GetD

/-!
The stratified audit sample: every unit of a frozen population falls into one stratum, and a
stratum draws the units whose hashes come first.
-/

namespace FeatureRl

open Checked Sorting

namespace Audits

inductive Failure where
  | selection (text : String)
  | validation (text : String)
  | zeroDivision

/-! ### Frames and plans -/

inductive VerifierDecision where
  | accepted | rejected | invalidEnvironment | invalidMeasurement
deriving DecidableEq

def VerifierDecision.name : VerifierDecision → String
  | accepted => "accepted"
  | rejected => "rejected"
  | invalidEnvironment => "invalid_environment"
  | invalidMeasurement => "invalid_measurement"

inductive AuditUnit where
  | patch | source
deriving DecidableEq

structure PatchFrameEntry where
  subjectId : Digest
  runId : Digest
  repositoryFamily : Identifier
  verifierDecision : VerifierDecision
  failureCategory : Identifier
  identity : subjectId = runId
deriving DecidableEq

structure SourceFrameEntry where
  subjectId : Digest
  constructJobId : Digest
  candidate : ArtifactRef
  sourceDisposition : ArtifactRef
  repositoryFamily : Identifier
  failureCategory : Identifier
  identity : candidate.kind.val = "CandidateRecord" ∧ sourceDisposition.kind.val = "m6-source-disposition" ∧
    subjectId = constructJobId
deriving DecidableEq

inductive FrameEntry where
  | patch (entry : PatchFrameEntry)
  | source (entry : SourceFrameEntry)
deriving DecidableEq

namespace FrameEntry

def unit : FrameEntry → AuditUnit
  | patch _ => .patch
  | source _ => .source

def subjectId : FrameEntry → Digest
  | patch entry => entry.subjectId
  | source entry => entry.subjectId

def repositoryFamily : FrameEntry → Identifier
  | patch entry => entry.repositoryFamily
  | source entry => entry.repositoryFamily

def failureCategory : FrameEntry → Identifier
  | patch entry => entry.failureCategory
  | source entry => entry.failureCategory

def status : FrameEntry → String
  | patch entry => entry.verifierDecision.name
  | source _ => "rejected_source"

def decision : FrameEntry → Option VerifierDecision
  | patch entry => some entry.verifierDecision
  | source _ => none

end FrameEntry

structure AuditPopulationFrame where
  entries : List FrameEntry
  createdAt : Timestamp
  unique : (entries.map FrameEntry.subjectId).Nodup
  patches : ∃ entry ∈ entries, entry.unit = .patch
  sources : ∃ entry ∈ entries, entry.unit = .source

structure AuditStratum where
  stratum : Identifier
  unit : AuditUnit
  repositoryFamily : Identifier
  status : Identifier
  failureCategory : Identifier
  sampleSize : Nat
  positive : 0 < sampleSize
deriving DecidableEq

structure AuditSamplingPlan where
  populationFrame : ArtifactRef
  seed : Nat
  strata : List AuditStratum
  createdAt : Timestamp
  filled : strata ≠ []
  unique : (strata.map AuditStratum.stratum).Nodup

structure AuditSelection where
  entry : FrameEntry
  stratum : Identifier
  samplingProbability : ℚ
  inRange : 0 < samplingProbability ∧ samplingProbability ≤ 1

structure AuditSelectionManifest where
  populationFrame : ArtifactRef
  samplingPlan : ArtifactRef
  selections : List AuditSelection
  createdAt : Timestamp
  unique : (selections.map fun selection => selection.entry.subjectId).Nodup
  decisions : ∀ decision ∈ [VerifierDecision.accepted, .rejected],
    some decision ∈ selections.map fun selection => selection.entry.decision
  sources : ∃ selection ∈ selections, selection.entry.unit = .source

def AuditSelection.create (entry : FrameEntry) (stratum : Identifier) (samplingProbability : ℚ) :
    Except Failure AuditSelection :=
  if inRange : 0 < samplingProbability ∧ samplingProbability ≤ 1 then
    .ok ⟨entry, stratum, samplingProbability, inRange⟩
  else .error (.validation "sampling_probability")

def AuditSelectionManifest.create (populationFrame samplingPlan : ArtifactRef) (selections : List AuditSelection)
    (createdAt : Timestamp) : Except Failure AuditSelectionManifest :=
  if unique : (selections.map fun selection => selection.entry.subjectId).Nodup then
    if decisions : ∀ decision ∈ [VerifierDecision.accepted, .rejected],
        some decision ∈ selections.map fun selection => selection.entry.decision then
      if sources : ∃ selection ∈ selections, selection.entry.unit = .source then
        .ok ⟨populationFrame, samplingPlan, selections, createdAt, unique, decisions, sources⟩
      else .error (.validation "audit selection requires a true rejected-source unit")
    else .error (.validation "audit selection requires accepted and rejected patch strata")
  else .error (.validation "duplicate selected audit subject")

/-! ### The draw -/

/-- The attributes of a unit that place it. -/
def AuditStratum.Admits (stratum : AuditStratum) (entry : FrameEntry) : Prop :=
  stratum.unit = entry.unit ∧ stratum.repositoryFamily = entry.repositoryFamily ∧
    stratum.status.val = entry.status ∧ stratum.failureCategory = entry.failureCategory

instance (stratum : AuditStratum) (entry : FrameEntry) : Decidable (stratum.Admits entry) :=
  inferInstanceAs (Decidable (_ ∧ _ ∧ _ ∧ _))

def stratumOf (plan : AuditSamplingPlan) (entry : FrameEntry) : Except Failure AuditStratum :=
  match plan.strata.filter fun stratum => stratum.Admits entry with
  | [stratum] => .ok stratum
  | _ => .error (.selection "every population unit must match exactly one frozen stratum")

def place (plan : AuditSamplingPlan) (entry : FrameEntry) : Except Failure (Identifier × FrameEntry) := do
  let stratum ← stratumOf plan entry
  .ok (stratum.stratum, entry)

/-- Division of integers to a double. -/
def quotient (one two : Nat) : Except Failure ℚ :=
  if two = 0 then .error .zeroDivision else .ok (Binary64.nearest ((one : ℚ) / two))

section Draw

variable (hash : Json → String)

def rank (seed : Nat) (stratum : Identifier) (entry : FrameEntry) : String :=
  hash (.obj [("seed", .int seed), ("stratum", .str stratum.val), ("subject_id", .str entry.subjectId.val),
    ("version", .str "m8-audit-rank-v1")])

def draw (seed : Nat) (placed : List (Identifier × FrameEntry)) (stratum : AuditStratum) :
    Except Failure (List AuditSelection) := do
  let members := ((Dict.gather placed).get? stratum.stratum).getD []
  refuse (members.length < stratum.sampleSize) (.selection "stratum sample size exceeds its frozen population")
  let ranked := sortBy (rank hash seed stratum.stratum) members
  let probability ← quotient stratum.sampleSize members.length
  mapAll (fun entry => AuditSelection.create entry stratum.stratum probability) (ranked.take stratum.sampleSize)

def deriveSelectionManifest (populationRef : ArtifactRef) (population : AuditPopulationFrame) (planRef : ArtifactRef)
    (plan : AuditSamplingPlan) : Except Failure AuditSelectionManifest := do
  refuse (plan.populationFrame ≠ populationRef)
    (.selection "sampling plan references a different population frame")
  let placed ← mapAll (place plan) population.entries
  let selected ← mapAll (draw hash plan.seed placed) plan.strata
  AuditSelectionManifest.create populationRef planRef selected.flatten plan.createdAt

end Draw

/-! ### Probabilities -/

/-- Hexadecimal digits, place by place. -/
def digits (digest : Digest) (place : Fin 64) : Fin 128 :=
  Fin.ofNat 128 (digest.val.toList.getD place.val 'a').toNat

theorem digits_injective : Function.Injective digits := by
  intro one two same
  have shape (digest : Digest) : digest.val.toList.length = 64 ∧ ∀ c ∈ digest.val.toList, c.toNat < 128 := by
    have valid := digest.property
    simp only [isDigest, Bool.and_eq_true, beq_iff_eq, List.all_eq_true] at valid
    refine ⟨valid.1, fun c member => ?_⟩
    have hex := valid.2 c member
    simp only [isLowerHex, Bool.or_eq_true, Bool.and_eq_true, decide_eq_true_eq] at hex
    rcases hex with ⟨_, high⟩ | ⟨_, high⟩
    · exact lt_of_le_of_lt (show c.toNat ≤ '9'.toNat from high) (by decide)
    · exact lt_of_le_of_lt (show c.toNat ≤ 'f'.toNat from high) (by decide)
  obtain ⟨oneLength, oneBound⟩ := shape one
  obtain ⟨twoLength, twoBound⟩ := shape two
  refine Subtype.ext (String.toList_inj.mp (List.ext_getElem (oneLength.trans twoLength.symm) ?_))
  intro place first second
  have equal := congrArg Fin.val (congrFun same ⟨place, by omega⟩)
  simp only [digits, Fin.val_ofNat, List.getD_eq_getElem _ _ first, List.getD_eq_getElem _ _ second] at equal
  rw [Nat.mod_eq_of_lt (oneBound _ (List.getElem_mem first)),
    Nat.mod_eq_of_lt (twoBound _ (List.getElem_mem second))] at equal
  exact Char.toNat_inj.mp equal

/-- There are fewer subjects than a double's exponent can count. -/
theorem length_le_of_nodup {subjects : List Digest} (unique : subjects.Nodup) : subjects.length ≤ 2 ^ 448 := by
  have mapped : (subjects.map digits).Nodup := unique.map digits_injective
  have bound := mapped.length_le_card
  rw [List.length_map, Fintype.card_fun, Fintype.card_fin, Fintype.card_fin] at bound
  calc subjects.length ≤ 128 ^ 64 := bound
    _ = (2 ^ 7) ^ 64 := rfl
    _ = 2 ^ 448 := (pow_mul 2 7 64).symm

theorem quotient_inRange {one two : Nat} (positive : 0 < one) (below : one ≤ two) (counted : two ≤ 2 ^ 448) :
    0 < Binary64.nearest ((one : ℚ) / two) ∧ Binary64.nearest ((one : ℚ) / two) ≤ 1 := by
  have divisor : (0 : ℚ) < two := by exact_mod_cast positive.trans_le below
  constructor
  · have least := @Binary64.nearest_dyadic 1 (-448) (by norm_num) (by norm_num)
    rw [Nat.cast_one, one_mul] at least
    have unit : (0 : ℚ) < (2 : ℚ) ^ (-448 : Int) := Binary64.scale_pos _
    refine unit.trans_le (least.symm.le.trans (Binary64.nearest_mono unit.le ?_))
    rw [le_div_iff₀ divisor, zpow_neg, inv_mul_le_iff₀ (Binary64.scale_pos 448)]
    have few : (two : ℚ) ≤ (2 : ℚ) ^ (448 : Int) := by exact_mod_cast counted
    have some : (1 : ℚ) ≤ one := by exact_mod_cast positive
    exact few.trans (le_mul_of_one_le_right (Binary64.scale_pos 448).le some)
  · have whole := @Binary64.nearest_dyadic 1 0 (by norm_num) (by norm_num)
    rw [Nat.cast_one, zpow_zero, one_mul] at whole
    refine (Binary64.nearest_mono (by positivity) ?_).trans whole.le
    rw [div_le_one divisor]
    exact_mod_cast below

/-! ### Members of a stratum -/

section Members

variable {plan : AuditSamplingPlan}

theorem stratumOf_eq_ok {entry : FrameEntry} {stratum : AuditStratum} :
    stratumOf plan entry = .ok stratum ↔ (plan.strata.filter fun stratum => stratum.Admits entry) = [stratum] := by
  rw [stratumOf]
  split
  next found => rw [found, Except.ok.injEq, List.singleton_inj]
  next other =>
    constructor
    · intro raised
      cases raised
    · intro found
      exact absurd found (other stratum)

/-- A unit that is placed belongs to its stratum and to no other. -/
theorem admits_iff {entry : FrameEntry} {stratum other : AuditStratum} (found : stratumOf plan entry = .ok stratum)
    (listed : other ∈ plan.strata) : other.Admits entry ↔ other = stratum := by
  have only := stratumOf_eq_ok.mp found
  have member : other ∈ plan.strata.filter (fun stratum => stratum.Admits entry) ↔ other = stratum := by
    rw [only, List.mem_singleton]
  rw [← member, List.mem_filter, decide_eq_true_eq]
  exact ⟨fun admits => ⟨listed, admits⟩, fun both => both.2⟩

theorem mem_of_stratumOf {entry : FrameEntry} {stratum : AuditStratum} (found : stratumOf plan entry = .ok stratum) :
    stratum ∈ plan.strata := by
  have only := stratumOf_eq_ok.mp found
  exact List.mem_of_mem_filter (only ▸ List.mem_singleton_self stratum)

theorem place_eq_ok {entry : FrameEntry} {pair : Identifier × FrameEntry} : place plan entry = .ok pair ↔
    ∃ stratum, stratumOf plan entry = .ok stratum ∧ pair = (stratum.stratum, entry) := by
  simp only [place, bind_eq_ok, Except.ok.injEq]
  exact ⟨fun ⟨stratum, found, same⟩ => ⟨stratum, found, same.symm⟩,
    fun ⟨stratum, found, same⟩ => ⟨stratum, found, same.symm⟩⟩

theorem stratum_injective {one two : AuditStratum} (first : one ∈ plan.strata) (second : two ∈ plan.strata)
    (same : one.stratum = two.stratum) : one = two :=
  List.inj_on_of_nodup_map plan.unique first second same

/-- What is entered under a stratum is what it admits. -/
theorem under_placed {entries : List FrameEntry} {placed : List (Identifier × FrameEntry)}
    (all : mapAll (place plan) entries = .ok placed) {stratum : AuditStratum} (listed : stratum ∈ plan.strata) :
    Dict.under placed stratum.stratum = entries.filter fun entry => stratum.Admits entry := by
  have pairs := forall₂_of_mapAll all
  clear all
  induction pairs with
  | nil => rfl
  | cons here _ ih =>
      obtain ⟨own, found, rfl⟩ := place_eq_ok.mp here
      have inside := mem_of_stratumOf found
      rw [Dict.under, List.filter_cons, List.filter_cons]
      by_cases its : stratum = own
      · have admits := (admits_iff found listed).mpr its
        rw [if_pos (by simp [its]), if_pos (by simpa using admits), List.map_cons]
        exact congrArg (_ :: ·) ih
      · have names : own.stratum ≠ stratum.stratum := fun same => its (stratum_injective inside listed same).symm
        have refuses : ¬ stratum.Admits _ := fun admits => its ((admits_iff found listed).mp admits)
        rw [if_neg (by simpa using names), if_neg (by simpa using refuses)]
        exact ih

end Members

/-! ### The draw of a stratum -/

section Draws

variable {hash : Json → String} {plan : AuditSamplingPlan} {entries : List FrameEntry}

/-- The units that a stratum admits. -/
def membersOf (entries : List FrameEntry) (stratum : AuditStratum) : List FrameEntry :=
  entries.filter fun entry => stratum.Admits entry

def probabilityOf (entries : List FrameEntry) (stratum : AuditStratum) : ℚ :=
  Binary64.nearest ((stratum.sampleSize : ℚ) / (membersOf entries stratum).length)

/-- The units that a stratum draws. -/
def drawnOf (hash : Json → String) (seed : Nat) (entries : List FrameEntry) (stratum : AuditStratum) :
    List FrameEntry :=
  (sortBy (rank hash seed stratum.stratum) (membersOf entries stratum)).take stratum.sampleSize

structure Drawn (entries : List FrameEntry) (stratum : AuditStratum) (chosen : List FrameEntry)
    (selections : List AuditSelection) : Prop where
  units : selections.map AuditSelection.entry = chosen
  strata : ∀ selection ∈ selections, selection.stratum = stratum.stratum
  probabilities : ∀ selection ∈ selections, selection.samplingProbability = probabilityOf entries stratum

theorem membersOf_length_le (unique : (entries.map FrameEntry.subjectId).Nodup) (stratum : AuditStratum) :
    (membersOf entries stratum).length ≤ 2 ^ 448 := by
  have bound := length_le_of_nodup unique
  rw [List.length_map] at bound
  exact (List.length_filter_le _ _).trans bound

theorem create_eq_ok {entry : FrameEntry} {stratum : Identifier} {probability : ℚ} {selection : AuditSelection}
    (made : AuditSelection.create entry stratum probability = .ok selection) :
    selection.entry = entry ∧ selection.stratum = stratum ∧ selection.samplingProbability = probability := by
  rw [AuditSelection.create] at made
  split at made
  next =>
    obtain rfl := Except.ok.inj made
    exact ⟨rfl, rfl, rfl⟩
  next => cases made

theorem drawn_of_mapAll {stratum : AuditStratum} {chosen : List FrameEntry} {selections : List AuditSelection}
    (made : mapAll (fun entry => AuditSelection.create entry stratum.stratum (probabilityOf entries stratum))
      chosen = .ok selections) : Drawn entries stratum chosen selections := by
  have pairs := forall₂_of_mapAll made
  refine ⟨?_, fun selection member => ?_, fun selection member => ?_⟩
  · rw [← List.map_id chosen]
    exact (map_eq_of_forall₂ pairs fun _ _ here => (create_eq_ok here).1.symm).symm
  · obtain ⟨_, _, here⟩ := forall_of_forall₂ pairs selection member
    exact (create_eq_ok here).2.1
  · obtain ⟨_, _, here⟩ := forall_of_forall₂ pairs selection member
    exact (create_eq_ok here).2.2

/-- A stratum draws exactly when it has enough units; nothing else can go wrong. -/
theorem draw_cases (hash : Json → String) (unique : (entries.map FrameEntry.subjectId).Nodup)
    {placed : List (Identifier × FrameEntry)} (all : mapAll (place plan) entries = .ok placed)
    {stratum : AuditStratum} (listed : stratum ∈ plan.strata) :
    ((membersOf entries stratum).length < stratum.sampleSize ∧ draw hash plan.seed placed stratum =
        .error (.selection "stratum sample size exceeds its frozen population")) ∨
      (stratum.sampleSize ≤ (membersOf entries stratum).length ∧ ∃ selections,
        draw hash plan.seed placed stratum = .ok selections ∧
          Drawn entries stratum (drawnOf hash plan.seed entries stratum) selections) := by
  have members : ((Dict.gather placed).get? stratum.stratum).getD [] = membersOf entries stratum := by
    rw [Dict.getD_gather, under_placed all listed, membersOf]
  rcases Nat.lt_or_ge (membersOf entries stratum).length stratum.sampleSize with few | enough
  · refine .inl ⟨few, ?_⟩
    simp only [draw, members, refuse, if_pos few, bind, Except.bind]
  · refine .inr ⟨enough, ?_⟩
    have filled : (membersOf entries stratum).length ≠ 0 := (stratum.positive.trans_le enough).ne'
    have inRange := quotient_inRange stratum.positive enough (membersOf_length_le unique stratum)
    have made : mapAll (fun entry => AuditSelection.create entry stratum.stratum (probabilityOf entries stratum))
        (drawnOf hash plan.seed entries stratum) = .ok ((drawnOf hash plan.seed entries stratum).map fun entry =>
          ⟨entry, stratum.stratum, probabilityOf entries stratum, inRange⟩) :=
      mapAll_eq_ok fun entry _ => dif_pos inRange
    refine ⟨_, ?_, drawn_of_mapAll made⟩
    simp only [draw, members, refuse, if_neg (Nat.not_lt.mpr enough), quotient, if_neg filled, bind, Except.bind]
    exact made

theorem Drawn.unique {others : List FrameEntry} {stratum : AuditStratum} {chosen : List FrameEntry}
    {one two : List AuditSelection} (first : Drawn entries stratum chosen one)
    (second : Drawn others stratum chosen two) (same : probabilityOf entries stratum = probabilityOf others stratum) :
    one = two := by
  refine List.ext_getElem ?_ fun index left right => ?_
  · rw [← List.length_map AuditSelection.entry, first.units, ← second.units, List.length_map]
  · have units : one[index].entry = two[index].entry := by
      have lists : one.map AuditSelection.entry = two.map AuditSelection.entry := first.units.trans second.units.symm
      have here := congrArg (fun units => units[index]?) lists
      simpa [List.getElem?_eq_getElem left, List.getElem?_eq_getElem right] using here
    have strata := (first.strata _ (List.getElem_mem left)).trans (second.strata _ (List.getElem_mem right)).symm
    have probabilities := ((first.probabilities _ (List.getElem_mem left)).trans same).trans
      (second.probabilities _ (List.getElem_mem right)).symm
    cases leftIs : one[index] with
    | mk => cases rightIs : two[index] with
      | mk =>
          simp only [leftIs, rightIs] at units strata probabilities
          subst units strata probabilities
          rfl

/-- The selections of a stratum among all are those that it drew. -/
theorem filter_flatten {strata : List AuditStratum} {parts : List (List AuditSelection)} {seed : Nat}
    (all : List.Forall₂ (fun stratum part => Drawn entries stratum (drawnOf hash seed entries stratum) part) strata
      parts) (unique : (strata.map AuditStratum.stratum).Nodup) {stratum : AuditStratum}
    (listed : stratum ∈ strata) :
    Drawn entries stratum (drawnOf hash seed entries stratum)
      (parts.flatten.filter fun selection => selection.stratum = stratum.stratum) := by
  induction all with
  | nil => cases listed
  | @cons own part rest parts here later ih =>
      obtain ⟨absent, distinct⟩ := List.nodup_cons.mp unique
      rw [List.flatten_cons, List.filter_append]
      rcases List.mem_cons.mp listed with rfl | inside
      · have kept : part.filter (fun selection => selection.stratum = stratum.stratum) = part :=
          List.filter_eq_self.mpr fun selection member => by simpa using here.strata selection member
        have dropped : parts.flatten.filter (fun selection => selection.stratum = stratum.stratum) = [] := by
          refine List.filter_eq_nil_iff.mpr fun selection member same => ?_
          obtain ⟨others, inParts, inOthers⟩ := List.mem_flatten.mp member
          obtain ⟨other, inRest, drawn⟩ := forall_of_forall₂ later others inParts
          refine absent (List.mem_map.mpr ⟨other, inRest, ?_⟩)
          exact (drawn.strata selection inOthers).symm.trans (by simpa using same)
        rw [kept, dropped, List.append_nil]
        exact here
      · have dropped : part.filter (fun selection => selection.stratum = stratum.stratum) = [] := by
          refine List.filter_eq_nil_iff.mpr fun selection member same => ?_
          refine absent (List.mem_map.mpr ⟨stratum, inside, ?_⟩)
          exact (by simpa using same : selection.stratum = stratum.stratum).symm.trans (here.strata selection member)
        rw [dropped, List.nil_append]
        exact ih distinct inside

end Draws

/-! ### Main result -/

theorem manifest_eq_ok {populationFrame samplingPlan : ArtifactRef} {selections : List AuditSelection}
    {createdAt : Timestamp} {manifest : AuditSelectionManifest} :
    AuditSelectionManifest.create populationFrame samplingPlan selections createdAt = .ok manifest ↔
      manifest.populationFrame = populationFrame ∧ manifest.samplingPlan = samplingPlan ∧
        manifest.selections = selections ∧ manifest.createdAt = createdAt := by
  constructor
  · intro made
    rw [AuditSelectionManifest.create] at made
    split at made
    next =>
      split at made
      next =>
        split at made
        next =>
          obtain rfl := Except.ok.inj made
          exact ⟨rfl, rfl, rfl, rfl⟩
        next => cases made
      next => cases made
    next => cases made
  · rintro ⟨rfl, rfl, rfl, rfl⟩
    rw [AuditSelectionManifest.create, dif_pos manifest.unique, dif_pos manifest.decisions, dif_pos manifest.sources]

section Derived

variable {hash : Json → String} {populationRef planRef : ArtifactRef} {population : AuditPopulationFrame}
  {plan : AuditSamplingPlan}

/-- The parts of a manifest that was derived. -/
structure Derives (hash : Json → String) (population : AuditPopulationFrame) (plan : AuditSamplingPlan)
    (selections : List AuditSelection) : Prop where
  placed : ∀ entry ∈ population.entries, ∃ stratum, stratumOf plan entry = .ok stratum
  enough : ∀ stratum ∈ plan.strata, stratum.sampleSize ≤ (membersOf population.entries stratum).length
  parts : ∃ parts, selections = parts.flatten ∧ List.Forall₂ (fun stratum part =>
    Drawn population.entries stratum (drawnOf hash plan.seed population.entries stratum) part) plan.strata parts

theorem derive_eq_ok {manifest : AuditSelectionManifest} :
    deriveSelectionManifest hash populationRef population planRef plan = .ok manifest ↔
      plan.populationFrame = populationRef ∧ manifest.populationFrame = populationRef ∧
        manifest.samplingPlan = planRef ∧ manifest.createdAt = plan.createdAt ∧
        Derives hash population plan manifest.selections := by
  simp only [deriveSelectionManifest, bind_eq_ok, refuse_eq_ok, not_not, manifest_eq_ok]
  constructor
  · rintro ⟨_, same, placed, all, parts, drawn, first, second, selections, created⟩
    have each : ∀ stratum ∈ plan.strata, stratum.sampleSize ≤ (membersOf population.entries stratum).length ∧
        ∃ part, draw hash plan.seed placed stratum = .ok part ∧
          Drawn population.entries stratum (drawnOf hash plan.seed population.entries stratum) part := by
      intro stratum listed
      rcases draw_cases hash population.unique all listed with ⟨_, raised⟩ | ⟨enough, part, found⟩
      · obtain ⟨part, _, found⟩ := forall_of_forall₂ (forall₂_of_mapAll drawn).flip stratum listed
        rw [raised] at found
        cases found
      · exact ⟨enough, part, found⟩
    refine ⟨same, first, second, created, fun entry member => ?_, fun stratum listed => (each stratum listed).1, ?_⟩
    · obtain ⟨pair, _, found⟩ := forall_of_forall₂ (forall₂_of_mapAll all).flip entry member
      obtain ⟨stratum, placed, _⟩ := place_eq_ok.mp found
      exact ⟨stratum, placed⟩
    · obtain ⟨others, found, pairs⟩ := mapAll_forall₂ fun stratum listed => (each stratum listed).2
      obtain rfl := Except.ok.inj (drawn.symm.trans found)
      exact ⟨parts, selections, pairs⟩
  · rintro ⟨same, first, second, created, derives⟩
    have everyone : ∀ entry ∈ population.entries, ∃ pair, place plan entry = .ok pair ∧ True := by
      intro entry member
      obtain ⟨stratum, found⟩ := derives.placed entry member
      exact ⟨_, place_eq_ok.mpr ⟨stratum, found, rfl⟩, trivial⟩
    obtain ⟨placed, all, _⟩ := mapAll_exists everyone
    have each : ∀ stratum ∈ plan.strata, ∃ part, draw hash plan.seed placed stratum = .ok part ∧
        Drawn population.entries stratum (drawnOf hash plan.seed population.entries stratum) part := by
      intro stratum listed
      rcases draw_cases hash population.unique all listed with ⟨few, _⟩ | ⟨_, part, found⟩
      · exact absurd (derives.enough stratum listed) (Nat.not_le.mpr few)
      · exact ⟨part, found⟩
    obtain ⟨others, found, pairs⟩ := mapAll_forall₂ each
    obtain ⟨parts, selections, known⟩ := derives.parts
    have equal : parts = others :=
      Relator.RightUnique.forall₂ (fun _ _ _ one two => one.unique two rfl) known pairs
    exact ⟨(), same, placed, all, others, found, first, second, selections.trans (by rw [equal]), created⟩

/-- A derivation never divides by zero. -/
theorem derive_ne_zeroDivision :
    deriveSelectionManifest hash populationRef population planRef plan ≠ .error .zeroDivision := by
  intro raised
  rw [deriveSelectionManifest] at raised
  by_cases same : plan.populationFrame = populationRef
  · rw [refuse, if_neg (not_not.mpr same)] at raised
    cases all : mapAll (place plan) population.entries with
    | error failure =>
        simp only [bind, Except.bind, all] at raised
        obtain rfl := Except.error.inj raised
        obtain ⟨entry, _, unplaced⟩ := exists_error all
        rw [place, stratumOf] at unplaced
        split at unplaced <;> cases unplaced
    | ok placed =>
        cases drawn : mapAll (draw hash plan.seed placed) plan.strata with
        | error failure =>
            simp only [bind, Except.bind, all, drawn] at raised
            obtain rfl := Except.error.inj raised
            obtain ⟨stratum, listed, undrawn⟩ := exists_error drawn
            rcases draw_cases hash population.unique all listed with ⟨_, few⟩ | ⟨_, part, found, _⟩
            · rw [undrawn] at few
              cases few
            · rw [undrawn] at found
              cases found
        | ok parts =>
            simp only [bind, Except.bind, all, drawn, AuditSelectionManifest.create] at raised
            split_ifs at raised <;> cases raised
  · rw [refuse, if_pos same] at raised
    cases raised

end Derived

/-! ### The order of the population -/

/-- The hash tells the subjects of a population apart in every stratum. -/
def Distinct (hash : Json → String) (population : AuditPopulationFrame) (plan : AuditSamplingPlan) : Prop :=
  ∀ stratum ∈ plan.strata, ∀ one ∈ population.entries, ∀ two ∈ population.entries,
    rank hash plan.seed stratum.stratum one = rank hash plan.seed stratum.stratum two → one.subjectId = two.subjectId

theorem Derives.of_perm {hash : Json → String} {population other : AuditPopulationFrame}
    {plan moved : AuditSamplingPlan} {selections : List AuditSelection} (derives : Derives hash population plan selections)
    (distinct : Distinct hash population plan) (same : other.entries.Perm population.entries)
    (seed : moved.seed = plan.seed) (strata : moved.strata = plan.strata) : Derives hash other moved selections := by
  have members (stratum : AuditStratum) :
      (membersOf other.entries stratum).Perm (membersOf population.entries stratum) := same.filter _
  have probability (stratum : AuditStratum) :
      probabilityOf other.entries stratum = probabilityOf population.entries stratum := by
    rw [probabilityOf, (members stratum).length_eq, probabilityOf]
  have drawn : ∀ stratum ∈ plan.strata, drawnOf hash moved.seed other.entries stratum =
      drawnOf hash plan.seed population.entries stratum := by
    intro stratum listed
    rw [drawnOf, drawnOf, seed]
    refine congrArg (List.take stratum.sampleSize) (sortBy_eq_of_perm ?_ (members stratum).symm).symm
    intro one first two second equal
    have oneListed := List.mem_of_mem_filter first
    have twoListed := List.mem_of_mem_filter second
    exact List.inj_on_of_nodup_map population.unique oneListed twoListed
      (distinct stratum listed one oneListed two twoListed equal)
  refine ⟨fun entry member => ?_, fun stratum listed => ?_, ?_⟩
  · obtain ⟨stratum, found⟩ := derives.placed entry (same.mem_iff.mp member)
    exact ⟨stratum, by rw [stratumOf, strata]; exact found⟩
  · rw [strata] at listed
    rw [(members stratum).length_eq]
    exact derives.enough stratum listed
  · obtain ⟨parts, flat, pairs⟩ := derives.parts
    refine ⟨parts, flat, ?_⟩
    rw [strata]
    refine (List.forall₂_and_left (p := fun stratum => stratum ∈ plan.strata) _ _).mpr ⟨fun _ => id, pairs⟩ |>.imp ?_
    rintro stratum part ⟨listed, here⟩
    rw [drawn stratum listed]
    refine ⟨here.units, here.strata, fun selection member => ?_⟩
    rw [here.probabilities selection member, probability]

/-! ### Main result -/

/-- What a manifest says of its population and its plan. -/
structure Samples (population : AuditPopulationFrame) (plan : AuditSamplingPlan) (selections : List AuditSelection) :
    Prop where
  classified : ∀ entry ∈ population.entries, ∃! stratum, stratum ∈ plan.strata ∧ stratum.Admits entry
  strata : ∀ selection ∈ selections, ∃ stratum ∈ plan.strata, selection.stratum = stratum.stratum
  sizes : ∀ stratum ∈ plan.strata,
    (selections.filter fun selection => selection.stratum = stratum.stratum).length = stratum.sampleSize
  subjects : (selections.map fun selection => selection.entry.subjectId).Nodup
  members : ∀ stratum ∈ plan.strata, ∀ selection ∈ selections, selection.stratum = stratum.stratum →
    selection.entry ∈ population.entries ∧ stratum.Admits selection.entry
  probabilities : ∀ stratum ∈ plan.strata, ∀ selection ∈ selections, selection.stratum = stratum.stratum →
    selection.samplingProbability = Binary64.nearest ((stratum.sampleSize : ℚ) /
      (population.entries.filter fun entry => stratum.Admits entry).length) ∧
      0 < selection.samplingProbability ∧ selection.samplingProbability ≤ 1

theorem Derives.samples {hash : Json → String} {population : AuditPopulationFrame} {plan : AuditSamplingPlan}
    {manifest : AuditSelectionManifest} (derives : Derives hash population plan manifest.selections) :
    Samples population plan manifest.selections := by
  obtain ⟨parts, flat, pairs⟩ := derives.parts
  have part : ∀ stratum ∈ plan.strata, Drawn population.entries stratum
      (drawnOf hash plan.seed population.entries stratum)
      (manifest.selections.filter fun selection => selection.stratum = stratum.stratum) := by
    intro stratum listed
    rw [flat]
    exact filter_flatten pairs plan.unique listed
  have kept {stratum : AuditStratum} {selection : AuditSelection} (member : selection ∈ manifest.selections)
      (same : selection.stratum = stratum.stratum) :
      selection ∈ manifest.selections.filter fun selection => selection.stratum = stratum.stratum :=
    List.mem_filter.mpr ⟨member, by simpa using same⟩
  refine ⟨?_, ?_, ?_, manifest.unique, ?_, ?_⟩
  · intro entry member
    obtain ⟨stratum, found⟩ := derives.placed entry member
    have listed := mem_of_stratumOf found
    refine ⟨stratum, ⟨listed, (admits_iff found listed).mpr rfl⟩, ?_⟩
    rintro other ⟨otherListed, admits⟩
    exact (admits_iff found otherListed).mp admits
  · intro selection member
    rw [flat] at member
    obtain ⟨chosen, inParts, inChosen⟩ := List.mem_flatten.mp member
    obtain ⟨stratum, listed, drawn⟩ := forall_of_forall₂ pairs chosen inParts
    exact ⟨stratum, listed, drawn.strata selection inChosen⟩
  · intro stratum listed
    rw [← List.length_map AuditSelection.entry, (part stratum listed).units, drawnOf, List.length_take,
      (sortBy_perm _ _).length_eq, Nat.min_eq_left (derives.enough stratum listed)]
  · intro stratum listed selection member same
    have unit : selection.entry ∈ drawnOf hash plan.seed population.entries stratum := by
      rw [← (part stratum listed).units]
      exact List.mem_map_of_mem (kept member same)
    have admitted := mem_sortBy.mp (List.mem_of_mem_take unit)
    exact ⟨List.mem_of_mem_filter admitted, by simpa using List.of_mem_filter admitted⟩
  · intro stratum listed selection member same
    exact ⟨(part stratum listed).probabilities selection (kept member same), selection.inRange⟩

/-- An accepted plan samples its population by strata, whatever the order of the population, and
no derivation divides by zero. -/
theorem selection_sound (hash : Json → String) (populationRef planRef : ArtifactRef)
    (population : AuditPopulationFrame) (plan : AuditSamplingPlan) :
    deriveSelectionManifest hash populationRef population planRef plan ≠ .error .zeroDivision ∧
      ∀ manifest, deriveSelectionManifest hash populationRef population planRef plan = .ok manifest →
        Samples population plan manifest.selections ∧
        ∀ otherRef otherPlanRef (other : AuditPopulationFrame), other.entries.Perm population.entries →
          Distinct hash population plan → ∃ again, deriveSelectionManifest hash otherRef other otherPlanRef
            { plan with populationFrame := otherRef } = .ok again ∧ again.selections = manifest.selections := by
  refine ⟨derive_ne_zeroDivision, fun manifest derived => ?_⟩
  obtain ⟨_, _, _, _, derives⟩ := derive_eq_ok.mp derived
  refine ⟨derives.samples, fun otherRef otherPlanRef other same distinct => ?_⟩
  exact ⟨⟨otherRef, otherPlanRef, manifest.selections, plan.createdAt, manifest.unique, manifest.decisions,
    manifest.sources⟩, derive_eq_ok.mpr ⟨rfl, rfl, rfl, rfl, derives.of_perm distinct same rfl rfl⟩, rfl⟩

/-! ### A sample -/

namespace Sample

def reference (kind : Identifier) : ArtifactRef where
  sha256 := ⟨"6ad189ace456a83fade855d5a647cd8ad9e7966da4404b1187218dca3d9eddaa", isDigest_source⟩
  kind := kind
  schemaVersion := 1
  visibility := Visibility.private
  encoding := .json
  bounded := firstSchema

def frame : ArtifactRef := reference ⟨"m8-audit-population", by decide +kernel⟩

def first : Digest := ⟨"aaaaaaaaaaaaaaaaaaaaaaaaaaaaaaaaaaaaaaaaaaaaaaaaaaaaaaaaaaaaaaaa", by decide +kernel⟩

def second : Digest := ⟨"dddddddddddddddddddddddddddddddddddddddddddddddddddddddddddddddd", by decide +kernel⟩

def third : Digest := ⟨"bbbbbbbbbbbbbbbbbbbbbbbbbbbbbbbbbbbbbbbbbbbbbbbbbbbbbbbbbbbbbbbb", by decide +kernel⟩

def fourth : Digest := ⟨"cccccccccccccccccccccccccccccccccccccccccccccccccccccccccccccccc", by decide +kernel⟩

def family : Identifier := ⟨"family", by decide +kernel⟩

def category : Identifier := ⟨"none", by decide +kernel⟩

def patch (subject : Digest) (decision : VerifierDecision) : FrameEntry :=
  .patch ⟨subject, subject, family, decision, category, rfl⟩

def rejected : FrameEntry :=
  .source ⟨fourth, fourth, reference ⟨"CandidateRecord", by decide +kernel⟩,
    reference ⟨"m6-source-disposition", by decide +kernel⟩, family, category, rfl, rfl, rfl⟩

/-- The hashes of the sample's units in their strata. -/
def hash : Json → String
  | .obj [_, _, (_, .str subject), _] =>
      if subject = first.val then "86c393cf1989b34963bf6af8f6d70db37372c5591a697bf3c603341ac0028e9b"
      else if subject = second.val then "7a6f9124b38359a4f033ab88269f71419866e8afbdf7bb7d71615694de30a0ea"
      else if subject = third.val then "d9e8dd736326b115f2ef5aefefd5f9b83997b954a6c0d220aa3c94450ad0dec9"
      else "7fbda75553c69b1b813c7854382dc06a94b0e0832d349ff3d4559141bcd59928"
  | _ => ""

def entries : List FrameEntry := [patch first .accepted, patch second .accepted, patch third .rejected, rejected]

def created : Timestamp := ⟨2026, 1, 1, 0, 0, 0, 0, newYear.valid⟩

def population : AuditPopulationFrame where
  entries := entries
  createdAt := created
  unique := by decide +kernel
  patches := ⟨_, List.mem_cons_self, rfl⟩
  sources := ⟨rejected, by decide +kernel, rfl⟩

def accepting : AuditStratum :=
  ⟨⟨"s1", by decide +kernel⟩, .patch, family, ⟨"accepted", by decide +kernel⟩, category, 1, by decide⟩

def rejecting : AuditStratum :=
  ⟨⟨"s2", by decide +kernel⟩, .patch, family, ⟨"rejected", by decide +kernel⟩, category, 1, by decide⟩

def sources : AuditStratum :=
  ⟨⟨"s3", by decide +kernel⟩, .source, family, ⟨"rejected_source", by decide +kernel⟩, category, 1, by decide⟩

def plan : AuditSamplingPlan where
  populationFrame := frame
  seed := 0
  strata := [accepting, rejecting, sources]
  createdAt := created
  filled := by decide
  unique := by decide +kernel

theorem enough : ∀ stratum ∈ plan.strata, stratum.sampleSize ≤ (membersOf entries stratum).length := by
  decide +kernel

def select (entry : FrameEntry) (stratum : AuditStratum) (listed : stratum ∈ plan.strata) : AuditSelection where
  entry := entry
  stratum := stratum.stratum
  samplingProbability := probabilityOf entries stratum
  inRange := quotient_inRange stratum.positive (enough stratum listed) (membersOf_length_le population.unique stratum)

def chosen : AuditSelection := select (patch second .accepted) accepting (by decide +kernel)

def refused : AuditSelection := select (patch third .rejected) rejecting (by decide +kernel)

def unsourced : AuditSelection := select rejected sources (by decide +kernel)

def manifest : AuditSelectionManifest where
  populationFrame := frame
  samplingPlan := frame
  selections := [chosen, refused, unsourced]
  createdAt := created
  unique := by decide +kernel
  decisions := by decide +kernel
  sources := ⟨unsourced, by simp, rfl⟩

theorem drawn {entry : FrameEntry} {stratum : AuditStratum} (listed : stratum ∈ plan.strata)
    (units : [entry] = drawnOf hash 0 entries stratum) :
    Drawn entries stratum (drawnOf hash 0 entries stratum) [select entry stratum listed] :=
  ⟨units, by simp [select], by simp [select]⟩

theorem placed : ∀ entry ∈ entries, ∃ stratum, stratumOf plan entry = .ok stratum := by
  refine List.forall_mem_cons.mpr ⟨⟨accepting, stratumOf_eq_ok.mpr (by decide +kernel)⟩, ?_⟩
  refine List.forall_mem_cons.mpr ⟨⟨accepting, stratumOf_eq_ok.mpr (by decide +kernel)⟩, ?_⟩
  refine List.forall_mem_cons.mpr ⟨⟨rejecting, stratumOf_eq_ok.mpr (by decide +kernel)⟩, ?_⟩
  exact List.forall_mem_cons.mpr ⟨⟨sources, stratumOf_eq_ok.mpr (by decide +kernel)⟩, by simp⟩

theorem derived : deriveSelectionManifest hash frame population frame plan = .ok manifest :=
  derive_eq_ok.mpr ⟨rfl, rfl, rfl, rfl, placed, enough, [[chosen], [refused], [unsourced]], rfl,
    .cons (drawn _ (by decide +kernel)) (.cons (drawn _ (by decide +kernel))
      (.cons (drawn _ (by decide +kernel)) .nil))⟩

def reordered : AuditPopulationFrame where
  entries := entries.reverse
  createdAt := created
  unique := by decide +kernel
  patches := ⟨patch first .accepted, by decide +kernel, rfl⟩
  sources := ⟨rejected, by decide +kernel, rfl⟩

end Sample

theorem selection_sound_sample :
    Samples Sample.population Sample.plan Sample.manifest.selections ∧
      ∃ again, deriveSelectionManifest Sample.hash Sample.frame Sample.reordered Sample.frame
        { Sample.plan with populationFrame := Sample.frame } = .ok again ∧
        again.selections = Sample.manifest.selections := by
  obtain ⟨_, sound⟩ := selection_sound Sample.hash Sample.frame Sample.frame Sample.population Sample.plan
  obtain ⟨samples, ordered⟩ := sound Sample.manifest Sample.derived
  refine ⟨samples, ordered Sample.frame Sample.frame Sample.reordered (List.reverse_perm _) ?_⟩
  unfold Distinct
  decide +kernel

end Audits

end FeatureRl
