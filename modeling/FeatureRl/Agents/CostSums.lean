import FeatureRl.Lib.Sorting
import FeatureRl.Registry.Transitions
import Mathlib.Data.NNRat.Defs
import Mathlib.Data.Nat.Cast.Basic

/-!
Cost records added up by category, in exact arithmetic. An unknown constituent keeps its dimension unknown, however
the records are grouped, and the sums of a phase continue its first, all-unknown snapshot.
-/

namespace FeatureRl

open Sorting

namespace CostSums

structure Values where
  wallSeconds : Option ℚ≥0
  cpuSeconds : Option ℚ≥0
  gpuSeconds : Option ℚ≥0
  inputTokens : Option Nat
  outputTokens : Option Nat
  humanMinutes : Option ℚ≥0
  usd : Option ℚ≥0
deriving DecidableEq

namespace Values

def known (values : Values) : List Bool :=
  [values.wallSeconds.isSome, values.cpuSeconds.isSome, values.gpuSeconds.isSome, values.inputTokens.isSome,
    values.outputTokens.isSome, values.humanMinutes.isSome, values.usd.isSome]

def unknown : Values := ⟨none, none, none, none, none, none, none⟩

end Values

structure CostRecord extends Values where
  category : CostCategory
  measurement : Measurement
  note : Text
  consistent : measurementConsistency measurement toValues.known = true
deriving DecidableEq

/-- The record, unless its label contradicts its values. -/
def CostRecord.create (category : CostCategory) (values : Values) (measurement : Measurement) (note : Text) :
    Option CostRecord :=
  if consistent : measurementConsistency measurement values.known = true then
    some ⟨values, category, measurement, note, consistent⟩
  else none

def unknownCost (category : CostCategory) (note : Text) : CostRecord where
  toValues := .unknown
  category := category
  measurement := .unknown
  note := note
  consistent := rfl

/-! ### Sums -/

/-- The sum of the parts, unknown as soon as one of them is. -/
def total {κ : Type} [AddCommMonoid κ] (parts : List (Option κ)) : Option κ :=
  if parts.any Option.isNone then none else some (parts.filterMap id).sum

def totals (rows : List CostRecord) : Values where
  wallSeconds := total (rows.map (·.wallSeconds))
  cpuSeconds := total (rows.map (·.cpuSeconds))
  gpuSeconds := total (rows.map (·.gpuSeconds))
  inputTokens := total (rows.map (·.inputTokens))
  outputTokens := total (rows.map (·.outputTokens))
  humanMinutes := total (rows.map (·.humanMinutes))
  usd := total (rows.map (·.usd))

def categories (costs : List CostRecord) : List CostCategory :=
  sortBy CostCategory.name (costs.map CostRecord.category).dedup

def rowsOf (costs : List CostRecord) (category : CostCategory) : List CostRecord :=
  costs.filter fun cost => cost.category = category

/-- One record for each category, with the label that its sums are given. -/
def summed (label : Values → Measurement) (note : Text) (costs : List CostRecord) : Option (List CostRecord) :=
  (categories costs).mapM fun category =>
    CostRecord.create category (totals (rowsOf costs category)) (label (totals (rowsOf costs category))) note

def aggregateLabel (values : Values) : Measurement := if values.known.any id then .incomplete else .unknown

def aggregateNote : Text :=
  ⟨"Actual phase costs aggregated by category; unknown dimensions retained. Raw phase receipt preserves attribution.",
    by decide +kernel⟩

def aggregate (costs : List CostRecord) : Option (List CostRecord) := summed aggregateLabel aggregateNote costs

def collapseLabel (values : Values) : Measurement :=
  if values.known.all id then .measured else if values.known.any id then .incomplete else .unknown

def collapseNote : Text :=
  ⟨"Sum of attributable records; any unknown constituent keeps its channel unknown. Original records retained in grade results.",
    by decide +kernel⟩

def overheadNote : Text := ⟨"M5 controller/publication overhead not measured", by decide +kernel⟩

/-- The sums; one unknown record where there is nothing to add up. -/
def collapseCosts (costs : List CostRecord) : Option (List CostRecord) := do
  let result ← summed collapseLabel collapseNote costs
  if result.isEmpty then some [unknownCost .verifier overheadNote] else some result

/-! ### Every sum is a record -/

/-- A label that fits the values that it is given to. -/
def Labels (label : Values → Measurement) : Prop :=
  ∀ values : Values, measurementConsistency (label values) values.known = true

theorem labels_aggregate : Labels aggregateLabel := by
  intro values
  rw [aggregateLabel]
  cases some : values.known.any id with
  | true => simpa [measurementConsistency] using some
  | false => simpa [measurementConsistency] using some

theorem labels_collapse : Labels collapseLabel := by
  intro values
  rw [collapseLabel]
  cases all : values.known.all id with
  | true => simpa [measurementConsistency] using all
  | false =>
      cases some : values.known.any id with
      | true => simpa [measurementConsistency] using some
      | false => simpa [measurementConsistency] using some

section

variable {label : Values → Measurement} (good : Labels label) (note : Text)

/-- The record of one category. -/
def record (costs : List CostRecord) (category : CostCategory) : CostRecord where
  toValues := totals (rowsOf costs category)
  category := category
  measurement := label (totals (rowsOf costs category))
  note := note
  consistent := good _

theorem summed_eq (costs : List CostRecord) :
    summed label note costs = some ((categories costs).map (record good note costs)) := by
  have each : (fun category => CostRecord.create category (totals (rowsOf costs category))
      (label (totals (rowsOf costs category))) note) = fun category => some (record good note costs category) := by
    funext category
    rw [CostRecord.create, dif_pos (good _)]
    rfl
  rw [summed, each]
  exact List.mapM_pure ..

theorem mem_categories {costs : List CostRecord} {category : CostCategory} :
    category ∈ categories costs ↔ ∃ cost ∈ costs, cost.category = category := by
  rw [categories, mem_sortBy, List.mem_dedup, List.mem_map]

theorem nodup_categories (costs : List CostRecord) : (categories costs).Nodup :=
  nodup_sortBy.mpr (List.nodup_dedup _)

theorem name_injective : Function.Injective CostCategory.name := by
  intro one two same
  cases one <;> cases two <;> first | rfl | (revert same; decide)

theorem categories_eq {costs others : List CostRecord}
    (same : ∀ category, (∃ cost ∈ costs, cost.category = category) ↔ ∃ cost ∈ others, cost.category = category) :
    categories costs = categories others := by
  refine sortBy_eq_of_perm (fun _ _ _ _ equal => name_injective equal) ?_
  refine (List.perm_ext_iff_of_nodup (List.nodup_dedup _) (List.nodup_dedup _)).mpr fun category => ?_
  rw [List.mem_dedup, List.mem_dedup, List.mem_map, List.mem_map]
  exact same category

end

/-! ### Totals -/

section

variable {κ : Type} [AddCommMonoid κ] {parts others : List (Option κ)}

theorem total_eq_none : total parts = none ↔ none ∈ parts := by
  rw [total]
  split
  next some =>
    obtain ⟨part, member, gone⟩ := List.any_eq_true.mp some
    rw [Option.isNone_iff_eq_none] at gone
    exact ⟨fun _ => gone ▸ member, fun _ => rfl⟩
  next all =>
    refine ⟨fun impossible => (Option.some_ne_none _ impossible).elim, fun member => (all ?_).elim⟩
    exact List.any_eq_true.mpr ⟨none, member, rfl⟩

theorem total_of_known (known : none ∉ parts) : total parts = some (parts.filterMap id).sum := by
  rw [total, if_neg]
  intro some
  obtain ⟨part, member, gone⟩ := List.any_eq_true.mp some
  rw [Option.isNone_iff_eq_none] at gone
  exact known (gone ▸ member)

theorem total_perm (same : parts.Perm others) : total parts = total others := by
  by_cases unknown : none ∈ parts
  · rw [total_eq_none.mpr unknown, total_eq_none.mpr (same.mem_iff.mp unknown)]
  · rw [total_of_known unknown, total_of_known (same.mem_iff.not.mp unknown), (same.filterMap id).sum_eq]

/-- A sum of some of the parts stands for them. -/
theorem total_cons (first rest : List (Option κ)) : total (total first :: rest) = total (first ++ rest) := by
  by_cases unknown : none ∈ first
  · rw [total_eq_none.mpr unknown, total_eq_none.mpr List.mem_cons_self,
      total_eq_none.mpr (List.mem_append_left _ unknown)]
  · rw [total_of_known unknown]
    by_cases later : none ∈ rest
    · rw [total_eq_none.mpr (List.mem_cons_of_mem _ later), total_eq_none.mpr (List.mem_append_right _ later)]
    · rw [total_of_known (by simp [later]), total_of_known (by simp [unknown, later])]
      simp

end

theorem totals_perm {rows others : List CostRecord} (same : rows.Perm others) : totals rows = totals others := by
  simp only [totals, total_perm (same.map _)]

theorem totals_cons {cost : CostRecord} {first : List CostRecord} (sums : cost.toValues = totals first)
    (rest : List CostRecord) : totals (cost :: rest) = totals (first ++ rest) := by
  simp only [totals, List.map_cons, List.map_append, sums, total_cons]

/-! ### What the sums of a list are -/

section

variable {label : Values → Measurement} (good : Labels label) (note : Text)

def sums (costs : List CostRecord) : List CostRecord := (categories costs).map (record good note costs)

theorem map_category_sums (costs : List CostRecord) :
    (sums good note costs).map CostRecord.category = categories costs := by
  rw [sums, List.map_map]
  exact List.map_id _

theorem rowsOf_perm {costs others : List CostRecord} (same : costs.Perm others) (category : CostCategory) :
    (rowsOf costs category).Perm (rowsOf others category) := same.filter _

theorem record_congr {costs others : List CostRecord} {category : CostCategory}
    (same : totals (rowsOf costs category) = totals (rowsOf others category)) :
    record good note costs category = record good note others category := by
  simp only [record, same]

theorem sums_perm {costs others : List CostRecord} (same : costs.Perm others) :
    sums good note costs = sums good note others := by
  have keys : categories costs = categories others :=
    categories_eq fun category => exists_congr fun cost => and_congr_left' same.mem_iff
  rw [sums, sums, keys]
  exact List.map_congr_left fun category _ => record_congr good note (totals_perm (rowsOf_perm same category))

theorem rowsOf_sums {costs : List CostRecord} {category : CostCategory} :
    rowsOf (sums good note costs) category =
      if category ∈ categories costs then [record good note costs category] else [] := by
  have distinct := nodup_categories costs
  rw [rowsOf, sums, List.filter_map]
  have picks : (fun cost : CostRecord => decide (cost.category = category)) ∘ record good note costs =
      fun other => decide (other = category) := rfl
  rw [picks]
  split
  next member =>
    have single : (categories costs).filter (fun other => decide (other = category)) = [category] := by
      rw [List.filter_eq, List.count_eq_one_of_mem distinct member, List.replicate_one]
    rw [single, List.map_singleton]
  next absent =>
    have none : (categories costs).filter (fun other => decide (other = category)) = [] := by
      rw [List.filter_eq, List.count_eq_zero_of_not_mem absent, List.replicate_zero]
    rw [none, List.map_nil]

theorem rowsOf_eq_nil {costs : List CostRecord} {category : CostCategory} (absent : category ∉ categories costs) :
    rowsOf costs category = [] := by
  rw [rowsOf, List.filter_eq_nil_iff]
  intro cost member same
  exact absent (mem_categories.mpr ⟨cost, member, by simpa using same⟩)

/-- Adding a part up first changes nothing. -/
theorem sums_append (first rest : List CostRecord) :
    sums good note (sums good note first ++ rest) = sums good note (first ++ rest) := by
  have keys : categories (sums good note first ++ rest) = categories (first ++ rest) := by
    refine categories_eq fun category => ?_
    have inner : (∃ cost ∈ sums good note first, cost.category = category) ↔
        ∃ cost ∈ first, cost.category = category := by
      rw [← @mem_categories first, ← map_category_sums good note first, List.mem_map]
    simp only [List.mem_append, or_and_right, exists_or, inner]
  rw [sums.eq_def good note (sums good note first ++ rest), keys, sums.eq_def good note (first ++ rest)]
  refine List.map_congr_left fun category _ => record_congr good note ?_
  have split (front : List CostRecord) : rowsOf (front ++ rest) category = rowsOf front category ++ rowsOf rest category :=
    List.filter_append ..
  rw [split, split, rowsOf_sums]
  by_cases member : category ∈ categories first
  · rw [if_pos member, List.singleton_append]
    exact totals_cons rfl _
  · rw [if_neg member, rowsOf_eq_nil member]

end

/-! ### Dimensions -/

inductive Dimension where
  | wallSeconds | cpuSeconds | gpuSeconds | inputTokens | outputTokens | humanMinutes | usd
deriving DecidableEq

def rational (count : Nat) : ℚ≥0 := count

def Values.dimension (values : Values) : Dimension → Option ℚ≥0
  | .wallSeconds => values.wallSeconds
  | .cpuSeconds => values.cpuSeconds
  | .gpuSeconds => values.gpuSeconds
  | .inputTokens => values.inputTokens.map rational
  | .outputTokens => values.outputTokens.map rational
  | .humanMinutes => values.humanMinutes
  | .usd => values.usd

theorem total_rational (parts : List (Option Nat)) :
    (total parts).map rational = total (parts.map (Option.map rational)) := by
  by_cases unknown : none ∈ parts
  · have still : none ∈ parts.map (Option.map rational) := List.mem_map.mpr ⟨none, unknown, rfl⟩
    rw [total_eq_none.mpr unknown, total_eq_none.mpr still, Option.map_none]
  · have still : none ∉ parts.map (Option.map rational) := by simpa using unknown
    have kept : (parts.map (Option.map rational)).filterMap id = (parts.filterMap id).map rational := by
      rw [List.filterMap_map, List.map_filterMap]
      rfl
    rw [total_of_known unknown, total_of_known still, kept, Option.map_some]
    exact congrArg some (map_list_sum (Nat.castAddMonoidHom ℚ≥0) _)

/-- Each dimension of a sum is the total of that dimension. -/
theorem dimension_totals (rows : List CostRecord) (dimension : Dimension) :
    (totals rows).dimension dimension = total (rows.map fun cost => cost.dimension dimension) := by
  cases dimension with
  | inputTokens => simp only [Values.dimension, totals, total_rational, List.map_map, Function.comp_def]
  | outputTokens => simp only [Values.dimension, totals, total_rational, List.map_map, Function.comp_def]
  | _ => rfl

/-- Unknown if and only if unknown in some contributing record, and otherwise the sum. -/
structure IsSum (costs : List CostRecord) (result : CostRecord) : Prop where
  contributes : ∃ cost ∈ costs, cost.category = result.category
  unknown : ∀ dimension, result.dimension dimension = none ↔
    ∃ cost ∈ costs, cost.category = result.category ∧ cost.dimension dimension = none
  sum : ∀ dimension known, result.dimension dimension = some known →
    known = ((rowsOf costs result.category).filterMap fun cost => cost.dimension dimension).sum

theorem isSum_record {label : Values → Measurement} (good : Labels label) (note : Text) {costs : List CostRecord}
    {category : CostCategory} (member : category ∈ categories costs) :
    IsSum costs (record good note costs category) where
  contributes := mem_categories.mp member
  unknown dimension := by
    have shape := dimension_totals (rowsOf costs category) dimension
    rw [show (record good note costs category).dimension dimension = _ from shape, total_eq_none, List.mem_map]
    refine exists_congr fun cost => ?_
    rw [rowsOf, List.mem_filter, decide_eq_true_eq, and_assoc]
    rfl
  sum dimension known found := by
    have shape := dimension_totals (rowsOf costs category) dimension
    rw [show (record good note costs category).dimension dimension = _ from shape] at found
    have all : none ∉ (rowsOf costs category).map fun cost => cost.dimension dimension := by
      intro unknown
      rw [total_eq_none.mpr unknown] at found
      cases found
    rw [total_of_known all, List.filterMap_map] at found
    exact (Option.some.inj found).symm

/-! ### The two aggregators -/

/-- What an aggregator does with the lists that it is meant for. -/
structure Aggregates (aggregator : List CostRecord → Option (List CostRecord)) (meant : List CostRecord → Prop) :
    Prop where
  sums : ∀ costs, meant costs → ∃ result, aggregator costs = some result ∧
    (result.map CostRecord.category).Nodup ∧
    (∀ cost ∈ costs, ∃ row ∈ result, row.category = cost.category) ∧ ∀ row ∈ result, IsSum costs row
  order : ∀ costs others, costs.Perm others → aggregator costs = aggregator others
  grouping : ∀ costs first rest inner, meant first → costs.Perm (first ++ rest) → aggregator first = some inner →
    aggregator (inner ++ rest) = aggregator costs

section

variable {label : Values → Measurement} (good : Labels label) (note : Text)

include good

theorem summed_sums (costs : List CostRecord) : ∃ result, summed label note costs = some result ∧
    (result.map CostRecord.category).Nodup ∧
    (∀ cost ∈ costs, ∃ row ∈ result, row.category = cost.category) ∧ ∀ row ∈ result, IsSum costs row := by
  refine ⟨_, summed_eq good note costs, ?_, fun cost member => ?_, fun row member => ?_⟩
  · rw [← sums, map_category_sums]
    exact nodup_categories costs
  · exact ⟨_, List.mem_map_of_mem (mem_categories.mpr ⟨cost, member, rfl⟩), rfl⟩
  · obtain ⟨category, listed, rfl⟩ := List.mem_map.mp member
    exact isSum_record good note listed

theorem summed_perm {costs others : List CostRecord} (same : costs.Perm others) :
    summed label note costs = summed label note others := by
  rw [summed_eq good, summed_eq good, ← sums, ← sums, sums_perm good note same]

theorem summed_append {costs first rest inner : List CostRecord} (same : costs.Perm (first ++ rest))
    (found : summed label note first = some inner) : summed label note (inner ++ rest) = summed label note costs := by
  rw [summed_eq good, Option.some.injEq, ← sums] at found
  rw [summed_perm good note same, summed_eq good, summed_eq good, ← sums, ← sums, ← found, sums_append]

end

theorem aggregates_aggregate : Aggregates aggregate fun _ => True where
  sums costs _ := summed_sums labels_aggregate aggregateNote costs
  order _ _ same := summed_perm labels_aggregate aggregateNote same
  grouping _ _ _ _ _ same found := summed_append labels_aggregate aggregateNote same found

theorem collapseCosts_eq {costs : List CostRecord} (filled : costs ≠ []) :
    collapseCosts costs = summed collapseLabel collapseNote costs := by
  obtain ⟨cost, rest, rfl⟩ := List.exists_cons_of_ne_nil filled
  obtain ⟨result, found, _, covered, _⟩ := summed_sums labels_collapse collapseNote (cost :: rest)
  obtain ⟨row, member, _⟩ := covered cost List.mem_cons_self
  rw [collapseCosts, found]
  simp [List.ne_nil_of_mem member]

theorem aggregates_collapseCosts : Aggregates collapseCosts fun costs => costs ≠ [] where
  sums costs filled := by
    rw [collapseCosts_eq filled]
    exact summed_sums labels_collapse collapseNote costs
  order costs others same := by
    by_cases filled : costs = []
    · subst filled
      rw [List.nil_perm.mp same]
    · have other : others ≠ [] := fun empty => filled (List.perm_nil.mp (empty ▸ same))
      rw [collapseCosts_eq filled, collapseCosts_eq other]
      exact summed_perm labels_collapse collapseNote same
  grouping costs first rest inner some same found := by
    have filled : first ≠ [] := some
    rw [collapseCosts_eq filled] at found
    obtain ⟨result, sums, _, covered, _⟩ := summed_sums labels_collapse collapseNote first
    rw [found] at sums
    obtain rfl := Option.some.inj sums
    obtain ⟨cost, others, rfl⟩ := List.exists_cons_of_ne_nil filled
    obtain ⟨row, member, _⟩ := covered cost List.mem_cons_self
    have inside : inner ++ rest ≠ [] := List.ne_nil_of_mem (List.mem_append_left _ member)
    have whole : costs ≠ [] := List.ne_nil_of_mem (same.mem_iff.mpr (List.mem_append_left _ List.mem_cons_self))
    rw [collapseCosts_eq inside, collapseCosts_eq whole]
    exact summed_append labels_collapse collapseNote same found

/-! ### The two snapshots of a phase -/

def dispatchedNote : Text :=
  ⟨"Dispatched phase; outcome/cost unknown until externally established", by decide +kernel⟩

def unmeasuredNote : Text := ⟨"Dispatched phase category remains unmeasured", by decide +kernel⟩

/-- The costs before the call. -/
def dispatched (category : CostCategory) : List CostRecord := [unknownCost category dispatchedNote]

/-- The costs after it: what was measured, and the phase's own category in any case. -/
def completed (category : CostCategory) (values : List CostRecord) : List CostRecord :=
  if category ∈ values.map CostRecord.category then values else values ++ [unknownCost category unmeasuredNote]

theorem mem_completed (category : CostCategory) (values : List CostRecord) :
    ∃ cost ∈ completed category values, cost.category = category := by
  rw [completed]
  split
  next listed => exact List.mem_map.mp listed
  next => exact ⟨_, List.mem_append_right _ (List.mem_singleton_self _), rfl⟩

/-- A registry record of the same category in which the same dimensions are known. -/
structure Renders (cost : CostRecord) (record : FeatureRl.CostRecord) : Prop where
  category : record.category = cost.category
  known : record.dimensions.map Option.isSome = cost.known

theorem renders_unknown {category : CostCategory} {first : List CostRecord} {costs : List FeatureRl.CostRecord}
    (found : aggregate (dispatched category) = some first) (renders : List.Forall₂ Renders first costs) :
    ∀ cost ∈ costs, cost.category = category ∧ ∀ dimension ∈ cost.dimensions, dimension = none := by
  rw [aggregate, summed_eq labels_aggregate] at found
  have only : categories (dispatched category) = [category] := rfl
  rw [only, List.map_singleton] at found
  obtain rfl := Option.some.inj found
  rcases renders with - | ⟨⟨sameCategory, sameKnown⟩, - | -⟩
  intro cost member
  obtain rfl := List.mem_singleton.mp member
  refine ⟨sameCategory, fun dimension listed => ?_⟩
  have each : dimension.isSome ∈ cost.dimensions.map Option.isSome := List.mem_map_of_mem listed
  rw [sameKnown] at each
  have none : dimension.isSome = false := by
    have rows : rowsOf (dispatched category) category = [unknownCost category dispatchedNote] := by
      simp [rowsOf, dispatched, unknownCost]
    have all : ∀ known ∈ (totals [unknownCost category dispatchedNote]).known, known = false := by
      intro known inside
      simpa [totals, total, unknownCost, Values.known, Values.unknown] using inside
    exact all _ (by rwa [← rows])
  simpa using none

/-- Nothing is known in the latest snapshot, and the new one lists its categories. -/
theorem costKept_of_unknown {costs : List FeatureRl.CostRecord} {cost : FeatureRl.CostRecord}
    (listed : ∃ newer ∈ costs, newer.category = cost.category)
    (unknown : ∀ dimension ∈ cost.dimensions, dimension = none) : State.CostKept costs cost := by
  obtain ⟨newer, member, same⟩ := listed
  have some : (costs.find? fun other => other.category = cost.category).isSome = true :=
    List.find?_isSome.mpr ⟨newer, member, by simpa using same⟩
  obtain ⟨found, at_first⟩ := Option.isSome_iff_exists.mp some
  refine ⟨found, at_first, fun pair inside => ?_⟩
  rw [unknown pair.1 (List.of_mem_zip inside).1]
  rfl

theorem exists_of_forall₂ {costs : List CostRecord} {records : List FeatureRl.CostRecord}
    (renders : List.Forall₂ Renders costs records) {cost : CostRecord} (member : cost ∈ costs) :
    ∃ record ∈ records, record.category = cost.category := by
  induction renders with
  | nil => cases member
  | cons same _ ih =>
      rcases List.mem_cons.mp member with rfl | later
      · exact ⟨_, List.mem_cons_self, same.category⟩
      · obtain ⟨record, found, equal⟩ := ih later
        exact ⟨record, List.mem_cons_of_mem _ found, equal⟩

/-- The second snapshot of a phase continues the first. -/
theorem phase_accepted {category : CostCategory} {values first second : List CostRecord}
    (before : aggregate (dispatched category) = some first)
    (after : aggregate (completed category values) = some second) {attemptId : Digest} {latest : ObservationRecord}
    {observation : CostObservation} (started : List.Forall₂ Renders first latest.observation.costs)
    (ended : List.Forall₂ Renders second observation.costs) (bound : latest.attemptId = attemptId)
    (revision : latest.observation.revision.val = 1) (next : observation.revision.val = 2)
    (receipts : latest.observation.receipts.val ⊆ observation.receipts.val) :
    State.checkRevision attemptId observation (some latest) = .ok () := by
  refine State.checkRevision_some_eq_ok.mpr ⟨bound, by rw [next, revision], receipts, fun cost member => ?_⟩
  obtain ⟨same, unknown⟩ := renders_unknown before started cost member
  obtain ⟨source, listed, equal⟩ := mem_completed category values
  obtain ⟨result, found, _, covered, _⟩ := aggregates_aggregate.sums (completed category values) trivial
  rw [after] at found
  obtain rfl := Option.some.inj found
  obtain ⟨row, inside, rowCategory⟩ := covered source listed
  obtain ⟨record, rendered, recordCategory⟩ := exists_of_forall₂ ended inside
  exact costKept_of_unknown ⟨record, rendered, by rw [recordCategory, rowCategory, equal, same]⟩ unknown

/-- Nothing to add up is one unknown record, of a category that nothing contributes to. -/
theorem collapseCosts_empty : collapseCosts [] = some [unknownCost .verifier overheadNote] ∧
    ¬ IsSum [] (unknownCost .verifier overheadNote) := by
  refine ⟨rfl, fun sum => ?_⟩
  obtain ⟨cost, member, _⟩ := sum.contributes
  cases member

theorem costs_sound :
    Aggregates aggregate (fun _ => True) ∧ Aggregates collapseCosts (fun costs => costs ≠ []) ∧
    collapseCosts [] = some [unknownCost .verifier overheadNote] ∧
    ∀ (category : CostCategory) (values first second : List CostRecord) (attemptId : Digest)
      (latest : ObservationRecord) (observation : CostObservation),
      aggregate (dispatched category) = some first → aggregate (completed category values) = some second →
      List.Forall₂ Renders first latest.observation.costs → List.Forall₂ Renders second observation.costs →
      latest.attemptId = attemptId → latest.observation.revision.val = 1 → observation.revision.val = 2 →
      latest.observation.receipts.val ⊆ observation.receipts.val →
      State.checkRevision attemptId observation (some latest) = .ok () :=
  ⟨aggregates_aggregate, aggregates_collapseCosts, rfl,
    fun _ _ _ _ _ _ _ before after started ended bound revision next receipts =>
      phase_accepted before after started ended bound revision next receipts⟩

def sampleCost : CostRecord where
  toValues := { Values.unknown with wallSeconds := some 3 }
  category := .execution
  measurement := .incomplete
  note := unmeasuredNote
  consistent := rfl

theorem costs_sound_sample : ∃ result, collapseCosts [sampleCost, sampleCost] = some result ∧
    ∀ row ∈ result, IsSum [sampleCost, sampleCost] row := by
  obtain ⟨result, found, _, _, sums⟩ := costs_sound.2.1.sums [sampleCost, sampleCost] (List.cons_ne_nil _ _)
  exact ⟨result, found, sums⟩

end CostSums

end FeatureRl
