import FeatureRl.Registry.Storage
import FeatureRl.Registry.Transitions

/-!
The history that a registry has committed: linked events, each accepted in the state that
the earlier ones left. Loading it from its rows gives back exactly that history.
-/

namespace FeatureRl

open Checked

namespace Storage

variable {sha256 : Bytes → Digest}

/-! ### Linked events -/

/-- An event that continues a list of events. -/
structure Linked (sha256 : Bytes → Digest) (events : List RegistryEvent) (event : RegistryEvent) :
    Prop where
  sequence : event.sequence = events.length + 1
  previous : event.previous = previousOf events
  identity : event.eventId = eventIdentity sha256 event

theorem linked_nextEvent (events : List RegistryEvent) (key : SemanticKey) (now : Timestamp)
    (action : Action) (data : EventData) :
    Linked sha256 events (nextEvent sha256 events key now action data) := ⟨rfl, rfl, rfl⟩

theorem validateJson_eventLine (event : RegistryEvent) :
    RegistryEvent.codec.validateJson (eventLine event) = some event := by
  rw [Codec.validateJson, eventLine, Codec.dump, Json.loads_line (RegistryEvent.codec.normal event),
    Option.bind_some, Codec.validate_document]

theorem isLine_eventLine (event : RegistryEvent) : Lines.IsLine (eventLine event) :=
  ⟨_, Json.newline_notMem_canonical _, rfl⟩

theorem readRow_rowOf {events : List RegistryEvent} {event : RegistryEvent}
    (linked : Linked sha256 events event) :
    readRow sha256 events (rowOf event) = .ok (events ++ [event]) := by
  rw [readRow, bind_eq_ok]
  refine ⟨event, by rw [rowOf, validateJson_eventLine]; rfl, ?_⟩
  rw [bind_eq_ok]
  refine ⟨(), ?_, rfl⟩
  simp [refuse_eq_ok, rowOf, linked.sequence, linked.previous, ← linked.identity]

/-! ### Accepted events -/

/-- The events committed over some initial limits, the state they lead to and the limits
that were in force. -/
inductive History (sha256 : Bytes → Digest) (initial : RegistryLimits) :
    List RegistryEvent → State → List RegistryLimits → Prop
  | start : History sha256 initial [] (State.empty initial) [initial]
  | commit {events state capacities event next} (earlier : History sha256 initial events state capacities)
      (linked : Linked sha256 events event)
      (applied : state.apply sha256 event.action event.data.val = .ok next) :
      History sha256 initial (events ++ [event]) next
        (if isExpansion event then capacities ++ [next.limits] else capacities)

namespace History

variable {initial : RegistryLimits} {events : List RegistryEvent} {state : State}
  {capacities : List RegistryLimits}

theorem reads (history : History sha256 initial events state capacities) :
    foldAll (readRow sha256) [] (events.map rowOf) = .ok events := by
  induction history with
  | start => rfl
  | commit earlier linked applied ih =>
      rw [List.map_append, List.map_singleton, foldAll_concat_eq_ok]
      exact ⟨_, ih, readRow_rowOf linked⟩

theorem replays (history : History sha256 initial events state capacities) :
    foldAll (replayEvent sha256) (State.empty initial, [initial]) events =
      .ok (state, capacities) := by
  induction history with
  | start => rfl
  | commit earlier linked applied ih =>
      rw [foldAll_concat_eq_ok]
      refine ⟨_, ih, ?_⟩
      rw [replayEvent, applied]
      rfl

theorem ran (history : History sha256 initial events state capacities) :
    (State.empty initial).run sha256 (events.map fun event => (event.action, event.data.val)) =
      .ok state := by
  induction history with
  | start => rfl
  | commit earlier linked applied ih =>
      rw [List.map_append, List.map_singleton, State.run_concat_eq_ok]
      exact ⟨_, ih, applied⟩

theorem limits_mem (history : History sha256 initial events state capacities) :
    state.limits ∈ capacities := by
  induction history with
  | start => exact List.mem_singleton_self _
  | @commit events state capacities event next earlier linked applied ih =>
      by_cases expands : isExpansion event = true
      · rw [if_pos expands]
        exact List.mem_append_right _ (List.mem_singleton_self _)
      · rw [if_neg expands, (State.apply_step applied).limits_eq]
        · exact ih
        · simpa [isExpansion] using expands

theorem initial_mem (history : History sha256 initial events state capacities) :
    initial ∈ capacities := by
  induction history with
  | start => exact List.mem_singleton_self _
  | commit earlier linked applied ih =>
      split
      · exact List.mem_append_left _ ih
      · exact ih

theorem limits_le (history : History sha256 initial events state capacities) :
    initial.Le state.limits := by
  induction history with
  | start => exact RegistryLimits.Le.refl _
  | commit earlier linked applied ih => exact ih.trans (State.apply_step applied).limits_le

end History

/-! ### The initial limits -/

theorem lookup_filter {members : Json.Members} {key other : String} (different : key ≠ other) :
    (members.filter fun member => member.1 ≠ other).lookup key = members.lookup key := by
  induction members with
  | nil => rfl
  | cons member rest ih =>
      obtain ⟨name, value⟩ := member
      by_cases skipped : name = other
      · subst skipped
        rw [List.filter_cons_of_neg (by simp), ih, Dict.lookup_cons_of_ne different]
      · rw [List.filter_cons_of_pos (by simpa using skipped), List.lookup_cons, List.lookup_cons, ih]

/-- An accepted expansion names the limits before it. -/
theorem previous_of_expands {state : State} {data : Json.Members} {expansion : LimitExpansion}
    (guard : State.Expands state data expansion) :
    ∃ previous, data.lookup "previous_limits" = some previous ∧
      RegistryLimits.codec.validate previous = some state.limits := by
  have decoded := guard.decoded
  simp only [LimitExpansion.codec, Fields.codec] at decoded
  split at decoded
  next =>
    simp only [LimitExpansion.fields, Fields.view_read, Fields.and_read, Fields.field_read,
      lookup_filter (show "previous_limits" ≠ "artifacts" by decide),
      Option.bind_eq_some_iff, Option.some.injEq] at decoded
    obtain ⟨_, ⟨before, ⟨previous, found, validated⟩, _, ⟨after, _, reason, _, rfl⟩, rfl⟩, built⟩ :=
      decoded
    refine ⟨previous, found, ?_⟩
    simp only [LimitExpansion.build] at built
    split at built
    next =>
      obtain rfl := Option.some.inj built
      rw [validated, ← guard.contiguous]
    next => cases built
  next => cases decoded

theorem History.initialLimits_eq {initial : RegistryLimits} {events : List RegistryEvent}
    {state : State} {capacities : List RegistryLimits}
    (history : History sha256 initial events state capacities) :
    (events.find? isExpansion = none → state.limits = initial) ∧
      initialLimits state.limits events = .ok initial := by
  induction history with
  | start => exact ⟨fun _ => rfl, rfl⟩
  | @commit events state capacities event next earlier linked applied ih =>
      obtain ⟨unchanged, found⟩ := ih
      cases first : events.find? isExpansion with
      | some expansion =>
          have later : (events ++ [event]).find? isExpansion = some expansion := by
            rw [List.find?_append, first]
            rfl
          rw [initialLimits, first] at found
          rw [initialLimits, later]
          exact ⟨fun none_found => (Option.some_ne_none _ none_found).elim, found⟩
      | none =>
          have later : (events ++ [event]).find? isExpansion =
              if isExpansion event then some event else none := by
            rw [List.find?_append, first, Option.none_or, List.find?_singleton]
          by_cases expands : isExpansion event = true
          · rw [if_pos expands] at later
            rw [initialLimits, later]
            refine ⟨fun none_found => (Option.some_ne_none _ none_found).elim, ?_⟩
            have action : event.action = .expandLimits := by simpa [isExpansion] using expands
            rw [State.apply, if_pos action] at applied
            obtain ⟨expansion, guard, _⟩ := State.applyExpandLimits_eq_ok.mp applied
            obtain ⟨previous, at_key, read⟩ := previous_of_expands guard
            rw [unchanged first] at read
            simp only [at_key]
            exact validated_eq_ok.mpr read
          · have same := (State.apply_step applied).limits_eq (by simpa [isExpansion] using expands)
            rw [if_neg expands] at later
            rw [initialLimits, later, same]
            exact ⟨fun _ => unchanged first, congrArg Except.ok (unchanged first)⟩

/-! ### Bounds -/

theorem checkHistoryBounds_mono {limits larger : RegistryLimits} (grows : limits.Le larger)
    {bodies : List Bytes} (fits : checkHistoryBounds limits bodies = .ok ()) :
    checkHistoryBounds larger bodies = .ok () := by
  obtain ⟨_, capacities⟩ := grows
  simp only [RegistryLimits.capacities, List.forall₂_cons] at capacities
  simp only [checkHistoryBounds, refuse_eq_ok, not_or, not_lt] at fits ⊢
  omega

theorem checkRecordBounds_mono {limits larger : RegistryLimits} (grows : limits.Le larger)
    {bodies : List Bytes} (fits : checkRecordBounds limits bodies = .ok ()) :
    checkRecordBounds larger bodies = .ok () := by
  obtain ⟨_, capacities⟩ := grows
  simp only [RegistryLimits.capacities, List.forall₂_cons] at capacities
  simp only [checkRecordBounds, refuse_eq_ok, not_or, not_lt] at fits ⊢
  omega

theorem longest_append (first second : List Bytes) :
    longest (first ++ second) = max (longest first) (longest second) := by
  induction first with
  | nil => simp [longest]
  | cons body rest ih =>
      simp only [longest, List.cons_append, List.map_cons, List.foldr_cons] at ih ⊢
      rw [ih]
      omega

theorem totalSize_append (first second : List Bytes) :
    totalSize (first ++ second) = totalSize first + totalSize second := by
  simp [totalSize]

theorem totalSize_eq (bodies : List Bytes) : totalSize bodies = bodies.flatten.length := by
  simp [totalSize, List.length_flatten]

/-! ### Committed databases -/

/-- The database holds exactly this history. -/
structure Committed (sha256 : Bytes → Digest) (storeRoot : StoreRoot) (database : Database)
    (loaded : Loaded) (capacities : List RegistryLimits) : Prop where
  history : ∃ initial, History sha256 initial loaded.events loaded.state capacities
  rows : database.events = loaded.events.map rowOf
  raw : loaded.raw = loaded.events.map eventLine
  records : database.records = loaded.state.rows
  configuration : database.configuration = config storeRoot loaded.state.limits
  history_fits : checkHistoryBounds loaded.state.limits loaded.raw = .ok ()
  records_fit : checkRecordBounds loaded.state.limits loaded.state.rows.values = .ok ()

namespace Committed

variable {storeRoot : StoreRoot} {database : Database} {loaded : Loaded}
  {capacities : List RegistryLimits}

theorem bodies (committed : Committed sha256 storeRoot database loaded capacities) :
    database.events.map EventRow.body = loaded.raw := by
  rw [committed.rows, committed.raw, List.map_map]
  rfl

theorem lines (committed : Committed sha256 storeRoot database loaded capacities) :
    ∀ line ∈ loaded.raw, Lines.IsLine line := by
  intro line found
  rw [committed.raw] at found
  obtain ⟨event, _, rfl⟩ := List.mem_map.mp found
  exact isLine_eventLine event

theorem replay_eq (committed : Committed sha256 storeRoot database loaded capacities)
    (requested : RegistryLimits) :
    replay sha256 loaded.state.limits requested database.events =
      if requested ∈ capacities then .ok (loaded.events, loaded.state)
      else .error ⟨.integrity, "registry limits drift from the audited capacity chain"⟩ := by
  obtain ⟨initial, history⟩ := committed.history
  simp only [replay, committed.rows, history.reads, history.initialLimits_eq.2, history.replays,
    bind, Except.bind, ne_eq, not_true_eq_false, false_or, refuse]
  by_cases known : requested ∈ capacities <;> simp [known]

/-- Loading a committed history never fails for a client of the capacity chain. -/
theorem load_eq (committed : Committed sha256 storeRoot database loaded capacities)
    (requested : RegistryLimits) :
    load sha256 loaded.state.limits requested database =
      if requested ∈ capacities then .ok loaded
      else .error ⟨.integrity, "registry limits drift from the audited capacity chain"⟩ := by
  have bounded := committed.history_fits
  have indexed := committed.records_fit
  rw [← committed.bodies] at bounded
  simp only [load, bounded, committed.replay_eq, committed.records]
  by_cases known : requested ∈ capacities
  · simp only [known, ↓reduceIte, wrapHistory, bind, Except.bind, indexed, Dict.sameItems_self,
      refuse, Bool.true_eq_false, committed.bodies]
  · simp only [known, ↓reduceIte, wrapHistory, bind, Except.bind]

/-- The next event of a committed history. -/
theorem persist {event : RegistryEvent} {next : State}
    (committed : Committed sha256 storeRoot database loaded capacities)
    (linked : Linked sha256 loaded.events event)
    (applied : loaded.state.apply sha256 event.action event.data.val = .ok next)
    (counted : loaded.events.length < next.limits.maxEvents.val)
    (short : (eventLine event).length ≤ next.limits.maxEventBytes.val)
    (room : totalSize loaded.raw + (eventLine event).length ≤ next.limits.maxJournalBytes.val)
    (indexed : checkRecordBounds next.limits next.rows.values = .ok ()) :
    Committed sha256 storeRoot (Storage.persist event next storeRoot database)
      ⟨next, loaded.events ++ [event], loaded.raw ++ [eventLine event]⟩
      (if isExpansion event then capacities ++ [next.limits] else capacities) := by
  have step := State.apply_step applied
  obtain ⟨initial, history⟩ := committed.history
  refine ⟨⟨initial, history.commit linked applied⟩, ?_, ?_, rfl, ?_, ?_, indexed⟩
  · simp [Storage.persist, committed.rows]
  · simp [committed.raw]
  · by_cases expands : event.action = .expandLimits
    · simp [Storage.persist, expands]
    · simp [Storage.persist, expands, committed.configuration, step.limits_eq expands]
  · have grown := checkHistoryBounds_mono step.limits_le committed.history_fits
    have size : loaded.raw.length = loaded.events.length := by rw [committed.raw, List.length_map]
    simp only [checkHistoryBounds, refuse_eq_ok, not_or, not_lt, List.length_append,
      List.length_singleton, totalSize_append, longest_append] at grown ⊢
    simp only [totalSize, longest, List.map_cons, List.map_nil, List.sum_cons, List.sum_nil,
      List.foldr_cons, List.foldr_nil] at room ⊢ grown
    omega

end Committed

end Storage

end FeatureRl
