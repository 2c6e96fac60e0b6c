import FeatureRl.Registry.Atomicity
import FeatureRl.Registry.Graph

/-!
Semantic keys. An event is committed under a key at most once; a request under the key of a committed event either
repeats that event, and then nothing is appended, or is refused.
-/

namespace FeatureRl

open Checked Effects

namespace Storage

variable {sha256 : Bytes → Digest} {world : World} {storeRoot : StoreRoot} {database : Database}
  {loaded : Loaded} {capacities : List RegistryLimits} {journal : Bytes}

/-! ### The records of a payload -/

/-- A record that the state does not hold in this form. -/
def unknownTo (state : State) (record : ArtifactRecord) : Bool :=
  state.artifacts.get? record.ref.sha256 ≠ some record

theorem validateAll_filter (state : State) {items : List Json} {records : List ArtifactRecord}
    (read : Codec.validateAll ArtifactRecord.codec.validate items = some records) :
    Codec.validateAll ArtifactRecord.codec.validate (items.filter (isNew state)) =
      some (records.filter (unknownTo state)) := by
  induction items generalizing records with
  | nil =>
      cases read
      rfl
  | cons item rest ih =>
      simp only [Codec.validateAll, Option.bind_eq_bind, Option.bind_eq_some_iff, Option.some.injEq] at read
      obtain ⟨record, valid, others, later, rfl⟩ := read
      have same : isNew state item = unknownTo state record := by
        simp only [isNew, valid, unknownTo]
      rw [List.filter_cons, List.filter_cons, same]
      split
      · simp [Codec.validateAll, valid, ih later]
      · exact ih later

theorem lookup_keepArtifacts (keep : Json → Bool) (members : Json.Members) :
    (members.map (keepArtifacts keep)).lookup "artifacts" = (members.lookup "artifacts").map (keepItems keep) := by
  induction members with
  | nil => rfl
  | cons member rest ih =>
      obtain ⟨key, value⟩ := member
      by_cases same : key = "artifacts"
      · subst same
        simp [keepArtifacts]
      · have other : ("artifacts" == key) = false := by simpa using fun equal => same equal.symm
        simp only [List.map_cons, keepArtifacts, same, if_false, List.lookup_cons, other]
        exact ih

theorem payloadRecords_compact {state : State} {data kept : EventData} {records : List ArtifactRecord}
    (read : payloadRecords data = .ok records) (compacted : compact state data = .ok kept) :
    payloadRecords kept = .ok (records.filter (unknownTo state)) := by
  simp only [compact, bind_eq_ok] at compacted
  obtain ⟨_, _, done⟩ := compacted
  cases done
  simp only [payloadRecords, bind_eq_ok, require_eq_ok] at read ⊢
  obtain ⟨listed, found, items, iterated, valid⟩ := read
  refine ⟨keepItems (isNew state) listed, by rw [lookup_keepArtifacts, found]; rfl, ?_⟩
  cases listed with
  | arr others =>
      cases iterated
      exact ⟨_, rfl, validateAll_filter state valid⟩
  | obj members =>
      cases iterated
      cases members with
      | nil =>
          cases valid
          exact ⟨[], rfl, rfl⟩
      | cons member rest => cases valid
  | str text =>
      cases iterated
      cases letters : text.toList with
      | nil =>
          rw [letters] at valid
          cases valid
          exact ⟨[], rfl, rfl⟩
      | cons letter rest =>
          rw [letters] at valid
          cases valid
  | _ => cases iterated

theorem filter_keepArtifacts (keep : Json → Bool) (members : Json.Members) :
    ((members.map (keepArtifacts keep)).filter fun member => member.1 ≠ "artifacts") =
      members.filter fun member => member.1 ≠ "artifacts" := by
  induction members with
  | nil => rfl
  | cons member rest ih =>
      obtain ⟨key, value⟩ := member
      by_cases same : key = "artifacts"
      · simpa [keepArtifacts, same] using ih
      · simpa [keepArtifacts, same] using ih

theorem withoutArtifacts_compact {state : State} {data kept : EventData}
    (compacted : compact state data = .ok kept) : withoutArtifacts kept = withoutArtifacts data := by
  simp only [compact, bind_eq_ok] at compacted
  obtain ⟨_, _, done⟩ := compacted
  cases done
  exact congrArg Json.obj (filter_keepArtifacts _ _)

theorem normal_withoutArtifacts (data : EventData) : (withoutArtifacts data).normal = true := by
  have formed := data.property
  simp only [withoutArtifacts, Json.normal, Bool.and_eq_true, Json.normalMembers_iff, Json.sortedKeys,
    decide_eq_true_eq] at formed ⊢
  exact ⟨formed.1.sublist (List.filter_sublist.map Prod.fst),
    fun member inside => formed.2 member (List.mem_of_mem_filter inside)⟩

theorem recordsByDigest_get? {records : List ArtifactRecord} {digest : Digest} {record : ArtifactRecord}
    (found : (recordsByDigest records).get? digest = some record) :
    record ∈ records ∧ record.ref.sha256 = digest := by
  induction records using List.reverseRecOn with
  | nil => cases found
  | append_singleton before last ih =>
      rw [recordsByDigest, List.foldl_append, List.foldl_cons, List.foldl_nil, Dict.get?_set] at found
      split at found
      next same =>
        cases found
        exact ⟨by simp, same.symm⟩
      next =>
        obtain ⟨inside, keyed⟩ := ih found
        exact ⟨List.mem_append_left _ inside, keyed⟩

theorem recordsByDigest_isSome {records : List ArtifactRecord} {record : ArtifactRecord} (inside : record ∈ records) :
    ∃ other, (recordsByDigest records).get? record.ref.sha256 = some other := by
  induction records using List.reverseRecOn with
  | nil => cases inside
  | append_singleton before last ih =>
      rw [recordsByDigest, List.foldl_append, List.foldl_cons, List.foldl_nil, Dict.get?_set]
      split
      next => exact ⟨last, rfl⟩
      next other =>
        rcases List.mem_append.mp inside with earlier | here
        · exact ih earlier
        · obtain rfl := List.mem_singleton.mp here
          exact absurd rfl other

/-! ### Requests that repeat an event -/

/-- A state that holds a record under its digest. -/
def Registers (state : State) (record : ArtifactRecord) : Prop :=
  state.artifacts.get? record.ref.sha256 = some record

theorem checkReissue_eq_ok {state : State} {prior : RegistryEvent} {request : Request} :
    checkReissue state prior request = .ok () ↔ prior.action = request.action ∧
      withoutArtifacts prior.data = withoutArtifacts request.data ∧ ∃ submitted stored,
        payloadRecords request.data = .ok submitted ∧ payloadRecords prior.data = .ok stored ∧
        (∀ entry ∈ (recordsByDigest submitted).entries, state.artifacts.get? entry.1 = some entry.2) ∧
        ∀ record ∈ stored, (recordsByDigest submitted).get? record.ref.sha256 = some record := by
  have contents : (withoutArtifacts prior.data).canonical = (withoutArtifacts request.data).canonical ↔
      withoutArtifacts prior.data = withoutArtifacts request.data :=
    ⟨Json.canonical_injective (normal_withoutArtifacts _) (normal_withoutArtifacts _), congrArg _⟩
  simp only [checkReissue, bind_eq_ok, refuse_eq_ok, not_or, not_not, contents, List.any_eq_true, not_exists,
    not_and, decide_eq_true_eq, ne_eq]
  constructor
  · rintro ⟨submitted, read, stored, kept, action, same, held, among⟩
    exact ⟨action, same, submitted, stored, read, kept, held, among⟩
  · rintro ⟨action, same, submitted, stored, read, kept, held, among⟩
    exact ⟨submitted, read, stored, kept, action, same, held, among⟩

theorem checkReissue_mono {state later : State} {prior : RegistryEvent} {request : Request}
    (kept : ∀ digest record, state.artifacts.get? digest = some record → later.artifacts.get? digest = some record)
    (repeats : checkReissue state prior request = .ok ()) : checkReissue later prior request = .ok () := by
  obtain ⟨action, same, submitted, stored, read, old, held, among⟩ := checkReissue_eq_ok.mp repeats
  exact checkReissue_eq_ok.mpr ⟨action, same, submitted, stored, read, old,
    fun entry inside => kept _ _ (held entry inside), among⟩

/-- An accepted event registers the records that it carries. -/
theorem registers_applied {state next : State} {action : Action} {data : EventData} {records : List ArtifactRecord}
    (applied : state.apply sha256 action data.val = .ok next) (read : payloadRecords data = .ok records) :
    ∀ record ∈ records, Registers next record := by
  simp only [payloadRecords, bind_eq_ok, require_eq_ok] at read
  obtain ⟨listed, found, items, iterated, valid⟩ := read
  have here : member data.val "artifacts" = listed := by rw [member, found, Option.getD_some]
  cases State.apply_step applied with
  | expand guard =>
      obtain rfl := here.symm.trans guard.no_records
      cases iterated
      cases valid
      exact fun _ inside => by cases inside
  | @event _ installedRecords installed _ installs change =>
      have decoded := installs.decoded
      rw [here] at decoded
      have same : installedRecords = records := by
        cases listed with
        | arr others =>
            cases iterated
            exact Option.some.inj (decoded.symm.trans valid)
        | _ => cases decoded
      subst same
      intro record inside
      obtain ⟨merged, indexed, _, rfl⟩ := State.install_eq_ok.mp installs.installs
      rw [Registers, change.artifacts_eq.1]
      exact (State.merges_of_ok indexed _ _).mpr (.inr ⟨inside, rfl⟩)

/-- The request that built an event repeats it. -/
theorem Appends.checkReissue {request : Request} {now : Timestamp} {event : RegistryEvent} {next : State}
    (appends : Appends sha256 loaded request now event next) :
    Storage.checkReissue next event request = .ok () := by
  obtain ⟨data, key, compacted, _, rfl⟩ := appends.built
  obtain ⟨submitted, read⟩ : ∃ submitted, payloadRecords request.data = .ok submitted := by
    simp only [compact, bind_eq_ok] at compacted
    obtain ⟨submitted, read, _⟩ := compacted
    exact ⟨submitted, read⟩
  have stored := payloadRecords_compact read compacted
  have applied := appends.applied
  have registered : ∀ record ∈ submitted, Registers next record := by
    intro record inside
    by_cases known : unknownTo loaded.state record = true
    · exact registers_applied applied stored record (List.mem_filter.mpr ⟨inside, known⟩)
    · exact (State.apply_step applied).artifact_kept (by simpa [unknownTo] using known)
  refine checkReissue_eq_ok.mpr ⟨rfl, withoutArtifacts_compact compacted, submitted, _, read, stored, ?_, ?_⟩
  · rintro ⟨digest, record⟩ inside
    obtain ⟨listed, rfl⟩ := recordsByDigest_get? (Dict.mem_entries.mp inside)
    exact registered record listed
  · intro record inside
    have listed := List.mem_of_mem_filter inside
    obtain ⟨other, found⟩ := recordsByDigest_isSome listed
    obtain ⟨among, same⟩ := recordsByDigest_get? found
    have equal : some other = some record := by
      rw [← registered other among, same]
      exact registered record listed
    rw [found, equal]

/-! ### Histories under keys -/

/-- The first event under the key of a request. -/
def priorOf (loaded : Loaded) (request : Request) : Option RegistryEvent :=
  loaded.events.find? fun event => event.semanticKey.val = request.key

/-- The history has an event that a request repeats. -/
def Repeats (loaded : Loaded) (request : Request) : Prop :=
  ∃ event, priorOf loaded request = some event ∧ checkReissue loaded.state event request = .ok ()

theorem val_of_check {test : String → Bool} {text : String} {named : {text // test text = true}}
    (checked : Codec.check test text = some named) : named.val = text := by
  unfold Codec.check at checked
  split at checked
  next =>
    cases checked
    rfl
  next => cases checked

theorem Appends.repeats {request : Request} {now : Timestamp} {event : RegistryEvent} {next : State}
    (newKey : NewKey loaded request) (appends : Appends sha256 loaded request now event next) :
    Repeats (extended loaded event next) request := by
  obtain ⟨data, key, _, named, made⟩ := appends.built
  have same : event.semanticKey.val = request.key := by
    rw [made]
    exact val_of_check named
  refine ⟨event, ?_, appends.checkReissue⟩
  rw [priorOf, extended, List.find?_append, show loaded.events.find? _ = none from newKey, Option.none_or]
  simp [same]

theorem Repeats.grows {request : Request} {next : Loaded} {later : List RegistryLimits}
    (repeats : Repeats loaded request) (grows : Grows sha256 loaded capacities next later) :
    Repeats next request := by
  obtain ⟨event, prior, again⟩ := repeats
  cases grows with
  | same => exact ⟨event, prior, again⟩
  | event linked applied =>
      refine ⟨event, ?_, checkReissue_mono (fun _ _ found => (State.apply_step applied).artifact_kept found) again⟩
      rw [priorOf, extended, List.find?_append, show loaded.events.find? _ = some event from prior, Option.some_or]

theorem Grows.limits_le {first next : Loaded} {before after : List RegistryLimits}
    (grows : Grows sha256 first before next after) : first.state.limits.Le next.state.limits := by
  cases grows with
  | same => exact .refl _
  | event linked applied => exact (State.apply_step applied).limits_le

/-- No two events have one key. -/
def Keyed (loaded : Loaded) : Prop := (loaded.events.map fun event => event.semanticKey.val).Nodup

theorem Keyed.prior {request : Request} {event : RegistryEvent} (keyed : Keyed loaded) (inside : event ∈ loaded.events)
    (same : event.semanticKey.val = request.key) : priorOf loaded request = some event := by
  obtain ⟨other, found⟩ : ∃ other, priorOf loaded request = some other := by
    rw [priorOf, ← Option.isSome_iff_exists, List.find?_isSome]
    exact ⟨event, inside, by simpa using same⟩
  have key := List.find?_some found
  have equal : other = event :=
    List.inj_on_of_nodup_map keyed (List.mem_of_find?_eq_some found) inside (by simpa [same] using key)
  rw [found, equal]

theorem Keyed.append {request : Request} {now : Timestamp} {event : RegistryEvent} {next : State}
    (keyed : Keyed loaded) (newKey : NewKey loaded request)
    (appends : Appends sha256 loaded request now event next) : Keyed (extended loaded event next) := by
  obtain ⟨data, key, _, named, made⟩ := appends.built
  have same : event.semanticKey.val = request.key := by
    rw [made]
    exact val_of_check named
  rw [Keyed, extended, List.map_append, List.map_singleton, List.nodup_append]
  refine ⟨keyed, List.nodup_singleton _, ?_⟩
  intro old found _ here equal
  obtain rfl := List.mem_singleton.mp here
  obtain ⟨other, inside, rfl⟩ := List.mem_map.mp found
  have absent := List.find?_eq_none.mp newKey other inside
  simp [equal, same] at absent

/-! ### Calls -/

/-- A change under a key that an event has: it appends nothing, and succeeds exactly if it repeats the event. -/
theorem change_prior
    (recorded : Recorded sha256 world.directory storeRoot database loaded capacities journal)
    (client : Client world.directory storeRoot database loaded capacities journal world.handle)
    (uninterrupted : world.remaining = none) {builder : Builder} {now : Timestamp} {request : Request}
    (asked : builder loaded.state = .ok (some request)) {event : RegistryEvent}
    (prior : priorOf loaded request = some event) :
    (change sha256 builder now).Ends world
      (fun state after => checkReissue loaded.state event request = .ok () ∧ state = loaded.state ∧
        Recovers sha256 storeRoot database loaded capacities (inSession world storeRoot loaded) after)
      (fun failure after => checkReissue loaded.state event request = .error failure ∧
        Recovers sha256 storeRoot database loaded capacities (inSession world storeRoot loaded) after) := by
  rw [change]
  refine open_ends recorded client.toFaithful ?_ ?_ ?_
  · intro middle report recovers _
    rw [ends_bind, asked, ends_lift_ok]
    have found : (loaded.events.find? fun event => event.semanticKey.val = request.key) = some event := prior
    simp only [found, ends_bind, ends_pure]
    rw [ends_lift]
    exact ⟨fun _ accepted => ⟨accepted, trivial, recovers⟩, fun _ rejected => ⟨rejected, recovers⟩⟩
  · intro after torn
    exact absurd uninterrupted torn.remaining
  · intro after _ _ _ _ foreign
    exact absurd ⟨client.rooted, client.admitted⟩ foreign

/-- A directory that holds a history. -/
def Records (sha256 : Bytes → Digest) (storeRoot : StoreRoot) (directory : Directory) (loaded : Loaded) : Prop :=
  ∃ database capacities journal, Recorded sha256 directory storeRoot database loaded capacities journal

/-- A builder's request appended an event. -/
def AppendsBy (sha256 : Bytes → Digest) (loaded : Loaded) (builder : Builder) (next : Loaded) : Prop :=
  ∃ request now event state, builder loaded.state = .ok (some request) ∧ NewKey loaded request ∧
    Appends sha256 loaded request now event state ∧ next = extended loaded event state

theorem view_records {α : Type}
    (recorded : Recorded sha256 world.directory storeRoot database loaded capacities journal)
    (client : Client world.directory storeRoot database loaded capacities journal world.handle)
    (reader : State → List RegistryEvent → Outcome α) : (view sha256 reader).Ends world
      (fun _ after => Records sha256 storeRoot after.directory loaded)
      (fun _ after => Records sha256 storeRoot after.directory loaded) := by
  rw [view]
  refine open_ends recorded client.toFaithful ?_ ?_ ?_
  · intro after report recovers _
    rw [ends_lift]
    exact ⟨fun _ _ => ⟨_, _, _, recovers.settled.toRecorded⟩, fun _ _ => ⟨_, _, _, recovers.settled.toRecorded⟩⟩
  · intro after torn
    obtain ⟨piece, part⟩ := torn.recorded
    exact ⟨_, _, _, part⟩
  · intro after _ _ _ _ foreign
    exact absurd ⟨client.rooted, client.admitted⟩ foreign

/-- Recovery by a handle that has verified nothing, or by a client, keeps the history. -/
theorem recover_records
    (recorded : Recorded sha256 world.directory storeRoot database loaded capacities journal)
    (handle : Client world.directory storeRoot database loaded capacities journal world.handle ∨
      ∃ root limits, world.handle = Handle.created root limits) : (recover sha256).Ends world
      (fun _ after => Records sha256 storeRoot after.directory loaded)
      (fun _ after => Records sha256 storeRoot after.directory loaded) := by
  have faithful : Faithful world.directory database loaded journal world.handle := by
    rcases handle with client | ⟨root, limits, created⟩
    · exact client.toFaithful
    · constructor <;> · rw [created]; simp [Handle.created]
  rw [recover]
  refine open_ends recorded faithful ?_ ?_ ?_
  · intro after report recovers _
    rw [ends_pure]
    exact ⟨_, _, _, recovers.settled.toRecorded⟩
  · intro after torn
    obtain ⟨piece, part⟩ := torn.recorded
    exact ⟨_, _, _, part⟩
  · intro after same _ _ _ _ failure
    rw [same]
    exact ⟨_, _, _, recorded⟩

theorem change_records
    (recorded : Recorded sha256 world.directory storeRoot database loaded capacities journal)
    (client : Client world.directory storeRoot database loaded capacities journal world.handle)
    (builder : Builder) (now : Timestamp) : (change sha256 builder now).Ends world
      (fun _ after => ∃ next, Records sha256 storeRoot after.directory next ∧
        (next = loaded ∨ AppendsBy sha256 loaded builder next))
      (fun _ after => ∃ next, Records sha256 storeRoot after.directory next ∧
        (next = loaded ∨ AppendsBy sha256 loaded builder next)) := by
  refine change_ends recorded client ?_ ?_ ?_ ?_ ?_ ?_
  · intro middle recovers
    exact ⟨loaded, ⟨_, _, _, recovers.settled.toRecorded⟩, .inl rfl⟩
  · intro middle after request event next _ asked newKey appends publishes
    exact ⟨_, ⟨_, _, _, publishes.settled.toRecorded⟩, .inr ⟨request, now, event, next, asked, newKey, appends, rfl⟩⟩
  · intro after torn
    obtain ⟨piece, part⟩ := torn.recorded
    exact ⟨loaded, ⟨_, _, _, part⟩, .inl rfl⟩
  · intro middle failure recovers _
    exact ⟨loaded, ⟨_, _, _, recovers.settled.toRecorded⟩, .inl rfl⟩
  · intro middle failure request next recovers _ _ _
    exact ⟨loaded, ⟨_, _, _, recovers.settled.toRecorded⟩, .inl rfl⟩
  · intro middle after request event next _ asked newKey appends commits
    obtain ⟨piece, part⟩ := commits.recorded
    exact ⟨_, ⟨_, _, _, part⟩, .inr ⟨request, now, event, next, asked, newKey, appends, rfl⟩⟩

/-- Loading reads one history out of a directory. -/
theorem Recorded.loads_unique {directory : Directory} {requested : RegistryLimits} {other : Loaded}
    (recorded : Recorded sha256 directory storeRoot database loaded capacities journal)
    (loads : Loads sha256 directory requested other) : other = loaded := by
  obtain ⟨root, limits, stored, found, configured, read⟩ := loads
  obtain rfl := Option.some.inj (found.symm.trans recorded.database_eq)
  rw [recorded.committed.configuration] at configured
  obtain ⟨_, rfl⟩ := readConfiguration_eq_ok.mp configured
  rw [recorded.committed.load_eq] at read
  split at read
  next => exact (Except.ok.inj read).symm
  next => cases read

theorem Recorded.unique {directory : Directory} {other : Loaded}
    (recorded : Recorded sha256 directory storeRoot database loaded capacities journal)
    (records : Records sha256 storeRoot directory other) : other = loaded := by
  obtain ⟨stored, known, piece, part⟩ := records
  obtain ⟨initial, history⟩ := part.committed.history
  exact recorded.loads_unique (part.loads history.limits_mem)

end Storage

/-! ### Runs -/

namespace System

open Storage

variable {sha256 : Bytes → Digest} {system : System} {storeRoot : StoreRoot} {database : Database}
  {loaded : Loaded} {capacities : List RegistryLimits} {journal : Bytes}

/-- A call continues a history by nothing, or by what its own builder asks for. -/
def Continued (sha256 : Bytes → Digest) (loaded : Loaded) (call : Call) (next : Loaded) : Prop :=
  next = loaded ∨ ∃ index builder now, call = .change index builder now ∧ AppendsBy sha256 loaded builder next

theorem within_records {α : Type} {left : Loaded → Prop}
    (running : Running sha256 system storeRoot database loaded capacities journal) (same : left loaded) (index : Nat)
    (remaining : Option Nat) (process : Process α)
    (ends : ∀ handle ∈ system.handles, process.Ends ⟨system.directory, handle, remaining⟩
      (fun _ after => ∃ next, Records sha256 storeRoot after.directory next ∧ left next)
      (fun _ after => ∃ next, Records sha256 storeRoot after.directory next ∧ left next)) :
    ∃ next, Records sha256 storeRoot (system.within index remaining process).directory next ∧ left next := by
  rw [System.within]
  cases acting : system.handles[index]? with
  | none => exact ⟨loaded, ⟨_, _, _, running.recorded⟩, same⟩
  | some handle =>
      have records : ∃ next, Records sha256 storeRoot (process ⟨system.directory, handle, remaining⟩).2.directory next ∧
          left next := by
        have either := ends handle (List.mem_of_getElem? acting)
        simp only [Ends] at either
        generalize process ⟨system.directory, handle, remaining⟩ = result at either
        rcases result with ⟨failure | value, after⟩ <;> exact either
      exact records

theorem perform_records (running : Running sha256 system storeRoot database loaded capacities journal)
    (call : Call × Option Nat) : ∃ next, Records sha256 storeRoot (system.perform sha256 call).directory next ∧
      Continued sha256 loaded call.1 next := by
  obtain ⟨call, remaining⟩ := call
  cases call with
  | «open» root limits =>
      have records := @recover_records sha256 ⟨system.directory, Handle.created root limits, remaining⟩ storeRoot
        database loaded capacities journal running.recorded (.inr ⟨root, limits, rfl⟩)
      simp only [Ends] at records
      simp only [System.perform]
      generalize recover sha256 ⟨system.directory, Handle.created root limits, remaining⟩ = result at records
      rcases result with ⟨failure | report, after⟩ <;> exact ⟨loaded, records, .inl rfl⟩
  | recover index =>
      refine within_records running (.inl rfl) index remaining _ fun handle known => ?_
      refine (recover_records running.recorded (.inl (running.clients handle known))).mono ?_ ?_ <;>
        exact fun _ _ records => ⟨loaded, records, .inl rfl⟩
  | view index reader =>
      refine within_records running (.inl rfl) index remaining _ fun handle known => ?_
      refine (view_records running.recorded (running.clients handle known) reader).mono ?_ ?_ <;>
        exact fun _ _ records => ⟨loaded, records, .inl rfl⟩
  | change index builder now =>
      refine within_records running (.inl rfl) index remaining _ fun handle known => ?_
      refine (change_records running.recorded (running.clients handle known) builder now).mono ?_ ?_ <;>
        rintro _ _ ⟨next, records, continued⟩ <;>
        exact ⟨next, records, continued.imp id fun appends => ⟨index, builder, now, rfl, appends⟩⟩

theorem Running.continued (running : Running sha256 system storeRoot database loaded capacities journal)
    (call : Call × Option Nat) : ∃ database next later journal,
      Running sha256 (system.perform sha256 call) storeRoot database next later journal ∧
        Grows sha256 loaded capacities next later ∧ Continued sha256 loaded call.1 next := by
  obtain ⟨database, next, later, journal, after, grows⟩ := running.perform call
  obtain ⟨other, records, continued⟩ := perform_records running call
  obtain rfl := after.recorded.unique records
  exact ⟨database, other, later, journal, after, grows, continued⟩

theorem Continued.keyed {call : Call} {next : Loaded} (continued : Continued sha256 loaded call next)
    (keyed : Keyed loaded) : Keyed next := by
  rcases continued with rfl | ⟨_, _, _, _, request, now, event, state, _, newKey, appends, rfl⟩
  · exact keyed
  · exact keyed.append newKey appends

/-- Every run leaves an unopened directory, or a running registry whose events have distinct keys. -/
theorem run_keyed (calls : List (Call × Option Nat)) :
    Unopened (run sha256 calls) ∨ ∃ storeRoot database loaded capacities journal,
      Running sha256 (run sha256 calls) storeRoot database loaded capacities journal ∧ Keyed loaded := by
  induction calls using List.reverseRecOn with
  | nil => exact .inl unopened_created
  | append_singleton calls call ih =>
      rw [run_append, List.foldl_cons, List.foldl_nil]
      rcases ih with unopened | ⟨storeRoot, database, loaded, capacities, journal, running, keyed⟩
      · rcases unopened.perform call with still | ⟨root, limits, database, journal, running⟩
        · exact .inl still
        · exact .inr ⟨root, database, _, _, journal, running, List.nodup_nil⟩
      · obtain ⟨database, next, later, journal, after, _, continued⟩ := running.continued call
        exact .inr ⟨storeRoot, database, next, later, journal, after, continued.keyed keyed⟩

/-- What every committed event keeps, every run keeps. -/
theorem Running.keeps {holds : Loaded → Prop}
    (kept : ∀ {first next : Loaded} {before after : List RegistryLimits},
      Grows sha256 first before next after → holds first → holds next)
    (running : Running sha256 system storeRoot database loaded capacities journal) (held : holds loaded)
    (calls : List (Call × Option Nat)) : ∃ database next later journal,
      Running sha256 (calls.foldl (System.perform sha256) system) storeRoot database next later journal ∧
        holds next := by
  induction calls generalizing system database loaded capacities journal with
  | nil => exact ⟨database, loaded, capacities, journal, running, held⟩
  | cons call rest ih =>
      obtain ⟨second, middle, between, piece, next, grows⟩ := running.perform call
      exact ih next (kept grows held)

/-- A change that appended an event was asked for it by its builder, and the history repeats the request. -/
theorem Running.committed (running : Running sha256 system storeRoot database loaded capacities journal)
    {index : Nat} {builder : Builder} {now : Timestamp} {remaining : Option Nat}
    (counted : eventCount (system.perform sha256 (.change index builder now, remaining)).directory ≠
      eventCount system.directory) : ∃ request, builder loaded.state = .ok (some request) ∧
      ∃ database next later journal,
        Running sha256 (system.perform sha256 (.change index builder now, remaining)) storeRoot database next later
          journal ∧ Grows sha256 loaded capacities next later ∧ Repeats next request := by
  obtain ⟨second, next, later, piece, after, grows, continued⟩ :=
    running.continued (.change index builder now, remaining)
  rcases continued with same | ⟨_, _, _, call, request, _, event, state, built, newKey, appends, rfl⟩
  · rw [after.recorded.eventCount_eq, same, running.recorded.eventCount_eq] at counted
    exact absurd rfl counted
  · cases call
    exact ⟨request, built, second, _, later, piece, after, grows, appends.repeats newKey⟩

/-- What a change does under a key that a committed event has. -/
def Reissues (sha256 : Bytes → Digest) (directory : Directory) (handle : Handle) (loaded : Loaded) : Prop :=
  ∀ builder now request event, builder loaded.state = .ok (some request) → event ∈ loaded.events →
    event.semanticKey.val = request.key →
    (change sha256 builder now).Ends ⟨directory, handle, none⟩
      (fun state after => event.action = request.action ∧
        withoutArtifacts event.data = withoutArtifacts request.data ∧ state = loaded.state ∧
        Loads sha256 after.directory handle.requestedLimits loaded)
      (fun failure after => checkReissue loaded.state event request = .error failure ∧
        Loads sha256 after.directory handle.requestedLimits loaded)

/-- A change that asks for the request again appends nothing and succeeds. -/
def Accepts (sha256 : Bytes → Digest) (directory : Directory) (handle : Handle) (loaded : Loaded)
    (request : Request) : Prop :=
  ∀ builder now, builder loaded.state = .ok (some request) →
    (change sha256 builder now).Ends ⟨directory, handle, none⟩
      (fun state after => state = loaded.state ∧ Loads sha256 after.directory handle.requestedLimits loaded)
      (fun _ _ => False)

theorem Running.reissues (running : Running sha256 system storeRoot database loaded capacities journal)
    (keyed : Keyed loaded) {handle : Handle} (known : handle ∈ system.handles) :
    Reissues sha256 system.directory handle loaded := by
  intro builder now request event asked inside same
  have client := running.clients handle known
  refine (@change_prior sha256 ⟨system.directory, handle, none⟩ storeRoot database loaded capacities journal
    running.recorded client rfl builder now request asked event (keyed.prior inside same)).mono ?_ ?_
  · rintro state after ⟨accepted, same, recovers⟩
    obtain ⟨action, contents, _⟩ := checkReissue_eq_ok.mp accepted
    exact ⟨action, contents, same, recovers.settled.toRecorded.loads client.admitted⟩
  · rintro failure after ⟨rejected, recovers⟩
    exact ⟨rejected, recovers.settled.toRecorded.loads client.admitted⟩

theorem Running.accepts {request : Request}
    (running : Running sha256 system storeRoot database loaded capacities journal) (repeats : Repeats loaded request)
    {handle : Handle} (known : handle ∈ system.handles) : Accepts sha256 system.directory handle loaded request := by
  intro builder now asked
  obtain ⟨event, prior, again⟩ := repeats
  have client := running.clients handle known
  refine (@change_prior sha256 ⟨system.directory, handle, none⟩ storeRoot database loaded capacities journal
    running.recorded client rfl builder now request asked event prior).mono ?_ ?_
  · rintro state after ⟨_, same, recovers⟩
    exact ⟨same, recovers.settled.toRecorded.loads client.admitted⟩
  · rintro failure after ⟨rejected, _⟩
    rw [again] at rejected
    cases rejected

/-- In every run, with interruptions anywhere, no two committed events have one semantic key. A change under the key of
a committed event appends nothing; it succeeds only with the action and the contents of that event. And a request that
a call committed, whether or not that call was interrupted afterwards, is from then on accepted from every client
that asks for it again, whatever was committed in between. -/
theorem run_semanticKeys (sha256 : Bytes → Digest) (calls : List (Call × Option Nat)) :
    (∀ handle ∈ (run sha256 calls).handles, ∃ loaded,
      Loads sha256 (run sha256 calls).directory handle.requestedLimits loaded ∧ Keyed loaded ∧
        Reissues sha256 (run sha256 calls).directory handle loaded) ∧
    ∀ index builder now remaining handle loaded request,
      (run sha256 calls).handles[index]? = some handle →
      Loads sha256 (run sha256 calls).directory handle.requestedLimits loaded →
      builder loaded.state = .ok (some request) →
      eventCount (run sha256 (calls ++ [(.change index builder now, remaining)])).directory ≠
        eventCount (run sha256 calls).directory →
      ∀ more, ∀ other ∈ (run sha256 (calls ++ (.change index builder now, remaining) :: more)).handles, ∃ next,
        Loads sha256 (run sha256 (calls ++ (.change index builder now, remaining) :: more)).directory
          other.requestedLimits next ∧
        Accepts sha256 (run sha256 (calls ++ (.change index builder now, remaining) :: more)).directory other next
          request := by
  rcases @run_keyed sha256 calls with unopened | ⟨root, database, history, capacities, journal, running, keyed⟩
  · refine ⟨fun handle found => ?_, fun index builder now remaining handle loaded request found => ?_⟩
    · rw [unopened.handles] at found
      cases found
    · rw [unopened.handles] at found
      cases found
  · refine ⟨fun handle found => ⟨history, running.recorded.loads (running.clients handle found).admitted, keyed,
      running.reissues keyed found⟩, ?_⟩
    intro index builder now remaining handle loaded request acting loads asked counted more other found
    obtain rfl := running.recorded.loads_unique loads
    rw [run_append, List.foldl_cons, List.foldl_nil] at counted
    obtain ⟨other', built, second, next, later, piece, after, _, repeats⟩ := running.committed counted
    obtain rfl := Option.some.inj (Except.ok.inj (asked.symm.trans built))
    rw [run_append, List.foldl_cons] at found ⊢
    obtain ⟨third, final, known, new, ends, still⟩ := after.keeps (fun grows again => Repeats.grows again grows) repeats more
    exact ⟨final, ends.recorded.loads (ends.clients other found).admitted, ends.accepts still found⟩

end System

end FeatureRl
