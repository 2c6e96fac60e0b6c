import FeatureRl.Registry.Operations

/-!
Claims of jobs. A claim key is granted once: whoever claims under it again, from any client and after any interruption,
gets the capability that was granted or none.
-/

namespace FeatureRl

open Checked Effects

namespace Storage

variable {sha256 : Bytes → Digest} {world : World} {storeRoot : StoreRoot} {database : Database}
  {loaded : Loaded} {capacities : List RegistryLimits} {journal : Bytes}

/-- How a change returns: its builder asked for nothing, or for what the history that it leaves repeats. -/
def Returned (sha256 : Bytes → Digest) (loaded : Loaded) (builder : Builder) (next : Loaded) : Prop :=
  builder loaded.state = .ok none ∨ ∃ request, builder loaded.state = .ok (some request) ∧ Repeats next request ∧
    (next = loaded ∨ ∃ now event, Appends sha256 loaded request now event next.state)

theorem change_returns
    (recorded : Recorded sha256 world.directory storeRoot database loaded capacities journal)
    (client : Client world.directory storeRoot database loaded capacities journal world.handle)
    (builder : Builder) (now : Timestamp) : (change sha256 builder now).Ends world
      (fun state after => ∃ next, Records sha256 storeRoot after.directory next ∧ next.state = state ∧
        Returned sha256 loaded builder next)
      (fun _ _ => True) := by
  rw [change]
  refine open_ends recorded client.toFaithful ?_ (fun _ _ => trivial) (fun _ _ _ _ _ _ _ => trivial)
  intro middle report recovers _
  have here : Records sha256 storeRoot middle.directory loaded := ⟨_, _, _, recovers.settled.toRecorded⟩
  rw [ends_bind, ends_lift]
  refine ⟨fun built asked => ?_, fun _ _ => trivial⟩
  cases built with
  | none =>
      rw [ends_pure]
      exact ⟨loaded, here, rfl, .inl asked⟩
  | some request =>
      cases prior : loaded.events.find? fun event => event.semanticKey.val = request.key with
      | some event =>
          simp only [prior, ends_bind, ends_pure]
          rw [ends_lift]
          exact ⟨fun _ again => ⟨loaded, here, rfl, .inr ⟨request, asked, ⟨event, prior, again⟩, .inl rfl⟩⟩,
            fun _ _ => trivial⟩
      | none =>
          simp only [prior]
          have rooted : middle.handle.storeRoot = storeRoot := by
            rw [recovers.handle]
            exact client.rooted
          have limited : middle.handle.limits = loaded.state.limits := by
            rw [recovers.handle]
            rfl
          refine append_ends recovers.settled rooted limited ?_ (fun _ _ _ _ _ => trivial) (fun _ _ => trivial)
            (fun _ _ _ => trivial)
          intro after event next appends publishes
          exact ⟨extended loaded event next, ⟨_, _, _, publishes.settled.toRecorded⟩, rfl,
            .inr ⟨request, asked, appends.repeats prior, .inr ⟨now, event, appends⟩⟩⟩

end Storage

namespace Registry

open Storage

variable {sha256 : Bytes → Digest} {registry : Registry} {state : State} {jobId token : Digest}
  {owner claimKey : String}

/-! ### The operation -/

/-- The claim of the first attempt under a key. -/
def claimUnder (state : State) (claimKey : String) : Option Claim :=
  (state.attempts.values.find? fun attempt => attempt.claim.claimKey.val = claimKey).map AttemptRecord.claim

def newClaim (sha256 : Bytes → Digest) (jobId : Digest) (owner claimKey : String) (token : Digest) : Option Claim := do
  let owner ← Codec.check isName owner
  let claimKey ← Codec.check isName claimKey
  some ⟨jobId, identity sha256 (State.attemptDocument jobId claimKey owner), owner, claimKey, token⟩

/-- The claim that a key has already, if it is this one's and still owns its job; else a new one. -/
def claimFor (sha256 : Bytes → Digest) (state : State) (jobId : Digest) (owner claimKey : String) (token : Digest) :
    Outcome Claim :=
  match claimUnder state claimKey with
  | none => require (newClaim sha256 jobId owner claimKey token) invalid
  | some existing => do
      refuse (existing.jobId ≠ jobId ∨ existing.owner.val ≠ owner)
        ⟨.claimConflict, "claim key belongs to a different owner/job"⟩
      let _ ← state.authenticateRunning existing
      .ok existing

/-- A claim registers no records. -/
def claimRequest (claim : Claim) (claimKey : String) : Request :=
  ⟨.claim, "claim/" ++ claimKey, (Contents.claim claim).payload []⟩

def claimBuilder (registry : Registry) (sha256 : Bytes → Digest) (jobId : Digest) (owner claimKey : String)
    (token : Digest) : Builder := fun state => do
  let job ← state.getJob jobId
  state.jobUsable job.spec (jobRoots job.spec)
  let _ ← registry.verify state (jobRoots job.spec) Dict.empty
  let claim ← claimFor sha256 state jobId owner claimKey token
  .ok (some (claimRequest claim claimKey))

/-- Claim a job with a fresh token. -/
def claim (registry : Registry) (sha256 : Bytes → Digest) (jobId : Digest) (owner claimKey : String) (token : Digest)
    (now : Timestamp) : Process Claim := do
  let state ← change sha256 (registry.claimBuilder sha256 jobId owner claimKey token) now
  Effects.lift (require (claimUnder state claimKey) ⟨.lookup, "no attempt under the claim key"⟩)

/-! ### What a claim answers -/

/-- A claim of this job, by this owner and under this key. -/
structure Answers (claim : Claim) (jobId : Digest) (owner claimKey : String) : Prop where
  job : claim.jobId = jobId
  owner_eq : claim.owner.val = owner
  key_eq : claim.claimKey.val = claimKey

theorem claimUnder_key {claim : Claim} (found : claimUnder state claimKey = some claim) :
    claim.claimKey.val = claimKey := by
  obtain ⟨attempt, first, rfl⟩ := Option.map_eq_some_iff.mp found
  simpa using List.find?_some first

theorem newClaim_answers {claim : Claim} (made : newClaim sha256 jobId owner claimKey token = some claim) :
    Answers claim jobId owner claimKey := by
  simp only [newClaim, Option.bind_eq_bind, Option.bind_eq_some_iff, Option.some.injEq] at made
  obtain ⟨named, isOwner, keyed, isKey, rfl⟩ := made
  exact ⟨rfl, val_of_check isOwner, val_of_check isKey⟩

/-- The claim that is asked for is the one that its key has, or the key has none. -/
theorem claimFor_answers {claim : Claim} (asked : claimFor sha256 state jobId owner claimKey token = .ok claim) :
    Answers claim jobId owner claimKey ∧
      (claimUnder state claimKey = none ∨ claimUnder state claimKey = some claim) := by
  rw [claimFor] at asked
  split at asked
  next fresh => exact ⟨newClaim_answers (require_eq_ok.mp asked), .inl fresh⟩
  next existing found =>
    simp only [bind_eq_ok, refuse_eq_ok, not_or, not_not, Except.ok.injEq] at asked
    obtain ⟨_, ⟨job, named⟩, _, _, rfl⟩ := asked
    exact ⟨⟨job, named, claimUnder_key found⟩, .inr found⟩

theorem claimBuilder_asks {built : Option Request}
    (asked : registry.claimBuilder sha256 jobId owner claimKey token state = .ok built) :
    ∃ claim, claimFor sha256 state jobId owner claimKey token = .ok claim ∧
      built = some (claimRequest claim claimKey) := by
  simp only [claimBuilder, bind_eq_ok, Except.ok.injEq] at asked
  obtain ⟨_, _, _, _, _, _, claim, found, rfl⟩ := asked
  exact ⟨claim, found, rfl⟩

/-! ### Grants -/

/-- The first event under a claim key grants this claim. -/
def Granted (loaded : Loaded) (claimKey : String) (claim : Claim) : Prop :=
  ∃ event, (loaded.events.find? fun event => event.semanticKey.val = "claim/" ++ claimKey) = some event ∧
    event.data.val.lookup "claim" = some (Claim.codec.document claim)

theorem Granted.unique {loaded : Loaded} {first second : Claim} (one : Granted loaded claimKey first)
    (two : Granted loaded claimKey second) : first = second := by
  obtain ⟨event, found, written⟩ := one
  obtain ⟨other, again, repeated⟩ := two
  obtain rfl := Option.some.inj (found.symm.trans again)
  exact Claim.codec.document_injective (Option.some.inj (written.symm.trans repeated))

theorem Granted.grows {first next : Loaded} {before after : List RegistryLimits} {claim : Claim}
    (granted : Granted first claimKey claim) (grows : Grows sha256 first before next after) :
    Granted next claimKey claim := by
  obtain ⟨event, found, written⟩ := granted
  cases grows with
  | same => exact ⟨event, found, written⟩
  | event linked applied =>
      refine ⟨event, ?_, written⟩
      rw [extended, List.find?_append, found, Option.some_or]

theorem lookup_claim {data : EventData} {claim : Claim}
    (same : withoutArtifacts data = withoutArtifacts ((Contents.claim claim).payload [])) :
    data.val.lookup "claim" = some (Claim.codec.document claim) := by
  have kept := Json.obj.inj same
  have listed : ((Contents.claim claim).payload []).val.lookup "claim" = some (Claim.codec.document claim) :=
    Json.lookup_sortMembers ((Contents.claim claim).payloadMembers_nodup [])
      (List.mem_cons_of_mem _ List.mem_cons_self)
  rw [← lookup_filter (show "claim" ≠ "artifacts" by decide), kept, lookup_filter (by decide), listed]

theorem granted_of_repeats {loaded : Loaded} {claim : Claim}
    (repeats : Repeats loaded (claimRequest claim claimKey)) : Granted loaded claimKey claim := by
  obtain ⟨event, prior, again⟩ := repeats
  obtain ⟨_, same, _⟩ := checkReissue_eq_ok.mp again
  exact ⟨event, prior, lookup_claim same⟩

/-- A new attempt under a key that no attempt has is the first one under it. -/
theorem claimUnder_set {claim : Claim} {record : AttemptRecord} {jobs : Dict Digest JobRecord}
    (named : record.claim.claimKey.val = claimKey)
    (fresh : ∀ attempt ∈ state.attempts.values, attempt.claim.claimKey ≠ record.claim.claimKey) :
    claimUnder { state with attempts := state.attempts.set claim.attemptId record, jobs } claimKey =
      some record.claim := by
  have only (attempt : AttemptRecord) (inside : attempt ∈ (state.attempts.set claim.attemptId record).values)
      (keyed : attempt.claim.claimKey.val = claimKey) : attempt = record := by
    obtain ⟨id, stored⟩ := Dict.mem_values.mp inside
    rw [Dict.get?_set] at stored
    split at stored
    next =>
      cases stored
      rfl
    next =>
      have apart := fresh attempt (Dict.mem_values.mpr ⟨id, stored⟩)
      exact absurd (Subtype.ext (keyed.trans named.symm)) apart
  rw [claimUnder]
  cases found : (state.attempts.set claim.attemptId record).values.find? fun attempt =>
      attempt.claim.claimKey.val = claimKey with
  | none =>
      have present : record ∈ (state.attempts.set claim.attemptId record).values :=
        Dict.mem_values.mpr ⟨claim.attemptId, Dict.get?_set_self _ _ _⟩
      have missing := List.find?_eq_none.mp found record present
      simp [named] at missing
  | some attempt =>
      have keyed := List.find?_some found
      rw [only attempt (List.mem_of_find?_eq_some found) (by simpa using keyed)]
      rfl

/-- After the event of a claim its key has this claim. -/
theorem claimUnder_appended {loaded : Loaded} {claim : Claim} {now : Timestamp} {event : RegistryEvent}
    {next : State} (named : claim.claimKey.val = claimKey)
    (appends : Appends sha256 loaded (claimRequest claim claimKey) now event next) :
    claimUnder next claimKey = some claim := by
  obtain ⟨data, key, compacted, _, rfl⟩ := appends.built
  have applied : loaded.state.apply sha256 .claim data.val = .ok next := appends.applied
  cases State.apply_step applied with
  | event installs change =>
      cases change with
      | claim guard =>
          have decoded := guard.decoded
          rw [member, lookup_claim (withoutArtifacts_compact compacted), Option.getD_some,
            Codec.validate_document] at decoded
          obtain rfl := Option.some.inj decoded
          exact claimUnder_set named guard.key_fresh

/-! ### Calls -/

theorem claim_ends {world : World} {storeRoot : StoreRoot} {database : Database} {loaded : Loaded}
    {capacities : List RegistryLimits} {journal : Bytes}
    (recorded : Recorded sha256 world.directory storeRoot database loaded capacities journal)
    (client : Client world.directory storeRoot database loaded capacities journal world.handle) (now : Timestamp) :
    (registry.claim sha256 jobId owner claimKey token now).Ends world
      (fun claim after => ∃ next, Records sha256 storeRoot after.directory next ∧ Granted next claimKey claim ∧
        Answers claim jobId owner claimKey)
      (fun _ _ => True) := by
  rw [claim, ends_bind]
  refine (change_returns recorded client _ now).mono ?_ (fun _ _ _ => trivial)
  rintro state after ⟨next, records, rfl, returned⟩
  rw [ends_lift]
  refine ⟨fun granted found => ⟨next, records, ?_⟩, fun _ _ => trivial⟩
  replace found := require_eq_ok.mp found
  rcases returned with nothing | ⟨request, built, repeats, left⟩
  · obtain ⟨_, _, absurd⟩ := claimBuilder_asks nothing
    cases absurd
  · obtain ⟨asked, answered, same⟩ := claimBuilder_asks built
    obtain rfl := Option.some.inj same
    obtain ⟨answers, known⟩ := claimFor_answers answered
    have equal : asked = granted := by
      rcases left with rfl | ⟨_, event, appends⟩
      · rcases known with fresh | existing
        · rw [fresh] at found
          cases found
        · exact Option.some.inj (existing.symm.trans found)
      · exact Option.some.inj ((claimUnder_appended answers.key_eq appends).symm.trans found)
    subst equal
    exact ⟨granted_of_repeats repeats, answers⟩

/-- A claim does to the registry what its change does. -/
theorem claim_world (now : Timestamp) (world : World) :
    (registry.claim sha256 jobId owner claimKey token now world).2 =
      (change sha256 (registry.claimBuilder sha256 jobId owner claimKey token) now world).2 := by
  simp only [claim, bind]
  rcases change sha256 (registry.claimBuilder sha256 jobId owner claimKey token) now world with ⟨_ | _, _⟩ <;> rfl

end Registry

namespace System

open Storage Registry

variable {sha256 : Bytes → Digest} {system : System} {storeRoot : StoreRoot} {database : Database}
  {loaded : Loaded} {capacities : List RegistryLimits} {journal : Bytes}

/-- After a claim that returned, the history grants what it returned. -/
theorem Running.claimed (running : Running sha256 system storeRoot database loaded capacities journal)
    {registry : Registry} {jobId token : Digest} {owner claimKey : String} {now : Timestamp} {index : Nat}
    {remaining : Option Nat} {handle : Handle} (acting : system.handles[index]? = some handle) {granted : Claim}
    (returned : (registry.claim sha256 jobId owner claimKey token now ⟨system.directory, handle, remaining⟩).1 =
      .ok granted) : ∃ database next later journal,
      Running sha256 (system.perform sha256
        (.change index (registry.claimBuilder sha256 jobId owner claimKey token) now, remaining)) storeRoot database next
        later journal ∧ Grows sha256 loaded capacities next later ∧ Granted next claimKey granted ∧
      Answers granted jobId owner claimKey := by
  obtain ⟨second, next, later, piece, after, grows⟩ := running.perform
    (.change index (registry.claimBuilder sha256 jobId owner claimKey token) now, remaining)
  have ends := @claim_ends sha256 registry jobId token owner claimKey ⟨system.directory, handle, remaining⟩ storeRoot
    database loaded capacities journal running.recorded (running.clients handle (List.mem_of_getElem? acting)) now
  have reached : (system.perform sha256 (.change index (registry.claimBuilder sha256 jobId owner claimKey token) now,
      remaining)).directory =
        (registry.claim sha256 jobId owner claimKey token now ⟨system.directory, handle, remaining⟩).2.directory := by
    rw [claim_world]
    simp only [System.perform, System.within, acting]
  simp only [Ends] at ends
  generalize registry.claim sha256 jobId owner claimKey token now ⟨system.directory, handle, remaining⟩ = result
    at ends returned reached
  obtain ⟨outcome, world⟩ := result
  cases returned
  obtain ⟨other, records, grant, answers⟩ := ends
  obtain rfl := after.recorded.unique (reached ▸ records)
  exact ⟨second, other, later, piece, after, grows, grant, answers⟩

/-- In every run, with interruptions anywhere: a claim that returns gives a claim of the job, by the owner and under the
key that it was asked for; and every later claim under that key that returns, from any client, with any token and
whatever happened in between, was asked for the same job by the same owner and returns the same claim. -/
theorem run_claims (sha256 : Bytes → Digest) (calls : List (Call × Option Nat)) :
    (∀ handle ∈ (run sha256 calls).handles, ∀ (registry : Registry) jobId owner claimKey token now remaining,
      (registry.claim sha256 jobId owner claimKey token now).Ends ⟨(run sha256 calls).directory, handle, remaining⟩
        (fun claim _ => Answers claim jobId owner claimKey) (fun _ _ => True)) ∧
    ∀ (registry : Registry) jobId owner claimKey token now index handle remaining first,
      (run sha256 calls).handles[index]? = some handle →
      (registry.claim sha256 jobId owner claimKey token now ⟨(run sha256 calls).directory, handle, remaining⟩).1 =
        .ok first →
      ∀ more (reached : System), reached = run sha256
          (calls ++ (.change index (registry.claimBuilder sha256 jobId owner claimKey token) now, remaining) :: more) →
        ∀ (later : Registry) otherJob otherOwner otherToken moment (place : Nat) client allowed second,
          reached.handles[place]? = some client →
          (later.claim sha256 otherJob otherOwner claimKey otherToken moment
            ⟨reached.directory, client, allowed⟩).1 = .ok second →
          second = first ∧ otherJob = jobId ∧ otherOwner = owner := by
  rcases @run_running sha256 calls with unopened | ⟨root, database, loaded, capacities, journal, running⟩
  · constructor
    · intro handle found
      rw [unopened.handles] at found
      cases found
    · intro _ _ _ _ _ _ index handle _ _ acting
      rw [unopened.handles] at acting
      cases acting
  · constructor
    · intro handle found registry jobId owner claimKey token now remaining
      refine (@claim_ends sha256 registry jobId token owner claimKey ⟨_, handle, remaining⟩ root database loaded
        capacities journal running.recorded (running.clients handle found) now).mono ?_ (fun _ _ _ => trivial)
      rintro claim after ⟨_, _, _, answers⟩
      exact answers
    · intro registry jobId owner claimKey token now index handle remaining first acting returned more reached same
        wider otherJob otherOwner otherToken moment place client allowed again asking answered
      obtain ⟨second, next, later, piece, after, _, granted, answers⟩ := running.claimed acting returned
      have keeps {earlier last : Loaded} {before since : List RegistryLimits}
          (grown : Grows sha256 earlier before last since) (held : Granted earlier claimKey first) :
          Granted last claimKey first := held.grows grown
      obtain ⟨third, final, known, new, ends, still⟩ := after.keeps keeps granted more
      rw [run_append, List.foldl_cons] at same
      rw [← same] at ends
      obtain ⟨_, last, _, _, _, grown, repeated, agrees⟩ := ends.claimed asking answered
      have equal : again = first := repeated.unique (still.grows grown)
      exact ⟨equal, agrees.job.symm.trans (equal ▸ answers.job),
        agrees.owner_eq.symm.trans (equal ▸ answers.owner_eq)⟩

end System

end FeatureRl
