import FeatureRl.Registry.Replay

/-!
Reading the events of a registry page by page. A reader that goes on from the last event it got receives every committed
event once and in order, whatever is committed between its pages.
-/

namespace FeatureRl

open Checked Effects

namespace Storage

variable {sha256 : Bytes → Digest} {world : World} {storeRoot : StoreRoot} {database : Database}
  {loaded : Loaded} {capacities : List RegistryLimits} {journal : Bytes}

/-! ### Pages -/

def badPage : Failure := ⟨.validation, "event cursor must be nonnegative and page size 1..1000"⟩

def pageOf (after limit : Int) (events : List RegistryEvent) : List RegistryEvent :=
  (events.filter fun event => after < event.sequence).take limit.toNat

/-- One page of the committed events: those after a sequence number, at most `limit` of them. -/
def events (sha256 : Bytes → Digest) (after limit : Int) : Outcome (Process (List RegistryEvent)) := do
  refuse (after < 0 ∨ limit < 1 ∨ 1000 < limit) badPage
  .ok (view sha256 fun _ committed => .ok (pageOf after limit committed))

/-- The sequence number that the next page starts after. -/
def cursor (read : List RegistryEvent) : Int := ((read.getLast?.map RegistryEvent.sequence).getD 0 : Nat)

/-- Events are numbered in the order of their commits. -/
theorem History.sequence_get? {initial : RegistryLimits} {committed : List RegistryEvent} {state : State}
    (history : History sha256 initial committed state capacities) {index : Nat} {event : RegistryEvent}
    (found : committed[index]? = some event) : event.sequence = index + 1 := by
  induction history with
  | start => cases found
  | @commit earlier _ _ last _ _ linked _ ih =>
      rcases Nat.lt_trichotomy index earlier.length with before | rfl | beyond
      · exact ih (by rwa [List.getElem?_append_left before] at found)
      · rw [List.getElem?_append_right (Nat.le_refl _), Nat.sub_self] at found
        cases found
        exact linked.sequence
      · rw [List.getElem?_eq_none (by simp; omega)] at found
        cases found

theorem History.filter_sequence {initial : RegistryLimits} {committed : List RegistryEvent} {state : State}
    (history : History sha256 initial committed state capacities) (count : Nat) :
    (committed.filter fun event => (count : Int) < event.sequence) = committed.drop count := by
  induction history with
  | start => simp
  | @commit earlier _ _ last _ _ linked _ ih =>
      rw [List.filter_append, ih, List.drop_append]
      by_cases newer : count ≤ earlier.length
      · have shown : count < earlier.length + 1 := by omega
        simp [linked.sequence, Nat.sub_eq_zero_of_le newer, shown]
      · have past : (List.drop (count - earlier.length) [last]) = [] := List.drop_eq_nil_of_le (by simp; omega)
        have hidden : earlier.length + 1 ≤ count := by omega
        simp [linked.sequence, past, hidden]

/-- A reader that has a prefix of the history goes on after as many events as it has. -/
theorem History.cursor_prefix {initial : RegistryLimits} {committed read : List RegistryEvent} {state : State}
    (history : History sha256 initial committed state capacities) (before : read <+: committed) :
    cursor read = read.length := by
  cases last : read.getLast? with
  | none =>
      obtain rfl := List.getLast?_eq_none_iff.mp last
      rfl
  | some event =>
      have nonempty : read ≠ [] := fun empty => by simp [empty] at last
      have bound : read.length - 1 < read.length := Nat.sub_one_lt (by simpa using nonempty)
      have here : read[read.length - 1]? = some event := by rw [← List.getLast?_eq_getElem?, last]
      have found : committed[read.length - 1]? = some event := by
        obtain ⟨rest, rfl⟩ := before
        rw [List.getElem?_append_left bound, here]
      have numbered := history.sequence_get? found
      simp only [cursor, last, Option.map_some, Option.getD_some]
      omega

theorem History.page_prefix {initial : RegistryLimits} {committed read : List RegistryEvent} {state : State}
    (history : History sha256 initial committed state capacities) (before : read <+: committed) (limit : Int) :
    read ++ pageOf (cursor read) limit committed = committed.take (read.length + limit.toNat) := by
  rw [pageOf, history.cursor_prefix before, history.filter_sequence, List.take_add,
    ← List.prefix_iff_eq_take.mp before]

theorem events_left
    (recorded : Recorded sha256 world.directory storeRoot database loaded capacities journal)
    (client : Client world.directory storeRoot database loaded capacities journal world.handle)
    {after limit : Int} {process : Process (List RegistryEvent)} (asked : events sha256 after limit = .ok process) :
    process.Ends world (fun _ => Left sha256 storeRoot loaded capacities world)
      (fun _ => Left sha256 storeRoot loaded capacities world) := by
  simp only [events, bind_eq_ok, Except.ok.injEq] at asked
  obtain ⟨_, _, rfl⟩ := asked
  exact view_left recorded client _

/-- A page of a client is the next piece of the history. -/
theorem events_ends {read : List RegistryEvent}
    (recorded : Recorded sha256 world.directory storeRoot database loaded capacities journal)
    (client : Client world.directory storeRoot database loaded capacities journal world.handle)
    (before : read <+: loaded.events) {limit : Int} {process : Process (List RegistryEvent)}
    (asked : events sha256 (cursor read) limit = .ok process) : process.Ends world
      (fun page after => read ++ page = loaded.events.take (read.length + limit.toNat) ∧
        Loads sha256 after.directory world.handle.requestedLimits loaded)
      (fun _ _ => world.remaining ≠ none) := by
  obtain ⟨initial, history⟩ := recorded.committed.history
  simp only [events, bind_eq_ok, Except.ok.injEq] at asked
  obtain ⟨_, _, rfl⟩ := asked
  rw [view]
  refine open_ends recorded client.toFaithful ?_ ?_ ?_
  · intro after report recovers _
    rw [ends_lift_ok]
    exact ⟨history.page_prefix before limit, recovers.settled.toRecorded.loads client.admitted⟩
  · exact fun after torn => torn.remaining
  · intro after _ _ _ _ foreign
    exact absurd ⟨client.rooted, client.admitted⟩ foreign

end Storage

/-! ### A reader of a running system -/

namespace System

open Storage

variable {sha256 : Bytes → Digest}

/-- A system and the events that a reader got from it so far. -/
structure Reading where
  system : System
  read : List RegistryEvent

/-- What happens next: a call of any process, or the reader's next page through some handle. -/
inductive Move where
  | call (call : Call × Option Nat)
  | page (index : Nat) (limit : Int) (remaining : Option Nat)

/-- What the reader gets; nothing where the page fails or is interrupted. -/
def received (system : System) (index : Nat) (remaining : Option Nat) (process : Process (List RegistryEvent)) :
    List RegistryEvent :=
  match system.handles[index]? with
  | none => []
  | some handle => ((process ⟨system.directory, handle, remaining⟩).1.toOption).getD []

def Reading.next (sha256 : Bytes → Digest) (reading : Reading) : Move → Reading
  | .call call => { reading with system := reading.system.perform sha256 call }
  | .page index limit remaining =>
      match events sha256 (cursor reading.read) limit with
      | .error _ => reading
      | .ok process =>
          ⟨reading.system.within index remaining process,
            reading.read ++ received reading.system index remaining process⟩

def reading (sha256 : Bytes → Digest) (moves : List Move) : Reading :=
  moves.foldl (Reading.next sha256) ⟨created, []⟩

/-- The reader has a prefix of what the system committed. -/
def Reading.Follows (sha256 : Bytes → Digest) (reading : Reading) : Prop :=
  (Unopened reading.system ∧ reading.read = []) ∨ ∃ storeRoot database loaded capacities journal,
    Running sha256 reading.system storeRoot database loaded capacities journal ∧ reading.read <+: loaded.events

theorem Reading.Follows.next {reading : Reading} (follows : reading.Follows sha256) (move : Move) :
    (reading.next sha256 move).Follows sha256 := by
  obtain ⟨system, read⟩ := reading
  cases move with
  | call call =>
      rcases follows with ⟨unopened, rfl⟩ | ⟨root, database, loaded, capacities, journal, running, before⟩
      · rcases unopened.perform call with still | ⟨root, limits, database, journal, running⟩
        · exact .inl ⟨still, rfl⟩
        · exact .inr ⟨root, database, _, _, journal, running, List.nil_prefix⟩
      · obtain ⟨second, next, later, piece, after, grows⟩ := running.perform call
        exact .inr ⟨root, second, next, later, piece, after, before.trans grows.events_prefix⟩
  | page index limit remaining =>
      simp only [Reading.next]
      cases asked : events sha256 (cursor read) limit with
      | error failure => exact follows
      | ok process =>
          rcases follows with ⟨unopened, rfl⟩ | ⟨root, database, loaded, capacities, journal, running, before⟩
          · have absent : system.handles[index]? = none := by rw [unopened.handles]; rfl
            simp only [received, System.within, absent, List.append_nil]
            exact .inl ⟨unopened, rfl⟩
          · obtain ⟨second, next, later, piece, after, grows⟩ := running.within index remaining process
              fun handle known => events_left running.recorded (running.clients handle known) asked
            refine .inr ⟨root, second, next, later, piece, after, List.IsPrefix.trans ?_ grows.events_prefix⟩
            cases acting : system.handles[index]? with
            | none => simpa only [received, acting, List.append_nil] using before
            | some handle =>
                simp only [received, acting]
                have ends := @events_ends sha256 ⟨system.directory, handle, remaining⟩ root database loaded capacities
                  journal read running.recorded (running.clients handle (List.mem_of_getElem? acting)) before limit
                  process asked
                simp only [Ends] at ends
                generalize process ⟨system.directory, handle, remaining⟩ = result at ends
                rcases result with ⟨failure | page, world⟩
                · simpa [Except.toOption] using before
                · simp only [Except.toOption, Option.getD_some]
                  rw [ends.1]
                  exact List.take_prefix _ _

theorem reading_follows (sha256 : Bytes → Digest) (moves : List Move) :
    (reading sha256 moves).Follows sha256 := by
  induction moves using List.reverseRecOn with
  | nil => exact .inl ⟨unopened_created, rfl⟩
  | append_singleton moves move ih =>
      rw [reading, List.foldl_append]
      exact ih.next move

theorem Reading.read_next (reading : Reading) (move : Move) : reading.read <+: (reading.next sha256 move).read := by
  cases move with
  | call call => exact List.prefix_refl _
  | page index limit remaining =>
      simp only [Reading.next]
      cases events sha256 (cursor reading.read) limit with
      | error failure => exact List.prefix_refl _
      | ok process => exact List.prefix_append _ _

theorem reading_grows (moves more : List Move) : (reading sha256 moves).read <+: (reading sha256 (moves ++ more)).read := by
  induction more using List.reverseRecOn with
  | nil => rw [List.append_nil]
  | append_singleton earlier move ih =>
      have last : reading sha256 (moves ++ earlier ++ [move]) = (reading sha256 (moves ++ earlier)).next sha256 move := by
        rw [reading, List.foldl_append]
        rfl
      rw [← List.append_assoc, last]
      exact ih.trans (Reading.read_next _ move)

/-- A reader that goes on from its last event, through any client and with failed and interrupted pages between, while
any calls are performed: what it has only grows, and is at every moment the beginning of what is committed, no event
twice, none left out, none out of order. Its next page, unless interrupted, brings exactly the events that follow, up to
the limit. -/
theorem run_paging (sha256 : Bytes → Digest) (moves : List Move) :
    (∀ more, (reading sha256 moves).read <+: (reading sha256 (moves ++ more)).read) ∧
    ∀ handle ∈ (reading sha256 moves).system.handles, ∃ loaded,
      Loads sha256 (reading sha256 moves).system.directory handle.requestedLimits loaded ∧
      (reading sha256 moves).read <+: loaded.events ∧
      ∀ limit : Int, 1 ≤ limit → limit ≤ 1000 → ∃ process,
        events sha256 (cursor (reading sha256 moves).read) limit = .ok process ∧
        process.Ends ⟨(reading sha256 moves).system.directory, handle, none⟩
          (fun page after =>
            (reading sha256 moves).read ++ page =
              loaded.events.take ((reading sha256 moves).read.length + limit.toNat) ∧
            Loads sha256 after.directory handle.requestedLimits loaded)
          (fun _ _ => False) := by
  refine ⟨reading_grows moves, fun handle found => ?_⟩
  rcases reading_follows sha256 moves with ⟨unopened, _⟩ | ⟨root, database, loaded, capacities, journal, running, before⟩
  · rw [unopened.handles] at found
    cases found
  · have client := running.clients handle found
    refine ⟨loaded, running.recorded.loads client.admitted, before, fun limit least most => ?_⟩
    obtain ⟨initial, history⟩ := running.recorded.committed.history
    have position := history.cursor_prefix before
    obtain ⟨process, asked⟩ : ∃ process, events sha256 (cursor (reading sha256 moves).read) limit = .ok process := by
      simp only [events, bind_eq_ok, refuse_eq_ok]
      exact ⟨_, (), by omega, rfl⟩
    refine ⟨process, asked, ?_⟩
    refine (@events_ends sha256 ⟨_, handle, none⟩ root database loaded capacities journal _ running.recorded client
      before limit process asked).mono (fun _ _ page => page) ?_
    intro _ _ interrupted
    exact interrupted rfl

end System

end FeatureRl
