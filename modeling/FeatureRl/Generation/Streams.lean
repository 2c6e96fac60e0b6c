import FeatureRl.Generation.Events
import FeatureRl.Lib.Gather
import FeatureRl.Pipeline.Lines
import Mathlib.Data.List.DropRight

/-!
Event streams of one process. The protocol ends each event with a line feed, while the parser splits the stream at
every Unicode line boundary, also at those that JSON allows inside a string.
-/

namespace FeatureRl

open Checked

namespace Generation

open Context (Line splitlines firstLine afterBreak isBreak)

def isJsonSpace (c : Char) : Bool := c ∈ [' ', '\t', '\n', '\r']

/-- The reader of one JSON text without duplicate keys. A carriage return after a value is blank; a blank text is
no value; and where a text is a value up to a line boundary, it is blank from there on. -/
structure JsonReader where
  read : List Char → Except Raised Wire
  trailing : ∀ text value, read (text ++ ['\r']) = .ok value ↔ read text = .ok value
  blank : ∀ text value, (∀ c ∈ text, isJsonSpace c = true) → read text ≠ .ok value
  whole : ∀ first c rest value whole, isBreak c = true → read first = .ok value →
    read (first ++ c :: rest) = .ok whole → ∀ d ∈ c :: rest, isJsonSpace d = true

/-- `[_json_no_duplicates(line) for line in raw.decode("utf-8").splitlines()]`. -/
def readLines (reader : JsonReader) (raw : Bytes) : Except Raised (List Wire) :=
  match Utf8.decode raw with
  | none => .error (Raised.valueError (PyText.ofString "'utf-8' codec can't decode bytes"))
  | some text => (splitlines text).mapM reader.read

def Python.reading (python : Python) (reader : JsonReader) : Python :=
  { python with readEvents := readLines reader }

/-- The text of a stream: each line with its line feed, which the last one may lack. -/
def streamText (closed : Bool) : List Line → List Char
  | [] => []
  | line :: rest => line ++ if rest = [] ∧ closed = false then [] else '\n' :: streamText closed rest

/-! ### Streams that are split at line feeds only -/

/-- A line without a carriage return at its end. -/
def body (line : Line) : Line := if line.getLast? = some '\r' then line.dropLast else line

/-- No character inside the line is a line boundary. -/
def Unbroken (line : Line) : Prop := ∀ c ∈ body line, isBreak c = false

instance (line : Line) : Decidable (Unbroken line) := List.decidableBAll _ (body line)

theorem body_spec (line : Line) : line = body line ∨ line = body line ++ ['\r'] := by
  rw [body]
  split
  next last => exact .inr (List.dropLast_append_getLast? _ last).symm
  next => exact .inl rfl

theorem splitlines_line {line : Line} (unbroken : Unbroken line) (rest : List Char) :
    splitlines (line ++ '\n' :: rest) = body line :: splitlines rest := by
  rcases body_spec line with same | same
  · conv_lhs => rw [same]
    exact Context.splitlines_clean unbroken (by decide) rest
  · conv_lhs => rw [same, List.append_assoc]
    exact Context.splitlines_clean unbroken (by decide) ('\n' :: rest)

theorem splitlines_last {line : Line} (unbroken : Unbroken line) (filled : line ≠ []) :
    splitlines line = [body line] := by
  rcases body_spec line with same | same
  · conv_lhs => rw [same]
    exact Context.splitlines_whole unbroken (same ▸ filled)
  · conv_lhs => rw [same]
    exact Context.splitlines_clean unbroken (by decide) []

theorem splitlines_stream {lines : List Line} (unbroken : ∀ line ∈ lines, Unbroken line)
    (filled : ∀ line ∈ lines, line ≠ []) (closed : Bool) : splitlines (streamText closed lines) = lines.map body := by
  induction lines with
  | nil => rfl
  | cons line rest ih =>
      obtain ⟨here, later⟩ := List.forall_mem_cons.mp unbroken
      obtain ⟨some, others⟩ := List.forall_mem_cons.mp filled
      rw [streamText]
      split
      next last =>
        obtain ⟨rfl, _⟩ := last
        rw [List.append_nil, splitlines_last here some]
        rfl
      next => rw [splitlines_line here, ih later others, List.map_cons]

/-! ### Lines that are cut -/

section

variable (reader : JsonReader)

def Reads (line : Line) : Prop := ∃ value, reader.read line = .ok value

variable {reader}

theorem Reads.filled {line : Line} (reads : Reads reader line) : line ≠ [] := by
  rintro rfl
  obtain ⟨value, reads⟩ := reads
  exact reader.blank [] value (by simp) reads

theorem read_body (line : Line) (value : Wire) : reader.read (body line) = .ok value ↔ reader.read line = .ok value := by
  rcases body_spec line with same | same
  · rw [← same]
  · conv_rhs => rw [same, reader.trailing]

/-- A blank text before a line feed or the end is split into texts of which the first is blank. -/
theorem not_reads_firstLine {text : Line} (blank : ∀ c ∈ text, isJsonSpace c = true) {rest : List Char}
    (ends : rest = [] ∨ ∃ more, rest = '\n' :: more) : ¬ Reads reader (firstLine (text ++ rest)) := by
  rintro ⟨value, reads⟩
  refine reader.blank _ value (fun c member => ?_) reads
  have stops : firstLine rest = [] := by
    rcases ends with rfl | ⟨more, rfl⟩
    · rfl
    · exact Context.firstLine_break (by decide) more
  rw [firstLine, List.takeWhile_append] at member
  split at member
  next =>
    rw [← firstLine, stops, List.append_nil] at member
    exact blank c member
  next => exact blank c (List.takeWhile_subset _ member)

/-- A value that is cut leaves a text that is no value. -/
theorem exists_unread {line : Line} (single : '\n' ∉ line) (reads : Reads reader line) (broken : ¬ Unbroken line)
    {rest : List Char} (ends : rest = [] ∨ ∃ more, rest = '\n' :: more) :
    ∃ piece ∈ splitlines (line ++ rest), ¬ Reads reader piece := by
  obtain ⟨c, member, breaks⟩ : ∃ c ∈ body line, isBreak c = true := by simpa [Unbroken] using broken
  have inside : c ∈ line := by
    rcases body_spec line with same | same
    · rwa [same]
    · rw [same]
      exact List.mem_append_left _ member
  obtain ⟨d, tail, found, cuts⟩ := Context.exists_break inside breaks
  have pieces := Context.splitlines_head (List.append_ne_nil_of_left_ne_nil reads.filled rest)
  rw [Context.firstLine_before inside breaks] at pieces
  by_cases first : Reads reader (firstLine line)
  · obtain ⟨value, first⟩ := first
    obtain ⟨whole, reads⟩ := reads
    rw [found] at reads
    have blank := reader.whole _ d tail value whole cuts first reads
    obtain ⟨space, others⟩ := List.forall_mem_cons.mp blank
    have feed : d ≠ '\n' := by
      rintro rfl
      exact single (found ▸ List.mem_append_right _ (List.mem_cons_self ..))
    obtain rfl : d = '\r' := by
      simp only [isJsonSpace, List.mem_cons, List.not_mem_nil, or_false, decide_eq_true_eq] at space
      rcases space with rfl | rfl | rfl | rfl
      · cases cuts
      · cases cuts
      · exact absurd rfl feed
      · rfl
    have more : tail ≠ [] := by
      rintro rfl
      refine broken fun e member => ?_
      rw [body, found, List.getLast?_concat, if_pos rfl, List.dropLast_concat] at member
      exact Context.firstLine_clean line e member
    have drops : (line ++ rest).drop (firstLine line).length = '\r' :: (tail ++ rest) := by
      conv_lhs => rw [found, List.append_assoc]
      have measured : firstLine (firstLine line ++ '\r' :: tail) = firstLine line := by rw [← found]
      rw [measured, List.drop_left]
      rfl
    have after : afterBreak ('\r' :: (tail ++ rest)) = tail ++ rest := by
      cases tail with
      | nil => exact absurd rfl more
      | cons e tail =>
          rw [List.cons_append, afterBreak]
          rintro rest - same
          obtain ⟨rfl, _⟩ := List.cons.inj same
          exact single (found ▸ List.mem_append_right _ (by simp))
    rw [drops, after, Context.splitlines_head (List.append_ne_nil_of_left_ne_nil more rest)] at pieces
    refine ⟨firstLine (tail ++ rest), ?_, not_reads_firstLine others ends⟩
    rw [pieces]
    exact List.mem_cons_of_mem _ (List.mem_cons_self ..)
  · refine ⟨firstLine line, ?_, first⟩
    rw [pieces]
    exact List.mem_cons_self ..

theorem exists_unread_stream {lines : List Line} (single : ∀ line ∈ lines, '\n' ∉ line)
    (reads : ∀ line ∈ lines, Reads reader line) (broken : ¬ ∀ line ∈ lines, Unbroken line) (closed : Bool) :
    ∃ piece ∈ splitlines (streamText closed lines), ¬ Reads reader piece := by
  induction lines with
  | nil => exact absurd (by simp) broken
  | cons line rest ih =>
      obtain ⟨one, singles⟩ := List.forall_mem_cons.mp single
      obtain ⟨here, later⟩ := List.forall_mem_cons.mp reads
      by_cases unbroken : Unbroken line
      · have others : ¬ ∀ line ∈ rest, Unbroken line := fun all => broken (List.forall_mem_cons.mpr ⟨unbroken, all⟩)
        have more : rest ≠ [] := by
          rintro rfl
          exact others (by simp)
        obtain ⟨piece, member, unread⟩ := ih singles later others
        refine ⟨piece, ?_, unread⟩
        rw [streamText, if_neg (by simp [more]), splitlines_line unbroken]
        exact List.mem_cons_of_mem _ member
      · rw [streamText]
        refine exists_unread one here unbroken ?_
        split
        next => exact .inl rfl
        next => exact .inr ⟨_, rfl⟩

end

/-! ### Completed turns -/

def messageText (event : Event) : Option PyText :=
  ((Event.field event "item").bind Wire.members?).bind fun item => (Event.field item "text").bind Wire.text?

/-- The event completes an agent message. -/
def isMessage (event : Event) : Bool :=
  isString (Event.field event "type") "item.completed" &&
    isString (((Event.field event "item").bind Wire.members?).bind fun item => Event.field item "type") "agent_message"

/-- An event about an agent message or about reasoning. -/
def isItemEvent (event : Event) : Bool :=
  (["item.started", "item.updated", "item.completed"].any fun name => isString (Event.field event "type") name) &&
    ["agent_message", "reasoning"].any fun name =>
      isString (((Event.field event "item").bind Wire.members?).bind fun item => Event.field item "type") name

structure CompletedTurn (started turn : Event) (items : List Event) (completed : Event) (text : PyText)
    (usage : GenerationUsage) : Prop where
  starts : isString (Event.field started "type") "thread.started" = true
  named : ∃ name, Event.field started "thread_id" = some (.str name) ∧ name ≠ []
  turns : isString (Event.field turn "type") "turn.started" = true
  supported : ∀ event ∈ items, isItemEvent event = true
  message : ∃ event, items.filter isMessage = [event] ∧ messageText event = some text
  shown : text.strip ≠ []
  ends : isString (Event.field completed "type") "turn.completed" = true
  counts : GenerationUsage.ofWire (Event.field completed "usage") = some usage

/-- A thread start, a turn start, items with one completed agent message, and the completed turn. -/
def Accepts (values : List Wire) (text : PyText) (usage : GenerationUsage) : Prop :=
  ∃ started turn items completed, values = (started :: turn :: (items ++ [completed])).map Wire.obj ∧
    CompletedTurn started turn items completed text usage

theorem isString_iff {value : Option Wire} {text : String} :
    isString value text = true ↔ value = some (.str (PyText.ofString text)) := by
  rw [isString, decide_eq_true_eq, Option.bind_eq_some_iff]
  constructor
  · rintro ⟨wire, rfl, same⟩
    cases wire <;> simp_all [Wire.text?]
  · rintro rfl
    exact ⟨_, rfl, rfl⟩

theorem memberOf_eq_true {value : Option Wire} {names : List String} :
    memberOf value names = .ok true ↔ (names.any fun name => isString value name) = true := by
  constructor
  · intro found
    unfold memberOf at found
    split at found
    · cases found
    · cases found
    · exact Except.ok.inj found
  · intro found
    obtain ⟨name, _, same⟩ := List.any_eq_true.mp found
    rw [isString_iff] at same
    subst same
    exact congrArg Except.ok found

/-- A string is a member exactly when it is one of the names. -/
theorem memberOf_str (text : PyText) (names : List String) :
    memberOf (some (.str text)) names = .ok (names.any fun name => isString (some (.str text)) name) := rfl

variable (python : Python)

theorem isItemEvent_iff {event : Event} : isItemEvent event = true ↔
    memberOf (Event.field event "type") ["item.started", "item.updated", "item.completed"] = .ok true ∧
      ∃ item, (Event.field event "item").bind Wire.members? = some item ∧
        memberOf (Event.field item "type") ["agent_message", "reasoning"] = .ok true := by
  rw [isItemEvent, Bool.and_eq_true, ← memberOf_eq_true]
  refine and_congr_right fun _ => ?_
  cases inside : (Event.field event "item").bind Wire.members? with
  | none => simp [isString]
  | some item => simp [memberOf_eq_true]

theorem messages_refused {event : Event} (other : ¬ isItemEvent event = true) (rest : List Event)
    (texts : List PyText) : messages python (event :: rest) ≠ .ok texts := by
  rw [isItemEvent_iff] at other
  rw [messages]
  cases kind : memberOf (Event.field event "type") ["item.started", "item.updated", "item.completed"] with
  | error raised => simp [bind, Except.bind]
  | ok known =>
      cases known with
      | false => simp [bind, Except.bind, throw, throwThe, MonadExceptOf.throw]
      | true =>
          cases inside : (Event.field event "item").bind Wire.members? with
          | none => simp [bind, Except.bind, throw, throwThe, MonadExceptOf.throw]
          | some item =>
              cases role : memberOf (Event.field item "type") ["agent_message", "reasoning"] with
              | error raised => simp [bind, Except.bind, role]
              | ok supported =>
                  cases supported with
                  | false => simp [bind, Except.bind, role, throw, throwThe, MonadExceptOf.throw]
                  | true => exact absurd ⟨kind, item, inside, role⟩ other

theorem messages_item {event : Event} (supported : isItemEvent event = true) (rest : List Event) :
    messages python (event :: rest) =
      if isMessage event then
        match messageText event with
        | none => .error (Raised.valueError (PyText.ofString "Codex final message is missing text"))
        | some text => (messages python rest).map (text :: ·)
      else messages python rest := by
  obtain ⟨kind, item, inside, role⟩ := isItemEvent_iff.mp supported
  have same : isMessage event = (isString (Event.field event "type") "item.completed" &&
      isString (Event.field item "type") "agent_message") := by
    rw [isMessage, inside, Option.bind_some]
  have said : messageText event = (Event.field item "text").bind Wire.text? := by
    rw [messageText, inside, Option.bind_some]
  rw [messages, kind, inside, same, said]
  simp only [bind, Except.bind, role, Bool.not_true, Bool.false_eq_true, if_false]
  rfl

/-- The messages are found exactly when every item is supported and each completed message has a text. -/
theorem messages_eq_ok {events : List Event} {texts : List PyText} :
    messages python events = .ok texts ↔ (∀ event ∈ events, isItemEvent event = true) ∧
      (events.filter isMessage).map messageText = texts.map some := by
  induction events generalizing texts with
  | nil => cases texts <;> simp [messages]
  | cons event rest ih =>
      rw [List.forall_mem_cons]
      by_cases supported : isItemEvent event = true
      · rw [messages_item python supported, List.filter_cons]
        split
        next =>
          rw [List.map_cons]
          cases messageText event with
          | none => cases texts <;> simp
          | some text =>
              cases texts with
              | nil => cases messages python rest <;> simp [Except.map]
              | cons first others =>
                  have later := @ih others
                  cases found : messages python rest with
                  | error raised =>
                      rw [found] at later
                      simp only [Except.map, reduceCtorEq, false_iff] at later ⊢
                      rintro ⟨⟨_, items⟩, same⟩
                      exact later ⟨items, (List.cons.inj same).2⟩
                  | ok found =>
                      rw [found, Except.ok.injEq] at later
                      simp [Except.map, later, supported, and_left_comm]
        next => rw [ih, and_iff_right supported]
      · exact iff_of_false (messages_refused python supported rest texts) fun holds => supported holds.1.1

theorem failureOf_eq_ok {event : Event} {result : Unit} : failureOf python event = .ok result ↔
    memberOf (Event.field event "type") ["error", "turn.failed"] = .ok false := by
  rw [failureOf]
  cases memberOf (Event.field event "type") ["error", "turn.failed"] with
  | error raised => simp [bind, Except.bind]
  | ok failed => cases failed <;> simp [bind, Except.bind, pure, Except.pure, throw, throwThe, MonadExceptOf.throw]

theorem filterMap_members (events : List Event) : (events.map Wire.obj).filterMap Wire.members? = events := by
  rw [List.filterMap_map]
  exact List.filterMap_some

theorem map_members {values : List Wire} (all : (values.filterMap Wire.members?).length = values.length) :
    (values.filterMap Wire.members?).map Wire.obj = values := by
  induction values with
  | nil => rfl
  | cons value rest ih =>
      have shorter := List.length_filterMap_le Wire.members? rest
      cases value with
      | obj members =>
          have others : (rest.filterMap Wire.members?).length = rest.length := by simpa [Wire.members?] using all
          simp [Wire.members?, ih others]
      | _ =>
          simp only [List.filterMap_cons, Wire.members?, List.length_cons] at all
          omega

/-- A check that raises when its condition holds. -/
theorem raises_eq_ok {α β : Type} {condition : Prop} [Decidable condition] {raised : Raised}
    {next : α → Except Raised β} {later : Except Raised β} {result : β} :
    (if condition then (throw raised >>= next) else later) = .ok result ↔ ¬ condition ∧ later = .ok result := by
  split
  next holds => exact iff_of_false (fun same => nomatch same) fun both => both.1 holds
  next fails => exact (and_iff_right fails).symm

theorem mapM_eq_ok {α β : Type} {f : α → Except Raised β} {items : List α} {values : List β} :
    items.mapM f = .ok values ↔ List.Forall₂ (fun item value => f item = .ok value) items values := by
  induction items generalizing values with
  | nil => cases values <;> simp [pure, Except.pure]
  | cons item rest ih =>
      rw [List.mapM_cons, bind_eq_ok]
      constructor
      · rintro ⟨value, here, later⟩
        obtain ⟨others, found, same⟩ := bind_eq_ok.mp later
        obtain rfl := Except.ok.inj same
        exact .cons here (ih.mp found)
      · rintro (_ | ⟨here, later⟩)
        exact ⟨_, here, bind_eq_ok.mpr ⟨_, ih.mpr later, rfl⟩⟩

/-- The last check: one text that is not blank, and the usage. -/
theorem response_eq_ok {texts : List PyText} {value : Option Wire} {failure : Raised} {text : PyText}
    {usage : GenerationUsage} :
    (match texts with
      | [text] => if text.strip = [] then throw failure >>= fun (_ : PUnit) =>
            readUsage python value >>= fun usage => pure (text, usage)
          else readUsage python value >>= fun usage => pure (text, usage)
      | _ => throw failure) = Except.ok (text, usage) ↔
      texts = [text] ∧ text.strip ≠ [] ∧ GenerationUsage.ofWire value = some usage := by
  have read : ∀ shown, (readUsage python value >>= fun usage => pure (shown, usage)) = Except.ok (text, usage) ↔
      shown = text ∧ GenerationUsage.ofWire value = some usage := by
    intro shown
    rw [readUsage]
    cases GenerationUsage.ofWire value <;> simp [bind, Except.bind, pure, Except.pure]
  match texts with
  | [] => simp [throw, throwThe, MonadExceptOf.throw]
  | [shown] =>
      rw [raises_eq_ok, read, List.cons.injEq, and_iff_left rfl]
      constructor
      · rintro ⟨filled, rfl, usage⟩
        exact ⟨rfl, filled, usage⟩
      · rintro ⟨rfl, filled, usage⟩
        exact ⟨filled, rfl, usage⟩
  | first :: second :: rest => simp [throw, throwThe, MonadExceptOf.throw]

theorem named_iff {value : Option Wire} : ¬ (value.bind Wire.text?).all (· = []) = true ↔
    ∃ name, value = some (.str name) ∧ name ≠ [] := by
  cases value with
  | none => simp
  | some wire => cases wire <;> simp [Wire.text?]

theorem isString_ne {value : Option Wire} {text other : String} (same : isString value text = true)
    (differs : PyText.ofString text ≠ PyText.ofString other) : isString value other = false := by
  rw [isString_iff] at same
  rw [same, isString]
  simpa [Wire.text?] using differs

theorem message_iff {items : List Event} {text : PyText} : (items.filter isMessage).map messageText = [text].map some ↔
    ∃ event, items.filter isMessage = [event] ∧ messageText event = some text := by
  rw [List.map_singleton, List.map_eq_singleton_iff]

/-- What the checks of a turn find: exactly the turns that are described. -/
theorem turn_eq_ok {started turn : Event} {rest : List Event} {text : PyText} {usage : GenerationUsage} :
    (isString (Event.field started "type") "thread.started" && isString (Event.field turn "type") "turn.started") = true ∧
      (¬ ((Event.field started "thread_id").bind Wire.text?).all (· = []) = true) ∧
      (∃ texts, messages python rest.dropLast = .ok texts ∧
        isString (Event.field (rest.getLast?.getD turn) "type") "turn.completed" = true ∧ texts = [text] ∧
        text.strip ≠ [] ∧ GenerationUsage.ofWire (Event.field (rest.getLast?.getD turn) "usage") = some usage) ↔
      ∃ items completed, rest = items ++ [completed] ∧ CompletedTurn started turn items completed text usage := by
  constructor
  · rintro ⟨starts, named, _, said, ends, rfl, shown, counts⟩
    obtain ⟨starts, turns⟩ := Bool.and_eq_true_iff.mp starts
    rcases List.eq_nil_or_concat rest with rfl | ⟨items, completed, rfl⟩
    · rw [List.getLast?_nil, Option.getD_none, isString_ne turns (by decide)] at ends
      cases ends
    · rw [List.concat_eq_append, List.getLast?_concat, Option.getD_some] at ends counts
      rw [List.concat_eq_append, List.dropLast_concat] at said
      obtain ⟨supported, message⟩ := (messages_eq_ok python).mp said
      exact ⟨items, completed, List.concat_eq_append,
        ⟨starts, named_iff.mp named, turns, supported, message_iff.mp message, shown, ends, counts⟩⟩
  · rintro ⟨items, completed, rfl, turn⟩
    rw [List.getLast?_concat, Option.getD_some, List.dropLast_concat]
    exact ⟨Bool.and_eq_true_iff.mpr ⟨turn.starts, turn.turns⟩, named_iff.mpr turn.named, [text],
      (messages_eq_ok python).mpr ⟨turn.supported, message_iff.mpr turn.message⟩, turn.ends, rfl, turn.shown, turn.counts⟩

theorem CompletedTurn.kind {started turn : Event} {items : List Event} {completed : Event} {text : PyText}
    {usage : GenerationUsage} (completes : CompletedTurn started turn items completed text usage) :
    ∀ event ∈ started :: turn :: (items ++ [completed]), ∃ kind ∈ ["thread.started", "turn.started", "item.started",
      "item.updated", "item.completed", "turn.completed"], isString (Event.field event "type") kind = true := by
  intro event member
  simp only [List.mem_cons, List.mem_append, List.not_mem_nil, or_false] at member
  rcases member with rfl | rfl | item | rfl
  · exact ⟨_, by simp, completes.starts⟩
  · exact ⟨_, by simp, completes.turns⟩
  · have supported := completes.supported event item
    rw [isItemEvent, Bool.and_eq_true] at supported
    obtain ⟨kind, known, same⟩ := List.any_eq_true.mp supported.1
    refine ⟨kind, ?_, same⟩
    simp only [List.mem_cons, List.not_mem_nil, or_false] at known ⊢
    rcases known with rfl | rfl | rfl <;> simp
  · exact ⟨_, by simp, completes.ends⟩

theorem CompletedTurn.not_failed {started turn : Event} {items : List Event} {completed : Event} {text : PyText}
    {usage : GenerationUsage} (completes : CompletedTurn started turn items completed text usage) :
    ∀ event ∈ started :: turn :: (items ++ [completed]), failureOf python event = .ok () := by
  intro event member
  obtain ⟨kind, known, same⟩ := completes.kind event member
  rw [failureOf_eq_ok, isString_iff.mp same, memberOf_str]
  simp only [List.mem_cons, List.not_mem_nil, or_false] at known
  rcases known with rfl | rfl | rfl | rfl | rfl | rfl <;> decide

/-- The parser returns a text and a usage exactly for the streams of a completed turn. -/
theorem parseEvents_eq_ok {raw : Bytes} {text : PyText} {usage : GenerationUsage} :
    parseEvents python raw = .ok (text, usage) ↔
      ∃ values, python.readEvents raw = .ok values ∧ Accepts values text usage := by
  rw [parseEvents, bind_eq_ok]
  refine exists_congr fun values => and_congr_right fun _ => ?_
  rw [raises_eq_ok, bind_eq_ok]
  constructor
  · rintro ⟨valid, _, _, parsed⟩
    rw [Bool.or_eq_true, decide_eq_true_eq, decide_eq_true_eq, not_or, not_not] at valid
    have whole := map_members valid.2
    match events : values.filterMap Wire.members? with
    | [] => exact absurd events valid.1
    | [started] =>
        rw [events] at parsed
        cases parsed
    | started :: turn :: rest =>
        rw [events] at parsed whole
        simp only [raises_eq_ok, bind_eq_ok, Bool.not_eq_true', Bool.not_eq_false] at parsed
        obtain ⟨starts, named, texts, said, ends, parsed⟩ := parsed
        obtain ⟨items, completed, same, completes⟩ := (turn_eq_ok python).mp
          ⟨starts, named, texts, said, ends, (response_eq_ok python).mp parsed⟩
        rw [same] at whole
        exact ⟨started, turn, items, completed, whole.symm, completes⟩
  · rintro ⟨started, turn, items, completed, rfl, completes⟩
    have events := filterMap_members (started :: turn :: (items ++ [completed]))
    obtain ⟨starts, named, texts, said, ends, response⟩ :=
      (turn_eq_ok python).mpr ⟨items, completed, rfl, completes⟩
    have calm : (started :: turn :: (items ++ [completed])).mapM (failureOf python) =
        .ok ((started :: turn :: (items ++ [completed])).map fun _ => ()) := by
      rw [mapM_eq_ok, List.forall₂_map_right_iff, List.forall₂_same]
      exact completes.not_failed python
    refine ⟨?_, _, by rw [events]; exact calm, ?_⟩
    · rw [events, List.length_map]
      simp
    · rw [events]
      simp only [raises_eq_ok, bind_eq_ok, Bool.not_eq_true', Bool.not_eq_false]
      exact ⟨starts, named, texts, said, ends, (response_eq_ok python).mpr response⟩

/-! ### Streams of JSON values -/

variable (reader : JsonReader)

/-- The completed turns yield their text and their usage, and every other stream is rejected. -/
def Meets (closed : Bool) (lines : List Line) (values : List Wire) : Prop :=
  (∀ text usage, Accepts values text usage →
    parseEvents (python.reading reader) (Utf8.encode (streamText closed lines)) = .ok (text, usage) ∧
      observedUsage (python.reading reader) (Utf8.encode (streamText closed lines)) = .ok (some usage)) ∧
    ((¬ ∃ text usage, Accepts values text usage) →
      ∀ result, parseEvents (python.reading reader) (Utf8.encode (streamText closed lines)) ≠ .ok result)

theorem readLines_encode (text : List Char) :
    readLines reader (Utf8.encode text) = (splitlines text).mapM reader.read := by
  rw [readLines, Utf8.decode_encode]

variable {reader}

theorem reads_of_forall₂ {lines : List Line} {values : List Wire}
    (read : List.Forall₂ (fun line value => reader.read line = .ok value) lines values) :
    ∀ line ∈ lines, Reads reader line := by
  intro line member
  obtain ⟨value, _, reads⟩ := forall_of_forall₂ (List.Forall₂.flip read) line member
  exact ⟨value, reads⟩

theorem readLines_stream {lines : List Line} {values : List Wire}
    (read : List.Forall₂ (fun line value => reader.read line = .ok value) lines values)
    (unbroken : ∀ line ∈ lines, Unbroken line) (closed : Bool) :
    readLines reader (Utf8.encode (streamText closed lines)) = .ok values := by
  have filled : ∀ line ∈ lines, line ≠ [] := fun line member => (reads_of_forall₂ read line member).filled
  rw [readLines_encode, splitlines_stream unbroken filled, mapM_eq_ok, List.forall₂_map_left_iff]
  exact read.imp fun line value reads => (read_body line value).mpr reads

theorem parseEvents_broken {lines : List Line} (single : ∀ line ∈ lines, '\n' ∉ line)
    (reads : ∀ line ∈ lines, Reads reader line) (broken : ¬ ∀ line ∈ lines, Unbroken line) (closed : Bool)
    (result : PyText × GenerationUsage) :
    parseEvents (python.reading reader) (Utf8.encode (streamText closed lines)) ≠ .ok result := by
  intro parsed
  obtain ⟨text, usage⟩ := result
  obtain ⟨values, read, _⟩ := (parseEvents_eq_ok _).mp parsed
  obtain ⟨piece, member, unread⟩ := exists_unread_stream single reads broken closed
  have all : readLines reader (Utf8.encode (streamText closed lines)) = .ok values := read
  rw [readLines_encode, mapM_eq_ok] at all
  exact unread (reads_of_forall₂ all piece member)

theorem observedUsage_accepts {raw : Bytes} {values : List Wire} {text : PyText} {usage : GenerationUsage}
    (read : python.readEvents raw = .ok values) (accepts : Accepts values text usage) :
    observedUsage python raw = .ok (some usage) := by
  obtain ⟨started, turn, items, completed, rfl, completes⟩ := accepts
  have others : ∀ event ∈ started :: turn :: items,
      isString (Event.field event "type") "turn.completed" = false := by
    intro event member
    rcases List.mem_cons.mp member with rfl | member
    · exact isString_ne completes.starts (by decide)
    · rcases List.mem_cons.mp member with rfl | item
      · exact isString_ne completes.turns (by decide)
      · have supported := completes.supported event item
        rw [isItemEvent, Bool.and_eq_true] at supported
        obtain ⟨kind, known, same⟩ := List.any_eq_true.mp supported.1
        simp only [List.mem_cons, List.not_mem_nil, or_false] at known
        rcases known with rfl | rfl | rfl <;> exact isString_ne same (by decide)
  have found : (started :: turn :: (items ++ [completed])).filter
      (fun event => isString (Event.field event "type") "turn.completed") = [completed] := by
    rw [← List.cons_append, ← List.cons_append, List.filter_append, List.filter_eq_nil_iff.mpr]
    · simp [completes.ends]
    · intro event member
      simp [others event member]
  rw [observedUsage, read]
  simp only [filterMap_members, found, completes.counts]

/-- A stream of JSON values is handled as the protocol has it exactly when it is no completed turn or none of its
lines holds, before a last carriage return, a character at which `str.splitlines` cuts. -/
theorem stream_meets_iff {lines : List Line} {values : List Wire}
    (read : List.Forall₂ (fun line value => reader.read line = .ok value) lines values)
    (single : ∀ line ∈ lines, '\n' ∉ line) (closed : Bool) :
    Meets python reader closed lines values ↔
      ((∃ text usage, Accepts values text usage) → ∀ line ∈ lines, Unbroken line) := by
  by_cases unbroken : ∀ line ∈ lines, Unbroken line
  · refine iff_of_true ⟨fun text usage accepts => ?_, fun never result parsed => ?_⟩ fun _ => unbroken
    · have found : (python.reading reader).readEvents (Utf8.encode (streamText closed lines)) = .ok values :=
        readLines_stream read unbroken closed
      exact ⟨(parseEvents_eq_ok _).mpr ⟨values, found, accepts⟩, observedUsage_accepts _ found accepts⟩
    · obtain ⟨found, reads, accepts⟩ := (parseEvents_eq_ok _).mp parsed
      have same : readLines reader (Utf8.encode (streamText closed lines)) = .ok found := reads
      rw [readLines_stream read unbroken closed, Except.ok.injEq] at same
      exact never ⟨_, _, same ▸ accepts⟩
  · have rejected := parseEvents_broken python single (reads_of_forall₂ read) unbroken closed
    constructor
    · rintro ⟨accepted, _⟩ ⟨text, usage, accepts⟩
      exact absurd (accepted text usage accepts).1 (rejected _)
    · intro only
      exact ⟨fun text usage accepts => absurd (only ⟨text, usage, accepts⟩) unbroken, fun _ => rejected⟩

namespace StreamSample

/-- A text without the blanks around it. -/
def trim (text : List Char) : List Char := (text.dropWhile isJsonSpace).rdropWhile isJsonSpace

theorem trim_spec (text : List Char) :
    ∃ blank, text.dropWhile isJsonSpace = trim text ++ blank ∧ ∀ c ∈ blank, isJsonSpace c = true := by
  refine ⟨(text.dropWhile isJsonSpace).rtakeWhile isJsonSpace, ?_, fun c member => ?_⟩
  · exact (List.rdropWhile_append_rtakeWhile ..).symm
  · exact List.mem_rtakeWhile_imp member

theorem trim_trailing (text : List Char) : trim (text ++ ['\r']) = trim text := by
  rw [trim, trim, List.dropWhile_append]
  split
  next blank =>
    rw [List.isEmpty_iff.mp blank]
    rfl
  next => exact List.rdropWhile_concat_pos _ _ _ (by decide)

theorem trim_blank {text : List Char} (blank : ∀ c ∈ text, isJsonSpace c = true) : trim text = [] := by
  rw [trim, List.dropWhile_eq_nil_iff.mpr blank]
  rfl

theorem dropWhile_ne_nil {text : List Char} (shown : trim text ≠ []) : text.dropWhile isJsonSpace ≠ [] := by
  intro blank
  rw [trim, blank] at shown
  exact shown rfl

theorem blank_of_trim {first rest : List Char} (filled : trim first ≠ [])
    (same : trim first = trim (first ++ rest)) : ∀ d ∈ rest, isJsonSpace d = true := by
  obtain ⟨after, left, _⟩ := trim_spec first
  obtain ⟨blank, right, blanks⟩ := trim_spec (first ++ rest)
  rw [List.dropWhile_append, if_neg (by simpa using dropWhile_ne_nil filled), left, ← same, List.append_assoc,
    List.append_cancel_left_eq] at right
  intro d member
  exact blanks d (right ▸ List.mem_append_right _ member)

theorem prefix_of_trim {first rest : List Char} (filled : trim first ≠ []) :
    trim first <+: trim (first ++ rest) ∨ trim (first ++ rest) <+: trim first := by
  obtain ⟨after, left, _⟩ := trim_spec first
  obtain ⟨blank, right, _⟩ := trim_spec (first ++ rest)
  rw [List.dropWhile_append, if_neg (by simpa using dropWhile_ne_nil filled), left, List.append_assoc] at right
  exact List.prefix_or_prefix_of_prefix ⟨after ++ rest, rfl⟩ ⟨blank, right.symm⟩

section

variable (table : List (List Char × Wire))

def lookupText (text : List Char) : Except Raised Wire :=
  match table.lookup (trim text) with
  | some value => .ok value
  | none => .error (Raised.valueError (PyText.ofString "Expecting value"))

theorem lookupText_mem {text : List Char} {value : Wire} (read : lookupText table text = .ok value) :
    trim text ∈ table.map Prod.fst := by
  rw [lookupText] at read
  split at read
  next value found =>
    obtain ⟨before, after, split, _⟩ := List.lookup_eq_some_iff.mp found
    rw [split, List.map_append]
    exact List.mem_append_right _ (List.mem_cons_self ..)
  next => cases read

/-- The reader of the texts of a table; no text is the start of another. -/
def tableReader (filled : [] ∉ table.map Prod.fst)
    (free : ∀ first ∈ table.map Prod.fst, ∀ second ∈ table.map Prod.fst, first <+: second → first = second) :
    JsonReader where
  read := lookupText table
  trailing text value := by rw [lookupText, lookupText, trim_trailing]
  blank text value blank read := filled (trim_blank blank ▸ lookupText_mem table read)
  whole first c rest value whole _ read again := by
    have left := lookupText_mem table read
    have right := lookupText_mem table again
    have shown : trim first ≠ [] := fun empty => filled (empty ▸ left)
    refine blank_of_trim shown ?_
    rcases prefix_of_trim shown with shorter | longer
    · exact free _ left _ right shorter
    · exact (free _ right _ left longer).symm

end

def member (key : String) (value : Wire) : PyText × Wire := (PyText.ofString key, value)

def string (text : String) : Wire := .str (PyText.ofString text)

def started : Event := [member "type" (string "thread.started"), member "thread_id" (string "t")]

def turn : Event := [member "type" (string "turn.started")]

def message (text : String) : Event :=
  [member "type" (string "item.completed"),
    member "item" (.obj [member "type" (string "agent_message"), member "text" (string text)])]

def completed : Event :=
  [member "type" (string "turn.completed"), member "usage" (.obj [member "input_tokens" (.int 1),
    member "cached_input_tokens" (.int 0), member "output_tokens" (.int 1)])]

/-- A stream whose message says this. -/
def table (text : String) : List (List Char × Wire) :=
  [("\x7b\"type\":\"thread.started\",\"thread_id\":\"t\"\x7d".toList, .obj started),
    ("\x7b\"type\":\"turn.started\"\x7d".toList, .obj turn),
    ("\x7b\"type\":\"item.completed\",\"item\":\x7b\"type\":\"agent_message\",\"text\":\"".toList ++ text.toList ++
      "\"\x7d\x7d".toList, .obj (message text)),
    ("\x7b\"type\":\"turn.completed\",\"usage\":\x7b\"input_tokens\":1,\"cached_input_tokens\":0,\"output_tokens\":1\x7d\x7d".toList,
      .obj completed)]

def texts : JsonReader := tableReader (table "a\u2028b" ++ table "ab") (by decide +kernel) (by decide +kernel)

def usage : GenerationUsage := ⟨1, 0, 1, none, none⟩

def interpreter : Python := ⟨fun _ => .ok [], fun _ => [], fun _ => Raised.valueError [], fun _ => ""⟩

theorem completes {text : String} (shown : (PyText.ofString text).strip ≠ []) :
    CompletedTurn started turn [message text] completed (PyText.ofString text) usage where
  starts := by decide
  named := ⟨_, rfl, by decide⟩
  turns := by decide
  supported := by
    rw [List.forall_mem_singleton]
    rfl
  message := ⟨message text, rfl, rfl⟩
  shown := shown
  ends := by decide
  counts := by decide

theorem accepts {text : String} (shown : (PyText.ofString text).strip ≠ []) :
    Accepts ((table text).map Prod.snd) (PyText.ofString text) usage :=
  ⟨started, turn, [message text], completed, rfl, completes shown⟩

theorem reads_plain : List.Forall₂ (fun line value => texts.read line = .ok value) ((table "ab").map Prod.fst)
    ((table "ab").map Prod.snd) := .cons rfl (.cons rfl (.cons rfl (.cons rfl .nil)))

theorem reads_broken : List.Forall₂ (fun line value => texts.read line = .ok value) ((table "a\u2028b").map Prod.fst)
    ((table "a\u2028b").map Prod.snd) := .cons rfl (.cons rfl (.cons rfl (.cons rfl .nil)))

end StreamSample

theorem stream_meets_iff_sample : Meets StreamSample.interpreter StreamSample.texts true
    ((StreamSample.table "ab").map Prod.fst) ((StreamSample.table "ab").map Prod.snd) :=
  (stream_meets_iff StreamSample.interpreter StreamSample.reads_plain (by decide +kernel) true).mpr fun _ => by decide +kernel

/-- A message text with a line separator loses the whole turn. -/
theorem separator_rejected : ¬ Meets StreamSample.interpreter StreamSample.texts true
    ((StreamSample.table "a\u2028b").map Prod.fst) ((StreamSample.table "a\u2028b").map Prod.snd) := by
  rintro ⟨accepted, _⟩
  have parsed := (accepted _ _ (StreamSample.accepts (by decide))).1
  exact parseEvents_broken StreamSample.interpreter (by decide +kernel)
    (reads_of_forall₂ StreamSample.reads_broken) (by decide +kernel) true _ parsed

end Generation

end FeatureRl
